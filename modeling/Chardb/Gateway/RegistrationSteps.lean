import Chardb.Gateway.RegistrationInvariant

/-!
# What the operations of the store keep

Each operation keeps the invariant, and none but the two that clean up removes a generation that the
Cdb may know of.
-/

namespace Chardb.Gateway

open Chardb.Lib

variable {db db' : GatewayDb}

/-- Every generation is still there, and one that has left `pending` does not return to it. -/
def Keeps (db db' : GatewayDb) : Prop :=
  ∀ id g, db.generations.find? id = some g →
    ∃ g', db'.generations.find? id = some g' ∧ (g.cdbState ≠ .pending → g'.cdbState ≠ .pending)

/-- What an operation that removes nothing does to tables that agree. -/
structure Steps (db db' : GatewayDb) : Prop where
  inv : Inv db'
  keeps : Keeps db db'

theorem Steps.refl (h : Inv db) : Steps db db := ⟨h, fun _ g hg => ⟨g, hg, id⟩⟩

theorem Steps.trans {db₁ db₂ db₃ : GatewayDb} (h : Steps db₁ db₂) (h' : Steps db₂ db₃) :
    Steps db₁ db₃ := by
  refine ⟨h'.inv, fun id g hg => ?_⟩
  obtain ⟨g', hg', hc'⟩ := h.keeps id g hg
  obtain ⟨g'', hg'', hc''⟩ := h'.keeps id g' hg'
  exact ⟨g'', hg'', fun hc => hc'' (hc' hc)⟩

/-! ## One statement -/

theorem steps_updateGenerations {p : Generation → Bool} {f : Generation → Generation} {n : Nat}
    (h : Inv db) (hu : db.updateGenerations p f = some (db', n))
    (hid : ∀ g, (f g).registrationId = g.registrationId ∧ (f g).key = g.key)
    (hok : ∀ g ∈ db.generations.rows, p g = true →
      RowOk g (db.Headed g.registrationId) (db.outbox.find? g.registrationId) →
        RowOk (f g) (db.Headed g.registrationId) (db.outbox.find? g.registrationId))
    (hleft : ∀ g, p g = true → g.cdbState ≠ .pending → (f g).cdbState ≠ .pending) :
    Steps db db' := by
  refine ⟨inv_updateGenerations h hu hid hok, fun id g hg => ?_⟩
  obtain ⟨-, -, -, hfind⟩ := updateGenerations_find hu fun g => (hid g).1
  refine ⟨if p g then f g else g, by rw [hfind, hg]; rfl, fun hc => ?_⟩
  split
  · exact hleft g ‹_› hc
  · exact hc

theorem steps_updateOutbox {p : OutboxRow → Bool} {f : OutboxRow → OutboxRow} {n : Nat} (h : Inv db)
    (hu : db.updateOutbox p f = some (db', n))
    (hf : ∀ o, (f o).registrationId = o.registrationId ∧ (f o).targetVersion = o.targetVersion) :
    Steps db db' := by
  refine ⟨inv_updateOutbox h hu hf, ?_⟩
  obtain ⟨t, -, he⟩ := Option.map_eq_some_iff.mp hu
  obtain ⟨rfl, rfl⟩ := Prod.mk.inj he
  exact fun _ g hg => ⟨g, hg, id⟩

theorem steps_deleteOutbox (h : Inv db) (p : OutboxRow → Bool) : Steps db (db.deleteOutbox p) :=
  ⟨inv_deleteOutbox h p, fun _ g hg => ⟨g, hg, id⟩⟩

theorem steps_detaches {id : String} {f : Generation → Generation} (h : Inv db)
    (hd : Detaches db db' id f)
    (hok : ∀ g ∈ db.generations.rows, g.registrationId = id → RowOk (f g) False none)
    (hleft : ∀ g, g.cdbState ≠ .pending → (f g).cdbState ≠ .pending) : Steps db db' := by
  refine ⟨inv_detaches h hd hok, fun i g hg => ?_⟩
  refine ⟨if i = id then f g else g, by rw [hd.generations, hg]; rfl, fun hc => ?_⟩
  split
  · exact hleft g hc
  · exact hc

theorem retire_left {g : Generation} {nowMs : Nat} (hc : g.cdbState ≠ .pending) :
    (g.retire nowMs).cdbState ≠ .pending := by
  show (if g.cdbState = .pending then CdbState.pending else .retiring) ≠ .pending
  rw [if_neg hc]
  decide

/-! ## Installing -/

theorem Steps.arm {i : Identity} {recoveryAt nowMs : Nat} {b : Bool} (h : Inv db)
    (he : db.armGatewaySubscriptionRecovery i recoveryAt nowMs = some (db', b)) : Steps db db' := by
  unfold GatewayDb.armGatewaySubscriptionRecovery at he
  split at he
  · cases he
  · obtain ⟨⟨d, n⟩, hu, he⟩ := Option.map_eq_some_iff.mp he
    obtain ⟨rfl, -⟩ := Prod.mk.inj he
    refine steps_updateGenerations h hu (fun _ => ⟨rfl, rfl⟩) (fun g _ hp hrow => ?_)
      (fun g _ hc => hc)
    obtain ⟨-, hl, hc, -⟩ := of_decide_eq_true hp
    have hna : ¬ g.Active := fun ha => by rw [ha.1] at hl; cases hl
    refine hrow.dirty _ rfl rfl (fun _ => rfl) (fun _ => rfl) rfl rfl rfl (fun lease hlease => ?_) rfl
      le_rfl
    rw [(hrow.idle hna).2.2] at hlease
    cases hlease

/-- An install that is activated has no run and no outbox row. -/
theorem RowOk.activate {g : Generation} {headed : Prop} {o : Option OutboxRow}
    (h : RowOk g headed o) (hl : g.lifecycle = .installing) (changeSeq nowMs : Nat) :
    RowOk { g with
      lifecycle := .active
      cdbState := .active
      dirtyVersion := max g.dirtyVersion changeSeq
      initialSnapshotPending := true
      retryCount := 0
      retryAt := none
      retryError := none
      updatedAt := nowMs } headed o := by
  have hna : ¬ g.Active := fun ha => by rw [ha.1] at hl; cases hl
  have hidle := h.idle hna
  refine ⟨.inr (.inl ⟨rfl, rfl⟩), ⟨fun _ hr => (by cases hr), fun _ => ?_⟩, fun hr => (by cases hr),
    fun hr => (by cases hr), .inl hidle, fun hrun => absurd hidle hrun, fun _ _ _ ht => (by cases ht),
    fun r hr => ?_⟩
  · apply h.head.mpr
    rw [hl]
    decide
  · rw [h.unstaged hna] at hr
    cases hr

theorem Steps.activate {i : Identity} {changeSeq nowMs : Nat} {b : Bool} (h : Inv db)
    (he : db.activateGatewaySubscription i changeSeq nowMs = some (db', b)) : Steps db db' := by
  obtain ⟨⟨d, n⟩, hu, he⟩ := Option.map_eq_some_iff.mp he
  obtain ⟨rfl, -⟩ := Prod.mk.inj he
  refine steps_updateGenerations h hu (fun _ => ⟨rfl, rfl⟩) (fun g _ hp hrow => ?_)
    (fun g _ _ hc => by cases hc)
  obtain ⟨-, hl, -⟩ := of_decide_eq_true hp
  exact hrow.activate hl changeSeq nowMs

/-! ## Invalidation and runs -/

theorem Steps.accept {i : Identity} {sourceCdbId : String} {changeSeq updatedAt : Nat} {b : Bool}
    (h : Inv db) (he : db.acceptInvalidation i sourceCdbId changeSeq updatedAt = some (db', b)) :
    Steps db db' := by
  unfold GatewayDb.acceptInvalidation at he
  split at he
  · cases he
    exact .refl h
  · split at he
    · cases he
      exact .refl h
    · split at he
      · cases he
      · obtain ⟨⟨d, n⟩, hu, he⟩ := Option.bind_eq_some_iff.mp he
        dsimp only at he
        split at he
        · cases he
        · cases he
          refine steps_updateGenerations h hu (fun _ => ⟨rfl, rfl⟩) (fun g _ _ hrow => ?_)
            (fun g _ hc => hc)
          exact hrow.dirty _ rfl rfl (fun _ => rfl) hrow.scheduled rfl rfl rfl hrow.leased rfl
            (Nat.le_max_left _ _)

theorem Steps.claim {i : Identity} {runToken : String} {nowMs leaseExpiresAt : Nat} {b : Bool}
    (h : Inv db)
    (he : db.claimDirtyGatewayRegistration i runToken nowMs leaseExpiresAt = some (db', b)) :
    Steps db db' := by
  unfold GatewayDb.claimDirtyGatewayRegistration at he
  split at he
  · cases he
  · rename_i hlater
    obtain ⟨⟨d, n⟩, hu, he⟩ := Option.map_eq_some_iff.mp he
    obtain ⟨rfl, -⟩ := Prod.mk.inj he
    refine steps_updateGenerations h hu (fun _ => ⟨rfl, rfl⟩) (fun g hg hp hrow => ?_)
      (fun g _ hc => hc)
    obtain ⟨⟨-, hact, -⟩, -, -, hretry, hstaged, -⟩ := of_decide_eq_true hp
    have hcheck : g.deliveredVersion ≤ g.dirtyVersion := (db.generations.checked g hg).1
    refine ⟨.inr (.inl hact), hrow.head, hrow.scrubbed, hrow.scheduled, .inr ⟨rfl, rfl, rfl⟩,
      fun _ => ⟨hact, fun t ht => ?_⟩, fun lease hlease t ht => ?_, fun r hr => ?_⟩
    · cases ht
      exact hcheck
    · cases hlease
      have := hretry t ht
      omega
    · exact absurd (by rw [GatewayDb.Staged, hr]; rfl) hstaged

/-- A run that stops leaves an active generation. -/
theorem RowOk.stop {g : Generation} {headed : Prop} {o : Option OutboxRow} (h : RowOk g headed o)
    (ha : g.Active) (g' : Generation) (hl : g'.lifecycle = g.lifecycle)
    (hc : g'.cdbState = g.cdbState) (hidle : g'.Idle) (hd : g'.deliveredVersion = g.deliveredVersion)
    (hv : g'.dirtyVersion = g.dirtyVersion) : RowOk g' headed o := by
  have hact : g'.Active := ⟨hl.trans ha.1, hc.trans ha.2⟩
  refine ⟨.inr (.inl hact), ?_, fun hr => ?_, fun hr => ?_, .inl hidle, fun hrun => absurd hidle hrun,
    fun lease hlease => ?_, fun r hr => ?_⟩
  · rw [hl]
    exact h.head
  · rw [hact.1] at hr
    cases hr
  · rw [hact.2] at hr
    cases hr
  · rw [hidle.2.2] at hlease
    cases hlease
  · obtain ⟨-, -, hle, hge⟩ := h.staged r hr
    rw [hd, hv]
    exact ⟨hact, hidle, hle, hge⟩

theorem Steps.failRun {i : Identity} {runToken error : String} {runVersion nowMs : Nat}
    {retryNotBeforeMs : Option Nat} {b : Bool} (h : Inv db)
    (he : db.failGatewayDirtyRun i runToken runVersion nowMs retryNotBeforeMs error =
      some (db', b)) : Steps db db' := by
  obtain ⟨⟨d, n⟩, hu, he⟩ := Option.map_eq_some_iff.mp he
  obtain ⟨rfl, -⟩ := Prod.mk.inj he
  refine steps_updateGenerations h hu (fun _ => ⟨rfl, rfl⟩) (fun g _ hp hrow => ?_)
    (fun g _ hc => hc)
  obtain ⟨⟨-, ha, -⟩, -⟩ := of_decide_eq_true hp
  exact hrow.stop ha _ rfl rfl ⟨rfl, rfl, rfl⟩ rfl rfl

/-- The retry of an active generation without a run may move. -/
theorem RowOk.retryAt {g : Generation} {headed : Prop} {o : Option OutboxRow} (h : RowOk g headed o)
    (hidle : g.Idle) (t : Nat) (error : Option String) (nowMs : Nat) :
    RowOk { g with retryAt := some t, retryError := error, updatedAt := nowMs } headed o := by
  refine h.dirty _ rfl rfl (fun _ => rfl) (fun _ => rfl) rfl rfl rfl (fun lease hlease => ?_) rfl le_rfl
  rw [hidle.2.2] at hlease
  cases hlease

theorem Steps.defer {i : Identity} {nowMs retryAt : Nat} {b : Bool} (h : Inv db)
    (he : db.deferGatewayDirtyRun i nowMs retryAt = some (db', b)) : Steps db db' := by
  unfold GatewayDb.deferGatewayDirtyRun at he
  split at he
  · cases he
  · obtain ⟨⟨d, n⟩, hu, he⟩ := Option.map_eq_some_iff.mp he
    obtain ⟨rfl, -⟩ := Prod.mk.inj he
    refine steps_updateGenerations h hu (fun _ => ⟨rfl, rfl⟩) (fun g _ hp hrow => ?_)
      (fun g _ hc => hc)
    obtain ⟨-, hidle, -⟩ := of_decide_eq_true hp
    exact hrow.retryAt hidle _ _ _

theorem Steps.resume {connectionId : String} {nowMs : Nat} {b : Bool} (h : Inv db)
    (he : db.resumeGatewayAuthDeferredWork connectionId nowMs = some (db', b)) : Steps db db' := by
  obtain ⟨⟨d, n⟩, hu, he⟩ := Option.bind_eq_some_iff.mp he
  obtain ⟨⟨d', m⟩, hu', he⟩ := Option.bind_eq_some_iff.mp he
  cases he
  have hstep : Steps db d := by
    refine steps_updateGenerations h hu (fun _ => ⟨rfl, rfl⟩) (fun g _ hp hrow => ?_)
      (fun g _ hc => hc)
    obtain ⟨-, -, -, hidle, -⟩ := of_decide_eq_true hp
    exact hrow.retryAt hidle _ _ _
  exact hstep.trans (steps_updateOutbox hstep.inv hu' fun _ => ⟨rfl, rfl⟩)

theorem Steps.cleanupFailure {i : Identity} {retryCount nowMs : Nat} {error : String} (h : Inv db)
    (he : db.recordGatewayCleanupFailure i retryCount nowMs error = some db') : Steps db db' := by
  obtain ⟨⟨d, n⟩, hu, rfl⟩ := Option.map_eq_some_iff.mp he
  refine steps_updateGenerations h hu (fun _ => ⟨rfl, rfl⟩) (fun g _ hp hrow => ?_)
    (fun g _ hc => hc)
  obtain ⟨⟨-, -, hl, -⟩, -⟩ := of_decide_eq_true hp
  have hna : ¬ g.Active := fun ha => by rw [ha.1] at hl; cases hl
  refine hrow.dirty _ rfl rfl (fun _ => rfl) (fun _ => rfl) rfl rfl rfl (fun lease hlease => ?_) rfl
    le_rfl
  rw [(hrow.idle hna).2.2] at hlease
  cases hlease

/-! ## Staging and acknowledging -/

/-- What is delivered reaches the target of the outbox row. -/
theorem RowOk.acknowledge {g : Generation} {headed : Prop} {r : OutboxRow}
    (h : RowOk g headed (some r)) (ha : g.Active) (hle : g.deliveredVersion ≤ r.targetVersion)
    (cookie : String) (nowMs : Nat) :
    RowOk { g with
      deliveredVersion := max g.deliveredVersion r.targetVersion
      initialSnapshotPending := false
      payload := { g.payload with lastCookie := some cookie, lastSnapshotCookie := some cookie }
      updatedAt := nowMs } headed (some r) := by
  obtain ⟨-, hidle, -, hge⟩ := h.staged r rfl
  refine ⟨.inr (.inl ha), h.head, fun hr => ?_, h.scheduled, .inl hidle,
    fun hrun => absurd hidle hrun, h.leased, fun r' hr' => ?_⟩
  · exact absurd (ha.1.symm.trans hr) (by decide)
  · obtain rfl := Option.some.inj hr'
    exact ⟨ha, hidle, Nat.max_le.mpr ⟨hle, le_rfl⟩, hge⟩

theorem select_eq_one {p : Generation → Bool} {t : GenerationTable}
    (h : (t.select p).length = 1) : ∃ g ∈ t.rows, p g = true := by
  obtain ⟨g, hg⟩ := List.length_eq_one_iff.mp h
  exact ⟨g, Table.mem_select.mp (by rw [hg]; exact List.mem_singleton_self g)⟩

/-- An outbox row for an active generation without a run. -/
theorem inv_insertOutbox {t : OutboxTable} {r : OutboxRow} (h : Inv db)
    (hi : db.outbox.insert? r = some t) {g : Generation}
    (hg : db.generations.find? r.registrationId = some g)
    (hok : g.Active ∧ g.Idle ∧ g.deliveredVersion ≤ r.targetVersion ∧
      r.targetVersion ≤ g.dirtyVersion) : Inv { db with outbox := t } := by
  intro id
  refine ⟨fun hnone => ?_, (h id).key, fun g' hg' => ?_⟩
  · have hne : r.registrationId ≠ id := by
      rintro rfl
      rw [hg] at hnone
      cases hnone
    refine ⟨((h id).absent hnone).1, ?_⟩
    show t.find? id = none
    rw [Table.find?_insert hi, if_neg hne]
    exact ((h id).absent hnone).2
  · show RowOk g' (db.Headed id) (t.find? id)
    rw [Table.find?_insert hi]
    have hrow := (h id).row g' hg'
    split
    · rename_i he
      subst he
      obtain rfl := Option.some.inj (hg.symm.trans hg')
      refine ⟨hrow.states, hrow.head, hrow.scrubbed, hrow.scheduled, hrow.run, hrow.running,
        hrow.leased, fun r' hr' => ?_⟩
      obtain rfl := Option.some.inj hr'
      exact hok
    · exact hrow

theorem Steps.stage {input : GatewayDb.Stage} {refused b : Bool} (h : Inv db)
    (he : db.stageGatewaySnapshot input refused = some (db', b)) : Steps db db' := by
  obtain ⟨⟨d, n⟩, hu, he⟩ := Option.bind_eq_some_iff.mp he
  have hstep : Steps db d := by
    refine steps_updateGenerations h hu (fun _ => ⟨rfl, rfl⟩) (fun g _ hp hrow => ?_)
      (fun g _ hc => hc)
    obtain ⟨⟨⟨-, ha, -⟩, -⟩, -⟩ := of_decide_eq_true hp
    exact hrow.stop ha _ rfl rfl ⟨rfl, rfl, rfl⟩ rfl rfl
  dsimp only at he
  split at he
  · cases he
    exact hstep
  · rename_i hn
    split at he
    · cases he
    · obtain ⟨t, hi, he⟩ := Option.bind_eq_some_iff.mp he
      split at he
      · cases he
      · cases he
        obtain ⟨-, -, rfl, hfind⟩ := updateGenerations_find hu fun _ => rfl
        obtain ⟨g, hg, hp⟩ := select_eq_one (not_not.mp hn)
        obtain ⟨⟨⟨⟨hid, -⟩, ha, -⟩, htoken, -⟩, htarget, -⟩ := of_decide_eq_true hp
        have hrow := h.rowOk hg
        have hrun : ¬ g.Idle := fun hidle => by
          rw [hidle.1] at htoken
          cases htoken
        have hge := (hrow.running hrun).2 input.targetVersion htarget
        have hle := (db.generations.checked g hg).2 input.targetVersion htarget
        have hnew := hfind input.row.registrationId
        rw [show db.generations.find? input.row.registrationId = some g by
          rw [← show g.registrationId = input.row.registrationId from hid]
          exact find_generation hg, Option.map_some, if_pos hp] at hnew
        exact ⟨inv_insertOutbox hstep.inv hi hnew ⟨ha, ⟨rfl, rfl, rfl⟩, hge, hle⟩, hstep.keeps⟩

theorem Steps.acknowledge {i : Identity} {cookie : String} {nowMs : Nat} {refused b : Bool}
    (h : Inv db) (he : db.acknowledgeGatewaySnapshot i cookie nowMs refused = some (db', b)) :
    Steps db db' := by
  unfold GatewayDb.acknowledgeGatewaySnapshot at he
  split at he
  · cases he
    exact .refl h
  · rename_i staged hstaged
    obtain ⟨⟨d, n⟩, hu, he⟩ := Option.bind_eq_some_iff.mp he
    have hfound := List.find?_some hstaged
    obtain ⟨hsid, hcookie, -⟩ := of_decide_eq_true hfound
    have hout : db.outbox.find? i.registrationId = some staged := by
      rw [← hsid]
      exact Table.find?_key (List.mem_of_find?_eq_some hstaged)
    have hstep : Steps db d := by
      refine steps_updateGenerations h hu (fun _ => ⟨rfl, rfl⟩) (fun g _ hp hrow => ?_)
        (fun g _ hc => hc)
      obtain ⟨⟨⟨hid, -⟩, ha, -⟩, hle, -⟩ := of_decide_eq_true hp
      have ho : db.outbox.find? g.registrationId = some staged := by
        rw [hid]
        exact hout
      rw [ho] at hrow ⊢
      exact hrow.acknowledge ha hle cookie nowMs
    dsimp only at he
    split at he
    · cases he
      exact hstep
    · split at he
      · cases he
      · split at he
        · cases he
        · cases he
          exact hstep.trans (steps_deleteOutbox hstep.inv _)

/-! ## Sending -/

theorem Steps.claimDue {allowed : OutboxRow → Bool} {claimToken : String}
    {nowMs attemptExpiresAt : Nat} {o : Option OutboxRow} (h : Inv db)
    (he : db.claimDueGatewaySnapshot allowed claimToken nowMs attemptExpiresAt = some (db', o)) :
    Steps db db' := by
  unfold GatewayDb.claimDueGatewaySnapshot at he
  split at he
  · cases he
  · split at he
    · cases he
      exact .refl h
    · obtain ⟨⟨d, n⟩, hu, he⟩ := Option.map_eq_some_iff.mp he
      obtain ⟨rfl, -⟩ := Prod.mk.inj he
      exact steps_updateOutbox h hu fun _ => ⟨rfl, rfl⟩

theorem Steps.discard {c : GatewayDb.SendClaim} {b : Bool} (h : Inv db)
    (he : db.discardClaimedGatewaySnapshot c = some (db', b)) : Steps db db' := by
  cases he
  exact steps_deleteOutbox h _

theorem Steps.failSend {c : GatewayDb.SendClaim} {nowMs : Nat} {retryNotBeforeMs : Option Nat}
    {error : String} {b : Bool} (h : Inv db)
    (he : db.failGatewaySnapshotSend c nowMs retryNotBeforeMs error = some (db', b)) :
    Steps db db' := by
  obtain ⟨⟨d, n⟩, hu, he⟩ := Option.map_eq_some_iff.mp he
  obtain ⟨rfl, -⟩ := Prod.mk.inj he
  exact steps_updateOutbox h hu fun _ => ⟨rfl, rfl⟩

/-! ## Retiring -/

/-- The statements that retire the generation of a subscription, in whatever order they come. -/
theorem detaches_of_statements {key : RegistrationKey} {id : String} {t : GenerationTable}
    {p : Generation → Bool} {f : Generation → Generation} (h : Inv db)
    (hu : db.generations.update? p f = some t)
    (hid : ∀ g, (f g).registrationId = g.registrationId)
    (hp : ∀ g ∈ db.generations.rows, p g = true ↔ g.registrationId = id)
    (hkey : ∀ g ∈ db.generations.rows, g.registrationId = id → g.key = key) :
    Detaches db
      { generations := t
        heads := db.heads.deleteWhere fun hd => decide (hd.key = key ∧ hd.registrationId = id)
        outbox := db.outbox.deleteWhere fun o => decide (o.registrationId = id) } id f := by
  refine ⟨fun i => ?_, fun hd => ?_, fun i => ?_⟩
  · show t.find? i = _
    rw [Table.find?_update hu (fun g _ _ => hid g)]
    cases hg : db.generations.find? i with
    | none => rfl
    | some g =>
      obtain ⟨hm, rfl⟩ := generation_of_find hg
      rw [Option.map_some, Option.map_some]
      by_cases he : g.registrationId = id
      · rw [if_pos he, if_pos ((hp g hm).mpr he)]
      · rw [if_neg he, if_neg fun hh => he ((hp g hm).mp hh)]
  · show hd ∈ db.heads.deleteWhere _ ↔ _
    rw [Table.mem_deleteWhere, decide_eq_false_iff_not]
    refine and_congr_right fun hm => ⟨fun hn he => hn ⟨?_, he⟩, fun hn he => hn he.2⟩
    cases hg : db.generations.find? id with
    | none => exact absurd ⟨hd, hm, he⟩ ((h id).absent hg).1
    | some g =>
      obtain ⟨hgm, hgid⟩ := generation_of_find hg
      exact ((h id).key g hg hd hm he).trans (hkey g hgm hgid)
  · show (db.outbox.deleteWhere _).find? i = _
    rw [Table.find?_deleteWhere]
    cases ho : db.outbox.find? i with
    | none => split <;> rfl
    | some o =>
      obtain ⟨-, rfl⟩ := Table.find?_eq_some.mp ho
      by_cases he : o.registrationId = id
      · rw [if_pos he, Option.filter, if_neg (by rw [decide_eq_true he]; decide)]
      · rw [if_neg he, Option.filter, if_pos (by rw [decide_eq_false he]; decide)]

/-- A registration loses its head and its outbox row, and its row changes. -/
structure Scrubs (db db' : GatewayDb) (id : String) (f : Generation → Generation) : Prop extends
    Detaches db db' id f where
  rows : db'.generations.rows =
    db.generations.rows.map fun g => if g.registrationId = id then f g else g
  outboxRows : db'.outbox.rows = db.outbox.rows.filter fun o => !decide (o.registrationId = id)

theorem scrubs_of_statements {key : RegistrationKey} {id : String} {t : GenerationTable}
    {p : Generation → Bool} {f : Generation → Generation} (h : Inv db)
    (hu : db.generations.update? p f = some t)
    (hid : ∀ g, (f g).registrationId = g.registrationId)
    (hp : ∀ g ∈ db.generations.rows, p g = true ↔ g.registrationId = id)
    (hkey : ∀ g ∈ db.generations.rows, g.registrationId = id → g.key = key) :
    Scrubs db
      { generations := t
        heads := db.heads.deleteWhere fun hd => decide (hd.key = key ∧ hd.registrationId = id)
        outbox := db.outbox.deleteWhere fun o => decide (o.registrationId = id) } id f := by
  refine ⟨detaches_of_statements h hu hid hp hkey, ?_, rfl⟩
  refine (Table.rows_update hu).trans (List.map_congr_left fun g hg => ?_)
  by_cases hgid : g.registrationId = id
  · rw [if_pos ((hp g hg).mpr hgid), if_pos hgid]
  · rw [if_neg fun hpg => hgid ((hp g hg).mp hpg), if_neg hgid]

theorem retire_scrubs {key : RegistrationKey} {registrationId : String} {nowMs : Nat} {b : Bool}
    (h : Inv db)
    (he : db.retireGatewayRegistration key registrationId nowMs = some (db', b)) :
    (db' = db ∧ b = false) ∨
      (db.Headed registrationId ∧ Scrubs db db' registrationId (Generation.retire · nowMs)) := by
  unfold GatewayDb.retireGatewayRegistration at he
  split at he
  · rename_i hany
    obtain ⟨hd, hm, hp⟩ := List.any_eq_true.mp hany
    obtain ⟨rfl, rfl⟩ := of_decide_eq_true hp
    obtain ⟨d, hs, he⟩ := Option.map_eq_some_iff.mp he
    obtain ⟨rfl, -⟩ := Prod.mk.inj he
    obtain ⟨⟨d', n⟩, hu, rfl⟩ := Option.map_eq_some_iff.mp hs
    obtain ⟨t, ht, he⟩ := Option.map_eq_some_iff.mp hu
    obtain ⟨rfl, -⟩ := Prod.mk.inj he
    have hkey : ∀ g ∈ db.generations.rows, g.registrationId = hd.registrationId → g.key = hd.key :=
      fun g hg hgid => ((h _).key g (by rw [← hgid]; exact find_generation hg) hd hm rfl).symm
    refine .inr ⟨⟨hd, hm, rfl⟩, scrubs_of_statements h ht (fun _ => rfl) (fun g hg => ?_) hkey⟩
    rw [decide_eq_true_eq]
    exact ⟨And.left, fun hgid => ⟨hgid, hkey g hg hgid⟩⟩
  · cases he
    exact .inl ⟨rfl, rfl⟩

theorem retireCurrent_scrubs {key : RegistrationKey} {connectionId : String} {nowMs : Nat}
    {o : Option Generation} (h : Inv db)
    (he : db.retireCurrentGatewayRegistration key connectionId nowMs = some (db', o)) :
    db' = db ∨ ∃ id, db.Headed id ∧ Scrubs db db' id (Generation.retire · nowMs) := by
  unfold GatewayDb.retireCurrentGatewayRegistration at he
  split at he
  · cases he
    exact .inl rfl
  · rename_i current hcur
    have hfound := List.find?_some hcur
    obtain ⟨hkey, hconn, hcurrent⟩ := of_decide_eq_true hfound
    have hmem := List.mem_of_find?_eq_some hcur
    obtain ⟨⟨d, n⟩, hu, he⟩ := Option.bind_eq_some_iff.mp he
    dsimp only at he
    split at he
    · cases he
    · cases he
      obtain ⟨t, ht, he⟩ := Option.map_eq_some_iff.mp hu
      obtain ⟨rfl, -⟩ := Prod.mk.inj he
      have hone : ∀ g ∈ db.generations.rows, g.registrationId = current.registrationId →
          g = current := fun g hg hgid => Table.eq_of_key hg hmem hgid
      refine .inr ⟨_, (h.current_iff hmem).mp hcurrent,
        scrubs_of_statements h ht (fun _ => rfl) (fun g hg => ?_) fun g hg hgid => ?_⟩
      · rw [decide_eq_true_eq]
        refine ⟨And.left, fun hgid => ?_⟩
        obtain rfl := hone g hg hgid
        exact ⟨rfl, hkey, hconn⟩
      · obtain rfl := hone g hg hgid
        exact hkey

theorem steps_retired {id : String} {nowMs : Nat} (h : Inv db)
    (hs : Scrubs db db' id (Generation.retire · nowMs)) : Steps db db' :=
  steps_detaches h hs.toDetaches (fun g _ _ => RowOk.retire g nowMs) fun _ hc => retire_left hc

theorem Steps.retire {key : RegistrationKey} {registrationId : String} {nowMs : Nat} {b : Bool}
    (h : Inv db)
    (he : db.retireGatewayRegistration key registrationId nowMs = some (db', b)) : Steps db db' := by
  rcases retire_scrubs h he with ⟨rfl, -⟩ | ⟨-, hs⟩
  · exact .refl h
  · exact steps_retired h hs

theorem Steps.retireCurrent {key : RegistrationKey} {connectionId : String} {nowMs : Nat}
    {o : Option Generation} (h : Inv db)
    (he : db.retireCurrentGatewayRegistration key connectionId nowMs = some (db', o)) :
    Steps db db' := by
  rcases retireCurrent_scrubs h he with rfl | ⟨id, -, hs⟩
  · exact .refl h
  · exact steps_retired h hs

theorem Steps.retireAll {nowMs : Nat} {gs : List Generation} (h : Inv db)
    (he : GatewayDb.retireAll nowMs gs db = some db') : Steps db db' := by
  induction gs generalizing db with
  | nil =>
    cases he
    exact .refl h
  | cons g gs ih =>
    unfold GatewayDb.retireAll at he
    split at he
    · rename_i hone
      split at he
      · have hstep := Steps.retireCurrent h hone
        exact hstep.trans (ih hstep.inv he)
      · cases he
    · cases he

theorem Steps.retireConnection {connectionId : String} {nowMs : Nat} {refused : Bool} (h : Inv db)
    (he : db.retireCurrentGatewayRegistrationsForConnection connectionId nowMs refused = some db') :
    Steps db db' := by
  unfold GatewayDb.retireCurrentGatewayRegistrationsForConnection at he
  split at he
  · cases he
  · exact Steps.retireAll h he

theorem Steps.retireClaimed {i : Identity} {runToken : String} {runVersion nowMs : Nat} {b : Bool}
    (h : Inv db)
    (he : db.retireClaimedGatewayRegistration i runToken runVersion nowMs = some (db', b)) :
    Steps db db' := by
  unfold GatewayDb.retireClaimedGatewayRegistration at he
  split at he
  · exact Steps.retire h he
  · cases he
    exact .refl h

theorem Steps.retireSnapshot {c : GatewayDb.SendClaim} {nowMs : Nat} {b : Bool} (h : Inv db)
    (he : db.retireClaimedGatewaySnapshot c nowMs = some (db', b)) : Steps db db' := by
  unfold GatewayDb.retireClaimedGatewaySnapshot at he
  split at he
  · exact Steps.retire h he
  · cases he
    exact .refl h

theorem Steps.markBase {c : GatewayDb.SendClaim} {baseCookie : Option String} {nowMs : Nat}
    {exceeds b : Bool} (h : Inv db)
    (he : db.markGatewaySnapshotSendBaseCookie c baseCookie nowMs exceeds = some (db', b)) :
    Steps db db' := by
  obtain ⟨⟨d, n⟩, hu, he⟩ := Option.bind_eq_some_iff.mp he
  have hstep : Steps db d := steps_updateOutbox h hu fun _ => ⟨rfl, rfl⟩
  dsimp only at he
  split at he
  · cases he
    exact hstep
  · split at he
    · cases he
      exact hstep
    · obtain ⟨⟨d', b'⟩, hr, he⟩ := Option.bind_eq_some_iff.mp he
      have hstep' := hstep.trans (Steps.retireSnapshot hstep.inv hr)
      cases b' with
      | true =>
        cases he
        exact hstep'
      | false => cases he

theorem markAmbiguous_scrubs {i : Identity} {nowMs : Nat} {b : Bool} (h : Inv db)
    (he : db.markPendingGatewaySubscriptionAmbiguous i nowMs = some (db', b)) :
    db' = db ∨ ∃ g ∈ db.generations.rows, GatewayDb.Pending i g ∧
      Scrubs db db' g.registrationId (GatewayDb.ambiguous nowMs) := by
  unfold GatewayDb.markPendingGatewaySubscriptionAmbiguous at he
  split at he
  · rename_i hany
    obtain ⟨pending, hmem, hp⟩ := List.any_eq_true.mp hany
    have hpend : GatewayDb.Pending i pending := of_decide_eq_true hp
    obtain ⟨⟨hid, hkey, -⟩, -⟩ := hpend
    obtain ⟨⟨d, n⟩, hu, he⟩ := Option.bind_eq_some_iff.mp he
    dsimp only at he
    obtain ⟨t, ht, hd⟩ := Option.map_eq_some_iff.mp hu
    obtain ⟨rfl, rfl⟩ := Prod.mk.inj hd
    have hone : ∀ g ∈ db.generations.rows, g.registrationId = i.registrationId → g = pending :=
      fun g hg hgid => Table.eq_of_key hg hmem (hgid.trans hid.symm)
    have hpid : ∀ g ∈ db.generations.rows, decide (GatewayDb.Pending i g) = true ↔
        g.registrationId = i.registrationId := fun g hg => by
      constructor
      · intro hpg
        obtain ⟨⟨hgid, -⟩, -⟩ := of_decide_eq_true hpg
        exact hgid
      · intro hgid
        obtain rfl := hone g hg hgid
        exact hp
    split at he
    · -- the pending row is there, so the update finds it
      rename_i hn
      refine absurd (le_antisymm (Table.select_length_le_one fun r hr r' hr' h₁ h₂ => ?_)
        (List.length_pos_of_mem (Table.mem_select.mpr ⟨hmem, hp⟩))) hn
      exact Table.eq_of_key hr hr' (((hpid r hr).mp h₁).trans ((hpid r' hr').mp h₂).symm)
    · cases he
      refine .inr ⟨pending, hmem, of_decide_eq_true hp, ?_⟩
      rw [hid]
      refine scrubs_of_statements h ht (fun _ => rfl) hpid fun g hg hgid => ?_
      obtain rfl := hone g hg hgid
      exact hkey
  · cases he
    exact .inl rfl

theorem Steps.markAmbiguous {i : Identity} {nowMs : Nat} {b : Bool} (h : Inv db)
    (he : db.markPendingGatewaySubscriptionAmbiguous i nowMs = some (db', b)) : Steps db db' := by
  rcases markAmbiguous_scrubs h he with rfl | ⟨g, -, -, hs⟩
  · exact .refl h
  · exact steps_detaches h hs.toDetaches (fun g _ _ => RowOk.ambiguous nowMs g)
      fun _ _ hc => by cases hc

/-! ## Removing -/

theorem deleteGenerations_find {p : Generation → Bool} {n : Nat}
    (hd : db.deleteGenerations p = some (db', n)) (id : String) :
    db'.generations.find? id = (db.generations.find? id).filter fun g => !p g := by
  unfold GatewayDb.deleteGenerations at hd
  split at hd
  · cases hd
  · cases hd
    exact Table.find?_deleteWhere id

theorem Agrees.congr {id : String} (h : Agrees db id)
    (hg : db'.generations.find? id = db.generations.find? id)
    (hh : ∀ hd : Head, hd.registrationId = id → (hd ∈ db'.heads.rows ↔ hd ∈ db.heads.rows))
    (ho : db'.outbox.find? id = db.outbox.find? id) : Agrees db' id := by
  have hheaded : db'.Headed id ↔ db.Headed id := by
    constructor
    · rintro ⟨hd, hm, he⟩
      exact ⟨hd, (hh hd he).mp hm, he⟩
    · rintro ⟨hd, hm, he⟩
      exact ⟨hd, (hh hd he).mpr hm, he⟩
  refine ⟨fun hnone => ?_, fun g hg' hd hm he => ?_, fun g hg' => ?_⟩
  · rw [hheaded, ho]
    exact h.absent (hg.symm.trans hnone)
  · exact h.key g (hg.symm.trans hg') hd ((hh hd he).mp hm) he
  · rw [propext hheaded, ho]
    exact h.row g (hg.symm.trans hg')

/-- The generations that go have no head, as the statement would throw, and their outbox rows go with
them. -/
theorem inv_deleteGenerations {p : Generation → Bool} {n : Nat}
    (hd : db.deleteGenerations p = some (db', n))
    (h : ∀ id, (∀ g, db.generations.find? id = some g → p g = false) → Agrees db id) : Inv db' := by
  have hfind := deleteGenerations_find hd
  unfold GatewayDb.deleteGenerations at hd
  split at hd
  · cases hd
  · rename_i hhead
    cases hd
    intro id
    by_cases hgone : ∃ g, db.generations.find? id = some g ∧ p g = true
    · obtain ⟨g, hg, hp⟩ := hgone
      obtain ⟨hm, rfl⟩ := generation_of_find hg
      have hnone := hfind g.registrationId
      rw [hg, Option.filter_some_neg (by rw [hp]; decide)] at hnone
      refine ⟨fun _ => ⟨fun hh => hhead ⟨g, hm, hp, hh⟩, ?_⟩, fun g' hg' => ?_, fun g' hg' => ?_⟩
      · show (db.outbox.deleteWhere _).find? _ = none
        refine Table.find?_eq_none.mpr fun o ho hid => ?_
        obtain ⟨-, hkeep⟩ := Table.mem_deleteWhere.mp ho
        exact of_decide_eq_false hkeep ⟨g, hm, hp, hid.symm⟩
      · rw [hnone] at hg'
        cases hg'
      · rw [hnone] at hg'
        cases hg'
    · have hstay : ∀ g, db.generations.find? id = some g → p g = false := fun g hg =>
        Bool.eq_false_iff.mpr fun hp => hgone ⟨g, hg, hp⟩
      have hsub : ∀ g, (db.generations.deleteWhere p).find? id = some g →
          db.generations.find? id = some g := fun g hg =>
        (Option.filter_eq_some_iff.mp ((hfind id).symm.trans hg)).1
      refine ⟨fun hnone => ?_, fun g hg => (h id hstay).key g (hsub g hg), fun g hg =>
        ((h id hstay).row g (hsub g hg)).outbox fun r hr => ⟨r, ?_, rfl⟩⟩
      · have hnone' : db.generations.find? id = none := by
          cases hg : db.generations.find? id with
          | none => rfl
          | some g =>
            have hnone := (hfind id).symm.trans hnone
            rw [hg, Option.filter_some_pos (by rw [hstay g hg]; rfl)] at hnone
            cases hnone
        obtain ⟨hh, ho⟩ := (h id hstay).absent hnone'
        refine ⟨hh, ?_⟩
        show (db.outbox.deleteWhere _).find? id = none
        rw [Table.find?_deleteWhere, ho]
        rfl
      · have hr : (db.outbox.deleteWhere _).find? id = some r := hr
        rw [Table.find?_deleteWhere] at hr
        exact (Option.filter_eq_some_iff.mp hr).1

/-- What `deleteNeverRegisteredGatewaySubscription` does: only a pending generation goes. -/
structure Forgets (db db' : GatewayDb) (i : Identity) : Prop where
  inv : Inv db'
  kept : ∀ id g, db.generations.find? id = some g →
    db'.generations.find? id = some g ∨ (id = i.registrationId ∧ g.cdbState = .pending)

theorem Forgets.deleteNever {i : Identity} {b : Bool} (h : Inv db)
    (he : db.deleteNeverRegisteredGatewaySubscription i = some (db', b)) : Forgets db db' i := by
  unfold GatewayDb.deleteNeverRegisteredGatewaySubscription at he
  split at he
  · rename_i hany
    obtain ⟨pending, hmem, hp⟩ := List.any_eq_true.mp hany
    have hpend : GatewayDb.Pending i pending := of_decide_eq_true hp
    obtain ⟨⟨hid, hkey, -⟩, hpending⟩ := hpend
    obtain ⟨⟨d, n⟩, hd, he⟩ := Option.map_eq_some_iff.mp he
    obtain ⟨rfl, -⟩ := Prod.mk.inj he
    have hone : ∀ g, db.generations.find? i.registrationId = some g → g = pending := fun g hg => by
      obtain ⟨hg, hgid⟩ := generation_of_find hg
      exact Table.eq_of_key hg hmem (hgid.trans hid.symm)
    refine ⟨inv_deleteGenerations hd fun id hstay => ?_, fun id g hg => ?_⟩
    · have hne : id ≠ i.registrationId := by
        rintro rfl
        rw [← hid] at hstay
        have := hstay pending (find_generation hmem)
        rw [hp] at this
        cases this
      refine (h id).congr rfl (fun hd hhd => ?_) ?_
      · show hd ∈ db.heads.deleteWhere _ ↔ _
        rw [Table.mem_deleteWhere, decide_eq_false_iff_not]
        exact ⟨And.left, fun hm => ⟨hm, fun he => hne (hhd.symm.trans he.2)⟩⟩
      · show (db.outbox.deleteWhere _).find? id = _
        rw [Table.find?_deleteWhere]
        cases ho : db.outbox.find? id with
        | none => rfl
        | some o =>
          obtain ⟨-, hoid⟩ := Table.find?_eq_some.mp ho
          refine Option.filter_some_pos ?_
          rw [Bool.not_eq_true', decide_eq_false_iff_not, hoid]
          exact hne
    · by_cases hpg : GatewayDb.Pending i g
      · exact .inr ⟨(generation_of_find hg).2.symm.trans hpg.1.1, hpg.2⟩
      · left
        refine (deleteGenerations_find hd id).trans ?_
        show (db.generations.find? id).filter _ = some g
        rw [hg]
        refine Option.filter_some_pos ?_
        rw [Bool.not_eq_true', decide_eq_false_iff_not]
        exact hpg
  · cases he
    exact ⟨h, fun _ _ hg => .inl hg⟩

/-- What the cleanup of one id does: its generation goes if it is retiring and has no head. -/
structure Cleans (db db' : GatewayDb) (registrationId : String) : Prop where
  inv : Inv db'
  kept : ∀ id g, db.generations.find? id = some g →
    db'.generations.find? id = some g ∨
      (registrationId = id ∧ g.lifecycle = .retiring ∧ g.cdbState = .retiring ∧ ¬ db.Headed id)

theorem cleans_deleteGenerations {p : Generation → Bool} {n : Nat} {registrationId : String}
    (h : Inv db) (hd : db.deleteGenerations p = some (db', n))
    (hp : ∀ g, p g = true → registrationId = g.registrationId ∧ g.lifecycle = .retiring ∧
      g.cdbState = .retiring ∧ ¬ db.Headed g.registrationId) : Cleans db db' registrationId := by
  refine ⟨inv_deleteGenerations hd fun id _ => h id, fun id g hg => ?_⟩
  rw [deleteGenerations_find hd, hg]
  by_cases hpg : p g = true
  · right
    rw [← (generation_of_find hg).2]
    exact hp g hpg
  · left
    exact Option.filter_some_pos (by rw [Bool.eq_false_iff.mpr hpg]; rfl)

theorem Cleans.cleanup {key : RegistrationKey} {registrationId : String} {b : Bool} (h : Inv db)
    (he : db.cleanupGatewayRegistration key registrationId = some (db', b)) :
    Cleans db db' registrationId := by
  obtain ⟨⟨d, n⟩, hd, he⟩ := Option.map_eq_some_iff.mp he
  obtain ⟨rfl, -⟩ := Prod.mk.inj he
  refine cleans_deleteGenerations h hd fun g hp => ?_
  obtain ⟨hid, -, hl, hc, hh⟩ := of_decide_eq_true hp
  exact ⟨hid.symm, hl, hc, hh⟩

theorem Cleans.complete {i : Identity} {sourceCdbId : String} (h : Inv db)
    (he : db.completeGatewayCleanup i sourceCdbId = some db') :
    Cleans db db' i.registrationId := by
  obtain ⟨⟨d, n⟩, hd, he⟩ := Option.bind_eq_some_iff.mp he
  have hstep : Cleans db d i.registrationId := cleans_deleteGenerations h hd fun g hp => by
    obtain ⟨⟨hid, -, hl, hc, hh⟩, -⟩ := of_decide_eq_true hp
    exact ⟨hid.symm, hl, hc, hh⟩
  dsimp only at he
  split at he
  · cases he
    exact hstep
  · split at he
    · cases he
    · cases he
      exact hstep

/-! ## A new generation -/

theorem upsertHead_mem {head : Head} (hu : db.upsertHead head = some db') :
    db'.generations = db.generations ∧ db'.outbox = db.outbox ∧
      ∃ head' : Head, head'.key = head.key ∧ head'.registrationId = head.registrationId ∧
        ∀ hd, hd ∈ db'.heads.rows ↔ (hd ∈ db.heads.rows ∧ hd.key ≠ head.key) ∨ hd = head' := by
  unfold GatewayDb.upsertHead at hu
  split at hu
  · cases hu
  · obtain ⟨t, ht, rfl⟩ := Option.map_eq_some_iff.mp hu
    refine ⟨rfl, rfl, _, ?_, ?_, Table.mem_upsert ht fun _ => rfl⟩
    · cases hf : db.heads.find? head.key with
      | none => rfl
      | some h => exact (Table.find?_eq_some.mp hf).2
    · cases db.heads.find? head.key with
      | none => rfl
      | some h => rfl

/-- The tables after an install: a new generation has the head that `previous` had. -/
structure Installs (db db' : GatewayDb) (g : Generation) (previous : Option String) (nowMs : Nat) :
    Prop where
  fresh : db.generations.find? g.registrationId = none
  previous_iff : ∀ id, previous = some id ↔
    ∃ hd ∈ db.heads.rows, hd.key = g.key ∧ hd.registrationId = id
  generations : ∀ id, db'.generations.find? id =
    if g.registrationId = id then some g
    else (db.generations.find? id).map fun g => if previous = some id then g.retire nowMs else g
  heads : ∃ head' : Head, head'.key = g.key ∧ head'.registrationId = g.registrationId ∧
    ∀ hd, hd ∈ db'.heads.rows ↔ (hd ∈ db.heads.rows ∧ hd.key ≠ g.key) ∨ hd = head'
  outbox : ∀ id, db'.outbox.find? id = if previous = some id then none else db.outbox.find? id

theorem Installs.headed {g : Generation} {previous : Option String} {nowMs : Nat} (h : Inv db)
    (hi : Installs db db' g previous nowMs) (id : String) :
    db'.Headed id ↔ g.registrationId = id ∨ (db.Headed id ∧ previous ≠ some id) := by
  obtain ⟨head', hkey, hid, hmem⟩ := hi.heads
  constructor
  · rintro ⟨hd, hm, rfl⟩
    rcases (hmem hd).mp hm with ⟨hm, hne⟩ | rfl
    · refine .inr ⟨⟨hd, hm, rfl⟩, fun hprev => hne ?_⟩
      obtain ⟨hd', hm', hkey', hid'⟩ := (hi.previous_iff _).mp hprev
      cases hg : db.generations.find? hd.registrationId with
      | none => exact absurd ⟨hd, hm, rfl⟩ ((h _).absent hg).1
      | some old =>
        have h₁ := (h _).key old hg hd hm rfl
        have h₂ := (h _).key old hg hd' hm' hid'
        exact h₁.trans (h₂.symm.trans hkey')
    · exact .inl hid.symm
  · rintro (he | ⟨⟨hd, hm, rfl⟩, hprev⟩)
    · exact ⟨head', (hmem head').mpr (.inr rfl), hid.trans he⟩
    · refine ⟨hd, (hmem hd).mpr (.inl ⟨hm, fun hk => hprev ?_⟩), rfl⟩
      exact (hi.previous_iff _).mpr ⟨hd, hm, hk, rfl⟩

theorem inv_installs {g : Generation} {previous : Option String} {nowMs : Nat} (h : Inv db)
    (hi : Installs db db' g previous nowMs) (hok : RowOk g True none) : Inv db' := by
  obtain ⟨head', hkey, hid, hmem⟩ := hi.heads
  have hfreshHead := ((h g.registrationId).absent hi.fresh).1
  intro id
  by_cases he : g.registrationId = id
  · subst he
    have hg := hi.generations g.registrationId
    rw [if_pos rfl] at hg
    have hout : db'.outbox.find? g.registrationId = none := by
      rw [hi.outbox]
      split
      · rfl
      · exact ((h _).absent hi.fresh).2
    refine ⟨fun hnone => ?_, fun g' hg' hd hm hr => ?_, fun g' hg' => ?_⟩
    · rw [hg] at hnone
      cases hnone
    · obtain rfl := Option.some.inj (hg.symm.trans hg')
      rcases (hmem hd).mp hm with ⟨hm, -⟩ | rfl
      · exact absurd ⟨hd, hm, hr⟩ hfreshHead
      · exact hkey
    · obtain rfl := Option.some.inj (hg.symm.trans hg')
      rw [hout, show db'.Headed g.registrationId = True from
        eq_true ((hi.headed h _).mpr (.inl rfl))]
      exact hok
  · have hg := hi.generations id
    rw [if_neg he] at hg
    have hheaded : db'.Headed id ↔ db.Headed id ∧ previous ≠ some id := by
      rw [hi.headed h]
      exact or_iff_right he
    refine ⟨fun hnone => ?_, fun g' hg' hd hm hr => ?_, fun g' hg' => ?_⟩
    · rw [hg, Option.map_eq_none_iff] at hnone
      obtain ⟨hh, ho⟩ := (h id).absent hnone
      refine ⟨fun hx => hh (hheaded.mp hx).1, ?_⟩
      rw [hi.outbox, ho]
      split <;> rfl
    · rw [hg, Option.map_eq_some_iff] at hg'
      obtain ⟨old, hold, rfl⟩ := hg'
      rcases (hmem hd).mp hm with ⟨hm, -⟩ | rfl
      · have := (h id).key old hold hd hm hr
        split
        · exact this
        · exact this
      · exact absurd (hid.symm.trans hr) he
    · rw [hg, Option.map_eq_some_iff] at hg'
      obtain ⟨old, hold, rfl⟩ := hg'
      rw [propext hheaded, hi.outbox]
      by_cases hp : previous = some id
      · rw [if_pos hp, if_pos hp, show (db.Headed id ∧ previous ≠ some id) = False from
          eq_false fun hx => hx.2 hp]
        exact RowOk.retire old nowMs
      · rw [if_neg hp, if_neg hp, show (db.Headed id ∧ previous ≠ some id) = db.Headed id from
          propext ⟨And.left, fun hx => ⟨hx, hp⟩⟩]
        exact (h id).row old hold

/-- The generation that had the head is retired. -/
theorem supersede_find {registrationId : String} {key : RegistrationKey} {nowMs : Nat}
    (hs : db.supersede registrationId key nowMs = some db') :
    db'.heads = db.heads ∧
      (∀ id, db'.generations.find? id = (db.generations.find? id).map fun g =>
        if g.registrationId = registrationId ∧ g.key = key then g.retire nowMs else g) ∧
      ∀ id, db'.outbox.find? id = if registrationId = id then none else db.outbox.find? id := by
  obtain ⟨⟨d, n⟩, hu, rfl⟩ := Option.map_eq_some_iff.mp hs
  obtain ⟨hheads, hout, -, hfind⟩ := updateGenerations_find hu fun _ => rfl
  refine ⟨hheads, fun id => ?_, fun id => ?_⟩
  · show d.generations.find? id = _
    simp only [hfind, decide_eq_true_eq]
  · show (d.outbox.deleteWhere _).find? id = _
    rw [hout, Table.find?_deleteWhere]
    cases ho : db.outbox.find? id with
    | none => split <;> rfl
    | some o =>
      obtain ⟨-, rfl⟩ := Table.find?_eq_some.mp ho
      by_cases he : o.registrationId = registrationId
      · rw [if_pos he.symm, Option.filter_some_neg (by rw [decide_eq_true he]; decide)]
      · rw [if_neg fun hx => he hx.symm, Option.filter_some_pos (by rw [decide_eq_false he]; rfl)]

theorem steps_installs {g : Generation} (previous : Option String) (nowMs : Nat) (h : Inv db)
    (hi : Installs db db' g previous nowMs) (hok : RowOk g True none) : Steps db db' := by
  refine ⟨inv_installs h hi hok, fun id old hold => ?_⟩
  have hne : g.registrationId ≠ id := by
    rintro rfl
    rw [hi.fresh] at hold
    cases hold
  refine ⟨if previous = some id then old.retire nowMs else old, ?_, fun hc => ?_⟩
  · rw [hi.generations, if_neg hne, hold]
    rfl
  · split
    · exact retire_left hc
    · exact hc

theorem Steps.install {input : GatewayDb.Install} {refused : Bool} {o : Option String} (h : Inv db)
    (he : db.installGatewayRegistration input refused = some (db', o)) : Steps db db' := by
  obtain ⟨t, ht, he⟩ := Option.bind_eq_some_iff.mp he
  have hfresh : db.generations.find? input.identity.registrationId = none :=
    Table.find?_eq_none.mpr (Table.insert?_fresh ht).1
  have hinsert := Table.find?_insert ht
  dsimp only at he
  cases hf : db.heads.find? input.identity.key with
  | none =>
    rw [hf] at he
    dsimp only [Option.map_none, Option.bind_eq_bind, Option.bind_some] at he
    obtain ⟨d', hu, he⟩ := Option.bind_eq_some_iff.mp he
    split at he
    · cases he
    · cases he
      obtain ⟨hgen, hout, hheads⟩ := upsertHead_mem hu
      refine steps_installs none input.nowMs h ⟨hfresh, fun id => ?_, fun id => ?_, hheads,
        fun id => ?_⟩ (RowOk.installed input)
      · refine ⟨fun hx => (by cases hx), fun ⟨hd, hm, hk, _⟩ => ?_⟩
        exact absurd hk (Table.find?_eq_none.mp hf hd hm)
      · rw [hgen]
        refine (hinsert id).trans ?_
        cases db.generations.find? id <;> rfl
      · rw [hout]
        rfl
  | some head =>
    rw [hf] at he
    obtain ⟨d, hs, he⟩ := Option.bind_eq_some_iff.mp he
    obtain ⟨d', hu, he⟩ := Option.bind_eq_some_iff.mp he
    split at he
    · cases he
    · cases he
      obtain ⟨hgen, hout, hheads⟩ := upsertHead_mem hu
      obtain ⟨hdheads, hdgen, hdout⟩ := supersede_find hs
      obtain ⟨hmem, hkey⟩ := Table.find?_eq_some.mp hf
      rw [hdheads] at hheads
      refine steps_installs (some head.registrationId) input.nowMs h ⟨hfresh, fun id => ?_,
        fun id => ?_, hheads, fun id => ?_⟩ (RowOk.installed input)
      · rw [Option.some.injEq]
        refine ⟨fun hx => ⟨head, hmem, hkey, hx⟩, fun ⟨hd, hm, hk, hx⟩ => ?_⟩
        rw [Table.eq_of_key hmem hm (hkey.trans hk.symm)]
        exact hx
      · rw [hgen, hdgen]
        refine (congrArg _ (hinsert id)).trans ?_
        by_cases hid : input.generation.registrationId = id
        · rw [if_pos hid, if_pos hid, Option.map_some, if_neg]
          rintro ⟨hx, -⟩
          have hnone := ((h _).absent hfresh).1
          exact hnone ⟨head, hmem, hx.symm⟩
        · rw [if_neg hid, if_neg hid]
          cases hg : db.generations.find? id with
          | none => rfl
          | some old =>
            obtain ⟨-, rfl⟩ := generation_of_find hg
            by_cases hx : head.registrationId = old.registrationId
            · have hk : old.key = input.identity.key :=
                ((h _).key old hg head hmem hx).symm.trans hkey
              rw [Option.map_some, Option.map_some, if_pos ⟨hx.symm, hk⟩, if_pos (by rw [hx])]
            · rw [Option.map_some, Option.map_some, if_neg fun hy => hx hy.1.symm,
                if_neg fun hy => hx (Option.some.inj hy)]
      · rw [hout, hdout]
        simp only [Option.some.injEq]

end Chardb.Gateway
