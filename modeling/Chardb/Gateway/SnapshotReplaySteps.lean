import Chardb.Gateway.SnapshotReplay

/-!
# What operations make of staged snapshots

An outbox row and the scope of its generation do not change while the row is there; only a stage
makes one, and only a claim of a send sets the time of the last send.
-/

namespace Chardb.Gateway

open Chardb.Lib

variable {db db' : GatewayDb}

/-- The snapshot is in the outbox, and was last sent then. -/
def GatewayDb.Holds (db : GatewayDb) (snapshot : StagedSnapshot) (sentAt : Option Nat) : Prop :=
  ∃ g o, db.generations.find? snapshot.registrationId = some g ∧
    db.outbox.find? snapshot.registrationId = some o ∧ stagedSnapshot g o = snapshot ∧
    o.lastSentAt = sentAt

/-- Every snapshot in the outbox was there before, and no send was claimed. -/
def Holding (db db' : GatewayDb) : Prop :=
  ∀ snapshot sentAt, db'.Holds snapshot sentAt → db.Holds snapshot sentAt

theorem Holding.refl (db : GatewayDb) : Holding db db := fun _ _ h => h

theorem Holding.trans {db₁ db₂ db₃ : GatewayDb} (h : Holding db₁ db₂) (h' : Holding db₂ db₃) :
    Holding db₁ db₃ := fun snapshot sentAt hh => h snapshot sentAt (h' snapshot sentAt hh)

/-! ## Statements -/

theorem holding_of_sub
    (hg : ∀ id g, db'.generations.find? id = some g → db.generations.find? id = some g)
    (ho : ∀ id o, db'.outbox.find? id = some o → db.outbox.find? id = some o) : Holding db db' := by
  rintro snapshot sentAt ⟨g, o, hgf, hof, hs, ht⟩
  exact ⟨g, o, hg _ g hgf, ho _ o hof, hs, ht⟩

theorem holding_updateGenerations {p : Generation → Bool} {f : Generation → Generation} {n : Nat}
    (hu : db.updateGenerations p f = some (db', n))
    (hid : ∀ g, (f g).registrationId = g.registrationId)
    (hs : ∀ g ∈ db.generations.rows, p g = true → ∀ o, db.outbox.find? g.registrationId = some o →
      (f g).scope o.cookie = g.scope o.cookie) : Holding db db' := by
  obtain ⟨-, hout, -, hfind⟩ := updateGenerations_find hu hid
  rintro snapshot sentAt ⟨g', o, hg', ho, rfl, ht⟩
  rw [hout] at ho
  rw [hfind, Option.map_eq_some_iff] at hg'
  obtain ⟨g, hg, rfl⟩ := hg'
  obtain ⟨hm, hgid⟩ := generation_of_find hg
  split at hg
  · rename_i hp
    have hscope := hs g hm hp o (by rw [hgid]; exact ho)
    have hsame : stagedSnapshot (f g) o = stagedSnapshot g o := by
      unfold stagedSnapshot
      rw [hscope]
    exact ⟨g, o, hg, ho, by rw [if_pos hp, hsame], ht⟩
  · rename_i hp
    exact ⟨g, o, hg, ho, by rw [if_neg hp], ht⟩

theorem holding_updateOutbox {p : OutboxRow → Bool} {f : OutboxRow → OutboxRow} {n : Nat}
    (hu : db.updateOutbox p f = some (db', n))
    (hf : ∀ o, (f o).registrationId = o.registrationId ∧ (f o).cookie = o.cookie ∧
      (f o).rowsJson = o.rowsJson ∧ (f o).lastSentAt = o.lastSentAt) : Holding db db' := by
  obtain ⟨t, ht, he⟩ := Option.map_eq_some_iff.mp hu
  obtain ⟨rfl, -⟩ := Prod.mk.inj he
  rintro snapshot sentAt ⟨g, o', hg, ho', hs, hsent⟩
  have hfind := Table.find?_update ht (fun o _ _ => (hf o).1) snapshot.registrationId
  have ho' : t.find? snapshot.registrationId = some o' := ho'
  rw [hfind, Option.map_eq_some_iff] at ho'
  obtain ⟨o, ho, rfl⟩ := ho'
  split at hs
  · rename_i hp
    rw [if_pos hp] at hsent
    obtain ⟨hid, hcookie, hrows, hlast⟩ := hf o
    refine ⟨g, o, hg, ho, ?_, hlast.symm.trans hsent⟩
    unfold stagedSnapshot at hs ⊢
    rw [← hs, hid, hcookie, hrows]
  · rename_i hp
    rw [if_neg hp] at hsent
    exact ⟨g, o, hg, ho, hs, hsent⟩

theorem find_deleteOutbox {p : OutboxRow → Bool} {id : String} {o : OutboxRow}
    (h : (db.deleteOutbox p).outbox.find? id = some o) : db.outbox.find? id = some o ∧ p o = false := by
  have h : (db.outbox.deleteWhere p).find? id = some o := h
  rw [Table.find?_deleteWhere, Option.filter_eq_some_iff] at h
  exact ⟨h.1, by simpa using h.2⟩

theorem holding_deleteOutbox (db : GatewayDb) (p : OutboxRow → Bool) : Holding db (db.deleteOutbox p) :=
  holding_of_sub (fun _ _ h => h) fun _ _ h => (find_deleteOutbox h).1

theorem holding_deleteHead (db : GatewayDb) (key : RegistrationKey) (registrationId : String) :
    Holding db (db.deleteHead key registrationId) := fun _ _ h => h

theorem holding_deleteGenerations {p : Generation → Bool} {n : Nat}
    (hd : db.deleteGenerations p = some (db', n)) : Holding db db' := by
  have hfind := deleteGenerations_find hd
  unfold GatewayDb.deleteGenerations at hd
  split at hd
  · cases hd
  · cases hd
    refine holding_of_sub (fun id g hg => ?_) fun id o ho => ?_
    · rw [hfind, Option.filter_eq_some_iff] at hg
      exact hg.1
    · have ho : (db.outbox.deleteWhere _).find? id = some o := ho
      rw [Table.find?_deleteWhere, Option.filter_eq_some_iff] at ho
      exact ho.1

/-- A generation that is scrubbed loses its outbox row. -/
theorem holding_scrubs {p : Generation → Bool} {f : Generation → Generation} {n : Nat} {id : String}
    (hu : db.updateGenerations p f = some (db', n))
    (hid : ∀ g, (f g).registrationId = g.registrationId)
    (hp : ∀ g, p g = true → g.registrationId = id) :
    Holding db (db'.deleteOutbox fun o => decide (o.registrationId = id)) := by
  obtain ⟨-, hout, -, hfind⟩ := updateGenerations_find hu hid
  rintro snapshot sentAt ⟨g', o, hg', ho, hs, ht⟩
  obtain ⟨ho, hne⟩ := find_deleteOutbox ho
  rw [hout] at ho
  have hne := of_decide_eq_false hne
  have hg' : db'.generations.find? snapshot.registrationId = some g' := hg'
  rw [hfind, Option.map_eq_some_iff] at hg'
  obtain ⟨g, hg, rfl⟩ := hg'
  obtain ⟨-, hgid⟩ := generation_of_find hg
  obtain ⟨-, hoid⟩ := Table.find?_eq_some.mp ho
  have hpg : ¬ p g = true := fun hpg => hne (hoid.trans (hgid.symm.trans (hp g hpg)))
  rw [if_neg hpg] at hs
  exact ⟨g, o, hg, ho, hs, ht⟩

theorem holding_supersede {registrationId : String} {key : RegistrationKey} {nowMs : Nat}
    (hs : db.supersede registrationId key nowMs = some db') : Holding db db' := by
  obtain ⟨⟨d, n⟩, hu, rfl⟩ := Option.map_eq_some_iff.mp hs
  exact holding_scrubs hu (fun _ => rfl) fun g hp => (of_decide_eq_true hp).1

/-- A generation with a new id has no outbox row. -/
theorem holding_insert {t : GenerationTable} {g : Generation} (h : Inv db)
    (hi : db.generations.insert? g = some t) : Holding db { db with generations := t } := by
  have hfresh : db.generations.find? g.registrationId = none :=
    Table.find?_eq_none.mpr (Table.insert?_fresh hi).1
  rintro snapshot sentAt ⟨g', o, hg', ho, hs, ht⟩
  have hg' : t.find? snapshot.registrationId = some g' := hg'
  rw [Table.find?_insert hi] at hg'
  split at hg'
  · rename_i hid
    have ho : db.outbox.find? snapshot.registrationId = some o := ho
    rw [← hid, ((h _).absent hfresh).2] at ho
    cases ho
  · exact ⟨g', o, hg', ho, hs, ht⟩

theorem holding_upsertHead {head : Head} (hu : db.upsertHead head = some db') : Holding db db' := by
  obtain ⟨hgen, hout, -⟩ := upsertHead_mem hu
  refine holding_of_sub (fun id g hg => ?_) fun id o ho => ?_
  · rwa [hgen] at hg
  · rwa [hout] at ho

/-! ## Operations -/

theorem Holding.install {input : GatewayDb.Install} {refused : Bool} {previous : Option String}
    (h : Inv db) (he : db.installGatewayRegistration input refused = some (db', previous)) :
    Holding db db' := by
  obtain ⟨t, ht, he⟩ := Option.bind_eq_some_iff.mp he
  have hinsert := holding_insert h ht
  dsimp only at he
  cases hf : db.heads.find? input.identity.key with
  | none =>
    rw [hf] at he
    dsimp only [Option.map_none, Option.bind_eq_bind, Option.bind_some] at he
    obtain ⟨d, hu, he⟩ := Option.bind_eq_some_iff.mp he
    split at he
    · cases he
    · cases he
      exact hinsert.trans (holding_upsertHead hu)
  | some head =>
    rw [hf] at he
    obtain ⟨d, hs, he⟩ := Option.bind_eq_some_iff.mp he
    obtain ⟨d', hu, he⟩ := Option.bind_eq_some_iff.mp he
    split at he
    · cases he
    · cases he
      exact (hinsert.trans (holding_supersede hs)).trans (holding_upsertHead hu)

theorem Holding.arm {i : Identity} {recoveryAt nowMs : Nat} {b : Bool}
    (he : db.armGatewaySubscriptionRecovery i recoveryAt nowMs = some (db', b)) : Holding db db' := by
  unfold GatewayDb.armGatewaySubscriptionRecovery at he
  split at he
  · cases he
  · obtain ⟨⟨d, n⟩, hu, he⟩ := Option.map_eq_some_iff.mp he
    obtain ⟨rfl, -⟩ := Prod.mk.inj he
    exact holding_updateGenerations hu (fun _ => rfl) fun _ _ _ _ _ => rfl

theorem Holding.activate {i : Identity} {changeSeq nowMs : Nat} {b : Bool}
    (he : db.activateGatewaySubscription i changeSeq nowMs = some (db', b)) : Holding db db' := by
  obtain ⟨⟨d, n⟩, hu, he⟩ := Option.map_eq_some_iff.mp he
  obtain ⟨rfl, -⟩ := Prod.mk.inj he
  exact holding_updateGenerations hu (fun _ => rfl) fun _ _ _ _ _ => rfl

theorem Holding.deleteNever {i : Identity} {b : Bool}
    (he : db.deleteNeverRegisteredGatewaySubscription i = some (db', b)) : Holding db db' := by
  unfold GatewayDb.deleteNeverRegisteredGatewaySubscription at he
  split at he
  · obtain ⟨⟨d, n⟩, hd, he⟩ := Option.map_eq_some_iff.mp he
    obtain ⟨rfl, -⟩ := Prod.mk.inj he
    exact ((holding_deleteHead db _ _).trans (holding_deleteOutbox _ _)).trans
      (holding_deleteGenerations hd)
  · cases he
    exact .refl db

theorem Holding.markAmbiguous {i : Identity} {nowMs : Nat} {b : Bool} (h : Inv db)
    (he : db.markPendingGatewaySubscriptionAmbiguous i nowMs = some (db', b)) : Holding db db' := by
  unfold GatewayDb.markPendingGatewaySubscriptionAmbiguous at he
  split at he
  · obtain ⟨⟨d, n⟩, hu, he⟩ := Option.bind_eq_some_iff.mp he
    dsimp only at he
    split at he
    · -- what is pending has no outbox row
      cases he
      refine (holding_deleteHead db _ _).trans (holding_updateGenerations hu (fun _ => rfl) ?_)
      intro g hg hp o ho
      obtain ⟨-, hpending⟩ := of_decide_eq_true hp
      have hactive := ((h.rowOk hg).staged o ho).1.2
      rw [hpending] at hactive
      cases hactive
    · cases he
      refine (holding_deleteHead db i.key i.registrationId).trans
        (holding_scrubs hu (fun _ => rfl) fun g hp => ?_)
      obtain ⟨⟨hid, -⟩, -⟩ := of_decide_eq_true hp
      exact hid
  · cases he
    exact .refl db

theorem Holding.accept {i : Identity} {sourceCdbId : String} {changeSeq updatedAt : Nat} {b : Bool}
    (he : db.acceptInvalidation i sourceCdbId changeSeq updatedAt = some (db', b)) : Holding db db' := by
  unfold GatewayDb.acceptInvalidation at he
  split at he
  · cases he
    exact .refl db
  · split at he
    · cases he
      exact .refl db
    · split at he
      · cases he
      · obtain ⟨⟨d, n⟩, hu, he⟩ := Option.bind_eq_some_iff.mp he
        dsimp only at he
        split at he
        · cases he
        · cases he
          exact holding_updateGenerations hu (fun _ => rfl) fun _ _ _ _ _ => rfl

theorem Holding.claim {i : Identity} {runToken : String} {nowMs leaseExpiresAt : Nat} {b : Bool}
    (he : db.claimDirtyGatewayRegistration i runToken nowMs leaseExpiresAt = some (db', b)) :
    Holding db db' := by
  unfold GatewayDb.claimDirtyGatewayRegistration at he
  split at he
  · cases he
  · obtain ⟨⟨d, n⟩, hu, he⟩ := Option.map_eq_some_iff.mp he
    obtain ⟨rfl, -⟩ := Prod.mk.inj he
    exact holding_updateGenerations hu (fun _ => rfl) fun _ _ _ _ _ => rfl

theorem Holding.failRun {i : Identity} {runToken error : String} {runVersion nowMs : Nat}
    {retryNotBeforeMs : Option Nat} {b : Bool}
    (he : db.failGatewayDirtyRun i runToken runVersion nowMs retryNotBeforeMs error =
      some (db', b)) : Holding db db' := by
  obtain ⟨⟨d, n⟩, hu, he⟩ := Option.map_eq_some_iff.mp he
  obtain ⟨rfl, -⟩ := Prod.mk.inj he
  exact holding_updateGenerations hu (fun _ => rfl) fun _ _ _ _ _ => rfl

theorem Holding.defer {i : Identity} {nowMs retryAt : Nat} {b : Bool}
    (he : db.deferGatewayDirtyRun i nowMs retryAt = some (db', b)) : Holding db db' := by
  unfold GatewayDb.deferGatewayDirtyRun at he
  split at he
  · cases he
  · obtain ⟨⟨d, n⟩, hu, he⟩ := Option.map_eq_some_iff.mp he
    obtain ⟨rfl, -⟩ := Prod.mk.inj he
    exact holding_updateGenerations hu (fun _ => rfl) fun _ _ _ _ _ => rfl

theorem Holding.resume {connectionId : String} {nowMs : Nat} {b : Bool}
    (he : db.resumeGatewayAuthDeferredWork connectionId nowMs = some (db', b)) : Holding db db' := by
  obtain ⟨⟨d, n⟩, hu, he⟩ := Option.bind_eq_some_iff.mp he
  obtain ⟨⟨d', m⟩, hu', he⟩ := Option.bind_eq_some_iff.mp he
  cases he
  exact (holding_updateGenerations hu (fun _ => rfl) fun _ _ _ _ _ => rfl).trans
    (holding_updateOutbox hu' fun _ => ⟨rfl, rfl, rfl, rfl⟩)

theorem Holding.cleanupFailure {i : Identity} {retryCount nowMs : Nat} {error : String}
    (he : db.recordGatewayCleanupFailure i retryCount nowMs error = some db') : Holding db db' := by
  obtain ⟨⟨d, n⟩, hu, rfl⟩ := Option.map_eq_some_iff.mp he
  exact holding_updateGenerations hu (fun _ => rfl) fun _ _ _ _ _ => rfl

theorem Holding.acknowledge {i : Identity} {cookie : String} {nowMs : Nat} {refused b : Bool}
    (he : db.acknowledgeGatewaySnapshot i cookie nowMs refused = some (db', b)) : Holding db db' := by
  unfold GatewayDb.acknowledgeGatewaySnapshot at he
  split at he
  · cases he
    exact .refl db
  · obtain ⟨⟨d, n⟩, hu, he⟩ := Option.bind_eq_some_iff.mp he
    have hstep : Holding db d := holding_updateGenerations hu (fun _ => rfl) fun _ _ _ _ _ => rfl
    dsimp only at he
    split at he
    · cases he
      exact hstep
    · split at he
      · cases he
      · split at he
        · cases he
        · cases he
          exact hstep.trans (holding_deleteOutbox d _)

theorem Holding.failSend {c : GatewayDb.SendClaim} {nowMs : Nat} {retryNotBeforeMs : Option Nat}
    {error : String} {b : Bool}
    (he : db.failGatewaySnapshotSend c nowMs retryNotBeforeMs error = some (db', b)) :
    Holding db db' := by
  obtain ⟨⟨d, n⟩, hu, he⟩ := Option.map_eq_some_iff.mp he
  obtain ⟨rfl, -⟩ := Prod.mk.inj he
  exact holding_updateOutbox hu fun _ => ⟨rfl, rfl, rfl, rfl⟩

theorem Holding.retire {key : RegistrationKey} {registrationId : String} {nowMs : Nat} {b : Bool}
    (he : db.retireGatewayRegistration key registrationId nowMs = some (db', b)) : Holding db db' := by
  unfold GatewayDb.retireGatewayRegistration at he
  split at he
  · obtain ⟨d, hs, he⟩ := Option.map_eq_some_iff.mp he
    obtain ⟨rfl, -⟩ := Prod.mk.inj he
    exact (holding_deleteHead db _ _).trans (holding_supersede hs)
  · cases he
    exact .refl db

theorem Holding.retireCurrent {key : RegistrationKey} {connectionId : String} {nowMs : Nat}
    {o : Option Generation}
    (he : db.retireCurrentGatewayRegistration key connectionId nowMs = some (db', o)) :
    Holding db db' := by
  unfold GatewayDb.retireCurrentGatewayRegistration at he
  split at he
  · cases he
    exact .refl db
  · obtain ⟨⟨d, n⟩, hu, he⟩ := Option.bind_eq_some_iff.mp he
    dsimp only at he
    split at he
    · cases he
    · cases he
      exact (holding_scrubs hu (fun _ => rfl) fun g hp => (of_decide_eq_true hp).1).trans
        (holding_deleteHead _ _ _)

theorem Holding.retireRun {i : Identity} {runToken : String} {runVersion nowMs : Nat} {b : Bool}
    (he : db.retireClaimedGatewayRegistration i runToken runVersion nowMs = some (db', b)) :
    Holding db db' := by
  unfold GatewayDb.retireClaimedGatewayRegistration at he
  split at he
  · exact Holding.retire he
  · cases he
    exact .refl db

theorem Holding.retireSend {c : GatewayDb.SendClaim} {nowMs : Nat} {b : Bool}
    (he : db.retireClaimedGatewaySnapshot c nowMs = some (db', b)) : Holding db db' := by
  unfold GatewayDb.retireClaimedGatewaySnapshot at he
  split at he
  · exact Holding.retire he
  · cases he
    exact .refl db

theorem Holding.markBase {c : GatewayDb.SendClaim} {baseCookie : Option String} {nowMs : Nat}
    {exceeds b : Bool}
    (he : db.markGatewaySnapshotSendBaseCookie c baseCookie nowMs exceeds = some (db', b)) :
    Holding db db' := by
  obtain ⟨⟨d, n⟩, hu, he⟩ := Option.bind_eq_some_iff.mp he
  have hstep : Holding db d := holding_updateOutbox hu fun _ => ⟨rfl, rfl, rfl, rfl⟩
  dsimp only at he
  split at he
  · cases he
    exact hstep
  · split at he
    · cases he
      exact hstep
    · obtain ⟨⟨d', b'⟩, hr, he⟩ := Option.bind_eq_some_iff.mp he
      have hstep' := hstep.trans (Holding.retireSend hr)
      cases b' with
      | true =>
        cases he
        exact hstep'
      | false => cases he

theorem Holding.complete {i : Identity} {sourceCdbId : String}
    (he : db.completeGatewayCleanup i sourceCdbId = some db') : Holding db db' := by
  obtain ⟨⟨d, n⟩, hd, he⟩ := Option.bind_eq_some_iff.mp he
  have hstep := holding_deleteGenerations hd
  dsimp only at he
  split at he
  · cases he
    exact hstep
  · split at he
    · cases he
    · cases he
      exact hstep

/-- Of the operations that check no quota, only a claim of a send touches the time of the last one. -/
theorem GatewayOp.holding {op : GatewayOp} (h : Inv db) (hop : op.Unchecked)
    (hsend : ∀ allowed token nowMs expiresAt, op ≠ .claimSend allowed token nowMs expiresAt)
    (hc : op.call db = some db') : Holding db db' := by
  cases op with
  | install => exact hop.elim
  | stage => exact hop.elim
  | markSendBase => exact hop.elim
  | acknowledge => exact hop.elim
  | retireConnection => exact hop.elim
  | claimSend => exact absurd rfl (hsend _ _ _ _)
  | arm =>
    obtain ⟨_, hc⟩ := fst_eq_some hc
    exact .arm hc
  | activate =>
    obtain ⟨_, hc⟩ := fst_eq_some hc
    exact .activate hc
  | deleteNeverRegistered =>
    obtain ⟨_, hc⟩ := fst_eq_some hc
    exact .deleteNever hc
  | markAmbiguous =>
    obtain ⟨_, hc⟩ := fst_eq_some hc
    exact .markAmbiguous h hc
  | invalidate =>
    obtain ⟨_, hc⟩ := fst_eq_some hc
    exact .accept hc
  | claim =>
    obtain ⟨_, hc⟩ := fst_eq_some hc
    exact .claim hc
  | failRun =>
    obtain ⟨_, hc⟩ := fst_eq_some hc
    exact .failRun hc
  | deferRun =>
    obtain ⟨_, hc⟩ := fst_eq_some hc
    exact .defer hc
  | discardSend =>
    cases hc
    exact holding_deleteOutbox db _
  | failSend =>
    obtain ⟨_, hc⟩ := fst_eq_some hc
    exact .failSend hc
  | resume =>
    obtain ⟨_, hc⟩ := fst_eq_some hc
    exact .resume hc
  | retire =>
    obtain ⟨_, hc⟩ := fst_eq_some hc
    exact .retire hc
  | retireCurrent =>
    obtain ⟨_, hc⟩ := fst_eq_some hc
    exact .retireCurrent hc
  | retireRun =>
    obtain ⟨_, hc⟩ := fst_eq_some hc
    exact .retireRun hc
  | retireSend =>
    obtain ⟨_, hc⟩ := fst_eq_some hc
    exact .retireSend hc
  | cleanup =>
    obtain ⟨_, hc⟩ := fst_eq_some hc
    obtain ⟨⟨d, n⟩, hd, he⟩ := Option.map_eq_some_iff.mp hc
    obtain ⟨rfl, -⟩ := Prod.mk.inj he
    exact holding_deleteGenerations hd
  | completeCleanup => exact .complete hc
  | cleanupFailure => exact .cleanupFailure hc

end Chardb.Gateway
