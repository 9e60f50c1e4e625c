import Chardb.Gateway.SnapshotReplaySteps

/-!
# The log accounts for every replay

What is in the outbox was staged, its last send is in the log, and nothing was settled since; a replay
is a copy of what was in the outbox when it was kept.
-/

namespace Chardb.Gateway

open Chardb.Lib

variable {db db' : GatewayDb} {w w' : QuotaDb} {log : List ReplayEvent} {snapshot : StagedSnapshot}
  {sentAt : Option Nat}

/-! ## Staging and sending -/

theorem Holding.stage {input : GatewayDb.Stage} {b : Bool}
    (he : db.stageGatewaySnapshot input false = some (db', b)) (hh : db'.Holds snapshot sentAt) :
    db.Holds snapshot sentAt ∨
      sentAt = none ∧ stagedEvents db db' input.identity.registrationId = [.staged snapshot] := by
  obtain ⟨⟨d, n⟩, hu, he⟩ := Option.bind_eq_some_iff.mp he
  have hstep : Holding db d := by
    refine holding_updateGenerations hu (fun _ => rfl) fun g hg hp o ho => ?_
    obtain ⟨-, -, hunstaged⟩ := of_decide_eq_true hp
    exact absurd (by rw [ho]; rfl : (db.outbox.find? g.registrationId).isSome = true) hunstaged
  dsimp only at he
  split at he
  · cases he
    exact .inl (hstep snapshot sentAt hh)
  · rename_i hn
    split at he
    · cases he
    · obtain ⟨t, hi, he⟩ := Option.bind_eq_some_iff.mp he
      rw [if_neg (by decide)] at he
      cases he
      obtain ⟨-, -, rfl, -⟩ := updateGenerations_find hu fun _ => rfl
      obtain ⟨g, hg, hp⟩ := select_eq_one (not_not.mp hn)
      obtain ⟨⟨⟨⟨hid, -⟩, -⟩, -⟩, -, hunstaged⟩ := of_decide_eq_true hp
      obtain ⟨g', o, hg', ho, hs, ht⟩ := hh
      have ho' : t.find? snapshot.registrationId = some o := ho
      rw [Table.find?_insert hi] at ho'
      split at ho'
      · rename_i hsame
        have hsame : input.identity.registrationId = snapshot.registrationId := hsame
        obtain rfl := Option.some.inj ho'
        refine .inr ⟨ht.symm, ?_⟩
        unfold stagedEvents
        rw [if_neg (by rw [← hid]; exact hunstaged), hsame, hg', ho]
        exact congrArg (fun s => [ReplayEvent.staged s]) hs
      · exact .inl (hstep snapshot sentAt ⟨g', o, hg', ho', hs, ht⟩)

theorem Holding.claimDue {allowed : OutboxRow → Bool} {claimToken : String}
    {nowMs attemptExpiresAt : Nat} {due : Option OutboxRow}
    (he : db.claimDueGatewaySnapshot allowed claimToken nowMs attemptExpiresAt = some (db', due))
    (hh : db'.Holds snapshot sentAt) : db.Holds snapshot sentAt ∨
      ∃ o, due = some o ∧ o.registrationId = snapshot.registrationId ∧
        o.cookie = snapshot.scope.cookie ∧ sentAt = some nowMs ∧ ∃ before, db.Holds snapshot before := by
  unfold GatewayDb.claimDueGatewaySnapshot at he
  split at he
  · cases he
  · split at he
    · cases he
      exact .inl hh
    · rename_i o rest hsorted
      have hmem : o ∈ db.outbox.rows := by
        have hm : o ∈ o :: rest := List.mem_cons_self
        rw [← hsorted, List.mem_mergeSort] at hm
        exact (List.mem_filter.mp hm).1
      obtain ⟨⟨d, n⟩, hu, he⟩ := Option.map_eq_some_iff.mp he
      obtain ⟨rfl, rfl⟩ := Prod.mk.inj he
      obtain ⟨t, ht, he⟩ := Option.map_eq_some_iff.mp hu
      obtain ⟨rfl, -⟩ := Prod.mk.inj he
      obtain ⟨g, o', hg, ho', hs, hsent⟩ := hh
      have hfind := Table.find?_update ht (fun o _ _ => rfl) snapshot.registrationId
      have ho' : t.find? snapshot.registrationId = some o' := ho'
      rw [hfind, Option.map_eq_some_iff] at ho'
      obtain ⟨o₁, ho₁, rfl⟩ := ho'
      obtain ⟨hm₁, hid₁⟩ := Table.find?_eq_some.mp ho₁
      split at hs
      · rename_i hp
        have hsame := of_decide_eq_true hp
        obtain rfl := Table.eq_of_key hm₁ hmem hsame
        rw [if_pos hp] at hsent
        refine .inr ⟨o₁, rfl, hid₁, ?_, hsent.symm, o₁.lastSentAt, g, o₁, hg, ho₁, hs, rfl⟩
        rw [← hs]
        rfl
      · rename_i hp
        rw [if_neg hp] at hsent
        exact .inl ⟨g, o₁, hg, ho₁, hs, hsent⟩

/-! ## Replays -/

/-- The replay was made of the snapshot. -/
structure Replay.Copies (r : Replay) (snapshot : StagedSnapshot) : Prop where
  scope : r.scope = snapshot.scope
  rowsJson : r.rowsJson = snapshot.rowsJson
  expiresAt : r.expiresAt = r.createdAt + GATEWAY_SNAPSHOT_REPLAY_RETENTION_MS

/-- Nothing is staged or sent, and what is kept is a copy of what is in the outbox. -/
structure Calm (w w' : QuotaDb) : Prop where
  holds : Holding w.store w'.store
  replays : ∀ r ∈ w'.replays, r ∈ w.replays ∨
    ∃ snapshot, r.Copies snapshot ∧ w.store.Holds snapshot (some r.createdAt)

theorem Calm.refl (w : QuotaDb) : Calm w w := ⟨.refl _, fun _ h => .inl h⟩

theorem Calm.trans {w'' : QuotaDb} (h : Calm w w') (h' : Calm w' w'') : Calm w w'' := by
  refine ⟨h.holds.trans h'.holds, fun r hr => ?_⟩
  rcases h'.replays r hr with hr | ⟨snapshot, hcopies, hheld⟩
  · exact h.replays r hr
  · exact .inr ⟨snapshot, hcopies, h.holds _ _ hheld⟩

theorem calm_store {store : GatewayDb} (h : Holding w.store store) : Calm w { w with store } :=
  ⟨h, fun _ hr => .inl hr⟩

theorem calm_of_sub (hs : w'.store = w.store) (hr : ∀ r ∈ w'.replays, r ∈ w.replays) : Calm w w' :=
  ⟨hs ▸ .refl _, fun r h => .inl (hr r h)⟩

theorem currentReplay_holds {key : RegistrationKey} {nowMs : Nat} {r : Replay}
    (h : QuotaDb.currentReplay db key nowMs = some r) :
    ∃ snapshot, r.Copies snapshot ∧ db.Holds snapshot (some r.createdAt) := by
  obtain ⟨g, hg, h⟩ := Option.bind_eq_some_iff.mp h
  obtain ⟨o, ho, h⟩ := Option.bind_eq_some_iff.mp h
  obtain ⟨sent, hsent, h⟩ := Option.bind_eq_some_iff.mp h
  have hfound := List.find?_some hg
  obtain ⟨hkey, -⟩ := of_decide_eq_true hfound
  obtain ⟨-, hid⟩ := Table.find?_eq_some.mp ho
  have hid : o.registrationId = g.registrationId := hid
  split at h
  · cases h
    refine ⟨stagedSnapshot g o, ⟨?_, rfl, rfl⟩, g, o, ?_, ?_, rfl, hsent⟩
    · subst hkey
      rfl
    · show db.generations.find? o.registrationId = some g
      rw [hid]
      exact find_generation (List.mem_of_find?_eq_some hg)
    · show db.outbox.find? o.registrationId = some o
      rw [hid]
      exact ho
  · cases h

theorem retainReplay_store (w : QuotaDb) (key : RegistrationKey) (nowMs : Nat) :
    (w.retainReplay key nowMs).store = w.store := by
  unfold QuotaDb.retainReplay
  split
  · rfl
  · split
    · rfl
    · rfl

theorem calm_retain (w : QuotaDb) (key : RegistrationKey) (nowMs : Nat) :
    Calm w (w.retainReplay key nowMs) := by
  refine ⟨retainReplay_store w key nowMs ▸ .refl _, fun x hx => ?_⟩
  unfold QuotaDb.retainReplay at hx
  split at hx
  · exact .inl hx
  · rename_i r hr
    split at hx
    · rename_i t ht
      have hkey : ∀ e : Replay,
          (if e.createdAt ≤ r.createdAt then { r with key := e.key } else e).key = e.key := by
        intro e
        split
        · rfl
        · rfl
      have hnew : x = r ∨ x ∈ w.replays := by
        rcases (Table.mem_upsert ht hkey x).mp hx with ⟨hx, -⟩ | hx
        · exact .inr hx
        · cases hf : w.replays.find? r.key with
          | none =>
            rw [hf] at hx
            exact .inl hx
          | some e =>
            obtain ⟨hm, hek⟩ := Table.find?_eq_some.mp hf
            have hek : e.key = r.key := hek
            rw [hf, Option.map_some, Option.getD_some, hek] at hx
            split at hx
            · exact .inl hx
            · exact .inr (hx ▸ hm)
      rcases hnew with rfl | hx
      · exact .inr (currentReplay_holds hr)
      · exact .inl hx
    · exact .inl hx

theorem shrinkReplays_sub (rs : List Replay) (w : QuotaDb) :
    (QuotaDb.shrinkReplays rs w).store = w.store ∧
      ∀ r ∈ (QuotaDb.shrinkReplays rs w).replays, r ∈ w.replays := by
  induction rs generalizing w with
  | nil => exact ⟨rfl, fun _ h => h⟩
  | cons r rs ih =>
    unfold QuotaDb.shrinkReplays
    split
    · exact ⟨rfl, fun _ h => h⟩
    · obtain ⟨hs, hr⟩ :=
        ih { w with replays := w.replays.deleteWhere fun x => decide (x.key = r.key) }
      exact ⟨hs, fun x hx => (Table.mem_deleteWhere.mp (hr x hx)).1⟩

theorem pruneReplays_sub (w : QuotaDb) (nowMs : Nat) : (w.pruneReplays nowMs).store = w.store ∧
    ∀ r ∈ (w.pruneReplays nowMs).replays, r ∈ w.replays := by
  obtain ⟨hs, hr⟩ := shrinkReplays_sub
    ((w.trimReplays nowMs).replays.orderBy (fun _ => true) QuotaDb.replayOrder) (w.trimReplays nowMs)
  refine ⟨hs, fun r h => ?_⟩
  have hlive := (Table.mem_deleteWhere.mp (hr r h)).1
  exact (Table.mem_deleteWhere.mp hlive).1

theorem calm_prune (w : QuotaDb) (nowMs : Nat) : Calm w (w.pruneReplays nowMs) := by
  obtain ⟨hs, hr⟩ := pruneReplays_sub w nowMs
  exact calm_of_sub hs hr

theorem calm_deleteReplay (w : QuotaDb) (key : RegistrationKey) : Calm w (w.deleteReplay key) :=
  calm_of_sub rfl fun _ hr => (Table.mem_deleteWhere.mp hr).1

/-! ## Calls -/

/-- The tables of a call agree again. -/
structure Sane (w w' : QuotaDb) : Prop extends Calm w w' where
  inv : Inv w'.store

theorem Sane.trans {w'' : QuotaDb} (h : Sane w w') (h' : Sane w' w'') : Sane w w'' :=
  ⟨h.toCalm.trans h'.toCalm, h'.inv⟩

theorem checked_eq (h : w.checked = some w') : w' = w := by
  unfold QuotaDb.checked at h
  split at h
  · exact (Option.some.inj h).symm
  · cases h

/-- An install is that of the store, but for what it keeps as a replay. -/
theorem install_parts {input : GatewayDb.Install} {recoveryAt : Nat}
    (h : w.install input recoveryAt = some w') :
    ∃ store previous, w.store.installGatewayRegistration input false = some (store, previous) ∧
      store.armGatewaySubscriptionRecovery input.identity recoveryAt input.nowMs =
        some (w'.store, true) ∧ Calm w ⟨w.store, w'.replays⟩ := by
  unfold QuotaDb.install at h
  dsimp only at h
  have hkept := calm_retain w input.identity.key input.nowMs
  have hsame := retainReplay_store w input.identity.key input.nowMs
  cases hf : w.store.heads.find? input.identity.key with
  | none =>
    rw [hf, Option.map_none, if_neg (by decide)] at h
    obtain ⟨t, ht, h⟩ := Option.bind_eq_some_iff.mp h
    obtain ⟨x, hx, h⟩ := Option.bind_eq_some_iff.mp h
    obtain rfl := Option.some.inj hx
    obtain ⟨store, hup, h⟩ := Option.bind_eq_some_iff.mp h
    obtain ⟨x, hx, h⟩ := Option.bind_eq_some_iff.mp h
    obtain rfl := checked_eq hx
    obtain ⟨⟨armed, b⟩, harm, h⟩ := Option.bind_eq_some_iff.mp h
    cases b with
    | false => cases h
    | true =>
      cases h
      refine ⟨store, none, ?_, harm, .refl w⟩
      unfold GatewayDb.installGatewayRegistration
      dsimp only
      rw [hf]
      exact Option.bind_eq_some_iff.mpr ⟨t, ht, Option.bind_eq_some_iff.mpr ⟨_, rfl,
        Option.bind_eq_some_iff.mpr ⟨store, hup, rfl⟩⟩⟩
  | some head =>
    rw [hf, Option.map_some, if_pos (by rfl), hsame] at h
    obtain ⟨t, ht, h⟩ := Option.bind_eq_some_iff.mp h
    obtain ⟨x, hx, h⟩ := Option.bind_eq_some_iff.mp h
    obtain ⟨store₁, hs, rfl⟩ := Option.map_eq_some_iff.mp hx
    obtain ⟨store, hup, h⟩ := Option.bind_eq_some_iff.mp h
    obtain ⟨x, hx, h⟩ := Option.bind_eq_some_iff.mp h
    obtain rfl := checked_eq hx
    obtain ⟨⟨armed, b⟩, harm, h⟩ := Option.bind_eq_some_iff.mp h
    obtain ⟨hpstore, hpsub⟩ := pruneReplays_sub
      ⟨store₁, (w.retainReplay input.identity.key input.nowMs).replays⟩ input.nowMs
    rw [hpstore] at hup
    cases b with
    | false => cases h
    | true =>
      cases h
      refine ⟨store, some head.registrationId, ?_, harm, .refl _, fun r hr => ?_⟩
      · unfold GatewayDb.installGatewayRegistration
        dsimp only
        rw [hf]
        exact Option.bind_eq_some_iff.mpr ⟨t, ht, Option.bind_eq_some_iff.mpr ⟨store₁, hs,
          Option.bind_eq_some_iff.mpr ⟨store, hup, rfl⟩⟩⟩
      · exact hkept.replays r (hpsub r hr)

theorem sane_install {input : GatewayDb.Install} {recoveryAt : Nat} (h : Inv w.store)
    (he : w.install input recoveryAt = some w') : Sane w w' := by
  obtain ⟨store, previous, hinstall, harm, hcalm⟩ := install_parts he
  have hsteps := Steps.install h hinstall
  have hholds := (Holding.install h hinstall).trans (.arm harm)
  exact ⟨⟨hholds, hcalm.replays⟩, (Steps.arm hsteps.inv harm).inv⟩

theorem sane_markSendBase {c : GatewayDb.SendClaim} {baseCookie : Option String} {nowMs : Nat}
    (h : Inv w.store) (he : w.markSendBase c baseCookie nowMs = some w') : Sane w w' := by
  obtain ⟨⟨store, b⟩, hmark, he⟩ := Option.bind_eq_some_iff.mp he
  dsimp only at he
  split at he
  · cases he
    exact ⟨calm_store (.markBase hmark), (Steps.markBase h hmark).inv⟩
  · obtain ⟨⟨store', b'⟩, hmark', he⟩ := Option.bind_eq_some_iff.mp he
    cases he
    exact ⟨calm_store (.markBase hmark'), (Steps.markBase h hmark').inv⟩

theorem sane_retireAll {nowMs : Nat} {gs : List Generation} (h : Inv w.store)
    (he : QuotaDb.retireAll nowMs gs w = some w') : Sane w w' := by
  induction gs generalizing w with
  | nil =>
    cases he
    exact ⟨calm_prune w nowMs, (pruneReplays_sub w nowMs).1 ▸ h⟩
  | cons g gs ih =>
    unfold QuotaDb.retireAll at he
    have hsame := retainReplay_store w g.key nowMs
    dsimp only at he
    split at he
    · rename_i store retired hone
      split at he
      · have hinv : Inv store := (Steps.retireCurrent (by rw [hsame]; exact h) hone).inv
        have hcalm := (calm_retain w g.key nowMs).trans (calm_store (.retireCurrent hone))
        exact Sane.trans ⟨hcalm, hinv⟩ (ih hinv he)
      · cases he
    · cases he

/-! ## Acknowledging -/

/-- A subscription has one head, and what is in the outbox is its. -/
theorem Holds.head (h : Inv db) (hh : db.Holds snapshot sentAt) {hd : Head} (hm : hd ∈ db.heads.rows)
    (hk : hd.key = snapshot.scope.key) : hd.registrationId = snapshot.registrationId := by
  obtain ⟨g, o, hg, ho, hs, -⟩ := hh
  have hrow := (h _).row g hg
  have hactive := (hrow.staged o ho).1
  obtain ⟨hd', hm', hid'⟩ : db.Headed snapshot.registrationId := by
    refine hrow.head.mpr fun hl => ?_
    rw [hactive.1] at hl
    cases hl
  have hkey : hd'.key = snapshot.scope.key := by
    rw [(h _).key g hg hd' hm' hid', ← hs]
    rfl
  rw [Table.eq_of_key hm hm' (hk.trans hkey.symm)]
  exact hid'

theorem acknowledge_settles {i : Identity} {cookie : String} {nowMs : Nat}
    (he : db.acknowledgeGatewaySnapshot i cookie nowMs false = some (db', true))
    (hack : QuotaDb.acknowledged db i cookie = true) :
    db'.outbox.find? i.registrationId = none ∧
      ∃ hd ∈ db'.heads.rows, hd.registrationId = i.registrationId ∧ hd.key = i.key := by
  unfold GatewayDb.acknowledgeGatewaySnapshot at he
  split at he
  · rename_i hnone
    obtain ⟨o, ho, hp⟩ := List.any_eq_true.mp hack
    exact absurd hp (List.find?_eq_none.mp hnone o ho)
  · rename_i staged hstaged
    obtain ⟨⟨d, n⟩, hu, he⟩ := Option.bind_eq_some_iff.mp he
    have hfound := List.find?_some hstaged
    obtain ⟨hsid, hcookie, -, -, -, g, hg, ⟨hgid, hgkey, -⟩, -, hd, hm, hdid, hdkey⟩ :=
      of_decide_eq_true hfound
    have hmem := List.mem_of_find?_eq_some hstaged
    obtain ⟨hheads, hout, -, -⟩ := updateGenerations_find hu fun _ => rfl
    dsimp only at he
    split at he
    · cases he
    · split at he
      · cases he
      · rw [if_neg (by decide)] at he
        cases he
        refine ⟨?_, hd, by show hd ∈ d.heads.rows; rw [hheads]; exact hm, hdid.trans hgid, hdkey.trans hgkey⟩
        refine Option.eq_none_iff_forall_ne_some.mpr fun o ho => ?_
        obtain ⟨ho, hne⟩ := find_deleteOutbox ho
        rw [hout] at ho
        obtain ⟨hom, hoid⟩ := Table.find?_eq_some.mp ho
        obtain rfl := Table.eq_of_key hom hmem (hoid.trans hsid.symm)
        rw [decide_eq_true ⟨hsid, hcookie, rfl⟩] at hne
        cases hne

/-- What an acknowledgement made of the tables, and that nothing is left of the subscription when it
was of what is staged. -/
theorem sane_acknowledgement {i : Identity} {cookie : String} {nowMs : Nat} {b : Bool} (h : Inv w.store)
    (he : w.acknowledgement i cookie nowMs = some (w', b)) : Sane w w' ∧
      (b = true → (∀ snapshot sentAt, w'.store.Holds snapshot sentAt → snapshot.scope.key ≠ i.key) ∧
        ∀ r ∈ w'.replays, r.key ≠ i.key) := by
  unfold QuotaDb.acknowledgement at he
  split at he
  · cases he
  · rename_i store done hstore
    have hinv := (Steps.acknowledge h hstore).inv
    have hcalm : Calm w { w with store } := calm_store (.acknowledge hstore)
    split at he
    · rename_i hboth
      cases he
      obtain ⟨hack, rfl⟩ := Bool.and_eq_true_iff.mp hboth
      obtain ⟨hnone, hd, hm, hid, hkey⟩ := acknowledge_settles hstore hack
      refine ⟨⟨hcalm.trans (calm_deleteReplay _ i.key), hinv⟩, fun _ => ⟨fun snapshot sentAt hh hk => ?_,
        fun r hr => ?_⟩⟩
      · have hsame := Holds.head hinv hh hm (hkey.trans hk.symm)
        obtain ⟨g, o, -, ho, -⟩ := hh
        rw [← hsame, hid] at ho
        have ho : store.outbox.find? i.registrationId = some o := ho
        rw [hnone] at ho
        cases ho
      · have := (Table.mem_deleteWhere.mp hr).2
        exact of_decide_eq_false this
    · cases he
      exact ⟨⟨hcalm, hinv⟩, fun hb => by cases hb⟩

end Chardb.Gateway
