import Chardb.Gateway.RegistrationSteps

/-!
# Runs of the registration store

The operations in any order, each a transaction: one that throws changes nothing.
-/

namespace Chardb.Gateway

open Chardb.Lib

/-! ## Operations -/

/-- A call of the store with its inputs; a Boolean is what the tables left out decide. -/
inductive GatewayOp
  | install (input : GatewayDb.Install) (refused : Bool)
  | arm (i : Identity) (recoveryAt nowMs : Nat)
  | activate (i : Identity) (changeSeq nowMs : Nat)
  | deleteNeverRegistered (i : Identity)
  | markAmbiguous (i : Identity) (nowMs : Nat)
  | invalidate (i : Identity) (sourceCdbId : String) (changeSeq updatedAt : Nat)
  | claim (i : Identity) (runToken : String) (nowMs leaseExpiresAt : Nat)
  | stage (input : GatewayDb.Stage) (refused : Bool)
  | failRun (i : Identity) (runToken : String) (runVersion nowMs : Nat)
      (retryNotBeforeMs : Option Nat) (error : String)
  | deferRun (i : Identity) (nowMs retryAt : Nat)
  | claimSend (allowed : OutboxRow → Bool) (claimToken : String) (nowMs attemptExpiresAt : Nat)
  | markSendBase (c : GatewayDb.SendClaim) (baseCookie : Option String) (nowMs : Nat)
      (exceeds : Bool)
  | discardSend (c : GatewayDb.SendClaim)
  | failSend (c : GatewayDb.SendClaim) (nowMs : Nat) (retryNotBeforeMs : Option Nat) (error : String)
  | acknowledge (i : Identity) (cookie : String) (nowMs : Nat) (refused : Bool)
  | resume (connectionId : String) (nowMs : Nat)
  | retire (key : RegistrationKey) (registrationId : String) (nowMs : Nat)
  | retireCurrent (key : RegistrationKey) (connectionId : String) (nowMs : Nat)
  | retireConnection (connectionId : String) (nowMs : Nat) (refused : Bool)
  | retireRun (i : Identity) (runToken : String) (runVersion nowMs : Nat)
  | retireSend (c : GatewayDb.SendClaim) (nowMs : Nat)
  | cleanup (key : RegistrationKey) (registrationId : String)
  | completeCleanup (i : Identity) (sourceCdbId : String)
  | cleanupFailure (i : Identity) (retryCount nowMs : Nat) (error : String)

/-- The tables that a call leaves, if it does not throw. -/
def GatewayOp.call (db : GatewayDb) : GatewayOp → Option GatewayDb
  | install input refused => (db.installGatewayRegistration input refused).map Prod.fst
  | arm i recoveryAt nowMs => (db.armGatewaySubscriptionRecovery i recoveryAt nowMs).map Prod.fst
  | activate i changeSeq nowMs => (db.activateGatewaySubscription i changeSeq nowMs).map Prod.fst
  | deleteNeverRegistered i => (db.deleteNeverRegisteredGatewaySubscription i).map Prod.fst
  | markAmbiguous i nowMs => (db.markPendingGatewaySubscriptionAmbiguous i nowMs).map Prod.fst
  | invalidate i sourceCdbId changeSeq updatedAt =>
    (db.acceptInvalidation i sourceCdbId changeSeq updatedAt).map Prod.fst
  | claim i runToken nowMs leaseExpiresAt =>
    (db.claimDirtyGatewayRegistration i runToken nowMs leaseExpiresAt).map Prod.fst
  | stage input refused => (db.stageGatewaySnapshot input refused).map Prod.fst
  | failRun i runToken runVersion nowMs retryNotBeforeMs error =>
    (db.failGatewayDirtyRun i runToken runVersion nowMs retryNotBeforeMs error).map Prod.fst
  | deferRun i nowMs retryAt => (db.deferGatewayDirtyRun i nowMs retryAt).map Prod.fst
  | claimSend allowed claimToken nowMs attemptExpiresAt =>
    (db.claimDueGatewaySnapshot allowed claimToken nowMs attemptExpiresAt).map Prod.fst
  | markSendBase c baseCookie nowMs exceeds =>
    (db.markGatewaySnapshotSendBaseCookie c baseCookie nowMs exceeds).map Prod.fst
  | discardSend c => (db.discardClaimedGatewaySnapshot c).map Prod.fst
  | failSend c nowMs retryNotBeforeMs error =>
    (db.failGatewaySnapshotSend c nowMs retryNotBeforeMs error).map Prod.fst
  | acknowledge i cookie nowMs refused =>
    (db.acknowledgeGatewaySnapshot i cookie nowMs refused).map Prod.fst
  | resume connectionId nowMs => (db.resumeGatewayAuthDeferredWork connectionId nowMs).map Prod.fst
  | retire key registrationId nowMs =>
    (db.retireGatewayRegistration key registrationId nowMs).map Prod.fst
  | retireCurrent key connectionId nowMs =>
    (db.retireCurrentGatewayRegistration key connectionId nowMs).map Prod.fst
  | retireConnection connectionId nowMs refused =>
    db.retireCurrentGatewayRegistrationsForConnection connectionId nowMs refused
  | retireRun i runToken runVersion nowMs =>
    (db.retireClaimedGatewayRegistration i runToken runVersion nowMs).map Prod.fst
  | retireSend c nowMs => (db.retireClaimedGatewaySnapshot c nowMs).map Prod.fst
  | cleanup key registrationId => (db.cleanupGatewayRegistration key registrationId).map Prod.fst
  | completeCleanup i sourceCdbId => db.completeGatewayCleanup i sourceCdbId
  | cleanupFailure i retryCount nowMs error =>
    db.recordGatewayCleanupFailure i retryCount nowMs error

/-- The two operations that delete the retired generation of an id. -/
def GatewayOp.CleansUp (registrationId : String) : GatewayOp → Prop
  | cleanup _ id => id = registrationId
  | completeCleanup i _ => i.registrationId = registrationId
  | _ => False

def GatewayDb.step (db : GatewayDb) (op : GatewayOp) : GatewayDb := (op.call db).getD db

def GatewayDb.run (db : GatewayDb) : List GatewayOp → GatewayDb
  | [] => db
  | op :: ops => (db.step op).run ops

/-! ## What a step keeps -/

variable {db db' : GatewayDb}

theorem fst_eq_some {α β : Type} {x : Option (α × β)} {a : α} (h : x.map Prod.fst = some a) :
    ∃ b, x = some (a, b) := by
  obtain ⟨⟨a', b⟩, hx, rfl⟩ := Option.map_eq_some_iff.mp h
  exact ⟨b, hx⟩

theorem GatewayOp.steps {op : GatewayOp} (h : Inv db) (hop : ∀ id, ¬ op.CleansUp id)
    (hdel : ∀ i, op ≠ .deleteNeverRegistered i) (hc : op.call db = some db') : Steps db db' := by
  cases op with
  | install =>
    obtain ⟨_, hc⟩ := fst_eq_some hc
    exact .install h hc
  | arm =>
    obtain ⟨_, hc⟩ := fst_eq_some hc
    exact .arm h hc
  | activate =>
    obtain ⟨_, hc⟩ := fst_eq_some hc
    exact .activate h hc
  | deleteNeverRegistered i => exact absurd rfl (hdel i)
  | markAmbiguous =>
    obtain ⟨_, hc⟩ := fst_eq_some hc
    exact .markAmbiguous h hc
  | invalidate =>
    obtain ⟨_, hc⟩ := fst_eq_some hc
    exact .accept h hc
  | claim =>
    obtain ⟨_, hc⟩ := fst_eq_some hc
    exact .claim h hc
  | stage =>
    obtain ⟨_, hc⟩ := fst_eq_some hc
    exact .stage h hc
  | failRun =>
    obtain ⟨_, hc⟩ := fst_eq_some hc
    exact .failRun h hc
  | deferRun =>
    obtain ⟨_, hc⟩ := fst_eq_some hc
    exact .defer h hc
  | claimSend =>
    obtain ⟨_, hc⟩ := fst_eq_some hc
    exact .claimDue h hc
  | markSendBase =>
    obtain ⟨_, hc⟩ := fst_eq_some hc
    exact .markBase h hc
  | discardSend =>
    cases hc
    exact .discard h rfl
  | failSend =>
    obtain ⟨_, hc⟩ := fst_eq_some hc
    exact .failSend h hc
  | acknowledge =>
    obtain ⟨_, hc⟩ := fst_eq_some hc
    exact .acknowledge h hc
  | resume =>
    obtain ⟨_, hc⟩ := fst_eq_some hc
    exact .resume h hc
  | retire =>
    obtain ⟨_, hc⟩ := fst_eq_some hc
    exact .retire h hc
  | retireCurrent =>
    obtain ⟨_, hc⟩ := fst_eq_some hc
    exact .retireCurrent h hc
  | retireConnection => exact .retireConnection h hc
  | retireRun =>
    obtain ⟨_, hc⟩ := fst_eq_some hc
    exact .retireClaimed h hc
  | retireSend =>
    obtain ⟨_, hc⟩ := fst_eq_some hc
    exact .retireSnapshot h hc
  | cleanup => exact absurd rfl (hop _)
  | completeCleanup => exact absurd rfl (hop _)
  | cleanupFailure => exact .cleanupFailure h hc

theorem GatewayOp.cleans {op : GatewayOp} {id : String} (h : Inv db) (hop : op.CleansUp id)
    (hc : op.call db = some db') : Cleans db db' id := by
  cases op with
  | cleanup =>
    obtain rfl := hop
    obtain ⟨_, hc⟩ := fst_eq_some hc
    exact .cleanup h hc
  | completeCleanup =>
    obtain rfl := hop
    exact .complete h hc
  | _ => exact hop.elim

/-- What a step does to the generation of an id. -/
theorem step_generation (h : Inv db) (op : GatewayOp) {id : String} {g : Generation}
    (hg : db.generations.find? id = some g) :
    (∃ g', (db.step op).generations.find? id = some g' ∧
      (g.cdbState ≠ .pending → g'.cdbState ≠ .pending)) ∨
      (op.CleansUp id ∧ g.lifecycle = .retiring ∧ g.cdbState = .retiring) ∨
      ∃ i, op = .deleteNeverRegistered i ∧ i.registrationId = id ∧ g.cdbState = .pending := by
  unfold GatewayDb.step
  cases hc : op.call db with
  | none => exact .inl ⟨g, hg, fun hp => hp⟩
  | some db' =>
    by_cases hop : ∃ id', op.CleansUp id'
    · obtain ⟨id', hop⟩ := hop
      rcases (op.cleans h hop hc).kept id g hg with hk | ⟨rfl, hl, hr, -⟩
      · exact .inl ⟨g, hk, fun hp => hp⟩
      · exact .inr (.inl ⟨hop, hl, hr⟩)
    · by_cases hdel : ∃ i, op = .deleteNeverRegistered i
      · obtain ⟨i, rfl⟩ := hdel
        obtain ⟨_, hc⟩ := fst_eq_some hc
        rcases (Forgets.deleteNever h hc).kept id g hg with hk | ⟨hid, hp⟩
        · exact .inl ⟨g, hk, fun hp => hp⟩
        · exact .inr (.inr ⟨i, rfl, hid.symm, hp⟩)
      · exact .inl ((op.steps h (fun id' he => hop ⟨id', he⟩) (fun i he => hdel ⟨i, he⟩) hc).keeps id g hg)

theorem inv_step (h : Inv db) (op : GatewayOp) : Inv (db.step op) := by
  unfold GatewayDb.step
  cases hc : op.call db with
  | none => exact h
  | some db' =>
    by_cases hop : ∃ id, op.CleansUp id
    · obtain ⟨id, hop⟩ := hop
      exact (op.cleans h hop hc).inv
    · by_cases hdel : ∃ i, op = .deleteNeverRegistered i
      · obtain ⟨i, rfl⟩ := hdel
        obtain ⟨_, hc⟩ := fst_eq_some hc
        exact (Forgets.deleteNever h hc).inv
      · exact (op.steps h (fun id he => hop ⟨id, he⟩) (fun i he => hdel ⟨i, he⟩) hc).inv

theorem inv_run (h : Inv db) (ops : List GatewayOp) : Inv (db.run ops) := by
  induction ops generalizing db with
  | nil => exact h
  | cons op ops ih => exact ih (inv_step h op)

/-! ## The store is safe -/

/-- The tables as they may be found between two operations. -/
structure GatewayDb.Sound (db : GatewayDb) : Prop where
  one_head : ∀ h ∈ db.heads.rows, ∀ h' ∈ db.heads.rows, h.key = h'.key → h = h'
  head_names : ∀ h ∈ db.heads.rows, ∃ g ∈ db.generations.rows,
    g.registrationId = h.registrationId ∧ g.key = h.key ∧
      (g.lifecycle = .installing ∨ g.lifecycle = .active)
  headless : ∀ g ∈ db.generations.rows, ¬ db.Headed g.registrationId → g.cdbState ≠ .pending →
    g.lifecycle = .retiring ∧ g.cdbState = .retiring ∧ g.payload = .retired ∧
      ¬ db.Staged g.registrationId ∧ g.retryAt.isSome = true
  run : ∀ g ∈ db.generations.rows, g.Idle ∨ (g.runToken.isSome = true ∧
    g.runTargetVersion.isSome = true ∧ g.runLeaseExpiresAt.isSome = true)
  staged : ∀ o ∈ db.outbox.rows, ∃ g ∈ db.generations.rows, g.registrationId = o.registrationId ∧
    g.Idle ∧ g.deliveredVersion ≤ o.targetVersion ∧ o.targetVersion ≤ g.dirtyVersion

theorem Inv.sound (h : Inv db) : db.Sound where
  one_head _ hm _ hm' hk := Table.eq_of_key hm hm' hk
  head_names hd hm := by
    cases hg : db.generations.find? hd.registrationId with
    | none => exact absurd ⟨hd, hm, rfl⟩ ((h _).absent hg).1
    | some g =>
      obtain ⟨hgm, hid⟩ := generation_of_find hg
      refine ⟨g, hgm, hid, ((h _).key g hg hd hm rfl).symm, ?_⟩
      have hl := (h.rowOk hgm).head.mp ⟨hd, hm, hid.symm⟩
      cases hlife : g.lifecycle with
      | installing => exact .inl rfl
      | active => exact .inr rfl
      | retiring => exact absurd hlife hl
  headless g hg hhead hc := by
    have hrow := h.rowOk hg
    have hl : g.lifecycle = .retiring := by
      by_contra hne
      exact hhead (hrow.head.mpr hne)
    have hna : ¬ g.Active := fun ha => by
      rw [ha.1] at hl
      cases hl
    have hret : g.cdbState = .retiring := by
      rcases hrow.states with ⟨hi, -⟩ | ha | ⟨-, hp | hr⟩
      · rw [hi] at hl
        cases hl
      · exact absurd ha hna
      · exact absurd hp hc
      · exact hr
    refine ⟨hl, hret, hrow.scrubbed hl, ?_, hrow.scheduled hret⟩
    rw [GatewayDb.Staged, hrow.unstaged hna]
    decide
  run g hg := (h.rowOk hg).run
  staged o ho := by
    have hfind := Table.find?_key ho
    cases hg : db.generations.find? o.registrationId with
    | none =>
      have hnone := ((h _).absent hg).2
      exact absurd (hfind.symm.trans hnone) (by simp)
    | some g =>
      obtain ⟨hgm, hid⟩ := generation_of_find hg
      obtain ⟨-, hidle, hle, hge⟩ := ((h _).row g hg).staged o hfind
      exact ⟨g, hgm, hid, hidle, hle, hge⟩

/-- What a step does to a generation that the Cdb may know of. -/
theorem step_keeps (h : Inv db) (op : GatewayOp) {g : Generation}
    (hg : g ∈ db.generations.rows) (hc : g.cdbState ≠ .pending) :
    (∃ g' ∈ (db.step op).generations.rows, g'.registrationId = g.registrationId ∧
      g'.cdbState ≠ .pending) ∨
      (op.CleansUp g.registrationId ∧ g.lifecycle = .retiring ∧ g.cdbState = .retiring) := by
  rcases step_generation h op (find_generation hg) with ⟨g', hg', hc'⟩ | hclean | ⟨_, -, -, hp⟩
  · obtain ⟨hm, hid⟩ := generation_of_find hg'
    exact .inl ⟨g', hm, hid, hc' hc⟩
  · exact .inr hclean
  · exact absurd hp hc

/-- After any operations the tables are sound, and a generation whose `cdb_state` has left `pending`
goes only when it is retiring and cleaned up. -/
theorem registration_store_safe (ops : List GatewayOp) :
    (GatewayDb.empty.run ops).Sound ∧
      ∀ (op : GatewayOp) (g : Generation), g ∈ (GatewayDb.empty.run ops).generations.rows →
        g.cdbState ≠ .pending →
        (∃ g' ∈ ((GatewayDb.empty.run ops).step op).generations.rows,
          g'.registrationId = g.registrationId ∧ g'.cdbState ≠ .pending) ∨
          (op.CleansUp g.registrationId ∧ g.lifecycle = .retiring ∧ g.cdbState = .retiring) := by
  have h := inv_run inv_empty ops
  exact ⟨h.sound, fun op g hg hc => step_keeps h op hg hc⟩

end Chardb.Gateway
