import Chardb.Resharder.State

/-!
# Start intents

`ResharderStartIntentStore`: the durable start identity and the cancellation
tombstone of the window in which Catalog is asked. The lemmas say what each call
leaves under every migration id.
-/

namespace Chardb.Resharder

open Chardb.Lib

/-- What `read` projects a row to. -/
structure ResharderStartIntent where
  migId : String
  state : StartState
  identity : Option ResharderStartIdentity
  deriving DecidableEq

def intentConstraint : Thrown := .constraint "migration_start_intent"

def invalidIntent (message : String) : Thrown := invalidArgs ("reshard start intent: " ++ message)

def canceledStart (migId : String) : Thrown :=
  staleEpoch ("migId=" ++ migId ++ " was canceled before its split started")

def assertMigrationId (migId : String) : ResharderTx Unit :=
  .require (isResharderMigId migId) (invalidIntent "migration id is invalid")

def assertIntentTimestamp (nowMs : Int) : ResharderTx Unit :=
  .require (IsCounter nowMs) (invalidIntent "timestamp is invalid")

def project (row : StartIntentRow) : ResharderStartIntent where
  migId := row.migId
  state := row.state
  identity := row.split.map fun split => { split with migId := row.migId }

namespace StartIntent

def read (migId : String) : ResharderTx (Option ResharderStartIntent) := do
  assertMigrationId migId
  .gets fun db => (db.startIntents.find? migId).map project

def required (migId : String) : ResharderTx ResharderStartIntent := do
  let intent ← read migId
  .ofOption intent (phaseMismatch ("migId=" ++ migId ++ " has no durable start intent"))

def requireExact (identity : ResharderStartIdentity) : ResharderTx ResharderStartIntent := do
  let intent ← required identity.migId
  .require (intent.identity = some identity)
    (phaseMismatch ("migId=" ++ identity.migId ++ " start identity changed"))
  pure intent

def assertCapacity : ResharderTx Unit := do
  let count ← .gets fun db => (db.startIntents.count : Int)
  .require (count < VSHARD_COUNT) (.cdb
    { code := .rateLimited
      message := "reshard start cancellation history reached its 16384-record limit" })

def «begin» (identity : ResharderStartIdentity) (nowMs : Int) :
    ResharderTx ResharderStartIntent := do
  assertMigrationId identity.migId
  assertIntentTimestamp nowMs
  let existing ← read identity.migId
  match existing with
  | some existing => do
    .require (existing.identity = none ∨ existing.identity = some identity)
      (phaseMismatch ("migId=" ++ identity.migId ++ " is already bound to a different split start"))
    .require (existing.state ≠ .abortRequested) (canceledStart identity.migId)
    .require (existing.identity ≠ none)
      (phaseMismatch ("migId=" ++ identity.migId ++ " has no durable split start identity"))
    pure existing
  | none => do
    assertCapacity
    onStartIntents (Table.insert
      { migId := identity.migId, state := .starting, split := some identity.toSplitIdentity
        createdAt := nowMs, updatedAt := nowMs } intentConstraint)
    requireExact identity

/-- The write of `requestAbort`: a new tombstone, or `starting` turned into one. -/
def recordAbort (migId : String) (nowMs : Int) : Option ResharderStartIntent → ResharderTx Unit
  | none => do
    assertCapacity
    onStartIntents (Table.insert
      { migId, state := .abortRequested, split := none, createdAt := nowMs, updatedAt := nowMs }
      intentConstraint)
  | some existing =>
    if existing.state = .starting then do
      let _ ← onStartIntents (Table.update (fun r => decide (r.migId = migId) && r.state = .starting)
        (fun r => { r with state := .abortRequested, updatedAt := nowMs }) intentConstraint)
      pure ()
    else pure ()

def requestAbort (migId : String) (nowMs : Int) : ResharderTx ResharderStartIntent := do
  assertMigrationId migId
  assertIntentTimestamp nowMs
  let existing ← read migId
  recordAbort migId nowMs existing
  required migId

def clearStarted (identity : ResharderStartIdentity) : ResharderTx Unit := do
  let intent ← requireExact identity
  .require (intent.state = .starting) (canceledStart identity.migId)
  let changes ← onStartIntents (Table.delete fun r =>
    decide (r.migId = identity.migId) && r.state = .starting)
  .require (changes = 1)
    (phaseMismatch ("migId=" ++ identity.migId ++ " start intent changed before completion"))

/-! ## What the calls leave -/

variable {db db' : ResharderDb}

@[simp] theorem assertMigrationId_returns {migId : String} {a : Unit} :
    (assertMigrationId migId).Returns db a db' ↔ isResharderMigId migId = true ∧ db = db' :=
  Tx.require_returns

@[simp] theorem assertIntentTimestamp_returns {nowMs : Int} {a : Unit} :
    (assertIntentTimestamp nowMs).Returns db a db' ↔ IsCounter nowMs ∧ db = db' :=
  Tx.require_returns

theorem readOnly_assertCapacity : assertCapacity.ReadOnly :=
  (Tx.readOnly_gets _).bind fun _ => Tx.readOnly_require _ _

theorem read_returns {migId : String} {o : Option ResharderStartIntent}
    (h : (read migId).Returns db o db') :
    o = (db.startIntents.find? migId).map project ∧ db = db' := by
  simp only [read, assertMigrationId_returns, Tx.bind_returns, Tx.gets_returns] at h
  obtain ⟨_, _, ⟨-, rfl⟩, rfl, rfl⟩ := h
  exact ⟨rfl, rfl⟩

theorem required_returns {migId : String} {i : ResharderStartIntent}
    (h : (required migId).Returns db i db') :
    ∃ row, db.startIntents.find? migId = some row ∧ i = project row ∧ db = db' := by
  simp only [required, Tx.bind_returns, Tx.ofOption_returns] at h
  obtain ⟨o, _, hr, rfl, rfl⟩ := h
  obtain ⟨ho, rfl⟩ := read_returns hr
  obtain ⟨row, hrow, rfl⟩ := Option.map_eq_some_iff.mp ho.symm
  exact ⟨row, hrow, rfl, rfl⟩

theorem project_identity {row : StartIntentRow} {i : ResharderStartIdentity}
    (hid : row.migId = i.migId) :
    (project row).identity = some i ↔ row.split = some i.toSplitIdentity := by
  cases hs : row.split with
  | none => simp [project, hs]
  | some s =>
    simp only [project, hs, Option.map_some, Option.some.injEq]
    constructor
    · rintro rfl; rfl
    · rintro rfl; rw [hid]

theorem requireExact_returns {identity : ResharderStartIdentity} {i : ResharderStartIntent}
    (h : (requireExact identity).Returns db i db') :
    ∃ row, db.startIntents.find? identity.migId = some row ∧
      row.split = some identity.toSplitIdentity ∧ i = project row ∧ db = db' := by
  simp only [requireExact, Tx.bind_returns, Tx.require_returns, Tx.pure_returns] at h
  obtain ⟨_, _, hr, _, _, ⟨hi, rfl⟩, rfl, rfl⟩ := h
  obtain ⟨row, hrow, rfl, rfl⟩ := required_returns hr
  exact ⟨row, hrow, (project_identity (Table.find?_eq_some.mp hrow).2).mp hi, rfl, rfl⟩

/-- After `begin` the identity stands under its id in state `starting`; other ids are as before. -/
theorem begin_returns {identity : ResharderStartIdentity} {nowMs : Int} {i : ResharderStartIntent}
    (h : («begin» identity nowMs).Returns db i db') :
    (∃ t, db' = { db with startIntents := t }) ∧
    (∀ m, m ≠ identity.migId → db'.startIntents.find? m = db.startIntents.find? m) ∧
    (∀ row, db.startIntents.find? identity.migId = some row →
      row.state = .starting ∧ row.split = some identity.toSplitIdentity) ∧
    ∃ row, db'.startIntents.find? identity.migId = some row ∧ row.state = .starting ∧
      row.split = some identity.toSplitIdentity := by
  simp only [«begin», assertMigrationId_returns, assertIntentTimestamp_returns,
    Tx.bind_returns] at h
  obtain ⟨_, _, ⟨-, rfl⟩, _, _, ⟨-, rfl⟩, o, _, hr, h⟩ := h
  obtain ⟨ho, rfl⟩ := read_returns hr
  split at h
  · rename_i existing
    obtain ⟨row, hrow, rfl⟩ := Option.map_eq_some_iff.mp ho.symm
    simp only [Tx.bind_returns, Tx.require_returns, Tx.pure_returns] at h
    obtain ⟨_, _, ⟨h₁, rfl⟩, _, _, ⟨h₂, rfl⟩, _, _, ⟨h₃, rfl⟩, rfl, rfl⟩ := h
    have hid := (Table.find?_eq_some.mp hrow).2
    have hsplit := (project_identity hid).mp (h₁.resolve_left h₃)
    have hstate : row.state = .starting := by
      cases hs : row.state with
      | starting => rfl
      | abortRequested => exact absurd hs h₂
    refine ⟨⟨_, rfl⟩, fun _ _ => rfl, fun row' hrow' => ?_, row, hrow, hstate, hsplit⟩
    rw [hrow] at hrow'; cases hrow'; exact ⟨hstate, hsplit⟩
  · have hnone : db.startIntents.find? identity.migId = none := by
      simpa using Option.map_eq_none_iff.mp ho.symm
    simp only [Tx.bind_returns, onStartIntents_returns, Table.insert_returns] at h
    obtain ⟨_, _, hcap, _, _, ⟨t, hi, rfl⟩, hx⟩ := h
    obtain rfl := readOnly_assertCapacity.returns hcap
    obtain ⟨row, hrow, hsplit, -, rfl⟩ := requireExact_returns hx
    have hfind := Table.find?_insert hi
    refine ⟨⟨t, rfl⟩, fun m hm => ?_, fun row hrow => ?_, ?_⟩
    · rw [hfind, if_neg (Ne.symm hm)]
    · rw [hnone] at hrow; cases hrow
    · exact ⟨_, by rw [hfind, if_pos rfl], rfl, rfl⟩

/-- After `requestAbort` the id carries a cancellation; an identity it had stays. -/
theorem requestAbort_returns {migId : String} {nowMs : Int} {i : ResharderStartIntent}
    (h : (requestAbort migId nowMs).Returns db i db') :
    (∃ t, db' = { db with startIntents := t }) ∧
    (∀ m, m ≠ migId → db'.startIntents.find? m = db.startIntents.find? m) ∧
    ∃ row, db'.startIntents.find? migId = some row ∧ row.state = .abortRequested ∧
      row.split = (db.startIntents.find? migId).bind (·.split) := by
  simp only [requestAbort, assertMigrationId_returns, assertIntentTimestamp_returns,
    Tx.bind_returns] at h
  obtain ⟨_, _, ⟨-, rfl⟩, _, _, ⟨-, rfl⟩, o, _, hr, _, _, hrec, hx⟩ := h
  obtain ⟨ho, rfl⟩ := read_returns hr
  obtain ⟨-, -, -, rfl⟩ := required_returns hx
  cases o with
  | none =>
    have hnone : db.startIntents.find? migId = none := by
      simpa using Option.map_eq_none_iff.mp ho.symm
    simp only [recordAbort, Tx.bind_returns, onStartIntents_returns, Table.insert_returns] at hrec
    obtain ⟨_, _, hcap, t, hi, rfl⟩ := hrec
    obtain rfl := readOnly_assertCapacity.returns hcap
    have hfind := Table.find?_insert hi
    refine ⟨⟨t, rfl⟩, fun m hm => ?_, _, by rw [hfind, if_pos rfl], rfl, ?_⟩
    · rw [hfind, if_neg (Ne.symm hm)]
    · rw [hnone]; rfl
  | some existing =>
    obtain ⟨row, hrow, rfl⟩ := Option.map_eq_some_iff.mp ho.symm
    rcases Tx.ite_returns.mp hrec with ⟨hst, h⟩ | ⟨hst, h⟩
    · simp only [Tx.bind_returns, onStartIntents_returns, Table.update_returns,
        Tx.pure_returns] at h
      obtain ⟨_, _, ⟨t, ⟨hu, -⟩, rfl⟩, -, rfl⟩ := h
      have hfind := Table.find?_update hu fun _ _ _ => rfl
      have hst : row.state = .starting := hst
      refine ⟨⟨t, rfl⟩, fun m hm => ?_, { row with state := .abortRequested, updatedAt := nowMs },
        ?_, rfl, by rw [hrow]; rfl⟩
      · show t.find? m = _
        rw [hfind]
        cases hm' : db.startIntents.find? m with
        | none => rfl
        | some r =>
          have : r.migId ≠ migId := fun he => hm ((Table.find?_eq_some.mp hm').2.symm.trans he)
          simp [this]
      · show t.find? migId = _
        rw [hfind, hrow]
        simp [(Table.find?_eq_some.mp hrow).2, hst]
    · obtain ⟨-, rfl⟩ := Tx.pure_returns.mp h
      have hst : ¬ row.state = .starting := hst
      refine ⟨⟨_, rfl⟩, fun _ _ => rfl, row, hrow, ?_, by rw [hrow]; rfl⟩
      cases hs : row.state with
      | starting => exact absurd hs hst
      | abortRequested => rfl

/-- `clearStarted` removes the intent, which stood in state `starting` under this identity. -/
theorem clearStarted_returns {identity : ResharderStartIdentity} {a : Unit}
    (h : (clearStarted identity).Returns db a db') :
    (∃ t, db' = { db with startIntents := t }) ∧
    (∀ m, m ≠ identity.migId → db'.startIntents.find? m = db.startIntents.find? m) ∧
    db'.startIntents.find? identity.migId = none ∧
    ∃ row, db.startIntents.find? identity.migId = some row ∧ row.state = .starting ∧
      row.split = some identity.toSplitIdentity := by
  simp only [clearStarted, Tx.bind_returns, Tx.require_returns, onStartIntents_returns,
    Table.delete_returns] at h
  obtain ⟨i, _, hx, _, _, ⟨hst, rfl⟩, _, _, ⟨t, ⟨rfl, -⟩, rfl⟩, -, rfl⟩ := h
  obtain ⟨row, hrow, hsplit, rfl, rfl⟩ := requireExact_returns hx
  have hst : row.state = .starting := hst
  have hid := (Table.find?_eq_some.mp hrow).2
  refine ⟨⟨_, rfl⟩, fun m hm => ?_, ?_, row, hrow, hst, hsplit⟩
  · show (Table.deleteWhere _ _).find? m = _
    rw [Table.find?_deleteWhere]
    cases hm' : db.startIntents.find? m with
    | none => rfl
    | some r =>
      have : r.migId ≠ identity.migId := fun he => hm ((Table.find?_eq_some.mp hm').2.symm.trans he)
      simp [this]
  · show (Table.deleteWhere _ _).find? identity.migId = none
    rw [Table.find?_deleteWhere, hrow]
    simp [hid, hst]

end StartIntent

end Chardb.Resharder
