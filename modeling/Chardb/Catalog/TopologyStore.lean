import Chardb.Catalog.SchemaMigrationSteps

/-!
# The store of topology operations

`CatalogTopologyOperationStore`: one operation at a time holds the lease, and its record stays when
the operation is over. Every call is taken apart once, into the state it needs and the state it
leaves.
-/

namespace Chardb.Catalog

open Chardb.Lib Chardb.Schema

variable {t t' : TopologyTable} {o stored : CatalogTopologyOperation}
  {identity : CatalogTopologyOperationIdentity} {nowMs completedEpoch : Int}

/-! ## The store -/

/-- A status as the table and the messages write it. -/
def CatalogTopologyOperationStatus.text : CatalogTopologyOperationStatus → String
  | .active => "active"
  | .completed => "completed"
  | .aborted => "aborted"

def readExact (identity : CatalogTopologyOperationIdentity) :
    TopologyTx CatalogTopologyOperation := do
  assertIdentity identity
  let operation ← readTopology identity.migrationId
  let operation ← .ofOption operation (staleEpoch "topology operation lease is missing")
  .require (operation.identity = identity) identityChanged
  pure operation

def assertActive (identity : CatalogTopologyOperationIdentity) :
    TopologyTx CatalogTopologyOperation := do
  assertIdentity identity
  let operation ← readTopology identity.migrationId
  let operation ← .ofOption operation (staleEpoch "topology operation lease is missing")
  .require (operation.identity = identity) identityChanged
  .require (operation.status = .active)
    (staleEpoch s!"topology operation is {operation.status.text}")
  pure operation

/-- The row of an operation that `complete` ends. -/
def CatalogTopologyOperation.completed (completedEpoch nowMs : Int) (o : CatalogTopologyOperation) :
    CatalogTopologyOperation :=
  { o with status := .completed, completedEpoch := some completedEpoch, updatedAt := nowMs }

/-- The row of an operation that `abort` ends. -/
def CatalogTopologyOperation.aborted (nowMs : Int) (o : CatalogTopologyOperation) :
    CatalogTopologyOperation :=
  { o with status := .aborted, updatedAt := nowMs }

/-- `CatalogTopologyOperationStore.complete`. -/
def completeTopology (identity : CatalogTopologyOperationIdentity) (completedEpoch nowMs : Int) :
    TopologyTx CatalogTopologyOperation := do
  .require (IsSafeInteger completedEpoch ∧ identity.startEpoch < completedEpoch)
    (invalidArgs "topology completion epoch is invalid")
  .require (IsSafeInteger nowMs ∧ 0 ≤ nowMs) (invalidArgs "topology operation timestamp is invalid")
  let operation ← readExact identity
  match operation.status with
  | .completed => do
    .require (operation.completedEpoch = some completedEpoch)
      (staleEpoch "topology completion epoch changed")
    pure operation
  | .aborted => .throw (staleEpoch "aborted topology operation cannot complete")
  | .active => do
    let _ ← updateTopology identity.migrationId (.completed completedEpoch nowMs)
    readExact identity

/-- `CatalogTopologyOperationStore.abort`. -/
def abortTopology (identity : CatalogTopologyOperationIdentity) (nowMs : Int) :
    TopologyTx CatalogTopologyOperation := do
  .require (IsSafeInteger nowMs ∧ 0 ≤ nowMs) (invalidArgs "topology operation timestamp is invalid")
  let operation ← readExact identity
  match operation.status with
  | .aborted => pure operation
  | .completed => .throw (staleEpoch "completed topology operation cannot abort")
  | .active => do
    let _ ← updateTopology identity.migrationId (.aborted nowMs)
    readExact identity

/-- A call of the store. -/
inductive TopologyCall
  | begin (identity : CatalogTopologyOperationIdentity) (nowMs : Int)
  | assertActive (identity : CatalogTopologyOperationIdentity)
  | complete (identity : CatalogTopologyOperationIdentity) (completedEpoch nowMs : Int)
  | abort (identity : CatalogTopologyOperationIdentity) (nowMs : Int)
  | assertNoActive
  deriving DecidableEq

/-- The operation that a call answers, if it answers one. -/
def TopologyCall.execute : TopologyCall → TopologyTx (Option CatalogTopologyOperation)
  | .begin identity nowMs => some <$> beginTopology identity nowMs
  | .assertActive identity => some <$> Catalog.assertActive identity
  | .complete identity completedEpoch nowMs =>
    some <$> completeTopology identity completedEpoch nowMs
  | .abort identity nowMs => some <$> abortTopology identity nowMs
  | .assertNoActive => do
    Catalog.assertNoActive
    pure none

/-- The identity that a call names. -/
def TopologyCall.identity? : TopologyCall → Option CatalogTopologyOperationIdentity
  | .begin identity _ | .assertActive identity | .complete identity _ _ | .abort identity _ =>
    some identity
  | .assertNoActive => none

/-- The store after a call, returned from or thrown out of. -/
def topologyStep (t : TopologyTable) (call : TopologyCall) : TopologyTable := call.execute.after t

def topologyRun (t : TopologyTable) (calls : List TopologyCall) : TopologyTable :=
  calls.foldl topologyStep t

/-! ## What a call returns -/

/-- The checks of `assertIdentity`. -/
def ValidIdentity (identity : CatalogTopologyOperationIdentity) : Prop :=
  isMigrationId identity.migrationId = true ∧
    (isMigrationId identity.sourceShard = true ∧ isMigrationId identity.destinationShard = true) ∧
    identity.sourceShard ≠ identity.destinationShard ∧
    (IsSafeInteger identity.rangeLo ∧ IsSafeInteger identity.rangeHi ∧ 0 ≤ identity.rangeLo ∧
      identity.rangeLo ≤ identity.rangeHi ∧ identity.rangeHi < VSHARD_COUNT) ∧
    (IsSafeInteger identity.startEpoch ∧ 1 ≤ identity.startEpoch) ∧
    (IsSafeInteger identity.schemaVersion ∧ 0 ≤ identity.schemaVersion) ∧
    (IsSafeInteger identity.schemaEpoch ∧ 1 ≤ identity.schemaEpoch) ∧
    isSchemaDigest identity.schemaDigest = true ∧
    (IsSafeInteger identity.recoveryGeneration ∧ 0 ≤ identity.recoveryGeneration)

theorem assertIdentity_iff {a : Unit} :
    (assertIdentity identity).Returns t a t' ↔ ValidIdentity identity ∧ t = t' := by
  simp only [assertIdentity, ValidIdentity, Tx.bind_returns, Tx.require_returns]
  constructor
  · rintro ⟨_, _, ⟨h₁, rfl⟩, _, _, ⟨h₂, rfl⟩, _, _, ⟨h₃, rfl⟩, _, _, ⟨h₄, rfl⟩, _, _, ⟨h₅, rfl⟩,
      _, _, ⟨h₆, rfl⟩, _, _, ⟨h₇, rfl⟩, _, _, ⟨h₈, rfl⟩, h₉, rfl⟩
    exact ⟨⟨h₁, h₂, h₃, h₄, h₅, h₆, h₇, h₈, h₉⟩, rfl⟩
  · rintro ⟨⟨h₁, h₂, h₃, h₄, h₅, h₆, h₇, h₈, h₉⟩, rfl⟩
    exact ⟨(), _, ⟨h₁, rfl⟩, (), _, ⟨h₂, rfl⟩, (), _, ⟨h₃, rfl⟩, (), _, ⟨h₄, rfl⟩, (), _, ⟨h₅, rfl⟩,
      (), _, ⟨h₆, rfl⟩, (), _, ⟨h₇, rfl⟩, (), _, ⟨h₈, rfl⟩, h₉, rfl⟩

theorem readTopology_iff {migrationId : String} {r : Option CatalogTopologyOperation} :
    (readTopology migrationId).Returns t r t' ↔ r = t.find? migrationId ∧ t = t' :=
  Tx.gets_returns

theorem readExact_iff :
    (readExact identity).Returns t o t' ↔ ValidIdentity identity ∧
      (t.find? identity.migrationId = some o ∧ o.identity = identity) ∧ t = t' := by
  simp only [readExact, Tx.bind_returns, assertIdentity_iff, readTopology_iff, Tx.ofOption_returns,
    Tx.require_returns, Tx.pure_returns]
  constructor
  · rintro ⟨_, _, ⟨hid, rfl⟩, _, _, ⟨rfl, rfl⟩, _, _, ⟨hfind, rfl⟩, _, _, ⟨hsame, rfl⟩, rfl, rfl⟩
    exact ⟨hid, ⟨hfind, hsame⟩, rfl⟩
  · rintro ⟨hid, ⟨hfind, hsame⟩, rfl⟩
    exact ⟨(), _, ⟨hid, rfl⟩, _, _, ⟨rfl, rfl⟩, o, _, ⟨hfind, rfl⟩, (), _, ⟨hsame, rfl⟩, rfl, rfl⟩

theorem assertActive_iff :
    (assertActive identity).Returns t o t' ↔ ValidIdentity identity ∧
      (t.find? identity.migrationId = some o ∧ o.identity = identity) ∧
        o.status = .active ∧ t = t' := by
  simp only [assertActive, Tx.bind_returns, assertIdentity_iff, readTopology_iff,
    Tx.ofOption_returns, Tx.require_returns, Tx.pure_returns]
  constructor
  · rintro ⟨_, _, ⟨hid, rfl⟩, _, _, ⟨rfl, rfl⟩, _, _, ⟨hfind, rfl⟩, _, _, ⟨hsame, rfl⟩, _, _,
      ⟨hactive, rfl⟩, rfl, rfl⟩
    exact ⟨hid, ⟨hfind, hsame⟩, hactive, rfl⟩
  · rintro ⟨hid, ⟨hfind, hsame⟩, hactive, rfl⟩
    exact ⟨(), _, ⟨hid, rfl⟩, _, _, ⟨rfl, rfl⟩, o, _, ⟨hfind, rfl⟩, (), _, ⟨hsame, rfl⟩, (), _,
      ⟨hactive, rfl⟩, rfl, rfl⟩

theorem insertTopology_iff {a : Unit} :
    (insertTopology identity nowMs).Returns t a t' ↔ activeOperations t = [] ∧
      t.insert? ⟨identity, .active, none, nowMs, nowMs⟩ = some t' := by
  simp only [insertTopology, Tx.bind_returns, Tx.gets_returns, Tx.require_returns,
    Table.insert_returns]
  constructor
  · rintro ⟨_, _, ⟨rfl, rfl⟩, _, _, ⟨hactive, rfl⟩, hinsert⟩
    exact ⟨hactive, hinsert⟩
  · rintro ⟨hactive, hinsert⟩
    exact ⟨_, _, ⟨rfl, rfl⟩, (), _, ⟨hactive, rfl⟩, hinsert⟩

/-- A time that the calls take. -/
def ValidTime (nowMs : Int) : Prop := IsSafeInteger nowMs ∧ 0 ≤ nowMs

/-- The state a new operation needs. -/
structure Vacant (t : TopologyTable) (identity : CatalogTopologyOperationIdentity) : Prop where
  fresh : t.find? identity.migrationId = none
  room : (t.count : Int) < CATALOG_TOPOLOGY_OPERATION_HISTORY_LIMIT
  idle : activeOperations t = []

theorem inserted_find? (h : t.insert? ⟨identity, .active, none, nowMs, nowMs⟩ = some t') :
    t'.find? identity.migrationId = some ⟨identity, .active, none, nowMs, nowMs⟩ :=
  (Table.find?_insert h _).trans (if_pos rfl)

theorem beginTopology_iff :
    (beginTopology identity nowMs).Returns t o t' ↔ ValidIdentity identity ∧ ValidTime nowMs ∧
      ((t.find? identity.migrationId = some o ∧ o.identity = identity ∧ t = t') ∨
        (Vacant t identity ∧ o = ⟨identity, .active, none, nowMs, nowMs⟩ ∧
          t.insert? o = some t')) := by
  simp only [beginTopology, Tx.bind_returns, assertIdentity_iff, readTopology_iff,
    Tx.require_returns]
  constructor
  · rintro ⟨_, _, ⟨hid, rfl⟩, _, _, ⟨htime, rfl⟩, _, _, ⟨rfl, rfl⟩, h⟩
    refine ⟨hid, htime, ?_⟩
    cases hfind : t.find? identity.migrationId with
    | some existing =>
      rw [hfind] at h
      obtain ⟨_, _, hcheck, h⟩ := Tx.bind_returns.mp h
      obtain ⟨hsame, rfl⟩ := Tx.require_returns.mp hcheck
      obtain ⟨rfl, rfl⟩ := Tx.pure_returns.mp h
      exact .inl ⟨rfl, hsame, rfl⟩
    | none =>
      rw [hfind] at h
      simp only [Tx.bind_returns, Tx.gets_returns, Tx.require_returns] at h
      obtain ⟨_, _, ⟨rfl, rfl⟩, _, _, ⟨hroom, rfl⟩, _, _, ⟨rfl, rfl⟩, h⟩ := h
      cases hactive : activeOperations t with
      | cons active rest => rw [hactive] at h; exact (Tx.throw_returns.mp h).elim
      | nil =>
        rw [hactive] at h
        simp only [Tx.bind_returns, insertTopology_iff, readTopology_iff, Tx.ofOption_returns] at h
        obtain ⟨_, t₁, ⟨-, hinsert⟩, _, _, ⟨rfl, rfl⟩, ho, rfl⟩ := h
        rw [inserted_find? hinsert, Option.some.injEq] at ho
        subst ho
        exact .inr ⟨⟨hfind, hroom, hactive⟩, rfl, hinsert⟩
  · rintro ⟨hid, htime, h⟩
    refine ⟨(), t, ⟨hid, rfl⟩, (), t, ⟨htime, rfl⟩, _, t, ⟨rfl, rfl⟩, ?_⟩
    rcases h with ⟨hfind, hsame, rfl⟩ | ⟨⟨hfind, hroom, hactive⟩, rfl, hinsert⟩
    · rw [hfind]
      exact Tx.bind_returns.mpr
        ⟨(), t, Tx.require_returns.mpr ⟨hsame, rfl⟩, Tx.pure_returns.mpr ⟨rfl, rfl⟩⟩
    · rw [hfind]
      simp only [Tx.bind_returns, Tx.gets_returns, Tx.require_returns]
      refine ⟨_, t, ⟨rfl, rfl⟩, (), t, ⟨hroom, rfl⟩, _, t, ⟨rfl, rfl⟩, ?_⟩
      rw [hactive]
      simp only [Tx.bind_returns, insertTopology_iff, readTopology_iff, Tx.ofOption_returns]
      exact ⟨(), t', ⟨hactive, hinsert⟩, _, t', ⟨rfl, rfl⟩, inserted_find? hinsert, rfl⟩

/-- The rows after the active operation under one id is changed by `f`. -/
def endActive (t : TopologyTable) (identity : CatalogTopologyOperationIdentity)
    (f : CatalogTopologyOperation → CatalogTopologyOperation) : Option TopologyTable :=
  t.update?
    (fun o => decide (o.migrationId = identity.migrationId) && decide (o.status = .active)) f

theorem endActive_find? {f : CatalogTopologyOperation → CatalogTopologyOperation}
    (hf : ∀ o, (f o).identity = o.identity) (hfind : t.find? identity.migrationId = some stored)
    (hactive : stored.status = .active) (h : endActive t identity f = some t') :
    t'.find? identity.migrationId = some (f stored) := by
  have hmatch : stored.migrationId = identity.migrationId := (Table.find?_eq_some.mp hfind).2
  rw [Table.find?_update h fun r _ _ =>
      congrArg CatalogTopologyOperationIdentity.migrationId (hf r),
    hfind, Option.map_some, hmatch, hactive]
  simp

/-- The update of the active operation under one id, and what is stored there then. -/
theorem updateTopology_readExact {f : CatalogTopologyOperation → CatalogTopologyOperation}
    (hf : ∀ o, (f o).identity = o.identity) (hfind : t.find? identity.migrationId = some stored)
    (hsame : stored.identity = identity) (hactive : stored.status = .active)
    (hid : ValidIdentity identity) :
    (updateTopology identity.migrationId f >>= fun _ => readExact identity).Returns t o t' ↔
      o = f stored ∧ endActive t identity f = some t' := by
  have hread : ∀ {t₁ : TopologyTable}, endActive t identity f = some t₁ →
      t₁.find? identity.migrationId = some (f stored) := endActive_find? hf hfind hactive
  rw [Tx.bind_returns]
  simp only [updateTopology, Table.update_returns, readExact_iff]
  constructor
  · rintro ⟨_, _, ⟨hu, -⟩, -, ⟨ho, -⟩, rfl⟩
    rw [hread hu, Option.some.injEq] at ho
    exact ⟨ho.symm, hu⟩
  · rintro ⟨rfl, hu⟩
    exact ⟨_, t', ⟨hu, rfl⟩, hid, ⟨hread hu, (hf stored).trans hsame⟩, rfl⟩

theorem completeTopology_iff :
    (completeTopology identity completedEpoch nowMs).Returns t o t' ↔
      (IsSafeInteger completedEpoch ∧ identity.startEpoch < completedEpoch) ∧ ValidTime nowMs ∧
      ValidIdentity identity ∧ ∃ stored, t.find? identity.migrationId = some stored ∧
        stored.identity = identity ∧
        ((stored.status = .completed ∧ stored.completedEpoch = some completedEpoch ∧
            o = stored ∧ t = t') ∨
          (stored.status = .active ∧ o = stored.completed completedEpoch nowMs ∧
            endActive t identity (.completed completedEpoch nowMs) = some t')) := by
  simp only [completeTopology, Tx.bind_returns, Tx.require_returns, readExact_iff]
  constructor
  · rintro ⟨_, _, ⟨hepoch, rfl⟩, _, _, ⟨htime, rfl⟩, stored, _, ⟨hid, ⟨hfind, hsame⟩, rfl⟩, h⟩
    refine ⟨hepoch, htime, hid, stored, hfind, hsame, ?_⟩
    cases hstatus : stored.status with
    | completed =>
      rw [hstatus] at h
      obtain ⟨_, _, hcheck, h⟩ := Tx.bind_returns.mp h
      obtain ⟨hdone, rfl⟩ := Tx.require_returns.mp hcheck
      obtain ⟨rfl, rfl⟩ := Tx.pure_returns.mp h
      exact .inl ⟨rfl, hdone, rfl, rfl⟩
    | aborted => rw [hstatus] at h; exact (Tx.throw_returns.mp h).elim
    | active =>
      rw [hstatus] at h
      exact .inr ⟨rfl, (updateTopology_readExact (f := .completed completedEpoch nowMs)
        (fun _ => rfl) hfind hsame hstatus hid).mp h⟩
  · rintro ⟨hepoch, htime, hid, stored, hfind, hsame, h⟩
    refine ⟨(), t, ⟨hepoch, rfl⟩, (), t, ⟨htime, rfl⟩, stored, t, ⟨hid, ⟨hfind, hsame⟩, rfl⟩, ?_⟩
    rcases h with ⟨hstatus, hdone, rfl, rfl⟩ | ⟨hstatus, h⟩
    · rw [hstatus]
      exact Tx.bind_returns.mpr
        ⟨(), t, Tx.require_returns.mpr ⟨hdone, rfl⟩, Tx.pure_returns.mpr ⟨rfl, rfl⟩⟩
    · rw [hstatus]
      exact (updateTopology_readExact (f := .completed completedEpoch nowMs) (fun _ => rfl)
        hfind hsame hstatus hid).mpr h

theorem abortTopology_iff :
    (abortTopology identity nowMs).Returns t o t' ↔ ValidTime nowMs ∧ ValidIdentity identity ∧
      ∃ stored, t.find? identity.migrationId = some stored ∧ stored.identity = identity ∧
        ((stored.status = .aborted ∧ o = stored ∧ t = t') ∨
          (stored.status = .active ∧ o = stored.aborted nowMs ∧
            endActive t identity (.aborted nowMs) = some t')) := by
  simp only [abortTopology, Tx.bind_returns, Tx.require_returns, readExact_iff]
  constructor
  · rintro ⟨_, _, ⟨htime, rfl⟩, stored, _, ⟨hid, ⟨hfind, hsame⟩, rfl⟩, h⟩
    refine ⟨htime, hid, stored, hfind, hsame, ?_⟩
    cases hstatus : stored.status with
    | aborted =>
      rw [hstatus] at h
      obtain ⟨rfl, rfl⟩ := Tx.pure_returns.mp h
      exact .inl ⟨rfl, rfl, rfl⟩
    | completed => rw [hstatus] at h; exact (Tx.throw_returns.mp h).elim
    | active =>
      rw [hstatus] at h
      exact .inr ⟨rfl, (updateTopology_readExact (f := .aborted nowMs) (fun _ => rfl)
        hfind hsame hstatus hid).mp h⟩
  · rintro ⟨htime, hid, stored, hfind, hsame, h⟩
    refine ⟨(), t, ⟨htime, rfl⟩, stored, t, ⟨hid, ⟨hfind, hsame⟩, rfl⟩, ?_⟩
    rcases h with ⟨hstatus, rfl, rfl⟩ | ⟨hstatus, h⟩
    · rw [hstatus]
      exact Tx.pure_returns.mpr ⟨rfl, rfl⟩
    · rw [hstatus]
      exact (updateTopology_readExact (f := .aborted nowMs) (fun _ => rfl)
        hfind hsame hstatus hid).mpr h

end Chardb.Catalog
