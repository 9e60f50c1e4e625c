import Chardb.Vectors.StageUpsert

/-!
# Heads at a reshard destination

The two ways a moving head reaches the destination: `CdbVectorReshardDestStore.applyHead` for the
head of a snapshot page, which checks the capacity, and `applyHead` of the captured tail, which
does not. A page head and a tail image are given decoded.
-/

namespace Chardb.Vectors

open Chardb.Lib

/-! ## Heads of a snapshot page -/

namespace Destination

def mismatch (message : String) : Thrown := phaseMismatch s!"vector reshard destination: {message}"

def limited (message : String) : Thrown :=
  .cdb { code := .rateLimited, message := s!"vector reshard destination: {message}" }

def safeInteger (value : Int) (subject : String) (minimum : Int) : Except Thrown Unit :=
  check (IsSafeInteger value ∧ minimum ≤ value) (mismatch s!"{subject} is invalid")

/-- `CdbVectorReshardHeadRecord`, with the embedding decoded. -/
structure HeadRecord where
  vectorId : String
  organizationId : String
  placementVshard : Int
  resourceId : String
  rowPk : String
  dimensions : Int
  headVersion : Int
  deliveredVersion : Int
  values : Option (List UInt8)
  metadataJson : String
  state : VectorState
  updatedAt : Int

/-- The row that the record inserts. -/
def HeadRecord.row (record : HeadRecord) (createdSeq : Int) : VectorHead where
  vectorId := record.vectorId
  createdSeq := createdSeq
  organizationId := record.organizationId
  placementVshard := record.placementVshard
  resourceId := record.resourceId
  rowPk := record.rowPk
  dimensions := record.dimensions
  version := record.headVersion
  deliveredVersion := record.deliveredVersion
  valuesEnc := record.values
  metadataJson := record.metadataJson
  state := record.state
  updatedAt := record.updatedAt

/-- The counters, with the checks of `capacity`. -/
def capacity : VectorTx VectorCapacity := do
  let row ← .gets VectorDb.capacity
  .ofExcept (safeInteger row.headCount "head count" 0)
  .ofExcept (safeInteger row.storedBytes "stored vector bytes" 0)
  .ofExcept (safeInteger row.outboxRows "outbox row count" 0)
  .ofExcept (safeInteger row.attemptRows "attempt row count" 0)
  pure row

/-- The bytes of the head under an id, as SQL counts them. -/
def oldHeadBytes (db : VectorDb) (vectorId : String) : Int :=
  ((db.heads.find? vectorId).map VectorHead.countedBytes).getD 0

def assertHeadCapacity (vectorId : String) (existing : Bool) (valuesBytes metadataBytes : Int) :
    VectorTx Unit := do
  let capacity ← capacity
  let prior ← .gets fun db => if existing then oldHeadBytes db vectorId else 0
  .require (existing = true ∨ capacity.headCount < CDB_VECTOR_MAX_HEADS)
    (limited "vector head capacity is exhausted")
  .ofExcept (safeInteger prior "old head bytes" 0)
  .require
    (capacity.storedBytes + valuesBytes + metadataBytes - prior ≤ CDB_VECTOR_MAX_STORED_BYTES)
    (limited "stored vector bytes exceed their limit")

def allocateHeadSequence : VectorTx Int := do
  let current ← .gets VectorDb.lastSeq
  .ofExcept (safeInteger current "vector head insertion sequence" 0)
  .require (current < MAX_SAFE_INTEGER) (limited "vector head insertion sequence is exhausted")
  setLastSeq (current + 1)
  pure (current + 1)

/-- The vector that a list of owners names. -/
def ownerOf (owners : List VectorHead) : String := (owners.map VectorHead.vectorId).head?.getD ""

/-- `applyHead` of a page; answers whether the head was inserted. -/
def applyHead (record : HeadRecord) (hasTailProvenance : Bool) : VectorTx Bool := do
  let existing ← .gets fun db => (db.heads.find? record.vectorId).isSome
  .require (existing = false ∨ hasTailProvenance = true)
    (mismatch s!"destination head {record.vectorId} predates this migration")
  let owners ← .gets fun db => db.heads.select fun h => decide (h.resourceId = record.resourceId ∧
    h.organizationId = record.organizationId ∧ h.rowPk = record.rowPk)
  .require (∀ h ∈ owners, h.vectorId = record.vectorId)
    (mismatch s!"destination resource row belongs to {ownerOf owners}")
  assertHeadCapacity record.vectorId existing (record.values.getD []).length
    (textBytes record.metadataJson)
  if existing = true then do
    let changes ← exec (.updateHeads (fun h => decide (h.vectorId = record.vectorId))
      fun h => record.row h.createdSeq)
    .require (changes = 1) (mismatch s!"destination head {record.vectorId} changed during apply")
    pure false
  else do
    let createdSeq ← allocateHeadSequence
    let changes ← exec (.insertHead (record.row createdSeq))
    .require (changes = 1) (mismatch s!"destination head {record.vectorId} was not inserted")
    pure true

end Destination

/-! ## Heads of the captured tail -/

namespace Tail

def mismatch (message : String) : Thrown := phaseMismatch s!"vector tail: {message}"

/-- A head entry of the tail: its operation with the images that the operation has. -/
inductive HeadEntry
  | ins (after : VectorHead)
  | del (before : VectorHead)
  | upd (before after : VectorHead)

/-- `exactHeadPhysical`: equal in every column but `created_seq`. -/
def exactHeadPhysical (left right : VectorHead) : Bool :=
  { left with createdSeq := right.createdSeq } == right

def assertHeadTransition (before after : VectorHead) : Except Thrown Unit := do
  check (before.vectorId = after.vectorId) (mismatch "head changed immutable vector_id")
  check (before.createdSeq = after.createdSeq) (mismatch "head changed immutable created_seq")
  check (before.organizationId = after.organizationId)
    (mismatch "head changed immutable organization_id")
  check (before.placementVshard = after.placementVshard)
    (mismatch "head changed immutable placement_vshard")
  check (before.resourceId = after.resourceId) (mismatch "head changed immutable resource_id")
  check (before.rowPk = after.rowPk) (mismatch "head changed immutable row_pk")
  check (before.dimensions = after.dimensions) (mismatch "head changed immutable dimensions")
  if after.version = before.version then
    check (before.state = .pending ∧ after.state = .ready ∧ after.deliveredVersion = after.version ∧
        before.valuesEnc = after.valuesEnc ∧ before.metadataJson = after.metadataJson)
      (mismatch "head same-version transition is not a delivery acknowledgement")
  else do
    check (after.version = before.version + 1 ∧
        after.deliveredVersion = before.deliveredVersion ∧
        (after.state = .pending ∨ after.state = .deleting))
      (mismatch "head version transition is not a single staged mutation")
    check (after.state = .deleting → before.metadataJson = after.metadataJson)
      (mismatch "head delete staging changed metadata")

def allocateHeadSequence : VectorTx Int := do
  let current ← .gets VectorDb.lastSeq
  .require (IsSafeInteger current ∧ 0 ≤ current ∧ current < MAX_SAFE_INTEGER)
    (mismatch "destination head insertion sequence is exhausted")
  setLastSeq (current + 1)
  pure (current + 1)

/-- The update of a tail entry sets six columns. -/
def setPhysical (after h : VectorHead) : VectorHead :=
  { h with
    deliveredVersion := after.deliveredVersion
    valuesEnc := after.valuesEnc
    metadataJson := after.metadataJson
    state := after.state
    version := after.version
    updatedAt := after.updatedAt }

variable (lo hi : Int)

def assertRange (placement : Int) : VectorTx Unit :=
  .require (lo ≤ placement ∧ placement ≤ hi) (mismatch "placement is outside the moving range")

def applyInsert (after : VectorHead) (pk : String) (hasProvenance : Bool) : VectorTx Bool := do
  .require (after.version = 1 ∧ after.deliveredVersion = 0 ∧ after.state = .pending)
    (mismatch "head insert does not begin in pending version one")
  .require (pk = after.vectorId) (mismatch "head primary key changed")
  assertRange lo hi after.placementVshard
  let existing ← readStoredHead after.vectorId
  match existing with
  | some existing => do
    .require (exactHeadPhysical existing after = true)
      (mismatch s!"head {after.vectorId} collides during insert")
    .require (hasProvenance = true) (mismatch s!"head {after.vectorId} predates this migration")
    pure false
  | none => do
    let createdSeq ← allocateHeadSequence
    let _ ← exec (.insertHead { after with createdSeq })
    pure true

def applyDelete (before : VectorHead) (pk : String) : VectorTx Bool := do
  .require (pk = before.vectorId) (mismatch "head primary key changed")
  assertRange lo hi before.placementVshard
  let existing ← readStoredHead before.vectorId
  .require (before.state = .deleting) (mismatch "head delete does not own deleting state")
  match existing with
  | none => pure false
  | some existing => do
    .require (exactHeadPhysical existing before = true)
      (mismatch s!"head {before.vectorId} pre-image changed during delete")
    let changes ← exec (.deleteHeads fun h => decide (h.vectorId = before.vectorId))
    .require (changes = 1) (mismatch s!"head {before.vectorId} changed during delete")
    pure false

def applyUpdate (before after : VectorHead) (pk : String) : VectorTx Bool := do
  .require (pk = before.vectorId) (mismatch "head primary key changed")
  assertRange lo hi before.placementVshard
  let existing ← readStoredHead before.vectorId
  .require (pk = after.vectorId) (mismatch "head primary key changed")
  .ofExcept (assertHeadTransition before after)
  if existing.any (fun h => exactHeadPhysical h after) = true then pure false
  else do
    .require (existing.any (fun h => exactHeadPhysical h before) = true)
      (mismatch s!"head {before.vectorId} pre-image changed during update")
    let changes ← exec (.updateHeads (fun h => decide (h.vectorId = after.vectorId))
      (setPhysical after))
    .require (changes = 1) (mismatch s!"head {after.vectorId} changed during update")
    pure false

/-- `applyHead` of the tail; answers whether the head was inserted. -/
def applyHead (entry : HeadEntry) (pk : String) (hasProvenance : Bool) : VectorTx Bool :=
  match entry with
  | .ins after => applyInsert lo hi after pk hasProvenance
  | .del before => applyDelete lo hi before pk
  | .upd before after => applyUpdate lo hi before after pk

end Tail

end Chardb.Vectors
