import Chardb.Core.Canonical
import Chardb.Lib.JsonParse
import Chardb.Vectors.VectorStore

/-!
# Staging a vector

`CdbVectorOutboxStore.stageUpsert`: the checks of its input, the capacity check, the head it writes
and the outbox row it coalesces. A component of the embedding is given by the bits that
`setFloat32` stores for it, the metadata is a JSON value, and the virtual shard of an organization
is a parameter.
-/

namespace Chardb.Vectors

open Chardb.Lib

def invalid (message : String) : Thrown := invalidArgs s!"vector outbox: {message}"

def invariant (message : String) : Thrown := invariantError s!"vector outbox: {message}"

def stale (message : String) : Thrown := staleEpoch s!"vector outbox: {message}"

def limited (message : String) : Thrown :=
  .cdb { code := .rateLimited, message := s!"vector outbox: {message}" }

/-- Go on if `p` holds. -/
def check (p : Prop) [Decidable p] (e : Thrown) : Except Thrown Unit :=
  if p then .ok () else .error e

/-! ## Checks of the inputs -/

def safeInteger (value : Int) (subject : String) (minimum : Int) : Except Thrown Unit :=
  check (IsSafeInteger value ∧ minimum ≤ value) (invariant s!"{subject} is invalid")

def inputInteger (value : Int) (subject : String) (minimum : Int) : Except Thrown Unit :=
  check (IsSafeInteger value ∧ minimum ≤ value) (invalid s!"{subject} is invalid")

def isIdChar (c : Char) : Bool := c.isAlphanum || c == '.' || c == '_' || c == ':' || c == '-'

/-- `/^[A-Za-z0-9][A-Za-z0-9._:-]\x7b0,127\x7d$/`. -/
def IsIdentity (value : String) : Prop :=
  value.toList.head?.any Char.isAlphanum = true ∧ value.toList.length ≤ 128 ∧
    value.toList.all isIdChar = true

instance : DecidablePred IsIdentity := fun _ => inferInstanceAs (Decidable (_ ∧ _ ∧ _))

def identity (value subject : String) : Except Thrown Unit :=
  check (IsIdentity value) (invalid s!"{subject} is invalid")

def rowPk (value : String) : Except Thrown Unit :=
  check (value ≠ "" ∧ textBytes value ≤ 256) (invalid "row primary key is invalid")

def organization (value : String) : Except Thrown Unit :=
  check (value ≠ "" ∧ textBytes value ≤ 256) (invalid "organization id is invalid")

/-- A physical id fits its bound; the id itself is not stored. -/
def physicalId (resourceId vectorId : String) (version : Int) : Except Thrown Unit :=
  check (textBytes s!"v1/{resourceId}/{vectorId}/{version}" ≤ 256)
    (invariant "physical vector id exceeds 256 UTF-8 bytes")

/-! ## Embeddings -/

/-- A component of an embedding. -/
inductive Component
  /-- `NaN` or an infinity. -/
  | nonFinite
  /-- A finite number, as `setFloat32` rounds it. -/
  | float32 (bits : UInt32)

/-- `Number.isFinite` of the number that `getFloat32` reads. -/
def isFinite32 (bits : UInt32) : Bool := (bits >>> 23) &&& 0xFF != 0xFF

/-- The bytes of `setFloat32(offset, value, true)`. -/
def float32Bytes (bits : UInt32) : List UInt8 :=
  [bits.toUInt8, (bits >>> 8).toUInt8, (bits >>> 16).toUInt8, (bits >>> 24).toUInt8]

/-- The loop of `encodeValues`. -/
def encodeComponents : List Component → Except Thrown (List UInt8)
  | [] => .ok []
  | .nonFinite :: _ => .error (invalid "embedding values must be finite numbers")
  | .float32 bits :: rest => do
    check (isFinite32 bits = true) (invalid "embedding value exceeds float32 range")
    let encoded ← encodeComponents rest
    .ok (float32Bytes bits ++ encoded)

def encodeValues (values : List Component) (dimensions : Int) : Except Thrown (List UInt8) := do
  inputInteger dimensions "dimensions" 1
  check (dimensions ≤ CDB_VECTOR_MAX_DIMENSIONS)
    (invalid s!"dimensions exceed {CDB_VECTOR_MAX_DIMENSIONS}")
  check ((values.length : Int) = dimensions) (invalid "embedding length does not match dimensions")
  let encoded ← encodeComponents values
  check (encoded.length ≤ CDB_VECTOR_MAX_VALUES_BYTES)
    (invalid "encoded embedding exceeds its byte bound")
  .ok encoded

/-- The little-endian numbers of a byte string. -/
def float32s : List UInt8 → List UInt32
  | a :: b :: c :: d :: rest =>
    (a.toUInt32 ||| b.toUInt32 <<< 8 ||| c.toUInt32 <<< 16 ||| d.toUInt32 <<< 24) :: float32s rest
  | _ => []

def decodeValues (encoded : List UInt8) : Except Thrown (List UInt32) := do
  check (4 ≤ encoded.length ∧ encoded.length ≤ CDB_VECTOR_MAX_VALUES_BYTES ∧
      encoded.length % 4 = 0)
    (invariant "stored embedding byte length is invalid")
  check ((float32s encoded).all isFinite32 = true)
    (invariant "stored embedding contains a non-finite value")
  .ok (float32s encoded)

/-! ## Metadata -/

section
variable {ν : Type} [JsNumber ν]

mutual

/-- `validateJson`: the number of nodes counted so far, after this value. -/
def validateJson (value : Json ν) (depth nodes : Nat) : Except Thrown Nat := do
  check (nodes + 1 ≤ 2048 ∧ depth ≤ 16) (invalid "metadata structure exceeds its bound")
  match value with
  | .null | .bool _ | .str _ => .ok (nodes + 1)
  | .num n => do
    check (JsNumber.isFinite n = true) (invalid "metadata numbers must be finite")
    .ok (nodes + 1)
  | .arr elems => validateElems elems (depth + 1) (nodes + 1)
  | .obj members => validateMembers members (depth + 1) (nodes + 1)

def validateElems (elems : List (Json ν)) (depth nodes : Nat) : Except Thrown Nat :=
  match elems with
  | [] => .ok nodes
  | value :: rest => do
    let nodes ← validateJson value depth nodes
    validateElems rest depth nodes

def validateMembers (members : List (String × Json ν)) (depth nodes : Nat) : Except Thrown Nat :=
  match members with
  | [] => .ok nodes
  | (key, value) :: rest => do
    check (textBytes key ≤ 256) (invalid "metadata keys and fields are invalid")
    let nodes ← validateJson value depth nodes
    validateMembers rest depth nodes

end

def isObject : Json ν → Bool
  | .obj _ => true
  | _ => false

/-- The members are visited in the order of their keys, as the canonical value has them. -/
def encodeMetadata (metadata : Json ν) : Except Thrown String := do
  check (isObject metadata = true) (invalid "metadata must be an object")
  let _ ← validateJson (canonicalize metadata) 0 0
  check (textBytes (stableJson metadata) ≤ CDB_VECTOR_MAX_METADATA_BYTES)
    (invalid s!"metadata exceeds {CDB_VECTOR_MAX_METADATA_BYTES} UTF-8 bytes")
  .ok (stableJson metadata)

def decodeMetadata (encoded : String) : Except Thrown (Json ν) := do
  check (textBytes encoded ≤ CDB_VECTOR_MAX_METADATA_BYTES)
    (invariant "stored metadata exceeds its byte bound")
  match (Json.parse encoded : Option (Json ν)) with
  | none => .error (invariant "stored metadata is not JSON")
  | some value => do
    check (isObject value = true) (invariant "stored metadata is not an object")
    check ((validateJson (canonicalize value) 0 0).isOk = true)
      (invariant "stored metadata is invalid")
    .ok value

/-! ## Reading a head -/

/-- `CdbVectorHead`. -/
structure CdbVectorHead (ν : Type) where
  vectorId : String
  organizationId : String
  placementVshard : Int
  resourceId : String
  rowPk : String
  dimensions : Int
  version : Int
  deliveredVersion : Int
  values : Option (List UInt32)
  metadata : Json ν
  state : VectorState
  updatedAt : Int

variable (vshardOf : String → Int)

def exactPlacement (organizationId : String) (stored : Int) : Except Thrown Unit := do
  safeInteger stored "stored placement" 0
  check (stored < VSHARD_COUNT ∧ stored = vshardOf organizationId)
    (invariant "stored organization placement is invalid")

def storedValues (valuesEnc : Option (List UInt8)) : Except Thrown (Option (List UInt32)) :=
  match valuesEnc with
  | none => .ok none
  | some encoded => some <$> decodeValues encoded

def projectHead (row : VectorHead) : Except Thrown (CdbVectorHead ν) := do
  identity row.vectorId "stored vector id"
  organization row.organizationId
  identity row.resourceId "stored resource id"
  safeInteger row.version "stored version" 1
  safeInteger row.deliveredVersion "stored delivered version" 0
  safeInteger row.dimensions "stored dimensions" 1
  check (row.dimensions ≤ CDB_VECTOR_MAX_DIMENSIONS)
    (invariant "stored dimensions exceed their bound")
  check (row.deliveredVersion ≤ row.version)
    (invariant "delivered version exceeds the head version")
  check ((row.state = .ready → row.deliveredVersion = row.version) ∧
      (row.state ≠ .ready → row.deliveredVersion < row.version))
    (invariant "stored delivered version does not match the vector lifecycle state")
  let values ← storedValues row.valuesEnc
  check (∀ vs ∈ values, (vs.length : Int) = row.dimensions)
    (invariant "stored embedding length does not match dimensions")
  check (row.state = .deleting ↔ values = none)
    (invariant "stored vector lifecycle state is invalid")
  exactPlacement vshardOf row.organizationId row.placementVshard
  rowPk row.rowPk
  let metadata ← decodeMetadata row.metadataJson
  safeInteger row.updatedAt "stored update time" 0
  .ok
    { vectorId := row.vectorId
      organizationId := row.organizationId
      placementVshard := row.placementVshard
      resourceId := row.resourceId
      rowPk := row.rowPk
      dimensions := row.dimensions
      version := row.version
      deliveredVersion := row.deliveredVersion
      values, metadata
      state := row.state
      updatedAt := row.updatedAt }

def readStoredHead (vectorId : String) : VectorTx (Option VectorHead) :=
  .gets fun db => db.heads.find? vectorId

def read (vectorId : String) : VectorTx (Option (CdbVectorHead ν)) := do
  .ofExcept (identity vectorId "vector id")
  let row ← readStoredHead vectorId
  match row with
  | none => pure none
  | some row => some <$> .ofExcept (projectHead vshardOf row)

/-! ## Capacity -/

/-- The counters, with the checks of `readCapacity`. -/
def readCapacity : VectorTx VectorCapacity := do
  let row ← .gets VectorDb.capacity
  .ofExcept (safeInteger row.headCount "vector head count" 0)
  .ofExcept (safeInteger row.storedBytes "stored vector bytes" 0)
  .ofExcept (safeInteger row.outboxRows "outbox row count" 0)
  .ofExcept (safeInteger row.attemptRows "attempt ledger row count" 0)
  pure row

/-- What `assertStageCapacity` throws when a head is larger than all that is counted. -/
def inconsistentCapacity : Thrown := invariant "vector capacity accounting is inconsistent"

/-- The bytes of the head that is replaced. -/
def previousBytes (stored : Option VectorHead) : Int := (stored.map VectorHead.measuredBytes).getD 0

def assertStageCapacity (stored : Option VectorHead) (replacementBytes : Int) : VectorTx Unit := do
  let capacity ← readCapacity
  .require (stored = none → capacity.headCount < CDB_VECTOR_MAX_HEADS)
    (limited s!"head store reached {CDB_VECTOR_MAX_HEADS} rows")
  .require (previousBytes stored ≤ capacity.storedBytes) inconsistentCapacity
  .require (IsSafeInteger (capacity.storedBytes - previousBytes stored + replacementBytes) ∧
      capacity.storedBytes - previousBytes stored + replacementBytes ≤ CDB_VECTOR_MAX_STORED_BYTES)
    (limited s!"stored vector data exceeds {CDB_VECTOR_MAX_STORED_BYTES} bytes")

/-! ## The operation -/

def setLastSeq (n : Int) : VectorTx Unit := .modify fun db => { db with lastSeq := n }

def allocateHeadCreatedSeq : VectorTx Int := do
  let current ← .gets VectorDb.lastSeq
  .ofExcept (safeInteger current "vector head insertion sequence" 0)
  .require (current ≠ MAX_SAFE_INTEGER) (invariant "vector head insertion sequence overflowed")
  setLastSeq (current + 1)
  pure (current + 1)

/-- The outbox row that asks for a version to be delivered. -/
def coalescedRow (vectorId : String) (targetVersion : Int) (operation : OutboxOperation)
    (nowMs : Int) : VectorOutboxRow where
  vectorId := vectorId
  targetVersion := targetVersion
  operation := operation
  phase := .submit
  mutationId := none
  acceptedAt := none
  verifyIdsJson := none
  attempts := 0
  nextAttemptAt := nowMs
  leasedUntil := none
  leaseToken := none
  terminalFailure := false
  lastError := none

/-- The `DO UPDATE` sets every column but the key, to the columns of the new row. -/
def coalesce (vectorId : String) (targetVersion : Int) (operation : OutboxOperation)
    (nowMs : Int) : VectorTx Unit := do
  let row := coalescedRow vectorId targetVersion operation nowMs
  let _ ← exec (.upsertOutbox row fun o => { row with vectorId := o.vectorId })
  let _ ← exec (.updateAttempts (fun a => decide (a.vectorId = vectorId))
    fun a => { a with deleteClaimToken := none })
  let capacity ← readCapacity
  .require (capacity.outboxRows ≤ CDB_VECTOR_MAX_OUTBOX_ROWS)
    (limited s!"outbox exceeds {CDB_VECTOR_MAX_OUTBOX_ROWS} rows")

structure StageUpsert (ν : Type) where
  vectorId : String
  organizationId : String
  resourceId : String
  rowPk : String
  dimensions : Int
  values : List Component
  metadata : Json ν
  nowMs : Int

/-- The versions a staged head is read back with. -/
structure StagedVersions where
  version : Int
  deliveredVersion : Int
  deriving DecidableEq

/-- The branch of `stageUpsert` that replaces a stored head. -/
def stageReplacement (input : StageUpsert ν) (stored : VectorHead) (encodedValues : List UInt8)
    (metadataJson : String) : VectorTx StagedVersions := do
  let current : CdbVectorHead ν ← .ofExcept (projectHead vshardOf stored)
  .require (current.organizationId = input.organizationId ∧
      current.resourceId = input.resourceId ∧ current.rowPk = input.rowPk)
    (invalid "vector id already belongs to another owner or resource row")
  .require (current.dimensions = input.dimensions)
    (invalid "vector dimensions cannot change between versions")
  .require (IsSafeInteger (current.version + 1)) (invariant "vector version overflowed")
  .ofExcept (physicalId input.resourceId input.vectorId (current.version + 1))
  let changes ← exec (.updateHeads
    (fun h => decide (h.vectorId = input.vectorId ∧ h.version = current.version))
    fun h =>
      { h with
        version := current.version + 1
        valuesEnc := some encodedValues
        metadataJson := metadataJson
        state := .pending
        updatedAt := input.nowMs })
  .require (changes = 1) (stale "vector head changed before upsert staging")
  pure { version := current.version + 1, deliveredVersion := current.deliveredVersion }

/-- The row that a first upsert inserts. -/
def StageUpsert.row (input : StageUpsert ν) (createdSeq : Int) (encodedValues : List UInt8)
    (metadataJson : String) : VectorHead where
  vectorId := input.vectorId
  createdSeq := createdSeq
  organizationId := input.organizationId
  placementVshard := vshardOf input.organizationId
  resourceId := input.resourceId
  rowPk := input.rowPk
  dimensions := input.dimensions
  version := 1
  deliveredVersion := 0
  valuesEnc := some encodedValues
  metadataJson := metadataJson
  state := .pending
  updatedAt := input.nowMs

/-- The branch of `stageUpsert` for a vector without a head. -/
def stageInsertion (input : StageUpsert ν) (encodedValues : List UInt8) (metadataJson : String) :
    VectorTx StagedVersions := do
  let createdSeq ← allocateHeadCreatedSeq
  let _ ← exec (.insertHead (input.row vshardOf createdSeq encodedValues metadataJson))
  pure { version := 1, deliveredVersion := 0 }

/-- Write the head of a checked input. -/
def stageHead (input : StageUpsert ν) (encodedValues : List UInt8) (metadataJson : String) :
    VectorTx StagedVersions := do
  let stored ← readStoredHead input.vectorId
  assertStageCapacity stored (encodedValues.length + textBytes metadataJson)
  let byRow ← .gets fun db => db.heads.select fun h => decide (h.resourceId = input.resourceId ∧
    h.organizationId = input.organizationId ∧ h.rowPk = input.rowPk)
  .require (∀ h ∈ byRow, h.vectorId = input.vectorId)
    (invalid "resource row already belongs to another vector id")
  match stored with
  | some stored => stageReplacement vshardOf input stored encodedValues metadataJson
  | none => stageInsertion vshardOf input encodedValues metadataJson

def stageUpsert (input : StageUpsert ν) : VectorTx (CdbVectorHead ν) := do
  .ofExcept (identity input.vectorId "vector id")
  .ofExcept (organization input.organizationId)
  .ofExcept (identity input.resourceId "resource id")
  .ofExcept (rowPk input.rowPk)
  let encodedValues ← .ofExcept (encodeValues input.values input.dimensions)
  let metadataJson ← .ofExcept (encodeMetadata input.metadata)
  .ofExcept (inputInteger input.nowMs "timestamp" 0)
  .ofExcept (physicalId input.resourceId input.vectorId 1)
  let staged ← stageHead vshardOf input encodedValues metadataJson
  coalesce input.vectorId staged.version .upsert input.nowMs
  let result ← read vshardOf input.vectorId
  match result with
  | none => .throw (invariant "staged vector head is missing")
  | some result => do
    .require (result.version = staged.version ∧ result.deliveredVersion = staged.deliveredVersion)
      (invariant "staged vector head is missing")
    pure result

end

end Chardb.Vectors
