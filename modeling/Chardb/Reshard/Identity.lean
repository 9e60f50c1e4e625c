import Chardb.Core.Errors
import Chardb.Core.Vshard
import Chardb.Lib.Table
import Chardb.Reshard.SplitState

/-!
# Split identities

`_chardb_split_identity` binds a migration id for good: to its range, its role, the schema it moves
and the tables of that schema. Every movement call is checked against the identity, against the
schema that is active and against the tables that the isolate packages.
-/

namespace Chardb.Reshard

open Chardb.Lib

structure TableSpec where
  name : String
  partitionColumn : String
  columns : List String
  deriving DecidableEq

structure CdbReshardSchemaIdentity where
  schemaVersion : Int
  schemaEpoch : Int
  schemaDigest : String
  recoveryGeneration : Int
  deriving DecidableEq

structure CdbReshardSplitIdentity extends CdbReshardSchemaIdentity where
  migId : String
  rangeLo : Int
  rangeHi : Int
  role : SplitRole
  tables : List TableSpec
  deriving DecidableEq

/-- A row of `_chardb_split_identity`. -/
structure StoredSplitIdentity extends CdbReshardSplitIdentity where
  createdAt : Int
  deriving DecidableEq

def StoredSplitIdentity.check (r : StoredSplitIdentity) : Prop :=
  (0 ≤ r.rangeLo ∧ r.rangeLo < VSHARD_COUNT) ∧ (r.rangeLo ≤ r.rangeHi ∧ r.rangeHi < VSHARD_COUNT) ∧
    0 ≤ r.schemaVersion ∧ 0 < r.schemaEpoch ∧ 0 ≤ r.recoveryGeneration ∧ 0 ≤ r.createdAt

instance : DecidablePred StoredSplitIdentity.check := fun _ => inferInstanceAs (Decidable (_ ∧ _))

abbrev IdentityTable := Table (fun r : StoredSplitIdentity => r.migId) StoredSplitIdentity.check

def CDB_SPLIT_IDENTITY_LIMIT : Nat := VSHARD_COUNT.toNat

/-- What a Cdb isolate runs with: the movable tables it packages, in the order of their names, its
migration journal, and the schema state that is stored. -/
structure CdbSchema where
  packaged : List TableSpec
  journalVersion : Int
  digestAt : Int → String
  active : Bool
  activeVersion : Int
  activeEpoch : Int
  activeDigest : String

def invalidIdentity (message : String) : Thrown := invalidArgs ("reshard split identity: " ++ message)

/-- `/^[a-f0-9]{64}$/`. -/
def isSchemaDigest (s : String) : Bool :=
  s.toList.length = 64 && s.toList.all fun c => c.isDigit || ('a' ≤ c && c ≤ 'f')

/-- `/^(?:_|sqlite)/`. -/
def isSystemTable (name : String) : Bool :=
  "_".toList.isPrefixOf name.toList || "sqlite".toList.isPrefixOf name.toList

section
variable {σ : Type}

def assertCdbReshardRangeIdentity (migId : String) (rangeLo rangeHi : Int) : Tx Thrown σ Unit := do
  .require (isResharderMigId migId = true) (invalidIdentity "migration id is invalid")
  .require (IsSafeInteger rangeLo ∧ IsSafeInteger rangeHi ∧ 0 ≤ rangeLo ∧ rangeLo ≤ rangeHi ∧
      rangeHi < VSHARD_COUNT)
    (invalidIdentity "virtual-shard range is invalid")

/-- The packaged spec that a requested one names. -/
def expectedTableSpec (packaged : List TableSpec) (names : List String) (raw : TableSpec) :
    Except Thrown Unit :=
  if isSystemTable raw.name then
    .error (invalidIdentity ("table " ++ raw.name ++ " is reserved for system storage"))
  else if raw.name ∈ names then
    .error (invalidIdentity ("table " ++ raw.name ++ " is duplicated"))
  else
    match packaged.find? fun expected => expected.name = raw.name with
    | none =>
      .error (invalidIdentity ("table " ++ raw.name ++ " is not a movable registered cdbTable"))
    | some expected =>
      if raw = expected then .ok ()
      else .error (phaseMismatch ("table " ++ raw.name ++ " does not match the packaged Cdb schema"))

/-- The loop of `canonicalRegisteredTableSpecs` over the requested specs. -/
def expectedTableSpecs (packaged : List TableSpec) (names : List String) :
    List TableSpec → Except Thrown (List String)
  | [] => .ok names
  | raw :: rest =>
    match expectedTableSpec packaged names raw with
    | .ok () => expectedTableSpecs packaged (raw.name :: names) rest
    | .error e => .error e

/-- `canonicalRegisteredTableSpecs`: the request names every packaged table, so its specs in the
order of their names are the packaged ones. -/
def canonicalRegisteredTableSpecs (packaged requested : List TableSpec) :
    Except Thrown (List TableSpec) :=
  if requested.length < 1 ∨ 256 < requested.length then
    .error (invalidIdentity "tables must contain from 1 through 256 entries")
  else if packaged.length < 1 ∨ 256 < packaged.length then
    .error (invalidIdentity "tables must contain from 1 through 256 entries")
  else
    match expectedTableSpecs packaged [] requested with
    | .error e => .error e
    | .ok names =>
      if names.length ≠ packaged.length then
        .error (phaseMismatch "table list must include every movable table in the packaged Cdb schema")
      else .ok packaged

def assertActiveSchema (schema : CdbSchema) (requested : CdbReshardSchemaIdentity) :
    Tx Thrown σ Unit := do
  .require (IsCounter requested.schemaVersion) (invalidIdentity "schema version is invalid")
  .require (IsSafeInteger requested.schemaEpoch ∧ 1 ≤ requested.schemaEpoch)
    (invalidIdentity "schema epoch is invalid")
  .require (isSchemaDigest requested.schemaDigest = true) (invalidIdentity "schema digest is invalid")
  .require (schema.active = true ∧ schema.activeVersion = requested.schemaVersion ∧
      schema.activeEpoch = requested.schemaEpoch ∧ requested.schemaVersion ≤ schema.journalVersion ∧
      schema.digestAt requested.schemaVersion = requested.schemaDigest ∧
      schema.activeDigest = requested.schemaDigest)
    (.cdb
      { code := .staleEpoch
        message := "Cdb schema does not match the active Catalog topology schema"
        hint := some "finish the exact schema migration on both shards before moving data" })

end

/-! ## The store -/

abbrev IdentityTx := Tx Thrown IdentityTable

/-- `CdbReshardIdentityStore.assertExact`. -/
def assertExact (stored : StoredSplitIdentity) (requested : CdbReshardSplitIdentity)
    (tables : List TableSpec) : IdentityTx Unit :=
  .require (stored.toCdbReshardSplitIdentity = { requested with tables })
    (phaseMismatch ("migration " ++ requested.migId ++ " belongs to a different immutable Cdb split"))

/-- The insert of `CdbReshardIdentityStore.bind`. -/
def insertIdentity (requested : CdbReshardSplitIdentity) (nowMs : Int) : IdentityTx Unit := do
  let count ← .gets Table.count
  .require (count < CDB_SPLIT_IDENTITY_LIMIT)
    (phaseMismatch ("split identity history reached its " ++ toString CDB_SPLIT_IDENTITY_LIMIT ++
      "-record limit"))
  Table.insert { requested with createdAt := nowMs } (.constraint "_chardb_split_identity")

/-- `CdbReshardIdentityStore.bind`. -/
def bind (schema : CdbSchema) (requested : CdbReshardSplitIdentity) (nowMs : Int) :
    IdentityTx Unit := do
  assertCdbReshardRangeIdentity requested.migId requested.rangeLo requested.rangeHi
  .require (IsCounter nowMs) (invalidIdentity "timestamp is invalid")
  assertActiveSchema schema requested.toCdbReshardSchemaIdentity
  let tables ← .ofExcept (canonicalRegisteredTableSpecs schema.packaged requested.tables)
  let existing ← .gets (Table.find? · requested.migId)
  match existing with
  | some stored => assertExact stored requested tables
  | none => insertIdentity { requested with tables } nowMs

/-- `CdbReshardIdentityStore.assertBound`, without a single table to check. -/
def assertBound (schema : CdbSchema) (requested : CdbReshardSplitIdentity) : IdentityTx Unit := do
  assertActiveSchema schema requested.toCdbReshardSchemaIdentity
  let tables ← .ofExcept (canonicalRegisteredTableSpecs schema.packaged requested.tables)
  let found ← .gets (Table.find? · requested.migId)
  let stored ← .ofOption found
    (phaseMismatch ("migration " ++ requested.migId ++ " has no bound Cdb identity"))
  assertExact stored requested tables

/-- `CdbReshardIdentityStore.assertCleanupIfBound`: whether the migration is bound. -/
def assertCleanupIfBound (schema : CdbSchema) (requested : CdbReshardSplitIdentity) :
    IdentityTx Bool := do
  let found ← .gets (Table.find? · requested.migId)
  match found with
  | none => pure false
  | some _ => do
    assertBound schema requested
    pure true

/-- The table of a request is one of the migration. -/
def checkMovedTable (migId : String) (tables : List TableSpec) : Option TableSpec → Except Thrown Unit
  | none => .ok ()
  | some table =>
    if table ∈ tables then .ok ()
    else .error (phaseMismatch ("table " ++ table.name ++ " is not part of migration " ++ migId))

/-- The table list of a request is the one of the migration. -/
def checkMovedTables (migId : String) (packaged stored : List TableSpec) :
    Option (List TableSpec) → Except Thrown Unit
  | none => .ok ()
  | some tables =>
    match canonicalRegisteredTableSpecs packaged tables with
    | .error e => .error e
    | .ok requested =>
      if requested = stored then .ok ()
      else .error (phaseMismatch
        ("migration " ++ migId ++ " table list does not match its bound Cdb identity"))

/-- What a movement call says of its migration beside the id. -/
structure MovementArgs where
  migId : String
  role : SplitRole
  range : Option (Int × Int) := none
  table : Option TableSpec := none
  tables : Option (List TableSpec) := none

/-- `CdbReshardIdentityStore.assertMovement`. -/
def assertMovement (schema : CdbSchema) (args : MovementArgs) : IdentityTx StoredSplitIdentity := do
  let found ← .gets (Table.find? · args.migId)
  let stored ← .ofOption found
    (phaseMismatch ("migration " ++ args.migId ++ " has no bound Cdb identity"))
  assertActiveSchema schema stored.toCdbReshardSchemaIdentity
  let tables ← .ofExcept (canonicalRegisteredTableSpecs schema.packaged stored.tables)
  .require (stored.role = args.role)
    (phaseMismatch ("migration " ++ args.migId ++ " is bound to the " ++ stored.role.text ++ " role"))
  .require (tables = stored.tables)
    (phaseMismatch ("migration " ++ args.migId ++ " no longer matches its packaged Cdb table registry"))
  .require (args.range.all (· = (stored.rangeLo, stored.rangeHi)) = true)
    (phaseMismatch ("migration " ++ args.migId ++ " range does not match its bound Cdb identity"))
  .ofExcept (checkMovedTable args.migId tables args.table)
  .ofExcept (checkMovedTables args.migId schema.packaged stored.tables args.tables)
  pure stored

/-! ## What the checks leave alone -/

theorem readOnly_assertCdbReshardRangeIdentity {σ : Type} {migId : String} {lo hi : Int} :
    (assertCdbReshardRangeIdentity migId lo hi : Tx Thrown σ Unit).ReadOnly :=
  (Tx.readOnly_require _ _).bind fun _ => Tx.readOnly_require _ _

theorem readOnly_assertActiveSchema {σ : Type} {schema : CdbSchema} {r : CdbReshardSchemaIdentity} :
    (assertActiveSchema schema r : Tx Thrown σ Unit).ReadOnly :=
  (Tx.readOnly_require _ _).bind fun _ => (Tx.readOnly_require _ _).bind fun _ =>
    (Tx.readOnly_require _ _).bind fun _ => Tx.readOnly_require _ _

theorem readOnly_assertBound {schema : CdbSchema} {r : CdbReshardSplitIdentity} :
    (assertBound schema r).ReadOnly :=
  readOnly_assertActiveSchema.bind fun _ => (Tx.readOnly_ofExcept _).bind fun _ =>
    (Tx.readOnly_gets _).bind fun _ => (Tx.readOnly_ofOption _ _).bind fun _ =>
      Tx.readOnly_require _ _

theorem readOnly_assertCleanupIfBound {schema : CdbSchema} {r : CdbReshardSplitIdentity} :
    (assertCleanupIfBound schema r).ReadOnly := by
  refine (Tx.readOnly_gets _).bind fun found => ?_
  cases found with
  | none => exact Tx.readOnly_pure _
  | some stored => exact readOnly_assertBound.bind fun _ => Tx.readOnly_pure _

theorem readOnly_assertMovement {schema : CdbSchema} {args : MovementArgs} :
    (assertMovement schema args).ReadOnly :=
  (Tx.readOnly_gets _).bind fun _ => (Tx.readOnly_ofOption _ _).bind fun _ =>
    readOnly_assertActiveSchema.bind fun _ => (Tx.readOnly_ofExcept _).bind fun _ =>
      (Tx.readOnly_require _ _).bind fun _ => (Tx.readOnly_require _ _).bind fun _ =>
        (Tx.readOnly_require _ _).bind fun _ => (Tx.readOnly_ofExcept _).bind fun _ =>
          (Tx.readOnly_ofExcept _).bind fun _ => Tx.readOnly_pure _

end Chardb.Reshard
