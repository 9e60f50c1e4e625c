import Chardb.Lib.Table
import Chardb.Lib.Tx
import Chardb.Schema.Journal

/-!
# Schema migrations of a Cdb

`CdbSchemaMigrationStore`: one row of schema state and a table of the steps that ran. A shard takes
the packaged schema as a baseline, replays it fresh, or migrates to it step by step.
-/

namespace Chardb.Schema

open Chardb.Lib

/-! ## The store -/

/-- The columns of a migration in flight; the row's status is `migrating` when they are set. -/
structure CdbSchemaPending where
  migrationId : String
  targetVersion : Int
  targetEpoch : Int
  targetDigest : String
  deriving DecidableEq

structure CdbSchemaState where
  activeVersion : Int
  activeEpoch : Int
  activeDigest : String
  lastMigrationId : Option String
  pending : Option CdbSchemaPending
  deriving DecidableEq

structure SchemaStep where
  migrationId : String
  version : Int
  digest : String
  appliedAt : Int
  deriving DecidableEq

def SchemaStep.key (s : SchemaStep) : String × Int := (s.migrationId, s.version)

def SchemaStep.check (s : SchemaStep) : Prop := 0 < s.version ∧ 0 ≤ s.appliedAt

instance : DecidablePred SchemaStep.check := fun _ => inferInstanceAs (Decidable (_ ∧ _))

abbrev StepTable := Table SchemaStep.key SchemaStep.check

/-- The schema tables, over the tables that the packaged SQL is about. `executed` is the history of
its statements, which nothing reads. -/
structure CdbDb (δ : Type) where
  schema : Option CdbSchemaState
  steps : StepTable
  domain : δ
  executed : List String

/-- A shard that has run nothing. -/
def CdbDb.initial {δ : Type} (domain : δ) : CdbDb δ := ⟨none, .empty, domain, []⟩

abbrev SchemaTx (δ : Type) := Tx Thrown (CdbDb δ)

/-- SQLite and the hooks that the Cdb hands to the store. -/
structure SchemaHooks (δ : Type) where
  exec : String → Tx Thrown δ Unit
  recordDomainSchema : Tx Thrown δ Unit
  afterBaseline : Int → Tx Thrown δ Unit
  assertFreshShard : Int → Tx Thrown δ Unit
  afterReplay : Int → Tx Thrown δ Unit
  beforeStatements : Int → Tx Thrown δ Unit
  afterStatements : Int → Tx Thrown δ Unit

section
variable {δ ν : Type} [JsNumber ν] {sha256Hex : String → String}

def onDomain (x : Tx Thrown δ Unit) : SchemaTx δ Unit :=
  .zoom CdbDb.domain (fun db domain => { db with domain }) x

def onSteps {α : Type} (x : Tx Thrown StepTable α) : SchemaTx δ α :=
  .zoom CdbDb.steps (fun db steps => { db with steps }) x

def contractChanged (message : String) : Thrown := .cdb { code := .partitionContractChanged, message }

/-- `CdbSchemaMigrationStore.state`. -/
def state : SchemaTx δ CdbSchemaState := do
  let row ← .gets CdbDb.schema
  .ofOption row (invariantError "Cdb schema state is missing")

def writeState (row : CdbSchemaState) : SchemaTx δ Unit := .modify fun db => { db with schema := some row }

/-- Run one packaged statement. -/
def execStatement (hooks : SchemaHooks δ) (statement : String) : SchemaTx δ Unit := do
  onDomain (hooks.exec statement)
  .modify fun db => { db with executed := db.executed ++ [statement] }

def execStatements (hooks : SchemaHooks δ) : List String → SchemaTx δ Unit
  | [] => pure ()
  | statement :: rest => do
    execStatement hooks statement
    execStatements hooks rest

def insertStep (migrationId : String) (migration : ChardbMigration ν) (nowMs : Int) : SchemaTx δ Unit :=
  onSteps (Table.insert ⟨migrationId, migration.version, migration.digest, nowMs⟩
    (.constraint "_chardb_schema_steps"))

/-! ## Initialisation -/

/-- `assertPackagedSchemaState`. -/
def assertPackagedSchemaState (journal : ChardbMigrationJournal sha256Hex ν) (row : CdbSchemaState) :
    Except Thrown Unit := do
  let mismatch := contractChanged
    s!"Cdb schema version {decimal row.activeVersion} does not match the packaged migration journal"
  ensure (row.activeVersion ≤ journal.version) mismatch
  let activeDigest ← migrationDigestAt journal row.activeVersion
  ensure (row.activeDigest = activeDigest) mismatch
  match row.pending with
  | none => pure ()
  | some p => do
    let mismatch := contractChanged
      "Cdb pending schema migration does not match the packaged journal"
    ensure (row.activeVersion < p.targetVersion ∧ p.targetVersion ≤ journal.version ∧
      p.targetEpoch = row.activeEpoch + 1) mismatch
    let targetDigest ← migrationDigestAt journal p.targetVersion
    ensure (p.targetDigest = targetDigest) mismatch

/-- `initialize`; answers `ensureDomainTables`. -/
def initializeSchema (journal : ChardbMigrationJournal sha256Hex ν) : SchemaTx δ Bool := do
  let stored ← .gets CdbDb.schema
  match stored with
  | none => do
    let digest ← .ofExcept (migrationDigestAt journal 0)
    writeState ⟨0, 1, digest, none, none⟩
    pure (decide (journal.version = 0))
  | some row => do
    .ofExcept (assertPackagedSchemaState journal row)
    pure (row.pending.isNone && decide (row.activeVersion = journal.version))

/-! ## Baseline -/

structure CdbSchemaTarget where
  migrationId : String
  targetVersion : Int
  targetEpoch : Int
  targetDigest : String
  deriving DecidableEq

/-- The row that a call with this target leaves, and finds when it is made again. -/
def CdbSchemaTarget.settled (args : CdbSchemaTarget) : CdbSchemaState :=
  ⟨args.targetVersion, args.targetEpoch, args.targetDigest, some args.migrationId, none⟩

def baseline (hooks : SchemaHooks δ) (journal : ChardbMigrationJournal sha256Hex ν)
    (args : CdbSchemaTarget) : SchemaTx δ Unit := do
  .require (isMigrationId args.migrationId = true) (invalidArgs "schema baseline id is invalid")
  .require (args.targetVersion = journal.version ∧ 1 ≤ args.targetVersion ∧
      IsSafeInteger args.targetEpoch ∧ 2 ≤ args.targetEpoch ∧ args.targetDigest = journal.digest)
    (invalidArgs "schema baseline target is invalid")
  .transactionSync do
    let current ← state
    if current = args.settled then pure ()
    else do
      let refused := staleEpoch "Cdb is not eligible for schema baseline"
      .require (current.pending = none ∧ current.activeVersion = 0) refused
      let digest ← .ofExcept (migrationDigestAt journal 0)
      .require (current.activeDigest = digest ∧ args.targetEpoch = current.activeEpoch + 1) refused
      onDomain hooks.recordDomainSchema
      onDomain (hooks.afterBaseline args.targetVersion)
      writeState args.settled

/-! ## Fresh provisioning -/

/-- Replay of the packaged migrations, each with its step. -/
def replayMigrations (hooks : SchemaHooks δ) (migrationId : String) (nowMs : Int) :
    List (ChardbMigration ν) → SchemaTx δ Unit
  | [] => pure ()
  | migration :: rest => do
    execStatements hooks migration.statements
    insertStep migrationId migration nowMs
    replayMigrations hooks migrationId nowMs rest

def provisionFresh (hooks : SchemaHooks δ) (journal : ChardbMigrationJournal sha256Hex ν)
    (args : CdbSchemaTarget) (nowMs : Int) : SchemaTx δ Unit := do
  .require (isMigrationId args.migrationId = true) (invalidArgs "fresh shard provision id is invalid")
  let refused := invalidArgs "fresh shard provision target is invalid"
  .require (IsSafeInteger args.targetVersion ∧ 0 ≤ args.targetVersion ∧
      args.targetVersion ≤ journal.version ∧ IsSafeInteger args.targetEpoch ∧ 1 ≤ args.targetEpoch ∧
      (args.targetVersion = 0 → args.targetEpoch = 1) ∧
      (0 < args.targetVersion → 2 ≤ args.targetEpoch)) refused
  let digest ← .ofExcept (migrationDigestAt journal args.targetVersion)
  .require (args.targetDigest = digest) refused
  .transactionSync do
    let current ← state
    if current = args.settled then pure ()
    else do
      let refused := staleEpoch "Cdb is not an unprovisioned fresh shard"
      .require (current.pending = none ∧ current.activeVersion = 0 ∧ current.activeEpoch = 1) refused
      let digest ← .ofExcept (migrationDigestAt journal 0)
      .require (current.activeDigest = digest ∧ current.lastMigrationId = none) refused
      let steps ← .gets CdbDb.steps
      .require (steps.rows = []) (contractChanged "fresh shard has recorded schema migration steps")
      onDomain (hooks.assertFreshShard args.targetVersion)
      replayMigrations hooks args.migrationId nowMs
        (journal.migrations.take args.targetVersion.toNat)
      onDomain (hooks.afterReplay args.targetVersion)
      onDomain hooks.recordDomainSchema
      writeState args.settled

/-! ## Migration -/

structure CdbSchemaMigrationPrepareRequest where
  migrationId : String
  activeVersion : Int
  activeDigest : String
  targetVersion : Int
  targetEpoch : Int
  targetDigest : String
  deriving DecidableEq

def CdbSchemaMigrationPrepareRequest.pending (args : CdbSchemaMigrationPrepareRequest) :
    CdbSchemaPending := ⟨args.migrationId, args.targetVersion, args.targetEpoch, args.targetDigest⟩

/-- `prepare` of a row with no migration in flight. -/
def prepareIdle (args : CdbSchemaMigrationPrepareRequest) (current : CdbSchemaState) :
    SchemaTx δ Unit := do
  if current.lastMigrationId = some args.migrationId ∧ current.activeVersion = args.targetVersion ∧
      current.activeEpoch = args.targetEpoch ∧ current.activeDigest = args.targetDigest then pure ()
  else do
    .require (current.activeVersion = args.activeVersion ∧ current.activeDigest = args.activeDigest ∧
        args.targetEpoch = current.activeEpoch + 1)
      (staleEpoch "Cdb schema state changed before prepare")
    writeState { current with pending := some args.pending }

def prepare (journal : ChardbMigrationJournal sha256Hex ν) (args : CdbSchemaMigrationPrepareRequest) :
    SchemaTx δ Unit := do
  .require (isMigrationId args.migrationId = true) (invalidArgs "schema migration id is invalid")
  let refused := invalidArgs "schema migration target is invalid"
  .require (IsSafeInteger args.activeVersion ∧ 0 ≤ args.activeVersion ∧
      IsSafeInteger args.targetVersion ∧ args.activeVersion < args.targetVersion ∧
      args.targetVersion = journal.version ∧ IsSafeInteger args.targetEpoch ∧ 1 ≤ args.targetEpoch)
    refused
  let activeDigest ← .ofExcept (migrationDigestAt journal args.activeVersion)
  .require (args.activeDigest = activeDigest) refused
  let targetDigest ← .ofExcept (migrationDigestAt journal args.targetVersion)
  .require (args.targetDigest = targetDigest) refused
  .transactionSync do
    let current ← state
    match current.pending with
    | some p =>
      .require (p = args.pending ∧ current.activeVersion = args.activeVersion ∧
          current.activeDigest = args.activeDigest)
        (staleEpoch "another schema migration owns this Cdb")
    | none => prepareIdle args current

/-- The steps of a migration, by version. -/
def CdbDb.applied (db : CdbDb δ) (migrationId : String) : List SchemaStep :=
  db.steps.orderBy (fun s => s.migrationId = migrationId) SchemaStep.version

/-- The packaged migrations from the active version up to the target. -/
def expectedSteps (journal : ChardbMigrationJournal sha256Hex ν) (activeVersion targetVersion : Int) :
    Except Thrown (List (ChardbMigration ν)) := do
  let pending ← pendingMigrations journal activeVersion
  pure (pending.filter fun m => m.version ≤ targetVersion)

/-- The steps that ran are the first of the expected ones. -/
def beginsWith : List SchemaStep → List (ChardbMigration ν) → Bool
  | [], _ => true
  | _ :: _, [] => false
  | s :: steps, m :: expected =>
    decide (s.version = m.version) && decide (s.digest = m.digest) && beginsWith steps expected

/-- `apply` of the next step of the migration in flight. -/
def applyNext (hooks : SchemaHooks δ) (journal : ChardbMigrationJournal sha256Hex ν)
    (migrationId : String) (migration : ChardbMigration ν) (activeVersion targetVersion nowMs : Int) :
    SchemaTx δ Unit := do
  let applied ← .gets fun db => db.applied migrationId
  let expected ← .ofExcept (expectedSteps journal activeVersion targetVersion)
  .require (beginsWith applied expected = true)
    (contractChanged "applied schema migration sequence is corrupt")
  .require ((expected[applied.length]?.map ChardbMigration.version) = some migration.version)
    (invalidArgs "schema migration steps must apply in order")
  onDomain (hooks.beforeStatements migration.version)
  execStatements hooks migration.statements
  onDomain (hooks.afterStatements migration.version)
  insertStep migrationId migration nowMs

/-- `apply` under the migration in flight. -/
def applyPending (hooks : SchemaHooks δ) (journal : ChardbMigrationJournal sha256Hex ν)
    (migrationId : String) (version : Int) (activeVersion targetVersion nowMs : Int) :
    SchemaTx δ Unit := do
  .require (version ≤ targetVersion) (invalidArgs "schema migration step exceeds its target")
  let migration ← .ofOption
    (journal.migrations[(version - 1).toNat]?.filter fun m => m.version = version)
    (contractChanged "schema migration step is missing")
  let existing ← .gets fun db => db.steps.find? (migrationId, version)
  match existing with
  | some step =>
    .require (step.digest = migration.digest)
      (contractChanged "applied schema migration digest changed")
  | none => applyNext hooks journal migrationId migration activeVersion targetVersion nowMs

def apply (hooks : SchemaHooks δ) (journal : ChardbMigrationJournal sha256Hex ν)
    (migrationId : String) (version nowMs : Int) : SchemaTx δ Unit := do
  .require (IsSafeInteger version ∧ 1 ≤ version ∧ version ≤ journal.version)
    (invalidArgs "schema migration version is invalid")
  .transactionSync do
    let current ← state
    let refused := staleEpoch "schema migration does not own this Cdb"
    match current.pending with
    | none => .require (current.lastMigrationId = some migrationId) refused
    | some p => do
      .require (p.migrationId = migrationId) refused
      applyPending hooks journal migrationId version current.activeVersion p.targetVersion nowMs

/-- `activate` of the migration in flight. -/
def activatePending (hooks : SchemaHooks δ) (journal : ChardbMigrationJournal sha256Hex ν)
    (current : CdbSchemaState) (p : CdbSchemaPending) : SchemaTx δ Unit := do
  let expected ← .ofExcept (expectedSteps journal current.activeVersion p.targetVersion)
  let applied ← .gets fun db => db.applied p.migrationId
  .require (applied.length = expected.length ∧ beginsWith applied expected = true)
    (staleEpoch "schema migration steps are incomplete")
  onDomain hooks.recordDomainSchema
  writeState ⟨p.targetVersion, p.targetEpoch, p.targetDigest, some p.migrationId, none⟩

def activate (hooks : SchemaHooks δ) (journal : ChardbMigrationJournal sha256Hex ν)
    (migrationId : String) : SchemaTx δ Unit :=
  .transactionSync do
    let current ← state
    match current.pending with
    | none =>
      .require (current.lastMigrationId = some migrationId)
        (staleEpoch "schema migration is not active")
    | some p => do
      .require (p.migrationId = migrationId) (staleEpoch "schema migration does not own this Cdb")
      activatePending hooks journal current p

/-! ## Calls -/

inductive SchemaCall
  | initializeSchema
  | baseline (args : CdbSchemaTarget)
  | provisionFresh (args : CdbSchemaTarget)
  | prepare (args : CdbSchemaMigrationPrepareRequest)
  | apply (migrationId : String) (version : Int)
  | activate (migrationId : String)
  deriving DecidableEq

/-- One call, at one time; a throw leaves the store as it was. -/
def SchemaCall.execute (hooks : SchemaHooks δ) (journal : ChardbMigrationJournal sha256Hex ν)
    (nowMs : Int) : SchemaCall → SchemaTx δ Unit
  | .initializeSchema => .transactionSync do
    let _ ← Schema.initializeSchema journal
    pure ()
  | .baseline args => Schema.baseline hooks journal args
  | .provisionFresh args => Schema.provisionFresh hooks journal args nowMs
  | .prepare args => Schema.prepare journal args
  | .apply migrationId version => Schema.apply hooks journal migrationId version nowMs
  | .activate migrationId => Schema.activate hooks journal migrationId

def CdbDb.step (hooks : SchemaHooks δ) (journal : ChardbMigrationJournal sha256Hex ν) (db : CdbDb δ)
    (call : SchemaCall × Int) : CdbDb δ := (call.1.execute hooks journal call.2).after db

def CdbDb.run (hooks : SchemaHooks δ) (journal : ChardbMigrationJournal sha256Hex ν) (db : CdbDb δ)
    (calls : List (SchemaCall × Int)) : CdbDb δ := calls.foldl (CdbDb.step hooks journal) db

end

end Chardb.Schema
