import Chardb.Catalog.Routing
import Chardb.Schema.MigrationStore

/-!
# Schema migrations and topology operations of a Catalog

A Catalog migrates its own tables step by step, records which shards have migrated, and keeps a
lease for the one topology operation that moves a range. A Worker packages the first versions of one
journal, and a later one packages more of them. Recovery admission and the deletion barriers are
hooks on the other tables; what a shard does when it migrates is left out, and what comes of it is
recorded.
-/

namespace Chardb.Catalog

open Chardb.Lib Chardb.Schema

/-! ## Tables -/

/-- A row of `catalog_schema_shards`; its status is `active` or `pending`. -/
structure SchemaShardRow where
  migrationId : String
  shardId : String
  active : Bool
  lastError : Option String
  updatedAt : Int
  deriving DecidableEq

def SchemaShardRow.key (r : SchemaShardRow) : String × String := (r.migrationId, r.shardId)

def SchemaShardRow.Check (r : SchemaShardRow) : Prop := 0 ≤ r.updatedAt

instance : DecidablePred SchemaShardRow.Check := fun _ => inferInstanceAs (Decidable (_ ≤ _))

/-- A row of `catalog_schema_baselines`. -/
structure SchemaBaselineRow where
  migrationId : String
  targetVersion : Int
  targetDigest : String
  createdAt : Int
  deriving DecidableEq

def SchemaBaselineRow.Check (r : SchemaBaselineRow) : Prop := 0 < r.targetVersion ∧ 0 ≤ r.createdAt

instance : DecidablePred SchemaBaselineRow.Check := fun _ => inferInstanceAs (Decidable (_ ∧ _))

inductive CatalogTopologyOperationStatus
  | active
  | completed
  | aborted
  deriving DecidableEq

structure CatalogTopologyOperationIdentity where
  migrationId : String
  sourceShard : String
  destinationShard : String
  rangeLo : Int
  rangeHi : Int
  startEpoch : Int
  schemaVersion : Int
  schemaEpoch : Int
  schemaDigest : String
  recoveryGeneration : Int
  deriving DecidableEq

/-- A row of `catalog_topology_operations`. -/
structure CatalogTopologyOperation where
  identity : CatalogTopologyOperationIdentity
  status : CatalogTopologyOperationStatus
  completedEpoch : Option Int
  createdAt : Int
  updatedAt : Int
  deriving DecidableEq

def CatalogTopologyOperation.migrationId (o : CatalogTopologyOperation) : String :=
  o.identity.migrationId

/-- The completion epoch of an operation with this status. -/
def CatalogTopologyOperation.EpochShape (o : CatalogTopologyOperation) : Prop :=
  (o.status = .completed ∧ ∃ epoch ∈ o.completedEpoch, o.identity.startEpoch < epoch) ∨
    (o.status ≠ .completed ∧ o.completedEpoch = none)

instance : DecidablePred CatalogTopologyOperation.EpochShape :=
  fun _ => inferInstanceAs (Decidable (_ ∨ _))

def CatalogTopologyOperation.Check (o : CatalogTopologyOperation) : Prop :=
  (0 ≤ o.identity.rangeLo ∧ o.identity.rangeLo ≤ o.identity.rangeHi ∧
    o.identity.rangeHi < VSHARD_COUNT) ∧ (0 < o.identity.startEpoch ∧ 0 ≤ o.identity.schemaVersion ∧
    0 < o.identity.schemaEpoch ∧ 0 ≤ o.identity.recoveryGeneration) ∧
    (0 ≤ o.createdAt ∧ o.createdAt ≤ o.updatedAt) ∧ o.EpochShape

instance : DecidablePred CatalogTopologyOperation.Check :=
  fun _ => inferInstanceAs (Decidable (_ ∧ _ ∧ _ ∧ _))

abbrev SchemaShardTable := Table SchemaShardRow.key SchemaShardRow.Check
abbrev SchemaBaselineTable := Table SchemaBaselineRow.migrationId SchemaBaselineRow.Check
abbrev TopologyTable := Table CatalogTopologyOperation.migrationId CatalogTopologyOperation.Check

/-- The tables of a Catalog besides its routing. -/
structure SchemaCatalog (δ : Type) where
  tables : CdbDb δ
  shards : SchemaShardTable
  baselines : SchemaBaselineTable
  topology : TopologyTable

abbrev TopologyTx := Tx Thrown TopologyTable

abbrev CatalogStore (δ : Type) := RoutingStore (SchemaCatalog δ)

abbrev CatalogTx (δ : Type) := RoutingTx (SchemaCatalog δ)

/-- SQLite, and what the Catalog asks of its other tables. -/
structure CatalogHooks (δ : Type) where
  exec : String → Tx Thrown δ Unit
  recordMigratedCatalogAuthoritySchema : Tx Thrown δ Unit
  assertRecoveryAvailable : Tx Thrown δ Unit
  assertRequest : Int → Tx Thrown δ Unit
  abortBarrier : String → Tx Thrown δ Unit
  releaseBarrier : String → Tx Thrown δ Unit

section
variable {δ ν α : Type} [JsNumber ν] {sha256Hex : String → String}

/-- The hooks as the statements of a migration use them. -/
def CatalogHooks.statements (hooks : CatalogHooks δ) : SchemaHooks δ where
  exec := hooks.exec
  recordDomainSchema := hooks.recordMigratedCatalogAuthoritySchema
  afterBaseline _ := pure ()
  assertFreshShard _ := pure ()
  afterReplay _ := pure ()
  beforeStatements _ := pure ()
  afterStatements _ := pure ()

def onTables (x : SchemaTx δ α) : CatalogTx δ α :=
  onRest (.zoom SchemaCatalog.tables (fun c tables => { c with tables }) x)

def onShards (x : Tx Thrown SchemaShardTable α) : CatalogTx δ α :=
  onRest (.zoom SchemaCatalog.shards (fun c shards => { c with shards }) x)

def onBaselines (x : Tx Thrown SchemaBaselineTable α) : CatalogTx δ α :=
  onRest (.zoom SchemaCatalog.baselines (fun c baselines => { c with baselines }) x)

def onTopology (x : Tx Thrown TopologyTable α) : CatalogTx δ α :=
  onRest (.zoom SchemaCatalog.topology (fun c topology => { c with topology }) x)

def onHook (x : Tx Thrown δ Unit) : CatalogTx δ Unit := onTables (Schema.onDomain x)

/-! ## Schema state -/

def readCatalogSchemaState : CatalogTx δ CdbSchemaState := do
  let row ← .gets fun s => s.db.rest.tables.schema
  .ofOption row (invariantError "Catalog schema state is missing")

def writeCatalogSchemaState (row : CdbSchemaState) : CatalogTx δ Unit := onTables (writeState row)

/-- `SELECT DISTINCT shard_id FROM catalog_ranges ORDER BY shard_id`. -/
def inventory (s : CatalogStore δ) : List String :=
  ((s.db.ranges.rows.map VshardRange.shardId).dedup).insertionSort fun a b => a ≤ b

/-- The row of a shard that a migration starts with. -/
def SchemaShardRow.pending (migrationId : String) (nowMs : Int) (shardId : String) : SchemaShardRow :=
  ⟨migrationId, shardId, false, none, nowMs⟩

def insertShards (migrationId : String) (nowMs : Int) : List String → Tx Thrown SchemaShardTable Unit
  | [] => pure ()
  | shardId :: rest => do
    Table.insert (SchemaShardRow.pending migrationId nowMs shardId) (.constraint "catalog_schema_shards")
    insertShards migrationId nowMs rest

/-- `beginCatalogSchemaChange` of a row with no migration in flight. -/
def beginIdle (journal : ChardbMigrationJournal sha256Hex ν) (current : CdbSchemaState)
    (migrationId : String) (targetVersion : Int) (baseline : Bool) (nowMs : Int) : CatalogTx δ Unit := do
  .require (current.activeVersion < targetVersion)
    (invalidArgs "schema migration must advance the active version")
  .require (baseline = true → current.activeVersion = 0 ∧ targetVersion = journal.version)
    (invalidArgs "schema baseline requires version-zero storage and the complete packaged journal")
  let digest ← .ofExcept (migrationDigestAt journal targetVersion)
  writeCatalogSchemaState
    { current with pending := some ⟨migrationId, targetVersion, current.activeEpoch + 1, digest⟩ }
  let shardIds ← .gets inventory
  onShards (insertShards migrationId nowMs shardIds)
  .require (shardIds ≠ []) (invariantError "schema migration has no target shards")
  if baseline = true then
    onBaselines (Table.insert ⟨migrationId, targetVersion, digest, nowMs⟩
      (.constraint "catalog_schema_baselines"))
  else pure ()

def beginCatalogSchemaChange (journal : ChardbMigrationJournal sha256Hex ν) (migrationId : String)
    (targetVersion : Int) (baseline : Bool) (nowMs : Int) : CatalogTx δ Unit := do
  let current ← readCatalogSchemaState
  match current.pending with
  | some p =>
    .require (p.migrationId = migrationId ∧ p.targetVersion = targetVersion)
      (staleEpoch "another schema migration is in progress")
  | none =>
    if current.activeVersion = targetVersion ∧ current.lastMigrationId = some migrationId then pure ()
    else beginIdle journal current migrationId targetVersion baseline nowMs

def catalogSchemaBaselineExists (s : CatalogStore δ) (migrationId : String) : Bool :=
  (s.db.rest.baselines.find? migrationId).isSome

/-- Of the shard under one key, if its row is pending. -/
def updatePendingShard (migrationId shardId : String) (f : SchemaShardRow → SchemaShardRow) :
    CatalogTx δ Nat :=
  onShards (Table.update (fun r => decide (r.key = (migrationId, shardId)) && !r.active) f
    (.constraint "catalog_schema_shards"))

def recordCatalogSchemaShardFailure (migrationId shardId message : String) (nowMs : Int) :
    CatalogTx δ Unit := do
  let _ ← updatePendingShard migrationId shardId fun r =>
    { r with lastError := some message, updatedAt := nowMs }

def activateCatalogSchemaShard (migrationId shardId : String) (nowMs : Int) : CatalogTx δ Unit := do
  let owner ← readCatalogSchemaState
  .require (owner.pending.map CdbSchemaPending.migrationId = some migrationId)
    (staleEpoch "schema migration ownership changed")
  let changes ← updatePendingShard migrationId shardId fun r =>
    { r with active := true, lastError := none, updatedAt := nowMs }
  if changes = 1 then pure ()
  else do
    let stored ← .gets fun s => s.db.rest.shards.find? (migrationId, shardId)
    .require (stored.any SchemaShardRow.active = true)
      (invariantError "schema migration shard state changed")

/-! ## Steps -/

/-- The statements of a step, but for a baseline, which runs nothing. -/
def executeStep (hooks : CatalogHooks δ) (baseline : Bool) (statements : List String) : CatalogTx δ Unit :=
  if baseline = true then pure () else onTables (execStatements hooks.statements statements)

/-- The next step of the migration in flight. -/
def applyCatalogNext (hooks : CatalogHooks δ) (journal : ChardbMigrationJournal sha256Hex ν)
    (migrationId : String) (migration : ChardbMigration ν) (activeVersion targetVersion nowMs : Int) :
    CatalogTx δ Unit := do
  let applied ← .gets fun s => s.db.rest.tables.applied migrationId
  let expected ← .ofExcept (expectedSteps journal activeVersion targetVersion)
  .require (beginsWith applied expected = true)
    (contractChanged "applied Catalog schema migration sequence is corrupt")
  .require ((expected[applied.length]?.map ChardbMigration.version) = some migration.version)
    (invalidArgs "Catalog migration steps must apply in order")
  let baseline ← .gets fun s => catalogSchemaBaselineExists s migrationId
  executeStep hooks baseline migration.catalogStatements
  onTables (insertStep migrationId migration nowMs)

/-- `applyCatalogSchemaMigrationStep` under the migration in flight. -/
def applyCatalogPending (hooks : CatalogHooks δ) (journal : ChardbMigrationJournal sha256Hex ν)
    (migrationId : String) (version activeVersion targetVersion nowMs : Int) : CatalogTx δ Unit := do
  .require (version ≤ targetVersion) (invalidArgs "Catalog migration step exceeds its target")
  let migration ← .ofOption
    (journal.migrations[(version - 1).toNat]?.filter fun m => m.version = version)
    (contractChanged "Catalog schema migration step is missing")
  let existing ← .gets fun s => s.db.rest.tables.steps.find? (migrationId, version)
  match existing with
  | some step =>
    .require (step.digest = migration.digest)
      (contractChanged "applied Catalog schema migration digest changed")
  | none => applyCatalogNext hooks journal migrationId migration activeVersion targetVersion nowMs

def applyCatalogSchemaMigrationStep (hooks : CatalogHooks δ)
    (journal : ChardbMigrationJournal sha256Hex ν) (migrationId : String) (version nowMs : Int) :
    CatalogTx δ Unit := do
  let current ← readCatalogSchemaState
  let refused := staleEpoch "schema migration does not own Catalog"
  match current.pending with
  | none => .require (current.lastMigrationId = some migrationId) refused
  | some p => do
    .require (p.migrationId = migrationId) refused
    applyCatalogPending hooks journal migrationId version current.activeVersion p.targetVersion nowMs

/-- `completeCatalogSchemaMigration` of the migration in flight. -/
def completePending (hooks : CatalogHooks δ) (journal : ChardbMigrationJournal sha256Hex ν)
    (current : CdbSchemaState) (p : CdbSchemaPending) : CatalogTx δ Unit := do
  let pending ← .gets fun s => s.db.rest.shards.select fun r =>
    decide (r.migrationId = p.migrationId) && !r.active
  .require (pending = []) (staleEpoch "schema migration shards are incomplete")
  let expected ← .ofExcept (expectedSteps journal current.activeVersion p.targetVersion)
  let applied ← .gets fun s => s.db.rest.tables.applied p.migrationId
  .require (applied.length = expected.length ∧ beginsWith applied expected = true)
    (staleEpoch "Catalog schema migration steps are incomplete")
  onHook hooks.recordMigratedCatalogAuthoritySchema
  let _ ← onShards (Table.delete fun r => decide (r.migrationId = p.migrationId))
  let _ ← onBaselines (Table.delete fun r => decide (r.migrationId = p.migrationId))
  writeCatalogSchemaState ⟨p.targetVersion, p.targetEpoch, p.targetDigest, some p.migrationId, none⟩

def completeCatalogSchemaMigration (hooks : CatalogHooks δ)
    (journal : ChardbMigrationJournal sha256Hex ν) (migrationId : String) : CatalogTx δ Unit := do
  let current ← readCatalogSchemaState
  match current.pending with
  | none =>
    .require (current.lastMigrationId = some migrationId) (staleEpoch "schema migration is not active")
  | some p => do
    .require (p.migrationId = migrationId) (staleEpoch "schema migration id does not own Catalog")
    completePending hooks journal current p

/-! ## Topology operations -/

def CATALOG_TOPOLOGY_OPERATION_HISTORY_LIMIT : Int := VSHARD_COUNT

/-- `/^[a-f0-9]{64}$/`. -/
def isSchemaDigest (s : String) : Bool :=
  decide (s.toList.length = 64) && s.toList.all fun c => c.isDigit || ('a' ≤ c && c ≤ 'f')

def assertIdentity (identity : CatalogTopologyOperationIdentity) : TopologyTx Unit := do
  .require (isMigrationId identity.migrationId = true) (invalidArgs "topology migration id is invalid")
  .require (isMigrationId identity.sourceShard = true ∧ isMigrationId identity.destinationShard = true)
    (invalidArgs "topology shard id is invalid")
  .require (identity.sourceShard ≠ identity.destinationShard)
    (invalidArgs "topology source and destination must differ")
  .require (IsSafeInteger identity.rangeLo ∧ IsSafeInteger identity.rangeHi ∧ 0 ≤ identity.rangeLo ∧
      identity.rangeLo ≤ identity.rangeHi ∧ identity.rangeHi < VSHARD_COUNT)
    (invalidArgs "topology vshard range is invalid")
  .require (IsSafeInteger identity.startEpoch ∧ 1 ≤ identity.startEpoch)
    (invalidArgs "topology start epoch is invalid")
  .require (IsSafeInteger identity.schemaVersion ∧ 0 ≤ identity.schemaVersion)
    (invalidArgs "topology schema version is invalid")
  .require (IsSafeInteger identity.schemaEpoch ∧ 1 ≤ identity.schemaEpoch)
    (invalidArgs "topology schema epoch is invalid")
  .require (isSchemaDigest identity.schemaDigest = true) (invalidArgs "topology schema digest is invalid")
  .require (IsSafeInteger identity.recoveryGeneration ∧ 0 ≤ identity.recoveryGeneration)
    (invalidArgs "topology recovery generation is invalid")

def readTopology (migrationId : String) : TopologyTx (Option CatalogTopologyOperation) :=
  .gets fun t => t.find? migrationId

/-- The operations that hold the lease. -/
def activeOperations (t : TopologyTable) : List CatalogTopologyOperation :=
  t.select fun o => decide (o.status = .active)

def identityChanged : Thrown := staleEpoch "topology operation identity changed"

/-- The row of a new operation; the unique index on `active` refuses a second one. -/
def insertTopology (identity : CatalogTopologyOperationIdentity) (nowMs : Int) : TopologyTx Unit := do
  let active ← .gets activeOperations
  .require (active = []) (.constraint "catalog_topology_operations")
  Table.insert ⟨identity, .active, none, nowMs, nowMs⟩ (.constraint "catalog_topology_operations")

/-- `CatalogTopologyOperationStore.begin`. -/
def beginTopology (identity : CatalogTopologyOperationIdentity) (nowMs : Int) :
    TopologyTx CatalogTopologyOperation := do
  assertIdentity identity
  .require (IsSafeInteger nowMs ∧ 0 ≤ nowMs) (invalidArgs "topology operation timestamp is invalid")
  let existing ← readTopology identity.migrationId
  match existing with
  | some existing => do
    .require (existing.identity = identity) identityChanged
    pure existing
  | none => do
    let count ← .gets fun t => (t.count : Int)
    .require (count < CATALOG_TOPOLOGY_OPERATION_HISTORY_LIMIT)
      (.cdb
        { code := .rateLimited
          message := s!"topology operation history reached its {CATALOG_TOPOLOGY_OPERATION_HISTORY_LIMIT}-record limit" })
    let active ← .gets activeOperations
    match active with
    | o :: _ => .throw (staleEpoch s!"topology operation {o.migrationId} is already active")
    | [] => do
      insertTopology identity nowMs
      let inserted ← readTopology identity.migrationId
      .ofOption inserted (invariantError "topology operation disappeared")

/-- A status change of the operation under one id, while it is active. -/
def updateTopology (migrationId : String) (f : CatalogTopologyOperation → CatalogTopologyOperation) :
    TopologyTx Nat :=
  Table.update (fun o => decide (o.migrationId = migrationId) && decide (o.status = .active)) f
    (.constraint "catalog_topology_operations")

def assertNoActive : TopologyTx Unit := do
  let active ← .gets activeOperations
  match active with
  | o :: _ => .throw (staleEpoch s!"topology operation {o.migrationId} is in progress")
  | [] => pure ()

structure CatalogTopologyOperationRequest where
  migId : String
  sourceShard : String
  destinationShard : String
  rangeLo : Int
  rangeHi : Int
  startEpoch : Int
  recoveryGeneration : Int
  deriving DecidableEq

/-- `topologyIdentity`. -/
def CatalogTopologyOperationRequest.identity (args : CatalogTopologyOperationRequest)
    (schemaVersion schemaEpoch : Int) (schemaDigest : String) : CatalogTopologyOperationIdentity :=
  ⟨args.migId, args.sourceShard, args.destinationShard, args.rangeLo, args.rangeHi, args.startEpoch,
    schemaVersion, schemaEpoch, schemaDigest, args.recoveryGeneration⟩

/-- The schema of a stored operation is still the active one. -/
def SameSchema (schema : CdbSchemaState) (o : CatalogTopologyOperation) : Prop :=
  schema.pending = none ∧ schema.activeVersion = o.identity.schemaVersion ∧
    schema.activeEpoch = o.identity.schemaEpoch ∧ schema.activeDigest = o.identity.schemaDigest

instance (schema : CdbSchemaState) (o : CatalogTopologyOperation) : Decidable (SameSchema schema o) :=
  inferInstanceAs (Decidable (_ ∧ _ ∧ _ ∧ _))

def schemaBlocks : Thrown := staleEpoch "schema migration blocks topology operation"

/-- The owner of the ends of a range, when it owns the range and the epoch is `startEpoch`. -/
def assertRangeOwner (args : CatalogTopologyOperationRequest) (shardId : String) (epoch : Int)
    (e : Thrown) : CatalogTx δ Unit := do
  let start ← route args.rangeLo
  let finish ← route args.rangeHi
  .require (start = (shardId, epoch) ∧ finish = (shardId, epoch)) e
  let owns ← ownsRange args.rangeLo args.rangeHi shardId
  .require (owns = true) e

/-- `beginTopologyOperation`. -/
def beginTopologyOperation (hooks : CatalogHooks δ) (journal : ChardbMigrationJournal sha256Hex ν)
    (args : CatalogTopologyOperationRequest) (nowMs : Int) : CatalogTx δ CatalogTopologyOperation := do
  onHook (hooks.assertRequest args.recoveryGeneration)
  let existing ← onTopology (readTopology args.migId)
  let schema ← readCatalogSchemaState
  match existing with
  | some existing => do
    .require (SameSchema schema existing) (staleEpoch "topology schema identity changed")
    onTopology (beginTopology (args.identity existing.identity.schemaVersion
      existing.identity.schemaEpoch existing.identity.schemaDigest) nowMs)
  | none => do
    .require (schema.pending = none ∧ schema.activeVersion = journal.version) schemaBlocks
    assertRangeOwner args args.sourceShard args.startEpoch
      (staleEpoch "topology source identity does not match current routing")
    onTopology (beginTopology
      (args.identity schema.activeVersion schema.activeEpoch schema.activeDigest) nowMs)

structure CatalogDerivedTopologyOperationRequest where
  migId : String
  destinationShard : String
  rangeLo : Int
  rangeHi : Int
  recoveryGeneration : Int
  deriving DecidableEq

/-- A stored identity with what is asked for. -/
def CatalogDerivedTopologyOperationRequest.identity (args : CatalogDerivedTopologyOperationRequest)
    (existing : CatalogTopologyOperationIdentity) : CatalogTopologyOperationIdentity :=
  { existing with
    destinationShard := args.destinationShard
    rangeLo := args.rangeLo
    rangeHi := args.rangeHi
    recoveryGeneration := args.recoveryGeneration }

/-- `beginDerivedTopologyOperation`, which takes the source from the current routing. -/
def beginDerivedTopologyOperation (hooks : CatalogHooks δ)
    (journal : ChardbMigrationJournal sha256Hex ν) (args : CatalogDerivedTopologyOperationRequest)
    (nowMs : Int) : CatalogTx δ CatalogTopologyOperation := do
  .require (isMigrationId args.migId = true) (invalidArgs "topology migration id is invalid")
  .require (isMigrationId args.destinationShard = true)
    (invalidArgs "topology destination shard is invalid")
  .require (IsSafeInteger args.rangeLo ∧ IsSafeInteger args.rangeHi ∧ 0 ≤ args.rangeLo ∧
      args.rangeLo ≤ args.rangeHi ∧ args.rangeHi < VSHARD_COUNT)
    (invalidArgs "topology vshard range is invalid")
  onHook (hooks.assertRequest args.recoveryGeneration)
  let existing ← onTopology (readTopology args.migId)
  let schema ← readCatalogSchemaState
  match existing with
  | some existing => do
    .require (SameSchema schema existing) (staleEpoch "topology schema identity changed")
    onTopology (beginTopology (args.identity existing.identity) nowMs)
  | none => do
    .require (schema.pending = none ∧ schema.activeVersion = journal.version) schemaBlocks
    let start ← route args.rangeLo
    let finish ← route args.rangeHi
    let noOwner := staleEpoch "topology range does not have one exact current owner"
    .require (start = finish) noOwner
    let owns ← ownsRange args.rangeLo args.rangeHi start.1
    .require (owns = true) noOwner
    .require (args.destinationShard ≠ start.1) (invalidArgs "topology source and destination must differ")
    onTopology (beginTopology ⟨args.migId, start.1, args.destinationShard, args.rangeLo, args.rangeHi,
      start.2, schema.activeVersion, schema.activeEpoch, schema.activeDigest,
      args.recoveryGeneration⟩ nowMs)

/-- The operation of a request that was begun before. -/
def requireOperation (args : CatalogTopologyOperationRequest) (nowMs : Int) :
    CatalogTx δ CatalogTopologyOperation := do
  let stored ← onTopology (readTopology args.migId)
  let stored ← .ofOption stored (staleEpoch "topology operation lease is missing")
  onTopology (beginTopology (args.identity stored.identity.schemaVersion stored.identity.schemaEpoch
    stored.identity.schemaDigest) nowMs)

def completeTopologyOperation (hooks : CatalogHooks δ) (args : CatalogTopologyOperationRequest)
    (nowMs : Int) : CatalogTx δ Unit := do
  onHook (hooks.assertRequest args.recoveryGeneration)
  let exact ← requireOperation args nowMs
  match exact.status with
  | .completed => pure ()
  | .aborted => .throw (staleEpoch "aborted topology operation cannot complete")
  | .active => do
    assertRangeOwner args args.destinationShard (args.startEpoch + 1)
      (staleEpoch "topology completion does not match current routing")
    let _ ← onTopology (updateTopology args.migId fun o =>
      { o with status := .completed, completedEpoch := some (args.startEpoch + 1), updatedAt := nowMs })

def abortTopologyOperation (hooks : CatalogHooks δ) (args : CatalogTopologyOperationRequest)
    (nowMs : Int) : CatalogTx δ Unit := do
  onHook (hooks.assertRequest args.recoveryGeneration)
  let exact ← requireOperation args nowMs
  match exact.status with
  | .aborted => pure ()
  | .completed => .throw (staleEpoch "completed topology operation cannot abort")
  | .active => do
    assertRangeOwner args args.sourceShard args.startEpoch
      (staleEpoch "a cut-over topology operation cannot abort")
    let _ ← onTopology (updateTopology args.migId fun o =>
      { o with status := .aborted, updatedAt := nowMs })
    onHook (hooks.abortBarrier args.migId)

/-! ## Cutover -/

structure CatalogTopologyCutoverRequest where
  range : CatalogCutoverRequest
  startEpoch : Option Int
  recoveryGeneration : Int

/-- The identity of the operation that a cutover is part of. -/
def CatalogTopologyCutoverRequest.identity (args : CatalogTopologyCutoverRequest)
    (existing : CatalogTopologyOperationIdentity) : CatalogTopologyOperationIdentity :=
  ⟨args.range.migId, args.range.fromShard, args.range.toShard, args.range.lo, args.range.hi,
    args.startEpoch.getD existing.startEpoch, existing.schemaVersion, existing.schemaEpoch,
    existing.schemaDigest, args.recoveryGeneration⟩

/-- The check of the lease, in the transaction that moves the range. -/
def cutoverLease (args : CatalogTopologyCutoverRequest) (schema : CdbSchemaState) (nowMs currentEpoch : Int) :
    TopologyTx Unit := do
  let existing ← readTopology args.range.migId
  let existing ← .ofOption existing (staleEpoch "topology operation lease is missing")
  let exact ← beginTopology (args.identity existing.identity) nowMs
  .require (exact.status ≠ .aborted) (staleEpoch "aborted topology operation cannot cut over")
  .require (exact.status = .active → schema.activeVersion = exact.identity.schemaVersion ∧
      schema.activeEpoch = exact.identity.schemaEpoch ∧
      schema.activeDigest = exact.identity.schemaDigest ∧
      (currentEpoch = exact.identity.startEpoch ∨ currentEpoch = exact.identity.startEpoch + 1))
    (staleEpoch "topology schema identity changed")

/-- A hook of a cutover on one of the tables. -/
def inTopology (x : TopologyTx Unit) : Tx Thrown (SchemaCatalog δ) Unit :=
  .zoom SchemaCatalog.topology (fun c topology => { c with topology }) x

def inDomain (x : Tx Thrown δ Unit) : Tx Thrown (SchemaCatalog δ) Unit :=
  .zoom SchemaCatalog.tables (fun c tables => { c with tables }) (Schema.onDomain x)

def cutoverHooks (hooks : CatalogHooks δ) (args : CatalogTopologyCutoverRequest) (schema : CdbSchemaState)
    (nowMs : Int) : CatalogCutoverHooks (SchemaCatalog δ) where
  before currentEpoch := do
    inDomain (hooks.assertRequest args.recoveryGeneration)
    inTopology (cutoverLease args schema nowMs currentEpoch)
  after _ _ := inDomain (hooks.releaseBarrier args.range.migId)

/-- `Catalog.cutover`. -/
def topologyCutover (hooks : CatalogHooks δ) (journal : ChardbMigrationJournal sha256Hex ν)
    (args : CatalogTopologyCutoverRequest) (nowMs : Int) : CatalogTx δ CatalogCutoverResult := do
  onHook (hooks.assertRequest args.recoveryGeneration)
  let schema ← readCatalogSchemaState
  let stored ← onTopology (readTopology args.range.migId)
  let blocked := staleEpoch "schema migration blocks routing cutover"
  match stored with
  | none => .require (schema.pending = none ∧ schema.activeVersion = journal.version) blocked
  | some stored => .require (SameSchema schema stored) blocked
  cutover args.range (cutoverHooks hooks args schema nowMs)

/-! ## Calls -/

/-- A call, but for what it reads of the storage. -/
inductive CatalogCall
  | beginSchemaMigration (migrationId : String) (targetVersion : Int)
  | beginSchemaBaseline (migrationId : String) (targetVersion : Int)
  | applyCatalogSchemaMigration (migrationId : String) (version : Int)
  /-- The RPCs of `migrateSchemaShard` threw. -/
  | shardFailed (migrationId shardId message : String)
  /-- They returned. -/
  | shardMigrated (migrationId shardId : String) (recoveryGeneration : Int)
  | completeSchemaMigration (migrationId : String)
  | beginTopologyOperation (args : CatalogTopologyOperationRequest)
  | beginDerivedTopologyOperation (args : CatalogDerivedTopologyOperationRequest)
  | completeTopologyOperation (args : CatalogTopologyOperationRequest)
  | abortTopologyOperation (args : CatalogTopologyOperationRequest)
  | cutover (args : CatalogTopologyCutoverRequest)

/-- `beginSchemaChange`. -/
def beginSchemaChange (hooks : CatalogHooks δ) (journal : ChardbMigrationJournal sha256Hex ν)
    (migrationId : String) (targetVersion : Int) (baseline : Bool) (nowMs : Int) : CatalogTx δ Unit := do
  onHook hooks.assertRecoveryAvailable
  .require (isMigrationId migrationId = true) (invalidArgs "schema migration id is invalid")
  .require (IsSafeInteger targetVersion ∧ 1 ≤ targetVersion ∧ targetVersion = journal.version)
    (invalidArgs "schema migration target version is invalid")
  onTopology assertNoActive
  beginCatalogSchemaChange journal migrationId targetVersion baseline nowMs

def CatalogCall.body (hooks : CatalogHooks δ) (journal : ChardbMigrationJournal sha256Hex ν)
    (nowMs : Int) : CatalogCall → CatalogTx δ Unit
  | .beginSchemaMigration migrationId targetVersion =>
    beginSchemaChange hooks journal migrationId targetVersion false nowMs
  | .beginSchemaBaseline migrationId targetVersion =>
    beginSchemaChange hooks journal migrationId targetVersion true nowMs
  | .applyCatalogSchemaMigration migrationId version => do
    onHook hooks.assertRecoveryAvailable
    .require (IsSafeInteger version ∧ 1 ≤ version ∧ version ≤ journal.version)
      (invalidArgs "Catalog schema migration version is invalid")
    applyCatalogSchemaMigrationStep hooks journal migrationId version nowMs
  | .shardFailed migrationId shardId message =>
    recordCatalogSchemaShardFailure migrationId shardId message nowMs
  | .shardMigrated migrationId shardId recoveryGeneration => do
    onHook (hooks.assertRequest recoveryGeneration)
    activateCatalogSchemaShard migrationId shardId nowMs
  | .completeSchemaMigration migrationId => do
    onHook hooks.assertRecoveryAvailable
    completeCatalogSchemaMigration hooks journal migrationId
  | .beginTopologyOperation args => do
    let _ ← Catalog.beginTopologyOperation hooks journal args nowMs
    pure ()
  | .beginDerivedTopologyOperation args => do
    let _ ← Catalog.beginDerivedTopologyOperation hooks journal args nowMs
    pure ()
  | .completeTopologyOperation args => Catalog.completeTopologyOperation hooks args nowMs
  | .abortTopologyOperation args => Catalog.abortTopologyOperation hooks args nowMs
  | .cutover args => do
    let _ ← topologyCutover hooks journal args nowMs
    pure ()

theorem upTo_contiguous (journal : ChardbMigrationJournal sha256Hex ν) (n i : Nat)
    (m : ChardbMigration ν) (h : (journal.migrations.take n)[i]? = some m) : m.version = i + 1 := by
  rw [List.getElem?_take] at h
  split at h
  · exact journal.contiguous i m h
  · cases h

theorem upTo_length_le (journal : ChardbMigrationJournal sha256Hex ν) (n : Nat) :
    (journal.migrations.take n).length ≤ MAX_MIGRATIONS :=
  Nat.le_trans (List.length_take_le' _ _) journal.length_le

/-- The journal of a Worker that packages the first `n` migrations. -/
def upTo (journal : ChardbMigrationJournal sha256Hex ν) (n : Nat) : ChardbMigrationJournal sha256Hex ν where
  version := (journal.migrations.take n).length
  digest := journal.prefixDigest n
  migrations := journal.migrations.take n
  version_eq := rfl
  digest_eq := rfl
  contiguous := upTo_contiguous journal n
  length_le := upTo_length_le journal n

/-- The checks that `initializeCatalogStorage` makes of the stored state; a Worker whose journal does
not fit it serves no call. -/
def assertPackagedState (journal : ChardbMigrationJournal sha256Hex ν) : CatalogTx δ Unit := do
  let row ← readCatalogSchemaState
  let changed (message : String) := contractChanged message
  .require (row.activeVersion ≤ journal.version)
    (changed s!"Catalog schema version {decimal row.activeVersion} is newer than packaged version {decimal journal.version}")
  let digest ← .ofExcept (migrationDigestAt journal row.activeVersion)
  .require (row.activeDigest = digest)
    (changed s!"Catalog schema digest does not match packaged migration version {decimal row.activeVersion}")
  match row.pending with
  | none => pure ()
  | some p => do
    let mismatch := changed "Catalog pending schema migration does not match the packaged journal"
    .require (row.activeVersion < p.targetVersion ∧ p.targetVersion ≤ journal.version ∧
      p.targetEpoch = row.activeEpoch + 1) mismatch
    let targetDigest ← .ofExcept (migrationDigestAt journal p.targetVersion)
    .require (p.targetDigest = targetDigest) mismatch

/-- A call at one time, of a Worker that packages the first `packaged` migrations. -/
structure CatalogRequest where
  call : CatalogCall
  packaged : Nat
  nowMs : Int

/-- A call that throws leaves the storage as it was. -/
def CatalogRequest.execute (hooks : CatalogHooks δ) (journal : ChardbMigrationJournal sha256Hex ν)
    (request : CatalogRequest) : CatalogTx δ Unit := storageTransaction do
  assertPackagedState (upTo journal request.packaged)
  request.call.body hooks (upTo journal request.packaged) request.nowMs

/-- A Catalog that has run nothing. -/
def catalogInitial (journal : ChardbMigrationJournal sha256Hex ν) (domain : δ) : CatalogStore δ :=
  .initial
    { tables :=
        { schema := some ⟨0, 1, journal.prefixDigest 0, none, none⟩
          steps := .empty
          domain
          executed := [] }
      shards := .empty
      baselines := .empty
      topology := .empty }

def catalogStep (hooks : CatalogHooks δ) (journal : ChardbMigrationJournal sha256Hex ν)
    (s : CatalogStore δ) (request : CatalogRequest) : CatalogStore δ :=
  (request.execute hooks journal).after s

def catalogRun (hooks : CatalogHooks δ) (journal : ChardbMigrationJournal sha256Hex ν)
    (s : CatalogStore δ) (requests : List CatalogRequest) : CatalogStore δ :=
  requests.foldl (catalogStep hooks journal) s

end

end Chardb.Catalog
