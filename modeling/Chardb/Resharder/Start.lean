import Chardb.Resharder.StartIntent
import Mathlib.Data.List.Lex

/-!
# Starting a split

The argument checks of `startSplit` and the atomic blocks of `startSplitDriver`:
`startBegin` runs up to the Catalog call, `startReply` from its answer on.
`startTx` is the transaction that turns the intent into a migration.
-/

namespace Chardb.Resharder

open Chardb.Lib

/-! ## Canonical arguments -/

def RESHARDER_MAX_TABLES : Nat := 256
def RESHARDER_MAX_COLUMNS_PER_TABLE : Nat := 256

def invalidSplit (message : String) : Thrown := invalidArgs ("reshard split: " ++ message)

/-- `/^[A-Za-z_][A-Za-z0-9_]{0,127}$/`. -/
def isSqliteIdentifier (s : String) : Bool :=
  match s.toList with
  | [] => false
  | c :: cs => (c.isAlpha || c == '_') && decide (cs.length ≤ 127) &&
      cs.all fun c => c.isAlphanum || c == '_'

/-- First and third level collation weights of an identifier character: `_`, digits, letters. -/
def collation (c : Char) : Nat × Nat :=
  if c == '_' then (1, 1)
  else if c.isDigit then (2 + (c.toNat - '0'.toNat), 1)
  else if c.isLower then (12 + (c.toNat - 'a'.toNat), 1)
  else (12 + (c.toNat - 'A'.toNat), 2)

/-- The sort key of an identifier; every first level weight is above the separator. -/
def collationKey (s : String) : List Nat :=
  s.toList.map (fun c => (collation c).1) ++ 0 :: s.toList.map fun c => (collation c).2

/-- `left.name.localeCompare(right.name) <= 0`, on identifiers. -/
def nameLe (left right : TableSpec) : Bool :=
  decide (collationKey left.name ≤ collationKey right.name)

section
variable {σ : Type}

def checkTableSpec (names : List String) (table : TableSpec) : Tx Thrown σ Unit := do
  .require (isSqliteIdentifier table.name) (invalidSplit "table name is invalid")
  .require (table.name ∉ names) (invalidSplit "table names must be unique")
  .require (isSqliteIdentifier table.partitionColumn) (invalidSplit "partition column is invalid")
  .require (1 ≤ table.columns.length ∧ table.columns.length ≤ RESHARDER_MAX_COLUMNS_PER_TABLE)
    (invalidSplit "table columns must contain from 1 through 256 entries")
  .require (∀ column ∈ table.columns, isSqliteIdentifier column)
    (invalidSplit "table column is invalid")
  .require table.columns.Nodup (invalidSplit "table columns must be unique")
  .require (table.partitionColumn ∈ table.columns)
    (invalidSplit "partition column must be present in table columns")

def checkTableSpecs (names : List String) : List TableSpec → Tx Thrown σ Unit
  | [] => pure ()
  | table :: tables => do
    checkTableSpec names table
    checkTableSpecs (table.name :: names) tables

def canonicalSplitTables (tables : List TableSpec) : Tx Thrown σ (List TableSpec) := do
  .require (1 ≤ tables.length ∧ tables.length ≤ RESHARDER_MAX_TABLES)
    (invalidSplit "tables must contain from 1 through 256 entries")
  checkTableSpecs [] tables
  pure (tables.insertionSort (nameLe · ·))

/-- The arguments of `startSplit`. -/
structure StartSplitArgs where
  migId : String
  srcShard : String
  dstShard : String
  rangeLo : Int
  rangeHi : Int
  epochAtStart : Int
  tables : List TableSpec
  deriving DecidableEq

def canonicalStartSplit (args : StartSplitArgs) : Tx Thrown σ (List TableSpec) := do
  .require (isResharderMigId args.migId) (invalidSplit "migration id is invalid")
  .require (isMigrationId args.srcShard ∧ isMigrationId args.dstShard)
    (invalidSplit "shard id is invalid")
  .require (args.srcShard ≠ args.dstShard) (invalidSplit "source and destination shards must differ")
  .require (IsSafeInteger args.rangeLo ∧ IsSafeInteger args.rangeHi ∧ 0 ≤ args.rangeLo ∧
    args.rangeLo ≤ args.rangeHi ∧ args.rangeHi < VSHARD_COUNT)
    (invalidSplit "virtual-shard range is invalid")
  .require (IsGeneration args.epochAtStart) (invalidSplit "starting routing epoch is invalid")
  canonicalSplitTables args.tables

end

def startIdentity (args : StartSplitArgs) (tablesJson : List TableSpec) (recoveryGeneration : Int) :
    ResharderStartIdentity :=
  { args with tablesJson, recoveryGeneration }

/-! ## The driver -/

inductive TopologyStatus
  | active
  | completed
  | aborted
  deriving DecidableEq

/-- What the driver reads of Catalog's answer to `beginTopologyOperation`. -/
structure TopologyReply where
  status : TopologyStatus
  schemaVersion : Int
  schemaEpoch : Int
  schemaDigest : String
  deriving DecidableEq

def recoveryBlocks : Thrown := phaseMismatch "point-in-time recovery blocks resharding"

def boundElsewhere (migId : String) : Thrown :=
  phaseMismatch ("migId=" ++ migId ++ " is already bound to a different split")

/-- A stored split must be the requested one. -/
def assertSameSplit (stored : SplitIdentity) (identity : ResharderStartIdentity) :
    ResharderTx Unit := do
  .require ({ stored with tablesJson := identity.tablesJson } = identity.toSplitIdentity)
    (boundElsewhere identity.migId)
  let tables ← canonicalSplitTables stored.tablesJson
  .require (tables = identity.tablesJson) (boundElsewhere identity.migId)

def assertExisting (existing : Option MigrationState) (identity : ResharderStartIdentity) :
    ResharderTx Unit :=
  match existing with
  | none => pure ()
  | some st => assertSameSplit st.toSplitIdentity identity

/-- The driver up to the Catalog call; it answers the migration it has found. -/
def startBegin (identity : ResharderStartIdentity) (nowMs : Int) :
    ResharderTx (Option MigrationState) := do
  let existing ← readMigration identity.migId
  assertExisting existing identity
  let _ ← .transactionSync do
    let clock ← .gets ResharderDb.clock
    .require (clock.activeOperationId = none ∧ clock.generation = identity.recoveryGeneration)
      recoveryBlocks
    StartIntent.begin identity nowMs
  pure existing

def insertMigration (identity : ResharderStartIdentity) (topology : TopologyReply) (now : Int) :
    ResharderTx Unit := do
  onMigrations (Table.insert
    { identity with
      phase := INIT, bulkCursor := [], tailCursor := 0, legacyCutoverRecovered := false
      startedAt := now, updatedAt := now }
    (.constraint "migration_state"))
  .modify fun db => { db with
    oplogCursors := db.oplogCursors.insertOrIgnore
      { migId := identity.migId, sourceLsn := 0, updatedAt := now }
    workCursors := db.workCursors.insertOrIgnore
      { migId := identity.migId, turn := 0, bulkTableIndex := 0, updatedAt := now }
    fileCursors := db.fileCursors.insertOrIgnore
      { migId := identity.migId, enabled := none, updatedAt := now }
    vectorCursors := db.vectorCursors.insertOrIgnore
      { migId := identity.migId, enabled := none, updatedAt := now } }
  onSchemaIdentities (Table.insert
    { migId := identity.migId, schemaVersion := topology.schemaVersion
      schemaEpoch := topology.schemaEpoch, schemaDigest := topology.schemaDigest }
    (.constraint "migration_schema_identity"))

/-- The row of the migration, made if there is none. -/
def ensureMigration (identity : ResharderStartIdentity) (topology : TopologyReply) (now : Int) :
    Option MigrationRow → ResharderTx Unit
  | some existing => assertSameSplit existing.toSplitIdentity identity
  | none => insertMigration identity topology now

/-- The last transaction of the driver; it answers whether the start was canceled. -/
def startTx (identity : ResharderStartIdentity) (topology : TopologyReply) (now : Int) :
    ResharderTx Bool := do
  let intent ← StartIntent.requireExact identity
  if intent.state = .abortRequested then pure true
  else do
    let existing ← .gets fun db => db.migrations.find? identity.migId
    ensureMigration identity topology now existing
    StartIntent.clearStarted identity
    pure false

/-- Catalog refuses: the intent becomes a tombstone. -/
def rejectStart (migId : String) (now : Int) : ResharderTx Bool := do
  let _ ← .transactionSync (StartIntent.requestAbort migId now)
  .throw (staleEpoch "reshard topology operation is aborted")

/-- Catalog's schema identity must be valid and the one already stored. -/
def assertTopologySchema (migId : String) (existing : Option MigrationState)
    (topology : TopologyReply) : ResharderTx Unit := do
  .require (¬ (topology.status = .completed ∧ existing = none))
    (phaseMismatch ("migId=" ++ migId ++ " completed in Catalog without local migration state"))
  .require (ValidSchema topology.schemaVersion topology.schemaEpoch topology.schemaDigest)
    (invariantError "Catalog returned an invalid topology schema identity")
  .require (∀ st ∈ existing, st.schemaVersion = topology.schemaVersion ∧
    st.schemaEpoch = topology.schemaEpoch ∧ st.schemaDigest = topology.schemaDigest)
    (phaseMismatch ("migId=" ++ migId ++ " Catalog schema identity changed"))

/-- The driver from Catalog's answer on; it answers whether the start was canceled. -/
def startReply (identity : ResharderStartIdentity) (existing : Option MigrationState)
    (topology : TopologyReply) (now : Int) : ResharderTx Bool :=
  if topology.status = .aborted then rejectStart identity.migId now
  else do
    assertTopologySchema identity.migId existing topology
    .transactionSync (startTx identity topology now)

/-! ## What the blocks leave -/

/-- The cursors and the schema identity of a migration. -/
structure HasCursors (db : ResharderDb) (migId : String) : Prop where
  oplog : (db.oplogCursors.find? migId).isSome
  work : (db.workCursors.find? migId).isSome
  file : (db.fileCursors.find? migId).isSome
  vector : (db.vectorCursors.find? migId).isSome
  schema : (db.schemaIdentities.find? migId).isSome

variable {db db' : ResharderDb}

theorem canonicalSplitTables_returns {σ : Type} {tables tables' : List TableSpec} {s s' : σ}
    (h : (canonicalSplitTables tables).Returns s tables' s') :
    tables' = tables.insertionSort (nameLe · ·) := by
  simp only [canonicalSplitTables, Tx.bind_returns, Tx.pure_returns] at h
  obtain ⟨_, _, -, _, _, -, rfl, -⟩ := h
  rfl

instance : Std.Total (fun a b : TableSpec => nameLe a b = true) :=
  ⟨fun a b => by simpa [nameLe] using le_total (collationKey a.name) (collationKey b.name)⟩

instance : IsTrans TableSpec (fun a b => nameLe a b = true) :=
  ⟨fun a b c hab hbc => by simp only [nameLe, decide_eq_true_eq] at *; exact hab.trans hbc⟩

/-- A stored split that was canonical is the requested one. -/
theorem assertSameSplit_returns {stored : SplitIdentity} {identity : ResharderStartIdentity}
    {a : Unit} (h : (assertSameSplit stored identity).Returns db a db')
    (hs : stored.tablesJson.Pairwise (nameLe · ·)) :
    stored = identity.toSplitIdentity := by
  simp only [assertSameSplit, Tx.bind_returns, Tx.require_returns] at h
  obtain ⟨_, _, ⟨hsame, -⟩, tables, _, hc, htables, -⟩ := h
  have := canonicalSplitTables_returns hc
  rw [List.Pairwise.insertionSort_eq hs] at this
  rw [← hsame, ← htables, this]

theorem canonicalSplitTables_pairwise {σ : Type} {tables tables' : List TableSpec} {s s' : σ}
    (h : (canonicalSplitTables tables).Returns s tables' s') :
    tables'.Pairwise (nameLe · ·) := by
  rw [canonicalSplitTables_returns h]; exact List.pairwise_insertionSort _ _

theorem readOnly_checkTableSpecs {σ : Type} (names : List String) (tables : List TableSpec) :
    (checkTableSpecs names tables : Tx Thrown σ Unit).ReadOnly := by
  induction tables generalizing names with
  | nil => exact Tx.readOnly_pure _
  | cons table tables ih =>
    refine Tx.ReadOnly.bind ?_ fun _ => ih _
    unfold checkTableSpec
    repeat' first
      | exact Tx.readOnly_require _ _
      | refine Tx.ReadOnly.bind ?_ fun _ => ?_

theorem readOnly_canonicalSplitTables {σ : Type} (tables : List TableSpec) :
    (canonicalSplitTables tables : Tx Thrown σ _).ReadOnly :=
  (Tx.readOnly_require _ _).bind fun _ => (readOnly_checkTableSpecs _ _).bind fun _ =>
    Tx.readOnly_pure _

theorem readOnly_assertSameSplit (stored : SplitIdentity) (identity : ResharderStartIdentity) :
    (assertSameSplit stored identity).ReadOnly :=
  (Tx.readOnly_require _ _).bind fun _ => (readOnly_canonicalSplitTables _).bind fun _ =>
    Tx.readOnly_require _ _

theorem readOnly_assertExisting (existing : Option MigrationState)
    (identity : ResharderStartIdentity) : (assertExisting existing identity).ReadOnly := by
  cases existing with
  | none => exact Tx.readOnly_pure _
  | some st => exact readOnly_assertSameSplit _ _

theorem readOnly_assertTopologySchema (migId : String) (existing : Option MigrationState)
    (topology : TopologyReply) : (assertTopologySchema migId existing topology).ReadOnly :=
  (Tx.readOnly_require _ _).bind fun _ => (Tx.readOnly_require _ _).bind fun _ =>
    Tx.readOnly_require _ _

/-- A throw before the Catalog call changes nothing. -/
theorem atomic_startBegin (identity : ResharderStartIdentity) (nowMs : Int) :
    (startBegin identity nowMs).Atomic := by
  refine (readOnly_readMigration _).bind_atomic fun existing =>
    (readOnly_assertExisting existing identity).bind_atomic fun _ => ?_
  exact (Tx.atomic_transactionSync _).bind_total fun _ _ _ _ _ _ h => Tx.pure_throws.mp h

theorem startBegin_returns {identity : ResharderStartIdentity} {nowMs : Int}
    {o : Option MigrationState} (h : (startBegin identity nowMs).Returns db o db') :
    (readMigration identity.migId).Returns db o db ∧
    (assertExisting o identity).Returns db () db ∧
    ∃ i, (StartIntent.begin identity nowMs).Returns db i db' := by
  simp only [startBegin, Tx.bind_returns, Tx.pure_returns, Tx.transactionSync_returns,
    Tx.gets_returns, Tx.require_returns] at h
  obtain ⟨existing, _, hr, _, _, ha, i, _, ⟨_, _, ⟨rfl, rfl⟩, _, _, ⟨-, rfl⟩, hb⟩, rfl, rfl⟩ := h
  obtain rfl := (readOnly_readMigration _).returns hr
  obtain rfl := (readOnly_assertExisting _ _).returns ha
  exact ⟨hr, ha, i, hb⟩

/-- What a fresh `migration_state` row comes with. -/
theorem insertMigration_returns {identity : ResharderStartIdentity} {topology : TopologyReply}
    {now : Int} {a : Unit} (h : (insertMigration identity topology now).Returns db a db') :
    db'.startIntents = db.startIntents ∧ db'.clock = db.clock ∧
    (∀ i, i ∈ db'.schemaIdentities ↔ i ∈ db.schemaIdentities ∨
      i = { migId := identity.migId, schemaVersion := topology.schemaVersion
            schemaEpoch := topology.schemaEpoch, schemaDigest := topology.schemaDigest }) ∧
    HasCursors db' identity.migId ∧
    (∀ m, m ≠ identity.migId → db'.migrations.find? m = db.migrations.find? m ∧
      db'.workCursors.find? m = db.workCursors.find? m ∧ (HasCursors db m → HasCursors db' m)) ∧
    db'.migrations.find? identity.migId = some
      { identity with
        phase := INIT, bulkCursor := [], tailCursor := 0, legacyCutoverRecovered := false
        startedAt := now, updatedAt := now } := by
  simp only [insertMigration, Tx.bind_returns, onMigrations_returns, Tx.modify_returns,
    onSchemaIdentities_returns, Table.insert_returns] at h
  obtain ⟨_, _, ⟨t, hm, rfl⟩, _, _, rfl, t', hs, rfl⟩ := h
  have hm := Table.find?_insert hm
  have hsm := fun i => Table.mem_insert (x := i) hs
  have hs := Table.find?_insert hs
  have ho := fun m => Table.find?_insertOrIgnore (t := db.oplogCursors)
    (r := { migId := identity.migId, sourceLsn := 0, updatedAt := now })
    (by simp [OpLogCursorRow.check]) m
  have hw := fun m => Table.find?_insertOrIgnore (t := db.workCursors)
    (r := { migId := identity.migId, turn := 0, bulkTableIndex := 0, updatedAt := now })
    (by simp [WorkCursorRow.check]) m
  have hf := fun m => Table.find?_insertOrIgnore (t := db.fileCursors)
    (r := { migId := identity.migId, enabled := none, updatedAt := now }) trivial m
  have hv := fun m => Table.find?_insertOrIgnore (t := db.vectorCursors)
    (r := { migId := identity.migId, enabled := none, updatedAt := now }) trivial m
  refine ⟨rfl, rfl, hsm, ⟨?_, ?_, ?_, ?_, ?_⟩, fun m hne => ⟨?_, ?_, fun hc => ⟨?_, ?_, ?_, ?_, ?_⟩⟩, ?_⟩
  · rw [ho]; simp
  · rw [hw]; simp
  · rw [hf]; simp
  · rw [hv]; simp
  · rw [hs]; simp
  · rw [hm, if_neg (Ne.symm hne)]
  · rw [hw, if_neg (Ne.symm hne)]
  · rw [ho, if_neg (Ne.symm hne)]; exact hc.oplog
  · rw [hw, if_neg (Ne.symm hne)]; exact hc.work
  · rw [hf, if_neg (Ne.symm hne)]; exact hc.file
  · rw [hv, if_neg (Ne.symm hne)]; exact hc.vector
  · rw [hs, if_neg (Ne.symm hne)]; exact hc.schema
  · rw [hm, if_pos rfl]

theorem assertTopologySchema_returns {migId : String} {existing : Option MigrationState}
    {topology : TopologyReply} {a : Unit}
    (h : (assertTopologySchema migId existing topology).Returns db a db') :
    ValidSchema topology.schemaVersion topology.schemaEpoch topology.schemaDigest := by
  simp only [assertTopologySchema, Tx.bind_returns, Tx.require_returns] at h
  obtain ⟨_, _, -, _, _, ⟨hv, -⟩, -⟩ := h
  exact hv

/-- The ways the last transaction commits. -/
inductive StartOutcome (identity : ResharderStartIdentity) (db db' : ResharderDb) : Bool → Prop
  /-- The intent has been canceled; nothing changes. -/
  | canceled (same : db' = db) {row : StartIntentRow}
      (intent : db.startIntents.find? identity.migId = some row)
      (state : row.state = .abortRequested) : StartOutcome identity db db' true
  /-- The migration stood already, under this identity; the intent goes. -/
  | existing {row : MigrationRow}
      (found : db.migrations.find? identity.migId = some row)
      (same : (assertSameSplit row.toSplitIdentity identity).Returns db () db)
      (cleared : (StartIntent.clearStarted identity).Returns db () db') :
      StartOutcome identity db db' false
  /-- A fresh migration; the intent goes. -/
  | created {topology : TopologyReply} {now : Int} {mid : ResharderDb}
      (schema : ValidSchema topology.schemaVersion topology.schemaEpoch topology.schemaDigest)
      (fresh : db.migrations.find? identity.migId = none)
      (made : (insertMigration identity topology now).Returns db () mid)
      (cleared : (StartIntent.clearStarted identity).Returns mid () db') :
      StartOutcome identity db db' false

theorem startTx_returns {identity : ResharderStartIdentity} {topology : TopologyReply} {now : Int}
    {b : Bool}
    (hv : ValidSchema topology.schemaVersion topology.schemaEpoch topology.schemaDigest)
    (h : (startTx identity topology now).Returns db b db') :
    StartOutcome identity db db' b := by
  obtain ⟨intent, t, hx, h⟩ := Tx.bind_returns.mp h
  obtain ⟨row, hrow, -, rfl, rfl⟩ := StartIntent.requireExact_returns hx
  rcases Tx.ite_returns.mp h with ⟨hst, h⟩ | ⟨hst, h⟩
  · obtain ⟨rfl, rfl⟩ := Tx.pure_returns.mp h
    exact .canceled rfl hrow hst
  · simp only [Tx.bind_returns, Tx.gets_returns, Tx.pure_returns] at h
    obtain ⟨_, _, ⟨rfl, rfl⟩, _, mid, he, _, _, hc, rfl, rfl⟩ := h
    cases hf : db.migrations.find? identity.migId with
    | some m =>
      rw [hf] at he
      obtain rfl := (readOnly_assertSameSplit _ _).returns he
      exact .existing hf he hc
    | none => rw [hf] at he; exact .created hv hf he hc

theorem startReply_returns {identity : ResharderStartIdentity} {existing : Option MigrationState}
    {topology : TopologyReply} {now : Int} {b : Bool}
    (h : (startReply identity existing topology now).Returns db b db') :
    StartOutcome identity db db' b := by
  rcases Tx.ite_returns.mp h with ⟨-, h⟩ | ⟨-, h⟩
  · simp [rejectStart] at h
  · simp only [Tx.bind_returns, Tx.transactionSync_returns] at h
    obtain ⟨_, _, ha, ht⟩ := h
    obtain rfl := (readOnly_assertTopologySchema _ _ _).returns ha
    exact startTx_returns (assertTopologySchema_returns ha) ht

/-- A throw after Catalog's answer changes nothing, or leaves a tombstone. -/
theorem startReply_throws {identity : ResharderStartIdentity} {existing : Option MigrationState}
    {topology : TopologyReply} {now : Int} {e : Thrown}
    (h : (startReply identity existing topology now).Throws db e db') :
    db' = db ∨ ∃ i, (StartIntent.requestAbort identity.migId now).Returns db i db' := by
  rcases Tx.ite_throws.mp h with ⟨-, h⟩ | ⟨-, h⟩
  · rcases (Tx.atomic_transactionSync _).of_bind_throws h with h | ⟨i, t, ht, h⟩
    · exact .inl h
    · obtain ⟨-, rfl⟩ := Tx.throw_throws.mp h
      exact .inr ⟨i, Tx.transactionSync_returns.mp ht⟩
  · have hat : (assertTopologySchema identity.migId existing topology >>= fun _ =>
        Tx.transactionSync (startTx identity topology now)).Atomic :=
      (readOnly_assertTopologySchema _ _ _).bind_atomic fun _ => Tx.atomic_transactionSync _
    exact .inl (hat h)

end Chardb.Resharder
