import Chardb.Core.Errors
import Chardb.Core.Vshard
import Chardb.Lib.Table

/-!
# The Resharder's tables

`migration_state` with its work, op-log, file and vector cursors and its schema
identity, and `migration_start_intent`. The columns of the file and vector cursors
that nothing here reads are left out. `tables_json` is kept as the list of specs
whose stable JSON it is.
-/

namespace Chardb.Resharder

open Chardb.Lib

/-! ## Phases -/

def INIT : Int := 0
def TAIL_CAPTURE_ENABLED : Int := 1
def BULK_COPY_DONE : Int := 2
def TAIL_CAUGHT_UP : Int := 3
def DUAL_WRITE_OPEN : Int := 4
def CATALOG_CUT_OVER : Int := 5
def SOURCE_DRAINED : Int := 6
def ABORTING : Int := 7
def ABORTED : Int := -1

/-! ## Rows -/

structure TableSpec where
  name : String
  partitionColumn : String
  columns : List String
  deriving DecidableEq

/-- What a migration id is bound to. -/
structure SplitIdentity where
  srcShard : String
  dstShard : String
  rangeLo : Int
  rangeHi : Int
  epochAtStart : Int
  recoveryGeneration : Int
  tablesJson : List TableSpec
  deriving DecidableEq

structure ResharderStartIdentity extends SplitIdentity where
  migId : String
  deriving DecidableEq

/-- A row of `migration_state`. -/
structure MigrationRow extends SplitIdentity where
  migId : String
  phase : Int
  bulkCursor : List (String × Int)
  tailCursor : Int
  legacyCutoverRecovered : Bool
  startedAt : Int
  updatedAt : Int
  deriving DecidableEq

/-- A row of `migration_oplog_cursor`. -/
structure OpLogCursorRow where
  migId : String
  sourceLsn : Int
  updatedAt : Int
  deriving DecidableEq

/-- A row of `migration_work_cursor`. -/
structure WorkCursorRow where
  migId : String
  turn : Int
  bulkTableIndex : Int
  updatedAt : Int
  deriving DecidableEq

/-- A row of `migration_file_cursor` or `migration_vector_cursor`. -/
structure ResourceCursorRow where
  migId : String
  enabled : Option Bool
  updatedAt : Int
  deriving DecidableEq

/-- A row of `migration_schema_identity`. -/
structure SchemaIdentityRow where
  migId : String
  schemaVersion : Int
  schemaEpoch : Int
  schemaDigest : String
  deriving DecidableEq

inductive StartState
  | starting
  | abortRequested
  deriving DecidableEq

/-- A row of `migration_start_intent`; the seven identity columns are all `NULL` or all set. -/
structure StartIntentRow where
  migId : String
  state : StartState
  split : Option SplitIdentity
  createdAt : Int
  updatedAt : Int
  deriving DecidableEq

def MigrationRow.check (r : MigrationRow) : Prop := 0 ≤ r.recoveryGeneration

def OpLogCursorRow.check (r : OpLogCursorRow) : Prop := 0 ≤ r.sourceLsn

def WorkCursorRow.check (r : WorkCursorRow) : Prop := (0 ≤ r.turn ∧ r.turn ≤ 3) ∧ 0 ≤ r.bulkTableIndex

def ResourceCursorRow.check (_ : ResourceCursorRow) : Prop := True

def SchemaIdentityRow.check (r : SchemaIdentityRow) : Prop := 0 ≤ r.schemaVersion ∧ 0 < r.schemaEpoch

def StartIntentRow.check (r : StartIntentRow) : Prop :=
  (∀ i ∈ r.split, 0 ≤ i.recoveryGeneration) ∧ 0 ≤ r.createdAt ∧ r.createdAt ≤ r.updatedAt

instance : DecidablePred MigrationRow.check := fun _ => inferInstanceAs (Decidable (_ ≤ _))
instance : DecidablePred OpLogCursorRow.check := fun _ => inferInstanceAs (Decidable (_ ≤ _))
instance : DecidablePred WorkCursorRow.check := fun _ => inferInstanceAs (Decidable (_ ∧ _))
instance : DecidablePred ResourceCursorRow.check := fun _ => inferInstanceAs (Decidable True)
instance : DecidablePred SchemaIdentityRow.check := fun _ => inferInstanceAs (Decidable (_ ∧ _))
instance : DecidablePred StartIntentRow.check := fun _ => inferInstanceAs (Decidable (_ ∧ _))

/-- The recovery clock, as `admissionClock` reads it. -/
structure RecoveryClock where
  generation : Int
  activeOperationId : Option String
  deriving DecidableEq

/-- The durable state of the Resharder. -/
structure ResharderDb where
  clock : RecoveryClock
  migrations : Table MigrationRow.migId MigrationRow.check
  oplogCursors : Table OpLogCursorRow.migId OpLogCursorRow.check
  workCursors : Table WorkCursorRow.migId WorkCursorRow.check
  fileCursors : Table ResourceCursorRow.migId ResourceCursorRow.check
  vectorCursors : Table ResourceCursorRow.migId ResourceCursorRow.check
  schemaIdentities : Table SchemaIdentityRow.migId SchemaIdentityRow.check
  startIntents : Table StartIntentRow.migId StartIntentRow.check

def ResharderDb.empty (clock : RecoveryClock) : ResharderDb :=
  ⟨clock, .empty, .empty, .empty, .empty, .empty, .empty, .empty⟩

abbrev ResharderTx (α : Type) := Tx Thrown ResharderDb α

section
variable {α : Type} {db db' : ResharderDb} {a : α}

def onMigrations (x : Tx Thrown (Table MigrationRow.migId MigrationRow.check) α) : ResharderTx α :=
  .zoom ResharderDb.migrations (fun db t => { db with migrations := t }) x

def onWorkCursors (x : Tx Thrown (Table WorkCursorRow.migId WorkCursorRow.check) α) :
    ResharderTx α :=
  .zoom ResharderDb.workCursors (fun db t => { db with workCursors := t }) x

def onSchemaIdentities (x : Tx Thrown (Table SchemaIdentityRow.migId SchemaIdentityRow.check) α) :
    ResharderTx α :=
  .zoom ResharderDb.schemaIdentities (fun db t => { db with schemaIdentities := t }) x

def onStartIntents (x : Tx Thrown (Table StartIntentRow.migId StartIntentRow.check) α) :
    ResharderTx α :=
  .zoom ResharderDb.startIntents (fun db t => { db with startIntents := t }) x

@[simp] theorem onMigrations_returns {x : Tx Thrown (Table MigrationRow.migId MigrationRow.check) α} :
    (onMigrations x).Returns db a db' ↔
      ∃ t, x.Returns db.migrations a t ∧ db' = { db with migrations := t } := Tx.zoom_returns

@[simp] theorem onWorkCursors_returns
    {x : Tx Thrown (Table WorkCursorRow.migId WorkCursorRow.check) α} :
    (onWorkCursors x).Returns db a db' ↔
      ∃ t, x.Returns db.workCursors a t ∧ db' = { db with workCursors := t } := Tx.zoom_returns

@[simp] theorem onSchemaIdentities_returns
    {x : Tx Thrown (Table SchemaIdentityRow.migId SchemaIdentityRow.check) α} :
    (onSchemaIdentities x).Returns db a db' ↔
      ∃ t, x.Returns db.schemaIdentities a t ∧ db' = { db with schemaIdentities := t } :=
  Tx.zoom_returns

@[simp] theorem onStartIntents_returns
    {x : Tx Thrown (Table StartIntentRow.migId StartIntentRow.check) α} :
    (onStartIntents x).Returns db a db' ↔
      ∃ t, x.Returns db.startIntents a t ∧ db' = { db with startIntents := t } := Tx.zoom_returns

end

/-! ## Reading a migration -/

/-- `/^[a-f0-9]{64}$/`. -/
def isSchemaDigest (s : String) : Bool :=
  s.toList.length == 64 && s.toList.all fun c => c.isDigit || ('a' ≤ c && c ≤ 'f')

structure MigrationState extends SplitIdentity where
  phase : Int
  schemaVersion : Int
  schemaEpoch : Int
  schemaDigest : String
  bulkCursor : List (String × Int)
  tailCursor : Int
  workTurn : Int
  bulkTableIndex : Int
  legacyCutoverRecovered : Bool
  deriving DecidableEq

/-- The schema identity checks shared by `readMigration` and the Catalog reply. -/
def ValidSchema (version epoch : Int) (digest : String) : Prop :=
  IsCounter version ∧ IsGeneration epoch ∧ isSchemaDigest digest = true

instance (version epoch : Int) (digest : String) : Decidable (ValidSchema version epoch digest) :=
  inferInstanceAs (Decidable (_ ∧ _))

def readMigration (migId : String) : ResharderTx (Option MigrationState) := do
  let row ← .gets fun db => db.migrations.find? migId
  match row with
  | none => pure none
  | some m => do
    let predates := phaseMismatch ("migId=" ++ migId ++ " predates durable topology schema identity")
    let schema ← .gets fun db => db.schemaIdentities.find? migId
    let i ← .ofOption schema predates
    .require (ValidSchema i.schemaVersion i.schemaEpoch i.schemaDigest) predates
    let work ← .gets fun db => db.workCursors.find? migId
    pure (some
      { m with
        schemaVersion := i.schemaVersion, schemaEpoch := i.schemaEpoch
        schemaDigest := i.schemaDigest
        workTurn := (work.map (·.turn)).getD 0
        bulkTableIndex := (work.map (·.bulkTableIndex)).getD 0 })

theorem readMigration_returns {migId : String} {db db' : ResharderDb} {o : Option MigrationState}
    (h : (readMigration migId).Returns db o db') :
    db = db' ∧ match o with
      | none => ∀ r ∈ db.migrations, r.migId ≠ migId
      | some st => ∃ r ∈ db.migrations, r.migId = migId ∧ r.toSplitIdentity = st.toSplitIdentity ∧
          r.phase = st.phase ∧ ∃ i ∈ db.schemaIdentities, i.migId = migId ∧
            i.schemaVersion = st.schemaVersion ∧ i.schemaEpoch = st.schemaEpoch ∧
            i.schemaDigest = st.schemaDigest := by
  simp only [readMigration, Tx.bind_returns, Tx.gets_returns] at h
  obtain ⟨_, _, ⟨rfl, rfl⟩, h⟩ := h
  split at h
  · rename_i hn
    obtain ⟨rfl, rfl⟩ := Tx.pure_returns.mp h
    exact ⟨rfl, Table.find?_eq_none.mp hn⟩
  · rename_i m hm
    obtain ⟨hmem, hid⟩ := Table.find?_eq_some.mp hm
    simp only [Tx.bind_returns, Tx.gets_returns, Tx.ofOption_returns, Tx.require_returns,
      Tx.pure_returns] at h
    obtain ⟨_, _, ⟨rfl, rfl⟩, i, _, ⟨hi, rfl⟩, _, _, ⟨-, rfl⟩, _, _, ⟨rfl, rfl⟩, rfl, rfl⟩ := h
    obtain ⟨himem, hiid⟩ := Table.find?_eq_some.mp hi
    exact ⟨rfl, m, hmem, hid, rfl, rfl, i, himem, hiid, rfl, rfl, rfl⟩

theorem readOnly_readMigration (migId : String) : (readMigration migId).ReadOnly := by
  refine (Tx.readOnly_gets _).bind fun row => ?_
  cases row with
  | none => exact Tx.readOnly_pure _
  | some m =>
    exact (Tx.readOnly_gets _).bind fun _ => (Tx.readOnly_ofOption _ _).bind fun _ =>
      (Tx.readOnly_require _ _).bind fun _ => (Tx.readOnly_gets _).bind fun _ =>
        Tx.readOnly_pure _

end Chardb.Resharder
