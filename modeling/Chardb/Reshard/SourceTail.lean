import Chardb.Reshard.SplitLog

/-!
# The source side of a tail

A source begins capture, acknowledges the log as the Resharder has it, stops capture to drain, and
finishes or aborts. `initializeSplitLogAccounting` counts the log again when the shard restarts.
-/

namespace Chardb.Reshard

open Chardb.Lib

/-! ## Triggers -/

/-- The uninstall statements of the capture triggers of a migration. -/
def uninstallTriggers (migId : String) (tables : List TableSpec) : SourceTx Unit :=
  .modify fun db =>
    { db with
      triggers := db.triggers.filter fun x =>
        !(decide (x.1 = migId) && (tables.map TableSpec.name).contains x.2.name) }

/-- The install statements: `CREATE TRIGGER IF NOT EXISTS` after the uninstall. -/
def installTriggers (migId : String) (tables : List TableSpec) : SourceTx Unit := do
  uninstallTriggers migId tables
  .modify fun db => { db with triggers := db.triggers ++ tables.map fun t => (migId, t) }

/-- `assertNoUnexpectedReshardTriggers`, with the triggers of the migration itself allowed. -/
def assertNoUnexpectedReshardTriggers (migId : String) (tables : List TableSpec) : SourceTx Unit := do
  let unexpected ← .gets fun db => db.triggers.find? fun x =>
    decide (x.1 ≠ migId) && (tables.map TableSpec.name).contains x.2.name
  .require (unexpected.isNone = true)
    (.cdb
      { code := .unsupportedFeature
        message := "online resharding cannot move table while trigger is installed"
        hint := some
          "remove application triggers or wait for an explicit trigger side-effect transfer protocol" })

/-! ## Begin, stop, finish, abort -/

/-- The split row that a source begins with. -/
def sourceRow (migId : String) (lo hi nowMs : Int) : SplitStateRow where
  migId
  rangeLo := lo
  rangeHi := hi
  role := .source
  capture := true
  updatedAt := nowMs

def updateSplit (migId : String) (f : SplitStateRow → SplitStateRow) : ControlTx Nat :=
  onSplits (Table.update (fun r => decide (r.migId = migId)) f (.constraint "_chardb_split_state"))

/-- `capture = 1` and the triggers of the moved tables. -/
def enableCapture (identity : CdbReshardSplitIdentity) (nowMs : Int) : SourceTx Unit := do
  let _ ← onControl (updateSplit identity.migId fun r => { r with capture := true, updatedAt := nowMs })
  installTriggers identity.migId identity.tables

/-- The split row of the source is the one of this identity and is not drained. -/
def requireSourceSplit (identity : CdbReshardSplitIdentity) : SourceTx SplitStateRow := do
  let found ← .gets (SourceDb.split? · identity.migId)
  .ofOption
    (found.filter fun r => r.rangeLo = identity.rangeLo && r.rangeHi = identity.rangeHi &&
      r.role = .source && !r.drained)
    (phaseMismatch "source split id belongs to a different immutable identity")

def legacyHistory : Thrown :=
  .cdb
    { code := .reshardPhaseMismatch
      message := "retained mutation replay history predates durable vshard placement"
      hint := some
        "wait for the configured mutation deduplication horizon before resharding this Cdb" }

/-- `beginReshardSource`, as far as the split log goes. -/
def beginReshardSource (schema : CdbSchema) (identity : CdbReshardSplitIdentity) (nowMs : Int) :
    SourceTx Unit := .transactionSync do
  onControl (assertReshardBeginAllowed identity.migId identity.rangeLo identity.rangeHi .source)
  onControl (onIdentities (bind schema { identity with role := .source } nowMs))
  assertNoUnexpectedReshardTriggers identity.migId identity.tables
  let legacy ← .gets fun db => db.opLog.rows.select fun r => r.placementVshard.isNone
  .require (legacy.isEmpty = true) legacyHistory
  let _ ← onControl (onSplits (Table.insertIgnore
    (sourceRow identity.migId identity.rangeLo identity.rangeHi nowMs)))
  let state ← requireSourceSplit identity
  if state.drainStarted then pure () else enableCapture identity nowMs

/-- The end of `stopReshardCapture`. -/
def startDrain (migId : String) (state : SplitStateRow) (nowMs : Int) : SourceTx Bool :=
  if state.drainStarted then pure false
  else do
    let changed ← onControl <| onSplits <| Table.update
      (fun r => decide (r.migId = migId) && (r.role = .source && !r.drained && !r.drainStarted))
      (fun r =>
        { r with
          capture := false, drainStarted := true, captureTxId := none, captureTxRows := 0
          captureTxBytes := 0, updatedAt := nowMs })
      (.constraint "_chardb_split_state")
    .require (changed = 1) (invariantError "source drain state changed concurrently")
    pure true

/-- `stopReshardCapture`. -/
def stopReshardCapture (schema : CdbSchema) (identity : CdbReshardSplitIdentity) (nowMs : Int) :
    SourceTx Bool := .transactionSync do
  let _ ← onControl (assertReshardMovement schema
    { migId := identity.migId, role := .source, range := some (identity.rangeLo, identity.rangeHi)
      tables := some identity.tables })
  let found ← .gets (SourceDb.split? · identity.migId)
  let state ← .ofOption (found.filter fun r => r.role = .source && !r.drained)
    (phaseMismatch "source split cannot begin drain")
  uninstallTriggers identity.migId identity.tables
  startDrain identity.migId state nowMs

/-- What finish and abort take away from a source. -/
def clearSource (identity : CdbReshardSplitIdentity) (nowMs : Int) : SourceTx Unit := do
  uninstallTriggers identity.migId identity.tables
  let _ ← onControl (updateSplit identity.migId fun r =>
    { r with
      capture := false, drained := true, splitLogRows := 0, splitLogBytes := 0, updatedAt := nowMs })
  .modify fun db => { db with log := db.log.deleteWhere fun r => r.migId = identity.migId }

def clearSourceOnce (identity : CdbReshardSplitIdentity) (state : SplitStateRow) (nowMs : Int) :
    SourceTx Unit :=
  if state.drained then pure () else clearSource identity nowMs

/-- `finishReshardSource`. -/
def finishReshardSource (schema : CdbSchema) (identity : CdbReshardSplitIdentity) (nowMs : Int) :
    SourceTx Unit := .transactionSync do
  let _ ← onControl (onIdentities (assertCleanupIfBound schema { identity with role := .source }))
  let found ← onControl
    (readExactSplitState identity.migId identity.rangeLo identity.rangeHi .source false)
  let state ← .ofOption found (invariantError "source split state is missing at success")
  clearSourceOnce identity state nowMs

/-- `abortReshardSource`. -/
def abortReshardSource (schema : CdbSchema) (identity : CdbReshardSplitIdentity) (nowMs : Int) :
    SourceTx Unit := .transactionSync do
  let bound ← onControl (onIdentities (assertCleanupIfBound schema { identity with role := .source }))
  let found ← onControl
    (readExactSplitState identity.migId identity.rangeLo identity.rangeHi .source (!bound))
  match found with
  | none =>
    onControl (persistReshardAbortTombstone identity.migId identity.rangeLo identity.rangeHi .source
      none nowMs)
  | some state => clearSourceOnce identity state nowMs

/-! ## Acknowledgement -/

structure AckTailResult where
  pruned : Int
  ackedLsn : Int
  deriving DecidableEq

def accountingInvalid : Thrown := invariantError "tail acknowledgement accounting is invalid"

def ackStateChanged : Thrown := invariantError "tail acknowledgement state changed"

/-- The rows that an acknowledgement prunes. -/
def SourceDb.acknowledged (db : SourceDb) (migId : String) (throughLsn : Int) : List SplitLogRow :=
  db.log.select fun r => r.migId = migId && r.lsn ≤ throughLsn

def assertReshardSourceTransactionId {σ : Type} (value : Int) : Tx Thrown σ Unit :=
  .require (IsSafeInteger value ∧ value ≠ 0)
    (invariantError "reshard source transaction identity is invalid")

/-- The acknowledgement ends at the end of a transaction. -/
def assertAckEndpoint (migId : String) (throughLsn : Int) : SourceTx Unit := do
  let found ← .gets fun db => (db.log.select fun r => r.migId = migId && r.lsn = throughLsn).head?
  let endpoint ← .ofOption found (invariantError "tail acknowledgement endpoint is missing")
  assertReshardSourceTransactionId endpoint.sourceTxId
  let rest ← .gets fun db => db.log.select fun r =>
    r.migId = migId && r.sourceTxId = endpoint.sourceTxId && throughLsn < r.lsn
  .require (rest.isEmpty = true)
    (invariantError "tail acknowledgement splits a source transaction")

/-- Delete the acknowledged rows and take them off the account. -/
def pruneTail (migId : String) (throughLsn : Int) (state : SplitStateRow) (rows : List SplitLogRow)
    (nowMs : Int) : SourceTx Unit := do
  .modify fun db =>
    { db with log := db.log.deleteWhere fun r => r.migId = migId && r.lsn ≤ throughLsn }
  let changed ← onControl <| onSplits <| Table.update
    (fun r => decide (r.migId = migId) && (r.role = .source && r.ackedLsn = state.ackedLsn &&
      (rows.length : Int) ≤ r.splitLogRows && totalBytes rows ≤ r.splitLogBytes))
    (fun r =>
      { r with
        ackedLsn := throughLsn
        splitLogRows := r.splitLogRows - rows.length
        splitLogBytes := r.splitLogBytes - totalBytes rows
        updatedAt := nowMs })
    (.constraint "_chardb_split_state")
  .require (changed = 1) ackStateChanged

/-- The counters that an acknowledgement finds. -/
def checkAckStats (state : SplitStateRow) (rows : List SplitLogRow) : Prop :=
  (IsSafeInteger rows.length ∧ IsSafeInteger (totalBytes rows)) ∧
    (1 ≤ (rows.length : Int) ∧ (rows.length : Int) ≤ state.splitLogRows) ∧
      (0 ≤ totalBytes rows ∧ totalBytes rows ≤ state.splitLogBytes)

instance (state : SplitStateRow) (rows : List SplitLogRow) : Decidable (checkAckStats state rows) :=
  inferInstanceAs (Decidable (_ ∧ _))

/-- An acknowledgement beyond the last one. -/
def advanceTailAck (migId : String) (throughLsn : Int) (state : SplitStateRow) (nowMs : Int) :
    SourceTx AckTailResult := do
  assertAckEndpoint migId throughLsn
  let rows ← .gets fun db => db.acknowledged migId throughLsn
  .require (checkAckStats state rows) accountingInvalid
  pruneTail migId throughLsn state rows nowMs
  pure ⟨rows.length, throughLsn⟩

/-- `ackTail`. -/
def ackTail (schema : CdbSchema) (migId : String) (throughLsn nowMs : Int) : SourceTx AckTailResult := do
  .require (IsCounter throughLsn) (invalidArgs "reshard tail acknowledgement is invalid")
  .transactionSync do
    let _ ← onControl (assertReshardMovement schema { migId, role := .source })
    let found ← .gets (SourceDb.split? · migId)
    let state ← .ofOption (found.filter fun r => r.role = .source)
      (invariantError "source split state is missing")
    if throughLsn ≤ state.ackedLsn then pure ⟨0, state.ackedLsn⟩
    else advanceTailAck migId throughLsn state nowMs

/-! ## Restart -/

def recoveryByteAccountingInvalid : Thrown := invariantError "source split log byte accounting is invalid"

/-- The loop of `initializeSplitLogAccounting` over the rows of the active split. -/
def recountBytes (migId : String) (bytes : Int) : List SplitLogRow → Except Thrown Int
  | [] => .ok bytes
  | row :: rest =>
    if ¬ (IsSafeInteger row.accountedBytes ∧ 0 ≤ row.accountedBytes) then
      .error recoveryByteAccountingInvalid
    else if ¬ (IsSafeInteger (bytes + row.accountedBytes) ∧
        bytes + row.accountedBytes ≤ CDB_SPLIT_LOG_MAX_BYTES) then
      .error (phaseMismatch ("source split log " ++ migId ++ " exceeds its " ++
        toString CDB_SPLIT_LOG_MAX_BYTES ++ "-byte recovery limit"))
    else recountBytes migId (bytes + row.accountedBytes) rest

/-- The recovery of the active split. -/
def recountSplit (migId : String) : SourceTx Unit := do
  let rows ← .gets (SourceDb.retained · migId)
  .require ((rows.length : Int) ≤ CDB_SPLIT_LOG_MAX_ROWS)
    (phaseMismatch ("source split log " ++ migId ++ " exceeds its " ++
      toString CDB_SPLIT_LOG_MAX_ROWS ++ "-row recovery limit"))
  let bytes ← .ofExcept (recountBytes migId 0 rows)
  let _ ← onControl <| onSplits <| Table.update
    (fun r => decide (r.migId = migId) && !r.drained)
    (fun r => { r with splitLogRows := rows.length, splitLogBytes := bytes })
    (.constraint "_chardb_split_state")
  pure ()

def moreThanOneActive : Thrown :=
  phaseMismatch "source shard contains more than one active split during accounting recovery"

/-- The recovery of the splits that are active: at most one may be. -/
def recountActive : List SplitStateRow → SourceTx Unit
  | [] => pure ()
  | [state] => recountSplit state.migId
  | _ => .throw moreThanOneActive

/-- `initializeSplitLogAccounting`, on tables that have their columns, in its transaction. -/
def initializeSplitLogAccounting : SourceTx Unit := .transactionSync do
  let _ ← onControl <| onSplits <| Table.update (fun r => r.drained)
    (fun r => { r with splitLogRows := 0, splitLogBytes := 0 }) (.constraint "_chardb_split_state")
  let active ← .gets fun db =>
    db.control.splits.select SplitStateRow.active
  recountActive active

end Chardb.Reshard
