import Chardb.OpLog.Replay
import Chardb.Reshard.SplitControl

/-!
# The life of a move on a shard

What a shard does for the moves it takes part in, as far as the op-log goes: as a source it begins,
hands out its captured outcomes and finishes or aborts; as a destination it prepares ownership,
begins, applies outcomes, starts to serve and finishes, or it starts an abort and cleans up batch by
batch.
-/

namespace Chardb.Moves

open Chardb.Lib Chardb.Reshard

variable {δ α : Type}

/-- A shard: its op-log, split and domain tables, and the identities of its moves. -/
structure ShardDb (δ : Type) where
  identities : IdentityTable
  cdb : OpLog.Cdb δ

def ShardDb.empty (domain : δ) : ShardDb δ := ⟨.empty, .empty domain⟩

abbrev ShardTx (δ : Type) := Tx Thrown (ShardDb δ)

def ShardDb.control (db : ShardDb δ) : SplitControl := ⟨db.identities, db.cdb.domain.split.splitState⟩

def ShardDb.setControl (db : ShardDb δ) (c : SplitControl) : ShardDb δ where
  identities := c.identities
  cdb := { db.cdb with domain := { db.cdb.domain with
    split := { db.cdb.domain.split with splitState := c.splits } } }

def onControl : ControlTx α → ShardTx δ α := .zoom ShardDb.control ShardDb.setControl

def onCdb : Tx Thrown (OpLog.Cdb δ) α → ShardTx δ α := .zoom ShardDb.cdb fun db cdb => { db with cdb }

def onSplit (x : OpLog.SplitTx α) : ShardTx δ α := onCdb (OpLog.onSplit x)

/-- The range of a migration. -/
def move (identity : CdbReshardSplitIdentity) : OpLog.Move :=
  ⟨identity.migId, identity.rangeLo, identity.rangeHi⟩

def updateSplit (p : SplitStateRow → Bool) (f : SplitStateRow → SplitStateRow) : ControlTx Nat :=
  onSplits (Table.update p f (.constraint "_chardb_split_state"))

/-- The row is the destination row of a migration, in its range. -/
def owned (identity : CdbReshardSplitIdentity) (r : SplitStateRow) : Bool :=
  r.role = .dest && r.rangeLo = identity.rangeLo && r.rangeHi = identity.rangeHi

variable (schema : CdbSchema) (identity : CdbReshardSplitIdentity)

/-! ## The source -/

/-- `beginReshardSource`, as far as the op-log goes. -/
def beginReshardSource (nowMs : Int) : ShardTx δ Unit := .transactionSync do
  onControl (assertReshardBeginAllowed identity.migId identity.rangeLo identity.rangeHi .source)
  onControl (onIdentities (bind schema { identity with role := .source } nowMs))
  onCdb (OpLog.beginReshardSource (move identity) nowMs)

variable (ν : Type) [JsNumber ν] in
/-- The call `readSplitOpLogBatch`. -/
def readSplitOpLogBatch (migId : String) (afterLsn nowMs : Int) : ShardTx δ OpLog.SplitOpLogBatch :=
  .transactionSync do
    let _ ← onControl (assertReshardMovement schema { migId, role := .source })
    onCdb (OpLog.readSplitOpLogBatch ν migId afterLsn OpLog.OPLOG_BATCH nowMs)

/-- The call `ackSplitOpLog`. -/
def ackSplitOpLog (migId : String) (throughLsn nowMs : Int) : ShardTx δ Unit := .transactionSync do
  let _ ← onControl (assertReshardMovement schema { migId, role := .source })
  onSplit (OpLog.ackSplitOpLog migId throughLsn nowMs)

/-- `finalizeSplitOpLogSource`. -/
def finalizeSplitOpLogSource (migId : String) : OpLog.SplitTx Unit := do
  let _ ← OpLog.onKeys (Table.delete fun r => r.migId = migId)
  let _ ← OpLog.onSplitOplog (Table.delete fun r => r.migId = migId)
  let _ ← OpLog.onAccounting (Table.delete fun r => r.migId = migId)
  pure ()

/-- What finish and abort take away from a source. -/
def clearSource (state : SplitStateRow) (nowMs : Int) : ShardTx δ Unit :=
  if state.drained then pure ()
  else do
    let _ ← onControl (updateSplit (fun r => r.migId = identity.migId) fun r =>
      { r with
        capture := false, drained := true, splitLogRows := 0, splitLogBytes := 0, updatedAt := nowMs })
    onSplit (finalizeSplitOpLogSource identity.migId)

/-- `finishReshardSource`. -/
def finishReshardSource (nowMs : Int) : ShardTx δ Unit := .transactionSync do
  let _ ← onControl (onIdentities (assertCleanupIfBound schema { identity with role := .source }))
  let found ← onControl
    (readExactSplitState identity.migId identity.rangeLo identity.rangeHi .source false)
  let state ← .ofOption found (invariantError "source split state is missing at success")
  clearSource identity state nowMs

/-- `abortReshardSource`. -/
def abortReshardSource (nowMs : Int) : ShardTx δ Unit := .transactionSync do
  let bound ← onControl (onIdentities (assertCleanupIfBound schema { identity with role := .source }))
  let found ← onControl
    (readExactSplitState identity.migId identity.rangeLo identity.rangeHi .source (!bound))
  match found with
  | none =>
    onControl (persistReshardAbortTombstone identity.migId identity.rangeLo identity.rangeHi .source
      none nowMs)
  | some state => clearSource identity state nowMs

/-! ## The destination -/

def assertDestinationGeneration {σ : Type} (generation : Int) : Tx Thrown σ Unit :=
  .require (IsSafeInteger generation ∧ 1 ≤ generation)
    (invalidArgs "destination generation must be a positive integer")

structure DestOwnership where
  prepared : Bool
  serving : Bool
  deriving DecidableEq

/-- The upgrade of a destination row from before generations: whether there was one. -/
def upgradeOwnership (generation nowMs : Int) : ControlTx Bool := do
  let found ← .gets (SplitControl.split? · identity.migId)
  if found.any (fun r => owned identity r && r.destinationGeneration.isNone &&
      !r.destinationServing && !r.abortStarted) then do
    let changes ← updateSplit
      (fun r => decide (r.migId = identity.migId) && (r.role = .dest &&
        (r.destinationGeneration.isNone && !r.destinationServing && !r.abortStarted)))
      fun r => { r with destinationGeneration := some generation, updatedAt := nowMs }
    .require (changes = 1) (invariantError "destination ownership upgrade changed concurrently")
    pure true
  else pure false

/-- `prepareReshardDestOwnership`. -/
def prepareReshardDestOwnership (generation nowMs : Int) : ShardTx δ DestOwnership := do
  assertCdbReshardRangeIdentity identity.migId identity.rangeLo identity.rangeHi
  assertDestinationGeneration generation
  .transactionSync <| onControl do
    assertCdbSplitHistoryCapacity identity.migId
    let inserted ← onSplits (Table.insertIgnore
      { migId := identity.migId, rangeLo := identity.rangeLo, rangeHi := identity.rangeHi, role := .dest
        destinationGeneration := some generation, updatedAt := nowMs })
    let upgraded ← upgradeOwnership identity generation nowMs
    let found ← .gets (SplitControl.split? · identity.migId)
    .require (found.any (fun r => owned identity r && r.destinationGeneration = some generation &&
        !r.abortStarted) = true)
      (phaseMismatch "destination ownership preparation conflicts with its immutable split identity")
    pure ⟨inserted = 1 || upgraded, found.any (·.destinationServing)⟩

/-- `beginReshardDest`, as far as the op-log goes. -/
def beginReshardDest (generation nowMs : Int) : ShardTx δ Unit := .transactionSync do
  onControl (assertReshardBeginAllowed identity.migId identity.rangeLo identity.rangeHi .dest)
  onControl (onIdentities (bind schema { identity with role := .dest } nowMs))
  onCdb (OpLog.beginReshardDest (move identity) generation nowMs)

variable (ν : Type) [JsNumber ν] in
/-- The call `applySplitOpLogBatch`. -/
def applySplitOpLogBatch (migId : String) (lo hi : Int) (entries : List OpLog.SplitOpLogEntry)
    (nowMs : Int) : ShardTx δ OpLog.SplitOpLogApplyResult := .transactionSync do
  let _ ← onControl (assertReshardMovement schema { migId, role := .dest, range := some (lo, hi) })
  onCdb (OpLog.applySplitOpLogBatch ν migId lo hi entries nowMs)

/-- `activateReshardDestServing`; `admitted` is what the checks of other tables answer. -/
def activateReshardDestServing (admitted : Except Thrown Unit) (generation nowMs : Int) :
    ShardTx δ Bool := .transactionSync <| onControl do
  let _ ← onIdentities (assertCleanupIfBound schema { identity with role := .dest })
  let found ← .gets (SplitControl.split? · identity.migId)
  let state ← .ofOption (found.filter fun r => r.role = .dest &&
      decide (r.destinationGeneration = some generation))
    (phaseMismatch "destination serving activation does not match its prepared routing generation")
  .require (state.abortStarted = false) (phaseMismatch "aborted destination cannot become serving")
  .ofExcept admitted
  if state.destinationServing then pure false
  else do
    let changes ← updateSplit
      (fun r => decide (r.migId = identity.migId) && (r.role = .dest && (!r.destinationServing &&
        !r.abortStarted)))
      fun r => { r with destinationServing := true, updatedAt := nowMs }
    .require (changes = 1) (invariantError "destination serving activation changed concurrently")
    pure true

/-- The abort of a destination that was prepared and never bound. -/
def abortPrepared (generation nowMs : Int) (prepared : SplitStateRow) : ControlTx Bool := do
  .require ((owned identity prepared && decide (prepared.destinationGeneration = some generation) &&
      !prepared.destinationServing) = true)
    (phaseMismatch "unbound destination abort does not match prepared ownership")
  if prepared.drained && prepared.abortStarted then pure false
  else do
    let changes ← updateSplit
      (fun r => decide (r.migId = identity.migId) && (r.role = .dest && (!r.destinationServing &&
        (!r.drained && !r.abortStarted))))
      fun r =>
        { r with
          abortStarted := true, capture := false, bulkDone := true, drained := true, updatedAt := nowMs }
    .require (changes = 1) (invariantError "prepared destination abort changed concurrently")
    pure true

/-- The abort of a destination that was bound. -/
def abortBound (nowMs : Int) (state : SplitStateRow) : ControlTx Bool := do
  .require (state.destinationServing = false)
    (phaseMismatch "serving destination cannot enter pre-cutover abort cleanup")
  if state.drained || state.abortStarted then pure false
  else do
    let changes ← updateSplit
      (fun r => decide (r.migId = identity.migId) && (r.role = .dest && (!r.drained && !r.abortStarted)))
      fun r => { r with abortStarted := true, capture := false, bulkDone := true, updatedAt := nowMs }
    .require (changes = 1) (invariantError "destination abort fence changed concurrently")
    pure true

/-- The split of a destination abort, once its identity was checked. -/
def startAbort (generation nowMs : Int) (bound : Bool) : ControlTx Bool := do
  let found ← readExactSplitState identity.migId identity.rangeLo identity.rangeHi .dest (!bound)
  match found with
  | none => do
    persistReshardAbortTombstone identity.migId identity.rangeLo identity.rangeHi .dest (some generation)
      nowMs
    pure false
  | some state => abortBound identity nowMs state

/-- `beginReshardDestAbort`. -/
def beginReshardDestAbort (generation nowMs : Int) : ShardTx δ Bool := do
  assertCdbReshardRangeIdentity identity.migId identity.rangeLo identity.rangeHi
  assertDestinationGeneration generation
  .transactionSync <| onControl do
    let bound ← onIdentities (assertCleanupIfBound schema { identity with role := .dest })
    let prepared ← .gets (SplitControl.split? · identity.migId)
    match prepared.filter fun _ => !bound with
    | some prepared => abortPrepared identity generation nowMs prepared
    | none => startAbort identity generation nowMs bound

/-- The migration has inserted the row. -/
def insertedBy (applied : OpLog.AppliedTable) (migId : String) (r : OpLog.OpLogRow) : Bool :=
  (applied.find? (migId, r.principalId, r.mutId)).any (·.inserted)

/-- `finalizeSplitOpLogDestination`. -/
def finalizeSplitOpLogDestination (migId : String) (abort : Bool) : Tx Thrown (OpLog.Cdb δ) Unit := do
  let applied ← .gets fun db => db.domain.split.applied
  if abort then
    .modify fun db =>
      { db with opLog := { db.opLog with rows := db.opLog.rows.deleteWhere (insertedBy applied migId) } }
  else pure ()
  let _ ← OpLog.onSplit (OpLog.onApplied (Table.delete fun r => r.migId = migId))
  let _ ← OpLog.onSplit (OpLog.onCursors (Table.delete fun r => r.migId = migId))
  pure ()

/-- What finish and abort take away from a destination. -/
def clearDest (abort : Bool) (f : SplitStateRow → SplitStateRow) : ShardTx δ Unit := do
  onCdb (finalizeSplitOpLogDestination identity.migId abort)
  let _ ← onSplit (OpLog.onKeys (Table.delete fun r => r.migId = identity.migId))
  let _ ← onSplit (OpLog.onSplitOplog (Table.delete fun r => r.migId = identity.migId))
  let _ ← onControl (updateSplit (fun r => r.migId = identity.migId) f)
  pure ()

/-- `abortReshardDestBatch`: whether it is done; `page` is the batch of the next table that is not. -/
def abortReshardDestBatch (page : Option (Tx Thrown δ Unit)) (nowMs : Int) : ShardTx δ Bool :=
  .transactionSync do
    let bound ← onControl (onIdentities (assertCleanupIfBound schema { identity with role := .dest }))
    let found ← onControl
      (readExactSplitState identity.migId identity.rangeLo identity.rangeHi .dest (!bound))
    let state ← .ofOption found
      (phaseMismatch "destination abort cleanup cannot run before its abort fence starts")
    if state.drained then pure true
    else do
      .require (state.abortStarted = true)
        (phaseMismatch "destination abort fence must start before cleanup")
      match page with
      | some page => do
        onCdb (OpLog.onDomain (OpLog.onTables page))
        pure false
      | none => do
        clearDest identity true fun r =>
          { r with
            capture := false, abortStarted := true, drained := true, splitLogRows := 0
            splitLogBytes := 0, inboxRows := 0, inboxBytes := 0, inboxClosed := true, updatedAt := nowMs }
        pure true

/-- `finishReshardDest`. -/
def finishReshardDest (nowMs : Int) : ShardTx δ Unit := .transactionSync do
  let _ ← onControl (onIdentities (assertCleanupIfBound schema { identity with role := .dest }))
  let found ← onControl
    (readExactSplitState identity.migId identity.rangeLo identity.rangeHi .dest false)
  let state ← .ofOption found (invariantError "destination split state is missing at success")
  .require (state.abortStarted = false)
    (phaseMismatch "destination split cannot finish after abort started")
  .require (state.destinationServing = true)
    (phaseMismatch "destination split cannot finish before Catalog cutover activation")
  clearDest identity false fun r =>
    { r with
      capture := false, drained := true, inboxRows := 0, inboxBytes := 0, inboxClosed := true
      updatedAt := nowMs }

end Chardb.Moves
