import Chardb.OpLog.Retention
import Chardb.OpLog.SplitEffects

/-!
# Moving the replay ledger

A source and a fresh destination while one migration moves a range: mutations on the
source with their capture, the begins of both sides, retention, and the runs of
`runOpLogReplay` with the calls they send. A call that was sent is delivered any number of
times, a reply may be lost, and a run may crash between any two of its steps.
-/

namespace Chardb.OpLog

open Chardb.Lib Chardb.Reshard

variable {δ : Type} {ν : Type} [JsNumber ν]

/-- The migration of a world, and the range it moves. -/
structure Move where
  migId : String
  rangeLo : Int
  rangeHi : Int
  deriving DecidableEq

/-! ## Mutations -/

variable (δ ν) in
/-- A mutation: the call, what its commit enqueues for the tables it wrote, and the time of its
capture. -/
structure MutationRequest extends RunWrappedMutationArgs δ ν where
  onWriteSet : Tx Thrown δ Unit
  captureMs : Int

def onTables {α : Type} : Tx Thrown δ α → Tx Thrown (CdbRest δ) α :=
  .zoom CdbRest.domain fun rest domain => { rest with domain }

/-- The call, run on a shard: its handler works on the domain tables. -/
def RunWrappedMutationArgs.onCdb (args : RunWrappedMutationArgs δ ν) :
    RunWrappedMutationArgs (CdbRest δ) ν :=
  { args with run := onTables args.run }

/-- The placement of a row or a call lies in the range. -/
def Move.covers (m : Move) (placement : Option Int) : Bool :=
  placement.any fun v => m.rangeLo ≤ v && v ≤ m.rangeHi

section
variable (sha256 : ByteArray → ByteArray) (codec : PayloadCodec) (m : Move)

/-- `captureSplitOutcome`: a call without placement is not captured. -/
def captureSplitOutcome (req : MutationRequest δ ν) : Tx Thrown (Cdb δ) Unit :=
  match req.placementVshard with
  | none => pure ()
  | some vshard => do
    let _ ← captureSplitOpLogOutcome ν req.principalId req.mutId vshard req.captureMs
    pure ()

/-- The hooks of a mutation that ran. -/
def afterRun (req : MutationRequest δ ν) : Tx Thrown (Cdb δ) Unit := do
  captureSplitOutcome req
  onDomain (onTables req.onWriteSet)

/-- `executeAtomicMutation`; the fence refuses writes to the moved range. -/
def executeAtomicMutation (fenced : Bool) (req : MutationRequest δ ν) :
    Tx Thrown (Cdb δ) (RunWrappedMutationResult ν) := .transactionSync do
  .require (¬ (fenced = true ∧ m.covers req.placementVshard = true))
    (staleEpoch "vshard is fenced on its source")
  let result ← runWrappedMutation sha256 codec req.onCdb
  if result.ran then do
    afterRun req
    pure result
  else pure result

/-! ## Begin -/

/-- `assertReshardBeginAllowed`. -/
def assertReshardBeginAllowed (role : SplitRole) : SplitTx Unit := do
  let state ← .gets fun db => db.splitState.find? m.migId
  .require (state.all fun r => r.role = role && r.rangeLo = m.rangeLo && r.rangeHi = m.rangeHi &&
      !r.drained && !r.abortStarted)
    (phaseMismatch (role.text ++
      " split id belongs to a different immutable identity or a canceled split"))

/-- The split row of the migration. -/
def requireSplitState (role : SplitRole) (ok : SplitStateRow → Bool) : SplitTx SplitStateRow := do
  let found ← .gets fun db => db.splitState.find? m.migId
  .ofOption (found.filter fun r => r.role = role && r.rangeLo = m.rangeLo && r.rangeHi = m.rangeHi &&
      !r.drained && ok r)
    (phaseMismatch (role.text ++ " split id belongs to a different immutable identity"))

def legacyHistory : Thrown :=
  .cdb
    { code := .reshardPhaseMismatch
      message := "retained mutation replay history predates durable vshard placement"
      hint := some
        "wait for the configured mutation deduplication horizon before resharding this Cdb" }

/-- Capture is on: `capture = 1`, and the seed of the range. -/
def enableCapture (nowMs : Int) : Tx Thrown (Cdb δ) Unit := do
  let _ ← onSplit (onSplitState (Table.update (fun r => r.migId = m.migId)
    (fun r => { r with capture := true, updatedAt := nowMs }) (.constraint "_chardb_split_state")))
  seedSplitOpLogRange m.migId m.rangeLo m.rangeHi nowMs

/-- The split row a source begins with. -/
def Move.sourceRow (nowMs : Int) : SplitStateRow where
  migId := m.migId
  rangeLo := m.rangeLo
  rangeHi := m.rangeHi
  role := .source
  capture := true
  updatedAt := nowMs

/-- `beginReshardSource`, as far as the op-log goes. -/
def beginReshardSource (nowMs : Int) : Tx Thrown (Cdb δ) Unit := .transactionSync do
  onSplit (assertReshardBeginAllowed m .source)
  let legacy ← .gets fun db => db.opLog.rows.select fun r => r.placementVshard.isNone
  .require (legacy.isEmpty = true) legacyHistory
  let _ ← onSplit (onSplitState (Table.insertIgnore (m.sourceRow nowMs)))
  let state ← onSplit (requireSplitState m .source fun _ => true)
  if state.drainStarted then pure () else enableCapture m nowMs

/-- `beginReshardDest`, as far as the op-log goes. -/
def beginReshardDest (destinationGeneration nowMs : Int) : Tx Thrown (Cdb δ) Unit :=
  .transactionSync <| onSplit do
    assertReshardBeginAllowed m .dest
    let _ ← onSplitState (Table.insertIgnore
      { migId := m.migId, rangeLo := m.rangeLo, rangeHi := m.rangeHi, role := .dest
        destinationGeneration := some destinationGeneration, updatedAt := nowMs })
    let _ ← requireSplitState m .dest fun r =>
      decide (r.destinationGeneration = some destinationGeneration) && !r.destinationServing
    beginSplitOpLogDestination m.migId m.rangeLo m.rangeHi nowMs

/-! ## The calls of a replay -/

/-- `assertReshardMovement`. -/
def assertReshardMovement (role : SplitRole) : SplitTx Unit := do
  let split ← .gets fun db => db.splitState.find? m.migId
  .require (split.any fun r => r.role = role && r.rangeLo = m.rangeLo && r.rangeHi = m.rangeHi &&
      !r.drained && !r.abortStarted)
    (phaseMismatch ("migration " ++ m.migId ++ " is no longer active on its " ++ role.text ++ " Cdb"))

def OPLOG_BATCH : Int := 64

/-- The call `ackSplitOpLog`. -/
def ackCall (throughLsn nowMs : Int) : Tx Thrown (Cdb δ) Unit := .transactionSync <| onSplit do
  assertReshardMovement m .source
  ackSplitOpLog m.migId throughLsn nowMs

variable (ν) in
/-- The call `readSplitOpLogBatch`. -/
def readCall (afterLsn nowMs : Int) : Tx Thrown (Cdb δ) SplitOpLogBatch := .transactionSync do
  onSplit (assertReshardMovement m .source)
  readSplitOpLogBatch ν m.migId afterLsn OPLOG_BATCH nowMs

variable (ν) in
/-- The call `applySplitOpLogBatch`. -/
def applyCall (entries : List SplitOpLogEntry) (nowMs : Int) :
    Tx Thrown (Cdb δ) SplitOpLogApplyResult := .transactionSync do
  onSplit (assertReshardMovement m .dest)
  applySplitOpLogBatch ν m.migId m.rangeLo m.rangeHi entries nowMs

/-! ## Worlds -/

/-- A call the Resharder has sent. -/
inductive Call
  | ack (throughLsn : Int)
  | read (afterLsn : Int)
  | apply (entries : List SplitOpLogEntry)
  deriving DecidableEq

/-- What a call answered. -/
inductive Reply
  | acked (throughLsn : Int)
  | batch (afterLsn : Int) (b : SplitOpLogBatch)
  | applied (entries : List SplitOpLogEntry) (result : SplitOpLogApplyResult)
  deriving DecidableEq

/-- Where a run of `runOpLogReplay` waits; `ended` is a run that has returned or thrown. -/
inductive Run
  | acking (cursor : Int)
  | reading (cursor : Int) (iteration : Nat)
  | applying (cursor : Int) (b : SplitOpLogBatch)
  | ended

/-- Both shards, the fence, the durable cursor of the Resharder and everything on its way. -/
structure World (δ : Type) where
  source : Cdb δ
  dest : Cdb δ
  fenced : Bool
  cursor : Int
  runs : List Run
  sent : List Call
  replies : List Reply

variable (δ ν) in
inductive Action
  | mutate (req : MutationRequest δ ν)
  | maintainSource (nowMs : Nat)
  | maintainDest (nowMs : Nat)
  | beginSource (nowMs : Nat)
  | beginDest (destinationGeneration : Int) (nowMs : Nat)
  | activateFence
  /-- A run of `runOpLogReplay` starts. -/
  | start
  /-- A bulk step acknowledges the durable cursor. -/
  | ackCursor
  /-- A call that was sent arrives, for the first time or again. -/
  | deliver (call : Call) (nowMs : Nat)
  /-- A run gets a reply it waits for. -/
  | resume (i : Nat) (reply : Reply)
  | crash (i : Nat)

def World.send (w : World δ) (call : Call) : World δ := { w with sent := call :: w.sent }

/-- A call runs on the source; its answer, if there is one, is on its way. -/
def World.onSource {α : Type} (w : World δ) (x : Tx Thrown (Cdb δ) α) (reply : α → Reply) : World δ :=
  match x w.source with
  | (.ok a, source) => { w with source, replies := reply a :: w.replies }
  | (.error _, source) => { w with source }

/-- A call runs on the destination. -/
def World.onDest {α : Type} (w : World δ) (x : Tx Thrown (Cdb δ) α) (reply : α → Reply) : World δ :=
  match x w.dest with
  | (.ok a, dest) => { w with dest, replies := reply a :: w.replies }
  | (.error _, dest) => { w with dest }

variable (ν) in
def World.deliver (w : World δ) (call : Call) (nowMs : Int) : World δ :=
  match call with
  | .ack throughLsn => w.onSource (ackCall m throughLsn nowMs) fun _ => .acked throughLsn
  | .read afterLsn => w.onSource (readCall ν m afterLsn nowMs) (.batch afterLsn)
  | .apply entries => w.onDest (applyCall ν m entries nowMs) (.applied entries)

/-- `runOpLogReplay` up to its first call. -/
def World.start (w : World δ) : World δ :=
  if 0 < w.cursor then { w.send (.ack w.cursor) with runs := w.runs ++ [.acking w.cursor] }
  else { w.send (.read w.cursor) with runs := w.runs ++ [.reading w.cursor 0] }

/-- `persistOpLogCursor`; a cursor that would regress throws. -/
def World.persistOpLogCursor (w : World δ) (sourceLsn : Int) : World δ :=
  if sourceLsn < w.cursor then w else { w with cursor := sourceLsn }

/-- The run goes on from a reply to the call it waits for. -/
def World.resume (w : World δ) (i : Nat) : Run → Reply → World δ
  | .acking cursor, .acked throughLsn =>
    if throughLsn = cursor then { w.send (.read cursor) with runs := w.runs.set i (.reading cursor 0) }
    else w
  | .reading cursor iteration, .batch afterLsn b =>
    if afterLsn ≠ cursor then w
    else if b.entries ≠ [] then
      { w.send (.apply b.entries) with runs := w.runs.set i (.applying cursor b) }
    else if iteration = 0 then { w.send (.read cursor) with runs := w.runs.set i (.reading cursor 1) }
    else { w with runs := w.runs.set i .ended }
  | .applying _ b, .applied entries result =>
    if entries ≠ b.entries then w
    else if result.lastLsn ≠ b.lastLsn then { w with runs := w.runs.set i .ended }
    else { w with runs := w.runs.set i .ended }.persistOpLogCursor b.lastLsn
  | _, _ => w

def World.step (w : World δ) : Action δ ν → World δ
  | .mutate req => { w with source := (executeAtomicMutation sha256 codec m w.fenced req).after w.source }
  | .maintainSource nowMs => { w with source := (maintain nowMs).after w.source }
  | .maintainDest nowMs => { w with dest := (maintain nowMs).after w.dest }
  | .beginSource nowMs => { w with source := (beginReshardSource m nowMs).after w.source }
  | .beginDest generation nowMs => { w with dest := (beginReshardDest m generation nowMs).after w.dest }
  | .activateFence => { w with fenced := true }
  | .start => w.start
  | .ackCursor => if 0 < w.cursor then w.send (.ack w.cursor) else w
  | .deliver call nowMs => if call ∈ w.sent then w.deliver ν m call nowMs else w
  | .resume i reply =>
    match w.runs[i]? with
    | some run => if reply ∈ w.replies then w.resume i run reply else w
    | none => w
  | .crash i => { w with runs := w.runs.set i .ended }

def World.run (w : World δ) (actions : List (Action δ ν)) : World δ :=
  actions.foldl (World.step sha256 codec m) w

end

/-! ## Where a run begins -/

/-- A source that has not met the migration. -/
structure FreshSource (codec : PayloadCodec) (ν : Type) [JsNumber ν] (m : Move) (δ : Type) where
  db : Cdb δ
  finalised : Finalised codec ν db
  eventIds : EventIds db.opLog
  lsns : 0 ≤ db.domain.split.lastLsn ∧
    ∀ e ∈ db.domain.split.splitOplog, e.lsn ≤ db.domain.split.lastLsn
  idle : ∀ r ∈ db.domain.split.splitState, r.drained = true ∧ r.migId ≠ m.migId
  noAccounting : db.domain.split.accounting.find? m.migId = none
  noEntries : ∀ e ∈ db.domain.split.splitOplog, e.migId ≠ m.migId

/-- A new shard is such a source. -/
def FreshSource.empty (codec : PayloadCodec) (m : Move) (domain : δ) : FreshSource codec ν m δ where
  db := .empty domain
  finalised := fun _ h => absurd h Table.not_mem_empty
  eventIds := ⟨fun _ h => absurd h Table.not_mem_empty, fun _ h => absurd h Table.not_mem_empty⟩
  lsns := ⟨le_rfl, fun _ h => absurd h Table.not_mem_empty⟩
  idle := fun _ h => absurd h Table.not_mem_empty
  noAccounting := rfl
  noEntries := fun _ h => absurd h Table.not_mem_empty

/-- The source as it is, a new destination, and nothing on its way. -/
def World.init {codec : PayloadCodec} {m : Move} (source : FreshSource codec ν m δ) (domain : δ) :
    World δ :=
  ⟨source.db, .empty domain, false, 0, [], [], []⟩

end Chardb.OpLog
