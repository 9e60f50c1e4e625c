import Chardb.Live.StoreEffects
import Chardb.Policy.Program
import Chardb.Wire.Delivery

/-!
# The atomic mutation

`executeAtomicMutation` runs a handler, finalises its op-log row and enqueues the
invalidations of the tables it wrote, in one transaction. Which tables these are is
collected from the write builders that ran: each names its own table.
-/

namespace Chardb.Mutation

open Chardb.Lib Policy OpLog Live Wire

/-! ## Write volume -/

def CDB_MUTATION_MAX_WRITE_OPERATIONS : Nat := 256

def CDB_MUTATION_MAX_ROWS_WRITTEN : Nat := 4096

/-- `mutationWriteVolume`; it lives in the isolate, so that no rollback reaches it. -/
structure WriteVolume where
  touchedTables : List String
  operations : Nat
  rows : Nat
  violation : Option CdbError

def WriteVolume.empty : WriteVolume := ⟨[], 0, 0, none⟩

def operationLimit : CdbError where
  code := .invariant
  message := "mutation exceeds the " ++ toString CDB_MUTATION_MAX_WRITE_OPERATIONS ++
    "-operation write limit"
  hint := some "split the mutation into smaller atomic operations"

def rowLimit : CdbError where
  code := .invariant
  message := "mutation exceeds the " ++ toString CDB_MUTATION_MAX_ROWS_WRITTEN ++ "-row write limit"
  hint := some "split the mutation into smaller atomic operations"

/-- `beforeWrite`; a violation refuses the write. -/
def WriteVolume.beforeWrite (v : WriteVolume) : WriteVolume :=
  if v.violation.isNone ∧ CDB_MUTATION_MAX_WRITE_OPERATIONS ≤ v.operations then
    { v with violation := some operationLimit }
  else v

/-- `record`, with the rows by which `total_changes()` grew. -/
def WriteVolume.record (v : WriteVolume) (table : String) (changed : Nat) : WriteVolume where
  touchedTables := if table ∈ v.touchedTables then v.touchedTables else v.touchedTables ++ [table]
  operations := v.operations + 1
  rows := v.rows + changed
  violation :=
    if v.violation.isNone ∧ CDB_MUTATION_MAX_ROWS_WRITTEN < v.rows + changed then some rowLimit
    else v.violation

/-! ## The handler -/

/-- A run of a handler in its mutation. -/
structure MutationRun where
  state : HandlerState
  volume : WriteVolume
  /-- The tables that the statements name. -/
  named : List String
  /-- The tables that foreign keys acted on, as far as no rollback took it back. -/
  acted : List String
  /-- What `acted` goes back to, one for each open transaction. -/
  actedBefore : List (List String)

def MutationRun.initial (db : Db) : MutationRun := ⟨.initial db, .empty, [], [], []⟩

/-- The statement of a call, if its builders and its policies let it be run. -/
def preparedStatement (w : WrappedDb) (c : Policy.Call) : Option (Statement String String Cell) :=
  match w.schema.table? c.table with
  | none => none
  | some t => (writeStatement t w.auth w.placement c).toOption

/-- `writeExecutionMethod`: a statement that fails is not recorded. -/
def MutationRun.write (w : WrappedDb) (r : MutationRun) (table : String)
    (stmt : Statement String String Cell) : MutationRun :=
  let volume := r.volume.beforeWrite
  if volume.violation.isSome then { r with volume }
  else
    match w.schema.refs.execute stmt r.state.db with
    | .error _ => { r with volume }
    | .ok result =>
      { r with
        state := { r.state with
          db := result.store
          events := r.state.events ++ (result.direct ++ result.acted).map .change }
        volume := volume.record table (result.direct.length + result.acted.length)
        named := r.named ++ [table]
        acted := r.acted ++ result.acted.map RowChange.table }

/-- A step of the handler. -/
def MutationRun.step (w : WrappedDb) (r : MutationRun) : HandlerStep → MutationRun
  | .call c =>
    match preparedStatement w c with
    | some stmt => r.write w c.table stmt
    | none => { r with state := w.step r.state (.call c) }
  | .begin => { r with state := w.step r.state .begin, actedBefore := r.acted :: r.actedBefore }
  | .commit => { r with state := w.step r.state .commit, actedBefore := r.actedBefore.tail }
  | .rollback =>
    match r.actedBefore with
    | acted :: actedBefore => { r with state := w.step r.state .rollback, acted, actedBefore }
    | [] => r

def MutationRun.run (w : WrappedDb) (r : MutationRun) (steps : List HandlerStep) : MutationRun :=
  steps.foldl (MutationRun.step w) r

variable {ν : Type} [JsNumber ν]

variable (ν) in
/-- A handler: what it does from a database, and how it ends there. -/
structure AtomicHandler where
  steps : Db → List HandlerStep
  result : Db → Except Thrown (HandlerResult ν × SafeInt)

/-- The domain tables, and the volume of the mutation at hand. -/
structure DomainRun where
  db : Db
  volume : WriteVolume

def AtomicHandler.play (h : AtomicHandler ν) (w : WrappedDb) (db : Db) : MutationRun :=
  (MutationRun.initial db).run w (h.steps db)

/-- `run` of `executeAtomicMutation`; the outcome carries the result, a copy of which is checked. -/
def AtomicHandler.run (h : AtomicHandler ν) (w : WrappedDb) : Tx Thrown DomainRun (MutationOutcome ν) := do
  let start ← .gets DomainRun.db
  .modify fun _ => ⟨(h.play w start).state.db, (h.play w start).volume⟩
  let ended ← .ofExcept (h.result start)
  match (h.play w start).volume.violation with
  | some violation => .throw (.cdb violation)
  | none => do
    let _ ← .ofExcept (acceptMutationResult ended.1)
    pure (.ok ended.1 ended.2 none none none none)

/-! ## The transaction -/

/-- The storage of a shard, as far as a mutation works on it. -/
structure MutationDb where
  oplog : OpLogDb DomainRun
  live : LiveDb

def MutationDb.db (s : MutationDb) : Db := s.oplog.domain.db

def onOpLogDb {α : Type} : Tx Thrown (OpLogDb DomainRun) α → Tx Thrown MutationDb α :=
  .zoom MutationDb.oplog fun s oplog => { s with oplog }

def onLive {α : Type} : LiveTx α → Tx Thrown MutationDb α :=
  .zoom MutationDb.live fun s live => { s with live }

variable (ν) in
/-- The input of a mutation; the hooks that keep to tables of their own may throw. -/
structure ExecuteAtomicMutationInput where
  principalId : String
  mutId : String
  canonicalRequest : String
  schemaEpoch : Int
  placementVshard : Option Int
  nowMs : Int
  cookie : String
  wrapped : WrappedDb
  wrapped_kind : wrapped.kind = .mutation
  handler : AtomicHandler ν
  beforeRun : Except Thrown Unit
  onOutcome : Bool → Except Thrown Unit

def ExecuteAtomicMutationInput.args (input : ExecuteAtomicMutationInput ν) :
    RunWrappedMutationArgs DomainRun ν where
  principalId := input.principalId
  mutId := input.mutId
  canonicalRequest := input.canonicalRequest
  schemaEpoch := input.schemaEpoch
  placementVshard := input.placementVshard
  nowMs := input.nowMs
  run := input.handler.run input.wrapped
  cookie := input.cookie

def envelopeMember (envelope : Json ν) (key : String) : Option (Json ν) :=
  match envelope with
  | .obj members => Json.get? members key
  | _ => none

/-- `envelope.status === "ok"`. -/
def envelopeOk (envelope : Json ν) : Bool :=
  match envelopeMember envelope "status" with
  | some (.str status) => status = "ok"
  | _ => false

/-- The error of a mutation that reported one. -/
def mutationRejected (envelope : Json ν) : Thrown :=
  .cdb
    { code :=
        match envelopeMember envelope "errorCode" with
        | some (.str code) => (CdbErrorCode.ofText? code).getD .forbidden
        | _ => .forbidden
      message :=
        match envelopeMember envelope "errorMessage" with
        | some (.str message) => message
        | _ => "mutation rejected" }

variable (ν) in
structure AtomicMutationResult where
  ran : Bool
  envelope : Json ν
  touchedTables : List String

/-- `onWriteSet`. -/
def enqueueWriteSet (ran : Bool) (envelope : Json ν) (touchedTables : List String) :
    Tx Thrown MutationDb (List String) :=
  if ran = true ∧ envelopeOk envelope = true ∧ touchedTables ≠ [] then do
    let _ ← onLive (enqueueInvalidations (sortStrings touchedTables))
    pure (sortStrings touchedTables)
  else pure []

section
variable (sha256 : ByteArray → ByteArray) (codec : PayloadCodec)

/-- What `transactionSync` runs. -/
def atomicMutation (input : ExecuteAtomicMutationInput ν) :
    Tx Thrown MutationDb (AtomicMutationResult ν) := .transactionSync do
  .modify fun s => { s with oplog := { s.oplog with domain := ⟨s.db, .empty⟩ } }
  .ofExcept input.beforeRun
  let wrapped ← onOpLogDb (runWrappedMutation sha256 codec input.args)
  .ofExcept (if envelopeOk wrapped.envelope then
    assertCdbResultByteLimit (.ofJson (envelopeResult wrapped.envelope)) "mutation result"
      mutationResultHint
    else .ok ())
  .ofExcept (input.onOutcome wrapped.ran)
  let volume ← .gets fun s => s.oplog.domain.volume
  let touchedTables ← enqueueWriteSet wrapped.ran wrapped.envelope volume.touchedTables
  pure ⟨wrapped.ran, wrapped.envelope, touchedTables⟩

/-- `executeAtomicMutation`. -/
def executeAtomicMutation (input : ExecuteAtomicMutationInput ν) :
    Tx Thrown MutationDb (AtomicMutationResult ν) := do
  let result ← atomicMutation sha256 codec input
  .require (envelopeOk result.envelope = true) (mutationRejected result.envelope)
  pure result

end

end Chardb.Mutation
