import Chardb.Resharder.PhaseInvariant
import Mathlib.Logic.Function.Basic

/-!
# Starts and aborts side by side

`World` is the Resharder's database with its in-memory `activeStarts` and
`activeAborts`. An `Action` is one atomic block: a call coming in, a driver going on
after an await, an answer of Catalog (any answer, or none), a phase call, the recovery
clock changing, or a crash, which loses the maps and keeps the database.
-/

namespace Chardb.Resharder

open Chardb.Lib

/-! ## The machine -/

/-- Where a start driver stands. -/
inductive StartPosition
  /-- The driver has not run yet. -/
  | queued
  /-- It awaits `beginTopologyOperation`. -/
  | awaitingCatalog (existing : Option MigrationState)
  /-- Canceled, it awaits `abortTopologyOperation`. -/
  | canceling
  /-- Its promise has resolved (`true`) or rejected; the callers have not run yet. -/
  | settled (ok : Bool)
  deriving DecidableEq

/-- An entry of `activeStarts`. -/
structure StartOp where
  identity : ResharderStartIdentity
  position : StartPosition
  deriving DecidableEq

/-- Where an abort driver stands; `busy` is anywhere after its last block of interest. -/
inductive AbortPosition
  | queued
  | awaitingStart
  | busy
  deriving DecidableEq

structure World where
  db : ResharderDb
  starts : String → Option StartOp
  aborts : String → Option AbortPosition

def World.init (clock : RecoveryClock) : World := ⟨.empty clock, fun _ => none, fun _ => none⟩

/-- The registered form of the table specs, which may reject them. -/
abbrev Admit := List TableSpec → Except Thrown (List TableSpec)

def World.setStart (w : World) (migId : String) (op : Option StartOp) : World :=
  { w with starts := Function.update w.starts migId op }

def World.setAbort (w : World) (migId : String) (p : Option AbortPosition) : World :=
  { w with aborts := Function.update w.aborts migId p }

/-- Join the active start, or queue a new one. -/
def joinStart (identity : ResharderStartIdentity) (active : Option StartOp) : Tx Thrown World Unit :=
  match active with
  | some op => .require (op.identity = identity)
      (phaseMismatch ("migId=" ++ identity.migId ++ " is already bound to a different split start"))
  | none => .modify fun w => w.setStart identity.migId (some ⟨identity, .queued⟩)

/-- `startSplit` up to its first await. -/
def startSplit (admission : Admit) (args : StartSplitArgs) (recovering : Bool) : Tx Thrown World Unit := do
  let tables ← .ofExcept (admission args.tables)
  let tablesJson ← canonicalStartSplit { args with tables }
  let clock ← .gets fun w => w.db.clock
  .require (clock.activeOperationId = none) recoveryBlocks
  let aborting ← .gets fun w => (w.aborts args.migId).isSome
  .require (recovering = false ∧ aborting = false)
    (phaseMismatch ("migId=" ++ args.migId ++ " cannot start while recovery or abort is active"))
  let active ← .gets fun w => w.starts args.migId
  joinStart (startIdentity args tablesJson clock.generation) active

/-- Join the active abort, or queue a new one. -/
def joinAbort (migId : String) (active : Option AbortPosition) : Tx Thrown World Unit :=
  match active with
  | some _ => pure ()
  | none => .modify fun w => w.setAbort migId (some .queued)

/-- `abort` up to its first await. -/
def abort (migId : String) (recovering : Bool) : Tx Thrown World Unit := do
  .require (isResharderMigId migId) (invalidSplit "migration id is invalid")
  .require (recovering = false)
    (phaseMismatch ("migId=" ++ migId ++ " cannot abort while a movement driver is active"))
  let active ← .gets fun w => w.aborts migId
  joinAbort migId active

/-- `abortDriver` after the start it has waited for. -/
def abortResumeBlock (migId : String) (nowMs : Int) : ResharderTx AbortStep := do
  let migration ← readMigration migId
  match migration with
  | none => pure .aborted
  | some migration => enterAbort migId nowMs migration

def World.startDriver (w : World) (migId : String) (nowMs : Int) : World :=
  match w.starts migId with
  | some ⟨identity, .queued⟩ =>
    match startBegin identity nowMs w.db with
    | (.ok existing, db) => { w with db }.setStart migId (some ⟨identity, .awaitingCatalog existing⟩)
    | (.error _, db) => { w with db }.setStart migId (some ⟨identity, .settled false⟩)
  | _ => w

/-- Catalog answers the start, or the call fails. -/
def World.catalogReply (w : World) (migId : String) (reply : Option TopologyReply) (nowMs : Int) :
    World :=
  match w.starts migId with
  | some ⟨identity, .awaitingCatalog existing⟩ =>
    match reply with
    | none => w.setStart migId (some ⟨identity, .settled false⟩)
    | some topology =>
      match startReply identity existing topology nowMs w.db with
      | (.ok false, db) => { w with db }.setStart migId (some ⟨identity, .settled true⟩)
      | (.ok true, db) => { w with db }.setStart migId (some ⟨identity, .canceling⟩)
      | (.error _, db) => { w with db }.setStart migId (some ⟨identity, .settled false⟩)
  | _ => w

/-- The canceled start hears from `abortTopologyOperation`; it throws whatever the answer. -/
def World.catalogAborted (w : World) (migId : String) : World :=
  match w.starts migId with
  | some ⟨identity, .canceling⟩ => w.setStart migId (some ⟨identity, .settled false⟩)
  | _ => w

/-- The callers of a settled start run. -/
def World.settleStart (w : World) (migId : String) : World :=
  match w.starts migId with
  | some ⟨_, .settled _⟩ => w.setStart migId none
  | _ => w

def World.abortDriver (w : World) (migId : String) (nowMs : Int) : World :=
  match w.aborts migId with
  | some .queued =>
    match abortBegin migId nowMs w.db with
    | (.ok (.pendingStart _), db) => { w with db }.setAbort migId (some .awaitingStart)
    | (_, db) => { w with db }.setAbort migId (some .busy)
  | _ => w

def World.abortResume (w : World) (migId : String) (nowMs : Int) : World :=
  match w.aborts migId with
  | some .awaitingStart =>
    { w with db := (abortResumeBlock migId nowMs).after w.db }.setAbort migId (some .busy)
  | _ => w

inductive Action
  | startSplit (args : StartSplitArgs) (recovering : Bool)
  | startDriver (migId : String) (nowMs : Int)
  | catalogReply (migId : String) (reply : Option TopologyReply) (nowMs : Int)
  | catalogAborted (migId : String)
  | settleStart (migId : String)
  | abort (migId : String) (recovering : Bool)
  | abortDriver (migId : String) (nowMs : Int)
  | abortResume (migId : String) (nowMs : Int)
  | settleAbort (migId : String)
  | phase (call : PhaseCall)
  | setClock (clock : RecoveryClock)
  | crash
  deriving DecidableEq

def World.step (admission : Admit) (w : World) : Action → World
  | .startSplit args recovering => (Resharder.startSplit admission args recovering).after w
  | .startDriver migId nowMs => w.startDriver migId nowMs
  | .catalogReply migId reply nowMs => w.catalogReply migId reply nowMs
  | .catalogAborted migId => w.catalogAborted migId
  | .settleStart migId => w.settleStart migId
  | .abort migId recovering => (Resharder.abort migId recovering).after w
  | .abortDriver migId nowMs => w.abortDriver migId nowMs
  | .abortResume migId nowMs => w.abortResume migId nowMs
  | .settleAbort migId => w.setAbort migId none
  | .phase call => if call.movesOnly then { w with db := call.exec.after w.db } else w
  | .setClock clock => { w with db := { w.db with clock } }
  | .crash => ⟨w.db, fun _ => none, fun _ => none⟩

def World.run (admission : Admit) (w : World) (actions : List Action) : World :=
  actions.foldl (World.step admission) w

/-- The next action hands success to the callers of this start. -/
def World.Succeeds (w : World) (a : Action) (identity : ResharderStartIdentity) : Prop :=
  a = .settleStart identity.migId ∧ w.starts identity.migId = some ⟨identity, .settled true⟩

/-- The next action records an abort of `migId`, which has no migration. -/
def World.RecordsAbort (w : World) (a : Action) (migId : String) : Prop :=
  ∃ nowMs intent db', a = .abortDriver migId nowMs ∧ w.aborts migId = some .queued ∧
    (abortBegin migId nowMs).Returns w.db (.pendingStart intent) db'

/-- Every start of `migId` that is still on its way fails, block by block. -/
structure World.OnlyFails (w : World) (migId : String) : Prop where
  queued : ∀ identity nowMs, w.starts migId = some ⟨identity, .queued⟩ →
    (w.startDriver migId nowMs).starts migId = some ⟨identity, .settled false⟩
  awaiting : ∀ identity existing reply nowMs,
    w.starts migId = some ⟨identity, .awaitingCatalog existing⟩ →
      ∃ p, (w.catalogReply migId reply nowMs).starts migId = some ⟨identity, p⟩ ∧
        (p = .settled false ∨ p = .canceling)
  canceling : ∀ identity, w.starts migId = some ⟨identity, .canceling⟩ →
    (w.catalogAborted migId).starts migId = some ⟨identity, .settled false⟩
  settled : ∀ identity, w.starts migId ≠ some ⟨identity, .settled true⟩

/-- The identity `migId` is bound to, by its migration or its start intent. -/
def Bound (db : ResharderDb) (migId : String) (identity : SplitIdentity) : Prop :=
  (∃ row, db.migrations.find? migId = some row ∧ row.toSplitIdentity = identity) ∨
    ∃ intent, db.startIntents.find? migId = some intent ∧ intent.split = some identity

/-- The start is complete: no intent, one migration under this identity, with its cursors. -/
structure Started (db : ResharderDb) (identity : ResharderStartIdentity) : Prop where
  intent : db.startIntents.find? identity.migId = none
  migration : ∃ row ∈ db.migrations, row.migId = identity.migId ∧
    row.toSplitIdentity = identity.toSplitIdentity ∧
    ∀ row' ∈ db.migrations, row'.migId = identity.migId → row' = row
  cursors : HasCursors db identity.migId

/-- What holds of starts and aborts from `w` on. -/
structure World.StartAbortSafe (admission : Admit) (w : World) : Prop where
  aborted : ∀ a m, w.RecordsAbort a m → ∀ later,
    (((w.step admission a).run admission later).db.migrations.find? m = none) ∧
      ((w.step admission a).run admission later).OnlyFails m
  oneIdentity : ∀ m i, Bound w.db m i → ∀ later,
    Bound (w.run admission later).db m i ∧ ∀ j, Bound (w.run admission later).db m j → j = i
  started : ∀ a identity, w.Succeeds a identity → Started (w.step admission a).db identity

end Chardb.Resharder
