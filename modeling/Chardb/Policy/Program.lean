import Chardb.Lib.Referential
import Chardb.Policy.DbProxy

/-!
# Handler programs

A handler reaches the database through the wrapper only. What it does is a run of steps:
selects, inserts, updates and deletes with their chains of `where`, and transactions,
which nest and roll back. The run keeps every row that a statement read or changed.
-/

namespace Chardb.Policy

open Chardb.Lib

/-! ## Databases -/

abbrev Db := RowStore String String Cell

/-- The registered tables, with the constraints that their schema declares. -/
structure DomainSchema where
  tables : List CdbTableMeta
  refs : RefSchema String String Cell

/-- `getCdbMeta(table)`. -/
def DomainSchema.table? (schema : DomainSchema) (name : String) : Option CdbTableMeta :=
  schema.tables.find? fun t => t.name = name

theorem DomainSchema.table?_name {schema : DomainSchema} {name : String} {t : CdbTableMeta}
    (h : schema.table? name = some t) : t.name = name := by
  simpa using List.find?_some h

/-- The wrapped database of a mutation or of a query. -/
inductive WrapperKind
  | mutation
  | query
  deriving DecidableEq

structure WrappedDb where
  schema : DomainSchema
  kind : WrapperKind
  auth : AuthCtx
  placement : Option CdbDbPlacement

/-! ## Calls -/

/-- How a select orders and cuts the rows it has. -/
structure SelectTail where
  orderBy : Row → Row → Bool
  offset : Nat
  limit : Option Nat

/-- One statement that a handler builds and runs. Conditions are given by their texts, and operands
and SQL values as they evaluate in the database at hand. -/
inductive Call
  | select (table : String) (wheres : List SqlText) (tail : SelectTail)
  /-- `defaults` is what the columns without a value hold. -/
  | insert (table : String) (rows : List WriteValues) (defaults : Row)
  | update (table : String) (values : WriteValues) (wheres : List SqlText)
  | delete (table : String) (wheres : List SqlText)

/-- What happened to a row. -/
inductive RowEvent
  | read (table : String) (row : Row)
  | change (change : RowChange String String Cell)

def unsupportedFeature (message : String) : Thrown := .cdb { code := .unsupportedFeature, message }

def unsupportedWrite (operation property : String) : Thrown :=
  .cdb
    { code := .unsupportedFeature
      message := operation ++ " property \"" ++ property ++
        "\" is unavailable through the policy wrapper"
      hint := some ("Use .run() to execute the write, then read rows through a query so read " ++
        "policies and column permissions apply.") }

/-- Each `where` of a chain takes the place of the one before. -/
def lastWhere (wheres : List SqlText) : Option SqlText := wheres.getLast?

def holds (condition : Option SqlText) (row : Row) : Bool := selects condition row = some true

def SelectTail.apply (tail : SelectTail) (rows : List Row) : List Row :=
  let sorted := (rows.mergeSort tail.orderBy).drop tail.offset
  match tail.limit with
  | some n => sorted.take n
  | none => sorted

/-- The statement that a write sends to the database. -/
def writeStatement (t : CdbTableMeta) (auth : AuthCtx) (placement : Option CdbDbPlacement) :
    Call → Except Thrown (Statement String String Cell)
  | .insert _ rows defaults => do
    let filled ← rows.mapM (insertValues t auth placement)
    pure (.insert t.name (filled.map fun f => writeRow t f.2 defaults))
  | .update _ values wheres => do
    let plan ← updatePlan t auth placement values
    pure (.update t.name (holds (plan.scopedWhere .update (lastWhere wheres))) (writeRow t values))
  | .delete _ wheres => do
    let plan ← deletePlan t auth placement
    pure (.delete t.name (holds (plan.scopedWhere .delete (lastWhere wheres))))
  | .select .. => .error (unsupportedWrite "select" "run")

def Call.table : Call → String
  | .select table .. => table
  | .insert table .. => table
  | .update table .. => table
  | .delete table .. => table

/-- The property of the database that starts the call. -/
def Call.property : Call → String
  | .select .. => "select"
  | .insert .. => "insert"
  | .update .. => "update"
  | .delete .. => "delete"

/-- The table of the call is none that is registered. -/
def plainTable : Call → Thrown
  | .select .. => unsupportedFeature "application handlers may select only from cdbTable"
  | write => unsupportedWrite write.property "plain table"

/-- A statement that breaks a constraint throws. -/
def statementFailed : Thrown := .constraint "statement"

def readOnlyWrapper (property : String) : Thrown :=
  unsupportedFeature ("query database property \"" ++ property ++
    "\" is unavailable in read-only handlers")

/-- Run a write. -/
def WrappedDb.write (w : WrappedDb) (t : CdbTableMeta) (call : Call) (db : Db) :
    Except Thrown (StatementResult String String Cell) := do
  let stmt ← writeStatement t w.auth w.placement call
  match w.schema.refs.execute stmt db with
  | .ok result => pure result
  | .error _ => .error statementFailed

/-- Run a select. -/
def WrappedDb.select (w : WrappedDb) (t : CdbTableMeta) (wheres : List SqlText) (tail : SelectTail)
    (db : Db) : Except Thrown (List Row) := do
  let cond ← selectWhere t w.auth w.placement (lastWhere wheres)
  pure (tail.apply ((db.rows t.name).filter (holds cond)))

/-- One call: the database it leaves, and what it did to rows. -/
def WrappedDb.call (w : WrappedDb) (call : Call) (db : Db) : Except Thrown (Db × List RowEvent) :=
  if w.kind = .query ∧ call.property ≠ "select" then .error (readOnlyWrapper call.property)
  else
    match w.schema.table? call.table with
    | none => .error (plainTable call)
    | some t =>
      match call with
      | .select _ wheres tail => do
        let rows ← w.select t wheres tail db
        pure (db, rows.map (.read t.name))
      | write => do
        let result ← w.write t write db
        pure (result.store, (result.direct ++ result.acted).map .change)

/-! ## Runs -/

/-- A step of a handler; its transactions nest. -/
inductive HandlerStep
  | call (call : Call)
  | begin
  | commit
  | rollback

structure HandlerState where
  db : Db
  /-- The databases that the open transactions go back to. -/
  savepoints : List Db
  events : List RowEvent

def HandlerState.initial (db : Db) : HandlerState := ⟨db, [], []⟩

/-- A call that throws leaves the database as it was. -/
def WrappedDb.step (w : WrappedDb) (s : HandlerState) : HandlerStep → HandlerState
  | .call call =>
    match w.call call s.db with
    | .ok (db, events) => { s with db, events := s.events ++ events }
    | .error _ => s
  | .begin =>
    if w.kind = .query then s else { s with savepoints := s.db :: s.savepoints }
  | .commit => { s with savepoints := s.savepoints.tail }
  | .rollback =>
    match s.savepoints with
    | db :: savepoints => { s with db, savepoints }
    | [] => s

def WrappedDb.run (w : WrappedDb) (s : HandlerState) (steps : List HandlerStep) : HandlerState :=
  steps.foldl w.step s

end Chardb.Policy
