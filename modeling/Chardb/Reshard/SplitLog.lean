import Chardb.Lib.SeqTable
import Chardb.OpLog.Wrapper
import Chardb.Reshard.SplitControl

/-!
# The split log and its capture triggers

While a source captures, triggers on the moved tables append the image of every changed row to
`_chardb_split_log`, under the event id of the one mutation that is pending in the op-log. An append
first charges the split row with the bytes that the log row accounts for, and aborts its statement
when the log, the row or the transaction has no room.
-/

namespace Chardb.Reshard

open Chardb.Lib

/-! ## Rows as SQLite prints them -/

/-- A stored value; `real` carries the digits that SQLite prints. -/
inductive SqlValue
  | null
  | integer (i : Int)
  | real (digits : String)
  | text (s : String)
  deriving DecidableEq

/-- `CAST(v AS TEXT)`. -/
def SqlValue.castText : SqlValue → Option String
  | .null => none
  | .integer i => some (toString i)
  | .real digits => some digits
  | .text s => some s

/-- `json_quote(t)` of a text. -/
def jsonQuote (s : String) : String := String.ofList (quote s)

/-- `json_quote(v)`. -/
def SqlValue.jsonQuote : SqlValue → String
  | .null => "null"
  | .integer i => toString i
  | .real digits => digits
  | .text s => Reshard.jsonQuote s

/-- A row of a domain table, by column. -/
abbrev DomainRow := String → SqlValue

/-- `json_object('c', c, …)` over the columns. -/
def jsonObject (columns : List String) (row : DomainRow) : String :=
  "\x7b" ++ ",".intercalate (columns.map fun c => jsonQuote c ++ ":" ++ (row c).jsonQuote) ++ "\x7d"

/-- `length(CAST(s AS BLOB))`. -/
def textBytes (s : String) : Int := s.utf8ByteSize

/-! ## The log -/

inductive TailOp
  | ins
  | upd
  | del
  deriving DecidableEq

def TailOp.text : TailOp → String
  | .ins => "ins"
  | .upd => "upd"
  | .del => "del"

/-- A row of `_chardb_split_log`. -/
structure SplitLogRow where
  lsn : Int
  sourceTxId : Int
  migId : String
  op : TailOp
  tableName : String
  pk : String
  before : Option String
  after : Option String
  ts : Int
  deriving DecidableEq

abbrev SplitLog := SeqTable SplitLogRow.lsn

def CDB_SPLIT_LOG_MAX_ROWS : Int := 65536
def CDB_SPLIT_LOG_MAX_BYTES : Int := 67108864
def CDB_SPLIT_TX_MAX_ROWS : Int := 500
def CDB_SPLIT_TX_MAX_BYTES : Int := 1048576
def CDB_SPLIT_TX_MAX_ROW_BYTES : Int := 262144

/-- `SPLIT_LOG_ACCOUNTED_BYTES_SQL`. -/
def SplitLogRow.accountedBytes (r : SplitLogRow) : Int :=
  32 + textBytes r.migId + textBytes r.op.text + textBytes r.tableName + textBytes (jsonQuote r.pk) +
    textBytes (r.before.getD "") + textBytes (r.after.getD "")

def totalBytes (rows : List SplitLogRow) : Int := (rows.map SplitLogRow.accountedBytes).sum

/-! ## The source of a split -/

/-- What the capture of a split works on; `triggers` are the capture triggers that are installed. -/
structure SourceDb where
  control : SplitControl
  log : SplitLog
  opLog : OpLog.Ledger
  triggers : List (String × TableSpec)

abbrev SourceTx := Tx Thrown SourceDb

def onControl {α : Type} : ControlTx α → SourceTx α :=
  .zoom SourceDb.control fun db control => { db with control }

def onLedger {α : Type} : Tx Thrown OpLog.Ledger α → SourceTx α :=
  .zoom SourceDb.opLog fun db opLog => { db with opLog }

def SourceDb.split? (db : SourceDb) (migId : String) : Option SplitStateRow := db.control.split? migId

/-- The rows of a migration, in LSN order. -/
def SourceDb.retained (db : SourceDb) (migId : String) : List SplitLogRow :=
  db.log.select fun r => r.migId = migId

/-! ## One append -/

/-- The row image that an append stores: `pk` is the partition value cast to text. -/
structure TailImage where
  op : TailOp
  tableName : String
  pk : Option String
  before : Option String
  after : Option String
  deriving DecidableEq

/-- `json_quote(CAST(pk AS TEXT) || '')`. -/
def TailImage.quotedPk (c : TailImage) : String := (c.pk.map jsonQuote).getD "null"

/-- `accountedBytes` of the trigger. -/
def TailImage.accountedBytes (migId : String) (c : TailImage) : Int :=
  32 + textBytes migId + textBytes c.op.text + textBytes c.tableName + textBytes c.quotedPk +
    textBytes (c.before.getD "") + textBytes (c.after.getD "")

/-- `transferBytes` of the trigger. -/
def TailImage.transferBytes (c : TailImage) : Int :=
  256 + 2 * (textBytes c.op.text + textBytes c.tableName + textBytes c.quotedPk +
    textBytes (c.before.getD "") + textBytes (c.after.getD ""))

/-- The op-log row is pending: not finalised. -/
def isPending (r : OpLog.OpLogRow) : Bool := r.byteSize = 0 && r.payloadEnc.size = 0

def pendingMutations (log : OpLog.Ledger) : List OpLog.OpLogRow :=
  log.rows.orderBy isPending OpLog.OpLogRow.eventId

def noPendingMutation : Thrown :=
  .error "CDB_INVARIANT: active reshard capture requires exactly one pending mutation"

def logCapacityReached : Thrown := .error "CDB_RATE_LIMITED: source split log capacity reached"

/-- The event id and the placement of the pending mutation, if there is exactly one with a
placement. -/
def onlyPending : List OpLog.OpLogRow → Option (Int × Int)
  | [r] => r.placementVshard.map fun v => (r.eventId, v)
  | _ => none

/-- The split row has room for an append of the transaction. -/
def SplitStateRow.hasRoom (r : SplitStateRow) (txId accounted transfer : Int) : Bool :=
  r.splitLogRows < CDB_SPLIT_LOG_MAX_ROWS && r.splitLogBytes ≤ CDB_SPLIT_LOG_MAX_BYTES - accounted &&
    transfer ≤ CDB_SPLIT_TX_MAX_ROW_BYTES && transfer ≤ CDB_SPLIT_TX_MAX_BYTES &&
    (r.captureTxId ≠ some txId || r.captureTxRows < CDB_SPLIT_TX_MAX_ROWS) &&
    (r.captureTxId ≠ some txId || r.captureTxBytes ≤ CDB_SPLIT_TX_MAX_BYTES - transfer)

/-- The split row after an append of the transaction. -/
def SplitStateRow.charged (r : SplitStateRow) (txId accounted transfer : Int) : SplitStateRow :=
  { r with
    splitLogRows := r.splitLogRows + 1
    splitLogBytes := r.splitLogBytes + accounted
    captureTxRows := if r.captureTxId = some txId then r.captureTxRows + 1 else 1
    captureTxBytes := if r.captureTxId = some txId then r.captureTxBytes + transfer else transfer
    captureTxId := some txId }

/-- The row that an append inserts. -/
def TailImage.toRow (c : TailImage) (migId pk : String) (txId ts lsn : Int) : SplitLogRow where
  lsn
  sourceTxId := txId
  migId
  op := c.op
  tableName := c.tableName
  pk
  before := c.before
  after := c.after
  ts

theorem TailImage.toRow_lsn (c : TailImage) (migId pk : String) (txId ts n : Int) :
    (c.toRow migId pk txId ts n).lsn = n := rfl

/-- The `INSERT` of an append; `pk` is `NOT NULL`. -/
def insertLogRow (migId : String) (c : TailImage) (txId ts : Int) : SourceTx Unit := do
  let pk ← .ofOption c.pk (.constraint "_chardb_split_log")
  .modify fun db => { db with log := db.log.append (c.toRow migId pk txId ts) (c.toRow_lsn migId pk txId ts) }

/-- The `UPDATE` of an append: it answers the number of split rows that it charged. -/
def chargeSplit (migId : String) (c : TailImage) (when : Bool) (txId vshard : Int) : SourceTx Nat :=
  onControl <| onSplits <| Table.update
    (fun r => decide (r.migId = migId) && (r.role = .source && r.capture && when && r.covers vshard &&
      r.hasRoom txId (c.accountedBytes migId) c.transferBytes))
    (fun r => r.charged txId (c.accountedBytes migId) c.transferBytes)
    (.constraint "_chardb_split_state")

/-- `appendLog`: the statements of a capture trigger for one image. -/
def appendLog (migId : String) (c : TailImage) (when : Bool) (ts : Int) : SourceTx Unit := do
  let pending ← .gets fun db => pendingMutations db.opLog
  let (txId, vshard) ← .ofOption (onlyPending pending) noPendingMutation
  let changes ← chargeSplit migId c when txId vshard
  let shouldCapture ← .gets fun db => when && (db.split? migId).any fun r => r.covers vshard
  .require (¬ (shouldCapture = true ∧ changes ≠ 1)) logCapacityReached
  if shouldCapture then insertLogRow migId c txId ts else pure ()

/-! ## The triggers -/

/-- A change of one row of a domain table. -/
inductive RowChange
  | insert (new : DomainRow)
  | update (old new : DomainRow)
  | delete (old : DomainRow)

/-- The image of a change that a trigger of the table stores. -/
def TableSpec.image (t : TableSpec) (op : TailOp) (keyRow : DomainRow) (before after : Option DomainRow) :
    TailImage where
  op
  tableName := t.name
  pk := (keyRow t.partitionColumn).castText
  before := before.map (jsonObject t.columns)
  after := after.map (jsonObject t.columns)

/-- The bodies of the three triggers of `renderTableTriggers`. -/
def captureTrigger (migId : String) (t : TableSpec) (ts : Int) : RowChange → SourceTx Unit
  | .insert new => appendLog migId (t.image .ins new none (some new)) true ts
  | .update old new => do
    appendLog migId (t.image .del old (some old) none)
      (decide (old t.partitionColumn ≠ new t.partitionColumn)) ts
    appendLog migId (t.image .upd new (some old) (some new)) true ts
  | .delete old => appendLog migId (t.image .del old (some old) none) true ts

/-- A changed row fires a trigger of its table. -/
def fireTrigger (tableName : String) (change : RowChange) (ts : Int) (x : String × TableSpec) :
    SourceTx Unit :=
  if x.2.name = tableName then captureTrigger x.1 x.2 ts change else pure ()

/-- A changed row fires every capture trigger that is installed on its table. -/
def fireTriggers (tableName : String) (change : RowChange) (ts : Int) :
    List (String × TableSpec) → SourceTx Unit
  | [] => pure ()
  | x :: rest => do
    fireTrigger tableName change ts x
    fireTriggers tableName change ts rest

/-- The row changes of one SQL statement. -/
def changeRows (ts : Int) : List (String × RowChange) → SourceTx Unit
  | [] => pure ()
  | (tableName, change) :: rest => do
    let installed ← .gets SourceDb.triggers
    fireTriggers tableName change ts installed
    changeRows ts rest

/-- An SQL statement of a handler, and whether the handler goes on when it fails. -/
structure Statement where
  changes : List (String × RowChange)
  caught : Bool

/-- A statement that fails is undone alone. -/
def Statement.exec (s : Statement) (ts : Int) : SourceTx Unit := fun db =>
  match (changeRows ts s.changes).transactionSync db with
  | (.ok (), db') => (.ok (), db')
  | (.error e, db') => if s.caught then (.ok (), db') else (.error e, db')

def execAll (ts : Int) : List Statement → SourceTx Unit
  | [] => pure ()
  | s :: rest => do
    s.exec ts
    execAll ts rest

/-- A mutation as its transaction runs: the row it makes pending, the statements of its handler, and
what finalises it; a handler may throw after them. -/
structure TailMutation where
  principalId : String
  mutId : String
  payloadHash : ByteArray
  schemaEpoch : Int
  placementVshard : Option Int
  statements : List Statement
  outcome : Except Thrown {payload : ByteArray // 0 < payload.size}
  touchedKeys : String
  nowMs : Int

def TailMutation.pendingRow (m : TailMutation) (eventId : Nat) : OpLog.OpLogRow where
  eventId
  principalId := m.principalId
  mutId := m.mutId
  payloadHash := m.payloadHash
  payloadEnc := .empty
  committedAt := m.nowMs
  schemaEpoch := m.schemaEpoch
  touchedKeys := "[]"
  byteSize := 0
  placementVshard := m.placementVshard

/-- The handler of a new mutation, and its finalisation. -/
def TailMutation.runHandler (m : TailMutation) : SourceTx Unit := do
  execAll m.nowMs m.statements
  let payload ← .ofExcept m.outcome
  let _ ← onLedger (OpLog.Ledger.finalise (m.principalId, m.mutId) payload.1 m.touchedKeys)
  pure ()

/-- `runWrappedMutation` in its transaction; a mutation that is known already changes nothing. -/
def TailMutation.run (m : TailMutation) : SourceTx Unit := .transactionSync do
  let inserted ← onLedger (OpLog.Ledger.insertOrIgnore m.pendingRow)
  if inserted = 0 then pure () else m.runHandler

/-- Row changes outside any mutation, in a transaction of their own. -/
def writeOutside (statements : List Statement) (nowMs : Int) : SourceTx Unit :=
  .transactionSync (execAll nowMs statements)

end Chardb.Reshard
