import Chardb.Lib.Table
import Chardb.Reshard.TailTransaction

/-!
# The staged tail of a destination

While bulk pages may still arrive, a destination stages the transactions of its source in an inbox:
staging, reading the inbox in order, applying a batch, acknowledging what was applied and closing.
-/

namespace Chardb.Reshard

open Chardb.Lib OpLog

/-! ## Tables -/

/-- `isKnownReshardTailTable`. -/
def isKnownReshardTailTable (tableName : String) (domainTables : List String) : Except Thrown Unit :=
  if tableName ∈ domainTables then .ok ()
  else if tableName ∈ ["_chardb_files", "_chardb_deleted_organizations", "_chardb_vectors",
      "_chardb_vector_outbox", "_chardb_vector_attempts"] then .ok ()
  else if tableName.startsWith "_" ∨ tableName.startsWith "sqlite" then
    .error (invariantError ("reshard tail names unknown system table " ++ tableName))
  else .error (invariantError ("reshard tail names unknown table " ++ tableName))

def assertKnownTables (domainTables : List String) : List TailEntry → Except Thrown Unit
  | [] => .ok ()
  | e :: entries =>
    match isKnownReshardTailTable e.tableName domainTables with
    | .error e => .error e
    | .ok () => assertKnownTables domainTables entries

/-- A row of `_chardb_split_tail_inbox`, of the migration of the destination. -/
structure InboxRow where
  sourceTxId : Int
  firstLsn : Int
  lastLsn : Int
  rowCount : Int
  byteSize : Int
  transactionJson : String
  deriving DecidableEq

def InboxRow.Check (r : InboxRow) : Prop :=
  r.sourceTxId ≠ 0 ∧ 0 < r.firstLsn ∧ r.firstLsn ≤ r.lastLsn ∧ 0 < r.rowCount ∧ 0 < r.byteSize

instance : DecidablePred InboxRow.Check := fun _ => inferInstanceAs (Decidable (_ ∧ _))

abbrev InboxTable := Table InboxRow.sourceTxId InboxRow.Check

/-- What a destination keeps of its migration: columns of `_chardb_split_state`, the inbox, and the
tables that are moved. -/
structure TailDest (δ : Type) where
  stagedLsn : Int
  appliedLsn : Int
  inboxRows : Int
  inboxBytes : Int
  inboxClosed : Bool
  inbox : InboxTable
  data : δ

/-- What the rows of a batch do to the tables that are moved. -/
structure TailTables (δ : Type) where
  /-- The vector checks of a batch, which also prune receipts, given the applied LSN. -/
  prepare : Int → List TailTransaction → δ → Except Thrown δ
  /-- `assertCdbVectorTailReplay`, of a row that was applied before. -/
  replayed : TailEntry → δ → Except Thrown Unit
  /-- `applyReshardSystemTailEntry` or the change of a domain row; whether it counts as applied. -/
  apply : TailEntry → δ → Except Thrown (δ × Bool)

abbrev TailTx (δ α : Type) := Tx Thrown (TailDest δ) α

variable {δ : Type}

section
variable (ν : Type) [JsNumber ν]

def TailTransaction.row (t : TailTransaction) : InboxRow where
  sourceTxId := t.sourceTxId
  firstLsn := t.firstLsn
  lastLsn := t.lastLsn
  rowCount := t.entries.length
  byteSize := textBytes (t.json ν)
  transactionJson := t.json ν

def addedRows (transactions : List TailTransaction) : Int :=
  (transactions.map fun t => (t.row ν).rowCount).sum

def addedBytes (transactions : List TailTransaction) : Int :=
  (transactions.map fun t => (t.row ν).byteSize).sum

/-- Budgets and envelopes of a batch, before any table is read. -/
def assertTailBatch (tooMany subject envelope : String) (transactions : List TailTransaction) :
    Except Thrown Unit :=
  if 500 < (tailEntries transactions).length then .error (invalidArgs tooMany)
  else
    match assertReshardBatchBudget ((tailEntries transactions).map (TailEntry.toJson ν)) subject with
    | .error e => .error e
    | .ok _ =>
      match assertReshardEnvelopeBudget (.arr (transactions.map (TailTransaction.toJson ν))) envelope with
      | .error e => .error e
      | .ok _ => assertTailTransactions transactions

/-- The inserts of `stageTailBatch`; `none` where a row breaks a constraint. -/
def insertInbox : List TailTransaction → InboxTable → Option InboxTable
  | [], inbox => some inbox
  | t :: transactions, inbox =>
    if inbox.rows.any fun r => decide (r.firstLsn = t.firstLsn ∨ r.lastLsn = t.lastLsn) then none
    else
      match inbox.insert? (t.row ν) with
      | none => none
      | some inbox => insertInbox transactions inbox

/-- A batch below the cursor is a retry: what is retained is what came before, and what is not was
applied. -/
def assertStagedRetry (d : TailDest δ) : List TailTransaction → Except Thrown Unit
  | [] => .ok ()
  | t :: transactions =>
    match d.inbox.find? t.sourceTxId with
    | some stored =>
      if stored.transactionJson ≠ t.json ν then
        .error (invariantError "staged tail retry changed a transaction envelope")
      else assertStagedRetry d transactions
    | none =>
      if d.appliedLsn < t.lastLsn then
        .error (invariantError "staged tail retry is missing before its applied cursor")
      else assertStagedRetry d transactions

/-- `movement` is what `assertReshardMovement` answers, which reads tables that are not here. -/
def stageTailBatch (movement : Except Thrown Unit) (tables : List String)
    (transactions : List TailTransaction) : TailTx δ Int := do
  .ofExcept (assertTailBatch ν "staged tail exceeds 500 rows" "reshard staged tail"
    "reshard staged tail" transactions)
  .ofExcept (assertKnownTables tables (tailEntries transactions))
  .transactionSync do
    .ofExcept movement
    let d ← .gets id
    .require (d.inboxClosed = false) (phaseMismatch "destination tail staging is closed")
    if lastLsnOf transactions ≤ d.stagedLsn then do
      .ofExcept (assertStagedRetry ν d transactions)
      pure 0
    else do
      .require (d.stagedLsn < (transactions.head?.map (·.firstLsn)).getD (lastLsnOf transactions))
        (invariantError "staged tail crosses its durable cursor")
      .require (d.inboxRows + addedRows ν transactions ≤ CDB_SPLIT_LOG_MAX_ROWS ∧
          d.inboxBytes + addedBytes ν transactions ≤ CDB_SPLIT_LOG_MAX_BYTES)
        (.cdb
          { code := .rateLimited
            message := "destination staged-tail inbox reached its durable limit"
            hint := some
              "retry after bulk copy closes and the destination drains staged transactions" })
      let inbox ← .ofOption (insertInbox ν transactions d.inbox) (.constraint "_chardb_split_tail_inbox")
      .modify fun d =>
        { d with
          inbox
          stagedLsn := lastLsnOf transactions
          inboxRows := d.inboxRows + addedRows ν transactions
          inboxBytes := d.inboxBytes + addedBytes ν transactions }
      pure (addedRows ν transactions)

end

section
variable (ν : Type) [JsNumber ν]

/-- The loop of `readStagedTailBatch`, with what was read so far. -/
def readInbox (transactions : List TailTransaction) (count envelopeBytes : Int) :
    List InboxRow → Except Thrown (List TailTransaction)
  | [] => .ok transactions
  | row :: rows =>
    if 500 < count + row.rowCount then .ok transactions
    else
      match TailTransaction.parse ν row.transactionJson with
      | none => .error (.error "SyntaxError")
      | some t =>
        if (t.entries.length : Int) ≠ row.rowCount ∨ reshardJsonBytes (t.toJson ν) ≠ row.byteSize then
          .error (invariantError "stored staged-tail envelope is invalid")
        else if CDB_RESHARD_MAX_BATCH_BYTES <
            envelopeBytes + (if transactions = [] then 0 else 1) + row.byteSize then
          if transactions = [] then .error (invariantError "stored staged-tail envelope is oversized")
          else .ok transactions
        else readInbox (transactions ++ [t]) (count + row.rowCount)
          (envelopeBytes + (if transactions = [] then 0 else 1) + row.byteSize) rows

def readStagedTailBatch (movement : Except Thrown Unit) (limit : Int) :
    TailTx δ (List TailTransaction) := do
  .require (limit = 500) (invalidArgs "staged tail limit must be 500")
  .ofExcept movement
  let d ← .gets id
  let transactions ← .ofExcept
    (readInbox ν [] 0 2 ((d.inbox.orderBy (fun _ => true) InboxRow.firstLsn).take 500))
  .ofExcept (assertTailTransactions transactions)
  let _ ← .ofExcept (assertReshardEnvelopeBudget (.arr (transactions.map (TailTransaction.toJson ν)))
    "staged tail read")
  pure transactions

end

/-- The rows that an acknowledgement removes. -/
def acked (throughLsn : Int) (r : InboxRow) : Bool := decide (r.lastLsn ≤ throughLsn)

def sumRows (rows : List InboxRow) : Int := (rows.map InboxRow.rowCount).sum

def sumBytes (rows : List InboxRow) : Int := (rows.map InboxRow.byteSize).sum

def ackStagedTail (movement : Except Thrown Unit) (throughLsn : Int) : TailTx δ Int :=
  .transactionSync do
    .ofExcept movement
    let d ← .gets id
    .require (throughLsn ≤ d.appliedLsn) (invariantError "staged tail ack exceeds applied cursor")
    let removed := d.inbox.select (acked throughLsn)
    if sumRows removed = 0 then pure 0
    else do
      .require (sumRows removed ≤ d.inboxRows ∧ sumBytes removed ≤ d.inboxBytes)
        (invariantError "staged inbox accounting changed")
      .modify fun d =>
        { d with
          inbox := d.inbox.deleteWhere (acked throughLsn)
          inboxRows := d.inboxRows - sumRows removed
          inboxBytes := d.inboxBytes - sumBytes removed }
      pure (sumRows removed)

def closeTailStaging (movement : Except Thrown Unit) : TailTx δ Bool :=
  .transactionSync do
    .ofExcept movement
    let d ← .gets id
    .require (d.inboxRows = 0) (phaseMismatch "staged tail inbox is not empty")
    .modify fun d => { d with inboxClosed := true }
    pure !d.inboxClosed

/-- The loop of `applyTailBatch`, with the LSN before and what was applied so far. -/
def applyEntries (T : TailTables δ) (tables : List String) (appliedLsn : Int) :
    Int → List TailEntry → δ → Int → Except Thrown (δ × Int)
  | _, [], data, applied => .ok (data, applied)
  | previousLsn, e :: entries, data, applied =>
    if ¬ (IsSafeInteger e.lsn ∧ previousLsn < e.lsn) then
      .error (invariantError "reshard tail entries are not in strict source LSN order")
    else
      match isKnownReshardTailTable e.tableName tables with
      | .error e => .error e
      | .ok () =>
        if e.lsn ≤ appliedLsn then
          match T.replayed e data with
          | .error e => .error e
          | .ok () => applyEntries T tables appliedLsn e.lsn entries data applied
        else if e.op ∉ ["ins", "upd", "del"] then
          .error (invariantError "reshard tail entry has an unknown operation")
        else
          match T.apply e data with
          | .error e => .error e
          | .ok (data, counts) =>
            applyEntries T tables appliedLsn e.lsn entries data (if counts then applied + 1 else applied)

/-- The cursor does not end within a transaction of the batch. -/
def Splits (appliedLsn : Int) (t : TailTransaction) : Prop :=
  t.firstLsn ≤ appliedLsn ∧ appliedLsn < t.lastLsn

instance (appliedLsn : Int) (t : TailTransaction) : Decidable (Splits appliedLsn t) :=
  inferInstanceAs (Decidable (_ ∧ _))

def applyTailBatch (ν : Type) [JsNumber ν] (T : TailTables δ) (movement : Except Thrown Unit)
    (tables : List String) (transactions : List TailTransaction) : TailTx δ Int := do
  .ofExcept (assertTailBatch ν "reshard tail batch exceeds 500 rows" "reshard tail"
    "reshard tail transaction" transactions)
  .transactionSync do
    .ofExcept movement
    let d ← .gets id
    .require (¬ (0 < d.appliedLsn ∧ ∃ t ∈ transactions, Splits d.appliedLsn t))
      (invariantError "destination tail cursor splits a source transaction")
    let data ← .ofExcept (T.prepare d.appliedLsn transactions d.data)
    let (data, applied) ← .ofExcept
      (applyEntries T tables d.appliedLsn 0 (tailEntries transactions) data 0)
    .modify fun d => { d with data, appliedLsn := max d.appliedLsn (lastLsnOf transactions) }
    pure applied

/-! ## Runs -/

def TailDest.new (data : δ) : TailDest δ where
  stagedLsn := 0
  appliedLsn := 0
  inboxRows := 0
  inboxBytes := 0
  inboxClosed := false
  inbox := .empty
  data

/-- The tables with the rows that were applied to them. -/
def TailTables.logged (T : TailTables δ) : TailTables (δ × List TailEntry) where
  prepare appliedLsn transactions p :=
    (T.prepare appliedLsn transactions p.1).map fun data => (data, p.2)
  replayed e p := T.replayed e p.1
  apply e p := (T.apply e p.1).map fun r => ((r.1, p.2 ++ [e]), r.2)

inductive InboxOp
  | stage (movement : Except Thrown Unit) (tables : List String) (transactions : List TailTransaction)
  | read (movement : Except Thrown Unit) (limit : Int)
  | apply (movement : Except Thrown Unit) (tables : List String) (transactions : List TailTransaction)
  | ack (movement : Except Thrown Unit) (throughLsn : Int)
  | close (movement : Except Thrown Unit)

/-- A destination with the transactions that it accepted. -/
structure InboxWorld (δ : Type) where
  dest : TailDest (δ × List TailEntry)
  accepted : List TailTransaction

namespace InboxWorld

def new (data : δ) : InboxWorld δ := ⟨.new (data, []), []⟩

/-- A batch is accepted where the call returns. -/
def accept (x : InboxWorld δ) (transactions : List TailTransaction) :
    Except Thrown Int × TailDest (δ × List TailEntry) → InboxWorld δ
  | (.ok _, dest) => ⟨dest, x.accepted ++ transactions⟩
  | (.error _, dest) => ⟨dest, x.accepted⟩

variable (ν : Type) [JsNumber ν] (T : TailTables δ)

def step (x : InboxWorld δ) : InboxOp → InboxWorld δ
  | .stage movement tables transactions =>
    x.accept transactions (stageTailBatch ν movement tables transactions x.dest)
  | .read movement limit => { x with dest := (readStagedTailBatch ν movement limit).after x.dest }
  | .apply movement tables transactions =>
    { x with dest := (applyTailBatch ν T.logged movement tables transactions).after x.dest }
  | .ack movement throughLsn => { x with dest := (ackStagedTail movement throughLsn).after x.dest }
  | .close movement => { x with dest := (closeTailStaging movement).after x.dest }

def run (x : InboxWorld δ) : List InboxOp → InboxWorld δ
  | [] => x
  | op :: ops => (x.step ν T op).run ops

end InboxWorld

end Chardb.Reshard
