import Chardb.OpLog.CapturedRow
import Chardb.Reshard.SplitState

/-!
# The split-oplog store

The replay outcomes of a moving range: the source captures each one when it commits
and seeds those retained from before, one page a read; `readSplitOpLogBatch` hands
them out in LSN order, `ackSplitOpLog` prunes what the destination has, and
`applySplitOpLogBatch` rebuilds the op-log rows there with its own cursor.
-/

namespace Chardb.OpLog

open Chardb.Lib Chardb.Reshard

def CDB_SPLIT_OPLOG_MAX_ROWS : Int := 4096
def CDB_SPLIT_OPLOG_MAX_BYTES : Int := 67108864
def CDB_SPLIT_OPLOG_MAX_ROW_BYTES : Int := 1048576
def CDB_SPLIT_OPLOG_MAX_BATCH_ROWS : Int := 64
def CDB_SPLIT_OPLOG_MAX_BATCH_BYTES : Int := 4194304

/-! ## Tables -/

/-- A row of `_chardb_split_oplog`. -/
structure SplitOplogRow where
  lsn : Int
  migId : String
  oplogRow : ByteArray
  ts : Int
  deriving DecidableEq

abbrev SplitOplogTable := Table SplitOplogRow.lsn fun _ => True

/-- A row of `_chardb_split_oplog_key`. -/
structure SplitOplogKeyRow where
  migId : String
  principalId : String
  mutId : String
  lsn : Int
  deriving DecidableEq

def SplitOplogKeyRow.key (r : SplitOplogKeyRow) : String × String × String :=
  (r.migId, r.principalId, r.mutId)

abbrev SplitOplogKeyTable := Table SplitOplogKeyRow.key fun r => 0 < r.lsn

/-- A row of `_chardb_split_oplog_accounting`. -/
structure AccountingRow where
  migId : String
  ackedLsn : Int := 0
  retainedRows : Int := 0
  retainedBytes : Int := 0
  seedAfterEventId : Int := 0
  seedMaxEventId : Int := 0
  seedDone : Bool := true
  updatedAt : Int
  deriving DecidableEq

def AccountingRow.check (r : AccountingRow) : Prop :=
  0 ≤ r.ackedLsn ∧ 0 ≤ r.retainedRows ∧ 0 ≤ r.retainedBytes ∧ 0 ≤ r.seedAfterEventId ∧
    0 ≤ r.seedMaxEventId ∧ 0 ≤ r.updatedAt

instance : DecidablePred AccountingRow.check := fun _ => inferInstanceAs (Decidable (_ ∧ _))

abbrev AccountingTable := Table AccountingRow.migId AccountingRow.check

/-- A row of `_chardb_split_oplog_cursor`. -/
structure SplitOplogCursorRow where
  migId : String
  rangeLo : Int
  rangeHi : Int
  appliedLsn : Int
  appliedRows : Int
  updatedAt : Int
  deriving DecidableEq

def SplitOplogCursorRow.check (r : SplitOplogCursorRow) : Prop :=
  (0 ≤ r.rangeLo ∧ r.rangeLo < VSHARD_COUNT) ∧ (r.rangeLo ≤ r.rangeHi ∧ r.rangeHi < VSHARD_COUNT) ∧
    0 ≤ r.appliedLsn ∧ 0 ≤ r.appliedRows ∧ 0 ≤ r.updatedAt

instance : DecidablePred SplitOplogCursorRow.check := fun _ => inferInstanceAs (Decidable (_ ∧ _))

abbrev SplitOplogCursorTable := Table SplitOplogCursorRow.migId SplitOplogCursorRow.check

/-- A row of `_chardb_split_oplog_applied`. -/
structure AppliedRow where
  migId : String
  principalId : String
  mutId : String
  inserted : Bool
  deriving DecidableEq

def AppliedRow.key (r : AppliedRow) : String × String × String := (r.migId, r.principalId, r.mutId)

abbrev AppliedTable := Table AppliedRow.key fun _ => True

/-- The split tables of a shard; `lastLsn` is the last LSN that `AUTOINCREMENT` has given out. -/
structure SplitDb where
  splitState : SplitStateTable
  splitOplog : SplitOplogTable
  lastLsn : Int
  keys : SplitOplogKeyTable
  accounting : AccountingTable
  cursors : SplitOplogCursorTable
  applied : AppliedTable

def SplitDb.empty : SplitDb := ⟨.empty, .empty, 0, .empty, .empty, .empty, .empty⟩

/-- What stands beside the op-log of a shard: its split tables and its domain tables. -/
structure CdbRest (δ : Type) where
  split : SplitDb
  domain : δ

/-- A shard, as far as mutations and their replay go. -/
abbrev Cdb (δ : Type) := OpLogDb (CdbRest δ)

variable {δ : Type} {α : Type}

def Cdb.empty (domain : δ) : Cdb δ := ⟨.empty, .empty, domain⟩

abbrev SplitTx := Tx Thrown SplitDb

def onSplit (x : SplitTx α) : Tx Thrown (Cdb δ) α :=
  .zoom (fun db => db.domain.split) (fun db split => { db with domain := { db.domain with split } }) x

def onSplitState : Tx Thrown SplitStateTable α → SplitTx α :=
  .zoom SplitDb.splitState fun db splitState => { db with splitState }

def onSplitOplog : Tx Thrown SplitOplogTable α → SplitTx α :=
  .zoom SplitDb.splitOplog fun db splitOplog => { db with splitOplog }

def onKeys : Tx Thrown SplitOplogKeyTable α → SplitTx α :=
  .zoom SplitDb.keys fun db keys => { db with keys }

def onAccounting : Tx Thrown AccountingTable α → SplitTx α :=
  .zoom SplitDb.accounting fun db accounting => { db with accounting }

def onCursors : Tx Thrown SplitOplogCursorTable α → SplitTx α :=
  .zoom SplitDb.cursors fun db cursors => { db with cursors }

def onApplied : Tx Thrown AppliedTable α → SplitTx α :=
  .zoom SplitDb.applied fun db applied => { db with applied }

/-! ## Checks and errors -/

def splitBacklog (message : String) : Thrown :=
  .cdb
    { code := .rateLimited, message
      hint := some "retry after the active split copies its captured mutation outcomes" }

def outcomeCollision (mutId message : String) : Thrown :=
  .cdb
    { code := .mutIdCollision, message := "mutId=" ++ mutId ++ " " ++ message
      hint := some "stop the split and inspect both op-log rows before retrying" }

section
variable {σ : Type}

def assertVshard (value : Int) : Tx Thrown σ Unit :=
  .require (IsVshard value) (invalidArgs "split-oplog vshard is invalid")

def assertRange (lo hi : Int) : Tx Thrown σ Unit := do
  assertVshard lo
  assertVshard hi
  .require (lo ≤ hi) (invalidArgs "split-oplog range is invalid")

def assertCursor (value : Int) : Tx Thrown σ Unit :=
  .require (IsCounter value) (invalidArgs "split-oplog cursor is invalid")

end

/-! ## Source accounting -/

def AccountingRow.Valid (r : AccountingRow) : Prop :=
  IsCounter r.ackedLsn ∧ IsCounter r.retainedRows ∧ IsCounter r.retainedBytes ∧
    IsCounter r.seedAfterEventId ∧ IsSafeInteger r.seedMaxEventId ∧
    r.seedAfterEventId ≤ r.seedMaxEventId ∧ r.retainedRows ≤ CDB_SPLIT_OPLOG_MAX_ROWS ∧
    r.retainedBytes ≤ CDB_SPLIT_OPLOG_MAX_BYTES

instance (r : AccountingRow) : Decidable r.Valid := inferInstanceAs (Decidable (_ ∧ _))

def accountingMalformed : Thrown :=
  invariantError "split-oplog durable accounting is missing or malformed"

def requiredSourceAccounting (migId : String) : SplitTx AccountingRow := do
  let found ← .gets fun db => db.accounting.find? migId
  let row ← .ofOption found accountingMalformed
  .require row.Valid accountingMalformed
  pure row

def ensureSourceAccounting (migId : String) (nowMs : Int) : SplitTx Nat :=
  onAccounting (Table.insertIgnore { migId, updatedAt := nowMs })

/-! ## Capture -/

/-- The key was captured before: its row must be the same. -/
def checkCaptured (migId mutId : String) (encoded : ByteArray) (prior : SplitOplogKeyRow) :
    SplitTx Nat := do
  let captured ← .gets fun db => (db.splitOplog.find? prior.lsn).filter fun r => r.migId = migId
  .require (captured.map (·.oplogRow) = some encoded)
    (outcomeCollision mutId "captured split outcome differs from the committed op-log row")
  pure 0

/-- `INSERT INTO _chardb_split_oplog`, with the next LSN, which it answers. -/
def insertSplitOplog (migId : String) (encoded : ByteArray) (nowMs : Int) : SplitTx Int := do
  let lsn ← .gets fun db => db.lastLsn + 1
  onSplitOplog (Table.insert { lsn, migId, oplogRow := encoded, ts := nowMs }
    (.constraint "_chardb_split_oplog"))
  .modify fun db => { db with lastLsn := lsn }
  pure lsn

def captureFresh (migId principalId mutId : String) (encoded : ByteArray) (nowMs : Int) :
    SplitTx Nat := do
  let _ ← requiredSourceAccounting migId
  let changes ← onAccounting (Table.update
    (fun r => decide (r.migId = migId) && r.retainedRows < CDB_SPLIT_OPLOG_MAX_ROWS &&
      r.retainedBytes ≤ CDB_SPLIT_OPLOG_MAX_BYTES - encoded.size)
    (fun r => { r with
      retainedRows := r.retainedRows + 1
      retainedBytes := r.retainedBytes + encoded.size
      updatedAt := nowMs })
    (.constraint "_chardb_split_oplog_accounting"))
  .require (changes = 1) (splitBacklog "split-oplog backlog reached its durable capture limit")
  let lsn ← insertSplitOplog migId encoded nowMs
  .require (IsSafeInteger lsn ∧ 1 ≤ lsn)
    (invariantError "split-oplog insert did not return a valid LSN")
  onKeys (Table.insert { migId, principalId, mutId, lsn } (.constraint "_chardb_split_oplog_key"))
  pure 1

def captureEncodedForMigration (migId principalId mutId : String) (encoded : ByteArray)
    (nowMs : Int) : SplitTx Nat := do
  let prior ← .gets fun db => db.keys.find? (migId, principalId, mutId)
  match prior with
  | some prior => checkCaptured migId mutId encoded prior
  | none => captureFresh migId principalId mutId encoded nowMs

variable (ν : Type) [JsNumber ν]

/-- Capture the outcome of a mutation for the split that contains it. -/
def captureForSplit (migId principalId mutId : String) (vshard nowMs : Int) :
    Tx Thrown (Cdb δ) Nat := do
  let found ← .gets fun db => db.opLog.rows.find? (principalId, mutId)
  let row ← .ofOption found
    (invariantError "committed mutation op-log row disappeared before split capture")
  let encoded ← .ofExcept (encodeCapturedRow ν row vshard)
  .require (encoded.size ≤ CDB_SPLIT_OPLOG_MAX_ROW_BYTES)
    (splitBacklog "one replay outcome exceeds the split-oplog row limit")
  let _ ← onSplit (ensureSourceAccounting migId nowMs)
  onSplit (captureEncodedForMigration migId principalId mutId encoded nowMs)

/-- The active source splits that capture a vshard. -/
def capturingSplits (db : SplitDb) (vshard : Int) : List SplitStateRow :=
  db.splitState.select fun r => r.role = .source && r.capture && !r.drained && r.covers vshard

def captureSplitOpLogOutcome (principalId mutId : String) (vshard nowMs : Int) :
    Tx Thrown (Cdb δ) Nat := do
  assertVshard vshard
  let splits ← .gets fun db => capturingSplits db.domain.split vshard
  .require (splits.length ≤ 1) (invariantError "overlapping active split-oplog capture ranges")
  match splits with
  | [] => pure 0
  | split :: _ => captureForSplit ν split.migId principalId mutId vshard nowMs

/-! ## Seeding -/

/-- The rows of the op-log placed in a range. -/
def inRange (lo hi : Int) (r : OpLogRow) : Bool :=
  r.placementVshard.any fun v => lo ≤ v && v ≤ hi

/-- The last event id of a range, 0 when it has none. -/
def maxEventId (log : Ledger) (lo hi : Int) : Int :=
  ((log.rows.select (inRange lo hi)).map fun r => (r.eventId : Int)).max?.getD 0

/-- The first accounting row of a migration, over the retained history of its range. -/
def seedAccounting (migId : String) (maxEventId nowMs : Int) : SplitTx Unit := do
  .require (IsCounter maxEventId) (invariantError "split-oplog seed watermark is invalid")
  let _ ← onAccounting (Table.insertIgnore
    { migId, seedMaxEventId := maxEventId, seedDone := maxEventId = 0, updatedAt := nowMs })
  pure ()

/-- `seedSplitOpLogRange`; a migration that has its accounting is left alone. -/
def seedSplitOpLogRange (migId : String) (lo hi nowMs : Int) : Tx Thrown (Cdb δ) Unit := do
  assertRange lo hi
  let existing ← .gets fun db => db.domain.split.accounting.find? migId
  let maxEventId ← .gets fun db => maxEventId db.opLog lo hi
  if existing.isSome then pure () else onSplit (seedAccounting migId maxEventId nowMs)

/-- How far one page of the seed has come. -/
structure SeedProgress where
  captured : Nat
  afterEventId : Int
  retainedBytes : Int

/-- The loop over one page of rows; it stops before the first that does not fit. -/
def seedRows (migId : String) (nowMs : Int) : List OpLogRow → SeedProgress → SplitTx SeedProgress
  | [], p => pure p
  | row :: rows, p => do
    let vshard ← .ofOption row.placementVshard (invalidArgs "split-oplog vshard is invalid")
    assertVshard vshard
    .require (IsSafeInteger row.eventId ∧ p.afterEventId < row.eventId)
      (invariantError "split-oplog seed event cursor is invalid")
    let encoded ← .ofExcept (encodeCapturedRow ν row vshard)
    .require (encoded.size ≤ CDB_SPLIT_OPLOG_MAX_ROW_BYTES)
      (splitBacklog "one retained replay outcome exceeds the split-oplog row limit")
    if p.retainedBytes + encoded.size > CDB_SPLIT_OPLOG_MAX_BYTES then pure p
    else do
      let captured ← captureEncodedForMigration migId row.principalId row.mutId encoded nowMs
      seedRows migId nowMs rows
        ⟨p.captured + captured, row.eventId, p.retainedBytes + encoded.size⟩

/-- The rows the seed has still to come to, in order. -/
def pendingRows (log : Ledger) (state : SplitStateRow) (accounting : AccountingRow) :
    List OpLogRow :=
  log.rows.orderBy
    (fun r => inRange state.rangeLo state.rangeHi r && (accounting.seedAfterEventId < r.eventId &&
      r.eventId ≤ accounting.seedMaxEventId)) fun r => (r.eventId : Int)

/-- The rows the next page of the seed starts with. -/
def seedPage (log : Ledger) (state : SplitStateRow) (accounting : AccountingRow) : List OpLogRow :=
  (pendingRows log state accounting).take
    (min CDB_SPLIT_OPLOG_MAX_BATCH_ROWS
      (CDB_SPLIT_OPLOG_MAX_ROWS - accounting.retainedRows)).toNat

/-- Capture a page and move the seed cursor over it. -/
def seedFromPage (migId : String) (nowMs : Int) (accounting : AccountingRow) (rows : List OpLogRow) :
    SplitTx Nat := do
  let p ← seedRows ν migId nowMs rows ⟨0, accounting.seedAfterEventId, accounting.retainedBytes⟩
  let changes ← onAccounting (Table.update
    (fun r => decide (r.migId = migId) &&
      (decide (r.seedAfterEventId = accounting.seedAfterEventId) && !r.seedDone))
    (fun r => { r with
      seedAfterEventId := p.afterEventId
      seedDone := accounting.seedMaxEventId ≤ p.afterEventId || rows.isEmpty
      updatedAt := nowMs })
    (.constraint "_chardb_split_oplog_accounting"))
  .require (changes = 1) (invariantError "split-oplog seed cursor changed concurrently")
  pure p.captured

/-- A seed that is not done, in the range of its split. -/
def seedSplitPage (migId : String) (nowMs : Int) (accounting : AccountingRow) :
    Tx Thrown (Cdb δ) Nat := do
  let found ← .gets fun db => db.domain.split.splitState.find? migId
  let state ← .ofOption (found.filter fun r => r.role = .source && !r.drained)
    (invariantError "active split-oplog seed has no source split state")
  assertRange state.rangeLo state.rangeHi
  let rows ← .gets fun db => seedPage db.opLog state accounting
  if CDB_SPLIT_OPLOG_MAX_ROWS - accounting.retainedRows < 1 then pure 0
  else onSplit (seedFromPage ν migId nowMs accounting rows)

/-- Materialize one page of the history from before the split. -/
def seedSplitOpLogPage (migId : String) (nowMs : Int) : Tx Thrown (Cdb δ) Nat := do
  let accounting ← onSplit (requiredSourceAccounting migId)
  if accounting.seedDone then pure 0 else seedSplitPage ν migId nowMs accounting

/-! ## Reading and pruning -/

structure SplitOpLogEntry where
  lsn : Int
  oplogRow : ByteArray
  deriving DecidableEq

structure SplitOpLogBatch where
  entries : List SplitOpLogEntry
  lastLsn : Int
  done : Bool
  deriving DecidableEq

/-- The loop over the retained rows: as many as the limits of a batch allow. -/
def takeEntries : Nat → Int → Bool → List SplitOplogRow → SplitTx (List SplitOpLogEntry)
  | 0, _, _, _ => pure []
  | _, _, _, [] => pure []
  | limit + 1, bytes, first, row :: rows => do
    assertCursor row.lsn
    .require (1 ≤ row.oplogRow.size ∧ row.oplogRow.size ≤ CDB_SPLIT_OPLOG_MAX_ROW_BYTES)
      (invariantError "stored split-oplog row exceeds its encoded byte limit")
    if !first && bytes + row.oplogRow.size > CDB_SPLIT_OPLOG_MAX_BATCH_BYTES then pure []
    else do
      let entries ← takeEntries limit (bytes + row.oplogRow.size) false rows
      pure (⟨row.lsn, row.oplogRow⟩ :: entries)

/-- The rows of a migration after an LSN, in order. -/
def retainedAfter (db : SplitDb) (migId : String) (afterLsn : Int) : List SplitOplogRow :=
  db.splitOplog.orderBy (fun r => r.migId = migId && afterLsn < r.lsn) SplitOplogRow.lsn

/-- What a read answers after it has seeded. -/
def readEntries (migId : String) (afterLsn limit : Int) : SplitTx SplitOpLogBatch := do
  let rows ← .gets fun db => (retainedAfter db migId afterLsn).take (limit + 1).toNat
  let entries ← takeEntries limit.toNat 0 true rows
  let lastLsn := (entries.getLast?.map (·.lsn)).getD afterLsn
  let remains ← .gets fun db => retainedAfter db migId lastLsn
  let accounting ← requiredSourceAccounting migId
  pure { entries, lastLsn, done := remains.isEmpty && accounting.seedDone }

def readSplitOpLogBatch (migId : String) (afterLsn limit nowMs : Int) :
    Tx Thrown (Cdb δ) SplitOpLogBatch := do
  assertCursor afterLsn
  .require (IsSafeInteger limit ∧ 1 ≤ limit ∧ limit ≤ CDB_SPLIT_OPLOG_MAX_BATCH_ROWS)
    (invalidArgs ("split-oplog batch limit must be from 1 through " ++
      toString CDB_SPLIT_OPLOG_MAX_BATCH_ROWS))
  let _ ← seedSplitOpLogPage ν migId nowMs
  onSplit (readEntries migId afterLsn limit)

/-- Prune the rows of the acknowledged span. -/
def pruneAcked (migId : String) (throughLsn nowMs : Int) (accounting : AccountingRow)
    (span : List SplitOplogRow) : SplitTx Unit := do
  let bytes : Int := (span.map fun r => (r.oplogRow.size : Int)).sum
  .require (1 ≤ span.length ∧ (span.length : Int) ≤ CDB_SPLIT_OPLOG_MAX_ROWS)
    (invariantError "split-oplog acknowledgement span is invalid")
  .require (∀ r ∈ span, 1 ≤ r.oplogRow.size) (invariantError "split-oplog prune size is invalid")
  .require (IsSafeInteger bytes ∧ (span.length : Int) ≤ accounting.retainedRows ∧
      bytes ≤ accounting.retainedBytes)
    (invariantError "split-oplog acknowledgement exceeds durable accounting")
  let _ ← onKeys (Table.delete fun r => r.migId = migId && r.lsn ≤ throughLsn)
  let changes ← onSplitOplog (Table.delete fun r => r.migId = migId && r.lsn ≤ throughLsn)
  .require (changes = span.length)
    (invariantError "split-oplog prune count differs from its acknowledged span")
  let changes ← onAccounting (Table.update
    (fun r => decide (r.migId = migId) && (decide (r.ackedLsn = accounting.ackedLsn) &&
      (decide ((span.length : Int) ≤ r.retainedRows) && decide (bytes ≤ r.retainedBytes))))
    (fun r => { r with
      ackedLsn := throughLsn
      retainedRows := r.retainedRows - span.length
      retainedBytes := r.retainedBytes - bytes
      updatedAt := nowMs })
    (.constraint "_chardb_split_oplog_accounting"))
  .require (changes = 1)
    (invariantError "split-oplog acknowledgement cursor changed concurrently")

/-- An acknowledgement past the durable one. -/
def advanceAck (migId : String) (throughLsn nowMs : Int) (accounting : AccountingRow) :
    SplitTx Unit := do
  let endpoint ← .gets fun db => db.splitOplog.find? throughLsn
  .require (endpoint.any fun r => r.migId = migId)
    (invalidArgs "split-oplog acknowledgement must end at a retained row")
  let span ← .gets fun db =>
    ((retainedAfter db migId accounting.ackedLsn).filter fun r => r.lsn ≤ throughLsn).take
      (CDB_SPLIT_OPLOG_MAX_ROWS + 1).toNat
  pruneAcked migId throughLsn nowMs accounting span

def ackSplitOpLog (migId : String) (throughLsn nowMs : Int) : SplitTx Unit := do
  assertCursor throughLsn
  let accounting ← requiredSourceAccounting migId
  .require (accounting.ackedLsn ≤ throughLsn)
    (invalidArgs "split-oplog acknowledgement regressed")
  if throughLsn = accounting.ackedLsn then pure ()
  else advanceAck migId throughLsn nowMs accounting

/-! ## The destination -/

def requiredCursor (migId : String) : SplitTx SplitOplogCursorRow := do
  let found ← .gets fun db => db.cursors.find? migId
  let row ← .ofOption found (invariantError "split-oplog destination cursor is missing")
  assertRange row.rangeLo row.rangeHi
  assertCursor row.appliedLsn
  pure row

def beginSplitOpLogDestination (migId : String) (lo hi nowMs : Int) : SplitTx Unit := do
  assertRange lo hi
  let _ ← onCursors (Table.insertIgnore
    { migId, rangeLo := lo, rangeHi := hi, appliedLsn := 0, appliedRows := 0, updatedAt := nowMs })
  let cursor ← requiredCursor migId
  .require (cursor.rangeLo = lo ∧ cursor.rangeHi = hi)
    (invariantError "split-oplog destination migration id belongs to a different range")

/-- The first loop of an apply: check and decode the entries. -/
def decodeEntries {σ : Type} (lo hi : Int) : Int → Int → List SplitOpLogEntry →
    Tx Thrown σ (List (Int × CapturedOpLog))
  | _, _, [] => pure []
  | previousLsn, encodedBytes, entry :: entries => do
    assertCursor entry.lsn
    .require (previousLsn < entry.lsn)
      (invalidArgs "split-oplog batch LSNs must be strictly increasing")
    .require (1 ≤ entry.oplogRow.size ∧ entry.oplogRow.size ≤ CDB_SPLIT_OPLOG_MAX_ROW_BYTES ∧
        encodedBytes + entry.oplogRow.size ≤ CDB_SPLIT_OPLOG_MAX_BATCH_BYTES)
      (invalidArgs "split-oplog batch exceeds its encoded byte limit")
    let row ← .ofExcept (decodeCapturedRow ν entry.oplogRow)
    .require (lo ≤ row.vshard ∧ row.vshard ≤ hi)
      (invariantError "split-oplog row falls outside its destination range")
    let rows ← decodeEntries lo hi entry.lsn (encodedBytes + entry.oplogRow.size) entries
    pure ((entry.lsn, row) :: rows)

/-- The row that was not inserted must be there already. -/
def checkExisting (row : CapturedOpLog) (inserted : Bool) : Tx Thrown (Cdb δ) Unit := do
  let existing ← .gets fun db => db.opLog.rows.find? (row.principalId, row.mutId)
  .require (inserted ∨ ∃ r, existing = some r ∧ SameOpLogRow r row)
    (outcomeCollision row.mutId "destination has a different replay outcome for this mutation id")

/-- The second loop of an apply, for one entry: it answers whether the row was inserted. -/
def applyEntry (migId : String) (row : CapturedOpLog) : Tx Thrown (Cdb δ) Bool := do
  let priorApply ← .gets fun db => db.domain.split.applied.find? (migId, row.principalId, row.mutId)
  let changes ← onOpLog (Ledger.insertOrIgnore row.toRow)
  .require (¬ (priorApply.isSome ∧ changes = 1))
    (invariantError "destination split-oplog ledger exists without its reconstructed op-log row")
  checkExisting row (changes = 1)
  let _ ← onSplit (onApplied (Table.insertIgnore
    { migId, principalId := row.principalId, mutId := row.mutId, inserted := changes = 1 }))
  pure (changes = 1)

def applyEntries (migId : String) : List (Int × CapturedOpLog) → Tx Thrown (Cdb δ) Nat
  | [] => pure 0
  | (_, row) :: rows => do
    let inserted ← applyEntry migId row
    let applied ← applyEntries migId rows
    pure (applied + if inserted then 1 else 0)

structure SplitOpLogApplyResult where
  applied : Nat
  replayed : Nat
  lastLsn : Int
  deriving DecidableEq

/-- A batch lies on one side of the cursor. -/
def OneSide (decoded : List (Int × CapturedOpLog)) (appliedLsn : Int) : Prop :=
  ∀ first ∈ decoded.head?, ∀ last ∈ decoded.getLast?,
    last.1 ≤ appliedLsn ∨ appliedLsn < first.1

instance (decoded : List (Int × CapturedOpLog)) (appliedLsn : Int) :
    Decidable (OneSide decoded appliedLsn) :=
  match h : decoded.head?, h' : decoded.getLast? with
  | some first, some last =>
    decidable_of_iff (last.1 ≤ appliedLsn ∨ appliedLsn < first.1) (by simp [OneSide, h, h'])
  | none, _ => isTrue (by simp [OneSide, h])
  | _, none => isTrue (by simp [OneSide, h'])

/-- Move the cursor over an applied batch. -/
def advanceCursor (migId : String) (cursor : SplitOplogCursorRow) (lastLsn : Int) (applied : Nat)
    (nowMs : Int) : SplitTx Unit := do
  let changes ← onCursors (Table.update
    (fun r => decide (r.migId = migId) && decide (r.appliedLsn = cursor.appliedLsn))
    (fun r => { r with
      appliedLsn := lastLsn
      appliedRows := r.appliedRows + applied
      updatedAt := nowMs })
    (.constraint "_chardb_split_oplog_cursor"))
  .require (changes = 1)
    (invariantError "split-oplog destination cursor changed during apply")

def applySplitOpLogBatch (migId : String) (lo hi : Int) (entries : List SplitOpLogEntry)
    (nowMs : Int) : Tx Thrown (Cdb δ) SplitOpLogApplyResult := do
  assertRange lo hi
  .require ((entries.length : Int) ≤ CDB_SPLIT_OPLOG_MAX_BATCH_ROWS)
    (invalidArgs ("split-oplog batch contains more than " ++
      toString CDB_SPLIT_OPLOG_MAX_BATCH_ROWS ++ " rows"))
  let cursor ← onSplit (requiredCursor migId)
  .require (cursor.rangeLo = lo ∧ cursor.rangeHi = hi)
    (invariantError "split-oplog apply range differs from its durable destination identity")
  let decoded ← decodeEntries ν lo hi 0 0 entries
  .require (OneSide decoded cursor.appliedLsn)
    (invariantError "split-oplog batch crosses its durable apply cursor")
  let applied ← applyEntries migId decoded
  let lastLsn := (decoded.getLast?.map (·.1)).getD cursor.appliedLsn
  if cursor.appliedLsn < lastLsn then do
    onSplit (advanceCursor migId cursor lastLsn applied nowMs)
    pure ⟨applied, decoded.length - applied, lastLsn⟩
  else pure ⟨applied, decoded.length - applied, lastLsn⟩

end Chardb.OpLog
