import Chardb.OpLog.SplitStore
import Mathlib.Data.Prod.Lex

/-!
# Op-log retention

`maintain` deletes expired rows of the op-log, oldest first and a bounded number at a
time, unless the shard takes part in a split.
-/

namespace Chardb.OpLog

open Chardb.Lib Chardb.Reshard

variable {δ : Type}

def CDB_OPLOG_RETENTION_MS : Int := 86400000
def CDB_OPLOG_RETENTION_BATCH : Nat := 128

structure CdbOpLogRetentionResult where
  deleted : Nat
  blockedBySplit : Bool
  nextAt : Option Int
  deriving DecidableEq

def hasActiveSplit (db : SplitDb) : Bool := !(db.splitState.select SplitStateRow.active).isEmpty

/-- The rows committed up to `cutoff`, oldest first. -/
def expiredRows (log : Ledger) (cutoff : Int) : List OpLogRow :=
  (log.rows.orderBy (fun r => r.committedAt ≤ cutoff) fun r => toLex (r.committedAt, r.eventId)).take
    (CDB_OPLOG_RETENTION_BATCH + 1)

/-- The deletes of one cleanup. -/
def deleteExpired (cutoff : Int) : List OpLogRow → Tx Thrown Ledger Unit
  | [] => pure ()
  | row :: rows => do
    .require (IsSafeInteger row.eventId ∧ 1 ≤ row.eventId)
      (invariantError "op-log retention event id is invalid")
    let changes ← .zoom Ledger.rows (fun log rows => { log with rows })
      (Table.delete fun r => r.eventId = row.eventId && r.committedAt ≤ cutoff)
    .require (changes = 1) (invariantError "op-log retention row changed during cleanup")
    deleteExpired cutoff rows

/-- The row that expires next. -/
def oldestRow (log : Ledger) : Option OpLogRow :=
  (log.rows.orderBy (fun _ => true) fun r => toLex (r.committedAt, r.eventId)).head?

/-- When the next row expires, after a cleanup that left none behind. -/
def nextExpiry (log : Ledger) (nowMs : Int) : Option Int :=
  (oldestRow log).map fun oldest => max (nowMs + 1) (oldest.committedAt + CDB_OPLOG_RETENTION_MS)

def cleanUp (nowMs : Int) : Tx Thrown Ledger CdbOpLogRetentionResult := do
  let expired ← .gets fun log => expiredRows log (nowMs - CDB_OPLOG_RETENTION_MS)
  deleteExpired (nowMs - CDB_OPLOG_RETENTION_MS) (expired.take CDB_OPLOG_RETENTION_BATCH)
  let deleted := min expired.length CDB_OPLOG_RETENTION_BATCH
  if CDB_OPLOG_RETENTION_BATCH < expired.length then pure ⟨deleted, false, some (nowMs + 1)⟩
  else do
    let oldest ← .gets oldestRow
    match oldest with
    | none => pure ⟨deleted, false, none⟩
    | some oldest => do
      .require (IsCounter oldest.committedAt) (invalidArgs "op-log retention timestamp is invalid")
      pure ⟨deleted, false, some (max (nowMs + 1) (oldest.committedAt + CDB_OPLOG_RETENTION_MS))⟩

/-- `CdbOpLogRetentionStore.maintain`. -/
def maintain (nowMs : Int) : Tx Thrown (Cdb δ) CdbOpLogRetentionResult := .transactionSync do
  .require (IsCounter nowMs) (invalidArgs "op-log retention timestamp is invalid")
  let blocked ← .gets fun db => hasActiveSplit db.domain.split
  if blocked then pure ⟨0, true, none⟩ else onOpLog (cleanUp nowMs)

/-! ## What it leaves -/

theorem hasActiveSplit_of_mem {db : SplitDb} {r : SplitStateRow} (hr : r ∈ db.splitState)
    (hd : r.drained = false) : hasActiveSplit db = true := by
  have hsel : r ∈ db.splitState.select SplitStateRow.active :=
    Table.mem_select.mpr ⟨hr, by rw [SplitStateRow.active, hd]; rfl⟩
  rw [hasActiveSplit, Bool.not_eq_true', List.isEmpty_eq_false_iff]
  exact List.ne_nil_of_mem hsel

theorem deleteExpired_returns {cutoff : Int} {rows : List OpLogRow} {log log' : Ledger} {u : Unit}
    (h : (deleteExpired cutoff rows).Returns log u log') :
    log'.lastEventId = log.lastEventId ∧ ∀ r ∈ log'.rows, r ∈ log.rows := by
  induction rows generalizing log with
  | nil =>
    obtain ⟨-, rfl⟩ := Tx.pure_returns.mp h
    exact ⟨rfl, fun _ hr => hr⟩
  | cons row rows ih =>
    simp only [deleteExpired, Tx.bind_returns, Tx.require_returns, Tx.zoom_returns,
      Table.delete_returns] at h
    obtain ⟨_, _, ⟨-, rfl⟩, n, _, ⟨t, ⟨rfl, -⟩, rfl⟩, _, _, ⟨-, rfl⟩, h⟩ := h
    obtain ⟨hlast, hrows⟩ := ih h
    exact ⟨hlast, fun r hr => (Table.mem_deleteWhere.mp (hrows r hr)).1⟩

/-- A cleanup deletes a batch, and checks when the oldest row that is left was committed. -/
theorem cleanUp_returns_iff {nowMs : Int} {res : CdbOpLogRetentionResult} {log log' : Ledger} :
    (cleanUp nowMs).Returns log res log' ↔
      let cutoff := nowMs - CDB_OPLOG_RETENTION_MS
      let expired := expiredRows log cutoff
      (deleteExpired cutoff (expired.take CDB_OPLOG_RETENTION_BATCH)).Returns log () log' ∧
      (CDB_OPLOG_RETENTION_BATCH < expired.length ∨
        ∀ oldest, oldestRow log' = some oldest → IsCounter oldest.committedAt) ∧
      res = ⟨min expired.length CDB_OPLOG_RETENTION_BATCH, false,
        if CDB_OPLOG_RETENTION_BATCH < expired.length then some (nowMs + 1)
        else nextExpiry log' nowMs⟩ := by
  simp only [cleanUp, Tx.bind_returns, Tx.gets_returns]
  constructor
  · rintro ⟨expired, _, ⟨rfl, rfl⟩, u, mid, hdel, h⟩
    rcases Tx.ite_returns.mp h with ⟨hlen, h⟩ | ⟨hlen, h⟩
    · obtain ⟨rfl, rfl⟩ := Tx.pure_returns.mp h
      exact ⟨hdel, .inl hlen, by rw [if_pos hlen]⟩
    · simp only [Tx.bind_returns, Tx.gets_returns] at h
      obtain ⟨oldest, _, ⟨rfl, rfl⟩, h⟩ := h
      rw [if_neg hlen, nextExpiry]
      cases hold : oldestRow mid with
      | none =>
        rw [hold] at h
        obtain ⟨rfl, rfl⟩ := Tx.pure_returns.mp h
        refine ⟨hdel, .inr fun oldest ho => ?_, ?_⟩
        · rw [hold] at ho
          cases ho
        · rw [hold]
          rfl
      | some oldest =>
        rw [hold] at h
        simp only [Tx.bind_returns, Tx.require_returns, Tx.pure_returns] at h
        obtain ⟨_, _, ⟨hcounter, rfl⟩, rfl, rfl⟩ := h
        refine ⟨hdel, .inr fun row ho => ?_, ?_⟩
        · rw [hold] at ho
          exact Option.some.inj ho ▸ hcounter
        · rw [hold]
          rfl
  · rintro ⟨hdel, hcounter, rfl⟩
    refine ⟨_, log, ⟨rfl, rfl⟩, (), log', hdel, Tx.ite_returns.mpr ?_⟩
    by_cases hlen : CDB_OPLOG_RETENTION_BATCH <
        (expiredRows log (nowMs - CDB_OPLOG_RETENTION_MS)).length
    · exact .inl ⟨hlen, Tx.pure_returns.mpr ⟨by rw [if_pos hlen], rfl⟩⟩
    · refine .inr ⟨hlen, ?_⟩
      rw [if_neg hlen, nextExpiry, Tx.bind_returns]
      refine ⟨_, _, Tx.gets_returns.mpr ⟨rfl, rfl⟩, ?_⟩
      cases hold : oldestRow log' with
      | none => exact Tx.pure_returns.mpr ⟨rfl, rfl⟩
      | some oldest =>
        simp only [Tx.bind_returns, Tx.require_returns, Tx.pure_returns]
        exact ⟨(), _, ⟨hcounter.resolve_left hlen oldest hold, rfl⟩, rfl, rfl⟩

theorem cleanUp_returns {nowMs : Int} {res : CdbOpLogRetentionResult} {log log' : Ledger}
    (h : (cleanUp nowMs).Returns log res log') :
    log'.lastEventId = log.lastEventId ∧ ∀ r ∈ log'.rows, r ∈ log.rows :=
  deleteExpired_returns (cleanUp_returns_iff.mp h).1

/-- A cleanup only removes rows, and none while a split is active. -/
theorem maintain_returns {nowMs : Int} {res : CdbOpLogRetentionResult} {db db' : Cdb δ}
    (h : (maintain nowMs).Returns db res db') :
    db'.domain = db.domain ∧ db'.opLog.lastEventId = db.opLog.lastEventId ∧
      (∀ r ∈ db'.opLog.rows, r ∈ db.opLog.rows) ∧
      (hasActiveSplit db.domain.split = true → db' = db) := by
  simp only [maintain, Tx.transactionSync_returns, Tx.bind_returns, Tx.require_returns,
    Tx.gets_returns] at h
  obtain ⟨_, _, ⟨-, rfl⟩, blocked, _, ⟨rfl, rfl⟩, h⟩ := h
  rcases Tx.ite_returns.mp h with ⟨-, h⟩ | ⟨hb, h⟩
  · obtain ⟨-, rfl⟩ := Tx.pure_returns.mp h
    exact ⟨rfl, rfl, fun _ hr => hr, fun _ => rfl⟩
  · obtain ⟨log, hc, rfl⟩ := Tx.zoom_returns.mp h
    obtain ⟨hlast, hrows⟩ := cleanUp_returns hc
    exact ⟨rfl, hlast, hrows, fun h => absurd h hb⟩

end Chardb.OpLog
