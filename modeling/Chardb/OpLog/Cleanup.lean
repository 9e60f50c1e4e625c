import Chardb.Lib.Paging
import Chardb.OpLog.AtMostOnce
import Chardb.OpLog.Retention

/-!
# What a cleanup removes

Retention takes rows off the ledger that makes mutations run at most once: the oldest first, none
that was committed within the last day, and a bounded number at a time.
-/

namespace Chardb.OpLog

open Chardb.Lib Chardb.Reshard

variable {log log' : Ledger} {cutoff nowMs : Int} {rows : List OpLogRow} {u : Unit}

/-- A delete of one row. -/
theorem deleteWhere_single {t : OpLogTable} {p : OpLogRow → Bool} {row : OpLogRow} (hrow : row ∈ t)
    (hp : p row = true) (hone : (t.select p).length = 1) :
    (∀ r, r ∈ t.deleteWhere p ↔ r ∈ t ∧ r ≠ row) ∧ (t.deleteWhere p).count + 1 = t.count := by
  obtain ⟨only, honly⟩ := List.length_eq_one_iff.mp hone
  have hall : ∀ r ∈ t, p r = true → r = only := fun r hr hpr => by
    have hsel : r ∈ t.select p := Table.mem_select.mpr ⟨hr, hpr⟩
    rw [honly] at hsel
    exact List.mem_singleton.mp hsel
  refine ⟨fun r => ?_, ?_⟩
  · rw [Table.mem_deleteWhere]
    refine and_congr_right fun hr => ?_
    rw [← Bool.not_eq_true, not_iff_not]
    constructor
    · intro hpr
      rw [hall r hr hpr, hall row hrow hp]
    · rintro rfl
      exact hp
  · have hsplit := List.length_eq_length_filter_add (l := t.rows) p
    have hfilter : (t.rows.filter p).length = 1 := hone
    show (t.rows.filter fun r => !p r).length + 1 = t.rows.length
    omega

/-- Each delete removes the row that it is for. -/
theorem deleteExpired_exact (hmem : ∀ r ∈ rows, r ∈ log.rows ∧ r.committedAt ≤ cutoff)
    (hnodup : rows.Nodup) (h : (deleteExpired cutoff rows).Returns log u log') :
    (∀ r, r ∈ log'.rows ↔ r ∈ log.rows ∧ r ∉ rows) ∧
      log'.rows.count + rows.length = log.rows.count := by
  induction rows generalizing log with
  | nil =>
    obtain ⟨-, rfl⟩ := Tx.pure_returns.mp h
    exact ⟨fun r => by simp, rfl⟩
  | cons row rows ih =>
    simp only [deleteExpired, Tx.bind_returns, Tx.require_returns, Tx.zoom_returns,
      Table.delete_returns] at h
    obtain ⟨_, _, ⟨-, rfl⟩, n, _, ⟨t, ⟨rfl, rfl⟩, rfl⟩, _, _, ⟨hone, rfl⟩, h⟩ := h
    obtain ⟨hrow, hexpired⟩ := hmem row List.mem_cons_self
    obtain ⟨hfresh, hrest⟩ := List.nodup_cons.mp hnodup
    obtain ⟨hdeleted, hleft⟩ := deleteWhere_single hrow (by simp [hexpired]) hone
    obtain ⟨hiff, hcount⟩ := ih (fun r hr => ⟨(hdeleted r).mpr ⟨(hmem r (List.mem_cons_of_mem _ hr)).1,
      fun he => hfresh (he ▸ hr)⟩, (hmem r (List.mem_cons_of_mem _ hr)).2⟩) hrest h
    refine ⟨fun r => ?_, ?_⟩
    · rw [hiff, hdeleted, List.mem_cons, not_or, and_assoc]
    · rw [List.length_cons, ← hleft, ← hcount, Nat.add_assoc]

/-- The age of a row: `ORDER BY committed_at, event_id`. -/
def OpLogRow.age (r : OpLogRow) : Int ×ₗ Nat := toLex (r.committedAt, r.eventId)

/-- What a cleanup does to the ledger. -/
structure CleanedUp (nowMs : Int) (res : CdbOpLogRetentionResult) (log log' : Ledger) : Prop where
  only : ∀ r ∈ log'.rows, r ∈ log.rows
  /-- No row of the last day goes. -/
  kept : ∀ r ∈ log.rows, nowMs - CDB_OPLOG_RETENTION_MS < r.committedAt → r ∈ log'.rows
  /-- What goes is no newer than what stays. -/
  oldest : ∀ r ∈ log.rows, r ∉ log'.rows → ∀ r' ∈ log'.rows, r.age ≤ r'.age
  deleted : log'.rows.count + res.deleted = log.rows.count
  batch : res.deleted ≤ CDB_OPLOG_RETENTION_BATCH
  /-- An expired row that stays is for the next cleanup, right away. -/
  more : ∀ r ∈ log'.rows, r.committedAt ≤ nowMs - CDB_OPLOG_RETENTION_MS → res.nextAt = some (nowMs + 1)
  /-- Otherwise nothing expires before the next cleanup. -/
  next : ∀ at', res.nextAt = some at' → nowMs < at' ∧
    (at' = nowMs + 1 ∨ ∀ r ∈ log'.rows, at' ≤ r.committedAt + CDB_OPLOG_RETENTION_MS)
  drained : res.nextAt = none ↔ ∀ r, r ∉ log'.rows

theorem nextExpiry_none : nextExpiry log nowMs = none ↔ ∀ r, r ∉ log.rows := by
  unfold nextExpiry oldestRow
  rw [Option.map_eq_none_iff, List.head?_eq_none_iff, List.eq_nil_iff_forall_not_mem]
  exact forall_congr' fun r => by rw [Table.mem_orderBy]; simp

theorem nextExpiry_some {at' : Int} (h : nextExpiry log nowMs = some at') :
    nowMs < at' ∧ (at' = nowMs + 1 ∨ ∀ r ∈ log.rows, at' ≤ r.committedAt + CDB_OPLOG_RETENTION_MS) := by
  obtain ⟨oldest, hhead, rfl⟩ := Option.map_eq_some_iff.mp h
  obtain ⟨tail, htail⟩ := List.head?_eq_some_iff.mp hhead
  have hsorted := Table.orderBy_sorted log.rows (fun _ => true) fun r : OpLogRow =>
    toLex (r.committedAt, r.eventId)
  rw [htail] at hsorted
  refine ⟨by omega, ?_⟩
  rcases le_or_gt (oldest.committedAt + CDB_OPLOG_RETENTION_MS) (nowMs + 1) with hle | hlt
  · exact .inl (max_eq_left hle)
  · refine .inr fun r hr => ?_
    rw [max_eq_right hlt.le]
    have hmem : r ∈ oldest :: tail := htail ▸ Table.mem_orderBy.mpr ⟨hr, rfl⟩
    rcases List.mem_cons.mp hmem with rfl | hmem
    · exact le_rfl
    · have hle := (List.pairwise_cons.mp hsorted).1 r hmem
      have := (Prod.Lex.toLex_le_toLex.mp hle)
      simp only at this
      omega

theorem expiredRows_take (log : Ledger) (cutoff : Int) :
    (expiredRows log cutoff).take CDB_OPLOG_RETENTION_BATCH =
      (log.rows.orderBy (fun r => decide (r.committedAt ≤ cutoff)) OpLogRow.age).take
        CDB_OPLOG_RETENTION_BATCH := by
  unfold expiredRows
  rw [List.take_take]
  rfl

theorem expiredRows_length (log : Ledger) (cutoff : Int) : (expiredRows log cutoff).length =
    min (CDB_OPLOG_RETENTION_BATCH + 1)
      (log.rows.orderBy (fun r => decide (r.committedAt ≤ cutoff)) OpLogRow.age).length :=
  List.length_take

theorem cleanUp_cleanedUp {res : CdbOpLogRetentionResult} (h : (cleanUp nowMs).Returns log res log') :
    CleanedUp nowMs res log log' := by
  obtain ⟨hdel, -, hres⟩ := cleanUp_returns_iff.mp h
  rw [expiredRows_take] at hdel
  rw [expiredRows_length] at hres
  have hsorted := log.rows.orderBy_sorted
    (fun r => decide (r.committedAt ≤ nowMs - CDB_OPLOG_RETENTION_MS)) OpLogRow.age
  have hmem : ∀ r, r ∈ log.rows.orderBy
      (fun r => decide (r.committedAt ≤ nowMs - CDB_OPLOG_RETENTION_MS)) OpLogRow.age ↔
        r ∈ log.rows ∧ r.committedAt ≤ nowMs - CDB_OPLOG_RETENTION_MS := fun r => by
    rw [Table.mem_orderBy, decide_eq_true_eq]
  have hnodup : (log.rows.orderBy
      (fun r => decide (r.committedAt ≤ nowMs - CDB_OPLOG_RETENTION_MS)) OpLogRow.age).Nodup :=
    (List.perm_insertionSort _ _).nodup_iff.mpr (log.rows.nodup_rows.filter _)
  generalize log.rows.orderBy _ OpLogRow.age = expired at *
  obtain ⟨hiff, hcount⟩ := deleteExpired_exact (fun r hr => (hmem r).mp (List.mem_of_mem_take hr))
    (hnodup.sublist (List.take_sublist _ _)) hdel
  rw [List.length_take] at hcount
  -- an expired row that stays was beyond the batch
  have hstays : ∀ r ∈ log'.rows, r.committedAt ≤ nowMs - CDB_OPLOG_RETENTION_MS →
      CDB_OPLOG_RETENTION_BATCH < expired.length ∧
        ∀ y ∈ expired.take CDB_OPLOG_RETENTION_BATCH, y.age ≤ r.age := fun r hr hexp => by
    obtain ⟨hr, hout⟩ := (hiff r).mp hr
    exact (mem_take_or_after hsorted ((hmem r).mpr ⟨hr, hexp⟩)).resolve_left hout
  have hdeleted : res.deleted = min CDB_OPLOG_RETENTION_BATCH expired.length := by
    rw [hres]
    simp only
    omega
  have hnext : res.nextAt = if CDB_OPLOG_RETENTION_BATCH < expired.length then some (nowMs + 1)
      else nextExpiry log' nowMs := by
    rw [hres]
    simp only [lt_min_iff, Nat.lt_succ_self, true_and]
  refine ⟨fun r hr => ((hiff r).mp hr).1, fun r hr hage => (hiff r).mpr ⟨hr, fun hout => ?_⟩,
    fun r hr hgone r' hr' => ?_, by rw [hdeleted, hcount], by omega, fun r hr hexp => ?_,
    fun at' hat => ?_, ?_⟩
  · have := ((hmem r).mp (List.mem_of_mem_take hout)).2
    omega
  · have hout : r ∈ expired.take CDB_OPLOG_RETENTION_BATCH := by
      by_contra hstay
      exact hgone ((hiff r).mpr ⟨hr, hstay⟩)
    rcases le_or_gt r'.committedAt (nowMs - CDB_OPLOG_RETENTION_MS) with hexp | hlive
    · exact (hstays r' hr' hexp).2 r hout
    · have := ((hmem r).mp (List.mem_of_mem_take hout)).2
      exact Prod.Lex.toLex_le_toLex.mpr (.inl (this.trans_lt hlive))
  · rw [hnext, if_pos (hstays r hr hexp).1]
  · rw [hnext] at hat
    split at hat
    · cases hat
      exact ⟨by omega, .inl rfl⟩
    · exact nextExpiry_some hat
  · rw [hnext]
    split
    · rename_i hlen
      refine ⟨fun h => (Option.some_ne_none _ h).elim, fun hall => ?_⟩
      have hsub : expired ⊆ expired.take CDB_OPLOG_RETENTION_BATCH := fun r hr => by
        by_contra hout
        exact hall r ((hiff r).mpr ⟨((hmem r).mp hr).1, hout⟩)
      have hle := (List.subperm_of_subset hnodup hsub).length_le
      rw [List.length_take] at hle
      omega
    · exact nextExpiry_none

end Chardb.OpLog
