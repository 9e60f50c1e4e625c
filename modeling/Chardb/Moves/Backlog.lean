import Chardb.Moves.RowOrigins

/-!
# The backlog of retention

Outside of moves a shard can always clean up, whatever it did before: every call leaves the ids of its
rows apart. Each cleanup takes a batch off the rows that have expired, so a backlog goes away.
-/

namespace Chardb.Moves

open Chardb.Lib Chardb.Reshard Chardb.OpLog

variable {δ : Type} {ν : Type} [JsNumber ν]

/-! ## One cleanup -/

/-- How many rows have expired at a time. -/
def backlog (log : Ledger) (nowMs : Int) : Nat :=
  (log.rows.select fun r => decide (r.committedAt ≤ nowMs - CDB_OPLOG_RETENTION_MS)).length

section
variable {log log' : Ledger} {cutoff nowMs : Int} {rows : List OpLogRow}

theorem eventIds_mono (h : EventIds log) (hlast : log'.lastEventId = log.lastEventId)
    (hrows : ∀ r ∈ log'.rows, r ∈ log.rows) : EventIds log' :=
  ⟨fun r hr => hlast ▸ h.1 r (hrows r hr), fun r hr r' hr' => h.2 r (hrows r hr) r' (hrows r' hr')⟩

/-- The deletes of a cleanup go through. -/
theorem deleteExpired_goes (hids : EventIds log) (hsafe : IsSafeInteger log.lastEventId)
    (hmem : ∀ r ∈ rows, r ∈ log.rows ∧ r.committedAt ≤ cutoff) (hnodup : rows.Nodup) :
    ∃ log', (deleteExpired cutoff rows).Returns log () log' := by
  induction rows generalizing log with
  | nil => exact ⟨log, Tx.pure_returns.mpr ⟨rfl, rfl⟩⟩
  | cons row rows ih =>
    obtain ⟨hrow, hexpired⟩ := hmem row List.mem_cons_self
    obtain ⟨hfresh, hrest⟩ := List.nodup_cons.mp hnodup
    have hid := hids.1 row hrow
    have hone : (log.rows.select fun r =>
        decide (r.eventId = row.eventId) && decide (r.committedAt ≤ cutoff)).length = 1 := by
      refine le_antisymm (Table.select_length_le_one fun r hr r' hr' hp hp' => ?_) ?_
      · simp only [Bool.and_eq_true, decide_eq_true_eq] at hp hp'
        exact hids.2 r hr r' hr' (hp.1.trans hp'.1.symm)
      · exact List.length_pos_of_mem (Table.mem_select.mpr ⟨hrow, by simp [hexpired]⟩)
    have hleft : EventIds ⟨log.rows.deleteWhere fun r =>
        decide (r.eventId = row.eventId) && decide (r.committedAt ≤ cutoff), log.lastEventId⟩ :=
      eventIds_mono hids rfl fun r hr => (Table.mem_deleteWhere.mp hr).1
    obtain ⟨log', h⟩ := ih hleft hsafe (fun r hr => by
      obtain ⟨hmem, hexp⟩ := hmem r (List.mem_cons_of_mem _ hr)
      have hne : r.eventId ≠ row.eventId := fun he => hfresh (hids.2 r hmem row hrow he ▸ hr)
      exact ⟨Table.mem_deleteWhere.mpr ⟨hmem, by rw [decide_eq_false hne, Bool.false_and]⟩, hexp⟩) hrest
    refine ⟨log', ?_⟩
    simp only [deleteExpired, Tx.bind_returns, Tx.require_returns, Tx.zoom_returns,
      Table.delete_returns]
    refine ⟨(), log, ⟨⟨?_, by omega⟩, rfl⟩, 1, _, ⟨_, ⟨rfl, hone.symm⟩, rfl⟩, (), _, ⟨rfl, rfl⟩, h⟩
    unfold IsSafeInteger MAX_SAFE_INTEGER at hsafe ⊢
    omega

theorem cleanUp_goes (hids : EventIds log) (hsafe : IsSafeInteger log.lastEventId)
    (hcommitted : ∀ r ∈ log.rows, IsCounter r.committedAt) :
    ∃ res log', (cleanUp nowMs).Returns log res log' ∧ res.blockedBySplit = false := by
  have hmem : ∀ r ∈ (expiredRows log (nowMs - CDB_OPLOG_RETENTION_MS)).take CDB_OPLOG_RETENTION_BATCH,
      r ∈ log.rows ∧ r.committedAt ≤ nowMs - CDB_OPLOG_RETENTION_MS := fun r hr => by
    rw [expiredRows_take] at hr
    obtain ⟨hr, hexp⟩ := Table.mem_orderBy.mp (List.mem_of_mem_take hr)
    exact ⟨hr, of_decide_eq_true hexp⟩
  have hnodup : ((expiredRows log (nowMs - CDB_OPLOG_RETENTION_MS)).take
      CDB_OPLOG_RETENTION_BATCH).Nodup := by
    rw [expiredRows_take]
    exact ((List.perm_insertionSort _ _).nodup_iff.mpr (log.rows.nodup_rows.filter _)).sublist
      (List.take_sublist _ _)
  obtain ⟨log', h⟩ := deleteExpired_goes hids hsafe hmem hnodup
  refine ⟨_, log', cleanUp_returns_iff.mpr ⟨h, .inr fun oldest hold => ?_, rfl⟩, rfl⟩
  have hmem := List.mem_of_head? hold
  exact hcommitted oldest ((deleteExpired_returns h).2 _ (Table.mem_orderBy.mp hmem).1)

theorem cleanUp_deleted {res : CdbOpLogRetentionResult} (h : (cleanUp nowMs).Returns log res log') :
    res.deleted = min CDB_OPLOG_RETENTION_BATCH (backlog log nowMs) := by
  obtain ⟨-, -, rfl⟩ := cleanUp_returns_iff.mp h
  have hlen : (log.rows.orderBy (fun r => decide (r.committedAt ≤ nowMs - CDB_OPLOG_RETENTION_MS))
      OpLogRow.age).length = backlog log nowMs := (List.perm_insertionSort _ _).length_eq
  rw [expiredRows_length, hlen]
  simp only
  omega

/-- When only rows that match go, their number goes down by what was deleted. -/
theorem select_deleted {p : OpLogRow → Bool} {n : Nat} (hcount : log'.rows.count + n = log.rows.count)
    (hgone : ∀ r ∈ log.rows, r ∉ log'.rows → p r = true) :
    (log'.rows.select p).length + n ≤ (log.rows.select p).length := by
  have hall := List.length_eq_length_filter_add (l := log.rows.rows) p
  have hleft := List.length_eq_length_filter_add (l := log'.rows.rows) p
  have hkept : (log.rows.rows.filter fun r => !p r).length ≤
      (log'.rows.rows.filter fun r => !p r).length := by
    refine (List.subperm_of_subset (log.rows.nodup_rows.filter _) fun r hr => ?_).length_le
    obtain ⟨hr, hp⟩ := List.mem_filter.mp hr
    refine List.mem_filter.mpr ⟨?_, hp⟩
    by_contra hout
    rw [hgone r hr hout] at hp
    cases hp
  have hcount : log'.rows.rows.length + n = log.rows.rows.length := hcount
  show (log'.rows.rows.filter p).length + n ≤ (log.rows.rows.filter p).length
  omega

/-- A cleanup takes a batch off the rows that had expired by an earlier time, or it takes all. -/
theorem cleanUp_backlog {res : CdbOpLogRetentionResult} {t : Int} (ht : t ≤ nowMs)
    (h : (cleanUp nowMs).Returns log res log') :
    backlog log' t ≤ backlog log t - CDB_OPLOG_RETENTION_BATCH := by
  have hc := cleanUp_cleanedUp h
  have hdeleted := cleanUp_deleted h
  cases hstays : log'.rows.select fun r => decide (r.committedAt ≤ t - CDB_OPLOG_RETENTION_MS) with
  | nil =>
    rw [backlog, hstays]
    exact Nat.zero_le _
  | cons r rest =>
    -- what goes is no newer than the row that stays
    obtain ⟨hr, hexp⟩ := Table.mem_select.mp (hstays ▸ List.mem_cons_self :
      r ∈ log'.rows.select fun r => decide (r.committedAt ≤ t - CDB_OPLOG_RETENTION_MS))
    have hexp : r.committedAt ≤ t - CDB_OPLOG_RETENTION_MS := of_decide_eq_true hexp
    have hgone : ∀ g ∈ log.rows, g ∉ log'.rows → g.committedAt ≤ t - CDB_OPLOG_RETENTION_MS :=
      fun g hg hout => by
        have hle := Prod.Lex.toLex_le_toLex.mp (hc.oldest g hg hout r hr)
        simp only at hle
        omega
    have hnow : backlog log' nowMs + res.deleted ≤ backlog log nowMs :=
      select_deleted hc.deleted fun g hg hout => decide_eq_true (by have := hgone g hg hout; omega)
    have hpos : 0 < backlog log' nowMs :=
      List.length_pos_of_mem (Table.mem_select.mpr ⟨hr, decide_eq_true (by omega)⟩)
    have hat : backlog log' t + res.deleted ≤ backlog log t :=
      select_deleted hc.deleted fun g hg hout => decide_eq_true (hgone g hg hout)
    omega

end

/-! ## Event ids in runs -/

section
variable {sha256 : ByteArray → ByteArray} {codec : PayloadCodec} {cdb cdb' : Cdb δ} {db : ShardDb δ}
  {migId : String} {abort : Bool}

theorem applyEntries_eventIds {decoded : List (Int × CapturedOpLog)} {n : Nat}
    (hids : EventIds cdb.opLog) (h : (OpLog.applyEntries migId decoded).Returns cdb n cdb') :
    EventIds cdb'.opLog := by
  induction decoded generalizing cdb n with
  | nil =>
    obtain ⟨-, rfl⟩ := Tx.pure_returns.mp h
    exact hids
  | cons d decoded ih =>
    simp only [OpLog.applyEntries, Tx.bind_returns, Tx.pure_returns] at h
    obtain ⟨_, mid, hone, _, _, hrest, -, rfl⟩ := h
    obtain ⟨changes, n, hins, -⟩ := applyEntry_returns hone
    exact ih (hids.insert (fun _ => rfl) hins) hrest

theorem Ends.eventIds (hends : Ends migId abort cdb cdb') (hids : EventIds cdb.opLog) :
    EventIds cdb'.opLog :=
  eventIds_mono hids hends.lastEventId fun r hr =>
    (Table.find?_eq_some.mp (hends.rows r.key r (Table.find?_key hr))).1

theorem eventIds_after {α : Type} {x : ShardTx δ α} (hx : x.Atomic) (hids : EventIds db.cdb.opLog)
    (hr : ∀ a db', x.Returns db a db' → EventIds db'.cdb.opLog) : EventIds (x.after db).cdb.opLog := by
  rcases x.returns_or_throws db with ⟨a, h⟩ | ⟨e, h⟩
  · exact hr a _ h
  · rw [hx h]
    exact hids

/-- Every call leaves the ids of the rows apart. -/
theorem eventIds_step (hids : EventIds db.cdb.opLog) (call : ShardCall δ ν) :
    EventIds (db.step sha256 codec call).cdb.opLog := by
  by_cases hcall : call.WorksOnRows
  · cases call with
    | mutate m fenced req =>
      refine eventIds_after (atomic_onCdb (Tx.atomic_transactionSync _)) hids fun res db' h => ?_
      obtain ⟨cdb, hcdb, rfl⟩ := Tx.zoom_returns.mp h
      obtain ⟨mid, hexec, hlog, -⟩ := executeAtomicMutation_exec hcdb
      show EventIds cdb.opLog
      rw [hlog]
      exact hids.exec hexec
    | maintain nowMs =>
      refine eventIds_after (atomic_onCdb (Tx.atomic_transactionSync _)) hids fun res db' h => ?_
      obtain ⟨cdb, hcdb, rfl⟩ := Tx.zoom_returns.mp h
      obtain ⟨-, hlast, hrows, -⟩ := maintain_returns hcdb
      exact eventIds_mono hids hlast hrows
    | apply =>
      refine eventIds_after (Tx.atomic_transactionSync _) hids fun res db' h => ?_
      obtain ⟨decoded, n, mid, happ, heq⟩ := shardApply_entries h
      have hlog : db'.cdb.opLog = mid.opLog := congrArg Prod.fst heq
      rw [hlog]
      exact applyEntries_eventIds hids happ
    | abortBatch =>
      refine eventIds_after (Tx.atomic_transactionSync _) hids fun done db' h => ?_
      rcases abortReshardDestBatch_ends h with ⟨heq, -⟩ | hends
      · have hlog : db'.cdb.opLog = db.cdb.opLog := congrArg Prod.fst heq
        rw [hlog]
        exact hids
      · exact hends.eventIds hids
    | finishDest =>
      exact eventIds_after (Tx.atomic_transactionSync _) hids fun _ _ h =>
        (finishReshardDest_ends h).eventIds hids
    | _ => exact hcall.elim
  · have hlog : (db.step sha256 codec call).cdb.opLog = db.cdb.opLog :=
      congrArg Prod.fst (frames_ledger_step db call hcall)
    rw [hlog]
    exact hids

theorem eventIds_run (hids : EventIds db.cdb.opLog) (calls : List (ShardCall δ ν)) :
    EventIds (db.run sha256 codec calls).cdb.opLog := by
  induction calls generalizing db with
  | nil => exact hids
  | cons call calls ih => exact ih (eventIds_step hids call)

/-! ## The backlog goes away -/

/-- Outside of moves a maintenance is a cleanup, and it goes through. -/
theorem maintain_goes {nowMs : Int} (hids : EventIds cdb.opLog)
    (hsafe : IsSafeInteger cdb.opLog.lastEventId)
    (hcommitted : ∀ r ∈ cdb.opLog.rows, IsCounter r.committedAt) (hnow : IsCounter nowMs)
    (hfree : hasActiveSplit cdb.domain.split = false) :
    ∃ res log, (cleanUp nowMs).Returns cdb.opLog res log ∧ res.blockedBySplit = false ∧
      (OpLog.maintain nowMs).Returns cdb res { cdb with opLog := log } := by
  have hgoes : ∃ res log, (cleanUp nowMs).Returns cdb.opLog res log ∧ res.blockedBySplit = false :=
    cleanUp_goes hids hsafe hcommitted
  obtain ⟨res, log, h, hblocked⟩ := hgoes
  refine ⟨res, log, h, hblocked, ?_⟩
  simp only [OpLog.maintain, Tx.transactionSync_returns, Tx.bind_returns, Tx.require_returns,
    Tx.gets_returns]
  exact ⟨(), cdb, ⟨hnow, rfl⟩, _, cdb, ⟨rfl, rfl⟩, Tx.ite_returns.mpr
    (.inr ⟨by rw [hfree]; decide, Tx.zoom_returns.mpr ⟨log, h, rfl⟩⟩)⟩

/-- Cleanups one after the other, at times that do not precede `t`. -/
theorem run_cleanups {t : Int} {times : List Int} (hids : EventIds db.cdb.opLog)
    (hsafe : IsSafeInteger db.cdb.opLog.lastEventId)
    (hcommitted : ∀ r ∈ db.cdb.opLog.rows, IsCounter r.committedAt)
    (hfree : hasActiveSplit db.cdb.domain.split = false) (htimes : ∀ u ∈ times, IsCounter u ∧ t ≤ u) :
    backlog (db.run sha256 codec (times.map (.maintain : Int → ShardCall δ ν))).cdb.opLog t ≤
        backlog db.cdb.opLog t - times.length * CDB_OPLOG_RETENTION_BATCH ∧
      ∀ r ∈ db.cdb.opLog.rows, (∀ u ∈ times, u - CDB_OPLOG_RETENTION_MS < r.committedAt) →
        r ∈ (db.run sha256 codec (times.map (.maintain : Int → ShardCall δ ν))).cdb.opLog.rows := by
  induction times generalizing db with
  | nil => exact ⟨by simp [ShardDb.run], fun r hr _ => hr⟩
  | cons u times ih =>
    obtain ⟨hnow, ht⟩ := htimes u List.mem_cons_self
    obtain ⟨res, log, hclean, -, h⟩ := maintain_goes hids hsafe hcommitted hnow hfree
    have hstep : db.step sha256 codec (.maintain u : ShardCall δ ν) =
        { db with cdb := { db.cdb with opLog := log } } := by
      have hret : (onCdb (OpLog.maintain u)).Returns db res
          { db with cdb := { db.cdb with opLog := log } } := Tx.zoom_returns.mpr ⟨_, h, rfl⟩
      exact hret.after
    obtain ⟨hlast, hrows⟩ := cleanUp_returns hclean
    have hrun : db.run sha256 codec ((u :: times).map (.maintain : Int → ShardCall δ ν)) =
        ShardDb.run sha256 codec { db with cdb := { db.cdb with opLog := log } }
          (times.map (.maintain : Int → ShardCall δ ν)) := by
      rw [← hstep]
      rfl
    have hids' : EventIds ({ db with cdb := { db.cdb with opLog := log } } : ShardDb δ).cdb.opLog :=
      eventIds_mono hids hlast hrows
    obtain ⟨hdrained, hkept⟩ := ih hids' (by rw [hlast]; exact hsafe)
      (fun r hr => hcommitted r (hrows r hr)) hfree
      fun v hv => htimes v (List.mem_cons_of_mem _ hv)
    rw [hrun]
    refine ⟨?_, fun r hr hlive => ?_⟩
    · have hone := cleanUp_backlog ht hclean
      have hrest : _ ≤ backlog log t - times.length * CDB_OPLOG_RETENTION_BATCH := hdrained
      rw [List.length_cons]
      unfold CDB_OPLOG_RETENTION_BATCH at hone hrest ⊢
      omega
    · exact hkept r ((cleanUp_cleanedUp hclean).kept r hr (hlive u List.mem_cons_self)) fun v hv =>
        hlive v (List.mem_cons_of_mem _ hv)

end

/-- The shard takes part in no move, and what its retention checks of rows are counters. -/
structure Idle (cdb : Cdb δ) : Prop where
  free : hasActiveSplit cdb.domain.split = false
  lastEventId : IsSafeInteger cdb.opLog.lastEventId
  committedAt : ∀ r ∈ cdb.opLog.rows, IsCounter r.committedAt

/-- What retention makes of any run of a shard that is idle in the end. -/
structure BacklogDrains (sha256 : ByteArray → ByteArray) (codec : PayloadCodec) (domain : δ)
    (calls : List (ShardCall δ ν)) : Prop where
  /-- A maintenance goes through. -/
  cleans : ∀ nowMs, IsCounter nowMs → Idle (afterCalls sha256 codec domain calls).cdb →
    ∃ res cdb, (OpLog.maintain nowMs).Returns (afterCalls sha256 codec domain calls).cdb res cdb ∧
      res.blockedBySplit = false
  /-- Some maintenances take a batch each off the rows that have expired, or take them all. -/
  drains : ∀ (t : Int) (times : List Int), (∀ u ∈ times, IsCounter u ∧ t ≤ u) →
    Idle (afterCalls sha256 codec domain calls).cdb →
    backlog (afterCalls sha256 codec domain (calls ++ times.map .maintain)).cdb.opLog t ≤
      backlog (afterCalls sha256 codec domain calls).cdb.opLog t -
        times.length * CDB_OPLOG_RETENTION_BATCH
  /-- The rows that expire at none of their times stay. -/
  kept : ∀ times : List Int, (∀ u ∈ times, IsCounter u) →
    Idle (afterCalls sha256 codec domain calls).cdb →
    ∀ r ∈ (afterCalls sha256 codec domain calls).cdb.opLog.rows,
      (∀ u ∈ times, u - CDB_OPLOG_RETENTION_MS < r.committedAt) →
      r ∈ (afterCalls sha256 codec domain (calls ++ times.map .maintain)).cdb.opLog.rows

/-- Once the moves of a shard are over its retention catches up, whatever the shard did before. -/
theorem cleanups_catch_up (sha256 : ByteArray → ByteArray) (codec : PayloadCodec) (domain : δ)
    (calls : List (ShardCall δ ν)) : BacklogDrains sha256 codec domain calls := by
  have hempty : EventIds (ShardDb.empty domain).cdb.opLog :=
    ⟨fun _ h => absurd h Table.not_mem_empty, fun _ h => absurd h Table.not_mem_empty⟩
  have hids : EventIds (afterCalls sha256 codec domain calls).cdb.opLog := eventIds_run hempty calls
  constructor
  · intro nowMs hnow hidle
    obtain ⟨res, log, -, hblocked, h⟩ := maintain_goes hids hidle.lastEventId
      hidle.committedAt hnow hidle.free
    exact ⟨res, _, h, hblocked⟩
  · intro t times htimes hidle
    rw [afterCalls, run_append]
    exact (run_cleanups hids hidle.lastEventId hidle.committedAt hidle.free htimes).1
  · intro times htimes hidle r hr hlive
    rw [afterCalls, run_append]
    exact (run_cleanups (t := 0) hids hidle.lastEventId hidle.committedAt hidle.free
      fun u hu => ⟨htimes u hu, (htimes u hu).2⟩).2 r hr hlive

end Chardb.Moves
