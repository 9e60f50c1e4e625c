import Chardb.Reshard.SourceTail

/-!
# The account of the split log

Every call on the source moves the split row and the retained rows of each migration together:
`TailMove` says how. From it comes the invariant `SourceInv`, in which the counters of a split row
are the number and the bytes of its retained rows, none of which is acknowledged.
-/

namespace Chardb.Reshard

open Chardb.Lib

/-! ## Bytes -/

theorem textBytes_nonneg (s : String) : 0 ≤ textBytes s := Int.natCast_nonneg _

theorem SplitLogRow.accountedBytes_pos (r : SplitLogRow) : 0 < r.accountedBytes := by
  have h₁ := textBytes_nonneg r.migId
  have h₂ := textBytes_nonneg r.op.text
  have h₃ := textBytes_nonneg r.tableName
  have h₄ := textBytes_nonneg (jsonQuote r.pk)
  have h₅ := textBytes_nonneg (r.before.getD "")
  have h₆ := textBytes_nonneg (r.after.getD "")
  unfold accountedBytes; omega

@[simp] theorem totalBytes_nil : totalBytes [] = 0 := rfl

@[simp] theorem totalBytes_cons {r : SplitLogRow} {l : List SplitLogRow} :
    totalBytes (r :: l) = r.accountedBytes + totalBytes l := by simp [totalBytes]

theorem totalBytes_append {l l' : List SplitLogRow} :
    totalBytes (l ++ l') = totalBytes l + totalBytes l' := by simp [totalBytes]

theorem totalBytes_nonneg (l : List SplitLogRow) : 0 ≤ totalBytes l := by
  induction l with
  | nil => exact le_rfl
  | cons r l ih => have := r.accountedBytes_pos; rw [totalBytes_cons]; omega

/-- Rows that are kept and rows that are not add up. -/
theorem account_partition (p : SplitLogRow → Bool) (l : List SplitLogRow) :
    ((l.filter p).length : Int) + (l.filter fun r => !p r).length = l.length ∧
      totalBytes (l.filter p) + totalBytes (l.filter fun r => !p r) = totalBytes l := by
  induction l with
  | nil => simp
  | cons r l ih =>
    obtain ⟨hl, hb⟩ := ih
    by_cases hp : p r = true
    · simp only [List.filter_cons, hp, Bool.not_true, Bool.false_eq_true, if_true, if_false,
        List.length_cons, totalBytes_cons]
      omega
    · simp only [List.filter_cons, hp, Bool.not_false, Bool.false_eq_true, if_true, if_false,
        List.length_cons, totalBytes_cons]
      omega

/-- The trigger charges what the log row accounts for. -/
theorem TailImage.toRow_accountedBytes {c : TailImage} {migId pk : String} {txId ts lsn : Int}
    (h : c.pk = some pk) : (c.toRow migId pk txId ts lsn).accountedBytes = c.accountedBytes migId := by
  simp [SplitLogRow.accountedBytes, accountedBytes, toRow, quotedPk, h]

/-! ## Programs over the parts of a source -/

section
variable {s s' : SourceDb} {α : Type} {a : α} {e : Thrown}

@[simp] theorem onControl_returns {x : ControlTx α} :
    (onControl x).Returns s a s' ↔ ∃ t, x.Returns s.control a t ∧ s' = { s with control := t } :=
  Tx.zoom_returns

@[simp] theorem onControl_throws {x : ControlTx α} :
    (onControl x).Throws s e s' ↔ ∃ t, x.Throws s.control e t ∧ s' = { s with control := t } :=
  Tx.zoom_throws

@[simp] theorem onLedger_returns {x : Tx Thrown OpLog.Ledger α} :
    (onLedger x).Returns s a s' ↔ ∃ t, x.Returns s.opLog a t ∧ s' = { s with opLog := t } :=
  Tx.zoom_returns

theorem readOnly_onControl {x : ControlTx α} (hx : x.ReadOnly) : (onControl x).ReadOnly := fun s => by
  have := hx s.control
  simp only [Tx.after] at this
  simp only [onControl, Tx.zoom, Tx.after, this]

end

theorem SourceDb.mem_retained {s : SourceDb} {k : String} {r : SplitLogRow} :
    r ∈ s.retained k ↔ r ∈ s.log ∧ r.migId = k := by
  unfold retained; rw [SeqTable.mem_select, decide_eq_true_eq]

theorem SourceDb.split?_setLog {s : SourceDb} {log : SplitLog} {k : String} :
    SourceDb.split? { s with log } k = s.split? k := rfl

theorem SourceDb.retained_congr {s s' : SourceDb} (h : s'.log = s.log) (k : String) :
    s'.retained k = s.retained k := by unfold retained; rw [h]

theorem SourceDb.retained_append {s : SourceDb} {row : Int → SplitLogRow} {hk : ∀ n, (row n).lsn = n}
    {k : String} : SourceDb.retained { s with log := s.log.append row hk } k =
      s.retained k ++ if (row (s.log.last + 1)).migId = k then [row (s.log.last + 1)] else [] := by
  unfold retained
  simp only [SeqTable.select_append, decide_eq_true_eq]

/-! ## What a call does to one migration -/

/-- How the split row and the retained rows of a migration move in one call. -/
inductive TailMove (last eventId : Int) :
    Option SplitStateRow → List SplitLogRow → Option SplitStateRow → List SplitLogRow → Prop
  /-- Nothing of the migration changes. -/
  | same {st? rows} : TailMove last eventId st? rows st? rows
  /-- A split row is put in. -/
  | opened {st : SplitStateRow} {rows} (hacked : st.ackedLsn = 0) (hrows : st.splitLogRows = 0)
      (hbytes : st.splitLogBytes = 0) (hdrained : st.drained = true → st.capture = false) :
      TailMove last eventId none rows (some st) rows
  /-- The split row changes beside its account. -/
  | adjusted {st st' : SplitStateRow} {rows} (hacked : st'.ackedLsn = st.ackedLsn)
      (hrows : st'.splitLogRows = st.splitLogRows) (hbytes : st'.splitLogBytes = st.splitLogBytes)
      (hdrained : st'.drained = st.drained) (hcapture : st.drained = true → st'.capture = false) :
      TailMove last eventId (some st) rows (some st') rows
  /-- A change is captured. -/
  | captured {st st' : SplitStateRow} {rows} {row : SplitLogRow} (hcapture : st.capture = true)
      (hlsn : row.lsn = last + 1) (htx : row.sourceTxId = eventId)
      (hroom : st.splitLogRows < CDB_SPLIT_LOG_MAX_ROWS ∧
        st.splitLogBytes + row.accountedBytes ≤ CDB_SPLIT_LOG_MAX_BYTES)
      (hacked : st'.ackedLsn = st.ackedLsn) (hrows : st'.splitLogRows = st.splitLogRows + 1)
      (hbytes : st'.splitLogBytes = st.splitLogBytes + row.accountedBytes)
      (hdrained : st'.drained = st.drained) :
      TailMove last eventId (some st) rows (some st') (rows ++ [row])
  /-- The rows up to an LSN are acknowledged. -/
  | pruned {st st' : SplitStateRow} {rows} {throughLsn : Int} (hle : throughLsn ≤ last)
      (hlt : st.ackedLsn < throughLsn) (hacked : st'.ackedLsn = throughLsn)
      (hrows : st'.splitLogRows =
        st.splitLogRows - (rows.filter fun r => decide (r.lsn ≤ throughLsn)).length)
      (hbytes : st'.splitLogBytes =
        st.splitLogBytes - totalBytes (rows.filter fun r => decide (r.lsn ≤ throughLsn)))
      (hdrained : st'.drained = st.drained) (hcapture : st'.capture = st.capture) :
      TailMove last eventId (some st) rows (some st')
        (rows.filter fun r => !decide (r.lsn ≤ throughLsn))
  /-- The split is finished or aborted. -/
  | cleared {st st' : SplitStateRow} {rows} (hacked : st'.ackedLsn = st.ackedLsn)
      (hrows : st'.splitLogRows = 0) (hbytes : st'.splitLogBytes = 0) (hdrained : st'.drained = true)
      (hcapture : st'.capture = false) : TailMove last eventId (some st) rows (some st') []
  /-- The rows are counted again. -/
  | recounted {st st' : SplitStateRow} {rows : List SplitLogRow} (hacked : st'.ackedLsn = st.ackedLsn)
      (hrows : st'.splitLogRows = rows.length) (hbytes : st'.splitLogBytes = totalBytes rows)
      (hdrained : st'.drained = st.drained) (hcapture : st'.capture = st.capture) :
      TailMove last eventId (some st) rows (some st') rows

/-- The account of a split row and the rows that it counts. -/
structure AccountOf (last : Int) (st : SplitStateRow) (rows : List SplitLogRow) : Prop where
  rows_eq : st.splitLogRows = rows.length
  bytes_eq : st.splitLogBytes = totalBytes rows
  after_ack : ∀ r ∈ rows, st.ackedLsn < r.lsn
  acked_le : st.ackedLsn ≤ last
  drained : st.drained = true → st.capture = false ∧ rows = []
  max_rows : st.splitLogRows ≤ CDB_SPLIT_LOG_MAX_ROWS
  max_bytes : st.splitLogBytes ≤ CDB_SPLIT_LOG_MAX_BYTES
  ordered : rows.Pairwise fun a b => a.sourceTxId ≤ b.sourceTxId

/-- A migration without a split row retains nothing. -/
def Accounted (last : Int) : Option SplitStateRow → List SplitLogRow → Prop
  | none, rows => rows = []
  | some st, rows => AccountOf last st rows

section
variable {last last' eventId : Int} {st? st?' : Option SplitStateRow} {rows rows' : List SplitLogRow}

/-- A move keeps the account. -/
theorem TailMove.accounted (h : TailMove last eventId st? rows st?' rows')
    (ha : Accounted last st? rows) (hlast : last ≤ last') (h₀ : 0 ≤ last)
    (hrow : ∀ r ∈ rows', r.lsn ≤ last') (htxs : ∀ r ∈ rows, r.sourceTxId ≤ eventId) :
    Accounted last' st?' rows' := by
  cases h with
  | same =>
    cases st? with
    | none => exact ha
    | some st => exact { ha with acked_le := by have := ha.acked_le; omega }
  | opened hacked hrows hbytes hdrained =>
    obtain rfl : rows = [] := ha
    refine ⟨by simp [hrows], by simp [hbytes], by simp, by omega, fun hd => ⟨hdrained hd, rfl⟩, ?_, ?_,
      .nil⟩
    · rw [hrows]; decide
    · rw [hbytes]; decide
  | adjusted hacked hrows hbytes hdrained hcapture =>
    have hle := ha.acked_le
    refine ⟨hrows.trans ha.rows_eq, hbytes.trans ha.bytes_eq, fun r hr => hacked ▸ ha.after_ack r hr,
      by omega, fun hd => ?_, hrows ▸ ha.max_rows, hbytes ▸ ha.max_bytes, ha.ordered⟩
    rw [hdrained] at hd
    exact ⟨hcapture hd, (ha.drained hd).2⟩
  | @captured st st' _ row hcapture hlsn htx hroom hacked hrows hbytes hdrained =>
    have hle := ha.acked_le
    have hr := ha.rows_eq
    have hb := ha.bytes_eq
    have hlsn' := hrow row (by simp)
    refine ⟨?_, ?_, ?_, by omega, fun hd => ?_, by omega, by omega, ?_⟩
    · rw [hrows, hr, List.length_append]; simp
    · rw [hbytes, hb, totalBytes_append]; simp
    · intro r hmem
      rcases List.mem_append.mp hmem with hmem | hmem
      · rw [hacked]; exact ha.after_ack r hmem
      · rw [List.mem_singleton.mp hmem]; omega
    · have := (ha.drained (hdrained ▸ hd)).1
      rw [hcapture] at this; cases this
    · refine List.pairwise_append.mpr ⟨ha.ordered, List.pairwise_singleton _ _, fun x hx y hy => ?_⟩
      rw [List.mem_singleton.mp hy, htx]; exact htxs x hx
  | @pruned st st' _ throughLsn hle hlt hacked hrows hbytes hdrained hcapture =>
    obtain ⟨hl, hb⟩ := account_partition (fun r => decide (r.lsn ≤ throughLsn)) rows
    have hr := ha.rows_eq
    have hby := ha.bytes_eq
    have hmr := ha.max_rows
    have hmb := ha.max_bytes
    have h₁ := totalBytes_nonneg (rows.filter fun r => decide (r.lsn ≤ throughLsn))
    refine ⟨by omega, by omega, fun r hmem => ?_, by omega, fun hd => ?_, by omega, by omega,
      ha.ordered.filter _⟩
    · have := (List.mem_filter.mp hmem).2
      simp only [Bool.not_eq_true', decide_eq_false_iff_not] at this
      omega
    · obtain ⟨hc, rfl⟩ := ha.drained (hdrained ▸ hd)
      exact ⟨hcapture.trans hc, rfl⟩
  | cleared hacked hrows hbytes hdrained hcapture =>
    have hle := ha.acked_le
    refine ⟨by simp [hrows], by simp [hbytes], by simp, by omega, fun _ => ⟨hcapture, rfl⟩, ?_, ?_, .nil⟩
    · rw [hrows]; decide
    · rw [hbytes]; decide
  | recounted hacked hrows hbytes hdrained hcapture =>
    have hle := ha.acked_le
    refine ⟨hrows, hbytes, fun r hr => hacked ▸ ha.after_ack r hr, by omega, fun hd => ?_, ?_, ?_,
      ha.ordered⟩
    · obtain ⟨hc, hnil⟩ := ha.drained (hdrained ▸ hd)
      exact ⟨hcapture.trans hc, hnil⟩
    · rw [hrows, ← ha.rows_eq]; exact ha.max_rows
    · rw [hbytes, ← ha.bytes_eq]; exact ha.max_bytes

/-- A move never takes an acknowledgement back. -/
theorem TailMove.acked_le {st : SplitStateRow} (h : TailMove last eventId (some st) rows st?' rows') :
    ∃ st', st?' = some st' ∧ st.ackedLsn ≤ st'.ackedLsn := by
  cases h with
  | same => exact ⟨st, rfl, le_rfl⟩
  | adjusted hacked => exact ⟨_, rfl, hacked.ge⟩
  | captured _ _ _ _ hacked => exact ⟨_, rfl, hacked.ge⟩
  | pruned _ hlt hacked => exact ⟨_, rfl, by omega⟩
  | cleared hacked => exact ⟨_, rfl, hacked.ge⟩
  | recounted hacked => exact ⟨_, rfl, hacked.ge⟩

end

/-! ## What a call does to the source -/

/-- A call moves every migration on its own; new rows take the next LSN and belong to the newest
mutation. -/
structure SourceStep (s s' : SourceDb) : Prop where
  moves : ∀ k, TailMove s.log.last s.opLog.lastEventId (s.split? k) (s.retained k) (s'.split? k)
    (s'.retained k)
  last_le : s.log.last ≤ s'.log.last
  rows : ∀ r ∈ s'.log, r ∈ s.log ∨ (r.sourceTxId = s.opLog.lastEventId ∧ 0 < s.opLog.lastEventId)
  opLog : s'.opLog = s.opLog

/-- The pending mutations are the newest. -/
def PendingIsNewest (log : OpLog.Ledger) : Prop :=
  ∀ p ∈ log.rows, isPending p = true → p.eventId = log.lastEventId ∧ 0 < log.lastEventId

structure SourceInv (s : SourceDb) : Prop where
  accounted : ∀ k, Accounted s.log.last (s.split? k) (s.retained k)
  txs : ∀ r ∈ s.log, 0 < r.sourceTxId ∧ r.sourceTxId ≤ s.opLog.lastEventId

theorem SourceInv.step {s s' : SourceDb} (hi : SourceInv s) (h : SourceStep s s') : SourceInv s' where
  accounted k := (h.moves k).accounted (hi.accounted k) h.last_le s.log.last_nonneg
    (fun _ hr => SeqTable.key_le (SourceDb.mem_retained.mp hr).1)
    fun r hr => (hi.txs r (SourceDb.mem_retained.mp hr).1).2
  txs r hr := by
    rw [h.opLog]
    rcases h.rows r hr with hr | ⟨htx, hpos⟩
    · exact hi.txs r hr
    · omega

/-- Only the split rows change, and each by a move that retains the same rows. -/
theorem SourceStep.of_splits {s s' : SourceDb} (hlog : s'.log = s.log) (hop : s'.opLog = s.opLog)
    (h : ∀ k, TailMove s.log.last s.opLog.lastEventId (s.split? k) (s.retained k) (s'.split? k)
      (s.retained k)) : SourceStep s s' where
  moves k := by rw [SourceDb.retained_congr hlog]; exact h k
  last_le := by rw [hlog]
  rows r hr := .inl (hlog ▸ hr)
  opLog := hop

/-- Nothing of the splits changes. -/
theorem SourceStep.quiet {s s' : SourceDb} (hlog : s'.log = s.log) (hop : s'.opLog = s.opLog)
    (h : ∀ k, s'.split? k = s.split? k) : SourceStep s s' :=
  .of_splits hlog hop fun k => by rw [h k]; exact .same

theorem SourceStep.refl (s : SourceDb) : SourceStep s s := .quiet rfl rfl fun _ => rfl

end Chardb.Reshard
