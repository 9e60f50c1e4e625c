import Chardb.Reshard.SourceTailRun

/-!
# Acknowledgement and recovery

`ackTail` prunes whole transactions and never finds its account invalid; recovery counts what the
counters already say. With the other calls this gives the account of the split log over every run.
-/

namespace Chardb.Reshard

open Chardb.Lib

variable {s s' : SourceDb}

/-! ## Acknowledgement -/

theorem SourceDb.acknowledged_eq (s : SourceDb) (migId : String) (n : Int) :
    s.acknowledged migId n = (s.retained migId).filter fun r => decide (r.lsn ≤ n) := by
  unfold acknowledged retained SeqTable.select
  rw [List.filter_filter]
  exact List.filter_congr fun r _ => Bool.and_comm _ _

/-- The rows that an acknowledgement leaves. -/
theorem SourceDb.retained_prune (s : SourceDb) (migId k : String) (n : Int) :
    SourceDb.retained
        { s with log := s.log.deleteWhere fun r => decide (r.migId = migId) && decide (r.lsn ≤ n) } k =
      if migId = k then (s.retained k).filter fun r => !decide (r.lsn ≤ n) else s.retained k := by
  rw [SourceDb.retained_delete]
  by_cases hk : migId = k
  · rw [if_pos hk]
    refine List.filter_congr fun r hr => ?_
    rw [(SourceDb.mem_retained.mp hr).2, ← hk, decide_eq_true rfl, Bool.true_and]
  · rw [if_neg hk]
    refine List.filter_eq_self.mpr fun r hr => ?_
    simp [(SourceDb.mem_retained.mp hr).2, Ne.symm hk]

/-- The end of an acknowledgement: the last row of a transaction. -/
structure AckEndpoint (s : SourceDb) (migId : String) (throughLsn : Int) (e : SplitLogRow) : Prop where
  mem : e ∈ s.retained migId
  lsn : e.lsn = throughLsn
  last : ∀ r ∈ s.retained migId, r.sourceTxId = e.sourceTxId → r.lsn ≤ throughLsn

theorem assertAckEndpoint_returns {migId : String} {throughLsn : Int} {a : Unit}
    (h : (assertAckEndpoint migId throughLsn).Returns s a s') :
    s' = s ∧ ∃ e, AckEndpoint s migId throughLsn e := by
  unfold assertAckEndpoint assertReshardSourceTransactionId at h
  simp only [Tx.bind_returns, Tx.gets_returns, Tx.ofOption_returns, Tx.require_returns] at h
  obtain ⟨_, _, ⟨rfl, rfl⟩, e, _, ⟨he, rfl⟩, _, _, ⟨-, rfl⟩, _, _, ⟨rfl, rfl⟩, hrest, rfl⟩ := h
  obtain ⟨hmem, hp⟩ := SeqTable.mem_select.mp (List.mem_of_mem_head? he)
  simp only [Bool.and_eq_true, decide_eq_true_eq] at hp
  refine ⟨rfl, e, SourceDb.mem_retained.mpr ⟨hmem, hp.1⟩, hp.2, fun r hr htx => ?_⟩
  by_contra hlt
  obtain ⟨hr, hmig⟩ := SourceDb.mem_retained.mp hr
  have hin := SeqTable.mem_select (p := fun r => decide (r.migId = migId) &&
    decide (r.sourceTxId = e.sourceTxId) && decide (throughLsn < r.lsn)) |>.mpr
      ⟨hr, by simp [hmig, htx]; omega⟩
  rw [List.isEmpty_iff.mp hrest] at hin
  exact absurd hin List.not_mem_nil

/-- The counters of an acknowledgement are in range. -/
theorem checkAckStats_of_account {st : SplitStateRow} {rows : List SplitLogRow} {last n : Int}
    {e : SplitLogRow} (ha : AccountOf last st rows) (he : e ∈ rows) (hn : e.lsn ≤ n) :
    checkAckStats st (rows.filter fun r => decide (r.lsn ≤ n)) := by
  obtain ⟨hl, hb⟩ := account_partition (fun r => decide (r.lsn ≤ n)) rows
  have h₁ := totalBytes_nonneg (rows.filter fun r => decide (r.lsn ≤ n))
  have h₂ := totalBytes_nonneg (rows.filter fun r => !decide (r.lsn ≤ n))
  have h₃ : 0 < (rows.filter fun r => decide (r.lsn ≤ n)).length :=
    List.length_pos_of_mem (List.mem_filter.mpr ⟨he, decide_eq_true hn⟩)
  have hr := ha.rows_eq
  have hby := ha.bytes_eq
  have hmr := ha.max_rows
  have hmb := ha.max_bytes
  unfold checkAckStats IsSafeInteger MAX_SAFE_INTEGER
  unfold CDB_SPLIT_LOG_MAX_ROWS at hmr
  unfold CDB_SPLIT_LOG_MAX_BYTES at hmb
  omega

/-- The prune of an acknowledgement whose counters are in range. -/
theorem pruneTail_returns {migId : String} {n nowMs : Int} {st : SplitStateRow}
    {rows : List SplitLogRow} {a : Unit} (h : (pruneTail migId n st rows nowMs).Returns s a s') :
    s'.opLog = s.opLog ∧
      s'.log = s.log.deleteWhere (fun r => decide (r.migId = migId) && decide (r.lsn ≤ n)) ∧
        ∃ st₀ st', s.split? migId = some st₀ ∧
          (st'.ackedLsn = n ∧ st'.splitLogRows = st₀.splitLogRows - rows.length ∧
            st'.splitLogBytes = st₀.splitLogBytes - totalBytes rows ∧ st'.drained = st₀.drained ∧
              st'.capture = st₀.capture) ∧
            ∀ k, s'.split? k = if migId = k then some st' else s.split? k := by
  unfold pruneTail at h
  simp only [Tx.bind_returns, Tx.modify_returns, Tx.require_returns, onControl_returns,
    onSplits_returns] at h
  obtain ⟨_, _, rfl, changed, _, ⟨_, ⟨t, hu, rfl⟩, rfl⟩, hone, rfl⟩ := h
  rcases Table.update_key_returns hu fun _ => rfl with ⟨-, st₀, hst, -, hk⟩ | ⟨h0, -⟩
  · refine ⟨rfl, rfl, st₀,
      { st₀ with
        ackedLsn := n, splitLogRows := st₀.splitLogRows - rows.length
        splitLogBytes := st₀.splitLogBytes - totalBytes rows, updatedAt := nowMs },
      hst, ⟨rfl, rfl, rfl, rfl, rfl⟩, hk⟩
  · omega

theorem ackTail_step {schema : CdbSchema} {migId : String} {n nowMs : Int} {result : AckTailResult}
    (h : (ackTail schema migId n nowMs).Returns s result s') :
    SourceStep s s' ∧ (s' = s ∨ ∃ e, AckEndpoint s migId n e ∧
      s'.log = s.log.deleteWhere fun r => decide (r.migId = migId) && decide (r.lsn ≤ n)) := by
  unfold ackTail at h
  simp only [Tx.transactionSync_returns, Tx.bind_returns, Tx.gets_returns, Tx.ofOption_returns,
    Tx.require_returns, onControl_returns] at h
  obtain ⟨_, _, ⟨hn, rfl⟩, _, _, ⟨_, hm, rfl⟩, _, _, ⟨rfl, rfl⟩, st, _, ⟨hf, rfl⟩, h⟩ := h
  obtain ⟨rfl, -⟩ := assertReshardMovement_returns hm
  have hst : s.split? migId = some st := (Option.filter_eq_some_iff.mp hf).1
  by_cases hle : n ≤ st.ackedLsn
  · rw [if_pos hle] at h
    obtain ⟨-, rfl⟩ := Tx.pure_returns.mp h
    exact ⟨.refl _, .inl rfl⟩
  · rw [if_neg hle] at h
    unfold advanceTailAck at h
    simp only [Tx.bind_returns, Tx.gets_returns, Tx.require_returns, Tx.pure_returns] at h
    obtain ⟨_, _, hend, _, _, ⟨rfl, rfl⟩, _, _, ⟨-, rfl⟩, _, _, hprune, -, rfl⟩ := h
    obtain ⟨rfl, e, he⟩ := assertAckEndpoint_returns hend
    obtain ⟨hop, hlog, st₀, st', hst₀, ⟨h₁, h₂, h₃, h₄, h₅⟩, hk⟩ := pruneTail_returns hprune
    obtain rfl : st = st₀ := Option.some.inj (hst.symm.trans hst₀)
    refine ⟨⟨fun k => ?_, by rw [hlog, SeqTable.deleteWhere_last], fun r hr => ?_, hop⟩,
      .inr ⟨e, he, hlog⟩⟩
    · have hret : ∀ k, SourceDb.retained _ k = _ := fun k =>
        (SourceDb.retained_congr hlog k).trans (SourceDb.retained_prune s migId k n)
      rw [hk, hret]
      by_cases hmk : migId = k
      · subst hmk
        rw [if_pos rfl, if_pos rfl, hst]
        have hlast := SeqTable.key_le (SourceDb.mem_retained.mp he.mem).1
        rw [SourceDb.acknowledged_eq] at h₂ h₃
        exact .pruned (he.lsn ▸ hlast) (by omega) h₁ h₂ h₃ h₄ h₅
      · rw [if_neg hmk, if_neg hmk]; exact .same
    · rw [hlog] at hr
      exact .inl (SeqTable.mem_deleteWhere.mp hr).1

/-- An acknowledgement takes a source transaction whole or leaves it whole. -/
theorem ackTail_whole {schema : CdbSchema} {migId : String} {n nowMs : Int} {result : AckTailResult}
    (hi : SourceInv s) (h : (ackTail schema migId n nowMs).Returns s result s') {r r' : SplitLogRow}
    (hr : r ∈ s.retained migId) (hr' : r' ∈ s.retained migId) (htx : r.sourceTxId = r'.sourceTxId)
    (hkept : r ∈ s'.log) : r' ∈ s'.log := by
  rcases (ackTail_step h).2 with rfl | ⟨e, he, hlog⟩
  · exact (SourceDb.mem_retained.mp hr').1
  · rw [hlog] at hkept ⊢
    obtain ⟨-, hmig⟩ := SourceDb.mem_retained.mp hr
    obtain ⟨hmem', hmig'⟩ := SourceDb.mem_retained.mp hr'
    have hgt : n < r.lsn := by
      simpa [hmig] using (SeqTable.mem_deleteWhere.mp hkept).2
    refine SeqTable.mem_deleteWhere.mpr ⟨hmem', ?_⟩
    simp only [hmig', decide_true, Bool.true_and, decide_eq_false_iff_not, not_le]
    by_contra hle
    -- the endpoint stands between the two rows, so it is of their transaction
    have hord : (s.retained migId).Pairwise fun a b => a.sourceTxId ≤ b.sourceTxId := by
      have ha := hi.accounted migId
      cases hs : s.split? migId with
      | none => rw [hs] at ha; rw [show s.retained migId = [] from ha]; exact .nil
      | some st => rw [hs] at ha; exact ha.ordered
    have hmono : ∀ a ∈ s.retained migId, ∀ b ∈ s.retained migId, a.lsn < b.lsn →
        a.sourceTxId ≤ b.sourceTxId := by
      intro a ha b hb hlt
      obtain ⟨i, hil, rfl⟩ := List.mem_iff_getElem.mp ha
      obtain ⟨j, hjl, rfl⟩ := List.mem_iff_getElem.mp hb
      have hsorted := List.pairwise_iff_getElem.mp (s.log.select_sorted fun r => decide (r.migId = migId))
      rcases lt_trichotomy i j with hij | rfl | hij
      · exact List.pairwise_iff_getElem.mp hord i j hil hjl hij
      · exact le_rfl
      · have hji := hsorted j i hjl hil hij
        exact absurd hji (by unfold SourceDb.retained at hlt; omega)
    have h₁ : e.sourceTxId ≤ r.sourceTxId := hmono e he.mem r hr (by rw [he.lsn]; exact hgt)
    have h₂ : r'.sourceTxId ≤ e.sourceTxId := by
      by_cases heq : r'.lsn = e.lsn
      · have hlog := SeqTable.eq_of_key hmem' (SourceDb.mem_retained.mp he.mem).1 heq
        rw [hlog]
      · exact hmono r' hr' e he.mem (by have := he.lsn; omega)
    have := he.last r hr (by omega)
    omega

/-! ## What acknowledgements and appends throw -/

/-- Not a failure of the account. -/
def NotAccounting (e : Thrown) : Prop :=
  e ≠ accountingInvalid ∧ e ≠ ackStateChanged ∧ e ≠ recoveryByteAccountingInvalid ∧
    e ≠ .constraint "_chardb_split_state"

theorem Refusal.notAccounting {e : Thrown} (h : Refusal e) : NotAccounting e := by
  refine ⟨?_, ?_, ?_, ?_⟩ <;> rintro rfl <;> rcases h with h | h | h <;> cases h

theorem throwsOnly_assertAckEndpoint (migId : String) (n : Int) :
    (assertAckEndpoint migId n).ThrowsOnly NotAccounting := by
  refine (Tx.throwsOnly_gets _).bind fun _ => (Tx.throwsOnly_ofOption ?_).bind fun _ =>
    (Tx.throwsOnly_require ?_).bind fun _ => (Tx.throwsOnly_gets _).bind fun _ =>
      Tx.throwsOnly_require ?_
  all_goals
    simp [NotAccounting, accountingInvalid, ackStateChanged, recoveryByteAccountingInvalid,
      invariantError]

/-- A prune within the counters goes through. -/
theorem pruneTail_not_throws {migId : String} {n nowMs : Int} {st : SplitStateRow}
    {rows : List SplitLogRow} {e : Thrown} (hst : s.split? migId = some st) (hrole : st.role = .source)
    (hn : 0 ≤ n) (hr : (rows.length : Int) ≤ st.splitLogRows) (hb : totalBytes rows ≤ st.splitLogBytes) :
    ¬ (pruneTail migId n st rows nowMs).Throws s e s' := by
  intro h
  unfold pruneTail at h
  simp only [Tx.bind_throws, Tx.modify_throws, Tx.modify_returns, Tx.require_throws,
    onControl_throws, onControl_returns, onSplits_throws, onSplits_returns, false_or] at h
  obtain ⟨_, _, rfl, ⟨_, ⟨t, ht, -⟩, -⟩ | ⟨changed, _, ⟨_, ⟨t, hu, -⟩, -⟩, hne, -⟩⟩ := h
  · refine Table.update_not_throws ht (fun _ => rfl) fun r hr' hp => ?_
    obtain ⟨-, h₂, h₃, h₄, h₅, h₆, h₇⟩ := Table.check_of_mem hr'
    simp only [Bool.and_eq_true, decide_eq_true_eq] at hp
    obtain ⟨-, ⟨-, hrows⟩, hbytes⟩ := hp
    exact ⟨hn, Int.sub_nonneg_of_le hrows, Int.sub_nonneg_of_le hbytes, h₄, h₅, h₆, h₇⟩
  · rcases Table.update_key_returns hu fun _ => rfl with ⟨h₁, -⟩ | ⟨-, hno, -⟩
    · exact hne h₁
    · have := hno st hst
      simp [hrole, hr, hb] at this

/-- An acknowledgement never finds the account invalid. -/
theorem ackTail_throws {schema : CdbSchema} {migId : String} {n nowMs : Int} {e : Thrown}
    (hi : SourceInv s) (h : (ackTail schema migId n nowMs).Throws s e s') : NotAccounting e := by
  unfold ackTail at h
  rcases Tx.bind_throws.mp h with h | ⟨_, _, hreq, h⟩
  · exact Refusal.notAccounting (Tx.throwsOnly_require (.inl rfl) h)
  obtain ⟨hn, rfl⟩ := Tx.require_returns.mp hreq
  obtain ⟨-, _, h⟩ := Tx.transactionSync_throws.mp h
  rcases Tx.bind_throws.mp h with h | ⟨_, mid, hcontrol, h⟩
  · exact Refusal.notAccounting (throwsOnly_assertReshardMovement.zoom h)
  obtain rfl := (readOnly_onControl readOnly_assertReshardMovement).returns hcontrol
  simp only [Tx.bind_throws, Tx.gets_throws, Tx.gets_returns, Tx.ofOption_throws, Tx.ofOption_returns,
    false_or] at h
  obtain ⟨_, _, ⟨rfl, rfl⟩, ⟨-, rfl, -⟩ | ⟨st, _, ⟨hf, rfl⟩, h⟩⟩ := h
  · simp [NotAccounting, accountingInvalid, ackStateChanged, recoveryByteAccountingInvalid,
      invariantError]
  obtain ⟨hst, hrole⟩ := Option.filter_eq_some_iff.mp hf
  have hst : s.split? migId = some st := hst
  have hrole : st.role = .source := of_decide_eq_true hrole
  by_cases hle : n ≤ st.ackedLsn
  · rw [if_pos hle] at h; simp at h
  · rw [if_neg hle] at h
    unfold advanceTailAck at h
    rcases Tx.bind_throws.mp h with h | ⟨_, ended, hend, hrest⟩
    · exact throwsOnly_assertAckEndpoint _ _ h
    obtain ⟨rfl, e', he'⟩ := assertAckEndpoint_returns hend
    have hacc : AccountOf ended.log.last st (ended.retained migId) := by
      have := hi.accounted migId
      rwa [hst] at this
    have hstats := checkAckStats_of_account hacc he'.mem he'.lsn.le
    rw [← SourceDb.acknowledged_eq] at hstats
    simp only [Tx.bind_throws, Tx.gets_throws, Tx.gets_returns, Tx.require_throws, Tx.require_returns,
      Tx.pure_throws, false_or] at hrest
    obtain ⟨_, _, ⟨rfl, rfl⟩, ⟨hno, -⟩ | ⟨_, _, ⟨-, rfl⟩, hprune⟩⟩ := hrest
    · exact absurd hstats hno
    · rcases hprune with hprune | ⟨_, _, _, hpure⟩
      · exact absurd hprune (pruneTail_not_throws hst hrole hn.2 hstats.2.1.2 hstats.2.2.2)
      · exact hpure.elim

/-- What a captured change can throw. -/
def CaptureRefusal (e : Thrown) : Prop :=
  e = noPendingMutation ∨ e = logCapacityReached ∨ e = .constraint "_chardb_split_log"

/-- The charge of an append keeps every counter from becoming negative. -/
theorem throwsOnly_chargeSplit (migId : String) (c : TailImage) (when : Bool) (txId vshard : Int) :
    (chargeSplit migId c when txId vshard).ThrowsOnly CaptureRefusal := by
  intro s e s' h
  obtain ⟨_, ht, -⟩ := onControl_throws.mp h
  obtain ⟨t, ht, -⟩ := onSplits_throws.mp ht
  refine (Table.update_not_throws ht (fun _ => rfl) fun r hr _ => ?_).elim
  have h₁ := textBytes_nonneg migId
  have h₂ := textBytes_nonneg c.op.text
  have h₃ := textBytes_nonneg c.tableName
  have h₄ := textBytes_nonneg c.quotedPk
  have h₅ := textBytes_nonneg (c.before.getD "")
  have h₆ := textBytes_nonneg (c.after.getD "")
  obtain ⟨h₇, h₈, h₉, h₁₀, h₁₁, hrest⟩ := Table.check_of_mem hr
  have ha : 0 ≤ c.accountedBytes migId := by unfold TailImage.accountedBytes; omega
  have hb : 0 ≤ c.transferBytes := by unfold TailImage.transferBytes; omega
  refine ⟨h₇, Int.add_nonneg h₈ (by decide), Int.add_nonneg h₉ ha, ?_, ?_, hrest⟩
  · show 0 ≤ if r.captureTxId = some txId then r.captureTxRows + 1 else 1
    split <;> omega
  · show 0 ≤ if r.captureTxId = some txId then r.captureTxBytes + c.transferBytes else c.transferBytes
    split <;> omega

theorem throwsOnly_appendLog (migId : String) (c : TailImage) (when : Bool) (ts : Int) :
    (appendLog migId c when ts).ThrowsOnly CaptureRefusal :=
  (Tx.throwsOnly_gets _).bind fun _ => (Tx.throwsOnly_ofOption (.inl rfl)).bind fun x =>
    (throwsOnly_chargeSplit migId c when x.1 x.2).bind fun _ => (Tx.throwsOnly_gets _).bind fun _ =>
      (Tx.throwsOnly_require (.inr (.inl rfl))).bind fun _ =>
        .ite ((Tx.throwsOnly_ofOption (.inr (.inr rfl))).bind fun _ => Tx.throwsOnly_modify _)
          (Tx.throwsOnly_pure _)

theorem throwsOnly_captureTrigger (migId : String) (t : TableSpec) (ts : Int) (change : RowChange) :
    (captureTrigger migId t ts change).ThrowsOnly CaptureRefusal := by
  cases change with
  | insert new => exact throwsOnly_appendLog _ _ _ _
  | update old new =>
    exact (throwsOnly_appendLog _ _ _ _).bind fun _ => throwsOnly_appendLog _ _ _ _
  | delete old => exact throwsOnly_appendLog _ _ _ _

theorem throwsOnly_fireTriggers (tableName : String) (change : RowChange) (ts : Int)
    (installed : List (String × TableSpec)) :
    (fireTriggers tableName change ts installed).ThrowsOnly CaptureRefusal := by
  induction installed with
  | nil => exact Tx.throwsOnly_pure _
  | cons x rest ih =>
    have hfirst : (fireTrigger tableName change ts x).ThrowsOnly CaptureRefusal :=
      .ite (throwsOnly_captureTrigger _ _ _ _) (Tx.throwsOnly_pure _)
    exact hfirst.bind fun _ => ih

theorem throwsOnly_changeRows (ts : Int) (changes : List (String × RowChange)) :
    (changeRows ts changes).ThrowsOnly CaptureRefusal := by
  induction changes with
  | nil => exact Tx.throwsOnly_pure _
  | cons x rest ih =>
    exact (Tx.throwsOnly_gets _).bind fun _ => (throwsOnly_fireTriggers _ _ _ _).bind fun _ => ih

/-! ## Recovery -/

theorem recountBytes_eq {migId : String} {rows : List SplitLogRow} {b : Int} (hb : 0 ≤ b)
    (h : b + totalBytes rows ≤ CDB_SPLIT_LOG_MAX_BYTES) :
    recountBytes migId b rows = .ok (b + totalBytes rows) := by
  induction rows generalizing b with
  | nil => simp [recountBytes]
  | cons r rest ih =>
    have h₁ := r.accountedBytes_pos
    have h₂ := totalBytes_nonneg rest
    rw [totalBytes_cons] at h ⊢
    have hmax : CDB_SPLIT_LOG_MAX_BYTES ≤ MAX_SAFE_INTEGER := by decide
    unfold recountBytes IsSafeInteger
    rw [if_neg (by omega), if_neg (by omega), ih (by omega) (by omega)]
    congr 1; omega

/-- One active split is counted again to what its counters say. -/
theorem recountSplit_returns {migId : String} {a : Unit}
    (h : (recountSplit migId).Returns s a s') :
    s'.log = s.log ∧ s'.opLog = s.opLog ∧ ∃ b, recountBytes migId 0 (s.retained migId) = .ok b ∧
      ∀ k, s'.split? k = (s.split? k).map fun r =>
        if r.migId = migId ∧ r.drained = false then
          { r with splitLogRows := (s.retained migId).length, splitLogBytes := b }
        else r := by
  unfold recountSplit at h
  simp only [Tx.bind_returns, Tx.gets_returns, Tx.require_returns, Tx.ofExcept_returns, Tx.pure_returns,
    onControl_returns, onSplits_returns] at h
  obtain ⟨_, _, ⟨rfl, rfl⟩, _, _, ⟨-, rfl⟩, b, _, ⟨hb, rfl⟩, _, _, ⟨_, ⟨t, hu, rfl⟩, rfl⟩, -, rfl⟩ := h
  obtain ⟨hu, -⟩ := Table.update_returns.mp hu
  refine ⟨rfl, rfl, b, hb, fun k => ?_⟩
  have := Table.find?_update hu (fun _ _ _ => rfl) k
  unfold SourceDb.split? SplitControl.split?
  simpa only [Bool.and_eq_true, decide_eq_true_eq, Bool.not_eq_true'] using this

theorem initializeSplitLogAccounting_step {a : Unit} (hi : SourceInv s)
    (h : initializeSplitLogAccounting.Returns s a s') : SourceStep s s' := by
  unfold initializeSplitLogAccounting at h
  simp only [Tx.transactionSync_returns, Tx.bind_returns, Tx.gets_returns, onControl_returns,
    onSplits_returns] at h
  obtain ⟨_, _, ⟨_, ⟨t, hu, rfl⟩, rfl⟩, active, _, ⟨rfl, rfl⟩, h⟩ := h
  obtain ⟨hu, -⟩ := Table.update_returns.mp hu
  have hfirst : ∀ k, t.find? k = (s.split? k).map fun r =>
      if r.drained = true then { r with splitLogRows := 0, splitLogBytes := 0 } else r :=
    Table.find?_update hu fun _ _ _ => rfl
  have hquiet : ∀ k, TailMove s.log.last s.opLog.lastEventId (s.split? k) (s.retained k) (t.find? k)
      (s.retained k) := by
    intro k
    rw [hfirst]
    have hacc := hi.accounted k
    cases hs : s.split? k with
    | none => exact .same
    | some st =>
      rw [hs] at hacc
      rw [Option.map_some]
      by_cases hd : st.drained = true
      · rw [if_pos hd]
        have hnil := (hacc.drained hd).2
        have hr := hacc.rows_eq
        have hb := hacc.bytes_eq
        rw [hnil] at hr hb
        exact .adjusted rfl hr.symm hb.symm rfl fun hd => (hacc.drained hd).1
      · rw [if_neg hd]; exact .same
  cases hact : t.select SplitStateRow.active with
  | nil =>
    rw [hact] at h
    obtain ⟨-, rfl⟩ := Tx.pure_returns.mp h
    exact .of_splits rfl rfl hquiet
  | cons st rest =>
    rw [hact] at h
    cases rest with
    | cons _ _ => simp [recountActive] at h
    | nil =>
      obtain ⟨hlog, hop, b, hb, hk⟩ := recountSplit_returns h
      refine .of_splits hlog hop fun k => ?_
      rw [hk]
      show TailMove _ _ _ _ ((t.find? k).map _) _
      have hacc := hi.accounted k
      have hq := hquiet k
      rw [hfirst] at hq ⊢
      cases hs : s.split? k with
      | none => exact .same
      | some st₀ =>
        rw [hs] at hacc hq
        simp only [Option.map_some] at hq ⊢
        by_cases hd : st₀.drained = true
        · rw [if_pos hd] at hq ⊢
          rw [if_neg (by simp [hd])]; exact hq
        · rw [if_neg hd] at hq ⊢
          by_cases hm : st₀.migId = st.migId
          · have hkm : k = st.migId := (Table.find?_eq_some.mp hs).2.symm.trans hm
            have hbytes : recountBytes st.migId 0 (s.retained st.migId) = .ok b := hb
            rw [← hkm, recountBytes_eq le_rfl (by rw [zero_add, ← hacc.bytes_eq]; exact hacc.max_bytes)]
              at hbytes
            have hret : SourceDb.retained { s with control := { s.control with splits := t } } st.migId =
                s.retained k := by rw [← hkm]; rfl
            rw [if_pos ⟨hm, by simpa using hd⟩, hret]
            refine .recounted rfl rfl ?_ rfl rfl
            have := Except.ok.inj hbytes
            rw [zero_add] at this
            exact this.symm
          · rw [if_neg fun h => hm h.1]; exact .same

/-- Recovery refuses nothing but a second active split. -/
theorem initializeSplitLogAccounting_throws {e : Thrown} (hi : SourceInv s)
    (h : initializeSplitLogAccounting.Throws s e s') : e = moreThanOneActive := by
  unfold initializeSplitLogAccounting at h
  obtain ⟨-, last, h⟩ := Tx.transactionSync_throws.mp h
  simp only [Tx.bind_throws, Tx.gets_throws, Tx.gets_returns, onControl_throws, onControl_returns,
    onSplits_throws, onSplits_returns, false_or] at h
  rcases h with ⟨_, ⟨t, ht, -⟩, -⟩ | ⟨_, _, ⟨_, ⟨t, hu, rfl⟩, rfl⟩, active, _, ⟨rfl, rfl⟩, h⟩
  · refine (Table.update_not_throws ht (fun _ => rfl) fun r hr _ => ?_).elim
    obtain ⟨h₁, -, -, hrest⟩ := Table.check_of_mem hr
    exact ⟨h₁, le_rfl, le_rfl, hrest⟩
  have hact : ∀ st ∈ t.select SplitStateRow.active,
      AccountOf s.log.last st (s.retained st.migId) := by
    intro st hst
    obtain ⟨hmem, hactive⟩ := Table.mem_select.mp hst
    obtain ⟨r, hr, rfl⟩ := (Table.mem_update (Table.update_returns.mp hu).1).mp hmem
    have hacc := hi.accounted r.migId
    rw [show s.split? r.migId = some r from Table.find?_key hr] at hacc
    by_cases hd : r.drained = true
    · simp [SplitStateRow.active, hd] at hactive
    · rw [if_neg hd]; exact hacc
  cases hsel : t.select SplitStateRow.active with
  | nil => rw [hsel] at h; simp [recountActive] at h
  | cons st rest =>
    rw [hsel] at h hact
    cases rest with
    | cons _ _ => exact (Tx.throw_throws.mp h).1
    | nil =>
      have hacc := hact st (List.mem_singleton_self st)
      have hrows := hacc.rows_eq
      have hbytes := hacc.bytes_eq
      have hret : SourceDb.retained { s with control := { s.control with splits := t } } st.migId =
          s.retained st.migId := rfl
      have hcount : recountBytes st.migId 0 (s.retained st.migId) =
          .ok (0 + totalBytes (s.retained st.migId)) :=
        recountBytes_eq le_rfl (by rw [zero_add, ← hbytes]; exact hacc.max_bytes)
      unfold recountActive recountSplit at h
      simp only [Tx.bind_throws, Tx.gets_throws, Tx.gets_returns, Tx.require_throws, Tx.require_returns,
        Tx.ofExcept_throws, Tx.ofExcept_returns, Tx.pure_throws, onControl_throws, onControl_returns,
        onSplits_throws, onSplits_returns, false_or] at h
      obtain ⟨_, _, ⟨rfl, rfl⟩, ⟨hmax, -⟩ | ⟨_, _, ⟨-, rfl⟩, ⟨herr, -⟩ | ⟨b, _, ⟨hok, rfl⟩, hupd⟩⟩⟩ := h
      · rw [hret] at hmax
        exact absurd (hrows ▸ hacc.max_rows) hmax
      · rw [hret, hcount] at herr; cases herr
      · rw [hret, hcount] at hok
        have hb : 0 ≤ b := by
          rw [← Except.ok.inj hok, zero_add]; exact totalBytes_nonneg _
        rcases hupd with ⟨_, ⟨_, hthrow, -⟩, -⟩ | ⟨_, _, _, hfalse⟩
        · refine (Table.update_not_throws hthrow (fun _ => rfl) fun r hr _ => ?_).elim
          obtain ⟨h₁, -, -, hrest⟩ := Table.check_of_mem hr
          exact ⟨h₁, Int.natCast_nonneg _, hb, hrest⟩
        · exact hfalse.elim

/-! ## Runs -/

/-- A call on the source. -/
inductive SourceCall
  | mutate (m : TailMutation)
  | writeOutside (statements : List Statement) (nowMs : Int)
  | begin (schema : CdbSchema) (identity : CdbReshardSplitIdentity) (nowMs : Int)
  | stop (schema : CdbSchema) (identity : CdbReshardSplitIdentity) (nowMs : Int)
  | finish (schema : CdbSchema) (identity : CdbReshardSplitIdentity) (nowMs : Int)
  | abort (schema : CdbSchema) (identity : CdbReshardSplitIdentity) (nowMs : Int)
  | ackTail (schema : CdbSchema) (migId : String) (throughLsn nowMs : Int)
  | restart

/-- The source after a call, returned from or thrown out of. -/
def SourceDb.step (s : SourceDb) : SourceCall → SourceDb
  | .mutate m => m.run.after s
  | .writeOutside statements nowMs => (Reshard.writeOutside statements nowMs).after s
  | .begin schema identity nowMs => (beginReshardSource schema identity nowMs).after s
  | .stop schema identity nowMs => (stopReshardCapture schema identity nowMs).after s
  | .finish schema identity nowMs => (finishReshardSource schema identity nowMs).after s
  | .abort schema identity nowMs => (abortReshardSource schema identity nowMs).after s
  | .ackTail schema migId throughLsn nowMs => (Reshard.ackTail schema migId throughLsn nowMs).after s
  | .restart => initializeSplitLogAccounting.after s

def SourceDb.run (s : SourceDb) (calls : List SourceCall) : SourceDb := calls.foldl SourceDb.step s

/-- A transaction that steps the source keeps it at rest. -/
theorem keeps_of_step {α : Type} {x : SourceTx α} {I : SourceDb → Prop} (hI : Stable I)
    (hx : x.Atomic) (h : ∀ ⦃s a s'⦄, SourceInv s → x.Returns s a s' → SourceStep s s') :
    x.Keeps (Rests I) :=
  hx.keeps fun s a s' hs hr => by
    have hstep := h hs.2.1 hr
    refine ⟨fun p hp => hs.1 p ?_, hs.2.1.step hstep, hI.step hs.2.2 hs.2.1 hstep⟩
    rw [← hstep.opLog]; exact hp

theorem atomic_ackTail (schema : CdbSchema) (migId : String) (n nowMs : Int) :
    (ackTail schema migId n nowMs).Atomic :=
  (Tx.readOnly_require _ _).bind_atomic fun _ => Tx.atomic_transactionSync _

theorem Rests.step {I : SourceDb → Prop} (hI : Stable I) (hs : Rests I s) (call : SourceCall) :
    Rests I (s.step call) := by
  cases call with
  | mutate m => exact m.run_keeps hI hs
  | writeOutside statements nowMs => exact writeOutside_keeps hI statements nowMs hs
  | begin schema identity nowMs =>
    exact keeps_of_step hI (Tx.atomic_transactionSync _) (fun _ _ _ _ h => beginReshardSource_step h) hs
  | stop schema identity nowMs =>
    exact keeps_of_step hI (Tx.atomic_transactionSync _) (fun _ _ _ _ h => stopReshardCapture_step h) hs
  | finish schema identity nowMs =>
    exact keeps_of_step hI (Tx.atomic_transactionSync _) (fun _ _ _ _ h => finishReshardSource_step h) hs
  | abort schema identity nowMs =>
    exact keeps_of_step hI (Tx.atomic_transactionSync _) (fun _ _ _ _ h => abortReshardSource_step h) hs
  | ackTail schema migId n nowMs =>
    exact keeps_of_step hI (atomic_ackTail _ _ _ _) (fun _ _ _ _ h => (ackTail_step h).1) hs
  | restart =>
    exact keeps_of_step hI (Tx.atomic_transactionSync _)
      (fun _ _ _ hi h => initializeSplitLogAccounting_step hi h) hs

theorem Rests.run {I : SourceDb → Prop} (hI : Stable I) (hs : Rests I s) (calls : List SourceCall) :
    Rests I (s.run calls) := by
  induction calls generalizing s with
  | nil => exact hs
  | cons call calls ih => exact ih (hs.step hI call)

/-- The migration is acknowledged up to `n` at least. -/
def AckedPast (migId : String) (n : Int) (s : SourceDb) : Prop :=
  ∃ st, s.split? migId = some st ∧ n ≤ st.ackedLsn

theorem stable_ackedPast (migId : String) (n : Int) : Stable (AckedPast migId n) where
  step := by
    rintro s s' ⟨st, hst, hn⟩ - hstep
    have hmove := hstep.moves migId
    rw [hst] at hmove
    obtain ⟨st', hst', hle⟩ := hmove.acked_le
    exact ⟨st', hst', hn.trans hle⟩
  ledger _ h := h

theorem stable_true : Stable fun _ => True := ⟨fun _ _ _ => trivial, fun _ _ => trivial⟩

/-- A source before capture: nothing is retained or pending, and no split row has an account. -/
structure NewSource where
  db : SourceDb
  settled : Settled db
  noRows : ∀ r : SplitLogRow, r ∉ db.log
  noAccount : ∀ st ∈ db.control.splits, st.splitLogRows = 0 ∧ st.splitLogBytes = 0 ∧
    st.ackedLsn ≤ db.log.last ∧ (st.drained = true → st.capture = false)

theorem NewSource.rests (source : NewSource) : Rests (fun _ => True) source.db := by
  have hret : ∀ k, source.db.retained k = [] := fun k =>
    List.eq_nil_iff_forall_not_mem.mpr fun r hr => source.noRows r (SourceDb.mem_retained.mp hr).1
  refine ⟨source.settled, ⟨fun k => ?_, fun r hr => absurd hr (source.noRows r)⟩, trivial⟩
  rw [hret]
  cases hs : source.db.split? k with
  | none => exact rfl
  | some st =>
    obtain ⟨h₁, h₂, h₃, h₄⟩ := source.noAccount st (Table.find?_eq_some.mp hs).1
    refine ⟨by simp [h₁], by simp [h₂], by simp, h₃, fun hd => ⟨h₄ hd, rfl⟩, ?_, ?_, .nil⟩
    · rw [h₁]; decide
    · rw [h₂]; decide

/-- The account of the split log in a state of the source. -/
structure TailAccounted (s : SourceDb) : Prop where
  rows : ∀ migId st, s.split? migId = some st → st.drained = false →
    st.splitLogRows = (s.retained migId).length
  bytes : ∀ migId st, s.split? migId = some st → st.drained = false →
    st.splitLogBytes = totalBytes (s.retained migId)
  /-- No row is retained that is acknowledged. -/
  unacked : ∀ migId st, s.split? migId = some st → ∀ r ∈ s.retained migId, st.ackedLsn < r.lsn
  /-- Acknowledgement never goes back. -/
  acked : ∀ call migId st, s.split? migId = some st →
    ∃ st', (s.step call).split? migId = some st' ∧ st.ackedLsn ≤ st'.ackedLsn
  /-- `ackTail` takes every source transaction whole. -/
  whole : ∀ schema migId throughLsn nowMs result s',
    (ackTail schema migId throughLsn nowMs).Returns s result s' →
      ∀ r ∈ s.retained migId, ∀ r' ∈ s.retained migId, r.sourceTxId = r'.sourceTxId →
        r ∈ s'.log → r' ∈ s'.log
  /-- `ackTail` never finds the account invalid, and never makes a counter negative. -/
  ackErrors : ∀ schema migId throughLsn nowMs e s',
    (ackTail schema migId throughLsn nowMs).Throws s e s' → NotAccounting e
  /-- Recovery refuses nothing but a second active split. -/
  recoveryErrors : ∀ e s', initializeSplitLogAccounting.Throws s e s' → e = moreThanOneActive

/-- Over every run of the source the account is right; row changes never break it, whatever the
state in which they are captured. -/
structure SourceTailAccounting : Prop where
  reachable : ∀ (source : NewSource) (calls : List SourceCall), TailAccounted (source.db.run calls)
  captureErrors : ∀ ts changes s e s', (changeRows ts changes).Throws s e s' → CaptureRefusal e

theorem source_tail_accounting : SourceTailAccounting where
  reachable source calls := by
    have hrest := source.rests.run stable_true calls
    have hinv := hrest.2.1
    have hacc : ∀ {migId st}, (source.db.run calls).split? migId = some st →
        AccountOf _ st ((source.db.run calls).retained migId) := fun {migId st} hst => by
      have := hinv.accounted migId
      rwa [hst] at this
    refine ⟨fun _ _ hst _ => (hacc hst).rows_eq, fun _ _ hst _ => (hacc hst).bytes_eq,
      fun _ _ hst => (hacc hst).after_ack, fun call migId st hst => ?_,
      fun _ _ _ _ _ _ h r hr r' hr' => ackTail_whole hinv h hr hr',
      fun _ _ _ _ _ _ h => ackTail_throws hinv h, fun _ _ h => initializeSplitLogAccounting_throws hinv h⟩
    have hpast : Rests (AckedPast migId st.ackedLsn) (source.db.run calls) :=
      ⟨hrest.1, hinv, st, hst, le_rfl⟩
    exact (hpast.step (stable_ackedPast migId st.ackedLsn) call).2.2
  captureErrors ts changes _ _ _ h := throwsOnly_changeRows ts changes h

end Chardb.Reshard
