import Chardb.Reshard.SourceTailInvariant

/-!
# Runs of a source

Each call of the source as a `SourceStep`, a mutation as a sequence of them under one pending op-log
row, and from these the account of the split log in every reachable state.
-/

namespace Chardb.Reshard

open Chardb.Lib

variable {s s' : SourceDb}

/-! ## Appends -/

theorem chargeSplit_returns {migId : String} {c : TailImage} {when : Bool} {txId vshard : Int} {n : Nat}
    (h : (chargeSplit migId c when txId vshard).Returns s n s') :
    (s'.log = s.log ∧ s'.opLog = s.opLog ∧ s'.triggers = s.triggers) ∧
      ((n = 1 ∧ ∃ st, s.split? migId = some st ∧ (st.capture = true ∧ when = true ∧
            st.covers vshard = true) ∧
          st.hasRoom txId (c.accountedBytes migId) c.transferBytes = true ∧
          ∀ k, s'.split? k =
            if migId = k then some (st.charged txId (c.accountedBytes migId) c.transferBytes)
            else s.split? k) ∨
        (n = 0 ∧ ∀ k, s'.split? k = s.split? k)) := by
  unfold chargeSplit at h
  simp only [onControl_returns, onSplits_returns] at h
  obtain ⟨_, ⟨t, hu, rfl⟩, rfl⟩ := h
  refine ⟨⟨rfl, rfl, rfl⟩, ?_⟩
  rcases Table.update_key_returns hu fun _ => rfl with ⟨hn, st, hst, hp, hk⟩ | ⟨hn, -, hk⟩
  · simp only [Bool.and_eq_true, decide_eq_true_eq] at hp
    obtain ⟨⟨⟨⟨-, hc⟩, hw⟩, hv⟩, hr⟩ := hp
    exact .inl ⟨hn, st, hst, ⟨hc, hw, hv⟩, hr, hk⟩
  · exact .inr ⟨hn, hk⟩

theorem onlyPending_eq {log : OpLog.Ledger} {txId vshard : Int} (hn : PendingIsNewest log)
    (h : onlyPending (pendingMutations log) = some (txId, vshard)) :
    txId = log.lastEventId ∧ 0 < log.lastEventId := by
  cases hp : pendingMutations log with
  | nil => rw [hp] at h; cases h
  | cons r rest =>
    cases rest with
    | cons _ _ => rw [hp] at h; cases h
    | nil =>
      rw [hp] at h
      have hr : r ∈ pendingMutations log := by rw [hp]; exact List.mem_singleton_self r
      obtain ⟨hmem, hpend⟩ := Table.mem_orderBy.mp hr
      obtain ⟨he, hpos⟩ := hn r hmem hpend
      obtain ⟨v, -, hv⟩ := Option.map_eq_some_iff.mp h
      cases hv
      exact ⟨by rw [he], hpos⟩

/-- An append captures its image, or leaves the source as it is. -/
theorem appendLog_step {migId : String} {c : TailImage} {when : Bool} {ts : Int} {a : Unit}
    (hn : PendingIsNewest s.opLog) (h : (appendLog migId c when ts).Returns s a s') : SourceStep s s' := by
  unfold appendLog at h
  simp only [Tx.bind_returns, Tx.gets_returns, Tx.ofOption_returns, Tx.require_returns] at h
  obtain ⟨_, _, ⟨rfl, rfl⟩, ⟨txId, vshard⟩, _, ⟨hpend, rfl⟩, n, mid, hcharge, should, _, ⟨rfl, rfl⟩,
    _, _, ⟨hcap, rfl⟩, h⟩ := h
  obtain ⟨htx, hpos⟩ := onlyPending_eq hn hpend
  obtain ⟨⟨hlog, hop, -⟩, hchange⟩ := chargeSplit_returns hcharge
  rcases hchange with ⟨-, st, hst, ⟨hc, hw, hv⟩, hroom, hk⟩ | ⟨rfl, hk⟩
  · -- the split row is charged: its row is inserted
    have hmid : (mid.split? migId).any (fun r => r.covers vshard) = true := by
      rw [hk, if_pos rfl]; exact hv
    rw [hw, hmid, Bool.and_self, if_pos rfl] at h
    unfold insertLogRow at h
    simp only [Tx.bind_returns, Tx.ofOption_returns, Tx.modify_returns] at h
    obtain ⟨pk, _, ⟨hpk, rfl⟩, -, rfl⟩ := h
    have hacc : (c.toRow migId pk txId ts (s.log.last + 1)).accountedBytes = c.accountedBytes migId :=
      TailImage.toRow_accountedBytes hpk
    simp only [SplitStateRow.hasRoom, Bool.and_eq_true, decide_eq_true_eq] at hroom
    refine ⟨fun k => ?_, ?_, fun r hr => ?_, hop⟩
    · have hmig : (c.toRow migId pk txId ts (s.log.last + 1)).migId = migId := rfl
      rw [SourceDb.split?_setLog (s := mid), SourceDb.retained_append, hk, SourceDb.retained_congr hlog,
        hlog, hmig]
      by_cases hmk : migId = k
      · subst hmk
        rw [if_pos rfl, if_pos rfl, hst]
        refine .captured hc rfl htx ⟨hroom.1.1.1.1.1, ?_⟩ rfl rfl ?_ rfl
        · rw [hacc]; omega
        · rw [hacc]; rfl
      · rw [if_neg hmk, if_neg hmk, List.append_nil]; exact .same
    · have := s.log.last_nonneg
      rw [SeqTable.append_last, hlog]; omega
    · rcases (SeqTable.mem_append (c.toRow_lsn migId pk txId ts)).mp hr with hr | rfl
      · exact .inl (hlog ▸ hr)
      · exact .inr ⟨htx, hpos⟩
  · -- nothing is charged: the append was not to capture
    have hfalse : ¬ (when && (mid.split? migId).any fun r => r.covers vshard) = true :=
      fun ht => hcap ⟨ht, by decide⟩
    rw [if_neg hfalse] at h
    obtain ⟨-, rfl⟩ := Tx.pure_returns.mp h
    exact .quiet hlog hop hk

/-- What the statements of a handler keep: the invariant, and all that a step keeps. -/
structure Stable (I : SourceDb → Prop) : Prop where
  step : ∀ {s s'}, I s → SourceInv s → SourceStep s s' → I s'
  ledger : ∀ {s : SourceDb} (opLog : OpLog.Ledger), I s → I { s with opLog }

/-- The source under a fixed op-log. -/
def Under (L : OpLog.Ledger) (I : SourceDb → Prop) (s : SourceDb) : Prop :=
  s.opLog = L ∧ SourceInv s ∧ I s

section
variable {L : OpLog.Ledger} {I : SourceDb → Prop} (hI : Stable I) (hL : PendingIsNewest L)

include hI

theorem Under.step (h : Under L I s) (hs : SourceStep s s') : Under L I s' :=
  ⟨hs.opLog.trans h.1, h.2.1.step hs, hI.step h.2.2 h.2.1 hs⟩

include hL

theorem appendLog_preserves (migId : String) (c : TailImage) (when : Bool) (ts : Int) :
    (appendLog migId c when ts).Preserves (Under L I) := by
  intro s a s' hs h
  exact Under.step hI hs (appendLog_step (by rw [hs.1]; exact hL) h)

theorem captureTrigger_preserves (migId : String) (t : TableSpec) (ts : Int) (change : RowChange) :
    (captureTrigger migId t ts change).Preserves (Under L I) := by
  cases change with
  | insert new => exact appendLog_preserves hI hL _ _ _ _
  | update old new =>
    exact (appendLog_preserves hI hL _ _ _ _).bind fun _ => appendLog_preserves hI hL _ _ _ _
  | delete old => exact appendLog_preserves hI hL _ _ _ _

theorem fireTriggers_preserves (tableName : String) (change : RowChange) (ts : Int)
    (installed : List (String × TableSpec)) :
    (fireTriggers tableName change ts installed).Preserves (Under L I) := by
  induction installed with
  | nil => exact (Tx.readOnly_pure _).preserves
  | cons x rest ih =>
    have hfirst : (fireTrigger tableName change ts x).Preserves (Under L I) :=
      .ite (fun _ => captureTrigger_preserves hI hL _ _ _ _) fun _ => (Tx.readOnly_pure _).preserves
    exact hfirst.bind fun _ => ih

theorem changeRows_preserves (ts : Int) (changes : List (String × RowChange)) :
    (changeRows ts changes).Preserves (Under L I) := by
  induction changes with
  | nil => exact (Tx.readOnly_pure _).preserves
  | cons x rest ih =>
    obtain ⟨tableName, change⟩ := x
    exact (Tx.readOnly_gets _).preserves.bind fun _ =>
      (fireTriggers_preserves hI hL _ _ _ _).bind fun _ => ih

/-- A statement keeps the source, run to its end or undone. -/
theorem statement_preserves (st : Statement) (ts : Int) : (st.exec ts).Preserves (Under L I) := by
  intro s a s' hs h
  have hk := (changeRows_preserves hI hL ts st.changes).transactionSync hs
  unfold Tx.Returns Statement.exec at h
  unfold Tx.after at hk
  rcases hr : (changeRows ts st.changes).transactionSync s with ⟨e | u, t⟩
  · rw [hr] at h hk
    by_cases hc : st.caught = true
    · simp only [hc, if_true, Prod.mk.injEq] at h
      exact h.2 ▸ hk
    · simp only [hc, Bool.false_eq_true, if_false, Prod.mk.injEq, reduceCtorEq, false_and] at h
  · rw [hr] at h hk
    simp only [Prod.mk.injEq] at h
    exact h.2 ▸ hk

theorem execAll_preserves (ts : Int) (statements : List Statement) :
    (execAll ts statements).Preserves (Under L I) := by
  induction statements with
  | nil => exact (Tx.readOnly_pure _).preserves
  | cons st rest ih => exact (statement_preserves hI hL st ts).bind fun _ => ih

end

/-! ## Mutations -/

/-- No mutation is pending. -/
def Settled (s : SourceDb) : Prop := ∀ p ∈ s.opLog.rows, isPending p = false

/-- The source between transactions. -/
def Rests (I : SourceDb → Prop) (s : SourceDb) : Prop := Settled s ∧ SourceInv s ∧ I s

theorem SourceInv.ledger {log : OpLog.Ledger} (hi : SourceInv s)
    (h : s.opLog.lastEventId ≤ log.lastEventId) : SourceInv { s with opLog := log } where
  accounted := hi.accounted
  txs r hr := ⟨(hi.txs r hr).1, (hi.txs r hr).2.trans (by exact_mod_cast h)⟩

/-- A mutation keeps the source, committed or rolled back. -/
theorem TailMutation.run_keeps {I : SourceDb → Prop} (hI : Stable I) (m : TailMutation) :
    m.run.Keeps (Rests I) := by
  refine Tx.Preserves.transactionSync fun s a s' hs h => ?_
  obtain ⟨hset, hinv, hi⟩ := hs
  simp only [Tx.bind_returns, onLedger_returns] at h
  obtain ⟨n, _, ⟨L, hins, rfl⟩, h⟩ := h
  unfold Tx.Returns OpLog.Ledger.insertOrIgnore at hins
  cases hrow : s.opLog.rows.insert? (m.pendingRow (s.opLog.lastEventId + 1)) with
  | none =>
    simp only [hrow, Prod.mk.injEq, Except.ok.injEq] at hins
    obtain ⟨rfl, rfl⟩ := hins
    obtain ⟨-, rfl⟩ := Tx.pure_returns.mp h
    exact ⟨hset, hinv, hi⟩
  | some rows =>
    simp only [hrow, Prod.mk.injEq, Except.ok.injEq] at hins
    obtain ⟨rfl, rfl⟩ := hins
    -- the new row is the only one that is pending
    have honly : ∀ p ∈ rows, isPending p = true → p = m.pendingRow (s.opLog.lastEventId + 1) := by
      intro p hp hpend
      rcases (Table.mem_insert hrow).mp hp with hp | rfl
      · rw [hset p hp] at hpend; cases hpend
      · rfl
    have hnewest : PendingIsNewest ⟨rows, s.opLog.lastEventId + 1⟩ := by
      intro p hp hpend
      rw [honly p hp hpend]; exact ⟨rfl, Nat.succ_pos _⟩
    rw [if_neg (by decide)] at h
    unfold TailMutation.runHandler at h
    simp only [Tx.bind_returns, Tx.ofExcept_returns, onLedger_returns, Tx.pure_returns] at h
    obtain ⟨_, mid, hexec, payload, _, ⟨-, rfl⟩, _, _, ⟨L, hfin, rfl⟩, -, rfl⟩ := h
    have hunder : Under ⟨rows, s.opLog.lastEventId + 1⟩ I
        { s with opLog := ⟨rows, s.opLog.lastEventId + 1⟩ } :=
      ⟨rfl, hinv.ledger (Nat.le_succ _), hI.ledger _ hi⟩
    obtain ⟨hop, hinv', hi'⟩ := execAll_preserves hI hnewest m.nowMs m.statements hunder hexec
    unfold OpLog.Ledger.finalise at hfin
    simp only [Tx.zoom_returns, Table.update_returns] at hfin
    obtain ⟨t, ⟨hu, -⟩, rfl⟩ := hfin
    refine ⟨fun p hp => ?_, hinv'.ledger le_rfl, hI.ledger _ hi'⟩
    obtain ⟨q, hq, rfl⟩ := (Table.mem_update hu).mp hp
    rw [hop] at hq
    by_cases hkey : q.key = (m.principalId, m.mutId)
    · have := payload.2
      have hne : payload.1.size ≠ 0 := by omega
      simp [hkey, isPending, hne]
    · by_cases hpend : isPending q = true
      · exact absurd (by rw [honly q hq hpend]; rfl) hkey
      · simpa [hkey] using hpend

theorem writeOutside_keeps {I : SourceDb → Prop} (hI : Stable I) (statements : List Statement)
    (nowMs : Int) : (writeOutside statements nowMs).Keeps (Rests I) := by
  refine Tx.Preserves.transactionSync fun s a s' hs h => ?_
  obtain ⟨hset, hinv, hi⟩ := hs
  have hnewest : PendingIsNewest s.opLog := by
    intro p hp hpend
    rw [hset p hp] at hpend; cases hpend
  obtain ⟨hop, hinv', hi'⟩ := execAll_preserves hI hnewest nowMs statements ⟨rfl, hinv, hi⟩ h
  exact ⟨fun p hp => hset p (hop ▸ hp), hinv', hi'⟩

/-! ## Control calls -/

theorem updateSplit_returns {migId : String} {f : SplitStateRow → SplitStateRow} {c c' : SplitControl}
    {n : Nat} (h : (updateSplit migId f).Returns c n c') (hf : ∀ r, (f r).migId = r.migId) (k : String) :
    c'.split? k = if migId = k then (c.split? k).map f else c.split? k := by
  unfold updateSplit at h
  simp only [onSplits_returns, Table.update_returns] at h
  obtain ⟨t, ⟨hu, -⟩, rfl⟩ := h
  show t.find? k = _
  rw [Table.find?_update hu fun r _ _ => hf r]
  unfold SplitControl.split?
  cases hs : c.splits.find? k with
  | none => simp
  | some r =>
    have hr := (Table.find?_eq_some.mp hs).2
    by_cases hk : migId = k
    · simp [hk, hr]
    · simp [hk, hr, Ne.symm hk]

theorem sourceRow_check (migId : String) (lo hi nowMs : Int) : (sourceRow migId lo hi nowMs).check := by
  simp [SplitStateRow.check, sourceRow]

theorem uninstallTriggers_returns {migId : String} {tables : List TableSpec} {a : Unit}
    (h : (uninstallTriggers migId tables).Returns s a s') :
    s'.control = s.control ∧ s'.log = s.log ∧ s'.opLog = s.opLog := by
  obtain rfl := Tx.modify_returns.mp h
  exact ⟨rfl, rfl, rfl⟩

theorem enableCapture_returns {identity : CdbReshardSplitIdentity} {nowMs : Int} {a : Unit}
    (h : (enableCapture identity nowMs).Returns s a s') :
    s'.log = s.log ∧ s'.opLog = s.opLog ∧ ∀ k, s'.split? k =
      if identity.migId = k then
        (s.split? k).map fun r => { r with capture := true, updatedAt := nowMs }
      else s.split? k := by
  unfold enableCapture installTriggers at h
  simp only [Tx.bind_returns, onControl_returns, Tx.modify_returns] at h
  obtain ⟨n, _, ⟨c, hc, rfl⟩, _, mid, hu, rfl⟩ := h
  obtain ⟨hcontrol, hlog, hop⟩ := uninstallTriggers_returns hu
  refine ⟨hlog, hop, fun k => ?_⟩
  show mid.control.split? k = _
  rw [hcontrol]
  exact updateSplit_returns hc (fun _ => rfl) k

/-- The split row that a begin goes on with. -/
theorem requireSourceSplit_returns {identity : CdbReshardSplitIdentity} {st : SplitStateRow}
    (h : (requireSourceSplit identity).Returns s st s') :
    s = s' ∧ s.split? identity.migId = some st ∧ st.drained = false := by
  unfold requireSourceSplit at h
  simp only [Tx.bind_returns, Tx.gets_returns, Tx.ofOption_returns] at h
  obtain ⟨_, _, ⟨rfl, rfl⟩, hf, rfl⟩ := h
  obtain ⟨hst, hp⟩ := Option.filter_eq_some_iff.mp hf
  simp only [Bool.and_eq_true, Bool.not_eq_true'] at hp
  exact ⟨rfl, hst, hp.2⟩

theorem readOnly_assertNoUnexpectedReshardTriggers (migId : String) (tables : List TableSpec) :
    (assertNoUnexpectedReshardTriggers migId tables).ReadOnly :=
  (Tx.readOnly_gets _).bind fun _ => Tx.readOnly_require _ _

theorem beginReshardSource_step {schema : CdbSchema} {identity : CdbReshardSplitIdentity} {nowMs : Int}
    {a : Unit} (h : (beginReshardSource schema identity nowMs).Returns s a s') : SourceStep s s' := by
  unfold beginReshardSource at h
  simp only [Tx.transactionSync_returns, Tx.bind_returns, Tx.gets_returns, Tx.require_returns,
    onControl_returns, onIdentities_returns, onSplits_returns] at h
  obtain ⟨_, _, ⟨c₁, hallow, rfl⟩, _, _, ⟨_, ⟨ids, -, rfl⟩, rfl⟩, _, mid, hun, _, _, ⟨rfl, rfl⟩, _, _,
    ⟨-, rfl⟩, n, _, ⟨_, ⟨splits, hins, rfl⟩, rfl⟩, st, _, hreq, h⟩ := h
  obtain rfl := readOnly_assertReshardBeginAllowed.returns hallow
  obtain rfl := (readOnly_assertNoUnexpectedReshardTriggers _ _).returns hun
  obtain ⟨rfl, hst, hd⟩ := requireSourceSplit_returns hreq
  have hfind : ∀ k, splits.find? k =
      if identity.migId = k then
        some ((s.split? k).getD (sourceRow identity.migId identity.rangeLo identity.rangeHi nowMs))
      else s.split? k := Table.insertIgnore_find? hins (sourceRow_check _ _ _ _)
  have hrow : splits.find? identity.migId = some st := hst
  -- the split row before, and the one that is there when the call goes on
  have hbegun : ∀ k, k ≠ identity.migId → splits.find? k = s.split? k := fun k hk => by
    rw [hfind, if_neg fun he => hk he.symm]
  have hopen : ∀ st' : SplitStateRow, st'.ackedLsn = st.ackedLsn → st'.splitLogRows = st.splitLogRows →
      st'.splitLogBytes = st.splitLogBytes → st'.drained = st.drained →
      TailMove s.log.last s.opLog.lastEventId (s.split? identity.migId) (s.retained identity.migId)
        (some st') (s.retained identity.migId) := by
    intro st' h₁ h₂ h₃ h₄
    have hst' : (s.split? identity.migId).getD (sourceRow identity.migId identity.rangeLo
        identity.rangeHi nowMs) = st := by
      have := hfind identity.migId
      rw [hrow, if_pos rfl] at this
      exact (Option.some.inj this).symm
    cases hs : s.split? identity.migId with
    | none =>
      rw [hs, Option.getD_none] at hst'
      subst hst'
      exact .opened h₁ h₂ h₃ fun hd' => absurd (h₄ ▸ hd') (by rw [hd]; decide)
    | some st₀ =>
      rw [hs, Option.getD_some] at hst'
      subst hst'
      exact .adjusted h₁ h₂ h₃ h₄ fun hd' => absurd hd' (by rw [hd]; decide)
  by_cases hdrain : st.drainStarted = true
  · rw [if_pos hdrain] at h
    obtain ⟨-, rfl⟩ := Tx.pure_returns.mp h
    refine .of_splits rfl rfl fun k => ?_
    show TailMove _ _ _ _ (splits.find? k) _
    by_cases hk : k = identity.migId
    · subst hk; rw [hrow]; exact hopen st rfl rfl rfl rfl
    · rw [hbegun k hk]; exact .same
  · rw [if_neg hdrain] at h
    obtain ⟨hlog, hop, hsplit⟩ := enableCapture_returns h
    refine .of_splits hlog hop fun k => ?_
    rw [hsplit]
    show TailMove _ _ _ _ (if identity.migId = k then (splits.find? k).map _ else splits.find? k) _
    by_cases hk : identity.migId = k
    · subst hk
      rw [if_pos rfl, hrow]; exact hopen _ rfl rfl rfl rfl
    · rw [if_neg hk, hbegun k (Ne.symm hk)]; exact .same

theorem startDrain_step {migId : String} {state : SplitStateRow} {nowMs : Int} {b : Bool}
    (h : (startDrain migId state nowMs).Returns s b s') : SourceStep s s' := by
  unfold startDrain at h
  by_cases hd : state.drainStarted = true
  · rw [if_pos hd] at h
    obtain ⟨-, rfl⟩ := Tx.pure_returns.mp h
    exact .refl _
  · rw [if_neg hd] at h
    simp only [Tx.bind_returns, Tx.require_returns, Tx.pure_returns, onControl_returns,
      onSplits_returns] at h
    obtain ⟨n, _, ⟨_, ⟨t, hu, rfl⟩, rfl⟩, _, _, ⟨rfl, rfl⟩, -, rfl⟩ := h
    refine .of_splits rfl rfl fun k => ?_
    rcases Table.update_key_returns hu fun _ => rfl with ⟨-, st, hst, -, hk⟩ | ⟨h0, -⟩
    · show TailMove _ _ _ _ (t.find? k) _
      rw [hk]
      by_cases hmk : migId = k
      · subst hmk
        rw [if_pos rfl, show s.split? migId = some st from hst]
        exact .adjusted rfl rfl rfl rfl fun _ => rfl
      · rw [if_neg hmk]; exact .same
    · omega

theorem stopReshardCapture_step {schema : CdbSchema} {identity : CdbReshardSplitIdentity} {nowMs : Int}
    {b : Bool} (h : (stopReshardCapture schema identity nowMs).Returns s b s') : SourceStep s s' := by
  unfold stopReshardCapture at h
  simp only [Tx.transactionSync_returns, Tx.bind_returns, Tx.gets_returns, Tx.ofOption_returns,
    onControl_returns] at h
  obtain ⟨_, _, ⟨_, hm, rfl⟩, _, _, ⟨rfl, rfl⟩, st, _, ⟨-, rfl⟩, _, mid, hun, h⟩ := h
  obtain ⟨rfl, -⟩ := assertReshardMovement_returns hm
  obtain ⟨hcontrol, hlog, hop⟩ := uninstallTriggers_returns hun
  have hsplit : ∀ k, mid.split? k = s.split? k := fun k => by unfold SourceDb.split?; rw [hcontrol]
  have hstep := startDrain_step h
  refine ⟨fun k => ?_, by rw [← hlog]; exact hstep.last_le, fun r hr => ?_, hstep.opLog.trans hop⟩
  · have := hstep.moves k
    rwa [hlog, hop, hsplit, SourceDb.retained_congr hlog] at this
  · rw [← hop, ← hlog]; exact hstep.rows r hr

theorem SourceDb.retained_delete {s : SourceDb} {p : SplitLogRow → Bool} {k : String} :
    SourceDb.retained { s with log := s.log.deleteWhere p } k =
      (s.retained k).filter fun r => !p r := SeqTable.select_deleteWhere

theorem clearSource_step {identity : CdbReshardSplitIdentity} {nowMs : Int} {a : Unit}
    {st : SplitStateRow} (hst : s.split? identity.migId = some st)
    (h : (clearSource identity nowMs).Returns s a s') : SourceStep s s' := by
  unfold clearSource at h
  simp only [Tx.bind_returns, Tx.modify_returns, onControl_returns] at h
  obtain ⟨_, mid, hun, n, _, ⟨c, hu, rfl⟩, rfl⟩ := h
  obtain ⟨hcontrol, hlog, hop⟩ := uninstallTriggers_returns hun
  have hsplit := updateSplit_returns hu fun _ => rfl
  refine ⟨fun k => ?_, by rw [SeqTable.deleteWhere_last, hlog], fun r hr => ?_, hop⟩
  · have hret : SourceDb.retained { mid with control := c } k = s.retained k :=
      SourceDb.retained_congr hlog k
    show TailMove _ _ _ _ (c.split? k) _
    rw [hsplit, hcontrol, SourceDb.retained_delete (s := { mid with control := c }), hret]
    show TailMove _ _ _ _ (if identity.migId = k then (s.split? k).map _ else s.split? k) _
    by_cases hk : identity.migId = k
    · subst hk
      rw [if_pos rfl, hst]
      have hnil : (s.retained identity.migId).filter (fun r => !decide (r.migId = identity.migId)) = [] :=
        List.filter_eq_nil_iff.mpr fun r hr => by simp [(SourceDb.mem_retained.mp hr).2]
      rw [hnil]
      exact .cleared rfl rfl rfl rfl rfl
    · rw [if_neg hk]
      have hall : (s.retained k).filter (fun r => !decide (r.migId = identity.migId)) = s.retained k :=
        List.filter_eq_self.mpr fun r hr => by simp [(SourceDb.mem_retained.mp hr).2, Ne.symm hk]
      rw [hall]
      exact .same
  · have := (SeqTable.mem_deleteWhere.mp hr).1
    exact .inl (hlog ▸ this)

theorem clearSourceOnce_step {identity : CdbReshardSplitIdentity} {nowMs : Int} {a : Unit}
    {st : SplitStateRow} (hst : s.split? identity.migId = some st)
    (h : (clearSourceOnce identity st nowMs).Returns s a s') : SourceStep s s' := by
  unfold clearSourceOnce at h
  by_cases hd : st.drained = true
  · rw [if_pos hd] at h
    obtain ⟨-, rfl⟩ := Tx.pure_returns.mp h
    exact .refl _
  · rw [if_neg hd] at h
    exact clearSource_step hst h

theorem finishReshardSource_step {schema : CdbSchema} {identity : CdbReshardSplitIdentity} {nowMs : Int}
    {a : Unit} (h : (finishReshardSource schema identity nowMs).Returns s a s') : SourceStep s s' := by
  unfold finishReshardSource at h
  simp only [Tx.transactionSync_returns, Tx.bind_returns, Tx.ofOption_returns, onControl_returns] at h
  obtain ⟨_, _, ⟨_, hc, rfl⟩, _, _, ⟨_, hr, rfl⟩, st, _, ⟨rfl, rfl⟩, h⟩ := h
  obtain rfl := (readOnly_onIdentities readOnly_assertCleanupIfBound).returns hc
  obtain ⟨rfl, hst, -⟩ := readExactSplitState_returns hr
  exact clearSourceOnce_step hst.symm h

theorem abortReshardSource_step {schema : CdbSchema} {identity : CdbReshardSplitIdentity} {nowMs : Int}
    {a : Unit} (h : (abortReshardSource schema identity nowMs).Returns s a s') : SourceStep s s' := by
  unfold abortReshardSource at h
  simp only [Tx.transactionSync_returns, Tx.bind_returns, onControl_returns] at h
  obtain ⟨_, _, ⟨_, hc, rfl⟩, found, _, ⟨_, hr, rfl⟩, h⟩ := h
  obtain rfl := (readOnly_onIdentities readOnly_assertCleanupIfBound).returns hc
  obtain ⟨rfl, hst, -⟩ := readExactSplitState_returns hr
  cases found with
  | some st => exact clearSourceOnce_step hst.symm h
  | none =>
    simp only [onControl_returns] at h
    obtain ⟨c, hp, rfl⟩ := h
    obtain ⟨-, hsplit⟩ := persistReshardAbortTombstone_returns hp
    refine .of_splits rfl rfl fun k => ?_
    show TailMove _ _ _ _ (c.split? k) _
    rw [hsplit]
    by_cases hk : identity.migId = k
    · subst hk
      rw [if_pos rfl, ← hst, show s.split? identity.migId = none from hst.symm]
      exact .opened rfl rfl rfl fun _ => rfl
    · rw [if_neg hk]; exact .same

end Chardb.Reshard
