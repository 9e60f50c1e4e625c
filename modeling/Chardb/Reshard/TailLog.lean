import Chardb.Reshard.SourceTailAccount

/-!
# What the calls on a source do to its log

Between transactions a call adds rows under new LSNs, all of one mutation that is newer than any
before. It takes rows away only when they are acknowledged or their migration is over.
-/

namespace Chardb.Reshard

open Chardb.Lib

/-! ## A log that grows -/

/-- The log grew out of the one of `s₀` under the op-log `L`; of the old rows those that `keeps` says
are there still. -/
structure Grown (s₀ : SourceDb) (keeps : SplitLogRow → Prop) (L : OpLog.Ledger) (s : SourceDb) :
    Prop where
  opLog : s.opLog = L
  last_le : s₀.log.last ≤ s.log.last
  kept : ∀ r ∈ s₀.log, keeps r → r ∈ s.log
  fresh : ∀ r ∈ s.log, r ∈ s₀.log ∨ (s₀.log.last < r.lsn ∧
    ∃ p ∈ L.rows, isPending p = true ∧ r.sourceTxId = p.eventId)

variable {s₀ s s' : SourceDb} {keeps : SplitLogRow → Prop} {L : OpLog.Ledger} {α : Type}

theorem Grown.refl (s : SourceDb) (keeps : SplitLogRow → Prop) : Grown s keeps s.opLog s :=
  ⟨rfl, le_rfl, fun _ hr _ => hr, fun _ hr => .inl hr⟩

theorem Grown.of_same (h : Grown s₀ keeps L s) (hlog : s'.log = s.log) (hop : s'.opLog = s.opLog) :
    Grown s₀ keeps L s' where
  opLog := hop.trans h.opLog
  last_le := hlog ▸ h.last_le
  kept r hr hk := hlog ▸ h.kept r hr hk
  fresh r hr := h.fresh r (hlog ▸ hr)

theorem Grown.deleteWhere (h : Grown s₀ keeps L s) {p : SplitLogRow → Bool}
    (hp : ∀ r, keeps r → p r = false) : Grown s₀ keeps L { s with log := s.log.deleteWhere p } where
  opLog := h.opLog
  last_le := h.last_le
  kept r hr hk := SeqTable.mem_deleteWhere.mpr ⟨h.kept r hr hk, hp r hk⟩
  fresh r hr := h.fresh r (SeqTable.mem_deleteWhere.mp hr).1

theorem onControl_grows (x : ControlTx α) : (onControl x).Preserves (Grown s₀ keeps L) := by
  intro s a s' hs h
  obtain ⟨control, -, rfl⟩ := onControl_returns.mp h
  exact hs.of_same rfl rfl

theorem triggers_grow (f : SourceDb → List (String × TableSpec)) :
    (Tx.modify fun db => { db with triggers := f db } : SourceTx Unit).Preserves (Grown s₀ keeps L) := by
  intro s a s' hs h
  obtain ⟨-, rfl⟩ := Tx.modify_returns.mp h
  exact hs.of_same rfl rfl

theorem deleteLog_grows {p : SplitLogRow → Bool} (hp : ∀ r, keeps r → p r = false) :
    (Tx.modify fun db => { db with log := db.log.deleteWhere p } : SourceTx Unit).Preserves
      (Grown s₀ keeps L) := by
  intro s a s' hs h
  obtain ⟨-, rfl⟩ := Tx.modify_returns.mp h
  exact hs.deleteWhere hp

/-! ## Appends -/

theorem onlyPending_mem {rows : List OpLog.OpLogRow} {txId vshard : Int}
    (h : onlyPending rows = some (txId, vshard)) : ∃ p ∈ rows, txId = p.eventId := by
  unfold onlyPending at h
  split at h
  · rename_i r
    obtain ⟨v, -, hv⟩ := Option.map_eq_some_iff.mp h
    obtain ⟨rfl, -⟩ := Prod.mk.inj hv
    exact ⟨r, List.mem_singleton.mpr rfl, rfl⟩
  · cases h

/-- A captured row takes the next LSN and the event id of the pending mutation. -/
theorem appendLog_grows (migId : String) (c : TailImage) (when : Bool) (ts : Int) :
    (appendLog migId c when ts).Preserves (Grown s₀ keeps L) := by
  intro s a s' hs h
  unfold appendLog at h
  simp only [Tx.bind_returns, Tx.gets_returns, Tx.ofOption_returns, Tx.require_returns] at h
  obtain ⟨_, _, ⟨rfl, rfl⟩, ⟨txId, vshard⟩, _, ⟨hpend, rfl⟩, n, mid, hcharge, should, _, ⟨rfl, rfl⟩,
    _, _, ⟨-, rfl⟩, h⟩ := h
  have hmid : Grown s₀ keeps L mid := onControl_grows _ hs hcharge
  have hop : mid.opLog = s.opLog := hmid.opLog.trans hs.opLog.symm
  rcases Tx.ite_returns.mp h with ⟨-, h⟩ | ⟨-, h⟩
  · simp only [insertLogRow, Tx.bind_returns, Tx.ofOption_returns, Tx.modify_returns] at h
    obtain ⟨pk, _, ⟨-, rfl⟩, -, rfl⟩ := h
    refine ⟨hmid.opLog, ?_, fun r hr hk => ?_, fun r hr => ?_⟩
    · have := hmid.last_le
      rw [SeqTable.append_last]
      omega
    · exact (SeqTable.mem_append (c.toRow_lsn migId pk txId ts)).mpr (.inl (hmid.kept r hr hk))
    · rcases (SeqTable.mem_append (c.toRow_lsn migId pk txId ts)).mp hr with hr | rfl
      · exact hmid.fresh r hr
      · obtain ⟨p, hp, htx⟩ := onlyPending_mem hpend
        obtain ⟨hp, hpending⟩ := Table.mem_orderBy.mp hp
        have hlast : s₀.log.last < mid.log.last + 1 := Int.lt_add_one_of_le hmid.last_le
        exact .inr ⟨hlast, p, hs.opLog ▸ hp, hpending, htx⟩
  · obtain ⟨-, rfl⟩ := Tx.pure_returns.mp h
    exact hmid

/-! ## Statements -/

section
variable {P : SourceDb → Prop} (hP : ∀ migId c when ts, (appendLog migId c when ts).Preserves P)

include hP

theorem captureTrigger_keeps (migId : String) (t : TableSpec) (ts : Int) (change : RowChange) :
    (captureTrigger migId t ts change).Preserves P := by
  cases change with
  | insert new => exact hP _ _ _ _
  | update old new => exact (hP _ _ _ _).bind fun _ => hP _ _ _ _
  | delete old => exact hP _ _ _ _

theorem fireTriggers_keeps (tableName : String) (change : RowChange) (ts : Int)
    (installed : List (String × TableSpec)) : (fireTriggers tableName change ts installed).Preserves P := by
  induction installed with
  | nil => exact (Tx.readOnly_pure _).preserves
  | cons x rest ih =>
    have hfirst : (fireTrigger tableName change ts x).Preserves P :=
      .ite (fun _ => captureTrigger_keeps hP _ _ _ _) fun _ => (Tx.readOnly_pure _).preserves
    exact hfirst.bind fun _ => ih

theorem changeRows_keeps (ts : Int) (changes : List (String × RowChange)) :
    (changeRows ts changes).Preserves P := by
  induction changes with
  | nil => exact (Tx.readOnly_pure _).preserves
  | cons x rest ih =>
    obtain ⟨tableName, change⟩ := x
    exact (Tx.readOnly_gets _).preserves.bind fun _ =>
      (fireTriggers_keeps hP _ _ _ _).bind fun _ => ih

/-- A statement that throws may be caught, and is undone. -/
theorem statement_keeps (st : Statement) (ts : Int) : (st.exec ts).Preserves P := by
  intro s a s' hs h
  have hk := (changeRows_keeps hP ts st.changes).transactionSync hs
  unfold Tx.Returns Statement.exec at h
  unfold Tx.after at hk
  rcases hr : (changeRows ts st.changes).transactionSync s with ⟨e | u, t⟩
  · rw [hr] at h hk
    by_cases hc : st.caught = true
    · simp only [hc, if_true, Prod.mk.injEq] at h
      exact h.2 ▸ hk
    · simp only [hc, Bool.false_eq_true, if_false, Prod.mk.injEq, reduceCtorEq, false_and] at h
  · rw [hr] at h hk
    simp only [Prod.mk.injEq] at h
    exact h.2 ▸ hk

theorem execAll_keeps (ts : Int) (statements : List Statement) : (execAll ts statements).Preserves P := by
  induction statements with
  | nil => exact (Tx.readOnly_pure _).preserves
  | cons st rest ih => exact (statement_keeps hP st ts).bind fun _ => ih

end

/-! ## Calls -/

/-- The rows that a call may take away. -/
def SourceCall.Clears (r : SplitLogRow) : SourceCall → Prop
  | .ackTail _ migId throughLsn _ => r.migId = migId ∧ r.lsn ≤ throughLsn
  | .finish _ identity _ => r.migId = identity.migId
  | .abort _ identity _ => r.migId = identity.migId
  | _ => False

/-- What a call between transactions does to the log. -/
structure LogEffect (call : SourceCall) (s s' : SourceDb) : Prop where
  last_le : s.log.last ≤ s'.log.last
  kept : ∀ r ∈ s.log, ¬ call.Clears r → r ∈ s'.log
  fresh : ∀ r ∈ s'.log, r ∈ s.log ∨ (s.log.last < r.lsn ∧ s.opLog.lastEventId < r.sourceTxId)
  events_le : s.opLog.lastEventId ≤ s'.opLog.lastEventId

theorem clearSource_grows {identity : CdbReshardSplitIdentity} {nowMs : Int}
    (hkeeps : ∀ r, keeps r → r.migId ≠ identity.migId) :
    (clearSource identity nowMs).Preserves (Grown s₀ keeps L) :=
  (triggers_grow _).bind fun _ => (onControl_grows _).bind fun _ =>
    deleteLog_grows fun r hr => decide_eq_false (hkeeps r hr)

theorem clearSourceOnce_grows {identity : CdbReshardSplitIdentity} {state : SplitStateRow} {nowMs : Int}
    (hkeeps : ∀ r, keeps r → r.migId ≠ identity.migId) :
    (clearSourceOnce identity state nowMs).Preserves (Grown s₀ keeps L) :=
  .ite (fun _ => (Tx.readOnly_pure _).preserves) fun _ => clearSource_grows hkeeps

theorem begin_grows (schema : CdbSchema) (identity : CdbReshardSplitIdentity) (nowMs : Int) :
    (beginReshardSource schema identity nowMs).Keeps (Grown s₀ keeps L) := by
  refine Tx.Preserves.transactionSync ?_
  refine (onControl_grows _).bind fun _ => (onControl_grows _).bind fun _ =>
    (readOnly_assertNoUnexpectedReshardTriggers _ _).preserves.bind fun _ =>
      (Tx.readOnly_gets _).preserves.bind fun _ => (Tx.readOnly_require _ _).preserves.bind fun _ =>
        (onControl_grows _).bind fun _ => ?_
  refine ((Tx.readOnly_gets _).bind fun _ => Tx.readOnly_ofOption _ _).preserves.bind fun _ =>
    .ite (fun _ => (Tx.readOnly_pure _).preserves) fun _ => ?_
  exact (onControl_grows _).bind fun _ => (triggers_grow _).bind fun _ => triggers_grow _

theorem stop_grows (schema : CdbSchema) (identity : CdbReshardSplitIdentity) (nowMs : Int) :
    (stopReshardCapture schema identity nowMs).Keeps (Grown s₀ keeps L) := by
  refine Tx.Preserves.transactionSync ?_
  refine (onControl_grows _).bind fun _ => (Tx.readOnly_gets _).preserves.bind fun _ =>
    (Tx.readOnly_ofOption _ _).preserves.bind fun _ => (triggers_grow _).bind fun _ =>
      .ite (fun _ => (Tx.readOnly_pure _).preserves) fun _ => ?_
  exact (onControl_grows _).bind fun _ => (Tx.readOnly_require _ _).preserves.bind fun _ =>
    (Tx.readOnly_pure _).preserves

theorem finish_grows {schema : CdbSchema} {identity : CdbReshardSplitIdentity} {nowMs : Int}
    (hkeeps : ∀ r, keeps r → r.migId ≠ identity.migId) :
    (finishReshardSource schema identity nowMs).Keeps (Grown s₀ keeps L) :=
  Tx.Preserves.transactionSync <| (onControl_grows _).bind fun _ => (onControl_grows _).bind fun _ =>
    (Tx.readOnly_ofOption _ _).preserves.bind fun _ => clearSourceOnce_grows hkeeps

theorem abort_grows {schema : CdbSchema} {identity : CdbReshardSplitIdentity} {nowMs : Int}
    (hkeeps : ∀ r, keeps r → r.migId ≠ identity.migId) :
    (abortReshardSource schema identity nowMs).Keeps (Grown s₀ keeps L) := by
  refine Tx.Preserves.transactionSync ?_
  refine (onControl_grows _).bind fun _ => (onControl_grows _).bind fun found => ?_
  cases found with
  | none => exact onControl_grows _
  | some state => exact clearSourceOnce_grows hkeeps

theorem assertAckEndpoint_readOnly {migId : String} {throughLsn : Int} :
    (assertAckEndpoint migId throughLsn).ReadOnly :=
  (Tx.readOnly_gets _).bind fun _ => (Tx.readOnly_ofOption _ _).bind fun _ =>
    (Tx.readOnly_require _ _).bind fun _ => (Tx.readOnly_gets _).bind fun _ => Tx.readOnly_require _ _

theorem ackTail_grows {schema : CdbSchema} {migId : String} {throughLsn nowMs : Int}
    (hkeeps : ∀ r, keeps r → ¬ (r.migId = migId ∧ r.lsn ≤ throughLsn)) :
    (ackTail schema migId throughLsn nowMs).Keeps (Grown s₀ keeps L) := by
  refine (atomic_ackTail _ _ _ _).keeps fun s a s' hs h => ?_
  refine (((Tx.readOnly_require _ _).preserves).bind fun _ => Tx.Keeps.preserves ?_) hs h
  refine Tx.Preserves.transactionSync ?_
  refine (onControl_grows _).bind fun _ => (Tx.readOnly_gets _).preserves.bind fun _ =>
    (Tx.readOnly_ofOption _ _).preserves.bind fun _ =>
      .ite (fun _ => (Tx.readOnly_pure _).preserves) fun _ => ?_
  refine assertAckEndpoint_readOnly.preserves.bind fun _ => (Tx.readOnly_gets _).preserves.bind fun _ =>
    (Tx.readOnly_require _ _).preserves.bind fun _ => ?_
  have hprune : ∀ r, keeps r → (decide (r.migId = migId) && decide (r.lsn ≤ throughLsn)) = false := by
    intro r hr
    rw [Bool.and_eq_false_iff, decide_eq_false_iff_not, decide_eq_false_iff_not, ← not_and_or]
    exact hkeeps r hr
  refine .bind ?_ fun _ => (Tx.readOnly_pure _).preserves
  exact (deleteLog_grows hprune).bind fun _ => (onControl_grows _).bind fun _ =>
    (Tx.readOnly_require _ _).preserves

theorem restart_grows : initializeSplitLogAccounting.Keeps (Grown s₀ keeps L) := by
  refine Tx.Preserves.transactionSync ?_
  refine (onControl_grows _).bind fun _ => (Tx.readOnly_gets _).preserves.bind fun active => ?_
  unfold recountActive
  split
  · exact (Tx.readOnly_pure _).preserves
  · exact (Tx.readOnly_gets _).preserves.bind fun _ => (Tx.readOnly_require _ _).preserves.bind fun _ =>
      (Tx.readOnly_ofExcept _).preserves.bind fun _ => (onControl_grows _).bind fun _ =>
        (Tx.readOnly_pure _).preserves
  · exact (Tx.readOnly_throw _).preserves

theorem writeOutside_grows (statements : List Statement) (nowMs : Int) :
    (writeOutside statements nowMs).Keeps (Grown s₀ keeps L) :=
  Tx.Preserves.transactionSync (execAll_keeps appendLog_grows _ _)

/-- Without a pending mutation nothing is captured. -/
theorem LogEffect.of_grown {call : SourceCall} (hset : Settled s)
    (h : Grown s (fun r => ¬ call.Clears r) s.opLog s') : LogEffect call s s' where
  last_le := h.last_le
  kept := h.kept
  fresh r hr := (h.fresh r hr).imp_right fun ⟨_, p, hp, hpending, _⟩ => by
    rw [hset p hp] at hpending
    cases hpending
  events_le := h.opLog ▸ le_rfl

/-- A mutation captures under its own event id. -/
theorem TailMutation.run_effect (m : TailMutation) (hset : Settled s) :
    LogEffect (.mutate m) s (m.run.after s) := by
  have hsame : LogEffect (.mutate m) s s := .of_grown hset (.refl s _)
  rcases m.run.returns_or_throws s with ⟨a, h⟩ | ⟨e, h⟩
  · generalize m.run.after s = s' at h ⊢
    simp only [TailMutation.run, Tx.transactionSync_returns, Tx.bind_returns, onLedger_returns] at h
    obtain ⟨n, _, ⟨ledger, hins, rfl⟩, h⟩ := h
    unfold Tx.Returns OpLog.Ledger.insertOrIgnore at hins
    cases hrow : s.opLog.rows.insert? (m.pendingRow (s.opLog.lastEventId + 1)) with
    | none =>
      simp only [hrow, Prod.mk.injEq, Except.ok.injEq] at hins
      obtain ⟨rfl, rfl⟩ := hins
      obtain ⟨-, rfl⟩ := Tx.pure_returns.mp h
      exact hsame
    | some rows =>
      simp only [hrow, Prod.mk.injEq, Except.ok.injEq] at hins
      obtain ⟨rfl, rfl⟩ := hins
      rw [if_neg (by decide)] at h
      simp only [TailMutation.runHandler, Tx.bind_returns, Tx.ofExcept_returns, onLedger_returns,
        Tx.pure_returns] at h
      obtain ⟨_, mid, hexec, payload, _, ⟨-, rfl⟩, _, _, ⟨_, hfin, rfl⟩, -, rfl⟩ := h
      have hstart : Grown s (fun r => ¬ SourceCall.Clears r (.mutate m)) ⟨rows, s.opLog.lastEventId + 1⟩
          { s with opLog := ⟨rows, s.opLog.lastEventId + 1⟩ } :=
        ⟨rfl, le_rfl, fun _ hr _ => hr, fun _ hr => .inl hr⟩
      have hgrown := execAll_keeps appendLog_grows m.nowMs m.statements hstart hexec
      refine ⟨hgrown.last_le, hgrown.kept, fun r hr => (hgrown.fresh r hr).imp_right ?_, ?_⟩
      · rintro ⟨hlsn, p, hp, hpending, htx⟩
        refine ⟨hlsn, ?_⟩
        rcases (Table.mem_insert hrow).mp hp with hp | rfl
        · rw [hset p hp] at hpending
          cases hpending
        · rw [htx]
          exact Int.lt_succ _
      · unfold OpLog.Ledger.finalise at hfin
        obtain ⟨t, -, rfl⟩ := Tx.zoom_returns.mp hfin
        show s.opLog.lastEventId ≤ mid.opLog.lastEventId
        rw [hgrown.opLog]
        exact Nat.le_succ _
  · have hafter := (Tx.transactionSync_throws.mp h).1
    rw [show m.run.after s = s from hafter]
    exact hsame

/-- What every call does to the log. -/
theorem SourceDb.step_effect (hset : Settled s) (call : SourceCall) : LogEffect call s (s.step call) := by
  have hstart := Grown.refl s fun r => ¬ call.Clears r
  cases call with
  | mutate m => exact m.run_effect hset
  | writeOutside statements nowMs => exact .of_grown hset (writeOutside_grows _ _ hstart)
  | begin schema identity nowMs => exact .of_grown hset (begin_grows _ _ _ hstart)
  | stop schema identity nowMs => exact .of_grown hset (stop_grows _ _ _ hstart)
  | finish schema identity nowMs => exact .of_grown hset (finish_grows (fun _ h => h) hstart)
  | abort schema identity nowMs => exact .of_grown hset (abort_grows (fun _ h => h) hstart)
  | ackTail schema migId throughLsn nowMs => exact .of_grown hset (ackTail_grows (fun _ h => h) hstart)
  | restart => exact .of_grown hset (restart_grows hstart)

end Chardb.Reshard
