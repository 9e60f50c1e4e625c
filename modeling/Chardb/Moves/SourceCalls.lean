import Chardb.Moves.Ledger

/-!
# The calls of a source

Capture, reads, acknowledgements and the ends of a source work on the tables of the split-oplog. They
leave the op-log, what moves have inserted and the split rows of destinations alone.
-/

namespace Chardb.Moves

open Chardb.Lib Chardb.Reshard Chardb.OpLog

variable {δ : Type} {ν : Type} [JsNumber ν]

/-! ## The split-oplog -/

section
variable {migId principalId mutId : String} {encoded : ByteArray} {lo hi nowMs : Int}

theorem readOnly_requiredSourceAccounting : (requiredSourceAccounting migId).ReadOnly :=
  (Tx.readOnly_gets _).bind fun _ => (Tx.readOnly_ofOption _ _).bind fun _ =>
    (Tx.readOnly_require _ _).bind fun _ => Tx.readOnly_pure _

theorem readOnly_assertVshard {σ : Type} {v : Int} :
    (OpLog.assertVshard v : Tx Thrown σ Unit).ReadOnly :=
  Tx.readOnly_require _ _

theorem readOnly_assertRange {σ : Type} : (assertRange lo hi : Tx Thrown σ Unit).ReadOnly :=
  readOnly_assertVshard.bind fun _ => readOnly_assertVshard.bind fun _ => Tx.readOnly_require _ _

theorem frames_captureFresh :
    (captureFresh migId principalId mutId encoded nowMs).Frames splitAside := by
  refine readOnly_requiredSourceAccounting.frames.bind fun _ => .bind (.zoom fun _ _ => rfl) fun _ =>
    (Tx.readOnly_require _ _).frames.bind fun _ => .bind ?_ fun _ =>
      (Tx.readOnly_require _ _).frames.bind fun _ => .bind (.zoom fun _ _ => rfl) fun _ =>
        (Tx.readOnly_pure _).frames
  exact (Tx.readOnly_gets _).frames.bind fun _ => .bind (.zoom fun _ _ => rfl) fun _ =>
    .bind (.modify fun _ => rfl) fun _ => (Tx.readOnly_pure _).frames

theorem frames_captureEncoded :
    (captureEncodedForMigration migId principalId mutId encoded nowMs).Frames splitAside := by
  refine (Tx.readOnly_gets _).frames.bind fun prior => ?_
  cases prior with
  | some prior =>
    exact (Tx.readOnly_gets _).frames.bind fun _ => (Tx.readOnly_require _ _).frames.bind fun _ =>
      (Tx.readOnly_pure _).frames
  | none => exact frames_captureFresh

theorem frames_captureSplitOpLogOutcome {vshard : Int} :
    (captureSplitOpLogOutcome ν principalId mutId vshard nowMs :
      Tx Thrown (Cdb δ) Nat).Frames aside := by
  refine readOnly_assertVshard.frames.bind fun _ => (Tx.readOnly_gets _).frames.bind fun splits =>
    (Tx.readOnly_require _ _).frames.bind fun _ => ?_
  cases splits with
  | nil => exact (Tx.readOnly_pure _).frames
  | cons split _ =>
    exact (Tx.readOnly_gets _).frames.bind fun _ => (Tx.readOnly_ofOption _ _).frames.bind fun _ =>
      (Tx.readOnly_ofExcept _).frames.bind fun _ => (Tx.readOnly_require _ _).frames.bind fun _ =>
        .bind (frames_onSplit (.zoom fun _ _ => rfl)) fun _ => frames_onSplit frames_captureEncoded

theorem frames_seedRows {rows : List OpLogRow} {p : SeedProgress} :
    (seedRows ν migId nowMs rows p).Frames splitAside := by
  induction rows generalizing p with
  | nil => exact (Tx.readOnly_pure _).frames
  | cons row rows ih =>
    refine (Tx.readOnly_ofOption _ _).frames.bind fun _ => readOnly_assertVshard.frames.bind fun _ =>
      (Tx.readOnly_require _ _).frames.bind fun _ => (Tx.readOnly_ofExcept _).frames.bind fun _ =>
        (Tx.readOnly_require _ _).frames.bind fun _ => ?_
    split
    · exact (Tx.readOnly_pure _).frames
    · exact frames_captureEncoded.bind fun _ => ih

theorem frames_seedSplitOpLogPage :
    (seedSplitOpLogPage ν migId nowMs : Tx Thrown (Cdb δ) Nat).Frames aside := by
  refine .bind (frames_onSplit readOnly_requiredSourceAccounting.frames) fun accounting => ?_
  split
  · exact (Tx.readOnly_pure _).frames
  · refine (Tx.readOnly_gets _).frames.bind fun _ => (Tx.readOnly_ofOption _ _).frames.bind fun _ =>
      readOnly_assertRange.frames.bind fun _ => (Tx.readOnly_gets _).frames.bind fun rows => ?_
    split
    · exact (Tx.readOnly_pure _).frames
    · exact frames_onSplit <| frames_seedRows.bind fun _ => .bind (.zoom fun _ _ => rfl) fun _ =>
        (Tx.readOnly_require _ _).frames.bind fun _ => (Tx.readOnly_pure _).frames

theorem readOnly_takeEntries {limit : Nat} {bytes : Int} {first : Bool} {rows : List SplitOplogRow} :
    (takeEntries limit bytes first rows).ReadOnly := by
  induction rows generalizing limit bytes first with
  | nil => cases limit <;> exact Tx.readOnly_pure _
  | cons row rows ih =>
    cases limit with
    | zero => exact Tx.readOnly_pure _
    | succ limit =>
      refine (Tx.readOnly_require _ _).bind fun _ => (Tx.readOnly_require _ _).bind fun _ => ?_
      split
      · exact Tx.readOnly_pure _
      · exact ih.bind fun _ => Tx.readOnly_pure _

theorem frames_readSplitOpLogBatch {afterLsn limit : Int} :
    (OpLog.readSplitOpLogBatch ν migId afterLsn limit nowMs :
      Tx Thrown (Cdb δ) SplitOpLogBatch).Frames aside :=
  (Tx.readOnly_require _ _).frames.bind fun _ => (Tx.readOnly_require _ _).frames.bind fun _ =>
    frames_seedSplitOpLogPage.bind fun _ => frames_onSplit <| Tx.ReadOnly.frames <|
      (Tx.readOnly_gets _).bind fun _ => readOnly_takeEntries.bind fun _ =>
        (Tx.readOnly_gets _).bind fun _ => readOnly_requiredSourceAccounting.bind fun _ =>
          Tx.readOnly_pure _

theorem frames_ackSplitOpLog {throughLsn : Int} :
    (OpLog.ackSplitOpLog migId throughLsn nowMs).Frames splitAside := by
  refine (Tx.readOnly_require _ _).frames.bind fun _ => readOnly_requiredSourceAccounting.frames.bind
    fun accounting => (Tx.readOnly_require _ _).frames.bind fun _ => ?_
  split
  · exact (Tx.readOnly_pure _).frames
  · exact (Tx.readOnly_gets _).frames.bind fun _ => (Tx.readOnly_require _ _).frames.bind fun _ =>
      (Tx.readOnly_gets _).frames.bind fun _ => (Tx.readOnly_require _ _).frames.bind fun _ =>
        (Tx.readOnly_require _ _).frames.bind fun _ => (Tx.readOnly_require _ _).frames.bind fun _ =>
          .bind (.zoom fun _ _ => rfl) fun _ => .bind (.zoom fun _ _ => rfl) fun _ =>
            (Tx.readOnly_require _ _).frames.bind fun _ => .bind (.zoom fun _ _ => rfl) fun _ =>
              (Tx.readOnly_require _ _).frames

theorem frames_finalizeSplitOpLogSource : (finalizeSplitOpLogSource migId).Frames splitAside :=
  .bind (.zoom fun _ _ => rfl) fun _ => .bind (.zoom fun _ _ => rfl) fun _ =>
    .bind (.zoom fun _ _ => rfl) fun _ => (Tx.readOnly_pure _).frames

theorem frames_seedSplitOpLogRange :
    (seedSplitOpLogRange migId lo hi nowMs : Tx Thrown (Cdb δ) Unit).Frames aside := by
  refine readOnly_assertRange.frames.bind fun _ => (Tx.readOnly_gets _).frames.bind fun existing =>
    (Tx.readOnly_gets _).frames.bind fun _ => ?_
  split
  · exact (Tx.readOnly_pure _).frames
  · exact frames_onSplit <| (Tx.readOnly_require _ _).frames.bind fun _ =>
      .bind (.zoom fun _ _ => rfl) fun _ => (Tx.readOnly_pure _).frames

end

/-! ## The calls -/

section
variable {db db' : ShardDb δ} {schema : CdbSchema} {identity : CdbReshardSplitIdentity} {nowMs : Int}
  {u : Unit}

/-- A part of a shard that only its split rows change. -/
theorem grows_splitState {cdb : Cdb δ} (hlog : cdb.opLog = db.cdb.opLog)
    (happlied : cdb.domain.split.applied = db.cdb.domain.split.applied)
    (hsplits : ∀ k, Receives db.cdb.domain.split.splitState k →
      Receives cdb.domain.split.splitState k) : Grows db { db with cdb } where
  rows key row hr := by
    show cdb.opLog.rows.find? key = some row
    rw [hlog]
    exact hr
  applied := happlied
  receiving k hk := ⟨hsplits k hk.1, hk.2⟩

theorem beginReshardSource_grows
    (h : (Moves.beginReshardSource schema identity nowMs).Returns db u db') : Grows db db' := by
  simp only [Moves.beginReshardSource, Tx.transactionSync_returns, Tx.bind_returns] at h
  obtain ⟨_, _, hallowed, _, mid, hbind, h⟩ := h
  obtain rfl := grows_onControl_readOnly readOnly_assertReshardBeginAllowed hallowed
  refine (grows_onControl hbind fun c hc k hk => receiving_bind hk hc).trans ?_
  obtain ⟨cdb, hbegin, rfl⟩ := Tx.zoom_returns.mp h
  simp only [OpLog.beginReshardSource, OpLog.assertReshardBeginAllowed, requireSplitState, onSplitState,
    Tx.transactionSync_returns, onSplit_returns, Tx.bind_returns, Tx.gets_returns,
    Tx.require_returns, Tx.ofOption_returns, Tx.zoom_returns] at hbegin
  obtain ⟨_, _, ⟨_, ⟨_, _, ⟨rfl, rfl⟩, -, rfl⟩, rfl⟩, _, _, ⟨-, rfl⟩, _, _, ⟨-, rfl⟩, n, _,
    ⟨_, ⟨t, ht, rfl⟩, rfl⟩, state, _, ⟨_, ⟨_, _, ⟨rfl, rfl⟩, hstate, rfl⟩, rfl⟩, hbegin⟩ := hbegin
  split at hbegin
  · obtain ⟨-, rfl⟩ := Tx.pure_returns.mp hbegin
    exact grows_splitState rfl rfl fun k hk => hk.insertIgnore ht
  · simp only [OpLog.enableCapture, onSplitState, Tx.bind_returns, onSplit_returns, Tx.zoom_returns,
      Table.update_returns] at hbegin
    obtain ⟨_, _, ⟨_, ⟨t', ⟨hu, -⟩, rfl⟩, rfl⟩, hseed⟩ := hbegin
    have haside := frames_seedSplitOpLogRange.returns hseed
    refine grows_splitState (congrArg Prod.fst haside) (congrArg (fun x => x.2.1) haside) fun k hk => ?_
    rw [show cdb.domain.split.splitState = t' from congrArg (fun x => x.2.2) haside]
    exact (hk.insertIgnore ht).update hu (fun _ => rfl) fun _ _ _ hrole hdrained => ⟨hrole, hdrained⟩

theorem readSplitOpLogBatch_grows {migId : String} {afterLsn : Int} {batch : SplitOpLogBatch}
    (h : (Moves.readSplitOpLogBatch schema ν migId afterLsn nowMs).Returns db batch db') :
    Grows db db' := by
  simp only [Moves.readSplitOpLogBatch, Tx.transactionSync_returns, Tx.bind_returns] at h
  obtain ⟨_, _, hmove, h⟩ := h
  obtain rfl := grows_onControl_readOnly readOnly_assertReshardMovement hmove
  exact grows_aside frames_readSplitOpLogBatch h

theorem ackSplitOpLog_grows {migId : String} {throughLsn : Int}
    (h : (Moves.ackSplitOpLog schema migId throughLsn nowMs).Returns db u db') : Grows db db' := by
  simp only [Moves.ackSplitOpLog, Tx.transactionSync_returns, Tx.bind_returns] at h
  obtain ⟨_, _, hmove, h⟩ := h
  obtain rfl := grows_onControl_readOnly readOnly_assertReshardMovement hmove
  exact grows_aside (frames_onSplit frames_ackSplitOpLog) h

theorem readExact_onControl {migId : String} {lo hi : Int} {role : SplitRole} {allow : Bool}
    {found : Option SplitStateRow}
    (h : (onControl (readExactSplitState migId lo hi role allow)).Returns db found db') :
    db' = db ∧ found = db.control.split? migId ∧ ∀ state ∈ found, state.role = role := by
  obtain ⟨c, hread, rfl⟩ := Tx.zoom_returns.mp h
  obtain ⟨rfl, hfound, hrole⟩ := readExactSplitState_returns hread
  exact ⟨rfl, hfound, fun state hstate => (hrole state hstate).1⟩

theorem clearSource_grows {state : SplitStateRow} (hrole : state.role = .source)
    (hstate : db.control.split? identity.migId = some state)
    (h : (clearSource identity state nowMs).Returns db u db') : Grows db db' := by
  unfold clearSource at h
  split at h
  · rw [(Tx.pure_returns.mp h).2]
    exact .refl _
  · simp only [Tx.bind_returns] at h
    obtain ⟨_, mid, hupdate, h⟩ := h
    refine (grows_onControl hupdate fun c hc k hk => receiving_updateSplit hk hc (fun _ => rfl)
      fun r hr hp hdest _ => ?_).trans (grows_aside (frames_onSplit frames_finalizeSplitOpLogSource) h)
    obtain rfl : k = identity.migId :=
      (Table.find?_eq_some.mp hr).2.symm.trans (of_decide_eq_true hp)
    obtain rfl : r = state := Option.some.inj (hr.symm.trans hstate)
    rw [hrole] at hdest
    cases hdest

theorem finishReshardSource_grows
    (h : (finishReshardSource schema identity nowMs).Returns db u db') : Grows db db' := by
  simp only [finishReshardSource, Tx.transactionSync_returns, Tx.bind_returns, Tx.ofOption_returns] at h
  obtain ⟨_, _, hbound, found, _, hread, state, _, ⟨rfl, rfl⟩, h⟩ := h
  obtain rfl := grows_onControl_readOnly (readOnly_onIdentities readOnly_assertCleanupIfBound) hbound
  obtain ⟨rfl, hstate, hrole⟩ := readExact_onControl hread
  exact clearSource_grows (hrole state rfl) hstate.symm h

theorem abortReshardSource_grows
    (h : (abortReshardSource schema identity nowMs).Returns db u db') : Grows db db' := by
  simp only [abortReshardSource, Tx.transactionSync_returns, Tx.bind_returns] at h
  obtain ⟨_, _, hbound, found, _, hread, h⟩ := h
  obtain rfl := grows_onControl_readOnly (readOnly_onIdentities readOnly_assertCleanupIfBound) hbound
  obtain ⟨rfl, hstate, hrole⟩ := readExact_onControl hread
  cases found with
  | none => exact grows_onControl h fun c hc k hk => receiving_tombstone hk hc
  | some state => exact clearSource_grows (hrole state rfl) hstate.symm h

end

end Chardb.Moves
