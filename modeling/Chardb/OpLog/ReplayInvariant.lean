import Chardb.OpLog.Replay

/-!
# No outcome is lost on a move

The invariant of a move: every placed row of the moving range is waiting for the seed,
waiting to be read, or copied (`Covered`), and the cursor of the destination never runs
ahead of what it has copied. The steps of the source keep it.
-/

namespace Chardb.OpLog

open Chardb.Lib Chardb.Reshard

variable {δ : Type} {ν : Type} [JsNumber ν]

/-! ## Vocabulary -/

/-- Two rows that differ in their event ids at most. -/
def SameOutcome (r d : OpLogRow) : Prop := d = { r with eventId := d.eventId }

/-- The bytes of a captured row are in the op-log. -/
def Copied (ν : Type) [JsNumber ν] (dest : Cdb δ) (bytes : ByteArray) : Prop :=
  ∃ c, decodeCapturedRow ν bytes = .ok c ∧ ∃ d ∈ dest.opLog.rows, SameOpLogRow d c

theorem Encodes.sameOutcome {bytes : ByteArray} {r d : OpLogRow} {c : CapturedOpLog}
    (h : Encodes ν bytes r) (hc : decodeCapturedRow ν bytes = .ok c) (hd : SameOpLogRow d c) :
    SameOutcome r d := by
  obtain ⟨v, -, hv, henc⟩ := h
  obtain ⟨hdec, hcap⟩ := decodeCapturedRow_encode hv henc
  obtain rfl : capturedOf r v = c := Except.ok.inj (hdec.symm.trans hc)
  have hr := hcap.same
  unfold SameOpLogRow at hr hd
  unfold SameOutcome
  rw [hd]
  conv_rhs => rw [hr]
  rfl

theorem Encodes.copied {bytes : ByteArray} {r : OpLogRow} {dest : Cdb δ} (h : Encodes ν bytes r)
    (hc : Copied ν dest bytes) : ∃ d ∈ dest.opLog.rows, SameOutcome r d := by
  obtain ⟨c, hc, d, hd, hs⟩ := hc
  exact ⟨d, hd, h.sameOutcome hc hs⟩

section
variable (m : Move)

/-- A row of the moving range on a source that has begun. -/
structure Held (source : Cdb δ) (r : OpLogRow) : Prop where
  begun : (source.domain.split.seed? m.migId).isSome
  mem : r ∈ source.opLog.rows
  covers : m.covers r.placementVshard = true

/-- What a source may do to the rows of the range and to what waits for the destination. -/
structure SourceStep (s s' : Cdb δ) : Prop where
  held : ∀ r, Held m s r → Held m s' r
  lastLsn : s.domain.split.lastLsn ≤ s'.domain.split.lastLsn
  entries : ∀ e ∈ s'.domain.split.splitOplog, e.migId = m.migId →
    e ∈ s.domain.split.splitOplog ∨ s.domain.split.lastLsn < e.lsn

/-- The row of the migration on its source. -/
def IsSourceRow (r : SplitStateRow) : Prop :=
  r.role = .source ∧ r.rangeLo = m.rangeLo ∧ r.rangeHi = m.rangeHi ∧ r.capture = true ∧
    r.drained = false ∧ r.drainStarted = false

/-- The source by itself. -/
structure SourceInv (codec : PayloadCodec) (ν : Type) [JsNumber ν] (s : Cdb δ) : Prop where
  finalised : Finalised codec ν s
  eventIds : EventIds s.opLog
  lsns : ∀ e ∈ s.domain.split.splitOplog, e.lsn ≤ s.domain.split.lastLsn
  others : ∀ r ∈ s.domain.split.splitState, r.migId ≠ m.migId → r.drained = true
  row : ∀ r, s.domain.split.splitState.find? m.migId = some r → IsSourceRow m r
  begun : (s.domain.split.splitState.find? m.migId).isSome = (s.domain.split.seed? m.migId).isSome
  waiting : ∀ e ∈ s.domain.split.splitOplog, e.migId = m.migId →
    ∃ r, Held m s r ∧ Encodes ν e.oplogRow r

/-- Every row of the range is pending, waiting or copied. -/
def Covered (ν : Type) [JsNumber ν] (s dest : Cdb δ) : Prop :=
  ∀ sd, s.domain.split.seed? m.migId = some sd → ∀ r ∈ s.opLog.rows,
    m.covers r.placementVshard = true → sd.Pending r ∨
      (∃ b, Encodes ν b r ∧ s.domain.split.Retains m.migId b) ∨
      ∃ d ∈ dest.opLog.rows, SameOutcome r d

/-- A batch that was read: all that waits from the cursor on, up to its last LSN. -/
structure GoodBatch (ν : Type) [JsNumber ν] (source dest : Cdb δ) (afterLsn : Int)
    (entries : List SplitOpLogEntry) (lastLsn : Int) : Prop where
  after : afterLsn ≤ dest.domain.split.appliedLsn m.migId
  known : lastLsn ≤ source.domain.split.lastLsn
  contiguous : Contiguous m.migId source.domain.split afterLsn entries lastLsn
  held : ∀ e ∈ entries, ∃ r, Held m source r ∧ Encodes ν e.oplogRow r

def GoodCall (ν : Type) [JsNumber ν] (source dest : Cdb δ) : Call → Prop
  | .ack throughLsn => throughLsn ≤ dest.domain.split.appliedLsn m.migId
  | .read afterLsn => afterLsn ≤ dest.domain.split.appliedLsn m.migId
  | .apply entries => ∃ afterLsn lastLsn, GoodBatch m ν source dest afterLsn entries lastLsn

def GoodReply (ν : Type) [JsNumber ν] (source dest : Cdb δ) : Reply → Prop
  | .acked _ => True
  | .batch afterLsn b => GoodBatch m ν source dest afterLsn b.entries b.lastLsn
  | .applied _ result => result.lastLsn ≤ dest.domain.split.appliedLsn m.migId

def GoodRun (dest : Cdb δ) : Run → Prop
  | .acking cursor => cursor ≤ dest.domain.split.appliedLsn m.migId
  | .reading cursor _ => cursor ≤ dest.domain.split.appliedLsn m.migId
  | .applying _ _ => True
  | .ended => True

/-- What holds of every world. -/
structure Inv (codec : PayloadCodec) (ν : Type) [JsNumber ν] (w : World δ) : Prop where
  source : SourceInv m codec ν w.source
  covered : Covered m ν w.source w.dest
  /-- The destination has rows of the range only. -/
  copies : ∀ d ∈ w.dest.opLog.rows, ∃ r, Held m w.source r ∧ SameOutcome r d
  destActive : hasActiveSplit w.dest.domain.split = false → ∀ d, d ∉ w.dest.opLog.rows
  /-- What the destination has passed it has copied. -/
  applied : ∀ e ∈ w.source.domain.split.splitOplog, e.migId = m.migId →
    e.lsn ≤ w.dest.domain.split.appliedLsn m.migId → Copied ν w.dest e.oplogRow
  appliedLsn : w.dest.domain.split.appliedLsn m.migId ≤ w.source.domain.split.lastLsn
  cursor : w.cursor ≤ w.dest.domain.split.appliedLsn m.migId
  sent : ∀ call ∈ w.sent, GoodCall m ν w.source w.dest call
  replies : ∀ reply ∈ w.replies, GoodReply m ν w.source w.dest reply
  runs : ∀ run ∈ w.runs, GoodRun m w.dest run

end

/-! ## Steps of one side -/

section
variable {m : Move} {codec : PayloadCodec} {w : World δ} {s s' s'' dest : Cdb δ}

theorem SourceStep.refl (s : Cdb δ) : SourceStep m s s :=
  ⟨fun _ h => h, le_rfl, fun _ he _ => .inl he⟩

theorem SourceStep.encoded {bytes : ByteArray} (hs : SourceStep m s s')
    (h : ∃ r, Held m s r ∧ Encodes ν bytes r) : ∃ r, Held m s' r ∧ Encodes ν bytes r := by
  obtain ⟨r, hr, henc⟩ := h
  exact ⟨r, hs.held r hr, henc⟩

theorem SourceStep.trans (h : SourceStep m s s') (h' : SourceStep m s' s'') : SourceStep m s s'' where
  held r hr := h'.held r (h.held r hr)
  lastLsn := h.lastLsn.trans h'.lastLsn
  entries e he hm := by
    rcases h'.entries e he hm with he | hlt
    · exact h.entries e he hm
    · exact .inr (h.lastLsn.trans_lt hlt)

theorem GoodBatch.source_step {afterLsn lastLsn : Int} {entries : List SplitOpLogEntry}
    (h : GoodBatch m ν s dest afterLsn entries lastLsn) (hs : SourceStep m s s') :
    GoodBatch m ν s' dest afterLsn entries lastLsn where
  after := h.after
  known := h.known.trans hs.lastLsn
  contiguous := by
    refine ⟨h.contiguous.sound, fun e he hm hlo hhi => ?_⟩
    rcases hs.entries e he hm with he | hlt
    · exact h.contiguous.complete e he hm hlo hhi
    · exact absurd hlt (not_lt.mpr (hhi.trans h.known))
  held e he := hs.encoded (h.held e he)

theorem GoodCall.source_step {call : Call} (h : GoodCall m ν s dest call)
    (hs : SourceStep m s s') : GoodCall m ν s' dest call := by
  cases call with
  | ack => exact h
  | read => exact h
  | apply entries =>
    obtain ⟨afterLsn, lastLsn, h⟩ := h
    exact ⟨afterLsn, lastLsn, h.source_step hs⟩

theorem GoodReply.source_step {reply : Reply} (h : GoodReply m ν s dest reply)
    (hs : SourceStep m s s') : GoodReply m ν s' dest reply := by
  cases reply with
  | acked => trivial
  | batch => exact GoodBatch.source_step h hs
  | applied => exact h

/-- A step of the source keeps the invariant when it keeps the source's own and loses no row. -/
theorem Inv.source_step (h : Inv m codec ν w) (hs : SourceStep m w.source s)
    (hinv : SourceInv m codec ν s) (hcov : Covered m ν s w.dest) :
    Inv m codec ν { w with source := s } where
  source := hinv
  covered := hcov
  copies d hd := by
    obtain ⟨r, hr, hsame⟩ := h.copies d hd
    exact ⟨r, hs.held r hr, hsame⟩
  destActive := h.destActive
  applied e he hm hle := by
    rcases hs.entries e he hm with he | hlt
    · exact h.applied e he hm hle
    · exact absurd hlt (not_lt.mpr (hle.trans h.appliedLsn))
  appliedLsn := h.appliedLsn.trans hs.lastLsn
  cursor := h.cursor
  sent call hc := (h.sent call hc).source_step hs
  replies reply hr := (h.replies reply hr).source_step hs
  runs := h.runs

theorem GoodBatch.dest_step {afterLsn lastLsn : Int} {entries : List SplitOpLogEntry} {dest' : Cdb δ}
    (h : GoodBatch m ν s dest afterLsn entries lastLsn)
    (hle : dest.domain.split.appliedLsn m.migId ≤ dest'.domain.split.appliedLsn m.migId) :
    GoodBatch m ν s dest' afterLsn entries lastLsn :=
  ⟨h.after.trans hle, h.known, h.contiguous, h.held⟩

/-- A step of the destination keeps the invariant when it loses nothing, copies rows of the range
only and passes only what it has copied. -/
theorem Inv.dest_step (h : Inv m codec ν w)
    (hkept : ∀ d ∈ w.dest.opLog.rows, d ∈ dest.opLog.rows)
    (hcopies : ∀ d ∈ dest.opLog.rows, ∃ r, Held m w.source r ∧ SameOutcome r d)
    (hactive : hasActiveSplit dest.domain.split = false → ∀ d, d ∉ dest.opLog.rows)
    (hle : w.dest.domain.split.appliedLsn m.migId ≤ dest.domain.split.appliedLsn m.migId)
    (hlast : dest.domain.split.appliedLsn m.migId ≤ w.source.domain.split.lastLsn)
    (happlied : ∀ e ∈ w.source.domain.split.splitOplog, e.migId = m.migId →
      w.dest.domain.split.appliedLsn m.migId < e.lsn →
      e.lsn ≤ dest.domain.split.appliedLsn m.migId → Copied ν dest e.oplogRow) :
    Inv m codec ν { w with dest } where
  source := h.source
  covered sd hsd r hr hc := by
    rcases h.covered sd hsd r hr hc with hp | hw | ⟨d, hd, hsame⟩
    · exact .inl hp
    · exact .inr (.inl hw)
    · exact .inr (.inr ⟨d, hkept d hd, hsame⟩)
  copies := hcopies
  destActive := hactive
  applied e he hm hlsn := by
    by_cases hold : e.lsn ≤ w.dest.domain.split.appliedLsn m.migId
    · obtain ⟨c, hc, d, hd, hsame⟩ := h.applied e he hm hold
      exact ⟨c, hc, d, hkept d hd, hsame⟩
    · exact happlied e he hm (not_le.mp hold) hlsn
  appliedLsn := hlast
  cursor := h.cursor.trans hle
  sent call hc := by
    have := h.sent call hc
    cases call with
    | ack => exact le_trans this hle
    | read => exact le_trans this hle
    | apply entries =>
      obtain ⟨afterLsn, lastLsn, hb⟩ := this
      exact ⟨afterLsn, lastLsn, hb.dest_step hle⟩
  replies reply hr := by
    have := h.replies reply hr
    cases reply with
    | acked => trivial
    | batch => exact GoodBatch.dest_step this hle
    | applied => exact le_trans this hle
  runs run hr := by
    have := h.runs run hr
    cases run with
    | acking => exact le_trans this hle
    | reading => exact le_trans this hle
    | applying => trivial
    | ended => trivial

/-! ## Calls on the source -/

/-- Where a call appended for the migration the source's own invariant is kept. -/
theorem SourceInv.of_appends {P : ByteArray → Prop} (h : SourceInv m codec ν s)
    (hlog : s'.opLog = s.opLog) (happ : Appends m.migId P s.domain.split s'.domain.split)
    (hseed : (s'.domain.split.seed? m.migId).isSome = (s.domain.split.seed? m.migId).isSome)
    (hP : ∀ b, P b → ∃ r, Held m s r ∧ Encodes ν b r) :
    SourceInv m codec ν s' ∧ SourceStep m s s' := by
  have hstep : SourceStep m s s' := by
    refine ⟨fun r hr => ⟨hseed ▸ hr.begun, hlog ▸ hr.mem, hr.covers⟩, happ.lastLsn, fun e he _ => ?_⟩
    exact (happ.fresh e he).imp_right fun h => h.2.2.1
  refine ⟨⟨?_, hlog ▸ h.eventIds, fun e he => ?_, happ.splitState ▸ h.others, happ.splitState ▸ h.row,
    ?_, fun e he hm => ?_⟩, hstep⟩
  · exact fun row hr => h.finalised row (hlog ▸ hr)
  · rcases happ.fresh e he with he | ⟨-, -, -, hle⟩
    · exact (h.lsns e he).trans happ.lastLsn
    · exact hle
  · rw [happ.splitState, hseed]; exact h.begun
  · have : ∃ r, Held m s r ∧ Encodes ν e.oplogRow r := by
      rcases happ.fresh e he with he | ⟨-, hp, -⟩
      · exact h.waiting e he hm
      · exact hP _ hp
    exact hstep.encoded this

theorem assertReshardMovement_returns {role : SplitRole} {db db' : SplitDb} {u : Unit}
    (h : (assertReshardMovement m role).Returns db u db') :
    db = db' ∧ ∃ r, db.splitState.find? m.migId = some r ∧ r.role = role ∧ r.rangeLo = m.rangeLo ∧
      r.rangeHi = m.rangeHi ∧ r.drained = false := by
  simp only [assertReshardMovement, Tx.bind_returns, Tx.gets_returns, Tx.require_returns] at h
  obtain ⟨_, _, ⟨rfl, rfl⟩, hany, rfl⟩ := h
  obtain ⟨r, hr, hok⟩ := (Option.any_eq_true _ _).mp hany
  simp only [Bool.and_eq_true, decide_eq_true_eq, Bool.not_eq_true'] at hok
  exact ⟨rfl, r, hr, hok.1.1.1.1, hok.1.1.1.2, hok.1.1.2, hok.1.2⟩

theorem ackCall_source {throughLsn nowMs : Int} {u : Unit} (h : Inv m codec ν w)
    (hle : throughLsn ≤ w.dest.domain.split.appliedLsn m.migId)
    (hr : (ackCall m throughLsn nowMs).Returns w.source u s) :
    Inv m codec ν { w with source := s } := by
  simp only [ackCall, Tx.transactionSync_returns, onSplit_returns, Tx.bind_returns] at hr
  obtain ⟨split, ⟨_, _, hmove, hack⟩, rfl⟩ := hr
  obtain ⟨rfl, -⟩ := assertReshardMovement_returns hmove
  have hp := ackSplitOpLog_returns hack
  have hstep : SourceStep m w.source { w.source with domain := { w.source.domain with split } } := by
    refine ⟨fun r hr => ⟨?_, hr.mem, hr.covers⟩, hp.lastLsn.ge, fun e he _ => .inl (hp.sub e he)⟩
    show (split.seed? m.migId).isSome
    rw [hp.seed]; exact hr.begun
  refine h.source_step hstep ⟨h.source.finalised, h.source.eventIds, fun e he => ?_,
    hp.splitState ▸ h.source.others, hp.splitState ▸ h.source.row, ?_, fun e he hm => ?_⟩ ?_
  · rw [show _ = _ from hp.lastLsn]; exact h.source.lsns e (hp.sub e he)
  · show (split.splitState.find? m.migId).isSome = (split.seed? m.migId).isSome
    rw [hp.splitState, hp.seed]; exact h.source.begun
  · exact hstep.encoded (h.source.waiting e (hp.sub e he) hm)
  · intro sd hsd r hr hc
    rw [show split.seed? m.migId = _ from hp.seed _] at hsd
    rcases h.covered sd hsd r hr hc with hpend | ⟨b, henc, e, he, hm, rfl⟩ | hcopied
    · exact .inl hpend
    · rcases hp.kept e he with he' | ⟨-, hle'⟩
      · exact .inr (.inl ⟨_, henc, e, he', hm, rfl⟩)
      · exact .inr (.inr (henc.copied (h.applied e he hm (hle'.trans hle))))
    · exact .inr (.inr hcopied)

theorem ackCall_opLog {throughLsn nowMs : Int} {u : Unit}
    (hr : (ackCall m throughLsn nowMs).Returns s u s') : s'.opLog = s.opLog := by
  simp only [ackCall, Tx.transactionSync_returns, onSplit_returns] at hr
  obtain ⟨split, -, rfl⟩ := hr
  rfl

theorem readCall_source {afterLsn nowMs : Int} {b : SplitOpLogBatch} (h : Inv m codec ν w)
    (hr : (readCall ν m afterLsn nowMs).Returns w.source b s) :
    Inv m codec ν { w with source := s } ∧ s.opLog = w.source.opLog ∧
      ReadsBatch m.migId s.domain.split afterLsn b := by
  simp only [readCall, Tx.transactionSync_returns, onSplit_returns, Tx.bind_returns] at hr
  obtain ⟨_, _, ⟨split, hmove, rfl⟩, hread⟩ := hr
  obtain ⟨rfl, row, hrow, -, hlo, hhi, -⟩ := assertReshardMovement_returns hmove
  have hrange : ∀ r, w.source.domain.split.splitState.find? m.migId = some r →
      r.rangeLo = m.rangeLo ∧ r.rangeHi = m.rangeHi := fun r hr =>
    ⟨(h.source.row r hr).2.1, (h.source.row r hr).2.2.1⟩
  obtain ⟨hlog, -, hpage, hbatch⟩ := readSplitOpLogBatch_returns h.source.eventIds hrange hread
  have hbegun : (w.source.domain.split.seed? m.migId).isSome := by
    rw [← h.source.begun, hrow]; rfl
  obtain ⟨sd, hsd⟩ := Option.isSome_iff_exists.mp hbegun
  obtain ⟨sd', hsd', hpend⟩ := hpage.pending sd hsd
  have hheld : ∀ b, (∃ r ∈ w.source.opLog.rows, inRange m.rangeLo m.rangeHi r = true ∧ Encodes ν b r) →
      ∃ r, Held m w.source r ∧ Encodes ν b r := by
    rintro b ⟨r, hr, hin, henc⟩
    exact ⟨r, ⟨hbegun, hr, hin⟩, henc⟩
  obtain ⟨hinv, hstep⟩ :=
    h.source.of_appends hlog hpage.appends (by rw [hsd, hsd']; rfl) hheld
  refine ⟨h.source_step hstep hinv fun sd₁ hsd₁ r hr hc => ?_, hlog, hbatch⟩
  obtain rfl : sd' = sd₁ := Option.some.inj (hsd'.symm.trans hsd₁)
  rw [hlog] at hr
  rcases h.covered sd hsd r hr hc with hp | ⟨b, henc, hret⟩ | hcopied
  · rcases hpend r hr hc hp with hcap | hp
    · exact .inr (.inl hcap)
    · exact .inl hp
  · exact .inr (.inl ⟨b, henc, hpage.appends.retains hret⟩)
  · exact .inr (.inr hcopied)

/-! ## Begin -/

/-- The split tables of a source that may begin, in the middle of its begin. -/
structure HasSourceRow (m : Move) (t : SplitStateTable) : Prop where
  others : ∀ r ∈ t, r.migId ≠ m.migId → r.drained = true
  row : ∃ r, t.find? m.migId = some r ∧ IsSourceRow m r

theorem sourceRow_check (m : Move) (nowMs : Int) : (m.sourceRow nowMs).check := by
  simp [SplitStateRow.check, Move.sourceRow]

theorem hasSourceRow_insert {nowMs : Int} {n : Nat} {t t' : SplitStateTable}
    (hothers : ∀ r ∈ t, r.migId ≠ m.migId → r.drained = true)
    (hrow : ∀ r, t.find? m.migId = some r → IsSourceRow m r)
    (h : (Table.insertIgnore (m.sourceRow nowMs) : Tx Thrown SplitStateTable Nat).Returns t n t') :
    HasSourceRow m t' := by
  rcases Table.insertIgnore_returns.mp h with ⟨-, hi⟩ | ⟨-, hi, rfl⟩
  · refine ⟨fun r hr hne => ?_, m.sourceRow nowMs,
      Table.find?_eq_some.mpr ⟨(Table.mem_insert hi).mpr (.inr rfl), rfl⟩, rfl, rfl, rfl, rfl, rfl, rfl⟩
    rcases (Table.mem_insert hi).mp hr with hr | rfl
    · exact hothers r hr hne
    · exact absurd rfl hne
  · refine ⟨hothers, ?_⟩
    cases hf : t'.find? m.migId with
    | some r => exact ⟨r, rfl, hrow r hf⟩
    | none =>
      have hfresh : ∀ r ∈ t', r.migId ≠ (m.sourceRow nowMs).migId := Table.find?_eq_none.mp hf
      have := Table.insert?_isSome.mpr ⟨hfresh, sourceRow_check m nowMs⟩
      rw [hi] at this; cases this

theorem HasSourceRow.enable {nowMs : Int} {t t' : SplitStateTable} (h : HasSourceRow m t)
    (hu : t.update? (fun r => r.migId = m.migId)
      (fun r => { r with capture := true, updatedAt := nowMs }) = some t') : HasSourceRow m t' := by
  refine ⟨fun r hr hne => ?_, ?_⟩
  · obtain ⟨r₀, hr₀, rfl⟩ := (Table.mem_update hu).mp hr
    by_cases hm : r₀.migId = m.migId
    · rw [if_pos (decide_eq_true hm)] at hne; exact absurd hm hne
    · rw [if_neg (by simpa using hm)]; exact h.others r₀ hr₀ hm
  · obtain ⟨r, hr, hok⟩ := h.row
    refine ⟨{ r with capture := true, updatedAt := nowMs }, ?_, hok.1, hok.2.1, hok.2.2.1, rfl,
      hok.2.2.2.2⟩
    rw [Table.find?_update hu fun _ _ _ => rfl, hr, Option.map_some,
      if_pos (decide_eq_true (Table.find?_eq_some.mp hr).2)]

/-- A begin leaves the source row and the seed of the range. -/
theorem beginReshardSource_returns {nowMs : Int} {u : Unit} (hnow : 0 ≤ nowMs)
    (h : SourceInv m codec ν s) (hr : (beginReshardSource m nowMs).Returns s u s') :
    ∃ splitState accounting, HasSourceRow m splitState ∧
      s' = { s with domain := { s.domain with
        split := { s.domain.split with splitState, accounting } } } ∧
      s'.domain.split.seed? m.migId = some ((s.domain.split.seed? m.migId).getD
        ⟨0, maxEventId s.opLog m.rangeLo m.rangeHi, maxEventId s.opLog m.rangeLo m.rangeHi = 0⟩) := by
  simp only [beginReshardSource, assertReshardBeginAllowed, requireSplitState, onSplitState,
    Tx.transactionSync_returns, onSplit_returns, Tx.bind_returns, Tx.gets_returns,
    Tx.require_returns, Tx.ofOption_returns, Tx.zoom_returns] at hr
  obtain ⟨_, _, ⟨_, ⟨_, _, ⟨rfl, rfl⟩, -, rfl⟩, rfl⟩, _, _, ⟨-, rfl⟩, _, _, ⟨-, rfl⟩, n, _,
    ⟨_, ⟨t, ht, rfl⟩, rfl⟩, state, _, ⟨_, ⟨_, _, ⟨rfl, rfl⟩, hstate, rfl⟩, rfl⟩, hr⟩ := hr
  have hrow := hasSourceRow_insert h.others h.row ht
  obtain ⟨hstate, -⟩ := Option.filter_eq_some_iff.mp hstate
  have hdrain : state.drainStarted = false := by
    obtain ⟨r, hr, hok⟩ := hrow.row
    obtain rfl : r = state := Option.some.inj (hr.symm.trans hstate)
    exact hok.2.2.2.2.2
  rw [if_neg (by rw [hdrain]; decide)] at hr
  simp only [enableCapture, onSplitState, Tx.bind_returns, onSplit_returns, Tx.zoom_returns,
    Table.update_returns] at hr
  obtain ⟨_, _, ⟨_, ⟨t', ⟨hu, -⟩, rfl⟩, rfl⟩, hseed⟩ := hr
  obtain ⟨accounting, rfl, hseed⟩ := seedSplitOpLogRange_returns hnow hseed
  exact ⟨t', accounting, hrow.enable hu, rfl, hseed⟩

theorem beginReshardSource_source {nowMs : Nat} {u : Unit} (h : Inv m codec ν w)
    (hr : (beginReshardSource m nowMs).Returns w.source u s) :
    Inv m codec ν { w with source := s } := by
  obtain ⟨splitState, accounting, hrow, rfl, hseed⟩ :=
    beginReshardSource_returns (Int.natCast_nonneg nowMs) h.source hr
  have hstep : SourceStep m w.source { w.source with domain := { w.source.domain with
      split := { w.source.domain.split with splitState, accounting } } } :=
    ⟨fun r hr => ⟨by rw [hseed]; rfl, hr.mem, hr.covers⟩, le_rfl, fun e he _ => .inl he⟩
  refine h.source_step hstep ⟨h.source.finalised, h.source.eventIds, h.source.lsns, hrow.others, ?_, ?_,
    fun e he hm => ?_⟩ fun sd hsd r hr hc => ?_
  · intro r hr
    obtain ⟨r', hr', hok⟩ := hrow.row
    obtain rfl : r' = r := Option.some.inj (hr'.symm.trans hr)
    exact hok
  · obtain ⟨r, hr, -⟩ := hrow.row
    rw [hseed]
    show (splitState.find? m.migId).isSome = _
    rw [hr]; rfl
  · exact hstep.encoded (h.source.waiting e he hm)
  · rw [hseed] at hsd
    cases hold : w.source.domain.split.seed? m.migId with
    | some sd' =>
      rw [hold] at hsd
      obtain rfl : sd' = sd := Option.some.inj hsd
      exact h.covered _ hold r hr hc
    | none =>
      rw [hold] at hsd
      obtain rfl := Option.some.inj hsd
      have hle : (r.eventId : Int) ≤ maxEventId w.source.opLog m.rangeLo m.rangeHi :=
        le_maxEventId hr hc
      have hpos := (h.source.eventIds.1 r hr).1
      refine .inl ⟨decide_eq_false (p := maxEventId w.source.opLog m.rangeLo m.rangeHi = 0) ?_, ?_, hle⟩
      · omega
      · show (0 : Int) < r.eventId
        omega

/-! ## Mutations -/

theorem maintain_source {nowMs : Int} {res : CdbOpLogRetentionResult} (h : Inv m codec ν w)
    (hr : (maintain nowMs).Returns w.source res s) : Inv m codec ν { w with source := s } := by
  obtain ⟨hdomain, hlast, hsub, hactive⟩ := maintain_returns hr
  cases hrow : w.source.domain.split.splitState.find? m.migId with
  | some row =>
    have hmem := (Table.find?_eq_some.mp hrow).1
    have hdrained := (h.source.row row hrow).2.2.2.2.1
    rw [hactive (hasActiveSplit_of_mem hmem hdrained)]; exact h
  | none =>
    have hnone : w.source.domain.split.seed? m.migId = none := by
      have := h.source.begun
      rw [hrow] at this
      exact Option.not_isSome_iff_eq_none.mp (by rw [← this]; decide)
    have hheld : ∀ r, ¬ Held m w.source r := fun r hr => by
      have := hr.begun
      rw [hnone] at this; cases this
    refine h.source_step ⟨fun r hr => absurd hr (hheld r), by rw [hdomain], fun e he _ => ?_⟩
      ⟨fun r hr => h.source.finalised r (hsub r hr), ?_, ?_, ?_, ?_, ?_, fun e he hm => ?_⟩ ?_
    · rw [hdomain] at he; exact .inl he
    · refine ⟨fun r hr => ?_, fun r hr r' hr' => h.source.eventIds.2 r (hsub r hr) r' (hsub r' hr')⟩
      rw [hlast]; exact h.source.eventIds.1 r (hsub r hr)
    · rw [hdomain]; exact h.source.lsns
    · rw [hdomain]; exact h.source.others
    · rw [hdomain]; exact h.source.row
    · rw [hdomain]; exact h.source.begun
    · rw [hdomain] at he
      obtain ⟨r, hr, -⟩ := h.source.waiting e he hm
      exact absurd hr (hheld r)
    · intro sd hsd
      rw [hdomain, hnone] at hsd; cases hsd

variable {sha256 : ByteArray → ByteArray}

theorem EventIds.insert {row : Nat → OpLogRow} (hrow : ∀ i, (row i).eventId = i) {log log' : Ledger}
    {n : Nat} (hids : EventIds log) (h : (Ledger.insertOrIgnore row).Returns log n log') :
    EventIds log' := by
  rcases insertOrIgnore_returns h with ⟨-, rfl, -⟩ | ⟨-, hlast, hi⟩
  · exact hids
  · have hmem : ∀ r ∈ log'.rows, r ∈ log.rows ∨ r = row (log.lastEventId + 1) :=
      fun r => (Table.mem_insert hi).mp
    have hnew := hrow (log.lastEventId + 1)
    refine ⟨fun r hr => ?_, fun r hr r' hr' he => ?_⟩
    · rcases hmem r hr with hr | rfl
      · have := hids.1 r hr; omega
      · omega
    · rcases hmem r hr with hr | rfl <;> rcases hmem r' hr' with hr' | rfl
      · exact hids.2 r hr r' hr' he
      · have := hids.1 r hr; omega
      · have := hids.1 r' hr'; omega
      · rfl

theorem EventIds.finalise {key : String × String} {payloadEnc : ByteArray} {touchedKeys : String}
    {log log' : Ledger} {n : Nat} (hids : EventIds log)
    (h : (Ledger.finalise key payloadEnc touchedKeys).Returns log n log') : EventIds log' := by
  simp only [Ledger.finalise, Tx.zoom_returns, Table.update_returns] at h
  obtain ⟨rows, ⟨hu, -⟩, rfl⟩ := h
  have hmem : ∀ r ∈ rows, ∃ r₀ ∈ log.rows, r.eventId = r₀.eventId ∧ r = if r₀.key = key then
      { r₀ with payloadEnc, touchedKeys, byteSize := payloadEnc.size } else r₀ := by
    intro r hr
    obtain ⟨r₀, hr₀, rfl⟩ := (Table.mem_update hu).mp hr
    simp only [decide_eq_true_eq]
    refine ⟨r₀, hr₀, ?_, rfl⟩
    split <;> rfl
  refine ⟨fun r hr => ?_, fun r hr r' hr' he => ?_⟩
  · obtain ⟨r₀, hr₀, heq, -⟩ := hmem r hr
    rw [heq]; exact hids.1 r₀ hr₀
  · obtain ⟨r₀, hr₀, heq, hr⟩ := hmem r hr
    obtain ⟨r₁, hr₁, heq', hr'⟩ := hmem r' hr'
    obtain rfl : r₀ = r₁ := hids.2 r₀ hr₀ r₁ hr₁ (by omega)
    rw [hr, hr']

theorem EventIds.exec {σ : Type} {args : RunWrappedMutationArgs σ ν} {db db' : OpLogDb σ}
    {res : RunWrappedMutationResult ν} (hids : EventIds db.opLog)
    (h : (exec sha256 codec args).Returns db res db') : EventIds db'.opLog := by
  rw [OpLog.exec, Tx.transactionSync_returns, runWrappedMutation, Tx.bind_returns] at h
  obtain ⟨changes, mid, hins, h⟩ := h
  rw [onOpLog, Tx.zoom_returns] at hins
  obtain ⟨log, hins, rfl⟩ := hins
  have hlog := hids.insert (fun _ => rfl) hins
  rcases Tx.ite_returns.mp h with ⟨-, h⟩ | ⟨-, h⟩
  · rw [(replayMutation_returns h).1]; exact hlog
  · simp only [runMutation, onDomain, onOpLog, Tx.bind_returns, Tx.zoom_returns,
      Tx.ofExcept_returns, Tx.pure_returns] at h
    obtain ⟨outcome, _, ⟨domain, -, rfl⟩, env, _, ⟨-, rfl⟩, n, _, ⟨log', hfin, rfl⟩, -, rfl⟩ := h
    exact hlog.finalise hfin

/-- The rows after a call that ran: its own is new. -/
theorem Committed.mem_rows {σ : Type} {args : RunWrappedMutationArgs σ ν} {db db' : OpLogDb σ}
    {env : Json ν} (h : Committed sha256 codec args db db' env) :
    ∃ row, db'.opLog.rows.find? args.key = some row ∧ row.placementVshard = args.placementVshard ∧
      ∀ r, r ∈ db'.opLog.rows ↔ r ∈ db.opLog.rows ∨ r = row := by
  obtain ⟨outcome, eventId, -, -, hrow⟩ := h.ran
  refine ⟨_, hrow, rfl, fun r => ⟨fun hr => ?_, ?_⟩⟩
  · by_cases hk : r.key = args.key
    · right
      have := Table.find?_key hr
      rw [hk, hrow] at this
      exact (Option.some.inj this).symm
    · left
      have := Table.find?_key hr
      rw [h.rest _ hk] at this
      exact (Table.find?_eq_some.mp this).1
  · rintro (hr | rfl)
    · have hne : r.key ≠ args.key := Table.find?_eq_none.mp h.fresh r hr
      have := Table.find?_key hr
      rw [← h.rest _ hne] at this
      exact (Table.find?_eq_some.mp this).1
    · exact (Table.find?_eq_some.mp hrow).1

theorem mem_capturingSplits {db : SplitDb} {v : Int} {r : SplitStateRow} :
    r ∈ capturingSplits db v ↔ r ∈ db.splitState ∧ r.role = .source ∧ r.capture = true ∧
      r.drained = false ∧ r.rangeLo ≤ v ∧ v ≤ r.rangeHi := by
  simp [capturingSplits, SplitStateRow.covers, and_assoc]

/-- Only the migration captures. -/
theorem SourceInv.capturing (h : SourceInv m codec ν s) {v : Int} {split : SplitStateRow}
    (hs : split ∈ capturingSplits s.domain.split v) :
    s.domain.split.splitState.find? m.migId = some split := by
  obtain ⟨hmem, -, -, hdrained, -⟩ := mem_capturingSplits.mp hs
  have hm : split.migId = m.migId := by
    by_contra hne
    have := h.others split hmem hne
    rw [hdrained] at this; cases this
  exact Table.find?_eq_some.mpr ⟨hmem, hm⟩

/-- On a source that has begun the migration captures every vshard of its range. -/
theorem Held.capturing (h : SourceInv m codec ν s) {r : OpLogRow} (hr : Held m s r) {v : Int}
    (hv : r.placementVshard = some v) : capturingSplits s.domain.split v ≠ [] := by
  have hbegun := h.begun
  rw [hr.begun] at hbegun
  obtain ⟨row, hrow⟩ := Option.isSome_iff_exists.mp hbegun
  obtain ⟨hrole, hlo, hhi, hcap, hdrained, -⟩ := h.row row hrow
  have hin := hr.covers
  rw [hv] at hin
  simp only [Move.covers, Option.any_some, Bool.and_eq_true, decide_eq_true_eq] at hin
  refine List.ne_nil_of_mem (mem_capturingSplits.mpr
    ⟨(Table.find?_eq_some.mp hrow).1, hrole, hcap, hdrained, ?_, ?_⟩)
  · rw [hlo]; exact hin.1
  · rw [hhi]; exact hin.2

/-- What the capture of a mutation leaves. -/
structure CaptureStep (m : Move) (codec : PayloadCodec) (ν : Type) [JsNumber ν] (s s' : Cdb δ)
    (key : String × String) : Prop where
  inv : SourceInv m codec ν s'
  step : SourceStep m s s'
  opLog : s'.opLog = s.opLog
  seed : s'.domain.split.seed? m.migId = s.domain.split.seed? m.migId
  retains : ∀ b, s.domain.split.Retains m.migId b → s'.domain.split.Retains m.migId b
  captured : ∀ row, s.opLog.rows.find? key = some row → Held m s row →
    ∃ b, Encodes ν b row ∧ s'.domain.split.Retains m.migId b

theorem CaptureStep.refl {key : String × String} (h : SourceInv m codec ν s)
    (hkey : ∀ row, s.opLog.rows.find? key = some row → ¬ Held m s row) :
    CaptureStep m codec ν s s key :=
  ⟨h, .refl s, rfl, rfl, fun _ hb => hb, fun row hrow hheld => absurd hheld (hkey row hrow)⟩

theorem captureSplitOutcome_source {req : MutationRequest δ ν} {u : Unit} (h : SourceInv m codec ν s)
    (hplace : ∀ row, s.opLog.rows.find? (req.principalId, req.mutId) = some row →
      row.placementVshard = req.placementVshard)
    (hr : (captureSplitOutcome req).Returns s u s') :
    CaptureStep m codec ν s s' (req.principalId, req.mutId) := by
  unfold captureSplitOutcome at hr
  split at hr
  · rename_i hnone
    obtain ⟨-, rfl⟩ := Tx.pure_returns.mp hr
    refine .refl h fun row hrow hheld => ?_
    have := hheld.covers
    rw [hplace row hrow, hnone] at this; cases this
  · rename_i v hv
    simp only [Tx.bind_returns, Tx.pure_returns] at hr
    obtain ⟨n, _, hcap, -, rfl⟩ := hr
    have hacc : ∀ r ∈ capturingSplits s.domain.split v,
        (s.domain.split.accounting.find? r.migId).isSome := by
      intro r hr
      have hrow := h.capturing hr
      rw [(Table.find?_eq_some.mp hrow).2]
      have hbegun := h.begun
      rw [hrow, SplitDb.seed?, Option.isSome_map] at hbegun
      exact hbegun.symm
    have hlog := captureSplitOpLogOutcome_opLog hcap
    obtain ⟨hnil, rfl⟩ | ⟨split, row, bytes, hsplits, hrow, hplaced, henc, happ, hseed, hret⟩ :=
      captureSplitOpLogOutcome_returns hacc hcap
    · refine .refl h fun row hrow hheld => hheld.capturing h ((hplace row hrow).trans hv) hnil
    · have hmem : split ∈ capturingSplits s.domain.split v := by
        rw [hsplits]; exact List.mem_singleton_self _
      have hfind := h.capturing hmem
      obtain ⟨-, -, -, -, hlo, hhi⟩ := mem_capturingSplits.mp hmem
      have hmig : split.migId = m.migId := (Table.find?_eq_some.mp hfind).2
      obtain ⟨-, hrlo, hrhi, -⟩ := h.row split hfind
      have hheld : Held m s row := by
        refine ⟨by rw [← h.begun, hfind]; rfl, (Table.find?_eq_some.mp hrow).1, ?_⟩
        rw [hplaced, Move.covers, Option.any_some, ← hrlo, ← hrhi]
        simp [hlo, hhi]
      rw [hmig] at happ hret
      obtain ⟨hinv, hstep⟩ := h.of_appends hlog happ (by rw [hseed])
        fun b hb => ⟨row, hheld, by rw [hb]; exact henc⟩
      refine ⟨hinv, hstep, hlog, hseed _, fun b hb => happ.retains hb, fun row' hrow' _ => ?_⟩
      obtain rfl : row = row' := Option.some.inj (hrow.symm.trans hrow')
      exact ⟨bytes, henc, hret⟩

theorem executeAtomicMutation_returns {fenced : Bool} {req : MutationRequest δ ν}
    {res : RunWrappedMutationResult ν}
    (h : (executeAtomicMutation sha256 codec m fenced req).Returns s res s') :
    s' = s ∨ ∃ mid, (exec sha256 codec req.onCdb).Returns s res mid ∧
      Committed sha256 codec req.onCdb s mid res.envelope ∧ (afterRun req).Returns mid () s' ∧
      ¬ (fenced = true ∧ m.covers req.placementVshard = true) := by
  simp only [executeAtomicMutation, Tx.transactionSync_returns, Tx.bind_returns,
    Tx.require_returns] at h
  obtain ⟨_, _, ⟨hfence, rfl⟩, result, mid, hrun, h⟩ := h
  have hexec : (exec sha256 codec req.onCdb).Returns s result mid :=
    Tx.transactionSync_returns.mpr hrun
  rcases exec_returns hexec with ⟨rfl, hran, -⟩ | ⟨hran, hc⟩
  · rw [if_neg (by rw [hran]; decide)] at h
    exact .inl (Tx.pure_returns.mp h).2.symm
  · rw [if_pos hran] at h
    simp only [Tx.bind_returns, Tx.pure_returns] at h
    obtain ⟨⟨⟩, _, hafter, rfl, rfl⟩ := h
    exact .inr ⟨mid, hexec, hc, hafter, hfence⟩

/-- The split tables are out of reach of a handler. -/
theorem onTables_returns {α : Type} {x : Tx Thrown δ α} {rest rest' : CdbRest δ} {a : α}
    (h : (onTables x).Returns rest a rest') : rest'.split = rest.split := by
  obtain ⟨domain, -, rfl⟩ := Tx.zoom_returns.mp h
  rfl

theorem executeAtomicMutation_source {req : MutationRequest δ ν} {res : RunWrappedMutationResult ν}
    (h : Inv m codec ν w)
    (hr : (executeAtomicMutation sha256 codec m w.fenced req).Returns w.source res s) :
    Inv m codec ν { w with source := s } := by
  rcases executeAtomicMutation_returns hr with rfl | ⟨mid, hexec, hc, hafter, -⟩
  · exact h
  obtain ⟨row, hrow, hplace, hmem⟩ := hc.mem_rows
  have hsplit : mid.domain.split = w.source.domain.split := by
    obtain ⟨outcome, eventId, hrun, -⟩ := hc.ran
    exact onTables_returns hrun
  -- the call itself
  have hstep : SourceStep m w.source mid :=
    ⟨fun r hr => ⟨hsplit ▸ hr.begun, (hmem r).mpr (.inl hr.mem), hr.covers⟩, by rw [hsplit],
      fun e he _ => .inl (hsplit ▸ he)⟩
  have hmid : SourceInv m codec ν mid := by
    refine ⟨?_, h.source.eventIds.exec hexec, hsplit ▸ h.source.lsns, hsplit ▸ h.source.others,
      hsplit ▸ h.source.row, hsplit ▸ h.source.begun, fun e he hm => ?_⟩
    · have : Finalised codec ν ((exec sha256 codec req.onCdb).after w.source) :=
        h.source.finalised.exec_after req.onCdb
      rwa [hexec.after] at this
    · exact hstep.encoded (h.source.waiting e (hsplit ▸ he) hm)
  -- its capture, and what its commit enqueues
  simp only [afterRun, onDomain, Tx.bind_returns, Tx.zoom_returns] at hafter
  obtain ⟨_, mid', hcap, rest, hwrite, rfl⟩ := hafter
  have hcs := captureSplitOutcome_source hmid (fun r hr => by
    obtain rfl : row = r := Option.some.inj (hrow.symm.trans hr)
    exact hplace) hcap
  have hrest := onTables_returns hwrite
  have hsame : Appends m.migId (fun _ => False) mid'.domain.split rest.split := by
    rw [hrest]; exact .refl ..
  obtain ⟨hinv, hstep'⟩ : SourceInv m codec ν { mid' with domain := rest } ∧
      SourceStep m mid' { mid' with domain := rest } :=
    hcs.inv.of_appends rfl hsame (by rw [show _ = _ from hrest]) fun _ h => h.elim
  refine h.source_step ((hstep.trans hcs.step).trans hstep') hinv fun sd hsd r hr hcov => ?_
  have hsd' : mid'.domain.split.seed? m.migId = some sd := hrest ▸ hsd
  have hsd₀ : w.source.domain.split.seed? m.migId = some sd := by rw [← hsplit, ← hcs.seed, hsd']
  have hr' : r ∈ mid.opLog.rows := hcs.opLog ▸ hr
  rcases (hmem r).mp hr' with hold | rfl
  · rcases h.covered sd hsd₀ r hold hcov with hp | ⟨b, henc, hret⟩ | hcopied
    · exact .inl hp
    · refine .inr (.inl ⟨b, henc, ?_⟩)
      rw [show _ = _ from hrest]
      exact hcs.retains b (hsplit ▸ hret)
    · exact .inr (.inr hcopied)
  · obtain ⟨b, henc, hret⟩ := hcs.captured r hrow ⟨by rw [← hcs.seed, hsd']; rfl, hr', hcov⟩
    refine .inr (.inl ⟨b, henc, ?_⟩)
    rw [show _ = _ from hrest]
    exact hret

end

end Chardb.OpLog
