import Chardb.OpLog.ReplayInvariant

/-!
# The ledger after a move

The steps of the destination and of the Resharder keep the invariant, so it holds of
every run. A read after the fence that finds nothing left proves the copy complete
(`replay_ledger_moves`).
-/

namespace Chardb.OpLog

open Chardb.Lib Chardb.Reshard

variable {δ : Type} {ν : Type} [JsNumber ν]

section
variable {m : Move} {codec : PayloadCodec} {w : World δ} {s s' dest : Cdb δ}
  {sha256 : ByteArray → ByteArray}

/-! ## Rows come and go -/

/-- The rows that a fenced step may not add, and the copies that no step removes. -/
structure RowStep (m : Move) (w w' : World δ) : Prop where
  fenced : w.fenced = true → w'.fenced = true
  source : w.fenced = true → ∀ r ∈ w'.source.opLog.rows, m.covers r.placementVshard = true →
    r ∈ w.source.opLog.rows
  dest : ∀ d ∈ w.dest.opLog.rows, d ∈ w'.dest.opLog.rows

theorem RowStep.of_eq {w' : World δ} (hfenced : w'.fenced = w.fenced)
    (hsource : w'.source.opLog = w.source.opLog) (hdest : w'.dest.opLog = w.dest.opLog) :
    RowStep m w w' :=
  ⟨fun h => hfenced ▸ h, fun _ _ hr _ => hsource ▸ hr, fun _ hd => hdest ▸ hd⟩

theorem captureSplitOutcome_opLog {req : MutationRequest δ ν} {u : Unit}
    (h : (captureSplitOutcome req).Returns s u s') : s'.opLog = s.opLog := by
  unfold captureSplitOutcome at h
  split at h
  · rw [(Tx.pure_returns.mp h).2]
  · simp only [Tx.bind_returns, Tx.pure_returns] at h
    obtain ⟨n, _, hcap, -, rfl⟩ := h
    exact captureSplitOpLogOutcome_opLog hcap

theorem executeAtomicMutation_rows {req : MutationRequest δ ν} {res : RunWrappedMutationResult ν}
    (hr : (executeAtomicMutation sha256 codec m w.fenced req).Returns w.source res s) :
    RowStep m w { w with source := s } := by
  refine ⟨id, fun hfenced r hmem hc => ?_, fun _ hd => hd⟩
  rcases executeAtomicMutation_returns hr with rfl | ⟨mid, hexec, hcom, hafter, hfence⟩
  · exact hmem
  · obtain ⟨row, hrow, hplace, hrows⟩ := hcom.mem_rows
    simp only [afterRun, onDomain, Tx.bind_returns, Tx.zoom_returns] at hafter
    obtain ⟨_, mid', hcap, rest, -, rfl⟩ := hafter
    rcases (hrows r).mp (captureSplitOutcome_opLog hcap ▸ hmem) with hold | rfl
    · exact hold
    · exact absurd ⟨hfenced, hplace ▸ hc⟩ hfence

/-! ## Calls on the destination -/

theorem maintain_dest {nowMs : Int} {res : CdbOpLogRetentionResult} (h : Inv m codec ν w)
    (hr : (maintain nowMs).Returns w.dest res dest) :
    Inv m codec ν { w with dest } ∧ RowStep m w { w with dest } := by
  obtain ⟨hdomain, -, hsub, hactive⟩ := maintain_returns hr
  cases hact : hasActiveSplit w.dest.domain.split with
  | true => rw [hactive hact]; exact ⟨h, .of_eq rfl rfl rfl⟩
  | false =>
    have hempty := h.destActive hact
    refine ⟨h.dest_step (fun d hd => absurd hd (hempty d)) (fun d hd => absurd (hsub d hd) (hempty d))
      (fun _ d hd => hempty d (hsub d hd)) (by rw [hdomain]) (by rw [hdomain]; exact h.appliedLsn)
      fun e _ _ hlt hle => ?_, id, fun _ _ hr _ => hr, fun d hd => absurd hd (hempty d)⟩
    rw [hdomain] at hle
    exact absurd hlt (not_lt.mpr hle)

theorem beginReshardDest_dest {generation nowMs : Int} {u : Unit} (h : Inv m codec ν w)
    (hr : (beginReshardDest m generation nowMs).Returns w.dest u dest) :
    Inv m codec ν { w with dest } ∧ RowStep m w { w with dest } := by
  simp only [beginReshardDest, Tx.transactionSync_returns, onSplit_returns,
    assertReshardBeginAllowed, requireSplitState, onSplitState, Tx.bind_returns, Tx.gets_returns,
    Tx.require_returns, Tx.ofOption_returns, Tx.zoom_returns] at hr
  obtain ⟨split, ⟨_, _, ⟨_, _, ⟨rfl, rfl⟩, -, rfl⟩, n, _, ⟨t, ht, rfl⟩, row, _,
    ⟨_, _, ⟨rfl, rfl⟩, hrow, rfl⟩, hbegin⟩, rfl⟩ := hr
  obtain ⟨hstate, happlied⟩ := beginSplitOpLogDestination_returns hbegin
  obtain ⟨hrow, hok⟩ := Option.filter_eq_some_iff.mp hrow
  simp only [Bool.and_eq_true, Bool.not_eq_true'] at hok
  have hactive : hasActiveSplit split = true :=
    hasActiveSplit_of_mem (by rw [hstate]; exact (Table.find?_eq_some.mp hrow).1) hok.1.2
  refine ⟨h.dest_step (fun d hd => hd) h.copies (fun hfalse => ?_) happlied.ge
    (happlied.le.trans h.appliedLsn) fun e _ _ hlt hle => ?_, .of_eq rfl rfl rfl⟩
  · rw [show hasActiveSplit split = false from hfalse] at hactive; cases hactive
  · exact absurd hlt (not_lt.mpr (hle.trans happlied.le))

theorem applyCall_dest {afterLsn lastLsn nowMs : Int} {entries : List SplitOpLogEntry}
    {res : SplitOpLogApplyResult} (h : Inv m codec ν w)
    (hb : GoodBatch m ν w.source w.dest afterLsn entries lastLsn)
    (hr : (applyCall ν m entries nowMs).Returns w.dest res dest) :
    Inv m codec ν { w with dest } ∧ res.lastLsn ≤ dest.domain.split.appliedLsn m.migId ∧
      ∀ d ∈ w.dest.opLog.rows, d ∈ dest.opLog.rows := by
  simp only [applyCall, Tx.transactionSync_returns, onSplit_returns, Tx.bind_returns] at hr
  obtain ⟨_, _, ⟨split, hmove, rfl⟩, happ⟩ := hr
  obtain ⟨rfl, row, hrow, -, -, -, hdrained⟩ := assertReshardMovement_returns hmove
  have happ : AppliesBatch ν m.migId entries res w.dest dest := applySplitOpLogBatch_returns happ
  have hactive : hasActiveSplit dest.domain.split = true :=
    hasActiveSplit_of_mem (by rw [happ.splitState]; exact (Table.find?_eq_some.mp hrow).1) hdrained
  -- the cursor moves to the LSN of an entry, all before it from the cursor on are entries too
  have hreach : dest.domain.split.appliedLsn m.migId = w.dest.domain.split.appliedLsn m.migId ∨
      dest.domain.split.appliedLsn m.migId ≤ lastLsn := by
    refine happ.reached.imp_right fun hreached => ?_
    obtain ⟨e, he, hlsn⟩ := hreached
    rw [← hlsn]
    exact (hb.contiguous.sound e he).2
  refine ⟨h.dest_step happ.kept (fun d hd => ?_) (fun hfalse => ?_) happ.cursor ?_
    fun e he hm hlt hle => ?_, happ.result, happ.kept⟩
  · rcases happ.fresh d hd with hd | ⟨e, he, c, hc, hsame⟩
    · exact h.copies d hd
    · obtain ⟨r, hr, henc⟩ := hb.held e he
      exact ⟨r, hr, henc.sameOutcome hc hsame⟩
  · rw [hfalse] at hactive; cases hactive
  · rcases hreach with heq | hle
    · rw [heq]; exact h.appliedLsn
    · exact hle.trans hb.known
  · rcases hreach with heq | hreach
    · rw [heq] at hle; exact absurd hlt (not_lt.mpr hle)
    · have hmem := hb.contiguous.complete e he hm (hb.after.trans_lt hlt) (hle.trans hreach)
      obtain ⟨c, hc, d, hd, hsame⟩ := happ.copied _ hmem
      exact ⟨c, hc, d, hd, hsame⟩

/-! ## Runs -/

theorem World.onSource_cases {α : Type} (w : World δ) (x : Tx Thrown (Cdb δ) α) (reply : α → Reply) :
    (∃ a s, x.Returns w.source a s ∧
      w.onSource x reply = { w with source := s, replies := reply a :: w.replies }) ∨
    ∃ e s, x.Throws w.source e s ∧ w.onSource x reply = { w with source := s } := by
  unfold World.onSource Tx.Returns Tx.Throws
  rcases x w.source with ⟨e | a, s⟩
  · exact .inr ⟨e, s, rfl, rfl⟩
  · exact .inl ⟨a, s, rfl, rfl⟩

theorem World.onDest_cases {α : Type} (w : World δ) (x : Tx Thrown (Cdb δ) α) (reply : α → Reply) :
    (∃ a s, x.Returns w.dest a s ∧
      w.onDest x reply = { w with dest := s, replies := reply a :: w.replies }) ∨
    ∃ e s, x.Throws w.dest e s ∧ w.onDest x reply = { w with dest := s } := by
  unfold World.onDest Tx.Returns Tx.Throws
  rcases x w.dest with ⟨e | a, s⟩
  · exact .inr ⟨e, s, rfl, rfl⟩
  · exact .inl ⟨a, s, rfl, rfl⟩

/-- A step that touches neither shard keeps the invariant when all it puts on its way is good. -/
theorem Inv.control (h : Inv m codec ν w) {cursor : Int} {fenced : Bool} {runs : List Run}
    {sent : List Call} {replies : List Reply}
    (hcursor : cursor ≤ w.dest.domain.split.appliedLsn m.migId)
    (hruns : ∀ run ∈ runs, GoodRun m w.dest run)
    (hsent : ∀ call ∈ sent, GoodCall m ν w.source w.dest call)
    (hreplies : ∀ reply ∈ replies, GoodReply m ν w.source w.dest reply) :
    Inv m codec ν ⟨w.source, w.dest, fenced, cursor, runs, sent, replies⟩ :=
  ⟨h.source, h.covered, h.copies, h.destActive, h.applied, h.appliedLsn, hcursor, hsent, hreplies,
    hruns⟩

theorem Inv.reply {reply : Reply} (h : Inv m codec ν w) (hr : GoodReply m ν w.source w.dest reply) :
    Inv m codec ν { w with replies := reply :: w.replies } :=
  h.control h.cursor h.runs h.sent (List.forall_mem_cons.mpr ⟨hr, h.replies⟩)

theorem Inv.send (h : Inv m codec ν w) (call : Call) (hc : GoodCall m ν w.source w.dest call) :
    Inv m codec ν (w.send call) :=
  h.control h.cursor h.runs (List.forall_mem_cons.mpr ⟨hc, h.sent⟩) h.replies

theorem Inv.setRun (h : Inv m codec ν w) (i : Nat) (run : Run) (hr : GoodRun m w.dest run) :
    Inv m codec ν { w with runs := w.runs.set i run } := by
  refine h.control h.cursor (fun run' hrun => ?_) h.sent h.replies
  rcases List.mem_or_eq_of_mem_set hrun with hold | rfl
  · exact h.runs run' hold
  · exact hr

theorem Inv.addRun (h : Inv m codec ν w) (run : Run) (hr : GoodRun m w.dest run) :
    Inv m codec ν { w with runs := w.runs ++ [run] } := by
  refine h.control h.cursor (fun run' hrun => ?_) h.sent h.replies
  rcases List.mem_append.mp hrun with hold | hnew
  · exact h.runs run' hold
  · rw [List.mem_singleton.mp hnew]; exact hr

/-- A read leaves a batch that is good for the cursor it started from. -/
theorem goodBatch_of_read {afterLsn : Int} {b : SplitOpLogBatch} (h : Inv m codec ν w)
    (hle : afterLsn ≤ w.dest.domain.split.appliedLsn m.migId)
    (hb : ReadsBatch m.migId w.source.domain.split afterLsn b) :
    GoodBatch m ν w.source w.dest afterLsn b.entries b.lastLsn := by
  refine ⟨hle, ?_, hb.contiguous, fun e he => ?_⟩
  · by_cases hempty : b.entries = []
    · rw [hb.empty hempty]; exact hle.trans h.appliedLsn
    · obtain ⟨e, he, hlast⟩ := hb.last hempty
      obtain ⟨r, hr, -, hlsn, -⟩ := hb.waiting e he
      rw [← hlast, ← hlsn]
      exact h.source.lsns r hr
  · obtain ⟨r, hr, hm, -, hrow⟩ := hb.waiting e he
    rw [← hrow]
    exact h.source.waiting r hr hm

theorem Inv.deliver {call : Call} {nowMs : Nat} (h : Inv m codec ν w)
    (hcall : GoodCall m ν w.source w.dest call) :
    Inv m codec ν (w.deliver ν m call nowMs) ∧ RowStep m w (w.deliver ν m call nowMs) := by
  cases call with
  | ack throughLsn =>
    rcases w.onSource_cases (ackCall m throughLsn nowMs) fun _ => .acked throughLsn
      with ⟨u, s, hr, heq⟩ | ⟨e, s, hr, heq⟩
    · rw [World.deliver, heq]
      exact ⟨(ackCall_source h hcall hr).reply trivial, .of_eq rfl (ackCall_opLog hr) rfl⟩
    · obtain rfl := Tx.atomic_transactionSync _ hr
      rw [World.deliver, heq]; exact ⟨h, .of_eq rfl rfl rfl⟩
  | read afterLsn =>
    rcases w.onSource_cases (readCall ν m afterLsn nowMs) (.batch afterLsn)
      with ⟨b, s, hr, heq⟩ | ⟨e, s, hr, heq⟩
    · rw [World.deliver, heq]
      obtain ⟨hinv, hlog, hb⟩ := readCall_source h hr
      exact ⟨hinv.reply (goodBatch_of_read hinv hcall hb), .of_eq rfl hlog rfl⟩
    · obtain rfl := Tx.atomic_transactionSync _ hr
      rw [World.deliver, heq]; exact ⟨h, .of_eq rfl rfl rfl⟩
  | apply entries =>
    obtain ⟨afterLsn, lastLsn, hb⟩ := hcall
    rcases w.onDest_cases (applyCall ν m entries nowMs) (.applied entries)
      with ⟨res, s, hr, heq⟩ | ⟨e, s, hr, heq⟩
    · rw [World.deliver, heq]
      obtain ⟨hinv, hres, hkept⟩ := applyCall_dest h hb hr
      exact ⟨hinv.reply hres, id, fun _ _ hr _ => hr, hkept⟩
    · obtain rfl := Tx.atomic_transactionSync _ hr
      rw [World.deliver, heq]; exact ⟨h, .of_eq rfl rfl rfl⟩

theorem Inv.start (h : Inv m codec ν w) : Inv m codec ν w.start := by
  unfold World.start
  split
  · exact (h.send (.ack w.cursor) h.cursor).addRun (.acking w.cursor) h.cursor
  · exact (h.send (.read w.cursor) h.cursor).addRun (.reading w.cursor 0) h.cursor

theorem Inv.persistOpLogCursor {sourceLsn : Int} (h : Inv m codec ν w)
    (hle : sourceLsn ≤ w.dest.domain.split.appliedLsn m.migId) :
    Inv m codec ν (w.persistOpLogCursor sourceLsn) := by
  unfold World.persistOpLogCursor
  split
  · exact h
  · exact h.control hle h.runs h.sent h.replies

theorem Inv.resume {i : Nat} {run : Run} {reply : Reply} (h : Inv m codec ν w)
    (hrun : GoodRun m w.dest run) (hreply : GoodReply m ν w.source w.dest reply) :
    Inv m codec ν (w.resume i run reply) := by
  unfold World.resume
  split
  · rename_i cursor _
    split
    · exact (h.send (.read cursor) hrun).setRun i (.reading cursor 0) hrun
    · exact h
  · rename_i cursor iteration afterLsn b
    split
    · exact h
    · split
      · exact (h.send (.apply b.entries) ⟨_, _, hreply⟩).setRun i (.applying cursor b) trivial
      · split
        · exact (h.send (.read cursor) hrun).setRun i (.reading cursor 1) hrun
        · exact h.setRun i .ended trivial
  · rename_i cursor b entries result
    split
    · exact h
    · split
      · exact h.setRun i .ended trivial
      · rename_i hlast
        exact (h.setRun i .ended trivial).persistOpLogCursor ((not_not.mp hlast).symm.le.trans hreply)
  · exact h

theorem World.resume_shards (w : World δ) (i : Nat) (run : Run) (reply : Reply) :
    (w.resume i run reply).source = w.source ∧ (w.resume i run reply).dest = w.dest ∧
      (w.resume i run reply).fenced = w.fenced := by
  unfold World.resume World.persistOpLogCursor
  repeat' split
  all_goals exact ⟨rfl, rfl, rfl⟩

variable (sha256) in
/-- One step keeps the invariant, and the rows. -/
theorem Inv.step (h : Inv m codec ν w) (action : Action δ ν) :
    Inv m codec ν (w.step sha256 codec m action) ∧ RowStep m w (w.step sha256 codec m action) := by
  have keepsSource {α : Type} (x : Tx Thrown (Cdb δ) α)
      (hx : ∀ a s, (Tx.transactionSync x).Returns w.source a s →
        Inv m codec ν { w with source := s } ∧ RowStep m w { w with source := s }) :
      Inv m codec ν { w with source := (Tx.transactionSync x).after w.source } ∧
        RowStep m w { w with source := (Tx.transactionSync x).after w.source } := by
    rcases (Tx.transactionSync x).returns_or_throws w.source with ⟨a, hr⟩ | ⟨e, ht⟩
    · exact hx a _ hr
    · rw [Tx.atomic_transactionSync x ht]; exact ⟨h, .of_eq rfl rfl rfl⟩
  have keepsDest {α : Type} (x : Tx Thrown (Cdb δ) α)
      (hx : ∀ a s, (Tx.transactionSync x).Returns w.dest a s →
        Inv m codec ν { w with dest := s } ∧ RowStep m w { w with dest := s }) :
      Inv m codec ν { w with dest := (Tx.transactionSync x).after w.dest } ∧
        RowStep m w { w with dest := (Tx.transactionSync x).after w.dest } := by
    rcases (Tx.transactionSync x).returns_or_throws w.dest with ⟨a, hr⟩ | ⟨e, ht⟩
    · exact hx a _ hr
    · rw [Tx.atomic_transactionSync x ht]; exact ⟨h, .of_eq rfl rfl rfl⟩
  cases action with
  | mutate req =>
    exact keepsSource _ fun res s hr =>
      ⟨executeAtomicMutation_source h hr, executeAtomicMutation_rows hr⟩
  | maintainSource nowMs =>
    exact keepsSource _ fun res s hr =>
      ⟨maintain_source h hr, id, fun _ r hr' _ => (maintain_returns hr).2.2.1 r hr', fun _ hd => hd⟩
  | maintainDest nowMs => exact keepsDest _ fun res s hr => maintain_dest h hr
  | beginSource nowMs =>
    refine keepsSource _ fun u s hr => ⟨beginReshardSource_source h hr, .of_eq rfl ?_ rfl⟩
    obtain ⟨_, _, -, rfl, -⟩ := beginReshardSource_returns (Int.natCast_nonneg nowMs) h.source hr
    rfl
  | beginDest generation nowMs => exact keepsDest _ fun u s hr => beginReshardDest_dest h hr
  | activateFence =>
    exact ⟨h.control h.cursor h.runs h.sent h.replies, fun _ => rfl, fun _ _ hr _ => hr, fun _ hd => hd⟩
  | start =>
    refine ⟨h.start, ?_⟩
    rw [World.step, World.start]
    split
    · exact .of_eq rfl rfl rfl
    · exact .of_eq rfl rfl rfl
  | ackCursor =>
    rw [World.step]
    split
    · exact ⟨h.send (.ack w.cursor) h.cursor, .of_eq rfl rfl rfl⟩
    · exact ⟨h, .of_eq rfl rfl rfl⟩
  | deliver call nowMs =>
    rw [World.step]
    split
    · rename_i hsent; exact h.deliver (h.sent call hsent)
    · exact ⟨h, .of_eq rfl rfl rfl⟩
  | resume i reply =>
    rw [World.step]
    split
    · rename_i run hrun
      split
      · rename_i hreply
        obtain ⟨hsource, hdest, hfenced⟩ := w.resume_shards i run reply
        exact ⟨h.resume (h.runs run (List.mem_of_getElem? hrun)) (h.replies reply hreply),
          .of_eq hfenced (by rw [hsource]) (by rw [hdest])⟩
      · exact ⟨h, .of_eq rfl rfl rfl⟩
    · exact ⟨h, .of_eq rfl rfl rfl⟩
  | crash i => exact ⟨h.setRun i .ended trivial, .of_eq rfl rfl rfl⟩

theorem inv_init (source : FreshSource codec ν m δ) (domain : δ) :
    Inv m codec ν (World.init source domain) where
  source :=
    { finalised := source.finalised
      eventIds := source.eventIds
      lsns := source.lsns.2
      others := fun r hr _ => (source.idle r hr).1
      row := fun r hr => absurd (Table.find?_eq_some.mp hr).2
        (source.idle r (Table.find?_eq_some.mp hr).1).2
      begun := by
        have hnone : source.db.domain.split.splitState.find? m.migId = none :=
          Table.find?_eq_none.mpr fun r hr => (source.idle r hr).2
        show (source.db.domain.split.splitState.find? m.migId).isSome = _
        rw [hnone, SplitDb.seed?, World.init, source.noAccounting]; rfl
      waiting := fun e he hm => absurd hm (source.noEntries e he) }
  covered sd hsd := by
    rw [SplitDb.seed?, World.init, source.noAccounting] at hsd; cases hsd
  copies d hd := absurd hd Table.not_mem_empty
  destActive _ d := Table.not_mem_empty
  applied e he hm := absurd hm (source.noEntries e he)
  appliedLsn := source.lsns.1
  cursor := le_rfl
  sent _ hc := by cases hc
  replies _ hr := by cases hr
  runs _ hr := by cases hr

variable (sha256) in
theorem Inv.run (h : Inv m codec ν w) (actions : List (Action δ ν)) :
    Inv m codec ν (w.run sha256 codec m actions) := by
  induction actions generalizing w with
  | nil => exact h
  | cons action actions ih => exact ih (h.step sha256 action).1

/-! ## After the fence -/

/-- Every row of the range is at the destination. -/
def Complete (m : Move) (w : World δ) : Prop :=
  ∀ r ∈ w.source.opLog.rows, m.covers r.placementVshard = true →
    ∃ d ∈ w.dest.opLog.rows, SameOutcome r d

theorem Complete.rowStep {w' : World δ} (h : Complete m w) (hfenced : w.fenced = true)
    (hs : RowStep m w w') : Complete m w' := by
  intro r hr hc
  obtain ⟨d, hd, hsame⟩ := h r (hs.source hfenced r hr hc) hc
  exact ⟨d, hs.dest d hd, hsame⟩

theorem Complete.run (h : Complete m w) (hinv : Inv m codec ν w) (hfenced : w.fenced = true)
    (actions : List (Action δ ν)) : Complete m (w.run sha256 codec m actions) := by
  induction actions generalizing w with
  | nil => exact h
  | cons action actions ih =>
    obtain ⟨hinv', hrows⟩ := hinv.step sha256 action
    exact ih (h.rowStep hfenced hrows) hinv' (hrows.fenced hfenced)

/-- A read that finds nothing left: the copy is complete. -/
theorem complete_of_read {afterLsn : Int} {b : SplitOpLogBatch} (h : Inv m codec ν w)
    (hle : afterLsn ≤ w.dest.domain.split.appliedLsn m.migId)
    (hb : ReadsBatch m.migId w.source.domain.split afterLsn b) (hempty : b.entries = [])
    (hdone : b.done = true) : Complete m w := by
  intro r hr hc
  obtain ⟨hnone, sd, hsd, hseeded⟩ := hb.done hdone
  rcases h.covered sd hsd r hr hc with hp | ⟨_, henc, e, he, hm, rfl⟩ | hcopied
  · have := hp.1
    rw [hseeded] at this; cases this
  · have hlsn := hnone e he hm
    rw [hb.empty hempty] at hlsn
    exact henc.copied (h.applied e he hm (hlsn.trans hle))
  · exact hcopied

/-- What the destination is after the move: its op-log has the rows of the range, field by field,
and no others, and answers a repeated request with the envelope that the source stored. -/
structure LedgerMoved (sha256 : ByteArray → ByteArray) (codec : PayloadCodec) (m : Move) (ν : Type)
    [JsNumber ν] (w : World δ) : Prop where
  present : ∀ r ∈ w.source.opLog.rows, m.covers r.placementVshard = true →
    ∃ d ∈ w.dest.opLog.rows, SameOutcome r d
  only : ∀ d ∈ w.dest.opLog.rows, ∃ r ∈ w.source.opLog.rows, m.covers r.placementVshard = true ∧
    SameOutcome r d
  replays : ∀ r ∈ w.source.opLog.rows, m.covers r.placementVshard = true →
    ∀ args : RunWrappedMutationArgs (CdbRest δ) ν, args.key = r.key →
      requestHash sha256 args.canonicalRequest = r.payloadHash →
      ∃ env, IsEnvelope env ∧ r.payloadEnc = sealEnvelope codec env ∧
        (exec sha256 codec args).Returns w.dest ⟨false, env⟩ w.dest

theorem Inv.ledgerMoved (h : Inv m codec ν w) (hcomplete : Complete m w) :
    LedgerMoved sha256 codec m ν w where
  present := hcomplete
  only d hd := by
    obtain ⟨r, hr, hsame⟩ := h.copies d hd
    exact ⟨r, hr.mem, hr.covers, hsame⟩
  replays r hr hc args hkey hhash := by
    obtain ⟨⟨env, henv, henc⟩, -⟩ := h.source.finalised r hr
    obtain ⟨d, hd, hsame⟩ := hcomplete r hr hc
    refine ⟨env, henv, henc, Stored.replays ⟨henv, d, ?_, ?_, ?_⟩⟩
    · rw [hkey, Table.find?_eq_some]
      exact ⟨hd, by rw [hsame]; rfl⟩
    · rw [hsame]; exact hhash.symm
    · rw [hsame]; exact henc

/-- A read that the Resharder has sent is delivered after the fence and finds nothing left. -/
structure ReadsNothingLeft (ν : Type) [JsNumber ν] (m : Move) (w : World δ) (afterLsn : Int)
    (nowMs : Nat) : Prop where
  fenced : w.fenced = true
  sent : Call.read afterLsn ∈ w.sent
  answer : ∃ b s, (readCall ν m afterLsn nowMs).Returns w.source b s ∧ b.entries = [] ∧ b.done = true

theorem complete_after_read {afterLsn : Int} {nowMs : Nat} (h : Inv m codec ν w)
    (hread : ReadsNothingLeft ν m w afterLsn nowMs) :
    Complete m (w.step sha256 codec m (.deliver (.read afterLsn) nowMs : Action δ ν)) := by
  obtain ⟨b, s, hr, hempty, hdone⟩ := hread.answer
  obtain ⟨hinv, -, hb⟩ := readCall_source h hr
  rw [World.step, if_pos hread.sent, World.deliver]
  rcases w.onSource_cases (readCall ν m afterLsn nowMs) (.batch afterLsn)
    with ⟨b', s', hr', heq⟩ | ⟨e, s', hr', -⟩
  · obtain ⟨rfl, rfl⟩ := hr.unique hr'
    rw [heq]
    have hcomplete : Complete m { w with source := s } :=
      complete_of_read hinv (h.sent _ hread.sent) hb hempty hdone
    exact hcomplete
  · exact absurd hr' hr.not_throws

/-- Once a read after the fence finds nothing left the ledger has moved, now and from then on. -/
def ReplayLedgerMoves (sha256 : ByteArray → ByteArray) (codec : PayloadCodec) (m : Move)
    (w : World δ) (actions : List (Action δ ν)) : Prop :=
  ∀ before after afterLsn nowMs, actions = before ++ .deliver (.read afterLsn) nowMs :: after →
    ReadsNothingLeft ν m (w.run sha256 codec m before) afterLsn nowMs →
    LedgerMoved sha256 codec m ν (w.run sha256 codec m actions)

end

/-- The replay ledger survives every run of a move. -/
theorem replay_ledger_moves (sha256 : ByteArray → ByteArray) (codec : PayloadCodec) (m : Move)
    (source : FreshSource codec ν m δ) (domain : δ) (actions : List (Action δ ν)) :
    ReplayLedgerMoves sha256 codec m (World.init source domain) actions := by
  rintro before after afterLsn nowMs rfl hread
  have hinit := inv_init source domain
  refine (hinit.run sha256 _).ledgerMoved ?_
  have hbefore := hinit.run sha256 before
  obtain ⟨hstep, hrows⟩ := hbefore.step sha256 (.deliver (.read afterLsn) nowMs : Action δ ν)
  rw [World.run, List.foldl_append, List.foldl_cons]
  exact (complete_after_read hbefore hread).run hstep (hrows.fenced hread.fenced) after

/-- A mutation outside the range, the begins, the fence and the first call of a replay. -/
def quietActions : List (Action Nat Int) :=
  [.mutate { countCall requestA with placementVshard := some 700, onWriteSet := pure (), captureMs := 1000 },
    .beginSource 1000, .beginDest 2 1000, .activateFence, .start]

def quietMove : Move := ⟨"move", 0, 100⟩

def quietSource : FreshSource IDENTITY_CODEC Int quietMove Nat := .empty _ _ 0

/-- The read of a quiet move finds nothing left. -/
example : ReadsNothingLeft Int quietMove
    ((World.init quietSource 0).run sampleSha256 IDENTITY_CODEC quietMove quietActions) 0 1000 :=
  ⟨by decide +kernel, by decide +kernel, ⟨[], 0, true⟩, _, by rfl, rfl, rfl⟩

end Chardb.OpLog
