import Chardb.Moves.LedgerEffects

/-!
# At most once, within a horizon

On a shard that takes part in moves, a mutation that has run runs again only after a cleanup that
came a day later, outside of any move: neither the outcomes that moves bring in nor the aborts that
take them out again touch its row.
-/

namespace Chardb.Moves

open Chardb.Lib Chardb.Reshard Chardb.OpLog

variable {δ : Type} {ν : Type} [JsNumber ν]

/-! ## Calls on a shard -/

variable (δ ν) in
/-- A call on a shard. -/
inductive ShardCall
  | mutate (m : Move) (fenced : Bool) (req : MutationRequest δ ν)
  | maintain (nowMs : Int)
  | beginSource (schema : CdbSchema) (identity : CdbReshardSplitIdentity) (nowMs : Int)
  | read (schema : CdbSchema) (migId : String) (afterLsn nowMs : Int)
  | ack (schema : CdbSchema) (migId : String) (throughLsn nowMs : Int)
  | finishSource (schema : CdbSchema) (identity : CdbReshardSplitIdentity) (nowMs : Int)
  | abortSource (schema : CdbSchema) (identity : CdbReshardSplitIdentity) (nowMs : Int)
  | prepareDest (identity : CdbReshardSplitIdentity) (generation nowMs : Int)
  | beginDest (schema : CdbSchema) (identity : CdbReshardSplitIdentity) (generation nowMs : Int)
  | apply (schema : CdbSchema) (migId : String) (lo hi : Int) (entries : List SplitOpLogEntry)
      (nowMs : Int)
  | activate (schema : CdbSchema) (identity : CdbReshardSplitIdentity) (admitted : Except Thrown Unit)
      (generation nowMs : Int)
  | startAbort (schema : CdbSchema) (identity : CdbReshardSplitIdentity) (generation nowMs : Int)
  | abortBatch (schema : CdbSchema) (identity : CdbReshardSplitIdentity)
      (page : Option (Tx Thrown δ Unit)) (nowMs : Int)
  | finishDest (schema : CdbSchema) (identity : CdbReshardSplitIdentity) (nowMs : Int)

section
variable (sha256 : ByteArray → ByteArray) (codec : PayloadCodec)

def ShardDb.step (db : ShardDb δ) : ShardCall δ ν → ShardDb δ
  | .mutate m fenced req => (onCdb (executeAtomicMutation sha256 codec m fenced req)).after db
  | .maintain nowMs => (onCdb (OpLog.maintain nowMs)).after db
  | .beginSource schema identity nowMs => (Moves.beginReshardSource schema identity nowMs).after db
  | .read schema migId afterLsn nowMs =>
    (Moves.readSplitOpLogBatch schema ν migId afterLsn nowMs).after db
  | .ack schema migId throughLsn nowMs => (Moves.ackSplitOpLog schema migId throughLsn nowMs).after db
  | .finishSource schema identity nowMs => (finishReshardSource schema identity nowMs).after db
  | .abortSource schema identity nowMs => (abortReshardSource schema identity nowMs).after db
  | .prepareDest identity generation nowMs =>
    (prepareReshardDestOwnership identity generation nowMs).after db
  | .beginDest schema identity generation nowMs =>
    (Moves.beginReshardDest schema identity generation nowMs).after db
  | .apply schema migId lo hi entries nowMs =>
    (Moves.applySplitOpLogBatch schema ν migId lo hi entries nowMs).after db
  | .activate schema identity admitted generation nowMs =>
    (activateReshardDestServing schema identity admitted generation nowMs).after db
  | .startAbort schema identity generation nowMs =>
    (beginReshardDestAbort schema identity generation nowMs).after db
  | .abortBatch schema identity page nowMs =>
    (abortReshardDestBatch schema identity page nowMs).after db
  | .finishDest schema identity nowMs => (finishReshardDest schema identity nowMs).after db

def ShardDb.run (db : ShardDb δ) (calls : List (ShardCall δ ν)) : ShardDb δ :=
  calls.foldl (ShardDb.step sha256 codec) db

end

/-! ## Steps -/

section
variable {sha256 : ByteArray → ByteArray} {codec : PayloadCodec} {db db' : ShardDb δ}
  {schema : CdbSchema} {identity : CdbReshardSplitIdentity} {nowMs : Int}

/-- A call that throws changes nothing. -/
theorem keepsHeld_after {α : Type} {x : ShardTx δ α} (hx : x.Atomic) (h : Sound db)
    (hr : ∀ a db', x.Returns db a db' → KeepsHeld db db') : KeepsHeld db (x.after db) := by
  rcases x.returns_or_throws db with ⟨a, hret⟩ | ⟨e, hthrow⟩
  · exact hr a _ hret
  · rw [hx hthrow]
    exact (Grows.refl db).keepsHeld h

theorem grows_after {α : Type} {x : ShardTx δ α} (hx : x.Atomic) (h : Sound db)
    (hr : ∀ a db', x.Returns db a db' → Grows db db') : KeepsHeld db (x.after db) :=
  keepsHeld_after hx h fun a db' hret => (hr a db' hret).keepsHeld h

theorem atomic_onCdb {α : Type} {x : Tx Thrown (Cdb δ) α} (hx : x.Atomic) :
    (onCdb x : ShardTx δ α).Atomic := by
  intro db e db' h
  obtain ⟨cdb, hthrow, rfl⟩ := Tx.zoom_throws.mp h
  rw [hx hthrow]

/-- A movement call that goes through is for a migration that is bound. -/
theorem assertReshardMovement_bound {c c' : SplitControl} {args : MovementArgs}
    {stored : StoredSplitIdentity}
    (h : (Reshard.assertReshardMovement schema args).Returns c stored c') :
    (c.identities.find? args.migId).isSome = true := by
  unfold Reshard.assertReshardMovement at h
  simp only [Tx.bind_returns] at h
  obtain ⟨_, _, hid, -⟩ := h
  obtain ⟨ids, hid, -⟩ := onIdentities_returns.mp hid
  simp only [assertMovement, Tx.bind_returns, Tx.gets_returns, Tx.ofOption_returns] at hid
  obtain ⟨_, _, ⟨rfl, rfl⟩, found, _, ⟨hfound, rfl⟩, -⟩ := hid
  rw [hfound]
  rfl

theorem applySplitOpLogBatch_keepsHeld {migId : String} {lo hi : Int} {entries : List SplitOpLogEntry}
    {res : SplitOpLogApplyResult} (hs : Sound db)
    (h : (Moves.applySplitOpLogBatch schema ν migId lo hi entries nowMs).Returns db res db') :
    KeepsHeld db db' := by
  simp only [Moves.applySplitOpLogBatch, Tx.transactionSync_returns, Tx.bind_returns] at h
  obtain ⟨stored, _, hmove, h⟩ := h
  obtain rfl := grows_onControl_readOnly readOnly_assertReshardMovement hmove
  obtain ⟨c, hcheck, -⟩ := Tx.zoom_returns.mp hmove
  have hbound := assertReshardMovement_bound hcheck
  obtain ⟨-, row, hrow, hrole, hdrained, -⟩ := Reshard.assertReshardMovement_returns hcheck
  obtain ⟨cdb, hcdb, rfl⟩ := Tx.zoom_returns.mp h
  have hes := applySplitOpLogBatch_effect hcdb
  refine ⟨⟨hes.inserted hs.inserted, fun a ha => ?_⟩, hes.held⟩
  rcases hes.mem a ha with ha | hmig
  · obtain ⟨hmoves, hknown⟩ := hs.receiving a ha
    exact ⟨show Receives cdb.domain.split.splitState _ from hes.splitState ▸ hmoves, hknown⟩
  · rw [hmig]
    exact ⟨show Receives cdb.domain.split.splitState migId from
      hes.splitState ▸ ⟨row, hrow, hrole, hdrained⟩, hbound⟩

/-- What a batch of an abort does: nothing, once the move is over; a page of another table; or the end
of the destination. -/
theorem abortReshardDestBatch_returns {page : Option (Tx Thrown δ Unit)} {done : Bool}
    (h : (abortReshardDestBatch schema identity page nowMs).Returns db done db') :
    (db' = db ∧ ∃ r, db.control.splits.find? identity.migId = some r ∧ r.drained = true) ∨
    (∃ p u, page = some p ∧ (onCdb (onDomain (onTables p)) : ShardTx δ Unit).Returns db u db') ∨
    (∃ f u, (clearDest identity true f).Returns db u db' ∧
      ∀ r : SplitStateRow, (f r).migId = r.migId) := by
  simp only [abortReshardDestBatch, Tx.transactionSync_returns, Tx.bind_returns,
    Tx.ofOption_returns] at h
  obtain ⟨_, _, hbound, found, _, hread, state, _, ⟨hstate, rfl⟩, h⟩ := h
  obtain rfl := grows_onControl_readOnly (readOnly_onIdentities readOnly_assertCleanupIfBound) hbound
  obtain ⟨rfl, hfound, -⟩ := readExact_onControl hread
  split at h
  · rename_i hdrained
    exact .inl ⟨(Tx.pure_returns.mp h).2.symm, state, hfound.symm.trans hstate, hdrained⟩
  · simp only [Tx.bind_returns, Tx.require_returns] at h
    obtain ⟨_, _, ⟨-, rfl⟩, h⟩ := h
    cases page with
    | some page =>
      simp only [Tx.bind_returns, Tx.pure_returns] at h
      obtain ⟨u, _, hpage, -, rfl⟩ := h
      exact .inr (.inl ⟨page, u, rfl, hpage⟩)
    | none =>
      simp only [Tx.bind_returns, Tx.pure_returns] at h
      obtain ⟨u, _, hclear, -, rfl⟩ := h
      exact .inr (.inr ⟨_, u, hclear, fun _ => rfl⟩)

theorem abortReshardDestBatch_keepsHeld {page : Option (Tx Thrown δ Unit)} {done : Bool}
    (hs : Sound db) (h : (abortReshardDestBatch schema identity page nowMs).Returns db done db') :
    KeepsHeld db db' := by
  rcases abortReshardDestBatch_returns h with ⟨rfl, -⟩ | ⟨p, u, -, hpage⟩ | ⟨f, u, hclear, hf⟩
  · exact (Grows.refl _).keepsHeld hs
  · obtain ⟨cdb, hdomain, rfl⟩ := Tx.zoom_returns.mp hpage
    obtain ⟨rest, hrest, rfl⟩ := Tx.zoom_returns.mp hdomain
    have hsplit := onTables_returns hrest
    refine Grows.keepsHeld (grows_splitState rfl ?_ fun k hk => ?_) hs
    · exact congrArg SplitDb.applied hsplit
    · show Receives rest.split.splitState k
      rw [hsplit]
      exact hk
  · exact clearDest_effect hs hclear hf

theorem finishReshardDest_returns {u : Unit}
    (h : (finishReshardDest schema identity nowMs).Returns db u db') :
    ∃ f, (clearDest identity false f).Returns db u db' ∧
      ∀ r : SplitStateRow, (f r).migId = r.migId := by
  simp only [finishReshardDest, Tx.transactionSync_returns, Tx.bind_returns, Tx.ofOption_returns,
    Tx.require_returns] at h
  obtain ⟨_, _, hbound, found, _, hread, state, _, ⟨-, rfl⟩, _, _, ⟨-, rfl⟩, _, _, ⟨-, rfl⟩, h⟩ := h
  obtain rfl := grows_onControl_readOnly (readOnly_onIdentities readOnly_assertCleanupIfBound) hbound
  obtain ⟨rfl, -⟩ := readExact_onControl hread
  exact ⟨_, h, fun _ => rfl⟩

theorem finishReshardDest_keepsHeld {u : Unit} (hs : Sound db)
    (h : (finishReshardDest schema identity nowMs).Returns db u db') : KeepsHeld db db' := by
  obtain ⟨f, hclear, hf⟩ := finishReshardDest_returns h
  exact clearDest_effect hs hclear hf

theorem atomic_prepare {generation : Int} :
    (prepareReshardDestOwnership identity generation nowMs : ShardTx δ DestOwnership).Atomic :=
  readOnly_assertCdbReshardRangeIdentity.bind_atomic fun _ =>
    (Tx.readOnly_require _ _).bind_atomic fun _ => Tx.atomic_transactionSync _

theorem atomic_startAbort {generation : Int} :
    (beginReshardDestAbort schema identity generation nowMs : ShardTx δ Bool).Atomic :=
  readOnly_assertCdbReshardRangeIdentity.bind_atomic fun _ =>
    (Tx.readOnly_require _ _).bind_atomic fun _ => Tx.atomic_transactionSync _

/-- The call is a maintenance. -/
def ShardCall.IsMaintain (call : ShardCall δ ν) : Prop := ∃ nowMs, call = .maintain nowMs

/-- Every call but a maintenance keeps what is held. -/
theorem step_keepsHeld (hs : Sound db) (call : ShardCall δ ν) (hcall : ¬ call.IsMaintain) :
    KeepsHeld db (db.step sha256 codec call) := by
  cases call with
  | mutate m fenced req =>
    refine grows_after (atomic_onCdb (Tx.atomic_transactionSync _)) hs fun res db' h => ?_
    obtain ⟨cdb, hcdb, rfl⟩ := Tx.zoom_returns.mp h
    exact executeAtomicMutation_grows hcdb
  | maintain nowMs => exact absurd ⟨nowMs, rfl⟩ hcall
  | beginSource => exact grows_after (Tx.atomic_transactionSync _) hs fun _ _ => beginReshardSource_grows
  | read => exact grows_after (Tx.atomic_transactionSync _) hs fun _ _ => readSplitOpLogBatch_grows
  | ack => exact grows_after (Tx.atomic_transactionSync _) hs fun _ _ => ackSplitOpLog_grows
  | finishSource =>
    exact grows_after (Tx.atomic_transactionSync _) hs fun _ _ => finishReshardSource_grows
  | abortSource => exact grows_after (Tx.atomic_transactionSync _) hs fun _ _ => abortReshardSource_grows
  | prepareDest => exact grows_after atomic_prepare hs fun _ _ => prepareReshardDestOwnership_grows
  | beginDest => exact grows_after (Tx.atomic_transactionSync _) hs fun _ _ => beginReshardDest_grows
  | apply =>
    exact keepsHeld_after (Tx.atomic_transactionSync _) hs fun _ _ => applySplitOpLogBatch_keepsHeld hs
  | activate =>
    exact grows_after (Tx.atomic_transactionSync _) hs fun _ _ => activateReshardDestServing_grows
  | startAbort => exact grows_after atomic_startAbort hs fun _ _ => beginReshardDestAbort_grows
  | abortBatch =>
    exact keepsHeld_after (Tx.atomic_transactionSync _) hs fun _ _ => abortReshardDestBatch_keepsHeld hs
  | finishDest =>
    exact keepsHeld_after (Tx.atomic_transactionSync _) hs fun _ _ => finishReshardDest_keepsHeld hs

/-- A maintenance of a shard that takes part in no move ends rows of a day ago. -/
theorem maintain_step (hs : Sound db) :
    Sound (db.step sha256 codec (.maintain nowMs : ShardCall δ ν)) ∧ ∀ key r, Held key r db.cdb →
      Held key r (db.step sha256 codec (.maintain nowMs : ShardCall δ ν)).cdb ∨
        (r.committedAt + CDB_OPLOG_RETENTION_MS ≤ nowMs ∧
          hasActiveSplit db.cdb.domain.split = false) := by
  have hatomic : (onCdb (OpLog.maintain nowMs) : ShardTx δ CdbOpLogRetentionResult).Atomic :=
    atomic_onCdb (Tx.atomic_transactionSync _)
  show Sound ((onCdb (OpLog.maintain nowMs)).after db) ∧ ∀ key r, Held key r db.cdb →
    Held key r ((onCdb (OpLog.maintain nowMs)).after db).cdb ∨ _
  rcases (onCdb (OpLog.maintain nowMs)).returns_or_throws db with ⟨res, h⟩ | ⟨e, h⟩
  · obtain ⟨cdb, hcdb, heq⟩ := Tx.zoom_returns.mp h
    rw [heq]
    have hm := maintain_maintains hcdb
    exact ⟨hs.maintains hm, fun key r hr => hr.maintains hm⟩
  · rw [hatomic h]
    exact ⟨hs, fun key r hr => .inl hr⟩

theorem Sound.step (hs : Sound db) (call : ShardCall δ ν) : Sound (db.step sha256 codec call) := by
  by_cases hcall : call.IsMaintain
  · obtain ⟨nowMs, rfl⟩ := hcall
    exact (maintain_step hs).1
  · exact (step_keepsHeld hs call hcall).sound

/-! ## Runs -/

theorem run_append (db : ShardDb δ) (xs ys : List (ShardCall δ ν)) :
    db.run sha256 codec (xs ++ ys) = (db.run sha256 codec xs).run sha256 codec ys :=
  List.foldl_append

theorem Sound.run (hs : Sound db) (calls : List (ShardCall δ ν)) :
    Sound (db.run sha256 codec calls) := by
  induction calls generalizing db with
  | nil => exact hs
  | cons call calls ih => exact ih (hs.step call)

theorem sound_empty (domain : δ) : Sound (ShardDb.empty domain) :=
  ⟨⟨fun _ h => absurd h Table.not_mem_empty, fun _ h => absurd h Table.not_mem_empty⟩,
    fun _ h => absurd h Table.not_mem_empty⟩

variable (sha256 codec) in
/-- The calls have a maintenance a day after the time, outside of any move. -/
def Cleaned (db : ShardDb δ) (committedAt : Int) (calls : List (ShardCall δ ν)) : Prop :=
  ∃ pre nowMs post, calls = pre ++ .maintain nowMs :: post ∧
    committedAt + CDB_OPLOG_RETENTION_MS ≤ nowMs ∧
    hasActiveSplit (db.run sha256 codec pre).cdb.domain.split = false

/-- What is held outlives every call but such a maintenance. -/
theorem Held.run {key : String × String} {r : OpLogRow} (hs : Sound db) (h : Held key r db.cdb)
    (calls : List (ShardCall δ ν)) :
    Held key r (db.run sha256 codec calls).cdb ∨ Cleaned sha256 codec db r.committedAt calls := by
  induction calls generalizing db with
  | nil => exact .inl h
  | cons call calls ih =>
    have hstep : Held key r (db.step sha256 codec call).cdb ∨
        Cleaned sha256 codec db r.committedAt (call :: calls) := by
      by_cases hcall : call.IsMaintain
      · obtain ⟨nowMs, rfl⟩ := hcall
        exact ((maintain_step hs).2 key r h).imp_right fun hend => ⟨[], nowMs, calls, rfl, hend⟩
      · exact .inl ((step_keepsHeld hs call hcall).held key r h)
    rcases hstep with hstep | hend
    · rcases ih (hs.step call) hstep with hheld | ⟨pre, nowMs, post, rfl, hend⟩
      · exact .inl hheld
      · exact .inr ⟨call :: pre, nowMs, post, rfl, hend⟩
    · exact .inr hend

end

/-! ## Mutations within the horizon -/

/-- A shard after some calls. -/
def afterCalls (sha256 : ByteArray → ByteArray) (codec : PayloadCodec) (domain : δ)
    (calls : List (ShardCall δ ν)) : ShardDb δ :=
  (ShardDb.empty domain).run sha256 codec calls

/-- A call of a run, made after the calls `before`, that ran its handler. -/
structure RanIn (sha256 : ByteArray → ByteArray) (codec : PayloadCodec) (domain : δ)
    (before : List (ShardCall δ ν)) (m : Move) (fenced : Bool) (req : MutationRequest δ ν)
    (env : Json ν) : Prop where
  returns : ∃ cdb, (executeAtomicMutation sha256 codec m fenced req).Returns
    (afterCalls sha256 codec domain before).cdb ⟨true, env⟩ cdb

/-- What any run of a shard promises. `c` is a mutation that ran, made after the calls `before`; `d` is
a later one under its ids, with the calls `between` in between. -/
structure MutationsWithinHorizon (sha256 : ByteArray → ByteArray) (codec : PayloadCodec) (domain : δ)
    (calls : List (ShardCall δ ν)) : Prop where
  /-- When it runs again, a cleanup came a day after it, while the shard took part in no move. -/
  reran : ∀ before between after m fenced c n fenced' d env env',
    calls = before ++ .mutate m fenced c :: between ++ .mutate n fenced' d :: after →
    RanIn sha256 codec domain before m fenced c env → d.key = c.key →
    RanIn sha256 codec domain (before ++ .mutate m fenced c :: between) n fenced' d env' →
    Cleaned sha256 codec (afterCalls sha256 codec domain (before ++ [.mutate m fenced c])) c.nowMs between
  /-- Before that the same request gets its envelope back, and nothing changes. -/
  replays : ∀ before between after m fenced c n fenced' d env,
    calls = before ++ .mutate m fenced c :: between ++ .mutate n fenced' d :: after →
    RanIn sha256 codec domain before m fenced c env → d.key = c.key →
    ¬ Cleaned sha256 codec (afterCalls sha256 codec domain (before ++ [.mutate m fenced c])) c.nowMs
      between →
    ¬ (fenced' = true ∧ n.covers d.placementVshard = true) → d.canonicalRequest = c.canonicalRequest →
    (executeAtomicMutation sha256 codec n fenced' d).Returns
      (afterCalls sha256 codec domain (before ++ .mutate m fenced c :: between)).cdb ⟨false, env⟩
      (afterCalls sha256 codec domain (before ++ .mutate m fenced c :: between)).cdb
  /-- And another request is refused. -/
  collides : ∀ before between after m fenced c n fenced' d env,
    calls = before ++ .mutate m fenced c :: between ++ .mutate n fenced' d :: after →
    RanIn sha256 codec domain before m fenced c env → d.key = c.key →
    ¬ Cleaned sha256 codec (afterCalls sha256 codec domain (before ++ [.mutate m fenced c])) c.nowMs
      between →
    ¬ (fenced' = true ∧ n.covers d.placementVshard = true) →
    requestHash sha256 c.canonicalRequest ≠ requestHash sha256 d.canonicalRequest →
    (executeAtomicMutation sha256 codec n fenced' d).Throws
      (afterCalls sha256 codec domain (before ++ .mutate m fenced c :: between)).cdb
      (mutIdCollision d.mutId)
      (afterCalls sha256 codec domain (before ++ .mutate m fenced c :: between)).cdb
  /-- A cleanup takes the oldest rows of a day ago, a batch at a time, and none during a move. -/
  cleanups : ∀ before nowMs after res cdb, calls = before ++ .maintain nowMs :: after →
    (OpLog.maintain nowMs).Returns (afterCalls sha256 codec domain before).cdb res cdb →
    Maintains nowMs res (afterCalls sha256 codec domain before).cdb cdb

section
variable {sha256 : ByteArray → ByteArray} {codec : PayloadCodec} {domain : δ}
  {before between : List (ShardCall δ ν)} {m : Move} {fenced : Bool} {c : MutationRequest δ ν}
  {env : Json ν}

/-- The envelope of a mutation that ran is stored until such a cleanup. -/
theorem RanIn.stored (h : RanIn sha256 codec domain before m fenced c env) :
    Stored codec (afterCalls sha256 codec domain (before ++ .mutate m fenced c :: between)).cdb c.key
        (requestHash sha256 c.canonicalRequest) env ∨
      Cleaned sha256 codec (afterCalls sha256 codec domain (before ++ [.mutate m fenced c])) c.nowMs
        between := by
  obtain ⟨cdb, h⟩ := h.returns
  have hs : Sound (afterCalls sha256 codec domain before) := (sound_empty domain).run before
  obtain ⟨outcome, eventId, henv, hheld⟩ := executeAtomicMutation_held hs h
  have hafter : (afterCalls sha256 codec domain (before ++ [.mutate m fenced c])).cdb = cdb := by
    have hret : (onCdb (executeAtomicMutation sha256 codec m fenced c)).Returns
        (afterCalls sha256 codec domain before) ⟨true, env⟩
        { afterCalls sha256 codec domain before with cdb } := Tx.zoom_returns.mpr ⟨cdb, h, rfl⟩
    rw [afterCalls, run_append]
    show ((onCdb (executeAtomicMutation sha256 codec m fenced c)).after
      (afterCalls sha256 codec domain before)).cdb = cdb
    rw [hret.after]
  have hs' : Sound (afterCalls sha256 codec domain (before ++ [.mutate m fenced c])) :=
    (sound_empty domain).run _
  have hheld : Held c.key (finalRow sha256 codec c.onCdb outcome env eventId)
      (afterCalls sha256 codec domain (before ++ [.mutate m fenced c])).cdb := hafter ▸ hheld
  rw [List.append_cons, afterCalls, run_append]
  rcases hheld.run hs' between with hheld | hclean
  · exact .inl (Held.stored henv hheld)
  · exact .inr hclean

/-- What is stored does not run. -/
theorem Stored.not_ran {db : ShardDb δ} {cdb : Cdb δ} {hash : ByteArray} {env env' : Json ν}
    (h : Stored codec db.cdb c.key hash env)
    (hr : (executeAtomicMutation sha256 codec m fenced c).Returns db.cdb ⟨true, env'⟩ cdb) : False := by
  obtain ⟨mid, hexec, -⟩ := executeAtomicMutation_exec hr
  obtain ⟨-, row, hrow, -⟩ := h
  rcases exec_returns hexec with ⟨-, hfalse, -⟩ | ⟨-, hc⟩
  · cases hfalse
  · exact Option.some_ne_none _ (hrow.symm.trans hc.fresh)

end

/-- Every run of a shard that takes part in moves keeps its mutations at most once within the
horizon of retention. -/
theorem mutations_within_horizon (sha256 : ByteArray → ByteArray) (codec : PayloadCodec) (domain : δ)
    (calls : List (ShardCall δ ν)) : MutationsWithinHorizon sha256 codec domain calls where
  reran before between after m fenced c n fenced' d env env' _ hc hkey hd := by
    rcases hc.stored with hstored | hclean
    · rw [← hkey] at hstored
      obtain ⟨cdb, hd⟩ := hd.returns
      exact (Stored.not_ran hstored hd).elim
    · exact hclean
  replays before between after m fenced c n fenced' d env _ hc hkey hclean hadmitted hreq := by
    have hstored := hc.stored.resolve_right hclean
    rw [← hkey, ← hreq] at hstored
    exact executeAtomicMutation_replays hadmitted hstored.replays
  collides before between after m fenced c n fenced' d env _ hc hkey hclean hadmitted hreq := by
    have hstored := hc.stored.resolve_right hclean
    rw [← hkey] at hstored
    exact executeAtomicMutation_refuses hadmitted (hstored.collides d.onCdb hreq)
  cleanups before nowMs after res cdb _ h := maintain_maintains h

end Chardb.Moves
