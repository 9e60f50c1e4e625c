import Chardb.Moves.WithinHorizon
import Mathlib.Data.List.Induction

/-!
# Where the rows come from

Each row of the op-log of a shard is there for a reason: a mutation ran here, a move that still comes
in has inserted it, or a move that finished has. An aborted move leaves no row behind.
-/

namespace Chardb.Moves

open Chardb.Lib Chardb.Reshard Chardb.OpLog

variable {δ : Type} {ν : Type} [JsNumber ν]

/-! ## Calls that leave the ledger alone -/

def cdbLedger (cdb : Cdb δ) : Ledger × AppliedTable := (cdb.opLog, cdb.domain.split.applied)

def ledger (db : ShardDb δ) : Ledger × AppliedTable := cdbLedger db.cdb

section
variable {α σ γ : Type}

theorem frames_transactionSync {f : σ → γ} {x : Tx Thrown σ α} (hx : x.Frames f) :
    (Tx.transactionSync x).Frames f := by
  intro s
  rcases (Tx.transactionSync x).returns_or_throws s with ⟨a, h⟩ | ⟨e, h⟩
  · exact hx.returns (Tx.transactionSync_returns.mp h)
  · rw [(Tx.transactionSync_throws.mp h).1]

theorem frames_ledger_onControl (x : ControlTx α) : (onControl x : ShardTx δ α).Frames ledger :=
  .zoom fun _ _ => rfl

theorem frames_ledger_onCdb {x : Tx Thrown (Cdb δ) α} (hx : x.Frames cdbLedger) :
    (onCdb x).Frames ledger := by
  intro db
  rcases (onCdb x).returns_or_throws db with ⟨a, h⟩ | ⟨e, h⟩
  · obtain ⟨cdb, hcdb, heq⟩ := Tx.zoom_returns.mp h
    rw [heq]
    exact hx.returns hcdb
  · obtain ⟨cdb, hcdb, heq⟩ := Tx.zoom_throws.mp h
    rw [heq]
    exact hx.throws hcdb

theorem frames_ledger_onSplit {x : SplitTx α} (hx : x.Frames SplitDb.applied) :
    (OpLog.onSplit x : Tx Thrown (Cdb δ) α).Frames cdbLedger := by
  intro cdb
  rcases (OpLog.onSplit x).returns_or_throws cdb with ⟨a, h⟩ | ⟨e, h⟩
  · obtain ⟨s, hs, heq⟩ := Tx.zoom_returns.mp h
    rw [heq]
    exact congrArg (Prod.mk cdb.opLog) (hx.returns hs)
  · obtain ⟨s, hs, heq⟩ := Tx.zoom_throws.mp h
    rw [heq]
    exact congrArg (Prod.mk cdb.opLog) (hx.throws hs)

theorem frames_applied {x : SplitTx α} (hx : x.Frames splitAside) : x.Frames SplitDb.applied :=
  fun s => congrArg Prod.fst (hx s)

theorem frames_cdbLedger {x : Tx Thrown (Cdb δ) α} (hx : x.Frames aside) : x.Frames cdbLedger :=
  fun cdb => congrArg (fun p => (p.1, p.2.1)) (hx cdb)

end

section
variable {schema : CdbSchema} {identity : CdbReshardSplitIdentity} {generation nowMs : Int}

theorem frames_ledger_beginReshardSource :
    (Moves.beginReshardSource schema identity nowMs : ShardTx δ Unit).Frames ledger := by
  refine frames_transactionSync <| (frames_ledger_onControl _).bind fun _ =>
    (frames_ledger_onControl _).bind fun _ => frames_ledger_onCdb <| frames_transactionSync <|
      .bind (frames_ledger_onSplit (Tx.ReadOnly.frames ?_)) fun _ => (Tx.readOnly_gets _).frames.bind
        fun _ => (Tx.readOnly_require _ _).frames.bind fun _ =>
          .bind (frames_ledger_onSplit (.zoom fun _ _ => rfl)) fun _ =>
            .bind (frames_ledger_onSplit (Tx.ReadOnly.frames ?_)) fun state => ?_
  · exact (Tx.readOnly_gets _).bind fun _ => Tx.readOnly_require _ _
  · exact (Tx.readOnly_gets _).bind fun _ => Tx.readOnly_ofOption _ _
  · split
    · exact (Tx.readOnly_pure _).frames
    · exact .bind (frames_ledger_onSplit (.zoom fun _ _ => rfl)) fun _ =>
        frames_cdbLedger frames_seedSplitOpLogRange

theorem frames_ledger_beginReshardDest :
    (Moves.beginReshardDest schema identity generation nowMs : ShardTx δ Unit).Frames ledger := by
  refine frames_transactionSync <| (frames_ledger_onControl _).bind fun _ =>
    (frames_ledger_onControl _).bind fun _ => frames_ledger_onCdb <| frames_transactionSync <|
      frames_ledger_onSplit <| .bind (Tx.ReadOnly.frames ?_) fun _ =>
        .bind (.zoom fun _ _ => rfl) fun _ => .bind (Tx.ReadOnly.frames ?_) fun _ =>
          frames_applied frames_beginSplitOpLogDestination
  · exact (Tx.readOnly_gets _).bind fun _ => Tx.readOnly_require _ _
  · exact (Tx.readOnly_gets _).bind fun _ => Tx.readOnly_ofOption _ _

theorem frames_ledger_clearSource {state : SplitStateRow} :
    (clearSource identity state nowMs : ShardTx δ Unit).Frames ledger := by
  unfold clearSource
  split
  · exact (Tx.readOnly_pure _).frames
  · exact (frames_ledger_onControl _).bind fun _ => frames_ledger_onCdb <| frames_ledger_onSplit <|
      frames_applied frames_finalizeSplitOpLogSource

theorem frames_ledger_abortReshardSource :
    (abortReshardSource schema identity nowMs : ShardTx δ Unit).Frames ledger := by
  refine frames_transactionSync <| (frames_ledger_onControl _).bind fun _ =>
    (frames_ledger_onControl _).bind fun found => ?_
  cases found with
  | none => exact frames_ledger_onControl _
  | some state => exact frames_ledger_clearSource

end

/-- The calls that take rows in or out. -/
def ShardCall.WorksOnRows : ShardCall δ ν → Prop
  | .mutate .. | .maintain .. | .apply .. | .abortBatch .. | .finishDest .. => True
  | _ => False

theorem frames_ledger_step {sha256 : ByteArray → ByteArray} {codec : PayloadCodec} (db : ShardDb δ)
    (call : ShardCall δ ν) (hcall : ¬ call.WorksOnRows) :
    ledger (db.step sha256 codec call) = ledger db := by
  cases call with
  | mutate => exact absurd trivial hcall
  | maintain => exact absurd trivial hcall
  | apply => exact absurd trivial hcall
  | abortBatch => exact absurd trivial hcall
  | finishDest => exact absurd trivial hcall
  | beginSource => exact frames_ledger_beginReshardSource db
  | read =>
    exact frames_transactionSync ((frames_ledger_onControl _).bind fun _ =>
      frames_ledger_onCdb (frames_cdbLedger frames_readSplitOpLogBatch)) db
  | ack =>
    exact frames_transactionSync ((frames_ledger_onControl _).bind fun _ => frames_ledger_onCdb <|
      frames_ledger_onSplit (frames_applied frames_ackSplitOpLog)) db
  | finishSource =>
    exact frames_transactionSync ((frames_ledger_onControl _).bind fun _ =>
      (frames_ledger_onControl _).bind fun _ => (Tx.readOnly_ofOption _ _).frames.bind fun _ =>
        frames_ledger_clearSource) db
  | abortSource => exact frames_ledger_abortReshardSource db
  | prepareDest =>
    exact Tx.Frames.bind readOnly_assertCdbReshardRangeIdentity.frames (fun _ =>
      (Tx.readOnly_require _ _).frames.bind fun _ =>
        frames_transactionSync (frames_ledger_onControl _)) db
  | beginDest => exact frames_ledger_beginReshardDest db
  | activate => exact frames_transactionSync (frames_ledger_onControl _) db
  | startAbort =>
    exact Tx.Frames.bind readOnly_assertCdbReshardRangeIdentity.frames (fun _ =>
      (Tx.readOnly_require _ _).frames.bind fun _ =>
        frames_transactionSync (frames_ledger_onControl _)) db

/-! ## Calls that take rows in -/

/-- Rows that a call adds are recorded as inserted, and no record goes. -/
structure Brings (cdb cdb' : Cdb δ) : Prop where
  rows : ∀ key r', cdb'.opLog.rows.find? key = some r' → (∃ r, cdb.opLog.rows.find? key = some r) ∨
    ∃ a ∈ cdb'.domain.split.applied, a.inserted = true ∧ (a.principalId, a.mutId) = key
  applied : ∀ a ∈ cdb.domain.split.applied, a ∈ cdb'.domain.split.applied

section
variable {cdb cdb' cdb'' : Cdb δ} {migId : String}

theorem Brings.refl (cdb : Cdb δ) : Brings cdb cdb := ⟨fun _ r hr => .inl ⟨r, hr⟩, fun _ ha => ha⟩

theorem Brings.trans (h : Brings cdb cdb') (h' : Brings cdb' cdb'') : Brings cdb cdb'' := by
  refine ⟨fun key r hr => ?_, fun a ha => h'.applied a (h.applied a ha)⟩
  rcases h'.rows key r hr with ⟨r', hr'⟩ | hbrought
  · rcases h.rows key r' hr' with hold | ⟨a, ha, hins⟩
    · exact .inl hold
    · exact .inr ⟨a, h'.applied a ha, hins⟩
  · exact .inr hbrought

theorem brings_of_cdbLedger (h : cdbLedger cdb' = cdbLedger cdb) : Brings cdb cdb' := by
  have hlog : cdb'.opLog = cdb.opLog := congrArg Prod.fst h
  have happlied : cdb'.domain.split.applied = cdb.domain.split.applied := congrArg Prod.snd h
  refine ⟨fun key r hr => .inl ⟨r, by rw [← hlog]; exact hr⟩, fun a ha => by rw [happlied]; exact ha⟩

/-- The row of an entry is recorded with it. -/
theorem applyEntry_brings {row : CapturedOpLog} {inserted : Bool}
    (h : (applyEntry migId row).Returns cdb inserted cdb') : Brings cdb cdb' := by
  obtain ⟨changes, n, hins, hprior, ht, -⟩ := applyEntry_returns h
  have happlied : ∀ a ∈ cdb.domain.split.applied, a ∈ cdb'.domain.split.applied := fun a ha => by
    rcases Table.insertIgnore_returns.mp ht with ⟨-, hi⟩ | ⟨-, -, heq⟩
    · exact (Table.mem_insert hi).mpr (.inl ha)
    · rw [heq]
      exact ha
  refine ⟨fun key r hr => ?_, happlied⟩
  rcases insertOrIgnore_returns hins with ⟨-, heq, -⟩ | ⟨rfl, -, hrows⟩
  · exact .inl ⟨r, heq ▸ hr⟩
  · rw [Table.find?_insert hrows] at hr
    split at hr
    · rename_i hkey
      -- the entry was not applied before, so its record is new as well
      rcases Table.insertIgnore_returns.mp ht with ⟨-, hi⟩ | ⟨-, hi, -⟩
      · exact .inr ⟨_, (Table.mem_insert hi).mpr (.inr rfl), rfl, hkey⟩
      · have hfresh := Table.find?_eq_none.mp (hprior rfl)
        exact absurd ((congrArg Option.isSome hi).symm.trans
          (Table.insert?_isSome.mpr ⟨hfresh, trivial⟩)) Bool.false_ne_true
    · exact .inl ⟨r, hr⟩

theorem applyEntries_brings {decoded : List (Int × CapturedOpLog)} {n : Nat}
    (h : (OpLog.applyEntries migId decoded).Returns cdb n cdb') : Brings cdb cdb' := by
  induction decoded generalizing cdb n with
  | nil =>
    obtain ⟨-, rfl⟩ := Tx.pure_returns.mp h
    exact .refl _
  | cons d decoded ih =>
    simp only [OpLog.applyEntries, Tx.bind_returns, Tx.pure_returns] at h
    obtain ⟨_, mid, hone, _, _, hrest, -, rfl⟩ := h
    exact (applyEntry_brings hone).trans (ih hrest)

theorem shardApply_entries {schema : CdbSchema} {lo hi nowMs : Int} {entries : List SplitOpLogEntry}
    {db db' : ShardDb δ} {res : SplitOpLogApplyResult}
    (h : (Moves.applySplitOpLogBatch schema ν migId lo hi entries nowMs).Returns db res db') :
    ∃ decoded n mid, (OpLog.applyEntries migId decoded).Returns db.cdb n mid ∧
      ledger db' = cdbLedger mid := by
  simp only [Moves.applySplitOpLogBatch, Tx.transactionSync_returns, Tx.bind_returns] at h
  obtain ⟨stored, _, hmove, h⟩ := h
  obtain rfl := grows_onControl_readOnly readOnly_assertReshardMovement hmove
  obtain ⟨cdb, hcdb, rfl⟩ := Tx.zoom_returns.mp h
  obtain ⟨decoded, n, mid, happ, haside⟩ := applySplitOpLogBatch_entries hcdb
  exact ⟨decoded, n, mid, happ, congrArg (fun x => (x.1, x.2.1)) haside⟩

/-- A maintenance only takes rows out. -/
theorem Maintains.brings {nowMs : Int} {res : CdbOpLogRetentionResult}
    (hm : Maintains nowMs res cdb cdb') : Brings cdb cdb' := by
  refine ⟨fun key r hr => .inl ⟨r, ?_⟩, fun a ha => by rw [hm.domain]; exact ha⟩
  cases hactive : hasActiveSplit cdb.domain.split with
  | true => exact (hm.blocked hactive).2 ▸ hr
  | false =>
    obtain ⟨hmem, hkey⟩ := Table.find?_eq_some.mp hr
    exact Table.find?_eq_some.mpr ⟨(hm.cleaned hactive).only r hmem, hkey⟩

end

/-! ## Ends of a destination -/

section
variable {cdb cdb' : Cdb δ} {db db' : ShardDb δ} {migId : String} {schema : CdbSchema}
  {identity : CdbReshardSplitIdentity} {nowMs : Int} {u : Unit} {abort : Bool}

/-- An end of a destination takes its records out, and an abort the rows they are of. -/
structure Ends (migId : String) (abort : Bool) (cdb cdb' : Cdb δ) : Prop where
  lastEventId : cdb'.opLog.lastEventId = cdb.opLog.lastEventId
  rows : ∀ key r, cdb'.opLog.rows.find? key = some r → cdb.opLog.rows.find? key = some r
  applied : ∀ a ∈ cdb.domain.split.applied, a.migId ≠ migId → a ∈ cdb'.domain.split.applied
  aborted : abort = true → ∀ a ∈ cdb.domain.split.applied, a.migId = migId → a.inserted = true →
    cdb'.opLog.rows.find? (a.principalId, a.mutId) = none

theorem Finalizes.ends (hf : Finalizes migId abort cdb cdb') : Ends migId abort cdb cdb' := by
  refine ⟨hf.lastEventId, fun key r hr => (hf.only key r hr).1,
    fun a ha hne => (hf.applied a).mpr ⟨ha, hne⟩, fun habort a ha hmig hins => ?_⟩
  cases hr : cdb'.opLog.rows.find? (a.principalId, a.mutId) with
  | none => rfl
  | some r =>
    have hnot := (hf.only _ r hr).2 habort
    rw [← hmig, insertedBy_of_mem ha hins (Table.find?_eq_some.mp hr).2] at hnot
    cases hnot

theorem clearDest_ends {f : SplitStateRow → SplitStateRow}
    (h : (clearDest identity abort f).Returns db u db') :
    Ends identity.migId abort db.cdb db'.cdb := by
  simp only [clearDest, Tx.bind_returns, Tx.pure_returns] at h
  obtain ⟨_, mid, hfin, _, mid₁, hkeys, _, mid₂, hlog, _, _, hupdate, -, rfl⟩ := h
  obtain ⟨cdb, hcdb, rfl⟩ := Tx.zoom_returns.mp hfin
  have hends := (finalizeSplitOpLogDestination_effect hcdb).ends
  have hkeys : ledger mid₁ = cdbLedger cdb :=
    (frames_ledger_onCdb (frames_ledger_onSplit (x := onKeys _) (.zoom fun _ _ => rfl))).returns hkeys
  have hlog : ledger mid₂ = ledger mid₁ :=
    (frames_ledger_onCdb (frames_ledger_onSplit (x := onSplitOplog _) (.zoom fun _ _ => rfl))).returns
      hlog
  have hupdate : ledger _ = ledger mid₂ := (frames_ledger_onControl _).returns hupdate
  have hall := hupdate.trans (hlog.trans hkeys)
  have hopLog := congrArg Prod.fst hall
  have happlied := congrArg Prod.snd hall
  refine ⟨?_, fun key r hr => ?_, fun a ha hne => ?_, fun habort a ha hmig hins => ?_⟩
  · exact (congrArg Ledger.lastEventId hopLog).trans hends.lastEventId
  · exact hends.rows key r (by rw [← show _ = cdb.opLog from hopLog]; exact hr)
  · have := hends.applied a ha hne
    rw [← show _ = cdb.domain.split.applied from happlied] at this
    exact this
  · have := hends.aborted habort a ha hmig hins
    rw [← show _ = cdb.opLog from hopLog] at this
    exact this

theorem finishReshardDest_ends (h : (finishReshardDest schema identity nowMs).Returns db u db') :
    Ends identity.migId false db.cdb db'.cdb := by
  obtain ⟨f, hclear, -⟩ := finishReshardDest_returns h
  exact clearDest_ends hclear

/-- A batch of an abort works on another table or has nothing left to do, or it is the last one. -/
theorem abortReshardDestBatch_ends {page : Option (Tx Thrown δ Unit)} {done : Bool}
    (h : (abortReshardDestBatch schema identity page nowMs).Returns db done db') :
    (cdbLedger db'.cdb = cdbLedger db.cdb ∧ (page = none →
        ∃ r, db.control.splits.find? identity.migId = some r ∧ r.drained = true)) ∨
      Ends identity.migId true db.cdb db'.cdb := by
  rcases abortReshardDestBatch_returns h with ⟨rfl, hdrained⟩ | ⟨p, u, rfl, hpage⟩ | ⟨f, u, hclear, -⟩
  · exact .inl ⟨rfl, fun _ => hdrained⟩
  · obtain ⟨cdb, hdomain, rfl⟩ := Tx.zoom_returns.mp hpage
    obtain ⟨rest, hrest, rfl⟩ := Tx.zoom_returns.mp hdomain
    exact .inl ⟨congrArg (Prod.mk _) (congrArg SplitDb.applied (onTables_returns hrest)),
      fun hnone => by cases hnone⟩
  · exact .inr (clearDest_ends hclear)

end

/-! ## Rows and their origins -/

/-- Why there is a row under a key after the calls. -/
inductive Origin (sha256 : ByteArray → ByteArray) (codec : PayloadCodec) (domain : δ)
    (calls : List (ShardCall δ ν)) (key : String × String) : Prop
  /-- A mutation ran here. -/
  | ran (before after : List (ShardCall δ ν)) (m : Move) (fenced : Bool) (req : MutationRequest δ ν)
      (env : Json ν) (hcalls : calls = before ++ .mutate m fenced req :: after)
      (hran : RanIn sha256 codec domain before m fenced req env) (hkey : req.key = key)
  /-- A move that still comes in has inserted it. -/
  | coming (a : AppliedRow) (ha : a ∈ (afterCalls sha256 codec domain calls).applied)
      (hins : a.inserted = true) (hkey : (a.principalId, a.mutId) = key)
  /-- A move has inserted it and finished. -/
  | moved (before after : List (ShardCall δ ν)) (schema : CdbSchema)
      (identity : CdbReshardSplitIdentity) (nowMs : Int) (a : AppliedRow)
      (hcalls : calls = before ++ .finishDest schema identity nowMs :: after)
      (hfinish : ∃ db, (finishReshardDest schema identity nowMs).Returns
        (afterCalls sha256 codec domain before) () db)
      (ha : a ∈ (afterCalls sha256 codec domain before).applied) (hmig : a.migId = identity.migId)
      (hins : a.inserted = true) (hkey : (a.principalId, a.mutId) = key)

section
variable {sha256 : ByteArray → ByteArray} {codec : PayloadCodec} {domain : δ}
  {calls : List (ShardCall δ ν)} {call : ShardCall δ ν} {key : String × String}

theorem afterCalls_snoc : afterCalls sha256 codec domain (calls ++ [call]) =
    (afterCalls sha256 codec domain calls).step sha256 codec call := by
  rw [afterCalls, run_append]
  rfl

/-- An origin lasts, when the record of a move that comes in does. -/
theorem Origin.snoc (h : Origin sha256 codec domain calls key)
    (hcoming : ∀ a ∈ (afterCalls sha256 codec domain calls).applied, a.inserted = true →
      (a.principalId, a.mutId) = key → Origin sha256 codec domain (calls ++ [call]) key) :
    Origin sha256 codec domain (calls ++ [call]) key := by
  cases h with
  | ran before after m fenced req env hcalls hran hkey =>
    exact .ran before (after ++ [call]) m fenced req env (by rw [hcalls, List.append_assoc]; rfl)
      hran hkey
  | coming a ha hins hkey => exact hcoming a ha hins hkey
  | moved before after schema identity nowMs a hcalls hfinish ha hmig hins hkey =>
    exact .moved before (after ++ [call]) schema identity nowMs a
      (by rw [hcalls, List.append_assoc]; rfl) hfinish ha hmig hins hkey

variable (sha256 codec domain) in
/-- Each row there is has an origin. -/
def Accounted (calls : List (ShardCall δ ν)) : Prop :=
  ∀ key row, (afterCalls sha256 codec domain calls).cdb.opLog.rows.find? key = some row →
    Origin sha256 codec domain calls key

theorem Accounted.brings (ih : Accounted sha256 codec domain calls)
    (hb : Brings (afterCalls sha256 codec domain calls).cdb
      ((afterCalls sha256 codec domain calls).step sha256 codec call).cdb) :
    Accounted sha256 codec domain (calls ++ [call]) := by
  intro key row hrow
  rw [afterCalls_snoc] at hrow
  have hcoming : ∀ a ∈ ((afterCalls sha256 codec domain calls).step sha256 codec call).applied,
      a.inserted = true → (a.principalId, a.mutId) = key →
      Origin sha256 codec domain (calls ++ [call]) key :=
    fun a ha hins hkey => .coming a (by rw [afterCalls_snoc]; exact ha) hins hkey
  rcases hb.rows key row hrow with ⟨r, hr⟩ | ⟨a, ha, hins, hkey⟩
  · exact (ih key r hr).snoc fun a ha => hcoming a (hb.applied a ha)
  · exact hcoming a ha hins hkey

/-- A call that throws leaves the accounts as they are. -/
theorem Accounted.after {α : Type} {x : ShardTx δ α} (ih : Accounted sha256 codec domain calls)
    (hx : x.Atomic)
    (hstep : (afterCalls sha256 codec domain calls).step sha256 codec call =
      x.after (afterCalls sha256 codec domain calls))
    (hr : ∀ a db', x.Returns (afterCalls sha256 codec domain calls) a db' →
      (afterCalls sha256 codec domain calls).step sha256 codec call = db' →
      Accounted sha256 codec domain (calls ++ [call])) :
    Accounted sha256 codec domain (calls ++ [call]) := by
  rcases x.returns_or_throws (afterCalls sha256 codec domain calls) with ⟨a, h⟩ | ⟨e, h⟩
  · exact hr a _ h hstep
  · exact ih.brings (by rw [hstep, hx h]; exact .refl _)

theorem Accounted.mutate {m : Move} {fenced : Bool} {req : MutationRequest δ ν}
    (ih : Accounted sha256 codec domain calls) :
    Accounted sha256 codec domain (calls ++ [.mutate m fenced req]) := by
  refine ih.after (atomic_onCdb (Tx.atomic_transactionSync _)) rfl fun res db' h hstep => ?_
  obtain ⟨cdb, hcdb, rfl⟩ := Tx.zoom_returns.mp h
  obtain ⟨mid, hexec, hlog, happlied, -⟩ := executeAtomicMutation_exec hcdb
  intro key row hrow
  rw [afterCalls_snoc, hstep] at hrow
  have hmid : mid.opLog.rows.find? key = some row := hlog ▸ hrow
  by_cases hran : res.ran = true ∧ req.key = key
  · obtain ⟨ran, env⟩ := res
    obtain ⟨rfl, hkey⟩ := hran
    exact .ran calls [] m fenced req env rfl ⟨⟨cdb, hcdb⟩⟩ hkey
  · -- any other row was there before the call
    have hold : (afterCalls sha256 codec domain calls).cdb.opLog.rows.find? key = some row := by
      rcases exec_returns hexec with ⟨rfl, -⟩ | ⟨htrue, hc⟩
      · exact hmid
      · exact (hc.rest key fun hkey => hran ⟨htrue, hkey.symm⟩).symm.trans hmid
    refine (ih key row hold).snoc fun a ha hins hkey => .coming a ?_ hins hkey
    rw [afterCalls_snoc, hstep]
    show a ∈ cdb.domain.split.applied
    rw [happlied]
    exact ha

theorem Accounted.finishDest {schema : CdbSchema} {identity : CdbReshardSplitIdentity} {nowMs : Int}
    (ih : Accounted sha256 codec domain calls) :
    Accounted sha256 codec domain (calls ++ [.finishDest schema identity nowMs]) := by
  refine ih.after (Tx.atomic_transactionSync _) rfl fun u db' h hstep => ?_
  have hends := finishReshardDest_ends h
  intro key row hrow
  rw [afterCalls_snoc, hstep] at hrow
  refine (ih key row (hends.rows key row hrow)).snoc fun a ha hins hkey => ?_
  by_cases hmig : a.migId = identity.migId
  · exact .moved calls [] schema identity nowMs a rfl ⟨db', h⟩ ha hmig hins hkey
  · exact .coming a (by rw [afterCalls_snoc, hstep]; exact hends.applied a ha hmig) hins hkey

theorem Accounted.abortBatch {schema : CdbSchema} {identity : CdbReshardSplitIdentity}
    {page : Option (Tx Thrown δ Unit)} {nowMs : Int} (ih : Accounted sha256 codec domain calls) :
    Accounted sha256 codec domain (calls ++ [.abortBatch schema identity page nowMs]) := by
  refine ih.after (Tx.atomic_transactionSync _) rfl fun done db' h hstep => ?_
  rcases abortReshardDestBatch_ends h with ⟨heq, -⟩ | hends
  · exact ih.brings (by rw [hstep]; exact brings_of_cdbLedger heq)
  · intro key row hrow
    rw [afterCalls_snoc, hstep] at hrow
    refine (ih key row (hends.rows key row hrow)).snoc fun a ha hins hkey => ?_
    by_cases hmig : a.migId = identity.migId
    · -- the rows of the migration are gone
      have hnone := hends.aborted rfl a ha hmig hins
      rw [hkey, hrow] at hnone
      cases hnone
    · exact .coming a (by rw [afterCalls_snoc, hstep]; exact hends.applied a ha hmig) hins hkey

theorem Accounted.step (ih : Accounted sha256 codec domain calls) (call : ShardCall δ ν) :
    Accounted sha256 codec domain (calls ++ [call]) := by
  by_cases hcall : call.WorksOnRows
  · cases call with
    | mutate => exact ih.mutate
    | maintain nowMs =>
      refine ih.after (atomic_onCdb (Tx.atomic_transactionSync _)) rfl fun res db' h hstep =>
        ih.brings ?_
      obtain ⟨cdb, hcdb, rfl⟩ := Tx.zoom_returns.mp h
      rw [hstep]
      exact (maintain_maintains hcdb).brings
    | apply schema migId lo hi entries nowMs =>
      refine ih.after (Tx.atomic_transactionSync _) rfl fun res db' h hstep => ih.brings ?_
      obtain ⟨decoded, n, mid, happ, heq⟩ := shardApply_entries h
      rw [hstep]
      exact (applyEntries_brings happ).trans (brings_of_cdbLedger heq)
    | abortBatch => exact ih.abortBatch
    | finishDest => exact ih.finishDest
    | _ => exact hcall.elim
  · exact ih.brings (brings_of_cdbLedger (frames_ledger_step _ call hcall))

theorem accounted (calls : List (ShardCall δ ν)) : Accounted sha256 codec domain calls := by
  induction calls using List.reverseRecOn with
  | nil => exact fun key row hrow => absurd (Table.find?_eq_some.mp hrow).1 Table.not_mem_empty
  | append_singleton calls call ih => exact ih.step call

end

/-- What any run of a shard says of the rows of its op-log. -/
structure RowsAccounted (sha256 : ByteArray → ByteArray) (codec : PayloadCodec) (domain : δ)
    (calls : List (ShardCall δ ν)) : Prop where
  /-- Each is of a mutation that ran here, of a move that comes in or of one that has finished. -/
  origin : ∀ row ∈ (afterCalls sha256 codec domain calls).cdb.opLog.rows,
    Origin sha256 codec domain calls row.key
  /-- Once an abort is through, no row is left that its migration has inserted. -/
  aborted : ∀ before after schema identity nowMs db,
    calls = before ++ .abortBatch schema identity none nowMs :: after →
    (abortReshardDestBatch schema identity none nowMs).Returns (afterCalls sha256 codec domain before)
      true db →
    ∀ a ∈ (afterCalls sha256 codec domain before).applied, a.migId = identity.migId →
      a.inserted = true → db.row? (a.principalId, a.mutId) = none

/-- In every run of a shard each row of the op-log is accounted for, and an aborted move leaves no
row behind. -/
theorem ledger_rows_accounted (sha256 : ByteArray → ByteArray) (codec : PayloadCodec) (domain : δ)
    (calls : List (ShardCall δ ν)) : RowsAccounted sha256 codec domain calls where
  origin row hrow := accounted calls row.key row (Table.find?_key hrow)
  aborted before after schema identity nowMs db _ h a ha hmig hins := by
    rcases abortReshardDestBatch_ends h with ⟨-, hdrained⟩ | hends
    · -- a migration that is done has no records left
      obtain ⟨r, hr, hdrained⟩ := hdrained rfl
      have hs : Sound (afterCalls sha256 codec domain before) := (sound_empty domain).run before
      obtain ⟨⟨r', hr', -, hopen⟩, -⟩ := hs.receiving a ha
      rw [hmig, hr] at hr'
      cases hr'
      rw [hdrained] at hopen
      cases hopen
    · exact hends.aborted rfl a ha hmig hins

end Chardb.Moves
