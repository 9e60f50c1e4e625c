import Chardb.Moves.DestCalls
import Chardb.OpLog.Cleanup

/-!
# What ends a row

The end of a destination takes away what it has recorded, and the rows it has inserted when it is
aborted. A mutation adds its row, and retention removes rows outside of moves only.
-/

namespace Chardb.Moves

open Chardb.Lib Chardb.Reshard Chardb.OpLog

variable {δ : Type} {ν : Type} [JsNumber ν]

/-! ## The end of a destination -/

section
variable {cdb cdb' : Cdb δ} {db db' : ShardDb δ} {migId : String} {schema : CdbSchema}
  {identity : CdbReshardSplitIdentity} {nowMs : Int} {u : Unit} {abort : Bool}

/-- What the end of a destination takes away: what it has recorded, and the rows it has inserted when
it is aborted. -/
structure Finalizes (migId : String) (abort : Bool) (cdb cdb' : Cdb δ) : Prop where
  splitState : cdb'.domain.split.splitState = cdb.domain.split.splitState
  lastEventId : cdb'.opLog.lastEventId = cdb.opLog.lastEventId
  applied : ∀ a, a ∈ cdb'.domain.split.applied ↔ a ∈ cdb.domain.split.applied ∧ a.migId ≠ migId
  rows : ∀ key r, cdb.opLog.rows.find? key = some r →
    insertedBy cdb.domain.split.applied migId r = false → cdb'.opLog.rows.find? key = some r
  only : ∀ key r, cdb'.opLog.rows.find? key = some r → cdb.opLog.rows.find? key = some r ∧
    (abort = true → insertedBy cdb.domain.split.applied migId r = false)

theorem finalizeSplitOpLogDestination_effect
    (h : (finalizeSplitOpLogDestination migId abort).Returns cdb u cdb') :
    Finalizes migId abort cdb cdb' := by
  have hrows : ∀ key r, cdb.opLog.rows.find? key = some r →
      insertedBy cdb.domain.split.applied migId r = false →
      (cdb.opLog.rows.deleteWhere (insertedBy cdb.domain.split.applied migId)).find? key = some r := by
    intro key r hr hnot
    obtain ⟨hmem, hkey⟩ := Table.find?_eq_some.mp hr
    exact Table.find?_eq_some.mpr ⟨Table.mem_deleteWhere.mpr ⟨hmem, hnot⟩, hkey⟩
  have happlied : ∀ a, a ∈ cdb.domain.split.applied.deleteWhere (fun r => decide (r.migId = migId)) ↔
      a ∈ cdb.domain.split.applied ∧ a.migId ≠ migId := fun a => by
    rw [Table.mem_deleteWhere, decide_eq_false_iff_not]
  cases abort <;>
    simp only [finalizeSplitOpLogDestination, onApplied, onCursors, onSplit_returns, Tx.bind_returns,
      Tx.gets_returns, Tx.zoom_returns, Tx.pure_returns, Tx.modify_returns, Table.delete_returns,
      if_true, Bool.false_eq_true, if_false] at h
  · obtain ⟨_, _, ⟨rfl, rfl⟩, _, _, ⟨_, ⟨_, ⟨rfl, -⟩, rfl⟩, rfl⟩, _, _,
      ⟨_, ⟨_, ⟨rfl, -⟩, rfl⟩, rfl⟩, -, rfl⟩ := h
    exact ⟨rfl, rfl, happlied, fun _ _ hr _ => hr, fun _ _ hr => ⟨hr, fun hfalse => by cases hfalse⟩⟩
  · obtain ⟨_, _, ⟨rfl, rfl⟩, _, _, rfl, _, _, ⟨_, ⟨_, ⟨rfl, -⟩, rfl⟩, rfl⟩, _, _,
      ⟨_, ⟨_, ⟨rfl, -⟩, rfl⟩, rfl⟩, -, rfl⟩ := h
    refine ⟨rfl, rfl, happlied, hrows, fun key r hr => ?_⟩
    obtain ⟨hmem, hkey⟩ := Table.find?_eq_some.mp hr
    obtain ⟨hmem, hnot⟩ := Table.mem_deleteWhere.mp hmem
    exact ⟨Table.find?_eq_some.mpr ⟨hmem, hkey⟩, fun _ => hnot⟩

theorem insertedBy_row {applied : AppliedTable} {r : OpLogRow} (h : insertedBy applied migId r = true) :
    ∃ a ∈ applied, a.migId = migId ∧ a.inserted = true ∧ (a.principalId, a.mutId) = r.key := by
  unfold insertedBy at h
  cases ha : applied.find? (migId, r.principalId, r.mutId) with
  | none =>
    rw [ha] at h
    cases h
  | some a =>
    rw [ha] at h
    obtain ⟨hmem, hkey⟩ := Table.find?_eq_some.mp ha
    exact ⟨a, hmem, congrArg Prod.fst hkey, h, congrArg Prod.snd hkey⟩

theorem insertedBy_of_mem {applied : AppliedTable} {a : AppliedRow} {r : OpLogRow} (ha : a ∈ applied)
    (hins : a.inserted = true) (hkey : r.key = (a.principalId, a.mutId)) :
    insertedBy applied a.migId r = true := by
  have hfind : applied.find? (a.migId, r.principalId, r.mutId) = some a :=
    Table.find?_eq_some.mpr ⟨ha, congrArg (Prod.mk a.migId) hkey.symm⟩
  rw [insertedBy, hfind]
  exact hins

theorem Finalizes.inserted (hf : Finalizes migId abort cdb cdb') (h : Inserted cdb) :
    Inserted cdb' := by
  refine ⟨fun a ha hins => ?_,
    fun a ha b hb => h.one a ((hf.applied a).mp ha).1 b ((hf.applied b).mp hb).1⟩
  obtain ⟨ha, hne⟩ := (hf.applied a).mp ha
  obtain ⟨row, hrow⟩ := h.present a ha hins
  refine ⟨row, hf.rows _ _ hrow (Bool.eq_false_iff.mpr fun hby => ?_)⟩
  obtain ⟨b, hb, hmig, hinsb, hkey⟩ := insertedBy_row hby
  have hab := h.one a ha b hb hins hinsb ((Table.find?_eq_some.mp hrow).2.symm.trans hkey.symm)
  exact hne (hab ▸ hmig)

theorem Finalizes.held {key : String × String} {r : OpLogRow} (hf : Finalizes migId abort cdb cdb')
    (h : Held key r cdb) : Held key r cdb' := by
  refine ⟨hf.rows _ _ h.here (Bool.eq_false_iff.mpr fun hby => ?_),
    fun a ha => h.own a ((hf.applied a).mp ha).1⟩
  obtain ⟨a, ha, -, hins, hkey⟩ := insertedBy_row hby
  exact h.own a ha hins (hkey.trans (Table.find?_eq_some.mp h.here).2)

/-- What an end of a move and an apply leave of the ledger. -/
structure KeepsHeld (db db' : ShardDb δ) : Prop where
  sound : Sound db'
  held : ∀ key r, Held key r db.cdb → Held key r db'.cdb

theorem Grows.keepsHeld (hg : Grows db db') (h : Sound db) : KeepsHeld db db' :=
  ⟨h.grows hg, fun _ _ hr => hr.grows hg⟩

theorem clearDest_effect {f : SplitStateRow → SplitStateRow} (hsound : Sound db)
    (h : (clearDest identity abort f).Returns db u db') (hf : ∀ r, (f r).migId = r.migId) :
    KeepsHeld db db' := by
  simp only [clearDest, Tx.bind_returns, Tx.pure_returns] at h
  obtain ⟨_, mid, hfin, _, mid₁, hkeys, _, mid₂, hlog, _, _, hupdate, -, rfl⟩ := h
  obtain ⟨cdb, hcdb, rfl⟩ := Tx.zoom_returns.mp hfin
  have hfin := finalizeSplitOpLogDestination_effect hcdb
  have hg := (grows_aside (frames_onSplit (x := onKeys _) (.zoom fun _ _ => rfl)) hkeys).trans
    (grows_aside (frames_onSplit (x := onSplitOplog _) (.zoom fun _ _ => rfl)) hlog)
  have hmid : Sound { db with cdb } := by
    refine ⟨hfin.inserted hsound.inserted, fun a ha => ?_⟩
    obtain ⟨hrow, hbound⟩ := hsound.receiving a ((hfin.applied a).mp ha).1
    exact ⟨show Receives cdb.domain.split.splitState _ from hfin.splitState ▸ hrow, hbound⟩
  have hmid₂ := hmid.grows hg
  obtain ⟨c, hc, rfl⟩ := Tx.zoom_returns.mp hupdate
  refine ⟨⟨⟨hmid₂.inserted.present, hmid₂.inserted.one⟩, fun a ha => ?_⟩, fun key r hr => ?_⟩
  · refine receiving_updateSplit (hmid₂.receiving a ha) hc hf fun r hr hp _ _ => ?_
    have hmem : a ∈ cdb.domain.split.applied := by
      have happlied : mid₂.applied = cdb.domain.split.applied := hg.applied
      exact happlied ▸ ha
    have hmig : r.migId = identity.migId := of_decide_eq_true hp
    exact absurd ((Table.find?_eq_some.mp hr).2.symm.trans hmig) ((hfin.applied a).mp hmem).2
  · have hkept : Held key r ({ db with cdb } : ShardDb δ).cdb := hfin.held hr
    have hheld := hkept.grows hg
    exact ⟨hheld.here, hheld.own⟩

end

/-! ## Mutations -/

section
variable {sha256 : ByteArray → ByteArray} {codec : PayloadCodec} {m : Move} {fenced : Bool}
  {req : MutationRequest δ ν} {res : RunWrappedMutationResult ν} {cdb cdb' : Cdb δ} {db : ShardDb δ}

theorem afterRun_aside {u : Unit} (h : (afterRun req).Returns cdb u cdb') : aside cdb' = aside cdb := by
  simp only [afterRun, onDomain, Tx.bind_returns, Tx.zoom_returns] at h
  obtain ⟨_, mid, hcap, rest, hwrite, rfl⟩ := h
  have hsplit := onTables_returns hwrite
  have hcap : aside mid = aside cdb := by
    unfold captureSplitOutcome at hcap
    split at hcap
    · rw [(Tx.pure_returns.mp hcap).2]
    · simp only [Tx.bind_returns, Tx.pure_returns] at hcap
      obtain ⟨_, _, hcap, -, rfl⟩ := hcap
      exact frames_captureSplitOpLogOutcome.returns hcap
  rw [← hcap]
  unfold aside
  simp only [hsplit]

/-- A mutation is a call of the wrapper; what follows is not for the op-log. -/
theorem executeAtomicMutation_exec
    (h : (executeAtomicMutation sha256 codec m fenced req).Returns cdb res cdb') :
    ∃ mid, (exec sha256 codec req.onCdb).Returns cdb res mid ∧ cdb'.opLog = mid.opLog ∧
      cdb'.domain.split.applied = cdb.domain.split.applied ∧
      cdb'.domain.split.splitState = cdb.domain.split.splitState := by
  simp only [executeAtomicMutation, Tx.transactionSync_returns, Tx.bind_returns,
    Tx.require_returns] at h
  obtain ⟨_, _, ⟨-, rfl⟩, result, mid, hrun, h⟩ := h
  have hexec : (exec sha256 codec req.onCdb).Returns cdb result mid :=
    Tx.transactionSync_returns.mpr hrun
  rcases exec_returns hexec with ⟨rfl, hran, -⟩ | ⟨hran, hc⟩
  · rw [if_neg (by rw [hran]; decide)] at h
    obtain ⟨rfl, rfl⟩ := Tx.pure_returns.mp h
    exact ⟨_, hexec, rfl, rfl, rfl⟩
  · rw [if_pos hran] at h
    simp only [Tx.bind_returns, Tx.pure_returns] at h
    obtain ⟨⟨⟩, _, hafter, rfl, rfl⟩ := h
    have hsplit : mid.domain.split = cdb.domain.split := by
      obtain ⟨outcome, eventId, hran, -⟩ := hc.ran
      exact onTables_returns hran
    have haside := afterRun_aside hafter
    refine ⟨mid, hexec, congrArg Prod.fst haside, ?_, ?_⟩
    · rw [← hsplit]
      exact congrArg (fun x => x.2.1) haside
    · rw [← hsplit]
      exact congrArg (fun x => x.2.2) haside

theorem executeAtomicMutation_grows
    (h : (executeAtomicMutation sha256 codec m fenced req).Returns db.cdb res cdb) :
    Grows db { db with cdb } := by
  obtain ⟨mid, hexec, hlog, happlied, hstate⟩ := executeAtomicMutation_exec h
  refine ⟨fun key row hr => ?_, happlied, fun k hk => ⟨?_, hk.2⟩⟩
  · show cdb.opLog.rows.find? key = some row
    rw [hlog]
    rcases exec_returns hexec with ⟨rfl, -⟩ | ⟨-, hc⟩
    · exact hr
    · have hne : key ≠ req.onCdb.key := by
        rintro rfl
        exact Option.some_ne_none _ (hr.symm.trans hc.fresh)
      exact (hc.rest key hne).trans hr
  · show Receives cdb.domain.split.splitState k
    rw [hstate]
    exact hk.1

/-- The row of a call that ran is held. -/
theorem executeAtomicMutation_held {env : Json ν} (hsound : Sound db)
    (h : (executeAtomicMutation sha256 codec m fenced req).Returns db.cdb ⟨true, env⟩ cdb) :
    ∃ outcome eventId, IsEnvelope env ∧
      Held req.key (finalRow sha256 codec req.onCdb outcome env eventId) cdb := by
  obtain ⟨mid, hexec, hlog, happlied, -⟩ := executeAtomicMutation_exec h
  rcases exec_returns hexec with ⟨-, hfalse, -⟩ | ⟨-, hc⟩
  · cases hfalse
  · obtain ⟨outcome, eventId, -, henv, hrow⟩ := hc.ran
    refine ⟨outcome, eventId, envelopeOf_isEnvelope henv, by rw [hlog]; exact hrow, ?_⟩
    rw [happlied]
    exact hsound.inserted.free hc.fresh

theorem Held.stored {env : Json ν} {outcome : MutationOutcome ν} {eventId : Nat} {key : String × String}
    (henv : IsEnvelope env)
    (h : Held key (finalRow sha256 codec req.onCdb outcome env eventId) cdb) :
    Stored codec cdb key (requestHash sha256 req.canonicalRequest) env :=
  ⟨henv, _, h.here, rfl, rfl⟩

theorem executeAtomicMutation_replays {env : Json ν}
    (hadmitted : ¬ (fenced = true ∧ m.covers req.placementVshard = true))
    (h : (exec sha256 codec req.onCdb).Returns cdb ⟨false, env⟩ cdb) :
    (executeAtomicMutation sha256 codec m fenced req).Returns cdb ⟨false, env⟩ cdb := by
  rw [exec, Tx.transactionSync_returns] at h
  rw [executeAtomicMutation, Tx.transactionSync_returns, Tx.bind_returns]
  exact ⟨(), cdb, Tx.require_returns.mpr ⟨hadmitted, rfl⟩,
    Tx.bind_returns.mpr ⟨_, cdb, h, Tx.pure_returns.mpr ⟨rfl, rfl⟩⟩⟩

theorem executeAtomicMutation_refuses {e : Thrown}
    (hadmitted : ¬ (fenced = true ∧ m.covers req.placementVshard = true))
    (h : (exec sha256 codec req.onCdb).Throws cdb e cdb) :
    (executeAtomicMutation sha256 codec m fenced req).Throws cdb e cdb := by
  obtain ⟨-, mid, h⟩ := Tx.transactionSync_throws.mp h
  rw [executeAtomicMutation, Tx.transactionSync_throws]
  refine ⟨rfl, mid, Tx.bind_throws.mpr (.inr ⟨(), cdb, Tx.require_returns.mpr ⟨hadmitted, rfl⟩, ?_⟩)⟩
  exact Tx.bind_throws.mpr (.inl h)

end

/-! ## Retention -/

section
variable {cdb cdb' : Cdb δ} {db : ShardDb δ} {nowMs : Int} {res : CdbOpLogRetentionResult}

/-- What a maintenance of the op-log does: nothing while the shard takes part in a move, otherwise
one cleanup. -/
structure Maintains (nowMs : Int) (res : CdbOpLogRetentionResult) (cdb cdb' : Cdb δ) : Prop where
  domain : cdb'.domain = cdb.domain
  blocked : hasActiveSplit cdb.domain.split = true → res = ⟨0, true, none⟩ ∧ cdb' = cdb
  cleaned : hasActiveSplit cdb.domain.split = false → CleanedUp nowMs res cdb.opLog cdb'.opLog

theorem maintain_maintains (h : (OpLog.maintain nowMs).Returns cdb res cdb') :
    Maintains nowMs res cdb cdb' := by
  simp only [OpLog.maintain, Tx.transactionSync_returns, Tx.bind_returns, Tx.require_returns,
    Tx.gets_returns] at h
  obtain ⟨_, _, ⟨-, rfl⟩, blocked, _, ⟨rfl, rfl⟩, h⟩ := h
  rcases Tx.ite_returns.mp h with ⟨hb, h⟩ | ⟨hb, h⟩
  · obtain ⟨rfl, rfl⟩ := Tx.pure_returns.mp h
    exact ⟨rfl, fun _ => ⟨rfl, rfl⟩, fun hfalse => by rw [hb] at hfalse; cases hfalse⟩
  · obtain ⟨log, hc, rfl⟩ := Tx.zoom_returns.mp h
    exact ⟨rfl, fun htrue => absurd htrue hb, fun _ => cleanUp_cleanedUp hc⟩

/-- Outside of moves nothing is recorded as inserted. -/
theorem Sound.active (h : Sound db) {a : AppliedRow} (ha : a ∈ db.applied) :
    hasActiveSplit db.cdb.domain.split = true := by
  obtain ⟨r, hr, hdrained⟩ := (h.receiving a ha).1.active
  exact hasActiveSplit_of_mem hr hdrained

theorem Sound.maintains (h : Sound db) (hm : Maintains nowMs res db.cdb cdb) :
    Sound { db with cdb } := by
  cases hactive : hasActiveSplit db.cdb.domain.split with
  | true =>
    rw [(hm.blocked hactive).2]
    exact h
  | false =>
    have hnone : ∀ a, a ∉ cdb.domain.split.applied := fun a ha => by
      rw [hm.domain] at ha
      rw [h.active ha] at hactive
      cases hactive
    exact ⟨⟨fun a ha => absurd ha (hnone a), fun a ha => absurd ha (hnone a)⟩,
      fun a ha => absurd ha (hnone a)⟩

theorem Held.maintains {key : String × String} {r : OpLogRow} (h : Held key r cdb)
    (hm : Maintains nowMs res cdb cdb') :
    Held key r cdb' ∨ (r.committedAt + CDB_OPLOG_RETENTION_MS ≤ nowMs ∧
      hasActiveSplit cdb.domain.split = false) := by
  cases hactive : hasActiveSplit cdb.domain.split with
  | true =>
    rw [(hm.blocked hactive).2]
    exact .inl h
  | false =>
    rcases le_or_gt (r.committedAt + CDB_OPLOG_RETENTION_MS) nowMs with hle | hlt
    · exact .inr ⟨hle, rfl⟩
    · obtain ⟨hmem, hkey⟩ := Table.find?_eq_some.mp h.here
      have hkept := (hm.cleaned hactive).kept r hmem (by omega)
      refine .inl ⟨Table.find?_eq_some.mpr ⟨hkept, hkey⟩, ?_⟩
      rw [hm.domain]
      exact h.own

end

end Chardb.Moves
