import Chardb.Moves.SourceCalls

/-!
# The calls of a destination

Ownership, activation and the start of an abort only work on split rows. An apply inserts the rows
that are not there, each for its migration; the end of an abort removes just those.
-/

namespace Chardb.Moves

open Chardb.Lib Chardb.Reshard Chardb.OpLog

variable {δ : Type} {ν : Type} [JsNumber ν]

theorem readOnly_requiredCursor {migId : String} : (requiredCursor migId).ReadOnly :=
  (Tx.readOnly_gets _).bind fun _ => (Tx.readOnly_ofOption _ _).bind fun _ =>
    readOnly_assertRange.bind fun _ => (Tx.readOnly_require _ _).bind fun _ => Tx.readOnly_pure _

/-! ## Ownership -/

section
variable {db db' : ShardDb δ} {c c' : SplitControl} {schema : CdbSchema}
  {identity : CdbReshardSplitIdentity} {generation nowMs : Int} {k : String} {u : Unit}

theorem prepareReshardDestOwnership_grows {owner : DestOwnership}
    (h : (prepareReshardDestOwnership identity generation nowMs).Returns db owner db') :
    Grows db db' := by
  simp only [prepareReshardDestOwnership, assertDestinationGeneration, Tx.bind_returns,
    Tx.require_returns, Tx.transactionSync_returns] at h
  obtain ⟨_, _, hrange, _, _, ⟨-, rfl⟩, h⟩ := h
  obtain rfl := readOnly_assertCdbReshardRangeIdentity.returns hrange
  refine grows_onControl h fun c hc k hk => ?_
  simp only [assertCdbSplitHistoryCapacity, upgradeOwnership, Tx.bind_returns, Tx.gets_returns,
    Tx.require_returns, Tx.pure_returns] at hc
  obtain ⟨_, _, ⟨_, _, ⟨-, rfl⟩, _, _, ⟨-, rfl⟩, -, rfl⟩, n, mid, hins, upgraded, mid', ⟨_, _, ⟨-, rfl⟩, hup⟩,
    _, _, ⟨-, rfl⟩, _, _, ⟨-, rfl⟩, -, rfl⟩ := hc
  have hmid := receiving_insertIgnore hk hins
  rcases Tx.ite_returns.mp hup with ⟨-, hup⟩ | ⟨-, hup⟩
  · simp only [Tx.bind_returns, Tx.require_returns, Tx.pure_returns] at hup
    obtain ⟨_, _, hupdate, _, _, ⟨-, rfl⟩, -, rfl⟩ := hup
    exact receiving_updateSplit hmid hupdate (fun _ => rfl) fun _ _ _ hrole hdrained => ⟨hrole, hdrained⟩
  · rw [← (Tx.pure_returns.mp hup).2]
    exact hmid

theorem frames_beginSplitOpLogDestination {migId : String} {lo hi : Int} :
    (beginSplitOpLogDestination migId lo hi nowMs).Frames splitAside :=
  readOnly_assertRange.frames.bind fun _ => .bind (.zoom fun _ _ => rfl) fun _ =>
    readOnly_requiredCursor.frames.bind fun _ => (Tx.readOnly_require _ _).frames

theorem beginReshardDest_grows
    (h : (Moves.beginReshardDest schema identity generation nowMs).Returns db u db') :
    Grows db db' := by
  simp only [Moves.beginReshardDest, Tx.transactionSync_returns, Tx.bind_returns] at h
  obtain ⟨_, _, hallowed, _, mid, hbind, h⟩ := h
  obtain rfl := grows_onControl_readOnly readOnly_assertReshardBeginAllowed hallowed
  refine (grows_onControl hbind fun c hc k hk => receiving_bind hk hc).trans ?_
  obtain ⟨cdb, hbegin, rfl⟩ := Tx.zoom_returns.mp h
  simp only [OpLog.beginReshardDest, OpLog.assertReshardBeginAllowed, requireSplitState, onSplitState,
    Tx.transactionSync_returns, onSplit_returns, Tx.bind_returns, Tx.gets_returns,
    Tx.require_returns, Tx.ofOption_returns, Tx.zoom_returns] at hbegin
  obtain ⟨split, ⟨_, _, ⟨_, _, ⟨rfl, rfl⟩, -, rfl⟩, n, _, ⟨t, ht, rfl⟩, row, _,
    ⟨_, _, ⟨rfl, rfl⟩, -, rfl⟩, hcursor⟩, rfl⟩ := hbegin
  have haside := frames_beginSplitOpLogDestination.returns hcursor
  refine grows_splitState rfl (congrArg Prod.fst haside) fun k hk => ?_
  rw [show split.splitState = t from congrArg Prod.snd haside]
  exact hk.insertIgnore ht

theorem activateReshardDestServing_grows {admitted : Except Thrown Unit} {activated : Bool}
    (h : (activateReshardDestServing schema identity admitted generation nowMs).Returns db activated
      db') : Grows db db' := by
  simp only [activateReshardDestServing, Tx.transactionSync_returns] at h
  refine grows_onControl h fun c hc k hk => ?_
  simp only [Tx.bind_returns, Tx.gets_returns, Tx.ofOption_returns, Tx.require_returns,
    Tx.ofExcept_returns] at hc
  obtain ⟨_, _, hbound, _, _, ⟨-, rfl⟩, state, _, ⟨-, rfl⟩, _, _, ⟨-, rfl⟩, _, _, ⟨-, rfl⟩, hc⟩ := hc
  obtain rfl := (readOnly_onIdentities readOnly_assertCleanupIfBound).returns hbound
  split at hc
  · rw [← (Tx.pure_returns.mp hc).2]
    exact hk
  · simp only [Tx.bind_returns, Tx.require_returns, Tx.pure_returns] at hc
    obtain ⟨_, _, hupdate, _, _, ⟨-, rfl⟩, -, rfl⟩ := hc
    exact receiving_updateSplit hk hupdate (fun _ => rfl) fun _ _ _ hrole hdrained => ⟨hrole, hdrained⟩

/-- What is not bound here receives nothing. -/
theorem abortPrepared_receiving {prepared : SplitStateRow} {started : Bool}
    (hunbound : c.identities.find? identity.migId = none)
    (h : (abortPrepared identity generation nowMs prepared).Returns c started c')
    (hk : Receiving c k) : Receiving c' k := by
  simp only [abortPrepared, Tx.bind_returns, Tx.require_returns] at h
  obtain ⟨_, _, ⟨-, rfl⟩, h⟩ := h
  split at h
  · rw [← (Tx.pure_returns.mp h).2]
    exact hk
  · simp only [Tx.bind_returns, Tx.require_returns, Tx.pure_returns] at h
    obtain ⟨_, _, hupdate, _, _, ⟨-, rfl⟩, -, rfl⟩ := h
    refine receiving_updateSplit hk hupdate (fun _ => rfl) fun r hr hp _ _ => ?_
    have hmig : r.migId = identity.migId := of_decide_eq_true (Bool.and_eq_true_iff.mp hp).1
    have hbound := hk.2
    rw [← (Table.find?_eq_some.mp hr).2, hmig, hunbound] at hbound
    cases hbound

theorem startAbort_receiving {bound started : Bool}
    (h : (startAbort identity generation nowMs bound).Returns c started c') (hk : Receiving c k) :
    Receiving c' k := by
  simp only [startAbort, Tx.bind_returns] at h
  obtain ⟨found, _, hread, h⟩ := h
  obtain ⟨rfl, -⟩ := readExactSplitState_returns hread
  cases found with
  | none =>
    simp only [Tx.bind_returns, Tx.pure_returns] at h
    obtain ⟨_, _, htomb, -, rfl⟩ := h
    exact receiving_tombstone hk htomb
  | some state =>
    simp only [abortBound, Tx.bind_returns, Tx.require_returns] at h
    obtain ⟨_, _, ⟨-, rfl⟩, h⟩ := h
    split at h
    · rw [← (Tx.pure_returns.mp h).2]
      exact hk
    · simp only [Tx.bind_returns, Tx.require_returns, Tx.pure_returns] at h
      obtain ⟨_, _, hupdate, _, _, ⟨-, rfl⟩, -, rfl⟩ := h
      exact receiving_updateSplit hk hupdate (fun _ => rfl) fun _ _ _ hrole hdrained => ⟨hrole, hdrained⟩

/-- A cleanup request for what is bound says so. -/
theorem assertCleanupIfBound_returns {t t' : IdentityTable} {requested : CdbReshardSplitIdentity}
    {bound : Bool} (h : (assertCleanupIfBound schema requested).Returns t bound t') :
    bound = (t.find? requested.migId).isSome := by
  simp only [assertCleanupIfBound, Tx.bind_returns, Tx.gets_returns] at h
  obtain ⟨found, _, ⟨rfl, rfl⟩, h⟩ := h
  cases hfind : Table.find? _ requested.migId with
  | none =>
    rw [hfind] at h
    rw [Option.isSome_none]
    exact (Tx.pure_returns.mp h).1
  | some stored =>
    rw [hfind] at h
    simp only [Tx.bind_returns, Tx.pure_returns] at h
    obtain ⟨_, _, -, rfl, -⟩ := h
    rfl

theorem beginReshardDestAbort_grows {started : Bool}
    (h : (beginReshardDestAbort schema identity generation nowMs).Returns db started db') :
    Grows db db' := by
  simp only [beginReshardDestAbort, assertDestinationGeneration, Tx.bind_returns, Tx.require_returns,
    Tx.transactionSync_returns] at h
  obtain ⟨_, _, hrange, _, _, ⟨-, rfl⟩, h⟩ := h
  obtain rfl := readOnly_assertCdbReshardRangeIdentity.returns hrange
  refine grows_onControl h fun c hc k hk => ?_
  simp only [Tx.bind_returns, Tx.gets_returns] at hc
  obtain ⟨bound, _, hbound, prepared, _, ⟨rfl, rfl⟩, hc⟩ := hc
  have hread := (readOnly_onIdentities readOnly_assertCleanupIfBound).returns hbound
  obtain ⟨ids, hids, -⟩ := onIdentities_returns.mp hbound
  obtain rfl := assertCleanupIfBound_returns hids
  subst hread
  split at hc
  · rename_i prepared hprepared
    obtain ⟨-, hnot⟩ := Option.filter_eq_some_iff.mp hprepared
    refine abortPrepared_receiving (Option.not_isSome_iff_eq_none.mp fun hsome => ?_) hc hk
    rw [show (Table.find? db.control.identities identity.migId).isSome = true from hsome] at hnot
    cases hnot
  · exact startAbort_receiving hc hk

end

/-! ## Rows come in -/

section
variable {cdb cdb' : Cdb δ} {migId : String} {key : String × String} {r : OpLogRow}

/-- What an entry of a batch does. -/
structure AppliesEntry (migId : String) (cdb cdb' : Cdb δ) : Prop where
  splitState : cdb'.domain.split.splitState = cdb.domain.split.splitState
  rows : ∀ key row, cdb.opLog.rows.find? key = some row → cdb'.opLog.rows.find? key = some row
  /-- A row is only recorded as inserted when it was not there. -/
  applied : cdb'.domain.split.applied = cdb.domain.split.applied ∨
    ∃ a : AppliedRow, a.migId = migId ∧
      cdb.domain.split.applied.insert? a = some cdb'.domain.split.applied ∧
      (a.inserted = true → cdb.opLog.rows.find? (a.principalId, a.mutId) = none ∧
        ∃ row, cdb'.opLog.rows.find? (a.principalId, a.mutId) = some row)

/-- An entry inserts into the ledger and records whether its row was new. -/
theorem applyEntry_returns {row : CapturedOpLog} {inserted : Bool}
    (h : (applyEntry migId row).Returns cdb inserted cdb') :
    ∃ changes n, (Ledger.insertOrIgnore row.toRow).Returns cdb.opLog changes cdb'.opLog ∧
      (changes = 1 →
        cdb.domain.split.applied.find? (migId, row.principalId, row.mutId) = none) ∧
      (Table.insertIgnore ⟨migId, row.principalId, row.mutId, decide (changes = 1)⟩ :
        Tx Thrown AppliedTable Nat).Returns cdb.domain.split.applied n cdb'.domain.split.applied ∧
      cdb'.domain.split.splitState = cdb.domain.split.splitState := by
  simp only [applyEntry, checkExisting, onOpLog, onApplied, onSplit_returns, Tx.bind_returns,
    Tx.gets_returns, Tx.zoom_returns, Tx.require_returns, Tx.pure_returns] at h
  obtain ⟨_, _, ⟨rfl, rfl⟩, changes, _, ⟨log, hins, rfl⟩, _, _, ⟨hnot, rfl⟩, _, _,
    ⟨existing, _, ⟨-, rfl⟩, -, rfl⟩, n, _, ⟨s', ⟨t, ht, rfl⟩, rfl⟩, -, rfl⟩ := h
  refine ⟨changes, n, hins, fun hone => ?_, ht, rfl⟩
  exact Option.not_isSome_iff_eq_none.mp fun hprior => hnot ⟨hprior, hone⟩

theorem applyEntry_effect {row : CapturedOpLog} {inserted : Bool}
    (h : (applyEntry migId row).Returns cdb inserted cdb') : AppliesEntry migId cdb cdb' := by
  obtain ⟨changes, n, hins, -, ht, hstate⟩ := applyEntry_returns h
  have hlog : (∀ key row, cdb.opLog.rows.find? key = some row → cdb'.opLog.rows.find? key = some row) ∧
      (changes = 1 → cdb.opLog.rows.find? (row.principalId, row.mutId) = none ∧
        ∃ r, cdb'.opLog.rows.find? (row.principalId, row.mutId) = some r) := by
    rcases insertOrIgnore_returns hins with ⟨rfl, heq, -⟩ | ⟨rfl, -, hrows⟩
    · exact ⟨fun _ _ h => heq ▸ h, fun h => absurd h (by decide)⟩
    · refine ⟨fun key r hr => ?_, fun _ => ⟨Table.find?_eq_none.mpr (Table.insert?_fresh hrows).1, ?_⟩⟩
      · obtain ⟨hmem, hkey⟩ := Table.find?_eq_some.mp hr
        exact Table.find?_eq_some.mpr ⟨(Table.mem_insert hrows).mpr (.inl hmem), hkey⟩
      · exact ⟨_, Table.find?_eq_some.mpr ⟨(Table.mem_insert hrows).mpr (.inr rfl), rfl⟩⟩
  refine ⟨hstate, hlog.1, ?_⟩
  rcases Table.insertIgnore_returns.mp ht with ⟨-, hi⟩ | ⟨-, -, heq⟩
  · exact .inr ⟨_, rfl, hi, fun hone => hlog.2 (of_decide_eq_true hone)⟩
  · exact .inl heq

/-- Each row a move has inserted stays, and is inserted by that move alone. -/
theorem AppliesEntry.inserted (he : AppliesEntry migId cdb cdb') (h : Inserted cdb) :
    Inserted cdb' := by
  rcases he.applied with heq | ⟨a, -, hi, hfresh⟩
  · refine ⟨fun b hb hins => ?_, fun b hb b' hb' => ?_⟩
    · obtain ⟨row, hrow⟩ := h.present b (heq ▸ hb) hins
      exact ⟨row, he.rows _ _ hrow⟩
    · exact h.one b (heq ▸ hb) b' (heq ▸ hb')
  · have hnew : ∀ b ∈ cdb.domain.split.applied, a.inserted = true → b.inserted = true →
        (b.principalId, b.mutId) ≠ (a.principalId, a.mutId) :=
      fun b hb hins => h.free (hfresh hins).1 b hb
    refine ⟨fun b hb hins => ?_, fun b hb b' hb' hins hins' hkey => ?_⟩
    · rcases (Table.mem_insert hi).mp hb with hb | rfl
      · obtain ⟨row, hrow⟩ := h.present b hb hins
        exact ⟨row, he.rows _ _ hrow⟩
      · exact (hfresh hins).2
    · rcases (Table.mem_insert hi).mp hb with hb | rfl <;>
        rcases (Table.mem_insert hi).mp hb' with hb' | rfl
      · exact h.one b hb b' hb' hins hins' hkey
      · exact absurd hkey (hnew b hb hins' hins)
      · exact absurd hkey.symm (hnew b' hb' hins hins')
      · rfl

theorem AppliesEntry.held (he : AppliesEntry migId cdb cdb') (h : Held key r cdb) :
    Held key r cdb' := by
  refine ⟨he.rows _ _ h.here, fun a ha hins => ?_⟩
  rcases he.applied with heq | ⟨b, -, hi, hfresh⟩
  · exact h.own a (heq ▸ ha) hins
  · rcases (Table.mem_insert hi).mp ha with ha | rfl
    · exact h.own a ha hins
    · rintro rfl
      have := (hfresh hins).1
      rw [h.here] at this
      cases this

theorem AppliesEntry.mem (he : AppliesEntry migId cdb cdb') {a : AppliedRow}
    (ha : a ∈ cdb'.domain.split.applied) : a ∈ cdb.domain.split.applied ∨ a.migId = migId := by
  rcases he.applied with heq | ⟨b, hb, hi, -⟩
  · exact .inl (heq ▸ ha)
  · rcases (Table.mem_insert hi).mp ha with ha | rfl
    · exact .inl ha
    · exact .inr hb

/-- What a batch does. -/
structure AppliesEntries (migId : String) (cdb cdb' : Cdb δ) : Prop where
  splitState : cdb'.domain.split.splitState = cdb.domain.split.splitState
  inserted : Inserted cdb → Inserted cdb'
  held : ∀ key r, Held key r cdb → Held key r cdb'
  mem : ∀ a ∈ cdb'.domain.split.applied, a ∈ cdb.domain.split.applied ∨ a.migId = migId

theorem applyEntries_effect {decoded : List (Int × CapturedOpLog)} {n : Nat}
    (h : (OpLog.applyEntries migId decoded).Returns cdb n cdb') : AppliesEntries migId cdb cdb' := by
  induction decoded generalizing cdb n with
  | nil =>
    obtain ⟨-, rfl⟩ := Tx.pure_returns.mp h
    exact ⟨rfl, fun h => h, fun _ _ h => h, fun _ ha => .inl ha⟩
  | cons d decoded ih =>
    obtain ⟨lsn, row⟩ := d
    simp only [OpLog.applyEntries, Tx.bind_returns, Tx.pure_returns] at h
    obtain ⟨_, mid, hone, _, _, hrest, -, rfl⟩ := h
    have he := applyEntry_effect hone
    have hes := ih hrest
    refine ⟨hes.splitState.trans he.splitState, fun h => hes.inserted (he.inserted h),
      fun key r h => hes.held key r (he.held h), fun a ha => ?_⟩
    exact (hes.mem a ha).elim he.mem .inr

/-- A batch is its entries, as far as the ledger goes. -/
theorem applySplitOpLogBatch_entries {lo hi nowMs : Int} {entries : List SplitOpLogEntry}
    {res : SplitOpLogApplyResult}
    (h : (OpLog.applySplitOpLogBatch ν migId lo hi entries nowMs).Returns cdb res cdb') :
    ∃ decoded n mid, (OpLog.applyEntries migId decoded).Returns cdb n mid ∧
      aside cdb' = aside mid := by
  simp only [OpLog.applySplitOpLogBatch, onSplit_returns, Tx.bind_returns, Tx.require_returns] at h
  obtain ⟨_, _, hrange, _, _, ⟨-, rfl⟩, cursor, _, ⟨s, hreq, rfl⟩, _, _, ⟨-, rfl⟩, decoded, _, hdec,
    _, _, ⟨-, rfl⟩, applied, mid, happ, h⟩ := h
  obtain rfl := readOnly_assertRange.returns hrange
  obtain rfl := readOnly_requiredCursor.returns hreq
  obtain ⟨rfl, -⟩ := decodeEntries_returns hdec
  refine ⟨decoded, applied, mid, happ, ?_⟩
  rcases Tx.ite_returns.mp h with ⟨-, h⟩ | ⟨-, h⟩
  · simp only [advanceCursor, onCursors, Tx.bind_returns, onSplit_returns, Tx.zoom_returns,
      Tx.require_returns, Tx.pure_returns] at h
    obtain ⟨_, _, ⟨s', ⟨_, _, ⟨t, -, rfl⟩, -, rfl⟩, rfl⟩, -, rfl⟩ := h
    rfl
  · rw [(Tx.pure_returns.mp h).2]

theorem applySplitOpLogBatch_effect {lo hi nowMs : Int} {entries : List SplitOpLogEntry}
    {res : SplitOpLogApplyResult}
    (h : (OpLog.applySplitOpLogBatch ν migId lo hi entries nowMs).Returns cdb res cdb') :
    AppliesEntries migId cdb cdb' := by
  obtain ⟨decoded, n, mid, happ, haside⟩ := applySplitOpLogBatch_entries h
  have hes := applyEntries_effect happ
  have hlog : cdb'.opLog = mid.opLog := congrArg Prod.fst haside
  have happlied : cdb'.domain.split.applied = mid.domain.split.applied :=
    congrArg (fun x => x.2.1) haside
  have hstate : cdb'.domain.split.splitState = mid.domain.split.splitState :=
    congrArg (fun x => x.2.2) haside
  refine ⟨hstate.trans hes.splitState, fun h => ?_, fun key r h => ?_, fun a ha => ?_⟩
  · have hmid := hes.inserted h
    exact ⟨by rw [happlied, hlog]; exact hmid.present, by rw [happlied]; exact hmid.one⟩
  · have hmid := hes.held key r h
    exact ⟨by rw [hlog]; exact hmid.here, by rw [happlied]; exact hmid.own⟩
  · rw [happlied] at ha
    exact hes.mem a ha

end

end Chardb.Moves
