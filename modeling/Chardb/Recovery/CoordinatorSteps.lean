import Chardb.Recovery.Coordinator

/-!
# What a call of the coordinator does

One inversion lemma for each call: a call that returns leaves the store as it was, or it does the
one thing that `CallEffect` lists for it.
-/

namespace Chardb.Recovery

open Chardb.Lib Reshard

/-! ## Reading a row -/

/-- The state says what the row says. -/
def StoredOperation.Reads (row : StoredOperation) : RecoveryCoordinatorState → Prop
  | .new _ => False
  | .preparing i json => row.phase = .preparing ∧ i.digest = row.digest ∧ row.continuationJson = some json
  | .committing i provider commitIndex => row.phase = .committing ∧ i.digest = row.digest ∧
    provider = row.provider ∧ commitIndex = row.commitIndex
  | .reconciling i provider json => row.phase = .reconciling ∧ i.digest = row.digest ∧
    provider = row.provider ∧ row.continuationJson = some json
  | .releasing i provider reconciled releaseIndex => row.phase = .releasing ∧
    i.digest = row.digest ∧ provider = row.provider ∧
    reconciled = ⟨row.filesRehydrated.getD 0, row.vectorsRequeued.getD 0⟩ ∧
    releaseIndex = row.releaseIndex
  | .catalog i provider reconciled => row.phase = .catalog ∧ i.digest = row.digest ∧
    provider = row.provider ∧ reconciled = ⟨row.filesRehydrated.getD 0, row.vectorsRequeued.getD 0⟩
  | .complete i provider reconciled => row.phase = .complete ∧ i.digest = row.digest ∧
    provider = row.provider ∧ reconciled = ⟨row.filesRehydrated.getD 0, row.vectorsRequeued.getD 0⟩

theorem count_ok {value a : Int} {label : String} (h : count value label = .ok a) :
    a = value ∧ IsCounter value := by
  unfold count at h
  split at h
  · rename_i hc
    exact ⟨(Except.ok.inj h).symm, hc⟩
  · cases h

theorem project_reads {row : StoredOperation} {st : RecoveryCoordinatorState}
    (h : row.project = .ok st) : row.Reads st := by
  obtain ⟨generation, -, h⟩ := bind_ok h
  split at h
  · rename_i hphase
    split at h
    · rename_i json hjson
      cases h
      exact ⟨hphase, rfl, hjson⟩
    · cases h
  · rename_i hpreparing
    obtain ⟨files, hfiles, h⟩ := bind_ok h
    obtain ⟨retained, hretained, h⟩ := bind_ok h
    obtain ⟨vectors, hvectors, h⟩ := bind_ok h
    have hprovider : (⟨files, retained, vectors⟩ : RecoveryProviderCounts) = row.provider := by
      rw [(count_ok hfiles).1, (count_ok hretained).1, (count_ok hvectors).1]
    split at h
    · rename_i hphase
      obtain ⟨commitIndex, hindex, h⟩ := bind_ok h
      cases h
      exact ⟨hphase, rfl, hprovider, (count_ok hindex).1⟩
    · rename_i hcommitting
      split at h
      · rename_i hphase
        split at h
        · rename_i json hjson
          cases h
          exact ⟨hphase, rfl, hprovider, hjson⟩
        · cases h
      · rename_i hreconciling
        obtain ⟨rehydrated, hr, h⟩ := bind_ok h
        obtain ⟨requeued, hq, h⟩ := bind_ok h
        have hreconciled : (⟨rehydrated, requeued⟩ : RecoveryReconcileCounts) =
            ⟨row.filesRehydrated.getD 0, row.vectorsRequeued.getD 0⟩ := by
          rw [(count_ok hr).1, (count_ok hq).1]
        split at h
        · rename_i hphase
          obtain ⟨releaseIndex, hindex, h⟩ := bind_ok h
          cases h
          exact ⟨hphase, rfl, hprovider, hreconciled, (count_ok hindex).1⟩
        · rename_i hreleasing
          split at h
          · rename_i hphase
            cases h
            exact ⟨hphase, rfl, hprovider, hreconciled⟩
          · rename_i hcatalog
            cases h
            have hphase : row.phase = .complete := by
              cases hp : row.phase <;> simp_all
            exact ⟨hphase, rfl, hprovider, hreconciled⟩

/-- What `read` finds. -/
inductive Found (db : CoordinatorDb) (operationId : String) : RecoveryCoordinatorState → Prop
  | new : db.operation? operationId = none → Found db operationId (.new operationId)
  | row {row : StoredOperation} {st : RecoveryCoordinatorState} :
    db.operation? operationId = some row → row.Reads st → Found db operationId st

section
variable {db db' : CoordinatorDb} {operationId : String} {st : RecoveryCoordinatorState}

theorem operation?_id {row : StoredOperation} (h : db.operation? operationId = some row) :
    row.operationId = operationId := (Table.find?_eq_some.mp h).2

theorem readOnly_read : (read operationId).ReadOnly := by
  refine (Tx.readOnly_require _ _).bind fun _ => (Tx.readOnly_gets _).bind fun row => ?_
  cases row with
  | none => exact Tx.readOnly_pure _
  | some row => exact Tx.readOnly_ofExcept _

theorem read_returns (h : (read operationId).Returns db st db') :
    db' = db ∧ Found db operationId st := by
  obtain rfl := readOnly_read.returns h
  refine ⟨rfl, ?_⟩
  unfold read at h
  simp only [Tx.bind_returns, Tx.require_returns, Tx.gets_returns] at h
  obtain ⟨-, _, ⟨-, rfl⟩, row, _, ⟨rfl, rfl⟩, h⟩ := h
  cases hrow : CoordinatorDb.operation? _ operationId with
  | none =>
    rw [hrow] at h
    obtain ⟨rfl, -⟩ := Tx.pure_returns.mp h
    exact .new hrow
  | some row =>
    rw [hrow] at h
    obtain ⟨hok, -⟩ := Tx.ofExcept_returns.mp h
    exact .row hrow (project_reads hok)

/-- A state other than `new` comes from a row. -/
theorem Found.row_of {i : RecoveryIdentity} (h : Found db operationId st)
    (hi : st.identity? = some i) :
    ∃ row, db.operation? operationId = some row ∧ row.Reads st := by
  cases h with
  | new hnone => cases hi
  | row hrow hreads => exact ⟨_, hrow, hreads⟩

theorem readOnly_activeClock {generation : Int} : (activeClock generation operationId).ReadOnly :=
  (Tx.readOnly_gets _).bind fun _ => (Tx.readOnly_ofOption _ _).bind fun _ =>
    (Tx.readOnly_ofExcept _).bind fun _ => (Tx.readOnly_require _ _).bind fun _ => Tx.readOnly_pure _

theorem readOnly_admissionClock : admissionClock.ReadOnly := by
  refine (Tx.readOnly_gets _).bind fun clock => (Tx.readOnly_ofExcept _).bind fun generation => ?_
  cases clock.activeOperationId with
  | none => exact Tx.readOnly_pure _
  | some id => exact readOnly_activeClock

/-- The clock as it is read, with the digest of the operation that it names. -/
theorem admissionClock_returns {clock : RecoveryAdmissionClock}
    (h : admissionClock.Returns db clock db') :
    db' = db ∧ clock.generation = db.clock.generation ∧
      clock.activeOperationId = db.clock.activeOperationId ∧ IsCounter db.clock.generation ∧
      (clock.activeDigest.isSome = clock.activeOperationId.isSome) ∧
      ∀ id, db.clock.activeOperationId = some id → ∃ r, db.operation? id = some r ∧
        r.phase ≠ .complete ∧ r.generation = db.clock.generation := by
  obtain rfl := readOnly_admissionClock.returns h
  refine ⟨rfl, ?_⟩
  unfold admissionClock at h
  simp only [Tx.bind_returns, Tx.gets_returns, Tx.ofExcept_returns] at h
  obtain ⟨_, _, ⟨rfl, rfl⟩, generation, _, ⟨hgeneration, rfl⟩, h⟩ := h
  obtain ⟨rfl, hcounter⟩ := count_ok hgeneration
  cases hactive : (CoordinatorDb.clock _).activeOperationId with
  | none =>
    rw [hactive] at h
    obtain ⟨rfl, -⟩ := Tx.pure_returns.mp h
    exact ⟨rfl, rfl, hcounter, rfl, by simp⟩
  | some id =>
    rw [hactive] at h
    unfold activeClock at h
    simp only [Tx.bind_returns, Tx.gets_returns, Tx.ofOption_returns, Tx.ofExcept_returns,
      Tx.require_returns, Tx.pure_returns] at h
    obtain ⟨_, _, ⟨rfl, rfl⟩, active, _, ⟨hfilter, rfl⟩, g, _, ⟨hg, rfl⟩, -, _, ⟨hsame, rfl⟩, rfl, -⟩ := h
    obtain ⟨hfound, hphase⟩ := Option.filter_eq_some_iff.mp hfilter
    obtain ⟨rfl, -⟩ := count_ok hg
    refine ⟨rfl, ?_, hcounter, rfl, ?_⟩
    · exact congrArg some (operation?_id hfound)
    · intro id' hid
      obtain rfl := Option.some.inj hid
      exact ⟨active, hfound, by simpa using hphase, hsame⟩

end

/-! ## Effects -/

/-- A call moves one row. -/
inductive RowStep : RecoveryCall → StoredOperation → StoredOperation → Prop
  | savePreparation {r : StoredOperation} (json : String) : r.phase = .preparing →
    RowStep (.savePreparation r.operationId json) r { r with continuationJson := some json }
  | beginCommits {r : StoredOperation} (counts : RecoveryProviderCounts) : r.phase = .preparing →
    RowStep (.beginCommits r.operationId counts) r
      { r with phase := .committing, provider := counts, continuationJson := none }
  | advanceShard {r : StoredOperation} (objectId : String) : r.phase = .committing →
    RowStep (.advanceShard r.operationId r.commitIndex objectId) r
      { r with commitIndex := r.commitIndex + 1 }
  | finishShards {r : StoredOperation} (json : String) : r.phase = .committing →
    RowStep (.finishShards r.operationId json r.commitIndex) r
      { r with phase := .reconciling, continuationJson := some json }
  | saveReconcile {r : StoredOperation} (json : String) : r.phase = .reconciling →
    RowStep (.saveReconcile r.operationId json) r { r with continuationJson := some json }
  | beginReleases {r : StoredOperation} (counts : RecoveryReconcileCounts) : r.phase = .reconciling →
    RowStep (.beginReleases r.operationId counts) r
      { r with
        phase := .releasing
        filesRehydrated := some counts.filesRehydrated
        vectorsRequeued := some counts.vectorsRequeued
        continuationJson := none }
  | advanceRelease {r : StoredOperation} : r.phase = .releasing →
    RowStep (.advanceRelease r.operationId r.releaseIndex) r
      { r with releaseIndex := r.releaseIndex + 1 }
  | beginCatalog {r : StoredOperation} : r.phase = .releasing →
    RowStep (.beginCatalog r.operationId r.releaseIndex) r { r with phase := .catalog }

/-- The row of a claimed operation. -/
def preparation (operationId digest json : String) (generation : Int) : StoredOperation where
  operationId
  digest
  generation
  phase := .preparing
  provider := ⟨0, 0, 0⟩
  continuationJson := some json

def CoordinatorDb.SameCommits (db db' : CoordinatorDb) : Prop :=
  ∀ k o, db'.commit? k o = db.commit? k o

/-- Everything that a call can do to the store. -/
inductive CallEffect (db db' : CoordinatorDb) : RecoveryCall → Prop
  | none {call : RecoveryCall} : db' = db → CallEffect db db' call
  | claimed {resharding : Bool} {operationId digest json : String} :
    isRecoveryOperationId operationId = true →
    db.clock.activeOperationId = .none → db.operation? operationId = .none →
    db.clock.generation < MAX_SAFE_INTEGER →
    db'.clock = ⟨db.clock.generation + 1, some operationId⟩ →
    db'.operations.rows = db.operations.rows ++
      [preparation operationId digest json (db.clock.generation + 1)] →
    db.SameCommits db' → CallEffect db db' (.claimPreparation resharding operationId digest json)
  | moved {call : RecoveryCall} {r r' : StoredOperation} : RowStep call r r' →
    db.operation? r.operationId = some r → db'.clock = db.clock →
    db'.operations.rows = db.operations.rows.map (fun x => if x.operationId = r.operationId then r' else x) →
    db.SameCommits db' →
    (∀ objectId, call = .advanceShard r.operationId r.commitIndex objectId →
      (db.commit? r.operationId objectId).map StoredCommit.status = some .scheduled) →
    CallEffect db db' call
  | cancelled {operationId : String} {r : StoredOperation} : db.operation? operationId = some r →
    r.phase = .preparing → db.clock.activeOperationId = some operationId →
    db'.clock = { db.clock with activeOperationId := .none } →
    db'.operations.rows = db.operations.rows.filter (fun x => decide (x.operationId ≠ operationId)) →
    (∀ k o, db'.commit? k o = if k = operationId then .none else db.commit? k o) →
    CallEffect db db' (.cancelPreparation operationId)
  | completed {operationId : String} {r : StoredOperation} {mid : CoordinatorDb} :
    db.operation? operationId = some r → r.phase = .catalog →
    db.clock.activeOperationId = some operationId →
    mid.operations.rows = db.operations.rows.map (fun x =>
      if x.operationId = operationId then { r with phase := .complete } else x) →
    db'.clock = { db.clock with activeOperationId := .none } →
    db'.operations.rows = mid.operations.rows.filter (fun x => decide (x.operationId ∉ mid.retired)) →
    (∀ k o, db'.commit? k o = if k ∈ mid.retired then .none else db.commit? k o) →
    CallEffect db db' (.complete operationId)
  | recorded {call : RecoveryCall} {operationId o : String} {c : StoredCommit} :
    (db.operation? operationId).isSome = true → db'.clock = db.clock → db'.operations = db.operations →
    (∀ k x, db'.commit? k x = if (operationId, o) = (k, x) then some c else db.commit? k x) →
    (∀ old, db.commit? operationId o = some old → old.status = .scheduled →
      c.status = .scheduled) →
    CallEffect db db' call

/-! ## The writes -/

section
variable {db db' : CoordinatorDb} {operationId : String}

@[simp] theorem onOperations_returns {α : Type} {x : Tx Thrown OperationTable α} {a : α} :
    (onOperations x).Returns db a db' ↔
      ∃ t, x.Returns db.operations a t ∧ db' = { db with operations := t } := Tx.zoom_returns

@[simp] theorem onOperations_throws {α : Type} {x : Tx Thrown OperationTable α} {e : Thrown} :
    (onOperations x).Throws db e db' ↔
      ∃ t, x.Throws db.operations e t ∧ db' = { db with operations := t } := Tx.zoom_throws

@[simp] theorem onCommits_returns {α : Type} {x : Tx Thrown CommitTable α} {a : α} :
    (onCommits x).Returns db a db' ↔
      ∃ t, x.Returns db.commits a t ∧ db' = { db with commits := t } := Tx.zoom_returns

@[simp] theorem onCommits_throws {α : Type} {x : Tx Thrown CommitTable α} {e : Thrown} :
    (onCommits x).Throws db e db' ↔
      ∃ t, x.Throws db.commits e t ∧ db' = { db with commits := t } := Tx.zoom_throws

/-- An update of the operation that was read changes its row, and nothing else. -/
theorem updateOperation_returns {p : StoredOperation → Bool} {f : StoredOperation → StoredOperation}
    {n : Nat} {r : StoredOperation} (h : (updateOperation operationId p f).Returns db n db')
    (hr : db.operation? operationId = some r) (hp : p r = true) :
    n = 1 ∧ db'.clock = db.clock ∧ db'.commits = db.commits ∧ db'.operations.rows =
      db.operations.rows.map fun x => if x.operationId = operationId then f r else x := by
  unfold updateOperation at h
  obtain ⟨t, hu, rfl⟩ := onOperations_returns.mp h
  obtain ⟨hrows, rfl⟩ := Table.update_returns.mp hu
  refine ⟨?_, rfl, rfl, ?_⟩
  · rw [Table.select_key_length, show db.operations.find? operationId = some r from hr,
      Option.any_some, hp, if_pos rfl]
  · rw [Table.rows_update hrows]
    refine List.map_congr_left fun x hx => ?_
    by_cases hid : x.operationId = operationId
    · obtain rfl : x = r :=
        Table.eq_of_key hx (Table.find?_eq_some.mp hr).1 (hid.trans (operation?_id hr).symm)
      simp [hid, hp]
    · simp [hid]

theorem updateOperation_throws {p : StoredOperation → Bool} {f : StoredOperation → StoredOperation}
    {e : Thrown} (h : (updateOperation operationId p f).Throws db e db') : db' = db := by
  unfold updateOperation at h
  obtain ⟨t, hu, rfl⟩ := onOperations_throws.mp h
  obtain ⟨-, -, rfl⟩ := Table.update_throws.mp hu
  rfl

theorem clearActive_returns {message : String} {a : Unit}
    (h : (clearActive operationId message).Returns db a db') :
    db.clock.activeOperationId = some operationId ∧
      db' = { db with clock := { db.clock with activeOperationId := none } } := by
  unfold clearActive at h
  simp only [Tx.bind_returns, Tx.gets_returns, Tx.require_returns, Tx.modify_returns] at h
  obtain ⟨_, _, ⟨rfl, rfl⟩, -, _, ⟨hactive, rfl⟩, rfl⟩ := h
  exact ⟨hactive, rfl⟩

theorem clearActive_throws {message : String} {e : Thrown}
    (h : (clearActive operationId message).Throws db e db') :
    db' = db ∧ db.clock.activeOperationId ≠ some operationId := by
  unfold clearActive at h
  simp only [Tx.bind_throws, Tx.gets_returns, Tx.gets_throws, Tx.require_returns, Tx.require_throws,
    Tx.modify_throws, and_false, exists_false, or_false, false_or] at h
  obtain ⟨_, _, ⟨rfl, rfl⟩, hactive, -, rfl⟩ := h
  exact ⟨rfl, hactive⟩

/-- A delete of operations takes exactly their commits along. -/
theorem deleteOperations_returns {p : StoredOperation → Bool} {n : Nat}
    (h : (deleteOperations p).Returns db n db') :
    n = (db.operations.select p).length ∧ db'.clock = db.clock ∧
      db'.operations.rows = db.operations.rows.filter (fun x => !p x) ∧
      ∀ k o, db'.commit? k o =
        if k ∈ (db.operations.select p).map StoredOperation.operationId then none else db.commit? k o := by
  unfold deleteOperations at h
  simp only [Tx.bind_returns, Tx.gets_returns, onCommits_returns, onOperations_returns,
    Table.delete_returns] at h
  obtain ⟨_, _, ⟨rfl, rfl⟩, _, _, ⟨_, ⟨rfl, rfl⟩, rfl⟩, _, ⟨rfl, rfl⟩, rfl⟩ := h
  refine ⟨rfl, rfl, rfl, fun k o => ?_⟩
  show Table.find? (Table.deleteWhere _ _) (k, o) = _
  rw [Table.find?_deleteWhere]
  show _ = if _ then none else Table.find? db.commits (k, o)
  cases hc : db.commits.find? (k, o) with
  | none => simp
  | some c =>
    have hkey : c.operationId = k := congrArg Prod.fst (Table.find?_eq_some.mp hc).2
    simp only [Option.filter, hkey]
    by_cases hk : k ∈ (db.operations.select p).map StoredOperation.operationId <;> simp [hk]

theorem not_throws_deleteOperations {p : StoredOperation → Bool} {e : Thrown}
    (h : (deleteOperations p).Throws db e db') : False := by
  unfold deleteOperations at h
  simp [Tx.bind_throws] at h

/-- The rows of the one operation under an id. -/
theorem select_operation {r : StoredOperation} {p : StoredOperation → Bool}
    (hr : db.operation? operationId = some r) (hp : p r = true) :
    (db.operations.select fun x => decide (x.operationId = operationId) && p x) = [r] := by
  have hlen : (db.operations.select fun x => decide (x.operationId = operationId) && p x).length = 1 := by
    rw [Table.select_key_length, show db.operations.find? operationId = some r from hr,
      Option.any_some, hp, if_pos rfl]
  obtain ⟨x, hx⟩ := List.length_eq_one_iff.mp hlen
  have hmem : r ∈ db.operations.select fun x => decide (x.operationId = operationId) && p x :=
    Table.mem_select.mpr ⟨(Table.find?_eq_some.mp hr).1, by simp [operation?_id hr, hp]⟩
  rw [hx] at hmem ⊢
  rw [List.mem_singleton.mp hmem]

end

/-! ## The calls -/

section
variable {db db' : CoordinatorDb} {parses : ContinuationKind → String → Bool}
  {operationId digest json : String} {st : RecoveryCoordinatorState}

theorem sameCommits_of_eq (h : db'.commits = db.commits) : db.SameCommits db' := fun k o => by
  unfold CoordinatorDb.commit?
  rw [h]

/-- A call that moves the row it has read. -/
theorem CallEffect.of_update {call : RecoveryCall} {r : StoredOperation}
    {p : StoredOperation → Bool} {f : StoredOperation → StoredOperation} {n : Nat}
    (h : (updateOperation operationId p f).Returns db n db')
    (hr : db.operation? operationId = some r) (hp : p r = true) (hstep : RowStep call r (f r))
    (hcommit : ∀ objectId, call = .advanceShard r.operationId r.commitIndex objectId →
      (db.commit? r.operationId objectId).map StoredCommit.status = some .scheduled) :
    CallEffect db db' call := by
  obtain ⟨-, hclock, hcommits, hrows⟩ := updateOperation_returns h hr hp
  have hid := operation?_id hr
  exact .moved hstep (hid ▸ hr) hclock (hid ▸ hrows) (sameCommits_of_eq hcommits) hcommit

theorem claimPreparation_effect {resharding : Bool}
    (h : (claimPreparation parses resharding operationId digest json).Returns db st db') :
    CallEffect db db' (.claimPreparation resharding operationId digest json) := by
  unfold claimPreparation at h
  simp only [Tx.bind_returns, Tx.ofExcept_returns] at h
  obtain ⟨_, _, ⟨hidentity, rfl⟩, _, _, ⟨-, rfl⟩, existing, mid, hread, h⟩ := h
  obtain ⟨rfl, hfound⟩ := read_returns hread
  have hid : isRecoveryOperationId operationId = true := by
    by_contra hid
    rw [assertIdentity, if_pos (by simpa using hid)] at hidentity
    cases hidentity
  cases hexisting : existing.identity? with
  | some identity =>
    rw [hexisting] at h
    simp only [Tx.bind_returns, Tx.require_returns, Tx.pure_returns] at h
    obtain ⟨-, _, ⟨-, rfl⟩, -, rfl⟩ := h
    exact .none rfl
  | none =>
    rw [hexisting] at h
    have hnone : CoordinatorDb.operation? mid operationId = none := by
      cases hfound with
      | new hnone => exact hnone
      | row hrow hreads => cases existing <;> first | exact hreads.elim | cases hexisting
    unfold claimNew at h
    simp only [Tx.bind_returns] at h
    obtain ⟨clock, mid', hclock, h⟩ := h
    obtain ⟨rfl, hgeneration, hactive, -⟩ := admissionClock_returns hclock
    cases hid' : clock.activeOperationId with
    | some activeId =>
      rw [hid'] at h
      simp only [Tx.bind_returns, Tx.require_returns] at h
      obtain ⟨-, _, ⟨-, rfl⟩, h⟩ := h
      obtain ⟨rfl, -⟩ := read_returns h
      exact .none rfl
    | none =>
      rw [hid'] at h
      unfold insertPreparation at h
      simp only [Tx.bind_returns, Tx.require_returns, onOperations_returns, Table.insert_returns,
        Tx.modify_returns, Tx.pure_returns] at h
      obtain ⟨-, _, ⟨-, rfl⟩, -, _, ⟨hmax, rfl⟩, -, _, ⟨-, _, ⟨t, hinsert, rfl⟩, rfl⟩, -, rfl⟩ := h
      refine .claimed hid (hactive ▸ hid') hnone (hgeneration ▸ hmax) ?_ ?_ fun _ _ => rfl
      · rw [hgeneration]
      · show t.rows = _
        rw [Table.rows_insert hinsert, hgeneration]
        rfl

theorem savePreparation_effect
    (h : (savePreparation parses operationId json).Returns db st db') :
    CallEffect db db' (.savePreparation operationId json) := by
  unfold savePreparation at h
  simp only [Tx.bind_returns] at h
  obtain ⟨current, mid, hread, h⟩ := h
  obtain ⟨rfl, hfound⟩ := read_returns hread
  split at h
  · obtain ⟨r, hr, hphase, -⟩ := hfound.row_of rfl
    simp only [Tx.bind_returns, Tx.ofExcept_returns, Tx.pure_returns] at h
    obtain ⟨_, _, ⟨-, rfl⟩, _, _, hupdate, -, rfl⟩ := h
    obtain rfl := operation?_id hr
    exact .of_update hupdate hr (by simp [hphase]) (.savePreparation json hphase) (by simp)
  · obtain ⟨-, rfl⟩ := Tx.pure_returns.mp h
    exact .none rfl

theorem cancelPreparation_effect {clock : RecoveryAdmissionClock}
    (h : (cancelPreparation operationId).Returns db clock db') :
    CallEffect db db' (.cancelPreparation operationId) := by
  unfold cancelPreparation at h
  simp only [Tx.bind_returns] at h
  obtain ⟨current, mid, hread, h⟩ := h
  obtain ⟨rfl, hfound⟩ := read_returns hread
  split at h
  · obtain ⟨r, hr, hphase, -⟩ := hfound.row_of rfl
    simp only [Tx.bind_returns, Tx.require_returns, Tx.pure_returns] at h
    obtain ⟨clock', mid', hclock, -, _, ⟨hactive, rfl⟩, n, del, hdelete, _, _, ⟨-, rfl⟩, _, _,
      hclear, -, rfl⟩ := h
    obtain ⟨rfl, -, hactive', -⟩ := admissionClock_returns hclock
    obtain ⟨-, hclk, hrows, hcommits⟩ := deleteOperations_returns hdelete
    obtain ⟨-, rfl⟩ := clearActive_returns hclear
    have hselect := select_operation (p := fun x => decide (x.phase = .preparing)) hr (by simp [hphase])
    have hid := operation?_id hr
    refine .cancelled hr hphase (hactive' ▸ hactive) ?_ ?_ ?_
    · rw [hclk]
    · show del.operations.rows = _
      rw [hrows]
      refine List.filter_congr fun x hx => ?_
      by_cases hxid : x.operationId = operationId
      · obtain rfl : x = r := Table.eq_of_key hx (Table.find?_eq_some.mp hr).1 (hxid.trans hid.symm)
        simp [hxid, hphase]
      · simp [hxid]
    · intro k o
      show CoordinatorDb.commit? del k o = _
      rw [hcommits, hselect, List.map_singleton, hid]
      simp
  · exact (Tx.throw_returns.mp h).elim

theorem beginCommits_effect {counts : RecoveryProviderCounts}
    (h : (beginCommits operationId counts).Returns db st db') :
    CallEffect db db' (.beginCommits operationId counts) := by
  unfold beginCommits at h
  simp only [Tx.bind_returns, Tx.ofExcept_returns] at h
  obtain ⟨_, _, ⟨-, rfl⟩, current, mid, hread, h⟩ := h
  obtain ⟨rfl, hfound⟩ := read_returns hread
  split at h
  · exact (Tx.throw_returns.mp h).elim
  · obtain ⟨r, hr, hphase, -⟩ := hfound.row_of rfl
    simp only [Tx.bind_returns, Tx.pure_returns] at h
    obtain ⟨_, _, hupdate, -, rfl⟩ := h
    obtain rfl := operation?_id hr
    exact .of_update hupdate hr rfl (.beginCommits counts hphase) (by simp)
  · simp only [Tx.bind_returns, Tx.require_returns, Tx.pure_returns] at h
    obtain ⟨-, _, ⟨-, rfl⟩, -, rfl⟩ := h
    exact .none rfl

theorem finishShards_effect {shardCount : Int}
    (h : (finishShards parses operationId json shardCount).Returns db st db') :
    CallEffect db db' (.finishShards operationId json shardCount) := by
  unfold finishShards at h
  simp only [Tx.bind_returns, Tx.ofExcept_returns] at h
  obtain ⟨_, _, ⟨-, rfl⟩, current, mid, hread, h⟩ := h
  obtain ⟨rfl, hfound⟩ := read_returns hread
  split at h
  · obtain ⟨r, hr, hphase, -, -, hindex⟩ := hfound.row_of rfl
    simp only [Tx.bind_returns, Tx.require_returns, Tx.pure_returns] at h
    obtain ⟨-, _, ⟨-, rfl⟩, -, _, ⟨hcount, rfl⟩, _, _, hupdate, -, rfl⟩ := h
    obtain rfl := operation?_id hr
    obtain rfl := hindex.symm.trans hcount
    exact .of_update hupdate hr rfl (.finishShards json hphase) (by simp)
  · obtain ⟨-, rfl⟩ := Tx.pure_returns.mp h
    exact .none rfl

theorem advanceShard_effect {index : Int} {objectId : String}
    (h : (advanceShard operationId index objectId).Returns db st db') :
    CallEffect db db' (.advanceShard operationId index objectId) := by
  unfold advanceShard at h
  simp only [Tx.bind_returns] at h
  obtain ⟨current, mid, hread, h⟩ := h
  obtain ⟨rfl, hfound⟩ := read_returns hread
  split at h
  · obtain ⟨r, hr, hphase, -, -, hindex⟩ := hfound.row_of rfl
    simp only [Tx.bind_returns, Tx.require_returns, Tx.gets_returns, Tx.pure_returns] at h
    obtain ⟨-, _, ⟨⟨-, hat, -⟩, rfl⟩, _, _, ⟨rfl, rfl⟩, -, _, ⟨hcommit, rfl⟩, _, _, hupdate, -, _,
      ⟨-, rfl⟩, -, rfl⟩ := h
    obtain rfl := operation?_id hr
    obtain rfl := hindex.symm.trans hat
    refine .of_update hupdate hr (by simp [hphase]) (.advanceShard objectId hphase) ?_
    rintro o ho
    obtain rfl : objectId = o := by simpa using ho
    exact hcommit
  · obtain ⟨-, rfl⟩ := Tx.pure_returns.mp h
    exact .none rfl

theorem saveReconcile_effect
    (h : (saveReconcile parses operationId json).Returns db st db') :
    CallEffect db db' (.saveReconcile operationId json) := by
  unfold saveReconcile at h
  simp only [Tx.bind_returns, Tx.ofExcept_returns] at h
  obtain ⟨_, _, ⟨-, rfl⟩, current, mid, hread, h⟩ := h
  obtain ⟨rfl, hfound⟩ := read_returns hread
  split at h
  · obtain ⟨r, hr, hphase, -⟩ := hfound.row_of rfl
    simp only [Tx.bind_returns, Tx.pure_returns] at h
    obtain ⟨_, _, hupdate, -, rfl⟩ := h
    obtain rfl := operation?_id hr
    exact .of_update hupdate hr (by simp [hphase]) (.saveReconcile json hphase) (by simp)
  · obtain ⟨-, rfl⟩ := Tx.pure_returns.mp h
    exact .none rfl

theorem beginReleases_effect {counts : RecoveryReconcileCounts}
    (h : (beginReleases operationId counts).Returns db st db') :
    CallEffect db db' (.beginReleases operationId counts) := by
  unfold beginReleases at h
  simp only [Tx.bind_returns, Tx.ofExcept_returns] at h
  obtain ⟨_, _, ⟨-, rfl⟩, current, mid, hread, h⟩ := h
  obtain ⟨rfl, hfound⟩ := read_returns hread
  split at h
  iterate 3 exact (Tx.throw_returns.mp h).elim
  · obtain ⟨r, hr, hphase, -⟩ := hfound.row_of rfl
    simp only [Tx.bind_returns, Tx.pure_returns] at h
    obtain ⟨_, _, hupdate, -, rfl⟩ := h
    obtain rfl := operation?_id hr
    exact .of_update hupdate hr rfl (.beginReleases counts hphase) (by simp)
  · simp only [Tx.bind_returns, Tx.require_returns, Tx.pure_returns] at h
    obtain ⟨-, _, ⟨-, rfl⟩, -, rfl⟩ := h
    exact .none rfl

theorem advanceRelease_effect {index : Int}
    (h : (advanceRelease operationId index).Returns db st db') :
    CallEffect db db' (.advanceRelease operationId index) := by
  unfold advanceRelease at h
  simp only [Tx.bind_returns] at h
  obtain ⟨current, mid, hread, h⟩ := h
  obtain ⟨rfl, hfound⟩ := read_returns hread
  split at h
  · obtain ⟨r, hr, hphase, -, -, -, hindex⟩ := hfound.row_of rfl
    simp only [Tx.bind_returns, Tx.require_returns, Tx.pure_returns] at h
    obtain ⟨-, _, ⟨⟨-, hat⟩, rfl⟩, _, _, hupdate, -, _, ⟨-, rfl⟩, -, rfl⟩ := h
    obtain rfl := operation?_id hr
    obtain rfl := hindex.symm.trans hat
    exact .of_update hupdate hr (by simp [hphase]) (.advanceRelease hphase) (by simp)
  · obtain ⟨-, rfl⟩ := Tx.pure_returns.mp h
    exact .none rfl

theorem beginCatalog_effect {shardCount : Int}
    (h : (beginCatalog operationId shardCount).Returns db st db') :
    CallEffect db db' (.beginCatalog operationId shardCount) := by
  unfold beginCatalog at h
  simp only [Tx.bind_returns] at h
  obtain ⟨current, mid, hread, h⟩ := h
  obtain ⟨rfl, hfound⟩ := read_returns hread
  split at h
  · obtain ⟨r, hr, hphase, -, -, -, hindex⟩ := hfound.row_of rfl
    simp only [Tx.bind_returns, Tx.require_returns, Tx.pure_returns] at h
    obtain ⟨-, _, ⟨⟨-, -, hcount⟩, rfl⟩, _, _, hupdate, -, rfl⟩ := h
    obtain rfl := operation?_id hr
    obtain rfl := hindex.symm.trans hcount
    exact .of_update hupdate hr rfl (.beginCatalog hphase) (by simp)
  · obtain ⟨-, rfl⟩ := Tx.pure_returns.mp h
    exact .none rfl

theorem pruneTerminal_returns {a : Unit} (h : pruneTerminal.Returns db a db') :
    db'.clock = db.clock ∧
      db'.operations.rows = db.operations.rows.filter (fun x => decide (x.operationId ∉ db.retired)) ∧
      ∀ k o, db'.commit? k o = if k ∈ db.retired then none else db.commit? k o := by
  unfold pruneTerminal at h
  simp only [Tx.bind_returns, Tx.gets_returns, onCommits_returns, Table.delete_returns,
    Tx.pure_returns] at h
  obtain ⟨retired, _, ⟨rfl, rfl⟩, _, _, ⟨_, ⟨rfl, rfl⟩, rfl⟩, n, del, hdelete, -, rfl⟩ := h
  obtain ⟨-, hclock, hrows, hcommits⟩ := deleteOperations_returns hdelete
  refine ⟨hclock, ?_, fun k o => ?_⟩
  · rw [hrows]
    simp
  · rw [hcommits]
    show (if k ∈ _ then none else Table.find? (Table.deleteWhere _ _) (k, o)) = _
    rw [Table.find?_deleteWhere]
    show _ = if _ then none else Table.find? db.commits (k, o)
    cases hc : Table.find? db.commits (k, o) with
    | none => simp
    | some c =>
      have hkey : c.operationId = k := congrArg Prod.fst (Table.find?_eq_some.mp hc).2
      by_cases hk : k ∈ db.retired
      · simp [Option.filter, hkey, hk]
      · rw [if_neg hk, if_neg]
        · simp [Option.filter, hkey, hk]
        · intro hmem
          obtain ⟨x, hx, hxk⟩ := List.mem_map.mp hmem
          exact hk (hxk ▸ of_decide_eq_true (Table.mem_select.mp hx).2)

theorem complete_effect (h : (complete operationId).Returns db st db') :
    CallEffect db db' (.complete operationId) := by
  unfold complete at h
  simp only [Tx.bind_returns] at h
  obtain ⟨current, mid, hread, h⟩ := h
  obtain ⟨rfl, hfound⟩ := read_returns hread
  split at h
  · obtain ⟨-, rfl⟩ := Tx.pure_returns.mp h
    exact .none rfl
  · obtain ⟨r, hr, hphase, -⟩ := hfound.row_of rfl
    simp only [Tx.bind_returns, Tx.pure_returns] at h
    obtain ⟨_, upd, hupdate, _, cleared, hclear, _, _, hprune, -, rfl⟩ := h
    obtain ⟨-, hclock, hcommits, hrows⟩ := updateOperation_returns hupdate hr rfl
    obtain ⟨hactive, rfl⟩ := clearActive_returns hclear
    obtain ⟨hclock', hrows', hcommits'⟩ := pruneTerminal_returns hprune
    refine .completed hr hphase (hclock ▸ hactive) hrows ?_ hrows' ?_
    · rw [hclock', hclock]
    · intro k o
      rw [hcommits']
      show (if _ then none else Table.find? upd.commits (k, o)) = _
      rw [hcommits]
      rfl
  · exact (Tx.throw_returns.mp h).elim

/-- What `beginObject` answers, and the row that it leaves under the object. -/
theorem beginObject_returns {objectId bookmark : String} {status : CommitStatus}
    (h : (beginObject operationId objectId bookmark).Returns db status db') :
    (db.operation? operationId).isSome = true ∧ db'.clock = db.clock ∧
      db'.operations = db.operations ∧
      ((db' = db ∧ ∃ c, db.commit? operationId objectId = some c ∧ c.status = status ∧
        c.bookmark = bookmark) ∨
      (status = .intent ∧ db.commit? operationId objectId = none ∧
        ∀ k o, db'.commit? k o = if (operationId, objectId) = (k, o) then
          some ⟨operationId, objectId, bookmark, .intent⟩ else db.commit? k o)) := by
  unfold beginObject at h
  simp only [Tx.bind_returns, Tx.require_returns, Tx.gets_returns] at h
  obtain ⟨operation, mid, hread, _, _, ⟨hsome, rfl⟩, _, _, ⟨-, rfl⟩, current, _, ⟨rfl, rfl⟩, h⟩ := h
  obtain ⟨rfl, hfound⟩ := read_returns hread
  have hisSome : (CoordinatorDb.operation? mid operationId).isSome = true := by
    cases hfound with
    | new hnone => cases hsome
    | row hrow hreads => rw [hrow]; rfl
  cases hcommit : CoordinatorDb.commit? mid operationId objectId with
  | some c =>
    rw [hcommit] at h
    simp only [Tx.bind_returns, Tx.require_returns, Tx.pure_returns] at h
    obtain ⟨-, _, ⟨hbookmark, rfl⟩, rfl, rfl⟩ := h
    exact ⟨hisSome, rfl, rfl, .inl ⟨rfl, c, rfl, rfl, hbookmark⟩⟩
  | none =>
    rw [hcommit] at h
    unfold insertCommit at h
    simp only [Tx.bind_returns, onCommits_returns, Table.insert_returns, Tx.pure_returns] at h
    obtain ⟨-, _, ⟨t, hinsert, rfl⟩, rfl, rfl⟩ := h
    exact ⟨hisSome, rfl, rfl, .inr ⟨rfl, rfl, fun k o => Table.find?_insert hinsert (k, o)⟩⟩

theorem beginObject_effect {objectId bookmark : String} {status : CommitStatus}
    (h : (beginObject operationId objectId bookmark).Returns db status db') :
    CallEffect db db' (.beginObject operationId objectId bookmark) := by
  obtain ⟨hsome, hclock, hoperations, ⟨rfl, -⟩ | ⟨-, hnone, hcommits⟩⟩ := beginObject_returns h
  · exact .none rfl
  · exact .recorded hsome hclock hoperations hcommits (by simp [hnone])

theorem scheduleCommit_returns {objectId bookmark : String} {c : StoredCommit} {a : Unit}
    (h : (scheduleCommit operationId objectId bookmark).Returns db a db')
    (hc : db.commit? operationId objectId = some c) (hb : c.bookmark = bookmark) :
    db'.clock = db.clock ∧ db'.operations = db.operations ∧
      ∀ k o, db'.commit? k o = if (operationId, objectId) = (k, o) then
        some { c with status := .scheduled } else db.commit? k o := by
  unfold scheduleCommit at h
  simp only [Tx.bind_returns, onCommits_returns, Tx.pure_returns] at h
  obtain ⟨_, _, ⟨t, hupdate, rfl⟩, -, rfl⟩ := h
  refine ⟨rfl, rfl, ?_⟩
  rcases Table.update_key_returns hupdate fun _ => rfl with ⟨-, x, hx, -, hfind⟩ | ⟨-, hnot, -⟩
  · obtain rfl := Option.some.inj (hx.symm.trans hc)
    exact fun k o => hfind (k, o)
  · have := hnot c hc
    simp [hb] at this

theorem finishObject_effect {objectId bookmark : String} {a : Unit}
    (h : (finishObject operationId objectId bookmark).Returns db a db') :
    CallEffect db db' (.finishObject operationId objectId bookmark) := by
  unfold finishObject at h
  simp only [Tx.bind_returns] at h
  obtain ⟨status, mid, hbegin, h⟩ := h
  obtain ⟨hsome, hclock, hoperations, hmid⟩ := beginObject_returns hbegin
  split at h
  · obtain ⟨-, rfl⟩ := Tx.pure_returns.mp h
    rcases hmid with ⟨rfl, -⟩ | ⟨rfl, -, -⟩
    · exact .none rfl
    · contradiction
  · rcases hmid with ⟨rfl, c, hc, -, hbookmark⟩ | ⟨-, hnone, hcommits⟩
    · obtain ⟨hclock', hoperations', hcommits'⟩ := scheduleCommit_returns h hc hbookmark
      exact .recorded (c := { c with status := .scheduled }) hsome hclock' hoperations' hcommits'
        fun _ _ _ => rfl
    · obtain ⟨hclock', hoperations', hcommits'⟩ :=
        scheduleCommit_returns h ((hcommits _ _).trans (if_pos rfl)) rfl
      refine CallEffect.recorded (o := objectId)
        (c := ⟨operationId, objectId, bookmark, .scheduled⟩) hsome (hclock'.trans hclock)
        (hoperations'.trans hoperations) (fun k o => ?_) fun _ _ _ => rfl
      rw [hcommits' k o]
      by_cases hk : (operationId, objectId) = (k, o)
      · simp only [if_pos hk]
      · rw [if_neg hk, if_neg hk, hcommits k o, if_neg hk]

theorem readOnly_activeForDigest : (activeForDigest digest).ReadOnly := by
  refine (Tx.readOnly_require _ _).bind fun _ => readOnly_admissionClock.bind fun clock => ?_
  cases clock.activeOperationId with
  | none => exact Tx.readOnly_pure _
  | some id =>
    exact (Tx.readOnly_require _ _).bind fun _ => readOnly_read.bind fun _ => Tx.readOnly_pure _

theorem readOnly_hasActiveRecovery : hasActiveRecovery.ReadOnly :=
  readOnly_admissionClock.bind fun _ => Tx.readOnly_pure _

theorem unit_returns {α : Type} {x : CoordinatorTx α} {a : Unit}
    (h : (do let _ ← x : CoordinatorTx Unit).Returns db a db') : ∃ v, x.Returns db v db' := by
  obtain ⟨v, mid, hx, h⟩ := Tx.bind_returns.mp h
  obtain ⟨-, rfl⟩ := Tx.pure_returns.mp h
  exact ⟨v, hx⟩

/-- Whatever a call does when it returns, it is one of the effects. -/
theorem execute_effect {call : RecoveryCall} {a : Unit}
    (h : (call.execute parses).Returns db a db') : CallEffect db db' call := by
  cases call with
  | admissionClock =>
    obtain ⟨_, h⟩ := unit_returns h
    exact .none (readOnly_admissionClock.returns h).symm
  | read operationId =>
    obtain ⟨_, h⟩ := unit_returns h
    exact .none (readOnly_read.returns h).symm
  | activeForDigest digest =>
    obtain ⟨_, h⟩ := unit_returns h
    exact .none (readOnly_activeForDigest.returns h).symm
  | claimPreparation resharding operationId digest json =>
    obtain ⟨_, h⟩ := unit_returns h
    exact claimPreparation_effect h
  | savePreparation operationId json =>
    obtain ⟨_, h⟩ := unit_returns h
    exact savePreparation_effect h
  | cancelPreparation operationId =>
    obtain ⟨_, h⟩ := unit_returns h
    exact cancelPreparation_effect h
  | beginCommits operationId counts =>
    obtain ⟨_, h⟩ := unit_returns h
    exact beginCommits_effect h
  | finishShards operationId json n =>
    obtain ⟨_, h⟩ := unit_returns h
    exact finishShards_effect h
  | advanceShard operationId i objectId =>
    obtain ⟨_, h⟩ := unit_returns h
    exact advanceShard_effect h
  | saveReconcile operationId json =>
    obtain ⟨_, h⟩ := unit_returns h
    exact saveReconcile_effect h
  | beginReleases operationId counts =>
    obtain ⟨_, h⟩ := unit_returns h
    exact beginReleases_effect h
  | advanceRelease operationId i =>
    obtain ⟨_, h⟩ := unit_returns h
    exact advanceRelease_effect h
  | beginCatalog operationId n =>
    obtain ⟨_, h⟩ := unit_returns h
    exact beginCatalog_effect h
  | complete operationId =>
    obtain ⟨_, h⟩ := unit_returns h
    exact complete_effect h
  | beginObject operationId objectId bookmark =>
    obtain ⟨_, h⟩ := unit_returns h
    exact beginObject_effect h
  | finishObject operationId objectId bookmark => exact finishObject_effect h
  | hasActiveRecovery =>
    obtain ⟨_, h⟩ := unit_returns h
    exact .none (readOnly_hasActiveRecovery.returns h).symm

end

end Chardb.Recovery
