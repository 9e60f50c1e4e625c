import Chardb.Recovery.CoordinatorSteps

/-!
# Recovery phases over whole runs

The clock names the one operation that is not complete, in every store that calls can reach. A call
that throws has then written nothing, an operation only moves on to its next phase, and it leaves
`committing` only when each of its shards is known to be scheduled.
-/

namespace Chardb.Recovery

open Chardb.Lib Reshard

/-! ## The clock and the operations -/

/-- The clock names the one operation that is not complete, which was claimed last. -/
structure Coherent (db : CoordinatorDb) : Prop where
  counter : IsCounter db.clock.generation
  active : ∀ id, db.clock.activeOperationId = some id → ∃ init r, db.operations.rows = init ++ [r] ∧
    r.operationId = id ∧ r.phase ≠ .complete ∧ r.generation = db.clock.generation
  sole : ∀ r ∈ db.operations.rows, r.phase ≠ .complete →
    db.clock.activeOperationId = some r.operationId
  generation_le : ∀ r ∈ db.operations.rows, r.generation ≤ db.clock.generation
  finished_lt : ∀ r ∈ db.operations.rows, r.phase = .complete →
    db.clock.activeOperationId ≠ none → r.generation < db.clock.generation

theorem coherent_initial : Coherent .initial where
  counter := by decide
  active id h := by cases h
  sole r hr := by cases hr
  generation_le r hr := by cases hr
  finished_lt r hr := by cases hr

section
variable {db db' : CoordinatorDb} {operationId : String} {r r' : StoredOperation}

theorem operation?_of_mem (h : r ∈ db.operations.rows) : db.operation? r.operationId = some r :=
  Table.find?_key h

theorem mem_of_operation? (h : db.operation? operationId = some r) : r ∈ db.operations.rows :=
  (Table.find?_eq_some.mp h).1

theorem row_unique {x : StoredOperation} (hx : x ∈ db.operations.rows) (hr : r ∈ db.operations.rows)
    (h : x.operationId = r.operationId) : x = r := Table.eq_of_key hx hr h

/-- The active operation has its row. -/
theorem Coherent.active_row (hc : Coherent db) (h : db.clock.activeOperationId = some operationId) :
    ∃ r, db.operation? operationId = some r ∧ r.phase ≠ .complete ∧
      r.generation = db.clock.generation := by
  obtain ⟨init, r, hrows, rfl, hphase, hgeneration⟩ := hc.active operationId h
  exact ⟨r, operation?_of_mem (by simp [hrows]), hphase, hgeneration⟩

theorem Coherent.active_iff (hc : Coherent db) :
    db.clock.activeOperationId = some operationId ↔
      ∃ r, db.operation? operationId = some r ∧ r.phase ≠ .complete := by
  constructor
  · intro h
    obtain ⟨r, hr, hphase, -⟩ := hc.active_row h
    exact ⟨r, hr, hphase⟩
  · rintro ⟨r, hr, hphase⟩
    rw [← operation?_id hr]
    exact hc.sole r (mem_of_operation? hr) hphase

theorem Coherent.admissionClock (hc : Coherent db) :
    ∃ digest, admissionClock.Returns db
      ⟨db.clock.generation, db.clock.activeOperationId, digest⟩ db := by
  have hcount : count db.clock.generation "generation" = .ok db.clock.generation := by
    rw [count, if_pos hc.counter]
  unfold Recovery.admissionClock
  simp only [Tx.bind_returns, Tx.gets_returns, Tx.ofExcept_returns]
  cases hactive : db.clock.activeOperationId with
  | none =>
    refine ⟨none, _, db, ⟨rfl, rfl⟩, _, db, ⟨hcount, rfl⟩, ?_⟩
    rw [hactive]
    exact Tx.pure_returns.mpr ⟨rfl, rfl⟩
  | some id =>
    obtain ⟨r, hr, hphase, hgeneration⟩ := hc.active_row hactive
    refine ⟨some r.digest, _, db, ⟨rfl, rfl⟩, _, db, ⟨hcount, rfl⟩, ?_⟩
    rw [hactive]
    unfold activeClock
    simp only [Tx.bind_returns, Tx.gets_returns, Tx.ofOption_returns, Tx.ofExcept_returns,
      Tx.require_returns, Tx.pure_returns]
    refine ⟨_, db, ⟨rfl, rfl⟩, r, db, ⟨?_, rfl⟩, db.clock.generation, db, ⟨?_, rfl⟩, (), db,
      ⟨rfl, rfl⟩, ?_, rfl⟩
    · rw [hr, Option.filter_some, if_pos (by simpa using hphase)]
    · rw [hgeneration, hcount]
    · rw [operation?_id hr]

/-! ## A call that throws has written nothing -/

theorem atomic_updateOperation {p : StoredOperation → Bool} {f : StoredOperation → StoredOperation} :
    (updateOperation operationId p f).Atomic := fun _ _ _ h => updateOperation_throws h

/-- An update and the answer after it. -/
theorem atomic_update_pure {α : Type} {p : StoredOperation → Bool}
    {f : StoredOperation → StoredOperation} {a : α} :
    (do
      let _ ← updateOperation operationId p f
      pure a : CoordinatorTx α).Atomic :=
  atomic_updateOperation.bind_total fun _ _ _ _ _ _ h => (Tx.pure_throws.mp h).elim

theorem atomic_check {e : Thrown} {p : Prop} [Decidable p] {α : Type} {a : α} :
    (do
      .require p e
      pure a : CoordinatorTx α).Atomic :=
  ((Tx.readOnly_require p e).bind fun _ => Tx.readOnly_pure a).atomic

variable {parses : ContinuationKind → String → Bool} {digest json : String}

theorem atomic_insertPreparation {generation : Int} :
    (insertPreparation operationId digest json generation).Atomic := by
  refine Tx.Atomic.bind_total (fun s e s' h => ?_) fun _ _ _ _ _ _ h => by simp at h
  obtain ⟨t, hinsert, rfl⟩ := onOperations_throws.mp h
  obtain ⟨-, -, rfl⟩ := Table.insert_throws.mp hinsert
  rfl

theorem atomic_claimPreparation {resharding : Bool} :
    (claimPreparation parses resharding operationId digest json).Atomic := by
  refine (Tx.readOnly_ofExcept _).bind_atomic fun _ => (Tx.readOnly_ofExcept _).bind_atomic fun _ =>
    readOnly_read.bind_atomic fun existing => ?_
  cases existing.identity? with
  | some identity => exact atomic_check
  | none =>
    refine readOnly_admissionClock.bind_atomic fun clock => ?_
    cases clock.activeOperationId with
    | some id => exact (Tx.readOnly_require _ _).bind_atomic fun _ => readOnly_read.atomic
    | none =>
      exact (Tx.readOnly_require _ _).bind_atomic fun _ => (Tx.readOnly_require _ _).bind_atomic
        fun _ => atomic_insertPreparation.bind_total fun _ _ _ _ _ _ h => (Tx.pure_throws.mp h).elim

theorem atomic_savePreparation : (savePreparation parses operationId json).Atomic := by
  refine readOnly_read.bind_atomic fun current => ?_
  cases current with
  | preparing identity _ => exact (Tx.readOnly_ofExcept _).bind_atomic fun _ => atomic_update_pure
  | _ => exact (Tx.readOnly_pure _).atomic

theorem atomic_beginCommits {counts : RecoveryProviderCounts} :
    (beginCommits operationId counts).Atomic := by
  refine (Tx.readOnly_ofExcept _).bind_atomic fun _ => readOnly_read.bind_atomic fun current => ?_
  cases current with
  | new => exact (Tx.readOnly_throw _).atomic
  | preparing => exact atomic_update_pure
  | _ => exact atomic_check

theorem atomic_finishShards {shardCount : Int} :
    (finishShards parses operationId json shardCount).Atomic := by
  refine (Tx.readOnly_ofExcept _).bind_atomic fun _ => readOnly_read.bind_atomic fun current => ?_
  cases current with
  | committing =>
    exact (Tx.readOnly_require _ _).bind_atomic fun _ => (Tx.readOnly_require _ _).bind_atomic
      fun _ => atomic_update_pure
  | _ => exact (Tx.readOnly_pure _).atomic

theorem atomic_saveReconcile : (saveReconcile parses operationId json).Atomic := by
  refine (Tx.readOnly_ofExcept _).bind_atomic fun _ => readOnly_read.bind_atomic fun current => ?_
  cases current with
  | reconciling => exact atomic_update_pure
  | _ => exact (Tx.readOnly_pure _).atomic

theorem atomic_beginReleases {counts : RecoveryReconcileCounts} :
    (beginReleases operationId counts).Atomic := by
  refine (Tx.readOnly_ofExcept _).bind_atomic fun _ => readOnly_read.bind_atomic fun current => ?_
  cases current with
  | new => exact (Tx.readOnly_throw _).atomic
  | preparing => exact (Tx.readOnly_throw _).atomic
  | committing => exact (Tx.readOnly_throw _).atomic
  | reconciling => exact atomic_update_pure
  | _ => exact atomic_check

theorem atomic_beginCatalog {shardCount : Int} : (beginCatalog operationId shardCount).Atomic := by
  refine readOnly_read.bind_atomic fun current => ?_
  cases current with
  | releasing => exact (Tx.readOnly_require _ _).bind_atomic fun _ => atomic_update_pure
  | _ => exact (Tx.readOnly_pure _).atomic

/-- After the update of a row that was read to match, the check of its count passes. -/
theorem update_check_throws {α : Type} {p : StoredOperation → Bool}
    {f : StoredOperation → StoredOperation} {message : String} {a : α} {e : Thrown}
    (h : (do
      let changes ← updateOperation operationId p f
      .require (changes = 1) (invalid message)
      pure a : CoordinatorTx α).Throws db e db')
    (hr : db.operation? operationId = some r) (hp : p r = true) : db' = db := by
  rcases Tx.bind_throws.mp h with h | ⟨n, mid, hupdate, h⟩
  · exact updateOperation_throws h
  · obtain ⟨rfl, -⟩ := updateOperation_returns hupdate hr hp
    simp at h

theorem advanceShard_throws {index : Int} {objectId : String} {e : Thrown}
    (h : (advanceShard operationId index objectId).Throws db e db') : db' = db := by
  rcases Tx.bind_throws.mp h with h | ⟨current, mid, hread, h⟩
  · exact readOnly_read.atomic h
  · obtain ⟨rfl, hfound⟩ := read_returns hread
    cases current with
    | committing identity provider commitIndex =>
      obtain ⟨r, hr, hphase, -, -, hindex⟩ := hfound.row_of rfl
      simp only at h
      rcases Tx.bind_throws.mp h with h | ⟨_, _, hcheck, h⟩
      · exact (Tx.require_throws.mp h).2.2
      · obtain ⟨⟨-, hat, -⟩, rfl⟩ := Tx.require_returns.mp hcheck
        rcases Tx.bind_throws.mp h with h | ⟨_, _, hcommit, h⟩
        · exact (Tx.gets_throws.mp h).elim
        · obtain ⟨rfl, rfl⟩ := Tx.gets_returns.mp hcommit
          rcases Tx.bind_throws.mp h with h | ⟨_, _, hscheduled, h⟩
          · exact (Tx.require_throws.mp h).2.2
          · obtain ⟨-, rfl⟩ := Tx.require_returns.mp hscheduled
            exact update_check_throws h hr (by simp [hphase, hindex.symm.trans hat])
    | _ => exact (Tx.pure_throws.mp h).elim

theorem advanceRelease_throws {index : Int} {e : Thrown}
    (h : (advanceRelease operationId index).Throws db e db') : db' = db := by
  rcases Tx.bind_throws.mp h with h | ⟨current, mid, hread, h⟩
  · exact readOnly_read.atomic h
  · obtain ⟨rfl, hfound⟩ := read_returns hread
    cases current with
    | releasing identity provider reconciled releaseIndex =>
      obtain ⟨r, hr, hphase, -, -, -, hindex⟩ := hfound.row_of rfl
      simp only at h
      rcases Tx.bind_throws.mp h with h | ⟨_, _, hcheck, h⟩
      · exact (Tx.require_throws.mp h).2.2
      · obtain ⟨⟨-, hat⟩, rfl⟩ := Tx.require_returns.mp hcheck
        exact update_check_throws h hr (by simp [hphase, hindex.symm.trans hat])
    | _ => exact (Tx.pure_throws.mp h).elim

theorem cancelPreparation_throws {e : Thrown}
    (h : (cancelPreparation operationId).Throws db e db') : db' = db := by
  rcases Tx.bind_throws.mp h with h | ⟨current, mid, hread, h⟩
  · exact readOnly_read.atomic h
  · obtain ⟨rfl, hfound⟩ := read_returns hread
    cases current with
    | preparing identity json =>
      obtain ⟨r, hr, hphase, -⟩ := hfound.row_of rfl
      simp only at h
      rcases Tx.bind_throws.mp h with h₁ | ⟨clock, _, hclock, h₁⟩
      · exact readOnly_admissionClock.atomic h₁
      · obtain ⟨rfl, -, hactive', -⟩ := admissionClock_returns hclock
        rcases Tx.bind_throws.mp h₁ with h₂ | ⟨_, _, hcheck, h₂⟩
        · exact (Tx.require_throws.mp h₂).2.2
        · obtain ⟨hactive, rfl⟩ := Tx.require_returns.mp hcheck
          rcases Tx.bind_throws.mp h₂ with h₃ | ⟨n, del, hdelete, h₃⟩
          · exact (not_throws_deleteOperations h₃).elim
          · obtain ⟨rfl, hclk, -⟩ := deleteOperations_returns hdelete
            rw [select_operation (p := fun x => decide (x.phase = .preparing)) hr
              (by simp [hphase])] at h₃
            rcases Tx.bind_throws.mp h₃ with h₄ | ⟨_, _, hone, h₄⟩
            · simp at h₄
            · obtain ⟨-, rfl⟩ := Tx.require_returns.mp hone
              rcases Tx.bind_throws.mp h₄ with h₅ | ⟨_, _, -, h₅⟩
              · exact absurd (hclk ▸ hactive' ▸ hactive) (clearActive_throws h₅).2
              · exact (Tx.pure_throws.mp h₅).elim
    | _ => exact (Tx.throw_throws.mp h).2

theorem not_throws_pruneTerminal {e : Thrown} (h : pruneTerminal.Throws db e db') : False := by
  unfold pruneTerminal at h
  simp only [Tx.bind_throws, Tx.gets_throws, Tx.gets_returns, onCommits_throws, Table.delete_throws,
    Tx.pure_throws, false_and, exists_false, and_false, or_false, false_or] at h
  obtain ⟨_, _, -, _, _, -, h⟩ := h
  exact not_throws_deleteOperations h

theorem complete_throws {e : Thrown} (hc : Coherent db)
    (h : (complete operationId).Throws db e db') : db' = db := by
  rcases Tx.bind_throws.mp h with h | ⟨current, mid, hread, h⟩
  · exact readOnly_read.atomic h
  · obtain ⟨rfl, hfound⟩ := read_returns hread
    cases current with
    | complete => exact (Tx.pure_throws.mp h).elim
    | catalog identity provider reconciled =>
      obtain ⟨r, hr, hphase, -⟩ := hfound.row_of rfl
      simp only at h
      rcases Tx.bind_throws.mp h with h | ⟨_, upd, hupdate, h⟩
      · exact updateOperation_throws h
      · obtain ⟨-, hclock, -⟩ := updateOperation_returns hupdate hr rfl
        have hactive := hc.active_iff.mpr ⟨r, hr, by rw [hphase]; decide⟩
        rcases Tx.bind_throws.mp h with h | ⟨_, _, -, h⟩
        · exact absurd (hclock ▸ hactive) (clearActive_throws h).2
        · rcases Tx.bind_throws.mp h with h | ⟨_, _, -, h⟩
          · exact (not_throws_pruneTerminal h).elim
          · exact (Tx.pure_throws.mp h).elim
    | _ => exact (Tx.throw_throws.mp h).2

theorem atomic_beginObject {objectId bookmark : String} :
    (beginObject operationId objectId bookmark).Atomic := by
  refine readOnly_read.bind_atomic fun operation => (Tx.readOnly_require _ _).bind_atomic fun _ =>
    (Tx.readOnly_require _ _).bind_atomic fun _ => (Tx.readOnly_gets _).bind_atomic fun current => ?_
  cases current with
  | some c => exact atomic_check
  | none =>
    refine Tx.Atomic.bind_total (fun s e s' h => ?_) fun _ _ _ _ _ _ h => (Tx.pure_throws.mp h).elim
    obtain ⟨t, hinsert, rfl⟩ := onCommits_throws.mp h
    obtain ⟨-, -, rfl⟩ := Table.insert_throws.mp hinsert
    rfl

theorem atomic_finishObject {objectId bookmark : String} :
    (finishObject operationId objectId bookmark).Atomic := by
  refine atomic_beginObject.bind_total fun s status t _ e s' h => ?_
  split at h
  · exact Tx.pure_throws.mp h
  · unfold scheduleCommit at h
    rcases Tx.bind_throws.mp h with h | ⟨_, _, -, h⟩
    · obtain ⟨_, hupdate, -⟩ := onCommits_throws.mp h
      exact Table.update_not_throws hupdate (fun _ => rfl) fun _ _ _ => trivial
    · exact Tx.pure_throws.mp h

theorem unit_throws {α : Type} {x : CoordinatorTx α} {e : Thrown}
    (h : (do let _ ← x : CoordinatorTx Unit).Throws db e db') : x.Throws db e db' := by
  rcases Tx.bind_throws.mp h with h | ⟨_, _, -, h⟩
  · exact h
  · exact (Tx.pure_throws.mp h).elim

theorem execute_throws {call : RecoveryCall} {e : Thrown} (hc : Coherent db)
    (h : (call.execute parses).Throws db e db') : db' = db := by
  cases call with
  | admissionClock => exact readOnly_admissionClock.atomic (unit_throws h)
  | read => exact readOnly_read.atomic (unit_throws h)
  | activeForDigest => exact readOnly_activeForDigest.atomic (unit_throws h)
  | claimPreparation => exact atomic_claimPreparation (unit_throws h)
  | savePreparation => exact atomic_savePreparation (unit_throws h)
  | cancelPreparation => exact cancelPreparation_throws (unit_throws h)
  | beginCommits => exact atomic_beginCommits (unit_throws h)
  | finishShards => exact atomic_finishShards (unit_throws h)
  | advanceShard => exact advanceShard_throws (unit_throws h)
  | saveReconcile => exact atomic_saveReconcile (unit_throws h)
  | beginReleases => exact atomic_beginReleases (unit_throws h)
  | advanceRelease => exact advanceRelease_throws (unit_throws h)
  | beginCatalog => exact atomic_beginCatalog (unit_throws h)
  | complete => exact complete_throws hc (unit_throws h)
  | beginObject => exact atomic_beginObject (unit_throws h)
  | finishObject => exact atomic_finishObject h
  | hasActiveRecovery => exact readOnly_hasActiveRecovery.atomic (unit_throws h)

end

/-! ## One call keeps the clock and the operations together -/

section
variable {db db' : CoordinatorDb} {call : RecoveryCall} {r r' : StoredOperation}

/-- Moving a row leaves what it was claimed with, and does not complete it. -/
theorem RowStep.claim (h : RowStep call r r') : r'.operationId = r.operationId ∧
    r'.digest = r.digest ∧ r'.generation = r.generation ∧ r.phase ≠ .complete ∧
    r'.phase ≠ .complete := by
  cases h with
  | _ => simp_all

theorem mem_moved {x : StoredOperation} {id : String}
    (hrows : db'.operations.rows = db.operations.rows.map fun x => if x.operationId = id then r' else x) :
    x ∈ db'.operations.rows →
      (x = r' ∧ ∃ y ∈ db.operations.rows, y.operationId = id) ∨
        (x ∈ db.operations.rows ∧ x.operationId ≠ id) := by
  rw [hrows, List.mem_map]
  rintro ⟨y, hy, rfl⟩
  split
  · exact .inl ⟨rfl, y, hy, ‹_›⟩
  · exact .inr ⟨hy, ‹_›⟩

theorem mem_of_moved {x : StoredOperation} {id : String}
    (hrows : db'.operations.rows = db.operations.rows.map fun x => if x.operationId = id then r' else x)
    (hx : x ∈ db.operations.rows) :
    (if x.operationId = id then r' else x) ∈ db'.operations.rows := by
  rw [hrows]
  exact List.mem_map_of_mem hx

/-- A store without an active operation: every operation is complete. -/
theorem Coherent.idle (hcounter : IsCounter db.clock.generation)
    (hnone : db.clock.activeOperationId = none)
    (hrows : ∀ x ∈ db.operations.rows, x.phase = .complete ∧ x.generation ≤ db.clock.generation) :
    Coherent db where
  counter := hcounter
  active id h := by rw [hnone] at h; cases h
  sole x hx hphase := absurd (hrows x hx).1 hphase
  generation_le x hx := (hrows x hx).2
  finished_lt _ _ _ h := absurd hnone h

theorem Coherent.complete_of_ne {id : String} (hc : Coherent db)
    (hactive : db.clock.activeOperationId = some id) {x : StoredOperation}
    (hx : x ∈ db.operations.rows) (hne : x.operationId ≠ id) : x.phase = .complete := by
  by_contra hphase
  exact hne (Option.some.inj ((hc.sole x hx hphase).symm.trans hactive))

theorem CallEffect.keeps (h : CallEffect db db' call) (hc : Coherent db) : Coherent db' := by
  cases h with
  | none h => exact h ▸ hc
  | claimed _ hnone _ hmax hclock hrows _ =>
    have hall : ∀ x ∈ db.operations.rows, x.phase = .complete := by
      intro x hx
      by_contra hphase
      have := hc.sole x hx hphase
      rw [hnone] at this
      cases this
    have hcounter := hc.counter
    refine ⟨?_, ?_, ?_, ?_, ?_⟩
    · rw [hclock]
      unfold IsCounter IsSafeInteger at *
      simp only
      omega
    · intro id hid
      rw [hclock] at hid ⊢
      obtain rfl := Option.some.inj hid
      exact ⟨_, _, hrows, rfl, by simp [preparation], rfl⟩
    · intro x hx hphase
      rw [hrows] at hx
      rcases List.mem_append.mp hx with hx | hx
      · exact absurd (hall x hx) hphase
      · rw [List.mem_singleton.mp hx, hclock]
        rfl
    · intro x hx
      rw [hrows] at hx
      rw [hclock]
      rcases List.mem_append.mp hx with hx | hx
      · have := hc.generation_le x hx
        simp only
        omega
      · rw [List.mem_singleton.mp hx]
        exact le_rfl
    · intro x hx hphase _
      rw [hrows] at hx
      rw [hclock]
      rcases List.mem_append.mp hx with hx | hx
      · have := hc.generation_le x hx
        simp only
        omega
      · rw [List.mem_singleton.mp hx] at hphase
        cases hphase
  | moved hstep hr hclock hrows _ _ =>
    obtain ⟨hid, -, hgeneration, hphase, hphase'⟩ := hstep.claim
    have hmem := mem_of_operation? hr
    refine ⟨hclock ▸ hc.counter, ?_, ?_, ?_, ?_⟩
    · intro id hactive
      rw [hclock] at hactive ⊢
      obtain ⟨init, x, hinit, rfl, hx, hxg⟩ := hc.active id hactive
      rw [hrows, hinit, List.map_append, List.map_singleton]
      refine ⟨_, _, rfl, ?_⟩
      split
      · rename_i hsame
        refine ⟨hid.trans hsame.symm, hphase', ?_⟩
        obtain rfl := row_unique (by simp [hinit]) hmem hsame
        exact hgeneration.trans hxg
      · exact ⟨rfl, hx, hxg⟩
    · intro x hx hxp
      rw [hclock]
      rcases mem_moved hrows hx with ⟨rfl, -⟩ | ⟨hx, -⟩
      · exact hid ▸ hc.sole _ hmem hphase
      · exact hc.sole x hx hxp
    · intro x hx
      rw [hclock]
      rcases mem_moved hrows hx with ⟨rfl, -⟩ | ⟨hx, -⟩
      · exact hgeneration ▸ hc.generation_le _ hmem
      · exact hc.generation_le x hx
    · intro x hx hxp hactive
      rw [hclock] at hactive ⊢
      rcases mem_moved hrows hx with ⟨rfl, -⟩ | ⟨hx, -⟩
      · exact absurd hxp hphase'
      · exact hc.finished_lt x hx hxp hactive
  | cancelled hr _ hactive hclock hrows _ =>
    refine .idle (hclock ▸ hc.counter) (by rw [hclock]) fun x hx => ?_
    rw [hrows] at hx
    obtain ⟨hx, hne⟩ := List.mem_filter.mp hx
    rw [hclock]
    exact ⟨hc.complete_of_ne hactive hx (of_decide_eq_true hne), hc.generation_le x hx⟩
  | completed hr _ hactive hmid hclock hrows _ =>
    refine .idle (hclock ▸ hc.counter) (by rw [hclock]) fun x hx => ?_
    rw [hrows] at hx
    rw [hclock]
    rcases mem_moved hmid (List.mem_filter.mp hx).1 with ⟨rfl, -⟩ | ⟨hx, hne⟩
    · have hle := hc.generation_le _ (mem_of_operation? hr)
      exact ⟨rfl, hle⟩
    · exact ⟨hc.complete_of_ne hactive hx hne, hc.generation_le x hx⟩
  | recorded _ hclock hoperations _ _ =>
    refine ⟨hclock ▸ hc.counter, ?_, ?_, ?_, ?_⟩ <;> rw [hclock, hoperations]
    · exact hc.active
    · exact hc.sole
    · exact hc.generation_le
    · exact hc.finished_lt

/-- A call keeps a coherent store coherent, and what it does is one of the effects. -/
theorem execute_coherent {parses : ContinuationKind → String → Bool} (hc : Coherent db)
    (call : RecoveryCall) : Coherent ((call.execute parses).after db) ∧
      CallEffect db ((call.execute parses).after db) call := by
  rcases (call.execute parses).returns_or_throws db with ⟨a, h⟩ | ⟨e, h⟩
  · have heffect := execute_effect h
    exact ⟨heffect.keeps hc, heffect⟩
  · rw [execute_throws hc h]
    exact ⟨hc, .none rfl⟩

theorem run_coherent {parses : ContinuationKind → String → Bool} {calls : List RecoveryCall}
    (hc : Coherent db) : Coherent (db.run parses calls) := by
  induction calls generalizing db with
  | nil => exact hc
  | cons call calls ih => exact ih (execute_coherent hc call).1

end

/-! ## One call and one operation -/

/-- The phase after this one. -/
def RecoveryPhase.next? : RecoveryPhase → Option RecoveryPhase
  | .preparing => some .committing
  | .committing => some .reconciling
  | .reconciling => some .releasing
  | .releasing => some .catalog
  | .catalog => some .complete
  | .complete => none

/-- The reconcile counts are set. -/
def RecoveryPhase.reconciled : RecoveryPhase → Bool
  | .preparing | .committing | .reconciling => false
  | .releasing | .catalog | .complete => true

/-- What a call may make of the row of an operation that stays. -/
structure Follows (call : RecoveryCall) (r r' : StoredOperation) : Prop where
  identity : r'.operationId = r.operationId ∧ r'.digest = r.digest ∧ r'.generation = r.generation
  phase : r'.phase = r.phase ∨ r.phase.next? = some r'.phase
  provider : r.phase ≠ .preparing → r'.provider = r.provider
  reconciled : r.phase.reconciled = true →
    r'.filesRehydrated = r.filesRehydrated ∧ r'.vectorsRequeued = r.vectorsRequeued
  commitIndex : r'.commitIndex = r.commitIndex ∨ r'.commitIndex = r.commitIndex + 1 ∧
    ∃ objectId, call = .advanceShard r.operationId r.commitIndex objectId
  releaseIndex : r'.releaseIndex = r.releaseIndex ∨ r'.releaseIndex = r.releaseIndex + 1 ∧
    call = .advanceRelease r.operationId r.releaseIndex

theorem Follows.refl {call : RecoveryCall} {r : StoredOperation} : Follows call r r :=
  ⟨⟨rfl, rfl, rfl⟩, .inl rfl, fun _ => rfl, fun _ => ⟨rfl, rfl⟩, .inl rfl, .inl rfl⟩

theorem RowStep.follows {call : RecoveryCall} {r r' : StoredOperation} (h : RowStep call r r') :
    Follows call r r' := by
  cases h with
  | advanceShard objectId hphase =>
    exact ⟨⟨rfl, rfl, rfl⟩, .inl rfl, fun _ => rfl, fun _ => ⟨rfl, rfl⟩, .inr ⟨rfl, objectId, rfl⟩,
      .inl rfl⟩
  | advanceRelease hphase =>
    exact ⟨⟨rfl, rfl, rfl⟩, .inl rfl, fun _ => rfl, fun _ => ⟨rfl, rfl⟩, .inl rfl, .inr ⟨rfl, rfl⟩⟩
  | _ => constructor <;> simp_all [RecoveryPhase.next?, RecoveryPhase.reconciled]

/-- What becomes of an operation in one call: it follows itself, or its row goes. -/
def Successor (call : RecoveryCall) (r : StoredOperation) : Option StoredOperation → Prop
  | some r' => Follows call r r'
  | none => (r.phase = .preparing ∧ call = .cancelPreparation r.operationId) ∨
    (r.phase = .complete ∧ ∃ operationId, call = .complete operationId ∧ operationId ≠ r.operationId)

section
variable {db db' mid : CoordinatorDb} {call : RecoveryCall} {r : StoredOperation} {id : String}

/-- The operation that has just been completed is the last one, and is kept. -/
theorem not_retired {x : StoredOperation} {init : List StoredOperation}
    (hrows : mid.operations.rows = init ++ [x]) (hphase : x.phase = .complete) :
    x.operationId ∉ mid.retired := by
  intro hmem
  obtain ⟨y, hy, hyid⟩ := List.mem_map.mp hmem
  have hselect : mid.operations.select (fun r => decide (r.phase = .complete)) =
      init.filter (fun r => decide (r.phase = .complete)) ++ [x] := by
    rw [Table.select, hrows, List.filter_append, List.filter_cons_of_pos (by simp [hphase]),
      List.filter_nil]
  rw [hselect, List.reverse_append, List.reverse_singleton, List.singleton_append] at hy
  have hyinit : y ∈ init := by
    have hy : y ∈ (init.filter fun r => decide (r.phase = .complete)).reverse :=
      List.mem_of_mem_drop (i := 63) hy
    exact (List.mem_filter.mp (List.mem_reverse.mp hy)).1
  have hnodup := mid.operations.nodup
  rw [hrows, List.map_append, List.map_singleton, List.nodup_append] at hnodup
  exact hnodup.2.2 _ (List.mem_map_of_mem hyinit) _ (List.mem_singleton_self _) hyid

theorem operation?_eq_none (h : ∀ x ∈ db.operations.rows, x.operationId ≠ id) :
    db.operation? id = none := Table.find?_eq_none.mpr h

theorem CallEffect.successor (h : CallEffect db db' call) (hc : Coherent db)
    (hr : db.operation? id = some r) : Successor call r (db'.operation? id) := by
  have hid := operation?_id hr
  have hmem := mem_of_operation? hr
  have hkept : r ∈ db'.operations.rows → Successor call r (db'.operation? id) := fun hmem' => by
    rw [← hid, operation?_of_mem hmem']
    exact Follows.refl
  cases h with
  | none h => exact hkept (h ▸ hmem)
  | claimed _ _ _ _ _ hrows _ => exact hkept (by rw [hrows]; exact List.mem_append_left _ hmem)
  | @moved _ x x' hstep hx _ hrows _ _ =>
    have hmem' := mem_of_moved hrows hmem
    split at hmem'
    · rename_i hsame
      obtain rfl := row_unique hmem (mem_of_operation? hx) hsame
      rw [← hid, ← hstep.claim.1, operation?_of_mem hmem']
      exact hstep.follows
    · exact hkept hmem'
  | @cancelled operationId x hx hphase hactive _ hrows _ =>
    by_cases hsame : r.operationId = operationId
    · have hxid := operation?_id hx
      obtain rfl := row_unique hmem (mem_of_operation? hx) (hsame.trans hxid.symm)
      rw [operation?_eq_none]
      · exact .inl ⟨hphase, by rw [hsame]⟩
      · intro y hy hyid
        rw [hrows] at hy
        exact of_decide_eq_true (List.mem_filter.mp hy).2 (hyid.trans (hid.symm.trans hsame))
    · exact hkept (by rw [hrows]; exact List.mem_filter.mpr ⟨hmem, decide_eq_true hsame⟩)
  | @completed operationId x mid hx hphase hactive hmid _ hrows _ =>
    have hxid := operation?_id hx
    have hmem' := mem_of_moved hmid hmem
    by_cases hsame : r.operationId = operationId
    · obtain rfl := row_unique hmem (mem_of_operation? hx) (hsame.trans hxid.symm)
      rw [if_pos hsame] at hmem'
      obtain ⟨init, y, hinit, hyid, -⟩ := hc.active operationId hactive
      have hlast : mid.operations.rows = init.map (fun z => if z.operationId = operationId then
          { r with phase := .complete } else z) ++ [{ r with phase := .complete }] := by
        rw [hmid, hinit, List.map_append, List.map_singleton, if_pos hyid]
      have hkeep : ({ r with phase := .complete } : StoredOperation) ∈ db'.operations.rows := by
        rw [hrows]
        exact List.mem_filter.mpr ⟨hmem', decide_eq_true (not_retired hlast rfl)⟩
      have hfind : db'.operation? r.operationId = some { r with phase := .complete } :=
        operation?_of_mem hkeep
      rw [← hid, hfind]
      exact ⟨⟨rfl, rfl, rfl⟩, .inr (by rw [hphase]; rfl), fun _ => rfl, fun _ => ⟨rfl, rfl⟩, .inl rfl,
        .inl rfl⟩
    · rw [if_neg hsame] at hmem'
      by_cases hretired : r.operationId ∈ mid.retired
      · rw [operation?_eq_none]
        · exact .inr ⟨hc.complete_of_ne hactive hmem hsame, operationId, rfl, Ne.symm hsame⟩
        · intro y hy hyid
          rw [hrows] at hy
          exact of_decide_eq_true (List.mem_filter.mp hy).2 (hyid.symm ▸ hid ▸ hretired)
      · exact hkept (by rw [hrows]; exact List.mem_filter.mpr ⟨hmem', decide_eq_true hretired⟩)
  | recorded _ _ hoperations _ _ => exact hkept (hoperations ▸ hmem)

end

/-! ## Every shard is scheduled before reconciliation -/

/-- The caller works through the shards of an operation in their order, to their end. -/
def RecoveryCall.Follow (shards : String → List String) : RecoveryCall → Prop
  | .advanceShard operationId index objectId =>
    ∀ i : Nat, index = i → (shards operationId)[i]? = some objectId
  | .finishShards operationId _ shardCount => shardCount = (shards operationId).length
  | _ => True

def CoordinatorDb.Scheduled (db : CoordinatorDb) (operationId objectId : String) : Prop :=
  (db.commit? operationId objectId).map StoredCommit.status = some .scheduled

/-- The shards before the commit index are scheduled, and after `committing` these are all. -/
def CoordinatorDb.Proven (db : CoordinatorDb) (shards : String → List String) : Prop :=
  ∀ id r, db.operation? id = some r →
    (∀ i : Nat, (i : Int) < r.commitIndex →
      ∃ objectId, (shards id)[i]? = some objectId ∧ db.Scheduled id objectId) ∧
    (r.phase ≠ .preparing → r.phase ≠ .committing → r.commitIndex = (shards id).length)

section
variable {db db' : CoordinatorDb} {call : RecoveryCall} {shards : String → List String}

theorem CoordinatorDb.Proven.mono {db db' : CoordinatorDb} (h : db.Proven shards)
    (hrows : ∀ id r, db'.operation? id = some r → ∃ r₀, db.operation? id = some r₀ ∧
      r.commitIndex = r₀.commitIndex ∧
      (r.phase ≠ .preparing → r.phase ≠ .committing → r₀.phase ≠ .preparing ∧ r₀.phase ≠ .committing))
    (hcommits : ∀ id objectId, (db'.operation? id).isSome = true → db.Scheduled id objectId →
      db'.Scheduled id objectId) : db'.Proven shards := by
  intro id r hr
  obtain ⟨r₀, hr₀, hindex, hphase⟩ := hrows id r hr
  obtain ⟨hbefore, hall⟩ := h id r₀ hr₀
  refine ⟨fun i hi => ?_, fun hp hc => ?_⟩
  · obtain ⟨objectId, ho, hscheduled⟩ := hbefore i (hindex ▸ hi)
    exact ⟨objectId, ho, hcommits id objectId (by rw [hr]; rfl) hscheduled⟩
  · exact hindex.trans (hall (hphase hp hc).1 (hphase hp hc).2)

theorem scheduled_of_same (h : db.SameCommits db') {id objectId : String}
    (hs : db.Scheduled id objectId) : db'.Scheduled id objectId := by
  unfold CoordinatorDb.Scheduled at *
  rw [h id objectId]
  exact hs

theorem operation?_moved {r r' : StoredOperation} {k : String}
    (hr : db.operation? r.operationId = some r) (hid : r'.operationId = r.operationId)
    (hrows : db'.operations.rows =
      db.operations.rows.map fun x => if x.operationId = r.operationId then r' else x) :
    db'.operation? k = if r.operationId = k then some r' else db.operation? k := by
  have hmem := mem_of_operation? hr
  split
  · rename_i hk
    have := mem_of_moved hrows hmem
    rw [if_pos rfl] at this
    rw [← hk, ← hid, operation?_of_mem this]
  · rename_i hk
    cases hfind : db.operation? k with
    | none =>
      refine operation?_eq_none fun x hx hxk => ?_
      rcases mem_moved hrows hx with ⟨rfl, -⟩ | ⟨hx, -⟩
      · exact hk (hid.symm.trans hxk)
      · exact Table.find?_eq_none.mp hfind x hx hxk
    | some x =>
      have hxk := operation?_id hfind
      have := mem_of_moved hrows (mem_of_operation? hfind)
      rw [if_neg (fun h => hk (h.symm.trans hxk))] at this
      rw [← hxk, operation?_of_mem this]

theorem CallEffect.keeps_proven (h : CallEffect db db' call) (hcall : call.Follow shards)
    (hp : db.Proven shards) : db'.Proven shards := by
  cases h with
  | none h => exact h ▸ hp
  | @claimed resharding operationId digest json _ _ _ _ _ hrows hcommits =>
    intro id r hr
    have hmem := mem_of_operation? hr
    rw [hrows] at hmem
    rcases List.mem_append.mp hmem with hmem | hmem
    · obtain ⟨hbefore, hall⟩ := hp id r (operation?_id hr ▸ operation?_of_mem hmem)
      refine ⟨fun i hi => ?_, hall⟩
      obtain ⟨objectId, ho, hs⟩ := hbefore i hi
      exact ⟨objectId, ho, scheduled_of_same hcommits hs⟩
    · obtain rfl := List.mem_singleton.mp hmem
      refine ⟨fun i hi => ?_, fun hphase => absurd rfl hphase⟩
      simp only [preparation] at hi
      omega
  | @moved _ x x' hstep hx _ hrows hcommits hscheduled =>
    have hid := hstep.claim.1
    intro id r hr
    rw [operation?_moved hx hid hrows] at hr
    split at hr
    · rename_i hsame
      subst hsame
      obtain rfl := Option.some.inj hr
      obtain ⟨hbefore, hall⟩ := hp _ x hx
      have hkept : ∀ i : Nat, (i : Int) < x.commitIndex → ∃ objectId,
          (shards x.operationId)[i]? = some objectId ∧ db'.Scheduled x.operationId objectId := by
        intro i hi
        obtain ⟨objectId, ho, hs⟩ := hbefore i hi
        exact ⟨objectId, ho, scheduled_of_same hcommits hs⟩
      cases hstep with
      | advanceShard objectId hphase =>
        refine ⟨fun i hi => ?_, fun _ hne => absurd hphase hne⟩
        by_cases hlt : (i : Int) < x.commitIndex
        · exact hkept i hlt
        · have hat : x.commitIndex = i := by
            simp only at hi
            omega
          exact ⟨objectId, hcall i hat, scheduled_of_same hcommits (hscheduled objectId rfl)⟩
      | finishShards json hphase => exact ⟨hkept, fun _ _ => hcall⟩
      | savePreparation json hphase => exact ⟨hkept, fun hne => absurd hphase hne⟩
      | beginCommits counts hphase => exact ⟨hkept, fun _ hne => absurd rfl hne⟩
      | saveReconcile json hphase =>
        exact ⟨hkept, fun _ _ => hall (by simp [hphase]) (by simp [hphase])⟩
      | beginReleases counts hphase =>
        exact ⟨hkept, fun _ _ => hall (by simp [hphase]) (by simp [hphase])⟩
      | advanceRelease hphase =>
        exact ⟨hkept, fun _ _ => hall (by simp [hphase]) (by simp [hphase])⟩
      | beginCatalog hphase =>
        exact ⟨hkept, fun _ _ => hall (by simp [hphase]) (by simp [hphase])⟩
    · obtain ⟨hbefore, hall⟩ := hp id r hr
      refine ⟨fun i hi => ?_, hall⟩
      obtain ⟨objectId, ho, hs⟩ := hbefore i hi
      exact ⟨objectId, ho, scheduled_of_same hcommits hs⟩
  | @cancelled operationId x hx _ _ _ hrows hcommits =>
    have hstays : ∀ id r, db'.operation? id = some r →
        db.operation? id = some r ∧ id ≠ operationId := by
      intro id r hr
      have hmem := mem_of_operation? hr
      rw [hrows] at hmem
      obtain ⟨hmem, hne⟩ := List.mem_filter.mp hmem
      have hid := operation?_id hr
      exact ⟨hid ▸ operation?_of_mem hmem, hid ▸ of_decide_eq_true hne⟩
    refine hp.mono (fun id r hr => ⟨r, (hstays id r hr).1, rfl, fun h₁ h₂ => ⟨h₁, h₂⟩⟩) ?_
    intro id objectId hsome hs
    obtain ⟨r, hr⟩ := Option.isSome_iff_exists.mp hsome
    unfold CoordinatorDb.Scheduled
    rw [hcommits, if_neg (hstays id r hr).2]
    exact hs
  | @completed operationId x mid hx hphase _ hmid _ hrows hcommits =>
    have hxid := operation?_id hx
    have hstays : ∀ id r, db'.operation? id = some r →
        mid.operation? id = some r ∧ id ∉ mid.retired := by
      intro id r hr
      have hmem := mem_of_operation? hr
      rw [hrows] at hmem
      obtain ⟨hmem, hne⟩ := List.mem_filter.mp hmem
      have hid := operation?_id hr
      exact ⟨hid ▸ operation?_of_mem hmem, hid ▸ of_decide_eq_true hne⟩
    refine hp.mono (fun id r hr => ?_) ?_
    · have hr := (hstays id r hr).1
      have hkey : ({ x with phase := .complete } : StoredOperation).operationId = x.operationId := rfl
      rw [operation?_moved (hxid ▸ hx) hkey (hxid ▸ hmid)] at hr
      split at hr
      · rename_i hsame
        obtain rfl := Option.some.inj hr
        exact ⟨x, hsame ▸ hxid ▸ hx, rfl, fun _ _ => ⟨by simp [hphase], by simp [hphase]⟩⟩
      · exact ⟨r, hr, rfl, fun h₁ h₂ => ⟨h₁, h₂⟩⟩
    · intro id objectId hsome hs
      obtain ⟨r, hr⟩ := Option.isSome_iff_exists.mp hsome
      unfold CoordinatorDb.Scheduled
      rw [hcommits, if_neg (hstays id r hr).2]
      exact hs
  | @recorded _ operationId o c _ _ hoperations hcommits hstatus =>
    have hsame : ∀ id, db'.operation? id = db.operation? id := fun id => by
      unfold CoordinatorDb.operation?
      rw [hoperations]
    refine hp.mono (fun id r hr => ⟨r, hsame id ▸ hr, rfl, fun h₁ h₂ => ⟨h₁, h₂⟩⟩) ?_
    intro id objectId _ hs
    unfold CoordinatorDb.Scheduled at *
    rw [hcommits]
    split
    · rename_i hk
      obtain ⟨rfl, rfl⟩ := Prod.mk.inj hk
      cases hold : db.commit? operationId o with
      | none => rw [hold] at hs; cases hs
      | some old =>
        rw [hold] at hs
        exact congrArg some (hstatus old hold (Option.some.inj hs))
    · exact hs

theorem proven_initial : CoordinatorDb.initial.Proven shards := fun id r hr => by
  cases mem_of_operation? hr

theorem run_proven {parses : ContinuationKind → String → Bool} {calls : List RecoveryCall}
    (hcalls : ∀ call ∈ calls, call.Follow shards) (hc : Coherent db) (hp : db.Proven shards) :
    (db.run parses calls).Proven shards := by
  induction calls generalizing db with
  | nil => exact hp
  | cons call calls ih =>
    obtain ⟨hc', heffect⟩ := execute_coherent hc call
    exact ih (fun c hmem => hcalls c (List.mem_cons_of_mem _ hmem)) hc'
      (heffect.keeps_proven (hcalls call List.mem_cons_self) hp)

end

/-- Over every sequence of calls: an operation follows its phases until a cancelled preparation or
the bound on complete operations takes its row, the clock is coherent, a call that throws writes
nothing, and every shard of an operation is scheduled once it has left `committing`. -/
theorem coordinator_phases_safe (parses : ContinuationKind → String → Bool)
    (calls : List RecoveryCall) :
    (∀ call id r, (CoordinatorDb.initial.run parses calls).operation? id = some r →
      Successor call r (((CoordinatorDb.initial.run parses calls).run parses [call]).operation? id)) ∧
    (∀ id, (CoordinatorDb.initial.run parses calls).clock.activeOperationId = some id ↔
      ∃ r, (CoordinatorDb.initial.run parses calls).operation? id = some r ∧ r.phase ≠ .complete) ∧
    (∃ clock, admissionClock.Returns (CoordinatorDb.initial.run parses calls) clock
      (CoordinatorDb.initial.run parses calls)) ∧
    (∀ (call : RecoveryCall) e db',
      (call.execute parses).Throws (CoordinatorDb.initial.run parses calls) e db' →
        db' = CoordinatorDb.initial.run parses calls) ∧
    (∀ shards : String → List String, (∀ call ∈ calls, call.Follow shards) →
      ∀ id r, (CoordinatorDb.initial.run parses calls).operation? id = some r →
        r.phase ≠ .preparing → r.phase ≠ .committing →
          ∀ objectId ∈ shards id, (CoordinatorDb.initial.run parses calls).Scheduled id objectId) := by
  have hc : Coherent (CoordinatorDb.initial.run parses calls) := run_coherent coherent_initial
  refine ⟨fun call id r hr => ?_, fun id => hc.active_iff, ?_, fun call e db' h => execute_throws hc h,
    fun shards hcalls id r hr hp hcommitting objectId hmem => ?_⟩
  · exact (execute_coherent hc call).2.successor hc hr
  · obtain ⟨digest, h⟩ := hc.admissionClock
    exact ⟨_, h⟩
  · obtain ⟨hbefore, hall⟩ := run_proven hcalls coherent_initial proven_initial id r hr
    obtain ⟨i, hi, hget⟩ := List.mem_iff_getElem.mp hmem
    obtain ⟨o, ho, hs⟩ := hbefore i (by rw [hall hp hcommitting]; exact_mod_cast hi)
    rw [List.getElem?_eq_getElem hi, hget] at ho
    exact Option.some.inj ho ▸ hs

end Chardb.Recovery
