import Chardb.Resharder.Phase

/-!
# Runs of the phase machine

`PhaseStep` lists what a returning call does to the phases and `PhaseInv` is what it
needs: phases stay on the line and every migration has its cursors and a valid schema
identity. Over a run, every step is `StepSafe` exactly when none of them is an
`advance` that `SOURCE_DRAINED` lets through.
-/

namespace Chardb.Resharder

open Chardb.Lib

variable {db db' : ResharderDb}

/-! ## The calls that change a phase -/

/-- Only phases, timestamps and work cursors of migrations differ. -/
structure PhaseFrame (db db' : ResharderDb) : Prop where
  intents : db'.startIntents = db.startIntents
  clock : db'.clock = db.clock
  schemas : db'.schemaIdentities = db.schemaIdentities
  cursors : ∀ m, HasCursors db m → HasCursors db' m
  splits : ∀ m, (db'.migrations.find? m).map (·.toSplitIdentity) =
    (db.migrations.find? m).map (·.toSplitIdentity)

theorem PhaseFrame.refl (db : ResharderDb) : PhaseFrame db db :=
  ⟨rfl, rfl, rfl, fun _ h => h, fun _ => rfl⟩

theorem PhaseFrame.trans {db₁ db₂ db₃ : ResharderDb} (h₁ : PhaseFrame db₁ db₂)
    (h₂ : PhaseFrame db₂ db₃) : PhaseFrame db₁ db₃ :=
  ⟨h₂.intents.trans h₁.intents, h₂.clock.trans h₁.clock, h₂.schemas.trans h₁.schemas,
    fun m h => h₂.cursors m (h₁.cursors m h), fun m => (h₂.splits m).trans (h₁.splits m)⟩

/-- The phases after one of them has been set. -/
def PhaseSet (db db' : ResharderDb) (migId : String) (next : Int) : Prop :=
  ∀ m, db'.phaseOf m = if m = migId then some next else db.phaseOf m

theorem find?_migId {m : String} {r : MigrationRow} (h : db.migrations.find? m = some r) :
    r.migId = m := (Table.find?_eq_some.mp h).2

theorem resetWorkCursor_returns {migId : String} {nowMs : Int} {n : Nat}
    (h : (resetWorkCursor migId nowMs).Returns db n db') :
    PhaseFrame db db' ∧ db'.migrations = db.migrations := by
  simp only [resetWorkCursor, onWorkCursors_returns, Table.update_returns] at h
  obtain ⟨t, ⟨hu, -⟩, rfl⟩ := h
  have hfind := Table.find?_update hu fun _ _ _ => rfl
  refine ⟨⟨rfl, rfl, rfl, fun m hc => ⟨hc.oplog, ?_, hc.file, hc.vector, hc.schema⟩,
    fun _ => rfl⟩, rfl⟩
  show (t.find? m).isSome
  rw [hfind, Option.isSome_map]; exact hc.work

theorem resetWorkCursor_total {migId : String} {nowMs : Int} {e : Thrown} :
    ¬ (resetWorkCursor migId nowMs).Throws db e db' := by
  intro h
  simp only [resetWorkCursor, onWorkCursors, Tx.zoom_throws, Table.update_throws] at h
  obtain ⟨t, ⟨hu, -, -⟩, -⟩ := h
  have := Table.update?_isSome (t := db.workCursors) (p := fun r => decide (r.migId = migId))
    (f := fun r => { r with turn := 0, bulkTableIndex := 0, updatedAt := nowMs })
    (fun _ _ _ => rfl) (fun r _ _ => by simp [WorkCursorRow.check])
  rw [hu] at this; cases this

/-- An `UPDATE` that gives one migration the phase `next`. -/
theorem updatePhase (migId : String) (next : Int) {p : MigrationRow → Bool}
    {f : MigrationRow → MigrationRow} {t : Table MigrationRow.migId MigrationRow.check}
    {row : MigrationRow} (hu : db.migrations.update? p f = some t)
    (hp : ∀ r, p r = true → r.migId = migId) (hid : ∀ r, (f r).migId = r.migId)
    (hsplit : ∀ r, (f r).toSplitIdentity = r.toSplitIdentity) (hnext : ∀ r, (f r).phase = next)
    (hrow : db.migrations.find? migId = some row) (hprow : p row = true) :
    PhaseFrame db { db with migrations := t } ∧
      PhaseSet db { db with migrations := t } migId next := by
  have hfind := Table.find?_update hu fun r _ _ => hid r
  refine ⟨⟨rfl, rfl, rfl, fun m hc => ⟨hc.oplog, hc.work, hc.file, hc.vector, hc.schema⟩,
    fun m => ?_⟩, fun m => ?_⟩
  · show (t.find? m).map _ = _
    rw [hfind, Option.map_map]
    congr 1; funext r
    simp only [Function.comp_apply]
    split
    · exact hsplit r
    · rfl
  · show (t.find? m).map _ = _
    rw [hfind]
    split
    · rename_i hm; subst hm
      rw [hrow]; simp [hprow, hnext]
    · rename_i hm
      show _ = (db.migrations.find? m).map _
      cases hf : db.migrations.find? m with
      | none => rfl
      | some r' =>
        have : ¬ p r' = true := fun h => hm ((find?_migId hf).symm.trans (hp r' h))
        simp [this]

theorem setPhase_returns {migId : String} {prior next : Int} {change : MigrationRow → MigrationRow}
    {lost : ResharderTx Unit} {a : Unit}
    (h : (setPhase migId prior next change lost).Returns db a db')
    (hchange : ∀ r, (change r).toSplitIdentity = r.toSplitIdentity)
    (hlost : ∀ s b s', ¬ lost.Returns s b s') :
    PhaseFrame db db' ∧ db.phaseOf migId = some prior ∧ PhaseSet db db' migId next := by
  simp only [setPhase, Tx.bind_returns, onMigrations_returns, Table.update_returns] at h
  obtain ⟨n, mid, ⟨t, ⟨hu, hn⟩, rfl⟩, h⟩ := h
  rcases Tx.ite_returns.mp h with ⟨hone, h⟩ | ⟨-, h⟩
  · obtain ⟨-, rfl⟩ := Tx.pure_returns.mp h
    have hlen := Table.select_key_length (t := db.migrations) (k := migId)
      (p := fun r => decide (r.phase = prior))
    rw [← hn, hone] at hlen
    obtain ⟨r, hr, hp⟩ : ∃ r, db.migrations.find? migId = some r ∧ r.phase = prior := by
      cases hf : db.migrations.find? migId with
      | none => simp [hf] at hlen
      | some r => exact ⟨r, rfl, by by_contra hne; simp [hf, hne] at hlen⟩
    have := updatePhase migId next hu (fun r h => by simp at h; exact h.1)
      (fun _ => rfl) hchange (fun _ => rfl) hr (by simp [find?_migId hr, hp])
    exact ⟨this.1, by simp [ResharderDb.phaseOf, hr, hp], this.2⟩
  · exact absurd h (hlost _ _ _)

theorem not_throw_returns {e : Thrown} (s : ResharderDb) (b : Unit) (s' : ResharderDb) :
    ¬ (Tx.throw e : ResharderTx Unit).Returns s b s' := by simp

theorem not_phaseChanged_returns (migId : String) (p : Int) (s : ResharderDb) (b : Unit)
    (s' : ResharderDb) : ¬ (phaseChanged migId p).Returns s b s' := by simp [phaseChanged]

/-- What `advance` on a found row does, and when it throws. -/
theorem advanceRow_returns {migId : String} {expected : Option Int} {nowMs n : Int}
    {row : MigrationRow} (hrow : db.migrations.find? migId = some row)
    (h : (advanceRow migId expected nowMs row).Returns db n db') :
    PhaseFrame db db' ∧ row.phase ≠ ABORTING ∧ row.phase ≠ ABORTED ∧
    (∀ p ∈ expected, row.phase = p) ∧ PhaseSet db db' migId (row.phase + 1) := by
  simp only [advanceRow, Tx.bind_returns, Tx.require_returns, onMigrations_returns,
    Table.update_returns, Tx.pure_returns] at h
  obtain ⟨_, _, ⟨⟨h₇, h₁⟩, rfl⟩, _, _, ⟨hexp, rfl⟩, _, _, ⟨t, ⟨hu, -⟩, rfl⟩, _, _, hw, -, rfl⟩ := h
  obtain ⟨hframe, hm⟩ := resetWorkCursor_returns hw
  have hset := updatePhase migId (row.phase + 1) hu (fun r h => by simpa using h)
    (fun _ => rfl) (fun _ => rfl) (fun _ => rfl) hrow (by simp [find?_migId hrow])
  refine ⟨hset.1.trans hframe, h₇, h₁, hexp, fun m => ?_⟩
  unfold ResharderDb.phaseOf
  rw [hm]; exact hset.2 m

/-! ## One call -/

/-- What a returning call does to the phases. -/
inductive PhaseStep (c : PhaseCall) (db db' : ResharderDb) : Prop
  | same (phases : ∀ m, db'.phaseOf m = db.phaseOf m)
  | move {m : String} {p p' : Int} (found : db.phaseOf m = some p) (step : PhaseMove c p p')
      (phases : PhaseSet db db' m p')
  | born {m : String} (fresh : db.phaseOf m = none) (phases : PhaseSet db db' m INIT)
  /-- `advance` increments past the end of the line. -/
  | overrun {m : String} {expected : Option Int} {nowMs : Int} (call : c = .advance m expected nowMs)
      (found : db.phaseOf m = some SOURCE_DRAINED)
      (unchecked : expected = none ∨ expected = some SOURCE_DRAINED)
      (phases : PhaseSet db db' m ABORTING)

/-- Phases are on the line; migrations have their cursors and a valid schema identity. -/
structure PhaseInv (db : ResharderDb) : Prop where
  line : ∀ m p, db.phaseOf m = some p → ABORTED ≤ p ∧ p ≤ ABORTING
  cursors : ∀ m, (db.migrations.find? m).isSome → HasCursors db m
  schemas : ∀ i ∈ db.schemaIdentities, ValidSchema i.schemaVersion i.schemaEpoch i.schemaDigest

theorem phaseOf_eq_none {m : String} : db.phaseOf m = none ↔ db.migrations.find? m = none := by
  simp [ResharderDb.phaseOf]

theorem phaseOf_of_readMigration {m : String} {st : MigrationState}
    (h : (readMigration m).Returns db (some st) db') : db.phaseOf m = some st.phase := by
  obtain ⟨-, r, hr, hid, -, hp, -⟩ := readMigration_returns h
  unfold ResharderDb.phaseOf
  rw [Table.find?_eq_some.mpr ⟨hr, hid⟩, Option.map_some, hp]

/-- A migration with its schema identity can be read. -/
theorem readMigration_total (hi : PhaseInv db) {m : String} {e : Thrown} :
    ¬ (readMigration m).Throws db e db' := by
  intro h
  simp only [readMigration, Tx.bind_throws, Tx.gets_throws, Tx.gets_returns, false_or] at h
  obtain ⟨_, _, ⟨rfl, rfl⟩, h⟩ := h
  split at h
  · simp at h
  · rename_i r hr
    obtain ⟨i, hfi⟩ := Option.isSome_iff_exists.mp (hi.cursors m (by rw [hr]; rfl)).schema
    simp only [Tx.bind_throws, Tx.gets_throws, Tx.gets_returns, Tx.ofOption_throws,
      Tx.ofOption_returns, Tx.require_throws, Tx.pure_throws, false_or, or_false,
      exists_false, and_false, hfi] at h
    obtain ⟨_, _, ⟨rfl, rfl⟩, ⟨h, -⟩ | ⟨i', _, ⟨h', rfl⟩, hv, -⟩⟩ := h
    · cases h
    · cases h'; exact hv (hi.schemas i (Table.find?_eq_some.mp hfi).1)

/-- The new phase of a step that is no birth or overrun. -/
theorem PhaseFrame.isSome (h : PhaseFrame db db') (m : String) :
    (db'.migrations.find? m).isSome = (db.migrations.find? m).isSome := by
  have := congrArg Option.isSome (h.splits m)
  simpa using this

theorem PhaseFrame.inv (h : PhaseFrame db db') (hi : PhaseInv db)
    (hline : ∀ m p, db'.phaseOf m = some p → ABORTED ≤ p ∧ p ≤ ABORTING) : PhaseInv db' :=
  ⟨hline, fun m hm => h.cursors m (hi.cursors m (h.isSome m ▸ hm)), by
    rw [h.schemas]; exact hi.schemas⟩

theorem PhaseStep.line {c : PhaseCall} (h : PhaseStep c db db')
    (hi : ∀ m p, db.phaseOf m = some p → ABORTED ≤ p ∧ p ≤ ABORTING) :
    ∀ m p, db'.phaseOf m = some p → ABORTED ≤ p ∧ p ≤ ABORTING := by
  intro m p hp
  cases h with
  | same phases => exact hi m p (phases m ▸ hp)
  | @move m' p₁ p₂ found step phases =>
    rw [phases m] at hp
    split at hp
    · cases hp
      cases step <;> simp only [ABORTED, ABORTING, INIT, SOURCE_DRAINED, DUAL_WRITE_OPEN,
        BULK_COPY_DONE] at * <;> omega
    · exact hi m p hp
  | born _ phases =>
    rw [phases m] at hp
    split at hp
    · cases hp; decide
    · exact hi m p hp
  | overrun _ _ _ phases =>
    rw [phases m] at hp
    split at hp
    · cases hp; decide
    · exact hi m p hp

theorem withIntents_frame {t : Table StartIntentRow.migId StartIntentRow.check} :
    (∀ m, ({ db with startIntents := t } : ResharderDb).phaseOf m = db.phaseOf m) ∧
      (PhaseInv db → PhaseInv { db with startIntents := t }) :=
  ⟨fun _ => rfl, fun hi => ⟨hi.line, fun m hm =>
    have hc := hi.cursors m hm
    ⟨hc.oplog, hc.work, hc.file, hc.vector, hc.schema⟩, hi.schemas⟩⟩

/-- The start intent aside, `clearStarted` changes nothing. -/
theorem clearStarted_inv {identity : ResharderStartIdentity} {a : Unit}
    (h : (StartIntent.clearStarted identity).Returns db a db') :
    (∀ m, db'.phaseOf m = db.phaseOf m) ∧ (PhaseInv db → PhaseInv db') := by
  obtain ⟨⟨t, rfl⟩, -⟩ := StartIntent.clearStarted_returns h
  exact withIntents_frame

theorem StartOutcome.phaseStep {identity : ResharderStartIdentity} {b : Bool} {c : PhaseCall}
    (h : StartOutcome identity db db' b) (hi : PhaseInv db) : PhaseStep c db db' ∧ PhaseInv db' := by
  cases h with
  | canceled same => subst same; exact ⟨.same fun _ => rfl, hi⟩
  | existing _ _ cleared => exact ⟨.same (clearStarted_inv cleared).1, (clearStarted_inv cleared).2 hi⟩
  | @created topology now mid schema fresh made cleared =>
    obtain ⟨hphase, hinv⟩ := clearStarted_inv cleared
    obtain ⟨-, -, hschemas, hcur, hother, hrow⟩ := insertMigration_returns made
    have hset : PhaseSet db mid identity.migId INIT := by
      intro m
      unfold ResharderDb.phaseOf
      split
      · rename_i hm; subst hm; rw [hrow]; rfl
      · rename_i hm; rw [(hother m hm).1]
    have hborn : PhaseStep c db mid := .born (phaseOf_eq_none.mpr fresh) hset
    refine ⟨.born (phaseOf_eq_none.mpr fresh) fun m => (hphase m).trans (hset m),
      hinv ⟨hborn.line hi.line, fun m hm => ?_, fun i hm => ?_⟩⟩
    · by_cases he : m = identity.migId
      · rw [he]; exact hcur
      · exact (hother m he).2.2 (hi.cursors m ((hother m he).1 ▸ hm))
    · rcases (hschemas i).mp hm with hm | rfl
      · exact hi.schemas i hm
      · exact schema

theorem advance_step {migId : String} {expected : Option Int} {nowMs n : Int} (hi : PhaseInv db)
    (h : (advance migId expected nowMs).Returns db n db') :
    PhaseFrame db db' ∧ PhaseStep (.advance migId expected nowMs) db db' := by
  simp only [advance, Tx.transactionSync_returns, Tx.bind_returns, Tx.gets_returns] at h
  obtain ⟨_, _, ⟨rfl, rfl⟩, h⟩ := h
  split at h
  · obtain ⟨-, rfl⟩ := Tx.pure_returns.mp h
    exact ⟨.refl _, .same fun _ => rfl⟩
  · rename_i row hrow
    obtain ⟨hframe, h₇, h₁, hexp, hset⟩ := advanceRow_returns hrow h
    have hfound : db.phaseOf migId = some row.phase := by simp [ResharderDb.phaseOf, hrow]
    have hline := hi.line migId _ hfound
    refine ⟨hframe, ?_⟩
    by_cases h₆ : row.phase = SOURCE_DRAINED
    · refine .overrun rfl (h₆ ▸ hfound) ?_ (by rw [h₆] at hset; exact hset)
      cases expected with
      | none => exact .inl rfl
      | some p => exact .inr (congrArg some ((hexp p rfl).symm.trans h₆))
    · refine .move hfound (.advance ?_ ?_) hset
      all_goals simp only [ABORTING, ABORTED, INIT, SOURCE_DRAINED] at *; omega

theorem advance_atomic (migId : String) (expected : Option Int) (nowMs : Int) :
    (advance migId expected nowMs).Atomic := Tx.atomic_transactionSync _

theorem enterAbort_step {migId : String} {nowMs : Int} {st : MigrationState} {s : AbortStep}
    (hi : PhaseInv db) (hst : db.phaseOf migId = some st.phase)
    (h : (enterAbort migId nowMs st).Returns db s db') :
    PhaseFrame db db' ∧ PhaseStep (.abort migId nowMs) db db' := by
  rcases Tx.ite_returns.mp h with ⟨-, h⟩ | ⟨h₁, h⟩
  · obtain ⟨-, rfl⟩ := Tx.pure_returns.mp h
    exact ⟨.refl _, .same fun _ => rfl⟩
  · rcases Tx.ite_returns.mp h with ⟨-, h⟩ | ⟨h₇, h⟩
    · obtain ⟨-, rfl⟩ := Tx.pure_returns.mp h
      exact ⟨.refl _, .same fun _ => rfl⟩
    · simp only [markAborting, Tx.bind_returns, Tx.require_returns, Tx.transactionSync_returns,
        Tx.ofOption_returns, Tx.pure_returns] at h
      obtain ⟨_, _, ⟨h₃, rfl⟩, _, _, hs, _, _, hr, _, _, ⟨-, rfl⟩, -, rfl⟩ := h
      obtain rfl := (readOnly_readMigration _).returns hr
      obtain ⟨hframe, hfound, hset⟩ := setPhase_returns hs (fun _ => rfl) not_throw_returns
      have hline := hi.line migId _ hst
      refine ⟨hframe, .move hfound (.abort ?_ ?_) hset⟩
      all_goals simp only [ABORTING, ABORTED, INIT, BULK_COPY_DONE, TAIL_CAUGHT_UP] at *; omega

/-- Marking a migration aborting throws before its transaction commits, or not at all. -/
theorem enterAbort_atomic {migId : String} {nowMs : Int} {st : MigrationState} {e : Thrown}
    (hi : PhaseInv db) (h : (enterAbort migId nowMs st).Throws db e db') : db' = db := by
  rcases Tx.ite_throws.mp h with ⟨-, h⟩ | ⟨h₁, h⟩
  · simp at h
  rcases Tx.ite_throws.mp h with ⟨-, h⟩ | ⟨h₇, h⟩
  · simp at h
  rcases Tx.bind_throws.mp h with h | ⟨_, _, hreq, h⟩
  · exact (Tx.readOnly_require _ _).atomic h
  obtain ⟨hlt, rfl⟩ := Tx.require_returns.mp hreq
  rcases (Tx.atomic_transactionSync _).of_bind_throws h with h | ⟨_, mid, hs, h⟩
  · exact h
  obtain ⟨hframe, hfound, hset⟩ :=
    setPhase_returns (Tx.transactionSync_returns.mp hs) (fun _ => rfl) not_throw_returns
  have hmid : PhaseInv mid := by
    refine hframe.inv hi fun m p hp => ?_
    rw [hset m] at hp
    split at hp
    · cases hp; decide
    · exact hi.line m p hp
  rcases Tx.bind_throws.mp h with h | ⟨o, _, hr, h⟩
  · exact absurd h (readMigration_total hmid)
  obtain rfl := (readOnly_readMigration _).returns hr
  have ho := (readMigration_returns hr).2
  cases o with
  | some st => simp [Tx.ofOption] at h
  | none =>
    have hnone : mid.phaseOf migId = none := phaseOf_eq_none.mpr (Table.find?_eq_none.mpr ho)
    rw [hset migId, if_pos rfl] at hnone; cases hnone

theorem movesOnly_returns {c : PhaseCall} (hc : c.movesOnly) (hi : PhaseInv db)
    (h : c.exec.Returns db () db') : PhaseFrame db db' ∧ PhaseStep c db db' := by
  cases c with
  | startBegin | startReply | abort => cases hc
  | advance migId expected nowMs =>
    obtain ⟨n, h, -⟩ := Tx.map_returns.mp h
    exact advance_step hi h
  | abortComplete migId nowMs =>
    have h : (abortComplete migId nowMs).Returns db () db' := h
    obtain ⟨hf, hfound, hset⟩ := setPhase_returns (Tx.transactionSync_returns.mp h)
      (fun _ => rfl) not_throw_returns
    exact ⟨hf, .move hfound .aborted hset⟩
  | recoverResume migId nowMs =>
    simp only [PhaseCall.exec, recoverResume, Tx.transactionSync_returns, Tx.bind_returns,
      Tx.pure_returns] at h
    obtain ⟨_, mid, hs, _, _, hw, -, rfl⟩ := h
    obtain ⟨hf, hfound, hset⟩ := setPhase_returns hs (fun _ => rfl)
      (not_phaseChanged_returns _ _)
    obtain ⟨hf', hm⟩ := resetWorkCursor_returns hw
    refine ⟨hf.trans hf', .move hfound .resume fun m => ?_⟩
    unfold ResharderDb.phaseOf
    rw [hm]; exact hset m
  | recoverAbort migId nowMs =>
    have h : (recoverAbort migId nowMs).Returns db () db' := h
    obtain ⟨hf, hfound, hset⟩ := setPhase_returns (Tx.transactionSync_returns.mp h)
      (fun _ => rfl) (not_phaseChanged_returns _ _)
    exact ⟨hf, .move hfound .legacyAbort hset⟩

theorem movesOnly_atomic {c : PhaseCall} (hc : c.movesOnly) : c.exec.Atomic := by
  cases c with
  | startBegin | startReply | abort => cases hc
  | advance migId expected nowMs =>
    intro s e s' h; exact advance_atomic _ _ _ (Tx.map_throws.mp h)
  | abortComplete | recoverResume | recoverAbort => exact Tx.atomic_transactionSync _

theorem movesOnly_frame {c : PhaseCall} (hc : c.movesOnly) (hi : PhaseInv db) :
    PhaseFrame db (c.exec.after db) := by
  rcases c.exec.returns_or_throws db with ⟨_, h⟩ | ⟨e, h⟩
  · exact (movesOnly_returns hc hi h).1
  · rw [movesOnly_atomic hc h]; exact .refl db

/-- The first block of `abort` records a cancellation, or moves the phase of a migration. -/
theorem abortBegin_returns {migId : String} {nowMs : Int} {s : AbortStep} (hi : PhaseInv db)
    (h : (abortBegin migId nowMs).Returns db s db') :
    (∃ i, (StartIntent.requestAbort migId nowMs).Returns db i db' ∧ s = .pendingStart i ∧
      db.migrations.find? migId = none) ∨
    ((db.migrations.find? migId).isSome ∧ PhaseFrame db db' ∧
      PhaseStep (.abort migId nowMs) db db') := by
  obtain ⟨o, mid, hr, h⟩ := Tx.bind_returns.mp h
  obtain rfl := (readOnly_readMigration _).returns hr
  cases o with
  | none =>
    obtain ⟨i, h, hs⟩ := Tx.map_returns.mp h
    exact .inl ⟨i, Tx.transactionSync_returns.mp h, hs,
      Table.find?_eq_none.mpr (readMigration_returns hr).2⟩
  | some st =>
    have hst := phaseOf_of_readMigration hr
    refine .inr ⟨?_, enterAbort_step hi hst h⟩
    cases hf : db.migrations.find? migId with
    | none => rw [phaseOf_eq_none.mpr hf] at hst; cases hst
    | some r => rfl

theorem enterAbort_ne_pendingStart {migId : String} {nowMs : Int} {st : MigrationState}
    {i : ResharderStartIntent} : ¬ (enterAbort migId nowMs st).Returns db (.pendingStart i) db' := by
  intro h
  unfold enterAbort at h
  rcases Tx.ite_returns.mp h with ⟨-, h⟩ | ⟨-, h⟩
  · cases (Tx.pure_returns.mp h).1
  rcases Tx.ite_returns.mp h with ⟨-, h⟩ | ⟨-, h⟩
  · cases (Tx.pure_returns.mp h).1
  obtain ⟨_, _, -, h⟩ := Tx.bind_returns.mp h
  obtain ⟨_, _, -, h⟩ := Tx.bind_returns.mp h
  obtain ⟨_, _, -, h⟩ := Tx.bind_returns.mp h
  obtain ⟨_, _, -, h⟩ := Tx.bind_returns.mp h
  cases (Tx.pure_returns.mp h).1

/-- An abort that waits for a start has found no migration and recorded itself. -/
theorem abortBegin_pendingStart {migId : String} {nowMs : Int} {i : ResharderStartIntent}
    (h : (abortBegin migId nowMs).Returns db (.pendingStart i) db') :
    db.migrations.find? migId = none ∧
      ∃ i, (StartIntent.requestAbort migId nowMs).Returns db i db' := by
  obtain ⟨o, mid, hr, h⟩ := Tx.bind_returns.mp h
  obtain rfl := (readOnly_readMigration _).returns hr
  cases o with
  | none =>
    obtain ⟨i, h, -⟩ := Tx.map_returns.mp h
    exact ⟨Table.find?_eq_none.mpr (readMigration_returns hr).2, i, Tx.transactionSync_returns.mp h⟩
  | some st => exact absurd h enterAbort_ne_pendingStart

theorem abortBegin_atomic {migId : String} {nowMs : Int} {e : Thrown} (hi : PhaseInv db)
    (h : (abortBegin migId nowMs).Throws db e db') : db' = db := by
  rcases Tx.bind_throws.mp h with h | ⟨o, _, hr, h⟩
  · exact (readOnly_readMigration _).atomic h
  obtain rfl := (readOnly_readMigration _).returns hr
  cases o with
  | none => exact Tx.atomic_transactionSync _ (Tx.map_throws.mp h)
  | some st => exact enterAbort_atomic hi h

theorem exec_returns {c : PhaseCall} (hi : PhaseInv db) (h : c.exec.Returns db () db') :
    PhaseStep c db db' ∧ PhaseInv db' := by
  have hframe : ∀ {c : PhaseCall}, PhaseFrame db db' ∧ PhaseStep c db db' →
      PhaseStep c db db' ∧ PhaseInv db' := fun h => ⟨h.2, h.1.inv hi (h.2.line hi.line)⟩
  cases c with
  | startBegin identity nowMs =>
    obtain ⟨o, h, -⟩ := Tx.map_returns.mp h
    obtain ⟨-, -, i, hb⟩ := startBegin_returns h
    obtain ⟨⟨t, rfl⟩, -⟩ := StartIntent.begin_returns hb
    exact ⟨.same fun _ => rfl, withIntents_frame.2 hi⟩
  | startReply identity existing topology nowMs =>
    obtain ⟨b, h, -⟩ := Tx.map_returns.mp h
    exact (startReply_returns h).phaseStep hi
  | abort migId nowMs =>
    obtain ⟨s, h, -⟩ := Tx.map_returns.mp h
    rcases abortBegin_returns hi h with ⟨i, h, -⟩ | ⟨-, h⟩
    · obtain ⟨⟨t, rfl⟩, -⟩ := StartIntent.requestAbort_returns h
      exact ⟨.same fun _ => rfl, withIntents_frame.2 hi⟩
    · exact hframe h
  | advance | abortComplete | recoverResume | recoverAbort =>
    exact hframe (movesOnly_returns rfl hi h)

/-- A throw changes no table but, after Catalog's refusal, the start intents. -/
theorem exec_throws {c : PhaseCall} {e : Thrown} (hi : PhaseInv db) (h : c.exec.Throws db e db') :
    ∃ t, db' = { db with startIntents := t } := by
  have same : db' = db → ∃ t, db' = { db with startIntents := t } := fun h => ⟨_, h⟩
  cases c with
  | startBegin identity nowMs => exact same (atomic_startBegin _ _ (Tx.map_throws.mp h))
  | startReply identity existing topology nowMs =>
    rcases startReply_throws (Tx.map_throws.mp h) with h | ⟨i, h⟩
    · exact same h
    · exact (StartIntent.requestAbort_returns h).1
  | abort migId nowMs => exact same (abortBegin_atomic hi (Tx.map_throws.mp h))
  | advance | abortComplete | recoverResume | recoverAbort => exact same (movesOnly_atomic rfl h)

theorem exec_after (c : PhaseCall) (hi : PhaseInv db) :
    PhaseStep c db (c.exec.after db) ∧ PhaseInv (c.exec.after db) := by
  rcases c.exec.returns_or_throws db with ⟨_, h⟩ | ⟨e, h⟩
  · exact exec_returns hi h
  · obtain ⟨t, ht⟩ := exec_throws hi h
    rw [ht]; exact ⟨.same fun _ => rfl, withIntents_frame.2 hi⟩

theorem empty_phaseInv (clock : RecoveryClock) : PhaseInv (.empty clock) :=
  ⟨fun _ _ h => (by cases h), fun _ h => (by cases h), fun _ h => absurd h Table.not_mem_empty⟩

theorem run_phaseInv (calls : List PhaseCall) {db : ResharderDb} (hi : PhaseInv db) :
    PhaseInv (db.run calls) := by
  induction calls generalizing db with
  | nil => exact hi
  | cons c calls ih => exact ih (exec_after c hi).2

/-! ## Safety -/

/-- No call out of `SOURCE_DRAINED` or `ABORTED` is a move. -/
theorem PhaseMove.not_terminal {c : PhaseCall} {p p' : Int} (h : PhaseMove c p p') :
    p ≠ SOURCE_DRAINED ∧ p ≠ ABORTED := by
  cases h <;> simp only [INIT, SOURCE_DRAINED, ABORTED, TAIL_CAUGHT_UP, BULK_COPY_DONE,
    ABORTING] at * <;> omega

theorem advance_throws_of {migId : String} {expected : Option Int} {nowMs p : Int}
    (hp : db.phaseOf migId = some p)
    (hstop : p = ABORTED ∨ p = SOURCE_DRAINED ∧ expected ≠ none ∧ expected ≠ some SOURCE_DRAINED) :
    ∃ e, (PhaseCall.advance migId expected nowMs).exec.Throws db e db := by
  rcases (PhaseCall.advance migId expected nowMs).exec.returns_or_throws db with ⟨_, h⟩ | ⟨e, h⟩
  · obtain ⟨n, h, -⟩ := Tx.map_returns.mp h
    simp only [advance, Tx.transactionSync_returns, Tx.bind_returns, Tx.gets_returns] at h
    obtain ⟨_, _, ⟨rfl, rfl⟩, h⟩ := h
    split at h
    · rename_i hnone
      rw [phaseOf_eq_none.mpr hnone] at hp; cases hp
    · rename_i row hrow
      obtain ⟨-, -, h₁, hexp, -⟩ := advanceRow_returns hrow h
      obtain rfl : row.phase = p := by simpa [ResharderDb.phaseOf, hrow] using hp
      rcases hstop with hstop | ⟨h₆, hne, hne'⟩
      · exact absurd hstop h₁
      · cases expected with
        | none => exact absurd rfl hne
        | some q => exact absurd (congrArg some ((hexp q rfl).symm.trans h₆)) hne'
  · have := advance_atomic _ _ _ (Tx.map_throws.mp h)
    rw [this] at h; exact ⟨e, h⟩

/-- An `advance` that `SOURCE_DRAINED` lets through does not throw. -/
theorem advance_overruns {migId : String} {expected : Option Int} {nowMs : Int} {e : Thrown}
    (hp : db.phaseOf migId = some SOURCE_DRAINED)
    (hun : expected = none ∨ expected = some SOURCE_DRAINED) :
    ¬ (PhaseCall.advance migId expected nowMs).exec.Throws db e db' := by
  intro h
  obtain ⟨row, hrow, hph⟩ : ∃ row, db.migrations.find? migId = some row ∧
      row.phase = SOURCE_DRAINED := by
    simpa [ResharderDb.phaseOf, Option.map_eq_some_iff] using hp
  have h := Tx.map_throws.mp h
  simp only [advance, Tx.transactionSync_throws, Tx.bind_throws, Tx.gets_throws, Tx.gets_returns,
    false_or] at h
  obtain ⟨-, _, _, _, ⟨rfl, rfl⟩, h⟩ := h
  rw [hrow] at h
  simp only [advanceRow, Tx.bind_throws, Tx.require_throws, Tx.require_returns, Tx.pure_throws,
    exists_false, and_false, or_false] at h
  rcases h with ⟨h, -⟩ | ⟨_, _, ⟨-, rfl⟩, ⟨h, -⟩ | ⟨_, _, ⟨-, rfl⟩, h | ⟨_, _, -, h⟩⟩⟩
  · rw [hph] at h; exact h (by decide)
  · rcases hun with rfl | rfl
    · exact h (fun _ h => by cases h)
    · exact h (fun p hp => by cases hp; exact hph)
  · simp only [onMigrations, Tx.zoom_throws, Table.update_throws] at h
    obtain ⟨_, ⟨hu, -⟩, -⟩ := h
    have := Table.update?_isSome (t := db.migrations) (p := fun r => decide (r.migId = migId))
      (f := fun r => { r with phase := row.phase + 1, updatedAt := nowMs })
      (fun _ _ _ => rfl) (fun r hr _ => by
        have : r.check := Table.check_of_mem hr
        exact this)
    rw [hu] at this; cases this
  · exact resetWorkCursor_total h

/-- In a state the Resharder can reach, a call is safe unless it overruns the phase line. -/
theorem stepSafe_iff {c : PhaseCall} (hi : PhaseInv db) : StepSafe c db ↔ LeavesDrained c db := by
  constructor
  · rintro hs m expected nowMs rfl hp
    obtain ⟨-, hthrow⟩ := hs.terminal m _ hp (.inl rfl)
    obtain ⟨e, he⟩ := hthrow expected nowMs rfl
    constructor
    · intro hun; exact advance_overruns hp (.inl hun) he
    · intro hun; exact advance_overruns hp (.inr hun) he
  · intro hl
    have hmoves : ∀ m p, db.phaseOf m = some p →
        ∃ p', (c.exec.after db).phaseOf m = some p' ∧ (p' = p ∨ PhaseMove c p p') := by
      intro m p hp
      cases (exec_after c hi).1 with
      | same phases => exact ⟨p, (phases m).trans hp, .inl rfl⟩
      | @move m' q q' found step phases =>
        rw [phases m]
        split
        · rename_i hm; subst hm
          rw [hp] at found; cases found
          exact ⟨q', rfl, .inr step⟩
        · exact ⟨p, hp, .inl rfl⟩
      | @born m' fresh phases =>
        rw [phases m]
        split
        · rename_i hm; subst hm
          rw [hp] at fresh; cases fresh
        · exact ⟨p, hp, .inl rfl⟩
      | overrun call found unchecked =>
        have := hl _ _ _ call found
        rcases unchecked with h | h
        · exact absurd h this.1
        · exact absurd h this.2
    refine ⟨hmoves, ?_, ?_, ?_⟩
    · intro m p hp hp'
      cases (exec_after c hi).1 with
      | same phases => rw [phases m, hp] at hp'; cases hp'
      | move found _ phases =>
        rw [phases m] at hp'
        split at hp'
        · rename_i hm; rw [hm, found] at hp; cases hp
        · rw [hp] at hp'; cases hp'
      | born _ phases =>
        rw [phases m] at hp'
        split at hp'
        · cases hp'; rfl
        · rw [hp] at hp'; cases hp'
      | overrun _ found _ phases =>
        rw [phases m] at hp'
        split at hp'
        · rename_i hm; rw [hm, found] at hp; cases hp
        · rw [hp] at hp'; cases hp'
    · intro m p hp hterm
      obtain ⟨p', hp', hmove⟩ := hmoves m p hp
      constructor
      · rcases hmove with rfl | hmove
        · exact hp'
        · rcases hterm with h | h
          · exact absurd h hmove.not_terminal.1
          · exact absurd h hmove.not_terminal.2
      · rintro expected nowMs rfl
        rcases hterm with rfl | rfl
        · exact advance_throws_of hp (.inr ⟨rfl, hl m expected nowMs rfl hp⟩)
        · exact advance_throws_of hp (.inl rfl)
    · intro e db' h
      obtain ⟨t, rfl⟩ := exec_throws hi h
      exact ⟨rfl, rfl⟩

/-- Over a run from an empty Resharder every step is safe exactly when none overruns the line. -/
theorem run_stepSafe_iff (clock : RecoveryClock) (calls : List PhaseCall) :
    (∀ before c later, calls = before ++ c :: later →
      StepSafe c ((ResharderDb.empty clock).run before)) ↔
    ∀ before c later, calls = before ++ c :: later →
      LeavesDrained c ((ResharderDb.empty clock).run before) := by
  constructor
  · intro h before c later hc
    exact (stepSafe_iff (run_phaseInv before (empty_phaseInv clock))).mp (h before c later hc)
  · intro h before c later hc
    exact (stepSafe_iff (run_phaseInv before (empty_phaseInv clock))).mpr (h before c later hc)

/-- A split driven to its end by checked advances. -/
def drainedRun : List PhaseCall :=
  let identity : ResharderStartIdentity :=
    { migId := "m", srcShard := "a", dstShard := "b", rangeLo := 0, rangeHi := 9, epochAtStart := 1
      recoveryGeneration := 0, tablesJson := [⟨"t", "p", ["p"]⟩] }
  let topology : TopologyReply :=
    { status := .active, schemaVersion := 0, schemaEpoch := 1
      schemaDigest := "0123456789abcdef0123456789abcdef0123456789abcdef0123456789abcdef" }
  [.startBegin identity 0, .startReply identity none topology 0, .advance "m" (some 0) 0,
    .advance "m" (some 1) 0, .advance "m" (some 2) 0, .advance "m" (some 3) 0,
    .advance "m" (some 4) 0, .advance "m" (some 5) 0]

/-- One more `advance`, without an expected phase, takes the drained migration to `ABORTING`. -/
theorem drained_advance_unsafe :
    ((ResharderDb.empty ⟨0, none⟩).run drainedRun).phaseOf "m" = some SOURCE_DRAINED ∧
    ((ResharderDb.empty ⟨0, none⟩).run (drainedRun ++ [.advance "m" none 0])).phaseOf "m" =
      some ABORTING ∧
    ¬ StepSafe (.advance "m" none 0) ((ResharderDb.empty ⟨0, none⟩).run drainedRun) := by
  have hp : ((ResharderDb.empty ⟨0, none⟩).run drainedRun).phaseOf "m" = some SOURCE_DRAINED := by
    decide
  refine ⟨hp, by decide, fun h => ?_⟩
  have hi := run_phaseInv drainedRun (empty_phaseInv ⟨0, none⟩)
  exact ((stepSafe_iff hi).mp h "m" none 0 rfl hp).1 rfl

end Chardb.Resharder
