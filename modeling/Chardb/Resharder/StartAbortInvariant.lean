import Chardb.Resharder.StartAbort

/-!
# Start against abort

`DbEffect` lists what one action can do to the database. From it follow `StartInv`
(a migration and an intent under one id agree), the persistence of a binding, of a
cancellation without migration (`Tombstoned`) and of a completed start, and from
those what holds over every interleaving.
-/

namespace Chardb.Resharder

open Chardb.Lib

variable {db db' : ResharderDb}

/-- The specs are in canonical order. -/
def Canonical (tables : List TableSpec) : Prop := tables.Pairwise (nameLe · ·)

/-- What the database keeps over every interleaving. -/
structure StartInv (db : ResharderDb) : Prop where
  phase : PhaseInv db
  canonical : ∀ m row, db.migrations.find? m = some row → Canonical row.tablesJson
  agree : ∀ m row intent split, db.migrations.find? m = some row →
    db.startIntents.find? m = some intent → intent.split = some split →
      split = row.toSplitIdentity

/-- What one action does to the database, and for which migration. -/
inductive DbEffect : Option String → ResharderDb → ResharderDb → Prop
  | frame {db db' : ResharderDb} (h : PhaseFrame db db') (inv : PhaseInv db') :
      DbEffect none db db'
  | clock {db : ResharderDb} (clock : RecoveryClock) : DbEffect none db { db with clock }
  | began {db db' : ResharderDb} {identity : ResharderStartIdentity} {nowMs : Int}
      {intent : ResharderStartIntent}
      (same : ∀ row, db.migrations.find? identity.migId = some row →
        row.toSplitIdentity = identity.toSplitIdentity)
      (h : (StartIntent.begin identity nowMs).Returns db intent db') :
      DbEffect (some identity.migId) db db'
  | tombstoned {db db' : ResharderDb} {migId : String} {nowMs : Int}
      {intent : ResharderStartIntent}
      (h : (StartIntent.requestAbort migId nowMs).Returns db intent db') :
      DbEffect (some migId) db db'
  | started {db db' : ResharderDb} {identity : ResharderStartIdentity} {canceled : Bool}
      (canonical : Canonical identity.tablesJson) (h : StartOutcome identity db db' canceled) :
      DbEffect (some identity.migId) db db'

theorem DbEffect.refl (hi : PhaseInv db) : DbEffect none db db := .frame (.refl db) hi

/-- A start that completes leaves its migration, under its identity, and no intent. -/
theorem StartOutcome.completed {identity : ResharderStartIdentity}
    (hc : ∀ row, db.migrations.find? identity.migId = some row → Canonical row.tablesJson)
    (h : StartOutcome identity db db' false) :
    db'.startIntents.find? identity.migId = none ∧
    (∃ row, db'.migrations.find? identity.migId = some row ∧
      row.toSplitIdentity = identity.toSplitIdentity) ∧
    (∃ intent, db.startIntents.find? identity.migId = some intent ∧ intent.state = .starting ∧
      intent.split = some identity.toSplitIdentity) ∧
    ∀ m, m ≠ identity.migId → db'.startIntents.find? m = db.startIntents.find? m ∧
      db'.migrations.find? m = db.migrations.find? m := by
  cases h with
  | @existing row found same cleared =>
    obtain ⟨⟨t, rfl⟩, hother, hnone, hintent⟩ := StartIntent.clearStarted_returns cleared
    exact ⟨hnone, ⟨row, found, assertSameSplit_returns same (hc row found)⟩, hintent,
      fun m hm => ⟨hother m hm, rfl⟩⟩
  | @created topology now mid _ fresh made cleared =>
    obtain ⟨hint, -, -, -, hmig, hrow⟩ := insertMigration_returns made
    obtain ⟨⟨t, rfl⟩, hother, hnone, hintent⟩ := StartIntent.clearStarted_returns cleared
    rw [hint] at hintent
    exact ⟨hnone, ⟨_, hrow, rfl⟩, hintent, fun m hm =>
      ⟨(hother m hm).trans (by rw [hint]), (hmig m hm).1⟩⟩

/-- A start that found its intent canceled changes nothing. -/
theorem StartOutcome.unchanged {identity : ResharderStartIdentity}
    (h : StartOutcome identity db db' true) : db' = db := by
  cases h with
  | canceled same => exact same

/-- Under another id than the one an action is about, rows and intents stay. -/
theorem DbEffect.other {touched : Option String} (hi : StartInv db) (h : DbEffect touched db db')
    {m : String} (hm : touched ≠ some m) :
    db'.startIntents.find? m = db.startIntents.find? m ∧
    (db'.migrations.find? m).map (·.toSplitIdentity) =
      (db.migrations.find? m).map (·.toSplitIdentity) := by
  cases h with
  | frame h => exact ⟨by rw [h.intents], h.splits m⟩
  | clock => exact ⟨rfl, rfl⟩
  | began _ h =>
    obtain ⟨⟨t, rfl⟩, hother, -⟩ := StartIntent.begin_returns h
    exact ⟨hother m fun he => hm (congrArg some he.symm), rfl⟩
  | tombstoned h =>
    obtain ⟨⟨t, rfl⟩, hother, -⟩ := StartIntent.requestAbort_returns h
    exact ⟨hother m fun he => hm (congrArg some he.symm), rfl⟩
  | @started _ _ identity canceled hcan h =>
    cases canceled with
    | true => rw [h.unchanged]; exact ⟨rfl, rfl⟩
    | false =>
      have := (h.completed (hi.canonical _)).2.2.2 m fun he => hm (congrArg some he.symm)
      exact ⟨this.1, by rw [this.2]⟩

theorem map_split_some {m : String} {split : SplitIdentity} :
    (db.migrations.find? m).map (·.toSplitIdentity) = some split ↔
      ∃ row, db.migrations.find? m = some row ∧ row.toSplitIdentity = split :=
  Option.map_eq_some_iff

theorem DbEffect.phaseInv {touched : Option String} (hi : StartInv db)
    (h : DbEffect touched db db') : PhaseInv db' := by
  cases h with
  | frame _ inv => exact inv
  | clock => exact ⟨hi.phase.line, fun m hm =>
      have hc := hi.phase.cursors m hm
      ⟨hc.oplog, hc.work, hc.file, hc.vector, hc.schema⟩, hi.phase.schemas⟩
  | began _ h =>
    obtain ⟨⟨t, rfl⟩, -⟩ := StartIntent.begin_returns h
    exact withIntents_frame.2 hi.phase
  | tombstoned h =>
    obtain ⟨⟨t, rfl⟩, -⟩ := StartIntent.requestAbort_returns h
    exact withIntents_frame.2 hi.phase
  | @started _ _ identity _ _ h =>
    exact (h.phaseStep (c := .abort identity.migId 0) hi.phase).2

/-! ## What persists -/

theorem Bound.unique (hi : StartInv db) {m : String} {i j : SplitIdentity} (hb : Bound db m i)
    (hb' : Bound db m j) : i = j := by
  rcases hb with ⟨row, hrow, rfl⟩ | ⟨intent, hint, hs⟩ <;>
    rcases hb' with ⟨row', hrow', rfl⟩ | ⟨intent', hint', hs'⟩
  · rw [hrow] at hrow'; cases hrow'; rfl
  · exact (hi.agree m row intent' j hrow hint' hs').symm
  · exact hi.agree m row' intent i hrow' hint hs
  · rw [hint] at hint'; cases hint'
    rw [hs] at hs'; cases hs'; rfl

/-- A migration id keeps the identity it is bound to. -/
theorem DbEffect.bound {touched : Option String} (hi : StartInv db) (h : DbEffect touched db db')
    {m : String} {i : SplitIdentity} (hb : Bound db m i) : Bound db' m i := by
  by_cases hm : touched = some m
  · cases h with
    | frame | clock => cases hm
    | @began _ _ identity nowMs intent same h =>
      cases hm
      obtain ⟨⟨t, rfl⟩, -, hbefore, row', hrow', -, hsplit'⟩ := StartIntent.begin_returns h
      rcases hb with hb | ⟨row, hrow, hs⟩
      · exact .inl hb
      · rw [(hbefore row hrow).2] at hs
        exact .inr ⟨row', hrow', hsplit'.trans hs⟩
    | @tombstoned _ _ migId nowMs intent h =>
      cases hm
      obtain ⟨⟨t, rfl⟩, -, row', hrow', -, hsplit'⟩ := StartIntent.requestAbort_returns h
      rcases hb with hb | ⟨row, hrow, hs⟩
      · exact .inl hb
      · exact .inr ⟨row', hrow', by rw [hsplit', hrow]; exact hs⟩
    | @started _ _ identity canceled hcan h =>
      cases hm
      cases canceled with
      | true => rw [h.unchanged]; exact hb
      | false =>
        obtain ⟨-, ⟨row, hrow, hsplit⟩, ⟨intent, hint, -, hs⟩, -⟩ := h.completed (hi.canonical _)
        have : i = identity.toSplitIdentity := hb.unique hi (.inr ⟨intent, hint, hs⟩)
        exact .inl ⟨row, hrow, hsplit.trans this.symm⟩
  · obtain ⟨hint, hmig⟩ := h.other hi hm
    rcases hb with ⟨row, hrow, rfl⟩ | ⟨intent, hintent, hs⟩
    · exact .inl (map_split_some.mp (by rw [hmig, hrow]; rfl))
    · exact .inr ⟨intent, hint.trans hintent, hs⟩

/-- An abort of `m` is on record and there is no migration. -/
def Tombstoned (db : ResharderDb) (m : String) : Prop :=
  db.migrations.find? m = none ∧
    ∃ intent, db.startIntents.find? m = some intent ∧ intent.state = .abortRequested

theorem DbEffect.tombstone {touched : Option String} (hi : StartInv db)
    (h : DbEffect touched db db') {m : String} (ht : Tombstoned db m) : Tombstoned db' m := by
  obtain ⟨hnone, intent, hint, hstate⟩ := ht
  by_cases hm : touched = some m
  · cases h with
    | frame | clock => cases hm
    | began _ h =>
      cases hm
      obtain ⟨-, -, hbefore, -⟩ := StartIntent.begin_returns h
      rw [(hbefore intent hint).1] at hstate; cases hstate
    | tombstoned h =>
      cases hm
      obtain ⟨⟨t, rfl⟩, -, row', hrow', hst', -⟩ := StartIntent.requestAbort_returns h
      exact ⟨hnone, row', hrow', hst'⟩
    | @started _ _ identity canceled hcan h =>
      cases hm
      cases canceled with
      | true => rw [h.unchanged]; exact ⟨hnone, intent, hint, hstate⟩
      | false =>
        obtain ⟨-, -, ⟨intent', hint', hst', -⟩, -⟩ := h.completed (hi.canonical _)
        rw [hint] at hint'; cases hint'
        rw [hstate] at hst'; cases hst'
  · obtain ⟨hint', hmig⟩ := h.other hi hm
    rw [hnone, Option.map_none, Option.map_eq_none_iff] at hmig
    exact ⟨hmig, intent, hint'.trans hint, hstate⟩

/-- The start of `identity` has completed. -/
def Completed (db : ResharderDb) (identity : ResharderStartIdentity) : Prop :=
  db.startIntents.find? identity.migId = none ∧
    ∃ row, db.migrations.find? identity.migId = some row ∧
      row.toSplitIdentity = identity.toSplitIdentity

theorem DbEffect.completed {touched : Option String} (hi : StartInv db)
    (h : DbEffect touched db db') {identity : ResharderStartIdentity}
    (hm : touched ≠ some identity.migId) (hc : Completed db identity) : Completed db' identity := by
  obtain ⟨hint, hmig⟩ := h.other hi hm
  obtain ⟨hnone, row, hrow, hs⟩ := hc
  exact ⟨hint.trans hnone, map_split_some.mp (by rw [hmig, hrow, ← hs]; rfl)⟩

theorem DbEffect.inv {touched : Option String} (h : DbEffect touched db db') (hi : StartInv db) :
    StartInv db' := by
  refine ⟨h.phaseInv hi, ?_, ?_⟩
  · intro m row hrow
    have hcan : ∀ {row : MigrationRow}, (db.migrations.find? m).map (·.toSplitIdentity) =
        some row.toSplitIdentity → Canonical row.tablesJson := by
      intro row hs
      obtain ⟨row', hrow', hs'⟩ := map_split_some.mp hs
      have := hi.canonical m row' hrow'
      rw [hs'] at this; exact this
    cases h with
    | frame h => exact hcan (by rw [← h.splits m, hrow]; rfl)
    | clock => exact hi.canonical m row hrow
    | began _ h =>
      obtain ⟨⟨t, rfl⟩, -⟩ := StartIntent.begin_returns h
      exact hi.canonical m row hrow
    | tombstoned h =>
      obtain ⟨⟨t, rfl⟩, -⟩ := StartIntent.requestAbort_returns h
      exact hi.canonical m row hrow
    | @started _ _ identity canceled hid h =>
      cases canceled with
      | true => rw [h.unchanged] at hrow; exact hi.canonical m row hrow
      | false =>
        obtain ⟨-, ⟨row', hrow', hs⟩, -, hother⟩ := h.completed (hi.canonical _)
        by_cases he : m = identity.migId
        · rw [he, hrow'] at hrow; cases hrow
          rw [hs]; exact hid
        · rw [(hother m he).2] at hrow; exact hi.canonical m row hrow
  · intro m row intent split hrow hint hs
    by_cases hm : touched = some m
    · cases h with
      | frame | clock => cases hm
      | began same h =>
        cases hm
        obtain ⟨⟨t, rfl⟩, -, -, row', hrow', -, hsplit'⟩ := StartIntent.begin_returns h
        rw [hint] at hrow'; cases hrow'
        rw [hs] at hsplit'; cases hsplit'
        exact (same row hrow).symm
      | tombstoned h =>
        cases hm
        obtain ⟨⟨t, rfl⟩, -, row', hrow', -, hsplit'⟩ := StartIntent.requestAbort_returns h
        rw [hint] at hrow'; cases hrow'
        rw [hs] at hsplit'
        obtain ⟨intent', hint', hs'⟩ := Option.bind_eq_some_iff.mp hsplit'.symm
        exact hi.agree _ row intent' split hrow hint' hs'
      | @started _ _ identity canceled hid h =>
        cases hm
        cases canceled with
        | true => rw [h.unchanged] at hrow hint; exact hi.agree _ row intent split hrow hint hs
        | false =>
          rw [(h.completed (hi.canonical _)).1] at hint; cases hint
    · obtain ⟨hint', hmig⟩ := h.other hi hm
      rw [hint'] at hint
      obtain ⟨row', hrow', hs'⟩ := map_split_some.mp (hmig.symm.trans (by rw [hrow]; rfl))
      rw [hi.agree m row' intent split hrow' hint hs, hs']

/-! ## The blocks of the machine -/

/-- The entries of `activeStarts` and the database fit together. -/
structure WorldInv (w : World) : Prop where
  db : StartInv w.db
  migId : ∀ m op, w.starts m = some op → op.identity.migId = m
  canonical : ∀ m op, w.starts m = some op → Canonical op.identity.tablesJson
  completed : ∀ m op, w.starts m = some op → op.position = .settled true →
    Completed w.db op.identity

theorem startBegin_effect {identity : ResharderStartIdentity} {nowMs : Int}
    {o : Option MigrationState} (hi : StartInv db)
    (h : (startBegin identity nowMs).Returns db o db') :
    DbEffect (some identity.migId) db db' := by
  obtain ⟨hr, ha, i, hb⟩ := startBegin_returns h
  refine .began (fun row hrow => ?_) hb
  have hread := (readMigration_returns hr).2
  cases o with
  | none =>
    obtain ⟨hrmem, hrid⟩ := Table.find?_eq_some.mp hrow
    exact absurd hrid (hread row hrmem)
  | some st =>
    obtain ⟨r, hr', hid, hs, -⟩ := hread
    have he : r = row := by
      have := Table.find?_eq_some.mpr ⟨hr', hid⟩
      rw [hrow] at this; exact (Option.some.inj this).symm
    subst he
    have hcan := hi.canonical _ r hrow
    have hcan' : Canonical st.tablesJson := by
      have : r.tablesJson = st.tablesJson := congrArg SplitIdentity.tablesJson hs
      rw [← this]; exact hcan
    exact hs.trans (assertSameSplit_returns ha hcan')

theorem startReply_effect {identity : ResharderStartIdentity} (existing : Option MigrationState)
    (topology : TopologyReply) (nowMs : Int) (hi : StartInv db)
    (hc : Canonical identity.tablesJson) :
    (∃ touched, (touched = none ∨ touched = some identity.migId) ∧
      DbEffect touched db ((startReply identity existing topology nowMs).after db)) := by
  rcases (startReply identity existing topology nowMs).returns_or_throws db with ⟨b, h⟩ | ⟨e, h⟩
  · exact ⟨_, .inr rfl, .started hc (startReply_returns h)⟩
  · rcases startReply_throws h with h | ⟨i, h⟩
    · rw [h]; exact ⟨none, .inl rfl, .refl hi.phase⟩
    · exact ⟨_, .inr rfl, .tombstoned h⟩

/-- The first block of an abort records the cancellation of a start, or moves a phase. -/
theorem abortBegin_effect (migId : String) (nowMs : Int) (hi : StartInv db) :
    DbEffect none db ((abortBegin migId nowMs).after db) ∨
    (db.migrations.find? migId = none ∧
      DbEffect (some migId) db ((abortBegin migId nowMs).after db)) := by
  rcases (abortBegin migId nowMs).returns_or_throws db with ⟨s, h⟩ | ⟨e, h⟩
  · rcases abortBegin_returns hi.phase h with ⟨i, h, -, hnone⟩ | ⟨-, hf, hs⟩
    · exact .inr ⟨hnone, .tombstoned h⟩
    · exact .inl (.frame hf (hf.inv hi.phase (hs.line hi.phase.line)))
  · rw [abortBegin_atomic hi.phase h]; exact .inl (.refl hi.phase)

theorem abortResume_effect (migId : String) (nowMs : Int) (hi : StartInv db) :
    DbEffect none db ((abortResumeBlock migId nowMs).after db) := by
  rcases (abortResumeBlock migId nowMs).returns_or_throws db with ⟨s, h⟩ | ⟨e, h⟩
  · obtain ⟨o, _, hr, hx⟩ := Tx.bind_returns.mp h
    obtain rfl := (readOnly_readMigration _).returns hr
    cases o with
    | none => rw [← (Tx.pure_returns.mp hx).2]; exact .refl hi.phase
    | some st =>
      obtain ⟨hf, hs⟩ := enterAbort_step hi.phase (phaseOf_of_readMigration hr) hx
      exact .frame hf (hf.inv hi.phase (hs.line hi.phase.line))
  · rcases Tx.bind_throws.mp h with h | ⟨o, _, hr, hx⟩
    · rw [(readOnly_readMigration _).atomic h]; exact .refl hi.phase
    obtain rfl := (readOnly_readMigration _).returns hr
    cases o with
    | none => simp at hx
    | some st => rw [enterAbort_atomic hi.phase hx]; exact .refl hi.phase

theorem movesOnly_effect {c : PhaseCall} (hc : c.movesOnly) (hi : StartInv db) :
    DbEffect none db (c.exec.after db) :=
  .frame (movesOnly_frame hc hi.phase) (exec_after c hi.phase).2

section
variable {w : World}

@[simp] theorem setStart_db (m : String) (op : Option StartOp) : (w.setStart m op).db = w.db := rfl

@[simp] theorem setAbort_db (m : String) (p : Option AbortPosition) :
    (w.setAbort m p).db = w.db := rfl

@[simp] theorem setAbort_starts (m : String) (p : Option AbortPosition) :
    (w.setAbort m p).starts = w.starts := rfl

theorem setStart_starts {m m' : String} {op : Option StartOp} :
    (w.setStart m op).starts m' = if m' = m then op else w.starts m' := by
  simp [World.setStart, Function.update_apply]

/-- The database moves on and one start entry changes. -/
theorem WorldInv.setStart (hw : WorldInv w) {m : String} {touched : Option String}
    {identity : ResharderStartIdentity} {position : StartPosition}
    (he : DbEffect touched w.db db') (ht : touched = none ∨ touched = some m)
    (hid : identity.migId = m) (hc : Canonical identity.tablesJson)
    (hdone : position = .settled true → Completed db' identity) :
    WorldInv ({ w with db := db' }.setStart m (some ⟨identity, position⟩)) := by
  refine ⟨he.inv hw.db, ?_, ?_, ?_⟩ <;> intro m' op hop <;> rw [setStart_starts] at hop <;>
    split at hop
  · rename_i hm; cases hop; exact hid.trans hm.symm
  · exact hw.migId m' op hop
  · cases hop; exact hc
  · exact hw.canonical m' op hop
  · cases hop; exact hdone
  · rename_i hm
    intro hp
    refine he.completed hw.db ?_ (hw.completed m' op hop hp)
    rw [hw.migId m' op hop]
    rcases ht with rfl | rfl
    · simp
    · simpa using Ne.symm hm

theorem WorldInv.clearStart (hw : WorldInv w) (m : String) : WorldInv (w.setStart m none) := by
  refine ⟨hw.db, ?_, ?_, ?_⟩ <;> intro m' op hop <;> rw [setStart_starts] at hop <;>
    split at hop
  · cases hop
  · exact hw.migId m' op hop
  · cases hop
  · exact hw.canonical m' op hop
  · cases hop
  · exact hw.completed m' op hop

/-- The database moves on under another id than that of any completed start. -/
theorem WorldInv.effect (hw : WorldInv w) {touched : Option String}
    (he : DbEffect touched w.db db')
    (ht : ∀ m op, w.starts m = some op → op.position = .settled true → touched ≠ some m)
    (aborts : String → Option AbortPosition) : WorldInv ⟨db', w.starts, aborts⟩ :=
  ⟨he.inv hw.db, hw.migId, hw.canonical, fun m op hop hp =>
    he.completed hw.db (by rw [hw.migId m op hop]; exact ht m op hop hp)
      (hw.completed m op hop hp)⟩

theorem canonicalStartSplit_canonical {σ : Type} {args : StartSplitArgs} {tables : List TableSpec}
    {s s' : σ} (h : (canonicalStartSplit args).Returns s tables s') : Canonical tables ∧ s = s' := by
  simp only [canonicalStartSplit, Tx.bind_returns, Tx.require_returns] at h
  obtain ⟨_, _, ⟨-, rfl⟩, _, _, ⟨-, rfl⟩, _, _, ⟨-, rfl⟩, _, _, ⟨-, rfl⟩, _, _, ⟨-, rfl⟩, h⟩ := h
  exact ⟨canonicalSplitTables_pairwise h, (readOnly_canonicalSplitTables _).returns h⟩

theorem readOnly_canonicalStartSplit {σ : Type} (args : StartSplitArgs) :
    (canonicalStartSplit args : Tx Thrown σ _).ReadOnly :=
  (Tx.readOnly_require _ _).bind fun _ => (Tx.readOnly_require _ _).bind fun _ =>
    (Tx.readOnly_require _ _).bind fun _ => (Tx.readOnly_require _ _).bind fun _ =>
      (Tx.readOnly_require _ _).bind fun _ => readOnly_canonicalSplitTables _

theorem atomic_joinStart (identity : ResharderStartIdentity) (active : Option StartOp) :
    (joinStart identity active).Atomic := by
  cases active with
  | some op => exact (Tx.readOnly_require _ _).atomic
  | none => intro s e s' h; simp [joinStart] at h

theorem atomic_startSplit (admission : Admit) (args : StartSplitArgs) (recovering : Bool) :
    (startSplit admission args recovering).Atomic :=
  (Tx.readOnly_ofExcept _).bind_atomic fun _ => (readOnly_canonicalStartSplit _).bind_atomic fun _ =>
    (Tx.readOnly_gets _).bind_atomic fun _ => (Tx.readOnly_require _ _).bind_atomic fun _ =>
      (Tx.readOnly_gets _).bind_atomic fun _ => (Tx.readOnly_require _ _).bind_atomic fun _ =>
        (Tx.readOnly_gets _).bind_atomic fun _ => atomic_joinStart _ _

/-- A `startSplit` call joins the active start, throws, or queues a new one. -/
theorem startSplit_after (admission : Admit) (args : StartSplitArgs) (recovering : Bool) :
    (startSplit admission args recovering).after w = w ∨
      ∃ identity, w.starts identity.migId = none ∧ Canonical identity.tablesJson ∧
        (startSplit admission args recovering).after w =
          w.setStart identity.migId (some ⟨identity, .queued⟩) := by
  rcases (startSplit admission args recovering).returns_or_throws w with ⟨_, h⟩ | ⟨e, h⟩
  · simp only [startSplit, Tx.bind_returns, Tx.gets_returns, Tx.require_returns] at h
    obtain ⟨tables, _, ha, tablesJson, _, hc, _, _, ⟨rfl, rfl⟩, _, _, ⟨-, rfl⟩, _, _, ⟨rfl, rfl⟩,
      _, _, ⟨-, rfl⟩, _, _, ⟨rfl, rfl⟩, hj⟩ := h
    obtain rfl := (Tx.readOnly_ofExcept _).returns ha
    obtain ⟨hcan, rfl⟩ := canonicalStartSplit_canonical hc
    cases hs : w.starts args.migId with
    | some op =>
      rw [hs] at hj
      exact .inl (Tx.require_returns.mp hj).2.symm
    | none =>
      rw [hs] at hj
      exact .inr ⟨_, hs, hcan, Tx.modify_returns.mp hj⟩
  · exact .inl (atomic_startSplit _ _ _ h)

theorem abort_after (m : String) (recovering : Bool) :
    ∃ aborts, (abort m recovering).after w = { w with aborts } := by
  rcases (abort m recovering).returns_or_throws w with ⟨_, h⟩ | ⟨e, h⟩
  · generalize (abort m recovering).after w = w' at h ⊢
    simp only [abort, Tx.bind_returns, Tx.gets_returns, Tx.require_returns] at h
    obtain ⟨_, _, ⟨-, rfl⟩, _, _, ⟨-, rfl⟩, _, _, ⟨rfl, rfl⟩, hj⟩ := h
    cases hs : w.aborts m with
    | some p => rw [hs] at hj; exact ⟨w.aborts, (Tx.pure_returns.mp hj).2.symm⟩
    | none => rw [hs] at hj; exact ⟨_, Tx.modify_returns.mp hj⟩
  · refine ⟨w.aborts, ?_⟩
    have hatomic : (abort m recovering).Atomic :=
      (Tx.readOnly_require _ _).bind_atomic fun _ => (Tx.readOnly_require _ _).bind_atomic fun _ =>
        (Tx.readOnly_gets _).bind_atomic fun active => by
          intro s e s' h
          cases active <;> simp [joinAbort] at h
    exact hatomic h

/-- One action keeps the invariant, and acts on the database by one effect. -/
theorem World.step_inv (admission : Admit) (hw : WorldInv w) (a : Action) :
    WorldInv (w.step admission a) ∧ ∃ touched, DbEffect touched w.db (w.step admission a).db := by
  have hrefl : ∃ touched, DbEffect touched w.db w.db := ⟨none, .refl hw.db.phase⟩
  cases a with
  | startSplit args recovering =>
    show WorldInv ((Resharder.startSplit admission args recovering).after w) ∧
      ∃ t, DbEffect t w.db ((Resharder.startSplit admission args recovering).after w).db
    rcases startSplit_after (w := w) admission args recovering with h | ⟨identity, -, hc, h⟩ <;> rw [h]
    · exact ⟨hw, hrefl⟩
    · exact ⟨hw.setStart (.refl hw.db.phase) (.inl rfl) rfl hc (by simp), hrefl⟩
  | startDriver m nowMs =>
    show WorldInv (w.startDriver m nowMs) ∧ ∃ t, DbEffect t w.db (w.startDriver m nowMs).db
    unfold World.startDriver
    split
    · rename_i identity hs
      have hid := hw.migId m _ hs
      have hc := hw.canonical m _ hs
      split
      · rename_i o db' h
        have he : DbEffect (some m) w.db db' := hid ▸ startBegin_effect hw.db h
        exact ⟨hw.setStart he (.inr rfl) hid hc (by simp), _, he⟩
      · rename_i e db' h
        obtain rfl := atomic_startBegin identity nowMs h
        exact ⟨hw.setStart (.refl hw.db.phase) (.inl rfl) hid hc (by simp), hrefl⟩
    · exact ⟨hw, hrefl⟩
  | catalogReply m reply nowMs =>
    show WorldInv (w.catalogReply m reply nowMs) ∧
      ∃ t, DbEffect t w.db (w.catalogReply m reply nowMs).db
    unfold World.catalogReply
    split
    · rename_i identity existing hs
      have hid := hw.migId m _ hs
      have hc := hw.canonical m _ hs
      split
      · exact ⟨hw.setStart (.refl hw.db.phase) (.inl rfl) hid hc (by simp), hrefl⟩
      · rename_i topology
        obtain ⟨touched, ht, he⟩ := startReply_effect existing topology nowMs hw.db hc
        rw [hid] at ht
        split <;> rename_i db' h <;>
          rw [show (startReply identity existing topology nowMs).after w.db = db' from
            congrArg Prod.snd h] at he
        · have hdone := (startReply_returns h).completed (hw.db.canonical _)
          exact ⟨hw.setStart he ht hid hc fun _ => ⟨hdone.1, hdone.2.1⟩, _, he⟩
        · exact ⟨hw.setStart he ht hid hc (by simp), _, he⟩
        · exact ⟨hw.setStart he ht hid hc (by simp), _, he⟩
    · exact ⟨hw, hrefl⟩
  | catalogAborted m =>
    show WorldInv (w.catalogAborted m) ∧ ∃ t, DbEffect t w.db (w.catalogAborted m).db
    unfold World.catalogAborted
    split
    · rename_i identity hs
      exact ⟨hw.setStart (.refl hw.db.phase) (.inl rfl) (hw.migId m _ hs) (hw.canonical m _ hs)
        (by simp), hrefl⟩
    · exact ⟨hw, hrefl⟩
  | settleStart m =>
    show WorldInv (w.settleStart m) ∧ ∃ t, DbEffect t w.db (w.settleStart m).db
    unfold World.settleStart
    split
    · exact ⟨hw.clearStart m, hrefl⟩
    · exact ⟨hw, hrefl⟩
  | abort m recovering =>
    show WorldInv ((Resharder.abort m recovering).after w) ∧
      ∃ t, DbEffect t w.db ((Resharder.abort m recovering).after w).db
    obtain ⟨aborts, h⟩ := abort_after (w := w) m recovering
    rw [h]; exact ⟨⟨hw.db, hw.migId, hw.canonical, hw.completed⟩, hrefl⟩
  | abortDriver m nowMs =>
    show WorldInv (w.abortDriver m nowMs) ∧ ∃ t, DbEffect t w.db (w.abortDriver m nowMs).db
    have hdone : ∀ m' op, w.starts m' = some op → op.position = .settled true →
        w.db.migrations.find? m = none → some m ≠ some m' := by
      rintro m' op hop hp hnone he
      obtain ⟨-, row, hrow, -⟩ := hw.completed m' op hop hp
      rw [hw.migId m' op hop, ← Option.some.inj he, hnone] at hrow; cases hrow
    have key : ∀ aborts, WorldInv ⟨(abortBegin m nowMs).after w.db, w.starts, aborts⟩ ∧
        ∃ t, DbEffect t w.db ((abortBegin m nowMs).after w.db) := by
      intro aborts
      rcases abortBegin_effect m nowMs hw.db with he | ⟨hnone, he⟩
      · exact ⟨hw.effect he (by simp) aborts, _, he⟩
      · exact ⟨hw.effect he (fun m' op hop hp => hdone m' op hop hp hnone) aborts, _, he⟩
    unfold World.abortDriver
    split
    · split <;> rename_i h <;>
        rw [show (abortBegin m nowMs).after w.db = _ from congrArg Prod.snd h] at key <;>
        exact key _
    · exact ⟨hw, hrefl⟩
  | abortResume m nowMs =>
    show WorldInv (w.abortResume m nowMs) ∧ ∃ t, DbEffect t w.db (w.abortResume m nowMs).db
    unfold World.abortResume
    split
    · have he := abortResume_effect m nowMs hw.db
      exact ⟨hw.effect he (by simp) _, _, he⟩
    · exact ⟨hw, hrefl⟩
  | settleAbort m => exact ⟨⟨hw.db, hw.migId, hw.canonical, hw.completed⟩, hrefl⟩
  | phase c =>
    by_cases hc : c.movesOnly
    · rw [show w.step admission (.phase c) = { w with db := c.exec.after w.db } from if_pos hc]
      have he := movesOnly_effect hc hw.db
      exact ⟨hw.effect he (by simp) w.aborts, _, he⟩
    · rw [show w.step admission (.phase c) = w from if_neg hc]
      exact ⟨hw, hrefl⟩
  | setClock clock =>
    have he : DbEffect none w.db { w.db with clock } := .clock clock
    exact ⟨hw.effect he (by simp) w.aborts, _, he⟩
  | crash =>
    refine ⟨⟨hw.db, ?_, ?_, ?_⟩, hrefl⟩ <;> intro m op h <;> cases h

theorem init_worldInv (clock : RecoveryClock) : WorldInv (World.init clock) :=
  ⟨⟨empty_phaseInv clock, fun _ _ h => (by cases h), fun _ _ _ _ h => (by cases h)⟩,
    fun _ _ h => (by cases h), fun _ _ h => (by cases h), fun _ _ h => (by cases h)⟩

/-- A property of the database that every effect keeps holds after every run. -/
theorem World.run_keeps (admission : Admit) {P : ResharderDb → Prop}
    (hP : ∀ {touched db db'}, StartInv db → DbEffect touched db db' → P db → P db')
    (actions : List Action) (hw : WorldInv w) (hp : P w.db) :
    WorldInv (w.run admission actions) ∧ P (w.run admission actions).db := by
  induction actions generalizing w with
  | nil => exact ⟨hw, hp⟩
  | cons a actions ih =>
    obtain ⟨hw', touched, he⟩ := World.step_inv admission hw a
    exact ih hw' (hP hw.db he hp)

theorem World.run_inv (admission : Admit) (actions : List Action) (hw : WorldInv w) :
    WorldInv (w.run admission actions) :=
  (World.run_keeps admission (P := fun _ => True) (fun _ _ h => h) actions hw trivial).1

/-! ## The three promises -/

/-- Recording an abort leaves a tombstone. -/
theorem World.RecordsAbort.tombstoned (admission : Admit) {a : Action} {m : String}
    (h : w.RecordsAbort a m) : Tombstoned (w.step admission a).db m := by
  obtain ⟨nowMs, intent, db', rfl, hq, hr⟩ := h
  have hstep : (w.step admission (.abortDriver m nowMs)).db = db' := by
    show (w.abortDriver m nowMs).db = db'
    have hr' : abortBegin m nowMs w.db = (.ok (.pendingStart intent), db') := hr
    simp only [World.abortDriver, hq, hr', setAbort_db]
  rw [hstep]
  obtain ⟨hnone, i, h⟩ := abortBegin_pendingStart hr
  obtain ⟨⟨t, rfl⟩, -, row, hrow, hst, -⟩ := StartIntent.requestAbort_returns h
  exact ⟨hnone, row, hrow, hst⟩

/-- `begin` finds no tombstone. -/
theorem startBegin_not_tombstoned {identity : ResharderStartIdentity} {nowMs : Int}
    {o : Option MigrationState} (ht : Tombstoned db identity.migId) :
    ¬ (startBegin identity nowMs).Returns db o db' := by
  intro h
  obtain ⟨-, intent, hint, hstate⟩ := ht
  obtain ⟨-, -, i, hb⟩ := startBegin_returns h
  obtain ⟨-, -, hbefore, -⟩ := StartIntent.begin_returns hb
  rw [(hbefore intent hint).1] at hstate; cases hstate

/-- Catalog's answer completes no start over a tombstone. -/
theorem startReply_not_tombstoned {identity : ResharderStartIdentity}
    {existing : Option MigrationState} {topology : TopologyReply} {nowMs : Int}
    (hi : StartInv db) (ht : Tombstoned db identity.migId) :
    ¬ (startReply identity existing topology nowMs).Returns db false db' := by
  intro h
  obtain ⟨-, intent, hint, hstate⟩ := ht
  obtain ⟨-, -, ⟨intent', hint', hst', -⟩, -⟩ := (startReply_returns h).completed (hi.canonical _)
  rw [hint] at hint'; cases hint'
  rw [hst'] at hstate; cases hstate

/-- Over a tombstone every start on its way fails. -/
theorem WorldInv.onlyFails (hw : WorldInv w) {m : String} (ht : Tombstoned w.db m) :
    w.OnlyFails m where
  queued identity nowMs hs := by
    have hid := hw.migId m _ hs
    unfold World.startDriver
    rw [hs]
    split
    · rename_i heq; cases heq
      split
      · rename_i h
        exact absurd h (startBegin_not_tombstoned (hid ▸ ht))
      · rw [setStart_starts, if_pos rfl]
    · rename_i hne; exact absurd rfl (hne _)
  awaiting identity existing reply nowMs hs := by
    have hid := hw.migId m _ hs
    unfold World.catalogReply
    rw [hs]
    split
    · rename_i heq; cases heq
      split
      · exact ⟨_, by rw [setStart_starts, if_pos rfl], .inl rfl⟩
      · split
        · rename_i h
          exact absurd h (startReply_not_tombstoned hw.db (hid ▸ ht))
        · exact ⟨_, by rw [setStart_starts, if_pos rfl], .inr rfl⟩
        · exact ⟨_, by rw [setStart_starts, if_pos rfl], .inl rfl⟩
    · rename_i hne; exact absurd rfl (hne _ _)
  canceling identity hs := by
    unfold World.catalogAborted
    rw [hs, setStart_starts, if_pos rfl]
  settled identity hs := by
    obtain ⟨-, row, hrow, -⟩ := hw.completed m _ hs rfl
    rw [hw.migId m _ hs, ht.1] at hrow; cases hrow

/-- Success is handed out over a complete start. -/
theorem WorldInv.started (admission : Admit) (hw : WorldInv w) {a : Action}
    {identity : ResharderStartIdentity} (h : w.Succeeds a identity) :
    Started (w.step admission a).db identity := by
  obtain ⟨rfl, hs⟩ := h
  have hdb : (w.step admission (.settleStart identity.migId)).db = w.db := by
    show (w.settleStart identity.migId).db = w.db
    unfold World.settleStart
    rw [hs]; rfl
  rw [hdb]
  obtain ⟨hnone, row, hrow, hsplit⟩ := hw.completed _ _ hs rfl
  obtain ⟨hmem, hkey⟩ := Table.find?_eq_some.mp hrow
  refine ⟨hnone, ⟨row, hmem, hkey, hsplit, fun row' hmem' hkey' => ?_⟩,
    hw.db.phase.cursors _ (by rw [hrow]; rfl)⟩
  exact w.db.migrations.eq_of_key hmem' hmem (hkey'.trans hkey.symm)

end

/-- Over every interleaving of starts, aborts, answers of Catalog and crashes: an abort
recorded without a migration keeps it from ever existing and fails every start; an id keeps
one identity; a start that succeeds is complete. -/
theorem start_abort_safe (admission : Admit) (clock : RecoveryClock) (actions : List Action) :
    ((World.init clock).run admission actions).StartAbortSafe admission where
  aborted a m h later := by
    obtain ⟨hw', ht⟩ := World.run_keeps admission (P := (Tombstoned · m))
      (fun hi he hp => he.tombstone hi hp) later
      (World.step_inv admission (World.run_inv admission actions (init_worldInv clock)) a).1
      (h.tombstoned admission)
    exact ⟨ht.1, hw'.onlyFails ht⟩
  oneIdentity m i hb later := by
    obtain ⟨hw', hb'⟩ := World.run_keeps admission (P := (Bound · m i))
      (fun hi he hp => he.bound hi hp) later (World.run_inv admission actions (init_worldInv clock)) hb
    exact ⟨hb', fun j hj => hj.unique hw'.db hb'⟩
  started _ _ h := (World.run_inv admission actions (init_worldInv clock)).started admission h

end Chardb.Resharder
