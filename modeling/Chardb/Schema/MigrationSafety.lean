import Chardb.Schema.MigrationRun

/-!
# Schema migrations of one shard

What the runs of the store come to: which packaged statements a shard has run, how its version,
digest and epoch move, what a replay does, and which migrations reach their target.
-/

namespace Chardb.Schema

open Chardb.Lib

section
variable {δ ν : Type} [JsNumber ν] {sha256Hex : String → String} {hooks : SchemaHooks δ}
  {journal : ChardbMigrationJournal sha256Hex ν} {db db' : CdbDb δ} {adopted : Prop}

/-- The active version, with the recorded steps of the migration in flight beyond it. -/
def CdbDb.reached (db : CdbDb δ) : Nat :=
  match db.schema with
  | none => 0
  | some row => row.activeVersion.toNat +
    match row.pending with
    | none => 0
    | some p => (db.inFlight p.migrationId row.activeVersion).length

theorem reached_idle {row : CdbSchemaState} (hrow : db.schema = some row) (h : row.pending = none) :
    db.reached = row.activeVersion.toNat := by
  unfold CdbDb.reached
  simp only [hrow, h, Nat.add_zero]

theorem reached_migrating {row : CdbSchemaState} {p : CdbSchemaPending} (hrow : db.schema = some row)
    (h : row.pending = some p) : db.reached =
      row.activeVersion.toNat + (db.inFlight p.migrationId row.activeVersion).length := by
  unfold CdbDb.reached
  simp only [hrow, h]

theorem Inv.executed (hi : Inv journal adopted db) :
    db.executed = packaged (journal.migrations.take db.reached) ∨
      adopted ∧ db.executed = [] ∧ db.reached = journal.migrations.length := by
  cases hi with
  | empty hnone _ hexecuted =>
    refine .inl ?_
    have hzero : db.reached = 0 := by
      unfold CdbDb.reached
      rw [hnone]
    rw [hexecuted, hzero, List.take_zero]
    rfl
  | idle row b hrow hpending hb hidle =>
    have hversion := hb.version
    have hreached : db.reached = b := by
      rw [reached_idle hrow hpending]
      omega
    rw [hreached]
    exact hidle.executed.imp_right fun ⟨ha, hnothing, hall, _⟩ => ⟨ha, hnothing, hall⟩
  | migrating row b p hrow hpending hb hm =>
    have hversion := hb.version
    refine .inl ?_
    rw [reached_migrating hrow hpending, hversion, Int.toNat_natCast]
    exact hm.executed

theorem Inv.digest (hi : Inv journal adopted db) {row : CdbSchemaState} (hrow : db.schema = some row) :
    migrationDigestAt journal row.activeVersion = .ok row.activeDigest := by
  obtain ⟨b, hb⟩ := hi.installed hrow
  have hlength := journal.version_eq
  have hle := hb.version_le
  rw [hb.version, migrationDigestAt_eq (by omega) (by omega), Int.toNat_natCast, hb.digest]

/-- How the epoch moves with a call that installs a version. -/
def EpochStep (row row' : CdbSchemaState) : SchemaCall → Prop
  | .baseline _ => row'.activeEpoch = row.activeEpoch + 1
  | .activate _ => row'.activeEpoch = row.activeEpoch + 1
  | .provisionFresh args => row.activeVersion = 0 ∧ row.activeEpoch = 1 ∧
      row'.activeEpoch = args.targetEpoch
  | _ => False

theorem SchemaEffect.epoch {call : SchemaCall} {row row' : CdbSchemaState}
    (h : SchemaEffect journal db db' call) (hi : Inv journal adopted db) (hrow : db.schema = some row)
    (hrow' : db'.schema = some row') :
    (row'.activeVersion = row.activeVersion ∧ row'.activeEpoch = row.activeEpoch) ∨
      EpochStep row row' call := by
  cases h with
  | none h =>
    obtain rfl := Option.some.inj (hrow'.symm.trans (h ▸ hrow))
    exact .inl ⟨rfl, rfl⟩
  | initialized hnone => rw [hnone] at hrow; cases hrow
  | baselined hold _ _ _ _ hepoch _ hschema =>
    obtain rfl := Option.some.inj (hrow.symm.trans hold)
    obtain rfl := Option.some.inj (hrow'.symm.trans hschema)
    exact .inr hepoch
  | provisioned _ _ hold _ hzero hone _ _ _ _ _ _ hschema =>
    obtain rfl := Option.some.inj (hrow.symm.trans hold)
    obtain rfl := Option.some.inj (hrow'.symm.trans hschema)
    exact .inr ⟨hzero, hone, rfl⟩
  | prepared hold _ _ _ _ _ h =>
    obtain rfl := Option.some.inj (hrow.symm.trans hold)
    subst h
    obtain rfl := Option.some.inj hrow'
    exact .inl ⟨rfl, rfl⟩
  | applied _ _ _ _ _ _ _ _ _ hschema =>
    obtain rfl := Option.some.inj (hrow'.symm.trans (hschema.trans hrow))
    exact .inl ⟨rfl, rfl⟩
  | activated hold hpending _ _ _ _ hschema =>
    obtain rfl := Option.some.inj (hrow.symm.trans hold)
    obtain rfl := Option.some.inj (hrow'.symm.trans hschema)
    obtain ⟨b, -, hm⟩ := hi.of_migrating hrow hpending
    exact .inr hm.epoch

/-- An activation that changes the store found every step up to the packaged version. -/
theorem SchemaEffect.activates {migrationId : String} {row : CdbSchemaState}
    (h : SchemaEffect journal db db' (.activate migrationId)) (hi : Inv journal adopted db)
    (hrow : db.schema = some row) (hne : db' ≠ db) :
    (db.inFlight migrationId row.activeVersion).map SchemaStep.entry =
        (journal.migrations.drop row.activeVersion.toNat).map ChardbMigration.entry ∧
      db.executed = packaged journal.migrations ∧
      db'.schema.map CdbSchemaState.activeVersion = some journal.version := by
  cases h with
  | none h => exact absurd h hne
  | activated hold hpending hid hexpected hlength hbegins hschema =>
    obtain rfl := Option.some.inj (hrow.symm.trans hold)
    obtain ⟨b, hb, hm⟩ := hi.of_migrating hrow hpending
    obtain rfl := hm.expected hb hexpected
    subst hid
    obtain ⟨hcount, hall⟩ := hm.finished hlength hbegins
    refine ⟨?_, hall, ?_⟩
    · have hsteps := hm.steps
      rw [hcount, List.take_of_length_le (by rw [List.length_drop])] at hsteps
      rw [hb.version, Int.toNat_natCast]
      exact hsteps
    · rw [hschema, Option.map_some, hm.target]

/-- The id of a migration in flight is unused unless its shard was provisioned under it. -/
theorem Migrating.unused {row : CdbSchemaState} {b : Nat} {p : CdbSchemaPending}
    (hb : Installed journal row b) (hm : Migrating journal db row b p)
    (h : row.lastMigrationId ≠ some p.migrationId ∨ row.activeVersion = 0) :
    db.Unused p.migrationId b := by
  intro s hs hid
  by_contra hle
  have howner := hm.owner s hs (by omega)
  rcases h with h | h
  · exact h (hid ▸ howner)
  · have hpos := (Table.check_of_mem hs).1
    have hversion := hb.version
    omega

theorem Inv.finish {row : CdbSchemaState} {p : CdbSchemaPending} {nowMs : Nat → Int}
    (hi : Inv journal True db) (hh : hooks.Returning) (hrow : db.schema = some row)
    (hpending : row.pending = some p)
    (h : row.lastMigrationId ≠ some p.migrationId ∨ row.activeVersion = 0) (hnow : ∀ v, 0 ≤ nowMs v) :
    (db.run hooks journal (finishCalls p.migrationId nowMs db.reached
      (journal.migrations.length - db.reached))).schema =
      some ⟨p.targetVersion, p.targetEpoch, p.targetDigest, some p.migrationId, none⟩ := by
  obtain ⟨b, hb, hm⟩ := hi.of_migrating hrow hpending
  have hreached : db.reached = b + (db.inFlight p.migrationId b).length := by
    rw [reached_migrating hrow hpending, hb.version, Int.toNat_natCast]
  have hle : b + (db.inFlight p.migrationId b).length ≤ journal.migrations.length := by
    have hlength := congrArg List.length hm.steps
    rw [List.length_map, List.length_map, List.length_take, List.length_drop] at hlength
    have := hm.version_lt
    omega
  rw [hreached]
  exact hm.finish hh hi hrow hpending hb (hm.unused hb h) (by omega) hnow

end

/-- A shard has run the packaged statements up to its version and the steps in flight, in order and
once each, unless it took a baseline; its digest is that of its version; the epoch grows by one with
a baseline and with an activation, which finds every step; a replay changes nothing; and a migration
reaches its target, unless it has the id that the shard was provisioned under. -/
theorem schema_migration_steps {δ ν : Type} [JsNumber ν] {sha256Hex : String → String}
    (hooks : SchemaHooks δ) (journal : ChardbMigrationJournal sha256Hex ν) (domain : δ)
    (calls : List (SchemaCall × Int)) :
    let db := (CdbDb.initial domain).run hooks journal calls
    (db.executed = packaged (journal.migrations.take db.reached) ∨
      (∃ args nowMs, (.baseline args, nowMs) ∈ calls) ∧ db.executed = [] ∧
        db.reached = journal.migrations.length) ∧
    (∀ row, db.schema = some row →
      migrationDigestAt journal row.activeVersion = .ok row.activeDigest) ∧
    (∀ call row row', db.schema = some row → (db.step hooks journal call).schema = some row' →
      (row'.activeVersion = row.activeVersion ∧ row'.activeEpoch = row.activeEpoch) ∨
        EpochStep row row' call.1) ∧
    (∀ migrationId nowMs row, db.schema = some row →
      db.step hooks journal (.activate migrationId, nowMs) ≠ db →
      (db.inFlight migrationId row.activeVersion).map SchemaStep.entry =
          (journal.migrations.drop row.activeVersion.toNat).map ChardbMigration.entry ∧
        db.executed = packaged journal.migrations ∧
        (db.step hooks journal (.activate migrationId, nowMs)).schema.map
          CdbSchemaState.activeVersion = some journal.version) ∧
    (∀ call nowMs nowMs' later, db.step hooks journal (call, nowMs) ≠ db →
      ((db.step hooks journal (call, nowMs)).run hooks journal later).step hooks journal
          (call, nowMs') = (db.step hooks journal (call, nowMs)).run hooks journal later) ∧
    (∀ call, (db.step hooks journal call).step hooks journal call = db.step hooks journal call) ∧
    (hooks.Returning → ∀ row p (nowMs : Nat → Int), db.schema = some row → row.pending = some p →
      row.lastMigrationId ≠ some p.migrationId ∨ row.activeVersion = 0 → (∀ v, 0 ≤ nowMs v) →
      (db.run hooks journal (finishCalls p.migrationId nowMs db.reached
        (journal.migrations.length - db.reached))).schema =
        some ⟨p.targetVersion, p.targetEpoch, p.targetDigest, some p.migrationId, none⟩) := by
  intro db
  have hi : Inv journal True db := run_inv inv_initial fun _ _ _ => trivial
  have hadopted : Inv journal (∃ args nowMs, (.baseline args, nowMs) ∈ calls) db :=
    run_inv inv_initial fun args nowMs h => ⟨args, nowMs, h⟩
  refine ⟨hadopted.executed, fun row hrow => hi.digest hrow, fun call row row' hrow hrow' =>
    (step_effect hooks journal db call).epoch hi hrow hrow', fun id nowMs row hrow hne =>
    (step_effect hooks journal db (.activate id, nowMs)).activates hi hrow hne, fun call nowMs nowMs' later hne =>
    replay_unchanged hi hne, fun call => ?_, fun hh row p nowMs hrow hpending h hnow =>
    hi.finish hh hrow hpending h hnow⟩
  by_cases hne : db.step hooks journal call = db
  · rw [hne, hne]
  · have hlater := @replay_unchanged _ _ _ _ _ _ _ call.1 call.2 call.2 [] hi hne
    exact hlater

/-! ## Where the claim needs its exceptions -/

def sampleMigration (version : Int) (statement : String) : ChardbMigration Int :=
  ⟨version, "m", [statement], [], [], ""⟩

def sampleMigrations : List (ChardbMigration Int) := [sampleMigration 1 "a", sampleMigration 2 "b"]

theorem sampleMigrations_contiguous (i : Nat) (m : ChardbMigration Int)
    (h : sampleMigrations[i]? = some m) : m.version = i + 1 := by
  rcases i with _ | _ | i
  · obtain rfl := Option.some.inj h
    rfl
  · obtain rfl := Option.some.inj h
    rfl
  · cases h

theorem sampleMigrations_length : sampleMigrations.length ≤ MAX_MIGRATIONS := by decide

/-- A journal of two migrations, under a hash that tells nothing apart. -/
def sampleJournal : ChardbMigrationJournal (fun _ => "") Int where
  version := 2
  digest := ""
  migrations := sampleMigrations
  version_eq := rfl
  digest_eq := rfl
  contiguous := sampleMigrations_contiguous
  length_le := sampleMigrations_length

/-- Hooks and statements that do nothing. -/
def sampleHooks : SchemaHooks Unit :=
  ⟨fun _ => pure (), pure (), fun _ => pure (), fun _ => pure (), fun _ => pure (), fun _ => pure (),
    fun _ => pure ()⟩

/-- The statements of the versions that a shard reached have run on it. -/
def RunsPackaged : Prop :=
  ∀ calls, ((CdbDb.initial ()).run sampleHooks sampleJournal calls).executed =
    packaged (sampleJournal.migrations.take
      ((CdbDb.initial ()).run sampleHooks sampleJournal calls).reached)

/-- A migration in flight reaches its target by some calls of `apply` and `activate`. -/
def ReachesTarget : Prop :=
  ∀ calls row p, ((CdbDb.initial ()).run sampleHooks sampleJournal calls).schema = some row →
    row.pending = some p → ∃ more : List (SchemaCall × Int),
      (∀ c ∈ more, (∃ id v, c.1 = .apply id v) ∨ ∃ id, c.1 = .activate id) ∧
      (((CdbDb.initial ()).run sampleHooks sampleJournal calls).run sampleHooks sampleJournal
        more).schema.map CdbSchemaState.activeVersion = some p.targetVersion

/-- A step at or below the active version under the id of the migration in flight stops it. -/
theorem Migrating.stuck {δ ν : Type} [JsNumber ν] {sha256Hex : String → String}
    {journal : ChardbMigrationJournal sha256Hex ν} {db db' : CdbDb δ} {row : CdbSchemaState}
    {p : CdbSchemaPending} {call : SchemaCall} {s : SchemaStep} {b : Nat} (hrow : db.schema = some row)
    (hpending : row.pending = some p) (hb : Installed journal row b)
    (hm : Migrating journal db row b p) (hs : s ∈ db.steps) (hid : s.migrationId = p.migrationId)
    (hle : s.version ≤ b) (hcall : (∃ id v, call = .apply id v) ∨ ∃ id, call = .activate id)
    (h : SchemaEffect journal db db' call) : db' = db := by
  have hstuck : beginsWith (db.applied p.migrationId) (journal.migrations.drop b) ≠ true := by
    intro hbegins
    have hmem := List.mem_map_of_mem (f := SchemaStep.entry) (mem_applied.mpr ⟨hs, hid⟩)
    rw [beginsWith_entries hbegins] at hmem
    obtain ⟨m, hm, hentry⟩ := List.mem_map.mp hmem
    have hlt := version_drop (List.mem_of_mem_take hm)
    have hversion : m.version = s.version := congrArg Prod.fst hentry
    omega
  cases h with
  | none h => exact h
  | initialized => rcases hcall with ⟨_, _, h⟩ | ⟨_, h⟩ <;> cases h
  | baselined => rcases hcall with ⟨_, _, h⟩ | ⟨_, h⟩ <;> cases h
  | provisioned => rcases hcall with ⟨_, _, h⟩ | ⟨_, h⟩ <;> cases h
  | prepared => rcases hcall with ⟨_, _, h⟩ | ⟨_, h⟩ <;> cases h
  | applied hrow' hpending' hid' _ _ _ hexpected hbegins =>
    obtain rfl := Option.some.inj (hrow.symm.trans hrow')
    obtain rfl := Option.some.inj (hpending.symm.trans hpending')
    obtain rfl := hm.expected hb hexpected
    exact absurd (hid' ▸ hbegins) hstuck
  | activated hrow' hpending' hid' hexpected _ hbegins =>
    obtain rfl := Option.some.inj (hrow.symm.trans hrow')
    obtain rfl := Option.some.inj (hpending.symm.trans hpending')
    obtain rfl := hm.expected hb hexpected
    exact absurd (hid' ▸ hbegins) hstuck

/-- A shard provisioned and then migrated under one id. -/
def reusedCalls : List (SchemaCall × Int) :=
  [(.initializeSchema, 0), (.provisionFresh ⟨"x", 1, 2, ""⟩, 0), (.prepare ⟨"x", 1, "", 2, 3, ""⟩, 0)]

/-- A baseline runs no packaged statement, and a migration under the id that the shard was
provisioned with never reaches its target. -/
theorem baseline_runs_nothing_and_reused_id_stops : ¬ RunsPackaged ∧ ¬ ReachesTarget := by
  constructor
  · intro h
    have := h [(.initializeSchema, 0), (.baseline ⟨"x", 2, 2, ""⟩, 0)]
    exact absurd this (by decide +kernel)
  · intro h
    have hschema : ((CdbDb.initial ()).run sampleHooks sampleJournal reusedCalls).schema =
        some ⟨1, 2, "", some "x", some ⟨"x", 2, 3, ""⟩⟩ := by decide +kernel
    have hsteps : (⟨"x", 1, "", 0⟩ : SchemaStep) ∈
        ((CdbDb.initial ()).run sampleHooks sampleJournal reusedCalls).steps.rows := by
      decide +kernel
    have hi : Inv sampleJournal True ((CdbDb.initial ()).run sampleHooks sampleJournal reusedCalls) :=
      run_inv inv_initial fun _ _ _ => trivial
    obtain ⟨more, hmore, hversion⟩ := h reusedCalls _ _ hschema rfl
    generalize (CdbDb.initial ()).run sampleHooks sampleJournal reusedCalls = db at *
    obtain ⟨b, hb, hm⟩ := hi.of_migrating hschema rfl
    have hone : b = 1 := by
      have : (1 : Int) = b := hb.version
      omega
    have hsame : db.run sampleHooks sampleJournal more = db := by
      clear hversion
      induction more with
      | nil => rfl
      | cons c more ih =>
        have hc := hm.stuck hschema rfl hb hsteps rfl (by subst hone; decide)
          (hmore c List.mem_cons_self) (step_effect sampleHooks sampleJournal db c)
        rw [run_cons, hc]
        exact ih fun c hc => hmore c (List.mem_cons_of_mem _ hc)
    rw [hsame, hschema] at hversion
    exact absurd hversion (by decide)

end Chardb.Schema
