import Chardb.Schema.MigrationSteps

/-!
# Schema state over whole runs

A shard that started empty has run the packaged statements of the versions up to the active one and
of the steps in flight, each once and in order, unless it took the packaged schema as a baseline.
-/

namespace Chardb.Schema

open Chardb.Lib

/-! ## The steps in flight -/

def SchemaStep.entry (s : SchemaStep) : Int × String := (s.version, s.digest)

def ChardbMigration.entry {ν : Type} (m : ChardbMigration ν) : Int × String := (m.version, m.digest)

/-- The steps of a migration beyond the active version. -/
def CdbDb.inFlight {δ : Type} (db : CdbDb δ) (migrationId : String) (activeVersion : Int) :
    List SchemaStep :=
  db.steps.select fun s => s.migrationId = migrationId && activeVersion < s.version

section
variable {ν : Type}

theorem beginsWith_entries {steps : List SchemaStep} {expected : List (ChardbMigration ν)}
    (h : beginsWith steps expected = true) :
    steps.map SchemaStep.entry = (expected.take steps.length).map ChardbMigration.entry := by
  induction steps generalizing expected with
  | nil => rfl
  | cons s steps ih =>
    cases expected with
    | nil => cases h
    | cons m expected =>
      simp only [beginsWith, Bool.and_eq_true, decide_eq_true_eq] at h
      obtain ⟨⟨hversion, hdigest⟩, h⟩ := h
      show s.entry :: steps.map SchemaStep.entry = m.entry :: _
      rw [ih h]
      exact congrArg (· :: _) (Prod.ext hversion hdigest)

theorem beginsWith_of_entries {steps : List SchemaStep} {expected : List (ChardbMigration ν)}
    (h : steps.map SchemaStep.entry = (expected.take steps.length).map ChardbMigration.entry) :
    beginsWith steps expected = true := by
  induction steps generalizing expected with
  | nil => rfl
  | cons s steps ih =>
    cases expected with
    | nil => cases h
    | cons m expected =>
      obtain ⟨hhead, htail⟩ := List.cons.inj h
      simp only [beginsWith, Bool.and_eq_true, decide_eq_true_eq]
      exact ⟨⟨congrArg Prod.fst hhead, congrArg Prod.snd hhead⟩, ih htail⟩

end

section
variable {δ ν : Type} [JsNumber ν] {sha256Hex : String → String} {hooks : SchemaHooks δ}
  {journal : ChardbMigrationJournal sha256Hex ν} {db db' : CdbDb δ}

theorem mem_applied {migrationId : String} {s : SchemaStep} :
    s ∈ db.applied migrationId ↔ s ∈ db.steps ∧ s.migrationId = migrationId := by
  rw [CdbDb.applied, Table.mem_orderBy, decide_eq_true_eq]

theorem applied_perm {migrationId : String} :
    (db.applied migrationId).Perm (db.steps.select fun s => s.migrationId = migrationId) :=
  List.perm_insertionSort _ _

/-- The versions after the `b`-th are greater. -/
theorem version_drop {b : Nat} {m : ChardbMigration ν} (h : m ∈ journal.migrations.drop b) :
    (b : Int) < m.version := by
  obtain ⟨i, hi, hm⟩ := List.getElem_of_mem h
  rw [List.getElem_drop] at hm
  have := journal.contiguous (b + i) m (by rw [List.getElem?_eq_getElem (by simp at hi; omega), hm])
  omega

/-- Steps that are the first expected ones are all in flight. -/
theorem inFlight_of_begins {migrationId : String} {b : Nat}
    (h : beginsWith (db.applied migrationId) (journal.migrations.drop b) = true) :
    db.inFlight migrationId b = db.steps.select fun s => s.migrationId = migrationId := by
  unfold CdbDb.inFlight Table.select
  refine List.filter_congr fun s hs => ?_
  by_cases hid : s.migrationId = migrationId
  · have hmem : s.entry ∈ (db.applied migrationId).map SchemaStep.entry :=
      List.mem_map_of_mem (mem_applied.mpr ⟨hs, hid⟩)
    rw [beginsWith_entries h] at hmem
    obtain ⟨m, hm, hentry⟩ := List.mem_map.mp hmem
    have hlt := version_drop (List.mem_of_mem_take hm)
    rw [show m.version = s.version from congrArg Prod.fst hentry] at hlt
    simp [hid, hlt]
  · simp [hid]

/-! ## The invariant -/

/-- What holds of a stored row, with the version `b` active. -/
structure Installed (journal : ChardbMigrationJournal sha256Hex ν) (row : CdbSchemaState) (b : Nat) :
    Prop where
  version : row.activeVersion = b
  version_le : b ≤ journal.migrations.length
  digest : row.activeDigest = journal.prefixDigest b
  epoch : 1 ≤ row.activeEpoch

/-- What holds of the migration in flight. -/
structure Migrating (journal : ChardbMigrationJournal sha256Hex ν) (db : CdbDb δ)
    (row : CdbSchemaState) (b : Nat) (p : CdbSchemaPending) : Prop where
  version_lt : b < journal.migrations.length
  target : p.targetVersion = journal.version
  epoch : p.targetEpoch = row.activeEpoch + 1
  digest : p.targetDigest = journal.digest
  bounded : ∀ s ∈ db.steps, s.version ≤ journal.version
  owner : ∀ s ∈ db.steps, s.version ≤ b → row.lastMigrationId = some s.migrationId
  steps : (db.inFlight p.migrationId b).map SchemaStep.entry =
    ((journal.migrations.drop b).take (db.inFlight p.migrationId b).length).map ChardbMigration.entry
  executed : db.executed =
    packaged (journal.migrations.take (b + (db.inFlight p.migrationId b).length))

/-- What holds of a shard with no migration in flight; `adopted` says that it may have taken a
baseline. -/
structure Idle (journal : ChardbMigrationJournal sha256Hex ν) (adopted : Prop) (db : CdbDb δ)
    (row : CdbSchemaState) (b : Nat) : Prop where
  steps : ∀ s ∈ db.steps, s.version ≤ b
  owner : b < journal.migrations.length → ∀ s ∈ db.steps, row.lastMigrationId = some s.migrationId
  executed : db.executed = packaged (journal.migrations.take b) ∨
    adopted ∧ db.executed = [] ∧ b = journal.migrations.length ∧ 0 < b

/-- What holds of a store in every state that can be reached. -/
inductive Inv (journal : ChardbMigrationJournal sha256Hex ν) (adopted : Prop) (db : CdbDb δ) : Prop
  | empty : db.schema = none → db.steps.rows = [] → db.executed = [] → Inv journal adopted db
  | idle (row : CdbSchemaState) (b : Nat) : db.schema = some row → row.pending = none →
    Installed journal row b → Idle journal adopted db row b → Inv journal adopted db
  | migrating (row : CdbSchemaState) (b : Nat) (p : CdbSchemaPending) : db.schema = some row →
    row.pending = some p → Installed journal row b → Migrating journal db row b p →
    Inv journal adopted db

variable {adopted : Prop}

theorem inv_initial {domain : δ} : Inv journal adopted (CdbDb.initial domain) := .empty rfl rfl rfl

/-- The row and what holds of its active version. -/
theorem Inv.installed (hi : Inv journal adopted db) {row : CdbSchemaState} (h : db.schema = some row) :
    ∃ b, Installed journal row b := by
  cases hi with
  | empty hnone => rw [hnone] at h; cases h
  | idle row' b hrow _ hb => obtain rfl := Option.some.inj (hrow ▸ h); exact ⟨b, hb⟩
  | migrating row' b p hrow _ hb => obtain rfl := Option.some.inj (hrow ▸ h); exact ⟨b, hb⟩

theorem Inv.of_idle (hi : Inv journal adopted db) {row : CdbSchemaState} (h : db.schema = some row)
    (hpending : row.pending = none) : ∃ b, Installed journal row b ∧ Idle journal adopted db row b := by
  cases hi with
  | empty hnone => rw [hnone] at h; cases h
  | idle row' b hrow _ hb hidle => obtain rfl := Option.some.inj (hrow ▸ h); exact ⟨b, hb, hidle⟩
  | migrating row' b p hrow hp =>
    obtain rfl := Option.some.inj (hrow ▸ h)
    rw [hpending] at hp
    cases hp

theorem Inv.of_migrating (hi : Inv journal adopted db) {row : CdbSchemaState} {p : CdbSchemaPending}
    (h : db.schema = some row) (hpending : row.pending = some p) :
    ∃ b, Installed journal row b ∧ Migrating journal db row b p := by
  cases hi with
  | empty hnone => rw [hnone] at h; cases h
  | idle row' b hrow hnone =>
    obtain rfl := Option.some.inj (hrow ▸ h)
    rw [hpending] at hnone
    cases hnone
  | migrating row' b p' hrow hp hb hm =>
    obtain rfl := Option.some.inj (hrow ▸ h)
    obtain rfl := Option.some.inj (hp.symm.trans hpending)
    exact ⟨b, hb, hm⟩

/-- A shard at version 0 has run nothing and recorded nothing. -/
theorem Idle.zero {row : CdbSchemaState} (h : Idle journal adopted db row 0) : db.executed = [] ∧ db.steps.rows = [] := by
  refine ⟨?_, List.eq_nil_iff_forall_not_mem.mpr fun s hs => ?_⟩
  · rcases h.executed with h | h
    · exact h
    · exact h.2.1
  · have hle := h.steps s hs
    have hpos := (Table.check_of_mem hs).1
    omega

/-- The migrations that the expected steps are taken from. -/
theorem Migrating.expected {row : CdbSchemaState} {b : Nat} {p : CdbSchemaPending}
    {expected : List (ChardbMigration ν)} (hb : Installed journal row b)
    (hm : Migrating journal db row b p)
    (h : expectedSteps journal row.activeVersion p.targetVersion = .ok expected) :
    expected = journal.migrations.drop b := by
  rw [hb.version, hm.target, expectedSteps_eq hb.version_le] at h
  exact (Except.ok.inj h).symm

theorem inFlight_length {migrationId : String} {b : Nat}
    (h : beginsWith (db.applied migrationId) (journal.migrations.drop b) = true) :
    (db.inFlight migrationId b).length = (db.applied migrationId).length := by
  rw [inFlight_of_begins h, applied_perm.length_eq]

theorem packaged_succ {n : Nat} {m : ChardbMigration ν} (h : journal.migrations[n]? = some m) :
    packaged (journal.migrations.take (n + 1)) =
      packaged (journal.migrations.take n) ++ m.statements := by
  unfold packaged
  rw [List.take_add_one, List.flatMap_append, h]
  simp

theorem inFlight_insert (db : CdbDb δ) {steps : StepTable} {s : SchemaStep} {b : Int}
    (h : db.steps.insert? s = some steps) (hlt : b < s.version) :
    ({ db with steps } : CdbDb δ).inFlight s.migrationId b = db.inFlight s.migrationId b ++ [s] := by
  unfold CdbDb.inFlight Table.select
  show steps.rows.filter _ = _
  rw [Table.rows_insert h, List.filter_append]
  simp [hlt]

/-- The next step of a migration runs the statements of the next version. -/
theorem Migrating.applied {row : CdbSchemaState} {b : Nat} {p : CdbSchemaPending}
    {m : ChardbMigration ν} {nowMs : Int} (hm : Migrating journal db row b p)
    (hmem : journal.migrations[(m.version - 1).toNat]? = some m)
    (hbegins : beginsWith (db.applied p.migrationId) (journal.migrations.drop b) = true)
    (hnext : (journal.migrations.drop b)[(db.applied p.migrationId).length]?.map
      ChardbMigration.version = some m.version)
    (hsteps : db.steps.insert? ⟨p.migrationId, m.version, m.digest, nowMs⟩ = some db'.steps)
    (hexecuted : db'.executed = db.executed ++ m.statements) : Migrating journal db' row b p := by
  have hlength := inFlight_length hbegins
  obtain ⟨m', hm', hversion⟩ := Option.map_eq_some_iff.mp hnext
  rw [← hlength, List.getElem?_drop] at hm'
  have hat := journal.contiguous _ _ hm'
  rw [hversion] at hat
  have hindex : (m.version - 1).toNat = b + (db.inFlight p.migrationId b).length := by omega
  rw [hindex] at hmem
  have hinsert : db'.inFlight p.migrationId b =
      db.inFlight p.migrationId b ++ [⟨p.migrationId, m.version, m.digest, nowMs⟩] := by
    have := inFlight_insert db (b := b) hsteps (by show (b : Int) < m.version; omega)
    exact this
  refine ⟨hm.version_lt, hm.target, hm.epoch, hm.digest, fun s hs => ?_, fun s hs hle => ?_, ?_, ?_⟩
  · rcases (Table.mem_insert hsteps).mp hs with hs | rfl
    · exact hm.bounded s hs
    · exact version_le (List.mem_of_getElem? hmem)
  · rcases (Table.mem_insert hsteps).mp hs with hs | rfl
    · exact hm.owner s hs hle
    · have hle : m.version ≤ b := hle
      omega
  · rw [hinsert, List.map_append, hm.steps, List.length_append, List.length_singleton,
      List.take_add_one, List.map_append, List.getElem?_drop, hmem]
    rfl
  · rw [hexecuted, hm.executed, hinsert, List.length_append, List.length_singleton, ← Nat.add_assoc,
      packaged_succ hmem]

/-- A migration whose expected steps all ran has run every packaged statement. -/
theorem Migrating.finished {row : CdbSchemaState} {b : Nat} {p : CdbSchemaPending}
    (hm : Migrating journal db row b p)
    (hlength : (db.applied p.migrationId).length = (journal.migrations.drop b).length)
    (hbegins : beginsWith (db.applied p.migrationId) (journal.migrations.drop b) = true) :
    (db.inFlight p.migrationId b).length = journal.migrations.length - b ∧
      db.executed = packaged journal.migrations := by
  have hcount : (db.inFlight p.migrationId b).length = journal.migrations.length - b := by
    rw [inFlight_length hbegins, hlength, List.length_drop]
  refine ⟨hcount, ?_⟩
  have hlt := hm.version_lt
  rw [hm.executed, hcount, Nat.add_sub_cancel' hlt.le, List.take_length]

/-- Every call keeps the invariant. -/
theorem SchemaEffect.keeps {call : SchemaCall} (h : SchemaEffect journal db db' call)
    (hi : Inv journal adopted db) (hadopted : ∀ args, call = .baseline args → adopted) :
    Inv journal adopted db' := by
  cases h with
  | none h => rw [h]; exact hi
  | initialized hnone h =>
    cases hi with
    | empty _ hrows hexecuted =>
      subst h
      refine .idle _ 0 rfl rfl ⟨rfl, Nat.zero_le _, rfl, le_rfl⟩ ⟨fun s hs => ?_, fun _ s hs => ?_, .inl ?_⟩
      · rw [← Table.mem_rows, hrows] at hs
        cases hs
      · rw [← Table.mem_rows, hrows] at hs
        cases hs
      · rw [List.take_zero]
        exact hexecuted
    | idle row b hrow => rw [hnone] at hrow; cases hrow
    | migrating row b p hrow => rw [hnone] at hrow; cases hrow
  | baselined hrow hpending hzero hversion hone hepoch hdigest hschema hsteps hexecuted =>
    obtain ⟨b, hb, hidle⟩ := hi.of_idle hrow hpending
    obtain rfl : b = 0 := by
      have := hb.version
      omega
    obtain ⟨hnothing, hrows⟩ := hidle.zero
    have hlength := journal.version_eq
    have hposition := hb.epoch
    refine .idle _ journal.migrations.length hschema rfl ⟨?_, le_rfl, ?_, ?_⟩
      ⟨fun s hs => ?_, fun h => absurd h (lt_irrefl _),
        .inr ⟨hadopted _ rfl, hexecuted.trans hnothing, rfl, by omega⟩⟩
    · exact hversion.trans hlength
    · exact hdigest.trans prefixDigest_length.symm
    · show 1 ≤ CdbSchemaTarget.targetEpoch _
      omega
    · rw [hsteps, ← Table.mem_rows, hrows] at hs
      cases hs
  | provisioned k nowMs hrow hpending hzero _ _ hempty hversion hle hepoch hdigest hschema hrows
      hexecuted =>
    obtain ⟨b, hb, hidle⟩ := hi.of_idle hrow hpending
    obtain rfl : b = 0 := by
      have := hb.version
      omega
    refine .idle _ k hschema rfl ⟨hversion, hle, hdigest, hepoch⟩
      ⟨fun s hs => ?_, fun _ s hs => ?_, .inl ?_⟩
    · rw [← Table.mem_rows, hrows] at hs
      obtain ⟨m, hm, rfl⟩ := List.mem_map.mp hs
      obtain ⟨i, hi, hget⟩ := List.getElem_of_mem hm
      rw [List.getElem_take] at hget
      rw [List.length_take] at hi
      have := journal.contiguous i m (by rw [List.getElem?_eq_getElem (by omega), hget])
      show m.version ≤ k
      omega
    · rw [← Table.mem_rows, hrows] at hs
      obtain ⟨m, -, rfl⟩ := List.mem_map.mp hs
      rfl
    · rw [hexecuted, hidle.zero.1, List.nil_append]
  | prepared hrow hpending hlt hversion hepoch hdigest h =>
    rename_i args row
    obtain ⟨b, hb, hidle⟩ := hi.of_idle hrow hpending
    subst h
    have hlength := journal.version_eq
    have hactive := hb.version
    have hnone : db.inFlight args.migrationId b = [] := by
      refine List.filter_eq_nil_iff.mpr fun s hs => ?_
      have := hidle.steps s hs
      simp only [Bool.and_eq_true, decide_eq_true_eq, not_and]
      omega
    have hflight : ({ db with schema := some { row with pending := some args.pending } } :
        CdbDb δ).inFlight args.pending.migrationId b = [] := hnone
    refine .migrating _ b args.pending rfl rfl ⟨hactive, hb.version_le, hb.digest, hb.epoch⟩
      ⟨by omega, hversion, hepoch, hdigest, fun s hs => ?_, fun s hs _ => hidle.owner (by omega) s hs,
        ?_, ?_⟩
    · have := hidle.steps s hs
      have := hb.version_le
      omega
    · rw [hflight]
      rfl
    · rw [hflight]
      rcases hidle.executed with h | ⟨-, -, hall, -⟩
      · exact h
      · omega
  | applied hrow hpending hid hversion hmem hfind hexpected hbegins hnext hschema hsteps hexecuted =>
    obtain ⟨b, hb, hm⟩ := hi.of_migrating hrow hpending
    obtain rfl := hm.expected hb hexpected
    subst hid hversion
    exact .migrating _ b _ (hschema.trans hrow) hpending ⟨hb.version, hb.version_le, hb.digest, hb.epoch⟩
      (hm.applied hmem hbegins hnext hsteps hexecuted)
  | activated hrow hpending hid hexpected hlength hbegins hschema hsteps hexecuted =>
    obtain ⟨b, hb, hm⟩ := hi.of_migrating hrow hpending
    obtain rfl := hm.expected hb hexpected
    subst hid
    obtain ⟨-, hall⟩ := hm.finished hlength hbegins
    have hepoch := hm.epoch
    have hpositive := hb.epoch
    refine .idle _ journal.migrations.length hschema rfl ⟨?_, le_rfl, ?_, ?_⟩
      ⟨fun s hs => ?_, fun h => absurd h (lt_irrefl _), .inl ?_⟩
    · exact hm.target.trans journal.version_eq
    · exact hm.digest.trans prefixDigest_length.symm
    · show 1 ≤ CdbSchemaPending.targetEpoch _
      omega
    · rw [hsteps] at hs
      exact journal.version_eq ▸ hm.bounded s hs
    · rw [hexecuted, hall, List.take_length]

theorem run_inv {calls : List (SchemaCall × Int)} (hi : Inv journal adopted db)
    (hadopted : ∀ args nowMs, (.baseline args, nowMs) ∈ calls → adopted) :
    Inv journal adopted (db.run hooks journal calls) := by
  induction calls generalizing db with
  | nil => exact hi
  | cons call calls ih =>
    refine ih ((step_effect hooks journal db call).keeps hi fun args hargs => ?_)
      fun args nowMs hmem => hadopted args nowMs (List.mem_cons_of_mem _ hmem)
    exact hadopted args call.2 (hargs ▸ List.mem_cons_self)

end

end Chardb.Schema
