import Chardb.Catalog.SchemaMigrationRun
import Chardb.Schema.MigrationSafety

/-!
# Schema migrations of a Catalog

What the runs of a Catalog come to: a migration and a topology operation exclude each other, the
packaged statements run in order, and a migration completes for every shard of the inventory.
-/

namespace Chardb.Catalog

open Chardb.Lib Chardb.Schema

section
variable {δ ν : Type} [JsNumber ν] {sha256Hex : String → String} {hooks : CatalogHooks δ}
  {journal : ChardbMigrationJournal sha256Hex ν} {s s' : CatalogStore δ} {adopted : Nat}
  {row row' : CdbSchemaState} {p : CdbSchemaPending}

/-! ## What holds in every state -/

theorem CatalogInv.unleased (hi : CatalogInv journal adopted s)
    (hrow : s.db.rest.tables.schema = some row) (hpending : row.pending ≠ none) : Unleased s := by
  obtain ⟨p, hp⟩ := Option.ne_none_iff_exists'.mp hpending
  obtain ⟨b, t, -, hf⟩ := hi.of_migrating hrow hp
  exact hf.unleased

theorem CatalogInv.executed (hi : CatalogInv journal adopted s) :
    s.db.rest.tables.executed = packagedSince journal adopted s.db.rest.tables.reached := by
  cases hi with
  | idle row b hrow hp hb hr =>
    rw [reached_idle hrow hp, hb.version, Int.toNat_natCast]
    exact hr.executed
  | migrating row p b t hrow hp hb hf =>
    rw [reached_migrating hrow hp, hb.version, Int.toNat_natCast]
    exact hf.executed

theorem CatalogInv.stored (hi : CatalogInv journal adopted s) :
    ∃ row, s.db.rest.tables.schema = some row := by
  cases hi with
  | idle row b hrow => exact ⟨row, hrow⟩
  | migrating row p b t hrow => exact ⟨row, hrow⟩

/-! ## What one request does -/

theorem not_idle (hrow : s.db.rest.tables.schema = some row) (hpending : row.pending ≠ none) :
    ¬ IdleSchema s := by
  rintro ⟨row', hrow', hnone⟩
  obtain rfl := Option.some.inj (hrow.symm.trans hrow')
  exact hpending hnone

/-- The ranges stay as they are while a migration is in flight. -/
theorem CatalogEffect.frozen {n : Nat} {call : CatalogCall}
    (h : CatalogEffect (upTo journal n) s s' call) (hrow : s.db.rest.tables.schema = some row)
    (hpending : row.pending ≠ none) : s'.db.ranges = s.db.ranges := by
  cases h with
  | quiet h => exact h.ranges
  | claims hidle => exact absurd hidle (not_idle hrow hpending)
  | moves hidle => exact absurd hidle (not_idle hrow hpending)
  | begun _ _ _ _ h => exact h.ranges
  | stepped _ _ _ _ h => exact h.ranges
  | recorded h => exact h.ranges
  | finished _ _ h => exact h.ranges

/-- A request that completes the migration in flight, of every shard in the inventory. -/
structure Completes (s : CatalogStore δ) (row row' : CdbSchemaState) : Prop where
  owner : ∃ p, row.pending = some p ∧ row'.lastMigrationId = some p.migrationId ∧
    row'.activeVersion = p.targetVersion ∧ s.db.rest.tables.reached = row'.activeVersion ∧
    ∀ id ∈ inventory s, ∃ r ∈ s.db.rest.shards, r.key = (p.migrationId, id) ∧ r.active = true
  idle : row'.pending = none
  epoch : row'.activeEpoch = row.activeEpoch + 1

theorem Finished.completes {n : Nat} (h : Finished (upTo journal n) s s' row p)
    (hi : CatalogInv journal adopted s) (hfits : Fits (upTo journal n) row)
    (hrow' : s'.db.rest.tables.schema = some row') : Completes s row row' := by
  obtain ⟨b, t, hb, hf⟩ := hi.of_migrating h.stored h.pending
  obtain rfl := Option.some.inj (hrow'.symm.trans h.schema)
  refine ⟨⟨p, h.pending, rfl, rfl, ?_, fun id hid => ?_⟩, rfl, hf.epoch⟩
  · have hall := h.all_steps hb hf hfits
    have hlt := hf.version_lt
    have htarget := hf.target
    rw [reached_migrating h.stored h.pending, hb.version, Int.toNat_natCast]
    show ((b + (flightSteps s p b).length : Nat) : Int) = p.targetVersion
    omega
  · obtain ⟨r, hr, hrid⟩ := hf.shards id hid
    have howner := hf.owner r hr
    exact ⟨r, hr, Prod.ext howner hrid, h.active r hr howner⟩

/-- The active version and epoch change with a completion alone. -/
theorem CatalogEffect.version {n : Nat} {call : CatalogCall}
    (h : CatalogEffect (upTo journal n) s s' call) (hi : CatalogInv journal adopted s)
    (hfits : Fits (upTo journal n) row) (hrow : s.db.rest.tables.schema = some row)
    (hrow' : s'.db.rest.tables.schema = some row') :
    row'.activeVersion = row.activeVersion ∧ row'.activeEpoch = row.activeEpoch ∨
      Completes s row row' := by
  have hsame : s'.db.rest.tables.schema = s.db.rest.tables.schema →
      row'.activeVersion = row.activeVersion ∧ row'.activeEpoch = row.activeEpoch := fun h => by
    obtain rfl := Option.some.inj (hrow'.symm.trans (h.trans hrow))
    exact ⟨rfl, rfl⟩
  cases h with
  | quiet h => exact .inl (hsame h.schema)
  | claims _ h => exact .inl (hsame h.schema)
  | moves _ h => exact .inl (hsame h.schema)
  | begun row₁ p baseline nowMs h =>
    obtain rfl := Option.some.inj (hrow.symm.trans h.stored)
    obtain rfl := Option.some.inj (hrow'.symm.trans h.schema)
    exact .inl ⟨rfl, rfl⟩
  | stepped _ _ _ _ h => exact .inl (hsame h.schema)
  | recorded h => exact .inl (hsame h.schema)
  | finished row₁ p h =>
    obtain rfl := Option.some.inj (hrow.symm.trans h.stored)
    exact .inr (h.completes hi hfits hrow')

theorem frozen_step (hooks : CatalogHooks δ) (request : CatalogRequest)
    (hrow : s.db.rest.tables.schema = some row) (hpending : row.pending ≠ none) :
    (catalogStep hooks journal s request).db.ranges = s.db.ranges := by
  rcases step_effect hooks journal s request with h | ⟨-, h⟩
  · exact h.ranges
  · exact h.frozen hrow hpending

theorem version_step (hooks : CatalogHooks δ) (request : CatalogRequest)
    (hi : CatalogInv journal adopted s) (hrow : s.db.rest.tables.schema = some row)
    (hrow' : (catalogStep hooks journal s request).db.rest.tables.schema = some row') :
    row'.activeVersion = row.activeVersion ∧ row'.activeEpoch = row.activeEpoch ∨
      Completes s row row' := by
  rcases step_effect hooks journal s request with h | ⟨⟨row₁, hrow₁, hfits⟩, h⟩
  · obtain rfl := Option.some.inj (hrow'.symm.trans (h.schema.trans hrow))
    exact .inl ⟨rfl, rfl⟩
  · obtain rfl := Option.some.inj (hrow.symm.trans hrow₁)
    exact h.version hi hfits hrow hrow'

theorem CatalogInv.finish (hi : CatalogInv journal adopted s) (hh : hooks.Returning)
    (hrow : s.db.rest.tables.schema = some row) (hpending : row.pending = some p)
    (hunused : s.db.rest.tables.Unused p.migrationId row.activeVersion) :
    ∃ more : List CatalogRequest, (∀ request ∈ more, request.call.Advances p.migrationId) ∧
      (catalogRun hooks journal s more).db.rest.tables.schema =
        some ⟨p.targetVersion, p.targetEpoch, p.targetDigest, some p.migrationId, none⟩ := by
  obtain ⟨b, t, hb, hf⟩ := hi.of_migrating hrow hpending
  have hflies : Flies journal s row p b t :=
    ⟨hrow, hpending, hb, ⟨adopted, hf⟩, hb.version ▸ hunused⟩
  exact hflies.finish hh

end

/-- A migration and a topology operation are never in flight together; what ran is what is packaged
up to the active version and the recorded steps, but for the versions that a baseline adopted; the
ranges are frozen while a migration is in flight; the version moves, and the epoch by one, with a
completion alone, which found every step and every shard of the inventory; and a migration whose id
has no step at or below the active version reaches its target. -/
theorem catalog_schema_migrations {δ ν : Type} [JsNumber ν] {sha256Hex : String → String}
    (hooks : CatalogHooks δ) (journal : ChardbMigrationJournal sha256Hex ν) (domain : δ)
    (requests : List CatalogRequest) :
    let s := catalogRun hooks journal (catalogInitial journal domain) requests
    ∃ row adopted, s.db.rest.tables.schema = some row ∧ Adopts requests adopted ∧
      (row.pending ≠ none → activeOperations s.db.rest.topology = []) ∧
      s.db.rest.tables.executed = packagedSince journal adopted s.db.rest.tables.reached ∧
      (∀ request, row.pending ≠ none →
        (catalogStep hooks journal s request).db.ranges = s.db.ranges) ∧
      (∀ request row', (catalogStep hooks journal s request).db.rest.tables.schema = some row' →
        row'.activeVersion = row.activeVersion ∧ row'.activeEpoch = row.activeEpoch ∨
          Completes s row row') ∧
      (hooks.Returning → ∀ p, row.pending = some p →
        s.db.rest.tables.Unused p.migrationId row.activeVersion →
        ∃ more : List CatalogRequest, (∀ request ∈ more, request.call.Advances p.migrationId) ∧
          (catalogRun hooks journal s more).db.rest.tables.schema =
            some ⟨p.targetVersion, p.targetEpoch, p.targetDigest, some p.migrationId, none⟩) := by
  intro s
  obtain ⟨adopted, hi, hadopts⟩ := inv_run hooks requests (catalogInv_initial journal domain)
  obtain ⟨row, hrow⟩ := hi.stored
  exact ⟨row, adopted, hrow, hadopts, fun h => hi.unleased hrow h, hi.executed,
    fun request h => frozen_step hooks request hrow h, fun request row' h => version_step hooks request hi hrow h,
    fun hh p hp hu => hi.finish hh hrow hp hu⟩

/-! ## Where the statements need their exceptions -/

/-- A step at or below the active version under the id of the migration in flight stops it. -/
theorem CatalogEffect.stuck {δ ν : Type} [JsNumber ν] {sha256Hex : String → String}
    {journal : ChardbMigrationJournal sha256Hex ν} {s s' : CatalogStore δ} {row : CdbSchemaState}
    {p : CdbSchemaPending} {call : CatalogCall} {st : SchemaStep} {adopted b n : Nat}
    (h : CatalogEffect (upTo journal n) s s' call) (hi : CatalogInv journal adopted s)
    (hfits : Fits (upTo journal n) row) (hrow : s.db.rest.tables.schema = some row)
    (hpending : row.pending = some p) (hversion : row.activeVersion = b)
    (hst : st ∈ s.db.rest.tables.steps) (hid : st.migrationId = p.migrationId) (hle : st.version ≤ b) :
    s'.db.rest.tables.schema = s.db.rest.tables.schema ∧
      s'.db.rest.tables.steps = s.db.rest.tables.steps := by
  obtain ⟨b', t, hb, hf⟩ := hi.of_migrating hrow hpending
  have hstuck : ∀ expected, expectedSteps (upTo journal n) row.activeVersion p.targetVersion = .ok expected →
      beginsWith (s.db.rest.tables.applied p.migrationId) expected ≠ true := by
    intro expected hexpected hbegins
    have htle := hfits.target_le p hpending
    rw [hf.target] at htle
    rw [hb.version, hf.target, expectedSteps_upTo hf.version_lt.le htle] at hexpected
    obtain rfl := Except.ok.inj hexpected
    have hmem := List.mem_map_of_mem (f := SchemaStep.entry) (mem_applied.mpr ⟨hst, hid⟩)
    rw [beginsWith_entries hbegins] at hmem
    obtain ⟨m, hm, hentry⟩ := List.mem_map.mp hmem
    have hlt := version_drop (List.mem_of_mem_take hm)
    have hsame : m.version = st.version := congrArg Prod.fst hentry
    have hb' := hb.version
    omega
  have hne : row.pending ≠ none := by
    rw [hpending]
    exact Option.some_ne_none _
  cases h with
  | quiet h => exact ⟨h.schema, h.steps⟩
  | claims hidle => exact absurd hidle (not_idle hrow hne)
  | moves hidle => exact absurd hidle (not_idle hrow hne)
  | begun row₁ _ _ _ h =>
    obtain rfl := Option.some.inj (hrow.symm.trans h.stored)
    exact absurd h.idle hne
  | stepped row₁ p₁ m nowMs h =>
    obtain rfl := Option.some.inj (hrow.symm.trans h.stored)
    obtain rfl := Option.some.inj (hpending.symm.trans h.pending)
    obtain ⟨expected, hexpected, hbegins, -⟩ := h.expected
    exact absurd hbegins (hstuck expected hexpected)
  | recorded h => exact ⟨h.schema, h.steps⟩
  | finished row₁ p₁ h =>
    obtain rfl := Option.some.inj (hrow.symm.trans h.stored)
    obtain rfl := Option.some.inj (hpending.symm.trans h.pending)
    obtain ⟨expected, hexpected, -, hbegins⟩ := h.expected
    exact absurd hbegins (hstuck expected hexpected)

theorem stuck_run {δ ν : Type} [JsNumber ν] {sha256Hex : String → String} (hooks : CatalogHooks δ)
    {journal : ChardbMigrationJournal sha256Hex ν} {s : CatalogStore δ} {row : CdbSchemaState}
    {p : CdbSchemaPending} {st : SchemaStep} {adopted b : Nat} (more : List CatalogRequest)
    (hi : CatalogInv journal adopted s) (hrow : s.db.rest.tables.schema = some row)
    (hpending : row.pending = some p) (hversion : row.activeVersion = b)
    (hst : st ∈ s.db.rest.tables.steps) (hid : st.migrationId = p.migrationId) (hle : st.version ≤ b) :
    (catalogRun hooks journal s more).db.rest.tables.schema = some row := by
  induction more generalizing s adopted with
  | nil => exact hrow
  | cons request more ih =>
    have hsame : (catalogStep hooks journal s request).db.rest.tables.schema = s.db.rest.tables.schema ∧
        (catalogStep hooks journal s request).db.rest.tables.steps = s.db.rest.tables.steps := by
      rcases step_effect hooks journal s request with h | ⟨⟨row₁, hrow₁, hfits⟩, h⟩
      · exact ⟨h.schema, h.steps⟩
      · obtain rfl := Option.some.inj (hrow.symm.trans hrow₁)
        exact h.stuck hi hfits hrow hpending hversion hst hid hle
    obtain ⟨adopted', hi', -⟩ := inv_step hooks request hi
    rw [catalogRun_cons]
    exact ih hi' (hsame.1.trans hrow) (hsame.2 ▸ hst)

def sampleCatalogMigrations : List (ChardbMigration Int) :=
  [⟨1, "m", [], ["a"], [], ""⟩, ⟨2, "m", [], ["b"], [], ""⟩]

theorem sampleCatalogMigrations_contiguous (i : Nat) (m : ChardbMigration Int)
    (h : sampleCatalogMigrations[i]? = some m) : m.version = i + 1 := by
  rcases i with _ | _ | i
  · obtain rfl := Option.some.inj h
    rfl
  · obtain rfl := Option.some.inj h
    rfl
  · cases h

theorem sampleCatalogMigrations_length : sampleCatalogMigrations.length ≤ MAX_MIGRATIONS := by decide

theorem sampleCatalogMigrations_version : (2 : Int) = sampleCatalogMigrations.length := rfl

theorem sampleCatalogMigrations_digest :
    "" = stableHashHex (fun _ => "") (digestEntries sampleCatalogMigrations) := rfl

/-- A journal of two Catalog migrations, under a hash that tells nothing apart. -/
def sampleCatalogJournal : ChardbMigrationJournal (fun _ => "") Int where
  version := 2
  digest := ""
  migrations := sampleCatalogMigrations
  version_eq := sampleCatalogMigrations_version
  digest_eq := sampleCatalogMigrations_digest
  contiguous := sampleCatalogMigrations_contiguous
  length_le := sampleCatalogMigrations_length

/-- Statements and hooks that do nothing. -/
def sampleCatalogHooks : CatalogHooks Unit :=
  ⟨fun _ => pure (), pure (), pure (), fun _ => pure (), fun _ => pure (), fun _ => pure ()⟩

def sampleCatalogRun (requests : List CatalogRequest) : CatalogStore Unit :=
  catalogRun sampleCatalogHooks sampleCatalogJournal (catalogInitial sampleCatalogJournal ()) requests

/-- The Catalog statements of the versions that were reached have run. -/
def RunsCatalogStatements : Prop :=
  ∀ requests, (sampleCatalogRun requests).db.rest.tables.executed =
    packagedSince sampleCatalogJournal 0 (sampleCatalogRun requests).db.rest.tables.reached

/-- A migration in flight reaches its target by some requests. -/
def CatalogReachesTarget : Prop :=
  ∀ requests row p, (sampleCatalogRun requests).db.rest.tables.schema = some row →
    row.pending = some p → ∃ more, ((sampleCatalogRun (requests ++ more)).db.rest.tables.schema.map
      CdbSchemaState.activeVersion) = some p.targetVersion

/-- Two migrations under one id. -/
def reusedRequests : List CatalogRequest :=
  [⟨.beginSchemaMigration "x" 1, 1, 0⟩, ⟨.applyCatalogSchemaMigration "x" 1, 1, 0⟩,
    ⟨.shardMigrated "x" "ShardDO_0" 0, 1, 0⟩, ⟨.completeSchemaMigration "x", 1, 0⟩,
    ⟨.beginSchemaMigration "x" 2, 2, 0⟩]

/-- A baseline runs no Catalog statement, and a migration under the id of an earlier one never reaches
its target. -/
theorem catalog_baseline_runs_nothing_and_reused_id_stops :
    ¬ RunsCatalogStatements ∧ ¬ CatalogReachesTarget := by
  constructor
  · intro h
    have := h [⟨.beginSchemaBaseline "x" 2, 2, 0⟩, ⟨.applyCatalogSchemaMigration "x" 1, 2, 0⟩]
    exact absurd this (by decide +kernel)
  · intro h
    have hschema : (sampleCatalogRun reusedRequests).db.rest.tables.schema =
        some ⟨1, 2, "", some "x", some ⟨"x", 2, 3, ""⟩⟩ := by decide +kernel
    have hsteps : (⟨"x", 1, "", 0⟩ : SchemaStep) ∈
        (sampleCatalogRun reusedRequests).db.rest.tables.steps.rows := by decide +kernel
    obtain ⟨adopted, hi, -⟩ := inv_run sampleCatalogHooks reusedRequests
      (catalogInv_initial sampleCatalogJournal ())
    obtain ⟨more, hversion⟩ := h reusedRequests _ _ hschema rfl
    have hstuck := stuck_run sampleCatalogHooks (b := 1) more hi hschema rfl rfl hsteps rfl (by decide)
    unfold sampleCatalogRun at hversion
    rw [catalogRun_append, hstuck] at hversion
    exact absurd hversion (by decide)

end Chardb.Catalog
