import Chardb.Catalog.RoutingInvariant
import Chardb.Catalog.SchemaMigrationSteps

/-!
# Schema state of a Catalog over whole runs

While a migration is in flight no operation holds the lease, every shard of the inventory has a row,
and the recorded steps are the next packaged ones. What has run is what is packaged up to them,
except for the versions that a baseline adopted.
-/

namespace Chardb.Catalog

open Chardb.Lib Chardb.Schema

section
variable {δ ν : Type} [JsNumber ν] {sha256Hex : String → String} {hooks : CatalogHooks δ}
  {journal : ChardbMigrationJournal sha256Hex ν} {s s' : CatalogStore δ} {adopted : Nat}

/-! ## Prefixes of the journal -/

/-- The Catalog statements of the versions after `adopted` up to `n`. -/
def packagedSince (journal : ChardbMigrationJournal sha256Hex ν) (adopted n : Nat) : List String :=
  ((journal.migrations.take n).drop adopted).flatMap ChardbMigration.catalogStatements

theorem packagedSince_succ {n : Nat} {m : ChardbMigration ν} (h : journal.migrations[n]? = some m)
    (ha : adopted ≤ n) :
    packagedSince journal adopted (n + 1) = packagedSince journal adopted n ++ m.catalogStatements := by
  have hlength : n < journal.migrations.length := (List.getElem?_eq_some_iff.mp h).1
  unfold packagedSince
  rw [List.take_add_one, h, List.drop_append_of_le_length (by rw [List.length_take]; omega),
    List.flatMap_append]
  simp

theorem packagedSince_adopted {n : Nat} (h : n ≤ adopted) : packagedSince journal adopted n = [] := by
  unfold packagedSince
  rw [List.drop_eq_nil_of_le]
  · rfl
  · exact Nat.le_trans (List.length_take_le _ _) h

theorem upTo_version {n : Nat} : (upTo journal n).version = (min n journal.migrations.length : Nat) := by
  rw [← List.length_take]
  rfl

/-- The migrations after the `b`-th, as far as the `t`-th. -/
theorem filter_version {b t : Nat} (hb : b ≤ t) (ht : t ≤ journal.migrations.length) :
    (journal.migrations.drop b).filter (fun m => m.version ≤ (t : Int)) =
      (journal.migrations.take t).drop b := by
  have hsplit : journal.migrations.drop b =
      (journal.migrations.take t).drop b ++ journal.migrations.drop t := by
    conv_lhs => rw [← List.take_append_drop t journal.migrations]
    exact List.drop_append_of_le_length (by rw [List.length_take]; omega)
  have hfirst : ((journal.migrations.take t).drop b).filter (fun m => m.version ≤ (t : Int)) =
      (journal.migrations.take t).drop b := by
    refine List.filter_eq_self.mpr fun m hm => ?_
    have hle : m.version ≤ (upTo journal t).version := version_le (List.mem_of_mem_drop hm)
    rw [upTo_version, Nat.min_eq_left ht] at hle
    exact decide_eq_true hle
  have hrest : (journal.migrations.drop t).filter (fun m => m.version ≤ (t : Int)) = [] := by
    refine List.filter_eq_nil_iff.mpr fun m hm => ?_
    have := version_drop hm
    simp only [decide_eq_true_eq]
    omega
  rw [hsplit, List.filter_append, hfirst, hrest, List.append_nil]

/-- A Worker that packages the target expects the same steps as any other. -/
theorem expectedSteps_upTo {b t n : Nat} (hb : b ≤ t) (ht : (t : Int) ≤ (upTo journal n).version) :
    expectedSteps (upTo journal n) b t = .ok ((upTo journal t).migrations.drop b) := by
  have hle := ht
  rw [upTo_version] at hle
  have htn : t ≤ min n journal.migrations.length := by omega
  have hlength : t ≤ (upTo journal n).migrations.length := by
    show t ≤ (journal.migrations.take n).length
    rw [List.length_take]
    exact htn
  unfold expectedSteps pendingMigrations ensure
  rw [if_pos ⟨(upTo journal n).safe (Int.natCast_nonneg b) (by omega), Int.natCast_nonneg b, by omega⟩,
    Int.toNat_natCast]
  refine congrArg Except.ok ((filter_version hb hlength).trans ?_)
  show ((journal.migrations.take n).take t).drop b = (journal.migrations.take t).drop b
  rw [List.take_take, Nat.min_eq_left (by omega)]

theorem prefixDigest_upTo {t n : Nat} (h : t ≤ n) :
    (upTo journal n).prefixDigest t = journal.prefixDigest t := by
  show stableHashHex sha256Hex (digestEntries ((journal.migrations.take n).take t)) = _
  rw [List.take_take, Nat.min_eq_left h]
  rfl

/-! ## The invariant -/

/-- The steps that the migration in flight recorded. -/
def flightSteps (s : CatalogStore δ) (p : CdbSchemaPending) (b : Nat) : List SchemaStep :=
  s.db.rest.tables.inFlight p.migrationId b

/-- What holds of the migration in flight from version `b` to version `t`. -/
structure InFlight (journal : ChardbMigrationJournal sha256Hex ν) (adopted : Nat) (s : CatalogStore δ)
    (row : CdbSchemaState) (p : CdbSchemaPending) (b t : Nat) : Prop where
  target : p.targetVersion = t
  version_lt : b < t
  target_le : t ≤ journal.migrations.length
  epoch : p.targetEpoch = row.activeEpoch + 1
  digest : p.targetDigest = journal.prefixDigest t
  bounded : ∀ st ∈ s.db.rest.tables.steps, st.version ≤ t
  steps : (flightSteps s p b).map SchemaStep.entry =
    (((upTo journal t).migrations.drop b).take (flightSteps s p b).length).map ChardbMigration.entry
  executed : s.db.rest.tables.executed = packagedSince journal adopted (b + (flightSteps s p b).length)
  owner : ∀ r ∈ s.db.rest.shards, r.migrationId = p.migrationId
  shards : ∀ id ∈ inventory s, ∃ r ∈ s.db.rest.shards, r.shardId = id
  unleased : Unleased s
  baseline_owner : ∀ r ∈ s.db.rest.baselines, r.migrationId = p.migrationId
  baseline : catalogSchemaBaselineExists s p.migrationId = true → adopted = t ∧ b = 0
  migration : catalogSchemaBaselineExists s p.migrationId = false → adopted ≤ b

/-- What holds while no migration is in flight. -/
structure Rests (journal : ChardbMigrationJournal sha256Hex ν) (adopted : Nat) (s : CatalogStore δ)
    (b : Nat) : Prop where
  bounded : ∀ st ∈ s.db.rest.tables.steps, st.version ≤ b
  executed : s.db.rest.tables.executed = packagedSince journal adopted b
  shards : s.db.rest.shards.rows = []
  baselines : s.db.rest.baselines.rows = []
  adopted_le : adopted ≤ b

/-- What holds of a Catalog in every state that can be reached. -/
inductive CatalogInv (journal : ChardbMigrationJournal sha256Hex ν) (adopted : Nat) (s : CatalogStore δ) :
    Prop
  | idle (row : CdbSchemaState) (b : Nat) : s.db.rest.tables.schema = some row → row.pending = none →
    Installed journal row b → Rests journal adopted s b → CatalogInv journal adopted s
  | migrating (row : CdbSchemaState) (p : CdbSchemaPending) (b t : Nat) :
    s.db.rest.tables.schema = some row → row.pending = some p → Installed journal row b →
    InFlight journal adopted s row p b t → CatalogInv journal adopted s

theorem CatalogInv.of_idle (hi : CatalogInv journal adopted s) {row : CdbSchemaState}
    (hrow : s.db.rest.tables.schema = some row) (hp : row.pending = none) :
    ∃ b, Installed journal row b ∧ Rests journal adopted s b := by
  cases hi with
  | idle row' b hrow' _ hb hr =>
    obtain rfl := Option.some.inj (hrow'.symm.trans hrow)
    exact ⟨b, hb, hr⟩
  | migrating row' p b t hrow' hp' =>
    obtain rfl := Option.some.inj (hrow'.symm.trans hrow)
    rw [hp] at hp'
    cases hp'

theorem CatalogInv.of_migrating (hi : CatalogInv journal adopted s) {row : CdbSchemaState}
    {p : CdbSchemaPending} (hrow : s.db.rest.tables.schema = some row) (hp : row.pending = some p) :
    ∃ b t, Installed journal row b ∧ InFlight journal adopted s row p b t := by
  cases hi with
  | idle row' b hrow' hnone =>
    obtain rfl := Option.some.inj (hrow'.symm.trans hrow)
    rw [hp] at hnone
    cases hnone
  | migrating row' p' b t hrow' hp' hb hf =>
    obtain rfl := Option.some.inj (hrow'.symm.trans hrow)
    obtain rfl := Option.some.inj (hp'.symm.trans hp)
    exact ⟨b, t, hb, hf⟩

theorem inventory_congr (h : s'.db.ranges = s.db.ranges) : inventory s' = inventory s := by
  unfold inventory
  rw [h]

theorem flightSteps_congr (h : s'.db.rest.tables.steps = s.db.rest.tables.steps) (p : CdbSchemaPending)
    (b : Nat) : flightSteps s' p b = flightSteps s p b := by
  unfold flightSteps CdbDb.inFlight
  rw [h]

theorem baselineExists_congr (h : s'.db.rest.baselines = s.db.rest.baselines) (id : String) :
    catalogSchemaBaselineExists s' id = catalogSchemaBaselineExists s id := by
  unfold catalogSchemaBaselineExists
  rw [h]

theorem catalogInv_initial (journal : ChardbMigrationJournal sha256Hex ν) (domain : δ) :
    CatalogInv journal 0 (catalogInitial journal domain) := by
  refine .idle ⟨0, 1, journal.prefixDigest 0, none, none⟩ 0 rfl rfl
    ⟨rfl, Nat.zero_le _, rfl, Int.le_refl 1⟩ ⟨fun st hst => absurd hst Table.not_mem_empty, ?_, rfl, rfl,
      Nat.le_refl 0⟩
  rw [packagedSince_adopted (Nat.le_refl 0)]
  rfl

/-! ## One call -/

theorem Rests.same {b : Nat} (hr : Rests journal adopted s b) (h : SameTables s s') :
    Rests journal adopted s' b := by
  refine ⟨?_, h.executed.trans hr.executed, ?_, ?_, hr.adopted_le⟩
  · rw [h.steps]
    exact hr.bounded
  · rw [h.shards]
    exact hr.shards
  · rw [h.baselines]
    exact hr.baselines

theorem inv_same (hi : CatalogInv journal adopted s) (h : SameTables s s') (hidle : IdleSchema s) :
    CatalogInv journal adopted s' := by
  obtain ⟨row, hrow, hp⟩ := hidle
  obtain ⟨b, hb, hr⟩ := hi.of_idle hrow hp
  exact .idle row b (h.schema.trans hrow) hp hb (hr.same h)

/-- What is in flight depends on the tables, the ranges and the lease. -/
theorem InFlight.keeps {row : CdbSchemaState} {p : CdbSchemaPending} {b t : Nat}
    (hf : InFlight journal adopted s row p b t)
    (hsteps : s'.db.rest.tables.steps = s.db.rest.tables.steps)
    (hexecuted : s'.db.rest.tables.executed = s.db.rest.tables.executed)
    (hranges : s'.db.ranges = s.db.ranges) (hbaselines : s'.db.rest.baselines = s.db.rest.baselines)
    (hlease : Unleased s') (howner : ∀ r ∈ s'.db.rest.shards, r.migrationId = p.migrationId)
    (hshards : ∀ r ∈ s.db.rest.shards, ∃ r' ∈ s'.db.rest.shards, r'.shardId = r.shardId) :
    InFlight journal adopted s' row p b t := by
  have hflight := flightSteps_congr hsteps p b
  have hbase := baselineExists_congr hbaselines p.migrationId
  refine ⟨hf.target, hf.version_lt, hf.target_le, hf.epoch, hf.digest, ?_, ?_, ?_, howner,
    fun id hid => ?_, hlease, ?_, ?_, ?_⟩
  · rw [hsteps]
    exact hf.bounded
  · rw [hflight]
    exact hf.steps
  · rw [hflight, hexecuted]
    exact hf.executed
  · rw [inventory_congr hranges] at hid
    obtain ⟨r, hr, hrid⟩ := hf.shards id hid
    obtain ⟨r', hr', hid'⟩ := hshards r hr
    exact ⟨r', hr', hid'.trans hrid⟩
  · rw [hbaselines]
    exact hf.baseline_owner
  · rw [hbase]
    exact hf.baseline
  · rw [hbase]
    exact hf.migration

theorem inv_quiet (hi : CatalogInv journal adopted s) (h : Quiet s s') : CatalogInv journal adopted s' := by
  cases hi with
  | idle row b hrow hp hb hr => exact .idle row b (h.schema.trans hrow) hp hb (hr.same h.toSameTables)
  | migrating row p b t hrow hp hb hf =>
    refine .migrating row p b t (h.schema.trans hrow) hp hb
      (hf.keeps h.steps h.executed h.ranges h.baselines ?_ ?_ ?_)
    · refine List.eq_nil_iff_forall_not_mem.mpr fun o ho => ?_
      have := h.lease o ho
      rw [hf.unleased] at this
      cases this
    · rw [h.shards]
      exact hf.owner
    · rw [h.shards]
      exact fun r hr => ⟨r, hr, rfl⟩

theorem inv_begun {n : Nat} {row : CdbSchemaState} {p : CdbSchemaPending} {baseline : Bool} {nowMs : Int}
    (hi : CatalogInv journal adopted s) (h : Begun (upTo journal n) s s' row p baseline nowMs) :
    CatalogInv journal (if baseline = true then p.targetVersion.toNat else adopted) s' := by
  obtain ⟨b, hb, hr⟩ := hi.of_idle h.stored h.idle
  have htarget := h.target
  rw [upTo_version] at htarget
  have hlt := h.version_lt
  rw [hb.version, htarget] at hlt
  have hnone : flightSteps s' p b = [] := by
    rw [flightSteps_congr h.steps]
    refine List.filter_eq_nil_iff.mpr fun st hst => ?_
    have := hr.bounded st hst
    simp only [Bool.and_eq_true, decide_eq_true_eq, not_and]
    omega
  have hdigest := h.digest
  rw [migrationDigestAt_eq (by omega) (by rw [h.target])] at hdigest
  have hshards : s'.db.rest.shards.rows =
      (inventory s).map (SchemaShardRow.pending p.migrationId nowMs) := by
    rw [h.shards, hr.shards, List.nil_append]
  have hbaselines := h.baselines
  rw [hr.baselines, List.nil_append] at hbaselines
  have hexists : catalogSchemaBaselineExists s' p.migrationId = baseline := by
    unfold catalogSchemaBaselineExists Table.find?
    rw [hbaselines]
    cases baseline with
    | true => simp
    | false => rfl
  refine .migrating _ p b (min n journal.migrations.length) h.schema rfl
    ⟨hb.version, hb.version_le, hb.digest, hb.epoch⟩ ⟨htarget, by omega, by omega, h.epoch, ?_,
      fun st hst => ?_, ?_, ?_, fun r hm => ?_, fun id hid => ?_, ?_, fun r hm => ?_, ?_, ?_⟩
  · rw [htarget, Int.toNat_natCast] at hdigest
    rw [← Except.ok.inj hdigest]
    exact prefixDigest_upTo (by omega)
  · rw [h.steps] at hst
    have := hr.bounded st hst
    omega
  · rw [hnone]
    rfl
  · rw [hnone, h.executed, hr.executed]
    split
    · rename_i hbase
      have hzero : b = 0 := by
        have hv := h.zero hbase
        rw [hb.version] at hv
        omega
      subst hzero
      rw [packagedSince_adopted (Nat.zero_le _)]
      exact (packagedSince_adopted (Nat.zero_le _)).symm
    · rfl
  · rw [← Table.mem_rows, hshards] at hm
    obtain ⟨id, -, rfl⟩ := List.mem_map.mp hm
    rfl
  · rw [inventory_congr h.ranges] at hid
    refine ⟨SchemaShardRow.pending p.migrationId nowMs id, ?_, rfl⟩
    rw [← Table.mem_rows, hshards]
    exact List.mem_map_of_mem hid
  · unfold Unleased
    rw [h.topology]
    exact h.unleased
  · rw [← Table.mem_rows, hbaselines] at hm
    split at hm
    · rw [List.mem_singleton.mp hm]
    · cases hm
  · intro hbase
    rw [hexists] at hbase
    rw [if_pos hbase, htarget, Int.toNat_natCast]
    have hv := h.zero hbase
    rw [hb.version] at hv
    exact ⟨rfl, by omega⟩
  · intro hbase
    rw [hexists] at hbase
    rw [if_neg (by rw [hbase]; decide)]
    exact hr.adopted_le

theorem inv_stepped {n : Nat} {row : CdbSchemaState} {p : CdbSchemaPending} {m : ChardbMigration ν}
    {nowMs : Int} (hi : CatalogInv journal adopted s) (hfits : Fits (upTo journal n) row)
    (h : Stepped (upTo journal n) s s' row p m nowMs) : CatalogInv journal adopted s' := by
  obtain ⟨b, t, hb, hf⟩ := hi.of_migrating h.stored h.pending
  obtain ⟨expected, hexpected, hbegins, hnext⟩ := h.expected
  have hlt := hf.version_lt
  have htle := hfits.target_le p h.pending
  rw [hf.target] at htle
  rw [hb.version, hf.target, expectedSteps_upTo hlt.le htle] at hexpected
  obtain rfl := Except.ok.inj hexpected
  have hlength : (flightSteps s p b).length =
      (s.db.rest.tables.applied p.migrationId).length := inFlight_length hbegins
  obtain ⟨m', hm', hversion⟩ := Option.map_eq_some_iff.mp hnext
  rw [← hlength, List.getElem?_drop] at hm'
  have hat := (upTo journal t).contiguous _ _ hm'
  rw [hversion] at hat
  have hindex : (m.version - 1).toNat = b + (flightSteps s p b).length := by omega
  have hstep : b + (flightSteps s p b).length < t := by
    have := (List.getElem?_eq_some_iff.mp hm').1
    have hl : (upTo journal t).migrations.length ≤ t := List.length_take_le _ _
    omega
  have hm : journal.migrations[b + (flightSteps s p b).length]? = some m := by
    have := h.at_version
    rw [hindex] at this
    have hget : (journal.migrations.take n)[b + (flightSteps s p b).length]? = some m := this
    rw [List.getElem?_take] at hget
    split at hget
    · exact hget
    · cases hget
  have hmt : (upTo journal t).migrations[b + (flightSteps s p b).length]? = some m := by
    show (journal.migrations.take t)[b + (flightSteps s p b).length]? = some m
    rw [List.getElem?_take, if_pos hstep]
    exact hm
  have hinsert : flightSteps s' p b =
      flightSteps s p b ++ [⟨p.migrationId, m.version, m.digest, nowMs⟩] := by
    have := inFlight_insert s.db.rest.tables (b := (b : Int)) h.steps (by show (b : Int) < m.version; omega)
    exact this
  have hbase := baselineExists_congr h.baselines p.migrationId
  refine .migrating row p b t (h.schema.trans h.stored) h.pending hb ⟨hf.target, hlt, hf.target_le, hf.epoch,
    hf.digest, fun st hst => ?_, ?_, ?_, ?_, ?_, ?_, ?_, ?_, ?_⟩
  · rcases (Table.mem_insert h.steps).mp hst with hst | rfl
    · exact hf.bounded st hst
    · show m.version ≤ t
      omega
  · rw [hinsert, List.map_append, hf.steps, List.length_append, List.length_singleton,
      List.take_add_one, List.map_append, List.getElem?_drop, hmt]
    rfl
  · rw [h.executed, hf.executed, hinsert, List.length_append, List.length_singleton, ← Nat.add_assoc]
    cases hex : catalogSchemaBaselineExists s p.migrationId with
    | true =>
      obtain ⟨hadopted, -⟩ := hf.baseline hex
      rw [if_pos rfl, List.append_nil, packagedSince_adopted (by omega), packagedSince_adopted (by omega)]
    | false =>
      have hadopted := hf.migration hex
      rw [if_neg (by decide), packagedSince_succ hm (by omega)]
  · rw [h.shards]
    exact hf.owner
  · rw [inventory_congr h.ranges, h.shards]
    exact hf.shards
  · unfold Unleased
    rw [h.topology]
    exact hf.unleased
  · rw [h.baselines]
    exact hf.baseline_owner
  · rw [hbase]
    exact hf.baseline
  · rw [hbase]
    exact hf.migration

theorem inv_recorded (hi : CatalogInv journal adopted s) (h : Recorded s s') :
    CatalogInv journal adopted s' := by
  obtain ⟨f, hkey, hrows⟩ := h.shards
  have hmem : ∀ r', r' ∈ s'.db.rest.shards ↔ ∃ r ∈ s.db.rest.shards, f r = r' := fun r' => by
    rw [← Table.mem_rows, hrows, List.mem_map]
    rfl
  cases hi with
  | idle row b hrow hp hb hr =>
    refine .idle row b (h.schema.trans hrow) hp hb ⟨?_, h.executed.trans hr.executed, ?_, ?_,
      hr.adopted_le⟩
    · rw [h.steps]
      exact hr.bounded
    · rw [hrows, hr.shards]
      rfl
    · rw [h.baselines]
      exact hr.baselines
  | migrating row p b t hrow hp hb hf =>
    refine .migrating row p b t (h.schema.trans hrow) hp hb
      (hf.keeps h.steps h.executed h.ranges h.baselines ?_ ?_ ?_)
    · unfold Unleased
      rw [h.topology]
      exact hf.unleased
    · intro r' hr'
      obtain ⟨r, hr, rfl⟩ := (hmem r').mp hr'
      exact (congrArg Prod.fst (hkey r)).trans (hf.owner r hr)
    · exact fun r hr => ⟨f r, (hmem _).mpr ⟨r, hr, rfl⟩, congrArg Prod.snd (hkey r)⟩

/-- A migration completes with every step of it recorded. -/
theorem Finished.all_steps {n : Nat} {row : CdbSchemaState} {p : CdbSchemaPending} {b t : Nat}
    (hb : Installed journal row b) (hf : InFlight journal adopted s row p b t)
    (hfits : Fits (upTo journal n) row) (h : Finished (upTo journal n) s s' row p) :
    (flightSteps s p b).length = t - b := by
  obtain ⟨expected, hexpected, hlength, hbegins⟩ := h.expected
  have hlt := hf.version_lt
  have htle := hfits.target_le p h.pending
  rw [hf.target] at htle
  rw [hb.version, hf.target, expectedSteps_upTo hlt.le htle] at hexpected
  obtain rfl := Except.ok.inj hexpected
  have hflight : (flightSteps s p b).length =
      (s.db.rest.tables.applied p.migrationId).length := inFlight_length hbegins
  have hl : (upTo journal t).migrations.length = t := by
    show (journal.migrations.take t).length = t
    rw [List.length_take, Nat.min_eq_left hf.target_le]
  rw [hflight, hlength, List.length_drop, hl]

theorem inv_finished {n : Nat} {row : CdbSchemaState} {p : CdbSchemaPending}
    (hi : CatalogInv journal adopted s) (hfits : Fits (upTo journal n) row)
    (h : Finished (upTo journal n) s s' row p) : CatalogInv journal adopted s' := by
  obtain ⟨b, t, hb, hf⟩ := hi.of_migrating h.stored h.pending
  have hall := h.all_steps hb hf hfits
  have hlt := hf.version_lt
  refine .idle _ t h.schema rfl ⟨hf.target, hf.target_le, hf.digest, ?_⟩ ⟨?_, ?_, ?_, ?_, ?_⟩
  · show 1 ≤ p.targetEpoch
    have := hf.epoch
    have := hb.epoch
    omega
  · rw [h.steps]
    exact hf.bounded
  · rw [h.executed, hf.executed, hall, Nat.add_sub_cancel' hlt.le]
  · refine List.eq_nil_iff_forall_not_mem.mpr fun r hr => ?_
    obtain ⟨hmem, hne⟩ := (h.shards r).mp hr
    exact hne (hf.owner r hmem)
  · refine List.eq_nil_iff_forall_not_mem.mpr fun r hr => ?_
    obtain ⟨hmem, hne⟩ := (h.baselines r).mp hr
    exact hne (hf.baseline_owner r hmem)
  · cases hex : catalogSchemaBaselineExists s p.migrationId with
    | true => exact (hf.baseline hex).1.le
    | false => exact Nat.le_trans (hf.migration hex) hlt.le

/-- Every request keeps the invariant; only a baseline adopts versions. -/
theorem inv_step (hooks : CatalogHooks δ) (request : CatalogRequest) (hi : CatalogInv journal adopted s) :
    ∃ adopted', CatalogInv journal adopted' (catalogStep hooks journal s request) ∧
      (adopted' = adopted ∨
        ∃ id, request.call = .beginSchemaBaseline id (adopted' : Nat)) := by
  rcases step_effect hooks journal s request with hq | ⟨⟨row, hrow, hfits⟩, he⟩
  · exact ⟨adopted, inv_quiet hi hq, .inl rfl⟩
  · cases he with
    | quiet h => exact ⟨adopted, inv_quiet hi h, .inl rfl⟩
    | claims hidle h => exact ⟨adopted, inv_same hi h.toSameTables hidle, .inl rfl⟩
    | moves hidle h => exact ⟨adopted, inv_same hi h.toSameTables hidle, .inl rfl⟩
    | begun row' p baseline nowMs h hcall =>
      refine ⟨_, inv_begun hi h, ?_⟩
      by_cases hbase : baseline = true
      · refine .inr ⟨p.migrationId, ?_⟩
        rw [if_pos hbase, hcall hbase]
        have htarget := h.target
        rw [upTo_version] at htarget
        rw [htarget, Int.toNat_natCast]
      · exact .inl (if_neg hbase)
    | stepped row' p m nowMs h =>
      obtain rfl := Option.some.inj (hrow.symm.trans h.stored)
      exact ⟨adopted, inv_stepped hi hfits h, .inl rfl⟩
    | recorded h => exact ⟨adopted, inv_recorded hi h, .inl rfl⟩
    | finished row' p h =>
      obtain rfl := Option.some.inj (hrow.symm.trans h.stored)
      exact ⟨adopted, inv_finished hi hfits h, .inl rfl⟩

/-- The versions that a baseline of the run adopted. -/
def Adopts (requests : List CatalogRequest) (adopted : Nat) : Prop :=
  adopted = 0 ∨ ∃ request ∈ requests, ∃ id, request.call = .beginSchemaBaseline id (adopted : Nat)

theorem inv_run (hooks : CatalogHooks δ) (requests : List CatalogRequest)
    (hi : CatalogInv journal adopted s) :
    ∃ adopted', CatalogInv journal adopted' (catalogRun hooks journal s requests) ∧
      (adopted' = adopted ∨
        ∃ request ∈ requests, ∃ id, request.call = .beginSchemaBaseline id (adopted' : Nat)) := by
  induction requests generalizing s adopted with
  | nil => exact ⟨adopted, hi, .inl rfl⟩
  | cons request rest ih =>
    obtain ⟨a₁, hi₁, h₁⟩ := inv_step hooks request hi
    obtain ⟨a₂, hi₂, h₂⟩ := ih hi₁
    refine ⟨a₂, hi₂, ?_⟩
    rcases h₂ with rfl | ⟨r, hr, h⟩
    · exact h₁.imp_right fun h => ⟨request, List.mem_cons_self, h⟩
    · exact .inr ⟨r, List.mem_cons_of_mem _ hr, h⟩

end

end Chardb.Catalog
