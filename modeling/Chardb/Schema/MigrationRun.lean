import Chardb.Schema.MigrationInvariant

/-!
# Replays and progress of schema migrations

A call that changed the store once changes it never again. A migration in flight reaches its target
when its steps are applied in order, unless the shard was provisioned under the same id.
-/

namespace Chardb.Schema

open Chardb.Lib

section
variable {δ ν : Type} [JsNumber ν] {sha256Hex : String → String} {hooks : SchemaHooks δ}
  {journal : ChardbMigrationJournal sha256Hex ν} {db db' : CdbDb δ} {adopted : Prop}

/-! ## Replays -/

/-- What every call keeps of a row. -/
structure Advances (journal : ChardbMigrationJournal sha256Hex ν) (row row' : CdbSchemaState) :
    Prop where
  nonzero : row.activeVersion ≠ 0 → row'.activeVersion ≠ 0
  named : row.lastMigrationId ≠ none → row'.lastMigrationId ≠ none
  claimed : row.pending ≠ none ∨ row.activeVersion = journal.version →
    row'.pending ≠ none ∨ row'.activeVersion = journal.version
  settled : row.pending = none → row.activeVersion = journal.version →
    row'.pending = none ∧ row'.activeVersion = journal.version

theorem Advances.refl {row : CdbSchemaState} : Advances journal row row :=
  ⟨id, id, id, fun h h' => ⟨h, h'⟩⟩

theorem SchemaEffect.advances {call : SchemaCall} {row : CdbSchemaState}
    (h : SchemaEffect journal db db' call) (hi : Inv journal adopted db)
    (hrow : db.schema = some row) : ∃ row', db'.schema = some row' ∧ Advances journal row row' := by
  cases h with
  | none h => exact ⟨row, h ▸ hrow, .refl⟩
  | initialized hnone => rw [hnone] at hrow; cases hrow
  | baselined hrow' hpending hzero hversion hone _ _ hschema =>
    obtain rfl := Option.some.inj (hrow.symm.trans hrow')
    exact ⟨_, hschema, fun h => absurd hzero h, fun _ => Option.some_ne_none _, fun _ => .inr hversion,
      fun _ _ => ⟨rfl, hversion⟩⟩
  | provisioned k nowMs hrow' hpending hzero _ hlast _ hversion hle _ _ hschema =>
    obtain rfl := Option.some.inj (hrow.symm.trans hrow')
    have hlength := journal.version_eq
    have hsame : row.activeVersion = journal.version → CdbSchemaTarget.targetVersion _ = journal.version :=
      fun h => hversion.trans (by omega)
    exact ⟨_, hschema, fun h => absurd hzero h, fun h => absurd hlast h,
      fun h => .inr (hsame (h.resolve_left fun hne => hne hpending)), fun _ h => ⟨rfl, hsame h⟩⟩
  | prepared hrow' hpending hlt _ _ _ h =>
    obtain rfl := Option.some.inj (hrow.symm.trans hrow')
    subst h
    exact ⟨_, rfl, id, id, fun _ => .inl (Option.some_ne_none _), fun _ h => by omega⟩
  | applied hrow' _ _ _ _ _ _ _ _ hschema => exact ⟨row, hschema.trans hrow, .refl⟩
  | activated hrow' hpending _ _ _ _ hschema =>
    obtain rfl := Option.some.inj (hrow.symm.trans hrow')
    obtain ⟨b, -, hm⟩ := hi.of_migrating hrow hpending
    have hlt := hm.version_lt
    have hlength := journal.version_eq
    have htarget := hm.target
    refine ⟨_, hschema, fun _ => ?_, fun _ => Option.some_ne_none _, fun _ => .inr htarget, fun h => ?_⟩
    · show CdbSchemaPending.targetVersion _ ≠ 0
      omega
    · rw [hpending] at h
      cases h

/-- The call can change nothing any more. -/
def SchemaCall.Spent (journal : ChardbMigrationJournal sha256Hex ν) (db : CdbDb δ) : SchemaCall → Prop
  | .initializeSchema => ∃ row, db.schema = some row
  | .baseline _ => ∃ row, db.schema = some row ∧ row.activeVersion ≠ 0
  | .provisionFresh _ => ∃ row, db.schema = some row ∧ row.lastMigrationId ≠ none
  | .prepare _ => ∃ row, db.schema = some row ∧
      (row.pending ≠ none ∨ row.activeVersion = journal.version)
  | .apply migrationId version => (db.steps.find? (migrationId, version)).isSome = true
  | .activate _ => ∃ row, db.schema = some row ∧ row.pending = none ∧
      row.activeVersion = journal.version

theorem SchemaCall.Spent.unchanged {call : SchemaCall} (hs : call.Spent journal db)
    (h : SchemaEffect journal db db' call) : db' = db := by
  cases h with
  | none h => exact h
  | initialized hnone =>
    obtain ⟨row, hrow⟩ := hs
    rw [hnone] at hrow
    cases hrow
  | baselined hrow _ hzero =>
    obtain ⟨row, hrow', hne⟩ := hs
    obtain rfl := Option.some.inj (hrow.symm.trans hrow')
    exact absurd hzero hne
  | provisioned _ _ hrow _ _ _ hlast =>
    obtain ⟨row, hrow', hne⟩ := hs
    obtain rfl := Option.some.inj (hrow.symm.trans hrow')
    exact absurd hlast hne
  | prepared hrow hpending hlt =>
    obtain ⟨row, hrow', hclaimed⟩ := hs
    obtain rfl := Option.some.inj (hrow.symm.trans hrow')
    rcases hclaimed with h | h
    · exact absurd hpending h
    · omega
  | applied _ _ _ _ _ hfind =>
    have hs : (db.steps.find? _).isSome = true := hs
    rw [hfind] at hs
    cases hs
  | activated hrow hpending =>
    obtain ⟨row, hrow', hnone, -⟩ := hs
    obtain rfl := Option.some.inj (hrow.symm.trans hrow')
    rw [hpending] at hnone
    cases hnone

/-- No call takes a step away. -/
theorem SchemaEffect.steps {call : SchemaCall} {k : String × Int}
    (h : SchemaEffect journal db db' call) (hk : (db.steps.find? k).isSome = true) :
    (db'.steps.find? k).isSome = true := by
  cases h with
  | none h => rw [h]; exact hk
  | initialized _ h => rw [h]; exact hk
  | baselined _ _ _ _ _ _ _ _ hsteps => rw [hsteps]; exact hk
  | provisioned _ _ _ _ _ _ _ hempty =>
    obtain ⟨s, hs⟩ := Option.isSome_iff_exists.mp hk
    have hmem := (Table.find?_eq_some.mp hs).1
    rw [← Table.mem_rows, hempty] at hmem
    cases hmem
  | prepared _ _ _ _ _ _ h => rw [h]; exact hk
  | applied _ _ _ _ _ _ _ _ _ _ hsteps =>
    rw [Table.find?_insert hsteps]
    split
    · rfl
    · exact hk
  | activated _ _ _ _ _ _ _ hsteps => rw [hsteps]; exact hk

theorem SchemaCall.Spent.stays {call call' : SchemaCall} (hs : call.Spent journal db)
    (hi : Inv journal adopted db) (h : SchemaEffect journal db db' call') : call.Spent journal db' := by
  cases call with
  | initializeSchema =>
    obtain ⟨row, hrow⟩ := hs
    obtain ⟨row', hrow', -⟩ := h.advances hi hrow
    exact ⟨row', hrow'⟩
  | baseline args =>
    obtain ⟨row, hrow, hne⟩ := hs
    obtain ⟨row', hrow', ha⟩ := h.advances hi hrow
    exact ⟨row', hrow', ha.nonzero hne⟩
  | provisionFresh args =>
    obtain ⟨row, hrow, hne⟩ := hs
    obtain ⟨row', hrow', ha⟩ := h.advances hi hrow
    exact ⟨row', hrow', ha.named hne⟩
  | prepare args =>
    obtain ⟨row, hrow, hclaimed⟩ := hs
    obtain ⟨row', hrow', ha⟩ := h.advances hi hrow
    exact ⟨row', hrow', ha.claimed hclaimed⟩
  | apply migrationId version => exact h.steps hs
  | activate migrationId =>
    obtain ⟨row, hrow, hnone, hversion⟩ := hs
    obtain ⟨row', hrow', ha⟩ := h.advances hi hrow
    exact ⟨row', hrow', ha.settled hnone hversion⟩

theorem SchemaEffect.spent {call : SchemaCall} (h : SchemaEffect journal db db' call)
    (hi : Inv journal adopted db) (hne : db' ≠ db) : call.Spent journal db' := by
  cases h with
  | none h => exact absurd h hne
  | initialized _ h => exact ⟨_, congrArg CdbDb.schema h⟩
  | baselined _ _ _ hversion hone _ _ hschema =>
    refine ⟨_, hschema, ?_⟩
    show CdbSchemaTarget.targetVersion _ ≠ 0
    omega
  | provisioned _ _ _ _ _ _ _ _ _ _ _ _ hschema => exact ⟨_, hschema, Option.some_ne_none _⟩
  | prepared _ _ _ _ _ _ h => exact ⟨_, congrArg CdbDb.schema h, .inl (Option.some_ne_none _)⟩
  | applied _ _ _ hversion _ _ _ _ _ _ hsteps =>
    obtain rfl := hversion
    show (db'.steps.find? _).isSome = true
    rw [Table.find?_insert hsteps]
    split
    · rfl
    · exact absurd rfl ‹_›
  | activated hrow hpending _ _ _ _ hschema =>
    obtain ⟨b, -, hm⟩ := hi.of_migrating hrow hpending
    exact ⟨_, hschema, rfl, hm.target⟩

theorem SchemaCall.Spent.run {call : SchemaCall} {nowMs : Int} {later : List (SchemaCall × Int)}
    (hs : call.Spent journal db) (hi : Inv journal True db) :
    (db.run hooks journal later).step hooks journal (call, nowMs) = db.run hooks journal later := by
  induction later generalizing db with
  | nil => exact hs.unchanged (step_effect hooks journal db (call, nowMs))
  | cons c later ih =>
    have heffect := step_effect hooks journal db c
    exact ih (hs.stays hi heffect) (heffect.keeps hi fun _ _ => trivial)

/-- A call that changed the store changes no later one, at whatever time it is made again. -/
theorem replay_unchanged {call : SchemaCall} {nowMs nowMs' : Int} {later : List (SchemaCall × Int)}
    (hi : Inv journal True db) (hne : db.step hooks journal (call, nowMs) ≠ db) :
    ((db.step hooks journal (call, nowMs)).run hooks journal later).step hooks journal (call, nowMs') =
      (db.step hooks journal (call, nowMs)).run hooks journal later := by
  have heffect := step_effect hooks journal db (call, nowMs)
  exact (heffect.spent hi hne).run (heffect.keeps hi fun _ _ => trivial)

/-! ## Progress -/

/-- No statement and no hook throws. -/
structure SchemaHooks.Returning (hooks : SchemaHooks δ) : Prop where
  exec : ∀ s d, ∃ d', (hooks.exec s).Returns d () d'
  recordDomainSchema : ∀ d, ∃ d', hooks.recordDomainSchema.Returns d () d'
  beforeStatements : ∀ v d, ∃ d', (hooks.beforeStatements v).Returns d () d'
  afterStatements : ∀ v d, ∃ d', (hooks.afterStatements v).Returns d () d'

theorem execStatements_total (hh : hooks.Returning) (statements : List String) (db : CdbDb δ) :
    ∃ domain, (execStatements hooks statements).Returns db ()
      { db with domain, executed := db.executed ++ statements } := by
  induction statements generalizing db with
  | nil => exact ⟨db.domain, Tx.pure_returns.mpr ⟨rfl, by rw [List.append_nil]⟩⟩
  | cons s rest ih =>
    obtain ⟨d, hd⟩ := hh.exec s db.domain
    obtain ⟨domain, hrest⟩ := ih { db with domain := d, executed := db.executed ++ [s] }
    rw [List.append_assoc] at hrest
    refine ⟨domain, ?_⟩
    unfold execStatements execStatement
    simp only [Tx.bind_returns, Tx.modify_returns, onDomain_returns]
    exact ⟨(), _, ⟨(), _, ⟨d, hd, rfl⟩, rfl⟩, hrest⟩

/-- No step of the migration is at or below the active version. -/
def CdbDb.Unused (db : CdbDb δ) (migrationId : String) (activeVersion : Int) : Prop :=
  ∀ s ∈ db.steps, s.migrationId = migrationId → activeVersion < s.version

theorem CdbDb.Unused.inFlight {migrationId : String} {b : Int} (h : db.Unused migrationId b) :
    db.inFlight migrationId b = db.steps.select fun s => s.migrationId = migrationId := by
  unfold CdbDb.inFlight Table.select
  refine List.filter_congr fun s hs => ?_
  by_cases hid : s.migrationId = migrationId
  · simp [hid, h s hs hid]
  · simp [hid]

/-- The steps of a migration whose id is unused are read in the order in which they ran. -/
theorem CdbDb.Unused.applied_eq {migrationId : String} {b : Nat} (hu : db.Unused migrationId b)
    (hsteps : (db.inFlight migrationId b).map SchemaStep.entry =
      ((journal.migrations.drop b).take (db.inFlight migrationId b).length).map ChardbMigration.entry) :
    db.applied migrationId = db.inFlight migrationId b := by
  unfold CdbDb.applied Table.orderBy
  rw [← hu.inFlight]
  apply List.Pairwise.insertionSort_eq
  have hpairwise : ((db.inFlight migrationId b).map SchemaStep.entry).Pairwise
      fun x y => x.1 ≤ y.1 := by
    rw [hsteps, List.pairwise_map, List.pairwise_iff_getElem]
    intro i j hi hj hij
    simp only [List.getElem_take, List.getElem_drop]
    rw [List.length_take, List.length_drop] at hi hj
    have h₁ := journal.contiguous (b + i) _ (List.getElem?_eq_getElem (by omega))
    have h₂ := journal.contiguous (b + j) _ (List.getElem?_eq_getElem (by omega))
    show ChardbMigration.version _ ≤ ChardbMigration.version _
    omega
  rw [List.pairwise_map] at hpairwise
  exact hpairwise

theorem CdbDb.Unused.begins {migrationId : String} {b : Nat} (hu : db.Unused migrationId b)
    (hsteps : (db.inFlight migrationId b).map SchemaStep.entry =
      ((journal.migrations.drop b).take (db.inFlight migrationId b).length).map ChardbMigration.entry) :
    beginsWith (db.applied migrationId) (journal.migrations.drop b) = true := by
  rw [hu.applied_eq hsteps]
  exact beginsWith_of_entries hsteps

/-- The version after the steps in flight is not recorded. -/
theorem CdbDb.Unused.next_fresh {migrationId : String} {b : Nat} {version : Int}
    (hu : db.Unused migrationId b)
    (hsteps : (db.inFlight migrationId b).map SchemaStep.entry =
      ((journal.migrations.drop b).take (db.inFlight migrationId b).length).map ChardbMigration.entry)
    (hversion : version = b + (db.inFlight migrationId b).length + 1) :
    db.steps.find? (migrationId, version) = none := by
  refine Table.find?_eq_none.mpr fun s hs hkey => ?_
  have hid : s.migrationId = migrationId := congrArg Prod.fst hkey
  have hsv : s.version = version := congrArg Prod.snd hkey
  have hmem : s ∈ db.inFlight migrationId b := by
    rw [hu.inFlight]
    exact Table.mem_select.mpr ⟨hs, decide_eq_true hid⟩
  have hentry := List.mem_map_of_mem (f := SchemaStep.entry) hmem
  rw [hsteps] at hentry
  obtain ⟨x, hx, hxe⟩ := List.mem_map.mp hentry
  obtain ⟨i, hi, hget⟩ := List.getElem_of_mem hx
  rw [List.length_take, List.length_drop] at hi
  rw [List.getElem_take, List.getElem_drop] at hget
  have hxv := journal.contiguous (b + i) x (by rw [List.getElem?_eq_getElem (by omega), hget])
  have hxs : x.version = s.version := congrArg Prod.fst hxe
  omega

theorem applyNext_total {migrationId : String} {g : ChardbMigration ν}
    {expected : List (ChardbMigration ν)} {activeVersion targetVersion nowMs : Int}
    (hh : hooks.Returning)
    (hexpected : expectedSteps journal activeVersion targetVersion = .ok expected)
    (hbegins : beginsWith (db.applied migrationId) expected = true)
    (hnext : expected[(db.applied migrationId).length]?.map ChardbMigration.version = some g.version)
    (hfresh : db.steps.find? (migrationId, g.version) = none) (hpos : 0 < g.version)
    (hnow : 0 ≤ nowMs) :
    ∃ db', (applyNext hooks journal migrationId g activeVersion targetVersion nowMs).Returns db () db' ∧
      db'.schema = db.schema ∧
      db.steps.insert? ⟨migrationId, g.version, g.digest, nowMs⟩ = some db'.steps := by
  obtain ⟨d, hd⟩ := hh.beforeStatements g.version db.domain
  obtain ⟨d', hexec⟩ := execStatements_total hh g.statements { db with domain := d }
  obtain ⟨d'', hd''⟩ := hh.afterStatements g.version d'
  have hcheck : (⟨migrationId, g.version, g.digest, nowMs⟩ : SchemaStep).check := ⟨hpos, hnow⟩
  obtain ⟨steps, hsteps⟩ := Option.isSome_iff_exists.mp <| Table.insert?_isSome.mpr
    ⟨Table.find?_eq_none.mp hfresh, hcheck⟩
  refine ⟨{ db with domain := d'', executed := db.executed ++ g.statements, steps }, ?_, rfl, hsteps⟩
  unfold applyNext
  simp only [Tx.bind_returns, Tx.require_returns, Tx.gets_returns, Tx.ofExcept_returns,
    onDomain_returns, insertStep_returns]
  exact ⟨_, db, ⟨rfl, rfl⟩, expected, db, ⟨hexpected, rfl⟩, (), db, ⟨hbegins, rfl⟩, (), db,
    ⟨hnext, rfl⟩, (), _, ⟨d, hd, rfl⟩, (), _, hexec, (), _, ⟨d'', hd'', rfl⟩, steps, hsteps, rfl⟩

/-- `apply` of a version that is not recorded yet is `applyNext` of its migration. -/
theorem apply_of_next {row : CdbSchemaState} {p : CdbSchemaPending} {g : ChardbMigration ν}
    {nowMs : Int} (hrow : db.schema = some row) (hpending : row.pending = some p)
    (hg : journal.migrations[(g.version - 1).toNat]? = some g) (hpos : 1 ≤ g.version)
    (hle : g.version ≤ p.targetVersion) (htarget : p.targetVersion = journal.version)
    (hfresh : db.steps.find? (p.migrationId, g.version) = none)
    (h : (applyNext hooks journal p.migrationId g row.activeVersion p.targetVersion nowMs).Returns db ()
      db') : (apply hooks journal p.migrationId g.version nowMs).Returns db () db' := by
  unfold apply
  simp only [Tx.bind_returns, Tx.require_returns, Tx.transactionSync_returns, state_returns]
  refine ⟨(), db, ⟨⟨journal.safe (by omega) (by omega), hpos, by omega⟩, rfl⟩, row, db, ⟨hrow, rfl⟩, ?_⟩
  rw [hpending]
  unfold applyPending
  simp only [Tx.bind_returns, Tx.require_returns, Tx.ofOption_returns, Tx.gets_returns]
  refine ⟨(), db, ⟨trivial, rfl⟩, (), db, ⟨hle, rfl⟩, g, db, ⟨?_, rfl⟩, _, db, ⟨rfl, rfl⟩, ?_⟩
  · rw [hg, Option.filter_some, if_pos (decide_eq_true rfl)]
  · rw [hfresh]
    exact h

/-- The next step of a migration whose id is unused returns. -/
theorem Migrating.apply_next {row : CdbSchemaState} {b : Nat} {p : CdbSchemaPending} {nowMs : Int}
    (hh : hooks.Returning) (hrow : db.schema = some row) (hpending : row.pending = some p)
    (hb : Installed journal row b) (hm : Migrating journal db row b p)
    (hu : db.Unused p.migrationId b)
    (hlt : b + (db.inFlight p.migrationId b).length < journal.migrations.length) (hnow : 0 ≤ nowMs) :
    ∃ db', (apply hooks journal p.migrationId
        (b + (db.inFlight p.migrationId b).length + 1 : Nat) nowMs).Returns db () db' ∧
      db'.schema = db.schema ∧ db'.Unused p.migrationId b ∧
      (db'.inFlight p.migrationId b).length = (db.inFlight p.migrationId b).length + 1 := by
  have hlength := journal.version_eq
  have htarget := hm.target
  obtain ⟨g, hg⟩ : ∃ g, journal.migrations[b + (db.inFlight p.migrationId b).length]? = some g :=
    ⟨_, List.getElem?_eq_getElem hlt⟩
  have hversion : g.version = (b + (db.inFlight p.migrationId b).length + 1 : Nat) := by
    have := journal.contiguous _ _ hg
    omega
  have hindex : (g.version - 1).toNat = b + (db.inFlight p.migrationId b).length := by omega
  have hfresh : db.steps.find? (p.migrationId, g.version) = none := hu.next_fresh hm.steps (by omega)
  have hexpected : expectedSteps journal row.activeVersion p.targetVersion =
      .ok (journal.migrations.drop b) := by
    rw [hb.version, htarget]
    exact expectedSteps_eq hb.version_le
  have hnext : (journal.migrations.drop b)[(db.applied p.migrationId).length]?.map
      ChardbMigration.version = some g.version := by
    rw [hu.applied_eq hm.steps, List.getElem?_drop, hg]
    rfl
  obtain ⟨db', hreturns, hschema, hsteps⟩ := applyNext_total hh hexpected (hu.begins hm.steps) hnext hfresh
    (by omega) hnow
  have hbeyond : (b : Int) < (⟨p.migrationId, g.version, g.digest, nowMs⟩ : SchemaStep).version := by
    show (b : Int) < g.version
    omega
  refine ⟨db', ?_, hschema, fun s hs hid => ?_, ?_⟩
  · rw [← hversion]
    exact apply_of_next hrow hpending (by rw [hindex, hg]) (by omega) (by omega) htarget hfresh hreturns
  · rcases (Table.mem_insert hsteps).mp hs with hs | rfl
    · exact hu s hs hid
    · exact hbeyond
  · have hflight := inFlight_insert db hsteps hbeyond
    have hlength := congrArg List.length hflight
    rw [List.length_append] at hlength
    exact hlength

/-- The calls that finish a migration: its steps from the `v`-th on, in version order, and its
activation. -/
def finishCalls (migrationId : String) (nowMs : Nat → Int) : Nat → Nat → List (SchemaCall × Int)
  | v, 0 => [(.activate migrationId, nowMs v)]
  | v, k + 1 => (.apply migrationId (v + 1 : Nat), nowMs v) ::
      finishCalls migrationId nowMs (v + 1) k

theorem step_of_returns {call : SchemaCall} {nowMs : Int} {a : Unit}
    (h : (call.execute hooks journal nowMs).Returns db a db') :
    db.step hooks journal (call, nowMs) = db' := h.after

theorem run_cons {call : SchemaCall × Int} {calls : List (SchemaCall × Int)} :
    db.run hooks journal (call :: calls) = (db.step hooks journal call).run hooks journal calls := rfl

/-- A migration whose id is unused reaches its target. -/
theorem Migrating.finish {row : CdbSchemaState} {b k : Nat} {p : CdbSchemaPending}
    {nowMs : Nat → Int} (hh : hooks.Returning) (hi : Inv journal True db)
    (hrow : db.schema = some row) (hpending : row.pending = some p) (hb : Installed journal row b)
    (hm : Migrating journal db row b p) (hu : db.Unused p.migrationId b)
    (hk : b + (db.inFlight p.migrationId b).length + k = journal.migrations.length)
    (hnow : ∀ v, 0 ≤ nowMs v) :
    (db.run hooks journal (finishCalls p.migrationId nowMs
      (b + (db.inFlight p.migrationId b).length) k)).schema =
      some ⟨p.targetVersion, p.targetEpoch, p.targetDigest, some p.migrationId, none⟩ := by
  induction k generalizing db with
  | zero =>
    obtain ⟨d, hd⟩ := hh.recordDomainSchema db.domain
    have happlied := hu.applied_eq hm.steps
    have hreturns : (activate hooks journal p.migrationId).Returns db ()
        { db with
          domain := d
          schema := some ⟨p.targetVersion, p.targetEpoch, p.targetDigest, some p.migrationId, none⟩ } := by
      unfold activate
      simp only [Tx.bind_returns, Tx.transactionSync_returns, state_returns]
      refine ⟨row, db, ⟨hrow, rfl⟩, ?_⟩
      rw [hpending]
      unfold activatePending
      simp only [Tx.bind_returns, Tx.require_returns, Tx.gets_returns, Tx.ofExcept_returns,
        onDomain_returns, writeState_returns]
      refine ⟨(), db, ⟨trivial, rfl⟩, journal.migrations.drop b, db, ⟨?_, rfl⟩, _, db, ⟨rfl, rfl⟩, (), db,
        ⟨⟨?_, hu.begins hm.steps⟩, rfl⟩, (), _, ⟨d, hd, rfl⟩, rfl⟩
      · rw [hb.version, hm.target]
        exact expectedSteps_eq hb.version_le
      · rw [happlied, List.length_drop]
        omega
    have hstep : db.step hooks journal (.activate p.migrationId,
        nowMs (b + (db.inFlight p.migrationId b).length)) = _ := step_of_returns hreturns
    rw [finishCalls, run_cons, hstep]
    rfl
  | succ k ih =>
    obtain ⟨db', hreturns, hschema, hu', hcount⟩ := hm.apply_next hh hrow hpending hb hu (by omega)
      (hnow (b + (db.inFlight p.migrationId b).length))
    have hstep : db.step hooks journal (.apply p.migrationId
        (b + (db.inFlight p.migrationId b).length + 1 : Nat),
        nowMs (b + (db.inFlight p.migrationId b).length)) = db' := step_of_returns hreturns
    have hi' := (apply_effect hreturns).keeps hi fun _ _ => trivial
    obtain ⟨b', hb', hm'⟩ := hi'.of_migrating (hschema.trans hrow) hpending
    obtain rfl : b' = b := by
      have h₁ := hb'.version
      have h₂ := hb.version
      omega
    have := ih hi' (hschema.trans hrow) hm' hu' (by omega)
    rw [hcount, ← Nat.add_assoc] at this
    rw [finishCalls, run_cons, hstep]
    exact this

end

end Chardb.Schema
