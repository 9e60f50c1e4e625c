import Chardb.Schema.ResourcesKept

/-!
# The additive diff is a correct migration where SQLite takes the rows

For snapshots whose SQL reads as their descriptors say: an accepted diff and a complete install of
the next snapshot leave the same objects, and every row that was there, unless a row refuses a new
column or a new index.
-/

namespace Chardb.Schema

open Chardb.Lib

section
variable {V : Type} [DecidableEq V] {ν : Type} [JsNumber ν] {sqlite : Sqlite V}
  {sha256Hex toLowerCase : String → String} {previous next : ChardbSchemaSnapshotInput}

/-! ## The accepted diff -/

/-- What validation says of a snapshot. -/
structure ValidSnapshot (s : ChardbSchemaSnapshotInput) : Prop where
  cdbTables : ∀ t ∈ s.cdbTables, Wellformed t
  catalogTables : ∀ t ∈ s.catalogTables, Wellformed t
  resources : ValidResources s.resources

theorem defineSchemaSnapshot_ok {s : ChardbSchemaSnapshotInput} {u : Unit}
    (h : defineSchemaSnapshot ν sha256Hex toLowerCase s = .ok u) : ValidSnapshot s := by
  obtain ⟨_, -, h⟩ := bind_ok h
  obtain ⟨_, h, -⟩ := bind_ok h
  obtain ⟨_, -, h⟩ := bind_ok h
  obtain ⟨_, -, h⟩ := bind_ok h
  obtain ⟨_, -, h⟩ := bind_ok h
  have htables : ∃ a b : Unit, ownTables ν s.cdbTables "Cdb tables" = .ok a ∧
      ownTables ν s.catalogTables "Catalog tables" = .ok b ∧ ∃ normalized,
        normalizeChardbResourceDescriptors toLowerCase s.resources = .ok normalized ∧
        stableJson (resourcesJson ν s.resources) = stableJson (resourcesJson ν normalized) := by
    split at h <;>
    · obtain ⟨_, -, h⟩ := bind_ok h
      obtain ⟨a, hcdb, h⟩ := bind_ok h
      obtain ⟨b, hcatalog, h⟩ := bind_ok h
      obtain ⟨_, -, h⟩ := bind_ok h
      obtain ⟨normalized, hnormalized, h⟩ := bind_ok h
      obtain ⟨_, hcanonical, -⟩ := bind_ok h
      exact ⟨a, b, hcdb, hcatalog, normalized, hnormalized, ensure_ok hcanonical⟩
  obtain ⟨_, _, hcdb, hcatalog, _, hnormalized, hcanonical⟩ := htables
  exact ⟨ownTables_ok hcdb, ownTables_ok hcatalog, resources_ok hnormalized hcanonical⟩

/-- What an accepted diff says of its snapshots. -/
structure Accepted (ν : Type) [JsNumber ν] (sha256Hex : String → String)
    (previous next : ChardbSchemaSnapshotInput) (m : AdditiveMigration) : Prop where
  validPrevious : ValidSnapshot previous
  validNext : ValidSnapshot next
  keptCdb : ∀ p ∈ previous.cdbTables, ∃ n ∈ next.cdbTables, n.tableName = p.tableName
  keptCatalog : ∀ p ∈ previous.catalogTables, ∃ n ∈ next.catalogTables, n.tableName = p.tableName
  extendsCdb : ∀ n ∈ next.cdbTables, ∀ p, tableNamed previous.cdbTables n.tableName = some p →
    Extends p n
  extendsCatalog : ∀ n ∈ next.catalogTables, ∀ p,
    tableNamed previous.catalogTables n.tableName = some p → Extends p n
  resources : ∀ r ∈ previous.resources, keepResource ν next.resources r = .ok ()
  statements : m.statements = next.cdbTables.flatMap (nextStatements ν previous.cdbTables) ++
    (triggerPrograms ν sha256Hex (addedResources previous next)).map (·.install)
  catalogStatements : m.catalogStatements =
    next.catalogTables.flatMap (nextStatements ν previous.catalogTables)

theorem diff_ok {m : AdditiveMigration}
    (h : diffAdditiveSchemaSnapshots ν sha256Hex toLowerCase previous next = .ok m) :
    Accepted ν sha256Hex previous next m := by
  obtain ⟨_, hprevious, h⟩ := bind_ok h
  obtain ⟨_, hnext, h⟩ := bind_ok h
  obtain ⟨_, -, h⟩ := bind_ok h
  obtain ⟨_, -, h⟩ := bind_ok h
  obtain ⟨cdb, hcdb, h⟩ := bind_ok h
  obtain ⟨catalog, hcatalog, h⟩ := bind_ok h
  obtain ⟨_, hresources, h⟩ := bind_ok h
  obtain ⟨_, -, h⟩ := bind_ok h
  obtain ⟨_, -, h⟩ := bind_ok h
  obtain rfl := Except.ok.inj h
  obtain ⟨hkeptCdb, hstatements, hextendsCdb⟩ := diffPlane_ok hcdb
  obtain ⟨hkeptCatalog, hcatalogStatements, hextendsCatalog⟩ := diffPlane_ok hcatalog
  exact {
    validPrevious := defineSchemaSnapshot_ok hprevious
    validNext := defineSchemaSnapshot_ok hnext
    keptCdb := hkeptCdb
    keptCatalog := hkeptCatalog
    extendsCdb := hextendsCdb
    extendsCatalog := hextendsCatalog
    resources := forM_ok hresources
    statements := by rw [← hstatements]
    catalogStatements := hcatalogStatements }

/-! ## Triggers of both snapshots -/

/-- The triggers of all resources have different names: their digests differ. -/
def DistinctTriggers (ν : Type) [JsNumber ν] (sha256Hex : String → String)
    (resources : List ChardbResourceDescriptor) : Prop :=
  (resources.flatMap fun r =>
    (resourcePrograms ν sha256Hex r).map fun q => identifierKey q.name).Nodup

theorem triggerPrograms_nodup {rs : List ChardbResourceDescriptor}
    (h : DistinctTriggers ν sha256Hex rs) :
    ((triggerPrograms ν sha256Hex rs).map fun q => identifierKey q.name).Nodup := by
  rw [triggerPrograms, ← List.flatMap_append, List.map_flatMap]
  exact (((List.filter_append_perm (·.isFile) rs).flatMap_right _).nodup_iff).mpr h

theorem DistinctTriggers.filter {rs : List ChardbResourceDescriptor}
    (h : DistinctTriggers ν sha256Hex rs) (keep : ChardbResourceDescriptor → Bool) :
    DistinctTriggers ν sha256Hex (rs.filter keep) := by
  unfold DistinctTriggers at *
  rw [List.nodup_flatMap] at *
  exact ⟨fun r hr => h.1 r (List.mem_of_mem_filter hr), h.2.sublist List.filter_sublist⟩

/-- A previous resource is in the next snapshot, with the same triggers. -/
theorem Accepted.kept {m : AdditiveMigration} (h : Accepted ν sha256Hex previous next m)
    {r : ChardbResourceDescriptor} (hr : r ∈ previous.resources) :
    ∃ current ∈ next.resources, resourceKey current = resourceKey r ∧
      resourcePrograms ν sha256Hex current = resourcePrograms ν sha256Hex r := by
  have hkeep := h.resources r hr
  unfold keepResource at hkeep
  cases hfind : next.resources.find? (resourceKey · = resourceKey r) with
  | none =>
    rw [hfind] at hkeep
    cases hkeep
  | some current =>
    rw [hfind] at hkeep
    have hmem := List.mem_of_find?_eq_some hfind
    refine ⟨current, hmem, by simpa using List.find?_some hfind, resourcePrograms_eq ?_⟩
    exact canonicalize_eq (resource_exact (h.validNext.resources.bounded current hmem))
      (resource_exact (h.validPrevious.resources.bounded r hr)) (ensure_ok hkeep)

theorem mem_addedResources {r : ChardbResourceDescriptor} :
    r ∈ addedResources previous next ↔
      r ∈ next.resources ∧ ∀ r' ∈ previous.resources, resourceKey r' ≠ resourceKey r := by
  simp [addedResources, List.mem_filter]

/-- The triggers of the next snapshot are the previous ones and those that the diff adds. -/
theorem Accepted.triggers {m : AdditiveMigration} (h : Accepted ν sha256Hex previous next m)
    (q : TriggerProgram) : q ∈ triggerPrograms ν sha256Hex next.resources ↔
      q ∈ triggerPrograms ν sha256Hex previous.resources ∨
        q ∈ triggerPrograms ν sha256Hex (addedResources previous next) := by
  simp only [mem_triggerPrograms]
  constructor
  · rintro ⟨r, hr, hq⟩
    by_cases hadded : ∀ r' ∈ previous.resources, resourceKey r' ≠ resourceKey r
    · exact .inr ⟨r, mem_addedResources.mpr ⟨hr, hadded⟩, hq⟩
    · push Not at hadded
      obtain ⟨r', hr', hkey⟩ := hadded
      obtain ⟨current, hcurrent, hkey', hprograms⟩ := h.kept hr'
      obtain rfl : current = r :=
        List.inj_on_of_nodup_map h.validNext.resources.distinct hcurrent hr (hkey'.trans hkey)
      exact .inl ⟨r', hr', hprograms ▸ hq⟩
  · rintro (⟨r, hr, hq⟩ | ⟨r, hr, hq⟩)
    · obtain ⟨current, hcurrent, -, hprograms⟩ := h.kept hr
      exact ⟨current, hcurrent, hprograms.symm ▸ hq⟩
    · exact ⟨r, (mem_addedResources.mp hr).1, hq⟩

/-- The triggers that the diff adds have new names. -/
theorem Accepted.apart {m : AdditiveMigration} (h : Accepted ν sha256Hex previous next m)
    (hnames : DistinctTriggers ν sha256Hex next.resources) :
    ∀ q ∈ triggerPrograms ν sha256Hex (addedResources previous next),
      ∀ s ∈ triggerPrograms ν sha256Hex previous.resources,
        identifierKey q.name ≠ identifierKey s.name := by
  intro q hq s hs hkey
  obtain ⟨r, hr, hq⟩ := mem_triggerPrograms.mp hq
  obtain ⟨r', hr', hs⟩ := mem_triggerPrograms.mp hs
  obtain ⟨hnext, hadded⟩ := mem_addedResources.mp hr
  obtain ⟨current, hcurrent, hlocator, hprograms⟩ := h.kept hr'
  rw [← hprograms] at hs
  have hmem := List.mem_map_of_mem (f := fun q : TriggerProgram => identifierKey q.name) hq
  have hmem' := List.mem_map_of_mem (f := fun q : TriggerProgram => identifierKey q.name) hs
  have hsame : r = current := eq_of_mem_flatMap hnames hnext hcurrent (hkey ▸ hmem) hmem'
  exact hadded r' hr' (hsame ▸ hlocator.symm)

/-! ## The Catalog's comparison -/

/-- `SELECT sql FROM sqlite_master` for a table of this name. -/
def SqliteDb.tableSql (db : SqliteDb V) (name : String) : Option String :=
  ((db.tables (identifierKey name)).filter (·.name = name)).map (·.sql)

/-- The same for an index of a table. -/
def SqliteDb.indexSql (db : SqliteDb V) (name tableName : String) : Option String :=
  ((db.indexes (identifierKey name)).filter fun i => i.name = name ∧ i.tableName = tableName).map
    (·.sql)

def incompatibleAuth (message : String) : Thrown :=
  .cdb { code := .authProfileIncompatible, message }

/-- The indexes of a table in `recordMigratedCatalogAuthoritySchema`. -/
def assertMigratedIndexes (db : SqliteDb V) (tableName : String) :
    List String → List String → Except Thrown Unit
  | [], _ => .ok ()
  | name :: names, sqls => do
    let expectedSql := sqls.head?.getD ""
    ensure (name ≠ "" ∧ expectedSql ≠ "") (incompatibleAuth
      ("Catalog auth migration has invalid index metadata for \"" ++ tableName ++ "\""))
    ensure (db.indexSql name tableName = some expectedSql) (incompatibleAuth
      ("Catalog auth migration did not produce index \"" ++ name ++ "\""))
    assertMigratedIndexes db tableName names sqls.tail

/-- The comparison of one table in `recordMigratedCatalogAuthoritySchema`. -/
def assertMigratedTable (db : SqliteDb V) (ddl : SqliteTableDdl) : Except Thrown Unit := do
  ensure (db.tableSql ddl.tableName = some ddl.createTable) (incompatibleAuth
    ("Catalog auth migration did not produce table \"" ++ ddl.tableName ++ "\""))
  assertMigratedIndexes db ddl.tableName ddl.indexNames ddl.indexes

omit [DecidableEq V] in
theorem assertMigratedIndexes_ok {db : SqliteDb V} {t : SqliteTableDdlDescriptor}
    {is : List SqliteIndexDdlDescriptor} (hnonempty : ∀ i ∈ is, i.name ≠ "" ∧ i.sql ≠ "")
    (hstored : ∀ i ∈ is, db.indexes (identifierKey i.name) = some (t.indexEntry i)) :
    assertMigratedIndexes db t.tableName (is.map (·.name)) (is.map (·.sql)) = .ok () := by
  induction is with
  | nil => rfl
  | cons i is ih =>
    have hsql : db.indexSql i.name t.tableName = some i.sql := by
      unfold SqliteDb.indexSql
      rw [hstored i List.mem_cons_self, Option.filter_some,
        if_pos (by simp [SqliteTableDdlDescriptor.indexEntry])]
      rfl
    show (ensure (i.name ≠ "" ∧ i.sql ≠ "") _ >>= _) = _
    rw [ensure, if_pos (hnonempty i List.mem_cons_self)]
    show (ensure (db.indexSql i.name t.tableName = some i.sql) _ >>= _) = _
    rw [ensure, if_pos hsql]
    exact ih (fun j hj => hnonempty j (List.mem_cons_of_mem i hj))
      (fun j hj => hstored j (List.mem_cons_of_mem i hj))

omit [DecidableEq V] in
/-- A described table passes, with its indexes in any order. -/
theorem assertMigratedTable_ok {db : SqliteDb V} {T : Set SqliteTableDdlDescriptor}
    (h : Describes db T) {t u : SqliteTableDdlDescriptor} (ht : t ∈ T) (hwellformed : Wellformed t)
    (hname : u.tableName = t.tableName) (hcolumns : u.columns = t.columns)
    (hconstraints : u.constraints = t.constraints) (hindexes : ∀ i ∈ u.indexes, i ∈ t.indexes) :
    assertMigratedTable db (renderSqliteTableDdlDescriptor ν u) = .ok () := by
  obtain ⟨rows, hrows⟩ := h.table_eq ht
  have hsql : db.tableSql u.tableName = some (renderSqliteTableDdlDescriptor ν u).createTable := by
    unfold SqliteDb.tableSql
    rw [hname, hrows, Option.filter_some, if_pos (by simp [SqliteTableDdlDescriptor.entry]),
      createTable_eq ν (hcolumns ▸ hwellformed.columns), hname, hcolumns, hconstraints]
    rfl
  show (ensure (db.tableSql u.tableName = some _) _ >>= _) = _
  rw [ensure, if_pos hsql]
  show assertMigratedIndexes db u.tableName (u.indexes.map (·.name)) (u.indexes.map (·.sql)) = _
  rw [hname]
  refine assertMigratedIndexes_ok (fun i hi => hwellformed.indexes i (hindexes i hi)) fun i hi => ?_
  exact (h.indexes _ _).mpr ⟨t, ht, i, hindexes i hi, rfl, rfl⟩

/-! ## The migration -/

/-- SQLite reads the SQL of a snapshot as its descriptors say, and the digests in the names of its
triggers differ. -/
structure SnapshotReads (ν : Type) [JsNumber ν] (sha256Hex : String → String) (sqlite : Sqlite V)
    (s : ChardbSchemaSnapshotInput) : Prop where
  cdbTables : ∀ t ∈ s.cdbTables, Reads ν sqlite t
  catalogTables : ∀ t ∈ s.catalogTables, Reads ν sqlite t
  triggers : ∀ q ∈ triggerPrograms ν sha256Hex s.resources,
    sqlite.read q.install = some (.createTrigger q.name q.table)
  names : DistinctTriggers ν sha256Hex s.resources

/-- A database has the objects that an install creates, and no others. -/
def Holds (sqlite : Sqlite V) (db : SqliteDb V) (install : List String) : Prop :=
  ∃ installed, db.SameObjects installed ∧ sqlite.run .empty install = some installed

/-- The statements run, and leave the objects of an install and the rows that were there. -/
def Migrates (sqlite : Sqlite V) (db : SqliteDb V) (statements install : List String)
    (prev nexts : List SqliteTableDdlDescriptor) : Prop :=
  ∃ db', sqlite.run db statements = some db' ∧ Holds sqlite db' install ∧
    ∀ n ∈ nexts, RowsKept sqlite prev db db' n

/-- The migration is correct: for both planes, and every Catalog table passes the comparison. -/
structure CorrectMigration (ν : Type) [JsNumber ν] (sha256Hex : String → String)
    (sqlite : Sqlite V) (previous next : ChardbSchemaSnapshotInput) (m : AdditiveMigration)
    (cdb catalog : SqliteDb V) : Prop where
  cdbMigrates : Migrates sqlite cdb m.statements (completeInstall ν sha256Hex next).1
    previous.cdbTables next.cdbTables
  catalogMigrates : Migrates sqlite catalog m.catalogStatements (completeInstall ν sha256Hex next).2
    previous.catalogTables next.catalogTables
  compared : ∀ catalog', sqlite.run catalog m.catalogStatements = some catalog' → ∀ t,
    canonicalizeSqliteTableDdlDescriptor t ∈ next.catalogTables →
      assertMigratedTable catalog' (renderSqliteTableDdlDescriptor ν t) = .ok ()

/-- The next snapshot installs as a whole, and SQLite takes the rows that are there. -/
structure TakesSnapshot (ν : Type) [JsNumber ν] (sha256Hex : String → String) (sqlite : Sqlite V)
    (previous next : ChardbSchemaSnapshotInput) (cdb catalog : SqliteDb V) : Prop where
  installsCdb : ∃ db, sqlite.run .empty (completeInstall ν sha256Hex next).1 = some db
  installsCatalog : ∃ db, sqlite.run .empty (completeInstall ν sha256Hex next).2 = some db
  cdbRows : ∀ n ∈ next.cdbTables, TakesNull sqlite previous.cdbTables cdb n
  catalogRows : ∀ n ∈ next.catalogTables, TakesNull sqlite previous.catalogTables catalog n

/-- Both producers of the Cdb. -/
theorem Accepted.cdbProducers {m : AdditiveMigration} (h : Accepted ν sha256Hex previous next m)
    (hprevious : SnapshotReads ν sha256Hex sqlite previous)
    (hnext : SnapshotReads ν sha256Hex sqlite next) {db installed : SqliteDb V}
    (hdb : Holds sqlite db (completeInstall ν sha256Hex previous).1)
    (hinstalled : sqlite.run .empty (completeInstall ν sha256Hex next).1 = some installed) :
    Producers ν sqlite previous.cdbTables next.cdbTables
      (triggerPrograms ν sha256Hex previous.resources) (triggerPrograms ν sha256Hex next.resources)
      (triggerPrograms ν sha256Hex (addedResources previous next)) db installed where
  prevReads := hprevious.cdbTables
  nextReads := hnext.cdbTables
  prevTriggerReads := hprevious.triggers
  nextTriggerReads := hnext.triggers
  columns p hp := (h.validPrevious.cdbTables p hp).columns
  kept := h.keptCdb
  extendsTable := h.extendsCdb
  triggers := h.triggers
  prevNames := triggerPrograms_nodup hprevious.names
  nextNames := triggerPrograms_nodup hnext.names
  addedNames := triggerPrograms_nodup (hnext.names.filter _)
  apart := h.apart hnext.names
  before := hdb
  after := hinstalled

/-- Both producers of the Catalog. -/
theorem Accepted.catalogProducers {m : AdditiveMigration} (h : Accepted ν sha256Hex previous next m)
    (hprevious : SnapshotReads ν sha256Hex sqlite previous)
    (hnext : SnapshotReads ν sha256Hex sqlite next) {db installed : SqliteDb V}
    (hdb : Holds sqlite db (completeInstall ν sha256Hex previous).2)
    (hinstalled : sqlite.run .empty (completeInstall ν sha256Hex next).2 = some installed) :
    Producers ν sqlite previous.catalogTables next.catalogTables [] [] [] db installed where
  prevReads := hprevious.catalogTables
  nextReads := hnext.catalogTables
  prevTriggerReads := by simp
  nextTriggerReads := by simp
  columns p hp := (h.validPrevious.catalogTables p hp).columns
  kept := h.keptCatalog
  extendsTable := h.extendsCatalog
  triggers := by simp
  prevNames := List.nodup_nil
  nextNames := List.nodup_nil
  addedNames := List.nodup_nil
  apart := by simp
  before := by
    rw [List.map_nil, List.append_nil]
    exact hdb
  after := by
    rw [List.map_nil, List.append_nil]
    exact hinstalled

/-- An accepted diff is a correct migration exactly where the next snapshot installs and SQLite
takes the rows that are there, with the new columns as null and in the new indexes. -/
theorem additiveDiff_correct_iff {m : AdditiveMigration}
    (hdiff : diffAdditiveSchemaSnapshots ν sha256Hex toLowerCase previous next = .ok m)
    (hprevious : SnapshotReads ν sha256Hex sqlite previous)
    (hnext : SnapshotReads ν sha256Hex sqlite next) {cdb catalog : SqliteDb V}
    (hcdb : Holds sqlite cdb (completeInstall ν sha256Hex previous).1)
    (hcatalog : Holds sqlite catalog (completeInstall ν sha256Hex previous).2) :
    CorrectMigration ν sha256Hex sqlite previous next m cdb catalog ↔
      TakesSnapshot ν sha256Hex sqlite previous next cdb catalog := by
  have haccepted := diff_ok hdiff
  have hcatalogStatements : m.catalogStatements =
      next.catalogTables.flatMap (nextStatements ν previous.catalogTables) ++
        ([] : List TriggerProgram).map (·.install) := by
    rw [haccepted.catalogStatements, List.map_nil, List.append_nil]
  constructor
  · rintro ⟨⟨cdb', hrun, ⟨installed, hsame, hinstalled⟩, hrows⟩,
      ⟨catalog', hrun', ⟨installed', hsame', hinstalled'⟩, hrows'⟩, -⟩
    refine ⟨⟨installed, hinstalled⟩, ⟨installed', hinstalled'⟩, ?_, ?_⟩
    · rw [haccepted.statements] at hrun
      exact (plane_migrates (haccepted.cdbProducers hprevious hnext hcdb hinstalled)).mp
        ⟨cdb', hrun, hsame, hrows⟩
    · rw [hcatalogStatements] at hrun'
      exact (plane_migrates (haccepted.catalogProducers hprevious hnext hcatalog hinstalled')).mp
        ⟨catalog', hrun', hsame', hrows'⟩
  · rintro ⟨⟨installed, hinstalled⟩, ⟨installed', hinstalled'⟩, hrows, hrows'⟩
    obtain ⟨cdb', hrun, hsame, hkept⟩ :=
      (plane_migrates (haccepted.cdbProducers hprevious hnext hcdb hinstalled)).mpr hrows
    obtain ⟨catalog', hrun', hsame', hkept'⟩ :=
      (plane_migrates (haccepted.catalogProducers hprevious hnext hcatalog hinstalled')).mpr hrows'
    rw [← haccepted.statements] at hrun
    rw [← hcatalogStatements] at hrun'
    refine ⟨⟨cdb', hrun, ⟨installed, hsame, hinstalled⟩, hkept⟩,
      ⟨catalog', hrun', ⟨installed', hsame', hinstalled'⟩, hkept'⟩, fun db hdb t ht => ?_⟩
    have hdb' : catalog' = db := Option.some.inj (hrun'.symm.trans hdb)
    subst hdb'
    have hdescribes : Describes catalog' {t | t ∈ next.catalogTables} := by
      have hinstall := run_install hnext.catalogTables describes_empty hinstalled'
      rw [Set.empty_union] at hinstall
      exact hinstall.1.of_same hsame'.1 hsame'.2.1
    have hvalid := haccepted.validNext.catalogTables _ ht
    refine assertMigratedTable_ok hdescribes ht hvalid rfl rfl rfl ?_
    intro i hi
    exact (List.mem_insertionSort _).mpr hi

end

/-! ## A new index on a table with rows

Only a unique index is refused by the diff. An index on an expression is not, and its expression may
have no value in a row that is there. -/


def sampleDigest : String := "0000000000000000000000000000000000000000000000000000000000000000"

def notesIndex : SqliteIndexDdlDescriptor where
  name := "notes_kind_idx"
  isUnique := false
  sql := "CREATE INDEX \"notes_kind_idx\" ON \"notes\" (json_extract(\"body\", '$.kind'))"

def idColumn : SqliteColumnDdlDescriptor := ⟨"id", "\"id\" text PRIMARY KEY NOT NULL"⟩

def bodyColumn : SqliteColumnDdlDescriptor := ⟨"body", "\"body\" text"⟩

def notesTable (indexes : List SqliteIndexDdlDescriptor) : SqliteTableDdlDescriptor where
  tableName := "notes"
  columns := [idColumn, bodyColumn]
  constraints := []
  indexes

def notesSnapshot (version : Int) (previousDigest : Option String)
    (indexes : List SqliteIndexDdlDescriptor) : ChardbSchemaSnapshotInput where
  format := SNAPSHOT_FORMAT
  version
  name := "notes"
  previousDigest
  cdbTables := [notesTable indexes]
  catalogTables := []
  resources := []
  digest := sampleDigest

def beforeIndex : ChardbSchemaSnapshotInput := notesSnapshot 1 none []

def afterIndex : ChardbSchemaSnapshotInput := notesSnapshot 2 (some sampleDigest) [notesIndex]

theorem diff_expressionIndex : ∃ m,
    diffAdditiveSchemaSnapshots Int (fun _ => sampleDigest) id beforeIndex afterIndex = .ok m ∧
      m.statements = [notesIndex.sql] := by
  have h : (diffAdditiveSchemaSnapshots Int (fun _ => sampleDigest) id beforeIndex
      afterIndex).toOption.map (·.statements) = some [notesIndex.sql] := by decide +kernel
  cases hdiff : diffAdditiveSchemaSnapshots Int (fun _ => sampleDigest) id beforeIndex
      afterIndex with
  | error e =>
    rw [hdiff] at h
    cases h
  | ok m =>
    rw [hdiff] at h
    exact ⟨m, rfl, Option.some.inj h⟩

/-- `json_extract(body, '$.kind')`, which fails on a text that is not JSON. -/
def kindOf : Option String → Option (Option String)
  | none => some none
  | some body =>
    match (Json.parse body : Option (Json Int)) with
    | none => none
    | some (.obj members) =>
      match members.find? (·.1 = "kind") with
      | some (_, .str kind) => some (some kind)
      | _ => some none
    | some _ => some none

def createNotes : String := (renderSqliteTableDdlDescriptor Int (notesTable [])).createTable

/-- SQLite, as far as the statements of these snapshots need it. -/
def notesSqlite : Sqlite (Option String) where
  null := none
  read sql :=
    if sql = notesIndex.sql then some (.createIndex "notes_kind_idx" "notes" false)
    else if sql = createNotes then
      some (.createTable "notes" [idColumn.sql, bodyColumn.sql] []
        (textBefore "notes" [idColumn.sql, bodyColumn.sql]) (textAfter []))
    else if sql = addColumnSql "notes" idColumn then some (.addColumn "notes" idColumn.sql)
    else if sql = addColumnSql "notes" bodyColumn then some (.addColumn "notes" bodyColumn.sql)
    else none
  tableOk _ _ := true
  columnOk _ column := !hasUnsafeKeyword none column.toList
  addedValue _ _ := some none
  indexOk _ _ := true
  indexKey _ _ row := (kindOf (row.getD 1 none)).map fun kind => some [kind]
  triggerOk _ _ := true

theorem notes_read (sql : String) : notesSqlite.read sql =
    if sql = notesIndex.sql then some (.createIndex "notes_kind_idx" "notes" false)
    else if sql = createNotes then
      some (.createTable "notes" [idColumn.sql, bodyColumn.sql] []
        (textBefore "notes" [idColumn.sql, bodyColumn.sql]) (textAfter []))
    else if sql = addColumnSql "notes" idColumn then some (.addColumn "notes" idColumn.sql)
    else if sql = addColumnSql "notes" bodyColumn then some (.addColumn "notes" bodyColumn.sql)
    else none := rfl

theorem notes_texts : [notesIndex.sql, createNotes, addColumnSql "notes" idColumn,
    addColumnSql "notes" bodyColumn].Nodup := by decide +kernel

theorem notes_reads {indexes : List SqliteIndexDdlDescriptor} (h : ∀ i ∈ indexes, i = notesIndex) :
    Reads Int notesSqlite (notesTable indexes) := by
  have htexts := notes_texts
  simp only [List.nodup_cons, List.mem_cons, List.not_mem_nil, or_false, not_or] at htexts
  obtain ⟨⟨hcreate, hid, hbody⟩, ⟨hid', hbody'⟩, hbody'', -⟩ := htexts
  refine ⟨?_, fun i hi => ?_, fun c hc => ?_⟩
  · show notesSqlite.read createNotes = _
    rw [notes_read, if_neg (Ne.symm hcreate), if_pos rfl]
    rfl
  · rw [h i hi, notes_read, if_pos rfl]
    rfl
  · rcases List.mem_cons.mp hc with rfl | hc
    · show notesSqlite.read (addColumnSql "notes" idColumn) = _
      rw [notes_read, if_neg (Ne.symm hid), if_neg (Ne.symm hid'), if_pos rfl]
      rfl
    · obtain rfl := List.mem_singleton.mp hc
      show notesSqlite.read (addColumnSql "notes" bodyColumn) = _
      rw [notes_read, if_neg (Ne.symm hbody), if_neg (Ne.symm hbody'), if_neg (Ne.symm hbody''),
        if_pos rfl]
      rfl

theorem notesSnapshot_reads (version : Int) (previousDigest : Option String)
    {indexes : List SqliteIndexDdlDescriptor} (h : ∀ i ∈ indexes, i = notesIndex) :
    SnapshotReads Int (fun _ => sampleDigest) notesSqlite
      (notesSnapshot version previousDigest indexes) where
  cdbTables t ht := by
    obtain rfl := List.mem_singleton.mp ht
    exact notes_reads h
  catalogTables t ht := by cases ht
  triggers q hq := by cases hq
  names := List.nodup_nil

/-- The tables before the index, with one row. -/
def notesDb (body : String) : SqliteDb (Option String) :=
  SqliteDb.empty.setTable ((notesTable []).entry [[some "1", some body]])

theorem notesDb_table (body : String) : (notesDb body).tables (identifierKey "notes") =
    some ((notesTable []).entry [[some "1", some body]]) :=
  setTable_entry .empty (notesTable []) [[some "1", some body]]

theorem sameObjects_rows {V : Type} (db : SqliteDb V) (t : SqliteTableDdlDescriptor)
    (rows rows' : List (List V)) :
    (db.setTable (t.entry rows)).SameObjects (db.setTable (t.entry rows')) := by
  refine ⟨fun k => ?_, rfl, rfl⟩
  show (Function.update db.tables (identifierKey t.tableName) _ k).map _ =
    (Function.update db.tables (identifierKey t.tableName) _ k).map _
  by_cases hk : k = identifierKey t.tableName
  · subst hk
    rw [Function.update_self, Function.update_self]
    rfl
  · rw [Function.update_of_ne hk, Function.update_of_ne hk]

theorem notesDb_holds (body : String) : Holds notesSqlite (notesDb body)
    (completeInstall Int (fun _ => sampleDigest) beforeIndex).1 := by
  refine ⟨_, sameObjects_rows _ _ _ [], ?_⟩
  have hreads : Reads Int notesSqlite (notesTable []) := notes_reads (by simp)
  show (notesSqlite.exec .empty
    (renderSqliteTableDdlDescriptor Int (notesTable [])).createTable).bind _ = _
  rw [exec_createTable hreads, if_pos ⟨⟨rfl, rfl⟩, rfl⟩]
  rfl

theorem catalog_holds (install : List String) (h : install = []) :
    Holds notesSqlite .empty install := by
  subst h
  exact ⟨.empty, ⟨fun _ => rfl, rfl, rfl⟩, rfl⟩

theorem afterIndex_installs : ∃ db, notesSqlite.run .empty
    (completeInstall Int (fun _ => sampleDigest) afterIndex).1 = some db := by
  have hreads : Reads Int notesSqlite (notesTable [notesIndex]) := notes_reads (by simp)
  have hkeys : (notesTable [notesIndex]).keys.Nodup := by decide +kernel
  exact (run_create hreads describes_empty).1.mpr
    ⟨hkeys, fun u hu => hu.elim, rfl, fun _ _ => rfl⟩

/-- A row whose text is not JSON stops the migration, although the next snapshot installs. -/
theorem expressionIndex_refuses_row :
    (∃ m,
      diffAdditiveSchemaSnapshots Int (fun _ => sampleDigest) id beforeIndex afterIndex = .ok m ∧
      notesSqlite.run (notesDb "plain text") m.statements = none) ∧
    SnapshotReads Int (fun _ => sampleDigest) notesSqlite beforeIndex ∧
    SnapshotReads Int (fun _ => sampleDigest) notesSqlite afterIndex ∧
    Holds notesSqlite (notesDb "plain text")
      (completeInstall Int (fun _ => sampleDigest) beforeIndex).1 ∧
    ∃ db, notesSqlite.run .empty (completeInstall Int (fun _ => sampleDigest) afterIndex).1 =
      some db := by
  refine ⟨?_, notesSnapshot_reads _ _ (by simp), notesSnapshot_reads _ _ (by simp),
    notesDb_holds _, afterIndex_installs⟩
  obtain ⟨m, hdiff, hstatements⟩ := diff_expressionIndex
  refine ⟨m, hdiff, ?_⟩
  rw [hstatements]
  have hbuilds : notesSqlite.indexBuilds ((notesTable []).columns.map (·.sql)) notesIndex.sql false
      [[some "1", some "plain text"]] = false := by decide +kernel
  show (notesSqlite.exec (notesDb "plain text") notesIndex.sql).bind _ = none
  have hreads : Reads Int notesSqlite (notesTable [notesIndex]) := notes_reads (by simp)
  rw [exec_createIndex (d := notesTable []) (hreads.index notesIndex List.mem_cons_self)
    (notesDb_table _), if_neg]
  · rfl
  · rintro ⟨-, -, h⟩
    exact Bool.false_ne_true (hbuilds.symm.trans h)

/-- With a JSON text in the row the migration is correct. -/
theorem additiveDiff_correct_notes :
    ∃ m, diffAdditiveSchemaSnapshots Int (fun _ => sampleDigest) id beforeIndex afterIndex = .ok m ∧
      CorrectMigration Int (fun _ => sampleDigest) notesSqlite beforeIndex afterIndex m
        (notesDb "\x7b\"kind\":\"memo\"\x7d") .empty := by
  obtain ⟨m, hdiff, -⟩ := diff_expressionIndex
  refine ⟨m, hdiff, (additiveDiff_correct_iff hdiff (notesSnapshot_reads _ _ (by simp))
    (notesSnapshot_reads _ _ (by simp)) (notesDb_holds _) (catalog_holds _ rfl)).mpr
      ⟨afterIndex_installs, ⟨.empty, rfl⟩, fun n hn p hp t ht => ?_, fun n hn => (by cases hn)⟩⟩
  obtain rfl := List.mem_singleton.mp hn
  obtain rfl : notesTable [] = p := Option.some.inj hp
  have hrows : t.rows = [[some "1", some "\x7b\"kind\":\"memo\"\x7d"]] := by
    obtain rfl := Option.some.inj ((notesDb_table _).symm.trans ht)
    rfl
  rw [hrows]
  refine ⟨rfl, fun i hi => ?_⟩
  obtain ⟨hi, -⟩ := mem_addedIndexes.mp hi
  obtain rfl := List.mem_singleton.mp hi
  decide +kernel

end Chardb.Schema
