import Chardb.Schema.SchemaInstall

/-!
# Running a diff

A diff takes the tables one by one: it creates a new table, and adds columns and indexes to one that
is there. It runs exactly when SQLite takes the rows of each table with the columns and indexes that
are new.
-/

namespace Chardb.Schema

open Chardb.Lib

section
variable {V : Type} [DecidableEq V] {ν : Type} [JsNumber ν] {sqlite : Sqlite V}
  {db db' : SqliteDb V} {T : Set SqliteTableDdlDescriptor} {t u d p n : SqliteTableDdlDescriptor}

/-! ## An install -/

/-- A schema installs only where its names are distinct and SQLite takes every table. -/
theorem run_install {ts : List SqliteTableDdlDescriptor} (hread : ∀ t ∈ ts, Reads ν sqlite t)
    (h : Describes db T) (hrun : sqlite.run db (ts.flatMap (createStatements ν)) = some db') :
    Describes db' (T ∪ {t | t ∈ ts}) ∧ (ts.flatMap (·.keys)).Nodup ∧ (∀ t ∈ ts, Apart t T) ∧
      (∀ t ∈ ts, Valid sqlite t) ∧ db'.triggers = db.triggers := by
  induction ts generalizing db T with
  | nil =>
    obtain rfl := Option.some.inj hrun
    refine ⟨?_, List.nodup_nil, by simp, by simp, rfl⟩
    simpa using h
  | cons t ts ih =>
    rw [List.flatMap_cons, Sqlite.run_append] at hrun
    obtain ⟨db₁, hfirst, hrest⟩ := Option.bind_eq_some_iff.mp hrun
    obtain ⟨hsome, hresult⟩ := run_create (hread t List.mem_cons_self) h
    obtain ⟨hnodup, hapart, hvalid⟩ := hsome.mp ⟨db₁, hfirst⟩
    obtain ⟨h₁, -, htriggers⟩ := hresult db₁ hfirst
    obtain ⟨h', hnodup', hapart', hvalid', htriggers'⟩ :=
      ih (fun u hu => hread u (List.mem_cons_of_mem t hu)) h₁ hrest
    refine ⟨?_, ?_, ?_, ?_, htriggers'.trans htriggers⟩
    · have hset : insert t T ∪ {u | u ∈ ts} = T ∪ {u | u ∈ t :: ts} := by
        ext u
        simp only [Set.mem_union, Set.mem_insert_iff, Set.mem_ofPred_eq, List.mem_cons]
        tauto
      rwa [hset] at h'
    · rw [List.flatMap_cons, List.nodup_append']
      refine ⟨hnodup, hnodup', fun k hk hk' => ?_⟩
      obtain ⟨u, hu, hk'⟩ := List.mem_flatMap.mp hk'
      exact hapart' u hu t (Set.mem_insert t T) k hk' hk
    · rintro u (_ | ⟨_, hu⟩)
      · exact hapart
      · exact fun w hw => hapart' u hu w (Set.mem_insert_of_mem t hw)
    · rintro u (_ | ⟨_, hu⟩)
      · exact hvalid
      · exact hvalid' u hu

/-- In a list without repetition, an element comes from one place. -/
theorem eq_of_mem_flatMap {α β : Type} {f : α → List β} {xs : List α} (h : (xs.flatMap f).Nodup)
    {a b : α} (ha : a ∈ xs) (hb : b ∈ xs) {x : β} (hx : x ∈ f a) (hx' : x ∈ f b) : a = b := by
  induction xs with
  | nil => cases ha
  | cons y ys ih =>
    rw [List.flatMap_cons, List.nodup_append'] at h
    rcases List.mem_cons.mp ha with rfl | ha' <;> rcases List.mem_cons.mp hb with rfl | hb'
    · rfl
    · exact (h.2.2 hx (List.mem_flatMap.mpr ⟨b, hb', hx'⟩)).elim
    · exact (h.2.2 hx' (List.mem_flatMap.mpr ⟨a, ha', hx⟩)).elim
    · exact ih h.2.1 ha' hb'

theorem nodup_keys {ts : List SqliteTableDdlDescriptor} (h : (ts.flatMap (·.keys)).Nodup)
    (ht : t ∈ ts) : t.keys.Nodup := (List.nodup_flatMap.mp h).1 t ht

/-! ## Columns -/

/-- The rows after columns have been added one by one. -/
def Sqlite.addColumns (sqlite : Sqlite V) : List String → List String → List (List V) →
    Option (List (List V))
  | _, [], rows => some rows
  | columns, column :: added, rows =>
    if sqlite.columnOk columns column = true then
      (sqlite.extendRows column rows).bind (sqlite.addColumns (columns ++ [column]) added)
    else none

omit [DecidableEq V] in
theorem setTable_setTable {e e' : TableEntry V} (hname : e.name = e'.name) :
    (db.setTable e).setTable e' = db.setTable e' := by
  unfold SqliteDb.setTable
  rw [hname, Function.update_idem]

omit [DecidableEq V] in
theorem setTable_self {e : TableEntry V} (h : db.tables (identifierKey e.name) = some e) :
    db.setTable e = db := by
  unfold SqliteDb.setTable
  rw [← h, Function.update_eq_self]

omit [DecidableEq V] in
theorem setTable_entry (db : SqliteDb V) (t : SqliteTableDdlDescriptor) (rows : List (List V)) :
    (db.setTable (t.entry rows)).tables (identifierKey t.tableName) = some (t.entry rows) :=
  Function.update_self ..

theorem run_columns {added : List SqliteColumnDdlDescriptor} {rows : List (List V)}
    (hread : ∀ c ∈ added, sqlite.read (addColumnSql d.tableName c) =
      some (.addColumn d.tableName c.sql))
    (hcolumns : d.columns ≠ [])
    (htable : db.tables (identifierKey d.tableName) =
      some (d.entry rows)) :
    sqlite.run db (added.map (addColumnSql d.tableName)) =
      (sqlite.addColumns (d.columns.map (·.sql)) (added.map (·.sql)) rows).map fun rows =>
        db.setTable ({ d with columns := d.columns ++ added }.entry rows) := by
  induction added generalizing db d rows with
  | nil =>
    have hself : db.setTable (d.entry rows) = db := setTable_self htable
    simp only [List.map_nil, Sqlite.run, Sqlite.addColumns, List.append_nil, Option.map_some, hself]
  | cons c added ih =>
    rw [List.map_cons, Sqlite.run, exec_addColumn (hread c List.mem_cons_self) hcolumns htable,
      List.map_cons, Sqlite.addColumns]
    by_cases hok : sqlite.columnOk (d.columns.map (·.sql)) c.sql = true
    · rw [if_pos hok, if_pos hok]
      cases hrows : sqlite.extendRows c.sql rows with
      | none => rfl
      | some rows₁ =>
        let d₁ : SqliteTableDdlDescriptor := { d with columns := d.columns ++ [c] }
        have hne : d₁.columns ≠ [] :=
          List.append_ne_nil_of_right_ne_nil d.columns (List.cons_ne_nil c [])
        have hrest := ih (d := d₁) (fun x hx => hread x (List.mem_cons_of_mem c hx)) hne
          (setTable_entry db d₁ rows₁)
        rw [Option.map_some, Option.bind_some, Option.bind_some]
        refine hrest.trans ?_
        have hcolumns₁ : d₁.columns.map (·.sql) = d.columns.map (·.sql) ++ [c.sql] :=
          List.map_append
        have hadded : ({ d₁ with columns := d₁.columns ++ added } : SqliteTableDdlDescriptor) =
            { d with columns := d.columns ++ c :: added } := by
          simp only [d₁, List.append_assoc, List.singleton_append]
        rw [hcolumns₁, hadded]
        refine Option.map_congr fun rows' _ => setTable_setTable ?_
        rfl
    · rw [if_neg hok, if_neg hok]
      rfl

/-! ## A table that is in both snapshots -/

/-- The next table extends the previous one. -/
structure Extends (p n : SqliteTableDdlDescriptor) : Prop where
  name : n.tableName = p.tableName
  constraints : n.constraints = p.constraints
  columns : n.columns = p.columns ++ addedColumns p n
  indexes : ∀ i ∈ p.indexes, i ∈ n.indexes

/-- SQLite takes the rows of a table with its new columns, one by one, and with its new indexes. -/
def Takes (sqlite : Sqlite V) (p n : SqliteTableDdlDescriptor) (rows rows' : List (List V)) :
    Prop :=
  sqlite.addColumns (p.columns.map (·.sql)) ((addedColumns p n).map (·.sql)) rows = some rows' ∧
    ∀ i ∈ addedIndexes p n,
      sqlite.indexBuilds (n.columns.map (·.sql)) i.sql i.isUnique rows' = true

/-- The statements for a table that is in both snapshots. -/
def tableStatements (p n : SqliteTableDdlDescriptor) : List String :=
  (addedColumns p n).map (addColumnSql n.tableName) ++ (addedIndexes p n).map (·.sql)

theorem mem_addedIndexes {i : SqliteIndexDdlDescriptor} :
    i ∈ addedIndexes p n ↔ i ∈ n.indexes ∧ ∀ j ∈ p.indexes, j.name ≠ i.name := by
  simp [addedIndexes, List.mem_filter]

theorem Extends.keys_subset (h : Extends p n) : p.keys ⊆ n.keys := by
  intro k hk
  rcases List.mem_cons.mp hk with rfl | hk
  · rw [← h.name]
    exact List.mem_cons_self
  · obtain ⟨i, hi, rfl⟩ := List.mem_map.mp hk
    exact List.mem_cons_of_mem _ (List.mem_map_of_mem (h.indexes i hi))

/-- Indexes of one table with the same key are the same. -/
theorem index_eq_of_key (hnodup : n.keys.Nodup) {i j : SqliteIndexDdlDescriptor}
    (hi : i ∈ n.indexes) (hj : j ∈ n.indexes) (hk : identifierKey i.name = identifierKey j.name) :
    i = j :=
  List.inj_on_of_nodup_map (List.nodup_cons.mp hnodup).2 hi hj hk

/-- The old indexes and the new ones are those of the next table. -/
theorem Extends.mem_indexes (h : Extends p n) (hnodup : n.keys.Nodup)
    {i : SqliteIndexDdlDescriptor} : i ∈ p.indexes ++ addedIndexes p n ↔ i ∈ n.indexes := by
  rw [List.mem_append, mem_addedIndexes]
  constructor
  · rintro (hi | hi)
    · exact h.indexes i hi
    · exact hi.1
  · intro hi
    by_cases hold : ∀ j ∈ p.indexes, j.name ≠ i.name
    · exact .inr ⟨hi, hold⟩
    · push Not at hold
      obtain ⟨j, hj, hname⟩ := hold
      have : j = i := index_eq_of_key hnodup (h.indexes j hj) hi (congrArg identifierKey hname)
      exact .inl (this ▸ hj)

omit [DecidableEq V] in
/-- Only the members of the index list count. -/
theorem Describes.congr (h : Describes db (insert d T)) (hname : n.tableName = d.tableName)
    (hcolumns : n.columns = d.columns) (hconstraints : n.constraints = d.constraints)
    (hindexes : ∀ i, i ∈ d.indexes ↔ i ∈ n.indexes) : Describes db (insert n T) := by
  have hentry : (n.entry [] : TableEntry V) = d.entry [] := by
    simp only [SqliteTableDdlDescriptor.entry, hname, hcolumns, hconstraints]
  have hindex : ∀ i, n.indexEntry i = d.indexEntry i := fun i => by
    simp only [SqliteTableDdlDescriptor.indexEntry, hname]
  constructor
  · intro k e
    refine (h.tables k e).trans ⟨?_, ?_⟩
    · rintro ⟨u, rfl | hu, hk, he⟩
      · exact ⟨n, Set.mem_insert n T, hname ▸ hk, hentry ▸ he⟩
      · exact ⟨u, Set.mem_insert_of_mem n hu, hk, he⟩
    · rintro ⟨u, rfl | hu, hk, he⟩
      · exact ⟨d, Set.mem_insert d T, hname ▸ hk, hentry ▸ he⟩
      · exact ⟨u, Set.mem_insert_of_mem d hu, hk, he⟩
  · intro k e
    refine (h.indexes k e).trans ⟨?_, ?_⟩
    · rintro ⟨u, rfl | hu, i, hi, hk, he⟩
      · exact ⟨n, Set.mem_insert n T, i, (hindexes i).mp hi, hk, (hindex i).symm ▸ he⟩
      · exact ⟨u, Set.mem_insert_of_mem n hu, i, hi, hk, he⟩
    · rintro ⟨u, rfl | hu, i, hi, hk, he⟩
      · exact ⟨d, Set.mem_insert d T, i, (hindexes i).mpr hi, hk, hindex i ▸ he⟩
      · exact ⟨u, Set.mem_insert_of_mem d hu, i, hi, hk, he⟩

/-- The statements of one table run exactly when SQLite takes its rows. -/
theorem run_table (hx : Extends p n) (hread : Reads ν sqlite n) (hcolumns : p.columns ≠ [])
    (h : Describes db (insert p T)) (hapart : Apart n T) (hnodup : n.keys.Nodup)
    (hvalid : Valid sqlite n) {rows : List (List V)}
    (htable : db.tables (identifierKey n.tableName) = some (p.entry rows)) :
    ((∃ db', sqlite.run db (tableStatements p n) = some db') ↔
        ∃ rows', Takes sqlite p n rows rows') ∧
      ∀ db', sqlite.run db (tableStatements p n) = some db' → Describes db' (insert n T) ∧
        (∃ rows', Takes sqlite p n rows rows' ∧ db'.tables =
          Function.update db.tables (identifierKey n.tableName) (some (n.entry rows'))) ∧
        db'.triggers = db.triggers := by
  have hadd : sqlite.run db ((addedColumns p n).map (addColumnSql n.tableName)) =
      (sqlite.addColumns (p.columns.map (·.sql)) ((addedColumns p n).map (·.sql)) rows).map
        fun rows => db.setTable (n.entry rows) := by
    have hreads : ∀ c ∈ addedColumns p n, sqlite.read (addColumnSql p.tableName c) =
        some (.addColumn p.tableName c.sql) := fun c hc => by
      rw [← hx.name]
      exact hread.column c (hx.columns ▸ List.mem_append_right _ hc)
    rw [hx.name] at htable ⊢
    rw [run_columns hreads hcolumns htable]
    refine Option.map_congr fun rows' _ => congrArg db.setTable ?_
    simp only [SqliteTableDdlDescriptor.entry, hx.name, hx.constraints, ← hx.columns]
  rw [tableStatements, Sqlite.run_append, hadd]
  cases hrows : sqlite.addColumns (p.columns.map (·.sql)) ((addedColumns p n).map (·.sql)) rows with
  | none =>
    refine ⟨⟨by rintro ⟨_, ⟨⟩⟩, ?_⟩, fun db' hdb' => (by cases hdb')⟩
    rintro ⟨rows', h, -⟩
    rw [hrows] at h
    cases h
  | some rows' =>
    rw [Option.map_some, Option.bind_some]
    let d : SqliteTableDdlDescriptor := { n with indexes := p.indexes }
    have hd : Describes (db.setTable (d.entry rows')) (insert d T) := by
      refine h.replaceTable (t := d) hx.name rfl (fun u hu k hk => ?_) rows'
      exact hapart u hu k (hx.keys_subset hk)
    have hfree : FreshIndexes (db.setTable (n.entry rows')) (addedIndexes p n) := by
      constructor
      · exact (List.nodup_cons.mp hnodup).2.sublist (List.filter_sublist.map _)
      · intro i hi
        obtain ⟨hi, hnew⟩ := mem_addedIndexes.mp hi
        have hkey : identifierKey i.name ∈ n.keys :=
          List.mem_cons_of_mem _ (List.mem_map_of_mem hi)
        refine (hd.free_iff i.name).mpr ?_
        rintro u (rfl | hu) hk
        · rcases List.mem_cons.mp hk with hk | hk
          · exact (List.nodup_cons.mp hnodup).1 (hk ▸ List.mem_map_of_mem hi)
          · obtain ⟨j, hj, hk⟩ := List.mem_map.mp hk
            exact hnew j hj (congrArg _ (index_eq_of_key hnodup (hx.indexes j hj) hi hk))
        · exact hapart u hu _ hkey hk
    have hreads : ∀ i ∈ addedIndexes p n,
        sqlite.read i.sql = some (.createIndex i.name d.tableName i.isUnique) :=
      fun i hi => hread.index i (mem_addedIndexes.mp hi).1
    obtain ⟨hsome, hresult⟩ := run_indexes hreads hd (setTable_entry db d rows')
    refine ⟨hsome.trans ⟨fun h => ?_, fun h => ?_⟩, fun db' hdb' => ?_⟩
    · exact ⟨rows', hrows, fun i hi => (h.2 i hi).2⟩
    · obtain ⟨rows'', h, hbuilds⟩ := h
      obtain rfl := Option.some.inj (hrows.symm.trans h)
      exact ⟨hfree, fun i hi => ⟨hvalid.2 i (mem_addedIndexes.mp hi).1, hbuilds i hi⟩⟩
    · obtain ⟨hdescribes, htables, htriggers⟩ := hresult db' hdb'
      have hbuilds := (hsome.mp ⟨db', hdb'⟩).2
      refine ⟨?_, ⟨rows', ⟨hrows, fun i hi => (hbuilds i hi).2⟩, htables⟩, htriggers⟩
      exact hdescribes.congr rfl rfl rfl fun i => hx.mem_indexes hnodup

end

end Chardb.Schema
