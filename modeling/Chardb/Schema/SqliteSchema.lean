import Chardb.Schema.SqliteDdl

/-!
# Databases that hold a schema

`Describes` says that a database has the tables and indexes of a set of descriptors. Each statement
of an install or of a diff changes one descriptor of the set.
-/

namespace Chardb.Schema

open Chardb.Lib

/-! ## The text of a table -/

/-- The text of a table up to its last column. -/
def textBefore (table : String) (columns : List String) : String :=
  "CREATE TABLE " ++ quoteIdentifier table ++ " (" ++ ", ".intercalate columns

def textAfter (constraints : List String) : String :=
  String.join (constraints.map (", " ++ ·)) ++ ")"

theorem intercalate_append (sep : String) {xs : List String} (hxs : xs ≠ []) (ys : List String) :
    sep.intercalate (xs ++ ys) = sep.intercalate xs ++ String.join (ys.map (sep ++ ·)) := by
  cases xs with
  | nil => exact absurd rfl hxs
  | cons x xs =>
    clear hxs
    induction xs generalizing x with
    | nil =>
      induction ys generalizing x with
      | nil => simp
      | cons y ys ih =>
        have hy := ih y
        rw [List.singleton_append] at hy
        rw [List.singleton_append, String.intercalate_cons_cons, hy, List.map_cons,
          String.join_cons]
        simp [String.append_assoc]
    | cons z xs ih =>
      rw [List.cons_append, List.cons_append, String.intercalate_cons_cons,
        String.intercalate_cons_cons, ← List.cons_append, ih]
      simp only [String.append_assoc]

theorem createTable_eq (ν : Type) [JsNumber ν] {t : SqliteTableDdlDescriptor} (h : t.columns ≠ []) :
    (renderSqliteTableDdlDescriptor ν t).createTable =
      textBefore t.tableName (t.columns.map (·.sql)) ++ textAfter (t.constraints.map (·.sql)) := by
  show _ ++ ", ".intercalate (_ ++ _) ++ ")" = _
  rw [intercalate_append _ (by simpa using h), textBefore, textAfter]
  simp only [String.append_assoc]

theorem textBefore_append (table : String) (columns : List String) (h : columns ≠ []) (c : String) :
    textBefore table (columns ++ [c]) = textBefore table columns ++ ", " ++ c := by
  rw [textBefore, intercalate_append _ h, textBefore, List.map_singleton]
  simp [String.join, String.append_assoc]

/-! ## Reading the statements of a descriptor -/

section
variable {V : Type}

/-- The entry of a table with these rows. -/
def SqliteTableDdlDescriptor.entry (t : SqliteTableDdlDescriptor) (rows : List (List V)) :
    TableEntry V where
  name := t.tableName
  columns := t.columns.map (·.sql)
  constraints := t.constraints.map (·.sql)
  textBefore := textBefore t.tableName (t.columns.map (·.sql))
  textAfter := textAfter (t.constraints.map (·.sql))
  rows

def SqliteTableDdlDescriptor.indexEntry (t : SqliteTableDdlDescriptor)
    (i : SqliteIndexDdlDescriptor) : AttachedEntry :=
  ⟨i.name, t.tableName, i.sql⟩

/-- SQLite reads the SQL of a table as its descriptor says: the column and constraint definitions
one by one, and each index under its name, on the table. -/
structure Reads (ν : Type) [JsNumber ν] (sqlite : Sqlite V) (t : SqliteTableDdlDescriptor) :
    Prop where
  table : sqlite.read (renderSqliteTableDdlDescriptor ν t).createTable =
    some (.createTable t.tableName (t.columns.map (·.sql)) (t.constraints.map (·.sql))
      (textBefore t.tableName (t.columns.map (·.sql))) (textAfter (t.constraints.map (·.sql))))
  index : ∀ i ∈ t.indexes, sqlite.read i.sql = some (.createIndex i.name t.tableName i.isUnique)
  column : ∀ c ∈ t.columns, sqlite.read (addColumnSql t.tableName c) =
    some (.addColumn t.tableName c.sql)

/-! ## Descriptions -/

/-- The tables and indexes of a database are those of the descriptors. -/
structure Describes (db : SqliteDb V) (T : Set SqliteTableDdlDescriptor) : Prop where
  tables : ∀ k e, (db.tables k).map (·.shape) = some e ↔
    ∃ t ∈ T, identifierKey t.tableName = k ∧ e = t.entry []
  indexes : ∀ k e, db.indexes k = some e ↔
    ∃ t ∈ T, ∃ i ∈ t.indexes, identifierKey i.name = k ∧ e = t.indexEntry i

theorem describes_empty : Describes (.empty : SqliteDb V) ∅ where
  tables k e := by simp [SqliteDb.empty]
  indexes k e := by simp [SqliteDb.empty]

variable {db db' : SqliteDb V} {T T' : Set SqliteTableDdlDescriptor}

/-- The descriptors fix the objects. -/
theorem Describes.unique (h : Describes db T) (h' : Describes db' T) :
    (∀ k, (db.tables k).map (·.shape) = (db'.tables k).map (·.shape)) ∧
      db.indexes = db'.indexes := by
  refine ⟨fun k => Option.ext fun e => (h.tables k e).trans (h'.tables k e).symm, ?_⟩
  exact funext fun k => Option.ext fun e => (h.indexes k e).trans (h'.indexes k e).symm

/-- Databases with the same tables and indexes hold the same descriptors. -/
theorem Describes.of_same (h : Describes db T)
    (htables : ∀ k, (db'.tables k).map (·.shape) = (db.tables k).map (·.shape))
    (hindexes : db'.indexes = db.indexes) : Describes db' T where
  tables k e := by rw [htables, h.tables]
  indexes k e := by rw [hindexes, h.indexes]

/-- The keys of a descriptor: its own and those of its indexes. -/
def SqliteTableDdlDescriptor.keys (t : SqliteTableDdlDescriptor) : List String :=
  identifierKey t.tableName :: t.indexes.map fun i => identifierKey i.name

theorem Describes.free_iff (h : Describes db T) (name : String) :
    db.Free name ↔ ∀ t ∈ T, identifierKey name ∉ t.keys := by
  simp only [SqliteDb.Free, SqliteTableDdlDescriptor.keys, List.mem_cons, List.mem_map, not_or,
    not_exists, not_and]
  constructor
  · rintro ⟨htable, hindex⟩ t ht
    refine ⟨fun hk => ?_, fun i hi hk => ?_⟩
    · have := (h.tables (identifierKey name) (t.entry [])).mpr ⟨t, ht, hk.symm, rfl⟩
      rw [htable] at this
      cases this
    · have := (h.indexes (identifierKey name) (t.indexEntry i)).mpr ⟨t, ht, i, hi, hk, rfl⟩
      rw [hindex] at this
      cases this
  · intro hkeys
    constructor
    · cases htable : db.tables (identifierKey name) with
      | none => rfl
      | some e =>
        obtain ⟨t, ht, hk, -⟩ := (h.tables (identifierKey name) e.shape).mp (by rw [htable]; rfl)
        exact absurd hk.symm (hkeys t ht).1
    · cases hindex : db.indexes (identifierKey name) with
      | none => rfl
      | some e =>
        obtain ⟨t, ht, i, hi, hk, -⟩ := (h.indexes (identifierKey name) e).mp hindex
        exact absurd hk ((hkeys t ht).2 i hi)

theorem Describes.table_eq (h : Describes db T) {t : SqliteTableDdlDescriptor} (ht : t ∈ T) :
    ∃ rows, db.tables (identifierKey t.tableName) = some (t.entry rows) := by
  have := (h.tables (identifierKey t.tableName) (t.entry [])).mpr ⟨t, ht, rfl, rfl⟩
  obtain ⟨e, he, hshape⟩ := Option.map_eq_some_iff.mp this
  refine ⟨e.rows, he.trans (congrArg some ?_)⟩
  calc e = { e.shape with rows := e.rows } := rfl
    _ = t.entry e.rows := by rw [hshape]; rfl

/-- Descriptors with the same keys in no two of them. -/
def Apart (t : SqliteTableDdlDescriptor) (T : Set SqliteTableDdlDescriptor) : Prop :=
  ∀ u ∈ T, ∀ k ∈ t.keys, k ∉ u.keys

/-- A new table. -/
theorem Describes.setTable (h : Describes db T) {t : SqliteTableDdlDescriptor}
    (hindexes : t.indexes = []) (hfree : db.Free t.tableName) :
    Describes (db.setTable (t.entry [])) (insert t T) where
  tables k e := by
    show (Function.update db.tables (identifierKey t.tableName) (some (t.entry [])) k).map _ = _ ↔ _
    by_cases hk : k = identifierKey t.tableName
    · subst hk
      rw [Function.update_self]
      constructor
      · rintro ⟨rfl⟩
        exact ⟨t, Set.mem_insert t T, rfl, rfl⟩
      · rintro ⟨u, rfl | hu, hk, rfl⟩
        · rfl
        · exact absurd (List.mem_cons.mpr (.inl hk.symm)) ((h.free_iff t.tableName).mp hfree u hu)
    · rw [Function.update_of_ne hk, h.tables]
      constructor
      · rintro ⟨u, hu, he⟩
        exact ⟨u, Set.mem_insert_of_mem t hu, he⟩
      · rintro ⟨u, rfl | hu, he⟩
        · exact absurd he.1.symm hk
        · exact ⟨u, hu, he⟩
  indexes k e := by
    refine (h.indexes k e).trans ⟨?_, ?_⟩
    · rintro ⟨u, hu, he⟩
      exact ⟨u, Set.mem_insert_of_mem t hu, he⟩
    · rintro ⟨u, rfl | hu, i, hi, he⟩
      · rw [hindexes] at hi
        cases hi
      · exact ⟨u, hu, i, hi, he⟩

/-- A table in place of one of the same name with the same indexes. -/
theorem Describes.replaceTable {d t : SqliteTableDdlDescriptor} (h : Describes db (insert d T))
    (hname : t.tableName = d.tableName) (hindexes : t.indexes = d.indexes) (hapart : Apart d T)
    (rows : List (List V)) :
    Describes (db.setTable (t.entry rows)) (insert t T) where
  tables k e := by
    show (Function.update db.tables (identifierKey t.tableName) (some _) k).map _ = _ ↔ _
    by_cases hk : k = identifierKey t.tableName
    · subst hk
      rw [Function.update_self]
      constructor
      · rintro ⟨rfl⟩
        exact ⟨t, Set.mem_insert t T, rfl, rfl⟩
      · rintro ⟨u, rfl | hu, hk, rfl⟩
        · rfl
        · refine absurd (List.mem_cons.mpr (.inl hk.symm)) (hapart u hu _ ?_)
          rw [hname]
          exact List.mem_cons_self
    · rw [Function.update_of_ne hk, h.tables]
      constructor
      · rintro ⟨u, rfl | hu, he⟩
        · exact absurd (he.1.symm.trans (congrArg identifierKey hname.symm)) hk
        · exact ⟨u, Set.mem_insert_of_mem t hu, he⟩
      · rintro ⟨u, rfl | hu, he⟩
        · exact absurd he.1.symm hk
        · exact ⟨u, Set.mem_insert_of_mem d hu, he⟩
  indexes k e := by
    have hentry : ∀ i, t.indexEntry i = d.indexEntry i := fun i => by
      simp only [SqliteTableDdlDescriptor.indexEntry, hname]
    refine (h.indexes k e).trans ⟨?_, ?_⟩
    · rintro ⟨u, rfl | hu, i, hi, he⟩
      · exact ⟨t, Set.mem_insert t T, i, hindexes ▸ hi, he.1, (hentry i).symm ▸ he.2⟩
      · exact ⟨u, Set.mem_insert_of_mem t hu, i, hi, he⟩
    · rintro ⟨u, rfl | hu, i, hi, he⟩
      · exact ⟨d, Set.mem_insert d T, i, hindexes ▸ hi, he.1, hentry i ▸ he.2⟩
      · exact ⟨u, Set.mem_insert_of_mem d hu, i, hi, he⟩

/-- An index more. -/
theorem Describes.setIndex {d : SqliteTableDdlDescriptor} (h : Describes db (insert d T))
    {i : SqliteIndexDdlDescriptor} (hfree : db.Free i.name) :
    Describes (db.setIndex (d.indexEntry i)) (insert { d with indexes := d.indexes ++ [i] } T) where
  tables k e := by
    refine (h.tables k e).trans ⟨?_, ?_⟩
    · rintro ⟨u, rfl | hu, he⟩
      · exact ⟨_, Set.mem_insert _ T, he⟩
      · exact ⟨u, Set.mem_insert_of_mem _ hu, he⟩
    · rintro ⟨u, rfl | hu, he⟩
      · exact ⟨d, Set.mem_insert d T, he⟩
      · exact ⟨u, Set.mem_insert_of_mem d hu, he⟩
  indexes k e := by
    show Function.update db.indexes (identifierKey i.name) (some (d.indexEntry i)) k = some e ↔ _
    have hold : ∀ u ∈ insert d T, ∀ j ∈ u.indexes, identifierKey j.name ≠ identifierKey i.name :=
      fun u hu j hj hk => (h.free_iff i.name).mp hfree u hu
        (List.mem_cons.mpr (.inr (List.mem_map.mpr ⟨j, hj, hk⟩)))
    by_cases hk : k = identifierKey i.name
    · subst hk
      rw [Function.update_self]
      constructor
      · rintro ⟨rfl⟩
        have hi := List.mem_append_right d.indexes (List.mem_singleton_self i)
        exact ⟨_, Set.mem_insert _ T, i, hi, rfl, rfl⟩
      · rintro ⟨u, rfl | hu, j, hj, hk, rfl⟩
        · rcases List.mem_append.mp hj with hj | hj
          · exact absurd hk (hold d (Set.mem_insert d T) j hj)
          · rw [List.mem_singleton.mp hj]
            rfl
        · exact absurd hk (hold u (Set.mem_insert_of_mem d hu) j hj)
    · rw [Function.update_of_ne hk, h.indexes]
      constructor
      · rintro ⟨u, rfl | hu, j, hj, he⟩
        · exact ⟨_, Set.mem_insert _ T, j, List.mem_append_left _ hj, he⟩
        · exact ⟨u, Set.mem_insert_of_mem _ hu, j, hj, he⟩
      · rintro ⟨u, rfl | hu, j, hj, he⟩
        · rcases List.mem_append.mp hj with hj | hj
          · exact ⟨d, Set.mem_insert d T, j, hj, he⟩
          · rw [List.mem_singleton.mp hj] at he
            exact absurd he.1.symm hk
        · exact ⟨u, Set.mem_insert_of_mem d hu, j, hj, he⟩

end

end Chardb.Schema
