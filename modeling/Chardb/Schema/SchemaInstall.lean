import Chardb.Schema.SqliteSchema

/-!
# Installing a schema

The statements of an install run exactly when no two names are the same and SQLite takes each
definition; the database then holds the descriptors.
-/

namespace Chardb.Schema

open Chardb.Lib

section
variable {V : Type} [DecidableEq V] {ν : Type} [JsNumber ν] {sqlite : Sqlite V}
  {db db' : SqliteDb V} {T : Set SqliteTableDdlDescriptor} {t d : SqliteTableDdlDescriptor}

/-- SQLite takes the definitions of a table and of its indexes. -/
def Valid (sqlite : Sqlite V) (t : SqliteTableDdlDescriptor) : Prop :=
  sqlite.tableOk (t.columns.map (·.sql)) (t.constraints.map (·.sql)) = true ∧
    ∀ i ∈ t.indexes, sqlite.indexOk (t.columns.map (·.sql)) i.sql = true

theorem indexBuilds_nil (columns : List String) (sql : String) (isUnique : Bool) :
    sqlite.indexBuilds columns sql isUnique [] = true := by
  simp [Sqlite.indexBuilds]

/-! ## One statement -/

theorem exec_createTable (h : Reads ν sqlite t) :
    sqlite.exec db (renderSqliteTableDdlDescriptor ν t).createTable =
      if db.Free t.tableName ∧
          sqlite.tableOk (t.columns.map (·.sql)) (t.constraints.map (·.sql)) = true then
        some (db.setTable (t.entry []))
      else none := by
  rw [Sqlite.exec, h.table]
  rfl

theorem exec_createIndex {i : SqliteIndexDdlDescriptor} {rows : List (List V)}
    (hread : sqlite.read i.sql = some (.createIndex i.name d.tableName i.isUnique))
    (htable : db.tables (identifierKey d.tableName) =
      some (d.entry rows)) :
    sqlite.exec db i.sql =
      if db.Free i.name ∧ sqlite.indexOk (d.columns.map (·.sql)) i.sql = true ∧
          sqlite.indexBuilds (d.columns.map (·.sql)) i.sql i.isUnique rows = true then
        some (db.setIndex (d.indexEntry i))
      else none := by
  rw [Sqlite.exec, hread]
  dsimp only
  rw [htable]
  rfl

theorem exec_addColumn {c : SqliteColumnDdlDescriptor} {rows : List (List V)}
    (hread : sqlite.read (addColumnSql d.tableName c) = some (.addColumn d.tableName c.sql))
    (hcolumns : d.columns ≠ [])
    (htable : db.tables (identifierKey d.tableName) =
      some (d.entry rows)) :
    sqlite.exec db (addColumnSql d.tableName c) =
      if sqlite.columnOk (d.columns.map (·.sql)) c.sql = true then
        (sqlite.extendRows c.sql rows).map fun rows =>
          db.setTable ({ d with columns := d.columns ++ [c] }.entry rows)
      else none := by
  rw [Sqlite.exec, hread]
  dsimp only
  rw [htable]
  have hbefore := textBefore_append d.tableName (d.columns.map (·.sql)) (by simpa using hcolumns)
    c.sql
  simp only [SqliteTableDdlDescriptor.entry, List.map_append, List.map_singleton, hbefore]
  rfl

/-! ## The indexes of a table -/

omit [DecidableEq V] in
theorem free_setIndex {i : AttachedEntry} {name : String} :
    (db.setIndex i).Free name ↔ db.Free name ∧ identifierKey name ≠ identifierKey i.name := by
  unfold SqliteDb.Free SqliteDb.setIndex
  by_cases hk : identifierKey name = identifierKey i.name
  · simp [hk]
  · simp [hk]

/-- The keys of these indexes are free and distinct. -/
def FreshIndexes (db : SqliteDb V) (indexes : List SqliteIndexDdlDescriptor) : Prop :=
  (indexes.map fun i => identifierKey i.name).Nodup ∧ ∀ i ∈ indexes, db.Free i.name

omit [DecidableEq V] in
theorem freshIndexes_cons {i : SqliteIndexDdlDescriptor} {is : List SqliteIndexDdlDescriptor} :
    FreshIndexes db (i :: is) ↔
      db.Free i.name ∧ FreshIndexes (db.setIndex (d.indexEntry i)) is := by
  unfold FreshIndexes
  simp only [List.map_cons, List.nodup_cons, List.mem_map, not_exists, not_and,
    List.forall_mem_cons, free_setIndex]
  constructor
  · rintro ⟨⟨hnew, hnodup⟩, hfree, hrest⟩
    exact ⟨hfree, hnodup, fun j hj => ⟨hrest j hj, hnew j hj⟩⟩
  · rintro ⟨hfree, hnodup, hrest⟩
    exact ⟨⟨fun j hj => (hrest j hj).2, hnodup⟩, hfree, fun j hj => (hrest j hj).1⟩

/-- Indexes run on a table exactly when their names are new and each takes the rows. -/
theorem run_indexes {is : List SqliteIndexDdlDescriptor} {rows : List (List V)}
    (hread : ∀ i ∈ is, sqlite.read i.sql = some (.createIndex i.name d.tableName i.isUnique))
    (h : Describes db (insert d T))
    (htable : db.tables (identifierKey d.tableName) =
      some (d.entry rows)) :
    ((∃ db', sqlite.run db (is.map (·.sql)) = some db') ↔ FreshIndexes db is ∧ ∀ i ∈ is,
        sqlite.indexOk (d.columns.map (·.sql)) i.sql = true ∧
          sqlite.indexBuilds (d.columns.map (·.sql)) i.sql i.isUnique rows = true) ∧
      ∀ db', sqlite.run db (is.map (·.sql)) = some db' →
        Describes db' (insert { d with indexes := d.indexes ++ is } T) ∧
          db'.tables = db.tables ∧ db'.triggers = db.triggers := by
  induction is generalizing db d with
  | nil =>
    refine ⟨⟨fun _ => ⟨⟨List.nodup_nil, by simp⟩, by simp⟩, fun _ => ⟨db, rfl⟩⟩, ?_⟩
    rintro db' ⟨⟩
    rw [List.append_nil]
    exact ⟨h, rfl, rfl⟩
  | cons i is ih =>
    have hi := exec_createIndex (hread i List.mem_cons_self) htable
    rw [List.map_cons, Sqlite.run, hi, freshIndexes_cons (d := d), List.forall_mem_cons]
    by_cases hcond : db.Free i.name ∧ sqlite.indexOk (d.columns.map (·.sql)) i.sql = true ∧
        sqlite.indexBuilds (d.columns.map (·.sql)) i.sql i.isUnique rows = true
    · have hset := h.setIndex (i := i) hcond.1
      obtain ⟨hrun, hresult⟩ := ih (d := { d with indexes := d.indexes ++ [i] })
        (fun j hj => hread j (List.mem_cons_of_mem i hj)) hset htable
      rw [if_pos hcond, Option.bind_some, hrun]
      refine ⟨?_, fun db' hdb' => ?_⟩
      · constructor
        · rintro ⟨hfresh, hall⟩
          exact ⟨⟨hcond.1, hfresh⟩, hcond.2, hall⟩
        · rintro ⟨⟨-, hfresh⟩, -, hall⟩
          exact ⟨hfresh, hall⟩
      · obtain ⟨hdescribes, htables, htriggers⟩ := hresult db' hdb'
        rw [List.append_assoc] at hdescribes
        exact ⟨hdescribes, htables, htriggers⟩
    · rw [if_neg hcond]
      refine ⟨⟨by rintro ⟨_, ⟨⟩⟩, fun h => absurd ⟨h.1.1, h.2.1⟩ hcond⟩, ?_⟩
      intro db' hdb'
      cases hdb'

/-! ## A whole table -/

omit [DecidableEq V] in
theorem free_setTable {e : TableEntry V} {name : String} :
    (db.setTable e).Free name ↔ db.Free name ∧ identifierKey name ≠ identifierKey e.name := by
  unfold SqliteDb.Free SqliteDb.setTable
  by_cases hk : identifierKey name = identifierKey e.name
  · simp [hk]
  · simp [hk]

/-- A table is created exactly when its names are new and distinct and SQLite takes it. -/
theorem run_create (hread : Reads ν sqlite t) (h : Describes db T) :
    ((∃ db', sqlite.run db (createStatements ν t) = some db') ↔
        t.keys.Nodup ∧ Apart t T ∧ Valid sqlite t) ∧
      ∀ db', sqlite.run db (createStatements ν t) = some db' → Describes db' (insert t T) ∧
        db'.tables = Function.update db.tables (identifierKey t.tableName) (some (t.entry [])) ∧
        db'.triggers = db.triggers := by
  have hrun : sqlite.run db (createStatements ν t) =
      (sqlite.exec db (renderSqliteTableDdlDescriptor ν t).createTable).bind fun db =>
        sqlite.run db (t.indexes.map (·.sql)) := rfl
  rw [hrun, exec_createTable hread]
  have hkeys : (t.keys.Nodup ∧ Apart t T) ↔
      db.Free t.tableName ∧ FreshIndexes (db.setTable (t.entry [])) t.indexes := by
    have hname : (t.entry ([] : List (List V))).name = t.tableName := rfl
    simp only [FreshIndexes, free_setTable, h.free_iff, hname, Apart]
    simp only [SqliteTableDdlDescriptor.keys, List.nodup_cons, List.mem_map, not_exists, not_and,
      List.forall_mem_cons]
    constructor
    · rintro ⟨⟨hnew, hnodup⟩, hapart⟩
      exact ⟨fun u hu => (hapart u hu).1, hnodup,
        fun i hi => ⟨fun u hu => (hapart u hu).2 _ ⟨i, hi, rfl⟩, hnew i hi⟩⟩
    · rintro ⟨hfree, hnodup, hall⟩
      refine ⟨⟨fun i hi => (hall i hi).2, hnodup⟩, fun u hu => ⟨hfree u hu, fun k hk => ?_⟩⟩
      obtain ⟨i, hi, rfl⟩ := hk
      exact (hall i hi).1 u hu
  by_cases hcond : db.Free t.tableName ∧
      sqlite.tableOk (t.columns.map (·.sql)) (t.constraints.map (·.sql)) = true
  · have hbare : Describes (db.setTable (t.entry [])) (insert { t with indexes := [] } T) :=
      h.setTable (t := { t with indexes := [] }) rfl hcond.1
    have htable : (db.setTable (t.entry [])).tables (identifierKey t.tableName) =
        some (t.entry []) := Function.update_self ..
    obtain ⟨hsome, hresult⟩ := run_indexes (d := { t with indexes := [] }) hread.index hbare htable
    rw [if_pos hcond, Option.bind_some]
    refine ⟨hsome.trans ?_, fun db' hdb' => ?_⟩
    · rw [← and_assoc, hkeys]
      constructor
      · rintro ⟨hfresh, hall⟩
        exact ⟨⟨hcond.1, hfresh⟩, hcond.2, fun i hi => (hall i hi).1⟩
      · rintro ⟨⟨-, hfresh⟩, -, hall⟩
        exact ⟨hfresh, fun i hi => ⟨hall i hi, indexBuilds_nil _ _ _⟩⟩
    · obtain ⟨hdescribes, htables, htriggers⟩ := hresult db' hdb'
      exact ⟨hdescribes, htables, htriggers⟩
  · rw [if_neg hcond, ← and_assoc, hkeys]
    refine ⟨⟨by rintro ⟨_, ⟨⟩⟩, fun h => absurd ⟨h.1.1, h.2.1⟩ hcond⟩, ?_⟩
    intro db' hdb'
    cases hdb'

end

end Chardb.Schema
