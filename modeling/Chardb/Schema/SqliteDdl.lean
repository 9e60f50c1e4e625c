import Chardb.Schema.SnapshotDiff
import Mathlib.Logic.Function.Basic

/-!
# DDL as SQLite executes it

A database is its tables with their rows, its indexes and its triggers, under the case-folded names.
How SQLite reads a text, and how a definition or an index expression applies to a row, are
parameters; what it stores for a statement is not.
-/

namespace Chardb.Schema

open Chardb.Lib

/-! ## Databases -/

/-- A table as `sqlite_master` and its rows have it. The text is split after the last column, where
`ADD COLUMN` inserts. -/
structure TableEntry (V : Type) where
  name : String
  columns : List String
  constraints : List String
  textBefore : String
  textAfter : String
  rows : List (List V)

/-- The `sql` of `sqlite_master`. -/
def TableEntry.sql {V : Type} (t : TableEntry V) : String := t.textBefore ++ t.textAfter

/-- An index or a trigger. -/
structure AttachedEntry where
  name : String
  tableName : String
  sql : String

structure SqliteDb (V : Type) where
  tables : String → Option (TableEntry V)
  indexes : String → Option AttachedEntry
  triggers : String → Option AttachedEntry

/-- Identifiers are the same up to the case of ASCII letters. -/
def identifierKey (name : String) : String := String.ofList (name.toList.map Char.toLower)

/-- What is left of a table without its rows. -/
def TableEntry.shape {V : Type} (t : TableEntry V) : TableEntry V := { t with rows := [] }

/-- Two databases have the same tables, indexes and triggers, with any rows. -/
def SqliteDb.SameObjects {V : Type} (a b : SqliteDb V) : Prop :=
  (∀ k, (a.tables k).map (·.shape) = (b.tables k).map (·.shape)) ∧ a.indexes = b.indexes ∧
    a.triggers = b.triggers

def SqliteDb.empty {V : Type} : SqliteDb V := ⟨fun _ => none, fun _ => none, fun _ => none⟩

/-! ## Statements -/

/-- What SQLite reads from the text of a statement. -/
inductive DdlStatement
  | createTable (table : String) (columns constraints : List String) (textBefore textAfter : String)
  | addColumn (table column : String)
  | createIndex (index table : String) (isUnique : Bool)
  | createTrigger (trigger table : String)

/-- The parts of SQLite that read SQL text. -/
structure Sqlite (V : Type) where
  null : V
  read : String → Option DdlStatement
  /-- A table with these columns and constraints can be created. -/
  tableOk : List String → List String → Bool
  /-- A column with this definition can be added after these columns. -/
  columnOk : List String → String → Bool
  /-- The value of an added column in a row, unless the row refuses it. -/
  addedValue : String → List V → Option V
  /-- An index of a table with these columns can be declared. -/
  indexOk : List String → String → Bool
  /-- The key of a row in an index, where its expressions have a value; a partial index leaves rows
  out. -/
  indexKey : List String → String → List V → Option (Option (List V))
  triggerOk : List String → String → Bool

section
variable {V : Type} [DecidableEq V] (sqlite : Sqlite V)

/-- The index takes the rows: each of them has a key, and the keys of a unique index without a null
are distinct. -/
def Sqlite.indexBuilds (columns : List String) (sql : String) (isUnique : Bool)
    (rows : List (List V)) : Bool :=
  match rows.mapM (sqlite.indexKey columns sql) with
  | none => false
  | some keys =>
    !isUnique || decide ((keys.filterMap id).filter fun key => sqlite.null ∉ key).Nodup

/-- Every row with the value of an added column. -/
def Sqlite.extendRows (column : String) (rows : List (List V)) : Option (List (List V)) :=
  rows.mapM fun row => (sqlite.addedValue column row).map fun value => row ++ [value]

/-- A name that no table and no index has. -/
def SqliteDb.Free (db : SqliteDb V) (name : String) : Prop :=
  db.tables (identifierKey name) = none ∧ db.indexes (identifierKey name) = none

instance (db : SqliteDb V) (name : String) : Decidable (db.Free name) :=
  decidable_of_iff ((db.tables (identifierKey name)).isNone ∧
    (db.indexes (identifierKey name)).isNone) (by
      simp only [SqliteDb.Free, Option.isNone_iff_eq_none])

def SqliteDb.setTable (db : SqliteDb V) (t : TableEntry V) : SqliteDb V :=
  { db with tables := Function.update db.tables (identifierKey t.name) (some t) }

def SqliteDb.setIndex (db : SqliteDb V) (i : AttachedEntry) : SqliteDb V :=
  { db with indexes := Function.update db.indexes (identifierKey i.name) (some i) }

def SqliteDb.setTrigger (db : SqliteDb V) (t : AttachedEntry) : SqliteDb V :=
  { db with triggers := Function.update db.triggers (identifierKey t.name) (some t) }

/-- One statement; `none` where SQLite refuses it. -/
def Sqlite.exec (db : SqliteDb V) (sql : String) : Option (SqliteDb V) :=
  match sqlite.read sql with
  | none => none
  | some (.createTable name columns constraints textBefore textAfter) =>
    if db.Free name ∧ sqlite.tableOk columns constraints = true then
      some (db.setTable ⟨name, columns, constraints, textBefore, textAfter, []⟩)
    else none
  | some (.addColumn table column) =>
    match db.tables (identifierKey table) with
    | none => none
    | some t =>
      if sqlite.columnOk t.columns column = true then
        (sqlite.extendRows column t.rows).map fun rows => db.setTable { t with
          columns := t.columns ++ [column]
          textBefore := t.textBefore ++ ", " ++ column
          rows }
      else none
  | some (.createIndex name table isUnique) =>
    match db.tables (identifierKey table) with
    | none => none
    | some t =>
      if db.Free name ∧ sqlite.indexOk t.columns sql = true ∧
          sqlite.indexBuilds t.columns sql isUnique t.rows = true then
        some (db.setIndex ⟨name, t.name, sql⟩)
      else none
  | some (.createTrigger name table) =>
    -- IF NOT EXISTS
    if (db.triggers (identifierKey name)).isSome then some db
    else match db.tables (identifierKey table) with
      | none => none
      | some t =>
        if sqlite.triggerOk t.columns sql = true then some (db.setTrigger ⟨name, table, sql⟩)
        else none

/-- The statements in order. -/
def Sqlite.run (db : SqliteDb V) : List String → Option (SqliteDb V)
  | [] => some db
  | sql :: rest => (sqlite.exec db sql).bind fun db => Sqlite.run db rest

theorem Sqlite.run_append (db : SqliteDb V) (xs ys : List String) :
    sqlite.run db (xs ++ ys) = (sqlite.run db xs).bind fun db => sqlite.run db ys := by
  induction xs generalizing db with
  | nil => rfl
  | cons x xs ih =>
    rw [List.cons_append, Sqlite.run, Sqlite.run]
    cases sqlite.exec db x with
    | none => rfl
    | some db => exact ih db

end

end Chardb.Schema
