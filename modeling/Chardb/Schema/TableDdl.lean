import Chardb.Core.Canonical
import Chardb.Schema.Journal

/-!
# The DDL of a table

A snapshot keeps a table as a descriptor: the SQL of each column, constraint and index.
`renderSqliteTableDdlDescriptor` joins it to the statements that create the table.
-/

namespace Chardb.Schema

open Chardb.Lib

/-! ## Descriptors -/

structure SqliteColumnDdlDescriptor where
  name : String
  sql : String
  deriving DecidableEq

inductive SqliteTableConstraintKind
  | primaryKey
  | unique
  | foreignKey
  | check
  deriving DecidableEq

def SqliteTableConstraintKind.text : SqliteTableConstraintKind → String
  | .primaryKey => "primary-key"
  | .unique => "unique"
  | .foreignKey => "foreign-key"
  | .check => "check"

structure SqliteTableConstraintDdlDescriptor where
  kind : SqliteTableConstraintKind
  name : Option String
  sql : String
  deriving DecidableEq

structure SqliteIndexDdlDescriptor where
  name : String
  isUnique : Bool
  sql : String
  deriving DecidableEq

structure SqliteTableDdlDescriptor where
  tableName : String
  columns : List SqliteColumnDdlDescriptor
  constraints : List SqliteTableConstraintDdlDescriptor
  indexes : List SqliteIndexDdlDescriptor
  deriving DecidableEq

section
variable {ν : Type}

def SqliteColumnDdlDescriptor.toJson (c : SqliteColumnDdlDescriptor) : Json ν :=
  .obj [("name", .str c.name), ("sql", .str c.sql)]

def SqliteTableConstraintDdlDescriptor.toJson (c : SqliteTableConstraintDdlDescriptor) : Json ν :=
  .obj [("kind", .str c.kind.text), ("name", (c.name.map .str).getD .null), ("sql", .str c.sql)]

def SqliteIndexDdlDescriptor.toJson (i : SqliteIndexDdlDescriptor) : Json ν :=
  .obj [("name", .str i.name), ("unique", .bool i.isUnique), ("sql", .str i.sql)]

def SqliteTableDdlDescriptor.toJson (t : SqliteTableDdlDescriptor) : Json ν :=
  .obj [("tableName", .str t.tableName), ("columns", .arr (t.columns.map (·.toJson))),
    ("constraints", .arr (t.constraints.map (·.toJson))),
    ("indexes", .arr (t.indexes.map (·.toJson)))]

end

/-! ## Rendering -/

/-- `value.replaceAll(q, q + q)`. -/
def doubled (quote : Char) (value : String) : String :=
  String.ofList (value.toList.flatMap fun c => if c = quote then [quote, quote] else [c])

def quoteIdentifier (value : String) : String := "\"" ++ doubled '"' value ++ "\""

/-- `literal` of the trigger renderers. -/
def quoteLiteral (value : String) : String := "'" ++ doubled '\'' value ++ "'"

structure SqliteTableDdl where
  tableName : String
  createTable : String
  indexes : List String
  indexNames : List String
  signature : String

def renderSqliteTableDdlDescriptor (ν : Type) [JsNumber ν] (descriptor : SqliteTableDdlDescriptor) :
    SqliteTableDdl :=
  let definitions := descriptor.columns.map (·.sql) ++ descriptor.constraints.map (·.sql)
  let createTable := "CREATE TABLE " ++ quoteIdentifier descriptor.tableName ++ " (" ++
    ", ".intercalate definitions ++ ")"
  let indexes := descriptor.indexes.map (·.sql)
  { tableName := descriptor.tableName
    createTable
    indexes
    indexNames := descriptor.indexes.map (·.name)
    signature := (Json.arr ((createTable :: indexes).map .str) : Json ν).toText }

/-- The indexes in the order of their names; the definitions of the table keep theirs. -/
def canonicalizeSqliteTableDdlDescriptor (descriptor : SqliteTableDdlDescriptor) :
    SqliteTableDdlDescriptor :=
  { descriptor with
    indexes := descriptor.indexes.insertionSort fun a b => utf16 a.name ≤ utf16 b.name }

end Chardb.Schema
