import Chardb.Schema.Snapshot

/-!
# The additive diff of two snapshots

`diffAdditiveSchemaSnapshots` derives the migration from one snapshot to the next, and refuses what
needs a rewrite of data.
-/

namespace Chardb.Schema

open Chardb.Lib

def rejectDiff (message : String) : Thrown := .error ("additive schema diff: " ++ message)

/-! ## The columns that may be added -/

/-- `\w`. -/
def isWordChar (c : Char) : Bool := c.isAlphanum || c = '_'

/-- What follows a word at the start of a text, in either case. -/
def afterWord : List Char → List Char → Option (List Char)
  | [], text => some text
  | _ :: _, [] => none
  | w :: word, c :: text => if c.toUpper = w then afterWord word text else none

/-- Words with `\s+` between them. -/
def afterWords : List (List Char) → List Char → Option (List Char)
  | [], text => some text
  | [word], text => afterWord word text
  | word :: words, text =>
    match afterWord word text with
    | some (c :: rest) =>
      if Policy.isTrimmed c then afterWords words (rest.dropWhile Policy.isTrimmed) else none
    | _ => none

/-- The constraints that `assertSafeAddedColumn` looks for. -/
def unsafeKeywords : List (List (List Char)) :=
  [["PRIMARY".toList, "KEY".toList], ["UNIQUE".toList], ["REFERENCES".toList],
    ["GENERATED".toList], ["NOT".toList, "NULL".toList], ["DEFAULT".toList], ["CHECK".toList]]

/-- One of them at the start of a text, up to a word boundary. -/
def startsUnsafe (text : List Char) : Bool :=
  unsafeKeywords.any fun words => (afterWords words text).any fun rest =>
    !(rest.head?.any isWordChar)

/-- The regular expression, in a text after the character `before`. -/
def hasUnsafeKeyword (before : Option Char) : List Char → Bool
  | [] => false
  | c :: text =>
    (!before.any isWordChar && startsUnsafe (c :: text)) || hasUnsafeKeyword (some c) text

def assertSafeAddedColumn (table : String) (column : SqliteColumnDdlDescriptor) :
    Except Thrown Unit :=
  ensure (hasUnsafeKeyword none column.sql.toList = false)
    (rejectDiff (table ++ "." ++ column.name ++ " is not a nullable unconstrained column"))

def assertSafeAddedIndex (table : String) (index : SqliteIndexDdlDescriptor) : Except Thrown Unit :=
  ensure (index.isUnique = false) (rejectDiff (table ++ "." ++ index.name ++
    " is a new unique index and requires a duplicate-data plan"))

/-! ## One plane -/

/-- The statements of a plane, and the tables and the columns (of their tables) they add. -/
structure PlaneDiff where
  statements : List String
  addedColumns : List (String × String)
  addedTables : List String

def PlaneDiff.append (a b : PlaneDiff) : PlaneDiff :=
  ⟨a.statements ++ b.statements, a.addedColumns ++ b.addedColumns, a.addedTables ++ b.addedTables⟩

section
variable (ν : Type) [JsNumber ν] (sha256Hex toLowerCase : String → String)

def constraintsJson (constraints : List SqliteTableConstraintDdlDescriptor) : Json ν :=
  .arr (constraints.map (·.toJson))

/-- The columns of the previous table start the next one. -/
def keepColumns (error : Thrown) : List SqliteColumnDdlDescriptor → List SqliteColumnDdlDescriptor →
    Except Thrown Unit
  | [], _ => .ok ()
  | _ :: _, [] => .error error
  | previous :: ps, next :: ns => do
    ensure (stableJson (next.toJson : Json ν) = stableJson (previous.toJson : Json ν)) error
    keepColumns error ps ns

/-- The columns that the next table adds. -/
def addedColumns (previous next : SqliteTableDdlDescriptor) : List SqliteColumnDdlDescriptor :=
  next.columns.drop previous.columns.length

/-- The indexes that the next table adds. -/
def addedIndexes (previous next : SqliteTableDdlDescriptor) : List SqliteIndexDdlDescriptor :=
  next.indexes.filter fun index => index.name ∉ previous.indexes.map (·.name)

def addColumnSql (table : String) (column : SqliteColumnDdlDescriptor) : String :=
  "ALTER TABLE " ++ quoteIdentifier table ++ " ADD COLUMN " ++ column.sql

/-- A table that is in both snapshots. -/
def diffTable (plane : String) (previous next : SqliteTableDdlDescriptor) :
    Except Thrown PlaneDiff := do
  let subject := plane ++ " table " ++ next.tableName
  ensure (stableJson (constraintsJson ν next.constraints) =
      stableJson (constraintsJson ν previous.constraints))
    (rejectDiff (subject ++ " changed table constraints"))
  ensure (previous.columns.length ≤ next.columns.length)
    (rejectDiff (subject ++ " removed a column"))
  keepColumns ν (rejectDiff (subject ++ " changed or reordered existing columns"))
    previous.columns next.columns
  let added := addedColumns previous next
  added.forM (assertSafeAddedColumn next.tableName)
  previous.indexes.forM fun index =>
    match next.indexes.find? (·.name = index.name) with
    | none => .error (rejectDiff (subject ++ " removed index " ++ index.name))
    | some current =>
      ensure (stableJson (current.toJson : Json ν) = stableJson (index.toJson : Json ν))
        (rejectDiff (subject ++ " changed index " ++ index.name))
  (addedIndexes previous next).forM (assertSafeAddedIndex next.tableName)
  pure {
    statements := added.map (addColumnSql next.tableName) ++
      (addedIndexes previous next).map (·.sql)
    addedColumns := added.map fun column => (next.tableName, column.name)
    addedTables := [] }

/-- A table of the next snapshot. -/
def diffNext (plane : String) (previousTables : List SqliteTableDdlDescriptor)
    (next : SqliteTableDdlDescriptor) : Except Thrown PlaneDiff :=
  match previousTables.find? (·.tableName = next.tableName) with
  | none => .ok {
      statements := createStatements ν next
      addedColumns := next.columns.map fun column => (next.tableName, column.name)
      addedTables := [next.tableName] }
  | some previous => diffTable ν plane previous next

def diffTables (plane : String) (previousTables : List SqliteTableDdlDescriptor) :
    List SqliteTableDdlDescriptor → Except Thrown PlaneDiff
  | [] => .ok ⟨[], [], []⟩
  | next :: rest => do
    let diff ← diffNext ν plane previousTables next
    let diffs ← diffTables plane previousTables rest
    pure (diff.append diffs)

def diffPlane (previousTables nextTables : List SqliteTableDdlDescriptor) (plane : String) :
    Except Thrown PlaneDiff := do
  previousTables.forM fun table =>
    ensure (table.tableName ∈ nextTables.map (·.tableName))
      (rejectDiff (plane ++ " table " ++ table.tableName ++ " was removed"))
  diffTables ν plane previousTables nextTables

/-! ## Both planes -/

/-- The migration that a diff generates. -/
structure AdditiveMigration where
  version : Int
  name : String
  statements : List String
  catalogStatements : List String
  resources : List ChardbResourceDescriptor

/-- A resource of the previous snapshot is in the next one, as it was. -/
def keepResource (nextResources : List ChardbResourceDescriptor) (r : ChardbResourceDescriptor) :
    Except Thrown Unit :=
  let subject := "resource " ++ r.table ++ "." ++ r.column
  match nextResources.find? (resourceKey · = resourceKey r) with
  | none => .error (rejectDiff (subject ++ " was removed"))
  | some current =>
    ensure (stableJson (current.toJson : Json ν) = stableJson (r.toJson : Json ν))
      (rejectDiff (subject ++ " changed"))

def addedResources (previous next : ChardbSchemaSnapshotInput) : List ChardbResourceDescriptor :=
  next.resources.filter fun r => resourceKey r ∉ previous.resources.map resourceKey

def diffAdditiveSchemaSnapshots (previous next : ChardbSchemaSnapshotInput) :
    Except Thrown AdditiveMigration := do
  defineSchemaSnapshot ν sha256Hex toLowerCase previous
  defineSchemaSnapshot ν sha256Hex toLowerCase next
  ensure (next.version = previous.version + 1) (rejectDiff "snapshot versions must be contiguous")
  ensure (next.previousDigest = some previous.digest)
    (rejectDiff "next snapshot does not name the previous digest")
  let cdb ← diffPlane ν previous.cdbTables next.cdbTables "Cdb"
  let catalog ← diffPlane ν previous.catalogTables next.catalogTables "Catalog"
  previous.resources.forM (keepResource ν next.resources)
  let added := addedResources previous next
  added.forM fun r =>
    ensure (r.table ∈ cdb.addedTables ∨ ∃ c ∈ cdb.addedColumns, c = (r.table, r.column))
      (rejectDiff ("resource " ++ r.table ++ "." ++ r.column ++ " was added to an existing column"))
  let statements := cdb.statements ++ (triggerPrograms ν sha256Hex added).map (·.install)
  ensure (statements.length + catalog.statements.length ≠ 0)
    (rejectDiff "snapshots contain no additive schema change")
  pure {
    version := next.version
    name := next.name
    statements
    catalogStatements := catalog.statements
    resources := added }

end

end Chardb.Schema
