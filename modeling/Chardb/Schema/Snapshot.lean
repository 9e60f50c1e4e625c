import Chardb.Schema.ResourceTriggers
import Chardb.Reshard.Identity

/-!
# Schema snapshots

A snapshot is the schema of both planes as static data, under the digest of its canonical JSON.
`defineSchemaSnapshot` validates one; `completeInstall` is the program that creates all of it.
-/

namespace Chardb.Schema

open Chardb.Lib

def SNAPSHOT_FORMAT : String := "chardb.schema-snapshot.v1"
def MAX_VERSION : Int := 1024
def MAX_TABLES_PER_PLANE : Nat := 1024
def MAX_TABLE_ITEMS : Nat := 4096
def MAX_SQL_BYTES : Nat := 1 * 1024 * 1024
def MAX_SNAPSHOT_BYTES : Nat := 16 * 1024 * 1024

structure ChardbSchemaSnapshotContent where
  format : String
  version : Int
  name : String
  previousDigest : Option String
  cdbTables : List SqliteTableDdlDescriptor
  catalogTables : List SqliteTableDdlDescriptor
  resources : List ChardbResourceDescriptor
  deriving DecidableEq

structure ChardbSchemaSnapshotInput extends ChardbSchemaSnapshotContent where
  digest : String
  deriving DecidableEq

/-! ## Resources -/

def invalidResource (message : String) : Thrown := invalidArgs ("resource descriptor: " ++ message)

def hasControl (value : String) : Bool := value.toList.any fun c => c.toNat ≤ 31 || c.toNat = 127

/-- `boundedName` of the resource descriptors. -/
def boundedResourceName (value field : String) : Except Thrown Unit :=
  ensure (value ≠ "" ∧ (utf16 value).length ≤ 256 ∧ hasControl value = false)
    (invalidResource (field ++ " is invalid"))

/-- `/^[A-Za-z_][A-Za-z0-9_]{0,127}$/`. -/
def isBindingName (s : String) : Bool :=
  match s.toList with
  | [] => false
  | c :: cs => (c.isAlpha || c = '_') && decide (cs.length ≤ 127) &&
      cs.all fun c => c.isAlphanum || c = '_'

def CDB_VECTOR_MAX_DIMENSIONS : Int := 1536
def CDB_FILE_MAX_BYTES : Int := 25 * 1024 * 1024
def CDB_FILE_MAX_CONTENT_TYPES : Nat := 32

def isMimeChar (c : Char) : Bool :=
  c.isDigit || c.isLower || c ∈ ['!', '#', '$', '&', '^', '_', '.', '+', '-']

/-- `[a-z0-9][a-z0-9!#$&^_.+-]{0,126}`. -/
def isMimePart : List Char → Bool
  | [] => false
  | c :: cs => (c.isDigit || c.isLower) && decide (cs.length ≤ 126) && cs.all isMimeChar

/-- `CONTENT_TYPE`. -/
def isContentType (s : String) : Bool :=
  match s.toList.splitOn '/' with
  | [left, right] => isMimePart left && isMimePart right
  | _ => false

section
variable (ν : Type) [JsNumber ν] (sha256Hex toLowerCase : String → String)

def normalizeFileColumnConfig (maxSize : Int) (contentTypes : FileContentTypes) :
    Except Thrown (Int × FileContentTypes) := do
  ensure (1 ≤ maxSize ∧ maxSize ≤ CDB_FILE_MAX_BYTES)
    (.typeError ("file maxSize must be an integer from 1 through " ++ decimal CDB_FILE_MAX_BYTES))
  match contentTypes with
  | .any => pure (maxSize, .any)
  | .only requested => do
    ensure (requested ≠ [] ∧ requested.length ≤ CDB_FILE_MAX_CONTENT_TYPES)
      (.typeError ("file contentTypes must contain 1 through " ++
        decimal CDB_FILE_MAX_CONTENT_TYPES ++ " MIME types"))
    let types := sortStrings
      (requested.map fun t => toLowerCase (String.ofList (Policy.trimChars t.toList))).dedup
    ensure (types.length = requested.length ∧ types.all isContentType = true)
      (.typeError "file contentTypes must be unique valid MIME types")
    pure (maxSize, .only types)

def boundedLocator (table column primaryKey organizationColumn : String) : Except Thrown Unit := do
  boundedResourceName table "table"
  boundedResourceName column "column"
  boundedResourceName primaryKey "primaryKey"
  boundedResourceName organizationColumn "organizationColumn"

def normalizeChardbResourceDescriptor : ChardbResourceDescriptor →
    Except Thrown ChardbResourceDescriptor
  | .vector r => do
    ensure (1 ≤ r.dimensions ∧ r.dimensions ≤ CDB_VECTOR_MAX_DIMENSIONS)
      (invalidResource ("vector dimensions must be an integer from 1 through " ++
        decimal CDB_VECTOR_MAX_DIMENSIONS))
    boundedResourceName r.binding "binding"
    ensure (isBindingName r.binding = true) (invalidResource "binding is invalid")
    boundedLocator r.table r.column r.primaryKey r.organizationColumn
    pure (.vector r)
  | .file r => do
    let (maxSize, contentTypes) ← normalizeFileColumnConfig toLowerCase r.maxSize r.contentTypes
    boundedLocator r.table r.column r.primaryKey r.organizationColumn
    pure (.file { r with maxSize, contentTypes })

def resourceKey (resource : ChardbResourceDescriptor) : String :=
  resource.kind ++ "\x00" ++ resource.table ++ "\x00" ++ resource.column

/-- Neighbours in the sorted list that name one locator. -/
def ensureDistinctLocators : List ChardbResourceDescriptor → Except Thrown Unit
  | left :: right :: rest => do
    ensure (¬ (left.kind = right.kind ∧ left.table = right.table ∧ left.column = right.column))
      (invalidResource ("duplicate " ++ right.kind ++ " locator " ++ right.table ++ "." ++
        right.column))
    ensureDistinctLocators (right :: rest)
  | _ => .ok ()

def normalizeChardbResourceDescriptors (input : List ChardbResourceDescriptor) :
    Except Thrown (List ChardbResourceDescriptor) := do
  let normalized ← input.mapM (normalizeChardbResourceDescriptor toLowerCase)
  let sorted := normalized.insertionSort fun a b => utf16 (resourceKey a) ≤ utf16 (resourceKey b)
  ensureDistinctLocators sorted
  pure sorted

/-! ## Tables -/

def invalidSnapshot (message : String) : Thrown := invalidArgs ("schema snapshot: " ++ message)

/-- `boundedName` of the snapshot. -/
def boundedName (value subject : String) : Except Thrown Unit :=
  ensure (value ≠ "" ∧ (utf16 value).length ≤ 128 ∧ hasControl value = false)
    (invalidSnapshot (subject ++ " must be a nonempty SQLite name of at most 128 characters"))

def boundedSql (value subject : String) : Except Thrown Unit := do
  ensure (Policy.trimChars value.toList ≠ []) (invalidSnapshot (subject ++ " must be nonempty SQL"))
  ensure (value.utf8ByteSize ≤ MAX_SQL_BYTES)
    (invalidSnapshot (subject ++ " exceeds " ++ decimal MAX_SQL_BYTES ++ " UTF-8 bytes"))

def ownColumn (c : SqliteColumnDdlDescriptor) (subject : String) : Except Thrown Unit := do
  boundedName c.name (subject ++ " name")
  boundedSql c.sql (subject ++ " SQL")

def ownConstraint (c : SqliteTableConstraintDdlDescriptor) (subject : String) :
    Except Thrown Unit := do
  match c.name with
  | none => pure ()
  | some name => boundedName name (subject ++ " name")
  boundedSql c.sql (subject ++ " SQL")

def ownIndex (i : SqliteIndexDdlDescriptor) (subject : String) : Except Thrown Unit := do
  boundedName i.name (subject ++ " name")
  boundedSql i.sql (subject ++ " SQL")

/-- Each value in turn, under its position from 1 on. -/
def ownEach {α : Type} (own : α → String → Except Thrown Unit) (subject : String) :
    Nat → List α → Except Thrown Unit
  | _, [] => .ok ()
  | position, x :: xs => do
    own x (subject ++ " " ++ decimal position)
    ownEach own subject (position + 1) xs

def requireUnique (keys : List String) (subject : String) : Except Thrown Unit :=
  ensure keys.Nodup (invalidSnapshot (subject ++ " must be unique"))

def SqliteTableConstraintDdlDescriptor.key (c : SqliteTableConstraintDdlDescriptor) : String :=
  c.kind.text ++ "\x00" ++ c.name.getD "" ++ "\x00" ++ c.sql

def indexesJson (indexes : List SqliteIndexDdlDescriptor) : Json ν :=
  .arr (indexes.map (·.toJson))

def ownTable (t : SqliteTableDdlDescriptor) (subject : String) : Except Thrown Unit := do
  boundedName t.tableName (subject ++ " tableName")
  ownEach ownColumn (subject ++ " column") 1 t.columns
  ownEach ownConstraint (subject ++ " constraint") 1 t.constraints
  ownEach ownIndex (subject ++ " index") 1 t.indexes
  ensure (t.columns ≠ []) (invalidSnapshot (subject ++ " must contain at least one column"))
  ensure (t.columns.length + t.constraints.length + t.indexes.length ≤ MAX_TABLE_ITEMS)
    (invalidSnapshot (subject ++ " contains more than " ++ decimal MAX_TABLE_ITEMS ++
      " columns, constraints, and indexes"))
  requireUnique (t.columns.map (·.name)) (subject ++ " columns")
  requireUnique (t.constraints.map (·.key)) (subject ++ " constraints")
  requireUnique (t.indexes.map (·.name)) (subject ++ " indexes")
  ensure (stableJson (indexesJson ν t.indexes) =
      stableJson (indexesJson ν (canonicalizeSqliteTableDdlDescriptor t).indexes))
    (invalidSnapshot (subject ++ " indexes must be in canonical order"))

/-- `requireStrictOrder`, by code units. -/
def requireStrictOrder (subject : String) : List String → Except Thrown Unit
  | left :: right :: rest => do
    ensure (utf16 left < utf16 right)
      (invalidSnapshot (subject ++ " must be unique and in canonical order"))
    requireStrictOrder subject (right :: rest)
  | _ => .ok ()

def ownTables (tables : List SqliteTableDdlDescriptor) (subject : String) : Except Thrown Unit := do
  ensure (tables.length ≤ MAX_TABLES_PER_PLANE)
    (invalidSnapshot (subject ++ " contains more than " ++ decimal MAX_TABLES_PER_PLANE ++
      " tables"))
  ownEach (ownTable ν) (subject ++ " table") 1 tables
  requireStrictOrder subject (tables.map (·.tableName))

/-! ## The snapshot -/

/-- The columns that a resource names are columns of its table. -/
def checkResource (cdbTables : List SqliteTableDdlDescriptor) (r : ChardbResourceDescriptor) :
    Except Thrown Unit := do
  let subject := "resource " ++ r.table ++ "." ++ r.column
  match cdbTables.find? (·.tableName = r.table) with
  | none => .error (invalidSnapshot (subject ++ " references a missing Cdb table"))
  | some t =>
    [r.column, r.primaryKey, r.organizationColumn].forM fun column =>
      ensure (column ∈ t.columns.map (·.name))
        (invalidSnapshot (subject ++ " references missing column " ++ column))

def ChardbSchemaSnapshotContent.toJson (c : ChardbSchemaSnapshotContent) : Json ν :=
  .obj [("format", .str c.format), ("version", .int c.version), ("name", .str c.name),
    ("previousDigest", (c.previousDigest.map .str).getD .null),
    ("cdbTables", .arr (c.cdbTables.map (·.toJson))),
    ("catalogTables", .arr (c.catalogTables.map (·.toJson))),
    ("resources", .arr (c.resources.map (·.toJson)))]

def resourcesJson (resources : List ChardbResourceDescriptor) : Json ν :=
  .arr (resources.map (·.toJson))

def validateContent (c : ChardbSchemaSnapshotContent) : Except Thrown Unit := do
  ensure (c.format = SNAPSHOT_FORMAT) (invalidSnapshot ("format must be " ++ SNAPSHOT_FORMAT))
  ensure (1 ≤ c.version ∧ c.version ≤ MAX_VERSION)
    (invalidSnapshot ("version must be an integer from 1 through " ++ decimal MAX_VERSION))
  ensure (isMigrationName c.name = true) (invalidSnapshot "name is invalid")
  if c.version = 1 then
    ensure (c.previousDigest = none) (invalidSnapshot "version 1 previousDigest must be null")
  else
    ensure (c.previousDigest.any Reshard.isSchemaDigest = true)
      (invalidSnapshot "previousDigest must be a SHA-256 digest")
  ownTables ν c.cdbTables "Cdb tables"
  ownTables ν c.catalogTables "Catalog tables"
  ensure (c.cdbTables.length + c.catalogTables.length ≠ 0)
    (invalidSnapshot "must contain at least one Cdb or Catalog table")
  let resources ← normalizeChardbResourceDescriptors toLowerCase c.resources
  ensure (stableJson (resourcesJson ν c.resources) = stableJson (resourcesJson ν resources))
    (invalidSnapshot "resources must be in canonical order")
  resources.forM (checkResource c.cdbTables)
  ensure ((stableJson (c.toJson ν)).utf8ByteSize ≤ MAX_SNAPSHOT_BYTES)
    (invalidSnapshot ("exceeds " ++ decimal MAX_SNAPSHOT_BYTES ++ " canonical UTF-8 bytes"))

/-- `defineSchemaSnapshot`; what it adds to its input is `completeInstall`. -/
def defineSchemaSnapshot (input : ChardbSchemaSnapshotInput) : Except Thrown Unit := do
  ensure (Reshard.isSchemaDigest input.digest = true)
    (invalidSnapshot "digest must be a SHA-256 digest")
  validateContent ν toLowerCase input.toChardbSchemaSnapshotContent
  ensure (input.digest = stableHashHex sha256Hex (input.toChardbSchemaSnapshotContent.toJson ν))
    (invalidSnapshot "digest does not match canonical snapshot content")

/-! ## The complete install -/

/-- The statements that create a table and its indexes. -/
def createStatements (table : SqliteTableDdlDescriptor) : List String :=
  let ddl := renderSqliteTableDdlDescriptor ν table
  ddl.createTable :: ddl.indexes

/-- The statements of `initialMigration`, for each plane. -/
def completeInstall (snapshot : ChardbSchemaSnapshotInput) : List String × List String :=
  (snapshot.cdbTables.flatMap (createStatements ν) ++
      (triggerPrograms ν sha256Hex snapshot.resources).map (·.install),
    snapshot.catalogTables.flatMap (createStatements ν))

end

end Chardb.Schema
