import Chardb.Schema.TableDdl

/-!
# The triggers of native resources

A file or a vector column is a resource of the schema. Its triggers run in the transaction of the
row: they check that a locator may be attached, and mark what a row no longer names.
-/

namespace Chardb.Schema

open Chardb.Lib

/-! ## Resource descriptors -/

inductive FileContentTypes
  | any
  | only (types : List String)
  deriving DecidableEq

structure ChardbFileResourceDescriptor where
  table : String
  column : String
  primaryKey : String
  organizationColumn : String
  maxSize : Int
  contentTypes : FileContentTypes
  deriving DecidableEq

inductive VectorMetric
  | cosine
  | euclidean
  | dotProduct
  deriving DecidableEq

def VectorMetric.text : VectorMetric → String
  | .cosine => "cosine"
  | .euclidean => "euclidean"
  | .dotProduct => "dot-product"

structure VectorResourceV1 where
  table : String
  column : String
  primaryKey : String
  organizationColumn : String
  binding : String
  dimensions : Int
  metric : VectorMetric
  deriving DecidableEq

inductive ChardbResourceDescriptor
  | file (resource : ChardbFileResourceDescriptor)
  | vector (resource : VectorResourceV1)
  deriving DecidableEq

namespace ChardbResourceDescriptor

def kind : ChardbResourceDescriptor → String
  | file _ => "file"
  | vector _ => "vector"

def table : ChardbResourceDescriptor → String
  | file r => r.table
  | vector r => r.table

def column : ChardbResourceDescriptor → String
  | file r => r.column
  | vector r => r.column

def primaryKey : ChardbResourceDescriptor → String
  | file r => r.primaryKey
  | vector r => r.primaryKey

def organizationColumn : ChardbResourceDescriptor → String
  | file r => r.organizationColumn
  | vector r => r.organizationColumn

def isFile : ChardbResourceDescriptor → Bool
  | file _ => true
  | vector _ => false

end ChardbResourceDescriptor

section
variable {ν : Type} [JsNumber ν]

def FileContentTypes.toJson : FileContentTypes → Json ν
  | .any => .str "*"
  | .only types => .arr (types.map .str)

def ChardbFileResourceDescriptor.toJson (r : ChardbFileResourceDescriptor) : Json ν :=
  .obj [("kind", .str "file"), ("version", .int 1), ("table", .str r.table),
    ("column", .str r.column), ("primaryKey", .str r.primaryKey),
    ("organizationColumn", .str r.organizationColumn), ("maxSize", .int r.maxSize),
    ("contentTypes", r.contentTypes.toJson)]

def VectorResourceV1.toJson (r : VectorResourceV1) : Json ν :=
  .obj [("kind", .str "vector"), ("version", .int 1), ("table", .str r.table),
    ("column", .str r.column), ("primaryKey", .str r.primaryKey),
    ("organizationColumn", .str r.organizationColumn), ("binding", .str r.binding),
    ("dimensions", .int r.dimensions), ("metric", .str r.metric.text)]

def ChardbResourceDescriptor.toJson : ChardbResourceDescriptor → Json ν
  | .file r => r.toJson
  | .vector r => r.toJson

end

/-! ## The trigger programs -/

section
variable (ν : Type) [JsNumber ν] (sha256Hex : String → String)

/-- `cdbVectorResourceId`, of a normalized descriptor. -/
def cdbVectorResourceId (resource : VectorResourceV1) : String :=
  "vr1_" ++ stableHashHex sha256Hex
    (.arr [.str "chardb.vector-resource.v1", resource.toJson] : Json ν)

/-- A trigger, its table and the statement that creates it. -/
structure TriggerProgram where
  name : String
  table : String
  install : String

/-- `renderFileAttachmentTriggerSet`. -/
def renderFileAttachmentTriggerSet (resource : ChardbFileResourceDescriptor) :
    List TriggerProgram :=
  let table := quoteIdentifier resource.table
  let column := quoteIdentifier resource.column
  let primaryKey := quoteIdentifier resource.primaryKey
  let organizationColumn := quoteIdentifier resource.organizationColumn
  let tableValue := quoteLiteral resource.table
  let columnValue := quoteLiteral resource.column
  let name := "_chardb_file_" ++ sliceTo 16 (stableHashHex sha256Hex (resource.toJson : Json ν))
  let clock := "MAX(updated_at + 1, CAST(unixepoch() AS INTEGER) * 1000)"

  let ready := fun (row : String) =>
    "\n" ++ "      SELECT CASE WHEN NOT EXISTS (\n" ++ "        SELECT 1 FROM _chardb_files\n" ++
    "        WHERE file_id = " ++ row ++ "." ++ column ++ "\n          AND organization_id = " ++
    row ++ "." ++ organizationColumn ++ "\n          AND table_name = " ++ tableValue ++
    "\n          AND column_name = " ++ columnValue ++ "\n" ++
    "          AND status = 'ready'\n" ++ "          AND NOT EXISTS (\n" ++
    "            SELECT 1 FROM _chardb_deleted_organizations\n" ++
    "            WHERE organization_id = " ++ row ++ "." ++ organizationColumn ++ "\n" ++
    "          )\n" ++ "      ) THEN RAISE(ABORT, 'CDB_FILE_INVALID_ATTACHMENT') END"
  let validRowId :=
    "\n      SELECT CASE WHEN NEW." ++ column ++ " IS NOT NULL AND (NEW." ++ primaryKey ++
    " IS NULL\n        OR length(CAST(CAST(NEW." ++ primaryKey ++
    " AS TEXT) AS BLOB)) NOT BETWEEN 1 AND 256)\n" ++
    "        THEN RAISE(ABORT, 'CDB_FILE_INVALID_ATTACHMENT') END"
  [ ⟨name ++ "_bli", resource.table,
      "CREATE TRIGGER IF NOT EXISTS " ++ quoteIdentifier (name ++ "_bli") ++
      "\n         BEFORE INSERT ON " ++ table ++ "\n         WHEN NEW." ++ column ++
      " IS NOT NULL\n         BEGIN" ++ validRowId ++ ";\n         END"⟩,
    ⟨name ++ "_blu", resource.table,
      "CREATE TRIGGER IF NOT EXISTS " ++ quoteIdentifier (name ++ "_blu") ++
      "\n         BEFORE UPDATE OF " ++ primaryKey ++ ", " ++ organizationColumn ++ ", " ++
      column ++ " ON " ++ table ++ "\n         WHEN OLD." ++ column ++ " IS NOT NULL OR NEW." ++
      column ++ " IS NOT NULL\n         BEGIN\n           SELECT CASE WHEN NEW." ++ primaryKey ++
      " IS NOT OLD." ++ primaryKey ++ "\n             OR NEW." ++ organizationColumn ++
      " IS NOT OLD." ++ organizationColumn ++ "\n" ++
      "             THEN RAISE(ABORT, 'CDB_FILE_INVALID_ATTACHMENT') END;\n" ++ "           " ++
      validRowId ++ ";\n         END"⟩,
    ⟨name ++ "_bi", resource.table,
      "CREATE TRIGGER IF NOT EXISTS " ++ quoteIdentifier (name ++ "_bi") ++
      "\n         BEFORE INSERT ON " ++ table ++ "\n         WHEN NEW." ++ column ++
      " IS NOT NULL\n         BEGIN" ++ ready "NEW" ++ ";\n         END"⟩,
    ⟨name ++ "_ai", resource.table,
      "CREATE TRIGGER IF NOT EXISTS " ++ quoteIdentifier (name ++ "_ai") ++
      "\n         AFTER INSERT ON " ++ table ++ "\n         WHEN NEW." ++ column ++
      " IS NOT NULL\n" ++ "         BEGIN\n" ++ "           UPDATE _chardb_files\n" ++
      "           SET status = 'attached', row_id = CAST(NEW." ++ primaryKey ++
      " AS TEXT), updated_at = " ++ clock ++ "\n           WHERE file_id = NEW." ++ column ++
      " AND status = 'ready';\n         END"⟩,
    ⟨name ++ "_bu", resource.table,
      "CREATE TRIGGER IF NOT EXISTS " ++ quoteIdentifier (name ++ "_bu") ++
      "\n         BEFORE UPDATE OF " ++ column ++ " ON " ++ table ++ "\n         WHEN NEW." ++
      column ++ " IS NOT OLD." ++ column ++ " AND NEW." ++ column ++
      " IS NOT NULL\n         BEGIN" ++ ready "NEW" ++ ";\n         END"⟩,
    ⟨name ++ "_au", resource.table,
      "CREATE TRIGGER IF NOT EXISTS " ++ quoteIdentifier (name ++ "_au") ++
      "\n         AFTER UPDATE OF " ++ column ++ " ON " ++ table ++ "\n         WHEN NEW." ++
      column ++ " IS NOT OLD." ++ column ++ "\n" ++ "         BEGIN\n" ++
      "           UPDATE _chardb_files\n" ++ "           SET status = 'deleting', updated_at = " ++
      clock ++ "\n           WHERE OLD." ++ column ++
      " IS NOT NULL\n             AND file_id = OLD." ++ column ++
      "\n             AND organization_id = OLD." ++ organizationColumn ++
      "\n             AND table_name = " ++ tableValue ++ "\n             AND column_name = " ++
      columnValue ++ "\n             AND row_id = CAST(OLD." ++ primaryKey ++ " AS TEXT)\n" ++
      "             AND status = 'attached';\n" ++ "           UPDATE _chardb_files\n" ++
      "           SET status = 'attached', row_id = CAST(NEW." ++ primaryKey ++
      " AS TEXT), updated_at = " ++ clock ++ "\n           WHERE NEW." ++ column ++
      " IS NOT NULL AND file_id = NEW." ++ column ++ " AND status = 'ready';\n         END"⟩,
    ⟨name ++ "_ad", resource.table,
      "CREATE TRIGGER IF NOT EXISTS " ++ quoteIdentifier (name ++ "_ad") ++
      "\n         AFTER DELETE ON " ++ table ++ "\n         WHEN OLD." ++ column ++
      " IS NOT NULL\n" ++ "         BEGIN\n" ++ "           UPDATE _chardb_files\n" ++
      "           SET status = 'deleting', updated_at = " ++ clock ++
      "\n           WHERE file_id = OLD." ++ column ++
      "\n             AND organization_id = OLD." ++ organizationColumn ++
      "\n             AND table_name = " ++ tableValue ++ "\n             AND column_name = " ++
      columnValue ++ "\n             AND row_id = CAST(OLD." ++ primaryKey ++
      " AS TEXT)\n             AND status = 'attached';\n         END"⟩ ]

/-- `renderVectorMutationTriggerSet`. -/
def renderVectorMutationTriggerSet (resource : VectorResourceV1) : List TriggerProgram :=
  let table := quoteIdentifier resource.table
  let column := quoteIdentifier resource.column
  let primaryKey := quoteIdentifier resource.primaryKey
  let organizationColumn := quoteIdentifier resource.organizationColumn
  let canonicalResourceId := cdbVectorResourceId ν sha256Hex resource
  let resourceId := quoteLiteral canonicalResourceId
  let name := "_chardb_vector_" ++
    sliceTo 16 (String.ofList (canonicalResourceId.toList.drop "vr1_".length))
  let pending := fun (row : String) =>
    "\n" ++ "      SELECT CASE WHEN NOT EXISTS (\n" ++ "        SELECT 1 FROM _chardb_vectors\n" ++
    "        WHERE vector_id = " ++ row ++ "." ++ column ++ "\n          AND organization_id = " ++
    row ++ "." ++ organizationColumn ++ "\n          AND resource_id = " ++ resourceId ++
    "\n          AND row_pk = CAST(" ++ row ++ "." ++ primaryKey ++ " AS TEXT)\n" ++
    "          AND state = 'pending'\n" ++
    "      ) THEN RAISE(ABORT, 'CDB_VECTOR_MUTATION_REQUIRED') END"
  let deleting := fun (row : String) =>
    "\n" ++ "      SELECT CASE WHEN NOT EXISTS (\n" ++ "        SELECT 1 FROM _chardb_vectors\n" ++
    "        WHERE vector_id = " ++ row ++ "." ++ column ++ "\n          AND organization_id = " ++
    row ++ "." ++ organizationColumn ++ "\n          AND resource_id = " ++ resourceId ++
    "\n          AND row_pk = CAST(" ++ row ++ "." ++ primaryKey ++ " AS TEXT)\n" ++
    "          AND state = 'deleting'\n" ++
    "      ) THEN RAISE(ABORT, 'CDB_VECTOR_MUTATION_REQUIRED') END"
  let deletingOrDeletedOrganization := fun (row : String) =>
    "\n" ++ "      SELECT CASE WHEN NOT EXISTS (\n" ++ "        SELECT 1 FROM _chardb_vectors\n" ++
    "        WHERE vector_id = " ++ row ++ "." ++ column ++ "\n          AND organization_id = " ++
    row ++ "." ++ organizationColumn ++ "\n          AND resource_id = " ++ resourceId ++
    "\n          AND row_pk = CAST(" ++ row ++ "." ++ primaryKey ++ " AS TEXT)\n" ++
    "          AND state = 'deleting'\n" ++ "      ) AND NOT EXISTS (\n" ++
    "        SELECT 1 FROM _chardb_deleted_organizations\n" ++
    "        WHERE organization_id = " ++ row ++ "." ++ organizationColumn ++
    "\n      ) THEN RAISE(ABORT, 'CDB_VECTOR_MUTATION_REQUIRED') END"
  [ ⟨name ++ "_bi", resource.table,
      "CREATE TRIGGER IF NOT EXISTS " ++ quoteIdentifier (name ++ "_bi") ++
      "\n         BEFORE INSERT ON " ++ table ++ "\n         WHEN NEW." ++ column ++
      " IS NOT NULL\n         BEGIN" ++ pending "NEW" ++ ";\n         END"⟩,
    ⟨name ++ "_bun", resource.table,
      "CREATE TRIGGER IF NOT EXISTS " ++ quoteIdentifier (name ++ "_bun") ++
      "\n         BEFORE UPDATE OF " ++ column ++ " ON " ++ table ++ "\n         WHEN NEW." ++
      column ++ " IS NOT OLD." ++ column ++ " AND NEW." ++ column ++
      " IS NOT NULL\n         BEGIN" ++ pending "NEW" ++ ";\n         END"⟩,
    ⟨name ++ "_buo", resource.table,
      "CREATE TRIGGER IF NOT EXISTS " ++ quoteIdentifier (name ++ "_buo") ++
      "\n         BEFORE UPDATE OF " ++ column ++ " ON " ++ table ++ "\n         WHEN NEW." ++
      column ++ " IS NOT OLD." ++ column ++ " AND OLD." ++ column ++
      " IS NOT NULL\n         BEGIN" ++ deleting "OLD" ++ ";\n         END"⟩,
    ⟨name ++ "_bui", resource.table,
      "CREATE TRIGGER IF NOT EXISTS " ++ quoteIdentifier (name ++ "_bui") ++
      "\n         BEFORE UPDATE OF " ++ primaryKey ++ ", " ++ organizationColumn ++ " ON " ++
      table ++ "\n         WHEN (NEW." ++ primaryKey ++ " IS NOT OLD." ++ primaryKey ++
      "\n               OR NEW." ++ organizationColumn ++ " IS NOT OLD." ++ organizationColumn ++
      ")\n              AND (OLD." ++ column ++ " IS NOT NULL OR NEW." ++ column ++
      " IS NOT NULL)\n" ++ "         BEGIN\n" ++
      "           SELECT RAISE(ABORT, 'CDB_VECTOR_IDENTITY_MOVE_UNSUPPORTED');\n" ++
      "         END"⟩,
    ⟨name ++ "_bd", resource.table,
      "CREATE TRIGGER IF NOT EXISTS " ++ quoteIdentifier (name ++ "_bd") ++
      "\n         BEFORE DELETE ON " ++ table ++ "\n         WHEN OLD." ++ column ++
      " IS NOT NULL\n         BEGIN" ++ deletingOrDeletedOrganization "OLD" ++ ";\n         END"⟩ ]

def resourcePrograms : ChardbResourceDescriptor → List TriggerProgram
  | .file r => renderFileAttachmentTriggerSet ν sha256Hex r
  | .vector r => renderVectorMutationTriggerSet ν sha256Hex r

/-- The triggers of resources: those of files, then those of vectors. -/
def triggerPrograms (resources : List ChardbResourceDescriptor) : List TriggerProgram :=
  (resources.filter (·.isFile)).flatMap (resourcePrograms ν sha256Hex) ++
    (resources.filter fun r => !r.isFile).flatMap (resourcePrograms ν sha256Hex)

end

end Chardb.Schema
