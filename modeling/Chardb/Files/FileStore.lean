import Chardb.Core.Errors
import Chardb.Core.Vshard
import Chardb.Lib.Table
import Mathlib.Data.String.Basic
import Mathlib.Data.Prod.Lex

/-!
# The file store of a Cdb

`CdbFileStore`: the metadata of uploaded files, from the reservation of an upload to the release of
its object, and the tombstones of deleted organizations. The virtual shard of an organization is a
parameter, and so is the predicate that limits background work to the files a shard owns. The
columns that only the vector store reads are left out.
-/

namespace Chardb.Files

open Chardb.Lib

def CDB_FILE_MAX_BYTES : Int := 25 * 1024 * 1024
def CDB_FILE_ID_MAX_LENGTH : Nat := 128
def CDB_FILE_DELETE_BATCH_SIZE : Int := 32

/-! ## Tables -/

inductive FileStatus
  | pending
  | ready
  | attached
  | deleting
  deriving DecidableEq

/-- A row of `_chardb_files`. -/
structure StoredFile where
  fileId : String
  organizationId : String
  table : String
  column : String
  objectKey : String
  contentType : String
  size : Int
  sha256 : Option String
  status : FileStatus
  rowId : Option String
  createdAt : Int
  updatedAt : Int
  placementVshard : Int
  deriving DecidableEq

/-- What the status says about the hash and the row. -/
def StoredFile.Shape (f : StoredFile) : Prop :=
  match f.status with
  | .pending => f.sha256 = none ∧ f.rowId = none
  | .ready => f.sha256.isSome ∧ f.rowId = none
  | .attached => f.sha256.isSome ∧ f.rowId.isSome
  | .deleting => True

/-- The `CHECK` constraints of `_chardb_files`. -/
def StoredFile.Check (f : StoredFile) : Prop :=
  0 < f.size ∧ (0 ≤ f.placementVshard ∧ f.placementVshard < VSHARD_COUNT) ∧ f.Shape

instance : DecidablePred StoredFile.Shape := fun f => by
  unfold StoredFile.Shape
  cases f.status <;> infer_instance

instance : DecidablePred StoredFile.Check := fun _ => inferInstanceAs (Decidable (_ ∧ _ ∧ _))

/-- A row of `_chardb_deleted_organizations`. -/
structure OrganizationTombstone where
  organizationId : String
  deletedAt : Int
  placementVshard : Int
  deriving DecidableEq

def OrganizationTombstone.Check (t : OrganizationTombstone) : Prop :=
  0 ≤ t.deletedAt ∧ 0 ≤ t.placementVshard ∧ t.placementVshard < VSHARD_COUNT

instance : DecidablePred OrganizationTombstone.Check :=
  fun _ => inferInstanceAs (Decidable (_ ∧ _ ∧ _))

abbrev FileTable := Table StoredFile.fileId StoredFile.Check
abbrev TombstoneTable := Table OrganizationTombstone.organizationId OrganizationTombstone.Check

structure FileDb where
  files : FileTable
  tombstones : TombstoneTable

/-- A store without rows. -/
def FileDb.empty : FileDb := ⟨.empty, .empty⟩

abbrev FileTx := Tx Thrown FileDb

def onFiles {α : Type} (x : Tx Thrown FileTable α) : FileTx α :=
  .zoom FileDb.files (fun db files => { db with files }) x

def onTombstones {α : Type} (x : Tx Thrown TombstoneTable α) : FileTx α :=
  .zoom FileDb.tombstones (fun db tombstones => { db with tombstones }) x

/-! ## Checks of the inputs -/

def invalid (message : String) : Thrown := invalidArgs s!"file store: {message}"

def limited (message : String) : Thrown := .cdb { code := .rateLimited, message }

/-- `FileId`: `/^[A-Za-z0-9_-]+$/`, at most 128 characters. -/
def IsFileId (value : String) : Prop :=
  value.toList ≠ [] ∧ value.toList.length ≤ CDB_FILE_ID_MAX_LENGTH ∧
    value.toList.all (fun c => c.isAlphanum || c == '_' || c == '-') = true

instance : DecidablePred IsFileId := fun _ => inferInstanceAs (Decidable (_ ∧ _ ∧ _))

def fileIdOf (value : String) : FileTx Unit :=
  .require (IsFileId value) (.typeError "invalid CharDB FileId")

def boundedText (value subject : String) : FileTx Unit :=
  .require (value ≠ "" ∧ value.utf8ByteSize ≤ 256) (invalid s!"{subject} is invalid")

def safeTime (value : Int) : FileTx Unit :=
  .require (IsSafeInteger value ∧ 0 ≤ value) (invalid "timestamp is invalid")

/-- `/^[0-9a-f]{64}$/`. -/
def IsSha256 (value : String) : Prop :=
  value.toList.length = 64 ∧ value.toList.all (fun c => c.isDigit || ('a' ≤ c && c ≤ 'f')) = true

instance : DecidablePred IsSha256 := fun _ => inferInstanceAs (Decidable (_ ∧ _))

/-- The limits that the constructor takes, with its checks. -/
structure CdbFileStoreLimits where
  organizationQuotaBytes : Int
  maxPendingPerOrganization : Int
  quota_ok : IsSafeInteger organizationQuotaBytes ∧ 1 ≤ organizationQuotaBytes
  pending_ok : IsSafeInteger maxPendingPerOrganization ∧ 1 ≤ maxPendingPerOrganization

/-- `DEFAULT_LIMITS`: 10 GiB and 64 pending files. -/
def CdbFileStoreLimits.default : CdbFileStoreLimits where
  organizationQuotaBytes := 10 * 1024 * 1024 * 1024
  maxPendingPerOrganization := 64
  quota_ok := ⟨⟨by decide, by decide⟩, by decide⟩
  pending_ok := ⟨⟨by decide, by decide⟩, by decide⟩

section
variable (vshardOf : String → Int)

/-! ## Reads -/

def assertExactPlacement (organizationId : String) (stored : Int) (subject : String) : FileTx Unit :=
  .require (IsSafeInteger stored ∧ 0 ≤ stored ∧ stored < VSHARD_COUNT ∧
      stored = vshardOf organizationId)
    (invariantError s!"{subject} has invalid virtual-shard placement")

def objectKeyOf (organizationId fileId : String) : String := s!"v1/{organizationId}/{fileId}"

/-- The checks that `project` makes of a row before it hands it out. -/
def project (row : StoredFile) : FileTx StoredFile := do
  assertExactPlacement vshardOf row.organizationId row.placementVshard s!"file {row.fileId}"
  .require (row.objectKey = objectKeyOf row.organizationId row.fileId)
    (invariantError s!"file {row.fileId} has an invalid object key")
  .require (IsFileId row.fileId) (.typeError "invalid CharDB FileId")
  pure row

def read (fileId : String) : FileTx (Option StoredFile) := do
  let row ← .gets fun db => db.files.find? fileId
  match row with
  | none => pure none
  | some row => some <$> project vshardOf row

def requireFile (fileId : String) : FileTx StoredFile := do
  let file ← read vshardOf fileId
  .ofOption file (invalid "FileId does not exist")

def isOrganizationDeleted (organizationId : String) : FileTx Bool := do
  boundedText organizationId "organization id"
  .gets fun db => (db.tombstones.find? organizationId).isSome

def assertOrganizationActive (organizationId : String) : FileTx Unit := do
  let deleted ← isOrganizationDeleted organizationId
  .require (deleted = false) (.cdb { code := .forbidden, message := "file organization was deleted" })

def organizationFiles (db : FileDb) (organizationId : String) : List StoredFile :=
  db.files.select fun f => decide (f.organizationId = organizationId)

/-- `SUM(size)` of the rows of an organization. -/
def usageBytes (db : FileDb) (organizationId : String) : Int :=
  ((organizationFiles db organizationId).map StoredFile.size).sum

/-- The number of its rows that are pending. -/
def usagePending (db : FileDb) (organizationId : String) : Nat :=
  (organizationFiles db organizationId).countP fun f => decide (f.status = .pending)

def organizationFileCount (organizationId : String) : FileTx Nat := do
  boundedText organizationId "organization id"
  .gets fun db => (organizationFiles db organizationId).length

/-! ## Uploads -/

structure ReserveInput where
  fileId : String
  organizationId : String
  table : String
  column : String
  contentType : String
  size : Int
  nowMs : Int
  deriving DecidableEq

/-- The row that a reservation inserts. -/
def ReserveInput.row (input : ReserveInput) : StoredFile where
  fileId := input.fileId
  organizationId := input.organizationId
  table := input.table
  column := input.column
  objectKey := objectKeyOf input.organizationId input.fileId
  contentType := input.contentType
  size := input.size
  sha256 := none
  status := .pending
  rowId := none
  createdAt := input.nowMs
  updatedAt := input.nowMs
  placementVshard := vshardOf input.organizationId

/-- The upload that a row was reserved for is the one asked for again. -/
def ReserveInput.Repeats (input : ReserveInput) (existing : StoredFile) : Prop :=
  existing.organizationId = input.organizationId ∧ existing.table = input.table ∧
    existing.column = input.column ∧ existing.contentType = input.contentType ∧
    existing.size = input.size ∧
    existing.objectKey = objectKeyOf input.organizationId input.fileId ∧
    existing.status ≠ .deleting

instance (input : ReserveInput) : DecidablePred input.Repeats :=
  fun _ => inferInstanceAs (Decidable (_ ∧ _ ∧ _ ∧ _ ∧ _ ∧ _ ∧ _))

/-- `INSERT INTO _chardb_files`, whose `object_key` is `UNIQUE`. -/
def insertFile (row : StoredFile) : FileTx Unit := do
  let taken ← .gets fun db => db.files.select fun f => decide (f.objectKey = row.objectKey)
  .require (taken = []) (.constraint "_chardb_files")
  onFiles (Table.insert row (.constraint "_chardb_files"))

/-- An `UPDATE` of the row under one id, if it matches. -/
def updateFile (fileId : String) (p : StoredFile → Bool) (f : StoredFile → StoredFile) : FileTx Nat :=
  onFiles (Table.update (fun r => decide (r.fileId = fileId) && p r) f (.constraint "_chardb_files"))

/-- A status change that reports another count than one row is lost. -/
def transition (fileId : String) (p : StoredFile → Bool) (f : StoredFile → StoredFile)
    (message : String) : FileTx Unit := do
  let changes ← updateFile fileId p f
  .require (changes = 1) (invariantError message)

def reserve (limits : CdbFileStoreLimits) (input : ReserveInput) : FileTx StoredFile := do
  fileIdOf input.fileId
  boundedText input.organizationId "organization id"
  boundedText input.table "table"
  boundedText input.column "column"
  boundedText input.contentType "content type"
  safeTime input.nowMs
  assertOrganizationActive input.organizationId
  .require (IsSafeInteger input.size ∧ 1 ≤ input.size ∧ input.size ≤ CDB_FILE_MAX_BYTES)
    (invalid s!"size must be from 1 through {CDB_FILE_MAX_BYTES}")
  let existing ← read vshardOf input.fileId
  match existing with
  | some existing => do
    .require (input.Repeats existing) (invalid "FileId is already reserved for a different upload")
    if existing.status = .pending ∧ existing.updatedAt < input.nowMs then do
      let _ ← updateFile input.fileId (fun r => decide (r.status = .pending))
        fun r => { r with updatedAt := input.nowMs }
      requireFile vshardOf input.fileId
    else pure existing
  | none => do
    let bytes ← .gets fun db => usageBytes db input.organizationId
    let pending ← .gets fun db => (usagePending db input.organizationId : Int)
    .require (IsSafeInteger bytes ∧ IsSafeInteger pending ∧ 0 ≤ bytes ∧ 0 ≤ pending)
      (invariantError "file store usage is invalid")
    .require (bytes + input.size ≤ limits.organizationQuotaBytes)
      (limited "organization file quota exceeded")
    .require (pending < limits.maxPendingPerOrganization)
      (limited "organization pending-file limit exceeded")
    insertFile (input.row vshardOf)
    requireFile vshardOf input.fileId

def markReady (fileId sha256 : String) (actualSize nowMs : Int) : FileTx StoredFile := do
  fileIdOf fileId
  let existing ← requireFile vshardOf fileId
  assertOrganizationActive existing.organizationId
  safeTime nowMs
  .require (IsSha256 sha256) (invalid "sha256 must be 64 lowercase hexadecimal characters")
  .require (actualSize = existing.size) (invalid "uploaded size does not match the reservation")
  if existing.status = .ready ∨ existing.status = .attached then do
    .require (existing.sha256 = some sha256) (invalid "ready retry does not match the stored hash")
    pure existing
  else do
    .require (existing.status = .pending) (invalid "only a pending file can become ready")
    transition existing.fileId (fun r => decide (r.status = .pending))
      (fun r => { r with status := .ready, sha256 := some sha256, updatedAt := max r.updatedAt nowMs })
      "file ready transition lost"
    requireFile vshardOf existing.fileId

def attach (fileId organizationId table column rowId : String) (nowMs : Int) : FileTx StoredFile := do
  fileIdOf fileId
  let existing ← requireFile vshardOf fileId
  assertOrganizationActive existing.organizationId
  boundedText rowId "row id"
  safeTime nowMs
  .require (existing.organizationId = organizationId ∧ existing.table = table ∧
      existing.column = column)
    (invalid "file ownership locator does not match the target column")
  if existing.status = .attached then do
    .require (existing.rowId = some rowId) (invalid "FileId cannot be reused by another row")
    pure existing
  else do
    .require (existing.status = .ready) (invalid "only a ready file can be attached")
    transition existing.fileId (fun r => decide (r.status = .ready))
      (fun r => { r with status := .attached, rowId := some rowId, updatedAt := max r.updatedAt nowMs })
      "file attach transition lost"
    requireFile vshardOf existing.fileId

/-! ## Deletion -/

/-- The update that queues a row for deletion. -/
def StoredFile.deleted (nowMs : Int) (f : StoredFile) : StoredFile :=
  { f with status := .deleting, updatedAt := max f.updatedAt nowMs }

def queueDelete (fileId : String) (nowMs : Int) : FileTx StoredFile := do
  fileIdOf fileId
  let existing ← requireFile vshardOf fileId
  safeTime nowMs
  if existing.status = .deleting then pure existing
  else do
    transition fileId (fun _ => true) (StoredFile.deleted nowMs) "file delete transition lost"
    requireFile vshardOf existing.fileId

/-- `ORDER BY updated_at, file_id LIMIT limit`. -/
def oldest (db : FileDb) (p : StoredFile → Bool) (limit : Int) : List StoredFile :=
  (db.files.orderBy p fun f => toLex (f.updatedAt, f.fileId)).take limit.toNat

def deleteBatch (limit : Int) : FileTx Unit :=
  .require (IsSafeInteger limit ∧ 1 ≤ limit ∧ limit ≤ CDB_FILE_DELETE_BATCH_SIZE)
    (invalid s!"delete batch must be from 1 through {CDB_FILE_DELETE_BATCH_SIZE}")

/-- The objects that a shard may delete now, of the files that `owned` keeps. -/
def dueDeletes (limit : Int) (owned : StoredFile → Bool) : FileTx (List StoredFile) := do
  deleteBatch limit
  let rows ← .gets fun db => oldest db (fun f => decide (f.status = .deleting) && owned f) limit
  rows.mapM (project vshardOf)

def completeDelete (fileId : String) : FileTx Unit := do
  fileIdOf fileId
  let existing ← requireFile vshardOf fileId
  .require (existing.status = .deleting) (invalid "only a deleting file can be released")
  let changes ← onFiles (Table.delete fun r =>
    decide (r.fileId = existing.fileId) && decide (r.status = .deleting))
  .require (changes = 1) (invariantError "file delete completion lost")

/-- The rows that maintenance queues: unattached past the cutoff, or of a deleted organization. -/
def maintenanceCandidates (cutoffMs : Int) (owned : StoredFile → Bool) : FileTx (List StoredFile) := do
  safeTime cutoffMs
  let rows ← .gets fun db => oldest db (fun f =>
    ((decide (f.status = .pending ∨ f.status = .ready) && decide (f.updatedAt ≤ cutoffMs)) ||
      (decide (f.status = .ready ∨ f.status = .attached) &&
        (db.tombstones.find? f.organizationId).isSome)) && owned f) CDB_FILE_DELETE_BATCH_SIZE
  rows.mapM (project vshardOf)

/-- The candidates are queued one transaction each; `admitted` are the organizations whose
transaction the shard is in a position to run. -/
def queueCandidates (nowMs : Int) (admitted : String → Bool) : List StoredFile → FileTx Unit
  | [] => pure ()
  | file :: rest =>
    if admitted file.organizationId then do
      let _ ← .transactionSync (queueDelete vshardOf file.fileId nowMs)
      queueCandidates nowMs admitted rest
    else queueCandidates nowMs admitted rest

/-- The transitions of `CdbFileRuntime.maintain`. -/
def sweep (cutoffMs nowMs : Int) (owned : StoredFile → Bool) (admitted : String → Bool) : FileTx Unit := do
  let candidates ← maintenanceCandidates vshardOf cutoffMs owned
  queueCandidates vshardOf nowMs admitted candidates

def queueOrganizationFiles (organizationId : String) (nowMs limit : Int) : FileTx Nat := do
  boundedText organizationId "organization id"
  safeTime nowMs
  deleteBatch limit
  let chosen ← .gets fun db => oldest db (fun f => decide (f.organizationId = organizationId) &&
    decide (f.status = .ready ∨ f.status = .attached)) limit
  onFiles (Table.update (fun r => decide (r.fileId ∈ chosen.map StoredFile.fileId))
    (StoredFile.deleted nowMs) (.constraint "_chardb_files"))

def fenceOrganizationDeletion (organizationId : String) (nowMs : Int) : FileTx Nat := do
  boundedText organizationId "organization id"
  safeTime nowMs
  let _ ← onTombstones (Table.insertIgnore ⟨organizationId, nowMs, vshardOf organizationId⟩)
  let stored ← .gets fun db => db.tombstones.find? organizationId
  let tombstone ← .ofOption stored (invariantError "organization tombstone is missing")
  assertExactPlacement vshardOf organizationId tombstone.placementVshard
    s!"organization {organizationId}"
  let _ ← queueOrganizationFiles organizationId nowMs CDB_FILE_DELETE_BATCH_SIZE
  organizationFileCount organizationId

/-! ## Runs -/

/-- One call of the store. -/
inductive FileOp
  | reserve (input : ReserveInput)
  | markReady (fileId sha256 : String) (actualSize nowMs : Int)
  | attach (fileId organizationId table column rowId : String) (nowMs : Int)
  | queueDelete (fileId : String) (nowMs : Int)
  | sweep (cutoffMs nowMs : Int) (owned : StoredFile → Bool) (admitted : String → Bool)
  | dueDeletes (limit : Int) (owned : StoredFile → Bool)
  | completeDelete (fileId : String)
  | fenceOrganizationDeletion (organizationId : String) (nowMs : Int)
  | queueOrganizationFiles (organizationId : String) (nowMs limit : Int)

/-- Every call is one transaction, but for the sweep, whose parts are. -/
def FileOp.call (limits : CdbFileStoreLimits) : FileOp → FileTx Unit
  | .reserve input => .transactionSync do let _ ← Files.reserve vshardOf limits input
  | .markReady fileId sha256 actualSize nowMs =>
    .transactionSync do let _ ← Files.markReady vshardOf fileId sha256 actualSize nowMs
  | .attach fileId organizationId table column rowId nowMs =>
    .transactionSync do let _ ← Files.attach vshardOf fileId organizationId table column rowId nowMs
  | .queueDelete fileId nowMs => .transactionSync do let _ ← Files.queueDelete vshardOf fileId nowMs
  | .sweep cutoffMs nowMs owned admitted => Files.sweep vshardOf cutoffMs nowMs owned admitted
  | .dueDeletes limit owned => .transactionSync do let _ ← Files.dueDeletes vshardOf limit owned
  | .completeDelete fileId => .transactionSync (Files.completeDelete vshardOf fileId)
  | .fenceOrganizationDeletion organizationId nowMs =>
    .transactionSync do let _ ← Files.fenceOrganizationDeletion vshardOf organizationId nowMs
  | .queueOrganizationFiles organizationId nowMs limit =>
    .transactionSync do let _ ← Files.queueOrganizationFiles organizationId nowMs limit

def FileDb.step (limits : CdbFileStoreLimits) (db : FileDb) (op : FileOp) : FileDb :=
  (op.call vshardOf limits).after db

def FileDb.run (limits : CdbFileStoreLimits) (db : FileDb) (ops : List FileOp) : FileDb :=
  ops.foldl (FileDb.step vshardOf limits) db

end

end Chardb.Files
