import Chardb.Lib.Table
import Chardb.Reshard.Identity

/-!
# The recovery coordinator

`RecoveryCoordinatorStore` keeps one clock, one row per recovery operation, and what is known of
the restore of each object of an operation. The calls are written as the code has them, without a
transaction around: what was written before a call throws stays.
-/

namespace Chardb.Recovery

open Chardb.Lib Reshard

/-! ## Rows -/

inductive RecoveryPhase
  | preparing
  | committing
  | reconciling
  | releasing
  | catalog
  | complete
  deriving DecidableEq

structure RecoveryProviderCounts where
  files : Int
  filesRetained : Int
  vectors : Int
  deriving DecidableEq

structure RecoveryReconcileCounts where
  filesRehydrated : Int
  vectorsRequeued : Int
  deriving DecidableEq

/-- A row of `_chardb_recovery_operation_v2`. -/
structure StoredOperation where
  operationId : String
  digest : String
  generation : Int
  phase : RecoveryPhase
  provider : RecoveryProviderCounts
  commitIndex : Int := 0
  releaseIndex : Int := 0
  continuationJson : Option String
  filesRehydrated : Option Int := none
  vectorsRequeued : Option Int := none
  deriving DecidableEq

def StoredOperation.check (r : StoredOperation) : Prop :=
  0 < r.generation ∧ 0 ≤ r.provider.files ∧ 0 ≤ r.provider.filesRetained ∧ 0 ≤ r.provider.vectors ∧
    0 ≤ r.commitIndex ∧ 0 ≤ r.releaseIndex

instance : DecidablePred StoredOperation.check := fun _ => inferInstanceAs (Decidable (_ ∧ _))

inductive CommitStatus
  | intent
  | scheduled
  deriving DecidableEq

/-- A row of `_chardb_recovery_commit_v2`. -/
structure StoredCommit where
  operationId : String
  objectId : String
  bookmark : String
  status : CommitStatus
  deriving DecidableEq

def StoredCommit.key (r : StoredCommit) : String × String := (r.operationId, r.objectId)

/-- The row of `_chardb_recovery_clock`. -/
structure RecoveryClock where
  generation : Int
  activeOperationId : Option String
  deriving DecidableEq

abbrev OperationTable := Table StoredOperation.operationId StoredOperation.check

abbrev CommitTable := Table StoredCommit.key fun _ => True

structure CoordinatorDb where
  clock : RecoveryClock
  operations : OperationTable
  commits : CommitTable

def CoordinatorDb.initial : CoordinatorDb := ⟨⟨0, none⟩, .empty, .empty⟩

def CoordinatorDb.operation? (db : CoordinatorDb) (operationId : String) : Option StoredOperation :=
  db.operations.find? operationId

def CoordinatorDb.commit? (db : CoordinatorDb) (operationId objectId : String) :
    Option StoredCommit :=
  db.commits.find? (operationId, objectId)

abbrev CoordinatorTx := Tx Thrown CoordinatorDb

def onOperations {α : Type} : Tx Thrown OperationTable α → CoordinatorTx α :=
  .zoom CoordinatorDb.operations fun db operations => { db with operations }

def onCommits {α : Type} : Tx Thrown CommitTable α → CoordinatorTx α :=
  .zoom CoordinatorDb.commits fun db commits => { db with commits }

/-! ## States -/

structure RecoveryIdentity where
  operationId : String
  digest : String
  generation : Int
  deriving DecidableEq

inductive RecoveryCoordinatorState
  | new (operationId : String)
  | preparing (identity : RecoveryIdentity) (continuationJson : String)
  | committing (identity : RecoveryIdentity) (provider : RecoveryProviderCounts) (commitIndex : Int)
  | reconciling (identity : RecoveryIdentity) (provider : RecoveryProviderCounts)
    (continuationJson : String)
  | releasing (identity : RecoveryIdentity) (provider : RecoveryProviderCounts)
    (reconciled : RecoveryReconcileCounts) (releaseIndex : Int)
  | catalog (identity : RecoveryIdentity) (provider : RecoveryProviderCounts)
    (reconciled : RecoveryReconcileCounts)
  | complete (identity : RecoveryIdentity) (provider : RecoveryProviderCounts)
    (reconciled : RecoveryReconcileCounts)
  deriving DecidableEq

def RecoveryCoordinatorState.identity? : RecoveryCoordinatorState → Option RecoveryIdentity
  | .new _ => none
  | .preparing i _ | .committing i _ _ | .reconciling i _ _ | .releasing i _ _ _ | .catalog i _ _
  | .complete i _ _ => some i

/-- The provider counts of a state from `committing` on. -/
def RecoveryCoordinatorState.provider? :
    RecoveryCoordinatorState → Option RecoveryProviderCounts
  | .new _ | .preparing _ _ => none
  | .committing _ p _ | .reconciling _ p _ | .releasing _ p _ _ | .catalog _ p _
  | .complete _ p _ => some p

/-- The reconcile counts of a state from `releasing` on. -/
def RecoveryCoordinatorState.reconciled? :
    RecoveryCoordinatorState → Option RecoveryReconcileCounts
  | .new _ | .preparing _ _ | .committing _ _ _ | .reconciling _ _ _ => none
  | .releasing _ _ c _ | .catalog _ _ c | .complete _ _ c => some c

structure RecoveryAdmissionClock where
  generation : Int
  activeOperationId : Option String
  activeDigest : Option String
  deriving DecidableEq

/-! ## Checks -/

def invalid (message : String) : Thrown := invalidArgs ("recovery coordinator: " ++ message)

def isLowerHex (c : Char) : Bool := c.isDigit || ('a' ≤ c && c ≤ 'f')

/-- `RECOVERY_OPERATION_ID`. -/
def isRecoveryOperationId (s : String) : Bool :=
  match s.toList.splitOn '-' with
  | [a, b, c, d, e] =>
    [a.length, b.length, c.length, d.length, e.length] = [8, 4, 4, 4, 12] &&
      (a ++ b ++ c ++ d ++ e).all isLowerHex && c.head? = some '4' &&
      d.head?.any fun x => x = '8' || x = '9' || x = 'a' || x = 'b'
  | _ => false

/-- `BOOKMARK`. -/
def isBookmark (s : String) : Bool :=
  s.toList.length ≠ 0 && s.toList.length ≤ 512 && s.toList.all fun c => c.isAlphanum || c = '-'

/-- `OBJECT_ID`. -/
def isObjectId (s : String) : Bool :=
  match s.toList with
  | [] => false
  | c :: cs => c.isAlphanum && cs.length ≤ 255 &&
    cs.all fun x => x.isAlphanum || x = '.' || x = '_' || x = ':' || x = '-'

def count (value : Int) (label : String) : Except Thrown Int :=
  if IsCounter value then .ok value else .error (invalid (label ++ " is invalid"))

/-- `count` of a column that may be `NULL`; `Number(null)` is 0. -/
def count? (value : Option Int) (label : String) : Except Thrown Int := count (value.getD 0) label

/-- `project`. -/
def StoredOperation.project (row : StoredOperation) : Except Thrown RecoveryCoordinatorState := do
  let generation ← count row.generation "generation"
  let identity : RecoveryIdentity := ⟨row.operationId, row.digest, generation⟩
  if row.phase = .preparing then
    match row.continuationJson with
    | some json => .ok (.preparing identity json)
    | none => .error (invalid "preparation cursor is missing")
  else
    let files ← count row.provider.files "files"
    let filesRetained ← count row.provider.filesRetained "filesRetained"
    let vectors ← count row.provider.vectors "vectors"
    let provider : RecoveryProviderCounts := ⟨files, filesRetained, vectors⟩
    if row.phase = .committing then
      let commitIndex ← count row.commitIndex "commitIndex"
      .ok (.committing identity provider commitIndex)
    else if row.phase = .reconciling then
      match row.continuationJson with
      | some json => .ok (.reconciling identity provider json)
      | none => .error (invalid "reconciliation cursor is missing")
    else
      let filesRehydrated ← count? row.filesRehydrated "filesRehydrated"
      let vectorsRequeued ← count? row.vectorsRequeued "vectorsRequeued"
      let reconciled : RecoveryReconcileCounts := ⟨filesRehydrated, vectorsRequeued⟩
      if row.phase = .releasing then
        let releaseIndex ← count row.releaseIndex "releaseIndex"
        .ok (.releasing identity provider reconciled releaseIndex)
      else if row.phase = .catalog then .ok (.catalog identity provider reconciled)
      else .ok (.complete identity provider reconciled)

inductive ContinuationKind
  | restore
  | reconcile
  deriving DecidableEq

def ContinuationKind.text : ContinuationKind → String
  | .restore => "restore"
  | .reconcile => "reconcile"

/-- `continuation`; `parses` says which texts `parseStoredRecoveryContinuationState` reads. -/
def continuation (parses : ContinuationKind → String → Bool) (value : String)
    (kind : ContinuationKind) : Except Thrown Unit :=
  if 16384 < value.utf8ByteSize then .error (invalid (kind.text ++ " cursor is invalid"))
  else if parses kind value = false then .error (invalid "continuation state is invalid")
  else .ok ()

def assertIdentity (operationId digest : String) : Except Thrown Unit :=
  if isRecoveryOperationId operationId = false then .error (invalid "operation id is invalid")
  else if isSchemaDigest digest = false then .error (invalid "digest is invalid")
  else .ok ()

def assertProviderCounts (counts : RecoveryProviderCounts) : Except Thrown Unit := do
  let _ ← count counts.files "files"
  let _ ← count counts.filesRetained "filesRetained"
  let _ ← count counts.vectors "vectors"

def assertReconcileCounts (counts : RecoveryReconcileCounts) : Except Thrown Unit := do
  let _ ← count counts.filesRehydrated "filesRehydrated"
  let _ ← count counts.vectorsRequeued "vectorsRequeued"

/-! ## Reading -/

def read (operationId : String) : CoordinatorTx RecoveryCoordinatorState := do
  .require (isRecoveryOperationId operationId = true) (invalid "operation id is invalid")
  let row ← .gets (CoordinatorDb.operation? · operationId)
  match row with
  | none => pure (.new operationId)
  | some row => .ofExcept row.project

/-- The clock with the operation that it names. -/
def activeClock (generation : Int) (operationId : String) : CoordinatorTx RecoveryAdmissionClock := do
  let row ← .gets (CoordinatorDb.operation? · operationId)
  let active ← .ofOption (row.filter fun r => r.phase ≠ .complete)
    (invalid "active operation clock is inconsistent")
  let activeGeneration ← .ofExcept (count active.generation "generation")
  .require (activeGeneration = generation) (invalid "active operation clock is inconsistent")
  pure ⟨generation, some active.operationId, some active.digest⟩

def admissionClock : CoordinatorTx RecoveryAdmissionClock := do
  let clock ← .gets CoordinatorDb.clock
  let generation ← .ofExcept (count clock.generation "generation")
  match clock.activeOperationId with
  | none => pure ⟨generation, none, none⟩
  | some operationId => activeClock generation operationId

def activeForDigest (digest : String) : CoordinatorTx (Option RecoveryCoordinatorState) := do
  .require (isSchemaDigest digest = true) (invalid "digest is invalid")
  let clock ← admissionClock
  match clock.activeOperationId with
  | none => pure none
  | some operationId => do
    .require (clock.activeDigest = some digest) (invalid "another recovery operation is active")
    let state ← read operationId
    pure (some state)

/-! ## Preparing -/

section
variable (parses : ContinuationKind → String → Bool)

/-- The insert of `claimPreparation`, under a clock with no operation. -/
def insertPreparation (operationId digest continuationJson : String) (generation : Int) :
    CoordinatorTx Unit := do
  onOperations (Table.insert
    { operationId, digest, generation, phase := .preparing, provider := ⟨0, 0, 0⟩
      continuationJson := some continuationJson }
    (.constraint "_chardb_recovery_operation_v2"))
  .modify fun db => { db with clock := ⟨generation, some operationId⟩ }

/-- `claimPreparation` of an operation that has no row; `resharding` says what `assertNoReshard`
finds in the tables of the Resharder. -/
def claimNew (resharding : Bool) (operationId digest continuationJson : String) :
    CoordinatorTx RecoveryCoordinatorState := do
  let active ← admissionClock
  match active.activeOperationId with
  | some activeId => do
    .require (active.activeDigest = some digest) (invalid "another recovery operation is active")
    read activeId
  | none => do
    .require (resharding = false) (invalid "resharding blocks point-in-time recovery")
    .require (active.generation < MAX_SAFE_INTEGER) (invalid "generation is exhausted")
    insertPreparation operationId digest continuationJson (active.generation + 1)
    pure (.preparing ⟨operationId, digest, active.generation + 1⟩ continuationJson)

def claimPreparation (resharding : Bool) (operationId digest continuationJson : String) :
    CoordinatorTx RecoveryCoordinatorState := do
  .ofExcept (assertIdentity operationId digest)
  .ofExcept (continuation parses continuationJson .restore)
  let existing ← read operationId
  match existing.identity? with
  | some identity => do
    .require (identity.digest = digest) (invalid "operation digest changed")
    pure existing
  | none => claimNew resharding operationId digest continuationJson

/-- `UPDATE … SET … WHERE operation_id = ? AND …`: answers the number of rows changed. -/
def updateOperation (operationId : String) (p : StoredOperation → Bool)
    (f : StoredOperation → StoredOperation) : CoordinatorTx Nat :=
  onOperations (Table.update (fun r => decide (r.operationId = operationId) && p r) f
    (.constraint "_chardb_recovery_operation_v2"))

def savePreparation (operationId continuationJson : String) :
    CoordinatorTx RecoveryCoordinatorState := do
  let current ← read operationId
  match current with
  | .preparing identity _ => do
    .ofExcept (continuation parses continuationJson .restore)
    let _ ← updateOperation operationId (fun r => r.phase = .preparing)
      fun r => { r with continuationJson := some continuationJson }
    pure (.preparing identity continuationJson)
  | current => pure current

/-- `DELETE` of an operation, which takes its commits along. -/
def deleteOperations (p : StoredOperation → Bool) : CoordinatorTx Nat := do
  let deleted ← .gets fun db => (db.operations.select p).map StoredOperation.operationId
  let _ ← onCommits (Table.delete fun r => r.operationId ∈ deleted)
  onOperations (Table.delete p)

/-- `UPDATE _chardb_recovery_clock SET active_operation_id = NULL … AND active_operation_id = ?`. -/
def clearActive (operationId message : String) : CoordinatorTx Unit := do
  let clock ← .gets CoordinatorDb.clock
  .require (clock.activeOperationId = some operationId) (invalid message)
  .modify fun db => { db with clock := { db.clock with activeOperationId := none } }

def cancelPreparation (operationId : String) : CoordinatorTx RecoveryAdmissionClock := do
  let current ← read operationId
  match current with
  | .preparing _ _ => do
    let clock ← admissionClock
    .require (clock.activeOperationId = some operationId)
      (invalid "cancelled preparation is not active")
    let changes ← deleteOperations fun r => r.operationId = operationId && r.phase = .preparing
    .require (changes = 1) (invalid "preparation changed before cancellation")
    clearActive operationId "active preparation changed before cancellation"
    pure ⟨clock.generation, none, none⟩
  | _ => .throw (invalid "only an unarmed preparation may be cancelled")

/-! ## Commits -/

def beginCommits (operationId : String) (counts : RecoveryProviderCounts) :
    CoordinatorTx RecoveryCoordinatorState := do
  .ofExcept (assertProviderCounts counts)
  let current ← read operationId
  match current with
  | .new _ => .throw (invalid "recovery preparation has not begun")
  | .preparing identity _ => do
    let _ ← updateOperation operationId (fun _ => true) fun r =>
      { r with phase := .committing, provider := counts, continuationJson := none }
    pure (.committing identity counts 0)
  | current => do
    .require (current.provider? = some counts) (invalid "provider counts changed after commit began")
    pure current

def finishShards (operationId continuationJson : String) (shardCount : Int) :
    CoordinatorTx RecoveryCoordinatorState := do
  .ofExcept (continuation parses continuationJson .reconcile)
  let current ← read operationId
  match current with
  | .committing identity provider commitIndex => do
    .require (IsSafeInteger shardCount ∧ 1 ≤ shardCount ∧ shardCount ≤ 16384)
      (invalid "shard count is invalid")
    .require (commitIndex = shardCount) (invalid "not every shard commit is proven")
    let _ ← updateOperation operationId (fun _ => true) fun r =>
      { r with phase := .reconciling, continuationJson := some continuationJson }
    pure (.reconciling identity provider continuationJson)
  | current => pure current

def advanceShard (operationId : String) (index : Int) (objectId : String) :
    CoordinatorTx RecoveryCoordinatorState := do
  let current ← read operationId
  match current with
  | .committing identity provider commitIndex => do
    .require (IsCounter index ∧ commitIndex = index ∧ isObjectId objectId = true)
      (invalid "shard commit cursor is invalid")
    let commit ← .gets (CoordinatorDb.commit? · operationId objectId)
    .require (commit.map StoredCommit.status = some .scheduled) (invalid "shard commit is not proven")
    let changes ← updateOperation operationId
      (fun r => r.phase = .committing && r.commitIndex = index)
      fun r => { r with commitIndex := r.commitIndex + 1 }
    .require (changes = 1) (invalid "shard commit cursor changed concurrently")
    pure (.committing identity provider (index + 1))
  | current => pure current

/-! ## Reconciliation and release -/

def saveReconcile (operationId continuationJson : String) :
    CoordinatorTx RecoveryCoordinatorState := do
  .ofExcept (continuation parses continuationJson .reconcile)
  let current ← read operationId
  match current with
  | .reconciling identity provider _ => do
    let _ ← updateOperation operationId (fun r => r.phase = .reconciling)
      fun r => { r with continuationJson := some continuationJson }
    pure (.reconciling identity provider continuationJson)
  | current => pure current

def beginReleases (operationId : String) (counts : RecoveryReconcileCounts) :
    CoordinatorTx RecoveryCoordinatorState := do
  .ofExcept (assertReconcileCounts counts)
  let current ← read operationId
  match current with
  | .new _ | .preparing _ _ | .committing _ _ _ =>
    .throw (invalid "shard reconciliation has not completed")
  | .reconciling identity provider _ => do
    let _ ← updateOperation operationId (fun _ => true) fun r =>
      { r with
        phase := .releasing
        filesRehydrated := some counts.filesRehydrated
        vectorsRequeued := some counts.vectorsRequeued
        continuationJson := none }
    pure (.releasing identity provider counts 0)
  | current => do
    .require (current.reconciled? = some counts)
      (invalid "reconciliation counts changed after release began")
    pure current

def advanceRelease (operationId : String) (index : Int) :
    CoordinatorTx RecoveryCoordinatorState := do
  let current ← read operationId
  match current with
  | .releasing identity provider reconciled releaseIndex => do
    .require (IsCounter index ∧ releaseIndex = index) (invalid "release cursor is invalid")
    let changes ← updateOperation operationId
      (fun r => r.phase = .releasing && r.releaseIndex = index)
      fun r => { r with releaseIndex := r.releaseIndex + 1 }
    .require (changes = 1) (invalid "release cursor changed concurrently")
    pure (.releasing identity provider reconciled (index + 1))
  | current => pure current

def beginCatalog (operationId : String) (shardCount : Int) :
    CoordinatorTx RecoveryCoordinatorState := do
  let current ← read operationId
  match current with
  | .releasing identity provider reconciled releaseIndex => do
    .require (IsSafeInteger shardCount ∧ 1 ≤ shardCount ∧ releaseIndex = shardCount)
      (invalid "not every shard release is proven")
    let _ ← updateOperation operationId (fun _ => true) fun r => { r with phase := .catalog }
    pure (.catalog identity provider reconciled)
  | current => pure current

def MAX_TERMINAL_OPERATIONS : Nat := 64

/-- The complete operations beyond the last `MAX_TERMINAL_OPERATIONS`; a table lists its rows in
the order of their row ids. -/
def CoordinatorDb.retired (db : CoordinatorDb) : List String :=
  ((db.operations.select fun r => r.phase = .complete).reverse.drop MAX_TERMINAL_OPERATIONS).map
    StoredOperation.operationId

/-- The two deletes at the end of `complete`. -/
def pruneTerminal : CoordinatorTx Unit := do
  let retired ← .gets CoordinatorDb.retired
  let _ ← onCommits (Table.delete fun r => r.operationId ∈ retired)
  let _ ← deleteOperations fun r => r.operationId ∈ retired
  pure ()

def complete (operationId : String) : CoordinatorTx RecoveryCoordinatorState := do
  let current ← read operationId
  match current with
  | .complete identity provider reconciled => pure (.complete identity provider reconciled)
  | .catalog identity provider reconciled => do
    let _ ← updateOperation operationId (fun _ => true) fun r => { r with phase := .complete }
    clearActive operationId "active recovery operation changed before completion"
    pruneTerminal
    pure (.complete identity provider reconciled)
  | _ => .throw (invalid "Catalog release has not begun")

/-! ## Objects -/

/-- `beginObject` of an object that has no row. -/
def insertCommit (operationId objectId bookmark : String) : CoordinatorTx CommitStatus := do
  onCommits (Table.insert ⟨operationId, objectId, bookmark, .intent⟩
    (.constraint "_chardb_recovery_commit_v2"))
  pure .intent

def beginObject (operationId objectId bookmark : String) : CoordinatorTx CommitStatus := do
  let operation ← read operationId
  .require (operation.identity?.isSome = true) (invalid "operation commit has not begun")
  .require (isObjectId objectId = true ∧ isBookmark bookmark = true)
    (invalid "commit identity is invalid")
  let current ← .gets (CoordinatorDb.commit? · operationId objectId)
  match current with
  | some current => do
    .require (current.bookmark = bookmark) (invalid "commit bookmark changed")
    pure current.status
  | none => insertCommit operationId objectId bookmark

def scheduleCommit (operationId objectId bookmark : String) : CoordinatorTx Unit := do
  let _ ← onCommits (Table.update
    (fun r => decide (r.key = (operationId, objectId)) && decide (r.bookmark = bookmark))
    (fun r => { r with status := .scheduled }) (.constraint "_chardb_recovery_commit_v2"))
  pure ()

def finishObject (operationId objectId bookmark : String) : CoordinatorTx Unit := do
  let current ← beginObject operationId objectId bookmark
  if current = .scheduled then pure () else scheduleCommit operationId objectId bookmark

def hasActiveRecovery : CoordinatorTx Bool := do
  let clock ← admissionClock
  pure clock.activeOperationId.isSome

/-! ## Calls -/

inductive RecoveryCall
  | admissionClock
  | read (operationId : String)
  | activeForDigest (digest : String)
  | claimPreparation (resharding : Bool) (operationId digest continuationJson : String)
  | savePreparation (operationId continuationJson : String)
  | cancelPreparation (operationId : String)
  | beginCommits (operationId : String) (counts : RecoveryProviderCounts)
  | finishShards (operationId continuationJson : String) (shardCount : Int)
  | advanceShard (operationId : String) (index : Int) (objectId : String)
  | saveReconcile (operationId continuationJson : String)
  | beginReleases (operationId : String) (counts : RecoveryReconcileCounts)
  | advanceRelease (operationId : String) (index : Int)
  | beginCatalog (operationId : String) (shardCount : Int)
  | complete (operationId : String)
  | beginObject (operationId objectId bookmark : String)
  | finishObject (operationId objectId bookmark : String)
  | hasActiveRecovery
  deriving DecidableEq

/-- What a call does, its answer left out. -/
def RecoveryCall.execute : RecoveryCall → CoordinatorTx Unit
  | .admissionClock => do let _ ← Recovery.admissionClock
  | .read operationId => do let _ ← Recovery.read operationId
  | .activeForDigest digest => do let _ ← Recovery.activeForDigest digest
  | .claimPreparation resharding operationId digest json => do
    let _ ← Recovery.claimPreparation parses resharding operationId digest json
  | .savePreparation operationId json => do let _ ← Recovery.savePreparation parses operationId json
  | .cancelPreparation operationId => do let _ ← Recovery.cancelPreparation operationId
  | .beginCommits operationId counts => do let _ ← Recovery.beginCommits operationId counts
  | .finishShards operationId json n => do let _ ← Recovery.finishShards parses operationId json n
  | .advanceShard operationId i objectId => do let _ ← Recovery.advanceShard operationId i objectId
  | .saveReconcile operationId json => do let _ ← Recovery.saveReconcile parses operationId json
  | .beginReleases operationId counts => do let _ ← Recovery.beginReleases operationId counts
  | .advanceRelease operationId i => do let _ ← Recovery.advanceRelease operationId i
  | .beginCatalog operationId n => do let _ ← Recovery.beginCatalog operationId n
  | .complete operationId => do let _ ← Recovery.complete operationId
  | .beginObject operationId objectId bookmark => do
    let _ ← Recovery.beginObject operationId objectId bookmark
  | .finishObject operationId objectId bookmark => Recovery.finishObject operationId objectId bookmark
  | .hasActiveRecovery => do let _ ← Recovery.hasActiveRecovery

/-- A sequence of calls; what one throws is dropped. -/
def CoordinatorDb.run (db : CoordinatorDb) (calls : List RecoveryCall) : CoordinatorDb :=
  calls.foldl (fun db call => (call.execute parses).after db) db

end

end Chardb.Recovery
