import Chardb.Recovery.Coordinator

/-!
# Recovery admission of a Cdb

`RecoveryAdmissionStore` keeps the generation that a Cdb serves and whether a recovery operation
blocks it; `DurableObjectRecovery` arms, releases, cancels and commits the restore of the object.
Both live in the database that a native restore rewinds.
-/

namespace Chardb.Recovery

open Chardb.Lib Reshard

/-! ## The store -/

/-- The column `state`; `opened` is its value `open`. -/
inductive AdmissionStatus
  | opened
  | blocked
  | released
  deriving DecidableEq

/-- The row of `_chardb_recovery_admission`. -/
structure RecoveryAdmissionState where
  generation : Int
  operationId : Option String
  state : AdmissionStatus
  deriving DecidableEq

structure ArmedRecoveryRestore where
  targetBookmark : String
  undoBookmark : String
  armedAt : Int
  commitAt : Option Int
  nativeScheduled : Bool
  deriving DecidableEq

/-- The recovery tables of a Cdb. -/
structure CdbRecoveryDb where
  admission : RecoveryAdmissionState
  restore : Option ArmedRecoveryRestore
  deriving DecidableEq

def CdbRecoveryDb.initial : CdbRecoveryDb := ⟨⟨0, none, .opened⟩, none⟩

abbrev AdmissionTx := Tx Thrown CdbRecoveryDb

def admissionInvalid (message : String) : Thrown := invariantError ("recovery admission: " ++ message)

/-- The stored row is one that the store writes. -/
def RecoveryAdmissionState.consistent (row : RecoveryAdmissionState) : Bool :=
  row.operationId.all isRecoveryOperationId && (row.state ≠ .opened || row.operationId = none) &&
    (row.state = .opened || row.operationId ≠ none)

/-- `RecoveryAdmissionStore.read`. -/
def readAdmission : AdmissionTx RecoveryAdmissionState := do
  let row ← .gets CdbRecoveryDb.admission
  .require (row.consistent = true) (admissionInvalid "state is inconsistent")
  .require (IsCounter row.generation) (admissionInvalid "generation is invalid")
  pure row

def writeAdmission (value : RecoveryAdmissionState) : AdmissionTx Unit :=
  .modify fun db => { db with admission := value }

/-- What `reconcile` makes of a later clock. -/
def RecoveryAdmissionClock.next (clock : RecoveryAdmissionClock) : RecoveryAdmissionState where
  generation := clock.generation
  operationId := clock.activeOperationId
  state := if clock.activeOperationId.isSome then .blocked else .opened

/-- `reconcile` with the clock of the generation that is stored. -/
def reconcileSame (clock : RecoveryAdmissionClock) (row : RecoveryAdmissionState) :
    AdmissionTx RecoveryAdmissionState := do
  if clock.activeOperationId = none then
    if row.state ≠ .opened then do
      writeAdmission ⟨row.generation, none, .opened⟩
      pure ⟨row.generation, none, .opened⟩
    else pure ⟨row.generation, none, .opened⟩
  else do
    .require (row.operationId = clock.activeOperationId)
      (admissionInvalid "active operation changed at one generation")
    pure row

def reconcile (clock : RecoveryAdmissionClock) : AdmissionTx RecoveryAdmissionState := do
  .require (IsCounter clock.generation) (admissionInvalid "remote generation is invalid")
  .require (clock.activeOperationId.isNone = clock.activeDigest.isNone ∧
      clock.activeOperationId.all isRecoveryOperationId = true)
    (admissionInvalid "remote operation is invalid")
  let row ← readAdmission
  .require (row.generation ≤ clock.generation) (admissionInvalid "remote generation regressed")
  if row.generation < clock.generation then do
    writeAdmission clock.next
    pure clock.next
  else reconcileSame clock row

/-- `RecoveryAdmissionStore.arm`. -/
def armAdmission (operationId : String) (nextGeneration : Int) :
    AdmissionTx RecoveryAdmissionState := do
  .require (isRecoveryOperationId operationId = true ∧ IsSafeInteger nextGeneration ∧
      1 ≤ nextGeneration)
    (invalidArgs "recovery admission identity is invalid")
  let row ← readAdmission
  .require (row.generation ≤ nextGeneration) (admissionInvalid "arm generation regressed")
  if nextGeneration = row.generation then do
    .require (row.operationId = some operationId)
      (admissionInvalid "arm operation changed at one generation")
    .require (row.state ≠ .released) (staleEpoch "recovery operation was already released")
    pure row
  else do
    writeAdmission ⟨nextGeneration, some operationId, .blocked⟩
    pure ⟨nextGeneration, some operationId, .blocked⟩

/-- `RecoveryAdmissionStore.release`. -/
def releaseAdmission (operationId : String) (expectedGeneration : Int) :
    AdmissionTx RecoveryAdmissionState := do
  let row ← readAdmission
  .require (row.generation = expectedGeneration ∧ row.operationId = some operationId)
    (staleEpoch "recovery release identity is stale")
  if row.state = .released then pure row
  else do
    .require (row.state = .blocked) (admissionInvalid "open admission cannot be released")
    writeAdmission { row with state := .released }
    pure { row with state := .released }

def staleGeneration : Thrown :=
  .cdb
    { code := .staleEpoch
      message := "request belongs to another recovery generation"
      hint := some "resolve current authorization and routing from Catalog, then retry" }

def assertRequest (expectedGeneration : Int) : AdmissionTx Unit := do
  let row ← readAdmission
  .require (IsCounter expectedGeneration ∧ row.state ≠ .blocked ∧ row.generation = expectedGeneration)
    staleGeneration

/-! ## The restore of the object -/

def assertBookmark (value : String) : AdmissionTx Unit :=
  .require (isBookmark value = true) (invalidArgs "point-in-time recovery bookmark is invalid")

/-- The checks that `DurableObjectRecovery.arm` makes before it waits for the current bookmark;
answers the restore that is armed already. -/
def armCheck (targetBookmark : String) (armedAt : Int) :
    AdmissionTx (Option ArmedRecoveryRestore) := do
  assertBookmark targetBookmark
  .require (IsCounter armedAt) (invalidArgs "recovery arm time is invalid")
  let existing ← .gets CdbRecoveryDb.restore
  .require (existing.all (fun r => r.targetBookmark = targetBookmark) = true)
    (staleEpoch "a different point-in-time restore is already armed")
  pure existing

/-- `arm` of a restore that is armed already: the admission alone. -/
def armExisting (operationId : String) (generation : Int) : AdmissionTx Unit :=
  .transactionSync do
    let _ ← armAdmission operationId generation
    pure ()

/-- `arm` of a new restore, with the current bookmark. -/
def armFresh (targetBookmark current : String) (armedAt : Int) (operationId : String)
    (generation : Int) : AdmissionTx Unit :=
  .transactionSync do
    let _ ← armAdmission operationId generation
    let existing ← .gets CdbRecoveryDb.restore
    .require (existing = none)
      (.cdb
        { code := .staleEpoch
          message := "a point-in-time restore was armed concurrently" })
    .modify fun db => { db with restore := some ⟨targetBookmark, current, armedAt, none, false⟩ }

/-- `DurableObjectRecovery.release`. -/
def releaseRecovery (operationId : String) (generation : Int) : AdmissionTx Unit :=
  .transactionSync do
    let _ ← releaseAdmission operationId generation
    pure ()

/-- `DurableObjectRecovery.cancel`. -/
def cancelRestore (targetBookmark : String) : AdmissionTx Bool := do
  assertBookmark targetBookmark
  let existing ← .gets CdbRecoveryDb.restore
  match existing with
  | none => pure false
  | some r => do
    .require (r.targetBookmark = targetBookmark)
      (staleEpoch "recovery cancellation target does not match the armed restore")
    .require (r.commitAt = none)
      (staleEpoch "point-in-time restore cannot be cancelled after commit begins")
    .modify fun db => { db with restore := none }
    pure true

/-- `DurableObjectRecovery.commit` up to the call of the runtime: the activation deadline. -/
def commitDeadline (targetBookmark : String) (proposed : Int) : AdmissionTx Unit := do
  assertBookmark targetBookmark
  let existing ← .gets CdbRecoveryDb.restore
  let r ← .ofOption (existing.filter fun r => r.targetBookmark = targetBookmark)
    (staleEpoch "point-in-time restore is not armed for this bookmark")
  .modify fun db => { db with restore := some { r with commitAt := some (r.commitAt.getD proposed) } }

/-- The rest of `commit`, once the runtime has taken the target: `undo` is its undo bookmark. -/
def commitScheduled (targetBookmark undo : String) : AdmissionTx Unit := do
  assertBookmark undo
  .modify fun db =>
    { db with
      restore := db.restore.map fun r =>
        if r.targetBookmark = targetBookmark then
          { r with undoBookmark := undo, nativeScheduled := true }
        else r }

end Chardb.Recovery
