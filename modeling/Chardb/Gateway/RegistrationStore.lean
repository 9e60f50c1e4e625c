import Chardb.Core.Errors
import Chardb.Lib.Table

/-!
# Gateway registrations

The tables that a Gateway keeps of live queries: the generations of each registration, the head of
each subscription, and the outbox of staged snapshots. What a generation asks for is opaque until it
is scrubbed; the replay table and the bytes charged are left out, so that a quota is exceeded or a
replay cannot be kept is any Boolean. Times and versions are the nonnegative integers that the
inputs are checked to be.
-/

namespace Chardb.Gateway

open Chardb.Lib

def GATEWAY_CLEANUP_BASE_RETRY_MS : Nat := 1000
def GATEWAY_CLEANUP_MAX_RETRY_MS : Nat := 60000
def GATEWAY_CLEANUP_MAX_RETRY_COUNT : Nat := 30
def GATEWAY_AUTH_REFRESH_PENDING_ERROR : String := "authentication refresh is in flight"

/-! ## Tables -/

structure RegistrationKey where
  principalId : String
  clientId : String
  subId : Nat
  deriving DecidableEq

inductive Lifecycle
  | installing
  | active
  | retiring
  deriving DecidableEq

inductive CdbState
  | pending
  | active
  | retiring
  | error
  deriving DecidableEq

/-- The columns that retirement scrubs. -/
structure Payload where
  ref : String
  argsJson : String
  intentJson : String
  policyDigest : String
  queryHash : String
  shardId : String
  lastCookie : Option String
  lastSnapshotCookie : Option String
  deriving DecidableEq

/-- `GATEWAY_RETIRED_PAYLOAD_ASSIGNMENTS`. -/
def Payload.retired : Payload where
  ref := ""
  argsJson := "null"
  intentJson := "null"
  policyDigest := ""
  queryHash := ""
  shardId := ""
  lastCookie := none
  lastSnapshotCookie := none

structure AuthEpochs where
  global : Nat
  tenant : Nat
  principal : Nat
  deriving DecidableEq

/-- A row of `_gw_registration_generations`. -/
structure Generation where
  registrationId : String
  key : RegistrationKey
  connectionId : String
  organizationId : String
  payload : Payload
  sourceCdbId : String
  schemaEpoch : Nat
  recoveryGeneration : Nat
  domainSchemaEpoch : Nat
  authEpochs : AuthEpochs
  lifecycle : Lifecycle
  cdbState : CdbState
  dirtyVersion : Nat
  deliveredVersion : Nat
  initialSnapshotPending : Bool
  runToken : Option String
  runTargetVersion : Option Nat
  runLeaseExpiresAt : Option Nat
  runVersion : Nat
  retryCount : Nat
  retryAt : Option Nat
  retryError : Option String
  createdAt : Nat
  updatedAt : Nat
  deriving DecidableEq

/-- The `CHECK` constraints that relate columns. -/
def Generation.Check (g : Generation) : Prop :=
  g.deliveredVersion ≤ g.dirtyVersion ∧ ∀ t ∈ g.runTargetVersion, t ≤ g.dirtyVersion

instance : DecidablePred Generation.Check := fun _ => inferInstanceAs (Decidable (_ ∧ _))

/-- A row of `_gw_registration_heads`. -/
structure Head where
  key : RegistrationKey
  registrationId : String
  updatedAt : Nat
  deriving DecidableEq

/-- A row of `_gw_snapshot_outbox`. -/
structure OutboxRow where
  registrationId : String
  cookie : String
  targetVersion : Nat
  rowsJson : String
  byteSize : Nat
  sendAttempts : Nat
  nextAttemptAt : Nat
  claimToken : Option String
  claimVersion : Nat
  claimExpiresAt : Option Nat
  attachmentBaseCookie : Option String
  lastSentAt : Option Nat
  lastError : Option String
  createdAt : Nat
  deriving DecidableEq

abbrev GenerationTable := Table Generation.registrationId Generation.Check
abbrev HeadTable := Table Head.key fun _ => True
abbrev OutboxTable := Table OutboxRow.registrationId fun _ => True

structure GatewayDb where
  generations : GenerationTable
  heads : HeadTable
  outbox : OutboxTable

def GatewayDb.empty : GatewayDb := ⟨.empty, .empty, .empty⟩

/-! ## Conditions that statements share -/

/-- `EXISTS (SELECT 1 FROM _gw_registration_heads h WHERE …)`: the generation owns its head. -/
def GatewayDb.Current (db : GatewayDb) (g : Generation) : Prop :=
  ∃ h ∈ db.heads.rows, h.registrationId = g.registrationId ∧ h.key = g.key

/-- A head names the generation. -/
def GatewayDb.Headed (db : GatewayDb) (registrationId : String) : Prop :=
  ∃ h ∈ db.heads.rows, h.registrationId = registrationId

/-- `EXISTS (SELECT 1 FROM _gw_snapshot_outbox o WHERE …)`. -/
def GatewayDb.Staged (db : GatewayDb) (registrationId : String) : Prop :=
  (db.outbox.find? registrationId).isSome = true

instance (db : GatewayDb) (g : Generation) : Decidable (db.Current g) :=
  inferInstanceAs (Decidable (∃ h ∈ db.heads.rows, _))

instance (db : GatewayDb) (registrationId : String) : Decidable (db.Headed registrationId) :=
  inferInstanceAs (Decidable (∃ h ∈ db.heads.rows, _))

instance (db : GatewayDb) (registrationId : String) : Decidable (db.Staged registrationId) :=
  inferInstanceAs (Decidable (_ = true))

/-- A registration as its callers name it. -/
structure Identity where
  registrationId : String
  key : RegistrationKey
  connectionId : String
  deriving DecidableEq

def Generation.Is (g : Generation) (i : Identity) : Prop :=
  g.registrationId = i.registrationId ∧ g.key = i.key ∧ g.connectionId = i.connectionId

instance (g : Generation) (i : Identity) : Decidable (g.Is i) := inferInstanceAs (Decidable (_ ∧ _))

/-- `lifecycle = 'active' AND cdb_state = 'active'`. -/
def Generation.Active (g : Generation) : Prop := g.lifecycle = .active ∧ g.cdbState = .active

instance (g : Generation) : Decidable g.Active := inferInstanceAs (Decidable (_ ∧ _))

def Generation.Idle (g : Generation) : Prop :=
  g.runToken = none ∧ g.runTargetVersion = none ∧ g.runLeaseExpiresAt = none

instance (g : Generation) : Decidable g.Idle := inferInstanceAs (Decidable (_ ∧ _))

/-- No run, or one whose lease has expired. -/
def Generation.Claimable (g : Generation) (nowMs : Nat) : Prop :=
  g.Idle ∨ (g.runToken.isSome = true ∧ g.runTargetVersion.isSome = true ∧
    ∃ t ∈ g.runLeaseExpiresAt, t ≤ nowMs)

instance (g : Generation) (nowMs : Nat) : Decidable (g.Claimable nowMs) :=
  inferInstanceAs (Decidable (_ ∨ _))

/-- `initial_snapshot_pending = 1 OR dirty_version > delivered_version`. -/
def Generation.Dirty (g : Generation) : Prop :=
  g.initialSnapshotPending = true ∨ g.deliveredVersion < g.dirtyVersion

instance (g : Generation) : Decidable g.Dirty := inferInstanceAs (Decidable (_ ∨ _))

def Generation.stopRun (g : Generation) : Generation :=
  { g with
    runToken := none
    runTargetVersion := none
    runLeaseExpiresAt := none
    runVersion := g.runVersion + 1 }

/-- What retirement makes of a generation; one that is pending stays so. -/
def Generation.retire (g : Generation) (nowMs : Nat) : Generation :=
  { g.stopRun with
    payload := .retired
    lifecycle := .retiring
    cdbState := if g.cdbState = .pending then .pending else .retiring
    retryCount := 0
    retryAt := if g.cdbState = .pending then g.retryAt else some nowMs
    retryError := none
    updatedAt := nowMs }

/-- `gatewayRetryDelayMs`. -/
def gatewayRetryDelayMs (attempts : Nat) : Nat :=
  min GATEWAY_CLEANUP_MAX_RETRY_MS
    (GATEWAY_CLEANUP_BASE_RETRY_MS *
      Nat.pow 2 (min (attempts - 1) (GATEWAY_CLEANUP_MAX_RETRY_COUNT - 1)))

namespace GatewayDb

/-! ## Statements -/

/-- `UPDATE _gw_registration_generations`, with the number of rows changed. -/
def updateGenerations (db : GatewayDb) (p : Generation → Bool) (f : Generation → Generation) :
    Option (GatewayDb × Nat) :=
  (db.generations.update? p f).map fun t =>
    ({ db with generations := t }, (db.generations.select p).length)

/-- `UPDATE _gw_snapshot_outbox`; a second row with a cookie breaks a constraint. -/
def updateOutbox (db : GatewayDb) (p : OutboxRow → Bool) (f : OutboxRow → OutboxRow) :
    Option (GatewayDb × Nat) :=
  (db.outbox.update? p f).map fun t => ({ db with outbox := t }, (db.outbox.select p).length)

/-- `DELETE FROM _gw_snapshot_outbox`. -/
def deleteOutbox (db : GatewayDb) (p : OutboxRow → Bool) : GatewayDb :=
  { db with outbox := db.outbox.deleteWhere p }

/-- `DELETE FROM _gw_registration_heads` of one subscription. -/
def deleteHead (db : GatewayDb) (key : RegistrationKey) (registrationId : String) : GatewayDb :=
  { db with
    heads := db.heads.deleteWhere fun h => decide (h.key = key ∧ h.registrationId = registrationId) }

/-- `DELETE FROM _gw_registration_generations`: a head that names the row refuses it, and an outbox
row goes with it. -/
def deleteGenerations (db : GatewayDb) (p : Generation → Bool) : Option (GatewayDb × Nat) :=
  if ∃ g ∈ db.generations.rows, p g = true ∧ db.Headed g.registrationId then none
  else some
    ({ db with
      generations := db.generations.deleteWhere p
      outbox := db.outbox.deleteWhere fun o =>
        decide (∃ g ∈ db.generations.rows, p g = true ∧ g.registrationId = o.registrationId) },
      (db.generations.select p).length)

/-- `INSERT INTO _gw_registration_heads … ON CONFLICT DO UPDATE`: a head of another subscription with
the id, or an id without a generation, breaks a constraint. -/
def upsertHead (db : GatewayDb) (head : Head) : Option GatewayDb :=
  if (∃ h ∈ db.heads.rows, h.registrationId = head.registrationId ∧ h.key ≠ head.key) ∨
      (db.generations.find? head.registrationId).isNone = true then none
  else (db.heads.upsert? head fun h =>
    { h with registrationId := head.registrationId, updatedAt := head.updatedAt }).map fun t =>
      { db with heads := t }

/-! ## Installing -/

structure Install where
  identity : Identity
  organizationId : String
  payload : Payload
  sourceCdbId : String
  schemaEpoch : Nat
  recoveryGeneration : Nat
  domainSchemaEpoch : Nat
  authEpochs : AuthEpochs
  nowMs : Nat

def Install.generation (input : Install) : Generation where
  registrationId := input.identity.registrationId
  key := input.identity.key
  connectionId := input.identity.connectionId
  organizationId := input.organizationId
  payload := { input.payload with lastSnapshotCookie := none }
  sourceCdbId := input.sourceCdbId
  schemaEpoch := input.schemaEpoch
  recoveryGeneration := input.recoveryGeneration
  domainSchemaEpoch := input.domainSchemaEpoch
  authEpochs := input.authEpochs
  lifecycle := .installing
  cdbState := .pending
  dirtyVersion := 0
  deliveredVersion := 0
  initialSnapshotPending := false
  runToken := none
  runTargetVersion := none
  runLeaseExpiresAt := none
  runVersion := 0
  retryCount := 0
  retryAt := none
  retryError := none
  createdAt := input.nowMs
  updatedAt := input.nowMs

/-- What happens to the generation that had the head. -/
def supersede (db : GatewayDb) (registrationId : String) (key : RegistrationKey) (nowMs : Nat) :
    Option GatewayDb :=
  (db.updateGenerations (fun g => decide (g.registrationId = registrationId ∧ g.key = key))
    (Generation.retire · nowMs)).map fun (db, _) =>
      db.deleteOutbox fun o => decide (o.registrationId = registrationId)

/-- `refused` says whether keeping the replay throws or the quota is exceeded. -/
def installGatewayRegistration (db : GatewayDb) (input : Install) (refused : Bool) :
    Option (GatewayDb × Option String) := do
  let key := input.identity.key
  let previous := (db.heads.find? key).map (·.registrationId)
  let generations ← db.generations.insert? input.generation
  let db : GatewayDb := { db with generations }
  let db ← match previous with
    | none => some db
    | some registrationId => db.supersede registrationId key input.nowMs
  let db ← db.upsertHead ⟨key, input.identity.registrationId, input.nowMs⟩
  if refused then none else some (db, previous)

/-- A pending install that still has its head. -/
def Installing (db : GatewayDb) (i : Identity) (g : Generation) : Prop :=
  g.Is i ∧ g.lifecycle = .installing ∧ g.cdbState = .pending ∧ db.Current g

instance (db : GatewayDb) (i : Identity) (g : Generation) : Decidable (db.Installing i g) :=
  inferInstanceAs (Decidable (_ ∧ _))

def armGatewaySubscriptionRecovery (db : GatewayDb) (i : Identity) (recoveryAt nowMs : Nat) :
    Option (GatewayDb × Bool) :=
  if recoveryAt ≤ nowMs then none
  else (db.updateGenerations (fun g => decide (db.Installing i g)) fun g =>
    { g with
      retryAt := some recoveryAt
      retryError := some "subscription install recovery"
      updatedAt := nowMs }).map fun (db, n) => (db, n == 1)

def activateGatewaySubscription (db : GatewayDb) (i : Identity) (changeSeq nowMs : Nat) :
    Option (GatewayDb × Bool) :=
  (db.updateGenerations (fun g => decide (db.Installing i g)) fun g =>
    { g with
      lifecycle := .active
      cdbState := .active
      dirtyVersion := max g.dirtyVersion changeSeq
      initialSnapshotPending := true
      retryCount := 0
      retryAt := none
      retryError := none
      updatedAt := nowMs }).map fun (db, n) => (db, n == 1)

/-- A pending generation, with its head or without. -/
def Pending (i : Identity) (g : Generation) : Prop := g.Is i ∧ g.cdbState = .pending

instance (i : Identity) (g : Generation) : Decidable (Pending i g) :=
  inferInstanceAs (Decidable (_ ∧ _))

def deleteNeverRegisteredGatewaySubscription (db : GatewayDb) (i : Identity) :
    Option (GatewayDb × Bool) :=
  if db.generations.rows.any fun g => decide (Pending i g) then
    let db := db.deleteHead i.key i.registrationId
    let db := db.deleteOutbox fun o => decide (o.registrationId = i.registrationId)
    (db.deleteGenerations fun g => decide (Pending i g)).map fun (db, n) => (db, n == 1)
  else some (db, false)

/-- What is made of a generation of which the Cdb may know. -/
def ambiguous (nowMs : Nat) (g : Generation) : Generation :=
  { g.stopRun with
    payload := .retired
    lifecycle := .retiring
    cdbState := .retiring
    retryCount := 0
    retryAt := some nowMs
    retryError := none
    updatedAt := nowMs }

def markPendingGatewaySubscriptionAmbiguous (db : GatewayDb) (i : Identity) (nowMs : Nat) :
    Option (GatewayDb × Bool) :=
  if db.generations.rows.any fun g => decide (Pending i g) then do
    let db := db.deleteHead i.key i.registrationId
    let (db, n) ← db.updateGenerations (fun g => decide (Pending i g)) (ambiguous nowMs)
    if n ≠ 1 then some (db, false)
    else some (db.deleteOutbox fun o => decide (o.registrationId = i.registrationId), true)
  else some (db, false)

/-! ## Invalidation -/

/-- One invalidation of a batch; a throw undoes the batch. -/
def acceptInvalidation (db : GatewayDb) (i : Identity) (sourceCdbId : String)
    (changeSeq updatedAt : Nat) : Option (GatewayDb × Bool) :=
  match db.generations.find? i.registrationId with
  | none => some (db, false)
  | some stored =>
    if ¬ db.Current stored ∨ stored.lifecycle = .retiring ∨ stored.cdbState = .retiring then
      some (db, false)
    else if stored.sourceCdbId ≠ sourceCdbId ∨ stored.connectionId ≠ i.connectionId ∨
        stored.key.clientId ≠ i.key.clientId ∨ stored.key.subId ≠ i.key.subId then none
    else do
      let (db, n) ← db.updateGenerations (fun g => decide (g.registrationId = i.registrationId ∧
          g.connectionId = i.connectionId ∧ g.key.clientId = i.key.clientId ∧
          g.key.subId = i.key.subId ∧ g.sourceCdbId = sourceCdbId ∧ g.lifecycle ≠ .retiring ∧
          g.cdbState ≠ .retiring ∧ db.Current g)) fun g =>
        { g with dirtyVersion := max g.dirtyVersion changeSeq, updatedAt }
      if n ≠ 1 then none else some (db, true)

/-! ## Runs -/

/-- An active generation that has its head. -/
def Owned (db : GatewayDb) (i : Identity) (g : Generation) : Prop :=
  g.Is i ∧ g.Active ∧ db.Current g

instance (db : GatewayDb) (i : Identity) (g : Generation) : Decidable (db.Owned i g) :=
  inferInstanceAs (Decidable (_ ∧ _))

/-- The rows of `claimDirtyGatewayRegistration`. -/
def Claims (db : GatewayDb) (i : Identity) (nowMs : Nat) (g : Generation) : Prop :=
  db.Owned i g ∧ g.sourceCdbId ≠ "" ∧ g.Dirty ∧ (∀ t ∈ g.retryAt, t ≤ nowMs) ∧
    ¬ db.Staged g.registrationId ∧ g.Claimable nowMs

instance (db : GatewayDb) (i : Identity) (nowMs : Nat) (g : Generation) :
    Decidable (db.Claims i nowMs g) := inferInstanceAs (Decidable (_ ∧ _))

/-- The update finds the row that the query found, as nothing comes between; `runToken` is the new
one. -/
def claimDirtyGatewayRegistration (db : GatewayDb) (i : Identity)
    (runToken : String) (nowMs leaseExpiresAt : Nat) : Option (GatewayDb × Bool) :=
  if leaseExpiresAt ≤ nowMs then none
  else (db.updateGenerations (fun g => decide (db.Claims i nowMs g)) fun g =>
    { g with
      runToken := some runToken
      runTargetVersion := some g.dirtyVersion
      runLeaseExpiresAt := some leaseExpiresAt
      runVersion := g.runVersion + 1
      updatedAt := nowMs }).map fun (db, n) => (db, n == 1)

/-- The run that `runToken` and `runVersion` name. -/
def Runs (db : GatewayDb) (i : Identity) (runToken : String) (runVersion : Nat) (g : Generation) :
    Prop := db.Owned i g ∧ g.runToken = some runToken ∧ g.runVersion = runVersion

instance (db : GatewayDb) (i : Identity) (runToken : String) (runVersion : Nat) (g : Generation) :
    Decidable (db.Runs i runToken runVersion g) := inferInstanceAs (Decidable (_ ∧ _))

structure Stage where
  identity : Identity
  cookie : String
  rowsJson : String
  byteSize : Nat
  runToken : String
  runVersion : Nat
  targetVersion : Nat
  recoveryGeneration : Nat
  authEpochs : AuthEpochs
  nowMs : Nat

def Stage.row (input : Stage) : OutboxRow where
  registrationId := input.identity.registrationId
  cookie := input.cookie
  targetVersion := input.targetVersion
  rowsJson := input.rowsJson
  byteSize := input.byteSize
  sendAttempts := 0
  nextAttemptAt := input.nowMs
  claimToken := none
  claimVersion := 0
  claimExpiresAt := none
  attachmentBaseCookie := none
  lastSentAt := none
  lastError := none
  createdAt := input.nowMs

/-- `refused` says whether the quota is exceeded; a cookie is staged once. -/
def stageGatewaySnapshot (db : GatewayDb) (input : Stage) (refused : Bool) :
    Option (GatewayDb × Bool) := do
  let (db', n) ← db.updateGenerations (fun g => decide
      (db.Runs input.identity input.runToken input.runVersion g ∧
        g.runTargetVersion = some input.targetVersion ∧ ¬ db.Staged g.registrationId)) fun g =>
    { g.stopRun with
      recoveryGeneration := input.recoveryGeneration
      authEpochs := input.authEpochs
      retryCount := 0
      retryAt := none
      retryError := none
      updatedAt := input.nowMs }
  if n ≠ 1 then some (db', false)
  else if db'.outbox.rows.any fun o => decide (o.cookie = input.cookie) then none
  else do
    let outbox ← db'.outbox.insert? input.row
    if refused then none else some ({ db' with outbox }, true)

def failGatewayDirtyRun (db : GatewayDb) (i : Identity) (runToken : String)
    (runVersion nowMs : Nat) (retryNotBeforeMs : Option Nat) (error : String) :
    Option (GatewayDb × Bool) :=
  (db.updateGenerations (fun g => decide (db.Runs i runToken runVersion g)) fun g =>
    let attempts := min (g.retryCount + 1) GATEWAY_CLEANUP_MAX_RETRY_COUNT
    { g.stopRun with
      retryCount := attempts
      retryAt := some (max (nowMs + gatewayRetryDelayMs attempts) (retryNotBeforeMs.getD nowMs))
      retryError := some error
      updatedAt := nowMs }).map fun (db, n) => (db, n == 1)

def deferGatewayDirtyRun (db : GatewayDb) (i : Identity) (nowMs retryAt : Nat) :
    Option (GatewayDb × Bool) :=
  if retryAt ≤ nowMs then none
  else (db.updateGenerations (fun g => decide (db.Owned i g ∧ g.Idle ∧ g.Dirty)) fun g =>
    { g with
      retryAt := some (max (g.retryAt.getD 0) retryAt)
      retryError := some GATEWAY_AUTH_REFRESH_PENDING_ERROR
      updatedAt := nowMs }).map fun (db, n) => (db, n == 1)

/-! ## Sending -/

/-- An active generation with its head has this outbox row. -/
def Sendable (db : GatewayDb) (o : OutboxRow) : Prop :=
  ∃ g ∈ db.generations.rows, g.registrationId = o.registrationId ∧ g.Active ∧ db.Current g

instance (db : GatewayDb) (o : OutboxRow) : Decidable (db.Sendable o) :=
  inferInstanceAs (Decidable (∃ g ∈ db.generations.rows, _))

/-- The rows of `claimDueGatewaySnapshot`, without its filters on connections. -/
def Due (db : GatewayDb) (nowMs : Nat) (o : OutboxRow) : Prop :=
  o.nextAttemptAt ≤ nowMs ∧ (o.claimToken = none ∨ ∀ t ∈ o.claimExpiresAt, t ≤ nowMs) ∧
    db.Sendable o

instance (db : GatewayDb) (nowMs : Nat) (o : OutboxRow) : Decidable (db.Due nowMs o) :=
  inferInstanceAs (Decidable (_ ∧ _))

/-- The oldest due row that `allowed` lets through is claimed. -/
def claimDueGatewaySnapshot (db : GatewayDb) (allowed : OutboxRow → Bool) (claimToken : String)
    (nowMs attemptExpiresAt : Nat) : Option (GatewayDb × Option OutboxRow) :=
  if attemptExpiresAt ≤ nowMs then none
  else match (db.outbox.rows.filter fun o => decide (db.Due nowMs o) && allowed o).mergeSort
      (fun a b => decide (a.nextAttemptAt < b.nextAttemptAt ∨
        a.nextAttemptAt = b.nextAttemptAt ∧ a.registrationId ≤ b.registrationId)) with
    | [] => some (db, none)
    | due :: _ =>
      (db.updateOutbox (fun o => decide (o.registrationId = due.registrationId)) fun o =>
        { o with
          sendAttempts := min (o.sendAttempts + 1) GATEWAY_CLEANUP_MAX_RETRY_COUNT
          nextAttemptAt := attemptExpiresAt
          claimToken := some claimToken
          claimVersion := o.claimVersion + 1
          claimExpiresAt := some attemptExpiresAt
          lastSentAt := some nowMs }).map fun (db, _) => (db, some due)

/-- The send claim that a caller names. -/
structure SendClaim where
  identity : Identity
  cookie : String
  claimToken : String
  claimVersion : Nat

def SendClaim.Names (c : SendClaim) (o : OutboxRow) : Prop :=
  o.registrationId = c.identity.registrationId ∧ o.cookie = c.cookie ∧
    o.claimToken = some c.claimToken ∧ o.claimVersion = c.claimVersion

instance (c : SendClaim) (o : OutboxRow) : Decidable (c.Names o) :=
  inferInstanceAs (Decidable (_ ∧ _))

/-- The claimed row belongs to an active generation with its head. -/
def ClaimOwned (db : GatewayDb) (c : SendClaim) (o : OutboxRow) : Prop :=
  c.Names o ∧ ∃ g ∈ db.generations.rows, db.Owned c.identity g

instance (db : GatewayDb) (c : SendClaim) (o : OutboxRow) : Decidable (db.ClaimOwned c o) :=
  inferInstanceAs (Decidable (_ ∧ _))

def discardClaimedGatewaySnapshot (db : GatewayDb) (c : SendClaim) : Option (GatewayDb × Bool) :=
  let p := fun o => decide (db.ClaimOwned c o)
  some (db.deleteOutbox p, (db.outbox.select p).length == 1)

def failGatewaySnapshotSend (db : GatewayDb) (c : SendClaim) (nowMs : Nat)
    (retryNotBeforeMs : Option Nat) (error : String) : Option (GatewayDb × Bool) :=
  (db.updateOutbox (fun o => decide (c.Names o)) fun o =>
    { o with
      claimToken := none
      claimExpiresAt := none
      nextAttemptAt := max (nowMs + gatewayRetryDelayMs (max 1 o.sendAttempts))
        (retryNotBeforeMs.getD nowMs)
      lastError := some error }).map fun (db, n) => (db, n == 1)

/-! ## Retiring -/

def retireGatewayRegistration (db : GatewayDb) (key : RegistrationKey) (registrationId : String)
    (nowMs : Nat) : Option (GatewayDb × Bool) :=
  if db.heads.rows.any fun h => decide (h.key = key ∧ h.registrationId = registrationId) then
    ((db.deleteHead key registrationId).supersede registrationId key nowMs).map fun db => (db, true)
  else some (db, false)

/-- Retire the generation of a subscription that a connection has. -/
def retireCurrentGatewayRegistration (db : GatewayDb) (key : RegistrationKey)
    (connectionId : String) (nowMs : Nat) : Option (GatewayDb × Option Generation) :=
  match db.generations.rows.find? fun g => decide (g.key = key ∧ g.connectionId = connectionId ∧
      db.Current g) with
  | none => some (db, none)
  | some current => do
    let (db, n) ← db.updateGenerations (fun g => decide (g.registrationId = current.registrationId ∧
      g.key = key ∧ g.connectionId = connectionId)) (Generation.retire · nowMs)
    if n ≠ 1 then none
    else
      let db := db.deleteOutbox fun o => decide (o.registrationId = current.registrationId)
      some (db.deleteHead key current.registrationId, some current)

/-- Retire the current generations of a connection one by one. -/
def retireAll (nowMs : Nat) : List Generation → GatewayDb → Option GatewayDb
  | [], db => some db
  | g :: gs, db =>
    match db.retireCurrentGatewayRegistration g.key g.connectionId nowMs with
    | some (db, some retired) =>
      if retired.registrationId = g.registrationId then retireAll nowMs gs db else none
    | _ => none

def retireCurrentGatewayRegistrationsForConnection (db : GatewayDb) (connectionId : String)
    (nowMs : Nat) (refused : Bool) : Option GatewayDb :=
  if refused then none
  else retireAll nowMs (db.generations.select fun g =>
    decide (g.connectionId = connectionId ∧ db.Current g)) db

def retireClaimedGatewayRegistration (db : GatewayDb) (i : Identity) (runToken : String)
    (runVersion nowMs : Nat) : Option (GatewayDb × Bool) :=
  if db.generations.rows.any fun g => decide (db.Runs i runToken runVersion g) then
    db.retireGatewayRegistration i.key i.registrationId nowMs
  else some (db, false)

def retireClaimedGatewaySnapshot (db : GatewayDb) (c : SendClaim) (nowMs : Nat) :
    Option (GatewayDb × Bool) :=
  if db.outbox.rows.any fun o => decide (db.ClaimOwned c o) then
    db.retireGatewayRegistration c.identity.key c.identity.registrationId nowMs
  else some (db, false)

/-- Bind a send claim to a cookie; `exceeds` says whether that exceeds the quota. -/
def markGatewaySnapshotSendBaseCookie (db : GatewayDb) (c : SendClaim) (baseCookie : Option String)
    (nowMs : Nat) (exceeds : Bool) : Option (GatewayDb × Bool) := do
  let (db', n) ← db.updateOutbox (fun o => decide (db.ClaimOwned c o ∧
      ∃ t ∈ o.claimExpiresAt, nowMs < t)) fun o =>
    { o with attachmentBaseCookie := o.attachmentBaseCookie.or baseCookie }
  if n ≠ 1 then some (db', false)
  else if ¬ exceeds then some (db', true)
  else match ← db'.retireClaimedGatewaySnapshot c nowMs with
    | (db, true) => some (db, true)
    | (_, false) => none

/-! ## Acknowledging -/

/-- `refused` says whether the quota is exceeded. -/
def acknowledgeGatewaySnapshot (db : GatewayDb) (i : Identity) (cookie : String) (nowMs : Nat)
    (refused : Bool) : Option (GatewayDb × Bool) :=
  match db.outbox.rows.find? fun o => decide (o.registrationId = i.registrationId ∧
      o.cookie = cookie ∧ 0 < o.sendAttempts ∧ o.lastSentAt.isSome ∧ o.claimToken.isSome ∧
      ∃ g ∈ db.generations.rows, db.Owned i g) with
  | none => some (db, db.generations.rows.any fun g =>
      decide (db.Owned i g ∧ g.payload.lastSnapshotCookie = some cookie))
  | some staged => do
    let (db', n) ← db.updateGenerations (fun g => decide (db.Owned i g ∧
        g.deliveredVersion ≤ staged.targetVersion ∧ staged.targetVersion ≤ g.dirtyVersion)) fun g =>
      { g with
        deliveredVersion := max g.deliveredVersion staged.targetVersion
        initialSnapshotPending := false
        payload := { g.payload with lastCookie := some cookie, lastSnapshotCookie := some cookie }
        updatedAt := nowMs }
    if n ≠ 1 then some (db', false)
    else
      let p := fun o : OutboxRow => decide (o.registrationId = i.registrationId ∧ o.cookie = cookie ∧
        o.targetVersion = staged.targetVersion)
      if (db'.outbox.select p).length ≠ 1 then none
      else if refused then none
      else some (db'.deleteOutbox p, true)

/-- Work that was put off for a refresh of the connection is due again. -/
def resumeGatewayAuthDeferredWork (db : GatewayDb) (connectionId : String) (nowMs : Nat) :
    Option (GatewayDb × Bool) := do
  let (db', n) ← db.updateGenerations (fun g => decide (g.connectionId = connectionId ∧ g.Active ∧
      g.retryError = some GATEWAY_AUTH_REFRESH_PENDING_ERROR ∧ g.Idle ∧ g.Dirty ∧ db.Current g))
    fun g => { g with retryAt := some nowMs, retryError := none, updatedAt := nowMs }
  let (db'', m) ← db'.updateOutbox (fun o => decide
      (o.lastError = some GATEWAY_AUTH_REFRESH_PENDING_ERROR ∧ ∃ g ∈ db'.generations.rows,
        g.registrationId = o.registrationId ∧ g.connectionId = connectionId ∧ g.Active ∧
          db'.Current g)) fun o => { o with nextAttemptAt := nowMs, lastError := none }
  some (db'', decide (0 < n ∨ 0 < m))

/-! ## Cleanup -/

/-- A generation that may be removed: it is retiring on both sides and has no head. -/
def Cleanable (db : GatewayDb) (key : RegistrationKey) (registrationId : String) (g : Generation) :
    Prop :=
  g.registrationId = registrationId ∧ g.key = key ∧ g.lifecycle = .retiring ∧
    g.cdbState = .retiring ∧ ¬ db.Headed g.registrationId

instance (db : GatewayDb) (key : RegistrationKey) (registrationId : String) (g : Generation) :
    Decidable (db.Cleanable key registrationId g) := inferInstanceAs (Decidable (_ ∧ _))

def cleanupGatewayRegistration (db : GatewayDb) (key : RegistrationKey) (registrationId : String) :
    Option (GatewayDb × Bool) :=
  (db.deleteGenerations fun g => decide (db.Cleanable key registrationId g)).map fun (db, n) =>
    (db, n == 1)

/-- `completeGatewayCleanup`, and `completeLegacyGatewayCleanup` where `sourceCdbId` is empty. -/
def completeGatewayCleanup (db : GatewayDb) (i : Identity) (sourceCdbId : String) :
    Option GatewayDb := do
  let (db', n) ← db.deleteGenerations fun g => decide (db.Cleanable i.key i.registrationId g ∧
    g.connectionId = i.connectionId ∧ g.sourceCdbId = sourceCdbId)
  if n = 1 then some db'
  else if (db'.generations.find? i.registrationId).isSome then none
  else some db'

/-- `retryCount` is that of the row the cleanup began with. -/
def recordGatewayCleanupFailure (db : GatewayDb) (i : Identity) (retryCount nowMs : Nat)
    (error : String) : Option GatewayDb :=
  let attempts := min (retryCount + 1) GATEWAY_CLEANUP_MAX_RETRY_COUNT
  (db.updateGenerations (fun g => decide (db.Cleanable i.key i.registrationId g ∧
      g.connectionId = i.connectionId)) fun g =>
    { g with
      retryCount := attempts
      retryAt := some (nowMs + gatewayRetryDelayMs attempts)
      retryError := some error
      updatedAt := nowMs }).map Prod.fst

end GatewayDb

end Chardb.Gateway
