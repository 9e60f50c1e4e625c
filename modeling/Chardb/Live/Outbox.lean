import Chardb.Live.Store

/-!
# The invalidation outbox

Six commits enqueue invalidations: each selects the active registrations it concerns,
moves the change clock by one and leaves every selected registration with one outbox
row of the new sequence. The drain reads due rows, counts failed deliveries and
deletes rows by the exact sequence that a gateway acknowledges.
-/

namespace Chardb.Live

open Chardb.Lib

/-! ## Enqueueing -/

/-- `SELECT … WHERE state = 'active' AND … ORDER BY gateway_id, registration_id LIMIT ?`. -/
def activeRegistrations (db : LiveDb) (p : SubscriptionPayload → Bool) (limit : Nat) :
    List RegistrationKey :=
  ((db.subscriptions.orderBy (fun r => r.state.payload?.any p) fun r => toLex r.key).map
    StoredSubscriptionRow.key).take limit

/-- `SELECT DISTINCT` of the active registrations that read one of the tables. -/
def touchedRegistrations (db : LiveDb) (touchedTables : List String) (limit : Nat) :
    List RegistrationKey :=
  (((db.tables.orderBy
    (fun m => decide (m.tableName ∈ touchedTables) && (db.payload? m.registration).isSome)
    fun m => toLex m.registration).map SubscriptionTableRow.registration).dedup).take limit

/-- The active registrations that depend on a vector resource. -/
def vectorRegistrations (db : LiveDb) (resourceId : String) : List RegistrationKey :=
  (db.vectors.select fun m =>
    decide (m.resourceId = resourceId) && (db.payload? m.registration).isSome).map
    SubscriptionVectorRow.registration

/-- The registrations among these that have no outbox row. -/
def missingOutboxRows (db : LiveDb) (registrations : List RegistrationKey) : Nat :=
  (registrations.filter fun key => (db.outbox.find? key).isNone).length

/-- The whole outbox is counted only when rows are to be added. -/
def assertOutboxCapacity (missing : Nat) : LiveTx Unit :=
  if 0 < missing then do
    let existing ← durableRowCount (fun db => db.outbox.count) "invalidation outbox"
    .require (existing + missing ≤ CDB_MAX_INVALIDATION_OUTBOX_ROWS)
      (.cdb (subscriptionCapacityExceeded "invalidation outbox" CDB_MAX_INVALIDATION_OUTBOX_ROWS))
  else pure ()

/-- `UPDATE _chardb_change_clock SET change_seq = change_seq + 1`. -/
def advanceChangeClock : LiveTx Int := do
  let changes ← onClock (Table.update (fun _ => true) (fun r => ⟨r.changeSeq + 1⟩)
    (.constraint "_chardb_change_clock"))
  .require (changes = 1) (subscriptionInvariant "Cdb change clock update did not affect one row")
  currentChangeSeq

/-- `INSERT INTO _chardb_invalidation_outbox … ON CONFLICT … DO UPDATE`, for each registration. -/
def upsertOutbox (changeSeq : Int) : List RegistrationKey → LiveTx Unit
  | [] => pure ()
  | registration :: registrations => do
    requireSubscription registration "_chardb_invalidation_outbox"
    onOutbox (Table.upsert { registration, changeSeq } (OutboxRow.bump changeSeq)
      (.constraint "_chardb_invalidation_outbox"))
    upsertOutbox changeSeq registrations

def enqueueRegistrationInvalidations (registrations : List RegistrationKey) (advanceWhenEmpty : Bool) :
    LiveTx Int :=
  if registrations = [] ∧ advanceWhenEmpty = false then currentChangeSeq
  else do
    let missing ← .gets fun db => missingOutboxRows db registrations
    assertOutboxCapacity missing
    let changeSeq ← advanceChangeClock
    upsertOutbox changeSeq registrations
    pure changeSeq

/-- The tables a committed mutation touched. -/
def enqueueInvalidations (touchedTables : List String) : LiveTx Int := do
  let registrations ← .gets fun db =>
    if touchedTables = [] then []
    else touchedRegistrations db touchedTables (CDB_MAX_INVALIDATIONS_PER_MUTATION + 1)
  .require (registrations.length ≤ CDB_MAX_INVALIDATIONS_PER_MUTATION)
    (.cdb (subscriptionCapacityExceeded "mutation invalidation fanout"
      CDB_MAX_INVALIDATIONS_PER_MUTATION))
  enqueueRegistrationInvalidations registrations true

/-- All active registrations whose payload matches. -/
def selectActiveRegistrations (p : SubscriptionPayload → Bool) : LiveTx (List RegistrationKey) := do
  let registrations ← .gets fun db => activeRegistrations db p (CDB_MAX_ACTIVE_LIVE_REGISTRATIONS + 1)
  .require (registrations.length ≤ CDB_MAX_ACTIVE_LIVE_REGISTRATIONS)
    (subscriptionInvariant "active live registration count exceeds its fixed cap")
  pure registrations

/-- The shared part of the enqueues that wake active registrations by their payload. -/
def enqueueActiveRegistrations (p : SubscriptionPayload → Bool) : LiveTx Int := do
  let registrations ← selectActiveRegistrations p
  enqueueRegistrationInvalidations registrations false

def enqueueRecoveryGenerationInvalidations (recoveryGeneration : Int) : LiveTx Int := do
  .require (IsGeneration recoveryGeneration)
    (subscriptionInvariant "recovery invalidation generation is invalid")
  enqueueActiveRegistrations fun payload => payload.recoveryGeneration < recoveryGeneration

def enqueueRoutingFenceInvalidations (rangeLo rangeHi : Int) : LiveTx Int :=
  enqueueActiveRegistrations fun payload => rangeLo ≤ payload.vshard && payload.vshard ≤ rangeHi

structure EnqueueResult where
  registrations : Nat
  changeSeq : Int
  deriving DecidableEq

/-- Wake registrations, and count them. -/
def enqueueAndCount (p : SubscriptionPayload → Bool) : LiveTx EnqueueResult := do
  let registrations ← selectActiveRegistrations p
  if registrations = [] then do
    let changeSeq ← currentChangeSeq
    pure ⟨0, changeSeq⟩
  else do
    let changeSeq ← enqueueRegistrationInvalidations registrations false
    pure ⟨registrations.length, changeSeq⟩

def enqueueSchemaMigrationInvalidations : LiveTx EnqueueResult := enqueueAndCount fun _ => true

inductive AuthScope
  | global
  | tenant
  | principal
  deriving DecidableEq

/-- The predicate of an auth scope. -/
def AuthScope.holds (scope : AuthScope) (scopeId : String) (payload : SubscriptionPayload) : Bool :=
  match scope with
  | .global => true
  | .tenant => payload.organizationId = scopeId
  | .principal => payload.principalId = scopeId

def enqueueAuthScopeInvalidations (scope : AuthScope) (scopeId : String) : LiveTx EnqueueResult :=
  enqueueAndCount (scope.holds scopeId)

def enqueueVectorResourceInvalidations (resourceId : String) : LiveTx EnqueueResult := do
  let canonical ← vectorResourceId resourceId
  let registrations ← .gets fun db => vectorRegistrations db canonical
  .require (IsCounter registrations.length)
    (subscriptionInvariant "live vector dependency count is missing or invalid")
  .require (registrations.length ≤ CDB_MAX_ACTIVE_LIVE_REGISTRATIONS)
    (subscriptionInvariant "live vector dependency count exceeds the active registration cap")
  if registrations = [] then do
    let changeSeq ← currentChangeSeq
    pure ⟨0, changeSeq⟩
  else do
    let missing ← .gets fun db => missingOutboxRows db registrations
    .require (IsCounter missing ∧ missing ≤ registrations.length)
      (subscriptionInvariant "live vector invalidation accounting is missing or invalid")
    assertOutboxCapacity missing
    let changeSeq ← advanceChangeClock
    let fanout ← .gets fun db => vectorRegistrations db canonical
    upsertOutbox changeSeq fanout
    .require (fanout.length = registrations.length)
      (subscriptionInvariant "live vector invalidation fanout changed before enqueue")
    pure ⟨registrations.length, changeSeq⟩

/-! ## Delivery -/

/-- An outbox row joined with its registration. -/
structure StoredInvalidationRow where
  subscription : LiveSubscriptionId
  changeSeq : Int
  attempts : Int
  nextAttemptAt : Int
  lastError : Option String
  deadLetteredAt : Option Int
  deriving DecidableEq

/-- `INNER JOIN _chardb_live_subscriptions`. -/
def joinSubscription (db : LiveDb) (r : OutboxRow) : Option StoredInvalidationRow :=
  (db.subscriptions.find? r.registration).map fun s =>
    ⟨s.subscription, r.changeSeq, r.attempts, r.nextAttemptAt, r.lastError, r.deadLetteredAt⟩

def dueInvalidations (nowMs : Int) : LiveTx (List StoredInvalidationRow) := .gets fun db =>
  ((db.outbox.orderBy (fun r => decide (r.nextAttemptAt ≤ nowMs))
    fun r => toLex (r.nextAttemptAt, toLex r.registration)).filterMap (joinSubscription db)).take
    INVALIDATION_BATCH_SIZE

/-- A failed delivery of `row`, counted in its outbox row. -/
def OutboxRow.fail (row : StoredInvalidationRow) (nowMs : Int) (retryDelayMs : Int → Int)
    (message : String) (r : OutboxRow) : OutboxRow where
  registration := r.registration
  changeSeq := r.changeSeq
  attempts := row.attempts + 1
  nextAttemptAt := nowMs + retryDelayMs (row.attempts + 1)
  lastError := some message
  deadLetteredAt := match row.deadLetteredAt with
    | some t => some t
    | none => if INVALIDATION_MAX_ATTEMPTS ≤ row.attempts + 1 then some nowMs else none

/-- `recordInvalidationFailures`, for an error with this message. -/
def recordInvalidationFailures (nowMs : Int) (retryDelayMs : Int → Int) (errorMessage : String) :
    List StoredInvalidationRow → LiveTx Unit
  | [] => pure ()
  | row :: rows => do
    let _ ← onOutbox (Table.update
      (fun r => decide (r.registration = row.subscription.key) && decide (r.changeSeq = row.changeSeq))
      (OutboxRow.fail row nowMs retryDelayMs (sliceTo 512 errorMessage))
      (.constraint "_chardb_invalidation_outbox"))
    recordInvalidationFailures nowMs retryDelayMs errorMessage rows

structure GatewayInvalidationAck where
  registrationId : String
  changeSeq : Int

def acknowledgeInvalidations (gatewayId : String) : List GatewayInvalidationAck → LiveTx Unit
  | [] => pure ()
  | ack :: acks => do
    let _ ← onOutbox (Table.delete fun r =>
      decide (r.registration = (gatewayId, ack.registrationId)) && decide (r.changeSeq = ack.changeSeq))
    acknowledgeInvalidations gatewayId acks

end Chardb.Live
