import Chardb.Core.Canonical
import Chardb.Core.Vshard
import Chardb.Lib.Table
import Mathlib.Data.String.Basic
import Mathlib.Data.Prod.Lex

/-!
# The live store

A shard keeps its live-query registrations, the tables and the vector resource each
one reads, a change clock, and one outbox row for every registration that has an
invalidation to deliver. A retired registration is a tombstone: only its identity
is left.
-/

namespace Chardb.Live

open Chardb.Lib

/-! ## Registrations -/

structure LiveSubscriptionId where
  gatewayId : String
  registrationId : String
  connectionId : String
  clientId : String
  subId : Int
  deriving DecidableEq

/-- `(gateway_id, registration_id)`. -/
abbrev RegistrationKey := String × String

def LiveSubscriptionId.key (s : LiveSubscriptionId) : RegistrationKey := (s.gatewayId, s.registrationId)

inductive CdbAuthority
  | organization
  | user
  | global
  deriving DecidableEq

def CdbAuthority.text : CdbAuthority → String
  | .organization => "organization"
  | .user => "user"
  | .global => "global"

structure CdbPlacement where
  authority : CdbAuthority
  partitionKey : String

structure CdbSubscriptionRequest (ν : Type) where
  subscription : LiveSubscriptionId
  principalId : String
  organizationId : String
  placement : Option CdbPlacement
  schemaEpoch : Int
  recoveryGeneration : Int
  vshard : Int
  domainSchemaEpoch : Int
  ref : String
  args : Json ν
  queryHash : String
  tables : List String
  intervals : Json ν

/-- The payload columns of an active registration. -/
structure SubscriptionPayload where
  payloadHash : String
  principalId : String
  organizationId : String
  authority : Option CdbAuthority
  schemaEpoch : Int
  recoveryGeneration : Int
  vshard : Int
  domainSchemaEpoch : Int
  ref : String
  argsJson : String
  policyDigest : String
  queryHash : String
  tablesJson : String
  intervalsJson : String
  deriving DecidableEq

/-- The state of a registration; a tombstone has no payload. -/
inductive RegistrationState
  | active (payload : SubscriptionPayload)
  | retired
  deriving DecidableEq

def RegistrationState.payload? : RegistrationState → Option SubscriptionPayload
  | .active payload => some payload
  | .retired => none

/-- A row of `_chardb_live_subscriptions`. -/
structure StoredSubscriptionRow where
  subscription : LiveSubscriptionId
  state : RegistrationState
  deriving DecidableEq

def StoredSubscriptionRow.key (r : StoredSubscriptionRow) : RegistrationKey := r.subscription.key

def SubscriptionPayload.check (p : SubscriptionPayload) : Prop :=
  0 < p.schemaEpoch ∧ 0 ≤ p.recoveryGeneration ∧ (0 ≤ p.vshard ∧ p.vshard < VSHARD_COUNT) ∧
    0 < p.domainSchemaEpoch

instance : DecidablePred SubscriptionPayload.check := fun _ => inferInstanceAs (Decidable (_ ∧ _))

def StoredSubscriptionRow.check (r : StoredSubscriptionRow) : Prop :=
  ∀ p ∈ r.state.payload?, p.check

instance : DecidablePred StoredSubscriptionRow.check := fun r =>
  match h : r.state.payload? with
  | none => isTrue (by simp [StoredSubscriptionRow.check, h])
  | some p => decidable_of_iff p.check (by simp [StoredSubscriptionRow.check, h])

abbrev SubscriptionTable := Table StoredSubscriptionRow.key StoredSubscriptionRow.check

/-- A row of `_chardb_live_subscription_tables`. -/
structure SubscriptionTableRow where
  registration : RegistrationKey
  tableName : String
  deriving DecidableEq

def SubscriptionTableRow.key (r : SubscriptionTableRow) : RegistrationKey × String :=
  (r.registration, r.tableName)

abbrev SubscriptionTables := Table SubscriptionTableRow.key fun _ => True

/-- A row of `_chardb_live_subscription_vectors`. -/
structure SubscriptionVectorRow where
  registration : RegistrationKey
  resourceId : String
  deriving DecidableEq

abbrev SubscriptionVectors :=
  Table SubscriptionVectorRow.registration fun r => r.resourceId.length = 68

/-! ## The clock and the outbox -/

/-- The row of `_chardb_change_clock`. -/
structure ChangeClockRow where
  changeSeq : Int
  deriving DecidableEq

/-- `singleton = 1`. -/
def ChangeClockRow.singleton (_ : ChangeClockRow) : Unit := ()

abbrev ChangeClock := Table ChangeClockRow.singleton fun r => 0 ≤ r.changeSeq

/-- `INSERT INTO _chardb_change_clock (singleton, change_seq) VALUES (1, 0)`. -/
def ChangeClock.initial : ChangeClock := ⟨[⟨0⟩], by simp, by simp⟩

/-- A row of `_chardb_invalidation_outbox`. -/
structure OutboxRow where
  registration : RegistrationKey
  changeSeq : Int
  attempts : Int := 0
  nextAttemptAt : Int := 0
  lastError : Option String := none
  deadLetteredAt : Option Int := none
  deriving DecidableEq

def OutboxRow.check (r : OutboxRow) : Prop := 0 < r.changeSeq ∧ 0 ≤ r.attempts ∧ 0 ≤ r.nextAttemptAt

instance : DecidablePred OutboxRow.check := fun _ => inferInstanceAs (Decidable (_ ∧ _))

abbrev InvalidationOutbox := Table OutboxRow.registration OutboxRow.check

/-- `ON CONFLICT … DO UPDATE`: the newer sequence wins, and starts its delivery over. -/
def OutboxRow.bump (changeSeq : Int) (r : OutboxRow) : OutboxRow where
  registration := r.registration
  changeSeq := max r.changeSeq changeSeq
  attempts := if r.changeSeq < changeSeq then 0 else r.attempts
  nextAttemptAt := if r.changeSeq < changeSeq then 0 else r.nextAttemptAt
  lastError := if r.changeSeq < changeSeq then none else r.lastError
  deadLetteredAt := if r.changeSeq < changeSeq then none else r.deadLetteredAt

/-- The live tables of a shard. -/
structure LiveDb where
  subscriptions : SubscriptionTable
  clock : ChangeClock
  tables : SubscriptionTables
  vectors : SubscriptionVectors
  outbox : InvalidationOutbox

def LiveDb.initial : LiveDb := ⟨.empty, .initial, .empty, .empty, .empty⟩

/-- The payload of a registration, if it is active. -/
def LiveDb.payload? (db : LiveDb) (key : RegistrationKey) : Option SubscriptionPayload :=
  (db.subscriptions.find? key).bind fun r => r.state.payload?

abbrev LiveTx := Tx Thrown LiveDb

variable {α : Type}

def onSubscriptions : Tx Thrown SubscriptionTable α → LiveTx α :=
  .zoom LiveDb.subscriptions fun db subscriptions => { db with subscriptions }

def onClock : Tx Thrown ChangeClock α → LiveTx α := .zoom LiveDb.clock fun db clock => { db with clock }

def onTables : Tx Thrown SubscriptionTables α → LiveTx α :=
  .zoom LiveDb.tables fun db tables => { db with tables }

def onVectors : Tx Thrown SubscriptionVectors α → LiveTx α :=
  .zoom LiveDb.vectors fun db vectors => { db with vectors }

def onOutbox : Tx Thrown InvalidationOutbox α → LiveTx α :=
  .zoom LiveDb.outbox fun db outbox => { db with outbox }

/-! ## Limits and errors -/

def INVALIDATION_BATCH_SIZE : Nat := 64
def INVALIDATION_MAX_ATTEMPTS : Int := 8
def INVALIDATION_BASE_RETRY_MS : Nat := 1000
def CDB_MAX_ACTIVE_LIVE_REGISTRATIONS : Nat := 4096
def CDB_MAX_LIVE_REGISTRATION_ROWS : Nat := 8192
def CDB_MAX_RETIRED_TOMBSTONE_BYTES : Nat := 16777216
def CDB_MAX_INVALIDATION_OUTBOX_ROWS : Nat := 4096
def CDB_MAX_INVALIDATIONS_PER_MUTATION : Nat := 4096

def subscriptionInvariant (message : String) : Thrown := invariantError message

def subscriptionCapacityExceeded (subject : String) (limit : Nat) : CdbError where
  code := .rateLimited
  message := "Cdb " ++ subject ++ " capacity is limited to " ++ toString limit
  hint := some "unsubscribe unused live queries or wait for queued invalidations to drain"
  retryAfterMs := some INVALIDATION_BASE_RETRY_MS

def durableRowCount (count : LiveDb → Nat) (subject : String) : LiveTx Nat := do
  let count ← .gets count
  .require (IsCounter count) (subscriptionInvariant ("Cdb " ++ subject ++ " count is missing or invalid"))
  pure count

def subscriptionIdentityBytes (s : LiveSubscriptionId) : Nat :=
  s.gatewayId.utf8ByteSize + s.registrationId.utf8ByteSize + s.connectionId.utf8ByteSize +
    s.clientId.utf8ByteSize + 8

def retiredTombstoneBytes : LiveTx Nat :=
  durableRowCount
    (fun db => ((db.subscriptions.select fun r => r.state = .retired).map fun r =>
      subscriptionIdentityBytes r.subscription).sum)
    "retired live subscription tombstone bytes"

def changeClockInvalid : Thrown := subscriptionInvariant "Cdb change clock is missing or invalid"

def currentChangeSeq : LiveTx Int := do
  let found ← .gets fun db => db.clock.find? ()
  let row ← .ofOption found changeClockInvalid
  .require (IsCounter row.changeSeq) changeClockInvalid
  pure row.changeSeq

/-- The parent row that a foreign key asks for. -/
def requireSubscription (registration : RegistrationKey) (table : String) : LiveTx Unit := do
  let parent ← .gets fun db => (db.subscriptions.find? registration).isSome
  .require (parent = true) (.constraint table)

/-! ## Subscribing -/

section
variable {ν : Type} [JsNumber ν] (sha256Hex : String → String)

def subscriptionPayloadHash (args : CdbSubscriptionRequest ν) (policyDigest : String) : String :=
  let placement : List (String × Json ν) := match args.placement with
    | none => []
    | some p => [("placement",
        .obj [("authority", .str p.authority.text), ("partitionKey", .str p.partitionKey)])]
  stableHashHex sha256Hex (.obj
    ([("connectionId", .str args.subscription.connectionId),
      ("clientId", .str args.subscription.clientId), ("subId", .int args.subscription.subId),
      ("principalId", .str args.principalId), ("organizationId", .str args.organizationId)] ++
    placement ++
    [("schemaEpoch", .int args.schemaEpoch), ("recoveryGeneration", .int args.recoveryGeneration),
      ("vshard", .int args.vshard), ("domainSchemaEpoch", .int args.domainSchemaEpoch),
      ("ref", .str args.ref), ("args", args.args), ("policyDigest", .str policyDigest),
      ("queryHash", .str args.queryHash), ("tables", .arr (args.tables.map .str)),
      ("intervals", args.intervals)]))

inductive CdbSubscriptionResponse
  | subscribed (subscription : LiveSubscriptionId) (changeSeq : Int)
  /-- `ok: false`: the registration was never inserted. -/
  | absent (subscription : LiveSubscriptionId) (error : CdbError)
  deriving DecidableEq

def storedSubscriptionTables (db : LiveDb) (key : RegistrationKey) : List String :=
  (db.tables.orderBy (fun r => r.registration = key) SubscriptionTableRow.tableName).map
    SubscriptionTableRow.tableName

def assertSubscriptionTables (key : RegistrationKey) (expectedTables : List String) : LiveTx Unit := do
  let stored ← .gets fun db => storedSubscriptionTables db key
  .require (stored = expectedTables)
    (subscriptionInvariant "active live subscription table mappings do not match its persisted payload")

/-- The checks on a registration that is already there. -/
def assertReplayedSubscription (args : CdbSubscriptionRequest ν) (payloadHash : String)
    (tableNames : List String) (existing : StoredSubscriptionRow) : LiveTx Unit := do
  .require (existing.subscription = args.subscription)
    (subscriptionInvariant "live subscription registration identity changed across an RPC replay")
  .require (existing.state ≠ .retired)
    (subscriptionInvariant "retired live subscription registration cannot be reactivated")
  .require (existing.state.payload?.map (·.payloadHash) = some payloadHash)
    (subscriptionInvariant "live subscription registration payload changed across an RPC replay")
  assertSubscriptionTables args.subscription.key tableNames

/-- The row of a new registration. -/
def subscriptionRow (args : CdbSubscriptionRequest ν) (policyDigest payloadHash : String) :
    StoredSubscriptionRow where
  subscription := args.subscription
  state := .active
    { payloadHash
      principalId := args.principalId
      organizationId := args.organizationId
      authority := args.placement.map (·.authority)
      schemaEpoch := args.schemaEpoch
      recoveryGeneration := args.recoveryGeneration
      vshard := args.vshard
      domainSchemaEpoch := args.domainSchemaEpoch
      ref := args.ref
      argsJson := args.args.toText
      policyDigest
      queryHash := args.queryHash
      tablesJson := (Json.arr (args.tables.map .str) : Json ν).toText
      intervalsJson := args.intervals.toText }

/-- The inserts into `_chardb_live_subscription_tables`. -/
def insertSubscriptionTables (key : RegistrationKey) : List String → LiveTx Unit
  | [] => pure ()
  | tableName :: tableNames => do
    requireSubscription key "_chardb_live_subscription_tables"
    onTables (Table.insert ⟨key, tableName⟩ (.constraint "_chardb_live_subscription_tables"))
    insertSubscriptionTables key tableNames

def subscribed (subscription : LiveSubscriptionId) : LiveTx CdbSubscriptionResponse := do
  let changeSeq ← currentChangeSeq
  pure (.subscribed subscription changeSeq)

/-- A registration that is not there yet. -/
def installLiveSubscription (args : CdbSubscriptionRequest ν) (policyDigest payloadHash : String)
    (tableNames : List String) : LiveTx CdbSubscriptionResponse := do
  let registrationRows ← durableRowCount (fun db => db.subscriptions.count) "live registration row"
  if CDB_MAX_LIVE_REGISTRATION_ROWS ≤ registrationRows then
    pure (.absent args.subscription
      (subscriptionCapacityExceeded "live registration row" CDB_MAX_LIVE_REGISTRATION_ROWS))
  else do
    let activeRegistrations ← durableRowCount
      (fun db => (db.subscriptions.select fun r => r.state ≠ .retired).length)
      "active live registration"
    if CDB_MAX_ACTIVE_LIVE_REGISTRATIONS ≤ activeRegistrations then
      pure (.absent args.subscription
        (subscriptionCapacityExceeded "active live registration" CDB_MAX_ACTIVE_LIVE_REGISTRATIONS))
    else do
      onSubscriptions (Table.insert (subscriptionRow args policyDigest payloadHash)
        (.constraint "_chardb_live_subscriptions"))
      insertSubscriptionTables args.subscription.key tableNames
      subscribed args.subscription

def persistLiveSubscription (args : CdbSubscriptionRequest ν) (policyDigest : String) :
    LiveTx CdbSubscriptionResponse := do
  let payloadHash := subscriptionPayloadHash sha256Hex args policyDigest
  let tableNames := sortStrings args.tables.eraseDups
  let existing ← .gets fun db => db.subscriptions.find? args.subscription.key
  match existing with
  | some existing => do
    assertReplayedSubscription args payloadHash tableNames existing
    subscribed args.subscription
  | none => installLiveSubscription args policyDigest payloadHash tableNames

end

/-- `/^vr1_[a-f0-9]{64}$/`. -/
def isVectorResourceId (value : String) : Bool :=
  match value.toList with
  | 'v' :: 'r' :: '1' :: '_' :: rest =>
    decide (rest.length = 64) && rest.all fun c => c.isDigit || ('a' ≤ c && c ≤ 'f')
  | _ => false

def vectorResourceId (value : String) : LiveTx String := do
  .require (isVectorResourceId value = true)
    (subscriptionInvariant "live vector dependency resource id is invalid")
  pure value

def persistVectorDependency (key : RegistrationKey) (canonical : String) : LiveTx Unit := do
  let existing ← .gets fun db => db.vectors.find? key
  match existing with
  | some existing =>
    .require (existing.resourceId = canonical)
      (subscriptionInvariant "live vector dependency changed across an RPC replay")
  | none => do
    requireSubscription key "_chardb_live_subscription_vectors"
    onVectors (Table.insert ⟨key, canonical⟩ (.constraint "_chardb_live_subscription_vectors"))

def persistLiveSubscriptionWithVectorDependency {ν : Type} [JsNumber ν] (sha256Hex : String → String)
    (args : CdbSubscriptionRequest ν) (policyDigest resourceId : String) :
    LiveTx CdbSubscriptionResponse := do
  let canonical ← vectorResourceId resourceId
  let response ← persistLiveSubscription sha256Hex args policyDigest
  match response with
  | .absent .. => pure response
  | .subscribed .. => do
    persistVectorDependency args.subscription.key canonical
    pure response

/-! ## Unsubscribing -/

/-- What a retirement costs: a row if there is none, and the bytes of the tombstone. -/
def assertTombstoneCapacity (subscription : LiveSubscriptionId) (existing : Bool) : LiveTx Unit := do
  let rows ← durableRowCount (fun db => db.subscriptions.count) "live registration row"
  .require (existing = true ∨ rows < CDB_MAX_LIVE_REGISTRATION_ROWS)
    (.cdb (subscriptionCapacityExceeded "live registration row" CDB_MAX_LIVE_REGISTRATION_ROWS))
  let retiredBytes ← retiredTombstoneBytes
  .require (retiredBytes + subscriptionIdentityBytes subscription ≤ CDB_MAX_RETIRED_TOMBSTONE_BYTES)
    (.cdb (subscriptionCapacityExceeded "retired live subscription tombstone bytes"
      CDB_MAX_RETIRED_TOMBSTONE_BYTES))

/-- Only a registration that is not a tombstone yet takes capacity. -/
def assertRetirementCapacity (subscription : LiveSubscriptionId)
    (existing : Option StoredSubscriptionRow) : LiveTx Unit :=
  if ∀ row ∈ existing, row.state ≠ .retired then
    assertTombstoneCapacity subscription existing.isSome
  else pure ()

/-- Delete what depends on registrations: tables, vector resource, outbox row. -/
def deleteDependents (p : RegistrationKey → Bool) : LiveTx Unit := do
  let _ ← onTables (Table.delete fun r => p r.registration)
  let _ ← onVectors (Table.delete fun r => p r.registration)
  let _ ← onOutbox (Table.delete fun r => p r.registration)
  pure ()

def retireLiveSubscription (subscription : LiveSubscriptionId) : LiveTx Unit := do
  let existing ← .gets fun db => db.subscriptions.find? subscription.key
  .require (∀ row ∈ existing, row.subscription = subscription)
    (subscriptionInvariant "live subscription unregister identity does not match its registration")
  assertRetirementCapacity subscription existing
  onSubscriptions (Table.upsert ⟨subscription, .retired⟩ (fun row => { row with state := .retired })
    (.constraint "_chardb_live_subscriptions"))
  deleteDependents fun key => key = subscription.key

/-- `DELETE FROM _chardb_live_subscriptions`, with the cascade. -/
def deleteSubscriptions (p : StoredSubscriptionRow → Bool) : LiveTx Nat := do
  let deleted ← .gets fun db => (db.subscriptions.select p).map StoredSubscriptionRow.key
  let changes ← onSubscriptions (Table.delete p)
  deleteDependents fun key => key ∈ deleted
  pure changes

def finalizeRetiredLiveSubscription (subscription : LiveSubscriptionId) : LiveTx Unit := do
  let existing ← .gets fun db => db.subscriptions.find? subscription.key
  match existing with
  | none => pure ()
  | some existing => do
    .require (existing.subscription = subscription)
      (subscriptionInvariant "live subscription finalize identity does not match its tombstone")
    .require (existing.state = .retired)
      (subscriptionInvariant "active live subscription cannot be finalized")
    let changes ← deleteSubscriptions fun row => row.subscription = subscription && row.state = .retired
    .require (changes = 1)
      (subscriptionInvariant "live subscription tombstone changed before finalize")

end Chardb.Live
