import Chardb.Gateway.RegistrationSafety
import Mathlib.Algebra.GroupWithZero.Nat
import Mathlib.Data.Prod.Lex
import Mathlib.Data.String.Basic

/-!
# The payload quota of a Gateway

The bytes that the tables of a Gateway are charged with: what they store, and what is reserved for
columns that later operations lengthen. Installing, staging, binding a base cookie and acknowledging
check the quota; every other operation is meant to stay within what is reserved.
-/

namespace Chardb.Gateway

open Chardb.Lib

def GATEWAY_CLEANUP_MAX_ERROR_LENGTH : Nat := 512
def GATEWAY_SNAPSHOT_REPLAY_RETENTION_MS : Nat := 30000
def GATEWAY_MAX_SNAPSHOT_REPLAY_ROWS : Nat := 256
def GATEWAY_MAX_DURABLE_PAYLOAD_BYTES : Nat := 16777216
def GATEWAY_MAX_REGISTRATION_PAYLOAD_BYTES : Nat := 15728640
def GATEWAY_UUID_TOKEN_BYTES : Nat := 36
def GATEWAY_MAX_RETRY_ERROR_BYTES : Nat := 2048
def GATEWAY_MAX_GENERATED_SNAPSHOT_COOKIE_BYTES : Nat := 1080

/-! ## Texts -/

/-- `length(CAST(COALESCE(column, '') AS BLOB))`. -/
def storedBytes (s : Option String) : Nat := (s.map String.utf8ByteSize).getD 0

def Lifecycle.text : Lifecycle → String
  | installing => "installing"
  | active => "active"
  | retiring => "retiring"

def CdbState.text : CdbState → String
  | pending => "pending"
  | active => "active"
  | retiring => "retiring"
  | error => "error"

/-- The first UTF-16 code units; a pair that is cut leaves a replacement character. -/
def sliceUnits : Nat → List Char → List Char
  | 0, _ => []
  | _ + 1, [] => []
  | n + 1, c :: cs =>
    if 65536 ≤ c.toNat then
      match n with
      | 0 => ['\uFFFD']
      | n + 1 => c :: sliceUnits n cs
    else c :: sliceUnits n cs

/-- `gatewayRetryError`. -/
def gatewayRetryError (message : String) : String :=
  String.ofList (sliceUnits GATEWAY_CLEANUP_MAX_ERROR_LENGTH message.toList)

/-- What `crypto.randomUUID` returns. -/
structure Uuid where
  text : String
  size : text.utf8ByteSize = GATEWAY_UUID_TOKEN_BYTES

/-! ## What is charged -/

/-- The columns of a payload that are not cookies. -/
def Payload.bytes (p : Payload) : Nat :=
  p.ref.utf8ByteSize + p.argsJson.utf8ByteSize + p.intentJson.utf8ByteSize +
    p.policyDigest.utf8ByteSize + p.queryHash.utf8ByteSize + p.shardId.utf8ByteSize

/-- The columns of a generation that no operation changes. -/
def Generation.fixedBytes (g : Generation) : Nat :=
  g.registrationId.utf8ByteSize + g.key.principalId.utf8ByteSize + g.key.clientId.utf8ByteSize +
    g.connectionId.utf8ByteSize + g.organizationId.utf8ByteSize + g.sourceCdbId.utf8ByteSize

/-- `GATEWAY_GENERATION_PAYLOAD_COLUMNS`. -/
def Generation.payloadBytes (g : Generation) : Nat :=
  g.fixedBytes + g.payload.bytes + (g.lifecycle.text.utf8ByteSize + g.cdbState.text.utf8ByteSize) +
    (storedBytes g.runToken + storedBytes g.payload.lastCookie +
      storedBytes g.payload.lastSnapshotCookie + storedBytes g.retryError)

/-- `GATEWAY_SNAPSHOT_PAYLOAD_COLUMNS`. -/
def OutboxRow.payloadBytes (o : OutboxRow) : Nat :=
  o.registrationId.utf8ByteSize + o.cookie.utf8ByteSize + o.rowsJson.utf8ByteSize +
    storedBytes o.attachmentBaseCookie + (storedBytes o.claimToken + storedBytes o.lastError)

/-- `generationRetryReservationExpression`. -/
def Generation.retryReservation (g : Generation) : Nat :=
  GATEWAY_MAX_RETRY_ERROR_BYTES - storedBytes g.retryError

/-- `futureSnapshotCookieBytes`. -/
def futureSnapshotCookieBytes (o : Option OutboxRow) : Nat :=
  max GATEWAY_MAX_GENERATED_SNAPSHOT_COOKIE_BYTES (storedBytes (o.map (·.cookie)))

/-- `currentHeadReservationExpression`. -/
def Generation.headReservation (g : Generation) (o : Option OutboxRow) : Nat :=
  (GATEWAY_UUID_TOKEN_BYTES - storedBytes g.runToken) +
    (futureSnapshotCookieBytes o - storedBytes g.payload.lastCookie) +
    (futureSnapshotCookieBytes o - storedBytes g.payload.lastSnapshotCookie)

/-- `snapshotReservationExpression`. -/
def OutboxRow.reservation (o : OutboxRow) : Nat :=
  (GATEWAY_UUID_TOKEN_BYTES - storedBytes o.claimToken) +
    (GATEWAY_MAX_RETRY_ERROR_BYTES - storedBytes o.lastError)

/-- A row of `_gw_snapshot_replay`. -/
structure Replay where
  key : RegistrationKey
  cookie : String
  organizationId : String
  ref : String
  argsJson : String
  policyDigest : String
  queryHash : String
  shardId : String
  sourceCdbId : String
  schemaEpoch : Nat
  recoveryGeneration : Nat
  domainSchemaEpoch : Nat
  authEpochs : AuthEpochs
  rowsJson : String
  createdAt : Nat
  expiresAt : Nat
  deriving DecidableEq

/-- `GATEWAY_REPLAY_PAYLOAD_COLUMNS`. -/
def Replay.payloadBytes (r : Replay) : Nat :=
  r.key.principalId.utf8ByteSize + r.key.clientId.utf8ByteSize + r.cookie.utf8ByteSize +
    r.organizationId.utf8ByteSize + r.ref.utf8ByteSize + r.argsJson.utf8ByteSize +
    r.policyDigest.utf8ByteSize + r.queryHash.utf8ByteSize + r.shardId.utf8ByteSize +
    r.sourceCdbId.utf8ByteSize + r.rowsJson.utf8ByteSize

abbrev ReplayTable := Table Replay.key fun _ => True

/-- The store with its replays. -/
structure QuotaDb where
  store : GatewayDb
  replays : ReplayTable

def QuotaDb.empty : QuotaDb := ⟨.empty, .empty⟩

structure GatewayDurablePayloadUsage where
  registrationBytes : Nat
  snapshotBytes : Nat
  replayBytes : Nat
  registrationReservedBytes : Nat
  snapshotReservedBytes : Nat
  deriving DecidableEq

namespace GatewayDurablePayloadUsage

def chargedRegistrationBytes (u : GatewayDurablePayloadUsage) : Nat :=
  u.registrationBytes + u.registrationReservedBytes

def chargedTotalBytes (u : GatewayDurablePayloadUsage) : Nat :=
  u.registrationBytes + u.snapshotBytes + u.replayBytes + u.registrationReservedBytes +
    u.snapshotReservedBytes

end GatewayDurablePayloadUsage

/-- What is reserved for a generation: for a head that joins it, more. -/
def GatewayDb.reservation (db : GatewayDb) (g : Generation) : Nat :=
  g.retryReservation +
    if db.Headed g.registrationId then g.headReservation (db.outbox.find? g.registrationId) else 0

def gatewayDurablePayloadUsage (w : QuotaDb) : GatewayDurablePayloadUsage where
  registrationBytes := (w.store.generations.rows.map (·.payloadBytes)).sum
  snapshotBytes := (w.store.outbox.rows.map (·.payloadBytes)).sum
  replayBytes := (w.replays.rows.map (·.payloadBytes)).sum
  registrationReservedBytes := (w.store.generations.rows.map w.store.reservation).sum
  snapshotReservedBytes := (w.store.outbox.rows.map (·.reservation)).sum

namespace QuotaDb

/-- `assertGatewayDurablePayloadQuota` does not throw. -/
def WithinQuota (w : QuotaDb) : Prop :=
  (gatewayDurablePayloadUsage w).chargedRegistrationBytes ≤ GATEWAY_MAX_REGISTRATION_PAYLOAD_BYTES ∧
    (gatewayDurablePayloadUsage w).chargedTotalBytes ≤ GATEWAY_MAX_DURABLE_PAYLOAD_BYTES

instance (w : QuotaDb) : Decidable w.WithinQuota := inferInstanceAs (Decidable (_ ∧ _))

def checked (w : QuotaDb) : Option QuotaDb := if w.WithinQuota then some w else none

/-! ## Replays -/

/-- The replay of the snapshot that was handed to the transport for a subscription. -/
def currentReplay (db : GatewayDb) (key : RegistrationKey) (nowMs : Nat) : Option Replay := do
  let g ← db.generations.rows.find? fun g => decide (g.key = key ∧ g.Active ∧ db.Current g)
  let o ← db.outbox.find? g.registrationId
  let sentAt ← o.lastSentAt
  if 0 < o.sendAttempts ∧ o.claimToken.isSome = true ∧
      nowMs < sentAt + GATEWAY_SNAPSHOT_REPLAY_RETENTION_MS then
    some
      { key
        cookie := o.cookie
        organizationId := g.organizationId
        ref := g.payload.ref
        argsJson := g.payload.argsJson
        policyDigest := g.payload.policyDigest
        queryHash := g.payload.queryHash
        shardId := g.payload.shardId
        sourceCdbId := g.sourceCdbId
        schemaEpoch := g.schemaEpoch
        recoveryGeneration := g.recoveryGeneration
        domainSchemaEpoch := g.domainSchemaEpoch
        authEpochs := g.authEpochs
        rowsJson := o.rowsJson
        createdAt := sentAt
        expiresAt := sentAt + GATEWAY_SNAPSHOT_REPLAY_RETENTION_MS }
  else none

/-- `retainCurrentGatewaySnapshotReplay` before it prunes; an older snapshot replaces nothing. -/
def retainReplay (w : QuotaDb) (key : RegistrationKey) (nowMs : Nat) : QuotaDb :=
  match currentReplay w.store key nowMs with
  | none => w
  | some r =>
    match w.replays.upsert? r fun e =>
        if e.createdAt ≤ r.createdAt then { r with key := e.key } else e with
    | some replays => { w with replays }
    | none => w

/-- `created_at, principal_id, client_id, sub_id`. -/
def replayOrder (r : Replay) : Nat ×ₗ String ×ₗ String ×ₗ Nat :=
  toLex (r.createdAt, toLex (r.key.principalId, toLex (r.key.clientId, r.key.subId)))

/-- Expired replays go, and all but the newest. -/
def trimReplays (w : QuotaDb) (nowMs : Nat) : QuotaDb :=
  let live := w.replays.deleteWhere fun r => decide (r.expiresAt ≤ nowMs)
  let kept := (live.orderBy (fun _ => true) replayOrder).reverse.take GATEWAY_MAX_SNAPSHOT_REPLAY_ROWS
  { w with replays := live.deleteWhere fun r => decide (r ∉ kept) }

/-- The oldest replays go while too much is charged. -/
def shrinkReplays : List Replay → QuotaDb → QuotaDb
  | [], w => w
  | r :: rs, w =>
    if (gatewayDurablePayloadUsage w).chargedTotalBytes ≤ GATEWAY_MAX_DURABLE_PAYLOAD_BYTES then w
    else shrinkReplays rs { w with replays := w.replays.deleteWhere fun x => decide (x.key = r.key) }

/-- `pruneGatewaySnapshotReplays`. -/
def pruneReplays (w : QuotaDb) (nowMs : Nat) : QuotaDb :=
  let w := w.trimReplays nowMs
  shrinkReplays (w.replays.orderBy (fun _ => true) replayOrder) w

def deleteReplay (w : QuotaDb) (key : RegistrationKey) : QuotaDb :=
  { w with replays := w.replays.deleteWhere fun r => decide (r.key = key) }

/-! ## Operations that check the quota -/

/-- `installGatewayRegistration`, which also arms the recovery. -/
def install (w : QuotaDb) (input : GatewayDb.Install) (recoveryAt : Nat) : Option QuotaDb := do
  let key := input.identity.key
  let previous := (w.store.heads.find? key).map (·.registrationId)
  let w := if previous.isSome then w.retainReplay key input.nowMs else w
  let generations ← w.store.generations.insert? input.generation
  let db : GatewayDb := { w.store with generations }
  let w ← match previous with
    | none => some { w with store := db }
    | some registrationId =>
      (db.supersede registrationId key input.nowMs).map fun store =>
        pruneReplays ⟨store, w.replays⟩ input.nowMs
  let db ← w.store.upsertHead ⟨key, input.identity.registrationId, input.nowMs⟩
  let w ← checked ⟨db, w.replays⟩
  match ← w.store.armGatewaySubscriptionRecovery input.identity recoveryAt input.nowMs with
  | (store, true) => some { w with store }
  | (_, false) => none

def stage (w : QuotaDb) (input : GatewayDb.Stage) : Option QuotaDb := do
  match ← w.store.stageGatewaySnapshot input false with
  | (store, true) => checked ⟨store, w.replays⟩
  | (store, false) => some { w with store }

/-- Bind a send claim to a cookie, or retire it when too much is charged then. -/
def markSendBase (w : QuotaDb) (c : GatewayDb.SendClaim) (baseCookie : Option String) (nowMs : Nat) :
    Option QuotaDb := do
  let (store, _) ← w.store.markGatewaySnapshotSendBaseCookie c baseCookie nowMs false
  if (gatewayDurablePayloadUsage ⟨store, w.replays⟩).chargedTotalBytes ≤
      GATEWAY_MAX_DURABLE_PAYLOAD_BYTES then some { w with store }
  else do
    let (store, _) ← w.store.markGatewaySnapshotSendBaseCookie c baseCookie nowMs true
    some { w with store }

/-- The outbox row that an acknowledgement is for. -/
def acknowledged (db : GatewayDb) (i : Identity) (cookie : String) : Bool :=
  db.outbox.rows.any fun o => decide (o.registrationId = i.registrationId ∧ o.cookie = cookie ∧
    0 < o.sendAttempts ∧ o.lastSentAt.isSome ∧ o.claimToken.isSome ∧
      ∃ g ∈ db.generations.rows, db.Owned i g)

/-- What an acknowledgement makes of the tables before it checks the quota, if it does check it. -/
def acknowledgement (w : QuotaDb) (i : Identity) (cookie : String) (nowMs : Nat) :
    Option (QuotaDb × Bool) :=
  match w.store.acknowledgeGatewaySnapshot i cookie nowMs false with
  | none => none
  | some (store, done) =>
    if acknowledged w.store i cookie && done then
      some (deleteReplay ⟨store, w.replays⟩ i.key, true)
    else some ({ w with store }, false)

def acknowledge (w : QuotaDb) (i : Identity) (cookie : String) (nowMs : Nat) : Option QuotaDb :=
  match w.acknowledgement i cookie nowMs with
  | none => none
  | some (w, true) => w.checked
  | some (w, false) => some w

/-- Replays are retained one by one and pruned at the end. -/
def retireAll (nowMs : Nat) : List Generation → QuotaDb → Option QuotaDb
  | [], w => some (w.pruneReplays nowMs)
  | g :: gs, w =>
    let w := w.retainReplay g.key nowMs
    match w.store.retireCurrentGatewayRegistration g.key g.connectionId nowMs with
    | some (store, some retired) =>
      if retired.registrationId = g.registrationId then retireAll nowMs gs { w with store } else none
    | _ => none

def retireConnection (w : QuotaDb) (connectionId : String) (nowMs : Nat) : Option QuotaDb :=
  retireAll nowMs (w.store.generations.select fun g =>
    decide (g.connectionId = connectionId ∧ w.store.Current g)) w

end QuotaDb

/-! ## Transactions -/

/-- An operation that does not check the quota, with the texts that the code gives it. -/
def GatewayOp.Unchecked : GatewayOp → Prop
  | install .. | stage .. | markSendBase .. | acknowledge .. | retireConnection .. => False
  | claim _ runToken _ _ => ∃ token : Uuid, runToken = token.text
  | claimSend _ claimToken _ _ => ∃ token : Uuid, claimToken = token.text
  | failRun _ _ _ _ _ error => ∃ message, error = gatewayRetryError message
  | failSend _ _ _ error => ∃ message, error = gatewayRetryError message
  | cleanupFailure _ _ _ error => ∃ message, error = gatewayRetryError message
  | _ => True

inductive QuotaOp
  | store (op : GatewayOp) (h : op.Unchecked)
  | install (input : GatewayDb.Install) (recoveryAt : Nat)
  | stage (input : GatewayDb.Stage)
  | markSendBase (c : GatewayDb.SendClaim) (baseCookie : Option String) (nowMs : Nat)
  | acknowledge (i : Identity) (cookie : String) (nowMs : Nat)
  | retireConnection (connectionId : String) (nowMs : Nat)
  | retainReplay (key : RegistrationKey) (nowMs : Nat)
  | pruneReplays (nowMs : Nat)
  | deleteReplay (key : RegistrationKey)

namespace QuotaDb

def call (w : QuotaDb) : QuotaOp → Option QuotaDb
  | .store op _ => (op.call w.store).map fun store => { w with store }
  | .install input recoveryAt => w.install input recoveryAt
  | .stage input => w.stage input
  | .markSendBase c baseCookie nowMs => w.markSendBase c baseCookie nowMs
  | .acknowledge i cookie nowMs => w.acknowledge i cookie nowMs
  | .retireConnection connectionId nowMs => w.retireConnection connectionId nowMs
  | .retainReplay key nowMs => some ((w.retainReplay key nowMs).pruneReplays nowMs)
  | .pruneReplays nowMs => some (w.pruneReplays nowMs)
  | .deleteReplay key => some (w.deleteReplay key)

/-- A transaction that throws changes nothing. -/
def step (w : QuotaDb) (op : QuotaOp) : QuotaDb := (w.call op).getD w

def run (w : QuotaDb) : List QuotaOp → QuotaDb
  | [] => w
  | op :: ops => (w.step op).run ops

end QuotaDb

end Chardb.Gateway
