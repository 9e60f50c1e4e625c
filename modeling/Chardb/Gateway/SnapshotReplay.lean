import Chardb.Gateway.PayloadQuota

/-!
# Snapshot replays of a Gateway

A snapshot that was sent and is not acknowledged yet is kept as a replay when its generation retires
or its subscription resumes. The log says which snapshots were staged, when their sends were claimed
and what was settled since. Inputs are what the assertions of the calls let through.
-/

namespace Chardb.Gateway

open Chardb.Lib

/-! ## What a snapshot is authorised for -/

/-- The columns that a lookup compares. -/
structure SnapshotScope where
  key : RegistrationKey
  cookie : String
  organizationId : String
  ref : String
  argsJson : String
  policyDigest : String
  queryHash : String
  shardId : String
  sourceCdbId : String
  schemaEpoch : Nat
  recoveryGeneration : Nat
  domainSchemaEpoch : Nat
  authEpochs : AuthEpochs
  deriving DecidableEq

def Replay.scope (r : Replay) : SnapshotScope where
  key := r.key
  cookie := r.cookie
  organizationId := r.organizationId
  ref := r.ref
  argsJson := r.argsJson
  policyDigest := r.policyDigest
  queryHash := r.queryHash
  shardId := r.shardId
  sourceCdbId := r.sourceCdbId
  schemaEpoch := r.schemaEpoch
  recoveryGeneration := r.recoveryGeneration
  domainSchemaEpoch := r.domainSchemaEpoch
  authEpochs := r.authEpochs

/-- The scope of a snapshot in the outbox is that of its generation. -/
def Generation.scope (g : Generation) (cookie : String) : SnapshotScope where
  key := g.key
  cookie
  organizationId := g.organizationId
  ref := g.payload.ref
  argsJson := g.payload.argsJson
  policyDigest := g.payload.policyDigest
  queryHash := g.payload.queryHash
  shardId := g.payload.shardId
  sourceCdbId := g.sourceCdbId
  schemaEpoch := g.schemaEpoch
  recoveryGeneration := g.recoveryGeneration
  domainSchemaEpoch := g.domainSchemaEpoch
  authEpochs := g.authEpochs

structure StagedSnapshot where
  registrationId : String
  scope : SnapshotScope
  rowsJson : String
  deriving DecidableEq

def stagedSnapshot (g : Generation) (o : OutboxRow) : StagedSnapshot :=
  ⟨o.registrationId, g.scope o.cookie, o.rowsJson⟩

/-! ## Calls -/

structure GatewaySnapshotReplayLookup where
  scope : SnapshotScope
  nowMs : Nat
  deriving DecidableEq

namespace QuotaDb

/-- `readable` says whether a stored text is that of rows; a replay that is not is dropped. -/
def resolveReplay (w : QuotaDb) (readable : String → Bool) (lookup : GatewaySnapshotReplayLookup) :
    QuotaDb × Option String :=
  let w := w.pruneReplays lookup.nowMs
  match w.replays.rows.find? fun r => decide (r.scope = lookup.scope ∧ lookup.nowMs < r.expiresAt) with
  | none => (w, none)
  | some r =>
    if readable r.rowsJson = true then (w, some r.rowsJson)
    else
      ({ w with replays := w.replays.deleteWhere fun r =>
          decide (r.key = lookup.scope.key ∧ r.cookie = lookup.scope.cookie) }, none)

/-- The replay with the cookie goes that has the least `sub_id`. -/
def acknowledgeReplay (w : QuotaDb) (principalId clientId cookie : String) (nowMs : Nat) :
    QuotaDb × Option Nat :=
  let w := w.pruneReplays nowMs
  match w.replays.orderBy (fun r => decide (r.key.principalId = principalId ∧
      r.key.clientId = clientId ∧ r.cookie = cookie ∧ nowMs < r.expiresAt)) (·.key.subId) with
  | [] => (w, none)
  | r :: _ =>
    ({ w with replays := w.replays.deleteWhere fun x => decide (x.key = r.key ∧ x.cookie = cookie) },
      some r.key.subId)

/-- The transaction of `onUnsub`. -/
def unsub (w : QuotaDb) (key : RegistrationKey) (connectionId : String) (nowMs : Nat) :
    Option QuotaDb :=
  (w.store.retireCurrentGatewayRegistration key connectionId nowMs).map fun (store, _) =>
    deleteReplay ⟨store, w.replays⟩ key

end QuotaDb

inductive ReplayOp
  | quota (op : QuotaOp) (h : ∀ key, op ≠ .deleteReplay key)
  /-- `retainCurrentGatewaySnapshotReplay` where it does not prune. -/
  | retainDeferred (key : RegistrationKey) (nowMs : Nat)
  | unsub (key : RegistrationKey) (connectionId : String) (nowMs : Nat)
  | resolve (readable : String → Bool) (lookup : GatewaySnapshotReplayLookup)
  | acknowledgeReplay (principalId clientId cookie : String) (nowMs : Nat)

def ReplayOp.call (w : QuotaDb) : ReplayOp → Option QuotaDb
  | quota op _ => w.call op
  | retainDeferred key nowMs => some (w.retainReplay key nowMs)
  | unsub key connectionId nowMs => w.unsub key connectionId nowMs
  | resolve readable lookup => some (w.resolveReplay readable lookup).1
  | acknowledgeReplay principalId clientId cookie nowMs =>
    some (w.acknowledgeReplay principalId clientId cookie nowMs).1

/-! ## The log -/

inductive ReplayEvent
  | staged (snapshot : StagedSnapshot)
  | sent (registrationId cookie : String) (sentAt : Nat)
  /-- The snapshot with a cookie was acknowledged, or every one of the subscription is done with. -/
  | settled (key : RegistrationKey) (cookie : Option String)
  deriving DecidableEq

def ReplayEvent.Settles (scope : SnapshotScope) : ReplayEvent → Prop
  | settled key cookie => key = scope.key ∧ (cookie = none ∨ cookie = some scope.cookie)
  | _ => False

/-- A snapshot of the subscription is still in the outbox. -/
def GatewayDb.Unsettled (db : GatewayDb) (key : RegistrationKey) (cookie : Option String) : Prop :=
  ∃ o ∈ db.outbox.rows, ∃ g ∈ db.generations.rows, g.registrationId = o.registrationId ∧
    g.key = key ∧ (cookie = none ∨ cookie = some o.cookie)

instance (db : GatewayDb) (key : RegistrationKey) (cookie : Option String) :
    Decidable (db.Unsettled key cookie) := inferInstanceAs (Decidable (∃ o ∈ db.outbox.rows, _))

/-- The outbox row of a stage, when there was none before. -/
def stagedEvents (db db' : GatewayDb) (registrationId : String) : List ReplayEvent :=
  if db.Staged registrationId then []
  else match db'.generations.find? registrationId, db'.outbox.find? registrationId with
    | some g, some o => [.staged (stagedSnapshot g o)]
    | _, _ => []

/-- What an operation adds to the log. An acknowledgement or an unsub that leaves the snapshot in the
outbox settles nothing. -/
def ReplayOp.events (w w' : QuotaDb) : ReplayOp → List ReplayEvent
  | quota (.stage input) _ => stagedEvents w.store w'.store input.identity.registrationId
  | quota (.store (.claimSend allowed claimToken nowMs attemptExpiresAt) _) _ =>
    match w.store.claimDueGatewaySnapshot allowed claimToken nowMs attemptExpiresAt with
    | some (_, some due) => [.sent due.registrationId due.cookie nowMs]
    | _ => []
  | quota (.acknowledge i cookie nowMs) _ =>
    match w.acknowledgement i cookie nowMs with
    | some (w', true) => if w'.WithinQuota then [.settled i.key none] else []
    | _ => []
  | unsub key _ _ => if w'.store.Unsettled key none then [] else [.settled key none]
  | acknowledgeReplay principalId clientId cookie nowMs =>
    match (w.acknowledgeReplay principalId clientId cookie nowMs).2 with
    | some subId =>
      if w'.store.Unsettled ⟨principalId, clientId, subId⟩ (some cookie) then []
      else [.settled ⟨principalId, clientId, subId⟩ (some cookie)]
    | none => []
  | _ => []

/-- A Gateway with its log, the newest event first. -/
structure GatewayHistory where
  db : QuotaDb
  log : List ReplayEvent

namespace GatewayHistory

def empty : GatewayHistory := ⟨.empty, []⟩

def step (x : GatewayHistory) (op : ReplayOp) : GatewayHistory :=
  match op.call x.db with
  | none => x
  | some db => ⟨db, op.events x.db db ++ x.log⟩

def run (x : GatewayHistory) : List ReplayOp → GatewayHistory
  | [] => x
  | op :: ops => (x.step op).run ops

end GatewayHistory

/-- The times at which a send of a snapshot was claimed. -/
def sendTimes (log : List ReplayEvent) (registrationId cookie : String) : List Nat :=
  log.filterMap fun
    | .sent id c sentAt => if id = registrationId ∧ c = cookie then some sentAt else none
    | _ => none

/-- The rows were staged for this scope, they were sent, nothing was settled since, and it is earlier
than the latest send and the retention window. -/
def GatewayHistory.Explains (log : List ReplayEvent) (lookup : GatewaySnapshotReplayLookup)
    (rowsJson : String) : Prop :=
  ∃ snapshot newer older, log = newer ++ .staged snapshot :: older ∧ snapshot.scope = lookup.scope ∧
    snapshot.rowsJson = rowsJson ∧ (∀ e ∈ newer, ¬ e.Settles snapshot.scope) ∧
    ∃ sentAt ∈ (sendTimes newer snapshot.registrationId snapshot.scope.cookie).max?,
      lookup.nowMs < sentAt + GATEWAY_SNAPSHOT_REPLAY_RETENTION_MS

end Chardb.Gateway
