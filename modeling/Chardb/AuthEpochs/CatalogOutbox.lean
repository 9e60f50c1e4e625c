import Chardb.AuthEpochs.ShardEpochs
import Chardb.Catalog.SchemaMigration

/-!
# The auth invalidations of a Catalog

An auth epoch is handed to the shards through three tables: a row for each shard of a tenant, and for
the global scope and each principal one row that walks the shards page by page. A newer epoch takes
over the row that is there and starts its delivery again.
-/

namespace Chardb.AuthEpochs

open Chardb.Lib Chardb.Live Chardb.Catalog

def CATALOG_AUTH_INVALIDATION_BATCH_SIZE : Nat := 32
def CATALOG_AUTH_INVALIDATION_TARGET_LIMIT : Nat := 32768
def CATALOG_AUTH_INVALIDATION_RETRY_INITIAL_MS : Nat := 1000
def CATALOG_AUTH_INVALIDATION_RETRY_MAX_MS : Nat := 60000

/-! ## Tables -/

def scopeText : AuthScope → String
  | .global => "global"
  | .tenant => "tenant"
  | .principal => "principal"

/-- The columns that the three tables share. -/
structure Delivery where
  epoch : Int
  attempts : Int
  nextAttemptAt : Int
  createdAt : Int
  updatedAt : Int
  lastError : Option String
  deriving DecidableEq

def Delivery.Check (d : Delivery) : Prop :=
  0 < d.epoch ∧ 0 ≤ d.attempts ∧ 0 ≤ d.nextAttemptAt ∧ 0 ≤ d.createdAt ∧ d.createdAt ≤ d.updatedAt

instance : DecidablePred Delivery.Check := fun _ => inferInstanceAs (Decidable (_ ∧ _))

/-- The row of a new epoch. -/
def Delivery.start (epoch nowMs : Int) : Delivery where
  epoch
  attempts := 0
  nextAttemptAt := nowMs
  createdAt := nowMs
  updatedAt := nowMs
  lastError := none

/-- `ON CONFLICT … DO UPDATE`: the newer epoch wins, and starts its delivery over. -/
def Delivery.coalesce (excluded d : Delivery) : Delivery where
  epoch := max d.epoch excluded.epoch
  attempts := if d.epoch < excluded.epoch then 0 else d.attempts
  nextAttemptAt := if d.epoch < excluded.epoch then excluded.nextAttemptAt else d.nextAttemptAt
  createdAt := d.createdAt
  updatedAt := if d.epoch < excluded.epoch then excluded.updatedAt else d.updatedAt
  lastError := if d.epoch < excluded.epoch then none else d.lastError

/-- A row of `catalog_auth_invalidation_targets`; the scope is a tenant or a principal. -/
structure TargetRow where
  scope : AuthScope
  scopeId : String
  shardId : String
  delivery : Delivery
  deriving DecidableEq

/-- `(scope, scope_id, shard_id)`. -/
abbrev TargetKey := ScopeKey × String

def TargetRow.key (r : TargetRow) : TargetKey := ((r.scope, r.scopeId), r.shardId)

abbrev TargetTable := Table TargetRow.key fun r => r.scope ≠ .global ∧ r.delivery.Check

/-- A delivery that walks the shards. -/
structure Walk where
  cursorShardId : Option String
  delivery : Delivery
  deriving DecidableEq

def Walk.start (epoch nowMs : Int) : Walk := ⟨none, .start epoch nowMs⟩

def Walk.coalesce (excluded walk : Walk) : Walk where
  cursorShardId := if walk.delivery.epoch < excluded.delivery.epoch then none else walk.cursorShardId
  delivery := excluded.delivery.coalesce walk.delivery

/-- `singleton = 1`. -/
def Walk.singleton (_ : Walk) : Unit := ()

abbrev GlobalTable := Table Walk.singleton fun r => r.delivery.Check

/-- A row of `catalog_auth_invalidation_principals`. -/
structure PrincipalRow where
  scopeId : String
  walk : Walk
  deriving DecidableEq

abbrev PrincipalTable := Table PrincipalRow.scopeId fun r => r.walk.delivery.Check

structure InvalidationTables where
  targets : TargetTable
  global : GlobalTable
  principals : PrincipalTable

def InvalidationTables.empty : InvalidationTables := ⟨.empty, .empty, .empty⟩

abbrev OutboxTx := Tx Thrown InvalidationTables

variable {α : Type}

def onTargets : Tx Thrown TargetTable α → OutboxTx α :=
  .zoom InvalidationTables.targets fun db targets => { db with targets }

def onGlobal : Tx Thrown GlobalTable α → OutboxTx α :=
  .zoom InvalidationTables.global fun db global => { db with global }

def onPrincipals : Tx Thrown PrincipalTable α → OutboxTx α :=
  .zoom InvalidationTables.principals fun db principals => { db with principals }

/-! ## Checks -/

def outboxInvalid (message : String) : Thrown := invalidArgs ("Catalog auth invalidation: " ++ message)

def capacityExceeded : Thrown := .cdb
  { code := .rateLimited
    message := "Catalog auth invalidation target outbox reached its " ++
      toString CATALOG_AUTH_INVALIDATION_TARGET_LIMIT ++ "-row limit"
    retryAfterMs := some CATALOG_AUTH_INVALIDATION_RETRY_INITIAL_MS
    hint := some "wait for Catalog alarm delivery before retrying the auth mutation" }

def safeTime (value : Int) : OutboxTx Unit := .require (IsCounter value) (outboxInvalid "timestamp is invalid")

def safeEpoch (value : Int) : OutboxTx Unit :=
  .require (IsGeneration value) (outboxInvalid "epoch is invalid")

def boundedScopeId (value : String) : OutboxTx Unit :=
  .require (IsScopeId value) (outboxInvalid "scope id is invalid")

def boundedShardId (value : String) : OutboxTx Unit :=
  .require (isMigrationId value = true) (outboxInvalid "shard id is invalid")

/-- `Math.min(60000, 1000 * 2 ** Math.min(Math.max(0, attempts - 1), 16))`. -/
def retryDelay (attempts : Int) : Int :=
  min CATALOG_AUTH_INVALIDATION_RETRY_MAX_MS
    (CATALOG_AUTH_INVALIDATION_RETRY_INITIAL_MS * Nat.pow 2 (min (attempts - 1).toNat 16) : Nat)

/-- A failed delivery, counted from the attempts of the row that was read. -/
def Delivery.defer (attempts nowMs : Int) (errorMessage : String) (d : Delivery) : Delivery where
  epoch := d.epoch
  attempts := min (attempts + 1) 31
  nextAttemptAt := nowMs + retryDelay (min (attempts + 1) 31)
  createdAt := d.createdAt
  updatedAt := nowMs
  lastError := some (sliceTo 512 errorMessage)

/-! ## Targets -/

/-- The rows that `shardIds` add. -/
def missingTargets (db : InvalidationTables) (key : ScopeKey) (shardIds : List String) : Nat :=
  (shardIds.filter fun shardId => (db.targets.find? (key, shardId)).isNone).length

def upsertTargets (key : ScopeKey) (epoch nowMs : Int) : List String → OutboxTx Unit
  | [] => pure ()
  | shardId :: shardIds => do
    onTargets (Table.upsert ⟨key.1, key.2, shardId, .start epoch nowMs⟩
      (fun r => { r with delivery := (Delivery.start epoch nowMs).coalesce r.delivery })
      (.constraint "catalog_auth_invalidation_targets"))
    upsertTargets key epoch nowMs shardIds

def checkShardIds : List String → OutboxTx Unit
  | [] => pure ()
  | shardId :: shardIds => do
    boundedShardId shardId
    checkShardIds shardIds

def enqueueTargets (scope : AuthScope) (scopeId : String) (epoch : Int) (shardIds : List String)
    (nowMs : Int) : OutboxTx Unit := do
  .require (scope ≠ .global) (outboxInvalid "target scope is invalid")
  boundedScopeId scopeId
  safeEpoch epoch
  safeTime nowMs
  checkShardIds shardIds
  let targets := sortStrings shardIds.dedup
  .require (1 ≤ targets.length ∧ targets.length ≤ 3)
    (outboxInvalid "target shard inventory must contain from one through three shards")
  let count ← .gets fun db => db.targets.count
  .require (IsCounter count) (invariantError "Catalog auth invalidation target count is invalid")
  let missing ← .gets fun db => missingTargets db (scope, scopeId) targets
  .require (count + missing ≤ CATALOG_AUTH_INVALIDATION_TARGET_LIMIT) capacityExceeded
  upsertTargets (scope, scopeId) epoch nowMs targets

/-- `dueTargets`, for the full batch. -/
def dueTargets (nowMs : Int) : OutboxTx (List TargetRow) := do
  safeTime nowMs
  .gets fun db =>
    (db.targets.orderBy (fun r => decide (r.delivery.nextAttemptAt ≤ nowMs)) fun r =>
      toLex (r.delivery.nextAttemptAt, toLex (r.shardId, toLex (scopeText r.scope, r.scopeId)))).take
      CATALOG_AUTH_INVALIDATION_BATCH_SIZE

def completeTarget (target : TargetRow) : OutboxTx Unit := do
  let _ ← onTargets (Table.delete fun r =>
    decide (r.key = target.key ∧ r.delivery.epoch = target.delivery.epoch))
  pure ()

def deferTarget (target : TargetRow) (nowMs : Int) (errorMessage : String) : OutboxTx Unit := do
  safeTime nowMs
  let current ← .gets fun db =>
    (db.targets.find? target.key).filter fun r => decide (r.delivery.epoch = target.delivery.epoch)
  match current with
  | none => pure ()
  | some current => do
    let _ ← onTargets (Table.update
      (fun r => decide (r.key = target.key ∧ r.delivery.epoch = target.delivery.epoch))
      (fun r => { r with delivery := r.delivery.defer current.delivery.attempts nowMs errorMessage })
      (.constraint "catalog_auth_invalidation_targets"))
    pure ()

/-! ## Walks -/

def globalDisappeared : Thrown := invariantError "global auth invalidation disappeared"

def enqueueGlobal (epoch nowMs : Int) : OutboxTx Unit := do
  safeEpoch epoch
  safeTime nowMs
  onGlobal (Table.upsert (.start epoch nowMs) (Walk.start epoch nowMs).coalesce
    (.constraint "catalog_auth_invalidation_global"))
  let result ← .gets fun db => db.global.find? ()
  .require (result.isSome = true) globalDisappeared

def enqueuePrincipal (scopeId : String) (epoch nowMs : Int) : OutboxTx Unit := do
  boundedScopeId scopeId
  safeEpoch epoch
  safeTime nowMs
  let count ← .gets fun db => db.principals.count
  let existing ← .gets fun db => db.principals.find? scopeId
  .require (existing.isSome = true ∨ count < CATALOG_AUTH_INVALIDATION_TARGET_LIMIT) capacityExceeded
  onPrincipals (Table.upsert ⟨scopeId, .start epoch nowMs⟩
    (fun r => { r with walk := (Walk.start epoch nowMs).coalesce r.walk })
    (.constraint "catalog_auth_invalidation_principals"))
  let queued ← .gets fun db => db.principals.find? scopeId
  .require (queued.isSome = true) (invariantError "principal auth invalidation disappeared")

def dueGlobal (nowMs : Int) : OutboxTx (Option Walk) := do
  safeTime nowMs
  .gets fun db => (db.global.find? ()).filter fun r => decide (r.delivery.nextAttemptAt ≤ nowMs)

def duePrincipal (nowMs : Int) : OutboxTx (Option PrincipalRow) := do
  safeTime nowMs
  .gets fun db =>
    (db.principals.orderBy (fun r => decide (r.walk.delivery.nextAttemptAt ≤ nowMs)) fun r =>
      toLex (r.walk.delivery.nextAttemptAt, r.scopeId)).head?

/-- A page was delivered. -/
def Walk.advance (cursorShardId : String) (nextAttemptAt nowMs : Int) (walk : Walk) : Walk where
  cursorShardId := some cursorShardId
  delivery :=
    { walk.delivery with attempts := 0, nextAttemptAt, updatedAt := nowMs, lastError := none }

def Walk.defer (attempts nowMs : Int) (errorMessage : String) (walk : Walk) : Walk where
  cursorShardId := walk.cursorShardId
  delivery := walk.delivery.defer attempts nowMs errorMessage

def advanceGlobal (epoch : Int) (cursorShardId : String) (nowMs : Int) : OutboxTx Unit := do
  safeEpoch epoch
  boundedShardId cursorShardId
  safeTime nowMs
  let _ ← onGlobal (Table.update (fun r => decide (r.delivery.epoch = epoch))
    (Walk.advance cursorShardId nowMs nowMs) (.constraint "catalog_auth_invalidation_global"))
  pure ()

def completeGlobal (epoch : Int) : OutboxTx Unit := do
  safeEpoch epoch
  let _ ← onGlobal (Table.delete fun r => decide (r.delivery.epoch = epoch))
  pure ()

def deferGlobal (epoch nowMs : Int) (errorMessage : String) : OutboxTx Unit := do
  safeEpoch epoch
  safeTime nowMs
  let current ← .gets fun db =>
    (db.global.find? ()).filter fun r => decide (r.delivery.epoch = epoch)
  match current with
  | none => pure ()
  | some current => do
    let _ ← onGlobal (Table.update (fun r => decide (r.delivery.epoch = epoch))
      (Walk.defer current.delivery.attempts nowMs errorMessage)
      (.constraint "catalog_auth_invalidation_global"))
    pure ()

def advancePrincipal (scopeId : String) (epoch : Int) (cursorShardId : String) (nowMs : Int) :
    OutboxTx Unit := do
  boundedScopeId scopeId
  safeEpoch epoch
  boundedShardId cursorShardId
  safeTime nowMs
  let _ ← onPrincipals (Table.update
    (fun r => decide (r.scopeId = scopeId ∧ r.walk.delivery.epoch = epoch))
    (fun r => { r with walk := r.walk.advance cursorShardId (nowMs + 1) nowMs })
    (.constraint "catalog_auth_invalidation_principals"))
  pure ()

def completePrincipal (scopeId : String) (epoch : Int) : OutboxTx Unit := do
  boundedScopeId scopeId
  safeEpoch epoch
  let _ ← onPrincipals (Table.delete fun r =>
    decide (r.scopeId = scopeId ∧ r.walk.delivery.epoch = epoch))
  pure ()

def deferPrincipal (scopeId : String) (epoch nowMs : Int) (errorMessage : String) : OutboxTx Unit := do
  boundedScopeId scopeId
  safeEpoch epoch
  safeTime nowMs
  let current ← .gets fun db =>
    (db.principals.find? scopeId).filter fun r => decide (r.walk.delivery.epoch = epoch)
  match current with
  | none => pure ()
  | some current => do
    let _ ← onPrincipals (Table.update
      (fun r => decide (r.scopeId = scopeId ∧ r.walk.delivery.epoch = epoch))
      (fun r => { r with walk := r.walk.defer current.walk.delivery.attempts nowMs errorMessage })
      (.constraint "catalog_auth_invalidation_principals"))
    pure ()

end Chardb.AuthEpochs
