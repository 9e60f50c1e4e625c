import Chardb.AuthEpochs.CatalogOutbox
import Chardb.AuthEpochs.ShardRun
import Mathlib.Logic.Relation

/-!
# The handoff of auth epochs

A Catalog bumps the epoch of a scope and records in the same transaction whom to tell; an alarm tells
them. The epoch of a tenant goes to the owner of its vshard, and to both ends of a topology operation
that moves it; the epochs of a principal and of the global scope go to every shard, page by page.
Several deliveries may run at once, and whatever they sent may arrive late, repeatedly or never. Shard
ids are ASCII, where the orders of SQLite and of JavaScript agree.
-/

namespace Chardb.AuthEpochs

open Chardb.Lib Chardb.Live Chardb.Catalog

/-! ## The Catalog -/

/-- The other tables of the Catalog that take part. -/
structure AuthTables where
  topology : TopologyTable
  invalidations : InvalidationTables

abbrev AuthCatalog := RoutingStore AuthTables

abbrev AuthCatalogTx := RoutingTx AuthTables

variable {α : Type}

def onInvalidations (x : OutboxTx α) : AuthCatalogTx α :=
  onRest (.zoom AuthTables.invalidations (fun db invalidations => { db with invalidations }) x)

def AuthCatalog.invalidations (s : AuthCatalog) : InvalidationTables := s.db.rest.invalidations

/-- `CatalogTopologyOperationStore.active`. -/
def AuthCatalog.activeTopology (s : AuthCatalog) : Option CatalogTopologyOperation :=
  (activeOperations s.db.rest.topology).head?

/-- A scope that is handed to every shard. -/
inductive WalkScope
  | global
  | principal (scopeId : String)
  deriving DecidableEq

def WalkScope.key : WalkScope → ScopeKey
  | .global => (.global, "global")
  | .principal scopeId => (.principal, scopeId)

/-- A scope that has an auth epoch. -/
inductive EpochScope
  | walk (scope : WalkScope)
  | tenant (scopeId : String)
  deriving DecidableEq

def EpochScope.key : EpochScope → ScopeKey
  | .walk scope => scope.key
  | .tenant scopeId => (.tenant, scopeId)

/-- The key of an auth epoch in `catalog_epoch`. -/
def epochKey (key : ScopeKey) : String × String := ("auth_" ++ scopeText key.1, key.2)

/-- `readCatalogEpoch`, for an auth scope. -/
def AuthCatalog.authEpoch (s : AuthCatalog) (key : ScopeKey) : Int :=
  ((s.db.epochs.find? (epochKey key)).map EpochRow.epoch).getD 0

/-- `bumpCatalogAuthEpoch`. -/
def bumpCatalogAuthEpoch (key : ScopeKey) : AuthCatalogTx Int := do
  let _ ← onEpochs (Table.insertIgnore ⟨(epochKey key).1, (epochKey key).2, 0⟩)
  let _ ← onEpochs (Table.update (fun r => decide (r.key = epochKey key))
    (fun r => { r with epoch := r.epoch + 1 }) (.constraint "catalog_epoch"))
  .gets fun s => ((s.db.epochs.find? (epochKey key)).map EpochRow.epoch).getD 1

section
variable (vshardOf : String → Int)

/-- The shards that are told of the epoch of a tenant. -/
def targetShards (active : Option CatalogTopologyOperation) (owner : String) (vshard : Int) :
    List String :=
  match active with
  | some o =>
    if o.identity.rangeLo ≤ vshard ∧ vshard ≤ o.identity.rangeHi then
      [owner, o.identity.sourceShard, o.identity.destinationShard]
    else [owner]
  | none => [owner]

def enqueueWalk (scope : WalkScope) (epoch nowMs : Int) : OutboxTx Unit :=
  match scope with
  | .global => enqueueGlobal epoch nowMs
  | .principal scopeId => enqueuePrincipal scopeId epoch nowMs

def enqueueTenant (scopeId : String) (epoch nowMs : Int) : AuthCatalogTx Unit := do
  let active ← .gets AuthCatalog.activeTopology
  let owner ← route (vshardOf scopeId)
  onInvalidations (enqueueTargets .tenant scopeId epoch
    (targetShards active owner.1 (vshardOf scopeId)) nowMs)

/-- `enqueueAuthInvalidations`. -/
def enqueueAuthInvalidations (nowMs : Int) : List (EpochScope × Int) → AuthCatalogTx Unit
  | [] => pure ()
  | (.walk scope, epoch) :: changes => do
    onInvalidations (enqueueWalk scope epoch nowMs)
    enqueueAuthInvalidations nowMs changes
  | (.tenant scopeId, epoch) :: changes => do
    enqueueTenant vshardOf scopeId epoch nowMs
    enqueueAuthInvalidations nowMs changes

/-- `bumpCatalogAuthEpoch` of every scope that a mutation changed. -/
def bumpCatalogAuthEpochs : List EpochScope → AuthCatalogTx (List (EpochScope × Int))
  | [] => pure []
  | scope :: scopes => do
    let epoch ← bumpCatalogAuthEpoch scope.key
    let changes ← bumpCatalogAuthEpochs scopes
    pure ((scope, epoch) :: changes)

/-- The part of an auth mutation that records its epochs. -/
def recordAuthEpochs (scopes : List EpochScope) (nowMs : Int) :
    AuthCatalogTx (List (EpochScope × Int)) :=
  storageTransaction do
    let changes ← bumpCatalogAuthEpochs scopes
    enqueueAuthInvalidations vshardOf nowMs changes
    pure changes

end

/-! ## The shards to tell -/

/-- `SELECT DISTINCT shard_id … WHERE shard_id > ? ORDER BY shard_id LIMIT ?`. -/
def listShardIdsPage (s : AuthCatalog) (afterExclusive : Option String) (limit : Nat) : List String :=
  (((s.db.ranges.rows.map VshardRange.shardId).dedup.filter fun shardId =>
    afterExclusive.all fun cursor => decide (cursor < shardId)).insertionSort (· ≤ ·)).take limit

/-- The ends of the active topology operation that come after the cursor. -/
def laterParticipants (active : Option CatalogTopologyOperation) (afterExclusive : Option String) :
    List String :=
  match active with
  | none => []
  | some o => [o.identity.sourceShard, o.identity.destinationShard].filter fun shardId =>
      afterExclusive.all fun cursor => decide (utf16 cursor < utf16 shardId)

/-- `globalAuthInvalidationShardPage`. -/
def shardPage (s : AuthCatalog) (afterExclusive : Option String) : List String :=
  (sortStrings (listShardIdsPage s afterExclusive CATALOG_AUTH_INVALIDATION_BATCH_SIZE ++
    laterParticipants s.activeTopology afterExclusive).dedup).take CATALOG_AUTH_INVALIDATION_BATCH_SIZE

/-- The shards that serve a range or take part in the active topology operation. -/
def AuthCatalog.Inventory (s : AuthCatalog) (shardId : String) : Prop :=
  (∃ r ∈ s.db.ranges.rows, r.shardId = shardId) ∨
    ∃ o, s.activeTopology = some o ∧
      (shardId = o.identity.sourceShard ∨ shardId = o.identity.destinationShard)

/-! ## Deliveries -/

/-- A message to a shard: the epoch of a scope. -/
structure Notice where
  shardId : String
  key : ScopeKey
  epoch : Int

/-- A page of shards that is being told of an epoch. -/
structure PageTurn where
  scope : WalkScope
  epoch : Int
  page : List String

/-- The walk of a scope. -/
def InvalidationTables.walk? (db : InvalidationTables) : WalkScope → Option Walk
  | .global => db.global.find? ()
  | .principal scopeId => (db.principals.find? scopeId).map PrincipalRow.walk

/-- The next walk that is due, of the principals or of the global scope. -/
def dueWalk (global : Bool) (nowMs : Int) : OutboxTx (Option (WalkScope × Walk)) :=
  match global with
  | true => (Option.map fun walk => (.global, walk)) <$> dueGlobal nowMs
  | false => (Option.map fun r => (.principal r.scopeId, r.walk)) <$> duePrincipal nowMs

def completeWalk (scope : WalkScope) (epoch : Int) : OutboxTx Unit :=
  match scope with
  | .global => completeGlobal epoch
  | .principal scopeId => completePrincipal scopeId epoch

def advanceWalk (scope : WalkScope) (epoch : Int) (lastShardId : String) (nowMs : Int) : OutboxTx Unit :=
  match scope with
  | .global => advanceGlobal epoch lastShardId nowMs
  | .principal scopeId => advancePrincipal scopeId epoch lastShardId nowMs

def deferWalk (scope : WalkScope) (epoch nowMs : Int) (errorMessage : String) : OutboxTx Unit :=
  match scope with
  | .global => deferGlobal epoch nowMs errorMessage
  | .principal scopeId => deferPrincipal scopeId epoch nowMs errorMessage

/-- The synchronous part of a delivery, up to its first message: the walk that is due and its page; a
walk with an empty page is complete. -/
def beginPage (global : Bool) (nowMs : Int) : AuthCatalogTx (Option PageTurn) := do
  let due ← onInvalidations (dueWalk global nowMs)
  match due with
  | none => pure none
  | some (scope, walk) => do
    let page ← .gets fun s => shardPage s walk.cursorShardId
    if page = [] then do
      storageTransaction (onInvalidations (completeWalk scope walk.delivery.epoch))
      pure none
    else pure (some ⟨scope, walk.delivery.epoch, page⟩)

/-- A delivered page moves the cursor to its last shard. -/
def PageTurn.advance (turn : PageTurn) (nowMs : Int) : AuthCatalogTx Unit :=
  match turn.page.getLast? with
  | none => .throw (invariantError (scopeText turn.scope.key.1 ++ " auth shard page is empty"))
  | some lastShardId =>
    storageTransaction (onInvalidations (advanceWalk turn.scope turn.epoch lastShardId nowMs))

def PageTurn.defer (turn : PageTurn) (nowMs : Int) (errorMessage : String) : AuthCatalogTx Unit :=
  storageTransaction (onInvalidations (deferWalk turn.scope turn.epoch nowMs errorMessage))

/-! ## The system -/

/-- A Catalog and its shards. `sent` are the messages under way, `turns` and `targets` the deliveries
begun, `accepted` what shards have answered for. `owed` are the shards that were to be told when an
epoch was recorded, less those that left the inventory since. -/
structure HandoffWorld where
  catalog : AuthCatalog
  shards : String → AuthWorld
  sent : Set Notice
  turns : Set PageTurn
  targets : Set TargetRow
  accepted : Set Notice
  owed : Set Notice

def HandoffWorld.initial : HandoffWorld where
  catalog := .initial ⟨.empty, .empty⟩
  shards := fun _ => .initial
  sent := ∅
  turns := ∅
  targets := ∅
  accepted := ∅
  owed := ∅

/-- The messages of a page. -/
def PageTurn.notices (turn : PageTurn) : Set Notice :=
  {n | n.shardId ∈ turn.page ∧ n.key = turn.scope.key ∧ n.epoch = turn.epoch}

def TargetRow.notice (r : TargetRow) : Notice := ⟨r.shardId, (r.scope, r.scopeId), r.delivery.epoch⟩

/-- The message that carries a notice. -/
def Notice.request (n : Notice) (recoveryGeneration : Int) : CdbAuthInvalidationRequest :=
  ⟨n.key.1, n.key.2, n.epoch, recoveryGeneration⟩

/-- The shard was told of this epoch of the scope, or of a newer one. -/
def HandoffWorld.Told (w : HandoffWorld) (n : Notice) : Prop :=
  ∃ n' ∈ w.accepted, n'.shardId = n.shardId ∧ n'.key = n.key ∧ n.epoch ≤ n'.epoch

section
variable (vshardOf : String → Int)

/-- The shards that have to learn of an epoch that was just recorded: those of the tenant, or the whole
inventory. -/
def AuthCatalog.MustLearn (s : AuthCatalog) (scope : EpochScope) (shardId : String) : Prop :=
  match scope with
  | .walk _ => s.Inventory shardId
  | .tenant scopeId => ∃ owner s', (route (vshardOf scopeId)).Returns s owner s' ∧
      shardId ∈ targetShards s.activeTopology owner.1 (vshardOf scopeId)

variable {ν : Type} [JsNumber ν] (sha256Hex : String → String)

/-- One step of the system. -/
inductive HandoffStep : HandoffWorld → HandoffWorld → Prop
  /-- An auth mutation records new epochs. -/
  | record {w : HandoffWorld} (scopes : List EpochScope) (nowMs : Int)
      {changes : List (EpochScope × Int)} {s : AuthCatalog} :
      (recordAuthEpochs vshardOf scopes nowMs).Returns w.catalog changes s →
      HandoffStep w { w with
        catalog := s
        owed := {n | n ∈ w.owed ∨ ∃ c ∈ changes, n.key = c.1.key ∧ n.epoch = c.2 ∧
          s.MustLearn vshardOf c.1 n.shardId} }
  /-- Whatever else the Catalog does: topology operations, cutovers, a restart. -/
  | reroute {w : HandoffWorld} (s : AuthCatalog) :
      s.invalidations = w.catalog.invalidations →
      (∀ key, w.catalog.authEpoch key ≤ s.authEpoch key) →
      (∀ shardId, s.Inventory shardId → isMigrationId shardId = true) →
      HandoffStep w { w with
        catalog := s
        owed := {n | n ∈ w.owed ∧ (n.key.1 = .tenant ∨ s.Inventory n.shardId)} }
  /-- A delivery reads the targets that are due and sends their messages. -/
  | beginTargets {w : HandoffWorld} (nowMs : Int) {batch : List TargetRow} {s : AuthCatalog} :
      (onInvalidations (dueTargets nowMs)).Returns w.catalog batch s →
      HandoffStep w { w with
        catalog := s
        targets := {r | r ∈ w.targets ∨ r ∈ batch}
        sent := {n | n ∈ w.sent ∨ ∃ r ∈ batch, n = r.notice} }
  /-- A delivery begins the page of a walk, or completes the walk. -/
  | beginPage {w : HandoffWorld} (global : Bool) (nowMs : Int) {turn : Option PageTurn} {s : AuthCatalog} :
      (beginPage global nowMs).Returns w.catalog turn s →
      HandoffStep w { w with
        catalog := s
        turns := {t | t ∈ w.turns ∨ turn = some t}
        sent := {n | n ∈ w.sent ∨ ∃ t, turn = some t ∧ n ∈ t.notices} }
  /-- A shard answers a message, which may come at any time and more than once. -/
  | accept {w : HandoffWorld} (n : Notice) (recoveryGeneration nowMs : Int)
      {res : CdbAuthInvalidationResult} {db : AuthDb} :
      n ∈ w.sent →
      (apply (n.request recoveryGeneration) nowMs).Returns (w.shards n.shardId).db res db →
      HandoffStep w { w with
        shards := Function.update w.shards n.shardId ((w.shards n.shardId).step sha256Hex
          (.invalidateAuthScope (n.request recoveryGeneration) nowMs : AuthCall ν))
        accepted := {m | m ∈ w.accepted ∨ m = n} }
  /-- A shard runs one of its other transactions. -/
  | shard {w : HandoffWorld} (shardId : String) (call : LiveCall ν) :
      HandoffStep w { w with
        shards := Function.update w.shards shardId ((w.shards shardId).step sha256Hex (.live call)) }
  /-- The Catalog has the answer of a target. -/
  | completeTarget {w : HandoffWorld} (r : TargetRow) {u : Unit} {s : AuthCatalog} :
      r ∈ w.targets → r.notice ∈ w.accepted →
      (storageTransaction (onInvalidations (completeTarget r))).Returns w.catalog u s →
      HandoffStep w { w with catalog := s }
  | deferTarget {w : HandoffWorld} (r : TargetRow) (nowMs : Int) (errorMessage : String) {u : Unit}
      {s : AuthCatalog} :
      r ∈ w.targets →
      (storageTransaction (onInvalidations (deferTarget r nowMs errorMessage))).Returns w.catalog u s →
      HandoffStep w { w with catalog := s }
  /-- The Catalog has the answers of a whole page. -/
  | advancePage {w : HandoffWorld} (turn : PageTurn) (nowMs : Int) {u : Unit} {s : AuthCatalog} :
      turn ∈ w.turns → turn.notices ⊆ w.accepted →
      (turn.advance nowMs).Returns w.catalog u s → HandoffStep w { w with catalog := s }
  | deferPage {w : HandoffWorld} (turn : PageTurn) (nowMs : Int) (errorMessage : String) {u : Unit}
      {s : AuthCatalog} :
      turn ∈ w.turns → (turn.defer nowMs errorMessage).Returns w.catalog u s →
      HandoffStep w { w with catalog := s }

/-- The states that any number of steps leads to. -/
def HandoffReachable : HandoffWorld → Prop :=
  Relation.ReflTransGen (HandoffStep vshardOf (ν := ν) sha256Hex) .initial

end

end Chardb.AuthEpochs
