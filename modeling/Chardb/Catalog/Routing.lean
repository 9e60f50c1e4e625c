import Chardb.Catalog.VshardMap
import Chardb.Lib.Table
import Mathlib.Data.String.Basic

/-!
# The Catalog routing store

The ranges, the schema epoch and the cutover guards are rows; the vshard map is
cached in the object and published after a commit. A transaction that throws rolls
the rows back, but not the cache.
-/

namespace Chardb.Catalog

open Chardb.Lib

/-! ## Tables -/

abbrev RangeTable := Table VshardRange.lo fun _ => True

/-- A row of `catalog_epoch`. -/
structure EpochRow where
  scope : String
  scopeId : String
  epoch : Int
  deriving DecidableEq

def EpochRow.key (r : EpochRow) : String × String := (r.scope, r.scopeId)

abbrev EpochTable := Table EpochRow.key fun _ => True

/-- A row of `catalog_meta`. -/
structure MetaRow where
  k : String
  v : String
  deriving DecidableEq

abbrev MetaTable := Table MetaRow.k fun _ => True

/-- The storage of a Catalog; `rest` are the tables that only hooks use. -/
structure CatalogDb (δ : Type) where
  ranges : RangeTable
  epochs : EpochTable
  metadata : MetaTable
  rest : δ

/-- A `CatalogRoutingStore` object on its storage. -/
structure RoutingStore (δ : Type) where
  db : CatalogDb δ
  cachedMap : Option VshardMap

variable {δ : Type} {α : Type}

abbrev RoutingTx (δ : Type) := Tx Thrown (RoutingStore δ)

def onRanges : Tx Thrown RangeTable α → RoutingTx δ α :=
  .zoom (fun s => s.db.ranges) fun s ranges => { s with db := { s.db with ranges } }

def onEpochs : Tx Thrown EpochTable α → RoutingTx δ α :=
  .zoom (fun s => s.db.epochs) fun s epochs => { s with db := { s.db with epochs } }

def onMeta : Tx Thrown MetaTable α → RoutingTx δ α :=
  .zoom (fun s => s.db.metadata) fun s metadata => { s with db := { s.db with metadata } }

/-- A hook works on the other tables. -/
def onRest : Tx Thrown δ α → RoutingTx δ α :=
  .zoom (fun s => s.db.rest) fun s rest => { s with db := { s.db with rest } }

/-- `storage.transactionSync`: it knows nothing of the cache. -/
def storageTransaction (x : RoutingTx δ α) : RoutingTx δ α :=
  .transactionOn RoutingStore.db (fun s db => { s with db }) x

/-! ## Reads -/

/-- `SELECT lo, hi, shard_id FROM catalog_ranges ORDER BY lo ASC`. -/
def CatalogDb.sortedRanges (db : CatalogDb δ) : List VshardRange :=
  db.ranges.orderBy (fun _ => true) VshardRange.lo

def CatalogDb.schemaEpoch (db : CatalogDb δ) : Int :=
  ((db.epochs.find? ("schema", "global")).map EpochRow.epoch).getD 0

def readSchemaEpoch : RoutingTx δ Int := .gets fun s => s.db.schemaEpoch

/-- `map()`: the cached map, or the one the rows give, which is cached then. -/
def currentMap : RoutingTx δ VshardMap := do
  let cached ← .gets RoutingStore.cachedMap
  match cached with
  | some m => pure m
  | none => do
    let ranges ← .gets fun s => s.db.sortedRanges
    let m ← .ofExcept (VshardMap.make ranges)
    .modify fun s => { s with cachedMap := some m }
    pure m

def route (vshard : Int) : RoutingTx δ (String × Int) := do
  let m ← currentMap
  let shardId ← .ofExcept (m.routeVshard vshard)
  let schemaEpoch ← readSchemaEpoch
  pure (shardId, schemaEpoch)

def listRanges : RoutingTx δ (List VshardRange) := do
  let m ← currentMap
  pure m.ranges

def ownsRange (lo hi : Int) (shardId : String) : RoutingTx δ Bool := do
  let m ← currentMap
  pure (m.ranges.any fun range => range.lo ≤ lo && hi ≤ range.hi && range.shardId = shardId)

/-! ## Writes -/

/-- The inserts of `replaceMap`. -/
def insertRanges : List VshardRange → Tx Thrown RangeTable Unit
  | [] => pure ()
  | range :: ranges => do
    Table.insert range (.constraint "catalog_ranges")
    insertRanges ranges

def replaceMap (next : VshardMap) : RoutingTx δ Unit := onRanges do
  let _ ← Table.delete fun _ => true
  insertRanges next.ranges

/-- `UPDATE catalog_epoch SET epoch = epoch + 1 WHERE scope = 'schema' AND scope_id = 'global'`. -/
def bumpSchemaEpoch : RoutingTx δ Unit := do
  let _ ← onEpochs (Table.update (fun r => r.key = ("schema", "global"))
    (fun r => { r with epoch := r.epoch + 1 }) (.constraint "catalog_epoch"))
  pure ()

structure CatalogCutoverRequest where
  migId : String
  lo : Int
  hi : Int
  fromShard : String
  toShard : String

structure CatalogCutoverResult where
  applied : Bool
  newEpoch : Int
  deriving DecidableEq

/-- The hooks of a cutover; a missing one is `fun _ => pure ()`. -/
structure CatalogCutoverHooks (δ : Type) where
  before : Int → Tx Thrown δ Unit
  after : Int → Bool → Tx Thrown δ Unit

def cutoverKey (migId : String) : String := "cutover:" ++ migId

def cutoverStale : Thrown := staleEpoch "cutover source shard does not own the requested range"

/-- The part of a cutover that moves the range. -/
def applyCutover (args : CatalogCutoverRequest) (hooks : CatalogCutoverHooks δ) :
    RoutingTx δ (CatalogCutoverResult × Option VshardMap) := do
  let current ← currentMap
  let routedLo ← .ofExcept (current.routeVshard args.lo)
  .require (routedLo = args.fromShard) cutoverStale
  let routedHi ← .ofExcept (current.routeVshard args.hi)
  .require (routedHi = args.fromShard) cutoverStale
  let next ← .ofExcept (current.split args.lo args.hi args.toShard)
  replaceMap next
  bumpSchemaEpoch
  onMeta (Table.insert ⟨cutoverKey args.migId, args.fromShard⟩ (.constraint "catalog_meta"))
  let newEpoch ← readSchemaEpoch
  onRest (hooks.after newEpoch true)
  pure (⟨true, newEpoch⟩, some next)

/-- The body of the cutover transaction; it answers the map to publish as well. -/
def cutoverBody (args : CatalogCutoverRequest) (hooks : CatalogCutoverHooks δ) :
    RoutingTx δ (CatalogCutoverResult × Option VshardMap) := do
  let currentEpoch ← readSchemaEpoch
  onRest (hooks.before currentEpoch)
  let guard ← .gets fun s => s.db.metadata.find? (cutoverKey args.migId)
  match guard with
  | some _ => do
    onRest (hooks.after currentEpoch false)
    pure (⟨false, currentEpoch⟩, none)
  | none => applyCutover args hooks

/-- `if (committedMap) this.cachedMap = committedMap`. -/
def publishMap (committed : Option VshardMap) : RoutingTx δ Unit :=
  .modify fun s => { s with cachedMap := committed <|> s.cachedMap }

def cutover (args : CatalogCutoverRequest) (hooks : CatalogCutoverHooks δ) :
    RoutingTx δ CatalogCutoverResult := do
  let committed ← storageTransaction (cutoverBody args hooks)
  publishMap committed.2
  pure committed.1

def splitRange (lo hi : Int) (toShard : String) (before : Tx Thrown δ Unit) : RoutingTx δ Unit := do
  let current ← currentMap
  let next ← .ofExcept (current.split lo hi toShard)
  storageTransaction do
    onRest before
    replaceMap next
    bumpSchemaEpoch
  publishMap (some next)

/-! ## A Catalog from its start -/

/-- The rows that `initializeCatalogStorage` puts in when they are missing. -/
def CatalogDb.initializeStorage (db : CatalogDb δ) : CatalogDb δ :=
  { db with
    ranges := db.ranges.insertOrIgnore ⟨0, VSHARD_COUNT - 1, "ShardDO_0"⟩
    epochs := (db.epochs.insertOrIgnore ⟨"schema", "global", 1⟩).insertOrIgnore
      ⟨"auth_global", "global", 1⟩ }

/-- The object of a new isolate. -/
def RoutingStore.boot (db : CatalogDb δ) : RoutingStore δ := ⟨db.initializeStorage, none⟩

def RoutingStore.initial (rest : δ) : RoutingStore δ := .boot ⟨.empty, .empty, .empty, rest⟩

inductive RoutingOp (δ : Type)
  | route (vshard : Int)
  | listRanges
  | ownsRange (lo hi : Int) (shardId : String)
  | cutover (args : CatalogCutoverRequest) (hooks : CatalogCutoverHooks δ)
  | splitRange (lo hi : Int) (toShard : String) (before : Tx Thrown δ Unit)
  /-- The object is evicted and built again. -/
  | restart

inductive RoutingOutcome
  | routed (shardId : String) (schemaEpoch : Int)
  | ranges (ranges : List VshardRange)
  | owns (owns : Bool)
  | cutover (result : CatalogCutoverResult)
  | split
  | restarted
  deriving DecidableEq

def RoutingOp.run : RoutingOp δ → RoutingTx δ RoutingOutcome
  | .route vshard => (fun r => .routed r.1 r.2) <$> Catalog.route vshard
  | .listRanges => .ranges <$> Catalog.listRanges
  | .ownsRange lo hi shardId => .owns <$> Catalog.ownsRange lo hi shardId
  | .cutover args hooks => .cutover <$> Catalog.cutover args hooks
  | .splitRange lo hi toShard before => (fun _ => .split) <$> Catalog.splitRange lo hi toShard before
  | .restart => (fun _ => .restarted) <$> .modify fun s => .boot s.db

end Chardb.Catalog
