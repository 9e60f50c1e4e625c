import Chardb.Catalog.SchemaMigration
import Chardb.Schema.MigrationInvariant

/-!
# What a Catalog call does

One lemma for each call: a migration begins, records a step or a shard, or completes; or the lease
changes hands, or the ranges move, while no migration is in flight; or nothing of this changes.
-/

namespace Chardb.Catalog

open Chardb.Lib Chardb.Schema

section
variable {δ ν α : Type} [JsNumber ν] {sha256Hex : String → String} {hooks : CatalogHooks δ}
  {journal : ChardbMigrationJournal sha256Hex ν} {s s' : CatalogStore δ} {a : Unit}

/-! ## Frames -/

/-- The schema tables of two states are the same. -/
structure SameTables (s s' : CatalogStore δ) : Prop where
  schema : s'.db.rest.tables.schema = s.db.rest.tables.schema
  steps : s'.db.rest.tables.steps = s.db.rest.tables.steps
  executed : s'.db.rest.tables.executed = s.db.rest.tables.executed
  shards : s'.db.rest.shards = s.db.rest.shards
  baselines : s'.db.rest.baselines = s.db.rest.baselines

theorem SameTables.refl : SameTables s s := ⟨rfl, rfl, rfl, rfl, rfl⟩

theorem SameTables.trans {s'' : CatalogStore δ} (h : SameTables s s') (h' : SameTables s' s'') :
    SameTables s s'' :=
  ⟨h'.schema.trans h.schema, h'.steps.trans h.steps, h'.executed.trans h.executed,
    h'.shards.trans h.shards, h'.baselines.trans h.baselines⟩

/-- Neither the schema tables nor the ranges change, and no lease is taken. -/
structure Quiet (s s' : CatalogStore δ) : Prop extends SameTables s s' where
  ranges : s'.db.ranges = s.db.ranges
  lease : ∀ o ∈ activeOperations s'.db.rest.topology, o ∈ activeOperations s.db.rest.topology

theorem Quiet.refl : Quiet s s := ⟨.refl, rfl, fun _ h => h⟩

theorem Quiet.trans {s'' : CatalogStore δ} (h : Quiet s s') (h' : Quiet s' s'') : Quiet s s'' :=
  ⟨h.toSameTables.trans h'.toSameTables, h'.ranges.trans h.ranges,
    fun o ho => h.lease o (h'.lease o ho)⟩

theorem quiet_of_db (h : s'.db = s.db) : Quiet s s' := by
  refine ⟨⟨?_, ?_, ?_, ?_, ?_⟩, ?_, ?_⟩ <;> rw [h]
  exact fun _ h => h

/-- No operation holds the lease. -/
def Unleased (s : CatalogStore δ) : Prop := activeOperations s.db.rest.topology = []

/-! ## Parts of the storage -/

theorem onTables_returns {x : SchemaTx δ α} {b : α} (h : (onTables x).Returns s b s') :
    ∃ t, x.Returns s.db.rest.tables b t ∧ s'.db = { s.db with rest := { s.db.rest with tables := t } } := by
  unfold onTables onRest at h
  obtain ⟨c, hc, rfl⟩ := Tx.zoom_returns.mp h
  obtain ⟨t, ht, rfl⟩ := Tx.zoom_returns.mp hc
  exact ⟨t, ht, rfl⟩

theorem onShards_returns {x : Tx Thrown SchemaShardTable α} {b : α} (h : (onShards x).Returns s b s') :
    ∃ t, x.Returns s.db.rest.shards b t ∧ s'.db = { s.db with rest := { s.db.rest with shards := t } } := by
  unfold onShards onRest at h
  obtain ⟨c, hc, rfl⟩ := Tx.zoom_returns.mp h
  obtain ⟨t, ht, rfl⟩ := Tx.zoom_returns.mp hc
  exact ⟨t, ht, rfl⟩

theorem onBaselines_returns {x : Tx Thrown SchemaBaselineTable α} {b : α}
    (h : (onBaselines x).Returns s b s') : ∃ t, x.Returns s.db.rest.baselines b t ∧
      s'.db = { s.db with rest := { s.db.rest with baselines := t } } := by
  unfold onBaselines onRest at h
  obtain ⟨c, hc, rfl⟩ := Tx.zoom_returns.mp h
  obtain ⟨t, ht, rfl⟩ := Tx.zoom_returns.mp hc
  exact ⟨t, ht, rfl⟩

theorem onTopology_returns {x : TopologyTx α} {b : α} (h : (onTopology x).Returns s b s') :
    ∃ t, x.Returns s.db.rest.topology b t ∧
      s'.db = { s.db with rest := { s.db.rest with topology := t } } := by
  unfold onTopology onRest at h
  obtain ⟨c, hc, rfl⟩ := Tx.zoom_returns.mp h
  obtain ⟨t, ht, rfl⟩ := Tx.zoom_returns.mp hc
  exact ⟨t, ht, rfl⟩

theorem quiet_onHook {x : Tx Thrown δ Unit} (h : (onHook x).Returns s a s') :
    Quiet s s' ∧ s'.db.rest.topology = s.db.rest.topology := by
  obtain ⟨t, ht, hdb⟩ := onTables_returns h
  obtain ⟨d, -, rfl⟩ := Schema.onDomain_returns.mp ht
  refine ⟨⟨⟨?_, ?_, ?_, ?_, ?_⟩, ?_, ?_⟩, ?_⟩ <;> rw [hdb]
  exact fun _ h => h

theorem quiet_onTopology {x : TopologyTx α} {b : α} (h : (onTopology x).Returns s b s')
    (hx : ∀ t t', x.Returns t b t' → ∀ o ∈ activeOperations t', o ∈ activeOperations t) :
    Quiet s s' := by
  obtain ⟨t, ht, hdb⟩ := onTopology_returns h
  refine ⟨⟨?_, ?_, ?_, ?_, ?_⟩, ?_, ?_⟩ <;> rw [hdb]
  exact hx _ _ ht

theorem readTopology_returns {migrationId : String} {o : Option CatalogTopologyOperation}
    (h : (onTopology (readTopology migrationId) : CatalogTx δ _).Returns s o s') :
    o = s.db.rest.topology.find? migrationId ∧ s'.db = s.db := by
  obtain ⟨t, ht, hdb⟩ := onTopology_returns h
  obtain ⟨rfl, rfl⟩ := Tx.gets_returns.mp ht
  exact ⟨rfl, hdb⟩

theorem readState_returns {row : CdbSchemaState} (h : readCatalogSchemaState.Returns s row s') :
    s.db.rest.tables.schema = some row ∧ s = s' := by
  simp only [readCatalogSchemaState, Tx.bind_returns, Tx.gets_returns, Tx.ofOption_returns] at h
  obtain ⟨_, _, ⟨rfl, rfl⟩, hrow, rfl⟩ := h
  exact ⟨hrow, rfl⟩

/-- A read of the map touches the cache alone. -/
theorem currentMap_db {m : VshardMap} (h : currentMap.Returns s m s') : s'.db = s.db := by
  simp only [currentMap, Tx.bind_returns, Tx.gets_returns] at h
  obtain ⟨cached, _, ⟨rfl, rfl⟩, h⟩ := h
  cases hc : s.cachedMap with
  | some m =>
    rw [hc] at h
    obtain ⟨-, rfl⟩ := Tx.pure_returns.mp h
    rfl
  | none =>
    rw [hc] at h
    simp only [Tx.bind_returns, Tx.gets_returns, Tx.ofExcept_returns, Tx.modify_returns,
      Tx.pure_returns] at h
    obtain ⟨_, _, ⟨rfl, rfl⟩, _, _, ⟨-, rfl⟩, _, _, rfl, -, rfl⟩ := h
    rfl

theorem route_db {v : Int} {r : String × Int} (h : (route v).Returns s r s') : s'.db = s.db := by
  simp only [route, readSchemaEpoch, Tx.bind_returns, Tx.ofExcept_returns, Tx.gets_returns,
    Tx.pure_returns] at h
  obtain ⟨_, _, hm, _, _, ⟨-, rfl⟩, _, _, ⟨-, rfl⟩, -, rfl⟩ := h
  exact currentMap_db hm

theorem ownsRange_db {lo hi : Int} {shardId : String} {b : Bool}
    (h : (ownsRange lo hi shardId).Returns s b s') : s'.db = s.db := by
  simp only [ownsRange, Tx.bind_returns, Tx.pure_returns] at h
  obtain ⟨_, _, hm, -, rfl⟩ := h
  exact currentMap_db hm

theorem assertRangeOwner_db {args : CatalogTopologyOperationRequest} {shardId : String} {epoch : Int}
    {e : Thrown} (h : (assertRangeOwner args shardId epoch e).Returns s a s') : s'.db = s.db := by
  simp only [assertRangeOwner, Tx.bind_returns, Tx.require_returns] at h
  obtain ⟨_, _, h₁, _, _, h₂, _, _, ⟨-, rfl⟩, _, _, h₃, -, rfl⟩ := h
  exact (ownsRange_db h₃).trans ((route_db h₂).trans (route_db h₁))

/-! ## The lease -/

theorem assertNoActive_returns {t t' : TopologyTable} (h : assertNoActive.Returns t a t') :
    activeOperations t = [] ∧ t = t' := by
  simp only [assertNoActive, Tx.bind_returns, Tx.gets_returns] at h
  obtain ⟨active, _, ⟨rfl, rfl⟩, h⟩ := h
  cases hl : activeOperations t with
  | nil =>
    rw [hl] at h
    exact ⟨rfl, (Tx.pure_returns.mp h).2⟩
  | cons o rest =>
    rw [hl] at h
    exact (Tx.throw_returns.mp h).elim

theorem assertIdentity_returns {identity : CatalogTopologyOperationIdentity} {t t' : TopologyTable}
    (h : (assertIdentity identity).Returns t a t') : t = t' := by
  unfold assertIdentity at h
  obtain ⟨_, _, h₁, h⟩ := Tx.bind_returns.mp h
  obtain ⟨-, rfl⟩ := Tx.require_returns.mp h₁
  obtain ⟨_, _, h₁, h⟩ := Tx.bind_returns.mp h
  obtain ⟨-, rfl⟩ := Tx.require_returns.mp h₁
  obtain ⟨_, _, h₁, h⟩ := Tx.bind_returns.mp h
  obtain ⟨-, rfl⟩ := Tx.require_returns.mp h₁
  obtain ⟨_, _, h₁, h⟩ := Tx.bind_returns.mp h
  obtain ⟨-, rfl⟩ := Tx.require_returns.mp h₁
  obtain ⟨_, _, h₁, h⟩ := Tx.bind_returns.mp h
  obtain ⟨-, rfl⟩ := Tx.require_returns.mp h₁
  obtain ⟨_, _, h₁, h⟩ := Tx.bind_returns.mp h
  obtain ⟨-, rfl⟩ := Tx.require_returns.mp h₁
  obtain ⟨_, _, h₁, h⟩ := Tx.bind_returns.mp h
  obtain ⟨-, rfl⟩ := Tx.require_returns.mp h₁
  obtain ⟨_, _, h₁, h⟩ := Tx.bind_returns.mp h
  obtain ⟨-, rfl⟩ := Tx.require_returns.mp h₁
  exact (Tx.require_returns.mp h).2

/-- A lease that is asked for again is the one that is stored. -/
theorem beginTopology_stored {identity : CatalogTopologyOperationIdentity} {nowMs : Int}
    {o stored : CatalogTopologyOperation} {t t' : TopologyTable}
    (h : (beginTopology identity nowMs).Returns t o t') (hs : t.find? identity.migrationId = some stored) :
    o = stored ∧ t = t' := by
  unfold beginTopology at h
  obtain ⟨_, _, hid, h⟩ := Tx.bind_returns.mp h
  obtain rfl := assertIdentity_returns hid
  obtain ⟨_, _, hnow, h⟩ := Tx.bind_returns.mp h
  obtain ⟨-, rfl⟩ := Tx.require_returns.mp hnow
  obtain ⟨_, _, hread, h⟩ := Tx.bind_returns.mp h
  obtain ⟨rfl, rfl⟩ := Tx.gets_returns.mp hread
  rw [hs] at h
  obtain ⟨_, _, hsame, h⟩ := Tx.bind_returns.mp h
  obtain ⟨-, rfl⟩ := Tx.require_returns.mp hsame
  exact Tx.pure_returns.mp h

/-- A status that is not `active` takes no lease. -/
theorem updateTopology_returns {migrationId : String} {n : Nat}
    {f : CatalogTopologyOperation → CatalogTopologyOperation} {t t' : TopologyTable}
    (h : (updateTopology migrationId f).Returns t n t') (hf : ∀ o, (f o).status ≠ .active) :
    ∀ o ∈ activeOperations t', o ∈ activeOperations t := by
  intro o ho
  obtain ⟨hmem, hactive⟩ := Table.mem_select.mp ho
  obtain ⟨x, hx, rfl⟩ := (Table.mem_update (Table.update_returns.mp h).1).mp hmem
  split at hactive
  · exact absurd (of_decide_eq_true hactive) (hf x)
  · rename_i hp
    rw [if_neg hp]
    exact Table.mem_select.mpr ⟨hx, hactive⟩

/-- Nothing changes but who holds the lease. -/
structure Claims (s s' : CatalogStore δ) : Prop extends SameTables s s' where
  ranges : s'.db.ranges = s.db.ranges

theorem claims_onTopology {x : TopologyTx α} {b : α} (h : (onTopology x).Returns s b s') :
    Claims s s' := by
  obtain ⟨t, -, hdb⟩ := onTopology_returns h
  refine ⟨⟨?_, ?_, ?_, ?_, ?_⟩, ?_⟩ <;> rw [hdb]

theorem Quiet.claims {s'' : CatalogStore δ} (h : Quiet s s') (h' : Claims s' s'') : Claims s s'' :=
  ⟨h.toSameTables.trans h'.toSameTables, h'.ranges.trans h.ranges⟩

/-- No migration is in flight. -/
def IdleSchema (s : CatalogStore δ) : Prop :=
  ∃ row, s.db.rest.tables.schema = some row ∧ row.pending = none

theorem beginTopologyOperation_returns {args : CatalogTopologyOperationRequest} {nowMs : Int}
    {o : CatalogTopologyOperation}
    (h : (beginTopologyOperation hooks journal args nowMs).Returns s o s') :
    IdleSchema s ∧ Claims s s' := by
  simp only [beginTopologyOperation, Tx.bind_returns] at h
  obtain ⟨_, s₁, hhook, existing, s₂, hread, schema, s₃, hstate, h⟩ := h
  have hq₁ := (quiet_onHook hhook).1
  obtain ⟨-, hdb₂⟩ := readTopology_returns hread
  obtain ⟨hrow, rfl⟩ := readState_returns hstate
  have hq : Quiet s s₂ := hq₁.trans (quiet_of_db hdb₂)
  rw [hq.schema] at hrow
  cases existing with
  | some existing =>
    simp only [Tx.bind_returns, Tx.require_returns] at h
    obtain ⟨_, _, ⟨hsame, rfl⟩, h⟩ := h
    exact ⟨⟨schema, hrow, hsame.1⟩, hq.claims (claims_onTopology h)⟩
  | none =>
    simp only [Tx.bind_returns, Tx.require_returns] at h
    obtain ⟨_, _, ⟨hidle, rfl⟩, _, s₄, howner, h⟩ := h
    exact ⟨⟨schema, hrow, hidle.1⟩,
      (hq.trans (quiet_of_db (assertRangeOwner_db howner))).claims (claims_onTopology h)⟩

theorem beginDerivedTopologyOperation_returns {args : CatalogDerivedTopologyOperationRequest}
    {nowMs : Int} {o : CatalogTopologyOperation}
    (h : (beginDerivedTopologyOperation hooks journal args nowMs).Returns s o s') :
    IdleSchema s ∧ Claims s s' := by
  simp only [beginDerivedTopologyOperation, Tx.bind_returns, Tx.require_returns] at h
  obtain ⟨_, _, ⟨-, rfl⟩, _, _, ⟨-, rfl⟩, _, _, ⟨-, rfl⟩, _, s₁, hhook, existing, s₂, hread, schema,
    s₃, hstate, h⟩ := h
  have hq₁ := (quiet_onHook hhook).1
  obtain ⟨-, hdb₂⟩ := readTopology_returns hread
  obtain ⟨hrow, rfl⟩ := readState_returns hstate
  have hq : Quiet s s₂ := hq₁.trans (quiet_of_db hdb₂)
  rw [hq.schema] at hrow
  cases existing with
  | some existing =>
    simp only [Tx.bind_returns, Tx.require_returns] at h
    obtain ⟨_, _, ⟨hsame, rfl⟩, h⟩ := h
    exact ⟨⟨schema, hrow, hsame.1⟩, hq.claims (claims_onTopology h)⟩
  | none =>
    simp only [Tx.bind_returns, Tx.require_returns] at h
    obtain ⟨_, _, ⟨hidle, rfl⟩, _, s₄, hstart, _, s₅, hfinish, _, _, ⟨-, rfl⟩, _, s₆, howns, _, _,
      ⟨-, rfl⟩, _, _, ⟨-, rfl⟩, h⟩ := h
    have hdb : s₆.db = s₂.db :=
      (ownsRange_db howns).trans ((route_db hfinish).trans (route_db hstart))
    exact ⟨⟨schema, hrow, hidle.1⟩, (hq.trans (quiet_of_db hdb)).claims (claims_onTopology h)⟩

theorem requireOperation_returns {args : CatalogTopologyOperationRequest} {nowMs : Int}
    {o : CatalogTopologyOperation} (h : (requireOperation args nowMs).Returns s o s') :
    s'.db = s.db := by
  simp only [requireOperation, Tx.bind_returns, Tx.ofOption_returns] at h
  obtain ⟨_, s₁, hread, stored, _, ⟨rfl, rfl⟩, h⟩ := h
  obtain ⟨hfind, hdb⟩ := readTopology_returns hread
  obtain ⟨t, ht, hdb'⟩ := onTopology_returns h
  have hs : s₁.db.rest.topology.find? args.migId = some stored := by rw [hdb]; exact hfind.symm
  obtain ⟨-, rfl⟩ := beginTopology_stored ht hs
  exact hdb'.trans hdb

theorem completeTopologyOperation_returns {args : CatalogTopologyOperationRequest} {nowMs : Int}
    (h : (completeTopologyOperation hooks args nowMs).Returns s a s') : Quiet s s' := by
  simp only [completeTopologyOperation, Tx.bind_returns] at h
  obtain ⟨_, s₁, hhook, exact, s₂, hreq, h⟩ := h
  have hq : Quiet s s₂ := (quiet_onHook hhook).1.trans (quiet_of_db (requireOperation_returns hreq))
  cases hstatus : exact.status with
  | completed =>
    rw [hstatus] at h
    obtain ⟨-, rfl⟩ := Tx.pure_returns.mp h
    exact hq
  | aborted =>
    rw [hstatus] at h
    exact (Tx.throw_returns.mp h).elim
  | active =>
    rw [hstatus] at h
    simp only [Tx.bind_returns, Tx.pure_returns] at h
    obtain ⟨_, s₃, howner, _, _, hupdate, -, rfl⟩ := h
    refine (hq.trans (quiet_of_db (assertRangeOwner_db howner))).trans ?_
    exact quiet_onTopology hupdate fun _ _ hu => updateTopology_returns hu fun _ h => by cases h

theorem abortTopologyOperation_returns {args : CatalogTopologyOperationRequest} {nowMs : Int}
    (h : (abortTopologyOperation hooks args nowMs).Returns s a s') : Quiet s s' := by
  simp only [abortTopologyOperation, Tx.bind_returns] at h
  obtain ⟨_, s₁, hhook, exact, s₂, hreq, h⟩ := h
  have hq : Quiet s s₂ := (quiet_onHook hhook).1.trans (quiet_of_db (requireOperation_returns hreq))
  cases hstatus : exact.status with
  | aborted =>
    rw [hstatus] at h
    obtain ⟨-, rfl⟩ := Tx.pure_returns.mp h
    exact hq
  | completed =>
    rw [hstatus] at h
    exact (Tx.throw_returns.mp h).elim
  | active =>
    rw [hstatus] at h
    simp only [Tx.bind_returns] at h
    obtain ⟨_, s₃, howner, _, s₄, hupdate, hbarrier⟩ := h
    have hu : Quiet s₃ s₄ :=
      quiet_onTopology hupdate fun _ _ hu => updateTopology_returns hu fun _ h => by cases h
    exact ((hq.trans (quiet_of_db (assertRangeOwner_db howner))).trans hu).trans
      (quiet_onHook hbarrier).1

/-! ## Cutover -/

/-- The other tables after a hook of a cutover: the lease may have been read again. -/
structure KeepsRest (c c' : SchemaCatalog δ) : Prop where
  schema : c'.tables.schema = c.tables.schema
  steps : c'.tables.steps = c.tables.steps
  executed : c'.tables.executed = c.tables.executed
  shards : c'.shards = c.shards
  baselines : c'.baselines = c.baselines
  topology : c'.topology = c.topology

theorem KeepsRest.trans {c c' c'' : SchemaCatalog δ} (h : KeepsRest c c') (h' : KeepsRest c' c'') :
    KeepsRest c c'' :=
  ⟨h'.schema.trans h.schema, h'.steps.trans h.steps, h'.executed.trans h.executed,
    h'.shards.trans h.shards, h'.baselines.trans h.baselines, h'.topology.trans h.topology⟩

theorem inDomain_returns {x : Tx Thrown δ Unit} {c c' : SchemaCatalog δ}
    (h : (inDomain x).Returns c a c') : KeepsRest c c' := by
  unfold inDomain at h
  obtain ⟨t, ht, rfl⟩ := Tx.zoom_returns.mp h
  obtain ⟨d, -, rfl⟩ := Schema.onDomain_returns.mp ht
  exact ⟨rfl, rfl, rfl, rfl, rfl, rfl⟩

theorem cutoverLease_returns {args : CatalogTopologyCutoverRequest} {schema : CdbSchemaState}
    {nowMs epoch : Int} {t t' : TopologyTable}
    (h : (cutoverLease args schema nowMs epoch).Returns t a t') : t = t' := by
  simp only [cutoverLease, readTopology, Tx.bind_returns, Tx.gets_returns, Tx.ofOption_returns,
    Tx.require_returns] at h
  obtain ⟨_, _, ⟨rfl, rfl⟩, existing, _, ⟨hfind, rfl⟩, _, _, hbegin, _, _, ⟨-, rfl⟩, -, rfl⟩ := h
  exact (beginTopology_stored hbegin hfind).2

theorem cutoverHooks_before {args : CatalogTopologyCutoverRequest} {schema : CdbSchemaState}
    {nowMs epoch : Int} {c c' : SchemaCatalog δ}
    (h : ((cutoverHooks hooks args schema nowMs).before epoch).Returns c a c') : KeepsRest c c' := by
  obtain ⟨_, c₁, h₁, h₂⟩ := Tx.bind_returns.mp h
  unfold inTopology at h₂
  obtain ⟨t, ht, rfl⟩ := Tx.zoom_returns.mp h₂
  obtain rfl := cutoverLease_returns ht
  exact (inDomain_returns h₁).trans ⟨rfl, rfl, rfl, rfl, rfl, rfl⟩

/-- The map changes leave the other tables alone. -/
theorem applyCutover_rest {args : CatalogCutoverRequest} {chooks : CatalogCutoverHooks (SchemaCatalog δ)}
    {res : CatalogCutoverResult × Option VshardMap} (h : (applyCutover args chooks).Returns s res s')
    (hafter : ∀ epoch applied c b c', (chooks.after epoch applied).Returns c b c' → KeepsRest c c') :
    KeepsRest s.db.rest s'.db.rest := by
  unfold applyCutover at h
  obtain ⟨current, _, hmap, h⟩ := Tx.bind_returns.mp h
  have hdb := currentMap_db hmap
  obtain ⟨_, _, hlo, h⟩ := Tx.bind_returns.mp h
  obtain ⟨-, rfl⟩ := Tx.ofExcept_returns.mp hlo
  obtain ⟨_, _, hown, h⟩ := Tx.bind_returns.mp h
  obtain ⟨-, rfl⟩ := Tx.require_returns.mp hown
  obtain ⟨_, _, hhi, h⟩ := Tx.bind_returns.mp h
  obtain ⟨-, rfl⟩ := Tx.ofExcept_returns.mp hhi
  obtain ⟨_, _, hown', h⟩ := Tx.bind_returns.mp h
  obtain ⟨-, rfl⟩ := Tx.require_returns.mp hown'
  obtain ⟨next, _, hnext, h⟩ := Tx.bind_returns.mp h
  obtain ⟨-, rfl⟩ := Tx.ofExcept_returns.mp hnext
  obtain ⟨_, s₁, hrep, h⟩ := Tx.bind_returns.mp h
  obtain ⟨_, s₂, hbump, h⟩ := Tx.bind_returns.mp h
  obtain ⟨_, _, hmark, h⟩ := Tx.bind_returns.mp h
  obtain ⟨t, -, rfl⟩ := Tx.zoom_returns.mp hmark
  obtain ⟨newEpoch, _, hread, h⟩ := Tx.bind_returns.mp h
  obtain ⟨-, rfl⟩ := Tx.gets_returns.mp hread
  obtain ⟨_, _, ha, h⟩ := Tx.bind_returns.mp h
  obtain ⟨rest, hrest, rfl⟩ := Tx.zoom_returns.mp ha
  obtain ⟨-, rfl⟩ := Tx.pure_returns.mp h
  have hk := hafter _ _ _ _ _ hrest
  unfold replaceMap at hrep
  obtain ⟨_, -, rfl⟩ := Tx.zoom_returns.mp hrep
  obtain ⟨_, _, hep, hunit⟩ := Tx.bind_returns.mp hbump
  obtain ⟨_, -, rfl⟩ := Tx.zoom_returns.mp hep
  obtain ⟨-, rfl⟩ := Tx.pure_returns.mp hunit
  rw [← hdb]
  exact hk

/-- A cutover leaves the other tables to its hooks. -/
theorem cutover_rest {args : CatalogCutoverRequest} {chooks : CatalogCutoverHooks (SchemaCatalog δ)}
    {res : CatalogCutoverResult} (h : (cutover args chooks).Returns s res s')
    (hbefore : ∀ epoch c b c', (chooks.before epoch).Returns c b c' → KeepsRest c c')
    (hafter : ∀ epoch applied c b c', (chooks.after epoch applied).Returns c b c' → KeepsRest c c') :
    KeepsRest s.db.rest s'.db.rest := by
  unfold cutover storageTransaction at h
  obtain ⟨committed, mid, htx, h⟩ := Tx.bind_returns.mp h
  obtain ⟨_, _, hpub, h⟩ := Tx.bind_returns.mp h
  obtain ⟨-, rfl⟩ := Tx.pure_returns.mp h
  obtain rfl := Tx.modify_returns.mp hpub
  show KeepsRest s.db.rest mid.db.rest
  replace h := Tx.transactionOn_returns.mp htx
  unfold cutoverBody at h
  obtain ⟨epoch, _, hread, h⟩ := Tx.bind_returns.mp h
  obtain ⟨-, rfl⟩ := Tx.gets_returns.mp hread
  obtain ⟨_, _, hb, h⟩ := Tx.bind_returns.mp h
  obtain ⟨rest, hrest, rfl⟩ := Tx.zoom_returns.mp hb
  obtain ⟨guard, _, hguard, h⟩ := Tx.bind_returns.mp h
  obtain ⟨-, rfl⟩ := Tx.gets_returns.mp hguard
  refine (hbefore _ _ _ _ hrest).trans ?_
  show KeepsRest rest mid.db.rest
  cases guard with
  | some row =>
    obtain ⟨_, _, ha, h⟩ := Tx.bind_returns.mp h
    obtain ⟨rest', hrest', rfl⟩ := Tx.zoom_returns.mp ha
    obtain ⟨-, rfl⟩ := Tx.pure_returns.mp h
    exact hafter _ _ _ _ _ hrest'
  | none => exact applyCutover_rest h hafter

/-- Nothing changes but the ranges. -/
structure Moves (s s' : CatalogStore δ) : Prop extends SameTables s s' where
  lease : s'.db.rest.topology = s.db.rest.topology

theorem topologyCutover_returns {args : CatalogTopologyCutoverRequest} {nowMs : Int}
    {res : CatalogCutoverResult}
    (h : (topologyCutover hooks journal args nowMs).Returns s res s') : IdleSchema s ∧ Moves s s' := by
  simp only [topologyCutover, Tx.bind_returns] at h
  obtain ⟨_, s₁, hhook, schema, s₂, hstate, stored, s₃, hread, h⟩ := h
  obtain ⟨hq, ht⟩ := quiet_onHook hhook
  obtain ⟨hrow, rfl⟩ := readState_returns hstate
  obtain ⟨-, hdb⟩ := readTopology_returns hread
  rw [hq.schema] at hrow
  have hcut : ∀ {s₃ : CatalogStore δ}, s₃.db = s₁.db →
      (cutover args.range (cutoverHooks hooks args schema nowMs)).Returns s₃ res s' → Moves s s' := by
    intro s₃ hdb hcut
    have hk := cutover_rest hcut (fun _ _ _ _ h => cutoverHooks_before h)
      fun _ _ _ _ _ h => inDomain_returns h
    rw [hdb] at hk
    exact ⟨⟨hk.schema.trans hq.schema, hk.steps.trans hq.steps, hk.executed.trans hq.executed,
      hk.shards.trans hq.shards, hk.baselines.trans hq.baselines⟩, hk.topology.trans ht⟩
  cases stored with
  | none =>
    simp only [Tx.bind_returns, Tx.require_returns] at h
    obtain ⟨_, _, ⟨hidle, rfl⟩, h⟩ := h
    exact ⟨⟨schema, hrow, hidle.1⟩, hcut hdb h⟩
  | some stored =>
    simp only [Tx.bind_returns, Tx.require_returns] at h
    obtain ⟨_, _, ⟨hsame, rfl⟩, h⟩ := h
    exact ⟨⟨schema, hrow, hsame.1⟩, hcut hdb h⟩

/-! ## Schema calls -/

/-- Ranges and lease stay. -/
structure Still (s s' : CatalogStore δ) : Prop where
  ranges : s'.db.ranges = s.db.ranges
  topology : s'.db.rest.topology = s.db.rest.topology

/-- A migration begins, of every shard in the inventory. -/
structure Begun (journal : ChardbMigrationJournal sha256Hex ν) (s s' : CatalogStore δ)
    (row : CdbSchemaState) (p : CdbSchemaPending) (baseline : Bool) (nowMs : Int) : Prop
    extends Still s s' where
  stored : s.db.rest.tables.schema = some row
  idle : row.pending = none
  unleased : Unleased s
  version_lt : row.activeVersion < p.targetVersion
  target : p.targetVersion = journal.version
  epoch : p.targetEpoch = row.activeEpoch + 1
  digest : migrationDigestAt journal p.targetVersion = .ok p.targetDigest
  zero : baseline = true → row.activeVersion = 0
  schema : s'.db.rest.tables.schema = some { row with pending := some p }
  steps : s'.db.rest.tables.steps = s.db.rest.tables.steps
  executed : s'.db.rest.tables.executed = s.db.rest.tables.executed
  shards : s'.db.rest.shards.rows =
    s.db.rest.shards.rows ++ (inventory s).map (SchemaShardRow.pending p.migrationId nowMs)
  baselines : s'.db.rest.baselines.rows = s.db.rest.baselines.rows ++
    if baseline = true then [⟨p.migrationId, p.targetVersion, p.targetDigest, nowMs⟩] else []

/-- The migration in flight records its next step. -/
structure Stepped (journal : ChardbMigrationJournal sha256Hex ν) (s s' : CatalogStore δ)
    (row : CdbSchemaState) (p : CdbSchemaPending) (m : ChardbMigration ν) (nowMs : Int) : Prop
    extends Still s s' where
  stored : s.db.rest.tables.schema = some row
  pending : row.pending = some p
  at_version : journal.migrations[(m.version - 1).toNat]? = some m
  expected : ∃ expected, expectedSteps journal row.activeVersion p.targetVersion = .ok expected ∧
    beginsWith (s.db.rest.tables.applied p.migrationId) expected = true ∧
    expected[(s.db.rest.tables.applied p.migrationId).length]?.map ChardbMigration.version =
      some m.version
  schema : s'.db.rest.tables.schema = s.db.rest.tables.schema
  steps : s.db.rest.tables.steps.insert? ⟨p.migrationId, m.version, m.digest, nowMs⟩ =
    some s'.db.rest.tables.steps
  executed : s'.db.rest.tables.executed = s.db.rest.tables.executed ++
    if catalogSchemaBaselineExists s p.migrationId = true then [] else m.catalogStatements
  shards : s'.db.rest.shards = s.db.rest.shards
  baselines : s'.db.rest.baselines = s.db.rest.baselines

/-- What became of a shard is recorded. -/
structure Recorded (s s' : CatalogStore δ) : Prop extends Still s s' where
  schema : s'.db.rest.tables.schema = s.db.rest.tables.schema
  steps : s'.db.rest.tables.steps = s.db.rest.tables.steps
  executed : s'.db.rest.tables.executed = s.db.rest.tables.executed
  baselines : s'.db.rest.baselines = s.db.rest.baselines
  shards : ∃ f : SchemaShardRow → SchemaShardRow, (∀ r, (f r).key = r.key) ∧
    s'.db.rest.shards.rows = s.db.rest.shards.rows.map f

/-- The migration in flight completes. -/
structure Finished (journal : ChardbMigrationJournal sha256Hex ν) (s s' : CatalogStore δ)
    (row : CdbSchemaState) (p : CdbSchemaPending) : Prop extends Still s s' where
  stored : s.db.rest.tables.schema = some row
  pending : row.pending = some p
  active : ∀ r ∈ s.db.rest.shards, r.migrationId = p.migrationId → r.active = true
  expected : ∃ expected, expectedSteps journal row.activeVersion p.targetVersion = .ok expected ∧
    (s.db.rest.tables.applied p.migrationId).length = expected.length ∧
    beginsWith (s.db.rest.tables.applied p.migrationId) expected = true
  schema : s'.db.rest.tables.schema =
    some ⟨p.targetVersion, p.targetEpoch, p.targetDigest, some p.migrationId, none⟩
  steps : s'.db.rest.tables.steps = s.db.rest.tables.steps
  executed : s'.db.rest.tables.executed = s.db.rest.tables.executed
  shards : ∀ r, r ∈ s'.db.rest.shards ↔ r ∈ s.db.rest.shards ∧ r.migrationId ≠ p.migrationId
  baselines : ∀ r, r ∈ s'.db.rest.baselines ↔ r ∈ s.db.rest.baselines ∧ r.migrationId ≠ p.migrationId

/-- What a call of a Worker with this journal does. -/
inductive CatalogEffect (journal : ChardbMigrationJournal sha256Hex ν) (s s' : CatalogStore δ)
    (call : CatalogCall) : Prop
  | quiet : Quiet s s' → CatalogEffect journal s s' call
  | claims : IdleSchema s → Claims s s' → CatalogEffect journal s s' call
  | moves : IdleSchema s → Moves s s' → CatalogEffect journal s s' call
  | begun (row : CdbSchemaState) (p : CdbSchemaPending) (baseline : Bool) (nowMs : Int) :
    Begun journal s s' row p baseline nowMs →
    (baseline = true → call = .beginSchemaBaseline p.migrationId p.targetVersion) →
    CatalogEffect journal s s' call
  | stepped (row : CdbSchemaState) (p : CdbSchemaPending) (m : ChardbMigration ν) (nowMs : Int) :
    Stepped journal s s' row p m nowMs → CatalogEffect journal s s' call
  | recorded : Recorded s s' → CatalogEffect journal s s' call
  | finished (row : CdbSchemaState) (p : CdbSchemaPending) : Finished journal s s' row p →
    CatalogEffect journal s s' call

/-- What a quiet step before a call leaves is what the call starts from. -/
theorem CatalogEffect.after {s₁ : CatalogStore δ} {call : CatalogCall}
    (h : CatalogEffect journal s₁ s' call) (hdb : s₁.db.ranges = s.db.ranges)
    (htopology : s₁.db.rest.topology = s.db.rest.topology) (htables : SameTables s s₁) :
    CatalogEffect journal s s' call := by
  have happlied : ∀ id, s₁.db.rest.tables.applied id = s.db.rest.tables.applied id := by
    intro id
    unfold CdbDb.applied
    rw [htables.steps]
  have hinventory : inventory s₁ = inventory s := by
    unfold inventory
    rw [hdb]
  cases h with
  | quiet h => exact .quiet ⟨htables.trans h.toSameTables, h.ranges.trans hdb, by
      rw [← htopology]
      exact h.lease⟩
  | claims hi h =>
    refine .claims ?_ ⟨htables.trans h.toSameTables, h.ranges.trans hdb⟩
    unfold IdleSchema
    rw [← htables.schema]
    exact hi
  | moves hi h =>
    refine .moves ?_ ⟨htables.trans h.toSameTables, h.lease.trans htopology⟩
    unfold IdleSchema
    rw [← htables.schema]
    exact hi
  | begun row p baseline nowMs h hb =>
    refine .begun row p baseline nowMs ⟨⟨h.ranges.trans hdb, h.topology.trans htopology⟩,
      htables.schema ▸ h.stored, h.idle, ?_, h.version_lt, h.target, h.epoch, h.digest, h.zero, h.schema,
      h.steps.trans htables.steps, h.executed.trans htables.executed, ?_, ?_⟩ hb
    · unfold Unleased
      rw [← htopology]
      exact h.unleased
    · rw [← hinventory, ← htables.shards]
      exact h.shards
    · rw [← htables.baselines]
      exact h.baselines
  | stepped row p m nowMs h =>
    refine .stepped row p m nowMs ⟨⟨h.ranges.trans hdb, h.topology.trans htopology⟩,
      htables.schema ▸ h.stored, h.pending, h.at_version, ?_, h.schema.trans htables.schema,
      htables.steps ▸ h.steps, ?_, h.shards.trans htables.shards, h.baselines.trans htables.baselines⟩
    · rw [← happlied]
      exact h.expected
    · rw [h.executed, htables.executed]
      unfold catalogSchemaBaselineExists
      rw [htables.baselines]
  | recorded h =>
    refine .recorded ⟨⟨h.ranges.trans hdb, h.topology.trans htopology⟩, h.schema.trans htables.schema,
      h.steps.trans htables.steps, h.executed.trans htables.executed,
      h.baselines.trans htables.baselines, ?_⟩
    rw [← htables.shards]
    exact h.shards
  | finished row p h =>
    refine .finished row p ⟨⟨h.ranges.trans hdb, h.topology.trans htopology⟩, htables.schema ▸ h.stored,
      h.pending, ?_, ?_, h.schema, h.steps.trans htables.steps, h.executed.trans htables.executed, ?_, ?_⟩
    · rw [← htables.shards]
      exact h.active
    · rw [← happlied]
      exact h.expected
    · rw [← htables.shards]
      exact h.shards
    · rw [← htables.baselines]
      exact h.baselines

theorem insertShards_returns {migrationId : String} {nowMs : Int} {shardIds : List String}
    {t t' : SchemaShardTable} (h : (insertShards migrationId nowMs shardIds).Returns t a t') :
    t'.rows = t.rows ++ shardIds.map (SchemaShardRow.pending migrationId nowMs) := by
  induction shardIds generalizing t with
  | nil =>
    obtain ⟨-, rfl⟩ := Tx.pure_returns.mp h
    exact (List.append_nil _).symm
  | cons shardId rest ih =>
    obtain ⟨_, _, hi, h⟩ := Tx.bind_returns.mp h
    rw [ih h, Table.rows_insert (Table.insert_returns.mp hi), List.append_assoc]
    rfl

theorem beginIdle_returns {row : CdbSchemaState} {migrationId : String} {targetVersion nowMs : Int}
    {baseline : Bool} (hrow : s.db.rest.tables.schema = some row) (hidle : row.pending = none)
    (htarget : targetVersion = journal.version) (hu : Unleased s)
    (h : (beginIdle journal row migrationId targetVersion baseline nowMs).Returns s a s') :
    ∃ digest, Begun journal s s' row ⟨migrationId, targetVersion, row.activeEpoch + 1, digest⟩ baseline
      nowMs := by
  simp only [beginIdle, Tx.bind_returns, Tx.require_returns, Tx.ofExcept_returns,
    Tx.gets_returns] at h
  obtain ⟨_, _, ⟨hlt, rfl⟩, _, _, ⟨hbase, rfl⟩, digest, _, ⟨hdigest, rfl⟩, _, s₁, hwrite, _, _,
    ⟨rfl, rfl⟩, _, s₂, hshards, _, _, ⟨-, rfl⟩, h⟩ := h
  obtain ⟨t, ht, hdb₁⟩ := onTables_returns hwrite
  obtain rfl := writeState_returns.mp ht
  obtain ⟨sh, hsh, hdb₂⟩ := onShards_returns hshards
  have hinventory : inventory s₁ = inventory s := by
    unfold inventory
    rw [hdb₁]
  have hrows := insertShards_returns hsh
  rw [hinventory, hdb₁] at hrows
  refine ⟨digest, ?_⟩
  rcases Tx.ite_returns.mp h with ⟨hb, h⟩ | ⟨hb, h⟩
  · obtain ⟨bl, hbl, hdb₃⟩ := onBaselines_returns h
    have hbrows := Table.rows_insert (Table.insert_returns.mp hbl)
    rw [hdb₂, hdb₁] at hbrows
    refine ⟨⟨?_, ?_⟩, hrow, hidle, hu, hlt, htarget, rfl, hdigest, fun hb => (hbase hb).1, ?_, ?_, ?_,
      ?_, ?_⟩
    · rw [hdb₃, hdb₂, hdb₁]
    · rw [hdb₃, hdb₂, hdb₁]
    · rw [hdb₃, hdb₂, hdb₁]
    · rw [hdb₃, hdb₂, hdb₁]
    · rw [hdb₃, hdb₂, hdb₁]
    · rw [hdb₃, hdb₂]
      exact hrows
    · rw [hdb₃, if_pos hb]
      exact hbrows
  · obtain ⟨-, rfl⟩ := Tx.pure_returns.mp h
    refine ⟨⟨?_, ?_⟩, hrow, hidle, hu, hlt, htarget, rfl, hdigest, fun hb => (hbase hb).1, ?_, ?_, ?_,
      ?_, ?_⟩
    · rw [hdb₂, hdb₁]
    · rw [hdb₂, hdb₁]
    · rw [hdb₂, hdb₁]
    · rw [hdb₂, hdb₁]
    · rw [hdb₂, hdb₁]
    · rw [hdb₂]
      exact hrows
    · rw [hdb₂, hdb₁, if_neg hb]
      exact (List.append_nil _).symm

theorem beginSchemaChange_effect {migrationId : String} {targetVersion nowMs : Int} {baseline : Bool}
    {call : CatalogCall}
    (h : (beginSchemaChange hooks journal migrationId targetVersion baseline nowMs).Returns s a s')
    (hcall : baseline = true → call = .beginSchemaBaseline migrationId targetVersion) :
    CatalogEffect journal s s' call := by
  simp only [beginSchemaChange, Tx.bind_returns, Tx.require_returns] at h
  obtain ⟨_, s₁, hhook, _, _, ⟨-, rfl⟩, _, _, ⟨⟨-, -, htarget⟩, rfl⟩, _, s₂, hlease, h⟩ := h
  obtain ⟨hq, ht⟩ := quiet_onHook hhook
  obtain ⟨t, hno, hdb⟩ := onTopology_returns hlease
  obtain ⟨hnone, rfl⟩ := assertNoActive_returns hno
  have hu : Unleased s₂ := by
    unfold Unleased
    rw [hdb]
    exact hnone
  have htables : SameTables s s₂ := hq.toSameTables.trans (quiet_of_db hdb).toSameTables
  have hranges : s₂.db.ranges = s.db.ranges := by rw [hdb]; exact hq.ranges
  have htopology : s₂.db.rest.topology = s.db.rest.topology := by rw [hdb]; exact ht
  refine CatalogEffect.after ?_ hranges htopology htables
  unfold beginCatalogSchemaChange at h
  obtain ⟨row, s₃, hstate, h⟩ := Tx.bind_returns.mp h
  obtain ⟨hrow, rfl⟩ := readState_returns hstate
  cases hp : row.pending with
  | some p =>
    rw [hp] at h
    obtain ⟨-, rfl⟩ := Tx.require_returns.mp h
    exact .quiet .refl
  | none =>
    rw [hp] at h
    rcases Tx.ite_returns.mp h with ⟨-, h⟩ | ⟨-, h⟩
    · obtain ⟨-, rfl⟩ := Tx.pure_returns.mp h
      exact .quiet .refl
    · obtain ⟨digest, hbegun⟩ := beginIdle_returns hrow hp htarget hu h
      exact .begun row _ baseline nowMs hbegun hcall

theorem applyCatalogNext_returns {row : CdbSchemaState} {p : CdbSchemaPending} {m : ChardbMigration ν}
    {nowMs : Int} (hrow : s.db.rest.tables.schema = some row) (hp : row.pending = some p)
    (hm : journal.migrations[(m.version - 1).toNat]? = some m)
    (h : (applyCatalogNext hooks journal p.migrationId m row.activeVersion p.targetVersion nowMs).Returns
      s a s') : Stepped journal s s' row p m nowMs := by
  simp only [applyCatalogNext, Tx.bind_returns, Tx.gets_returns, Tx.ofExcept_returns,
    Tx.require_returns] at h
  obtain ⟨_, _, ⟨rfl, rfl⟩, expected, _, ⟨hexpected, rfl⟩, _, _, ⟨hbegins, rfl⟩, _, _, ⟨hnext, rfl⟩,
    _, _, ⟨rfl, rfl⟩, _, s₁, hexec, hinsert⟩ := h
  obtain ⟨t, ht, hdb⟩ := onTables_returns hinsert
  obtain ⟨steps, hsteps, rfl⟩ := Schema.insertStep_returns.mp ht
  unfold executeStep at hexec
  rcases Tx.ite_returns.mp hexec with ⟨hb, hexec⟩ | ⟨hb, hexec⟩
  · obtain ⟨-, rfl⟩ := Tx.pure_returns.mp hexec
    refine ⟨⟨?_, ?_⟩, hrow, hp, hm, ⟨expected, hexpected, hbegins, hnext⟩, ?_, ?_, ?_, ?_, ?_⟩
    · rw [hdb]
    · rw [hdb]
    · rw [hdb]
    · rw [hdb]
      exact hsteps
    · rw [hdb, if_pos hb]
      exact (List.append_nil _).symm
    · rw [hdb]
    · rw [hdb]
  · obtain ⟨t, ht, hdb₁⟩ := onTables_returns hexec
    obtain ⟨domain, rfl⟩ := execStatements_returns ht
    rw [hdb₁] at hsteps
    refine ⟨⟨?_, ?_⟩, hrow, hp, hm, ⟨expected, hexpected, hbegins, hnext⟩, ?_, ?_, ?_, ?_, ?_⟩
    · rw [hdb, hdb₁]
    · rw [hdb, hdb₁]
    · rw [hdb, hdb₁]
    · rw [hdb]
      exact hsteps
    · rw [hdb, hdb₁, if_neg hb]
    · rw [hdb, hdb₁]
    · rw [hdb, hdb₁]

theorem applyStep_effect {migrationId : String} {version nowMs : Int} {call : CatalogCall}
    (h : (applyCatalogSchemaMigrationStep hooks journal migrationId version nowMs).Returns s a s') :
    CatalogEffect journal s s' call := by
  unfold applyCatalogSchemaMigrationStep at h
  obtain ⟨row, _, hstate, h⟩ := Tx.bind_returns.mp h
  obtain ⟨hrow, rfl⟩ := readState_returns hstate
  cases hp : row.pending with
  | none =>
    simp only [hp] at h
    obtain ⟨-, rfl⟩ := Tx.require_returns.mp h
    exact .quiet .refl
  | some p =>
    simp only [hp, applyCatalogPending, Tx.bind_returns, Tx.require_returns, Tx.ofOption_returns,
      Tx.gets_returns] at h
    obtain ⟨_, _, ⟨rfl, rfl⟩, _, _, ⟨-, rfl⟩, m, _, ⟨hm, rfl⟩, _, _, ⟨rfl, rfl⟩, h⟩ := h
    obtain ⟨hat, hversion⟩ := Option.filter_eq_some_iff.mp hm
    obtain rfl := of_decide_eq_true hversion
    cases hexisting : s.db.rest.tables.steps.find? (p.migrationId, m.version) with
    | some step =>
      rw [hexisting] at h
      obtain ⟨-, rfl⟩ := Tx.require_returns.mp h
      exact .quiet .refl
    | none =>
      rw [hexisting] at h
      exact .stepped row p m nowMs (applyCatalogNext_returns hrow hp hat h)

theorem updatePendingShard_returns {migrationId shardId : String} {n : Nat}
    {f : SchemaShardRow → SchemaShardRow} (h : (updatePendingShard migrationId shardId f).Returns s n s')
    (hf : ∀ r, (f r).key = r.key) : Recorded s s' := by
  obtain ⟨t, ht, hdb⟩ := onShards_returns h
  have hrows := Table.rows_update (Table.update_returns.mp ht).1
  refine ⟨⟨?_, ?_⟩, ?_, ?_, ?_, ?_,
    fun r => if decide (r.key = (migrationId, shardId)) && !r.active then f r else r, fun r => ?_, ?_⟩
  · rw [hdb]
  · rw [hdb]
  · rw [hdb]
  · rw [hdb]
  · rw [hdb]
  · rw [hdb]
  · dsimp only
    split
    · exact hf r
    · rfl
  · rw [hdb]
    exact hrows

theorem activateShard_returns {migrationId shardId : String} {nowMs : Int}
    (h : (activateCatalogSchemaShard migrationId shardId nowMs).Returns s a s') : Recorded s s' := by
  simp only [activateCatalogSchemaShard, Tx.bind_returns, Tx.require_returns] at h
  obtain ⟨row, _, hstate, _, _, ⟨-, rfl⟩, n, s₁, hupdate, h⟩ := h
  obtain ⟨-, rfl⟩ := readState_returns hstate
  have hr := updatePendingShard_returns hupdate fun _ => rfl
  rcases Tx.ite_returns.mp h with ⟨-, h⟩ | ⟨-, h⟩
  · obtain ⟨-, rfl⟩ := Tx.pure_returns.mp h
    exact hr
  · simp only [Tx.bind_returns, Tx.gets_returns, Tx.require_returns] at h
    obtain ⟨_, _, ⟨-, rfl⟩, -, rfl⟩ := h
    exact hr

theorem complete_effect {migrationId : String} {call : CatalogCall}
    (h : (completeCatalogSchemaMigration hooks journal migrationId).Returns s a s') :
    CatalogEffect journal s s' call := by
  unfold completeCatalogSchemaMigration at h
  obtain ⟨row, _, hstate, h⟩ := Tx.bind_returns.mp h
  obtain ⟨hrow, rfl⟩ := readState_returns hstate
  cases hp : row.pending with
  | none =>
    rw [hp] at h
    obtain ⟨-, rfl⟩ := Tx.require_returns.mp h
    exact .quiet .refl
  | some p =>
    simp only [hp, completePending, Tx.bind_returns, Tx.require_returns, Tx.ofExcept_returns,
      Tx.gets_returns] at h
    obtain ⟨_, _, ⟨rfl, rfl⟩, _, _, ⟨rfl, rfl⟩, _, _, ⟨hnone, rfl⟩, expected, _, ⟨hexpected, rfl⟩, _, _,
      ⟨rfl, rfl⟩, _, _, ⟨⟨hlength, hbegins⟩, rfl⟩, _, s₁, hhook, _, s₂, hshards, _, s₃, hbase, hwrite⟩ := h
    obtain ⟨hq, ht₁⟩ := quiet_onHook hhook
    obtain ⟨sh, hsh, hdb₂⟩ := onShards_returns hshards
    obtain ⟨rfl, -⟩ := Table.delete_returns.mp hsh
    obtain ⟨bl, hbl, hdb₃⟩ := onBaselines_returns hbase
    obtain ⟨rfl, -⟩ := Table.delete_returns.mp hbl
    obtain ⟨t, ht, hdb₄⟩ := onTables_returns hwrite
    obtain rfl := writeState_returns.mp ht
    refine .finished row p ⟨⟨?_, ?_⟩, hrow, hp, fun r hr hid => ?_, ⟨expected, hexpected, hlength,
      hbegins⟩, ?_, ?_, ?_, fun r => ?_, fun r => ?_⟩
    · rw [hdb₄, hdb₃, hdb₂]
      exact hq.ranges
    · rw [hdb₄, hdb₃, hdb₂]
      exact ht₁
    · by_contra hinactive
      have : r ∈ s.db.rest.shards.select fun r =>
          decide (r.migrationId = p.migrationId) && !r.active :=
        Table.mem_select.mpr ⟨hr, by simp [hid, hinactive]⟩
      rw [hnone] at this
      cases this
    · rw [hdb₄]
    · rw [hdb₄, hdb₃, hdb₂]
      exact hq.steps
    · rw [hdb₄, hdb₃, hdb₂]
      exact hq.executed
    · rw [hdb₄, hdb₃, hdb₂, ← hq.shards]
      simp [Table.mem_deleteWhere]
    · rw [hdb₄, hdb₃, hdb₂, ← hq.baselines]
      simp [Table.mem_deleteWhere]

theorem body_effect {call : CatalogCall} {nowMs : Int}
    (h : (call.body hooks journal nowMs).Returns s a s') : CatalogEffect journal s s' call := by
  cases call with
  | beginSchemaMigration migrationId targetVersion =>
    exact beginSchemaChange_effect h fun h => by cases h
  | beginSchemaBaseline migrationId targetVersion => exact beginSchemaChange_effect h fun _ => rfl
  | applyCatalogSchemaMigration migrationId version =>
    simp only [CatalogCall.body, Tx.bind_returns, Tx.require_returns] at h
    obtain ⟨_, s₁, hhook, _, _, ⟨-, rfl⟩, h⟩ := h
    obtain ⟨hq, ht⟩ := quiet_onHook hhook
    exact (applyStep_effect h).after hq.ranges ht hq.toSameTables
  | shardFailed migrationId shardId message =>
    obtain ⟨_, s₁, hupdate, h⟩ := Tx.bind_returns.mp h
    obtain ⟨-, rfl⟩ := Tx.pure_returns.mp h
    exact .recorded (updatePendingShard_returns hupdate fun _ => rfl)
  | shardMigrated migrationId shardId recoveryGeneration =>
    obtain ⟨_, s₁, hhook, h⟩ := Tx.bind_returns.mp h
    obtain ⟨hq, ht⟩ := quiet_onHook hhook
    have he : CatalogEffect journal s₁ s' (.shardMigrated migrationId shardId recoveryGeneration) :=
      .recorded (activateShard_returns h)
    exact he.after hq.ranges ht hq.toSameTables
  | completeSchemaMigration migrationId =>
    obtain ⟨_, s₁, hhook, h⟩ := Tx.bind_returns.mp h
    obtain ⟨hq, ht⟩ := quiet_onHook hhook
    exact (complete_effect h).after hq.ranges ht hq.toSameTables
  | beginTopologyOperation args =>
    obtain ⟨_, s₁, hbegin, h⟩ := Tx.bind_returns.mp h
    obtain ⟨-, rfl⟩ := Tx.pure_returns.mp h
    obtain ⟨hi, hc⟩ := beginTopologyOperation_returns hbegin
    exact .claims hi hc
  | beginDerivedTopologyOperation args =>
    obtain ⟨_, s₁, hbegin, h⟩ := Tx.bind_returns.mp h
    obtain ⟨-, rfl⟩ := Tx.pure_returns.mp h
    obtain ⟨hi, hc⟩ := beginDerivedTopologyOperation_returns hbegin
    exact .claims hi hc
  | completeTopologyOperation args => exact .quiet (completeTopologyOperation_returns h)
  | abortTopologyOperation args => exact .quiet (abortTopologyOperation_returns h)
  | cutover args =>
    obtain ⟨_, s₁, hcut, h⟩ := Tx.bind_returns.mp h
    obtain ⟨-, rfl⟩ := Tx.pure_returns.mp h
    obtain ⟨hi, hm⟩ := topologyCutover_returns hcut
    exact .moves hi hm

/-! ## Requests -/

/-- The journal of the Worker fits the stored state. -/
structure Fits (journal : ChardbMigrationJournal sha256Hex ν) (row : CdbSchemaState) : Prop where
  version_le : row.activeVersion ≤ journal.version
  target_le : ∀ p, row.pending = some p → p.targetVersion ≤ journal.version

theorem assertPackagedState_returns (h : (assertPackagedState journal).Returns s a s') :
    s = s' ∧ ∃ row, s.db.rest.tables.schema = some row ∧ Fits journal row := by
  unfold assertPackagedState at h
  obtain ⟨row, _, hstate, h⟩ := Tx.bind_returns.mp h
  obtain ⟨hrow, rfl⟩ := readState_returns hstate
  simp only [Tx.bind_returns, Tx.require_returns, Tx.ofExcept_returns] at h
  obtain ⟨_, _, ⟨hle, rfl⟩, _, _, ⟨-, rfl⟩, _, _, ⟨-, rfl⟩, h⟩ := h
  cases hp : row.pending with
  | none =>
    rw [hp] at h
    obtain ⟨-, rfl⟩ := Tx.pure_returns.mp h
    exact ⟨rfl, row, hrow, hle, fun p h => by rw [hp] at h; cases h⟩
  | some p =>
    simp only [hp, Tx.bind_returns, Tx.require_returns, Tx.ofExcept_returns] at h
    obtain ⟨_, _, ⟨⟨-, htarget, -⟩, rfl⟩, _, _, ⟨-, rfl⟩, -, rfl⟩ := h
    refine ⟨rfl, row, hrow, hle, fun p' h => ?_⟩
    obtain rfl := Option.some.inj (hp.symm.trans h)
    exact htarget

theorem execute_returns {request : CatalogRequest} (h : (request.execute hooks journal).Returns s a s') :
    (∃ row, s.db.rest.tables.schema = some row ∧ Fits (upTo journal request.packaged) row) ∧
      CatalogEffect (upTo journal request.packaged) s s' request.call := by
  unfold CatalogRequest.execute storageTransaction at h
  obtain ⟨_, s₁, hfits, hbody⟩ := Tx.bind_returns.mp (Tx.transactionOn_returns.mp h)
  obtain ⟨rfl, hrow⟩ := assertPackagedState_returns hfits
  exact ⟨hrow, body_effect hbody⟩

theorem execute_throws {request : CatalogRequest} {e : Thrown}
    (h : (request.execute hooks journal).Throws s e s') : s'.db = s.db := by
  unfold CatalogRequest.execute storageTransaction at h
  obtain ⟨t, -, ht⟩ := Tx.transactionOn_throws.mp h
  rw [ht]

theorem step_effect (hooks : CatalogHooks δ) (journal : ChardbMigrationJournal sha256Hex ν)
    (s : CatalogStore δ) (request : CatalogRequest) :
    Quiet s (catalogStep hooks journal s request) ∨
      ((∃ row, s.db.rest.tables.schema = some row ∧ Fits (upTo journal request.packaged) row) ∧
        CatalogEffect (upTo journal request.packaged) s (catalogStep hooks journal s request)
          request.call) := by
  rcases (request.execute hooks journal).returns_or_throws s with ⟨a, h⟩ | ⟨e, h⟩
  · exact .inr (execute_returns h)
  · exact .inl (quiet_of_db (execute_throws h))

end

end Chardb.Catalog
