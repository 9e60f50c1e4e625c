import Chardb.Catalog.Routing

/-!
# Routing over runs

In every run of a routing store, whatever its hooks do, the cached map is the map of
the rows, the rows tile the namespace, and the schema epoch counts the cutovers and
splits that went through. An operation that throws leaves no trace.
-/

namespace Chardb.Catalog

open Chardb.Lib

variable {δ : Type} {α : Type} {s s' : RoutingStore δ} {u : Unit}

/-! ## The rows and the map -/

/-- The rows tile the namespace, and a cached map is theirs. -/
structure RoutingStore.Consistent (s : RoutingStore δ) : Prop where
  tiles : TilesVshards s.db.sortedRanges
  cached : ∀ m ∈ s.cachedMap, m.ranges = s.db.sortedRanges
  epoch : (s.db.epochs.find? ("schema", "global")).isSome

/-- The map of the rows. -/
def RoutingStore.Consistent.map (h : s.Consistent) : VshardMap := ⟨s.db.sortedRanges, h.tiles⟩

theorem currentMap_cases (h : s.Consistent) (m : VshardMap) :
    currentMap.Returns s m s' ↔ m = h.map ∧ s' = { s with cachedMap := some h.map } := by
  have hmake : VshardMap.make s.db.sortedRanges = .ok h.map := VshardMap.make_of_tiles h.tiles (.refl _)
  unfold currentMap
  simp only [Tx.bind_returns, Tx.gets_returns]
  cases hc : s.cachedMap with
  | some c =>
    have hcm : c = h.map := VshardMap.ext_ranges (h.cached c hc)
    have hs : { s with cachedMap := some h.map } = s := by rw [← hcm, ← hc]
    constructor
    · rintro ⟨_, _, ⟨rfl, rfl⟩, hr⟩
      obtain ⟨rfl, rfl⟩ := Tx.pure_returns.mp hr
      exact ⟨hcm, hs.symm⟩
    · rintro ⟨rfl, rfl⟩
      exact ⟨_, _, ⟨rfl, rfl⟩, Tx.pure_returns.mpr ⟨hcm.symm, hs.symm⟩⟩
  | none =>
    constructor
    · rintro ⟨_, _, ⟨rfl, rfl⟩, hr⟩
      simp only [Tx.bind_returns, Tx.gets_returns, Tx.ofExcept_returns, Tx.modify_returns,
        Tx.pure_returns] at hr
      obtain ⟨_, _, ⟨rfl, rfl⟩, m', _, ⟨hm, rfl⟩, _, _, rfl, rfl, rfl⟩ := hr
      obtain rfl : m = h.map := Except.ok.inj (hm.symm.trans hmake)
      exact ⟨rfl, rfl⟩
    · rintro ⟨rfl, rfl⟩
      refine ⟨_, _, ⟨rfl, rfl⟩, ?_⟩
      simp only [Tx.bind_returns, Tx.gets_returns, Tx.ofExcept_returns, Tx.modify_returns,
        Tx.pure_returns]
      exact ⟨_, _, ⟨rfl, rfl⟩, _, _, ⟨hmake, rfl⟩, (), _, rfl, rfl, rfl⟩

theorem currentMap_not_throws (h : s.Consistent) (e : Thrown) : ¬ currentMap.Throws s e s' := by
  have hr := (currentMap_cases h h.map).mpr ⟨rfl, rfl⟩
  exact hr.not_throws

theorem insertRanges_returns {ranges : List VshardRange} {t t' : RangeTable}
    (h : (insertRanges ranges).Returns t u t') : t'.rows = t.rows ++ ranges := by
  induction ranges generalizing t with
  | nil =>
    obtain ⟨-, rfl⟩ := Tx.pure_returns.mp h
    simp
  | cons range ranges ih =>
    simp only [insertRanges, Tx.bind_returns, Table.insert_returns] at h
    obtain ⟨_, mid, hins, h⟩ := h
    rw [ih h, Table.rows_insert hins, List.append_assoc, List.singleton_append]

/-- Rows in the order of a tiling come back in this order. -/
theorem sortedRanges_of_rows {db : CatalogDb δ} {ranges : List VshardRange} (h : db.ranges.rows = ranges)
    (ht : TilesVshards ranges) : db.sortedRanges = ranges := by
  have hs : ranges.Pairwise fun r r' => r.lo ≤ r'.lo :=
    ht.pairwise.imp_of_mem fun hr _ hlt => by have := (ht.bounds hr).2.1; omega
  unfold CatalogDb.sortedRanges Table.orderBy Table.select
  rw [h, List.filter_true, hs.insertionSort_eq]

theorem replaceMap_returns {next : VshardMap} (h : (replaceMap next).Returns s u s') :
    s'.db.sortedRanges = next.ranges ∧
      s' = { s with db := { s.db with ranges := s'.db.ranges } } := by
  simp only [replaceMap, onRanges, Tx.zoom_returns, Tx.bind_returns, Table.delete_returns] at h
  obtain ⟨t, ⟨_, _, ⟨rfl, -⟩, hins⟩, rfl⟩ := h
  refine ⟨sortedRanges_of_rows ?_ next.tiles, rfl⟩
  rw [insertRanges_returns hins]
  simp [Table.deleteWhere]

theorem bumpSchemaEpoch_returns (h : bumpSchemaEpoch.Returns s u s')
    (he : (s.db.epochs.find? ("schema", "global")).isSome) :
    s'.db.schemaEpoch = s.db.schemaEpoch + 1 ∧ (s'.db.epochs.find? ("schema", "global")).isSome ∧
      s' = { s with db := { s.db with epochs := s'.db.epochs } } := by
  simp only [bumpSchemaEpoch, onEpochs, Tx.bind_returns, Tx.zoom_returns, Table.update_returns,
    Tx.pure_returns] at h
  obtain ⟨_, _, ⟨t, ⟨hu, -⟩, rfl⟩, -, rfl⟩ := h
  obtain ⟨row, hrow⟩ := Option.isSome_iff_exists.mp he
  have hkey : row.key = ("schema", "global") := (Table.find?_eq_some.mp hrow).2
  have hfind := Table.find?_update hu (fun _ _ _ => rfl) ("schema", "global")
  rw [hrow, Option.map_some, if_pos (by simpa using hkey)] at hfind
  refine ⟨?_, ?_, rfl⟩
  · unfold CatalogDb.schemaEpoch; simp only; rw [hfind, hrow]; rfl
  · simp only; rw [hfind]; rfl

/-! ## What leaves the cache alone -/

theorem frames_onRest (x : Tx Thrown δ α) : (onRest x).Frames RoutingStore.cachedMap :=
  .zoom fun _ _ => rfl

theorem frames_replaceMap (next : VshardMap) :
    (replaceMap next : RoutingTx δ Unit).Frames RoutingStore.cachedMap := .zoom fun _ _ => rfl

theorem frames_bumpSchemaEpoch : (bumpSchemaEpoch : RoutingTx δ Unit).Frames RoutingStore.cachedMap :=
  .bind (.zoom fun _ _ => rfl) fun _ => (Tx.readOnly_pure _).frames

/-! ## Cutover -/

/-- A cutover that applied. -/
structure Applies (args : CatalogCutoverRequest) (s s' : RoutingStore δ) : Prop where
  consistent : s'.Consistent
  epoch : s'.db.schemaEpoch = s.db.schemaEpoch + 1
  guard : (s'.db.metadata.find? (cutoverKey args.migId)).isSome
  fresh : s.db.metadata.find? (cutoverKey args.migId) = none
  guards : ∀ k, (s.db.metadata.find? k).isSome → (s'.db.metadata.find? k).isSome

/-- A cutover that had been applied before. -/
structure ReplaysCutover (args : CatalogCutoverRequest) (s s' : RoutingStore δ) : Prop where
  guard : (s.db.metadata.find? (cutoverKey args.migId)).isSome
  db : s'.db = { s.db with rest := s'.db.rest }
  cached : s'.cachedMap = s.cachedMap

theorem applyCutover_returns {args : CatalogCutoverRequest} {hooks : CatalogCutoverHooks δ}
    {res : CatalogCutoverResult × Option VshardMap} (hs : s.Consistent)
    (hnone : s.db.metadata.find? (cutoverKey args.migId) = none)
    (h : (applyCutover args hooks).Returns s res s') :
    res.1.applied = true ∧ ∃ next, res.2 = some next ∧
      Applies args s { s' with cachedMap := some next } := by
  unfold applyCutover at h
  obtain ⟨current, _, hmap, h⟩ := Tx.bind_returns.mp h
  obtain ⟨_, _, hlo, h⟩ := Tx.bind_returns.mp h
  obtain ⟨-, rfl⟩ := Tx.ofExcept_returns.mp hlo
  obtain ⟨_, _, hown, h⟩ := Tx.bind_returns.mp h
  obtain ⟨-, rfl⟩ := Tx.require_returns.mp hown
  obtain ⟨_, _, hhi, h⟩ := Tx.bind_returns.mp h
  obtain ⟨-, rfl⟩ := Tx.ofExcept_returns.mp hhi
  obtain ⟨_, _, hown', h⟩ := Tx.bind_returns.mp h
  obtain ⟨-, rfl⟩ := Tx.require_returns.mp hown'
  obtain ⟨next, _, hnext, h⟩ := Tx.bind_returns.mp h
  obtain ⟨-, rfl⟩ := Tx.ofExcept_returns.mp hnext
  obtain ⟨_, s₁, hrep, h⟩ := Tx.bind_returns.mp h
  obtain ⟨_, s₂, hbump, h⟩ := Tx.bind_returns.mp h
  obtain ⟨_, _, hmark, h⟩ := Tx.bind_returns.mp h
  obtain ⟨t, hinsert, rfl⟩ := Tx.zoom_returns.mp hmark
  have hins := Table.insert_returns.mp hinsert
  obtain ⟨newEpoch, _, hread, h⟩ := Tx.bind_returns.mp h
  obtain ⟨rfl, rfl⟩ := Tx.gets_returns.mp hread
  obtain ⟨_, _, hafter, h⟩ := Tx.bind_returns.mp h
  obtain ⟨rest, -, rfl⟩ := Tx.zoom_returns.mp hafter
  obtain ⟨rfl, rfl⟩ := Tx.pure_returns.mp h
  obtain ⟨-, rfl⟩ := (currentMap_cases hs _).mp hmap
  obtain ⟨hrows, hs₁⟩ := replaceMap_returns hrep
  have hep : s₁.db.epochs = s.db.epochs := by rw [hs₁]
  have hmeta : s₁.db.metadata = s.db.metadata := by rw [hs₁]
  obtain ⟨hepoch, hsome, hs₂⟩ := bumpSchemaEpoch_returns hbump (by rw [hep]; exact hs.epoch)
  have hranges : s₂.db.sortedRanges = next.ranges := by rw [hs₂]; exact hrows
  have hfind := Table.find?_insert hins
  have hmeta₂ : s₂.db.metadata = s.db.metadata := by rw [hs₂]; exact hmeta
  have hsame : s₁.db.schemaEpoch = s.db.schemaEpoch := by unfold CatalogDb.schemaEpoch; rw [hep]
  refine ⟨rfl, next, rfl, ⟨?_, fun m hm => ?_, hsome⟩, ?_, ?_, hnone, fun k hk => ?_⟩
  · show TilesVshards s₂.db.sortedRanges
    rw [hranges]; exact next.tiles
  · cases hm; exact hranges.symm
  · exact hepoch.trans (by rw [hsame])
  · show (t.find? _).isSome
    rw [hfind, if_pos rfl]; rfl
  · show (t.find? k).isSome
    rw [hfind]
    split
    · rfl
    · rw [hmeta₂]; exact hk

theorem cutover_returns {args : CatalogCutoverRequest} {hooks : CatalogCutoverHooks δ}
    {res : CatalogCutoverResult} (hs : s.Consistent) (h : (cutover args hooks).Returns s res s') :
    (res.applied = true ∧ Applies args s s') ∨ (res.applied = false ∧ ReplaysCutover args s s') := by
  simp only [cutover, storageTransaction, Tx.bind_returns, Tx.transactionOn_returns, cutoverBody,
    readSchemaEpoch, Tx.gets_returns, onRest, Tx.zoom_returns, publishMap, Tx.modify_returns,
    Tx.pure_returns] at h
  obtain ⟨committed, mid, ⟨_, _, ⟨rfl, rfl⟩, _, _, ⟨rest, -, rfl⟩, guard, _, ⟨hguard, rfl⟩, h⟩, _, _, rfl, rfl, rfl⟩ := h
  cases guard with
  | some row =>
    simp only [Tx.bind_returns, Tx.zoom_returns, Tx.pure_returns] at h
    obtain ⟨_, _, ⟨rest', -, rfl⟩, rfl, rfl⟩ := h
    refine .inr ⟨rfl, ?_, rfl, rfl⟩
    rw [show s.db.metadata.find? (cutoverKey args.migId) = some row from hguard.symm]; rfl
  | none =>
    have hs' : RoutingStore.Consistent { s with db := { s.db with rest } } :=
      ⟨hs.tiles, hs.cached, hs.epoch⟩
    obtain ⟨happ, next, hnext, hA⟩ := applyCutover_returns hs' hguard.symm h
    rw [hnext]
    exact .inl ⟨happ, hA.consistent, hA.epoch, hA.guard, hA.fresh, hA.guards⟩

/-! ## Splitting -/

theorem splitRange_returns {lo hi : Int} {toShard : String} {before : Tx Thrown δ Unit}
    (hs : s.Consistent) (h : (splitRange lo hi toShard before).Returns s u s') :
    s'.Consistent ∧ s'.db.schemaEpoch = s.db.schemaEpoch + 1 ∧ s'.db.metadata = s.db.metadata := by
  simp only [splitRange, storageTransaction, Tx.bind_returns, Tx.transactionOn_returns,
    Tx.ofExcept_returns, onRest, Tx.zoom_returns, publishMap, Tx.modify_returns] at h
  obtain ⟨current, _, hmap, next, _, ⟨-, rfl⟩, _, s₂, ⟨_, _, ⟨rest, -, rfl⟩, _, s₁, hrep, hbump⟩, rfl⟩ := h
  obtain ⟨-, rfl⟩ := (currentMap_cases hs _).mp hmap
  obtain ⟨hrows, hs₁⟩ := replaceMap_returns hrep
  have hep : s₁.db.epochs = s.db.epochs := by rw [hs₁]
  obtain ⟨hepoch, hsome, hs₂⟩ := bumpSchemaEpoch_returns hbump (by rw [hep]; exact hs.epoch)
  have hranges : s₂.db.sortedRanges = next.ranges := by rw [hs₂]; exact hrows
  have hsame : s₁.db.schemaEpoch = s.db.schemaEpoch := by unfold CatalogDb.schemaEpoch; rw [hep]
  refine ⟨⟨?_, fun m hm => ?_, hsome⟩, ?_, ?_⟩
  · show TilesVshards s₂.db.sortedRanges
    rw [hranges]; exact next.tiles
  · cases hm; exact hranges.symm
  · exact hepoch.trans (by rw [hsame])
  · show s₂.db.metadata = _
    rw [hs₂]; simp only; rw [hs₁]

/-! ## Throws -/

/-- What a throw may leave behind: the map of the rows in the cache. -/
structure Recovers (s s' : RoutingStore δ) (h : s.Consistent) : Prop where
  db : s'.db = s.db
  cached : s'.cachedMap = s.cachedMap ∨ s'.cachedMap = some h.map

theorem Recovers.consistent {h : s.Consistent} (hr : Recovers s s' h) : s'.Consistent where
  tiles := by rw [hr.db]; exact h.tiles
  epoch := by rw [hr.db]; exact h.epoch
  cached m hm := by
    rw [hr.db]
    rcases hr.cached with hc | hc
    · exact h.cached m (hc ▸ hm)
    · rw [hc] at hm; cases hm; rfl

theorem applyCutover_throws {args : CatalogCutoverRequest} {hooks : CatalogCutoverHooks δ} {e : Thrown}
    (hs : s.Consistent) (h : (applyCutover args hooks).Throws s e s') :
    s'.cachedMap = some hs.map := by
  unfold applyCutover at h
  rcases Tx.bind_throws.mp h with h | ⟨m, t, hmap, h⟩
  · exact absurd h (currentMap_not_throws hs e)
  obtain ⟨-, rfl⟩ := (currentMap_cases hs _).mp hmap
  refine Tx.Frames.throws (f := RoutingStore.cachedMap) ?_ h
  refine (Tx.readOnly_ofExcept _).frames.bind fun _ => (Tx.readOnly_require _ _).frames.bind fun _ =>
    (Tx.readOnly_ofExcept _).frames.bind fun _ => (Tx.readOnly_require _ _).frames.bind fun _ =>
    (Tx.readOnly_ofExcept _).frames.bind fun next => (frames_replaceMap next).bind fun _ =>
    frames_bumpSchemaEpoch.bind fun _ => ?_
  exact Tx.Frames.bind (.zoom fun _ _ => rfl) fun _ => (Tx.readOnly_gets _).frames.bind fun _ =>
    (frames_onRest _).bind fun _ => (Tx.readOnly_pure _).frames

theorem cutover_throws {args : CatalogCutoverRequest} {hooks : CatalogCutoverHooks δ} {e : Thrown}
    (hs : s.Consistent) (h : (cutover args hooks).Throws s e s') : Recovers s s' hs := by
  unfold cutover storageTransaction publishMap at h
  simp only [Tx.bind_throws, Tx.transactionOn_throws, Tx.modify_throws, Tx.pure_throws, or_false,
    exists_false, and_false] at h
  obtain ⟨t, h, rfl⟩ := h
  refine ⟨rfl, ?_⟩
  show t.cachedMap = _ ∨ t.cachedMap = _
  unfold cutoverBody at h
  obtain h | ⟨epoch, h⟩ := (Tx.readOnly_gets _).of_bind_throws h
  · exact .inl (congrArg _ h)
  rcases Tx.bind_throws.mp h with h | ⟨_, mid, hbefore, h⟩
  · exact .inl ((frames_onRest _).throws h)
  obtain ⟨rest, -, rfl⟩ := Tx.zoom_returns.mp hbefore
  obtain h | ⟨guard, h⟩ := (Tx.readOnly_gets _).of_bind_throws h
  · exact .inl (by rw [h])
  cases guard with
  | some row =>
    have hframe := ((frames_onRest (hooks.after epoch false)).bind fun _ =>
      (Tx.readOnly_pure ((⟨false, epoch⟩, none) :
        CatalogCutoverResult × Option VshardMap)).frames).throws h
    exact .inl hframe
  | none =>
    have hs' : RoutingStore.Consistent { s with db := { s.db with rest } } :=
      ⟨hs.tiles, hs.cached, hs.epoch⟩
    exact .inr (applyCutover_throws hs' h)

theorem splitRange_throws {lo hi : Int} {toShard : String} {before : Tx Thrown δ Unit} {e : Thrown}
    (hs : s.Consistent) (h : (splitRange lo hi toShard before).Throws s e s') : Recovers s s' hs := by
  unfold splitRange storageTransaction publishMap at h
  rcases Tx.bind_throws.mp h with h | ⟨m, _, hmap, h⟩
  · exact absurd h (currentMap_not_throws hs e)
  obtain ⟨rfl, rfl⟩ := (currentMap_cases hs _).mp hmap
  obtain h | ⟨next, h⟩ := (Tx.readOnly_ofExcept _).of_bind_throws h
  · exact ⟨by rw [h], .inr (by rw [h])⟩
  rcases Tx.bind_throws.mp h with htx | ⟨_, _, -, hp⟩
  · obtain ⟨t, hbody, rfl⟩ := Tx.transactionOn_throws.mp htx
    exact ⟨rfl, .inr (((frames_onRest _).bind fun _ => (frames_replaceMap _).bind fun _ =>
      frames_bumpSchemaEpoch).throws hbody)⟩
  · exact (Tx.modify_throws.mp hp).elim

/-- A read that has the map and then looks at nothing but the store. -/
theorem read_throws {f : VshardMap → RoutingTx δ α} (hf : ∀ m, (f m).ReadOnly) {e : Thrown}
    (hs : s.Consistent) (h : (currentMap >>= f).Throws s e s') : Recovers s s' hs := by
  rcases Tx.bind_throws.mp h with h | ⟨m, _, hmap, h⟩
  · exact absurd h (currentMap_not_throws hs e)
  · obtain ⟨rfl, rfl⟩ := (currentMap_cases hs _).mp hmap
    have := (hf _).atomic h
    exact ⟨by rw [this], .inr (by rw [this])⟩

theorem read_returns {f : VshardMap → RoutingTx δ α} (hf : ∀ m, (f m).ReadOnly) {a : α}
    (hs : s.Consistent) (h : (currentMap >>= f).Returns s a s') : Recovers s s' hs := by
  obtain ⟨m, _, hmap, h⟩ := Tx.bind_returns.mp h
  obtain ⟨rfl, rfl⟩ := (currentMap_cases hs _).mp hmap
  have := (hf _).returns h
  exact ⟨by rw [← this], .inr (by rw [← this])⟩

theorem readOnly_route (vshard : Int) (m : VshardMap) :
    (do
      let shardId ← .ofExcept (m.routeVshard vshard)
      let schemaEpoch ← readSchemaEpoch
      pure (shardId, schemaEpoch) : RoutingTx δ (String × Int)).ReadOnly :=
  (Tx.readOnly_ofExcept _).bind fun _ => (Tx.readOnly_gets _).bind fun _ => Tx.readOnly_pure _

/-! ## Starting and restarting -/

theorem RoutingStore.Consistent.boot (hs : s.Consistent) : (RoutingStore.boot s.db).Consistent ∧
    (RoutingStore.boot s.db).db.schemaEpoch = s.db.schemaEpoch ∧
    (RoutingStore.boot s.db).db.sortedRanges = s.db.sortedRanges := by
  -- some range starts at 0, so the row of a fresh Catalog is ignored
  have hranges : s.db.ranges.insertOrIgnore ⟨0, VSHARD_COUNT - 1, "ShardDO_0"⟩ = s.db.ranges := by
    unfold Table.insertOrIgnore
    cases hi : s.db.ranges.insert? ⟨0, VSHARD_COUNT - 1, "ShardDO_0"⟩ with
    | none => rfl
    | some t =>
      exfalso
      obtain ⟨r, hr, hc⟩ := hs.tiles.exists_covers (v := 0) le_rfl (by unfold VSHARD_COUNT; omega)
      have hb := hs.tiles.bounds hr
      unfold Covers at hc
      exact (Table.insert?_fresh hi).1 r (Table.mem_orderBy.mp hr).1 (by show r.lo = 0; omega)
  have hepoch : (RoutingStore.boot s.db).db.epochs.find? ("schema", "global") =
      s.db.epochs.find? ("schema", "global") := by
    obtain ⟨row, hrow⟩ := Option.isSome_iff_exists.mp hs.epoch
    show ((s.db.epochs.insertOrIgnore _).insertOrIgnore _).find? _ = _
    rw [Table.find?_insertOrIgnore trivial, if_neg (by decide), Table.find?_insertOrIgnore trivial, hrow]
    simp [EpochRow.key]
  have hrows : (RoutingStore.boot s.db).db.sortedRanges = s.db.sortedRanges := by
    unfold CatalogDb.sortedRanges
    rw [show (RoutingStore.boot s.db).db.ranges = s.db.ranges from hranges]
  refine ⟨⟨by rw [hrows]; exact hs.tiles, fun m hm => absurd hm (by simp [RoutingStore.boot]), by rw [hepoch]; exact hs.epoch⟩, ?_, hrows⟩
  unfold CatalogDb.schemaEpoch
  rw [hepoch]

theorem RoutingStore.initial_consistent (rest : δ) : (RoutingStore.initial rest).Consistent where
  tiles := by
    have : (RoutingStore.initial rest).db.sortedRanges = [⟨0, VSHARD_COUNT - 1, "ShardDO_0"⟩] := rfl
    rw [this]
    exact ⟨rfl, by decide, rfl⟩
  cached m hm := by cases hm
  epoch := rfl

/-! ## Runs -/

/-- The store, with the migration ids whose cutover was applied. -/
structure RoutingWorld (δ : Type) where
  store : RoutingStore δ
  applied : List String

/-- How far an outcome moves the schema epoch. -/
def RoutingOutcome.epochs : RoutingOutcome → Int
  | .cutover res => if res.applied then 1 else 0
  | .split => 1
  | _ => 0

/-- The migration ids with those that this call applied. -/
def RoutingOp.record (op : RoutingOp δ) (outcome : RoutingOutcome) (applied : List String) :
    List String :=
  match op, outcome with
  | .cutover args _, .cutover res => if res.applied then args.migId :: applied else applied
  | _, _ => applied

def RoutingWorld.step (w : RoutingWorld δ) (op : RoutingOp δ) : RoutingWorld δ :=
  match op.run w.store with
  | (.ok outcome, store) => ⟨store, op.record outcome w.applied⟩
  | (.error _, store) => { w with store }

theorem RoutingWorld.step_returns {w : RoutingWorld δ} {op : RoutingOp δ} {outcome : RoutingOutcome}
    (h : op.run.Returns w.store outcome s') : w.step op = ⟨s', op.record outcome w.applied⟩ := by
  unfold step; unfold Tx.Returns at h; rw [h]

theorem RoutingWorld.step_throws {w : RoutingWorld δ} {op : RoutingOp δ} {e : Thrown}
    (h : op.run.Throws w.store e s') : w.step op = { w with store := s' } := by
  unfold step; unfold Tx.Throws at h; rw [h]

def RoutingWorld.run (w : RoutingWorld δ) (ops : List (RoutingOp δ)) : RoutingWorld δ :=
  ops.foldl RoutingWorld.step w

/-- The guards of applied migrations are kept. -/
structure RoutingInvariant (w : RoutingWorld δ) : Prop where
  consistent : w.store.Consistent
  guards : ∀ id ∈ w.applied, (w.store.db.metadata.find? (cutoverKey id)).isSome
  nodup : w.applied.Nodup

/-- What a returned operation did. -/
structure Effect (op : RoutingOp δ) (outcome : RoutingOutcome) (applied : List String)
    (s s' : RoutingStore δ) : Prop where
  consistent : s'.Consistent
  epoch : s'.db.schemaEpoch = s.db.schemaEpoch + outcome.epochs
  record : (op.record outcome applied = applied ∧ ∀ k, (s.db.metadata.find? k).isSome →
      (s'.db.metadata.find? k).isSome) ∨
    ∃ args : CatalogCutoverRequest, op.record outcome applied = args.migId :: applied ∧ Applies args s s'

theorem Recovers.effect {h : s.Consistent} (hr : Recovers s s' h) {op : RoutingOp δ}
    {outcome : RoutingOutcome} (applied : List String) (he : outcome.epochs = 0)
    (hrec : op.record outcome applied = applied) : Effect op outcome applied s s' where
  consistent := hr.consistent
  epoch := by rw [hr.db, he, Int.add_zero]
  record := .inl ⟨hrec, fun k hk => by rw [hr.db]; exact hk⟩

theorem RoutingOp.run_returns {op : RoutingOp δ} {outcome : RoutingOutcome} (hs : s.Consistent)
    (applied : List String) (h : op.run.Returns s outcome s') : Effect op outcome applied s s' := by
  cases op with
  | route vshard =>
    obtain ⟨r, hr, rfl⟩ := Tx.map_returns.mp h
    exact (read_returns (readOnly_route vshard) hs hr).effect applied rfl rfl
  | listRanges =>
    obtain ⟨r, hr, rfl⟩ := Tx.map_returns.mp h
    exact (read_returns (fun _ => Tx.readOnly_pure _) hs hr).effect applied rfl rfl
  | ownsRange lo hi shardId =>
    obtain ⟨r, hr, rfl⟩ := Tx.map_returns.mp h
    exact (read_returns (fun _ => Tx.readOnly_pure _) hs hr).effect applied rfl rfl
  | cutover args hooks =>
    obtain ⟨res, hr, rfl⟩ := Tx.map_returns.mp h
    rcases cutover_returns hs hr with ⟨happ, hA⟩ | ⟨happ, hR⟩
    · exact ⟨hA.consistent, by rw [hA.epoch, RoutingOutcome.epochs, if_pos happ],
        .inr ⟨args, by rw [record, if_pos happ], hA⟩⟩
    · have hc : s'.Consistent := by
        refine ⟨?_, fun m hm => ?_, ?_⟩
        · rw [hR.db]; exact hs.tiles
        · rw [hR.db]; exact hs.cached m (hR.cached ▸ hm)
        · rw [hR.db]; exact hs.epoch
      refine ⟨hc, ?_, .inl ⟨?_, fun k hk => ?_⟩⟩
      · rw [RoutingOutcome.epochs, happ, hR.db]; simp [CatalogDb.schemaEpoch]
      · rw [record, happ]; rfl
      · rw [hR.db]; exact hk
  | splitRange lo hi toShard before =>
    obtain ⟨_, hr, rfl⟩ := Tx.map_returns.mp h
    obtain ⟨hc, hepoch, hmeta⟩ := splitRange_returns hs hr
    exact ⟨hc, hepoch, .inl ⟨rfl, fun k hk => by rw [hmeta]; exact hk⟩⟩
  | restart =>
    obtain ⟨_, hr, rfl⟩ := Tx.map_returns.mp h
    obtain rfl := Tx.modify_returns.mp hr
    obtain ⟨hc, hepoch, -⟩ := hs.boot
    exact ⟨hc, hepoch.trans (Int.add_zero _).symm, .inl ⟨rfl, fun k hk => hk⟩⟩

theorem RoutingOp.run_throws {op : RoutingOp δ} {e : Thrown} (hs : s.Consistent)
    (h : op.run.Throws s e s') : Recovers s s' hs := by
  cases op with
  | route vshard => exact read_throws (readOnly_route vshard) hs (Tx.map_throws.mp h)
  | listRanges => exact read_throws (fun _ => Tx.readOnly_pure _) hs (Tx.map_throws.mp h)
  | ownsRange lo hi shardId => exact read_throws (fun _ => Tx.readOnly_pure _) hs (Tx.map_throws.mp h)
  | cutover args hooks => exact cutover_throws hs (Tx.map_throws.mp h)
  | splitRange lo hi toShard before => exact splitRange_throws hs (Tx.map_throws.mp h)
  | restart => exact (Tx.modify_throws.mp (Tx.map_throws.mp h)).elim

theorem RoutingInvariant.step {w : RoutingWorld δ} (hw : RoutingInvariant w) (op : RoutingOp δ) :
    RoutingInvariant (w.step op) := by
  rcases op.run.returns_or_throws w.store with ⟨outcome, h⟩ | ⟨e, h⟩
  · have hE := RoutingOp.run_returns hw.consistent w.applied h
    rw [RoutingWorld.step_returns h]
    refine ⟨hE.consistent, fun id (hid : id ∈ op.record outcome w.applied) => ?_, ?_⟩
    · rcases hE.record with ⟨hrec, hkeep⟩ | ⟨args, hrec, hA⟩
      · exact hkeep _ (hw.guards id (hrec ▸ hid))
      · rw [hrec] at hid
        rcases List.mem_cons.mp hid with rfl | hid
        · exact hA.guard
        · exact hA.guards _ (hw.guards id hid)
    · rcases hE.record with ⟨hrec, -⟩ | ⟨args, hrec, hA⟩
      · show (op.record outcome w.applied).Nodup
        rw [hrec]; exact hw.nodup
      · show (op.record outcome w.applied).Nodup
        rw [hrec]
        refine List.nodup_cons.mpr ⟨fun hmem => ?_, hw.nodup⟩
        have := hw.guards _ hmem
        rw [hA.fresh] at this; cases this
  · have hR := RoutingOp.run_throws hw.consistent h
    rw [RoutingWorld.step_throws h]
    exact ⟨hR.consistent, fun id hid => by rw [hR.db]; exact hw.guards id hid, hw.nodup⟩

theorem RoutingInvariant.run {w : RoutingWorld δ} (hw : RoutingInvariant w) (ops : List (RoutingOp δ)) :
    RoutingInvariant (w.run ops) := by
  induction ops generalizing w with
  | nil => exact hw
  | cons op ops ih => exact ih (hw.step op)

/-! ## The guarantee -/

/-- What `route` returns, or throws, in a state. -/
def RoutingStore.routed (s : RoutingStore δ) (vshard : Int) : Except Thrown (String × Int) :=
  (Catalog.route vshard s).1

theorem RoutingStore.Consistent.routed_eq (hs : s.Consistent) (vshard : Int) :
    s.routed vshard = (hs.map.routeVshard vshard).map fun shardId => (shardId, s.db.schemaEpoch) := by
  have hmap := (currentMap_cases hs hs.map).mpr ⟨rfl, rfl⟩
  unfold routed
  cases hv : hs.map.routeVshard vshard with
  | error e =>
    have h : (Catalog.route vshard).Throws s e { s with cachedMap := some hs.map } := by
      unfold Catalog.route
      exact Tx.bind_throws.mpr (.inr ⟨_, _, hmap, by simp [hv]⟩)
    rw [show Catalog.route vshard s = _ from h]; rfl
  | ok shardId =>
    have h : (Catalog.route vshard).Returns s (shardId, s.db.schemaEpoch)
        { s with cachedMap := some hs.map } := by
      unfold Catalog.route
      exact Tx.bind_returns.mpr ⟨_, _, hmap, by simp [hv, readSchemaEpoch]⟩
    rw [show Catalog.route vshard s = _ from h]; rfl

/-- What holds in every state of a run. -/
structure RoutingStateSafe (s : RoutingStore δ) : Prop where
  partition : Tiles VshardRange.lo VshardRange.hi 0 16384 s.db.sortedRanges
  cached : ∀ m ∈ s.cachedMap, VshardMap.make s.db.sortedRanges = .ok m

/-- What holds of every operation from a state of a run. -/
structure RoutingStepSafe (w : RoutingWorld δ) (op : RoutingOp δ) : Prop where
  /-- The epoch counts the applied cutovers and the splits. -/
  epoch : ∀ outcome s', op.run.Returns w.store outcome s' →
    s'.db.schemaEpoch = w.store.db.schemaEpoch + outcome.epochs
  /-- A migration that was applied is never applied again. -/
  once : ∀ args hooks res s', op = .cutover args hooks → args.migId ∈ w.applied →
    op.run.Returns w.store (.cutover res) s' → res.applied = false ∧
      s'.db.ranges = w.store.db.ranges ∧ s'.db.schemaEpoch = w.store.db.schemaEpoch
  /-- A throw leaves the rows, the guards and the routing as they were. -/
  throws : ∀ e s', op.run.Throws w.store e s' → s'.db = w.store.db ∧
    ∀ vshard, s'.routed vshard = w.store.routed vshard

/-- Over every run from a fresh Catalog. -/
def RoutingStoreSafe (δ : Type) : Prop :=
  ∀ (rest : δ) (ops : List (RoutingOp δ)),
    let w := RoutingWorld.run ⟨.initial rest, []⟩ ops
    RoutingStateSafe w.store ∧ w.applied.Nodup ∧ ∀ op, RoutingStepSafe w op

theorem routing_store_safe (δ : Type) : RoutingStoreSafe δ := by
  intro rest ops w
  have hw : RoutingInvariant w := RoutingInvariant.run
    (w := ⟨.initial rest, []⟩) ⟨RoutingStore.initial_consistent rest, by simp, List.nodup_nil⟩ ops
  have hs := hw.consistent
  refine ⟨⟨hs.tiles, fun m hm => ?_⟩, hw.nodup, fun op => ⟨fun outcome s' h => ?_, ?_, fun e s' h => ?_⟩⟩
  · rw [VshardMap.make_of_tiles hs.tiles (.refl _)]
    exact congrArg _ (VshardMap.ext_ranges (hs.cached m hm).symm)
  · exact (RoutingOp.run_returns hs [] h).epoch
  · rintro args hooks res s' rfl hid h
    obtain ⟨res', hr, he⟩ := Tx.map_returns.mp h
    cases he
    rcases cutover_returns hs hr with ⟨-, hA⟩ | ⟨happ, hR⟩
    · have := hw.guards _ hid
      rw [hA.fresh] at this; cases this
    · refine ⟨happ, ?_, ?_⟩
      · rw [hR.db]
      · rw [hR.db]; rfl
  · have hR := RoutingOp.run_throws hs h
    refine ⟨hR.db, fun vshard => ?_⟩
    rw [hR.consistent.routed_eq, hs.routed_eq, hR.db]
    congr 2
    exact VshardMap.ext_ranges (by show s'.db.sortedRanges = _; rw [hR.db]; rfl)

end Chardb.Catalog
