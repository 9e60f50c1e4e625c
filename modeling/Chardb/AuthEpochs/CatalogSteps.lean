import Chardb.AuthEpochs.OutboxEffects
import Chardb.AuthEpochs.Pages

/-!
# What the Catalog does with auth epochs

Recording bumps the epochs of the scopes and leaves, for each, a walk from the start or the targets of
the tenant; a walk that is completed had no shard left.
-/

namespace Chardb.AuthEpochs

open Chardb.Lib Chardb.Live Chardb.Catalog

/-! ## The outbox of a Catalog -/

/-- The Catalog with these invalidations. -/
def AuthCatalog.withInvalidations (s : AuthCatalog) (db : InvalidationTables) : AuthCatalog :=
  { s with db := { s.db with rest := { s.db.rest with invalidations := db } } }

variable {s s' : AuthCatalog} {u : Unit} {α : Type}

theorem onInvalidations_returns {x : OutboxTx α} {a : α} (h : (onInvalidations x).Returns s a s') :
    ∃ db, x.Returns s.invalidations a db ∧ s' = s.withInvalidations db := by
  simp only [onInvalidations, onRest, Tx.zoom_returns] at h
  obtain ⟨rest, ⟨db, hx, rfl⟩, rfl⟩ := h
  exact ⟨db, hx, rfl⟩

theorem storageTransaction_returns {x : AuthCatalogTx α} {a : α}
    (h : (storageTransaction x).Returns s a s') : x.Returns s a s' :=
  Tx.transactionOn_returns.mp h

/-- A change of the outbox alone. -/
structure OutboxStep (s s' : AuthCatalog) : Prop where
  db : s'.db = { s.db with rest := { s.db.rest with invalidations := s'.invalidations } }

theorem OutboxStep.of_with (db : InvalidationTables) : OutboxStep s (s.withInvalidations db) := ⟨rfl⟩

theorem OutboxStep.authEpoch (h : OutboxStep s s') (key : ScopeKey) :
    s'.authEpoch key = s.authEpoch key := by
  unfold AuthCatalog.authEpoch; rw [h.db]

theorem OutboxStep.activeTopology (h : OutboxStep s s') : s'.activeTopology = s.activeTopology := by
  unfold AuthCatalog.activeTopology; rw [h.db]

theorem OutboxStep.inventory (h : OutboxStep s s') (shardId : String) :
    s'.Inventory shardId ↔ s.Inventory shardId := by
  unfold AuthCatalog.Inventory
  rw [h.activeTopology, h.db]

theorem OutboxStep.refl (s : AuthCatalog) : OutboxStep s s := ⟨rfl⟩

theorem OutboxStep.trans {s'' : AuthCatalog} (h : OutboxStep s s') (h' : OutboxStep s' s'') :
    OutboxStep s s'' := by
  refine ⟨?_⟩
  rw [h'.db, h.db]

/-! ## Bumping -/

/-- What a bump of one epoch leaves alone. -/
structure Bumped (s s' : AuthCatalog) : Prop where
  invalidations : s'.invalidations = s.invalidations
  topology : s'.activeTopology = s.activeTopology
  inventory : ∀ shardId, s'.Inventory shardId ↔ s.Inventory shardId
  grows : ∀ key, s.authEpoch key ≤ s'.authEpoch key

theorem bumpCatalogAuthEpoch_returns {key : ScopeKey} {epoch : Int}
    (h : (bumpCatalogAuthEpoch key).Returns s epoch s') :
    Bumped s s' ∧ s.authEpoch key < epoch ∧ s'.authEpoch key = epoch := by
  simp only [bumpCatalogAuthEpoch, onEpochs, Tx.bind_returns, Tx.zoom_returns, Table.update_returns,
    Tx.gets_returns] at h
  obtain ⟨_, _, ⟨ignored, hignore, rfl⟩, _, _, ⟨epochs, ⟨hup, -⟩, rfl⟩, rfl, rfl⟩ := h
  have hold := Table.insertIgnore_find? hignore trivial
  have hnew := Table.find?_update hup fun _ _ _ => rfl
  have hrow : ∀ k, (epochs.find? k).map EpochRow.epoch =
      if k = epochKey key then some (((s.db.epochs.find? k).map EpochRow.epoch).getD 0 + 1)
      else (s.db.epochs.find? k).map EpochRow.epoch := by
    intro k
    rw [hnew, hold]
    show ((if epochKey key = k then _ else _ : Option EpochRow).map _).map _ = _
    by_cases hk : k = epochKey key
    · subst hk
      rw [if_pos rfl, if_pos rfl]
      cases hfind : s.db.epochs.find? (epochKey key) with
      | none =>
        have hself : (⟨(epochKey key).1, (epochKey key).2, 0⟩ : EpochRow).key = epochKey key := rfl
        simp [hself]
      | some row =>
        have hself : row.key = epochKey key := (Table.find?_eq_some.mp hfind).2
        simp [hself]
    · rw [if_neg hk, if_neg fun he => hk he.symm]
      cases hfind : s.db.epochs.find? k with
      | none => rfl
      | some row =>
        have hself : row.key = k := (Table.find?_eq_some.mp hfind).2
        simp [hself, hk]
  have hauth : ∀ k : ScopeKey, ((epochs.find? (epochKey k)).map EpochRow.epoch).getD 0 =
      if epochKey k = epochKey key then s.authEpoch k + 1 else s.authEpoch k := by
    intro k
    rw [hrow]
    split
    · rename_i he
      rw [Option.getD_some]
      rfl
    · rfl
  refine ⟨⟨rfl, rfl, fun _ => Iff.rfl, fun k => ?_⟩, ?_, ?_⟩
  · show s.authEpoch k ≤ ((epochs.find? (epochKey k)).map EpochRow.epoch).getD 0
    rw [hauth]
    split <;> omega
  · show s.authEpoch key < ((epochs.find? (epochKey key)).map EpochRow.epoch).getD 1
    rw [hrow, if_pos rfl, Option.getD_some]
    exact Int.lt_succ _
  · show ((epochs.find? (epochKey key)).map EpochRow.epoch).getD 0 =
      ((epochs.find? (epochKey key)).map EpochRow.epoch).getD 1
    rw [hrow, if_pos rfl, Option.getD_some, Option.getD_some]

theorem Bumped.trans {s'' : AuthCatalog} (h : Bumped s s') (h' : Bumped s' s'') : Bumped s s'' where
  invalidations := h'.invalidations.trans h.invalidations
  topology := h'.topology.trans h.topology
  inventory id := (h'.inventory id).trans (h.inventory id)
  grows key := (h.grows key).trans (h'.grows key)

/-- The epochs that are given out are newer than any before, and the Catalog knows them. -/
theorem bumpCatalogAuthEpochs_returns {scopes : List EpochScope} {changes : List (EpochScope × Int)}
    (h : (bumpCatalogAuthEpochs scopes).Returns s changes s') :
    Bumped s s' ∧ ∀ c ∈ changes, s.authEpoch c.1.key < c.2 ∧ c.2 ≤ s'.authEpoch c.1.key := by
  induction scopes generalizing s changes with
  | nil =>
    obtain ⟨rfl, rfl⟩ := Tx.pure_returns.mp h
    exact ⟨⟨rfl, rfl, fun _ => Iff.rfl, fun _ => le_rfl⟩, fun _ hc => by cases hc⟩
  | cons scope scopes ih =>
    simp only [bumpCatalogAuthEpochs, Tx.bind_returns, Tx.pure_returns] at h
    obtain ⟨epoch, mid, hone, rest, _, hrest, rfl, rfl⟩ := h
    obtain ⟨hb, hlt, heq⟩ := bumpCatalogAuthEpoch_returns hone
    obtain ⟨hb', hall⟩ := ih hrest
    refine ⟨hb.trans hb', fun c hc => ?_⟩
    rcases List.mem_cons.mp hc with rfl | hc
    · exact ⟨hlt, heq ▸ hb'.grows _⟩
    · obtain ⟨h₁, h₂⟩ := hall c hc
      exact ⟨lt_of_le_of_lt (hb.grows _) h₁, h₂⟩

/-! ## Recording -/

/-- What the enqueues of `changes` leave in the outbox. -/
structure Enqueued (vshardOf : String → Int) (changes : List (EpochScope × Int))
    (s s' : AuthCatalog) : Prop where
  outbox : OutboxStep s s'
  cache : ∀ m, s.cachedMap = some m → s'.cachedMap = some m
  /-- A walk keeps its place, or is taken over by one of the changes. -/
  walks : ∀ scope e c, s.invalidations.progress? scope = some (e, c) →
    ∃ e' c', s'.invalidations.progress? scope = some (e', c') ∧ e ≤ e' ∧ (c' = c ∨ c' = none)
  source : ∀ scope e c, s'.invalidations.progress? scope = some (e, c) →
    s.invalidations.progress? scope = some (e, c) ∨ ((.walk scope, e) ∈ changes ∧ c = none)
  fresh : (∀ scope e, (.walk scope, e) ∈ changes → ∀ e₀ c, s.invalidations.progress? scope =
      some (e₀, c) → e ≤ e₀ → c = none) →
    ∀ scope e, (.walk scope, e) ∈ changes →
      ∃ e', s'.invalidations.progress? scope = some (e', none) ∧ e ≤ e'
  targets : ∀ key e, s.invalidations.targetEpoch? key = some e →
    ∃ e', s'.invalidations.targetEpoch? key = some e' ∧ e ≤ e'
  tenants : ∀ scopeId e, (.tenant scopeId, e) ∈ changes →
    ∃ m owner, s'.cachedMap = some m ∧ m.routeVshard (vshardOf scopeId) = .ok owner ∧
      ∀ shardId ∈ targetShards s.activeTopology owner (vshardOf scopeId),
        ∃ e', s'.invalidations.targetEpoch? ((.tenant, scopeId), shardId) = some e' ∧ e ≤ e'

theorem route_returns {vshard : Int} {owner : String × Int}
    (h : (route vshard : AuthCatalogTx _).Returns s owner s') :
    s'.db = s.db ∧ ∃ m, s'.cachedMap = some m ∧ m.routeVshard vshard = .ok owner.1 ∧
      ∀ m', s.cachedMap = some m' → m' = m := by
  simp only [route, currentMap, readSchemaEpoch, Tx.bind_returns, Tx.gets_returns, Tx.ofExcept_returns,
    Tx.pure_returns] at h
  obtain ⟨m, mid, ⟨cached, _, ⟨rfl, rfl⟩, hmap⟩, shardId, _, ⟨hroute, rfl⟩, _, _, ⟨rfl, rfl⟩, rfl, rfl⟩ := h
  cases hcached : s.cachedMap with
  | some m' =>
    rw [hcached] at hmap
    obtain ⟨rfl, rfl⟩ := Tx.pure_returns.mp hmap
    exact ⟨rfl, m, hcached, hroute, fun _ h => (Option.some.inj h).symm⟩
  | none =>
    rw [hcached] at hmap
    simp only [Tx.bind_returns, Tx.gets_returns, Tx.ofExcept_returns, Tx.modify_returns,
      Tx.pure_returns] at hmap
    obtain ⟨_, _, ⟨rfl, rfl⟩, _, _, ⟨-, rfl⟩, _, _, rfl, rfl, rfl⟩ := hmap
    exact ⟨rfl, m, rfl, hroute, fun _ h => by cases h⟩

theorem enqueueTenant_returns {vshardOf : String → Int} {scopeId : String} {epoch nowMs : Int}
    (h : (enqueueTenant vshardOf scopeId epoch nowMs).Returns s u s') :
    OutboxStep s s' ∧ (∀ scope, s'.invalidations.progress? scope = s.invalidations.progress? scope) ∧
      (∀ key e, s.invalidations.targetEpoch? key = some e →
        ∃ e', s'.invalidations.targetEpoch? key = some e' ∧ e ≤ e') ∧
      ∃ m owner, s'.cachedMap = some m ∧ (∀ m', s.cachedMap = some m' → m' = m) ∧
        m.routeVshard (vshardOf scopeId) = .ok owner ∧
        ∀ shardId ∈ targetShards s.activeTopology owner (vshardOf scopeId),
          ∃ e', s'.invalidations.targetEpoch? ((.tenant, scopeId), shardId) = some e' ∧ epoch ≤ e' := by
  simp only [enqueueTenant, Tx.bind_returns, Tx.gets_returns] at h
  obtain ⟨_, _, ⟨rfl, rfl⟩, owner, mid, hroute, h⟩ := h
  obtain ⟨hdb, m, hm, howner, hsame⟩ := route_returns hroute
  obtain ⟨db, htargets, rfl⟩ := onInvalidations_returns h
  have hinv : AuthCatalog.invalidations mid = s.invalidations := by
    unfold AuthCatalog.invalidations; rw [hdb]
  obtain ⟨hwalks, hgrow, hnew⟩ := enqueueTargets_returns htargets
  rw [hinv] at hwalks hgrow
  refine ⟨⟨?_⟩, hwalks, hgrow, m, owner.1, hm, hsame, howner, hnew⟩
  unfold AuthCatalog.withInvalidations
  rw [hdb]
  rfl

theorem Enqueued.nil (vshardOf : String → Int) (s : AuthCatalog) : Enqueued vshardOf [] s s where
  outbox := .refl s
  cache _ h := h
  walks _ e c h := ⟨e, c, h, le_rfl, .inl rfl⟩
  source _ _ _ h := .inl h
  fresh _ _ _ h := by cases h
  targets _ e h := ⟨e, h, le_rfl⟩
  tenants _ _ h := by cases h

/-- One walk, and then the rest. -/
theorem Enqueued.walk {vshardOf : String → Int} {changes : List (EpochScope × Int)} {scope : WalkScope}
    {epoch : Int} {db : InvalidationTables} (h : OnWalk scope (started epoch) s.invalidations db)
    (hrest : Enqueued vshardOf changes (s.withInvalidations db) s') :
    Enqueued vshardOf ((.walk scope, epoch) :: changes) s s' := by
  have hhere : ∀ e c, s.invalidations.progress? scope = some (e, c) →
      db.progress? scope = some (max e epoch, if e < epoch then none else c) := fun e c he => by
    rw [h.here, he]; rfl
  have hmid : ∃ e c, db.progress? scope = some (e, c) ∧ epoch ≤ e := by
    rw [h.here]
    cases s.invalidations.progress? scope with
    | none => exact ⟨epoch, none, rfl, le_rfl⟩
    | some p => exact ⟨_, _, rfl, le_max_right _ _⟩
  refine ⟨(OutboxStep.of_with db).trans hrest.outbox, fun m hm => hrest.cache m hm,
    fun scope' e c he => ?_, fun scope' e c he => ?_, fun hold scope' e hmem => ?_, fun key e he => ?_,
    fun scopeId e hmem => ?_⟩
  · by_cases hs : scope' = scope
    · subst hs
      obtain ⟨e', c', he', hle, hc⟩ := hrest.walks _ _ _ (hhere e c he)
      refine ⟨e', c', he', (le_max_left _ _).trans hle, ?_⟩
      rcases hc with rfl | rfl
      · split
        · exact .inr rfl
        · exact .inl rfl
      · exact .inr rfl
    · exact hrest.walks _ _ _ ((h.other _ hs).trans he)
  · rcases hrest.source _ _ _ he with hmid' | ⟨hmem, hc⟩
    · by_cases hs : scope' = scope
      · subst hs
        cases hold : s.invalidations.progress? scope' with
        | none =>
          have hnew : db.progress? scope' = some (epoch, none) := by rw [h.here, hold]; rfl
          obtain ⟨rfl, rfl⟩ := Prod.mk.inj (Option.some.inj (hnew.symm.trans hmid'))
          exact .inr ⟨List.mem_cons_self, rfl⟩
        | some p =>
          obtain ⟨rfl, rfl⟩ := Prod.mk.inj (Option.some.inj ((hhere p.1 p.2 hold).symm.trans hmid'))
          by_cases hlt : p.1 < epoch
          · rw [max_eq_right hlt.le, if_pos hlt]
            exact .inr ⟨List.mem_cons_self, rfl⟩
          · rw [max_eq_left (not_lt.mp hlt), if_neg hlt]
            exact .inl rfl
      · exact .inl ((h.other _ hs).symm.trans hmid')
    · exact .inr ⟨List.mem_cons_of_mem _ hmem, hc⟩
  · -- the walk stands at its start, whatever was there
    have hstart : ∀ e₀ c, db.progress? scope = some (e₀, c) → c = none := by
      intro e₀ c he₀
      cases hs : s.invalidations.progress? scope with
      | none =>
        have hnew : db.progress? scope = some (epoch, none) := by rw [h.here, hs]; rfl
        exact (Prod.mk.inj (Option.some.inj (he₀.symm.trans hnew))).2
      | some p =>
        obtain ⟨-, rfl⟩ := Prod.mk.inj (Option.some.inj ((hhere p.1 p.2 hs).symm.trans he₀))
        by_cases hlt : p.1 < epoch
        · rw [if_pos hlt]
        · rw [if_neg hlt]
          exact hold scope epoch List.mem_cons_self p.1 p.2 hs (not_lt.mp hlt)
    have hrest' := hrest.fresh fun k e' hmem' e₀ c he₀ hle => by
      by_cases hs : k = scope
      · subst hs
        exact hstart e₀ c he₀
      · exact hold k e' (List.mem_cons_of_mem _ hmem') e₀ c ((h.other _ hs).symm.trans he₀) hle
    rcases List.mem_cons.mp hmem with heq | hmem
    · obtain ⟨hs, rfl⟩ := Prod.mk.inj heq
      obtain rfl := EpochScope.walk.inj hs
      obtain ⟨e₀, c, he₀, hle⟩ := hmid
      obtain ⟨e', c', he', hle', hc⟩ := hrest.walks _ _ _ he₀
      have hnone : c' = none := by
        rcases hc with rfl | rfl
        · exact hstart _ _ he₀
        · rfl
      subst hnone
      exact ⟨e', he', hle.trans hle'⟩
    · exact hrest' scope' e hmem
  · exact hrest.targets key e ((h.targets key).trans he)
  · rcases List.mem_cons.mp hmem with heq | hmem
    · cases heq
    · exact hrest.tenants scopeId e hmem

theorem enqueueAuthInvalidations_returns {vshardOf : String → Int} {nowMs : Int}
    {changes : List (EpochScope × Int)}
    (h : (enqueueAuthInvalidations vshardOf nowMs changes).Returns s u s') :
    Enqueued vshardOf changes s s' := by
  induction changes generalizing s with
  | nil =>
    obtain ⟨-, rfl⟩ := Tx.pure_returns.mp h
    exact .nil vshardOf s
  | cons change changes ih =>
    obtain ⟨scope, epoch⟩ := change
    cases scope with
    | walk scope =>
      simp only [enqueueAuthInvalidations, Tx.bind_returns] at h
      obtain ⟨_, mid, hone, hrest⟩ := h
      obtain ⟨db, hwalk, rfl⟩ := onInvalidations_returns hone
      exact .walk (enqueueWalk_returns hwalk) (ih hrest)
    | tenant scopeId =>
      simp only [enqueueAuthInvalidations, Tx.bind_returns] at h
      obtain ⟨_, mid, hone, hrest⟩ := h
      obtain ⟨hout, hwalks, hgrow, m, owner, hm, hsame, howner, hnew⟩ := enqueueTenant_returns hone
      have hr := ih hrest
      refine ⟨hout.trans hr.outbox, fun m' hm' => hr.cache m' (hsame m' hm' ▸ hm),
        fun k e c he => hr.walks k e c ((hwalks k).trans he), fun k e c he => ?_, fun hold k e hmem => ?_,
        fun key e he => ?_, fun id e hmem => ?_⟩
      · rcases hr.source k e c he with hk | ⟨hk, hc⟩
        · exact .inl ((hwalks k).symm.trans hk)
        · exact .inr ⟨List.mem_cons_of_mem _ hk, hc⟩
      · have hmem : (.walk k, e) ∈ changes := by
          rcases List.mem_cons.mp hmem with heq | hmem
          · cases heq
          · exact hmem
        exact hr.fresh (fun k' e' hk' e₀ c he₀ => hold k' e' (List.mem_cons_of_mem _ hk') e₀ c
          ((hwalks k').symm.trans he₀)) k e hmem
      · obtain ⟨e₁, he₁, hle₁⟩ := hgrow key e he
        obtain ⟨e₂, he₂, hle₂⟩ := hr.targets key e₁ he₁
        exact ⟨e₂, he₂, hle₁.trans hle₂⟩
      · rcases List.mem_cons.mp hmem with heq | hmem
        · obtain ⟨hid, rfl⟩ := Prod.mk.inj heq
          obtain rfl := EpochScope.tenant.inj hid
          refine ⟨m, owner, hr.cache m hm, howner, fun shardId hshard => ?_⟩
          obtain ⟨e₁, he₁, hle₁⟩ := hnew shardId hshard
          obtain ⟨e₂, he₂, hle₂⟩ := hr.targets _ e₁ he₁
          exact ⟨e₂, he₂, hle₁.trans hle₂⟩
        · obtain ⟨m', owner', hm', howner', hall⟩ := hr.tenants id e hmem
          rw [hout.activeTopology] at hall
          exact ⟨m', owner', hm', howner', hall⟩

/-- What a recorded mutation does. -/
theorem recordAuthEpochs_returns {vshardOf : String → Int} {scopes : List EpochScope} {nowMs : Int}
    {changes : List (EpochScope × Int)}
    (h : (recordAuthEpochs vshardOf scopes nowMs).Returns s changes s') :
    ∃ mid, Bumped s mid ∧ Enqueued vshardOf changes mid s' ∧
      ∀ c ∈ changes, s.authEpoch c.1.key < c.2 ∧ c.2 ≤ mid.authEpoch c.1.key := by
  have h := storageTransaction_returns h
  simp only [Tx.bind_returns, Tx.pure_returns] at h
  obtain ⟨_, mid, hbump, _, _, henq, rfl, rfl⟩ := h
  obtain ⟨hb, hall⟩ := bumpCatalogAuthEpochs_returns hbump
  exact ⟨mid, hb, enqueueAuthInvalidations_returns henq, hall⟩

/-! ## Turns -/

/-- A page was begun, or a walk with no shard left was completed, or nothing was due. -/
theorem beginPage_returns {global : Bool} {nowMs : Int} {turn : Option PageTurn}
    (h : (beginPage global nowMs).Returns s turn s') :
    (s' = s ∧ ∀ t, turn = some t → ∃ c, s.invalidations.progress? t.scope = some (t.epoch, c) ∧
        t.page = shardPage s c) ∨
      (turn = none ∧ ∃ scope e c db, s.invalidations.progress? scope = some (e, c) ∧
        shardPage s c = [] ∧ OnWalk scope (completed e) s.invalidations db ∧
        s' = s.withInvalidations db) := by
  simp only [beginPage, Tx.bind_returns] at h
  obtain ⟨due, mid, hfound, h⟩ := h
  obtain ⟨db, hdue, rfl⟩ := onInvalidations_returns hfound
  obtain ⟨hdb, hwalk⟩ := dueWalk_returns hdue
  have hself : s.withInvalidations db = s := by rw [hdb]; rfl
  rw [hself] at h
  cases due with
  | none =>
    obtain ⟨rfl, rfl⟩ := Tx.pure_returns.mp h
    exact .inl ⟨rfl, fun t ht => by cases ht⟩
  | some found =>
    obtain ⟨scope, walk⟩ := found
    have hprogress : s.invalidations.progress? scope = some walk.progress := by
      unfold InvalidationTables.progress?
      rw [hwalk scope walk rfl]
      rfl
    simp only [Tx.bind_returns, Tx.gets_returns] at h
    obtain ⟨_, _, ⟨rfl, rfl⟩, h⟩ := h
    rcases Tx.ite_returns.mp h with ⟨hnil, h⟩ | ⟨-, h⟩
    · simp only [Tx.bind_returns, Tx.pure_returns] at h
      obtain ⟨_, _, hcomplete, rfl, rfl⟩ := h
      obtain ⟨db', hdone, rfl⟩ := onInvalidations_returns (storageTransaction_returns hcomplete)
      exact .inr ⟨rfl, scope, walk.delivery.epoch, walk.cursorShardId, db', hprogress, hnil,
        completeWalk_returns hdone, rfl⟩
    · obtain ⟨rfl, rfl⟩ := Tx.pure_returns.mp h
      refine .inl ⟨rfl, fun t ht => ?_⟩
      obtain rfl := Option.some.inj ht
      exact ⟨walk.cursorShardId, hprogress, rfl⟩

end Chardb.AuthEpochs
