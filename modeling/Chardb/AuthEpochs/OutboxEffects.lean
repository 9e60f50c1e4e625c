import Chardb.AuthEpochs.Handoff

/-!
# What the outbox operations of a Catalog do

One lemma for each operation, on what matters of a row: the epoch that a target waits for, and the
epoch and the cursor of a walk.
-/

namespace Chardb.AuthEpochs

open Chardb.Lib Chardb.Live Chardb.Catalog

/-! ## Vocabulary -/

/-- The epoch that a target waits for. -/
def InvalidationTables.targetEpoch? (db : InvalidationTables) (key : TargetKey) : Option Int :=
  (db.targets.find? key).map fun r => r.delivery.epoch

/-- The epoch and the cursor of a walk. -/
abbrev Progress := Int × Option String

def Walk.progress (walk : Walk) : Progress := (walk.delivery.epoch, walk.cursorShardId)

def InvalidationTables.progress? (db : InvalidationTables) (scope : WalkScope) : Option Progress :=
  (db.walk? scope).map Walk.progress

/-- An operation on the walk of one scope. -/
structure OnWalk (scope : WalkScope) (f : Option Progress → Option Progress)
    (db db' : InvalidationTables) : Prop where
  targets : ∀ key, db'.targetEpoch? key = db.targetEpoch? key
  here : db'.progress? scope = f (db.progress? scope)
  other : ∀ s, s ≠ scope → db'.progress? s = db.progress? s

theorem OnWalk.of_global {f : Option Progress → Option Progress} {db : InvalidationTables}
    {global : GlobalTable}
    (h : (global.find? ()).map Walk.progress = f ((db.global.find? ()).map Walk.progress)) :
    OnWalk .global f db { db with global } where
  targets _ := rfl
  here := h
  other s hs := by
    cases s with
    | global => exact absurd rfl hs
    | principal scopeId => rfl

theorem OnWalk.of_principal {f : Option Progress → Option Progress} {db : InvalidationTables}
    {principals : PrincipalTable} {scopeId : String}
    (here : (principals.find? scopeId).map (·.walk.progress) =
      f ((db.principals.find? scopeId).map (·.walk.progress)))
    (other : ∀ id, id ≠ scopeId →
      (principals.find? id).map (·.walk.progress) = (db.principals.find? id).map (·.walk.progress)) :
    OnWalk (.principal scopeId) f db { db with principals } where
  targets _ := rfl
  here := by
    simpa only [InvalidationTables.progress?, InvalidationTables.walk?, Option.map_map,
      Function.comp_def] using here
  other s hs := by
    cases s with
    | global => rfl
    | principal id =>
      have := other id fun he => hs (he ▸ rfl)
      simpa only [InvalidationTables.progress?, InvalidationTables.walk?, Option.map_map,
        Function.comp_def] using this

variable {db db' : InvalidationTables} {scope : WalkScope} {epoch nowMs : Int} {u : Unit}

/-! ## Walks -/

/-- A new epoch takes over the walk, unless the one that is there is as new. -/
def started (epoch : Int) : Option Progress → Option Progress
  | none => some (epoch, none)
  | some (old, cursor) => some (max old epoch, if old < epoch then none else cursor)

theorem started_walk (old : Option Walk) :
    (some ((old.map (Walk.start epoch nowMs).coalesce).getD (.start epoch nowMs))).map Walk.progress =
      started epoch (old.map Walk.progress) := by
  cases old with
  | none => rfl
  | some walk => rfl

theorem enqueueWalk_returns (h : (enqueueWalk scope epoch nowMs).Returns db u db') :
    OnWalk scope (started epoch) db db' := by
  cases scope with
  | global =>
    simp only [enqueueWalk, enqueueGlobal, safeEpoch, safeTime, onGlobal, Tx.bind_returns,
      Tx.require_returns, Tx.zoom_returns, Table.upsert_returns, Tx.gets_returns] at h
    obtain ⟨_, _, ⟨-, rfl⟩, _, _, ⟨-, rfl⟩, _, _, ⟨global, hupsert, rfl⟩, _, _, ⟨-, rfl⟩, -, rfl⟩ := h
    refine .of_global ?_
    rw [Table.find?_upsert hupsert (fun _ => rfl), if_pos rfl]
    exact started_walk _
  | principal scopeId =>
    simp only [enqueueWalk, enqueuePrincipal, boundedScopeId, safeEpoch, safeTime, onPrincipals,
      Tx.bind_returns, Tx.require_returns, Tx.zoom_returns, Table.upsert_returns, Tx.gets_returns] at h
    obtain ⟨_, _, ⟨-, rfl⟩, _, _, ⟨-, rfl⟩, _, _, ⟨-, rfl⟩, _, _, ⟨-, rfl⟩, _, _, ⟨-, rfl⟩, _, _,
      ⟨-, rfl⟩, _, _, ⟨principals, hupsert, rfl⟩, _, _, ⟨-, rfl⟩, -, rfl⟩ := h
    have hfind := Table.find?_upsert hupsert fun _ => rfl
    refine .of_principal ?_ fun id hid => ?_
    · rw [hfind, if_pos rfl]
      cases db.principals.find? scopeId with
      | none => rfl
      | some r => rfl
    · rw [hfind, if_neg fun he => hid he.symm]

/-- The row with this epoch goes. -/
def completed (epoch : Int) : Option Progress → Option Progress :=
  Option.filter fun p => !decide (p.1 = epoch)

theorem completeWalk_returns (h : (completeWalk scope epoch).Returns db u db') :
    OnWalk scope (completed epoch) db db' := by
  cases scope with
  | global =>
    simp only [completeWalk, completeGlobal, safeEpoch, onGlobal, Tx.bind_returns, Tx.require_returns,
      Tx.zoom_returns, Table.delete_returns, Tx.pure_returns] at h
    obtain ⟨_, _, ⟨-, rfl⟩, _, _, ⟨_, ⟨rfl, -⟩, rfl⟩, -, rfl⟩ := h
    refine .of_global ?_
    rw [Table.find?_deleteWhere]
    cases db.global.find? () with
    | none => rfl
    | some walk =>
      by_cases he : walk.delivery.epoch = epoch <;> simp [completed, Option.filter, Walk.progress, he]
  | principal scopeId =>
    simp only [completeWalk, completePrincipal, boundedScopeId, safeEpoch, onPrincipals,
      Tx.bind_returns, Tx.require_returns, Tx.zoom_returns, Table.delete_returns, Tx.pure_returns] at h
    obtain ⟨_, _, ⟨-, rfl⟩, _, _, ⟨-, rfl⟩, _, _, ⟨_, ⟨rfl, -⟩, rfl⟩, -, rfl⟩ := h
    refine .of_principal ?_ fun id hid => ?_
    · rw [Table.find?_deleteWhere]
      cases hfind : db.principals.find? scopeId with
      | none => rfl
      | some r =>
        have hkey : r.scopeId = scopeId := (Table.find?_eq_some.mp hfind).2
        by_cases he : r.walk.delivery.epoch = epoch <;>
          simp [completed, Option.filter, Walk.progress, hkey, he]
    · rw [Table.find?_deleteWhere]
      cases hfind : db.principals.find? id with
      | none => rfl
      | some r =>
        have hkey : r.scopeId = id := (Table.find?_eq_some.mp hfind).2
        simp [Option.filter, hkey, hid]

/-- An update of the row of one epoch. -/
def updated (epoch : Int) (f : Progress → Progress) : Option Progress → Option Progress :=
  Option.map fun p => if p.1 = epoch then f p else p

theorem OnWalk.of_update_global {global : GlobalTable} {g : Walk → Walk} {f : Progress → Progress}
    (h : db.global.update? (fun r => decide (r.delivery.epoch = epoch)) g = some global)
    (hg : ∀ walk, (g walk).progress = f walk.progress) :
    OnWalk .global (updated epoch f) db { db with global } := by
  refine .of_global ?_
  rw [Table.find?_update h fun _ _ _ => rfl]
  cases db.global.find? () with
  | none => rfl
  | some walk =>
    refine congrArg some ?_
    show (if decide (walk.delivery.epoch = epoch) = true then g walk else walk).progress =
      if walk.delivery.epoch = epoch then f walk.progress else walk.progress
    by_cases he : walk.delivery.epoch = epoch
    · rw [if_pos (decide_eq_true he), if_pos he, hg]
    · rw [if_neg (by simpa using he), if_neg he]

theorem OnWalk.of_update_principal {principals : PrincipalTable} {scopeId : String} {g : Walk → Walk}
    {f : Progress → Progress}
    (h : db.principals.update? (fun r => decide (r.scopeId = scopeId ∧ r.walk.delivery.epoch = epoch))
      (fun r => { r with walk := g r.walk }) = some principals)
    (hg : ∀ walk, (g walk).progress = f walk.progress) :
    OnWalk (.principal scopeId) (updated epoch f) db { db with principals } := by
  have hfind := Table.find?_update h fun _ _ _ => rfl
  refine .of_principal ?_ fun id hid => ?_
  · rw [hfind]
    cases hold : db.principals.find? scopeId with
    | none => rfl
    | some r =>
      have hkey : r.scopeId = scopeId := (Table.find?_eq_some.mp hold).2
      by_cases he : r.walk.delivery.epoch = epoch
      · have hp : r.walk.progress.1 = epoch := he
        simp [updated, hkey, he, hp, hg]
      · have hp : ¬ r.walk.progress.1 = epoch := he
        simp [updated, he, hp]
  · rw [hfind]
    cases hold : db.principals.find? id with
    | none => rfl
    | some r =>
      have hkey : r.scopeId = id := (Table.find?_eq_some.mp hold).2
      simp [hkey, hid]

theorem advanceWalk_returns {last : String} (h : (advanceWalk scope epoch last nowMs).Returns db u db') :
    isMigrationId last = true ∧ OnWalk scope (updated epoch fun p => (p.1, some last)) db db' := by
  cases scope with
  | global =>
    simp only [advanceWalk, advanceGlobal, safeEpoch, boundedShardId, safeTime, onGlobal,
      Tx.bind_returns, Tx.require_returns, Tx.zoom_returns, Table.update_returns, Tx.pure_returns] at h
    obtain ⟨_, _, ⟨-, rfl⟩, _, _, ⟨hlast, rfl⟩, _, _, ⟨-, rfl⟩, _, _, ⟨global, ⟨hup, -⟩, rfl⟩, -, rfl⟩ := h
    exact ⟨hlast, .of_update_global hup fun _ => rfl⟩
  | principal scopeId =>
    simp only [advanceWalk, advancePrincipal, boundedScopeId, safeEpoch, boundedShardId, safeTime,
      onPrincipals, Tx.bind_returns, Tx.require_returns, Tx.zoom_returns, Table.update_returns,
      Tx.pure_returns] at h
    obtain ⟨_, _, ⟨-, rfl⟩, _, _, ⟨-, rfl⟩, _, _, ⟨hlast, rfl⟩, _, _, ⟨-, rfl⟩, _, _,
      ⟨principals, ⟨hup, -⟩, rfl⟩, -, rfl⟩ := h
    exact ⟨hlast, .of_update_principal hup fun _ => rfl⟩

theorem OnWalk.refl (scope : WalkScope) (db : InvalidationTables) :
    OnWalk scope (updated epoch id) db db :=
  ⟨fun _ => rfl, by simp [updated], fun _ _ => rfl⟩

theorem deferWalk_returns {errorMessage : String}
    (h : (deferWalk scope epoch nowMs errorMessage).Returns db u db') :
    OnWalk scope (updated epoch id) db db' := by
  cases scope with
  | global =>
    simp only [deferWalk, deferGlobal, safeEpoch, safeTime, Tx.bind_returns, Tx.require_returns,
      Tx.gets_returns] at h
    obtain ⟨_, _, ⟨-, rfl⟩, _, _, ⟨-, rfl⟩, current, _, ⟨-, rfl⟩, h⟩ := h
    cases current with
    | none =>
      obtain ⟨-, rfl⟩ := Tx.pure_returns.mp h
      exact .refl _ _
    | some current =>
      simp only [onGlobal, Tx.bind_returns, Tx.zoom_returns, Table.update_returns, Tx.pure_returns] at h
      obtain ⟨_, _, ⟨global, ⟨hup, -⟩, rfl⟩, -, rfl⟩ := h
      exact .of_update_global hup fun _ => rfl
  | principal scopeId =>
    simp only [deferWalk, deferPrincipal, boundedScopeId, safeEpoch, safeTime, Tx.bind_returns,
      Tx.require_returns, Tx.gets_returns] at h
    obtain ⟨_, _, ⟨-, rfl⟩, _, _, ⟨-, rfl⟩, _, _, ⟨-, rfl⟩, current, _, ⟨-, rfl⟩, h⟩ := h
    cases current with
    | none =>
      obtain ⟨-, rfl⟩ := Tx.pure_returns.mp h
      exact .refl _ _
    | some current =>
      simp only [onPrincipals, Tx.bind_returns, Tx.zoom_returns, Table.update_returns,
        Tx.pure_returns] at h
      obtain ⟨_, _, ⟨principals, ⟨hup, -⟩, rfl⟩, -, rfl⟩ := h
      exact .of_update_principal hup fun _ => rfl

/-- The due walk is one of the walks. -/
theorem dueWalk_returns {global : Bool} {due : Option (WalkScope × Walk)}
    (h : (dueWalk global nowMs).Returns db due db') :
    db' = db ∧ ∀ scope walk, due = some (scope, walk) → db.walk? scope = some walk := by
  cases global with
  | true =>
    obtain ⟨found, hfound, rfl⟩ := Tx.map_returns.mp h
    simp only [dueGlobal, safeTime, Tx.bind_returns, Tx.require_returns, Tx.gets_returns] at hfound
    obtain ⟨_, _, ⟨-, rfl⟩, rfl, rfl⟩ := hfound
    refine ⟨rfl, fun scope walk hdue => ?_⟩
    obtain ⟨walk', hwalk, he⟩ := Option.map_eq_some_iff.mp hdue
    obtain ⟨rfl, rfl⟩ := Prod.mk.inj he
    exact (Option.filter_eq_some_iff.mp hwalk).1
  | false =>
    obtain ⟨found, hfound, rfl⟩ := Tx.map_returns.mp h
    simp only [duePrincipal, safeTime, Tx.bind_returns, Tx.require_returns, Tx.gets_returns] at hfound
    obtain ⟨_, _, ⟨-, rfl⟩, rfl, rfl⟩ := hfound
    refine ⟨rfl, fun scope walk hdue => ?_⟩
    obtain ⟨r, hr, he⟩ := Option.map_eq_some_iff.mp hdue
    obtain ⟨rfl, rfl⟩ := Prod.mk.inj he
    have hmem := (Table.mem_orderBy.mp (List.mem_of_mem_head? hr)).1
    show (db.principals.find? r.scopeId).map _ = _
    rw [show db.principals.find? r.scopeId = some r from Table.find?_key hmem]
    rfl

/-! ## Targets -/

theorem upsertTargets_returns {key : ScopeKey} {shardIds : List String}
    (h : (upsertTargets key epoch nowMs shardIds).Returns db u db') :
    (∀ scope, db'.progress? scope = db.progress? scope) ∧
      (∀ k e, db.targetEpoch? k = some e → ∃ e', db'.targetEpoch? k = some e' ∧ e ≤ e') ∧
      ∀ shardId ∈ shardIds, ∃ e, db'.targetEpoch? (key, shardId) = some e ∧ epoch ≤ e := by
  induction shardIds generalizing db with
  | nil =>
    obtain ⟨-, rfl⟩ := Tx.pure_returns.mp h
    exact ⟨fun _ => rfl, fun k e he => ⟨e, he, le_rfl⟩, fun _ hmem => by cases hmem⟩
  | cons shardId shardIds ih =>
    simp only [upsertTargets, onTargets, Tx.bind_returns, Tx.zoom_returns, Table.upsert_returns] at h
    obtain ⟨_, _, ⟨targets, hupsert, rfl⟩, h⟩ := h
    obtain ⟨hwalks, hgrow, hnew⟩ := ih h
    have hfind := Table.find?_upsert hupsert fun _ => rfl
    have hone : ∀ k, InvalidationTables.targetEpoch? { db with targets } k =
        if k = (key, shardId) then some (((db.targetEpoch? k).map (max · epoch)).getD epoch)
        else db.targetEpoch? k := by
      intro k
      unfold InvalidationTables.targetEpoch?
      rw [hfind]
      show (if (key, shardId) = k then _ else _ : Option TargetRow).map _ = _
      by_cases hk : k = (key, shardId)
      · rw [if_pos hk, if_pos hk.symm]
        cases db.targets.find? k with
        | none => rfl
        | some r => rfl
      · rw [if_neg hk, if_neg fun he => hk he.symm]
    refine ⟨hwalks, fun k e he => ?_, fun id hid => ?_⟩
    · by_cases hk : k = (key, shardId)
      · obtain ⟨e', he', hle⟩ := hgrow k (max e epoch) (by rw [hone, if_pos hk, he]; rfl)
        exact ⟨e', he', (le_max_left _ _).trans hle⟩
      · exact hgrow k e (by rw [hone, if_neg hk, he])
    · rcases List.mem_cons.mp hid with rfl | hid
      · have hthere : ∃ e, InvalidationTables.targetEpoch? { db with targets } (key, id) = some e ∧
            epoch ≤ e := by
          rw [hone, if_pos rfl]
          cases db.targetEpoch? (key, id) with
          | none => exact ⟨epoch, rfl, le_rfl⟩
          | some old => exact ⟨_, rfl, le_max_right _ _⟩
        obtain ⟨e, he, hle⟩ := hthere
        obtain ⟨e', he', hle'⟩ := hgrow _ e he
        exact ⟨e', he', hle.trans hle'⟩
      · exact hnew id hid

theorem checkShardIds_readOnly (shardIds : List String) : (checkShardIds shardIds).ReadOnly := by
  induction shardIds with
  | nil => exact Tx.readOnly_pure _
  | cons shardId shardIds ih => exact (Tx.readOnly_require _ _).bind fun _ => ih

theorem enqueueTargets_returns {authScope : AuthScope} {scopeId : String} {shardIds : List String}
    (h : (enqueueTargets authScope scopeId epoch shardIds nowMs).Returns db u db') :
    (∀ scope, db'.progress? scope = db.progress? scope) ∧
      (∀ k e, db.targetEpoch? k = some e → ∃ e', db'.targetEpoch? k = some e' ∧ e ≤ e') ∧
      ∀ shardId ∈ shardIds, ∃ e, db'.targetEpoch? ((authScope, scopeId), shardId) = some e ∧
        epoch ≤ e := by
  simp only [enqueueTargets, boundedScopeId, safeEpoch, safeTime, Tx.bind_returns, Tx.require_returns,
    Tx.gets_returns] at h
  obtain ⟨_, _, ⟨-, rfl⟩, _, _, ⟨-, rfl⟩, _, _, ⟨-, rfl⟩, _, _, ⟨-, rfl⟩, _, _, hcheck, _, _,
    ⟨-, rfl⟩, _, _, ⟨-, rfl⟩, _, _, ⟨-, rfl⟩, _, _, ⟨-, rfl⟩, _, _, ⟨-, rfl⟩, h⟩ := h
  obtain rfl := (checkShardIds_readOnly shardIds).returns hcheck
  obtain ⟨hwalks, hgrow, hnew⟩ := upsertTargets_returns h
  exact ⟨hwalks, hgrow, fun shardId hid =>
    hnew shardId (mem_sortStrings.mpr (List.mem_dedup.mpr hid))⟩

theorem dueTargets_returns {batch : List TargetRow} (h : (dueTargets nowMs).Returns db batch db') :
    db' = db := by
  simp only [dueTargets, safeTime, Tx.bind_returns, Tx.require_returns, Tx.gets_returns] at h
  obtain ⟨_, _, ⟨-, rfl⟩, -, rfl⟩ := h
  rfl

theorem completeTarget_returns {r : TargetRow} (h : (completeTarget r).Returns db u db') :
    (∀ scope, db'.progress? scope = db.progress? scope) ∧
      ∀ k e, db.targetEpoch? k = some e →
        db'.targetEpoch? k = some e ∨ (k = r.key ∧ e = r.delivery.epoch) := by
  simp only [completeTarget, onTargets, Tx.bind_returns, Tx.zoom_returns, Table.delete_returns,
    Tx.pure_returns] at h
  obtain ⟨_, _, ⟨_, ⟨rfl, -⟩, rfl⟩, -, rfl⟩ := h
  refine ⟨fun _ => rfl, fun k e he => ?_⟩
  obtain ⟨row, hrow, rfl⟩ := Option.map_eq_some_iff.mp he
  by_cases hgone : row.key = r.key ∧ row.delivery.epoch = r.delivery.epoch
  · exact .inr ⟨(Table.find?_eq_some.mp hrow).2.symm.trans hgone.1, hgone.2⟩
  · refine .inl ?_
    show ((db.targets.deleteWhere _).find? k).map _ = _
    rw [Table.find?_deleteWhere, hrow, Option.filter_some_pos (by
      rw [Bool.not_eq_true', decide_eq_false_iff_not]; exact hgone)]
    rfl

theorem deferTarget_returns {r : TargetRow} {errorMessage : String}
    (h : (deferTarget r nowMs errorMessage).Returns db u db') :
    (∀ scope, db'.progress? scope = db.progress? scope) ∧
      ∀ k, db'.targetEpoch? k = db.targetEpoch? k := by
  simp only [deferTarget, safeTime, Tx.bind_returns, Tx.require_returns, Tx.gets_returns] at h
  obtain ⟨_, _, ⟨-, rfl⟩, current, _, ⟨-, rfl⟩, h⟩ := h
  cases current with
  | none =>
    obtain ⟨-, rfl⟩ := Tx.pure_returns.mp h
    exact ⟨fun _ => rfl, fun _ => rfl⟩
  | some current =>
    simp only [onTargets, Tx.bind_returns, Tx.zoom_returns, Table.update_returns, Tx.pure_returns] at h
    obtain ⟨_, _, ⟨targets, ⟨hup, -⟩, rfl⟩, -, rfl⟩ := h
    refine ⟨fun _ => rfl, fun k => ?_⟩
    show (targets.find? k).map _ = _
    rw [Table.find?_update hup fun _ _ _ => rfl, Option.map_map]
    unfold InvalidationTables.targetEpoch?
    congr 1
    funext row
    show (if _ then _ else row).delivery.epoch = row.delivery.epoch
    split <;> rfl

end Chardb.AuthEpochs
