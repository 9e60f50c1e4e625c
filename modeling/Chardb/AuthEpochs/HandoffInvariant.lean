import Chardb.AuthEpochs.CatalogSteps

/-!
# No auth epoch is lost

In every reachable state each shard that has to learn of an epoch was told of it, or a row of the outbox
will still lead to it: a target that waits for the epoch, or a walk whose cursor comes before the shard.
A stale delivery may move a cursor back, never past a shard that was not told.
-/

namespace Chardb.AuthEpochs

open Chardb.Lib Chardb.Live Chardb.Catalog

/-! ## What is still to come -/

/-- A row of the outbox leads to the shard. -/
inductive AuthCatalog.Leads (s : AuthCatalog) (n : Notice) : Prop
  | walk (scope : WalkScope) (epoch : Int) (cursor : Option String) :
      n.key = scope.key → s.invalidations.progress? scope = some (epoch, cursor) → n.epoch ≤ epoch →
      BeforeShard cursor n.shardId → s.Leads n
  | target (epoch : Int) :
      n.key.1 = .tenant → s.invalidations.targetEpoch? (n.key, n.shardId) = some epoch →
      n.epoch ≤ epoch → s.Leads n

/-- The shard is on the page, or comes after all of it. -/
def PageTurn.Reaches (turn : PageTurn) (shardId : String) : Prop :=
  shardId ∈ turn.page ∨ ∃ last, turn.page.getLast? = some last ∧ last < shardId

/-- What holds of the outbox and the shard ids of a Catalog. -/
structure AuthCatalog.Sound (s : AuthCatalog) : Prop where
  ids : ∀ shardId, s.Inventory shardId → isMigrationId shardId = true
  cursors : ∀ scope epoch cursor, s.invalidations.progress? scope = some (epoch, some cursor) →
    isMigrationId cursor = true
  walks : ∀ scope epoch cursor, s.invalidations.progress? scope = some (epoch, cursor) →
    epoch ≤ s.authEpoch scope.key

/-- The invariant of the handoff. -/
structure Handed (w : HandoffWorld) : Prop where
  sound : w.catalog.Sound
  turnEpochs : ∀ turn ∈ w.turns, turn.epoch ≤ w.catalog.authEpoch turn.scope.key
  inventory : ∀ n ∈ w.owed, n.key.1 ≠ .tenant → w.catalog.Inventory n.shardId
  leads : ∀ n ∈ w.owed, w.Told n ∨ w.catalog.Leads n
  turns : ∀ turn ∈ w.turns, ∀ n ∈ w.owed, n.key = turn.scope.key → n.epoch ≤ turn.epoch →
    w.Told n ∨ turn.Reaches n.shardId
  shards : ∀ shardId, (w.shards shardId).Covered

variable {w : HandoffWorld} {s s' : AuthCatalog} {n : Notice}

theorem WalkScope.key_injective {a b : WalkScope} (h : a.key = b.key) : a = b := by
  cases a with
  | global =>
    cases b with
    | global => rfl
    | principal id => cases h
  | principal id =>
    cases b with
    | global => cases h
    | principal id' => exact congrArg _ (Prod.mk.inj h).2

theorem WalkScope.key_ne_tenant (scope : WalkScope) : scope.key.1 ≠ .tenant := by
  cases scope <;> exact fun h => by cases h

/-! ## Steps of the outbox -/

/-- A step of the outbox that only drops what was told. -/
theorem Handed.outbox (hw : Handed w) (hstep : OutboxStep w.catalog s)
    (hprogress : ∀ scope epoch cursor, s.invalidations.progress? scope = some (epoch, cursor) →
      (∃ c, w.catalog.invalidations.progress? scope = some (epoch, c)) ∧
        ∀ c ∈ cursor, isMigrationId c = true)
    (hleads : ∀ n ∈ w.owed, w.catalog.Leads n → w.Told n ∨ s.Leads n) :
    Handed { w with catalog := s } where
  sound :=
    { ids := fun id hid => hw.sound.ids id ((hstep.inventory id).mp hid)
      cursors := fun scope e c he => (hprogress scope e (some c) he).2 c rfl
      walks := fun scope e c he => by
        obtain ⟨c', hold⟩ := (hprogress scope e c he).1
        rw [hstep.authEpoch]
        exact hw.sound.walks scope e c' hold }
  turnEpochs turn ht := by
    show _ ≤ s.authEpoch _
    rw [hstep.authEpoch]
    exact hw.turnEpochs turn ht
  inventory n hn hkey := (hstep.inventory _).mpr (hw.inventory n hn hkey)
  leads n hn := (hw.leads n hn).elim .inl (hleads n hn)
  turns := hw.turns
  shards := hw.shards

/-- An operation on the rows of one target leaves the walks alone. -/
theorem Handed.onTarget (hw : Handed w) {db : InvalidationTables}
    (hwalks : ∀ scope, db.progress? scope = w.catalog.invalidations.progress? scope)
    (htargets : ∀ n ∈ w.owed, ∀ e, w.catalog.invalidations.targetEpoch? (n.key, n.shardId) = some e →
      n.epoch ≤ e → w.Told n ∨ db.targetEpoch? (n.key, n.shardId) = some e) :
    Handed { w with catalog := w.catalog.withInvalidations db } := by
  refine hw.outbox (.of_with db) (fun scope e c he => ?_) fun n hn hleads => ?_
  · have hold := (hwalks scope).symm.trans he
    refine ⟨⟨c, hold⟩, ?_⟩
    rintro c rfl
    exact hw.sound.cursors scope e c hold
  · cases hleads with
    | walk scope e c hkey hp hle hbefore =>
      exact .inr (.walk scope e c hkey ((hwalks scope).trans hp) hle hbefore)
    | target e hkey ht hle => exact (htargets n hn e ht hle).imp_right fun h => .target e hkey h hle

/-- An operation on the walk of one scope leaves the targets and the other walks alone. -/
theorem Handed.onWalk (hw : Handed w) {db : InvalidationTables} {scope : WalkScope}
    {f : Option Progress → Option Progress} (hwalk : OnWalk scope f w.catalog.invalidations db)
    (hprogress : ∀ epoch cursor, f (w.catalog.invalidations.progress? scope) = some (epoch, cursor) →
      (∃ c, w.catalog.invalidations.progress? scope = some (epoch, c)) ∧
        ∀ c ∈ cursor, isMigrationId c = true)
    (hleads : ∀ n ∈ w.owed, n.key = scope.key → ∀ e c,
      w.catalog.invalidations.progress? scope = some (e, c) → n.epoch ≤ e → BeforeShard c n.shardId →
        w.Told n ∨ ∃ c', f (some (e, c)) = some (e, c') ∧ BeforeShard c' n.shardId) :
    Handed { w with catalog := w.catalog.withInvalidations db } := by
  refine hw.outbox (.of_with db) (fun scope' e c he => ?_) fun n hn hl => ?_
  · by_cases hs : scope' = scope
    · subst hs
      exact hprogress e c (hwalk.here.symm.trans he)
    · have hold := (hwalk.other scope' hs).symm.trans he
      refine ⟨⟨c, hold⟩, ?_⟩
      rintro c rfl
      exact hw.sound.cursors scope' e c hold
  · cases hl with
    | walk scope' e c hkey hp hle hbefore =>
      by_cases hs : scope' = scope
      · subst hs
        rcases hleads n hn hkey e c hp hle hbefore with htold | ⟨c', hc', hbefore'⟩
        · exact .inl htold
        · exact .inr (.walk scope' e c' hkey (hwalk.here.trans (by rw [hp]; exact hc')) hle hbefore')
      · exact .inr (.walk scope' e c hkey ((hwalk.other scope' hs).trans hp) hle hbefore)
    | target e hkey ht hle => exact .inr (.target e hkey ((hwalk.targets _).trans ht) hle)

/-! ## Walks -/

/-- A turn that is begun reaches every shard that its walk leads to. -/
theorem Handed.reaches (hw : Handed w) {scope : WalkScope} {epoch : Int} {cursor : Option String}
    (hp : w.catalog.invalidations.progress? scope = some (epoch, cursor)) (hn : n ∈ w.owed)
    (hkey : n.key = scope.key) :
    w.Told n ∨ n.shardId ∈ shardPage w.catalog cursor ∨
      ∃ last, (shardPage w.catalog cursor).getLast? = some last ∧ last < n.shardId := by
  have hin : w.catalog.Inventory n.shardId :=
    hw.inventory n hn (by rw [hkey]; exact scope.key_ne_tenant)
  rcases hw.leads n hn with htold | hl
  · exact .inl htold
  · cases hl with
    | walk scope' e c hkey' hp' _ hbefore =>
      obtain rfl := WalkScope.key_injective (hkey'.symm.trans hkey)
      obtain ⟨-, rfl⟩ := Prod.mk.inj (Option.some.inj (hp'.symm.trans hp))
      exact .inr (shardPage_covers hw.sound.ids
        (fun c hc => hw.sound.cursors scope' e c (by rw [hp']; rw [hc])) hin hbefore)
    | target _ htenant _ _ => exact absurd htenant (by rw [hkey]; exact scope.key_ne_tenant)

/-- Completing a walk without a shard left drops nothing. -/
theorem Handed.complete (hw : Handed w) {scope : WalkScope} {epoch : Int} {cursor : Option String}
    {db : InvalidationTables}
    (hp : w.catalog.invalidations.progress? scope = some (epoch, cursor))
    (hpage : shardPage w.catalog cursor = [])
    (hwalk : OnWalk scope (completed epoch) w.catalog.invalidations db) :
    Handed { w with catalog := w.catalog.withInvalidations db } := by
  refine hw.onWalk hwalk (fun e c he => ?_) fun n hn hkey e c _ _ _ => .inl ?_
  · rw [hp] at he
    simp [completed, Option.filter] at he
  · rcases hw.reaches hp hn hkey with htold | hmem | ⟨last, hlast, -⟩
    · exact htold
    · rw [hpage] at hmem
      cases hmem
    · rw [hpage] at hlast
      cases hlast

/-- A turn that the shards answered for moves the cursor of its walk. -/
theorem Handed.advance (hw : Handed w) {turn : PageTurn} {last : String} {db : InvalidationTables}
    (hturn : turn ∈ w.turns) (htold : turn.notices ⊆ w.accepted)
    (hlast : turn.page.getLast? = some last) (hid : isMigrationId last = true)
    (hwalk : OnWalk turn.scope (updated turn.epoch fun p => (p.1, some last))
      w.catalog.invalidations db) :
    Handed { w with catalog := w.catalog.withInvalidations db } := by
  refine hw.onWalk hwalk (fun e c he => ?_) fun n hn hkey e c hp hle hbefore => ?_
  · obtain ⟨⟨e₀, c₀⟩, hp, he⟩ := Option.map_eq_some_iff.mp he
    split at he
    · obtain ⟨rfl, rfl⟩ := Prod.mk.inj he
      exact ⟨⟨c₀, hp⟩, fun c hc => (Option.some.inj hc) ▸ hid⟩
    · obtain ⟨rfl, rfl⟩ := Prod.mk.inj he
      refine ⟨⟨_, hp⟩, ?_⟩
      rintro c rfl
      exact hw.sound.cursors _ _ c hp
  · by_cases hcur : e = turn.epoch
    · subst hcur
      rcases hw.turns turn hturn n hn hkey hle with h | hmem | ⟨last', hlast', hlt⟩
      · exact .inl h
      · exact .inl ⟨⟨n.shardId, turn.scope.key, turn.epoch⟩, htold ⟨hmem, rfl, rfl⟩, rfl, hkey.symm, hle⟩
      · obtain rfl := Option.some.inj (hlast.symm.trans hlast')
        exact .inr ⟨some last, by simp [updated], fun c hc => (Option.some.inj hc) ▸ hlt⟩
    · exact .inr ⟨c, by simp [updated, hcur], hbefore⟩

/-- A turn that failed changes no walk. -/
theorem Handed.defer (hw : Handed w) {turn : PageTurn} {db : InvalidationTables}
    (hwalk : OnWalk turn.scope (updated turn.epoch id) w.catalog.invalidations db) :
    Handed { w with catalog := w.catalog.withInvalidations db } := by
  have hid : ∀ p : Option Progress, updated turn.epoch id p = p := fun p => by
    cases p <;> simp [updated]
  refine hw.onWalk hwalk (fun e c he => ?_) fun n _ _ e c _ _ hbefore => .inr ⟨c, hid _, hbefore⟩
  rw [hid] at he
  refine ⟨⟨c, he⟩, ?_⟩
  rintro c rfl
  exact hw.sound.cursors _ _ c he

/-! ## Recording -/

theorem Handed.record {vshardOf : String → Int} {scopes : List EpochScope} {nowMs : Int}
    {changes : List (EpochScope × Int)} (hw : Handed w)
    (h : (recordAuthEpochs vshardOf scopes nowMs).Returns w.catalog changes s) :
    Handed { w with
      catalog := s
      owed := {n | n ∈ w.owed ∨ ∃ c ∈ changes, n.key = c.1.key ∧ n.epoch = c.2 ∧
        s.MustLearn vshardOf c.1 n.shardId} } := by
  obtain ⟨mid, hb, henq, hnew⟩ := recordAuthEpochs_returns h
  have hinventory : ∀ id, s.Inventory id ↔ w.catalog.Inventory id := fun id =>
    (henq.outbox.inventory id).trans (hb.inventory id)
  have hgrows : ∀ key, w.catalog.authEpoch key ≤ s.authEpoch key := fun key => by
    rw [henq.outbox.authEpoch]
    exact hb.grows key
  -- a new epoch is newer than any walk
  have hfresh : ∀ scope e, (.walk scope, e) ∈ changes → ∀ e₀ c,
      mid.invalidations.progress? scope = some (e₀, c) → e ≤ e₀ → c = none := by
    intro scope e hmem e₀ c hp hle
    rw [hb.invalidations] at hp
    have hold := hw.sound.walks scope e₀ c hp
    have hlt : w.catalog.authEpoch scope.key < e := (hnew _ hmem).1
    omega
  exact
    { sound :=
        { ids := fun id hid => hw.sound.ids id ((hinventory id).mp hid)
          cursors := fun scope e c he => by
            rcases henq.source scope e _ he with hp | ⟨-, hc⟩
            · rw [hb.invalidations] at hp
              exact hw.sound.cursors scope e c hp
            · cases hc
          walks := fun scope e c he => by
            rcases henq.source scope e c he with hp | ⟨hmem, -⟩
            · rw [hb.invalidations] at hp
              exact (hw.sound.walks scope e c hp).trans (hgrows _)
            · rw [henq.outbox.authEpoch]
              exact (hnew _ hmem).2 }
      turnEpochs := fun turn ht => (hw.turnEpochs turn ht).trans (hgrows _)
      inventory := by
        rintro n (hn | ⟨⟨scope, e⟩, hmem, hkey, -, hlearn⟩) htenant
        · exact (hinventory _).mpr (hw.inventory n hn htenant)
        · cases scope with
          | walk scope => exact hlearn
          | tenant id => exact absurd (by rw [hkey]; rfl) htenant
      leads := by
        rintro n (hn | ⟨⟨scope, e⟩, hmem, hkey, hepoch, hlearn⟩)
        · refine (hw.leads n hn).imp_right fun hl => ?_
          cases hl with
          | walk scope e c hkey hp hle hbefore =>
            rw [← hb.invalidations] at hp
            obtain ⟨e', c', hp', hle', hc⟩ := henq.walks scope e c hp
            refine .walk scope e' c' hkey hp' (hle.trans hle') ?_
            rcases hc with rfl | rfl
            · exact hbefore
            · exact fun _ hc => by cases hc
          | target e htenant ht hle =>
            rw [← hb.invalidations] at ht
            obtain ⟨e', ht', hle'⟩ := henq.targets _ e ht
            exact .target e' htenant ht' (hle.trans hle')
        · refine .inr ?_
          cases scope with
          | walk scope =>
            obtain ⟨e', hp, hle⟩ := henq.fresh hfresh scope e hmem
            exact .walk scope e' none hkey hp (by rw [hepoch]; exact hle) fun _ hc => by cases hc
          | tenant id =>
            obtain ⟨m, owner, hm, howner, hall⟩ := henq.tenants id e hmem
            obtain ⟨owner', _, hroute, hin⟩ := hlearn
            obtain ⟨-, m', -, howner', hsame⟩ := route_returns hroute
            obtain rfl := hsame m hm
            obtain rfl := Except.ok.inj (howner.symm.trans howner')
            rw [henq.outbox.activeTopology] at hin
            obtain ⟨e', ht, hle⟩ := hall n.shardId hin
            exact .target e' (by rw [hkey]; rfl) (by rw [hkey]; exact ht) (by rw [hepoch]; exact hle)
      turns := by
        rintro turn ht n (hn | ⟨c, hmem, hkey, hepoch, -⟩) hscope hle
        · exact hw.turns turn ht n hn hscope hle
        · have hlt := (hnew c hmem).1
          have hold := hw.turnEpochs turn ht
          rw [hkey] at hscope
          rw [hscope] at hlt
          omega
      shards := hw.shards }

/-! ## Runs -/

section
variable {vshardOf : String → Int} {ν : Type} [JsNumber ν] {sha256Hex : String → String}

theorem HandoffWorld.Told.mono {w' : HandoffWorld} (h : w.accepted ⊆ w'.accepted) (ht : w.Told n) :
    w'.Told n := by
  obtain ⟨n', hn', hrest⟩ := ht
  exact ⟨n', h hn', hrest⟩

/-- A shard that takes a step keeps what it has to wake. -/
theorem Handed.shard (hw : Handed w) (shardId : String) (call : AuthCall ν) (id : String) :
    (Function.update w.shards shardId ((w.shards shardId).step sha256Hex call) id).Covered := by
  rw [Function.update_apply]
  split
  · exact (hw.shards shardId).step call
  · exact hw.shards id

theorem Handed.step {w' : HandoffWorld} (hw : Handed w)
    (h : HandoffStep vshardOf (ν := ν) sha256Hex w w') : Handed w' := by
  cases h with
  | record scopes nowMs h => exact hw.record h
  | reroute s hinv hgrows hids =>
    exact
      { sound :=
          { ids := hids
            cursors := fun scope e c he => hw.sound.cursors scope e c (by rw [← hinv]; exact he)
            walks := fun scope e c he =>
              (hw.sound.walks scope e c (by rw [← hinv]; exact he)).trans (hgrows _) }
        turnEpochs := fun turn ht => (hw.turnEpochs turn ht).trans (hgrows _)
        inventory := fun n hn hkey => hn.2.resolve_left hkey
        leads := fun n hn => (hw.leads n hn.1).imp_right fun hl => by
          cases hl with
          | walk scope e c hkey hp hle hbefore =>
            exact .walk scope e c hkey (by rw [hinv]; exact hp) hle hbefore
          | target e htenant ht hle => exact .target e htenant (by rw [hinv]; exact ht) hle
        turns := fun turn ht n hn => hw.turns turn ht n hn.1
        shards := hw.shards }
  | beginTargets nowMs h =>
    obtain ⟨db, hdue, rfl⟩ := onInvalidations_returns h
    have hdb := dueTargets_returns hdue
    subst hdb
    exact ⟨hw.sound, hw.turnEpochs, hw.inventory, hw.leads, hw.turns, hw.shards⟩
  | beginPage global nowMs h =>
    rcases beginPage_returns h with ⟨rfl, hturn⟩ | ⟨rfl, scope, e, c, db, hp, hpage, hwalk, rfl⟩
    · refine ⟨hw.sound, fun turn ht => ?_, hw.inventory, hw.leads, fun turn ht n hn hkey hle => ?_,
        hw.shards⟩
      · rcases ht with ht | ht
        · exact hw.turnEpochs turn ht
        · obtain ⟨c, hp, -⟩ := hturn turn ht
          exact hw.sound.walks _ _ c hp
      · rcases ht with ht | ht
        · exact hw.turns turn ht n hn hkey hle
        · obtain ⟨c, hp, hpage⟩ := hturn turn ht
          unfold PageTurn.Reaches
          rw [hpage]
          exact hw.reaches hp hn hkey
    · have hdone := hw.complete hp hpage hwalk
      have hsame : ∀ t ∈ {t | t ∈ w.turns ∨ (none : Option PageTurn) = some t}, t ∈ w.turns :=
        fun t ht => ht.resolve_right fun h => by cases h
      exact ⟨hdone.sound, fun t ht => hdone.turnEpochs t (hsame t ht), hdone.inventory, hdone.leads,
        fun t ht => hdone.turns t (hsame t ht), hdone.shards⟩
  | accept m recoveryGeneration nowMs hsent h =>
    have hmore : w.accepted ⊆ {n | n ∈ w.accepted ∨ n = m} := fun _ hn => .inl hn
    refine ⟨hw.sound, hw.turnEpochs, hw.inventory, fun n hn => (hw.leads n hn).imp_left (.mono hmore),
      fun turn ht n hn hkey hle => (hw.turns turn ht n hn hkey hle).imp_left (.mono hmore), ?_⟩
    exact hw.shard m.shardId _
  | shard shardId call =>
    exact ⟨hw.sound, hw.turnEpochs, hw.inventory, hw.leads, hw.turns, hw.shard shardId _⟩
  | completeTarget r hr hacc h =>
    obtain ⟨db, hdone, rfl⟩ := onInvalidations_returns (storageTransaction_returns h)
    obtain ⟨hwalks, htargets⟩ := completeTarget_returns hdone
    refine hw.onTarget hwalks fun n _ e he hle => ?_
    rcases htargets _ e he with hkept | ⟨hkey, rfl⟩
    · exact .inr hkept
    · obtain ⟨hscope, hshard⟩ := Prod.mk.inj hkey
      exact .inl ⟨r.notice, hacc, hshard.symm, hscope.symm, hle⟩
  | deferTarget r nowMs errorMessage hr h =>
    obtain ⟨db, hdone, rfl⟩ := onInvalidations_returns (storageTransaction_returns h)
    obtain ⟨hwalks, htargets⟩ := deferTarget_returns hdone
    exact hw.onTarget hwalks fun n _ e he _ => .inr ((htargets _).trans he)
  | advancePage turn nowMs hturn hacc h =>
    unfold PageTurn.advance at h
    cases hlast : turn.page.getLast? with
    | none =>
      rw [hlast] at h
      exact (Tx.throw_returns.mp h).elim
    | some last =>
      rw [hlast] at h
      obtain ⟨db, hdone, rfl⟩ := onInvalidations_returns (storageTransaction_returns h)
      obtain ⟨hid, hwalk⟩ := advanceWalk_returns hdone
      exact hw.advance hturn hacc hlast hid hwalk
  | deferPage turn nowMs errorMessage hturn h =>
    obtain ⟨db, hdone, rfl⟩ := onInvalidations_returns (storageTransaction_returns h)
    exact hw.defer (deferWalk_returns hdone)

theorem handed_initial : Handed .initial where
  sound :=
    { ids := fun id hid => by
        rcases hid with ⟨r, hr, rfl⟩ | ⟨o, ho, -⟩
        · obtain rfl := List.mem_singleton.mp hr
          decide
        · cases ho
      cursors := fun scope _ _ hp => by cases scope <;> cases hp
      walks := fun scope _ _ hp => by cases scope <;> cases hp }
  turnEpochs _ ht := by cases ht
  inventory _ hn := by cases hn
  leads _ hn := by cases hn
  turns _ ht := by cases ht
  shards _ := covered_initial

theorem Handed.of_reachable (h : HandoffReachable vshardOf (ν := ν) sha256Hex w) : Handed w := by
  induction h with
  | refl => exact handed_initial
  | tail _ hstep ih => exact ih.step hstep

/-- What holds of the handoff in every state. -/
structure HandoffKept (w : HandoffWorld) : Prop where
  /-- A shard that has to learn of an epoch was told, or the outbox leads to it. -/
  epochs : ∀ n ∈ w.owed, w.Told n ∨ w.catalog.Leads n
  /-- The outbox knows no epoch that the Catalog did not record. -/
  walks : ∀ scope epoch cursor, w.catalog.invalidations.progress? scope = some (epoch, cursor) →
    epoch ≤ w.catalog.authEpoch scope.key
  /-- Once the outbox has no row for a scope, every shard that had to learn of its epochs was told. -/
  drained : ∀ scope, w.catalog.invalidations.progress? scope = none →
    ∀ n ∈ w.owed, n.key = scope.key → w.Told n
  /-- Likewise for each shard that had to learn of the epoch of a tenant. -/
  settled : ∀ n ∈ w.owed, n.key.1 = .tenant →
    w.catalog.invalidations.targetEpoch? (n.key, n.shardId) = none → w.Told n
  /-- On the shards no registration misses what it was woken for. -/
  shards : ∀ shardId, InvalidationsKept (w.shards shardId).live

/-- No auth epoch is lost between the Catalog and its shards, however deliveries interleave, fail, and
come late or repeatedly. -/
theorem auth_epochs_reach_shards (h : HandoffReachable vshardOf (ν := ν) sha256Hex w) :
    HandoffKept w := by
  have hw := Handed.of_reachable h
  refine ⟨hw.leads, hw.sound.walks, fun scope hnone n hn hkey => ?_, fun n hn htenant hnone => ?_,
    fun id => (hw.shards id).kept⟩
  · rcases hw.leads n hn with htold | hl
    · exact htold
    · cases hl with
      | walk scope' e c hkey' hp _ _ =>
        obtain rfl := WalkScope.key_injective (hkey'.symm.trans hkey)
        cases hnone.symm.trans hp
      | target _ htenant _ _ => exact absurd htenant (by rw [hkey]; exact scope.key_ne_tenant)
  · rcases hw.leads n hn with htold | hl
    · exact htold
    · cases hl with
      | walk scope _ _ hkey _ _ _ => exact absurd htenant (by rw [hkey]; exact scope.key_ne_tenant)
      | target _ _ ht _ => cases hnone.symm.trans ht

/-- A Catalog that recorded an epoch of the global scope. -/
def recordedGlobal : AuthCatalog :=
  (recordAuthEpochs (fun _ => 0) [.walk .global] 5).after (.initial ⟨.empty, .empty⟩)

/-- The epoch of the global scope is on its way to the first shard. -/
theorem auth_epochs_reach_shards_global :
    HandoffKept { HandoffWorld.initial with
      catalog := recordedGlobal
      owed := {n | n ∈ HandoffWorld.initial.owed ∨ ∃ c ∈ [(EpochScope.walk .global, 2)],
        n.key = c.1.key ∧ n.epoch = c.2 ∧ recordedGlobal.MustLearn (fun _ => 0) c.1 n.shardId} } := by
  have hrun : HandoffReachable (fun _ => 0) (ν := Int) id { HandoffWorld.initial with
      catalog := recordedGlobal
      owed := {n | n ∈ HandoffWorld.initial.owed ∨ ∃ c ∈ [(EpochScope.walk .global, 2)],
        n.key = c.1.key ∧ n.epoch = c.2 ∧ recordedGlobal.MustLearn (fun _ => 0) c.1 n.shardId} } :=
    .tail .refl (.record [.walk .global] 5 (by rfl))
  exact auth_epochs_reach_shards hrun

end

end Chardb.AuthEpochs
