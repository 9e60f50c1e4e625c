import Chardb.Catalog.TopologyStore

/-!
# The lease of a topology operation

The calls of the store come in any order, with any identities and at any times. `TopologyEffect` is
what one of them does to the rows, and `Keeps` what a later store still holds of an earlier one; the
run lemmas carry both through any sequence of calls.
-/

namespace Chardb.Catalog

open Chardb.Lib Chardb.Schema

variable {t t' : TopologyTable} {o stored : CatalogTopologyOperation}
  {identity : CatalogTopologyOperationIdentity} {nowMs completedEpoch : Int}

/-! ## What a call throws -/

theorem readOnly_assertIdentity (identity : CatalogTopologyOperationIdentity) :
    (assertIdentity identity).ReadOnly := by
  unfold assertIdentity
  iterate 8 refine Tx.ReadOnly.bind (Tx.readOnly_require _ _) fun _ => ?_
  exact Tx.readOnly_require _ _

theorem readOnly_readExact (identity : CatalogTopologyOperationIdentity) :
    (readExact identity).ReadOnly :=
  .bind (readOnly_assertIdentity identity) fun _ => .bind (Tx.readOnly_gets _) fun _ =>
    .bind (Tx.readOnly_ofOption _ _) fun _ => .bind (Tx.readOnly_require _ _) fun _ =>
      Tx.readOnly_pure _

theorem readOnly_assertActive (identity : CatalogTopologyOperationIdentity) :
    (assertActive identity).ReadOnly :=
  .bind (readOnly_assertIdentity identity) fun _ => .bind (Tx.readOnly_gets _) fun _ =>
    .bind (Tx.readOnly_ofOption _ _) fun _ => .bind (Tx.readOnly_require _ _) fun _ =>
      .bind (Tx.readOnly_require _ _) fun _ => Tx.readOnly_pure _

theorem readOnly_assertNoActive : assertNoActive.ReadOnly := by
  refine .bind (Tx.readOnly_gets _) fun active => ?_
  cases active with
  | nil => exact Tx.readOnly_pure _
  | cons o rest => exact Tx.readOnly_throw _

theorem atomic_insertTopology (identity : CatalogTopologyOperationIdentity) (nowMs : Int) :
    (insertTopology identity nowMs).Atomic := by
  refine (Tx.readOnly_gets _).bind_atomic fun _ => (Tx.readOnly_require _ _).bind_atomic fun _ => ?_
  intro t e t' h
  exact (Table.insert_throws.mp h).2.2

theorem atomic_beginTopology (identity : CatalogTopologyOperationIdentity) (nowMs : Int) :
    (beginTopology identity nowMs).Atomic := by
  refine (readOnly_assertIdentity identity).bind_atomic fun _ =>
    (Tx.readOnly_require _ _).bind_atomic fun _ =>
      (Tx.readOnly_gets _).bind_atomic fun existing => ?_
  cases existing with
  | some existing =>
    exact (Tx.readOnly_require _ _).bind_atomic fun _ => (Tx.readOnly_pure _).atomic
  | none =>
    refine (Tx.readOnly_gets _).bind_atomic fun _ => (Tx.readOnly_require _ _).bind_atomic fun _ =>
      (Tx.readOnly_gets _).bind_atomic fun active => ?_
    cases active with
    | cons o rest => exact (Tx.readOnly_throw _).atomic
    | nil =>
      -- The row is there once it is inserted.
      refine (atomic_insertTopology identity nowMs).bind_total fun t _ t₁ hinsert e t' h => ?_
      have hfind := inserted_find? (insertTopology_iff.mp hinsert).2
      simp only [Tx.bind_throws, readTopology_iff, Tx.ofOption_throws] at h
      rcases h with h | ⟨_, _, ⟨rfl, rfl⟩, hnone, -⟩
      · exact (Tx.gets_throws.mp h).elim
      · rw [hfind] at hnone
        cases hnone

/-- An update that throws broke a check of the table. -/
theorem updateTopology_throws {f : CatalogTopologyOperation → CatalogTopologyOperation} {e : Thrown}
    (hf : ∀ o, (f o).identity = o.identity) (hfind : t.find? identity.migrationId = some stored)
    (hsame : stored.identity = identity) (hactive : stored.status = .active)
    (hid : ValidIdentity identity)
    (h : (updateTopology identity.migrationId f >>= fun _ => readExact identity).Throws t e t') :
    t' = t := by
  rcases Tx.bind_throws.mp h with hupdate | ⟨_, t₁, hupdate, -⟩
  · exact (Table.update_throws.mp hupdate).2.2
  · have hreturns := (updateTopology_readExact hf hfind hsame hactive hid).mpr
      ⟨rfl, (Table.update_returns.mp hupdate).1⟩
    exact (hreturns.not_throws h).elim

theorem atomic_completeTopology (identity : CatalogTopologyOperationIdentity)
    (completedEpoch nowMs : Int) : (completeTopology identity completedEpoch nowMs).Atomic := by
  refine (Tx.readOnly_require _ _).bind_atomic fun _ =>
    (Tx.readOnly_require _ _).bind_atomic fun _ => ?_
  intro t e t' h
  rcases Tx.bind_throws.mp h with h | ⟨stored, _, hread, h⟩
  · exact (readOnly_readExact identity).atomic h
  · obtain ⟨hid, ⟨hfind, hsame⟩, rfl⟩ := readExact_iff.mp hread
    cases hstatus : stored.status with
    | completed =>
      rw [hstatus] at h
      exact ((Tx.readOnly_require _ _).bind_atomic fun _ => (Tx.readOnly_pure _).atomic) h
    | aborted => rw [hstatus] at h; exact (Tx.throw_throws.mp h).2
    | active =>
      rw [hstatus] at h
      exact updateTopology_throws (f := .completed completedEpoch nowMs) (fun _ => rfl)
        hfind hsame hstatus hid h

theorem atomic_abortTopology (identity : CatalogTopologyOperationIdentity) (nowMs : Int) :
    (abortTopology identity nowMs).Atomic := by
  refine (Tx.readOnly_require _ _).bind_atomic fun _ => ?_
  intro t e t' h
  rcases Tx.bind_throws.mp h with h | ⟨stored, _, hread, h⟩
  · exact (readOnly_readExact identity).atomic h
  · obtain ⟨hid, ⟨hfind, hsame⟩, rfl⟩ := readExact_iff.mp hread
    cases hstatus : stored.status with
    | aborted => rw [hstatus] at h; exact (Tx.readOnly_pure _).atomic h
    | completed => rw [hstatus] at h; exact (Tx.throw_throws.mp h).2
    | active =>
      rw [hstatus] at h
      exact updateTopology_throws (f := .aborted nowMs) (fun _ => rfl) hfind hsame hstatus hid h

/-- A call that throws leaves the rows as they were. -/
theorem TopologyCall.atomic (call : TopologyCall) : call.execute.Atomic := by
  intro t e t' h
  cases call with
  | begin identity nowMs => exact atomic_beginTopology identity nowMs (Tx.map_throws.mp h)
  | assertActive identity => exact (readOnly_assertActive identity).atomic (Tx.map_throws.mp h)
  | complete identity completedEpoch nowMs =>
    exact atomic_completeTopology identity completedEpoch nowMs (Tx.map_throws.mp h)
  | abort identity nowMs => exact atomic_abortTopology identity nowMs (Tx.map_throws.mp h)
  | assertNoActive =>
    exact (readOnly_assertNoActive.bind_atomic fun _ => (Tx.readOnly_pure _).atomic) h

/-! ## A step -/

/-- What a call does to the rows. -/
inductive TopologyEffect (t t' : TopologyTable) : Prop
  | same (h : t' = t)
  | began (o : CatalogTopologyOperation) (valid : ValidIdentity o.identity)
    (fresh : t.find? o.migrationId = none) (idle : activeOperations t = [])
    (rows : ∀ k, t'.find? k = if o.migrationId = k then some o else t.find? k)
  | ended (o o' : CatalogTopologyOperation) (found : t.find? o.migrationId = some o)
    (active : o.status = .active) (identity : o'.identity = o.identity)
    (createdAt : o'.createdAt = o.createdAt) (finished : o'.status ≠ .active)
    (rows : ∀ k, t'.find? k = if o.migrationId = k then some o' else t.find? k)

theorem endActive_effect {f : CatalogTopologyOperation → CatalogTopologyOperation}
    (hf : ∀ o, (f o).identity = o.identity ∧ (f o).createdAt = o.createdAt ∧ (f o).status ≠ .active)
    (hfind : t.find? identity.migrationId = some stored) (hactive : stored.status = .active)
    (h : endActive t identity f = some t') : TopologyEffect t t' := by
  have hkey : ∀ o, (f o).migrationId = o.migrationId :=
    fun o => congrArg CatalogTopologyOperationIdentity.migrationId (hf o).1
  have hmatch : stored.migrationId = identity.migrationId := (Table.find?_eq_some.mp hfind).2
  rcases Table.update_key_returns (e := identityChanged) (Table.update_returns.mpr ⟨h, rfl⟩) hkey
    with ⟨-, o, ho, -, hrows⟩ | ⟨-, hno, -⟩
  · rw [hfind, Option.some.injEq] at ho
    subst ho
    obtain ⟨hsame, hcreated, hover⟩ := hf stored
    rw [← hmatch] at hfind hrows
    exact .ended stored (f stored) hfind hactive hsame hcreated hover hrows
  · have := hno stored hfind
    rw [hactive] at this
    cases this

theorem TopologyCall.effect {call : TopologyCall} {r : Option CatalogTopologyOperation}
    (h : call.execute.Returns t r t') : TopologyEffect t t' := by
  cases call with
  | begin identity nowMs =>
    obtain ⟨o, h, -⟩ := Tx.map_returns.mp h
    obtain ⟨hid, -, ⟨-, -, rfl⟩ | ⟨hvacant, rfl, hinsert⟩⟩ := beginTopology_iff.mp h
    · exact .same rfl
    · exact .began ⟨identity, .active, none, nowMs, nowMs⟩ hid hvacant.fresh hvacant.idle
        (Table.find?_insert hinsert)
  | assertActive identity =>
    obtain ⟨o, h, -⟩ := Tx.map_returns.mp h
    exact .same ((readOnly_assertActive identity).returns h).symm
  | complete identity completedEpoch nowMs =>
    obtain ⟨o, h, -⟩ := Tx.map_returns.mp h
    obtain ⟨-, -, -, stored, hfind, -, ⟨-, -, -, rfl⟩ | ⟨hactive, -, hend⟩⟩ :=
      completeTopology_iff.mp h
    · exact .same rfl
    · exact endActive_effect (f := .completed completedEpoch nowMs)
        (fun _ => ⟨rfl, rfl, by rintro ⟨⟩⟩) hfind hactive hend
  | abort identity nowMs =>
    obtain ⟨o, h, -⟩ := Tx.map_returns.mp h
    obtain ⟨-, -, stored, hfind, -, ⟨-, -, rfl⟩ | ⟨hactive, -, hend⟩⟩ := abortTopology_iff.mp h
    · exact .same rfl
    · exact endActive_effect (f := .aborted nowMs) (fun _ => ⟨rfl, rfl, by rintro ⟨⟩⟩)
        hfind hactive hend
  | assertNoActive =>
    obtain ⟨_, _, hnone, hpure⟩ := Tx.bind_returns.mp h
    obtain ⟨-, rfl⟩ := Tx.pure_returns.mp hpure
    exact .same (readOnly_assertNoActive.returns hnone).symm

theorem topologyStep_effect (t : TopologyTable) (call : TopologyCall) :
    TopologyEffect t (topologyStep t call) := by
  rcases call.execute.returns_or_throws t with ⟨r, h⟩ | ⟨e, h⟩
  · exact TopologyCall.effect h
  · exact .same (call.atomic h)

/-- One operation at most holds the lease. -/
def OneActive (t : TopologyTable) : Prop :=
  ∀ o ∈ activeOperations t, ∀ o' ∈ activeOperations t, o = o'

theorem mem_active :
    o ∈ activeOperations t ↔ t.find? o.migrationId = some o ∧ o.status = .active := by
  rw [activeOperations, Table.mem_select, decide_eq_true_eq]
  exact and_congr_left fun _ => ⟨Table.find?_key, fun h => (Table.find?_eq_some.mp h).1⟩

theorem OneActive.length_le (h : OneActive t) : (activeOperations t).length ≤ 1 :=
  Table.select_length_le_one fun o ho o' ho' hp hp' =>
    h o (Table.mem_select.mpr ⟨ho, hp⟩) o' (Table.mem_select.mpr ⟨ho', hp'⟩)

theorem TopologyEffect.oneActive (h : TopologyEffect t t') (ht : OneActive t) : OneActive t' := by
  cases h with
  | same h => rw [h]; exact ht
  | began o valid fresh idle rows =>
    have honly : ∀ x ∈ activeOperations t', x = o := by
      intro x hx
      obtain ⟨hfind, hactive⟩ := mem_active.mp hx
      rw [rows] at hfind
      split at hfind
      · exact (Option.some.inj hfind).symm
      · have := mem_active.mpr ⟨hfind, hactive⟩
        rw [idle] at this
        cases this
    intro x hx y hy
    rw [honly x hx, honly y hy]
  | ended o o' found active identity createdAt finished rows =>
    have hold : ∀ x ∈ activeOperations t', x ∈ activeOperations t := by
      intro x hx
      obtain ⟨hfind, hactive⟩ := mem_active.mp hx
      rw [rows] at hfind
      split at hfind
      · exact absurd (Option.some.inj hfind ▸ hactive) finished
      · exact mem_active.mpr ⟨hfind, hactive⟩
    intro x hx y hy
    exact ht x (hold x hx) y (hold y hy)

/-- What a later store still holds of an earlier one: its operations, and those that are over as
they were. -/
def Keeps (t t' : TopologyTable) : Prop :=
  ∀ o, t.find? o.migrationId = some o → ∃ o', t'.find? o.migrationId = some o' ∧
    o'.identity = o.identity ∧ o'.createdAt = o.createdAt ∧ (o.status ≠ .active → o' = o)

theorem Keeps.refl (t : TopologyTable) : Keeps t t := fun o h => ⟨o, h, rfl, rfl, fun _ => rfl⟩

theorem Keeps.trans {t'' : TopologyTable} (h : Keeps t t') (h' : Keeps t' t'') : Keeps t t'' := by
  intro o ho
  obtain ⟨o₁, ho₁, hid₁, hcreated₁, hover₁⟩ := h o ho
  have hkey : o₁.migrationId = o.migrationId :=
    congrArg CatalogTopologyOperationIdentity.migrationId hid₁
  rw [← hkey] at ho₁
  obtain ⟨o₂, ho₂, hid₂, hcreated₂, hover₂⟩ := h' o₁ ho₁
  refine ⟨o₂, hkey ▸ ho₂, hid₂.trans hid₁, hcreated₂.trans hcreated₁, fun hover => ?_⟩
  obtain rfl := hover₁ hover
  exact hover₂ hover

theorem TopologyEffect.keeps (h : TopologyEffect t t') : Keeps t t' := by
  intro x hx
  cases h with
  | same h => exact ⟨x, h ▸ hx, rfl, rfl, fun _ => rfl⟩
  | began o valid fresh idle rows =>
    have hne : o.migrationId ≠ x.migrationId := by
      intro he
      rw [he, hx] at fresh
      cases fresh
    exact ⟨x, (rows _).trans ((if_neg hne).trans hx), rfl, rfl, fun _ => rfl⟩
  | ended o o' found active identity createdAt finished rows =>
    by_cases he : o.migrationId = x.migrationId
    · obtain rfl : o = x := by
        rw [he, hx] at found
        exact (Option.some.inj found).symm
      exact ⟨o', (rows _).trans (if_pos rfl), identity, createdAt, fun h => absurd active h⟩
    · exact ⟨x, (rows _).trans ((if_neg he).trans hx), rfl, rfl, fun _ => rfl⟩

/-! ## A run -/

theorem topologyRun_oneActive (ht : OneActive t) (calls : List TopologyCall) :
    OneActive (topologyRun t calls) := by
  induction calls generalizing t with
  | nil => exact ht
  | cons call calls ih => exact ih ((topologyStep_effect t call).oneActive ht)

theorem topologyRun_keeps (t : TopologyTable) (calls : List TopologyCall) :
    Keeps t (topologyRun t calls) := by
  induction calls generalizing t with
  | nil => exact .refl t
  | cons call calls ih => exact (topologyStep_effect t call).keeps.trans (ih (topologyStep t call))

/-- The same call at another time. -/
def TopologyCall.atTime (nowMs : Int) : TopologyCall → TopologyCall
  | .begin identity _ => .begin identity nowMs
  | .complete identity completedEpoch _ => .complete identity completedEpoch nowMs
  | .abort identity _ => .abort identity nowMs
  | call => call

/-- A call that begins or ends an operation. -/
def TopologyCall.IsChange : TopologyCall → Prop
  | .begin .. | .complete .. | .abort .. => True
  | .assertActive _ | .assertNoActive => False

/-- A call that changed the store answers what is stored. -/
theorem TopologyCall.replay {call : TopologyCall} {t₁ t₂ : TopologyTable} (hcall : call.IsChange)
    (h : call.execute.Returns t (some o) t₁) (hlater : Keeps t₁ t₂) (htime : ValidTime nowMs) :
    ∃ o', (call.atTime nowMs).execute.Returns t₂ (some o') t₂ ∧
      t₂.find? o.migrationId = some o' ∧ o'.identity = o.identity ∧
        (o.status ≠ .active → o' = o) := by
  cases call with
  | begin identity time =>
    obtain ⟨_, h, ho⟩ := Tx.map_returns.mp h
    obtain rfl := Option.some.inj ho
    obtain ⟨hid, -, hbegan⟩ := beginTopology_iff.mp h
    have hstored : t₁.find? identity.migrationId = some o ∧ o.identity = identity := by
      rcases hbegan with ⟨hfind, hsame, rfl⟩ | ⟨-, rfl, hinsert⟩
      · exact ⟨hfind, hsame⟩
      · exact ⟨inserted_find? hinsert, rfl⟩
    obtain ⟨hfind, rfl⟩ := hstored
    obtain ⟨o', hfind', hsame, -, hover⟩ := hlater o hfind
    have hreturns := beginTopology_iff.mpr ⟨hid, htime, .inl ⟨hfind', hsame, rfl⟩⟩
    exact ⟨o', Tx.map_returns.mpr ⟨o', hreturns, rfl⟩, hfind', hsame, hover⟩
  | complete identity completedEpoch time =>
    obtain ⟨_, h, ho⟩ := Tx.map_returns.mp h
    obtain rfl := Option.some.inj ho
    have hdone : t₁.find? identity.migrationId = some o ∧ o.identity = identity ∧
        o.status = .completed ∧ o.completedEpoch = some completedEpoch := by
      obtain ⟨-, -, -, stored, hfind, hsame, h⟩ := completeTopology_iff.mp h
      rcases h with ⟨hstatus, hepoch, rfl, rfl⟩ | ⟨hactive, rfl, hend⟩
      · exact ⟨hfind, hsame, hstatus, hepoch⟩
      · exact ⟨endActive_find? (fun _ => rfl) hfind hactive hend, hsame, rfl, rfl⟩
    obtain ⟨hepoch, -, hid, -⟩ := completeTopology_iff.mp h
    obtain ⟨hfind, rfl, hstatus, hsame⟩ := hdone
    obtain ⟨o', hfind', -, -, hover⟩ := hlater o hfind
    obtain rfl := hover (by rw [hstatus]; rintro ⟨⟩)
    have hreturns := completeTopology_iff.mpr
      ⟨hepoch, htime, hid, o', hfind', rfl, .inl ⟨hstatus, hsame, rfl, rfl⟩⟩
    exact ⟨o', Tx.map_returns.mpr ⟨o', hreturns, rfl⟩, hfind', rfl, fun _ => rfl⟩
  | abort identity time =>
    obtain ⟨_, h, ho⟩ := Tx.map_returns.mp h
    obtain rfl := Option.some.inj ho
    have hdone : t₁.find? identity.migrationId = some o ∧ o.identity = identity ∧
        o.status = .aborted := by
      obtain ⟨-, -, stored, hfind, hsame, h⟩ := abortTopology_iff.mp h
      rcases h with ⟨hstatus, rfl, rfl⟩ | ⟨hactive, rfl, hend⟩
      · exact ⟨hfind, hsame, hstatus⟩
      · exact ⟨endActive_find? (fun _ => rfl) hfind hactive hend, hsame, rfl⟩
    obtain ⟨-, hid, -⟩ := abortTopology_iff.mp h
    obtain ⟨hfind, rfl, hstatus⟩ := hdone
    obtain ⟨o', hfind', -, -, hover⟩ := hlater o hfind
    obtain rfl := hover (by rw [hstatus]; rintro ⟨⟩)
    have hreturns := abortTopology_iff.mpr
      ⟨htime, hid, o', hfind', rfl, .inl ⟨hstatus, rfl, rfl⟩⟩
    exact ⟨o', Tx.map_returns.mpr ⟨o', hreturns, rfl⟩, hfind', rfl, fun _ => rfl⟩
  | assertActive identity => exact hcall.elim
  | assertNoActive => exact hcall.elim

/-- A program on the store that cannot return throws and changes nothing. -/
theorem throws_of_not_returns {α : Type} {x : TopologyTx α} (hx : x.Atomic)
    (h : ∀ a t', ¬ x.Returns t a t') : ∃ e, x.Throws t e t := by
  rcases x.returns_or_throws t with ⟨a, ha⟩ | ⟨e, he⟩
  · exact absurd ha (h _ _)
  · rw [hx he] at he
    exact ⟨e, he⟩

/-- A call on a stored operation under another identity throws. -/
theorem TopologyCall.changed_throws {call : TopologyCall} (hcall : call.identity? = some identity)
    (hfind : t.find? identity.migrationId = some o) (hne : o.identity ≠ identity) :
    ∃ e, call.execute.Throws t e t := by
  have hsome : ∀ {o'}, t.find? identity.migrationId = some o' → o'.identity = identity → False := by
    intro o' hfind' hsame
    rw [hfind, Option.some.injEq] at hfind'
    exact hne (hfind' ▸ hsame)
  refine throws_of_not_returns call.atomic fun r t' h => ?_
  cases call with
  | begin identity nowMs =>
    obtain rfl := Option.some.inj hcall
    obtain ⟨o', h, -⟩ := Tx.map_returns.mp h
    obtain ⟨-, -, ⟨hfind', hsame, -⟩ | ⟨hvacant, -⟩⟩ := beginTopology_iff.mp h
    · exact hsome hfind' hsame
    · rw [hvacant.fresh] at hfind
      cases hfind
  | assertActive identity =>
    obtain rfl := Option.some.inj hcall
    obtain ⟨o', h, -⟩ := Tx.map_returns.mp h
    obtain ⟨-, ⟨hfind', hsame⟩, -⟩ := assertActive_iff.mp h
    exact hsome hfind' hsame
  | complete identity completedEpoch nowMs =>
    obtain rfl := Option.some.inj hcall
    obtain ⟨o', h, -⟩ := Tx.map_returns.mp h
    obtain ⟨-, -, -, stored, hfind', hsame, -⟩ := completeTopology_iff.mp h
    exact hsome hfind' hsame
  | abort identity nowMs =>
    obtain rfl := Option.some.inj hcall
    obtain ⟨o', h, -⟩ := Tx.map_returns.mp h
    obtain ⟨-, -, stored, hfind', hsame, -⟩ := abortTopology_iff.mp h
    exact hsome hfind' hsame
  | assertNoActive => cases hcall

/-- An operation that is finished takes no other end, and its completion no other epoch. -/
theorem complete_over_throws (hfind : t.find? o.migrationId = some o)
    (hover : o.status = .aborted ∨
      (o.status = .completed ∧ o.completedEpoch ≠ some completedEpoch)) :
    ∃ e, (TopologyCall.complete o.identity completedEpoch nowMs).execute.Throws t e t := by
  refine throws_of_not_returns (TopologyCall.atomic _) fun r t' h => ?_
  obtain ⟨_, h, -⟩ := Tx.map_returns.mp h
  obtain ⟨-, -, -, stored, hstored, -, h⟩ := completeTopology_iff.mp h
  obtain rfl : stored = o := Option.some.inj (hstored.symm.trans hfind)
  rcases h with ⟨hstatus, hepoch, -⟩ | ⟨hstatus, -⟩
  · rcases hover with h | ⟨-, h⟩
    · rw [hstatus] at h
      cases h
    · exact h hepoch
  · rcases hover with h | ⟨h, -⟩
    · rw [hstatus] at h
      cases h
    · rw [hstatus] at h
      cases h

theorem abort_completed_throws (hfind : t.find? o.migrationId = some o)
    (hover : o.status = .completed) :
    ∃ e, (TopologyCall.abort o.identity nowMs).execute.Throws t e t := by
  refine throws_of_not_returns (TopologyCall.atomic _) fun r t' h => ?_
  obtain ⟨_, h, -⟩ := Tx.map_returns.mp h
  obtain ⟨-, -, stored, hstored, -, h⟩ := abortTopology_iff.mp h
  obtain rfl : stored = o := Option.some.inj (hstored.symm.trans hfind)
  rcases h with ⟨hstatus, -⟩ | ⟨hstatus, -⟩
  · rw [hstatus] at hover
    cases hover
  · rw [hstatus] at hover
    cases hover

/-- A row that the table took was updated no earlier than it was created. -/
theorem endActive_time {f : CatalogTopologyOperation → CatalogTopologyOperation}
    (hf : ∀ o, (f o).identity = o.identity) (hfind : t.find? identity.migrationId = some stored)
    (hactive : stored.status = .active) (h : endActive t identity f = some t') :
    (f stored).createdAt ≤ (f stored).updatedAt := by
  have hmem := (Table.find?_eq_some.mp (endActive_find? hf hfind hactive h)).1
  obtain ⟨-, -, ⟨-, htime⟩, -⟩ := Table.check_of_mem hmem
  exact htime

theorem complete_early_throws (hfind : t.find? o.migrationId = some o)
    (hactive : o.status = .active) (hearly : nowMs < o.createdAt) :
    ∃ e, (TopologyCall.complete o.identity completedEpoch nowMs).execute.Throws t e t := by
  refine throws_of_not_returns (TopologyCall.atomic _) fun r t' h => ?_
  obtain ⟨_, h, -⟩ := Tx.map_returns.mp h
  obtain ⟨-, -, -, stored, hstored, -, h⟩ := completeTopology_iff.mp h
  obtain rfl : stored = o := Option.some.inj (hstored.symm.trans hfind)
  rcases h with ⟨hstatus, -⟩ | ⟨-, -, hend⟩
  · rw [hstatus] at hactive
    cases hactive
  · have htime := endActive_time (f := .completed completedEpoch nowMs) (fun _ => rfl)
      hstored hactive hend
    exact absurd htime (Int.not_le.mpr hearly)

theorem abort_early_throws (hfind : t.find? o.migrationId = some o)
    (hactive : o.status = .active) (hearly : nowMs < o.createdAt) :
    ∃ e, (TopologyCall.abort o.identity nowMs).execute.Throws t e t := by
  refine throws_of_not_returns (TopologyCall.atomic _) fun r t' h => ?_
  obtain ⟨_, h, -⟩ := Tx.map_returns.mp h
  obtain ⟨-, -, stored, hstored, -, h⟩ := abortTopology_iff.mp h
  obtain rfl : stored = o := Option.some.inj (hstored.symm.trans hfind)
  rcases h with ⟨hstatus, -⟩ | ⟨-, -, hend⟩
  · rw [hstatus] at hactive
    cases hactive
  · have htime := endActive_time (f := .aborted nowMs) (fun _ => rfl) hstored hactive hend
    exact absurd htime (Int.not_le.mpr hearly)

/-- What the store promises in a state that calls have reached. -/
structure TopologyLeases (t : TopologyTable) : Prop where
  one_active : (activeOperations t).length ≤ 1
  kept : ∀ later, ∀ o ∈ t, ∃ o' ∈ topologyRun t later, o'.identity = o.identity
  immutable : ∀ later, ∀ o ∈ t, ∀ o' ∈ topologyRun t later,
    o'.migrationId = o.migrationId → o'.identity = o.identity
  terminal : ∀ later, ∀ o ∈ t, o.status ≠ .active → o ∈ topologyRun t later
  exclusive : ∀ later, ∀ o ∈ t, ∀ o' ∈ topologyRun t later, o'.migrationId = o.migrationId →
    ¬ (o.status = .completed ∧ o'.status = .aborted) ∧
      ¬ (o.status = .aborted ∧ o'.status = .completed)
  /-- A call that returned, made again at any later point. -/
  replay : ∀ (call : TopologyCall) o t', call.IsChange → call.execute.Returns t (some o) t' →
    ∀ later nowMs, ValidTime nowMs → ∃ o',
      (call.atTime nowMs).execute.Returns (topologyRun t' later) (some o') (topologyRun t' later) ∧
        o' ∈ topologyRun t' later ∧ o'.identity = o.identity ∧ (o.status ≠ .active → o' = o)
  changed_identity : ∀ o ∈ t, ∀ (call : TopologyCall) identity, call.identity? = some identity →
    identity.migrationId = o.migrationId → identity ≠ o.identity → ∃ e, call.execute.Throws t e t
  changed_epoch : ∀ o ∈ t, o.status = .completed → ∀ epoch nowMs, o.completedEpoch ≠ some epoch →
    ∃ e, (TopologyCall.complete o.identity epoch nowMs).execute.Throws t e t
  other_end : ∀ o ∈ t, ∀ epoch nowMs,
    (o.status = .completed → ∃ e, (TopologyCall.abort o.identity nowMs).execute.Throws t e t) ∧
      (o.status = .aborted →
        ∃ e, (TopologyCall.complete o.identity epoch nowMs).execute.Throws t e t)
  early : ∀ o ∈ t, o.status = .active → ∀ epoch nowMs, nowMs < o.createdAt →
    (∃ e, (TopologyCall.complete o.identity epoch nowMs).execute.Throws t e t) ∧
      ∃ e, (TopologyCall.abort o.identity nowMs).execute.Throws t e t
  /-- A call that throws leaves the rows as they were. -/
  unchanged : ∀ (call : TopologyCall) e t', call.execute.Throws t e t' → t' = t

/-- What a later store holds of the operation under one id. -/
theorem Keeps.of_mem {o' : CatalogTopologyOperation} (h : Keeps t t') (ho : o ∈ t) (ho' : o' ∈ t')
    (hkey : o'.migrationId = o.migrationId) :
    o'.identity = o.identity ∧ (o.status ≠ .active → o' = o) := by
  obtain ⟨o₁, hfind, hsame, -, hover⟩ := h o (Table.find?_key ho)
  obtain ⟨ho₁, hkey₁⟩ := Table.find?_eq_some.mp hfind
  obtain rfl : o' = o₁ := Table.eq_of_key ho' ho₁ (hkey.trans hkey₁.symm)
  exact ⟨hsame, hover⟩

/-- After any calls, with any identities and at any times, the lease is held as promised. -/
theorem topology_leases (calls : List TopologyCall) :
    TopologyLeases (topologyRun .empty calls) := by
  have hone : OneActive (topologyRun .empty calls) :=
    topologyRun_oneActive (fun o ho => absurd (Table.mem_select.mp ho).1 Table.not_mem_empty) calls
  generalize topologyRun .empty calls = t at hone
  have hfind : ∀ {o}, o ∈ t → t.find? o.migrationId = some o := fun ho => Table.find?_key ho
  refine ⟨hone.length_le, ?_, ?_, ?_, ?_, ?_, ?_, ?_, ?_, ?_, fun call _ _ h => call.atomic h⟩
  · intro later o ho
    obtain ⟨o', ho', hsame, -⟩ := topologyRun_keeps t later o (hfind ho)
    exact ⟨o', (Table.find?_eq_some.mp ho').1, hsame⟩
  · intro later o ho o' ho' hkey
    exact ((topologyRun_keeps t later).of_mem ho ho' hkey).1
  · intro later o ho hover
    obtain ⟨o', ho', -, -, hkept⟩ := topologyRun_keeps t later o (hfind ho)
    obtain rfl := hkept hover
    exact (Table.find?_eq_some.mp ho').1
  · intro later o ho o' ho' hkey
    have hkept := ((topologyRun_keeps t later).of_mem ho ho' hkey).2
    constructor
    · rintro ⟨hcompleted, haborted⟩
      rw [hkept (by rw [hcompleted]; rintro ⟨⟩), hcompleted] at haborted
      cases haborted
    · rintro ⟨haborted, hcompleted⟩
      rw [hkept (by rw [haborted]; rintro ⟨⟩), haborted] at hcompleted
      cases hcompleted
  · intro call o t' hcall h later nowMs htime
    obtain ⟨o', hreturns, hfind', hsame, hover⟩ :=
      call.replay hcall h (topologyRun_keeps t' later) htime
    exact ⟨o', hreturns, (Table.find?_eq_some.mp hfind').1, hsame, hover⟩
  · intro o ho call identity hcall hkey hne
    exact call.changed_throws hcall (hkey ▸ hfind ho) (Ne.symm hne)
  · intro o ho hstatus epoch nowMs hne
    exact complete_over_throws (hfind ho) (.inr ⟨hstatus, hne⟩)
  · intro o ho epoch nowMs
    exact ⟨abort_completed_throws (hfind ho), fun h => complete_over_throws (hfind ho) (.inl h)⟩
  · intro o ho hactive epoch nowMs hearly
    exact ⟨complete_early_throws (hfind ho) hactive hearly,
      abort_early_throws (hfind ho) hactive hearly⟩

end Chardb.Catalog
