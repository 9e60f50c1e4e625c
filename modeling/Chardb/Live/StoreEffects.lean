import Chardb.Live.Outbox

/-!
# What the live store operations do

One lemma for each operation: which registrations it adds, retires or removes, what
it leaves pending in the outbox, and how it moves the change clock.
-/

namespace Chardb.Live

open Chardb.Lib

/-! ## Vocabulary -/

/-- The change clock. -/
def LiveDb.changeSeq? (db : LiveDb) : Option Int := (db.clock.find? ()).map (·.changeSeq)

/-- The sequence that the outbox row of a registration carries. -/
def LiveDb.pending? (db : LiveDb) (key : RegistrationKey) : Option Int :=
  (db.outbox.find? key).map (·.changeSeq)

/-- The registration has rows of its own in the dependent tables. -/
def LiveDb.HasDependents (db : LiveDb) (key : RegistrationKey) : Prop :=
  (∃ r ∈ db.tables, r.registration = key) ∨ (∃ r ∈ db.vectors, r.registration = key) ∨
    ∃ r ∈ db.outbox, r.registration = key

def LiveDb.Active (db : LiveDb) (key : RegistrationKey) : Prop := (db.payload? key).isSome

theorem LiveDb.pending?_isSome {db : LiveDb} {key : RegistrationKey} :
    (db.pending? key).isSome ↔ ∃ r ∈ db.outbox, r.registration = key := by
  rw [pending?, Option.isSome_map, Option.isSome_iff_exists]
  simp only [Table.find?_eq_some]

theorem LiveDb.payload?_eq_some {db : LiveDb} {key : RegistrationKey} {p : SubscriptionPayload} :
    db.payload? key = some p ↔ ∃ r ∈ db.subscriptions, r.key = key ∧ r.state = .active p := by
  unfold payload?
  rw [Option.bind_eq_some_iff]
  constructor
  · rintro ⟨r, hr, hp⟩
    obtain ⟨hr, hk⟩ := Table.find?_eq_some.mp hr
    refine ⟨r, hr, hk, ?_⟩
    cases hs : r.state with
    | active q => rw [hs] at hp; cases hp; rfl
    | retired => rw [hs] at hp; cases hp
  · rintro ⟨r, hr, hk, hs⟩
    exact ⟨r, Table.find?_eq_some.mpr ⟨hr, hk⟩, by rw [hs]; rfl⟩

variable {db db' : LiveDb} {key : RegistrationKey} {seq : Int} {u : Unit}

/-! ## Reads and checks -/

theorem durableRowCount_returns {count : LiveDb → Nat} {subject : String} {n : Nat}
    (h : (durableRowCount count subject).Returns db n db') : db = db' ∧ n = count db := by
  simp only [durableRowCount, Tx.bind_returns, Tx.gets_returns, Tx.require_returns,
    Tx.pure_returns] at h
  obtain ⟨_, _, ⟨rfl, rfl⟩, _, _, ⟨-, rfl⟩, rfl, rfl⟩ := h
  exact ⟨rfl, rfl⟩

theorem currentChangeSeq_returns (h : currentChangeSeq.Returns db seq db') :
    db = db' ∧ db.changeSeq? = some seq := by
  simp only [currentChangeSeq, Tx.bind_returns, Tx.gets_returns, Tx.ofOption_returns,
    Tx.require_returns, Tx.pure_returns] at h
  obtain ⟨_, _, ⟨rfl, rfl⟩, row, _, ⟨hrow, rfl⟩, _, _, ⟨-, rfl⟩, rfl, rfl⟩ := h
  exact ⟨rfl, by rw [LiveDb.changeSeq?, hrow]; rfl⟩

theorem requireSubscription_returns {table : String}
    (h : (requireSubscription key table).Returns db u db') :
    db = db' ∧ (db.subscriptions.find? key).isSome := by
  simp only [requireSubscription, Tx.bind_returns, Tx.gets_returns, Tx.require_returns] at h
  obtain ⟨_, _, ⟨rfl, rfl⟩, hp, rfl⟩ := h
  exact ⟨rfl, hp⟩

theorem assertOutboxCapacity_returns {missing : Nat}
    (h : (assertOutboxCapacity missing).Returns db u db') : db = db' := by
  unfold assertOutboxCapacity at h
  rcases Tx.ite_returns.mp h with ⟨-, h⟩ | ⟨-, h⟩
  · simp only [Tx.bind_returns, Tx.require_returns] at h
    obtain ⟨_, _, hc, -, rfl⟩ := h
    exact (durableRowCount_returns hc).1
  · exact (Tx.pure_returns.mp h).2

/-! ## Enqueueing -/

/-- An enqueue of `seq` for the registrations in `S`. -/
structure Enqueues (S : RegistrationKey → Prop) (db db' : LiveDb) (seq : Int) : Prop where
  subscriptions : db'.subscriptions = db.subscriptions
  tables : db'.tables = db.tables
  vectors : db'.vectors = db.vectors
  clock : db'.changeSeq? = some seq
  advances : db.changeSeq? = some (seq - 1) ∨ (db.changeSeq? = some seq ∧ ∀ k, ¬ S k)
  bumped : ∀ k, S k → db'.pending? k = some (((db.pending? k).map (max · seq)).getD seq)
  other : ∀ k, ¬ S k → db'.pending? k = db.pending? k

theorem Enqueues.of_iff {S T : RegistrationKey → Prop} (h : Enqueues S db db' seq)
    (hST : ∀ k, S k ↔ T k) : Enqueues T db db' seq := by
  obtain rfl : S = T := funext fun k => propext (hST k)
  exact h

theorem advanceChangeClock_returns (h : advanceChangeClock.Returns db seq db') :
    db.changeSeq? = some (seq - 1) ∧ db'.changeSeq? = some seq ∧ db' = { db with clock := db'.clock } := by
  simp only [advanceChangeClock, onClock, Tx.bind_returns, Tx.zoom_returns, Table.update_returns,
    Tx.require_returns] at h
  obtain ⟨changes, _, ⟨clock, ⟨hu, -⟩, rfl⟩, _, _, ⟨-, rfl⟩, hcur⟩ := h
  obtain ⟨rfl, hseq⟩ := currentChangeSeq_returns hcur
  refine ⟨?_, hseq, rfl⟩
  have hfind := Table.find?_update hu (fun _ _ _ => rfl) ()
  unfold LiveDb.changeSeq? at hseq ⊢
  simp only at hseq
  rw [hfind] at hseq
  cases hc : db.clock.find? () with
  | none => rw [hc] at hseq; cases hseq
  | some row =>
    rw [hc] at hseq
    simp only [Option.map_some, if_true, Option.some.injEq] at hseq ⊢
    omega

theorem upsertOutbox_returns {keys : List RegistrationKey}
    (h : (upsertOutbox seq keys).Returns db u db') :
    db' = { db with outbox := db'.outbox } ∧ ∀ k, db'.pending? k =
      if k ∈ keys then some (((db.pending? k).map (max · seq)).getD seq) else db.pending? k := by
  induction keys generalizing db with
  | nil =>
    obtain ⟨-, rfl⟩ := Tx.pure_returns.mp h
    exact ⟨rfl, fun k => by simp⟩
  | cons key keys ih =>
    simp only [upsertOutbox, onOutbox, Tx.bind_returns, Tx.zoom_returns, Table.upsert_returns] at h
    obtain ⟨_, _, hreq, _, _, ⟨outbox, hup, rfl⟩, h⟩ := h
    obtain ⟨rfl, -⟩ := requireSubscription_returns hreq
    obtain ⟨hdb, hpend⟩ := ih h
    refine ⟨hdb, fun k => ?_⟩
    have hfirst : LiveDb.pending? { db with outbox } k =
        if k = key then some (((db.pending? k).map (max · seq)).getD seq) else db.pending? k := by
      unfold LiveDb.pending?
      rw [Table.find?_upsert hup fun _ => rfl]
      by_cases hk : key = k
      · subst hk
        cases db.outbox.find? key <;> simp [OutboxRow.bump]
      · rw [if_neg hk, if_neg fun he => hk he.symm]
    rw [hpend k, hfirst]
    by_cases hk : k = key
    · cases hp : db.pending? k <;> simp [hk]
    · simp [hk]

/-- The tail that all enqueues share, once the capacity is checked. -/
theorem enqueue_tail {keys : List RegistrationKey} {mid : LiveDb}
    (hclock : advanceChangeClock.Returns db seq mid) (hup : (upsertOutbox seq keys).Returns mid u db') :
    Enqueues (· ∈ keys) db db' seq := by
  obtain ⟨hold, hnew, hmid⟩ := advanceChangeClock_returns hclock
  obtain ⟨hdb, hpend⟩ := upsertOutbox_returns hup
  have hpending : ∀ k, mid.pending? k = db.pending? k := fun k => by rw [hmid]; rfl
  rw [hmid] at hdb
  refine ⟨by rw [hdb], by rw [hdb], by rw [hdb], ?_, .inl hold, fun k hk => ?_, fun k hk => ?_⟩
  · rw [hdb]; exact hnew
  · rw [hpend k, if_pos hk, hpending]
  · rw [hpend k, if_neg hk, hpending]

/-- An enqueue for no registration that leaves the clock alone. -/
theorem Enqueues.none (h : currentChangeSeq.Returns db seq db') : Enqueues (fun _ => False) db db' seq := by
  obtain ⟨rfl, hseq⟩ := currentChangeSeq_returns h
  exact ⟨rfl, rfl, rfl, hseq, .inr ⟨hseq, fun _ => id⟩, fun _ => False.elim, fun _ _ => rfl⟩

theorem enqueueRegistrationInvalidations_returns {keys : List RegistrationKey} {advance : Bool}
    (h : (enqueueRegistrationInvalidations keys advance).Returns db seq db') :
    Enqueues (· ∈ keys) db db' seq := by
  unfold enqueueRegistrationInvalidations at h
  rcases Tx.ite_returns.mp h with ⟨⟨hnil, -⟩, hcur⟩ | ⟨-, h⟩
  · exact (Enqueues.none hcur).of_iff fun k => by simp [hnil]
  · simp only [Tx.bind_returns, Tx.gets_returns, Tx.pure_returns] at h
    obtain ⟨_, _, ⟨-, rfl⟩, _, _, hcap, _, _, hclock, _, _, hup, rfl, rfl⟩ := h
    obtain rfl := assertOutboxCapacity_returns hcap
    exact enqueue_tail hclock hup

/-! ## The selected registrations -/

theorem mem_take_of_length_le {α : Type} {l : List α} {n : Nat} {a : α}
    (h : (l.take (n + 1)).length ≤ n) : a ∈ l.take (n + 1) ↔ a ∈ l := by
  rw [List.length_take] at h
  rw [List.take_of_length_le (by omega)]

theorem mem_activeRegistrations {p : SubscriptionPayload → Bool} {n : Nat}
    (h : (activeRegistrations db p (n + 1)).length ≤ n) :
    key ∈ activeRegistrations db p (n + 1) ↔ ∃ payload, db.payload? key = some payload ∧ p payload = true := by
  rw [activeRegistrations] at h ⊢
  rw [mem_take_of_length_le h]
  simp only [List.mem_map, Table.mem_orderBy, LiveDb.payload?_eq_some]
  constructor
  · rintro ⟨r, ⟨hr, hp⟩, rfl⟩
    cases hs : r.state with
    | active q =>
      refine ⟨q, ⟨r, hr, rfl, hs⟩, ?_⟩
      simpa [hs, RegistrationState.payload?] using hp
    | retired => simp [hs, RegistrationState.payload?] at hp
  · rintro ⟨q, ⟨r, hr, rfl, hs⟩, hp⟩
    exact ⟨r, ⟨hr, by simpa [hs, RegistrationState.payload?] using hp⟩, rfl⟩

theorem mem_touchedRegistrations {touched : List String} {n : Nat}
    (h : (touchedRegistrations db touched (n + 1)).length ≤ n) :
    key ∈ touchedRegistrations db touched (n + 1) ↔
      db.Active key ∧ ∃ m ∈ db.tables, m.registration = key ∧ m.tableName ∈ touched := by
  rw [touchedRegistrations] at h ⊢
  rw [mem_take_of_length_le h]
  simp only [List.mem_dedup, List.mem_map, Table.mem_orderBy, Bool.and_eq_true, decide_eq_true_eq]
  constructor
  · rintro ⟨m, ⟨hm, ht, hact⟩, rfl⟩
    exact ⟨hact, m, hm, rfl, ht⟩
  · rintro ⟨hact, m, hm, rfl, ht⟩
    exact ⟨m, ⟨hm, ht, hact⟩, rfl⟩

theorem mem_vectorRegistrations {resourceId : String} :
    key ∈ vectorRegistrations db resourceId ↔
      db.Active key ∧ ∃ m ∈ db.vectors, m.registration = key ∧ m.resourceId = resourceId := by
  rw [vectorRegistrations]
  simp only [List.mem_map, Table.mem_select, Bool.and_eq_true, decide_eq_true_eq]
  constructor
  · rintro ⟨m, ⟨hm, ht, hact⟩, rfl⟩
    exact ⟨hact, m, hm, rfl, ht⟩
  · rintro ⟨hact, m, hm, rfl, ht⟩
    exact ⟨m, ⟨hm, ht, hact⟩, rfl⟩

theorem enqueueInvalidations_returns {touched : List String}
    (h : (enqueueInvalidations touched).Returns db seq db') :
    Enqueues (fun k => db.Active k ∧ ∃ m ∈ db.tables, m.registration = k ∧ m.tableName ∈ touched)
      db db' seq := by
  simp only [enqueueInvalidations, Tx.bind_returns, Tx.gets_returns, Tx.require_returns] at h
  obtain ⟨keys, _, ⟨rfl, rfl⟩, _, _, ⟨hlen, rfl⟩, h⟩ := h
  refine (enqueueRegistrationInvalidations_returns h).of_iff fun k => ?_
  by_cases ht : touched = []
  · simp [ht]
  · rw [if_neg ht] at hlen ⊢
    exact mem_touchedRegistrations hlen

theorem selectActiveRegistrations_returns {p : SubscriptionPayload → Bool} {keys : List RegistrationKey}
    (h : (selectActiveRegistrations p).Returns db keys db') :
    db = db' ∧ ∀ k, k ∈ keys ↔ ∃ payload, db.payload? k = some payload ∧ p payload = true := by
  simp only [selectActiveRegistrations, Tx.bind_returns, Tx.gets_returns, Tx.require_returns,
    Tx.pure_returns] at h
  obtain ⟨_, _, ⟨rfl, rfl⟩, _, _, ⟨hlen, rfl⟩, rfl, rfl⟩ := h
  exact ⟨rfl, fun k => mem_activeRegistrations hlen⟩

theorem enqueueActiveRegistrations_returns {p : SubscriptionPayload → Bool}
    (h : (enqueueActiveRegistrations p).Returns db seq db') :
    Enqueues (fun k => ∃ payload, db.payload? k = some payload ∧ p payload = true) db db' seq := by
  simp only [enqueueActiveRegistrations, Tx.bind_returns] at h
  obtain ⟨keys, _, hsel, h⟩ := h
  obtain ⟨rfl, hkeys⟩ := selectActiveRegistrations_returns hsel
  exact (enqueueRegistrationInvalidations_returns h).of_iff hkeys

theorem enqueueAndCount_returns {p : SubscriptionPayload → Bool} {res : EnqueueResult}
    (h : (enqueueAndCount p).Returns db res db') :
    Enqueues (fun k => ∃ payload, db.payload? k = some payload ∧ p payload = true) db db'
      res.changeSeq := by
  simp only [enqueueAndCount, Tx.bind_returns] at h
  obtain ⟨keys, _, hsel, h⟩ := h
  obtain ⟨rfl, hkeys⟩ := selectActiveRegistrations_returns hsel
  rcases Tx.ite_returns.mp h with ⟨hnil, h⟩ | ⟨-, h⟩
  · simp only [Tx.bind_returns, Tx.pure_returns] at h
    obtain ⟨_, _, hcur, rfl, rfl⟩ := h
    exact (Enqueues.none hcur).of_iff fun k => by simp [← hkeys k, hnil]
  · simp only [Tx.bind_returns, Tx.pure_returns] at h
    obtain ⟨_, _, henq, rfl, rfl⟩ := h
    exact (enqueueRegistrationInvalidations_returns henq).of_iff hkeys

theorem vectorResourceId_returns {value canonical : String}
    (h : (vectorResourceId value).Returns db canonical db') :
    db = db' ∧ canonical = value ∧ isVectorResourceId value = true := by
  simp only [vectorResourceId, Tx.bind_returns, Tx.require_returns, Tx.pure_returns] at h
  obtain ⟨_, _, ⟨hv, rfl⟩, rfl, rfl⟩ := h
  exact ⟨rfl, rfl, hv⟩

theorem enqueueVectorResourceInvalidations_returns {resourceId : String} {res : EnqueueResult}
    (h : (enqueueVectorResourceInvalidations resourceId).Returns db res db') :
    Enqueues (fun k => db.Active k ∧ ∃ m ∈ db.vectors, m.registration = k ∧ m.resourceId = resourceId)
      db db' res.changeSeq := by
  simp only [enqueueVectorResourceInvalidations, Tx.bind_returns, Tx.gets_returns,
    Tx.require_returns] at h
  obtain ⟨canonical, _, hid, keys, _, ⟨rfl, rfl⟩, _, _, ⟨-, rfl⟩, _, _, ⟨-, rfl⟩, h⟩ := h
  obtain ⟨rfl, rfl, -⟩ := vectorResourceId_returns hid
  rcases Tx.ite_returns.mp h with ⟨hnil, h⟩ | ⟨-, h⟩
  · simp only [Tx.bind_returns, Tx.pure_returns] at h
    obtain ⟨_, _, hcur, rfl, rfl⟩ := h
    exact (Enqueues.none hcur).of_iff fun k => by rw [← mem_vectorRegistrations, hnil]; simp
  · simp only [Tx.bind_returns, Tx.gets_returns, Tx.require_returns, Tx.pure_returns] at h
    obtain ⟨_, _, ⟨-, rfl⟩, _, _, ⟨-, rfl⟩, _, _, hcap, _, mid, hclock, fanout, _, ⟨rfl, rfl⟩, _, _, hup,
      _, _, ⟨-, rfl⟩, rfl, rfl⟩ := h
    obtain rfl := assertOutboxCapacity_returns hcap
    refine (enqueue_tail hclock hup).of_iff fun k => ?_
    have hmid : vectorRegistrations mid canonical = vectorRegistrations db canonical := by
      rw [(advanceChangeClock_returns hclock).2.2]; rfl
    rw [hmid, mem_vectorRegistrations]

/-! ## A full outbox -/

/-- The refusal that a full store answers. -/
def RateLimited (e : Thrown) : Prop := ∃ c : CdbError, e = .cdb c ∧ c.code = .rateLimited

/-- Whatever `x` throws after its first write is not a capacity refusal. -/
def RefusesFirst {α : Type} (x : LiveTx α) : Prop :=
  ∀ ⦃db e db'⦄, x.Throws db e db' → RateLimited e → db' = db

variable {α β : Type}

theorem RefusesFirst.of_readOnly {x : LiveTx α} (hx : x.ReadOnly) : RefusesFirst x :=
  fun _ _ _ h _ => hx.atomic h

/-- A program that never refuses. -/
def NeverRefuses (x : LiveTx α) : Prop := ∀ ⦃db e db'⦄, x.Throws db e db' → ¬ RateLimited e

theorem RefusesFirst.bind {x : LiveTx α} {f : α → LiveTx β} (hx : x.ReadOnly)
    (hf : ∀ a, RefusesFirst (f a)) : RefusesFirst (x >>= f) := by
  intro db e db' h he
  rcases hx.of_bind_throws h with h | ⟨a, h⟩
  · exact h
  · exact hf a h he

theorem NeverRefuses.bind {x : LiveTx α} {f : α → LiveTx β} (hx : NeverRefuses x)
    (hf : ∀ a, NeverRefuses (f a)) : NeverRefuses (x >>= f) := by
  intro db e db' h
  rcases Tx.bind_throws.mp h with h | ⟨a, t, -, h⟩
  · exact hx h
  · exact hf a h

theorem NeverRefuses.refusesFirst {x : LiveTx α} (hx : NeverRefuses x) : RefusesFirst x :=
  fun _ _ _ h he => absurd he (hx h)

theorem NeverRefuses.pure (a : α) : NeverRefuses (pure a : LiveTx α) :=
  fun _ _ _ h => (Tx.pure_throws.mp h).elim

theorem NeverRefuses.require {p : Prop} [Decidable p] {e : Thrown} (he : ¬ RateLimited e) :
    NeverRefuses (.require p e) := by
  intro db e' db' h
  obtain ⟨-, rfl, -⟩ := Tx.require_throws.mp h
  exact he

theorem NeverRefuses.gets (f : LiveDb → α) : NeverRefuses (.gets f) :=
  fun _ _ _ h => (Tx.gets_throws.mp h).elim

theorem not_rateLimited_invariant (message : String) : ¬ RateLimited (subscriptionInvariant message) := by
  rintro ⟨c, hc, hcode⟩
  cases hc; cases hcode

theorem not_rateLimited_constraint (table : String) : ¬ RateLimited (.constraint table) := by
  rintro ⟨c, hc, -⟩; cases hc

theorem readOnly_durableRowCount (count : LiveDb → Nat) (subject : String) :
    (durableRowCount count subject).ReadOnly :=
  (Tx.readOnly_gets _).bind fun _ => (Tx.readOnly_require _ _).bind fun _ => Tx.readOnly_pure _

theorem readOnly_currentChangeSeq : currentChangeSeq.ReadOnly :=
  (Tx.readOnly_gets _).bind fun _ => (Tx.readOnly_ofOption _ _).bind fun _ =>
    (Tx.readOnly_require _ _).bind fun _ => Tx.readOnly_pure _

theorem readOnly_assertOutboxCapacity (missing : Nat) : (assertOutboxCapacity missing).ReadOnly := by
  unfold assertOutboxCapacity
  split
  · exact (readOnly_durableRowCount _ _).bind fun _ => Tx.readOnly_require _ _
  · exact Tx.readOnly_pure _

theorem neverRefuses_currentChangeSeq : NeverRefuses currentChangeSeq := by
  refine (NeverRefuses.gets _).bind fun found => ?_
  refine NeverRefuses.bind ?_ fun row =>
    (NeverRefuses.require (not_rateLimited_invariant _)).bind fun _ => NeverRefuses.pure _
  intro db e db' h
  obtain ⟨-, rfl, -⟩ := Tx.ofOption_throws.mp h
  exact not_rateLimited_invariant _

theorem neverRefuses_advanceChangeClock : NeverRefuses advanceChangeClock := by
  refine NeverRefuses.bind ?_ fun _ =>
    (NeverRefuses.require (not_rateLimited_invariant _)).bind fun _ => neverRefuses_currentChangeSeq
  intro db e db' h
  obtain ⟨_, h, -⟩ := Tx.zoom_throws.mp h
  obtain ⟨-, rfl, -⟩ := Table.update_throws.mp h
  exact not_rateLimited_constraint _

theorem neverRefuses_upsertOutbox (keys : List RegistrationKey) : NeverRefuses (upsertOutbox seq keys) := by
  induction keys with
  | nil => exact NeverRefuses.pure _
  | cons key keys ih =>
    have hreq : NeverRefuses (requireSubscription key "_chardb_invalidation_outbox") :=
      (NeverRefuses.gets _).bind fun _ => NeverRefuses.require (not_rateLimited_constraint _)
    refine hreq.bind fun _ => NeverRefuses.bind ?_ fun _ => ih
    intro db e db' h
    obtain ⟨_, h, -⟩ := Tx.zoom_throws.mp h
    obtain ⟨-, rfl, -⟩ := Table.upsert_throws.mp h
    exact not_rateLimited_constraint _

theorem refusesFirst_enqueueRegistrationInvalidations (keys : List RegistrationKey) (advance : Bool) :
    RefusesFirst (enqueueRegistrationInvalidations keys advance) := by
  unfold enqueueRegistrationInvalidations
  split
  · exact .of_readOnly readOnly_currentChangeSeq
  · refine .bind (Tx.readOnly_gets _) fun _ => .bind (readOnly_assertOutboxCapacity _) fun _ => ?_
    exact (neverRefuses_advanceChangeClock.bind fun _ =>
      (neverRefuses_upsertOutbox _).bind fun _ => NeverRefuses.pure _).refusesFirst

theorem readOnly_selectActiveRegistrations (p : SubscriptionPayload → Bool) :
    (selectActiveRegistrations p).ReadOnly :=
  (Tx.readOnly_gets _).bind fun _ => (Tx.readOnly_require _ _).bind fun _ => Tx.readOnly_pure _

theorem refusesFirst_enqueueInvalidations (touched : List String) :
    RefusesFirst (enqueueInvalidations touched) :=
  .bind (Tx.readOnly_gets _) fun _ => .bind (Tx.readOnly_require _ _) fun _ =>
    refusesFirst_enqueueRegistrationInvalidations _ _

theorem refusesFirst_enqueueActiveRegistrations (p : SubscriptionPayload → Bool) :
    RefusesFirst (enqueueActiveRegistrations p) :=
  .bind (readOnly_selectActiveRegistrations p) fun _ => refusesFirst_enqueueRegistrationInvalidations _ _

/-- Naming the result of a program changes nothing about what it refuses. -/
theorem RefusesFirst.bind_pure {x : LiveTx α} (hx : RefusesFirst x) (f : α → β) :
    RefusesFirst (x >>= fun a => pure (f a)) := by
  intro db e db' h he
  rcases Tx.bind_throws.mp h with h | ⟨a, t, -, h⟩
  · exact hx h he
  · exact (Tx.pure_throws.mp h).elim

theorem refusesFirst_enqueueAndCount (p : SubscriptionPayload → Bool) :
    RefusesFirst (enqueueAndCount p) := by
  refine .bind (readOnly_selectActiveRegistrations p) fun keys => ?_
  split
  · exact (RefusesFirst.of_readOnly readOnly_currentChangeSeq).bind_pure _
  · exact (refusesFirst_enqueueRegistrationInvalidations _ _).bind_pure _

theorem readOnly_vectorResourceId (value : String) : (vectorResourceId value).ReadOnly :=
  (Tx.readOnly_require _ _).bind fun _ => Tx.readOnly_pure _

theorem refusesFirst_enqueueVectorResourceInvalidations (resourceId : String) :
    RefusesFirst (enqueueVectorResourceInvalidations resourceId) := by
  refine .bind (readOnly_vectorResourceId _) fun _ => .bind (Tx.readOnly_gets _) fun _ =>
    .bind (Tx.readOnly_require _ _) fun _ => .bind (Tx.readOnly_require _ _) fun _ => ?_
  split
  · exact (RefusesFirst.of_readOnly readOnly_currentChangeSeq).bind_pure _
  · refine .bind (Tx.readOnly_gets _) fun _ => .bind (Tx.readOnly_require _ _) fun _ =>
      .bind (readOnly_assertOutboxCapacity _) fun _ => ?_
    exact (neverRefuses_advanceChangeClock.bind fun _ => (NeverRefuses.gets _).bind fun _ =>
      (neverRefuses_upsertOutbox _).bind fun _ =>
      (NeverRefuses.require (not_rateLimited_invariant _)).bind fun _ =>
        NeverRefuses.pure _).refusesFirst

/-! ## Subscribing -/

/-- What a subscribe leaves: a registration that is there stays as it is, one that is not may become
active, and only active registrations get rows in the dependent tables. -/
structure Subscribes (key : RegistrationKey) (db db' : LiveDb) : Prop where
  clock : db'.clock = db.clock
  outbox : db'.outbox = db.outbox
  other : ∀ k, k ≠ key → db'.subscriptions.find? k = db.subscriptions.find? k
  present : (db.subscriptions.find? key).isSome →
    db'.subscriptions.find? key = db.subscriptions.find? key
  fresh : db.subscriptions.find? key = none → db'.subscriptions.find? key = none ∨ db'.Active key
  tables : ∀ r ∈ db'.tables, r ∈ db.tables ∨ (r.registration = key ∧ db'.Active key)
  vectors : ∀ r ∈ db'.vectors, r ∈ db.vectors ∨ (r.registration = key ∧ db'.Active key)

theorem Subscribes.refl (key : RegistrationKey) (db : LiveDb) : Subscribes key db db :=
  ⟨rfl, rfl, fun _ _ => rfl, fun _ => rfl, fun h => .inl h, fun _ h => .inl h, fun _ h => .inl h⟩

theorem insertSubscriptionTables_returns {names : List String}
    (h : (insertSubscriptionTables key names).Returns db u db') :
    db' = { db with tables := db'.tables } ∧ ∀ r ∈ db'.tables, r ∈ db.tables ∨ r.registration = key := by
  induction names generalizing db with
  | nil =>
    obtain ⟨-, rfl⟩ := Tx.pure_returns.mp h
    exact ⟨rfl, fun _ h => .inl h⟩
  | cons name names ih =>
    simp only [insertSubscriptionTables, onTables, Tx.bind_returns, Tx.zoom_returns,
      Table.insert_returns] at h
    obtain ⟨_, _, hreq, _, _, ⟨tables, hins, rfl⟩, h⟩ := h
    obtain ⟨rfl, -⟩ := requireSubscription_returns hreq
    obtain ⟨hdb, hmem⟩ := ih h
    refine ⟨hdb, fun r hr => ?_⟩
    rcases hmem r hr with hr | hr
    · rcases (Table.mem_insert hins).mp hr with hr | rfl
      · exact .inl hr
      · exact .inr rfl
    · exact .inr hr

theorem subscribed_returns {s : LiveSubscriptionId} {res : CdbSubscriptionResponse}
    (h : (subscribed s).Returns db res db') : db = db' ∧ ∃ seq, res = .subscribed s seq := by
  simp only [subscribed, Tx.bind_returns, Tx.pure_returns] at h
  obtain ⟨seq, _, hcur, rfl, rfl⟩ := h
  exact ⟨(currentChangeSeq_returns hcur).1, seq, rfl⟩

section
variable {ν : Type} [JsNumber ν] {args : CdbSubscriptionRequest ν} {policyDigest payloadHash : String}
  {res : CdbSubscriptionResponse}

/-- The answer of a subscribe says whether the registration is active. -/
def CdbSubscriptionResponse.Tells (res : CdbSubscriptionResponse) (db' : LiveDb)
    (key : RegistrationKey) : Prop :=
  match res with
  | .subscribed .. => db'.Active key
  | .absent .. => db'.subscriptions.find? key = none

theorem installLiveSubscription_returns {names : List String}
    (h : (installLiveSubscription args policyDigest payloadHash names).Returns db res db')
    (hnone : db.subscriptions.find? args.subscription.key = none) :
    Subscribes args.subscription.key db db' ∧ res.Tells db' args.subscription.key := by
  simp only [installLiveSubscription, Tx.bind_returns] at h
  obtain ⟨_, _, hrows, h⟩ := h
  obtain ⟨rfl, -⟩ := durableRowCount_returns hrows
  rcases Tx.ite_returns.mp h with ⟨-, h⟩ | ⟨-, h⟩
  · obtain ⟨rfl, rfl⟩ := Tx.pure_returns.mp h
    exact ⟨.refl _ _, hnone⟩
  obtain ⟨_, _, hact, h⟩ := Tx.bind_returns.mp h
  obtain ⟨rfl, -⟩ := durableRowCount_returns hact
  rcases Tx.ite_returns.mp h with ⟨-, h⟩ | ⟨-, h⟩
  · obtain ⟨rfl, rfl⟩ := Tx.pure_returns.mp h
    exact ⟨.refl _ _, hnone⟩
  simp only [onSubscriptions, Tx.bind_returns, Tx.zoom_returns, Table.insert_returns] at h
  obtain ⟨_, _, ⟨subs, hins, rfl⟩, _, last, htab, h⟩ := h
  obtain ⟨rfl, seq, rfl⟩ := subscribed_returns h
  obtain ⟨hdb, hmem⟩ := insertSubscriptionTables_returns htab
  have hfind : ∀ k, subs.find? k = if args.subscription.key = k then
      some (subscriptionRow args policyDigest payloadHash) else db.subscriptions.find? k :=
    Table.find?_insert hins
  have hsubs : last.subscriptions = subs := by rw [hdb]
  have hactive : last.Active args.subscription.key := by
    rw [LiveDb.Active, LiveDb.payload?, hsubs, hfind, if_pos rfl]; rfl
  refine ⟨⟨by rw [hdb], by rw [hdb], fun k hk => ?_, fun h => ?_, fun _ => .inr hactive,
    fun r hr => (hmem r hr).imp_right fun h => ⟨h, hactive⟩, fun r hr => .inl (by rw [hdb] at hr; exact hr)⟩,
    hactive⟩
  · rw [hsubs, hfind, if_neg fun he => hk he.symm]
  · rw [hnone] at h; cases h

omit [JsNumber ν] in
theorem assertReplayedSubscription_returns {names : List String} {existing : StoredSubscriptionRow}
    (h : (assertReplayedSubscription args payloadHash names existing).Returns db u db') :
    db = db' ∧ existing.state ≠ .retired := by
  simp only [assertReplayedSubscription, assertSubscriptionTables, Tx.bind_returns, Tx.require_returns,
    Tx.gets_returns] at h
  obtain ⟨_, _, ⟨-, rfl⟩, _, _, ⟨hret, rfl⟩, _, _, ⟨-, rfl⟩, _, _, ⟨-, rfl⟩, -, rfl⟩ := h
  exact ⟨rfl, hret⟩

theorem LiveDb.active_of_find? {row : StoredSubscriptionRow} (h : db.subscriptions.find? key = some row)
    (hret : row.state ≠ .retired) : db.Active key := by
  rw [LiveDb.Active, LiveDb.payload?, h]
  cases hs : row.state with
  | active p => simp [hs, RegistrationState.payload?]
  | retired => exact absurd hs hret

theorem persistLiveSubscription_returns {sha256Hex : String → String}
    (h : (persistLiveSubscription sha256Hex args policyDigest).Returns db res db') :
    Subscribes args.subscription.key db db' ∧ res.Tells db' args.subscription.key := by
  simp only [persistLiveSubscription, Tx.bind_returns, Tx.gets_returns] at h
  obtain ⟨existing, _, ⟨hex, rfl⟩, h⟩ := h
  cases existing with
  | some row =>
    obtain ⟨_, _, hrep, h⟩ := Tx.bind_returns.mp h
    obtain ⟨rfl, hret⟩ := assertReplayedSubscription_returns hrep
    obtain ⟨rfl, seq, rfl⟩ := subscribed_returns h
    exact ⟨.refl _ _, LiveDb.active_of_find? hex.symm hret⟩
  | none => exact installLiveSubscription_returns h hex.symm

theorem persistVectorDependency_returns {canonical : String}
    (h : (persistVectorDependency key canonical).Returns db u db') :
    db' = { db with vectors := db'.vectors } ∧ ∀ r ∈ db'.vectors, r ∈ db.vectors ∨ r.registration = key := by
  simp only [persistVectorDependency, Tx.bind_returns, Tx.gets_returns] at h
  obtain ⟨existing, _, ⟨-, rfl⟩, h⟩ := h
  cases existing with
  | some row =>
    obtain ⟨-, rfl⟩ := Tx.require_returns.mp h
    exact ⟨rfl, fun _ h => .inl h⟩
  | none =>
    simp only [onVectors, Tx.bind_returns, Tx.zoom_returns, Table.insert_returns] at h
    obtain ⟨_, _, hreq, vectors, hins, rfl⟩ := h
    obtain ⟨rfl, -⟩ := requireSubscription_returns hreq
    refine ⟨rfl, fun r hr => ?_⟩
    rcases (Table.mem_insert hins).mp hr with hr | rfl
    · exact .inl hr
    · exact .inr rfl

theorem persistWithVectorDependency_returns {sha256Hex : String → String} {resourceId : String}
    (h : (persistLiveSubscriptionWithVectorDependency sha256Hex args policyDigest resourceId).Returns
      db res db') :
    Subscribes args.subscription.key db db' ∧ res.Tells db' args.subscription.key := by
  simp only [persistLiveSubscriptionWithVectorDependency, Tx.bind_returns] at h
  obtain ⟨canonical, _, hid, response, mid, hper, h⟩ := h
  obtain ⟨rfl, -, -⟩ := vectorResourceId_returns hid
  obtain ⟨hsub, htell⟩ := persistLiveSubscription_returns hper
  cases response with
  | absent s e =>
    obtain ⟨rfl, rfl⟩ := Tx.pure_returns.mp h
    exact ⟨hsub, htell⟩
  | subscribed s seq =>
    simp only [Tx.bind_returns, Tx.pure_returns] at h
    obtain ⟨_, last, hvec, rfl, rfl⟩ := h
    obtain ⟨hdb, hmem⟩ := persistVectorDependency_returns hvec
    have hsubs : last.subscriptions = mid.subscriptions := by rw [hdb]
    have hactive : ∀ k, last.Active k ↔ mid.Active k := fun k => by
      rw [LiveDb.Active, LiveDb.payload?, hsubs]; rfl
    refine ⟨⟨?_, ?_, ?_, ?_, ?_, ?_, ?_⟩, (hactive _).mpr htell⟩
    · rw [hdb]; exact hsub.clock
    · rw [hdb]; exact hsub.outbox
    · rw [hsubs]; exact hsub.other
    · rw [hsubs]; exact hsub.present
    · exact fun _ => .inr ((hactive _).mpr htell)
    · intro r hr
      rw [hdb] at hr
      exact (hsub.tables r hr).imp_right fun h => ⟨h.1, (hactive _).mpr h.2⟩
    · intro r hr
      rcases hmem r hr with hr | hr
      · exact (hsub.vectors r hr).imp_right fun h => ⟨h.1, (hactive _).mpr h.2⟩
      · exact .inr ⟨hr, (hactive _).mpr htell⟩

end

/-! ## Unsubscribing -/

/-- The store without what depends on the registrations in `p`. -/
def LiveDb.dropDependents (db : LiveDb) (p : RegistrationKey → Bool) : LiveDb :=
  { db with
    tables := db.tables.deleteWhere fun r => p r.registration
    vectors := db.vectors.deleteWhere fun r => p r.registration
    outbox := db.outbox.deleteWhere fun r => p r.registration }

theorem LiveDb.dropDependents_pending? (db : LiveDb) (p : RegistrationKey → Bool) (k : RegistrationKey) :
    (db.dropDependents p).pending? k = if p k = true then none else db.pending? k := by
  unfold LiveDb.pending?
  show ((db.outbox.deleteWhere fun r => p r.registration).find? k).map _ = _
  rw [Table.find?_deleteWhere]
  cases h : db.outbox.find? k with
  | none => simp
  | some r =>
    obtain ⟨-, rfl⟩ := Table.find?_eq_some.mp h
    by_cases hp : p r.registration = true <;> simp [Option.filter, hp]

theorem deleteDependents_returns {p : RegistrationKey → Bool}
    (h : (deleteDependents p).Returns db u db') : db' = db.dropDependents p := by
  simp only [deleteDependents, onTables, onVectors, onOutbox, Tx.bind_returns, Tx.zoom_returns,
    Table.delete_returns, Tx.pure_returns] at h
  obtain ⟨_, _, ⟨_, ⟨rfl, -⟩, rfl⟩, _, _, ⟨_, ⟨rfl, -⟩, rfl⟩, _, _, ⟨_, ⟨rfl, -⟩, rfl⟩, -, rfl⟩ := h
  rfl

/-- A registration became a tombstone, or went away, with all that depends on it. -/
structure Unsubscribes (key : RegistrationKey) (db db' : LiveDb) : Prop where
  clock : db'.clock = db.clock
  tables : ∀ r ∈ db'.tables, r ∈ db.tables ∧ r.registration ≠ key
  vectors : ∀ r ∈ db'.vectors, r ∈ db.vectors ∧ r.registration ≠ key
  pending : ∀ k, db'.pending? k = if k = key then none else db.pending? k
  gone : ¬ db'.Active key
  other : ∀ k, k ≠ key → db'.subscriptions.find? k = db.subscriptions.find? k

theorem Unsubscribes.of_drop {subs : SubscriptionTable} {p : RegistrationKey → Bool}
    (hp : ∀ k, p k = true ↔ k = key) (hgone : ∀ r ∈ subs.find? key, r.state = .retired)
    (hother : ∀ k, k ≠ key → subs.find? k = db.subscriptions.find? k) :
    Unsubscribes key db (LiveDb.dropDependents { db with subscriptions := subs } p) where
  clock := rfl
  tables r hr := by
    obtain ⟨hr, hd⟩ := Table.mem_deleteWhere.mp hr
    exact ⟨hr, fun he => Bool.eq_false_iff.mp hd ((hp _).mpr he)⟩
  vectors r hr := by
    obtain ⟨hr, hd⟩ := Table.mem_deleteWhere.mp hr
    exact ⟨hr, fun he => Bool.eq_false_iff.mp hd ((hp _).mpr he)⟩
  pending k := by
    rw [LiveDb.dropDependents_pending?]
    simp only [hp]
    rfl
  gone := by
    show ¬ (Option.bind (subs.find? key) _).isSome
    cases hf : subs.find? key with
    | none => simp
    | some r => simp [hgone r hf, RegistrationState.payload?]
  other := hother

theorem readOnly_assertTombstoneCapacity (s : LiveSubscriptionId) (existing : Bool) :
    (assertTombstoneCapacity s existing).ReadOnly :=
  (readOnly_durableRowCount _ _).bind fun _ => (Tx.readOnly_require _ _).bind fun _ =>
    (readOnly_durableRowCount _ _).bind fun _ => Tx.readOnly_require _ _

theorem readOnly_assertRetirementCapacity (s : LiveSubscriptionId)
    (existing : Option StoredSubscriptionRow) : (assertRetirementCapacity s existing).ReadOnly := by
  unfold assertRetirementCapacity
  split
  · exact readOnly_assertTombstoneCapacity _ _
  · exact Tx.readOnly_pure _

theorem retireLiveSubscription_returns {s : LiveSubscriptionId}
    (h : (retireLiveSubscription s).Returns db u db') : Unsubscribes s.key db db' := by
  simp only [retireLiveSubscription, Tx.bind_returns, Tx.gets_returns, Tx.require_returns,
    onSubscriptions, Tx.zoom_returns, Table.upsert_returns] at h
  obtain ⟨existing, _, ⟨-, rfl⟩, _, _, ⟨-, rfl⟩, _, _, hcap, _, _, ⟨subs, hup, rfl⟩, h⟩ := h
  obtain rfl := (readOnly_assertRetirementCapacity _ _).returns hcap
  have hfind : ∀ k, subs.find? k = if s.key = k then some (((db.subscriptions.find? k).map
      fun row => { row with state := .retired }).getD ⟨s, .retired⟩) else db.subscriptions.find? k :=
    Table.find?_upsert hup fun _ => rfl
  obtain rfl := deleteDependents_returns h
  refine .of_drop (fun k => decide_eq_true_iff) (fun r hr => ?_) fun k hk => ?_
  · rw [hfind, if_pos rfl] at hr
    obtain rfl := Option.mem_some_iff.mp hr
    cases db.subscriptions.find? s.key <;> rfl
  · rw [hfind, if_neg fun he => hk he.symm]

theorem finalizeRetiredLiveSubscription_returns {s : LiveSubscriptionId}
    (h : (finalizeRetiredLiveSubscription s).Returns db u db') :
    db' = db ∨ Unsubscribes s.key db db' := by
  simp only [finalizeRetiredLiveSubscription, Tx.bind_returns, Tx.gets_returns] at h
  obtain ⟨existing, _, ⟨hex, rfl⟩, h⟩ := h
  cases existing with
  | none => exact .inl (Tx.pure_returns.mp h).2.symm
  | some row =>
    right
    simp only [deleteSubscriptions, onSubscriptions, Tx.bind_returns, Tx.gets_returns,
      Tx.require_returns, Tx.zoom_returns, Table.delete_returns, Tx.pure_returns] at h
    obtain ⟨_, _, ⟨hid, rfl⟩, _, _, ⟨hret, rfl⟩, _, _, ⟨deleted, _, ⟨rfl, rfl⟩, n, _,
      ⟨_, ⟨rfl, rfl⟩, rfl⟩, _, _, hdel, rfl, rfl⟩, -, rfl⟩ := h
    obtain rfl := deleteDependents_returns hdel
    obtain ⟨hrow, hkey⟩ := Table.find?_eq_some.mp hex.symm
    have hp : ∀ x ∈ db.subscriptions, ((decide (x.subscription = s) && decide (x.state = .retired)) = true ↔
        x.key = s.key) := by
      intro x hx
      simp only [Bool.and_eq_true, decide_eq_true_eq]
      constructor
      · rintro ⟨rfl, -⟩; rfl
      · intro hk
        rw [Table.eq_of_key hx hrow (hk.trans hkey.symm)]
        exact ⟨hid, hret⟩
    have hdeleted : ∀ k, k ∈ (db.subscriptions.select fun x =>
        decide (x.subscription = s) && decide (x.state = .retired)).map StoredSubscriptionRow.key ↔ k = s.key := by
      intro k
      simp only [List.mem_map, Table.mem_select]
      constructor
      · rintro ⟨x, ⟨hx, hpx⟩, rfl⟩; exact (hp x hx).mp hpx
      · rintro rfl; exact ⟨row, ⟨hrow, (hp row hrow).mpr hkey⟩, hkey⟩
    have hfind : ∀ k, (db.subscriptions.deleteWhere fun x =>
        decide (x.subscription = s) && decide (x.state = .retired)).find? k =
          if k = s.key then none else db.subscriptions.find? k := by
      intro k
      rw [Table.find?_deleteWhere]
      cases hf : db.subscriptions.find? k with
      | none => simp
      | some x =>
        obtain ⟨hx, rfl⟩ := Table.find?_eq_some.mp hf
        by_cases hk : x.key = s.key
        · rw [if_pos hk, Option.filter_some, (hp x hx).mpr hk]; rfl
        · rw [if_neg hk, Option.filter_some, Bool.eq_false_iff.mpr fun h => hk ((hp x hx).mp h)]; rfl
    refine .of_drop (fun k => decide_eq_true_iff.trans (hdeleted k)) (fun r hr => ?_) fun k hk => ?_
    · rw [hfind, if_pos rfl] at hr; cases hr
    · rw [hfind, if_neg hk]

/-! ## Delivery -/

theorem recordInvalidationFailures_returns {rows : List StoredInvalidationRow} {nowMs : Int}
    {retryDelayMs : Int → Int} {message : String}
    (h : (recordInvalidationFailures nowMs retryDelayMs message rows).Returns db u db') :
    db' = { db with outbox := db'.outbox } ∧ ∀ k, db'.pending? k = db.pending? k := by
  induction rows generalizing db with
  | nil =>
    obtain ⟨-, rfl⟩ := Tx.pure_returns.mp h
    exact ⟨rfl, fun _ => rfl⟩
  | cons row rows ih =>
    simp only [recordInvalidationFailures, onOutbox, Tx.bind_returns, Tx.zoom_returns,
      Table.update_returns] at h
    obtain ⟨_, _, ⟨outbox, ⟨hu, -⟩, rfl⟩, h⟩ := h
    obtain ⟨hdb, hpend⟩ := ih h
    refine ⟨hdb, fun k => ?_⟩
    rw [hpend k]
    unfold LiveDb.pending?
    rw [Table.find?_update hu fun _ _ _ => rfl]
    cases db.outbox.find? k with
    | none => rfl
    | some r =>
      simp only [Option.map_some, Option.some.injEq]
      split <;> rfl

theorem acknowledgeInvalidations_returns {gatewayId : String} {acks : List GatewayInvalidationAck}
    (h : (acknowledgeInvalidations gatewayId acks).Returns db u db') :
    db' = { db with outbox := db'.outbox } ∧ ∀ k,
      (db'.pending? k = db.pending? k ∨ (db'.pending? k = none ∧
        ∃ ack ∈ acks, k = (gatewayId, ack.registrationId) ∧ db.pending? k = some ack.changeSeq)) := by
  induction acks generalizing db with
  | nil =>
    obtain ⟨-, rfl⟩ := Tx.pure_returns.mp h
    exact ⟨rfl, fun _ => .inl rfl⟩
  | cons ack acks ih =>
    simp only [acknowledgeInvalidations, onOutbox, Tx.bind_returns, Tx.zoom_returns,
      Table.delete_returns] at h
    obtain ⟨_, _, ⟨_, ⟨rfl, -⟩, rfl⟩, h⟩ := h
    obtain ⟨hdb, hpend⟩ := ih h
    refine ⟨hdb, fun k => ?_⟩
    have hfirst : LiveDb.pending? { db with outbox := db.outbox.deleteWhere (fun r =>
          decide (r.registration = (gatewayId, ack.registrationId)) &&
            decide (r.changeSeq = ack.changeSeq)) } k =
        if k = (gatewayId, ack.registrationId) ∧ db.pending? k = some ack.changeSeq then none
        else db.pending? k := by
      unfold LiveDb.pending?
      rw [Table.find?_deleteWhere]
      cases hf : db.outbox.find? k with
      | none => simp
      | some r =>
        obtain ⟨-, rfl⟩ := Table.find?_eq_some.mp hf
        by_cases hk : r.registration = (gatewayId, ack.registrationId) <;>
          by_cases hs : r.changeSeq = ack.changeSeq <;> simp [Option.filter, hk, hs]
    rcases hpend k with h | ⟨hnone, a, ha, hk, hs⟩
    · rw [h, hfirst]
      split
      · rename_i hd
        exact .inr ⟨rfl, ack, List.mem_cons_self, hd.1, hd.2⟩
      · exact .inl rfl
    · rw [hfirst] at hs
      split at hs
      · cases hs
      · exact .inr ⟨hnone, a, List.mem_cons_of_mem _ ha, hk, hs⟩

end Chardb.Live
