import Chardb.Live.StoreEffects
import Mathlib.Order.Bounds.Basic

/-!
# Live invalidations are never lost

A run of the live store over its transactions, with the sequences enqueued for and
acknowledged by each registration since it became active kept beside it. Whatever
acknowledgements arrive, and however late, an active registration whose newest
sequence was not acknowledged still has that sequence in the outbox.
-/

namespace Chardb.Live

open Chardb.Lib

/-! ## The transactions -/

inductive EnqueueOp
  | mutation (touchedTables : List String)
  | recoveryGeneration (recoveryGeneration : Int)
  | vectorResource (resourceId : String)
  | routingFence (rangeLo rangeHi : Int)
  | schemaMigration
  | authScope (scope : AuthScope) (scopeId : String)

/-- The enqueue, and the sequence it gave out. -/
def EnqueueOp.run : EnqueueOp → LiveTx Int
  | .mutation touchedTables => enqueueInvalidations touchedTables
  | .recoveryGeneration generation => enqueueRecoveryGenerationInvalidations generation
  | .vectorResource resourceId => do
    let result ← enqueueVectorResourceInvalidations resourceId
    pure result.changeSeq
  | .routingFence rangeLo rangeHi => enqueueRoutingFenceInvalidations rangeLo rangeHi
  | .schemaMigration => do
    let result ← enqueueSchemaMigrationInvalidations
    pure result.changeSeq
  | .authScope scope scopeId => do
    let result ← enqueueAuthScopeInvalidations scope scopeId
    pure result.changeSeq

/-- The registrations an enqueue is for: active ones that read what changed. -/
def EnqueueOp.Affects (op : EnqueueOp) (db : LiveDb) (key : RegistrationKey) : Prop :=
  match op with
  | .mutation touchedTables =>
    db.Active key ∧ ∃ m ∈ db.tables, m.registration = key ∧ m.tableName ∈ touchedTables
  | .recoveryGeneration generation => ∃ p, db.payload? key = some p ∧ p.recoveryGeneration < generation
  | .vectorResource resourceId =>
    db.Active key ∧ ∃ m ∈ db.vectors, m.registration = key ∧ m.resourceId = resourceId
  | .routingFence rangeLo rangeHi =>
    ∃ p, db.payload? key = some p ∧ rangeLo ≤ p.vshard ∧ p.vshard ≤ rangeHi
  | .schemaMigration => db.Active key
  | .authScope scope scopeId => ∃ p, db.payload? key = some p ∧ scope.holds scopeId p = true

/-- The enqueues of one transaction. -/
def enqueueAll : List EnqueueOp → LiveTx (List Int)
  | [] => pure []
  | op :: ops => do
    let seq ← op.run
    let seqs ← enqueueAll ops
    pure (seq :: seqs)

/-- A transaction on the live store. -/
inductive LiveCall (ν : Type)
  | subscribe (args : CdbSubscriptionRequest ν) (policyDigest : String) (vectorResource : Option String)
  | unsubscribe (subscription : LiveSubscriptionId)
  | finalizeUnsubscribe (subscription : LiveSubscriptionId)
  /-- A commit that enqueues, along with whatever else it writes. -/
  | commit (ops : List EnqueueOp)
  | due (nowMs : Int)
  | recordFailures (nowMs : Int) (retryDelayMs : Int → Int) (errorMessage : String)
      (rows : List StoredInvalidationRow)
  | acknowledge (gatewayId : String) (acknowledgements : List GatewayInvalidationAck)

inductive LiveOutcome
  | response (response : CdbSubscriptionResponse)
  | sequences (seqs : List Int)
  | rows (rows : List StoredInvalidationRow)
  | done

variable {ν : Type} [JsNumber ν] (sha256Hex : String → String)

def LiveCall.run : LiveCall ν → LiveTx LiveOutcome
  | .subscribe args policyDigest none =>
    .response <$> persistLiveSubscription sha256Hex args policyDigest
  | .subscribe args policyDigest (some resourceId) =>
    .response <$> persistLiveSubscriptionWithVectorDependency sha256Hex args policyDigest resourceId
  | .unsubscribe subscription => (fun _ => .done) <$> retireLiveSubscription subscription
  | .finalizeUnsubscribe subscription =>
    (fun _ => .done) <$> finalizeRetiredLiveSubscription subscription
  | .commit ops => .sequences <$> enqueueAll ops
  | .due nowMs => .rows <$> dueInvalidations nowMs
  | .recordFailures nowMs retryDelayMs errorMessage rows =>
    (fun _ => .done) <$> recordInvalidationFailures nowMs retryDelayMs errorMessage rows
  | .acknowledge gatewayId acks => (fun _ => .done) <$> acknowledgeInvalidations gatewayId acks

/-! ## Runs -/

/-- The store, and what was enqueued for and acknowledged by each registration since it became
active. -/
structure World where
  db : LiveDb
  enqueued : RegistrationKey → Set Int
  acknowledged : RegistrationKey → Set Int

def World.initial : World := ⟨.initial, fun _ => ∅, fun _ => ∅⟩

omit [JsNumber ν] in
/-- What a commit enqueued for a registration. -/
def LiveCall.enqueues (call : LiveCall ν) (outcome : LiveOutcome) (db : LiveDb)
    (key : RegistrationKey) : Set Int :=
  match call, outcome with
  | .commit ops, .sequences seqs => {s | ∃ p ∈ ops.zip seqs, p.1.Affects db key ∧ s = p.2}
  | _, _ => ∅

omit [JsNumber ν] in
def LiveCall.acknowledges (call : LiveCall ν) (key : RegistrationKey) : Set Int :=
  match call with
  | .acknowledge gatewayId acks =>
    {s | ∃ ack ∈ acks, key = (gatewayId, ack.registrationId) ∧ s = ack.changeSeq}
  | _ => ∅

omit [JsNumber ν] in
/-- A subscribe that does not find its registration starts its history anew. -/
def LiveCall.Starts (call : LiveCall ν) (db : LiveDb) (key : RegistrationKey) : Prop :=
  match call with
  | .subscribe args _ _ => key = args.subscription.key ∧ db.subscriptions.find? key = none
  | _ => False

/-- One transaction: it commits, or it throws and is rolled back. -/
def World.step (w : World) (call : LiveCall ν) : World :=
  match Tx.transactionSync (call.run sha256Hex) w.db with
  | (.ok outcome, db) =>
    { db
      enqueued := fun k =>
        {s | s ∈ w.enqueued k ∧ ¬ call.Starts w.db k} ∪ call.enqueues outcome w.db k
      acknowledged := fun k =>
        {s | s ∈ w.acknowledged k ∧ ¬ call.Starts w.db k} ∪ call.acknowledges k }
  | (.error _, db) => { w with db }

def World.run (w : World) (calls : List (LiveCall ν)) : World := calls.foldl (World.step sha256Hex) w

/-! ## One enqueue -/

variable {sha256Hex} {db db' : LiveDb} {key : RegistrationKey} {seq : Int}

theorem EnqueueOp.run_returns {op : EnqueueOp} (h : op.run.Returns db seq db') :
    Enqueues (op.Affects db) db db' seq := by
  cases op with
  | mutation touchedTables => exact enqueueInvalidations_returns h
  | recoveryGeneration generation =>
    simp only [run, enqueueRecoveryGenerationInvalidations, Tx.bind_returns, Tx.require_returns] at h
    obtain ⟨_, _, ⟨-, rfl⟩, h⟩ := h
    exact (enqueueActiveRegistrations_returns h).of_iff fun k => by simp [Affects]
  | vectorResource resourceId =>
    simp only [run, Tx.bind_returns, Tx.pure_returns] at h
    obtain ⟨result, _, h, rfl, rfl⟩ := h
    exact enqueueVectorResourceInvalidations_returns h
  | routingFence rangeLo rangeHi =>
    exact (enqueueActiveRegistrations_returns h).of_iff fun k => by simp [Affects]
  | schemaMigration =>
    simp only [run, Tx.bind_returns, Tx.pure_returns] at h
    obtain ⟨result, _, h, rfl, rfl⟩ := h
    exact (enqueueAndCount_returns h).of_iff fun k => by
      simp [Affects, LiveDb.Active, Option.isSome_iff_exists]
  | authScope scope scopeId =>
    simp only [run, Tx.bind_returns, Tx.pure_returns] at h
    obtain ⟨result, _, h, rfl, rfl⟩ := h
    exact enqueueAndCount_returns h

theorem EnqueueOp.run_refusesFirst (op : EnqueueOp) : RefusesFirst op.run := by
  cases op with
  | mutation touchedTables => exact refusesFirst_enqueueInvalidations _
  | recoveryGeneration generation =>
    exact .bind (Tx.readOnly_require _ _) fun _ => refusesFirst_enqueueActiveRegistrations _
  | vectorResource resourceId =>
    exact (refusesFirst_enqueueVectorResourceInvalidations _).bind_pure _
  | routingFence rangeLo rangeHi => exact refusesFirst_enqueueActiveRegistrations _
  | schemaMigration => exact (refusesFirst_enqueueAndCount _).bind_pure _
  | authScope scope scopeId => exact (refusesFirst_enqueueAndCount _).bind_pure _

theorem EnqueueOp.Affects.active {op : EnqueueOp} (h : op.Affects db key) : db.Active key := by
  cases op with
  | mutation touchedTables => exact h.1
  | vectorResource resourceId => exact h.1
  | schemaMigration => exact h
  | recoveryGeneration generation =>
    obtain ⟨p, hp, -⟩ := h
    rw [LiveDb.Active, hp]; rfl
  | routingFence rangeLo rangeHi =>
    obtain ⟨p, hp, -⟩ := h
    rw [LiveDb.Active, hp]; rfl
  | authScope scope scopeId =>
    obtain ⟨p, hp, -⟩ := h
    rw [LiveDb.Active, hp]; rfl

theorem Enqueues.affects {S : RegistrationKey → Prop} (h : Enqueues S db db' seq) (op : EnqueueOp) :
    op.Affects db' = op.Affects db := by
  have hp : db'.payload? = db.payload? := by
    funext k; unfold LiveDb.payload?; rw [h.subscriptions]
  have ha : db'.Active = db.Active := by
    funext k; unfold LiveDb.Active; rw [hp]
  funext k
  cases op <;> simp only [EnqueueOp.Affects, hp, ha, h.tables, h.vectors]

/-! ## The invariant -/

/-- The newest unacknowledged sequence of every active registration is pending, and only active
registrations have rows. -/
structure Covered (db : LiveDb) (enqueued acknowledged : RegistrationKey → Set Int) : Prop where
  tables : ∀ r ∈ db.tables, db.Active r.registration
  vectors : ∀ r ∈ db.vectors, db.Active r.registration
  pending : ∀ k, (db.pending? k).isSome → db.Active k
  clock : ∃ c, db.changeSeq? = some c ∧ (∀ k s, db.pending? k = some s → s ≤ c) ∧
    ∀ k, db.Active k → ∀ s ∈ enqueued k, s ≤ c
  covered : ∀ k, db.Active k → ∀ H, IsGreatest (enqueued k) H →
    H ∈ acknowledged k ∨ db.pending? k = some H

variable {E A : RegistrationKey → Set Int}

theorem covered_initial : Covered .initial (fun _ => ∅) fun _ => ∅ where
  tables r hr := absurd hr Table.not_mem_empty
  vectors r hr := absurd hr Table.not_mem_empty
  pending k hk := by cases hk
  clock := by
    refine ⟨0, rfl, ?_, ?_⟩
    · intro k s hs; cases hs
    · intro k hk; cases hk
  covered k h := by cases h

/-- An enqueue leaves the new sequence pending for all it is for. -/
theorem Covered.enqueue {op : EnqueueOp} (hc : Covered db E A)
    (h : Enqueues (op.Affects db) db db' seq) :
    Covered db' (fun k => {s | s ∈ E k ∨ (op.Affects db k ∧ s = seq)}) A := by
  have hactive : ∀ k, db'.Active k ↔ db.Active k := fun k => by
    unfold LiveDb.Active LiveDb.payload?; rw [h.subscriptions]
  obtain ⟨c, hclock, hpend, henq⟩ := hc.clock
  have hle : c ≤ seq := by
    rcases h.advances with ha | ⟨ha, -⟩ <;> rw [hclock] at ha <;> cases ha <;> omega
  -- a registration that is affected gets a sequence above all before it
  have hnew : ∀ k, op.Affects db k → c < seq ∧ db'.pending? k = some seq := by
    intro k hk
    have hlt : c < seq := by
      rcases h.advances with ha | ⟨-, hno⟩
      · rw [hclock] at ha; cases ha; omega
      · exact absurd hk (hno k)
    refine ⟨hlt, ?_⟩
    rw [h.bumped k hk]
    cases hp : db.pending? k with
    | none => rfl
    | some s =>
      have := hpend k s hp
      simp only [Option.map_some, Option.getD_some, Option.some.injEq]
      omega
  refine ⟨fun r hr => ?_, fun r hr => ?_, fun k hk => ?_, ⟨seq, h.clock, fun k s hs => ?_, fun k hk s hs => ?_⟩,
    fun k hk H hH => ?_⟩
  · rw [h.tables] at hr; exact (hactive _).mpr (hc.tables r hr)
  · rw [h.vectors] at hr; exact (hactive _).mpr (hc.vectors r hr)
  · by_cases hS : op.Affects db k
    · exact (hactive k).mpr hS.active
    · rw [h.other k hS] at hk; exact (hactive k).mpr (hc.pending k hk)
  · by_cases hS : op.Affects db k
    · rw [(hnew k hS).2] at hs; cases hs; exact le_rfl
    · rw [h.other k hS] at hs; exact (hpend k s hs).trans hle
  · rcases hs with hs | ⟨-, rfl⟩
    · exact (henq k ((hactive k).mp hk) s hs).trans hle
    · exact le_rfl
  · by_cases hS : op.Affects db k
    · obtain ⟨hlt, hp⟩ := hnew k hS
      have hHle : seq ≤ H := hH.2 (.inr ⟨hS, rfl⟩)
      rcases hH.1 with hs | ⟨-, rfl⟩
      · have := henq k ((hactive k).mp hk) H hs
        omega
      · exact .inr hp
    · have hset : {s | s ∈ E k ∨ (op.Affects db k ∧ s = seq)} = E k := by
        ext s; simp [hS]
      rw [hset] at hH
      rw [h.other k hS]
      exact hc.covered k ((hactive k).mp hk) H hH

theorem Covered.enqueueAll {ops : List EnqueueOp} {seqs : List Int} (hc : Covered db E A)
    (h : (enqueueAll ops).Returns db seqs db') :
    Covered db' (fun k => E k ∪ {s | ∃ p ∈ ops.zip seqs, p.1.Affects db k ∧ s = p.2}) A := by
  induction ops generalizing db E seqs with
  | nil =>
    obtain ⟨rfl, rfl⟩ := Tx.pure_returns.mp h
    simpa using hc
  | cons op ops ih =>
    simp only [Live.enqueueAll, Tx.bind_returns, Tx.pure_returns] at h
    obtain ⟨seq, mid, hop, rest, _, hrest, rfl, rfl⟩ := h
    have henq := EnqueueOp.run_returns hop
    have := ih (hc.enqueue henq) hrest
    convert this using 2 with k
    ext s
    simp only [List.zip_cons_cons, List.mem_cons, henq.affects, Set.mem_union, Set.mem_ofPred_eq,
      exists_eq_or_imp, or_assoc]

theorem enqueueAll_clock {ops : List EnqueueOp} {seqs : List Int} {c : Int}
    (h : (enqueueAll ops).Returns db seqs db') (hc : db.changeSeq? = some c) :
    ∃ c', db'.changeSeq? = some c' ∧ c ≤ c' := by
  induction ops generalizing db c seqs with
  | nil =>
    obtain ⟨-, rfl⟩ := Tx.pure_returns.mp h
    exact ⟨c, hc, le_rfl⟩
  | cons op ops ih =>
    simp only [Live.enqueueAll, Tx.bind_returns, Tx.pure_returns] at h
    obtain ⟨seq, mid, hop, rest, _, hrest, -, rfl⟩ := h
    have henq := EnqueueOp.run_returns hop
    have hle : c ≤ seq := by
      rcases henq.advances with ha | ⟨ha, -⟩ <;> rw [hc] at ha <;> cases ha <;> omega
    obtain ⟨c', hc', hle'⟩ := ih hrest henq.clock
    exact ⟨c', hc', hle.trans hle'⟩

/-! ## The other transactions -/

/-- A transaction that leaves registrations, clock and outbox sequences alone. -/
theorem Covered.congr (hc : Covered db E A) (hdb : db' = { db with outbox := db'.outbox })
    (hpend : ∀ k, db'.pending? k = db.pending? k) : Covered db' E A := by
  have hactive : ∀ k, db'.Active k ↔ db.Active k := fun k => by rw [hdb]; rfl
  obtain ⟨c, hclock, hp, he⟩ := hc.clock
  refine ⟨fun r hr => ?_, fun r hr => ?_, fun k hk => ?_, ⟨c, ?_, fun k s hs => ?_, fun k hk => ?_⟩,
    fun k hk H hH => ?_⟩
  · rw [hdb] at hr; exact (hactive _).mpr (hc.tables r hr)
  · rw [hdb] at hr; exact (hactive _).mpr (hc.vectors r hr)
  · rw [hpend] at hk; exact (hactive k).mpr (hc.pending k hk)
  · rw [hdb]; exact hclock
  · rw [hpend] at hs; exact hp k s hs
  · exact he k ((hactive k).mp hk)
  · rw [hpend]; exact hc.covered k ((hactive k).mp hk) H hH

/-- An acknowledgement takes back only the sequence that it names. -/
theorem Covered.acknowledge {gatewayId : String} {acks : List GatewayInvalidationAck} {u : Unit}
    (hc : Covered db E A) (h : (acknowledgeInvalidations gatewayId acks).Returns db u db') :
    Covered db' E fun k => A k ∪
      {s | ∃ ack ∈ acks, k = (gatewayId, ack.registrationId) ∧ s = ack.changeSeq} := by
  obtain ⟨hdb, hpend⟩ := acknowledgeInvalidations_returns h
  have hactive : ∀ k, db'.Active k ↔ db.Active k := fun k => by rw [hdb]; rfl
  have hsome : ∀ k s, db'.pending? k = some s → db.pending? k = some s := by
    intro k s hs
    rcases hpend k with h | ⟨h, -⟩
    · rw [← h]; exact hs
    · rw [h] at hs; cases hs
  obtain ⟨c, hclock, hp, he⟩ := hc.clock
  refine ⟨fun r hr => ?_, fun r hr => ?_, fun k hk => ?_, ⟨c, ?_, fun k s hs => hp k s (hsome k s hs),
    fun k hk => he k ((hactive k).mp hk)⟩, fun k hk H hH => ?_⟩
  · rw [hdb] at hr; exact (hactive _).mpr (hc.tables r hr)
  · rw [hdb] at hr; exact (hactive _).mpr (hc.vectors r hr)
  · obtain ⟨s, hs⟩ := Option.isSome_iff_exists.mp hk
    exact (hactive k).mpr (hc.pending k (by rw [hsome k s hs]; rfl))
  · rw [hdb]; exact hclock
  · rcases hc.covered k ((hactive k).mp hk) H hH with ha | hpk
    · exact .inl (.inl ha)
    · rcases hpend k with h | ⟨-, ack, hack, hk', hs⟩
      · exact .inr (h.trans hpk)
      · rw [hpk] at hs
        exact .inl (.inr ⟨ack, hack, hk', Option.some.inj hs⟩)

theorem active_congr (h : db'.subscriptions.find? key = db.subscriptions.find? key) :
    db'.Active key ↔ db.Active key := by
  unfold LiveDb.Active LiveDb.payload?; rw [h]

theorem pending?_congr (h : db'.outbox = db.outbox) (k : RegistrationKey) :
    db'.pending? k = db.pending? k := by
  unfold LiveDb.pending?; rw [h]

theorem Covered.subscribe (hc : Covered db E A) (h : Subscribes key db db') :
    Covered db' (fun k => {s | s ∈ E k ∧ ¬ (k = key ∧ db.subscriptions.find? k = none)})
      fun k => {s | s ∈ A k ∧ ¬ (k = key ∧ db.subscriptions.find? k = none)} := by
  -- a registration that was active stays active, and one that becomes active has no past
  have hmono : ∀ k, db.Active k → db'.Active k := by
    intro k hk
    refine (active_congr ?_).mpr hk
    by_cases he : k = key
    · subst he
      refine h.present ?_
      unfold LiveDb.Active LiveDb.payload? at hk
      cases hf : db.subscriptions.find? k with
      | none => rw [hf] at hk; cases hk
      | some r => rfl
    · exact h.other k he
  have hback : ∀ k, ¬ (k = key ∧ db.subscriptions.find? k = none) → db'.Active k → db.Active k := by
    intro k hk
    refine (active_congr ?_).mp
    by_cases he : k = key
    · subst he
      exact h.present (Option.isSome_iff_ne_none.mpr fun hn => hk ⟨rfl, hn⟩)
    · exact h.other k he
  obtain ⟨c, hclock, hp, he⟩ := hc.clock
  have hpend := pending?_congr h.outbox
  refine ⟨fun r hr => ?_, fun r hr => ?_, fun k hk => ?_,
    ⟨c, ?_, fun k s hs => hp k s ((hpend k).symm.trans hs), fun k hk s hs => he k (hback k hs.2 hk) s hs.1⟩,
    fun k hk H hH => ?_⟩
  · rcases h.tables r hr with hr | ⟨rfl, ha⟩
    · exact hmono _ (hc.tables r hr)
    · exact ha
  · rcases h.vectors r hr with hr | ⟨rfl, ha⟩
    · exact hmono _ (hc.vectors r hr)
    · exact ha
  · rw [hpend] at hk; exact hmono k (hc.pending k hk)
  · unfold LiveDb.changeSeq? at hclock ⊢; rw [h.clock]; exact hclock
  · obtain ⟨hmem, hup⟩ := hH
    have hg : IsGreatest (E k) H := ⟨hmem.1, fun s hs => hup ⟨hs, hmem.2⟩⟩
    rw [hpend]
    exact (hc.covered k (hback k hmem.2 hk) H hg).imp_left fun ha => ⟨ha, hmem.2⟩

theorem Covered.unsubscribe (hc : Covered db E A) (h : Unsubscribes key db db') : Covered db' E A := by
  have hback : ∀ k, db'.Active k → k ≠ key ∧ db.Active k := by
    intro k hk
    have hne : k ≠ key := fun he => h.gone (he ▸ hk)
    exact ⟨hne, (active_congr (h.other k hne)).mp hk⟩
  have hmono : ∀ k, k ≠ key → db.Active k → db'.Active k := fun k hk => (active_congr (h.other k hk)).mpr
  obtain ⟨c, hclock, hp, he⟩ := hc.clock
  refine ⟨fun r hr => ?_, fun r hr => ?_, fun k hk => ?_, ⟨c, ?_, fun k s hs => ?_,
    fun k hk => he k (hback k hk).2⟩, fun k hk H hH => ?_⟩
  · obtain ⟨hr, hne⟩ := h.tables r hr
    exact hmono _ hne (hc.tables r hr)
  · obtain ⟨hr, hne⟩ := h.vectors r hr
    exact hmono _ hne (hc.vectors r hr)
  · rw [h.pending] at hk
    by_cases he : k = key
    · rw [if_pos he] at hk; cases hk
    · rw [if_neg he] at hk; exact hmono k he (hc.pending k hk)
  · unfold LiveDb.changeSeq? at hclock ⊢; rw [h.clock]; exact hclock
  · rw [h.pending] at hs
    split at hs
    · cases hs
    · exact hp k s hs
  · obtain ⟨hne, hk⟩ := hback k hk
    rw [h.pending, if_neg hne]
    exact hc.covered k hk H hH

/-! ## Runs keep the invariant -/

variable {call : LiveCall ν} {w : World}

theorem World.step_returns {outcome : LiveOutcome} (h : (call.run sha256Hex).Returns w.db outcome db') :
    w.step sha256Hex call =
      { db := db'
        enqueued := fun k =>
          {s | s ∈ w.enqueued k ∧ ¬ call.Starts w.db k} ∪ call.enqueues outcome w.db k
        acknowledged := fun k =>
          {s | s ∈ w.acknowledged k ∧ ¬ call.Starts w.db k} ∪ call.acknowledges k } := by
  rw [World.step, Tx.transactionSync_returns.mpr h]

theorem World.step_throws {e : Thrown} (h : (call.run sha256Hex).Throws w.db e db') :
    w.step sha256Hex call = w := by
  rw [World.step, Tx.transactionSync_throws.mpr ⟨rfl, _, h⟩]

/-- The histories after a call that neither starts, enqueues nor acknowledges. -/
theorem Covered.quiet {E' A' : RegistrationKey → Set Int} (hc : Covered db E A)
    (hE : ∀ k, E' k = E k) (hA : ∀ k, A' k = A k) : Covered db E' A' := by
  rw [funext hE, funext hA]; exact hc

theorem Covered.step (hc : Covered w.db w.enqueued w.acknowledged) (call : LiveCall ν) :
    Covered (w.step sha256Hex call).db (w.step sha256Hex call).enqueued
      (w.step sha256Hex call).acknowledged := by
  rcases (call.run sha256Hex).returns_or_throws w.db with ⟨outcome, h⟩ | ⟨e, h⟩
  swap
  · rw [World.step_throws h]; exact hc
  rw [World.step_returns h]
  generalize (call.run sha256Hex).after w.db = db' at h
  cases call with
  | subscribe args policyDigest resource =>
    have hsub : Subscribes args.subscription.key w.db db' := by
      cases resource with
      | none =>
        obtain ⟨res, hres, -⟩ := Tx.map_returns.mp h
        exact (persistLiveSubscription_returns hres).1
      | some resourceId =>
        obtain ⟨res, hres, -⟩ := Tx.map_returns.mp h
        exact (persistWithVectorDependency_returns hres).1
    refine (hc.subscribe hsub).quiet (fun k => ?_) fun k => ?_
    · simp [LiveCall.Starts, LiveCall.enqueues]
    · simp [LiveCall.Starts, LiveCall.acknowledges]
  | unsubscribe subscription =>
    obtain ⟨_, hret, -⟩ := Tx.map_returns.mp h
    exact (hc.unsubscribe (retireLiveSubscription_returns hret)).quiet
      (fun k => by simp [LiveCall.Starts, LiveCall.enqueues])
      fun k => by simp [LiveCall.Starts, LiveCall.acknowledges]
  | finalizeUnsubscribe subscription =>
    obtain ⟨_, hfin, -⟩ := Tx.map_returns.mp h
    have : Covered db' w.enqueued w.acknowledged := by
      rcases finalizeRetiredLiveSubscription_returns hfin with rfl | hu
      · exact hc
      · exact hc.unsubscribe hu
    exact this.quiet (fun k => by simp [LiveCall.Starts, LiveCall.enqueues])
      fun k => by simp [LiveCall.Starts, LiveCall.acknowledges]
  | commit ops =>
    obtain ⟨seqs, henq, rfl⟩ := Tx.map_returns.mp h
    exact (hc.enqueueAll henq).quiet (fun k => by simp [LiveCall.Starts, LiveCall.enqueues])
      fun k => by simp [LiveCall.Starts, LiveCall.acknowledges]
  | due nowMs =>
    obtain ⟨rows, hrows, -⟩ := Tx.map_returns.mp h
    obtain ⟨-, rfl⟩ := Tx.gets_returns.mp hrows
    exact hc.quiet (fun k => by simp [LiveCall.Starts, LiveCall.enqueues])
      fun k => by simp [LiveCall.Starts, LiveCall.acknowledges]
  | recordFailures nowMs retryDelayMs errorMessage rows =>
    obtain ⟨_, hrec, -⟩ := Tx.map_returns.mp h
    obtain ⟨hdb, hpend⟩ := recordInvalidationFailures_returns hrec
    exact (hc.congr hdb hpend).quiet (fun k => by simp [LiveCall.Starts, LiveCall.enqueues])
      fun k => by simp [LiveCall.Starts, LiveCall.acknowledges]
  | acknowledge gatewayId acks =>
    obtain ⟨_, hack, -⟩ := Tx.map_returns.mp h
    exact (hc.acknowledge hack).quiet (fun k => by simp [LiveCall.Starts, LiveCall.enqueues])
      fun k => by simp [LiveCall.Starts, LiveCall.acknowledges]

theorem Covered.run (hc : Covered w.db w.enqueued w.acknowledged) (calls : List (LiveCall ν)) :
    Covered (w.run sha256Hex calls).db (w.run sha256Hex calls).enqueued
      (w.run sha256Hex calls).acknowledged := by
  induction calls generalizing w with
  | nil => exact hc
  | cons call calls ih => exact ih (hc.step call)

/-- The change clock of a returned call. -/
theorem LiveCall.run_clock {outcome : LiveOutcome} {c : Int}
    (h : (call.run sha256Hex).Returns db outcome db') (hc : db.changeSeq? = some c) :
    ∃ c', db'.changeSeq? = some c' ∧ c ≤ c' := by
  have hsame : db'.clock = db.clock → ∃ c', db'.changeSeq? = some c' ∧ c ≤ c' := fun he =>
    ⟨c, by rw [LiveDb.changeSeq?, he]; exact hc, le_rfl⟩
  cases call with
  | subscribe args policyDigest resource =>
    cases resource with
    | none =>
      obtain ⟨res, hres, -⟩ := Tx.map_returns.mp h
      exact hsame (persistLiveSubscription_returns hres).1.clock
    | some resourceId =>
      obtain ⟨res, hres, -⟩ := Tx.map_returns.mp h
      exact hsame (persistWithVectorDependency_returns hres).1.clock
  | unsubscribe subscription =>
    obtain ⟨_, hret, -⟩ := Tx.map_returns.mp h
    exact hsame (retireLiveSubscription_returns hret).clock
  | finalizeUnsubscribe subscription =>
    obtain ⟨_, hfin, -⟩ := Tx.map_returns.mp h
    rcases finalizeRetiredLiveSubscription_returns hfin with rfl | hu
    · exact hsame rfl
    · exact hsame hu.clock
  | commit ops =>
    obtain ⟨seqs, henq, -⟩ := Tx.map_returns.mp h
    exact enqueueAll_clock henq hc
  | due nowMs =>
    obtain ⟨rows, hrows, -⟩ := Tx.map_returns.mp h
    obtain ⟨-, rfl⟩ := Tx.gets_returns.mp hrows
    exact hsame rfl
  | recordFailures nowMs retryDelayMs errorMessage rows =>
    obtain ⟨_, hrec, -⟩ := Tx.map_returns.mp h
    have hdb := (recordInvalidationFailures_returns hrec).1
    exact hsame (by rw [hdb])
  | acknowledge gatewayId acks =>
    obtain ⟨_, hack, -⟩ := Tx.map_returns.mp h
    have hdb := (acknowledgeInvalidations_returns hack).1
    exact hsame (by rw [hdb])

theorem World.step_clock {c : Int} (hc : w.db.changeSeq? = some c) (call : LiveCall ν) :
    ∃ c', (w.step sha256Hex call).db.changeSeq? = some c' ∧ c ≤ c' := by
  rcases (call.run sha256Hex).returns_or_throws w.db with ⟨outcome, h⟩ | ⟨e, h⟩
  · rw [World.step_returns h]; exact LiveCall.run_clock h hc
  · rw [World.step_throws h]; exact ⟨c, hc, le_rfl⟩

/-! ## The guarantee -/

/-- What holds in every state of a run. -/
structure InvalidationsKept (w : World) : Prop where
  /-- The newest sequence of an active registration is in the outbox until it is acknowledged. -/
  covered : ∀ k, w.db.Active k → ∀ H, IsGreatest (w.enqueued k) H →
    (∀ a ∈ w.acknowledged k, a < H) → ∃ r ∈ w.db.outbox, r.registration = k ∧ r.changeSeq = H
  retired : ∀ row ∈ w.db.subscriptions, row.state = .retired → ¬ w.db.HasDependents row.key

variable (sha256Hex) in
/-- What holds of every transaction from a state of a run. -/
structure TransactionKept (w : World) (call : LiveCall ν) : Prop where
  clock : ∀ c, w.db.changeSeq? = some c → ∃ c', (w.step sha256Hex call).db.changeSeq? = some c' ∧ c ≤ c'
  rollback : ∀ e db', (call.run sha256Hex).Throws w.db e db' → (w.step sha256Hex call).db = w.db

theorem Covered.kept (hc : Covered w.db w.enqueued w.acknowledged) : InvalidationsKept w where
  covered k hk H hH hack := by
    rcases hc.covered k hk H hH with ha | hp
    · exact absurd (hack H ha) (lt_irrefl H)
    · obtain ⟨r, hr, hs⟩ := Option.map_eq_some_iff.mp hp
      obtain ⟨hr, hk⟩ := Table.find?_eq_some.mp hr
      exact ⟨r, hr, hk, hs⟩
  retired row hrow hret hdep := by
    have hno : ¬ w.db.Active row.key := by
      unfold LiveDb.Active LiveDb.payload?
      rw [show w.db.subscriptions.find? row.key = some row from Table.find?_key hrow]
      simp [hret, RegistrationState.payload?]
    rcases hdep with ⟨r, hr, hk⟩ | ⟨r, hr, hk⟩ | hout
    · exact hno (hk ▸ hc.tables r hr)
    · exact hno (hk ▸ hc.vectors r hr)
    · exact hno (hc.pending _ (LiveDb.pending?_isSome.mpr hout))

variable (ν) (sha256Hex) in
/-- Over every run: invalidations are kept, the clock only grows, what throws is rolled back, and
a full outbox refuses before anything is written. -/
def InvalidationsNeverLost : Prop :=
  ∀ calls : List (LiveCall ν), InvalidationsKept (World.initial.run sha256Hex calls) ∧
    (∀ call : LiveCall ν, TransactionKept sha256Hex (World.initial.run sha256Hex calls) call) ∧
    ∀ (op : EnqueueOp) e db', op.run.Throws (World.initial.run sha256Hex calls).db e db' →
      RateLimited e → db' = (World.initial.run sha256Hex calls).db

theorem live_invalidations_never_lost (ν : Type) [JsNumber ν] (sha256Hex : String → String) :
    InvalidationsNeverLost ν sha256Hex := by
  intro calls
  have hc : Covered (World.initial.run sha256Hex calls).db
      (World.initial.run sha256Hex calls).enqueued
      (World.initial.run sha256Hex calls).acknowledged := Covered.run covered_initial calls
  refine ⟨hc.kept, fun call => ⟨fun c h => World.step_clock h call, fun e db' h => ?_⟩,
    fun op e db' h he => ?_⟩
  · rw [World.step_throws h]
  · exact op.run_refusesFirst h he

end Chardb.Live
