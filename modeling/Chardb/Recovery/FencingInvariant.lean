import Chardb.Recovery.Fencing

/-!
# Recovery generations over whole runs

No Cdb, no earlier database of it and no clock in flight is ahead of the coordinator, and those of
its generation name its active operation. A Cdb that serves has its generation, then, or a later
one than any that it joined.
-/

namespace Chardb.Recovery

open Chardb.Lib Reshard

/-! ## Behind the clock -/

/-- A generation is not ahead of the clock, and is of the active operation when it is the clock's. -/
structure Behind (clock : RecoveryClock) (generation : Int) (operationId : Option String) : Prop where
  le : generation ≤ clock.generation
  same : generation = clock.generation → ∀ id, clock.activeOperationId = some id →
    operationId = some id

/-- What a call can do to the clock. -/
inductive ClockStep (clock : RecoveryClock) : RecoveryClock → Prop
  | same : ClockStep clock clock
  | idle : ClockStep clock { clock with activeOperationId := none }
  | claimed (operationId : String) : ClockStep clock ⟨clock.generation + 1, some operationId⟩

theorem CallEffect.clock {db db' : CoordinatorDb} {call : RecoveryCall} (h : CallEffect db db' call) :
    ClockStep db.clock db'.clock := by
  cases h with
  | none h => rw [h]; exact .same
  | claimed _ _ _ _ hclock => rw [hclock]; exact .claimed _
  | moved _ _ hclock => rw [hclock]; exact .same
  | cancelled _ _ _ hclock => rw [hclock]; exact .idle
  | completed _ _ _ _ hclock => rw [hclock]; exact .idle
  | recorded _ hclock => rw [hclock]; exact .same

section
variable {clock clock' : RecoveryClock} {generation : Int} {operationId : Option String}

theorem ClockStep.generation_le (h : ClockStep clock clock') :
    clock.generation ≤ clock'.generation := by
  cases h with
  | same => exact le_rfl
  | idle => exact le_rfl
  | claimed id =>
    show clock.generation ≤ clock.generation + 1
    omega

theorem Behind.step (hb : Behind clock generation operationId) (h : ClockStep clock clock') :
    Behind clock' generation operationId := by
  cases h with
  | same => exact hb
  | idle => exact ⟨hb.le, fun _ id hid => by cases hid⟩
  | claimed id =>
    have hle := hb.le
    refine ⟨?_, fun heq => ?_⟩
    · show generation ≤ clock.generation + 1
      omega
    · have heq : generation = clock.generation + 1 := heq
      omega

theorem Coherent.behind {db : CoordinatorDb} {r : StoredOperation} (hc : Coherent db)
    (hr : r ∈ db.operations.rows) : Behind db.clock r.generation (some r.operationId) := by
  refine ⟨hc.generation_le r hr, fun hgen id hid => ?_⟩
  by_cases hphase : r.phase = .complete
  · have := hc.finished_lt r hr hphase (by rw [hid]; exact Option.some_ne_none _)
    omega
  · rw [← hc.sole r hr hphase, hid]

end

/-! ## A Cdb -/

/-- What holds of a Cdb in every state that can be reached. -/
structure CdbNode.Inv (clock : RecoveryClock) (n : CdbNode) : Prop where
  stored : ∀ db ∈ n.db :: n.past, Behind clock db.admission.generation db.admission.operationId
  released : ∀ db ∈ n.db :: n.past, ∀ id, db.admission.operationId = some id →
    db.admission.state = .released → (id, db.admission.generation) ∈ n.releases
  fetched : ∀ c ∈ n.fetched, Behind clock c.generation c.activeOperationId
  joins : ∀ row ∈ n.joins, row.generation ≤ clock.generation
  serving : n.serving = true → ∀ row ∈ n.joins, row.generation ≤ n.db.admission.generation
  starting : ∀ c ∈ n.fetched, ∀ row ∈ n.joins,
    row.generation ≤ c.generation ∨ row.generation ≤ n.db.admission.generation

section
variable {clock clock' : RecoveryClock} {n : CdbNode} {db : CdbRecoveryDb}

theorem CdbNode.inv_initial (h : 0 ≤ clock.generation)
    (hidle : clock.generation = 0 → clock.activeOperationId = none) : CdbNode.initial.Inv clock where
  stored db hdb := by
    obtain rfl := List.mem_singleton.mp hdb
    refine ⟨h, fun heq id hid => ?_⟩
    rw [hidle heq.symm] at hid
    cases hid
  released db hdb id hid := by
    obtain rfl := List.mem_singleton.mp hdb
    cases hid
  fetched c hc := by cases hc
  joins row hrow := by cases hrow
  serving h := by cases h
  starting c hc := by cases hc

theorem CdbNode.Inv.step (hn : n.Inv clock) (h : ClockStep clock clock') : n.Inv clock' where
  stored db hdb := (hn.stored db hdb).step h
  released := hn.released
  fetched c hc := (hn.fetched c hc).step h
  joins row hrow := (hn.joins row hrow).trans h.generation_le
  serving := hn.serving
  starting := hn.starting

theorem CdbNode.Inv.fetch (hn : n.Inv clock) {digest : Option String} :
    { n with fetched := ⟨clock.generation, clock.activeOperationId, digest⟩ :: n.fetched }.Inv clock where
  stored := hn.stored
  released := hn.released
  fetched c hc := by
    rcases List.mem_cons.mp hc with rfl | hc
    · exact ⟨le_rfl, fun _ id hid => hid⟩
    · exact hn.fetched c hc
  joins := hn.joins
  serving := hn.serving
  starting c hc row hrow := by
    rcases List.mem_cons.mp hc with rfl | hc
    · exact .inl (hn.joins row hrow)
    · exact hn.starting c hc row hrow

theorem CdbNode.Inv.store (hn : n.Inv clock)
    (hle : n.db.admission.generation ≤ db.admission.generation)
    (hbehind : Behind clock db.admission.generation db.admission.operationId)
    (hreleased : ∀ id, db.admission.operationId = some id → db.admission.state = .released →
      (id, db.admission.generation) ∈ n.releases) : (n.store db).Inv clock where
  stored x hx := by
    rcases List.mem_cons.mp hx with rfl | hx
    · exact hbehind
    · exact hn.stored x hx
  released x hx := by
    rcases List.mem_cons.mp hx with rfl | hx
    · exact hreleased
    · exact hn.released x hx
  fetched := hn.fetched
  joins := hn.joins
  serving hserving row hrow := (hn.serving hserving row hrow).trans hle
  starting c hc row hrow := (hn.starting c hc row hrow).imp_right fun h => h.trans hle

theorem CdbNode.Inv.store_same (hn : n.Inv clock) (h : db.admission = n.db.admission) :
    (n.store db).Inv clock := by
  apply hn.store
  · rw [h]
  · rw [h]
    exact hn.stored _ List.mem_cons_self
  · rw [h]
    exact hn.released _ List.mem_cons_self

theorem CdbNode.Inv.joined (hn : n.Inv clock) : n.joined.Inv clock where
  stored := hn.stored
  released := hn.released
  fetched := hn.fetched
  joins row hrow := by
    rcases List.mem_cons.mp hrow with rfl | hrow
    · exact (hn.stored _ List.mem_cons_self).le
    · exact hn.joins row hrow
  serving hserving row hrow := by
    rcases List.mem_cons.mp hrow with rfl | hrow
    · exact le_rfl
    · exact hn.serving hserving row hrow
  starting c hc row hrow := by
    rcases List.mem_cons.mp hrow with rfl | hrow
    · exact .inr le_rfl
    · exact hn.starting c hc row hrow

/-- A process that starts from a database of the Cdb's own. -/
theorem CdbNode.Inv.boot (hn : n.Inv clock) (hdb : db ∈ n.db :: n.past) : (n.boot db).Inv clock where
  stored x hx := by
    rcases List.mem_cons.mp hx with rfl | hx
    · exact hn.stored _ hdb
    · exact hn.stored x hx
  released x hx := by
    rcases List.mem_cons.mp hx with rfl | hx
    · exact hn.released _ hdb
    · exact hn.released x hx
  fetched c hc := by cases hc
  joins := hn.joins
  serving h := by cases h
  starting c hc := by cases hc

theorem CdbNode.Inv.release (hn : n.Inv clock) {p : String × Int} :
    { n with releases := p :: n.releases }.Inv clock where
  stored := hn.stored
  released x hx id hid hstate := List.mem_cons_of_mem _ (hn.released x hx id hid hstate)
  fetched := hn.fetched
  joins := hn.joins
  serving := hn.serving
  starting := hn.starting

theorem CdbNode.exec_cases {α : Type} {x : AdmissionTx α} {k : CdbNode → CdbNode} :
    (∃ a db, x.Returns n.db a db ∧ n.exec x k = k (n.store db)) ∨
      ∃ e db, x.Throws n.db e db ∧ n.exec x k = n.store db := by
  unfold CdbNode.exec
  rcases h : x n.db with ⟨e | a, db⟩
  · exact .inr ⟨e, db, h, rfl⟩
  · exact .inl ⟨a, db, h, rfl⟩

theorem CdbNode.Inv.exec {α : Type} {x : AdmissionTx α} {k : CdbNode → CdbNode} (hn : n.Inv clock)
    (hx : x.Atomic) (h : ∀ a db, x.Returns n.db a db → (k (n.store db)).Inv clock) :
    (n.exec x k).Inv clock := by
  rcases n.exec_cases (x := x) (k := k) with ⟨a, db, hreturns, heq⟩ | ⟨e, db, hthrows, heq⟩
  · rw [heq]
    exact h a db hreturns
  · rw [heq, hx hthrows]
    exact hn.store_same rfl

theorem CdbNode.Inv.exec_frames {α : Type} {x : AdmissionTx α} (hn : n.Inv clock)
    (hx : x.Frames CdbRecoveryDb.admission) : (n.exec x id).Inv clock := by
  rcases n.exec_cases (x := x) (k := id) with ⟨a, db, h, heq⟩ | ⟨e, db, h, heq⟩
  · rw [heq]
    exact hn.store_same (hx.returns h)
  · rw [heq]
    exact hn.store_same (hx.throws h)

/-- A reconciled row is of a clock that is behind. -/
theorem CdbNode.Inv.reconciled (hn : n.Inv clock) {c : RecoveryAdmissionClock}
    {row : RecoveryAdmissionState} (hc : Behind clock c.generation c.activeOperationId)
    (h : (reconcile c).Returns n.db row db) : (n.store db).Inv clock := by
  obtain ⟨hle, hgen, hid, hstate⟩ := reconcile_returns h
  apply hn.store
  · rw [hgen]
    exact hle
  · rw [hgen, hid]
    exact hc
  · intro id hsome hreleased
    obtain rfl := hstate hreleased
    exact hn.released _ List.mem_cons_self id hsome hreleased

/-- A Cdb that reconciles serves at the clock's generation, which is the latest that it joined. -/
theorem CdbNode.Inv.reconcile (hn : n.Inv clock) {c : RecoveryAdmissionClock} (hc : c ∈ n.fetched) :
    (n.exec (.transactionSync (Recovery.reconcile c))
      fun n => { n.joined with serving := true }).Inv clock := by
  refine hn.exec (Tx.atomic_transactionSync _) fun a db h => ?_
  have h := Tx.transactionSync_returns.mp h
  have hstore := hn.reconciled (hn.fetched c hc) h
  obtain ⟨hle, hgen, -, -⟩ := reconcile_returns h
  refine { hstore.joined with serving := fun _ row hrow => ?_ }
  show row.generation ≤ db.admission.generation
  rcases List.mem_cons.mp hrow with rfl | hrow
  · exact le_rfl
  · rcases hn.starting c hc row hrow with h | h
    · exact h.trans hgen.ge
    · exact (h.trans hle).trans hgen.ge

/-- A destination of a split is put at the generation that the split was started at. -/
theorem CdbNode.Inv.provision (hn : n.Inv clock) {generation : Int}
    (hidle : Behind clock generation none) :
    (n.exec (.transactionSync (Recovery.reconcile ⟨generation, none, none⟩))
      CdbNode.joined).Inv clock := by
  refine hn.exec (Tx.atomic_transactionSync _) fun a db h => ?_
  exact (hn.reconciled hidle (Tx.transactionSync_returns.mp h)).joined

/-- What an arm of an operation and generation that the coordinator sent returns with. -/
theorem CdbNode.Inv.arm {x : AdmissionTx Unit} {operationId : String} {generation : Int}
    (hn : n.Inv clock) (hsent : Behind clock generation (some operationId)) (hx : x.Atomic)
    (h : ∀ a db, x.Returns n.db a db → n.db.admission.generation ≤ generation ∧
      db.admission.generation = generation ∧ db.admission.operationId = some operationId ∧
      db.admission.state ≠ .released) : (n.exec x CdbNode.joined).Inv clock := by
  refine hn.exec hx fun a db hreturns => ?_
  obtain ⟨hle, hgen, hid, hstate⟩ := h a db hreturns
  apply CdbNode.Inv.joined
  apply hn.store
  · rw [hgen]
    exact hle
  · rw [hgen, hid]
    exact hsent
  · intro id _ hreleased
    exact absurd hreleased hstate

theorem CdbNode.Inv.releaseRecovery (hn : n.Inv clock) {operationId : String} {generation : Int} :
    (n.exec (Recovery.releaseRecovery operationId generation) fun n =>
      { n with releases := (operationId, generation) :: n.releases }).Inv clock := by
  refine hn.exec (Tx.atomic_transactionSync _) fun a db h => ?_
  obtain ⟨hgen, hid, rfl, hold⟩ := releaseRecovery_returns h
  have hn' := hn.release (p := (operationId, n.db.admission.generation))
  show (CdbNode.store { n with releases := (operationId, n.db.admission.generation) :: n.releases }
    db).Inv clock
  apply hn'.store hgen.ge
  · rw [hgen, hid]
    exact hn.stored _ List.mem_cons_self
  · intro id hsome _
    rw [hid, hold] at hsome
    cases hsome
    rw [hgen]
    exact List.mem_cons_self

end

/-! ## The system -/

structure System.Inv {κ : Type} (s : System κ) : Prop where
  coordinator : Coherent s.coordinator
  sent : ∀ p ∈ s.sent, Behind s.coordinator.clock p.2 (some p.1)
  idle : ∀ g ∈ s.idle, Behind s.coordinator.clock g none
  nodes : ∀ k, (s.nodes k).Inv s.coordinator.clock

section
variable {κ : Type} [DecidableEq κ] {s : System κ} {parses : ContinuationKind → String → Bool}

omit [DecidableEq κ] in
theorem System.inv_initial : (System.initial : System κ).Inv where
  coordinator := coherent_initial
  sent p hp := by cases hp
  idle g hg := by cases hg
  nodes k := CdbNode.inv_initial le_rfl fun _ => rfl

theorem System.Inv.onNode (hs : s.Inv) {k : κ} {f : CdbNode → CdbNode}
    (h : (f (s.nodes k)).Inv s.coordinator.clock) : (s.onNode k f).Inv where
  coordinator := hs.coordinator
  sent := hs.sent
  idle := hs.idle
  nodes k' := by
    show (Function.update s.nodes k (f (s.nodes k)) k').Inv s.coordinator.clock
    by_cases hk : k' = k
    · subst hk
      rw [Function.update_self]
      exact h
    · rw [Function.update_of_ne hk]
      exact hs.nodes k'

theorem System.Inv.step (hs : s.Inv) (e : FencingEvent κ) : (s.step parses e).Inv := by
  cases e with
  | coordinator call =>
    obtain ⟨hcoherent, heffect⟩ := execute_coherent hs.coordinator call
    exact ⟨hcoherent, fun p hp => (hs.sent p hp).step heffect.clock,
      fun g hg => (hs.idle g hg).step heffect.clock,
      fun k => (hs.nodes k).step heffect.clock⟩
  | sendArm operationId =>
    simp only [System.step]
    cases hr : s.coordinator.operation? operationId with
    | none => exact hs
    | some r =>
      refine ⟨hs.coordinator, fun p hp => ?_, hs.idle, hs.nodes⟩
      rcases List.mem_cons.mp hp with rfl | hp
      · exact hs.coordinator.behind (mem_of_operation? hr)
      · exact hs.sent p hp
  | startSplit =>
    obtain ⟨digest, hclock⟩ := hs.coordinator.admissionClock
    simp only [System.step]
    rw [hclock]
    simp only
    split
    · rename_i hnone
      refine ⟨hs.coordinator, hs.sent, fun g hg => ?_, hs.nodes⟩
      rcases List.mem_cons.mp hg with rfl | hg
      · exact ⟨le_rfl, fun _ id hid => hnone ▸ hid⟩
      · exact hs.idle g hg
    · exact hs
  | fetchClock k =>
    obtain ⟨digest, hclock⟩ := hs.coordinator.admissionClock
    simp only [System.step]
    rw [hclock]
    exact hs.onNode (hs.nodes k).fetch
  | reconcile k c =>
    simp only [System.step]
    split
    · rename_i hc
      exact hs.onNode ((hs.nodes k).reconcile hc)
    · exact hs
  | provision k generation =>
    simp only [System.step]
    split
    · rename_i hidle
      exact hs.onNode ((hs.nodes k).provision (hs.idle _ hidle))
    · exact hs
  | armExisting k targetBookmark armedAt operationId generation =>
    simp only [System.step]
    split
    · rename_i hsent
      exact hs.onNode ((hs.nodes k).arm (hs.sent _ hsent) atomic_armAgain
        fun _ _ h => armAgain_returns h)
    · exact hs
  | armFresh k targetBookmark current armedAt operationId generation =>
    simp only [System.step]
    split
    · rename_i hsent
      exact hs.onNode ((hs.nodes k).arm (hs.sent _ hsent) (Tx.atomic_transactionSync _)
        fun _ _ h => armFresh_returns h)
    · exact hs
  | release k operationId generation =>
    simp only [System.step]
    exact hs.onNode (hs.nodes k).releaseRecovery
  | cancelRestore k targetBookmark =>
    simp only [System.step]
    exact hs.onNode ((hs.nodes k).exec_frames frames_cancelRestore)
  | commitDeadline k targetBookmark proposed =>
    simp only [System.step]
    exact hs.onNode ((hs.nodes k).exec_frames frames_commitDeadline)
  | commitScheduled k targetBookmark undo =>
    simp only [System.step]
    exact hs.onNode ((hs.nodes k).exec_frames frames_commitScheduled)
  | restore k db =>
    simp only [System.step]
    split
    · rename_i hdb
      exact hs.onNode ((hs.nodes k).boot (List.mem_cons_of_mem _ hdb))
    · exact hs
  | restart k =>
    simp only [System.step]
    exact hs.onNode ((hs.nodes k).boot List.mem_cons_self)

theorem System.run_inv {events : List (FencingEvent κ)} (hs : s.Inv) : (s.run parses events).Inv := by
  induction events generalizing s with
  | nil => exact hs
  | cons e events ih => exact ih (hs.step e)

theorem System.step_coordinator {e : FencingEvent κ} (h : ∀ call, e ≠ .coordinator call) :
    (s.step parses e).coordinator = s.coordinator := by
  cases e with
  | coordinator call => exact absurd rfl (h call)
  | startSplit =>
    simp only [System.step]
    split
    · split <;> rfl
    · rfl
  | sendArm | fetchClock | reconcile | provision | armExisting | armFresh | restore =>
    simp only [System.step]
    split <;> rfl
  | release | cancelRestore | commitDeadline | commitScheduled | restart => rfl

/-- The generation only grows. -/
theorem System.Inv.step_generation (hs : s.Inv) (e : FencingEvent κ) :
    s.coordinator.clock.generation ≤ (s.step parses e).coordinator.clock.generation := by
  by_cases h : ∃ call, e = .coordinator call
  · obtain ⟨call, rfl⟩ := h
    exact (execute_coherent hs.coordinator call).2.clock.generation_le
  · rw [System.step_coordinator fun call hcall => h ⟨call, hcall⟩]

/-- A Cdb serves only requests of a generation that is not before one that it joined. -/
theorem CdbNode.Inv.serves {clock : RecoveryClock} {n : CdbNode} {generation : Int}
    {row : RecoveryAdmissionState} (hn : n.Inv clock) (h : n.Serves generation)
    (hrow : row ∈ n.joins) : row.generation ≤ generation := by
  obtain ⟨hserving, hrequest⟩ := h
  rw [← (assertRequest_returns hrequest).1]
  exact hn.serving hserving row hrow

/-- A Cdb that joined the active operation serves only once it was released from it. -/
theorem CdbNode.Inv.serves_released {clock : RecoveryClock} {n : CdbNode} {generation : Int}
    {row : RecoveryAdmissionState} {id : String} (hn : n.Inv clock)
    (hactive : clock.activeOperationId = some id) (h : n.Serves generation) (hrow : row ∈ n.joins)
    (hjoined : row.generation = clock.generation) : (id, clock.generation) ∈ n.releases := by
  obtain ⟨hserving, hrequest⟩ := h
  obtain ⟨-, hblocked, hconsistent⟩ := assertRequest_returns hrequest
  have hbehind := hn.stored _ List.mem_cons_self
  have hge := hn.serving hserving row hrow
  have hgen : n.db.admission.generation = clock.generation := by
    have := hbehind.le
    omega
  have hid := hbehind.same hgen id hactive
  have hstate : n.db.admission.state = .released := by
    cases hstate : n.db.admission.state with
    | opened =>
      rw [(consistent_state hconsistent).mp hstate] at hid
      cases hid
    | blocked => exact absurd hstate hblocked
    | released => rfl
  have := hn.released _ List.mem_cons_self id hid hstate
  rwa [hgen] at this

end

/-- The generation is at least that of a finished operation and beyond it while another one is
active; one operation at most is active; a Cdb serves no request of a generation before one that it
joined, restored or not, and none while the operation that it joined is active and it was not
released from it. -/
theorem recovery_generation_fenced {κ : Type} [DecidableEq κ]
    (parses : ContinuationKind → String → Bool) (events : List (FencingEvent κ)) :
    let s := (System.initial : System κ).run parses events
    (∀ e, s.coordinator.clock.generation ≤ (s.step parses e).coordinator.clock.generation) ∧
    (∀ r ∈ s.coordinator.operations.rows, r.phase = .complete →
      r.generation ≤ s.coordinator.clock.generation ∧
        (s.coordinator.clock.activeOperationId ≠ none →
          r.generation < s.coordinator.clock.generation)) ∧
    (∀ r ∈ s.coordinator.operations.rows, ∀ r' ∈ s.coordinator.operations.rows,
      r.phase ≠ .complete → r'.phase ≠ .complete → r = r') ∧
    (∀ k generation, (s.nodes k).Serves generation →
      ∀ row ∈ (s.nodes k).joins, row.generation ≤ generation) ∧
    ∀ k id, s.coordinator.clock.activeOperationId = some id →
      (∃ row ∈ (s.nodes k).joins, row.generation = s.coordinator.clock.generation) →
      (id, s.coordinator.clock.generation) ∉ (s.nodes k).releases →
      ∀ generation, ¬ (s.nodes k).Serves generation := by
  intro s
  have hs : s.Inv := System.run_inv System.inv_initial
  have hc := hs.coordinator
  refine ⟨hs.step_generation, fun r hr hphase => ⟨hc.generation_le r hr, hc.finished_lt r hr hphase⟩,
    fun r hr r' hr' hphase hphase' => ?_, fun k g h row hrow => (hs.nodes k).serves h hrow, ?_⟩
  · have hactive := hc.sole r hr hphase
    rw [hc.sole r' hr' hphase'] at hactive
    exact row_unique hr hr' (Option.some.inj hactive).symm
  · rintro k id hactive ⟨row, hrow, hjoined⟩ hnot g hserves
    exact hnot ((hs.nodes k).serves_released hactive hserves hrow hjoined)

/-- The generation exceeds that of every finished operation. -/
def ExceedsFinished (parses : ContinuationKind → String → Bool) : Prop :=
  ∀ events : List (FencingEvent Unit),
    ∀ r ∈ (System.initial.run parses events).coordinator.operations.rows, r.phase = .complete →
      r.generation < (System.initial.run parses events).coordinator.clock.generation

theorem System.run_calls {κ : Type} [DecidableEq κ] {s : System κ}
    {parses : ContinuationKind → String → Bool} {calls : List RecoveryCall} :
    (s.run parses (calls.map .coordinator)).coordinator = s.coordinator.run parses calls := by
  induction calls generalizing s with
  | nil => rfl
  | cons call calls ih => exact ih

/-- The clock keeps the generation of the operation that it finished last. -/
theorem finished_generation_kept : ¬ ExceedsFinished sampleParses := by
  intro hall
  have h := done_lifecycles (n := 1) (by omega)
  have hrun : ((System.initial : System Unit).run sampleParses
      ((lifecycles 1).map .coordinator)).coordinator =
      CoordinatorDb.initial.run sampleParses (lifecycles 1) := System.run_calls
  rw [← hrun] at h
  have hrow := List.mem_map_of_mem (f := doneRow) (List.mem_range.mpr Nat.zero_lt_one)
  rw [← h.rows] at hrow
  have hlt := hall _ (doneRow 0) hrow rfl
  rw [h.generation] at hlt
  exact absurd hlt (lt_irrefl _)

end Chardb.Recovery
