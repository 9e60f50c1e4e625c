import Chardb.Recovery.Admission
import Chardb.Recovery.CoordinatorProgress
import Mathlib.Logic.Function.Basic

/-!
# Recovery generations across the coordinator and its Cdbs

The coordinator, any number of Cdbs and the restores that put a Cdb's whole database back to an
earlier one. The fence that a restore takes away comes back with the clock that a Cdb reconciles
before it serves again.
-/

namespace Chardb.Recovery

open Chardb.Lib Reshard

/-! ## The system -/

/-- A Cdb. `past` are the databases that a restore may put back; `joins` and `releases` are
histories that no step reads. -/
structure CdbNode where
  db : CdbRecoveryDb
  past : List CdbRecoveryDb
  serving : Bool
  fetched : List RecoveryAdmissionClock
  joins : List RecoveryAdmissionState
  releases : List (String × Int)

def CdbNode.initial : CdbNode := ⟨.initial, [], false, [], [], []⟩

/-- Commit a store. -/
def CdbNode.store (n : CdbNode) (db : CdbRecoveryDb) : CdbNode :=
  { n with db, past := n.db :: n.past }

/-- Run a transaction; what follows its return is `k`. -/
def CdbNode.exec {α : Type} (n : CdbNode) (x : AdmissionTx α) (k : CdbNode → CdbNode) : CdbNode :=
  match x n.db with
  | (.ok _, db) => k (n.store db)
  | (.error _, db) => n.store db

/-- A process that starts has fetched nothing yet, and serves nothing. -/
def CdbNode.boot (n : CdbNode) (db : CdbRecoveryDb) : CdbNode :=
  { n.store db with serving := false, fetched := [] }

def CdbNode.joined (n : CdbNode) : CdbNode := { n with joins := n.db.admission :: n.joins }

/-- A request of this generation is let in. -/
def CdbNode.Serves (n : CdbNode) (generation : Int) : Prop :=
  n.serving = true ∧ (assertRequest generation).Returns n.db () n.db

/-- `sent` are the operations and generations that arms were asked with, `idle` the generations that
a split was started at. -/
structure System (κ : Type) where
  coordinator : CoordinatorDb
  sent : List (String × Int)
  idle : List Int
  nodes : κ → CdbNode

def System.initial {κ : Type} : System κ := ⟨.initial, [], [], fun _ => .initial⟩

inductive FencingEvent (κ : Type)
  | coordinator (call : RecoveryCall)
  | sendArm (operationId : String)
  | startSplit
  | fetchClock (k : κ)
  | reconcile (k : κ) (clock : RecoveryAdmissionClock)
  | provision (k : κ) (generation : Int)
  | armExisting (k : κ) (targetBookmark : String) (armedAt : Int) (operationId : String)
    (generation : Int)
  | armFresh (k : κ) (targetBookmark current : String) (armedAt : Int) (operationId : String)
    (generation : Int)
  | release (k : κ) (operationId : String) (generation : Int)
  | cancelRestore (k : κ) (targetBookmark : String)
  | commitDeadline (k : κ) (targetBookmark : String) (proposed : Int)
  | commitScheduled (k : κ) (targetBookmark undo : String)
  | restore (k : κ) (db : CdbRecoveryDb)
  | restart (k : κ)

/-- `arm` where a restore is armed already. -/
def armAgain (targetBookmark : String) (armedAt : Int) (operationId : String) (generation : Int) :
    AdmissionTx Unit := do
  let existing ← armCheck targetBookmark armedAt
  .require (existing.isSome = true) (invalidArgs "no restore is armed")
  armExisting operationId generation

section
variable {κ : Type} [DecidableEq κ]

def System.onNode (s : System κ) (k : κ) (f : CdbNode → CdbNode) : System κ :=
  { s with nodes := Function.update s.nodes k (f (s.nodes k)) }

/-- One step: a call of the coordinator, a message of it that is sent or read, a transaction of a
Cdb, or a Cdb that starts again, from its own database or from an earlier one. -/
def System.step (parses : ContinuationKind → String → Bool) (s : System κ) :
    FencingEvent κ → System κ
  | .coordinator call => { s with coordinator := (call.execute parses).after s.coordinator }
  | .sendArm operationId =>
    match s.coordinator.operation? operationId with
    | some r => { s with sent := (r.operationId, r.generation) :: s.sent }
    | none => s
  | .startSplit =>
    match admissionClock s.coordinator with
    | (.ok clock, _) =>
      if clock.activeOperationId = none then { s with idle := clock.generation :: s.idle } else s
    | (.error _, _) => s
  | .fetchClock k =>
    match admissionClock s.coordinator with
    | (.ok clock, _) => s.onNode k fun n => { n with fetched := clock :: n.fetched }
    | (.error _, _) => s
  | .reconcile k clock =>
    if clock ∈ (s.nodes k).fetched then
      s.onNode k fun n =>
        n.exec (.transactionSync (reconcile clock)) fun n => { n.joined with serving := true }
    else s
  | .provision k generation =>
    if generation ∈ s.idle then
      s.onNode k fun n => n.exec (.transactionSync (reconcile ⟨generation, none, none⟩)) CdbNode.joined
    else s
  | .armExisting k targetBookmark armedAt operationId generation =>
    if (operationId, generation) ∈ s.sent then
      s.onNode k fun n =>
        n.exec (armAgain targetBookmark armedAt operationId generation) CdbNode.joined
    else s
  | .armFresh k targetBookmark current armedAt operationId generation =>
    if (operationId, generation) ∈ s.sent then
      s.onNode k fun n =>
        n.exec (armFresh targetBookmark current armedAt operationId generation) CdbNode.joined
    else s
  | .release k operationId generation =>
    s.onNode k fun n =>
      n.exec (releaseRecovery operationId generation) fun n =>
        { n with releases := (operationId, generation) :: n.releases }
  | .cancelRestore k targetBookmark =>
    s.onNode k fun n => n.exec (cancelRestore targetBookmark) id
  | .commitDeadline k targetBookmark proposed =>
    s.onNode k fun n => n.exec (commitDeadline targetBookmark proposed) id
  | .commitScheduled k targetBookmark undo =>
    s.onNode k fun n => n.exec (commitScheduled targetBookmark undo) id
  | .restore k db => if db ∈ (s.nodes k).past then s.onNode k fun n => n.boot db else s
  | .restart k => s.onNode k fun n => n.boot n.db

def System.run (parses : ContinuationKind → String → Bool) (s : System κ)
    (events : List (FencingEvent κ)) : System κ := events.foldl (System.step parses) s

/-! ## What the transactions of a Cdb return with -/

end

section
variable {db db' : CdbRecoveryDb}

theorem readAdmission_returns {row : RecoveryAdmissionState}
    (h : readAdmission.Returns db row db') :
    row = db.admission ∧ db = db' ∧ db.admission.consistent = true := by
  unfold readAdmission at h
  simp only [Tx.bind_returns, Tx.gets_returns, Tx.require_returns, Tx.pure_returns] at h
  obtain ⟨_, _, ⟨rfl, rfl⟩, _, _, ⟨hrow, rfl⟩, _, _, ⟨-, rfl⟩, rfl, rfl⟩ := h
  exact ⟨rfl, rfl, hrow⟩

theorem consistent_state {row : RecoveryAdmissionState} (h : row.consistent = true) :
    row.state = .opened ↔ row.operationId = none := by
  unfold RecoveryAdmissionState.consistent at h
  simp only [Bool.and_eq_true, Bool.or_eq_true, decide_eq_true_eq] at h
  obtain ⟨⟨-, hopened⟩, hheld⟩ := h
  constructor
  · intro hstate
    exact hopened.resolve_left fun hne => hne hstate
  · intro hnone
    exact hheld.resolve_right fun hne => hne hnone

/-- After `reconcile` the row is of the clock's generation and operation. -/
theorem reconcile_returns {clock : RecoveryAdmissionClock} {row : RecoveryAdmissionState}
    (h : (reconcile clock).Returns db row db') :
    db.admission.generation ≤ clock.generation ∧ db'.admission.generation = clock.generation ∧
      db'.admission.operationId = clock.activeOperationId ∧
      (db'.admission.state = .released → db' = db) := by
  unfold reconcile at h
  simp only [Tx.bind_returns, Tx.require_returns] at h
  obtain ⟨_, _, ⟨-, rfl⟩, _, _, ⟨-, rfl⟩, local', _, hread, _, _, ⟨hle, rfl⟩, h⟩ := h
  obtain ⟨rfl, rfl, hrow⟩ := readAdmission_returns hread
  refine ⟨hle, ?_⟩
  rcases Tx.ite_returns.mp h with ⟨-, h⟩ | ⟨hge, h⟩
  · unfold writeAdmission at h
    simp only [Tx.bind_returns, Tx.modify_returns, Tx.pure_returns] at h
    obtain ⟨_, _, rfl, -, rfl⟩ := h
    refine ⟨rfl, rfl, fun hstate => ?_⟩
    simp only [RecoveryAdmissionClock.next] at hstate
    split at hstate <;> cases hstate
  · have hgen : db.admission.generation = clock.generation := by omega
    unfold reconcileSame writeAdmission at h
    rcases Tx.ite_returns.mp h with ⟨hactive, h⟩ | ⟨-, h⟩
    · rcases Tx.ite_returns.mp h with ⟨-, h⟩ | ⟨hopened, h⟩
      · simp only [Tx.bind_returns, Tx.modify_returns, Tx.pure_returns] at h
        obtain ⟨_, _, rfl, -, rfl⟩ := h
        exact ⟨hgen, hactive.symm, fun hstate => by cases hstate⟩
      · obtain ⟨-, rfl⟩ := Tx.pure_returns.mp h
        have hopened := not_not.mp hopened
        exact ⟨hgen, by rw [hactive]; exact (consistent_state hrow).mp hopened, fun _ => rfl⟩
    · simp only [Tx.bind_returns, Tx.require_returns, Tx.pure_returns] at h
      obtain ⟨_, _, ⟨hid, rfl⟩, -, rfl⟩ := h
      exact ⟨hgen, hid, fun _ => rfl⟩

theorem armAdmission_returns {operationId : String} {generation : Int}
    {row : RecoveryAdmissionState} (h : (armAdmission operationId generation).Returns db row db') :
    db.admission.generation ≤ generation ∧ db'.admission.generation = generation ∧
      db'.admission.operationId = some operationId ∧ db'.admission.state ≠ .released := by
  unfold armAdmission at h
  simp only [Tx.bind_returns, Tx.require_returns] at h
  obtain ⟨_, _, ⟨-, rfl⟩, local', _, hread, _, _, ⟨hle, rfl⟩, h⟩ := h
  obtain ⟨rfl, rfl, -⟩ := readAdmission_returns hread
  refine ⟨hle, ?_⟩
  rcases Tx.ite_returns.mp h with ⟨hgen, h⟩ | ⟨-, h⟩
  · simp only [Tx.bind_returns, Tx.require_returns, Tx.pure_returns] at h
    obtain ⟨_, _, ⟨hid, rfl⟩, _, _, ⟨hstate, rfl⟩, -, rfl⟩ := h
    exact ⟨hgen.symm, hid, hstate⟩
  · unfold writeAdmission at h
    simp only [Tx.bind_returns, Tx.modify_returns, Tx.pure_returns] at h
    obtain ⟨_, _, rfl, -, rfl⟩ := h
    exact ⟨rfl, rfl, fun hstate => by cases hstate⟩

theorem armExisting_returns {operationId : String} {generation : Int} {a : Unit}
    (h : (armExisting operationId generation).Returns db a db') :
    db.admission.generation ≤ generation ∧ db'.admission.generation = generation ∧
      db'.admission.operationId = some operationId ∧ db'.admission.state ≠ .released := by
  unfold armExisting at h
  simp only [Tx.transactionSync_returns, Tx.bind_returns, Tx.pure_returns] at h
  obtain ⟨_, _, harm, -, rfl⟩ := h
  exact armAdmission_returns harm

theorem armCheck_readOnly {targetBookmark : String} {armedAt : Int} :
    (armCheck targetBookmark armedAt).ReadOnly :=
  (Tx.readOnly_require _ _).bind fun _ => (Tx.readOnly_require _ _).bind fun _ =>
    (Tx.readOnly_gets _).bind fun _ => (Tx.readOnly_require _ _).bind fun _ => Tx.readOnly_pure _

theorem armAgain_returns {targetBookmark operationId : String} {armedAt generation : Int} {a : Unit}
    (h : (armAgain targetBookmark armedAt operationId generation).Returns db a db') :
    db.admission.generation ≤ generation ∧ db'.admission.generation = generation ∧
      db'.admission.operationId = some operationId ∧ db'.admission.state ≠ .released := by
  unfold armAgain at h
  simp only [Tx.bind_returns, Tx.require_returns] at h
  obtain ⟨_, _, hcheck, _, _, ⟨-, rfl⟩, h⟩ := h
  obtain rfl := armCheck_readOnly.returns hcheck
  exact armExisting_returns h

theorem armFresh_returns {targetBookmark current operationId : String} {armedAt generation : Int}
    {a : Unit}
    (h : (armFresh targetBookmark current armedAt operationId generation).Returns db a db') :
    db.admission.generation ≤ generation ∧ db'.admission.generation = generation ∧
      db'.admission.operationId = some operationId ∧ db'.admission.state ≠ .released := by
  unfold armFresh at h
  simp only [Tx.transactionSync_returns, Tx.bind_returns, Tx.gets_returns, Tx.require_returns,
    Tx.modify_returns] at h
  obtain ⟨_, mid, harm, _, _, ⟨rfl, rfl⟩, _, _, ⟨-, rfl⟩, rfl⟩ := h
  have harmed := armAdmission_returns harm
  exact harmed

theorem releaseRecovery_returns {operationId : String} {generation : Int} {a : Unit}
    (h : (releaseRecovery operationId generation).Returns db a db') :
    db'.admission.generation = db.admission.generation ∧
      db'.admission.operationId = db.admission.operationId ∧
      db.admission.generation = generation ∧ db.admission.operationId = some operationId := by
  unfold releaseRecovery releaseAdmission writeAdmission at h
  simp only [Tx.transactionSync_returns, Tx.bind_returns, Tx.require_returns,
    Tx.pure_returns] at h
  obtain ⟨_, _, ⟨local', _, hread, _, _, ⟨⟨hgen, hid⟩, rfl⟩, h⟩, -, rfl⟩ := h
  obtain ⟨rfl, rfl, -⟩ := readAdmission_returns hread
  rcases Tx.ite_returns.mp h with ⟨-, h⟩ | ⟨-, h⟩
  · obtain ⟨-, rfl⟩ := Tx.pure_returns.mp h
    exact ⟨rfl, rfl, hgen, hid⟩
  · simp only [Tx.bind_returns, Tx.require_returns, Tx.modify_returns, Tx.pure_returns] at h
    obtain ⟨_, _, ⟨-, rfl⟩, _, _, rfl, -, rfl⟩ := h
    exact ⟨rfl, rfl, hgen, hid⟩

theorem assertRequest_returns {generation : Int} {a : Unit}
    (h : (assertRequest generation).Returns db a db') :
    db.admission.generation = generation ∧ db.admission.state ≠ .blocked ∧
      db.admission.consistent = true := by
  unfold assertRequest at h
  simp only [Tx.bind_returns, Tx.require_returns] at h
  obtain ⟨_, _, hread, ⟨-, hstate, hgen⟩, -⟩ := h
  obtain ⟨rfl, -, hrow⟩ := readAdmission_returns hread
  exact ⟨hgen, hstate, hrow⟩

/-! ## Transactions that leave the admission alone, and throws -/

theorem frames_cancelRestore {targetBookmark : String} :
    (cancelRestore targetBookmark).Frames CdbRecoveryDb.admission := by
  unfold cancelRestore assertBookmark
  refine (Tx.readOnly_require _ _).frames.bind fun _ => (Tx.readOnly_gets _).frames.bind fun r? => ?_
  cases r? with
  | none => exact (Tx.readOnly_pure _).frames
  | some r =>
    refine (Tx.readOnly_require _ _).frames.bind fun _ => (Tx.readOnly_require _ _).frames.bind
      fun _ => Tx.Frames.bind ?_ fun _ => (Tx.readOnly_pure _).frames
    exact Tx.Frames.modify fun _ => rfl

theorem frames_commitDeadline {targetBookmark : String} {proposed : Int} :
    (commitDeadline targetBookmark proposed).Frames CdbRecoveryDb.admission := by
  unfold commitDeadline assertBookmark
  exact (Tx.readOnly_require _ _).frames.bind fun _ => (Tx.readOnly_gets _).frames.bind fun _ =>
    (Tx.readOnly_ofOption _ _).frames.bind fun _ => Tx.Frames.modify fun _ => rfl

theorem frames_commitScheduled {targetBookmark undo : String} :
    (commitScheduled targetBookmark undo).Frames CdbRecoveryDb.admission := by
  unfold commitScheduled assertBookmark
  exact (Tx.readOnly_require _ _).frames.bind fun _ => Tx.Frames.modify fun _ => rfl

theorem atomic_armAgain {targetBookmark operationId : String} {armedAt generation : Int} :
    (armAgain targetBookmark armedAt operationId generation).Atomic := by
  unfold armAgain armExisting
  exact armCheck_readOnly.bind_atomic fun _ => (Tx.readOnly_require _ _).bind_atomic fun _ =>
    Tx.atomic_transactionSync _

end

end Chardb.Recovery
