import Chardb.Gateway.RegistrationStore
import Mathlib.Data.Finset.Card
import Mathlib.Data.Finset.Dedup

/-!
# Admission of subscriptions

What a Gateway keeps in memory of the subscriptions that are being settled, the heads they install and
the attachments of the sockets. A message, a close and each stretch of a settlement between two awaits
are one step. Of the store only the heads are seen: which message installed one, and whether it is
active.
-/

namespace Chardb.Gateway

open Chardb.Lib

def MAX_INITIAL_SNAPSHOTS_PER_CONNECTION : Nat := 64
def GATEWAY_MAX_CURRENT_AND_PENDING_REGISTRATIONS : Nat := 256

/-- What is read of the attachment of a verified socket. -/
structure Attachment where
  principalId : String
  clientId : String
  snapshotSubIds : Finset Nat

/-- An entry of `pendingSubscriptions`; `task` tells the objects apart. -/
structure PendingSubscription where
  connectionId : String
  subId : Nat
  capacityKey : RegistrationKey
  cancelled : Bool
  queued : Bool
  task : Nat
  deriving DecidableEq

def PendingSubscription.operationKey (p : PendingSubscription) : String × Nat :=
  (p.connectionId, p.subId)

/-- A head, with the operation whose message installed it. -/
structure InstalledHead where
  key : RegistrationKey
  task : Nat
  active : Bool
  deriving DecidableEq

/-- Where the operation of a sub message is. -/
inductive AdmissionPhase
  | queued
  | settling
  | installed
  | done
  deriving DecidableEq

structure AdmissionTask where
  task : Nat
  connectionId : String
  subId : Nat
  capacityKey : RegistrationKey
  phase : AdmissionPhase
  deriving DecidableEq

structure AdmissionWorld where
  attachments : String → Option Attachment
  pending : Table PendingSubscription.operationKey fun _ => True
  heads : Table InstalledHead.key fun _ => True
  tasks : Table AdmissionTask.task fun _ => True
  /-- The next operation, and those that have installed and activated a head. -/
  next : Nat
  installs : List Nat
  activations : List Nat

namespace AdmissionWorld

def start (attachments : String → Option (String × String)) : AdmissionWorld where
  attachments c := (attachments c).map fun a => ⟨a.1, a.2, ∅⟩
  pending := .empty
  heads := .empty
  tasks := .empty
  next := 0
  installs := []
  activations := []

/-! ## What is admitted -/

/-- The sub ids that a connection has delivered. -/
def delivered (w : AdmissionWorld) (connectionId : String) : Finset Nat :=
  ((w.attachments connectionId).map (·.snapshotSubIds)).getD ∅

/-- The sub ids that a connection has delivered or admitted. -/
def admittedSubIds (w : AdmissionWorld) (connectionId : String) : Finset Nat :=
  w.delivered connectionId ∪
    ((w.pending.select fun p => decide (p.connectionId = connectionId) && !p.cancelled).map
      (·.subId)).toFinset

/-- The keys that have a head or a pending admission. -/
def capacityKeys (w : AdmissionWorld) : Finset RegistrationKey :=
  (w.heads.rows.map (·.key)).toFinset ∪
    ((w.pending.select fun p => !p.cancelled).map (·.capacityKey)).toFinset

/-- The pending entry of an operation is there and not cancelled. -/
def Live (w : AdmissionWorld) (task : Nat) : Prop :=
  ∃ p ∈ w.pending.rows, p.task = task ∧ p.cancelled = false

instance (w : AdmissionWorld) (task : Nat) : Decidable (w.Live task) :=
  inferInstanceAs (Decidable (∃ p ∈ w.pending.rows, _))

/-! ## Messages -/

def hasRegistrationCapacity (w : AdmissionWorld) (capacityKey : RegistrationKey) : Bool :=
  if w.pending.rows.any fun p => !p.cancelled && decide (p.capacityKey = capacityKey) then true
  else if (w.heads.find? capacityKey).isSome then true
  else
    let capacityKeys :=
      ((w.heads.rows.take GATEWAY_MAX_CURRENT_AND_PENDING_REGISTRATIONS).map (·.key)).toFinset
    if GATEWAY_MAX_CURRENT_AND_PENDING_REGISTRATIONS ≤ capacityKeys.card then false
    else decide ((capacityKeys ∪
      ((w.pending.select fun p => !p.cancelled).map (·.capacityKey)).toFinset).card <
        GATEWAY_MAX_CURRENT_AND_PENDING_REGISTRATIONS)

/-- `deliveredSubIds.size + reservedSubIds.size`. -/
def reservedCount (w : AdmissionWorld) (connectionId : String) (delivered : Finset Nat) : Nat :=
  delivered.card + ((w.pending.select fun p => decide (p.connectionId = connectionId) &&
    !p.cancelled && decide (p.subId ∉ delivered)).map (·.subId)).toFinset.card

/-- A new object takes the place of the one before, which is cancelled. -/
def admission (w : AdmissionWorld) (connectionId : String) (subId : Nat)
    (capacityKey : RegistrationKey) (queued : Bool) : AdmissionWorld :=
  let p : PendingSubscription :=
    { connectionId, subId, capacityKey, cancelled := false, queued, task := w.next }
  match w.pending.upsert? p fun e =>
      { e with capacityKey, cancelled := false, queued, task := w.next },
    w.tasks.insert? ⟨w.next, connectionId, subId, capacityKey,
      if queued then .queued else .settling⟩ with
  | some pending, some tasks => { w with pending, tasks, next := w.next + 1 }
  | _, _ => w

/-- `onSub` up to its first await; `barrier` says whether an auth refresh is in flight, and `refused`
whether the arguments or the resume limit refuse the message. -/
def onSub (w : AdmissionWorld) (connectionId : String) (subId : Nat) (barrier refused : Bool) :
    AdmissionWorld :=
  match w.attachments connectionId with
  | none => w
  | some attachment =>
    let capacityKey : RegistrationKey := ⟨attachment.principalId, attachment.clientId, subId⟩
    let previous := w.pending.find? (connectionId, subId)
    if refused then w
    else if previous.any (·.queued) then w
    else if w.pending.rows.any fun p => !p.cancelled &&
        decide (p.operationKey ≠ (connectionId, subId)) && decide (p.capacityKey = capacityKey) then w
    else if previous.isNone ∧ subId ∉ attachment.snapshotSubIds ∧
        MAX_INITIAL_SNAPSHOTS_PER_CONNECTION ≤
          w.reservedCount connectionId attachment.snapshotSubIds then w
    else if w.hasRegistrationCapacity capacityKey then
      w.admission connectionId subId capacityKey (barrier || previous.isSome)
    else w

/-- Entries are cancelled. -/
def cancelWhere (w : AdmissionWorld) (p : PendingSubscription → Bool) : AdmissionWorld :=
  match w.pending.update? p fun e => { e with cancelled := true } with
  | some pending => { w with pending }
  | none => w

/-- `this.pendingSubscriptions.get(operationKey) === pending` and then `delete`. -/
def forget (w : AdmissionWorld) (task : Nat) : AdmissionWorld :=
  { w with pending := w.pending.deleteWhere fun p => decide (p.task = task) }

def setPhase (w : AdmissionWorld) (task : Nat) (phase : AdmissionPhase) : AdmissionWorld :=
  match w.tasks.update? (fun t => decide (t.task = task)) fun t => { t with phase } with
  | some tasks => { w with tasks }
  | none => w

/-- The sub ids of an attachment change. -/
def deliver (w : AdmissionWorld) (connectionId : String) (f : Finset Nat → Finset Nat) :
    AdmissionWorld :=
  { w with
    attachments := fun c =>
      if c = connectionId then
        (w.attachments c).map fun a => { a with snapshotSubIds := f a.snapshotSubIds }
      else w.attachments c }

inductive AdmissionEvent
  | sub (connectionId : String) (subId : Nat) (barrier refused : Bool)
  /-- A queued operation comes after its predecessor and the barrier, which may have failed. -/
  | dequeue (task : Nat) (succeeded : Bool)
  /-- `settleSubscription` up to the install; it may fail anywhere before. -/
  | install (task : Nat) (failed : Bool)
  /-- The response of the Cdb. -/
  | respond (task : Nat) (ok : Bool)
  | finish (task : Nat)
  | unsub (connectionId : String) (subId : Nat)
  /-- Some head is retired: by an unsub, a close or the alarm. -/
  | retire (key : RegistrationKey)
  /-- An attachment loses a sub id: after an unsub, or with a retired subscription. -/
  | undeliver (connectionId : String) (subId : Nat)
  | close (connectionId : String)
  | restart

def step (w : AdmissionWorld) : AdmissionEvent → AdmissionWorld
  | .sub connectionId subId barrier refused => w.onSub connectionId subId barrier refused
  | .dequeue task succeeded =>
    match w.tasks.find? task with
    | some t =>
      if t.phase ≠ .queued then w
      else if succeeded = true ∧ w.Live task then
        match w.pending.update? (fun p => decide (p.task = task)) fun p => { p with queued := false } with
        | some pending => { w with pending }.setPhase task .settling
        | none => w
      else (w.forget task).setPhase task .done
    | none => w
  | .install task failed =>
    match w.tasks.find? task with
    | some t =>
      if t.phase ≠ .settling then w
      else if failed = false ∧ w.Live task ∧ (w.attachments t.connectionId).isSome = true then
        match w.heads.upsert? ⟨t.capacityKey, task, false⟩ fun h =>
            { h with task, active := false } with
        | some heads => { w with heads, installs := task :: w.installs }.setPhase task .installed
        | none => w
      else w.setPhase task .done
    | none => w
  | .respond task ok =>
    match w.tasks.find? task with
    | some t =>
      if t.phase ≠ .installed then w
      else if ok = true ∧ w.Live task ∧ (w.attachments t.connectionId).isSome = true ∧
          (w.heads.find? t.capacityKey).any (fun h => decide (h.task = task)) = true then
        match w.heads.update? (fun h => decide (h.task = task)) fun h => { h with active := true } with
        | some heads =>
          ({ w with heads, activations := task :: w.activations }.deliver t.connectionId
            (insert t.subId)).setPhase task .done
        | none => w
      else
        { w with heads := w.heads.deleteWhere fun h => decide (h.task = task) }.setPhase task .done
    | none => w
  | .finish task =>
    match w.tasks.find? task with
    | some t =>
      if t.phase = .done then
        { w.forget task with tasks := w.tasks.deleteWhere fun t => decide (t.task = task) }
      else w
    | none => w
  | .unsub connectionId subId =>
    if (w.attachments connectionId).isSome then
      w.cancelWhere fun p => decide (p.operationKey = (connectionId, subId))
    else w
  | .retire key => { w with heads := w.heads.deleteWhere fun h => decide (h.key = key) }
  | .undeliver connectionId subId => w.deliver connectionId (·.erase subId)
  | .close connectionId =>
    { w.cancelWhere fun p => decide (p.connectionId = connectionId) with
      attachments := fun c => if c = connectionId then none else w.attachments c }
  | .restart => { w with pending := .empty, tasks := .empty }

def run (w : AdmissionWorld) : List AdmissionEvent → AdmissionWorld
  | [] => w
  | e :: es => (w.step e).run es

end AdmissionWorld

end Chardb.Gateway
