import Chardb.Client.Session
import Mathlib.Data.List.Nodup
import Mathlib.Data.List.Perm.Basic

/-!
# Mutation promises settle once

A promise is pending or settled, never both: it is taken from `pending` by the first outcome that
arrives for its mutation. A mutation is sent once on a connection, because `inFlight` is only reset
when the connection is given up.
-/

namespace Chardb.Client

open Chardb.Lib Chardb.Wire

variable {ν : Type}

/-! ## The invariant -/

/-- Promises: those that were settled, those that are pending, and what arrived for them. -/
structure Ledger (pending : List (PendingMutation ν)) (settled : List (Settlement ν))
    (received : List (String × Outcome ν)) (issued : List String) (promises : Nat) : Prop where
  once : (settled.map (·.promise) ++ pending.map (·.promise)).Nodup
  made : ∀ p, p ∈ settled.map (·.promise) ++ pending.map (·.promise) ↔ p < promises
  ids : (pending.map (·.mutId)).Nodup
  issued_pending : ∀ id ∈ pending.map (·.mutId), id ∈ issued
  issued_received : ∀ r ∈ received, r.1 ∈ issued
  unsettled : ∀ r ∈ received, r.1 ∉ pending.map (·.mutId)
  first : ∀ t ∈ settled, ∀ id, t.mutId = some id →
    received.find? (fun r => decide (r.1 = id)) = some (id, t.outcome)

/-- Messages that were sent: what was sent on the current connection is in flight. -/
structure Sends (sent : List (Sent ν)) (pending : List (PendingMutation ν)) (issued : List String)
    (attempt : Nat) (state : ConnectionState) (terminated : Bool) : Prop where
  once : (sent.map fun f => (f.connection, f.mutId)).Nodup
  whilePending : ∀ f ∈ sent, f.whilePending = true
  issued : ∀ f ∈ sent, f.mutId ∈ issued
  attempts : ∀ f ∈ sent, f.connection ≤ attempt
  current : ∀ f ∈ sent, f.connection = attempt → state = .opened ∨ terminated = true
  flight : ∀ f ∈ sent, f.connection = attempt → ∀ m ∈ pending, m.mutId = f.mutId → m.inFlight = true

/-- The connection, the end of the session, and what waits for user code. -/
structure Control (ws : Option Nat) (attempt : Nat) (jwtReads : List Nat) (state : ConnectionState)
    (terminated : Bool) (stack : List (Frame ν)) (pending : List (PendingMutation ν)) : Prop where
  socket : state = .opened → ∀ connection, ws = some connection → connection = attempt
  reads : ∀ a ∈ jwtReads, a ≤ attempt
  awaiting : attempt ∈ jwtReads → state ≠ .opened
  made : ∀ connection, ws = some connection → connection ≤ attempt ∧ connection ∉ jwtReads
  closed : terminated = true → state = .closed
  waiting : ∀ m, Frame.mutate m ∈ stack → state ≠ .opened
  ended : terminated = true → (∀ code message, Frame.failSession code message ∉ stack) → pending = []

structure Inv (s : Session ν) : Prop where
  ledger : Ledger s.pending s.settled s.received s.issued s.promises
  sends : Sends s.sent s.pending s.issued s.connectionAttempt s.state s.terminated
  control : Control s.ws s.connectionAttempt s.jwtReads s.state s.terminated s.stack s.pending

theorem inv_new : Inv (Session.new : Session ν) where
  ledger := ⟨List.nodup_nil, fun p => by simp [Session.new], List.nodup_nil, fun _ h => (by cases h),
    fun _ h => (by cases h), fun _ h => (by cases h), fun _ h => (by cases h)⟩
  sends := ⟨List.nodup_nil, fun _ h => (by cases h), fun _ h => (by cases h),
    fun _ h => (by cases h), fun _ h => (by cases h), fun _ h => (by cases h)⟩
  control := ⟨fun h => (by cases h), fun _ h => (by cases h), fun h => (by cases h),
    fun _ h => (by cases h), fun h => (by cases h), fun _ h => (by cases h), fun _ _ => rfl⟩

/-! ## Promises -/

/-- Distinct keys: taking out a member leaves the members with other keys. -/
theorem perm_cons_filter {α : Type} {f : α → String} {l : List α} {a : α}
    (h : (l.map f).Nodup) (ha : a ∈ l) : (a :: l.filter fun x => f x ≠ f a).Perm l := by
  induction l with
  | nil => cases ha
  | cons x l ih =>
    rw [List.map_cons, List.nodup_cons] at h
    rcases List.mem_cons.mp ha with rfl | ha
    · rw [List.filter_cons_of_neg (by simp), List.filter_eq_self.mpr]
      intro y hy
      have hne : f y ≠ f a := fun he => h.1 (he ▸ List.mem_map_of_mem hy)
      simpa using hne
    · have hne : f x ≠ f a := fun he => h.1 (he ▸ List.mem_map_of_mem ha)
      rw [List.filter_cons_of_pos (by simpa using hne)]
      exact (List.Perm.swap x a _).trans ((ih h.2 ha).cons x)

theorem find_append {received rest : List (String × Outcome ν)} {id : String}
    {r : String × Outcome ν} (h : received.find? (fun r => decide (r.1 = id)) = some r) :
    (received ++ rest).find? (fun r => decide (r.1 = id)) = some r := by
  rw [List.find?_append, h]
  rfl

theorem find_append_none {received rest : List (String × Outcome ν)} {id : String}
    (h : ∀ r ∈ received, r.1 ≠ id) :
    (received ++ rest).find? (fun r => decide (r.1 = id)) =
      rest.find? fun r => decide (r.1 = id) := by
  have hnone : received.find? (fun r => decide (r.1 = id)) = none := by
    rw [List.find?_eq_none]
    simpa using h
  rw [List.find?_append, hnone]
  rfl

section
variable {pending : List (PendingMutation ν)} {settled : List (Settlement ν)}
  {received : List (String × Outcome ν)} {issued : List String} {promises : Nat}

/-- An outcome for a mutation that is not pending. -/
theorem Ledger.arrive (h : Ledger pending settled received issued promises) {id : String}
    {outcome : Outcome ν} (hid : id ∈ issued) (hnot : id ∉ pending.map (·.mutId)) :
    Ledger pending settled (received ++ [(id, outcome)]) issued promises where
  once := h.once
  made := h.made
  ids := h.ids
  issued_pending := h.issued_pending
  issued_received r hr := by
    rcases List.mem_append.mp hr with hr | hr
    · exact h.issued_received r hr
    · rw [List.mem_singleton.mp hr]
      exact hid
  unsettled r hr := by
    rcases List.mem_append.mp hr with hr | hr
    · exact h.unsettled r hr
    · rw [List.mem_singleton.mp hr]
      exact hnot
  first t ht id hid := find_append (h.first t ht id hid)

/-- The first outcome for a pending mutation settles it. -/
theorem Ledger.settle (h : Ledger pending settled received issued promises)
    {m : PendingMutation ν} (hm : m ∈ pending) (outcome : Outcome ν) :
    Ledger (pending.filter fun p => p.mutId ≠ m.mutId)
      (settled ++ [{ promise := m.promise, mutId := some m.mutId, outcome }])
      (received ++ [(m.mutId, outcome)]) issued promises := by
  have hperm := perm_cons_filter h.ids hm
  have hids : m.mutId ∈ pending.map (·.mutId) := List.mem_map_of_mem hm
  have hpromises : ((settled ++ [Settlement.mk m.promise (some m.mutId) outcome]).map (·.promise) ++
        (pending.filter fun p => p.mutId ≠ m.mutId).map (·.promise)).Perm
      (settled.map (·.promise) ++ pending.map (·.promise)) := by
    rw [List.map_append, List.append_assoc]
    exact (hperm.map (·.promise)).append_left _
  have hsub : ∀ id ∈ (pending.filter fun p => p.mutId ≠ m.mutId).map (·.mutId),
      id ∈ pending.map (·.mutId) ∧ id ≠ m.mutId := by
    intro id hid
    obtain ⟨p, hp, rfl⟩ := List.mem_map.mp hid
    rw [List.mem_filter] at hp
    exact ⟨List.mem_map_of_mem hp.1, by simpa using hp.2⟩
  refine ⟨hpromises.nodup_iff.mpr h.once, fun p => hpromises.mem_iff.trans (h.made p), ?_,
    fun id hid => h.issued_pending id (hsub id hid).1, fun r hr => ?_, fun r hr => ?_,
    fun t ht id hid => ?_⟩
  · exact h.ids.sublist (List.Sublist.map _ List.filter_sublist)
  · rcases List.mem_append.mp hr with hr | hr
    · exact h.issued_received r hr
    · rw [List.mem_singleton.mp hr]
      exact h.issued_pending _ hids
  · intro hmem
    obtain ⟨hmem, hne⟩ := hsub _ hmem
    rcases List.mem_append.mp hr with hr | hr
    · exact h.unsettled r hr hmem
    · rw [List.mem_singleton.mp hr] at hne
      exact hne rfl
  · rcases List.mem_append.mp ht with ht | ht
    · exact find_append (h.first t ht id hid)
    · obtain rfl := List.mem_singleton.mp ht
      obtain rfl := Option.some.inj hid
      rw [find_append_none fun r hr he => h.unsettled r hr (he ▸ hids)]
      simp

/-- The end of the session settles everything that is pending. -/
theorem Ledger.rejectAll (h : Ledger pending settled received issued promises)
    (outcome : Outcome ν) :
    Ledger [] (settled ++ pending.map fun m => { promise := m.promise, mutId := some m.mutId, outcome })
      (received ++ pending.map fun m => (m.mutId, outcome)) issued promises := by
  have hpromises : (settled ++ pending.map fun m =>
      Settlement.mk m.promise (some m.mutId) outcome).map (·.promise) =
        settled.map (·.promise) ++ pending.map (·.promise) := by
    rw [List.map_append, List.map_map]
    rfl
  refine ⟨?_, fun p => ?_, List.nodup_nil, fun id hid => (by cases hid), fun r hr => ?_,
    fun r _ hmem => (by cases hmem), fun t ht id hid => ?_⟩
  · rw [hpromises, List.map_nil, List.append_nil]
    exact h.once
  · rw [hpromises, List.map_nil, List.append_nil]
    exact h.made p
  · rcases List.mem_append.mp hr with hr | hr
    · exact h.issued_received r hr
    · obtain ⟨m, hm, rfl⟩ := List.mem_map.mp hr
      exact h.issued_pending _ (List.mem_map_of_mem hm)
  · rcases List.mem_append.mp ht with ht | ht
    · exact find_append (h.first t ht id hid)
    · obtain ⟨m, hm, rfl⟩ := List.mem_map.mp ht
      obtain rfl := Option.some.inj hid
      have hids : m.mutId ∈ pending.map (·.mutId) := List.mem_map_of_mem hm
      rw [find_append_none fun r hr he => h.unsettled r hr (he ▸ hids)]
      cases hf : (pending.map fun m => (m.mutId, outcome)).find? fun r => decide (r.1 = m.mutId) with
      | none =>
        rw [List.find?_eq_none] at hf
        exact absurd (hf _ (List.mem_map_of_mem hm)) (by simp)
      | some r =>
        have hid : r.1 = m.mutId := by simpa using List.find?_some hf
        obtain ⟨p, -, rfl⟩ := List.mem_map.mp (List.mem_of_find?_eq_some hf)
        rw [← hid]

/-- A call of `mutate` that is refused. -/
theorem Ledger.rejected (h : Ledger pending settled received issued promises)
    (outcome : Outcome ν) :
    Ledger pending (settled ++ [{ promise := promises, mutId := none, outcome }]) received issued
      (promises + 1) := by
  have hperm : ((settled ++ [Settlement.mk promises none outcome]).map
      (·.promise) ++ pending.map (·.promise)).Perm
        (promises :: (settled.map (·.promise) ++ pending.map (·.promise))) := by
    rw [List.map_append, List.append_assoc]
    exact List.perm_middle
  refine ⟨hperm.nodup_iff.mpr (List.nodup_cons.mpr ⟨fun hmem => ?_, h.once⟩), fun p => ?_, h.ids,
    h.issued_pending, h.issued_received, h.unsettled, fun t ht id hid => ?_⟩
  · exact Nat.lt_irrefl _ ((h.made _).mp hmem)
  · rw [hperm.mem_iff, List.mem_cons, h.made]
    omega
  · rcases List.mem_append.mp ht with ht | ht
    · exact h.first t ht id hid
    · rw [List.mem_singleton.mp ht] at hid
      cases hid

/-- A call of `mutate` that is accepted, under an id of its own. -/
theorem Ledger.mutate (h : Ledger pending settled received issued promises) {m : PendingMutation ν}
    (hm : m.promise = promises) (hid : m.mutId ∉ issued) :
    Ledger (pending ++ [m]) settled received (issued ++ [m.mutId]) (promises + 1) := by
  have hperm : (settled.map (·.promise) ++ (pending ++ [m]).map (·.promise)).Perm
      (promises :: (settled.map (·.promise) ++ pending.map (·.promise))) := by
    rw [List.map_append, ← List.append_assoc, List.map_singleton, hm]
    exact List.perm_append_singleton _ _
  refine ⟨hperm.nodup_iff.mpr (List.nodup_cons.mpr ⟨fun hmem => ?_, h.once⟩), fun p => ?_, ?_,
    fun id hid' => ?_, fun r hr => ?_, fun r hr hmem => ?_, h.first⟩
  · exact Nat.lt_irrefl _ ((h.made _).mp hmem)
  · rw [hperm.mem_iff, List.mem_cons, h.made]
    omega
  · rw [List.map_append, List.map_singleton]
    refine (List.perm_append_singleton _ _).nodup_iff.mpr (List.nodup_cons.mpr ⟨fun hmem => ?_, h.ids⟩)
    exact hid (h.issued_pending _ hmem)
  · rw [List.map_append, List.map_singleton] at hid'
    exact (List.mem_append.mp hid').elim
      (fun hmem => List.mem_append_left _ (h.issued_pending id hmem)) fun hmem =>
        List.mem_append_right _ hmem
  · exact List.mem_append_left _ (h.issued_received r hr)
  · rw [List.map_append, List.map_singleton] at hmem
    rcases List.mem_append.mp hmem with hmem | hmem
    · exact h.unsettled r hr hmem
    · rw [← List.mem_singleton.mp hmem] at hid
      exact hid (h.issued_received r hr)

/-- Only the promises and the ids of the pending mutations count. -/
theorem Ledger.map (h : Ledger pending settled received issued promises)
    (f : PendingMutation ν → PendingMutation ν)
    (hf : ∀ m, (f m).promise = m.promise ∧ (f m).mutId = m.mutId) :
    Ledger (pending.map f) settled received issued promises := by
  have hp : (pending.map f).map (·.promise) = pending.map (·.promise) := by
    rw [List.map_map]
    exact List.map_congr_left fun m _ => (hf m).1
  have hi : (pending.map f).map (·.mutId) = pending.map (·.mutId) := by
    rw [List.map_map]
    exact List.map_congr_left fun m _ => (hf m).2
  exact ⟨hp ▸ h.once, hp ▸ h.made, hi ▸ h.ids, hi ▸ h.issued_pending, h.issued_received,
    hi ▸ h.unsettled, h.first⟩

end

/-! ## Messages -/

section
variable {sent : List (Sent ν)} {pending : List (PendingMutation ν)} {issued : List String}
  {attempt : Nat} {state : ConnectionState} {terminated : Bool}

/-- A new attempt has sent nothing. -/
theorem Sends.advance (h : Sends sent pending issued attempt state terminated)
    (pending' : List (PendingMutation ν)) (state' : ConnectionState) (terminated' : Bool) :
    Sends sent pending' issued (attempt + 1) state' terminated' where
  once := h.once
  whilePending := h.whilePending
  issued := h.issued
  attempts f hf := Nat.le_succ_of_le (h.attempts f hf)
  current f hf he := by
    have := h.attempts f hf
    omega
  flight f hf he := by
    have := h.attempts f hf
    omega

/-- The session goes on with fewer mutations, and stays open if it was. -/
theorem Sends.shrink (h : Sends sent pending issued attempt state terminated)
    {pending' : List (PendingMutation ν)} {state' : ConnectionState} {terminated' : Bool}
    (hsub : ∀ m ∈ pending', m ∈ pending)
    (hlive : state = .opened ∨ terminated = true → state' = .opened ∨ terminated' = true) :
    Sends sent pending' issued attempt state' terminated' where
  once := h.once
  whilePending := h.whilePending
  issued := h.issued
  attempts := h.attempts
  current f hf he := hlive (h.current f hf he)
  flight f hf he m hm := h.flight f hf he m (hsub m hm)

/-- A mutation under an id of its own has not been sent. -/
theorem Sends.mutate (h : Sends sent pending issued attempt state terminated)
    {m : PendingMutation ν} (hid : m.mutId ∉ issued) :
    Sends sent (pending ++ [m]) (issued ++ [m.mutId]) attempt state terminated where
  once := h.once
  whilePending := h.whilePending
  issued f hf := List.mem_append_left _ (h.issued f hf)
  attempts := h.attempts
  current := h.current
  flight f hf he p hp hpf := by
    rcases List.mem_append.mp hp with hp | hp
    · exact h.flight f hf he p hp hpf
    · rw [List.mem_singleton.mp hp] at hpf
      exact absurd (hpf ▸ h.issued f hf) hid

end

section
variable {s : Session ν}

theorem inv_send (h : Inv s) {connection : Nat} (hws : s.ws = some connection)
    (hopen : s.state = .opened) {m : PendingMutation ν} (hm : m.mutId ∈ s.pending.map (·.mutId))
    (hnew : ∀ f ∈ s.sent, f.connection = connection → f.mutId ≠ m.mutId) :
    Inv (s.send connection m) where
  ledger := by
    refine h.ledger.map _ fun p => ?_
    split
    · exact ⟨rfl, rfl⟩
    · exact ⟨rfl, rfl⟩
  sends := by
    have hconn := h.control.socket hopen _ hws
    have hids : m.mutId ∈ s.issued := h.ledger.issued_pending _ hm
    refine ⟨?_, fun f hf => ?_, fun f hf => ?_, fun f hf => ?_, fun f hf he => ?_,
      fun f hf he p hp hpf => ?_⟩
    · show ((s.sent ++ [_]).map _).Nodup
      rw [List.map_append, List.map_singleton]
      refine (List.perm_append_singleton _ _).nodup_iff.mpr
        (List.nodup_cons.mpr ⟨fun hmem => ?_, h.sends.once⟩)
      obtain ⟨f, hf, he⟩ := List.mem_map.mp hmem
      obtain ⟨hc, hi⟩ := Prod.mk.inj he
      exact hnew f hf hc hi
    · rcases List.mem_append.mp hf with hf | hf
      · exact h.sends.whilePending f hf
      · rw [List.mem_singleton.mp hf]
        exact decide_eq_true hm
    · rcases List.mem_append.mp hf with hf | hf
      · exact h.sends.issued f hf
      · rw [List.mem_singleton.mp hf]
        exact hids
    · rcases List.mem_append.mp hf with hf | hf
      · exact h.sends.attempts f hf
      · rw [List.mem_singleton.mp hf]
        exact Nat.le_of_eq hconn
    · exact .inl hopen
    · obtain ⟨q, hq, rfl⟩ := List.mem_map.mp hp
      rcases List.mem_append.mp hf with hf | hf
      · have hflight := h.sends.flight f hf he q hq
        split at hpf
        · rw [if_pos ‹_›]
        · rw [if_neg ‹_›]
          exact hflight hpf
      · rw [List.mem_singleton.mp hf] at hpf
        split at hpf
        · rw [if_pos ‹_›]
        · rename_i hne
          exact absurd hpf hne
  control := by
    refine ⟨h.control.socket, h.control.reads, h.control.awaiting, h.control.made, h.control.closed, h.control.waiting, fun ht hno => ?_⟩
    have hnil := h.control.ended ht hno
    show s.pending.map _ = []
    rw [hnil]
    rfl

theorem inv_settle (h : Inv s) (mutId : String) (outcome : Outcome ν) :
    Inv (s.settle mutId outcome) := by
  unfold Session.settle Session.receive
  by_cases hid : mutId ∈ s.issued
  · simp only [if_pos hid]
    split
    · rename_i hnone
      refine ⟨h.ledger.arrive hid fun hmem => ?_, h.sends, h.control⟩
      obtain ⟨m, hm, rfl⟩ := List.mem_map.mp hmem
      rw [List.find?_eq_none] at hnone
      exact hnone m hm (decide_eq_true rfl)
    · rename_i m hsome
      have hm := List.mem_of_find?_eq_some hsome
      obtain rfl : m.mutId = mutId := by simpa using List.find?_some hsome
      refine ⟨h.ledger.settle hm outcome, h.sends.shrink (fun p hp => (List.mem_filter.mp hp).1) id,
        h.control.socket, h.control.reads, h.control.awaiting, h.control.made, h.control.closed,
        h.control.waiting, fun ht hno => ?_⟩
      show s.pending.filter _ = []
      rw [h.control.ended ht hno]
      rfl
  · simp only [if_neg hid]
    split
    · exact h
    · rename_i m hsome
      obtain rfl : m.mutId = mutId := by simpa using List.find?_some hsome
      exact absurd (h.ledger.issued_pending _
        (List.mem_map_of_mem (List.mem_of_find?_eq_some hsome))) hid

theorem inv_settleResults (h : Inv s) (mutResults : List (MutResult ν)) :
    Inv (s.settleResults mutResults) := by
  unfold Session.settleResults
  induction mutResults generalizing s with
  | nil => exact h
  | cons r rest ih => exact ih (inv_settle h _ _)

theorem inv_rejected (h : Inv s) (error : Thrown) : Inv (s.rejected error) :=
  ⟨h.ledger.rejected _, h.sends, h.control⟩

theorem inv_failSession (h : Inv s) (code : CdbErrorCode) (message : String) :
    Inv (s.failSession code message) := by
  unfold Session.failSession
  split
  · exact h
  · refine ⟨h.ledger, h.sends.shrink (fun _ => id) fun _ => .inr rfl, fun he => (by cases he),
      h.control.reads, fun _ he => (by cases he), h.control.made, fun _ => rfl, fun _ _ he => (by cases he), fun _ hno => ?_⟩
    exact absurd List.mem_cons_self (hno code message)

/-- The rest of `failSession` leaves nothing pending. -/
theorem inv_rejectAll (h : Inv s) {rest : List (Frame ν)} (hrest : ∀ f ∈ rest, f ∈ s.stack)
    (code : CdbErrorCode) (message : String) :
    Inv ({ s with stack := rest }.rejectAll code message) :=
  ⟨h.ledger.rejectAll _, h.sends.shrink (fun _ hm => (by cases hm)) id, h.control.socket,
    h.control.reads, h.control.awaiting, h.control.made, h.control.closed, fun m hm => h.control.waiting m (hrest _ hm), fun _ _ => rfl⟩

theorem inv_pop (h : Inv s) {f : Frame ν} {rest : List (Frame ν)} (hstack : s.stack = f :: rest)
    (hf : ∀ code message, f ≠ .failSession code message) : Inv { s with stack := rest } := by
  have hsub : ∀ g ∈ rest, g ∈ s.stack := fun g hg => hstack ▸ List.mem_cons_of_mem f hg
  refine ⟨h.ledger, h.sends, h.control.socket, h.control.reads, h.control.awaiting, h.control.made,
    h.control.closed, fun m hm => h.control.waiting m (hsub _ hm), fun ht hno => h.control.ended ht ?_⟩
  intro code message hmem
  rw [hstack] at hmem
  rcases List.mem_cons.mp hmem with he | hmem
  · exact hf code message he.symm
  · exact hno code message hmem

theorem inv_push (h : Inv s) {f : Frame ν} (hf : ∀ m, f ≠ .mutate m) :
    Inv { s with stack := f :: s.stack } := by
  refine ⟨h.ledger, h.sends, h.control.socket, h.control.reads, h.control.awaiting, h.control.made,
    h.control.closed, fun m hm => ?_,
    fun ht hno => h.control.ended ht fun code message hmem =>
      hno code message (List.mem_cons_of_mem f hmem)⟩
  rcases List.mem_cons.mp hm with he | hm
  · exact absurd he.symm (hf m)
  · exact h.control.waiting m hm

theorem inv_flags (h : Inv s) (started reconnectTimer : Bool) :
    Inv { s with started, reconnectTimer } := ⟨h.ledger, h.sends, h.control⟩

theorem inv_startConnect (h : Inv s) (rest : Frame ν) : Inv (s.startConnect rest) := by
  unfold Session.startConnect
  split
  · rename_i ht
    have hclosed := h.control.closed ht
    exact ⟨h.ledger, h.sends.advance _ _ _, fun ho => (by rw [hclosed] at ho; cases ho),
      fun a ha => Nat.le_succ_of_le (h.control.reads a ha),
      fun _ ho => (by rw [hclosed] at ho; cases ho),
      fun c hc => ⟨Nat.le_succ_of_le (h.control.made c hc).1, (h.control.made c hc).2⟩,
      h.control.closed, h.control.waiting, h.control.ended⟩
  · rename_i ht
    refine ⟨h.ledger, h.sends.advance _ _ _, fun ho => (by cases ho), fun a ha => ?_,
      fun _ ho => (by cases ho), fun c hc => ?_, fun ht' => absurd ht' ht,
      fun _ _ ho => (by cases ho), fun ht' => absurd ht' ht⟩
    · rcases List.mem_append.mp ha with ha | ha
      · exact Nat.le_succ_of_le (h.control.reads a ha)
      · exact Nat.le_of_eq (List.mem_singleton.mp ha)
    · obtain ⟨hle, hnot⟩ := h.control.made c hc
      refine ⟨Nat.le_succ_of_le hle, fun hmem => ?_⟩
      rcases List.mem_append.mp hmem with hmem | hmem
      · exact hnot hmem
      · rw [List.mem_singleton.mp hmem] at hle
        omega

theorem inv_scheduleReconnect (h : Inv s)
    (hnew : ∀ f ∈ s.sent, f.connection ≠ s.connectionAttempt) : Inv s.scheduleReconnect := by
  unfold Session.scheduleReconnect
  split
  · exact h
  · rename_i ht
    refine ⟨h.ledger, ⟨h.sends.once, h.sends.whilePending, h.sends.issued, h.sends.attempts,
      fun f hf he => absurd he (hnew f hf), h.sends.flight⟩, fun ho => (by cases ho),
      h.control.reads, fun _ ho => (by cases ho), h.control.made, fun ht' => absurd ht' ht, fun _ _ ho => (by cases ho), fun ht' => absurd ht' ht⟩

/-- A connection that is given up: what was sent on it may be sent again on the next one. -/
theorem inv_disconnectSocket (h : Inv s) (attempt : Nat) : Inv (s.disconnectSocket attempt) := by
  unfold Session.disconnectSocket
  split
  · unfold Session.onClose
    have hbase : ∀ pending', Ledger pending' s.settled s.received s.issued s.promises →
        (s.pending = [] → pending' = []) →
          Inv { s with connectionAttempt := s.connectionAttempt + 1, ws := none, pending := pending' } :=
      fun pending' hl hnil => ⟨hl, h.sends.advance _ _ _, fun _ _ hc => (by cases hc),
        fun a ha => Nat.le_succ_of_le (h.control.reads a ha), fun hmem =>
          absurd (h.control.reads _ hmem) (Nat.not_succ_le_self _), fun _ hc => (by cases hc), h.control.closed, h.control.waiting, fun ht hno => hnil (h.control.ended ht hno)⟩
    split
    · exact hbase s.pending h.ledger id
    · refine inv_scheduleReconnect (hbase (s.pending.map fun m => { m with inFlight := false })
        (h.ledger.map _ fun _ => ⟨rfl, rfl⟩) fun hnil => ?_) fun f hf => ?_
      · rw [hnil]
        rfl
      · have := h.sends.attempts f hf
        show f.connection ≠ s.connectionAttempt + 1
        omega
  · exact h

theorem inv_failConnect (h : Inv s) (error : Thrown) : Inv (s.failConnect error) := by
  unfold Session.failConnect
  split
  · exact inv_failSession h _ _
  · exact inv_failSession h _ _

/-! ## Steps -/

theorem inv_jwtSettled (h : Inv s) (attempt : Nat) :
    Inv { s with jwtReads := s.jwtReads.filter (· ≠ attempt) } :=
  ⟨h.ledger, h.sends, h.control.socket, fun a ha => h.control.reads a (List.mem_filter.mp ha).1,
    fun hmem => h.control.awaiting (List.mem_filter.mp hmem).1,
    fun c hc => ⟨(h.control.made c hc).1, fun hmem => (h.control.made c hc).2 (List.mem_filter.mp hmem).1⟩,
    h.control.closed, h.control.waiting, h.control.ended⟩

/-- An attempt that awaits `getJwt` has sent nothing. -/
theorem awaiting_new (h : Inv s) (ht : ¬ s.terminated = true)
    (hread : s.connectionAttempt ∈ s.jwtReads) : ∀ f ∈ s.sent, f.connection ≠ s.connectionAttempt := by
  intro f hf he
  rcases h.sends.current f hf he with ho | ht'
  · exact h.control.awaiting hread ho
  · exact ht ht'

theorem inv_jwtRead (h : Inv s) {attempt : Nat} (hread : attempt ∈ s.jwtReads) (constructed : Bool) :
    Inv (s.jwtRead attempt constructed) := by
  have h' := inv_jwtSettled h attempt
  unfold Session.jwtRead
  dsimp only
  split
  · exact h'
  · rename_i hcur
    rw [not_or, not_not] at hcur
    obtain ⟨ht, rfl⟩ := hcur
    split
    · refine ⟨h'.ledger, h'.sends, fun ho => absurd ho (h.control.awaiting hread), h'.control.reads,
        h'.control.awaiting, fun c hc => ?_, h'.control.closed, h'.control.waiting, h'.control.ended⟩
      obtain rfl := Option.some.inj hc
      exact ⟨Nat.le_refl _, fun hmem => (by simpa using (List.mem_filter.mp hmem).2)⟩
    · exact inv_failConnect h' _

theorem inv_jwtFailed (o : Options) (h : Inv s) {attempt : Nat} (hread : attempt ∈ s.jwtReads)
    (error : Thrown) : Inv (s.jwtFailed o attempt error) := by
  have h' := inv_jwtSettled h attempt
  unfold Session.jwtFailed
  dsimp only
  split
  · exact h'
  · rename_i hcur
    rw [not_or, not_not] at hcur
    obtain ⟨ht, rfl⟩ := hcur
    have hnew := awaiting_new h ht hread
    split
    · exact inv_scheduleReconnect h' hnew
    · split
      · refine inv_scheduleReconnect ⟨h'.ledger, h'.sends, h'.control⟩ hnew
      · exact inv_failConnect h' _

theorem inv_refuse (h : Inv s) : Inv s.refuse := inv_failSession h _ _

theorem inv_sendPending {connection : Nat} : ∀ (ms : List (PendingMutation ν)) (room : Nat)
    {s : Session ν}, Inv s → s.ws = some connection → s.state = .opened →
      (ms.map (·.mutId)).Nodup → (∀ m ∈ ms, m.mutId ∈ s.pending.map (·.mutId)) →
      (∀ f ∈ s.sent, f.connection = connection → f.mutId ∉ ms.map (·.mutId)) →
        Inv (Session.sendPending connection ms room s).1
  | [], _, _, h, _, _, _, _, _ => h
  | m :: ms, room, s, h, hws, hopen, hn, hmem, hnew => by
    rw [List.map_cons, List.nodup_cons] at hn
    have hmem' : ∀ p ∈ ms, p.mutId ∈ s.pending.map (·.mutId) :=
      fun p hp => hmem p (List.mem_cons_of_mem m hp)
    unfold Session.sendPending
    split
    · exact inv_sendPending ms room h hws hopen hn.2 hmem' fun f hf he hi =>
        hnew f hf he (List.mem_cons_of_mem _ hi)
    · cases room with
      | zero => exact h
      | succ room =>
        have hids : (s.send connection m).pending.map (·.mutId) = s.pending.map (·.mutId) := by
          show (s.pending.map _).map _ = _
          rw [List.map_map]
          refine List.map_congr_left fun p _ => ?_
          show (if _ then _ else _ : PendingMutation ν).mutId = _
          split
          · rfl
          · rfl
        refine inv_sendPending ms room (inv_send h hws hopen (hmem m List.mem_cons_self)
          fun f hf he hi => hnew f hf he (hi ▸ List.mem_cons_self)) hws hopen hn.2
          (hids ▸ hmem') fun f hf he hi => ?_
        rcases List.mem_append.mp hf with hf | hf
        · exact hnew f hf he (List.mem_cons_of_mem _ hi)
        · rw [List.mem_singleton.mp hf] at hi
          exact hn.1 hi

/-- The welcome opens the session and sends what is pending. -/
theorem inv_welcomed (h : Inv s) {connection : Nat} (hcur : s.Current connection)
    (hstack : s.stack = []) (hstate : s.state = .connecting) (room : Nat) :
    Inv (s.welcomed connection room) := by
  obtain ⟨ht, rfl, hws⟩ := hcur
  have hnew : ∀ f ∈ s.sent, f.connection ≠ s.connectionAttempt := by
    intro f hf he
    rcases h.sends.current f hf he with ho | ht'
    · rw [hstate] at ho
      cases ho
    · exact ht ht'
  have hopen : Inv { s with state := .opened, openedSession := true } := by
    refine ⟨h.ledger, h.sends.shrink (fun _ => id) fun _ => .inl rfl, fun _ c hc => ?_,
      h.control.reads, fun hmem => absurd hmem (h.control.made _ hws).2, h.control.made,
      fun ht' => absurd ht' ht, fun m hm => ?_, h.control.ended⟩
    · exact Option.some.inj (hc.symm.trans hws)
    · rw [hstack] at hm
      cases hm
  have hsend := inv_sendPending s.pending room hopen hws rfl h.ledger.ids
    (fun m hm => List.mem_map_of_mem hm) fun f hf he => absurd he (hnew f hf)
  unfold Session.welcomed
  dsimp only
  split
  · exact hsend
  · exact inv_refuse hsend

theorem inv_onWire (h : Inv s) {attempt : Nat} (hcur : s.Current attempt) (hstack : s.stack = [])
    (message : ServerMessage ν) : Inv (s.onWire attempt message) := by
  cases message with
  | invalid => exact inv_refuse h
  | welcome supported room =>
    simp only [Session.onWire]
    split
    · exact inv_refuse h
    · rename_i hstate
      rw [not_not] at hstate
      split
      · exact inv_welcomed h hcur hstack hstate room
      · exact inv_failSession h _ _
  | poke patched mutResults =>
    simp only [Session.onWire]
    split
    · exact inv_refuse h
    · split
      · exact inv_push h fun _ he => (by cases he)
      · exact inv_refuse h
  | subscription accepted =>
    simp only [Session.onWire]
    split
    · exact inv_refuse h
    · split
      · exact inv_push h fun _ he => (by cases he)
      · exact inv_refuse h
  | protocolMismatch =>
    simp only [Session.onWire]
    split
    · exact inv_refuse h
    · exact inv_failSession h _ _
  | error code retryable refreshing =>
    simp only [Session.onWire]
    split
    · exact inv_failSession h _ _
    · split
      · exact inv_disconnectSocket h _
      · exact inv_failSession h _ _

theorem sendMutation_closed {m : PendingMutation ν} {throws : Bool} (hstate : s.state ≠ .opened) :
    s.sendMutation m throws = s := by
  unfold Session.sendMutation
  split
  · rfl
  · rw [if_pos hstate]

theorem inv_sendMutation (h : Inv s) {m : PendingMutation ν}
    (hm : m.mutId ∈ s.pending.map (·.mutId)) (hnew : ∀ f ∈ s.sent, f.mutId ≠ m.mutId)
    (throws : Bool) : Inv (s.sendMutation m throws) := by
  unfold Session.sendMutation
  split
  · exact h
  · rename_i connection hws
    split
    · exact h
    · rename_i hopen
      rw [not_not] at hopen
      split
      · exact inv_settle h _ _
      · exact inv_send h hws hopen hm fun f hf _ => hnew f hf

theorem inv_mutate (o : Options) (h : Inv s) {mutId : String} (hid : mutId ∉ s.issued)
    (owned : Except Thrown (String × Json ν)) (throws : Bool) :
    Inv (s.mutate o mutId owned throws) := by
  unfold Session.mutate
  split
  · exact inv_rejected h _
  rename_i ht
  split
  · exact inv_rejected h _
  rename_i ref args
  split
  · exact inv_rejected h _
  have hpushed : Inv { s with
      promises := s.promises + 1
      issued := s.issued ++ [mutId]
      pending := s.pending ++ [⟨s.promises, mutId, ref, args, false⟩]
      timeouts := s.timeouts ++ [mutId] } :=
    ⟨h.ledger.mutate rfl hid, h.sends.mutate hid, h.control.socket, h.control.reads,
      h.control.awaiting, h.control.made, h.control.closed, h.control.waiting,
      fun ht' => absurd ht' ht⟩
  dsimp only
  split
  · exact inv_startConnect (inv_flags hpushed true s.reconnectTimer) _
  · refine inv_sendMutation hpushed ?_ (fun f hf he => ?_) throws
    · simp
    · have hf := h.sends.issued f hf
      rw [he] at hf
      exact hid hf

theorem inv_start (h : Inv s) : Inv s.start := by
  unfold Session.start
  split
  · exact h
  · exact inv_startConnect (inv_flags h true s.reconnectTimer) _

theorem inv_call (o : Options) (h : Inv s) (c : Call ν)
    (hid : ∀ mutId owned throws, c = .mutate mutId owned throws → mutId ∉ s.issued) :
    Inv (s.call o c) := by
  cases c with
  | start => exact inv_start h
  | mutate mutId owned throws => exact inv_mutate o h (hid _ _ _ rfl) owned throws
  | subscribe accepted =>
    simp only [Session.call]
    split
    · exact inv_start h
    · exact h
  | unsubscribe subId throws =>
    simp only [Session.call, Session.unsubscribe]
    split
    · exact inv_failSession h _ _
    · exact h
  | close => exact inv_failSession h _ _

theorem inv_event (o : Options) (h : Inv s) (hstack : s.stack = []) (e : Event ν) :
    Inv (s.event o e) := by
  cases e with
  | jwtRead attempt constructed =>
    simp only [Session.event]
    split
    · exact inv_jwtRead h ‹_› constructed
    · exact h
  | jwtFailed attempt error =>
    simp only [Session.event]
    split
    · exact inv_jwtFailed o h ‹_› error
    · exact h
  | opened attempt throws =>
    simp only [Session.event]
    split
    · exact inv_disconnectSocket h attempt
    · exact h
  | message attempt message =>
    simp only [Session.event, Session.receiveWire]
    split
    · exact inv_onWire h ‹_› hstack message
    · exact h
  | closed attempt => exact inv_disconnectSocket h attempt
  | errored attempt => exact inv_disconnectSocket h attempt
  | reconnect =>
    simp only [Session.event]
    split
    · exact inv_startConnect (inv_flags h s.started false) _
    · exact h
  | mutationTimeout mutId =>
    simp only [Session.event, Session.mutationTimeout]
    split
    · exact inv_settle h _ _
    · exact h
  | subscriptionRetry subId throws =>
    simp only [Session.event]
    split
    · exact inv_failSession h _ _
    · exact h
  | resumeExpiry =>
    simp only [Session.event]
    split
    · exact h
    · exact inv_push h fun _ he => (by cases he)
  | authFailed attempt code message =>
    simp only [Session.event]
    split
    · exact inv_failSession h _ _
    · exact h

theorem inv_resume (h : Inv s) {f : Frame ν} {rest : List (Frame ν)} (hstack : s.stack = f :: rest)
    (throws : Bool) : Inv ({ s with stack := rest }.resume throws f) := by
  have hsub : ∀ g ∈ rest, g ∈ s.stack := fun g hg => hstack ▸ List.mem_cons_of_mem f hg
  cases f with
  | mutate m =>
    have hstate := h.control.waiting m (hstack ▸ List.mem_cons_self)
    have hnone : { s with stack := rest }.sendMutation m throws = { s with stack := rest } :=
      sendMutation_closed hstate
    rw [Session.resume, hnone]
    exact inv_pop h hstack fun _ _ he => (by cases he)
  | poke mutResults => exact inv_settleResults (inv_pop h hstack fun _ _ he => (by cases he)) _
  | failSession code message => exact inv_rejectAll h hsub code message
  | onWire =>
    simp only [Session.resume]
    split
    · exact inv_refuse (inv_pop h hstack fun _ _ he => (by cases he))
    · exact inv_pop h hstack fun _ _ he => (by cases he)
  | done => exact inv_pop h hstack fun _ _ he => (by cases he)

end

theorem inv_step {o : Options} {s s' : Session ν} (h : Inv s) (hs : Step o s s') : Inv s' := by
  cases hs with
  | call c hid => exact inv_call o h c hid
  | event e hstack => exact inv_event o h hstack e
  | resume f rest throws hstack => exact inv_resume h hstack throws

end Chardb.Client
