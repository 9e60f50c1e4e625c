import Chardb.Client.QueryState
import Mathlib.Algebra.GroupWithZero.Nat
import Mathlib.Algebra.Order.BigOperators.Group.List

/-!
# Query state is a fold of what the server sent

What a run did is in its log. The invariant says that the rows of a subscription are the fold of the
log, and that every entry of the log may come after the entries before it.
-/

namespace Chardb.Client.Query

open Chardb.Lib Chardb.Wire

/-! ## The fold -/

section
variable {ν : Type}

/-- A patch sets the row with its key in place or appends it, or removes it. -/
def foldRow (p : RowPatch ν) : List (Json ν) → List (Json ν)
  | [] => if p.op = .del then [] else [patchRow p]
  | r :: rows =>
    if rowKey? r = some p.rowKey then if p.op = .del then rows else patchRow p :: rows
    else r :: foldRow p rows

/-- The rows of a subscription, and whether an error has ended it. -/
abbrev QueryFold (ν : Type) := List (Json ν) × Bool

def foldEntry (subId : Int) (st : QueryFold ν) : Entry ν → QueryFold ν
  | .opened i => if i = subId then ([], false) else st
  | .snapshot i _ rows => if i = subId then (rows, false) else st
  | .poke patches =>
    if st.2 then st
    else ((patches.filter fun p => p.subId.1 = subId).foldl (fun rows p => foldRow p rows) st.1,
      false)
  | .cleared i => if i = subId then ([], false) else st
  | .errored i => if i = subId then ([], true) else st
  | _ => st

/-- The last snapshot of a subscription with the patches after it, or no rows with the patches after
they were taken away. -/
def folded (log : List (Entry ν)) (subId : Int) : QueryFold ν :=
  log.foldl (foldEntry subId) ([], false)

@[simp] theorem folded_append (log : List (Entry ν)) (e : Entry ν) (subId : Int) :
    folded (log ++ [e]) subId = foldEntry subId (folded log subId) e := by
  simp [folded]

/-- The listener of a subscription may still be called. -/
def Quiet (log : List (Entry ν)) (subId : Int) : Prop :=
  .unsubscribed subId ∉ log ∧ .notified subId true ∉ log

/-- A snapshot with this cookie was applied. -/
def Applied (log : List (Entry ν)) (cookie : String) : Prop :=
  ∃ subId rows, Entry.snapshot subId cookie rows ∈ log

/-- What may happen after a log: a snapshot that is acknowledged was applied, a listener is not
called after `unsubscribe` or after its last call, and no rows have changed since a message arrived
that is refused. -/
def Entry.Allowed (log : List (Entry ν)) : Entry ν → Prop
  | .acked cookie => Applied log cookie
  | .notified subId _ => Quiet log subId
  | .rejected => ∃ before since, log = before ++ .received :: since ∧ .received ∉ since ∧
      ∀ subId, (folded log subId).1 = (folded before subId).1
  | _ => True

def LogSound (log : List (Entry ν)) : Prop :=
  ∀ before e after, log = before ++ e :: after → Entry.Allowed before e

theorem LogSound.append {log : List (Entry ν)} {e : Entry ν} (h : LogSound log)
    (he : e.Allowed log) : LogSound (log ++ [e]) := by
  intro before x after heq
  rcases List.eq_nil_or_concat after with rfl | ⟨after', y, rfl⟩
  · obtain ⟨rfl, hx⟩ := List.append_inj' heq rfl
    cases hx
    exact he
  · rw [List.concat_eq_append, ← List.cons_append, ← List.append_assoc] at heq
    obtain ⟨heq', -⟩ := List.append_inj' heq rfl
    exact h before x after' heq'

theorem Applied.append {log : List (Entry ν)} {c : String} (h : Applied log c) (e : Entry ν) :
    Applied (log ++ [e]) c := by
  obtain ⟨i, rows, h⟩ := h
  exact ⟨i, rows, List.mem_append_left _ h⟩

theorem Quiet.append {log : List (Entry ν)} {i : Int} {e : Entry ν} (h : Quiet log i)
    (he : e ≠ .unsubscribed i ∧ e ≠ .notified i true) : Quiet (log ++ [e]) i := by
  constructor
  · simp only [List.mem_append, List.mem_singleton, not_or]
    exact ⟨h.1, fun hx => he.1 hx.symm⟩
  · simp only [List.mem_append, List.mem_singleton, not_or]
    exact ⟨h.2, fun hx => he.2 hx.symm⟩

/-! ## The invariant -/

def Frame.waiting : Frame ν → List Int
  | .notify subIds _ => subIds
  | .failSession _ subIds => subIds
  | _ => []

/-- The subscriptions that handlers have still to notify. -/
def waitingOf (stack : List (Frame ν)) : List Int := stack.flatMap Frame.waiting

/-- No handler has a subscription to notify when `failSession` calls `onSessionError`. -/
def Ending : List (Frame ν) → Prop
  | [] => True
  | .sessionError _ :: rest => waitingOf rest = [] ∧ Ending rest
  | _ :: rest => Ending rest

variable [JsNumber ν]

def SubRecord.bytes (r : SubRecord ν) : Nat := if r.held then rowsBytes r.rows else 0

def heldBytes (records : List (SubRecord ν)) : Nat := (records.map SubRecord.bytes).sum

/-- The record shows what the log says. -/
structure Shows (log : List (Entry ν)) (r : SubRecord ν) : Prop where
  rows : r.rows = (folded log r.subId).1
  ended : r.ended = (folded log r.subId).2

structure Inv (records : List (SubRecord ν)) (next : Int) (stack : List (Frame ν))
    (log : List (Entry ν)) : Prop where
  nodup : (records.map (·.subId)).Nodup
  fresh : ∀ r ∈ records, r.subId < next
  known : ∀ subId, next ≤ subId → Quiet log subId
  shows : ∀ r ∈ records, r.held = true → Shows log r
  quiet : ∀ r ∈ records, r.held = true → Quiet log r.subId
  cookies : ∀ r ∈ records, ∀ c, r.lastSnapshotCookie = some c → Applied log c
  acks : ∀ c, Frame.snapshot c ∈ stack → Applied log c
  bytes : heldBytes records ≤ MAX_RETAINED_QUERY_STATE_BYTES
  waiting : (waitingOf stack).Nodup
  awaited : ∀ i ∈ waitingOf stack, Quiet log i ∧ i < next
  ending : Ending stack
  detached : ∀ st subIds, Frame.failSession st subIds ∈ stack →
    ∀ r ∈ records, r.held = true → r.subId ∉ subIds
  log : LogSound log

abbrev Session.Inv (s : Session ν) : Prop := Query.Inv s.records s.nextSubId s.stack s.log

theorem heldBytes_map_le {records : List (SubRecord ν)} {f : SubRecord ν → SubRecord ν}
    (h : ∀ r ∈ records, (f r).bytes ≤ r.bytes) : heldBytes (records.map f) ≤ heldBytes records := by
  unfold heldBytes
  rw [List.map_map]
  exact List.sum_le_sum h

variable {records : List (SubRecord ν)} {next : Int} {stack : List (Frame ν)}
  {log : List (Entry ν)}

/-- Records and log change together. -/
theorem Inv.map (h : Inv records next stack log) (f : SubRecord ν → SubRecord ν) (e : Entry ν)
    (hid : ∀ r, (f r).subId = r.subId) (hheld : ∀ r, (f r).held = true → r.held = true)
    (hshows : ∀ r ∈ records, (f r).held = true → Shows (log ++ [e]) (f r))
    (hcookie : ∀ r ∈ records, ∀ c, (f r).lastSnapshotCookie = some c → Applied (log ++ [e]) c)
    (hbytes : heldBytes (records.map f) ≤ MAX_RETAINED_QUERY_STATE_BYTES)
    (hallowed : e.Allowed log)
    (hquiet : ∀ i, e = .unsubscribed i ∨ e = .notified i true →
      i < next ∧ i ∉ waitingOf stack ∧ ∀ r ∈ records, (f r).held = true → r.subId ≠ i) :
    Inv (records.map f) next stack (log ++ [e]) := by
  have hkeep : ∀ i, Quiet log i → (¬ i < next ∨ i ∈ waitingOf stack ∨
      ∃ r ∈ records, (f r).held = true ∧ r.subId = i) → Quiet (log ++ [e]) i := by
    intro i hq hi
    refine hq.append ⟨fun he => ?_, fun he => ?_⟩
    · obtain ⟨h₁, h₂, h₃⟩ := hquiet i (.inl he)
      rcases hi with hi | hi | ⟨r, hr, hrh, hri⟩
      · exact hi h₁
      · exact h₂ hi
      · exact h₃ r hr hrh hri
    · obtain ⟨h₁, h₂, h₃⟩ := hquiet i (.inr he)
      rcases hi with hi | hi | ⟨r, hr, hrh, hri⟩
      · exact hi h₁
      · exact h₂ hi
      · exact h₃ r hr hrh hri
  refine {
    nodup := ?_
    fresh := ?_
    known := ?_
    shows := ?_
    quiet := ?_
    cookies := ?_
    acks := fun c hc => (h.acks c hc).append e
    bytes := hbytes
    waiting := h.waiting
    awaited := fun i hi => ⟨hkeep i (h.awaited i hi).1 (.inr (.inl hi)), (h.awaited i hi).2⟩
    ending := h.ending
    detached := ?_
    log := h.log.append hallowed }
  · rw [List.map_map, show (fun r : SubRecord ν => r.subId) ∘ f = fun r => r.subId from
      funext hid]
    exact h.nodup
  · intro x hx
    obtain ⟨r, hr, rfl⟩ := List.mem_map.mp hx
    rw [hid]
    exact h.fresh r hr
  · intro i hi
    exact hkeep i (h.known i hi) (.inl (by omega))
  · intro x hx
    obtain ⟨r, hr, rfl⟩ := List.mem_map.mp hx
    exact hshows r hr
  · intro x hx hxh
    obtain ⟨r, hr, rfl⟩ := List.mem_map.mp hx
    rw [hid]
    exact hkeep _ (h.quiet r hr (hheld r hxh)) (.inr (.inr ⟨r, hr, hxh, rfl⟩))
  · intro x hx
    obtain ⟨r, hr, rfl⟩ := List.mem_map.mp hx
    exact hcookie r hr
  · intro st subIds hf x hx hxh
    obtain ⟨r, hr, rfl⟩ := List.mem_map.mp hx
    rw [hid]
    exact h.detached st subIds hf r hr (hheld r hxh)

/-- An entry that changes no rows. -/
theorem Inv.entry (h : Inv records next stack log) (e : Entry ν)
    (hfold : ∀ i st, foldEntry i st e = st) (hallowed : e.Allowed log)
    (hquiet : ∀ i, e = .unsubscribed i ∨ e = .notified i true →
      i < next ∧ i ∉ waitingOf stack ∧ ∀ r ∈ records, r.held = true → r.subId ≠ i) :
    Inv records next stack (log ++ [e]) := by
  have key := h.map id e (fun _ => rfl) (fun _ hr => hr)
    (fun r hr hrh => ⟨by rw [folded_append, hfold]; exact (h.shows r hr hrh).rows,
      by rw [folded_append, hfold]; exact (h.shows r hr hrh).ended⟩)
    (fun r hr c hc => (h.cookies r hr c hc).append e) (by rw [List.map_id]; exact h.bytes)
    hallowed hquiet
  rwa [List.map_id] at key

theorem Inv.push (h : Inv records next stack log) (f : Frame ν)
    (hnodup : f.waiting.Nodup) (hdisjoint : ∀ i ∈ f.waiting, i ∉ waitingOf stack)
    (hquiet : ∀ i ∈ f.waiting, Quiet log i ∧ i < next)
    (hack : ∀ c, f = .snapshot c → Applied log c)
    (hending : ∀ st, f = .sessionError st → waitingOf stack = [])
    (hdetached : ∀ st subIds, f = .failSession st subIds →
      ∀ r ∈ records, r.held = true → r.subId ∉ subIds) :
    Inv records next (f :: stack) log := by
  have hw : waitingOf (f :: stack) = f.waiting ++ waitingOf stack := List.flatMap_cons
  refine { h with acks := ?_, waiting := ?_, awaited := ?_, ending := ?_, detached := ?_ }
  · intro c hc
    rcases List.mem_cons.mp hc with hc | hc
    · exact hack c hc.symm
    · exact h.acks c hc
  · rw [hw, List.nodup_append]
    exact ⟨hnodup, h.waiting, fun a ha b hb hab => hdisjoint a ha (hab ▸ hb)⟩
  · intro i hi
    rw [hw] at hi
    rcases List.mem_append.mp hi with hi | hi
    · exact hquiet i hi
    · exact h.awaited i hi
  · cases f with
    | sessionError st => exact ⟨hending st rfl, h.ending⟩
    | _ => exact h.ending
  · intro st subIds hf
    rcases List.mem_cons.mp hf with hf | hf
    · exact hdetached st subIds hf.symm
    · exact h.detached st subIds hf

theorem Inv.pop {f : Frame ν} (h : Inv records next (f :: stack) log) :
    Inv records next stack log := by
  have hw : waitingOf (f :: stack) = f.waiting ++ waitingOf stack := List.flatMap_cons
  refine { h with acks := ?_, waiting := ?_, awaited := ?_, ending := ?_, detached := ?_ }
  · exact fun c hc => h.acks c (List.mem_cons_of_mem _ hc)
  · have := h.waiting
    rw [hw, List.nodup_append] at this
    exact this.2.1
  · exact fun i hi => h.awaited i (by rw [hw]; exact List.mem_append_right _ hi)
  · have := h.ending
    cases f with
    | sessionError st => exact this.2
    | _ => exact this
  · exact fun st subIds hf => h.detached st subIds (List.mem_cons_of_mem _ hf)

end

/-! ## Subscriptions -/

section
variable {ν : Type} {s : Session ν}

theorem mem_subs {r : SubRecord ν} : r ∈ s.subs ↔ r ∈ s.records ∧ r.held = true := by
  simp [Session.subs]

theorem sub?_eq_some {subId : Int} {r : SubRecord ν} (h : s.sub? subId = some r) :
    r ∈ s.records ∧ r.subId = subId ∧ r.held = true := by
  have hp := List.find?_some h
  simp only [Bool.and_eq_true, decide_eq_true_eq] at hp
  exact ⟨List.mem_of_find?_eq_some h, hp⟩

theorem sub?_eq_none {subId : Int} (h : s.sub? subId = none) :
    ∀ r ∈ s.records, r.held = true → r.subId ≠ subId := by
  intro r hr hrh he
  have := List.find?_eq_none.mp h r hr
  simp [he, hrh] at this

theorem releaseResumeRetainedSub_eq (s : Session ν) (subId : Int) :
    (s.releaseResumeRetainedSub subId).records = s.records ∧
      (s.releaseResumeRetainedSub subId).nextSubId = s.nextSubId ∧
      (s.releaseResumeRetainedSub subId).stack = s.stack ∧
      (s.releaseResumeRetainedSub subId).log = s.log := by
  unfold Session.releaseResumeRetainedSub
  split
  · dsimp only
    split <;> exact ⟨rfl, rfl, rfl, rfl⟩
  · exact ⟨rfl, rfl, rfl, rfl⟩

theorem release_log (s : Session ν) (subId : Int) :
    (s.releaseResumeRetainedSub subId).log = s.log :=
  (releaseResumeRetainedSub_eq s subId).2.2.2

theorem quiet_clear {subId : Int} {state : SubState} {e : Entry ν}
    (he : ∀ i, e ≠ .unsubscribed i ∧ e ≠ .notified i true) (i : Int) (hq : Quiet s.log i) :
    Quiet (s.clear subId state e).log i :=
  hq.append (he i)

variable [JsNumber ν]

theorem Session.Inv.congr {s' : Session ν} (h : s.Inv)
    (he : s'.records = s.records ∧ s'.nextSubId = s.nextSubId ∧ s'.stack = s.stack ∧
      s'.log = s.log) : s'.Inv := by
  obtain ⟨h₁, h₂, h₃, h₄⟩ := he
  unfold Session.Inv
  rw [h₁, h₂, h₃, h₄]
  exact h

theorem inv_release (h : s.Inv) (subId : Int) : (s.releaseResumeRetainedSub subId).Inv :=
  Session.Inv.congr h (releaseResumeRetainedSub_eq s subId)

theorem inv_schedule (h : s.Inv) (subId : Int) : (s.scheduleSubscriptionRetry subId).Inv := by
  unfold Session.scheduleSubscriptionRetry
  split
  · exact h
  · exact h

theorem inv_notify (h : s.Inv) {subId : Int} (hq : Quiet s.log subId) : (s.notify subId).Inv := by
  refine h.entry _ (fun _ _ => rfl) hq fun i hi => ?_
  rcases hi with hi | hi <;> cases hi

theorem inv_push (h : s.Inv) {f : Frame ν} (hw : f.waiting = [])
    (hack : ∀ c, f = .snapshot c → Applied s.log c)
    (hending : ∀ st, f = .sessionError st → waitingOf s.stack = []) : (s.push f).Inv :=
  Inv.push h f (by rw [hw]; exact List.nodup_nil) (by simp [hw]) (by simp [hw]) hack hending
    fun st subIds hf r _ _ => by
      have : subIds = [] := by
        rw [hf] at hw
        exact hw
      simp [this]

theorem rowsBytes_nil_le (rows : List (Json ν)) :
    rowsBytes ([] : List (Json ν)) ≤ rowsBytes rows := by
  simp only [rowsBytes, serializedBytes, elemsBytes, List.length_nil]
  omega

/-- The rows of a subscription are taken away. -/
theorem inv_clear (h : s.Inv) {subId : Int} {state : SubState} {e : Entry ν}
    (he : ∀ i st, foldEntry i st e =
      if subId = i then ([], decide (state = .error) || decide (state = .closed)) else st)
    (hlog : e.Allowed s.log) (hquiet : ∀ i, e ≠ .unsubscribed i ∧ e ≠ .notified i true) :
    (s.clear subId state e).Inv := by
  refine Inv.map h _ e (fun r => ?_) (fun r => ?_) (fun r hr hrh => ?_) (fun r hr c hc => ?_) ?_
    hlog fun i hi => ?_
  · split <;> rfl
  · split <;> exact id
  · by_cases hid : r.subId = subId
    · rw [if_pos hid]
      constructor
      · rw [folded_append, he, if_pos hid.symm]
      · rw [folded_append, he, if_pos hid.symm]
        rfl
    · rw [if_neg hid] at hrh ⊢
      have hs := h.shows r hr hrh
      constructor
      · rw [folded_append, he, if_neg (Ne.symm hid)]
        exact hs.rows
      · rw [folded_append, he, if_neg (Ne.symm hid)]
        exact hs.ended
  · split at hc
    · cases hc
    · exact (h.cookies r hr c hc).append e
  · refine le_trans (heldBytes_map_le fun r _ => ?_) h.bytes
    split
    · unfold SubRecord.bytes
      split
      · exact rowsBytes_nil_le _
      · exact le_rfl
    · exact le_rfl
  · rcases hi with hi | hi
    · exact absurd hi (hquiet i).1
    · exact absurd hi (hquiet i).2

theorem inv_cleared (h : s.Inv) (subId : Int) :
    (s.clear subId .refetching (.cleared subId)).Inv :=
  inv_clear h (fun i st => by simp [foldEntry]) trivial fun _ => ⟨nofun, nofun⟩

theorem inv_errored (h : s.Inv) (subId : Int) : (s.clear subId .error (.errored subId)).Inv :=
  inv_clear h (fun i st => by simp [foldEntry]) trivial fun _ => ⟨nofun, nofun⟩

/-! ## The end of a session -/

theorem inv_endSubscriptions (h : s.Inv) (hw : waitingOf s.stack = []) (subState : SubState) :
    (s.endSubscriptions subState).Inv := by
  have hids : ∀ i ∈ s.subs.map (·.subId), Quiet s.log i ∧ i < s.nextSubId := by
    intro i hi
    obtain ⟨r, hr, rfl⟩ := List.mem_map.mp hi
    obtain ⟨hr, hrh⟩ := mem_subs.mp hr
    exact ⟨h.quiet r hr hrh, h.fresh r hr⟩
  have hdetached : Query.Inv (s.records.map fun r => { r with held := false }) s.nextSubId s.stack
      s.log := by
    refine { h with
      nodup := ?_
      fresh := ?_
      shows := ?_
      quiet := ?_
      cookies := ?_
      bytes := ?_
      detached := ?_ }
    · rw [List.map_map]
      exact h.nodup
    · intro x hx
      obtain ⟨r, hr, rfl⟩ := List.mem_map.mp hx
      exact h.fresh r hr
    · intro x hx hxh
      obtain ⟨r, hr, rfl⟩ := List.mem_map.mp hx
      cases hxh
    · intro x hx hxh
      obtain ⟨r, hr, rfl⟩ := List.mem_map.mp hx
      cases hxh
    · intro x hx
      obtain ⟨r, hr, rfl⟩ := List.mem_map.mp hx
      exact h.cookies r hr
    · refine le_trans (heldBytes_map_le fun r _ => ?_) h.bytes
      simp [SubRecord.bytes]
    · intro st subIds _ x hx hxh
      obtain ⟨r, hr, rfl⟩ := List.mem_map.mp hx
      cases hxh
  refine hdetached.push _ ?_ (fun i _ => by simp [hw]) hids nofun nofun fun _ _ _ x hx hxh => ?_
  · exact h.nodup.sublist (List.filter_sublist.map _)
  · obtain ⟨r, hr, rfl⟩ := List.mem_map.mp hx
    cases hxh

/-- No handler has a subscription to notify when the session ends. -/
theorem inv_failSession (h : s.Inv) (hw : s.terminated = false → waitingOf s.stack = [])
    (subState : SubState) : (s.failSession subState).Inv := by
  unfold Session.failSession
  split
  · exact h
  · rename_i ht
    have hwait := hw (by simpa using ht)
    dsimp only
    split
    · exact inv_push (s := { s with
        terminated := true, state := .closed, resumeExpiryTimer := false,
        resumeExpiryCookie := none, resumeRetainedSubs := [] }) h rfl (fun c hc => by cases hc)
        fun _ _ => hwait
    · exact inv_endSubscriptions (s := { s with
        terminated := true, state := .closed, resumeExpiryTimer := false,
        resumeExpiryCookie := none, resumeRetainedSubs := [] }) h hwait subState

theorem inv_refuse (h : s.Inv) {before : List (Entry ν)} (hlog : s.log = before ++ [.received])
    (hw : waitingOf s.stack = []) : s.refuse.Inv := by
  have hr : (s.record .rejected).Inv := by
    refine h.entry _ (fun _ _ => rfl) ⟨before, [], hlog, by simp, fun i => ?_⟩ fun i hi => ?_
    · rw [hlog, folded_append]
      rfl
    · rcases hi with hi | hi <;> cases hi
  exact inv_failSession hr (fun _ => hw) _

/-! ## Handlers -/

theorem inv_notifyHeld (h : s.Inv) {subId : Int} {r : SubRecord ν} (hr : s.sub? subId = some r)
    {s' : Session ν} (h' : s'.Inv) (hlog : ∀ i, Quiet s.log i → Quiet s'.log i) {f : Frame ν}
    (hw : f.waiting = []) (hack : ∀ c, f = .snapshot c → Applied s'.log c)
    (hf : ∀ st, f ≠ .sessionError st) : ((s'.notify subId).push f).Inv := by
  obtain ⟨hmem, rfl, hrh⟩ := sub?_eq_some hr
  have hn := inv_notify h' (hlog _ (h.quiet r hmem hrh))
  exact inv_push hn hw (fun c hc => (hack c hc).append _) fun st hst => absurd hst (hf st)

theorem inv_expire (subIds : List Int) (h : s.Inv) : (Session.expire subIds s).Inv := by
  induction subIds with
  | nil => exact h
  | cons subId subIds ih =>
    unfold Session.expire
    split
    · exact h
    · split
      · exact ih
      · rename_i r hr
        exact inv_notifyHeld h hr (inv_cleared h subId)
          (quiet_clear fun _ => ⟨nofun, nofun⟩) rfl nofun nofun

theorem inv_expireRetained (h : s.Inv) : s.expireRetainedResumeState.Inv :=
  inv_expire _ h

theorem inv_beginResumeExpiry (h : s.Inv) : s.beginResumeExpiry.Inv := by
  unfold Session.beginResumeExpiry
  split
  · exact h
  · dsimp only
    split
    · exact h
    · exact h

theorem inv_disconnectSocket (h : s.Inv) : s.disconnectSocket.Inv := by
  unfold Session.disconnectSocket
  split
  · exact h
  · unfold Session.onClose
    split
    · exact h
    · exact inv_beginResumeExpiry (s := { s with ws := false, retryTimers := [] }) h

theorem inv_retrySubscription (h : s.Inv) (retryable : Bool) (subId : Int) :
    (s.retrySubscription retryable subId).Inv := by
  unfold Session.retrySubscription
  split
  · exact inv_schedule h subId
  · exact h

theorem inv_applySubscriptionError (h : s.Inv) (retryable : Bool) (subId : Int) :
    (s.applySubscriptionError retryable subId).Inv := by
  unfold Session.applySubscriptionError
  split
  · exact h
  · rename_i r hr
    split
    · exact h
    · cases retryable with
      | true =>
        have hc := inv_release (inv_cleared h subId) subId
        dsimp only
        split
        · refine inv_notifyHeld h hr hc (fun i hq => ?_) rfl nofun nofun
          rw [release_log]
          exact quiet_clear (e := .cleared subId) (fun _ => ⟨nofun, nofun⟩) i hq
        · exact inv_retrySubscription hc _ _
      | false =>
        have hc := inv_release
          (inv_errored (s := s.clearSubscriptionRetryTimer subId) h subId) subId
        dsimp only
        split
        · refine inv_notifyHeld h hr hc (fun i hq => ?_) rfl nofun nofun
          rw [release_log]
          exact quiet_clear (s := s.clearSubscriptionRetryTimer subId) (e := .errored subId)
            (fun _ => ⟨nofun, nofun⟩) i hq
        · exact inv_retrySubscription hc _ _

theorem inv_refetch (reason : MustRefetchReason) (socket : Socket) (subIds : List SubId)
    (h : s.Inv) : (Session.refetch reason socket subIds s).Inv := by
  induction subIds generalizing s with
  | nil => exact h
  | cons subId subIds ih =>
    unfold Session.refetch
    split
    · exact ih h
    · rename_i r hr
      split
      · exact ih h
      · dsimp only
        generalize hs₁ : (if reason = .shardsChanged then s
          else s.clearSubscriptionRetryTimer subId.1) = s₁
        have h₁ : s₁.Inv ∧ s₁.log = s.log := by
          rw [← hs₁]
          split
          · exact ⟨h, rfl⟩
          · exact ⟨h, rfl⟩
        have hrel := inv_release (inv_cleared h₁.1 subId.1) subId.1
        split
        · refine inv_notifyHeld h hr hrel (fun i hq => ?_) rfl nofun nofun
          rw [release_log]
          exact quiet_clear (e := .cleared subId.1) (fun _ => ⟨nofun, nofun⟩) i (h₁.2 ▸ hq)
        · split
          · exact ih (inv_schedule hrel _)
          · exact ih hrel

theorem inv_refetchNext (h : s.Inv) {reason : MustRefetchReason} {subId : Int}
    {subIds : List SubId} {socket : Socket}
    (hclear : ¬ (s.Sends reason subId socket ∧ socket = .throws)) :
    (s.refetchNext reason subId subIds socket).Inv := by
  unfold Session.refetchNext
  split
  · rename_i hs
    rw [if_neg fun ht => hclear ⟨hs, ht⟩]
    exact inv_refetch _ _ _ h
  · split
    · exact inv_refetch _ _ _ (inv_schedule h _)
    · exact inv_refetch _ _ _ h

theorem inv_acknowledge (h : s.Inv) {cookie : String} (ha : Applied s.log cookie)
    (socket : Socket) : (s.acknowledgeSnapshot cookie socket).Inv := by
  unfold Session.acknowledgeSnapshot
  split
  · refine h.entry _ (fun _ _ => rfl) ha fun i hi => ?_
    rcases hi with hi | hi <;> cases hi
  · exact h

end

/-! ## Patches -/

section
variable {ν : Type}

theorem foldRow_of_none {p : RowPatch ν} {rows : List (Json ν)}
    (h : ∀ r ∈ rows, rowKey? r ≠ some p.rowKey) :
    foldRow p rows = if p.op = .del then rows else rows ++ [patchRow p] := by
  induction rows with
  | nil => simp [foldRow]
  | cons r rows ih =>
    rw [foldRow, if_neg (h r List.mem_cons_self), ih fun r hr => h r (List.mem_cons_of_mem _ hr)]
    split <;> rfl

theorem foldRow_of_some {p : RowPatch ν} {rows : List (Json ν)} {i : Nat}
    (h : (rows.findIdx? fun r => isNull r || decide (rowKey? r = some p.rowKey)) = some i)
    (hnull : ((rows[i]?.map isNull).getD false) = false) :
    foldRow p rows = if p.op = .del then rows.eraseIdx i else rows.set i (patchRow p) := by
  induction rows generalizing i with
  | nil => cases h
  | cons r rows ih =>
    rw [List.findIdx?_cons] at h
    split at h
    · rename_i hr
      cases h
      have hkey : rowKey? r = some p.rowKey := by
        have : isNull r = false := hnull
        simpa [this] using hr
      rw [foldRow, if_pos hkey]
      rfl
    · rename_i hr
      obtain ⟨j, hj, rfl⟩ := Option.map_eq_some_iff.mp h
      simp only [Bool.or_eq_true, decide_eq_true_eq, not_or] at hr
      rw [foldRow, if_neg hr.2, ih hj (by simpa using hnull)]
      split <;> rfl

/-- Patching rows is one step of the fold. -/
theorem applyPatch_ok {p : RowPatch ν} {rows rows' : List (Json ν)}
    (h : applyPatch p rows = .ok rows') : rows' = foldRow p rows := by
  obtain ⟨idx, hidx, hrows⟩ := bind_ok h
  unfold findRow at hidx
  split at hidx
  · rename_i hnone
    cases hidx
    have hkeys : ∀ r ∈ rows, rowKey? r ≠ some p.rowKey := by
      intro r hr hk
      have := List.findIdx?_eq_none_iff.mp hnone r hr
      simp [hk] at this
    rw [foldRow_of_none hkeys]
    cases hop : p.op <;> rw [hop] at hrows <;> cases hrows <;> rfl
  · rename_i i hsome
    split at hidx
    · cases hidx
    · rename_i hnull
      cases hidx
      rw [foldRow_of_some hsome (by simpa using hnull)]
      cases hop : p.op <;> rw [hop] at hrows <;> cases hrows <;> rfl

theorem Planned.keys_set (planned : Planned ν) (i : Int) (rows : List (Json ν)) :
    (planned.set i rows).map Prod.fst =
      if i ∈ planned.map Prod.fst then planned.map Prod.fst else planned.map Prod.fst ++ [i] := by
  unfold Planned.set
  split
  · rw [List.map_map]
    refine List.map_congr_left fun x _ => ?_
    simp only [Function.comp_apply]
    split
    · rename_i h
      exact h.symm
    · rfl
  · simp

theorem lookup_cons_if (i k : Int) (rows : List (Json ν)) (planned : Planned ν) :
    List.lookup i ((k, rows) :: planned) = if i = k then some rows else planned.lookup i := by
  by_cases h : i = k
  · subst h
    simp
  · rw [if_neg h, List.lookup_cons, beq_eq_false_iff_ne.mpr h]

theorem lookup_map_replace (planned : Planned ν) (i j : Int) (rows : List (Json ν)) :
    (planned.map fun x => if x.1 = i then (i, rows) else x).lookup j =
      if j = i then (planned.lookup i).map fun _ => rows else planned.lookup j := by
  induction planned with
  | nil => simp
  | cons x planned ih =>
    obtain ⟨k, old⟩ := x
    rw [List.map_cons]
    by_cases hk : k = i
    · subst hk
      rw [if_pos rfl, lookup_cons_if, lookup_cons_if, lookup_cons_if, ih, if_pos rfl]
      split
      · rfl
      · rfl
    · rw [if_neg hk, lookup_cons_if, lookup_cons_if, lookup_cons_if, ih, if_neg (Ne.symm hk)]
      by_cases hj : j = k
      · rw [if_pos hj, if_pos hj, if_neg fun hi => hk (hj.symm.trans hi)]
      · rw [if_neg hj, if_neg hj]

theorem lookup_eq_none_of_not_mem {planned : Planned ν} {i : Int}
    (h : i ∉ planned.map Prod.fst) : planned.lookup i = none := by
  induction planned with
  | nil => rfl
  | cons x planned ih =>
    obtain ⟨k, old⟩ := x
    simp only [List.map_cons, List.mem_cons, not_or] at h
    rw [lookup_cons_if, if_neg h.1, ih h.2]

theorem lookup_isSome_of_mem {planned : Planned ν} {i : Int}
    (h : i ∈ planned.map Prod.fst) : (planned.lookup i).isSome := by
  induction planned with
  | nil => cases h
  | cons x planned ih =>
    obtain ⟨k, old⟩ := x
    rw [lookup_cons_if]
    split
    · rfl
    · rename_i hk
      exact ih ((List.mem_cons.mp h).resolve_left hk)

theorem Planned.lookup_set (planned : Planned ν) (i j : Int) (rows : List (Json ν)) :
    (planned.set i rows).lookup j = if j = i then some rows else planned.lookup j := by
  unfold Planned.set
  split
  · rename_i hmem
    rw [lookup_map_replace]
    split
    · obtain ⟨old, hold⟩ := Option.isSome_iff_exists.mp (lookup_isSome_of_mem hmem)
      rw [hold]
      rfl
    · rfl
  · rename_i hmem
    rw [List.lookup_append, lookup_cons_if]
    by_cases hj : j = i
    · subst hj
      rw [lookup_eq_none_of_not_mem hmem, if_pos rfl, if_pos rfl]
      rfl
    · rw [if_neg hj, if_neg hj, List.lookup_nil, Option.or_none]

end

section
variable {ν : Type} [JsNumber ν] {s : Session ν}

/-- What `applyPatches` has planned after some patches. -/
structure Plans (s : Session ν) (done : List (RowPatch ν)) (planned : Planned ν) : Prop where
  nodup : (planned.map Prod.fst).Nodup
  keys : ∀ i ∈ planned.map Prod.fst, ∃ r ∈ s.records, r.held = true ∧ r.subId = i
  rows : ∀ r ∈ s.records, r.held = true → planned.rows r =
    if r.ended then r.rows
    else (done.filter fun p => p.subId.1 = r.subId).foldl (fun rows p => foldRow p rows) r.rows

theorem eq_of_subId (h : s.Inv) {a b : SubRecord ν} (ha : a ∈ s.records) (hb : b ∈ s.records)
    (he : a.subId = b.subId) : a = b :=
  List.inj_on_of_nodup_map h.nodup ha hb he

theorem Plans.step (h : s.Inv) {done : List (RowPatch ν)} {planned planned' : Planned ν}
    {p : RowPatch ν} (hp : Plans s done planned) (hok : s.planPatch planned p = .ok planned') :
    Plans s (done ++ [p]) planned' := by
  unfold Session.planPatch at hok
  -- A patch of a subscription that is not planned for.
  have hskip : (∀ r ∈ s.records, r.held = true → r.subId = p.subId.1 → r.ended = true) →
      Plans s (done ++ [p]) planned := by
    intro hended
    refine { hp with rows := fun r hr hrh => ?_ }
    rw [hp.rows r hr hrh, List.filter_append]
    by_cases hid : r.subId = p.subId.1
    · rw [if_pos (hended r hr hrh hid), if_pos (hended r hr hrh hid)]
    · simp [Ne.symm hid]
  split at hok
  · rename_i hnone
    cases hok
    exact hskip fun r hr hrh hid => absurd hid (sub?_eq_none hnone r hr hrh)
  · rename_i r hr
    obtain ⟨hmem, hid, hrh⟩ := sub?_eq_some hr
    split at hok
    · rename_i hended
      cases hok
      refine hskip fun r' hr' _ hid' => ?_
      rw [eq_of_subId h hr' hmem (hid'.trans hid.symm)]
      exact hended
    · rename_i hended
      obtain ⟨rows, hrows, hset⟩ := bind_ok hok
      cases hset
      rw [applyPatch_ok hrows]
      refine ⟨?_, ?_, fun r' hr' hrh' => ?_⟩
      · rw [Planned.keys_set]
        split
        · exact hp.nodup
        · rename_i hnot
          exact List.nodup_append.mpr ⟨hp.nodup, List.nodup_singleton _, fun a ha b hb hab => by
            rw [List.mem_singleton.mp hb] at hab
            exact hnot (hab ▸ ha)⟩
      · intro i hi
        rw [Planned.keys_set] at hi
        split at hi
        · exact hp.keys i hi
        · rcases List.mem_append.mp hi with hi | hi
          · exact hp.keys i hi
          · exact ⟨r, hmem, hrh, (List.mem_singleton.mp hi).symm⟩
      · have hold := hp.rows r' hr' hrh'
        unfold Planned.rows at hold ⊢
        rw [Planned.lookup_set, List.filter_append]
        by_cases he : r'.subId = r.subId
        · obtain rfl := eq_of_subId h hr' hmem he
          rw [if_pos rfl, Option.getD_some, hold, if_neg hended, if_neg hended, List.foldl_append]
          simp [hid]
        · have hne : ¬ p.subId.1 = r'.subId := fun hx => he (hx.symm.trans hid.symm)
          rw [if_neg he, hold]
          simp [hne]

theorem Plans.foldlM (h : s.Inv) {patches done : List (RowPatch ν)} {planned planned' : Planned ν}
    (hp : Plans s done planned) (hok : patches.foldlM s.planPatch planned = .ok planned') :
    Plans s (done ++ patches) planned' := by
  induction patches generalizing done planned with
  | nil =>
    cases hok
    rwa [List.append_nil]
  | cons p patches ih =>
    rw [List.foldlM_cons] at hok
    obtain ⟨next, hnext, hrest⟩ := bind_ok hok
    have := ih (hp.step h hnext) hrest
    rwa [List.append_assoc] at this

theorem addStates_ok {code : CdbErrorCode} {states : List (List (Json ν))} {bytes total : Nat}
    (hb : bytes ≤ MAX_RETAINED_QUERY_STATE_BYTES)
    (h : Session.addStates code states bytes = .ok total) :
    bytes + (states.map rowsBytes).sum ≤ MAX_RETAINED_QUERY_STATE_BYTES := by
  induction states generalizing bytes with
  | nil => simpa using hb
  | cons rows states ih =>
    obtain ⟨added, hadded, h₁⟩ := bind_ok h
    have hadd : added = rowsBytes rows := by
      unfold assertSerializedSize at hadded
      split at hadded
      · cases hadded
      · split at hadded
        · cases hadded
          rfl
        · cases hadded
    subst hadd
    split at h₁
    · cases h₁
    · rename_i hle
      have := ih (Nat.le_of_not_lt hle) h₁
      simpa [Nat.add_assoc] using this

theorem aggregate_ok {planned : Planned ν} {additional : Option (List (Json ν))}
    {code : CdbErrorCode} (h : s.assertAggregateQueryState planned additional code = .ok ()) :
    ((s.subs.map planned.rows ++ additional.toList).map rowsBytes).sum ≤
      MAX_RETAINED_QUERY_STATE_BYTES := by
  obtain ⟨total, htotal, -⟩ := bind_ok h
  simpa using addStates_ok (Nat.zero_le _) htotal

theorem heldBytes_map (records : List (SubRecord ν)) (f : SubRecord ν → SubRecord ν)
    (g : SubRecord ν → List (Json ν)) (hheld : ∀ r, (f r).held = r.held)
    (hrows : ∀ r, r.held = true → (f r).rows = g r) :
    heldBytes (records.map f) = (((records.filter (·.held)).map g).map rowsBytes).sum := by
  induction records with
  | nil => rfl
  | cons r records ih =>
    have hcons : heldBytes ((r :: records).map f) = (f r).bytes + heldBytes (records.map f) := by
      simp [heldBytes]
    rw [hcons, ih]
    cases hr : r.held with
    | true => simp [SubRecord.bytes, hheld, hr, hrows r hr]
    | false => simp [SubRecord.bytes, hheld, hr]

theorem planPatches_ok (h : s.Inv) {patches : List (RowPatch ν)} {planned : Planned ν}
    (hok : s.planPatches patches = .ok planned) :
    Plans s patches planned ∧
      ((s.subs.map planned.rows).map rowsBytes).sum ≤ MAX_RETAINED_QUERY_STATE_BYTES := by
  obtain ⟨-, -, h₁⟩ := bind_ok hok
  obtain ⟨-, -, h₂⟩ := bind_ok h₁
  obtain ⟨planned', hplan, h₃⟩ := bind_ok h₂
  obtain ⟨-, -, h₄⟩ := bind_ok h₃
  obtain ⟨⟨⟩, hbytes, h₅⟩ := bind_ok h₄
  cases h₅
  have hempty : Plans s [] ([] : Planned ν) :=
    ⟨List.nodup_nil, fun i hi => (by cases hi), fun r _ _ => (by split <;> rfl)⟩
  exact ⟨hempty.foldlM h hplan, by simpa using aggregate_ok hbytes⟩

/-- A batch of patches changes the rows of all its subscriptions at once. -/
theorem inv_applyPatches (h : s.Inv) (hstack : s.stack = []) {patches : List (RowPatch ν)}
    {cookie : String} {s' : Session ν} (hok : s.applyPatches patches cookie = .ok s') :
    s'.Inv := by
  obtain ⟨planned, hplan, hs⟩ := bind_ok hok
  cases hs
  obtain ⟨hp, hbytes⟩ := planPatches_ok h hplan
  have hinv : Query.Inv
      (s.records.map fun r => if r.held then { r with rows := planned.rows r } else r)
      s.nextSubId s.stack (s.log ++ [.poke patches]) := by
    refine Inv.map h _ (.poke patches) (fun r => ?_) (fun r => ?_) (fun r hr hrh => ?_)
      (fun r hr c hc => ?_) ?_ trivial fun i hi => ?_
    · split <;> rfl
    · split <;> exact id
    · have hheld : r.held = true := by
        split at hrh
        · assumption
        · exact hrh
      have hs := h.shows r hr hheld
      rw [if_pos hheld]
      constructor
      · rw [folded_append]
        show planned.rows r = (foldEntry r.subId (folded s.log r.subId) (.poke patches)).1
        rw [hp.rows r hr hheld, foldEntry, ← hs.ended, ← hs.rows]
        split
        · exact hs.rows
        · rfl
      · rw [folded_append]
        show r.ended = (foldEntry r.subId (folded s.log r.subId) (.poke patches)).2
        rw [foldEntry, ← hs.ended]
        split
        · exact hs.ended
        · rename_i hended
          exact Bool.eq_false_iff.mpr hended
    · refine (h.cookies r hr c ?_).append _
      split at hc
      · exact hc
      · exact hc
    · rw [heldBytes_map s.records _ planned.rows (fun r => by split <;> rfl)
        fun r hr => by rw [if_pos hr]]
      exact hbytes
    · rcases hi with hi | hi <;> cases hi
  refine hinv.push _ hp.nodup (fun i _ => by simp [hstack, waitingOf]) (fun i hi => ?_) nofun nofun
    nofun
  obtain ⟨r, hr, hrh, rfl⟩ := hp.keys i hi
  exact ⟨(h.quiet r hr hrh).append ⟨nofun, nofun⟩, h.fresh r hr⟩

/-- A snapshot takes the place of the rows of a subscription. -/
theorem inv_snapshot (h : s.Inv) {subId : Int} (cookie : String) {rows : List (Json ν)}
    (hbytes : ((s.subs.map (Planned.rows [(subId, rows)])).map rowsBytes).sum ≤
      MAX_RETAINED_QUERY_STATE_BYTES) :
    ((s.update subId fun r =>
      { r with rows, lastSnapshotCookie := some cookie, state := .live }).record
        (.snapshot subId cookie rows)).Inv := by
  refine Inv.map h _ (.snapshot subId cookie rows) (fun r => ?_) (fun r => ?_)
    (fun r hr hrh => ?_) (fun r hr c hc => ?_) ?_ trivial fun i hi => ?_
  · split <;> rfl
  · split <;> exact id
  · by_cases hid : r.subId = subId
    · rw [if_pos hid]
      constructor
      · rw [folded_append, foldEntry, if_pos hid.symm]
      · rw [folded_append, foldEntry, if_pos hid.symm]
        rfl
    · rw [if_neg hid] at hrh ⊢
      have hs := h.shows r hr hrh
      constructor
      · rw [folded_append, foldEntry, if_neg (Ne.symm hid)]
        exact hs.rows
      · rw [folded_append, foldEntry, if_neg (Ne.symm hid)]
        exact hs.ended
  · split at hc
    · cases hc
      exact ⟨subId, rows, by simp⟩
    · exact (h.cookies r hr c hc).append _
  · rw [heldBytes_map s.records _ (Planned.rows [(subId, rows)]) (fun r => by split <;> rfl)
      fun r hr => ?_]
    · exact hbytes
    · unfold Planned.rows
      rw [lookup_cons_if]
      split
      · rfl
      · rfl
  · rcases hi with hi | hi <;> cases hi

/-! ## Steps -/

/-- A handled message keeps the invariant; one that throws leaves records and log as they were. -/
theorem inv_onWire (h : s.Inv) (hstack : s.stack = []) (supported refreshing : Bool)
    (socket : Socket) (m : Down ν) {s' : Session ν} {ok : Bool}
    (hm : s.onWire supported refreshing socket m = (s', ok)) :
    if ok then s'.Inv
    else s'.records = s.records ∧ s'.nextSubId = s.nextSubId ∧ s'.stack = s.stack ∧
      s'.log = s.log := by
  have hfail : ∀ st, (s.failSession st).Inv := inv_failSession h fun _ => by
    rw [hstack]
    rfl
  cases m with
  | welcome baseCookie region colo resumedFromCookie =>
    rw [Session.onWire] at hm
    split at hm
    · cases hm
      exact ⟨rfl, rfl, rfl, rfl⟩
    · split at hm
      · cases hm
        exact hfail _
      · cases hm
        split
        · exact h
        · exact ⟨rfl, rfl, rfl, rfl⟩
  | poke cookie patches mutResults =>
    rw [Session.onWire] at hm
    split at hm
    · cases hm
      exact ⟨rfl, rfl, rfl, rfl⟩
    · split at hm
      · rename_i hok
        cases hm
        exact inv_applyPatches h hstack hok
      · cases hm
        exact ⟨rfl, rfl, rfl, rfl⟩
  | snapshot subId cookie rows =>
    rw [Session.onWire] at hm
    split at hm
    · cases hm
      exact ⟨rfl, rfl, rfl, rfl⟩
    · split at hm
      · cases hm
        exact h
      · rename_i r hr
        obtain ⟨hmem, hid, hrh⟩ := sub?_eq_some hr
        split at hm
        · cases hm
          exact h
        · split at hm
          · rename_i hcookie
            cases hm
            refine inv_acknowledge (inv_release h subId.1) ?_ socket
            rw [release_log]
            exact h.cookies r hmem cookie hcookie
          · split at hm
            · cases hm
              exact ⟨rfl, rfl, rfl, rfl⟩
            · rename_i hok
              obtain ⟨-, -, haggregate⟩ := bind_ok hok
              have hbytes := aggregate_ok haggregate
              simp only [Option.toList_none, List.append_nil] at hbytes
              cases hm
              have hsnap := inv_release (inv_snapshot
                (s := { s.clearSubscriptionRetryTimer subId.1 with lastCookie := some cookie }) h
                cookie hbytes) subId.1
              refine inv_notifyHeld h hr hsnap (fun i hq => ?_) rfl (fun c hc => ?_) nofun
              · rw [release_log]
                exact hq.append ⟨nofun, nofun⟩
              · cases hc
                rw [release_log]
                exact ⟨subId.1, rows, by simp [Session.record]⟩
  | mustRefetch subIds reason =>
    rw [Session.onWire] at hm
    split at hm
    · split at hm
      · cases hm
        exact hfail _
      · cases hm
        exact ⟨rfl, rfl, rfl, rfl⟩
    · split at hm
      · cases hm
        exact ⟨rfl, rfl, rfl, rfl⟩
      · cases hm
        exact inv_refetch _ _ _ h
  | error code subId correlationId =>
    cases subId with
    | none =>
      rw [Session.onWire] at hm
      split at hm
      · cases hm
        exact hfail _
      · split at hm
        · cases hm
          exact inv_disconnectSocket h
        · cases hm
          exact hfail _
    | some subId =>
      rw [Session.onWire] at hm
      split at hm
      · cases hm
        exact ⟨rfl, rfl, rfl, rfl⟩
      · cases hm
        exact inv_applySubscriptionError h _ _

theorem inv_receiveWire (h : s.Inv) (hstack : s.stack = []) (supported refreshing : Bool)
    (socket : Socket) (message : Option (Down ν)) :
    (s.receiveWire supported refreshing socket message).Inv := by
  unfold Session.receiveWire
  split
  · exact h
  · have hreceived : (s.record .received).Inv :=
      h.entry _ (fun _ _ => rfl) trivial fun i hi => by rcases hi with hi | hi <;> cases hi
    cases message with
    | none =>
      exact inv_refuse hreceived rfl (by
        show waitingOf s.stack = []
        rw [hstack]
        rfl)
    | some m =>
      dsimp only
      split
      · rename_i s' hm
        have := inv_onWire hreceived hstack _ _ _ _ hm
        simpa using this
      · rename_i s' hm
        have he := inv_onWire hreceived hstack _ _ _ _ hm
        rw [if_neg (by simp)] at he
        refine inv_refuse (Session.Inv.congr hreceived he) (he.2.2.2.trans rfl) ?_
        rw [he.2.2.1]
        show waitingOf s.stack = []
        rw [hstack]
        rfl

theorem inv_subscribe (h : s.Inv) (accepted : Bool) (socket : Socket) :
    (s.subscribe accepted socket).Inv := by
  have hnext : Query.Inv s.records (s.nextSubId + 1) s.stack s.log :=
    { h with
      fresh := fun r hr => lt_trans (h.fresh r hr) (Int.lt_succ _)
      known := fun i hi => h.known i (by omega)
      awaited := fun i hi => ⟨(h.awaited i hi).1, lt_trans (h.awaited i hi).2 (Int.lt_succ _)⟩ }
  unfold Session.subscribe
  split
  · exact h
  · split
    · exact h
    · rename_i hok
      split
      · exact hnext
      · have hbytes := aggregate_ok hok
        have hopened : Query.Inv s.records (s.nextSubId + 1) s.stack
            (s.log ++ [.opened s.nextSubId]) := by
          have key := Inv.map hnext id (.opened s.nextSubId) (fun _ => rfl) (fun _ hr => hr)
            (fun r hr hrh => ?_) (fun r hr c hc => (h.cookies r hr c hc).append _)
            (by rw [List.map_id]; exact h.bytes) trivial
            fun i hi => by rcases hi with hi | hi <;> cases hi
          · rwa [List.map_id] at key
          · have hne : s.nextSubId ≠ r.subId := (ne_of_lt (h.fresh r hr)).symm
            have hs := h.shows r hr hrh
            constructor
            · rw [folded_append, foldEntry]
              exact hs.rows.trans (by rw [id, if_neg hne])
            · rw [folded_append, foldEntry]
              exact hs.ended.trans (by rw [id, if_neg hne])
        refine { hopened with
          nodup := ?_
          fresh := ?_
          shows := ?_
          quiet := ?_
          cookies := ?_
          bytes := ?_
          detached := ?_ }
        · rw [List.map_append, List.nodup_append]
          refine ⟨h.nodup, List.nodup_singleton _, fun a ha b hb hab => ?_⟩
          obtain ⟨r, hr, rfl⟩ := List.mem_map.mp ha
          rw [List.mem_singleton.mp hb] at hab
          exact absurd hab (ne_of_lt (h.fresh r hr))
        · intro r hr
          rcases List.mem_append.mp hr with hr | hr
          · exact hopened.fresh r hr
          · rw [List.mem_singleton.mp hr]
            exact Int.lt_succ _
        · intro r hr hrh
          rcases List.mem_append.mp hr with hr | hr
          · exact hopened.shows r hr hrh
          · rw [List.mem_singleton.mp hr]
            constructor
            · rw [folded_append, foldEntry, if_pos rfl]
            · rw [folded_append, foldEntry, if_pos rfl]
              rfl
        · intro r hr hrh
          rcases List.mem_append.mp hr with hr | hr
          · exact hopened.quiet r hr hrh
          · rw [List.mem_singleton.mp hr]
            exact (h.known _ le_rfl).append ⟨nofun, nofun⟩
        · intro r hr c hc
          rcases List.mem_append.mp hr with hr | hr
          · exact hopened.cookies r hr c hc
          · rw [List.mem_singleton.mp hr] at hc
            cases hc
        · have hsum := heldBytes_map s.records id (·.rows) (fun _ => rfl) fun _ _ => rfl
          rw [List.map_id] at hsum
          have hplanned : s.subs.map (Planned.rows ([] : Planned ν)) = s.subs.map (·.rows) := rfl
          rw [hplanned] at hbytes
          unfold heldBytes at hsum ⊢
          rw [List.map_append, List.sum_append, hsum]
          simpa [SubRecord.bytes, Session.subs] using hbytes
        · intro st subIds hf r hr hrh
          rcases List.mem_append.mp hr with hr | hr
          · exact h.detached st subIds hf r hr hrh
          · rw [List.mem_singleton.mp hr]
            intro hi
            have := (h.awaited s.nextSubId (List.mem_flatMap.mpr ⟨_, hf, hi⟩)).2
            exact lt_irrefl _ this

theorem inv_unsubscribe (h : s.Inv) {subId : Int} {socket : Socket}
    (hw : subId ∉ waitingOf s.stack)
    (hfails : s.UnsubscribeFails subId socket → waitingOf s.stack = []) :
    (s.unsubscribe subId socket).Inv := by
  unfold Session.unsubscribe
  split
  · exact h
  · rename_i hmem
    obtain ⟨r₀, hr₀, hid₀⟩ := List.mem_map.mp (not_not.mp hmem)
    have hnext : subId < s.nextSubId := hid₀ ▸ h.fresh r₀ hr₀
    dsimp only
    split
    · rename_i hnone
      refine h.entry _ (fun _ _ => rfl) trivial fun i hi => ?_
      rcases hi with hi | hi
      · cases hi
        exact ⟨hnext, hw, sub?_eq_none (Option.isNone_iff_eq_none.mp hnone)⟩
      · cases hi
    · have hremoved : ((s.update subId fun r => { r with held := false }).record
          (.unsubscribed subId)).Inv := by
        refine Inv.map h _ (.unsubscribed subId) (fun r => ?_) (fun r => ?_) (fun r hr hrh => ?_)
          (fun r hr c hc => (h.cookies r hr c ?_).append _) ?_ trivial fun i hi => ?_
        · split <;> rfl
        · split
          · nofun
          · exact id
        · split at hrh
          · cases hrh
          · rename_i hne
            have hs := h.shows r hr hrh
            rw [if_neg hne]
            constructor
            · rw [folded_append]
              exact hs.rows
            · rw [folded_append]
              exact hs.ended
        · split at hc
          · exact hc
          · exact hc
        · refine le_trans (heldBytes_map_le fun r _ => ?_) h.bytes
          split
          · simp [SubRecord.bytes]
          · exact le_rfl
        · rcases hi with hi | hi
          · cases hi
            refine ⟨hnext, hw, fun r _ hrh he => ?_⟩
            rw [if_pos he] at hrh
            cases hrh
          · cases hi
      have he := releaseResumeRetainedSub_eq ((s.update subId fun r => { r with held := false
        }).clearSubscriptionRetryTimer subId) subId
      have hrelease : ((((s.update subId fun r => { r with held := false
          }).clearSubscriptionRetryTimer subId).releaseResumeRetainedSub subId).record
            (.unsubscribed subId)).Inv := by
        refine Session.Inv.congr hremoved ⟨he.1, he.2.1, he.2.2.1, ?_⟩
        show _ ++ _ = _ ++ _
        rw [he.2.2.2]
        rfl
      split
      · rename_i hf
        refine inv_failSession hrelease (fun _ => ?_) _
        show waitingOf (Session.releaseResumeRetainedSub _ subId).stack = []
        rw [he.2.2.1]
        exact hfails hf
      · exact hrelease

/-! ## Runs -/

/-- The subscriptions that handlers have still to notify. -/
def Session.waiting (s : Session ν) : List Int := waitingOf s.stack

/-- No subscription that a handler has still to notify is taken away by a call of user code, and no
send fails that a `mustRefetch` message asks for after it took rows away. -/
def Action.Clear (s : Session ν) : Action ν → Prop
  | .call .close => s.terminated = false → s.waiting = []
  | .call (.unsubscribe subId socket) =>
    subId ∉ s.waiting ∧ (s.UnsubscribeFails subId socket → s.waiting = [])
  | .resume socket => ∀ reason subId subIds rest, s.stack = .refetch reason subId subIds :: rest →
      ¬ (s.Sends reason subId socket ∧ socket = .throws)
  | _ => True

def ClearRun (s : Session ν) : List (Action ν) → Prop
  | [] => True
  | a :: actions => a.Clear s ∧ ClearRun (s.step a) actions

theorem inv_event (h : s.Inv) (hstack : s.stack = []) (e : Event ν) : (s.event e).Inv := by
  have hfail : ∀ {s' : Session ν}, s'.Inv → s'.stack = [] → ∀ st, (s'.failSession st).Inv := by
    intro s' h' hs' st
    refine inv_failSession h' (fun _ => ?_) st
    rw [hs']
    rfl
  cases e with
  | connecting =>
    rw [Session.event]
    split
    · exact h
    · exact h
  | socketMade =>
    rw [Session.event]
    split
    · exact h
    · exact h
  | connectFailed =>
    rw [Session.event]
    split
    · exact h
    · exact hfail h hstack _
  | message supported refreshing socket message =>
    exact inv_receiveWire h hstack _ _ _ _
  | disconnected => exact inv_disconnectSocket h
  | subscriptionRetry subId socket =>
    rw [Session.event]
    split
    · dsimp only
      split
      · exact @hfail (s.clearSubscriptionRetryTimer subId) h hstack _
      · exact h
    · exact h
  | resumeExpiry =>
    rw [Session.event]
    split
    · exact inv_expireRetained h
    · exact h
  | authFailed =>
    rw [Session.event]
    split
    · exact hfail h hstack _
    · exact h

theorem inv_resume {socket : Socket} {f : Frame ν} {rest : List (Frame ν)} (h : s.Inv)
    (hstack : s.stack = f :: rest)
    (hclear : ∀ reason subId subIds, f = .refetch reason subId subIds →
      ¬ (s.Sends reason subId socket ∧ socket = .throws)) :
    ({ s with stack := rest }.resume socket f).Inv := by
  have hfull : Query.Inv s.records s.nextSubId (f :: rest) s.log := hstack ▸ h
  have hpop : Query.Inv s.records s.nextSubId rest s.log := hfull.pop
  cases f with
  | notify subIds cookie =>
    cases subIds with
    | nil => exact hpop
    | cons subId subIds =>
      have hnodup := hfull.waiting
      have hq := hfull.awaited
      simp only [waitingOf, List.flatMap_cons, Frame.waiting, List.cons_append] at hnodup hq
      have hcons := List.nodup_cons.mp hnodup
      have hn := inv_notify (s := { s with stack := rest }) hpop (hq subId (by simp)).1
      refine Inv.push hn _ (List.nodup_append.mp hcons.2).1 (fun i hi hr => ?_) (fun i hi => ?_)
        nofun nofun ?_
      · exact (List.nodup_append.mp hcons.2).2.2 i hi i hr rfl
      · have := hq i (List.mem_cons_of_mem _ (List.mem_append_left _ hi))
        exact ⟨this.1.append ⟨nofun, nofun⟩, this.2⟩
      · nofun
  | snapshot cookie =>
    exact inv_acknowledge (s := { s with stack := rest }) hpop (hfull.acks cookie (by simp)) socket
  | refetch reason subId subIds =>
    exact inv_refetchNext (s := { s with stack := rest }) hpop (hclear reason subId subIds rfl)
  | subscriptionError retryable subId =>
    exact inv_retrySubscription (s := { s with stack := rest }) hpop _ _
  | expire subIds => exact inv_expire (s := { s with stack := rest }) subIds hpop
  | sessionError subState =>
    exact inv_endSubscriptions (s := { s with stack := rest }) hpop hfull.ending.1 subState
  | failSession subState subIds =>
    cases subIds with
    | nil => exact hpop
    | cons subId subIds =>
      have hnodup := hfull.waiting
      have hq := hfull.awaited
      simp only [waitingOf, List.flatMap_cons, Frame.waiting, List.cons_append] at hnodup hq
      have hcons := List.nodup_cons.mp hnodup
      have hdetached := hfull.detached subState (subId :: subIds) (by simp)
      have hne : ∀ r ∈ s.records, r.held = true → r.subId ≠ subId := fun r hr hrh he =>
        hdetached r hr hrh (he ▸ List.mem_cons_self)
      have hlast : Query.Inv (s.records.map fun r => if r.subId = subId then
          { r with state := subState, rows := [] } else r) s.nextSubId rest
          (s.log ++ [.notified subId true]) := by
        refine Inv.map hpop _ (.notified subId true) (fun r => ?_) (fun r => ?_)
          (fun r hr hrh => ?_) (fun r hr c hc => (h.cookies r hr c ?_).append _) ?_
          (hq subId (by simp)).1 fun i hi => ?_
        · split <;> rfl
        · split <;> exact id
        · by_cases he : r.subId = subId
          · rw [if_pos he] at hrh
            exact absurd he (hne r hr hrh)
          · rw [if_neg he] at hrh ⊢
            have hs := h.shows r hr hrh
            constructor
            · rw [folded_append]
              exact hs.rows
            · rw [folded_append]
              exact hs.ended
        · split at hc
          · exact hc
          · exact hc
        · refine le_trans (heldBytes_map_le fun r _ => ?_) h.bytes
          split
          · unfold SubRecord.bytes
            split
            · exact rowsBytes_nil_le _
            · exact le_rfl
          · exact le_rfl
        · rcases hi with hi | hi
          · cases hi
          · cases hi
            refine ⟨(hq subId (by simp)).2, fun hr => hcons.1 (List.mem_append_right _ hr),
              fun r hr hrh => hne r hr ?_⟩
            split at hrh
            · exact hrh
            · exact hrh
      refine Inv.push hlast _ (List.nodup_append.mp hcons.2).1 (fun i hi hr => ?_) (fun i hi => ?_)
        nofun nofun fun st ids hf x hx hxh => ?_
      · exact (List.nodup_append.mp hcons.2).2.2 i hi i hr rfl
      · have := hq i (List.mem_cons_of_mem _ (List.mem_append_left _ hi))
        refine ⟨this.1.append ⟨nofun, fun he => ?_⟩, this.2⟩
        cases he
        exact hcons.1 (List.mem_append_left _ hi)
      · cases hf
        obtain ⟨r, hr, rfl⟩ := List.mem_map.mp hx
        have hid : (if r.subId = subId then { r with state := subState, rows := [] } else r).subId =
            r.subId := by
          split <;> rfl
        rw [hid]
        refine fun hi => hdetached r hr ?_ (List.mem_cons_of_mem _ hi)
        split at hxh
        · exact hxh
        · exact hxh

theorem inv_step (h : s.Inv) {a : Action ν} (hclear : a.Clear s) : (s.step a).Inv := by
  cases a with
  | call c =>
    cases c with
    | subscribe accepted socket => exact inv_subscribe h accepted socket
    | unsubscribe subId socket => exact inv_unsubscribe h hclear.1 hclear.2
    | close => exact inv_failSession h hclear _
  | event e =>
    rw [Session.step]
    split
    · rename_i hempty
      exact inv_event h (List.isEmpty_iff.mp hempty) e
    · exact h
  | resume socket =>
    rw [Session.step]
    split
    · exact h
    · rename_i f rest hstack
      exact inv_resume h hstack fun reason subId subIds hf =>
        hclear reason subId subIds rest (hstack.trans (by rw [hf]))

theorem inv_new : (Session.new : Session ν).Inv where
  nodup := List.nodup_nil
  fresh := fun r hr => by cases hr
  known := fun i _ => ⟨nofun, nofun⟩
  shows := fun r hr => by cases hr
  quiet := fun r hr => by cases hr
  cookies := fun r hr => by cases hr
  acks := fun c hc => by cases hc
  bytes := Nat.zero_le _
  waiting := List.nodup_nil
  awaited := fun i hi => by cases hi
  ending := trivial
  detached := fun st subIds hf => by cases hf
  log := fun before e after he => by
    cases before with
    | nil => cases he
    | cons x before => cases he

theorem inv_run {actions : List (Action ν)} (h : s.Inv) (hclear : ClearRun s actions) :
    (s.run actions).Inv := by
  induction actions generalizing s with
  | nil => exact h
  | cons a actions ih => exact ih (inv_step h hclear.1) hclear.2

/-- The rows of open subscriptions are what the server sent and fit the limit, and every entry of
the log may come after those before it. -/
structure Session.Sound (s : Session ν) : Prop where
  rows : ∀ r ∈ s.subs, r.rows = (folded s.log r.subId).1
  bytes : (s.subs.map fun r => rowsBytes r.rows).sum ≤ MAX_RETAINED_QUERY_STATE_BYTES
  log : LogSound s.log

theorem Inv.sound (h : s.Inv) : s.Sound := by
  refine ⟨fun r hr => ?_, ?_, h.log⟩
  · obtain ⟨hmem, hrh⟩ := mem_subs.mp hr
    exact (h.shows r hmem hrh).rows
  · have hsum := heldBytes_map s.records id (·.rows) (fun _ => rfl) fun _ _ => rfl
    rw [List.map_id, List.map_map] at hsum
    exact hsum ▸ h.bytes

/-- In a run in which user code takes no subscription away that a handler has still to notify, query
state is a fold of what the server sent. -/
theorem query_state_is_fold {actions : List (Action ν)} (hclear : ClearRun Session.new actions) :
    ((Session.new : Session ν).run actions).Sound :=
  Inv.sound (inv_run inv_new hclear)

end

/-- The user closes the client, and the listeners of both subscriptions are called. -/
theorem query_state_is_fold_closed : ((Session.new : Session Int).run
    [.call (.subscribe true .sends), .call (.subscribe true .sends), .call .close, .resume .sends,
      .resume .sends]).Sound := by
  refine query_state_is_fold ⟨trivial, trivial, fun _ => rfl, ?_, ?_, trivial⟩
  · intro reason subId subIds rest h
    cases h
  · intro reason subId subIds rest h
    cases h

/-- The user closes the client, and the listener of one subscription unsubscribes the other. -/
def unsubscribingListener : List (Action Int) :=
  [.call (.subscribe true .sends), .call (.subscribe true .sends), .call .close, .resume .sends,
    .call (.unsubscribe 2 .sends), .resume .sends]

/-- The other listener is called all the same. -/
theorem unsubscribed_listener_notified :
    ¬ ((Session.new : Session Int).run unsubscribingListener).Sound := by
  intro h
  have hlast := h.log [.opened 1, .opened 2, .notified 1 true, .unsubscribed 2] (.notified 2 true)
    [] rfl
  exact hlast.1 (by simp)

end Chardb.Client.Query
