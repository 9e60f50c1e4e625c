import Chardb.Gateway.Deadlines

/-!
# A registration and its Cdb

One registration from its install on: the settlement that installed it, the requests that it and the
cleanups have sent to the Cdb, and what the Cdb has stored for it. A request that was sent may be
executed at any later time, whether or not its sender has given up on it.
-/

namespace Chardb.Gateway

open Chardb.Lib

/-! ## The Cdb -/

/-- `state` of a row of `_chardb_live_subscriptions`. -/
inductive LiveState
  | active
  | retired
  deriving DecidableEq

/-- How `subscribe` judges a request before it stores anything. -/
inductive Judgement
  | throws
  | mismatched
  | stale
  | accepted
  deriving DecidableEq

/-- `persistLiveSubscription`: the row and whether the response is ok; `full` says whether a capacity
is reached. -/
def persistLiveSubscription (existing : Option LiveState) (full : Bool) :
    Option (Option LiveState × Bool) :=
  match existing with
  | some .retired => none
  | some .active => some (some .active, true)
  | none => if full then some (none, false) else some (some .active, true)

/-- `Cdb.subscribe`; a response that is not ok says that the registration is absent. -/
def subscribe (existing : Option LiveState) (judgement : Judgement) (full : Bool) :
    Option (Option LiveState × Bool) :=
  match judgement with
  | .throws => none
  | .mismatched => some (existing, false)
  | .stale => if existing.isSome then none else some (existing, false)
  | .accepted => persistLiveSubscription existing full

/-- `retireLiveSubscription`: a tombstone needs room, unless it is there. -/
def retireLiveSubscription (existing : Option LiveState) (full : Bool) : Option (Option LiveState) :=
  if existing ≠ some .retired ∧ full = true then none else some (some .retired)

/-- `finalizeRetiredLiveSubscription`. -/
def finalizeRetiredLiveSubscription : Option LiveState → Option (Option LiveState)
  | none => some none
  | some .active => none
  | some .retired => some none

/-! ## The Gateway and the requests in flight -/

/-- Where `settleSubscription` is, once it has installed the registration. -/
inductive Settlement
  | installed
  | subscribing
  | settled
  deriving DecidableEq

structure Registration where
  gateway : GatewayDb
  settlement : Settlement
  /-- The subscribe request has been sent and not been executed. -/
  subscribeInFlight : Bool
  response : Option Bool
  /-- Requests that have not been executed, and cleanups that have the outcome of theirs. -/
  unsubscribesInFlight : Nat
  unsubscribed : Nat
  finalizesInFlight : Nat
  finalized : Nat
  cleaning : Bool
  cdb : Option LiveState

/-- After the transaction that installs the registration. -/
def Registration.installed (gateway : GatewayDb) : Registration where
  gateway
  settlement := .installed
  subscribeInFlight := false
  response := none
  unsubscribesInFlight := 0
  unsubscribed := 0
  finalizesInFlight := 0
  finalized := 0
  cleaning := false
  cdb := none

inductive RegistrationEvent
  /-- Any other operation of the store; also the recovery deadline, an unsub and a close. -/
  | store (op : GatewayOp)
  | cancel
  | sendSubscribe
  | executeSubscribe (judgement : Judgement) (full : Bool)
  | respond (cancelled superseded : Bool) (changeSeq nowMs : Nat)
  | loseResponse (nowMs : Nat)
  | stop
  | sendUnsubscribe (nowMs : Nat)
  | executeUnsubscribe (throws full answered : Bool)
  | sendFinalize
  | executeFinalize (throws answered : Bool)
  | completeCleanup

/-- The operation does not remove the registration or install its id, which is random. -/
def GatewayOp.Foreign (registrationId : String) : GatewayOp → Prop
  | install input _ => input.identity.registrationId ≠ registrationId
  | deleteNeverRegistered i => i.registrationId ≠ registrationId
  | cleanup _ id => id ≠ registrationId
  | completeCleanup i _ => i.registrationId ≠ registrationId
  | _ => True

instance (registrationId : String) : DecidablePred (GatewayOp.Foreign registrationId)
  | .install input _ => inferInstanceAs (Decidable (input.identity.registrationId ≠ registrationId))
  | .deleteNeverRegistered i => inferInstanceAs (Decidable (i.registrationId ≠ registrationId))
  | .cleanup _ id => inferInstanceAs (Decidable (id ≠ registrationId))
  | .completeCleanup i _ => inferInstanceAs (Decidable (i.registrationId ≠ registrationId))
  | .arm .. | .activate .. | .markAmbiguous .. | .invalidate .. | .claim .. | .stage .. | .failRun ..
  | .deferRun .. | .claimSend .. | .markSendBase .. | .discardSend .. | .failSend ..
  | .acknowledge .. | .resume .. | .retire .. | .retireCurrent .. | .retireConnection ..
  | .retireRun .. | .retireSend .. | .cleanupFailure .. => isTrue trivial

namespace Registration

/-- `settleAmbiguous`, one transaction. -/
def settleAmbiguous (db : GatewayDb) (i : Identity) (nowMs : Nat) : GatewayDb :=
  match db.markPendingGatewaySubscriptionAmbiguous i nowMs with
  | some (db, true) => db
  | some (db', false) =>
    ((db'.retireGatewayRegistration i.key i.registrationId nowMs).map Prod.fst).getD db
  | none => db

/-- A cleanup of the registration is due. -/
def CleanupDue (db : GatewayDb) (i : Identity) (nowMs : Nat) : Prop :=
  ∃ g ∈ db.dueGatewayCleanupRows nowMs, g.Is i

instance (db : GatewayDb) (i : Identity) (nowMs : Nat) : Decidable (CleanupDue db i nowMs) :=
  inferInstanceAs (Decidable (∃ g ∈ db.dueGatewayCleanupRows nowMs, g.Is i))

/-- What an event makes of the registration, where it can happen. -/
def step (i : Identity) (sourceCdbId : String) (w : Registration) :
    RegistrationEvent → Option Registration
  | .store op =>
    if op.Foreign i.registrationId then some { w with gateway := w.gateway.step op } else none
  | .cancel =>
    if w.settlement = .installed then
      some { w with gateway := w.gateway.step (.deleteNeverRegistered i), settlement := .settled }
    else none
  | .sendSubscribe =>
    if w.settlement = .installed then
      some { w with settlement := .subscribing, subscribeInFlight := true }
    else none
  | .executeSubscribe judgement full =>
    if w.subscribeInFlight then
      match subscribe w.cdb judgement full with
      | none => some { w with subscribeInFlight := false }
      | some (cdb, ok) => some { w with subscribeInFlight := false, cdb, response := some ok }
    else none
  | .respond cancelled superseded changeSeq nowMs =>
    if w.settlement ≠ .subscribing then none
    else match w.response with
      | none => none
      | some false =>
        some { w with gateway := w.gateway.step (.deleteNeverRegistered i), settlement := .settled }
      | some true =>
        if cancelled then
          some { w with gateway := settleAmbiguous w.gateway i nowMs, settlement := .settled }
        else match w.gateway.activateGatewaySubscription i changeSeq nowMs with
          | some (db, true) =>
            some { w with
              gateway := if superseded then settleAmbiguous db i nowMs else db
              settlement := .settled }
          | some (db, false) =>
            some { w with gateway := settleAmbiguous db i nowMs, settlement := .settled }
          | none => some { w with settlement := .settled }
  | .loseResponse nowMs =>
    if w.settlement = .subscribing then
      some { w with gateway := settleAmbiguous w.gateway i nowMs, settlement := .settled }
    else none
  | .stop => some { w with settlement := .settled }
  | .sendUnsubscribe nowMs =>
    if CleanupDue w.gateway i nowMs ∨ w.cleaning = true then
      some { w with unsubscribesInFlight := w.unsubscribesInFlight + 1, cleaning := true }
    else none
  | .executeUnsubscribe throws full answered =>
    if w.unsubscribesInFlight = 0 then none
    else
      let w := { w with unsubscribesInFlight := w.unsubscribesInFlight - 1 }
      match if throws then none else retireLiveSubscription w.cdb full with
      | none => some w
      | some cdb => some { w with cdb, unsubscribed := w.unsubscribed + answered.toNat }
  | .sendFinalize =>
    if w.unsubscribed = 0 then none
    else some { w with
      unsubscribed := w.unsubscribed - 1
      finalizesInFlight := w.finalizesInFlight + 1 }
  | .executeFinalize throws answered =>
    if w.finalizesInFlight = 0 then none
    else
      let w := { w with finalizesInFlight := w.finalizesInFlight - 1 }
      match if throws then none else finalizeRetiredLiveSubscription w.cdb with
      | none => some w
      | some cdb => some { w with cdb, finalized := w.finalized + answered.toNat }
  | .completeCleanup =>
    if w.finalized = 0 then none
    else some { w with
      gateway := w.gateway.step (.completeCleanup i sourceCdbId)
      finalized := w.finalized - 1 }

def run (i : Identity) (sourceCdbId : String) (w : Registration) :
    List RegistrationEvent → Option Registration
  | [] => some w
  | e :: es => (w.step i sourceCdbId e).bind fun w => w.run i sourceCdbId es

/-- The subscribe request may still reach the Cdb. -/
def Outstanding (w : Registration) : Prop :=
  w.settlement = .installed ∨ w.subscribeInFlight = true

/-- The Gateway still has the generation. -/
def Owned (i : Identity) (w : Registration) : Prop :=
  (w.gateway.generations.find? i.registrationId).isSome = true

/-- A tombstone goes only when no subscribe request can reach the Cdb any more. -/
def FinalizesLast (w : Registration) : RegistrationEvent → Prop
  | .executeFinalize throws _ => throws = false → w.cdb = some .retired → ¬ w.Outstanding
  | _ => True

/-! ## What the Gateway does to its generation -/

variable {i : Identity} {sourceCdbId : String} {w w' : Registration}

theorem settleAmbiguous_steps {db : GatewayDb} (h : Inv db) (nowMs : Nat) :
    Steps db (settleAmbiguous db i nowMs) := by
  unfold settleAmbiguous
  split
  · exact Steps.markAmbiguous h ‹_›
  · rename_i db' hm
    have hstep := Steps.markAmbiguous h hm
    cases hr : db'.retireGatewayRegistration i.key i.registrationId nowMs with
    | none => exact .refl h
    | some r => exact hstep.trans (Steps.retire hstep.inv hr)
  · exact .refl h

theorem owned_of_steps {db db' : GatewayDb} {id : String} (h : Steps db db')
    (ho : (db.generations.find? id).isSome = true) :
    (db'.generations.find? id).isSome = true := by
  obtain ⟨g, hg⟩ := Option.isSome_iff_exists.mp ho
  obtain ⟨g', hg', -⟩ := h.keeps id g hg
  rw [hg']
  rfl

theorem owned_store {db : GatewayDb} {op : GatewayOp} {id : String} (h : Inv db)
    (hf : op.Foreign id) (ho : (db.generations.find? id).isSome = true) :
    ((db.step op).generations.find? id).isSome = true := by
  obtain ⟨g, hg⟩ := Option.isSome_iff_exists.mp ho
  rcases step_generation h op hg with ⟨g', hg', -⟩ | ⟨hclean, -⟩ | ⟨j, rfl, hid, -⟩
  · rw [hg']
    rfl
  · cases op with
    | cleanup => exact absurd hclean hf
    | completeCleanup => exact absurd hclean hf
    | _ => exact hclean.elim
  · exact absurd hid hf

/-! ## The invariant -/

structure Kept (i : Identity) (w : Registration) : Prop where
  inv : Inv w.gateway
  sent : w.subscribeInFlight = true → w.settlement ≠ .installed
  active : w.cdb = some .active → w.subscribeInFlight = false ∧ w.settlement ≠ .installed
  answered : ∀ ok, w.response = some ok → w.subscribeInFlight = false ∧ w.settlement ≠ .installed ∧
    (ok = false → w.cdb ≠ some .active)
  tombstone : 0 < w.unsubscribed + w.finalizesInFlight →
    w.cdb ≠ some .active ∧ (w.Outstanding → w.cdb = some .retired)
  finalized : 0 < w.finalized → ¬ w.Outstanding ∧ w.cdb ≠ some .active
  owned : w.cdb = some .active ∨ w.Outstanding → w.Owned i ∨ w.cdb = some .retired

/-- Once it is settled, a registration that has no request in flight is not to be subscribed. -/
theorem Kept.settle (h : Kept i w) {db : GatewayDb} (hinv : Inv db)
    (ho : w.cdb = some .active ∨ w.subscribeInFlight = true →
      w.Owned i → (db.generations.find? i.registrationId).isSome = true) :
    Kept i { w with gateway := db, settlement := .settled } := by
  have hout : ({ w with gateway := db, settlement := .settled } : Registration).Outstanding →
      w.subscribeInFlight = true := fun hx => hx.elim (fun hs => by cases hs) id
  refine ⟨hinv, fun _ hs => (by cases hs), fun ha => ⟨(h.active ha).1, fun hs => (by cases hs)⟩,
    fun ok hr => ⟨(h.answered ok hr).1, fun hs => (by cases hs), (h.answered ok hr).2.2⟩,
    fun ht => ⟨(h.tombstone ht).1, fun hx => (h.tombstone ht).2 (.inr (hout hx))⟩,
    fun hf => ⟨fun hx => (h.finalized hf).1 (.inr (hout hx)), (h.finalized hf).2⟩, fun hx => ?_⟩
  have hx : w.cdb = some .active ∨ w.subscribeInFlight = true := hx.imp_right hout
  rcases h.owned (hx.imp_right .inr) with hrow | hret
  · exact .inl (ho hx hrow)
  · exact .inr hret

/-- Only the Gateway's tables change, and the generation stays. -/
theorem Kept.gateway (h : Kept i w) {db : GatewayDb} (hs : Inv db)
    (ho : w.Owned i → (db.generations.find? i.registrationId).isSome = true) :
    Kept i { w with gateway := db } :=
  ⟨hs, h.sent, h.active, h.answered, h.tombstone, h.finalized,
    fun hx => (h.owned hx).imp_left ho⟩

theorem kept_executeSubscribe (h : Kept i w) (hreq : w.subscribeInFlight = true)
    {judgement : Judgement} {full ok : Bool} {cdb : Option LiveState}
    (hs : subscribe w.cdb judgement full = some (cdb, ok)) :
    Kept i { w with subscribeInFlight := false, cdb, response := some ok } := by
  have hnot := h.sent hreq
  have hout : ¬ ({ w with subscribeInFlight := false, cdb, response := some ok } :
      Registration).Outstanding := fun hx => hx.elim hnot (fun hf => by cases hf)
  have hna : w.cdb ≠ some .active := fun ha => by
    have := (h.active ha).1
    rw [hreq] at this
    cases this
  have hcdb : cdb = w.cdb ∨ (w.cdb = none ∧ cdb = some .active ∧ ok = true) := by
    cases judgement with
    | throws => cases hs
    | mismatched =>
      cases hs
      exact .inl rfl
    | stale =>
      unfold subscribe at hs
      dsimp only at hs
      split at hs
      · cases hs
      · cases hs
        exact .inl rfl
    | accepted =>
      unfold subscribe persistLiveSubscription at hs
      dsimp only at hs
      split at hs
      · cases hs
      · cases hs
        rename_i hc
        exact .inl hc.symm
      · rename_i hc
        split at hs
        · cases hs
          exact .inl hc.symm
        · cases hs
          exact .inr ⟨hc, rfl, rfl⟩
  refine ⟨h.inv, fun hf => (by cases hf), fun _ => ⟨rfl, hnot⟩, fun ok' hr => ⟨rfl, hnot, ?_⟩,
    fun ht => ⟨?_, fun hx => absurd hx hout⟩, fun hf => ?_, fun hx => ?_⟩
  · obtain rfl := Option.some.inj hr
    intro hok
    rcases hcdb with rfl | ⟨-, -, hok'⟩
    · exact hna
    · rw [hok] at hok'
      cases hok'
  · have hret := (h.tombstone ht).2 (.inr hreq)
    rcases hcdb with rfl | ⟨hnone, -⟩
    · exact hna
    · rw [hret] at hnone
      cases hnone
  · exact absurd (.inr hreq) (h.finalized hf).1
  · rcases hcdb with rfl | ⟨hnone, -, -⟩
    · exact absurd (hx.resolve_right hout) hna
    · rcases h.owned (.inr (.inr hreq)) with ho | hret
      · exact .inl ho
      · rw [hret] at hnone
        cases hnone

theorem kept_executeFinalize (h : Kept i w) (hf : 0 < w.finalizesInFlight) {cdb : Option LiveState}
    (hlast : w.cdb = some .retired → ¬ w.Outstanding)
    (hs : finalizeRetiredLiveSubscription w.cdb = some cdb) (n : Nat) :
    Kept i { w with
      finalizesInFlight := w.finalizesInFlight - 1, cdb, finalized := w.finalized + n } := by
  obtain ⟨hna, hret⟩ := h.tombstone (by omega)
  have hcdb : cdb = none := by
    unfold finalizeRetiredLiveSubscription at hs
    split at hs
    · exact (Option.some.inj hs).symm
    · cases hs
    · exact (Option.some.inj hs).symm
  have hout : ¬ w.Outstanding := fun hx => hlast (hret hx) hx
  subst hcdb
  exact ⟨h.inv, h.sent, fun ha => (by cases ha),
    fun ok hr => ⟨(h.answered ok hr).1, (h.answered ok hr).2.1, fun _ ha => (by cases ha)⟩,
    fun _ => ⟨fun ha => (by cases ha), fun hx => absurd hx hout⟩,
    fun _ => ⟨hout, fun ha => (by cases ha)⟩,
    fun hx => hx.elim (fun ha => (by cases ha)) (fun hx => absurd hx hout)⟩

theorem kept_executeUnsubscribe (h : Kept i w) {full : Bool} {cdb : Option LiveState}
    (hs : retireLiveSubscription w.cdb full = some cdb) (m n : Nat) :
    Kept i { w with unsubscribesInFlight := m, cdb, unsubscribed := w.unsubscribed + n } := by
  have hcdb : cdb = some .retired := by
    unfold retireLiveSubscription at hs
    split at hs
    · cases hs
    · exact (Option.some.inj hs).symm
  subst hcdb
  exact ⟨h.inv, h.sent, fun ha => (by cases ha),
    fun ok hr => ⟨(h.answered ok hr).1, (h.answered ok hr).2.1, fun _ ha => (by cases ha)⟩,
    fun _ => ⟨fun ha => (by cases ha), fun _ => rfl⟩,
    fun hf => ⟨(h.finalized hf).1, fun ha => (by cases ha)⟩, fun _ => .inr rfl⟩

/-- Requests and outcomes that get lost, or pass from one stage of a cleanup to the next. -/
theorem Kept.counts (h : Kept i w) {a b c d : Nat} (cleaning : Bool)
    (ht : 0 < b + c → 0 < w.unsubscribed + w.finalizesInFlight) (hd : 0 < d → 0 < w.finalized) :
    Kept i { w with
      unsubscribesInFlight := a
      unsubscribed := b
      finalizesInFlight := c
      finalized := d
      cleaning } :=
  ⟨h.inv, h.sent, h.active, h.answered, fun hx => h.tombstone (ht hx),
    fun hx => h.finalized (hd hx), h.owned⟩

theorem kept_respond (h : Kept i w) {cancelled superseded : Bool} {changeSeq nowMs : Nat}
    (hs : w.step i sourceCdbId (.respond cancelled superseded changeSeq nowMs) = some w') :
    Kept i w' := by
  simp only [step] at hs
  split at hs
  · cases hs
  · split at hs
    · cases hs
    · -- the registration is absent at the Cdb, and no request is left to change that
      rename_i hr
      obtain ⟨hreq, -, hna⟩ := h.answered false hr
      cases hs
      refine h.settle (inv_step h.inv _) fun hx => ?_
      rcases hx with ha | hx
      · exact absurd ha (hna rfl)
      · rw [hreq] at hx
        cases hx
    · have hamb := fun {db : GatewayDb} (hd : Inv db) => settleAmbiguous_steps (i := i) hd nowMs
      split at hs
      · cases hs
        exact h.settle (hamb h.inv).inv fun _ ho => owned_of_steps (hamb h.inv) ho
      · split at hs
        · rename_i db hact
          have hstep := Steps.activate h.inv hact
          cases hs
          cases superseded with
          | true =>
            have hstep' := hstep.trans (hamb hstep.inv)
            exact h.settle hstep'.inv fun _ ho => owned_of_steps hstep' ho
          | false => exact h.settle hstep.inv fun _ ho => owned_of_steps hstep ho
        · rename_i db hact
          have hstep := Steps.activate h.inv hact
          have hstep' := hstep.trans (hamb hstep.inv)
          cases hs
          exact h.settle hstep'.inv fun _ ho => owned_of_steps hstep' ho
        · cases hs
          exact h.settle h.inv fun _ ho => ho

theorem kept_step (h : Kept i w) {e : RegistrationEvent} (hlast : w.FinalizesLast e)
    (hs : w.step i sourceCdbId e = some w') : Kept i w' := by
  cases e with
  | store op =>
    simp only [step] at hs
    split at hs
    · rename_i hf
      cases hs
      exact h.gateway (inv_step h.inv op) (owned_store h.inv hf)
    · cases hs
  | cancel =>
    simp only [step] at hs
    split at hs
    · rename_i hset
      cases hs
      refine h.settle (inv_step h.inv _) fun hx => ?_
      rcases hx with ha | hx
      · exact absurd hset (h.active ha).2
      · exact absurd hset (h.sent hx)
    · cases hs
  | sendSubscribe =>
    simp only [step] at hs
    split at hs
    · rename_i hset
      cases hs
      have hout : w.Outstanding := .inl hset
      exact ⟨h.inv, fun _ hx => (by cases hx), fun ha => absurd hset (h.active ha).2,
        fun ok hr => absurd hset (h.answered ok hr).2.1,
        fun ht => ⟨(h.tombstone ht).1, fun _ => (h.tombstone ht).2 hout⟩,
        fun hf => absurd hout (h.finalized hf).1, fun _ => h.owned (.inr hout)⟩
    · cases hs
  | executeSubscribe judgement full =>
    simp only [step] at hs
    split at hs
    · rename_i hreq
      split at hs
      · cases hs
        have hnot := h.sent hreq
        have hsub : ∀ {p : Prop}, ({ w with subscribeInFlight := false } :
            Registration).Outstanding → p := fun hx =>
          hx.elim (fun hi => absurd hi hnot) (fun hf => by cases hf)
        exact ⟨h.inv, fun hf => (by cases hf), fun ha => ⟨rfl, (h.active ha).2⟩,
          fun ok hr => ⟨rfl, (h.answered ok hr).2⟩, fun ht => ⟨(h.tombstone ht).1, hsub⟩,
          fun hf => ⟨hsub, (h.finalized hf).2⟩, fun hx => hx.elim (fun ha => h.owned (.inl ha)) hsub⟩
      · rename_i cdb ok hsub
        cases hs
        exact kept_executeSubscribe h hreq hsub
    · cases hs
  | respond => exact kept_respond h hs
  | loseResponse nowMs =>
    simp only [step] at hs
    split at hs
    · cases hs
      have hamb := settleAmbiguous_steps (i := i) h.inv nowMs
      exact h.settle hamb.inv fun _ ho => owned_of_steps hamb ho
    · cases hs
  | stop =>
    cases hs
    exact h.settle h.inv fun _ ho => ho
  | sendUnsubscribe nowMs =>
    simp only [step] at hs
    split at hs
    · cases hs
      exact h.counts true id id
    · cases hs
  | executeUnsubscribe throws full answered =>
    simp only [step] at hs
    split at hs
    · cases hs
    · split at hs
      · cases hs
        exact h.counts w.cleaning id id
      · rename_i cdb hret
        cases hs
        split at hret
        · cases hret
        · exact kept_executeUnsubscribe h hret _ _
  | sendFinalize =>
    simp only [step] at hs
    split at hs
    · cases hs
    · cases hs
      exact h.counts w.cleaning (by omega) id
  | executeFinalize throws answered =>
    simp only [step] at hs
    split at hs
    · cases hs
    · rename_i hpos
      split at hs
      · cases hs
        exact h.counts w.cleaning (by omega) id
      · rename_i cdb hfin
        cases hs
        split at hfin
        · cases hfin
        · rename_i hthrows
          exact kept_executeFinalize h (Nat.pos_of_ne_zero hpos)
            (hlast (Bool.eq_false_iff.mpr hthrows)) hfin _
  | completeCleanup =>
    simp only [step] at hs
    split at hs
    · cases hs
    · rename_i hpos
      cases hs
      obtain ⟨hout, hna⟩ := h.finalized (Nat.pos_of_ne_zero hpos)
      exact ⟨inv_step h.inv _, h.sent, h.active, h.answered, h.tombstone,
        fun _ => ⟨hout, hna⟩, fun hx => hx.elim (fun ha => absurd ha hna) (fun hx => absurd hx hout)⟩

/-! ## Runs -/

/-- What a registration can come to when every tombstone outlives its subscribe request. -/
inductive Reached (i : Identity) (sourceCdbId : String) : Registration → Prop
  | install (ops : List GatewayOp) (input : GatewayDb.Install) (recoveryAt : Nat)
      (previous : Option String) (db db' : GatewayDb) (hi : input.identity = i)
      (hs : input.sourceCdbId = sourceCdbId)
      (hinstall : (GatewayDb.empty.run ops).installGatewayRegistration input false =
        some (db, previous))
      (harm : db.armGatewaySubscriptionRecovery i recoveryAt input.nowMs = some (db', true)) :
      Reached i sourceCdbId (.installed db')
  | step (w w' : Registration) (e : RegistrationEvent) (h : Reached i sourceCdbId w)
      (hlast : w.FinalizesLast e) (hs : w.step i sourceCdbId e = some w') :
      Reached i sourceCdbId w'

/-- The generation is there once its recovery is armed. -/
theorem owned_of_armed {db db' : GatewayDb} {recoveryAt nowMs : Nat}
    (h : Inv db) (harm : db.armGatewaySubscriptionRecovery i recoveryAt nowMs = some (db', true)) :
    (db'.generations.find? i.registrationId).isSome = true := by
  refine owned_of_steps (Steps.arm h harm) ?_
  unfold GatewayDb.armGatewaySubscriptionRecovery at harm
  split at harm
  · cases harm
  · obtain ⟨⟨d, n⟩, hu, he⟩ := Option.map_eq_some_iff.mp harm
    obtain ⟨-, hn⟩ := Prod.mk.inj he
    obtain ⟨-, -, rfl, -⟩ := updateGenerations_find hu fun _ => rfl
    obtain ⟨g, hg, hp⟩ := select_eq_one (eq_of_beq hn)
    obtain ⟨⟨hid, -⟩, -⟩ := of_decide_eq_true hp
    rw [← hid, find_generation hg]
    rfl

theorem Reached.kept (h : Reached i sourceCdbId w) : Kept i w := by
  induction h with
  | install ops input recoveryAt previous db db' hi hs hinstall harm =>
    have hinv := (Steps.install (inv_run inv_empty ops) hinstall).inv
    exact ⟨(Steps.arm hinv harm).inv, fun hx => (by cases hx), fun ha => (by cases ha),
      fun ok hr => (by cases hr), fun ht => absurd ht (Nat.lt_irrefl 0),
      fun hf => absurd hf (Nat.lt_irrefl 0), fun _ => .inl (owned_of_armed hinv harm)⟩
  | step w w' e _ hlast hs ih => exact kept_step ih hlast hs

/-- As long as no tombstone goes before the subscribe request is done with, a registration that is
active at the Cdb has its generation at the Gateway. -/
theorem active_registration_owned (h : Reached i sourceCdbId w) (ha : w.cdb = some .active) :
    w.Owned i := by
  rcases h.kept.owned (.inl ha) with ho | hret
  · exact ho
  · rw [ha] at hret
    cases hret

/-! ## A request that comes late -/

private def orphan : Identity := ⟨"registration", ⟨"principal", "client", 1⟩, "connection"⟩

private def orphanInstall : GatewayDb.Install where
  identity := orphan
  organizationId := "organization"
  payload := .retired
  sourceCdbId := "cdb"
  schemaEpoch := 0
  recoveryGeneration := 0
  domainSchemaEpoch := 0
  authEpochs := ⟨0, 0, 0⟩
  nowMs := 0

private def orphanInstalled : Registration :=
  .installed (GatewayDb.empty.run [.install orphanInstall false, .arm orphan 30000 0])

/-- The sender of the subscribe request gives up on it at 10, and the cleanup that follows is done
before the request is executed. -/
private def lateSubscribe : List RegistrationEvent :=
  [.sendSubscribe, .loseResponse 10, .sendUnsubscribe 10, .executeUnsubscribe false false true,
    .sendFinalize, .executeFinalize false true, .completeCleanup, .executeSubscribe .accepted false]

/-- The Cdb keeps a registration active of which the Gateway has no generation. -/
theorem late_subscribe_orphaned :
    (orphanInstalled.run orphan "cdb" lateSubscribe).map
      (fun w => (w.cdb, (w.gateway.generations.find? orphan.registrationId).isSome)) =
        some (some .active, false) := by
  decide +kernel

private theorem orphanInstalled_reached : Reached orphan "cdb" orphanInstalled :=
  .install [] orphanInstall 30000 none _ _ rfl rfl rfl rfl

/-- The request is executed in time. -/
theorem subscribed_registration_owned :
    ∃ w, orphanInstalled.run orphan "cdb" [.sendSubscribe, .executeSubscribe .accepted false] =
      some w ∧ w.Owned orphan := by
  refine ⟨_, rfl, @active_registration_owned orphan "cdb" _ ?_ rfl⟩
  exact .step _ _ (.executeSubscribe .accepted false)
    (.step _ _ .sendSubscribe orphanInstalled_reached trivial rfl) trivial rfl

end Registration

end Chardb.Gateway
