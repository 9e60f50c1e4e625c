import Chardb.Gateway.SubscriptionAdmission

/-!
# What admission keeps

Only a sub message admits anything; every other step takes away, or turns what was admitted into a
head or a delivered sub id. `Shrinks` says so of one step, and the bounds follow.
-/

namespace Chardb.Gateway.AdmissionWorld

open Chardb.Lib

variable {w w' : AdmissionWorld}

theorem mem_capacityKeys {k : RegistrationKey} :
    k ∈ w.capacityKeys ↔ (∃ h ∈ w.heads.rows, h.key = k) ∨
      ∃ p ∈ w.pending.rows, p.cancelled = false ∧ p.capacityKey = k := by
  unfold capacityKeys
  rw [Finset.mem_union, List.mem_toFinset, List.mem_toFinset, List.mem_map, List.mem_map]
  refine or_congr Iff.rfl (exists_congr fun p => ?_)
  rw [Table.mem_select, Bool.not_eq_true', and_assoc]
  rfl

theorem mem_admittedSubIds {c : String} {n : Nat} :
    n ∈ w.admittedSubIds c ↔ n ∈ w.delivered c ∨
      ∃ p ∈ w.pending.rows, p.connectionId = c ∧ p.cancelled = false ∧ p.subId = n := by
  unfold admittedSubIds
  rw [Finset.mem_union, List.mem_toFinset, List.mem_map]
  refine or_congr Iff.rfl (exists_congr fun p => ?_)
  rw [Table.mem_select, Bool.and_eq_true, decide_eq_true_eq, Bool.not_eq_true', and_assoc, and_assoc]
  rfl

/-! ## Steps that admit nothing -/

structure Shrinks (w w' : AdmissionWorld) : Prop where
  next : w'.next = w.next
  pending : ∀ p' ∈ w'.pending.rows, ∃ p ∈ w.pending.rows, p.connectionId = p'.connectionId ∧
    p.subId = p'.subId ∧ p.capacityKey = p'.capacityKey ∧ p.task = p'.task ∧
      (p'.cancelled = false → p.cancelled = false)
  tasks : ∀ t' ∈ w'.tasks.rows, ∃ t ∈ w.tasks.rows, t.task = t'.task ∧
    t.connectionId = t'.connectionId ∧ t.subId = t'.subId ∧ t.capacityKey = t'.capacityKey
  heads : ∀ h' ∈ w'.heads.rows,
    (∃ h ∈ w.heads.rows, h.key = h'.key ∧ h.task = h'.task ∧
      (h'.active = true → h.active = true ∨ h'.task ∈ w'.activations)) ∨
    (h'.task ∈ w'.installs ∧ h'.active = false ∧
      ∃ p ∈ w.pending.rows, p.cancelled = false ∧ p.capacityKey = h'.key)
  delivered : ∀ c, ∀ n ∈ w'.delivered c, n ∈ w.admittedSubIds c
  installs : ∀ t ∈ w.installs, t ∈ w'.installs
  installs_live : ∀ t ∈ w'.installs, t ∈ w.installs ∨ w.Live t
  activations : ∀ t ∈ w.activations, t ∈ w'.activations
  activations_live : ∀ t ∈ w'.activations, t ∈ w.activations ∨ w.Live t

theorem Shrinks.refl (w : AdmissionWorld) : Shrinks w w :=
  ⟨rfl, fun p hp => ⟨p, hp, rfl, rfl, rfl, rfl, id⟩, fun t ht => ⟨t, ht, rfl, rfl, rfl, rfl⟩,
    fun h hh => .inl ⟨h, hh, rfl, rfl, .inl⟩, fun _ _ hn => mem_admittedSubIds.mpr (.inl hn),
    fun _ ht => ht, fun _ => .inl, fun _ ht => ht, fun _ => .inl⟩

theorem Shrinks.setPhase (h : Shrinks w w') (task : Nat) (phase : AdmissionPhase) :
    Shrinks w (w'.setPhase task phase) := by
  unfold AdmissionWorld.setPhase
  split
  · rename_i tasks hu
    refine ⟨h.next, h.pending, fun t' ht' => ?_, h.heads, h.delivered, h.installs, h.installs_live,
      h.activations, h.activations_live⟩
    obtain ⟨t, ht, rfl⟩ := (Table.mem_update hu).mp ht'
    obtain ⟨t₀, ht₀, h₁, h₂, h₃, h₄⟩ := h.tasks t ht
    refine ⟨t₀, ht₀, ?_⟩
    split
    · exact ⟨h₁, h₂, h₃, h₄⟩
    · exact ⟨h₁, h₂, h₃, h₄⟩
  · exact h

theorem Shrinks.forget (h : Shrinks w w') (task : Nat) : Shrinks w (w'.forget task) :=
  ⟨h.next, fun p' hp' => h.pending p' (Table.mem_deleteWhere.mp hp').1, h.tasks, h.heads, h.delivered,
    h.installs, h.installs_live, h.activations, h.activations_live⟩

/-- Entries change, but not what they are about; none is revived. -/
theorem shrinks_pending {pending : Table PendingSubscription.operationKey fun _ => True}
    {p : PendingSubscription → Bool} {f : PendingSubscription → PendingSubscription}
    (hu : w.pending.update? p f = some pending)
    (hf : ∀ e, (f e).connectionId = e.connectionId ∧ (f e).subId = e.subId ∧
      (f e).capacityKey = e.capacityKey ∧ (f e).task = e.task ∧
        ((f e).cancelled = false → e.cancelled = false)) : Shrinks w { w with pending } := by
  refine { Shrinks.refl w with pending := fun p' hp' => ?_ }
  obtain ⟨e, he, rfl⟩ := (Table.mem_update hu).mp hp'
  refine ⟨e, he, ?_⟩
  split
  · obtain ⟨h₁, h₂, h₃, h₄, h₅⟩ := hf e
    exact ⟨h₁.symm, h₂.symm, h₃.symm, h₄.symm, h₅⟩
  · exact ⟨rfl, rfl, rfl, rfl, id⟩

theorem shrinks_cancelWhere (w : AdmissionWorld) (p : PendingSubscription → Bool) :
    Shrinks w (w.cancelWhere p) := by
  unfold cancelWhere
  split
  · rename_i pending hu
    exact shrinks_pending hu fun e => ⟨rfl, rfl, rfl, rfl, fun hc => (by cases hc)⟩
  · exact .refl w

theorem shrinks_deleteHeads (w : AdmissionWorld) (p : InstalledHead → Bool) :
    Shrinks w { w with heads := w.heads.deleteWhere p } :=
  { Shrinks.refl w with
    heads := fun h hh => .inl ⟨h, (Table.mem_deleteWhere.mp hh).1, rfl, rfl, .inl⟩ }

/-! ## The invariant -/

structure Admitted (w : AdmissionWorld) : Prop where
  pending_lt : ∀ p ∈ w.pending.rows, p.task < w.next
  tasks_lt : ∀ t ∈ w.tasks.rows, t.task < w.next
  linked : ∀ p ∈ w.pending.rows, ∀ t ∈ w.tasks.rows, p.task = t.task →
    p.connectionId = t.connectionId ∧ p.subId = t.subId ∧ p.capacityKey = t.capacityKey
  unique : ∀ p ∈ w.pending.rows, ∀ q ∈ w.pending.rows, p.cancelled = false → q.cancelled = false →
    p.capacityKey = q.capacityKey → p = q
  bound : w.capacityKeys.card ≤ GATEWAY_MAX_CURRENT_AND_PENDING_REGISTRATIONS
  heads : ∀ h ∈ w.heads.rows, h.task ∈ w.installs ∧ (h.active = true → h.task ∈ w.activations)

/-- A live operation is about what its pending entry is about. -/
theorem Admitted.live_entry (h : Admitted w) {t : AdmissionTask} (ht : t ∈ w.tasks.rows)
    (hl : w.Live t.task) : ∃ p ∈ w.pending.rows, p.cancelled = false ∧
      p.connectionId = t.connectionId ∧ p.subId = t.subId ∧ p.capacityKey = t.capacityKey := by
  obtain ⟨p, hp, htask, hc⟩ := hl
  obtain ⟨h₁, h₂, h₃⟩ := h.linked p hp t ht htask
  exact ⟨p, hp, hc, h₁, h₂, h₃⟩

theorem Shrinks.live (h : Shrinks w w') {task : Nat} (hl : w'.Live task) : w.Live task := by
  obtain ⟨p', hp', htask, hc⟩ := hl
  obtain ⟨p, hp, -, -, -, ht, hlive⟩ := h.pending p' hp'
  exact ⟨p, hp, ht.trans htask, hlive hc⟩

theorem Shrinks.capacityKeys (h : Shrinks w w') : w'.capacityKeys ⊆ w.capacityKeys := by
  intro k hk
  rcases mem_capacityKeys.mp hk with ⟨h', hh', rfl⟩ | ⟨p', hp', hc, rfl⟩
  · rcases h.heads h' hh' with ⟨h₀, hh, hkey, -⟩ | ⟨-, -, p, hp, hc, hkey⟩
    · exact mem_capacityKeys.mpr (.inl ⟨h₀, hh, hkey⟩)
    · exact mem_capacityKeys.mpr (.inr ⟨p, hp, hc, hkey⟩)
  · obtain ⟨p, hp, -, -, hkey, -, hlive⟩ := h.pending p' hp'
    exact mem_capacityKeys.mpr (.inr ⟨p, hp, hlive hc, hkey⟩)

theorem Shrinks.admittedSubIds (h : Shrinks w w') (c : String) :
    w'.admittedSubIds c ⊆ w.admittedSubIds c := by
  intro n hn
  rcases mem_admittedSubIds.mp hn with hd | ⟨p', hp', hconn, hc, hsub⟩
  · exact h.delivered c n hd
  · obtain ⟨p, hp, h₁, h₂, -, -, hlive⟩ := h.pending p' hp'
    exact mem_admittedSubIds.mpr (.inr ⟨p, hp, h₁.trans hconn, hlive hc, h₂.trans hsub⟩)

theorem Admitted.shrinks (h : Admitted w) (hs : Shrinks w w') : Admitted w' := by
  refine ⟨fun p' hp' => ?_, fun t' ht' => ?_, fun p' hp' t' ht' he => ?_,
    fun p' hp' q' hq' hp₀ hq₀ hkey => ?_, (Finset.card_le_card hs.capacityKeys).trans h.bound,
    fun h' hh' => ?_⟩
  · obtain ⟨p, hp, -, -, -, htask, -⟩ := hs.pending p' hp'
    rw [hs.next, ← htask]
    exact h.pending_lt p hp
  · obtain ⟨t, ht, htask, -⟩ := hs.tasks t' ht'
    rw [hs.next, ← htask]
    exact h.tasks_lt t ht
  · obtain ⟨p, hp, a₁, a₂, a₃, a₄, -⟩ := hs.pending p' hp'
    obtain ⟨t, ht, b₁, b₂, b₃, b₄⟩ := hs.tasks t' ht'
    obtain ⟨c₁, c₂, c₃⟩ := h.linked p hp t ht (a₄.trans (he.trans b₁.symm))
    exact ⟨a₁.symm.trans (c₁.trans b₂), a₂.symm.trans (c₂.trans b₃), a₃.symm.trans (c₃.trans b₄)⟩
  · obtain ⟨p, hp, a₁, a₂, a₃, -, ap⟩ := hs.pending p' hp'
    obtain ⟨q, hq, b₁, b₂, b₃, -, bq⟩ := hs.pending q' hq'
    obtain rfl := h.unique p hp q hq (ap hp₀) (bq hq₀) (a₃.trans (hkey.trans b₃.symm))
    exact Table.eq_of_key hp' hq' (Prod.ext (a₁.symm.trans b₁) (a₂.symm.trans b₂))
  · rcases hs.heads h' hh' with ⟨h₀, hh, -, htask, hact⟩ | ⟨hin, hna, -⟩
    · obtain ⟨hin, ha⟩ := h.heads h₀ hh
      rw [← htask]
      refine ⟨hs.installs _ hin, fun hx => ?_⟩
      rcases hact hx with ha₀ | hmem
      · exact hs.activations _ (ha ha₀)
      · rw [htask]
        exact hmem
    · refine ⟨hin, fun hx => ?_⟩
      rw [hna] at hx
      cases hx

/-! ## Every other step -/

theorem shrinks_install (h : Admitted w) {t : AdmissionTask} (ht : t ∈ w.tasks.rows)
    (hl : w.Live t.task) {heads : Table InstalledHead.key fun _ => True}
    (hu : w.heads.upsert? ⟨t.capacityKey, t.task, false⟩
      (fun h => { h with task := t.task, active := false }) = some heads) :
    Shrinks w { w with heads, installs := t.task :: w.installs } := by
  obtain ⟨p, hp, hc, -, -, hkey⟩ := h.live_entry ht hl
  refine { Shrinks.refl w with
    heads := fun h' hh' => ?_
    installs := fun _ hx => List.mem_cons_of_mem _ hx
    installs_live := fun t' ht' => ?_ }
  · rcases (Table.mem_upsert hu (fun _ => rfl) h').mp hh' with ⟨hm, -⟩ | rfl
    · exact .inl ⟨h', hm, rfl, rfl, .inl⟩
    · right
      cases hf : w.heads.find? t.capacityKey with
      | none => exact ⟨List.mem_cons_self, rfl, p, hp, hc, hkey⟩
      | some old =>
        exact ⟨List.mem_cons_self, rfl, p, hp, hc, hkey.trans (Table.find?_eq_some.mp hf).2.symm⟩
  · rcases List.mem_cons.mp ht' with rfl | hm
    · exact .inr hl
    · exact .inl hm

theorem delivered_deliver {c c' : String} {f : Finset Nat → Finset Nat} {n : Nat}
    (hn : n ∈ (w.deliver c f).delivered c') :
    n ∈ w.delivered c' ∨ (c' = c ∧ n ∈ f (w.delivered c')) := by
  unfold AdmissionWorld.delivered AdmissionWorld.deliver at hn
  dsimp only at hn
  by_cases hc : c' = c
  · rw [if_pos hc] at hn
    unfold AdmissionWorld.delivered
    cases ha : w.attachments c' with
    | none =>
      rw [ha] at hn
      exact absurd hn (Finset.notMem_empty n)
    | some a =>
      rw [ha] at hn
      exact .inr ⟨hc, hn⟩
  · rw [if_neg hc] at hn
    exact .inl hn

theorem shrinks_activate (h : Admitted w) {t : AdmissionTask} (ht : t ∈ w.tasks.rows)
    (hl : w.Live t.task) {heads : Table InstalledHead.key fun _ => True}
    (hu : w.heads.update? (fun h => decide (h.task = t.task))
      (fun h => { h with active := true }) = some heads) :
    Shrinks w ({ w with heads, activations := t.task :: w.activations }.deliver t.connectionId
      (insert t.subId)) := by
  obtain ⟨p, hp, hc, hconn, hsub, -⟩ := h.live_entry ht hl
  refine { Shrinks.refl w with
    heads := fun h' hh' => ?_
    delivered := fun c n hn => ?_
    activations := fun _ hx => List.mem_cons_of_mem _ hx
    activations_live := fun t' ht' => ?_ }
  · obtain ⟨h₀, hh, rfl⟩ := (Table.mem_update hu).mp hh'
    refine .inl ⟨h₀, hh, ?_⟩
    split
    · rename_i htask
      exact ⟨rfl, rfl, fun _ => .inr (by
        rw [show h₀.task = t.task from of_decide_eq_true htask]
        exact List.mem_cons_self)⟩
    · exact ⟨rfl, rfl, .inl⟩
  · rcases delivered_deliver hn with hd | ⟨rfl, hd⟩
    · exact mem_admittedSubIds.mpr (.inl hd)
    · rcases Finset.mem_insert.mp hd with rfl | hd
      · exact mem_admittedSubIds.mpr (.inr ⟨p, hp, hconn, hc, hsub⟩)
      · exact mem_admittedSubIds.mpr (.inl hd)
  · rcases List.mem_cons.mp ht' with rfl | hm
    · exact .inr hl
    · exact .inl hm

/-- An event that is no sub message. -/
def AdmitsNothing : AdmissionEvent → Prop
  | .sub .. => False
  | _ => True

theorem shrinks_step (h : Admitted w) {e : AdmissionEvent} (he : AdmitsNothing e) :
    Shrinks w (w.step e) := by
  cases e with
  | sub => exact he.elim
  | dequeue task succeeded =>
    simp only [AdmissionWorld.step]
    split
    · split
      · exact .refl w
      · split
        · split
          · rename_i pending hu
            exact (shrinks_pending hu fun e => ⟨rfl, rfl, rfl, rfl, id⟩).setPhase task _
          · exact .refl w
        · exact ((Shrinks.refl w).forget task).setPhase task _
    · exact .refl w
  | install task failed =>
    simp only [AdmissionWorld.step]
    split
    · rename_i t hf
      obtain ⟨ht, rfl⟩ := Table.find?_eq_some.mp hf
      split
      · exact .refl w
      · split
        · rename_i hlive
          split
          · rename_i heads hu
            exact (shrinks_install h ht hlive.2.1 hu).setPhase _ _
          · exact .refl w
        · exact (Shrinks.refl w).setPhase _ _
    · exact .refl w
  | respond task ok =>
    simp only [AdmissionWorld.step]
    split
    · rename_i t hf
      obtain ⟨ht, rfl⟩ := Table.find?_eq_some.mp hf
      split
      · exact .refl w
      · split
        · rename_i hlive
          split
          · rename_i heads hu
            exact (shrinks_activate h ht hlive.2.1 hu).setPhase _ _
          · exact .refl w
        · exact (shrinks_deleteHeads w _).setPhase _ _
    · exact .refl w
  | finish task =>
    simp only [AdmissionWorld.step]
    split
    · split
      · have hs := (Shrinks.refl w).forget task
        exact { hs with
          tasks := fun t' ht' => ⟨t', (Table.mem_deleteWhere.mp ht').1, rfl, rfl, rfl, rfl⟩ }
      · exact .refl w
    · exact .refl w
  | unsub connectionId subId =>
    simp only [AdmissionWorld.step]
    split
    · exact shrinks_cancelWhere w _
    · exact .refl w
  | retire key =>
    simp only [AdmissionWorld.step]
    exact shrinks_deleteHeads w _
  | undeliver connectionId subId =>
    simp only [AdmissionWorld.step]
    refine { Shrinks.refl w with delivered := fun c n hn => ?_ }
    rcases delivered_deliver hn with hd | ⟨-, hd⟩
    · exact mem_admittedSubIds.mpr (.inl hd)
    · exact mem_admittedSubIds.mpr (.inl (Finset.mem_of_mem_erase hd))
  | close connectionId =>
    simp only [AdmissionWorld.step]
    refine { shrinks_cancelWhere w _ with delivered := fun c n hn => ?_ }
    unfold AdmissionWorld.delivered at hn
    dsimp only at hn
    split at hn
    · exact absurd hn (Finset.notMem_empty n)
    · exact mem_admittedSubIds.mpr (.inl hn)
  | restart =>
    simp only [AdmissionWorld.step]
    exact { Shrinks.refl w with
      pending := fun _ hp => absurd hp List.not_mem_nil
      tasks := fun _ ht => absurd ht List.not_mem_nil }

/-! ## Sub messages -/

/-- What an admission adds, whether or not there was an entry before. -/
structure Admits (w w' : AdmissionWorld) (connectionId : String) (subId : Nat)
    (capacityKey : RegistrationKey) : Prop where
  next : w'.next = w.next + 1
  entry : ∃ p' : PendingSubscription, p'.connectionId = connectionId ∧ p'.subId = subId ∧
    p'.capacityKey = capacityKey ∧ p'.task = w.next ∧ p'.cancelled = false ∧
      ∀ p, p ∈ w'.pending.rows ↔
        (p ∈ w.pending.rows ∧ p.operationKey ≠ (connectionId, subId)) ∨ p = p'
  task : ∀ t ∈ w'.tasks.rows, t ∈ w.tasks.rows ∨ (t.task = w.next ∧ t.connectionId = connectionId ∧
    t.subId = subId ∧ t.capacityKey = capacityKey)
  heads : w'.heads = w.heads
  attachments : w'.attachments = w.attachments
  installs : w'.installs = w.installs
  activations : w'.activations = w.activations

theorem admission_admits (w : AdmissionWorld) (connectionId : String) (subId : Nat)
    (capacityKey : RegistrationKey) (queued : Bool) :
    w.admission connectionId subId capacityKey queued = w ∨
      Admits w (w.admission connectionId subId capacityKey queued) connectionId subId capacityKey := by
  unfold AdmissionWorld.admission
  dsimp only
  split
  · rename_i pending tasks hp ht
    right
    refine ⟨rfl, ⟨_, ?_, ?_, ?_, ?_, ?_, Table.mem_upsert hp fun _ => rfl⟩, fun t hmem => ?_, rfl, rfl,
      rfl, rfl⟩
    · cases hf : w.pending.find? (PendingSubscription.operationKey
        ⟨connectionId, subId, capacityKey, false, queued, w.next⟩) with
      | none => rfl
      | some e => exact congrArg Prod.fst (Table.find?_eq_some.mp hf).2
    · cases hf : w.pending.find? (PendingSubscription.operationKey
        ⟨connectionId, subId, capacityKey, false, queued, w.next⟩) with
      | none => rfl
      | some e => exact congrArg Prod.snd (Table.find?_eq_some.mp hf).2
    · cases w.pending.find? (PendingSubscription.operationKey
        ⟨connectionId, subId, capacityKey, false, queued, w.next⟩) <;> rfl
    · cases w.pending.find? (PendingSubscription.operationKey
        ⟨connectionId, subId, capacityKey, false, queued, w.next⟩) <;> rfl
    · cases w.pending.find? (PendingSubscription.operationKey
        ⟨connectionId, subId, capacityKey, false, queued, w.next⟩) <;> rfl
    · rcases (Table.mem_insert ht).mp hmem with hmem | rfl
      · exact .inl hmem
      · exact .inr ⟨rfl, rfl, rfl, rfl⟩
  · exact .inl rfl

variable {c : String} {n : Nat} {k : RegistrationKey}

theorem Admits.capacityKeys (h : Admits w w' c n k) : w'.capacityKeys ⊆ insert k w.capacityKeys := by
  obtain ⟨p', -, -, hkey, -, -, hmem⟩ := h.entry
  intro x hx
  rcases mem_capacityKeys.mp hx with ⟨hd, hh, rfl⟩ | ⟨p, hp, hc, rfl⟩
  · rw [h.heads] at hh
    exact Finset.mem_insert_of_mem (mem_capacityKeys.mpr (.inl ⟨hd, hh, rfl⟩))
  · rcases (hmem p).mp hp with ⟨hp, -⟩ | rfl
    · exact Finset.mem_insert_of_mem (mem_capacityKeys.mpr (.inr ⟨p, hp, hc, rfl⟩))
    · rw [hkey]
      exact Finset.mem_insert_self _ _

theorem Admits.admittedSubIds (h : Admits w w' c n k) (c' : String) :
    w'.admittedSubIds c' ⊆ w.admittedSubIds c' ∨
      (c' = c ∧ w'.admittedSubIds c' ⊆ insert n (w.admittedSubIds c')) := by
  obtain ⟨p', hconn, hsub, -, -, -, hmem⟩ := h.entry
  have hd : w'.delivered c' = w.delivered c' := by
    unfold AdmissionWorld.delivered
    rw [h.attachments]
  by_cases hc : c' = c
  · refine .inr ⟨hc, fun x hx => ?_⟩
    rcases mem_admittedSubIds.mp hx with hx | ⟨p, hp, h₁, h₂, rfl⟩
    · rw [hd] at hx
      exact Finset.mem_insert_of_mem (mem_admittedSubIds.mpr (.inl hx))
    · rcases (hmem p).mp hp with ⟨hp, -⟩ | rfl
      · exact Finset.mem_insert_of_mem (mem_admittedSubIds.mpr (.inr ⟨p, hp, h₁, h₂, rfl⟩))
      · rw [hsub]
        exact Finset.mem_insert_self _ _
  · refine .inl fun x hx => ?_
    rcases mem_admittedSubIds.mp hx with hx | ⟨p, hp, h₁, h₂, rfl⟩
    · rw [hd] at hx
      exact mem_admittedSubIds.mpr (.inl hx)
    · rcases (hmem p).mp hp with ⟨hp, -⟩ | rfl
      · exact mem_admittedSubIds.mpr (.inr ⟨p, hp, h₁, h₂, rfl⟩)
      · exact absurd (h₁.symm.trans hconn) hc

/-- There is room for a key, as all heads and pending entries are counted. -/
theorem Admitted.room (h : Admitted w) (hcap : w.hasRegistrationCapacity k = true) :
    (insert k w.capacityKeys).card ≤ GATEWAY_MAX_CURRENT_AND_PENDING_REGISTRATIONS := by
  by_cases hk : k ∈ w.capacityKeys
  · rw [Finset.insert_eq_of_mem hk]
    exact h.bound
  · have hlen : w.heads.rows.length ≤ GATEWAY_MAX_CURRENT_AND_PENDING_REGISTRATIONS := by
      have hcard : (w.heads.rows.map (·.key)).toFinset.card = w.heads.rows.length :=
        (List.toFinset_card_of_nodup w.heads.nodup).trans (List.length_map _)
      have hsub : (w.heads.rows.map (·.key)).toFinset ⊆ w.capacityKeys := Finset.subset_union_left
      have hle := Finset.card_le_card hsub
      have hbound := h.bound
      omega
    unfold AdmissionWorld.hasRegistrationCapacity at hcap
    rw [if_neg, if_neg, List.take_of_length_le hlen] at hcap
    · dsimp only at hcap
      split at hcap
      · cases hcap
      · have hlt : w.capacityKeys.card < GATEWAY_MAX_CURRENT_AND_PENDING_REGISTRATIONS :=
          of_decide_eq_true hcap
        exact (Finset.card_insert_le _ _).trans hlt
    · intro hsome
      obtain ⟨hd, hf⟩ := Option.isSome_iff_exists.mp hsome
      obtain ⟨hm, hkey⟩ := Table.find?_eq_some.mp hf
      exact hk (mem_capacityKeys.mpr (.inl ⟨hd, hm, hkey⟩))
    · intro hany
      obtain ⟨p, hp, hx⟩ := List.any_eq_true.mp hany
      rw [Bool.and_eq_true, Bool.not_eq_true', decide_eq_true_eq] at hx
      exact hk (mem_capacityKeys.mpr (.inr ⟨p, hp, hx.1, hx.2⟩))

theorem Admitted.admits (h : Admitted w) (ha : Admits w w' c n k)
    (hcap : w.hasRegistrationCapacity k = true)
    (hdup : ∀ p ∈ w.pending.rows, p.cancelled = false → p.operationKey ≠ (c, n) →
      p.capacityKey ≠ k) : Admitted w' := by
  obtain ⟨p', hconn, hsub, hkey, htask, hlive, hmem⟩ := ha.entry
  refine ⟨fun p hp => ?_, fun t ht => ?_, fun p hp t ht he => ?_, fun p hp q hq hp₀ hq₀ he => ?_,
    (Finset.card_le_card ha.capacityKeys).trans (h.room hcap), ?_⟩
  · rw [ha.next]
    rcases (hmem p).mp hp with ⟨hp, -⟩ | rfl
    · exact Nat.lt_succ_of_lt (h.pending_lt p hp)
    · omega
  · rw [ha.next]
    rcases ha.task t ht with ht | ⟨ht, -⟩
    · exact Nat.lt_succ_of_lt (h.tasks_lt t ht)
    · omega
  · rcases (hmem p).mp hp with ⟨hp, -⟩ | rfl
    · have hlt := h.pending_lt p hp
      rcases ha.task t ht with ht | ⟨ht, -⟩
      · exact h.linked p hp t ht he
      · omega
    · rcases ha.task t ht with ht | ⟨-, h₁, h₂, h₃⟩
      · have hlt := h.tasks_lt t ht
        omega
      · exact ⟨hconn.trans h₁.symm, hsub.trans h₂.symm, hkey.trans h₃.symm⟩
  · rcases (hmem p).mp hp with ⟨hp, hne⟩ | rfl
    · rcases (hmem q).mp hq with ⟨hq, -⟩ | rfl
      · exact h.unique p hp q hq hp₀ hq₀ he
      · exact absurd (he.trans hkey) (hdup p hp hp₀ hne)
    · rcases (hmem q).mp hq with ⟨hq, hne⟩ | rfl
      · exact absurd (he.symm.trans hkey) (hdup q hq hq₀ hne)
      · rfl
  · rw [ha.heads, ha.installs, ha.activations]
    exact h.heads

/-- What `reservedCount` counts. -/
theorem reservedCount_eq : w.reservedCount c (w.delivered c) = (w.admittedSubIds c).card := by
  unfold AdmissionWorld.reservedCount
  rw [← Finset.card_union_of_disjoint]
  · congr 1
    ext x
    rw [Finset.mem_union, mem_admittedSubIds, List.mem_toFinset, List.mem_map]
    constructor
    · rintro (hx | ⟨p, hp, rfl⟩)
      · exact .inl hx
      · obtain ⟨hm, hp⟩ := Table.mem_select.mp hp
        rw [Bool.and_eq_true, Bool.and_eq_true, decide_eq_true_eq, Bool.not_eq_true'] at hp
        exact .inr ⟨p, hm, hp.1.1, hp.1.2, rfl⟩
    · rintro (hx | ⟨p, hm, hc, hl, rfl⟩)
      · exact .inl hx
      · by_cases hd : p.subId ∈ w.delivered c
        · exact .inl hd
        · refine .inr ⟨p, Table.mem_select.mpr ⟨hm, ?_⟩, rfl⟩
          rw [Bool.and_eq_true, Bool.and_eq_true, decide_eq_true_eq, Bool.not_eq_true',
            decide_eq_true_eq]
          exact ⟨⟨hc, hl⟩, hd⟩
  · rw [Finset.disjoint_left]
    intro x hx hy
    obtain ⟨p, hp, rfl⟩ := List.mem_map.mp (List.mem_toFinset.mp hy)
    obtain ⟨-, hp⟩ := Table.mem_select.mp hp
    rw [Bool.and_eq_true, decide_eq_true_eq] at hp
    exact hp.2 hx

/-- A sub message that is let through, and what was found before. -/
structure LetThrough (w : AdmissionWorld) (c : String) (n : Nat) (k : RegistrationKey) : Prop where
  capacity : w.hasRegistrationCapacity k = true
  single : ∀ p ∈ w.pending.rows, p.cancelled = false → p.operationKey ≠ (c, n) → p.capacityKey ≠ k
  counted : w.pending.find? (c, n) = none → n ∉ w.delivered c →
    (w.admittedSubIds c).card < MAX_INITIAL_SNAPSHOTS_PER_CONNECTION

theorem onSub_cases (w : AdmissionWorld) (c : String) (n : Nat) (barrier refused : Bool) :
    w.onSub c n barrier refused = w ∨
      ∃ k, LetThrough w c n k ∧ Admits w (w.onSub c n barrier refused) c n k := by
  unfold AdmissionWorld.onSub
  cases ha : w.attachments c with
  | none => exact .inl rfl
  | some a =>
    have hdel : w.delivered c = a.snapshotSubIds := by
      unfold AdmissionWorld.delivered
      rw [ha]
      rfl
    dsimp only
    split
    · exact .inl rfl
    · split
      · exact .inl rfl
      · split
        · exact .inl rfl
        · rename_i hdup
          split
          · exact .inl rfl
          · rename_i hcount
            split
            · rename_i hcap
              rcases admission_admits w c n ⟨a.principalId, a.clientId, n⟩
                (barrier || (w.pending.find? (c, n)).isSome) with he | had
              · exact .inl he
              · refine .inr ⟨_, ⟨hcap, fun p hp hl hne hk => hdup ?_, fun hnone hnd => ?_⟩, had⟩
                · refine List.any_eq_true.mpr ⟨p, hp, ?_⟩
                  rw [hl, decide_eq_true hne, decide_eq_true hk]
                  rfl
                · by_contra hle
                  refine hcount ⟨by rw [hnone]; rfl, by rw [← hdel]; exact hnd, ?_⟩
                  rw [← hdel, reservedCount_eq]
                  exact not_lt.mp hle
            · exact .inl rfl

theorem admitted_step (h : Admitted w) (e : AdmissionEvent) : Admitted (w.step e) := by
  by_cases he : AdmitsNothing e
  · exact h.shrinks (shrinks_step h he)
  · cases e with
    | sub c n barrier refused =>
      simp only [AdmissionWorld.step]
      rcases onSub_cases w c n barrier refused with he | ⟨k, hlet, had⟩
      · rw [he]
        exact h
      · exact h.admits had hlet.capacity hlet.single
    | _ => exact absurd trivial he

theorem admitted_start (attachments : String → Option (String × String)) :
    Admitted (start attachments) := by
  refine ⟨fun _ hp => absurd hp List.not_mem_nil, fun _ ht => absurd ht List.not_mem_nil,
    fun _ hp => absurd hp List.not_mem_nil, fun _ hp => absurd hp List.not_mem_nil, ?_,
    fun _ hh => absurd hh List.not_mem_nil⟩
  show (∅ : Finset RegistrationKey).card ≤ _
  exact Nat.zero_le _

theorem admitted_run (h : Admitted w) (es : List AdmissionEvent) : Admitted (w.run es) := by
  induction es generalizing w with
  | nil => exact h
  | cons e es ih => exact ih (admitted_step h e)

/-! ## Sub ids of a connection -/

/-- A sub message for an id whose entry is cancelled and that is not delivered comes only while there
is room, as nothing checks it then. -/
def CountsCancelled (w : AdmissionWorld) : AdmissionEvent → Prop
  | .sub c n _ _ => (∃ p, w.pending.find? (c, n) = some p ∧ p.cancelled = true) → n ∉ w.delivered c →
    (w.admittedSubIds c).card < MAX_INITIAL_SNAPSHOTS_PER_CONNECTION
  | _ => True

/-- Every sub message of a run does. -/
def RunCounts (w : AdmissionWorld) : List AdmissionEvent → Prop
  | [] => True
  | e :: es => CountsCancelled w e ∧ RunCounts (w.step e) es

theorem subIds_step (h : Admitted w) {e : AdmissionEvent} (he : CountsCancelled w e)
    (hb : ∀ c, (w.admittedSubIds c).card ≤ MAX_INITIAL_SNAPSHOTS_PER_CONNECTION) (c : String) :
    ((w.step e).admittedSubIds c).card ≤ MAX_INITIAL_SNAPSHOTS_PER_CONNECTION := by
  by_cases hn : AdmitsNothing e
  · exact (Finset.card_le_card ((shrinks_step h hn).admittedSubIds c)).trans (hb c)
  · cases e with
    | sub c' n barrier refused =>
      simp only [AdmissionWorld.step]
      rcases onSub_cases w c' n barrier refused with hw | ⟨k, hlet, had⟩
      · rw [hw]
        exact hb c
      · rcases had.admittedSubIds c with hsub | ⟨rfl, hsub⟩
        · exact (Finset.card_le_card hsub).trans (hb c)
        · refine (Finset.card_le_card hsub).trans ?_
          by_cases hin : n ∈ w.admittedSubIds c
          · rw [Finset.insert_eq_of_mem hin]
            exact hb c
          · refine (Finset.card_insert_le _ _).trans ?_
            have hnd : n ∉ w.delivered c := fun hd => hin (mem_admittedSubIds.mpr (.inl hd))
            cases hf : w.pending.find? (c, n) with
            | none => exact hlet.counted hf hnd
            | some p =>
              obtain ⟨hp, hkey⟩ := Table.find?_eq_some.mp hf
              obtain ⟨hconn, hsubId⟩ := Prod.mk.inj hkey
              refine he ⟨p, hf, ?_⟩ hnd
              by_contra hl
              exact hin (mem_admittedSubIds.mpr
                (.inr ⟨p, hp, hconn, Bool.eq_false_iff.mpr hl, hsubId⟩))
    | _ => exact absurd trivial hn

theorem subIds_run (h : Admitted w) {es : List AdmissionEvent} (hes : RunCounts w es)
    (hb : ∀ c, (w.admittedSubIds c).card ≤ MAX_INITIAL_SNAPSHOTS_PER_CONNECTION) (c : String) :
    ((w.run es).admittedSubIds c).card ≤ MAX_INITIAL_SNAPSHOTS_PER_CONNECTION := by
  induction es generalizing w with
  | nil => exact hb c
  | cons e es ih => exact ih (admitted_step h e) hes.2 fun c => subIds_step h hes.1 hb c

/-! ## Operations that are over -/

/-- An operation that is not live installs and activates nothing any more. -/
structure Rests (w w' : AdmissionWorld) (task : Nat) : Prop where
  next : task < w'.next
  dead : ¬ w'.Live task
  installs : task ∈ w'.installs → task ∈ w.installs
  activations : task ∈ w'.activations → task ∈ w.activations

theorem rests_step (h : Admitted w) {task : Nat} (hlt : task < w.next) (hd : ¬ w.Live task)
    (e : AdmissionEvent) : Rests w (w.step e) task := by
  by_cases he : AdmitsNothing e
  · have hs := shrinks_step h he
    refine ⟨by rw [hs.next]; exact hlt, fun hl => hd (hs.live hl), fun hx => ?_, fun hx => ?_⟩
    · exact (hs.installs_live task hx).resolve_right hd
    · exact (hs.activations_live task hx).resolve_right hd
  · cases e with
    | sub c n barrier refused =>
      simp only [AdmissionWorld.step]
      rcases onSub_cases w c n barrier refused with hw | ⟨k, -, had⟩
      · rw [hw]
        exact ⟨hlt, hd, id, id⟩
      · obtain ⟨p', -, -, -, htask, -, hmem⟩ := had.entry
        refine ⟨by rw [had.next]; omega, ?_, by rw [had.installs]; exact id,
          by rw [had.activations]; exact id⟩
        rintro ⟨p, hp, rfl, hl⟩
        rcases (hmem p).mp hp with ⟨hp, -⟩ | rfl
        · exact hd ⟨p, hp, rfl, hl⟩
        · omega
    | _ => exact absurd trivial he

theorem rests_run (h : Admitted w) {task : Nat} (hlt : task < w.next) (hd : ¬ w.Live task)
    (es : List AdmissionEvent) : Rests w (w.run es) task := by
  induction es generalizing w with
  | nil => exact ⟨hlt, hd, id, id⟩
  | cons e es ih =>
    have hstep := rests_step h hlt hd e
    have hrun := ih (admitted_step h e) hstep.next hstep.dead
    exact ⟨hrun.next, hrun.dead, fun hx => hstep.installs (hrun.installs hx),
      fun hx => hstep.activations (hrun.activations hx)⟩

/-- Admission after any run: the keys are bounded and admitted once; the sub ids of a connection are
bounded where cancelled entries were counted; and an operation that is not live any more installs no
head if it has not yet, and none of its heads is active if it has not activated one. -/
theorem admission_bounds (attachments : String → Option (String × String))
    (es : List AdmissionEvent) :
    ((start attachments).run es).capacityKeys.card ≤ GATEWAY_MAX_CURRENT_AND_PENDING_REGISTRATIONS ∧
    (∀ p ∈ ((start attachments).run es).pending.rows, ∀ q ∈ ((start attachments).run es).pending.rows,
      p.cancelled = false → q.cancelled = false → p.capacityKey = q.capacityKey → p = q) ∧
    (RunCounts (start attachments) es → ∀ c, (((start attachments).run es).admittedSubIds c).card ≤
      MAX_INITIAL_SNAPSHOTS_PER_CONNECTION) ∧
    ∀ task < ((start attachments).run es).next, ¬ ((start attachments).run es).Live task →
      ∀ es', (task ∉ ((start attachments).run es).installs →
          ∀ h ∈ (((start attachments).run es).run es').heads.rows, h.task ≠ task) ∧
        (task ∉ ((start attachments).run es).activations →
          ∀ h ∈ (((start attachments).run es).run es').heads.rows, h.task = task →
            h.active = false) := by
  have h := admitted_run (admitted_start attachments) es
  refine ⟨h.bound, h.unique, fun hes c => ?_, fun task hlt hd es' => ⟨fun hni hd' hh he => ?_,
    fun hna hd' hh he => ?_⟩⟩
  · refine subIds_run (admitted_start attachments) hes (fun c => ?_) c
    have hnone : (start attachments).admittedSubIds c = ∅ := by
      ext x
      rw [mem_admittedSubIds]
      constructor
      · rintro (hx | ⟨p, hp, -⟩)
        · unfold AdmissionWorld.delivered start at hx
          dsimp only at hx
          cases ha : attachments c with
          | none =>
            rw [ha] at hx
            exact hx
          | some a =>
            rw [ha] at hx
            exact hx
        · exact absurd hp List.not_mem_nil
      · exact fun hx => absurd hx (Finset.notMem_empty x)
    rw [hnone]
    exact Nat.zero_le _
  · have hin := ((admitted_run h es').heads hd' hh).1
    rw [he] at hin
    exact hni ((rests_run h hlt hd es').installs hin)
  · by_contra hact
    have hin := ((admitted_run h es').heads hd' hh).2 (by simpa using hact)
    rw [he] at hin
    exact hna ((rests_run h hlt hd es').activations hin)

private def oneConnection : String → Option (String × String) := fun c =>
  if c = "connection" then some ("principal", "client") else none

/-- The second message comes when the first has activated its head and still schedules work. -/
private def supersededLate : List AdmissionEvent :=
  [.sub "connection" 1 false false, .install 0 false, .respond 0 true, .sub "connection" 1 false false]

private def successorFails : List AdmissionEvent :=
  [.finish 0, .dequeue 1 true, .install 1 true, .finish 1]

/-- An operation that is superseded after it has activated its head leaves it active, where the
message that superseded it fails. -/
theorem superseded_head_active :
    ¬ ((start oneConnection).run supersededLate).Live 0 ∧
      (((start oneConnection).run supersededLate).run successorFails).heads.rows =
        [⟨⟨"principal", "client", 1⟩, 0, true⟩] := by
  decide +kernel

end Chardb.Gateway.AdmissionWorld
