import Chardb.Lib.Tx
import Mathlib.Data.List.Forall2

/-!
# Lists under `Except`

`xs.mapM f` succeeds when `f` does on each element, with the results in order.
-/

namespace Chardb.Lib

variable {ε α β : Type}

theorem mapM_ok_iff {f : α → Except ε β} {xs : List α} {ys : List β} :
    xs.mapM f = .ok ys ↔ List.Forall₂ (fun x y => f x = .ok y) xs ys := by
  induction xs generalizing ys with
  | nil =>
    constructor
    · intro h
      obtain rfl := Except.ok.inj h
      exact .nil
    · intro h
      cases h
      rfl
  | cons x xs ih =>
    rw [List.mapM_cons]
    constructor
    · intro h
      obtain ⟨y, hy, h⟩ := bind_ok h
      obtain ⟨ys, hys, h⟩ := bind_ok h
      obtain rfl := Except.ok.inj h
      exact .cons hy (ih.mp hys)
    · intro h
      cases h with
      | cons hy hys => simp [hy, ih.mpr hys, bind, Except.bind, pure, Except.pure]

theorem mapM_total {f : α → Except ε β} {xs : List α} (h : ∀ x ∈ xs, ∃ y, f x = .ok y) :
    ∃ ys, xs.mapM f = .ok ys := by
  induction xs with
  | nil => exact ⟨[], rfl⟩
  | cons x xs ih =>
    obtain ⟨⟨y, hy⟩, h⟩ := List.forall_mem_cons.mp h
    obtain ⟨ys, hys⟩ := ih h
    exact ⟨y :: ys, mapM_ok_iff.mpr (.cons hy (mapM_ok_iff.mp hys))⟩

/-- Every result is the result of an element. -/
theorem mem_of_mapM_ok {f : α → Except ε β} {xs : List α} {ys : List β} (h : xs.mapM f = .ok ys)
    {y : β} (hy : y ∈ ys) : ∃ x ∈ xs, f x = .ok y := by
  have hall := mapM_ok_iff.mp h
  induction hall with
  | nil => cases hy
  | cons hx _ ih =>
    rename_i x y' xs ys htail
    rcases List.mem_cons.mp hy with rfl | hy
    · exact ⟨x, List.mem_cons_self, hx⟩
    · obtain ⟨x', hx', hy⟩ := ih (mapM_ok_iff.mpr htail) hy
      exact ⟨x', List.mem_cons_of_mem _ hx', hy⟩

theorem map_ok {f : α → β} {x : Except ε α} {y : β} (h : x.map f = .ok y) :
    ∃ a, x = .ok a ∧ f a = y := by
  cases x with
  | error e => cases h
  | ok a => exact ⟨a, rfl, Except.ok.inj h⟩

theorem exists_right_of_forall₂ {R : α → β → Prop} {xs : List α} {ys : List β}
    (h : List.Forall₂ R xs ys) {x : α} (hx : x ∈ xs) : ∃ y ∈ ys, R x y := by
  induction h with
  | nil => cases hx
  | cons hR _ ih =>
    rcases List.mem_cons.mp hx with rfl | hx
    · exact ⟨_, List.mem_cons_self, hR⟩
    · obtain ⟨y, hy, hxy⟩ := ih hx
      exact ⟨y, List.mem_cons_of_mem _ hy, hxy⟩

/-! ## With a state -/

section
variable {σ : Type}

theorem state_bind_ok {x : StateT σ (Except ε) α} {f : α → StateT σ (Except ε) β} {s : σ}
    {r : β × σ} (h : (x >>= f) s = .ok r) : ∃ a s', x s = .ok (a, s') ∧ f a s' = .ok r := by
  obtain ⟨⟨a, s'⟩, ha, hf⟩ := bind_ok h
  exact ⟨a, s', ha, hf⟩

theorem state_bind_eq {x : StateT σ (Except ε) α} {f : α → StateT σ (Except ε) β} {s s' : σ} {a : α}
    (h : x s = .ok (a, s')) : (x >>= f) s = f a s' := by
  show Except.bind (x s) _ = _
  rw [h]
  rfl

theorem state_lift_ok (a : α) :
    (liftM (Except.ok a : Except ε α) : StateT σ (Except ε) α) = pure a := rfl

theorem state_pure_eq (a : α) (s : σ) : (pure a : StateT σ (Except ε) α) s = .ok (a, s) := rfl

theorem state_lift_bind_ok {x : Except ε α} {f : α → StateT σ (Except ε) β} {s : σ} {r : β × σ}
    (h : ((liftM x : StateT σ (Except ε) α) >>= f) s = .ok r) : ∃ a, x = .ok a ∧ f a s = .ok r := by
  cases x with
  | error e => cases h
  | ok a => exact ⟨a, rfl, h⟩

/-- The steps of `xs.mapM f`, from state to state. -/
inductive StateRun (f : α → StateT σ (Except ε) β) : List α → σ → List β → σ → Prop
  | nil (s : σ) : StateRun f [] s [] s
  | cons {x : α} {xs : List α} {y : β} {ys : List β} {s s₁ s₂ : σ} (hx : f x s = .ok (y, s₁))
      (hxs : StateRun f xs s₁ ys s₂) : StateRun f (x :: xs) s (y :: ys) s₂

theorem state_mapM_ok_iff {f : α → StateT σ (Except ε) β} {xs : List α} {ys : List β} {s s' : σ} :
    xs.mapM f s = .ok (ys, s') ↔ StateRun f xs s ys s' := by
  induction xs generalizing ys s with
  | nil =>
    constructor
    · intro h
      obtain ⟨rfl, rfl⟩ := Prod.mk.inj (Except.ok.inj h)
      exact .nil _
    · intro h
      cases h
      rfl
  | cons x xs ih =>
    rw [List.mapM_cons]
    constructor
    · intro h
      obtain ⟨y, s₁, hy, h⟩ := state_bind_ok h
      obtain ⟨ys', s₂, hys, h⟩ := state_bind_ok h
      obtain ⟨rfl, rfl⟩ := Prod.mk.inj (Except.ok.inj h)
      exact .cons hy (ih.mp hys)
    · intro h
      cases h with
      | cons hy hys =>
        rw [state_bind_eq hy, state_bind_eq (ih.mpr hys)]
        rfl

theorem StateRun.forall₂ {f : α → StateT σ (Except ε) β} {xs : List α} {ys : List β} {s s' : σ}
    (h : StateRun f xs s ys s') : List.Forall₂ (fun x y => ∃ s s', f x s = .ok (y, s')) xs ys := by
  induction h with
  | nil => exact .nil
  | cons hx _ ih => exact .cons ⟨_, _, hx⟩ ih

end

end Chardb.Lib
