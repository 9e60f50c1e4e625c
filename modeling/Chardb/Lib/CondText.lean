import Chardb.Lib.Kleene

/-!
# Texts of conditions

The text of a condition has no brackets of its own, so that `OR` inside it mixes with
what stands around it. A text is the list of its alternatives, each a list of operands
of `AND`, and what stands in brackets is one operand.
-/

namespace Chardb.Lib

variable {ρ : Type}

/-- A text as `OR` of `AND`s of operands. -/
abbrev CondText (ρ : Type) := List (List (ρ → Option Bool))

def CondText.truth (a : CondText ρ) : ρ → Option Bool := fun row =>
  anyOf (a.map fun operands => allOf (operands.map fun c => c row))

/-- A text of one operand. -/
def operand (cond : ρ → Option Bool) : CondText ρ := [[cond]]

/-- A text in brackets. -/
def bracket (a : CondText ρ) : CondText ρ := operand a.truth

/-- Two texts with `AND` between: the last operands of one stand with the first of the other. -/
def joinAnd : CondText ρ → CondText ρ → CondText ρ
  | [], b => b
  | [x], [] => [x]
  | [x], y :: ys => (x ++ y) :: ys
  | x :: x' :: xs, b => x :: joinAnd (x' :: xs) b

/-- Texts with `AND` between. -/
def joinAnds : List (CondText ρ) → CondText ρ
  | [] => []
  | [a] => a
  | a :: b :: as => joinAnd a (joinAnds (b :: as))

/-- Texts with `OR` between. -/
def joinOrs (as : List (CondText ρ)) : CondText ρ := as.flatten

/-! ## Truth -/

theorem CondText.truth_operand (cond : ρ → Option Bool) : (operand cond).truth = cond := by
  funext row
  cases h : cond row with
  | none => simp [operand, CondText.truth, allOf, anyOf, h]
  | some b => cases b <;> simp [operand, CondText.truth, allOf, anyOf, h]

theorem CondText.truth_bracket (a : CondText ρ) : (bracket a).truth = a.truth :=
  truth_operand a.truth

theorem CondText.truth_eq_true {a : CondText ρ} {row : ρ} :
    a.truth row = some true ↔ ∃ operands ∈ a, ∀ c ∈ operands, c row = some true := by
  unfold CondText.truth
  rw [anyOf_eq_true, List.mem_map]
  refine exists_congr fun operands => and_congr_right fun _ => ?_
  rw [allOf_eq_true, List.forall_mem_map]

/-- Texts of one alternative each, with `AND` between, are one alternative. -/
theorem joinAnds_single : ∀ {as : List (CondText ρ)}, as ≠ [] → (∀ a ∈ as, a.length = 1) →
    joinAnds as = [(as.map List.flatten).flatten]
  | [], h, _ => absurd rfl h
  | [a], _, hone => by
    obtain ⟨x, rfl⟩ := List.length_eq_one_iff.mp (hone a List.mem_cons_self)
    simp [joinAnds]
  | a :: b :: as, _, hone => by
    obtain ⟨x, rfl⟩ := List.length_eq_one_iff.mp (hone a List.mem_cons_self)
    have ih := joinAnds_single (List.cons_ne_nil b as) fun c hc => hone c (List.mem_cons_of_mem _ hc)
    rw [joinAnds, ih]
    simp [joinAnd]

/-- A conjunction of texts of one alternative each is true where each text is. -/
theorem truth_joinAnds {as : List (CondText ρ)} {row : ρ} (hne : as ≠ [])
    (hone : ∀ a ∈ as, a.length = 1) :
    (joinAnds as).truth row = some true ↔ ∀ a ∈ as, a.truth row = some true := by
  rw [joinAnds_single hne hone, CondText.truth_eq_true]
  simp only [List.mem_singleton, exists_eq_left]
  constructor
  · intro hall a ha
    obtain ⟨x, rfl⟩ := List.length_eq_one_iff.mp (hone a ha)
    refine CondText.truth_eq_true.mpr ⟨x, List.mem_singleton_self x, fun c hc => hall c ?_⟩
    exact List.mem_flatten.mpr ⟨x, List.mem_map.mpr ⟨[x], ha, List.flatten_singleton⟩, hc⟩
  · intro hall c hc
    obtain ⟨l, hl, hcl⟩ := List.mem_flatten.mp hc
    obtain ⟨a, ha, rfl⟩ := List.mem_map.mp hl
    obtain ⟨x, rfl⟩ := List.length_eq_one_iff.mp (hone a ha)
    obtain ⟨y, hy, hrow⟩ := CondText.truth_eq_true.mp (hall _ ha)
    obtain rfl := List.mem_singleton.mp hy
    exact hrow c (by simpa using hcl)

/-- A disjunction of texts is true where one text is. -/
theorem truth_joinOrs {as : List (CondText ρ)} {row : ρ} :
    (joinOrs as).truth row = some true ↔ ∃ a ∈ as, a.truth row = some true := by
  rw [joinOrs, CondText.truth_eq_true]
  constructor
  · rintro ⟨operands, hmem, hall⟩
    obtain ⟨a, ha, hoperands⟩ := List.mem_flatten.mp hmem
    exact ⟨a, ha, CondText.truth_eq_true.mpr ⟨operands, hoperands, hall⟩⟩
  · rintro ⟨a, ha, htrue⟩
    obtain ⟨operands, hmem, hall⟩ := CondText.truth_eq_true.mp htrue
    exact ⟨operands, List.mem_flatten.mpr ⟨a, ha, hmem⟩, hall⟩

end Chardb.Lib
