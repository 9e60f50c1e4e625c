import Mathlib.Data.List.Basic

/-!
# Three-valued conditions

A condition over a row is true, false or unknown, and a statement keeps the rows for
which it is true. `allOf` and `anyOf` are the connectives of Kleene's logic over lists.
-/

namespace Chardb.Lib

/-- Conjunction: false if one is false, else unknown if one is unknown. -/
def allOf (values : List (Option Bool)) : Option Bool :=
  if some false ∈ values then some false
  else if none ∈ values then none
  else some true

/-- Disjunction: true if one is true, else unknown if one is unknown. -/
def anyOf (values : List (Option Bool)) : Option Bool :=
  if some true ∈ values then some true
  else if none ∈ values then none
  else some false

theorem allOf_eq_true {values : List (Option Bool)} :
    allOf values = some true ↔ ∀ v ∈ values, v = some true := by
  unfold allOf
  split
  · rename_i h
    simp only [Option.some.injEq, Bool.false_eq_true, false_iff, not_forall]
    exact ⟨some false, h, by simp⟩
  · split
    · rename_i h
      simp only [reduceCtorEq, false_iff, not_forall]
      exact ⟨none, h, by simp⟩
    · rename_i hfalse hnone
      simp only [true_iff]
      intro v hv
      rcases v with _ | ⟨_ | _⟩
      · exact absurd hv hnone
      · exact absurd hv hfalse
      · rfl

theorem anyOf_eq_true {values : List (Option Bool)} :
    anyOf values = some true ↔ some true ∈ values := by
  unfold anyOf
  split
  · simpa using ‹_›
  · rename_i h
    split <;> simpa using h

end Chardb.Lib
