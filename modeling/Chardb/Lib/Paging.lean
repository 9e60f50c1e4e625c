import Mathlib.Data.List.Perm.Subperm
import Mathlib.Data.List.Pairwise
import Mathlib.Order.Lattice

/-!
# Pages of a sorted list

The first `n` members of a list that is sorted by a key: what is not among them comes after all of
them.
-/

namespace Chardb.Lib

variable {α τ : Type} [LinearOrder τ] {k : α → τ} {l : List α} {n : Nat} {x : α}

/-- A member that is not on the page comes after the page. -/
theorem mem_take_or_after (hsorted : l.Pairwise fun a b => k a ≤ k b) (hx : x ∈ l) :
    x ∈ l.take n ∨ (n < l.length ∧ ∀ y ∈ l.take n, k y ≤ k x) := by
  obtain ⟨j, hj, rfl⟩ := List.getElem_of_mem hx
  by_cases hjn : j < n
  · refine .inl (List.mem_iff_getElem.mpr ⟨j, by rw [List.length_take]; omega, ?_⟩)
    rw [List.getElem_take]
  · refine .inr ⟨by omega, fun y hy => ?_⟩
    obtain ⟨i, hi, rfl⟩ := List.getElem_of_mem hy
    rw [List.length_take] at hi
    rw [List.getElem_take]
    exact List.pairwise_iff_getElem.mp hsorted i j (by omega) hj (by omega)

/-- When `n` members come before `x`, so does the whole page. -/
theorem take_before {s : List α} (hsorted : l.Pairwise fun a b => k a ≤ k b) (hs : s.Nodup)
    (hmem : ∀ y ∈ s, y ∈ l ∧ k y < k x) (hn : n ≤ s.length) : ∀ y ∈ l.take n, k y < k x := by
  intro y hy
  obtain ⟨i, hi, rfl⟩ := List.getElem_of_mem hy
  rw [List.length_take] at hi
  rw [List.getElem_take]
  by_contra hlt
  -- what comes before `x` stands before the place `i`
  have hsub : s ⊆ l.take i := by
    intro z hz
    obtain ⟨hzl, hzx⟩ := hmem z hz
    obtain ⟨j, hj, rfl⟩ := List.getElem_of_mem hzl
    have hji : j < i := by
      by_contra hge
      rcases Nat.lt_or_eq_of_le (Nat.not_lt.mp hge) with hij | rfl
      · exact absurd (List.pairwise_iff_getElem.mp hsorted i j (by omega) hj hij)
          (not_le.mpr (hzx.trans_le (not_lt.mp hlt)))
      · exact hlt hzx
    exact List.mem_iff_getElem.mpr ⟨j, by rw [List.length_take]; omega, by rw [List.getElem_take]⟩
  have hle := (List.subperm_of_subset hs hsub).length_le
  rw [List.length_take] at hle
  omega

end Chardb.Lib
