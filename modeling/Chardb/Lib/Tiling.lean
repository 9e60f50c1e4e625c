import Mathlib.Data.List.Pairwise
import Mathlib.Algebra.Order.Ring.Int
import Mathlib.Tactic.Common

/-!
# Tilings of an integer interval

`Tiles lo hi a b l` says that the rows of `l`, each of which stands for the integers
from `lo r` to `hi r`, follow one another without gap or overlap from `a` up to, but
not including, `b`.
-/

namespace Chardb.Lib

variable {ρ : Type} (lo hi : ρ → Int)

/-- The rows follow one another from `a` up to `b`. -/
def Tiles (a b : Int) : List ρ → Prop
  | [] => a = b
  | r :: rs => lo r = a ∧ lo r ≤ hi r ∧ Tiles (hi r + 1) b rs

/-- A row stands for `v`. -/
def Covers (v : Int) (r : ρ) : Prop := lo r ≤ v ∧ v ≤ hi r

instance (v : Int) (r : ρ) : Decidable (Covers lo hi v r) := inferInstanceAs (Decidable (_ ∧ _))

variable {lo hi} {a b v : Int} {l l' m : List ρ} {r r' : ρ}

namespace Tiles

theorem le (h : Tiles lo hi a b l) : a ≤ b := by
  induction l generalizing a with
  | nil => exact le_of_eq h
  | cons r rs ih =>
    obtain ⟨rfl, hle, h⟩ := h
    have := ih h
    omega

theorem append : Tiles lo hi a b (l ++ l') ↔ ∃ c, Tiles lo hi a c l ∧ Tiles lo hi c b l' := by
  induction l generalizing a with
  | nil => simp [Tiles]
  | cons r rs ih =>
    simp only [List.cons_append, Tiles, ih]
    constructor
    · rintro ⟨h₁, h₂, c, h₃, h₄⟩; exact ⟨c, ⟨h₁, h₂, h₃⟩, h₄⟩
    · rintro ⟨c, ⟨h₁, h₂, h₃⟩, h₄⟩; exact ⟨h₁, h₂, c, h₃, h₄⟩

theorem bounds (h : Tiles lo hi a b l) (hr : r ∈ l) : a ≤ lo r ∧ lo r ≤ hi r ∧ hi r < b := by
  induction l generalizing a with
  | nil => cases hr
  | cons x rs ih =>
    obtain ⟨rfl, hle, h⟩ := h
    rcases List.mem_cons.mp hr with rfl | hr
    · exact ⟨le_rfl, hle, by have := h.le; omega⟩
    · obtain ⟨h₁, h₂, h₃⟩ := ih h hr
      exact ⟨by omega, h₂, h₃⟩

theorem pairwise (h : Tiles lo hi a b l) : l.Pairwise fun r r' => hi r < lo r' := by
  induction l generalizing a with
  | nil => exact .nil
  | cons x rs ih =>
    obtain ⟨rfl, -, h⟩ := h
    exact List.pairwise_cons.mpr ⟨fun r' hr' => by have := (h.bounds hr').1; omega, ih h⟩

/-- Every integer of the interval has its row. -/
theorem exists_covers (h : Tiles lo hi a b l) (ha : a ≤ v) (hb : v < b) :
    ∃ r ∈ l, Covers lo hi v r := by
  induction l generalizing a with
  | nil => have : a = b := h; omega
  | cons x rs ih =>
    obtain ⟨rfl, hle, h⟩ := h
    by_cases hv : v ≤ hi x
    · exact ⟨x, List.mem_cons_self, ha, hv⟩
    · obtain ⟨r, hr, hc⟩ := ih h (by omega)
      exact ⟨r, List.mem_cons_of_mem _ hr, hc⟩

/-- No integer has two rows. -/
theorem covers_unique (h : Tiles lo hi a b l) (hr : r ∈ l) (hr' : r' ∈ l) (hc : Covers lo hi v r)
    (hc' : Covers lo hi v r') : r = r' := by
  by_contra hne
  have hdisj : l.Pairwise fun x y => hi x < lo y ∨ hi y < lo x := h.pairwise.imp Or.inl
  have hsymm : Std.Symm fun x y : ρ => hi x < lo y ∨ hi y < lo x := ⟨fun _ _ => Or.symm⟩
  have := hdisj.forall hr hr' hne
  unfold Covers at hc hc'
  omega

/-- Replace one row by a tiling of what it stands for. -/
theorem splice (h : Tiles lo hi a b (l ++ r :: l')) (hm : Tiles lo hi (lo r) (hi r + 1) m) :
    Tiles lo hi a b (l ++ (m ++ l')) := by
  obtain ⟨c, hl, hc, -, hr⟩ := append.mp h
  exact append.mpr ⟨c, hl, append.mpr ⟨hi r + 1, hc ▸ hm, hr⟩⟩

/-- There is one order in which rows tile. -/
theorem eq_of_perm (h : Tiles lo hi a b l) (hs : l'.Pairwise fun r r' => lo r ≤ lo r')
    (hp : l'.Perm l) : l' = l := by
  have hsorted : l.Pairwise fun r r' => lo r ≤ lo r' :=
    h.pairwise.imp_of_mem fun hx _ hlt => by have := (h.bounds hx).2.1; omega
  refine List.Perm.eq_of_pairwise (fun x y hx hy hxy hyx => ?_) hs hsorted hp
  have hbx := h.bounds (hp.mem_iff.mp hx)
  have hby := h.bounds hy
  exact h.covers_unique (hp.mem_iff.mp hx) hy (v := lo x) ⟨le_rfl, hbx.2.1⟩ ⟨by omega, by omega⟩

end Tiles

end Chardb.Lib
