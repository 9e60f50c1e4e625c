import Chardb.Catalog.VshardMap
import Mathlib.Algebra.BigOperators.Group.List.Basic
import Mathlib.Algebra.GroupWithZero.Nat

/-!
# Where to cut a shard

`suggestSplit` takes the heaviest range and cuts it where the prefix is nearest half of its rows.
Its scan stops at the first cut that is no better: prefixes only grow, so a later cut is only
farther from the half.
-/

namespace Chardb.Resharder

open Chardb.Catalog

/-- A move carrying less than this fraction of a range's rows is refused. -/
def MIN_SHARE : Nat := 8

structure SplitSuggestion where
  lo : Int
  hi : Int
  rows : Nat
  deriving DecidableEq

/-- `vshards[v] ?? 0`. -/
def rowsAt (vshards : List Nat) (v : Int) : Nat :=
  if 0 ≤ v then (vshards[v.toNat]?).getD 0 else 0

/-- The `n` vshards from `v` on. -/
def vshardsFrom (v : Int) : Nat → List Int
  | 0 => []
  | n + 1 => v :: vshardsFrom (v + 1) n

/-- The total of the first loop. -/
def rangeTotal (vshards : List Nat) (range : VshardRange) : Nat :=
  (vshardsFrom range.lo (range.hi + 1 - range.lo).toNat).foldl
    (fun total v => total + rowsAt vshards v) 0

/-- The first loop. -/
def heaviest (vshards : List Nat) :
    List VshardRange → Option (VshardRange × Nat) → Option (VshardRange × Nat)
  | [], best => best
  | range :: ranges, best =>
    let total := rangeTotal vshards range
    if 0 < total ∧ ∀ b ∈ best, b.2 < total then heaviest vshards ranges (some (range, total))
    else heaviest vshards ranges best

/-- Twice the distance from half of the rows. -/
def distance (total rows : Nat) : Nat := (2 * (rows : Int) - total).natAbs

/-- The second loop over these vshards, and the cut and the rows that it leaves. -/
def scan (vshards : List Nat) (total : Nat) : List Int → Nat → Int → Nat → Int × Nat
  | [], _, cut, rows => (cut, rows)
  | v :: vs, prefixRows, cut, rows =>
    let prefixRows := prefixRows + rowsAt vshards v
    if prefixRows = 0 ∨ prefixRows = rows then scan vshards total vs prefixRows cut rows
    else if prefixRows = total ∨ (0 ≤ cut ∧ distance total rows ≤ distance total prefixRows) then
      (cut, rows)
    else scan vshards total vs prefixRows v prefixRows

/-- The last loop: empty vshards after the cut go with the prefix. -/
def extend (vshards : List Nat) : List Int → Int → Int
  | [], hi => hi
  | v :: vs, hi => if rowsAt vshards v = 0 then extend vshards vs v else hi

def suggestSplit (ranges : List VshardRange) (vshards : List Nat) : Option SplitSuggestion :=
  match heaviest vshards ranges none with
  | none => none
  | some (range, total) =>
    let (cut, rows) :=
      scan vshards total (vshardsFrom range.lo (range.hi - range.lo).toNat) 0 (-1) 0
    if cut < 0 ∨ rows * MIN_SHARE < total then none
    else
      let hi := extend vshards (vshardsFrom (cut + 1) (range.hi - (cut + 1)).toNat) cut
      some { lo := range.lo, hi, rows }

/-! ## Sums of rows -/

section
variable (vshards : List Nat) (lo : Int)

/-- The rows of the vshards from `lo` through `hi`. -/
def rowsIn (hi : Int) : Nat :=
  ((vshardsFrom lo (hi + 1 - lo).toNat).map (rowsAt vshards)).sum

theorem vshardsFrom_succ_last (v : Int) (n : Nat) :
    vshardsFrom v (n + 1) = vshardsFrom v n ++ [v + n] := by
  induction n generalizing v with
  | zero => simp [vshardsFrom]
  | succ n ih =>
    rw [vshardsFrom, ih, vshardsFrom]
    simp only [List.cons_append, Nat.cast_add, Nat.cast_one]
    rw [show v + 1 + (n : Int) = v + ((n : Int) + 1) by omega]

theorem rangeTotal_eq (range : VshardRange) :
    rangeTotal vshards range = rowsIn vshards range.lo range.hi := by
  unfold rangeTotal rowsIn
  rw [List.sum_eq_foldl, List.foldl_map]

theorem rowsIn_before : rowsIn vshards lo (lo - 1) = 0 := by
  unfold rowsIn
  rw [show (lo - 1 + 1 - lo).toNat = 0 by omega]
  rfl

variable {lo}

theorem rowsIn_succ {v : Int} (h : lo ≤ v + 1) :
    rowsIn vshards lo (v + 1) = rowsIn vshards lo v + rowsAt vshards (v + 1) := by
  unfold rowsIn
  obtain ⟨n, hn⟩ : ∃ n : Nat, v + 1 - lo = n := ⟨(v + 1 - lo).toNat, by omega⟩
  rw [show (v + 1 + 1 - lo).toNat = n + 1 by omega, show (v + 1 - lo).toNat = n by omega,
    vshardsFrom_succ_last, List.map_append, List.sum_append]
  simp [show lo + (n : Int) = v + 1 by omega]

theorem rowsIn_mono {v w : Int} (hv : lo ≤ v + 1) (h : v ≤ w) :
    rowsIn vshards lo v ≤ rowsIn vshards lo w := by
  obtain ⟨n, rfl⟩ : ∃ n : Nat, w = v + n := ⟨(w - v).toNat, by omega⟩
  induction n with
  | zero => simp
  | succ n ih =>
    have hstep := rowsIn_succ vshards (v := v + n) (show lo ≤ v + n + 1 by omega)
    have := ih (by omega)
    rw [show v + ((n + 1 : Nat) : Int) = v + n + 1 by push_cast; omega]
    omega

end

/-! ## The heaviest range -/

/-- The first of the ranges with the most rows. -/
def Chosen (vshards : List Nat) (ranges : List VshardRange) (range : VshardRange) : Prop :=
  ∃ before after, ranges = before ++ range :: after ∧
    (∀ r ∈ before, rangeTotal vshards r < rangeTotal vshards range) ∧
    ∀ r ∈ after, rangeTotal vshards r ≤ rangeTotal vshards range

theorem heaviest_some {vshards : List Nat} {ranges : List VshardRange} {b : VshardRange}
    (hb : 0 < rangeTotal vshards b) :
    (∃ range, heaviest vshards ranges (some (b, rangeTotal vshards b)) =
        some (range, rangeTotal vshards range) ∧ Chosen vshards (b :: ranges) range ∧
        0 < rangeTotal vshards range) := by
  induction ranges generalizing b with
  | nil => exact ⟨b, rfl, ⟨[], [], rfl, by simp, by simp⟩, hb⟩
  | cons r ranges ih =>
    unfold heaviest
    by_cases h : 0 < rangeTotal vshards r ∧
        ∀ x ∈ some (b, rangeTotal vshards b), x.2 < rangeTotal vshards r
    · obtain ⟨range, hrange, ⟨before, after, heq, hbefore, hafter⟩, hpos⟩ := ih h.1
      refine ⟨range, (if_pos h).trans hrange, ⟨b :: before, after, by rw [heq]; rfl, ?_, hafter⟩,
        hpos⟩
      intro x hx
      rcases List.mem_cons.mp hx with rfl | hx
      · -- The new range is heavier, and it is not heavier than the one chosen in the end.
        have hlt := h.2 _ rfl
        cases before with
        | nil =>
          obtain ⟨rfl, -⟩ := List.cons.inj heq
          exact hlt
        | cons y before =>
          obtain ⟨rfl, -⟩ := List.cons.inj heq
          exact lt_trans hlt (hbefore _ List.mem_cons_self)
      · exact hbefore x hx
    · obtain ⟨range, hrange, ⟨before, after, heq, hbefore, hafter⟩, hpos⟩ := ih hb
      have hle : rangeTotal vshards r ≤ rangeTotal vshards b := by
        by_contra hlt
        exact h ⟨by omega, fun x hx => by cases hx; omega⟩
      refine ⟨range, (if_neg h).trans hrange, ?_, hpos⟩
      cases before with
      | nil =>
        obtain ⟨rfl, rfl⟩ := List.cons.inj heq
        refine ⟨[], r :: ranges, rfl, by simp, fun x hx => ?_⟩
        rcases List.mem_cons.mp hx with rfl | hx
        · exact hle
        · exact hafter x hx
      | cons y before =>
        obtain ⟨rfl, rfl⟩ := List.cons.inj heq
        refine ⟨b :: r :: before, after, rfl, fun x hx => ?_, hafter⟩
        have hlt := hbefore _ List.mem_cons_self
        rcases List.mem_cons.mp hx with rfl | hx
        · exact hlt
        · rcases List.mem_cons.mp hx with rfl | hx
          · omega
          · exact hbefore x (List.mem_cons_of_mem _ hx)

/-- The first loop finds no range without rows, and the first of the heaviest otherwise. -/
theorem heaviest_cases (vshards : List Nat) (ranges : List VshardRange) :
    (heaviest vshards ranges none = none ∧ ∀ r ∈ ranges, rangeTotal vshards r = 0) ∨
      ∃ range, heaviest vshards ranges none = some (range, rangeTotal vshards range) ∧
        Chosen vshards ranges range ∧ 0 < rangeTotal vshards range := by
  induction ranges with
  | nil => exact .inl ⟨rfl, by simp⟩
  | cons r ranges ih =>
    unfold heaviest
    by_cases h : 0 < rangeTotal vshards r
    · simp only [Option.mem_def, reduceCtorEq, false_implies, implies_true, and_true, h, if_true]
      exact .inr (heaviest_some h)
    · have hzero : rangeTotal vshards r = 0 := by omega
      simp only [h, false_and, if_false]
      rcases ih with ⟨hnone, hall⟩ | ⟨range, hrange, ⟨before, after, rfl, hbefore, hafter⟩, hpos⟩
      · exact .inl ⟨hnone, by simpa [hzero] using hall⟩
      · refine .inr ⟨range, hrange, ⟨r :: before, after, rfl, ?_, hafter⟩, hpos⟩
        intro x hx
        rcases List.mem_cons.mp hx with rfl | hx
        · omega
        · exact hbefore x hx

theorem Chosen.le {vshards : List Nat} {ranges : List VshardRange} {range r : VshardRange}
    (h : Chosen vshards ranges range) (hr : r ∈ ranges) :
    rangeTotal vshards r ≤ rangeTotal vshards range := by
  obtain ⟨before, after, rfl, hbefore, hafter⟩ := h
  rcases List.mem_append.mp hr with hr | hr
  · exact (hbefore r hr).le
  · rcases List.mem_cons.mp hr with rfl | hr
    · exact le_rfl
    · exact hafter r hr

theorem Chosen.mem {vshards : List Nat} {ranges : List VshardRange} {range : VshardRange}
    (h : Chosen vshards ranges range) : range ∈ ranges := by
  obtain ⟨before, after, rfl, -, -⟩ := h
  simp

theorem Chosen.unique {vshards : List Nat} {ranges : List VshardRange} {a b : VshardRange}
    (ha : Chosen vshards ranges a) (hb : Chosen vshards ranges b) : a = b := by
  have hle := ha.le hb.mem
  obtain ⟨before, after, rfl, hbefore, hafter⟩ := ha
  obtain ⟨before', after', heq, hbefore', hafter'⟩ := hb
  induction before generalizing before' with
  | nil =>
    cases before' with
    | nil => exact (List.cons.inj heq).1
    | cons x before' =>
      have := hbefore' a (by rw [(List.cons.inj heq).1]; simp)
      omega
  | cons x before ih =>
    cases before' with
    | nil =>
      obtain ⟨rfl, -⟩ := List.cons.inj heq
      have := hbefore x List.mem_cons_self
      have := hafter' a (by rw [← (List.cons.inj heq).2]; simp)
      omega
    | cons y before' =>
      obtain ⟨-, heq'⟩ := List.cons.inj heq
      exact ih (fun r hr => hbefore r (List.mem_cons_of_mem _ hr)) before' heq'
        fun r hr => hbefore' r (List.mem_cons_of_mem _ hr)

/-! ## The scan -/

/-- `a` is nearer to half of the rows than `b`, or it is the smaller of two as near. -/
def Nearer (total a b : Nat) : Prop :=
  distance total a < distance total b ∨ (distance total a = distance total b ∧ a ≤ b)

theorem Nearer.trans {total a b c : Nat} (h₁ : Nearer total a b) (h₂ : Nearer total b c) :
    Nearer total a c := by
  unfold Nearer at *
  omega

/-- Behind a prefix that is no nearer than a smaller one, all prefixes are farther. -/
theorem Nearer.of_le {total a b c : Nat} (hlt : a < b) (h : distance total a ≤ distance total b)
    (hle : b ≤ c) : Nearer total a c := by
  unfold Nearer distance at *
  omega

section
variable {vshards : List Nat} {lo hi : Int} {total : Nat}

/-- The cut is the nearest one below `v`; there is none before the first vshard with rows. -/
structure Cut (vshards : List Nat) (lo v : Int) (total : Nat) (cut : Int) (rows : Nat) : Prop where
  start : cut < 0 → cut = -1 ∧ rows = 0
  proper : 0 ≤ cut → lo ≤ cut ∧ cut < v ∧ rows = rowsIn vshards lo cut ∧ 0 < rows ∧ rows < total
  nearest : ∀ k, lo ≤ k → k < v → 0 < rowsIn vshards lo k → rowsIn vshards lo k < total →
    0 ≤ cut ∧ Nearer total rows (rowsIn vshards lo k)

theorem Cut.mono {v : Int} {cut : Int} {rows : Nat} (h : Cut vshards lo v total cut rows)
    (hv : v ≤ hi) (hrest : ∀ k, v ≤ k → k < hi → 0 < rowsIn vshards lo k →
      rowsIn vshards lo k < total → 0 ≤ cut ∧ Nearer total rows (rowsIn vshards lo k)) :
    Cut vshards lo hi total cut rows := by
  refine ⟨h.start, fun hc => ?_, fun k hk hkv hpos hlt => ?_⟩
  · obtain ⟨h₁, h₂, h₃⟩ := h.proper hc
    exact ⟨h₁, by omega, h₃⟩
  · by_cases hkv' : k < v
    · exact h.nearest k hk hkv' hpos hlt
    · exact hrest k (by omega) hkv hpos hlt

/-- What the scan leaves is the nearest cut of all. The rows before `v` are those of the cut. -/
theorem scan_cut {n : Nat} {v : Int} {cut : Int} {rows : Nat} (hlo : 0 ≤ lo) (hv : lo ≤ v)
    (hn : v + n = hi) (htotal : ∀ k, k < hi → rowsIn vshards lo k ≤ total) (hrows : rowsIn vshards lo (v - 1) = rows)
    (h : Cut vshards lo v total cut rows) :
    Cut vshards lo hi total (scan vshards total (vshardsFrom v n) rows cut rows).1
      (scan vshards total (vshardsFrom v n) rows cut rows).2 := by
  induction n generalizing v cut rows with
  | zero =>
    obtain rfl : v = hi := by omega
    exact h
  | succ n ih =>
    have hnext : rowsIn vshards lo v = rows + rowsAt vshards v := by
      have := rowsIn_succ vshards (v := v - 1) (show lo ≤ v - 1 + 1 by omega)
      rw [sub_add_cancel] at this
      omega
    have hmono : ∀ k, v ≤ k → rowsIn vshards lo v ≤ rowsIn vshards lo k :=
      fun k hk => rowsIn_mono vshards (by omega) hk
    rw [vshardsFrom, scan, ← hnext]
    split
    · -- The prefix has not grown.
      rename_i hsame
      have hsame' : rowsIn vshards lo v = rows := by omega
      rw [hsame']
      refine ih (by omega) (by push_cast at hn; omega) (by rw [add_sub_cancel_right]; exact hsame') ?_
      refine h.mono (by omega) fun k hk hkv hpos hlt => ?_
      obtain rfl : k = v := by omega
      rw [hsame'] at hpos hlt ⊢
      by_cases hc : 0 ≤ cut
      · exact ⟨hc, .inr ⟨rfl, le_rfl⟩⟩
      · have := (h.start (by omega)).2
        omega
    · rename_i hgrown
      split
      · -- The prefix is the whole range, or is no nearer.
        rename_i hstop
        refine h.mono (by omega) fun k hk hkv hpos hlt => ?_
        have := hmono k hk
        rcases hstop with hstop | ⟨hc, hfar⟩
        · omega
        · exact ⟨hc, Nearer.of_le (by omega) hfar this⟩
      · rename_i hgo
        have hle := htotal v (by omega)
        refine ih (by omega) (by push_cast at hn; omega) (by rw [add_sub_cancel_right]) ?_
        refine ⟨by omega, fun _ => ⟨hv, by omega, rfl, by omega, by omega⟩,
          fun k hk hkv hpos hlt => ⟨by omega, ?_⟩⟩
        by_cases hkv' : k = v
        · exact .inr ⟨by rw [hkv'], by rw [hkv']⟩
        · obtain ⟨hc, hnear⟩ := h.nearest k hk (by omega) hpos hlt
          exact Nearer.trans (.inl (by omega)) hnear

/-- The last loop goes to the last vshard below `hi` behind which the prefix grows. -/
theorem extend_last {n : Nat} {v : Int} (hv : lo ≤ v) (hn : v + 1 + n = hi) :
    v ≤ extend vshards (vshardsFrom (v + 1) n) v ∧
      extend vshards (vshardsFrom (v + 1) n) v < hi ∧
      rowsIn vshards lo (extend vshards (vshardsFrom (v + 1) n) v) = rowsIn vshards lo v ∧
      ∀ k, extend vshards (vshardsFrom (v + 1) n) v < k → k < hi →
        rowsIn vshards lo k ≠ rowsIn vshards lo v := by
  induction n generalizing v with
  | zero => exact ⟨le_rfl, by simp [vshardsFrom, extend]; omega, rfl, fun k hk hkh => by
      simp only [vshardsFrom, extend] at hk
      omega⟩
  | succ n ih =>
    have hnext := rowsIn_succ vshards (show lo ≤ v + 1 by omega)
    rw [vshardsFrom, extend]
    split
    · rename_i hzero
      obtain ⟨hle, hlt, hsame, hgrow⟩ := ih (v := v + 1) (by omega) (by push_cast at hn; omega)
      have hsame' : rowsIn vshards lo (v + 1) = rowsIn vshards lo v := by omega
      rw [hsame'] at hsame hgrow
      exact ⟨by omega, hlt, hsame, hgrow⟩
    · rename_i hpos
      refine ⟨le_rfl, by push_cast at hn; omega, rfl, fun k hk hkh => ?_⟩
      have := rowsIn_mono vshards (show lo ≤ v + 1 + 1 by omega) (show v + 1 ≤ k by omega)
      omega

end

/-! ## The suggestion -/

section
variable (vshards : List Nat) (range : VshardRange)

/-- `[range.lo, k]` is a proper prefix of the range. -/
def ProperPrefix (k : Int) : Prop := range.lo ≤ k ∧ k < range.hi

/-- The prefix has some of the rows of the range and not all of them. -/
def Splits (k : Int) : Prop :=
  ProperPrefix range k ∧ 0 < rowsIn vshards range.lo k ∧
    rowsIn vshards range.lo k < rangeTotal vshards range

/-- No prefix that splits the range is nearer to half of its rows. -/
def NearestHalf (k : Int) : Prop :=
  Splits vshards range k ∧ ∀ k', Splits vshards range k' →
    distance (rangeTotal vshards range) (rowsIn vshards range.lo k) ≤
      distance (rangeTotal vshards range) (rowsIn vshards range.lo k')

end

/-- A proper prefix of a heaviest range that is balanced, and carries an eighth of the rows. -/
structure Balanced (vshards : List Nat) (ranges : List VshardRange) (s : SplitSuggestion)
    (range : VshardRange) : Prop where
  mem : range ∈ ranges
  heaviest : ∀ r ∈ ranges, rangeTotal vshards r ≤ rangeTotal vshards range
  lo : s.lo = range.lo
  nearest : NearestHalf vshards range s.hi
  rows : s.rows = rowsIn vshards range.lo s.hi
  share : rangeTotal vshards range ≤ 8 * s.rows
  last : ∀ k, s.hi < k → k < range.hi → rowsIn vshards range.lo k ≠ s.rows

/-- There is nothing to split: no rows at all, or the heaviest range has its rows on one side of
each cut, or a nearest prefix is too small. -/
def Unsplittable (vshards : List Nat) (ranges : List VshardRange) : Prop :=
  (∀ r ∈ ranges, rangeTotal vshards r = 0) ∨
    ∃ range, Chosen vshards ranges range ∧ ((∀ k, ¬ Splits vshards range k) ∨
      ∃ k, NearestHalf vshards range k ∧
        8 * rowsIn vshards range.lo k < rangeTotal vshards range)

section
variable {vshards : List Nat} {range : VshardRange}

/-- The cut of the chosen range. -/
theorem chosen_cut (hlo : 0 ≤ range.lo) :
    Cut vshards range.lo range.hi (rangeTotal vshards range)
      (scan vshards (rangeTotal vshards range)
        (vshardsFrom range.lo (range.hi - range.lo).toNat) 0 (-1) 0).1
      (scan vshards (rangeTotal vshards range)
        (vshardsFrom range.lo (range.hi - range.lo).toNat) 0 (-1) 0).2 := by
  by_cases hle : range.lo ≤ range.hi
  · refine scan_cut hlo le_rfl (by omega) (fun k hk => ?_) (rowsIn_before vshards _)
      ⟨fun _ => ⟨rfl, rfl⟩, by omega, by omega⟩
    rw [rangeTotal_eq]
    by_cases hk' : range.lo ≤ k + 1
    · exact rowsIn_mono vshards hk' hk.le
    · unfold rowsIn
      rw [show (k + 1 - range.lo).toNat = 0 by omega]
      exact Nat.zero_le _
  · rw [show (range.hi - range.lo).toNat = 0 by omega]
    exact ⟨fun _ => ⟨rfl, rfl⟩, by simp [scan, vshardsFrom], by omega⟩

theorem Cut.nearestHalf {cut : Int} {rows : Nat}
    (h : Cut vshards range.lo range.hi (rangeTotal vshards range) cut rows) (hc : 0 ≤ cut) :
    NearestHalf vshards range cut := by
  obtain ⟨hlo, hhi, hrows, hpos, hlt⟩ := h.proper hc
  refine ⟨⟨⟨hlo, hhi⟩, hrows ▸ hpos, hrows ▸ hlt⟩, fun k hk => ?_⟩
  obtain ⟨-, hnear⟩ := h.nearest k hk.1.1 hk.1.2 hk.2.1 hk.2.2
  rw [← hrows]
  rcases hnear with hnear | hnear
  · exact hnear.le
  · exact hnear.1.le

end

/-- `suggestSplit` returns a balanced proper prefix of a heaviest range, and nothing exactly when
there is nothing to split. -/
theorem suggestSplit_balanced (ranges : List VshardRange) (vshards : List Nat)
    (hranges : ∀ r ∈ ranges, 0 ≤ r.lo) :
    (∀ s, suggestSplit ranges vshards = some s → ∃ range, Balanced vshards ranges s range) ∧
      (suggestSplit ranges vshards = none ↔ Unsplittable vshards ranges) := by
  unfold suggestSplit
  rcases heaviest_cases vshards ranges with ⟨hnone, hall⟩ | ⟨range, hsome, hchosen, hpos⟩
  · rw [hnone]
    exact ⟨fun s h => (by cases h), fun _ => .inl hall, fun _ => rfl⟩
  · rw [hsome]
    dsimp only
    have hcut := @chosen_cut vshards range (hranges range hchosen.mem)
    generalize scan vshards (rangeTotal vshards range)
      (vshardsFrom range.lo (range.hi - range.lo).toNat) 0 (-1) 0 = result at hcut ⊢
    obtain ⟨cut, rows⟩ := result
    dsimp only at hcut
    have hnotZero : ¬ ∀ r ∈ ranges, rangeTotal vshards r = 0 := fun hall => by
      have := hall range hchosen.mem
      omega
    split
    · rename_i hrefused
      refine ⟨fun s h => (by cases h), fun _ => .inr ⟨range, hchosen, ?_⟩, fun _ => rfl⟩
      by_cases hc : 0 ≤ cut
      · refine .inr ⟨cut, hcut.nearestHalf hc, ?_⟩
        rw [← (hcut.proper hc).2.2.1]
        unfold MIN_SHARE at hrefused
        omega
      · refine .inl fun k hk => hc ?_
        exact (hcut.nearest k hk.1.1 hk.1.2 hk.2.1 hk.2.2).1
    · rename_i haccepted
      have hc : 0 ≤ cut := by omega
      obtain ⟨hlo, hhi, hrows, hrowsPos, hrowsLt⟩ := hcut.proper hc
      have hnear := hcut.nearestHalf hc
      unfold MIN_SHARE at haccepted
      obtain ⟨hle, hlt, hsame, hgrow⟩ := @extend_last vshards range.lo range.hi
        (range.hi - (cut + 1)).toNat cut hlo (by omega)
      refine ⟨fun s h => ?_, fun h => (by cases h), fun h => ?_⟩
      · cases h
        refine ⟨range, hchosen.mem, fun r hr => hchosen.le hr, rfl, ?_, ?_, by dsimp only; omega, ?_⟩
        · refine ⟨⟨⟨le_trans hlo hle, hlt⟩, ?_, ?_⟩, fun k hk => ?_⟩
          · rw [hsame]; exact hnear.1.2.1
          · rw [hsame]; exact hnear.1.2.2
          · rw [hsame]; exact hnear.2 k hk
        · exact hrows.trans hsame.symm
        · rw [hrows]; exact hgrow
      · rcases h with hall | ⟨range', hchosen', hsplit⟩
        · exact absurd hall hnotZero
        · obtain rfl := hchosen.unique hchosen'
          rcases hsplit with hnone | ⟨k, hk, hsmall⟩
          · exact absurd hnear.1 (hnone cut)
          · -- A nearest prefix with less than an eighth is the one that the scan leaves.
            have hbest := (hcut.nearest k hk.1.1.1 hk.1.1.2 hk.1.2.1 hk.1.2.2).2
            have hother := hk.2 cut hnear.1
            rw [← hrows] at hother
            unfold Nearer distance at *
            omega

theorem suggestSplit_balanced_four : ∃ range, Balanced [1, 2, 3, 4] [⟨0, 3, "ShardDO_0"⟩]
    { lo := 0, hi := 2, rows := 6 } range :=
  (suggestSplit_balanced [⟨0, 3, "ShardDO_0"⟩] [1, 2, 3, 4] (by decide)).1 _ (by decide)

end Chardb.Resharder
