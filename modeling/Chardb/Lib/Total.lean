import Chardb.Lib.Table

/-!
# Totals over a table

`t.total f` is `SUM(f)` over the rows of a table. An insert adds the new row's share, an update
adds the differences of the rows it changes, a delete takes the shares of the rows it removes.
-/

namespace Chardb.Lib.Table

variable {ρ κ : Type} {key : ρ → κ} {check : ρ → Prop}

/-- `SUM(f)` over a list of rows. -/
def sumOf (f : ρ → Int) : List ρ → Int
  | [] => 0
  | r :: rows => f r + sumOf f rows

/-- `SUM(f)` over the rows of a table. -/
def total (t : Table key check) (f : ρ → Int) : Int := sumOf f t.rows

@[simp] theorem sumOf_nil (f : ρ → Int) : sumOf f [] = 0 := rfl

@[simp] theorem sumOf_cons (f : ρ → Int) (r : ρ) (rows : List ρ) :
    sumOf f (r :: rows) = f r + sumOf f rows := rfl

@[simp] theorem sumOf_zero (rows : List ρ) : sumOf (fun _ => 0) rows = 0 := by
  induction rows with
  | nil => rfl
  | cons r rows ih => rw [sumOf_cons, ih]; omega

@[simp] theorem total_empty (f : ρ → Int) : (empty : Table key check).total f = 0 := rfl

theorem sumOf_append (f : ρ → Int) (rows rows' : List ρ) :
    sumOf f (rows ++ rows') = sumOf f rows + sumOf f rows' := by
  induction rows with
  | nil => simp
  | cons r rows ih => rw [List.cons_append, sumOf_cons, sumOf_cons, ih]; omega

theorem sumOf_change (f : ρ → Int) (p : ρ → Bool) (g : ρ → ρ) (rows : List ρ) :
    sumOf f (rows.map fun r => if p r then g r else r) =
      sumOf f rows + sumOf (fun r => f (g r) - f r) (rows.filter p) := by
  induction rows with
  | nil => simp
  | cons r rows ih =>
    rw [List.map_cons, sumOf_cons, ih, sumOf_cons]
    cases hp : p r
    · rw [List.filter_cons_of_neg (by simp [hp])]
      simp only [Bool.false_eq_true, if_false]
      omega
    · rw [List.filter_cons_of_pos hp, sumOf_cons]
      simp only [if_true]
      omega

theorem sumOf_keep (f : ρ → Int) (p : ρ → Bool) (rows : List ρ) :
    sumOf f (rows.filter fun r => !p r) = sumOf f rows - sumOf f (rows.filter p) := by
  induction rows with
  | nil => simp
  | cons r rows ih =>
    cases hp : p r
    · rw [List.filter_cons_of_pos (by simp [hp]), List.filter_cons_of_neg (by simp [hp]),
        sumOf_cons, sumOf_cons, ih]
      omega
    · rw [List.filter_cons_of_neg (by simp [hp]), List.filter_cons_of_pos hp, sumOf_cons,
        sumOf_cons, ih]
      omega

theorem sumOf_nonneg {f : ρ → Int} {rows : List ρ} (h : ∀ r ∈ rows, 0 ≤ f r) :
    0 ≤ sumOf f rows := by
  induction rows with
  | nil => simp
  | cons r rows ih =>
    have hr := h r List.mem_cons_self
    have hrest := ih fun x hx => h x (List.mem_cons_of_mem _ hx)
    rw [sumOf_cons]; omega

theorem sumOf_le {f g : ρ → Int} {rows : List ρ} (h : ∀ r ∈ rows, f r ≤ g r) :
    sumOf f rows ≤ sumOf g rows := by
  induction rows with
  | nil => simp
  | cons r rows ih =>
    have hr := h r List.mem_cons_self
    have hrest := ih fun x hx => h x (List.mem_cons_of_mem _ hx)
    rw [sumOf_cons, sumOf_cons]; omega

/-- Where one measure is never above the other, their sums agree only row by row. -/
theorem sumOf_eq_iff {f g : ρ → Int} {rows : List ρ} (h : ∀ r ∈ rows, f r ≤ g r) :
    sumOf f rows = sumOf g rows ↔ ∀ r ∈ rows, f r = g r := by
  induction rows with
  | nil => simp
  | cons r rows ih =>
    have hr := h r List.mem_cons_self
    have hle : ∀ x ∈ rows, f x ≤ g x := fun x hx => h x (List.mem_cons_of_mem _ hx)
    have hrest := sumOf_le hle
    rw [sumOf_cons, sumOf_cons, List.forall_mem_cons, ← ih hle]
    omega

/-- One row's share is at most the total of shares that are never negative. -/
theorem le_sumOf {f : ρ → Int} {rows : List ρ} (h : ∀ r ∈ rows, 0 ≤ f r) {r : ρ} (hr : r ∈ rows) :
    f r ≤ sumOf f rows := by
  induction rows with
  | nil => cases hr
  | cons x rows ih =>
    have hx := h x List.mem_cons_self
    have hpos : ∀ y ∈ rows, 0 ≤ f y := fun y hy => h y (List.mem_cons_of_mem _ hy)
    have hsum := sumOf_nonneg hpos
    rw [sumOf_cons]
    rcases List.mem_cons.mp hr with rfl | hr
    · omega
    · have := ih hpos hr
      omega

section
variable [DecidableEq κ] [DecidablePred check]

theorem total_insert {t t' : Table key check} {r : ρ} (h : t.insert? r = some t') (f : ρ → Int) :
    t'.total f = t.total f + f r := by
  rw [total, rows_insert h, sumOf_append, sumOf_cons, sumOf_nil, total]; omega

theorem total_update {t t' : Table key check} {p : ρ → Bool} {g : ρ → ρ}
    (h : t.update? p g = some t') (f : ρ → Int) :
    t'.total f = t.total f + sumOf (fun r => f (g r) - f r) (t.select p) := by
  rw [total, rows_update h, sumOf_change]; rfl

end

theorem total_deleteWhere (t : Table key check) (p : ρ → Bool) (f : ρ → Int) :
    (t.deleteWhere p).total f = t.total f - sumOf f (t.select p) := sumOf_keep f p t.rows

/-! ## Numbers of rows -/

section
variable [DecidableEq κ] [DecidablePred check]

theorem count_insert {t t' : Table key check} {r : ρ} (h : t.insert? r = some t') :
    t'.count = t.count + 1 := by
  rw [count, rows_insert h, List.length_append, List.length_singleton, count]

theorem count_update {t t' : Table key check} {p : ρ → Bool} {g : ρ → ρ}
    (h : t.update? p g = some t') : t'.count = t.count := by
  rw [count, rows_update h, List.length_map, count]

end

theorem count_deleteWhere (t : Table key check) (p : ρ → Bool) :
    (t.deleteWhere p).count + (t.select p).length = t.count := by
  have := List.length_eq_length_filter_add (l := t.rows) p
  show (t.rows.filter fun r => !p r).length + (t.rows.filter p).length = t.rows.length
  omega

end Chardb.Lib.Table
