import Chardb.Lib.Tx
import Mathlib.Algebra.Order.Ring.Int
import Mathlib.Data.List.Sort

/-!
# Tables keyed by `AUTOINCREMENT`

A `SeqTable key` holds rows in the order of a positive integer key. `last` is the last
key that was given out: a new row takes the next one, and a key is never given out
again, not even when its row is deleted.
-/

namespace Chardb.Lib

/-- Rows in the order of their keys, none above `last`. -/
structure SeqTable {ρ : Type} (key : ρ → Int) where
  rows : List ρ
  last : Int
  sorted : rows.Pairwise fun a b => key a < key b
  bounds : ∀ r ∈ rows, 0 < key r ∧ key r ≤ last
  last_nonneg : 0 ≤ last

namespace SeqTable

variable {ρ : Type} {key : ρ → Int}

/-- The table that has given out no key. -/
def empty : SeqTable key := ⟨[], 0, .nil, by simp, le_rfl⟩

instance : Membership ρ (SeqTable key) := ⟨fun t r => r ∈ t.rows⟩

theorem mem_rows {t : SeqTable key} {r : ρ} : r ∈ t.rows ↔ r ∈ t := Iff.rfl

@[simp] theorem not_mem_empty {r : ρ} : r ∉ (empty : SeqTable key) := List.not_mem_nil

theorem key_le {t : SeqTable key} {r : ρ} (h : r ∈ t) : key r ≤ t.last := (t.bounds r h).2

theorem eq_of_key {t : SeqTable key} {r r' : ρ} (h : r ∈ t) (h' : r' ∈ t) (hk : key r = key r') :
    r = r' := by
  obtain ⟨i, hi, rfl⟩ := List.mem_iff_getElem.mp h
  obtain ⟨j, hj, rfl⟩ := List.mem_iff_getElem.mp h'
  have hlt := List.pairwise_iff_getElem.mp t.sorted
  rcases lt_trichotomy i j with hij | rfl | hij
  · have := hlt i j hi hj hij; omega
  · rfl
  · have := hlt j i hj hi hij; omega

/-- The rows that match, in key order. -/
def select (t : SeqTable key) (p : ρ → Bool) : List ρ := t.rows.filter p

@[simp] theorem mem_select {t : SeqTable key} {p : ρ → Bool} {r : ρ} :
    r ∈ t.select p ↔ r ∈ t ∧ p r = true := List.mem_filter

theorem select_sorted (t : SeqTable key) (p : ρ → Bool) :
    (t.select p).Pairwise fun a b => key a < key b := t.sorted.filter p

/-- Add a row under the next key. -/
def append (t : SeqTable key) (row : Int → ρ) (hk : ∀ n, key (row n) = n) : SeqTable key where
  rows := t.rows ++ [row (t.last + 1)]
  last := t.last + 1
  sorted := by
    refine List.pairwise_append.mpr ⟨t.sorted, List.pairwise_singleton _ _, fun a ha b hb => ?_⟩
    have := (t.bounds a ha).2
    rw [List.mem_singleton.mp hb, hk]; omega
  bounds := by
    intro r hr
    have := t.last_nonneg
    rcases List.mem_append.mp hr with hr | hr
    · have := t.bounds r hr; omega
    · rw [List.mem_singleton.mp hr, hk]; omega
  last_nonneg := by have := t.last_nonneg; omega

@[simp] theorem mem_append {t : SeqTable key} {row : Int → ρ} (hk : ∀ n, key (row n) = n) {r : ρ} :
    r ∈ t.append row hk ↔ r ∈ t ∨ r = row (t.last + 1) := by
  rw [← mem_rows]; simp [append, mem_rows]

@[simp] theorem append_last {t : SeqTable key} {row : Int → ρ} {hk : ∀ n, key (row n) = n} :
    (t.append row hk).last = t.last + 1 := rfl

theorem select_append {t : SeqTable key} {row : Int → ρ} {hk : ∀ n, key (row n) = n} {p : ρ → Bool} :
    (t.append row hk).select p =
      t.select p ++ if p (row (t.last + 1)) then [row (t.last + 1)] else [] := by
  unfold select append
  rw [List.filter_append]
  split <;> simp_all

/-- Drop the rows that match; their keys stay used. -/
def deleteWhere (t : SeqTable key) (p : ρ → Bool) : SeqTable key where
  rows := t.rows.filter fun r => !p r
  last := t.last
  sorted := t.sorted.filter _
  bounds := fun r hr => t.bounds r (List.mem_filter.mp hr).1
  last_nonneg := t.last_nonneg

@[simp] theorem mem_deleteWhere {t : SeqTable key} {p : ρ → Bool} {r : ρ} :
    r ∈ t.deleteWhere p ↔ r ∈ t ∧ p r = false := by
  rw [← mem_rows]; simp [deleteWhere, mem_rows]

@[simp] theorem deleteWhere_last {t : SeqTable key} {p : ρ → Bool} :
    (t.deleteWhere p).last = t.last := rfl

theorem select_deleteWhere {t : SeqTable key} {p q : ρ → Bool} :
    (t.deleteWhere q).select p = (t.select p).filter fun r => !q r := by
  unfold select deleteWhere
  rw [List.filter_filter, List.filter_filter]
  exact List.filter_congr fun r _ => Bool.and_comm _ _

/-- `DELETE`, as a program. -/
def delete {ε : Type} (p : ρ → Bool) : Tx ε (SeqTable key) Unit := .modify (deleteWhere · p)

end SeqTable

end Chardb.Lib
