import Chardb.Lib.Tx
import Mathlib.Data.List.Nodup
import Mathlib.Data.List.Sort

/-!
# Keyed tables

A `Table key check` holds rows with distinct keys, each of which passes `check`:
a primary key and the row constraints of an SQL table. `insert?` and `update?`
answer `none` when the result would break a constraint, so a table that does
cannot be built. `Table.insert`, `Table.update` and `Table.delete` are the same
operations as programs over the table.
-/

namespace Chardb.Lib

/-- Rows with distinct keys, each passing `check`. -/
structure Table {ρ κ : Type} (key : ρ → κ) (check : ρ → Prop) where
  rows : List ρ
  nodup : (rows.map key).Nodup
  checked : ∀ r ∈ rows, check r

namespace Table

variable {ρ κ : Type} {key : ρ → κ} {check : ρ → Prop}

instance : Membership ρ (Table key check) := ⟨fun t r => r ∈ t.rows⟩

theorem mem_rows {t : Table key check} {r : ρ} : r ∈ t.rows ↔ r ∈ t := Iff.rfl

/-- The table with no rows. -/
def empty : Table key check := ⟨[], List.nodup_nil, fun _ h => by cases h⟩

@[simp] theorem not_mem_empty {r : ρ} : r ∉ (empty : Table key check) := List.not_mem_nil

instance : Inhabited (Table key check) := ⟨empty⟩

theorem check_of_mem {t : Table key check} {r : ρ} (h : r ∈ t) : check r := t.checked r h

theorem eq_of_key {t : Table key check} {r r' : ρ} (h : r ∈ t) (h' : r' ∈ t)
    (hk : key r = key r') : r = r' := List.inj_on_of_nodup_map t.nodup h h' hk

/-- The rows that match, in table order. -/
def select (t : Table key check) (p : ρ → Bool) : List ρ := t.rows.filter p

@[simp] theorem mem_select {t : Table key check} {p : ρ → Bool} {r : ρ} :
    r ∈ t.select p ↔ r ∈ t ∧ p r = true := List.mem_filter

theorem nodup_rows (t : Table key check) : t.rows.Nodup := List.Nodup.of_map key t.nodup

/-- A query that pins down its rows finds at most one. -/
theorem select_length_le_one {t : Table key check} {p : ρ → Bool}
    (h : ∀ r ∈ t, ∀ r' ∈ t, p r = true → p r' = true → r = r') : (t.select p).length ≤ 1 := by
  rcases hl : t.select p with _ | ⟨a, _ | ⟨b, l⟩⟩
  · simp
  · simp
  · have ha := mem_select.mp (hl ▸ List.mem_cons_self : a ∈ t.select p)
    have hb := mem_select.mp (hl ▸ List.mem_cons_of_mem _ List.mem_cons_self : b ∈ t.select p)
    have hn : (a :: b :: l).Nodup := hl ▸ t.nodup_rows.filter p
    have := h a ha.1 b hb.1 ha.2 hb.2
    simp [this] at hn

/-- The rows that match, in the order of `k`. -/
def orderBy {τ : Type} [LinearOrder τ] (t : Table key check) (p : ρ → Bool) (k : ρ → τ) : List ρ :=
  (t.select p).insertionSort fun a b => k a ≤ k b

@[simp] theorem mem_orderBy {τ : Type} [LinearOrder τ] {t : Table key check} {p : ρ → Bool}
    {k : ρ → τ} {r : ρ} : r ∈ t.orderBy p k ↔ r ∈ t ∧ p r = true := by
  rw [orderBy, List.mem_insertionSort, mem_select]

theorem orderBy_sorted {τ : Type} [LinearOrder τ] (t : Table key check) (p : ρ → Bool) (k : ρ → τ) :
    (t.orderBy p k).Pairwise fun a b => k a ≤ k b :=
  List.pairwise_insertionSort (fun a b => k a ≤ k b) _

/-- Number of rows. -/
def count (t : Table key check) : Nat := t.rows.length

private theorem nodup_filter (t : Table key check) (p : ρ → Bool) :
    ((t.rows.filter p).map key).Nodup :=
  t.nodup.sublist (List.filter_sublist.map key)

/-- Drop the rows that match. -/
def deleteWhere (t : Table key check) (p : ρ → Bool) : Table key check where
  rows := t.rows.filter fun r => !p r
  nodup := nodup_filter t _
  checked := fun r hr => t.checked r (List.mem_filter.mp hr).1

@[simp] theorem mem_deleteWhere {t : Table key check} {p : ρ → Bool} {r : ρ} :
    r ∈ t.deleteWhere p ↔ r ∈ t ∧ p r = false := by
  rw [← mem_rows]; simp [deleteWhere, mem_rows]

variable [DecidableEq κ]

/-- The row under a key. -/
def find? (t : Table key check) (k : κ) : Option ρ := t.rows.find? fun r => decide (key r = k)

theorem find?_eq_some {t : Table key check} {k : κ} {r : ρ} :
    t.find? k = some r ↔ r ∈ t ∧ key r = k := by
  constructor
  · intro h
    exact ⟨List.mem_of_find?_eq_some h, by simpa using List.find?_some h⟩
  · rintro ⟨h, rfl⟩
    cases h' : t.find? (key r) with
    | none => simpa using List.find?_eq_none.mp h' r h
    | some r' =>
      have hk : key r' = key r := by simpa using List.find?_some h'
      rw [eq_of_key (List.mem_of_find?_eq_some h') h hk]

theorem find?_eq_none {t : Table key check} {k : κ} :
    t.find? k = none ↔ ∀ r ∈ t, key r ≠ k := by
  unfold find?; rw [List.find?_eq_none]; simp only [decide_eq_true_eq]; rfl

theorem find?_key {t : Table key check} {r : ρ} (h : r ∈ t) : t.find? (key r) = some r :=
  find?_eq_some.mpr ⟨h, rfl⟩

variable [DecidablePred check]

/-- Add a row with a fresh key that passes the checks. -/
def insert? (t : Table key check) (r : ρ) : Option (Table key check) :=
  if h : (∀ x ∈ t.rows, key x ≠ key r) ∧ check r then
    some
      { rows := t.rows ++ [r]
        nodup := by
          rw [List.map_append, List.nodup_append]
          refine ⟨t.nodup, by simp, ?_⟩
          rintro k hk k' hk' rfl
          obtain ⟨x, hx, rfl⟩ := List.mem_map.mp hk
          exact h.1 x hx (by simpa using hk')
        checked := by
          intro x hx
          rcases List.mem_append.mp hx with hx | hx
          · exact t.checked x hx
          · rw [List.mem_singleton.mp hx]; exact h.2 }
  else none

theorem insert?_isSome {t : Table key check} {r : ρ} :
    (t.insert? r).isSome ↔ (∀ x ∈ t, key x ≠ key r) ∧ check r := by
  unfold insert?; split
  · rename_i h; exact ⟨fun _ => h, fun _ => rfl⟩
  · rename_i h; exact ⟨fun h' => by simp at h', fun h' => absurd h' h⟩

theorem rows_insert {t t' : Table key check} {r : ρ} (h : t.insert? r = some t') :
    t'.rows = t.rows ++ [r] := by
  unfold insert? at h; split at h
  · cases h; rfl
  · cases h

theorem mem_insert {t t' : Table key check} {r x : ρ} (h : t.insert? r = some t') :
    x ∈ t' ↔ x ∈ t ∨ x = r := by
  rw [← mem_rows, rows_insert h, List.mem_append, List.mem_singleton]; rfl

theorem insert?_fresh {t t' : Table key check} {r : ρ} (h : t.insert? r = some t') :
    (∀ x ∈ t, key x ≠ key r) ∧ check r := insert?_isSome.mp (by rw [h]; rfl)

/-- `INSERT OR IGNORE`: a row that breaks a constraint is dropped. -/
def insertOrIgnore (t : Table key check) (r : ρ) : Table key check := (t.insert? r).getD t

/-- Change the rows that match. -/
def update? (t : Table key check) (p : ρ → Bool) (f : ρ → ρ) : Option (Table key check) :=
  let rows := t.rows.map fun r => if p r then f r else r
  if h : (rows.map key).Nodup ∧ ∀ r ∈ rows, check r then some ⟨rows, h.1, h.2⟩ else none

theorem rows_update {t t' : Table key check} {p : ρ → Bool} {f : ρ → ρ}
    (h : t.update? p f = some t') : t'.rows = t.rows.map fun r => if p r then f r else r := by
  unfold update? at h; dsimp only at h; split at h
  · cases h; rfl
  · cases h

theorem mem_update {t t' : Table key check} {p : ρ → Bool} {f : ρ → ρ}
    (h : t.update? p f = some t') {x : ρ} :
    x ∈ t' ↔ ∃ r ∈ t, x = if p r then f r else r := by
  rw [← mem_rows, rows_update h, List.mem_map]
  simp only [mem_rows, eq_comm]

/-- An update that reports one change swaps that one row. -/
theorem mem_update_one {t t' : Table key check} {p : ρ → Bool} {f : ρ → ρ}
    (h : t.update? p f = some t') (hn : (t.select p).length = 1) :
    ∃ r ∈ t, p r = true ∧ ∀ x, x ∈ t' ↔ (x ∈ t ∧ x ≠ r) ∨ x = f r := by
  obtain ⟨r, hr⟩ := List.length_eq_one_iff.mp hn
  have hmem : r ∈ t ∧ p r = true := mem_select.mp (by rw [hr]; exact List.mem_singleton_self r)
  have honly : ∀ x ∈ t, p x = true → x = r := by
    intro x hx hp
    have : x ∈ t.select p := mem_select.mpr ⟨hx, hp⟩
    rw [hr] at this; exact List.mem_singleton.mp this
  refine ⟨r, hmem.1, hmem.2, fun x => ?_⟩
  rw [mem_update h]
  constructor
  · rintro ⟨y, hy, rfl⟩
    by_cases hp : p y = true
    · rw [if_pos hp, honly y hy hp]; exact .inr rfl
    · rw [if_neg hp]; exact .inl ⟨hy, fun he => hp (he ▸ hmem.2)⟩
  · rintro (⟨hx, hne⟩ | rfl)
    · exact ⟨x, hx, by rw [if_neg fun hp => hne (honly x hx hp)]⟩
    · exact ⟨r, hmem.1, by rw [if_pos hmem.2]⟩

/-- An update that keeps the keys and the checks goes through. -/
theorem update?_isSome {t : Table key check} {p : ρ → Bool} {f : ρ → ρ}
    (hk : ∀ r ∈ t, p r = true → key (f r) = key r) (hc : ∀ r ∈ t, p r = true → check (f r)) :
    (t.update? p f).isSome := by
  unfold update?; dsimp only
  have hkeys : (t.rows.map fun r => if p r then f r else r).map key = t.rows.map key := by
    rw [List.map_map]
    refine List.map_congr_left fun r hr => ?_
    by_cases hp : p r = true
    · simp [hp, hk r hr hp]
    · simp [hp]
  rw [dif_pos]
  · rfl
  · refine ⟨hkeys ▸ t.nodup, fun x hx => ?_⟩
    obtain ⟨r, hr, rfl⟩ := List.mem_map.mp hx
    by_cases hp : p r = true
    · simpa [hp] using hc r hr hp
    · simpa [hp] using t.checked r hr

/-- `INSERT … ON CONFLICT DO UPDATE`: a row under the new row's key is changed instead. -/
def upsert? (t : Table key check) (r : ρ) (f : ρ → ρ) : Option (Table key check) :=
  if (t.find? (key r)).isSome then t.update? (fun x => decide (key x = key r)) f else t.insert? r

/-! ## What is under a key afterwards -/

omit [DecidablePred check] in
theorem find?_deleteWhere {t : Table key check} {p : ρ → Bool} (k : κ) :
    (t.deleteWhere p).find? k = (t.find? k).filter fun r => !p r := by
  cases h' : t.find? k with
  | none =>
    refine find?_eq_none.mpr fun x hx => ?_
    exact find?_eq_none.mp h' x (mem_deleteWhere.mp hx).1
  | some r =>
    obtain ⟨hr, hrk⟩ := find?_eq_some.mp h'
    by_cases hp : p r = true
    · simp only [Option.filter, hp, Bool.not_true]
      refine find?_eq_none.mpr fun x hx hxk => ?_
      obtain ⟨hx, hpx⟩ := mem_deleteWhere.mp hx
      rw [eq_of_key hx hr (hxk.trans hrk.symm), hp] at hpx; cases hpx
    · simp only [Option.filter, Bool.eq_false_iff.mpr hp, Bool.not_false]
      exact find?_eq_some.mpr ⟨mem_deleteWhere.mpr ⟨hr, Bool.eq_false_iff.mpr hp⟩, hrk⟩

theorem find?_insert {t t' : Table key check} {r : ρ} (h : t.insert? r = some t') (k : κ) :
    t'.find? k = if key r = k then some r else t.find? k := by
  split
  · rename_i hk
    exact find?_eq_some.mpr ⟨(mem_insert h).mpr (.inr rfl), hk⟩
  · rename_i hk
    cases h' : t.find? k with
    | none =>
      refine find?_eq_none.mpr fun x hx => ?_
      rcases (mem_insert h).mp hx with hx | rfl
      · exact find?_eq_none.mp h' x hx
      · exact hk
    | some x =>
      obtain ⟨hx, hxk⟩ := find?_eq_some.mp h'
      exact find?_eq_some.mpr ⟨(mem_insert h).mpr (.inl hx), hxk⟩

/-- After `INSERT OR IGNORE` of a row that passes the checks its key is taken. -/
theorem find?_insertOrIgnore {t : Table key check} {r : ρ} (hr : check r) (k : κ) :
    (t.insertOrIgnore r).find? k =
      if key r = k then some ((t.find? k).getD r) else t.find? k := by
  unfold insertOrIgnore
  cases h : t.insert? r with
  | some t' =>
    have hnone : t.find? (key r) = none := find?_eq_none.mpr (insert?_fresh h).1
    rw [Option.getD_some, find?_insert h]
    split
    · rename_i hk; rw [← hk, hnone]; rfl
    · rfl
  | none =>
    rw [Option.getD_none]
    split
    · rename_i hk
      subst hk
      cases hx : t.find? (key r) with
      | some x => rfl
      | none =>
        have := insert?_isSome.mpr ⟨find?_eq_none.mp hx, hr⟩
        rw [h] at this; cases this
    · rfl

theorem find?_update {t t' : Table key check} {p : ρ → Bool} {f : ρ → ρ}
    (h : t.update? p f = some t') (hk : ∀ r ∈ t, p r = true → key (f r) = key r) (k : κ) :
    t'.find? k = (t.find? k).map fun r => if p r then f r else r := by
  have hkey : ∀ r ∈ t, key (if p r then f r else r) = key r := by
    intro r hr
    split
    · rename_i hp; exact hk r hr hp
    · rfl
  cases h' : t.find? k with
  | none =>
    refine find?_eq_none.mpr fun x hx => ?_
    obtain ⟨r, hr, rfl⟩ := (mem_update h).mp hx
    rw [hkey r hr]; exact find?_eq_none.mp h' r hr
  | some r =>
    obtain ⟨hr, hrk⟩ := find?_eq_some.mp h'
    exact find?_eq_some.mpr ⟨(mem_update h).mpr ⟨r, hr, rfl⟩, (hkey r hr).trans hrk⟩

theorem find?_upsert {t t' : Table key check} {r : ρ} {f : ρ → ρ} (h : t.upsert? r f = some t')
    (hk : ∀ x, key (f x) = key x) (k : κ) :
    t'.find? k = if key r = k then some (((t.find? k).map f).getD r) else t.find? k := by
  unfold upsert? at h
  split at h
  · rename_i hsome
    obtain ⟨x, hx⟩ := Option.isSome_iff_exists.mp hsome
    rw [find?_update h fun x _ _ => hk x]
    split
    · rename_i he
      subst he
      have hxk := (find?_eq_some.mp hx).2
      simp [hx, hxk]
    · rename_i he
      cases hf : t.find? k with
      | none => rfl
      | some y =>
        have : key y ≠ key r := fun hy => he (hy.symm.trans (find?_eq_some.mp hf).2)
        simp [this]
  · rename_i hnone
    rw [find?_insert h]
    split
    · rename_i he
      subst he
      simp [Option.not_isSome_iff_eq_none.mp hnone]
    · rfl

/-- The row under the new row's key is replaced, and the others stay. -/
theorem mem_upsert {t t' : Table key check} {r : ρ} {f : ρ → ρ} (h : t.upsert? r f = some t')
    (hk : ∀ x, key (f x) = key x) (x : ρ) :
    x ∈ t' ↔ (x ∈ t ∧ key x ≠ key r) ∨ x = ((t.find? (key r)).map f).getD r := by
  have hfind := find?_upsert h hk
  have hkey : key (((t.find? (key r)).map f).getD r) = key r := by
    cases hf : t.find? (key r) with
    | none => rfl
    | some y => exact (hk y).trans (find?_eq_some.mp hf).2
  have hmem : ∀ {t : Table key check}, x ∈ t ↔ t.find? (key x) = some x :=
    ⟨find?_key, fun hf => (find?_eq_some.mp hf).1⟩
  rw [hmem, hmem, hfind]
  by_cases he : key r = key x
  · rw [if_pos he, ← he, Option.some.injEq]
    constructor
    · exact fun hx => .inr hx.symm
    · rintro (⟨-, hne⟩ | hx)
      · exact absurd rfl hne
      · exact hx.symm
  · rw [if_neg he]
    constructor
    · exact fun hx => .inl ⟨hx, Ne.symm he⟩
    · rintro (⟨hx, -⟩ | rfl)
      · exact hx
      · exact absurd hkey.symm he

omit [DecidablePred check] in
/-- A query for one key finds the row under it, if that row matches. -/
theorem select_key_length {t : Table key check} {k : κ} {p : ρ → Bool} :
    (t.select fun r => decide (key r = k) && p r).length =
      if (t.find? k).any p then 1 else 0 := by
  have hle : (t.select fun r => decide (key r = k) && p r).length ≤ 1 :=
    select_length_le_one fun r hr r' hr' h h' => by
      simp only [Bool.and_eq_true, decide_eq_true_eq] at h h'
      exact eq_of_key hr hr' (h.1.trans h'.1.symm)
  split
  · rename_i h
    obtain ⟨r, hr, hp⟩ : ∃ r, t.find? k = some r ∧ p r = true := by
      cases hf : t.find? k with
      | none => simp [hf] at h
      | some r => exact ⟨r, rfl, by simpa [hf] using h⟩
    obtain ⟨hr, hk⟩ := find?_eq_some.mp hr
    have hmem : r ∈ t.select fun r => decide (key r = k) && p r :=
      mem_select.mpr ⟨hr, by simp [hk, hp]⟩
    have := List.length_pos_of_mem hmem; omega
  · rename_i h
    rw [List.length_eq_zero_iff]
    refine List.eq_nil_iff_forall_not_mem.mpr fun r hr => h ?_
    obtain ⟨hr, hp⟩ := mem_select.mp hr
    simp only [Bool.and_eq_true, decide_eq_true_eq] at hp
    rw [find?_eq_some.mpr ⟨hr, hp.1⟩]; exact hp.2

/-! ## The operations as programs -/

section
variable {ε : Type}

/-- `INSERT`: throws `e` when a constraint fails. -/
def insert (r : ρ) (e : ε) : Tx ε (Table key check) Unit := fun t =>
  match t.insert? r with
  | some t' => (.ok (), t')
  | none => (.error e, t)

/-- `INSERT OR IGNORE`: answers the number of rows inserted. -/
def insertIgnore (r : ρ) : Tx ε (Table key check) Nat := fun t =>
  match t.insert? r with
  | some t' => (.ok 1, t')
  | none => (.ok 0, t)

/-- `UPDATE`: answers the number of rows changed, throws `e` when a constraint fails. -/
def update (p : ρ → Bool) (f : ρ → ρ) (e : ε) : Tx ε (Table key check) Nat := fun t =>
  match t.update? p f with
  | some t' => (.ok (t.select p).length, t')
  | none => (.error e, t)

/-- `INSERT … ON CONFLICT DO UPDATE`: throws `e` when a constraint fails. -/
def upsert (r : ρ) (f : ρ → ρ) (e : ε) : Tx ε (Table key check) Unit := fun t =>
  match t.upsert? r f with
  | some t' => (.ok (), t')
  | none => (.error e, t)

/-- `DELETE`: answers the number of rows removed. -/
def delete (p : ρ → Bool) : Tx ε (Table key check) Nat := fun t =>
  (.ok (t.select p).length, t.deleteWhere p)

variable {t t' : Table key check} {r : ρ} {p : ρ → Bool} {f : ρ → ρ} {e e' : ε} {a : Unit} {n : Nat}

@[simp] theorem insert_returns :
    (insert r e : Tx ε (Table key check) Unit).Returns t a t' ↔ t.insert? r = some t' := by
  unfold Tx.Returns insert; cases t.insert? r <;> simp

@[simp] theorem insert_throws :
    (insert r e : Tx ε (Table key check) Unit).Throws t e' t' ↔
      t.insert? r = none ∧ e' = e ∧ t' = t := by
  unfold Tx.Throws insert; cases t.insert? r <;> simp [eq_comm]

theorem insertIgnore_returns :
    (insertIgnore r : Tx ε (Table key check) Nat).Returns t n t' ↔
      (n = 1 ∧ t.insert? r = some t') ∨ (n = 0 ∧ t.insert? r = none ∧ t' = t) := by
  unfold Tx.Returns insertIgnore; cases t.insert? r <;> simp [eq_comm]

/-- After an ignored or successful insert there is a row under the key, unless the new one fails
the checks. -/
theorem insertIgnore_find? (h : (insertIgnore r : Tx ε (Table key check) Nat).Returns t n t')
    (hr : check r) (k : κ) :
    t'.find? k = if key r = k then some ((t.find? k).getD r) else t.find? k := by
  have := find?_insertOrIgnore (t := t) hr k
  rw [← this]
  rcases insertIgnore_returns.mp h with ⟨-, hi⟩ | ⟨-, hi, rfl⟩
  · rw [insertOrIgnore, hi, Option.getD_some]
  · rw [insertOrIgnore, hi, Option.getD_none]

@[simp] theorem update_returns :
    (update p f e : Tx ε (Table key check) Nat).Returns t n t' ↔
      t.update? p f = some t' ∧ n = (t.select p).length := by
  unfold Tx.Returns update; cases t.update? p f <;> simp [eq_comm, and_comm]

@[simp] theorem update_throws :
    (update p f e : Tx ε (Table key check) Nat).Throws t e' t' ↔
      t.update? p f = none ∧ e' = e ∧ t' = t := by
  unfold Tx.Throws update; cases t.update? p f <;> simp [eq_comm]

/-- An update of the row under one key changes it if it matches, and nothing else. -/
theorem update_key_returns {k₀ : κ}
    (h : (update (fun r => decide (key r = k₀) && p r) f e : Tx ε (Table key check) Nat).Returns t n t')
    (hk : ∀ r, key (f r) = key r) :
    (n = 1 ∧ ∃ r, t.find? k₀ = some r ∧ p r = true ∧
        ∀ k, t'.find? k = if k₀ = k then some (f r) else t.find? k) ∨
      (n = 0 ∧ (∀ r, t.find? k₀ = some r → p r = false) ∧ ∀ k, t'.find? k = t.find? k) := by
  obtain ⟨hu, rfl⟩ := update_returns.mp h
  rw [select_key_length]
  have hfind := find?_update hu fun r _ _ => hk r
  have hother : ∀ k, k₀ ≠ k → t'.find? k = t.find? k := by
    intro k hne
    rw [hfind]
    cases hf : t.find? k with
    | none => rfl
    | some r =>
      have := (find?_eq_some.mp hf).2
      simp [this, Ne.symm hne]
  cases hf : t.find? k₀ with
  | none =>
    refine .inr ⟨by simp, by simp, fun k => ?_⟩
    by_cases hkk : k₀ = k
    · rw [hfind, ← hkk, hf]; rfl
    · exact hother k hkk
  | some r =>
    have hr := (find?_eq_some.mp hf).2
    by_cases hp : p r = true
    · refine .inl ⟨by simp [hp], r, rfl, hp, fun k => ?_⟩
      by_cases hkk : k₀ = k
      · rw [if_pos hkk, hfind, ← hkk, hf]; simp [hr, hp]
      · rw [if_neg hkk]; exact hother k hkk
    · have hp : p r = false := by simpa using hp
      refine .inr ⟨by simp [hp], fun x hx => Option.some.inj hx ▸ hp, fun k => ?_⟩
      by_cases hkk : k₀ = k
      · rw [hfind, ← hkk, hf]; simp [hp]
      · exact hother k hkk

/-- An update that keeps the key and the checks of every row does not throw. -/
theorem update_not_throws (h : (update p f e : Tx ε (Table key check) Nat).Throws t e' t')
    (hk : ∀ r, key (f r) = key r) (hc : ∀ r ∈ t, p r = true → check (f r)) : False := by
  have := update?_isSome (fun r _ _ => hk r) hc
  rw [(update_throws.mp h).1] at this
  cases this

@[simp] theorem upsert_returns :
    (upsert r f e : Tx ε (Table key check) Unit).Returns t a t' ↔ t.upsert? r f = some t' := by
  unfold Tx.Returns upsert; cases t.upsert? r f <;> simp

@[simp] theorem upsert_throws :
    (upsert r f e : Tx ε (Table key check) Unit).Throws t e' t' ↔
      t.upsert? r f = none ∧ e' = e ∧ t' = t := by
  unfold Tx.Throws upsert; cases t.upsert? r f <;> simp [eq_comm]

omit [DecidableEq κ] [DecidablePred check] in
@[simp] theorem delete_returns :
    (delete p : Tx ε (Table key check) Nat).Returns t n t' ↔
      t' = t.deleteWhere p ∧ n = (t.select p).length := by
  simp [Tx.Returns, delete, eq_comm, and_comm]

omit [DecidableEq κ] [DecidablePred check] in
@[simp] theorem delete_throws :
    (delete p : Tx ε (Table key check) Nat).Throws t e' t' ↔ False := by
  simp [Tx.Throws, delete]

end

end Table

end Chardb.Lib
