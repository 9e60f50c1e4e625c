import Mathlib.Data.List.Nodup

/-!
# Maps in insertion order

A map whose entries are enumerated in the order in which their keys were first set: setting a
key again keeps its place. `addDistinct` is the same for a set.
-/

namespace Chardb.Lib

variable {κ ν : Type} [DecidableEq κ]

/-! ## Entries -/

/-- The value under a key. -/
def lookupEntry (k : κ) (entries : List (κ × ν)) : Option ν :=
  (entries.find? (·.1 = k)).map Prod.snd

/-- The entries after a key is set. -/
def setEntry (k : κ) (v : ν) (entries : List (κ × ν)) : List (κ × ν) :=
  if k ∈ entries.map Prod.fst then entries.map fun e => if e.1 = k then (k, v) else e
  else entries ++ [(k, v)]

theorem keys_setEntry (k : κ) (v : ν) (entries : List (κ × ν)) :
    (setEntry k v entries).map Prod.fst =
      if k ∈ entries.map Prod.fst then entries.map Prod.fst else entries.map Prod.fst ++ [k] := by
  unfold setEntry
  split
  · rw [List.map_map]
    refine List.map_congr_left fun e _ => ?_
    by_cases h : e.1 = k <;> simp [h]
  · rw [List.map_append]
    rfl

theorem nodup_setEntry {entries : List (κ × ν)} (h : (entries.map Prod.fst).Nodup) (k : κ) (v : ν) :
    ((setEntry k v entries).map Prod.fst).Nodup := by
  rw [keys_setEntry]
  split
  · exact h
  · rename_i hk
    exact List.nodup_append.mpr ⟨h, List.nodup_singleton k, fun a ha b hb hab =>
      hk (List.mem_singleton.mp hb ▸ hab ▸ ha)⟩

theorem lookupEntry_eq_some {k : κ} {v : ν} {entries : List (κ × ν)}
    (h : (entries.map Prod.fst).Nodup) : lookupEntry k entries = some v ↔ (k, v) ∈ entries := by
  induction entries with
  | nil => simp [lookupEntry]
  | cons e entries ih =>
    obtain ⟨hnot, h⟩ := List.nodup_cons.mp h
    by_cases hk : e.1 = k
    · have hmem : (k, v) ∉ entries := fun hmem => hnot (hk ▸ List.mem_map_of_mem hmem)
      simp [lookupEntry, hk, hmem, Prod.ext_iff, eq_comm]
    · have hne : (k, v) ≠ e := fun he => hk (he ▸ rfl)
      simp only [List.mem_cons, hne, false_or, ← ih h]
      simp [lookupEntry, hk]

theorem mem_setEntry {k : κ} {v : ν} {entries : List (κ × ν)} {e : κ × ν} :
    e ∈ setEntry k v entries ↔ e = (k, v) ∨ e.1 ≠ k ∧ e ∈ entries := by
  unfold setEntry
  split
  · rename_i hk
    obtain ⟨d, hd, rfl⟩ := List.mem_map.mp hk
    rw [List.mem_map]
    constructor
    · rintro ⟨x, hx, rfl⟩
      by_cases h : x.1 = d.1
      · exact .inl (if_pos h)
      · exact .inr (by rw [if_neg h]; exact ⟨h, hx⟩)
    · rintro (rfl | ⟨hne, he⟩)
      · exact ⟨d, hd, if_pos rfl⟩
      · exact ⟨e, he, if_neg hne⟩
  · rename_i hk
    have hne : e ∈ entries → e.1 ≠ k := fun he h => hk (h ▸ List.mem_map_of_mem he)
    rw [List.mem_append, List.mem_singleton]
    constructor
    · rintro (he | rfl)
      · exact .inr ⟨hne he, he⟩
      · exact .inl rfl
    · rintro (rfl | ⟨-, he⟩)
      · exact .inr rfl
      · exact .inl he

theorem lookupEntry_setEntry {entries : List (κ × ν)} (h : (entries.map Prod.fst).Nodup) (k : κ)
    (v : ν) (j : κ) :
    lookupEntry j (setEntry k v entries) = if j = k then some v else lookupEntry j entries := by
  refine Option.ext fun w => ?_
  rw [lookupEntry_eq_some (nodup_setEntry h k v), mem_setEntry, Prod.mk.injEq]
  by_cases hj : j = k
  · rw [if_pos hj, Option.some.injEq]
    exact ⟨fun hw => (hw.resolve_right fun h => h.1 hj).2.symm, fun hw => .inl ⟨hj, hw.symm⟩⟩
  · rw [if_neg hj, lookupEntry_eq_some h]
    exact ⟨fun hw => (hw.resolve_left fun h => hj h.1).2, fun hw => .inr ⟨hj, hw⟩⟩

/-! ## The map -/

/-- A map, enumerated in the order in which its keys came. -/
structure InsertionMap (κ ν : Type) where
  entries : List (κ × ν)
  nodup : (entries.map Prod.fst).Nodup

namespace InsertionMap

def empty : InsertionMap κ ν := ⟨[], List.nodup_nil⟩

def get? (m : InsertionMap κ ν) (k : κ) : Option ν := lookupEntry k m.entries

def set (m : InsertionMap κ ν) (k : κ) (v : ν) : InsertionMap κ ν :=
  ⟨setEntry k v m.entries, nodup_setEntry m.nodup k v⟩

def delete (m : InsertionMap κ ν) (k : κ) : InsertionMap κ ν :=
  ⟨m.entries.filter (·.1 ≠ k), m.nodup.sublist (List.filter_sublist.map _)⟩

/-- The entries set one after the other. -/
def ofEntries (entries : List (κ × ν)) : InsertionMap κ ν :=
  entries.foldl (fun m e => m.set e.1 e.2) empty

@[simp] theorem get?_empty (k : κ) : (empty : InsertionMap κ ν).get? k = none := rfl

@[simp] theorem get?_set (m : InsertionMap κ ν) (k : κ) (v : ν) (j : κ) :
    (m.set k v).get? j = if j = k then some v else m.get? j :=
  lookupEntry_setEntry m.nodup k v j

theorem get?_eq_some {m : InsertionMap κ ν} {k : κ} {v : ν} :
    m.get? k = some v ↔ (k, v) ∈ m.entries :=
  lookupEntry_eq_some m.nodup

@[simp] theorem get?_delete (m : InsertionMap κ ν) (k j : κ) :
    (m.delete k).get? j = if j = k then none else m.get? j := by
  refine Option.ext fun v => ?_
  rw [get?_eq_some, delete, List.mem_filter, decide_eq_true_eq]
  by_cases hj : j = k
  · rw [if_pos hj]
    exact ⟨fun h => absurd hj h.2, fun h => (by cases h)⟩
  · rw [if_neg hj, get?_eq_some]
    exact ⟨fun h => h.1, fun h => ⟨h, hj⟩⟩

theorem foldl_set_entries {entries : List (κ × ν)} {m : InsertionMap κ ν}
    (h : ((m.entries ++ entries).map Prod.fst).Nodup) :
    (entries.foldl (fun m e => m.set e.1 e.2) m).entries = m.entries ++ entries := by
  induction entries generalizing m with
  | nil => simp
  | cons e entries ih =>
    have hnot : e.1 ∉ m.entries.map Prod.fst := by
      rw [List.map_append, List.map_cons] at h
      exact fun hmem => (List.nodup_append.mp h).2.2 _ hmem _ List.mem_cons_self rfl
    have hset : (m.set e.1 e.2).entries = m.entries ++ [e] := if_neg hnot
    rw [List.foldl_cons, ih (by rw [hset, List.append_assoc]; exact h), hset, List.append_assoc]
    rfl

/-- Distinct keys are entered as they are listed. -/
theorem ofEntries_entries {entries : List (κ × ν)} (h : (entries.map Prod.fst).Nodup) :
    (ofEntries entries).entries = entries :=
  foldl_set_entries (by simpa [empty] using h)

end InsertionMap

/-! ## Sets -/

variable {α : Type} [DecidableEq α]

/-- A member joins at the end, once. -/
def addDistinct (l : List α) (a : α) : List α := if a ∈ l then l else l ++ [a]

/-- The members of a list, each where it first stands. -/
def distinct (l : List α) : List α := l.foldl addDistinct []

theorem addDistinct_nodup {l : List α} (h : l.Nodup) (a : α) : (addDistinct l a).Nodup := by
  unfold addDistinct
  split
  · exact h
  · rename_i ha
    exact List.nodup_append.mpr ⟨h, List.nodup_singleton a, fun b hb c hc hbc =>
      ha (List.mem_singleton.mp hc ▸ hbc ▸ hb)⟩

@[simp] theorem mem_addDistinct {l : List α} {a b : α} : b ∈ addDistinct l a ↔ b ∈ l ∨ b = a := by
  unfold addDistinct
  split
  · rename_i ha
    exact ⟨.inl, fun h => h.elim id fun h => h ▸ ha⟩
  · simp

theorem foldl_addDistinct (l : List α) {acc : List α} (h : acc.Nodup) :
    (l.foldl addDistinct acc).Nodup ∧ ∀ a, a ∈ l.foldl addDistinct acc ↔ a ∈ acc ∨ a ∈ l := by
  induction l generalizing acc with
  | nil => simpa using h
  | cons b l ih =>
    obtain ⟨hnodup, hmem⟩ := ih (addDistinct_nodup h b)
    exact ⟨hnodup, fun a => by rw [List.foldl_cons, hmem, mem_addDistinct, List.mem_cons, or_assoc]⟩

theorem distinct_nodup (l : List α) : (distinct l).Nodup :=
  (foldl_addDistinct l List.nodup_nil).1

@[simp] theorem mem_distinct {l : List α} {a : α} : a ∈ distinct l ↔ a ∈ l :=
  ((foldl_addDistinct l List.nodup_nil).2 a).trans (by simp)

end Chardb.Lib
