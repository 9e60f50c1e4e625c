import Chardb.Core.Canonical
import Chardb.Lib.JsonParse
import Chardb.Lib.SignedZero

/-!
# Canonical JSON as a quotient

`stableJson` tells two values apart exactly when they differ by more than the order of their keys.
JSON text writes `-0` as `0`, so the values are compared with every `-0` read as `0`.
-/

namespace Chardb

open Chardb.Lib

variable {ν : Type}

/-! ## Sorted members -/

/-- Members under the same distinct keys, in the same order, are the same. -/
theorem members_eq {xs ys : List (String × Json ν)} (h : xs.Perm ys)
    (hnodup : (xs.map Prod.fst).Nodup) (hkeys : xs.map Prod.fst = ys.map Prod.fst) : xs = ys := by
  induction xs generalizing ys with
  | nil => exact h.nil_eq
  | cons x xs ih =>
    cases ys with
    | nil => cases hkeys
    | cons y ys =>
      obtain ⟨hkey, hrest⟩ := List.cons.inj hkeys
      have hx : x = y := by
        rcases List.mem_cons.mp (h.mem_iff.mp List.mem_cons_self) with hx | hx
        · exact hx
        · have := List.mem_map_of_mem (f := Prod.fst) hx
          rw [← hrest] at this
          exact absurd this (List.nodup_cons.mp hnodup).1
      subst hx
      rw [ih h.cons_inv (List.nodup_cons.mp hnodup).2 hrest]

theorem canonicalizeElems_eq (xs : List (Json ν)) : canonicalizeElems xs = xs.map canonicalize := by
  induction xs with
  | nil => rfl
  | cons x xs ih => rw [canonicalizeElems, ih, List.map_cons]

theorem canonicalizeMembers_eq (ms : List (String × Json ν)) :
    canonicalizeMembers ms = ms.map fun m => (m.1, canonicalize m.2) := by
  induction ms with
  | nil => rfl
  | cons m ms ih => rw [canonicalizeMembers, ih, List.map_cons]

/-- Members by the order of their keys. -/
abbrev sortMembers (ms : List (String × Json ν)) : List (String × Json ν) :=
  ms.insertionSort fun a b => utf16 a.1 ≤ utf16 b.1

theorem sortMembers_keys (ms : List (String × Json ν)) :
    (sortMembers ms).map Prod.fst = sortStrings (ms.map Prod.fst) :=
  List.map_insertionSort (fun a b : String × Json ν => utf16 a.1 ≤ utf16 b.1)
    (fun a b : String => utf16 a ≤ utf16 b) Prod.fst ms fun _ _ _ _ => Iff.rfl

/-- Sorted members under distinct keys are fixed by the members. -/
theorem sortMembers_congr {ms ns : List (String × Json ν)} (h : ms.Perm ns)
    (hnodup : (ms.map Prod.fst).Nodup) : sortMembers ms = sortMembers ns := by
  have hsorted (l : List (String × Json ν)) : (sortMembers l).Perm l := List.perm_insertionSort _ l
  refine members_eq ((hsorted ms).trans (h.trans (hsorted ns).symm)) ?_ ?_
  · exact ((hsorted ms).map Prod.fst).nodup_iff.mpr hnodup
  · rw [sortMembers_keys, sortMembers_keys]
    exact sortStrings_congr (h.map Prod.fst)

/-- A list that is an image up to order is the image of the list in some order. -/
theorem exists_perm_of_map {α β : Type} {g : α → β} {l : List β} {xs : List α}
    (h : l.Perm (xs.map g)) : ∃ ys : List α, ys.Perm xs ∧ ys.map g = l := by
  induction l generalizing xs with
  | nil => exact ⟨[], by simpa using h.length_eq.symm, rfl⟩
  | cons b l ih =>
    obtain ⟨x, hx, rfl⟩ := List.mem_map.mp (h.mem_iff.mp List.mem_cons_self)
    obtain ⟨before, after, rfl⟩ := List.append_of_mem hx
    have hrest : l.Perm ((before ++ after).map g) := by
      rw [List.map_append, List.map_cons] at h
      rw [List.map_append]
      exact (h.trans List.perm_middle).cons_inv
    obtain ⟨ys, hys, hmap⟩ := ih hrest
    exact ⟨x :: ys, (hys.cons x).trans List.perm_middle.symm, by rw [List.map_cons, hmap]⟩

/-! ## Values that say all of themselves -/

section
variable [JsNumber ν]

theorem canonicalize_eq {a b : Json ν} (ha : a.Exact) (hb : b.Exact)
    (h : stableJson a = stableJson b) : canonicalize a = canonicalize b := by
  have hparse := Json.parse_toText (canonicalize_exact ha)
  have htext : (canonicalize a).toText = (canonicalize b).toText := h
  rw [htext, Json.parse_toText (canonicalize_exact hb)] at hparse
  exact (Option.some.inj hparse).symm

mutual

/-- Values that differ by the order of members alone have one canonical form. -/
theorem canonicalize_of_same :
    ∀ (a : Json ν) {b : Json ν}, a.Exact → Json.Same a b → canonicalize a = canonicalize b
  | .null, _, _, .null => rfl
  | .bool _, _, _, .bool _ => rfl
  | .num _, _, _, .num _ => rfl
  | .str _, _, _, .str _ => rfl
  | .arr xs, _, ha, .arr h => by
    rw [Json.Exact] at ha
    rw [canonicalize, canonicalize, canonicalizeElems_of_same xs ha h]
  | .obj ms, .obj ns', ha, h => by
    rw [Json.Exact] at ha
    cases h with
    | @obj _ ns _ h hperm =>
      have hms := canonicalizeMembers_of_same ms ha.2 h
      have hsort : (canonicalizeMembers ms).Perm (canonicalizeMembers ns') := by
        rw [hms, canonicalizeMembers_eq, canonicalizeMembers_eq]
        exact hperm.map _
      have hnodup : ((canonicalizeMembers ms).map Prod.fst).Nodup := by
        rw [canonicalizeMembers_keys]
        exact ha.1.nodup
      rw [canonicalize, canonicalize]
      exact congrArg (fun l => Json.obj (ownMembers l)) (sortMembers_congr hsort hnodup)

theorem canonicalizeElems_of_same :
    ∀ (xs : List (Json ν)) {ys : List (Json ν)}, Json.ElemsExact xs → Json.ElemsSame xs ys →
      canonicalizeElems xs = canonicalizeElems ys
  | [], _, _, .nil => rfl
  | x :: xs, _, ha, .cons h hs => by
    rw [Json.ElemsExact] at ha
    rw [canonicalizeElems, canonicalizeElems, canonicalize_of_same x ha.1 h,
      canonicalizeElems_of_same xs ha.2 hs]

theorem canonicalizeMembers_of_same :
    ∀ (ms : List (String × Json ν)) {ns : List (String × Json ν)}, Json.MembersExact ms →
      Json.MembersSame ms ns → canonicalizeMembers ms = canonicalizeMembers ns
  | [], _, _, .nil => rfl
  | (k, v) :: ms, _, ha, .cons _ h hs => by
    rw [Json.MembersExact] at ha
    rw [canonicalizeMembers, canonicalizeMembers, canonicalize_of_same v ha.1 h,
      canonicalizeMembers_of_same ms ha.2 hs]

end

mutual

/-- Values with one canonical form differ by the order of members alone. -/
theorem same_of_canonicalize :
    ∀ (a b : Json ν), a.Exact → b.Exact → canonicalize a = canonicalize b → Json.Same a b
  | .null, b, _, _, h => by cases b <;> simp [canonicalize] at h ⊢; exact .null
  | .bool x, b, _, _, h => by cases b <;> simp [canonicalize] at h ⊢; exact h ▸ .bool x
  | .num n, b, _, _, h => by cases b <;> simp [canonicalize] at h ⊢; exact h ▸ .num n
  | .str s, b, _, _, h => by cases b <;> simp [canonicalize] at h ⊢; exact h ▸ .str s
  | .arr xs, b, ha, hb, h => by
    cases b with
    | arr ys =>
      rw [Json.Exact] at ha hb
      rw [canonicalize, canonicalize] at h
      exact .arr (elemsSame_of_canonicalize xs ys ha hb (Json.arr.inj h))
    | _ => simp [canonicalize] at h
  | .obj ms, b, ha, hb, h => by
    cases b with
    | obj ns =>
      rw [Json.Exact] at ha hb
      rw [canonicalize, canonicalize] at h
      have hperm := canonicalize_obj_perm ha.1
      rw [Json.obj.inj h] at hperm
      have hmembers := hperm.trans (canonicalize_obj_perm hb.1).symm
      rw [canonicalizeMembers_eq ns] at hmembers
      obtain ⟨ns', hns', hmap⟩ := exists_perm_of_map hmembers
      have hexact : Json.MembersExact ns' :=
        membersExact_iff.mpr fun m hm => membersExact_iff.mp hb.2 m (hns'.mem_iff.mp hm)
      refine .obj (membersSame_of_canonicalize ms ns' ha.2 hexact ?_) hns'
      rw [canonicalizeMembers_eq ns', hmap]
    | _ => simp [canonicalize] at h

theorem elemsSame_of_canonicalize :
    ∀ (xs ys : List (Json ν)), Json.ElemsExact xs → Json.ElemsExact ys →
      canonicalizeElems xs = canonicalizeElems ys → Json.ElemsSame xs ys
  | [], ys, _, _, h => by
    cases ys with
    | nil => exact .nil
    | cons y ys => cases h
  | x :: xs, ys, ha, hb, h => by
    cases ys with
    | nil => cases h
    | cons y ys =>
      rw [Json.ElemsExact] at ha hb
      obtain ⟨hx, hxs⟩ := List.cons.inj h
      exact .cons (same_of_canonicalize x y ha.1 hb.1 hx)
        (elemsSame_of_canonicalize xs ys ha.2 hb.2 hxs)

theorem membersSame_of_canonicalize :
    ∀ (ms ns : List (String × Json ν)), Json.MembersExact ms → Json.MembersExact ns →
      canonicalizeMembers ms = canonicalizeMembers ns → Json.MembersSame ms ns
  | [], ns, _, _, h => by
    cases ns with
    | nil => exact .nil
    | cons n ns => cases h
  | (k, v) :: ms, ns, ha, hb, h => by
    cases ns with
    | nil => cases h
    | cons n ns =>
      obtain ⟨k', w⟩ := n
      rw [Json.MembersExact] at ha hb
      obtain ⟨hm, hms⟩ := List.cons.inj h
      obtain ⟨rfl, hv⟩ := Prod.mk.inj hm
      exact .cons k (same_of_canonicalize v w ha.1 hb.1 hv)
        (membersSame_of_canonicalize ms ns ha.2 hb.2 hms)

end

/-- `stableJson` of values that say all of themselves. -/
theorem stableJson_exact_iff {a b : Json ν} (ha : a.Exact) (hb : b.Exact) :
    stableJson a = stableJson b ↔ Json.Same a b := by
  constructor
  · intro h
    exact same_of_canonicalize a b ha hb (canonicalize_eq ha hb h)
  · intro h
    exact congrArg Json.toText (canonicalize_of_same a ha h)

theorem canonicalize_idem {a : Json ν} (ha : a.Exact) :
    canonicalize (canonicalize a) = canonicalize a :=
  (canonicalize_of_same a ha (canonicalize_same ha)).symm

theorem Json.sortMembers_plusZero (ms : List (String × Json ν)) :
    sortMembers (Json.membersPlusZero ms) = Json.membersPlusZero (sortMembers ms) := by
  rw [Json.membersPlusZero_eq, Json.membersPlusZero_eq]
  exact (List.map_insertionSort (fun a b : String × Json ν => utf16 a.1 ≤ utf16 b.1)
    (fun a b : String × Json ν => utf16 a.1 ≤ utf16 b.1) (fun m => (m.1, m.2.plusZero)) ms
    fun _ _ _ _ => Iff.rfl).symm

mutual

theorem canonicalize_plusZero : ∀ j : Json ν, canonicalize j.plusZero = (canonicalize j).plusZero
  | .null => rfl
  | .bool _ => rfl
  | .num _ => rfl
  | .str _ => rfl
  | .arr xs => by
    rw [Json.plusZero, canonicalize, canonicalize, Json.plusZero, canonicalizeElems_plusZero xs]
  | .obj ms => by
    have hsort := Json.sortMembers_plusZero (canonicalizeMembers ms)
    rw [← canonicalizeMembers_plusZero ms] at hsort
    rw [Json.plusZero, canonicalize, canonicalize, Json.plusZero]
    refine congrArg Json.obj ((congrArg ownMembers hsort).trans ?_)
    rw [Json.membersPlusZero_eq, Json.membersPlusZero_eq, ownMembers_map]

theorem canonicalizeElems_plusZero :
    ∀ xs : List (Json ν), canonicalizeElems (Json.elemsPlusZero xs) =
      Json.elemsPlusZero (canonicalizeElems xs)
  | [] => rfl
  | x :: xs => by
    rw [Json.elemsPlusZero, canonicalizeElems, canonicalizeElems, Json.elemsPlusZero,
      canonicalize_plusZero x, canonicalizeElems_plusZero xs]

theorem canonicalizeMembers_plusZero :
    ∀ ms : List (String × Json ν), canonicalizeMembers (Json.membersPlusZero ms) =
      Json.membersPlusZero (canonicalizeMembers ms)
  | [] => rfl
  | (_, v) :: ms => by
    rw [Json.membersPlusZero, canonicalizeMembers, canonicalizeMembers, Json.membersPlusZero,
      canonicalize_plusZero v, canonicalizeMembers_plusZero ms]

end

end

/-! ## Values that JSON text can have -/

/-- An object does not remember the order in which its members were defined. -/
theorem canonicalize_defined {ms ns : List (String × Json ν)} (h : ms.Perm ns)
    (hnodup : (ms.map Prod.fst).Nodup) :
    canonicalize (.obj (ownMembers ms)) = canonicalize (.obj (ownMembers ns)) := by
  have hms := ownMembers_perm hnodup
  have hns := ownMembers_perm (((h.map Prod.fst).nodup_iff).mp hnodup)
  have hperm :
      (canonicalizeMembers (ownMembers ms)).Perm (canonicalizeMembers (ownMembers ns)) := by
    rw [canonicalizeMembers_eq, canonicalizeMembers_eq]
    exact (hms.trans (h.trans hns.symm)).map _
  have hkeys : ((canonicalizeMembers (ownMembers ms)).map Prod.fst).Nodup := by
    rw [canonicalizeMembers_keys]
    exact ((hms.map Prod.fst).nodup_iff).mpr hnodup
  rw [canonicalize, canonicalize]
  exact congrArg (fun l => Json.obj (ownMembers l)) (sortMembers_congr hperm hkeys)

/-- The same value, with `-0` read as `0` and the members of objects in any order. -/
def Json.Alike [JsNumber ν] (x y : Json ν) : Prop := Json.Same x.plusZero y.plusZero

variable [SignedZero ν] {x y : Json ν}

theorem stableJson_plusZero (x : Json ν) : stableJson x.plusZero = stableJson x := by
  unfold stableJson Json.toText
  rw [canonicalize_plusZero, Json.stringify_plusZero]

/-- `stableJson` tells two values apart exactly when they differ by more than the order of keys. -/
theorem stableJson_iff (hx : x.IsValue) (hy : y.IsValue) :
    stableJson x = stableJson y ↔ Json.Alike x y := by
  rw [← stableJson_plusZero x, ← stableJson_plusZero y]
  exact stableJson_exact_iff (Json.plusZero_exact hx) (Json.plusZero_exact hy)

theorem parse_stableJson (hx : x.IsValue) :
    Json.parse (stableJson x) = some (canonicalize x.plusZero) := by
  rw [← stableJson_plusZero x]
  exact Json.parse_toText (canonicalize_exact (Json.plusZero_exact hx))

/-- Canonical text is its own canonical text. -/
theorem stableJson_canonicalize (hx : x.IsValue) :
    stableJson (canonicalize x.plusZero) = stableJson x := by
  rw [← stableJson_plusZero x]
  exact congrArg Json.toText (canonicalize_idem (Json.plusZero_exact hx))

end Chardb
