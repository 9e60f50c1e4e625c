import Chardb.Lib.Json
import Mathlib.Data.List.Perm.Basic

/-!
# The shape of JSON values

How deep a value is nested, when two values differ by the order of members alone, and
what defining the keys of an object one after the other leaves of their order.
-/

namespace Chardb.Lib

variable {ν : Type}

/-! ## Nesting -/

mutual

/-- The levels below a value: none below a scalar or an empty container. -/
def Json.height : Json ν → Nat
  | .arr xs => Json.elemsHeight xs
  | .obj ms => Json.membersHeight ms
  | _ => 0

def Json.elemsHeight : List (Json ν) → Nat
  | [] => 0
  | x :: xs => max (x.height + 1) (Json.elemsHeight xs)

def Json.membersHeight : List (String × Json ν) → Nat
  | [] => 0
  | (_, v) :: ms => max (v.height + 1) (Json.membersHeight ms)

end

/-! ## Structural equality -/

mutual

/-- The same value, the members of objects in any order. -/
inductive Json.Same : Json ν → Json ν → Prop
  | null : Json.Same .null .null
  | bool (b : Bool) : Json.Same (.bool b) (.bool b)
  | num (n : ν) : Json.Same (.num n) (.num n)
  | str (s : String) : Json.Same (.str s) (.str s)
  | arr {xs ys : List (Json ν)} : Json.ElemsSame xs ys → Json.Same (.arr xs) (.arr ys)
  | obj {ms ns ns' : List (String × Json ν)} :
    Json.MembersSame ms ns → ns.Perm ns' → Json.Same (.obj ms) (.obj ns')

inductive Json.ElemsSame : List (Json ν) → List (Json ν) → Prop
  | nil : Json.ElemsSame [] []
  | cons {x y : Json ν} {xs ys : List (Json ν)} :
    Json.Same x y → Json.ElemsSame xs ys → Json.ElemsSame (x :: xs) (y :: ys)

inductive Json.MembersSame : List (String × Json ν) → List (String × Json ν) → Prop
  | nil : Json.MembersSame [] []
  | cons (k : String) {v w : Json ν} {ms ns : List (String × Json ν)} :
    Json.Same v w → Json.MembersSame ms ns → Json.MembersSame ((k, v) :: ms) ((k, w) :: ns)

end

mutual

theorem Json.Same.refl : ∀ j : Json ν, Json.Same j j
  | .null => .null
  | .bool b => .bool b
  | .num n => .num n
  | .str s => .str s
  | .arr xs => .arr (Json.ElemsSame.refl xs)
  | .obj ms => .obj (Json.MembersSame.refl ms) (.refl ms)

theorem Json.ElemsSame.refl : ∀ xs : List (Json ν), Json.ElemsSame xs xs
  | [] => .nil
  | x :: xs => .cons (Json.Same.refl x) (Json.ElemsSame.refl xs)

theorem Json.MembersSame.refl : ∀ ms : List (String × Json ν), Json.MembersSame ms ms
  | [] => .nil
  | (k, v) :: ms => .cons k (Json.Same.refl v) (Json.MembersSame.refl ms)

end

/-! ## The order of keys -/

theorem indexKey?_eq_some {key : String} {n : Nat} (h : indexKey? key = some n) :
    key.toList = natText n := by
  unfold indexKey? at h
  simp only at h
  split at h
  · rename_i hk
    obtain rfl := Option.some.inj h
    exact hk.1
  · cases h

theorem keyBefore_total {a b : String} (hne : a ≠ b) (h : keyBefore a b = false) :
    keyBefore b a = true := by
  unfold keyBefore at h ⊢
  cases ha : indexKey? a with
  | none => cases hb : indexKey? b with
    | none => rfl
    | some j => rfl
  | some i => cases hb : indexKey? b with
    | none => simp only [ha, hb] at h; cases h
    | some j =>
      have hij : ¬ i < j := by simpa [ha, hb] using h
      have hkeys : i ≠ j := by
        rintro rfl
        exact hne (String.toList_inj.mp ((indexKey?_eq_some ha).trans (indexKey?_eq_some hb).symm))
      exact decide_eq_true (by omega)

theorem keyBefore_trans {a b c : String} (hab : keyBefore a b = true) (hbc : keyBefore b c = true) :
    keyBefore a c = true := by
  unfold keyBefore at *
  cases ha : indexKey? a <;> cases hb : indexKey? b <;> cases hc : indexKey? c <;>
    simp_all
  omega

theorem defineKey_ownKeys {α : Type} {ms : List (String × α)} (m : String × α)
    (h : OwnKeys (ms.map Prod.fst)) : OwnKeys ((defineKey ms m).map Prod.fst) := by
  unfold defineKey
  split
  · have hkeys : (ms.map fun x => if x.1 = m.1 then m else x).map Prod.fst = ms.map Prod.fst := by
      rw [List.map_map]
      refine List.map_congr_left fun x _ => ?_
      show (if x.1 = m.1 then m else x).1 = x.1
      split
      · exact (Eq.symm ‹_›)
      · rfl
    rwa [hkeys]
  · rename_i hm
    have hne : ∀ x ∈ ms, x.1 ≠ m.1 := fun x hx he => hm (he ▸ List.mem_map_of_mem hx)
    have hpair : ms.Pairwise fun x y => x.1 ≠ y.1 ∧ keyBefore x.1 y.1 = true :=
      List.pairwise_map.mp h
    unfold OwnKeys
    rw [List.pairwise_map, List.pairwise_append]
    refine ⟨?_, ?_, ?_⟩
    · exact hpair.sublist (List.takeWhile_sublist _)
    · have hleft := hpair.sublist (List.dropWhile_sublist fun x => keyBefore x.1 m.1)
      rw [List.pairwise_cons]
      refine ⟨?_, hleft⟩
      -- the first key left is not before `m`, and every later one is after the first
      cases hd : ms.dropWhile fun x => keyBefore x.1 m.1 with
      | nil => simp
      | cons y rest =>
        have hrest := hleft
        rw [hd] at hrest
        have hmem : ∀ x ∈ y :: rest, x ∈ ms := fun x hx =>
          (List.dropWhile_sublist _).subset (hd ▸ hx)
        have hy : keyBefore y.1 m.1 = false := by
          have hhead := List.head?_dropWhile_not (fun x : String × α => keyBefore x.1 m.1) ms
          rw [hd] at hhead
          simpa using hhead
        have hmy : keyBefore m.1 y.1 = true := keyBefore_total (hne y (hmem y (by simp))) hy
        intro x hx
        refine ⟨(hne x (hmem x hx)).symm, ?_⟩
        rcases List.mem_cons.mp hx with rfl | hx
        · exact hmy
        · exact keyBefore_trans hmy ((List.pairwise_cons.mp hrest).1 x hx).2
    · intro x hx y hy
      rcases List.mem_cons.mp hy with rfl | hy
      · have hall : (ms.takeWhile fun x => keyBefore x.1 y.1).all (fun x => keyBefore x.1 y.1) = true :=
          List.all_takeWhile
        have hbefore : keyBefore x.1 y.1 = true := List.all_eq_true.mp hall x hx
        exact ⟨hne x ((List.takeWhile_sublist _).subset hx), hbefore⟩
      · rw [← List.takeWhile_append_dropWhile (p := fun x => keyBefore x.1 m.1) (l := ms)] at hpair
        exact (List.pairwise_append.mp hpair).2.2 x hx y hy

/-- The own properties of an object are in order, however they were defined. -/
theorem ownMembers_ownKeys {α : Type} (ms : List (String × α)) :
    OwnKeys ((ownMembers ms).map Prod.fst) := by
  have key : ∀ rest done : List (String × α), OwnKeys (done.map Prod.fst) →
      OwnKeys ((rest.foldl defineKey done).map Prod.fst) := by
    intro rest
    induction rest with
    | nil => exact fun _ h => h
    | cons m rest ih => exact fun done h => ih _ (defineKey_ownKeys m h)
  exact key ms [] List.Pairwise.nil

theorem defineKey_perm {α : Type} {ms : List (String × α)} {m : String × α}
    (h : m.1 ∉ ms.map Prod.fst) : (defineKey ms m).Perm (m :: ms) := by
  unfold defineKey
  rw [if_neg h]
  refine List.perm_middle.trans (List.Perm.cons m ?_)
  rw [List.takeWhile_append_dropWhile]

/-- Defining distinct keys only orders them. -/
theorem ownMembers_perm {α : Type} {ms : List (String × α)} (h : (ms.map Prod.fst).Nodup) :
    (ownMembers ms).Perm ms := by
  have key : ∀ rest done : List (String × α), ((done ++ rest).map Prod.fst).Nodup →
      (rest.foldl defineKey done).Perm (done ++ rest) := by
    intro rest
    induction rest with
    | nil => intro done _; simp
    | cons m rest ih =>
      intro done h
      have hm : m.1 ∉ done.map Prod.fst := by
        intro hmem
        rw [List.map_append, List.map_cons] at h
        exact (List.nodup_append.mp h).2.2 _ hmem _ List.mem_cons_self rfl
      have hperm : (defineKey done m ++ rest).Perm (done ++ m :: rest) :=
        ((defineKey_perm hm).append_right rest).trans List.perm_middle.symm
      have hnodup : ((defineKey done m ++ rest).map Prod.fst).Nodup :=
        (hperm.map Prod.fst).nodup_iff.mpr h
      exact (ih _ hnodup).trans hperm
  exact key ms [] h

theorem OwnKeys.nodup {keys : List String} (h : OwnKeys keys) : keys.Nodup :=
  List.Pairwise.imp And.left h

end Chardb.Lib
