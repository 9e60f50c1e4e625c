import Chardb.Lib.JsonParse
import Chardb.Lib.JsonShape

/-!
# What holds all through a JSON value

Conditions on the numbers of a value and on the keys of its objects, read off member by member, and
what defining one key does to them. `JSON.parse` leaves the keys of every object in order.
-/

namespace Chardb.Lib

variable {ν : Type}

/-! ## One key -/

theorem get?_eq_none {ms : List (String × Json ν)} {k : String} :
    Json.get? ms k = none ↔ ∀ m ∈ ms, m.1 ≠ k := by
  unfold Json.get?
  rw [Option.map_eq_none_iff, List.find?_eq_none]
  simp

theorem mem_of_get? {ms : List (String × Json ν)} {k : String} {v : Json ν}
    (h : Json.get? ms k = some v) : (k, v) ∈ ms := by
  obtain ⟨m, hm, rfl⟩ := Option.map_eq_some_iff.mp h
  have hk := List.find?_some hm
  rw [← of_decide_eq_true hk]
  exact List.mem_of_find?_eq_some hm

/-- Distinct keys: the value of a member is the one found under its key. -/
theorem get?_of_mem {ms : List (String × Json ν)} {m : String × Json ν}
    (hn : (ms.map Prod.fst).Nodup) (h : m ∈ ms) : Json.get? ms m.1 = some m.2 := by
  unfold Json.get?
  rw [Option.map_eq_some_iff]
  refine ⟨m, ?_, rfl⟩
  induction ms with
  | nil => cases h
  | cons x ms ih =>
    rw [List.map_cons, List.nodup_cons] at hn
    rcases List.mem_cons.mp h with rfl | h
    · rw [List.find?_cons_of_pos (by simp)]
    · rw [List.find?_cons_of_neg, ih hn.2 h]
      intro hx
      exact hn.1 (of_decide_eq_true hx ▸ List.mem_map_of_mem h)

theorem mem_defineKey {α : Type} {ms : List (String × α)} {m x : String × α}
    (h : x ∈ defineKey ms m) : x = m ∨ x ∈ ms := by
  unfold defineKey at h
  split at h
  · obtain ⟨y, hy, rfl⟩ := List.mem_map.mp h
    split
    · exact .inl rfl
    · exact .inr hy
  · rcases List.mem_append.mp h with h | h
    · exact .inr ((List.takeWhile_sublist _).subset h)
    · exact (List.mem_cons.mp h).imp_right fun h => (List.dropWhile_sublist _).subset h

theorem mem_ownMembers {α : Type} {ms : List (String × α)} {x : String × α}
    (h : x ∈ ownMembers ms) : x ∈ ms := by
  have key : ∀ rest done : List (String × α), x ∈ rest.foldl defineKey done → x ∈ done ∨ x ∈ rest := by
    intro rest
    induction rest with
    | nil => exact fun done h => .inl h
    | cons m rest ih =>
      intro done h
      rcases ih _ h with h | h
      · rcases mem_defineKey h with rfl | h
        · exact .inr List.mem_cons_self
        · exact .inl h
      · exact .inr (List.mem_cons_of_mem _ h)
  exact (key ms [] h).resolve_left List.not_mem_nil

/-- Defining a key changes what is found under it, and nothing else. -/
theorem get?_defineKey (ms : List (String × Json ν)) (m : String × Json ν) (k : String) :
    Json.get? (defineKey ms m) k = if m.1 = k then some m.2 else Json.get? ms k := by
  have hmap : ∀ l : List (String × Json ν), m.1 ≠ k →
      Json.get? (l.map fun x => if x.1 = m.1 then m else x) k = Json.get? l k := by
    intro l hne
    unfold Json.get?
    induction l with
    | nil => rfl
    | cons x l ih =>
      rw [List.map_cons]
      by_cases hx : x.1 = m.1
      · rw [if_pos hx, List.find?_cons_of_neg (by simpa using hne),
          List.find?_cons_of_neg (by simpa [hx] using hne), ih]
      · rw [if_neg hx]
        by_cases hk : x.1 = k
        · rw [List.find?_cons_of_pos (by simpa using hk), List.find?_cons_of_pos (by simpa using hk)]
        · rw [List.find?_cons_of_neg (by simpa using hk), List.find?_cons_of_neg (by simpa using hk), ih]
  have hfresh : ∀ l : List (String × Json ν), m.1 ∉ l.map Prod.fst →
      ∀ l', Json.get? (l ++ m :: l') m.1 = some m.2 := by
    intro l hl l'
    unfold Json.get?
    rw [List.find?_append, List.find?_eq_none.mpr fun x hx => by
      have hne : x.1 ≠ m.1 := fun he => hl (he ▸ List.mem_map_of_mem hx)
      simpa using hne, Option.none_or, List.find?_cons_of_pos (by simp)]
    rfl
  unfold defineKey
  split
  · rename_i hm
    by_cases hk : m.1 = k
    · rw [if_pos hk, ← hk]
      obtain ⟨x, hx, hxm⟩ := List.mem_map.mp hm
      unfold Json.get?
      clear hmap hfresh hm
      induction ms with
      | nil => cases hx
      | cons y ms ih =>
        rw [List.map_cons]
        by_cases hy : y.1 = m.1
        · rw [if_pos hy, List.find?_cons_of_pos (by simp)]
          rfl
        · rw [if_neg hy, List.find?_cons_of_neg (by simpa using hy)]
          refine ih ((List.mem_cons.mp hx).resolve_left fun he => hy (he ▸ hxm))
    · rw [if_neg hk, hmap ms hk]
  · rename_i hm
    have hsplit := List.takeWhile_append_dropWhile (p := fun x => keyBefore x.1 m.1) (l := ms)
    by_cases hk : m.1 = k
    · rw [if_pos hk, ← hk]
      refine hfresh _ (fun hmem => hm ?_) _
      exact (List.Sublist.map Prod.fst (List.takeWhile_sublist _)).subset hmem
    · rw [if_neg hk]
      conv_rhs => rw [← hsplit]
      unfold Json.get?
      rw [List.find?_append, List.find?_append, List.find?_cons_of_neg (by simpa using hk)]

/-- A key that is defined to its own value stays as it is. -/
theorem defineKey_self {ms : List (String × Json ν)} {k : String} {v : Json ν}
    (hn : (ms.map Prod.fst).Nodup) (h : Json.get? ms k = some v) : defineKey ms (k, v) = ms := by
  have hmem := List.mem_map_of_mem (f := Prod.fst) (mem_of_get? h)
  unfold defineKey
  rw [if_pos hmem]
  conv_rhs => rw [← List.map_id ms]
  refine List.map_congr_left fun x hx => ?_
  show (if x.1 = k then (k, v) else x) = x
  split
  · rename_i hk
    have hx := get?_of_mem hn hx
    rw [hk, h] at hx
    exact Prod.ext hk.symm (Option.some.inj hx)
  · rfl

/-! ## All through a value -/

mutual

/-- Every number of the value satisfies `p`. -/
def Json.Numbers (p : ν → Prop) : Json ν → Prop
  | .num n => p n
  | .arr xs => Json.ElemsNumbers p xs
  | .obj ms => Json.MembersNumbers p ms
  | _ => True

def Json.ElemsNumbers (p : ν → Prop) : List (Json ν) → Prop
  | [] => True
  | x :: xs => x.Numbers p ∧ Json.ElemsNumbers p xs

def Json.MembersNumbers (p : ν → Prop) : List (String × Json ν) → Prop
  | [] => True
  | (_, v) :: ms => v.Numbers p ∧ Json.MembersNumbers p ms

end

mutual

/-- Every object of the value lists its keys as JavaScript does. -/
def Json.Own : Json ν → Prop
  | .arr xs => Json.ElemsOwn xs
  | .obj ms => OwnKeys (ms.map Prod.fst) ∧ Json.MembersOwn ms
  | _ => True

def Json.ElemsOwn : List (Json ν) → Prop
  | [] => True
  | x :: xs => x.Own ∧ Json.ElemsOwn xs

def Json.MembersOwn : List (String × Json ν) → Prop
  | [] => True
  | (_, v) :: ms => v.Own ∧ Json.MembersOwn ms

end

theorem elemsNumbers_iff {p : ν → Prop} {xs : List (Json ν)} :
    Json.ElemsNumbers p xs ↔ ∀ x ∈ xs, x.Numbers p := by
  induction xs with
  | nil => simp [Json.ElemsNumbers]
  | cons x xs ih => rw [Json.ElemsNumbers, ih, List.forall_mem_cons]

theorem membersNumbers_iff {p : ν → Prop} {ms : List (String × Json ν)} :
    Json.MembersNumbers p ms ↔ ∀ m ∈ ms, m.2.Numbers p := by
  induction ms with
  | nil => simp [Json.MembersNumbers]
  | cons m ms ih =>
    obtain ⟨k, v⟩ := m
    rw [Json.MembersNumbers, ih, List.forall_mem_cons]

mutual

theorem numbers_mono {p q : ν → Prop} (hpq : ∀ n, p n → q n) : ∀ j : Json ν, j.Numbers p → j.Numbers q
  | .null, _ => trivial
  | .bool _, _ => trivial
  | .num n, h => hpq n h
  | .str _, _ => trivial
  | .arr xs, h => elemsNumbers_mono hpq xs h
  | .obj ms, h => membersNumbers_mono hpq ms h

theorem elemsNumbers_mono {p q : ν → Prop} (hpq : ∀ n, p n → q n) :
    ∀ xs : List (Json ν), Json.ElemsNumbers p xs → Json.ElemsNumbers q xs
  | [], _ => trivial
  | x :: xs, h => ⟨numbers_mono hpq x h.1, elemsNumbers_mono hpq xs h.2⟩

theorem membersNumbers_mono {p q : ν → Prop} (hpq : ∀ n, p n → q n) :
    ∀ ms : List (String × Json ν), Json.MembersNumbers p ms → Json.MembersNumbers q ms
  | [], _ => trivial
  | (_, v) :: ms, h => ⟨numbers_mono hpq v h.1, membersNumbers_mono hpq ms h.2⟩

end

mutual

theorem numbers_and {p q : ν → Prop} : ∀ j : Json ν, j.Numbers p → j.Numbers q →
    j.Numbers fun n => p n ∧ q n
  | .null, _, _ => trivial
  | .bool _, _, _ => trivial
  | .num _, hp, hq => ⟨hp, hq⟩
  | .str _, _, _ => trivial
  | .arr xs, hp, hq => elemsNumbers_and xs hp hq
  | .obj ms, hp, hq => membersNumbers_and ms hp hq

theorem elemsNumbers_and {p q : ν → Prop} : ∀ xs : List (Json ν), Json.ElemsNumbers p xs →
    Json.ElemsNumbers q xs → Json.ElemsNumbers (fun n => p n ∧ q n) xs
  | [], _, _ => trivial
  | x :: xs, hp, hq => ⟨numbers_and x hp.1 hq.1, elemsNumbers_and xs hp.2 hq.2⟩

theorem membersNumbers_and {p q : ν → Prop} : ∀ ms : List (String × Json ν),
    Json.MembersNumbers p ms → Json.MembersNumbers q ms →
      Json.MembersNumbers (fun n => p n ∧ q n) ms
  | [], _, _ => trivial
  | (_, v) :: ms, hp, hq => ⟨numbers_and v hp.1 hq.1, membersNumbers_and ms hp.2 hq.2⟩

end

theorem elemsOwn_iff {xs : List (Json ν)} : Json.ElemsOwn xs ↔ ∀ x ∈ xs, x.Own := by
  induction xs with
  | nil => simp [Json.ElemsOwn]
  | cons x xs ih => rw [Json.ElemsOwn, ih, List.forall_mem_cons]

theorem membersOwn_iff {ms : List (String × Json ν)} : Json.MembersOwn ms ↔ ∀ m ∈ ms, m.2.Own := by
  induction ms with
  | nil => simp [Json.MembersOwn]
  | cons m ms ih =>
    obtain ⟨k, v⟩ := m
    rw [Json.MembersOwn, ih, List.forall_mem_cons]

theorem elemsHeight_le {xs : List (Json ν)} {d : Nat} :
    Json.elemsHeight xs ≤ d ↔ ∀ x ∈ xs, x.height + 1 ≤ d := by
  induction xs with
  | nil => simp [Json.elemsHeight]
  | cons x xs ih => rw [Json.elemsHeight, List.forall_mem_cons, ← ih, Nat.max_le]

theorem membersHeight_le {ms : List (String × Json ν)} {d : Nat} :
    Json.membersHeight ms ≤ d ↔ ∀ m ∈ ms, m.2.height + 1 ≤ d := by
  induction ms with
  | nil => simp [Json.membersHeight]
  | cons m ms ih =>
    obtain ⟨k, v⟩ := m
    rw [Json.membersHeight, List.forall_mem_cons, ← ih, Nat.max_le]

section
variable [JsNumber ν]

mutual

/-- A text says all of a value when its objects are ordered and its numbers are exact. -/
theorem exact_iff : ∀ j : Json ν, j.Exact ↔ j.Own ∧ j.Numbers fun n => JsNumber.exact n = true
  | .null => by simp [Json.Exact, Json.Own, Json.Numbers]
  | .bool _ => by simp [Json.Exact, Json.Own, Json.Numbers]
  | .num _ => by simp [Json.Exact, Json.Own, Json.Numbers]
  | .str _ => by simp [Json.Exact, Json.Own, Json.Numbers]
  | .arr xs => by
    rw [Json.Exact, Json.Own, Json.Numbers]
    exact elemsExact_numbers xs
  | .obj ms => by
    rw [Json.Exact, Json.Own, Json.Numbers, membersExact_numbers ms, and_assoc]

theorem elemsExact_numbers : ∀ xs : List (Json ν), Json.ElemsExact xs ↔
    Json.ElemsOwn xs ∧ Json.ElemsNumbers (fun n => JsNumber.exact n = true) xs
  | [] => by simp [Json.ElemsExact, Json.ElemsOwn, Json.ElemsNumbers]
  | x :: xs => by
    rw [Json.ElemsExact, Json.ElemsOwn, Json.ElemsNumbers, exact_iff x, elemsExact_numbers xs]
    tauto

theorem membersExact_numbers : ∀ ms : List (String × Json ν), Json.MembersExact ms ↔
    Json.MembersOwn ms ∧ Json.MembersNumbers (fun n => JsNumber.exact n = true) ms
  | [] => by simp [Json.MembersExact, Json.MembersOwn, Json.MembersNumbers]
  | (k, v) :: ms => by
    rw [Json.MembersExact, Json.MembersOwn, Json.MembersNumbers, exact_iff v, membersExact_numbers ms]
    tauto

end

/-! ## What a parser leaves -/

theorem parseNumber_own {cs rest : List Char} {j : Json ν} (h : parseNumber cs = some (j, rest)) :
    j.Own := by
  unfold parseNumber at h
  obtain ⟨n, -, h⟩ := Option.map_eq_some_iff.mp h
  obtain rfl := (Prod.mk.inj h).1
  trivial

mutual

theorem parseValue_own : ∀ (fuel : Nat) (cs rest : List Char) (j : Json ν),
    parseValue fuel cs = some (j, rest) → j.Own
  | 0, _, _, _, h => by cases h
  | fuel + 1, cs, rest, j, h => by
    rw [parseValue] at h
    split at h
    · obtain rfl := (Prod.mk.inj (Option.some.inj h)).1
      trivial
    · obtain rfl := (Prod.mk.inj (Option.some.inj h)).1
      trivial
    · obtain rfl := (Prod.mk.inj (Option.some.inj h)).1
      trivial
    · obtain ⟨p, -, h⟩ := Option.map_eq_some_iff.mp h
      obtain rfl := (Prod.mk.inj h).1
      trivial
    · rename_i cs' _
      unfold parseArray at h
      split at h
      · obtain rfl := (Prod.mk.inj (Option.some.inj h)).1
        rw [Json.Own, Json.ElemsOwn]
        trivial
      · obtain ⟨p, hp, h⟩ := Option.map_eq_some_iff.mp h
        obtain rfl := (Prod.mk.inj h).1
        rw [Json.Own]
        exact parseElems_own fuel cs' p.2 p.1 hp
    · rename_i cs' _
      unfold parseObject at h
      split at h
      · obtain rfl := (Prod.mk.inj (Option.some.inj h)).1
        rw [Json.Own, Json.MembersOwn]
        exact ⟨List.Pairwise.nil, trivial⟩
      · obtain ⟨p, hp, h⟩ := Option.map_eq_some_iff.mp h
        obtain rfl := (Prod.mk.inj h).1
        rw [Json.Own, membersOwn_iff]
        have hms := membersOwn_iff.mp (parseMembers_own fuel cs' p.2 p.1 hp)
        exact ⟨ownMembers_ownKeys p.1, fun m hm => hms m (mem_ownMembers hm)⟩
    · exact parseNumber_own h

theorem parseElems_own : ∀ (fuel : Nat) (cs rest : List Char) (xs : List (Json ν)),
    parseElems fuel cs = some (xs, rest) → Json.ElemsOwn xs
  | 0, _, _, _, h => by cases h
  | fuel + 1, cs, rest, xs, h => by
    rw [parseElems] at h
    obtain ⟨⟨x, rest'⟩, hx, h⟩ := Option.bind_eq_some_iff.mp h
    have hown := parseValue_own fuel cs rest' x hx
    simp only at h
    split at h
    · obtain ⟨p, hp, h⟩ := Option.map_eq_some_iff.mp h
      obtain rfl := (Prod.mk.inj h).1
      rw [Json.ElemsOwn]
      exact ⟨hown, parseElems_own fuel _ p.2 p.1 hp⟩
    · obtain rfl := (Prod.mk.inj (Option.some.inj h)).1
      rw [Json.ElemsOwn, Json.ElemsOwn]
      exact ⟨hown, trivial⟩
    · cases h

theorem parseMembers_own : ∀ (fuel : Nat) (cs rest : List Char) (ms : List (String × Json ν)),
    parseMembers fuel cs = some (ms, rest) → Json.MembersOwn ms
  | 0, _, _, _, h => by cases h
  | fuel + 1, cs, rest, ms, h => by
    rw [parseMembers] at h
    split at h
    · obtain ⟨⟨k, rest'⟩, -, h⟩ := Option.bind_eq_some_iff.mp h
      simp only at h
      split at h
      · obtain ⟨⟨v, rest''⟩, hv, h⟩ := Option.bind_eq_some_iff.mp h
        have hown := parseValue_own fuel _ rest'' v hv
        simp only at h
        split at h
        · obtain ⟨p, hp, h⟩ := Option.map_eq_some_iff.mp h
          obtain rfl := (Prod.mk.inj h).1
          rw [Json.MembersOwn]
          exact ⟨hown, parseMembers_own fuel _ p.2 p.1 hp⟩
        · obtain rfl := (Prod.mk.inj (Option.some.inj h)).1
          rw [Json.MembersOwn, Json.MembersOwn]
          exact ⟨hown, trivial⟩
        · cases h
      · cases h
    · cases h

end

/-- `JSON.parse` leaves the keys of every object in order. -/
theorem parse_own {s : String} {j : Json ν} (h : Json.parse s = some j) : j.Own := by
  unfold Json.parse at h
  split at h
  · rename_i j' rest hv
    split at h
    · obtain rfl := Option.some.inj h
      exact parseValue_own _ _ rest j' hv
    · cases h
  · cases h

end

end Chardb.Lib
