import Chardb.Lib.JsonShape

/-!
# Negative zero in JSON

JSON text writes `-0` as `0`. `plusZero` reads every `-0` of a value as `0`, which leaves the text
as it is and makes the value one that its text says all of.
-/

namespace Chardb.Lib

/-- Numbers of which `-0` is written as `0`. -/
class SignedZero (ν : Type) extends JsNumber ν where
  negZero_text : ∀ n : ν, isNegZero n → isFinite n ∧ text n = text (ofInt 0)

instance : SignedZero Int where
  negZero_text _ h := by cases h

variable {ν : Type}

section
variable [JsNumber ν]

mutual

/-- A value that JSON text can have: the numbers are finite, and every object has its keys in the
order of `Object.keys`. -/
def Json.IsValue : Json ν → Prop
  | .num n => JsNumber.isFinite n = true
  | .arr xs => Json.ElemsValues xs
  | .obj ms => OwnKeys (ms.map Prod.fst) ∧ Json.MembersValues ms
  | _ => True

def Json.ElemsValues : List (Json ν) → Prop
  | [] => True
  | x :: xs => x.IsValue ∧ Json.ElemsValues xs

def Json.MembersValues : List (String × Json ν) → Prop
  | [] => True
  | (_, v) :: ms => v.IsValue ∧ Json.MembersValues ms

end

/-- A JSON value, as a value of its own. -/
abbrev JsonValue (ν : Type) [JsNumber ν] := {j : Json ν // j.IsValue}

mutual

theorem Json.Exact.isValue : ∀ {j : Json ν}, j.Exact → j.IsValue
  | .null, _ => trivial
  | .bool _, _ => trivial
  | .num _, h => by
    rw [Json.Exact, JsNumber.exact, Bool.and_eq_true] at h
    exact h.1
  | .str _, _ => trivial
  | .arr xs, h => by
    rw [Json.Exact] at h
    rw [Json.IsValue]
    exact Json.ElemsExact.values h
  | .obj ms, h => by
    rw [Json.Exact] at h
    rw [Json.IsValue]
    exact ⟨h.1, Json.MembersExact.values h.2⟩

theorem Json.ElemsExact.values : ∀ {xs : List (Json ν)}, Json.ElemsExact xs → Json.ElemsValues xs
  | [], _ => trivial
  | _ :: _, h => by
    rw [Json.ElemsExact] at h
    rw [Json.ElemsValues]
    exact ⟨Json.Exact.isValue h.1, Json.ElemsExact.values h.2⟩

theorem Json.MembersExact.values :
    ∀ {ms : List (String × Json ν)}, Json.MembersExact ms → Json.MembersValues ms
  | [], _ => trivial
  | (_, _) :: _, h => by
    rw [Json.MembersExact] at h
    rw [Json.MembersValues]
    exact ⟨Json.Exact.isValue h.1, Json.MembersExact.values h.2⟩

end

theorem membersValues_iff {ms : List (String × Json ν)} :
    Json.MembersValues ms ↔ ∀ m ∈ ms, m.2.IsValue := by
  induction ms with
  | nil => simp [Json.MembersValues]
  | cons m ms ih => rw [Json.MembersValues, ih, List.forall_mem_cons]

/-- `0` for `-0`. -/
def plusZeroNumber (n : ν) : ν := if JsNumber.isNegZero n = true then JsNumber.ofInt 0 else n

mutual

/-- The value with `0` for every `-0`. -/
def Json.plusZero : Json ν → Json ν
  | .num n => .num (plusZeroNumber n)
  | .arr xs => .arr (Json.elemsPlusZero xs)
  | .obj ms => .obj (Json.membersPlusZero ms)
  | value => value

def Json.elemsPlusZero : List (Json ν) → List (Json ν)
  | [] => []
  | x :: xs => x.plusZero :: Json.elemsPlusZero xs

def Json.membersPlusZero : List (String × Json ν) → List (String × Json ν)
  | [] => []
  | (k, v) :: ms => (k, v.plusZero) :: Json.membersPlusZero ms

end

theorem Json.membersPlusZero_eq (ms : List (String × Json ν)) :
    Json.membersPlusZero ms = ms.map fun m => (m.1, m.2.plusZero) := by
  induction ms with
  | nil => rfl
  | cons m ms ih => rw [Json.membersPlusZero, ih, List.map_cons]

theorem Json.membersPlusZero_keys (ms : List (String × Json ν)) :
    (Json.membersPlusZero ms).map Prod.fst = ms.map Prod.fst := by
  rw [Json.membersPlusZero_eq, List.map_map]
  rfl

theorem plusZeroNumber_exact {n : ν} (h : JsNumber.isFinite n = true) :
    JsNumber.exact (plusZeroNumber n) = true := by
  unfold plusZeroNumber JsNumber.exact
  split
  · obtain ⟨hfinite, hzero⟩ := JsNumber.ofInt_exact (ν := ν) 0 (by decide)
    rw [hfinite, hzero]
    rfl
  · rename_i hzero
    rw [h, Bool.eq_false_iff.mpr hzero]
    rfl

mutual

theorem Json.plusZero_exact : ∀ {j : Json ν}, j.IsValue → j.plusZero.Exact
  | .null, _ => trivial
  | .bool _, _ => trivial
  | .num _, h => plusZeroNumber_exact h
  | .str _, _ => trivial
  | .arr xs, h => by
    rw [Json.IsValue] at h
    rw [Json.plusZero, Json.Exact]
    exact Json.elemsPlusZero_exact h
  | .obj ms, h => by
    rw [Json.IsValue] at h
    rw [Json.plusZero, Json.Exact, Json.membersPlusZero_keys]
    exact ⟨h.1, Json.membersPlusZero_exact h.2⟩

theorem Json.elemsPlusZero_exact :
    ∀ {xs : List (Json ν)}, Json.ElemsValues xs → Json.ElemsExact (Json.elemsPlusZero xs)
  | [], _ => trivial
  | _ :: _, h => by
    rw [Json.ElemsValues] at h
    rw [Json.elemsPlusZero, Json.ElemsExact]
    exact ⟨Json.plusZero_exact h.1, Json.elemsPlusZero_exact h.2⟩

theorem Json.membersPlusZero_exact :
    ∀ {ms : List (String × Json ν)}, Json.MembersValues ms →
      Json.MembersExact (Json.membersPlusZero ms)
  | [], _ => trivial
  | (_, _) :: _, h => by
    rw [Json.MembersValues] at h
    rw [Json.membersPlusZero, Json.MembersExact]
    exact ⟨Json.plusZero_exact h.1, Json.membersPlusZero_exact h.2⟩

end

end

variable [SignedZero ν]

theorem numText_plusZeroNumber (n : ν) : Json.numText (plusZeroNumber n) = Json.numText n := by
  unfold plusZeroNumber
  split
  · rename_i hzero
    obtain ⟨hfinite, htext⟩ := SignedZero.negZero_text n hzero
    have hint : JsNumber.isFinite (JsNumber.ofInt 0 : ν) = true :=
      (JsNumber.ofInt_exact (ν := ν) 0 (by decide)).1
    rw [Json.numText, Json.numText, if_pos hint, if_pos hfinite, htext]
  · rfl

mutual

/-- The text of a value does not show the sign of a zero. -/
theorem Json.stringify_plusZero : ∀ j : Json ν, j.plusZero.stringify = j.stringify
  | .null => rfl
  | .bool _ => rfl
  | .num n => by
    rw [Json.plusZero, Json.stringify, Json.stringify]
    exact numText_plusZeroNumber n
  | .str _ => rfl
  | .arr [] => rfl
  | .arr (x :: xs) => by
    rw [Json.plusZero, Json.elemsPlusZero, Json.stringify, Json.stringify,
      Json.stringify_plusZero x, Json.elemsText_plusZero xs]
  | .obj [] => rfl
  | .obj ((_, v) :: ms) => by
    rw [Json.plusZero, Json.membersPlusZero, Json.stringify, Json.stringify,
      Json.stringify_plusZero v, Json.membersText_plusZero ms]

theorem Json.elemsText_plusZero :
    ∀ xs : List (Json ν), Json.elemsText (Json.elemsPlusZero xs) = Json.elemsText xs
  | [] => rfl
  | x :: xs => by
    rw [Json.elemsPlusZero, Json.elemsText, Json.elemsText, Json.stringify_plusZero x,
      Json.elemsText_plusZero xs]

theorem Json.membersText_plusZero :
    ∀ ms : List (String × Json ν), Json.membersText (Json.membersPlusZero ms) = Json.membersText ms
  | [] => rfl
  | (_, v) :: ms => by
    rw [Json.membersPlusZero, Json.membersText, Json.membersText, Json.stringify_plusZero v,
      Json.membersText_plusZero ms]

end

/-! ## Defining members -/

theorem defineKey_map {α β : Type} (g : α → β) (ms : List (String × α)) (m : String × α) :
    defineKey (ms.map fun x => (x.1, g x.2)) (m.1, g m.2) =
      (defineKey ms m).map fun x => (x.1, g x.2) := by
  have hkeys : (ms.map fun x => (x.1, g x.2)).map Prod.fst = ms.map Prod.fst := by
    rw [List.map_map]
    rfl
  unfold defineKey
  rw [hkeys]
  split
  · rw [List.map_map, List.map_map]
    refine List.map_congr_left fun x _ => ?_
    show (if x.1 = m.1 then (m.1, g m.2) else (x.1, g x.2)) = _
    rw [Function.comp_apply]
    split <;> rfl
  · rw [List.map_append, List.map_cons, List.takeWhile_map, List.dropWhile_map]
    rfl

/-- The values of members have no say in their order. -/
theorem ownMembers_map {α β : Type} (g : α → β) (ms : List (String × α)) :
    ownMembers (ms.map fun x => (x.1, g x.2)) = (ownMembers ms).map fun x => (x.1, g x.2) := by
  have key : ∀ rest done : List (String × α),
      (rest.map fun x => (x.1, g x.2)).foldl defineKey (done.map fun x => (x.1, g x.2)) =
        (rest.foldl defineKey done).map fun x => (x.1, g x.2) := by
    intro rest
    induction rest with
    | nil => exact fun done => rfl
    | cons m rest ih =>
      intro done
      rw [List.map_cons, List.foldl_cons, List.foldl_cons, defineKey_map, ih]
  exact key ms []

end Chardb.Lib
