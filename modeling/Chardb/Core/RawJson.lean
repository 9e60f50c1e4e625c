import Chardb.Core.Errors
import Chardb.Lib.JsonParse
import Chardb.Lib.JsonShape

/-!
# Exact JSON results

`JsValue` is a JavaScript value as `rawJsonResult` visits it: a tree in which a
reference back to an object on the way is a leaf. `rawJsonResult` accepts the trees
that are JSON values without any coercion.
-/

namespace Chardb

open Chardb.Lib

/-- What `typeof` says of the values that JSON has no word for. -/
inductive NonJsonType
  | undefined
  | bigint
  | symbol
  | function
  deriving DecidableEq

def NonJsonType.text : NonJsonType → String
  | .undefined => "undefined"
  | .bigint => "bigint"
  | .symbol => "symbol"
  | .function => "function"

/-- A JavaScript value. -/
inductive JsValue (ν : Type)
  | null
  | bool (b : Bool)
  | num (n : ν)
  | str (s : String)
  | other (type : NonJsonType)
  /-- An object that is being visited. -/
  | active
  /-- An array: its slots, holes included, its further string keys, and whether it has symbol
  keys. -/
  | arr (slots : List (Option (JsValue ν))) (extraKeys : Nat) (symbolKeys : Bool)
  /-- An object: whether its prototype is plain, and its own properties; a symbol key is
  `none`, and so is a property other than an enumerable data property. -/
  | obj (plain : Bool) (properties : List (Option String × Option (JsValue ν)))

variable {ν : Type} [JsNumber ν]

def notJson (subject : String) (code : CdbErrorCode) (path reason : String) : Thrown :=
  .cdb
    { code
      message := subject ++ " is not JSON at " ++ path ++ ": " ++ reason
      hint := some "return only null, booleans, finite numbers, strings, arrays, and plain objects" }

section
variable (subject : String) (code : CdbErrorCode)

mutual

/-- `visit` of `rawJsonResult`. -/
def JsValue.visit (path : String) : JsValue ν → Except Thrown (Json ν)
  | .null => .ok .null
  | .bool b => .ok (.bool b)
  | .str s => .ok (.str s)
  | .num n =>
    if JsNumber.exact n then .ok (.num n)
    else .error (notJson subject code path "numbers must be finite and must not be negative zero")
  | .other type => .error (notJson subject code path (type.text ++ " is unsupported"))
  | .active => .error (notJson subject code path "cyclic references are unsupported")
  | .arr slots extraKeys symbolKeys =>
    if symbolKeys then .error (notJson subject code path "symbol properties are unsupported")
    else if (slots.filter Option.isSome).length + extraKeys ≠ slots.length then
      .error (notJson subject code path "arrays cannot be sparse or have extra properties")
    else
      match JsValue.visitSlots path 0 slots with
      | .ok elems => .ok (.arr elems)
      | .error e => .error e
  | .obj plain properties =>
    if !plain then .error (notJson subject code path "objects must be plain objects")
    else
      match JsValue.visitProperties path properties with
      | .ok members => .ok (.obj members)
      | .error e => .error e

def JsValue.visitSlots (path : String) (index : Nat) :
    List (Option (JsValue ν)) → Except Thrown (List (Json ν))
  | [] => .ok []
  | none :: _ =>
    .error (notJson subject code (path ++ "[" ++ toString index ++ "]")
      "sparse array entries are unsupported")
  | some v :: slots =>
    match v.visit (path ++ "[" ++ toString index ++ "]") with
    | .error e => .error e
    | .ok x =>
      match JsValue.visitSlots path (index + 1) slots with
      | .error e => .error e
      | .ok xs => .ok (x :: xs)

def JsValue.visitProperties (path : String) :
    List (Option String × Option (JsValue ν)) → Except Thrown (List (String × Json ν))
  | [] => .ok []
  | (none, _) :: _ => .error (notJson subject code path "symbol properties are unsupported")
  | (some key, none) :: _ =>
    .error (notJson subject code (path ++ "." ++ key)
      "properties must be enumerable data properties")
  | (some key, some v) :: properties =>
    match v.visit (path ++ "." ++ key) with
    | .error e => .error e
    | .ok x =>
      match JsValue.visitProperties path properties with
      | .error e => .error e
      | .ok ms => .ok ((key, x) :: ms)

end

/-- Validate an exact JSON value. -/
def rawJsonResult (value : JsValue ν) : Except Thrown (Json ν) := value.visit subject code "$"

end

/-! ## What it accepts -/

mutual

/-- Every object in the value lists its keys the way objects do. -/
def JsValue.Wf : JsValue ν → Prop
  | .arr slots _ _ => JsValue.SlotsWf slots
  | .obj _ properties =>
    OwnKeys (properties.filterMap Prod.fst) ∧ JsValue.PropertiesWf properties
  | _ => True

def JsValue.SlotsWf : List (Option (JsValue ν)) → Prop
  | [] => True
  | none :: slots => JsValue.SlotsWf slots
  | some v :: slots => v.Wf ∧ JsValue.SlotsWf slots

def JsValue.PropertiesWf : List (Option String × Option (JsValue ν)) → Prop
  | [] => True
  | (_, none) :: properties => JsValue.PropertiesWf properties
  | (_, some v) :: properties => v.Wf ∧ JsValue.PropertiesWf properties

end

mutual

theorem JsValue.visit_exact (subject : String) (code : CdbErrorCode) :
    ∀ (v : JsValue ν) (path : String) (j : Json ν), v.Wf →
      v.visit subject code path = .ok j → j.Exact
  | .null, _, _, _, h => by cases h; simp [Json.Exact]
  | .bool _, _, _, _, h => by cases h; simp [Json.Exact]
  | .str _, _, _, _, h => by cases h; simp [Json.Exact]
  | .num n, path, j, _, h => by
    rw [JsValue.visit] at h
    split at h
    · cases h; simpa [Json.Exact]
    · cases h
  | .other _, _, _, _, h => by cases h
  | .active, _, _, _, h => by cases h
  | .arr slots extraKeys symbolKeys, path, j, hw, h => by
    rw [JsValue.visit] at h
    split at h
    · cases h
    split at h
    · cases h
    split at h
    · rename_i elems hs
      cases h
      rw [Json.Exact]
      exact JsValue.visitSlots_exact subject code slots path 0 elems (by simpa [JsValue.Wf] using hw) hs
    · cases h
  | .obj plain properties, path, j, hw, h => by
    obtain ⟨hkeys, hw⟩ : OwnKeys (properties.filterMap Prod.fst) ∧
        JsValue.PropertiesWf properties := by simpa [JsValue.Wf] using hw
    rw [JsValue.visit] at h
    split at h
    · cases h
    split at h
    · rename_i members hs
      cases h
      obtain ⟨hm, hk⟩ := JsValue.visitProperties_exact subject code properties path members hw hs
      rw [Json.Exact, hk]
      exact ⟨hkeys, hm⟩
    · cases h

theorem JsValue.visitSlots_exact (subject : String) (code : CdbErrorCode) :
    ∀ (slots : List (Option (JsValue ν))) (path : String) (index : Nat) (elems : List (Json ν)),
      JsValue.SlotsWf slots → JsValue.visitSlots subject code path index slots = .ok elems →
        Json.ElemsExact elems
  | [], _, _, _, _, h => by cases h; trivial
  | none :: _, _, _, _, _, h => by cases h
  | some v :: slots, path, index, elems, hw, h => by
    obtain ⟨hv, hw⟩ : v.Wf ∧ JsValue.SlotsWf slots := by simpa [JsValue.SlotsWf] using hw
    rw [JsValue.visitSlots] at h
    split at h
    · cases h
    · rename_i x hx
      split at h
      · cases h
      · rename_i xs hxs
        cases h
        rw [Json.ElemsExact]
        exact ⟨JsValue.visit_exact subject code v _ x hv hx,
          JsValue.visitSlots_exact subject code slots path _ xs hw hxs⟩

theorem JsValue.visitProperties_exact (subject : String) (code : CdbErrorCode) :
    ∀ (properties : List (Option String × Option (JsValue ν))) (path : String)
      (members : List (String × Json ν)), JsValue.PropertiesWf properties →
      JsValue.visitProperties subject code path properties = .ok members →
        Json.MembersExact members ∧ members.map Prod.fst = properties.filterMap Prod.fst
  | [], _, _, _, h => by cases h; exact ⟨trivial, rfl⟩
  | (none, _) :: _, _, _, _, h => by cases h
  | (some _, none) :: _, _, _, _, h => by cases h
  | (some key, some v) :: properties, path, members, hw, h => by
    obtain ⟨hv, hw⟩ : v.Wf ∧ JsValue.PropertiesWf properties := by
      simpa [JsValue.PropertiesWf] using hw
    rw [JsValue.visitProperties] at h
    split at h
    · cases h
    · rename_i x hx
      split at h
      · cases h
      · rename_i ms hms
        cases h
        obtain ⟨hm, hk⟩ :=
          JsValue.visitProperties_exact subject code properties path ms hw hms
        rw [Json.MembersExact, List.map_cons, hk]
        exact ⟨⟨JsValue.visit_exact subject code v _ x hv hx, hm⟩, rfl⟩

end

/-- What `rawJsonResult` accepts survives JSON text. -/
theorem rawJsonResult_exact {subject : String} {code : CdbErrorCode} {v : JsValue ν} {j : Json ν}
    (hw : v.Wf) (h : rawJsonResult subject code v = .ok j) : j.Exact :=
  JsValue.visit_exact subject code v "$" j hw h

/-! ## Nesting -/

mutual

/-- The levels below a value. -/
def JsValue.height : JsValue ν → Nat
  | .arr slots _ _ => JsValue.slotsHeight slots
  | .obj _ properties => JsValue.propertiesHeight properties
  | _ => 0

def JsValue.slotsHeight : List (Option (JsValue ν)) → Nat
  | [] => 0
  | none :: slots => JsValue.slotsHeight slots
  | some v :: slots => max (v.height + 1) (JsValue.slotsHeight slots)

def JsValue.propertiesHeight : List (Option String × Option (JsValue ν)) → Nat
  | [] => 0
  | (_, none) :: properties => JsValue.propertiesHeight properties
  | (_, some v) :: properties => max (v.height + 1) (JsValue.propertiesHeight properties)

end

mutual

theorem JsValue.visit_height (subject : String) (code : CdbErrorCode) :
    ∀ (v : JsValue ν) (path : String) (j : Json ν),
      v.visit subject code path = .ok j → j.height = v.height
  | .null, _, _, h => by cases h; rfl
  | .bool _, _, _, h => by cases h; rfl
  | .str _, _, _, h => by cases h; rfl
  | .num n, path, j, h => by
    rw [JsValue.visit] at h
    split at h
    · cases h; rfl
    · cases h
  | .other _, _, _, h => by cases h
  | .active, _, _, h => by cases h
  | .arr slots extraKeys symbolKeys, path, j, h => by
    rw [JsValue.visit] at h
    split at h
    · cases h
    split at h
    · cases h
    split at h
    · rename_i elems hs
      cases h
      rw [Json.height, JsValue.height]
      exact JsValue.visitSlots_height subject code slots path 0 elems hs
    · cases h
  | .obj plain properties, path, j, h => by
    rw [JsValue.visit] at h
    split at h
    · cases h
    split at h
    · rename_i members hs
      cases h
      rw [Json.height, JsValue.height]
      exact JsValue.visitProperties_height subject code properties path members hs
    · cases h

theorem JsValue.visitSlots_height (subject : String) (code : CdbErrorCode) :
    ∀ (slots : List (Option (JsValue ν))) (path : String) (index : Nat) (elems : List (Json ν)),
      JsValue.visitSlots subject code path index slots = .ok elems →
        Json.elemsHeight elems = JsValue.slotsHeight slots
  | [], _, _, _, h => by cases h; rfl
  | none :: _, _, _, _, h => by cases h
  | some v :: slots, path, index, elems, h => by
    rw [JsValue.visitSlots] at h
    split at h
    · cases h
    · rename_i x hx
      split at h
      · cases h
      · rename_i xs hxs
        cases h
        rw [Json.elemsHeight, JsValue.slotsHeight, JsValue.visit_height subject code v _ x hx,
          JsValue.visitSlots_height subject code slots path _ xs hxs]

theorem JsValue.visitProperties_height (subject : String) (code : CdbErrorCode) :
    ∀ (properties : List (Option String × Option (JsValue ν))) (path : String)
      (members : List (String × Json ν)),
      JsValue.visitProperties subject code path properties = .ok members →
        Json.membersHeight members = JsValue.propertiesHeight properties
  | [], _, _, h => by cases h; rfl
  | (none, _) :: _, _, _, h => by cases h
  | (some _, none) :: _, _, _, h => by cases h
  | (some key, some v) :: properties, path, members, h => by
    rw [JsValue.visitProperties] at h
    split at h
    · cases h
    · rename_i x hx
      split at h
      · cases h
      · rename_i ms hms
        cases h
        rw [Json.membersHeight, JsValue.propertiesHeight,
          JsValue.visit_height subject code v _ x hx,
          JsValue.visitProperties_height subject code properties path ms hms]

end

/-! ## JSON values as JavaScript values -/

mutual

def JsValue.ofJson : Json ν → JsValue ν
  | .null => .null
  | .bool b => .bool b
  | .num n => .num n
  | .str s => .str s
  | .arr xs => .arr (JsValue.slotsOfJson xs) 0 false
  | .obj ms => .obj true (JsValue.propertiesOfJson ms)

def JsValue.slotsOfJson : List (Json ν) → List (Option (JsValue ν))
  | [] => []
  | x :: xs => some (JsValue.ofJson x) :: JsValue.slotsOfJson xs

def JsValue.propertiesOfJson : List (String × Json ν) → List (Option String × Option (JsValue ν))
  | [] => []
  | (k, v) :: ms => (some k, some (JsValue.ofJson v)) :: JsValue.propertiesOfJson ms

end

omit [JsNumber ν] in
theorem slotsOfJson_isSome (xs : List (Json ν)) :
    (JsValue.slotsOfJson xs).filter Option.isSome = JsValue.slotsOfJson xs := by
  induction xs with
  | nil => rfl
  | cons x xs ih => rw [JsValue.slotsOfJson, List.filter_cons_of_pos (by rfl), ih]

mutual

theorem visit_ofJson (subject : String) (code : CdbErrorCode) :
    ∀ (j : Json ν) (path : String), j.Exact → (JsValue.ofJson j).visit subject code path = .ok j
  | .null, _, _ => rfl
  | .bool _, _, _ => rfl
  | .str _, _, _ => rfl
  | .num n, path, h => by
    rw [Json.Exact] at h
    rw [JsValue.ofJson, JsValue.visit, if_pos h]
  | .arr xs, path, h => by
    rw [Json.Exact] at h
    rw [JsValue.ofJson, JsValue.visit, if_neg (by simp), if_neg (by rw [slotsOfJson_isSome]; simp),
      visitSlots_ofJson subject code xs path 0 h]
  | .obj ms, path, h => by
    rw [Json.Exact] at h
    rw [JsValue.ofJson, JsValue.visit, if_neg (by simp), visitProperties_ofJson subject code ms path h.2]

theorem visitSlots_ofJson (subject : String) (code : CdbErrorCode) :
    ∀ (xs : List (Json ν)) (path : String) (index : Nat), Json.ElemsExact xs →
      JsValue.visitSlots subject code path index (JsValue.slotsOfJson xs) = .ok xs
  | [], _, _, _ => rfl
  | x :: xs, path, index, h => by
    rw [Json.ElemsExact] at h
    rw [JsValue.slotsOfJson, JsValue.visitSlots, visit_ofJson subject code x _ h.1]
    simp only [visitSlots_ofJson subject code xs path (index + 1) h.2]

theorem visitProperties_ofJson (subject : String) (code : CdbErrorCode) :
    ∀ (ms : List (String × Json ν)) (path : String), Json.MembersExact ms →
      JsValue.visitProperties subject code path (JsValue.propertiesOfJson ms) = .ok ms
  | [], _, _ => rfl
  | (k, v) :: ms, path, h => by
    rw [Json.MembersExact] at h
    rw [JsValue.propertiesOfJson, JsValue.visitProperties, visit_ofJson subject code v _ h.1]
    simp only [visitProperties_ofJson subject code ms path h.2]

end

/-- Once a value is exact, validating it again changes nothing. -/
theorem rawJsonResult_ofJson {subject : String} {code : CdbErrorCode} {j : Json ν} (h : j.Exact) :
    rawJsonResult subject code (JsValue.ofJson j) = .ok j :=
  visit_ofJson subject code j "$" h

end Chardb
