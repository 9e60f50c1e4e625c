import Chardb.Lib.JsString

/-!
# Argument values

`JsonTree ι ν` is a JSON value as a program holds it: strings by their code units, and every array
and object with a reference in `ι` that tells it from the others. `byteCount` and `memberCount` are
what the validators count, and `byteCount` is the length of the JSON text in UTF-8.
-/

namespace Chardb.Arguments

open Chardb.Lib

inductive JsonTree (ι ν : Type)
  | null
  | bool (b : Bool)
  | num (n : ν)
  | str (s : JsString)
  | arr (ref : ι) (elems : List (JsonTree ι ν))
  | obj (ref : ι) (members : List (JsString × JsonTree ι ν))

variable {ι ν : Type}

/-! ## Structure -/

mutual

/-- The value without its references. -/
def JsonTree.shape : JsonTree ι ν → JsonTree Unit ν
  | .null => .null
  | .bool b => .bool b
  | .num n => .num n
  | .str s => .str s
  | .arr _ elems => .arr () (JsonTree.elemsShape elems)
  | .obj _ members => .obj () (JsonTree.membersShape members)

def JsonTree.elemsShape : List (JsonTree ι ν) → List (JsonTree Unit ν)
  | [] => []
  | x :: xs => x.shape :: JsonTree.elemsShape xs

def JsonTree.membersShape : List (JsString × JsonTree ι ν) → List (JsString × JsonTree Unit ν)
  | [] => []
  | (key, x) :: ms => (key, x.shape) :: JsonTree.membersShape ms

end

mutual

/-- An object has every key once. -/
def JsonTree.Wf : JsonTree ι ν → Prop
  | .arr _ elems => JsonTree.ElemsWf elems
  | .obj _ members => (members.map Prod.fst).Nodup ∧ JsonTree.MembersWf members
  | _ => True

def JsonTree.ElemsWf : List (JsonTree ι ν) → Prop
  | [] => True
  | x :: xs => x.Wf ∧ JsonTree.ElemsWf xs

def JsonTree.MembersWf : List (JsString × JsonTree ι ν) → Prop
  | [] => True
  | (_, x) :: ms => x.Wf ∧ JsonTree.MembersWf ms

end

/-! ## Copies -/

/-- `Object.defineProperty`: a new key comes last. The keys of a copy are defined in the order of
`Reflect.ownKeys`. -/
def defineProperty (key : JsString) (x : JsonTree Unit ν) :
    List (JsString × JsonTree Unit ν) → List (JsString × JsonTree Unit ν)
  | [] => [(key, x)]
  | (k, y) :: ms => if k = key then (key, x) :: ms else (k, y) :: defineProperty key x ms

mutual

/-- What a validator builds: every property defined in turn. -/
def JsonTree.copy : JsonTree ι ν → JsonTree Unit ν
  | .null => .null
  | .bool b => .bool b
  | .num n => .num n
  | .str s => .str s
  | .arr _ elems => .arr () (JsonTree.copyElems elems)
  | .obj _ members => .obj () (JsonTree.copyMembers [] members)

def JsonTree.copyElems : List (JsonTree ι ν) → List (JsonTree Unit ν)
  | [] => []
  | x :: xs => x.copy :: JsonTree.copyElems xs

def JsonTree.copyMembers (owned : List (JsString × JsonTree Unit ν)) :
    List (JsString × JsonTree ι ν) → List (JsString × JsonTree Unit ν)
  | [] => owned
  | (key, x) :: ms => JsonTree.copyMembers (defineProperty key x.copy owned) ms

end

theorem defineProperty_new {members : List (JsString × JsonTree Unit ν)} {key : JsString}
    (h : key ∉ members.map Prod.fst) (x : JsonTree Unit ν) :
    defineProperty key x members = members ++ [(key, x)] := by
  induction members with
  | nil => rfl
  | cons m ms ih =>
    have hm : m.1 ≠ key := fun he => h (he ▸ List.mem_cons_self)
    rw [defineProperty, if_neg hm, ih fun hms => h (List.mem_cons_of_mem _ hms), List.cons_append]

mutual

/-- A copy has the structure of the value. -/
theorem JsonTree.copy_eq : ∀ v : JsonTree ι ν, v.Wf → v.copy = v.shape
  | .null, _ | .bool _, _ | .num _, _ | .str _, _ => rfl
  | .arr _ elems, h => by rw [JsonTree.copy, JsonTree.shape, JsonTree.copyElems_eq elems h]
  | .obj _ members, h => by
    have hcopy := JsonTree.copyMembers_eq members [] h.2 (by simpa using h.1)
    rw [JsonTree.copy, JsonTree.shape, hcopy, List.nil_append]

theorem JsonTree.copyElems_eq : ∀ xs : List (JsonTree ι ν), JsonTree.ElemsWf xs →
    JsonTree.copyElems xs = JsonTree.elemsShape xs
  | [], _ => rfl
  | x :: xs, h => by
    rw [JsonTree.copyElems, JsonTree.elemsShape, x.copy_eq h.1, JsonTree.copyElems_eq xs h.2]

theorem JsonTree.copyMembers_eq : ∀ (ms : List (JsString × JsonTree ι ν))
    (owned : List (JsString × JsonTree Unit ν)), JsonTree.MembersWf ms →
    (owned.map Prod.fst ++ ms.map Prod.fst).Nodup →
    JsonTree.copyMembers owned ms = owned ++ JsonTree.membersShape ms
  | [], owned, _, _ => (List.append_nil owned).symm
  | (key, x) :: ms, owned, h, hnodup => by
    have hnew : key ∉ owned.map Prod.fst := fun hkey =>
      (List.nodup_append.mp hnodup).2.2 key hkey key List.mem_cons_self rfl
    have hrest : ((owned ++ [(key, x.copy)]).map Prod.fst ++ ms.map Prod.fst).Nodup := by
      rw [List.map_append, List.append_assoc]
      exact hnodup
    rw [JsonTree.copyMembers, defineProperty_new hnew, JsonTree.copyMembers_eq ms _ h.2 hrest,
      x.copy_eq h.1, JsonTree.membersShape, List.append_assoc, List.singleton_append]

end

/-! ## Counts -/

section
variable [JsNumber ν]

mutual

/-- `JSON.stringify`. -/
def JsonTree.stringify : JsonTree ι ν → List Char
  | .null => ['n', 'u', 'l', 'l']
  | .bool true => ['t', 'r', 'u', 'e']
  | .bool false => ['f', 'a', 'l', 's', 'e']
  | .num n => Json.numText n
  | .str s => s.quote
  | .arr _ elems => '[' :: (JsonTree.elemsText true elems ++ [']'])
  | .obj _ members => '\x7b' :: (JsonTree.membersText true members ++ ['\x7d'])

/-- The elements, with a comma before each but the first. -/
def JsonTree.elemsText (first : Bool) : List (JsonTree ι ν) → List Char
  | [] => []
  | x :: xs => (if first then [] else [',']) ++ (x.stringify ++ JsonTree.elemsText false xs)

def JsonTree.membersText (first : Bool) : List (JsString × JsonTree ι ν) → List Char
  | [] => []
  | (key, x) :: ms =>
    (if first then [] else [',']) ++
      (key.quote ++ ':' :: (x.stringify ++ JsonTree.membersText false ms))

end

mutual

def JsonTree.byteCount : JsonTree ι ν → Nat
  | .null => 4
  | .bool b => if b then 4 else 5
  | .num n => (JsNumber.text n).length
  | .str s => 2 + unitsBytes s
  | .arr _ elems => 2 + JsonTree.elemsBytes true elems
  | .obj _ members => 2 + JsonTree.membersBytes true members

def JsonTree.elemsBytes (first : Bool) : List (JsonTree ι ν) → Nat
  | [] => 0
  | x :: xs => (if first then 0 else 1) + x.byteCount + JsonTree.elemsBytes false xs

def JsonTree.membersBytes (first : Bool) : List (JsString × JsonTree ι ν) → Nat
  | [] => 0
  | (key, x) :: ms =>
    (if first then 0 else 1) + (2 + unitsBytes key) + 1 + x.byteCount +
      JsonTree.membersBytes false ms

end

end

mutual

/-- The elements and properties below a value. -/
def JsonTree.memberCount : JsonTree ι ν → Nat
  | .arr _ elems => JsonTree.elemsCount elems
  | .obj _ members => JsonTree.membersCount members
  | _ => 0

def JsonTree.elemsCount : List (JsonTree ι ν) → Nat
  | [] => 0
  | x :: xs => 1 + x.memberCount + JsonTree.elemsCount xs

def JsonTree.membersCount : List (JsString × JsonTree ι ν) → Nat
  | [] => 0
  | (_, x) :: ms => 1 + x.memberCount + JsonTree.membersCount ms

end

section
variable [JsNumber ν] (maxDepth : Option Nat)

mutual

/-- At this depth, below these containers: every number has its text, no container lies in itself,
and none is too deep. -/
def JsonTree.Fits (ancestors : List ι) (depth : Nat) : JsonTree ι ν → Prop
  | .num n => JsNumber.exact n = true
  | .arr ref elems =>
    (∀ m ∈ maxDepth, depth < m) ∧ ref ∉ ancestors ∧
      JsonTree.ElemsFit (ref :: ancestors) (depth + 1) elems
  | .obj ref members =>
    (∀ m ∈ maxDepth, depth < m) ∧ ref ∉ ancestors ∧
      JsonTree.MembersFit (ref :: ancestors) (depth + 1) members
  | _ => True

def JsonTree.ElemsFit (ancestors : List ι) (depth : Nat) : List (JsonTree ι ν) → Prop
  | [] => True
  | x :: xs => x.Fits ancestors depth ∧ JsonTree.ElemsFit ancestors depth xs

def JsonTree.MembersFit (ancestors : List ι) (depth : Nat) :
    List (JsString × JsonTree ι ν) → Prop
  | [] => True
  | (_, x) :: ms => x.Fits ancestors depth ∧ JsonTree.MembersFit ancestors depth ms

end

variable {maxDepth}

mutual

/-- The bytes of a value are those of its JSON text. -/
theorem JsonTree.utf8Length_stringify : ∀ (v : JsonTree ι ν) {ancestors : List ι} {depth : Nat},
    v.Fits maxDepth ancestors depth → utf8Length v.stringify = v.byteCount
  | .null, _, _, _ | .bool true, _, _, _ | .bool false, _, _, _ => rfl
  | .num n, _, _, h => by
    have hfinite : JsNumber.isFinite n = true := (Bool.and_eq_true_iff.mp h).1
    rw [JsonTree.stringify, JsonTree.byteCount, Json.numText, if_pos hfinite,
      utf8Length_number (JsNumber.text_chars n hfinite)]
  | .str s, _, _, _ => by rw [JsonTree.stringify, JsonTree.byteCount, utf8Length_quote]
  | .arr _ elems, _, _, h => by
    have helems := JsonTree.utf8Length_elemsText elems true h.2.2
    have hopen : '['.utf8Size = 1 := rfl
    have hclose : utf8Length [']'] = 1 := rfl
    rw [JsonTree.stringify, JsonTree.byteCount, utf8Length, utf8Length_append, helems, hopen, hclose]
    omega
  | .obj _ members, _, _, h => by
    have hmembers := JsonTree.utf8Length_membersText members true h.2.2
    have hopen : '\x7b'.utf8Size = 1 := rfl
    have hclose : utf8Length ['\x7d'] = 1 := rfl
    rw [JsonTree.stringify, JsonTree.byteCount, utf8Length, utf8Length_append, hmembers, hopen, hclose]
    omega

theorem JsonTree.utf8Length_elemsText : ∀ (xs : List (JsonTree ι ν)) (first : Bool)
    {ancestors : List ι} {depth : Nat}, JsonTree.ElemsFit maxDepth ancestors depth xs →
    utf8Length (JsonTree.elemsText first xs) = JsonTree.elemsBytes first xs
  | [], _, _, _, _ => rfl
  | x :: xs, first, _, _, h => by
    have hcomma : utf8Length (if first then [] else [',']) = if first then 0 else 1 := by
      cases first <;> rfl
    rw [JsonTree.elemsText, JsonTree.elemsBytes, utf8Length_append, utf8Length_append, hcomma,
      x.utf8Length_stringify h.1, JsonTree.utf8Length_elemsText xs false h.2, Nat.add_assoc]

theorem JsonTree.utf8Length_membersText : ∀ (ms : List (JsString × JsonTree ι ν)) (first : Bool)
    {ancestors : List ι} {depth : Nat}, JsonTree.MembersFit maxDepth ancestors depth ms →
    utf8Length (JsonTree.membersText first ms) = JsonTree.membersBytes first ms
  | [], _, _, _, _ => rfl
  | (key, x) :: ms, first, _, _, h => by
    have hcomma : utf8Length (if first then [] else [',']) = if first then 0 else 1 := by
      cases first <;> rfl
    have hcolon : ':'.utf8Size = 1 := rfl
    rw [JsonTree.membersText, JsonTree.membersBytes, utf8Length_append, utf8Length_append,
      utf8Length, utf8Length_append, hcomma, hcolon, utf8Length_quote, x.utf8Length_stringify h.1,
      JsonTree.utf8Length_membersText ms false h.2]
    omega

end

end

end Chardb.Arguments
