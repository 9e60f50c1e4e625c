import Mathlib.Data.List.TakeWhile
import Mathlib.Data.Nat.Digits.Lemmas
import Mathlib.Tactic.Common

/-!
# JSON values and their text

`Json ν` is a JSON value with numbers in `ν`; the members of an object stand in the
order of `Object.keys`. `stringify` is `JSON.stringify` without spacing. A value is
`exact` when its text says all of it: the numbers are finite and not `-0`, and every
object has the keys a JavaScript object can have, in their order. Strings are
sequences of Unicode scalar values.
-/

namespace Chardb.Lib

/-! ## Numbers -/

/-- A character that number literals are written with. -/
def isNumberChar (c : Char) : Bool :=
  c.isDigit || c == '-' || c == '+' || c == '.' || c == 'e' || c == 'E'

/-- A character a number literal starts with. -/
def isNumberStart (c : Char) : Bool := c.isDigit || c == '-'

/-- JavaScript numbers, as far as JSON text and integers go. -/
class JsNumber (ν : Type) where
  /-- Neither infinite nor `NaN`. -/
  isFinite : ν → Bool
  isNegZero : ν → Bool
  /-- `Number.prototype.toString`. -/
  text : ν → List Char
  /-- The number of a JSON number literal. -/
  ofText : List Char → Option ν
  ofInt : Int → ν
  /-- The value of a number that `Number.isSafeInteger` accepts. -/
  toInt? : ν → Option Int
  text_start : ∀ n, isFinite n → ∃ c cs, text n = c :: cs ∧ isNumberStart c = true
  text_chars : ∀ n, isFinite n → ∀ c ∈ text n, isNumberChar c = true
  ofText_text : ∀ n, isFinite n → isNegZero n = false → ofText (text n) = some n
  ofInt_exact : ∀ i : Int, i.natAbs < 2 ^ 53 → isFinite (ofInt i) ∧ isNegZero (ofInt i) = false
  toInt?_ofInt : ∀ i : Int, i.natAbs < 2 ^ 53 → toInt? (ofInt i) = some i

/-- JSON text keeps the number. -/
def JsNumber.exact {ν : Type} [JsNumber ν] (n : ν) : Bool :=
  JsNumber.isFinite n && !JsNumber.isNegZero n

/-! ### Integers in decimal -/

def digitChar (d : Nat) : Char := Char.ofNat (d + 48)

def digitVal (c : Char) : Nat := c.toNat - 48

theorem digit_facts : ∀ d < 10, digitVal (digitChar d) = d ∧ (digitChar d).isDigit = true ∧
    (digitChar d == '-') = false := by decide

/-- The decimal digits of a natural number. -/
def natText (n : Nat) : List Char :=
  if n = 0 then ['0'] else (Nat.digits 10 n).reverse.map digitChar

def natOfText (cs : List Char) : Nat := Nat.ofDigits 10 (cs.map digitVal).reverse

theorem natText_digits (n : Nat) : ∀ c ∈ natText n, c.isDigit = true ∧ (c == '-') = false := by
  intro c hc
  unfold natText at hc
  split at hc
  · obtain rfl := List.mem_singleton.mp hc; decide
  · obtain ⟨d, hd, rfl⟩ := List.mem_map.mp hc
    exact (digit_facts d (Nat.digits_lt_base (by omega) (List.mem_reverse.mp hd))).2

theorem natText_ne_nil (n : Nat) : natText n ≠ [] := by
  unfold natText
  split
  · exact List.cons_ne_nil _ _
  · simpa using Nat.digits_ne_nil_iff_ne_zero.mpr ‹_›

theorem natOfText_natText (n : Nat) : natOfText (natText n) = n := by
  unfold natOfText natText
  split
  · subst n; rfl
  · have hdigits : ((Nat.digits 10 n).reverse.map digitChar).map digitVal =
        (Nat.digits 10 n).reverse := by
      rw [List.map_map]
      conv_rhs => rw [← List.map_id (Nat.digits 10 n).reverse]
      refine List.map_congr_left fun d hd => ?_
      exact (digit_facts d (Nat.digits_lt_base (by omega) (List.mem_reverse.mp hd))).1
    rw [hdigits, List.reverse_reverse, Nat.ofDigits_digits]

def intText (i : Int) : List Char := if i < 0 then '-' :: natText i.natAbs else natText i.natAbs

/-- An integer literal without sign or digits out of place. -/
def intOfText : List Char → Option Int
  | '-' :: cs => if cs ≠ [] ∧ cs.all Char.isDigit then some (-natOfText cs) else none
  | cs => if cs ≠ [] ∧ cs.all Char.isDigit then some (natOfText cs) else none

theorem intOfText_intText (i : Int) : intOfText (intText i) = some i := by
  have hne := natText_ne_nil i.natAbs
  have hall : (natText i.natAbs).all Char.isDigit := by
    rw [List.all_eq_true]; exact fun c hc => (natText_digits _ c hc).1
  unfold intText
  split
  · rw [intOfText, if_pos ⟨hne, hall⟩, natOfText_natText]; congr 1; omega
  · rw [intOfText.eq_def]
    split
    · rename_i cs hcs
      have := (natText_digits i.natAbs '-' (by rw [hcs]; exact List.mem_cons_self)).2
      simp at this
    · rw [if_pos ⟨hne, hall⟩, natOfText_natText]; congr 1; omega

/-- The integers alone, every one of them written out in full. -/
instance : JsNumber Int where
  isFinite _ := true
  isNegZero _ := false
  text := intText
  ofText := intOfText
  ofInt := id
  toInt? i := if i.natAbs < 2 ^ 53 then some i else none
  text_start i _ := by
    unfold intText
    split
    · exact ⟨'-', _, rfl, rfl⟩
    · cases h : natText i.natAbs with
      | nil => exact absurd h (natText_ne_nil _)
      | cons c cs =>
        refine ⟨c, cs, rfl, ?_⟩
        rw [isNumberStart, (natText_digits i.natAbs c (by rw [h]; exact List.mem_cons_self)).1]; rfl
  text_chars i _ c hc := by
    have hdigit : ∀ c ∈ natText i.natAbs, isNumberChar c = true := fun c hc => by
      rw [isNumberChar, (natText_digits _ c hc).1]; rfl
    unfold intText at hc
    split at hc
    · rcases List.mem_cons.mp hc with rfl | hc
      · rfl
      · exact hdigit c hc
    · exact hdigit c hc
  ofText_text i _ _ := intOfText_intText i
  ofInt_exact _ _ := ⟨rfl, rfl⟩
  toInt?_ofInt i h := if_pos h

/-! ## Values -/

/-- A JSON value; an object lists its members in the order of its keys. -/
inductive Json (ν : Type)
  | null
  | bool (b : Bool)
  | num (n : ν)
  | str (s : String)
  | arr (elems : List (Json ν))
  | obj (members : List (String × Json ν))

variable {ν : Type}

/-- The array index a key spells, if any. -/
def indexKey? (key : String) : Option Nat :=
  let n := natOfText key.toList
  if key.toList = natText n ∧ n < 4294967295 then some n else none

/-- `Object.keys` lists the key `a` before the key `b`, where `b` came later. -/
def keyBefore (a b : String) : Bool :=
  match indexKey? a, indexKey? b with
  | some i, some j => i < j
  | none, some _ => false
  | _, none => true

/-- Define a property: a key keeps its place, a new index key goes among the index keys. -/
def defineKey {α : Type} (members : List (String × α)) (m : String × α) : List (String × α) :=
  if m.1 ∈ members.map Prod.fst then members.map fun x => if x.1 = m.1 then m else x
  else members.takeWhile (fun x => keyBefore x.1 m.1) ++
    m :: members.dropWhile fun x => keyBefore x.1 m.1

/-- The own properties of an object defined in this order. -/
def ownMembers {α : Type} (members : List (String × α)) : List (String × α) :=
  members.foldl defineKey []

/-- The keys of some object, in their order. -/
def OwnKeys (keys : List String) : Prop := keys.Pairwise fun a b => a ≠ b ∧ keyBefore a b

instance (keys : List String) : Decidable (OwnKeys keys) :=
  inferInstanceAs (Decidable (keys.Pairwise _))

theorem ownMembers_eq {α : Type} {members : List (String × α)}
    (h : OwnKeys (members.map Prod.fst)) : ownMembers members = members := by
  have key : ∀ rest done : List (String × α), OwnKeys ((done ++ rest).map Prod.fst) →
      rest.foldl defineKey done = done ++ rest := by
    intro rest
    induction rest with
    | nil => simp
    | cons m rest ih =>
      intro done h
      have hlast : ∀ x ∈ done, x.1 ≠ m.1 ∧ keyBefore x.1 m.1 = true := by
        intro x hx
        rw [List.map_append] at h
        exact (List.pairwise_append.mp h).2.2 _ (List.mem_map_of_mem hx) _ (by simp)
      have hdef : defineKey done m = done ++ [m] := by
        unfold defineKey
        rw [if_neg, List.takeWhile_eq_self_iff.mpr fun x hx => (hlast x hx).2,
          List.dropWhile_eq_nil_iff.mpr fun x hx => (hlast x hx).2]
        intro hm
        obtain ⟨x, hx, he⟩ := List.mem_map.mp hm
        exact (hlast x hx).1 he
      rw [List.foldl_cons, hdef, ih _ (by simpa using h), List.append_assoc, List.singleton_append]
  exact key members [] h

/-! ## Text -/

def hexDigit (n : Nat) : Char :=
  if n < 10 then Char.ofNat (n + 48) else Char.ofNat (n + 87)

/-- A character as a JSON string spells it. -/
def quoteChar (c : Char) : List Char :=
  if c = '"' then ['\\', '"']
  else if c = '\\' then ['\\', '\\']
  else if c.toNat = 8 then ['\\', 'b']
  else if c.toNat = 12 then ['\\', 'f']
  else if c.toNat = 10 then ['\\', 'n']
  else if c.toNat = 13 then ['\\', 'r']
  else if c.toNat = 9 then ['\\', 't']
  else if c.toNat < 32 then
    ['\\', 'u', '0', '0', hexDigit (c.toNat / 16), hexDigit (c.toNat % 16)]
  else [c]

/-- A string literal. -/
def quote (s : String) : List Char := '"' :: (s.toList.flatMap quoteChar ++ ['"'])

variable [JsNumber ν]

def Json.numText (n : ν) : List Char :=
  if JsNumber.isFinite n then JsNumber.text n else ['n', 'u', 'l', 'l']

mutual

/-- `JSON.stringify`. -/
def Json.stringify : Json ν → List Char
  | .null => ['n', 'u', 'l', 'l']
  | .bool true => ['t', 'r', 'u', 'e']
  | .bool false => ['f', 'a', 'l', 's', 'e']
  | .num n => Json.numText n
  | .str s => quote s
  | .arr [] => ['[', ']']
  | .arr (x :: xs) => '[' :: (x.stringify ++ Json.elemsText xs)
  | .obj [] => ['{', '}']
  | .obj ((k, v) :: ms) => '{' :: (quote k ++ ':' :: (v.stringify ++ Json.membersText ms))

/-- The rest of an array after an element. -/
def Json.elemsText : List (Json ν) → List Char
  | [] => [']']
  | x :: xs => ',' :: (x.stringify ++ Json.elemsText xs)

/-- The rest of an object after a member. -/
def Json.membersText : List (String × Json ν) → List Char
  | [] => ['}']
  | (k, v) :: ms => ',' :: (quote k ++ ':' :: (v.stringify ++ Json.membersText ms))

end

mutual

/-- The text says all of the value. -/
def Json.Exact : Json ν → Prop
  | .num n => JsNumber.exact n = true
  | .arr xs => Json.ElemsExact xs
  | .obj ms => OwnKeys (ms.map Prod.fst) ∧ Json.MembersExact ms
  | _ => True

def Json.ElemsExact : List (Json ν) → Prop
  | [] => True
  | x :: xs => x.Exact ∧ Json.ElemsExact xs

def Json.MembersExact : List (String × Json ν) → Prop
  | [] => True
  | (_, v) :: ms => v.Exact ∧ Json.MembersExact ms

end

/-- `JSON.stringify` as a string. -/
def Json.toText (j : Json ν) : String := String.ofList j.stringify

mutual

/-- `String(value)`. -/
def Json.display : Json ν → List Char
  | .str s => s.toList
  | .num n => JsNumber.text n
  | .arr [] => []
  | .arr (x :: xs) => x.displayElem ++ Json.displayTail xs
  | .obj _ => "[object Object]".toList
  | j => j.stringify

/-- An array joins its elements, `null` as nothing. -/
def Json.displayElem : Json ν → List Char
  | .null => []
  | .bool b => (Json.bool b : Json ν).stringify
  | .str s => s.toList
  | .num n => JsNumber.text n
  | .arr [] => []
  | .arr (x :: xs) => x.displayElem ++ Json.displayTail xs
  | .obj _ => "[object Object]".toList

def Json.displayTail : List (Json ν) → List Char
  | [] => []
  | x :: xs => ',' :: (x.displayElem ++ Json.displayTail xs)

end

/-- An integer as a number. -/
def Json.int (i : Int) : Json ν := .num (JsNumber.ofInt i)

theorem Json.int_exact {i : Int} (h : i.natAbs < 2 ^ 53) : (Json.int i : Json ν).Exact := by
  obtain ⟨h₀, h₁⟩ := JsNumber.ofInt_exact (ν := ν) i h
  simp [Json.int, Json.Exact, JsNumber.exact, h₀, h₁]

theorem str_exact (s : String) : (Json.str s : Json ν).Exact := by simp [Json.Exact]

theorem elemsExact_map {α : Type} {l : List α} {f : α → Json ν} (h : ∀ a ∈ l, (f a).Exact) :
    Json.ElemsExact (l.map f) := by
  induction l with
  | nil => trivial
  | cons a l ih =>
    rw [List.map_cons, Json.ElemsExact]
    exact ⟨h a List.mem_cons_self, ih fun b hb => h b (List.mem_cons_of_mem a hb)⟩

theorem membersExact_append {ms ms' : List (String × Json ν)} (h : Json.MembersExact ms)
    (h' : Json.MembersExact ms') : Json.MembersExact (ms ++ ms') := by
  induction ms with
  | nil => exact h'
  | cons m ms ih =>
    obtain ⟨k, v⟩ := m
    rw [Json.MembersExact] at h
    rw [List.cons_append, Json.MembersExact]
    exact ⟨h.1, ih h.2⟩

/-- The value of a member. -/
def Json.get? (members : List (String × Json ν)) (key : String) : Option (Json ν) :=
  (members.find? fun m => m.1 = key).map Prod.snd

end Chardb.Lib
