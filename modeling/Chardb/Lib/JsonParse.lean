import Chardb.Lib.Json

/-!
# Reading JSON text

`Json.parse` is `JSON.parse`: a recursive descent over the characters, bounded by the
length of the text. It reads back the text of every exact value (`Json.parse_toText`).
-/

namespace Chardb.Lib

variable {ν : Type} [JsNumber ν]

/-! ## The parser -/

def isJsonSpace (c : Char) : Bool := c == ' ' || c == '\n' || c == '\r' || c == '\t'

def skipSpace (cs : List Char) : List Char := cs.dropWhile isJsonSpace

def hexVal? (c : Char) : Option Nat :=
  if '0' ≤ c ∧ c ≤ '9' then some (c.toNat - 48)
  else if 'a' ≤ c ∧ c ≤ 'f' then some (c.toNat - 87)
  else if 'A' ≤ c ∧ c ≤ 'F' then some (c.toNat - 55)
  else none

/-- The code unit of `\uXXXX`. -/
def hexUnit? (a b c d : Char) : Option Nat := do
  let a ← hexVal? a
  let b ← hexVal? b
  let c ← hexVal? c
  let d ← hexVal? d
  some (((a * 16 + b) * 16 + c) * 16 + d)

def unescape? : Char → Option Nat
  | '"' => some 34
  | '\\' => some 92
  | '/' => some 47
  | 'b' => some 8
  | 'f' => some 12
  | 'n' => some 10
  | 'r' => some 13
  | 't' => some 9
  | _ => none

/-- The code units of a string literal after its opening quote, and what follows it. -/
def stringUnits : List Char → Option (List Nat × List Char)
  | [] => none
  | '"' :: rest => some ([], rest)
  | '\\' :: 'u' :: a :: b :: c :: d :: rest => do
    let u ← hexUnit? a b c d
    let (us, rest) ← stringUnits rest
    some (u :: us, rest)
  | '\\' :: e :: rest => do
    let u ← unescape? e
    let (us, rest) ← stringUnits rest
    some (u :: us, rest)
  | c :: rest => do
    if c.toNat < 32 ∨ c = '\\' then none
    let (us, rest) ← stringUnits rest
    some (c.toNat :: us, rest)

def isHighSurrogate (u : Nat) : Bool := 0xD800 ≤ u && u < 0xDC00

def isLowSurrogate (u : Nat) : Bool := 0xDC00 ≤ u && u < 0xE000

/-- The characters of code units after a high surrogate that still waits for its partner; a
surrogate without a partner reads as U+FFFD. -/
def joinUnits : Option Nat → List Nat → List Char
  | waiting, [] => waiting.toList.map fun _ => Char.ofNat 0xFFFD
  | some h, u :: us =>
    if isLowSurrogate u then
      Char.ofNat (0x10000 + (h - 0xD800) * 0x400 + (u - 0xDC00)) :: joinUnits none us
    else if isHighSurrogate u then Char.ofNat 0xFFFD :: joinUnits (some u) us
    else Char.ofNat 0xFFFD :: Char.ofNat u :: joinUnits none us
  | none, u :: us =>
    if isHighSurrogate u then joinUnits (some u) us
    else Char.ofNat (if isLowSurrogate u then 0xFFFD else u) :: joinUnits none us

def parseString (cs : List Char) : Option (String × List Char) :=
  (stringUnits cs).map fun (us, rest) => (String.ofList (joinUnits none us), rest)

def parseNumber (cs : List Char) : Option (Json ν × List Char) :=
  (JsNumber.ofText (cs.takeWhile isNumberChar)).map fun n =>
    (.num n, cs.dropWhile isNumberChar)

/-- An array after its bracket: empty, or with these elements. -/
def parseArray (cs : List Char) (elems : Option (List (Json ν) × List Char)) :
    Option (Json ν × List Char) :=
  match skipSpace cs with
  | ']' :: rest => some (.arr [], rest)
  | _ => elems.map fun (xs, rest) => (.arr xs, rest)

/-- An object after its brace: empty, or with these members. -/
def parseObject (cs : List Char) (members : Option (List (String × Json ν) × List Char)) :
    Option (Json ν × List Char) :=
  match skipSpace cs with
  | '}' :: rest => some (.obj [], rest)
  | _ => members.map fun (ms, rest) => (.obj (ownMembers ms), rest)

mutual

/-- A value, and what follows it. -/
def parseValue : Nat → List Char → Option (Json ν × List Char)
  | 0, _ => none
  | fuel + 1, cs =>
    match skipSpace cs with
    | 'n' :: 'u' :: 'l' :: 'l' :: rest => some (.null, rest)
    | 't' :: 'r' :: 'u' :: 'e' :: rest => some (.bool true, rest)
    | 'f' :: 'a' :: 'l' :: 's' :: 'e' :: rest => some (.bool false, rest)
    | '"' :: rest => (parseString rest).map fun (s, rest) => (.str s, rest)
    | '[' :: rest => parseArray rest (parseElems fuel rest)
    | '{' :: rest => parseObject rest (parseMembers fuel rest)
    | cs => parseNumber cs

/-- Elements up to the closing bracket. -/
def parseElems : Nat → List Char → Option (List (Json ν) × List Char)
  | 0, _ => none
  | fuel + 1, cs => do
    let (x, rest) ← parseValue fuel cs
    match skipSpace rest with
    | ',' :: rest => (parseElems fuel rest).map fun (xs, rest) => (x :: xs, rest)
    | ']' :: rest => some ([x], rest)
    | _ => none

/-- Members up to the closing brace, as they stand in the text. -/
def parseMembers : Nat → List Char → Option (List (String × Json ν) × List Char)
  | 0, _ => none
  | fuel + 1, cs =>
    match skipSpace cs with
    | '"' :: cs => do
      let (k, rest) ← parseString cs
      match skipSpace rest with
      | ':' :: rest => do
        let (v, rest) ← parseValue fuel rest
        match skipSpace rest with
        | ',' :: rest => (parseMembers fuel rest).map fun (ms, rest) => ((k, v) :: ms, rest)
        | '}' :: rest => some ([(k, v)], rest)
        | _ => none
      | _ => none
    | _ => none

end

/-- `JSON.parse`; `none` is a syntax error. -/
def Json.parse (s : String) : Option (Json ν) :=
  match parseValue (2 * s.toList.length + 1) s.toList with
  | some (j, rest) => if skipSpace rest = [] then some j else none
  | none => none

/-! ## Strings -/

theorem hexVal?_hexDigit : ∀ n < 16, hexVal? (hexDigit n) = some n := by decide

theorem hexUnit?_control {n : Nat} (h : n < 32) :
    hexUnit? '0' '0' (hexDigit (n / 16)) (hexDigit (n % 16)) = some n := by
  have h₀ : hexVal? '0' = some 0 := by decide
  simp only [hexUnit?, h₀, hexVal?_hexDigit (n / 16) (by omega), hexVal?_hexDigit (n % 16) (by omega)]
  show some _ = some n
  congr 1; omega

/-- A quoted character is read as its code. -/
theorem stringUnits_quoteChar (c : Char) (cs : List Char) :
    stringUnits (quoteChar c ++ cs) = (stringUnits cs).map fun p => (c.toNat :: p.1, p.2) := by
  have hcode : ∀ d : Char, c.toNat = d.toNat → c = d := fun d h => Char.toNat_inj.mp h
  have hesc : ∀ e n, e ≠ 'u' → unescape? e = some n →
      stringUnits ('\\' :: e :: cs) = (stringUnits cs).map fun p => (n :: p.1, p.2) := by
    intro e n he hn
    rw [stringUnits.eq_def]
    cases hs : stringUnits cs <;> simp_all
  unfold quoteChar
  split
  · subst_vars; exact hesc '"' 34 (by decide) rfl
  split
  · subst_vars; exact hesc '\\' 92 (by decide) rfl
  split
  · rename_i h; rw [h]; exact hesc 'b' 8 (by decide) rfl
  split
  · rename_i h; rw [h]; exact hesc 'f' 12 (by decide) rfl
  split
  · rename_i h; rw [h]; exact hesc 'n' 10 (by decide) rfl
  split
  · rename_i h; rw [h]; exact hesc 'r' 13 (by decide) rfl
  split
  · rename_i h; rw [h]; exact hesc 't' 9 (by decide) rfl
  split
  · rename_i h
    show stringUnits ('\\' :: 'u' :: '0' :: '0' :: _ :: _ :: cs) = _
    rw [stringUnits.eq_def]
    cases hs : stringUnits cs <;> simp [hexUnit?_control h, hs]
  · rename_i hq hb _ _ _ _ _ hlt
    show stringUnits (c :: cs) = _
    rw [stringUnits.eq_def]
    cases hs : stringUnits cs <;> simp_all

theorem stringUnits_quote (cs rest : List Char) :
    stringUnits (cs.flatMap quoteChar ++ '"' :: rest) = some (cs.map Char.toNat, rest) := by
  induction cs with
  | nil => rw [List.flatMap_nil, List.nil_append, stringUnits.eq_def]; rfl
  | cons c cs ih =>
    rw [List.flatMap_cons, List.append_assoc, stringUnits_quoteChar, ih]; rfl

theorem joinUnits_toNat (cs : List Char) : joinUnits none (cs.map Char.toNat) = cs := by
  induction cs with
  | nil => rfl
  | cons c cs ih =>
    have hc : isHighSurrogate c.toNat = false ∧ isLowSurrogate c.toNat = false := by
      have hval : c.toNat = c.val.toNat := rfl
      rcases c.valid with h | h <;> constructor <;>
        simp only [isHighSurrogate, isLowSurrogate, hval, Bool.and_eq_false_iff,
          decide_eq_false_iff_not] <;> omega
    rw [List.map_cons, joinUnits, hc.1, hc.2, ih]
    simp

theorem parseString_quote (s : String) (rest : List Char) :
    parseString (s.toList.flatMap quoteChar ++ '"' :: rest) = some (s, rest) := by
  simp only [parseString, stringUnits_quote, Option.map_some, joinUnits_toNat, String.ofList_toList]

/-! ## Values -/

/-- Nothing that would lengthen a number, and no white space, comes next. -/
def Closed (cs : List Char) : Prop :=
  cs = [] ∨ ∃ c cs', cs = c :: cs' ∧ isNumberChar c = false ∧ isJsonSpace c = false

theorem closed_elemsText (xs : List (Json ν)) (rest : List Char) :
    Closed (Json.elemsText xs ++ rest) := by
  cases xs <;> exact .inr ⟨_, _, rfl, rfl, rfl⟩

theorem closed_membersText (ms : List (String × Json ν)) (rest : List Char) :
    Closed (Json.membersText ms ++ rest) := by
  rcases ms with _ | ⟨⟨k, v⟩, ms⟩ <;> exact .inr ⟨_, _, rfl, rfl, rfl⟩

theorem numberStart_not_space {c : Char} (h : isNumberStart c = true) : isJsonSpace c = false := by
  unfold isNumberStart at h
  unfold isJsonSpace
  rcases Bool.or_eq_true_iff.mp h with h | h
  · simp only [Bool.or_eq_false_iff, beq_eq_false_iff_ne]
    refine ⟨⟨⟨?_, ?_⟩, ?_⟩, ?_⟩ <;> rintro rfl <;> revert h <;> decide
  · rw [beq_iff_eq.mp h]; rfl

/-- A number literal is read whole. -/
theorem parseNumber_text {n : ν} {rest : List Char} (hn : JsNumber.exact n = true)
    (hrest : Closed rest) : parseNumber (JsNumber.text n ++ rest) = some (.num n, rest) := by
  obtain ⟨hf, hz⟩ : JsNumber.isFinite n = true ∧ JsNumber.isNegZero n = false := by
    simpa [JsNumber.exact] using hn
  have hall := JsNumber.text_chars n hf
  have htake : (JsNumber.text n ++ rest).takeWhile isNumberChar = JsNumber.text n := by
    rw [List.takeWhile_append_of_pos hall]
    rcases hrest with rfl | ⟨c, cs, rfl, hc, -⟩
    · simp
    · rw [List.takeWhile_cons_of_neg (by simp [hc]), List.append_nil]
  have hdrop : (JsNumber.text n ++ rest).dropWhile isNumberChar = rest := by
    rw [List.dropWhile_append_of_pos hall]
    rcases hrest with rfl | ⟨c, cs, rfl, hc, -⟩
    · rfl
    · rw [List.dropWhile_cons_of_neg (by simp [hc])]
  rw [parseNumber, htake, hdrop, JsNumber.ofText_text n hf hz]; rfl

/-- A number literal sends the parser to `parseNumber`. -/
theorem parseValue_number {fuel : Nat} {c : Char} {cs : List Char} (hc : isNumberStart c = true) :
    (parseValue (fuel + 1) (c :: cs) : Option (Json ν × List Char)) = parseNumber (c :: cs) := by
  have hne : ∀ d, isNumberStart d = false → c ≠ d := fun d hd he => by rw [he, hd] at hc; cases hc
  have hn := hne 'n' rfl
  have ht := hne 't' rfl
  have hf := hne 'f' rfl
  have hq := hne '"' rfl
  have ha := hne '[' rfl
  have ho := hne '{' rfl
  rw [parseValue, skipSpace, List.dropWhile_cons_of_neg (by simp [numberStart_not_space hc])]
  split <;> simp_all

/-- The text of a value starts with a character that decides how to go on. -/
theorem stringify_start (j : Json ν) :
    ∃ c cs, j.stringify = c :: cs ∧ isJsonSpace c = false ∧ c ≠ ']' := by
  cases j with
  | null => exact ⟨_, _, rfl, rfl, by decide⟩
  | bool b => cases b <;> exact ⟨_, _, rfl, rfl, by decide⟩
  | num n =>
    rw [Json.stringify, Json.numText]
    split
    · rename_i hf
      obtain ⟨c, cs, ht, hc⟩ := JsNumber.text_start n hf
      exact ⟨c, cs, ht, numberStart_not_space hc, fun he => by rw [he] at hc; cases hc⟩
    · exact ⟨_, _, rfl, rfl, by decide⟩
  | str s => exact ⟨_, _, rfl, rfl, by decide⟩
  | arr xs => cases xs <;> exact ⟨_, _, rfl, rfl, by decide⟩
  | obj ms => rcases ms with _ | ⟨⟨k, v⟩, ms⟩ <;> exact ⟨_, _, rfl, rfl, by decide⟩

/-- The elements of an array after its bracket. -/
def Json.elemsBody : List (Json ν) → List Char
  | [] => [']']
  | x :: xs => x.stringify ++ Json.elemsText xs

/-- The members of an object after its brace. -/
def Json.membersBody : List (String × Json ν) → List Char
  | [] => ['}']
  | (k, v) :: ms => quote k ++ ':' :: (v.stringify ++ Json.membersText ms)

theorem parseValue_arr {fuel : Nat} {cs : List Char} {x : Json ν} {xs ys : List (Json ν)}
    {rest : List Char} (h : parseElems fuel (Json.elemsBody (x :: xs) ++ cs) = some (ys, rest)) :
    parseValue (fuel + 1) ('[' :: (Json.elemsBody (x :: xs) ++ cs)) = some (.arr ys, rest) := by
  obtain ⟨c, tl, hx, hspace, hne⟩ := stringify_start x
  have hbody : Json.elemsBody (x :: xs) ++ cs = c :: (tl ++ Json.elemsText xs ++ cs) := by
    simp [Json.elemsBody, hx]
  show parseArray _ (parseElems fuel (Json.elemsBody (x :: xs) ++ cs)) = _
  rw [h, hbody, parseArray, skipSpace, List.dropWhile_cons_of_neg (by simp [hspace])]
  split
  · rename_i heq; cases heq; exact absurd rfl hne
  · rfl

mutual

/-- The parser reads the text of an exact value back, if it has fuel for it. -/
theorem parseValue_stringify : ∀ (j : Json ν) (fuel : Nat) (rest : List Char), j.Exact →
    Closed rest → 2 * j.stringify.length ≤ fuel →
      parseValue fuel (j.stringify ++ rest) = some (j, rest)
  | j, 0, rest, _, _, hl => by
    obtain ⟨c, cs, hs, -⟩ := stringify_start j
    rw [hs, List.length_cons] at hl; omega
  | .null, fuel + 1, rest, _, _, _ => rfl
  | .bool true, fuel + 1, rest, _, _, _ => rfl
  | .bool false, fuel + 1, rest, _, _, _ => rfl
  | .num n, fuel + 1, rest, hj, hrest, _ => by
    have hn : JsNumber.exact n = true := by simpa [Json.Exact] using hj
    have hf : JsNumber.isFinite n = true := by
      rw [JsNumber.exact, Bool.and_eq_true] at hn; exact hn.1
    obtain ⟨c, cs, ht, hc⟩ := JsNumber.text_start n hf
    have := parseNumber_text hn hrest
    rw [Json.stringify, Json.numText, if_pos hf]
    rw [ht] at this ⊢
    rw [List.cons_append, parseValue_number hc]; exact this
  | .str s, fuel + 1, rest, _, _, _ => by
    rw [Json.stringify, quote, List.cons_append, List.append_assoc]
    show (parseString _).map _ = _
    rw [List.singleton_append, parseString_quote]; rfl
  | .arr [], fuel + 1, rest, _, _, _ => rfl
  | .arr (x :: xs), fuel + 1, rest, hj, hrest, hl => by
    have hx : Json.ElemsExact (x :: xs) := by simpa [Json.Exact] using hj
    have hl : 2 * (Json.elemsBody (x :: xs)).length < fuel := by
      rw [Json.stringify] at hl; simp [Json.elemsBody] at hl ⊢; omega
    exact parseValue_arr (parseElems_body (x :: xs) fuel rest hx (by simp) hl)
  | .obj [], fuel + 1, rest, _, _, _ => rfl
  | .obj ((k, v) :: ms), fuel + 1, rest, hj, hrest, hl => by
    obtain ⟨hkeys, hms⟩ : OwnKeys (((k, v) :: ms).map Prod.fst) ∧
        Json.MembersExact ((k, v) :: ms) := by simpa [Json.Exact] using hj
    have hl : 2 * (Json.membersBody ((k, v) :: ms)).length < fuel := by
      rw [Json.stringify] at hl; simp [Json.membersBody] at hl ⊢; omega
    have h := parseMembers_body ((k, v) :: ms) fuel rest hms (by simp) hl
    show (parseMembers fuel (Json.membersBody ((k, v) :: ms) ++ rest)).map
      (fun p => (Json.obj (ownMembers p.1), p.2)) = _
    rw [h, Option.map_some, ownMembers_eq hkeys]

theorem parseElems_body : ∀ (xs : List (Json ν)) (fuel : Nat) (rest : List Char),
    Json.ElemsExact xs → xs ≠ [] → 2 * (Json.elemsBody xs).length < fuel →
      parseElems fuel (Json.elemsBody xs ++ rest) = some (xs, rest)
  | [], _, _, _, hne, _ => absurd rfl hne
  | _ :: _, 0, _, _, _, hl => by omega
  | x :: xs, fuel + 1, rest, hx, _, hl => by
    obtain ⟨hx, hxs⟩ : x.Exact ∧ Json.ElemsExact xs := by simpa [Json.ElemsExact] using hx
    rw [Json.elemsBody, List.length_append] at hl
    have hv := parseValue_stringify x fuel (Json.elemsText xs ++ rest) hx
      (closed_elemsText xs rest) (by omega)
    rw [parseElems, Json.elemsBody, List.append_assoc, hv]
    cases xs with
    | nil => rfl
    | cons y ys =>
      have h := parseElems_body (y :: ys) fuel rest hxs (by simp) (by
        rw [Json.elemsText, List.length_cons] at hl; simp [Json.elemsBody] at hl ⊢; omega)
      show (parseElems fuel (Json.elemsBody (y :: ys) ++ rest)).map (fun p => (x :: p.1, p.2)) = _
      rw [h]; rfl

theorem parseMembers_body : ∀ (ms : List (String × Json ν)) (fuel : Nat) (rest : List Char),
    Json.MembersExact ms → ms ≠ [] → 2 * (Json.membersBody ms).length < fuel →
      parseMembers fuel (Json.membersBody ms ++ rest) = some (ms, rest)
  | [], _, _, _, hne, _ => absurd rfl hne
  | _ :: _, 0, _, _, _, hl => by omega
  | (k, v) :: ms, fuel + 1, rest, hms, _, hl => by
    obtain ⟨hv, hms⟩ : v.Exact ∧ Json.MembersExact ms := by simpa [Json.MembersExact] using hms
    have hlen : 2 * (v.stringify.length + (Json.membersText ms).length + 2) < fuel + 1 := by
      simp [Json.membersBody, quote] at hl; omega
    have hval := parseValue_stringify v fuel (Json.membersText ms ++ rest) hv
      (closed_membersText ms rest) (by omega)
    have hbody : Json.membersBody ((k, v) :: ms) ++ rest =
        '"' :: (k.toList.flatMap quoteChar ++ '"' ::
          ':' :: (v.stringify ++ (Json.membersText ms ++ rest))) := by
      simp [Json.membersBody, quote]
    rw [parseMembers, hbody]
    show (parseString _ >>= _) = _
    rw [parseString_quote]
    show (parseValue fuel (v.stringify ++ (Json.membersText ms ++ rest)) >>= _) = _
    rw [hval]
    cases ms with
    | nil => rfl
    | cons m ms =>
      have h := parseMembers_body (m :: ms) fuel rest hms (by simp) (by
        rw [Json.membersText, List.length_cons] at hlen; simp [Json.membersBody] at hlen ⊢; omega)
      show (parseMembers fuel (Json.membersBody (m :: ms) ++ rest)).map
        (fun p => ((k, v) :: p.1, p.2)) = _
      rw [h]; rfl

end

/-- `JSON.parse` undoes `JSON.stringify` on exact values. -/
theorem Json.parse_toText {j : Json ν} (h : j.Exact) : Json.parse j.toText = some j := by
  have := parseValue_stringify j (2 * j.stringify.length + 1) [] h (.inl rfl) (by omega)
  rw [List.append_nil] at this
  simp only [Json.parse, Json.toText, String.toList_ofList, this]
  rfl

end Chardb.Lib
