import Chardb.Lib.Json

/-!
# Strings of UTF-16 code units

A JavaScript string is any sequence of code units, lone surrogates included. Its JSON text spells a
pair of surrogates as one character and a lone one as an escape.
-/

namespace Chardb.Lib

/-- A string by its code units. -/
abbrev JsString : Type := List UInt16

/-- A high surrogate before a low one. -/
def isPair (high low : UInt16) : Bool :=
  55296 ≤ high.toNat && high.toNat ≤ 56319 && 56320 ≤ low.toNat && low.toNat ≤ 57343

/-- The code point of a pair. -/
def pairPoint (high low : UInt16) : Nat :=
  0x10000 + (high.toNat - 0xD800) * 0x400 + (low.toNat - 0xDC00)

/-! ## JSON text -/

def unicodeEscape (code : Nat) : List Char :=
  ['\\', 'u', hexDigit (code / 4096), hexDigit (code / 256 % 16), hexDigit (code / 16 % 16),
    hexDigit (code % 16)]

/-- A code unit on its own as a JSON string spells it. -/
def quoteUnit (unit : UInt16) : List Char :=
  let code := unit.toNat
  if code = 34 then ['\\', '"']
  else if code = 92 then ['\\', '\\']
  else if code = 8 then ['\\', 'b']
  else if code = 12 then ['\\', 'f']
  else if code = 10 then ['\\', 'n']
  else if code = 13 then ['\\', 'r']
  else if code = 9 then ['\\', 't']
  else if code < 32 then unicodeEscape code
  else if 55296 ≤ code ∧ code ≤ 57343 then unicodeEscape code
  else [Char.ofNat code]

def quoteUnits : JsString → List Char
  | [] => []
  | [unit] => quoteUnit unit
  | high :: low :: rest =>
    if isPair high low then Char.ofNat (pairPoint high low) :: quoteUnits rest
    else quoteUnit high ++ quoteUnits (low :: rest)

/-- A string literal. -/
def JsString.quote (s : JsString) : List Char := '"' :: (quoteUnits s ++ ['"'])

/-! ## Bytes -/

/-- The length of a text in UTF-8. -/
def utf8Length : List Char → Nat
  | [] => 0
  | c :: cs => c.utf8Size + utf8Length cs

theorem utf8Length_append (cs ds : List Char) :
    utf8Length (cs ++ ds) = utf8Length cs + utf8Length ds := by
  induction cs with
  | nil => simp [utf8Length]
  | cons c cs ih => rw [List.cons_append, utf8Length, utf8Length, ih, Nat.add_assoc]

/-- The bytes of a code unit on its own in a JSON string. -/
def unitBytes (unit : UInt16) : Nat :=
  let code := unit.toNat
  if code = 34 ∨ code = 92 ∨ code = 8 ∨ code = 9 ∨ code = 10 ∨ code = 12 ∨ code = 13 then 2
  else if code ≤ 31 then 6
  else if code ≤ 127 then 1
  else if code ≤ 2047 then 2
  else if 55296 ≤ code ∧ code ≤ 57343 then 6
  else 3

def unitsBytes : JsString → Nat
  | [] => 0
  | [unit] => unitBytes unit
  | high :: low :: rest =>
    if isPair high low then 4 + unitsBytes rest else unitBytes high + unitsBytes (low :: rest)

theorem utf8Size_ofNat {n : Nat} (h : n.isValidChar) :
    (Char.ofNat n).utf8Size =
      if n ≤ 127 then 1 else if n ≤ 2047 then 2 else if n ≤ 65535 then 3 else 4 := by
  have hval : (Char.ofNat n).val.toNat = n := by
    rw [Char.ofNat, dif_pos h]
    rfl
  unfold Char.utf8Size
  simp only [UInt32.le_iff_toNat_le, hval]
  rfl

theorem utf8Size_hexDigit : ∀ n < 16, (hexDigit n).utf8Size = 1 := by decide

theorem utf8Length_unicodeEscape {code : Nat} (h : code < 65536) :
    utf8Length (unicodeEscape code) = 6 := by
  have hfirst := utf8Size_hexDigit (code / 4096) (by omega)
  have hsecond := utf8Size_hexDigit (code / 256 % 16) (by omega)
  have hthird := utf8Size_hexDigit (code / 16 % 16) (by omega)
  have hfourth := utf8Size_hexDigit (code % 16) (by omega)
  simp only [unicodeEscape, utf8Length, hfirst, hsecond, hthird, hfourth]
  rfl

theorem utf8Length_quoteUnit (unit : UInt16) : utf8Length (quoteUnit unit) = unitBytes unit := by
  have hlt : unit.toNat < 65536 := unit.toNat_lt
  unfold quoteUnit unitBytes
  generalize unit.toNat = code at hlt
  dsimp only
  by_cases hescaped : code = 34 ∨ code = 92 ∨ code = 8 ∨ code = 9 ∨ code = 10 ∨ code = 12 ∨ code = 13
  · rw [if_pos hescaped]
    rcases hescaped with rfl | rfl | rfl | rfl | rfl | rfl | rfl <;> rfl
  · rw [if_neg hescaped]
    simp only [not_or] at hescaped
    obtain ⟨h₃₄, h₉₂, h₈, h₉, h₁₀, h₁₂, h₁₃⟩ := hescaped
    rw [if_neg h₃₄, if_neg h₉₂, if_neg h₈, if_neg h₁₂, if_neg h₁₀, if_neg h₁₃, if_neg h₉]
    by_cases hcontrol : code < 32
    · have hle : code ≤ 31 := by omega
      rw [if_pos hcontrol, if_pos hle, utf8Length_unicodeEscape hlt]
    · have hgt : ¬code ≤ 31 := by omega
      rw [if_neg hcontrol, if_neg hgt]
      by_cases hsurrogate : 55296 ≤ code ∧ code ≤ 57343
      · have hlarge : ¬code ≤ 127 ∧ ¬code ≤ 2047 := by omega
        rw [if_pos hsurrogate, if_neg hlarge.1, if_neg hlarge.2, if_pos hsurrogate,
          utf8Length_unicodeEscape hlt]
      · have hvalid : code.isValidChar := by
          unfold Nat.isValidChar
          omega
        have hle : code ≤ 65535 := by omega
        rw [if_neg hsurrogate, if_neg hsurrogate, utf8Length, utf8Length, utf8Size_ofNat hvalid,
          Nat.add_zero, if_pos hle]

theorem utf8Size_pair {high low : UInt16} (h : isPair high low = true) :
    (Char.ofNat (pairPoint high low)).utf8Size = 4 := by
  simp only [isPair, Bool.and_eq_true, decide_eq_true_eq] at h
  have hvalid : (pairPoint high low).isValidChar := by
    unfold pairPoint Nat.isValidChar
    omega
  rw [utf8Size_ofNat hvalid, if_neg, if_neg, if_neg] <;> unfold pairPoint <;> omega

theorem utf8Length_quoteUnits (s : JsString) : utf8Length (quoteUnits s) = unitsBytes s := by
  induction s using quoteUnits.induct with
  | case1 => rfl
  | case2 unit => exact utf8Length_quoteUnit unit
  | case3 high low rest h ih =>
    rw [quoteUnits, unitsBytes, if_pos h, if_pos h, utf8Length, utf8Size_pair h, ih]
  | case4 high low rest h ih =>
    rw [quoteUnits, unitsBytes, if_neg h, if_neg h, utf8Length_append, utf8Length_quoteUnit, ih]

theorem utf8Length_quote (s : JsString) : utf8Length s.quote = 2 + unitsBytes s := by
  have hquote : utf8Length ['"'] = 1 := rfl
  have hsize : '"'.utf8Size = 1 := rfl
  rw [JsString.quote, utf8Length, utf8Length_append, utf8Length_quoteUnits, hquote, hsize]
  omega

theorem utf8Size_numberChar {c : Char} (h : isNumberChar c = true) : c.utf8Size = 1 := by
  have hle : c.toNat ≤ 127 := by
    simp only [isNumberChar, Bool.or_eq_true, beq_iff_eq] at h
    rcases h with ((((h | rfl) | rfl) | rfl) | rfl) | rfl
    · have := (Bool.and_eq_true_iff.mp h).2
      have h57 : c.toNat ≤ 57 := of_decide_eq_true this
      omega
    all_goals decide
  unfold Char.utf8Size
  exact if_pos hle

theorem utf8Length_number {cs : List Char} (h : ∀ c ∈ cs, isNumberChar c = true) :
    utf8Length cs = cs.length := by
  induction cs with
  | nil => rfl
  | cons c cs ih =>
    obtain ⟨hc, hcs⟩ := List.forall_mem_cons.mp h
    rw [utf8Length, utf8Size_numberChar hc, ih hcs, List.length_cons, Nat.add_comm]

end Chardb.Lib
