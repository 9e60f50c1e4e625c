import Mathlib.Data.List.Basic
import Mathlib.Tactic.Common

/-!
# Bytes and text

`encodeText` and `decodeText` are `TextEncoder` and `TextDecoder`, `btoa` and `atob`
base64. Both pairs round-trip; `decodeText` and `atob` are total over what they may be
given, ill-formed UTF-8 and badly padded base64 included.
-/

namespace Chardb.Lib

/-- Byte arrays are compared byte by byte. -/
instance decidableEqByteArray : DecidableEq ByteArray := fun a b =>
  decidable_of_iff (a.data = b.data) ⟨fun h => by cases a; cases b; cases h; rfl, congrArg _⟩

/-! ## UTF-8 -/

/-- `TextEncoder.encode`. -/
def encodeText (s : String) : ByteArray := s.toByteArray

/-- The continuation bytes a lead byte asks for, and the range of the first of them. -/
def leadByte? (x : UInt8) : Option (Nat × UInt8 × UInt8) :=
  if 0xC2 ≤ x ∧ x ≤ 0xDF then some (1, 0x80, 0xBF)
  else if x = 0xE0 then some (2, 0xA0, 0xBF)
  else if x = 0xED then some (2, 0x80, 0x9F)
  else if 0xE1 ≤ x ∧ x ≤ 0xEF then some (2, 0x80, 0xBF)
  else if x = 0xF0 then some (3, 0x90, 0xBF)
  else if x = 0xF4 then some (3, 0x80, 0x8F)
  else if 0xF1 ≤ x ∧ x ≤ 0xF3 then some (3, 0x80, 0xBF)
  else none

/-- Whether the byte at `i` lies in a range. -/
def byteIn (b : ByteArray) (i : Nat) (lo hi : UInt8) : Bool :=
  match b.data[i]? with
  | some x => lo ≤ x && x ≤ hi
  | none => false

/-- The length of the ill-formed sequence at `i` that one replacement character stands for. -/
def illFormedLength (b : ByteArray) (i : Nat) : Nat :=
  match b.data[i]?.bind leadByte? with
  | none => 1
  | some (n, lo, hi) =>
    if n < 2 || !byteIn b (i + 1) lo hi then 1
    else if n < 3 || !byteIn b (i + 2) 0x80 0xBF then 2
    else 3

/-- Decode from `i` on, with U+FFFD for what is ill-formed. -/
def decodeLossy (b : ByteArray) : Nat → Nat → List Char
  | 0, _ => []
  | fuel + 1, i =>
    if i < b.size then
      match b.utf8DecodeChar? i with
      | some c => c :: decodeLossy b fuel (i + c.utf8Size)
      | none => Char.ofNat 0xFFFD :: decodeLossy b fuel (i + illFormedLength b i)
    else []

/-- Drop a leading byte order mark. -/
def stripBom (s : String) : String :=
  match s.toList with
  | c :: cs => if c = Char.ofNat 0xFEFF then String.ofList cs else s
  | [] => s

/-- `TextDecoder.decode`. -/
def decodeText (b : ByteArray) : String :=
  match String.fromUTF8? b with
  | some s => stripBom s
  | none => stripBom (String.ofList (decodeLossy b b.size 0))

/-- Text without a byte order mark survives the trip through bytes. -/
theorem decodeText_encodeText {s : String} (h : s.toList.head? ≠ some (Char.ofNat 0xFEFF)) :
    decodeText (encodeText s) = s := by
  have hdec : String.fromUTF8? (encodeText s) = some s := by
    rw [String.fromUTF8?, dif_pos (show (encodeText s).IsValidUTF8 from s.isValidUTF8)]; rfl
  rw [decodeText, hdec]
  show stripBom s = s
  unfold stripBom
  split
  · rename_i hs
    rw [if_neg]; rintro rfl; rw [hs] at h; exact h rfl
  · rfl

theorem encodeText_size_pos {s : String} (h : s ≠ "") : 0 < (encodeText s).size := by
  rw [encodeText, String.size_toByteArray]
  exact Nat.pos_of_ne_zero (mt String.utf8ByteSize_eq_zero_iff.mp h)

/-! ## Base64 -/

def base64Char (n : Nat) : Char :=
  if n < 26 then Char.ofNat (n + 65)
  else if n < 52 then Char.ofNat (n + 71)
  else if n < 62 then Char.ofNat (n - 4)
  else if n = 62 then '+'
  else '/'

def base64Val? (c : Char) : Option Nat :=
  if 'A' ≤ c ∧ c ≤ 'Z' then some (c.toNat - 65)
  else if 'a' ≤ c ∧ c ≤ 'z' then some (c.toNat - 71)
  else if '0' ≤ c ∧ c ≤ '9' then some (c.toNat + 4)
  else if c = '+' then some 62
  else if c = '/' then some 63
  else none

theorem base64Val?_char : ∀ n < 64, base64Val? (base64Char n) = some n := by decide

/-- Bytes in groups of six bits, the last group filled up with zeros. -/
def sextets : List UInt8 → List Nat
  | a :: b :: c :: rest =>
    let n := a.toNat * 65536 + b.toNat * 256 + c.toNat
    n / 262144 :: n / 4096 % 64 :: n / 64 % 64 :: n % 64 :: sextets rest
  | [a, b] =>
    let n := a.toNat * 65536 + b.toNat * 256
    [n / 262144, n / 4096 % 64, n / 64 % 64]
  | [a] => [a.toNat / 4, a.toNat * 16 % 64]
  | [] => []

/-- The bytes of groups of six bits; bits that fill no byte are dropped. -/
def unsextets : List Nat → List UInt8
  | a :: b :: c :: d :: rest =>
    let n := ((a * 64 + b) * 64 + c) * 64 + d
    UInt8.ofNat (n / 65536) :: UInt8.ofNat (n / 256) :: UInt8.ofNat n :: unsextets rest
  | [a, b, c] =>
    let n := ((a * 64 + b) * 64 + c) * 64
    [UInt8.ofNat (n / 65536), UInt8.ofNat (n / 256)]
  | [a, b] => [UInt8.ofNat ((a * 64 + b) / 16)]
  | _ => []

/-- How many `=` complete a base64 text. -/
def padding (length : Nat) : Nat := (3 - length % 3) % 3

/-- `btoa` of the bytes. -/
def btoa (bytes : List UInt8) : List Char :=
  (sextets bytes).map base64Char ++ List.replicate (padding bytes.length) '='

def isAsciiSpace (c : Char) : Bool :=
  c == ' ' || c == '\t' || c == '\n' || c == '\r' || c.toNat == 12

/-- Drop one or two `=` at the end of a text of full groups. -/
def stripPadding (cs : List Char) : List Char :=
  if cs.length % 4 = 0 then
    match cs.reverse with
    | '=' :: '=' :: rest => rest.reverse
    | '=' :: rest => rest.reverse
    | _ => cs
  else cs

/-- `atob`; `none` is an `InvalidCharacterError`. -/
def atob (text : List Char) : Option (List UInt8) :=
  let cs := stripPadding (text.filter fun c => !isAsciiSpace c)
  if cs.length % 4 = 1 then none else (cs.mapM base64Val?).map unsextets

theorem sextets_lt (bytes : List UInt8) : ∀ n ∈ sextets bytes, n < 64 := by
  induction bytes using sextets.induct with
  | case1 a b c rest ih =>
    have := a.toNat_lt; have := b.toNat_lt; have := c.toNat_lt
    intro x hx
    simp only [sextets, List.mem_cons] at hx
    rcases hx with rfl | rfl | rfl | rfl | hx
    · omega
    · omega
    · omega
    · omega
    · exact ih x hx
  | case2 a b =>
    have := a.toNat_lt; have := b.toNat_lt
    simp only [sextets, List.mem_cons, List.not_mem_nil, or_false]
    omega
  | case3 a =>
    have := a.toNat_lt
    simp only [sextets, List.mem_cons, List.not_mem_nil, or_false]
    omega
  | case4 => simp [sextets]

theorem ofNat_eq {n : Nat} {a : UInt8} (h : n % 256 = a.toNat) : UInt8.ofNat n = a := by
  apply UInt8.toNat.inj
  rw [UInt8.toNat_ofNat']; exact h

theorem unsextets_sextets (bytes : List UInt8) : unsextets (sextets bytes) = bytes := by
  induction bytes using sextets.induct with
  | case1 a b c rest ih =>
    have := a.toNat_lt; have := b.toNat_lt; have := c.toNat_lt
    simp only [sextets, unsextets, ih]
    congr 1
    · apply ofNat_eq; omega
    congr 1
    · apply ofNat_eq; omega
    congr 1
    · apply ofNat_eq; omega
  | case2 a b =>
    have := a.toNat_lt; have := b.toNat_lt
    simp only [sextets, unsextets]
    congr 1
    · apply ofNat_eq; omega
    congr 1
    · apply ofNat_eq; omega
  | case3 a =>
    have := a.toNat_lt
    simp only [sextets, unsextets]
    congr 1
    · apply ofNat_eq; omega
  | case4 => rfl

theorem sextets_length (bytes : List UInt8) :
    (sextets bytes).length + padding bytes.length = (bytes.length + 2) / 3 * 4 := by
  induction bytes using sextets.induct with
  | case1 a b c rest ih =>
    simp only [sextets, List.length_cons, padding] at ih ⊢
    omega
  | case2 a b => simp [sextets, padding]
  | case3 a => simp [sextets, padding]
  | case4 => rfl

/-- The length of a base64 text. -/
theorem btoa_length (bytes : List UInt8) : (btoa bytes).length = (bytes.length + 2) / 3 * 4 := by
  rw [btoa, List.length_append, List.length_map, List.length_replicate, sextets_length]

theorem base64Char_facts : ∀ n < 64,
    isAsciiSpace (base64Char n) = false ∧ base64Char n ≠ '=' := by decide

/-- A reversed text with no `=` at its end is not stripped. -/
theorem stripPadding_append {cs : List Char} {k : Nat} (hk : k < 3)
    (hlen : (cs ++ List.replicate k '=').length % 4 = 0) (hne : ∀ c ∈ cs, c ≠ '=') :
    stripPadding (cs ++ List.replicate k '=') = cs := by
  have hrev : ∀ c ∈ cs.reverse, c ≠ '=' := fun c hc => hne c (List.mem_reverse.mp hc)
  rw [stripPadding, if_pos hlen, List.reverse_append, List.reverse_replicate]
  rcases k with _ | _ | _ | k
  · rw [List.replicate_zero, List.nil_append, List.append_nil]
    split
    · rename_i h; exact absurd rfl (hrev '=' (by rw [h]; simp))
    · rename_i h; exact absurd rfl (hrev '=' (by rw [h]; simp))
    · rfl
  · rw [show List.replicate (0 + 1) '=' = ['='] from rfl, List.singleton_append]
    split
    · rename_i h
      exact absurd rfl (hrev '=' (by rw [(List.cons.inj h).2]; simp))
    · rename_i h
      rw [← (List.cons.inj h).2, List.reverse_reverse]
    · rename_i _ h; exact absurd rfl (h _)
  · rw [show List.replicate (0 + 1 + 1) '=' = ['=', '='] from rfl, List.cons_append,
      List.singleton_append]
    split
    · rename_i h
      rw [← (List.cons.inj (List.cons.inj h).2).2, List.reverse_reverse]
    · rename_i hne heq; exact (hne _ (List.cons.inj heq).2.symm).elim
    · rename_i h _; exact absurd rfl (h _)
  · omega

theorem mapM_base64Val? {ns : List Nat} (h : ∀ n ∈ ns, n < 64) :
    (ns.map base64Char).mapM base64Val? = some ns := by
  induction ns with
  | nil => rfl
  | cons n ns ih =>
    rw [List.map_cons, List.mapM_cons, base64Val?_char n (h n List.mem_cons_self),
      ih fun m hm => h m (List.mem_cons_of_mem n hm)]
    rfl

/-- `atob` undoes `btoa`. -/
theorem atob_btoa (bytes : List UInt8) : atob (btoa bytes) = some bytes := by
  have hlt := sextets_lt bytes
  have hchars : ∀ c ∈ (sextets bytes).map base64Char, isAsciiSpace c = false ∧ c ≠ '=' := by
    intro c hc
    obtain ⟨n, hn, rfl⟩ := List.mem_map.mp hc
    exact base64Char_facts n (hlt n hn)
  have hfilter : (btoa bytes).filter (fun c => !isAsciiSpace c) = btoa bytes := by
    rw [List.filter_eq_self, btoa]
    intro c hc
    rcases List.mem_append.mp hc with hc | hc
    · rw [(hchars c hc).1]; rfl
    · rw [List.eq_of_mem_replicate hc]; rfl
  have hlen := btoa_length bytes
  have hstrip : stripPadding (btoa bytes) = (sextets bytes).map base64Char := by
    refine stripPadding_append (by unfold padding; omega) ?_ fun c hc => (hchars c hc).2
    show (btoa bytes).length % 4 = 0
    omega
  have hsix := sextets_length bytes
  unfold atob
  rw [hfilter, hstrip, if_neg, mapM_base64Val? hlt, Option.map_some, unsextets_sextets]
  rw [List.length_map]
  unfold padding at hsix
  omega

end Chardb.Lib
