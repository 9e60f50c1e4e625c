import Chardb.Core.Errors
import Chardb.Lib.JsonShape
import Mathlib.Data.List.Sort
import Mathlib.Data.List.Lex

/-!
# Strings and canonical JSON

JavaScript compares, sorts and cuts strings by UTF-16 code units. `stableJson` is
the text of a value with the keys of every object in that order; `stableHashHex` is
the hash of this text.
-/

namespace Chardb

open Chardb.Lib

/-! ## UTF-16 -/

/-- The UTF-16 code units of a character. -/
def utf16Char (c : Char) : List Nat :=
  if c.toNat < 0x10000 then [c.toNat]
  else [0xD800 + (c.toNat - 0x10000) / 0x400, 0xDC00 + (c.toNat - 0x10000) % 0x400]

/-- The UTF-16 code units of a string. -/
def utf16 (s : String) : List Nat := s.toList.flatMap utf16Char

/-- `Array.prototype.sort` on strings. -/
def sortStrings (l : List String) : List String := l.insertionSort fun a b => utf16 a ≤ utf16 b

theorem mem_sortStrings {l : List String} {s : String} : s ∈ sortStrings l ↔ s ∈ l :=
  List.mem_insertionSort _

/-- The code units of a text say where its first character ends. -/
theorem utf16Char_append_inj {c d : Char} {l m : List Nat}
    (h : utf16Char c ++ l = utf16Char d ++ m) : c = d ∧ l = m := by
  have hc : c.toNat < 0xD800 ∨ 0xDFFF < c.toNat ∧ c.toNat < 0x110000 := c.valid
  have hd : d.toNat < 0xD800 ∨ 0xDFFF < d.toNat ∧ d.toNat < 0x110000 := d.valid
  have hnat : c.toNat = d.toNat → c = d := fun h => Char.ext (UInt32.toNat_inj.mp h)
  unfold utf16Char at h
  split at h <;> split at h
  · obtain ⟨h₁, h₂⟩ := List.cons.inj h
    exact ⟨hnat h₁, h₂⟩
  · have := (List.cons.inj h).1
    omega
  · have := (List.cons.inj h).1
    omega
  · obtain ⟨h₁, h⟩ := List.cons.inj h
    obtain ⟨h₂, h₃⟩ := List.cons.inj h
    exact ⟨hnat (by omega), h₃⟩

theorem utf16Char_ne_nil (c : Char) : utf16Char c ≠ [] := by
  unfold utf16Char
  split <;> simp

theorem flatMap_utf16Char_inj {cs ds : List Char} (h : cs.flatMap utf16Char = ds.flatMap utf16Char) :
    cs = ds := by
  induction cs generalizing ds with
  | nil =>
    cases ds with
    | nil => rfl
    | cons d ds => exact absurd (List.append_eq_nil_iff.mp h.symm).1 (utf16Char_ne_nil d)
  | cons c cs ih =>
    cases ds with
    | nil => exact absurd (List.append_eq_nil_iff.mp h).1 (utf16Char_ne_nil c)
    | cons d ds =>
      obtain ⟨rfl, hrest⟩ := utf16Char_append_inj h
      rw [ih hrest]

theorem utf16_injective : Function.Injective utf16 :=
  fun _ _ h => String.ext (flatMap_utf16Char_inj h)

theorem sortStrings_perm (l : List String) : (sortStrings l).Perm l := List.perm_insertionSort _ l

/-- A sorted list is fixed by its members. -/
theorem sortStrings_congr {l m : List String} (h : l.Perm m) : sortStrings l = sortStrings m := by
  have : Std.Total fun a b : String => utf16 a ≤ utf16 b := ⟨fun a b => le_total (utf16 a) (utf16 b)⟩
  have : IsTrans String fun a b => utf16 a ≤ utf16 b := ⟨fun _ _ _ hab hbc => hab.trans hbc⟩
  have : Std.Antisymm fun a b : String => utf16 a ≤ utf16 b :=
    ⟨fun _ _ hab hba => utf16_injective (le_antisymm hab hba)⟩
  exact List.Perm.eq_of_pairwise' (List.pairwise_insertionSort _ l)
    (List.pairwise_insertionSort _ m) ((sortStrings_perm l).trans (h.trans (sortStrings_perm m).symm))

/-- The first `n` code units of a text; half of a surrogate pair becomes U+FFFD. -/
def takeUnits : Nat → List Char → List Char
  | 0, _ => []
  | _, [] => []
  | n + 1, c :: cs =>
    if c.toNat < 0x10000 then c :: takeUnits n cs
    else match n with
      | 0 => [Char.ofNat 0xFFFD]
      | n + 1 => c :: takeUnits n cs

/-- `s.slice(0, n)`, as it is stored. -/
def sliceTo (n : Nat) (s : String) : String := String.ofList (takeUnits n s.toList)

/-! ## Canonical JSON -/

variable {ν : Type}

mutual

/-- `canonicalize`: the keys of every object sorted. -/
def canonicalize : Json ν → Json ν
  | .arr elems => .arr (canonicalizeElems elems)
  | .obj members => .obj (ownMembers ((canonicalizeMembers members).insertionSort
      fun a b => utf16 a.1 ≤ utf16 b.1))
  | value => value

def canonicalizeElems : List (Json ν) → List (Json ν)
  | [] => []
  | x :: xs => canonicalize x :: canonicalizeElems xs

def canonicalizeMembers : List (String × Json ν) → List (String × Json ν)
  | [] => []
  | (k, v) :: ms => (k, canonicalize v) :: canonicalizeMembers ms

end

/-! ### What sorting the keys keeps -/

theorem canonicalizeMembers_keys (ms : List (String × Json ν)) :
    (canonicalizeMembers ms).map Prod.fst = ms.map Prod.fst := by
  induction ms with
  | nil => rfl
  | cons m ms ih => rw [canonicalizeMembers, List.map_cons, List.map_cons, ih]

theorem canonicalize_obj_perm {ms : List (String × Json ν)} (h : OwnKeys (ms.map Prod.fst)) :
    (canonicalizeMembers ms).Perm (ownMembers ((canonicalizeMembers ms).insertionSort
      fun a b => utf16 a.1 ≤ utf16 b.1)) := by
  have hsort := List.perm_insertionSort
    (fun a b : String × Json ν => utf16 a.1 ≤ utf16 b.1) (canonicalizeMembers ms)
  refine (ownMembers_perm ?_ |>.trans hsort).symm
  rw [(hsort.map Prod.fst).nodup_iff, canonicalizeMembers_keys]
  exact h.nodup

variable [JsNumber ν]

theorem membersExact_iff {ms : List (String × Json ν)} :
    Json.MembersExact ms ↔ ∀ m ∈ ms, m.2.Exact := by
  induction ms with
  | nil => simp [Json.MembersExact]
  | cons m ms ih => rw [Json.MembersExact, ih, List.forall_mem_cons]

mutual

theorem canonicalize_exact : ∀ {j : Json ν}, j.Exact → (canonicalize j).Exact
  | .null, h => h
  | .bool _, h => h
  | .num _, h => h
  | .str _, h => h
  | .arr xs, h => by
    rw [Json.Exact] at h
    rw [canonicalize, Json.Exact]
    exact canonicalizeElems_exact h
  | .obj ms, h => by
    rw [Json.Exact] at h
    rw [canonicalize, Json.Exact]
    refine ⟨ownMembers_ownKeys _, membersExact_iff.mpr fun m hm => ?_⟩
    have hmem := (canonicalize_obj_perm h.1).mem_iff.mpr hm
    exact membersExact_iff.mp (canonicalizeMembers_exact h.2) m hmem

theorem canonicalizeElems_exact :
    ∀ {xs : List (Json ν)}, Json.ElemsExact xs → Json.ElemsExact (canonicalizeElems xs)
  | [], _ => trivial
  | x :: xs, h => by
    rw [Json.ElemsExact] at h
    rw [canonicalizeElems, Json.ElemsExact]
    exact ⟨canonicalize_exact h.1, canonicalizeElems_exact h.2⟩

theorem canonicalizeMembers_exact :
    ∀ {ms : List (String × Json ν)}, Json.MembersExact ms →
      Json.MembersExact (canonicalizeMembers ms)
  | [], _ => trivial
  | (k, v) :: ms, h => by
    rw [Json.MembersExact] at h
    rw [canonicalizeMembers, Json.MembersExact]
    exact ⟨canonicalize_exact h.1, canonicalizeMembers_exact h.2⟩

end

mutual

theorem canonicalize_same : ∀ {j : Json ν}, j.Exact → Json.Same j (canonicalize j)
  | .null, _ => .null
  | .bool b, _ => .bool b
  | .num n, _ => .num n
  | .str s, _ => .str s
  | .arr xs, h => by
    rw [Json.Exact] at h
    rw [canonicalize]
    exact .arr (canonicalizeElems_same h)
  | .obj ms, h => by
    rw [Json.Exact] at h
    rw [canonicalize]
    exact .obj (canonicalizeMembers_same h.2) (canonicalize_obj_perm h.1)

theorem canonicalizeElems_same :
    ∀ {xs : List (Json ν)}, Json.ElemsExact xs → Json.ElemsSame xs (canonicalizeElems xs)
  | [], _ => .nil
  | x :: xs, h => by
    rw [Json.ElemsExact] at h
    rw [canonicalizeElems]
    exact .cons (canonicalize_same h.1) (canonicalizeElems_same h.2)

theorem canonicalizeMembers_same :
    ∀ {ms : List (String × Json ν)}, Json.MembersExact ms →
      Json.MembersSame ms (canonicalizeMembers ms)
  | [], _ => .nil
  | (k, v) :: ms, h => by
    rw [Json.MembersExact] at h
    rw [canonicalizeMembers]
    exact .cons k (canonicalize_same h.1) (canonicalizeMembers_same h.2)

end

def stableJson (value : Json ν) : String := (canonicalize value).toText

/-- `stableHashHex`, for a hash of texts. -/
def stableHashHex (sha256Hex : String → String) (value : Json ν) : String :=
  sha256Hex (stableJson value)

end Chardb
