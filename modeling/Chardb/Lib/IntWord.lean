import Mathlib.Data.Int.Bitwise
import Mathlib.Data.Nat.Bitwise
import Mathlib.Tactic.Ring

/-!
# Words inside unbounded integers

Unbounded integers with the two's complement bit operations, masked to `w` bits, compute with
words of `w` bits: `intWord` is the value of a word and `BitVec.ofInt` the word of an integer.
-/

namespace Chardb.Lib

variable {w : Nat}

/-- The unsigned value of a word. -/
def intWord (b : BitVec w) : Int := b.toNat

/-- `n << r`. -/
def intShl (n : Int) (r : Nat) : Int := n * 2 ^ r

/-- `n >> r`. -/
def intShr (n : Int) (r : Nat) : Int := n / 2 ^ r

theorem intWord_nonneg (b : BitVec w) : 0 ≤ intWord b := Int.natCast_nonneg _

theorem intWord_lt (b : BitVec w) : intWord b < 2 ^ w := by
  have := b.isLt
  unfold intWord
  exact_mod_cast this

theorem land_natCast_mask (m : Nat) : Int.land m ((2 ^ w - 1 : Nat) : Int) = ((m % 2 ^ w : Nat) : Int) := by
  show ((m &&& (2 ^ w - 1) : Nat) : Int) = _
  rw [Nat.and_two_pow_sub_one_eq_mod]

/-- The low bits of the complement. -/
theorem ldiff_mask (m : Nat) : Nat.ldiff (2 ^ w - 1) m = 2 ^ w - (m % 2 ^ w + 1) := by
  refine Nat.eq_of_testBit_eq fun i => ?_
  rw [Nat.testBit_ldiff, Nat.testBit_two_pow_sub_succ (Nat.mod_lt _ (Nat.two_pow_pos w)),
    Nat.testBit_two_pow_sub_one, Nat.testBit_mod_two_pow]
  by_cases h : i < w <;> simp [h]

/-- The mask keeps the word of an integer, negative ones included. -/
theorem land_mask (n : Int) : Int.land n ((2 ^ w - 1 : Nat) : Int) = intWord (BitVec.ofInt w n) := by
  have hpos : (0 : Int) < ((2 ^ w : Nat) : Int) := Int.natCast_pos.mpr (Nat.two_pow_pos w)
  unfold intWord
  rw [BitVec.toNat_ofInt, Int.toNat_of_nonneg (Int.emod_nonneg _ hpos.ne')]
  cases n with
  | ofNat m =>
    rw [Int.ofNat_eq_natCast, land_natCast_mask, Int.natCast_emod]
  | negSucc m =>
    have hlt := Nat.mod_lt m (Nat.two_pow_pos w)
    show ((Nat.ldiff (2 ^ w - 1) m : Nat) : Int) = _
    rw [ldiff_mask, Int.negSucc_emod _ hpos, Int.natCast_sub (by omega)]
    push_cast
    ring

theorem ofInt_intWord (b : BitVec w) : BitVec.ofInt w (intWord b) = b := by
  unfold intWord
  rw [BitVec.ofInt_natCast, BitVec.ofNat_toNat, BitVec.setWidth_eq]

theorem xor_intWord (a b : BitVec w) : Int.xor (intWord a) (intWord b) = intWord (a ^^^ b) := by
  unfold intWord
  rw [BitVec.toNat_xor]
  rfl

theorem intShr_intWord (b : BitVec w) (r : Nat) : intShr (intWord b) r = intWord (b >>> r) := by
  unfold intShr intWord
  rw [BitVec.toNat_ushiftRight, Nat.shiftRight_eq_div_pow]
  push_cast
  rfl

/-- A word is rotated by its two shifts, under the mask. -/
theorem rotate_intWord (b : BitVec w) {r : Nat} (hr : r < w) :
    Int.land (Int.lor (intShl (intWord b) r) (intShr (intWord b) (w - r))) ((2 ^ w - 1 : Nat) : Int) =
      intWord (b.rotateLeft r) := by
  have hshl : intShl (intWord b) r = ((b.toNat <<< r : Nat) : Int) := by
    unfold intShl intWord
    rw [Nat.shiftLeft_eq]
    push_cast
    rfl
  rw [hshl, intShr_intWord]
  unfold intWord
  have hlor : Int.lor ((b.toNat <<< r : Nat) : Int) (((b >>> (w - r)).toNat : Nat) : Int) =
      ((b.toNat <<< r ||| (b >>> (w - r)).toNat : Nat) : Int) := rfl
  rw [hlor, land_natCast_mask, BitVec.toNat_rotateLeft, Nat.or_mod_two_pow, Nat.mod_eq_of_lt hr,
    Nat.mod_eq_of_lt (b >>> (w - r)).isLt, BitVec.toNat_ushiftRight]

end Chardb.Lib
