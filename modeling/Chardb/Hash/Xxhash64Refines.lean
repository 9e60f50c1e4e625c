import Chardb.Hash.Xxhash64
import Chardb.Lib.ExceptList

/-!
# The implementation computes XXH64

Every part of `xxhash64` returns the word that the part of `Xxh64.hash` computes, reads the bytes of
its lanes and assigns words only.
-/

namespace Chardb.Hash

open Chardb.Lib

/-! ## Runs -/

/-- A run returns a value, reads these bytes and assigns words only. -/
def Computes {α : Type} (x : HashM α) (a : α) (bytes : List Nat) : Prop :=
  ∀ log : HashLog, ∃ values : List Int, (∀ v ∈ values, 0 ≤ v ∧ v < 2 ^ 64) ∧
    x log = .ok (a, ⟨log.reads ++ bytes, log.assigned ++ values⟩)

section
variable {α β : Type}

theorem Computes.bind {x : HashM α} {f : α → HashM β} {a : α} {b : β} {bytes bytes' : List Nat}
    (hx : Computes x a bytes) (hf : Computes (f a) b bytes') :
    Computes (x >>= f) b (bytes ++ bytes') := by
  intro log
  obtain ⟨values, hvalues, hx⟩ := hx log
  obtain ⟨values', hvalues', hf⟩ := hf ⟨log.reads ++ bytes, log.assigned ++ values⟩
  refine ⟨values ++ values', fun v hv => ?_, ?_⟩
  · exact (List.mem_append.mp hv).elim (hvalues v) (hvalues' v)
  · rw [state_bind_eq hx, hf]
    simp only [List.append_assoc]

theorem computes_pure (a : α) : Computes (pure a) a [] := fun log =>
  ⟨[], fun _ h => (by cases h), by simp only [List.append_nil]; rfl⟩

theorem computes_assign (b : BitVec 64) : Computes (assign (intWord b)) (intWord b) [] := by
  intro log
  refine ⟨[intWord b], fun v hv => ?_, ?_⟩
  · obtain rfl := List.mem_singleton.mp hv
    exact ⟨intWord_nonneg b, intWord_lt b⟩
  · rw [List.append_nil]
    rfl

theorem Computes.congr {x : HashM α} {a a' : α} {bytes bytes' : List Nat} (h : Computes x a bytes)
    (ha : a = a') (hbytes : bytes = bytes') : Computes x a' bytes' := ha ▸ hbytes ▸ h

theorem Computes.assigned {n : Int} {b : BitVec 64} (hn : n = intWord b) :
    Computes (assign n) (intWord b) [] := hn ▸ computes_assign b

/-- A value is assigned and goes on. -/
theorem Computes.assign_bind {n : Int} {b : BitVec 64} {f : Int → HashM α} {a : α}
    {bytes : List Nat} (hn : n = intWord b) (hf : Computes (f (intWord b)) a bytes) :
    Computes (assign n >>= f) a bytes := by
  subst hn
  exact (computes_assign b).bind hf

end

/-! ## Arithmetic -/

theorem u64_eq (n : Int) : u64 n = intWord (BitVec.ofInt 64 n) := by
  have hmask : MASK64 = ((2 ^ 64 - 1 : Nat) : Int) := by decide
  rw [u64, hmask, land_mask]

theorem rotl64_eq (b : BitVec 64) {r : Nat} (hr : r < 64) :
    rotl64 (intWord b) r = intWord (b.rotateLeft r) := by
  have hmask : MASK64 = ((2 ^ 64 - 1 : Nat) : Int) := by decide
  rw [rotl64, u64, hmask, rotate_intWord b hr]

theorem ofInt_primes : BitVec.ofInt 64 PRIME64_1 = Xxh64.prime1 ∧
    BitVec.ofInt 64 PRIME64_2 = Xxh64.prime2 ∧ BitVec.ofInt 64 PRIME64_3 = Xxh64.prime3 ∧
    BitVec.ofInt 64 PRIME64_4 = Xxh64.prime4 ∧ BitVec.ofInt 64 PRIME64_5 = Xxh64.prime5 := by
  decide

theorem littleEndian_lt (bs : List (BitVec 8)) : littleEndian bs < 256 ^ bs.length := by
  induction bs with
  | nil => decide
  | cons b bs ih =>
    have hb : b.toNat < 256 := b.isLt
    rw [littleEndian, List.length_cons, Nat.pow_succ]
    omega

theorem computes_readLE {width : Nat} {view : List (BitVec 8)} {off : Nat} (hwidth : width ≤ 8)
    (h : off + width ≤ view.length) :
    Computes (readLE width view off) (intWord (Xxh64.lane width view off))
      (List.range' off width) := by
  intro log
  refine ⟨[], fun _ h => (by cases h), ?_⟩
  have hlength : ((view.drop off).take width).length ≤ 8 :=
    (List.length_take_le _ _).trans hwidth
  have hlt : littleEndian ((view.drop off).take width) < 2 ^ 64 :=
    (littleEndian_lt _).trans_le (Nat.pow_le_pow_right (by decide) hlength)
  have hvalue : intWord (Xxh64.lane width view off) = littleEndian ((view.drop off).take width) := by
    unfold intWord Xxh64.lane
    rw [BitVec.toNat_ofNat, Nat.mod_eq_of_lt hlt]
  rw [hvalue, List.append_nil]
  exact if_pos h

theorem computes_round (acc lane : BitVec 64) :
    Computes (round (intWord acc) (intWord lane)) (intWord (Xxh64.round acc lane)) [] := by
  obtain ⟨h₁, h₂, -⟩ := ofInt_primes
  refine Computes.assign_bind (b := acc + lane * Xxh64.prime2) ?_ ?_
  · simp only [u64_eq, BitVec.ofInt_add, BitVec.ofInt_mul, ofInt_intWord, h₂]
  refine Computes.assign_bind (b := (acc + lane * Xxh64.prime2).rotateLeft 31)
    (rotl64_eq _ (by decide)) ?_
  refine (computes_pure _).congr ?_ rfl
  simp only [u64_eq, BitVec.ofInt_mul, ofInt_intWord, h₁]
  rfl

theorem computes_mergeRound (acc lane : BitVec 64) :
    Computes (mergeRound (intWord acc) (intWord lane)) (intWord (Xxh64.mergeRound acc lane)) [] := by
  obtain ⟨h₁, -, -, h₄, -⟩ := ofInt_primes
  refine (computes_round 0 lane).bind ?_
  refine Computes.assign_bind rfl ?_
  refine Computes.assign_bind (xor_intWord acc (Xxh64.round 0 lane)) ?_
  refine Computes.assign_bind (b := (acc ^^^ Xxh64.round 0 lane) * Xxh64.prime1) ?_ ?_
  · simp only [u64_eq, BitVec.ofInt_mul, ofInt_intWord, h₁]
  refine (computes_pure _).congr ?_ rfl
  simp only [u64_eq, BitVec.ofInt_add, ofInt_intWord, h₄]
  rfl

/-! ## The loops -/

/-- The lanes as integers. -/
def Lanes.ints (v : Lanes (BitVec 64)) : Lanes Int :=
  ⟨intWord v.v1, intWord v.v2, intWord v.v3, intWord v.v4⟩

/-- A round over the next lane of 8 bytes. -/
theorem Computes.lane_bind {α : Type} {view : List (BitVec 8)} {off : Nat}
    (h : off + 8 ≤ view.length) (acc : BitVec 64) {f : Int → HashM α} {a : α} {bytes : List Nat}
    (hf : Computes (f (intWord (Xxh64.round acc (Xxh64.lane 8 view off)))) a bytes) :
    Computes (do
      let k ← readLE64 view off
      let r ← round (intWord acc) k
      let v ← assign r
      f v) a (List.range' off 8 ++ bytes) :=
  (computes_readLE (by decide) h).bind ((computes_round acc _).bind (Computes.assign_bind rfl hf))

theorem computes_stripe {view : List (BitVec 8)} {i : Nat} (h : 32 * i + 32 ≤ view.length)
    (v : Lanes (BitVec 64)) :
    Computes (stripe view (32 * i) v.ints) (Xxh64.stripe view v i).ints
      (List.range' (32 * i) 32) := by
  have hbytes : List.range' (32 * i) 32 = List.range' (32 * i) 8 ++ (List.range' (32 * i + 8) 8 ++
      (List.range' (32 * i + 16) 8 ++ (List.range' (32 * i + 24) 8 ++ []))) := by
    simp only [List.range'_append_1, List.append_nil]
  rw [hbytes]
  refine Computes.lane_bind (by omega) v.v1 ?_
  refine Computes.lane_bind (by omega) v.v2 ?_
  refine Computes.lane_bind (by omega) v.v3 ?_
  refine Computes.lane_bind (by omega) v.v4 ?_
  exact computes_pure _

section
variable {α β : Type} {len step : Nat} {body : Nat → α → HashM α}

theorem loop_done {fuel off : Nat} (h : len < off + step) (a : α) :
    loop len step body fuel off a = pure (off, a) := by
  cases fuel with
  | zero => rw [loop, if_neg (by omega)]
  | succ fuel => rw [loop, if_neg (by omega)]

/-- The turns `i, …, k - 1` of a loop whose body computes `f`. -/
theorem computes_loop {start : Nat} {e : β → α} {f : β → Nat → β}
    (hbody : ∀ i b, start + step * i + step ≤ len →
      Computes (body (start + step * i) (e b)) (e (f b i)) (List.range' (start + step * i) step))
    {k : Nat} (hk : start + step * k ≤ len) (hlast : len < start + step * k + step) {n : Nat} :
    ∀ {i fuel : Nat} {b : β}, i + n = k → n ≤ fuel →
      Computes (loop len step body fuel (start + step * i) (e b))
        (start + step * k, e ((List.range' i n).foldl f b))
        (List.range' (start + step * i) (step * n)) := by
  induction n with
  | zero =>
    intro i fuel b hi _
    obtain rfl : i = k := by omega
    rw [loop_done hlast]
    exact computes_pure _
  | succ n ih =>
    intro i fuel b hi hfuel
    obtain ⟨fuel, rfl⟩ : ∃ m, fuel = m + 1 := ⟨fuel - 1, by omega⟩
    have hle : step * (i + 1) ≤ step * k := Nat.mul_le_mul_left step (by omega)
    rw [Nat.mul_add, Nat.mul_one] at hle
    rw [loop, if_pos (by omega)]
    have hnext := @ih (i + 1) fuel (f b i) (by omega) (by omega)
    rw [Nat.mul_add, Nat.mul_one, ← Nat.add_assoc] at hnext
    refine ((hbody i b (by omega)).bind hnext).congr rfl ?_
    rw [List.range'_append_1, Nat.mul_add, Nat.mul_one, Nat.add_comm step]

/-- A loop from its start to the last whole step. -/
theorem computes_loop_all {start : Nat} {e : β → α} {f : β → Nat → β}
    (hbody : ∀ i b, start + step * i + step ≤ len →
      Computes (body (start + step * i) (e b)) (e (f b i)) (List.range' (start + step * i) step))
    {k : Nat} (hk : start + step * k ≤ len) (hlast : len < start + step * k + step)
    (hfuel : k ≤ len) (b : β) :
    Computes (loop len step body len start (e b)) (start + step * k, e ((List.range k).foldl f b))
      (List.range' start (step * k)) := by
  have h := @computes_loop α β len step body start e f hbody k hk hlast k 0 len b (Nat.zero_add k)
    hfuel
  rwa [Nat.mul_zero, Nat.add_zero, ← List.range_eq_range'] at h

end

/-! ## The parts of the hash -/

section
variable {view : List (BitVec 8)} {off : Nat}

theorem computes_word8 (h : off + 8 ≤ view.length) (acc : BitVec 64) :
    Computes (word8 view off (intWord acc)) (intWord (Xxh64.consume8 acc (Xxh64.lane 8 view off)))
      (List.range' off 8) := by
  obtain ⟨h₁, -, -, h₄, -⟩ := ofInt_primes
  rw [← List.append_nil (List.range' off 8)]
  refine Computes.lane_bind h 0 (Computes.assigned ?_)
  rw [xor_intWord, rotl64_eq _ (by decide), u64_eq, BitVec.ofInt_add, BitVec.ofInt_mul,
    ofInt_intWord, h₁, h₄]
  rfl

theorem computes_word4 (h : off + 4 ≤ view.length) (acc : BitVec 64) :
    Computes (word4 view off (intWord acc)) (intWord (Xxh64.consume4 acc (Xxh64.lane 4 view off)))
      (List.range' off 4) := by
  obtain ⟨h₁, h₂, h₃, -⟩ := ofInt_primes
  rw [← List.append_nil (List.range' off 4)]
  refine (computes_readLE (by decide) h).bind (Computes.assigned ?_)
  rw [u64_eq (intWord _ * PRIME64_1), BitVec.ofInt_mul, ofInt_intWord, h₁, xor_intWord,
    rotl64_eq _ (by decide), u64_eq, BitVec.ofInt_add, BitVec.ofInt_mul, ofInt_intWord, h₂, h₃]
  rfl

theorem computes_word1 (h : off + 1 ≤ view.length) (acc : BitVec 64) :
    Computes (word1 view off (intWord acc)) (intWord (Xxh64.consume1 acc (Xxh64.lane 1 view off)))
      (List.range' off 1) := by
  obtain ⟨h₁, -, -, -, h₅⟩ := ofInt_primes
  rw [← List.append_nil (List.range' off 1)]
  refine (computes_readLE (by decide) h).bind (Computes.assigned ?_)
  rw [u64_eq (intWord _ * PRIME64_5), BitVec.ofInt_mul, ofInt_intWord, h₅, xor_intWord,
    rotl64_eq _ (by decide), u64_eq, BitVec.ofInt_mul, ofInt_intWord, h₁]
  rfl

theorem computes_merges (acc : BitVec 64) (v : Lanes (BitVec 64)) :
    Computes (do
      let h64 ← assign (← mergeRound (intWord acc) v.ints.v1)
      let h64 ← assign (← mergeRound h64 v.ints.v2)
      let h64 ← assign (← mergeRound h64 v.ints.v3)
      let h64 ← assign (← mergeRound h64 v.ints.v4)
      pure (off, h64)) (off, intWord (Xxh64.mergeRound (Xxh64.mergeRound (Xxh64.mergeRound
        (Xxh64.mergeRound acc v.v1) v.v2) v.v3) v.v4)) [] := by
  refine (computes_mergeRound acc v.v1).bind (Computes.assign_bind rfl ?_)
  refine (computes_mergeRound _ v.v2).bind (Computes.assign_bind rfl ?_)
  refine (computes_mergeRound _ v.v3).bind (Computes.assign_bind rfl ?_)
  exact (computes_mergeRound _ v.v4).bind (Computes.assign_bind rfl (computes_pure _))

theorem computes_stripes (seed : BitVec 64) :
    Computes (stripes view (intWord seed)) (32 * (view.length / 32), intWord (Xxh64.converge
        ((List.range (view.length / 32)).foldl (Xxh64.stripe view) (Xxh64.start seed))))
      (List.range' 0 (32 * (view.length / 32))) := by
  obtain ⟨h₁, h₂, -⟩ := ofInt_primes
  rw [← List.append_nil (List.range' _ _)]
  refine Computes.assign_bind (b := (Xxh64.start seed).v1) ?_ ?_
  · rw [u64_eq, BitVec.ofInt_add, BitVec.ofInt_add, ofInt_intWord, h₁, h₂]
    rfl
  refine Computes.assign_bind (b := (Xxh64.start seed).v2) ?_ ?_
  · rw [u64_eq, BitVec.ofInt_add, ofInt_intWord, h₂]
    rfl
  refine Computes.assign_bind (b := (Xxh64.start seed).v3) ?_ ?_
  · rw [add_zero, u64_eq, ofInt_intWord]
    rfl
  refine Computes.assign_bind (b := (Xxh64.start seed).v4) ?_ ?_
  · rw [u64_eq, sub_eq_add_neg, BitVec.ofInt_add, BitVec.ofInt_neg, ofInt_intWord, h₁,
      ← BitVec.sub_eq_add_neg]
    rfl
  have hdiv := Nat.div_add_mod view.length 32
  have hmod := Nat.mod_lt view.length (show 0 < 32 by decide)
  have hbody : ∀ i b, 0 + 32 * i + 32 ≤ view.length → Computes (stripe view (0 + 32 * i) b.ints)
      (Xxh64.stripe view b i).ints (List.range' (0 + 32 * i) 32) := by
    intro i b hi
    rw [Nat.zero_add] at hi ⊢
    exact computes_stripe hi b
  have hloop := computes_loop_all hbody (k := view.length / 32) (by omega) (by omega)
    (Nat.div_le_self _ _) (Xxh64.start seed)
  rw [Nat.zero_add] at hloop
  refine hloop.bind ?_
  refine Computes.assign_bind ?_ (computes_merges _ _)
  dsimp only [Lanes.ints]
  rw [rotl64_eq _ (by decide), rotl64_eq _ (by decide), rotl64_eq _ (by decide),
    rotl64_eq _ (by decide), u64_eq, BitVec.ofInt_add, BitVec.ofInt_add, BitVec.ofInt_add,
    ofInt_intWord, ofInt_intWord, ofInt_intWord, ofInt_intWord]

theorem computes_avalanche (acc : BitVec 64) :
    Computes (avalanche (intWord acc)) (intWord (Xxh64.avalanche acc)) [] := by
  obtain ⟨-, h₂, h₃, -⟩ := ofInt_primes
  unfold avalanche
  simp only [intShr_intWord, xor_intWord]
  refine Computes.assign_bind rfl ?_
  refine Computes.assign_bind (b := (acc ^^^ acc >>> 33) * Xxh64.prime2) ?_ ?_
  · rw [u64_eq, BitVec.ofInt_mul, ofInt_intWord, h₂]
  simp only [intShr_intWord, xor_intWord]
  refine Computes.assign_bind rfl ?_
  refine Computes.assign_bind (b := ((acc ^^^ acc >>> 33) * Xxh64.prime2 ^^^
    ((acc ^^^ acc >>> 33) * Xxh64.prime2) >>> 29) * Xxh64.prime3) ?_ ?_
  · rw [u64_eq, BitVec.ofInt_mul, ofInt_intWord, h₃]
  simp only [intShr_intWord, xor_intWord]
  exact computes_assign _

end

/-- The accumulator before the tail. -/
theorem computes_head (input : List (BitVec 8)) (seed : BitVec 64) :
    Computes (head input (intWord seed))
      (32 * (input.length / 32), intWord (if 32 ≤ input.length then Xxh64.converge
        ((List.range (input.length / 32)).foldl (Xxh64.stripe input) (Xxh64.start seed))
        else seed + Xxh64.prime5)) (List.range' 0 (32 * (input.length / 32))) := by
  obtain ⟨-, -, -, -, h₅⟩ := ofInt_primes
  unfold head
  by_cases h : 32 ≤ input.length
  · rw [if_pos h, if_pos h]
    exact computes_stripes seed
  · have hzero : input.length / 32 = 0 := Nat.div_eq_of_lt (by omega)
    rw [if_neg h, if_neg h, hzero]
    refine Computes.assign_bind (b := seed + Xxh64.prime5) ?_ (computes_pure _)
    rw [u64_eq, BitVec.ofInt_add, ofInt_intWord, h₅]

/-- The lanes of 8 bytes after the stripes. -/
theorem computes_words8 (input : List (BitVec 8)) (acc : BitVec 64) :
    Computes (loop input.length 8 (word8 input) input.length (32 * (input.length / 32)) (intWord acc))
      (8 * (input.length / 8), intWord ((List.range (input.length % 32 / 8)).foldl
        (fun acc i => Xxh64.consume8 acc (Xxh64.lane 8 input (32 * (input.length / 32) + 8 * i))) acc))
      (List.range' (32 * (input.length / 32)) (8 * (input.length % 32 / 8))) := by
  have hoff : 8 * (input.length / 8) = 32 * (input.length / 32) + 8 * (input.length % 32 / 8) := by
    omega
  rw [hoff]
  exact computes_loop_all (fun i b hi => computes_word8 hi b) (by omega) (by omega) (by omega) acc

/-- The lane of 4 bytes. -/
theorem computes_tail4 (input : List (BitVec 8)) (acc : BitVec 64) :
    Computes (tail4 input (8 * (input.length / 8)) (intWord acc))
      (4 * (input.length / 4), intWord (if 4 ≤ input.length % 8 then
        Xxh64.consume4 acc (Xxh64.lane 4 input (8 * (input.length / 8))) else acc))
      (List.range' (8 * (input.length / 8)) (4 * (input.length % 8 / 4))) := by
  unfold tail4
  by_cases h : 4 ≤ input.length % 8
  · have hoff : 4 * (input.length / 4) = 8 * (input.length / 8) + 4 := by omega
    have hone : input.length % 8 / 4 = 1 := by omega
    rw [if_pos (by omega), if_pos h, hoff, hone, Nat.mul_one, ← List.append_nil (List.range' _ 4)]
    exact (computes_word4 (by omega) acc).bind (computes_pure _)
  · have hoff : 4 * (input.length / 4) = 8 * (input.length / 8) := by omega
    have hzero : input.length % 8 / 4 = 0 := by omega
    rw [if_neg (by omega), if_neg h, hoff, hzero]
    exact computes_pure _

/-- The bytes that are left. -/
theorem computes_words1 (input : List (BitVec 8)) (acc : BitVec 64) :
    Computes (loop input.length 1 (word1 input) input.length (4 * (input.length / 4)) (intWord acc))
      (4 * (input.length / 4) + 1 * (input.length % 4), intWord ((List.range (input.length % 4)).foldl
        (fun acc i => Xxh64.consume1 acc (Xxh64.lane 1 input (4 * (input.length / 4) + i))) acc))
      (List.range' (4 * (input.length / 4)) (1 * (input.length % 4))) := by
  have hbody : ∀ (i : Nat) (b : BitVec 64), 4 * (input.length / 4) + 1 * i + 1 ≤ input.length →
      Computes (word1 input (4 * (input.length / 4) + 1 * i) (intWord b))
        (intWord (Xxh64.consume1 b (Xxh64.lane 1 input (4 * (input.length / 4) + i))))
        (List.range' (4 * (input.length / 4) + 1 * i) 1) := by
    intro i b hi
    rw [Nat.one_mul] at hi ⊢
    exact computes_word1 hi b
  exact computes_loop_all hbody (by omega) (by omega) (by omega) acc

/-- The parts read the whole input. -/
theorem range_parts (n : Nat) :
    List.range' 0 (32 * (n / 32)) ++ (List.range' (32 * (n / 32)) (8 * (n % 32 / 8)) ++
      (List.range' (8 * (n / 8)) (4 * (n % 8 / 4)) ++ (List.range' (4 * (n / 4)) (1 * (n % 4)) ++ []))) =
        List.range n := by
  have h₁ : 4 * (n / 4) = 8 * (n / 8) + 4 * (n % 8 / 4) := by omega
  have h₂ : 8 * (n / 8) = 32 * (n / 32) + 8 * (n % 32 / 8) := by omega
  have happend := @List.range'_append_1 0 (32 * (n / 32))
    (8 * (n % 32 / 8) + (4 * (n % 8 / 4) + 1 * (n % 4)))
  rw [Nat.zero_add] at happend
  rw [List.append_nil, h₁, List.range'_append_1, h₂, List.range'_append_1, happend,
    List.range_eq_range']
  congr 1
  omega

/-! ## The hash -/

/-- For every input and seed the implementation returns the hash over words; it reads every byte of
the input once, in order, and no other, and every value it assigns is a word. -/
theorem xxhash64_refines (input : List (BitVec 8)) (seed : BitVec 64) :
    ∃ values : List Int, (∀ v ∈ values, 0 ≤ v ∧ v < 2 ^ 64) ∧
      xxhash64 input (intWord seed) ⟨[], []⟩ =
        .ok (intWord (Xxh64.hash seed input), ⟨List.range input.length, values⟩) := by
  suffices h : Computes (xxhash64 input (intWord seed)) (intWord (Xxh64.hash seed input))
      (List.range input.length) by
    obtain ⟨values, hvalues, hrun⟩ := h ⟨[], []⟩
    exact ⟨values, hvalues, hrun⟩
  rw [← range_parts]
  refine (computes_head input seed).bind ?_
  refine Computes.assign_bind (b := (if 32 ≤ input.length then Xxh64.converge
    ((List.range (input.length / 32)).foldl (Xxh64.stripe input) (Xxh64.start seed))
    else seed + Xxh64.prime5) + BitVec.ofNat 64 input.length) ?_ ?_
  · rw [u64_eq, BitVec.ofInt_add, ofInt_intWord, BitVec.ofInt_natCast]
  refine (computes_words8 input _).bind ?_
  refine (computes_tail4 input _).bind ?_
  exact (computes_words1 input _).bind (computes_avalanche _)

end Chardb.Hash
