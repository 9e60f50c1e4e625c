import Chardb.Core.Errors
import Chardb.Lib.IntWord

/-!
# XXH64

`xxhash64` is the hash of the partition keys: unbounded integers, masked to 64 bits. A run records
the bytes it reads and the values its variables take. `Xxh64.hash` is the algorithm over words of
64 bits, whose arithmetic wraps around.
-/

namespace Chardb.Hash

open Chardb.Lib

/-! ## The implementation -/

def PRIME64_1 : Int := 0x9e3779b185ebca87
def PRIME64_2 : Int := 0xc2b2ae3d27d4eb4f
def PRIME64_3 : Int := 0x165667b19e3779f9
def PRIME64_4 : Int := 0x85ebca77c2b2ae63
def PRIME64_5 : Int := 0x27d4eb2f165667c5

def MASK64 : Int := 0xffffffffffffffff

def u64 (n : Int) : Int := Int.land n MASK64

def rotl64 (n : Int) (r : Nat) : Int := u64 (Int.lor (intShl n r) (intShr n (64 - r)))

/-- What a run has done: the bytes it read and the values it assigned, in order. -/
structure HashLog where
  reads : List Nat
  assigned : List Int

/-- A run, which can leave the bounds of its view. -/
abbrev HashM (α : Type) := StateT HashLog (Except Thrown) α

/-- `let name = value`. -/
def assign (value : Int) : HashM Int :=
  fun log => .ok (value, { log with assigned := log.assigned ++ [value] })

def littleEndian : List (BitVec 8) → Nat
  | [] => 0
  | b :: bs => b.toNat + 256 * littleEndian bs

/-- `DataView` reads of `width` bytes. -/
def readLE (width : Nat) (view : List (BitVec 8)) (off : Nat) : HashM Int := fun log =>
  if off + width ≤ view.length then
    .ok ((littleEndian ((view.drop off).take width) : Int),
      { log with reads := log.reads ++ List.range' off width })
  else .error (.error "Offset is outside the bounds of the DataView")

def readLE64 : List (BitVec 8) → Nat → HashM Int := readLE 8

def readLE32 : List (BitVec 8) → Nat → HashM Int := readLE 4

def readLE8 : List (BitVec 8) → Nat → HashM Int := readLE 1

def round (acc lane : Int) : HashM Int := do
  let a ← assign (u64 (acc + u64 (lane * PRIME64_2)))
  let a ← assign (rotl64 a 31)
  pure (u64 (a * PRIME64_1))

def mergeRound (acc val : Int) : HashM Int := do
  let v ← assign (← round 0 val)
  let a ← assign (Int.xor acc v)
  let a ← assign (u64 (a * PRIME64_1))
  pure (u64 (a + PRIME64_4))

/-- The four accumulators of the stripes. -/
structure Lanes (α : Type) where
  v1 : α
  v2 : α
  v3 : α
  v4 : α

def stripe (view : List (BitVec 8)) (off : Nat) (v : Lanes Int) : HashM (Lanes Int) := do
  let v1 ← assign (← round v.v1 (← readLE64 view off))
  let v2 ← assign (← round v.v2 (← readLE64 view (off + 8)))
  let v3 ← assign (← round v.v3 (← readLE64 view (off + 16)))
  let v4 ← assign (← round v.v4 (← readLE64 view (off + 24)))
  pure ⟨v1, v2, v3, v4⟩

/-- A loop of at most `fuel` turns that moves on by `step` bytes while `off + step ≤ len`. -/
def loop {α : Type} (len step : Nat) (body : Nat → α → HashM α) : Nat → Nat → α → HashM (Nat × α)
  | 0, off, a =>
    if off + step ≤ len then fun _ => .error (.error "the loop goes on") else pure (off, a)
  | fuel + 1, off, a =>
    if off + step ≤ len then do
      let a ← body off a
      loop len step body fuel (off + step) a
    else pure (off, a)

def word8 (view : List (BitVec 8)) (off : Nat) (h64 : Int) : HashM Int := do
  let k1 ← assign (← round 0 (← readLE64 view off))
  assign (u64 (rotl64 (Int.xor h64 k1) 27 * PRIME64_1 + PRIME64_4))

def word4 (view : List (BitVec 8)) (off : Nat) (h64 : Int) : HashM Int := do
  let k ← readLE32 view off
  assign (u64 (rotl64 (Int.xor h64 (u64 (k * PRIME64_1))) 23 * PRIME64_2 + PRIME64_3))

def word1 (view : List (BitVec 8)) (off : Nat) (h64 : Int) : HashM Int := do
  let k ← readLE8 view off
  assign (u64 (rotl64 (Int.xor h64 (u64 (k * PRIME64_5))) 11 * PRIME64_1))

/-- The stripes of 32 bytes, and the four accumulators brought together. -/
def stripes (view : List (BitVec 8)) (seed : Int) : HashM (Nat × Int) := do
  let v1 ← assign (u64 (seed + PRIME64_1 + PRIME64_2))
  let v2 ← assign (u64 (seed + PRIME64_2))
  let v3 ← assign (u64 (seed + 0))
  let v4 ← assign (u64 (seed - PRIME64_1))
  let (off, v) ← loop view.length 32 (stripe view) view.length 0 ⟨v1, v2, v3, v4⟩
  let h64 ← assign (u64 (rotl64 v.v1 1 + rotl64 v.v2 7 + rotl64 v.v3 12 + rotl64 v.v4 18))
  let h64 ← assign (← mergeRound h64 v.v1)
  let h64 ← assign (← mergeRound h64 v.v2)
  let h64 ← assign (← mergeRound h64 v.v3)
  let h64 ← assign (← mergeRound h64 v.v4)
  pure (off, h64)

def avalanche (h64 : Int) : HashM Int := do
  let h64 ← assign (Int.xor h64 (intShr h64 33))
  let h64 ← assign (u64 (h64 * PRIME64_2))
  let h64 ← assign (Int.xor h64 (intShr h64 29))
  let h64 ← assign (u64 (h64 * PRIME64_3))
  assign (Int.xor h64 (intShr h64 32))

/-- `h64` before the length is added, and the offset behind the stripes. -/
def head (input : List (BitVec 8)) (seed : Int) : HashM (Nat × Int) :=
  if 32 ≤ input.length then stripes input seed
  else do
    let h64 ← assign (u64 (seed + PRIME64_5))
    pure (0, h64)

/-- The one lane of 4 bytes, where it is left. -/
def tail4 (input : List (BitVec 8)) (off : Nat) (h64 : Int) : HashM (Nat × Int) :=
  if off + 4 ≤ input.length then do
    let h64 ← word4 input off h64
    pure (off + 4, h64)
  else pure (off, h64)

def xxhash64 (input : List (BitVec 8)) (seed : Int) : HashM Int := do
  let len := input.length
  let (off, h64) ← head input seed
  let h64 ← assign (u64 (h64 + len))
  let (off, h64) ← loop len 8 (word8 input) len off h64
  let (off, h64) ← tail4 input off h64
  let (_, h64) ← loop len 1 (word1 input) len off h64
  avalanche h64

/-! ## The algorithm over words -/

namespace Xxh64

def prime1 : BitVec 64 := 0x9e3779b185ebca87#64
def prime2 : BitVec 64 := 0xc2b2ae3d27d4eb4f#64
def prime3 : BitVec 64 := 0x165667b19e3779f9#64
def prime4 : BitVec 64 := 0x85ebca77c2b2ae63#64
def prime5 : BitVec 64 := 0x27d4eb2f165667c5#64

def round (acc lane : BitVec 64) : BitVec 64 := (acc + lane * prime2).rotateLeft 31 * prime1

def mergeRound (acc lane : BitVec 64) : BitVec 64 := (acc ^^^ round 0 lane) * prime1 + prime4

/-- The little-endian lane of `width` bytes at an offset. -/
def lane (width : Nat) (input : List (BitVec 8)) (off : Nat) : BitVec 64 :=
  BitVec.ofNat 64 (littleEndian ((input.drop off).take width))

/-- Four accumulators from the seed. -/
def start (seed : BitVec 64) : Lanes (BitVec 64) :=
  ⟨seed + prime1 + prime2, seed + prime2, seed, seed - prime1⟩

/-- Stripe `i` is the 32 bytes from `32 * i` on. -/
def stripe (input : List (BitVec 8)) (v : Lanes (BitVec 64)) (i : Nat) : Lanes (BitVec 64) :=
  ⟨round v.v1 (lane 8 input (32 * i)), round v.v2 (lane 8 input (32 * i + 8)),
    round v.v3 (lane 8 input (32 * i + 16)), round v.v4 (lane 8 input (32 * i + 24))⟩

def converge (v : Lanes (BitVec 64)) : BitVec 64 :=
  let acc := v.v1.rotateLeft 1 + v.v2.rotateLeft 7 + v.v3.rotateLeft 12 + v.v4.rotateLeft 18
  mergeRound (mergeRound (mergeRound (mergeRound acc v.v1) v.v2) v.v3) v.v4

def consume8 (acc k : BitVec 64) : BitVec 64 :=
  (acc ^^^ round 0 k).rotateLeft 27 * prime1 + prime4

def consume4 (acc k : BitVec 64) : BitVec 64 :=
  (acc ^^^ k * prime1).rotateLeft 23 * prime2 + prime3

def consume1 (acc k : BitVec 64) : BitVec 64 := (acc ^^^ k * prime5).rotateLeft 11 * prime1

def avalanche (acc : BitVec 64) : BitVec 64 :=
  let acc := (acc ^^^ acc >>> 33) * prime2
  let acc := (acc ^^^ acc >>> 29) * prime3
  acc ^^^ acc >>> 32

/-- The stripes, the length, the lanes of 8, 4 and 1 bytes that are left, and the avalanche. -/
def hash (seed : BitVec 64) (input : List (BitVec 8)) : BitVec 64 :=
  let len := input.length
  let acc :=
    if 32 ≤ len then converge ((List.range (len / 32)).foldl (stripe input) (start seed))
    else seed + prime5
  let acc := acc + BitVec.ofNat 64 len
  let acc := (List.range (len % 32 / 8)).foldl
    (fun acc i => consume8 acc (lane 8 input (32 * (len / 32) + 8 * i))) acc
  let acc := if 4 ≤ len % 8 then consume4 acc (lane 4 input (8 * (len / 8))) else acc
  let acc := (List.range (len % 4)).foldl
    (fun acc i => consume1 acc (lane 1 input (4 * (len / 4) + i))) acc
  avalanche acc

/-- A published test vector. -/
example : hash 0 ("Nobody inspects the spammish repetition".toList.map fun c =>
    BitVec.ofNat 8 c.toNat) = 0xfbcea83c8a378bf1#64 := by
  decide +kernel

end Xxh64

end Chardb.Hash
