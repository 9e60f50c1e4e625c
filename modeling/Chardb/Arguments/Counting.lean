import Chardb.Arguments.JsonTree
import Chardb.Core.Errors
import Chardb.Lib.Tx

/-!
# Counting against limits

Both validators count bytes and members against limits, and remember the containers they are in.
`Counts` says exactly when a visit returns, and what it has counted then.
-/

namespace Chardb.Arguments

open Chardb.Lib

variable {ι ν : Type}

/-! ## Strings -/

section
variable {ε σ : Type} (add : Nat → Tx ε σ Unit)

/-- The code units of a string. A high surrogate has no other branch than with the unit after it. -/
def addUnits : JsString → Tx ε σ Unit
  | [] => pure ()
  | [unit] => add (unitBytes unit)
  | high :: low :: rest =>
    if isPair high low then do
      add 4
      addUnits rest
    else do
      add (unitBytes high)
      addUnits (low :: rest)

def addString (text : JsString) : Tx ε σ Unit := do
  add 2
  addUnits add text

/-- A counter with a limit: how much a store has counted, and the store after counting more. -/
structure Counter (count : σ → Nat) (plus : σ → Nat → σ) (limit : Nat) : Prop where
  returns : ∀ {n : Nat} {s s' : σ} {u : Unit},
    (add n).Returns s u s' ↔ count s + n ≤ limit ∧ s' = plus s n
  count_plus : ∀ s n, count (plus s n) = count s + n
  plus_plus : ∀ s m n, plus (plus s m) n = plus s (m + n)
  plus_zero : ∀ s, plus s 0 = s

variable {add} {count : σ → Nat} {plus : σ → Nat → σ} {limit : Nat}

/-- Counting twice is counting the sum. -/
theorem Counter.seq (h : Counter add count plus limit) {x : Tx ε σ Unit} {m n : Nat}
    (hx : ∀ {s s' : σ} {u : Unit}, count s ≤ limit →
      (x.Returns s u s' ↔ count s + n ≤ limit ∧ s' = plus s n)) {s s' : σ} {u : Unit} :
    (add m >>= fun _ => x).Returns s u s' ↔ count s + (m + n) ≤ limit ∧ s' = plus s (m + n) := by
  rw [Tx.bind_returns]
  constructor
  · rintro ⟨_, t, hm, hrest⟩
    obtain ⟨hle, rfl⟩ := h.returns.mp hm
    have hcount := h.count_plus s m
    obtain ⟨hle', rfl⟩ := (hx (by omega)).mp hrest
    exact ⟨by omega, h.plus_plus s m n⟩
  · rintro ⟨hle, rfl⟩
    have hcount := h.count_plus s m
    exact ⟨(), plus s m, h.returns.mpr ⟨by omega, rfl⟩,
      (hx (by omega)).mpr ⟨by omega, (h.plus_plus s m n).symm⟩⟩

theorem addUnits_returns (h : Counter add count plus limit) (units : JsString) {s s' : σ} {u : Unit}
    (hs : count s ≤ limit) : (addUnits add units).Returns s u s' ↔
      count s + unitsBytes units ≤ limit ∧ s' = plus s (unitsBytes units) := by
  induction units using quoteUnits.induct generalizing s s' u with
  | case1 =>
    rw [addUnits, unitsBytes, Tx.pure_returns, h.plus_zero, Nat.add_zero]
    constructor
    · rintro ⟨-, rfl⟩
      exact ⟨hs, rfl⟩
    · rintro ⟨-, rfl⟩
      exact ⟨rfl, rfl⟩
  | case2 unit => exact h.returns
  | case3 high low rest hpair ih =>
    rw [addUnits, unitsBytes, if_pos hpair, if_pos hpair]
    exact h.seq fun hs => ih hs
  | case4 high low rest hpair ih =>
    rw [addUnits, unitsBytes, if_neg hpair, if_neg hpair]
    exact h.seq fun hs => ih hs

theorem addString_returns (h : Counter add count plus limit) (text : JsString) {s s' : σ} {u : Unit} :
    (addString add text).Returns s u s' ↔
      count s + (2 + unitsBytes text) ≤ limit ∧ s' = plus s (2 + unitsBytes text) :=
  h.seq fun hs => addUnits_returns h text hs

end

/-! ## The counters -/

/-- What has been counted, and the containers that are being visited. -/
structure Inspection (ι : Type) where
  bytes : Nat
  members : Nat
  ancestors : List ι

/-- Nothing is counted yet. -/
def Inspection.start : Inspection ι := ⟨0, 0, []⟩

def countBytes (limit : Nat) (e : Thrown) (amount : Nat) : Tx Thrown (Inspection ι) Unit := do
  .modify fun s => { s with bytes := s.bytes + amount }
  let bytes ← .gets Inspection.bytes
  .require (bytes ≤ limit) e

def countMembers (memberLimit : Option Nat) (e : Thrown) (amount : Nat) :
    Tx Thrown (Inspection ι) Unit := do
  .modify fun s => { s with members := s.members + amount }
  let members ← .gets Inspection.members
  .require (∀ m ∈ memberLimit, members ≤ m) e

/-- Add a container to `ancestors`, which must not have it. -/
def enterContainer [DecidableEq ι] (e : Thrown) (ref : ι) : Tx Thrown (Inspection ι) Unit := do
  let ancestors ← .gets Inspection.ancestors
  .require (ref ∉ ancestors) e
  .modify fun s => { s with ancestors := ref :: s.ancestors }

def leaveContainer [DecidableEq ι] (ref : ι) : Tx Thrown (Inspection ι) Unit :=
  .modify fun s => { s with ancestors := s.ancestors.erase ref }

/-- The comma before a member that is not the first. -/
def separate (add : Nat → Tx Thrown (Inspection ι) Unit) (first : Bool) :
    Tx Thrown (Inspection ι) Unit :=
  if first then pure () else add 1

/-! ## What a visit counts -/

section
variable {limit : Nat}

/-- Nothing is over its limit yet. -/
def Inspection.Within (limit : Nat) (memberLimit : Option Nat) (s : Inspection ι) : Prop :=
  s.bytes ≤ limit ∧ ∀ m ∈ memberLimit, s.members ≤ m

/-- So many bytes and members later. -/
def Inspection.plus (s : Inspection ι) (bytes members : Nat) : Inspection ι :=
  { s with bytes := s.bytes + bytes, members := s.members + members }

/-- A value of so many bytes and members goes through from this state. -/
def Admits (limit : Nat) (memberLimit : Option Nat) (s : Inspection ι) (fits : Prop)
    (bytes members : Nat) : Prop :=
  fits ∧ s.bytes + bytes ≤ limit ∧ ∀ m ∈ memberLimit, s.members + members ≤ m

/-- `x` returns `a` from `s` exactly when what it visits fits and so many bytes and members are
within the limits; it then has counted them. -/
def Counts (limit : Nat) (memberLimit : Option Nat) {α : Type} (x : Tx Thrown (Inspection ι) α)
    (s : Inspection ι) (fits : Prop) (bytes members : Nat) (a : α) : Prop :=
  ∀ y s', x.Returns s y s' ↔
    Admits limit memberLimit s fits bytes members ∧ y = a ∧ s' = s.plus bytes members

theorem plus_plus (s : Inspection ι) (a b c d : Nat) :
    (s.plus a b).plus c d = s.plus (a + c) (b + d) := by
  simp only [Inspection.plus, Nat.add_assoc]

section
variable {α β : Type} {memberLimit : Option Nat} {x : Tx Thrown (Inspection ι) α} {a : α}
  {s : Inspection ι} {P Q : Prop} {n k n' k' : Nat}

theorem counts_pure (hs : s.Within limit memberLimit) :
    Counts limit memberLimit (pure a) s True 0 0 a := by
  intro y s'
  rw [Tx.pure_returns]
  exact ⟨fun ⟨hy, he⟩ => ⟨⟨trivial, hs⟩, hy, he.symm⟩, fun ⟨_, hy, he⟩ => ⟨hy, he.symm⟩⟩

theorem counts_require {p : Prop} [Decidable p] {e : Thrown} (hs : s.Within limit memberLimit) :
    Counts limit memberLimit (Tx.require p e) s p 0 0 () := by
  intro y s'
  rw [Tx.require_returns]
  exact ⟨fun ⟨hp, he⟩ => ⟨⟨hp, hs⟩, rfl, he.symm⟩, fun ⟨⟨hp, _⟩, _, he⟩ => ⟨hp, he.symm⟩⟩

/-- Two visits go through one after the other exactly when what both count is within the limits. -/
theorem admits_plus_iff :
    (Admits limit memberLimit s P n k ∧ Admits limit memberLimit (s.plus n k) Q n' k') ↔
      Admits limit memberLimit s (P ∧ Q) (n + n') (k + k') := by
  have hbytes : (s.plus n k).bytes = s.bytes + n := rfl
  have hmembers : (s.plus n k).members = s.members + k := rfl
  constructor
  · rintro ⟨⟨hP, -, -⟩, hQ, hle, hlim⟩
    refine ⟨⟨hP, hQ⟩, by omega, fun m hm => ?_⟩
    have := hlim m hm
    omega
  · rintro ⟨⟨hP, hQ⟩, hle, hlim⟩
    refine ⟨⟨hP, by omega, fun m hm => ?_⟩, hQ, by omega, fun m hm => ?_⟩
    · have := hlim m hm
      omega
    · have := hlim m hm
      omega

/-- One visit after another counts what both count. -/
theorem Counts.bind {f : α → Tx Thrown (Inspection ι) β} {b : β}
    (hx : Counts limit memberLimit x s P n k a)
    (hf : (s.plus n k).Within limit memberLimit →
      Counts limit memberLimit (f a) (s.plus n k) Q n' k' b) :
    Counts limit memberLimit (x >>= f) s (P ∧ Q) (n + n') (k + k') b := by
  intro y s'
  rw [Tx.bind_returns]
  constructor
  · rintro ⟨_, t, hrun, hrest⟩
    obtain ⟨hfirst, rfl, rfl⟩ := (hx _ t).mp hrun
    obtain ⟨hsecond, rfl, rfl⟩ := (hf hfirst.2 y s').mp hrest
    exact ⟨admits_plus_iff.mp ⟨hfirst, hsecond⟩, rfl, plus_plus s n k n' k'⟩
  · rintro ⟨hboth, rfl, rfl⟩
    obtain ⟨hfirst, hsecond⟩ := admits_plus_iff.mpr hboth
    refine ⟨a, s.plus n k, (hx _ _).mpr ⟨hfirst, rfl, rfl⟩, ?_⟩
    exact (hf hfirst.2 _ _).mpr ⟨hsecond, rfl, (plus_plus s n k n' k').symm⟩

theorem Counts.congr (hx : Counts limit memberLimit x s P n k a) (hP : P ↔ Q) (hn : n = n')
    (hk : k = k') : Counts limit memberLimit x s Q n' k' a := by
  subst hn hk
  rw [← propext hP]
  exact hx

theorem Counts.map (hx : Counts limit memberLimit x s P n k a) (g : α → β) :
    Counts limit memberLimit (x >>= fun a => pure (g a)) s P n k (g a) :=
  (hx.bind (f := fun a => pure (g a)) counts_pure).congr (Iff.of_eq (and_true _)) (Nat.add_zero n)
    (Nat.add_zero k)

end

section
variable {memberLimit : Option Nat} {e : Thrown} {s : Inspection ι}

theorem countBytes_returns {n : Nat} {s' : Inspection ι} {u : Unit} :
    (countBytes limit e n).Returns s u s' ↔ s.bytes + n ≤ limit ∧ s' = s.plus n 0 := by
  simp only [countBytes, Tx.bind_returns, Tx.modify_returns, Tx.gets_returns, Tx.require_returns]
  constructor
  · rintro ⟨_, _, rfl, _, _, ⟨rfl, rfl⟩, hle, rfl⟩
    exact ⟨hle, rfl⟩
  · rintro ⟨hle, rfl⟩
    exact ⟨(), _, rfl, _, _, ⟨rfl, rfl⟩, hle, rfl⟩

theorem countBytes_counter : Counter (countBytes (ι := ι) limit e) Inspection.bytes
    (fun s n => s.plus n 0) limit where
  returns := countBytes_returns
  count_plus _ _ := rfl
  plus_plus s m n := plus_plus s m 0 n 0
  plus_zero _ := rfl

/-- What counts bytes alone. -/
theorem counts_of_bytes {x : Tx Thrown (Inspection ι) Unit} {n : Nat}
    (hs : s.Within limit memberLimit)
    (hx : ∀ {s' : Inspection ι} {u : Unit},
      x.Returns s u s' ↔ s.bytes + n ≤ limit ∧ s' = s.plus n 0) :
    Counts limit memberLimit x s True n 0 () := by
  intro y s'
  rw [hx]
  exact ⟨fun ⟨hle, he⟩ => ⟨⟨trivial, hle, hs.2⟩, rfl, he⟩, fun ⟨⟨_, hle, _⟩, _, he⟩ => ⟨hle, he⟩⟩

theorem counts_bytes {n : Nat} (hs : s.Within limit memberLimit) :
    Counts limit memberLimit (countBytes limit e n) s True n 0 () :=
  counts_of_bytes hs countBytes_returns

theorem counts_addString {text : JsString} (hs : s.Within limit memberLimit) :
    Counts limit memberLimit (addString (countBytes limit e) text) s True (2 + unitsBytes text) 0 () :=
  counts_of_bytes hs (addString_returns countBytes_counter text)

theorem counts_separate {first : Bool} (hs : s.Within limit memberLimit) :
    Counts limit memberLimit (separate (countBytes limit e) first) s True (if first then 0 else 1) 0
      () := by
  cases first with
  | true => exact counts_pure hs
  | false => exact counts_bytes hs

theorem counts_members {k : Nat} (hs : s.Within limit memberLimit) :
    Counts limit memberLimit (countMembers memberLimit e k) s True 0 k () := by
  intro u s'
  simp only [countMembers, Tx.bind_returns, Tx.modify_returns, Tx.gets_returns, Tx.require_returns]
  constructor
  · rintro ⟨_, _, rfl, _, _, ⟨rfl, rfl⟩, hle, rfl⟩
    exact ⟨⟨trivial, hs.1, hle⟩, trivial, rfl⟩
  · rintro ⟨⟨-, -, hle⟩, -, rfl⟩
    exact ⟨(), _, rfl, _, _, ⟨rfl, rfl⟩, hle, rfl⟩

theorem enterContainer_returns [DecidableEq ι] {ref : ι} {s' : Inspection ι} {u : Unit} :
    (enterContainer e ref).Returns s u s' ↔
      ref ∉ s.ancestors ∧ s' = { s with ancestors := ref :: s.ancestors } := by
  simp only [enterContainer, Tx.bind_returns, Tx.modify_returns, Tx.gets_returns, Tx.require_returns]
  constructor
  · rintro ⟨_, _, ⟨rfl, rfl⟩, _, _, ⟨hnew, rfl⟩, rfl⟩
    exact ⟨hnew, rfl⟩
  · rintro ⟨hnew, rfl⟩
    exact ⟨_, _, ⟨rfl, rfl⟩, (), _, ⟨hnew, rfl⟩, rfl⟩

end

/-- A value fits the limits from the root on. -/
def Accepts [JsNumber ν] (limit : Nat) (memberLimit maxDepth : Option Nat) (v : JsonTree ι ν) : Prop :=
  v.Fits maxDepth [] 0 ∧ v.byteCount ≤ limit ∧ ∀ m ∈ memberLimit, v.memberCount ≤ m

theorem admits_start [JsNumber ν] {memberLimit maxDepth : Option Nat} {v : JsonTree ι ν} :
    Admits limit memberLimit (.start : Inspection ι) (v.Fits maxDepth [] 0) v.byteCount v.memberCount ↔
      Accepts limit memberLimit maxDepth v := by
  unfold Admits Accepts Inspection.start
  rw [Nat.zero_add, Nat.zero_add]

theorem within_start (memberLimit : Option Nat) :
    Inspection.Within limit memberLimit (.start : Inspection ι) :=
  ⟨Nat.zero_le _, fun _ _ => Nat.zero_le _⟩

end

end Chardb.Arguments
