import Chardb.Core.Canonical
import Chardb.Core.Errors
import Chardb.Lib.Cuts
import Chardb.Lib.ExceptList
import Mathlib.Data.Rat.Defs
import Mathlib.Data.Sum.Order

/-!
# Intervals

Live queries are invalidated by intervals of index keys: tuples of strings, numbers, bigints and
byte arrays. Comparing scalars of two types throws. The functions on endpoints are generic in the
comparison of the keys; `cmpKey` is the comparison of tuples.
-/

namespace Chardb.Intervals

open Chardb.Lib

/-! ## Keys -/

/-- Numbers that are finite, by their value; the difference of two has the sign of their order. -/
class FiniteNumber (ν : Type) where
  value : ν → Rat

instance : FiniteNumber Int where
  value n := n

inductive IntervalScalar (ν : Type)
  | string (s : String)
  | number (n : ν)
  | bigint (i : Int)
  | bytes (b : List UInt8)

abbrev IntervalKey (ν : Type) : Type := List (IntervalScalar ν)

/-- `typeof`. -/
def IntervalScalar.typeName {ν : Type} : IntervalScalar ν → String
  | .string _ => "string"
  | .number _ => "number"
  | .bigint _ => "bigint"
  | .bytes _ => "object"

/-- `a < b ? -1 : a > b ? 1 : 0`. -/
def cmpLT {α : Type} [LT α] [DecidableLT α] (a b : α) : Ordering :=
  if a < b then .lt else if b < a then .gt else .eq

section
variable {ν : Type} [FiniteNumber ν]

/-- The first byte that differs decides, then the length. -/
def cmpBytes : List UInt8 → List UInt8 → Ordering
  | [], [] => .eq
  | [], _ :: _ => .lt
  | _ :: _, [] => .gt
  | a :: as, b :: bs => if a.toNat ≠ b.toNat then cmpLT a.toNat b.toNat else cmpBytes as bs

def cmpScalar : IntervalScalar ν → IntervalScalar ν → Except Thrown Ordering
  | .string a, .string b => .ok (cmpLT (utf16 a) (utf16 b))
  | .number a, .number b => .ok (cmpLT (FiniteNumber.value a) (FiniteNumber.value b))
  | .bigint a, .bigint b => .ok (cmpLT a b)
  | .bytes a, .bytes b => .ok (cmpBytes a b)
  | a, b => .error (.typeError ("mixed scalar types: " ++ a.typeName ++ " vs " ++ b.typeName))

def cmpKey : IntervalKey ν → IntervalKey ν → Except Thrown Ordering
  | [], [] => .ok .eq
  | [], _ :: _ => .ok .lt
  | _ :: _, [] => .ok .gt
  | a :: as, b :: bs => do
    let c ← cmpScalar a b
    if c ≠ .eq then .ok c else cmpKey as bs

end

/-! ## Endpoints -/

inductive Endpoint (κ : Type)
  | negInf
  | posInf
  | value (key : κ) (inclusive : Bool)

structure Interval (κ : Type) where
  lo : Endpoint κ
  hi : Endpoint κ

inductive Side
  | lo
  | hi

def FULL {κ : Type} : Interval κ := ⟨.negInf, .posInf⟩

section
variable {κ : Type} (cmpKey : κ → κ → Except Thrown Ordering)

def cmpEndpoint (a b : Endpoint κ) (side : Side) : Except Thrown Ordering :=
  match a, b with
  | .negInf, .negInf => .ok .eq
  | .negInf, _ => .ok .lt
  | _, .negInf => .ok .gt
  | .posInf, .posInf => .ok .eq
  | .posInf, _ => .ok .gt
  | _, .posInf => .ok .lt
  | .value v i, .value w j => do
    let c ← cmpKey v w
    if c ≠ .eq then .ok c
    else if i = j then .ok .eq
    else match side with
      | .lo => .ok (if i then .lt else .gt)
      | .hi => .ok (if i then .gt else .lt)

def leLoHi (loEp hiEp : Endpoint κ) : Except Thrown Bool :=
  match loEp, hiEp with
  | .negInf, _ => .ok true
  | _, .posInf => .ok true
  | .posInf, _ => .ok false
  | _, .negInf => .ok false
  | .value v i, .value w j => do
    let c ← cmpKey v w
    if c ≠ .eq then .ok (c = .lt) else .ok (i && j)

def overlaps (a b : Interval κ) : Except Thrown Bool := do
  if ← leLoHi cmpKey a.lo b.hi then leLoHi cmpKey b.lo a.hi else .ok false

def contains (interval : Interval κ) (key : κ) : Except Thrown Bool := do
  let point : Endpoint κ := .value key true
  let below ← cmpEndpoint cmpKey interval.lo point .lo
  if below = .gt then .ok false
  else do
    let above ← cmpEndpoint cmpKey point interval.hi .hi
    .ok (above ≠ .gt)

end

/-! ## Ends as cuts -/

namespace Endpoint

variable {κ α : Type}

def map (f : κ → α) : Endpoint κ → Endpoint α
  | .negInf => .negInf
  | .posInf => .posInf
  | .value v i => .value (f v) i

/-- Where an interval with this lower end starts. -/
def loCut : Endpoint α → Cut α
  | .negInf => ⊥
  | .posInf => ⊤
  | .value v i => if i then before v else after v

/-- Where an interval with this upper end stops. -/
def hiCut : Endpoint α → Cut α
  | .negInf => ⊥
  | .posInf => ⊤
  | .value v i => if i then after v else before v

/-- The cut of an end on its side. -/
def cut : Side → Endpoint α → Cut α
  | .lo => loCut
  | .hi => hiCut

end Endpoint

/-- The elements of a linear order that an interval has. -/
def Interval.Mem {κ α : Type} [LinearOrder α] (f : κ → α) (a : Interval κ) (x : α) : Prop :=
  Within (a.lo.map f).loCut (a.hi.map f).hiCut x

/-- Where keys compare at all, they compare as their images in a linear order do. -/
def Agrees {κ α : Type} [LinearOrder α] (cmpKey : κ → κ → Except Thrown Ordering) (f : κ → α) :
    Prop := ∀ v w o, cmpKey v w = .ok o → o.Compares (f v) (f w)

section
variable {κ α : Type} [LinearOrder α]

theorem bot_lt_cut (side : Side) (v : α) (i : Bool) : ⊥ < (Endpoint.value v i).cut side := by
  cases side <;> cases i <;> exact WithBot.bot_lt_coe _

theorem cut_lt_top (side : Side) (v : α) (i : Bool) : (Endpoint.value v i).cut side < ⊤ := by
  cases side <;> cases i <;> exact WithBot.coe_lt_coe.mpr (WithTop.coe_lt_top _)

theorem cut_lt_cut (side : Side) {v w : α} (h : v < w) (i j : Bool) :
    (Endpoint.value v i).cut side < (Endpoint.value w j).cut side := by
  have hbb := before_lt_before_iff.mpr h
  have hba := before_lt_after_iff.mpr h.le
  have hab := after_lt_before_iff.mpr h
  have haa := after_lt_after_iff.mpr h
  cases side <;> cases i <;> cases j <;> assumption

variable {cmpKey : κ → κ → Except Thrown Ordering} {f : κ → α} (hf : Agrees cmpKey f)
include hf

theorem cmpEndpoint_compares {a b : Endpoint κ} {side : Side} {o : Ordering}
    (h : cmpEndpoint cmpKey a b side = .ok o) :
    o.Compares ((a.map f).cut side) ((b.map f).cut side) := by
  cases a with
  | negInf =>
    cases b with
    | negInf => cases h; cases side <;> rfl
    | posInf => cases h; cases side <;> exact bot_lt_top
    | value w j => cases h; cases side <;> exact bot_lt_cut _ (f w) j
  | posInf =>
    cases b with
    | negInf => cases h; cases side <;> exact bot_lt_top
    | posInf => cases h; cases side <;> rfl
    | value w j => cases h; cases side <;> exact cut_lt_top _ (f w) j
  | value v i =>
    cases b with
    | negInf => cases h; cases side <;> exact bot_lt_cut _ (f v) i
    | posInf => cases h; cases side <;> exact cut_lt_top _ (f v) i
    | value w j =>
      obtain ⟨c, hc, h⟩ := bind_ok h
      have hcmp := hf _ _ _ hc
      cases c with
      | lt =>
        obtain rfl := Except.ok.inj h
        exact cut_lt_cut side hcmp i j
      | gt =>
        obtain rfl := Except.ok.inj h
        exact cut_lt_cut side hcmp j i
      | eq =>
        have heq : f v = f w := hcmp
        have hlt := before_lt_after (f w)
        cases i <;> cases j <;> cases side <;> cases h <;>
          simp only [Endpoint.map, Endpoint.cut, Endpoint.loCut, Endpoint.hiCut, heq] <;>
          first | rfl | exact hlt

theorem contains_eq_true {a : Interval κ} {k : κ} (h : contains cmpKey a k = .ok true) :
    a.Mem f (f k) := by
  obtain ⟨below, hbelow, h⟩ := bind_ok h
  split at h
  · cases h
  · rename_i hne
    obtain ⟨above, habove, h⟩ := bind_ok h
    have hne' : above ≠ .gt := of_decide_eq_true (Except.ok.inj h)
    exact ⟨(cmpEndpoint_compares hf hbelow).ne_gt.mp hne,
      (cmpEndpoint_compares hf habove).ne_gt.mp hne'⟩

theorem contains_eq_false {a : Interval κ} {k : κ} (h : contains cmpKey a k = .ok false) :
    ¬a.Mem f (f k) := by
  rintro ⟨hlo, hhi⟩
  obtain ⟨below, hbelow, h⟩ := bind_ok h
  have hne : below ≠ .gt := (cmpEndpoint_compares hf hbelow).ne_gt.mpr hlo
  rw [if_neg hne] at h
  obtain ⟨above, habove, h⟩ := bind_ok h
  have hne' : above ≠ .gt := (cmpEndpoint_compares hf habove).ne_gt.mpr hhi
  exact of_decide_eq_false (Except.ok.inj h) hne'

/-- A lower end that is not over an upper end starts before it stops, both finite. -/
theorem leLoHi_eq_true {lo hi : Endpoint κ} (h : leLoHi cmpKey lo hi = .ok true)
    (hlo : (lo.map f).loCut ≠ ⊤) (hhi : (hi.map f).hiCut ≠ ⊥) :
    (lo.map f).loCut < (hi.map f).hiCut := by
  cases lo with
  | negInf =>
    cases hi with
    | negInf => exact absurd rfl hhi
    | posInf => exact bot_lt_top
    | value w j => exact bot_lt_cut .hi (f w) j
  | posInf => exact absurd rfl hlo
  | value v i =>
    cases hi with
    | negInf => cases h
    | posInf => exact cut_lt_top .lo (f v) i
    | value w j =>
      obtain ⟨c, hc, h⟩ := bind_ok h
      have hcmp := hf _ _ _ hc
      cases c with
      | lt =>
        have h₁ := before_lt_before_iff.mpr hcmp
        have h₂ := before_lt_after_iff.mpr (le_of_lt hcmp)
        have h₃ := after_lt_before_iff.mpr hcmp
        have h₄ := after_lt_after_iff.mpr hcmp
        cases i <;> cases j <;> assumption
      | gt => cases h
      | eq =>
        have heq : f v = f w := hcmp
        obtain ⟨rfl, rfl⟩ := Bool.and_eq_true_iff.mp (Except.ok.inj h)
        exact before_lt_after_iff.mpr heq.le

end

/-! ## Keys in a linear order -/

/-- Strings before numbers before bigints before byte arrays, each in their own order. -/
abbrev ScalarRank : Type := List Nat ⊕ₗ (Rat ⊕ₗ (Int ⊕ₗ List Nat))

section
variable {ν : Type} [FiniteNumber ν]

def IntervalScalar.rank : IntervalScalar ν → ScalarRank
  | .string s => toLex (.inl (utf16 s))
  | .number n => toLex (.inr (toLex (.inl (FiniteNumber.value n))))
  | .bigint i => toLex (.inr (toLex (.inr (toLex (.inl i)))))
  | .bytes b => toLex (.inr (toLex (.inr (toLex (.inr (b.map UInt8.toNat))))))

def rankKey (key : IntervalKey ν) : List ScalarRank := key.map IntervalScalar.rank

theorem cmpLT_compares {α : Type} [LinearOrder α] [DecidableLT α] (a b : α) :
    (cmpLT a b).Compares a b := by
  unfold cmpLT
  split
  · assumption
  · split
    · assumption
    · exact le_antisymm (not_lt.mp ‹_›) (not_lt.mp ‹_›)

theorem compares_cons {α : Type} [LinearOrder α] {a b : α} {as bs : List α} {o : Ordering}
    (h : o.Compares a b) (ho : o ≠ .eq) : o.Compares (a :: as) (b :: bs) := by
  cases o with
  | lt => exact List.cons_lt_cons_iff.mpr (.inl h)
  | eq => exact absurd rfl ho
  | gt => exact List.cons_lt_cons_iff.mpr (.inl h)

theorem compares_cons_same {α : Type} [LinearOrder α] {a b : α} {as bs : List α} {o : Ordering}
    (hab : a = b) (h : o.Compares as bs) : o.Compares (a :: as) (b :: bs) := by
  subst hab
  cases o with
  | lt => exact List.cons_lt_cons_iff.mpr (.inr ⟨rfl, h⟩)
  | eq => exact congrArg _ h
  | gt => exact List.cons_lt_cons_iff.mpr (.inr ⟨rfl, h⟩)

theorem cmpBytes_compares (as bs : List UInt8) :
    (cmpBytes as bs).Compares (as.map UInt8.toNat) (bs.map UInt8.toNat) := by
  induction as generalizing bs with
  | nil =>
    cases bs with
    | nil => rfl
    | cons b bs => exact List.nil_lt_cons _ _
  | cons a as ih =>
    cases bs with
    | nil => exact List.nil_lt_cons _ _
    | cons b bs =>
      rw [cmpBytes]
      split
      · rename_i hne
        exact compares_cons (cmpLT_compares _ _) fun h => hne ((cmpLT_compares _ _).eq_eq.mp h)
      · rename_i heq
        exact compares_cons_same (not_not.mp heq) (ih bs)

theorem cmpScalar_compares {a b : IntervalScalar ν} {o : Ordering} (h : cmpScalar a b = .ok o) :
    o.Compares a.rank b.rank := by
  cases a <;> cases b <;> cases h
  · exact Sum.Lex.inl_strictMono.compares.mpr (cmpLT_compares _ _)
  · exact Sum.Lex.inr_strictMono.compares.mpr
      (Sum.Lex.inl_strictMono.compares.mpr (cmpLT_compares _ _))
  · exact Sum.Lex.inr_strictMono.compares.mpr (Sum.Lex.inr_strictMono.compares.mpr
      (Sum.Lex.inl_strictMono.compares.mpr (cmpLT_compares _ _)))
  · exact Sum.Lex.inr_strictMono.compares.mpr (Sum.Lex.inr_strictMono.compares.mpr
      (Sum.Lex.inr_strictMono.compares.mpr (cmpBytes_compares _ _)))

theorem cmpKey_cons_ok {a b : IntervalScalar ν} {as bs : IntervalKey ν} {o : Ordering} :
    cmpKey (a :: as) (b :: bs) = .ok o ↔
      ∃ c, cmpScalar a b = .ok c ∧ (c ≠ .eq ∧ c = o ∨ c = .eq ∧ cmpKey as bs = .ok o) := by
  rw [cmpKey]
  constructor
  · intro h
    obtain ⟨c, hc, h⟩ := bind_ok h
    split at h
    · rename_i hne
      exact ⟨c, hc, .inl ⟨hne, Except.ok.inj h⟩⟩
    · rename_i heq
      exact ⟨c, hc, .inr ⟨not_not.mp heq, h⟩⟩
  · rintro ⟨c, hc, ⟨hne, rfl⟩ | ⟨rfl, h⟩⟩
    · rw [hc]
      exact if_pos hne
    · rw [hc]
      exact h

theorem cmpKey_agrees : Agrees (cmpKey (ν := ν)) rankKey := by
  intro v
  induction v with
  | nil =>
    intro w o h
    cases w with
    | nil =>
      obtain rfl := Except.ok.inj h
      rfl
    | cons b bs =>
      obtain rfl := Except.ok.inj h
      exact List.nil_lt_cons _ _
  | cons a as ih =>
    intro w o h
    cases w with
    | nil =>
      obtain rfl := Except.ok.inj h
      exact List.nil_lt_cons _ _
    | cons b bs =>
      obtain ⟨c, hc, ⟨hne, rfl⟩ | ⟨rfl, h⟩⟩ := cmpKey_cons_ok.mp h
      · exact compares_cons (cmpScalar_compares hc) hne
      · exact compares_cons_same (cmpScalar_compares hc) (ih bs o h)

/-- Scalars of the same type compare. -/
theorem cmpScalar_trans {a b c : IntervalScalar ν} {o o' : Ordering} (h : cmpScalar a b = .ok o)
    (h' : cmpScalar b c = .ok o') : ∃ o'', cmpScalar a c = .ok o'' := by
  cases a <;> cases b <;> cases h
  all_goals cases c <;> first | exact ⟨_, rfl⟩ | cases h'

/-- What compares with a key from below and from above compares. -/
theorem cmpKey_trans {a b c : IntervalKey ν} {o o' : Ordering} (h : cmpKey a b = .ok o)
    (ho : o ≠ .gt) (h' : cmpKey b c = .ok o') (ho' : o' ≠ .gt) : ∃ o'', cmpKey a c = .ok o'' := by
  induction a generalizing b c with
  | nil => cases c <;> exact ⟨_, rfl⟩
  | cons x as ih =>
    cases b with
    | nil => exact absurd (Except.ok.inj h).symm ho
    | cons y bs =>
      cases c with
      | nil => exact absurd (Except.ok.inj h').symm ho'
      | cons z cs =>
        obtain ⟨c₁, hc₁, h⟩ := cmpKey_cons_ok.mp h
        obtain ⟨c₂, hc₂, h'⟩ := cmpKey_cons_ok.mp h'
        obtain ⟨c₃, hc₃⟩ := cmpScalar_trans hc₁ hc₂
        by_cases heq : c₃ = .eq
        · have hxz : x.rank = z.rank := (cmpScalar_compares hc₃).eq_eq.mp heq
          have hne₁ : c₁ ≠ .gt := by rcases h with ⟨-, rfl⟩ | ⟨rfl, -⟩ <;> first | exact ho | decide
          have hne₂ : c₂ ≠ .gt := by rcases h' with ⟨-, rfl⟩ | ⟨rfl, -⟩ <;> first | exact ho' | decide
          have hxy := (cmpScalar_compares hc₁).ne_gt.mp hne₁
          have hyz := (cmpScalar_compares hc₂).ne_gt.mp hne₂
          have hc₁' : c₁ = .eq :=
            (cmpScalar_compares hc₁).eq_eq.mpr (le_antisymm hxy (hyz.trans hxz.ge))
          have hc₂' : c₂ = .eq :=
            (cmpScalar_compares hc₂).eq_eq.mpr (le_antisymm hyz (hxz.ge.trans hxy))
          obtain ⟨-, h⟩ := h.resolve_left fun h => h.1 hc₁'
          obtain ⟨-, h'⟩ := h'.resolve_left fun h => h.1 hc₂'
          obtain ⟨o'', hrest⟩ := ih h h'
          exact ⟨o'', cmpKey_cons_ok.mpr ⟨c₃, hc₃, .inr ⟨heq, hrest⟩⟩⟩
        · exact ⟨c₃, cmpKey_cons_ok.mpr ⟨c₃, hc₃, .inl ⟨heq, rfl⟩⟩⟩

end

end Chardb.Intervals
