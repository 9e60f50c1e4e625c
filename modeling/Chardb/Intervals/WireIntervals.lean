import Chardb.Intervals.Interval
import Chardb.Lib.Bytes
import Chardb.Lib.Json

/-!
# Intervals on the wire

Bigints and byte arrays travel as tagged strings. `wireIntervalsCover` decides whether the declared
intervals, merged where they touch, cover every observed one.
-/

namespace Chardb.Intervals

open Chardb.Lib

variable {ν : Type}

/-! ## Scalars -/

/-- The tag of a byte array. -/
def bytesTag : List Char := [Char.ofNat 0, 'b', 'i', 'n', ':']

/-- The tag of a bigint. -/
def bigintTag : List Char := [Char.ofNat 0, 'b', 'i', ':']

def scalarToJson : IntervalScalar ν → Json ν
  | .bytes b => .str (String.ofList (bytesTag ++ btoa b))
  | .bigint i => .str (String.ofList (bigintTag ++ intText i))
  | .string s => .str s
  | .number n => .num n

/-- White space and line terminators. -/
def isJsSpace (c : Char) : Bool :=
  (9 ≤ c.toNat && c.toNat ≤ 13) || c.toNat = 32 || c.toNat = 0xA0 || c.toNat = 0x1680 ||
    (0x2000 ≤ c.toNat && c.toNat ≤ 0x200A) || c.toNat = 0x2028 || c.toNat = 0x2029 ||
    c.toNat = 0x202F || c.toNat = 0x205F || c.toNat = 0x3000 || c.toNat = 0xFEFF

def hexDigit? (c : Char) : Option Nat :=
  if c.isDigit then some (c.toNat - 48)
  else if 'a' ≤ c ∧ c ≤ 'f' then some (c.toNat - 87)
  else if 'A' ≤ c ∧ c ≤ 'F' then some (c.toNat - 55)
  else none

/-- Digits of a base, at least one. -/
def natOfDigits? (base : Nat) (cs : List Char) : Option Int :=
  match cs.mapM hexDigit? with
  | some (d :: ds) =>
    if (d :: ds).all (· < base) then some ((d :: ds).foldl (fun n d => n * base + d) 0 : Nat) else none
  | _ => none

/-- `BigInt(text)`, `none` where it throws. -/
def bigIntOfText (text : List Char) : Option Int :=
  match (text.dropWhile isJsSpace).reverse.dropWhile isJsSpace |>.reverse with
  | [] => some 0
  | '0' :: 'x' :: cs | '0' :: 'X' :: cs => natOfDigits? 16 cs
  | '0' :: 'o' :: cs | '0' :: 'O' :: cs => natOfDigits? 8 cs
  | '0' :: 'b' :: cs | '0' :: 'B' :: cs => natOfDigits? 2 cs
  | '-' :: cs => (natOfDigits? 10 cs).map fun n => -n
  | '+' :: cs => natOfDigits? 10 cs
  | cs => natOfDigits? 10 cs

def jsonToScalar : Json ν → Except Thrown (IntervalScalar ν)
  | .str s =>
    if bytesTag.isPrefixOf s.toList then
      match atob (s.toList.drop 5) with
      | some b => .ok (.bytes b)
      | none => .error (.error "The string to be decoded is not correctly encoded.")
    else if bigintTag.isPrefixOf s.toList then
      match bigIntOfText (s.toList.drop 4) with
      | some i => .ok (.bigint i)
      | none => .error (.error "Failed to parse String to BigInt")
    else .ok (.string s)
  | .num n => .ok (.number n)
  | .bool _ => .error (.typeError "unsupported interval scalar in wire: boolean")
  | .null | .arr _ | .obj _ => .error (.typeError "unsupported interval scalar in wire: object")

/-! ## Intervals -/

inductive WireEndpoint (ν : Type)
  | negInf
  | posInf
  | value (value : List (Json ν)) (inclusive : Bool)

inductive WireInterval (ν : Type)
  | full
  | range (lo hi : WireEndpoint ν)

def endpointToWire : Endpoint (IntervalKey ν) → WireEndpoint ν
  | .negInf => .negInf
  | .posInf => .posInf
  | .value v i => .value (v.map scalarToJson) i

def endpointFromWire : WireEndpoint ν → Except Thrown (Endpoint (IntervalKey ν))
  | .negInf => .ok .negInf
  | .posInf => .ok .posInf
  | .value v i => do
    let key ← v.mapM jsonToScalar
    .ok (.value key i)

def intervalToWire (iv : Interval (IntervalKey ν)) : WireInterval ν :=
  match iv.lo, iv.hi with
  | .negInf, .posInf => .full
  | lo, hi => .range (endpointToWire lo) (endpointToWire hi)

def intervalFromWire : WireInterval ν → Except Thrown (Interval (IntervalKey ν))
  | .full => .ok FULL
  | .range lo hi => do
    let lo ← endpointFromWire lo
    let hi ← endpointFromWire hi
    .ok { lo, hi }

/-! ## Covering -/

section
variable {κ : Type} (cmpKey : κ → κ → Except Thrown Ordering)

def intervalCovers (declared observed : Interval κ) : Except Thrown Bool := do
  let lo ← cmpEndpoint cmpKey declared.lo observed.lo .lo
  if lo = .gt then .ok false
  else do
    let hi ← cmpEndpoint cmpKey declared.hi observed.hi .hi
    .ok (hi ≠ .lt)

def endsTouch (leftHi rightLo : Endpoint κ) : Except Thrown Bool :=
  match leftHi, rightLo with
  | .posInf, _ => .ok true
  | _, .negInf => .ok true
  | .negInf, _ => .ok false
  | _, .posInf => .ok false
  | .value v i, .value w j => do
    let order ← cmpKey v w
    if order ≠ .eq then .ok (order = .gt) else .ok (i || j)

def intervalsTouchOrOverlap (left right : Interval κ) : Except Thrown Bool :=
  endsTouch cmpKey left.hi right.lo

def insertByLo (a : Interval κ) : List (Interval κ) → Except Thrown (List (Interval κ))
  | [] => .ok [a]
  | b :: bs => do
    let order ← cmpEndpoint cmpKey a.lo b.lo .lo
    if order ≠ .gt then .ok (a :: b :: bs)
    else do
      let rest ← insertByLo a bs
      .ok (b :: rest)

/-- `sort` by the lower ends, stable. Every sort throws when two of the ends cannot be compared. -/
def sortByLo : List (Interval κ) → Except Thrown (List (Interval κ))
  | [] => .ok []
  | a :: as => do
    let sorted ← sortByLo as
    insertByLo cmpKey a sorted

def mergeStep (merged : List (Interval κ)) (interval : Interval κ) :
    Except Thrown (List (Interval κ)) :=
  match merged.getLast? with
  | none => .ok (merged ++ [interval])
  | some previous => do
    let touch ← intervalsTouchOrOverlap cmpKey previous interval
    if touch then do
      let order ← cmpEndpoint cmpKey interval.hi previous.hi .hi
      if order = .gt then .ok (merged.dropLast ++ [{ lo := previous.lo, hi := interval.hi }])
      else .ok merged
    else .ok (merged ++ [interval])

def mergedIntervals (intervals : List (Interval κ)) : Except Thrown (List (Interval κ)) := do
  let sorted ← sortByLo cmpKey intervals
  sorted.foldlM (mergeStep cmpKey) []

/-- `some` over the merged intervals. -/
def someCovers (actual : Interval κ) : List (Interval κ) → Except Thrown Bool
  | [] => .ok false
  | interval :: rest => do
    let covers ← intervalCovers cmpKey interval actual
    if covers then .ok true else someCovers actual rest

end

section
variable [FiniteNumber ν]

/-- `every` over the observed intervals. -/
def everyCovered (declaredIntervals : List (Interval (IntervalKey ν))) :
    List (WireInterval ν) → Except Thrown Bool
  | [] => .ok true
  | candidate :: rest => do
    let actual ← intervalFromWire candidate
    let covered ← someCovers cmpKey actual declaredIntervals
    if covered then everyCovered declaredIntervals rest else .ok false

def WireInterval.isFull : WireInterval ν → Bool
  | .full => true
  | .range _ _ => false

/-- The part under `try`. -/
def coverMerged (declared observed : List (WireInterval ν)) : Except Thrown Bool := do
  let intervals ← declared.mapM intervalFromWire
  let declaredIntervals ← mergedIntervals cmpKey intervals
  everyCovered declaredIntervals observed

/-- True when every observed interval is wholly contained by the union of the declared intervals;
`none` is the observation `"full"`. -/
def wireIntervalsCover (declared : List (WireInterval ν)) (observed : Option (List (WireInterval ν))) :
    Bool :=
  if declared.any WireInterval.isFull then true
  else match observed with
    | none => false
    | some observed =>
      match coverMerged declared observed with
      | .ok covered => covered
      | .error _ => false

end

/-! ## What the comparisons say -/

/-- The ends of one interval lie within the ends of the other. -/
def Interval.Covers {κ α : Type} [LinearOrder α] (f : κ → α) (a b : Interval κ) : Prop :=
  (a.lo.map f).loCut ≤ (b.lo.map f).loCut ∧ (b.hi.map f).hiCut ≤ (a.hi.map f).hiCut

section
variable {κ : Type} {cmpKey : κ → κ → Except Thrown Ordering}

theorem insertByLo_perm {a : Interval κ} {l s : List (Interval κ)}
    (h : insertByLo cmpKey a l = .ok s) : s.Perm (a :: l) := by
  induction l generalizing s with
  | nil =>
    obtain rfl := Except.ok.inj h
    exact .refl _
  | cons b bs ih =>
    obtain ⟨order, -, h⟩ := bind_ok h
    split at h
    · obtain rfl := Except.ok.inj h
      exact .refl _
    · obtain ⟨rest, hrest, h⟩ := bind_ok h
      obtain rfl := Except.ok.inj h
      exact ((ih hrest).cons b).trans (.swap a b bs)

theorem sortByLo_perm {l s : List (Interval κ)} (h : sortByLo cmpKey l = .ok s) : s.Perm l := by
  induction l generalizing s with
  | nil =>
    obtain rfl := Except.ok.inj h
    exact .refl _
  | cons a as ih =>
    obtain ⟨sorted, hsorted, h⟩ := bind_ok h
    exact (insertByLo_perm h).trans ((ih hsorted).cons a)

end

section
variable {κ α : Type} [LinearOrder α] {cmpKey : κ → κ → Except Thrown Ordering} {f : κ → α}

theorem Interval.Covers.mem {a b : Interval κ} (h : a.Covers f b) {x : α} (hx : b.Mem f x) :
    a.Mem f x := hx.mono h.1 h.2

theorem Interval.Covers.trans {a b c : Interval κ} (h : a.Covers f b) (h' : b.Covers f c) :
    a.Covers f c := ⟨h.1.trans h'.1, h'.2.trans h.2⟩

theorem Interval.Covers.refl (a : Interval κ) : a.Covers f a := ⟨le_rfl, le_rfl⟩

variable (hf : Agrees cmpKey f)
include hf

theorem intervalCovers_eq {a b : Interval κ} {c : Bool} (h : intervalCovers cmpKey a b = .ok c) :
    c = true ↔ a.Covers f b := by
  obtain ⟨lo, hlo, h⟩ := bind_ok h
  have hlo := cmpEndpoint_compares hf hlo
  split at h
  · rename_i hgt
    obtain rfl := Except.ok.inj h
    exact ⟨fun h => (by cases h), fun h => absurd hgt (hlo.ne_gt.mpr h.1)⟩
  · rename_i hne
    obtain ⟨hi, hhi, h⟩ := bind_ok h
    have hhi := cmpEndpoint_compares hf hhi
    obtain rfl := Except.ok.inj h
    rw [decide_eq_true_eq]
    exact ⟨fun h => ⟨hlo.ne_gt.mp hne, hhi.ne_lt.mp h⟩, fun h => hhi.ne_lt.mpr h.2⟩

theorem endsTouch_eq {hi lo : Endpoint κ} {c : Bool} (h : endsTouch cmpKey hi lo = .ok c) :
    c = true ↔ (lo.map f).loCut ≤ (hi.map f).hiCut := by
  cases hi with
  | posInf =>
    obtain rfl : c = true := by cases lo <;> exact (Except.ok.inj h).symm
    exact ⟨fun _ => le_top, fun _ => rfl⟩
  | negInf =>
    cases lo with
    | negInf =>
      obtain rfl := Except.ok.inj h
      exact ⟨fun _ => le_rfl, fun _ => rfl⟩
    | posInf =>
      obtain rfl := Except.ok.inj h
      exact ⟨fun h => (by cases h), fun h => absurd h bot_lt_top.not_ge⟩
    | value w j =>
      obtain rfl := Except.ok.inj h
      exact ⟨fun h => (by cases h), fun h => absurd h (bot_lt_cut .lo (f w) j).not_ge⟩
  | value v i =>
    cases lo with
    | negInf =>
      obtain rfl := Except.ok.inj h
      exact ⟨fun _ => bot_le, fun _ => rfl⟩
    | posInf =>
      obtain rfl := Except.ok.inj h
      exact ⟨fun h => (by cases h), fun h => absurd h (cut_lt_top .hi (f v) i).not_ge⟩
    | value w j =>
      obtain ⟨order, horder, h⟩ := bind_ok h
      have hcmp := hf _ _ _ horder
      cases order with
      | lt =>
        obtain rfl := Except.ok.inj h
        have h₁ := before_lt_before_iff.mpr hcmp
        have h₂ := before_lt_after_iff.mpr (le_of_lt hcmp)
        have h₃ := after_lt_before_iff.mpr hcmp
        have h₄ := after_lt_after_iff.mpr hcmp
        refine ⟨fun h => (by cases h), fun h => absurd h ?_⟩
        cases i <;> cases j <;> exact not_le_of_gt (by assumption)
      | gt =>
        obtain rfl := Except.ok.inj h
        have h₁ := before_lt_before_iff.mpr hcmp
        have h₂ := before_lt_after_iff.mpr (le_of_lt hcmp)
        have h₃ := after_lt_before_iff.mpr hcmp
        have h₄ := after_lt_after_iff.mpr hcmp
        refine ⟨fun _ => ?_, fun _ => rfl⟩
        cases i <;> cases j <;> exact le_of_lt (by assumption)
      | eq =>
        obtain rfl := Except.ok.inj h
        have heq : f v = f w := hcmp
        have hlt := before_lt_after (f w)
        cases i <;> cases j <;>
          simp only [Endpoint.map, Endpoint.loCut, Endpoint.hiCut, heq] <;> simp [hlt.le, hlt]

/-- Merging adds no element. -/
theorem mergeStep_mem {merged merged' : List (Interval κ)} {interval : Interval κ}
    (h : mergeStep cmpKey merged interval = .ok merged') {x : α}
    (hx : ∃ m ∈ merged', m.Mem f x) : (∃ m ∈ merged, m.Mem f x) ∨ interval.Mem f x := by
  have happend : (∃ m ∈ merged ++ [interval], m.Mem f x) →
      (∃ m ∈ merged, m.Mem f x) ∨ interval.Mem f x := by
    rintro ⟨m, hm, hx⟩
    rcases List.mem_append.mp hm with hm | hm
    · exact .inl ⟨m, hm, hx⟩
    · obtain rfl := List.mem_singleton.mp hm
      exact .inr hx
  unfold mergeStep at h
  cases hlast : merged.getLast? with
  | none =>
    rw [hlast] at h
    obtain rfl := Except.ok.inj h
    exact happend hx
  | some previous =>
    rw [hlast] at h
    obtain ⟨touch, htouch, h⟩ := bind_ok h
    cases touch with
    | false =>
      obtain rfl := Except.ok.inj h
      exact happend hx
    | true =>
      have hgap := (endsTouch_eq hf htouch).mp rfl
      obtain ⟨order, -, h⟩ := bind_ok h
      split at h
      · obtain rfl := Except.ok.inj h
        obtain ⟨m, hm, hx⟩ := hx
        rcases List.mem_append.mp hm with hm | hm
        · exact .inl ⟨m, List.dropLast_subset _ hm, hx⟩
        · obtain rfl := List.mem_singleton.mp hm
          exact (Within.split hx hgap).imp (fun h => ⟨previous, List.mem_of_getLast? hlast, h⟩) id
      · obtain rfl := Except.ok.inj h
        exact .inl hx

theorem foldlM_mergeStep_mem {l merged merged' : List (Interval κ)}
    (h : l.foldlM (mergeStep cmpKey) merged = .ok merged') {x : α} (hx : ∃ m ∈ merged', m.Mem f x) :
    (∃ m ∈ merged, m.Mem f x) ∨ ∃ a ∈ l, a.Mem f x := by
  induction l generalizing merged with
  | nil =>
    obtain rfl := Except.ok.inj h
    exact .inl hx
  | cons a l ih =>
    rw [List.foldlM_cons] at h
    obtain ⟨merged₁, hstep, h⟩ := bind_ok h
    rcases ih h with hx | ⟨b, hb, hx⟩
    · exact (mergeStep_mem hf hstep hx).imp id fun hx => ⟨a, List.mem_cons_self, hx⟩
    · exact .inr ⟨b, List.mem_cons_of_mem _ hb, hx⟩

/-- What is in a merged interval is in one of the intervals. -/
theorem mergedIntervals_mem {l merged : List (Interval κ)}
    (h : mergedIntervals cmpKey l = .ok merged) {x : α} (hx : ∃ m ∈ merged, m.Mem f x) :
    ∃ a ∈ l, a.Mem f x := by
  obtain ⟨sorted, hsorted, h⟩ := bind_ok h
  rcases foldlM_mergeStep_mem hf h hx with ⟨m, hm, -⟩ | ⟨a, ha, hx⟩
  · cases hm
  · exact ⟨a, (sortByLo_perm hsorted).mem_iff.mp ha, hx⟩

theorem someCovers_eq_true {actual : Interval κ} {l : List (Interval κ)}
    (h : someCovers cmpKey actual l = .ok true) : ∃ m ∈ l, m.Covers f actual := by
  induction l with
  | nil => cases h
  | cons m l ih =>
    obtain ⟨covers, hcovers, h⟩ := bind_ok h
    cases covers with
    | true => exact ⟨m, List.mem_cons_self, (intervalCovers_eq hf hcovers).mp rfl⟩
    | false =>
      obtain ⟨m', hm', h⟩ := ih h
      exact ⟨m', List.mem_cons_of_mem _ hm', h⟩

end

/-! ## When the keys compare -/

def Endpoint.KeyIn {κ : Type} (S : κ → Prop) : Endpoint κ → Prop
  | .value v _ => S v
  | .negInf | .posInf => True

/-- The keys of both ends are among these. -/
def Interval.KeysIn {κ : Type} (S : κ → Prop) (a : Interval κ) : Prop :=
  a.lo.KeyIn S ∧ a.hi.KeyIn S

section
variable {κ α : Type} [LinearOrder α] {cmpKey : κ → κ → Except Thrown Ordering} {f : κ → α}
  {S : κ → Prop} (hS : ∀ v w, S v → S w → ∃ o, cmpKey v w = .ok o)
include hS

theorem cmpEndpoint_total {a b : Endpoint κ} (ha : a.KeyIn S) (hb : b.KeyIn S) (side : Side) :
    ∃ o, cmpEndpoint cmpKey a b side = .ok o := by
  cases a with
  | negInf => cases b <;> exact ⟨_, rfl⟩
  | posInf => cases b <;> exact ⟨_, rfl⟩
  | value v i =>
    cases b with
    | negInf => exact ⟨_, rfl⟩
    | posInf => exact ⟨_, rfl⟩
    | value w j =>
      obtain ⟨c, hc⟩ := hS v w ha hb
      unfold cmpEndpoint
      dsimp only
      rw [hc]
      by_cases hne : c ≠ .eq
      · exact ⟨_, if_pos hne⟩
      · by_cases hij : i = j
        · exact ⟨_, (if_neg hne).trans (if_pos hij)⟩
        · cases side <;> exact ⟨_, (if_neg hne).trans (if_neg hij)⟩

theorem endsTouch_total {hi lo : Endpoint κ} (hhi : hi.KeyIn S) (hlo : lo.KeyIn S) :
    ∃ c, endsTouch cmpKey hi lo = .ok c := by
  cases hi with
  | negInf => cases lo <;> exact ⟨_, rfl⟩
  | posInf => cases lo <;> exact ⟨_, rfl⟩
  | value v i =>
    cases lo with
    | negInf => exact ⟨_, rfl⟩
    | posInf => exact ⟨_, rfl⟩
    | value w j =>
      obtain ⟨c, hc⟩ := hS v w hhi hlo
      rw [endsTouch, hc]
      by_cases hne : c ≠ .eq
      · exact ⟨_, if_pos hne⟩
      · exact ⟨_, if_neg hne⟩

theorem intervalCovers_total {a b : Interval κ} (ha : a.KeysIn S) (hb : b.KeysIn S) :
    ∃ c, intervalCovers cmpKey a b = .ok c := by
  obtain ⟨lo, hlo⟩ := cmpEndpoint_total hS ha.1 hb.1 .lo
  obtain ⟨hi, hhi⟩ := cmpEndpoint_total hS ha.2 hb.2 .hi
  rw [intervalCovers, hlo]
  by_cases hgt : lo = .gt
  · exact ⟨_, if_pos hgt⟩
  · refine ⟨decide (hi ≠ .lt), (if_neg hgt).trans ?_⟩
    rw [hhi]
    rfl

variable (hf : Agrees cmpKey f)
include hf

theorem insertByLo_total {a : Interval κ} (ha : a.KeysIn S) {l : List (Interval κ)}
    (hl : ∀ b ∈ l, b.KeysIn S)
    (hsorted : l.Pairwise fun b c => (b.lo.map f).loCut ≤ (c.lo.map f).loCut) :
    ∃ s, insertByLo cmpKey a l = .ok s ∧
      s.Pairwise fun b c => (b.lo.map f).loCut ≤ (c.lo.map f).loCut := by
  induction l with
  | nil => exact ⟨[a], rfl, List.pairwise_singleton _ _⟩
  | cons b bs ih =>
    obtain ⟨hb, hbs⟩ := List.forall_mem_cons.mp hl
    obtain ⟨hfirst, hrest⟩ := List.pairwise_cons.mp hsorted
    obtain ⟨order, horder⟩ := cmpEndpoint_total hS ha.1 hb.1 .lo
    have hcmp := cmpEndpoint_compares hf horder
    rw [insertByLo, horder]
    by_cases hne : order ≠ .gt
    · have hab := hcmp.ne_gt.mp hne
      refine ⟨_, if_pos hne, List.pairwise_cons.mpr ⟨fun c hc => ?_, hsorted⟩⟩
      rcases List.mem_cons.mp hc with rfl | hc
      · exact hab
      · exact hab.trans (hfirst c hc)
    · obtain ⟨s, hs, hpairwise⟩ := ih hbs hrest
      have hba := (hcmp.eq_gt.mp (not_not.mp hne)).le
      refine ⟨b :: s, (if_neg hne).trans (by rw [hs]; rfl), List.pairwise_cons.mpr ⟨fun c hc => ?_,
        hpairwise⟩⟩
      rcases List.mem_cons.mp ((insertByLo_perm hs).mem_iff.mp hc) with rfl | hc
      · exact hba
      · exact hfirst c hc

theorem sortByLo_total {l : List (Interval κ)} (hl : ∀ b ∈ l, b.KeysIn S) :
    ∃ s, sortByLo cmpKey l = .ok s ∧
      s.Pairwise fun b c => (b.lo.map f).loCut ≤ (c.lo.map f).loCut := by
  induction l with
  | nil => exact ⟨[], rfl, .nil⟩
  | cons a as ih =>
    obtain ⟨ha, has⟩ := List.forall_mem_cons.mp hl
    obtain ⟨s, hs, hsorted⟩ := ih has
    obtain ⟨s', hs', hsorted'⟩ := insertByLo_total hS hf ha
      (fun b hb => has b ((sortByLo_perm hs).mem_iff.mp hb)) hsorted
    exact ⟨s', by rw [sortByLo, hs]; exact hs', hsorted'⟩

/-- A step covers the interval it takes and what was covered before. -/
theorem mergeStep_total {merged : List (Interval κ)} {a : Interval κ}
    (hmerged : ∀ m ∈ merged, m.KeysIn S) (ha : a.KeysIn S)
    (hlo : ∀ m ∈ merged, (m.lo.map f).loCut ≤ (a.lo.map f).loCut) :
    ∃ merged', mergeStep cmpKey merged a = .ok merged' ∧ (∀ m ∈ merged', m.KeysIn S) ∧
      (∀ m ∈ merged', (m.lo.map f).loCut ≤ (a.lo.map f).loCut) ∧
      (∃ m ∈ merged', m.Covers f a) ∧
      ∀ b, (∃ m ∈ merged, m.Covers f b) → ∃ m ∈ merged', m.Covers f b := by
  have happend : (∀ m ∈ merged ++ [a], m.KeysIn S) ∧
      (∀ m ∈ merged ++ [a], (m.lo.map f).loCut ≤ (a.lo.map f).loCut) ∧
      (∃ m ∈ merged ++ [a], m.Covers f a) ∧
      ∀ b, (∃ m ∈ merged, m.Covers f b) → ∃ m ∈ merged ++ [a], m.Covers f b := by
    simp only [List.forall_mem_append, List.forall_mem_singleton]
    exact ⟨⟨hmerged, ha⟩, ⟨hlo, le_rfl⟩,
      ⟨a, List.mem_append_right _ (List.mem_singleton_self a), .refl a⟩,
      fun b ⟨m, hm, hb⟩ => ⟨m, List.mem_append_left _ hm, hb⟩⟩
  unfold mergeStep
  cases hlast : merged.getLast? with
  | none => exact ⟨_, rfl, happend⟩
  | some previous =>
    have hprevious := List.mem_of_getLast? hlast
    obtain ⟨touch, htouch⟩ := endsTouch_total hS (hmerged _ hprevious).2 ha.1
    have hgap : intervalsTouchOrOverlap cmpKey previous a = .ok touch := htouch
    dsimp only
    rw [hgap]
    cases touch with
    | false => exact ⟨_, rfl, happend⟩
    | true =>
      obtain ⟨order, horder⟩ := cmpEndpoint_total hS ha.2 (hmerged _ hprevious).2 .hi
      have hcmp := cmpEndpoint_compares hf horder
      have hsplit : merged = merged.dropLast ++ [previous] := by
        obtain ⟨init, hinit⟩ := List.getLast?_eq_some_iff.mp hlast
        rw [hinit, List.dropLast_concat]
      by_cases hgt : order = .gt
      · have hhi := (hcmp.eq_gt.mp hgt).le
        refine ⟨merged.dropLast ++ [{ lo := previous.lo, hi := a.hi }], ?_, ?_, ?_, ?_, ?_⟩
        · show (cmpEndpoint cmpKey a.hi previous.hi .hi >>= _) = _
          rw [horder]
          exact if_pos hgt
        · simp only [List.forall_mem_append, List.forall_mem_singleton]
          exact ⟨fun m hm => hmerged m (List.dropLast_subset _ hm), (hmerged _ hprevious).1, ha.2⟩
        · simp only [List.forall_mem_append, List.forall_mem_singleton]
          exact ⟨fun m hm => hlo m (List.dropLast_subset _ hm), hlo _ hprevious⟩
        · exact ⟨_, List.mem_append_right _ (List.mem_singleton_self _), hlo previous hprevious, le_rfl⟩
        · rintro b ⟨m, hm, hb⟩
          rw [hsplit] at hm
          rcases List.mem_append.mp hm with hm | hm
          · exact ⟨m, List.mem_append_left _ hm, hb⟩
          · obtain rfl := List.mem_singleton.mp hm
            exact ⟨_, List.mem_append_right _ (List.mem_singleton_self _), hb.1, hb.2.trans hhi⟩
      · have hhi := hcmp.ne_gt.mp hgt
        refine ⟨merged, ?_, hmerged, hlo, ⟨previous, hprevious, hlo _ hprevious, hhi⟩, fun b hb => hb⟩
        show (cmpEndpoint cmpKey a.hi previous.hi .hi >>= _) = _
        rw [horder]
        exact if_neg hgt

theorem foldlM_mergeStep_total {l merged : List (Interval κ)} (hl : ∀ a ∈ l, a.KeysIn S)
    (hmerged : ∀ m ∈ merged, m.KeysIn S)
    (hsorted : l.Pairwise fun b c => (b.lo.map f).loCut ≤ (c.lo.map f).loCut)
    (hlo : ∀ m ∈ merged, ∀ a ∈ l, (m.lo.map f).loCut ≤ (a.lo.map f).loCut) :
    ∃ merged', l.foldlM (mergeStep cmpKey) merged = .ok merged' ∧ (∀ m ∈ merged', m.KeysIn S) ∧
      (∀ a ∈ l, ∃ m ∈ merged', m.Covers f a) ∧
      ∀ b, (∃ m ∈ merged, m.Covers f b) → ∃ m ∈ merged', m.Covers f b := by
  induction l generalizing merged with
  | nil => exact ⟨merged, rfl, hmerged, fun a ha => (by cases ha), fun b hb => hb⟩
  | cons a l ih =>
    obtain ⟨ha, hl⟩ := List.forall_mem_cons.mp hl
    obtain ⟨hfirst, hsorted⟩ := List.pairwise_cons.mp hsorted
    obtain ⟨merged₁, hstep, hkeys₁, hlo₁, hcovers, hkept⟩ :=
      mergeStep_total hS hf hmerged ha fun m hm => hlo m hm a List.mem_cons_self
    obtain ⟨merged₂, hfold, hkeys₂, hall, hkept₂⟩ :=
      ih hl hkeys₁ hsorted fun m hm b hb => (hlo₁ m hm).trans (hfirst b hb)
    refine ⟨merged₂, ?_, hkeys₂, List.forall_mem_cons.mpr ⟨hkept₂ a hcovers, hall⟩,
      fun b hb => hkept₂ b (hkept b hb)⟩
    rw [List.foldlM_cons, hstep]
    exact hfold

/-- Every interval is covered by a merged one. -/
theorem mergedIntervals_total {l : List (Interval κ)} (hl : ∀ a ∈ l, a.KeysIn S) :
    ∃ merged, mergedIntervals cmpKey l = .ok merged ∧ (∀ m ∈ merged, m.KeysIn S) ∧
      ∀ a ∈ l, ∃ m ∈ merged, m.Covers f a := by
  obtain ⟨s, hs, hsorted⟩ := sortByLo_total hS hf hl
  have hnone : ∀ m ∈ ([] : List (Interval κ)), m.KeysIn S := fun _ hm => (by cases hm)
  obtain ⟨merged, hfold, hkeys, hall, -⟩ := foldlM_mergeStep_total hS hf
    (fun a ha => hl a ((sortByLo_perm hs).mem_iff.mp ha)) hnone hsorted fun _ hm => (by cases hm)
  refine ⟨merged, ?_, hkeys, fun a ha => hall a ((sortByLo_perm hs).mem_iff.mpr ha)⟩
  rw [mergedIntervals, hs]
  exact hfold

theorem someCovers_total {actual : Interval κ} (hactual : actual.KeysIn S) {l : List (Interval κ)}
    (hl : ∀ a ∈ l, a.KeysIn S) (h : ∃ m ∈ l, m.Covers f actual) :
    someCovers cmpKey actual l = .ok true := by
  induction l with
  | nil =>
    obtain ⟨m, hm, -⟩ := h
    cases hm
  | cons m l ih =>
    obtain ⟨hm, hl⟩ := List.forall_mem_cons.mp hl
    obtain ⟨c, hc⟩ := intervalCovers_total hS hm hactual
    rw [someCovers, hc]
    cases c with
    | true => rfl
    | false =>
      refine ih hl ?_
      obtain ⟨m', hm', hcovers⟩ := h
      rcases List.mem_cons.mp hm' with rfl | hm'
      · exact absurd ((intervalCovers_eq hf hc).mpr hcovers) (by decide)
      · exact ⟨m', hm', hcovers⟩

end

/-! ## Covering -/

section
variable [FiniteNumber ν]

theorem coverMerged_ok {declared observed : List (WireInterval ν)} {covered : Bool}
    (h : coverMerged declared observed = .ok covered) :
    ∃ intervals merged, declared.mapM intervalFromWire = .ok intervals ∧
      mergedIntervals cmpKey intervals = .ok merged ∧ everyCovered merged observed = .ok covered := by
  obtain ⟨intervals, hintervals, h⟩ := bind_ok h
  obtain ⟨merged, hmerged, h⟩ := bind_ok h
  exact ⟨intervals, merged, hintervals, hmerged, h⟩

theorem everyCovered_eq_true {merged : List (Interval (IntervalKey ν))}
    {observed : List (WireInterval ν)} (h : everyCovered merged observed = .ok true) :
    ∀ o ∈ observed, ∃ O, intervalFromWire o = .ok O ∧ ∃ m ∈ merged, m.Covers rankKey O := by
  induction observed with
  | nil => exact fun o ho => (by cases ho)
  | cons o observed ih =>
    obtain ⟨O, hO, h⟩ := bind_ok h
    obtain ⟨covered, hcovered, h⟩ := bind_ok h
    cases covered with
    | false => cases h
    | true =>
      exact List.forall_mem_cons.mpr
        ⟨⟨O, hO, someCovers_eq_true cmpKey_agrees hcovered⟩, ih h⟩

theorem wireIntervalsCover_iff {declared observed : List (WireInterval ν)} :
    wireIntervalsCover declared (some observed) = true ↔
      declared.any WireInterval.isFull = true ∨ coverMerged declared observed = .ok true := by
  unfold wireIntervalsCover
  by_cases hfull : declared.any WireInterval.isFull = true
  · simp [hfull]
  · rw [if_neg hfull]
    dsimp only
    cases coverMerged declared observed <;> simp [hfull]

theorem contains_full (key : IntervalKey ν) : contains cmpKey FULL key = .ok true := rfl

/-- What the declared intervals are said to cover they contain. -/
theorem mem_declared_of_covers {declared observed : List (WireInterval ν)}
    (h : wireIntervalsCover declared (some observed) = true) {o : WireInterval ν} (ho : o ∈ observed)
    {O : Interval (IntervalKey ν)} (hO : intervalFromWire o = .ok O) {key : IntervalKey ν}
    (hkey : contains cmpKey O key = .ok true)
    (hcompare : ∀ d ∈ declared, ∀ D, intervalFromWire d = .ok D → ∃ b, contains cmpKey D key = .ok b) :
    ∃ d ∈ declared, ∃ D, intervalFromWire d = .ok D ∧ contains cmpKey D key = .ok true := by
  rcases wireIntervalsCover_iff.mp h with hfull | hcover
  · obtain ⟨d, hd, hfull⟩ := List.any_eq_true.mp hfull
    cases d with
    | full => exact ⟨.full, hd, FULL, rfl, contains_full key⟩
    | range lo hi => cases hfull
  · obtain ⟨intervals, merged, hintervals, hmerged, hevery⟩ := coverMerged_ok hcover
    obtain ⟨O', hO', m, hm, hcovers⟩ := everyCovered_eq_true hevery o ho
    obtain rfl := Except.ok.inj (hO.symm.trans hO')
    obtain ⟨D, hD, hmem⟩ := mergedIntervals_mem cmpKey_agrees hmerged
      ⟨m, hm, hcovers.mem (contains_eq_true cmpKey_agrees hkey)⟩
    obtain ⟨d, hd, hdD⟩ := mem_of_mapM_ok hintervals hD
    obtain ⟨b, hb⟩ := hcompare d hd D hdD
    cases b with
    | true => exact ⟨d, hd, D, hdD, hb⟩
    | false => exact absurd hmem (contains_eq_false cmpKey_agrees hb)

theorem everyCovered_total {S : IntervalKey ν → Prop}
    (hS : ∀ v w, S v → S w → ∃ o, cmpKey v w = .ok o) {merged : List (Interval (IntervalKey ν))}
    (hmerged : ∀ m ∈ merged, m.KeysIn S) {observed : List (WireInterval ν)}
    (h : ∀ o ∈ observed, ∃ O, intervalFromWire o = .ok O ∧ O.KeysIn S ∧
      ∃ m ∈ merged, m.Covers rankKey O) : everyCovered merged observed = .ok true := by
  induction observed with
  | nil => rfl
  | cons o observed ih =>
    obtain ⟨⟨O, hO, hkeys, hcovers⟩, h⟩ := List.forall_mem_cons.mp h
    rw [everyCovered, hO]
    show (someCovers cmpKey O merged >>= _) = _
    rw [someCovers_total hS cmpKey_agrees hkeys hmerged hcovers]
    exact ih h

/-- The key of an end. -/
def Endpoint.keys {κ : Type} : Endpoint κ → List κ
  | .value v _ => [v]
  | .negInf | .posInf => []

/-- The keys of the ends of wire intervals. -/
def endKeys (intervals : List (WireInterval ν)) (key : IntervalKey ν) : Prop :=
  ∃ w ∈ intervals, ∃ I, intervalFromWire w = .ok I ∧ key ∈ I.lo.keys ++ I.hi.keys

omit [FiniteNumber ν] in
theorem keysIn_endKeys {intervals : List (WireInterval ν)} {w : WireInterval ν} (hw : w ∈ intervals)
    {I : Interval (IntervalKey ν)} (hI : intervalFromWire w = .ok I) : I.KeysIn (endKeys intervals) := by
  constructor
  · cases hlo : I.lo with
    | negInf => trivial
    | posInf => trivial
    | value v i => exact ⟨w, hw, I, hI, by simp [hlo, Endpoint.keys]⟩
  · cases hhi : I.hi with
    | negInf => trivial
    | posInf => trivial
    | value v i => exact ⟨w, hw, I, hI, by simp [hhi, Endpoint.keys]⟩

/-- Observed intervals whose ends lie within those of a declared interval are covered. -/
theorem covers_of_ends {declared observed : List (WireInterval ν)}
    (hdeclared : ∀ d ∈ declared, ∃ D, intervalFromWire d = .ok D)
    (hcompare : ∀ v w, endKeys (declared ++ observed) v → endKeys (declared ++ observed) w →
      ∃ o, cmpKey v w = .ok o)
    (h : ∀ o ∈ observed, ∃ O, intervalFromWire o = .ok O ∧
      ∃ d ∈ declared, ∃ D, intervalFromWire d = .ok D ∧ D.Covers rankKey O) :
    wireIntervalsCover declared (some observed) = true := by
  refine wireIntervalsCover_iff.mpr (.inr ?_)
  obtain ⟨intervals, hintervals⟩ := mapM_total hdeclared
  have hkeys : ∀ D ∈ intervals, D.KeysIn (endKeys (declared ++ observed)) := by
    intro D hD
    obtain ⟨d, hd, hdD⟩ := mem_of_mapM_ok hintervals hD
    exact keysIn_endKeys (List.mem_append_left _ hd) hdD
  obtain ⟨merged, hmerged, hmergedKeys, hall⟩ := mergedIntervals_total hcompare cmpKey_agrees hkeys
  have hevery : everyCovered merged observed = .ok true := by
    refine everyCovered_total hcompare hmergedKeys fun o ho => ?_
    obtain ⟨O, hO, d, hd, D, hD, hcovers⟩ := h o ho
    obtain ⟨D', hD', hdD⟩ := exists_right_of_forall₂ (mapM_ok_iff.mp hintervals) hd
    obtain rfl := Except.ok.inj (hD.symm.trans hdD)
    obtain ⟨m, hm, hmD⟩ := hall D hD'
    exact ⟨O, hO, keysIn_endKeys (List.mem_append_right _ ho) hO, m, hm, hmD.trans hcovers⟩
  unfold coverMerged
  rw [hintervals]
  show (mergedIntervals cmpKey intervals >>= _) = _
  rw [hmerged]
  exact hevery

/-- `wireIntervalsCover` says yes only where every key of an observed interval that can be compared
with the declared ends is in a declared interval; and it says yes wherever all ends can be compared
and the ends of each observed interval lie within those of a declared one. -/
theorem wireIntervalsCover_correct (declared observed : List (WireInterval ν)) :
    (wireIntervalsCover declared (some observed) = true →
      ∀ o ∈ observed, ∀ O, intervalFromWire o = .ok O →
        ∀ key, contains cmpKey O key = .ok true →
          (∀ d ∈ declared, ∀ D, intervalFromWire d = .ok D → ∃ b, contains cmpKey D key = .ok b) →
            ∃ d ∈ declared, ∃ D, intervalFromWire d = .ok D ∧ contains cmpKey D key = .ok true) ∧
    ((∀ d ∈ declared, ∃ D, intervalFromWire d = .ok D) →
      (∀ v w, endKeys (declared ++ observed) v → endKeys (declared ++ observed) w →
        ∃ o, cmpKey v w = .ok o) →
      (∀ o ∈ observed, ∃ O, intervalFromWire o = .ok O ∧
        ∃ d ∈ declared, ∃ D, intervalFromWire d = .ok D ∧
          (∃ a, cmpEndpoint cmpKey D.lo O.lo .lo = .ok a ∧ a ≠ .gt) ∧
            ∃ a, cmpEndpoint cmpKey D.hi O.hi .hi = .ok a ∧ a ≠ .lt) →
      wireIntervalsCover declared (some observed) = true) := by
  refine ⟨fun h o ho O hO key hkey hcompare => mem_declared_of_covers h ho hO hkey hcompare,
    fun hdeclared hcompare h => covers_of_ends hdeclared hcompare fun o ho => ?_⟩
  obtain ⟨O, hO, d, hd, D, hD, ⟨a, ha, hne⟩, b, hb, hne'⟩ := h o ho
  exact ⟨O, hO, d, hd, D, hD, (cmpEndpoint_compares cmpKey_agrees ha).ne_gt.mp hne,
    (cmpEndpoint_compares cmpKey_agrees hb).ne_lt.mp hne'⟩

end

/-- The strings after `"m"` and those up to it. -/
def halves : List (WireInterval Int) :=
  [.range (.value [.str "m"] false) .posInf, .range .negInf (.value [.str "m"] true)]

/-- The halves are merged and cover the strings from `"a"` to `"z"`, so `"p"` is in one. -/
theorem wireIntervalsCover_correct_merged :
    ∃ d ∈ halves, ∃ D, intervalFromWire d = .ok D ∧
      contains cmpKey D ([.string "p"] : IntervalKey Int) = .ok true :=
  (wireIntervalsCover_correct halves [.range (.value [.str "a"] true) (.value [.str "z"] true)]).1
    (by decide) _ List.mem_cons_self _ rfl [.string "p"] rfl fun d hd D hD => by
      rcases List.mem_cons.mp hd with rfl | hd
      · cases hD
        exact ⟨_, rfl⟩
      · obtain rfl := List.mem_singleton.mp hd
        cases hD
        exact ⟨_, rfl⟩

/-- The strings up to `"m"` and the strings from `"m"` on are said to cover everything, yet no
number is in either. -/
theorem wireIntervalsCover_other_type :
    ¬∀ declared observed : List (WireInterval Int),
      wireIntervalsCover declared (some observed) = true →
        ∀ o ∈ observed, ∀ O, intervalFromWire o = .ok O →
          ∀ key, contains cmpKey O key = .ok true →
            ∃ d ∈ declared, ∃ D, intervalFromWire d = .ok D ∧ contains cmpKey D key = .ok true := by
  intro h
  obtain ⟨d, hd, D, hD, hkey⟩ := h [.range .negInf (.value [.str "m"] true),
    .range (.value [.str "m"] true) .posInf] [.range .negInf .posInf] (by decide) _
    List.mem_cons_self FULL rfl [.number 5] rfl
  rcases List.mem_cons.mp hd with rfl | hd
  · cases hD
    cases hkey
  · obtain rfl := List.mem_singleton.mp hd
    cases hD
    cases hkey

end Chardb.Intervals
