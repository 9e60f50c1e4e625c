import Chardb.Plan.Walker

/-!
# What the walker keeps

Where what the walker kept of a condition is true of a cell, the cell lies in its intervals
and has one of its values, as long as the operands that meet in a conjunction are ordered in
JavaScript as in SQLite.
-/

namespace Chardb.Plan

open Chardb.Lib

variable {ν : Type}

/-! ## What intervals and atoms say -/

/-- What a column makes of a value: its encoder, then the affinity. -/
structure Encoding (ν : Type) where
  encode : ParamValue ν → Option (StoredValue ν)
  undefined_null : encode .undefined = none

instance : CoeFun (Encoding ν) fun _ => ParamValue ν → Option (StoredValue ν) := ⟨Encoding.encode⟩

section
variable [LinearOrder ν] (enc : Encoding ν)

/-- The value is above a lower end. -/
def WireEndpoint.Above (x : StoredValue ν) : WireEndpoint ν → Prop
  | .negInf => True
  | .posInf => False
  | .value v inclusive => ∃ s, enc v = some s ∧ if inclusive then s ≤ x else s < x

/-- The value is below an upper end. -/
def WireEndpoint.Below (x : StoredValue ν) : WireEndpoint ν → Prop
  | .negInf => False
  | .posInf => True
  | .value v inclusive => ∃ s, enc v = some s ∧ if inclusive then x ≤ s else x < s

def WireInterval.Contains (x : StoredValue ν) : WireInterval ν → Prop
  | .full => True
  | .range lo hi => lo.Above enc x ∧ hi.Below enc x

/-- The intervals say nothing, or one of them has the value of the cell. -/
def ObservedIntervals.Covers (cell : Option (StoredValue ν)) : ObservedIntervals ν → Prop
  | .full => True
  | .within is => ∃ x, cell = some x ∧ ∃ i ∈ is, i.Contains enc x

/-- The comparison of an atom is true on the cell. -/
def Atom.Holds (cell : Option (StoredValue ν)) (a : Atom ν) : Prop :=
  match a.op, a.values with
  | .eq, [v] => compareSql .eq cell (enc v) = some true
  | .gt, [v] => compareSql .gt cell (enc v) = some true
  | .gte, [v] => compareSql .gte cell (enc v) = some true
  | .lt, [v] => compareSql .lt cell (enc v) = some true
  | .lte, [v] => compareSql .lte cell (enc v) = some true
  | .between, [lo, hi] => betweenSql cell (enc lo) (enc hi) = some true
  | .inList, vs => inSql cell (vs.map enc.encode) = some true
  | _, _ => False

end

/-! ## Operands that meet -/

/-- The operands that bound a value from below, from above and exactly. -/
structure Operands (ν : Type) where
  lowers : List (ParamValue ν)
  uppers : List (ParamValue ν)
  exacts : List (ParamValue ν)

def Operands.empty : Operands ν := ⟨[], [], []⟩

def Operands.append (f g : Operands ν) : Operands ν :=
  ⟨f.lowers ++ g.lowers, f.uppers ++ g.uppers, f.exacts ++ g.exacts⟩

/-- Lower and upper operands are ordered in JavaScript as in the column, and exact ones are
`===` iff the column has one value for them. -/
structure Operands.Agree [LinearOrder ν] (enc : Encoding ν) (f : Operands ν) : Prop where
  order : ∀ v ∈ f.lowers, ∀ w ∈ f.uppers, ∀ s t, enc v = some s → enc w = some t →
    cmpScalar v w = compare s t
  equal : ∀ v ∈ f.exacts, ∀ w ∈ f.exacts, enc v = enc w → v = w

/-- The operands of an atom, a family for each value that it offers. -/
def Atom.families (a : Atom ν) : List (Operands ν) :=
  match a.op, a.values with
  | .eq, vs => vs.map fun v => ⟨[v], [v], [v]⟩
  | .inList, vs => vs.map fun v => ⟨[v], [v], [v]⟩
  | .between, [lo, hi] => [⟨[lo], [hi], []⟩]
  | .gt, vs => vs.map fun v => ⟨[v], [], []⟩
  | .gte, vs => vs.map fun v => ⟨[v], [], []⟩
  | .lt, vs => vs.map fun v => ⟨[], [v], []⟩
  | .lte, vs => vs.map fun v => ⟨[], [v], []⟩
  | _, _ => []

/-- Families of two children of a conjunction meet. -/
def andFamilies (a b : Option (List (Operands ν))) : Option (List (Operands ν)) :=
  match a, b with
  | a, none => a
  | none, some b => some b
  | some a, some b => some (a.flatMap fun f => b.map fun g => f.append g)

theorem andFamilies_none (a : Option (List (Operands ν))) : andFamilies a none = a := by
  cases a <;> rfl

def orFamilies (a b : Option (List (Operands ν))) : Option (List (Operands ν)) :=
  match a, b with
  | some a, some b => some (a ++ b)
  | _, _ => none

mutual
/-- The families of operands that meet; none if the column is not constrained. -/
def families : ColumnPredicate ν → Option (List (Operands ν))
  | .other => none
  | .atom a => some a.families
  | .node .and children => (familiesAll children).foldl andFamilies none
  | .node .or children =>
    if children.isEmpty then none else (familiesAll children).foldl orFamilies (some [])

def familiesAll : List (ColumnPredicate ν) → List (Option (List (Operands ν)))
  | [] => []
  | p :: ps => families p :: familiesAll ps
end

theorem predicateInfoAll_eq_map [LinearOrder ν] (ps : List (ColumnPredicate ν)) :
    predicateInfoAll ps = ps.map predicateInfo := by
  induction ps with
  | nil => rfl
  | cons p ps ih => rw [predicateInfoAll, ih, List.map_cons]

/-- What the walker kept of a condition is true on the cell; parts that do not constrain the column
may be anything. -/
inductive Sat [LinearOrder ν] (enc : Encoding ν) (cell : Option (StoredValue ν)) :
    ColumnPredicate ν → Prop
  | free {p : ColumnPredicate ν} (h : families p = none) : Sat enc cell p
  | atom {a : Atom ν} (h : a.Holds enc cell) : Sat enc cell (.atom a)
  | and {children : List (ColumnPredicate ν)} (h : ∀ c ∈ children, Sat enc cell c) :
      Sat enc cell (.node .and children)
  | or {children : List (ColumnPredicate ν)} {c : ColumnPredicate ν} (hc : c ∈ children)
      (h : Sat enc cell c) : Sat enc cell (.node .or children)

/-- Wherever a conjunction combines two constraints, the operands that meet agree; parts that do not
constrain the column may be anything. -/
inductive Compatible [LinearOrder ν] (enc : Encoding ν) : ColumnPredicate ν → Prop
  | free {p : ColumnPredicate ν} (h : families p = none) : Compatible enc p
  | atom (a : Atom ν) : Compatible enc (.atom a)
  | or {children : List (ColumnPredicate ν)} (h : ∀ c ∈ children, Compatible enc c) :
      Compatible enc (.node .or children)
  | and {children : List (ColumnPredicate ν)} (h : ∀ c ∈ children, Compatible enc c)
      (hmeet : 2 ≤ (children.filter fun c => (families c).isSome).length →
        ∀ fs, families (.node .and children) = some fs → ∀ f ∈ fs, f.Agree enc) :
      Compatible enc (.node .and children)

/-! ## Intersections -/

/-- The ends of an interval are operands of the family. -/
def WireInterval.Within (f : Operands ν) : WireInterval ν → Prop
  | .full => True
  | .range lo hi => (∀ v i, lo = .value v i → v ∈ f.lowers) ∧ ∀ v i, hi = .value v i → v ∈ f.uppers

theorem WireInterval.Within.mono {f g : Operands ν} {i : WireInterval ν} (h : i.Within f)
    (hlo : f.lowers ⊆ g.lowers) (hhi : f.uppers ⊆ g.uppers) : i.Within g := by
  cases i with
  | full => trivial
  | range lo hi => exact ⟨fun v b hv => hlo (h.1 v b hv), fun v b hv => hhi (h.2 v b hv)⟩

theorem within_of_mem {f : Operands ν} {lo hi : WireEndpoint ν}
    (hlo : ∀ v i, lo = .value v i → v ∈ f.lowers) (hhi : ∀ v i, hi = .value v i → v ∈ f.uppers) :
    (WireInterval.range lo hi).Within f := ⟨hlo, hhi⟩

theorem valueAt_of_encoded {enc : Encoding ν} {a : Atom ν} {i : Nat} {v : ParamValue ν} {s : StoredValue ν}
    (h : a.values[i]? = some v) (henc : enc v = some s) : a.valueAt i = some v := by
  unfold Atom.valueAt
  rw [h]
  cases v with
  | undefined => rw [enc.undefined_null] at henc; cases henc
  | null => rfl
  | text t => rfl
  | number n => rfl
  | bool b => rfl
  | other ref => rfl

/-- Whether an info constrains the column goes with its families. -/
def Status (info : PartitionInfo ν) (fams : Option (List (Operands ν))) : Prop :=
  (fams = none ∧ info = FULL_INFO) ∨ ∃ fs is, fams = some fs ∧ info.intervals = .within is

theorem Status.orStep {acc info : PartitionInfo ν} {as cs : Option (List (Operands ν))}
    (ha : Status acc as) (hc : Status info cs) : Status (orStep acc info) (orFamilies as cs) := by
  rcases ha with ⟨rfl, rfl⟩ | ⟨gs, js, rfl, hjs⟩
  · exact .inl ⟨rfl, rfl⟩
  · rcases hc with ⟨rfl, rfl⟩ | ⟨fs, is, rfl, his⟩
    · refine .inl ⟨rfl, ?_⟩
      obtain ⟨values, intervals⟩ := acc
      obtain rfl : intervals = .within js := hjs
      cases values <;> rfl
    · exact .inr ⟨_, js ++ is, rfl, by simp [Plan.orStep, his, hjs]⟩

section
variable [LinearOrder ν] {enc : Encoding ν} {x : StoredValue ν}

theorem maxLo_cases (a b : WireEndpoint ν) : maxLo a b = a ∨ maxLo a b = b := by
  unfold maxLo
  split
  · exact .inl rfl
  · exact .inr rfl

theorem minHi_cases (a b : WireEndpoint ν) : minHi a b = a ∨ minHi a b = b := by
  unfold minHi
  split
  · exact .inl rfl
  · exact .inr rfl

/-- Ends with a value between are in order. -/
theorem leLoHi_of_between {lo hi : WireEndpoint ν} (hlo : lo.Above enc x) (hhi : hi.Below enc x)
    (horder : ∀ v i w j, lo = .value v i → hi = .value w j → ∀ s t, enc v = some s →
      enc w = some t → cmpScalar v w = compare s t) : leLoHi lo hi = true := by
  cases lo with
  | negInf => rfl
  | posInf => exact hlo.elim
  | value v i =>
    cases hi with
    | negInf => exact hhi.elim
    | posInf => rfl
    | value w j =>
      obtain ⟨s, hs, hsx⟩ := hlo
      obtain ⟨t, ht, hxt⟩ := hhi
      have hcmp := horder v i w j rfl rfl s t hs ht
      have hle : s ≤ x ∧ x ≤ t := by
        refine ⟨?_, ?_⟩
        · split at hsx
          · exact hsx
          · exact hsx.le
        · split at hxt
          · exact hxt
          · exact hxt.le
      have hst : s ≤ t := hle.1.trans hle.2
      unfold leLoHi
      simp only [hcmp]
      rcases hst.lt_or_eq with hlt | rfl
      · rw [compare_lt_iff_lt.mpr hlt]
      · obtain rfl := le_antisymm hle.1 hle.2
        rw [compare_eq_iff_eq.mpr rfl]
        cases i <;> cases j <;> simp_all

/-- The intersection of two intervals that have the value has it too. -/
theorem intersectPair_contains {a b : WireInterval ν} {f : Operands ν} (ha : a.Contains enc x)
    (hb : b.Contains enc x) (hwa : a.Within f) (hwb : b.Within f) (hagree : f.Agree enc) :
    ∃ m, intersectPair a b = some m ∧ m.Contains enc x ∧ m.Within f := by
  cases a with
  | full => exact ⟨b, by cases b <;> rfl, hb, hwb⟩
  | range lo₁ hi₁ =>
    cases b with
    | full => exact ⟨_, rfl, ha, hwa⟩
    | range lo₂ hi₂ =>
      have hlo : (maxLo lo₁ lo₂).Above enc x ∧ ∀ v i, maxLo lo₁ lo₂ = .value v i → v ∈ f.lowers := by
        rcases maxLo_cases lo₁ lo₂ with h | h <;> rw [h]
        · exact ⟨ha.1, hwa.1⟩
        · exact ⟨hb.1, hwb.1⟩
      have hhi : (minHi hi₁ hi₂).Below enc x ∧ ∀ v i, minHi hi₁ hi₂ = .value v i → v ∈ f.uppers := by
        rcases minHi_cases hi₁ hi₂ with h | h <;> rw [h]
        · exact ⟨ha.2, hwa.2⟩
        · exact ⟨hb.2, hwb.2⟩
      have hle : leLoHi (maxLo lo₁ lo₂) (minHi hi₁ hi₂) = true :=
        leLoHi_of_between hlo.1 hhi.1 fun v i w j hv hw =>
          hagree.order v (hlo.2 v i hv) w (hhi.2 w j hw)
      refine ⟨.range (maxLo lo₁ lo₂) (minHi hi₁ hi₂), ?_, ⟨hlo.1, hhi.1⟩, hlo.2, hhi.2⟩
      show (if _ then _ else _) = _
      exact if_pos hle

/-! ## What an info says of a value -/

/-- The info has the value, by operands of the family. -/
structure Has (enc : Encoding ν) (x : StoredValue ν) (info : PartitionInfo ν) (f : Operands ν) :
    Prop where
  intervals : ∃ is, info.intervals = .within is ∧ ∃ i ∈ is, i.Contains enc x ∧ i.Within f
  values : ∀ vs, info.values = some vs → ∃ v ∈ vs, v ∈ f.exacts ∧ enc v = some x

theorem Has.mono {info : PartitionInfo ν} {f g : Operands ν} (h : Has enc x info f)
    (hlo : f.lowers ⊆ g.lowers) (hhi : f.uppers ⊆ g.uppers) (hex : f.exacts ⊆ g.exacts) :
    Has enc x info g := by
  obtain ⟨is, his, i, hi, hx, hw⟩ := h.intervals
  refine ⟨⟨is, his, i, hi, hx, hw.mono hlo hhi⟩, fun vs hvs => ?_⟩
  obtain ⟨v, hv, hexact, henc⟩ := h.values vs hvs
  exact ⟨v, hv, hex hexact, henc⟩

/-- A conjunction of two infos that have the value has it, where their operands agree. -/
theorem Has.andStep {acc info : PartitionInfo ν} {f : Operands ν} (ha : Has enc x acc f)
    (hc : Has enc x info f) (hagree : f.Agree enc) : Has enc x (andStep acc info) f := by
  obtain ⟨as, has, a, ha', hax, haw⟩ := ha.intervals
  obtain ⟨cs, hcs, c, hc', hcx, hcw⟩ := hc.intervals
  obtain ⟨m, hm, hmx, hmw⟩ := intersectPair_contains hax hcx haw hcw hagree
  refine ⟨⟨intersectIntervals as cs, ?_, m, ?_, hmx, hmw⟩, fun vs hvs => ?_⟩
  · simp only [Plan.andStep, has, hcs]
  · exact List.mem_flatMap.mpr ⟨a, ha', List.mem_filterMap.mpr ⟨c, hc', hm⟩⟩
  · cases hacc : acc.values with
    | none =>
      cases hinfo : info.values with
      | none => simp [Plan.andStep, hacc, hinfo] at hvs
      | some ws =>
        obtain rfl : ws = vs := by simpa [Plan.andStep, hacc, hinfo] using hvs
        exact hc.values ws hinfo
    | some us =>
      obtain ⟨u, hu, hue, hux⟩ := ha.values us hacc
      cases hinfo : info.values with
      | none =>
        obtain rfl : us = vs := by simpa [Plan.andStep, hacc, hinfo] using hvs
        exact ⟨u, hu, hue, hux⟩
      | some ws =>
        obtain ⟨w, hw, hwe, hwx⟩ := hc.values ws hinfo
        obtain rfl : intersectValues us ws = vs := by simpa [Plan.andStep, hacc, hinfo] using hvs
        obtain rfl := hagree.equal u hue w hwe (hux.trans hwx.symm)
        exact ⟨u, List.mem_filter.mpr ⟨hu, decide_eq_true hw⟩, hue, hux⟩

/-! ## Atoms -/

theorem compareSql_true {op : CompareOp} {α : Type} [LinearOrder α] {a b : Option α} :
    compareSql op a b = some true ↔ ∃ u v, a = some u ∧ b = some v ∧ op.holds u v = true := by
  cases a <;> cases b <;> simp [compareSql]

theorem betweenSql_true {cell lower upper : Option (StoredValue ν)} :
    betweenSql cell lower upper = some true ↔
      ∃ x l u, cell = some x ∧ lower = some l ∧ upper = some u ∧ l ≤ x ∧ x ≤ u := by
  unfold betweenSql
  rw [allOf_eq_true, List.forall_mem_cons, List.forall_mem_singleton, compareSql_true,
    compareSql_true]
  constructor
  · rintro ⟨⟨x, l, hx, hl, hlx⟩, ⟨x', u, hx', hu, hxu⟩⟩
    obtain rfl := Option.some.inj (hx.symm.trans hx')
    exact ⟨x, l, u, hx, hl, hu, by simpa [CompareOp.holds] using hlx,
      by simpa [CompareOp.holds] using hxu⟩
  · rintro ⟨x, l, u, rfl, rfl, rfl, hlx, hxu⟩
    exact ⟨⟨x, l, rfl, rfl, by simpa [CompareOp.holds] using hlx⟩, x, u, rfl, rfl,
      by simpa [CompareOp.holds] using hxu⟩

/-- An info with one interval, that has the value. -/
theorem Has.single {a : Atom ν} {f : Operands ν} {i : WireInterval ν}
    (hi : i ∈ intervalsForAtom a) (hx : i.Contains enc x) (hw : i.Within f)
    (hvalues : a.op = .eq ∨ a.op = .inList → ∃ v ∈ a.values, v ∈ f.exacts ∧ enc v = some x) :
    Has enc x (predicateInfo (.atom a)) f := by
  refine ⟨⟨intervalsForAtom a, by rw [predicateInfo], i, hi, hx, hw⟩, fun vs hvs => ?_⟩
  rw [predicateInfo] at hvs
  simp only at hvs
  split at hvs
  · rename_i hop
    obtain rfl := Option.some.inj hvs
    exact hvalues hop
  · cases hvs

theorem point_contains {v : ParamValue ν} (henc : enc v = some x) : (point v).Contains enc x :=
  ⟨⟨x, henc, by simp⟩, ⟨x, henc, by simp⟩⟩

/-- An atom that bounds the value from below. -/
theorem Has.ofLower {op : AtomOp} {v : ParamValue ν} {t : StoredValue ν} {inclusive : Bool}
    (hop : op = .gt ∧ inclusive = false ∨ op = .gte ∧ inclusive = true) (henc : enc v = some t)
    (hx : if inclusive then t ≤ x else t < x) :
    Has enc x (predicateInfo (.atom ⟨op, [v]⟩)) ⟨[v], [], []⟩ := by
  have hat : (⟨op, [v]⟩ : Atom ν).valueAt 0 = some v := valueAt_of_encoded rfl henc
  refine .single (i := .range (.value v inclusive) .posInf) ?_ ⟨⟨t, henc, hx⟩, trivial⟩
    (within_of_mem (fun w i hw => by cases hw; exact List.mem_cons_self) fun w i hw => by cases hw) ?_
  · rcases hop with ⟨rfl, rfl⟩ | ⟨rfl, rfl⟩ <;>
      simp [intervalsForAtom, Atom.from1, hat, valueEndpoint]
  · rcases hop with ⟨rfl, -⟩ | ⟨rfl, -⟩ <;> simp

/-- An atom that bounds the value from above. -/
theorem Has.ofUpper {op : AtomOp} {v : ParamValue ν} {t : StoredValue ν} {inclusive : Bool}
    (hop : op = .lt ∧ inclusive = false ∨ op = .lte ∧ inclusive = true) (henc : enc v = some t)
    (hx : if inclusive then x ≤ t else x < t) :
    Has enc x (predicateInfo (.atom ⟨op, [v]⟩)) ⟨[], [v], []⟩ := by
  have hat : (⟨op, [v]⟩ : Atom ν).valueAt 0 = some v := valueAt_of_encoded rfl henc
  refine .single (i := .range .negInf (.value v inclusive)) ?_ ⟨trivial, ⟨t, henc, hx⟩⟩
    (within_of_mem (fun w i hw => by cases hw) fun w i hw => by cases hw; exact List.mem_cons_self) ?_
  · rcases hop with ⟨rfl, rfl⟩ | ⟨rfl, rfl⟩ <;>
      simp [intervalsForAtom, Atom.from1, hat, valueEndpoint]
  · rcases hop with ⟨rfl, -⟩ | ⟨rfl, -⟩ <;> simp

/-- An atom with a value that the cell has. -/
theorem Has.ofPoint {a : Atom ν} {v : ParamValue ν} (henc : enc v = some x) (hv : v ∈ a.values)
    (hi : point v ∈ intervalsForAtom a) : Has enc x (predicateInfo (.atom a)) ⟨[v], [v], [v]⟩ :=
  .single hi (point_contains henc)
    (within_of_mem (fun w i hw => by cases hw; exact List.mem_cons_self)
      fun w i hw => by cases hw; exact List.mem_cons_self)
    fun _ => ⟨v, hv, List.mem_cons_self, henc⟩

/-- An atom that holds of a cell has the value of the cell. -/
theorem Atom.Holds.has {cell : Option (StoredValue ν)} {a : Atom ν} (h : a.Holds enc cell) :
    ∃ x, cell = some x ∧ ∃ f ∈ a.families, Has enc x (predicateInfo (.atom a)) f := by
  obtain ⟨op, values⟩ := a
  unfold Atom.Holds at h
  split at h
  · rename_i v hop hvs
    obtain rfl : op = .eq := hop
    obtain rfl : values = [v] := hvs
    obtain ⟨x, hcell, hx⟩ := compareSql_eq_true.mp h
    refine ⟨x, hcell, _, List.mem_cons_self, .ofPoint hx List.mem_cons_self ?_⟩
    have hat : (⟨.eq, [v]⟩ : Atom ν).valueAt 0 = some v := valueAt_of_encoded rfl hx
    simp [intervalsForAtom, Atom.from1, hat]
  · rename_i v hop hvs
    obtain rfl : op = .gt := hop
    obtain rfl : values = [v] := hvs
    obtain ⟨x, t, hcell, ht, hxt⟩ := compareSql_true.mp h
    exact ⟨x, hcell, _, List.mem_cons_self,
      .ofLower (.inl ⟨rfl, rfl⟩) ht (by simpa [CompareOp.holds] using hxt)⟩
  · rename_i v hop hvs
    obtain rfl : op = .gte := hop
    obtain rfl : values = [v] := hvs
    obtain ⟨x, t, hcell, ht, hxt⟩ := compareSql_true.mp h
    exact ⟨x, hcell, _, List.mem_cons_self,
      .ofLower (.inr ⟨rfl, rfl⟩) ht (by simpa [CompareOp.holds] using hxt)⟩
  · rename_i v hop hvs
    obtain rfl : op = .lt := hop
    obtain rfl : values = [v] := hvs
    obtain ⟨x, t, hcell, ht, hxt⟩ := compareSql_true.mp h
    exact ⟨x, hcell, _, List.mem_cons_self,
      .ofUpper (.inl ⟨rfl, rfl⟩) ht (by simpa [CompareOp.holds] using hxt)⟩
  · rename_i v hop hvs
    obtain rfl : op = .lte := hop
    obtain rfl : values = [v] := hvs
    obtain ⟨x, t, hcell, ht, hxt⟩ := compareSql_true.mp h
    exact ⟨x, hcell, _, List.mem_cons_self,
      .ofUpper (.inr ⟨rfl, rfl⟩) ht (by simpa [CompareOp.holds] using hxt)⟩
  · rename_i lo hi hop hvs
    obtain rfl : op = .between := hop
    obtain rfl : values = [lo, hi] := hvs
    obtain ⟨x, l, u, hcell, hl, hu, hlx, hxu⟩ := betweenSql_true.mp h
    have hlo : (⟨.between, [lo, hi]⟩ : Atom ν).valueAt 0 = some lo := valueAt_of_encoded rfl hl
    have hhi : (⟨.between, [lo, hi]⟩ : Atom ν).valueAt 1 = some hi := valueAt_of_encoded rfl hu
    refine ⟨x, hcell, _, List.mem_cons_self,
      .single (i := .range (.value lo true) (.value hi true)) ?_
        ⟨⟨l, hl, by simpa using hlx⟩, ⟨u, hu, by simpa using hxu⟩⟩
        (within_of_mem (fun w i hw => by cases hw; exact List.mem_cons_self)
          fun w i hw => by cases hw; exact List.mem_cons_self) (by simp)⟩
    simp [intervalsForAtom, hlo, hhi, valueEndpoint]
  · rename_i hop
    obtain rfl : op = .inList := hop
    obtain ⟨x, hcell, hmem⟩ := inSql_true.mp h
    obtain ⟨v, hv, hx⟩ := List.mem_map.mp hmem
    exact ⟨x, hcell, ⟨[v], [v], [v]⟩, List.mem_map.mpr ⟨v, hv, rfl⟩,
      .ofPoint hx hv (List.mem_map.mpr ⟨v, hv, rfl⟩)⟩
  · exact h.elim

/-! ## Children -/

/-- What a child tells of a cell: nothing, or an info that has its value. -/
def Outcome (enc : Encoding ν) (cell : Option (StoredValue ν)) (info : PartitionInfo ν)
    (fams : Option (List (Operands ν))) : Prop :=
  (fams = none ∧ info = FULL_INFO) ∨
    ∃ x, cell = some x ∧ ∃ fs f, fams = some fs ∧ f ∈ fs ∧ Has enc x info f

theorem andStep_full (acc : PartitionInfo ν) : andStep acc FULL_INFO = acc := by
  unfold andStep FULL_INFO
  cases acc with
  | mk values intervals => cases values <;> cases intervals <;> rfl

theorem full_andStep {info : PartitionInfo ν} {is : List (WireInterval ν)}
    (h : info.intervals = .within is) : andStep FULL_INFO info = info := by
  obtain ⟨values, intervals⟩ := info
  obtain rfl : intervals = .within is := h
  cases values <;> rfl

theorem Status.andStep {acc info : PartitionInfo ν} {as cs : Option (List (Operands ν))}
    (ha : Status acc as) (hc : Status info cs) : Status (andStep acc info) (andFamilies as cs) := by
  rcases hc with ⟨rfl, rfl⟩ | ⟨fs, is, rfl, his⟩
  · rw [andStep_full, andFamilies_none]
    exact ha
  · rcases ha with ⟨rfl, rfl⟩ | ⟨gs, js, rfl, hjs⟩
    · rw [full_andStep his]
      exact .inr ⟨fs, is, rfl, his⟩
    · exact .inr ⟨_, intersectIntervals js is, rfl, by simp [Plan.andStep, his, hjs]⟩

/-- A child that has the value keeps it in a disjunction. -/
theorem Has.orLeft {acc info : PartitionInfo ν} {f : Operands ν} {is : List (WireInterval ν)}
    (h : Has enc x acc f) (hi : info.intervals = .within is) : Has enc x (orStep acc info) f := by
  obtain ⟨js, hjs, i, hmem, hx, hw⟩ := h.intervals
  refine ⟨⟨js ++ is, by simp [orStep, hjs, hi], i, List.mem_append_left _ hmem, hx, hw⟩,
    fun vs hvs => ?_⟩
  cases hacc : acc.values with
  | none => simp [orStep, hacc] at hvs
  | some us =>
    cases hinfo : info.values with
    | none => simp [orStep, hacc, hinfo] at hvs
    | some ws =>
      obtain rfl : us ++ ws = vs := by simpa [orStep, hacc, hinfo] using hvs
      obtain ⟨v, hv, hve, hvx⟩ := h.values us hacc
      exact ⟨v, List.mem_append_left _ hv, hve, hvx⟩

theorem Has.orRight {acc info : PartitionInfo ν} {f : Operands ν} {js : List (WireInterval ν)}
    (h : Has enc x info f) (hj : acc.intervals = .within js) : Has enc x (orStep acc info) f := by
  obtain ⟨is, his, i, hmem, hx, hw⟩ := h.intervals
  refine ⟨⟨js ++ is, by simp [orStep, his, hj], i, List.mem_append_right _ hmem, hx, hw⟩,
    fun vs hvs => ?_⟩
  cases hacc : acc.values with
  | none => simp [orStep, hacc] at hvs
  | some us =>
    cases hinfo : info.values with
    | none => simp [orStep, hacc, hinfo] at hvs
    | some ws =>
      obtain rfl : us ++ ws = vs := by simpa [orStep, hacc, hinfo] using hvs
      obtain ⟨v, hv, hve, hvx⟩ := h.values ws hinfo
      exact ⟨v, List.mem_append_right _ hv, hve, hvx⟩

theorem Outcome.orLeft {cell : Option (StoredValue ν)} {acc info : PartitionInfo ν}
    {as cs : Option (List (Operands ν))} (ha : Outcome enc cell acc as) (hc : Status info cs) :
    Outcome enc cell (orStep acc info) (orFamilies as cs) := by
  rcases ha with ⟨rfl, rfl⟩ | ⟨x, hx, gs, g, rfl, hg, hhas⟩
  · exact .inl ⟨rfl, rfl⟩
  · rcases hc with ⟨rfl, rfl⟩ | ⟨fs, is, rfl, his⟩
    · refine .inl ⟨rfl, ?_⟩
      unfold orStep FULL_INFO
      cases acc.values <;> cases acc.intervals <;> rfl
    · exact .inr ⟨x, hx, gs ++ fs, g, rfl, List.mem_append_left _ hg, hhas.orLeft his⟩

theorem Outcome.orRight {cell : Option (StoredValue ν)} {acc info : PartitionInfo ν}
    {as cs : Option (List (Operands ν))} (ha : Status acc as) (hc : Outcome enc cell info cs) :
    Outcome enc cell (orStep acc info) (orFamilies as cs) := by
  rcases ha with ⟨rfl, rfl⟩ | ⟨gs, js, rfl, hjs⟩
  · exact .inl ⟨rfl, rfl⟩
  · rcases hc with ⟨rfl, rfl⟩ | ⟨x, hx, fs, f, rfl, hf, hhas⟩
    · refine .inl ⟨rfl, ?_⟩
      unfold orStep FULL_INFO
      cases acc.values <;> cases acc.intervals <;> rfl
    · exact .inr ⟨x, hx, gs ++ fs, f, rfl, List.mem_append_right _ hf, hhas.orRight hjs⟩

mutual
theorem predicate_status : ∀ p : ColumnPredicate ν, Status (predicateInfo p) (families p)
  | .other => .inl ⟨by rw [families], by rw [predicateInfo]⟩
  | .atom a => .inr ⟨a.families, intervalsForAtom a, by rw [families], by rw [predicateInfo]⟩
  | .node .and ps => by
    rw [families, predicateInfo]
    exact predicates_status_and ps (.inl ⟨rfl, rfl⟩)
  | .node .or [] => .inl ⟨by rw [families]; rfl, by rw [predicateInfo]; rfl⟩
  | .node .or (p :: ps) => by
    rw [families, predicateInfo, combineOr]
    exact predicates_status_or (p :: ps) (.inr ⟨[], [], rfl, rfl⟩)

theorem predicates_status_and : ∀ (ps : List (ColumnPredicate ν)) {acc : PartitionInfo ν}
    {as : Option (List (Operands ν))}, Status acc as →
      Status ((predicateInfoAll ps).foldl andStep acc) ((familiesAll ps).foldl andFamilies as)
  | [], _, _, h => by
    rw [predicateInfoAll, familiesAll]
    exact h
  | p :: ps, _, _, h => by
    rw [predicateInfoAll, familiesAll]
    exact predicates_status_and ps (h.andStep (predicate_status p))

theorem predicates_status_or : ∀ (ps : List (ColumnPredicate ν)) {acc : PartitionInfo ν}
    {as : Option (List (Operands ν))}, Status acc as →
      Status ((predicateInfoAll ps).foldl orStep acc) ((familiesAll ps).foldl orFamilies as)
  | [], _, _, h => by
    rw [predicateInfoAll, familiesAll]
    exact h
  | p :: ps, _, _, h => by
    rw [predicateInfoAll, familiesAll]
    exact predicates_status_or ps (h.orStep (predicate_status p))
end

/-! ## Conjunctions and disjunctions -/

section
variable {cell : Option (StoredValue ν)}

/-- In a disjunction it is enough that one child has the outcome. -/
theorem outcome_or_fold : ∀ (ps : List (ColumnPredicate ν)) {acc : PartitionInfo ν}
    {as : Option (List (Operands ν))}, Outcome enc cell acc as →
      Outcome enc cell ((predicateInfoAll ps).foldl orStep acc)
        ((familiesAll ps).foldl orFamilies as)
  | [], _, _, h => by
    rw [predicateInfoAll, familiesAll]
    exact h
  | p :: ps, _, _, h => by
    rw [predicateInfoAll, familiesAll]
    exact outcome_or_fold ps (h.orLeft (predicate_status p))

theorem outcome_or_mem : ∀ (ps : List (ColumnPredicate ν)) {acc : PartitionInfo ν}
    {as : Option (List (Operands ν))}, Status acc as → ∀ p ∈ ps,
      Outcome enc cell (predicateInfo p) (families p) →
        Outcome enc cell ((predicateInfoAll ps).foldl orStep acc)
          ((familiesAll ps).foldl orFamilies as)
  | [], _, _, _, p, hp, _ => absurd hp List.not_mem_nil
  | q :: qs, acc, as, ha, p, hp, hout => by
    rw [predicateInfoAll, familiesAll]
    rcases List.mem_cons.mp hp with rfl | hp
    · exact outcome_or_fold qs (.orRight ha hout)
    · exact outcome_or_mem qs (ha.orStep (predicate_status q)) p hp hout

/-- The operands of one family for each constrained child meet in a family of all. -/
theorem exists_meeting_family : ∀ (ps : List (ColumnPredicate ν)) {as : List (Operands ν)}
    {a : Operands ν}, a ∈ as →
      (∀ p ∈ ps, families p = none ∨ ∃ fs f, families p = some fs ∧ f ∈ fs ∧
        Has enc x (predicateInfo p) f) →
      ∃ gs g, (familiesAll ps).foldl andFamilies (some as) = some gs ∧ g ∈ gs ∧
        (a.lowers ⊆ g.lowers ∧ a.uppers ⊆ g.uppers ∧ a.exacts ⊆ g.exacts) ∧
        ∀ p ∈ ps, families p = none ∨ Has enc x (predicateInfo p) g
  | [], as, a, ha, _ =>
    ⟨as, a, by rw [familiesAll]; rfl, ha, ⟨fun _ h => h, fun _ h => h, fun _ h => h⟩,
      fun _ hp => absurd hp List.not_mem_nil⟩
  | p :: ps, as, a, ha, hall => by
    rw [familiesAll, List.foldl_cons]
    have hrest := fun q hq => hall q (List.mem_cons_of_mem p hq)
    rcases hall p List.mem_cons_self with hp | ⟨fs, f, hfs, hf, hhas⟩
    · rw [hp, andFamilies_none]
      obtain ⟨gs, g, hgs, hg, hsub, hmem⟩ := exists_meeting_family ps ha hrest
      refine ⟨gs, g, hgs, hg, hsub, fun q hq => ?_⟩
      rcases List.mem_cons.mp hq with rfl | hq
      · exact .inl hp
      · exact hmem q hq
    · have happend : a.append f ∈ as.flatMap fun f => fs.map fun g => f.append g :=
        List.mem_flatMap.mpr ⟨a, ha, List.mem_map.mpr ⟨f, hf, rfl⟩⟩
      obtain ⟨gs, g, hgs, hg, ⟨hlo, hhi, hex⟩, hmem⟩ := exists_meeting_family ps happend hrest
      refine ⟨gs, g, by rw [hfs]; exact hgs, hg,
        ⟨fun v hv => hlo (List.mem_append_left _ hv), fun v hv => hhi (List.mem_append_left _ hv),
          fun v hv => hex (List.mem_append_left _ hv)⟩, fun q hq => ?_⟩
      rcases List.mem_cons.mp hq with rfl | hq
      · exact .inr (hhas.mono (fun v hv => hlo (List.mem_append_right _ hv))
          (fun v hv => hhi (List.mem_append_right _ hv))
          fun v hv => hex (List.mem_append_right _ hv))
      · exact hmem q hq

/-- A conjunction keeps the value through the children that have it. -/
theorem has_and_fold {g : Operands ν} : ∀ (ps : List (ColumnPredicate ν)) {acc : PartitionInfo ν},
    Has enc x acc g → (∀ p ∈ ps, families p = none ∨ Has enc x (predicateInfo p) g) →
      ((∃ p ∈ ps, families p ≠ none) → g.Agree enc) →
        Has enc x ((predicateInfoAll ps).foldl andStep acc) g
  | [], _, h, _, _ => by
    rw [predicateInfoAll]
    exact h
  | p :: ps, acc, h, hall, hagree => by
    rw [predicateInfoAll, List.foldl_cons]
    have hrest := fun q hq => hall q (List.mem_cons_of_mem p hq)
    have hagree' : (∃ q ∈ ps, families q ≠ none) → g.Agree enc := fun ⟨q, hq, hne⟩ =>
      hagree ⟨q, List.mem_cons_of_mem _ hq, hne⟩
    rcases predicate_status p with ⟨hp, hinfo⟩ | ⟨fs, is, hfs, -⟩
    · rw [hinfo, andStep_full]
      exact has_and_fold ps h hrest hagree'
    · have hne : families p ≠ none := by simp [hfs]
      have hhas := (hall p List.mem_cons_self).resolve_left hne
      exact has_and_fold ps (h.andStep hhas (hagree ⟨p, List.mem_cons_self, hne⟩)) hrest hagree'

/-- A conjunction whose children have outcomes has one, where the operands that meet agree. -/
theorem outcome_and_fold : ∀ (ps : List (ColumnPredicate ν)),
    (∀ p ∈ ps, Outcome enc cell (predicateInfo p) (families p)) →
      (2 ≤ (ps.filter fun p => (families p).isSome).length →
        ∀ fs, (familiesAll ps).foldl andFamilies none = some fs → ∀ f ∈ fs, f.Agree enc) →
        Outcome enc cell ((predicateInfoAll ps).foldl andStep FULL_INFO)
          ((familiesAll ps).foldl andFamilies none)
  | [], _, _ => by
    rw [predicateInfoAll, familiesAll]
    exact .inl ⟨rfl, rfl⟩
  | p :: ps, hall, hagree => by
    rw [predicateInfoAll, familiesAll, List.foldl_cons, List.foldl_cons]
    rw [familiesAll, List.foldl_cons] at hagree
    have hrest := fun q hq => hall q (List.mem_cons_of_mem p hq)
    rcases hall p List.mem_cons_self with ⟨hp, hinfo⟩ | ⟨x, hx, fs, f, hfs, hf, hhas⟩
    · rw [hp, hinfo, andStep_full]
      rw [hp, List.filter_cons_of_neg (by simp [hp])] at hagree
      exact outcome_and_fold ps hrest hagree
    · obtain ⟨is, his, -⟩ := hhas.intervals
      rw [full_andStep his, hfs]
      have hothers : ∀ q ∈ ps, families q = none ∨ ∃ gs g, families q = some gs ∧ g ∈ gs ∧
          Has enc x (predicateInfo q) g := by
        intro q hq
        rcases hrest q hq with ⟨hq, -⟩ | ⟨x', hx', gs, g, hgs, hg, hhas'⟩
        · exact .inl hq
        · obtain rfl := Option.some.inj (hx.symm.trans hx')
          exact .inr ⟨gs, g, hgs, hg, hhas'⟩
      obtain ⟨gs, g, hgs, hg, ⟨hlo, hhi, hex⟩, hmem⟩ := exists_meeting_family ps hf hothers
      refine .inr ⟨x, hx, gs, g, hgs, hg, has_and_fold ps (hhas.mono hlo hhi hex) hmem ?_⟩
      rintro ⟨q, hq, hne⟩
      rw [hfs, List.filter_cons_of_pos (by simp [hfs])] at hagree
      refine hagree ?_ gs hgs g hg
      have hpos : 0 < (ps.filter fun p => (families p).isSome).length :=
        List.length_pos_of_mem (List.mem_filter.mpr ⟨hq, Option.isSome_iff_ne_none.mpr hne⟩)
      rw [List.length_cons]
      omega

/-- A part that does not constrain the column has the full info. -/
theorem outcome_free {p : ColumnPredicate ν} (h : families p = none) :
    Outcome enc cell (predicateInfo p) (families p) := by
  rcases predicate_status p with ⟨_, hinfo⟩ | ⟨fs, is, hfs, -⟩
  · exact .inl ⟨h, hinfo⟩
  · rw [h] at hfs
    cases hfs

/-- What the walker kept of a condition gives the outcome, where operands that meet agree. -/
theorem Sat.outcome {p : ColumnPredicate ν} (hsat : Sat enc cell p) (hc : Compatible enc p) :
    Outcome enc cell (predicateInfo p) (families p) := by
  induction hsat with
  | free h => exact outcome_free h
  | atom h =>
    obtain ⟨x, hx, f, hf, hhas⟩ := h.has
    exact .inr ⟨x, hx, _, f, by rw [families], hf, hhas⟩
  | and _ ih =>
    cases hc with
    | free hfree => exact outcome_free hfree
    | and hchildren hmeet =>
      rw [families] at hmeet ⊢
      rw [predicateInfo]
      exact outcome_and_fold _ (fun p hp => ih p hp (hchildren p hp)) hmeet
  | or hmem _ ih =>
    cases hc with
    | free hfree => exact outcome_free hfree
    | or hchildren =>
      have hne := List.ne_nil_of_mem hmem
      rw [families, predicateInfo, combineOr, predicateInfoAll_eq_map, if_neg (by simpa using hne),
        if_neg (by simpa using hne), ← predicateInfoAll_eq_map]
      exact outcome_or_mem _ (.inr ⟨[], [], rfl, rfl⟩) _ hmem (ih (hchildren _ hmem))

end

end

end Chardb.Plan
