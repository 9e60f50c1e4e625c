import Chardb.Lib.Json
import Chardb.Lib.Kleene
import Chardb.Lib.StoredOrder
import Mathlib.Data.List.Dedup
import Mathlib.Data.List.Perm.Basic

/-!
# Plan predicates

The predicates of a select plan, what SQLite makes of one on a row, and the values that a
predicate leaves for the placement column.
-/

namespace Chardb.Plan

open Chardb.Lib

/-! ## Syntax -/

/-- A scalar that is not null. -/
inductive ChardbPlanScalar (ν : Type)
  | text (s : String)
  | number (x : ν)
  | bool (b : Bool)
  deriving DecidableEq

inductive NullOp
  | isNull
  | isNotNull
  deriving DecidableEq

inductive NodeKind
  | and
  | or
  deriving DecidableEq

inductive ChardbPlanPredicate (ν : Type)
  | compare (op : CompareOp) (column : String) (value : ChardbPlanScalar ν)
  | inList (column : String) (values : List (ChardbPlanScalar ν))
  | between (column : String) (lower upper : ChardbPlanScalar ν)
  | null (op : NullOp) (column : String)
  | node (kind : NodeKind) (predicates : List (ChardbPlanPredicate ν))

mutual
/-- Induction on predicates, with a hypothesis for each child of a node. -/
@[elab_as_elim, induction_eliminator]
theorem ChardbPlanPredicate.ind {ν : Type} {motive : ChardbPlanPredicate ν → Prop}
    (compare : ∀ op column value, motive (.compare op column value))
    (inList : ∀ column values, motive (.inList column values))
    (between : ∀ column lower upper, motive (.between column lower upper))
    (null : ∀ op column, motive (.null op column))
    (node : ∀ kind ps, (∀ p ∈ ps, motive p) → motive (.node kind ps)) :
    ∀ p : ChardbPlanPredicate ν, motive p
  | .compare op column value => compare op column value
  | .inList column values => inList column values
  | .between column lower upper => between column lower upper
  | .null op column => null op column
  | .node kind ps => node kind ps (ChardbPlanPredicate.indAll compare inList between null node ps)

theorem ChardbPlanPredicate.indAll {ν : Type} {motive : ChardbPlanPredicate ν → Prop}
    (compare : ∀ op column value, motive (.compare op column value))
    (inList : ∀ column values, motive (.inList column values))
    (between : ∀ column lower upper, motive (.between column lower upper))
    (null : ∀ op column, motive (.null op column))
    (node : ∀ kind ps, (∀ p ∈ ps, motive p) → motive (.node kind ps)) :
    ∀ ps : List (ChardbPlanPredicate ν), ∀ p ∈ ps, motive p
  | [], _, hp => absurd hp List.not_mem_nil
  | q :: qs, p, hp => by
    rcases List.mem_cons.mp hp with hpq | hp
    · rw [hpq]
      exact ChardbPlanPredicate.ind compare inList between null node q
    · exact ChardbPlanPredicate.indAll compare inList between null node qs p hp
end

/-- A row, by the SQL names of its columns. -/
abbrev PlanRow (ν : Type) := String → Option (StoredValue ν)

variable {ν : Type}

/-! ## Meaning -/

/-- The value a scalar is bound as, to a column of its own type. -/
def ChardbPlanScalar.bind [JsNumber ν] : ChardbPlanScalar ν → StoredValue ν
  | .text s => .text s
  | .number x => .number x
  | .bool b => .number (JsNumber.ofInt (if b then 1 else 0))

def NullOp.holds (op : NullOp) (cell : Option (StoredValue ν)) : Bool :=
  match op with
  | .isNull => cell.isNone
  | .isNotNull => cell.isSome

/-- The connective of a node. -/
def NodeKind.combine : NodeKind → List (Option Bool) → Option Bool
  | .and => allOf
  | .or => anyOf

section
variable [JsNumber ν] [LinearOrder ν]

/-- `column IN (values)`. -/
def inSql (cell : Option (StoredValue ν)) (values : List (Option (StoredValue ν))) : Option Bool :=
  anyOf (values.map (compareSql .eq cell))

/-- `column BETWEEN lower AND upper`. -/
def betweenSql (cell lower upper : Option (StoredValue ν)) : Option Bool :=
  allOf [compareSql .gte cell lower, compareSql .lte cell upper]

mutual
/-- The truth of a predicate on a row. -/
def ChardbPlanPredicate.eval (row : PlanRow ν) : ChardbPlanPredicate ν → Option Bool
  | .compare op column value => compareSql op (row column) (some value.bind)
  | .inList column values => inSql (row column) (values.map fun v => some v.bind)
  | .between column lower upper => betweenSql (row column) (some lower.bind) (some upper.bind)
  | .null op column => some (op.holds (row column))
  | .node kind predicates => kind.combine (evalAll row predicates)

def ChardbPlanPredicate.evalAll (row : PlanRow ν) :
    List (ChardbPlanPredicate ν) → List (Option Bool)
  | [] => []
  | p :: ps => p.eval row :: evalAll row ps
end

theorem evalAll_eq_map (row : PlanRow ν) (ps : List (ChardbPlanPredicate ν)) :
    ChardbPlanPredicate.evalAll row ps = ps.map (ChardbPlanPredicate.eval row) := by
  induction ps with
  | nil => rfl
  | cons p ps ih => rw [ChardbPlanPredicate.evalAll, ih, List.map_cons]

end

/-! ## Placement values -/

def ChardbPlanScalar.text? : ChardbPlanScalar ν → Option String
  | .text s => some s
  | _ => none

/-- The values that all the constrained children have. -/
def intersectAll : List (List String) → List String
  | [] => []
  | values :: rest =>
    rest.foldl (fun intersection child => intersection.filter fun v => v ∈ child) values.dedup

/-- What a node makes of its children; `none` is the `undefined` of the source. -/
def NodeKind.placement (kind : NodeKind) (children : List (Option (List String))) :
    Option (List String) :=
  match kind with
  | .or => if none ∈ children then none else some (children.filterMap id).flatten.dedup
  | .and =>
    let constrained := children.filterMap id
    if constrained.isEmpty then none else some (intersectAll constrained)

mutual
/-- The strings that a predicate leaves for a column; `none` if it leaves others too. -/
def placementValues (column : String) : ChardbPlanPredicate ν → Option (List String)
  | .compare op c value => if c = column ∧ op = .eq then value.text?.map fun s => [s] else none
  | .inList c values =>
    if c = column then (values.mapM ChardbPlanScalar.text?).map List.dedup else none
  | .between .. => none
  | .null .. => none
  | .node kind predicates => kind.placement (placementValuesAll column predicates)

def placementValuesAll (column : String) :
    List (ChardbPlanPredicate ν) → List (Option (List String))
  | [] => []
  | p :: ps => placementValues column p :: placementValuesAll column ps
end

theorem placementValuesAll_eq_map (column : String) (ps : List (ChardbPlanPredicate ν)) :
    placementValuesAll column ps = ps.map (placementValues column) := by
  induction ps with
  | nil => rfl
  | cons p ps ih => rw [placementValuesAll, ih, List.map_cons]

theorem mem_intersectAll {constrained : List (List String)} (h : constrained ≠ []) {v : String} :
    v ∈ intersectAll constrained ↔ ∀ child ∈ constrained, v ∈ child := by
  have hfold : ∀ (rest : List (List String)) (acc : List String),
      v ∈ rest.foldl (fun intersection child => intersection.filter fun v => v ∈ child) acc ↔
        v ∈ acc ∧ ∀ child ∈ rest, v ∈ child := by
    intro rest
    induction rest with
    | nil => simp
    | cons child rest ih =>
      intro acc
      rw [List.foldl_cons, ih, List.mem_filter, List.forall_mem_cons, decide_eq_true_eq, and_assoc]
  cases constrained with
  | nil => exact absurd rfl h
  | cons values rest => rw [intersectAll, hfold, List.mem_dedup, List.forall_mem_cons]

/-- The values of a disjunction: some child has them and every child is constrained. -/
theorem placement_or {children : List (Option (List String))} {values : List String} :
    NodeKind.or.placement children = some values ↔
      none ∉ children ∧ values = (children.filterMap id).flatten.dedup := by
  unfold NodeKind.placement
  simp only
  split
  · simp [*]
  · simp [*, eq_comm (a := values)]

theorem placement_and {children : List (Option (List String))} {values : List String} :
    NodeKind.and.placement children = some values ↔
      children.filterMap id ≠ [] ∧ values = intersectAll (children.filterMap id) := by
  unfold NodeKind.placement
  simp only [List.isEmpty_iff]
  split
  · rename_i h
    exact ⟨fun hnone => (by cases hnone), fun hne => absurd h hne.1⟩
  · rename_i h
    exact ⟨fun hsome => ⟨h, (Option.some.inj hsome).symm⟩, fun hne => by rw [hne.2]⟩

theorem placement_or_none {children : List (Option (List String))} :
    NodeKind.or.placement children = none ↔ none ∈ children := by
  unfold NodeKind.placement
  simp only
  split <;> simp [*]

theorem placement_and_none {children : List (Option (List String))} :
    NodeKind.and.placement children = none ↔ children.filterMap id = [] := by
  unfold NodeKind.placement
  simp only [List.isEmpty_iff]
  split
  · rename_i h
    exact iff_of_true rfl h
  · rename_i h
    exact iff_of_false (by simp) h

theorem mem_placement_or {children : List (Option (List String))} {values : List String} {v : String}
    (h : NodeKind.or.placement children = some values) :
    v ∈ values ↔ ∃ child, some child ∈ children ∧ v ∈ child := by
  obtain ⟨-, rfl⟩ := placement_or.mp h
  simp [List.mem_dedup, List.mem_flatten, List.mem_filterMap]

theorem mem_placement_and {children : List (Option (List String))} {values : List String} {v : String}
    (h : NodeKind.and.placement children = some values) :
    v ∈ values ↔ ∀ child, some child ∈ children → v ∈ child := by
  obtain ⟨hne, rfl⟩ := placement_and.mp h
  rw [mem_intersectAll hne]
  simp [List.mem_filterMap]

/-! ## Soundness -/

/-- `=` is true on equal values. -/
theorem compareSql_eq_true {α : Type} [LinearOrder α] {a b : Option α} :
    compareSql .eq a b = some true ↔ ∃ v, a = some v ∧ b = some v := by
  cases a <;> cases b <;> simp [compareSql, CompareOp.holds, eq_comm]

theorem inSql_true [LinearOrder ν] {cell : Option (StoredValue ν)}
    {values : List (Option (StoredValue ν))} :
    inSql cell values = some true ↔ ∃ v, cell = some v ∧ some v ∈ values := by
  unfold inSql
  rw [anyOf_eq_true, List.mem_map]
  simp only [compareSql_eq_true]
  constructor
  · rintro ⟨_, hmem, v, hcell, rfl⟩
    exact ⟨v, hcell, hmem⟩
  · rintro ⟨v, hcell, hmem⟩
    exact ⟨_, hmem, v, hcell, rfl⟩

theorem text?_eq_some {v : ChardbPlanScalar ν} {s : String} : v.text? = some s ↔ v = .text s := by
  cases v <;> simp [ChardbPlanScalar.text?]

theorem mem_mapM_text {values : List (ChardbPlanScalar ν)} {texts : List String}
    (h : values.mapM ChardbPlanScalar.text? = some texts) {v : ChardbPlanScalar ν} (hv : v ∈ values) :
    ∃ s ∈ texts, v = .text s := by
  induction values generalizing texts with
  | nil => cases hv
  | cons head tail ih =>
    rw [List.mapM_cons] at h
    obtain ⟨s, hs, h⟩ := Option.bind_eq_some_iff.mp h
    obtain ⟨rest, hrest, h⟩ := Option.bind_eq_some_iff.mp h
    obtain rfl := Option.some.inj h
    rcases List.mem_cons.mp hv with rfl | hv
    · exact ⟨s, List.mem_cons_self, text?_eq_some.mp hs⟩
    · obtain ⟨t, ht, hvt⟩ := ih hrest hv
      exact ⟨t, List.mem_cons_of_mem _ ht, hvt⟩

/-- On a row for which the predicate is true, the column holds one of the placement values. -/
theorem placementValues_sound [JsNumber ν] [LinearOrder ν] {row : PlanRow ν} {column : String}
    {p : ChardbPlanPredicate ν} {values : List String} (hvalues : placementValues column p = some values)
    (heval : p.eval row = some true) : ∃ s ∈ values, row column = some (.text s) := by
  induction p generalizing values with
  | compare op c value =>
    unfold placementValues at hvalues
    split at hvalues
    · rename_i hc
      obtain ⟨rfl, rfl⟩ := hc
      obtain ⟨s, hs, rfl⟩ := Option.map_eq_some_iff.mp hvalues
      rw [ChardbPlanPredicate.eval, compareSql_eq_true] at heval
      obtain ⟨v, hcell, hbind⟩ := heval
      rw [text?_eq_some.mp hs] at hbind
      exact ⟨s, List.mem_singleton_self s, hcell.trans hbind.symm⟩
    · cases hvalues
  | inList c candidates =>
    unfold placementValues at hvalues
    split at hvalues
    · rename_i hc
      obtain rfl := hc
      obtain ⟨texts, htexts, rfl⟩ := Option.map_eq_some_iff.mp hvalues
      rw [ChardbPlanPredicate.eval, inSql_true] at heval
      obtain ⟨v, hcell, hmem⟩ := heval
      obtain ⟨candidate, hcandidate, hbind⟩ := List.mem_map.mp hmem
      obtain ⟨s, hs, rfl⟩ := mem_mapM_text htexts hcandidate
      exact ⟨s, List.mem_dedup.mpr hs, hcell.trans hbind.symm⟩
    · cases hvalues
  | between c lower upper =>
    rw [placementValues] at hvalues
    cases hvalues
  | null op c =>
    rw [placementValues] at hvalues
    cases hvalues
  | node kind ps ih =>
    rw [placementValues, placementValuesAll_eq_map] at hvalues
    rw [ChardbPlanPredicate.eval, evalAll_eq_map] at heval
    cases kind with
    | or =>
      obtain ⟨p, hp, hptrue⟩ := List.mem_map.mp (anyOf_eq_true.mp heval)
      obtain ⟨child, hchild⟩ := Option.ne_none_iff_exists'.mp
        fun h => (placement_or.mp hvalues).1 (List.mem_map.mpr ⟨p, hp, h⟩)
      obtain ⟨s, hs, hcell⟩ := ih p hp hchild hptrue
      exact ⟨s, (mem_placement_or hvalues).mpr ⟨child, List.mem_map.mpr ⟨p, hp, hchild⟩, hs⟩, hcell⟩
    | and =>
      have htrue := allOf_eq_true.mp heval
      have hall : ∀ child, some child ∈ ps.map (placementValues column) →
          ∃ s ∈ child, row column = some (.text s) := by
        intro child hchild
        obtain ⟨p, hp, hvalue⟩ := List.mem_map.mp hchild
        exact ih p hp hvalue (htrue _ (List.mem_map_of_mem hp))
      obtain ⟨child, hchild⟩ := List.exists_mem_of_ne_nil _ (placement_and.mp hvalues).1
      obtain ⟨_, hmem, rfl⟩ := List.mem_filterMap.mp hchild
      obtain ⟨s, -, hcell⟩ := hall child hmem
      refine ⟨s, (mem_placement_and hvalues).mpr fun other hother => ?_, hcell⟩
      obtain ⟨t, ht, hcell'⟩ := hall other hother
      obtain rfl : s = t := StoredValue.text.inj (Option.some.inj (hcell.symm.trans hcell'))
      exact ht

/-! ## The order of children -/

/-- One predicate is the other with the children of nodes in other orders. -/
inductive Reordered : ChardbPlanPredicate ν → ChardbPlanPredicate ν → Prop
  | refl (p : ChardbPlanPredicate ν) : Reordered p p
  | perm (kind : NodeKind) {ps qs : List (ChardbPlanPredicate ν)} (h : ps.Perm qs) :
      Reordered (.node kind ps) (.node kind qs)
  | child (kind : NodeKind) (before after : List (ChardbPlanPredicate ν))
      {p q : ChardbPlanPredicate ν} (h : Reordered p q) :
      Reordered (.node kind (before ++ p :: after)) (.node kind (before ++ q :: after))
  | trans {p q r : ChardbPlanPredicate ν} (hpq : Reordered p q) (hqr : Reordered q r) :
      Reordered p r

/-- Both are unconstrained, or both have the same values. -/
def SameValues (a b : Option (List String)) : Prop :=
  (a = none ↔ b = none) ∧ ∀ as bs, a = some as → b = some bs → ∀ v, v ∈ as ↔ v ∈ bs

theorem SameValues.refl (a : Option (List String)) : SameValues a a :=
  ⟨Iff.rfl, fun as bs ha hb v => by rw [Option.some.inj (ha.symm.trans hb)]⟩

theorem SameValues.trans {a b c : Option (List String)} (hab : SameValues a b)
    (hbc : SameValues b c) : SameValues a c := by
  refine ⟨hab.1.trans hbc.1, fun as cs ha hc v => ?_⟩
  cases b with
  | none => rw [hab.1.mpr rfl] at ha; cases ha
  | some bs => exact (hab.2 as bs ha rfl v).trans (hbc.2 bs cs rfl hc v)

/-- A node has the same values when each child of one has a match among the children of the
other. -/
theorem SameValues.node (kind : NodeKind) {xs ys : List (Option (List String))}
    (hxy : ∀ x ∈ xs, ∃ y ∈ ys, SameValues x y) (hyx : ∀ y ∈ ys, ∃ x ∈ xs, SameValues x y) :
    SameValues (kind.placement xs) (kind.placement ys) := by
  have hnone : none ∈ xs ↔ none ∈ ys := by
    constructor
    · intro h
      obtain ⟨y, hy, hsame⟩ := hxy _ h
      rwa [hsame.1.mp rfl] at hy
    · intro h
      obtain ⟨x, hx, hsame⟩ := hyx _ h
      rwa [hsame.1.mpr rfl] at hx
  have hsome : xs.filterMap id = [] ↔ ys.filterMap id = [] := by
    simp only [List.filterMap_eq_nil_iff, id]
    constructor
    · intro h y hy
      obtain ⟨x, hx, hsame⟩ := hyx y hy
      exact hsame.1.mp (h x hx)
    · intro h x hx
      obtain ⟨y, hy, hsame⟩ := hxy x hx
      exact hsame.1.mpr (h y hy)
  have hto : ∀ as v, some as ∈ xs → ∃ bs, some bs ∈ ys ∧ (v ∈ as ↔ v ∈ bs) := by
    intro as v h
    obtain ⟨y, hy, hsame⟩ := hxy _ h
    cases y with
    | none => exact absurd (hsame.1.mpr rfl) (by simp)
    | some bs => exact ⟨bs, hy, hsame.2 as bs rfl rfl v⟩
  have hfrom : ∀ bs v, some bs ∈ ys → ∃ as, some as ∈ xs ∧ (v ∈ as ↔ v ∈ bs) := by
    intro bs v h
    obtain ⟨x, hx, hsame⟩ := hyx _ h
    cases x with
    | none => exact absurd (hsame.1.mp rfl) (by simp)
    | some as => exact ⟨as, hx, hsame.2 as bs rfl rfl v⟩
  cases kind with
  | or =>
    refine ⟨?_, fun as bs ha hb v => ?_⟩
    · rw [placement_or_none, placement_or_none]
      exact hnone
    · rw [mem_placement_or ha, mem_placement_or hb]
      constructor
      · rintro ⟨child, hchild, hv⟩
        obtain ⟨bs, hbs, hiff⟩ := hto child v hchild
        exact ⟨bs, hbs, hiff.mp hv⟩
      · rintro ⟨child, hchild, hv⟩
        obtain ⟨as, has, hiff⟩ := hfrom child v hchild
        exact ⟨as, has, hiff.mpr hv⟩
  | and =>
    refine ⟨?_, fun as bs ha hb v => ?_⟩
    · rw [placement_and_none, placement_and_none]
      exact hsome
    · rw [mem_placement_and ha, mem_placement_and hb]
      constructor
      · intro h child hchild
        obtain ⟨as, has, hiff⟩ := hfrom child v hchild
        exact hiff.mp (h as has)
      · intro h child hchild
        obtain ⟨bs, hbs, hiff⟩ := hto child v hchild
        exact hiff.mpr (h bs hbs)

/-- The values do not depend on the order of children. -/
theorem placementValues_reordered {column : String} {p q : ChardbPlanPredicate ν}
    (h : Reordered p q) : SameValues (placementValues column p) (placementValues column q) := by
  induction h with
  | refl p => exact .refl _
  | perm kind h =>
    simp only [placementValues, placementValuesAll_eq_map]
    have hmap := h.map (placementValues column)
    exact .node kind (fun x hx => ⟨x, hmap.mem_iff.mp hx, .refl x⟩)
      fun y hy => ⟨y, hmap.mem_iff.mpr hy, .refl y⟩
  | child kind before after h ih =>
    simp only [placementValues, placementValuesAll_eq_map, List.map_append, List.map_cons]
    refine .node kind (fun x hx => ?_) fun y hy => ?_
    · rcases List.mem_append.mp hx with hx | hx
      · exact ⟨x, List.mem_append_left _ hx, .refl x⟩
      · rcases List.mem_cons.mp hx with rfl | hx
        · exact ⟨_, List.mem_append_right _ List.mem_cons_self, ih⟩
        · exact ⟨x, List.mem_append_right _ (List.mem_cons_of_mem _ hx), .refl x⟩
    · rcases List.mem_append.mp hy with hy | hy
      · exact ⟨y, List.mem_append_left _ hy, .refl y⟩
      · rcases List.mem_cons.mp hy with rfl | hy
        · exact ⟨_, List.mem_append_right _ List.mem_cons_self, ih⟩
        · exact ⟨y, List.mem_append_right _ (List.mem_cons_of_mem _ hy), .refl y⟩
  | trans _ _ ihpq ihqr => exact ihpq.trans ihqr

end Chardb.Plan
