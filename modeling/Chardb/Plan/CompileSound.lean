import Chardb.Plan.Compile
import Chardb.Plan.WalkerSoundness

/-!
# What the compiler keeps

A condition that compiles and the condition that is built of its plan have the same text,
when the values of the condition are bound with the encoders of their columns.
-/

namespace Chardb.Plan

open Chardb.Lib

variable {ν : Type} {t : DrizzleTable ν}

/-! ## Shapes that compile -/

/-- JSON keeps the scalar. -/
def ChardbPlanScalar.IsExact [JsNumber ν] : ChardbPlanScalar ν → Prop
  | .number x => JsNumber.exact x = true
  | _ => True

theorem selectedTableColumn_ok {chunk : SqlChunk ν} {name : String}
    (h : selectedTableColumn t chunk = .ok name) :
    chunk = .column (t.column name) ∧ isIdentifier name = true := by
  unfold selectedTableColumn at h
  split at h
  · rename_i c
    split at h
    · cases h
    · rename_i htable
      obtain ⟨href, hname⟩ := Prod.mk.inj (not_not.mp htable)
      unfold boundedIdentifier at h
      simp only at h
      split at h
      · rename_i hid
        obtain rfl := Except.ok.inj h
        refine ⟨?_, hid⟩
        unfold DrizzleTable.column
        rw [← href, ← hname]
      · cases h
  · cases h

theorem selectedTableColumn_eq {name : String} (h : isIdentifier name = true) :
    selectedTableColumn t (.column (t.column name)) = .ok name := by
  simp [selectedTableColumn, DrizzleTable.column, boundedIdentifier, h]

theorem compareText_text (op : CompareOp) : compareText (CompareOp.text op) = some op := by
  cases op <;> rfl

theorem compareText_eq {text : String} {op : CompareOp} (h : compareText text = some op) :
    text = CompareOp.text op := by
  obtain ⟨before, after, hsplit, -⟩ := List.lookup_eq_some_iff.mp h
  have hmem : (text, op) ∈ [(" = ", CompareOp.eq), (" <> ", .ne), (" > ", .gt), (" >= ", .gte),
      (" < ", .lt), (" <= ", .lte)] := by
    rw [hsplit]
    exact List.mem_append_right _ List.mem_cons_self
  simp only [List.mem_cons, Prod.mk.injEq, List.not_mem_nil, or_false] at hmem
  rcases hmem with ⟨rfl, rfl⟩ | ⟨rfl, rfl⟩ | ⟨rfl, rfl⟩ | ⟨rfl, rfl⟩ | ⟨rfl, rfl⟩ | ⟨rfl, rfl⟩ <;> rfl

theorem nullText_text (op : NullOp) : nullText op.text = some op := by
  cases op <;> rfl

theorem nullText_eq {text : String} {op : NullOp} (h : nullText text = some op) :
    text = op.text := by
  unfold nullText at h
  split at h
  · rename_i htext
    obtain rfl := Option.some.inj h
    exact htext
  · split at h
    · rename_i htext
      obtain rfl := Option.some.inj h
      exact htext
    · cases h

theorem paramsOf_map (params : List (Param ν)) :
    paramsOf (params.map SqlChunk.param) = some params := by
  induction params with
  | nil => rfl
  | cons p params ih => rw [List.map_cons, paramsOf, ih]; rfl

section
variable [JsNumber ν]

theorem parameter_ok {chunk : SqlChunk ν} {subject : String} {value : ChardbPlanScalar ν}
    (h : parameter chunk subject = .ok value) :
    (∃ driver, chunk = .param ⟨value.toParamValue, driver⟩) ∧ value.IsExact := by
  unfold parameter at h
  split at h
  · rename_i p
    obtain ⟨v, driver⟩ := p
    simp only at h
    split at h
    · obtain rfl := Except.ok.inj h
      exact ⟨⟨driver, by simp_all [ChardbPlanScalar.toParamValue]⟩, trivial⟩
    · obtain rfl := Except.ok.inj h
      exact ⟨⟨driver, by simp_all [ChardbPlanScalar.toParamValue]⟩, trivial⟩
    · split at h
      · rename_i hexact
        obtain rfl := Except.ok.inj h
        exact ⟨⟨driver, by simp_all [ChardbPlanScalar.toParamValue]⟩, hexact⟩
      · cases h
    · cases h
    · cases h
  · cases h

theorem parameter_eq {value : ChardbPlanScalar ν} (h : value.IsExact)
    (driver : Option (StoredValue ν)) (subject : String) :
    parameter (.param ⟨value.toParamValue, driver⟩) subject = .ok value := by
  cases value with
  | text s => rfl
  | bool b => rfl
  | number x => exact if_pos h

/-- The bound value has the scalar, which JSON keeps. -/
def IsParamOf (p : Param ν) (value : ChardbPlanScalar ν) : Prop :=
  p.value = value.toParamValue ∧ value.IsExact

theorem exists_params {items : List (SqlChunk ν)} {values : List (ChardbPlanScalar ν)}
    (h : List.Forall₂ (fun item value => (∃ driver, item = SqlChunk.param ⟨value.toParamValue, driver⟩) ∧
      value.IsExact) items values) :
    ∃ params : List (Param ν), items = params.map .param ∧ List.Forall₂ IsParamOf params values := by
  induction h with
  | nil => exact ⟨[], rfl, .nil⟩
  | cons hx _ ih =>
    obtain ⟨⟨driver, rfl⟩, hexact⟩ := hx
    obtain ⟨params, rfl, hparams⟩ := ih
    exact ⟨⟨_, driver⟩ :: params, rfl, .cons ⟨rfl, hexact⟩ hparams⟩

theorem params_eq {params : List (Param ν)} {values : List (ChardbPlanScalar ν)} {name : String}
    (h : List.Forall₂ IsParamOf params values)
    (hbound : ∀ p ∈ params, p.driver = t.encode name p.value) :
    params = values.map (bindIfParam t name) := by
  induction h with
  | nil => rfl
  | cons hx _ ih =>
    rename_i p value params values _
    rw [List.map_cons, ← ih fun q hq => hbound q (List.mem_cons_of_mem _ hq), bindIfParam, ← hx.1,
      ← hbound p List.mem_cons_self]

theorem isParamOf_bind {values : List (ChardbPlanScalar ν)} (name : String)
    (h : ∀ v ∈ values, v.IsExact) : List.Forall₂ IsParamOf (values.map (bindIfParam t name)) values := by
  rw [List.forall₂_map_left_iff, List.forall₂_same]
  exact fun v hv => ⟨rfl, h v hv⟩

/-- The chunks of a leaf, with the predicate that it compiles to. -/
inductive LeafOf (t : DrizzleTable ν) : Sql ν → ChardbPlanPredicate ν → Prop
  | compare (op : CompareOp) {name : String} {value : ChardbPlanScalar ν}
      {driver : Option (StoredValue ν)} (hname : isIdentifier name = true) (hvalue : value.IsExact) :
      LeafOf t [.column (t.column name), .string (CompareOp.text op),
        .param ⟨value.toParamValue, driver⟩] (.compare op name value)
  | inList {name : String} {params : List (Param ν)} {values : List (ChardbPlanScalar ν)}
      (hname : isIdentifier name = true)
      (hlength : 1 ≤ values.length ∧ values.length ≤ CHARDB_SELECT_PLAN_MAX_IN_VALUES)
      (hvalues : List.Forall₂ IsParamOf params values) :
      LeafOf t [.column (t.column name), .string " in ", .array (params.map .param)]
        (.inList name values)
  | between {name : String} {lower upper : ChardbPlanScalar ν} {dl du : Option (StoredValue ν)}
      (hname : isIdentifier name = true) (hlower : lower.IsExact) (hupper : upper.IsExact) :
      LeafOf t [.column (t.column name), .string " between ", .param ⟨lower.toParamValue, dl⟩,
        .string " and ", .param ⟨upper.toParamValue, du⟩] (.between name lower upper)
  | null (op : NullOp) {name : String} (hname : isIdentifier name = true) :
      LeafOf t [.column (t.column name), .string op.text] (.null op name)

theorem compileIn_ok {column value : SqlChunk ν} {p : ChardbPlanPredicate ν}
    (h : compileIn t column value = .ok p) : LeafOf t [column, .string " in ", value] p := by
  unfold compileIn at h
  obtain ⟨name, hcolumn, hin⟩ := bind_ok h
  obtain ⟨rfl, hname⟩ := selectedTableColumn_ok hcolumn
  split at hin
  · rename_i items
    split at hin
    · cases hin
    · rename_i hlength
      obtain ⟨values, hvalues, hp⟩ := bind_ok hin
      obtain rfl := Except.ok.inj hp
      have hall := mapM_ok_iff.mp hvalues
      have hlen : items.length = values.length := by
        rw [← hall.length_eq, List.length_zipIdx]
      have hitems : List.Forall₂ (fun item value =>
          (∃ driver, item = SqlChunk.param ⟨value.toParamValue, driver⟩) ∧ value.IsExact)
          items values := by
        rw [← List.zipIdx_map_fst 0 items, List.forall₂_map_left_iff]
        exact hall.imp fun item v hv => parameter_ok hv
      obtain ⟨params, rfl, hparams⟩ := exists_params hitems
      exact .inList hname (by omega) hparams
  · cases hin

theorem compileLeaf_ok {cs : Sql ν} {p : ChardbPlanPredicate ν} (h : compileLeaf t cs = .ok p) :
    LeafOf t cs p := by
  unfold compileLeaf at h
  split at h
  · split at h
    · rename_i op hop
      obtain ⟨name, hcolumn, hp⟩ := bind_ok h
      obtain ⟨rfl, hname⟩ := selectedTableColumn_ok hcolumn
      obtain rfl := Except.ok.inj hp
      rw [nullText_eq hop]
      exact .null op hname
    · cases h
  · split at h
    · rename_i op hop
      obtain ⟨name, hcolumn, hscalar⟩ := bind_ok h
      obtain ⟨rfl, hname⟩ := selectedTableColumn_ok hcolumn
      obtain ⟨value, hvalue, hp⟩ := bind_ok hscalar
      obtain ⟨⟨driver, rfl⟩, hexact⟩ := parameter_ok hvalue
      obtain rfl := Except.ok.inj hp
      rw [compareText_eq hop]
      exact .compare op hname hexact
    · split at h
      · rename_i htext
        rw [htext]
        exact compileIn_ok h
      · cases h
  · split at h
    · rename_i htext
      obtain ⟨rfl, rfl⟩ := htext
      obtain ⟨name, hcolumn, hscalars⟩ := bind_ok h
      obtain ⟨rfl, hname⟩ := selectedTableColumn_ok hcolumn
      obtain ⟨lower, hlower, hscalar⟩ := bind_ok hscalars
      obtain ⟨⟨dl, rfl⟩, hlowerExact⟩ := parameter_ok hlower
      obtain ⟨upper, hupper, hp⟩ := bind_ok hscalar
      obtain ⟨⟨du, rfl⟩, hupperExact⟩ := parameter_ok hupper
      obtain rfl := Except.ok.inj hp
      exact .between hname hlowerExact hupperExact
    · cases h
  · cases h

/-- A leaf compiles to its predicate. -/
theorem LeafOf.compile {cs : Sql ν} {p : ChardbPlanPredicate ν} (h : LeafOf t cs p) :
    compileLeaf t cs = .ok p := by
  cases h with
  | compare op hname hvalue =>
    simp [compileLeaf, compareText_text, selectedTableColumn_eq hname, parameter_eq hvalue, bind,
      Except.bind, pure, Except.pure]
  | null op hname =>
    simp [compileLeaf, nullText_text, selectedTableColumn_eq hname, bind, Except.bind, pure,
      Except.pure]
  | between hname hlower hupper =>
    simp [compileLeaf, selectedTableColumn_eq hname, parameter_eq hlower, parameter_eq hupper, bind,
      Except.bind, pure, Except.pure]
  | @inList name params values hname hlength hvalues =>
    have hlen := hvalues.length_eq
    have hnot : ¬ ((params.map SqlChunk.param).length = 0 ∨
        CHARDB_SELECT_PLAN_MAX_IN_VALUES < (params.map SqlChunk.param).length) := by
      rw [List.length_map]
      omega
    have hmap : ((params.map SqlChunk.param).zipIdx.mapM fun item =>
        parameter item.1 ("inArray value " ++ toString item.2)) = .ok values := by
      refine mapM_ok_iff.mpr ?_
      have hitems : List.Forall₂ (fun item value => ∀ subject, parameter item subject = .ok value)
          (params.map SqlChunk.param) values := by
        rw [List.forall₂_map_left_iff]
        refine hvalues.imp ?_
        rintro ⟨v, driver⟩ value ⟨rfl, hexact⟩
        exact parameter_eq hexact driver
      rw [← List.zipIdx_map_fst 0 (params.map SqlChunk.param), List.forall₂_map_left_iff] at hitems
      exact hitems.imp fun item value h => h _
    have hin : compileIn t (.column (t.column name)) (.array (params.map .param)) =
        .ok (.inList name values) := by
      simp only [compileIn, selectedTableColumn_eq hname, hmap, if_neg hnot, bind, Except.bind, pure,
        Except.pure]
    have hnone : compareText " in " = none := rfl
    simp [compileLeaf, hin, hnone]

theorem LeafOf.onlySql_none {cs : Sql ν} {p : ChardbPlanPredicate ν} (h : LeafOf t cs p) :
    onlySql cs = none := by
  cases h <;> rfl

theorem LeafOf.matchConjunction_none {cs : Sql ν} {p : ChardbPlanPredicate ν} (h : LeafOf t cs p) :
    matchConjunction cs = none := by
  cases h <;> rfl

theorem LeafOf.shape [LinearOrder ν] {cs : Sql ν} {p : ChardbPlanPredicate ν} (h : LeafOf t cs p) :
    ∃ cond, shapeOf cs = .leaf cond := by
  cases h with
  | compare op hname hvalue =>
    simp [shapeOf, bracketed, negated, leafCond, compareText_text]
  | inList hname hlength hvalues =>
    simp [shapeOf, bracketed, negated, leafCond, paramsOf_map]
  | between hname hlower hupper => simp [shapeOf, bracketed, negated, leafCond]
  | null op hname => simp [shapeOf, bracketed, negated, leafCond, nullText_text]

/-! ## Runs of the compiler -/

/-- The plan of a condition, at some depth and count. -/
def CompilesTo (t : DrizzleTable ν) (chunks : Sql ν) (p : ChardbPlanPredicate ν) : Prop :=
  ∃ depth n n', compilePredicate t depth chunks n = .ok (p, n')

theorem countCondition_ok {depth n : Nat} {r : Unit × Nat} (h : countCondition depth n = .ok r) :
    depth ≤ CHARDB_SELECT_PLAN_MAX_DEPTH ∧ n + 1 ≤ CHARDB_SELECT_PLAN_MAX_PREDICATES ∧
      r = ((), n + 1) := by
  unfold countCondition at h
  split at h
  · cases h
  · split at h
    · cases h
    · exact ⟨by omega, by omega, (Except.ok.inj h).symm⟩

theorem countCondition_eq {depth n : Nat} (hdepth : depth ≤ CHARDB_SELECT_PLAN_MAX_DEPTH)
    (hn : n + 1 ≤ CHARDB_SELECT_PLAN_MAX_PREDICATES) : countCondition depth n = .ok ((), n + 1) := by
  unfold countCondition
  rw [if_neg (by omega), if_neg (by omega)]

/-- What a run of the compiler has seen. -/
inductive Compiled (t : DrizzleTable ν) (depth n : Nat) (chunks : Sql ν) (p : ChardbPlanPredicate ν)
    (n' : Nat) : Prop
  | only {only : Sql ν} (hs : onlySql (compact chunks) = some only)
      (h : compilePredicate t depth only (n + 1) = .ok (p, n'))
  | node {kind : NodeKind} {children : List (Sql ν)} {ps : List (ChardbPlanPredicate ν)}
      (hs : onlySql (compact chunks) = none)
      (h : matchConjunction (compact chunks) = some (kind, children))
      (hlength : 2 ≤ children.length ∧ children.length ≤ CHARDB_SELECT_PLAN_MAX_CHILDREN)
      (hchildren : StateRun (compilePredicate t (depth + 1)) children (n + 1) ps n')
      (hp : p = .node kind ps)
  | leaf (hs : onlySql (compact chunks) = none) (h : matchConjunction (compact chunks) = none)
      (hleaf : LeafOf t (compact chunks) p) (hn : n' = n + 1)

theorem compilePredicate_ok {depth n n' : Nat} {chunks : Sql ν} {p : ChardbPlanPredicate ν}
    (h : compilePredicate t depth chunks n = .ok (p, n')) :
    depth ≤ CHARDB_SELECT_PLAN_MAX_DEPTH ∧ n + 1 ≤ CHARDB_SELECT_PLAN_MAX_PREDICATES ∧
      Compiled t depth n chunks p n' := by
  cases hs : onlySql (compact chunks) with
  | some only =>
    rw [compilePredicate_only hs] at h
    obtain ⟨_, s, hcount, h⟩ := state_bind_ok h
    obtain ⟨hdepth, hn, hr⟩ := countCondition_ok hcount
    obtain rfl := (Prod.mk.inj hr).2
    exact ⟨hdepth, hn, .only hs h⟩
  | none =>
    cases hmatch : matchConjunction (compact chunks) with
    | some pair =>
      obtain ⟨kind, children⟩ := pair
      rw [compilePredicate_node hs hmatch] at h
      obtain ⟨_, s, hcount, h⟩ := state_bind_ok h
      obtain ⟨hdepth, hn, hr⟩ := countCondition_ok hcount
      obtain rfl := (Prod.mk.inj hr).2
      split at h
      · cases h
      · rename_i hlength
        obtain ⟨ps, s', hps, h⟩ := state_bind_ok h
        obtain ⟨rfl, rfl⟩ := Prod.mk.inj (Except.ok.inj h)
        exact ⟨hdepth, hn, .node hs hmatch (by omega) (state_mapM_ok_iff.mp hps) rfl⟩
    | none =>
      rw [compilePredicate_leaf hs hmatch] at h
      obtain ⟨_, s, hcount, h⟩ := state_bind_ok h
      obtain ⟨hdepth, hn, hr⟩ := countCondition_ok hcount
      obtain rfl := (Prod.mk.inj hr).2
      cases hleaf : compileLeaf t (compact chunks) with
      | error e => rw [hleaf] at h; cases h
      | ok q =>
        rw [hleaf] at h
        obtain ⟨rfl, rfl⟩ := Prod.mk.inj (Except.ok.inj h)
        exact ⟨hdepth, hn, .leaf hs hmatch (compileLeaf_ok hleaf) rfl⟩

/-- Induction on a condition that compiles, with its plan. -/
theorem CompilesTo.ind {motive : Sql ν → ChardbPlanPredicate ν → Prop}
    (only : ∀ {chunks only : Sql ν} {p}, onlySql (compact chunks) = some only → motive only p →
      motive chunks p)
    (node : ∀ {chunks : Sql ν} {kind : NodeKind} {children : List (Sql ν)} {ps},
      onlySql (compact chunks) = none → matchConjunction (compact chunks) = some (kind, children) →
        2 ≤ children.length → List.Forall₂ motive children ps → motive chunks (.node kind ps))
    (leaf : ∀ {chunks : Sql ν} {p}, onlySql (compact chunks) = none →
      matchConjunction (compact chunks) = none → LeafOf t (compact chunks) p → motive chunks p) :
    ∀ {chunks : Sql ν} {p}, CompilesTo t chunks p → motive chunks p := by
  intro chunks
  induction hsize : sizeOf chunks using Nat.strong_induction_on generalizing chunks with
  | _ size ih =>
    subst hsize
    rintro p ⟨depth, n, n', h⟩
    obtain ⟨-, -, hcompiled⟩ := compilePredicate_ok h
    cases hcompiled with
    | @only inner hs honly =>
      have hlt : sizeOf inner < sizeOf chunks :=
        sizeOf_of_mem_compact (by rw [onlySql_eq_some hs]; exact List.mem_cons_self)
      exact only hs (ih _ hlt rfl ⟨_, _, _, honly⟩)
    | node hs hmatch hlength hchildren hp =>
      subst hp
      have hmem := (List.forall₂_and_left _ _).mpr ⟨fun c hc => hc, hchildren.forall₂⟩
      refine node hs hmatch hlength.1 (hmem.imp fun c q hcq => ?_)
      obtain ⟨hc, s, s', hq⟩ := hcq
      exact ih _ (sizeOf_of_matchConjunction hmatch c hc) rfl ⟨_, _, _, hq⟩
    | leaf hs hmatch hleaf hn => exact leaf hs hmatch hleaf

/-! ## Plans within the limits -/

/-- What the compiler and the validator ask of a predicate that has so many levels. -/
inductive Valid : Nat → ChardbPlanPredicate ν → Prop
  | compare {levels : Nat} (op : CompareOp) {name : String} {value : ChardbPlanScalar ν}
      (hname : isIdentifier name = true) (hvalue : value.IsExact) :
      Valid (levels + 1) (.compare op name value)
  | inList {levels : Nat} {name : String} {values : List (ChardbPlanScalar ν)}
      (hname : isIdentifier name = true)
      (hlength : 1 ≤ values.length ∧ values.length ≤ CHARDB_SELECT_PLAN_MAX_IN_VALUES)
      (hvalues : ∀ v ∈ values, v.IsExact) : Valid (levels + 1) (.inList name values)
  | between {levels : Nat} {name : String} {lower upper : ChardbPlanScalar ν}
      (hname : isIdentifier name = true) (hlower : lower.IsExact) (hupper : upper.IsExact) :
      Valid (levels + 1) (.between name lower upper)
  | null {levels : Nat} (op : NullOp) {name : String} (hname : isIdentifier name = true) :
      Valid (levels + 1) (.null op name)
  | node {levels : Nat} (kind : NodeKind) {ps : List (ChardbPlanPredicate ν)}
      (hlength : 2 ≤ ps.length ∧ ps.length ≤ CHARDB_SELECT_PLAN_MAX_CHILDREN)
      (h : ∀ p ∈ ps, Valid levels p) : Valid (levels + 1) (.node kind ps)

mutual
/-- How many predicates a predicate has, itself included. -/
def ChardbPlanPredicate.nodes : ChardbPlanPredicate ν → Nat
  | .node _ ps => 1 + nodesAll ps
  | _ => 1

def ChardbPlanPredicate.nodesAll : List (ChardbPlanPredicate ν) → Nat
  | [] => 0
  | p :: ps => p.nodes + nodesAll ps
end

theorem LeafOf.valid {cs : Sql ν} {p : ChardbPlanPredicate ν} (h : LeafOf t cs p) (levels : Nat) :
    Valid (levels + 1) p ∧ p.nodes = 1 := by
  cases h with
  | compare op hname hvalue => exact ⟨.compare op hname hvalue, by rw [ChardbPlanPredicate.nodes]; simp⟩
  | inList hname hlength hvalues =>
    refine ⟨.inList hname hlength fun v hv => ?_, by rw [ChardbPlanPredicate.nodes]; simp⟩
    obtain ⟨i, hi, rfl⟩ := List.getElem_of_mem hv
    exact ((List.forall₂_iff_get.mp hvalues).2 i (by rw [hvalues.length_eq]; exact hi) hi).2
  | between hname hlower hupper =>
    exact ⟨.between hname hlower hupper, by rw [ChardbPlanPredicate.nodes]; simp⟩
  | null op hname => exact ⟨.null op hname, by rw [ChardbPlanPredicate.nodes]; simp⟩

/-- A run over children, with what each child keeps. -/
theorem compiled_children {depth levels : Nat} {children : List (Sql ν)}
    {ps : List (ChardbPlanPredicate ν)} {n n' : Nat}
    (hrun : StateRun (compilePredicate t depth) children n ps n')
    (hn : n ≤ CHARDB_SELECT_PLAN_MAX_PREDICATES)
    (h : ∀ c ∈ children, ∀ p n n', compilePredicate t depth c n = .ok (p, n') →
      Valid levels p ∧ n + p.nodes ≤ n' ∧ n' ≤ CHARDB_SELECT_PLAN_MAX_PREDICATES) :
    (∀ p ∈ ps, Valid levels p) ∧ n + ChardbPlanPredicate.nodesAll ps ≤ n' ∧
      n' ≤ CHARDB_SELECT_PLAN_MAX_PREDICATES := by
  induction hrun with
  | nil => exact ⟨by simp, by simp [ChardbPlanPredicate.nodesAll], hn⟩
  | cons hx _ ih =>
    obtain ⟨hvalid, hcount, hmax⟩ := h _ List.mem_cons_self _ _ _ hx
    obtain ⟨hall, hrest, hmax'⟩ := ih hmax fun c hc => h c (List.mem_cons_of_mem _ hc)
    refine ⟨List.forall_mem_cons.mpr ⟨hvalid, hall⟩, ?_, hmax'⟩
    rw [ChardbPlanPredicate.nodesAll]
    omega

/-- What compiles is within the limits. -/
theorem compilePredicate_valid {depth n n' : Nat} {chunks : Sql ν} {p : ChardbPlanPredicate ν}
    (h : compilePredicate t depth chunks n = .ok (p, n')) :
    Valid (CHARDB_SELECT_PLAN_MAX_DEPTH + 1 - depth) p ∧ n + p.nodes ≤ n' ∧
      n' ≤ CHARDB_SELECT_PLAN_MAX_PREDICATES := by
  induction hsize : sizeOf chunks using Nat.strong_induction_on generalizing chunks depth n n' p with
  | _ size ih =>
    subst hsize
    obtain ⟨hdepth, hn, hcompiled⟩ := compilePredicate_ok h
    cases hcompiled with
    | @only inner hs honly =>
      have hlt : sizeOf inner < sizeOf chunks :=
        sizeOf_of_mem_compact (by rw [onlySql_eq_some hs]; exact List.mem_cons_self)
      obtain ⟨hvalid, hcount, hmax⟩ := ih _ hlt honly rfl
      exact ⟨hvalid, by omega, hmax⟩
    | node hs hmatch hlength hchildren hp =>
      obtain ⟨hall, hcount, hmax⟩ := compiled_children hchildren hn fun c hc p n n' hc' =>
        ih _ (sizeOf_of_matchConjunction hmatch c hc) hc' rfl
      have hlevels : CHARDB_SELECT_PLAN_MAX_DEPTH + 1 - depth =
          CHARDB_SELECT_PLAN_MAX_DEPTH + 1 - (depth + 1) + 1 := by omega
      have hps := hchildren.forall₂.length_eq
      subst hp
      rw [hlevels, ChardbPlanPredicate.nodes]
      exact ⟨.node _ (by omega) hall, by omega, hmax⟩
    | leaf hs hmatch hleaf hn' =>
      obtain ⟨hvalid, hnodes⟩ := hleaf.valid (CHARDB_SELECT_PLAN_MAX_DEPTH - depth)
      have hlevels : CHARDB_SELECT_PLAN_MAX_DEPTH + 1 - depth =
          CHARDB_SELECT_PLAN_MAX_DEPTH - depth + 1 := by omega
      rw [hlevels]
      exact ⟨hvalid, by omega, by omega⟩

end

/-! ## Conditions that are built of plans -/

theorem planColumn_ok {name : String} {c : DrizzleColumn} (h : planColumn t name = .ok c) :
    c = t.column name := by
  unfold planColumn at h
  split at h
  · exact (Except.ok.inj h).symm
  · cases h

/-- What the chunks of a leaf are, when it is built of a plan. -/
def leafChunks (t : DrizzleTable ν) : ChardbPlanPredicate ν → Sql ν
  | .compare op name value =>
    [.column (t.column name), .string (CompareOp.text op), .param (bindIfParam t name value)]
  | .inList name values =>
    [.column (t.column name), .string " in ",
      .array ((values.map (bindIfParam t name)).map SqlChunk.param)]
  | .between name lower upper =>
    [.column (t.column name), .string " between ", .param (bindIfParam t name lower),
      .string " and ", .param (bindIfParam t name upper)]
  | .null op name => [.column (t.column name), .string op.text]
  | .node .. => []

theorem CompareOp.text_ne (op : CompareOp) : CompareOp.text op ≠ "" := by cases op <;> decide

theorem NullOp.text_ne (op : NullOp) : op.text ≠ "" := by cases op <;> decide

theorem NodeKind.text_ne (kind : NodeKind) : kind.text ≠ "" := by cases kind <;> decide

theorem predicateSql_leaf {p : ChardbPlanPredicate ν} {rebuilt : Sql ν}
    (hleaf : ∀ kind ps, p ≠ .node kind ps) (h : predicateSql t p = .ok rebuilt) :
    compact rebuilt = leafChunks t p := by
  cases p with
  | compare op name value =>
    rw [predicateSql] at h
    obtain ⟨c, hc, h⟩ := bind_ok h
    obtain rfl := Except.ok.inj h
    simp [compact, SqlChunk.isBlank, CompareOp.text_ne, leafChunks, planColumn_ok hc]
  | inList name values =>
    rw [predicateSql] at h
    obtain ⟨c, hc, h⟩ := bind_ok h
    obtain rfl := Except.ok.inj h
    simp [compact, SqlChunk.isBlank, leafChunks, planColumn_ok hc]
  | between name lower upper =>
    rw [predicateSql] at h
    obtain ⟨c, hc, h⟩ := bind_ok h
    obtain rfl := Except.ok.inj h
    simp [compact, SqlChunk.isBlank, leafChunks, planColumn_ok hc]
  | null op name =>
    rw [predicateSql] at h
    obtain ⟨c, hc, h⟩ := bind_ok h
    obtain rfl := Except.ok.inj h
    simp [compact, SqlChunk.isBlank, NullOp.text_ne, leafChunks, planColumn_ok hc]
  | node kind ps => exact absurd rfl (hleaf kind ps)

theorem compact_sqlJoin {separator : String} (h : separator ≠ "") (cs : List (Sql ν)) :
    compact (sqlJoin separator cs) = sqlJoin separator cs := by
  fun_induction sqlJoin separator cs with
  | case1 => rfl
  | case2 c => rfl
  | case3 c cs hne ih => simpa [compact, SqlChunk.isBlank, h] using ih

theorem length_sqlJoin {separator : String} : ∀ (c : Sql ν) (cs : List (Sql ν)),
    (sqlJoin separator (c :: cs)).length = 2 * cs.length + 1
  | c, [] => rfl
  | c, d :: ds => by
    rw [sqlJoin, List.length_cons, List.length_cons, length_sqlJoin d ds, List.length_cons]
    · omega
    · simp

theorem conjunctionChildren_sqlJoin {separator : String} : ∀ (c : Sql ν) (cs : List (Sql ν)),
    conjunctionChildren separator (sqlJoin separator (c :: cs)) = some (c :: cs)
  | c, [] => rfl
  | c, d :: ds => by
    rw [sqlJoin, conjunctionChildren, if_pos rfl, conjunctionChildren_sqlJoin d ds]
    · rfl
    · simp

theorem separatorKind_text (kind : NodeKind) : separatorKind kind.text = some kind := by
  cases kind <;> rfl

/-- Two or more conditions that are joined are recognised as their conjunction or disjunction. -/
theorem combineSql_matched {kind : NodeKind} {cs : List (Sql ν)} {combined : Sql ν}
    (hlength : 2 ≤ cs.length) (h : combineSql kind cs = some combined) :
    onlySql (compact combined) = none ∧ matchConjunction (compact combined) = some (kind, cs) := by
  match cs, hlength with
  | c :: d :: ds, _ =>
    obtain rfl := Option.some.inj h
    have hcompact : compact [.string "(", .sql (sqlJoin kind.text (c :: d :: ds)), .string ")"] =
        [SqlChunk.string "(", .sql (sqlJoin kind.text (c :: d :: ds)), .string ")"] := by
      simp [compact, SqlChunk.isBlank]
    have hsecond : (sqlJoin kind.text (c :: d :: ds))[1]? = some (.string kind.text) := by
      rw [sqlJoin]
      · rfl
      · simp
    have hlen : (sqlJoin kind.text (c :: d :: ds)).length = 2 * (d :: ds).length + 1 :=
      length_sqlJoin c (d :: ds)
    rw [hcompact]
    refine ⟨rfl, ?_⟩
    unfold matchConjunction
    simp only [ne_eq, not_true_eq_false, or_self, if_false, compact_sqlJoin kind.text_ne, hsecond,
      separatorKind_text, conjunctionChildren_sqlJoin]
    rw [List.length_cons] at hlen
    rw [if_neg (by omega)]
    rfl

theorem predicateSqlAll_ok {ps : List (ChardbPlanPredicate ν)} {cs : List (Sql ν)}
    (h : predicateSqlAll t ps = .ok cs) :
    List.Forall₂ (fun p c => predicateSql t p = .ok c) ps cs := by
  induction ps generalizing cs with
  | nil =>
    rw [predicateSqlAll] at h
    obtain rfl := Except.ok.inj h
    exact .nil
  | cons p ps ih =>
    rw [predicateSqlAll] at h
    obtain ⟨c, hc, h⟩ := bind_ok h
    obtain ⟨cs', hcs, h⟩ := bind_ok h
    obtain rfl := Except.ok.inj h
    exact .cons hc (ih hcs)

theorem predicateSql_node {kind : NodeKind} {ps : List (ChardbPlanPredicate ν)} {rebuilt : Sql ν}
    (hlength : 2 ≤ ps.length) (h : predicateSql t (.node kind ps) = .ok rebuilt) :
    ∃ cs, List.Forall₂ (fun p c => predicateSql t p = .ok c) ps cs ∧
      onlySql (compact rebuilt) = none ∧ matchConjunction (compact rebuilt) = some (kind, cs) := by
  rw [predicateSql] at h
  obtain ⟨cs, hcs, h⟩ := bind_ok h
  have hall := predicateSqlAll_ok hcs
  split at h
  · rename_i combined hcombined
    obtain rfl := Except.ok.inj h
    have hlen := hall.length_eq
    exact ⟨cs, hall, combineSql_matched (by omega) hcombined⟩
  · cases h

/-! ## There and back -/

/-- The values of a condition are bound with the encoders of their columns. -/
inductive ColumnBound (t : DrizzleTable ν) : Sql ν → Prop
  | alone {chunks only : Sql ν} (h : onlySql (compact chunks) = some only)
      (honly : ColumnBound t only) : ColumnBound t chunks
  | node {chunks : Sql ν} {kind : NodeKind} {children : List (Sql ν)}
      (hs : onlySql (compact chunks) = none)
      (h : matchConjunction (compact chunks) = some (kind, children))
      (hchildren : ∀ c ∈ children, ColumnBound t c) : ColumnBound t chunks
  | leaf {chunks : Sql ν} (hs : onlySql (compact chunks) = none)
      (h : matchConjunction (compact chunks) = none)
      (hbound : ∀ c, SqlChunk.column c ∈ compact chunks → ∀ chunk ∈ compact chunks,
        ∀ p ∈ chunk.bound, p.driver = t.encode c.name p.value) : ColumnBound t chunks

theorem render_children_eq [LinearOrder ν] {raw : Sql ν → Alternatives ν} {children cs : List (Sql ν)}
    {ps : List (ChardbPlanPredicate ν)}
    (h : List.Forall₂ (fun c p => ∀ rebuilt, ColumnBound t c → predicateSql t p = .ok rebuilt →
      render raw c = render raw rebuilt) children ps)
    (hcs : List.Forall₂ (fun p c => predicateSql t p = .ok c) ps cs)
    (hbound : ∀ c ∈ children, ColumnBound t c) :
    children.map (render raw) = cs.map (render raw) := by
  induction h generalizing cs with
  | nil =>
    cases hcs
    rfl
  | cons hx _ ih =>
    cases hcs with
    | cons hc hcs =>
      rw [List.map_cons, List.map_cons, hx _ (hbound _ List.mem_cons_self) hc,
        ih hcs fun c hc => hbound c (List.mem_cons_of_mem _ hc)]

section
variable [JsNumber ν]

/-- A leaf with the encoders of its column is the leaf that is built of its plan. -/
theorem LeafOf.chunks_eq {cs : Sql ν} {p : ChardbPlanPredicate ν} (h : LeafOf t cs p)
    (hbound : ∀ c, SqlChunk.column c ∈ cs → ∀ chunk ∈ cs, ∀ p ∈ chunk.bound,
      p.driver = t.encode c.name p.value) : cs = leafChunks t p := by
  cases h with
  | @compare op name value driver hname hvalue =>
    have hdriver := hbound (t.column name) List.mem_cons_self (.param ⟨value.toParamValue, driver⟩)
      (by simp) ⟨value.toParamValue, driver⟩ List.mem_cons_self
    simp only at hdriver
    rw [hdriver]
    rfl
  | @inList name params values hname hlength hvalues =>
    have hdrivers := hbound (t.column name) List.mem_cons_self (.array (params.map .param)) (by simp)
    rw [SqlChunk.bound, paramsOf_map] at hdrivers
    rw [params_eq hvalues hdrivers]
    rfl
  | @between name lower upper dl du hname hlower hupper =>
    have hdl := hbound (t.column name) List.mem_cons_self (.param ⟨lower.toParamValue, dl⟩)
      (by simp) ⟨lower.toParamValue, dl⟩ List.mem_cons_self
    have hdu := hbound (t.column name) List.mem_cons_self (.param ⟨upper.toParamValue, du⟩)
      (by simp) ⟨upper.toParamValue, du⟩ List.mem_cons_self
    simp only at hdl hdu
    rw [hdl, hdu]
    rfl
  | null op hname => rfl

theorem LeafOf.not_node {cs : Sql ν} {p : ChardbPlanPredicate ν} (h : LeafOf t cs p) :
    ∀ kind ps, p ≠ .node kind ps := by
  intro kind ps
  cases h <;> simp

/-- A condition that compiles has the text of the condition that is built of its plan. -/
theorem CompilesTo.render_eq [LinearOrder ν] {raw : Sql ν → Alternatives ν} {chunks : Sql ν}
    {p : ChardbPlanPredicate ν} (h : CompilesTo t chunks p) :
    ∀ rebuilt, ColumnBound t chunks → predicateSql t p = .ok rebuilt →
      render raw chunks = render raw rebuilt := by
  refine CompilesTo.ind (motive := fun chunks p => ∀ rebuilt, ColumnBound t chunks →
    predicateSql t p = .ok rebuilt → render raw chunks = render raw rebuilt) ?_ ?_ ?_ h
  · intro chunks only p hs ih rebuilt hbound hrebuilt
    rw [render_alone (shapeOf_onlySql hs)]
    cases hbound with
    | alone hs' honly =>
      obtain rfl := Option.some.inj (hs.symm.trans hs')
      exact ih _ honly hrebuilt
    | node hs' => rw [hs] at hs'; cases hs'
    | leaf hs' => rw [hs] at hs'; cases hs'
  · intro chunks kind children ps hs hmatch hlength ih rebuilt hbound hrebuilt
    have hps := ih.length_eq
    obtain ⟨cs, hcs, hs', hmatch'⟩ := predicateSql_node (by omega) hrebuilt
    rw [render_group (shapeOf_conjunction hmatch).2, render_group (shapeOf_conjunction hmatch').2]
    cases hbound with
    | alone hs' => rw [hs] at hs'; cases hs'
    | node hs' hmatch'' hchildren =>
      obtain ⟨rfl, rfl⟩ := Prod.mk.inj (Option.some.inj (hmatch.symm.trans hmatch''))
      rw [render_children_eq ih hcs hchildren, hps, hcs.length_eq]
    | leaf hs' hmatch'' => rw [hmatch] at hmatch''; cases hmatch''
  · intro chunks p hs hmatch hleaf rebuilt hbound hrebuilt
    have hrebuilt' := predicateSql_leaf hleaf.not_node hrebuilt
    obtain ⟨cond, hshape⟩ := hleaf.shape
    cases hbound with
    | alone hs' => rw [hs] at hs'; cases hs'
    | node hs' hmatch' => rw [hmatch] at hmatch'; cases hmatch'
    | leaf hs' hmatch' hbound =>
      have heq := hleaf.chunks_eq hbound
      rw [render_leaf hshape, render_leaf (by rw [hrebuilt', ← heq]; exact hshape)]

/-- The leaf that is built of a valid predicate. -/
theorem leafOf_valid {levels : Nat} {p : ChardbPlanPredicate ν} (h : Valid levels p)
    (hleaf : ∀ kind ps, p ≠ .node kind ps) : LeafOf t (leafChunks t p) p := by
  cases h with
  | compare op hname hvalue => exact .compare op hname hvalue
  | inList hname hlength hvalues => exact .inList hname hlength (isParamOf_bind _ hvalues)
  | between hname hlower hupper => exact .between hname hlower hupper
  | null op hname => exact .null op hname
  | node kind => exact absurd rfl (hleaf kind _)

/-- What is built of a valid leaf compiles to the leaf. -/
theorem recompile_leaf {levels depth n : Nat} {p : ChardbPlanPredicate ν} {rebuilt : Sql ν}
    (hvalid : Valid levels p) (hleaf : ∀ kind ps, p ≠ .node kind ps)
    (h : predicateSql t p = .ok rebuilt) (hdepth : depth ≤ CHARDB_SELECT_PLAN_MAX_DEPTH)
    (hn : n + p.nodes ≤ CHARDB_SELECT_PLAN_MAX_PREDICATES) :
    compilePredicate t depth rebuilt n = .ok (p, n + p.nodes) := by
  have hof := leafOf_valid (t := t) hvalid hleaf
  have hnodes := (hof.valid 0).2
  have hcompact := predicateSql_leaf hleaf h
  rw [compilePredicate_leaf (by rw [hcompact]; exact hof.onlySql_none)
      (by rw [hcompact]; exact hof.matchConjunction_none),
    state_bind_eq (countCondition_eq hdepth (by omega)), hcompact, hof.compile, hnodes]
  rfl

theorem recompile_children (depth : Nat) {ps : List (ChardbPlanPredicate ν)} {cs : List (Sql ν)}
    (n : Nat) (hcs : List.Forall₂ (fun p c => predicateSql t p = .ok c) ps cs)
    (hn : n + ChardbPlanPredicate.nodesAll ps ≤ CHARDB_SELECT_PLAN_MAX_PREDICATES)
    (h : ∀ p ∈ ps, ∀ rebuilt n, predicateSql t p = .ok rebuilt →
      n + p.nodes ≤ CHARDB_SELECT_PLAN_MAX_PREDICATES →
        compilePredicate t depth rebuilt n = .ok (p, n + p.nodes)) :
    StateRun (compilePredicate t depth) cs n ps (n + ChardbPlanPredicate.nodesAll ps) := by
  induction hcs generalizing n with
  | nil => exact .nil _
  | @cons p c ps cs hc _ ih =>
    rw [ChardbPlanPredicate.nodesAll, ← Nat.add_assoc] at hn ⊢
    exact .cons (h p List.mem_cons_self c n hc (by omega))
      (ih (n + p.nodes) hn fun q hq => h q (List.mem_cons_of_mem _ hq))

/-- What is built of a valid predicate compiles to the predicate. -/
theorem recompile {levels : Nat} {p : ChardbPlanPredicate ν} (hvalid : Valid levels p) :
    ∀ {depth n : Nat} {rebuilt : Sql ν}, predicateSql t p = .ok rebuilt →
      depth + levels ≤ CHARDB_SELECT_PLAN_MAX_DEPTH + 1 →
        n + p.nodes ≤ CHARDB_SELECT_PLAN_MAX_PREDICATES →
          compilePredicate t depth rebuilt n = .ok (p, n + p.nodes) := by
  induction hvalid with
  | compare op hname hvalue =>
    intro depth n rebuilt h hdepth hn
    exact recompile_leaf (.compare op hname hvalue : Valid 1 _) (by simp) h (by omega) hn
  | inList hname hlength hvalues =>
    intro depth n rebuilt h hdepth hn
    exact recompile_leaf (.inList hname hlength hvalues : Valid 1 _) (by simp) h (by omega) hn
  | between hname hlower hupper =>
    intro depth n rebuilt h hdepth hn
    exact recompile_leaf (.between hname hlower hupper : Valid 1 _) (by simp) h (by omega) hn
  | null op hname =>
    intro depth n rebuilt h hdepth hn
    exact recompile_leaf (.null op hname : Valid 1 _) (by simp) h (by omega) hn
  | @node levels kind ps hlength hps ih =>
    intro depth n rebuilt h hdepth hn
    obtain ⟨cs, hcs, hs, hmatch⟩ := predicateSql_node hlength.1 h
    have hlen := hcs.length_eq
    rw [ChardbPlanPredicate.nodes] at hn ⊢
    have hrun := recompile_children (depth + 1) (n + 1) hcs (by omega)
      fun p hp rebuilt n h hn => ih p hp h (by omega) hn
    rw [compilePredicate_node hs hmatch, state_bind_eq (countCondition_eq (by omega) (by omega)),
      if_neg (by omega), state_bind_eq (state_mapM_ok_iff.mpr hrun), Nat.add_assoc]
    rfl

end

end Chardb.Plan
