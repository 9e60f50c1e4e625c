import Chardb.Plan.PlanRoundTrip

/-!
# Registered queries

`compileRegisteredQueryPlan` compiles the select that a query callback builds: its plan, and
the authority and partition that the walker reads off the condition. A client that sends the
plan through `resolveSelectPlan` gets the same two.
-/

namespace Chardb.Plan

open Chardb.Lib
open Chardb.Policy (PlacementAuthority)

variable {ν : Type}

/-- `unsupported` of `registered-query-plan.ts`. -/
def unsupportedPlanned (message : String) : Thrown :=
  .cdb { code := .unsupportedFeature, message := "planned query: " ++ message }

/-- The configuration of the select builder. The flags say which clauses are there. -/
structure SelectConfig (ν : Type) where
  table : Option (DrizzleTable ν)
  withList : Bool
  joins : Bool
  distinct : Bool
  groupBy : Bool
  setOperators : Bool
  offset : Bool
  /-- `none` if it is no safe integer. -/
  limit : Option Int
  «where» : Option (Sql ν)
  fields : List (String × DrizzleColumn)
  orderBy : List (SqlChunk ν)

/-- A select query plan without its hash. -/
structure RegisteredSelectQueryPlan (ν : Type) where
  plan : ChardbSelectPlan ν
  authority : PlacementAuthority
  partitionKey : String
  intent : CdbIntent ν
  intervals : List (IndexIntervals ν)
  projection : List (String × String)
  orderBy : List OrderItem
  limit : Int

/-- `compileChardbSelectPlanOrder`. -/
def compileChardbSelectPlanOrder (expression : SqlChunk ν) (t : DrizzleTable ν) :
    Except Thrown OrderItem :=
  match expression with
  | .column c => do
    let column ← selectedTableColumn t (.column c)
    pure ⟨column, .asc⟩
  | .sql chunks =>
    match compact chunks with
    | [head, .string text] =>
      if text = " asc" ∨ text = " desc" then do
        let column ← selectedTableColumn t head
        pure ⟨column, if text = " asc" then .asc else .desc⟩
      else throw (unsupportedBuilder "orderBy accepts only a column, asc(column), or desc(column)")
    | _ => throw (unsupportedBuilder "orderBy accepts only a column, asc(column), or desc(column)")
  | _ => throw (unsupportedBuilder "orderBy accepts only a column, asc(column), or desc(column)")

/-- `authorityAndPartitionColumn`. -/
def authorityAndPartitionColumn (t : DrizzleTable ν) : Except Thrown TablePlacement := do
  let m ← t.entry.resolveCdbMeta
  match m.tenantKind with
  | .org =>
    match m.tenantBy with
    | some column => pure ⟨.organization, column⟩
    | none => throw (invariantError (m.name ++ ": missing organization column"))
  | .user =>
    match m.tenantBy with
    | some column => pure ⟨.user, column⟩
    | none => throw (invariantError (m.name ++ ": missing user column"))
  | .none =>
    match m.partitionBy with
    | .colocate [column] =>
      if column = "" then
        throw (unsupportedPlanned (m.name ++ " requires one global partition column"))
      else pure ⟨.global, column⟩
    | _ => throw (unsupportedPlanned (m.name ++ " requires one global partition column"))

def projectionFor (fields : List (String × DrizzleColumn)) (t : DrizzleTable ν) :
    Except Thrown (List (String × String)) :=
  let expected := t.keys.zip (t.entry.columns.map fun c => t.column c.name)
  if fields.length ≠ expected.length ∨ fields.any fun f => expected.lookup f.1 ≠ some f.2 then
    .error (unsupportedPlanned
      "explicit projections are unavailable in the first planned-query version")
  else .ok (fields.map fun f => (f.1, f.2.name))

/-- The clauses that a planned query has not. -/
def assertPlannedClauses (config : SelectConfig ν) : Except Thrown Unit :=
  if config.withList then .error (unsupportedPlanned "CTEs are unavailable")
  else if config.joins then .error (unsupportedPlanned "joins are unavailable")
  else if config.distinct then .error (unsupportedPlanned "DISTINCT is unavailable")
  else if config.groupBy then .error (unsupportedPlanned "grouped queries are unavailable")
  else if config.setOperators then .error (unsupportedPlanned "set operators are unavailable")
  else if config.offset then .error (unsupportedPlanned "offset pagination is unavailable")
  else .ok ()

def plannedLimit (limit : Option Int) : Except Thrown Int :=
  match limit with
  | some n =>
    if IsSafeInteger n ∧ 1 ≤ n ∧ n ≤ CHARDB_SELECT_PLAN_MAX_LIMIT then .ok n
    else .error (unsupportedPlanned
      ("limit must be an integer from 1 through " ++ toString CHARDB_SELECT_PLAN_MAX_LIMIT))
  | none => .error (unsupportedPlanned
      ("limit must be an integer from 1 through " ++ toString CHARDB_SELECT_PLAN_MAX_LIMIT))

def requiredTable (config : SelectConfig ν) : Except Thrown (DrizzleTable ν) :=
  match config.table with
  | some t => .ok t
  | none => .error (unsupportedPlanned "FROM must reference one concrete SQLite cdbTable")

def requiredWhere (config : SelectConfig ν) : Except Thrown (Sql ν) :=
  match config.where with
  | some condition => .ok condition
  | none => .error (crossPartition "planned query requires an exact placement predicate")

/-- The one partition of an intent. -/
def partitionOf (intent : CdbIntent ν) : Except Thrown String :=
  match intent.joinShape, intent.partitionKey.map PartitionKey.values with
  | .colocated, some [.text s] =>
    if s = "" then
      .error (crossPartition "planned query must constrain its placement column to one nonempty string")
    else .ok s
  | _, _ =>
    .error (crossPartition "planned query must constrain its placement column to one nonempty string")

/-- `ORDER BY` ends with the primary key. -/
def assertPrimaryKeyOrder (t : DrizzleTable ν) (orderBy : List OrderItem) : Except Thrown Unit :=
  if t.primaryKey = [] then .error (unsupportedPlanned "table must declare a primary key")
  else if (orderBy.drop (orderBy.length - t.primaryKey.length)).map OrderItem.column = t.primaryKey then
    .ok ()
  else .error (unsupportedPlanned ("ORDER BY must end with primary key column" ++
    (if t.primaryKey.length = 1 then "" else "s") ++ " " ++ ", ".intercalate t.primaryKey))

section
variable [LinearOrder ν]

/-- The intervals of each column that has some. -/
def columnIntervals (t : DrizzleTable ν) (condition : Sql ν) : List (IndexIntervals ν) :=
  t.entry.columns.filterMap fun c =>
    (intervalsForColumnPredicate condition t.name c.name).nonempty?.map fun is => ⟨t.name, c.name, is⟩

/-- `compileRegisteredQueryPlan`, from the builder that the callback returns. -/
def compileRegisteredQueryPlan [JsNumber ν] (config : SelectConfig ν) :
    Except Thrown (RegisteredSelectQueryPlan ν) := do
  let t ← requiredTable config
  assertPlannedClauses config
  let limit ← plannedLimit config.limit
  let condition ← requiredWhere config
  let predicate ← compileChardbSelectPlanPredicate condition t
  let placement ← authorityAndPartitionColumn t
  let intent := buildIntent ⟨[t.name], some condition⟩ .select [(t.name, placement.column)]
  let partitionKey ← partitionOf intent
  let projection ← projectionFor config.fields t
  let compiledOrderBy ← config.orderBy.mapM fun item => compileChardbSelectPlanOrder item t
  let plan ← validateChardbSelectPlanV1 (JsValue.ofJson
    (⟨t.name, some predicate, some compiledOrderBy, some limit, .many⟩ : ChardbSelectPlan ν).toJson)
  assertPrimaryKeyOrder t (plan.orderBy.getD [])
  pure ⟨plan, placement.authority, partitionKey, intent, columnIntervals t condition, projection,
    plan.orderBy.getD [], limit⟩

end

/-! ## The values of the walker and of the plan -/

theorem isPartitionColumn_self (t : DrizzleTable ν) (column : String) :
    isPartitionColumn (t.column column) t.name column = true := by
  simp [isPartitionColumn, DrizzleTable.column]

/-- Texts of the placement values. -/
def TextsIn (values : Option (List (ParamValue ν))) (texts : List String) : Prop :=
  ∃ vs, values = some vs ∧ ∀ v ∈ vs, ∃ s ∈ texts, v = .text s

theorem orStep_values (infos : List (PartitionInfo ν)) : ∀ (acc : PartitionInfo ν)
    {as : List (ParamValue ν)}, acc.values = some as →
      (∀ i ∈ infos, ∃ vs, i.values = some vs) →
        ∃ out, (infos.foldl orStep acc).values = some out ∧
          ∀ v ∈ out, v ∈ as ∨ ∃ i ∈ infos, ∃ vs, i.values = some vs ∧ v ∈ vs := by
  induction infos with
  | nil => intro acc as hacc _; exact ⟨as, hacc, fun v hv => .inl hv⟩
  | cons i infos ih =>
    intro acc as hacc hall
    obtain ⟨vs, hvs⟩ := hall i List.mem_cons_self
    have hstep : (orStep acc i).values = some (as ++ vs) := by simp [orStep, hacc, hvs]
    obtain ⟨out, hout, hmem⟩ := ih _ hstep fun j hj => hall j (List.mem_cons_of_mem _ hj)
    refine ⟨out, hout, fun v hv => ?_⟩
    rcases hmem v hv with hv | ⟨j, hj, ws, hws, hv⟩
    · rcases List.mem_append.mp hv with hv | hv
      · exact .inl hv
      · exact .inr ⟨i, List.mem_cons_self, vs, hvs, hv⟩
    · exact .inr ⟨j, List.mem_cons_of_mem _ hj, ws, hws, hv⟩

section
variable [LinearOrder ν]

theorem andStep_values (infos : List (PartitionInfo ν)) : ∀ (acc : PartitionInfo ν),
    (acc.values ≠ none ∨ ∃ i ∈ infos, i.values ≠ none) →
      ∃ out, (infos.foldl andStep acc).values = some out ∧
        ∀ v ∈ out, (∀ as, acc.values = some as → v ∈ as) ∧
          ∀ i ∈ infos, ∀ vs, i.values = some vs → v ∈ vs := by
  induction infos with
  | nil =>
    intro acc hsome
    obtain ⟨as, has⟩ := Option.ne_none_iff_exists'.mp (hsome.resolve_right (by simp))
    refine ⟨as, has, fun v hv => ⟨fun bs hbs => ?_, by simp⟩⟩
    rwa [← Option.some.inj (has.symm.trans hbs)]
  | cons i infos ih =>
    intro acc hsome
    have hstep : (andStep acc i).values ≠ none ∨ ∃ j ∈ infos, j.values ≠ none := by
      rcases hsome with hacc | ⟨j, hj, hne⟩
      · refine .inl ?_
        cases ha : acc.values <;> cases hi : i.values <;> simp_all [andStep]
      · rcases List.mem_cons.mp hj with rfl | hj
        · refine .inl ?_
          cases ha : acc.values <;> cases hi : j.values <;> simp_all [andStep]
        · exact .inr ⟨j, hj, hne⟩
    obtain ⟨out, hout, hmem⟩ := ih _ hstep
    refine ⟨out, hout, fun v hv => ?_⟩
    obtain ⟨hfirst, hrest⟩ := hmem v hv
    have hboth : (∀ as, acc.values = some as → v ∈ as) ∧ ∀ vs, i.values = some vs → v ∈ vs := by
      cases ha : acc.values <;> cases hi : i.values <;>
        simp_all [andStep, intersectValues, List.mem_filter]
    refine ⟨hboth.1, fun j hj => ?_⟩
    rcases List.mem_cons.mp hj with rfl | hj
    · exact hboth.2
    · exact hrest j hj

variable {t : DrizzleTable ν}

/-- A leaf that leaves placement values leaves texts of them to the walker. -/
theorem LeafOf.textsIn [JsNumber ν] {cs : Sql ν} {p : ChardbPlanPredicate ν} {column : String}
    {texts : List String} (h : LeafOf t cs p) (hvalues : placementValues column p = some texts) :
    TextsIn (predicateInfo (walkLeaf t.name column cs)).values texts := by
  cases h with
  | @compare op name value driver hname hvalue =>
    rw [placementValues] at hvalues
    split at hvalues
    · rename_i hcolumn
      obtain ⟨rfl, rfl⟩ := hcolumn
      obtain ⟨s, hs, rfl⟩ := Option.map_eq_some_iff.mp hvalues
      obtain rfl := text?_eq_some.mp hs
      refine ⟨[.text s], ?_, by simp⟩
      simp [walkLeaf, isPartitionColumn_self, CompareOp.text, binaryOp,
        ChardbPlanScalar.toParamValue, predicateInfo]
    · cases hvalues
  | @inList name params values hname hlength hparams =>
    rw [placementValues] at hvalues
    split at hvalues
    · rename_i hcolumn
      obtain rfl := hcolumn
      obtain ⟨ts, hts, rfl⟩ := Option.map_eq_some_iff.mp hvalues
      refine ⟨params.map Param.value, ?_, fun v hv => ?_⟩
      · simp [walkLeaf, isPartitionColumn_self, paramsOf_map, predicateInfo]
      · obtain ⟨q, hq, rfl⟩ := List.mem_map.mp hv
        obtain ⟨value, hvalue, hparam, -⟩ := exists_right_of_forall₂ hparams hq
        obtain ⟨s, hs, rfl⟩ := mem_mapM_text hts hvalue
        exact ⟨s, List.mem_dedup.mpr hs, hparam⟩
    · cases hvalues
  | between => rw [placementValues] at hvalues; cases hvalues
  | null => rw [placementValues] at hvalues; cases hvalues

/-- What the walker leaves for the placement column are placement values of the plan. -/
theorem CompilesTo.textsIn [JsNumber ν] {chunks : Sql ν} {p : ChardbPlanPredicate ν}
    {column : String} (h : CompilesTo t chunks p) :
    ∀ texts, placementValues column p = some texts →
      TextsIn (predicateInfo (walk t.name column chunks)).values texts := by
  refine CompilesTo.ind (motive := fun chunks p => ∀ texts, placementValues column p = some texts →
    TextsIn (predicateInfo (walk t.name column chunks)).values texts) ?_ ?_ ?_ h
  · intro chunks only p hs ih texts htexts
    rw [walk_only hs]
    exact ih texts htexts
  · intro chunks kind children ps hs hmatch hlength ih texts htexts
    rw [walk_node hs hmatch]
    rw [placementValues, placementValuesAll_eq_map] at htexts
    have hpredicate : ∀ q ∈ ps, ∃ c ∈ children, ∀ texts, placementValues column q = some texts →
        TextsIn (predicateInfo (walk t.name column c)).values texts := fun q hq =>
      exists_right_of_forall₂ ih.flip hq
    cases kind with
    | or =>
      have hne : (children.map (walk t.name column)) ≠ [] := by
        simpa using List.ne_nil_of_length_pos (by omega)
      have hchild : ∀ c ∈ children, ∃ child, some child ∈ ps.map (placementValues column) ∧
          TextsIn (predicateInfo (walk t.name column c)).values child := by
        intro c hc
        obtain ⟨q, hq, hmotive⟩ := exists_right_of_forall₂ ih hc
        obtain ⟨child, hvalue⟩ := Option.ne_none_iff_exists'.mp
          fun hnone => (placement_or.mp htexts).1 (List.mem_map.mpr ⟨q, hq, hnone⟩)
        exact ⟨child, List.mem_map.mpr ⟨q, hq, hvalue⟩, hmotive child hvalue⟩
      rw [predicateInfo, combineOr, predicateInfoAll_eq_map, if_neg (by simpa using hne), List.map_map]
      obtain ⟨out, hout, hmem⟩ := orStep_values
        (children.map (predicateInfo ∘ walk t.name column)) ⟨some [], .within []⟩ rfl (by
          intro i hi
          obtain ⟨c, hc, rfl⟩ := List.mem_map.mp hi
          obtain ⟨child, -, vs, hvs, -⟩ := hchild c hc
          exact ⟨vs, hvs⟩)
      refine ⟨out, hout, fun v hv => ?_⟩
      obtain ⟨i, hi, vs, hvs, hv⟩ := (hmem v hv).resolve_left (by simp)
      obtain ⟨c, hc, rfl⟩ := List.mem_map.mp hi
      obtain ⟨child, hchild, vs', hvs', htext⟩ := hchild c hc
      obtain rfl := Option.some.inj (hvs.symm.trans hvs')
      obtain ⟨s, hs, rfl⟩ := htext v hv
      exact ⟨s, (mem_placement_or htexts).mpr ⟨child, hchild, hs⟩, rfl⟩
    | and =>
      have hconstrained : ∀ child, some child ∈ ps.map (placementValues column) →
          ∃ c ∈ children, TextsIn (predicateInfo (walk t.name column c)).values child := by
        intro child hchild
        obtain ⟨q, hq, hvalue⟩ := List.mem_map.mp hchild
        obtain ⟨c, hc, hmotive⟩ := hpredicate q hq
        exact ⟨c, hc, hmotive child hvalue⟩
      obtain ⟨first, hfirst⟩ := List.exists_mem_of_ne_nil _ (placement_and.mp htexts).1
      obtain ⟨_, hfirst, rfl⟩ := List.mem_filterMap.mp hfirst
      rw [predicateInfo, combineAnd, predicateInfoAll_eq_map, List.map_map]
      obtain ⟨c₀, hc₀, vs₀, hvs₀, htext₀⟩ := hconstrained first hfirst
      obtain ⟨out, hout, hmem⟩ := andStep_values
        (children.map (predicateInfo ∘ walk t.name column)) FULL_INFO
        (.inr ⟨_, List.mem_map.mpr ⟨c₀, hc₀, rfl⟩, by
          rw [Function.comp_apply, hvs₀]
          exact Option.some_ne_none _⟩)
      refine ⟨out, hout, fun v hv => ?_⟩
      obtain ⟨-, hall⟩ := hmem v hv
      obtain ⟨s, hs, rfl⟩ := htext₀ v (hall _ (List.mem_map.mpr ⟨c₀, hc₀, rfl⟩) vs₀ hvs₀)
      refine ⟨s, (mem_placement_and htexts).mpr fun child hchild => ?_, rfl⟩
      obtain ⟨c, hc, vs, hvs, htext⟩ := hconstrained child hchild
      obtain ⟨s', hs', heq⟩ := htext _ (hall _ (List.mem_map.mpr ⟨c, hc, rfl⟩) vs hvs)
      rwa [ParamValue.text.inj heq]
  · intro chunks p hs hmatch hleaf texts htexts
    rw [walk_leaf hs hmatch]
    exact hleaf.textsIn htexts

end

end Chardb.Plan
