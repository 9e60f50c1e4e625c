import Chardb.Lib.Tx
import Chardb.Policy.ColumnMask

/-!
# The policy wrapper

The wrapper hands handlers a database whose statements carry the policies: a select
keeps the rows the policies let through and masks them, a write first fills the columns
that the caller's authority fixes, and updates and deletes touch only the rows that the
policies select. Each `where` of a chain replaces the one before and carries the
policies itself.
-/

namespace Chardb.Policy

open Chardb.Lib

/-! ## Placement -/

inductive PlacementAuthority
  | organization
  | user
  | global
  deriving DecidableEq

def PlacementAuthority.text : PlacementAuthority → String
  | .organization => "organization"
  | .user => "user"
  | .global => "global"

def PlacementAuthority.tenantKind : PlacementAuthority → TenantKind
  | .organization => .org
  | .user => .user
  | .global => .none

def TenantKind.text : TenantKind → String
  | .org => "org"
  | .user => "user"
  | .none => "none"

/-- Where a request was routed. -/
structure CdbDbPlacement where
  authority : PlacementAuthority
  partitionKey : String

structure GlobalTablePlacement where
  jsColumn : String
  sqlColumn : String
  partitionKey : String

def forbidden (message : String) : Thrown := .cdb { code := .forbidden, message }

/-- The key of the column with an SQL name. -/
def sqlToJs (t : CdbTableMeta) (sqlName : String) : Option String :=
  (t.columns.find? fun c => c.sqlName = sqlName).map TableColumn.jsKey

def placementForbidden (t : CdbTableMeta) (placement : CdbDbPlacement) : Thrown :=
  forbidden (placement.authority.text ++ " placement cannot access " ++ t.tenantKind.text ++
    " table " ++ t.name)

def globalPlacementOf (t : CdbTableMeta) (partitionKey : String) :
    Except Thrown (Option GlobalTablePlacement) :=
  match t.partitionBy with
  | .colocate [sqlColumn] =>
    match sqlToJs t sqlColumn with
    | some jsColumn => .ok (some ⟨jsColumn, sqlColumn, partitionKey⟩)
    | none =>
      .error (invariantError (t.name ++
        ": global placement partition column is missing from the table"))
  | _ =>
    .error (.cdb
      { code := .unsupportedFeature
        message := t.name ++ ": global placement requires one colocated partition column" })

/-- `resolveTablePlacement`. -/
def resolveTablePlacement (t : CdbTableMeta) :
    Option CdbDbPlacement → Except Thrown (Option GlobalTablePlacement)
  | none => .ok none
  | some placement =>
    if t.tenantKind ≠ placement.authority.tenantKind then .error (placementForbidden t placement)
    else if placement.authority ≠ .global then .ok none
    else globalPlacementOf t placement.partitionKey

/-! ## Plans -/

inductive WriteOperation
  | insert
  | update
  | delete
  deriving DecidableEq

def WriteOperation.text : WriteOperation → String
  | .insert => "insert"
  | .update => "update"
  | .delete => "delete"

def WriteOperation.policyOp : WriteOperation → PolicyOp
  | .insert => .insert
  | .update => .update
  | .delete => .delete

inductive Authority
  | tenant
  | self
  deriving DecidableEq

def Authority.text : Authority → String
  | .tenant => "tenant"
  | .self => "self"

/-- A column that the caller's authority fixes. -/
structure Binding where
  jsKey : String
  value : String
  authority : Authority

structure AutoFillPlan where
  table : CdbTableMeta
  auth : AuthCtx
  policies : List PolicyDefinition
  globalPlacement : Option GlobalTablePlacement
  bindings : List Binding

def missingAuthority (authority : Authority) (operation : WriteOperation) : Thrown :=
  forbidden (authority.text ++ " authority is required for this " ++ operation.text)

/-- The binding of a column to a value of the caller. -/
def bindColumn (t : CdbTableMeta) (operation : WriteOperation) (authority : Authority)
    (column value : Option String) : Except Thrown (List Binding) :=
  if truthy value then
    .ok (((column.bind (sqlToJs t)).map fun jsKey => ⟨jsKey, value.getD "", authority⟩).toList)
  else .error (missingAuthority authority operation)

def selfBinding (t : CdbTableMeta) (auth : AuthCtx) (operation : WriteOperation) :
    Except Thrown (List Binding) :=
  if t.selfBy.isSome then bindColumn t operation .self t.selfBy auth.userId else .ok []

def tenantBinding (t : CdbTableMeta) (auth : AuthCtx) (operation : WriteOperation) :
    Except Thrown (List Binding) :=
  if t.tenantKind = .none then .ok []
  else bindColumn t operation .tenant t.tenantBy (tenantValueFromAuth t auth)

/-- `buildPlan`. -/
def buildPlan (t : CdbTableMeta) (auth : AuthCtx) (operation : WriteOperation)
    (globalPlacement : Option GlobalTablePlacement) : Except Thrown AutoFillPlan := do
  let self ← selfBinding t auth operation
  let tenant ← tenantBinding t auth operation
  pure ⟨t, auth, compileCdbPolicies t, globalPlacement, self ++ tenant⟩

/-! ## Inserts -/

/-- `toSqlColumnNames`. -/
def toSqlColumnNames (t : CdbTableMeta) (values : WriteValues) : WriteValues :=
  values.map fun v => (toSql t.columns v.1, v.2)

/-- The values as a row for policies; what is no plain value equals no text. -/
def policyRow (values : WriteValues) : Row := fun col =>
  match values.reverse.find? fun v => v.1 = col with
  | some (_, .cell c) => c
  | _ => .other "undefined"

def conflictingAuthority (b : Binding) : Thrown :=
  forbidden ("explicit " ++ b.authority.text ++ " column \"" ++ b.jsKey ++
    "\" conflicts with verified auth")

/-- The value that an object has under a key. -/
def assigned? (values : WriteValues) (key : String) : Option WriteValue :=
  match values.find? fun v => v.1 = key with
  | some (_, .undefined) => none
  | some (_, value) => some value
  | none => none

/-- `next[key] = value`. -/
def assign (values : WriteValues) (key : String) (value : WriteValue) : WriteValues :=
  if key ∈ values.map Prod.fst then values.map fun v => if v.1 = key then (key, value) else v
  else values ++ [(key, value)]

/-- Fill one column, or check the value that is there. -/
def fillBinding (row : WriteValues) (b : Binding) : Except Thrown WriteValues :=
  match assigned? row b.jsKey with
  | some (.cell c) => if c = .text b.value then .ok row else .error (conflictingAuthority b)
  | some _ => .error (conflictingAuthority b)
  | none => .ok (assign row b.jsKey (.cell (.text b.value)))

def assertGlobalInsertPlacement (plan : AutoFillPlan) (row : WriteValues) : Except Thrown Unit :=
  match plan.globalPlacement with
  | none => .ok ()
  | some g =>
    match assigned? row g.jsColumn with
    | some (.cell c) =>
      if c = .text g.partitionKey then .ok ()
      else .error (forbidden (plan.table.name ++ ": insert must carry routed partition " ++ g.jsColumn))
    | _ => .error (forbidden (plan.table.name ++ ": insert must carry routed partition " ++ g.jsColumn))

/-- `rethrowForbiddenColumn`. -/
def rethrowForbiddenColumn : Thrown → Thrown
  | .cdb err => if err.code = .forbiddenColumn then .cdb { err with code := .forbidden } else .cdb err
  | e => e

/-- The columns that an insert need not have a grant for. -/
def autoFilledColumns (plan : AutoFillPlan) : List String :=
  plan.bindings.map (fun b => toSql plan.table.columns b.jsKey) ++
    plan.globalPlacement.toList.map GlobalTablePlacement.sqlColumn

def assertCreateAuthorized (plan : AutoFillPlan) (row : WriteValues) : Except Thrown Unit :=
  let values := toSqlColumnNames plan.table row
  if applyRowPolicies .insert plan.auth plan.policies (policyRow values) then
    match assertColumnsWritable plan.table plan.auth .create (autoFilledColumns plan) values with
    | .error e => .error (rethrowForbiddenColumn e)
    | .ok _ => .ok ()
  else .error (forbidden (plan.table.name ++ ": caller has no applicable create grant"))

/-- `applyPlan`. -/
def applyPlan (plan : AutoFillPlan) (row : WriteValues) : Except Thrown WriteValues := do
  let filled ← plan.bindings.foldlM fillBinding row
  assertGlobalInsertPlacement plan filled
  assertCreateAuthorized plan filled
  pure filled

/-- The SQL columns that a write of these values assigns. -/
def writtenColumns (t : CdbTableMeta) (values : WriteValues) : List String :=
  (t.columns.filter fun c => (assigned? values c.jsKey).isSome).map TableColumn.sqlName

/-- The row after the write; `row` says what the other columns hold. -/
def writeRow (t : CdbTableMeta) (values : WriteValues) (row : Row) : Row := fun col =>
  match (sqlToJs t col).bind (assigned? values) with
  | some (.cell c) => (t.typeOf col).store c
  | some (.sql e) => e row
  | _ => row col

/-- `insert(table).values(values)`: the values as they are stored. -/
def insertValues (t : CdbTableMeta) (auth : AuthCtx) (placement : Option CdbDbPlacement)
    (values : WriteValues) : Except Thrown (AutoFillPlan × WriteValues) := do
  let globalPlacement ← resolveTablePlacement t placement
  let plan ← buildPlan t auth .insert globalPlacement
  let filled ← applyPlan plan values
  pure (plan, filled)

/-! ## Selects, updates and deletes -/

def globalPlacementPredicate (t : CdbTableMeta) (globalPlacement : Option GlobalTablePlacement) :
    Option SqlText :=
  globalPlacement.map fun g => eqColumn (t.typeOf g.sqlColumn) g.sqlColumn g.partitionKey

/-- The user's condition, with the placement's beside it. -/
def scopedUserWhere (t : CdbTableMeta) (globalPlacement : Option GlobalTablePlacement)
    (userWhere : Option SqlText) : Option SqlText :=
  match globalPlacementPredicate t globalPlacement, userWhere with
  | some placementWhere, some userWhere => sqlAnd [userWhere, placementWhere]
  | some placementWhere, none => some placementWhere
  | none, userWhere => userWhere

/-- `applyScopedPoliciesToWhere`. -/
def applyScopedPoliciesToWhere (t : CdbTableMeta) (auth : AuthCtx) (policies : List PolicyDefinition)
    (globalPlacement : Option GlobalTablePlacement) (op : PolicyOp) (userWhere : Option SqlText) :
    Option SqlText :=
  applyPoliciesToWhere op auth (scopedUserWhere t globalPlacement userWhere) policies

/-- The condition of a select. -/
def selectWhere (t : CdbTableMeta) (auth : AuthCtx) (placement : Option CdbDbPlacement)
    (userWhere : Option SqlText) : Except Thrown (Option SqlText) := do
  let globalPlacement ← resolveTablePlacement t placement
  pure (applyScopedPoliciesToWhere t auth (compileCdbPolicies t) globalPlacement .select userWhere)

/-- The row of the authority alone must be one that the operation is granted on. -/
def authorityRow (plan : AutoFillPlan) : Row :=
  policyRow (plan.bindings.map fun b => (toSql plan.table.columns b.jsKey, .cell (.text b.value)))

/-- `buildWritePlan`. -/
def buildWritePlan (t : CdbTableMeta) (auth : AuthCtx) (operation : WriteOperation)
    (globalPlacement : Option GlobalTablePlacement) : Except Thrown AutoFillPlan := do
  let plan ← buildPlan t auth operation globalPlacement
  if applyRowPolicies operation.policyOp auth plan.policies (authorityRow plan) then pure plan
  else .error (forbidden (t.name ++ ": caller has no applicable " ++ operation.text ++ " grant"))

def managedColumn (b : Binding) : Thrown :=
  forbidden ("cannot update managed " ++ b.authority.text ++ " column \"" ++ b.jsKey ++ "\"")

/-- The columns of an update, with the owner that the wrapper vouches for. -/
def valuesForCls (t : CdbTableMeta) (auth : AuthCtx) (values : WriteValues) : WriteValues :=
  match t.selfBy with
  | some selfBy =>
    values ++ [(selfBy, match auth.userId with
      | some userId => .cell (.text userId)
      | none => .undefined)]
  | none => values

/-- `assertUpdateAuthorized`. -/
def assertUpdateAuthorized (plan : AutoFillPlan) (values : WriteValues) :
    Except Thrown AutoFillPlan :=
  let policyValues := toSqlColumnNames plan.table values
  match plan.bindings.find? fun b => b.jsKey ∈ values.map Prod.fst with
  | some b => .error (managedColumn b)
  | none =>
    match plan.globalPlacement.filter fun g => g.jsColumn ∈ values.map Prod.fst with
    | some g => .error (forbidden ("cannot update routed partition column \"" ++ g.jsColumn ++ "\""))
    | none =>
      match assertColumnsWritable plan.table plan.auth .update []
          (valuesForCls plan.table plan.auth policyValues) with
      | .error e => .error (rethrowForbiddenColumn e)
      | .ok _ =>
        .ok
          { plan with
            policies := policiesForColumnUpdate plan.table plan.auth (policyValues.map Prod.fst)
              plan.policies }

/-- The condition of the rows that a plan writes. -/
def AutoFillPlan.scopedWhere (plan : AutoFillPlan) (op : PolicyOp) (userWhere : Option SqlText) :
    Option SqlText :=
  applyScopedPoliciesToWhere plan.table plan.auth plan.policies plan.globalPlacement op userWhere

/-- `update(table).set(values)`. -/
def updatePlan (t : CdbTableMeta) (auth : AuthCtx) (placement : Option CdbDbPlacement)
    (values : WriteValues) : Except Thrown AutoFillPlan := do
  let globalPlacement ← resolveTablePlacement t placement
  let plan ← buildWritePlan t auth .update globalPlacement
  assertUpdateAuthorized plan values

/-- `delete(table)`. -/
def deletePlan (t : CdbTableMeta) (auth : AuthCtx) (placement : Option CdbDbPlacement) :
    Except Thrown AutoFillPlan := do
  let globalPlacement ← resolveTablePlacement t placement
  buildWritePlan t auth .delete globalPlacement

/-! ## Scoped conditions -/

theorem scopedUserWhere_closed (t : CdbTableMeta) (globalPlacement : Option GlobalTablePlacement)
    {userWhere : Option SqlText} (h : ∀ c ∈ userWhere, Closed c) :
    ∀ c ∈ scopedUserWhere t globalPlacement userWhere, Closed c := by
  intro c hc
  cases globalPlacement with
  | none => exact h c hc
  | some g =>
    cases userWhere with
    | none => exact Option.some.inj hc ▸ rfl
    | some userWhere => exact Option.some.inj hc ▸ rfl

theorem find?_key {α : Type} {f : α → String} {l : List α} (h : (l.map f).Nodup) {a : α}
    (ha : a ∈ l) : (l.find? fun b => f b = f a) = some a := by
  induction l with
  | nil => cases ha
  | cons b l ih =>
    obtain ⟨hb, hl⟩ := List.nodup_cons.mp h
    rcases List.mem_cons.mp ha with rfl | ha
    · simp
    · have hne : f b ≠ f a := fun he => hb (he ▸ List.mem_map_of_mem ha)
      rw [List.find?_cons_of_neg (by simpa using hne)]
      exact ih hl ha

theorem sqlToJs_sqlName {t : CdbTableMeta} {c : TableColumn} (hc : c ∈ t.columns) :
    sqlToJs t c.sqlName = some c.jsKey := by
  rw [sqlToJs, find?_key t.sqlNames_nodup hc]
  rfl

theorem toSql_jsKey {t : CdbTableMeta} {c : TableColumn} (hc : c ∈ t.columns) :
    toSql t.columns c.jsKey = c.sqlName := by
  rw [toSql, find?_key t.jsKeys_nodup hc]
  rfl

/-- A column that is written has its key among the values. -/
theorem mem_writtenColumns {t : CdbTableMeta} {values : WriteValues} {col : String} :
    col ∈ writtenColumns t values ↔
      ∃ c ∈ t.columns, (assigned? values c.jsKey).isSome ∧ c.sqlName = col := by
  simp [writtenColumns, and_assoc]

theorem key_of_assigned {values : WriteValues} {key : String}
    (h : (assigned? values key).isSome) : key ∈ values.map Prod.fst := by
  unfold assigned? at h
  cases hfind : values.find? fun v => v.1 = key with
  | none => simp [hfind] at h
  | some v =>
    have hkey : v.1 = key := by simpa using List.find?_some hfind
    exact hkey ▸ List.mem_map_of_mem (List.mem_of_find?_eq_some hfind)

theorem writtenColumns_subset {t : CdbTableMeta} {values : WriteValues} {col : String}
    (h : col ∈ writtenColumns t values) :
    col ∈ (toSqlColumnNames t values).map Prod.fst ∧ col ∈ t.allColumns := by
  obtain ⟨c, hc, hassigned, rfl⟩ := mem_writtenColumns.mp h
  obtain ⟨v, hv, hkey⟩ := List.mem_map.mp (key_of_assigned hassigned)
  refine ⟨?_, List.mem_map_of_mem hc⟩
  rw [toSqlColumnNames, List.map_map]
  refine List.mem_map.mpr ⟨v, hv, ?_⟩
  show toSql t.columns v.1 = c.sqlName
  rw [hkey, toSql_jsKey hc]

/-! ## What plans say -/

theorem bindColumn_ok {t : CdbTableMeta} {operation : WriteOperation} {authority : Authority}
    {column value : Option String} {bindings : List Binding}
    (h : bindColumn t operation authority column value = .ok bindings) :
    truthy value = true ∧ ∀ c ∈ t.columns, column = some c.sqlName →
      ∃ b ∈ bindings, b.jsKey = c.jsKey ∧ value = some b.value := by
  unfold bindColumn at h
  split at h
  · rename_i hvalue
    obtain rfl := Except.ok.inj h
    refine ⟨hvalue, fun c hc hcolumn => ?_⟩
    cases value with
    | none => cases hvalue
    | some v => exact ⟨⟨c.jsKey, v, authority⟩, by simp [hcolumn, sqlToJs_sqlName hc], rfl, rfl⟩
  · cases h

/-- The plan of a write: whose it is, and the columns that its authority fixes. -/
structure PlanOf (t : CdbTableMeta) (auth : AuthCtx) (globalPlacement : Option GlobalTablePlacement)
    (plan : AutoFillPlan) : Prop where
  table_eq : plan.table = t
  auth_eq : plan.auth = auth
  policies_eq : plan.policies = compileCdbPolicies t
  globalPlacement_eq : plan.globalPlacement = globalPlacement
  self : ∀ c ∈ t.columns, t.selfBy = some c.sqlName →
    ∃ b ∈ plan.bindings, b.jsKey = c.jsKey ∧ auth.userId = some b.value
  tenant : ∀ c ∈ t.columns, t.tenantKind ≠ .none → t.tenantBy = some c.sqlName →
    ∃ b ∈ plan.bindings, b.jsKey = c.jsKey ∧ tenantValueFromAuth t auth = some b.value

theorem buildPlan_ok {t : CdbTableMeta} {auth : AuthCtx} {operation : WriteOperation}
    {globalPlacement : Option GlobalTablePlacement} {plan : AutoFillPlan}
    (h : buildPlan t auth operation globalPlacement = .ok plan) :
    PlanOf t auth globalPlacement plan := by
  obtain ⟨self, hself, h⟩ := bind_ok h
  obtain ⟨tenant, htenant, h⟩ := bind_ok h
  obtain rfl := Except.ok.inj h
  refine ⟨rfl, rfl, rfl, rfl, fun c hc hselfBy => ?_, fun c hc hkind htenantBy => ?_⟩
  · rw [selfBinding, if_pos (by rw [hselfBy]; rfl)] at hself
    obtain ⟨b, hb, hjs, hvalue⟩ := (bindColumn_ok hself).2 c hc hselfBy
    exact ⟨b, List.mem_append_left _ hb, hjs, hvalue⟩
  · rw [tenantBinding, if_neg hkind] at htenant
    obtain ⟨b, hb, hjs, hvalue⟩ := (bindColumn_ok htenant).2 c hc htenantBy
    exact ⟨b, List.mem_append_right _ hb, hjs, hvalue⟩

theorem buildWritePlan_ok {t : CdbTableMeta} {auth : AuthCtx} {operation : WriteOperation}
    {globalPlacement : Option GlobalTablePlacement} {plan : AutoFillPlan}
    (h : buildWritePlan t auth operation globalPlacement = .ok plan) :
    PlanOf t auth globalPlacement plan := by
  obtain ⟨built, hbuilt, h⟩ := bind_ok h
  split at h
  · obtain rfl := Except.ok.inj h
    exact buildPlan_ok hbuilt
  · cases h

theorem assertColumnsWritable_ok {t : CdbTableMeta} {auth : AuthCtx} {verb : ColVerb}
    {autoFilled : List String} {values : WriteValues}
    (h : assertColumnsWritable t auth verb autoFilled values = .ok ()) :
    ∀ col ∈ values.map Prod.fst, writableColumn t auth verb autoFilled values col = true := by
  unfold assertColumnsWritable at h
  split at h
  · cases h
  · rename_i hfind
    intro col hcol
    obtain ⟨v, hv, rfl⟩ := List.mem_map.mp hcol
    simpa using List.find?_eq_none.mp hfind v hv

theorem assertCreateAuthorized_ok {plan : AutoFillPlan} {row : WriteValues}
    (h : assertCreateAuthorized plan row = .ok ()) :
    ∀ col ∈ (toSqlColumnNames plan.table row).map Prod.fst,
      writableColumn plan.table plan.auth .create (autoFilledColumns plan)
        (toSqlColumnNames plan.table row) col = true := by
  unfold assertCreateAuthorized at h
  simp only at h
  split at h
  · split at h
    · cases h
    · rename_i u hwritable
      exact assertColumnsWritable_ok hwritable
  · cases h

/-- An update goes through with no managed column, every column writable, and the policies that
its columns leave. -/
theorem assertUpdateAuthorized_ok {plan plan' : AutoFillPlan} {values : WriteValues}
    (h : assertUpdateAuthorized plan values = .ok plan') :
    (∀ b ∈ plan.bindings, b.jsKey ∉ values.map Prod.fst) ∧
    (∀ g ∈ plan.globalPlacement, g.jsColumn ∉ values.map Prod.fst) ∧
    (∀ col ∈ (toSqlColumnNames plan.table values).map Prod.fst,
      writableColumn plan.table plan.auth .update []
        (valuesForCls plan.table plan.auth (toSqlColumnNames plan.table values)) col = true) ∧
    plan' =
      { plan with
        policies := policiesForColumnUpdate plan.table plan.auth
          ((toSqlColumnNames plan.table values).map Prod.fst) plan.policies } := by
  unfold assertUpdateAuthorized at h
  simp only at h
  split at h
  · cases h
  rename_i hbindings
  split at h
  · cases h
  rename_i hplacement
  split at h
  · cases h
  rename_i u hwritable
  refine ⟨fun b hb hkey => ?_, fun g hg hkey => ?_, fun col hcol => ?_, (Except.ok.inj h).symm⟩
  · have hne := List.find?_eq_none.mp hbindings b hb
    exact hne (decide_eq_true hkey)
  · rw [hg, Option.filter_some] at hplacement
    simp [hkey] at hplacement
  · refine assertColumnsWritable_ok hwritable col ?_
    unfold valuesForCls
    split
    · rw [List.map_append]; exact List.mem_append_left _ hcol
    · exact hcol

end Chardb.Policy
