import Chardb.Core.Canonical
import Chardb.Lib.ExceptList
import Chardb.Plan.SelectPlan
import Chardb.Policy.DbProxy

/-!
# Placement of select plans

`resolveSelectPlan` binds a plan to a packaged table and takes from its predicate the one
partition that can hold matching rows.
-/

namespace Chardb.Plan

open Chardb.Lib
open Chardb.Policy (CdbTableMeta PlacementAuthority)

variable {ν : Type}

def CDB_BINDING_PLAN_SERVER_MAX_LIMIT : Int := 100

/-- `SelectPlanProfile`. -/
structure SelectPlanProfile where
  maxLimit : Int

def BINDING_SELECT_PLAN_PROFILE : SelectPlanProfile := ⟨CDB_BINDING_PLAN_SERVER_MAX_LIMIT⟩

/-- What a plan reads of a column of a Drizzle table. -/
structure RuntimePlanColumn where
  columnType : String
  dataType : String
  name : String
  isFile : Bool
  deriving DecidableEq

/-- A registered table: its metadata, which may fail to resolve, and its columns. -/
structure SchemaTable where
  resolveCdbMeta : Except Thrown CdbTableMeta
  columns : List RuntimePlanColumn

/-- `invalid` and `unsupported` of `binding-plan-server.ts`. -/
def invalidSelect (message : String) : Thrown := invalidArgs ("DB select plan: " ++ message)

def unsupportedSelect (message : String) : Thrown :=
  .cdb { code := .unsupportedFeature, message := "DB select plan: " ++ message }

def crossPartition (message : String) : Thrown := .cdb { code := .crossPartition, message }

/-- Where the rows of a table are placed: the authority and the column. -/
structure TablePlacement where
  authority : PlacementAuthority
  column : String
  deriving DecidableEq

def placementForTable (t : CdbTableMeta) : Except Thrown TablePlacement :=
  match t.tenantKind with
  | .org =>
    match t.tenantBy with
    | some column => .ok ⟨.organization, column⟩
    | none => .error (invalidSelect (t.name ++ " has no organization placement column"))
  | .user =>
    match t.tenantBy with
    | some column => .ok ⟨.user, column⟩
    | none => .error (invalidSelect (t.name ++ " has no user placement column"))
  | .none =>
    match t.partitionBy with
    | .colocate [column] =>
      if column = "" then
        .error (unsupportedSelect (t.name ++ " requires one colocated global partition column"))
      else .ok ⟨.global, column⟩
    | _ => .error (unsupportedSelect (t.name ++ " requires one colocated global partition column"))

mutual
/-- The columns of a predicate, in the order in which it names them. -/
def predicateColumns : ChardbPlanPredicate ν → List String
  | .compare _ column _ => [column]
  | .inList column _ => [column]
  | .between column _ _ => [column]
  | .null _ column => [column]
  | .node _ predicates => predicateColumnsAll predicates

def predicateColumnsAll : List (ChardbPlanPredicate ν) → List String
  | [] => []
  | p :: ps => predicateColumns p ++ predicateColumnsAll ps
end

def columnNamed (columns : List RuntimePlanColumn) (name : String) : Option RuntimePlanColumn :=
  columns.find? fun c => c.name = name

/-- The full row can be sent as JSON. -/
def RuntimePlanColumn.isJson (c : RuntimePlanColumn) : Bool :=
  c.isFile || c.dataType = "string" || c.dataType = "number" || c.dataType = "boolean" ||
    (c.dataType = "json" && (c.columnType = "SQLiteTextJson" || c.columnType = "SQLiteBlobJson"))

def assertFullRowJsonColumns (columns : List RuntimePlanColumn) : Except Thrown Unit :=
  match columns.find? fun c => !c.isJson with
  | none => .ok ()
  | some c => .error (unsupportedSelect ("full-row output cannot encode " ++
      (if c.columnType = "" then c.dataType else c.columnType) ++ " column " ++ c.name ++ " as JSON"))

/-- The data type that has the scalar. -/
def ChardbPlanScalar.dataType : ChardbPlanScalar ν → String
  | .text _ => "string"
  | .number _ => "number"
  | .bool _ => "boolean"

def assertPredicateScalar (column : RuntimePlanColumn) (value : ChardbPlanScalar ν)
    (subject : String) : Except Thrown Unit :=
  if column.dataType = value.dataType then .ok ()
  else if column.dataType ∈ ["string", "number", "boolean"] then
    .error (invalidSelect (subject ++ " must be a " ++ column.dataType))
  else .error (invalidSelect
    (subject ++ " targets unsupported " ++ column.dataType ++ " column " ++ column.name))

/-- The column of a leaf, or an error. -/
def selectedColumn (columns : List RuntimePlanColumn) (name : String) :
    Except Thrown RuntimePlanColumn :=
  match columnNamed columns name with
  | some c => .ok c
  | none => .error (invalidSelect ("unknown column " ++ name))

mutual
def validatePredicateScalarTypes (columns : List RuntimePlanColumn) :
    ChardbPlanPredicate ν → Except Thrown Unit
  | .compare _ column value => do
    let selected ← selectedColumn columns column
    assertPredicateScalar selected value (column ++ " compare value")
  | .inList column values => do
    let selected ← selectedColumn columns column
    values.zipIdx.forM fun entry =>
      assertPredicateScalar selected entry.1 (column ++ " in value " ++ toString entry.2)
  | .between column lower upper => do
    let selected ← selectedColumn columns column
    assertPredicateScalar selected lower (column ++ " between lower value")
    assertPredicateScalar selected upper (column ++ " between upper value")
  | .null _ column => do
    let _ ← selectedColumn columns column
  | .node _ predicates => validateAllScalarTypes columns predicates

def validateAllScalarTypes (columns : List RuntimePlanColumn) :
    List (ChardbPlanPredicate ν) → Except Thrown Unit
  | [] => .ok ()
  | p :: ps => do
    validatePredicateScalarTypes columns p
    validateAllScalarTypes columns ps
end

/-- `ResolvedSelectPlan`. -/
structure ResolvedSelectPlan (ν : Type) where
  plan : ChardbSelectPlan ν
  table : SchemaTable
  authority : PlacementAuthority
  partitionKey : String

/-- The tables of the plan's name, with their metadata. -/
def matchingTables (schema : List SchemaTable) (name : String) :
    Except Thrown (List (SchemaTable × CdbTableMeta)) := do
  let resolved ← schema.mapM fun table => table.resolveCdbMeta.map fun t => (table, t)
  pure (resolved.filter fun entry => entry.2.name = name)

def assertLimit (profile : SelectPlanProfile) (limit : Option Int) : Except Thrown Unit :=
  if ¬ (IsSafeInteger profile.maxLimit ∧ 1 ≤ profile.maxLimit) then
    .error (invariantError "select plan profile has an invalid maximum limit")
  else if limit.any fun n => profile.maxLimit < n then
    .error (invalidSelect ("limit exceeds the server maximum of " ++ toString profile.maxLimit))
  else .ok ()

def assertKnownColumns (plan : ChardbSelectPlan ν) (columns : List RuntimePlanColumn) :
    Except Thrown Unit :=
  let referenced := (plan.orderBy.getD []).map OrderItem.column ++
    (plan.where.map predicateColumns).getD []
  match sortStrings (referenced.dedup.filter fun name => (columnNamed columns name).isNone) with
  | name :: _ => .error (invalidSelect ("unknown column " ++ name))
  | [] => .ok ()

/-- The one string that the predicate leaves for the placement column. -/
def exactPlacement (p : ChardbPlanPredicate ν) (column : String) : Except Thrown String :=
  match placementValues column p with
  | some [partitionKey] =>
    if partitionKey = "" then .error (invalidSelect "placement must be a nonempty string")
    else .ok partitionKey
  | _ => .error (crossPartition "DB select plan must imply one exact string placement")

/-- The scalars of a predicate that is there fit their columns. -/
def validateWhere (columns : List RuntimePlanColumn) (predicate : Option (ChardbPlanPredicate ν)) :
    Except Thrown Unit :=
  match predicate with
  | some p => validatePredicateScalarTypes columns p
  | none => .ok ()

/-- The one table of the name. -/
def oneTable (entries : List (SchemaTable × CdbTableMeta)) (name : String) :
    Except Thrown (SchemaTable × CdbTableMeta) :=
  match entries with
  | [] => .error (invalidSelect ("unknown table " ++ name))
  | [entry] => .ok entry
  | _ => .error (invalidSelect ("table " ++ name ++ " is ambiguous"))

/-- Bind a plan that is valid to its table. -/
def bindPlan (plan : ChardbSelectPlan ν) (entry : SchemaTable × CdbTableMeta) :
    Except Thrown (ResolvedSelectPlan ν) := do
  assertKnownColumns plan entry.1.columns
  validateWhere entry.1.columns plan.where
  assertFullRowJsonColumns entry.1.columns
  let placement ← placementForTable entry.2
  match plan.where with
  | none => throw (crossPartition "DB select plan has no exact placement predicate")
  | some p => do
    let partitionKey ← exactPlacement p placement.column
    pure ⟨plan, entry.1, placement.authority, partitionKey⟩

def resolveSelectPlan [JsNumber ν] (schema : List SchemaTable) (value : JsValue ν)
    (profile : SelectPlanProfile) : Except Thrown (ResolvedSelectPlan ν) := do
  let plan ← validateChardbSelectPlanV1 value
  assertLimit profile plan.limit
  let entries ← matchingTables schema plan.table
  let entry ← oneTable entries plan.table
  bindPlan plan entry

/-! ## Soundness -/

theorem exactPlacement_ok {p : ChardbPlanPredicate ν} {column partitionKey : String}
    (h : exactPlacement p column = .ok partitionKey) :
    placementValues column p = some [partitionKey] ∧ partitionKey ≠ "" := by
  unfold exactPlacement at h
  split at h
  · rename_i key hvalues
    split at h
    · cases h
    · rename_i hne
      obtain rfl := Except.ok.inj h
      exact ⟨hvalues, hne⟩
  · cases h

/-- A plan that is bound to a table has a predicate that leaves one placement. -/
theorem bindPlan_ok {plan : ChardbSelectPlan ν} {entry : SchemaTable × CdbTableMeta}
    {r : ResolvedSelectPlan ν} (h : bindPlan plan entry = .ok r) :
    r.plan = plan ∧ r.table = entry.1 ∧ ∃ p column, plan.where = some p ∧
      placementForTable entry.2 = .ok ⟨r.authority, column⟩ ∧
      placementValues column p = some [r.partitionKey] ∧ r.partitionKey ≠ "" := by
  unfold bindPlan at h
  obtain ⟨_, -, h⟩ := bind_ok h
  obtain ⟨_, -, h⟩ := bind_ok h
  obtain ⟨_, -, h⟩ := bind_ok h
  obtain ⟨placement, hplacement, h⟩ := bind_ok h
  cases hwhere : plan.where with
  | none => rw [hwhere] at h; cases h
  | some p =>
    rw [hwhere] at h
    obtain ⟨partitionKey, hkey, h⟩ := bind_ok h
    obtain rfl := Except.ok.inj h
    exact ⟨rfl, rfl, p, placement.column, rfl, hplacement, exactPlacement_ok hkey⟩

theorem mem_matchingTables {schema : List SchemaTable} {name : String}
    {entries : List (SchemaTable × CdbTableMeta)} (h : matchingTables schema name = .ok entries)
    {entry : SchemaTable × CdbTableMeta} (hentry : entry ∈ entries) :
    entry.1.resolveCdbMeta = .ok entry.2 ∧ entry.2.name = name := by
  obtain ⟨resolved, hresolved, h⟩ := bind_ok h
  obtain rfl := Except.ok.inj h
  obtain ⟨hmem, hname⟩ := List.mem_filter.mp hentry
  obtain ⟨table, -, htable⟩ := mem_of_mapM_ok hresolved hmem
  obtain ⟨t, ht, rfl⟩ := map_ok htable
  exact ⟨ht, of_decide_eq_true hname⟩

theorem oneTable_ok {entries : List (SchemaTable × CdbTableMeta)} {name : String}
    {entry : SchemaTable × CdbTableMeta} (h : oneTable entries name = .ok entry) :
    entry ∈ entries := by
  unfold oneTable at h
  split at h
  · cases h
  · obtain rfl := Except.ok.inj h
    exact List.mem_cons_self
  · cases h

/-- What an accepted value was resolved to. -/
theorem resolveSelectPlan_ok [JsNumber ν] {schema : List SchemaTable} {value : JsValue ν}
    {profile : SelectPlanProfile} {r : ResolvedSelectPlan ν}
    (h : resolveSelectPlan schema value profile = .ok r) :
    validateChardbSelectPlanV1 value = .ok r.plan ∧ ∃ t p column,
      r.table.resolveCdbMeta = .ok t ∧ t.name = r.plan.table ∧ r.plan.where = some p ∧
      placementForTable t = .ok ⟨r.authority, column⟩ ∧
      placementValues column p = some [r.partitionKey] ∧ r.partitionKey ≠ "" := by
  unfold resolveSelectPlan at h
  obtain ⟨plan, hplan, h⟩ := bind_ok h
  obtain ⟨_, -, h⟩ := bind_ok h
  obtain ⟨entries, hentries, h⟩ := bind_ok h
  obtain ⟨entry, hone, h⟩ := bind_ok h
  obtain ⟨hr, htable, p, column, hwhere, hplacement, hvalues, hne⟩ := bindPlan_ok h
  obtain ⟨ht, hname⟩ := mem_matchingTables hentries (oneTable_ok hone)
  rw [htable, hr]
  exact ⟨hplan, entry.2, p, column, ht, hname, hwhere, hplacement, hvalues, hne⟩

/-- Every row for which the predicate of a resolved plan is true lies at the resolved placement,
so that the plan is complete on the vshard of its partition key; and what the values of a predicate
are does not depend on the order of children. -/
theorem select_plan_placement_sound [JsNumber ν] [LinearOrder ν] {schema : List SchemaTable}
    {value : JsValue ν} {profile : SelectPlanProfile} {r : ResolvedSelectPlan ν}
    (h : resolveSelectPlan schema value profile = .ok r) :
    (∃ t p column, r.table.resolveCdbMeta = .ok t ∧ t.name = r.plan.table ∧
      r.plan.where = some p ∧ placementForTable t = .ok ⟨r.authority, column⟩ ∧
      (∀ row : PlanRow ν, p.eval row = some true → row column = some (.text r.partitionKey)) ∧
      ∀ (vshardOf : Option (StoredValue ν) → Nat) (shards : Nat → List (PlanRow ν)),
        (∀ n, ∀ row ∈ shards n, vshardOf (row column) = n) →
          ∀ n, ∀ row ∈ shards n, p.eval row = some true →
            n = vshardOf (some (.text r.partitionKey))) ∧
    ∀ (column : String) (p q : ChardbPlanPredicate ν), Reordered p q →
      SameValues (placementValues column p) (placementValues column q) := by
  obtain ⟨-, t, p, column, ht, hname, hwhere, hplacement, hvalues, -⟩ := resolveSelectPlan_ok h
  have hsound : ∀ row : PlanRow ν, p.eval row = some true →
      row column = some (.text r.partitionKey) := by
    intro row heval
    obtain ⟨s, hs, hcell⟩ := placementValues_sound hvalues heval
    rwa [List.mem_singleton.mp hs] at hcell
  refine ⟨⟨t, p, column, ht, hname, hwhere, hplacement, hsound, ?_⟩,
    fun column p q hpq => placementValues_reordered hpq⟩
  intro vshardOf shards hplaced n row hrow heval
  rw [← hplaced n row hrow, hsound row heval]

/-- A global table that is placed by `room`. -/
def seatsTable : CdbTableMeta where
  name := "seats"
  tenantKind := .none
  tenantBy := none
  selfBy := none
  partitionBy := .colocate ["room"]
  publicRead := true
  rawRoles := []
  columns := [⟨"room", "room"⟩, ⟨"seat", "seat"⟩]
  matrix := .empty _
  tenantBy_isSome h := absurd rfl h
  tenantBy_mem _ h := by cases h
  selfBy_mem _ h := by cases h
  selfBy_user _ := rfl
  sqlNames_nodup := by decide
  jsKeys_nodup := by decide

def seatsSchema : List SchemaTable :=
  [⟨.ok seatsTable, [⟨"SQLiteText", "string", "room", false⟩, ⟨"SQLiteInteger", "number", "seat", false⟩]⟩]

/-- Seats from 4 on in the room `r1`. -/
def seatsPlan : ChardbSelectPlan Int where
  table := "seats"
  «where» := some (.node .and [.compare .gte "seat" (.number 4),
    .node .or [.compare .eq "room" (.text "r1"), .inList "room" [.text "r1"]]])
  orderBy := none
  limit := some 10
  cardinality := .many

theorem select_plan_placement_sound_seats :
    ∃ r, resolveSelectPlan seatsSchema (.ofJson seatsPlan.toJson) BINDING_SELECT_PLAN_PROFILE = .ok r ∧
      ∃ p, r.plan.where = some p ∧
        ∀ row : PlanRow Int, p.eval row = some true → row "room" = some (.text "r1") := by
  have hkey : (resolveSelectPlan seatsSchema (.ofJson seatsPlan.toJson)
      BINDING_SELECT_PLAN_PROFILE).toOption.map ResolvedSelectPlan.partitionKey = some "r1" := by
    decide +kernel
  have hplace : (resolveSelectPlan seatsSchema (.ofJson seatsPlan.toJson)
      BINDING_SELECT_PLAN_PROFILE).toOption.map (fun r => (r.table.resolveCdbMeta.toOption.bind
        fun t => (placementForTable t).toOption).map TablePlacement.column) = some (some "room") := by
    decide +kernel
  cases hr : resolveSelectPlan seatsSchema (.ofJson seatsPlan.toJson) BINDING_SELECT_PLAN_PROFILE with
  | error e => rw [hr] at hkey; cases hkey
  | ok r =>
    rw [hr] at hkey hplace
    obtain ⟨⟨t, p, column, ht, -, hwhere, hplacement, hsound, -⟩, -⟩ :=
      select_plan_placement_sound hr
    have hcolumn : column = "room" := by
      simpa [Except.toOption, ht, hplacement] using hplace
    refine ⟨r, rfl, p, hwhere, fun row heval => ?_⟩
    rw [← hcolumn, hsound row heval, Option.some.inj hkey]

end Chardb.Plan
