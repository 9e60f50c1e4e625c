import Chardb.Policy.TablePolicy
import Mathlib.Data.List.Dedup
import Mathlib.Data.List.Perm.Subperm

/-!
# Column grants

`applyColumnMask` nulls the cells of a row that the caller may not read,
`assertColumnsWritable` refuses columns that the caller may not write, and
`policiesForColumnUpdate` ties the columns of an update to the rows it may touch.
-/

namespace Chardb.Policy

/-! ## What roles grant -/

/-- `isColumnAllowed`. -/
def isColumnAllowed (t : CdbTableMeta) (role : String) (verb : ColVerb) (col : String) : Bool :=
  match t.matrix.allowed role verb with
  | none => false
  | some set => decide (set.has col)

/-- The union of what the roles grant, up to the first that grants every column. -/
def collectColumns (t : CdbTableMeta) (verb : ColVerb) : List String → List String → List String
  | allowed, [] => allowed
  | allowed, role :: roles =>
    match t.matrix.allowed role verb with
    | none => collectColumns t verb allowed roles
    | some .all => (allowed ++ t.allColumns).dedup
    | some (.only names) => collectColumns t verb (allowed ++ names).dedup roles

/-- `callerColumns`. -/
def callerColumns (t : CdbTableMeta) (auth : AuthCtx) (verb : ColVerb) : List String :=
  collectColumns t verb [] (callerPolicyRoles t auth)

/-- `selfColumns`. -/
def selfColumns (t : CdbTableMeta) (verb : ColVerb) : ColumnSet :=
  (t.matrix.allowed "self" verb).getD (.only [])

/-! ## Reading -/

def hasConfiguredReadGrant (t : CdbTableMeta) : Bool :=
  t.matrix.roles.any fun role =>
    match t.matrix.allowed role .read with
    | some .all => true
    | some (.only names) => names ≠ []
    | none => false

/-- The table hands its rows out unmasked: `publicRead` without a caller, or without any grant. -/
def publicReadExposes (t : CdbTableMeta) (auth : AuthCtx) : Bool :=
  t.publicRead && (!truthy auth.userId || !hasConfiguredReadGrant t)

/-- The caller's roles grant every column and `self` cannot widen them. -/
def maskIsFull (t : CdbTableMeta) (auth : AuthCtx) : Bool :=
  (callerColumns t auth .read).length = t.allColumns.length &&
    ((t.selfBy.isNone && t.tenantKind ≠ .user) ||
      match selfColumns t .read with
      | .all => true
      | .only names => names.dedup.length = t.allColumns.length)

/-- `self` applies to the row. -/
def selfApplies (t : CdbTableMeta) (auth : AuthCtx) (row : Row) : Bool :=
  t.tenantKind = .user || t.selfBy.any fun selfBy => rowEq row selfBy auth.userId

def readableColumn (t : CdbTableMeta) (auth : AuthCtx) (row : Row) (col : String) : Bool :=
  col ∈ callerColumns t auth .read || (selfApplies t auth row && (selfColumns t .read).has col)

/-- `applyColumnMask`, on one row. -/
def applyColumnMask (t : CdbTableMeta) (auth : AuthCtx) (row : Row) : Row :=
  if publicReadExposes t auth || maskIsFull t auth then row
  else fun col => if col ∈ t.allColumns ∧ readableColumn t auth row col then row col else .null

/-! ## Writing -/

/-- What a write assigns to a column: nothing, a value, or an SQL expression over the row, by what it
stores. -/
inductive WriteValue
  | undefined
  | cell (c : Cell)
  | sql (e : Row → Cell)

/-- The columns of a write, by SQL name or by key. -/
abbrev WriteValues := List (String × WriteValue)

/-- `values[col] === value`, where the last assignment to a key counts. -/
def valueEq (values : WriteValues) (col : String) (value : Option String) : Bool :=
  match values.reverse.find? fun v => v.1 = col with
  | some (_, .cell c) => value.any fun value => c = .text value
  | some (_, .undefined) => value.isNone
  | some (_, .sql _) => false
  | none => value.isNone

/-- One column passes `assertColumnsWritable`. -/
def writableColumn (t : CdbTableMeta) (auth : AuthCtx) (verb : ColVerb) (autoFilled : List String)
    (values : WriteValues) (col : String) : Bool :=
  col ∈ autoFilled || col ∈ callerColumns t auth verb ||
    (t.selfBy.any fun selfBy => col = selfBy && valueEq values col auth.userId) ||
    (t.tenantKind = .user && isColumnAllowed t "self" verb col) ||
    (t.selfBy.any fun selfBy =>
      isColumnAllowed t "self" verb col && valueEq values selfBy auth.userId)

def forbiddenColumn (t : CdbTableMeta) (verb : ColVerb) (col : String) : Thrown :=
  .cdb
    { code := .forbiddenColumn
      message := t.name ++ ": caller is not authorized to " ++ verb.verb.text ++ " column \"" ++ col ++
        "\""
      hint := some "check the table's `roles:` block or `columns:` axis for grants on this verb" }

/-- `assertColumnsWritable`. -/
def assertColumnsWritable (t : CdbTableMeta) (auth : AuthCtx) (verb : ColVerb)
    (autoFilled : List String) (values : WriteValues) : Except Thrown Unit :=
  match values.find? fun v => !writableColumn t auth verb autoFilled values v.1 with
  | some v => .error (forbiddenColumn t verb v.1)
  | none => .ok ()

/-! ### Updates -/

def grantedUpdateColumns (t : CdbTableMeta) (columns : List String) (role : String) : List String :=
  columns.filter (isColumnAllowed t role .update)

/-- The declared roles of the caller that grant some of the columns. -/
def updateRoles (t : CdbTableMeta) (auth : AuthCtx) (columns : List String) : List String :=
  (callerPolicyRoles t auth).filter fun role =>
    (rawRole? t role).isSome && !((grantedUpdateColumns t columns role).isEmpty && !columns.isEmpty)

def roleUpdateColumns (t : CdbTableMeta) (auth : AuthCtx) (columns : List String) : List String :=
  (updateRoles t auth columns).flatMap (grantedUpdateColumns t columns)

/-- Some column is not granted by the caller's roles. -/
def requiresSelf (t : CdbTableMeta) (auth : AuthCtx) (columns : List String) : Bool :=
  columns.any fun col => col ∉ roleUpdateColumns t auth columns

def permittedGrantNames (t : CdbTableMeta) (auth : AuthCtx) (columns : List String) : List String :=
  if requiresSelf t auth columns then [selfPolicyName t .update]
  else (updateRoles t auth columns).map fun role => rolePolicyName t role .update

/-- `policiesForColumnUpdate`. -/
def policiesForColumnUpdate (t : CdbTableMeta) (auth : AuthCtx) (columns : List String)
    (policies : List PolicyDefinition) : List PolicyDefinition :=
  policies.filter fun p => p.effect = .floor || p.name ∈ permittedGrantNames t auth columns

/-! ## Lemmas -/

theorem isColumnAllowed_iff {t : CdbTableMeta} {role : String} {verb : ColVerb} {col : String} :
    isColumnAllowed t role verb col = true ↔
      ∃ set, t.matrix.allowed role verb = some set ∧ set.has col := by
  unfold isColumnAllowed
  cases t.matrix.allowed role verb <;> simp

theorem mem_collectColumns {t : CdbTableMeta} {verb : ColVerb} {col : String}
    (hcol : col ∈ t.allColumns) : ∀ {roles allowed : List String},
      col ∈ collectColumns t verb allowed roles ↔
        col ∈ allowed ∨ ∃ role ∈ roles, isColumnAllowed t role verb col
  | [], allowed => by simp [collectColumns]
  | role :: roles, allowed => by
    rw [collectColumns, List.exists_mem_cons_iff, isColumnAllowed_iff]
    cases h : t.matrix.allowed role verb with
    | none => simp [mem_collectColumns hcol]
    | some set =>
      cases set with
      | all => simp [ColumnSet.has, hcol]
      | only names => simp [mem_collectColumns hcol, ColumnSet.has, or_assoc]

theorem mem_callerColumns {t : CdbTableMeta} {auth : AuthCtx} {verb : ColVerb} {col : String}
    (hcol : col ∈ t.allColumns) :
    col ∈ callerColumns t auth verb ↔
      ∃ role ∈ callerPolicyRoles t auth, isColumnAllowed t role verb col := by
  rw [callerColumns, mem_collectColumns hcol]
  simp

theorem collectColumns_nodup {t : CdbTableMeta} {verb : ColVerb} :
    ∀ {roles allowed : List String}, allowed.Nodup → (collectColumns t verb allowed roles).Nodup
  | [], _, h => h
  | role :: roles, allowed, h => by
    rw [collectColumns]
    split
    · exact collectColumns_nodup h
    · exact List.nodup_dedup _
    · exact collectColumns_nodup (List.nodup_dedup _)

theorem collectColumns_subset {t : CdbTableMeta} {verb : ColVerb} :
    ∀ {roles allowed : List String}, (∀ c ∈ allowed, c ∈ t.allColumns) →
      ∀ c ∈ collectColumns t verb allowed roles, c ∈ t.allColumns
  | [], _, h => h
  | role :: roles, allowed, h => by
    rw [collectColumns]
    split
    · exact collectColumns_subset h
    · intro c hc
      rcases List.mem_append.mp (List.mem_dedup.mp hc) with hc | hc
      · exact h c hc
      · exact hc
    · rename_i names hnames
      refine collectColumns_subset fun c hc => ?_
      rcases List.mem_append.mp (List.mem_dedup.mp hc) with hc | hc
      · exact h c hc
      · exact t.matrix.within role verb _ hnames c hc

/-- As many columns as the table has are all of them. -/
theorem callerColumns_full {t : CdbTableMeta} {auth : AuthCtx} {verb : ColVerb}
    (h : (callerColumns t auth verb).length = t.allColumns.length) :
    ∀ c ∈ t.allColumns, c ∈ callerColumns t auth verb := by
  have hsub : callerColumns t auth verb ⊆ t.allColumns := collectColumns_subset (by simp)
  have hnodup : (callerColumns t auth verb).Nodup := collectColumns_nodup List.nodup_nil
  have hperm : (callerColumns t auth verb).Perm t.allColumns :=
    (List.subperm_of_subset hnodup hsub).perm_of_length_le (by omega)
  exact fun c hc => hperm.mem_iff.mpr hc

end Chardb.Policy
