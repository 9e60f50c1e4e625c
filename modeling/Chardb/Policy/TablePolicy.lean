import Chardb.Lib.CondText
import Chardb.Lib.InsertionMap
import Chardb.Policy.ColumnMatrix

/-!
# Row policies of a table

`compileCdbPolicies` turns the metadata of a table into floors, which every row must
meet, and grants, of which one must accept the row. A policy exists twice: as a
predicate on rows that are at hand, and as a condition for SQL. Conditions are texts that
`and` and `or` join without brackets around each, and a comparison goes by the affinity of
its column.
-/

namespace Chardb.Policy

open Chardb.Lib

/-! ## Rows and conditions -/

/-- A value of a column; what is neither null nor text goes by its literal. -/
inductive Cell
  | null
  | text (s : String)
  | other (literal : String)
  deriving DecidableEq

/-- A row, by the SQL names of its columns. -/
abbrev Row := String → Cell

/-- A condition, as SQLite evaluates it on a row. -/
abbrev Cond := Row → Option Bool

/-- The text of a condition. -/
abbrev SqlText := CondText Row

/-- What a column makes of its values: what it stores of one, how SQLite compares a stored value with
a bound text, and what is handed out. -/
structure ColumnType where
  store : Cell → Cell
  sqlEq : Cell → String → Option Bool
  decode : Cell → Cell
  sqlEq_null : ∀ value, sqlEq .null value = none
  decode_null : decode .null = .null

/-- How a column without an affinity, or of texts, compares. -/
def textEq (cell : Cell) (value : String) : Option Bool :=
  match cell with
  | .null => none
  | .text s => some (s = value)
  | .other _ => some false

theorem textEq_null (value : String) : textEq .null value = none := rfl

theorem decode_id_null : id Cell.null = .null := rfl

/-- `text(…)`. -/
def ColumnType.text : ColumnType := ⟨id, textEq, id, textEq_null, decode_id_null⟩

/-- Numeric affinity: a text that looks like a number is the number. -/
def numericCell (number : String → Option String) : Cell → Cell
  | .text s => match number s with
    | some literal => .other literal
    | none => .text s
  | c => c

/-- A column of numeric affinity has it applied to the text it is compared with. -/
def numericEq (number : String → Option String) (cell : Cell) (value : String) : Option Bool :=
  match cell with
  | .null => none
  | c => some (c = numericCell number (.text value))

theorem numericEq_null (number : String → Option String) (value : String) :
    numericEq number .null value = none := rfl

/-- `integer(…)`, `real(…)` and `numeric(…)`; `number` is the number that a text looks like. -/
def ColumnType.numeric (number : String → Option String) : ColumnType :=
  ⟨numericCell number, numericEq number, id, numericEq_null number, decode_id_null⟩

/-- The column takes the text as it is: it stores it so, and no other value equals it. -/
structure ColumnType.Verbatim (type : ColumnType) (value : String) : Prop where
  store : type.store (.text value) = .text value
  sqlEq : ∀ cell, type.sqlEq cell value = some true ↔ cell = .text value
  decode : ∀ cell, type.decode cell = .text value ↔ cell = .text value

/-- A column of numbers takes the texts as they are that look like no number. -/
theorem ColumnType.numeric_verbatim {number : String → Option String} {value : String}
    (h : number value = none) : (ColumnType.numeric number).Verbatim value where
  store := by simp [ColumnType.numeric, numericCell, h]
  sqlEq cell := by cases cell <;> simp [ColumnType.numeric, numericEq, numericCell, h]
  decode _ := Iff.rfl

/-- The column takes every text as it is. -/
def ColumnType.Textual (type : ColumnType) : Prop := ∀ value, type.Verbatim value

/-- SQLite takes some stored value for a text, which it is not handed out as. -/
def ColumnType.Loose (type : ColumnType) : Prop :=
  ∃ value cell, value ≠ "" ∧ type.sqlEq cell value = some true ∧ ∀ s, type.decode cell ≠ .text s

/-- A column of numbers is loose, if some text looks like a number. -/
theorem ColumnType.numeric_loose {number : String → Option String} {value literal : String}
    (hne : value ≠ "") (h : number value = some literal) : (ColumnType.numeric number).Loose :=
  ⟨value, .other literal, hne, by simp [ColumnType.numeric, numericEq, numericCell, h],
    fun _ => by simp [ColumnType.numeric]⟩

/-- `eq(column, value)`. -/
def eqColumn (type : ColumnType) (column value : String) : SqlText :=
  operand fun row => type.sqlEq (row column) value

theorem eqColumn_true {type : ColumnType} {column value : String} {row : Row} :
    (eqColumn type column value).truth row = some true ↔
      type.sqlEq (row column) value = some true := by
  rw [eqColumn, CondText.truth_operand]

/-- `and(…)`: there are brackets around two conditions or more, but none around each. -/
def sqlAnd : List SqlText → Option SqlText
  | [] => none
  | [c] => some c
  | cs => some (bracket (joinAnds cs))

/-- `or(…)`. -/
def sqlOr : List SqlText → Option SqlText
  | [] => none
  | [c] => some c
  | cs => some (bracket (joinOrs cs))

def SQL_TRUE : SqlText := operand fun _ => some true

def SQL_FALSE : SqlText := operand fun _ => some false

theorem SQL_TRUE_truth (row : Row) : SQL_TRUE.truth row = some true := by
  rw [SQL_TRUE, CondText.truth_operand]

theorem SQL_FALSE_truth (row : Row) : SQL_FALSE.truth row = some false := by
  rw [SQL_FALSE, CondText.truth_operand]

/-- The text has no `OR` outside brackets. -/
def Closed (text : SqlText) : Prop := text.length = 1

theorem closed_operand (cond : Cond) : Closed (operand cond) := rfl

theorem sqlAnd_true {conds : List SqlText} {text : SqlText} {row : Row}
    (hclosed : ∀ c ∈ conds, Closed c) (h : sqlAnd conds = some text) :
    text.truth row = some true ↔ ∀ c ∈ conds, c.truth row = some true := by
  match conds, h with
  | [c], h =>
    obtain rfl := Option.some.inj h
    simp
  | c :: d :: cs, h =>
    obtain rfl := Option.some.inj h
    rw [CondText.truth_bracket, truth_joinAnds (List.cons_ne_nil _ _) hclosed]

theorem sqlOr_true {conds : List SqlText} {text : SqlText} {row : Row}
    (h : sqlOr conds = some text) :
    text.truth row = some true ↔ ∃ c ∈ conds, c.truth row = some true := by
  match conds, h with
  | [c], h =>
    obtain rfl := Option.some.inj h
    simp
  | c :: d :: cs, h =>
    obtain rfl := Option.some.inj h
    rw [CondText.truth_bracket, truth_joinOrs]

theorem sqlOr_closed {conds : List SqlText} {text : SqlText} (hclosed : ∀ c ∈ conds, Closed c)
    (h : sqlOr conds = some text) : Closed text := by
  match conds, h with
  | [c], h => exact Option.some.inj h ▸ hclosed c List.mem_cons_self
  | c :: d :: cs, h => exact Option.some.inj h ▸ rfl

/-! ## Tables and callers -/

inductive TenantKind
  | org
  | user
  | none
  deriving DecidableEq

inductive PartitionBy
  | colocate (via : List String)
  | self
  | replicated
  deriving DecidableEq

/-- The resolved metadata of a table; the ownership factories fix the tenant column. -/
structure CdbTableMeta where
  name : String
  tenantKind : TenantKind
  tenantBy : Option String
  selfBy : Option String
  partitionBy : PartitionBy
  publicRead : Bool
  rawRoles : List (String × RoleValue)
  columns : List TableColumn
  /-- The types of the columns, by their SQL names. -/
  typeOf : String → ColumnType := fun _ => .text
  matrix : ColumnMatrix (columns.map TableColumn.sqlName)
  tenantBy_isSome : tenantKind ≠ .none → tenantBy.isSome
  tenantBy_mem : ∀ column ∈ tenantBy, column ∈ columns.map TableColumn.sqlName
  selfBy_mem : ∀ column ∈ selfBy, column ∈ columns.map TableColumn.sqlName
  /-- Under user ownership `self` is implicit. -/
  selfBy_user : tenantKind = .user → selfBy = none
  sqlNames_nodup : (columns.map TableColumn.sqlName).Nodup
  jsKeys_nodup : (columns.map TableColumn.jsKey).Nodup

theorem tenantBy_isSome_some (kind : TenantKind) (column : String) :
    kind ≠ .none → (some column).isSome := fun _ => rfl

theorem selfBy_user_none (kind : TenantKind) : kind = .user → (none : Option String) = none :=
  fun _ => rfl

def CdbTableMeta.allColumns (t : CdbTableMeta) : List String := t.columns.map TableColumn.sqlName

/-- The verified identity of a caller. -/
structure AuthCtx where
  userId : Option String
  tenantId : Option String
  role : Option String
  roles : Option (List String)
  /-- `claims.userRole`, where it is a string. -/
  userRole : Option String
  deriving DecidableEq

/-- A string that is there and not empty. -/
def truthy (s : Option String) : Bool := s.any fun s => s ≠ ""

/-- What `String.prototype.trim` removes. -/
def isTrimmed (c : Char) : Bool :=
  c.isWhitespace || c.toNat ∈ [0x0B, 0x0C, 0xA0, 0x1680, 0x2028, 0x2029, 0x202F, 0x205F, 0x3000,
    0xFEFF] || (0x2000 ≤ c.toNat && c.toNat ≤ 0x200A)

def trimChars (cs : List Char) : List Char :=
  ((cs.dropWhile isTrimmed).reverse.dropWhile isTrimmed).reverse

/-- `s.split(",").map(s => s.trim()).filter(Boolean)`. -/
def splitRoleText (s : String) : List String :=
  (((s.toList.splitOn ',').map trimChars).filter fun cs => cs ≠ []).map String.ofList

def splitCallerRoles (auth : AuthCtx) : List String :=
  match auth.roles with
  | some (role :: roles) => role :: roles
  | _ => if truthy auth.role then splitRoleText (auth.role.getD "") else []

def splitUserRoles (auth : AuthCtx) : List String := splitRoleText (auth.userRole.getD "")

/-- `role.startsWith("user:")`. -/
def isUserRole (role : String) : Bool := "user:".toList.isPrefixOf role.toList

/-- The roles of the lattice that the tenancy of the table names. -/
def latticeRoles (auth : AuthCtx) : List String :=
  (splitCallerRoles auth).filter fun role => !isUserRole role

/-- `callerPolicyRoles`. -/
def callerPolicyRoles (t : CdbTableMeta) (auth : AuthCtx) : List String :=
  let userRoles := splitUserRoles auth ++ if t.tenantKind = .org then [] else latticeRoles auth
  distinct (latticeRoles auth ++ userRoles.map fun role => "user:" ++ role)

/-! ## Policies -/

inductive PolicyOp
  | select
  | insert
  | update
  | delete
  deriving DecidableEq

/-- The audiences of compiled policies. -/
inductive Audience
  | authenticated
  | everyone
  deriving DecidableEq

inductive Effect
  | floor
  | grant
  deriving DecidableEq

structure PolicyDefinition where
  name : String
  /-- One operation, or all of them. -/
  op : Option PolicyOp
  audience : Audience
  effect : Effect
  usingRow : AuthCtx → Row → Bool
  usingSql : AuthCtx → Option SqlText

def tenantValueFromAuth (t : CdbTableMeta) (auth : AuthCtx) : Option String :=
  match t.tenantKind with
  | .org => auth.tenantId
  | .user => auth.userId
  | .none => none

/-- The column that `sqlEqColumn` takes for a name: a key of the table first, then an SQL name. -/
def resolveColumn (t : CdbTableMeta) (column : String) : Option String :=
  match t.columns.find? fun c => c.jsKey = column with
  | some c => some c.sqlName
  | none => (t.columns.find? fun c => c.sqlName = column).map TableColumn.sqlName

def sqlEqColumn (t : CdbTableMeta) (column : String) (value : Option String) : Option SqlText :=
  match value, resolveColumn t column with
  | some value, some column => some (eqColumn (t.typeOf column) column value)
  | _, _ => none

/-- A stored row as the database hands it out. -/
def materialize (t : CdbTableMeta) (row : Row) : Row := fun col => (t.typeOf col).decode (row col)

/-- `row[column] === value`. -/
def rowEq (row : Row) (column : String) (value : Option String) : Bool :=
  match value with
  | some value => row column = .text value
  | none => false

/-- `roleGrantsRowVerb`. -/
def roleGrantsRowVerb (raw : RoleValue) (verb : Verb) : Bool :=
  match raw with
  | .star => true
  | .verbs verbs => verb ∈ verbs
  | .byVerb value =>
    match value verb with
    | none => false
    | some (.bool b) => b
    | some _ => true

def verbToPolicyOp : Verb → PolicyOp
  | .read => .select
  | .create => .insert
  | .update => .update
  | .delete => .delete

def callerHasRole (t : CdbTableMeta) (auth : AuthCtx) (role : String) : Bool :=
  role ∈ callerPolicyRoles t auth

/-- The tenant predicate. -/
def tenantPolicy (t : CdbTableMeta) (column : String) : PolicyDefinition where
  name := t.name ++ "_tenant"
  op := none
  audience := .authenticated
  effect := .floor
  usingRow auth row := rowEq row column (tenantValueFromAuth t auth)
  usingSql auth := some ((sqlEqColumn t column (tenantValueFromAuth t auth)).getD SQL_FALSE)

def publicReadPolicy (t : CdbTableMeta) : PolicyDefinition where
  name := t.name ++ "_public_read"
  op := some .select
  audience := .everyone
  effect := .grant
  usingRow _ _ := true
  usingSql _ := some SQL_TRUE

def rolePolicyName (t : CdbTableMeta) (role : String) (verb : Verb) : String :=
  t.name ++ "_role_" ++ role ++ "_" ++ verb.text

/-- The row gate of a role for a verb. -/
def rolePolicy (t : CdbTableMeta) (role : String) (verb : Verb) : PolicyDefinition where
  name := rolePolicyName t role verb
  op := some (verbToPolicyOp verb)
  audience := .authenticated
  effect := .grant
  usingRow auth _ := callerHasRole t auth role
  usingSql auth := some (if callerHasRole t auth role then SQL_TRUE else SQL_FALSE)

def selfPolicyName (t : CdbTableMeta) (verb : Verb) : String := t.name ++ "_self_" ++ verb.text

/-- The row gate of `self`; under user ownership the floor restricts the rows. -/
def selfPolicy (t : CdbTableMeta) (verb : Verb) : PolicyDefinition where
  name := selfPolicyName t verb
  op := some (verbToPolicyOp verb)
  audience := .authenticated
  effect := .grant
  usingRow auth row :=
    t.tenantKind = .user || t.selfBy.any fun selfBy => rowEq row selfBy auth.userId
  usingSql auth :=
    if t.tenantKind = .user then some SQL_TRUE
    else
      match t.selfBy with
      | none => some SQL_FALSE
      | some selfBy => sqlEqColumn t selfBy auth.userId

def rolePolicies (t : CdbTableMeta) : List PolicyDefinition :=
  (t.rawRoles.filter fun e => e.1 ≠ "self").flatMap fun e =>
    (ROW_VERBS.filter (roleGrantsRowVerb e.2)).map (rolePolicy t e.1)

def rawRole? (t : CdbTableMeta) (role : String) : Option RoleValue :=
  (t.rawRoles.find? fun e => e.1 = role).map Prod.snd

def selfPolicies (t : CdbTableMeta) : List PolicyDefinition :=
  match rawRole? t "self" with
  | some raw =>
    if (t.tenantKind = .org ∧ t.selfBy.isSome) ∨ t.tenantKind = .user then
      (ROW_VERBS.filter (roleGrantsRowVerb raw)).map (selfPolicy t)
    else []
  | none => []

/-- `compileCdbPolicies`. -/
def compileCdbPolicies (t : CdbTableMeta) : List PolicyDefinition :=
  (if t.tenantKind = .none then [] else (t.tenantBy.map (tenantPolicy t)).toList) ++
    (if t.publicRead then [publicReadPolicy t] else []) ++ rolePolicies t ++ selfPolicies t

/-! ## Evaluation -/

/-- `appliesTo`. -/
def appliesTo (p : PolicyDefinition) (op : PolicyOp) (auth : AuthCtx) : Bool :=
  (p.op.all fun o => o = op) &&
    match p.audience with
    | .everyone => true
    | .authenticated => truthy auth.userId

/-- The row is one that `applyRowPolicies` keeps. -/
def applyRowPolicies (op : PolicyOp) (auth : AuthCtx) (policies : List PolicyDefinition) (row : Row) :
    Bool :=
  let applicable := policies.filter fun p => appliesTo p op auth
  ((applicable.filter fun p => p.effect = .floor).all fun p => p.usingRow auth row) &&
    ((applicable.filter fun p => p.effect ≠ .floor).any fun p => p.usingRow auth row)

def policyFragment (auth : AuthCtx) (p : PolicyDefinition) : SqlText :=
  (p.usingSql auth).getD SQL_FALSE

/-- `applyPoliciesToWhere`. -/
def applyPoliciesToWhere (op : PolicyOp) (auth : AuthCtx) (userWhere : Option SqlText)
    (policies : List PolicyDefinition) : Option SqlText :=
  let applicable := policies.filter fun p => appliesTo p op auth
  let floors := (applicable.filter fun p => p.effect = .floor).map (policyFragment auth)
  let grants := (applicable.filter fun p => p.effect ≠ .floor).map (policyFragment auth)
  let grantPredicate := if grants.isEmpty then SQL_FALSE else (sqlOr grants).getD SQL_FALSE
  sqlAnd (userWhere.toList ++ floors ++ [grantPredicate])

/-- The rows that a statement takes; one without a condition takes all. -/
def selects (condition : Option SqlText) : Cond := fun row =>
  match condition with
  | some text => text.truth row
  | none => some true

theorem applyRowPolicies_true {op : PolicyOp} {auth : AuthCtx} {policies : List PolicyDefinition}
    {row : Row} :
    applyRowPolicies op auth policies row = true ↔
      (∀ p ∈ policies, appliesTo p op auth = true → p.effect = .floor → p.usingRow auth row = true) ∧
      ∃ p ∈ policies, appliesTo p op auth = true ∧ p.effect = .grant ∧ p.usingRow auth row = true := by
  have heffect : ∀ p : PolicyDefinition, p.effect ≠ .floor ↔ p.effect = .grant := by
    intro p
    cases p.effect <;> simp
  simp only [applyRowPolicies, Bool.and_eq_true, List.all_eq_true, List.any_eq_true, List.mem_filter,
    decide_eq_true_eq, heffect, and_assoc, and_imp]

theorem eq_nil_of_sqlAnd {conds : List SqlText} (h : sqlAnd conds = none) : conds = [] := by
  unfold sqlAnd at h
  split at h
  · rfl
  · cases h
  · cases h

theorem eq_nil_of_sqlOr {conds : List SqlText} (h : sqlOr conds = none) : conds = [] := by
  unfold sqlOr at h
  split at h
  · rfl
  · cases h
  · cases h

theorem selects_sqlAnd {conds : List SqlText} {row : Row} (hclosed : ∀ c ∈ conds, Closed c) :
    selects (sqlAnd conds) row = some true ↔ ∀ c ∈ conds, c.truth row = some true := by
  cases h : sqlAnd conds with
  | some text => exact sqlAnd_true hclosed h
  | none =>
    obtain rfl := eq_nil_of_sqlAnd h
    simp [selects]

-- `1 = 1 or 1 = 1` beside a condition that is false: `AND` binds the second operand only
example : selects (sqlAnd [joinOrs [SQL_TRUE, SQL_TRUE], SQL_FALSE]) (fun _ => .null) = some true := by
  decide

theorem sqlOr_getD_true {conds : List SqlText} {row : Row} :
    ((sqlOr conds).getD SQL_FALSE).truth row = some true ↔ ∃ c ∈ conds, c.truth row = some true := by
  cases h : sqlOr conds with
  | some text => exact sqlOr_true h
  | none =>
    obtain rfl := eq_nil_of_sqlOr h
    simp [SQL_FALSE_truth]

theorem sqlOr_getD_closed {conds : List SqlText} (hclosed : ∀ c ∈ conds, Closed c) :
    Closed ((sqlOr conds).getD SQL_FALSE) := by
  cases h : sqlOr conds with
  | some text => exact sqlOr_closed hclosed h
  | none => exact closed_operand _

/-- The rows that the policies let through, where nothing has an `OR` outside brackets. -/
theorem applyPoliciesToWhere_true {op : PolicyOp} {auth : AuthCtx} {userWhere : Option SqlText}
    {policies : List PolicyDefinition} {row : Row} (huser : ∀ c ∈ userWhere, Closed c)
    (hpolicies : ∀ p ∈ policies, Closed (policyFragment auth p)) :
    selects (applyPoliciesToWhere op auth userWhere policies) row = some true ↔
      (∀ c ∈ userWhere, c.truth row = some true) ∧
      (∀ p ∈ policies, appliesTo p op auth → p.effect = .floor →
        (policyFragment auth p).truth row = some true) ∧
      ∃ p ∈ policies, appliesTo p op auth ∧ p.effect = .grant ∧
        (policyFragment auth p).truth row = some true := by
  have hgrants : ∀ ps : List SqlText,
      (if ps.isEmpty then SQL_FALSE else (sqlOr ps).getD SQL_FALSE) = (sqlOr ps).getD SQL_FALSE := by
    intro ps
    cases ps <;> rfl
  have heffect : ∀ p : PolicyDefinition, p.effect ≠ .floor ↔ p.effect = .grant := by
    intro p
    cases p.effect <;> simp
  have hfragments : ∀ q : PolicyDefinition → Bool, ∀ c ∈ ((policies.filter fun p =>
      appliesTo p op auth).filter q).map (policyFragment auth), Closed c := by
    intro q c hc
    obtain ⟨p, hp, rfl⟩ := List.mem_map.mp hc
    exact hpolicies p (List.mem_filter.mp (List.mem_filter.mp hp).1).1
  have hexists : ∀ ps : List PolicyDefinition,
      (∃ c ∈ ps.map (policyFragment auth), c.truth row = some true) ↔
        ∃ p ∈ ps, (policyFragment auth p).truth row = some true := by simp
  unfold applyPoliciesToWhere
  simp only [hgrants]
  rw [selects_sqlAnd]
  · simp only [List.forall_mem_append, List.forall_mem_singleton, sqlOr_getD_true, List.forall_mem_map,
      hexists, Option.mem_toList, Option.mem_def, List.mem_filter, decide_eq_true_eq,
      heffect, and_assoc, and_imp]
  · rw [List.forall_mem_append, List.forall_mem_append, List.forall_mem_singleton]
    refine ⟨⟨fun c hc => huser c (Option.mem_toList.mp hc), hfragments _⟩, ?_⟩
    exact sqlOr_getD_closed (hfragments _)

end Chardb.Policy
