import Chardb.Core.Errors
import Chardb.Lib.Tx

/-!
# Column matrices

A table grants verbs to roles along two axes: `roles` lists for each role what it may
do, `columns` lists for each column who may do it. `compileColumnMatrix` folds both
into one matrix, which names columns as SQL does.
-/

namespace Chardb.Policy

open Chardb.Lib

inductive Verb
  | read
  | create
  | update
  | delete
  deriving DecidableEq

def Verb.text : Verb → String
  | .read => "read"
  | .create => "create"
  | .update => "update"
  | .delete => "delete"

def ROW_VERBS : List Verb := [.read, .create, .update, .delete]

inductive ColVerb
  | read
  | create
  | update
  deriving DecidableEq

def ColVerb.verb : ColVerb → Verb
  | .read => .read
  | .create => .create
  | .update => .update

def COL_VERBS : List ColVerb := [.read, .create, .update]

/-- What a role may do with the columns, for one verb; columns go by their keys. -/
inductive VerbValue
  | star
  | bool (b : Bool)
  | columns (names : List String)
  | exclude (names : List String)

/-- What a role may do. -/
inductive RoleValue
  | star
  | verbs (verbs : List Verb)
  | byVerb (value : Verb → Option VerbValue)

/-- Who may do what with a column. -/
abbrev ColumnSpec := ColVerb → Option (List String)

/-- A column: its key in the schema file and its name in SQL. -/
structure TableColumn where
  jsKey : String
  sqlName : String
  deriving DecidableEq

def toSql (columns : List TableColumn) (js : String) : String :=
  ((columns.find? fun c => c.jsKey = js).map TableColumn.sqlName).getD js

/-! ## The matrix -/

/-- The columns a role may touch; `all` is the `null` of the source. -/
inductive ColumnSet
  | all
  | only (names : List String)
  deriving DecidableEq

/-- `columns.has(col)`, where `null` has every column. -/
def ColumnSet.has : ColumnSet → String → Prop
  | .all, _ => True
  | .only names, col => col ∈ names

instance (set : ColumnSet) (col : String) : Decidable (set.has col) :=
  match set with
  | .all => inferInstanceAs (Decidable True)
  | .only names => inferInstanceAs (Decidable (col ∈ names))

/-- Only columns of the table are named. -/
def ColumnSet.Within (allColumns : List String) : ColumnSet → Prop
  | .all => True
  | .only names => ∀ col ∈ names, col ∈ allColumns

theorem ColumnSet.within_all {allColumns : List String} : ColumnSet.all.Within allColumns := trivial

theorem ColumnSet.within_nil {allColumns : List String} : (ColumnSet.only []).Within allColumns :=
  fun _ h => absurd h List.not_mem_nil

theorem ColumnSet.within_singleton {allColumns : List String} {col : String}
    (h : col ∈ allColumns) : (ColumnSet.only [col]).Within allColumns := by
  intro c hc
  rwa [List.mem_singleton.mp hc]

theorem ColumnSet.within_append {allColumns names : List String} {col : String}
    (hnames : (ColumnSet.only names).Within allColumns) (h : col ∈ allColumns) :
    (ColumnSet.only (names ++ [col])).Within allColumns := by
  intro c hc
  rcases List.mem_append.mp hc with hc | hc
  · exact hnames c hc
  · exact within_singleton h c hc

theorem ColumnSet.within_filter {allColumns : List String} {p : String → Bool} :
    (ColumnSet.only (allColumns.filter p)).Within allColumns :=
  fun _ h => (List.mem_filter.mp h).1

/-- What each role may do with the columns of a table. -/
structure ColumnMatrix (allColumns : List String) where
  allowed : String → ColVerb → Option ColumnSet
  /-- The roles that may have an entry. -/
  roles : List String
  mem_roles : ∀ role verb set, allowed role verb = some set → role ∈ roles
  within : ∀ role verb set, allowed role verb = some set → set.Within allColumns

section
variable {allColumns : List String}

def ColumnMatrix.empty (allColumns : List String) : ColumnMatrix allColumns where
  allowed _ _ := none
  roles := []
  mem_roles _ _ _ h := by cases h
  within _ _ _ h := by cases h

/-- `r.set(verb, columns)` in the entry of a role. -/
def ColumnMatrix.set (m : ColumnMatrix allColumns) (role : String) (verb : ColVerb) (set : ColumnSet)
    (hset : set.Within allColumns) : ColumnMatrix allColumns where
  allowed r v := if r = role ∧ v = verb then some set else m.allowed r v
  roles := role :: m.roles
  mem_roles r v s h := by
    split at h
    · rename_i hr; rw [hr.1]; exact List.mem_cons_self
    · exact List.mem_cons_of_mem _ (m.mem_roles r v s h)
  within r v s h := by
    split at h
    · obtain rfl := Option.some.inj h; exact hset
    · exact m.within r v s h

/-- Add a column to what a role may do. -/
def grantColumn (m : ColumnMatrix allColumns) (col : String) (hcol : col ∈ allColumns)
    (verb : ColVerb) (role : String) : ColumnMatrix allColumns :=
  match h : m.allowed role verb with
  | none => m.set role verb (.only [col]) (ColumnSet.within_singleton hcol)
  | some .all => m
  | some (.only names) =>
    m.set role verb (.only (names ++ [col]))
      (ColumnSet.within_append (m.within role verb _ h) hcol)

end

/-! ## Compilation -/

/-- The table that is declared. -/
structure MatrixConfig where
  tableName : String
  columns : List TableColumn
  rawRoles : List (String × RoleValue)
  rawColumns : List (String × ColumnSpec)

def MatrixConfig.jsKeys (config : MatrixConfig) : List String := config.columns.map TableColumn.jsKey

def MatrixConfig.allColumns (config : MatrixConfig) : List String :=
  config.columns.map TableColumn.sqlName

def invalidColumn (config : MatrixConfig) (reason : String) : Thrown :=
  .cdb
    { code := .invalidColumn
      message := "cdbTable(\"" ++ config.tableName ++ "\"): " ++ reason }

def referencesUnknown (role : String) (verb : ColVerb) (references col : String) : String :=
  "role \"" ++ role ++ "\" verb \"" ++ verb.verb.text ++ "\" " ++ references ++ " column \"" ++ col ++
    "\""

theorem toSql_mem {config : MatrixConfig} {js : String} (h : js ∈ config.jsKeys) :
    toSql config.columns js ∈ config.allColumns := by
  obtain ⟨column, hcolumn, hkey⟩ := List.mem_map.mp h
  unfold toSql
  cases hfind : config.columns.find? fun c => c.jsKey = js with
  | none =>
    have hne := List.find?_eq_none.mp hfind column hcolumn
    exact absurd (decide_eq_true hkey) hne
  | some found => exact List.mem_map_of_mem (List.mem_of_find?_eq_some hfind)

/-- The keys that are no columns of the table. -/
def MatrixConfig.unknown? (config : MatrixConfig) (names : List String) : Option String :=
  names.find? fun js => js ∉ config.jsKeys

theorem MatrixConfig.known {config : MatrixConfig} {names : List String}
    (h : config.unknown? names = none) : ∀ js ∈ names, js ∈ config.jsKeys := by
  intro js hjs
  simpa using List.find?_eq_none.mp h js hjs

theorem map_toSql_within {config : MatrixConfig} {names : List String}
    (h : config.unknown? names = none) :
    (ColumnSet.only (names.map (toSql config.columns))).Within config.allColumns := by
  intro col hcol
  obtain ⟨js, hjs, rfl⟩ := List.mem_map.mp hcol
  exact toSql_mem (config.known h js hjs)

/-- A set of columns of the table. -/
abbrev TableColumnSet (config : MatrixConfig) := {set : ColumnSet // set.Within config.allColumns}

/-- `expandVerbValue`. -/
def expandVerbValue (config : MatrixConfig) (role : String) (verb : ColVerb) :
    VerbValue → Except Thrown (TableColumnSet config)
  | .star => .ok ⟨.all, ColumnSet.within_all⟩
  | .bool true => .ok ⟨.all, ColumnSet.within_all⟩
  | .bool false => .ok ⟨.only [], ColumnSet.within_nil⟩
  | .columns names =>
    match h : config.unknown? names with
    | some col => .error (invalidColumn config (referencesUnknown role verb "references unknown" col))
    | none => .ok ⟨.only (names.map (toSql config.columns)), map_toSql_within h⟩
  | .exclude names =>
    match config.unknown? names with
    | some col => .error (invalidColumn config (referencesUnknown role verb "excludes unknown" col))
    | none =>
      .ok ⟨.only (config.allColumns.filter fun col => col ∉ names.map (toSql config.columns)),
        ColumnSet.within_filter⟩

/-- One verb of a role that is declared verb by verb. -/
def addVerbValue (config : MatrixConfig) (role : String) (value : Verb → Option VerbValue)
    (m : ColumnMatrix config.allColumns) (verb : ColVerb) :
    Except Thrown (ColumnMatrix config.allColumns) :=
  match value verb.verb with
  | none => .ok m
  | some vv =>
    match expandVerbValue config role verb vv with
    | .error e => .error e
    | .ok set => .ok (m.set role verb set.1 set.2)

/-- One role of the role axis. -/
def addRole (config : MatrixConfig) (m : ColumnMatrix config.allColumns)
    (entry : String × RoleValue) : Except Thrown (ColumnMatrix config.allColumns) :=
  match entry.2 with
  | .star => .ok (COL_VERBS.foldl (fun m verb => m.set entry.1 verb .all ColumnSet.within_all) m)
  | .verbs verbs =>
    .ok ((COL_VERBS.filter fun verb => verb.verb ∈ verbs).foldl
      (fun m verb => m.set entry.1 verb .all ColumnSet.within_all) m)
  | .byVerb value => COL_VERBS.foldlM (addVerbValue config entry.1 value) m

/-- One column of the column axis. -/
def addColumnSpec (config : MatrixConfig) (m : ColumnMatrix config.allColumns)
    (entry : String × ColumnSpec) : Except Thrown (ColumnMatrix config.allColumns) :=
  if h : entry.1 ∈ config.jsKeys then
    .ok (COL_VERBS.foldl (fun m verb =>
      ((entry.2 verb).getD []).foldl (grantColumn · (toSql config.columns entry.1) (toSql_mem h) verb) m) m)
  else
    .error (invalidColumn config ("columns block references unknown column \"" ++ entry.1 ++ "\""))

/-- A column that the role axis excludes and the column axis grants. -/
def conflict? (config : MatrixConfig) (role : String) (value : Verb → Option VerbValue) :
    Option (ColVerb × String) :=
  COL_VERBS.findSome? fun verb =>
    match value verb.verb with
    | some (.exclude names) =>
      (names.find? fun js =>
        match config.rawColumns.find? fun e => e.1 = js with
        | some e => role ∈ (e.2 verb).getD []
        | none => false).map fun js => (verb, js)
    | _ => none

def policyConflict (config : MatrixConfig) (role : String) (verb : ColVerb) (js : String) : Thrown :=
  .cdb
    { code := .policyConflict
      message := "cdbTable(\"" ++ config.tableName ++ "\"): role \"" ++ role ++ "\" verb \"" ++
        verb.verb.text ++ "\" excludes column \"" ++ js ++ "\" but the columns block grants it to \"" ++
        role ++ "\""
      hint := some "remove either the role-axis exclude or the column-axis grant" }

def assertNoConflict (config : MatrixConfig) (entry : String × RoleValue) : Except Thrown Unit :=
  match entry.2 with
  | .byVerb value =>
    match conflict? config entry.1 value with
    | some (verb, js) => .error (policyConflict config entry.1 verb js)
    | none => .ok ()
  | _ => .ok ()

/-- `compileColumnMatrix`. -/
def compileColumnMatrix (config : MatrixConfig) : Except Thrown (ColumnMatrix config.allColumns) := do
  let m ← config.rawRoles.foldlM (addRole config) (ColumnMatrix.empty config.allColumns)
  let m ← config.rawColumns.foldlM (addColumnSpec config) m
  config.rawRoles.forM (assertNoConflict config)
  pure m

end Chardb.Policy
