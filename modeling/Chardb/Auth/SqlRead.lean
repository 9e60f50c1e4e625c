import Chardb.Core.Errors
import Mathlib.Order.Basic

/-!
# Reads of the auth tables

`whereToReadFilters` takes the conditions of a read from the auth library, `bindReadWhere` compiles
them to tests of SQL, and `SqlTest.eval` is what SQLite makes of a test: `none` is `NULL`. SQLite
folds the case of ASCII letters, JavaScript that of all letters.
-/

namespace Chardb.Auth

/-! ## Values -/

/-- Numbers of a database, all finite: their order, their text, and those of `false` and `true`. -/
class SqlNumber (ν : Type) extends LinearOrder ν where
  text : ν → String
  ofBool : Bool → ν

inductive SqlValue (ν : Type)
  | null
  | num (n : ν)
  | text (s : String)
  deriving DecidableEq

/-- A number of JavaScript that no column holds. -/
inductive NonFinite
  | nan
  | posInf
  | negInf
  deriving DecidableEq

/-- A value of a condition; `json` is an array or object by its JSON text, and a date without a time
is an invalid one. -/
inductive AuthScalar (ν : Type)
  | null
  | bool (b : Bool)
  | num (n : ν)
  | nonFinite (n : NonFinite)
  | str (s : String)
  | date (time : Option ν)
  | json (text : String)

inductive ScalarOperator
  | eq
  | ne
  | lt
  | lte
  | gt
  | gte
  | contains
  | starts_with
  | ends_with
  deriving DecidableEq

inductive AuthReadWhere (ν : Type)
  | scalar (field : String) (operator : ScalarOperator) (value : AuthScalar ν) (insensitive : Bool)
  /-- `in`, or `not_in` when negated. -/
  | list (field : String) (negated : Bool) (values : List (AuthScalar ν))

/-- A column: its name, and what a comparison with it makes of a bound value. -/
structure AuthColumn (ν : Type) where
  name : String
  affinity : SqlValue ν → SqlValue ν
  affinity_null : ∀ v, affinity v = .null ↔ v = .null

/-- The columns under the keys of the model. -/
structure TableInfo (ν : Type) where
  name : String
  columns : List (String × AuthColumn ν)

def TableInfo.column? {ν : Type} (info : TableInfo ν) (field : String) : Option (AuthColumn ν) :=
  (info.columns.find? fun c => c.1 = field).map Prod.snd

/-- The values of a row by the names of its columns. -/
abbrev Row (ν : Type) : Type := String → SqlValue ν

variable {ν : Type}

/-! ## The conditions of a read -/

def ScalarOperator.ofText? : String → Option ScalarOperator
  | "eq" => some .eq
  | "ne" => some .ne
  | "lt" => some .lt
  | "lte" => some .lte
  | "gt" => some .gt
  | "gte" => some .gte
  | "contains" => some .contains
  | "starts_with" => some .starts_with
  | "ends_with" => some .ends_with
  | _ => none

def ScalarOperator.text : ScalarOperator → String
  | .eq => "eq"
  | .ne => "ne"
  | .lt => "lt"
  | .lte => "lte"
  | .gt => "gt"
  | .gte => "gte"
  | .contains => "contains"
  | .starts_with => "starts_with"
  | .ends_with => "ends_with"

/-- One of the three tests of substrings. -/
def ScalarOperator.isSubstring : ScalarOperator → Bool
  | .contains | .starts_with | .ends_with => true
  | .eq | .ne | .lt | .lte | .gt | .gte => false

def AuthScalar.isNull : AuthScalar ν → Bool
  | .null => true
  | .bool _ | .num _ | .nonFinite _ | .str _ | .date _ | .json _ => false

/-- A column, or `lower` of one. -/
structure Operand (ν : Type) where
  column : AuthColumn ν
  lower : Bool

inductive Comparison
  | eq
  | ne
  | lt
  | lte
  | gt
  | gte

inductive SqlTest (ν : Type)
  /-- `0=1` and `1=1`. -/
  | constant (b : Bool)
  | inList (negated : Bool) (column : AuthColumn ν) (params : List (SqlValue ν))
  | isNull (negated : Bool) (column : AuthColumn ν)
  | compare (op : Comparison) (operand : Operand ν) (param : SqlValue ν)
  /-- `instr(operand, ?) > 0`. -/
  | instrPositive (operand : Operand ν) (param : String)
  /-- `instr(operand, ?) = 1`. -/
  | instrOne (operand : Operand ν) (param : String)
  /-- `substr(operand, length(operand) - length(?) + 1) = ?`. -/
  | tail (operand : Operand ν) (param : String)

variable [SqlNumber ν]

/-- The value that is bound; SQLite takes `NaN` for `NULL`. -/
def toSqlValue : AuthScalar ν → SqlValue ν
  | .null => .null
  | .bool b => .num (SqlNumber.ofBool b)
  | .num n => .num n
  | .nonFinite _ => .null
  | .str s => .text s
  | .date (some time) => .num time
  | .date none => .null
  | .json text => .text text

section
variable (toLowerCase : String → String)

end

/-! ## What SQLite makes of a test -/

/-- `lower` folds ASCII letters. -/
def sqlLower (s : String) : String := String.ofList (s.toList.map Char.toLower)

def SqlValue.asText : SqlValue ν → Option String
  | .null => none
  | .num n => some (SqlNumber.text n)
  | .text s => some s

/-- Numbers before texts, texts by their characters; `none` with `NULL`. -/
def sqlCompare : SqlValue ν → SqlValue ν → Option Ordering
  | .null, _ | _, .null => none
  | .num a, .num b => some (compare a b)
  | .num _, .text _ => some .lt
  | .text _, .num _ => some .gt
  | .text a, .text b => some (compare a.toList b.toList)

def Comparison.holds : Comparison → Ordering → Bool
  | .eq, o => o = .eq
  | .ne, o => o ≠ .eq
  | .lt, o => o = .lt
  | .lte, o => o ≠ .gt
  | .gt, o => o = .gt
  | .gte, o => o ≠ .lt

/-- The characters before the first NUL. -/
def beforeNul (cs : List Char) : List Char := cs.takeWhile fun c => c ≠ Char.ofNat 0

def sqlLength (cs : List Char) : Nat := (beforeNul cs).length

/-- The first place of `needle`, from 1; 0 if there is none. -/
def instr (needle : List Char) : List Char → Nat
  | [] => if needle = [] then 1 else 0
  | c :: cs =>
    if needle.isPrefixOf (c :: cs) then 1
    else if instr needle cs = 0 then 0 else instr needle cs + 1

/-- `substr` without a length: from a place on, counted from the end if negative. -/
def substr (cs : List Char) (start : Int) : List Char :=
  let text := beforeNul cs
  if 0 < start then text.drop (start.toNat - 1)
  else if start = 0 then text
  else text.drop (text.length + start).toNat

def Operand.text (operand : Operand ν) (row : Row ν) : Option String :=
  (row operand.column.name).asText.map fun s => if operand.lower then sqlLower s else s

/-- The sides of a comparison: a column converts the bound value, an expression does not. -/
def compareOperand (operand : Operand ν) (row : Row ν) (param : SqlValue ν) : Option Ordering :=
  if operand.lower then
    (operand.text row).bind fun s => sqlCompare (.text s) param
  else sqlCompare (row operand.column.name) (operand.column.affinity param)

/-- `x = y₁ OR x = y₂ …` over `NULL`. -/
def inParams (x : SqlValue ν) : List (SqlValue ν) → Option Bool
  | [] => some false
  | y :: ys =>
    match sqlCompare x y with
    | some .eq => some true
    | some _ => inParams x ys
    | none => (inParams x ys).bind fun b => if b then some true else none

def SqlTest.eval (row : Row ν) : SqlTest ν → Option Bool
  | .constant b => some b
  | .inList negated column params =>
    (inParams (row column.name) (params.map column.affinity)).map fun b => b != negated
  | .isNull negated column => some (((row column.name).asText.isNone) != negated)
  | .compare op operand param => (compareOperand operand row param).map op.holds
  | .instrPositive operand param =>
    (operand.text row).map fun s => 0 < instr param.toList s.toList
  | .instrOne operand param => (operand.text row).map fun s => instr param.toList s.toList = 1
  | .tail operand param =>
    (operand.text row).map fun s =>
      substr s.toList (sqlLength s.toList - sqlLength param.toList + 1 : Int) = param.toList

/-- A row in the result: every test is true. -/
def passes (tests : List (SqlTest ν)) (row : Row ν) : Bool :=
  tests.all fun test => test.eval row = some true

/-! ## Results -/

def idColumn (info : TableInfo ν) : Except Thrown (AuthColumn ν) :=
  match info.column? "id" with
  | some column => .ok column
  | none => .error (.error ("auth/sql: table " ++ info.name ++
      " has no id column for deterministic paging"))

def page (limit offset : Option Nat) (rows : List (Row ν)) : List (Row ν) :=
  match limit with
  | some n => (rows.drop (offset.getD 0)).take n
  | none => rows.drop (offset.getD 0)

section
variable (toLowerCase : String → String)

end

end Chardb.Auth
