import Chardb.Auth.SqlRead
import Chardb.Lib.ExceptList
import Mathlib.Data.List.Infix
import Mathlib.Data.List.TakeWhile

/-!
# What the conditions of a read mean

A condition is a test of the value itself, or of its text folded on both sides alike. The tests of SQL
say the same where SQLite folds a text as JavaScript does, where a text whose end is tested has no
NUL, at which `length` and `substr` stop, and where a number that is not finite, which is bound as
`NULL`, is only compared for equality.
-/

namespace Chardb.Auth

open Chardb.Lib

variable {ν : Type} [SqlNumber ν]

/-! ## Meaning -/

def AuthScalar.nonFinite? {ν : Type} : AuthScalar ν → Option NonFinite
  | .nonFinite n => some n
  | .date none => some .nan
  | .null | .bool _ | .num _ | .str _ | .date (some _) | .json _ => none

/-- A value against a number that no column holds: numbers before texts, and none beside `NaN`. -/
def NonFinite.compareWith {ν : Type} (x : SqlValue ν) : NonFinite → Option Ordering
  | .nan => none
  | .posInf =>
    match x with
    | .null => none
    | .num _ => some .lt
    | .text _ => some .gt
  | .negInf =>
    match x with
    | .null => none
    | .num _ | .text _ => some .gt

/-- A value against the value of a condition. -/
def compareValue (column : AuthColumn ν) (x : SqlValue ν) (value : AuthScalar ν) : Option Ordering :=
  match value.nonFinite? with
  | some n => n.compareWith x
  | none => sqlCompare x (column.affinity (toSqlValue value))

section
variable (toLowerCase : String → String)

/-- A value against the value of a condition, both folded or neither. -/
def compareFolded (column : AuthColumn ν) (insensitive : Bool) (x : SqlValue ν)
    (value : AuthScalar ν) : Option Ordering :=
  if insensitive then
    match x.asText, value with
    | some s, .str p => some (compare (toLowerCase s).toList (toLowerCase p).toList)
    | _, _ => none
  else compareValue column x value

/-- The texts of a substring test, both folded or neither. -/
def FoldedTexts (insensitive : Bool) (x : SqlValue ν) (value : AuthScalar ν)
    (test : List Char → List Char → Prop) : Prop :=
  ∃ s p, x.asText = some s ∧ toSqlValue value = .text p ∧
    if insensitive then test (toLowerCase p).toList (toLowerCase s).toList
    else test p.toList s.toList

def ScalarHolds (column : AuthColumn ν) (operator : ScalarOperator) (value : AuthScalar ν)
    (insensitive : Bool) (x : SqlValue ν) : Prop :=
  let order := compareFolded toLowerCase column insensitive x value
  match operator with
  | .eq => if value.isNull then x = .null else order = some .eq
  | .ne => if value.isNull then x ≠ .null else x ≠ .null ∧ order ≠ some .eq
  | .lt => order = some .lt
  | .lte => order = some .lt ∨ order = some .eq
  | .gt => order = some .gt
  | .gte => order = some .gt ∨ order = some .eq
  | .contains => FoldedTexts toLowerCase insensitive x value fun p s => p <:+: s
  | .starts_with => FoldedTexts toLowerCase insensitive x value fun p s => p <+: s
  | .ends_with => FoldedTexts toLowerCase insensitive x value fun p s => p <:+ s

/-- Equal to a value of a list. -/
def InValues (column : AuthColumn ν) (values : List (AuthScalar ν)) (x : SqlValue ν) : Prop :=
  ∃ v ∈ values, compareValue column x v = some .eq

/-- A row satisfies a condition. `not_in` is the complement of `in` on values other than `NULL`. -/
def Holds (info : TableInfo ν) (row : Row ν) : AuthReadWhere ν → Prop
  | .scalar field operator value insensitive =>
    ∃ column, info.column? field = some column ∧
      ScalarHolds toLowerCase column operator value insensitive (row column.name)
  | .list field negated values =>
    ∃ column, info.column? field = some column ∧
      if negated then
        values = [] ∨ (row column.name ≠ .null ∧ ¬InValues column values (row column.name))
      else InValues column values (row column.name)

/-! ## Where the code means the same -/

/-- Both ways of folding give the same. -/
def FoldsAlike (x : SqlValue ν) : Prop := ∀ s, x.asText = some s → sqlLower s = toLowerCase s

def NulFree (x : SqlValue ν) : Prop := ∀ s, x.asText = some s → Char.ofNat 0 ∉ s.toList

/-- A number that no column holds, which is bound as `NULL`, is compared for equality, or it is `NaN`
and only ordered. -/
def BoundAlike {ν : Type} (operator : ScalarOperator) (value : AuthScalar ν) : Prop :=
  ∀ n, value.nonFinite? = some n → operator = .eq ∨ (operator ≠ .ne ∧ n = .nan)

/-- The text that is tested folds alike if it is folded and has no NUL if its end is tested, and no
value that must not be equal is bound as `NULL`. -/
def Faithful (info : TableInfo ν) (row : Row ν) : AuthReadWhere ν → Prop
  | .scalar field operator value insensitive =>
    BoundAlike operator value ∧
      ∀ column, info.column? field = some column →
        (insensitive = true → FoldsAlike toLowerCase (row column.name)) ∧
          (operator = .ends_with → NulFree (row column.name))
  | .list _ negated values => negated = true → ∀ v ∈ values, toSqlValue v ≠ .null

end

/-! ### SQLite's functions -/

section
variable {toLowerCase : String → String} {info : TableInfo ν} {row : Row ν}

/-- What the adapter lets through: a folded or substring condition has a string, and `null` is only
compared for equality. -/
def Accepted : AuthReadWhere ν → Prop
  | .scalar _ operator value insensitive =>
    (insensitive = true → ∃ s, value = .str s) ∧
      (operator.isSubstring = true → ∃ s, value = .str s) ∧
        (value = .null → operator = .eq ∨ operator = .ne)
  | .list _ _ _ => True

end

end Chardb.Auth
