import Mathlib.Data.Sum.Order
import Mathlib.Data.String.Basic
import Mathlib.Data.List.Lex
import Mathlib.Order.Basic

/-!
# The order of stored values

A column holds null, a number, a text or a blob. Numbers come before texts and texts
before blobs; texts compare by code points, which is the order of their UTF-8 bytes. A
comparison with null is unknown.
-/

namespace Chardb.Lib

/-- A stored value that is not null. -/
inductive StoredValue (ν : Type)
  | number (x : ν)
  | text (s : String)
  | blob (bytes : List Nat)
  deriving DecidableEq

variable {ν : Type}

/-- Where a value stands among the storage classes. -/
def StoredValue.place : StoredValue ν → ν ⊕ₗ String ⊕ₗ List Nat
  | .number x => Sum.inlₗ x
  | .text s => Sum.inrₗ (Sum.inlₗ s)
  | .blob bytes => Sum.inrₗ (Sum.inrₗ bytes)

theorem StoredValue.place_injective : Function.Injective (StoredValue.place (ν := ν)) := by
  intro a b h
  cases a <;> cases b <;> simp_all [StoredValue.place, Sum.inlₗ, Sum.inrₗ]

instance [LinearOrder ν] : LinearOrder (StoredValue ν) :=
  LinearOrder.lift' StoredValue.place StoredValue.place_injective

/-- The comparison operators. -/
inductive CompareOp
  | eq
  | ne
  | gt
  | gte
  | lt
  | lte
  deriving DecidableEq

section
variable {α : Type} [LinearOrder α]

def CompareOp.holds (op : CompareOp) (a b : α) : Bool :=
  match op with
  | .eq => a = b
  | .ne => a ≠ b
  | .gt => b < a
  | .gte => b ≤ a
  | .lt => a < b
  | .lte => a ≤ b

/-- A comparison; unknown on null. -/
def compareSql (op : CompareOp) : Option α → Option α → Option Bool
  | some a, some b => some (op.holds a b)
  | _, _ => none

end

end Chardb.Lib
