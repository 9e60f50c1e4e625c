import Mathlib.Order.Basic
import Mathlib.Algebra.Order.Ring.Int

/-!
# Numbers and virtual shards

JavaScript numbers appear as integers. `IsSafeInteger` is `Number.isSafeInteger`;
a fraction or a `NaN` fails it as an integer out of range does. Vshards are the
integers below `VSHARD_COUNT`, ranges are inclusive at both ends.
-/

namespace Chardb

def MAX_SAFE_INTEGER : Int := 9007199254740991

/-- `Number.isSafeInteger`. -/
def IsSafeInteger (n : Int) : Prop := -MAX_SAFE_INTEGER ≤ n ∧ n ≤ MAX_SAFE_INTEGER

instance (n : Int) : Decidable (IsSafeInteger n) := inferInstanceAs (Decidable (_ ∧ _))

theorem IsSafeInteger.natAbs_lt {i : Int} (h : IsSafeInteger i) : i.natAbs < 2 ^ 53 := by
  unfold IsSafeInteger MAX_SAFE_INTEGER at h; omega

def VSHARD_COUNT : Int := 16384

/-- A vshard number the routing surface accepts. -/
def IsVshard (v : Int) : Prop := IsSafeInteger v ∧ 0 ≤ v ∧ v < VSHARD_COUNT

instance (v : Int) : Decidable (IsVshard v) := inferInstanceAs (Decidable (_ ∧ _))

/-- A routing generation: a safe integer from 1 on. -/
def IsGeneration (n : Int) : Prop := IsSafeInteger n ∧ 1 ≤ n

instance (n : Int) : Decidable (IsGeneration n) := inferInstanceAs (Decidable (_ ∧ _))

/-- A safe integer from 0 on: timestamps, recovery generations, cursors. -/
def IsCounter (n : Int) : Prop := IsSafeInteger n ∧ 0 ≤ n

instance (n : Int) : Decidable (IsCounter n) := inferInstanceAs (Decidable (_ ∧ _))

/-- `/^[A-Za-z0-9]T{0,127}$/` for a class `T` of characters. -/
def isIdOver (tail : Char → Bool) (s : String) : Bool :=
  match s.toList with
  | [] => false
  | c :: cs => c.isAlphanum && decide (cs.length ≤ 127) && cs.all tail

/-- `/^[A-Za-z0-9][A-Za-z0-9._:-]{0,127}$/`, the shape of shard and fence ids. -/
def isMigrationId : String → Bool :=
  isIdOver fun c => c.isAlphanum || c == '.' || c == '_' || c == ':' || c == '-'

/-- `/^[A-Za-z0-9][A-Za-z0-9_-]{0,127}$/`, the shape of the Resharder's migration ids. -/
def isResharderMigId : String → Bool :=
  isIdOver fun c => c.isAlphanum || c == '_' || c == '-'

end Chardb
