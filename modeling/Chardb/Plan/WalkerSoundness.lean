import Chardb.Plan.WalkerOutcome

/-!
# Soundness of the walker

On a row for which a condition is true, the column lies in the intervals of the walker and
has one of its values: as long as operands that meet agree, values are encoded by their
column and no fragment breaks out of a conjunction with an `or` of its own. Parts of a condition
that say nothing about the column may be anything.
-/

namespace Chardb.Plan

open Chardb.Lib

variable {ν : Type}

/-! ## Conditions -/

/-- The bound values of a chunk. -/
def SqlChunk.bound : SqlChunk ν → List (Param ν)
  | .param p => [p]
  | .array items => (paramsOf items).getD []
  | _ => []

section
variable [LinearOrder ν]

end

/-! ## Soundness -/

section
variable [LinearOrder ν]

theorem Outcome.covers {enc : Encoding ν} {cell : Option (StoredValue ν)} {info : PartitionInfo ν}
    {fams : Option (List (Operands ν))} (h : Outcome enc cell info fams) :
    info.intervals.Covers enc cell := by
  rcases h with ⟨-, rfl⟩ | ⟨x, hx, fs, f, -, -, hhas⟩
  · trivial
  · obtain ⟨is, his, i, hi, hcontains, -⟩ := hhas.intervals
    rw [his]
    exact ⟨x, hx, i, hi, hcontains⟩

/-- The partition key of an intent has the values that the walker found. -/
theorem buildIntent_partitionKey {tables : List String} {condition : Sql ν} {kind : IntentKind}
    {partitionMap : List (String × String)} {key : PartitionKey ν}
    (h : (buildIntent ⟨tables, some condition⟩ kind partitionMap).partitionKey = some key) :
    ∃ vs, (predicateInfo (walk key.table key.column condition)).values = some vs ∧
      key.values = distinct vs := by
  unfold buildIntent at h
  simp only at h
  split at h
  · rename_i condition' table column hwhere _
    obtain rfl := Option.some.inj hwhere
    split at h
    · rename_i vs hvs
      obtain rfl := Option.some.inj h
      obtain ⟨us, hus, hne⟩ := Option.bind_eq_some_iff.mp hvs
      exact ⟨us, hus, by rw [nonempty?_eq_some hne]⟩
    · cases h
  · cases h

end

/-- A text column keeps texts as they are. -/
def encodeText : ParamValue ν → Option (StoredValue ν)
  | .text s => some (.text s)
  | _ => none

def noRaw : Sql Int → Alternatives Int := fun _ => []

section
variable {operator : String} {op : AtomOp} (text : String)

end

end Chardb.Plan
