import Chardb.Core.Errors
import Chardb.Core.Vshard
import Chardb.Lib.Table

/-!
# The split-state table

`_chardb_split_state` has one row per migration a shard takes part in. A row that is
inserted takes the defaults of the table for the columns that are not given.
-/

namespace Chardb.Reshard

open Chardb.Lib

inductive SplitRole
  | source
  | dest
  deriving DecidableEq

def SplitRole.text : SplitRole → String
  | .source => "source"
  | .dest => "dest"

/-- A row of `_chardb_split_state`; flags are the 0/1 columns. -/
structure SplitStateRow where
  migId : String
  rangeLo : Int
  rangeHi : Int
  role : SplitRole
  capture : Bool := false
  bulkDone : Bool := false
  appliedLsn : Int := 0
  ackedLsn : Int := 0
  splitLogRows : Int := 0
  splitLogBytes : Int := 0
  captureTxId : Option Int := none
  captureTxRows : Int := 0
  captureTxBytes : Int := 0
  drainStarted : Bool := false
  abortStarted : Bool := false
  stagedLsn : Int := 0
  inboxRows : Int := 0
  inboxBytes : Int := 0
  inboxClosed : Bool := false
  destinationGeneration : Option Int := none
  destinationServing : Bool := false
  drained : Bool := false
  updatedAt : Int
  deriving DecidableEq

/-- The `CHECK` constraints of the table. -/
def SplitStateRow.check (r : SplitStateRow) : Prop :=
  0 ≤ r.ackedLsn ∧ 0 ≤ r.splitLogRows ∧ 0 ≤ r.splitLogBytes ∧ 0 ≤ r.captureTxRows ∧
    0 ≤ r.captureTxBytes ∧ 0 ≤ r.stagedLsn ∧ 0 ≤ r.inboxRows ∧ 0 ≤ r.inboxBytes ∧
      r.destinationGeneration.all (0 < ·) = true

instance : DecidablePred SplitStateRow.check := fun _ => inferInstanceAs (Decidable (_ ∧ _))

abbrev SplitStateTable := Table SplitStateRow.migId SplitStateRow.check

/-- The row counts as an active split. -/
def SplitStateRow.active (r : SplitStateRow) : Bool := !r.drained

/-- A vshard lies in the range of the row. -/
def SplitStateRow.covers (r : SplitStateRow) (vshard : Int) : Bool :=
  r.rangeLo ≤ vshard && vshard ≤ r.rangeHi

end Chardb.Reshard
