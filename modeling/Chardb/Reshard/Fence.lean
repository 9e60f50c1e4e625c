import Chardb.Core.Errors
import Chardb.Core.Vshard
import Chardb.Lib.Table

/-!
# Routing fences

`CdbRoutingFenceStore`: the durable source-side fence of one physical vshard move.
A fence is `prepared`, `active`, `cleaned` or `superseded`; a cleaned fence stays as
a tombstone. The store sits in a database `FenceDb ω` whose other tables are `ω`, so
that `activate` can run its callback in the same transaction.
-/

namespace Chardb.Reshard

open Chardb.Lib

/-! ## Rows -/

inductive FenceStatus
  | prepared
  | active
  | cleaned
  | superseded
  deriving DecidableEq

structure CdbRoutingFenceIdentity where
  migrationId : String
  rangeLo : Int
  rangeHi : Int
  sourceGeneration : Int
  destinationGeneration : Int
  recoveryGeneration : Int
  deriving DecidableEq

/-- A row of `_chardb_routing_fences`. -/
structure CdbRoutingFence extends CdbRoutingFenceIdentity where
  status : FenceStatus
  preparedAt : Int
  activatedAt : Option Int
  cleanedAt : Option Int
  supersededAt : Option Int
  deriving DecidableEq

namespace CdbRoutingFence

/-- `a IS NULL OR a >= b`: a comparison with `NULL` passes a `CHECK`. -/
def nullOrGe : Option Int → Option Int → Bool
  | some a, some b => b ≤ a
  | _, _ => true

/-- The `CHECK` on the status and the three later timestamps. -/
def statusCheck (f : CdbRoutingFence) : Bool :=
  match f.status with
  | .prepared => f.activatedAt.isNone && f.cleanedAt.isNone && f.supersededAt.isNone
  | .active => f.activatedAt.isSome && f.cleanedAt.isNone && f.supersededAt.isNone
  | .cleaned => f.activatedAt.isSome && f.cleanedAt.isSome && f.supersededAt.isNone
  | .superseded => f.activatedAt.isSome && f.cleanedAt.isSome && f.supersededAt.isSome

/-- The `CHECK` constraints of the table. -/
def check (f : CdbRoutingFence) : Prop :=
  (0 ≤ f.rangeLo ∧ f.rangeLo < VSHARD_COUNT) ∧
  (f.rangeLo ≤ f.rangeHi ∧ f.rangeHi < VSHARD_COUNT) ∧
  1 ≤ f.sourceGeneration ∧
  f.destinationGeneration = f.sourceGeneration + 1 ∧
  0 ≤ f.recoveryGeneration ∧
  0 ≤ f.preparedAt ∧
  nullOrGe f.activatedAt (some f.preparedAt) = true ∧
  nullOrGe f.cleanedAt f.activatedAt = true ∧
  nullOrGe f.supersededAt f.cleanedAt = true ∧
  f.statusCheck = true

instance : DecidablePred check := fun _ => inferInstanceAs (Decidable (_ ∧ _))

/-- A fence that still owns its range. -/
def live (f : CdbRoutingFence) : Bool := f.status ≠ .superseded

/-- The range of the fence contains `v`. -/
def covers (f : CdbRoutingFence) (v : Int) : Prop := f.rangeLo ≤ v ∧ v ≤ f.rangeHi

instance (f : CdbRoutingFence) (v : Int) : Decidable (f.covers v) :=
  inferInstanceAs (Decidable (_ ∧ _))

/-- The two ranges share no vshard. -/
def disjoint (f g : CdbRoutingFence) : Prop := f.rangeHi < g.rangeLo ∨ g.rangeHi < f.rangeLo

end CdbRoutingFence

abbrev FenceTable := Table (fun f : CdbRoutingFence => f.migrationId) CdbRoutingFence.check

/-- A database with a fence table; `ω` is everything else in it. -/
structure FenceDb (ω : Type) where
  fences : FenceTable
  rest : ω

def CDB_ROUTING_FENCE_MAX_ROWS : Int := VSHARD_COUNT

section
variable {ω σ α : Type}

/-- A program over the fence table. -/
def onFences (x : Tx Thrown FenceTable α) : Tx Thrown (FenceDb ω) α :=
  .zoom FenceDb.fences (fun db t => { db with fences := t }) x

/-- A program over the other tables. -/
def onRest (x : Tx Thrown ω α) : Tx Thrown (FenceDb ω) α :=
  .zoom FenceDb.rest (fun db t => { db with rest := t }) x

@[simp] theorem onFences_returns {x : Tx Thrown FenceTable α} {db db' : FenceDb ω} {a : α} :
    (onFences x).Returns db a db' ↔
      ∃ t, x.Returns db.fences a t ∧ db' = { db with fences := t } := Tx.zoom_returns

@[simp] theorem onRest_returns {x : Tx Thrown ω α} {db db' : FenceDb ω} {a : α} :
    (onRest x).Returns db a db' ↔
      ∃ r, x.Returns db.rest a r ∧ db' = { db with rest := r } := Tx.zoom_returns

/-! ## Errors and argument checks -/

def staleFence (message : String) : Thrown :=
  .cdb { code := .staleEpoch, message, hint := some "retry after reading the current reshard state" }

def corruptFence (message : String) : Thrown := invariantError message

/-- SQLite refuses a statement on the fence table. -/
def fenceConstraint : Thrown := .constraint "_chardb_routing_fences"

def assertVshard (value : Int) : Tx Thrown σ Unit :=
  .require (IsVshard value) (invalidArgs "routing fence vshard is invalid")

def assertGeneration (value : Int) (subject : String) : Tx Thrown σ Unit :=
  .require (IsGeneration value) (invalidArgs (subject ++ " is invalid"))

def assertRecoveryGeneration (value : Int) : Tx Thrown σ Unit :=
  .require (IsCounter value) (invalidArgs "routing fence recovery generation is invalid")

def assertTimestamp (value : Int) : Tx Thrown σ Unit :=
  .require (IsCounter value) (invalidArgs "routing fence timestamp is invalid")

def assertIdentity (identity : CdbRoutingFenceIdentity) : Tx Thrown σ Unit := do
  .require (isMigrationId identity.migrationId) (invalidArgs "routing fence migration id is invalid")
  assertVshard identity.rangeLo
  assertVshard identity.rangeHi
  .require (identity.rangeLo ≤ identity.rangeHi) (invalidArgs "routing fence range is invalid")
  assertGeneration identity.sourceGeneration "routing fence source generation"
  assertGeneration identity.destinationGeneration "routing fence destination generation"
  assertRecoveryGeneration identity.recoveryGeneration
  .require (identity.destinationGeneration = identity.sourceGeneration + 1)
    (invalidArgs "routing fence destination generation must immediately follow its source generation")

def assertSameIdentity (stored : CdbRoutingFence) (input : CdbRoutingFenceIdentity) :
    Tx Thrown σ Unit :=
  .require (stored.toCdbRoutingFenceIdentity = input)
    (staleFence "routing fence migration id belongs to a different immutable identity")

/-- The checks of `parseFence` on a stored row. -/
def FenceParses (row : CdbRoutingFence) : Prop :=
  isMigrationId row.migrationId = true ∧
  IsSafeInteger row.rangeLo ∧ IsSafeInteger row.rangeHi ∧
  0 ≤ row.rangeLo ∧ row.rangeLo ≤ row.rangeHi ∧ row.rangeHi < VSHARD_COUNT ∧
  IsGeneration row.sourceGeneration ∧
  row.destinationGeneration = row.sourceGeneration + 1 ∧
  IsCounter row.recoveryGeneration

instance (row : CdbRoutingFence) : Decidable (FenceParses row) :=
  inferInstanceAs (Decidable (_ ∧ _))

def parseFence (row : CdbRoutingFence) : Tx Thrown σ CdbRoutingFence := do
  .require (FenceParses row) (corruptFence "stored routing fence is malformed")
  pure row

/-! ## Queries -/

def byMigrationId (migrationId : String) : Tx Thrown (FenceDb ω) (Option CdbRoutingFence) := do
  let row ← .gets fun db => db.fences.find? migrationId
  match row with
  | some row => do
    let fence ← parseFence row
    pure (some fence)
  | none => pure none

def required (migrationId : String) : Tx Thrown (FenceDb ω) CdbRoutingFence := do
  let fence ← byMigrationId migrationId
  .ofOption fence (staleFence "routing fence was not prepared on this Cdb")

/-- `ORDER BY range_lo, range_hi, source_generation`. -/
def rangeOrder (f g : CdbRoutingFence) : Bool :=
  f.rangeLo < g.rangeLo || (f.rangeLo == g.rangeLo &&
    (f.rangeHi < g.rangeHi || (f.rangeHi == g.rangeHi && f.sourceGeneration ≤ g.sourceGeneration)))

/-- `ORDER BY source_generation DESC`. -/
def newestFirst (f g : CdbRoutingFence) : Bool := g.sourceGeneration ≤ f.sourceGeneration

/-- The live rows that meet `[lo, hi]`. -/
def FenceTable.overlapping (t : FenceTable) (lo hi : Int) : List CdbRoutingFence :=
  (t.select fun f => f.live && decide (f.rangeLo ≤ hi) && decide (lo ≤ f.rangeHi)).insertionSort
    (rangeOrder · ·)

/-- The first two rows over `v` that pass `p`, newest first. -/
def FenceTable.over (t : FenceTable) (v : Int) (p : CdbRoutingFence → Bool) :
    List CdbRoutingFence :=
  ((t.select fun f => decide (f.covers v) && p f).insertionSort (newestFirst · ·)).take 2

def overlapping (rangeLo rangeHi : Int) : Tx Thrown (FenceDb ω) (List CdbRoutingFence) := do
  let rows ← .gets fun db => db.fences.overlapping rangeLo rangeHi
  rows.mapM parseFence

/-- The activated source fence, its cleaned tombstone included. -/
def activeSourceFence (vshard : Int) : Tx Thrown (FenceDb ω) (Option CdbRoutingFence) := do
  assertVshard vshard
  let rows ← .gets fun db =>
    db.fences.over vshard fun f => f.status = .active || f.status = .cleaned
  .require (rows.length ≤ 1) (corruptFence "multiple active routing fences overlap one vshard")
  match rows with
  | row :: _ => do
    let fence ← parseFence row
    pure (some fence)
  | [] => pure none

/-- What a fence answers to a mutation of generation `schemaEpoch`. -/
def fenceAdmits (fence : CdbRoutingFence) (schemaEpoch : Int) : Prop :=
  fence.status = .prepared ∧ schemaEpoch = fence.sourceGeneration

instance (fence : CdbRoutingFence) (schemaEpoch : Int) : Decidable (fenceAdmits fence schemaEpoch) :=
  inferInstanceAs (Decidable (_ ∧ _))

def staleGeneration (fence : CdbRoutingFence) (schemaEpoch : Int) : Thrown :=
  let relation :=
    if schemaEpoch ≤ fence.destinationGeneration then "is no longer admitted by this source"
    else "is newer than this source fence recognizes"
  .cdb
    { code := .staleEpoch
      message := "mutation routing generation " ++ toString schemaEpoch ++ " " ++ relation
      hint := some "retry after resolving the active vshard placement from Catalog" }

def assertMutationAdmission (schemaEpoch vshard : Int) : Tx Thrown (FenceDb ω) Unit := do
  assertGeneration schemaEpoch "mutation routing generation"
  assertVshard vshard
  let fences ← .gets fun db => db.fences.over vshard fun f => f.live
  .require (fences.length ≤ 1) (corruptFence "multiple routing fences overlap one vshard")
  match fences with
  | [] => pure ()
  | row :: _ => do
    let fence ← parseFence row
    .require (fenceAdmits fence schemaEpoch) (staleGeneration fence schemaEpoch)

/-! ## Calls that change the table -/

/-- An `UPDATE` of the row of one migration in one of the given statuses; it must change the row. -/
def setStatus (migrationId : String) (among : FenceStatus → Bool)
    (change : CdbRoutingFence → CdbRoutingFence) (lost : String) : Tx Thrown (FenceDb ω) Unit := do
  let changes ← onFences (Table.update (fun f => f.migrationId = migrationId && among f.status) change
    fenceConstraint)
  .require (changes = 1) (staleFence lost)

/-- `prepare` retires at most one tombstone, of the same range and an older generation. -/
def supersedePrior (identity : CdbRoutingFenceIdentity) (nowMs : Int)
    (overlaps : List CdbRoutingFence) : Tx Thrown (FenceDb ω) Unit :=
  let owned := staleFence "another routing fence owns an overlapping vshard range"
  match overlaps with
  | [] => pure ()
  | [prior] => do
    .require (prior.status = .cleaned ∧ prior.rangeLo = identity.rangeLo ∧
      prior.rangeHi = identity.rangeHi ∧ prior.destinationGeneration < identity.sourceGeneration)
      owned
    setStatus prior.migrationId (· = .cleaned)
      (fun f => { f with status := .superseded, supersededAt := some nowMs })
      "routing fence changed before supersession"
  | _ :: _ :: _ => .throw owned

def preparedFence (identity : CdbRoutingFenceIdentity) (nowMs : Int) : CdbRoutingFence :=
  { identity with
    status := .prepared, preparedAt := nowMs, activatedAt := none, cleanedAt := none,
    supersededAt := none }

/-- The transaction of `prepare`. -/
def prepareRow (identity : CdbRoutingFenceIdentity) (nowMs : Int) :
    Tx Thrown (FenceDb ω) CdbRoutingFence := do
  let existing ← byMigrationId identity.migrationId
  match existing with
  | some existing => do
    assertSameIdentity existing identity
    pure existing
  | none => do
    let count ← .gets fun db => (db.fences.count : Int)
    .require (count < CDB_ROUTING_FENCE_MAX_ROWS) (.cdb
      { code := .rateLimited
        message := "Cdb routing fence history reached its durable row limit"
        hint := some "stop resharding this Cdb and inspect its retained migration history" })
    let overlaps ← overlapping identity.rangeLo identity.rangeHi
    supersedePrior identity nowMs overlaps
    onFences (Table.insert (preparedFence identity nowMs) fenceConstraint)
    required identity.migrationId

def prepare (identity : CdbRoutingFenceIdentity) (nowMs : Int) :
    Tx Thrown (FenceDb ω) CdbRoutingFence := do
  assertIdentity identity
  assertTimestamp nowMs
  .transactionSync (prepareRow identity nowMs)

/-- The transaction of `activate`. -/
def activateRow (identity : CdbRoutingFenceIdentity) (nowMs : Int)
    (onActivated : Tx Thrown ω Unit) :
    Tx Thrown (FenceDb ω) Unit := do
  let current ← required identity.migrationId
  assertSameIdentity current identity
  if current.status = .prepared then do
    setStatus identity.migrationId (· = .prepared)
      (fun f => { f with status := .active, activatedAt := some (max nowMs current.preparedAt) })
      "routing fence changed before activation"
    onRest onActivated
  else pure ()

def activate (identity : CdbRoutingFenceIdentity) (nowMs : Int)
    (onActivated : Tx Thrown ω Unit) : Tx Thrown (FenceDb ω) CdbRoutingFence := do
  assertIdentity identity
  assertTimestamp nowMs
  .transactionSync (activateRow identity nowMs onActivated)
  required identity.migrationId

/-- The transaction of `cleanup`. -/
def cleanupRow (identity : CdbRoutingFenceIdentity) (nowMs : Int) :
    Tx Thrown (FenceDb ω) Unit := do
  let current ← required identity.migrationId
  assertSameIdentity current identity
  if current.status = .cleaned ∨ current.status = .superseded then pure ()
  else do
    .require (current.status = .active) (phaseMismatch "routing fence cleanup requires an active fence")
    let activatedAt ← .ofOption current.activatedAt
      (phaseMismatch "routing fence cleanup requires an active fence")
    setStatus identity.migrationId (· = .active)
      (fun f => { f with status := .cleaned, cleanedAt := some (max nowMs activatedAt) })
      "routing fence changed before cleanup"

def cleanup (identity : CdbRoutingFenceIdentity) (nowMs : Int) :
    Tx Thrown (FenceDb ω) CdbRoutingFence := do
  assertIdentity identity
  assertTimestamp nowMs
  .transactionSync (cleanupRow identity nowMs)
  required identity.migrationId

/-- The transaction of `cancelBeforeCutover`. -/
def cancelRow (identity : CdbRoutingFenceIdentity) (nowMs : Int) :
    Tx Thrown (FenceDb ω) Unit := do
  let current ← byMigrationId identity.migrationId
  match current with
  | none => pure ()
  | some current => do
    assertSameIdentity current identity
    if current.status = .superseded then pure ()
    else do
      .require (current.status ≠ .cleaned)
        (phaseMismatch "a cleaned routing fence cannot cancel before cutover")
      let activatedAt := max (current.activatedAt.getD nowMs) current.preparedAt
      let cleanedAt := max nowMs activatedAt
      setStatus identity.migrationId (fun s => s = .prepared || s = .active)
        (fun f => { f with
          status := .superseded, activatedAt := some activatedAt, cleanedAt := some cleanedAt,
          supersededAt := some cleanedAt })
        "routing fence changed before cancellation"

/-- Cancel a fence only after Catalog has durably rejected cutover for this operation. -/
def cancelBeforeCutover (identity : CdbRoutingFenceIdentity) (nowMs : Int) :
    Tx Thrown (FenceDb ω) (Option CdbRoutingFence) := do
  assertIdentity identity
  assertTimestamp nowMs
  .transactionSync (cancelRow identity nowMs)
  byMigrationId identity.migrationId

/-- One call on the store. -/
inductive FenceCall (ω : Type)
  | prepare (identity : CdbRoutingFenceIdentity) (nowMs : Int)
  | activate (identity : CdbRoutingFenceIdentity) (nowMs : Int) (onActivated : Tx Thrown ω Unit)
  | cleanup (identity : CdbRoutingFenceIdentity) (nowMs : Int)
  | cancelBeforeCutover (identity : CdbRoutingFenceIdentity) (nowMs : Int)

/-- The call as a program; it answers the fence of its migration, if there is one. -/
def FenceCall.exec : FenceCall ω → Tx Thrown (FenceDb ω) (Option CdbRoutingFence)
  | .prepare identity nowMs => some <$> Reshard.prepare identity nowMs
  | .activate identity nowMs onActivated => some <$> Reshard.activate identity nowMs onActivated
  | .cleanup identity nowMs => some <$> Reshard.cleanup identity nowMs
  | .cancelBeforeCutover identity nowMs => Reshard.cancelBeforeCutover identity nowMs

/-- The database after a sequence of calls, some of which may throw. -/
def FenceDb.run (db : FenceDb ω) (calls : List (FenceCall ω)) : FenceDb ω :=
  calls.foldl (fun db c => c.exec.after db) db

end

end Chardb.Reshard
