import Chardb.Resharder.Start

/-!
# The phase machine

`advance`, the atomic blocks of `abort`, the last transaction of the abort cleanup
and the two transactions of legacy recovery, with the start blocks beside them.
`PhaseStep` lists what a returning call does to the phases; `StepSafe` is what one
call may do to them, and it fails exactly for an `advance` out of `SOURCE_DRAINED`.
-/

namespace Chardb.Resharder

open Chardb.Lib

/-! ## The calls -/

/-- `UPDATE migration_work_cursor SET turn = 0, bulk_table_index = 0`. -/
def resetWorkCursor (migId : String) (nowMs : Int) : ResharderTx Nat :=
  onWorkCursors (Table.update (fun r => r.migId = migId)
    (fun r => { r with turn := 0, bulkTableIndex := 0, updatedAt := nowMs })
    (.constraint "migration_work_cursor"))

def phaseExpected (migId : String) (expected actual : Int) : Thrown :=
  phaseMismatch ("migId=" ++ migId ++ " expected=" ++ toString expected ++ " actual=" ++
    toString actual)

/-- `advance` on the row it has found. -/
def advanceRow (migId : String) (expected : Option Int) (nowMs : Int) (row : MigrationRow) :
    ResharderTx Int := do
  .require (row.phase ≠ ABORTING ∧ row.phase ≠ ABORTED)
    (phaseMismatch ("migId=" ++ migId ++ " cannot advance while aborting or aborted"))
  .require (∀ phase ∈ expected, row.phase = phase)
    (phaseExpected migId (expected.getD row.phase) row.phase)
  let _ ← onMigrations (Table.update (fun r => r.migId = migId)
    (fun r => { r with phase := row.phase + 1, updatedAt := nowMs }) (.constraint "migration_state"))
  let _ ← resetWorkCursor migId nowMs
  pure (row.phase + 1)

def advance (migId : String) (expected : Option Int) (nowMs : Int) : ResharderTx Int :=
  .transactionSync do
    let row ← .gets fun db => db.migrations.find? migId
    match row with
    | none => pure ABORTED
    | some row => advanceRow migId expected nowMs row

/-- `UPDATE migration_state SET phase = next … WHERE phase = prior`; it must change the row. -/
def setPhase (migId : String) (prior next : Int) (change : MigrationRow → MigrationRow)
    (lost : ResharderTx Unit) : ResharderTx Unit := do
  let changes ← onMigrations (Table.update (fun r => decide (r.migId = migId) && r.phase = prior)
    (fun r => { change r with migId := r.migId, phase := next }) (.constraint "migration_state"))
  if changes = 1 then pure () else lost

/-- Where the first block of `abort` goes on to. -/
inductive AbortStep
  | pendingStart (intent : ResharderStartIntent)
  | aborted
  | cleanup (migration : MigrationState)
  deriving DecidableEq

/-- `abortDriver` on a migration below the source fence. -/
def markAborting (migId : String) (nowMs : Int) (migration : MigrationState) :
    ResharderTx AbortStep := do
  .transactionSync (setPhase migId migration.phase ABORTING (fun r => { r with updatedAt := nowMs })
    (.throw (phaseMismatch ("migId=" ++ migId ++ " changed while entering abort"))))
  let current ← readMigration migId
  let migration ← .ofOption current (invariantError ("unknown migId=" ++ migId))
  pure (.cleanup migration)

/-- `abortDriver` on the migration it has found. -/
def enterAbort (migId : String) (nowMs : Int) (migration : MigrationState) :
    ResharderTx AbortStep :=
  if migration.phase = ABORTED then pure .aborted
  else if migration.phase = ABORTING then pure (.cleanup migration)
  else do
    .require (migration.phase < TAIL_CAUGHT_UP) (.cdb
      { code := .reshardPhaseMismatch
        message := "migId=" ++ migId ++ " can no longer abort after its source-fence boundary"
        hint := some "resume the same migration until source cleanup completes" })
    markAborting migId nowMs migration

def pendingAbort (migId : String) (nowMs : Int) : ResharderTx AbortStep :=
  AbortStep.pendingStart <$> .transactionSync (StartIntent.requestAbort migId nowMs)

/-- The first block of `abortDriver`. -/
def abortBegin (migId : String) (nowMs : Int) : ResharderTx AbortStep := do
  let migration ← readMigration migId
  match migration with
  | none => pendingAbort migId nowMs
  | some migration => enterAbort migId nowMs migration

/-- The last transaction of `runAbortCleanup`. -/
def abortComplete (migId : String) (nowMs : Int) : ResharderTx Unit :=
  .transactionSync (setPhase migId ABORTING ABORTED (fun r => { r with updatedAt := nowMs })
    (.throw (phaseMismatch ("migId=" ++ migId ++ " changed while completing abort"))))

def phaseChanged (migId : String) (expectedPhase : Int) : ResharderTx Unit := do
  let actual ← readMigration migId
  .throw (phaseMismatch ("migId=" ++ migId ++ " expected=" ++ toString expectedPhase ++ " actual=" ++
    (actual.map fun st => toString st.phase).getD "missing"))

/-- Legacy recovery finds the route cut over. -/
def recoverResume (migId : String) (nowMs : Int) : ResharderTx Unit :=
  .transactionSync do
    setPhase migId TAIL_CAUGHT_UP DUAL_WRITE_OPEN
      (fun r => { r with legacyCutoverRecovered := true, updatedAt := nowMs })
      (phaseChanged migId TAIL_CAUGHT_UP)
    let _ ← resetWorkCursor migId nowMs
    pure ()

/-- Legacy recovery finds the source still owning the route. -/
def recoverAbort (migId : String) (nowMs : Int) : ResharderTx Unit :=
  .transactionSync (setPhase migId TAIL_CAUGHT_UP ABORTING (fun r => { r with updatedAt := nowMs })
    (phaseChanged migId TAIL_CAUGHT_UP))

/-- One atomic block of the Resharder that may touch a phase. -/
inductive PhaseCall
  | startBegin (identity : ResharderStartIdentity) (nowMs : Int)
  | startReply (identity : ResharderStartIdentity) (existing : Option MigrationState)
      (topology : TopologyReply) (nowMs : Int)
  | advance (migId : String) (expected : Option Int) (nowMs : Int)
  | abort (migId : String) (nowMs : Int)
  | abortComplete (migId : String) (nowMs : Int)
  | recoverResume (migId : String) (nowMs : Int)
  | recoverAbort (migId : String) (nowMs : Int)
  deriving DecidableEq

def PhaseCall.exec : PhaseCall → ResharderTx Unit
  | .startBegin identity nowMs => (fun _ => ()) <$> Resharder.startBegin identity nowMs
  | .startReply identity existing topology nowMs =>
    (fun _ => ()) <$> Resharder.startReply identity existing topology nowMs
  | .advance migId expected nowMs => (fun _ => ()) <$> Resharder.advance migId expected nowMs
  | .abort migId nowMs => (fun _ => ()) <$> abortBegin migId nowMs
  | .abortComplete migId nowMs => Resharder.abortComplete migId nowMs
  | .recoverResume migId nowMs => Resharder.recoverResume migId nowMs
  | .recoverAbort migId nowMs => Resharder.recoverAbort migId nowMs

/-- The call moves phases of migrations and touches nothing of a start. -/
def PhaseCall.movesOnly : PhaseCall → Bool
  | .advance .. | .abortComplete .. | .recoverResume .. | .recoverAbort .. => true
  | _ => false

def ResharderDb.run (db : ResharderDb) (calls : List PhaseCall) : ResharderDb :=
  calls.foldl (fun db c => c.exec.after db) db

/-- The persisted phase of a migration. -/
def ResharderDb.phaseOf (db : ResharderDb) (migId : String) : Option Int :=
  (db.migrations.find? migId).map (·.phase)

/-! ## What one call may do -/

/-- The moves of the phase line. -/
inductive PhaseMove : PhaseCall → Int → Int → Prop
  | advance {migId : String} {expected : Option Int} {nowMs p : Int} (h₀ : INIT ≤ p)
      (h₁ : p < SOURCE_DRAINED) : PhaseMove (.advance migId expected nowMs) p (p + 1)
  | resume {migId : String} {nowMs : Int} :
      PhaseMove (.recoverResume migId nowMs) TAIL_CAUGHT_UP DUAL_WRITE_OPEN
  | abort {migId : String} {nowMs p : Int} (h₀ : INIT ≤ p) (h₁ : p ≤ BULK_COPY_DONE) :
      PhaseMove (.abort migId nowMs) p ABORTING
  | legacyAbort {migId : String} {nowMs : Int} :
      PhaseMove (.recoverAbort migId nowMs) TAIL_CAUGHT_UP ABORTING
  | aborted {migId : String} {nowMs : Int} :
      PhaseMove (.abortComplete migId nowMs) ABORTING ABORTED

/-- What the call `c` may do to the phases and the work cursors of `db`. -/
structure StepSafe (c : PhaseCall) (db : ResharderDb) : Prop where
  moves : ∀ m p, db.phaseOf m = some p →
    ∃ p', (c.exec.after db).phaseOf m = some p' ∧ (p' = p ∨ PhaseMove c p p')
  births : ∀ m p, db.phaseOf m = none → (c.exec.after db).phaseOf m = some p → p = INIT
  terminal : ∀ m p, db.phaseOf m = some p → p = SOURCE_DRAINED ∨ p = ABORTED →
    (c.exec.after db).phaseOf m = some p ∧
      ∀ expected nowMs, c = .advance m expected nowMs → ∃ e, c.exec.Throws db e db
  atomic : ∀ e db', c.exec.Throws db e db' →
    db'.migrations = db.migrations ∧ db'.workCursors = db.workCursors

/-- `c` is no `advance` that `SOURCE_DRAINED` lets through. -/
def LeavesDrained (c : PhaseCall) (db : ResharderDb) : Prop :=
  ∀ m expected nowMs, c = .advance m expected nowMs → db.phaseOf m = some SOURCE_DRAINED →
    expected ≠ none ∧ expected ≠ some SOURCE_DRAINED

end Chardb.Resharder
