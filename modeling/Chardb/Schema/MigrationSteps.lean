import Chardb.Schema.MigrationStore

/-!
# What a schema call can do

A call that throws leaves the store as it was; one that returns leaves it alone, or has one of the
effects below. Each of the three installation paths has its own.
-/

namespace Chardb.Schema

open Chardb.Lib

section
variable {δ ν : Type} [JsNumber ν] {sha256Hex : String → String} {hooks : SchemaHooks δ}
  {journal : ChardbMigrationJournal sha256Hex ν} {db db' : CdbDb δ}

/-! ## Reading the journal -/

theorem ChardbMigrationJournal.safe (journal : ChardbMigrationJournal sha256Hex ν) {v : Int}
    (h₀ : 0 ≤ v) (hv : v ≤ journal.version) : IsSafeInteger v := by
  have hlength := journal.length_le
  have hversion := journal.version_eq
  unfold IsSafeInteger MAX_SAFE_INTEGER
  unfold MAX_MIGRATIONS at hlength
  omega

theorem migrationDigestAt_eq {v : Int} (h₀ : 0 ≤ v) (hv : v ≤ journal.version) :
    migrationDigestAt journal v = .ok (journal.prefixDigest v.toNat) := by
  unfold migrationDigestAt ensure
  rw [if_pos ⟨journal.safe h₀ hv, h₀, hv⟩]
  rfl

theorem migrationDigestAt_ok {v : Int} {digest : String} (h : migrationDigestAt journal v = .ok digest) :
    digest = journal.prefixDigest v.toNat := by
  unfold migrationDigestAt at h
  obtain ⟨_, -, h⟩ := bind_ok h
  exact (Except.ok.inj h).symm

theorem prefixDigest_length : journal.prefixDigest journal.migrations.length = journal.digest := by
  rw [ChardbMigrationJournal.prefixDigest, List.take_length, journal.digest_eq]

/-- Every version of the journal is at most its own. -/
theorem version_le {m : ChardbMigration ν} (h : m ∈ journal.migrations) : m.version ≤ journal.version := by
  obtain ⟨i, hi, hm⟩ := List.getElem_of_mem h
  have := journal.contiguous i m (by rw [List.getElem?_eq_getElem hi, hm])
  have := journal.version_eq
  omega

/-- The expected steps of a migration to the packaged version. -/
theorem expectedSteps_eq {b : Nat} (hb : b ≤ journal.migrations.length) :
    expectedSteps journal b journal.version = .ok (journal.migrations.drop b) := by
  have hversion := journal.version_eq
  have hle : (b : Int) ≤ journal.version := by omega
  have hfilter : (journal.migrations.drop b).filter (fun m => m.version ≤ journal.version) =
      journal.migrations.drop b := by
    rw [List.filter_eq_self]
    intro m hm
    exact decide_eq_true (version_le (List.mem_of_mem_drop hm))
  unfold expectedSteps pendingMigrations ensure
  rw [if_pos ⟨journal.safe (Int.natCast_nonneg b) hle, Int.natCast_nonneg b, hle⟩, Int.toNat_natCast]
  exact congrArg Except.ok hfilter

/-! ## The writes -/

theorem state_returns {row : CdbSchemaState} :
    (state : SchemaTx δ CdbSchemaState).Returns db row db' ↔ db.schema = some row ∧ db = db' := by
  unfold state
  simp only [Tx.bind_returns, Tx.gets_returns, Tx.ofOption_returns]
  constructor
  · rintro ⟨_, _, ⟨rfl, rfl⟩, hrow, rfl⟩
    exact ⟨hrow, rfl⟩
  · rintro ⟨hrow, rfl⟩
    exact ⟨_, _, ⟨rfl, rfl⟩, hrow, rfl⟩

@[simp] theorem writeState_returns {row : CdbSchemaState} {a : Unit} :
    (writeState row : SchemaTx δ Unit).Returns db a db' ↔ db' = { db with schema := some row } :=
  Tx.modify_returns

theorem onDomain_returns {x : Tx Thrown δ Unit} {a : Unit} :
    (onDomain x).Returns db a db' ↔
      ∃ domain, x.Returns db.domain a domain ∧ db' = { db with domain } := Tx.zoom_returns

/-- Packaged statements run in order, and touch no schema table. -/
theorem execStatements_returns {statements : List String} {a : Unit}
    (h : (execStatements hooks statements).Returns db a db') :
    ∃ domain, db' = { db with domain, executed := db.executed ++ statements } := by
  induction statements generalizing db with
  | nil =>
    obtain ⟨-, rfl⟩ := Tx.pure_returns.mp h
    exact ⟨db.domain, by rw [List.append_nil]⟩
  | cons s rest ih =>
    unfold execStatements execStatement at h
    simp only [Tx.bind_returns, Tx.modify_returns, onDomain_returns] at h
    obtain ⟨_, _, ⟨_, _, ⟨d, -, rfl⟩, rfl⟩, h⟩ := h
    obtain ⟨domain, rfl⟩ := ih h
    exact ⟨domain, by simp⟩

omit [JsNumber ν] in
theorem insertStep_returns {migrationId : String} {m : ChardbMigration ν} {nowMs : Int} {a : Unit} :
    (insertStep migrationId m nowMs : SchemaTx δ Unit).Returns db a db' ↔
      ∃ steps, db.steps.insert? ⟨migrationId, m.version, m.digest, nowMs⟩ = some steps ∧
        db' = { db with steps } := by
  unfold insertStep onSteps
  simp only [Tx.zoom_returns, Table.insert_returns]

def packaged (ms : List (ChardbMigration ν)) : List String := ms.flatMap ChardbMigration.statements

omit [JsNumber ν] in
/-- A replay runs the statements of its migrations and records their steps. -/
theorem replayMigrations_returns {migrationId : String} {nowMs : Int}
    {ms : List (ChardbMigration ν)} {a : Unit}
    (h : (replayMigrations hooks migrationId nowMs ms).Returns db a db') :
    db'.schema = db.schema ∧ db'.executed = db.executed ++ packaged ms ∧
      db'.steps.rows = db.steps.rows ++ ms.map fun m => ⟨migrationId, m.version, m.digest, nowMs⟩ := by
  induction ms generalizing db with
  | nil =>
    obtain ⟨-, rfl⟩ := Tx.pure_returns.mp h
    simp [packaged]
  | cons m rest ih =>
    unfold replayMigrations at h
    simp only [Tx.bind_returns, insertStep_returns] at h
    obtain ⟨_, _, hexec, _, _, ⟨steps, hsteps, rfl⟩, h⟩ := h
    obtain ⟨domain, rfl⟩ := execStatements_returns hexec
    obtain ⟨hschema, hexecuted, hrows⟩ := ih h
    refine ⟨hschema, ?_, ?_⟩
    · rw [hexecuted]
      simp [packaged]
    · rw [hrows, Table.rows_insert hsteps]
      simp

/-! ## The effects -/

inductive SchemaEffect (journal : ChardbMigrationJournal sha256Hex ν) (db db' : CdbDb δ) :
    SchemaCall → Prop
  | none {call : SchemaCall} : db' = db → SchemaEffect journal db db' call
  | initialized : db.schema = .none →
    db' = { db with schema := some ⟨0, 1, journal.prefixDigest 0, .none, .none⟩ } →
    SchemaEffect journal db db' .initializeSchema
  | baselined {args : CdbSchemaTarget} {row : CdbSchemaState} : db.schema = some row →
    row.pending = .none → row.activeVersion = 0 → args.targetVersion = journal.version →
    1 ≤ journal.version → args.targetEpoch = row.activeEpoch + 1 → args.targetDigest = journal.digest →
    db'.schema = some args.settled → db'.steps = db.steps → db'.executed = db.executed →
    SchemaEffect journal db db' (.baseline args)
  | provisioned {args : CdbSchemaTarget} {row : CdbSchemaState} (k : Nat) (nowMs : Int) :
    db.schema = some row → row.pending = .none → row.activeVersion = 0 → row.activeEpoch = 1 →
    row.lastMigrationId = .none → db.steps.rows = [] → args.targetVersion = k →
    k ≤ journal.migrations.length → 1 ≤ args.targetEpoch → args.targetDigest = journal.prefixDigest k →
    db'.schema = some args.settled →
    db'.steps.rows = (journal.migrations.take k).map
      (fun m => ⟨args.migrationId, m.version, m.digest, nowMs⟩) →
    db'.executed = db.executed ++ packaged (journal.migrations.take k) →
    SchemaEffect journal db db' (.provisionFresh args)
  | prepared {args : CdbSchemaMigrationPrepareRequest} {row : CdbSchemaState} :
    db.schema = some row → row.pending = .none → row.activeVersion < journal.version →
    args.targetVersion = journal.version → args.targetEpoch = row.activeEpoch + 1 →
    args.targetDigest = journal.digest →
    db' = { db with schema := some { row with pending := some args.pending } } →
    SchemaEffect journal db db' (.prepare args)
  | applied {migrationId : String} {version nowMs : Int} {row : CdbSchemaState}
    {p : CdbSchemaPending} {m : ChardbMigration ν} {expected : List (ChardbMigration ν)} :
    db.schema = some row → row.pending = some p → p.migrationId = migrationId → m.version = version →
    journal.migrations[(version - 1).toNat]? = some m → db.steps.find? (migrationId, version) = .none →
    expectedSteps journal row.activeVersion p.targetVersion = .ok expected →
    beginsWith (db.applied migrationId) expected = true →
    expected[(db.applied migrationId).length]?.map ChardbMigration.version = some m.version →
    db'.schema = db.schema →
    db.steps.insert? ⟨migrationId, m.version, m.digest, nowMs⟩ = some db'.steps →
    db'.executed = db.executed ++ m.statements →
    SchemaEffect journal db db' (.apply migrationId version)
  | activated {migrationId : String} {row : CdbSchemaState} {p : CdbSchemaPending}
    {expected : List (ChardbMigration ν)} :
    db.schema = some row → row.pending = some p → p.migrationId = migrationId →
    expectedSteps journal row.activeVersion p.targetVersion = .ok expected →
    (db.applied migrationId).length = expected.length →
    beginsWith (db.applied migrationId) expected = true →
    db'.schema = some ⟨p.targetVersion, p.targetEpoch, p.targetDigest, some p.migrationId, .none⟩ →
    db'.steps = db.steps → db'.executed = db.executed →
    SchemaEffect journal db db' (.activate migrationId)

theorem initialize_effect {a : Bool} (h : (initializeSchema journal).Returns db a db') :
    SchemaEffect journal db db' .initializeSchema := by
  unfold initializeSchema at h
  simp only [Tx.bind_returns, Tx.gets_returns] at h
  obtain ⟨_, _, ⟨rfl, rfl⟩, h⟩ := h
  cases hrow : db.schema with
  | none =>
    rw [hrow] at h
    simp only [Tx.bind_returns, Tx.ofExcept_returns, writeState_returns, Tx.pure_returns] at h
    obtain ⟨digest, _, ⟨hdigest, rfl⟩, _, _, rfl, -, rfl⟩ := h
    refine .initialized hrow ?_
    rw [migrationDigestAt_ok hdigest]
    rfl
  | some row =>
    rw [hrow] at h
    simp only [Tx.bind_returns, Tx.ofExcept_returns, Tx.pure_returns] at h
    obtain ⟨_, _, ⟨-, rfl⟩, -, rfl⟩ := h
    exact .none rfl

theorem baseline_effect {args : CdbSchemaTarget} {a : Unit}
    (h : (baseline hooks journal args).Returns db a db') :
    SchemaEffect journal db db' (.baseline args) := by
  unfold baseline at h
  simp only [Tx.bind_returns, Tx.require_returns, Tx.transactionSync_returns, state_returns] at h
  obtain ⟨_, _, ⟨-, rfl⟩, _, _, ⟨⟨hversion, hone, -, -, hdigest⟩, rfl⟩, row, _, ⟨hrow, rfl⟩, h⟩ := h
  rcases Tx.ite_returns.mp h with ⟨-, h⟩ | ⟨-, h⟩
  · obtain ⟨-, rfl⟩ := Tx.pure_returns.mp h
    exact .none rfl
  · simp only [Tx.bind_returns, Tx.require_returns, Tx.ofExcept_returns, onDomain_returns,
      writeState_returns] at h
    obtain ⟨_, _, ⟨⟨hpending, hzero⟩, rfl⟩, _, _, ⟨-, rfl⟩, _, _, ⟨⟨-, hepoch⟩, rfl⟩, _, _,
      ⟨d, -, rfl⟩, _, _, ⟨d', -, rfl⟩, rfl⟩ := h
    exact .baselined hrow hpending hzero hversion (hversion ▸ hone) hepoch hdigest rfl rfl rfl

theorem provisionFresh_effect {args : CdbSchemaTarget} {nowMs : Int} {a : Unit}
    (h : (provisionFresh hooks journal args nowMs).Returns db a db') :
    SchemaEffect journal db db' (.provisionFresh args) := by
  unfold provisionFresh at h
  simp only [Tx.bind_returns, Tx.require_returns, Tx.transactionSync_returns, state_returns,
    Tx.ofExcept_returns] at h
  obtain ⟨_, _, ⟨-, rfl⟩, _, _, ⟨⟨-, hnonneg, hle, -, hepoch, -, -⟩, rfl⟩, _, _, ⟨hdigest, rfl⟩, _, _,
    ⟨htarget, rfl⟩, row, _, ⟨hrow, rfl⟩, h⟩ := h
  rcases Tx.ite_returns.mp h with ⟨-, h⟩ | ⟨-, h⟩
  · obtain ⟨-, rfl⟩ := Tx.pure_returns.mp h
    exact .none rfl
  · obtain ⟨_, _, hfresh, h⟩ := Tx.bind_returns.mp h
    obtain ⟨⟨hpending, hzero, hone⟩, rfl⟩ := Tx.require_returns.mp hfresh
    obtain ⟨_, _, hinitial, h⟩ := Tx.bind_returns.mp h
    obtain ⟨-, rfl⟩ := Tx.ofExcept_returns.mp hinitial
    obtain ⟨_, _, hidle, h⟩ := Tx.bind_returns.mp h
    obtain ⟨⟨-, hlast⟩, rfl⟩ := Tx.require_returns.mp hidle
    obtain ⟨_, _, hsteps, h⟩ := Tx.bind_returns.mp h
    obtain ⟨rfl, rfl⟩ := Tx.gets_returns.mp hsteps
    obtain ⟨_, _, hunstepped, h⟩ := Tx.bind_returns.mp h
    obtain ⟨hempty, rfl⟩ := Tx.require_returns.mp hunstepped
    obtain ⟨_, _, hassert, h⟩ := Tx.bind_returns.mp h
    obtain ⟨d, -, rfl⟩ := onDomain_returns.mp hassert
    obtain ⟨_, mid, hreplay, h⟩ := Tx.bind_returns.mp h
    obtain ⟨_, _, hafter, h⟩ := Tx.bind_returns.mp h
    obtain ⟨d', -, rfl⟩ := onDomain_returns.mp hafter
    obtain ⟨_, _, hrecord, h⟩ := Tx.bind_returns.mp h
    obtain ⟨d'', -, rfl⟩ := onDomain_returns.mp hrecord
    obtain rfl := writeState_returns.mp h
    obtain ⟨-, hexecuted, hrows⟩ := replayMigrations_returns hreplay
    have hversion := journal.version_eq
    refine .provisioned args.targetVersion.toNat nowMs hrow hpending hzero hone hlast hempty ?_ ?_
      hepoch ?_ rfl ?_ ?_
    · rw [Int.toNat_of_nonneg hnonneg]
    · omega
    · rw [htarget, migrationDigestAt_ok hdigest]
    · rw [hrows, hempty, List.nil_append]
    · rw [hexecuted]

theorem prepare_effect {args : CdbSchemaMigrationPrepareRequest} {a : Unit}
    (h : (prepare journal args).Returns db a db') :
    SchemaEffect journal db db' (.prepare args) := by
  unfold prepare at h
  simp only [Tx.bind_returns, Tx.require_returns, Tx.transactionSync_returns, state_returns,
    Tx.ofExcept_returns] at h
  obtain ⟨_, _, ⟨-, rfl⟩, _, _, ⟨⟨-, -, -, hlt, hversion, -, -⟩, rfl⟩, _, _, ⟨-, rfl⟩, _, _, ⟨-, rfl⟩,
    _, _, ⟨hdigest, rfl⟩, _, _, ⟨htarget, rfl⟩, row, _, ⟨hrow, rfl⟩, h⟩ := h
  cases hpending : row.pending with
  | some p =>
    rw [hpending] at h
    obtain ⟨-, rfl⟩ := Tx.require_returns.mp h
    exact .none rfl
  | none =>
    rw [hpending] at h
    unfold prepareIdle at h
    rcases Tx.ite_returns.mp h with ⟨-, h⟩ | ⟨-, h⟩
    · obtain ⟨-, rfl⟩ := Tx.pure_returns.mp h
      exact .none rfl
    · simp only [Tx.bind_returns, Tx.require_returns, writeState_returns] at h
      obtain ⟨_, _, ⟨⟨hactive, -, hepoch⟩, rfl⟩, rfl⟩ := h
      refine .prepared hrow hpending (by omega) hversion hepoch ?_ rfl
      rw [htarget, migrationDigestAt_ok hdigest, hversion, journal.version_eq, Int.toNat_natCast,
        prefixDigest_length]

theorem apply_effect {migrationId : String} {version nowMs : Int} {a : Unit}
    (h : (apply hooks journal migrationId version nowMs).Returns db a db') :
    SchemaEffect journal db db' (.apply migrationId version) := by
  unfold apply at h
  simp only [Tx.bind_returns, Tx.require_returns, Tx.transactionSync_returns, state_returns] at h
  obtain ⟨_, _, ⟨-, rfl⟩, row, _, ⟨hrow, rfl⟩, h⟩ := h
  cases hpending : row.pending with
  | none =>
    rw [hpending] at h
    obtain ⟨-, rfl⟩ := Tx.require_returns.mp h
    exact .none rfl
  | some p =>
    rw [hpending] at h
    unfold applyPending at h
    simp only [Tx.bind_returns, Tx.require_returns, Tx.ofOption_returns, Tx.gets_returns] at h
    obtain ⟨_, _, ⟨hid, rfl⟩, _, _, ⟨-, rfl⟩, m, _, ⟨hm, rfl⟩, _, _, ⟨rfl, rfl⟩, h⟩ := h
    obtain ⟨hm, hversion⟩ := Option.filter_eq_some_iff.mp hm
    cases hstep : db.steps.find? (migrationId, version) with
    | some step =>
      rw [hstep] at h
      obtain ⟨-, rfl⟩ := Tx.require_returns.mp h
      exact .none rfl
    | none =>
      rw [hstep] at h
      unfold applyNext at h
      simp only [Tx.bind_returns, Tx.require_returns, Tx.gets_returns, Tx.ofExcept_returns,
        onDomain_returns, insertStep_returns] at h
      obtain ⟨_, _, ⟨rfl, rfl⟩, expected, _, ⟨hexpected, rfl⟩, _, _, ⟨hbegins, rfl⟩, _, _, ⟨hnext, rfl⟩,
        _, _, ⟨d, -, rfl⟩, _, _, hexec, _, _, ⟨d', -, rfl⟩, steps, hsteps, rfl⟩ := h
      obtain ⟨d'', rfl⟩ := execStatements_returns hexec
      exact .applied hrow hpending hid (of_decide_eq_true hversion) hm hstep hexpected hbegins hnext rfl
        hsteps rfl

theorem activate_effect {migrationId : String} {a : Unit}
    (h : (activate hooks journal migrationId).Returns db a db') :
    SchemaEffect journal db db' (.activate migrationId) := by
  unfold activate at h
  simp only [Tx.bind_returns, Tx.transactionSync_returns, state_returns] at h
  obtain ⟨row, _, ⟨hrow, rfl⟩, h⟩ := h
  cases hpending : row.pending with
  | none =>
    rw [hpending] at h
    obtain ⟨-, rfl⟩ := Tx.require_returns.mp h
    exact .none rfl
  | some p =>
    rw [hpending] at h
    unfold activatePending at h
    simp only [Tx.bind_returns, Tx.require_returns, Tx.gets_returns, Tx.ofExcept_returns,
      onDomain_returns, writeState_returns] at h
    obtain ⟨_, _, ⟨rfl, rfl⟩, expected, _, ⟨hexpected, rfl⟩, _, _, ⟨rfl, rfl⟩, _, _,
      ⟨⟨hlength, hbegins⟩, rfl⟩, _, _, ⟨d, -, rfl⟩, rfl⟩ := h
    exact .activated hrow hpending rfl hexpected hlength hbegins rfl rfl rfl

/-! ## Throws -/

theorem execute_atomic {call : SchemaCall} {nowMs : Int} :
    (call.execute hooks journal nowMs).Atomic := by
  cases call with
  | initializeSchema => exact Tx.atomic_transactionSync _
  | baseline args =>
    exact (Tx.readOnly_require _ _).bind_atomic fun _ => (Tx.readOnly_require _ _).bind_atomic
      fun _ => Tx.atomic_transactionSync _
  | provisionFresh args =>
    exact (Tx.readOnly_require _ _).bind_atomic fun _ => (Tx.readOnly_require _ _).bind_atomic
      fun _ => (Tx.readOnly_ofExcept _).bind_atomic fun _ => (Tx.readOnly_require _ _).bind_atomic
      fun _ => Tx.atomic_transactionSync _
  | prepare args =>
    exact (Tx.readOnly_require _ _).bind_atomic fun _ => (Tx.readOnly_require _ _).bind_atomic
      fun _ => (Tx.readOnly_ofExcept _).bind_atomic fun _ => (Tx.readOnly_require _ _).bind_atomic
      fun _ => (Tx.readOnly_ofExcept _).bind_atomic fun _ => (Tx.readOnly_require _ _).bind_atomic
      fun _ => Tx.atomic_transactionSync _
  | apply migrationId version =>
    exact (Tx.readOnly_require _ _).bind_atomic fun _ => Tx.atomic_transactionSync _
  | activate migrationId => exact Tx.atomic_transactionSync _

theorem execute_effect {call : SchemaCall} {nowMs : Int} {a : Unit}
    (h : (call.execute hooks journal nowMs).Returns db a db') : SchemaEffect journal db db' call := by
  cases call with
  | initializeSchema =>
    simp only [SchemaCall.execute, Tx.transactionSync_returns, Tx.bind_returns, Tx.pure_returns] at h
    obtain ⟨_, _, h, -, rfl⟩ := h
    exact initialize_effect h
  | baseline args => exact baseline_effect h
  | provisionFresh args => exact provisionFresh_effect h
  | prepare args => exact prepare_effect h
  | apply migrationId version => exact apply_effect h
  | activate migrationId => exact activate_effect h

/-- A call has one of the effects, returned from or thrown out of. -/
theorem step_effect (hooks : SchemaHooks δ) (journal : ChardbMigrationJournal sha256Hex ν)
    (db : CdbDb δ) (call : SchemaCall × Int) :
    SchemaEffect journal db (db.step hooks journal call) call.1 := by
  unfold CdbDb.step
  rcases (call.1.execute hooks journal call.2).returns_or_throws db with ⟨a, h⟩ | ⟨e, h⟩
  · exact execute_effect h
  · exact .none (execute_atomic h)

end

end Chardb.Schema
