import Chardb.Mutation.AtomicMutation

/-!
# Changed tables and their invalidations

A mutation enqueues invalidations for the tables that its statements name. These are all
tables it changed, unless a foreign key acted on the rows of a table that no statement
names: the subscriptions of such a table are not told.
-/

namespace Chardb.Mutation

open Chardb.Lib Policy OpLog Live Wire

variable {ν : Type} [JsNumber ν]

/-! ## The property -/

/-- The registration declares the table. -/
def Declares (live : LiveDb) (key : RegistrationKey) (table : String) : Prop :=
  ∃ m ∈ live.tables, m.registration = key ∧ m.tableName = table

/-- The rows of the table differ. -/
def Changed (s s' : MutationDb) (table : String) : Prop := s'.db.rows table ≠ s.db.rows table

/-- The changed tables are touched, and their subscriptions have newer outbox rows. -/
structure Covers (s s' : MutationDb) (result : AtomicMutationResult ν) : Prop where
  touched : ∀ table, Changed s s' table → table ∈ result.touchedTables
  outbox : ∀ table, Changed s s' table → ∀ key, s.live.Active key → Declares s.live key table →
    ∃ clock seq, s.live.changeSeq? = some clock ∧ s'.live.pending? key = some seq ∧ clock < seq

section
variable (sha256 : ByteArray → ByteArray) (codec : PayloadCodec)

/-- A mutation that commits covers what it changed, and one that rolls back enqueues nothing. -/
structure InvalidationSound (input : ExecuteAtomicMutationInput ν) (s : MutationDb) : Prop where
  commits : ∀ result s', (executeAtomicMutation sha256 codec input).Returns s result s' →
    Covers s s' result
  rollsBack : ∀ e s', (executeAtomicMutation sha256 codec input).Throws s e s' →
    s'.live = s.live ∧ s'.db = s.db

end

/-- The statements name every table that foreign keys act on. -/
def ActionsNamed (input : ExecuteAtomicMutationInput ν) (db : Db) : Prop :=
  ∀ table ∈ (input.handler.play input.wrapped db).acted,
    table ∈ (input.handler.play input.wrapped db).named

/-! ## The run of the handler -/

section
variable {w : WrappedDb} {r : MutationRun} {n : String} {rows : List Row}

theorem writeStatement_table {t : CdbTableMeta} {auth : AuthCtx} {placement : Option CdbDbPlacement}
    {c : Policy.Call} {stmt : Statement String String Cell}
    (h : writeStatement t auth placement c = .ok stmt) : stmt.table = t.name := by
  cases c with
  | select => cases h
  | insert | update | delete =>
    obtain ⟨_, -, h⟩ := bind_ok h
    obtain rfl := Except.ok.inj h
    rfl

theorem preparedStatement_table {c : Policy.Call} {stmt : Statement String String Cell}
    (h : preparedStatement w c = some stmt) : stmt.table = c.table := by
  unfold preparedStatement at h
  split at h
  · cases h
  · rename_i t ht
    cases hstmt : writeStatement t w.auth w.placement c with
    | error e => simp [hstmt, Except.toOption] at h
    | ok stmt' =>
      obtain rfl : stmt' = stmt := by simpa [hstmt, Except.toOption] using h
      rw [writeStatement_table hstmt, DomainSchema.table?_name ht]

/-- A call without a statement to run changes nothing. -/
theorem step_unprepared {s : HandlerState} {c : Policy.Call} (h : preparedStatement w c = none) :
    (w.step s (.call c)).db = s.db ∧ (w.step s (.call c)).savepoints = s.savepoints := by
  unfold WrappedDb.step
  simp only
  split
  · rename_i db events hcall
    refine ⟨?_, rfl⟩
    unfold WrappedDb.call at hcall
    split at hcall
    · cases hcall
    split at hcall
    · cases hcall
    rename_i t ht
    split at hcall
    · obtain ⟨rows, -, hcall⟩ := bind_ok hcall
      exact (Prod.mk.inj (Except.ok.inj hcall)).1.symm
    · obtain ⟨result, hresult, -⟩ := bind_ok hcall
      obtain ⟨stmt, hstmt, -⟩ := bind_ok hresult
      simp [preparedStatement, ht, hstmt, Except.toOption] at h
  · exact ⟨rfl, rfl⟩

theorem WriteVolume.beforeWrite_touched (v : WriteVolume) :
    v.beforeWrite.touchedTables = v.touchedTables := by
  unfold WriteVolume.beforeWrite
  split <;> rfl

theorem WriteVolume.mem_record {v : WriteVolume} {table : String} {changed : Nat} :
    n ∈ (v.record table changed).touchedTables ↔ n ∈ v.touchedTables ∨ n = table := by
  unfold WriteVolume.record
  simp only
  split
  · rename_i hmem
    exact ⟨.inl, fun h => h.elim id fun he => he ▸ hmem⟩
  · simp

/-- A table that no statement names and no foreign key acts on has the rows it had, now and in
every transaction that may still roll back. -/
structure Kept (n : String) (rows : List Row) (r : MutationRun) : Prop where
  touched : ∀ table, table ∈ r.named ↔ table ∈ r.volume.touchedTables
  db : n ∉ r.named → n ∉ r.acted → r.state.db.rows n = rows
  saved : n ∉ r.named →
    List.Forall₂ (fun db acted => n ∉ acted → RowStore.rows db n = rows) r.state.savepoints
      r.actedBefore

theorem kept_initial (db : Db) : Kept n (db.rows n) (.initial db) where
  touched _ := Iff.rfl
  db _ _ := rfl
  saved _ := .nil

theorem Kept.write {table : String} {stmt : Statement String String Cell} (h : Kept n rows r)
    (htable : stmt.table = table) : Kept n rows (r.write w table stmt) := by
  have hvolume : Kept n rows { r with volume := r.volume.beforeWrite } :=
    ⟨fun t => by rw [h.touched t, WriteVolume.beforeWrite_touched], h.db, h.saved⟩
  unfold MutationRun.write
  simp only
  split
  · exact hvolume
  split
  · exact hvolume
  rename_i result hresult
  constructor
  · intro t
    rw [WriteVolume.mem_record, WriteVolume.beforeWrite_touched, List.mem_append, h.touched t,
      List.mem_singleton]
  · intro hnamed hacted
    rw [List.mem_append, not_or, List.mem_singleton] at hnamed
    rw [List.mem_append, not_or] at hacted
    have hother : ∀ c ∈ result.acted, c.table ≠ n := fun c hc he =>
      hacted.2 (he ▸ List.mem_map_of_mem hc)
    exact (RefSchema.execute_other hresult (htable ▸ hnamed.2) hother).trans
      (h.db hnamed.1 hacted.1)
  · intro hnamed
    exact h.saved fun hn => hnamed (List.mem_append_left _ hn)

theorem Kept.step (hkind : w.kind = .mutation) (h : Kept n rows r) (step : HandlerStep) :
    Kept n rows (r.step w step) := by
  cases step with
  | call c =>
    unfold MutationRun.step
    simp only
    split
    · rename_i stmt hstmt
      exact h.write (preparedStatement_table hstmt)
    · rename_i hnone
      obtain ⟨hdb, hsaved⟩ := step_unprepared (s := r.state) hnone
      exact ⟨h.touched, fun hn ha => by rw [hdb]; exact h.db hn ha,
        fun hn => by rw [hsaved]; exact h.saved hn⟩
  | begin =>
    have hstep : w.step r.state .begin =
        { r.state with savepoints := r.state.db :: r.state.savepoints } :=
      if_neg (by simp [hkind])
    refine ⟨h.touched, fun hn ha => ?_, fun hn => ?_⟩
    · rw [MutationRun.step, hstep]
      exact h.db hn ha
    · rw [MutationRun.step, hstep]
      exact .cons (h.db hn) (h.saved hn)
  | commit =>
    refine ⟨h.touched, h.db, fun hn => ?_⟩
    have hsaved := h.saved hn
    show List.Forall₂ _ r.state.savepoints.tail r.actedBefore.tail
    generalize r.state.savepoints = savepoints at hsaved
    generalize r.actedBefore = actedBefore at hsaved
    cases hsaved with
    | nil => exact .nil
    | cons _ htail => exact htail
  | rollback =>
    unfold MutationRun.step
    simp only
    split
    · rename_i acted actedBefore hbefore
      refine ⟨h.touched, fun hn ha => ?_, fun hn => ?_⟩
      · have hforall := h.saved hn
        rw [hbefore] at hforall
        cases hsp : r.state.savepoints with
        | nil => rw [hsp] at hforall; cases hforall
        | cons db savepoints =>
          rw [hsp] at hforall
          simp only [WrappedDb.step, hsp]
          exact (List.forall₂_cons.mp hforall).1 ha
      · have hforall := h.saved hn
        rw [hbefore] at hforall
        cases hsp : r.state.savepoints with
        | nil => rw [hsp] at hforall; cases hforall
        | cons db savepoints =>
          rw [hsp] at hforall
          simp only [WrappedDb.step, hsp]
          exact (List.forall₂_cons.mp hforall).2
    · exact h

theorem Kept.run (hkind : w.kind = .mutation) {steps : List HandlerStep} (h : Kept n rows r) :
    Kept n rows (r.run w steps) := by
  induction steps generalizing r with
  | nil => exact h
  | cons step steps ih => exact ih (h.step hkind step)

end

/-! ## The transaction -/

section
variable {sha256 : ByteArray → ByteArray} {codec : PayloadCodec}
  {input : ExecuteAtomicMutationInput ν} {s s' : MutationDb} {result : AtomicMutationResult ν}

theorem AtomicHandler.run_returns {h : AtomicHandler ν} {w : WrappedDb} {d d' : DomainRun}
    {outcome : MutationOutcome ν} (hrun : (h.run w).Returns d outcome d') :
    d' = ⟨(h.play w d.db).state.db, (h.play w d.db).volume⟩ ∧
      ∃ value rows, outcome = .ok value rows none none none none := by
  simp only [AtomicHandler.run, Tx.bind_returns, Tx.gets_returns, Tx.modify_returns,
    Tx.ofExcept_returns] at hrun
  obtain ⟨_, _, ⟨rfl, rfl⟩, _, _, rfl, ended, _, ⟨-, rfl⟩, hrun⟩ := hrun
  split at hrun
  · simp at hrun
  · simp only [Tx.bind_returns, Tx.ofExcept_returns, Tx.pure_returns] at hrun
    obtain ⟨_, _, ⟨-, rfl⟩, rfl, rfl⟩ := hrun
    exact ⟨rfl, ended.1, ended.2, rfl⟩

/-- The envelope of a handler that returned is one that reports success. -/
theorem envelopeOk_of_ok {cookie : String} {value : HandlerResult ν} {rows : SafeInt} {env : Json ν}
    (h : envelopeOf cookie (.ok value rows none none none none) = .ok env) : envelopeOk env = true := by
  unfold envelopeOf at h
  simp only at h
  split at h
  · obtain rfl := Except.ok.inj h
    simp [envelopeOk, envelopeMember, okEnvelope, Json.get?]
  · cases h

/-- What a mutation that commits has done. -/
structure Ran (input : ExecuteAtomicMutationInput ν) (s s' : MutationDb)
    (result : AtomicMutationResult ν) : Prop where
  ran : result.ran = true
  db : s'.db = (input.handler.play input.wrapped s.db).state.db
  enqueued : (enqueueWriteSet true result.envelope
    (input.handler.play input.wrapped s.db).volume.touchedTables).Returns
      { s' with live := s.live } result.touchedTables s'
  envelope : envelopeOk result.envelope = true

omit [JsNumber ν] in
theorem enqueueWriteSet_oplog {ran : Bool} {envelope : Json ν} {touched tables : List String}
    (h : (enqueueWriteSet ran envelope touched).Returns s tables s') : s'.oplog = s.oplog := by
  unfold enqueueWriteSet at h
  rcases Tx.ite_returns.mp h with ⟨-, h⟩ | ⟨-, h⟩
  · simp only [onLive, Tx.bind_returns, Tx.zoom_returns, Tx.pure_returns] at h
    obtain ⟨_, _, ⟨live, -, rfl⟩, rfl, rfl⟩ := h
    rfl
  · obtain ⟨-, rfl⟩ := Tx.pure_returns.mp h
    rfl

theorem atomicMutation_returns (h : (atomicMutation sha256 codec input).Returns s result s') :
    (s'.db = s.db ∧ s'.live = s.live) ∨ Ran input s s' result := by
  simp only [atomicMutation, Tx.transactionSync_returns, onOpLogDb, Tx.bind_returns,
    Tx.modify_returns, Tx.ofExcept_returns, Tx.zoom_returns, Tx.gets_returns, Tx.pure_returns] at h
  obtain ⟨_, _, rfl, _, _, ⟨-, rfl⟩, wrapped, _, ⟨oplog, hexec, rfl⟩, _, _, ⟨-, rfl⟩, _, _, ⟨-, rfl⟩,
    volume, _, ⟨rfl, rfl⟩, tables, _, henqueue, rfl, rfl⟩ := h
  have hoplog := enqueueWriteSet_oplog henqueue
  rcases exec_returns (Tx.transactionSync_returns.mpr hexec) with ⟨rfl, hran, -⟩ | ⟨hran, hcommitted⟩
  · refine .inl ⟨by rw [MutationDb.db, hoplog], ?_⟩
    rw [enqueueWriteSet, if_neg (by simp [hran])] at henqueue
    obtain ⟨-, rfl⟩ := Tx.pure_returns.mp henqueue
    rfl
  · obtain ⟨outcome, eventId, hrun, henvelope, -⟩ := hcommitted.ran
    obtain ⟨hdomain, value, rows, rfl⟩ := AtomicHandler.run_returns hrun
    have hdb : oplog.domain.db = (input.handler.play input.wrapped s.db).state.db := by
      rw [hdomain]
    have hvolume : oplog.domain.volume = (input.handler.play input.wrapped s.db).volume := by
      rw [hdomain]
    refine .inr ⟨hran, by rw [MutationDb.db, hoplog]; exact hdb, ?_, envelopeOk_of_ok henvelope⟩
    rw [hran] at henqueue
    rw [← hvolume]
    convert henqueue using 2

theorem mem_sortStrings {l : List String} {a : String} : a ∈ sortStrings l ↔ a ∈ l :=
  (List.perm_insertionSort _ l).mem_iff

omit [JsNumber ν] in
/-- A table that the mutation changed is one that its statements name. -/
theorem named_of_changed (hactions : ActionsNamed input s.db) (hran : Ran input s s' result)
    {table : String} (hchanged : Changed s s' table) :
    table ∈ (input.handler.play input.wrapped s.db).volume.touchedTables := by
  have hkept : Kept table (s.db.rows table) (input.handler.play input.wrapped s.db) :=
    (kept_initial s.db).run input.wrapped_kind
  by_contra hnot
  rw [← hkept.touched] at hnot
  exact hchanged (hran.db ▸ hkept.db hnot fun hacted => hnot (hactions table hacted))

omit [JsNumber ν] in
/-- An enqueue that tables were touched for. -/
theorem Ran.enqueues (hran : Ran input s s' result) {table : String}
    (htable : table ∈ (input.handler.play input.wrapped s.db).volume.touchedTables) :
    table ∈ result.touchedTables ∧
      ∃ seq, (enqueueInvalidations result.touchedTables).Returns s.live seq s'.live := by
  have henqueued := hran.enqueued
  rw [enqueueWriteSet, if_pos ⟨rfl, hran.envelope, List.ne_nil_of_mem htable⟩] at henqueued
  simp only [onLive, Tx.bind_returns, Tx.zoom_returns, Tx.pure_returns] at henqueued
  obtain ⟨seq, _, ⟨live, hlive, rfl⟩, htables, hs'⟩ := henqueued
  have hlive' : s'.live = live := by rw [← hs']
  rw [htables, hlive']
  exact ⟨mem_sortStrings.mpr htable, seq, hlive⟩

omit [JsNumber ν] in
theorem Ran.covers (hactions : ActionsNamed input s.db) (hran : Ran input s s' result) :
    Covers s s' result := by
  constructor
  · intro table hchanged
    exact (hran.enqueues (named_of_changed hactions hran hchanged)).1
  · rintro table hchanged key hactive ⟨m, hm, hkey, hname⟩
    obtain ⟨htouched, seq, hseq⟩ := hran.enqueues (named_of_changed hactions hran hchanged)
    have henqueues := enqueueInvalidations_returns hseq
    have hselected : s.live.Active key ∧
        ∃ m ∈ s.live.tables, m.registration = key ∧ m.tableName ∈ result.touchedTables :=
      ⟨hactive, m, hm, hkey, hname ▸ htouched⟩
    have hclock := henqueues.advances.resolve_right fun h => h.2 key hselected
    refine ⟨seq - 1, _, hclock, henqueues.bumped key hselected, ?_⟩
    cases s.live.pending? key with
    | none => simp
    | some pending =>
      have hmax : seq ≤ max pending seq := le_max_right ..
      simp only [Option.map_some, Option.getD_some]
      omega

omit [JsNumber ν] in
theorem covers_of_unchanged (hdb : s'.db = s.db) : Covers s s' result where
  touched table hchanged := absurd (by rw [hdb]) hchanged
  outbox table hchanged := absurd (by rw [hdb]) hchanged

/-- A mutation that rolls back enqueues nothing, and one that commits enqueues the invalidations of all
tables it changed, if its handler did not run or its statements name every table that foreign keys
act on. -/
theorem changed_tables_invalidated :
    (∀ e s', (executeAtomicMutation sha256 codec input).Throws s e s' →
      s'.live = s.live ∧ s'.db = s.db) ∧
    ∀ result s', (executeAtomicMutation sha256 codec input).Returns s result s' →
      (result.ran = true → ActionsNamed input s.db) → Covers s s' result := by
  constructor
  · intro e s' h
    rcases Tx.bind_throws.mp h with h | ⟨result, mid, hatomic, h⟩
    · obtain rfl := (Tx.transactionSync_throws.mp h).1
      exact ⟨rfl, rfl⟩
    · rcases atomicMutation_returns hatomic with ⟨hdb, hlive⟩ | hran
      · simp only [Tx.bind_throws, Tx.require_throws, Tx.pure_throws, and_false, exists_false,
          or_false] at h
        obtain ⟨-, -, rfl⟩ := h
        exact ⟨hlive, hdb⟩
      · simp [Tx.require_throws, hran.envelope] at h
  · intro result s' h hactions
    simp only [executeAtomicMutation, Tx.bind_returns, Tx.require_returns, Tx.pure_returns] at h
    obtain ⟨_, _, hatomic, _, _, ⟨-, rfl⟩, rfl, rfl⟩ := h
    rcases atomicMutation_returns hatomic with ⟨hdb, -⟩ | hran
    · exact covers_of_unchanged hdb
    · exact hran.covers (hactions hran.ran)

end

/-! ### A project and its tasks -/

def projectTable (name : String) : CdbTableMeta where
  name := name
  tenantKind := .org
  tenantBy := some "organization_id"
  selfBy := none
  partitionBy := .colocate []
  publicRead := false
  rawRoles := [("member", .star)]
  columns := [⟨"id", "id"⟩, ⟨"organizationId", "organization_id"⟩, ⟨"projectId", "project_id"⟩]
  matrix := .empty _
  tenantBy_isSome := tenantBy_isSome_some .org "organization_id"
  tenantBy_mem column h := by cases h; decide
  selfBy_mem column h := by cases h
  selfBy_user := selfBy_user_none .org
  sqlNames_nodup := by decide
  jsKeys_nodup := by decide

/-- Tasks go when their project goes. -/
def projectSchema : DomainSchema where
  tables := [projectTable "projects", projectTable "tasks"]
  refs := ⟨[⟨"tasks", "projects", [("project_id", "id")], .cascade, .noAction⟩], .null,
    fun _ _ => .null, 1000, fun _ => true⟩

def projectRow : Row := fun col => if col = "organization_id" then .text "o1" else .text "p1"

/-- A handler that runs these steps and returns nothing. -/
def deletingHandler (steps : List HandlerStep) : AtomicHandler Int where
  steps _ := steps
  result _ := .ok (⟨.null, by simp [JsValue.Wf]⟩, ⟨0, by decide⟩)

def deletingInput (steps : List HandlerStep) : ExecuteAtomicMutationInput Int where
  principalId := "u1"
  mutId := "m1"
  canonicalRequest := "\x7b\x7d"
  schemaEpoch := 1
  placementVshard := none
  nowMs := 0
  cookie := "c1"
  wrapped := ⟨projectSchema, .mutation, ⟨some "u1", some "o1", none, some ["member"], none⟩, none⟩
  wrapped_kind := rfl
  handler := deletingHandler steps
  beforeRun := .ok ()
  onOutcome _ := .ok ()

/-- A project with a task, and no subscriptions. -/
def projectDb : MutationDb where
  oplog := ⟨.empty, [⟨"projects", projectRow⟩, ⟨"tasks", projectRow⟩], .empty⟩
  live := .initial

/-- The tasks go with their project, and the handler deletes from both tables. -/
def bothSteps : List HandlerStep := [.call (.delete "projects" []), .call (.delete "tasks" [])]

theorem changed_tables_invalidated_tasks :
    ((deletingInput bothSteps).handler.play (deletingInput bothSteps).wrapped projectDb.db).acted =
        ["tasks"] ∧
      InvalidationSound sampleSha256 IDENTITY_CODEC (deletingInput bothSteps) projectDb := by
  have hacted : ((deletingInput bothSteps).handler.play (deletingInput bothSteps).wrapped
      projectDb.db).acted = ["tasks"] := by decide +kernel
  have hnamed : ((deletingInput bothSteps).handler.play (deletingInput bothSteps).wrapped
      projectDb.db).named = ["projects", "tasks"] := by decide +kernel
  refine ⟨hacted, fun result s' h => ?_, changed_tables_invalidated.1⟩
  refine changed_tables_invalidated.2 result s' h fun _ table htable => ?_
  rw [hacted] at htable
  rw [hnamed]
  exact List.mem_cons_of_mem _ htable

theorem cascade_not_invalidated :
    ¬ ∀ (input : ExecuteAtomicMutationInput Int) (s : MutationDb),
      InvalidationSound sampleSha256 IDENTITY_CODEC input s := by
  intro hall
  have hsound := hall (deletingInput [.call (.delete "projects" [])]) projectDb
  have hruns : ((executeAtomicMutation sampleSha256 IDENTITY_CODEC
      (deletingInput [.call (.delete "projects" [])]) projectDb).1.toOption.map
        AtomicMutationResult.touchedTables) = some ["projects"] := by decide +kernel
  have hempty : (((executeAtomicMutation sampleSha256 IDENTITY_CODEC
      (deletingInput [.call (.delete "projects" [])]) projectDb).2.db.rows "tasks").length) = 0 := by
    decide +kernel
  rcases hrun : executeAtomicMutation sampleSha256 IDENTITY_CODEC
      (deletingInput [.call (.delete "projects" [])]) projectDb with ⟨_ | result, s'⟩
  · rw [hrun] at hruns
    cases hruns
  · rw [hrun] at hruns hempty
    have htouched : result.touchedTables = ["projects"] := Option.some.inj hruns
    have hchanged : Changed projectDb s' "tasks" := fun h => by
      rw [h] at hempty
      exact absurd hempty (by decide)
    have hmem := (hsound.commits result s' hrun).touched "tasks" hchanged
    rw [htouched] at hmem
    exact absurd hmem (by decide)

end Chardb.Mutation
