import Chardb.Recovery.CoordinatorInvariant

/-!
# An operation that is driven to its end

The calls that take an operation through all of its phases, in an idle store. They show that the
bound on complete operations is reached: the row of the first of 65 operations goes.
-/

namespace Chardb.Recovery

open Chardb.Lib Reshard

section
variable {db : CoordinatorDb} {parses : ContinuationKind → String → Bool}
  {done : List StoredOperation} {r : StoredOperation} {st : RecoveryCoordinatorState}

/-- The store works on this operation, at this row, after the operations that are done. -/
structure At (db : CoordinatorDb) (done : List StoredOperation) (r : StoredOperation) : Prop where
  valid : isRecoveryOperationId r.operationId = true
  active : db.clock.activeOperationId = some r.operationId
  rows : db.operations.rows = done ++ [r]

theorem At.row (h : At db done r) : db.operation? r.operationId = some r :=
  operation?_of_mem (by simp [h.rows])

/-- The operations that are done are other ones. -/
theorem At.ne (h : At db done r) {x : StoredOperation} (hx : x ∈ done) :
    x.operationId ≠ r.operationId := by
  have hnodup := db.operations.nodup
  rw [h.rows, List.map_append, List.map_singleton, List.nodup_append] at hnodup
  exact hnodup.2.2 _ (List.mem_map_of_mem hx) _ (List.mem_singleton_self _)

theorem At.read (h : At db done r) (hst : r.project = .ok st) :
    (Recovery.read r.operationId).Returns db st db := by
  unfold Recovery.read
  simp only [Tx.bind_returns, Tx.require_returns, Tx.gets_returns]
  refine ⟨(), db, ⟨h.valid, rfl⟩, _, db, ⟨rfl, rfl⟩, ?_⟩
  rw [h.row]
  exact Tx.ofExcept_returns.mpr ⟨hst, rfl⟩

/-- The store with the row moved. -/
structure MovedTo (db db' : CoordinatorDb) (done : List StoredOperation) (r : StoredOperation) :
    Prop where
  at_row : At db' done r
  clock : db'.clock = db.clock
  commits : db'.commits = db.commits

/-- An update that keeps the key and the checks of the row goes through. -/
theorem At.update {p : StoredOperation → Bool} {f : StoredOperation → StoredOperation}
    (h : At db done r) (hp : p r = true) (hid : (f r).operationId = r.operationId)
    (hcheck : (f r).check) :
    ∃ db', (updateOperation r.operationId p f).Returns db 1 db' ∧ MovedTo db db' done (f r) := by
  have honly : ∀ x ∈ db.operations, (decide (x.operationId = r.operationId) && p x) = true →
      x = r := by
    intro x hx hm
    simp only [Bool.and_eq_true, decide_eq_true_eq] at hm
    exact Table.eq_of_key hx (mem_of_operation? h.row) hm.1
  obtain ⟨t, ht⟩ := Option.isSome_iff_exists.mp <| Table.update?_isSome
    (t := db.operations) (p := fun x => decide (x.operationId = r.operationId) && p x) (f := f)
    (fun x hx hm => by rw [honly x hx hm]; exact hid) fun x hx hm => by rw [honly x hx hm]; exact hcheck
  have hreturns : (updateOperation r.operationId p f).Returns db
      (db.operations.select fun x => decide (x.operationId = r.operationId) && p x).length
      { db with operations := t } :=
    onOperations_returns.mpr ⟨t, Table.update_returns.mpr ⟨ht, rfl⟩, rfl⟩
  obtain ⟨hone, -, -, hrows⟩ := updateOperation_returns hreturns h.row hp
  rw [hone] at hreturns
  refine ⟨{ db with operations := t }, hreturns, ⟨hid ▸ h.valid, hid ▸ h.active, ?_⟩, rfl, rfl⟩
  rw [hrows, h.rows, List.map_append, List.map_singleton, if_pos rfl]
  congr 1
  refine (List.map_congr_left fun x hx => ?_).trans (List.map_id done)
  exact if_neg (h.ne hx)

theorem after_of_returns {α : Type} {x : CoordinatorTx α} {a : α} {db' : CoordinatorDb}
    (h : x.Returns db a db') : (do let _ ← x : CoordinatorTx Unit).after db = db' := by
  refine Tx.Returns.after (a := ()) (Tx.bind_returns.mpr ⟨a, db', h, ?_⟩)
  exact Tx.pure_returns.mpr ⟨rfl, rfl⟩

end

/-! ## One operation -/

def sampleDigest : String := "0000000000000000000000000000000000000000000000000000000000000000"

def sampleRestore : String :=
  "\x7b\"afterPhysicalVersion\":0,\"afterRetainedFileId\":\"\",\"afterVectorId\":\"\"," ++
  "\"commitPolls\":0,\"filePages\":0,\"files\":0,\"filesRetained\":0,\"kind\":\"restore\"," ++
  "\"phase\":\"arm\",\"quiescenceTurns\":0,\"retentionPages\":0,\"shardIndex\":0," ++
  "\"vectorPages\":0,\"vectors\":0\x7d"

def sampleReconcile : String :=
  "\x7b\"afterCreatedSeq\":0,\"afterFileId\":\"\",\"filePages\":0,\"filesRehydrated\":0," ++
  "\"kind\":\"reconcile\",\"nowMs\":0,\"phase\":\"files\",\"settleTurns\":0,\"shardIndex\":0," ++
  "\"vectorPages\":0,\"vectorsRequeued\":0\x7d"

/-- The two texts are the ones that are read. -/
def sampleParses : ContinuationKind → String → Bool
  | .restore, text => text = sampleRestore
  | .reconcile, text => text = sampleReconcile

/-- The calls of an operation with one shard. -/
def lifecycle (operationId : String) : List RecoveryCall :=
  [.claimPreparation false operationId sampleDigest sampleRestore,
    .beginCommits operationId ⟨0, 0, 0⟩, .finishObject operationId "shard-0" "bookmark-0",
    .advanceShard operationId 0 "shard-0", .finishShards operationId sampleReconcile 1,
    .beginReleases operationId ⟨0, 0⟩, .advanceRelease operationId 0, .beginCatalog operationId 1,
    .complete operationId]

/-- The checks that the literals of a sample call meet, evaluated once. -/
theorem sample_checks :
    (continuation sampleParses sampleRestore .restore = .ok () ∧
      continuation sampleParses sampleReconcile .reconcile = .ok () ∧
      isSchemaDigest sampleDigest = true) ∧
    (isObjectId "shard-0" = true ∧ isBookmark "bookmark-0" = true ∧
      "000000-0000-4000-8000-000000000000".toList.splitOn '-' =
        ["000000".toList, "0000".toList, "4000".toList, "8000".toList, "000000000000".toList]) ∧
    (∀ a < 16, isLowerHex (Nat.digitChar a) = true ∧ Nat.digitChar a ≠ '-') ∧
    ∀ a < 16, ∀ b < 16, Nat.digitChar a = Nat.digitChar b → a = b := by
  decide +kernel

theorem continuation_restore : continuation sampleParses sampleRestore .restore = .ok () :=
  sample_checks.1.1

theorem continuation_reconcile : continuation sampleParses sampleReconcile .reconcile = .ok () :=
  sample_checks.1.2.1

theorem assertIdentity_sample {operationId : String} (h : isRecoveryOperationId operationId = true) :
    assertIdentity operationId sampleDigest = .ok () := by
  have hdigest : isSchemaDigest sampleDigest = true := sample_checks.1.2.2
  rw [assertIdentity, if_neg (by simp [h]), if_neg (by simp [hdigest])]

section
variable {db : CoordinatorDb} {operationId : String} {g : Int} {done : List StoredOperation}

/-- The row of the operation in a phase. -/
def sampleRow (operationId : String) (g : Int) (phase : RecoveryPhase) (commitIndex releaseIndex : Int)
    (continuationJson : Option String) (reconciled : Option Int) : StoredOperation where
  operationId
  digest := sampleDigest
  generation := g
  phase
  provider := ⟨0, 0, 0⟩
  commitIndex
  releaseIndex
  continuationJson
  filesRehydrated := reconciled
  vectorsRequeued := reconciled

theorem sampleRow_check {phase : RecoveryPhase} {commitIndex releaseIndex : Int}
    {json : Option String} {reconciled : Option Int} (hg : 0 < g) (hc : 0 ≤ commitIndex)
    (hr : 0 ≤ releaseIndex) :
    (sampleRow operationId g phase commitIndex releaseIndex json reconciled).check :=
  ⟨hg, le_rfl, le_rfl, le_rfl, hc, hr⟩

theorem count_counter {value : Int} {label : String} (h : IsCounter value) :
    count value label = .ok value := if_pos h

theorem claim_at (hid : isRecoveryOperationId operationId = true)
    (hidle : db.clock.activeOperationId = none) (hnew : db.operation? operationId = none)
    (hg : IsCounter db.clock.generation) (hmax : db.clock.generation < MAX_SAFE_INTEGER) :
    ∃ st db', (claimPreparation sampleParses false operationId sampleDigest sampleRestore).Returns
      db st db' ∧ At db' db.operations.rows
        (sampleRow operationId (db.clock.generation + 1) .preparing 0 0 (some sampleRestore) none) ∧
      db'.clock.generation = db.clock.generation + 1 ∧ db'.commits = db.commits := by
  have hpos : 0 < db.clock.generation + 1 := by
    have := hg.2
    omega
  have hcheck : (sampleRow operationId (db.clock.generation + 1) .preparing 0 0
      (some sampleRestore) none).check := sampleRow_check hpos le_rfl le_rfl
  obtain ⟨t, ht⟩ := Option.isSome_iff_exists.mp <| Table.insert?_isSome.mpr
    ⟨Table.find?_eq_none.mp (show db.operations.find? operationId = none from hnew), hcheck⟩
  refine ⟨.preparing ⟨operationId, sampleDigest, db.clock.generation + 1⟩ sampleRestore,
    ⟨⟨db.clock.generation + 1, some operationId⟩, t, db.commits⟩, ?_,
    ⟨hid, rfl, Table.rows_insert ht⟩, rfl, rfl⟩
  unfold claimPreparation
  simp only [Tx.bind_returns, Tx.ofExcept_returns]
  refine ⟨(), db, ⟨assertIdentity_sample hid, rfl⟩, (), db, ⟨continuation_restore, rfl⟩,
    .new operationId, db, ?_, ?_⟩
  · unfold read
    simp only [Tx.bind_returns, Tx.require_returns, Tx.gets_returns]
    refine ⟨(), db, ⟨hid, rfl⟩, _, db, ⟨rfl, rfl⟩, ?_⟩
    rw [hnew]
    exact Tx.pure_returns.mpr ⟨rfl, rfl⟩
  · show (claimNew false operationId sampleDigest sampleRestore).Returns db _ _
    unfold claimNew
    refine Tx.bind_returns.mpr ⟨⟨db.clock.generation, none, none⟩, db, ?_, ?_⟩
    · unfold admissionClock
      simp only [Tx.bind_returns, Tx.gets_returns, Tx.ofExcept_returns]
      refine ⟨_, db, ⟨rfl, rfl⟩, _, db, ⟨count_counter hg, rfl⟩, ?_⟩
      rw [hidle]
      exact Tx.pure_returns.mpr ⟨rfl, rfl⟩
    · unfold insertPreparation
      simp only [Tx.bind_returns, Tx.require_returns, onOperations_returns, Table.insert_returns,
        Tx.modify_returns, Tx.pure_returns]
      exact ⟨(), db, ⟨trivial, rfl⟩, (), db, ⟨hmax, rfl⟩, (), _, ⟨(), _, ⟨t, ht, rfl⟩, rfl⟩, trivial,
        rfl⟩

variable (hg : IsCounter g) (hpos : 0 < g)
include hg hpos

theorem beginCommits_at
    (h : At db done (sampleRow operationId g .preparing 0 0 (some sampleRestore) none)) :
    ∃ st db', (beginCommits operationId ⟨0, 0, 0⟩).Returns db st db' ∧
      MovedTo db db' done (sampleRow operationId g .committing 0 0 none none) := by
  have hproject : (sampleRow operationId g .preparing 0 0 (some sampleRestore) none).project =
      .ok (.preparing ⟨operationId, sampleDigest, g⟩ sampleRestore) := by
    show (count g "generation" >>= _) = _
    rw [count_counter hg]
    rfl
  obtain ⟨db', hupdate, hmoved⟩ := h.update (p := fun _ => true)
    (f := fun r => { r with phase := .committing, provider := ⟨0, 0, 0⟩, continuationJson := none })
    rfl rfl (sampleRow_check hpos le_rfl le_rfl)
  refine ⟨.committing ⟨operationId, sampleDigest, g⟩ ⟨0, 0, 0⟩ 0, db', ?_, hmoved⟩
  refine Tx.bind_returns.mpr ⟨(), db, Tx.ofExcept_returns.mpr ⟨rfl, rfl⟩, ?_⟩
  refine Tx.bind_returns.mpr ⟨_, db, h.read hproject, ?_⟩
  exact Tx.bind_returns.mpr ⟨1, db', hupdate, Tx.pure_returns.mpr ⟨rfl, rfl⟩⟩

omit hpos in
theorem finishObject_at (h : At db done (sampleRow operationId g .committing 0 0 none none))
    (hnone : db.commit? operationId "shard-0" = none) :
    ∃ db', (finishObject operationId "shard-0" "bookmark-0").Returns db () db' ∧
      At db' done (sampleRow operationId g .committing 0 0 none none) ∧ db'.clock = db.clock ∧
      db'.Scheduled operationId "shard-0" ∧
      ∀ k o, k ≠ operationId → db'.commit? k o = db.commit? k o := by
  have hproject : (sampleRow operationId g .committing 0 0 none none).project =
      .ok (.committing ⟨operationId, sampleDigest, g⟩ ⟨0, 0, 0⟩ 0) := by
    show (count g "generation" >>= _) = _
    rw [count_counter hg]
    rfl
  obtain ⟨t, ht⟩ := Option.isSome_iff_exists.mp <| Table.insert?_isSome.mpr
    ⟨Table.find?_eq_none.mp (show db.commits.find?
      (⟨operationId, "shard-0", "bookmark-0", .intent⟩ : StoredCommit).key = none from hnone),
      trivial⟩
  have hbegin : (beginObject operationId "shard-0" "bookmark-0").Returns db .intent
      { db with commits := t } := by
    unfold beginObject
    refine Tx.bind_returns.mpr ⟨_, db, h.read hproject, ?_⟩
    refine Tx.bind_returns.mpr ⟨(), db, Tx.require_returns.mpr ⟨rfl, rfl⟩, ?_⟩
    have hchecks := And.intro sample_checks.2.1.1 sample_checks.2.1.2.1
    refine Tx.bind_returns.mpr ⟨(), db, Tx.require_returns.mpr ⟨hchecks, rfl⟩, ?_⟩
    refine Tx.bind_returns.mpr ⟨_, db, Tx.gets_returns.mpr ⟨rfl, rfl⟩, ?_⟩
    rw [hnone]
    unfold insertCommit
    simp only [Tx.bind_returns, onCommits_returns, Table.insert_returns, Tx.pure_returns]
    exact ⟨(), _, ⟨t, ht, rfl⟩, trivial, rfl⟩
  have hfound : CoordinatorDb.commit? { db with commits := t } operationId "shard-0" =
      some ⟨operationId, "shard-0", "bookmark-0", .intent⟩ :=
    (Table.find?_insert ht (operationId, "shard-0")).trans (if_pos rfl)
  obtain ⟨u, hu⟩ := Option.isSome_iff_exists.mp <| Table.update?_isSome (t := t)
    (p := fun r => decide (r.key = (operationId, "shard-0")) && decide (r.bookmark = "bookmark-0"))
    (f := fun r => { r with status := .scheduled }) (fun _ _ _ => rfl) fun _ _ _ => trivial
  have hschedule : (scheduleCommit operationId "shard-0" "bookmark-0").Returns
      { db with commits := t } () { db with commits := u } := by
    unfold scheduleCommit
    simp only [Tx.bind_returns, onCommits_returns, Table.update_returns, Tx.pure_returns]
    exact ⟨_, _, ⟨u, ⟨hu, rfl⟩, rfl⟩, trivial, rfl⟩
  obtain ⟨-, -, hcommits⟩ := scheduleCommit_returns hschedule hfound rfl
  refine ⟨{ db with commits := u }, ?_, ⟨h.valid, h.active, h.rows⟩, rfl, ?_, fun k o hk => ?_⟩
  · exact Tx.bind_returns.mpr ⟨.intent, _, hbegin, hschedule⟩
  · unfold CoordinatorDb.Scheduled
    rw [hcommits, if_pos rfl]
    rfl
  · have hne : (operationId, "shard-0") ≠ (k, o) := fun he => hk (congrArg Prod.fst he).symm
    rw [hcommits, if_neg hne]
    exact (Table.find?_insert ht (k, o)).trans (if_neg hne)

theorem advanceShard_at (h : At db done (sampleRow operationId g .committing 0 0 none none))
    (hs : db.Scheduled operationId "shard-0") :
    ∃ st db', (advanceShard operationId 0 "shard-0").Returns db st db' ∧
      MovedTo db db' done (sampleRow operationId g .committing 1 0 none none) := by
  have hproject : (sampleRow operationId g .committing 0 0 none none).project =
      .ok (.committing ⟨operationId, sampleDigest, g⟩ ⟨0, 0, 0⟩ 0) := by
    show (count g "generation" >>= _) = _
    rw [count_counter hg]
    rfl
  obtain ⟨db', hupdate, hmoved⟩ := h.update
    (p := fun r => r.phase = .committing && r.commitIndex = 0)
    (f := fun r => { r with commitIndex := r.commitIndex + 1 }) rfl rfl
    (sampleRow_check hpos Int.one_nonneg le_rfl)
  refine ⟨.committing ⟨operationId, sampleDigest, g⟩ ⟨0, 0, 0⟩ 1, db', ?_, hmoved⟩
  refine Tx.bind_returns.mpr ⟨_, db, h.read hproject, ?_⟩
  refine Tx.bind_returns.mpr ⟨(), db, Tx.require_returns.mpr ⟨⟨by decide, rfl, sample_checks.2.1.1⟩, rfl⟩, ?_⟩
  refine Tx.bind_returns.mpr ⟨_, db, Tx.gets_returns.mpr ⟨rfl, rfl⟩, ?_⟩
  refine Tx.bind_returns.mpr ⟨(), db, Tx.require_returns.mpr ⟨hs, rfl⟩, ?_⟩
  refine Tx.bind_returns.mpr ⟨1, db', hupdate, ?_⟩
  exact Tx.bind_returns.mpr ⟨(), db', Tx.require_returns.mpr ⟨rfl, rfl⟩, Tx.pure_returns.mpr ⟨rfl, rfl⟩⟩

theorem finishShards_at (h : At db done (sampleRow operationId g .committing 1 0 none none)) :
    ∃ st db', (finishShards sampleParses operationId sampleReconcile 1).Returns db st db' ∧
      MovedTo db db' done (sampleRow operationId g .reconciling 1 0 (some sampleReconcile) none) := by
  have hproject : (sampleRow operationId g .committing 1 0 none none).project =
      .ok (.committing ⟨operationId, sampleDigest, g⟩ ⟨0, 0, 0⟩ 1) := by
    show (count g "generation" >>= _) = _
    rw [count_counter hg]
    rfl
  obtain ⟨db', hupdate, hmoved⟩ := h.update (p := fun _ => true)
    (f := fun r => { r with phase := .reconciling, continuationJson := some sampleReconcile })
    rfl rfl (sampleRow_check hpos Int.one_nonneg le_rfl)
  refine ⟨.reconciling ⟨operationId, sampleDigest, g⟩ ⟨0, 0, 0⟩ sampleReconcile, db', ?_, hmoved⟩
  refine Tx.bind_returns.mpr ⟨(), db, Tx.ofExcept_returns.mpr ⟨continuation_reconcile, rfl⟩, ?_⟩
  refine Tx.bind_returns.mpr ⟨_, db, h.read hproject, ?_⟩
  refine Tx.bind_returns.mpr ⟨(), db, Tx.require_returns.mpr ⟨by decide, rfl⟩, ?_⟩
  refine Tx.bind_returns.mpr ⟨(), db, Tx.require_returns.mpr ⟨rfl, rfl⟩, ?_⟩
  exact Tx.bind_returns.mpr ⟨1, db', hupdate, Tx.pure_returns.mpr ⟨rfl, rfl⟩⟩

theorem beginReleases_at
    (h : At db done (sampleRow operationId g .reconciling 1 0 (some sampleReconcile) none)) :
    ∃ st db', (beginReleases operationId ⟨0, 0⟩).Returns db st db' ∧
      MovedTo db db' done (sampleRow operationId g .releasing 1 0 none (some 0)) := by
  have hproject : (sampleRow operationId g .reconciling 1 0 (some sampleReconcile) none).project =
      .ok (.reconciling ⟨operationId, sampleDigest, g⟩ ⟨0, 0, 0⟩ sampleReconcile) := by
    show (count g "generation" >>= _) = _
    rw [count_counter hg]
    rfl
  obtain ⟨db', hupdate, hmoved⟩ := h.update (p := fun _ => true)
    (f := fun r => { r with
      phase := .releasing, filesRehydrated := some 0, vectorsRequeued := some 0
      continuationJson := none })
    rfl rfl (sampleRow_check hpos Int.one_nonneg le_rfl)
  refine ⟨.releasing ⟨operationId, sampleDigest, g⟩ ⟨0, 0, 0⟩ ⟨0, 0⟩ 0, db', ?_, hmoved⟩
  refine Tx.bind_returns.mpr ⟨(), db, Tx.ofExcept_returns.mpr ⟨rfl, rfl⟩, ?_⟩
  refine Tx.bind_returns.mpr ⟨_, db, h.read hproject, ?_⟩
  exact Tx.bind_returns.mpr ⟨1, db', hupdate, Tx.pure_returns.mpr ⟨rfl, rfl⟩⟩

theorem advanceRelease_at (h : At db done (sampleRow operationId g .releasing 1 0 none (some 0))) :
    ∃ st db', (advanceRelease operationId 0).Returns db st db' ∧
      MovedTo db db' done (sampleRow operationId g .releasing 1 1 none (some 0)) := by
  have hproject : (sampleRow operationId g .releasing 1 0 none (some 0)).project =
      .ok (.releasing ⟨operationId, sampleDigest, g⟩ ⟨0, 0, 0⟩ ⟨0, 0⟩ 0) := by
    show (count g "generation" >>= _) = _
    rw [count_counter hg]
    rfl
  obtain ⟨db', hupdate, hmoved⟩ := h.update
    (p := fun r => r.phase = .releasing && r.releaseIndex = 0)
    (f := fun r => { r with releaseIndex := r.releaseIndex + 1 }) rfl rfl
    (sampleRow_check hpos Int.one_nonneg Int.one_nonneg)
  refine ⟨.releasing ⟨operationId, sampleDigest, g⟩ ⟨0, 0, 0⟩ ⟨0, 0⟩ 1, db', ?_, hmoved⟩
  refine Tx.bind_returns.mpr ⟨_, db, h.read hproject, ?_⟩
  refine Tx.bind_returns.mpr ⟨(), db, Tx.require_returns.mpr ⟨by decide, rfl⟩, ?_⟩
  refine Tx.bind_returns.mpr ⟨1, db', hupdate, ?_⟩
  exact Tx.bind_returns.mpr ⟨(), db', Tx.require_returns.mpr ⟨rfl, rfl⟩, Tx.pure_returns.mpr ⟨rfl, rfl⟩⟩

theorem beginCatalog_at (h : At db done (sampleRow operationId g .releasing 1 1 none (some 0))) :
    ∃ st db', (beginCatalog operationId 1).Returns db st db' ∧
      MovedTo db db' done (sampleRow operationId g .catalog 1 1 none (some 0)) := by
  have hproject : (sampleRow operationId g .releasing 1 1 none (some 0)).project =
      .ok (.releasing ⟨operationId, sampleDigest, g⟩ ⟨0, 0, 0⟩ ⟨0, 0⟩ 1) := by
    show (count g "generation" >>= _) = _
    rw [count_counter hg]
    rfl
  obtain ⟨db', hupdate, hmoved⟩ := h.update (p := fun _ => true)
    (f := fun r => { r with phase := .catalog }) rfl rfl (sampleRow_check hpos Int.one_nonneg Int.one_nonneg)
  refine ⟨.catalog ⟨operationId, sampleDigest, g⟩ ⟨0, 0, 0⟩ ⟨0, 0⟩, db', ?_, hmoved⟩
  refine Tx.bind_returns.mpr ⟨_, db, h.read hproject, ?_⟩
  refine Tx.bind_returns.mpr ⟨(), db, Tx.require_returns.mpr ⟨by decide, rfl⟩, ?_⟩
  exact Tx.bind_returns.mpr ⟨1, db', hupdate, Tx.pure_returns.mpr ⟨rfl, rfl⟩⟩

omit hpos in
theorem complete_at (h : At db done (sampleRow operationId g .catalog 1 1 none (some 0)))
    (hpos : 0 < g) :
    ∃ st db', ∃ mid : CoordinatorDb, (complete operationId).Returns db st db' ∧
      db'.clock = { db.clock with activeOperationId := none } ∧
      mid.operations.rows = done ++ [sampleRow operationId g .complete 1 1 none (some 0)] ∧
      db'.operations.rows = mid.operations.rows.filter (fun x => decide (x.operationId ∉ mid.retired)) ∧
      ∀ k o, db'.commit? k o = if k ∈ mid.retired then none else db.commit? k o := by
  have hproject : (sampleRow operationId g .catalog 1 1 none (some 0)).project =
      .ok (.catalog ⟨operationId, sampleDigest, g⟩ ⟨0, 0, 0⟩ ⟨0, 0⟩) := by
    show (count g "generation" >>= _) = _
    rw [count_counter hg]
    rfl
  obtain ⟨upd, hupdate, hmoved⟩ := h.update (p := fun _ => true)
    (f := fun r => { r with phase := .complete }) rfl rfl
    (sampleRow_check hpos Int.one_nonneg Int.one_nonneg)
  let cleared : CoordinatorDb := { upd with clock := { upd.clock with activeOperationId := none } }
  have hclear : (clearActive operationId
      "active recovery operation changed before completion").Returns upd () cleared := by
    unfold clearActive
    simp only [Tx.bind_returns, Tx.gets_returns, Tx.require_returns, Tx.modify_returns]
    exact ⟨_, upd, ⟨rfl, rfl⟩, (), upd, ⟨hmoved.at_row.active, rfl⟩, rfl⟩
  rcases pruneTerminal.returns_or_throws cleared with ⟨u, hprune⟩ | ⟨e, hprune⟩
  · obtain ⟨hclock, hrows, hcommits⟩ := pruneTerminal_returns hprune
    refine ⟨.complete ⟨operationId, sampleDigest, g⟩ ⟨0, 0, 0⟩ ⟨0, 0⟩, _, cleared, ?_, ?_,
      hmoved.at_row.rows, hrows, ?_⟩
    · refine Tx.bind_returns.mpr ⟨_, db, h.read hproject, ?_⟩
      refine Tx.bind_returns.mpr ⟨1, upd, hupdate, ?_⟩
      refine Tx.bind_returns.mpr ⟨(), cleared, hclear, ?_⟩
      exact Tx.bind_returns.mpr ⟨u, _, hprune, Tx.pure_returns.mpr ⟨rfl, rfl⟩⟩
    · rw [hclock]
      show ({ upd.clock with activeOperationId := none } : RecoveryClock) = _
      rw [hmoved.clock]
    · intro k o
      rw [hcommits]
      show (if _ then none else Table.find? upd.commits (k, o)) = _
      rw [hmoved.commits]
      rfl
  · exact (not_throws_pruneTerminal hprune).elim

end

section
variable {db : CoordinatorDb} {operationId : String}

/-- The calls before the last one bring a new operation to `catalog`. -/
theorem lifecycle_at (hid : isRecoveryOperationId operationId = true)
    (hidle : db.clock.activeOperationId = none) (hnew : db.operation? operationId = none)
    (hclean : db.commit? operationId "shard-0" = none) (hg : IsCounter db.clock.generation)
    (hmax : db.clock.generation < MAX_SAFE_INTEGER) :
    At (db.run sampleParses (lifecycle operationId).dropLast) db.operations.rows
        (sampleRow operationId (db.clock.generation + 1) .catalog 1 1 none (some 0)) ∧
      (db.run sampleParses (lifecycle operationId).dropLast).clock.generation =
        db.clock.generation + 1 ∧
      ∀ k o, k ≠ operationId →
        (db.run sampleParses (lifecycle operationId).dropLast).commit? k o = db.commit? k o := by
  have hpos : 0 < db.clock.generation + 1 := by
    have := hg.2
    omega
  have hg' : IsCounter (db.clock.generation + 1) := by
    unfold IsCounter IsSafeInteger at *
    omega
  obtain ⟨_, d₁, h₁, hat₁, hgen₁, hcommits₁⟩ := claim_at hid hidle hnew hg hmax
  obtain ⟨_, d₂, h₂, hm₂⟩ := beginCommits_at hg' hpos hat₁
  obtain ⟨d₃, h₃, hat₃, hclock₃, hs₃, hcommits₃⟩ := finishObject_at hg' hm₂.at_row (by
    unfold CoordinatorDb.commit?
    rw [hm₂.commits, hcommits₁]
    exact hclean)
  obtain ⟨_, d₄, h₄, hm₄⟩ := advanceShard_at hg' hpos hat₃ hs₃
  obtain ⟨_, d₅, h₅, hm₅⟩ := finishShards_at hg' hpos hm₄.at_row
  obtain ⟨_, d₆, h₆, hm₆⟩ := beginReleases_at hg' hpos hm₅.at_row
  obtain ⟨_, d₇, h₇, hm₇⟩ := advanceRelease_at hg' hpos hm₆.at_row
  obtain ⟨_, d₈, h₈, hm₈⟩ := beginCatalog_at hg' hpos hm₇.at_row
  have hrun : db.run sampleParses (lifecycle operationId).dropLast = d₈ := by
    show (do let _ ← beginCatalog operationId 1 : CoordinatorTx Unit).after
      ((do let _ ← advanceRelease operationId 0 : CoordinatorTx Unit).after
      ((do let _ ← beginReleases operationId ⟨0, 0⟩ : CoordinatorTx Unit).after
      ((do let _ ← finishShards sampleParses operationId sampleReconcile 1 :
        CoordinatorTx Unit).after
      ((do let _ ← advanceShard operationId 0 "shard-0" : CoordinatorTx Unit).after
      ((finishObject operationId "shard-0" "bookmark-0").after
      ((do let _ ← beginCommits operationId ⟨0, 0, 0⟩ : CoordinatorTx Unit).after
      ((do let _ ← claimPreparation sampleParses false operationId sampleDigest sampleRestore :
        CoordinatorTx Unit).after db))))))) = d₈
    rw [after_of_returns h₁, after_of_returns h₂, h₃.after, after_of_returns h₄, after_of_returns h₅,
      after_of_returns h₆, after_of_returns h₇, after_of_returns h₈]
  rw [hrun]
  refine ⟨hm₈.at_row, ?_, fun k o hk => ?_⟩
  · rw [hm₈.clock, hm₇.clock, hm₆.clock, hm₅.clock, hm₄.clock, hclock₃, hm₂.clock, hgen₁]
  · have h₈ : d₈.commit? k o = d₃.commit? k o := by
      unfold CoordinatorDb.commit?
      rw [hm₈.commits, hm₇.commits, hm₆.commits, hm₅.commits, hm₄.commits]
    have h₂ : d₂.commit? k o = db.commit? k o := by
      unfold CoordinatorDb.commit?
      rw [hm₂.commits, hcommits₁]
    rw [h₈, hcommits₃ k o hk, h₂]

end

/-! ## Many operations, one after the other -/

/-- The `n`-th operation id. -/
def sampleOperation (n : Nat) : String :=
  String.ofList [Nat.digitChar (n / 16), Nat.digitChar (n % 16)] ++ "000000-0000-4000-8000-000000000000"

theorem digitChar_isLowerHex : ∀ a < 16, isLowerHex (Nat.digitChar a) = true ∧ Nat.digitChar a ≠ '-' :=
  sample_checks.2.2.1

theorem digitChar_inj : ∀ a < 16, ∀ b < 16, Nat.digitChar a = Nat.digitChar b → a = b :=
  sample_checks.2.2.2

theorem sampleOperation_valid (n : Nat) (hn : n < 65) :
    isRecoveryOperationId (sampleOperation n) = true := by
  obtain ⟨hx, hx'⟩ := digitChar_isLowerHex (n / 16) (by omega)
  obtain ⟨hy, hy'⟩ := digitChar_isLowerHex (n % 16) (by omega)
  have htail : "000000-0000-4000-8000-000000000000".toList.splitOn '-' =
      ["000000".toList, "0000".toList, "4000".toList, "8000".toList, "000000000000".toList] :=
    sample_checks.2.1.2.2
  have hzero : isLowerHex '0' = true ∧ isLowerHex '4' = true ∧ isLowerHex '8' = true := by decide
  unfold isRecoveryOperationId sampleOperation
  rw [String.toList_append, String.toList_ofList, List.cons_append, List.cons_append, List.nil_append,
    List.splitOn_cons_eq_if_modifyHead, List.splitOn_cons_eq_if_modifyHead, htail]
  simp [hx, hx', hy, hy', hzero]

theorem sampleOperation_inj {n m : Nat} (hn : n < 65) (hm : m < 65)
    (h : sampleOperation n = sampleOperation m) : n = m := by
  have hlist := congrArg String.toList h
  unfold sampleOperation at hlist
  simp only [String.toList_append, String.toList_ofList] at hlist
  have hhead := List.append_cancel_right hlist
  have h₁ : Nat.digitChar (n / 16) = Nat.digitChar (m / 16) := (List.cons.inj hhead).1
  have h₂ : Nat.digitChar (n % 16) = Nat.digitChar (m % 16) :=
    (List.cons.inj (List.cons.inj hhead).2).1
  have hdiv := digitChar_inj (n / 16) (by omega) (m / 16) (by omega) h₁
  have hmod := digitChar_inj (n % 16) (by omega) (m % 16) (by omega) h₂
  omega

def doneRow (n : Nat) : StoredOperation :=
  sampleRow (sampleOperation n) (n + 1) .complete 1 1 none (some 0)

/-- The store after `n` operations. -/
structure Done (db : CoordinatorDb) (n : Nat) : Prop where
  idle : db.clock.activeOperationId = none
  generation : db.clock.generation = n
  rows : db.operations.rows = (List.range n).map doneRow
  commits : ∀ k o, db.commit? k o ≠ none → ∃ i < n, k = sampleOperation i

def lifecycles (n : Nat) : List RecoveryCall := (List.range n).flatMap fun i => lifecycle (sampleOperation i)

theorem lifecycles_succ (n : Nat) :
    lifecycles (n + 1) = lifecycles n ++ lifecycle (sampleOperation n) := by
  simp [lifecycles, List.range_succ]

theorem run_append {db : CoordinatorDb} {parses : ContinuationKind → String → Bool}
    {calls calls' : List RecoveryCall} :
    db.run parses (calls ++ calls') = (db.run parses calls).run parses calls' := List.foldl_append

theorem run_complete {db db' : CoordinatorDb} {parses : ContinuationKind → String → Bool}
    {operationId : String} {st : RecoveryCoordinatorState}
    (h : (complete operationId).Returns db st db') :
    db.run parses [.complete operationId] = db' := after_of_returns h

section
variable {db : CoordinatorDb} {n : Nat}

/-- The next operation, up to its last call. -/
theorem Done.next (h : Done db n) (hn : n < 65) :
    At (db.run sampleParses (lifecycle (sampleOperation n)).dropLast) ((List.range n).map doneRow)
        (sampleRow (sampleOperation n) (n + 1) .catalog 1 1 none (some 0)) ∧
      (db.run sampleParses (lifecycle (sampleOperation n)).dropLast).clock.generation = n + 1 ∧
      ∀ k o, k ≠ sampleOperation n →
        (db.run sampleParses (lifecycle (sampleOperation n)).dropLast).commit? k o = db.commit? k o := by
  have hnew : db.operation? (sampleOperation n) = none := by
    refine operation?_eq_none fun x hx hxid => ?_
    rw [h.rows] at hx
    obtain ⟨i, hi, rfl⟩ := List.mem_map.mp hx
    have hlt := List.mem_range.mp hi
    have := sampleOperation_inj (by omega) hn hxid
    omega
  have hclean : db.commit? (sampleOperation n) "shard-0" = none := by
    by_contra hne
    obtain ⟨i, hi, hid⟩ := h.commits _ _ hne
    have := sampleOperation_inj hn (by omega) hid
    omega
  have hcounter : IsCounter db.clock.generation := by
    rw [h.generation]
    unfold IsCounter IsSafeInteger MAX_SAFE_INTEGER
    omega
  have hmax : db.clock.generation < MAX_SAFE_INTEGER := by
    rw [h.generation]
    unfold MAX_SAFE_INTEGER
    omega
  have := lifecycle_at (sampleOperation_valid n hn) h.idle hnew hclean hcounter hmax
  rwa [h.rows, h.generation] at this

/-- The last call of an operation that has at most 63 complete ones before it. -/
theorem Done.succ (h : Done db n) (hn : n < 64) :
    Done (db.run sampleParses (lifecycle (sampleOperation n))) (n + 1) := by
  obtain ⟨hat, hgen, hcommits⟩ := h.next (by omega)
  have hcounter : IsCounter ((n : Int) + 1) := by
    unfold IsCounter IsSafeInteger MAX_SAFE_INTEGER
    omega
  obtain ⟨_, db', mid, hcomplete, hclock, hmid, hrows, hcommits'⟩ :=
    complete_at hcounter hat (by omega)
  have hrun : db.run sampleParses (lifecycle (sampleOperation n)) = db' := by
    have hsplit : lifecycle (sampleOperation n) =
        (lifecycle (sampleOperation n)).dropLast ++ [.complete (sampleOperation n)] := rfl
    rw [hsplit, run_append, run_complete hcomplete]
  have hrange : mid.operations.rows = (List.range (n + 1)).map doneRow := by
    rw [hmid, List.range_succ, List.map_append]
    rfl
  have hretired : mid.retired = [] := by
    unfold CoordinatorDb.retired
    rw [List.drop_eq_nil_of_le, List.map_nil]
    have hle := List.length_filter_le (fun r : StoredOperation => decide (r.phase = .complete))
      mid.operations.rows
    rw [hrange, List.length_map, List.length_range] at hle
    rw [List.length_reverse, Table.select, hrange]
    unfold MAX_TERMINAL_OPERATIONS
    omega
  rw [hrun]
  refine ⟨by rw [hclock], ?_, ?_, fun k o hne => ?_⟩
  · rw [hclock]
    simpa using hgen
  · rw [hrows, hretired, ← hrange]
    simp
  · rw [hcommits', hretired, if_neg List.not_mem_nil] at hne
    by_cases hk : k = sampleOperation n
    · exact ⟨n, by omega, hk⟩
    · rw [hcommits k o hk] at hne
      obtain ⟨i, hi, hid⟩ := h.commits k o hne
      exact ⟨i, by omega, hid⟩

theorem done_lifecycles : ∀ {n : Nat}, n ≤ 64 →
    Done (CoordinatorDb.initial.run sampleParses (lifecycles n)) n := by
  intro n hn
  induction n with
  | zero => exact ⟨rfl, rfl, rfl, fun k o h => absurd rfl h⟩
  | succ n ih =>
    rw [lifecycles_succ, run_append]
    exact (ih (by omega)).succ (by omega)

end

/-- An operation goes only when its preparation is cancelled. -/
def KeptUnlessCancelled (parses : ContinuationKind → String → Bool) : Prop :=
  ∀ (calls : List RecoveryCall) (call : RecoveryCall) (id : String) (r : StoredOperation),
    (CoordinatorDb.initial.run parses calls).operation? id = some r →
    ((CoordinatorDb.initial.run parses calls).run parses [call]).operation? id = none →
    r.phase = .preparing ∧ call = .cancelPreparation id

/-- The 65th operation that completes takes the row of the first. -/
theorem complete_operation_pruned : ¬ KeptUnlessCancelled sampleParses := by
  intro hall
  have h := done_lifecycles (n := 64) le_rfl
  obtain ⟨hat, -, -⟩ := h.next (by omega)
  have hcounter : IsCounter ((64 : Nat) + 1 : Int) := by decide
  obtain ⟨_, db', mid, hcomplete, -, hmid, hrows, -⟩ := complete_at hcounter hat (by decide)
  have hfirst : (doneRow 0) ∈ (List.range 64).map doneRow :=
    List.mem_map.mpr ⟨0, by decide, rfl⟩
  have hbefore := @operation?_of_mem ((CoordinatorDb.initial.run sampleParses
    (lifecycles 64)).run sampleParses (lifecycle (sampleOperation 64)).dropLast) (doneRow 0)
    (by rw [hat.rows]; exact List.mem_append_left _ hfirst)
  have hretired : sampleOperation 0 ∈ mid.retired := by
    have hrange : mid.operations.rows = (List.range 65).map doneRow := by
      rw [hmid, List.range_succ (n := 64), List.map_append]
      rfl
    have hselect : mid.operations.select (fun r => decide (r.phase = .complete)) =
        (List.range 65).map doneRow := by
      rw [Table.select, hrange, List.filter_eq_self]
      intro x hx
      obtain ⟨i, -, rfl⟩ := List.mem_map.mp hx
      rfl
    unfold CoordinatorDb.retired
    rw [hselect, List.range_succ_eq_map (n := 64), List.map_cons, List.reverse_cons,
      List.drop_left' (by simp [MAX_TERMINAL_OPERATIONS])]
    exact List.mem_singleton_self _
  have hafter : db'.operation? (sampleOperation 0) = none := by
    refine operation?_eq_none fun x hx hxid => ?_
    rw [hrows] at hx
    exact of_decide_eq_true (List.mem_filter.mp hx).2 (hxid ▸ hretired)
  rw [← run_append] at hbefore
  have := (hall _ (.complete (sampleOperation 64)) _ _ hbefore (by
    rw [run_append, run_complete hcomplete]
    exact hafter)).1
  cases this

end Chardb.Recovery
