import Chardb.Files.FileStore
import Mathlib.Algebra.BigOperators.Group.List.Basic
import Mathlib.Algebra.Order.BigOperators.Group.List

/-!
# What a call of the file store does

Every call changes rows along the order of statuses, adds one pending row within the limits, or
releases one row in deletion; tombstones stay. Quota, pending limit and distinct object keys follow
for every run.
-/

namespace Chardb.Files

open Chardb.Lib

/-! ## Effects -/

/-- The statuses that one call moves a row to. -/
def FileStatus.Moves (s t : FileStatus) : Prop :=
  t = s ∨ t = .deleting ∨ (s = .pending ∧ t = .ready) ∨ (s = .ready ∧ t = .attached)

/-- `f'` is the row `f` later: what was declared stays, and so do the hash and the row it has. -/
structure StoredFile.Continues (f f' : StoredFile) : Prop where
  fileId : f'.fileId = f.fileId
  organizationId : f'.organizationId = f.organizationId
  table : f'.table = f.table
  column : f'.column = f.column
  objectKey : f'.objectKey = f.objectKey
  contentType : f'.contentType = f.contentType
  size : f'.size = f.size
  sha256 : ∀ h, f.sha256 = some h → f'.sha256 = some h
  rowId : ∀ r, f.rowId = some r → f'.rowId = some r
  status : f.status.Moves f'.status

theorem StoredFile.Continues.refl (f : StoredFile) : f.Continues f :=
  ⟨rfl, rfl, rfl, rfl, rfl, rfl, rfl, fun _ h => h, fun _ h => h, .inl rfl⟩

theorem StoredFile.continues_deleted (f : StoredFile) (nowMs : Int) : f.Continues (f.deleted nowMs) :=
  ⟨rfl, rfl, rfl, rfl, rfl, rfl, rfl, fun _ h => h, fun _ h => h, .inr (.inl rfl)⟩

/-- What one call may do to the tables. -/
inductive FileEffect (limits : CdbFileStoreLimits) (db db' : FileDb) : Prop
  | change (u : StoredFile → StoredFile) (continues : ∀ f ∈ db.files, f.Continues (u f))
      (rows : db'.files.rows = db.files.rows.map u)
      (tombstones : ∀ t ∈ db.tombstones, t ∈ db'.tombstones)
  | reserve (row : StoredFile) (pending : row.status = .pending)
      (fresh : ∀ f ∈ db.files, f.fileId ≠ row.fileId ∧ f.objectKey ≠ row.objectKey)
      (quota : usageBytes db row.organizationId + row.size ≤ limits.organizationQuotaBytes)
      (limit : usagePending db row.organizationId < limits.maxPendingPerOrganization)
      (rows : db'.files.rows = db.files.rows ++ [row]) (tombstones : db'.tombstones = db.tombstones)
  | release (fileId : String) (deleting : ∀ f ∈ db.files, f.fileId = fileId → f.status = .deleting)
      (rows : db'.files.rows = db.files.rows.filter fun f => !decide (f.fileId = fileId))
      (tombstones : db'.tombstones = db.tombstones)

section
variable {vshardOf : String → Int} {limits : CdbFileStoreLimits} {db db' : FileDb}

theorem FileEffect.refl : FileEffect limits db db :=
  .change id (fun f _ => .refl f) (List.map_id _).symm fun _ h => h

/-! ## What the reads answer -/

@[simp] theorem fileIdOf_returns {value : String} {a : Unit} :
    (fileIdOf value).Returns db a db' ↔ IsFileId value ∧ db = db' := Tx.require_returns

@[simp] theorem boundedText_returns {value subject : String} {a : Unit} :
    (boundedText value subject).Returns db a db' ↔
      (value ≠ "" ∧ value.utf8ByteSize ≤ 256) ∧ db = db' := Tx.require_returns

@[simp] theorem safeTime_returns {value : Int} {a : Unit} :
    (safeTime value).Returns db a db' ↔ (IsSafeInteger value ∧ 0 ≤ value) ∧ db = db' :=
  Tx.require_returns

@[simp] theorem deleteBatch_returns {limit : Int} {a : Unit} :
    (deleteBatch limit).Returns db a db' ↔
      (IsSafeInteger limit ∧ 1 ≤ limit ∧ limit ≤ CDB_FILE_DELETE_BATCH_SIZE) ∧ db = db' :=
  Tx.require_returns

theorem project_returns {row f : StoredFile} (h : (project vshardOf row).Returns db f db') :
    f = row ∧ db = db' := by
  simp only [project, assertExactPlacement, Tx.bind_returns, Tx.require_returns,
    Tx.pure_returns] at h
  obtain ⟨_, _, ⟨-, rfl⟩, _, _, ⟨-, rfl⟩, _, _, ⟨-, rfl⟩, rfl, rfl⟩ := h
  exact ⟨rfl, rfl⟩

theorem read_returns {fileId : String} {o : Option StoredFile}
    (h : (read vshardOf fileId).Returns db o db') : o = db.files.find? fileId ∧ db = db' := by
  simp only [read, Tx.bind_returns, Tx.gets_returns] at h
  obtain ⟨_, _, ⟨rfl, rfl⟩, h⟩ := h
  cases hf : db.files.find? fileId with
  | none =>
    rw [hf] at h
    exact Tx.pure_returns.mp h
  | some row =>
    rw [hf] at h
    obtain ⟨f, hp, rfl⟩ := Tx.map_returns.mp h
    obtain ⟨rfl, rfl⟩ := project_returns hp
    exact ⟨rfl, rfl⟩

theorem requireFile_returns {fileId : String} {f : StoredFile}
    (h : (requireFile vshardOf fileId).Returns db f db') :
    db.files.find? fileId = some f ∧ db = db' := by
  simp only [requireFile, Tx.bind_returns, Tx.ofOption_returns] at h
  obtain ⟨_, _, hr, rfl, rfl⟩ := h
  obtain ⟨hf, rfl⟩ := read_returns hr
  exact ⟨hf.symm, rfl⟩

/-- The organization has no tombstone. -/
def FileDb.Active (db : FileDb) (organizationId : String) : Prop :=
  db.tombstones.find? organizationId = none

theorem assertOrganizationActive_returns {organizationId : String} {a : Unit}
    (h : (assertOrganizationActive organizationId).Returns db a db') :
    db.Active organizationId ∧ db = db' := by
  simp only [assertOrganizationActive, isOrganizationDeleted, Tx.bind_returns, Tx.gets_returns,
    Tx.require_returns, boundedText_returns] at h
  obtain ⟨_, _, ⟨_, _, ⟨-, rfl⟩, rfl, rfl⟩, hn, rfl⟩ := h
  exact ⟨Option.isSome_eq_false_iff.mp hn |> Option.isNone_iff_eq_none.mp, rfl⟩

/-! ## What the statements do -/

theorem onFiles_returns {α : Type} {x : Tx Thrown FileTable α} {a : α} :
    (onFiles x).Returns db a db' ↔ ∃ t, x.Returns db.files a t ∧ db' = { db with files := t } :=
  Tx.zoom_returns

theorem updateFile_returns {fileId : String} {p : StoredFile → Bool} {f : StoredFile → StoredFile}
    {n : Nat} (h : (updateFile fileId p f).Returns db n db') :
    db'.files.rows = db.files.rows.map (fun r => if decide (r.fileId = fileId) && p r then f r else r) ∧
      db'.tombstones = db.tombstones := by
  obtain ⟨t, ht, rfl⟩ := onFiles_returns.mp h
  exact ⟨Table.rows_update (Table.update_returns.mp ht).1, rfl⟩

/-- An update that continues the rows it matches is a change. -/
theorem effect_updateFile {fileId : String} {p : StoredFile → Bool} {f : StoredFile → StoredFile}
    {n : Nat} (h : (updateFile fileId p f).Returns db n db')
    (hf : ∀ r ∈ db.files, p r = true → r.Continues (f r)) : FileEffect limits db db' := by
  obtain ⟨hrows, ht⟩ := updateFile_returns h
  refine .change _ (fun r hr => ?_) hrows fun t h => ht ▸ h
  split
  · rename_i hp
    exact hf r hr (Bool.and_eq_true_iff.mp hp).2
  · exact .refl r

theorem effect_transition {fileId message : String} {p : StoredFile → Bool}
    {f : StoredFile → StoredFile} {a : Unit} (h : (transition fileId p f message).Returns db a db')
    (hf : ∀ r ∈ db.files, p r = true → r.Continues (f r)) : FileEffect limits db db' := by
  simp only [transition, Tx.bind_returns, Tx.require_returns] at h
  obtain ⟨_, _, h, -, rfl⟩ := h
  exact effect_updateFile h hf

theorem insertFile_returns {row : StoredFile} {a : Unit} (h : (insertFile row).Returns db a db') :
    (∀ f ∈ db.files, f.fileId ≠ row.fileId ∧ f.objectKey ≠ row.objectKey) ∧
      db'.files.rows = db.files.rows ++ [row] ∧ db'.tombstones = db.tombstones := by
  simp only [insertFile, Tx.bind_returns, Tx.gets_returns, Tx.require_returns] at h
  obtain ⟨_, _, ⟨rfl, rfl⟩, _, _, ⟨hnone, rfl⟩, h⟩ := h
  obtain ⟨t, ht, rfl⟩ := onFiles_returns.mp h
  have hi := Table.insert_returns.mp ht
  refine ⟨fun f hf => ⟨(Table.insert?_fresh hi).1 f hf, fun hk => ?_⟩, Table.rows_insert hi, rfl⟩
  have : f ∈ db.files.select fun f => decide (f.objectKey = row.objectKey) :=
    Table.mem_select.mpr ⟨hf, decide_eq_true hk⟩
  rw [hnone] at this
  cases this

/-! ## Calls -/

theorem effect_reserve {input : ReserveInput} {f : StoredFile}
    (h : (reserve vshardOf limits input).Returns db f db') :
    FileEffect limits db db' ∧ db.Active input.organizationId := by
  simp only [reserve, Tx.bind_returns, fileIdOf_returns, boundedText_returns, safeTime_returns,
    Tx.require_returns] at h
  obtain ⟨_, _, ⟨-, rfl⟩, _, _, ⟨-, rfl⟩, _, _, ⟨-, rfl⟩, _, _, ⟨-, rfl⟩, _, _, ⟨-, rfl⟩,
    _, _, ⟨-, rfl⟩, _, _, hactive, _, _, ⟨-, rfl⟩, existing, _, hread, h⟩ := h
  obtain ⟨hact, rfl⟩ := assertOrganizationActive_returns hactive
  obtain ⟨rfl, rfl⟩ := read_returns hread
  refine ⟨?_, hact⟩
  cases hf : db.files.find? input.fileId with
  | some existing =>
    rw [hf] at h
    simp only [Tx.bind_returns, Tx.require_returns, Tx.ite_returns, Tx.pure_returns] at h
    obtain ⟨_, _, ⟨-, rfl⟩, ⟨-, _, _, hu, hr⟩ | ⟨-, -, rfl⟩⟩ := h
    · obtain ⟨-, rfl⟩ := requireFile_returns hr
      exact effect_updateFile hu fun r _ _ =>
        ⟨rfl, rfl, rfl, rfl, rfl, rfl, rfl, fun _ h => h, fun _ h => h, .inl rfl⟩
    · exact .refl
  | none =>
    rw [hf] at h
    simp only [Tx.bind_returns, Tx.gets_returns, Tx.require_returns] at h
    obtain ⟨_, _, ⟨rfl, rfl⟩, _, _, ⟨rfl, rfl⟩, _, _, ⟨-, rfl⟩, _, _, ⟨hquota, rfl⟩,
      _, _, ⟨hlimit, rfl⟩, _, _, hi, hr⟩ := h
    obtain ⟨-, rfl⟩ := requireFile_returns hr
    obtain ⟨hfresh, hrows, ht⟩ := insertFile_returns hi
    exact .reserve (input.row vshardOf) rfl hfresh hquota hlimit hrows ht

theorem effect_markReady {fileId sha256 : String} {actualSize nowMs : Int} {f : StoredFile}
    (h : (markReady vshardOf fileId sha256 actualSize nowMs).Returns db f db') :
    FileEffect limits db db' ∧
      ∃ existing, db.files.find? fileId = some existing ∧ db.Active existing.organizationId := by
  simp only [markReady, Tx.bind_returns, fileIdOf_returns, safeTime_returns, Tx.require_returns,
    Tx.ite_returns, Tx.pure_returns] at h
  obtain ⟨_, _, ⟨-, rfl⟩, existing, _, hread, _, _, hactive, _, _, ⟨-, rfl⟩, _, _, ⟨-, rfl⟩,
    _, _, ⟨-, rfl⟩, h⟩ := h
  obtain ⟨hf, rfl⟩ := requireFile_returns hread
  obtain ⟨hact, rfl⟩ := assertOrganizationActive_returns hactive
  refine ⟨?_, existing, hf, hact⟩
  rcases h with ⟨-, _, _, ⟨-, rfl⟩, -, rfl⟩ | ⟨-, _, _, ⟨-, rfl⟩, _, _, ht, hr⟩
  · exact .refl
  · obtain ⟨-, rfl⟩ := requireFile_returns hr
    refine effect_transition ht fun r hmem hp => ?_
    have hs : r.status = .pending := of_decide_eq_true hp
    have hnone : r.sha256 = none := by
      have := (Table.check_of_mem hmem).2.2
      unfold StoredFile.Shape at this
      rw [hs] at this
      exact this.1
    refine ⟨rfl, rfl, rfl, rfl, rfl, rfl, rfl, fun x hx => ?_, fun _ h => h,
      .inr (.inr (.inl ⟨hs, rfl⟩))⟩
    rw [hnone] at hx
    cases hx

theorem effect_attach {fileId organizationId table column rowId : String} {nowMs : Int}
    {f : StoredFile}
    (h : (attach vshardOf fileId organizationId table column rowId nowMs).Returns db f db') :
    FileEffect limits db db' ∧ ∃ existing, db.files.find? fileId = some existing ∧
      db.Active existing.organizationId ∧ existing.organizationId = organizationId ∧
      existing.table = table ∧ existing.column = column ∧
      (existing.status = .attached → existing.rowId = some rowId) := by
  simp only [attach, Tx.bind_returns, fileIdOf_returns, boundedText_returns, safeTime_returns,
    Tx.require_returns, Tx.ite_returns, Tx.pure_returns] at h
  obtain ⟨_, _, ⟨-, rfl⟩, existing, _, hread, _, _, hactive, _, _, ⟨-, rfl⟩, _, _, ⟨-, rfl⟩,
    _, _, ⟨⟨ho, ht, hc⟩, rfl⟩, h⟩ := h
  obtain ⟨hf, rfl⟩ := requireFile_returns hread
  obtain ⟨hact, rfl⟩ := assertOrganizationActive_returns hactive
  rcases h with ⟨-, _, _, ⟨hrow, rfl⟩, -, rfl⟩ | ⟨hne, _, _, ⟨-, rfl⟩, _, _, hu, hr⟩
  · exact ⟨.refl, existing, hf, hact, ho, ht, hc, fun _ => hrow⟩
  · obtain ⟨-, rfl⟩ := requireFile_returns hr
    refine ⟨effect_transition hu fun r hmem hp => ?_, existing, hf, hact, ho, ht, hc,
      fun ha => absurd ha hne⟩
    have hs : r.status = .ready := of_decide_eq_true hp
    have hnone : r.rowId = none := by
      have := (Table.check_of_mem hmem).2.2
      unfold StoredFile.Shape at this
      rw [hs] at this
      exact this.2
    refine ⟨rfl, rfl, rfl, rfl, rfl, rfl, rfl, fun _ h => h, fun x hx => ?_,
      .inr (.inr (.inr ⟨hs, rfl⟩))⟩
    rw [hnone] at hx
    cases hx

/-- Rows are kept or queued for deletion. -/
structure Queues (db db' : FileDb) : Prop where
  rows : ∃ u : StoredFile → StoredFile,
    (∀ f, u f = f ∨ (f.Continues (u f) ∧ (u f).status = .deleting)) ∧
      db'.files.rows = db.files.rows.map u
  tombstones : db'.tombstones = db.tombstones

theorem Queues.refl : Queues db db := ⟨⟨id, fun _ => .inl rfl, (List.map_id _).symm⟩, rfl⟩

theorem Queues.trans {db'' : FileDb} (h : Queues db db') (h' : Queues db' db'') :
    Queues db db'' := by
  obtain ⟨u, hu, hrows⟩ := h.rows
  obtain ⟨u', hu', hrows'⟩ := h'.rows
  refine ⟨⟨u' ∘ u, fun f => ?_, by rw [hrows', hrows, List.map_map]⟩,
    h'.tombstones.trans h.tombstones⟩
  rcases hu' (u f) with he | ⟨hc', hd'⟩
  · rw [Function.comp, he]
    exact hu f
  · rcases hu f with he | ⟨hc, -⟩
    · rw [he] at hc' hd'
      rw [Function.comp, he]
      exact .inr ⟨hc', hd'⟩
    · refine .inr ⟨⟨hc'.fileId.trans hc.fileId, hc'.organizationId.trans hc.organizationId,
        hc'.table.trans hc.table, hc'.column.trans hc.column, hc'.objectKey.trans hc.objectKey,
        hc'.contentType.trans hc.contentType, hc'.size.trans hc.size,
        fun x hx => hc'.sha256 x (hc.sha256 x hx), fun x hx => hc'.rowId x (hc.rowId x hx),
        .inr (.inl hd')⟩, hd'⟩

/-- With tombstones added, queueing is one change. -/
theorem Queues.effect {db₀ : FileDb} (h : Queues db db') (hf : db.files = db₀.files)
    (ht : ∀ t ∈ db₀.tombstones, t ∈ db.tombstones) : FileEffect limits db₀ db' := by
  obtain ⟨u, hu, hrows⟩ := h.rows
  refine .change u (fun f _ => ?_) (hf ▸ hrows) fun t hm => h.tombstones ▸ ht t hm
  rcases hu f with he | ⟨hc, -⟩
  · rw [he]
    exact .refl f
  · exact hc

theorem queues_updateFile {fileId : String} {p : StoredFile → Bool} {nowMs : Int} {n : Nat}
    (h : (updateFile fileId p (StoredFile.deleted nowMs)).Returns db n db') : Queues db db' := by
  obtain ⟨hrows, ht⟩ := updateFile_returns h
  refine ⟨⟨_, fun f => ?_, hrows⟩, ht⟩
  split
  · exact .inr ⟨f.continues_deleted nowMs, rfl⟩
  · exact .inl rfl

theorem queues_queueDelete {fileId : String} {nowMs : Int} {f : StoredFile}
    (h : (queueDelete vshardOf fileId nowMs).Returns db f db') : Queues db db' := by
  simp only [queueDelete, transition, Tx.bind_returns, fileIdOf_returns, safeTime_returns,
    Tx.require_returns, Tx.ite_returns, Tx.pure_returns] at h
  obtain ⟨_, _, ⟨-, rfl⟩, existing, _, hread, _, _, ⟨-, rfl⟩, h⟩ := h
  obtain ⟨-, rfl⟩ := requireFile_returns hread
  rcases h with ⟨-, -, rfl⟩ | ⟨-, _, _, ⟨_, _, hu, -, rfl⟩, hr⟩
  · exact .refl
  · obtain ⟨-, rfl⟩ := requireFile_returns hr
    exact queues_updateFile hu

theorem queues_queueOrganizationFiles {organizationId : String} {nowMs limit : Int} {n : Nat}
    (h : (queueOrganizationFiles organizationId nowMs limit).Returns db n db') : Queues db db' := by
  simp only [queueOrganizationFiles, Tx.bind_returns, boundedText_returns, safeTime_returns,
    deleteBatch_returns, Tx.gets_returns] at h
  obtain ⟨_, _, ⟨-, rfl⟩, _, _, ⟨-, rfl⟩, _, _, ⟨-, rfl⟩, _, _, ⟨rfl, rfl⟩, h⟩ := h
  obtain ⟨t, ht, rfl⟩ := onFiles_returns.mp h
  refine ⟨⟨_, fun f => ?_, Table.rows_update (Table.update_returns.mp ht).1⟩, rfl⟩
  split
  · exact .inr ⟨f.continues_deleted nowMs, rfl⟩
  · exact .inl rfl

theorem after_mapM_project {rows : List StoredFile} : (rows.mapM (project vshardOf)).after db = db := by
  have hproject : ∀ row, (project vshardOf row).ReadOnly := fun row =>
    (Tx.readOnly_require _ _).bind fun _ => (Tx.readOnly_require _ _).bind fun _ =>
      (Tx.readOnly_require _ _).bind fun _ => Tx.readOnly_pure row
  rcases (rows.mapM (project vshardOf)).returns_or_throws db with ⟨a, h⟩ | ⟨e, h⟩
  · exact (Tx.mapM_returns_self (fun _ _ _ hr => project_returns hr) h).2.symm
  · obtain ⟨row, -, hr⟩ := Tx.mapM_throws hproject h
    exact (hproject row).atomic hr

theorem dueDeletes_returns {limit : Int} {owned : StoredFile → Bool} {files : List StoredFile}
    (h : (dueDeletes vshardOf limit owned).Returns db files db') :
    db = db' ∧ ∀ f ∈ files, f ∈ db.files ∧ f.status = .deleting := by
  simp only [dueDeletes, Tx.bind_returns, deleteBatch_returns, Tx.gets_returns] at h
  obtain ⟨_, _, ⟨-, rfl⟩, _, _, ⟨rfl, rfl⟩, h⟩ := h
  obtain ⟨rfl, rfl⟩ := Tx.mapM_returns_self (fun _ _ _ hr => project_returns hr) h
  refine ⟨rfl, fun f hf => ?_⟩
  obtain ⟨hm, hp⟩ := Table.mem_orderBy.mp (List.mem_of_mem_take hf)
  exact ⟨hm, of_decide_eq_true (Bool.and_eq_true_iff.mp hp).1⟩

theorem queues_queueCandidates {nowMs : Int} {admitted : String → Bool} (l : List StoredFile)
    (db : FileDb) : Queues db ((queueCandidates vshardOf nowMs admitted l).after db) := by
  induction l generalizing db with
  | nil => exact .refl
  | cons file rest ih =>
    unfold queueCandidates
    split
    · rcases (Tx.transactionSync (queueDelete vshardOf file.fileId nowMs)).returns_or_throws db with
        ⟨a, h⟩ | ⟨e, h⟩
      · rw [h.after_bind]
        exact (queues_queueDelete (Tx.transactionSync_returns.mp h)).trans (ih _)
      · rw [h.after_bind, (Tx.transactionSync_throws.mp h).1]
        exact .refl
    · exact ih db

theorem effect_sweep {cutoffMs nowMs : Int} {owned : StoredFile → Bool} {admitted : String → Bool} :
    FileEffect limits db ((sweep vshardOf cutoffMs nowMs owned admitted).after db) := by
  have hcandidates : ∀ db : FileDb, (maintenanceCandidates vshardOf cutoffMs owned).after db = db := by
    intro db
    unfold maintenanceCandidates safeTime Tx.require
    split
    · exact after_mapM_project
    · rfl
  rcases (maintenanceCandidates vshardOf cutoffMs owned).returns_or_throws db with ⟨l, h⟩ | ⟨e, h⟩
  · have hq : Queues db ((sweep vshardOf cutoffMs nowMs owned admitted).after db) := by
      unfold sweep
      rw [h.after_bind, hcandidates]
      exact queues_queueCandidates l db
    exact hq.effect rfl fun _ ht => ht
  · unfold sweep
    rw [h.after_bind, hcandidates]
    exact .refl

theorem effect_completeDelete {fileId : String} {a : Unit}
    (h : (completeDelete vshardOf fileId).Returns db a db') : FileEffect limits db db' := by
  simp only [completeDelete, Tx.bind_returns, fileIdOf_returns, Tx.require_returns] at h
  obtain ⟨_, _, ⟨-, rfl⟩, existing, _, hread, _, _, ⟨hs, rfl⟩, _, _, hd, -, rfl⟩ := h
  obtain ⟨hf, rfl⟩ := requireFile_returns hread
  obtain ⟨hmem, hid⟩ := Table.find?_eq_some.mp hf
  obtain ⟨t, ht, rfl⟩ := onFiles_returns.mp hd
  obtain ⟨rfl, -⟩ := Table.delete_returns.mp ht
  have hdeleting : ∀ f ∈ db.files, f.fileId = existing.fileId → f.status = .deleting :=
    fun f hf he => (Table.eq_of_key hf hmem he) ▸ hs
  refine .release existing.fileId hdeleting ?_ rfl
  refine List.filter_congr fun f hf => ?_
  by_cases he : f.fileId = existing.fileId
  · simp [he, hdeleting f hf he]
  · simp [he]

theorem effect_fenceOrganizationDeletion {organizationId : String} {nowMs : Int} {n : Nat}
    (h : (fenceOrganizationDeletion vshardOf organizationId nowMs).Returns db n db') :
    FileEffect limits db db' := by
  simp only [fenceOrganizationDeletion, organizationFileCount, assertExactPlacement,
    Tx.bind_returns, boundedText_returns, safeTime_returns, Tx.gets_returns, Tx.ofOption_returns,
    Tx.require_returns] at h
  obtain ⟨_, _, ⟨-, rfl⟩, _, _, ⟨-, rfl⟩, _, db₁, hi, _, _, ⟨rfl, rfl⟩, _, _, ⟨-, rfl⟩,
    _, _, ⟨-, rfl⟩, _, _, hq, _, _, ⟨-, rfl⟩, -, rfl⟩ := h
  obtain ⟨t, ht, rfl⟩ := Tx.zoom_returns.mp hi
  refine (queues_queueOrganizationFiles hq).effect rfl fun x hx => ?_
  rcases Table.insertIgnore_returns.mp ht with ⟨-, hi⟩ | ⟨-, -, rfl⟩
  · exact (Table.mem_insert hi).mpr (.inl hx)
  · exact hx

/-- What returns has an effect, so what is run as a transaction has. -/
theorem effect_transactionSync {α : Type} {x : FileTx α}
    (h : ∀ a db', x.Returns db a db' → FileEffect limits db db') :
    FileEffect limits db ((Tx.transactionSync x).after db) := by
  rcases (Tx.transactionSync x).returns_or_throws db with ⟨a, hr⟩ | ⟨e, ht⟩
  · exact h a _ (Tx.transactionSync_returns.mp hr)
  · rw [(Tx.transactionSync_throws.mp ht).1]
    exact .refl

theorem effect_step (op : FileOp) : FileEffect limits db (db.step vshardOf limits op) := by
  cases op with
  | sweep cutoffMs nowMs owned admitted => exact effect_sweep
  | reserve input =>
    refine effect_transactionSync fun _ _ h => ?_
    obtain ⟨_, _, h, -, rfl⟩ := Tx.bind_returns.mp h
    exact (effect_reserve h).1
  | markReady fileId sha256 actualSize nowMs =>
    refine effect_transactionSync fun _ _ h => ?_
    obtain ⟨_, _, h, -, rfl⟩ := Tx.bind_returns.mp h
    exact (effect_markReady h).1
  | attach fileId organizationId table column rowId nowMs =>
    refine effect_transactionSync fun _ _ h => ?_
    obtain ⟨_, _, h, -, rfl⟩ := Tx.bind_returns.mp h
    exact (effect_attach h).1
  | queueDelete fileId nowMs =>
    refine effect_transactionSync fun _ _ h => ?_
    obtain ⟨_, _, h, -, rfl⟩ := Tx.bind_returns.mp h
    exact (queues_queueDelete h).effect rfl fun _ ht => ht
  | dueDeletes limit owned =>
    refine effect_transactionSync fun _ _ h => ?_
    obtain ⟨_, _, h, -, rfl⟩ := Tx.bind_returns.mp h
    obtain ⟨rfl, -⟩ := dueDeletes_returns h
    exact .refl
  | completeDelete fileId => exact effect_transactionSync fun _ _ h => effect_completeDelete h
  | fenceOrganizationDeletion organizationId nowMs =>
    refine effect_transactionSync fun _ _ h => ?_
    obtain ⟨_, _, h, -, rfl⟩ := Tx.bind_returns.mp h
    exact effect_fenceOrganizationDeletion h
  | queueOrganizationFiles organizationId nowMs limit =>
    refine effect_transactionSync fun _ _ h => ?_
    obtain ⟨_, _, h, -, rfl⟩ := Tx.bind_returns.mp h
    exact (queues_queueOrganizationFiles h).effect rfl fun _ ht => ht

/-! ## What a call does to each row -/

/-- Rows go on along the order of statuses or are released in deletion, new rows are pending under
ids that were free, and tombstones stay. -/
structure FileDb.Evolves (db db' : FileDb) : Prop where
  kept : ∀ f ∈ db.files, (∃ f' ∈ db'.files, f.Continues f') ∨
    (f.status = .deleting ∧ ∀ f' ∈ db'.files, f'.fileId ≠ f.fileId)
  born : ∀ f' ∈ db'.files, (∃ f ∈ db.files, f.Continues f') ∨
    (f'.status = .pending ∧ ∀ f ∈ db.files, f.fileId ≠ f'.fileId)
  tombstones : ∀ t ∈ db.tombstones, t ∈ db'.tombstones

theorem FileEffect.evolves (h : FileEffect limits db db') : db.Evolves db' := by
  cases h with
  | change u hu hrows ht =>
    have hmem : ∀ f', f' ∈ db'.files ↔ ∃ f ∈ db.files, u f = f' := fun f' => by
      rw [← Table.mem_rows, hrows, List.mem_map]
      rfl
    refine ⟨fun f hf => .inl ⟨u f, (hmem _).mpr ⟨f, hf, rfl⟩, hu f hf⟩, fun f' hf' => ?_, ht⟩
    obtain ⟨f, hf, rfl⟩ := (hmem f').mp hf'
    exact .inl ⟨f, hf, hu f hf⟩
  | reserve row hpending hfresh _ _ hrows ht =>
    have hmem : ∀ f', f' ∈ db'.files ↔ f' ∈ db.files ∨ f' = row := fun f' => by
      rw [← Table.mem_rows, hrows, List.mem_append, List.mem_singleton]
      rfl
    refine ⟨fun f hf => .inl ⟨f, (hmem f).mpr (.inl hf), .refl f⟩, fun f' hf' => ?_,
      fun t h => ht ▸ h⟩
    rcases (hmem f').mp hf' with hf | rfl
    · exact .inl ⟨f', hf, .refl f'⟩
    · exact .inr ⟨hpending, fun f hf => (hfresh f hf).1⟩
  | release fileId hdeleting hrows ht =>
    have hmem : ∀ f', f' ∈ db'.files ↔ f' ∈ db.files ∧ f'.fileId ≠ fileId := fun f' => by
      rw [← Table.mem_rows, hrows, List.mem_filter]
      simp [Table.mem_rows]
    refine ⟨fun f hf => ?_, fun f' hf' => .inl ⟨f', ((hmem f').mp hf').1, .refl f'⟩,
      fun t h => ht ▸ h⟩
    by_cases he : f.fileId = fileId
    · exact .inr ⟨hdeleting f hf he, fun f' hf' => he.symm ▸ ((hmem f').mp hf').2⟩
    · exact .inl ⟨f, (hmem f).mpr ⟨hf, he⟩, .refl f⟩

/-! ## Usage -/

/-- The limits hold for every organization, and no object key is stored twice. -/
structure FileInv (limits : CdbFileStoreLimits) (db : FileDb) : Prop where
  quota : ∀ org, usageBytes db org ≤ limits.organizationQuotaBytes
  pending : ∀ org, (usagePending db org : Int) ≤ limits.maxPendingPerOrganization
  keys : ∀ f ∈ db.files, ∀ g ∈ db.files, f.objectKey = g.objectKey → f = g

theorem fileInv_empty : FileInv limits .empty := by
  refine ⟨fun _ => ?_, fun _ => ?_, fun f hf => absurd hf Table.not_mem_empty⟩
  · exact Int.le_trans (Int.le_of_eq rfl) (Int.le_trans (by decide : (0 : Int) ≤ 1) limits.quota_ok.2)
  · exact Int.le_trans (Int.le_of_eq rfl)
      (Int.le_trans (by decide : (0 : Int) ≤ 1) limits.pending_ok.2)

theorem FileEffect.inv (h : FileEffect limits db db') (hi : FileInv limits db) :
    FileInv limits db' := by
  cases h with
  | change u hu hrows _ =>
    have hfiles : ∀ org, organizationFiles db' org = (organizationFiles db org).map u := by
      intro org
      unfold organizationFiles Table.select
      rw [hrows, List.filter_map]
      refine congrArg (List.map u) (List.filter_congr fun f hf => ?_)
      simp only [Function.comp, (hu f hf).organizationId]
    have hcontinues : ∀ org, ∀ f ∈ organizationFiles db org, f.Continues (u f) :=
      fun org f hf => hu f (Table.mem_select.mp hf).1
    refine ⟨fun org => ?_, fun org => ?_, fun f hf g hg he => ?_⟩
    · have : usageBytes db' org = usageBytes db org := by
        unfold usageBytes
        rw [hfiles, List.map_map]
        exact congrArg List.sum (List.map_congr_left fun f hf => (hcontinues org f hf).size)
      exact this ▸ hi.quota org
    · have : usagePending db' org ≤ usagePending db org := by
        unfold usagePending
        rw [hfiles, List.countP_map]
        refine List.countP_mono_left fun f hf hp => ?_
        have hp : (u f).status = .pending := of_decide_eq_true hp
        rcases (hcontinues org f hf).status with hs | hs | ⟨-, hs⟩ | ⟨-, hs⟩
        · exact decide_eq_true (hs.symm.trans hp)
        all_goals rw [hp] at hs; cases hs
      have := hi.pending org
      omega
    · have hmem : ∀ f', f' ∈ db'.files → ∃ f ∈ db.files, u f = f' := fun f' h => by
        rw [← Table.mem_rows, hrows] at h
        exact List.mem_map.mp h
      obtain ⟨f₀, hf₀, rfl⟩ := hmem f hf
      obtain ⟨g₀, hg₀, rfl⟩ := hmem g hg
      have hkey : f₀.objectKey = g₀.objectKey :=
        ((hu f₀ hf₀).objectKey.symm.trans he).trans (hu g₀ hg₀).objectKey
      rw [hi.keys f₀ hf₀ g₀ hg₀ hkey]
  | reserve row hpending hfresh hquota hlimit hrows _ =>
    have hfiles : ∀ org, organizationFiles db' org =
        organizationFiles db org ++ if row.organizationId = org then [row] else [] := by
      intro org
      unfold organizationFiles Table.select
      rw [hrows, List.filter_append]
      by_cases ho : row.organizationId = org <;> simp [ho]
    refine ⟨fun org => ?_, fun org => ?_, fun f hf g hg he => ?_⟩
    · have hq := hi.quota org
      unfold usageBytes at hq hquota ⊢
      rw [hfiles, List.map_append, List.sum_append]
      split
      · rename_i ho
        subst ho
        simpa using hquota
      · simpa using hq
    · have hp := hi.pending org
      unfold usagePending at hp hlimit ⊢
      rw [hfiles, List.countP_append]
      split
      · rename_i ho
        subst ho
        simp only [List.countP_singleton, hpending, decide_true, if_true]
        omega
      · simpa using hp
    · have hmem : ∀ f', f' ∈ db'.files → f' ∈ db.files ∨ f' = row := fun f' h => by
        rw [← Table.mem_rows, hrows, List.mem_append, List.mem_singleton] at h
        exact h
      rcases hmem f hf with hf | rfl <;> rcases hmem g hg with hg | rfl
      · exact hi.keys f hf g hg he
      · exact absurd he (hfresh f hf).2
      · exact absurd he.symm (hfresh g hg).2
      · rfl
  | release fileId _ hrows _ =>
    have hsub : ∀ org, List.Sublist (organizationFiles db' org) (organizationFiles db org) := by
      intro org
      unfold organizationFiles Table.select
      rw [hrows]
      exact List.Sublist.filter _ List.filter_sublist
    refine ⟨fun org => ?_, fun org => ?_, fun f hf g hg he => ?_⟩
    · refine Int.le_trans ?_ (hi.quota org)
      refine List.Sublist.sum_le_sum ((hsub org).map _) fun n hn => ?_
      obtain ⟨f, hf, rfl⟩ := List.mem_map.mp hn
      exact Int.le_of_lt (Table.check_of_mem (Table.mem_select.mp hf).1).1
    · have := (hsub org).countP_le (p := fun f => decide (f.status = FileStatus.pending))
      have := hi.pending org
      unfold usagePending at *
      omega
    · have hmem : ∀ f', f' ∈ db'.files → f' ∈ db.files := fun f' h => by
        rw [← Table.mem_rows, hrows] at h
        exact (List.mem_filter.mp h).1
      exact hi.keys f (hmem f hf) g (hmem g hg) he

theorem fileInv_run (ops : List FileOp) (hi : FileInv limits db) :
    FileInv limits (db.run vshardOf limits ops) := by
  induction ops generalizing db with
  | nil => exact hi
  | cons op ops ih => exact ih ((effect_step op).inv hi)

theorem tombstones_run (ops : List FileOp) {t : OrganizationTombstone} (ht : t ∈ db.tombstones) :
    t ∈ (db.run vshardOf limits ops).tombstones := by
  induction ops generalizing db with
  | nil => exact ht
  | cons op ops ih => exact ih ((effect_step op).evolves.tombstones t ht)

/-! ## The lifecycle of a file -/

/-- No reservation, upload or attachment for the organization goes through. -/
structure FileDb.Closed (vshardOf : String → Int) (limits : CdbFileStoreLimits) (db : FileDb)
    (organizationId : String) : Prop where
  reserve : ∀ input f db', input.organizationId = organizationId →
    ¬ (reserve vshardOf limits input).Returns db f db'
  markReady : ∀ file sha256 actualSize nowMs f db', file ∈ db.files →
    file.organizationId = organizationId →
    ¬ (markReady vshardOf file.fileId sha256 actualSize nowMs).Returns db f db'
  attach : ∀ file table column rowId nowMs f db', file ∈ db.files →
    file.organizationId = organizationId →
    ¬ (attach vshardOf file.fileId organizationId table column rowId nowMs).Returns db f db'

theorem closed_of_tombstone {t : OrganizationTombstone} (ht : t ∈ db.tombstones) :
    db.Closed vshardOf limits t.organizationId := by
  have hclosed : ¬ db.Active t.organizationId := fun h => by
    rw [FileDb.Active, Table.find?_key ht] at h
    cases h
  have hfound : ∀ {file existing}, file ∈ db.files → db.files.find? file.fileId = some existing →
      existing = file := fun hf he => Option.some.inj (he.symm.trans (Table.find?_key hf))
  refine ⟨fun input f db' ho h => ?_, fun file sha256 actualSize nowMs f db' hf ho h => ?_,
    fun file table column rowId nowMs f db' hf ho h => ?_⟩
  · exact hclosed (ho ▸ (effect_reserve h).2)
  · have heffect : FileEffect limits db db' ∧ _ := effect_markReady h
    obtain ⟨existing, he, hactive⟩ := heffect.2
    obtain rfl := hfound hf he
    exact hclosed (ho ▸ hactive)
  · have heffect : FileEffect limits db db' ∧ _ := effect_attach h
    obtain ⟨existing, he, hactive, -⟩ := heffect.2
    obtain rfl := hfound hf he
    exact hclosed (ho ▸ hactive)

/-- An attached row has one position, and a call that attaches it again names that one. -/
structure FileDb.Placed (vshardOf : String → Int) (db : FileDb) (file : StoredFile) : Prop where
  row : ∃ rowId, file.rowId = some rowId
  again : ∀ organizationId table column rowId nowMs f db',
    (attach vshardOf file.fileId organizationId table column rowId nowMs).Returns db f db' →
      file.organizationId = organizationId ∧ file.table = table ∧ file.column = column ∧
        file.rowId = some rowId

theorem placed_of_attached {file : StoredFile} (hf : file ∈ db.files) (hs : file.status = .attached) :
    db.Placed vshardOf file := by
  refine ⟨?_, fun organizationId table column rowId nowMs f db' h => ?_⟩
  · have := (Table.check_of_mem hf).2.2
    unfold StoredFile.Shape at this
    rw [hs] at this
    exact Option.isSome_iff_exists.mp this.2
  · have heffect : FileEffect CdbFileStoreLimits.default db db' ∧ _ := effect_attach h
    obtain ⟨existing, he, -, ho, ht, hc, hr⟩ := heffect.2
    obtain rfl := Option.some.inj (he.symm.trans (Table.find?_key hf))
    exact ⟨ho, ht, hc, hr hs⟩

end

/-- After any calls, the limits hold for every organization, object keys are distinct, attached
files have one position and only objects in deletion are handed out for it; the next call moves
statuses forward alone; and what is closed by a tombstone stays closed. -/
theorem file_lifecycle (vshardOf : String → Int) (limits : CdbFileStoreLimits) (ops : List FileOp) :
    (∀ org, usageBytes (FileDb.empty.run vshardOf limits ops) org ≤ limits.organizationQuotaBytes ∧
      (usagePending (FileDb.empty.run vshardOf limits ops) org : Int) ≤
        limits.maxPendingPerOrganization) ∧
    (∀ f ∈ (FileDb.empty.run vshardOf limits ops).files,
      ∀ g ∈ (FileDb.empty.run vshardOf limits ops).files, f.objectKey = g.objectKey → f = g) ∧
    (∀ f ∈ (FileDb.empty.run vshardOf limits ops).files, f.status = .attached →
      (FileDb.empty.run vshardOf limits ops).Placed vshardOf f) ∧
    (∀ limit owned files db',
      (dueDeletes vshardOf limit owned).Returns (FileDb.empty.run vshardOf limits ops) files db' →
        ∀ f ∈ files, f ∈ (FileDb.empty.run vshardOf limits ops).files ∧ f.status = .deleting) ∧
    (∀ op, (FileDb.empty.run vshardOf limits ops).Evolves
      ((FileDb.empty.run vshardOf limits ops).step vshardOf limits op)) ∧
    (∀ t ∈ (FileDb.empty.run vshardOf limits ops).tombstones, ∀ more,
      (((FileDb.empty.run vshardOf limits ops).run vshardOf limits more).Closed vshardOf limits
        t.organizationId)) := by
  have hi : FileInv limits (FileDb.empty.run vshardOf limits ops) := fileInv_run ops fileInv_empty
  refine ⟨fun org => ⟨hi.quota org, hi.pending org⟩, hi.keys, fun f hf hs => placed_of_attached hf hs,
    fun limit owned files db' h => (dueDeletes_returns h).2, fun op => (effect_step op).evolves,
    fun t ht more => closed_of_tombstone (tombstones_run more ht)⟩

end Chardb.Files
