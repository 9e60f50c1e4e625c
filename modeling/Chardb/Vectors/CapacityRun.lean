import Chardb.Vectors.CapacitySteps

/-!
# Capacity over whole runs

Any sequence of calls on a new store: upserts, heads applied from pages and from the tail, and the
other operations as lists of the statements they run. While the metadata that is written is plain
and the tail brings no more than there is room for, the counters are exact in every state that is
reached. With other metadata they drift: SQL counts characters where `assertStageCapacity` counts
bytes.
-/

namespace Chardb.Vectors

open Chardb.Lib Tx

/-! ## Heads at a destination -/

section
variable {db db' : VectorDb}

namespace Destination

theorem capacity_returns {c : VectorCapacity} (h : capacity.Returns db c db') :
    c = db.capacity ∧ db = db' := by
  simp only [capacity, bind_returns, gets_returns, ofExcept_returns, pure_returns] at h
  obtain ⟨row, t, ⟨rfl, rfl⟩, _, t₁, ⟨-, rfl⟩, _, t₂, ⟨-, rfl⟩, _, t₃, ⟨-, rfl⟩, _, t₄, ⟨-, rfl⟩,
    rfl, rfl⟩ := h
  exact ⟨rfl, rfl⟩

theorem assertHeadCapacity_returns {vectorId : String} {existing : Bool}
    {valuesBytes metadataBytes : Int} {a : Unit}
    (h : (assertHeadCapacity vectorId existing valuesBytes metadataBytes).Returns db a db') :
    db = db' ∧ (existing = true ∨ db.capacity.headCount < CDB_VECTOR_MAX_HEADS) ∧
      db.capacity.storedBytes + valuesBytes + metadataBytes -
          (if existing then oldHeadBytes db vectorId else 0) ≤ CDB_VECTOR_MAX_STORED_BYTES := by
  simp only [assertHeadCapacity, bind_returns, gets_returns, require_returns, ofExcept_returns] at h
  obtain ⟨c, t, hc, prior, t₁, ⟨rfl, rfl⟩, _, t₂, ⟨hheads, rfl⟩, _, t₃, ⟨-, rfl⟩, hbytes, rfl⟩ := h
  obtain ⟨rfl, rfl⟩ := capacity_returns hc
  exact ⟨rfl, hheads, hbytes⟩

theorem allocateHeadSequence_returns {seq : Int} (h : allocateHeadSequence.Returns db seq db') :
    db' = { db with lastSeq := seq } := by
  simp only [allocateHeadSequence, bind_returns, gets_returns, ofExcept_returns, require_returns,
    pure_returns] at h
  obtain ⟨current, t₁, ⟨rfl, rfl⟩, _, t₂, ⟨-, rfl⟩, _, t₃, ⟨-, rfl⟩, _, t₄, hset, rfl, rfl⟩ := h
  exact setLastSeq_heads hset

theorem readOnly_capacity : capacity.ReadOnly :=
  (readOnly_gets _).bind fun _ => (readOnly_ofExcept _).bind fun _ => (readOnly_ofExcept _).bind
    fun _ => (readOnly_ofExcept _).bind fun _ => (readOnly_ofExcept _).bind fun _ => readOnly_pure _

theorem readOnly_assertHeadCapacity (vectorId : String) (existing : Bool)
    (valuesBytes metadataBytes : Int) :
    (assertHeadCapacity vectorId existing valuesBytes metadataBytes).ReadOnly :=
  readOnly_capacity.bind fun _ => (readOnly_gets _).bind fun _ => (readOnly_require _ _).bind
    fun _ => (readOnly_ofExcept _).bind fun _ => readOnly_require _ _

/-- A page head with plain metadata keeps the store sound. -/
theorem applyHead_preserves {record : HeadRecord} (hplain : IsPlain record.metadataJson)
    (hasTailProvenance : Bool) : (applyHead record hasTailProvenance).Preserves Sound := by
  intro db a db' hs h
  simp only [applyHead, bind_returns, gets_returns, require_returns] at h
  obtain ⟨existing, t, ⟨rfl, rfl⟩, _, t₁, ⟨-, rfl⟩, owners, t₂, ⟨-, rfl⟩, _, t₃, ⟨-, rfl⟩, _, t₄,
    hcap, h⟩ := h
  obtain ⟨rfl, hheads, hbytes⟩ := assertHeadCapacity_returns hcap
  rw [hs.storedBytes_eq] at hbytes
  rcases ite_returns.mp h with ⟨hexisting, h⟩ | ⟨hexisting, h⟩
  · simp only [bind_returns, exec_returns, require_returns, pure_returns] at h
    obtain ⟨n, t, hrun, _, t₁, ⟨hone, rfl⟩, -, rfl⟩ := h
    obtain ⟨stored, hstored⟩ := Option.isSome_iff_exists.mp hexisting
    rw [if_pos hexisting, oldHeadBytes, hstored] at hbytes
    have hcounted : stored.countedBytes = stored.measuredBytes :=
      VectorHead.countedBytes_eq_iff.mpr (hs.plain _ (Table.find?_eq_some.mp hstored).1)
    refine hs.replaceHead (fun x hx => of_decide_eq_true hx) hstored (fun _ => hplain) ?_ hrun hone
    show db.measuredBytes - stored.measuredBytes +
      (((record.values.getD []).length : Int) + textBytes record.metadataJson) ≤ _
    rw [← hcounted]
    simp only [Option.map_some, Option.getD_some] at hbytes
    omega
  · simp only [bind_returns, exec_returns, require_returns, pure_returns] at h
    obtain ⟨seq, t, hseq, n, t₁, hrun, _, t₂, ⟨-, rfl⟩, -, rfl⟩ := h
    obtain rfl := allocateHeadSequence_returns hseq
    have hs' : Sound { db with lastSeq := seq } := hs.of_heads rfl ⟨hs.headCount, hs.storedBytes,
      hs.outboxRows, hs.attemptRows⟩
    have hcount := hheads.resolve_left hexisting
    rw [hs.headCount] at hcount
    rw [if_neg hexisting] at hbytes
    refine hs'.insertHead hplain hcount ?_ hrun
    show db.measuredBytes +
      (((record.values.getD []).length : Int) + textBytes record.metadataJson) ≤ _
    omega

end Destination

namespace Tail

/-- What a tail entry writes is plain, and there is room for it. -/
def HeadEntry.Fits (db : VectorDb) : HeadEntry → Prop
  | .ins image => db.heads.find? image.vectorId = none →
      IsPlain image.metadataJson ∧ (db.heads.count : Int) < CDB_VECTOR_MAX_HEADS ∧
        db.measuredBytes + image.measuredBytes ≤ CDB_VECTOR_MAX_STORED_BYTES
  | .del _ => True
  | .upd _ image => ∀ stored, db.heads.find? image.vectorId = some stored →
      IsPlain image.metadataJson ∧
        db.measuredBytes - stored.measuredBytes + image.measuredBytes ≤ CDB_VECTOR_MAX_STORED_BYTES

theorem allocateHeadSequence_returns {seq : Int} (h : allocateHeadSequence.Returns db seq db') :
    db' = { db with lastSeq := seq } := by
  simp only [allocateHeadSequence, bind_returns, gets_returns, require_returns, pure_returns] at h
  obtain ⟨current, t₁, ⟨rfl, rfl⟩, _, t₂, ⟨-, rfl⟩, _, t₄, hset, rfl, rfl⟩ := h
  exact setLastSeq_heads hset

variable {lo hi : Int} {pk : String} {a : Bool}

theorem applyInsert_sound {after : VectorHead} {hasProvenance : Bool} (hs : Sound db)
    (hfits : (HeadEntry.ins after).Fits db)
    (h : (applyInsert lo hi after pk hasProvenance).Returns db a db') : Sound db' := by
  simp only [applyInsert, assertRange, readStoredHead, bind_returns, gets_returns,
    require_returns] at h
  obtain ⟨_, t, ⟨-, rfl⟩, _, t₁, ⟨-, rfl⟩, _, t₂, ⟨-, rfl⟩, existing, t₃, ⟨hexisting, rfl⟩, h⟩ := h
  cases existing with
  | some existing =>
    simp only [bind_returns, require_returns, pure_returns] at h
    obtain ⟨_, t, ⟨-, rfl⟩, _, t₁, ⟨-, rfl⟩, -, rfl⟩ := h
    exact hs
  | none =>
    simp only [bind_returns, exec_returns, pure_returns] at h
    obtain ⟨seq, t, hseq, n, t₁, hrun, -, rfl⟩ := h
    obtain rfl := allocateHeadSequence_returns hseq
    have hs' : Sound { db with lastSeq := seq } := hs.of_heads rfl ⟨hs.headCount, hs.storedBytes,
      hs.outboxRows, hs.attemptRows⟩
    obtain ⟨hplain, hheads, hbytes⟩ := hfits hexisting.symm
    refine hs'.insertHead ?_ hheads ?_ hrun
    · exact hplain
    · exact hbytes

theorem applyDelete_sound {before : VectorHead} (hs : Sound db)
    (h : (applyDelete lo hi before pk).Returns db a db') : Sound db' := by
  simp only [applyDelete, assertRange, readStoredHead, bind_returns, gets_returns,
    require_returns] at h
  obtain ⟨_, t, ⟨-, rfl⟩, _, t₁, ⟨-, rfl⟩, existing, t₂, ⟨-, rfl⟩, _, t₃, ⟨-, rfl⟩, h⟩ := h
  cases existing with
  | none => obtain ⟨-, rfl⟩ := pure_returns.mp h; exact hs
  | some existing =>
    simp only [bind_returns, exec_returns, require_returns, pure_returns] at h
    obtain ⟨_, t, ⟨-, rfl⟩, n, t₁, hrun, _, t₂, ⟨-, rfl⟩, -, rfl⟩ := h
    exact hs.deleteHeads hrun

theorem applyUpdate_sound {before after : VectorHead} (hs : Sound db)
    (hfits : (HeadEntry.upd before after).Fits db)
    (h : (applyUpdate lo hi before after pk).Returns db a db') : Sound db' := by
  simp only [applyUpdate, assertRange, readStoredHead, bind_returns, gets_returns,
    require_returns, ofExcept_returns] at h
  obtain ⟨_, t, ⟨hpk, rfl⟩, _, t₁, ⟨-, rfl⟩, existing, t₂, ⟨hexisting, rfl⟩, _, t₃, ⟨hpk', rfl⟩,
    _, t₄, ⟨-, rfl⟩, h⟩ := h
  rcases ite_returns.mp h with ⟨-, h⟩ | ⟨-, h⟩
  · obtain ⟨-, rfl⟩ := pure_returns.mp h
    exact hs
  · simp only [bind_returns, exec_returns, require_returns, pure_returns] at h
    obtain ⟨_, t, ⟨hsame, rfl⟩, n, t₁, hrun, _, t₂, ⟨hone, rfl⟩, -, rfl⟩ := h
    cases existing with
    | none => simp at hsame
    | some stored =>
      have hfind : db.heads.find? after.vectorId = some stored := by rw [← hpk', hpk, ← hexisting]
      obtain ⟨hplain, hbytes⟩ := hfits stored hfind
      refine hs.replaceHead (f := setPhysical after) (fun x hx => of_decide_eq_true hx) hfind
        (fun _ => hplain) ?_ hrun hone
      exact hbytes

/-- A tail head that fits keeps the store sound. -/
theorem applyHead_sound {entry : HeadEntry} {hasProvenance : Bool} (hs : Sound db)
    (hfits : entry.Fits db) (h : (applyHead lo hi entry pk hasProvenance).Returns db a db') :
    Sound db' := by
  cases entry with
  | ins image => exact applyInsert_sound hs hfits h
  | del image => exact applyDelete_sound hs h
  | upd prior image => exact applyUpdate_sound hs hfits h

end Tail

end

/-! ## Runs -/

/-- Run statements in order. -/
def execAll : List Statement → VectorTx Unit
  | [] => pure ()
  | st :: rest => do
    let _ ← exec st
    execAll rest

/-- A call on the store. -/
inductive VectorCall (ν : Type)
  | stageUpsert (input : StageUpsert ν)
  /-- A head of a snapshot page. -/
  | applyPageHead (record : Destination.HeadRecord) (hasTailProvenance : Bool)
  /-- A head entry of the captured tail, of a move over `[lo, hi]`. -/
  | applyTailHead (lo hi : Int) (entry : Tail.HeadEntry) (pk : String) (hasProvenance : Bool)
  /-- Staging a delete, claims, submissions, acknowledgements, failures, requeues, the outbox rows
  and attempts of a move, the cleanups: whatever statements they run, none of them writes an
  embedding or metadata. -/
  | deliver (statements : List Statement) (keeps : ∀ st ∈ statements, st.Keeps)
  /-- An organization is deleted. -/
  | deleteOrganization (organizationId : String)

section
variable {ν : Type} [JsNumber ν] (vshardOf : String → Int)

/-- Every call is one transaction. -/
def VectorCall.run : VectorCall ν → VectorTx Unit
  | .stageUpsert input => transactionSync do
    let _ ← Vectors.stageUpsert vshardOf input
    pure ()
  | .applyPageHead record hasTailProvenance => transactionSync do
    let _ ← Destination.applyHead record hasTailProvenance
    pure ()
  | .applyTailHead lo hi entry pk hasProvenance => transactionSync do
    let _ ← Tail.applyHead lo hi entry pk hasProvenance
    pure ()
  | .deliver statements _ => transactionSync (execAll statements)
  | .deleteOrganization organizationId =>
    .modify fun db =>
      { db with deletedOrganizations := organizationId :: db.deletedOrganizations }

/-- What a call writes is plain metadata, and a tail head has room. -/
def VectorCall.WritesPlain (db : VectorDb) : VectorCall ν → Prop
  | .stageUpsert input => IsPlain (stableJson input.metadata)
  | .applyPageHead record _ => IsPlain record.metadataJson
  | .applyTailHead _ _ entry _ _ => entry.Fits db
  | .deliver _ _ => True
  | .deleteOrganization _ => True

/-- A call that returns writes plain metadata. -/
def VectorCall.Meets (db : VectorDb) (call : VectorCall ν) : Prop :=
  ∀ db', (call.run vshardOf).Returns db () db' → call.WritesPlain db

/-- The state after some calls, returned from or thrown out of. -/
def stateAfter (db : VectorDb) : List (VectorCall ν) → VectorDb
  | [] => db
  | call :: calls => stateAfter ((call.run vshardOf).after db) calls

/-- Each call of a run meets the condition where it runs. -/
def MeetsAll (db : VectorDb) : List (VectorCall ν) → Prop
  | [] => True
  | call :: calls => call.Meets vshardOf db ∧ MeetsAll ((call.run vshardOf).after db) calls

/-! ### Every run -/

section
variable {I : VectorDb → Prop} {α β : Type} {f : β → VectorTx α}

theorem after_require {p : Prop} [Decidable p] {e : Thrown} {g : Unit → VectorTx α}
    (hg : ∀ a, (g a).Preserves I) : (Tx.require p e >>= g).Preserves I :=
  (readOnly_require p e).preserves.bind hg

theorem after_check {x : Except Thrown β} (hf : ∀ a, (f a).Preserves I) :
    (Tx.ofExcept x >>= f).Preserves I := (readOnly_ofExcept x).preserves.bind hf

theorem after_look {g : VectorDb → β} (hf : ∀ a, (f a).Preserves I) :
    (Tx.gets g >>= f).Preserves I := (readOnly_gets g).preserves.bind hf

theorem pure_preserves (a : α) : (pure a : VectorTx α).Preserves I := (readOnly_pure a).preserves

end

section
variable {I : VectorDb → Prop} (hexec : ∀ st, (exec st).Preserves I)
  (hseq : ∀ n, (setLastSeq n).Preserves I)
include hexec hseq

theorem stageHead_preserves_of (input : StageUpsert ν) (encodedValues : List UInt8)
    (metadataJson : String) :
    (stageHead vshardOf input encodedValues metadataJson).Preserves I := by
  refine after_look fun stored => (readOnly_assertStageCapacity _ _).preserves.bind fun _ =>
    after_look fun _ => after_require fun _ => ?_
  cases stored with
  | some stored =>
    refine after_check fun _ => after_require fun _ => after_require fun _ => after_require fun _ =>
      after_check fun _ => ?_
    exact (hexec _).bind fun _ => after_require fun _ => pure_preserves _
  | none =>
    refine Preserves.bind ?_ fun _ => (hexec _).bind fun _ => pure_preserves _
    exact after_look fun _ => after_check fun _ => after_require fun _ => (hseq _).bind fun _ =>
      pure_preserves _

/-- What statements and sequence allocations keep, an upsert keeps. -/
theorem stageUpsert_preserves_of (input : StageUpsert ν) :
    (Vectors.stageUpsert vshardOf input).Preserves I := by
  refine after_check fun _ => after_check fun _ => after_check fun _ => after_check fun _ =>
    after_check fun _ => after_check fun _ => after_check fun _ => after_check fun _ => ?_
  refine (stageHead_preserves_of vshardOf hexec hseq input _ _).bind fun _ => Preserves.bind ?_
    fun _ => (readOnly_read vshardOf _).preserves.bind fun result => ?_
  · exact (hexec _).bind fun _ => (hexec _).bind fun _ => readOnly_readCapacity.preserves.bind
      fun _ => (readOnly_require _ _).preserves
  · cases result with
    | none => exact (readOnly_throw _).preserves
    | some result => exact after_require fun _ => pure_preserves _

theorem applyPageHead_preserves_of (record : Destination.HeadRecord) (hasTailProvenance : Bool) :
    (Destination.applyHead record hasTailProvenance).Preserves I := by
  refine after_look fun _ => after_require fun _ => after_look fun _ => after_require fun _ =>
    (Destination.readOnly_assertHeadCapacity _ _ _ _).preserves.bind fun _ => .ite (fun _ => ?_)
    fun _ => Preserves.bind ?_ fun _ => ?_
  · exact (hexec _).bind fun _ => after_require fun _ => pure_preserves _
  · exact after_look fun _ => after_check fun _ => after_require fun _ => (hseq _).bind fun _ =>
      pure_preserves _
  · exact (hexec _).bind fun _ => after_require fun _ => pure_preserves _

theorem applyTailHead_preserves_of (lo hi : Int) (entry : Tail.HeadEntry) (pk : String)
    (hasProvenance : Bool) : (Tail.applyHead lo hi entry pk hasProvenance).Preserves I := by
  cases entry with
  | ins image =>
    refine after_require fun _ => after_require fun _ => after_require fun _ =>
      after_look fun existing => ?_
    cases existing with
    | some existing => exact after_require fun _ => after_require fun _ => pure_preserves _
    | none =>
      refine Preserves.bind ?_ fun _ => (hexec _).bind fun _ => pure_preserves _
      exact after_look fun _ => after_require fun _ => (hseq _).bind fun _ => pure_preserves _
  | del image =>
    refine after_require fun _ => after_require fun _ => after_look fun existing =>
      after_require fun _ => ?_
    cases existing with
    | none => exact pure_preserves _
    | some existing =>
      exact after_require fun _ => (hexec _).bind fun _ => after_require fun _ => pure_preserves _
  | upd prior image =>
    refine after_require fun _ => after_require fun _ => after_look fun existing =>
      after_require fun _ => after_check fun _ => .ite (fun _ => pure_preserves _) fun _ => ?_
    exact after_require fun _ => (hexec _).bind fun _ => after_require fun _ => pure_preserves _

end

theorem exec_counted (st : Statement) : (exec st).Preserves Counted :=
  fun _ _ _ hc h => run_counted hc (exec_returns.mp h)

theorem setLastSeq_counted (n : Int) : (setLastSeq n).Preserves Counted := by
  intro s a s' hc h
  obtain rfl := setLastSeq_heads h
  exact ⟨hc.headCount, hc.storedBytes, hc.outboxRows, hc.attemptRows⟩

theorem execAll_counted (statements : List Statement) : (execAll statements).Preserves Counted := by
  induction statements with
  | nil => exact (readOnly_pure _).preserves
  | cons st rest ih => exact (exec_counted st).bind fun _ => ih

/-- Every call keeps what the triggers keep. -/
theorem VectorCall.run_counted (call : VectorCall ν) : (call.run vshardOf).Keeps Counted := by
  have hpure : (pure () : VectorTx Unit).Preserves Counted := (readOnly_pure _).preserves
  cases call with
  | stageUpsert input =>
    exact ((stageUpsert_preserves_of vshardOf exec_counted setLastSeq_counted input).bind
      fun _ => hpure).transactionSync
  | applyPageHead record hasTailProvenance =>
    exact ((applyPageHead_preserves_of exec_counted setLastSeq_counted record
      hasTailProvenance).bind fun _ => hpure).transactionSync
  | applyTailHead lo hi entry pk hasProvenance =>
    exact ((applyTailHead_preserves_of exec_counted setLastSeq_counted lo hi entry pk
      hasProvenance).bind fun _ => hpure).transactionSync
  | deliver statements keeps => exact (execAll_counted statements).transactionSync
  | deleteOrganization organizationId =>
    exact fun _ hc => ⟨hc.headCount, hc.storedBytes, hc.outboxRows, hc.attemptRows⟩

theorem stateAfter_counted {db : VectorDb} (hc : Counted db) (calls : List (VectorCall ν)) :
    Counted (stateAfter vshardOf db calls) := by
  induction calls generalizing db with
  | nil => exact hc
  | cons call calls ih => exact ih (call.run_counted vshardOf hc)

/-- In every run the counters are never negative and count the rows; the byte counter is exact in a
state if and only if the metadata of every stored head is plain. -/
theorem counters_exact_iff_plain (calls : List (VectorCall ν)) :
    let db := stateAfter vshardOf VectorDb.empty calls
    db.capacity.Check ∧ db.capacity.headCount = db.heads.count ∧
      db.capacity.outboxRows = db.outbox.count ∧ db.capacity.attemptRows = db.attempts.count ∧
      (db.capacity.storedBytes = db.measuredBytes ↔ ∀ h ∈ db.heads, IsPlain h.metadataJson) := by
  have hc := stateAfter_counted vshardOf counted_empty calls
  exact ⟨hc.check, hc.headCount, hc.outboxRows, hc.attemptRows, hc.exact_iff⟩

/-! ### Runs of plain metadata -/

theorem execAll_preserves {statements : List Statement} (h : ∀ st ∈ statements, st.Keeps) :
    (execAll statements).Preserves Sound := by
  induction statements with
  | nil => exact (readOnly_pure _).preserves
  | cons st rest ih =>
    exact (exec_preserves st (h st List.mem_cons_self)).bind fun _ =>
      ih fun x hx => h x (List.mem_cons_of_mem _ hx)

/-- A transaction ends where its program returned, or where it began. -/
theorem sound_after_transaction {α : Type} {x : VectorTx α} {db : VectorDb} (hs : Sound db)
    {P : Prop}
    (hmeets : ∀ db', (transactionSync (x >>= fun _ => pure ())).Returns db () db' → P)
    (hx : P → ∀ a db', x.Returns db a db' → Sound db') :
    Sound ((transactionSync (x >>= fun _ => pure ())).after db) := by
  rcases (transactionSync (x >>= fun _ => pure ())).returns_or_throws db with ⟨a, h⟩ | ⟨e, h⟩
  · have hp := hmeets _ h
    simp only [transactionSync_returns, bind_returns, pure_returns] at h
    obtain ⟨b, t, hr, -, ht⟩ := h
    rw [← ht]
    exact hx hp b t hr
  · rw [(transactionSync_throws.mp h).1]
    exact hs

/-- A call that meets the condition keeps the store sound. -/
theorem VectorCall.run_sound {db : VectorDb} (hs : Sound db) {call : VectorCall ν}
    (hmeets : call.Meets vshardOf db) : Sound ((call.run vshardOf).after db) := by
  cases call with
  | stageUpsert input =>
    exact sound_after_transaction hs hmeets fun hplain _ _ h =>
      stageUpsert_preserves vshardOf input hplain hs h
  | applyPageHead record hasTailProvenance =>
    exact sound_after_transaction hs hmeets fun hplain _ _ h =>
      Destination.applyHead_preserves hplain hasTailProvenance hs h
  | applyTailHead lo hi entry pk hasProvenance =>
    exact sound_after_transaction hs hmeets fun hfits _ _ h => Tail.applyHead_sound hs hfits h
  | deliver statements keeps => exact (execAll_preserves keeps).transactionSync hs
  | deleteOrganization organizationId =>
    exact hs.of_heads rfl ⟨hs.headCount, hs.storedBytes, hs.outboxRows, hs.attemptRows⟩

theorem stateAfter_sound {db : VectorDb} (hs : Sound db) {calls : List (VectorCall ν)}
    (hmeets : MeetsAll vshardOf db calls) : Sound (stateAfter vshardOf db calls) := by
  induction calls generalizing db with
  | nil => exact hs
  | cons call calls ih => exact ih (call.run_sound vshardOf hs hmeets.1) hmeets.2

/-- What the counters should say of a state. -/
structure CapacityExact (db : VectorDb) : Prop where
  headCount : db.capacity.headCount = db.heads.count
  storedBytes : db.capacity.storedBytes = db.measuredBytes
  outboxRows : db.capacity.outboxRows = db.outbox.count
  attemptRows : db.capacity.attemptRows = db.attempts.count
  nonneg : db.capacity.Check
  heads_le : (db.heads.count : Int) ≤ CDB_VECTOR_MAX_HEADS
  bytes_le : db.measuredBytes ≤ CDB_VECTOR_MAX_STORED_BYTES

theorem Sound.exact {db : VectorDb} (hs : Sound db) : CapacityExact db where
  headCount := hs.headCount
  storedBytes := hs.storedBytes_eq
  outboxRows := hs.outboxRows
  attemptRows := hs.attemptRows
  nonneg := hs.check
  heads_le := hs.heads_le
  bytes_le := hs.bytes_le

/-- In every state of a run whose calls meet the condition the counters are exact, the limits hold,
and no upsert fails with the accounting error. -/
theorem capacity_exact_while_plain (calls : List (VectorCall ν))
    (hmeets : MeetsAll vshardOf VectorDb.empty calls) :
    CapacityExact (stateAfter vshardOf VectorDb.empty calls) ∧
      ∀ (input : StageUpsert ν) (e : Thrown) (db' : VectorDb),
        (stageUpsert vshardOf input).Throws (stateAfter vshardOf VectorDb.empty calls) e db' →
          e ≠ inconsistentCapacity := by
  have hs := stateAfter_sound vshardOf sound_empty hmeets
  refine ⟨hs.exact, ?_⟩
  rintro input e db' h rfl
  exact stageUpsert_consistent vshardOf input hs h

end

/-! ## Accented metadata -/

/-- An upsert of one vector whose metadata is `\x7b"a":letter\x7d`. -/
def letterUpsert (letter : String) : StageUpsert Int where
  vectorId := "v1"
  organizationId := "org"
  resourceId := "notes"
  rowPk := "1"
  dimensions := 1
  values := [.float32 0]
  metadata := .obj [("a", .str letter)]
  nowMs := 1

/-- The head of a second vector, as a page hands it over. -/
def secondHead : Destination.HeadRecord where
  vectorId := "v2"
  organizationId := "org"
  placementVshard := 0
  resourceId := "notes"
  rowPk := "2"
  dimensions := 1
  headVersion := 1
  deliveredVersion := 0
  values := some [0, 0, 0, 0]
  metadataJson := "\x7b\x7d"
  state := .pending
  updatedAt := 1

/-- The outbox row of the first vector is leased. -/
def leaseFirst : List Statement :=
  [.updateOutbox (fun r => decide (r.vectorId = "v1")) fun r =>
    { r with leasedUntil := some 2, leaseToken := some "lease" }]

theorem leaseFirst_keeps : ∀ st ∈ leaseFirst, st.Keeps := by
  intro st hst
  obtain rfl := List.mem_singleton.mp hst
  exact trivial

/-- An upsert, another one of the same vector, a head of a page, a head of the tail and a lease. -/
def plainCalls : List (VectorCall Int) :=
  [.stageUpsert (letterUpsert "e"), .stageUpsert (letterUpsert "f"),
    .applyPageHead secondHead false,
    .applyTailHead 0 10 (.ins { secondHead.row 1 with vectorId := "v3", rowPk := "3" }) "v3" false,
    .deliver leaseFirst leaseFirst_keeps]

theorem capacity_exact_plain_letter :
    CapacityExact (stateAfter (fun _ => 0) VectorDb.empty plainCalls) ∧
      ∀ (input : StageUpsert Int) (e : Thrown) (db' : VectorDb),
        (stageUpsert (fun _ => 0) input).Throws (stateAfter (fun _ => 0) VectorDb.empty plainCalls)
            e db' →
          e ≠ inconsistentCapacity := by
  refine capacity_exact_while_plain (fun _ => 0) plainCalls ⟨fun _ _ => ?_, fun _ _ => ?_,
    fun _ _ => ?_, fun _ _ _ => ⟨?_, ?_, ?_⟩, fun _ _ => trivial, trivial⟩
  · show IsPlain _
    decide +kernel
  · show IsPlain _
    decide +kernel
  · show IsPlain _
    decide +kernel
  · show IsPlain _
    decide +kernel
  · decide +kernel
  · decide +kernel

/-- The error that a run of a program ends with, if any. -/
def errorOf {α : Type} (x : VectorTx α) (db : VectorDb) : Option Thrown :=
  match (x db).1 with
  | .ok _ => none
  | .error e => some e

theorem throws_of_errorOf {α : Type} {x : VectorTx α} {db : VectorDb} {e : Thrown}
    (h : errorOf x db = some e) : x.Throws db e (x.after db) := by
  rcases x.returns_or_throws db with ⟨a, hr⟩ | ⟨e', ht⟩
  · unfold Tx.Returns at hr
    unfold errorOf at h
    rw [hr] at h
    cases h
  · have ht' := ht
    unfold Tx.Throws at ht'
    unfold errorOf at h
    rw [ht'] at h
    cases h
    exact ht

/-- One accented letter: the byte counter is wrong after the first upsert, and the second one, of
the same vector, finds the accounting inconsistent. -/
theorem accented_metadata_drifts :
    let db := stateAfter (fun _ => 0) VectorDb.empty [.stageUpsert (letterUpsert "é")]
    ¬ CapacityExact db ∧
      ∃ db', (stageUpsert (fun _ => 0) (letterUpsert "é")).Throws db inconsistentCapacity db' := by
  refine ⟨fun h => absurd h.storedBytes (by decide +kernel), _, throws_of_errorOf ?_⟩
  decide +kernel

end Chardb.Vectors
