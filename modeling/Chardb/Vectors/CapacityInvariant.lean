import Chardb.Vectors.HeadApply

/-!
# The capacity counters

What the triggers keep: after every statement the counters are the numbers of rows, and
`stored_bytes` is the total of the heads as SQL measures them (`Counted`). That total is the one
`assertStageCapacity` measures exactly when the metadata of every head is plain ASCII
(`Counted.exact_iff`).
-/

namespace Chardb.Vectors

open Chardb.Lib

/-- The true number of stored bytes, as `assertStageCapacity` measures a head. -/
def VectorDb.measuredBytes (db : VectorDb) : Int := db.heads.total VectorHead.measuredBytes

/-- The counters are the numbers of rows and the bytes that SQL counts. -/
structure Counted (db : VectorDb) : Prop where
  headCount : db.capacity.headCount = db.heads.count
  storedBytes : db.capacity.storedBytes = db.heads.total VectorHead.countedBytes
  outboxRows : db.capacity.outboxRows = db.outbox.count
  attemptRows : db.capacity.attemptRows = db.attempts.count

theorem counted_empty : Counted VectorDb.empty := ⟨rfl, rfl, rfl, rfl⟩

theorem VectorHead.countedBytes_nonneg (h : VectorHead) : 0 ≤ h.countedBytes := by
  unfold VectorHead.countedBytes; omega

theorem VectorHead.measuredBytes_nonneg (h : VectorHead) : 0 ≤ h.measuredBytes := by
  unfold VectorHead.measuredBytes; omega

theorem VectorHead.countedBytes_le (h : VectorHead) : h.countedBytes ≤ h.measuredBytes := by
  have := sqlLength_le h.metadataJson
  unfold VectorHead.countedBytes VectorHead.measuredBytes; omega

theorem VectorHead.countedBytes_eq_iff {h : VectorHead} :
    h.countedBytes = h.measuredBytes ↔ IsPlain h.metadataJson := by
  rw [← sqlLength_eq_iff]
  unfold VectorHead.countedBytes VectorHead.measuredBytes
  omega

namespace Counted

variable {db : VectorDb}

/-- The counters never go negative. -/
theorem check (hc : Counted db) : db.capacity.Check := by
  have hbytes : 0 ≤ db.heads.total VectorHead.countedBytes :=
    Table.sumOf_nonneg fun h _ => h.countedBytes_nonneg
  have hh := hc.headCount
  have hb := hc.storedBytes
  have ho := hc.outboxRows
  have ha := hc.attemptRows
  exact ⟨by omega, by omega, by omega, by omega⟩

/-- The byte counter is exact when the metadata of every head is plain, and only then. -/
theorem exact_iff (hc : Counted db) :
    db.capacity.storedBytes = db.measuredBytes ↔ ∀ h ∈ db.heads, IsPlain h.metadataJson := by
  rw [hc.storedBytes, VectorDb.measuredBytes, Table.total, Table.total,
    Table.sumOf_eq_iff fun h _ => h.countedBytes_le]
  exact forall₂_congr fun h _ => VectorHead.countedBytes_eq_iff

end Counted

/-! ## Statements -/

theorem charge_eq_some {db db' : VectorDb} {c : Charge} :
    db.charge c = some db' ↔
      (VectorCapacity.mk (db.capacity.headCount + c.heads) (db.capacity.storedBytes + c.bytes)
        (db.capacity.outboxRows + c.outbox) (db.capacity.attemptRows + c.attempts)).Check ∧
      { db with
        capacity := ⟨db.capacity.headCount + c.heads, db.capacity.storedBytes + c.bytes,
          db.capacity.outboxRows + c.outbox, db.capacity.attemptRows + c.attempts⟩ } = db' := by
  unfold VectorDb.charge
  dsimp only
  split
  · rename_i h; simp [h]
  · rename_i h; simp [h]

theorem insertHead_returns {db db' : VectorDb} {row : VectorHead} {n : Nat}
    (h : db.insertHead row = some (n, db')) :
    ∃ heads, db.heads.insert? row = some heads ∧ n = 1 ∧
      { db with heads }.charge { heads := 1, bytes := row.countedBytes } = some db' := by
  unfold VectorDb.insertHead at h
  split at h
  · simp only [Option.bind_eq_bind, Option.bind_eq_some_iff, Option.some.injEq, Prod.mk.injEq] at h
    obtain ⟨heads, hheads, d, hd, rfl, rfl⟩ := h
    exact ⟨heads, hheads, rfl, hd⟩
  · cases h

theorem updateHeads_returns {db db' : VectorDb} {p : VectorHead → Bool}
    {f : VectorHead → VectorHead} {n : Nat} (h : db.updateHeads p f = some (n, db')) :
    ∃ heads, db.heads.update? p f = some heads ∧ n = (db.heads.select p).length ∧
      { db with heads }.charge
        { bytes := Table.sumOf (fun h => (f h).countedBytes - h.countedBytes)
            (db.heads.select p) } = some db' := by
  unfold VectorDb.updateHeads at h
  split at h
  · simp only [Option.bind_eq_bind, Option.bind_eq_some_iff, Option.some.injEq, Prod.mk.injEq] at h
    obtain ⟨heads, hheads, d, hd, rfl, rfl⟩ := h
    exact ⟨heads, hheads, rfl, hd⟩
  · cases h

section
variable {db db' : VectorDb} {n : Nat}

theorem insertHead_counted (hc : Counted db) {row : VectorHead}
    (h : db.insertHead row = some (n, db')) : Counted db' := by
  obtain ⟨heads, hheads, -, hcharge⟩ := insertHead_returns h
  obtain ⟨-, rfl⟩ := charge_eq_some.mp hcharge
  have hcount := Table.count_insert hheads
  have htotal := Table.total_insert hheads VectorHead.countedBytes
  have h₁ := hc.headCount
  have h₂ := hc.storedBytes
  refine ⟨?_, ?_, ?_, ?_⟩
  · show db.capacity.headCount + 1 = heads.count
    omega
  · show db.capacity.storedBytes + row.countedBytes = heads.total VectorHead.countedBytes
    omega
  · show db.capacity.outboxRows + 0 = db.outbox.count
    rw [Int.add_zero]; exact hc.outboxRows
  · show db.capacity.attemptRows + 0 = db.attempts.count
    rw [Int.add_zero]; exact hc.attemptRows

theorem updateHeads_counted (hc : Counted db) {p : VectorHead → Bool}
    {f : VectorHead → VectorHead} (h : db.updateHeads p f = some (n, db')) : Counted db' := by
  obtain ⟨heads, hheads, -, hcharge⟩ := updateHeads_returns h
  obtain ⟨-, rfl⟩ := charge_eq_some.mp hcharge
  have hcount := Table.count_update hheads
  have htotal := Table.total_update hheads VectorHead.countedBytes
  have h₁ := hc.headCount
  have h₂ := hc.storedBytes
  refine ⟨?_, ?_, ?_, ?_⟩
  · show db.capacity.headCount + 0 = heads.count
    omega
  · show db.capacity.storedBytes + _ = heads.total VectorHead.countedBytes
    rw [htotal, h₂]
  · show db.capacity.outboxRows + 0 = db.outbox.count
    rw [Int.add_zero]; exact hc.outboxRows
  · show db.capacity.attemptRows + 0 = db.attempts.count
    rw [Int.add_zero]; exact hc.attemptRows

theorem deleteHeads_returns {p : VectorHead → Bool} (h : db.deleteHeads p = some (n, db')) :
    db'.heads = db.heads.deleteWhere p ∧ (Counted db → Counted db') := by
  unfold VectorDb.deleteHeads at h
  simp only [Option.bind_eq_bind, Option.bind_eq_some_iff, Option.some.injEq, Prod.mk.injEq] at h
  obtain ⟨d, hcharge, -, rfl⟩ := h
  obtain ⟨-, rfl⟩ := charge_eq_some.mp hcharge
  refine ⟨rfl, fun hc => ⟨?_, ?_, ?_, ?_⟩⟩
  · show db.capacity.headCount + -((db.heads.select p).length : Int) =
      (db.heads.deleteWhere p).count
    have := Table.count_deleteWhere db.heads p
    have := hc.headCount
    omega
  · show db.capacity.storedBytes + -Table.sumOf VectorHead.countedBytes (db.heads.select p) =
      (db.heads.deleteWhere p).total VectorHead.countedBytes
    rw [Table.total_deleteWhere, hc.storedBytes]
    omega
  · show db.capacity.outboxRows + -((db.outbox.select _).length : Int) =
      (db.outbox.deleteWhere _).count
    have := Table.count_deleteWhere db.outbox fun o =>
      (db.heads.select p).any fun h => decide (h.vectorId = o.vectorId)
    have := hc.outboxRows
    omega
  · show db.capacity.attemptRows + -((db.attempts.select _).length : Int) =
      (db.attempts.deleteWhere _).count
    have := Table.count_deleteWhere db.attempts fun a =>
      (db.heads.select p).any fun h => decide (h.vectorId = a.vectorId)
    have := hc.attemptRows
    omega

/-- A statement on the outbox or on the attempts leaves the heads alone. -/
def Statement.OnChildren : Statement → Prop
  | .insertHead _ | .updateHeads _ _ | .deleteHeads _ => False
  | _ => True

theorem upsertOutbox_returns {row : VectorOutboxRow} {f : VectorOutboxRow → VectorOutboxRow}
    (h : db.upsertOutbox row f = some (n, db')) :
    db'.heads = db.heads ∧ (Counted db → Counted db') := by
  unfold VectorDb.upsertOutbox at h
  split at h
  · simp only [Option.bind_eq_bind, Option.bind_eq_some_iff, Option.some.injEq, Prod.mk.injEq] at h
    obtain ⟨outbox, houtbox, -, rfl⟩ := h
    refine ⟨rfl, fun hc => ⟨hc.headCount, hc.storedBytes, ?_, hc.attemptRows⟩⟩
    show db.capacity.outboxRows = outbox.count
    rw [hc.outboxRows, Table.count_update houtbox]
  · split at h
    · simp only [Option.bind_eq_bind, Option.bind_eq_some_iff, Option.some.injEq,
        Prod.mk.injEq] at h
      obtain ⟨outbox, houtbox, d, hcharge, -, rfl⟩ := h
      obtain ⟨-, rfl⟩ := charge_eq_some.mp hcharge
      have := Table.count_insert houtbox
      exact ⟨rfl, fun hc => ⟨by simpa using hc.headCount, by simpa using hc.storedBytes,
        by have := hc.outboxRows; simp; omega, by simpa using hc.attemptRows⟩⟩
    · cases h

theorem insertAttempt_returns {row : VectorAttempt} (h : db.insertAttempt row = some (n, db')) :
    db'.heads = db.heads ∧ (Counted db → Counted db') := by
  unfold VectorDb.insertAttempt at h
  split at h
  · simp only [Option.bind_eq_bind, Option.bind_eq_some_iff, Option.some.injEq, Prod.mk.injEq] at h
    obtain ⟨attempts, hattempts, d, hcharge, -, rfl⟩ := h
    obtain ⟨-, rfl⟩ := charge_eq_some.mp hcharge
    have := Table.count_insert hattempts
    exact ⟨rfl, fun hc => ⟨by simpa using hc.headCount, by simpa using hc.storedBytes,
      by simpa using hc.outboxRows, by have := hc.attemptRows; simp; omega⟩⟩
  · cases h

theorem run_onChildren (st : Statement) (hst : st.OnChildren) (h : st.run db = some (n, db')) :
    db'.heads = db.heads ∧ (Counted db → Counted db') := by
  cases st with
  | insertHead row => exact hst.elim
  | updateHeads p f => exact hst.elim
  | deleteHeads p => exact hst.elim
  | upsertOutbox row f => exact upsertOutbox_returns h
  | insertAttempt row => exact insertAttempt_returns h
  | updateOutbox p f =>
    simp only [Statement.run, Option.bind_eq_bind, Option.bind_eq_some_iff, Option.some.injEq,
      Prod.mk.injEq] at h
    obtain ⟨outbox, houtbox, -, rfl⟩ := h
    refine ⟨rfl, fun hc => ⟨hc.headCount, hc.storedBytes, ?_, hc.attemptRows⟩⟩
    show db.capacity.outboxRows = outbox.count
    rw [hc.outboxRows, Table.count_update houtbox]
  | updateAttempts p f =>
    simp only [Statement.run, Option.bind_eq_bind, Option.bind_eq_some_iff, Option.some.injEq,
      Prod.mk.injEq] at h
    obtain ⟨attempts, hattempts, -, rfl⟩ := h
    refine ⟨rfl, fun hc => ⟨hc.headCount, hc.storedBytes, hc.outboxRows, ?_⟩⟩
    show db.capacity.attemptRows = attempts.count
    rw [hc.attemptRows, Table.count_update hattempts]
  | deleteOutbox p =>
    simp only [Statement.run, Option.bind_eq_bind, Option.bind_eq_some_iff, Option.some.injEq,
      Prod.mk.injEq] at h
    obtain ⟨d, hcharge, -, rfl⟩ := h
    obtain ⟨-, rfl⟩ := charge_eq_some.mp hcharge
    have := Table.count_deleteWhere db.outbox p
    exact ⟨rfl, fun hc => ⟨by simpa using hc.headCount, by simpa using hc.storedBytes,
      by have := hc.outboxRows; simp; omega, by simpa using hc.attemptRows⟩⟩
  | deleteAttempts p =>
    simp only [Statement.run, Option.bind_eq_bind, Option.bind_eq_some_iff, Option.some.injEq,
      Prod.mk.injEq] at h
    obtain ⟨d, hcharge, -, rfl⟩ := h
    obtain ⟨-, rfl⟩ := charge_eq_some.mp hcharge
    have := Table.count_deleteWhere db.attempts p
    exact ⟨rfl, fun hc => ⟨by simpa using hc.headCount, by simpa using hc.storedBytes,
      by simpa using hc.outboxRows, by have := hc.attemptRows; simp; omega⟩⟩

/-- Every statement keeps the counters. -/
theorem run_counted {st : Statement} (hc : Counted db) (h : st.run db = some (n, db')) :
    Counted db' := by
  cases st with
  | insertHead row => exact insertHead_counted hc h
  | updateHeads p f => exact updateHeads_counted hc h
  | deleteHeads p => exact (deleteHeads_returns h).2 hc
  | upsertOutbox row f => exact (upsertOutbox_returns h).2 hc
  | insertAttempt row => exact (insertAttempt_returns h).2 hc
  | updateOutbox p f => exact (run_onChildren (.updateOutbox p f) trivial h).2 hc
  | deleteOutbox p => exact (run_onChildren (.deleteOutbox p) trivial h).2 hc
  | updateAttempts p f => exact (run_onChildren (.updateAttempts p f) trivial h).2 hc
  | deleteAttempts p => exact (run_onChildren (.deleteAttempts p) trivial h).2 hc

end

/-! ## What the counters stand for -/

/-- The counters are exact, every metadata text is plain, and the limits hold. -/
structure Sound (db : VectorDb) : Prop extends Counted db where
  plain : ∀ h ∈ db.heads, IsPlain h.metadataJson
  heads_le : (db.heads.count : Int) ≤ CDB_VECTOR_MAX_HEADS
  bytes_le : db.measuredBytes ≤ CDB_VECTOR_MAX_STORED_BYTES

theorem sound_empty : Sound VectorDb.empty where
  toCounted := counted_empty
  plain := by intro h hh; cases hh
  heads_le := by decide
  bytes_le := by decide

namespace Sound

variable {db db' : VectorDb} {n : Nat}

theorem storedBytes_eq (hs : Sound db) : db.capacity.storedBytes = db.measuredBytes :=
  hs.exact_iff.mpr hs.plain

/-- A head insert keeps the store sound where there is room for it. -/
theorem insertHead (hs : Sound db) {row : VectorHead} (hplain : IsPlain row.metadataJson)
    (hheads : (db.heads.count : Int) < CDB_VECTOR_MAX_HEADS)
    (hbytes : db.measuredBytes + row.measuredBytes ≤ CDB_VECTOR_MAX_STORED_BYTES)
    (h : db.insertHead row = some (n, db')) : Sound db' := by
  refine ⟨insertHead_counted hs.toCounted h, ?_, ?_, ?_⟩ <;>
    obtain ⟨heads, hinsert, -, hcharge⟩ := insertHead_returns h <;>
    obtain ⟨-, rfl⟩ := charge_eq_some.mp hcharge
  · intro x hx
    rcases (Table.mem_insert hinsert).mp hx with hx | rfl
    · exact hs.plain x hx
    · exact hplain
  · show (heads.count : Int) ≤ CDB_VECTOR_MAX_HEADS
    have := Table.count_insert hinsert
    omega
  · show heads.total VectorHead.measuredBytes ≤ CDB_VECTOR_MAX_STORED_BYTES
    rw [Table.total_insert hinsert]
    exact hbytes

/-- A head update keeps the store sound where there is room for the rows it changes. -/
theorem updateHeads (hs : Sound db) {p : VectorHead → Bool} {f : VectorHead → VectorHead}
    (hplain : ∀ x ∈ db.heads, p x = true → IsPlain (f x).metadataJson)
    (hbytes : db.measuredBytes +
        Table.sumOf (fun x => (f x).measuredBytes - x.measuredBytes) (db.heads.select p) ≤
      CDB_VECTOR_MAX_STORED_BYTES)
    (h : db.updateHeads p f = some (n, db')) : Sound db' := by
  refine ⟨updateHeads_counted hs.toCounted h, ?_, ?_, ?_⟩ <;>
    obtain ⟨heads, hupdate, -, hcharge⟩ := updateHeads_returns h <;>
    obtain ⟨-, rfl⟩ := charge_eq_some.mp hcharge
  · intro x hx
    obtain ⟨y, hy, rfl⟩ := (Table.mem_update hupdate).mp hx
    by_cases hp : p y = true
    · rw [if_pos hp]; exact hplain y hy hp
    · rw [if_neg hp]; exact hs.plain y hy
  · show (heads.count : Int) ≤ CDB_VECTOR_MAX_HEADS
    rw [Table.count_update hupdate]
    exact hs.heads_le
  · show heads.total VectorHead.measuredBytes ≤ CDB_VECTOR_MAX_STORED_BYTES
    rw [Table.total_update hupdate]
    exact hbytes

theorem deleteHeads (hs : Sound db) {p : VectorHead → Bool}
    (h : db.deleteHeads p = some (n, db')) : Sound db' := by
  obtain ⟨hheads, hcounted⟩ := deleteHeads_returns h
  refine ⟨hcounted hs.toCounted, ?_, ?_, ?_⟩
  · intro x hx
    rw [hheads] at hx
    exact hs.plain x (Table.mem_deleteWhere.mp hx).1
  · rw [hheads]
    have := Table.count_deleteWhere db.heads p
    have := hs.heads_le
    omega
  · rw [VectorDb.measuredBytes, hheads, Table.total_deleteWhere]
    have hpos : 0 ≤ Table.sumOf VectorHead.measuredBytes (db.heads.select p) :=
      Table.sumOf_nonneg fun x _ => x.measuredBytes_nonneg
    have hle := hs.bytes_le
    unfold VectorDb.measuredBytes at hle
    omega

theorem of_heads (hs : Sound db) (hheads : db'.heads = db.heads) (hc : Counted db') : Sound db' :=
  ⟨hc, by rw [hheads]; exact hs.plain, by rw [hheads]; exact hs.heads_le,
    by rw [VectorDb.measuredBytes, hheads]; exact hs.bytes_le⟩

end Sound

/-- Statements that write no embedding and no metadata: what a head update may do is drop bytes. -/
def Statement.Keeps : Statement → Prop
  | .insertHead _ => False
  | .updateHeads _ f =>
    ∀ h, (f h).metadataJson = h.metadataJson ∧ (f h).valuesBytes ≤ h.valuesBytes
  | _ => True

theorem run_keeps {db db' : VectorDb} {n : Nat} {st : Statement} (hst : st.Keeps) (hs : Sound db)
    (h : st.run db = some (n, db')) : Sound db' := by
  have hc := run_counted hs.toCounted h
  cases st with
  | insertHead row => exact hst.elim
  | updateHeads p f =>
    refine hs.updateHeads (fun x hx _ => by rw [(hst x).1]; exact hs.plain x hx) ?_ h
    have hshrink : Table.sumOf (fun x => (f x).measuredBytes - x.measuredBytes)
        (db.heads.select p) ≤ 0 := by
      rw [← Table.sumOf_zero (db.heads.select p)]
      refine Table.sumOf_le fun x _ => ?_
      obtain ⟨hmeta, hvalues⟩ := hst x
      unfold VectorHead.measuredBytes
      rw [hmeta]
      omega
    have := hs.bytes_le
    omega
  | deleteHeads p => exact hs.deleteHeads h
  | upsertOutbox row f => exact hs.of_heads (upsertOutbox_returns h).1 hc
  | insertAttempt row => exact hs.of_heads (insertAttempt_returns h).1 hc
  | updateOutbox p f => exact hs.of_heads (run_onChildren (.updateOutbox p f) trivial h).1 hc
  | deleteOutbox p => exact hs.of_heads (run_onChildren (.deleteOutbox p) trivial h).1 hc
  | updateAttempts p f =>
    exact hs.of_heads (run_onChildren (.updateAttempts p f) trivial h).1 hc
  | deleteAttempts p => exact hs.of_heads (run_onChildren (.deleteAttempts p) trivial h).1 hc

end Chardb.Vectors
