import Chardb.Vectors.CapacityInvariant

/-!
# Capacity across the head writes

`stageUpsert` and the two applies of a moving head keep a store `Sound` when the metadata they
write is plain; the tail's apply, which checks no capacity, also needs room. In a sound store
`stageUpsert` never finds the accounting inconsistent.
-/

namespace Chardb.Vectors

open Chardb.Lib Tx

variable {db db' : VectorDb}

/-! ## Programs that leave the heads sound -/

theorem exec_preserves (st : Statement) (hst : st.Keeps) : (exec st).Preserves Sound :=
  fun _ _ _ hs h => run_keeps hst hs (exec_returns.mp h)

theorem readOnly_readCapacity : readCapacity.ReadOnly :=
  (readOnly_gets _).bind fun _ => (readOnly_ofExcept _).bind fun _ => (readOnly_ofExcept _).bind
    fun _ => (readOnly_ofExcept _).bind fun _ => (readOnly_ofExcept _).bind fun _ => readOnly_pure _

theorem readCapacity_returns {c : VectorCapacity} (h : readCapacity.Returns db c db') :
    c = db.capacity ∧ db = db' := by
  simp only [readCapacity, bind_returns, gets_returns, ofExcept_returns, pure_returns] at h
  obtain ⟨row, t, ⟨rfl, rfl⟩, _, t₁, ⟨-, rfl⟩, _, t₂, ⟨-, rfl⟩, _, t₃, ⟨-, rfl⟩, _, t₄, ⟨-, rfl⟩,
    rfl, rfl⟩ := h
  exact ⟨rfl, rfl⟩

theorem setLastSeq_preserves (n : Int) : (setLastSeq n).Preserves Sound := by
  intro s a s' hs h
  obtain rfl := modify_returns.mp h
  exact ⟨⟨hs.headCount, hs.storedBytes, hs.outboxRows, hs.attemptRows⟩, hs.plain, hs.heads_le,
    hs.bytes_le⟩

theorem coalesce_preserves (vectorId : String) (version : Int) (operation : OutboxOperation)
    (nowMs : Int) : (coalesce vectorId version operation nowMs).Preserves Sound :=
  (exec_preserves (.upsertOutbox _ _) trivial).bind fun _ =>
    (exec_preserves (.updateAttempts _ _) trivial).bind fun _ =>
    readOnly_readCapacity.preserves.bind fun _ => (readOnly_require _ _).preserves

/-- What an allocation of an insertion sequence does. -/
theorem setLastSeq_heads {n : Int} {a : Unit} (h : (setLastSeq n).Returns db a db') :
    db' = { db with lastSeq := n } := modify_returns.mp h

/-! ## One row by its id -/

/-- An update by id that reports one change changes the row under the id. -/
theorem select_one {p : VectorHead → Bool} {vectorId : String} {stored : VectorHead}
    (hp : ∀ h, p h = true → h.vectorId = vectorId) (hstored : db.heads.find? vectorId = some stored)
    (hone : (db.heads.select p).length = 1) : db.heads.select p = [stored] := by
  obtain ⟨x, hx⟩ := List.length_eq_one_iff.mp hone
  have hmem : x ∈ db.heads ∧ p x = true :=
    Table.mem_select.mp (by rw [hx]; exact List.mem_singleton_self x)
  obtain ⟨hs, hkey⟩ := Table.find?_eq_some.mp hstored
  rw [hx, Table.eq_of_key hmem.1 hs ((hp x hmem.2).trans hkey.symm)]

/-- A row that replaces the head under its id stays within the limit when the projected total
does. -/
theorem Sound.replaceHead (hs : Sound db) {p : VectorHead → Bool} {f : VectorHead → VectorHead}
    {vectorId : String} {stored : VectorHead} {n : Nat}
    (hp : ∀ h, p h = true → h.vectorId = vectorId) (hstored : db.heads.find? vectorId = some stored)
    (hplain : ∀ h, IsPlain (f h).metadataJson)
    (hroom : db.measuredBytes - stored.measuredBytes + (f stored).measuredBytes ≤
      CDB_VECTOR_MAX_STORED_BYTES)
    (h : db.updateHeads p f = some (n, db')) (hone : n = 1) : Sound db' := by
  obtain ⟨-, -, hn, -⟩ := updateHeads_returns h
  have hselect := select_one hp hstored (by omega)
  refine hs.updateHeads (fun x _ _ => hplain x) ?_ h
  rw [hselect, Table.sumOf_cons, Table.sumOf_nil]
  omega

/-! ## Staging -/

section
variable {ν : Type} [JsNumber ν] (vshardOf : String → Int)

theorem readOnly_assertStageCapacity (stored : Option VectorHead) (bytes : Int) :
    (assertStageCapacity stored bytes).ReadOnly :=
  readOnly_readCapacity.bind fun _ => (readOnly_require _ _).bind fun _ =>
    (readOnly_require _ _).bind fun _ => readOnly_require _ _

/-- The capacity check projects the total from the counters. -/
theorem assertStageCapacity_returns {stored : Option VectorHead} {bytes : Int} {a : Unit}
    (h : (assertStageCapacity stored bytes).Returns db a db') :
    db = db' ∧ (stored = none → db.capacity.headCount < CDB_VECTOR_MAX_HEADS) ∧
      db.capacity.storedBytes - previousBytes stored + bytes ≤ CDB_VECTOR_MAX_STORED_BYTES := by
  simp only [assertStageCapacity, bind_returns, require_returns] at h
  obtain ⟨c, t, hc, _, t₁, ⟨hheads, rfl⟩, _, t₂, ⟨-, rfl⟩, ⟨-, hbytes⟩, rfl⟩ := h
  obtain ⟨rfl, rfl⟩ := readCapacity_returns hc
  exact ⟨rfl, hheads, hbytes⟩

theorem stageReplacement_sound {input : StageUpsert ν} {stored : VectorHead}
    {encodedValues : List UInt8} {metadataJson : String} {a : StagedVersions} (hs : Sound db)
    (hplain : IsPlain metadataJson) (hstored : db.heads.find? input.vectorId = some stored)
    (hroom : db.measuredBytes - stored.measuredBytes +
      ((encodedValues.length : Int) + textBytes metadataJson) ≤ CDB_VECTOR_MAX_STORED_BYTES)
    (h : (stageReplacement vshardOf input stored encodedValues metadataJson).Returns db a db') :
    Sound db' := by
  simp only [stageReplacement, bind_returns, ofExcept_returns, require_returns, pure_returns,
    exec_returns] at h
  obtain ⟨head, t, ⟨-, rfl⟩, _, t₁, ⟨-, rfl⟩, _, t₂, ⟨-, rfl⟩, _, t₃, ⟨-, rfl⟩, _, t₄, ⟨-, rfl⟩,
    n, t₅, hrun, _, t₆, ⟨hone, rfl⟩, -, rfl⟩ := h
  refine hs.replaceHead (fun x hx => (of_decide_eq_true hx).1) hstored (fun _ => hplain) ?_ hrun
    hone
  exact hroom

omit [JsNumber ν] in
theorem stageInsertion_sound {input : StageUpsert ν} {encodedValues : List UInt8}
    {metadataJson : String} {a : StagedVersions} (hs : Sound db) (hplain : IsPlain metadataJson)
    (hheads : (db.heads.count : Int) < CDB_VECTOR_MAX_HEADS)
    (hroom : db.measuredBytes + ((encodedValues.length : Int) + textBytes metadataJson) ≤
      CDB_VECTOR_MAX_STORED_BYTES)
    (h : (stageInsertion vshardOf input encodedValues metadataJson).Returns db a db') :
    Sound db' := by
  simp only [stageInsertion, allocateHeadCreatedSeq, bind_returns, gets_returns, ofExcept_returns,
    require_returns, pure_returns, exec_returns] at h
  obtain ⟨seq, t, ⟨current, t₁, ⟨rfl, rfl⟩, _, t₂, ⟨-, rfl⟩, _, t₃, ⟨-, rfl⟩, _, t₄, hset, rfl,
    rfl⟩, n, t₅, hrun, -, rfl⟩ := h
  have hs' := setLastSeq_preserves _ hs hset
  obtain rfl := setLastSeq_heads hset
  refine hs'.insertHead hplain hheads ?_ hrun
  exact hroom

theorem stageHead_preserves (input : StageUpsert ν) (encodedValues : List UInt8)
    {metadataJson : String} (hplain : IsPlain metadataJson) :
    (stageHead vshardOf input encodedValues metadataJson).Preserves Sound := by
  intro db a db' hs h
  simp only [stageHead, readStoredHead, bind_returns, gets_returns, require_returns] at h
  obtain ⟨stored, t, ⟨hfind, rfl⟩, _, t₁, hcap, byRow, t₂, ⟨-, rfl⟩, _, t₃, ⟨-, rfl⟩, h⟩ := h
  obtain ⟨rfl, hheads, hbytes⟩ := assertStageCapacity_returns hcap
  rw [hs.storedBytes_eq] at hbytes
  cases stored with
  | some stored => exact stageReplacement_sound vshardOf hs hplain hfind.symm hbytes h
  | none =>
    have hcount := hheads rfl
    rw [hs.headCount] at hcount
    have hprevious : previousBytes none = 0 := rfl
    rw [hprevious, Int.sub_zero] at hbytes
    exact stageInsertion_sound vshardOf hs hplain hcount hbytes h

theorem readOnly_read (vectorId : String) :
    (read (ν := ν) vshardOf vectorId).ReadOnly := by
  unfold read
  refine (readOnly_ofExcept _).bind fun _ => (readOnly_gets _).bind fun row => ?_
  cases row with
  | none => exact readOnly_pure _
  | some row =>
    show (Tx.ofExcept (projectHead vshardOf row) >>= fun a => pure (some a)).ReadOnly
    exact (readOnly_ofExcept _).bind fun _ => readOnly_pure _

theorem encodeMetadata_ok {metadata : Json ν} {text : String}
    (h : encodeMetadata metadata = .ok text) : text = stableJson metadata := by
  unfold encodeMetadata at h
  obtain ⟨_, -, h⟩ := bind_ok h
  obtain ⟨_, -, h⟩ := bind_ok h
  obtain ⟨_, -, h⟩ := bind_ok h
  exact (Except.ok.inj h).symm

/-- An upsert of plain metadata keeps the store sound. -/
theorem stageUpsert_preserves (input : StageUpsert ν)
    (hplain : IsPlain (stableJson input.metadata)) :
    (stageUpsert vshardOf input).Preserves Sound := by
  intro db a db' hs h
  simp only [stageUpsert, bind_returns, ofExcept_returns] at h
  obtain ⟨_, t₁, ⟨-, rfl⟩, _, t₂, ⟨-, rfl⟩, _, t₃, ⟨-, rfl⟩, _, t₄, ⟨-, rfl⟩, values, t₅, ⟨-, rfl⟩,
    text, t₆, ⟨htext, rfl⟩, _, t₇, ⟨-, rfl⟩, _, t₈, ⟨-, rfl⟩, staged, t₉, hhead, _, t₁₀, hcoalesce,
    result, t₁₁, hread, h⟩ := h
  obtain rfl := encodeMetadata_ok htext
  have hs₁ := stageHead_preserves vshardOf input values hplain hs hhead
  have hs₂ := coalesce_preserves _ _ _ _ hs₁ hcoalesce
  obtain rfl := (readOnly_read vshardOf _).returns hread
  cases result with
  | none => simp at h
  | some result =>
    simp only [bind_returns, require_returns, pure_returns] at h
    obtain ⟨_, t, ⟨-, rfl⟩, -, rfl⟩ := h
    exact hs₂

/-! ## The accounting error -/

/-- Any other error than the accounting one. -/
def Other (e : Thrown) : Prop := e ≠ inconsistentCapacity

instance : DecidablePred Other := fun _ => inferInstanceAs (Decidable (_ ≠ _))

theorem other_invalid (message : String) : Other (invalid message) := by
  intro h
  cases congrArg Thrown.code? h

theorem other_limited (message : String) : Other (limited message) := by
  intro h
  cases congrArg Thrown.code? h

theorem other_stale (message : String) : Other (stale message) := by
  intro h
  cases congrArg Thrown.code? h

theorem other_constraint (table : String) : Other (.constraint table) := by
  intro h
  cases congrArg Thrown.code? h

/-- A check fails with other errors only. -/
def ErrsOther {α : Type} (x : Except Thrown α) : Prop := ∀ e, x = .error e → Other e

theorem ErrsOther.throwsOnly {α : Type} {x : Except Thrown α} (hx : ErrsOther x) :
    (Tx.ofExcept x : VectorTx α).ThrowsOnly Other := throwsOnly_ofExcept hx

theorem errsOther_ok {α : Type} (a : α) : ErrsOther (.ok a) := by
  intro e h; cases h

theorem errsOther_error {α : Type} {e : Thrown} (he : Other e) :
    ErrsOther (.error e : Except Thrown α) := by
  rintro e' h; cases h; exact he

theorem errsOther_check {p : Prop} [Decidable p] {e : Thrown} (he : Other e) :
    ErrsOther (check p e) := by
  unfold check
  split
  · exact errsOther_ok _
  · exact errsOther_error he

theorem ErrsOther.bind {α β : Type} {x : Except Thrown α} {f : α → Except Thrown β}
    (hx : ErrsOther x) (hf : ∀ a, ErrsOther (f a)) : ErrsOther (x >>= f) := by
  intro e h
  cases x with
  | error e' => cases h; exact hx _ rfl
  | ok a => exact hf a e h

theorem errsOther_safeInteger {value minimum : Int} {subject : String}
    (h : Other (invariant s!"{subject} is invalid")) :
    ErrsOther (safeInteger value subject minimum) := errsOther_check h

theorem errsOther_identity (value subject : String) : ErrsOther (identity value subject) :=
  errsOther_check (other_invalid _)

theorem errsOther_decodeValues (encoded : List UInt8) : ErrsOther (decodeValues encoded) :=
  (errsOther_check (by decide)).bind fun _ => (errsOther_check (by decide)).bind fun _ =>
    errsOther_ok _

theorem errsOther_storedValues (valuesEnc : Option (List UInt8)) :
    ErrsOther (storedValues valuesEnc) := by
  cases valuesEnc with
  | none => exact errsOther_ok _
  | some encoded =>
    have h := (errsOther_decodeValues encoded).bind fun vs => errsOther_ok (some vs)
    show ErrsOther (some <$> decodeValues encoded)
    rw [map_eq_pure_bind]
    exact h

theorem errsOther_encodeComponents (values : List Component) :
    ErrsOther (encodeComponents values) := by
  induction values with
  | nil => exact errsOther_ok _
  | cons value values ih =>
    cases value with
    | nonFinite => exact errsOther_error (other_invalid _)
    | float32 bits =>
      exact (errsOther_check (other_invalid _)).bind fun _ => ih.bind fun _ => errsOther_ok _

theorem errsOther_encodeValues (values : List Component) (dimensions : Int) :
    ErrsOther (encodeValues values dimensions) :=
  (errsOther_check (other_invalid _)).bind fun _ => (errsOther_check (other_invalid _)).bind
    fun _ => (errsOther_check (other_invalid _)).bind fun _ => (errsOther_encodeComponents
    values).bind fun _ => (errsOther_check (other_invalid _)).bind fun _ => errsOther_ok _

mutual

theorem errsOther_validateJson (value : Json ν) (depth nodes : Nat) :
    ErrsOther (validateJson value depth nodes) := by
  unfold validateJson
  refine (errsOther_check (other_invalid _)).bind fun _ => ?_
  cases value with
  | null => exact errsOther_ok _
  | bool b => exact errsOther_ok _
  | str s => exact errsOther_ok _
  | num n => exact (errsOther_check (other_invalid _)).bind fun _ => errsOther_ok _
  | arr elems => exact errsOther_validateElems elems _ _
  | obj members => exact errsOther_validateMembers members _ _

theorem errsOther_validateElems (elems : List (Json ν)) (depth nodes : Nat) :
    ErrsOther (validateElems elems depth nodes) := by
  cases elems with
  | nil => unfold validateElems; exact errsOther_ok _
  | cons value rest =>
    unfold validateElems
    exact (errsOther_validateJson value _ _).bind fun _ => errsOther_validateElems rest _ _

theorem errsOther_validateMembers (members : List (String × Json ν)) (depth nodes : Nat) :
    ErrsOther (validateMembers members depth nodes) := by
  cases members with
  | nil => unfold validateMembers; exact errsOther_ok _
  | cons member rest =>
    obtain ⟨key, value⟩ := member
    unfold validateMembers
    exact (errsOther_check (other_invalid _)).bind fun _ => (errsOther_validateJson value _ _).bind
      fun _ => errsOther_validateMembers rest _ _

end

theorem errsOther_encodeMetadata (metadata : Json ν) : ErrsOther (encodeMetadata metadata) :=
  (errsOther_check (other_invalid _)).bind fun _ => (errsOther_validateJson _ _ _).bind fun _ =>
    (errsOther_check (other_invalid _)).bind fun _ => errsOther_ok _

theorem errsOther_decodeMetadata (encoded : String) :
    ErrsOther (decodeMetadata encoded : Except Thrown (Json ν)) := by
  unfold decodeMetadata
  refine (errsOther_check (by decide)).bind fun _ => ?_
  cases (Json.parse encoded : Option (Json ν)) with
  | none => exact errsOther_error (by decide)
  | some value =>
    exact (errsOther_check (by decide)).bind fun _ => (errsOther_check (by decide)).bind fun _ =>
      errsOther_ok _

theorem errsOther_projectHead (row : VectorHead) :
    ErrsOther (projectHead vshardOf row : Except Thrown (CdbVectorHead ν)) := by
  unfold projectHead
  refine (errsOther_identity _ _).bind fun _ => (errsOther_check (other_invalid _)).bind fun _ =>
    (errsOther_identity _ _).bind fun _ => (errsOther_safeInteger (by decide)).bind fun _ =>
    (errsOther_safeInteger (by decide)).bind fun _ => (errsOther_safeInteger (by decide)).bind
    fun _ => ?_
  refine (errsOther_check (by decide)).bind fun _ => (errsOther_check (by decide)).bind fun _ =>
    (errsOther_check (by decide)).bind fun _ => (errsOther_storedValues _).bind fun _ => ?_
  refine (errsOther_check (by decide)).bind fun _ => (errsOther_check (by decide)).bind fun _ => ?_
  refine ErrsOther.bind ?_ fun _ => (errsOther_check (other_invalid _)).bind fun _ =>
    (errsOther_decodeMetadata _).bind fun _ => (errsOther_safeInteger (by decide)).bind fun _ =>
    errsOther_ok _
  exact (errsOther_safeInteger (by decide)).bind fun _ => errsOther_check (by decide)

theorem throwsOther_readCapacity : readCapacity.ThrowsOnly Other :=
  (throwsOnly_gets _).bind fun _ => (errsOther_safeInteger (by decide)).throwsOnly.bind fun _ =>
    (errsOther_safeInteger (by decide)).throwsOnly.bind fun _ =>
    (errsOther_safeInteger (by decide)).throwsOnly.bind fun _ =>
    (errsOther_safeInteger (by decide)).throwsOnly.bind fun _ => throwsOnly_pure _

theorem throwsOther_exec (st : Statement) : (exec st).ThrowsOnly Other := by
  intro s e s' h
  obtain ⟨-, rfl, -⟩ := exec_throws.mp h
  exact other_constraint _

theorem throwsOther_coalesce (vectorId : String) (version : Int) (operation : OutboxOperation)
    (nowMs : Int) : (coalesce vectorId version operation nowMs).ThrowsOnly Other :=
  (throwsOther_exec _).bind fun _ => (throwsOther_exec _).bind fun _ =>
    throwsOther_readCapacity.bind fun _ => throwsOnly_require (other_limited _)

theorem throwsOther_read (vectorId : String) :
    (read (ν := ν) vshardOf vectorId).ThrowsOnly Other := by
  unfold read
  refine (errsOther_identity _ _).throwsOnly.bind fun _ => (throwsOnly_gets _).bind fun row => ?_
  cases row with
  | none => exact throwsOnly_pure _
  | some row =>
    show (Tx.ofExcept (projectHead vshardOf row) >>= fun a => pure (some a)).ThrowsOnly Other
    exact (errsOther_projectHead vshardOf row).throwsOnly.bind fun _ => throwsOnly_pure _

theorem throwsOther_stageReplacement (input : StageUpsert ν) (stored : VectorHead)
    (encodedValues : List UInt8) (metadataJson : String) :
    (stageReplacement vshardOf input stored encodedValues metadataJson).ThrowsOnly Other :=
  (errsOther_projectHead vshardOf stored).throwsOnly.bind fun _ =>
    (throwsOnly_require (other_invalid _)).bind fun _ =>
    (throwsOnly_require (other_invalid _)).bind fun _ =>
    (throwsOnly_require (by decide)).bind fun _ =>
    (errsOther_check (by decide)).throwsOnly.bind fun _ => (throwsOther_exec _).bind fun _ =>
    (throwsOnly_require (other_stale _)).bind fun _ => throwsOnly_pure _

omit [JsNumber ν] in
theorem throwsOther_stageInsertion (input : StageUpsert ν) (encodedValues : List UInt8)
    (metadataJson : String) :
    (stageInsertion vshardOf input encodedValues metadataJson).ThrowsOnly Other := by
  refine ThrowsOnly.bind ?_ fun _ => (throwsOther_exec _).bind fun _ => throwsOnly_pure _
  exact (throwsOnly_gets _).bind fun _ => (errsOther_safeInteger (by decide)).throwsOnly.bind
    fun _ => (throwsOnly_require (by decide)).bind fun _ => (throwsOnly_modify _).bind fun _ =>
    throwsOnly_pure _

/-- A head that is stored is counted, so it is never larger than all that is counted. -/
theorem Sound.previousBytes_le (hs : Sound db) {vectorId : String} :
    previousBytes (db.heads.find? vectorId) ≤ db.capacity.storedBytes := by
  rw [hs.storedBytes_eq]
  have hpos : ∀ h ∈ db.heads.rows, 0 ≤ h.measuredBytes := fun h _ => h.measuredBytes_nonneg
  cases hfind : db.heads.find? vectorId with
  | none => exact Table.sumOf_nonneg hpos
  | some stored => exact Table.le_sumOf hpos (Table.find?_eq_some.mp hfind).1

/-- From a sound store, `x` does not find the accounting inconsistent. -/
def NeverInconsistent {α : Type} (x : VectorTx α) : Prop :=
  ∀ ⦃db db'⦄, Sound db → ¬ x.Throws db inconsistentCapacity db'

theorem NeverInconsistent.bind {α β : Type} {x : VectorTx α} {f : α → VectorTx β}
    (hx : NeverInconsistent x) (hf : ∀ a, (f a).ThrowsOnly Other) :
    NeverInconsistent (x >>= f) := by
  intro db db' hs h
  rcases bind_throws.mp h with h | ⟨a, t, -, h⟩
  · exact hx hs h
  · exact hf a h rfl

theorem NeverInconsistent.after_check {α β : Type} {x : Except Thrown α} {f : α → VectorTx β}
    (hx : ErrsOther x) (hf : ∀ a, NeverInconsistent (f a)) :
    NeverInconsistent (Tx.ofExcept x >>= f) := by
  intro db db' hs h
  rcases bind_throws.mp h with h | ⟨a, t, hr, h⟩
  · exact hx.throwsOnly h rfl
  · obtain ⟨-, rfl⟩ := ofExcept_returns.mp hr
    exact hf a hs h

theorem assertStageCapacity_consistent {vectorId : String} {bytes : Int} (hs : Sound db) :
    ¬ (assertStageCapacity (db.heads.find? vectorId) bytes).Throws db inconsistentCapacity db' := by
  intro h
  unfold assertStageCapacity at h
  rcases bind_throws.mp h with h | ⟨c, t, hc, h⟩
  · exact throwsOther_readCapacity h rfl
  · obtain ⟨rfl, rfl⟩ := readCapacity_returns hc
    rcases bind_throws.mp h with h | ⟨_, t, hr, h⟩
    · exact throwsOnly_require (other_limited _) h rfl
    · obtain ⟨-, rfl⟩ := require_returns.mp hr
      rcases bind_throws.mp h with h | ⟨_, t, -, h⟩
      · exact (require_throws.mp h).1 hs.previousBytes_le
      · exact throwsOnly_require (other_limited _) h rfl

theorem stageHead_consistent (input : StageUpsert ν) (encodedValues : List UInt8)
    (metadataJson : String) :
    NeverInconsistent (stageHead vshardOf input encodedValues metadataJson) := by
  intro db db' hs h
  unfold stageHead readStoredHead at h
  rcases bind_throws.mp h with h | ⟨stored, t, hr, h⟩
  · exact absurd h (by simp)
  · obtain ⟨rfl, rfl⟩ := gets_returns.mp hr
    rcases bind_throws.mp h with h | ⟨_, t, -, h⟩
    · exact assertStageCapacity_consistent hs h
    · refine absurd rfl (ThrowsOnly.bind (P := Other) (throwsOnly_gets _) (fun _ =>
        (throwsOnly_require (other_invalid _)).bind fun _ => ?_) h)
      cases db.heads.find? input.vectorId with
      | none => exact throwsOther_stageInsertion vshardOf input _ _
      | some stored => exact throwsOther_stageReplacement vshardOf input stored _ _

/-- In a sound store no upsert, of plain metadata or not, finds the accounting inconsistent. -/
theorem stageUpsert_consistent (input : StageUpsert ν) :
    NeverInconsistent (stageUpsert vshardOf input) := by
  unfold stageUpsert
  refine .after_check (errsOther_identity _ _) fun _ =>
    .after_check (errsOther_check (other_invalid _)) fun _ =>
    .after_check (errsOther_identity _ _) fun _ =>
    .after_check (errsOther_check (other_invalid _)) fun _ =>
    .after_check (errsOther_encodeValues _ _) fun _ =>
    .after_check (errsOther_encodeMetadata _) fun _ =>
    .after_check (errsOther_check (other_invalid _)) fun _ =>
    .after_check (errsOther_check (by decide)) fun _ => ?_
  refine (stageHead_consistent vshardOf input _ _).bind fun staged =>
    (throwsOther_coalesce _ _ _ _).bind fun _ => (throwsOther_read vshardOf _).bind fun result => ?_
  cases result with
  | none => exact throwsOnly_throw (by decide)
  | some result => exact (throwsOnly_require (by decide)).bind fun _ => throwsOnly_pure _

end

end Chardb.Vectors
