import Chardb.Core.Errors
import Chardb.Core.Vshard
import Chardb.Lib.JsString
import Chardb.Lib.Total

/-!
# The vector tables of a Cdb

The heads, the outbox and the attempts ledger of the vector store, with the capacity counters that
its triggers keep. A `Statement` is one SQL statement over these tables together with the triggers
and the cascades it fires; `exec` runs it, and a statement that breaks a constraint changes
nothing. The counters have been reconciled, as `initializeCdbVectorOutboxStore` leaves them.
-/

namespace Chardb.Vectors

open Chardb.Lib

def CDB_VECTOR_MAX_DIMENSIONS : Int := 1536
def CDB_VECTOR_MAX_VALUES_BYTES : Nat := 1536 * 4
def CDB_VECTOR_MAX_METADATA_BYTES : Nat := 16 * 1024
def CDB_VECTOR_MAX_HEADS : Int := 65536
def CDB_VECTOR_MAX_OUTBOX_ROWS : Int := 65536
def CDB_VECTOR_MAX_STORED_BYTES : Int := 64 * 1024 * 1024

/-! ## Lengths of texts -/

/-- `TEXT.encode(text).byteLength`. -/
def textBytes (text : String) : Nat := utf8Length text.toList

/-- SQL `length(text)`: the characters before the first NUL. -/
def sqlLength (text : String) : Nat := (text.toList.takeWhile fun c => c.toNat != 0).length

/-- Every character is ASCII and none is NUL. -/
def IsPlain (text : String) : Prop := ∀ c ∈ text.toList, 0 < c.toNat ∧ c.toNat < 128

instance : DecidablePred IsPlain := fun text => List.decidableBAll _ text.toList

theorem takeWhile_length_le_utf8Length (cs : List Char) :
    (cs.takeWhile fun c => c.toNat != 0).length ≤ utf8Length cs := by
  induction cs with
  | nil => simp
  | cons c cs ih =>
    have hc := c.utf8Size_pos
    rw [utf8Length, List.takeWhile_cons]
    split
    · rw [List.length_cons]; omega
    · rw [List.length_nil]; omega

/-- SQL never counts more characters than UTF-8 has bytes. -/
theorem sqlLength_le (text : String) : sqlLength text ≤ textBytes text :=
  takeWhile_length_le_utf8Length text.toList

theorem utf8Size_eq_one {c : Char} : c.utf8Size = 1 ↔ c.toNat < 128 := by
  rw [Char.utf8Size_eq_one_iff, UInt32.le_iff_toNat_le]
  show c.toNat ≤ 127 ↔ _
  omega

theorem takeWhile_length_eq_iff (cs : List Char) :
    (cs.takeWhile fun c => c.toNat != 0).length = utf8Length cs ↔
      ∀ c ∈ cs, 0 < c.toNat ∧ c.toNat < 128 := by
  induction cs with
  | nil => simp [utf8Length]
  | cons c cs ih =>
    have hpos := c.utf8Size_pos
    have hle := takeWhile_length_le_utf8Length cs
    rw [utf8Length, List.forall_mem_cons, ← ih, ← utf8Size_eq_one]
    by_cases h : c.toNat = 0
    · rw [List.takeWhile_cons_of_neg (by simp [h]), List.length_nil]
      omega
    · rw [List.takeWhile_cons_of_pos (by simp [h]), List.length_cons]
      omega

/-- SQL's length is the byte length of the plain texts only. -/
theorem sqlLength_eq_iff {text : String} : sqlLength text = textBytes text ↔ IsPlain text :=
  takeWhile_length_eq_iff text.toList

/-! ## Tables -/

inductive VectorState
  | pending
  | ready
  | deleting
  deriving DecidableEq

/-- A row of `_chardb_vectors`. -/
structure VectorHead where
  vectorId : String
  createdSeq : Int
  organizationId : String
  placementVshard : Int
  resourceId : String
  rowPk : String
  dimensions : Int
  version : Int
  deliveredVersion : Int
  valuesEnc : Option (List UInt8)
  metadataJson : String
  state : VectorState
  updatedAt : Int
  deriving DecidableEq

/-- The `CHECK` constraints of `_chardb_vectors`. -/
def VectorHead.Check (h : VectorHead) : Prop :=
  0 < h.createdSeq ∧ (0 ≤ h.placementVshard ∧ h.placementVshard < VSHARD_COUNT) ∧
    (0 < h.dimensions ∧ h.dimensions ≤ CDB_VECTOR_MAX_DIMENSIONS) ∧ 0 < h.version ∧
    (0 ≤ h.deliveredVersion ∧ h.deliveredVersion ≤ h.version) ∧ 0 ≤ h.updatedAt ∧
    ((h.state = .ready ∧ h.deliveredVersion = h.version) ∨
      (h.state ≠ .ready ∧ h.deliveredVersion < h.version)) ∧
    ((h.state = .deleting ∧ h.valuesEnc = none) ∨ (h.state ≠ .deleting ∧ h.valuesEnc ≠ none))

instance : DecidablePred VectorHead.Check :=
  fun _ => inferInstanceAs (Decidable (_ ∧ _ ∧ _ ∧ _ ∧ _ ∧ _ ∧ _ ∧ _))

/-- The columns of `UNIQUE (resource_id, organization_id, row_pk)` agree. -/
def VectorHead.SameOwner (h h' : VectorHead) : Prop :=
  h.resourceId = h'.resourceId ∧ h.organizationId = h'.organizationId ∧ h.rowPk = h'.rowPk

instance (h h' : VectorHead) : Decidable (h.SameOwner h') :=
  inferInstanceAs (Decidable (_ ∧ _ ∧ _))

/-- Two rows that no unique index of `_chardb_vectors` keeps apart. -/
def VectorHead.Apart (h h' : VectorHead) : Prop :=
  ¬ h.SameOwner h' ∧ h.createdSeq ≠ h'.createdSeq

instance (h h' : VectorHead) : Decidable (h.Apart h') := inferInstanceAs (Decidable (_ ∧ _))

/-- The bytes of the embedding, none once the head is deleting. -/
def VectorHead.valuesBytes (h : VectorHead) : Nat := (h.valuesEnc.getD []).length

/-- The share of a head in `stored_bytes`, as the triggers and the backfill measure it:
`COALESCE(length(values_enc), 0) + length(metadata_json)`. -/
def VectorHead.countedBytes (h : VectorHead) : Int := h.valuesBytes + sqlLength h.metadataJson

/-- The bytes of a head, as `assertStageCapacity` measures it. -/
def VectorHead.measuredBytes (h : VectorHead) : Int := h.valuesBytes + textBytes h.metadataJson

inductive OutboxOperation
  | upsert
  | delete
  deriving DecidableEq

inductive OutboxPhase
  | submit
  | verify
  deriving DecidableEq

/-- A row of `_chardb_vector_outbox`. -/
structure VectorOutboxRow where
  vectorId : String
  targetVersion : Int
  operation : OutboxOperation
  phase : OutboxPhase
  mutationId : Option String
  acceptedAt : Option Int
  verifyIdsJson : Option String
  attempts : Int
  nextAttemptAt : Int
  leasedUntil : Option Int
  leaseToken : Option String
  terminalFailure : Bool
  lastError : Option String
  deriving DecidableEq

/-- The `CHECK` constraints of `_chardb_vector_outbox`. -/
def VectorOutboxRow.Check (o : VectorOutboxRow) : Prop :=
  0 < o.targetVersion ∧ (∀ t ∈ o.acceptedAt, 0 ≤ t) ∧ 0 ≤ o.attempts ∧ 0 ≤ o.nextAttemptAt ∧
    (∀ t ∈ o.leasedUntil, 0 ≤ t) ∧ (o.leasedUntil = none ↔ o.leaseToken = none) ∧
    ((o.phase = .submit ∧ o.mutationId = none ∧ o.acceptedAt = none) ∨
      (o.phase = .verify ∧ o.mutationId ≠ none ∧ o.acceptedAt ≠ none)) ∧
    (o.operation = .delete ∨ o.verifyIdsJson = none)

instance : DecidablePred VectorOutboxRow.Check :=
  fun _ => inferInstanceAs (Decidable (_ ∧ _ ∧ _ ∧ _ ∧ _ ∧ _ ∧ _ ∧ _))

/-- A row of `_chardb_vector_attempts`. -/
structure VectorAttempt where
  vectorId : String
  physicalVersion : Int
  firstSentAt : Int
  settleAfter : Int
  visibilityConfirmed : Bool
  responseAmbiguous : Bool
  deleteConfirmed : Bool
  deleteClaimToken : Option String
  deriving DecidableEq

def VectorAttempt.key (a : VectorAttempt) : String × Int := (a.vectorId, a.physicalVersion)

/-- The `CHECK` constraints of `_chardb_vector_attempts`. -/
def VectorAttempt.Check (a : VectorAttempt) : Prop :=
  0 < a.physicalVersion ∧ 0 ≤ a.firstSentAt ∧ a.firstSentAt ≤ a.settleAfter

instance : DecidablePred VectorAttempt.Check := fun _ => inferInstanceAs (Decidable (_ ∧ _ ∧ _))

abbrev HeadTable := Table VectorHead.vectorId VectorHead.Check
abbrev OutboxTable := Table VectorOutboxRow.vectorId VectorOutboxRow.Check
abbrev AttemptTable := Table VectorAttempt.key VectorAttempt.Check

/-- The row of `_chardb_vector_capacity`. -/
structure VectorCapacity where
  headCount : Int
  storedBytes : Int
  outboxRows : Int
  attemptRows : Int
  deriving DecidableEq

/-- The `CHECK` constraints of `_chardb_vector_capacity`. -/
def VectorCapacity.Check (c : VectorCapacity) : Prop :=
  0 ≤ c.headCount ∧ 0 ≤ c.storedBytes ∧ 0 ≤ c.outboxRows ∧ 0 ≤ c.attemptRows

instance : DecidablePred VectorCapacity.Check :=
  fun _ => inferInstanceAs (Decidable (_ ∧ _ ∧ _ ∧ _))

/-- The vector tables, the counters, the last insertion sequence that was handed out, and the
organizations with a row in `_chardb_deleted_organizations`. -/
structure VectorDb where
  heads : HeadTable
  outbox : OutboxTable
  attempts : AttemptTable
  capacity : VectorCapacity
  lastSeq : Int
  deletedOrganizations : List String

/-- A new store. -/
def VectorDb.empty : VectorDb := ⟨.empty, .empty, .empty, ⟨0, 0, 0, 0⟩, 0, []⟩

abbrev VectorTx := Tx Thrown VectorDb

/-! ## Statements -/

/-- One SQL statement over the vector tables. -/
inductive Statement
  | insertHead (row : VectorHead)
  | updateHeads (p : VectorHead → Bool) (f : VectorHead → VectorHead)
  | deleteHeads (p : VectorHead → Bool)
  /-- `INSERT … ON CONFLICT(vector_id) DO UPDATE`. -/
  | upsertOutbox (row : VectorOutboxRow) (f : VectorOutboxRow → VectorOutboxRow)
  | updateOutbox (p : VectorOutboxRow → Bool) (f : VectorOutboxRow → VectorOutboxRow)
  | deleteOutbox (p : VectorOutboxRow → Bool)
  | insertAttempt (row : VectorAttempt)
  | updateAttempts (p : VectorAttempt → Bool) (f : VectorAttempt → VectorAttempt)
  | deleteAttempts (p : VectorAttempt → Bool)

/-- What the `AFTER` triggers of a statement add to the counters. -/
structure Charge where
  heads : Int := 0
  bytes : Int := 0
  outbox : Int := 0
  attempts : Int := 0

/-- Update the counters; their `CHECK` constraints refuse a negative one. -/
def VectorDb.charge (db : VectorDb) (c : Charge) : Option VectorDb :=
  let capacity : VectorCapacity :=
    { headCount := db.capacity.headCount + c.heads
      storedBytes := db.capacity.storedBytes + c.bytes
      outboxRows := db.capacity.outboxRows + c.outbox
      attemptRows := db.capacity.attemptRows + c.attempts }
  if capacity.Check then some { db with capacity } else none

/-- The guards before an insert: the organization is not deleted, and no unique index objects. -/
def VectorDb.AcceptsInsert (db : VectorDb) (row : VectorHead) : Prop :=
  row.organizationId ∉ db.deletedOrganizations ∧ ∀ h ∈ db.heads.rows, h.Apart row

instance (db : VectorDb) : DecidablePred db.AcceptsInsert :=
  fun _ => inferInstanceAs (Decidable (_ ∧ _))

/-- The guards of an update: a row of a deleted organization may only become `deleting`, an
insertion sequence never changes, and the rows stay apart under the unique indexes. -/
def VectorDb.AcceptsUpdate (db : VectorDb) (p : VectorHead → Bool) (f : VectorHead → VectorHead) :
    Prop :=
  (∀ h ∈ db.heads.select p, ((f h).state = .deleting ∨
      (f h).organizationId ∉ db.deletedOrganizations) ∧ (f h).createdSeq = h.createdSeq) ∧
    (db.heads.rows.map fun h => if p h then f h else h).Pairwise VectorHead.Apart

instance (db : VectorDb) (p : VectorHead → Bool) (f : VectorHead → VectorHead) :
    Decidable (db.AcceptsUpdate p f) := inferInstanceAs (Decidable (_ ∧ _))

def VectorDb.insertHead (db : VectorDb) (row : VectorHead) : Option (Nat × VectorDb) :=
  if db.AcceptsInsert row then do
    let heads ← db.heads.insert? row
    let db ← { db with heads }.charge { heads := 1, bytes := row.countedBytes }
    some (1, db)
  else none

def VectorDb.updateHeads (db : VectorDb) (p : VectorHead → Bool) (f : VectorHead → VectorHead) :
    Option (Nat × VectorDb) :=
  if db.AcceptsUpdate p f then do
    let heads ← db.heads.update? p f
    let bytes := Table.sumOf (fun h => (f h).countedBytes - h.countedBytes) (db.heads.select p)
    let db' ← { db with heads }.charge { bytes }
    some ((db.heads.select p).length, db')
  else none

/-- A deleted head takes its outbox row and its attempts with it. -/
def VectorDb.deleteHeads (db : VectorDb) (p : VectorHead → Bool) : Option (Nat × VectorDb) := do
  let gone := db.heads.select p
  let ofGone : String → Bool := fun id => gone.any fun h => decide (h.vectorId = id)
  let outbox := fun o : VectorOutboxRow => ofGone o.vectorId
  let attempts := fun a : VectorAttempt => ofGone a.vectorId
  let db' : VectorDb :=
    { db with
      heads := db.heads.deleteWhere p
      outbox := db.outbox.deleteWhere outbox
      attempts := db.attempts.deleteWhere attempts }
  let db' ← db'.charge
    { heads := -gone.length
      bytes := -Table.sumOf VectorHead.countedBytes gone
      outbox := -(db.outbox.select outbox).length
      attempts := -(db.attempts.select attempts).length }
  some (gone.length, db')

/-- The foreign key of a child row. -/
def VectorDb.HasHead (db : VectorDb) (vectorId : String) : Prop :=
  (db.heads.find? vectorId).isSome = true

instance (db : VectorDb) : DecidablePred db.HasHead := fun _ => inferInstanceAs (Decidable (_ = _))

def VectorDb.upsertOutbox (db : VectorDb) (row : VectorOutboxRow)
    (f : VectorOutboxRow → VectorOutboxRow) : Option (Nat × VectorDb) :=
  if (db.outbox.find? row.vectorId).isSome then do
    let outbox ← db.outbox.update? (fun o => decide (o.vectorId = row.vectorId)) f
    some (1, { db with outbox })
  else if db.HasHead row.vectorId then do
    let outbox ← db.outbox.insert? row
    let db ← { db with outbox }.charge { outbox := 1 }
    some (1, db)
  else none

def VectorDb.insertAttempt (db : VectorDb) (row : VectorAttempt) : Option (Nat × VectorDb) :=
  if db.HasHead row.vectorId then do
    let attempts ← db.attempts.insert? row
    let db ← { db with attempts }.charge { attempts := 1 }
    some (1, db)
  else none

/-- The number of rows a statement changed and the tables after it, or `none` when a constraint
fails. -/
def Statement.run (db : VectorDb) : Statement → Option (Nat × VectorDb)
  | .insertHead row => db.insertHead row
  | .updateHeads p f => db.updateHeads p f
  | .deleteHeads p => db.deleteHeads p
  | .upsertOutbox row f => db.upsertOutbox row f
  | .updateOutbox p f => do
    let outbox ← db.outbox.update? p f
    some ((db.outbox.select p).length, { db with outbox })
  | .deleteOutbox p => do
    let db' ← { db with outbox := db.outbox.deleteWhere p }.charge
      { outbox := -(db.outbox.select p).length }
    some ((db.outbox.select p).length, db')
  | .insertAttempt row => db.insertAttempt row
  | .updateAttempts p f => do
    let attempts ← db.attempts.update? p f
    some ((db.attempts.select p).length, { db with attempts })
  | .deleteAttempts p => do
    let db' ← { db with attempts := db.attempts.deleteWhere p }.charge
      { attempts := -(db.attempts.select p).length }
    some ((db.attempts.select p).length, db')

def Statement.table : Statement → String
  | .insertHead _ | .updateHeads _ _ | .deleteHeads _ => "_chardb_vectors"
  | .upsertOutbox _ _ | .updateOutbox _ _ | .deleteOutbox _ => "_chardb_vector_outbox"
  | .insertAttempt _ | .updateAttempts _ _ | .deleteAttempts _ => "_chardb_vector_attempts"

/-- Run a statement; `sql.changes()` is its answer. -/
def exec (st : Statement) : VectorTx Nat := fun db =>
  match st.run db with
  | some (changes, db') => (.ok changes, db')
  | none => (.error (.constraint st.table), db)

@[simp] theorem exec_returns {st : Statement} {db db' : VectorDb} {n : Nat} :
    (exec st).Returns db n db' ↔ st.run db = some (n, db') := by
  unfold Tx.Returns exec
  rcases st.run db with _ | ⟨m, d⟩ <;> simp

@[simp] theorem exec_throws {st : Statement} {db db' : VectorDb} {e : Thrown} :
    (exec st).Throws db e db' ↔ st.run db = none ∧ e = .constraint st.table ∧ db' = db := by
  unfold Tx.Throws exec
  rcases st.run db with _ | ⟨m, d⟩ <;> simp [eq_comm]

end Chardb.Vectors
