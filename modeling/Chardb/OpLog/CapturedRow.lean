import Chardb.OpLog.Wrapper

/-!
# Captured op-log rows

`encodeCapturedRow` writes an op-log row as the JSON bytes that travel from the source
of a split to its destination; `decodeCapturedRow` reads them. What is written is read
back field by field (`decodeCapturedRow_encode`).
-/

namespace Chardb.OpLog

open Chardb.Lib

variable {ν : Type} [JsNumber ν]

/-- The fields of an op-log row that move. -/
structure CapturedOpLog where
  vshard : Int
  principalId : String
  mutId : String
  payloadHash : ByteArray
  payloadEnc : ByteArray
  committedAt : Int
  schemaEpoch : Int
  touchedKeys : String
  byteSize : Int
  deriving DecidableEq

/-- The row a captured outcome is rebuilt as. -/
def CapturedOpLog.toRow (c : CapturedOpLog) (eventId : Nat) : OpLogRow where
  eventId
  principalId := c.principalId
  mutId := c.mutId
  payloadHash := c.payloadHash
  payloadEnc := c.payloadEnc
  committedAt := c.committedAt
  schemaEpoch := c.schemaEpoch
  touchedKeys := c.touchedKeys
  byteSize := c.byteSize
  placementVshard := some c.vshard

/-- The row says the same as the captured outcome, whatever its event id. -/
def SameOpLogRow (row : OpLogRow) (c : CapturedOpLog) : Prop := row = c.toRow row.eventId

instance (row : OpLogRow) (c : CapturedOpLog) : Decidable (SameOpLogRow row c) :=
  inferInstanceAs (Decidable (_ = _))

/-! ## Writing -/

def bytesToBase64 (bytes : ByteArray) : String := String.ofList (btoa bytes.data.toList)

variable (ν) in
def capturedEntries (c : CapturedOpLog) : List (String × Json ν) :=
  [("v", .int 1), ("vshard", .int c.vshard), ("principalId", .str c.principalId),
    ("mutId", .str c.mutId), ("payloadHash", .str (bytesToBase64 c.payloadHash)),
    ("payloadEnc", .str (bytesToBase64 c.payloadEnc)), ("committedAt", .int c.committedAt),
    ("schemaEpoch", .int c.schemaEpoch), ("touchedKeys", .str c.touchedKeys),
    ("byteSize", .int c.byteSize)]

variable (ν) in
/-- `CapturedOpLogV1`. -/
def capturedJson (c : CapturedOpLog) : Json ν := .obj (capturedEntries ν c)

/-- A row that can be captured at `vshard`. -/
structure Capturable (row : OpLogRow) (vshard : Int) : Prop where
  hash : row.payloadHash.size = 32
  payload : 1 ≤ row.payloadEnc.size
  committedAt : IsSafeInteger row.committedAt ∧ 0 ≤ row.committedAt
  schemaEpoch : IsSafeInteger row.schemaEpoch ∧ 1 ≤ row.schemaEpoch
  byteSize : IsSafeInteger row.byteSize ∧ row.byteSize = row.payloadEnc.size
  placement : row.placementVshard = some vshard

instance (row : OpLogRow) (vshard : Int) : Decidable (Capturable row vshard) :=
  decidable_of_iff
    (row.payloadHash.size = 32 ∧ 1 ≤ row.payloadEnc.size ∧
      (IsSafeInteger row.committedAt ∧ 0 ≤ row.committedAt) ∧
      (IsSafeInteger row.schemaEpoch ∧ 1 ≤ row.schemaEpoch) ∧
      (IsSafeInteger row.byteSize ∧ row.byteSize = row.payloadEnc.size) ∧
      row.placementVshard = some vshard)
    ⟨fun ⟨h₁, h₂, h₃, h₄, h₅, h₆⟩ => ⟨h₁, h₂, h₃, h₄, h₅, h₆⟩,
      fun ⟨h₁, h₂, h₃, h₄, h₅, h₆⟩ => ⟨h₁, h₂, h₃, h₄, h₅, h₆⟩⟩

def capturedOf (row : OpLogRow) (vshard : Int) : CapturedOpLog where
  vshard
  principalId := row.principalId
  mutId := row.mutId
  payloadHash := row.payloadHash
  payloadEnc := row.payloadEnc
  committedAt := row.committedAt
  schemaEpoch := row.schemaEpoch
  touchedKeys := row.touchedKeys
  byteSize := row.byteSize

theorem Capturable.same {row : OpLogRow} {vshard : Int} (h : Capturable row vshard) :
    SameOpLogRow row (capturedOf row vshard) := by
  have := h.placement
  cases row
  simp_all [SameOpLogRow, CapturedOpLog.toRow, capturedOf]

variable (ν) in
def encodeCapturedRow (row : OpLogRow) (vshard : Int) : Except Thrown ByteArray :=
  if Capturable row vshard then .ok (encodeText (capturedJson ν (capturedOf row vshard)).toText)
  else .error (invariantError "committed mutation op-log row is malformed")

/-! ## Reading -/

def CAPTURED_KEYS : List String :=
  ["byteSize", "committedAt", "mutId", "payloadEnc", "payloadHash", "principalId", "schemaEpoch",
    "touchedKeys", "v", "vshard"]

/-- A member that is a safe integer. -/
def safeInt? (members : List (String × Json ν)) (key : String) : Option Int :=
  match Json.get? members key with
  | some (.num n) => JsNumber.toInt? n
  | _ => none

/-- A member that is a string. -/
def string? (members : List (String × Json ν)) (key : String) : Option String :=
  match Json.get? members key with
  | some (.str s) => some s
  | _ => none

/-- The members of a captured row before its bytes are read. -/
structure CapturedFields where
  vshard : Int
  principalId : String
  mutId : String
  payloadHash : String
  payloadEnc : String
  committedAt : Int
  schemaEpoch : Int
  touchedKeys : String
  byteSize : Int

def capturedFields? (members : List (String × Json ν)) : Option CapturedFields := do
  let v ← safeInt? members "v"
  guard (v = 1)
  let principalId ← string? members "principalId"
  let mutId ← string? members "mutId"
  let payloadHash ← string? members "payloadHash"
  let payloadEnc ← string? members "payloadEnc"
  let committedAt ← safeInt? members "committedAt"
  guard (0 ≤ committedAt)
  let schemaEpoch ← safeInt? members "schemaEpoch"
  guard (1 ≤ schemaEpoch)
  let touchedKeys ← string? members "touchedKeys"
  let byteSize ← safeInt? members "byteSize"
  guard (1 ≤ byteSize)
  let vshard ← safeInt? members "vshard"
  some
    { vshard, principalId, mutId, payloadHash, payloadEnc, committedAt, schemaEpoch, touchedKeys,
      byteSize }

def base64ToBytes (value : String) : Except Thrown ByteArray :=
  match atob value.toList with
  | some bytes => .ok ⟨bytes.toArray⟩
  | none => .error (invariantError "split-oplog row contains invalid base64")

/-- The bytes of a captured row, of the sizes they should have. -/
def capturedBytes (f : CapturedFields) : Except Thrown CapturedOpLog :=
  match base64ToBytes f.payloadHash with
  | .error e => .error e
  | .ok payloadHash =>
    match base64ToBytes f.payloadEnc with
    | .error e => .error e
    | .ok payloadEnc =>
      if payloadHash.size = 32 ∧ (payloadEnc.size : Int) = f.byteSize then
        .ok
          { vshard := f.vshard, principalId := f.principalId, mutId := f.mutId, payloadHash,
            payloadEnc, committedAt := f.committedAt, schemaEpoch := f.schemaEpoch,
            touchedKeys := f.touchedKeys, byteSize := f.byteSize }
      else .error (invariantError "split-oplog row contains invalid payload bytes")

def capturedMembers (members : List (String × Json ν)) : Except Thrown CapturedOpLog :=
  if (members.map Prod.fst).isPerm CAPTURED_KEYS then
    match capturedFields? members with
    | none => .error (invariantError "split-oplog row contains invalid fields")
    | some f =>
      if IsVshard f.vshard then capturedBytes f
      else .error (invalidArgs "split-oplog vshard is invalid")
  else .error (invariantError "split-oplog row has an unexpected shape")

variable (ν) in
def decodeCapturedRow (bytes : ByteArray) : Except Thrown CapturedOpLog :=
  match (Json.parse (decodeText bytes) : Option (Json ν)) with
  | none => .error (invariantError "split-oplog row is not valid JSON")
  | some (.obj members) => capturedMembers members
  | some _ => .error (invariantError "split-oplog row is malformed")

/-! ## The round trip -/

theorem base64ToBytes_bytesToBase64 (bytes : ByteArray) :
    base64ToBytes (bytesToBase64 bytes) = .ok bytes := by
  simp only [base64ToBytes, bytesToBase64, String.toList_ofList, atob_btoa]

theorem safeInt?_int {members : List (String × Json ν)} {key : String} {i : Int}
    (h : Json.get? members key = some (.int i)) (hi : IsSafeInteger i) :
    safeInt? members key = some i := by
  rw [safeInt?, h]; exact JsNumber.toInt?_ofInt i hi.natAbs_lt

omit [JsNumber ν] in
theorem string?_str {members : List (String × Json ν)} {key s : String}
    (h : Json.get? members key = some (.str s)) : string? members key = some s := by
  rw [string?, h]

section
variable {row : OpLogRow} {vshard : Int}

theorem capturedJson_exact (h : Capturable row vshard) (hv : IsVshard vshard) :
    (capturedJson ν (capturedOf row vshard)).Exact := by
  rw [capturedJson, Json.Exact]
  constructor
  · show OwnKeys ["v", "vshard", "principalId", "mutId", "payloadHash", "payloadEnc", "committedAt",
      "schemaEpoch", "touchedKeys", "byteSize"]
    decide
  · have hstr : ∀ s, (Json.str s : Json ν).Exact := fun s => by simp [Json.Exact]
    simp only [capturedEntries, Json.MembersExact, and_true, hstr, true_and]
    exact ⟨Json.int_exact (by decide), Json.int_exact hv.1.natAbs_lt,
      Json.int_exact h.committedAt.1.natAbs_lt, Json.int_exact h.schemaEpoch.1.natAbs_lt,
      Json.int_exact h.byteSize.1.natAbs_lt⟩

theorem capturedFields?_entries (h : Capturable row vshard) (hv : IsVshard vshard) :
    capturedFields? (capturedEntries ν (capturedOf row vshard)) =
      some
        { vshard, principalId := row.principalId, mutId := row.mutId
          payloadHash := bytesToBase64 row.payloadHash
          payloadEnc := bytesToBase64 row.payloadEnc, committedAt := row.committedAt
          schemaEpoch := row.schemaEpoch, touchedKeys := row.touchedKeys
          byteSize := row.byteSize } := by
  have hpos : 1 ≤ row.byteSize := by rw [h.byteSize.2]; exact_mod_cast h.payload
  let c := capturedEntries ν (capturedOf row vshard)
  have h₁ : safeInt? c "v" = some 1 := safeInt?_int rfl (by decide)
  have h₂ : string? c "principalId" = some row.principalId := string?_str rfl
  have h₃ : string? c "mutId" = some row.mutId := string?_str rfl
  have h₄ : string? c "payloadHash" = some (bytesToBase64 row.payloadHash) := string?_str rfl
  have h₅ : string? c "payloadEnc" = some (bytesToBase64 row.payloadEnc) := string?_str rfl
  have h₆ : safeInt? c "committedAt" = some row.committedAt := safeInt?_int rfl h.committedAt.1
  have h₇ : safeInt? c "schemaEpoch" = some row.schemaEpoch := safeInt?_int rfl h.schemaEpoch.1
  have h₈ : string? c "touchedKeys" = some row.touchedKeys := string?_str rfl
  have h₉ : safeInt? c "byteSize" = some row.byteSize := safeInt?_int rfl h.byteSize.1
  have h₀ : safeInt? c "vshard" = some vshard := safeInt?_int rfl hv.1
  show capturedFields? c = _
  simp only [capturedFields?, h₁, h₂, h₃, h₄, h₅, h₆, h₇, h₈, h₉, h₀, Option.bind_eq_bind,
    Option.bind_some, guard, h.committedAt.2, h.schemaEpoch.2, hpos, if_true, Option.pure_def]

/-- A captured row is read back as it was. -/
theorem decodeCapturedRow_encode {bytes : ByteArray} (hv : IsVshard vshard)
    (h : encodeCapturedRow ν row vshard = .ok bytes) :
    decodeCapturedRow ν bytes = .ok (capturedOf row vshard) ∧ Capturable row vshard := by
  unfold encodeCapturedRow at h
  split at h
  · rename_i hc
    cases h
    refine ⟨?_, hc⟩
    have hbom : (capturedJson ν (capturedOf row vshard)).toText.toList.head? ≠
        some (Char.ofNat 0xFEFF) := by
      rw [Json.toText, String.toList_ofList]
      show some '{' ≠ _
      decide
    have hkeys : ((capturedEntries ν (capturedOf row vshard)).map Prod.fst).isPerm CAPTURED_KEYS := by
      show List.isPerm ["v", "vshard", "principalId", "mutId", "payloadHash", "payloadEnc",
        "committedAt", "schemaEpoch", "touchedKeys", "byteSize"] CAPTURED_KEYS
      decide
    rw [decodeCapturedRow, decodeText_encodeText hbom, Json.parse_toText (capturedJson_exact hc hv)]
    show capturedMembers (capturedEntries ν (capturedOf row vshard)) = _
    rw [capturedMembers, if_pos hkeys, capturedFields?_entries hc hv]
    dsimp only
    rw [if_pos hv, capturedBytes]
    simp only [base64ToBytes_bytesToBase64, hc.hash, hc.byteSize.2, and_self, if_true]
    rw [capturedOf, hc.byteSize.2]
  · cases h

end

end Chardb.OpLog
