import Chardb.OpLog.CapturedRow

/-!
# Captured op-log rows, there and back

A row that is well formed is read back as it was, two rows with the same bytes are the same row, and
`decodeCapturedRow` takes exactly the texts of an object with the ten fields, in their ranges and
with the sizes they state. The decoder of the text is lenient: a byte order mark is dropped, and
bytes that are no UTF-8 become U+FFFD.
-/

namespace Chardb.OpLog

open Chardb.Lib

/-! ## Base64 in chunks -/

/-- The length of a chunk. -/
def chunk : Nat := 32768

theorem chunk_pos : 0 < chunk := by decide

/-- The characters that `bytesToBase64` appends from `offset` on, one chunk after the other. -/
def binaryFrom (bytes : ByteArray) (offset : Nat) : List UInt8 :=
  if offset < bytes.size then
    (bytes.data.toList.drop offset).take chunk ++ binaryFrom bytes (offset + chunk)
  else []
termination_by bytes.size - offset
decreasing_by exact Nat.sub_lt_sub_left ‹_› (Nat.lt_add_of_pos_right chunk_pos)

/-- `bytesToBase64` as the loop computes it. -/
def chunkedBase64 (bytes : ByteArray) : String := String.ofList (btoa (binaryFrom bytes 0))

theorem binaryFrom_eq (bytes : ByteArray) (offset : Nat) :
    binaryFrom bytes offset = bytes.data.toList.drop offset := by
  induction offset using binaryFrom.induct bytes with
  | case1 offset h ih =>
    rw [binaryFrom, if_pos h, ih, ← List.drop_drop]
    exact List.take_append_drop chunk _
  | case2 offset h =>
    rw [binaryFrom, if_neg h, List.drop_eq_nil_of_le]
    exact Nat.not_lt.mp h

/-- The chunks leave no trace in the text. -/
theorem chunkedBase64_eq (bytes : ByteArray) : chunkedBase64 bytes = bytesToBase64 bytes := by
  rw [chunkedBase64, binaryFrom_eq, List.drop_zero, bytesToBase64]

/-! ## Rows that are well formed -/

variable {ν : Type} [JsNumber ν]

/-- A row of the op-log whose placement is `vshard`. -/
structure WellFormedRow (row : OpLogRow) (vshard : Int) : Prop extends Capturable row vshard where
  vshard : IsVshard vshard

theorem WellFormedRow.encode {row : OpLogRow} {vshard : Int} (h : WellFormedRow row vshard) :
    encodeCapturedRow ν row vshard =
      .ok (encodeText (capturedJson ν (capturedOf row vshard)).toText) := if_pos h.toCapturable

theorem WellFormedRow.roundTrip {row : OpLogRow} {vshard : Int} (h : WellFormedRow row vshard) :
    ∃ bytes c, encodeCapturedRow ν row vshard = .ok bytes ∧ decodeCapturedRow ν bytes = .ok c ∧
      SameOpLogRow row c :=
  ⟨_, _, h.encode, (decodeCapturedRow_encode h.vshard h.encode).1, h.same⟩

/-- Rows captured alike differ in their event ids alone. -/
theorem capturedOf_inj {row row' : OpLogRow} {vshard vshard' : Int} (h : Capturable row vshard)
    (h' : Capturable row' vshard') (heq : capturedOf row vshard = capturedOf row' vshard') :
    vshard = vshard' ∧ row' = { row with eventId := row'.eventId } := by
  have hsame := h'.same
  rw [SameOpLogRow, ← heq] at hsame
  refine ⟨congrArg CapturedOpLog.vshard heq, hsame.trans ?_⟩
  have hplacement := h.placement
  cases row
  subst hplacement
  rfl

theorem WellFormedRow.encode_inj {row row' : OpLogRow} {vshard vshard' : Int}
    (h : WellFormedRow row vshard) (h' : WellFormedRow row' vshard') {bytes : ByteArray}
    (hbytes : encodeCapturedRow ν row vshard = .ok bytes)
    (hbytes' : encodeCapturedRow ν row' vshard' = .ok bytes) :
    vshard = vshard' ∧ row' = { row with eventId := row'.eventId } := by
  have hread := (decodeCapturedRow_encode h.vshard hbytes).1
  rw [(decodeCapturedRow_encode h'.vshard hbytes').1] at hread
  exact capturedOf_inj h.toCapturable h'.toCapturable (Except.ok.inj hread).symm

/-! ## Texts that are read -/

/-- The members of an object that is read as `c`: the ten fields, each of its type and in its range,
and bytes of the sizes they should have. -/
structure CapturedShape (members : List (String × Json ν)) (c : CapturedOpLog) : Prop where
  keys : (members.map Prod.fst).Perm CAPTURED_KEYS
  version : safeInt? members "v" = some 1
  vshard : safeInt? members "vshard" = some c.vshard ∧ IsVshard c.vshard
  principalId : string? members "principalId" = some c.principalId
  mutId : string? members "mutId" = some c.mutId
  payloadHash : ∃ text, string? members "payloadHash" = some text ∧
    atob text.toList = some c.payloadHash.data.toList ∧ c.payloadHash.size = 32
  payloadEnc : ∃ text, string? members "payloadEnc" = some text ∧
    atob text.toList = some c.payloadEnc.data.toList ∧ (c.payloadEnc.size : Int) = c.byteSize
  committedAt : safeInt? members "committedAt" = some c.committedAt ∧ 0 ≤ c.committedAt
  schemaEpoch : safeInt? members "schemaEpoch" = some c.schemaEpoch ∧ 1 ≤ c.schemaEpoch
  touchedKeys : string? members "touchedKeys" = some c.touchedKeys
  byteSize : safeInt? members "byteSize" = some c.byteSize ∧ 1 ≤ c.byteSize

/-- The members that `capturedFields?` reads as `f`. -/
structure FieldsShape (members : List (String × Json ν)) (f : CapturedFields) : Prop where
  version : safeInt? members "v" = some 1
  vshard : safeInt? members "vshard" = some f.vshard
  principalId : string? members "principalId" = some f.principalId
  mutId : string? members "mutId" = some f.mutId
  payloadHash : string? members "payloadHash" = some f.payloadHash
  payloadEnc : string? members "payloadEnc" = some f.payloadEnc
  committedAt : safeInt? members "committedAt" = some f.committedAt ∧ 0 ≤ f.committedAt
  schemaEpoch : safeInt? members "schemaEpoch" = some f.schemaEpoch ∧ 1 ≤ f.schemaEpoch
  touchedKeys : string? members "touchedKeys" = some f.touchedKeys
  byteSize : safeInt? members "byteSize" = some f.byteSize ∧ 1 ≤ f.byteSize

theorem guard_eq_some {p : Prop} [Decidable p] {u : Unit} :
    (guard p : Option Unit) = some u ↔ p := by
  unfold guard
  split
  · rename_i h
    exact ⟨fun _ => h, fun _ => rfl⟩
  · rename_i h
    exact ⟨by rintro ⟨⟩, fun hp => absurd hp h⟩

theorem capturedFields?_iff {members : List (String × Json ν)} {f : CapturedFields} :
    capturedFields? members = some f ↔ FieldsShape members f := by
  simp only [capturedFields?, Option.bind_eq_bind, Option.bind_eq_some_iff, guard_eq_some,
    Option.some.injEq]
  constructor
  · rintro ⟨_, hv, _, rfl, principalId, h₁, mutId, h₂, payloadHash, h₃, payloadEnc, h₄, committedAt,
      h₅, _, h₆, schemaEpoch, h₇, _, h₈, touchedKeys, h₉, byteSize, h₁₀, _, h₁₁, vshard, h₁₂, rfl⟩
    exact ⟨hv, h₁₂, h₁, h₂, h₃, h₄, ⟨h₅, h₆⟩, ⟨h₇, h₈⟩, h₉, ⟨h₁₀, h₁₁⟩⟩
  · rintro ⟨hv, h₁₂, h₁, h₂, h₃, h₄, ⟨h₅, h₆⟩, ⟨h₇, h₈⟩, h₉, ⟨h₁₀, h₁₁⟩⟩
    exact ⟨1, hv, (), rfl, _, h₁, _, h₂, _, h₃, _, h₄, _, h₅, (), h₆, _, h₇, (), h₈, _, h₉, _, h₁₀,
      (), h₁₁, _, h₁₂, rfl⟩

theorem base64ToBytes_iff {text : String} {bytes : ByteArray} :
    base64ToBytes text = .ok bytes ↔ atob text.toList = some bytes.data.toList := by
  unfold base64ToBytes
  cases h : atob text.toList with
  | none => simp
  | some list =>
    simp only [Except.ok.injEq, Option.some.injEq]
    constructor
    · rintro rfl
      rfl
    · rintro rfl
      rfl

/-- What `capturedBytes` builds of the fields. -/
theorem capturedBytes_iff {f : CapturedFields} {c : CapturedOpLog} :
    capturedBytes f = .ok c ↔
      atob f.payloadHash.toList = some c.payloadHash.data.toList ∧ c.payloadHash.size = 32 ∧
      atob f.payloadEnc.toList = some c.payloadEnc.data.toList ∧
      (c.payloadEnc.size : Int) = c.byteSize ∧ c.vshard = f.vshard ∧
      c.principalId = f.principalId ∧ c.mutId = f.mutId ∧ c.committedAt = f.committedAt ∧
      c.schemaEpoch = f.schemaEpoch ∧ c.touchedKeys = f.touchedKeys ∧ c.byteSize = f.byteSize := by
  unfold capturedBytes
  constructor
  · intro h
    cases hhash : base64ToBytes f.payloadHash with
    | error e => rw [hhash] at h; cases h
    | ok payloadHash =>
      cases henc : base64ToBytes f.payloadEnc with
      | error e => rw [hhash, henc] at h; cases h
      | ok payloadEnc =>
        rw [hhash, henc] at h
        dsimp only at h
        split at h
        · rename_i hsizes
          obtain rfl := Except.ok.inj h
          exact ⟨base64ToBytes_iff.mp hhash, hsizes.1, base64ToBytes_iff.mp henc, hsizes.2,
            rfl, rfl, rfl, rfl, rfl, rfl, rfl⟩
        · cases h
  · rintro ⟨hhash, hsize, henc, hbytes, h₁, h₂, h₃, h₄, h₅, h₆, h₇⟩
    rw [base64ToBytes_iff.mpr hhash, base64ToBytes_iff.mpr henc]
    dsimp only
    rw [if_pos ⟨hsize, hbytes.trans h₇⟩, ← h₁, ← h₂, ← h₃, ← h₄, ← h₅, ← h₆, ← h₇]

theorem capturedMembers_iff {members : List (String × Json ν)} {c : CapturedOpLog} :
    capturedMembers members = .ok c ↔ CapturedShape members c := by
  unfold capturedMembers
  constructor
  · intro h
    split at h
    · rename_i hkeys
      cases hf : capturedFields? members with
      | none => rw [hf] at h; cases h
      | some f =>
        rw [hf] at h
        dsimp only at h
        split at h
        · rename_i hvshard
          have hshape := capturedFields?_iff.mp hf
          obtain ⟨hhash, hsize, henc, hbytes, h₁, h₂, h₃, h₄, h₅, h₆, h₇⟩ := capturedBytes_iff.mp h
          exact {
            keys := List.isPerm_iff.mp hkeys
            version := hshape.version
            vshard := h₁ ▸ ⟨hshape.vshard, hvshard⟩
            principalId := h₂ ▸ hshape.principalId
            mutId := h₃ ▸ hshape.mutId
            payloadHash := ⟨_, hshape.payloadHash, hhash, hsize⟩
            payloadEnc := ⟨_, hshape.payloadEnc, henc, hbytes⟩
            committedAt := h₄ ▸ hshape.committedAt
            schemaEpoch := h₅ ▸ hshape.schemaEpoch
            touchedKeys := h₆ ▸ hshape.touchedKeys
            byteSize := h₇ ▸ hshape.byteSize }
        · cases h
    · cases h
  · intro h
    obtain ⟨hash, hhash, hhashBytes, hsize⟩ := h.payloadHash
    obtain ⟨enc, henc, hencBytes, hbytes⟩ := h.payloadEnc
    let f : CapturedFields := ⟨c.vshard, c.principalId, c.mutId, hash, enc, c.committedAt,
      c.schemaEpoch, c.touchedKeys, c.byteSize⟩
    have hf : capturedFields? members = some f := capturedFields?_iff.mpr
      ⟨h.version, h.vshard.1, h.principalId, h.mutId, hhash, henc, h.committedAt, h.schemaEpoch,
        h.touchedKeys, h.byteSize⟩
    rw [if_pos (List.isPerm_iff.mpr h.keys), hf]
    dsimp only
    rw [if_pos h.vshard.2]
    exact capturedBytes_iff.mpr
      ⟨hhashBytes, hsize, hencBytes, hbytes, rfl, rfl, rfl, rfl, rfl, rfl, rfl⟩

/-- `decodeCapturedRow` returns exactly on the texts of an object of the shape. -/
theorem decodeCapturedRow_iff {bytes : ByteArray} {c : CapturedOpLog} :
    decodeCapturedRow ν bytes = .ok c ↔ ∃ members : List (String × Json ν),
      Json.parse (decodeText bytes) = some (.obj members) ∧ CapturedShape members c := by
  unfold decodeCapturedRow
  constructor
  · intro h
    split at h
    · cases h
    · rename_i members hparse
      exact ⟨members, hparse, capturedMembers_iff.mp h⟩
    · cases h
  · rintro ⟨members, hparse, hshape⟩
    rw [hparse]
    exact capturedMembers_iff.mpr hshape

/-! ## Bytes that are no text -/

/-- The bytes of a captured row, but for a principal id that is no UTF-8. -/
def strayBytes : ByteArray :=
  encodeText "\x7b\"v\":1,\"vshard\":0,\"principalId\":\"" ++ ⟨#[0xFF]⟩ ++
    encodeText ("\",\"mutId\":\"m\",\"payloadHash\":" ++
      "\"AAAAAAAAAAAAAAAAAAAAAAAAAAAAAAAAAAAAAAAAAAA=\",\"payloadEnc\":\"AA==\"," ++
      "\"committedAt\":0,\"schemaEpoch\":1,\"touchedKeys\":\"[]\",\"byteSize\":1\x7d")

/-- The bytes of no JSON text are read as a row. -/
theorem stray_bytes_read : (¬ ∃ s, encodeText s = strayBytes) ∧
    ∃ c, decodeCapturedRow Int strayBytes = .ok c ∧ c.principalId = "\uFFFD" := by
  constructor
  · rintro ⟨s, hs⟩
    have hvalid : strayBytes.IsValidUTF8 := hs ▸ s.isValidUTF8
    revert hvalid
    decide +kernel
  · have h : (decodeCapturedRow Int strayBytes).toOption.map CapturedOpLog.principalId =
        some "\uFFFD" := by decide +kernel
    cases hread : decodeCapturedRow Int strayBytes with
    | error e => rw [hread] at h; cases h
    | ok c =>
      rw [hread] at h
      exact ⟨c, rfl, Option.some.inj h⟩

/-- Every well-formed row is read back as it was, its bytes are those of no other row, and what is
read is the text of an object with the ten fields and consistent sizes. -/
theorem captured_rows_round_trip :
    (∀ bytes, chunkedBase64 bytes = bytesToBase64 bytes) ∧
    (∀ row vshard, WellFormedRow row vshard → ∃ bytes c,
      encodeCapturedRow ν row vshard = .ok bytes ∧ decodeCapturedRow ν bytes = .ok c ∧
        SameOpLogRow row c) ∧
    (∀ row vshard row' vshard' bytes, WellFormedRow row vshard → WellFormedRow row' vshard' →
      encodeCapturedRow ν row vshard = .ok bytes → encodeCapturedRow ν row' vshard' = .ok bytes →
        vshard = vshard' ∧ row' = { row with eventId := row'.eventId }) ∧
    (∀ bytes c, decodeCapturedRow ν bytes = .ok c ↔ ∃ members : List (String × Json ν),
      Json.parse (decodeText bytes) = some (.obj members) ∧ CapturedShape members c) ∧
    ∀ bytes, (¬ ∃ (members : List (String × Json ν)) (c : CapturedOpLog),
      Json.parse (decodeText bytes) = some (.obj members) ∧ CapturedShape members c) →
        ∃ e, decodeCapturedRow ν bytes = .error e := by
  refine ⟨chunkedBase64_eq, fun _ _ h => h.roundTrip,
    fun _ _ _ _ _ h h' hbytes hbytes' => h.encode_inj h' hbytes hbytes',
    fun _ _ => decodeCapturedRow_iff, fun bytes hno => ?_⟩
  cases h : decodeCapturedRow ν bytes with
  | error e => exact ⟨e, rfl⟩
  | ok c =>
    obtain ⟨members, hparse, hshape⟩ := decodeCapturedRow_iff.mp h
    exact absurd ⟨members, c, hparse, hshape⟩ hno

end Chardb.OpLog
