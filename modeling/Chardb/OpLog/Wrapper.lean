import Chardb.Core.RawJson
import Chardb.Core.Vshard
import Chardb.Lib.Bytes
import Chardb.Lib.Table

/-!
# The op-log and its wrapper

`_chardb_op_log` is the at-most-once ledger of mutations. `runWrappedMutation` inserts
a pending row, runs the handler once if the row is new and finalises it with the
encoded envelope; otherwise it replays the envelope that is stored. SHA-256 and the
payload codec come from outside: `sha256` is any function, a `PayloadCodec` decrypts
what it encrypts.
-/

namespace Chardb.OpLog

open Chardb.Lib

/-! ## The ledger -/

/-- A row of `_chardb_op_log`. -/
structure OpLogRow where
  eventId : Nat
  principalId : String
  mutId : String
  payloadHash : ByteArray
  payloadEnc : ByteArray
  committedAt : Int
  schemaEpoch : Int
  touchedKeys : String
  byteSize : Int
  placementVshard : Option Int
  deriving DecidableEq

/-- `UNIQUE(principal_id, mut_id)`. -/
def OpLogRow.key (r : OpLogRow) : String × String := (r.principalId, r.mutId)

/-- `CHECK (placement_vshard IS NULL OR …)`. -/
def OpLogRow.check (r : OpLogRow) : Prop := ∀ v ∈ r.placementVshard, 0 ≤ v ∧ v < VSHARD_COUNT

instance : DecidablePred OpLogRow.check := fun r =>
  match h : r.placementVshard with
  | none => isTrue (by simp [OpLogRow.check, h])
  | some v => decidable_of_iff (0 ≤ v ∧ v < VSHARD_COUNT) (by simp [OpLogRow.check, h])

abbrev OpLogTable := Table OpLogRow.key OpLogRow.check

/-- The ledger, and the last event id that `AUTOINCREMENT` has given out. -/
structure Ledger where
  rows : OpLogTable
  lastEventId : Nat

def Ledger.empty : Ledger := ⟨.empty, 0⟩

/-- `INSERT OR IGNORE`, with the next event id; it answers `changes()`. -/
def Ledger.insertOrIgnore (row : Nat → OpLogRow) : Tx Thrown Ledger Nat := fun log =>
  match log.rows.insert? (row (log.lastEventId + 1)) with
  | some rows => (.ok 1, ⟨rows, log.lastEventId + 1⟩)
  | none => (.ok 0, log)

/-- `UPDATE … WHERE principal_id = ? AND mut_id = ?` of the columns that finalise a row. -/
def Ledger.finalise (key : String × String) (payloadEnc : ByteArray) (touchedKeys : String) :
    Tx Thrown Ledger Nat :=
  .zoom Ledger.rows (fun log rows => { log with rows })
    (Table.update (fun r => r.key = key)
      (fun r => { r with payloadEnc, touchedKeys, byteSize := payloadEnc.size })
      (.constraint "_chardb_op_log"))

/-! ## Envelopes -/

/-- `Number.isSafeInteger` as a type. -/
abbrev SafeInt := {i : Int // i.natAbs < 2 ^ 53}

section
variable {ν : Type} [JsNumber ν]

def SafeInt.toJson (i : SafeInt) : Json ν := .int i.1

variable (ν) in
/-- `RawJson`. -/
abbrev RawJson := {j : Json ν // j.Exact}

variable (ν) in
/-- What a handler may return: any JavaScript value. -/
abbrev HandlerResult := {v : JsValue ν // v.Wf}

structure TouchedKey where
  table : String
  pk : String
  deriving DecidableEq

variable (ν) in
/-- How a handler ends, unless it throws. -/
inductive MutationOutcome
  | ok (result : HandlerResult ν) (rowsAffected : SafeInt) (lastInsertRowid : Option (Option SafeInt))
      (returning : Option (List (RawJson ν))) (touchedKeys : Option (List TouchedKey))
      (warnings : Option (List String))
  | userError (errorCode : CdbErrorCode) (errorMessage : String)
      (touchedKeys : Option (List TouchedKey))

def MutationOutcome.touchedKeys : MutationOutcome ν → Option (List TouchedKey)
  | .ok _ _ _ _ touchedKeys _ => touchedKeys
  | .userError _ _ touchedKeys => touchedKeys

/-- A member that is left out when there is no value. -/
def optionalMember {α : Type} (key : String) (value : Option α) (toJson : α → Json ν) :
    List (String × Json ν) :=
  value.toList.map fun a => (key, toJson a)

def nullable {α : Type} (toJson : α → Json ν) : Option α → Json ν
  | none => .null
  | some a => toJson a

/-- The envelope of a handler that returned. -/
def okEnvelope (result : Json ν) (rowsAffected : SafeInt) (lastInsertRowid : Option (Option SafeInt))
    (returning : Option (List (RawJson ν))) (warnings : Option (List String)) (cookie : String) :
    Json ν :=
  .obj
    ([("v", .int 1), ("status", .str "ok"), ("rowsAffected", rowsAffected.toJson),
        ("result", result)] ++
      optionalMember "lastInsertRowid" lastInsertRowid (nullable SafeInt.toJson) ++
      optionalMember "returning" returning (fun js => .arr (js.map (·.1))) ++
      [("cookie", .str cookie)] ++
      optionalMember "warnings" warnings (fun ws => .arr (ws.map .str)))

/-- The envelope of a handler that reported an error. -/
def userErrorEnvelope (errorCode : CdbErrorCode) (errorMessage cookie : String) : Json ν :=
  .obj
    [("v", .int 1), ("status", .str "user_error"), ("rowsAffected", .int 0),
      ("errorCode", .str errorCode.text), ("errorMessage", .str errorMessage),
      ("cookie", .str cookie)]

/-- The envelope of an outcome; a result that is no JSON value has none. -/
def envelopeOf (cookie : String) : MutationOutcome ν → Except Thrown (Json ν)
  | .ok result rowsAffected lastInsertRowid returning _ warnings =>
    match rawJsonResult "mutation result" .invariant result.1 with
    | .ok result =>
      .ok (okEnvelope result rowsAffected lastInsertRowid returning warnings cookie)
    | .error e => .error e
  | .userError errorCode errorMessage _ => .ok (userErrorEnvelope errorCode errorMessage cookie)

/-- `encodeEnvelope`. -/
def encodeEnvelope (env : Json ν) : String := env.toText

def unexpectedVersion (v : Option (Json ν)) : Thrown :=
  .error ("unexpected envelope version: " ++
    ((v.map fun j => String.ofList j.display).getD "undefined"))

/-- `decodeEnvelope`. -/
def decodeEnvelope (s : String) : Except Thrown (Json ν) :=
  match Json.parse s with
  | none => .error (.error "SyntaxError")
  | some .null => .error (.error "Cannot read properties of null (reading 'v')")
  | some (.obj members) =>
    match Json.get? members "v" with
    | some (.num n) =>
      if JsNumber.toInt? n = some 1 then .ok (.obj members)
      else .error (unexpectedVersion (some (.num n)))
    | v => .error (unexpectedVersion v)
  | some _ => .error (unexpectedVersion (ν := ν) none)

def touchedKeysJson (keys : List TouchedKey) : Json ν :=
  .arr (keys.map fun k => .obj [("table", .str k.table), ("pk", .str k.pk)])

end

/-! ## The wrapper -/

/-- A cipher for stored envelopes. -/
structure PayloadCodec where
  encrypt : ByteArray → ByteArray
  decrypt : ByteArray → ByteArray
  decrypt_encrypt : ∀ b, decrypt (encrypt b) = b
  encrypt_size_pos : ∀ b, 0 < b.size → 0 < (encrypt b).size

def IDENTITY_CODEC : PayloadCodec := ⟨id, id, fun _ => rfl, fun _ h => h⟩

/-- The bytes whose hexadecimal form is `sha256Hex(request)`. -/
def requestHash (sha256 : ByteArray → ByteArray) (request : String) : ByteArray :=
  sha256 (encodeText request)

/-- The op-log and the tables the handler works on. -/
structure OpLogDb (σ : Type) where
  opLog : Ledger
  domain : σ

variable {σ : Type}

def onOpLog {α : Type} : Tx Thrown Ledger α → Tx Thrown (OpLogDb σ) α :=
  .zoom OpLogDb.opLog fun db opLog => { db with opLog }

def onDomain {α : Type} : Tx Thrown σ α → Tx Thrown (OpLogDb σ) α :=
  .zoom OpLogDb.domain fun db domain => { db with domain }

variable {ν : Type} [JsNumber ν]

variable (σ ν) in
structure RunWrappedMutationArgs where
  principalId : String
  mutId : String
  canonicalRequest : String
  schemaEpoch : Int
  placementVshard : Option Int
  nowMs : Int
  run : Tx Thrown σ (MutationOutcome ν)
  cookie : String

variable (ν) in
structure RunWrappedMutationResult where
  ran : Bool
  envelope : Json ν

def RunWrappedMutationArgs.key (args : RunWrappedMutationArgs σ ν) : String × String :=
  (args.principalId, args.mutId)

/-- The row a call inserts before its handler runs. -/
def pendingRow (args : RunWrappedMutationArgs σ ν) (incomingHash : ByteArray) (eventId : Nat) :
    OpLogRow where
  eventId
  principalId := args.principalId
  mutId := args.mutId
  payloadHash := incomingHash
  payloadEnc := .empty
  committedAt := args.nowMs
  schemaEpoch := args.schemaEpoch
  touchedKeys := "[]"
  byteSize := 0
  placementVshard := args.placementVshard

def noExistingRow : Thrown :=
  .cdb
    { code := .mutIdCollision
      message := "INSERT OR IGNORE reported 0 changes but no existing row found" }

def mutIdCollision (mutId : String) : Thrown :=
  .cdb
    { code := .mutIdCollision
      message := "mutId=" ++ mutId ++ " matches an existing op-log row but payload_hash differs"
      hint := some "regenerate mutId; client RNG is reusing values across distinct payloads" }

def notFinalized : Thrown :=
  .cdb
    { code := .txnAbortedEviction
      message := "op-log row exists but payload not yet finalized (concurrent in-flight)" }

section
variable (sha256 : ByteArray → ByteArray) (codec : PayloadCodec)

/-- The row was there before: answer with the envelope it stores. -/
def replayMutation (args : RunWrappedMutationArgs σ ν) (incomingHash : ByteArray) :
    Tx Thrown (OpLogDb σ) (RunWrappedMutationResult ν) := do
  let found ← .gets fun db => db.opLog.rows.find? args.key
  let row ← .ofOption found noExistingRow
  .require (row.payloadHash = incomingHash) (mutIdCollision args.mutId)
  .require (row.payloadEnc.size ≠ 0) notFinalized
  let envelope ← .ofExcept (decodeEnvelope (decodeText (codec.decrypt row.payloadEnc)))
  pure ⟨false, envelope⟩

/-- The row is new: run the handler and finalise it. -/
def runMutation (args : RunWrappedMutationArgs σ ν) :
    Tx Thrown (OpLogDb σ) (RunWrappedMutationResult ν) := do
  let outcome ← onDomain args.run
  let envelope ← .ofExcept (envelopeOf args.cookie outcome)
  let _ ← onOpLog (Ledger.finalise args.key (codec.encrypt (encodeText (encodeEnvelope envelope)))
    (touchedKeysJson (ν := ν) (outcome.touchedKeys.getD [])).toText)
  pure ⟨true, envelope⟩

/-- `runWrappedMutation`. -/
def runWrappedMutation (args : RunWrappedMutationArgs σ ν) :
    Tx Thrown (OpLogDb σ) (RunWrappedMutationResult ν) := do
  let changes ← onOpLog (Ledger.insertOrIgnore (pendingRow args (requestHash sha256 args.canonicalRequest)))
  if changes = 0 then replayMutation codec args (requestHash sha256 args.canonicalRequest)
  else runMutation codec args

end

end Chardb.OpLog
