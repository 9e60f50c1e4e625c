import Chardb.Core.Errors
import Chardb.Lib.JsonParse
import Chardb.Lib.JsonShape

/-!
# The wire envelope

Messages between client and Gateway are JSON objects with a tag `t`. `encodeWire` is
their JSON text; `decodeWire` parses a text, bounds its nesting and checks every field
before the message reaches a handler.
-/

namespace Chardb

/-- `isCdbErrorCode`, with the code. -/
def CdbErrorCode.ofText? (s : String) : Option CdbErrorCode :=
  CdbErrorCode.all.find? fun code => code.text = s

def isRetryable (code : CdbErrorCode) : Bool :=
  code ∈ [.staleEpoch, .txnAbortedEviction, .rateLimited, .shardUnavailable, .catalogUnavailable,
    .streamAborted]

def docsUrlFor (code : CdbErrorCode) : String := "https://chardb.dev/errors/" ++ code.text.toLower

end Chardb

namespace Chardb.Wire

open Chardb.Lib

def PROTOCOL_V : Int := 3

/-- What `integerId` accepts. -/
abbrev SubId := {i : Int // 0 ≤ i ∧ i < 2 ^ 53}

/-! ## Messages -/

inductive RowPatchOp
  | put
  | del
  | edit
  deriving DecidableEq

def RowPatchOp.text : RowPatchOp → String
  | .put => "put"
  | .del => "del"
  | .edit => "edit"

inductive MustRefetchReason
  | lagged
  | authChanged
  | schemaChanged
  | protocolMismatch
  | shardsChanged
  | pitrIdempotencyReset
  | gsiLag
  deriving DecidableEq

def MustRefetchReason.text : MustRefetchReason → String
  | .lagged => "lagged"
  | .authChanged => "authChanged"
  | .schemaChanged => "schemaChanged"
  | .protocolMismatch => "protocolMismatch"
  | .shardsChanged => "shardsChanged"
  | .pitrIdempotencyReset => "pitrIdempotencyReset"
  | .gsiLag => "gsiLag"

structure RowPatch (ν : Type) where
  op : RowPatchOp
  subId : SubId
  rowKey : String
  row : Option (Json ν)

inductive MutResult (ν : Type)
  | ok (mutId : String) (result : Json ν) (cookie : String)
  | failed (mutId : String) (code : CdbErrorCode)

/-- Client to Gateway. -/
inductive Up (ν : Type)
  | hello (clientId : String) (resume resumeFromCookie : Option String) (jwt : String)
  | sub (subId : SubId) (ref : String) (args : Json ν) (ttlMs : Option ν)
  | unsub (subId : SubId)
  | mut (mutId ref : String) (args : Json ν)
  | updateAuth (jwt : String)
  | ack (cookie : String)
  | ping

/-- Gateway to client. -/
inductive Down (ν : Type)
  | welcome (baseCookie region : String) (colo resumedFromCookie : Option String)
  | poke (cookie : String) (patches : List (RowPatch ν)) (mutResults : Option (List (MutResult ν)))
  | snapshot (subId : SubId) (cookie : String) (rows : List (Json ν))
  | mustRefetch (subIds : List SubId) (reason : MustRefetchReason)
  | error (code : CdbErrorCode) (subId : Option SubId) (correlationId : String)

section
variable {ν : Type} [JsNumber ν]

/-- A field that is left out when there is no value. -/
def optionalField {α : Type} (key : String) (value : Option α) (toJson : α → Json ν) :
    List (String × Json ν) :=
  value.toList.map fun a => (key, toJson a)

def SubId.toJson (subId : SubId) : Json ν := .int subId.1

def RowPatch.toJson (p : RowPatch ν) : Json ν :=
  .obj ([("op", .str p.op.text), ("subId", p.subId.toJson), ("rowKey", .str p.rowKey)] ++
    optionalField "row" p.row id)

def MutResult.toJson : MutResult ν → Json ν
  | .ok mutId result cookie =>
    .obj [("mutId", .str mutId), ("ok", .bool true), ("result", result), ("cookie", .str cookie)]
  | .failed mutId code =>
    .obj [("mutId", .str mutId), ("ok", .bool false),
      ("error", .obj [("code", .str code.text), ("retryable", .bool (isRetryable code)),
        ("docs", .str (docsUrlFor code))])]

def Down.toJson : Down ν → Json ν
  | .welcome baseCookie region colo resumedFromCookie =>
    .obj ([("t", .str "welcome"), ("protocolV", .int PROTOCOL_V), ("baseCookie", .str baseCookie),
      ("region", .str region)] ++ optionalField "colo" colo .str ++
      optionalField "resumedFromCookie" resumedFromCookie .str)
  | .poke cookie patches mutResults =>
    .obj ([("t", .str "poke"), ("cookie", .str cookie),
      ("patches", .arr (patches.map RowPatch.toJson))] ++
      optionalField "mutResults" mutResults fun results => .arr (results.map MutResult.toJson))
  | .snapshot subId cookie rows =>
    .obj [("t", .str "snapshot"), ("subId", subId.toJson), ("cookie", .str cookie),
      ("rows", .arr rows)]
  | .mustRefetch subIds reason =>
    .obj [("t", .str "mustRefetch"), ("subIds", .arr (subIds.map SubId.toJson)),
      ("reason", .str reason.text)]
  | .error code subId correlationId =>
    .obj ([("t", .str "error"), ("code", .str code.text)] ++ optionalField "subId" subId SubId.toJson ++
      [("retryable", .bool (isRetryable code)), ("correlationId", .str correlationId),
        ("docs", .str (docsUrlFor code))])

/-- `encodeWire`. -/
def encodeWire (message : Json ν) : String := message.toText

end

/-! ## Tags -/

inductive WireTag
  | hello
  | sub
  | unsub
  | mut
  | updateAuth
  | ack
  | ping
  | welcome
  | poke
  | snapshot
  | mustRefetch
  | error
  deriving DecidableEq

def WireTag.text : WireTag → String
  | .hello => "hello"
  | .sub => "sub"
  | .unsub => "unsub"
  | .mut => "mut"
  | .updateAuth => "updateAuth"
  | .ack => "ack"
  | .ping => "ping"
  | .welcome => "welcome"
  | .poke => "poke"
  | .snapshot => "snapshot"
  | .mustRefetch => "mustRefetch"
  | .error => "error"

def UP_TAGS : List WireTag := [.hello, .sub, .unsub, .mut, .updateAuth, .ack, .ping]

def DOWN_TAGS : List WireTag := [.welcome, .poke, .snapshot, .mustRefetch, .error]

/-- The tag of a text in `ALL_TAGS`. -/
def WireTag.ofText? (s : String) : Option WireTag := (UP_TAGS ++ DOWN_TAGS).find? fun t => t.text = s

/-! ## Fields -/

variable {ν : Type} [JsNumber ν]

variable (ν) in
abbrev WireObject := List (String × Json ν)

def malformed (path expected : String) : Thrown :=
  .typeError ("malformed wire message: " ++ path ++ " must " ++ expected)

def objectValue (path : String) : Json ν → Except Thrown (WireObject ν)
  | .obj members => .ok members
  | _ => .error (malformed path "be an object")

def required (object : WireObject ν) (key path : String) : Except Thrown (Json ν) :=
  match Json.get? object key with
  | some value => .ok value
  | none => .error (malformed (path ++ "." ++ key) "be present")

/-- Check an own property, if there is one. -/
def optional (object : WireObject ν) (key : String) (check : Json ν → Except Thrown Unit) :
    Except Thrown Unit :=
  match Json.get? object key with
  | some value => check value
  | none => .ok ()

def onlyKeys (object : WireObject ν) (path : String) (keys : List String) : Except Thrown Unit :=
  match object.find? fun m => m.1 ∉ keys with
  | some m => .error (malformed (path ++ "." ++ m.1) "not be present")
  | none => .ok ()

def stringValue (path : String) : Json ν → Except Thrown String
  | .str s => .ok s
  | _ => .error (malformed path "be a string")

def booleanValue (path : String) : Json ν → Except Thrown Bool
  | .bool b => .ok b
  | _ => .error (malformed path "be a boolean")

def finiteNumber (path : String) : Json ν → Except Thrown ν
  | .num n =>
    if JsNumber.isFinite n then .ok n else .error (malformed path "be a finite number")
  | _ => .error (malformed path "be a finite number")

/-- A number below zero is written with a minus sign, and negative zero is not. -/
def nonnegativeNumber (path : String) (value : Json ν) : Except Thrown Unit := do
  let number ← finiteNumber path value
  if (JsNumber.text number).head? = some '-' then .error (malformed path "be nonnegative")
  else pure ()

def integerId (path : String) : Json ν → Except Thrown Int
  | .num n =>
    match JsNumber.toInt? n with
    | some i =>
      if 0 ≤ i then .ok i else .error (malformed path "be a nonnegative safe integer")
    | none => .error (malformed path "be a nonnegative safe integer")
  | _ => .error (malformed path "be a nonnegative safe integer")

def arrayValue (path : String) : Json ν → Except Thrown (List (Json ν))
  | .arr elems => .ok elems
  | _ => .error (malformed path "be an array")

def enumValue (path : String) (allowed : List String) : Json ν → Except Thrown String
  | .str s =>
    if s ∈ allowed then .ok s
    else .error (malformed path ("be one of " ++ String.intercalate ", " allowed))
  | _ => .error (malformed path ("be one of " ++ String.intercalate ", " allowed))

def tooDeep (path : String) : Thrown := malformed path "have nesting depth at most 100"

mutual

/-- `rawJson`. -/
def rawJson (path : String) (depth : Nat) : Json ν → Except Thrown Unit
  | .num n =>
    if 100 < depth then .error (tooDeep path)
    else if JsNumber.isFinite n then .ok () else .error (malformed path "be a finite number")
  | .arr elems => if 100 < depth then .error (tooDeep path) else rawJsonElems path depth 0 elems
  | .obj members => if 100 < depth then .error (tooDeep path) else rawJsonMembers path depth members
  | _ => if 100 < depth then .error (tooDeep path) else .ok ()

def rawJsonElems (path : String) (depth index : Nat) : List (Json ν) → Except Thrown Unit
  | [] => .ok ()
  | x :: xs =>
    match rawJson (path ++ "[" ++ toString index ++ "]") (depth + 1) x with
    | .error e => .error e
    | .ok _ => rawJsonElems path depth (index + 1) xs

def rawJsonMembers (path : String) (depth : Nat) : List (String × Json ν) → Except Thrown Unit
  | [] => .ok ()
  | (key, x) :: ms =>
    match rawJson (path ++ "." ++ key) (depth + 1) x with
    | .error e => .error e
    | .ok _ => rawJsonMembers path depth ms

end

/-- Check every element of an array, under the path of its index. -/
def eachElement (path : String) (check : String → Json ν → Except Thrown (Json ν)) :
    Nat → List (Json ν) → Except Thrown (List (Json ν))
  | _, [] => .ok []
  | index, x :: xs => do
    let y ← check (path ++ "[" ++ toString index ++ "]") x
    let ys ← eachElement path check (index + 1) xs
    pure (y :: ys)

/-! ## Validation -/

def validateRowPatch (path : String) (value : Json ν) : Except Thrown (Json ν) := do
  let patch ← objectValue path value
  onlyKeys patch path ["op", "subId", "rowKey", "row"]
  let op ← required patch "op" path
  let _ ← enumValue (path ++ ".op") ["put", "del", "edit"] op
  let subId ← required patch "subId" path
  let _ ← integerId (path ++ ".subId") subId
  let rowKey ← required patch "rowKey" path
  let _ ← stringValue (path ++ ".rowKey") rowKey
  optional patch "row" (rawJson (path ++ ".row") 0)
  pure value

/-- An unknown code becomes `CDB_INVARIANT`. -/
def validateErrorFields (path : String) (error : WireObject ν) : Except Thrown (WireObject ν) := do
  let codeField ← required error "code" path
  let code ← stringValue (path ++ ".code") codeField
  let retryableField ← required error "retryable" path
  let retryable ← booleanValue (path ++ ".retryable") retryableField
  let docs ← required error "docs" path
  let _ ← stringValue (path ++ ".docs") docs
  match CdbErrorCode.ofText? code with
  | none =>
    pure ([("code", .str "CDB_INVARIANT"), ("retryable", .bool false),
      ("docs", .str (docsUrlFor .invariant))].foldl defineKey error)
  | some code =>
    if retryable = isRetryable code then pure error
    else .error (malformed (path ++ ".retryable") ("match the locked polarity for " ++ code.text))

def validateMutSuccess (path : String) (result : WireObject ν) : Except Thrown (Json ν) := do
  onlyKeys result path ["mutId", "ok", "result", "cookie"]
  let value ← required result "result" path
  rawJson (path ++ ".result") 0 value
  let cookie ← required result "cookie" path
  let _ ← stringValue (path ++ ".cookie") cookie
  pure (.obj result)

def validateMutFailure (path : String) (result : WireObject ν) : Except Thrown (Json ν) := do
  onlyKeys result path ["mutId", "ok", "error"]
  let errorField ← required result "error" path
  let error ← objectValue (path ++ ".error") errorField
  onlyKeys error (path ++ ".error") ["code", "retryable", "docs"]
  let error ← validateErrorFields (path ++ ".error") error
  pure (.obj (defineKey result ("error", .obj error)))

def validateMutResult (path : String) (value : Json ν) : Except Thrown (Json ν) := do
  let result ← objectValue path value
  let mutId ← required result "mutId" path
  let _ ← stringValue (path ++ ".mutId") mutId
  let okField ← required result "ok" path
  let ok ← booleanValue (path ++ ".ok") okField
  if ok then validateMutSuccess path result else validateMutFailure path result

def validateRef (path : String) (value : Json ν) : Except Thrown Unit := do
  let ref ← stringValue path value
  if ref.toList = [] ∨ '#' ∉ ref.toList then
    .error (malformed path "be a nonempty ChardbRef containing #")
  else pure ()

/-- A string field that may be absent. -/
def optionalString (message : WireObject ν) (key path : String) : Except Thrown Unit :=
  optional message key fun value => (stringValue (path ++ "." ++ key) value).map fun _ => ()

def requiredString (message : WireObject ν) (key path : String) : Except Thrown Unit := do
  let value ← required message key path
  let _ ← stringValue (path ++ "." ++ key) value
  pure ()

def requiredId (message : WireObject ν) (key path : String) : Except Thrown Unit := do
  let value ← required message key path
  let _ ← integerId (path ++ "." ++ key) value
  pure ()

def validateRow (path : String) (row : Json ν) : Except Thrown (Json ν) :=
  (rawJson path 0 row).map fun _ => row

def validateSubId (path : String) (subId : Json ν) : Except Thrown (Json ν) :=
  (integerId path subId).map fun _ => subId

/-- `mutResults` of a poke. -/
def validateMutResults (message : WireObject ν) : Except Thrown (WireObject ν) :=
  match Json.get? message "mutResults" with
  | none => pure message
  | some value => do
    let results ← arrayValue "poke.mutResults" value
    let results ← eachElement "poke.mutResults" validateMutResult 0 results
    pure (defineKey message ("mutResults", .arr results))

/-- Unknown reasons become `lagged`. -/
def normalizeReason (message : WireObject ν) (reason : String) : WireObject ν :=
  if reason ∈ ["lagged", "authChanged", "schemaChanged", "protocolMismatch", "shardsChanged",
      "pitrIdempotencyReset", "gsiLag"] then message
  else defineKey message ("reason", .str "lagged")

/-- `validateMessage`, with what it changes in the message. -/
def validateMessage (message : WireObject ν) : WireTag → Except Thrown (WireObject ν)
  | .hello => do
    onlyKeys message "hello" ["t", "protocolV", "clientId", "resume", "resumeFromCookie", "jwt"]
    requiredId message "protocolV" "hello"
    requiredString message "clientId" "hello"
    requiredString message "jwt" "hello"
    optionalString message "resume" "hello"
    optionalString message "resumeFromCookie" "hello"
    pure message
  | .sub => do
    onlyKeys message "sub" ["t", "subId", "ref", "args", "ttlMs"]
    requiredId message "subId" "sub"
    let ref ← required message "ref" "sub"
    validateRef "sub.ref" ref
    let args ← required message "args" "sub"
    rawJson "sub.args" 0 args
    optional message "ttlMs" (nonnegativeNumber "sub.ttlMs")
    pure message
  | .unsub => do
    onlyKeys message "unsub" ["t", "subId"]
    requiredId message "subId" "unsub"
    pure message
  | .mut => do
    onlyKeys message "mut" ["t", "mutId", "ref", "args"]
    requiredString message "mutId" "mut"
    let ref ← required message "ref" "mut"
    validateRef "mut.ref" ref
    let args ← required message "args" "mut"
    rawJson "mut.args" 0 args
    pure message
  | .updateAuth => do
    onlyKeys message "updateAuth" ["t", "jwt"]
    requiredString message "jwt" "updateAuth"
    pure message
  | .ack => do
    onlyKeys message "ack" ["t", "cookie"]
    requiredString message "cookie" "ack"
    pure message
  | .ping => do
    onlyKeys message "ping" ["t"]
    pure message
  | .welcome => do
    onlyKeys message "welcome"
      ["t", "protocolV", "baseCookie", "region", "colo", "resumedFromCookie"]
    requiredId message "protocolV" "welcome"
    requiredString message "baseCookie" "welcome"
    requiredString message "region" "welcome"
    optionalString message "colo" "welcome"
    optionalString message "resumedFromCookie" "welcome"
    pure message
  | .poke => do
    onlyKeys message "poke" ["t", "cookie", "patches", "mutResults"]
    requiredString message "cookie" "poke"
    let value ← required message "patches" "poke"
    let patches ← arrayValue "poke.patches" value
    let _ ← eachElement "poke.patches" validateRowPatch 0 patches
    validateMutResults message
  | .snapshot => do
    onlyKeys message "snapshot" ["t", "subId", "cookie", "rows"]
    requiredId message "subId" "snapshot"
    requiredString message "cookie" "snapshot"
    let value ← required message "rows" "snapshot"
    let rows ← arrayValue "snapshot.rows" value
    let _ ← eachElement "snapshot.rows" validateRow 0 rows
    pure message
  | .mustRefetch => do
    onlyKeys message "mustRefetch" ["t", "subIds", "reason"]
    let value ← required message "subIds" "mustRefetch"
    let subIds ← arrayValue "mustRefetch.subIds" value
    let _ ← eachElement "mustRefetch.subIds" validateSubId 0 subIds
    let reasonField ← required message "reason" "mustRefetch"
    let reason ← stringValue "mustRefetch.reason" reasonField
    pure (normalizeReason message reason)
  | .error => do
    onlyKeys message "error" ["t", "code", "subId", "retryable", "correlationId", "docs"]
    optional message "subId" fun value => (integerId "error.subId" value).map fun _ => ()
    requiredString message "correlationId" "error"
    validateErrorFields "error" message

/-! ## Decoding -/

def malformedMessage (reason : String) : Thrown :=
  .typeError ("malformed wire message: " ++ reason)

/-- The tag of an object, and the object with its fields checked. -/
def validateTagged (members : WireObject ν) : Except Thrown (WireTag × WireObject ν) :=
  match Json.get? members "t" with
  | some (.str s) =>
    match WireTag.ofText? s with
    | some tag => (validateMessage members tag).map fun message => (tag, message)
    | none =>
      .error (malformedMessage ("unknown tag \"" ++ s ++ "\" — closed at protocolV=" ++
        toString PROTOCOL_V))
  | _ => .error (malformedMessage "missing string tag")

/-- Parse and structurally validate a wire message. -/
def decodeWire (raw : String) : Except Thrown (WireTag × WireObject ν) :=
  match Json.parse raw with
  | none => .error (malformedMessage "invalid JSON (SyntaxError)")
  | some parsed =>
    match rawJson "$root" 0 parsed with
    | .error e => .error e
    | .ok _ =>
      match parsed with
      | .obj members => validateTagged members
      | _ => .error (malformedMessage "not an object")

/-- Decode a message that goes one way. -/
def decodeDirected (tags : List WireTag) (direction raw : String) : Except Thrown (Json ν) :=
  match decodeWire raw with
  | .error e => .error e
  | .ok (tag, message) =>
    if tag ∈ tags then .ok (.obj message)
    else .error (malformedMessage ("tag \"" ++ tag.text ++ "\" is not valid " ++ direction))

def decodeUp (raw : String) : Except Thrown (Json ν) := decodeDirected UP_TAGS "client-to-server" raw

def decodeDown (raw : String) : Except Thrown (Json ν) :=
  decodeDirected DOWN_TAGS "server-to-client" raw

end Chardb.Wire
