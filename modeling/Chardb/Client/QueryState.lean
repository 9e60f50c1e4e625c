import Chardb.Client.Session
import Chardb.Core.ResultLimits

/-!
# What the client's subscriptions hold

Snapshots, patches, refetches, errors and the resume timer rewrite the rows of subscriptions, and
listeners that are notified of it may call the client again: `stack` holds what is left of the
handlers that wait for user code. A record is named by its `subId`, which no other record ever has,
and a socket that was replaced is left out: its events do nothing. `log` records what happened.
-/

namespace Chardb.Client.Query

open Chardb.Lib Chardb.Wire

def MAX_ACTIVE_SUBSCRIPTIONS : Nat := 64

def MAX_SUBSCRIPTION_ROWS : Nat := 4096

def MAX_SUBSCRIPTION_BYTES : Nat := 512 * 1024

def MAX_PATCHES_PER_BATCH : Nat := 4096

def MAX_PATCH_BATCH_BYTES : Nat := 512 * 1024

def MAX_RETAINED_QUERY_STATE_BYTES : Nat := 8 * 1024 * 1024

inductive SubState
  | pending
  | live
  | refetching
  | error
  | closed
  deriving DecidableEq

/-- A subscription record; `held` says whether `subs` has it. -/
structure SubRecord (ν : Type) where
  subId : Int
  state : SubState
  rows : List (Json ν)
  lastSnapshotCookie : Option String
  held : Bool

def SubRecord.ended {ν : Type} (r : SubRecord ν) : Bool :=
  decide (r.state = .error) || decide (r.state = .closed)

/-- What a send on the current socket does. -/
inductive Socket
  | closing
  | sends
  | throws
  deriving DecidableEq

/-- What happened. -/
inductive Entry (ν : Type)
  | opened (subId : Int)
  | unsubscribed (subId : Int)
  /-- A server message arrived, and one was refused. -/
  | received
  | rejected
  | snapshot (subId : Int) (cookie : String) (rows : List (Json ν))
  | poke (patches : List (RowPatch ν))
  | cleared (subId : Int)
  | errored (subId : Int)
  /-- A listener was called; `last` says that the session had ended. -/
  | notified (subId : Int) (last : Bool)
  | acked (cookie : String)

/-- What is left of a handler that called user code. -/
inductive Frame (ν : Type)
  /-- `applyPatches` has these subscriptions to notify, and `onWire` a cookie to keep. -/
  | notify (subIds : List Int) (cookie : String)
  | snapshot (cookie : String)
  | refetch (reason : MustRefetchReason) (subId : Int) (subIds : List SubId)
  | subscriptionError (retryable : Bool) (subId : Int)
  | expire (subIds : List Int)
  /-- `failSession` called `onSessionError`. -/
  | sessionError (subState : SubState)
  /-- `failSession` has these subscriptions to notify. -/
  | failSession (subState : SubState) (subIds : List Int)

structure Session (ν : Type) where
  records : List (SubRecord ν)
  nextSubId : Int
  retryTimers : List Int
  lastCookie : Option String
  ws : Bool
  state : ConnectionState
  terminated : Bool
  resumeRetainedSubs : List Int
  resumeExpiryTimer : Bool
  resumeExpiryCookie : Option String
  stack : List (Frame ν)
  log : List (Entry ν)

/-! ## Serialized sizes -/

section
variable {ν : Type} [JsNumber ν]

mutual

/-- The bytes of the JSON text. -/
def serializedBytes : Json ν → Nat
  | .null => 4
  | .bool b => if b then 4 else 5
  | .num n => (JsNumber.text n).length
  | .str s => stringBytes s
  | .arr elems => 2 + (elems.length - 1) + elemsBytes elems
  | .obj members => 2 + keyBytes (members.map Prod.fst) + membersBytes members

def elemsBytes : List (Json ν) → Nat
  | [] => 0
  | x :: xs => serializedBytes x + elemsBytes xs

def membersBytes : List (String × Json ν) → Nat
  | [] => 0
  | (_, x) :: ms => serializedBytes x + membersBytes ms

end

mutual

/-- Every number is finite and not negative zero. -/
def exactNumbers : Json ν → Bool
  | .num n => JsNumber.exact n
  | .arr elems => exactElems elems
  | .obj members => exactMembers members
  | _ => true

def exactElems : List (Json ν) → Bool
  | [] => true
  | x :: xs => exactNumbers x && exactElems xs

def exactMembers : List (String × Json ν) → Bool
  | [] => true
  | (_, x) :: ms => exactNumbers x && exactMembers ms

end

def rowsBytes (rows : List (Json ν)) : Nat := serializedBytes (.arr rows)

/-- `assertSerializedSize`; a value over the limit is refused for its size, whatever comes first. -/
def assertSerializedSize (value : Json ν) (limit : Nat) (subject : String) (code : CdbErrorCode) :
    Except Thrown Nat :=
  if limit < serializedBytes value then
    .error (.cdb {
      code, message := subject ++ " exceeds the " ++ toString limit ++ "-byte client limit" })
  else if exactNumbers value then .ok (serializedBytes value)
  else .error (.cdb {
    code
    message := subject ++
      " is not JSON-compatible: numbers must be finite and must not be negative zero" })

def assertSubscriptionRows (rows : List (Json ν)) (subject : String) : Except Thrown Unit :=
  if MAX_SUBSCRIPTION_ROWS < rows.length then
    .error (.cdb {
      code := .invariant
      message := subject ++ " exceeds the " ++ toString MAX_SUBSCRIPTION_ROWS ++
        "-row client limit" })
  else do
    let _ ← assertSerializedSize (.arr rows) MAX_SUBSCRIPTION_BYTES subject .invariant

/-! ## Patching rows -/

/-- The `__key` of a row. -/
def rowKey? : Json ν → Option String
  | .obj members =>
    match Json.get? members "__key" with
    | some (.str key) => some key
    | _ => none
  | _ => none

/-- The row that a patch sets. -/
def patchRow (p : RowPatch ν) : Json ν :=
  match p.row with
  | some (.obj members) => .obj (defineKey members ("__key", .str p.rowKey))
  | _ => .null

def assertPatchRowShape (p : RowPatch ν) : Except Thrown Unit :=
  match p.op, p.row with
  | .del, none => .ok ()
  | _, some (.obj _) => .ok ()
  | _, _ => .error (.cdb { code := .invariant, message := "row patch must contain an object row" })

def assertPatchBatchLimits (patches : List (RowPatch ν)) : Except Thrown Unit :=
  if MAX_PATCHES_PER_BATCH < patches.length then
    .error (.cdb { code := .invariant, message := "patch batch exceeds the client count limit" })
  else do
    let _ ← assertSerializedSize (.arr (patches.map RowPatch.toJson)) MAX_PATCH_BATCH_BYTES
      "patch batch" .invariant

def isNull : Json ν → Bool
  | .null => true
  | _ => false

/-- `findIndex` reads the `__key` of each row up to the one it looks for; `null` has no
properties. -/
def findRow (rows : List (Json ν)) (key : String) : Except Thrown (Option Nat) :=
  match rows.findIdx? fun r => isNull r || decide (rowKey? r = some key) with
  | none => .ok none
  | some i =>
    if (rows[i]?.map isNull).getD false then
      .error (.typeError "Cannot read properties of null (reading '__key')")
    else .ok (some i)

def applyPatch (p : RowPatch ν) (rows : List (Json ν)) : Except Thrown (List (Json ν)) := do
  let idx ← findRow rows p.rowKey
  match p.op, idx with
  | .del, some i => pure (rows.eraseIdx i)
  | .del, none => pure rows
  | _, some i => pure (rows.set i (patchRow p))
  | _, none => pure (rows ++ [patchRow p])

/-- What `applyPatches` plans for subscriptions, in the order of the map. -/
abbrev Planned (ν : Type) := List (Int × List (Json ν))

def Planned.set (planned : Planned ν) (subId : Int) (rows : List (Json ν)) : Planned ν :=
  if subId ∈ planned.map Prod.fst then
    planned.map fun x => if x.1 = subId then (subId, rows) else x
  else planned ++ [(subId, rows)]

def Planned.rows (planned : Planned ν) (r : SubRecord ν) : List (Json ν) :=
  (planned.lookup r.subId).getD r.rows

end

namespace Session

variable {ν : Type}

def new : Session ν where
  records := []
  nextSubId := 1
  retryTimers := []
  lastCookie := none
  ws := false
  state := .connecting
  terminated := false
  resumeRetainedSubs := []
  resumeExpiryTimer := false
  resumeExpiryCookie := none
  stack := []
  log := []

/-! ## Subscriptions -/

/-- The values of `subs`. -/
def subs (s : Session ν) : List (SubRecord ν) := s.records.filter (·.held)

/-- `subs.get`. -/
def sub? (s : Session ν) (subId : Int) : Option (SubRecord ν) :=
  s.records.find? fun r => decide (r.subId = subId) && r.held

def update (s : Session ν) (subId : Int) (f : SubRecord ν → SubRecord ν) : Session ν :=
  { s with records := s.records.map fun r => if r.subId = subId then f r else r }

def record (s : Session ν) (e : Entry ν) : Session ν := { s with log := s.log ++ [e] }

def push (s : Session ν) (f : Frame ν) : Session ν := { s with stack := f :: s.stack }

/-- Each record has one listener. -/
def notify (s : Session ν) (subId : Int) : Session ν := s.record (.notified subId false)

def clearSubscriptionRetryTimer (s : Session ν) (subId : Int) : Session ν :=
  { s with retryTimers := s.retryTimers.filter (· ≠ subId) }

def scheduleSubscriptionRetry (s : Session ν) (subId : Int) : Session ν :=
  if subId ∈ s.retryTimers then s else { s with retryTimers := s.retryTimers ++ [subId] }

def releaseResumeRetainedSub (s : Session ν) (subId : Int) : Session ν :=
  if subId ∈ s.resumeRetainedSubs then
    let rest := s.resumeRetainedSubs.filter (· ≠ subId)
    if rest = [] then
      { s with resumeRetainedSubs := rest, resumeExpiryTimer := false, resumeExpiryCookie := none }
    else { s with resumeRetainedSubs := rest }
  else s

/-- Set the state of a subscription and take its rows and its cookie away. -/
def clear (s : Session ν) (subId : Int) (state : SubState) (e : Entry ν) : Session ν :=
  (s.update subId fun r => { r with state, rows := [], lastSnapshotCookie := none }).record e

/-! ## The end of a session -/

/-- The rest of `failSession`, after `onSessionError`: `subs` is cleared. -/
def endSubscriptions (s : Session ν) (subState : SubState) : Session ν :=
  { s with
    records := s.records.map fun r => { r with held := false }
    stack := .failSession subState (s.subs.map (·.subId)) :: s.stack }

/-- `onSessionError` is called unless the user closed the client. -/
def failSession (s : Session ν) (subState : SubState) : Session ν :=
  if s.terminated then s
  else
    let s := { s with
      terminated := true
      state := .closed
      resumeExpiryTimer := false
      resumeExpiryCookie := none
      resumeRetainedSubs := [] }
    if subState = .error then s.push (.sessionError subState) else s.endSubscriptions subState

/-- `receiveWire` catches what `onWire` throws. -/
def refuse (s : Session ν) : Session ν := (s.record .rejected).failSession .error

/-! ## The resume timer -/

def beginResumeExpiry (s : Session ν) : Session ν :=
  if s.lastCookie = none ∨ s.resumeExpiryTimer then s
  else
    let added := (s.subs.filter fun r =>
      !r.rows.isEmpty || r.lastSnapshotCookie.isSome || decide (r.state = .live)).map (·.subId)
    let retained := s.resumeRetainedSubs ++ added.filter fun i => i ∉ s.resumeRetainedSubs
    if retained = [] then s
    else { s with
      resumeRetainedSubs := retained
      resumeExpiryCookie := s.lastCookie
      resumeExpiryTimer := true }

/-- The loop of `expireRetainedResumeState`. -/
def expire : List Int → Session ν → Session ν
  | [], s => s
  | subId :: subIds, s =>
    if s.terminated then s
    else match s.sub? subId with
      | none => expire subIds s
      | some _ =>
        ((s.clear subId .refetching (.cleared subId)).notify subId).push (.expire subIds)

def expireRetainedResumeState (s : Session ν) : Session ν :=
  let retained := s.resumeRetainedSubs
  let outside := s.subs.any fun r =>
    decide (r.subId ∉ retained) && (decide (r.state = .live) || r.lastSnapshotCookie.isSome)
  let cookieAdvanced := s.lastCookie.isSome && decide (s.lastCookie ≠ s.resumeExpiryCookie)
  let lastCookie :=
    if cookieAdvanced then s.lastCookie else if outside then s.resumeExpiryCookie else none
  expire retained { s with
    resumeExpiryTimer := false
    lastCookie
    resumeExpiryCookie := none
    resumeRetainedSubs := [] }

def onClose (s : Session ν) : Session ν :=
  if s.state = .closed then s
  else { { s with retryTimers := [] }.beginResumeExpiry with state := .reconnecting }

/-- `disconnectSocket`, when the socket is the current one. -/
def disconnectSocket (s : Session ν) : Session ν :=
  if s.terminated ∨ ¬ s.ws then s else { s with ws := false }.onClose

/-! ## Server messages -/

section
variable [JsNumber ν]

/-- The sum that `assertAggregateQueryState` makes. -/
def addStates (code : CdbErrorCode) : List (List (Json ν)) → Nat → Except Thrown Nat
  | [], bytes => .ok bytes
  | rows :: states, bytes => do
    let added ← assertSerializedSize (.arr rows) MAX_RETAINED_QUERY_STATE_BYTES
      "retained query state" code
    if MAX_RETAINED_QUERY_STATE_BYTES < bytes + added then
      throw (.cdb {
        code
        message := "retained query state exceeds the " ++
          toString MAX_RETAINED_QUERY_STATE_BYTES ++ "-byte client limit" })
    addStates code states (bytes + added)

def assertAggregateQueryState (s : Session ν) (planned : Planned ν)
    (additional : Option (List (Json ν))) (code : CdbErrorCode) : Except Thrown Unit := do
  let _ ← addStates code (s.subs.map planned.rows ++ additional.toList) 0

/-- One patch of `applyPatches`. -/
def planPatch (s : Session ν) (planned : Planned ν) (p : RowPatch ν) :
    Except Thrown (Planned ν) :=
  match s.sub? p.subId.1 with
  | none => .ok planned
  | some r =>
    if r.ended then .ok planned
    else do
      let rows ← applyPatch p (planned.rows r)
      pure (planned.set r.subId rows)

def planPatches (s : Session ν) (patches : List (RowPatch ν)) : Except Thrown (Planned ν) := do
  assertPatchBatchLimits patches
  patches.forM assertPatchRowShape
  let planned ← patches.foldlM s.planPatch []
  planned.forM fun x => assertSubscriptionRows x.2 "patch result"
  s.assertAggregateQueryState planned none .invariant
  pure planned

/-- `applyPatches`, up to the listeners. -/
def applyPatches (s : Session ν) (patches : List (RowPatch ν)) (cookie : String) :
    Except Thrown (Session ν) := do
  let planned ← s.planPatches patches
  pure { s with
    records := s.records.map fun r => if r.held then { r with rows := planned.rows r } else r
    log := s.log ++ [.poke patches]
    stack := .notify (planned.map Prod.fst) cookie :: s.stack }

end

def acknowledgeSnapshot (s : Session ν) (cookie : String) (socket : Socket) : Session ν :=
  if s.ws ∧ s.state = .opened ∧ socket = .sends then s.record (.acked cookie) else s

/-- `applySubscriptionError`, after the listener. -/
def retrySubscription (s : Session ν) (retryable : Bool) (subId : Int) : Session ν :=
  if retryable ∧ ¬ s.terminated ∧ (s.sub? subId).isSome then s.scheduleSubscriptionRetry subId
  else s

/-- A subscription has something to take away. -/
def SubRecord.notifyRefetch (r : SubRecord ν) : Bool :=
  decide (r.state ≠ .refetching) || !r.rows.isEmpty || r.lastSnapshotCookie.isSome

def applySubscriptionError (s : Session ν) (retryable : Bool) (subId : Int) : Session ν :=
  match s.sub? subId with
  | none => s
  | some r =>
    if r.ended then s
    else
      let s := if retryable then s else s.clearSubscriptionRetryTimer subId
      let s := (if retryable then s.clear subId .refetching (.cleared subId)
        else s.clear subId .error (.errored subId)).releaseResumeRetainedSub subId
      if ¬ retryable ∨ SubRecord.notifyRefetch r then
        (s.notify subId).push (.subscriptionError retryable subId)
      else s.retrySubscription retryable subId

/-- The loop of a `mustRefetch` message. -/
def refetch (reason : MustRefetchReason) (socket : Socket) : List SubId → Session ν → Session ν
  | [], s => s
  | subId :: subIds, s =>
    match s.sub? subId.1 with
    | none => refetch reason socket subIds s
    | some r =>
      if r.ended ∨ (reason = .shardsChanged ∧ subId.1 ∈ s.retryTimers) then
        refetch reason socket subIds s
      else
        let s := if reason = .shardsChanged then s else s.clearSubscriptionRetryTimer subId.1
        let s := (s.clear subId.1 .refetching (.cleared subId.1)).releaseResumeRetainedSub subId.1
        if SubRecord.notifyRefetch r ∨ reason ≠ .shardsChanged then
          (s.notify subId.1).push (.refetch reason subId.1 subIds)
        else if s.ws ∧ s.state = .opened ∧ socket ≠ .closing then
          refetch reason socket subIds (s.scheduleSubscriptionRetry subId.1)
        else refetch reason socket subIds s

/-- The loop of a `mustRefetch` message goes on to send a subscription. -/
def Sends (s : Session ν) (reason : MustRefetchReason) (subId : Int) (socket : Socket) : Prop :=
  ¬ s.terminated ∧ (s.sub? subId).isSome ∧ s.ws ∧ s.state = .opened ∧ socket ≠ .closing ∧
    reason ≠ .shardsChanged

instance (s : Session ν) (reason : MustRefetchReason) (subId : Int) (socket : Socket) :
    Decidable (s.Sends reason subId socket) :=
  inferInstanceAs (Decidable (_ ∧ _ ∧ _ ∧ _ ∧ _ ∧ _))

/-- The loop of a `mustRefetch` message, after a listener. -/
def refetchNext (s : Session ν) (reason : MustRefetchReason) (subId : Int) (subIds : List SubId)
    (socket : Socket) : Session ν :=
  if s.Sends reason subId socket then
    if socket = .throws then s.refuse else refetch reason socket subIds s
  else if ¬ s.terminated ∧ (s.sub? subId).isSome ∧ s.ws ∧ s.state = .opened ∧
      socket ≠ .closing then
    refetch reason socket subIds (s.scheduleSubscriptionRetry subId)
  else refetch reason socket subIds s

section
variable [JsNumber ν]

/-- `onWire`, and whether it did not throw; `refreshing` says whether an `updateAuth` is awaiting
its answer. -/
def onWire (s : Session ν) (supported refreshing : Bool) (socket : Socket) :
    Down ν → Session ν × Bool
  | .welcome baseCookie _ _ resumedFromCookie =>
    if s.state ≠ .connecting then (s, false)
    else if ¬ supported then (s.failSession .error, true)
    else
      let opened := (s.subs.filter fun r => !r.ended).map (·.subId)
      ({ s with
        lastCookie := some (resumedFromCookie.getD baseCookie)
        state := .opened
        retryTimers := s.retryTimers.filter (· ∉ opened) }, decide (socket ≠ .throws))
  | .poke cookie patches _ =>
    if s.state = .connecting then (s, false)
    else match s.applyPatches patches cookie with
      | .ok s => (s, true)
      | .error _ => (s, false)
  | .snapshot subId cookie rows =>
    if s.state = .connecting then (s, false)
    else match s.sub? subId.1 with
      | none => (s, true)
      | some r =>
        if r.ended then (s, true)
        else if r.lastSnapshotCookie = some cookie then
          ((s.releaseResumeRetainedSub subId.1).acknowledgeSnapshot cookie socket, true)
        else match (do
          assertSubscriptionRows rows "snapshot"
          s.assertAggregateQueryState [(subId.1, rows)] none .invariant : Except Thrown Unit) with
          | .error _ => (s, false)
          | .ok _ =>
            let s := { s.clearSubscriptionRetryTimer subId.1 with lastCookie := some cookie }
            let s := (s.update subId.1 fun r =>
              { r with rows, lastSnapshotCookie := some cookie, state := .live }).record
                (.snapshot subId.1 cookie rows)
            (((s.releaseResumeRetainedSub subId.1).notify subId.1).push (.snapshot cookie), true)
  | .mustRefetch subIds reason =>
    if s.state = .connecting then
      if reason = .protocolMismatch then (s.failSession .error, true) else (s, false)
    else if reason = .protocolMismatch then (s, false)
    else (refetch reason socket subIds s, true)
  | .error code none _ =>
    if refreshing then (s.failSession .error, true)
    else if isRetryable code then (s.disconnectSocket, true)
    else (s.failSession .error, true)
  | .error code (some subId) _ =>
    if s.state = .connecting then (s, false)
    else (s.applySubscriptionError (isRetryable code) subId.1, true)

/-- A text that cannot be decoded is no message. -/
def receiveWire (s : Session ν) (supported refreshing : Bool) (socket : Socket)
    (message : Option (Down ν)) : Session ν :=
  if s.terminated ∨ ¬ s.ws then s
  else
    let s := s.record .received
    match message with
    | none => s.refuse
    | some m =>
      match s.onWire supported refreshing socket m with
      | (s, true) => s
      | (s, false) => s.refuse

/-! ## Calls of the client -/

/-- `accepted` says whether the reference and the arguments are accepted. -/
def subscribe (s : Session ν) (accepted : Bool) (socket : Socket) : Session ν :=
  if s.terminated ∨ ¬ accepted ∨ MAX_ACTIVE_SUBSCRIPTIONS ≤ s.subs.length then s
  else match s.assertAggregateQueryState [] (some []) .rateLimited with
    | .error _ => s
    | .ok _ =>
      if s.ws ∧ s.state = .opened ∧ socket = .throws then { s with nextSubId := s.nextSubId + 1 }
      else { s with
        nextSubId := s.nextSubId + 1
        records := s.records ++ [{
          subId := s.nextSubId
          state := .pending
          rows := []
          lastSnapshotCookie := none
          held := true }]
        log := s.log ++ [.opened s.nextSubId] }

end

/-- The session ends because an `unsub` message cannot be sent. -/
def UnsubscribeFails (s : Session ν) (subId : Int) (socket : Socket) : Prop :=
  (s.sub? subId).isSome ∧ s.ws ∧ s.state = .opened ∧ socket = .throws

instance (s : Session ν) (subId : Int) (socket : Socket) :
    Decidable (s.UnsubscribeFails subId socket) :=
  inferInstanceAs (Decidable (_ ∧ _ ∧ _ ∧ _))

/-- `unsubscribe`, which only who has subscribed can call. -/
def unsubscribe (s : Session ν) (subId : Int) (socket : Socket) : Session ν :=
  if subId ∉ s.records.map (·.subId) then s
  else
    let removed := (((s.update subId fun r => { r with held := false }).clearSubscriptionRetryTimer
      subId).releaseResumeRetainedSub subId).record (.unsubscribed subId)
    if (s.sub? subId).isNone then s.record (.unsubscribed subId)
    else if s.UnsubscribeFails subId socket then removed.failSession .error
    else removed

def close (s : Session ν) : Session ν := s.failSession .closed

end Session

/-! ## Runs -/

variable {ν : Type}

/-- Calls that user code makes, at any time. -/
inductive Call
  | subscribe (accepted : Bool) (socket : Socket)
  | unsubscribe (subId : Int) (socket : Socket)
  | close

/-- What the event loop calls, when no handler is running. -/
inductive Event (ν : Type)
  | connecting
  | socketMade
  | connectFailed
  | message (supported refreshing : Bool) (socket : Socket) (message : Option (Down ν))
  | disconnected
  | subscriptionRetry (subId : Int) (socket : Socket)
  | resumeExpiry
  /-- A refresh of the token fails, or its deadline passes. -/
  | authFailed

inductive Action (ν : Type)
  | call (c : Call)
  | event (e : Event ν)
  /-- User code returns to the handler that called it. -/
  | resume (socket : Socket)

section
variable [JsNumber ν]

def Session.call (s : Session ν) : Call → Session ν
  | .subscribe accepted socket => s.subscribe accepted socket
  | .unsubscribe subId socket => s.unsubscribe subId socket
  | .close => s.close

def Session.event (s : Session ν) : Event ν → Session ν
  | .connecting => if s.terminated ∨ s.ws then s else { s with state := .connecting }
  | .socketMade =>
    if s.terminated ∨ s.ws ∨ s.state ≠ .connecting then s else { s with ws := true }
  | .connectFailed => if s.ws then s else s.failSession .error
  | .message supported refreshing socket message =>
    s.receiveWire supported refreshing socket message
  | .disconnected => s.disconnectSocket
  | .subscriptionRetry subId socket =>
    if subId ∈ s.retryTimers then
      let s := s.clearSubscriptionRetryTimer subId
      if ¬ s.terminated ∧ ((s.sub? subId).any fun r => !r.ended) ∧ s.ws ∧ s.state = .opened ∧
          socket = .throws then
        s.failSession .error
      else s
    else s
  | .resumeExpiry => if s.resumeExpiryTimer then s.expireRetainedResumeState else s
  | .authFailed => if s.ws ∧ s.state = .opened then s.failSession .error else s

/-- What is left of a handler goes on. -/
def Session.resume (s : Session ν) (socket : Socket) : Frame ν → Session ν
  | .notify [] cookie => { s with lastCookie := some cookie }
  | .notify (subId :: subIds) cookie => (s.notify subId).push (.notify subIds cookie)
  | .snapshot cookie => s.acknowledgeSnapshot cookie socket
  | .refetch reason subId subIds => s.refetchNext reason subId subIds socket
  | .subscriptionError retryable subId => s.retrySubscription retryable subId
  | .expire subIds => Session.expire subIds s
  | .sessionError subState => s.endSubscriptions subState
  | .failSession _ [] => { s with ws := false }
  | .failSession subState (subId :: subIds) =>
    (((s.clearSubscriptionRetryTimer subId).update subId fun r =>
      { r with state := subState, rows := [] }).record (.notified subId true)).push
        (.failSession subState subIds)

/-- An event waits until no handler is running. -/
def Session.step (s : Session ν) : Action ν → Session ν
  | .call c => s.call c
  | .event e => if s.stack.isEmpty then s.event e else s
  | .resume socket =>
    match s.stack with
    | [] => s
    | f :: rest => { s with stack := rest }.resume socket f

def Session.run (s : Session ν) (actions : List (Action ν)) : Session ν :=
  actions.foldl Session.step s

end

end Chardb.Client.Query
