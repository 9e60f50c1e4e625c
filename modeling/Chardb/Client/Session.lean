import Chardb.Wire.Wire

/-!
# The client session

What the client does with mutations: each call of `mutate` makes a promise, which waits in `pending`
until a result, a timeout, a failed send or the end of the session settles it. Handlers run to
completion, but call user code on the way, which may call the client again: `stack` holds what is
left of the handlers that wait for user code. What subscriptions hold is left out; that a frame's
rows are refused, or that a send throws, is any Boolean.
-/

namespace Chardb.Client

open Chardb.Lib Chardb.Wire

def MAX_PENDING_MUTATIONS : Nat := 32

/-- What a promise is settled with. -/
abbrev Outcome (ν : Type) := Except Thrown (Json ν)

structure Options where
  autoStartOnOperation : Bool
  initialJwtFailureRetries : Nat
  mutationTimeoutMs : Nat

inductive ConnectionState
  | connecting
  | opened
  | reconnecting
  | closed
  deriving DecidableEq

/-- `promise` stands for the promise that `resolve` and `reject` settle. -/
structure PendingMutation (ν : Type) where
  promise : Nat
  mutId : String
  ref : String
  args : Json ν
  inFlight : Bool

/-- A promise that was settled, with the id of its mutation if it was given one. -/
structure Settlement (ν : Type) where
  promise : Nat
  mutId : Option String
  outcome : Outcome ν

/-- A `mut` message that was sent, and whether its mutation was pending then. -/
structure Sent (ν : Type) where
  connection : Nat
  mutId : String
  message : Up ν
  whilePending : Bool

/-- What is left of a handler that calls user code. -/
inductive Frame (ν : Type)
  /-- `mutate`, after `start` called `getJwt`. -/
  | mutate (mutation : PendingMutation ν)
  /-- A poke, after its patches were applied and listeners notified. -/
  | poke (mutResults : List (MutResult ν))
  /-- `failSession`, after the listeners were notified. -/
  | failSession (code : CdbErrorCode) (message : String)
  /-- Another server message, after listeners were notified. -/
  | onWire
  /-- Nothing. -/
  | done

inductive ServerMessage (ν : Type)
  /-- Text that is too long, or that `decodeDown` refuses. -/
  | invalid
  /-- `room` is the number of messages that can be sent before a send throws. -/
  | welcome (supported : Bool) (room : Nat)
  /-- `patched` says whether the patches can be applied. -/
  | poke (patched : Bool) (mutResults : List (MutResult ν))
  /-- A snapshot, a subscription error, or a `mustRefetch` of subscriptions. -/
  | subscription (accepted : Bool)
  | protocolMismatch
  /-- An error of the session; `refreshing` says whether an `updateAuth` is awaiting its answer. -/
  | error (code : CdbErrorCode) (retryable refreshing : Bool)

/-- A socket is named by the attempt that made it, and `jwtReads` has the attempts that await
`getJwt`. The last fields record what happened. -/
structure Session (ν : Type) where
  pending : List (PendingMutation ν)
  timeouts : List String
  ws : Option Nat
  state : ConnectionState
  terminated : Bool
  started : Bool
  openedSession : Bool
  reconnectTimer : Bool
  connectionAttempt : Nat
  jwtReads : List Nat
  initialJwtFailures : Nat
  stack : List (Frame ν)
  promises : Nat
  issued : List String
  settled : List (Settlement ν)
  received : List (String × Outcome ν)
  sent : List (Sent ν)

namespace Session

variable {ν : Type}

def new : Session ν where
  pending := []
  timeouts := []
  ws := none
  state := .connecting
  terminated := false
  started := false
  openedSession := false
  reconnectTimer := false
  connectionAttempt := 0
  jwtReads := []
  initialJwtFailures := 0
  stack := []
  promises := 0
  issued := []
  settled := []
  received := []
  sent := []

/-! ## Settling -/

/-- An outcome arrives for a mutation. -/
def receive (s : Session ν) (mutId : String) (outcome : Outcome ν) : Session ν :=
  if mutId ∈ s.issued then { s with received := s.received ++ [(mutId, outcome)] } else s

def takePendingMutation (s : Session ν) (mutId : String) : Session ν :=
  { s with
    pending := s.pending.filter fun m => m.mutId ≠ mutId
    timeouts := s.timeouts.filter (· ≠ mutId) }

/-- Take a pending mutation and settle its promise; nothing happens to a mutation that is not
pending. -/
def settle (s : Session ν) (mutId : String) (outcome : Outcome ν) : Session ν :=
  let s := s.receive mutId outcome
  match s.pending.find? fun m => m.mutId = mutId with
  | none => s
  | some m =>
    { s.takePendingMutation mutId with
      settled := s.settled ++ [{ promise := m.promise, mutId := some mutId, outcome }] }

/-- A promise that is made rejected. -/
def rejected (s : Session ν) (error : Thrown) : Session ν :=
  { s with
    promises := s.promises + 1
    settled := s.settled ++ [{ promise := s.promises, mutId := none, outcome := .error error }] }

/-- `failSession`, up to the listeners. -/
def failSession (s : Session ν) (code : CdbErrorCode) (message : String) : Session ν :=
  if s.terminated then s
  else { s with
    terminated := true
    state := .closed
    reconnectTimer := false
    stack := .failSession code message :: s.stack }

/-- The rest of `failSession`. -/
def rejectAll (s : Session ν) (code : CdbErrorCode) (message : String) : Session ν :=
  let mutations := s.pending
  let error : Outcome ν := .error (.cdb { code, message })
  { s with
    pending := []
    timeouts := s.timeouts.filter fun mutId => mutId ∉ mutations.map (·.mutId)
    settled := s.settled ++
      mutations.map fun m => { promise := m.promise, mutId := some m.mutId, outcome := error }
    received := s.received ++ mutations.map fun m => (m.mutId, error) }

/-! ## Sending -/

/-- Send a `mut` message, and mark its mutation as sent. -/
def send (s : Session ν) (connection : Nat) (m : PendingMutation ν) : Session ν :=
  { s with
    sent := s.sent ++ [{
      connection
      mutId := m.mutId
      message := .mut m.mutId m.ref m.args
      whilePending := decide (m.mutId ∈ s.pending.map (·.mutId)) }]
    pending := s.pending.map fun p => if p.mutId = m.mutId then { p with inFlight := true } else p }

/-- The loop of `sendSessionState` over the pending mutations; a throw ends it. `room` is the number
of sends that do not throw. -/
def sendPending (connection : Nat) : List (PendingMutation ν) → Nat → Session ν → Session ν × Bool
  | [], _, s => (s, true)
  | m :: ms, room, s =>
    if m.inFlight then sendPending connection ms room s
    else match room with
      | 0 => (s, false)
      | room + 1 => sendPending connection ms room (s.send connection m)

/-! ## Connecting -/

/-- `startConnect`, and `connect` up to `getJwt`. -/
def startConnect (s : Session ν) (rest : Frame ν) : Session ν :=
  if s.terminated then { s with connectionAttempt := s.connectionAttempt + 1 }
  else { s with
    connectionAttempt := s.connectionAttempt + 1
    state := .connecting
    jwtReads := s.jwtReads ++ [s.connectionAttempt + 1]
    stack := rest :: s.stack }

def start (s : Session ν) : Session ν :=
  if s.started ∨ s.terminated then s else { s with started := true }.startConnect .done

def scheduleReconnect (s : Session ν) : Session ν :=
  if s.terminated then s else { s with state := .reconnecting, reconnectTimer := true }

/-- The attempt and its socket are the current ones, and the session has not ended. -/
def Current (s : Session ν) (attempt : Nat) : Prop :=
  ¬ s.terminated ∧ attempt = s.connectionAttempt ∧ s.ws = some attempt

instance (s : Session ν) (attempt : Nat) : Decidable (s.Current attempt) :=
  inferInstanceAs (Decidable (_ ∧ _ ∧ _))

def onClose (s : Session ν) : Session ν :=
  if s.state = .closed then s
  else
    let s := { s with pending := s.pending.map fun m : PendingMutation ν => { m with inFlight := false } }
    s.scheduleReconnect

/-- `revokeSocket`, and `onClose` if the socket was the current one. -/
def disconnectSocket (s : Session ν) (attempt : Nat) : Session ν :=
  if s.Current attempt then
    { s with connectionAttempt := s.connectionAttempt + 1, ws := none }.onClose
  else s

/-- `startConnect` catches what `connect` throws. -/
def failConnect (s : Session ν) : Thrown → Session ν
  | .cdb error => s.failSession error.code error.message
  | _ => s.failSession .invariant "failed to establish CharDB client session"

/-- `connect` after `getJwt` succeeded; `constructed` says whether the `WebSocket` could be made. -/
def jwtRead (s : Session ν) (attempt : Nat) (constructed : Bool) : Session ν :=
  let s := { s with jwtReads := s.jwtReads.filter (· ≠ attempt) }
  if s.terminated ∨ attempt ≠ s.connectionAttempt then s
  else if constructed then { s with ws := some attempt }
  else s.failConnect (.typeError "Invalid URL")

/-- `connect` after `getJwt` failed. -/
def jwtFailed (o : Options) (s : Session ν) (attempt : Nat) (error : Thrown) : Session ν :=
  let s := { s with jwtReads := s.jwtReads.filter (· ≠ attempt) }
  if s.terminated ∨ attempt ≠ s.connectionAttempt then s
  else if s.openedSession then s.scheduleReconnect
  else if (error.code?.map isRetryable).getD false ∧
      s.initialJwtFailures < o.initialJwtFailureRetries then
    { s with initialJwtFailures := s.initialJwtFailures + 1 }.scheduleReconnect
  else s.failConnect error

/-! ## Server messages -/

/-- `receiveWire` catches what `onWire` throws. -/
def refuse (s : Session ν) : Session ν :=
  s.failSession .invariant
    (if s.state = .connecting then "server sent an invalid CharDB handshake message"
    else "server sent an invalid CharDB session message")

def welcomed (s : Session ν) (connection room : Nat) : Session ν :=
  let s := { s with state := .opened, openedSession := true }
  let (s, sent) := sendPending connection s.pending room s
  if sent then s else s.refuse

def onWire (s : Session ν) (attempt : Nat) : ServerMessage ν → Session ν
  | .invalid => s.refuse
  | .welcome supported room =>
    if s.state ≠ .connecting then s.refuse
    else if supported then s.welcomed attempt room
    else s.failSession .unsupportedFeature
      "server selected an unsupported CharDB protocol version"
  | .poke patched mutResults =>
    if s.state = .connecting then s.refuse
    else if patched then { s with stack := .poke mutResults :: s.stack }
    else s.refuse
  | .subscription accepted =>
    if s.state = .connecting then s.refuse
    else if accepted then { s with stack := .onWire :: s.stack }
    else s.refuse
  | .protocolMismatch =>
    if s.state ≠ .connecting then s.refuse
    else s.failSession .unsupportedFeature "server rejected the CharDB protocol version"
  | .error code retryable refreshing =>
    if refreshing then s.failSession code ("authentication refresh failed: " ++ code.text)
    else if retryable then s.disconnectSocket attempt
    else s.failSession code ("CharDB session failed: " ++ code.text)

def receiveWire (s : Session ν) (attempt : Nat) (message : ServerMessage ν) : Session ν :=
  if s.Current attempt then s.onWire attempt message else s

/-! ## Calls of the client -/

/-- The rest of `mutate`, after `start`. -/
def sendMutation (s : Session ν) (m : PendingMutation ν) (throws : Bool) : Session ν :=
  match s.ws with
  | none => s
  | some connection =>
    if s.state ≠ .opened then s
    else if throws then
      s.settle m.mutId (.error (.cdb {
        code := .streamAborted
        message := "failed to send mutation " ++ m.mutId }))
    else s.send connection m

/-- `mutate`: `owned` is what `handleRef` and `snapshotMutationArguments` leave. -/
def mutate (o : Options) (s : Session ν) (mutId : String) (owned : Except Thrown (String × Json ν))
    (throws : Bool) : Session ν :=
  if s.terminated then
    s.rejected (.cdb {
      code := .streamAborted
      message := "cannot issue a mutation after the CharDB client has closed" })
  else match owned with
    | .error error => s.rejected error
    | .ok (ref, args) =>
      if MAX_PENDING_MUTATIONS ≤ s.pending.length then
        s.rejected (.cdb {
          code := .rateLimited
          message := "cannot queue more than " ++ toString MAX_PENDING_MUTATIONS ++
            " unsettled mutations" })
      else
        let m : PendingMutation ν := { promise := s.promises, mutId, ref, args, inFlight := false }
        let s := { s with
          promises := s.promises + 1
          issued := s.issued ++ [mutId]
          pending := s.pending ++ [m]
          timeouts := s.timeouts ++ [mutId] }
        if o.autoStartOnOperation ∧ ¬ s.started then
          { s with started := true }.startConnect (.mutate m)
        else s.sendMutation m throws

/-- The timeout of a mutation fires. -/
def mutationTimeout (o : Options) (s : Session ν) (mutId : String) : Session ν :=
  if mutId ∈ s.timeouts then
    s.settle mutId (.error (.cdb {
      code := .mutationOutcomeUnknown
      message := "mutation " ++ mutId ++ " timed out after " ++ toString o.mutationTimeoutMs ++
        "ms" }))
  else s

def unsubscribe (s : Session ν) (subId : Nat) (throws : Bool) : Session ν :=
  if s.ws.isSome ∧ s.state = .opened ∧ throws then
    s.failSession .streamAborted
      ("failed to send unsubscription " ++ toString subId ++ "; client session closed")
  else s

def close (s : Session ν) : Session ν :=
  s.failSession .streamAborted "CharDB client closed before pending work settled"

end Session

/-! ## Runs -/

variable {ν : Type}

/-- Calls that user code makes, at any time. -/
inductive Call (ν : Type)
  | start
  | mutate (mutId : String) (owned : Except Thrown (String × Json ν)) (throws : Bool)
  | subscribe (accepted : Bool)
  | unsubscribe (subId : Nat) (throws : Bool)
  | close

/-- What the event loop calls, when no handler is running. -/
inductive Event (ν : Type)
  | jwtRead (attempt : Nat) (constructed : Bool)
  | jwtFailed (attempt : Nat) (error : Thrown)
  /-- `onopen` sends the hello. -/
  | opened (attempt : Nat) (throws : Bool)
  | message (attempt : Nat) (message : ServerMessage ν)
  | closed (attempt : Nat)
  | errored (attempt : Nat)
  | reconnect
  | mutationTimeout (mutId : String)
  | subscriptionRetry (subId : Nat) (throws : Bool)
  | resumeExpiry
  /-- A refresh of the token fails, or its deadline passes. -/
  | authFailed (attempt : Nat) (code : CdbErrorCode) (message : String)

def MutResult.mutId : MutResult ν → String
  | .ok mutId _ _ => mutId
  | .failed mutId _ => mutId

def MutResult.outcome : MutResult ν → Outcome ν
  | .ok _ result _ => .ok result
  | .failed mutId code =>
    .error (.cdb { code, message := "mutation " ++ mutId ++ " failed: " ++ code.text })

/-- Settle with the results of a poke, one after another. -/
def Session.settleResults (s : Session ν) (mutResults : List (MutResult ν)) : Session ν :=
  mutResults.foldl (fun s r => s.settle (MutResult.mutId r) (MutResult.outcome r)) s

def Session.call (o : Options) (s : Session ν) : Call ν → Session ν
  | .start => s.start
  | .mutate mutId owned throws => s.mutate o mutId owned throws
  | .subscribe accepted =>
    if accepted ∧ ¬ s.terminated ∧ o.autoStartOnOperation then s.start else s
  | .unsubscribe subId throws => s.unsubscribe subId throws
  | .close => s.close

def Session.event (o : Options) (s : Session ν) : Event ν → Session ν
  | .jwtRead attempt constructed =>
    if attempt ∈ s.jwtReads then s.jwtRead attempt constructed else s
  | .jwtFailed attempt error => if attempt ∈ s.jwtReads then s.jwtFailed o attempt error else s
  | .opened attempt throws => if throws then s.disconnectSocket attempt else s
  | .message attempt message => s.receiveWire attempt message
  | .closed attempt => s.disconnectSocket attempt
  | .errored attempt => s.disconnectSocket attempt
  | .reconnect => if s.reconnectTimer then { s with reconnectTimer := false }.startConnect .done else s
  | .mutationTimeout mutId => s.mutationTimeout o mutId
  | .subscriptionRetry subId throws =>
    if ¬ s.terminated ∧ s.ws.isSome ∧ s.state = .opened ∧ throws then
      s.failSession .streamAborted ("failed to retry subscription " ++ toString subId)
    else s
  | .resumeExpiry => if s.terminated then s else { s with stack := .done :: s.stack }
  | .authFailed attempt code message =>
    if s.Current attempt ∧ s.state = .opened then s.failSession code message else s

/-- User code returns to the handler that called it. -/
def Session.resume (s : Session ν) (throws : Bool) : Frame ν → Session ν
  | .mutate m => s.sendMutation m throws
  | .poke mutResults => s.settleResults mutResults
  | .failSession code message => s.rejectAll code message
  | .onWire => if throws then s.refuse else s
  | .done => s

/-- One step: `uuidv7` never makes an id twice. -/
inductive Step (o : Options) : Session ν → Session ν → Prop
  | call (s : Session ν) (c : Call ν) (h : ∀ mutId owned throws, c = .mutate mutId owned throws →
      mutId ∉ s.issued) : Step o s (s.call o c)
  | event (s : Session ν) (e : Event ν) (h : s.stack = []) : Step o s (s.event o e)
  | resume (s : Session ν) (f : Frame ν) (rest : List (Frame ν)) (throws : Bool)
      (h : s.stack = f :: rest) : Step o s ({ s with stack := rest }.resume throws f)

end Chardb.Client
