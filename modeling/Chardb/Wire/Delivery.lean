import Chardb.Core.Canonical
import Chardb.Core.ResultLimits
import Chardb.OpLog.AtMostOnce
import Chardb.Wire.Decode

/-!
# From a committed outcome to the client

A mutation commits the envelope of its result and the Gateway answers with a poke, also
when the client submits the mutation again. The rows of a live query are staged as
canonical text and go out as a snapshot. The limit on results is one on bytes alone.
-/

namespace Chardb.Wire

open Chardb.Lib OpLog

variable {ν : Type} [JsNumber ν]

/-! ## Mutations -/

def mutationResultHint : String :=
  "return less data from the mutation and read larger results with a paginated query"

/-- The copy of the result that `run` of `executeAtomicMutation` hands on. -/
def acceptMutationResult (result : HandlerResult ν) : Except Thrown (Json ν) :=
  snapshotCdbResultByteLimit result.1 "mutation result" mutationResultHint

/-- The envelope that `runWrappedMutation` stores. -/
def commitMutation (result : HandlerResult ν) (rowsAffected : SafeInt) (cookie : String) :
    Except Thrown (Json ν) := do
  let jsonResult ← acceptMutationResult result
  let stored ← rawJsonResult "mutation result" .invariant (.ofJson jsonResult)
  pure (okEnvelope stored rowsAffected none none none cookie)

/-- `envelope.result ?? null`. -/
def envelopeResult : Json ν → Json ν
  | .obj members => (Json.get? members "result").getD .null
  | _ => .null

/-- From an envelope to the result in the answer of `mutate`, as the Gateway projects it. -/
def answerMutation (envelope : Json ν) : Except Thrown (Json ν) := do
  assertCdbResultByteLimit (.ofJson (envelopeResult envelope)) "mutation result" mutationResultHint
  rawJsonResult "Cdb mutation result" .invariant (.ofJson (envelopeResult envelope))

/-! ## Live queries -/

def rowLimitError (subject : String) : Thrown :=
  .cdb
    { code := .invariant
      message := subject ++ " exceeds the " ++ toString CDB_QUERY_RESULT_MAX_ROWS ++ "-row limit"
      hint := some "add a query limit or paginate the result" }

def tooManyRows : Json ν → Bool
  | .arr rows => CDB_QUERY_RESULT_MAX_ROWS < rows.length
  | _ => false

def snapshotQueryResult (result : HandlerResult ν) (subject : String) : Except Thrown (Json ν) :=
  match snapshotCdbResultByteLimit result.1 subject
      "select fewer rows or columns, or paginate the result" with
  | .error e => .error e
  | .ok owned => if tooManyRows owned then .error (rowLimitError subject) else .ok owned

def rowsOf (failure : Thrown) : Json ν → Except Thrown (List (Json ν))
  | .arr rows => .ok rows
  | _ => .error failure

/-- `projectCdbQueryRows` of an answer that succeeded. -/
def projectCdbQueryRows (result : Json ν) : Except Thrown (List (Json ν)) := do
  let result ← rawJsonResult "Cdb query result" .invariant (.ofJson result)
  rowsOf (invariantError "organization query result must be an array") result

/-- `rows_json` of `stageGatewaySnapshot`. -/
def stageSnapshotRows (rows : List (Json ν)) : Except Thrown String := do
  let rows ← rawJsonResult "Gateway snapshot rows" .invariant (.ofJson (.arr rows))
  pure (stableJson rows)

/-- The rows that `claimDueGatewaySnapshot` reads back. -/
def claimSnapshotRows (rowsJson : String) : Except Thrown (List (Json ν)) :=
  match Json.parse rowsJson with
  | none => .error (invariantError "staged Gateway snapshot rows are not valid JSON")
  | some decoded => do
    let rows ← rawJsonResult "staged Gateway snapshot rows" .invariant (.ofJson decoded)
    rowsOf (invariantError "staged Gateway snapshot rows are not an array") rows

/-! ## Outcomes and their messages -/

variable (ν) in
/-- What Cdb commits for a client. -/
inductive Outcome
  | mutation (result : HandlerResult ν) (rowsAffected : SafeInt)
      (mutId cookie deliveredCookie : String)
  /-- The mutation again, answered from the envelope it stored. -/
  | resubmission (codec : PayloadCodec) (result : HandlerResult ν) (rowsAffected : SafeInt)
      (mutId cookie deliveredCookie : String)
  | rows (result : HandlerResult ν) (subject : String) (subId : SubId) (cookie : String)

/-- The value that the handler or the query gave. -/
def Outcome.value : Outcome ν → JsValue ν
  | .mutation result .. => result.1
  | .resubmission _ result .. => result.1
  | .rows result .. => result.1

/-- The value as Cdb accepts it. -/
def Outcome.accepted : Outcome ν → Except Thrown (Json ν)
  | .mutation result .. => acceptMutationResult result
  | .resubmission _ result .. => acceptMutationResult result
  | .rows result subject .. => snapshotQueryResult result subject

/-- The message that the Gateway builds. -/
def Outcome.message : Outcome ν → Except Thrown (Down ν)
  | .mutation result rowsAffected mutId cookie deliveredCookie => do
    let envelope ← commitMutation result rowsAffected cookie
    let answer ← answerMutation envelope
    pure (settleMut mutId deliveredCookie cookie answer)
  | .resubmission codec result rowsAffected mutId cookie deliveredCookie => do
    let envelope ← commitMutation result rowsAffected cookie
    let stored ← decodeEnvelope (decodeText (codec.decrypt (sealEnvelope codec envelope)))
    let answer ← answerMutation stored
    pure (settleMut mutId deliveredCookie cookie answer)
  | .rows result subject subId cookie => do
    let owned ← snapshotQueryResult result subject
    let rows ← projectCdbQueryRows owned
    let rowsJson ← stageSnapshotRows rows
    let staged ← claimSnapshotRows rowsJson
    pure (.snapshot subId cookie staged)

/-- The result in a decoded poke of one mutation. -/
def pokeResult : Json ν → Option (Json ν)
  | .obj members =>
    match Json.get? members "mutResults" with
    | some (.arr [.obj result]) => Json.get? result "result"
    | _ => none
  | _ => none

/-- The rows in a decoded snapshot. -/
def snapshotRows : Json ν → Option (Json ν)
  | .obj members => Json.get? members "rows"
  | _ => none

/-- What the client takes from the message it decoded. -/
def Outcome.received : Outcome ν → Json ν → Option (Json ν)
  | .mutation .. => pokeResult
  | .resubmission .. => pokeResult
  | .rows .. => snapshotRows

/-- The client decodes the message and reads the value from it. -/
def Delivers (message : Down ν) (received : Json ν → Option (Json ν)) (value : Json ν) : Prop :=
  ∃ decoded arrived, decodeDown (encodeWire message.toJson) = .ok decoded ∧
    received decoded = some arrived ∧ value.Same arrived

/-- The client receives what was accepted. -/
def Outcome.Delivered (outcome : Outcome ν) (message : Down ν) : Prop :=
  ∃ accepted, outcome.accepted = .ok accepted ∧ Delivers message outcome.received accepted

/-- The levels that fit around the value. -/
def Outcome.maxLevels : Outcome ν → Nat
  | .mutation .. => 97
  | .resubmission .. => 97
  | .rows .. => 99

/-! ## What is built -/

theorem acceptMutationResult_ok {result : HandlerResult ν} {j : Json ν}
    (h : acceptMutationResult result = .ok j) : j.Exact ∧ j.height = result.1.height :=
  snapshotCdbJsonByteLimit_ok result.2 h

theorem commitMutation_ok {result : HandlerResult ν} {rowsAffected : SafeInt} {cookie : String}
    {envelope : Json ν} (h : commitMutation result rowsAffected cookie = .ok envelope) :
    ∃ j, acceptMutationResult result = .ok j ∧
      envelope = okEnvelope j rowsAffected none none none cookie := by
  obtain ⟨j, hj, h⟩ := bind_ok h
  obtain ⟨stored, hstored, h⟩ := bind_ok h
  rw [rawJsonResult_ofJson (acceptMutationResult_ok hj).1] at hstored
  obtain rfl := Except.ok.inj hstored
  exact ⟨j, hj, (Except.ok.inj h).symm⟩

theorem answerMutation_ok {j answer : Json ν} {rowsAffected : SafeInt} {cookie : String}
    (hj : j.Exact)
    (h : answerMutation (okEnvelope j rowsAffected none none none cookie) = .ok answer) :
    answer = j := by
  have hresult : envelopeResult (okEnvelope j rowsAffected none none none cookie) = j := by
    simp [envelopeResult, okEnvelope, Json.get?]
  obtain ⟨-, -, h⟩ := bind_ok h
  rw [hresult, rawJsonResult_ofJson hj] at h
  exact (Except.ok.inj h).symm

/-- A first answer carries the accepted result. -/
theorem mutation_message_ok {result : HandlerResult ν} {rowsAffected : SafeInt}
    {mutId cookie deliveredCookie : String} {message : Down ν}
    (h : (Outcome.mutation result rowsAffected mutId cookie deliveredCookie).message =
      .ok message) :
    ∃ j, acceptMutationResult result = .ok j ∧
      message = settleMut mutId deliveredCookie cookie j := by
  obtain ⟨envelope, henvelope, h⟩ := bind_ok h
  obtain ⟨answer, hanswer, hmessage⟩ := bind_ok h
  obtain ⟨j, hj, rfl⟩ := commitMutation_ok henvelope
  obtain rfl := answerMutation_ok (acceptMutationResult_ok hj).1 hanswer
  exact ⟨answer, hj, (Except.ok.inj hmessage).symm⟩

/-- The answer to a resubmission is the first one, read from the stored envelope. -/
theorem resubmission_message_ok {codec : PayloadCodec} {result : HandlerResult ν}
    {rowsAffected : SafeInt} {mutId cookie deliveredCookie : String} {message : Down ν}
    (h : (Outcome.resubmission codec result rowsAffected mutId cookie deliveredCookie).message =
      .ok message) :
    ∃ j, acceptMutationResult result = .ok j ∧
      message = settleMut mutId deliveredCookie cookie j := by
  obtain ⟨envelope, henvelope, h⟩ := bind_ok h
  obtain ⟨stored, hstored, h⟩ := bind_ok h
  obtain ⟨answer, hanswer, hmessage⟩ := bind_ok h
  obtain ⟨j, hj, rfl⟩ := commitMutation_ok henvelope
  have hexact := (acceptMutationResult_ok hj).1
  rw [unseal_envelope codec (okEnvelope_isEnvelope hexact ..)] at hstored
  obtain rfl := Except.ok.inj hstored
  obtain rfl := answerMutation_ok hexact hanswer
  exact ⟨answer, hj, (Except.ok.inj hmessage).symm⟩

theorem snapshotQueryResult_ok {result : HandlerResult ν} {subject : String} {j : Json ν}
    (h : snapshotQueryResult result subject = .ok j) : j.Exact ∧ j.height = result.1.height := by
  rw [snapshotQueryResult] at h
  split at h
  · cases h
  · rename_i owned howned
    split at h
    · cases h
    · cases h
      exact snapshotCdbJsonByteLimit_ok result.2 howned

theorem projectCdbQueryRows_ok {j : Json ν} {rows : List (Json ν)} (hj : j.Exact)
    (h : projectCdbQueryRows j = .ok rows) : j = .arr rows := by
  obtain ⟨result, hresult, h⟩ := bind_ok h
  rw [rawJsonResult_ofJson hj] at hresult
  obtain rfl := Except.ok.inj hresult
  cases j with
  | arr xs => exact congrArg Json.arr (Except.ok.inj h)
  | _ => cases h

/-- What was staged is read back. -/
theorem claim_stage {rows staged : List (Json ν)} {rowsJson : String} (h : Json.ElemsExact rows)
    (hstage : stageSnapshotRows rows = .ok rowsJson)
    (hclaim : claimSnapshotRows rowsJson = .ok staged) : staged = canonicalizeElems rows := by
  have hexact : (Json.arr rows).Exact := by rwa [Json.Exact]
  obtain ⟨valid, hvalid, hstage⟩ := bind_ok hstage
  rw [rawJsonResult_ofJson hexact] at hvalid
  obtain rfl := Except.ok.inj hvalid
  obtain rfl := Except.ok.inj hstage
  have hcanonical := canonicalize_exact hexact
  rw [claimSnapshotRows, stableJson, Json.parse_toText hcanonical] at hclaim
  obtain ⟨decoded, hdecoded, hclaim⟩ := bind_ok hclaim
  rw [rawJsonResult_ofJson hcanonical] at hdecoded
  obtain rfl := Except.ok.inj hdecoded
  rw [canonicalize] at hclaim
  exact (Except.ok.inj hclaim).symm

/-- A snapshot carries the canonical form of the accepted rows. -/
theorem rows_message_ok {result : HandlerResult ν} {subject : String} {subId : SubId}
    {cookie : String} {message : Down ν}
    (h : (Outcome.rows result subject subId cookie).message = .ok message) :
    ∃ rows, snapshotQueryResult result subject = .ok (.arr rows) ∧
      message = .snapshot subId cookie (canonicalizeElems rows) := by
  obtain ⟨owned, howned, h⟩ := bind_ok h
  obtain ⟨rows, hrows, h⟩ := bind_ok h
  obtain ⟨rowsJson, hstage, h⟩ := bind_ok h
  obtain ⟨staged, hclaim, h⟩ := bind_ok h
  have hexact := (snapshotQueryResult_ok howned).1
  obtain rfl := projectCdbQueryRows_ok hexact hrows
  rw [Json.Exact] at hexact
  obtain rfl := claim_stage hexact hstage hclaim
  exact ⟨rows, howned, (Except.ok.inj h).symm⟩

/-! ## What arrives -/

theorem settleMut_delivers_iff (mutId deliveredCookie cookie : String) {result : Json ν}
    (h : result.Exact) :
    Delivers (settleMut mutId deliveredCookie cookie result) pokeResult result ↔
      result.height ≤ 97 := by
  constructor
  · rintro ⟨decoded, arrived, hdecoded, -⟩
    by_contra hlt
    obtain ⟨e, he⟩ := decodeDown_settleMut_error mutId deliveredCookie cookie h (by omega)
    rw [he] at hdecoded
    cases hdecoded
  · intro hle
    refine ⟨_, result, decodeDown_settleMut mutId deliveredCookie cookie h hle, ?_, .refl result⟩
    simp [settleMut_toJson, pokeFields, MutResult.toJson, pokeResult, Json.get?]

omit [JsNumber ν] in
theorem membersHeight_perm {ms ns : List (String × Json ν)} (h : ms.Perm ns) :
    Json.membersHeight ms = Json.membersHeight ns := by
  induction h with
  | nil => rfl
  | cons m _ ih => rw [Json.membersHeight, Json.membersHeight, ih]
  | swap a b ms => simp only [Json.membersHeight]; omega
  | trans _ _ ih₁ ih₂ => rw [ih₁, ih₂]

mutual

theorem canonicalize_height : ∀ {j : Json ν}, j.Exact → (canonicalize j).height = j.height
  | .null, _ => rfl
  | .bool _, _ => rfl
  | .num _, _ => rfl
  | .str _, _ => rfl
  | .arr xs, h => by
    rw [Json.Exact] at h
    rw [canonicalize, Json.height, Json.height, canonicalizeElems_height h]
  | .obj ms, h => by
    rw [Json.Exact] at h
    rw [canonicalize, Json.height, Json.height,
      ← membersHeight_perm (canonicalize_obj_perm h.1), canonicalizeMembers_height h.2]

theorem canonicalizeElems_height :
    ∀ {xs : List (Json ν)}, Json.ElemsExact xs →
      Json.elemsHeight (canonicalizeElems xs) = Json.elemsHeight xs
  | [], _ => rfl
  | x :: xs, h => by
    rw [Json.ElemsExact] at h
    rw [canonicalizeElems, Json.elemsHeight, Json.elemsHeight, canonicalize_height h.1,
      canonicalizeElems_height h.2]

theorem canonicalizeMembers_height :
    ∀ {ms : List (String × Json ν)}, Json.MembersExact ms →
      Json.membersHeight (canonicalizeMembers ms) = Json.membersHeight ms
  | [], _ => rfl
  | (k, v) :: ms, h => by
    rw [Json.MembersExact] at h
    rw [canonicalizeMembers, Json.membersHeight, Json.membersHeight, canonicalize_height h.1,
      canonicalizeMembers_height h.2]

end

theorem snapshot_delivers_iff (subId : SubId) (cookie : String) {rows : List (Json ν)}
    (h : Json.ElemsExact rows) :
    Delivers (.snapshot subId cookie (canonicalizeElems rows)) snapshotRows (.arr rows) ↔
      Json.elemsHeight rows ≤ 99 := by
  have hcanonical := canonicalizeElems_exact h
  have hheight := canonicalizeElems_height h
  constructor
  · rintro ⟨decoded, arrived, hdecoded, -⟩
    by_contra hlt
    obtain ⟨e, he⟩ := decodeDown_snapshot_error subId cookie hcanonical (by omega)
    rw [he] at hdecoded
    cases hdecoded
  · intro hle
    refine ⟨_, .arr (canonicalizeElems rows),
      decodeDown_snapshot subId cookie hcanonical (by omega), ?_,
      .arr (canonicalizeElems_same h)⟩
    simp [snapshot_toJson, snapshotFields, snapshotRows, Json.get?]

/-- A committed outcome reaches its client exactly when its value leaves room for the message
around it. -/
theorem committed_outcome_delivered_iff {outcome : Outcome ν} {message : Down ν}
    (h : outcome.message = .ok message) :
    outcome.Delivered message ↔ outcome.value.height ≤ outcome.maxLevels := by
  cases outcome with
  | mutation result rowsAffected mutId cookie deliveredCookie =>
    obtain ⟨j, hj, rfl⟩ := mutation_message_ok h
    obtain ⟨hexact, hheight⟩ := acceptMutationResult_ok hj
    rw [Outcome.Delivered, Outcome.value, Outcome.maxLevels, ← hheight,
      ← settleMut_delivers_iff mutId deliveredCookie cookie hexact]
    simp [Outcome.accepted, Outcome.received, hj]
  | resubmission codec result rowsAffected mutId cookie deliveredCookie =>
    obtain ⟨j, hj, rfl⟩ := resubmission_message_ok h
    obtain ⟨hexact, hheight⟩ := acceptMutationResult_ok hj
    rw [Outcome.Delivered, Outcome.value, Outcome.maxLevels, ← hheight,
      ← settleMut_delivers_iff mutId deliveredCookie cookie hexact]
    simp [Outcome.accepted, Outcome.received, hj]
  | rows result subject subId cookie =>
    obtain ⟨rows, hrows, rfl⟩ := rows_message_ok h
    obtain ⟨hexact, hheight⟩ := snapshotQueryResult_ok hrows
    rw [Json.Exact] at hexact
    rw [Outcome.Delivered, Outcome.value, Outcome.maxLevels, ← hheight, Json.height,
      ← snapshot_delivers_iff subId cookie hexact]
    simp [Outcome.accepted, Outcome.received, hrows]

/-! ### A result of 98 levels -/

/-- `null` in this many arrays. -/
def nestedArrays : Nat → JsValue Int
  | 0 => .null
  | n + 1 => .arr [some (nestedArrays n)] 0 false

theorem nestedArrays_wf : ∀ n, (nestedArrays n).Wf
  | 0 => trivial
  | n + 1 => by
    simp only [nestedArrays, JsValue.Wf, JsValue.SlotsWf, and_true]
    exact nestedArrays_wf n

/-- A mutation with such a result. -/
def nestedOutcome (levels : Nat) : Outcome Int :=
  .mutation ⟨nestedArrays levels, nestedArrays_wf levels⟩ ⟨0, Nat.two_pow_pos 53⟩ "m1" "c1" "c1"

theorem nestedOutcome_message {levels : Nat} (h : (nestedOutcome levels).message.toBool = true) :
    ∃ message, (nestedOutcome levels).message = .ok message := by
  cases hm : (nestedOutcome levels).message with
  | error e => rw [hm] at h; cases h
  | ok message => exact ⟨message, rfl⟩

theorem committed_outcome_delivered_iff_shallow :
    ∃ message, (nestedOutcome 2).message = .ok message ∧ (nestedOutcome 2).Delivered message := by
  obtain ⟨message, hmessage⟩ : ∃ message, (nestedOutcome 2).message = .ok message :=
    nestedOutcome_message (by decide +kernel)
  exact ⟨message, hmessage, (committed_outcome_delivered_iff hmessage).mpr (by decide +kernel)⟩

theorem committed_outcome_not_delivered :
    ¬ ∀ (outcome : Outcome Int) (message : Down Int), outcome.message = .ok message →
      outcome.Delivered message := by
  intro hall
  obtain ⟨message, hmessage⟩ : ∃ message, (nestedOutcome 98).message = .ok message :=
    nestedOutcome_message (by decide +kernel)
  obtain ⟨j, hj, rfl⟩ := mutation_message_ok hmessage
  obtain ⟨hexact, hheight⟩ := acceptMutationResult_ok hj
  obtain ⟨accepted, haccepted, hdelivers⟩ := hall _ _ hmessage
  obtain rfl : j = accepted := Except.ok.inj (hj.symm.trans haccepted)
  have hle : j.height ≤ 97 := (settleMut_delivers_iff "m1" "c1" "c1" hexact).mp hdelivers
  rw [hheight] at hle
  exact absurd hle (by decide +kernel)

end Chardb.Wire
