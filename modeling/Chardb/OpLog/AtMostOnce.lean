import Chardb.OpLog.Wrapper

/-!
# At most once

A call either changes nothing or stores, under its principal and mutation id, an
envelope that no later call touches (`Stored`). From this follows what any sequence
of calls promises: `MutationsAtMostOnce`.
-/

namespace Chardb.OpLog

open Chardb.Lib

variable {ν : Type} [JsNumber ν] {σ : Type}

/-! ## Envelopes come back -/

/-- An envelope the wrapper writes. -/
def IsEnvelope (env : Json ν) : Prop :=
  env.Exact ∧ ∃ members, env = .obj members ∧ Json.get? members "v" = some (.int 1)

theorem optionalMember_exact {α : Type} {key : String} {value : Option α} {toJson : α → Json ν}
    (h : ∀ a ∈ value, (toJson a).Exact) : Json.MembersExact (optionalMember key value toJson) := by
  cases value with
  | none => trivial
  | some a => simpa [optionalMember, Json.MembersExact] using h a rfl

theorem SafeInt.toJson_exact (i : SafeInt) : (i.toJson : Json ν).Exact := Json.int_exact i.2

theorem okEnvelope_isEnvelope {result : Json ν} (h : result.Exact) (rowsAffected : SafeInt)
    (lastInsertRowid : Option (Option SafeInt)) (returning : Option (List (RawJson ν)))
    (warnings : Option (List String)) (cookie : String) :
    IsEnvelope (okEnvelope result rowsAffected lastInsertRowid returning warnings cookie) := by
  refine ⟨?_, _, rfl, rfl⟩
  rw [okEnvelope, Json.Exact]
  constructor
  · have hall : OwnKeys ["v", "status", "rowsAffected", "result", "lastInsertRowid", "returning",
        "cookie", "warnings"] := by decide
    refine List.Pairwise.sublist ?_ hall
    cases lastInsertRowid <;> cases returning <;> cases warnings <;>
      simp [optionalMember]
  · refine membersExact_append (membersExact_append (membersExact_append
      (membersExact_append ?_ ?_) ?_) ?_) ?_
    · simp only [Json.MembersExact, and_true]
      exact ⟨Json.int_exact (by decide), str_exact _, SafeInt.toJson_exact _, h⟩
    · refine optionalMember_exact fun a _ => ?_
      cases a with
      | none => simp [nullable, Json.Exact]
      | some i => exact SafeInt.toJson_exact i
    · refine optionalMember_exact fun js _ => ?_
      rw [Json.Exact]
      exact elemsExact_map fun j _ => j.2
    · simp only [Json.MembersExact, and_true]; exact str_exact _
    · refine optionalMember_exact fun ws _ => ?_
      rw [Json.Exact]
      exact elemsExact_map fun w _ => str_exact w

theorem userErrorEnvelope_isEnvelope (errorCode : CdbErrorCode) (errorMessage cookie : String) :
    IsEnvelope (userErrorEnvelope errorCode errorMessage cookie : Json ν) := by
  refine ⟨?_, _, rfl, rfl⟩
  rw [userErrorEnvelope, Json.Exact]
  constructor
  · show OwnKeys ["v", "status", "rowsAffected", "errorCode", "errorMessage", "cookie"]
    decide
  · simp only [Json.MembersExact, and_true]
    exact ⟨Json.int_exact (by decide), str_exact _, Json.int_exact (by decide), str_exact _,
      str_exact _, str_exact _⟩

theorem envelopeOf_isEnvelope {cookie : String} {outcome : MutationOutcome ν} {env : Json ν}
    (h : envelopeOf cookie outcome = .ok env) : IsEnvelope env := by
  cases outcome with
  | ok result =>
    rw [envelopeOf] at h
    split at h
    · rename_i hr; cases h
      exact okEnvelope_isEnvelope (rawJsonResult_exact result.2 hr) ..
    · cases h
  | userError => cases h; exact userErrorEnvelope_isEnvelope ..

theorem decodeEnvelope_encodeEnvelope {env : Json ν} (h : IsEnvelope env) :
    decodeEnvelope (encodeEnvelope env) = .ok env := by
  obtain ⟨hexact, members, rfl, hv⟩ := h
  rw [decodeEnvelope, encodeEnvelope, Json.parse_toText hexact]
  simp only [hv, Json.int, JsNumber.toInt?_ofInt (1 : Int) (by decide), if_true]

/-- The text of an envelope starts with a brace. -/
theorem encodeEnvelope_head {env : Json ν} (h : IsEnvelope env) :
    (encodeEnvelope env).toList.head? = some '{' := by
  obtain ⟨-, members, rfl, -⟩ := h
  rw [encodeEnvelope, Json.toText, String.toList_ofList]
  rcases members with _ | ⟨⟨k, v⟩, ms⟩ <;> rfl

/-- The bytes an envelope is stored as. -/
def sealEnvelope (codec : PayloadCodec) (env : Json ν) : ByteArray :=
  codec.encrypt (encodeText (encodeEnvelope env))

theorem unseal_envelope (codec : PayloadCodec) {env : Json ν} (h : IsEnvelope env) :
    decodeEnvelope (decodeText (codec.decrypt (sealEnvelope codec env))) = .ok env := by
  rw [sealEnvelope, codec.decrypt_encrypt, decodeText_encodeText,
    decodeEnvelope_encodeEnvelope h]
  rw [encodeEnvelope_head h]; decide

theorem sealEnvelope_size_pos (codec : PayloadCodec) {env : Json ν} (h : IsEnvelope env) :
    0 < (sealEnvelope codec env).size := by
  refine codec.encrypt_size_pos _ (encodeText_size_pos fun he => ?_)
  have := encodeEnvelope_head h
  rw [he] at this; cases this

/-! ## One call -/

variable (sha256 : ByteArray → ByteArray) (codec : PayloadCodec)

/-- `runWrappedMutation` in its transaction. -/
def exec (args : RunWrappedMutationArgs σ ν) : Tx Thrown (OpLogDb σ) (RunWrappedMutationResult ν) :=
  .transactionSync (runWrappedMutation sha256 codec args)

/-- The row of a call that has run. -/
def finalRow (args : RunWrappedMutationArgs σ ν) (outcome : MutationOutcome ν) (env : Json ν)
    (eventId : Nat) : OpLogRow :=
  { pendingRow args (requestHash sha256 args.canonicalRequest) eventId with
    payloadEnc := sealEnvelope codec env
    touchedKeys := (touchedKeysJson (ν := ν) (outcome.touchedKeys.getD [])).toText
    byteSize := (sealEnvelope codec env).size }

/-- The call has run: its handler's effects and its row are there, nothing else has changed. -/
structure Committed (args : RunWrappedMutationArgs σ ν) (db db' : OpLogDb σ) (env : Json ν) :
    Prop where
  fresh : db.opLog.rows.find? args.key = none
  ran : ∃ outcome eventId, args.run.Returns db.domain outcome db'.domain ∧
    envelopeOf args.cookie outcome = .ok env ∧
    db'.opLog.rows.find? args.key = some (finalRow sha256 codec args outcome env eventId)
  rest : ∀ k, k ≠ args.key → db'.opLog.rows.find? k = db.opLog.rows.find? k

variable {sha256 codec} {args : RunWrappedMutationArgs σ ν} {db db' : OpLogDb σ}
  {res : RunWrappedMutationResult ν}

theorem insertOrIgnore_returns {row : Nat → OpLogRow} {log log' : Ledger} {n : Nat}
    (h : (Ledger.insertOrIgnore row).Returns log n log') :
    (n = 0 ∧ log' = log ∧ log.rows.insert? (row (log.lastEventId + 1)) = none) ∨
    (n = 1 ∧ log'.lastEventId = log.lastEventId + 1 ∧
      log.rows.insert? (row (log.lastEventId + 1)) = some log'.rows) := by
  unfold Tx.Returns Ledger.insertOrIgnore at h
  split at h
  · rename_i h'; cases h; exact .inr ⟨rfl, rfl, h'⟩
  · rename_i h'; cases h; exact .inl ⟨rfl, rfl, h'⟩

theorem finalise_returns {key : String × String} {payloadEnc : ByteArray} {touchedKeys : String}
    {log log' : Ledger} {n : Nat}
    (h : (Ledger.finalise key payloadEnc touchedKeys).Returns log n log') (k : String × String) :
    log'.rows.find? k = (log.rows.find? k).map fun r =>
      if r.key = key then { r with payloadEnc, touchedKeys, byteSize := payloadEnc.size } else r := by
  simp only [Ledger.finalise, Tx.zoom_returns, Table.update_returns] at h
  obtain ⟨rows, ⟨hu, -⟩, rfl⟩ := h
  rw [Table.find?_update hu (fun _ _ _ => rfl)]
  simp only [decide_eq_true_eq]

theorem pendingRow_key (args : RunWrappedMutationArgs σ ν) (hash : ByteArray) (eventId : Nat) :
    (pendingRow args hash eventId).key = args.key := rfl

theorem replayMutation_returns {hash : ByteArray}
    (h : (replayMutation codec args hash).Returns db res db') :
    db' = db ∧ res.ran = false ∧ ∃ row, db.opLog.rows.find? args.key = some row := by
  simp only [replayMutation, Tx.bind_returns, Tx.gets_returns, Tx.ofOption_returns,
    Tx.require_returns, Tx.ofExcept_returns, Tx.pure_returns] at h
  obtain ⟨_, _, ⟨rfl, rfl⟩, row, _, ⟨hrow, rfl⟩, _, _, ⟨-, rfl⟩, _, _, ⟨-, rfl⟩, env, _, ⟨-, rfl⟩,
    rfl, rfl⟩ := h
  exact ⟨rfl, rfl, row, hrow⟩

/-- A call that returns has replayed a stored envelope, or has run. -/
theorem exec_returns (h : (exec sha256 codec args).Returns db res db') :
    (db' = db ∧ res.ran = false ∧ ∃ row, db.opLog.rows.find? args.key = some row) ∨
      (res.ran = true ∧ Committed sha256 codec args db db' res.envelope) := by
  rw [exec, Tx.transactionSync_returns, runWrappedMutation, Tx.bind_returns] at h
  obtain ⟨changes, mid, hins, h⟩ := h
  rw [onOpLog, Tx.zoom_returns] at hins
  obtain ⟨log, hins, rfl⟩ := hins
  rcases insertOrIgnore_returns hins with ⟨rfl, rfl, -⟩ | ⟨rfl, -, hrows⟩
  · rw [if_pos rfl] at h
    exact .inl (replayMutation_returns h)
  · rw [if_neg (by decide)] at h
    simp only [runMutation, onDomain, onOpLog, Tx.bind_returns, Tx.zoom_returns,
      Tx.ofExcept_returns, Tx.pure_returns] at h
    obtain ⟨outcome, _, ⟨domain, hrun, rfl⟩, env, _, ⟨henv, rfl⟩, n, _, ⟨log', hfin, rfl⟩, rfl,
      rfl⟩ := h
    have hfind := finalise_returns hfin
    have hkey : ∀ k, log.rows.find? k = if args.key = k then
        some (pendingRow args (requestHash sha256 args.canonicalRequest) (db.opLog.lastEventId + 1))
        else db.opLog.rows.find? k := Table.find?_insert hrows
    refine .inr ⟨rfl, Table.find?_eq_none.mpr (Table.insert?_fresh hrows).1,
      ⟨outcome, db.opLog.lastEventId + 1, hrun, henv, ?_⟩, fun k hk => ?_⟩
    · rw [hfind, hkey, if_pos rfl, Option.map_some, if_pos (pendingRow_key ..)]; rfl
    · rw [hfind, hkey, if_neg (Ne.symm hk)]
      cases hr : db.opLog.rows.find? k with
      | none => rfl
      | some r =>
        have hne : r.key ≠ args.key := by rw [(Table.find?_eq_some.mp hr).2]; exact hk
        rw [Option.map_some, if_neg hne]

theorem exec_throws {e : Thrown} (h : (exec sha256 codec args).Throws db e db') : db' = db :=
  (Tx.transactionSync_throws.mp h).1

/-! ## What a ledger row promises -/

variable (codec) in
/-- Under `key` the ledger stores `env`, for the request that hashes to `hash`. -/
def Stored (db : OpLogDb σ) (key : String × String) (hash : ByteArray) (env : Json ν) : Prop :=
  IsEnvelope env ∧ ∃ row, db.opLog.rows.find? key = some row ∧ row.payloadHash = hash ∧
    row.payloadEnc = sealEnvelope codec env

theorem Committed.stored {env : Json ν} (h : Committed sha256 codec args db db' env) :
    Stored codec db' args.key (requestHash sha256 args.canonicalRequest) env := by
  obtain ⟨outcome, eventId, -, henv, hrow⟩ := h.ran
  exact ⟨envelopeOf_isEnvelope henv, _, hrow, rfl, rfl⟩

/-- A stored envelope outlives every call. -/
theorem Stored.exec_after {key : String × String} {hash : ByteArray} {env : Json ν}
    (h : Stored codec db key hash env) (args : RunWrappedMutationArgs σ ν) :
    Stored codec ((exec sha256 codec args).after db) key hash env := by
  rcases (exec sha256 codec args).returns_or_throws db with ⟨res, hr⟩ | ⟨e, hr⟩
  · rcases exec_returns hr with ⟨heq, -⟩ | ⟨-, hc⟩
    · rw [heq]; exact h
    · obtain ⟨henv, row, hrow, hrest⟩ := h
      have hne : key ≠ args.key := by
        rintro rfl
        rw [hc.fresh] at hrow; cases hrow
      exact ⟨henv, row, (hc.rest key hne).trans hrow, hrest⟩
  · rw [exec_throws hr]; exact h

/-- A call over a stored row does not insert. -/
theorem Stored.insert_none {key : String × String} {hash : ByteArray} {env : Json ν}
    (h : Stored codec db key hash env) (row : Nat → OpLogRow) (hkey : ∀ i, (row i).key = key) :
    (Ledger.insertOrIgnore row).Returns db.opLog 0 db.opLog := by
  obtain ⟨-, r, hr, -⟩ := h
  have hnone : db.opLog.rows.insert? (row (db.opLog.lastEventId + 1)) = none := by
    cases hi : db.opLog.rows.insert? (row (db.opLog.lastEventId + 1)) with
    | none => rfl
    | some t =>
      have := (Table.insert?_fresh hi).1 r (Table.find?_eq_some.mp hr).1
      rw [hkey, (Table.find?_eq_some.mp hr).2] at this
      exact absurd rfl this
  simp only [Tx.Returns, Ledger.insertOrIgnore, hnone]

/-- The same request gets the stored envelope. -/
theorem Stored.replays {env : Json ν}
    (h : Stored codec db args.key (requestHash sha256 args.canonicalRequest) env) :
    (exec sha256 codec args).Returns db ⟨false, env⟩ db := by
  have hins := h.insert_none (pendingRow args (requestHash sha256 args.canonicalRequest))
    fun _ => rfl
  obtain ⟨henv, row, hrow, hhash, henc⟩ := h
  rw [exec, Tx.transactionSync_returns, runWrappedMutation, Tx.bind_returns]
  refine ⟨0, db, Tx.zoom_returns.mpr ⟨_, hins, rfl⟩, ?_⟩
  rw [if_pos rfl]
  have hsize : row.payloadEnc.size ≠ 0 := by
    rw [henc]; exact (sealEnvelope_size_pos codec henv).ne'
  simp only [replayMutation, Tx.bind_returns, Tx.gets_returns, Tx.ofOption_returns,
    Tx.require_returns, Tx.ofExcept_returns, Tx.pure_returns]
  exact ⟨_, db, ⟨rfl, rfl⟩, row, db, ⟨hrow, rfl⟩, (), db, ⟨hhash, rfl⟩, (), db, ⟨hsize, rfl⟩, env, db,
    ⟨by rw [henc, unseal_envelope codec henv], rfl⟩, rfl, rfl⟩

variable (args) in
/-- Another request under the same ids is a collision. -/
theorem Stored.collides {hash : ByteArray} {env : Json ν} (h : Stored codec db args.key hash env)
    (hne : hash ≠ requestHash sha256 args.canonicalRequest) :
    (exec sha256 codec args).Throws db (mutIdCollision args.mutId) db := by
  have hins := h.insert_none (pendingRow args (requestHash sha256 args.canonicalRequest))
    fun _ => rfl
  obtain ⟨-, row, hrow, rfl, -⟩ := h
  rw [exec, Tx.transactionSync_throws]
  refine ⟨rfl, db, ?_⟩
  rw [runWrappedMutation, Tx.bind_throws]
  refine .inr ⟨0, db, Tx.zoom_returns.mpr ⟨_, hins, rfl⟩, ?_⟩
  rw [if_pos rfl]
  refine Tx.bind_throws.mpr (.inr ⟨_, db, Tx.gets_returns.mpr ⟨rfl, rfl⟩, ?_⟩)
  refine Tx.bind_throws.mpr (.inr ⟨row, db, Tx.ofOption_returns.mpr ⟨hrow, rfl⟩, ?_⟩)
  exact Tx.bind_throws.mpr (.inl (Tx.require_throws.mpr ⟨hne, rfl, rfl⟩))

/-! ## Any sequence of calls -/

/-- Every row of the ledger holds an envelope, of the size it says. -/
def Finalised (codec : PayloadCodec) (ν : Type) [JsNumber ν] (db : OpLogDb σ) : Prop :=
  ∀ row ∈ db.opLog.rows, (∃ env : Json ν, IsEnvelope env ∧ row.payloadEnc = sealEnvelope codec env) ∧
    row.byteSize = row.payloadEnc.size

theorem Finalised.exec_after (h : Finalised codec ν db) (args : RunWrappedMutationArgs σ ν) :
    Finalised codec ν ((exec sha256 codec args).after db) := by
  rcases (exec sha256 codec args).returns_or_throws db with ⟨res, hr⟩ | ⟨e, hr⟩
  · rcases exec_returns hr with ⟨heq, -⟩ | ⟨-, hc⟩
    · rw [heq]; exact h
    · intro row hrow
      have hfind := Table.find?_key hrow
      by_cases hk : row.key = args.key
      · obtain ⟨outcome, eventId, -, henv, hfinal⟩ := hc.ran
        rw [hk, hfinal] at hfind
        obtain rfl := Option.some.inj hfind
        exact ⟨⟨_, envelopeOf_isEnvelope henv, rfl⟩, rfl⟩
      · rw [hc.rest _ hk] at hfind
        exact h row (Table.find?_eq_some.mp hfind).1
  · rw [exec_throws hr]; exact h

/-- No row is pending. -/
theorem Finalised.byteSize_pos (h : Finalised codec ν db) {row : OpLogRow}
    (hr : row ∈ db.opLog.rows) : 0 < row.byteSize := by
  obtain ⟨⟨env, henv, henc⟩, hsize⟩ := h row hr
  have := sealEnvelope_size_pos codec henv
  rw [hsize, henc]; omega

variable (sha256 codec) in
/-- One call after the other. -/
def runCalls (db : OpLogDb σ) (calls : List (RunWrappedMutationArgs σ ν)) : OpLogDb σ :=
  calls.foldl (fun db args => (exec sha256 codec args).after db) db

theorem runCalls_append (db : OpLogDb σ) (xs ys : List (RunWrappedMutationArgs σ ν)) :
    runCalls sha256 codec db (xs ++ ys) = runCalls sha256 codec (runCalls sha256 codec db xs) ys :=
  List.foldl_append

theorem Finalised.runCalls (h : Finalised codec ν db) (calls : List (RunWrappedMutationArgs σ ν)) :
    Finalised codec ν (runCalls sha256 codec db calls) := by
  induction calls generalizing db with
  | nil => exact h
  | cons args calls ih => exact ih (h.exec_after args)

variable (sha256) in
theorem Stored.runCalls {key : String × String} {hash : ByteArray} {env : Json ν}
    (h : Stored codec db key hash env) (calls : List (RunWrappedMutationArgs σ ν)) :
    Stored codec (runCalls sha256 codec db calls) key hash env := by
  induction calls generalizing db with
  | nil => exact h
  | cons args calls ih => exact ih (h.exec_after args)

variable (sha256 codec) in
/-- The database after some calls, over the empty ledger. -/
def afterCalls (domain : σ) (calls : List (RunWrappedMutationArgs σ ν)) : OpLogDb σ :=
  runCalls sha256 codec ⟨.empty, domain⟩ calls

/-- What a sequence of calls over the empty ledger promises. `c` is any of its calls, made after
the calls `before`; `d` is any later one, with the calls `between` in between. -/
structure MutationsAtMostOnce (sha256 : ByteArray → ByteArray) (codec : PayloadCodec) (domain : σ)
    (calls : List (RunWrappedMutationArgs σ ν)) : Prop where
  /-- A call that does not run its handler to the end changes nothing. -/
  unchanged : ∀ (before after : List (RunWrappedMutationArgs σ ν)) c, calls = before ++ c :: after →
    (¬ ∃ env db', (exec sha256 codec c).Returns (afterCalls sha256 codec domain before)
      ⟨true, env⟩ db') →
    (exec sha256 codec c).after (afterCalls sha256 codec domain before) =
      afterCalls sha256 codec domain before
  /-- A call that runs commits its handler's effects and an envelope, and for its ids none
  before it did. -/
  committed : ∀ (before after : List (RunWrappedMutationArgs σ ν)) c env db',
    calls = before ++ c :: after →
    (exec sha256 codec c).Returns (afterCalls sha256 codec domain before) ⟨true, env⟩ db' →
    Committed sha256 codec c (afterCalls sha256 codec domain before) db' env
  /-- A later call with the same request replays the envelope. -/
  replays : ∀ (before between after : List (RunWrappedMutationArgs σ ν))
      (c d : RunWrappedMutationArgs σ ν) env db',
    calls = before ++ c :: between ++ d :: after →
    (exec sha256 codec c).Returns (afterCalls sha256 codec domain before) ⟨true, env⟩ db' →
    d.key = c.key → d.canonicalRequest = c.canonicalRequest →
    (exec sha256 codec d).Returns (afterCalls sha256 codec domain (before ++ c :: between))
      ⟨false, env⟩ (afterCalls sha256 codec domain (before ++ c :: between))
  /-- A later call with another request is refused, whatever its handler. -/
  collides : ∀ (before between after : List (RunWrappedMutationArgs σ ν))
      (c d : RunWrappedMutationArgs σ ν) env db',
    calls = before ++ c :: between ++ d :: after →
    (exec sha256 codec c).Returns (afterCalls sha256 codec domain before) ⟨true, env⟩ db' →
    d.key = c.key → d.canonicalRequest ≠ c.canonicalRequest →
    ∀ run : Tx Thrown σ (MutationOutcome ν),
    (exec sha256 codec { d with run }).Throws
      (afterCalls sha256 codec domain (before ++ c :: between)) (mutIdCollision d.mutId)
      (afterCalls sha256 codec domain (before ++ c :: between))
  /-- No pending row is ever left. -/
  finalised : ∀ before after : List (RunWrappedMutationArgs σ ν), calls = before ++ after →
    ∀ row ∈ (afterCalls sha256 codec domain before).opLog.rows, 0 < row.byteSize

theorem empty_finalised (domain : σ) : Finalised codec ν (⟨.empty, domain⟩ : OpLogDb σ) :=
  fun _ h => absurd h Table.not_mem_empty

/-- After a call that ran and any more calls, its envelope is stored. -/
theorem stored_afterCalls {domain : σ} {before : List (RunWrappedMutationArgs σ ν)}
    {c : RunWrappedMutationArgs σ ν} {env : Json ν} (between : List (RunWrappedMutationArgs σ ν))
    (h : (exec sha256 codec c).Returns (afterCalls sha256 codec domain before) ⟨true, env⟩ db') :
    Stored codec (afterCalls sha256 codec domain (before ++ c :: between)) c.key
      (requestHash sha256 c.canonicalRequest) env := by
  rcases exec_returns h with ⟨-, hfalse, -⟩ | ⟨-, hc⟩
  · cases hfalse
  · rw [afterCalls, runCalls_append]
    show Stored codec (runCalls sha256 codec ((exec sha256 codec c).after
      (afterCalls sha256 codec domain before)) between) _ _ _
    rw [h.after]
    exact hc.stored.runCalls sha256 between

/-- Where the requests have different hashes, every sequence of mutations runs each at most once. -/
theorem mutations_at_most_once (sha256 : ByteArray → ByteArray) (codec : PayloadCodec) (domain : σ)
    (calls : List (RunWrappedMutationArgs σ ν))
    (hinj : ∀ c ∈ calls, ∀ d ∈ calls, requestHash sha256 c.canonicalRequest =
      requestHash sha256 d.canonicalRequest → c.canonicalRequest = d.canonicalRequest) :
    MutationsAtMostOnce sha256 codec domain calls where
  unchanged before after c _ hnot := by
    rcases (exec sha256 codec c).returns_or_throws (afterCalls sha256 codec domain before)
      with ⟨⟨ran, env⟩, h⟩ | ⟨e, h⟩
    · rcases exec_returns h with ⟨heq, -⟩ | ⟨rfl, -⟩
      · exact heq
      · exact absurd ⟨env, _, h⟩ hnot
    · exact exec_throws h
  committed before after c env db' _ h := by
    rcases exec_returns h with ⟨-, hfalse, -⟩ | ⟨-, hc⟩
    · cases hfalse
    · exact hc
  replays before between after c d env db' _ h hkey hreq := by
    have hstored := stored_afterCalls between h
    rw [← hkey, ← hreq] at hstored
    exact hstored.replays
  collides before between after c d env db' hcalls h hkey hreq run := by
    have hstored := stored_afterCalls between h
    rw [← hkey] at hstored
    refine hstored.collides { d with run } fun he => hreq ?_
    exact (hinj c (by simp [hcalls]) d (by simp [hcalls]) he).symm
  finalised before after _ row hr :=
    ((empty_finalised domain).runCalls before).byteSize_pos (ν := ν) hr

/-- A handler that counts its runs. -/
def countRun : Tx Thrown Nat (MutationOutcome Int) := do
  .modify (· + 1)
  pure (.ok ⟨.str "done", by simp [JsValue.Wf]⟩ ⟨1, by decide⟩ none none none none)

/-- A request to count, under the mutation id `m1`. -/
def countCall (request : String) : RunWrappedMutationArgs Nat Int where
  principalId := "alice"
  mutId := "m1"
  canonicalRequest := request
  schemaEpoch := 1
  placementVshard := some 7
  nowMs := 1000
  run := countRun
  cookie := "c1"

def requestA : String := "\x7b\"ref\":\"notes#add\",\"args\":\x7b\"body\":\"a\"\x7d\x7d"

def requestB : String := "\x7b\"ref\":\"notes#add\",\"args\":\x7b\"body\":\"b\"\x7d\x7d"

/-- SHA-256 on the two requests. -/
def sampleSha256 (bytes : ByteArray) : ByteArray :=
  if bytes = encodeText requestA then
    ⟨#[0x14, 0x55, 0xc4, 0x33, 0xc8, 0x30, 0xa3, 0x1b, 0x54, 0x61, 0xfc, 0xa6, 0x77, 0x7a, 0x28, 0x6c,
    0xe3, 0x25, 0x56, 0xf6, 0x75, 0x28, 0xf3, 0x48, 0xc1, 0x75, 0x13, 0x3c, 0xe1, 0x11, 0x7b, 0x52]⟩
  else
    ⟨#[0x87, 0x29, 0x78, 0x26, 0x87, 0x97, 0xf7, 0xa3, 0xaf, 0x6b, 0xcb, 0x69, 0xdc, 0x18, 0x24, 0x2a,
    0x5d, 0xa2, 0x86, 0xcf, 0x33, 0xf7, 0x53, 0x64, 0xf8, 0x1d, 0x1e, 0x85, 0x39, 0x9d, 0x67, 0x45]⟩

/-- A call, its retry and another request under its ids. -/
theorem count_at_most_once : MutationsAtMostOnce sampleSha256 IDENTITY_CODEC 0
    [countCall requestA, countCall requestA, countCall requestB] :=
  mutations_at_most_once _ _ _ _ (by
    have hne : requestHash sampleSha256 requestA ≠ requestHash sampleSha256 requestB := by decide
    intro c hc d hd he
    simp only [List.mem_cons, List.not_mem_nil, or_false] at hc hd
    rcases hc with rfl | rfl | rfl <;> rcases hd with rfl | rfl | rfl <;>
      first
        | rfl
        | exact absurd he hne
        | exact absurd he.symm hne)

end Chardb.OpLog
