import Chardb.AuthEpochs.ShardEpochs

/-!
# A shard told of auth epochs

Runs of a shard over its live transactions and the auth invalidations that a Catalog sends it, in any
order, late and repeated. A newer epoch wakes every active registration of its scope; as long as the
scope is watched its epoch is not forgotten, so that older and repeated messages change nothing.
-/

namespace Chardb.AuthEpochs

open Chardb.Lib Chardb.Live

/-- A shard, with what was enqueued for and acknowledged by its registrations. -/
structure AuthWorld where
  live : World
  epochs : AuthEpochTable

def AuthWorld.initial : AuthWorld := ⟨.initial, .empty⟩

/-- The tables of the shard. -/
def AuthWorld.db (w : AuthWorld) : AuthDb := ⟨w.live.db, w.epochs⟩

/-- A transaction of the shard. -/
inductive AuthCall (ν : Type)
  | live (call : LiveCall ν)
  | invalidateAuthScope (request : CdbAuthInvalidationRequest) (nowMs : Int)

/-- The epoch of the request is newer than the one stored. -/
def AuthWorld.Newer (w : AuthWorld) (request : CdbAuthInvalidationRequest) : Prop :=
  ∀ row ∈ w.epochs.find? request.key, row.epoch < request.epoch

/-- The active registrations of the scope of the request. -/
def AuthWorld.Concerns (w : AuthWorld) (request : CdbAuthInvalidationRequest) (k : RegistrationKey) :
    Prop :=
  ∃ p, w.live.db.payload? k = some p ∧ request.scope.holds request.scopeId p = true

variable {ν : Type} [JsNumber ν] (sha256Hex : String → String)

/-- One transaction: it commits, or it throws and is rolled back. -/
def AuthWorld.step (w : AuthWorld) : AuthCall ν → AuthWorld
  | .live call => { w with live := w.live.step sha256Hex call }
  | .invalidateAuthScope request nowMs =>
    match Tx.transactionSync (apply request nowMs) w.db with
    | (.ok res, db) =>
      { live :=
          { db := db.live
            enqueued := fun k =>
              {s | s ∈ w.live.enqueued k ∨ (w.Newer request ∧ w.Concerns request k ∧ s = res.changeSeq)}
            acknowledged := w.live.acknowledged }
        epochs := db.epochs }
    | (.error _, _) => w

def AuthWorld.run (w : AuthWorld) (calls : List (AuthCall ν)) : AuthWorld :=
  calls.foldl (AuthWorld.step sha256Hex) w

/-- The scope is watched before each of the transactions. -/
def WatchedThroughout (key : ScopeKey) : AuthWorld → List (AuthCall ν) → Prop
  | _, [] => True
  | w, call :: calls =>
    Watched w.live.db key ∧ WatchedThroughout key (w.step sha256Hex call) calls

variable {sha256Hex} {w : AuthWorld} {request : CdbAuthInvalidationRequest} {nowMs : Int}
  {res : CdbAuthInvalidationResult} {db' : AuthDb} {key : ScopeKey}

/-! ## One transaction -/

theorem AuthWorld.step_returns (h : (apply request nowMs).Returns w.db res db') :
    w.step sha256Hex (.invalidateAuthScope request nowMs : AuthCall ν) =
      { live :=
          { db := db'.live
            enqueued := fun k =>
              {s | s ∈ w.live.enqueued k ∨ (w.Newer request ∧ w.Concerns request k ∧ s = res.changeSeq)}
            acknowledged := w.live.acknowledged }
        epochs := db'.epochs } := by
  rw [step, Tx.transactionSync_returns.mpr h]

theorem AuthWorld.step_throws {e : Thrown} (h : (apply request nowMs).Throws w.db e db') :
    w.step sha256Hex (.invalidateAuthScope request nowMs : AuthCall ν) = w := by
  rw [step, Tx.transactionSync_throws.mpr ⟨rfl, _, h⟩]

/-- What the invariant of the live store says of the shard. -/
def AuthWorld.Covered (w : AuthWorld) : Prop :=
  Live.Covered w.live.db w.live.enqueued w.live.acknowledged

theorem AuthWorld.Covered.step (hc : w.Covered) (call : AuthCall ν) :
    (w.step sha256Hex call).Covered := by
  cases call with
  | live call => exact Live.Covered.step hc call
  | invalidateAuthScope request nowMs =>
    rcases (apply request nowMs).returns_or_throws w.db with ⟨res, h⟩ | ⟨e, h⟩
    · rw [AuthWorld.step_returns h]
      obtain ⟨-, -, ⟨row, hrow, hle, -, hdb⟩ | ⟨hnew, haccepts⟩⟩ := apply_returns h
      · -- an epoch that is stored enqueues nothing
        have hold : ¬ w.Newer request := fun hn => absurd (hn row hrow) (Int.not_lt.mpr hle)
        rw [hdb]
        exact hc.quiet (fun k => by simp [hold]) fun k => rfl
      · have henq : Enqueues ((EnqueueOp.authScope request.scope request.scopeId).Affects w.live.db)
            w.live.db _ res.changeSeq := haccepts.enqueues
        refine (Live.Covered.enqueue hc henq).quiet (fun k => ?_) fun k => rfl
        ext s
        exact ⟨fun hs => hs.imp_right fun h => ⟨h.2.1, h.2.2⟩,
          fun hs => hs.imp_right fun h => ⟨hnew, h.1, h.2⟩⟩
    · rw [AuthWorld.step_throws h]
      exact hc

theorem AuthWorld.Covered.run (hc : w.Covered) (calls : List (AuthCall ν)) :
    (w.run sha256Hex calls).Covered := by
  induction calls generalizing w with
  | nil => exact hc
  | cons call calls ih => exact ih (hc.step call)

/-- The epoch of a watched scope only grows. -/
theorem AuthWorld.step_epoch {e : Int} (hwatched : Watched w.live.db key)
    (he : storedEpoch? w.epochs key = some e) (call : AuthCall ν) :
    ∃ e', storedEpoch? (w.step sha256Hex call).epochs key = some e' ∧ e ≤ e' := by
  cases call with
  | live call => exact ⟨e, he, le_rfl⟩
  | invalidateAuthScope request nowMs =>
    rcases (apply request nowMs).returns_or_throws w.db with ⟨res, h⟩ | ⟨e, h⟩
    · rw [AuthWorld.step_returns h]
      obtain ⟨-, -, ⟨row, -, -, -, hdb⟩ | ⟨hnew, haccepts⟩⟩ := apply_returns h
      · exact ⟨e, by rw [hdb]; exact he, le_rfl⟩
      · by_cases hkey : key = request.key
        · subst hkey
          obtain ⟨row, hrow, rfl⟩ := Option.map_eq_some_iff.mp he
          exact ⟨request.epoch, haccepts.stored, (hnew row hrow).le⟩
        · exact ⟨e, (haccepts.kept key hwatched hkey).trans he, le_rfl⟩
    · rw [AuthWorld.step_throws h]
      exact ⟨_, he, le_rfl⟩

theorem AuthWorld.run_epoch {e : Int} {calls : List (AuthCall ν)}
    (hwatched : WatchedThroughout sha256Hex key w calls) (he : storedEpoch? w.epochs key = some e) :
    ∃ e', storedEpoch? (w.run sha256Hex calls).epochs key = some e' ∧ e ≤ e' := by
  induction calls generalizing w e with
  | nil => exact ⟨e, he, le_rfl⟩
  | cons call calls ih =>
    obtain ⟨hfirst, hrest⟩ := hwatched
    have hone : ∃ e₁, storedEpoch? (w.step sha256Hex call).epochs key = some e₁ ∧ e ≤ e₁ :=
      AuthWorld.step_epoch hfirst he call
    obtain ⟨e₁, he₁, hle₁⟩ := hone
    obtain ⟨e₂, he₂, hle₂⟩ := ih hrest he₁
    exact ⟨e₂, he₂, hle₁.trans hle₂⟩

/-- A newer epoch is the last thing enqueued for every active registration of its scope. -/
theorem AuthWorld.Covered.woken (hc : w.Covered) (h : (apply request nowMs).Returns w.db res db')
    (hnew : w.Newer request) {k : RegistrationKey} (hk : w.Concerns request k) :
    IsGreatest ((w.step sha256Hex (.invalidateAuthScope request nowMs : AuthCall ν)).live.enqueued k)
      res.changeSeq := by
  rw [AuthWorld.step_returns h]
  obtain ⟨-, -, ⟨row, hrow, hle, -, -⟩ | ⟨-, haccepts⟩⟩ := apply_returns h
  · exact absurd (hnew row hrow) (Int.not_lt.mpr hle)
  obtain ⟨c, hclock, -, henq⟩ := Live.Covered.clock hc
  have hactive : w.live.db.Active k := by
    obtain ⟨p, hp, -⟩ := hk
    unfold LiveDb.Active
    rw [hp]
    rfl
  refine ⟨.inr ⟨hnew, hk, rfl⟩, fun s hs => ?_⟩
  rcases hs with hs | ⟨-, -, rfl⟩
  · have hle := henq k hactive s hs
    rcases haccepts.enqueues.advances with ha | ⟨-, hno⟩
    · have hseq : some c = some (res.changeSeq - 1) := hclock.symm.trans ha
      have := Option.some.inj hseq
      omega
    · exact absurd hk (hno k)
  · exact le_rfl

/-! ## The guarantee -/

/-- What an answered request means for the rest of the run. -/
structure Delivered (sha256Hex : String → String) (w : AuthWorld) (request : CdbAuthInvalidationRequest)
    (nowMs : Int) (res : CdbAuthInvalidationResult) (calls : List (AuthCall ν)) : Prop where
  /-- The answer names an epoch that is at least the one asked for. -/
  answer : request.epoch ≤ res.epoch
  /-- A newer epoch is the last thing enqueued for each active registration of the scope. -/
  woken : w.Newer request → ∀ k, w.Concerns request k →
    IsGreatest ((w.step sha256Hex (.invalidateAuthScope request nowMs : AuthCall ν)).live.enqueued k)
      res.changeSeq
  /-- As long as the scope stays watched, a message of the same or an older epoch changes nothing. -/
  redelivery :
    WatchedThroughout sha256Hex request.key
      (w.step sha256Hex (.invalidateAuthScope request nowMs : AuthCall ν)) calls →
    ∀ (request' : CdbAuthInvalidationRequest) (nowMs' : Int), request'.Valid → IsCounter nowMs' →
      request'.key = request.key → request'.epoch ≤ request.epoch →
      let db := ((w.step sha256Hex (.invalidateAuthScope request nowMs : AuthCall ν)).run sha256Hex
        calls).db
      ∃ res', (apply request' nowMs').Returns db res' db ∧ request.epoch ≤ res'.epoch

/-- In every run of a shard no invalidation is lost, and an auth epoch that it answers for takes effect
once. -/
theorem auth_epochs_delivered_once (before calls : List (AuthCall ν)) :
    let w := AuthWorld.initial.run sha256Hex before
    InvalidationsKept w.live ∧
      ∀ (request : CdbAuthInvalidationRequest) (nowMs : Int) (res : CdbAuthInvalidationResult)
        (db' : AuthDb), (apply request nowMs).Returns w.db res db' →
          Delivered sha256Hex w request nowMs res calls := by
  have hc : (AuthWorld.initial.run sha256Hex before).Covered :=
    AuthWorld.Covered.run (w := .initial) covered_initial before
  refine ⟨Live.Covered.kept hc, fun request nowMs res db' h => ⟨(apply_stored h).1,
    fun hnew k hk => hc.woken h hnew hk, ?_⟩⟩
  intro hwatched request' nowMs' hvalid hnow hkey hle
  obtain ⟨hanswer, hstored⟩ := apply_stored h
  have hfirst : storedEpoch? ((AuthWorld.initial.run sha256Hex before).step sha256Hex
      (.invalidateAuthScope request nowMs : AuthCall ν)).epochs request.key = some res.epoch := by
    rw [AuthWorld.step_returns h]
    exact hstored
  obtain ⟨e, he, hge⟩ := AuthWorld.run_epoch hwatched hfirst
  obtain ⟨row, hrow, rfl⟩ := Option.map_eq_some_iff.mp he
  refine ⟨request'.known row, apply_known hvalid hnow (by rw [hkey]; exact hrow) (by omega), ?_⟩
  exact hanswer.trans hge

end Chardb.AuthEpochs
