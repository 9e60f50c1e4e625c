import Chardb.Live.Invalidation

/-!
# Auth epochs on a shard

A shard keeps the newest auth epoch that it was told of for each scope, and wakes the live
registrations of the scope when a newer one arrives. A scope that no active registration belongs to
may be forgotten.
-/

namespace Chardb.AuthEpochs

open Chardb.Lib Chardb.Live

/-! ## Tables -/

/-- `(scope, scope_id)`. -/
abbrev ScopeKey := AuthScope × String

/-- A row of `_chardb_auth_invalidation_epochs`. -/
structure AuthEpochRow where
  scope : AuthScope
  scopeId : String
  epoch : Int
  changeSeq : Int
  registrations : Int
  updatedAt : Int
  deriving DecidableEq

def AuthEpochRow.key (r : AuthEpochRow) : ScopeKey := (r.scope, r.scopeId)

def AuthEpochRow.Check (r : AuthEpochRow) : Prop :=
  0 < r.epoch ∧ 0 ≤ r.changeSeq ∧ 0 ≤ r.registrations ∧ 0 ≤ r.updatedAt

instance : DecidablePred AuthEpochRow.Check := fun _ => inferInstanceAs (Decidable (_ ∧ _))

abbrev AuthEpochTable := Table AuthEpochRow.key AuthEpochRow.Check

/-- The live tables of a shard and its auth epochs. -/
structure AuthDb where
  live : LiveDb
  epochs : AuthEpochTable

abbrev AuthTx := Tx Thrown AuthDb

variable {α : Type}

def onLive : LiveTx α → AuthTx α := .zoom AuthDb.live fun db live => { db with live }

def onAuthEpochs : Tx Thrown AuthEpochTable α → AuthTx α :=
  .zoom AuthDb.epochs fun db epochs => { db with epochs }

/-! ## Requests -/

def CDB_AUTH_INVALIDATION_SCOPE_LIMIT : Nat := 8193
def SCOPE_ID_MAX_BYTES : Nat := 256

/-- `/^[^\0]+$/`, and at most 256 bytes. -/
def IsScopeId (value : String) : Prop :=
  value ≠ "" ∧ '\x00' ∉ value.toList ∧ value.utf8ByteSize ≤ SCOPE_ID_MAX_BYTES

instance : DecidablePred IsScopeId := fun _ => inferInstanceAs (Decidable (_ ∧ _ ∧ _))

structure CdbAuthInvalidationRequest where
  scope : AuthScope
  scopeId : String
  epoch : Int
  recoveryGeneration : Int
  deriving DecidableEq

def CdbAuthInvalidationRequest.key (request : CdbAuthInvalidationRequest) : ScopeKey :=
  (request.scope, request.scopeId)

/-- The answer to a request; `accepted` is always `true`. -/
structure CdbAuthInvalidationResult where
  scope : AuthScope
  scopeId : String
  epoch : Int
  recoveryGeneration : Int
  registrations : Int
  changeSeq : Int
  deriving DecidableEq

def invalid (message : String) : Thrown := invalidArgs ("Cdb auth invalidation: " ++ message)

def validate (request : CdbAuthInvalidationRequest) : AuthTx Unit := do
  .require (IsScopeId request.scopeId ∧ (request.scope = .global → request.scopeId = "global"))
    (invalid "scope id is invalid")
  .require (IsGeneration request.epoch) (invalid "epoch is invalid")
  .require (IsCounter request.recoveryGeneration) (invalid "recovery generation is invalid")

/-! ## The store -/

/-- An active registration belongs to the scope. -/
def Subscribed (db : LiveDb) (key : ScopeKey) : Prop :=
  ∃ r ∈ db.subscriptions.rows, r.state.payload?.any (key.1.holds key.2) = true

instance (db : LiveDb) : DecidablePred (Subscribed db) := fun _ => List.decidableBEx _ _

/-- Forget the tenants and the principals without an active registration. -/
def pruneInactiveScopes : AuthTx Unit := do
  let live ← .gets AuthDb.live
  let _ ← onAuthEpochs (Table.delete fun r => decide (r.scope = .tenant ∧ ¬ Subscribed live r.key))
  let _ ← onAuthEpochs (Table.delete fun r => decide (r.scope = .principal ∧ ¬ Subscribed live r.key))
  pure ()

def scopeLimitReached : Thrown := .cdb
  { code := .rateLimited
    message := "Cdb auth invalidation history reached its " ++
      toString CDB_AUTH_INVALIDATION_SCOPE_LIMIT ++ "-scope limit"
    retryAfterMs := some 1000 }

/-- Only a scope that was not there takes room. -/
def assertScopeCapacity (existing : Option AuthEpochRow) : AuthTx Unit :=
  match existing with
  | some _ => pure ()
  | none => do
    let count ← .gets fun db => db.epochs.count
    .require (IsCounter count) (invariantError "Cdb auth invalidation scope count is invalid")
    .require (count < CDB_AUTH_INVALIDATION_SCOPE_LIMIT) scopeLimitReached

/-- `ON CONFLICT … DO UPDATE … WHERE excluded.epoch > epoch`. -/
def AuthEpochRow.replacedBy (excluded r : AuthEpochRow) : AuthEpochRow where
  scope := r.scope
  scopeId := r.scopeId
  epoch := if r.epoch < excluded.epoch then excluded.epoch else r.epoch
  changeSeq := if r.epoch < excluded.epoch then excluded.changeSeq else r.changeSeq
  registrations := if r.epoch < excluded.epoch then excluded.registrations else r.registrations
  updatedAt := if r.epoch < excluded.epoch then excluded.updatedAt else r.updatedAt

/-- The row of a new epoch, and the write of it. -/
def storeEpoch (request : CdbAuthInvalidationRequest) (nowMs : Int) (invalidation : EnqueueResult) :
    AuthTx Unit :=
  let row : AuthEpochRow :=
    { scope := request.scope, scopeId := request.scopeId, epoch := request.epoch
      changeSeq := invalidation.changeSeq, registrations := invalidation.registrations
      updatedAt := nowMs }
  onAuthEpochs (Table.upsert row row.replacedBy (.constraint "_chardb_auth_invalidation_epochs"))

/-- An epoch that the shard was not told of yet. -/
def acceptEpoch (request : CdbAuthInvalidationRequest) (nowMs : Int) (existing : Option AuthEpochRow) :
    AuthTx CdbAuthInvalidationResult := do
  pruneInactiveScopes
  assertScopeCapacity existing
  let invalidation ← onLive (enqueueAuthScopeInvalidations request.scope request.scopeId)
  storeEpoch request nowMs invalidation
  pure
    { scope := request.scope, scopeId := request.scopeId, epoch := request.epoch
      recoveryGeneration := request.recoveryGeneration
      registrations := invalidation.registrations, changeSeq := invalidation.changeSeq }

/-- The answer to an epoch that is stored already. -/
def CdbAuthInvalidationRequest.known (request : CdbAuthInvalidationRequest) (existing : AuthEpochRow) :
    CdbAuthInvalidationResult where
  scope := request.scope
  scopeId := request.scopeId
  epoch := existing.epoch
  recoveryGeneration := request.recoveryGeneration
  registrations := existing.registrations
  changeSeq := existing.changeSeq

/-- `CdbAuthInvalidationStore.apply`. -/
def apply (request : CdbAuthInvalidationRequest) (nowMs : Int) : AuthTx CdbAuthInvalidationResult := do
  validate request
  .require (IsCounter nowMs) (invalid "timestamp is invalid")
  let existing ← .gets fun db => db.epochs.find? request.key
  match existing with
  | some row =>
    if request.epoch ≤ row.epoch then pure (request.known row) else acceptEpoch request nowMs existing
  | none => acceptEpoch request nowMs existing

/-! ## What it does -/

/-- The epoch that is stored for a scope. -/
def storedEpoch? (epochs : AuthEpochTable) (key : ScopeKey) : Option Int :=
  (epochs.find? key).map AuthEpochRow.epoch

/-- The scope is not pruned: it is the global one, or an active registration belongs to it. -/
def Watched (db : LiveDb) (key : ScopeKey) : Prop := key.1 = .global ∨ Subscribed db key

/-- The requests that pass the checks. -/
structure CdbAuthInvalidationRequest.Valid (request : CdbAuthInvalidationRequest) : Prop where
  scopeId : IsScopeId request.scopeId
  global : request.scope = .global → request.scopeId = "global"
  epoch : IsGeneration request.epoch
  recoveryGeneration : IsCounter request.recoveryGeneration

variable {request : CdbAuthInvalidationRequest} {nowMs : Int} {db db' : AuthDb} {u : Unit}

theorem validate_returns : (validate request).Returns db u db' ↔ request.Valid ∧ db = db' := by
  simp only [validate, Tx.bind_returns, Tx.require_returns]
  constructor
  · rintro ⟨_, _, ⟨⟨h₁, h₂⟩, rfl⟩, _, _, ⟨h₃, rfl⟩, h₄, rfl⟩
    exact ⟨⟨h₁, h₂, h₃, h₄⟩, rfl⟩
  · rintro ⟨⟨h₁, h₂, h₃, h₄⟩, rfl⟩
    exact ⟨(), db, ⟨⟨h₁, h₂⟩, rfl⟩, (), db, ⟨h₃, rfl⟩, h₄, rfl⟩

theorem pruneInactiveScopes_returns (h : pruneInactiveScopes.Returns db u db') :
    db'.live = db.live ∧ (∀ r ∈ db'.epochs, r ∈ db.epochs) ∧
      ∀ key, Watched db.live key → db'.epochs.find? key = db.epochs.find? key := by
  simp only [pruneInactiveScopes, onAuthEpochs, Tx.bind_returns, Tx.gets_returns, Tx.zoom_returns,
    Table.delete_returns, Tx.pure_returns] at h
  obtain ⟨_, _, ⟨rfl, rfl⟩, _, _, ⟨_, ⟨rfl, -⟩, rfl⟩, _, _, ⟨_, ⟨rfl, -⟩, rfl⟩, -, rfl⟩ := h
  refine ⟨rfl, fun r hr => (Table.mem_deleteWhere.mp (Table.mem_deleteWhere.mp hr).1).1,
    fun key hkey => ?_⟩
  rw [Table.find?_deleteWhere, Table.find?_deleteWhere]
  cases hfind : db.epochs.find? key with
  | none => rfl
  | some r =>
    obtain ⟨-, rfl⟩ := Table.find?_eq_some.mp hfind
    have hkept : ∀ scope, scope ≠ .global →
        (some r).filter (fun r => !decide (r.scope = scope ∧ ¬ Subscribed db.live r.key)) = some r := by
      intro scope hscope
      refine Option.filter_some_pos ?_
      rw [Bool.not_eq_true', decide_eq_false_iff_not]
      rintro ⟨heq, hno⟩
      rcases hkey with hg | hs
      · exact hscope (heq ▸ hg)
      · exact hno hs
    rw [hkept .tenant (by decide), hkept .principal (by decide)]

theorem assertScopeCapacity_readOnly (existing : Option AuthEpochRow) :
    (assertScopeCapacity existing).ReadOnly := by
  unfold assertScopeCapacity
  split
  · exact Tx.readOnly_pure _
  · exact (Tx.readOnly_gets _).bind fun _ => (Tx.readOnly_require _ _).bind fun _ => Tx.readOnly_require _ _

/-- What an accepted epoch leaves: the registrations of the scope are woken, and the scope has the new
epoch; no scope that is watched loses its own. -/
structure Accepts (request : CdbAuthInvalidationRequest) (res : CdbAuthInvalidationResult)
    (db db' : AuthDb) : Prop where
  epoch : res.epoch = request.epoch
  enqueues : Enqueues (fun k => ∃ p, db.live.payload? k = some p ∧
    request.scope.holds request.scopeId p = true) db.live db'.live res.changeSeq
  stored : storedEpoch? db'.epochs request.key = some request.epoch
  kept : ∀ key, Watched db.live key → key ≠ request.key →
    storedEpoch? db'.epochs key = storedEpoch? db.epochs key

theorem acceptEpoch_returns {existing : Option AuthEpochRow} {res : CdbAuthInvalidationResult}
    (hnew : ∀ row ∈ db.epochs.find? request.key, row.epoch < request.epoch)
    (h : (acceptEpoch request nowMs existing).Returns db res db') : Accepts request res db db' := by
  simp only [acceptEpoch, storeEpoch, onLive, onAuthEpochs, Tx.bind_returns, Tx.zoom_returns,
    Table.upsert_returns, Tx.pure_returns] at h
  obtain ⟨_, pruned, hprune, _, _, hcap, invalidation, _, ⟨live, henq, rfl⟩, _, _,
    ⟨epochs, hupsert, rfl⟩, rfl, rfl⟩ := h
  obtain ⟨hlive, hmem, hfind⟩ := pruneInactiveScopes_returns hprune
  obtain rfl := (assertScopeCapacity_readOnly existing).returns hcap
  have hstored := Table.find?_upsert hupsert fun _ => rfl
  refine ⟨rfl, ?_, ?_, fun key hkey hne => ?_⟩
  · rw [← hlive]
    exact enqueueAndCount_returns henq
  · show (epochs.find? request.key).map _ = _
    have hrow : ∀ row ∈ pruned.epochs.find? request.key, row.epoch < request.epoch := by
      intro row hrow
      obtain ⟨hrow, hkey⟩ := Table.find?_eq_some.mp hrow
      exact hnew row (Table.find?_eq_some.mpr ⟨hmem row hrow, hkey⟩)
    rw [hstored]
    split
    · cases hold : pruned.epochs.find? request.key with
      | none => rfl
      | some row => exact congrArg some (if_pos (hrow row hold))
    · rename_i hne
      exact absurd rfl hne
  · show (epochs.find? key).map _ = _
    rw [hstored, if_neg fun he => hne he.symm, hfind key hkey]
    rfl

/-- A request is answered from the stored epoch, with no change, or its epoch is new and accepted. -/
theorem apply_returns {res : CdbAuthInvalidationResult} (h : (apply request nowMs).Returns db res db') :
    request.Valid ∧ IsCounter nowMs ∧
      ((∃ row, db.epochs.find? request.key = some row ∧ request.epoch ≤ row.epoch ∧
          res = request.known row ∧ db' = db) ∨
        ((∀ row ∈ db.epochs.find? request.key, row.epoch < request.epoch) ∧
          Accepts request res db db')) := by
  simp only [apply, Tx.bind_returns, Tx.require_returns, Tx.gets_returns] at h
  obtain ⟨_, _, hcheck, _, _, ⟨hnow, rfl⟩, _, _, ⟨rfl, rfl⟩, h⟩ := h
  obtain ⟨hvalid, rfl⟩ := validate_returns.mp hcheck
  refine ⟨hvalid, hnow, ?_⟩
  cases hfind : db.epochs.find? request.key with
  | none =>
    rw [hfind] at h
    have hnew : ∀ row' ∈ (none : Option AuthEpochRow), row'.epoch < request.epoch := by
      rintro _ ⟨⟩
    exact .inr ⟨hnew, acceptEpoch_returns (by rw [hfind]; exact hnew) h⟩
  | some row =>
    rw [hfind] at h
    rcases Tx.ite_returns.mp h with ⟨hle, h⟩ | ⟨hlt, h⟩
    · obtain ⟨rfl, rfl⟩ := Tx.pure_returns.mp h
      exact .inl ⟨row, rfl, hle, rfl, rfl⟩
    · have hnew : ∀ row' ∈ some row, row'.epoch < request.epoch := by
        rintro _ ⟨⟩
        exact Int.not_le.mp hlt
      exact .inr ⟨hnew, acceptEpoch_returns (by rw [hfind]; exact hnew) h⟩

/-- Whatever the answer, the epoch of the request is known afterwards. -/
theorem apply_stored {res : CdbAuthInvalidationResult} (h : (apply request nowMs).Returns db res db') :
    request.epoch ≤ res.epoch ∧ storedEpoch? db'.epochs request.key = some res.epoch := by
  obtain ⟨-, -, ⟨row, hrow, hle, rfl, rfl⟩ | ⟨-, haccepts⟩⟩ := apply_returns h
  · exact ⟨hle, by rw [storedEpoch?, hrow]; rfl⟩
  · rw [haccepts.epoch]
    exact ⟨le_rfl, haccepts.stored⟩

/-- A request with an epoch that is stored is answered again, and nothing happens. -/
theorem apply_known {row : AuthEpochRow} (hvalid : request.Valid) (hnow : IsCounter nowMs)
    (hfind : db.epochs.find? request.key = some row) (hle : request.epoch ≤ row.epoch) :
    (apply request nowMs).Returns db (request.known row) db := by
  simp only [apply, Tx.bind_returns, Tx.require_returns, Tx.gets_returns]
  refine ⟨(), db, validate_returns.mpr ⟨hvalid, rfl⟩, (), db, ⟨hnow, rfl⟩, _, db, ⟨rfl, rfl⟩, ?_⟩
  rw [hfind]
  exact Tx.ite_returns.mpr (.inl ⟨hle, Tx.pure_returns.mpr ⟨rfl, rfl⟩⟩)

end Chardb.AuthEpochs
