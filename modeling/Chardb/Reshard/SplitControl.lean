import Chardb.Reshard.Identity

/-!
# Split control

What a Cdb keeps of the migrations it takes part in, and the checks that every movement call
makes first: the identity that the migration is bound to, and its row of `_chardb_split_state`.
-/

namespace Chardb.Reshard

open Chardb.Lib

structure SplitControl where
  identities : IdentityTable
  splits : SplitStateTable

def SplitControl.empty : SplitControl := ⟨.empty, .empty⟩

abbrev ControlTx := Tx Thrown SplitControl

def onIdentities {α : Type} : IdentityTx α → ControlTx α :=
  .zoom SplitControl.identities fun c identities => { c with identities }

def onSplits {α : Type} : Tx Thrown SplitStateTable α → ControlTx α :=
  .zoom SplitControl.splits fun c splits => { c with splits }

/-- What `_chardb_split_state` holds under the id. -/
def SplitControl.split? (c : SplitControl) (migId : String) : Option SplitStateRow :=
  c.splits.find? migId

/-- The row is the one of a split of this role and range that still moves. -/
def SplitStateRow.moves (r : SplitStateRow) (role : SplitRole) (lo hi : Int) : Bool :=
  r.role = role && r.rangeLo = lo && r.rangeHi = hi && !r.drained && !r.abortStarted

/-- `assertReshardMovement`. -/
def assertReshardMovement (schema : CdbSchema) (args : MovementArgs) :
    ControlTx StoredSplitIdentity := do
  let identity ← onIdentities (assertMovement schema args)
  let split ← .gets (SplitControl.split? · args.migId)
  .require (split.any (fun r => r.moves args.role identity.rangeLo identity.rangeHi) = true)
    (phaseMismatch
      ("migration " ++ args.migId ++ " is no longer active on its " ++ args.role.text ++ " Cdb"))
  pure identity

/-- `assertReshardBeginAllowed`. -/
def assertReshardBeginAllowed (migId : String) (lo hi : Int) (role : SplitRole) : ControlTx Unit := do
  let state ← .gets (SplitControl.split? · migId)
  .require (state.all (fun r => r.moves role lo hi) = true)
    (phaseMismatch (role.text ++
      " split id belongs to a different immutable identity or a canceled split"))

/-- `assertCdbSplitHistoryCapacity`. -/
def assertCdbSplitHistoryCapacity (migId : String) : ControlTx Unit := do
  let known ← .gets (SplitControl.split? · migId)
  let count ← .gets fun c => c.splits.count
  .require (known.isSome = true ∨ count < CDB_SPLIT_IDENTITY_LIMIT)
    (.cdb
      { code := .rateLimited
        message := "Cdb split ownership history reached its durable row limit" })

/-- The row that an abort leaves for a migration that never began here. -/
def abortTombstone (migId : String) (lo hi : Int) (role : SplitRole)
    (destinationGeneration : Option Int) (nowMs : Int) : SplitStateRow where
  migId
  rangeLo := lo
  rangeHi := hi
  role
  abortStarted := true
  drained := true
  destinationGeneration
  updatedAt := nowMs

/-- The generation that a tombstone of this role may carry. -/
def tombstoneGeneration (role : SplitRole) (destinationGeneration : Option Int) : Bool :=
  match role with
  | .dest => destinationGeneration.any fun g => decide (IsGeneration g)
  | .source => destinationGeneration.isNone

/-- `persistReshardAbortTombstone`. -/
def persistReshardAbortTombstone (migId : String) (lo hi : Int) (role : SplitRole)
    (destinationGeneration : Option Int) (nowMs : Int) : ControlTx Unit := do
  assertCdbReshardRangeIdentity migId lo hi
  .require (tombstoneGeneration role destinationGeneration = true)
    (invalidArgs "abort tombstone destination generation is invalid")
  assertCdbSplitHistoryCapacity migId
  let _ ← onSplits (Table.insertIgnore (abortTombstone migId lo hi role destinationGeneration nowMs))
  let state ← .gets (SplitControl.split? · migId)
  .require (state.any (fun r => r.role = role && r.rangeLo = lo && r.rangeHi = hi && r.drained) = true)
    (phaseMismatch ("migration " ++ migId ++ " abort tombstone conflicts with its " ++ role.text ++
      " split state"))

/-- The row belongs to a cleanup of this role and range. -/
def checkExactSplit (migId : String) (lo hi : Int) (role : SplitRole) (allowMissingIdentity : Bool)
    (state : SplitStateRow) : Except Thrown SplitStateRow :=
  if ¬ (state.role = role ∧ state.rangeLo = lo ∧ state.rangeHi = hi) then
    .error (phaseMismatch ("migration " ++ migId ++ " cleanup does not match its " ++ role.text ++
      " split state"))
  else if allowMissingIdentity = true ∧ state.drained = false then
    .error (phaseMismatch ("migration " ++ migId ++ " has active " ++ role.text ++
      " split state without a bound identity"))
  else .ok state

/-- `readExactSplitState`. -/
def readExactSplitState (migId : String) (lo hi : Int) (role : SplitRole)
    (allowMissingIdentity : Bool) : ControlTx (Option SplitStateRow) := do
  let found ← .gets (SplitControl.split? · migId)
  match found with
  | none => pure none
  | some state => do
    let st ← .ofExcept (checkExactSplit migId lo hi role allowMissingIdentity state)
    pure (some st)

/-! ## What the checks throw -/

/-- A refusal of the checks: bad arguments, the wrong phase or the wrong schema. -/
def Refusal (e : Thrown) : Prop :=
  e.code? = some .invalidArgs ∨ e.code? = some .reshardPhaseMismatch ∨ e.code? = some .staleEpoch

theorem expectedTableSpec_error {packaged : List TableSpec} {names : List String} {raw : TableSpec}
    {e : Thrown} (h : expectedTableSpec packaged names raw = .error e) : Refusal e := by
  unfold expectedTableSpec at h
  split at h
  · cases h; exact .inl rfl
  · split at h
    · cases h; exact .inl rfl
    · split at h
      · cases h; exact .inl rfl
      · split at h
        · cases h
        · cases h; exact .inr (.inl rfl)

theorem expectedTableSpecs_error {packaged : List TableSpec} {requested : List TableSpec}
    {names : List String} {e : Thrown} (h : expectedTableSpecs packaged names requested = .error e) :
    Refusal e := by
  induction requested generalizing names with
  | nil => cases h
  | cons raw rest ih =>
    unfold expectedTableSpecs at h
    split at h
    · exact ih h
    · rename_i e' he
      cases h
      exact expectedTableSpec_error he

theorem canonicalRegisteredTableSpecs_error {packaged requested : List TableSpec} {e : Thrown}
    (h : canonicalRegisteredTableSpecs packaged requested = .error e) : Refusal e := by
  unfold canonicalRegisteredTableSpecs at h
  split at h
  · cases h; exact .inl rfl
  · split at h
    · cases h; exact .inl rfl
    · split at h
      · rename_i e' he
        cases h
        exact expectedTableSpecs_error he
      · split at h
        · cases h; exact .inr (.inl rfl)
        · cases h

theorem throwsOnly_assertActiveSchema {σ : Type} {schema : CdbSchema} {r : CdbReshardSchemaIdentity} :
    (assertActiveSchema schema r : Tx Thrown σ Unit).ThrowsOnly Refusal :=
  (Tx.throwsOnly_require (.inl rfl)).bind fun _ => (Tx.throwsOnly_require (.inl rfl)).bind fun _ =>
    (Tx.throwsOnly_require (.inl rfl)).bind fun _ => Tx.throwsOnly_require (.inr (.inr rfl))

theorem throwsOnly_assertMovement {schema : CdbSchema} {args : MovementArgs} :
    (assertMovement schema args).ThrowsOnly Refusal := by
  have hphase : ∀ m, Refusal (phaseMismatch m) := fun _ => .inr (.inl rfl)
  refine (Tx.throwsOnly_gets _).bind fun _ => (Tx.throwsOnly_ofOption (hphase _)).bind fun _ =>
    throwsOnly_assertActiveSchema.bind fun _ =>
      (Tx.throwsOnly_ofExcept fun _ => canonicalRegisteredTableSpecs_error).bind fun _ =>
        (Tx.throwsOnly_require (hphase _)).bind fun _ => (Tx.throwsOnly_require (hphase _)).bind fun _ =>
          (Tx.throwsOnly_require (hphase _)).bind fun _ =>
            (Tx.throwsOnly_ofExcept fun e he => ?_).bind fun _ =>
              (Tx.throwsOnly_ofExcept fun e he => ?_).bind fun _ => Tx.throwsOnly_pure _
  · unfold checkMovedTable at he
    split at he
    · cases he
    · split at he
      · cases he
      · cases he; exact hphase _
  · unfold checkMovedTables at he
    split at he
    · cases he
    · split at he
      · rename_i e' hc
        cases he
        exact canonicalRegisteredTableSpecs_error hc
      · split at he
        · cases he
        · cases he; exact hphase _

theorem throwsOnly_assertReshardMovement {schema : CdbSchema} {args : MovementArgs} :
    (assertReshardMovement schema args).ThrowsOnly Refusal :=
  throwsOnly_assertMovement.zoom.bind fun _ => (Tx.throwsOnly_gets _).bind fun _ =>
    (Tx.throwsOnly_require (.inr (.inl rfl))).bind fun _ => Tx.throwsOnly_pure _

/-! ## What the checks say -/

section
variable {c c' : SplitControl} {migId : String} {lo hi : Int} {role : SplitRole} {schema : CdbSchema}

@[simp] theorem onIdentities_returns {α : Type} {x : IdentityTx α} {a : α} :
    (onIdentities x).Returns c a c' ↔
      ∃ t, x.Returns c.identities a t ∧ c' = { c with identities := t } := Tx.zoom_returns

@[simp] theorem onSplits_returns {α : Type} {x : Tx Thrown SplitStateTable α} {a : α} :
    (onSplits x).Returns c a c' ↔ ∃ t, x.Returns c.splits a t ∧ c' = { c with splits := t } :=
  Tx.zoom_returns

@[simp] theorem onSplits_throws {α : Type} {x : Tx Thrown SplitStateTable α} {e : Thrown} :
    (onSplits x).Throws c e c' ↔ ∃ t, x.Throws c.splits e t ∧ c' = { c with splits := t } :=
  Tx.zoom_throws

theorem readOnly_onIdentities {α : Type} {x : IdentityTx α} (hx : x.ReadOnly) :
    (onIdentities x).ReadOnly := fun c => by
  have := hx c.identities
  simp only [Tx.after] at this
  simp only [onIdentities, Tx.zoom, Tx.after, this]

theorem SplitStateRow.moves_iff {r : SplitStateRow} :
    r.moves role lo hi = true ↔
      (r.role = role ∧ r.rangeLo = lo ∧ r.rangeHi = hi) ∧ r.drained = false ∧ r.abortStarted = false := by
  simp only [SplitStateRow.moves, Bool.and_eq_true, decide_eq_true_eq, Bool.not_eq_true']
  tauto

theorem readOnly_assertReshardMovement {args : MovementArgs} :
    (assertReshardMovement schema args).ReadOnly :=
  (readOnly_onIdentities readOnly_assertMovement).bind fun _ => (Tx.readOnly_gets _).bind fun _ =>
    (Tx.readOnly_require _ _).bind fun _ => Tx.readOnly_pure _

/-- A movement call that goes through changes nothing, and its split still moves. -/
theorem assertReshardMovement_returns {args : MovementArgs} {identity : StoredSplitIdentity}
    (h : (assertReshardMovement schema args).Returns c identity c') :
    c' = c ∧ ∃ r, c.split? args.migId = some r ∧ r.role = args.role ∧ r.drained = false ∧
      r.abortStarted = false := by
  obtain rfl := readOnly_assertReshardMovement.returns h
  refine ⟨rfl, ?_⟩
  unfold assertReshardMovement at h
  simp only [Tx.bind_returns, Tx.gets_returns, Tx.require_returns, Tx.pure_returns] at h
  obtain ⟨_, _, hid, _, _, ⟨rfl, rfl⟩, _, _, ⟨hany, rfl⟩, _⟩ := h
  obtain rfl := (readOnly_onIdentities readOnly_assertMovement).returns hid
  cases hr : SplitControl.split? _ args.migId with
  | none => simp [hr] at hany
  | some r =>
    rw [hr, Option.any_some] at hany
    obtain ⟨⟨hrole, -, -⟩, hd, ha⟩ := SplitStateRow.moves_iff.mp hany
    exact ⟨r, rfl, hrole, hd, ha⟩

theorem readOnly_assertReshardBeginAllowed :
    (assertReshardBeginAllowed migId lo hi role).ReadOnly :=
  (Tx.readOnly_gets _).bind fun _ => Tx.readOnly_require _ _

theorem readOnly_readExactSplitState {allow : Bool} :
    (readExactSplitState migId lo hi role allow).ReadOnly := by
  refine (Tx.readOnly_gets _).bind fun found => ?_
  cases found with
  | none => exact Tx.readOnly_pure _
  | some st => exact (Tx.readOnly_ofExcept _).bind fun _ => Tx.readOnly_pure _

theorem checkExactSplit_ok {allow : Bool} {state st : SplitStateRow}
    (h : checkExactSplit migId lo hi role allow state = .ok st) :
    st = state ∧ (state.role = role ∧ state.rangeLo = lo ∧ state.rangeHi = hi) := by
  unfold checkExactSplit at h
  split at h
  · cases h
  · rename_i hm
    split at h
    · cases h
    · cases h; exact ⟨rfl, not_not.mp hm⟩

theorem readExactSplitState_returns {allow : Bool} {st? : Option SplitStateRow}
    (h : (readExactSplitState migId lo hi role allow).Returns c st? c') :
    c' = c ∧ st? = c.split? migId ∧ ∀ st ∈ st?, st.role = role ∧ st.rangeLo = lo ∧ st.rangeHi = hi := by
  obtain rfl := readOnly_readExactSplitState.returns h
  refine ⟨rfl, ?_⟩
  unfold readExactSplitState at h
  simp only [Tx.bind_returns, Tx.gets_returns] at h
  obtain ⟨found, _, ⟨rfl, rfl⟩, h⟩ := h
  cases hf : SplitControl.split? _ migId with
  | none =>
    rw [hf] at h
    obtain ⟨rfl, -⟩ := Tx.pure_returns.mp h
    simp
  | some state =>
    rw [hf] at h
    simp only [Tx.bind_returns, Tx.ofExcept_returns, Tx.pure_returns] at h
    obtain ⟨st, _, ⟨hok, rfl⟩, rfl, -⟩ := h
    obtain ⟨rfl, hm⟩ := checkExactSplit_ok hok
    simpa using hm

/-- The tombstone of an abort is put under a free id, or the id has a drained row already. -/
theorem persistReshardAbortTombstone_returns {gen : Option Int} {nowMs : Int} {a : Unit}
    (h : (persistReshardAbortTombstone migId lo hi role gen nowMs).Returns c a c') :
    c'.identities = c.identities ∧ ∀ k, c'.split? k =
      if migId = k then some ((c.split? k).getD (abortTombstone migId lo hi role gen nowMs))
      else c.split? k := by
  unfold persistReshardAbortTombstone assertCdbSplitHistoryCapacity at h
  simp only [Tx.bind_returns, Tx.gets_returns, Tx.require_returns, onSplits_returns] at h
  obtain ⟨_, _, hr, _, _, ⟨hg, rfl⟩, _, _, ⟨_, _, ⟨-, rfl⟩, _, _, ⟨-, rfl⟩, -, rfl⟩, n, _, ⟨t, hins, rfl⟩,
    _, _, ⟨rfl, rfl⟩, -, rfl⟩ := h
  obtain rfl := readOnly_assertCdbReshardRangeIdentity.returns hr
  refine ⟨rfl, fun k => ?_⟩
  have hcheck : (abortTombstone migId lo hi role gen nowMs).check := by
    refine ⟨le_rfl, le_rfl, le_rfl, le_rfl, le_rfl, le_rfl, le_rfl, le_rfl, ?_⟩
    unfold abortTombstone
    cases gen with
    | none => rfl
    | some g =>
      cases role with
      | source => simp [tombstoneGeneration] at hg
      | dest =>
        have hg : IsGeneration g := by simpa [tombstoneGeneration] using hg
        have := hg.2
        simp only [Option.all_some, decide_eq_true_eq]; omega
  exact Table.insertIgnore_find? hins hcheck k

end

end Chardb.Reshard
