import Chardb.Lib.Tx
import Chardb.Wire.Decode

/-!
# The closed grammar

Which objects are messages, tag by tag: the fields they may have, those they must have, and what
each holds. The decoders accept exactly the objects of the grammar, where codes and reasons may also
be unknown, and answer with objects whose codes and reasons are known.
-/

namespace Chardb.Wire

open Chardb.Lib

variable {ν : Type} [JsNumber ν]

/-! ## Kinds of values -/

def IsStr (j : Json ν) : Prop := ∃ s, j = .str s

def IsId (j : Json ν) : Prop := ∃ n i, j = .num n ∧ JsNumber.toInt? n = some i ∧ 0 ≤ i

def IsNonnegative (j : Json ν) : Prop :=
  ∃ n, j = .num n ∧ JsNumber.isFinite n = true ∧ (JsNumber.text n).head? ≠ some '-'

def IsRef (j : Json ν) : Prop := ∃ s, j = .str s ∧ '#' ∈ s.toList

def IsArrayOf (p : Json ν → Prop) (j : Json ν) : Prop := ∃ xs, j = .arr xs ∧ ∀ x ∈ xs, p x

/-- Any payload. -/
def IsJson (_ : Json ν) : Prop := True

def REFETCH_REASONS : List String :=
  ["lagged", "authChanged", "schemaChanged", "protocolMismatch", "shardsChanged",
    "pitrIdempotencyReset", "gsiLag"]

/-- A reason; a known one when `known` is set. -/
def IsReason (known : Bool) (j : Json ν) : Prop :=
  ∃ s, j = .str s ∧ (known = true → s ∈ REFETCH_REASONS)

/-! ## Fields -/

/-- A field that a message must have, or may have, and what it holds. -/
inductive WireField (ν : Type)
  | need (key : String) (ok : Json ν → Prop)
  | may (key : String) (ok : Json ν → Prop)

def WireField.key : WireField ν → String
  | .need key _ => key
  | .may key _ => key

def WireField.Holds (object : WireObject ν) : WireField ν → Prop
  | .need key ok => ∃ v, Json.get? object key = some v ∧ ok v
  | .may key ok => ∀ v, Json.get? object key = some v → ok v

/-- The object has these fields, and no others. -/
def HasFields (object : WireObject ν) (fields : List (WireField ν)) : Prop :=
  (∀ m ∈ object, m.1 ∈ fields.map WireField.key) ∧ ∀ f ∈ fields, f.Holds object

/-- The fields of an error: the polarity is that of the code, which is known when `known` is set. -/
def CodeFields (known : Bool) (error : WireObject ν) : Prop :=
  ∃ code retryable docs, Json.get? error "code" = some (.str code) ∧
    Json.get? error "retryable" = some (.bool retryable) ∧ Json.get? error "docs" = some (.str docs) ∧
    (∀ c, CdbErrorCode.ofText? code = some c → retryable = isRetryable c) ∧
    (known = true → CdbErrorCode.ofText? code ≠ none)

def IsPatch (j : Json ν) : Prop :=
  ∃ patch, j = .obj patch ∧ HasFields patch
    [.need "op" fun v => ∃ s, v = .str s ∧ s ∈ ["put", "del", "edit"], .need "subId" IsId,
      .need "rowKey" IsStr, .may "row" IsJson]

def IsSuccess (result : WireObject ν) : Prop :=
  HasFields result [.need "mutId" IsStr, .need "ok" fun v => v = .bool true, .need "result" IsJson,
    .need "cookie" IsStr]

def IsFailure (known : Bool) (result : WireObject ν) : Prop :=
  HasFields result [.need "mutId" IsStr, .need "ok" fun v => v = .bool false,
    .need "error" fun v => ∃ error, v = .obj error ∧
      (∀ m ∈ error, m.1 ∈ ["code", "retryable", "docs"]) ∧ CodeFields known error]

def IsMutResult (known : Bool) (j : Json ν) : Prop :=
  ∃ result, j = .obj result ∧ (IsSuccess result ∨ IsFailure known result)

/-- The fields of a message besides its tag. -/
def messageFields (known : Bool) : WireTag → List (WireField ν)
  | .hello => [.need "protocolV" IsId, .need "clientId" IsStr, .may "resume" IsStr,
      .may "resumeFromCookie" IsStr, .need "jwt" IsStr]
  | .sub => [.need "subId" IsId, .need "ref" IsRef, .need "args" IsJson, .may "ttlMs" IsNonnegative]
  | .unsub => [.need "subId" IsId]
  | .mut => [.need "mutId" IsStr, .need "ref" IsRef, .need "args" IsJson]
  | .updateAuth => [.need "jwt" IsStr]
  | .ack => [.need "cookie" IsStr]
  | .ping => []
  | .welcome => [.need "protocolV" IsId, .need "baseCookie" IsStr, .need "region" IsStr,
      .may "colo" IsStr, .may "resumedFromCookie" IsStr]
  | .poke => [.need "cookie" IsStr, .need "patches" (IsArrayOf IsPatch),
      .may "mutResults" (IsArrayOf (IsMutResult known))]
  | .snapshot => [.need "subId" IsId, .need "cookie" IsStr, .need "rows" (IsArrayOf IsJson)]
  | .mustRefetch => [.need "subIds" (IsArrayOf IsId), .need "reason" (IsReason known)]
  | .error => [.need "code" IsStr, .may "subId" IsId, .need "retryable" IsJson,
      .need "correlationId" IsStr, .need "docs" IsStr]

/-- A message of this tag. -/
def IsMessage (known : Bool) (tag : WireTag) (message : WireObject ν) : Prop :=
  HasFields message (.need "t" (fun v => v = .str tag.text) :: messageFields known tag) ∧
    (tag = .error → CodeFields known message)

/-! ## What the decoders make of unknown codes and reasons -/

def normalizeError (error : WireObject ν) : WireObject ν :=
  match Json.get? error "code" with
  | some (.str code) =>
    match CdbErrorCode.ofText? code with
    | none => [("code", .str "CDB_INVARIANT"), ("retryable", .bool false),
        ("docs", .str (docsUrlFor .invariant))].foldl defineKey error
    | some _ => error
  | _ => error

def normalizeResult : Json ν → Json ν
  | .obj result =>
    match Json.get? result "error" with
    | some (.obj error) => .obj (defineKey result ("error", .obj (normalizeError error)))
    | _ => .obj result
  | j => j

def normalizeMessage (message : WireObject ν) : WireTag → WireObject ν
  | .poke =>
    match Json.get? message "mutResults" with
    | some (.arr results) => defineKey message ("mutResults", .arr (results.map normalizeResult))
    | _ => message
  | .mustRefetch =>
    match Json.get? message "reason" with
    | some (.str reason) => normalizeReason message reason
    | _ => message
  | .error => normalizeError message
  | _ => message

/-! ## The checks -/

theorem except_bind_iff {α β : Type} {x : Except Thrown α} {f : α → Except Thrown β} {b : β} :
    (x >>= f) = .ok b ↔ ∃ a, x = .ok a ∧ f a = .ok b := by
  refine ⟨bind_ok, ?_⟩
  rintro ⟨a, rfl, h⟩
  exact h

theorem except_pure_iff {α : Type} {a b : α} : (pure a : Except Thrown α) = .ok b ↔ b = a :=
  ⟨fun h => (Except.ok.inj h).symm, fun h => h ▸ rfl⟩

omit [JsNumber ν] in
theorem onlyKeys_iff {object : WireObject ν} {path : String} {keys : List String} {a : Unit} :
    onlyKeys object path keys = .ok a ↔ ∀ m ∈ object, m.1 ∈ keys := by
  unfold onlyKeys
  cases hm : object.find? fun m => decide (m.1 ∉ keys) with
  | none =>
    refine ⟨fun _ m hmem => ?_, fun _ => rfl⟩
    simpa using List.find?_eq_none.mp hm m hmem
  | some m =>
    refine ⟨fun h => (by cases h), fun h => ?_⟩
    have hnot := List.find?_some hm
    exact absurd (h m (List.mem_of_find?_eq_some hm)) (by simpa using hnot)

omit [JsNumber ν] in
theorem required_iff {object : WireObject ν} {key path : String} {v : Json ν} :
    required object key path = .ok v ↔ Json.get? object key = some v := by
  unfold required
  cases Json.get? object key with
  | none => exact ⟨fun h => (by cases h), fun h => (by cases h)⟩
  | some w => exact ⟨fun h => congrArg some (Except.ok.inj h), fun h => congrArg _ (Option.some.inj h)⟩

omit [JsNumber ν] in
theorem optional_iff {object : WireObject ν} {key : String} {check : Json ν → Except Thrown Unit}
    {a : Unit} : optional object key check = .ok a ↔
      ∀ v, Json.get? object key = some v → check v = .ok () := by
  unfold optional
  cases Json.get? object key with
  | none => exact ⟨fun _ v h => (by cases h), fun _ => rfl⟩
  | some w =>
    constructor
    · rintro h v hv
      obtain rfl := Option.some.inj hv
      exact h
    · intro h
      exact h w rfl

omit [JsNumber ν] in
theorem stringValue_iff {path s : String} {j : Json ν} : stringValue path j = .ok s ↔ j = .str s := by
  cases j <;> simp [stringValue]

omit [JsNumber ν] in
theorem booleanValue_iff {path : String} {b : Bool} {j : Json ν} :
    booleanValue path j = .ok b ↔ j = .bool b := by
  cases j <;> simp [booleanValue]

omit [JsNumber ν] in
theorem arrayValue_iff {path : String} {xs : List (Json ν)} {j : Json ν} :
    arrayValue path j = .ok xs ↔ j = .arr xs := by
  cases j <;> simp [arrayValue]

omit [JsNumber ν] in
theorem objectValue_iff {path : String} {ms : WireObject ν} {j : Json ν} :
    objectValue path j = .ok ms ↔ j = .obj ms := by
  cases j <;> simp [objectValue]

theorem integerId_iff {path : String} {j : Json ν} :
    (∃ i, integerId path j = .ok i) ↔ IsId j := by
  unfold IsId
  cases j with
  | num n =>
    simp only [integerId]
    cases hn : JsNumber.toInt? n with
    | none => simp [hn]
    | some i =>
      by_cases hi : 0 ≤ i
      · simp [hn, hi]
      · simp [hn, hi]
  | _ => simp [integerId]

omit [JsNumber ν] in
theorem enumValue_iff {path : String} {allowed : List String} {j : Json ν} :
    (∃ s, enumValue path allowed j = .ok s) ↔ ∃ s, j = .str s ∧ s ∈ allowed := by
  cases j with
  | str s =>
    simp only [enumValue]
    by_cases hs : s ∈ allowed
    · simp [hs]
    · simp [hs]
  | _ => simp [enumValue]

theorem nonnegativeNumber_iff {path : String} {j : Json ν} :
    nonnegativeNumber path j = .ok () ↔ IsNonnegative j := by
  unfold nonnegativeNumber IsNonnegative
  cases j with
  | num n =>
    simp only [finiteNumber]
    by_cases hf : JsNumber.isFinite n = true
    · rw [if_pos hf]
      show (if _ then _ else _) = _ ↔ _
      by_cases hs : (JsNumber.text n).head? = some '-'
      · simp [hs]
      · simp [hs, hf, pure, Except.pure]
    · simp [hf, bind, Except.bind]
  | _ => simp [finiteNumber, bind, Except.bind]

omit [JsNumber ν] in
theorem validateRef_iff {path : String} {j : Json ν} : validateRef path j = .ok () ↔ IsRef j := by
  unfold validateRef IsRef
  rw [except_bind_iff]
  constructor
  · rintro ⟨s, hs, h⟩
    split at h
    · cases h
    · rename_i hne
      rw [not_or, not_not] at hne
      exact ⟨s, stringValue_iff.mp hs, hne.2⟩
  · rintro ⟨s, rfl, hs⟩
    refine ⟨s, rfl, ?_⟩
    rw [if_neg]
    · rfl
    · rintro (h | h)
      · rw [h] at hs
        cases hs
      · exact h hs

omit [JsNumber ν] in
theorem requiredString_iff {message : WireObject ν} {key path : String} {a : Unit} :
    requiredString message key path = .ok a ↔ (WireField.need key IsStr).Holds message := by
  unfold requiredString WireField.Holds IsStr
  simp only [except_bind_iff, required_iff, stringValue_iff]
  constructor
  · rintro ⟨v, hv, s, rfl, -⟩
    exact ⟨_, hv, s, rfl⟩
  · rintro ⟨v, hv, s, rfl⟩
    exact ⟨_, hv, s, rfl, rfl⟩

theorem requiredId_iff {message : WireObject ν} {key path : String} {a : Unit} :
    requiredId message key path = .ok a ↔ (WireField.need key IsId).Holds message := by
  unfold requiredId WireField.Holds
  simp only [except_bind_iff, required_iff]
  constructor
  · rintro ⟨v, hv, i, hi, -⟩
    exact ⟨v, hv, integerId_iff.mp ⟨i, hi⟩⟩
  · rintro ⟨v, hv, hid⟩
    have hi : ∃ i, integerId (path ++ "." ++ key) v = .ok i := integerId_iff.mpr hid
    obtain ⟨i, hi⟩ := hi
    exact ⟨v, hv, i, hi, rfl⟩

omit [JsNumber ν] in
theorem optionalString_iff {message : WireObject ν} {key path : String} {a : Unit} :
    optionalString message key path = .ok a ↔ (WireField.may key IsStr).Holds message := by
  unfold optionalString WireField.Holds IsStr
  rw [optional_iff]
  refine forall₂_congr fun v _ => ?_
  cases v <;> simp [stringValue, Except.map]

omit [JsNumber ν] in
/-- Checking the elements one by one is checking them all. -/
theorem eachElement_iff {path : String} {check : String → Json ν → Except Thrown (Json ν)}
    {p : Json ν → Prop} {f : Json ν → Json ν} {xs ys : List (Json ν)} {index : Nat}
    (h : ∀ x ∈ xs, ∀ path y, check path x = .ok y ↔ p x ∧ y = f x) :
    eachElement path check index xs = .ok ys ↔ (∀ x ∈ xs, p x) ∧ ys = xs.map f := by
  induction xs generalizing index ys with
  | nil => simp [eachElement, eq_comm]
  | cons x xs ih =>
    have hx := h x List.mem_cons_self
    unfold eachElement
    simp only [except_bind_iff, except_pure_iff, hx,
      ih fun x hmem => h x (List.mem_cons_of_mem _ hmem), List.forall_mem_cons, List.map_cons]
    constructor
    · rintro ⟨y, ⟨hp, rfl⟩, ys', ⟨hps, rfl⟩, rfl⟩
      exact ⟨⟨hp, hps⟩, rfl⟩
    · rintro ⟨⟨hp, hps⟩, rfl⟩
      exact ⟨_, ⟨hp, rfl⟩, _, ⟨hps, rfl⟩, rfl⟩

end Chardb.Wire
