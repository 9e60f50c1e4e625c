import Chardb.Wire.Grammar

/-!
# What the decoders answer

A text is accepted when it is an object of the grammar, within the bound on nesting, and the
answer is that object with its codes and reasons made known. A message whose codes and reasons are
known is answered as it is.
-/

namespace Chardb.Wire

open Chardb.Lib

variable {ν : Type} [JsNumber ν]

/-! ## Payloads -/

/-- What may stand in a message: finite numbers, at most 100 levels. -/
def Payload (j : Json ν) : Prop := j.Numbers (fun n => JsNumber.isFinite n = true) ∧ j.height ≤ 100

theorem payload_iff {path : String} {j : Json ν} : rawJson path 0 j = .ok () ↔ Payload j := by
  rw [rawJson_iff, Payload, Nat.zero_add]

theorem payload_elem {xs : List (Json ν)} (h : Payload (.arr xs)) {x : Json ν} (hx : x ∈ xs) :
    Payload x := by
  unfold Payload at h ⊢
  rw [Json.Numbers, elemsNumbers_iff, Json.height] at h
  have := elemsHeight_le.mp h.2 x hx
  exact ⟨h.1 x hx, by omega⟩

theorem payload_member {ms : WireObject ν} (h : Payload (.obj ms)) {m : String × Json ν}
    (hm : m ∈ ms) : Payload m.2 := by
  unfold Payload at h ⊢
  rw [Json.Numbers, membersNumbers_iff, Json.height] at h
  have := membersHeight_le.mp h.2 m hm
  exact ⟨h.1 m hm, by omega⟩

theorem payload_field {ms : WireObject ν} (h : Payload (.obj ms)) {key : String} {v : Json ν}
    (hv : Json.get? ms key = some v) : Payload v := payload_member h (mem_of_get? hv)

/-! ## One field after another -/

omit [JsNumber ν] in
theorem seq_iff {α β : Type} {x : Except Thrown α} {rest : Except Thrown β} {b : β} {p : Prop}
    (h : (∃ a, x = .ok a) ↔ p) : (x >>= fun _ => rest) = .ok b ↔ p ∧ rest = .ok b := by
  rw [except_bind_iff, ← h]
  constructor
  · rintro ⟨a, ha, hb⟩
    exact ⟨⟨a, ha⟩, hb⟩
  · rintro ⟨⟨a, ha⟩, hb⟩
    exact ⟨a, ha, hb⟩

omit [JsNumber ν] in
theorem unit_iff {x : Except Thrown Unit} : (∃ a, x = .ok a) ↔ x = .ok () :=
  ⟨fun ⟨_, h⟩ => h, fun h => ⟨(), h⟩⟩

omit [JsNumber ν] in
theorem onlyKeys_seq {β : Type} {ms : WireObject ν} {path : String} {keys : List String}
    {rest : Except Thrown β} {b : β} : (onlyKeys ms path keys >>= fun _ => rest) = .ok b ↔
      (∀ m ∈ ms, m.1 ∈ keys) ∧ rest = .ok b := seq_iff (unit_iff.trans onlyKeys_iff)

theorem requiredId_seq {β : Type} {ms : WireObject ν} {key path : String}
    {rest : Except Thrown β} {b : β} : (requiredId ms key path >>= fun _ => rest) = .ok b ↔
      (WireField.need key IsId).Holds ms ∧ rest = .ok b := seq_iff (unit_iff.trans requiredId_iff)

omit [JsNumber ν] in
theorem requiredString_seq {β : Type} {ms : WireObject ν} {key path : String}
    {rest : Except Thrown β} {b : β} : (requiredString ms key path >>= fun _ => rest) = .ok b ↔
      (WireField.need key IsStr).Holds ms ∧ rest = .ok b :=
  seq_iff (unit_iff.trans requiredString_iff)

omit [JsNumber ν] in
theorem optionalString_seq {β : Type} {ms : WireObject ν} {key path : String}
    {rest : Except Thrown β} {b : β} : (optionalString ms key path >>= fun _ => rest) = .ok b ↔
      (WireField.may key IsStr).Holds ms ∧ rest = .ok b :=
  seq_iff (unit_iff.trans optionalString_iff)

omit [JsNumber ν] in
/-- A field that must be there, checked by `check`. -/
theorem field_seq {α β : Type} {ms : WireObject ν} {key path : String}
    {check : Json ν → Except Thrown α} {ok : Json ν → Prop} {rest : Except Thrown β} {b : β}
    (h : ∀ v, Json.get? ms key = some v → ((∃ a, check v = .ok a) ↔ ok v)) :
    (required ms key path >>= fun v => check v >>= fun _ => rest) = .ok b ↔
      (WireField.need key ok).Holds ms ∧ rest = .ok b := by
  unfold WireField.Holds
  simp only [except_bind_iff, required_iff]
  constructor
  · rintro ⟨v, hv, a, ha, hb⟩
    exact ⟨⟨v, hv, (h v hv).mp ⟨a, ha⟩⟩, hb⟩
  · rintro ⟨⟨v, hv, hok⟩, hb⟩
    obtain ⟨a, ha⟩ := (h v hv).mpr hok
    exact ⟨v, hv, a, ha, hb⟩

omit [JsNumber ν] in
/-- A field that may be there, checked by `check`. -/
theorem optional_seq {β : Type} {ms : WireObject ν} {key : String}
    {check : Json ν → Except Thrown Unit} {ok : Json ν → Prop} {rest : Except Thrown β} {b : β}
    (h : ∀ v, Json.get? ms key = some v → (check v = .ok () ↔ ok v)) :
    (optional ms key check >>= fun _ => rest) = .ok b ↔
      (WireField.may key ok).Holds ms ∧ rest = .ok b := by
  refine seq_iff (unit_iff.trans (optional_iff.trans ?_))
  exact forall₂_congr h

omit [JsNumber ν] in
/-- A field that holds an array, whose elements are checked by `check`. -/
theorem array_seq {β : Type} {ms : WireObject ν} {key path path' path'' : String}
    {check : String → Json ν → Except Thrown (Json ν)} {p : Json ν → Prop} {f : Json ν → Json ν}
    {rest : Except Thrown β} {b : β}
    (h : ∀ xs, Json.get? ms key = some (.arr xs) →
      ∀ x ∈ xs, ∀ path y, check path x = .ok y ↔ p x ∧ y = f x) :
    (required ms key path >>= fun v => arrayValue path' v >>= fun xs =>
      eachElement path'' check 0 xs >>= fun _ => rest) = .ok b ↔
      (WireField.need key (IsArrayOf p)).Holds ms ∧ rest = .ok b := by
  unfold WireField.Holds IsArrayOf
  simp only [except_bind_iff, required_iff, arrayValue_iff]
  constructor
  · rintro ⟨_, hv, xs, rfl, ys, hys, hb⟩
    exact ⟨⟨_, hv, xs, rfl, ((eachElement_iff (h xs hv)).mp hys).1⟩, hb⟩
  · rintro ⟨⟨_, hv, xs, rfl, hp⟩, hb⟩
    exact ⟨_, hv, xs, rfl, _, (eachElement_iff (h xs hv)).mpr ⟨hp, rfl⟩, hb⟩

/-- Any payload passes. -/
theorem json_checked {ms : WireObject ν} (h : Payload (.obj ms)) {key path : String} (v : Json ν)
    (hv : Json.get? ms key = some v) : (∃ a, rawJson path 0 v = .ok a) ↔ IsJson v :=
  unit_iff.trans ⟨fun _ => trivial, fun _ => payload_iff.mpr (payload_field h hv)⟩

omit [JsNumber ν] in
theorem string_checked {ms : WireObject ν} {key path : String} (v : Json ν)
    (_ : Json.get? ms key = some v) : (∃ a, stringValue path v = .ok a) ↔ IsStr v :=
  exists_congr fun _ => stringValue_iff

omit [JsNumber ν] in
theorem hasFields_iff {ms : WireObject ν} {fields : List (WireField ν)} :
    HasFields ms fields ↔ (∀ m ∈ ms, m.1 ∈ fields.map WireField.key) ∧ fields.Forall (·.Holds ms) := by
  rw [HasFields, List.forall_iff_forall_mem]

/-! ## Parts of messages -/

theorem validateRowPatch_iff {path : String} {x y : Json ν} (h : Payload x) :
    validateRowPatch path x = .ok y ↔ IsPatch x ∧ y = x := by
  unfold validateRowPatch IsPatch
  rw [except_bind_iff]
  simp only [objectValue_iff, hasFields_iff]
  cases x with
  | obj ms =>
    have hiff : ∀ object : WireObject ν, Json.obj ms = .obj object ↔ object = ms := fun object =>
      ⟨fun h => (Json.obj.inj h).symm, fun h => h ▸ rfl⟩
    simp only [hiff, exists_eq_left]
    rw [onlyKeys_seq, field_seq fun v _ => enumValue_iff, field_seq fun v _ => integerId_iff,
      field_seq string_checked, optional_seq fun v hv => unit_iff.symm.trans (json_checked h v hv),
      except_pure_iff]
    simp only [List.Forall, List.map_cons, List.map_nil, WireField.key, and_assoc]
  | _ => simp

omit [JsNumber ν] in
theorem validateErrorFields_iff {path : String} {error error' : WireObject ν} :
    validateErrorFields path error = .ok error' ↔
      CodeFields false error ∧ error' = normalizeError error := by
  unfold validateErrorFields CodeFields normalizeError
  simp only [except_bind_iff, required_iff, stringValue_iff, booleanValue_iff]
  constructor
  · rintro ⟨_, hcode, code, rfl, _, hretry, retryable, rfl, _, hdocs, docs, rfl, h⟩
    rw [hcode]
    split at h
    · rename_i hnone
      refine ⟨⟨code, retryable, docs, rfl, hretry, hdocs, ?_, fun h => (by cases h)⟩, ?_⟩
      · rw [hnone]
        intro c hc
        cases hc
      · simp only [hnone]
        exact except_pure_iff.mp h
    · rename_i c hsome
      split at h
      · rename_i hpol
        refine ⟨⟨code, retryable, docs, rfl, hretry, hdocs, ?_, fun h => (by cases h)⟩, ?_⟩
        · rw [hsome]
          intro d hd
          obtain rfl := Option.some.inj hd
          exact hpol
        · simp only [hsome]
          exact except_pure_iff.mp h
      · cases h
  · rintro ⟨⟨code, retryable, docs, hcode, hretry, hdocs, hpol, -⟩, rfl⟩
    refine ⟨_, hcode, code, rfl, _, hretry, retryable, rfl, _, hdocs, docs, rfl, ?_⟩
    rw [hcode]
    cases hc : CdbErrorCode.ofText? code with
    | none => simp only [hc]; rfl
    | some c =>
      simp only [hc]
      rw [if_pos (hpol c hc)]
      rfl

theorem validateMutSuccess_iff {path : String} {ms : WireObject ν} {y : Json ν}
    (h : Payload (.obj ms)) : validateMutSuccess path ms = .ok y ↔
      (∀ m ∈ ms, m.1 ∈ ["mutId", "ok", "result", "cookie"]) ∧
        (WireField.need "result" IsJson).Holds ms ∧ (WireField.need "cookie" IsStr).Holds ms ∧
          y = .obj ms := by
  rw [validateMutSuccess, onlyKeys_seq, field_seq (json_checked h), field_seq string_checked,
    except_pure_iff]

omit [JsNumber ν] in
theorem validateMutFailure_iff {path : String} {ms : WireObject ν} {y : Json ν} :
    validateMutFailure path ms = .ok y ↔ (∀ m ∈ ms, m.1 ∈ ["mutId", "ok", "error"]) ∧
      ∃ error, Json.get? ms "error" = some (.obj error) ∧
        (∀ m ∈ error, m.1 ∈ ["code", "retryable", "docs"]) ∧ CodeFields false error ∧
          y = .obj (defineKey ms ("error", .obj (normalizeError error))) := by
  rw [validateMutFailure, onlyKeys_seq]
  simp only [except_bind_iff, required_iff, objectValue_iff, onlyKeys_iff, validateErrorFields_iff,
    except_pure_iff]
  refine and_congr_right fun _ => ?_
  constructor
  · rintro ⟨_, herr, error, rfl, _, hkeys, _, ⟨hcode, rfl⟩, rfl⟩
    exact ⟨error, herr, hkeys, hcode, rfl⟩
  · rintro ⟨error, herr, hkeys, hcode, rfl⟩
    exact ⟨_, herr, error, rfl, (), hkeys, _, ⟨hcode, rfl⟩, rfl⟩

omit [JsNumber ν] in
theorem isSuccess_iff {ms : WireObject ν} : IsSuccess ms ↔
    (WireField.need "mutId" IsStr).Holds ms ∧ Json.get? ms "ok" = some (.bool true) ∧
      (∀ m ∈ ms, m.1 ∈ ["mutId", "ok", "result", "cookie"]) ∧
        (WireField.need "result" IsJson).Holds ms ∧ (WireField.need "cookie" IsStr).Holds ms := by
  rw [IsSuccess, hasFields_iff]
  simp only [List.Forall, List.map_cons, List.map_nil, WireField.key]
  have hok : (WireField.need "ok" fun v => v = .bool true).Holds ms ↔
      Json.get? ms "ok" = some (.bool true) := by simp [WireField.Holds]
  rw [hok]
  tauto

omit [JsNumber ν] in
theorem isFailure_iff {known : Bool} {ms : WireObject ν} : IsFailure known ms ↔
    (WireField.need "mutId" IsStr).Holds ms ∧ Json.get? ms "ok" = some (.bool false) ∧
      (∀ m ∈ ms, m.1 ∈ ["mutId", "ok", "error"]) ∧
        ∃ error, Json.get? ms "error" = some (.obj error) ∧
          (∀ m ∈ error, m.1 ∈ ["code", "retryable", "docs"]) ∧ CodeFields known error := by
  rw [IsFailure, hasFields_iff]
  simp only [List.Forall, List.map_cons, List.map_nil, WireField.key]
  have hok : (WireField.need "ok" fun v => v = .bool false).Holds ms ↔
      Json.get? ms "ok" = some (.bool false) := by simp [WireField.Holds]
  rw [hok]
  constructor
  · rintro ⟨hkeys, hmut, hf, _, herr, error, rfl, herror⟩
    exact ⟨hmut, hf, hkeys, error, herr, herror⟩
  · rintro ⟨hmut, hf, hkeys, error, herr, herror⟩
    exact ⟨hkeys, hmut, hf, _, herr, error, rfl, herror⟩

omit [JsNumber ν] in
theorem normalizeResult_success {ms : WireObject ν}
    (h : ∀ m ∈ ms, m.1 ∈ ["mutId", "ok", "result", "cookie"]) :
    normalizeResult (.obj ms) = .obj ms := by
  have hnone : Json.get? ms "error" = none := get?_eq_none.mpr fun m hm he => by
    have := h m hm
    rw [he] at this
    revert this
    decide
  simp only [normalizeResult, hnone]

theorem validateMutResult_iff {path : String} {x y : Json ν} (h : Payload x) :
    validateMutResult path x = .ok y ↔ IsMutResult false x ∧ y = normalizeResult x := by
  unfold validateMutResult IsMutResult
  rw [except_bind_iff]
  simp only [objectValue_iff]
  cases x with
  | obj ms =>
    have hiff : ∀ object : WireObject ν, Json.obj ms = .obj object ↔ object = ms := fun object =>
      ⟨fun h => (Json.obj.inj h).symm, fun h => h ▸ rfl⟩
    simp only [hiff, exists_eq_left]
    rw [field_seq string_checked, isSuccess_iff, isFailure_iff]
    simp only [except_bind_iff, required_iff, booleanValue_iff]
    constructor
    · rintro ⟨hmut, _, hok, b, rfl, hb⟩
      cases b with
      | true =>
        rw [if_pos rfl] at hb
        obtain ⟨hkeys, hres, hcookie, rfl⟩ := (validateMutSuccess_iff h).mp hb
        exact ⟨.inl ⟨hmut, hok, hkeys, hres, hcookie⟩, (normalizeResult_success hkeys).symm⟩
      | false =>
        rw [if_neg Bool.false_ne_true] at hb
        obtain ⟨hkeys, error, herr, hekeys, hcode, rfl⟩ := validateMutFailure_iff.mp hb
        refine ⟨.inr ⟨hmut, hok, hkeys, error, herr, hekeys, hcode⟩, ?_⟩
        simp only [normalizeResult, herr]
    · rintro ⟨⟨hmut, hok, hkeys, hres, hcookie⟩ | ⟨hmut, hok, hkeys, error, herr, hekeys, hcode⟩, rfl⟩
      · refine ⟨hmut, _, hok, true, rfl, ?_⟩
        rw [if_pos rfl, validateMutSuccess_iff h]
        exact ⟨hkeys, hres, hcookie, normalizeResult_success hkeys⟩
      · refine ⟨hmut, _, hok, false, rfl, ?_⟩
        rw [if_neg Bool.false_ne_true, validateMutFailure_iff]
        refine ⟨hkeys, error, herr, hekeys, hcode, ?_⟩
        simp only [normalizeResult, herr]
  | _ => simp

/-! ## Messages -/

theorem validateMutResults_iff {ms ms' : WireObject ν} (h : Payload (.obj ms)) :
    validateMutResults ms = .ok ms' ↔
      (WireField.may "mutResults" (IsArrayOf (IsMutResult false))).Holds ms ∧
        ms' = normalizeMessage ms .poke := by
  have hholds : (WireField.may "mutResults" (IsArrayOf (IsMutResult false))).Holds ms ↔
      ∀ v, Json.get? ms "mutResults" = some v → IsArrayOf (IsMutResult false) v := Iff.rfl
  rw [hholds]
  unfold validateMutResults normalizeMessage
  cases hres : Json.get? ms "mutResults" with
  | none =>
    simp only [except_pure_iff]
    exact ⟨fun h => ⟨fun v hv => (by cases hv), h⟩, fun h => h.2⟩
  | some v =>
    have hv := payload_field h hres
    simp only [except_bind_iff, arrayValue_iff, except_pure_iff]
    constructor
    · rintro ⟨xs, rfl, ys, hys, rfl⟩
      obtain ⟨hp, rfl⟩ := (eachElement_iff fun x hx path y =>
        validateMutResult_iff (payload_elem hv hx)).mp hys
      refine ⟨fun w hw => ?_, rfl⟩
      obtain rfl := Option.some.inj hw
      exact ⟨xs, rfl, hp⟩
    · rintro ⟨hw, rfl⟩
      obtain ⟨xs, rfl, hp⟩ := hw v rfl
      refine ⟨xs, rfl, _, ?_, rfl⟩
      exact (eachElement_iff fun x hx path y => validateMutResult_iff (payload_elem hv hx)).mpr
        ⟨hp, rfl⟩

omit [JsNumber ν] in
theorem string_field_iff {ms : WireObject ν} {key : String} {p : String → Prop} :
    (WireField.need key fun v => ∃ s, v = .str s ∧ p s).Holds ms ↔
      ∃ s, Json.get? ms key = some (.str s) ∧ p s := by
  unfold WireField.Holds
  constructor
  · rintro ⟨_, hv, s, rfl, hp⟩
    exact ⟨s, hv, hp⟩
  · rintro ⟨s, hv, hp⟩
    exact ⟨_, hv, s, rfl, hp⟩

omit [JsNumber ν] in
/-- The last field of a `mustRefetch`. -/
theorem reason_iff {ms ms' : WireObject ν} {path path' : String} :
    (required ms "reason" path >>= fun v => stringValue path' v >>= fun reason =>
      pure (normalizeReason ms reason)) = .ok ms' ↔
      (WireField.need "reason" (IsReason false)).Holds ms ∧ ms' = normalizeMessage ms .mustRefetch := by
  have hholds : (WireField.need "reason" (IsReason false)).Holds ms ↔ _ :=
    string_field_iff (p := fun s => false = true → s ∈ REFETCH_REASONS)
  rw [hholds]
  unfold normalizeMessage
  simp only [except_bind_iff, required_iff, stringValue_iff, except_pure_iff]
  constructor
  · rintro ⟨_, hv, s, rfl, rfl⟩
    refine ⟨⟨s, hv, fun h => (by cases h)⟩, ?_⟩
    simp only [hv]
  · rintro ⟨⟨s, hv, -⟩, rfl⟩
    refine ⟨_, hv, s, rfl, ?_⟩
    simp only [hv]

theorem validateRow_iff {path : String} {x y : Json ν} (h : Payload x) :
    validateRow path x = .ok y ↔ IsJson x ∧ y = x := by
  rw [validateRow, payload_iff.mpr h]
  exact ⟨fun h => ⟨trivial, (Except.ok.inj h).symm⟩, fun h => congrArg _ h.2.symm⟩

theorem validateSubId_iff {path : String} {x y : Json ν} :
    validateSubId path x = .ok y ↔ IsId x ∧ y = x := by
  rw [validateSubId, ← @integerId_iff ν _ path]
  cases integerId path x with
  | error e => simp [Except.map]
  | ok i => simp [Except.map, eq_comm]

theorem error_subId_iff {path : String} {x : Json ν} :
    ((integerId path x).map fun _ => ()) = .ok () ↔ IsId x := by
  rw [← @integerId_iff ν _ path]
  cases integerId path x with
  | error e => simp [Except.map]
  | ok i => simp [Except.map]

omit [JsNumber ν] in
theorem CodeFields.fields {known : Bool} {error : WireObject ν} (h : CodeFields known error) :
    (WireField.need "code" IsStr).Holds error ∧ (WireField.need "retryable" IsJson).Holds error ∧
      (WireField.need "docs" IsStr).Holds error := by
  obtain ⟨code, retryable, docs, hcode, hretry, hdocs, -⟩ := h
  exact ⟨⟨_, hcode, code, rfl⟩, ⟨_, hretry, trivial⟩, ⟨_, hdocs, docs, rfl⟩⟩

/-- A message is checked against the fields of its tag. -/
theorem validateMessage_iff {ms ms' : WireObject ν} {tag : WireTag} (h : Payload (.obj ms))
    (ht : Json.get? ms "t" = some (.str tag.text)) :
    validateMessage ms tag = .ok ms' ↔ IsMessage false tag ms ∧ ms' = normalizeMessage ms tag := by
  have htag : (WireField.need "t" fun v => v = .str tag.text).Holds ms := ⟨_, ht, rfl⟩
  have href : ∀ (key path : String) (v : Json ν), Json.get? ms key = some v →
      ((∃ a, validateRef path v = .ok a) ↔ IsRef v) := fun _ _ _ _ => unit_iff.trans validateRef_iff
  unfold IsMessage
  rw [hasFields_iff]
  cases tag
  case hello =>
    rw [validateMessage, onlyKeys_seq, requiredId_seq, requiredString_seq, requiredString_seq,
      optionalString_seq, optionalString_seq, except_pure_iff]
    simp only [messageFields, List.Forall, List.map_cons, List.map_nil, WireField.key, htag,
      normalizeMessage, reduceCtorEq, false_imp_iff, true_and, and_true]
    tauto
  case sub =>
    rw [validateMessage, onlyKeys_seq, requiredId_seq, field_seq (href "ref" "sub.ref"),
      field_seq (json_checked h), optional_seq fun _ _ => nonnegativeNumber_iff, except_pure_iff]
    simp only [messageFields, List.Forall, List.map_cons, List.map_nil, WireField.key, htag,
      normalizeMessage, reduceCtorEq, false_imp_iff, true_and, and_true]
    tauto
  case unsub =>
    rw [validateMessage, onlyKeys_seq, requiredId_seq, except_pure_iff]
    simp only [messageFields, List.Forall, List.map_cons, List.map_nil, WireField.key, htag,
      normalizeMessage, reduceCtorEq, false_imp_iff, true_and, and_true]
    tauto
  case «mut» =>
    rw [validateMessage, onlyKeys_seq, requiredString_seq, field_seq (href "ref" "mut.ref"),
      field_seq (json_checked h), except_pure_iff]
    simp only [messageFields, List.Forall, List.map_cons, List.map_nil, WireField.key, htag,
      normalizeMessage, reduceCtorEq, false_imp_iff, true_and, and_true]
    tauto
  case updateAuth =>
    rw [validateMessage, onlyKeys_seq, requiredString_seq, except_pure_iff]
    simp only [messageFields, List.Forall, List.map_cons, List.map_nil, WireField.key, htag,
      normalizeMessage, reduceCtorEq, false_imp_iff, true_and, and_true]
    tauto
  case ack =>
    rw [validateMessage, onlyKeys_seq, requiredString_seq, except_pure_iff]
    simp only [messageFields, List.Forall, List.map_cons, List.map_nil, WireField.key, htag,
      normalizeMessage, reduceCtorEq, false_imp_iff, true_and, and_true]
    tauto
  case ping =>
    rw [validateMessage, onlyKeys_seq, except_pure_iff]
    simp only [messageFields, List.Forall, List.map_cons, List.map_nil, WireField.key, htag,
      normalizeMessage, reduceCtorEq, false_imp_iff, and_true]
  case welcome =>
    rw [validateMessage, onlyKeys_seq, requiredId_seq, requiredString_seq, requiredString_seq,
      optionalString_seq, optionalString_seq, except_pure_iff]
    simp only [messageFields, List.Forall, List.map_cons, List.map_nil, WireField.key, htag,
      normalizeMessage, reduceCtorEq, false_imp_iff, true_and, and_true]
    tauto
  case poke =>
    rw [validateMessage, onlyKeys_seq, requiredString_seq, array_seq (f := id) fun xs hxs x hx _ _ =>
      validateRowPatch_iff (payload_elem (payload_field h hxs) hx), validateMutResults_iff h]
    simp only [messageFields, List.Forall, List.map_cons, List.map_nil, WireField.key, htag,
      reduceCtorEq, false_imp_iff, true_and, and_true]
    tauto
  case snapshot =>
    rw [validateMessage, onlyKeys_seq, requiredId_seq, requiredString_seq,
      array_seq (f := id) fun xs hxs x hx _ _ => validateRow_iff (payload_elem (payload_field h hxs) hx),
      except_pure_iff]
    simp only [messageFields, List.Forall, List.map_cons, List.map_nil, WireField.key, htag,
      normalizeMessage, reduceCtorEq, false_imp_iff, true_and, and_true]
    tauto
  case mustRefetch =>
    rw [validateMessage, onlyKeys_seq, array_seq (f := id) fun _ _ _ _ _ _ => validateSubId_iff,
      reason_iff]
    simp only [messageFields, List.Forall, List.map_cons, List.map_nil, WireField.key, htag,
      reduceCtorEq, false_imp_iff, true_and, and_true]
    tauto
  case error =>
    rw [validateMessage, onlyKeys_seq, optional_seq fun v _ => error_subId_iff, requiredString_seq,
      validateErrorFields_iff, normalizeMessage]
    simp only [messageFields, List.Forall, List.map_cons, List.map_nil, WireField.key, htag,
      true_imp_iff, true_and]
    constructor
    · rintro ⟨hkeys, hsub, hcor, hcode, rfl⟩
      exact ⟨⟨⟨hkeys, hcode.fields.1, hsub, hcode.fields.2.1, hcor, hcode.fields.2.2⟩, hcode⟩, rfl⟩
    · rintro ⟨⟨⟨hkeys, -, hsub, -, hcor, -⟩, hcode⟩, rfl⟩
      exact ⟨hkeys, hsub, hcor, hcode, rfl⟩

/-! ## Known codes and reasons -/

omit [JsNumber ν] in
theorem holds_defineKey_other {ms : WireObject ν} {m : String × Json ν} {f : WireField ν}
    (h : m.1 ≠ f.key) : f.Holds (defineKey ms m) ↔ f.Holds ms := by
  cases f with
  | need key ok =>
    have hget := get?_defineKey ms m key
    rw [if_neg (show m.1 ≠ key from h)] at hget
    simp only [WireField.Holds, hget]
  | may key ok =>
    have hget := get?_defineKey ms m key
    rw [if_neg (show m.1 ≠ key from h)] at hget
    simp only [WireField.Holds, hget]

omit [JsNumber ν] in
theorem codeFields_mono {error : WireObject ν} {known : Bool} (h : CodeFields known error) :
    CodeFields false error := by
  obtain ⟨code, retryable, docs, hcode, hretry, hdocs, hpol, -⟩ := h
  exact ⟨code, retryable, docs, hcode, hretry, hdocs, hpol, fun h => (by cases h)⟩

omit [JsNumber ν] in
theorem isMutResult_mono {x : Json ν} (h : IsMutResult true x) : IsMutResult false x := by
  obtain ⟨ms, rfl, hsucc | hfail⟩ := h
  · exact ⟨ms, rfl, .inl hsucc⟩
  · obtain ⟨hmut, hok, hkeys, error, herr, hekeys, hcode⟩ := isFailure_iff.mp hfail
    exact ⟨ms, rfl, .inr (isFailure_iff.mpr
      ⟨hmut, hok, hkeys, error, herr, hekeys, codeFields_mono hcode⟩)⟩

/-- A message with known codes and reasons is a message. -/
theorem isMessage_mono {ms : WireObject ν} {tag : WireTag} (h : IsMessage true tag ms) :
    IsMessage false tag ms := by
  obtain ⟨hfields, hcode⟩ := h
  refine ⟨?_, fun htag => codeFields_mono (hcode htag)⟩
  rw [hasFields_iff] at hfields ⊢
  cases tag
  case poke =>
    obtain ⟨hkeys, ht, hcookie, hpatches, hres⟩ := hfields
    refine ⟨hkeys, ht, hcookie, hpatches, fun v hv => ?_⟩
    obtain ⟨xs, rfl, hp⟩ := hres v hv
    exact ⟨xs, rfl, fun x hx => isMutResult_mono (hp x hx)⟩
  case mustRefetch =>
    obtain ⟨hkeys, ht, hids, v, hv, s, rfl, -⟩ := hfields
    exact ⟨hkeys, ht, hids, _, hv, s, rfl, fun h => (by cases h)⟩
  all_goals exact hfields

omit [JsNumber ν] in
/-- A known code stays. -/
theorem normalizeError_known {error : WireObject ν} (h : CodeFields true error) :
    normalizeError error = error := by
  obtain ⟨code, retryable, docs, hcode, -, -, -, hknown⟩ := h
  unfold normalizeError
  cases hc : CdbErrorCode.ofText? code with
  | none => exact absurd hc (hknown rfl)
  | some c => simp only [hcode, hc]

omit [JsNumber ν] in
/-- The code is known once the fields are normalized. -/
theorem codeFields_normalizeError {error : WireObject ν} (h : CodeFields false error) :
    CodeFields true (normalizeError error) := by
  obtain ⟨code, retryable, docs, hcode, hretry, hdocs, hpol, -⟩ := h
  unfold normalizeError
  cases hc : CdbErrorCode.ofText? code with
  | none =>
    have hinv : CdbErrorCode.ofText? "CDB_INVARIANT" = some .invariant := by decide
    simp only [hcode, hc]
    refine ⟨"CDB_INVARIANT", false, docsUrlFor .invariant, ?_, ?_, ?_, ?_, ?_⟩
    · simp [get?_defineKey]
    · simp [get?_defineKey]
    · simp [get?_defineKey]
    · rw [hinv]
      intro c hc
      obtain rfl := Option.some.inj hc
      decide
    · rw [hinv]
      exact fun _ => Option.some_ne_none _
  | some c =>
    simp only [hcode, hc]
    refine ⟨code, retryable, docs, hcode, hretry, hdocs, hpol, fun _ => ?_⟩
    rw [hc]
    exact Option.some_ne_none _

omit [JsNumber ν] in
/-- Only the three fields of the code change. -/
theorem mem_normalizeError {error : WireObject ν} {m : String × Json ν}
    (h : m ∈ normalizeError error) : m ∈ error ∨ m.1 ∈ ["code", "retryable", "docs"] := by
  unfold normalizeError at h
  split at h
  · split at h
    · simp only [List.foldl_cons, List.foldl_nil] at h
      rcases mem_defineKey h with rfl | h
      · exact .inr (by simp)
      rcases mem_defineKey h with rfl | h
      · exact .inr (by simp)
      rcases mem_defineKey h with rfl | h
      · exact .inr (by simp)
      exact .inl h
    · exact .inl h
  · exact .inl h

omit [JsNumber ν] in
theorem holds_normalizeError {error : WireObject ν} {f : WireField ν}
    (h : f.key ∉ ["code", "retryable", "docs"]) : f.Holds (normalizeError error) ↔ f.Holds error := by
  simp only [List.mem_cons, List.not_mem_nil, or_false, not_or] at h
  unfold normalizeError
  split
  · split
    · simp only [List.foldl_cons, List.foldl_nil]
      rw [holds_defineKey_other (fun e => h.2.2 e.symm), holds_defineKey_other (fun e => h.2.1 e.symm),
        holds_defineKey_other (fun e => h.1 e.symm)]
    · rfl
  · rfl

omit [JsNumber ν] in
theorem isMutResult_normalizeResult {x : Json ν} (h : IsMutResult false x) :
    IsMutResult true (normalizeResult x) := by
  obtain ⟨ms, rfl, hsucc | hfail⟩ := h
  · rw [normalizeResult_success (isSuccess_iff.mp hsucc).2.2.1]
    exact ⟨ms, rfl, .inl hsucc⟩
  · obtain ⟨hmut, hok, hkeys, error, herr, hekeys, hcode⟩ := isFailure_iff.mp hfail
    simp only [normalizeResult, herr]
    refine ⟨_, rfl, .inr (isFailure_iff.mpr ⟨?_, ?_, fun m hm => ?_, normalizeError error, ?_,
      fun m hm => ?_, codeFields_normalizeError hcode⟩)⟩
    · exact (holds_defineKey_other (by simp [WireField.key])).mpr hmut
    · rw [get?_defineKey, if_neg (by simp)]
      exact hok
    · rcases mem_defineKey hm with rfl | hm
      · simp
      · exact hkeys m hm
    · rw [get?_defineKey, if_pos rfl]
    · exact (mem_normalizeError hm).elim (hekeys m) id

omit [JsNumber ν] in
theorem normalizeResult_known {x : Json ν} (h : IsMutResult true x) (hown : x.Own) :
    normalizeResult x = x := by
  obtain ⟨ms, rfl, hsucc | hfail⟩ := h
  · exact normalizeResult_success (isSuccess_iff.mp hsucc).2.2.1
  · obtain ⟨-, -, -, error, herr, -, hcode⟩ := isFailure_iff.mp hfail
    simp only [normalizeResult, herr, normalizeError_known hcode]
    rw [defineKey_self (OwnKeys.nodup hown.1) herr]

/-- Codes and reasons are known in what is answered. -/
theorem isMessage_normalizeMessage {ms : WireObject ν} {tag : WireTag} (h : IsMessage false tag ms) :
    IsMessage true tag (normalizeMessage ms tag) := by
  unfold IsMessage at h ⊢
  rw [hasFields_iff] at h ⊢
  cases tag
  case poke =>
    unfold normalizeMessage
    simp only [messageFields, List.Forall, List.map_cons, List.map_nil, WireField.key] at h ⊢
    obtain ⟨⟨hkeys, ht, hcookie, hpatches, hres⟩, -⟩ := h
    refine ⟨?_, fun h => (by cases h)⟩
    split
    · rename_i results hget
      obtain ⟨xs, hxs, hp⟩ := hres _ hget
      obtain rfl := Json.arr.inj hxs
      refine ⟨fun m hm => ?_, (holds_defineKey_other (by simp [WireField.key])).mpr ht,
        (holds_defineKey_other (by simp [WireField.key])).mpr hcookie,
        (holds_defineKey_other (by simp [WireField.key])).mpr hpatches, fun v hv => ?_⟩
      · rcases mem_defineKey hm with rfl | hm
        · simp
        · exact hkeys m hm
      · rw [get?_defineKey, if_pos rfl] at hv
        obtain rfl := Option.some.inj hv
        refine ⟨_, rfl, fun x hx => ?_⟩
        obtain ⟨y, hy, rfl⟩ := List.mem_map.mp hx
        exact isMutResult_normalizeResult (hp y hy)
    · rename_i hno
      refine ⟨hkeys, ht, hcookie, hpatches, fun v hv => ?_⟩
      obtain ⟨xs, rfl, -⟩ := hres v hv
      exact absurd hv (hno xs)
  case mustRefetch =>
    unfold normalizeMessage
    simp only [messageFields, List.Forall, List.map_cons, List.map_nil, WireField.key] at h ⊢
    obtain ⟨⟨hkeys, ht, hids, _, hreason, s, rfl, -⟩, -⟩ := h
    refine ⟨?_, fun h => (by cases h)⟩
    simp only [hreason, normalizeReason]
    split
    · rename_i hmem
      exact ⟨hkeys, ht, hids, _, hreason, s, rfl, fun _ => hmem⟩
    · refine ⟨fun m hm => ?_, (holds_defineKey_other (by simp [WireField.key])).mpr ht,
        (holds_defineKey_other (by simp [WireField.key])).mpr hids, .str "lagged", ?_, "lagged", rfl,
        fun _ => by decide⟩
      · rcases mem_defineKey hm with rfl | hm
        · simp
        · exact hkeys m hm
      · rw [get?_defineKey, if_pos rfl]
  case error =>
    rw [normalizeMessage]
    simp only [messageFields, List.Forall, List.map_cons, List.map_nil, WireField.key] at h ⊢
    obtain ⟨⟨hkeys, ht, -, hsub, -, hcor, -⟩, hcode⟩ := h
    have hknown := codeFields_normalizeError (hcode trivial)
    refine ⟨⟨fun m hm => ?_, (holds_normalizeError (by simp [WireField.key])).mpr ht, hknown.fields.1,
      (holds_normalizeError (by simp [WireField.key])).mpr hsub, hknown.fields.2.1,
      (holds_normalizeError (by simp [WireField.key])).mpr hcor, hknown.fields.2.2⟩, fun _ => hknown⟩
    rcases mem_normalizeError hm with hm | hm
    · exact hkeys m hm
    · exact (by simp : ["code", "retryable", "docs"] ⊆ ["t", "code", "subId", "retryable",
        "correlationId", "docs"]) hm
  all_goals
    unfold normalizeMessage
    exact ⟨h.1, fun h => (by cases h)⟩

/-- A message whose codes and reasons are known is answered as it is. -/
theorem normalizeMessage_known {ms : WireObject ν} {tag : WireTag} (h : IsMessage true tag ms)
    (hown : (Json.obj ms).Own) : normalizeMessage ms tag = ms := by
  have hnodup : ∀ {object : WireObject ν}, (Json.obj object).Own → (object.map Prod.fst).Nodup :=
    fun h => OwnKeys.nodup h.1
  unfold IsMessage at h
  rw [hasFields_iff] at h
  cases tag
  case poke =>
    simp only [messageFields, List.Forall, List.map_cons, List.map_nil, WireField.key] at h
    rw [normalizeMessage]
    split
    · rename_i results hget
      obtain ⟨xs, hxs, hp⟩ := h.1.2.2.2.2 _ hget
      obtain rfl := Json.arr.inj hxs
      have hresults := elemsOwn_iff.mp (membersOwn_iff.mp hown.2 _ (mem_of_get? hget))
      have hmap : results.map normalizeResult = results := by
        rw [List.map_congr_left fun x hx => normalizeResult_known (hp x hx) (hresults x hx)]
        exact List.map_id _
      rw [hmap]
      exact defineKey_self (hnodup hown) hget
    · rfl
  case mustRefetch =>
    simp only [messageFields, List.Forall, List.map_cons, List.map_nil, WireField.key] at h
    obtain ⟨_, hreason, s, rfl, hs⟩ := h.1.2.2.2
    rw [normalizeMessage]
    simp only [hreason, normalizeReason]
    exact if_pos (hs rfl)
  case error => exact normalizeError_known (h.2 rfl)
  all_goals rfl

end Chardb.Wire
