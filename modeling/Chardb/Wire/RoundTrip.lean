import Chardb.Wire.Codec

/-!
# Round trips of the wire codec

The decoders of the two directions answer the messages of a closed grammar, refuse every other text
with a `TypeError`, and answer an encoded message with itself, except that negative zero is written
like zero.
-/

namespace Chardb.Wire

open Chardb.Lib

variable {ν : Type} [JsNumber ν]

/-! ## What decoding leaves -/

/-- A value that `JSON.parse` can leave, with finite numbers and at most `d` levels. -/
def Sound (d : Nat) (j : Json ν) : Prop :=
  j.Own ∧ j.Numbers (fun n => JsNumber.isFinite n = true) ∧ j.height ≤ d

theorem sound_str (d : Nat) (s : String) : Sound d (.str s : Json ν) :=
  ⟨trivial, trivial, Nat.zero_le d⟩

theorem sound_bool (d : Nat) (b : Bool) : Sound d (.bool b : Json ν) :=
  ⟨trivial, trivial, Nat.zero_le d⟩

theorem sound_obj {d : Nat} {ms : WireObject ν} : Sound (d + 1) (.obj ms) ↔
    OwnKeys (ms.map Prod.fst) ∧ ∀ m ∈ ms, Sound d m.2 := by
  unfold Sound
  rw [Json.Own, Json.Numbers, Json.height, membersOwn_iff, membersNumbers_iff, membersHeight_le]
  constructor
  · rintro ⟨⟨hkeys, hown⟩, hnum, hheight⟩
    exact ⟨hkeys, fun m hm => ⟨hown m hm, hnum m hm, by have := hheight m hm; omega⟩⟩
  · rintro ⟨hkeys, h⟩
    exact ⟨⟨hkeys, fun m hm => (h m hm).1⟩, fun m hm => (h m hm).2.1,
      fun m hm => by have := (h m hm).2.2; omega⟩

theorem sound_arr {d : Nat} {xs : List (Json ν)} : Sound (d + 1) (.arr xs) ↔ ∀ x ∈ xs, Sound d x := by
  unfold Sound
  rw [Json.Own, Json.Numbers, Json.height, elemsOwn_iff, elemsNumbers_iff, elemsHeight_le]
  constructor
  · rintro ⟨hown, hnum, hheight⟩ x hx
    exact ⟨hown x hx, hnum x hx, by have := hheight x hx; omega⟩
  · intro h
    exact ⟨fun x hx => (h x hx).1, fun x hx => (h x hx).2.1, fun x hx => by
      have := (h x hx).2.2; omega⟩

theorem sound_defineKey {d : Nat} {ms : WireObject ν} {m : String × Json ν}
    (h : Sound (d + 1) (.obj ms)) (hm : Sound d m.2) : Sound (d + 1) (.obj (defineKey ms m)) := by
  rw [sound_obj] at h ⊢
  refine ⟨defineKey_ownKeys m h.1, fun x hx => ?_⟩
  rcases mem_defineKey hx with rfl | hx
  · exact hm
  · exact h.2 x hx

theorem sound_field {d : Nat} {ms : WireObject ν} {key : String} {v : Json ν}
    (h : Sound (d + 1) (.obj ms)) (hv : Json.get? ms key = some v) : Sound d v :=
  (sound_obj.mp h).2 _ (mem_of_get? hv)

theorem sound_normalizeError {d : Nat} {error : WireObject ν} (h : Sound (d + 1) (.obj error)) :
    Sound (d + 1) (.obj (normalizeError error)) := by
  unfold normalizeError
  split
  · split
    · simp only [List.foldl_cons, List.foldl_nil]
      exact sound_defineKey (sound_defineKey (sound_defineKey h (sound_str d _)) (sound_bool d _))
        (sound_str d _)
    · exact h
  · exact h

theorem sound_normalizeResult {d : Nat} {x : Json ν} (h : Sound (d + 2) x) :
    Sound (d + 2) (normalizeResult x) := by
  unfold normalizeResult
  split
  · split
    · rename_i error herr
      exact sound_defineKey h (sound_normalizeError (sound_field h herr))
    · exact h
  · exact h

theorem sound_normalizeMessage {d : Nat} {ms : WireObject ν} {tag : WireTag}
    (h : Sound (d + 4) (.obj ms)) : Sound (d + 4) (.obj (normalizeMessage ms tag)) := by
  unfold normalizeMessage
  split
  · split
    · rename_i results hget
      refine sound_defineKey h (sound_arr.mpr fun x hx => ?_)
      obtain ⟨y, hy, rfl⟩ := List.mem_map.mp hx
      exact sound_normalizeResult (sound_arr.mp (sound_field h hget) y hy)
    · exact h
  · split
    · unfold normalizeReason
      split
      · exact h
      · exact sound_defineKey h (sound_str _ _)
    · exact h
  · exact sound_normalizeError h
  · exact h

/-! ## Decoding -/

/-- The tag stays in the message. -/
theorem isMessage_tag {known : Bool} {tag : WireTag} {ms : WireObject ν}
    (h : IsMessage known tag ms) : Json.get? ms "t" = some (.str tag.text) := by
  obtain ⟨_, hv, rfl⟩ := h.1.2 _ List.mem_cons_self
  exact hv

theorem WireTag.ofText?_text (tag : WireTag) : WireTag.ofText? tag.text = some tag := by
  cases tag <;> decide

theorem WireTag.text_of_ofText? {s : String} {tag : WireTag} (h : WireTag.ofText? s = some tag) :
    tag.text = s := by
  unfold WireTag.ofText? at h
  exact of_decide_eq_true (List.find?_some (p := fun t : WireTag => decide (t.text = s)) h)

theorem validateTagged_iff {ms ms' : WireObject ν} {tag : WireTag} (h : Payload (.obj ms)) :
    validateTagged ms = .ok (tag, ms') ↔ IsMessage false tag ms ∧ ms' = normalizeMessage ms tag := by
  unfold validateTagged
  constructor
  · intro hv
    split at hv
    · rename_i s ht
      split at hv
      · rename_i tag' htag
        obtain rfl := WireTag.text_of_ofText? htag
        cases hm : validateMessage ms tag' with
        | error e =>
          rw [hm] at hv
          cases hv
        | ok ms'' =>
          rw [hm] at hv
          obtain ⟨rfl, rfl⟩ := Prod.mk.inj (Except.ok.inj hv)
          exact (validateMessage_iff h ht).mp hm
      · cases hv
    · cases hv
  · rintro ⟨hmsg, rfl⟩
    have ht := isMessage_tag hmsg
    simp only [ht, WireTag.ofText?_text]
    rw [(validateMessage_iff h ht).mpr ⟨hmsg, rfl⟩]
    rfl

/-- What a decoder answers. -/
theorem decodeDirected_iff {tags : List WireTag} {direction raw : String} {j : Json ν} :
    decodeDirected tags direction raw = .ok j ↔ ∃ ms tag, Json.parse raw = some (.obj ms) ∧
      Payload (.obj ms) ∧ tag ∈ tags ∧ IsMessage false tag ms ∧
        j = .obj (normalizeMessage ms tag) := by
  unfold decodeDirected decodeWire
  constructor
  · intro h
    split at h
    · cases h
    rename_i tag ms' hw
    split at h
    · rename_i hmem
      obtain rfl := Except.ok.inj h
      split at hw
      · cases hw
      rename_i parsed hparse
      split at hw
      · cases hw
      rename_i hraw
      have hpay := payload_iff.mp hraw
      split at hw
      · rename_i ms
        obtain ⟨hmsg, rfl⟩ := (validateTagged_iff hpay).mp hw
        exact ⟨ms, tag, hparse, hpay, hmem, hmsg, rfl⟩
      · cases hw
    · cases h
  · rintro ⟨ms, tag, hparse, hpay, hmem, hmsg, rfl⟩
    simp only [hparse, payload_iff.mpr hpay, (validateTagged_iff hpay).mpr ⟨hmsg, rfl⟩]
    exact if_pos hmem

/-! ## What the decoders refuse -/

/-- Whatever is thrown is a `TypeError` about a malformed message. -/
def Refuses {α : Type} (x : Except Thrown α) : Prop :=
  ∀ e, x = .error e → ∃ reason, e = .typeError ("malformed wire message: " ++ reason)

theorem Refuses.bind {α β : Type} {x : Except Thrown α} {f : α → Except Thrown β} (hx : Refuses x)
    (hf : ∀ a, Refuses (f a)) : Refuses (x >>= f) := by
  cases x with
  | error e => exact fun e' he => hx e' (congrArg _ (Except.error.inj he))
  | ok a => exact hf a

theorem Refuses.map {α β : Type} {x : Except Thrown α} {f : α → β} (hx : Refuses x) :
    Refuses (x.map f) := by
  cases x with
  | error e => exact fun e' he => hx e' (by cases he; rfl)
  | ok a => exact fun e he => (by cases he)

theorem refuses_ok {α : Type} (a : α) : Refuses (.ok a : Except Thrown α) :=
  fun e he => (by cases he)

theorem refuses_pure {α : Type} (a : α) : Refuses (pure a : Except Thrown α) :=
  fun e he => (by cases he)

theorem refuses_malformed {α : Type} (path expected : String) :
    Refuses (.error (malformed path expected) : Except Thrown α) := by
  intro e he
  obtain rfl := Except.error.inj he
  refine ⟨path ++ " must " ++ expected, ?_⟩
  rw [malformed, String.append_assoc, String.append_assoc, String.append_assoc]

theorem refuses_malformedMessage {α : Type} (reason : String) :
    Refuses (.error (malformedMessage reason) : Except Thrown α) := by
  intro e he
  obtain rfl := Except.error.inj he
  exact ⟨reason, rfl⟩

section
variable {object : WireObject ν} {key path : String} {j : Json ν}

omit [JsNumber ν] in
theorem refuses_required : Refuses (required object key path) := by
  unfold required
  split
  · exact refuses_ok _
  · exact refuses_malformed _ _

omit [JsNumber ν] in
theorem refuses_optional {check : Json ν → Except Thrown Unit} (h : ∀ v, Refuses (check v)) :
    Refuses (optional object key check) := by
  unfold optional
  split
  · exact h _
  · exact refuses_ok _

omit [JsNumber ν] in
theorem refuses_onlyKeys {keys : List String} : Refuses (onlyKeys object path keys) := by
  unfold onlyKeys
  split
  · exact refuses_malformed _ _
  · exact refuses_ok _

omit [JsNumber ν] in
theorem refuses_objectValue : Refuses (objectValue path j) := by
  cases j <;> first | exact refuses_ok _ | exact refuses_malformed _ _

omit [JsNumber ν] in
theorem refuses_stringValue : Refuses (stringValue path j) := by
  cases j <;> first | exact refuses_ok _ | exact refuses_malformed _ _

omit [JsNumber ν] in
theorem refuses_booleanValue : Refuses (booleanValue path j) := by
  cases j <;> first | exact refuses_ok _ | exact refuses_malformed _ _

omit [JsNumber ν] in
theorem refuses_arrayValue : Refuses (arrayValue path j) := by
  cases j <;> first | exact refuses_ok _ | exact refuses_malformed _ _

theorem refuses_integerId : Refuses (integerId path j) := by
  unfold integerId
  split
  · split
    · split
      · exact refuses_ok _
      · exact refuses_malformed _ _
    · exact refuses_malformed _ _
  · exact refuses_malformed _ _

omit [JsNumber ν] in
theorem refuses_enumValue {allowed : List String} : Refuses (enumValue path allowed j) := by
  unfold enumValue
  split
  · split
    · exact refuses_ok _
    · exact refuses_malformed _ _
  · exact refuses_malformed _ _

theorem refuses_nonnegativeNumber : Refuses (nonnegativeNumber path j) := by
  have hfinite : Refuses (finiteNumber path j) := by
    unfold finiteNumber
    split
    · split
      · exact refuses_ok _
      · exact refuses_malformed _ _
    · exact refuses_malformed _ _
  refine hfinite.bind fun n => ?_
  split
  · exact refuses_malformed _ _
  · exact refuses_pure _

omit [JsNumber ν] in
theorem refuses_validateRef : Refuses (validateRef path j) := by
  refine refuses_stringValue.bind fun s => ?_
  split
  · exact refuses_malformed _ _
  · exact refuses_pure _

omit [JsNumber ν] in
theorem refuses_requiredString : Refuses (requiredString object key path) :=
  refuses_required.bind fun _ => refuses_stringValue.bind fun _ => refuses_pure _

theorem refuses_requiredId : Refuses (requiredId object key path) :=
  refuses_required.bind fun _ => refuses_integerId.bind fun _ => refuses_pure _

omit [JsNumber ν] in
theorem refuses_optionalString : Refuses (optionalString object key path) :=
  refuses_optional fun _ => refuses_stringValue.map

end

mutual

theorem refuses_rawJson : ∀ (j : Json ν) (path : String) (depth : Nat), Refuses (rawJson path depth j)
  | .null, path, depth => by
    simp only [rawJson]
    split
    · exact refuses_malformed _ _
    · exact refuses_ok _
  | .bool _, path, depth => by
    simp only [rawJson]
    split
    · exact refuses_malformed _ _
    · exact refuses_ok _
  | .str _, path, depth => by
    simp only [rawJson]
    split
    · exact refuses_malformed _ _
    · exact refuses_ok _
  | .num n, path, depth => by
    rw [rawJson]
    split
    · exact refuses_malformed _ _
    · split
      · exact refuses_ok _
      · exact refuses_malformed _ _
  | .arr xs, path, depth => by
    rw [rawJson]
    split
    · exact refuses_malformed _ _
    · exact refuses_rawJsonElems xs path depth 0
  | .obj ms, path, depth => by
    rw [rawJson]
    split
    · exact refuses_malformed _ _
    · exact refuses_rawJsonMembers ms path depth

theorem refuses_rawJsonElems : ∀ (xs : List (Json ν)) (path : String) (depth index : Nat),
    Refuses (rawJsonElems path depth index xs)
  | [], _, _, _ => refuses_ok _
  | x :: xs, path, depth, index => by
    rw [rawJsonElems]
    split
    · rename_i e he
      exact fun e' he' => refuses_rawJson x _ _ e' (he.trans (congrArg _ (Except.error.inj he')))
    · exact refuses_rawJsonElems xs path depth (index + 1)

theorem refuses_rawJsonMembers : ∀ (ms : List (String × Json ν)) (path : String) (depth : Nat),
    Refuses (rawJsonMembers path depth ms)
  | [], _, _ => refuses_ok _
  | (key, x) :: ms, path, depth => by
    rw [rawJsonMembers]
    split
    · rename_i e he
      exact fun e' he' => refuses_rawJson x _ _ e' (he.trans (congrArg _ (Except.error.inj he')))
    · exact refuses_rawJsonMembers ms path depth

end

omit [JsNumber ν] in
theorem refuses_eachElement {path : String} {check : String → Json ν → Except Thrown (Json ν)}
    (h : ∀ path x, Refuses (check path x)) (xs : List (Json ν)) (index : Nat) :
    Refuses (eachElement path check index xs) := by
  induction xs generalizing index with
  | nil => exact refuses_ok _
  | cons x xs ih => exact (h _ x).bind fun _ => (ih _).bind fun _ => refuses_pure _

omit [JsNumber ν] in
theorem refuses_validateErrorFields {path : String} {error : WireObject ν} :
    Refuses (validateErrorFields path error) := by
  refine refuses_required.bind fun _ => refuses_stringValue.bind fun _ =>
    refuses_required.bind fun _ => refuses_booleanValue.bind fun _ =>
      refuses_required.bind fun _ => refuses_stringValue.bind fun _ => ?_
  split
  · exact refuses_pure _
  · split
    · exact refuses_pure _
    · exact refuses_malformed _ _

theorem refuses_validateRowPatch (path : String) (x : Json ν) : Refuses (validateRowPatch path x) :=
  refuses_objectValue.bind fun _ => refuses_onlyKeys.bind fun _ => refuses_required.bind fun _ =>
    refuses_enumValue.bind fun _ => refuses_required.bind fun _ => refuses_integerId.bind fun _ =>
      refuses_required.bind fun _ => refuses_stringValue.bind fun _ =>
        (refuses_optional fun v => refuses_rawJson v _ _).bind fun _ => refuses_pure _

theorem refuses_validateMutResult (path : String) (x : Json ν) :
    Refuses (validateMutResult path x) := by
  refine refuses_objectValue.bind fun _ => refuses_required.bind fun _ =>
    refuses_stringValue.bind fun _ => refuses_required.bind fun _ =>
      refuses_booleanValue.bind fun _ => ?_
  split
  · exact refuses_onlyKeys.bind fun _ => refuses_required.bind fun v =>
      (refuses_rawJson v _ _).bind fun _ => refuses_required.bind fun _ =>
        refuses_stringValue.bind fun _ => refuses_pure _
  · exact refuses_onlyKeys.bind fun _ => refuses_required.bind fun _ =>
      refuses_objectValue.bind fun _ => refuses_onlyKeys.bind fun _ =>
        refuses_validateErrorFields.bind fun _ => refuses_pure _

theorem refuses_validateMutResults {ms : WireObject ν} : Refuses (validateMutResults ms) := by
  unfold validateMutResults
  split
  · exact refuses_pure _
  · exact refuses_arrayValue.bind fun _ =>
      (refuses_eachElement refuses_validateMutResult _ _).bind fun _ => refuses_pure _

theorem refuses_validateMessage {ms : WireObject ν} (tag : WireTag) :
    Refuses (validateMessage ms tag) := by
  cases tag
  case hello =>
    exact refuses_onlyKeys.bind fun _ => refuses_requiredId.bind fun _ =>
      refuses_requiredString.bind fun _ => refuses_requiredString.bind fun _ =>
        refuses_optionalString.bind fun _ => refuses_optionalString.bind fun _ => refuses_pure _
  case sub =>
    exact refuses_onlyKeys.bind fun _ => refuses_requiredId.bind fun _ =>
      refuses_required.bind fun _ => refuses_validateRef.bind fun _ =>
        refuses_required.bind fun v => (refuses_rawJson v _ _).bind fun _ =>
          (refuses_optional fun _ => refuses_nonnegativeNumber).bind fun _ => refuses_pure _
  case unsub =>
    exact refuses_onlyKeys.bind fun _ => refuses_requiredId.bind fun _ => refuses_pure _
  case «mut» =>
    exact refuses_onlyKeys.bind fun _ => refuses_requiredString.bind fun _ =>
      refuses_required.bind fun _ => refuses_validateRef.bind fun _ =>
        refuses_required.bind fun v => (refuses_rawJson v _ _).bind fun _ => refuses_pure _
  case updateAuth =>
    exact refuses_onlyKeys.bind fun _ => refuses_requiredString.bind fun _ => refuses_pure _
  case ack =>
    exact refuses_onlyKeys.bind fun _ => refuses_requiredString.bind fun _ => refuses_pure _
  case ping => exact refuses_onlyKeys.bind fun _ => refuses_pure _
  case welcome =>
    exact refuses_onlyKeys.bind fun _ => refuses_requiredId.bind fun _ =>
      refuses_requiredString.bind fun _ => refuses_requiredString.bind fun _ =>
        refuses_optionalString.bind fun _ => refuses_optionalString.bind fun _ => refuses_pure _
  case poke =>
    exact refuses_onlyKeys.bind fun _ => refuses_requiredString.bind fun _ =>
      refuses_required.bind fun _ => refuses_arrayValue.bind fun _ =>
        (refuses_eachElement refuses_validateRowPatch _ _).bind fun _ => refuses_validateMutResults
  case snapshot =>
    exact refuses_onlyKeys.bind fun _ => refuses_requiredId.bind fun _ =>
      refuses_requiredString.bind fun _ => refuses_required.bind fun _ =>
        refuses_arrayValue.bind fun _ =>
          (refuses_eachElement (fun _ x => (refuses_rawJson x _ _).map) _ _).bind fun _ =>
            refuses_pure _
  case mustRefetch =>
    exact refuses_onlyKeys.bind fun _ => refuses_required.bind fun _ =>
      refuses_arrayValue.bind fun _ =>
        (refuses_eachElement (fun _ _ => refuses_integerId.map) _ _).bind fun _ =>
          refuses_required.bind fun _ => refuses_stringValue.bind fun _ => refuses_pure _
  case error =>
    exact refuses_onlyKeys.bind fun _ =>
      (refuses_optional fun _ => refuses_integerId.map).bind fun _ =>
        refuses_requiredString.bind fun _ => refuses_validateErrorFields

theorem refuses_validateTagged {ms : WireObject ν} : Refuses (validateTagged ms) := by
  unfold validateTagged
  split
  · split
    · exact (refuses_validateMessage _).map
    · exact refuses_malformedMessage _
  · exact refuses_malformedMessage _

theorem refuses_decodeDirected {tags : List WireTag} {direction raw : String} :
    Refuses (decodeDirected tags direction raw : Except Thrown (Json ν)) := by
  have hwire : Refuses (decodeWire raw : Except Thrown (WireTag × WireObject ν)) := by
    unfold decodeWire
    split
    · exact refuses_malformedMessage _
    · split
      · rename_i e he
        exact fun e' he' => refuses_rawJson _ _ _ e' (he.trans (congrArg _ (Except.error.inj he')))
      · split
        · exact refuses_validateTagged
        · exact refuses_malformedMessage _
  unfold decodeDirected
  split
  · rename_i e he
    exact fun e' he' => hwire e' (he.trans (congrArg _ (Except.error.inj he')))
  · split
    · exact refuses_ok _
    · exact refuses_malformedMessage _

/-! ## The two codecs -/

/-- A decoder of the messages with these tags, which `encodeWire` writes. -/
structure WireCodec (decode : String → Except Thrown (Json ν)) (tags : List WireTag) : Prop where
  /-- A message is decoded to itself. -/
  round_trip : ∀ ms : WireObject ν, ∀ tag ∈ tags, IsMessage true tag ms → (Json.obj ms).Exact →
    (Json.obj ms).height ≤ 100 → decode (encodeWire (.obj ms)) = .ok (.obj ms)
  /-- The texts that are decoded, and to what. -/
  accepts : ∀ raw j, decode raw = .ok j ↔ ∃ ms, ∃ tag ∈ tags, Json.parse raw = some (.obj ms) ∧
    Payload (.obj ms) ∧ IsMessage false tag ms ∧ j = .obj (normalizeMessage ms tag)
  /-- What is decoded belongs to the closed grammar. -/
  closed : ∀ raw j, decode raw = .ok j → ∃ ms, ∃ tag ∈ tags, j = .obj ms ∧ IsMessage true tag ms
  /-- Any other text is refused. -/
  refuses : ∀ raw, (∀ j, decode raw ≠ .ok j) →
    ∃ reason, decode raw = .error (.typeError ("malformed wire message: " ++ reason))
  /-- Encoding what was decoded, and decoding it again, changes nothing. -/
  stable : ∀ raw j, decode raw = .ok j → j.Numbers (fun n => JsNumber.isNegZero n = false) →
    decode (encodeWire j) = .ok j

theorem exact_of_sound {d : Nat} {j : Json ν} (h : Sound d j)
    (hz : j.Numbers fun n => JsNumber.isNegZero n = false) : j.Exact := by
  refine (exact_iff j).mpr ⟨h.1, ?_⟩
  refine numbers_mono (fun n hn => ?_) j (numbers_and j h.2.1 hz)
  rw [JsNumber.exact, hn.1, hn.2]
  rfl

theorem decodeDirected_encodeWire {tags : List WireTag} {direction : String} {ms : WireObject ν}
    {tag : WireTag} (htag : tag ∈ tags) (hmsg : IsMessage true tag ms) (h : (Json.obj ms).Exact)
    (hle : (Json.obj ms).height ≤ 100) :
    decodeDirected tags direction (encodeWire (.obj ms)) = .ok (.obj ms) := by
  refine decodeDirected_iff.mpr ⟨ms, tag, Json.parse_toText h, ⟨exact_finite h, hle⟩, htag,
    isMessage_mono hmsg, ?_⟩
  rw [normalizeMessage_known hmsg ((exact_iff _).mp h).1]

theorem decodeDirected_codec (tags : List WireTag) (direction : String) :
    WireCodec (ν := ν) (decodeDirected tags direction) tags where
  round_trip _ _ htag hmsg h hle := decodeDirected_encodeWire htag hmsg h hle
  accepts raw j := by
    rw [decodeDirected_iff]
    constructor
    · rintro ⟨ms, tag, hparse, hpay, htag, hmsg, hj⟩
      exact ⟨ms, tag, htag, hparse, hpay, hmsg, hj⟩
    · rintro ⟨ms, tag, htag, hparse, hpay, hmsg, hj⟩
      exact ⟨ms, tag, hparse, hpay, htag, hmsg, hj⟩
  closed raw j h := by
    obtain ⟨ms, tag, -, -, htag, hmsg, rfl⟩ := decodeDirected_iff.mp h
    exact ⟨_, tag, htag, rfl, isMessage_normalizeMessage hmsg⟩
  refuses raw h := by
    cases hd : (decodeDirected tags direction raw : Except Thrown (Json ν)) with
    | error e =>
      obtain ⟨reason, rfl⟩ := refuses_decodeDirected e hd
      exact ⟨reason, rfl⟩
    | ok j => exact absurd hd (h j)
  stable raw j h hz := by
    obtain ⟨ms, tag, hparse, hpay, htag, hmsg, rfl⟩ := decodeDirected_iff.mp h
    have hsound : Sound (96 + 4) (.obj (normalizeMessage ms tag)) :=
      sound_normalizeMessage ⟨parse_own hparse, hpay⟩
    exact decodeDirected_encodeWire htag (isMessage_normalizeMessage hmsg)
      (exact_of_sound hsound hz) hsound.2.2

/-- The decoders of both directions are codecs for the messages of their direction. -/
theorem wire_codec : WireCodec (ν := ν) decodeUp UP_TAGS ∧ WireCodec (ν := ν) decodeDown DOWN_TAGS :=
  ⟨decodeDirected_codec UP_TAGS "client-to-server", decodeDirected_codec DOWN_TAGS "server-to-client"⟩

/-! ### Negative zero -/

/-- The integers, and negative zero. -/
inductive SignedInt
  | negZero
  | int (i : Int)
  deriving DecidableEq

instance : JsNumber SignedInt where
  isFinite _ := true
  isNegZero n := n = .negZero
  text
    | .negZero => ['0']
    | .int i => intText i
  ofText cs := if cs = ['-', '0'] then some .negZero else (intOfText cs).map .int
  ofInt := .int
  toInt?
    | .negZero => some 0
    | .int i => JsNumber.toInt? i
  text_start n h := by
    cases n with
    | negZero => exact ⟨'0', [], rfl, rfl⟩
    | int i => exact JsNumber.text_start i h
  text_chars n h := by
    cases n with
    | negZero =>
      intro c hc
      obtain rfl := List.mem_singleton.mp hc
      rfl
    | int i => exact JsNumber.text_chars i h
  ofText_text n _ hz := by
    cases n with
    | negZero => cases hz
    | int i =>
      have hne : intText i ≠ ['-', '0'] := fun h => by
        have h0 := intOfText_intText i
        rw [h] at h0
        obtain rfl := Option.some.inj h0
        revert h
        decide
      show (if intText i = ['-', '0'] then _ else _) = _
      rw [if_neg hne, intOfText_intText]
      rfl
  ofInt_exact _ _ := ⟨rfl, rfl⟩
  toInt?_ofInt i h := JsNumber.toInt?_ofInt (ν := Int) i h

/-- A subscription with a number as its arguments. -/
def numberSub (n : SignedInt) : WireObject SignedInt :=
  [("t", .str "sub"), ("subId", .num (.int 0)), ("ref", .str "todos#list"), ("args", .num n)]

theorem numberSub_message (n : SignedInt) : IsMessage true .sub (numberSub n) := by
  refine ⟨hasFields_iff.mpr ⟨fun m hm => ?_, ?_⟩, fun h => (by cases h)⟩
  · simp only [numberSub, List.mem_cons, List.not_mem_nil, or_false] at hm
    rcases hm with rfl | rfl | rfl | rfl <;> simp [messageFields, WireField.key]
  · refine ⟨⟨_, rfl, rfl⟩, ⟨_, rfl, .int 0, 0, rfl, rfl, by decide⟩,
      ⟨_, rfl, "todos#list", rfl, by decide⟩, ⟨_, rfl, trivial⟩, fun v hv => ?_⟩
    cases hv

theorem numberSub_own (n : SignedInt) : (Json.obj (numberSub n)).Own := by
  have hkeys : OwnKeys ["t", "subId", "ref", "args"] := by decide
  exact ⟨hkeys, trivial, trivial, trivial, trivial, trivial⟩

theorem numberSub_payload (n : SignedInt) : Payload (.obj (numberSub n)) :=
  ⟨⟨trivial, rfl, trivial, rfl, trivial⟩, by simp [numberSub, Json.height, Json.membersHeight]⟩

/-- A message with negative zero as its arguments is decoded with zero. -/
theorem negative_zero_not_kept :
    IsMessage true .sub (numberSub .negZero) ∧ (Json.obj (numberSub .negZero)).Own ∧
      Payload (.obj (numberSub .negZero)) ∧
        decodeUp (encodeWire (.obj (numberSub .negZero))) = .ok (.obj (numberSub (.int 0))) ∧
          decodeUp (encodeWire (.obj (numberSub .negZero))) ≠ .ok (.obj (numberSub .negZero)) := by
  have htext : encodeWire (.obj (numberSub .negZero)) = encodeWire (.obj (numberSub (.int 0))) := rfl
  have hexact : (Json.obj (numberSub (.int 0))).Exact :=
    (exact_iff _).mpr ⟨numberSub_own _, trivial, rfl, trivial, rfl, trivial⟩
  have hdecode : decodeUp (encodeWire (.obj (numberSub .negZero))) =
      .ok (.obj (numberSub (.int 0))) := by
    rw [htext]
    exact decodeDirected_encodeWire (by decide) (numberSub_message _) hexact (numberSub_payload _).2
  refine ⟨numberSub_message _, numberSub_own _, numberSub_payload _, hdecode, ?_⟩
  rw [hdecode]
  simp [numberSub]

end Chardb.Wire
