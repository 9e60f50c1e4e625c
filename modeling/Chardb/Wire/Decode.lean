import Chardb.Lib.JsonMembers
import Chardb.Wire.Wire

/-!
# What the decoders accept

A message that was encoded is decoded to itself when its text says all of it and it is
nested at most 100 levels deep: a poke with a result of at most 97 levels, a snapshot
with rows of at most 99.
-/

namespace Chardb.Wire

open Chardb.Lib

variable {ν : Type} [JsNumber ν]

/-! ## The bound on nesting -/

mutual

/-- `rawJson` accepts finite numbers, nested at most 100 levels deep. -/
theorem rawJson_iff : ∀ (j : Json ν) (path : String) (depth : Nat),
    rawJson path depth j = .ok () ↔
      j.Numbers (fun n => JsNumber.isFinite n = true) ∧ depth + j.height ≤ 100
  | .null, path, depth => by
    simp only [rawJson, Json.height, Json.Numbers]
    split <;> simp <;> omega
  | .bool _, path, depth => by
    simp only [rawJson, Json.height, Json.Numbers]
    split <;> simp <;> omega
  | .str _, path, depth => by
    simp only [rawJson, Json.height, Json.Numbers]
    split <;> simp <;> omega
  | .num n, path, depth => by
    simp only [rawJson, Json.height, Json.Numbers]
    split
    · simp only [reduceCtorEq, false_iff]
      omega
    · split
      · simp [*]
        omega
      · simp [*]
  | .arr xs, path, depth => by
    rw [rawJson, Json.height, Json.Numbers]
    split
    · simp only [reduceCtorEq, false_iff]
      omega
    · exact rawJsonElems_iff xs path depth 0 (by omega)
  | .obj ms, path, depth => by
    rw [rawJson, Json.height, Json.Numbers]
    split
    · simp only [reduceCtorEq, false_iff]
      omega
    · exact rawJsonMembers_iff ms path depth (by omega)

theorem rawJsonElems_iff : ∀ (xs : List (Json ν)) (path : String) (depth index : Nat), depth ≤ 100 →
    (rawJsonElems path depth index xs = .ok () ↔
      Json.ElemsNumbers (fun n => JsNumber.isFinite n = true) xs ∧
        depth + Json.elemsHeight xs ≤ 100)
  | [], _, depth, _, hd => by
    rw [rawJsonElems, Json.ElemsNumbers, Json.elemsHeight]
    simpa using hd
  | x :: xs, path, depth, index, hd => by
    have hx := rawJson_iff x (path ++ "[" ++ toString index ++ "]") (depth + 1)
    have hxs := rawJsonElems_iff xs path depth (index + 1) hd
    rw [rawJsonElems, Json.ElemsNumbers, Json.elemsHeight]
    split
    · rename_i e he
      rw [he] at hx
      simp only [reduceCtorEq, false_iff, not_and] at hx ⊢
      rintro ⟨hfin, -⟩
      have := hx hfin
      omega
    · rename_i he
      obtain ⟨hfin, hle⟩ := hx.mp he
      rw [hxs]
      constructor
      · rintro ⟨h₁, h₂⟩
        exact ⟨⟨hfin, h₁⟩, by omega⟩
      · rintro ⟨⟨-, h₁⟩, h₂⟩
        exact ⟨h₁, by omega⟩

theorem rawJsonMembers_iff : ∀ (ms : List (String × Json ν)) (path : String) (depth : Nat),
    depth ≤ 100 → (rawJsonMembers path depth ms = .ok () ↔
      Json.MembersNumbers (fun n => JsNumber.isFinite n = true) ms ∧
        depth + Json.membersHeight ms ≤ 100)
  | [], _, depth, hd => by
    rw [rawJsonMembers, Json.MembersNumbers, Json.membersHeight]
    simpa using hd
  | (key, x) :: ms, path, depth, hd => by
    have hx := rawJson_iff x (path ++ "." ++ key) (depth + 1)
    have hms := rawJsonMembers_iff ms path depth hd
    rw [rawJsonMembers, Json.MembersNumbers, Json.membersHeight]
    split
    · rename_i e he
      rw [he] at hx
      simp only [reduceCtorEq, false_iff, not_and] at hx ⊢
      rintro ⟨hfin, -⟩
      have := hx hfin
      omega
    · rename_i he
      obtain ⟨hfin, hle⟩ := hx.mp he
      rw [hms]
      constructor
      · rintro ⟨h₁, h₂⟩
        exact ⟨⟨hfin, h₁⟩, by omega⟩
      · rintro ⟨⟨-, h₁⟩, h₂⟩
        exact ⟨h₁, by omega⟩

end

theorem exact_finite {j : Json ν} (h : j.Exact) :
    j.Numbers fun n => JsNumber.isFinite n = true := by
  refine numbers_mono (fun n hn => ?_) j ((exact_iff j).mp h).2
  rw [JsNumber.exact, Bool.and_eq_true] at hn
  exact hn.1

theorem rawJson_ok_iff (j : Json ν) (path : String) (depth : Nat) (h : j.Exact) :
    rawJson path depth j = .ok () ↔ depth + j.height ≤ 100 :=
  (rawJson_iff j path depth).trans (and_iff_right (exact_finite h))

theorem rawJson_ok {j : Json ν} {path : String} {depth : Nat} (h : j.Exact)
    (hle : depth + j.height ≤ 100) : rawJson path depth j = .ok () :=
  (rawJson_ok_iff j path depth h).mpr hle

/-- The text of a message is decoded by checking the message, unless it is nested too deep. -/
theorem decodeWire_encodeWire {ms : WireObject ν} (h : (Json.obj ms).Exact)
    (hle : Json.membersHeight ms ≤ 100) :
    decodeWire (encodeWire (.obj ms)) = validateTagged ms := by
  rw [decodeWire, encodeWire, Json.parse_toText h]
  have hraw : rawJson "$root" 0 (Json.obj ms) = .ok () :=
    rawJson_ok h (by rw [Json.height]; omega)
  simp only [hraw]

theorem decodeDirected_too_deep {tags : List WireTag} {direction : String} {j : Json ν}
    (h : j.Exact) (hlt : 100 < j.height) :
    ∃ e, decodeDirected tags direction (encodeWire j) = (.error e : Except Thrown (Json ν)) := by
  have hraw : ∃ e, rawJson "$root" 0 j = .error e := by
    cases hr : rawJson "$root" 0 j with
    | error e => exact ⟨e, rfl⟩
    | ok u => have := (rawJson_ok_iff j "$root" 0 h).mp hr; omega
  obtain ⟨e, he⟩ := hraw
  refine ⟨e, ?_⟩
  rw [decodeDirected, decodeWire, encodeWire, Json.parse_toText h]
  simp only [he]

/-! ## The two messages -/

/-- What `settleMut` sends for a mutation that succeeded. -/
def settleMut (mutId deliveredCookie cookie : String) (result : Json ν) : Down ν :=
  .poke deliveredCookie [] (some [.ok mutId result cookie])

def pokeFields (mutId deliveredCookie cookie : String) (result : Json ν) : WireObject ν :=
  [("t", .str "poke"), ("cookie", .str deliveredCookie), ("patches", .arr []),
    ("mutResults", .arr [(MutResult.ok mutId result cookie).toJson])]

theorem settleMut_toJson (mutId deliveredCookie cookie : String) (result : Json ν) :
    (settleMut mutId deliveredCookie cookie result).toJson =
      .obj (pokeFields mutId deliveredCookie cookie result) := rfl

theorem settleMut_exact (mutId deliveredCookie cookie : String) {result : Json ν}
    (h : result.Exact) : (settleMut mutId deliveredCookie cookie result).toJson.Exact := by
  have hkeys : OwnKeys ["t", "cookie", "patches", "mutResults"] := by decide
  have hresult : OwnKeys ["mutId", "ok", "result", "cookie"] := by decide
  simp only [settleMut_toJson, pokeFields, MutResult.toJson, Json.Exact, Json.MembersExact,
    Json.ElemsExact, List.map_cons, List.map_nil, and_true, true_and]
  exact ⟨hkeys, hresult, h⟩

omit [JsNumber ν] in
theorem pokeFields_height (mutId deliveredCookie cookie : String) (result : Json ν) :
    Json.membersHeight (pokeFields mutId deliveredCookie cookie result) = result.height + 3 := by
  simp only [pokeFields, MutResult.toJson, Json.height, Json.membersHeight, Json.elemsHeight]
  omega

theorem validateMutResult_ok (path mutId cookie : String) {result : Json ν} (h : result.Exact)
    (hle : result.height ≤ 100) :
    validateMutResult path (MutResult.ok mutId result cookie).toJson =
      .ok (MutResult.ok mutId result cookie).toJson := by
  have hraw : rawJson (path ++ ".result") 0 result = .ok () := rawJson_ok h (by omega)
  simp [MutResult.toJson, validateMutResult, validateMutSuccess, objectValue, required, Json.get?,
    stringValue, booleanValue, onlyKeys, hraw, bind, Except.bind, pure, Except.pure]

omit [JsNumber ν] in
theorem eachElement_nil (path : String) (check : String → Json ν → Except Thrown (Json ν))
    (index : Nat) : eachElement path check index [] = .ok [] := rfl

omit [JsNumber ν] in
theorem eachElement_ok {path : String} {check : String → Json ν → Except Thrown (Json ν)} :
    ∀ {xs : List (Json ν)} {index : Nat}, (∀ p, ∀ x ∈ xs, check p x = .ok x) →
      eachElement path check index xs = .ok xs
  | [], _, _ => rfl
  | x :: xs, index, h => by
    rw [eachElement, h _ x List.mem_cons_self]
    show (eachElement path check (index + 1) xs >>= _) = _
    rw [eachElement_ok fun p y hy => h p y (List.mem_cons_of_mem x hy)]
    rfl

theorem validate_pokeFields (mutId deliveredCookie cookie : String) {result : Json ν}
    (h : result.Exact) (hle : result.height ≤ 100) :
    validateTagged (pokeFields mutId deliveredCookie cookie result) =
      .ok (.poke, pokeFields mutId deliveredCookie cookie result) := by
  have htag : WireTag.ofText? "poke" = some .poke := by decide
  have helem : eachElement "poke.mutResults" validateMutResult 0
      [(MutResult.ok mutId result cookie).toJson] =
        .ok [(MutResult.ok mutId result cookie).toJson] := by
    refine eachElement_ok fun p x hx => ?_
    obtain rfl := List.mem_singleton.mp hx
    exact validateMutResult_ok p mutId cookie h hle
  simp [pokeFields, validateTagged, Json.get?, htag, validateMessage, onlyKeys, requiredString,
    required, stringValue, arrayValue, eachElement_nil, validateMutResults, helem, defineKey, bind,
    Except.bind, pure, Except.pure, Except.map]

/-- A poke is decoded to itself if its result has at most 97 levels. -/
theorem decodeDown_settleMut (mutId deliveredCookie cookie : String) {result : Json ν}
    (h : result.Exact) (hle : result.height ≤ 97) :
    decodeDown (encodeWire (settleMut mutId deliveredCookie cookie result).toJson) =
      .ok (settleMut mutId deliveredCookie cookie result).toJson := by
  have hexact := settleMut_exact mutId deliveredCookie cookie h
  have hheight := pokeFields_height mutId deliveredCookie cookie result
  rw [settleMut_toJson] at hexact ⊢
  rw [decodeDown, decodeDirected, decodeWire_encodeWire hexact (by omega),
    validate_pokeFields mutId deliveredCookie cookie h (by omega)]
  rfl

theorem decodeDown_settleMut_error (mutId deliveredCookie cookie : String) {result : Json ν}
    (h : result.Exact) (hlt : 97 < result.height) :
    ∃ e, decodeDown (encodeWire (settleMut mutId deliveredCookie cookie result).toJson) =
      (.error e : Except Thrown (Json ν)) := by
  have hheight := pokeFields_height mutId deliveredCookie cookie result
  refine decodeDirected_too_deep (settleMut_exact mutId deliveredCookie cookie h) ?_
  rw [settleMut_toJson, Json.height]
  omega

/-! ### Snapshots -/

def snapshotFields (subId : SubId) (cookie : String) (rows : List (Json ν)) : WireObject ν :=
  [("t", .str "snapshot"), ("subId", subId.toJson), ("cookie", .str cookie), ("rows", .arr rows)]

theorem snapshot_toJson (subId : SubId) (cookie : String) (rows : List (Json ν)) :
    (Down.snapshot subId cookie rows).toJson = .obj (snapshotFields subId cookie rows) := rfl

theorem SubId.natAbs_lt (subId : SubId) : subId.1.natAbs < 2 ^ 53 := by
  have := subId.2
  omega

theorem snapshot_exact (subId : SubId) (cookie : String) {rows : List (Json ν)}
    (h : Json.ElemsExact rows) : (Down.snapshot subId cookie rows).toJson.Exact := by
  have hkeys : OwnKeys ["t", "subId", "cookie", "rows"] := by decide
  have hid : (subId.toJson : Json ν).Exact := Json.int_exact subId.natAbs_lt
  simp only [snapshot_toJson, snapshotFields, Json.Exact, Json.MembersExact, List.map_cons,
    List.map_nil, and_true, true_and]
  exact ⟨hkeys, hid, h⟩

theorem snapshotFields_height (subId : SubId) (cookie : String) (rows : List (Json ν)) :
    Json.membersHeight (snapshotFields subId cookie rows) = Json.elemsHeight rows + 1 := by
  simp only [snapshotFields, SubId.toJson, Json.int, Json.height, Json.membersHeight]
  omega

theorem integerId_subId (path : String) (subId : SubId) :
    integerId path (subId.toJson : Json ν) = .ok subId.1 := by
  rw [SubId.toJson, Json.int, integerId, JsNumber.toInt?_ofInt _ subId.natAbs_lt]
  exact if_pos subId.2.1

theorem validateRow_ok : ∀ {rows : List (Json ν)}, Json.ElemsExact rows →
    Json.elemsHeight rows ≤ 101 → ∀ p, ∀ row ∈ rows,
      validateRow p row = .ok row
  | x :: xs, h, hle, p, row, hrow => by
    rw [Json.ElemsExact] at h
    rw [Json.elemsHeight] at hle
    rcases List.mem_cons.mp hrow with rfl | hrow
    · rw [validateRow, rawJson_ok h.1 (by omega)]; rfl
    · exact validateRow_ok h.2 (by omega) p row hrow

theorem validate_snapshotFields (subId : SubId) (cookie : String) {rows : List (Json ν)}
    (h : Json.ElemsExact rows) (hle : Json.elemsHeight rows ≤ 101) :
    validateTagged (snapshotFields subId cookie rows) =
      .ok (.snapshot, snapshotFields subId cookie rows) := by
  have htag : WireTag.ofText? "snapshot" = some .snapshot := by decide
  have helem : eachElement "snapshot.rows" validateRow 0 rows = .ok rows :=
    eachElement_ok (validateRow_ok h hle)
  simp [snapshotFields, validateTagged, Json.get?, htag, validateMessage, onlyKeys, requiredString,
    requiredId, required, stringValue, integerId_subId, arrayValue, helem, bind, Except.bind, pure,
    Except.pure, Except.map]

/-- A snapshot is decoded to itself if its rows have at most 99 levels. -/
theorem decodeDown_snapshot (subId : SubId) (cookie : String) {rows : List (Json ν)}
    (h : Json.ElemsExact rows) (hle : Json.elemsHeight rows ≤ 99) :
    decodeDown (encodeWire (Down.snapshot subId cookie rows).toJson) =
      .ok (Down.snapshot subId cookie rows).toJson := by
  have hexact := snapshot_exact subId cookie h
  have hheight := snapshotFields_height subId cookie rows
  rw [snapshot_toJson] at hexact ⊢
  rw [decodeDown, decodeDirected, decodeWire_encodeWire hexact (by omega),
    validate_snapshotFields subId cookie h (by omega)]
  rfl

theorem decodeDown_snapshot_error (subId : SubId) (cookie : String) {rows : List (Json ν)}
    (h : Json.ElemsExact rows) (hlt : 99 < Json.elemsHeight rows) :
    ∃ e, decodeDown (encodeWire (Down.snapshot subId cookie rows).toJson) =
      (.error e : Except Thrown (Json ν)) := by
  have hheight := snapshotFields_height subId cookie rows
  refine decodeDirected_too_deep (snapshot_exact subId cookie h) ?_
  rw [snapshot_toJson, Json.height]
  omega

/-! ### Arguments -/

end Chardb.Wire
