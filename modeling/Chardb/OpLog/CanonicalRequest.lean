import Chardb.Core.CanonicalQuotient
import Chardb.Wire.RoundTrip

/-!
# The canonical text of a request

The op-log hashes the text of a request, whose arguments a second `canonicalize` orders: it takes
the keys of an object one after the other and reads the member under each. Subscriptions and
colocation hash `stableJson`. The two tell the same arguments apart.
-/

namespace Chardb.OpLog

open Chardb.Lib

variable {ν : Type}

/-- The members under `keys`, in that order. -/
def readMembers (keys : List String) (members : List (String × Json ν)) : List (String × Json ν) :=
  keys.filterMap fun key => members.find? fun m => m.1 = key

mutual

/-- `canonicalize` of the op-log. -/
def canonicalize : Json ν → Json ν
  | .arr elems => .arr (canonicalizeElems elems)
  | .obj members => .obj (ownMembers (readMembers (sortStrings (members.map Prod.fst))
      (canonicalizeMembers members)))
  | value => value

def canonicalizeElems : List (Json ν) → List (Json ν)
  | [] => []
  | x :: xs => canonicalize x :: canonicalizeElems xs

def canonicalizeMembers : List (String × Json ν) → List (String × Json ν)
  | [] => []
  | (k, v) :: ms => (k, canonicalize v) :: canonicalizeMembers ms

end

def canonicalRequest [JsNumber ν] (ref : String) (args : Json ν) : String :=
  (Json.obj [("ref", .str ref), ("args", canonicalize args)]).toText

/-! ## The two canonicalisers -/

/-- Reading the members under the sorted keys sorts the members. -/
theorem readMembers_sorted {ms : List (String × Json ν)} (h : (ms.map Prod.fst).Nodup) :
    readMembers (sortStrings (ms.map Prod.fst)) ms = sortMembers ms := by
  have hfind : ∀ m ∈ sortMembers ms, (ms.find? fun x => x.1 = m.1) = some m := by
    intro m hm
    have hmem : m ∈ ms := (List.mem_insertionSort _).mp hm
    cases hfind : ms.find? fun x => x.1 = m.1 with
    | none => simpa using List.find?_eq_none.mp hfind m hmem
    | some x =>
      have hkey : x.1 = m.1 := by simpa using List.find?_some hfind
      rw [List.inj_on_of_nodup_map h (List.mem_of_find?_eq_some hfind) hmem hkey]
  rw [readMembers, ← sortMembers_keys, List.filterMap_map]
  conv_rhs => rw [← List.filterMap_some (l := sortMembers ms)]
  exact List.filterMap_congr hfind

section
variable [JsNumber ν]

mutual

/-- The canonicalisers agree. -/
theorem canonicalize_agrees : ∀ j : Json ν, j.IsValue → canonicalize j = Chardb.canonicalize j
  | .null, _ => rfl
  | .bool _, _ => rfl
  | .num _, _ => rfl
  | .str _, _ => rfl
  | .arr xs, h => by
    rw [Json.IsValue] at h
    rw [canonicalize, Chardb.canonicalize, canonicalizeElems_agrees xs h]
  | .obj ms, h => by
    rw [Json.IsValue] at h
    have hnodup : ((Chardb.canonicalizeMembers ms).map Prod.fst).Nodup := by
      rw [canonicalizeMembers_keys]
      exact h.1.nodup
    rw [canonicalize, Chardb.canonicalize, canonicalizeMembers_agrees ms h.2,
      ← canonicalizeMembers_keys ms, readMembers_sorted hnodup]

theorem canonicalizeElems_agrees :
    ∀ xs : List (Json ν), Json.ElemsValues xs → canonicalizeElems xs = Chardb.canonicalizeElems xs
  | [], _ => rfl
  | x :: xs, h => by
    rw [Json.ElemsValues] at h
    rw [canonicalizeElems, Chardb.canonicalizeElems, canonicalize_agrees x h.1,
      canonicalizeElems_agrees xs h.2]

theorem canonicalizeMembers_agrees :
    ∀ ms : List (String × Json ν), Json.MembersValues ms →
      canonicalizeMembers ms = Chardb.canonicalizeMembers ms
  | [], _ => rfl
  | (_, v) :: ms, h => by
    rw [Json.MembersValues] at h
    rw [canonicalizeMembers, Chardb.canonicalizeMembers, canonicalize_agrees v h.1,
      canonicalizeMembers_agrees ms h.2]

end

/-- A request in canonical text holds `stableJson` of its arguments. -/
theorem canonicalRequest_text (ref : String) {x : Json ν} (hx : x.IsValue) :
    canonicalRequest ref x = "\x7b\"ref\":" ++ String.ofList (quote ref) ++ ",\"args\":" ++
      stableJson x ++ "\x7d" := by
  rw [canonicalRequest, canonicalize_agrees x hx]
  unfold stableJson Json.toText
  simp only [Json.stringify, Json.membersText]
  rw [← String.toList_inj]
  simp [quote, quoteChar]

end

/-! ## Requests told apart -/

section
variable [SignedZero ν] {x y : Json ν}

theorem canonicalRequest_exact (ref : String) (hx : x.IsValue) :
    canonicalRequest ref x =
      (Json.obj [("ref", .str ref), ("args", Chardb.canonicalize x.plusZero)]).toText := by
  have hstable := stableJson_plusZero x
  unfold stableJson Json.toText at hstable
  rw [canonicalRequest, canonicalize_agrees x hx]
  unfold Json.toText
  simp only [Json.stringify, Json.membersText]
  rw [String.ofList_inj.mp hstable]

theorem request_exact (ref : String) (hx : x.IsValue) :
    (Json.obj [("ref", .str ref), ("args", Chardb.canonicalize x.plusZero)]).Exact := by
  have hkeys : OwnKeys ["ref", "args"] := by decide
  exact ⟨hkeys, trivial, canonicalize_exact (Json.plusZero_exact hx), trivial⟩

theorem parse_canonicalRequest (ref : String) (hx : x.IsValue) :
    Json.parse (canonicalRequest ref x) =
      some (.obj [("ref", .str ref), ("args", Chardb.canonicalize x.plusZero)]) := by
  rw [canonicalRequest_exact ref hx]
  exact Json.parse_toText (request_exact ref hx)

theorem canonicalRequest_iff {ref ref' : String} (hx : x.IsValue) (hy : y.IsValue) :
    canonicalRequest ref x = canonicalRequest ref' y ↔ ref = ref' ∧ Json.Alike x y := by
  rw [← stableJson_iff hx hy]
  constructor
  · intro h
    have hparse := parse_canonicalRequest ref hx
    rw [h, parse_canonicalRequest ref' hy, Option.some.injEq, Json.obj.injEq, List.cons.injEq,
      List.cons.injEq, Prod.mk.injEq, Prod.mk.injEq, Json.str.injEq] at hparse
    obtain ⟨⟨-, href⟩, ⟨-, hargs⟩, -⟩ := hparse
    refine ⟨href.symm, ?_⟩
    rw [← stableJson_plusZero x, ← stableJson_plusZero y]
    exact congrArg Json.toText hargs.symm
  · rintro ⟨rfl, h⟩
    rw [canonicalRequest_text ref hx, canonicalRequest_text ref hy, h]

/-- A text that was parsed gives the same text again. -/
theorem canonicalRequest_canonicalize (ref : String) (hx : x.IsValue) :
    canonicalRequest ref (Chardb.canonicalize x.plusZero) = canonicalRequest ref x := by
  have hcanonical := (canonicalize_exact (Json.plusZero_exact hx)).isValue
  rw [canonicalRequest_text ref hcanonical, canonicalRequest_text ref hx,
    stableJson_canonicalize hx]

/-- The object whose members are defined in this order. -/
def definedObject (members : List (String × JsonValue ν)) : Json ν :=
  .obj (ownMembers (members.map fun m => (m.1, m.2.1)))

theorem definedObject_isValue {ms : List (String × JsonValue ν)} (h : (ms.map Prod.fst).Nodup) :
    (definedObject ms).IsValue := by
  have hkeys : (ms.map fun m => (m.1, m.2.1)).map Prod.fst = ms.map Prod.fst := by
    rw [List.map_map]
    rfl
  have hperm := ownMembers_perm (hkeys ▸ h)
  refine ⟨ownMembers_ownKeys _, membersValues_iff.mpr fun m hm => ?_⟩
  obtain ⟨x, -, rfl⟩ := List.mem_map.mp (hperm.mem_iff.mp hm)
  exact x.2.2

theorem stableJson_defined {ms ns : List (String × JsonValue ν)} (h : ms.Perm ns)
    (hnodup : (ms.map Prod.fst).Nodup) :
    stableJson (definedObject ms) = stableJson (definedObject ns) := by
  refine congrArg Json.toText (canonicalize_defined (h.map _) ?_)
  rw [List.map_map]
  exact hnodup

/-- Both canonical texts tell JSON values apart exactly when they differ by more than the order of
keys and the sign of zeros; a text that is parsed gives the same text again; the order in which keys
were defined leaves no trace; and a request holds `stableJson` of its arguments. -/
theorem canonical_json_quotient :
    (∀ x y : JsonValue ν, stableJson x.1 = stableJson y.1 ↔ Json.Alike x.1 y.1) ∧
    (∀ ref ref' (x y : JsonValue ν),
      canonicalRequest ref x.1 = canonicalRequest ref' y.1 ↔ ref = ref' ∧ Json.Alike x.1 y.1) ∧
    (∀ x : JsonValue ν, ∃ y : JsonValue ν,
      Json.parse (stableJson x.1) = some y.1 ∧ stableJson y.1 = stableJson x.1) ∧
    (∀ ref (x : JsonValue ν), ∃ y : JsonValue ν,
      Json.parse (canonicalRequest ref x.1) = some (.obj [("ref", .str ref), ("args", y.1)]) ∧
        canonicalRequest ref y.1 = canonicalRequest ref x.1) ∧
    (∀ ref (ms ns : List (String × JsonValue ν)), ms.Perm ns → (ms.map Prod.fst).Nodup →
      stableJson (definedObject ms) = stableJson (definedObject ns) ∧
        canonicalRequest ref (definedObject ms) = canonicalRequest ref (definedObject ns)) ∧
    ∀ ref (x : JsonValue ν), canonicalize x.1 = Chardb.canonicalize x.1 ∧
      canonicalRequest ref x.1 = "\x7b\"ref\":" ++ String.ofList (quote ref) ++ ",\"args\":" ++
        stableJson x.1 ++ "\x7d" := by
  have hvalue (x : JsonValue ν) : (Chardb.canonicalize x.1.plusZero).IsValue :=
    (canonicalize_exact (Json.plusZero_exact x.2)).isValue
  refine ⟨fun x y => stableJson_iff x.2 y.2, fun _ _ x y => canonicalRequest_iff x.2 y.2,
    ?_, ?_, ?_, ?_⟩
  · intro x
    exact ⟨⟨_, hvalue x⟩, parse_stableJson x.2, stableJson_canonicalize x.2⟩
  · intro ref x
    exact ⟨⟨_, hvalue x⟩, parse_canonicalRequest ref x.2, canonicalRequest_canonicalize ref x.2⟩
  · intro ref ms ns h hnodup
    have htext := stableJson_defined h hnodup
    have hns : (ns.map Prod.fst).Nodup := ((h.map Prod.fst).nodup_iff).mp hnodup
    refine ⟨htext, ?_⟩
    rw [canonicalRequest_text ref (definedObject_isValue hnodup),
      canonicalRequest_text ref (definedObject_isValue hns), htext]
  · intro ref x
    exact ⟨canonicalize_agrees x.1 x.2, canonicalRequest_text ref x.2⟩

end

/-! ## Negative zero -/

instance : SignedZero Wire.SignedInt where
  negZero_text n h := by
    cases n with
    | negZero => exact ⟨rfl, rfl⟩
    | int i => cases h

/-- `0` and `-0` are two values with one canonical text. -/
theorem zeros_one_text :
    ∃ x y : JsonValue Wire.SignedInt, x.1 = .num .negZero ∧ y.1 = .num (.int 0) ∧
      stableJson x.1 = stableJson y.1 ∧
      canonicalRequest "todos#add" x.1 = canonicalRequest "todos#add" y.1 ∧
      ¬ Json.Same x.1 y.1 := by
  refine ⟨⟨.num .negZero, rfl⟩, ⟨.num (.int 0), rfl⟩, rfl, rfl, rfl, rfl, ?_⟩
  intro h
  cases h

end Chardb.OpLog
