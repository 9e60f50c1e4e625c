import Chardb.Core.RawJson
import Chardb.Lib.Tx

/-!
# Size limits of JSON payloads

`inspectCdbJsonByteLimit` walks a value, counts the bytes of its JSON text and copies
it. Results have a limit on the bytes; arguments also have one on the members and one
on the nesting.
-/

namespace Chardb

open Chardb.Lib

def CDB_ARGUMENT_MAX_MEMBERS : Nat := 4096

def CDB_ARGUMENT_MAX_BYTES : Nat := 512 * 1024

def CDB_ARGUMENT_MAX_DEPTH : Nat := 99

def CDB_RESULT_MAX_BYTES : Nat := 512 * 1024

def CDB_QUERY_RESULT_MAX_ROWS : Nat := 4096

/-- Whose payload is inspected, and how a refusal reads. -/
structure LimitSubject where
  code : CdbErrorCode
  subject : String
  hint : String

/-- The limits on the structure of a payload. -/
structure StructureLimit where
  maxAggregateMembers : Nat
  maxDepth : Nat

/-- What has been counted so far. -/
structure JsonCounts where
  bytes : Nat
  members : Nat

def LimitSubject.fail (error : LimitSubject) (message : String) : Thrown :=
  .cdb { code := error.code, message := error.subject ++ message, hint := some error.hint }

def LimitSubject.notCompatible (error : LimitSubject) : Thrown := error.fail " is not JSON-compatible"

/-! ## Counting -/

/-- The bytes of a character in a JSON string. -/
def charBytes (c : Char) : Nat :=
  let code := c.toNat
  if code = 34 ∨ code = 92 ∨ code = 8 ∨ code = 9 ∨ code = 10 ∨ code = 12 ∨ code = 13 then 2
  else if code ≤ 31 then 6
  else if code ≤ 127 then 1
  else if code ≤ 2047 then 2
  else if code < 0x10000 then 3
  else 4

/-- The bytes of a JSON string. -/
def stringBytes (s : String) : Nat := 2 + (s.toList.map charBytes).sum

/-- The bytes of the keys of an object, with their colons and the commas between the members. -/
def keyBytes (keys : List String) : Nat :=
  (keys.map fun key => stringBytes key + 1).sum + (keys.length - 1)

section
variable (maxBytes : Nat) (error : LimitSubject) (structureLimit : Option StructureLimit)

/-- `add`. -/
def countBytes (amount : Nat) : Tx Thrown JsonCounts Unit := do
  .modify fun counts => { counts with bytes := counts.bytes + amount }
  let bytes ← .gets JsonCounts.bytes
  .require (bytes ≤ maxBytes)
    (error.fail (" exceeds the " ++ toString maxBytes ++ "-byte serialized limit"))

def countMembers (amount : Nat) : Tx Thrown JsonCounts Unit := do
  .modify fun counts => { counts with members := counts.members + amount }
  let members ← .gets JsonCounts.members
  .require (∀ limit ∈ structureLimit, members ≤ limit.maxAggregateMembers)
    (error.fail (" exceeds the " ++
      toString ((structureLimit.map StructureLimit.maxAggregateMembers).getD 0) ++
      "-member aggregate limit"))

/-- An object at this depth is within the limit. -/
def requireDepth (depth : Nat) : Tx Thrown JsonCounts Unit :=
  .require (∀ limit ∈ structureLimit, depth ≤ limit.maxDepth)
    (error.fail (" exceeds the " ++
      toString ((structureLimit.map StructureLimit.maxDepth).getD 0) ++ "-level nesting limit"))

variable {ν : Type} [JsNumber ν]

mutual

/-- One value of the walk of `inspectCdbJsonByteLimit`. -/
def JsValue.inspect (depth : Nat) : JsValue ν → Tx Thrown JsonCounts (Json ν)
  | .null => do
    countBytes maxBytes error 4
    pure .null
  | .str s => do
    countBytes maxBytes error (stringBytes s)
    pure (.str s)
  | .num n => do
    .require (JsNumber.exact n = true) error.notCompatible
    countBytes maxBytes error (JsNumber.text n).length
    pure (.num n)
  | .bool b => do
    countBytes maxBytes error (if b then 4 else 5)
    pure (.bool b)
  | .other _ => .throw error.notCompatible
  | .active => do
    requireDepth error structureLimit (depth + 1)
    .throw error.notCompatible
  | .arr slots extraKeys symbolKeys => do
    requireDepth error structureLimit (depth + 1)
    .require (symbolKeys = false) error.notCompatible
    .require ((slots.filter Option.isSome).length + extraKeys = slots.length) error.notCompatible
    countMembers error structureLimit slots.length
    .require (∀ slot ∈ slots, slot.isSome) error.notCompatible
    countBytes maxBytes error (2 + (slots.length - 1))
    let elems ← JsValue.inspectSlots (depth + 1) slots
    pure (.arr elems)
  | .obj plain properties => do
    requireDepth error structureLimit (depth + 1)
    .require (plain = true) error.notCompatible
    countMembers error structureLimit properties.length
    .require (∀ property ∈ properties, property.1.isSome) error.notCompatible
    .require (∀ property ∈ properties, property.2.isSome) error.notCompatible
    countBytes maxBytes error (2 + keyBytes (properties.filterMap Prod.fst))
    let members ← JsValue.inspectProperties (depth + 1) properties
    pure (.obj members)

def JsValue.inspectSlots (depth : Nat) :
    List (Option (JsValue ν)) → Tx Thrown JsonCounts (List (Json ν))
  | [] => pure []
  | none :: _ => .throw error.notCompatible
  | some v :: slots => do
    let x ← v.inspect depth
    let xs ← JsValue.inspectSlots depth slots
    pure (x :: xs)

def JsValue.inspectProperties (depth : Nat) :
    List (Option String × Option (JsValue ν)) → Tx Thrown JsonCounts (List (String × Json ν))
  | [] => pure []
  | (none, _) :: _ => .throw error.notCompatible
  | (some _, none) :: _ => .throw error.notCompatible
  | (some key, some v) :: properties => do
    let x ← v.inspect depth
    let ms ← JsValue.inspectProperties depth properties
    pure ((key, x) :: ms)

end

/-- Check the JSON size and structure of a value and copy it. -/
def snapshotCdbJsonByteLimit (value : JsValue ν) : Except Thrown (Json ν) :=
  (value.inspect maxBytes error structureLimit 0 ⟨0, 0⟩).1

end

section
variable {ν : Type} [JsNumber ν]

def resultSubject (subject hint : String) : LimitSubject := ⟨.invariant, subject, hint⟩

def snapshotCdbResultByteLimit (result : JsValue ν) (subject hint : String) :
    Except Thrown (Json ν) :=
  snapshotCdbJsonByteLimit CDB_RESULT_MAX_BYTES (resultSubject subject hint) none result

def assertCdbResultByteLimit (result : JsValue ν) (subject hint : String) : Except Thrown Unit :=
  (snapshotCdbResultByteLimit result subject hint).map fun _ => ()

def mutationArgsSubject : LimitSubject where
  code := .invalidArgs
  subject := "mutation argument payload"
  hint := "Reduce mutation arguments to at most " ++ toString CDB_ARGUMENT_MAX_BYTES ++
    " serialized bytes."

def argumentStructure : StructureLimit where
  maxAggregateMembers := CDB_ARGUMENT_MAX_MEMBERS
  maxDepth := CDB_ARGUMENT_MAX_DEPTH

end

/-! ## What the limits let through -/

section
variable {ν : Type} [JsNumber ν] {maxBytes : Nat} {error : LimitSubject}
  {structureLimit : Option StructureLimit}

mutual

/-- The copy is the value as `rawJsonResult` reads it. -/
theorem JsValue.inspect_visit (subject : String) (code : CdbErrorCode) :
    ∀ (v : JsValue ν) (path : String) {depth : Nat} {c c' : JsonCounts} {j : Json ν},
      (v.inspect maxBytes error structureLimit depth).Returns c j c' →
        v.visit subject code path = .ok j
  | .null, _, _, _, _, _, h => by
    simp only [JsValue.inspect, Tx.bind_returns, Tx.pure_returns] at h
    obtain ⟨-, -, -, rfl, -⟩ := h
    rfl
  | .bool _, _, _, _, _, _, h => by
    simp only [JsValue.inspect, Tx.bind_returns, Tx.pure_returns] at h
    obtain ⟨-, -, -, rfl, -⟩ := h
    rfl
  | .str _, _, _, _, _, _, h => by
    simp only [JsValue.inspect, Tx.bind_returns, Tx.pure_returns] at h
    obtain ⟨-, -, -, rfl, -⟩ := h
    rfl
  | .num n, _, _, _, _, _, h => by
    simp only [JsValue.inspect, Tx.bind_returns, Tx.pure_returns, Tx.require_returns] at h
    obtain ⟨-, -, ⟨hn, -⟩, -, -, -, rfl, -⟩ := h
    rw [JsValue.visit, if_pos hn]
  | .other _, _, _, _, _, _, h => by simp [JsValue.inspect] at h
  | .active, _, _, _, _, _, h => by simp [JsValue.inspect] at h
  | .arr slots extraKeys symbolKeys, path, _, _, _, _, h => by
    simp only [JsValue.inspect, Tx.bind_returns, Tx.pure_returns, Tx.require_returns] at h
    obtain ⟨_, _, -, _, _, ⟨hsym, -⟩, _, _, ⟨hlen, -⟩, _, _, -, _, _, -, _, _, -, xs, _, hxs, rfl, -⟩ := h
    rw [JsValue.visit, if_neg (by simp [hsym]), if_neg (by simpa using hlen),
      JsValue.inspectSlots_visit subject code slots path 0 hxs]
  | .obj plain properties, path, _, _, _, _, h => by
    simp only [JsValue.inspect, Tx.bind_returns, Tx.pure_returns, Tx.require_returns] at h
    obtain ⟨_, _, -, _, _, ⟨hplain, -⟩, _, _, -, _, _, -, _, _, -, _, _, -, ms, _, hms, rfl, -⟩ := h
    rw [JsValue.visit, if_neg (by simp [hplain]),
      JsValue.inspectProperties_visit subject code properties path hms]

theorem JsValue.inspectSlots_visit (subject : String) (code : CdbErrorCode) :
    ∀ (slots : List (Option (JsValue ν))) (path : String) (index : Nat) {depth : Nat}
      {c c' : JsonCounts} {xs : List (Json ν)},
      (JsValue.inspectSlots maxBytes error structureLimit depth slots).Returns c xs c' →
        JsValue.visitSlots subject code path index slots = .ok xs
  | [], _, _, _, _, _, _, h => by
    simp only [JsValue.inspectSlots, Tx.pure_returns] at h
    obtain ⟨rfl, -⟩ := h
    rfl
  | none :: _, _, _, _, _, _, _, h => by simp [JsValue.inspectSlots] at h
  | some v :: slots, path, index, _, _, _, _, h => by
    simp only [JsValue.inspectSlots, Tx.bind_returns, Tx.pure_returns] at h
    obtain ⟨x, _, hx, xs, _, hxs, rfl, -⟩ := h
    rw [JsValue.visitSlots, JsValue.inspect_visit subject code v _ hx]
    simp only [JsValue.inspectSlots_visit subject code slots path (index + 1) hxs]

theorem JsValue.inspectProperties_visit (subject : String) (code : CdbErrorCode) :
    ∀ (properties : List (Option String × Option (JsValue ν))) (path : String) {depth : Nat}
      {c c' : JsonCounts} {ms : List (String × Json ν)},
      (JsValue.inspectProperties maxBytes error structureLimit depth properties).Returns c ms c' →
        JsValue.visitProperties subject code path properties = .ok ms
  | [], _, _, _, _, _, h => by
    simp only [JsValue.inspectProperties, Tx.pure_returns] at h
    obtain ⟨rfl, -⟩ := h
    rfl
  | (none, _) :: _, _, _, _, _, _, h => by simp [JsValue.inspectProperties] at h
  | (some _, none) :: _, _, _, _, _, _, h => by simp [JsValue.inspectProperties] at h
  | (some key, some v) :: properties, path, _, _, _, _, h => by
    simp only [JsValue.inspectProperties, Tx.bind_returns, Tx.pure_returns] at h
    obtain ⟨x, _, hx, ms, _, hms, rfl, -⟩ := h
    rw [JsValue.visitProperties, JsValue.inspect_visit subject code v _ hx]
    simp only [JsValue.inspectProperties_visit subject code properties path hms]

end

theorem snapshotCdbJsonByteLimit_visit (subject : String) (code : CdbErrorCode) {v : JsValue ν}
    {j : Json ν} (h : snapshotCdbJsonByteLimit maxBytes error structureLimit v = .ok j) :
    rawJsonResult subject code v = .ok j := by
  have hreturns : (v.inspect maxBytes error structureLimit 0).Returns ⟨0, 0⟩ j
      ((v.inspect maxBytes error structureLimit 0).after ⟨0, 0⟩) := Prod.ext h rfl
  exact JsValue.inspect_visit subject code v "$" hreturns

/-- A copy that was let through survives JSON text and is nested like the value. -/
theorem snapshotCdbJsonByteLimit_ok {v : JsValue ν} {j : Json ν} (hw : v.Wf)
    (h : snapshotCdbJsonByteLimit maxBytes error structureLimit v = .ok j) :
    j.Exact ∧ j.height = v.height := by
  have hvisit := snapshotCdbJsonByteLimit_visit error.subject error.code h
  exact ⟨rawJsonResult_exact hw hvisit,
    JsValue.visit_height error.subject error.code v "$" j hvisit⟩

end

end Chardb
