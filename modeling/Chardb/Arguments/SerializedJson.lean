import Chardb.Arguments.Counting
import Chardb.Core.ResultLimits

/-!
# The client's validator

`inspectSerializedJson` walks a value from the root down, counting bytes and members as it meets
them, and copies it. It returns exactly when the value fits.
-/

namespace Chardb.Arguments

open Chardb.Lib

variable {ι ν : Type}

/-! ## The walk -/

structure SerializedJsonLimits where
  memberLimit : Option Nat
  maxDepth : Option Nat
  errorCode : Option CdbErrorCode

section
variable (limit : Nat) (subject : String) (limits : SerializedJsonLimits)

def SerializedJsonLimits.error (message : String) : Thrown :=
  .cdb { code := limits.errorCode.getD .invariant, message := subject ++ message }

def invalidJson (reason : String) : Thrown :=
  limits.error subject (" is not JSON-compatible: " ++ reason)

def add (amount : Nat) : Tx Thrown (Inspection ι) Unit :=
  countBytes limit (limits.error subject (" exceeds the " ++ toString limit ++ "-byte client limit"))
    amount

def addMember : Tx Thrown (Inspection ι) Unit :=
  countMembers limits.memberLimit
    (limits.error subject
      (" exceeds the " ++ toString (limits.memberLimit.getD 0) ++ "-member client limit")) 1

/-- A container, or a member of one, at this depth. -/
def requireBelow (depth : Nat) : Tx Thrown (Inspection ι) Unit :=
  .require (∀ m ∈ limits.maxDepth, depth < m)
    (limits.error subject
      (" exceeds the " ++ toString (limits.maxDepth.getD 0) ++ "-level client depth limit"))

variable [DecidableEq ι]

def enter (ref : ι) : Tx Thrown (Inspection ι) Unit :=
  enterContainer (invalidJson subject limits "cyclic references are unsupported") ref

variable [JsNumber ν]

mutual

/-- `visit`. -/
def JsonTree.visit (depth : Nat) : JsonTree ι ν → Tx Thrown (Inspection ι) (JsonTree Unit ν)
  | .null => do
    add limit subject limits 4
    pure .null
  | .str s => do
    addString (add limit subject limits) s
    pure (.str s)
  | .num n => do
    .require (JsNumber.exact n = true)
      (invalidJson subject limits "numbers must be finite and must not be negative zero")
    add limit subject limits (JsNumber.text n).length
    pure (.num n)
  | .bool b => do
    add limit subject limits (if b then 4 else 5)
    pure (.bool b)
  | .arr ref elems => do
    requireBelow subject limits depth
    enter subject limits ref
    add limit subject limits 2
    let owned ← JsonTree.visitElems depth true elems
    leaveContainer ref
    pure (.arr () owned)
  | .obj ref members => do
    requireBelow subject limits depth
    enter subject limits ref
    add limit subject limits 2
    let owned ← JsonTree.visitMembers depth true [] members
    leaveContainer ref
    pure (.obj () owned)

/-- The entries of an array, each with `visitChild`. -/
def JsonTree.visitElems (depth : Nat) (first : Bool) :
    List (JsonTree ι ν) → Tx Thrown (Inspection ι) (List (JsonTree Unit ν))
  | [] => pure []
  | x :: xs => do
    separate (add limit subject limits) first
    addMember subject limits
    requireBelow subject limits depth
    let child ← x.visit (depth + 1)
    let owned ← JsonTree.visitElems depth false xs
    pure (child :: owned)

/-- The properties of an object, each with `visitChild`. -/
def JsonTree.visitMembers (depth : Nat) (first : Bool)
    (owned : List (JsString × JsonTree Unit ν)) :
    List (JsString × JsonTree ι ν) → Tx Thrown (Inspection ι) (List (JsString × JsonTree Unit ν))
  | [] => pure owned
  | (key, x) :: ms => do
    separate (add limit subject limits) first
    addString (add limit subject limits) key
    add limit subject limits 1
    addMember subject limits
    requireBelow subject limits depth
    let child ← x.visit (depth + 1)
    JsonTree.visitMembers depth false (defineProperty key child owned) ms

end

/-- `inspectSerializedJson` with a copy: the bytes and the copy. -/
def inspectSerializedJson (value : JsonTree ι ν) : Except Thrown (Nat × JsonTree Unit ν) :=
  match value.visit limit subject limits 0 .start with
  | (.ok owned, s) => .ok (s.bytes, owned)
  | (.error e, _) => .error e

end

def argumentLimits : SerializedJsonLimits where
  memberLimit := some CDB_ARGUMENT_MAX_MEMBERS
  maxDepth := some CDB_ARGUMENT_MAX_DEPTH
  errorCode := some .invalidArgs

section
variable [DecidableEq ι] [JsNumber ν]

def snapshotMutationArguments (args : JsonTree ι ν) : Except Thrown (JsonTree Unit ν) := do
  let inspected ← inspectSerializedJson CDB_ARGUMENT_MAX_BYTES "mutation arguments" argumentLimits args
  pure inspected.2

def snapshotSubscriptionArguments (args : JsonTree ι ν) : Except Thrown (JsonTree Unit ν) := do
  let inspected ←
    inspectSerializedJson CDB_ARGUMENT_MAX_BYTES "subscription arguments" argumentLimits args
  pure inspected.2

end

/-! ## What the walk accepts -/

section
variable {limit : Nat} {subject : String} {limits : SerializedJsonLimits} [DecidableEq ι]

/-- A container is counted with its members, and left as it was entered. -/
theorem counts_container {α : Type} {s : Inspection ι} {ref : ι} {depth n k : Nat} {fits : Prop}
    {walk : Tx Thrown (Inspection ι) α} {build : α → JsonTree Unit ν} {a : α}
    (hwalk : ∀ t : Inspection ι, t.ancestors = ref :: s.ancestors →
      t.Within limit limits.memberLimit → (∀ m ∈ limits.maxDepth, depth < m) →
        Counts limit limits.memberLimit walk t fits n k a)
    (hs : s.Within limit limits.memberLimit) :
    Counts limit limits.memberLimit (do
      requireBelow subject limits depth
      enter subject limits ref
      add limit subject limits 2
      let owned ← walk
      leaveContainer ref
      pure (build owned)) s
      ((∀ m ∈ limits.maxDepth, depth < m) ∧ ref ∉ s.ancestors ∧ fits) (2 + n) k (build a) := by
  intro y s'
  have herase : (ref :: s.ancestors).erase ref = s.ancestors := List.erase_cons_head ..
  simp only [Tx.bind_returns, requireBelow, Tx.require_returns, enter, enterContainer_returns, add,
    countBytes_returns, leaveContainer, Tx.modify_returns, Tx.pure_returns]
  have hinside := hwalk ⟨s.bytes + 2, s.members, ref :: s.ancestors⟩ rfl
  constructor
  · rintro ⟨_, _, ⟨hdepth, rfl⟩, _, _, ⟨hnew, rfl⟩, _, _, ⟨hle, rfl⟩, b, _, hrun, _, _, rfl, rfl, rfl⟩
    obtain ⟨⟨hfits, hbytes, hmembers⟩, rfl, rfl⟩ := (hinside ⟨hle, hs.2⟩ hdepth _ _).mp hrun
    have hbytes : s.bytes + 2 + n ≤ limit := hbytes
    refine ⟨⟨⟨hdepth, hnew, hfits⟩, by omega, hmembers⟩, rfl, ?_⟩
    simp only [Inspection.plus, herase, Nat.add_assoc]
  · rintro ⟨⟨⟨hdepth, hnew, hfits⟩, hbytes, hmembers⟩, rfl, rfl⟩
    have hle : s.bytes + 2 ≤ limit := by omega
    have hbytes' : s.bytes + 2 + n ≤ limit := by omega
    refine ⟨(), _, ⟨hdepth, rfl⟩, (), _, ⟨hnew, rfl⟩, (), _, ⟨hle, rfl⟩, a, _,
      (hinside ⟨hle, hs.2⟩ hdepth _ _).mpr ⟨⟨hfits, hbytes', hmembers⟩, rfl, rfl⟩, (), _, rfl, rfl, ?_⟩
    simp only [Inspection.plus, herase, Nat.add_assoc]

variable [JsNumber ν]

mutual

/-- The walk returns exactly when the value fits, with its copy and its counts. -/
theorem JsonTree.counts_visit : ∀ (v : JsonTree ι ν) (depth : Nat) (s : Inspection ι),
    s.Within limit limits.memberLimit →
    Counts limit limits.memberLimit (v.visit limit subject limits depth) s
      (v.Fits limits.maxDepth s.ancestors depth) v.byteCount v.memberCount v.copy
  | .null, _, _, hs => (counts_bytes hs).map _
  | .bool _, _, _, hs => (counts_bytes hs).map _
  | .str _, _, _, hs => (counts_addString hs).map _
  | .num n, _, _, hs =>
    ((counts_require hs).bind fun hs => (counts_bytes hs).map _).congr (Iff.of_eq (and_true _))
      (Nat.zero_add _) rfl
  | .arr ref elems, depth, s, hs => by
    rw [JsonTree.visit]
    refine counts_container (fun t ht hwithin hdepth => ?_) hs
    rw [← ht]
    exact JsonTree.counts_visitElems elems true depth t hdepth hwithin
  | .obj ref members, depth, s, hs => by
    rw [JsonTree.visit]
    refine counts_container (fun t ht hwithin hdepth => ?_) hs
    rw [← ht]
    exact JsonTree.counts_visitMembers members true [] depth t hdepth hwithin

theorem JsonTree.counts_visitElems : ∀ (xs : List (JsonTree ι ν)) (first : Bool) (depth : Nat)
    (s : Inspection ι), (∀ m ∈ limits.maxDepth, depth < m) → s.Within limit limits.memberLimit →
    Counts limit limits.memberLimit (JsonTree.visitElems limit subject limits depth first xs) s
      (JsonTree.ElemsFit limits.maxDepth s.ancestors (depth + 1) xs)
      (JsonTree.elemsBytes first xs) (JsonTree.elemsCount xs) (JsonTree.copyElems xs)
  | [], _, _, _, _, hs => counts_pure hs
  | x :: xs, first, depth, s, hdepth, hs => by
    rw [JsonTree.visitElems]
    refine ((counts_separate hs).bind fun hs => (counts_members hs).bind fun hs =>
      (counts_require hs).bind fun hs => (x.counts_visit (depth + 1) _ hs).bind fun hs =>
        (JsonTree.counts_visitElems xs false depth _ hdepth hs).map _).congr ?_ ?_ ?_
    · rw [JsonTree.ElemsFit]
      exact ⟨fun ⟨_, _, _, hx, hxs⟩ => ⟨hx, hxs⟩,
        fun ⟨hx, hxs⟩ => ⟨trivial, trivial, hdepth, hx, hxs⟩⟩
    · rw [JsonTree.elemsBytes]
      omega
    · rw [JsonTree.elemsCount]
      omega

theorem JsonTree.counts_visitMembers : ∀ (ms : List (JsString × JsonTree ι ν)) (first : Bool)
    (owned : List (JsString × JsonTree Unit ν)) (depth : Nat) (s : Inspection ι),
    (∀ m ∈ limits.maxDepth, depth < m) → s.Within limit limits.memberLimit →
    Counts limit limits.memberLimit (JsonTree.visitMembers limit subject limits depth first owned ms) s
      (JsonTree.MembersFit limits.maxDepth s.ancestors (depth + 1) ms)
      (JsonTree.membersBytes first ms) (JsonTree.membersCount ms) (JsonTree.copyMembers owned ms)
  | [], _, _, _, _, _, hs => counts_pure hs
  | (key, x) :: ms, first, owned, depth, s, hdepth, hs => by
    rw [JsonTree.visitMembers]
    refine ((counts_separate hs).bind fun hs => (counts_addString hs).bind fun hs =>
      (counts_bytes hs).bind fun hs => (counts_members hs).bind fun hs =>
        (counts_require hs).bind fun hs => (x.counts_visit (depth + 1) _ hs).bind fun hs =>
          JsonTree.counts_visitMembers ms false _ depth _ hdepth hs).congr ?_ ?_ ?_
    · rw [JsonTree.MembersFit]
      exact ⟨fun ⟨_, _, _, _, _, hx, hms⟩ => ⟨hx, hms⟩,
        fun ⟨hx, hms⟩ => ⟨trivial, trivial, trivial, trivial, hdepth, hx, hms⟩⟩
    · rw [JsonTree.membersBytes]
      omega
    · rw [JsonTree.membersCount]
      omega

end

theorem inspectSerializedJson_ok {v : JsonTree ι ν} {r : Nat × JsonTree Unit ν} :
    inspectSerializedJson limit subject limits v = .ok r ↔
      Accepts limit limits.memberLimit limits.maxDepth v ∧ r = (v.byteCount, v.copy) := by
  have hvisit : Counts limit limits.memberLimit (v.visit limit subject limits 0) _ _ _ _ _ :=
    JsonTree.counts_visit v 0 .start (within_start limits.memberLimit)
  unfold inspectSerializedJson
  constructor
  · intro h
    split at h
    · obtain ⟨hadmits, rfl, rfl⟩ := (hvisit _ _).mp ‹_›
      cases h
      exact ⟨admits_start.mp hadmits, by rw [Inspection.plus, Inspection.start, Nat.zero_add]⟩
    · cases h
  · rintro ⟨haccepts, rfl⟩
    have hrun := (hvisit _ _).mpr ⟨admits_start.mpr haccepts, rfl, rfl⟩
    unfold Tx.Returns at hrun
    rw [hrun]
    simp [Inspection.plus, Inspection.start]

end

end Chardb.Arguments
