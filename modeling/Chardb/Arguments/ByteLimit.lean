import Chardb.Arguments.Counting
import Chardb.Core.ResultLimits

/-!
# The server's validator

`inspectCdbJsonByteLimit` keeps a stack of values to visit and containers to leave. A container
counts all its members, and the bytes between them, before it puts them on the stack; a copy is put
into its container by the path of slots that leads there.
-/

namespace Chardb.Arguments

open Chardb.Lib

variable {ι ν : Type}

/-! ## Where a copy is put -/

/-- An index of an owned array, or a key of an owned object. -/
inductive Slot
  | index (i : Nat)
  | key (key : JsString)

/-- `owned[index] = child`. -/
def setIndex (elems : List (JsonTree Unit ν)) (i : Nat) (x : JsonTree Unit ν) :
    List (JsonTree Unit ν) :=
  if i < elems.length then elems.set i x
  else elems ++ List.replicate (i - elems.length) .null ++ [x]

def propertyValue (key : JsString) : List (JsString × JsonTree Unit ν) → JsonTree Unit ν
  | [] => .null
  | (k, x) :: ms => if k = key then x else propertyValue key ms

/-- `assign`, by the path from the owned root to the slot. -/
def JsonTree.assign (x : JsonTree Unit ν) : List Slot → JsonTree Unit ν → JsonTree Unit ν
  | [], _ => x
  | .index i :: path, .arr ref elems =>
    .arr ref (setIndex elems i (JsonTree.assign x path (elems.getD i .null)))
  | .key key :: path, .obj ref members =>
    .obj ref (defineProperty key (JsonTree.assign x path (propertyValue key members)) members)
  | _ :: _, owned => owned

def assignRoot (x : JsonTree Unit ν) (path : List Slot) (ownedRoot : Option (JsonTree Unit ν)) :
    Option (JsonTree Unit ν) :=
  some (JsonTree.assign x path (ownedRoot.getD .null))

/-! ## The stack -/

inductive Frame (ι ν : Type)
  | value (value : JsonTree ι ν) (depth : Nat) (path : List Slot)
  | exit (ref : ι)

def elemFrames (depth : Nat) (path : List Slot) : Nat → List (JsonTree ι ν) → List (Frame ι ν)
  | _, [] => []
  | i, x :: xs => .value x depth (path ++ [.index i]) :: elemFrames depth path (i + 1) xs

def memberFrames (depth : Nat) (path : List Slot) :
    List (JsString × JsonTree ι ν) → List (Frame ι ν)
  | [] => []
  | (key, x) :: ms => .value x depth (path ++ [.key key]) :: memberFrames depth path ms

/-- What a frame puts on the stack, the first to visit on top. -/
def Frame.pushed : Frame ι ν → List (Frame ι ν)
  | .value (.arr ref elems) depth path => elemFrames (depth + 1) path 0 elems ++ [.exit ref]
  | .value (.obj ref members) depth path => memberFrames (depth + 1) path members ++ [.exit ref]
  | .value _ _ _ | .exit _ => []

/-- What a frame assigns: a leaf, or an empty container that its members fill. -/
def Frame.assigned : Frame ι ν → Option (JsonTree Unit ν) → Option (JsonTree Unit ν)
  | .value .null _ path => assignRoot .null path
  | .value (.bool b) _ path => assignRoot (.bool b) path
  | .value (.num n) _ path => assignRoot (.num n) path
  | .value (.str s) _ path => assignRoot (.str s) path
  | .value (.arr _ _) _ path => assignRoot (.arr () []) path
  | .value (.obj _ _) _ path => assignRoot (.obj () []) path
  | .exit _ => id

section
variable (maxBytes : Nat) (error : LimitSubject) (structureLimit : Option StructureLimit)

/-- `add`. -/
def addCdbBytes (amount : Nat) : Tx Thrown (Inspection ι) Unit :=
  countBytes maxBytes (error.fail (" exceeds the " ++ toString maxBytes ++ "-byte serialized limit"))
    amount

def addCdbMembers (amount : Nat) : Tx Thrown (Inspection ι) Unit :=
  countMembers (structureLimit.map StructureLimit.maxAggregateMembers)
    (error.fail (" exceeds the " ++
      toString ((structureLimit.map StructureLimit.maxAggregateMembers).getD 0) ++
      "-member aggregate limit")) amount

def requireCdbDepth (depth : Nat) : Tx Thrown (Inspection ι) Unit :=
  .require (∀ m ∈ structureLimit.map StructureLimit.maxDepth, depth ≤ m)
    (error.fail (" exceeds the " ++
      toString ((structureLimit.map StructureLimit.maxDepth).getD 0) ++ "-level nesting limit"))

/-- The keys of an object with their colons, and the commas between the members. -/
def addKeys (first : Bool) : List JsString → Tx Thrown (Inspection ι) Unit
  | [] => pure ()
  | key :: keys => do
    separate (addCdbBytes maxBytes error) first
    addString (addCdbBytes maxBytes error) key
    addCdbBytes maxBytes error 1
    addKeys false keys

variable [DecidableEq ι] [JsNumber ν]

/-- What a frame checks and counts. -/
def Frame.check : Frame ι ν → Tx Thrown (Inspection ι) Unit
  | .exit ref => leaveContainer ref
  | .value .null _ _ => addCdbBytes maxBytes error 4
  | .value (.str s) _ _ => addString (addCdbBytes maxBytes error) s
  | .value (.num n) _ _ => do
    .require (JsNumber.exact n = true) error.notCompatible
    addCdbBytes maxBytes error (JsNumber.text n).length
  | .value (.bool b) _ _ => addCdbBytes maxBytes error (if b then 4 else 5)
  | .value (.arr ref elems) depth _ => do
    requireCdbDepth error structureLimit (depth + 1)
    enterContainer error.notCompatible ref
    addCdbMembers error structureLimit elems.length
    addCdbBytes maxBytes error (2 + (elems.length - 1))
  | .value (.obj ref members) depth _ => do
    requireCdbDepth error structureLimit (depth + 1)
    enterContainer error.notCompatible ref
    addCdbMembers error structureLimit members.length
    addCdbBytes maxBytes error 2
    addKeys maxBytes error true (members.map Prod.fst)

end

mutual

/-- The frames that a value takes. -/
def JsonTree.frameCount : JsonTree ι ν → Nat
  | .arr _ elems => 2 + JsonTree.elemsFrames elems
  | .obj _ members => 2 + JsonTree.membersFrames members
  | _ => 1

def JsonTree.elemsFrames : List (JsonTree ι ν) → Nat
  | [] => 0
  | x :: xs => x.frameCount + JsonTree.elemsFrames xs

def JsonTree.membersFrames : List (JsString × JsonTree ι ν) → Nat
  | [] => 0
  | (_, x) :: ms => x.frameCount + JsonTree.membersFrames ms

end

def Frame.size : Frame ι ν → Nat
  | .value v _ _ => v.frameCount
  | .exit _ => 1

def stackSize : List (Frame ι ν) → Nat
  | [] => 0
  | frame :: stack => frame.size + stackSize stack

theorem stackSize_append (as bs : List (Frame ι ν)) :
    stackSize (as ++ bs) = stackSize as + stackSize bs := by
  induction as with
  | nil => simp [stackSize]
  | cons a as ih => rw [List.cons_append, stackSize, stackSize, ih, Nat.add_assoc]

theorem stackSize_elemFrames (depth : Nat) (path : List Slot) (i : Nat) (xs : List (JsonTree ι ν)) :
    stackSize (elemFrames depth path i xs) = JsonTree.elemsFrames xs := by
  induction xs generalizing i with
  | nil => rfl
  | cons x xs ih => rw [elemFrames, stackSize, JsonTree.elemsFrames, ih, Frame.size]

theorem stackSize_memberFrames (depth : Nat) (path : List Slot)
    (ms : List (JsString × JsonTree ι ν)) :
    stackSize (memberFrames depth path ms) = JsonTree.membersFrames ms := by
  induction ms with
  | nil => rfl
  | cons m ms ih => rw [memberFrames, stackSize, JsonTree.membersFrames, ih, Frame.size]

/-- A frame puts less on the stack than it takes off. -/
theorem stackSize_pushed (frame : Frame ι ν) : stackSize frame.pushed < frame.size := by
  cases frame with
  | exit ref => exact Nat.zero_lt_one
  | value v depth path =>
    cases v with
    | arr ref elems =>
      rw [Frame.pushed, stackSize_append, stackSize_elemFrames, Frame.size, JsonTree.frameCount]
      simp only [stackSize, Frame.size]
      omega
    | obj ref members =>
      rw [Frame.pushed, stackSize_append, stackSize_memberFrames, Frame.size, JsonTree.frameCount]
      simp only [stackSize, Frame.size]
      omega
    | null => exact Nat.zero_lt_one
    | bool b => exact Nat.zero_lt_one
    | num n => exact Nat.zero_lt_one
    | str s => exact Nat.zero_lt_one

section
variable (maxBytes : Nat) (error : LimitSubject) (structureLimit : Option StructureLimit)
  [DecidableEq ι] [JsNumber ν]

/-- `while (stack.length > 0)`: a frame is checked, and its copy assigned, before what it pushes. -/
def inspectLoop (stack : List (Frame ι ν)) (ownedRoot : Option (JsonTree Unit ν)) :
    Tx Thrown (Inspection ι) (Option (JsonTree Unit ν)) :=
  match stack with
  | [] => pure ownedRoot
  | frame :: stack =>
    frame.check maxBytes error structureLimit >>= fun _ =>
      inspectLoop (frame.pushed ++ stack) (frame.assigned ownedRoot)
  termination_by stackSize stack
  decreasing_by
    have := stackSize_pushed frame
    rw [stackSize_append, stackSize]
    omega

/-- `inspectCdbJsonByteLimit` with a copy: the bytes counted and the copy. -/
def inspectCdbJsonByteLimit (value : JsonTree ι ν) :
    Except Thrown (Nat × Option (JsonTree Unit ν)) :=
  match inspectLoop maxBytes error structureLimit [.value value 0 []] none .start with
  | (.ok ownedRoot, s) => .ok (s.bytes, ownedRoot)
  | (.error e, _) => .error e

end

/-! ## Arguments -/

def queryArgumentSubject : LimitSubject where
  code := .invalidArgs
  subject := "query argument payload"
  hint := "Reduce query arguments to at most " ++ toString CDB_ARGUMENT_MAX_BYTES ++
    " serialized bytes."

section
variable [DecidableEq ι] [JsNumber ν]

def snapshotCdbMutationArgs (args : JsonTree ι ν) : Except Thrown (Option (JsonTree Unit ν)) := do
  let inspected ← inspectCdbJsonByteLimit CDB_ARGUMENT_MAX_BYTES mutationArgsSubject
    (some argumentStructure) args
  pure inspected.2

def snapshotCdbQueryArgs (args : JsonTree ι ν) : Except Thrown (Option (JsonTree Unit ν)) := do
  let inspected ← inspectCdbJsonByteLimit CDB_ARGUMENT_MAX_BYTES queryArgumentSubject
    (some argumentStructure) args
  pure inspected.2

end

/-! ## Assigning along a path -/

/-- The elements and the holes before position `i`. -/
theorem padded_length {elems : List (JsonTree Unit ν)} {i : Nat} (hi : ¬ i < elems.length) :
    (elems ++ List.replicate (i - elems.length) (.null : JsonTree Unit ν)).length = i := by
  rw [List.length_append, List.length_replicate]
  omega

theorem getD_setIndex (elems : List (JsonTree Unit ν)) (i : Nat) (x : JsonTree Unit ν) :
    (setIndex elems i x).getD i .null = x := by
  unfold setIndex
  split
  · rw [List.getD_eq_getElem?_getD, List.getElem?_set_self ‹_›, Option.getD_some]
  · have hlength := padded_length ‹¬ i < elems.length›
    rw [List.getD_eq_getElem?_getD, List.getElem?_append_right (by omega), hlength, Nat.sub_self]
    rfl

theorem setIndex_setIndex (elems : List (JsonTree Unit ν)) (i : Nat) (x y : JsonTree Unit ν) :
    setIndex (setIndex elems i x) i y = setIndex elems i y := by
  by_cases hi : i < elems.length
  · rw [setIndex, setIndex, setIndex, if_pos hi, if_pos hi, if_pos (by rwa [List.length_set]),
      List.set_set]
  · have hlength := padded_length hi
    have hlt : i <
        (elems ++ List.replicate (i - elems.length) (.null : JsonTree Unit ν) ++ [x]).length := by
      rw [List.length_append, hlength]
      exact Nat.lt_succ_self i
    rw [setIndex, setIndex, setIndex, if_neg hi, if_neg hi, if_pos hlt,
      List.set_append_right _ _ (by omega), hlength, Nat.sub_self]
    rfl

theorem setIndex_length (elems : List (JsonTree Unit ν)) (x : JsonTree Unit ν) :
    setIndex elems elems.length x = elems ++ [x] := by
  rw [setIndex, if_neg (Nat.lt_irrefl _), Nat.sub_self]
  simp

theorem propertyValue_defineProperty (key : JsString) (x : JsonTree Unit ν)
    (members : List (JsString × JsonTree Unit ν)) :
    propertyValue key (defineProperty key x members) = x := by
  induction members with
  | nil => exact if_pos rfl
  | cons m ms ih =>
    rw [defineProperty]
    split
    · exact if_pos rfl
    · rw [propertyValue, if_neg ‹_›, ih]

theorem defineProperty_defineProperty (key : JsString) (x y : JsonTree Unit ν)
    (members : List (JsString × JsonTree Unit ν)) :
    defineProperty key y (defineProperty key x members) = defineProperty key y members := by
  induction members with
  | nil => exact if_pos rfl
  | cons m ms ih =>
    rw [defineProperty, defineProperty]
    split
    · exact if_pos rfl
    · rw [defineProperty, if_neg ‹_›, ih]

/-- Assigning into what was assigned is assigning what it then becomes. -/
theorem JsonTree.assign_assign (x y : JsonTree Unit ν) (path : List Slot) (slot : Slot)
    (owned : JsonTree Unit ν) :
    JsonTree.assign y (path ++ [slot]) (JsonTree.assign x path owned) =
      JsonTree.assign (JsonTree.assign y [slot] x) path owned := by
  induction path generalizing owned with
  | nil => rfl
  | cons first path ih =>
    cases first with
    | index i =>
      cases owned with
      | arr ref elems =>
        rw [List.cons_append, JsonTree.assign, JsonTree.assign, JsonTree.assign, getD_setIndex, ih,
          setIndex_setIndex]
      | _ => rfl
    | key key =>
      cases owned with
      | obj ref members =>
        rw [List.cons_append, JsonTree.assign, JsonTree.assign, JsonTree.assign,
          propertyValue_defineProperty, ih, defineProperty_defineProperty]
      | _ => rfl

/-- The next element of an owned array. -/
theorem assign_elem (done : List (JsonTree Unit ν)) (x : JsonTree Unit ν) (path : List Slot)
    (owned : Option (JsonTree Unit ν)) :
    assignRoot x (path ++ [.index done.length]) (assignRoot (.arr () done) path owned) =
      assignRoot (.arr () (done ++ [x])) path owned := by
  unfold assignRoot
  rw [Option.getD_some, JsonTree.assign_assign, JsonTree.assign, setIndex_length, JsonTree.assign]

theorem assign_member (done : List (JsString × JsonTree Unit ν)) (key : JsString)
    (x : JsonTree Unit ν) (path : List Slot) (owned : Option (JsonTree Unit ν)) :
    assignRoot x (path ++ [.key key]) (assignRoot (.obj () done) path owned) =
      assignRoot (.obj () (defineProperty key x done)) path owned := by
  unfold assignRoot
  rw [Option.getD_some, JsonTree.assign_assign, JsonTree.assign, JsonTree.assign]

/-! ## What a container counts at once -/

section
variable [JsNumber ν]

/-- The bytes of the elements, without the commas. -/
def JsonTree.elemsOwnBytes : List (JsonTree ι ν) → Nat
  | [] => 0
  | x :: xs => x.byteCount + JsonTree.elemsOwnBytes xs

def JsonTree.membersOwnBytes : List (JsString × JsonTree ι ν) → Nat
  | [] => 0
  | (_, x) :: ms => x.byteCount + JsonTree.membersOwnBytes ms

def keysBytes (first : Bool) : List JsString → Nat
  | [] => 0
  | key :: keys => (if first then 0 else 1) + (2 + unitsBytes key) + 1 + keysBytes false keys

theorem elemsBytes_eq (first : Bool) (xs : List (JsonTree ι ν)) :
    JsonTree.elemsBytes first xs =
      (if first then xs.length - 1 else xs.length) + JsonTree.elemsOwnBytes xs := by
  induction xs generalizing first with
  | nil => cases first <;> rfl
  | cons x xs ih =>
    rw [JsonTree.elemsBytes, JsonTree.elemsOwnBytes, ih false, List.length_cons]
    cases first with
    | true => simp only [if_true, Bool.false_eq_true, if_false]; omega
    | false => simp only [Bool.false_eq_true, if_false]; omega

theorem membersBytes_eq (first : Bool) (ms : List (JsString × JsonTree ι ν)) :
    JsonTree.membersBytes first ms =
      keysBytes first (ms.map Prod.fst) + JsonTree.membersOwnBytes ms := by
  induction ms generalizing first with
  | nil => rfl
  | cons m ms ih =>
    rw [JsonTree.membersBytes, JsonTree.membersOwnBytes, ih false, List.map_cons, keysBytes]
    omega

end

def JsonTree.elemsOwnCount : List (JsonTree ι ν) → Nat
  | [] => 0
  | x :: xs => x.memberCount + JsonTree.elemsOwnCount xs

def JsonTree.membersOwnCount : List (JsString × JsonTree ι ν) → Nat
  | [] => 0
  | (_, x) :: ms => x.memberCount + JsonTree.membersOwnCount ms

theorem elemsCount_eq (xs : List (JsonTree ι ν)) :
    JsonTree.elemsCount xs = xs.length + JsonTree.elemsOwnCount xs := by
  induction xs with
  | nil => rfl
  | cons x xs ih =>
    rw [JsonTree.elemsCount, JsonTree.elemsOwnCount, ih, List.length_cons]
    omega

theorem membersCount_eq (ms : List (JsString × JsonTree ι ν)) :
    JsonTree.membersCount ms = ms.length + JsonTree.membersOwnCount ms := by
  induction ms with
  | nil => rfl
  | cons m ms ih =>
    rw [JsonTree.membersCount, JsonTree.membersOwnCount, ih, List.length_cons]
    omega

/-! ## What the loop accepts -/

section
variable {maxBytes : Nat} {error : LimitSubject} {structureLimit : Option StructureLimit}
  {memberLimit : Option Nat}

theorem counts_addKeys (keys : List JsString) (first : Bool) {s : Inspection ι}
    (hs : s.Within maxBytes memberLimit) :
    Counts maxBytes memberLimit (addKeys maxBytes error first keys) s True (keysBytes first keys) 0
      () := by
  induction keys generalizing first s with
  | nil => exact counts_pure hs
  | cons key keys ih =>
    refine ((counts_separate hs).bind fun hs => (counts_addString hs).bind fun hs =>
      (counts_bytes hs).bind fun hs => ih false hs).congr ?_ ?_ rfl
    · simp only [and_self]
    · rw [keysBytes]
      omega

theorem counts_arr (elems : List (JsonTree ι ν)) {s : Inspection ι}
    (hs : s.Within maxBytes (structureLimit.map StructureLimit.maxAggregateMembers)) :
    Counts maxBytes (structureLimit.map StructureLimit.maxAggregateMembers)
      (addCdbMembers error structureLimit elems.length >>= fun _ =>
        addCdbBytes maxBytes error (2 + (elems.length - 1))) s True (2 + (elems.length - 1))
      elems.length () :=
  ((counts_members hs).bind fun hs => counts_bytes hs).congr (Iff.of_eq (and_self _))
    (Nat.zero_add _) (Nat.add_zero _)

theorem counts_obj (members : List (JsString × JsonTree ι ν)) {s : Inspection ι}
    (hs : s.Within maxBytes (structureLimit.map StructureLimit.maxAggregateMembers)) :
    Counts maxBytes (structureLimit.map StructureLimit.maxAggregateMembers)
      (addCdbMembers error structureLimit members.length >>= fun _ =>
        addCdbBytes maxBytes error 2 >>= fun _ =>
          addKeys maxBytes error true (members.map Prod.fst)) s True
      (2 + keysBytes true (members.map Prod.fst)) members.length () :=
  ((counts_members hs).bind fun hs => (counts_bytes hs).bind fun hs => counts_addKeys _ true hs).congr
    (by simp only [and_self]) (Nat.zero_add _) (by simp only [Nat.add_zero])

variable [DecidableEq ι] [JsNumber ν]

theorem inspectLoop_cons {frame : Frame ι ν} {stack : List (Frame ι ν)}
    {root r : Option (JsonTree Unit ν)} {s s' : Inspection ι} :
    (inspectLoop maxBytes error structureLimit (frame :: stack) root).Returns s r s' ↔
      ∃ u t, (frame.check maxBytes error structureLimit).Returns s u t ∧
        (inspectLoop maxBytes error structureLimit (frame.pushed ++ stack)
          (frame.assigned root)).Returns t r s' := by
  rw [inspectLoop, Tx.bind_returns]

/-- From `s`, the frames of some values pass when the values fit, count their bytes and members, and
change the root. -/
def Passes (maxBytes : Nat) (error : LimitSubject) (structureLimit : Option StructureLimit)
    (frames : List (Frame ι ν)) (root : Option (JsonTree Unit ν)) (s : Inspection ι) (fits : Prop)
    (bytes members : Nat) (root' : Option (JsonTree Unit ν)) : Prop :=
  ∀ stack r s', (inspectLoop maxBytes error structureLimit (frames ++ stack) root).Returns s r s' ↔
    Admits maxBytes (structureLimit.map StructureLimit.maxAggregateMembers) s fits bytes members ∧
      (inspectLoop maxBytes error structureLimit stack root').Returns (s.plus bytes members) r s'

theorem Passes.congr {frames : List (Frame ι ν)} {root root' : Option (JsonTree Unit ν)}
    {s : Inspection ι} {P Q : Prop} {n n' k k' : Nat}
    (h : Passes maxBytes error structureLimit frames root s P n k root') (hP : P ↔ Q) (hn : n = n')
    (hk : k = k') : Passes maxBytes error structureLimit frames root s Q n' k' root' := by
  subst hn hk
  rw [← propext hP]
  exact h

theorem passes_nil {root : Option (JsonTree Unit ν)} {s : Inspection ι}
    (hs : s.Within maxBytes (structureLimit.map StructureLimit.maxAggregateMembers)) :
    Passes maxBytes error structureLimit ([] : List (Frame ι ν)) root s True 0 0 root :=
  fun _ _ _ => ⟨fun h => ⟨⟨trivial, hs⟩, h⟩, fun h => h.2⟩

/-- Some frames after others. -/
theorem Passes.append {frames frames' : List (Frame ι ν)} {root root₁ root₂ : Option (JsonTree Unit ν)}
    {s : Inspection ι} {P Q : Prop} {n n' k k' : Nat}
    (h : Passes maxBytes error structureLimit frames root s P n k root₁)
    (h' : (s.plus n k).Within maxBytes (structureLimit.map StructureLimit.maxAggregateMembers) →
      Passes maxBytes error structureLimit frames' root₁ (s.plus n k) Q n' k' root₂) :
    Passes maxBytes error structureLimit (frames ++ frames') root s (P ∧ Q) (n + n') (k + k')
      root₂ := by
  intro stack r s'
  rw [List.append_assoc, h (frames' ++ stack) r s']
  constructor
  · rintro ⟨hfirst, hrun⟩
    obtain ⟨hsecond, hrun⟩ := (h' hfirst.2 stack r s').mp hrun
    rw [plus_plus] at hrun
    exact ⟨admits_plus_iff.mp ⟨hfirst, hsecond⟩, hrun⟩
  · rintro ⟨hboth, hrun⟩
    obtain ⟨hfirst, hsecond⟩ := admits_plus_iff.mpr hboth
    refine ⟨hfirst, (h' hfirst.2 stack r s').mpr ⟨hsecond, ?_⟩⟩
    rw [plus_plus]
    exact hrun

/-- A frame that counts and puts nothing on the stack. -/
theorem passes_leaf {frame : Frame ι ν} {root : Option (JsonTree Unit ν)} {s : Inspection ι}
    {P : Prop} {n k : Nat} (hpushed : frame.pushed = [])
    (hcheck : Counts maxBytes (structureLimit.map StructureLimit.maxAggregateMembers)
      (frame.check maxBytes error structureLimit) s P n k ()) :
    Passes maxBytes error structureLimit [frame] root s P n k (frame.assigned root) := by
  intro stack r s'
  rw [List.singleton_append, inspectLoop_cons, hpushed, List.nil_append]
  constructor
  · rintro ⟨u, t, hrun, hrest⟩
    obtain ⟨hadmits, -, rfl⟩ := (hcheck u t).mp hrun
    exact ⟨hadmits, hrest⟩
  · rintro ⟨hadmits, hrest⟩
    exact ⟨(), _, (hcheck _ _).mpr ⟨hadmits, rfl, rfl⟩, hrest⟩

/-- A container passes when it may be entered and its members pass inside; leaving it undoes what
entering it did. -/
theorem passes_container {v : JsonTree ι ν} {ref : ι} {depth : Nat} {path : List Slot}
    {frames : List (Frame ι ν)} {count : Tx Thrown (Inspection ι) Unit}
    {root root' : Option (JsonTree Unit ν)} {s : Inspection ι} {fits : Prop} {n n' k k' : Nat}
    (hpushed : (Frame.value v depth path).pushed = frames ++ [.exit ref])
    (hcheck : (Frame.value v depth path).check maxBytes error structureLimit =
      (requireCdbDepth error structureLimit (depth + 1) >>= fun _ =>
        enterContainer error.notCompatible ref >>= fun _ => count))
    (hcount : ∀ t : Inspection ι, t.Within maxBytes
        (structureLimit.map StructureLimit.maxAggregateMembers) →
      Counts maxBytes (structureLimit.map StructureLimit.maxAggregateMembers) count t True n k ())
    (hinside : ∀ t : Inspection ι, t.ancestors = ref :: s.ancestors →
      t.Within maxBytes (structureLimit.map StructureLimit.maxAggregateMembers) →
        Passes maxBytes error structureLimit frames
          ((Frame.value v depth path).assigned root) t fits n' k' root')
    (hs : s.Within maxBytes (structureLimit.map StructureLimit.maxAggregateMembers)) :
    Passes maxBytes error structureLimit [.value v depth path] root s
      ((∀ m ∈ structureLimit.map StructureLimit.maxDepth, depth < m) ∧ ref ∉ s.ancestors ∧ fits)
      (n + n') (k + k') root' := by
  intro stack r s'
  have herase : (ref :: s.ancestors).erase ref = s.ancestors := List.erase_cons_head ..
  rw [List.singleton_append, inspectLoop_cons, hpushed, hcheck]
  simp only [Tx.bind_returns, requireCdbDepth, Tx.require_returns, enterContainer_returns,
    List.append_assoc, List.singleton_append]
  have hentered := hcount ⟨s.bytes, s.members, ref :: s.ancestors⟩ hs
  have hwalk := hinside ⟨s.bytes + n, s.members + k, ref :: s.ancestors⟩ rfl
  have hexit : ∀ t : Inspection ι,
      (inspectLoop maxBytes error structureLimit (.exit ref :: stack) root').Returns t r s' ↔
        (inspectLoop maxBytes error structureLimit stack root').Returns
          { t with ancestors := t.ancestors.erase ref } r s' := by
    intro t
    rw [inspectLoop_cons]
    simp only [Frame.check, leaveContainer, Tx.modify_returns, exists_eq_left, exists_const]
    rfl
  have hsum : ({ s with ancestors := ref :: s.ancestors } : Inspection ι).plus n k =
      ⟨s.bytes + n, s.members + k, ref :: s.ancestors⟩ := rfl
  have hleft : ∀ t : Inspection ι, t = (⟨s.bytes + n, s.members + k, ref :: s.ancestors⟩ :
      Inspection ι).plus n' k' → { t with ancestors := t.ancestors.erase ref } =
        s.plus (n + n') (k + k') := by
    rintro t rfl
    simp only [Inspection.plus, herase, Nat.add_assoc]
  constructor
  · rintro ⟨_, _, ⟨_, _, ⟨hdepth, rfl⟩, _, _, ⟨hnew, rfl⟩, hrun⟩, hrest⟩
    obtain ⟨hfirst, -, rfl⟩ := (hentered _ _).mp hrun
    obtain ⟨hsecond, hrest⟩ := (hwalk hfirst.2 _ r s').mp hrest
    rw [hexit, hleft _ rfl] at hrest
    have hboth : Admits maxBytes (structureLimit.map StructureLimit.maxAggregateMembers) s
        (True ∧ fits) (n + n') (k + k') := admits_plus_iff.mp ⟨hfirst, hsecond⟩
    exact ⟨⟨⟨hdepth, hnew, hboth.1.2⟩, hboth.2⟩, hrest⟩
  · rintro ⟨⟨⟨hdepth, hnew, hfits⟩, hwithin⟩, hrest⟩
    have hboth : Admits maxBytes (structureLimit.map StructureLimit.maxAggregateMembers) s
        (True ∧ fits) (n + n') (k + k') := ⟨⟨trivial, hfits⟩, hwithin⟩
    obtain ⟨hfirst, hsecond⟩ := admits_plus_iff.mpr hboth
    refine ⟨(), _, ⟨(), _, ⟨hdepth, rfl⟩, (), _, ⟨hnew, rfl⟩,
      (hentered _ _).mpr ⟨hfirst, rfl, rfl⟩⟩, ?_⟩
    rw [hsum]
    refine (hwalk hfirst.2 _ r s').mpr ⟨hsecond, ?_⟩
    rw [hexit, hleft _ rfl]
    exact hrest

mutual

/-- A value on the stack passes exactly when it fits, with its counts, and its copy is assigned. -/
theorem JsonTree.passes : ∀ (v : JsonTree ι ν) (depth : Nat) (path : List Slot)
    (root : Option (JsonTree Unit ν)) (s : Inspection ι),
    s.Within maxBytes (structureLimit.map StructureLimit.maxAggregateMembers) →
    Passes maxBytes error structureLimit [.value v depth path] root s
      (v.Fits (structureLimit.map StructureLimit.maxDepth) s.ancestors depth) v.byteCount
      v.memberCount (assignRoot v.copy path root)
  | .null, _, _, _, _, hs => passes_leaf rfl (counts_bytes hs)
  | .bool _, _, _, _, _, hs => passes_leaf rfl (counts_bytes hs)
  | .str _, _, _, _, _, hs => passes_leaf rfl (counts_addString hs)
  | .num n, _, _, _, _, hs =>
    passes_leaf rfl (((counts_require hs).bind fun hs => counts_bytes hs).congr
      (Iff.of_eq (and_true _)) (Nat.zero_add _) rfl)
  | .arr ref elems, depth, path, root, s, hs => by
    have hinside : ∀ t : Inspection ι, t.ancestors = ref :: s.ancestors →
        t.Within maxBytes (structureLimit.map StructureLimit.maxAggregateMembers) →
          Passes maxBytes error structureLimit (elemFrames (depth + 1) path 0 elems)
            (assignRoot (.arr () []) path root) t
            (JsonTree.ElemsFit (structureLimit.map StructureLimit.maxDepth) (ref :: s.ancestors)
              (depth + 1) elems)
            (JsonTree.elemsOwnBytes elems) (JsonTree.elemsOwnCount elems)
            (assignRoot (.arr () (JsonTree.copyElems elems)) path root) := by
      intro t ht hwithin
      rw [← ht]
      exact JsonTree.elemsPass elems (depth + 1) path [] root t hwithin
    refine (passes_container rfl rfl (fun t ht => counts_arr elems ht) hinside hs).congr Iff.rfl ?_
      (elemsCount_eq elems).symm
    rw [JsonTree.byteCount, elemsBytes_eq, if_pos rfl, Nat.add_assoc]
  | .obj ref members, depth, path, root, s, hs => by
    have hinside : ∀ t : Inspection ι, t.ancestors = ref :: s.ancestors →
        t.Within maxBytes (structureLimit.map StructureLimit.maxAggregateMembers) →
          Passes maxBytes error structureLimit (memberFrames (depth + 1) path members)
            (assignRoot (.obj () []) path root) t
            (JsonTree.MembersFit (structureLimit.map StructureLimit.maxDepth) (ref :: s.ancestors)
              (depth + 1) members)
            (JsonTree.membersOwnBytes members) (JsonTree.membersOwnCount members)
            (assignRoot (.obj () (JsonTree.copyMembers [] members)) path root) := by
      intro t ht hwithin
      rw [← ht]
      exact JsonTree.membersPass members (depth + 1) path [] root t hwithin
    refine (passes_container rfl rfl (fun t ht => counts_obj members ht) hinside hs).congr Iff.rfl ?_
      (membersCount_eq members).symm
    rw [JsonTree.byteCount, membersBytes_eq, Nat.add_assoc]

/-- The rest of an array fills the owned array, which has the elements before. -/
theorem JsonTree.elemsPass : ∀ (xs : List (JsonTree ι ν)) (depth : Nat) (path : List Slot)
    (done : List (JsonTree Unit ν)) (root : Option (JsonTree Unit ν)) (s : Inspection ι),
    s.Within maxBytes (structureLimit.map StructureLimit.maxAggregateMembers) →
    Passes maxBytes error structureLimit (elemFrames depth path done.length xs)
      (assignRoot (.arr () done) path root) s
      (JsonTree.ElemsFit (structureLimit.map StructureLimit.maxDepth) s.ancestors depth xs)
      (JsonTree.elemsOwnBytes xs) (JsonTree.elemsOwnCount xs)
      (assignRoot (.arr () (done ++ JsonTree.copyElems xs)) path root)
  | [], _, _, done, _, _, hs => by
    rw [JsonTree.copyElems, List.append_nil]
    exact passes_nil hs
  | x :: xs, depth, path, done, root, s, hs => by
    have hlength : (done ++ [x.copy]).length = done.length + 1 := List.length_append
    have hrest := JsonTree.elemsPass xs depth path (done ++ [x.copy]) root (s.plus x.byteCount
      x.memberCount)
    rw [hlength, List.append_assoc, List.singleton_append] at hrest
    have hx := JsonTree.passes x depth (path ++ [.index done.length])
      (assignRoot (.arr () done) path root) s hs
    rw [assign_elem] at hx
    exact hx.append hrest

theorem JsonTree.membersPass : ∀ (ms : List (JsString × JsonTree ι ν)) (depth : Nat)
    (path : List Slot) (done : List (JsString × JsonTree Unit ν)) (root : Option (JsonTree Unit ν))
    (s : Inspection ι), s.Within maxBytes (structureLimit.map StructureLimit.maxAggregateMembers) →
    Passes maxBytes error structureLimit (memberFrames depth path ms)
      (assignRoot (.obj () done) path root) s
      (JsonTree.MembersFit (structureLimit.map StructureLimit.maxDepth) s.ancestors depth ms)
      (JsonTree.membersOwnBytes ms) (JsonTree.membersOwnCount ms)
      (assignRoot (.obj () (JsonTree.copyMembers done ms)) path root)
  | [], _, _, _, _, _, hs => passes_nil hs
  | (key, x) :: ms, depth, path, done, root, s, hs => by
    have hrest := JsonTree.membersPass ms depth path (defineProperty key x.copy done) root
      (s.plus x.byteCount x.memberCount)
    have hx := JsonTree.passes x depth (path ++ [.key key])
      (assignRoot (.obj () done) path root) s hs
    rw [assign_member] at hx
    exact hx.append hrest

end

theorem inspectCdbJsonByteLimit_ok {v : JsonTree ι ν} {r : Nat × Option (JsonTree Unit ν)} :
    inspectCdbJsonByteLimit maxBytes error structureLimit v = .ok r ↔
      Accepts maxBytes (structureLimit.map StructureLimit.maxAggregateMembers)
        (structureLimit.map StructureLimit.maxDepth) v ∧ r = (v.byteCount, some v.copy) := by
  have hpasses : Passes maxBytes error structureLimit _ none .start _ _ _ _ :=
    JsonTree.passes v 0 [] none .start (within_start _)
  have hend : ∀ r s', (inspectLoop maxBytes error structureLimit ([] : List (Frame ι ν))
      (assignRoot v.copy [] none)).Returns (Inspection.start.plus v.byteCount v.memberCount) r s' ↔
        r = some v.copy ∧ Inspection.start.plus v.byteCount v.memberCount = s' := by
    intro r s'
    rw [inspectLoop, Tx.pure_returns]
    rfl
  unfold inspectCdbJsonByteLimit
  constructor
  · intro h
    split at h
    · rename_i root s' hrun
      obtain ⟨hadmits, hrest⟩ := (hpasses [] root s').mp hrun
      obtain ⟨rfl, rfl⟩ := (hend root s').mp hrest
      cases h
      exact ⟨admits_start.mp hadmits, by rw [Inspection.plus, Inspection.start, Nat.zero_add]⟩
    · cases h
  · rintro ⟨haccepts, rfl⟩
    have hrun := (hpasses [] _ _).mpr ⟨admits_start.mpr haccepts, (hend _ _).mpr ⟨rfl, rfl⟩⟩
    rw [List.append_nil] at hrun
    unfold Tx.Returns at hrun
    rw [hrun]
    simp [Inspection.plus, Inspection.start]

end

end Chardb.Arguments
