import Chardb.Arguments.ByteLimit
import Chardb.Arguments.SerializedJson
import Chardb.Core.Canonical

/-!
# Arguments on both sides

The client and the server accept the same arguments, copy them alike and count the bytes of their
JSON text; what they accept the wire decoder accepts as the `args` of a message.
-/

namespace Chardb.Arguments

open Chardb.Lib

variable {ι ν : Type}

/-! ## The wire decoder's check -/

/-- The code units of a text. -/
def units (s : String) : JsString := (utf16 s).map UInt16.ofNat

/-- A `TypeError`, whose message names a path with keys of the value. -/
structure MalformedMessage where
  message : JsString

def malformedAt (path : JsString) (expected : String) : MalformedMessage :=
  ⟨units "malformed wire message: " ++ path ++ units (" must " ++ expected)⟩

section
variable [JsNumber ν]

mutual

/-- `rawJson`. -/
def JsonTree.rawJson (path : JsString) (depth : Nat) :
    JsonTree ι ν → Except MalformedMessage Unit
  | .num n =>
    if 100 < depth then .error (malformedAt path "have nesting depth at most 100")
    else if JsNumber.isFinite n then .ok () else .error (malformedAt path "be a finite number")
  | .arr _ elems =>
    if 100 < depth then .error (malformedAt path "have nesting depth at most 100")
    else JsonTree.rawJsonElems path depth 0 elems
  | .obj _ members =>
    if 100 < depth then .error (malformedAt path "have nesting depth at most 100")
    else JsonTree.rawJsonMembers path depth members
  | .null | .bool _ | .str _ =>
    if 100 < depth then .error (malformedAt path "have nesting depth at most 100") else .ok ()

def JsonTree.rawJsonElems (path : JsString) (depth index : Nat) :
    List (JsonTree ι ν) → Except MalformedMessage Unit
  | [] => .ok ()
  | x :: xs => do
    x.rawJson (path ++ units ("[" ++ toString index ++ "]")) (depth + 1)
    JsonTree.rawJsonElems path depth (index + 1) xs

def JsonTree.rawJsonMembers (path : JsString) (depth : Nat) :
    List (JsString × JsonTree ι ν) → Except MalformedMessage Unit
  | [] => .ok ()
  | (key, x) :: ms => do
    x.rawJson (path ++ units "." ++ key) (depth + 1)
    JsonTree.rawJsonMembers path depth ms

end

mutual

/-- A value that fits at most `m` levels passes at most `100 - m` levels deep. -/
theorem JsonTree.rawJson_of_fits {m : Nat} : ∀ (v : JsonTree ι ν) (path : JsString)
    {ancestors : List ι} {depth level : Nat}, v.Fits (some m) ancestors depth → depth ≤ m →
    level + m ≤ depth + 100 → v.rawJson path level = .ok ()
  | .null, _, _, depth, level, _, _, _ | .bool _, _, _, depth, level, _, _, _
  | .str _, _, _, depth, level, _, _, _ => by
    rw [JsonTree.rawJson, if_neg (by omega)]
  | .num n, _, _, depth, level, h, _, _ => by
    have hfinite : JsNumber.isFinite n = true := (Bool.and_eq_true_iff.mp h).1
    rw [JsonTree.rawJson, if_neg (by omega), if_pos hfinite]
  | .arr _ elems, path, _, depth, level, h, _, hle => by
    have hdepth : depth < m := h.1 m rfl
    rw [JsonTree.rawJson, if_neg (by omega)]
    exact JsonTree.rawJsonElems_of_fits elems path 0 h.2.2 hdepth (by omega)
  | .obj _ members, path, _, depth, level, h, _, hle => by
    have hdepth : depth < m := h.1 m rfl
    rw [JsonTree.rawJson, if_neg (by omega)]
    exact JsonTree.rawJsonMembers_of_fits members path h.2.2 hdepth (by omega)

theorem JsonTree.rawJsonElems_of_fits {m : Nat} : ∀ (xs : List (JsonTree ι ν)) (path : JsString)
    (index : Nat) {ancestors : List ι} {depth level : Nat},
    JsonTree.ElemsFit (some m) ancestors depth xs → depth ≤ m → level + 1 + m ≤ depth + 100 →
    JsonTree.rawJsonElems path level index xs = .ok ()
  | [], _, _, _, _, _, _, _, _ => rfl
  | x :: xs, path, index, _, _, _, h, hdepth, hle => by
    rw [JsonTree.rawJsonElems, x.rawJson_of_fits _ h.1 hdepth hle]
    exact JsonTree.rawJsonElems_of_fits xs path (index + 1) h.2 hdepth hle

theorem JsonTree.rawJsonMembers_of_fits {m : Nat} : ∀ (ms : List (JsString × JsonTree ι ν))
    (path : JsString) {ancestors : List ι} {depth level : Nat},
    JsonTree.MembersFit (some m) ancestors depth ms → depth ≤ m → level + 1 + m ≤ depth + 100 →
    JsonTree.rawJsonMembers path level ms = .ok ()
  | [], _, _, _, _, _, _, _ => rfl
  | (key, x) :: ms, path, _, _, _, h, hdepth, hle => by
    rw [JsonTree.rawJsonMembers, x.rawJson_of_fits _ h.1 hdepth hle]
    exact JsonTree.rawJsonMembers_of_fits ms path h.2 hdepth hle

end

/-! ## Messages -/

/-- A `sub` message. -/
def subMessage (ref : ι) (subId : ν) (name : JsString) (args : JsonTree ι ν) (ttlMs : Option ν) :
    JsonTree ι ν :=
  .obj ref ([(units "t", .str (units "sub")), (units "subId", .num subId),
    (units "ref", .str name), (units "args", args)] ++
      ttlMs.toList.map fun n => (units "ttlMs", .num n))

/-- A `mut` message. -/
def mutMessage (ref : ι) (mutId name : JsString) (args : JsonTree ι ν) : JsonTree ι ν :=
  .obj ref [(units "t", .str (units "mut")), (units "mutId", .str mutId),
    (units "ref", .str name), (units "args", args)]

theorem rawJsonMembers_ok {members : List (JsString × JsonTree ι ν)} {path : JsString} {depth : Nat}
    (h : ∀ m ∈ members, ∀ path, m.2.rawJson path (depth + 1) = .ok ()) :
    JsonTree.rawJsonMembers path depth members = .ok () := by
  induction members with
  | nil => rfl
  | cons m ms ih =>
    obtain ⟨hm, hms⟩ := List.forall_mem_cons.mp h
    rw [JsonTree.rawJsonMembers, hm]
    exact ih hms

/-- An object whose members pass one level down passes at the root. -/
theorem rawJson_message {ref : ι} {members : List (JsString × JsonTree ι ν)} (path : JsString)
    (h : ∀ m ∈ members, ∀ path, m.2.rawJson path 1 = .ok ()) :
    (JsonTree.obj ref members).rawJson path 0 = .ok () := by
  rw [JsonTree.rawJson, if_neg (by decide)]
  exact rawJsonMembers_ok h

theorem rawJson_num {n : ν} (h : JsNumber.isFinite n = true) (path : JsString) :
    (JsonTree.num n : JsonTree ι ν).rawJson path 1 = .ok () := by
  rw [JsonTree.rawJson, if_neg (by decide), if_pos h]

theorem rawJson_str (s path : JsString) : (JsonTree.str s : JsonTree ι ν).rawJson path 1 = .ok () := by
  rw [JsonTree.rawJson, if_neg (by decide)]

/-- The decoder's check of a value by itself and in the messages that carry it. -/
def PassesWire (v : JsonTree ι ν) : Prop :=
  (∀ path, v.rawJson path 0 = .ok ()) ∧
    (∀ path ref subId name ttlMs, JsNumber.isFinite subId = true →
      (∀ n ∈ ttlMs, JsNumber.isFinite n = true) →
        (subMessage ref subId name v ttlMs).rawJson path 0 = .ok ()) ∧
      ∀ path ref mutId name, (mutMessage ref mutId name v).rawJson path 0 = .ok ()

theorem passesWire_of_fits {v : JsonTree ι ν} (h : v.Fits (some CDB_ARGUMENT_MAX_DEPTH) [] 0) :
    PassesWire v := by
  have hargs : ∀ path, v.rawJson path 1 = .ok () := fun path =>
    v.rawJson_of_fits path h (by decide) (by decide)
  refine ⟨fun path => v.rawJson_of_fits path h (by decide) (by decide),
    fun path ref subId name ttlMs hsub httl => rawJson_message path ?_,
    fun path ref mutId name => rawJson_message path ?_⟩
  · simp only [List.forall_mem_append, List.forall_mem_cons]
    refine ⟨⟨rawJson_str _, rawJson_num hsub, rawJson_str _, hargs, fun m hm => (by cases hm)⟩, ?_⟩
    intro m hm
    obtain ⟨n, hn, rfl⟩ := List.mem_map.mp hm
    exact rawJson_num (httl n (Option.mem_toList.mp hn))
  · simp only [List.forall_mem_cons]
    exact ⟨rawJson_str _, rawJson_str _, rawJson_str _, hargs, fun m hm => (by cases hm)⟩

/-! ## Agreement -/

/-- One side accepts when the other does, and what either returns is the value. -/
def Agree (client : Except Thrown (JsonTree Unit ν)) (server : Except Thrown (Option (JsonTree Unit ν)))
    (value : JsonTree Unit ν) : Prop :=
  ((∃ c, client = .ok c) ↔ ∃ c, server = .ok c) ∧
    (∀ c, client = .ok c → c = value) ∧ ∀ c, server = .ok c → c = some value

def ArgumentsFit (v : JsonTree ι ν) : Prop :=
  Accepts CDB_ARGUMENT_MAX_BYTES (some CDB_ARGUMENT_MAX_MEMBERS) (some CDB_ARGUMENT_MAX_DEPTH) v

theorem agree_of_ok {v : JsonTree ι ν} (hv : v.Wf) {client : Except Thrown (JsonTree Unit ν)}
    {server : Except Thrown (Option (JsonTree Unit ν))}
    (hclient : ∀ c, client = .ok c ↔ ArgumentsFit v ∧ c = v.copy)
    (hserver : ∀ c, server = .ok c ↔ ArgumentsFit v ∧ c = some v.copy) :
    Agree client server v.shape := by
  rw [v.copy_eq hv] at hclient hserver
  exact ⟨⟨fun ⟨c, hc⟩ => ⟨_, (hserver _).mpr ⟨((hclient c).mp hc).1, rfl⟩⟩,
    fun ⟨c, hc⟩ => ⟨_, (hclient _).mpr ⟨((hserver c).mp hc).1, rfl⟩⟩⟩,
    fun c hc => ((hclient c).mp hc).2, fun c hc => ((hserver c).mp hc).2⟩

theorem snapshot_ok {α : Type} {x : Except Thrown (Nat × α)} {P : Prop} {n : Nat} {a : α}
    (h : ∀ r, x = .ok r ↔ P ∧ r = (n, a)) (c : α) :
    (x >>= fun inspected => pure inspected.2) = .ok c ↔ P ∧ c = a := by
  constructor
  · intro hc
    obtain ⟨r, hr, hc⟩ := bind_ok hc
    obtain ⟨hP, rfl⟩ := (h r).mp hr
    exact ⟨hP, (Except.ok.inj hc).symm⟩
  · rintro ⟨hP, rfl⟩
    rw [(h _).mpr ⟨hP, rfl⟩]
    rfl

variable [DecidableEq ι]

/-- The validators of both sides agree on every value, for mutations and for queries: they accept the
same ones, return the value, count the bytes of its JSON text, and what they accept passes the wire
decoder's check. -/
theorem argument_validators_agree (v : JsonTree ι ν) (hv : v.Wf) :
    Agree (snapshotMutationArguments v) (snapshotCdbMutationArgs v) v.shape ∧
    Agree (snapshotSubscriptionArguments v) (snapshotCdbQueryArgs v) v.shape ∧
    (∀ subject n c,
      inspectSerializedJson CDB_ARGUMENT_MAX_BYTES subject argumentLimits v = .ok (n, c) →
        n = utf8Length v.stringify) ∧
    (∀ error n c,
      inspectCdbJsonByteLimit CDB_ARGUMENT_MAX_BYTES error (some argumentStructure) v = .ok (n, c) →
        n = utf8Length v.stringify) ∧
    ((∃ c, snapshotMutationArguments v = .ok c) ∨ (∃ c, snapshotSubscriptionArguments v = .ok c) →
      PassesWire v) := by
  have hmutation : ∀ c, snapshotMutationArguments v = .ok c ↔ ArgumentsFit v ∧ c = v.copy :=
    snapshot_ok fun _ => inspectSerializedJson_ok
  have hsubscription : ∀ c, snapshotSubscriptionArguments v = .ok c ↔ ArgumentsFit v ∧ c = v.copy :=
    snapshot_ok fun _ => inspectSerializedJson_ok
  refine ⟨agree_of_ok hv hmutation (snapshot_ok fun _ => inspectCdbJsonByteLimit_ok),
    agree_of_ok hv hsubscription (snapshot_ok fun _ => inspectCdbJsonByteLimit_ok),
    fun subject n c h => ?_, fun error n c h => ?_, ?_⟩
  · obtain ⟨haccepts, he⟩ := inspectSerializedJson_ok.mp h
    rw [v.utf8Length_stringify haccepts.1]
    exact congrArg Prod.fst he
  · obtain ⟨haccepts, he⟩ := inspectCdbJsonByteLimit_ok.mp h
    rw [v.utf8Length_stringify haccepts.1]
    exact congrArg Prod.fst he
  · rintro (⟨c, hc⟩ | ⟨c, hc⟩)
    · exact passesWire_of_fits ((hmutation c).mp hc).1.1
    · exact passesWire_of_fits ((hsubscription c).mp hc).1.1

end

/-- A list with a lone surrogate under one key, a number under the other. -/
def loneSurrogate : JsonTree Nat Int := .obj 0 [([97], .arr 1 [.str [55296]]), ([98], .num 1)]

theorem argument_validators_agree_lone_surrogate :
    loneSurrogate.Wf ∧
      Agree (snapshotMutationArguments loneSurrogate) (snapshotCdbMutationArgs loneSurrogate)
        loneSurrogate.shape := by
  have hwf : loneSurrogate.Wf := by
    have hkeys : ([[97], [98]] : List JsString).Nodup := by decide
    exact ⟨hkeys, ⟨trivial, trivial⟩, trivial, trivial⟩
  exact ⟨hwf, (argument_validators_agree loneSurrogate hwf).1⟩

end Chardb.Arguments
