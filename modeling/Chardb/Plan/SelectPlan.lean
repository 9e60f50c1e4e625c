import Chardb.Core.Errors
import Chardb.Core.Vshard
import Chardb.Lib.JsonParse
import Chardb.Plan.Predicate

/-!
# Select plans

`validateChardbSelectPlanV1` reads a plan out of a value that came from outside. The
value is any JavaScript value; what it holds beyond plain data is refused.
-/

namespace Chardb.Plan

open Chardb.Lib

def CHARDB_SELECT_PLAN_VERSION : Int := 1
def CHARDB_SELECT_PLAN_MAX_BYTES : Nat := 65536
def CHARDB_SELECT_PLAN_MAX_PREDICATES : Nat := 128
def CHARDB_SELECT_PLAN_MAX_DEPTH : Nat := 16
def CHARDB_SELECT_PLAN_MAX_CHILDREN : Nat := 16
def CHARDB_SELECT_PLAN_MAX_IN_VALUES : Nat := 100
def CHARDB_SELECT_PLAN_MAX_ORDER_BY : Nat := 4
def CHARDB_SELECT_PLAN_MAX_LIMIT : Int := 100
def MAX_IDENTIFIER_BYTES : Nat := 256
def MAX_PLAN_OBJECT_KEYS : Nat := 8

/-! ## Values from outside -/

/-- The key of an own property; symbols have no name here. -/
inductive PropertyKey
  | string (name : String)
  | symbol
  deriving DecidableEq

/-- A JavaScript value. An own property is `some` data that is enumerable, or `none` if it is
hidden or an accessor. -/
inductive JsValue (ν : Type)
  | undefined
  | null
  | bool (b : Bool)
  | number (x : ν)
  | text (s : String)
  /-- The elements (`none` is a hole) and how many other string keys and symbol keys there are. -/
  | array (items : List (Option (Option (JsValue ν)))) (extraKeys symbolKeys : Nat)
  /-- Whether the prototype is that of plain objects, and the own properties. -/
  | object (plain : Bool) (properties : List (PropertyKey × Option (JsValue ν)))
  /-- Functions, symbols, big integers. -/
  | other

variable {ν : Type}

mutual
def JsValue.ofJson : Json ν → JsValue ν
  | .null => .null
  | .bool b => .bool b
  | .num x => .number x
  | .str s => .text s
  | .arr xs => .array (ofElems xs) 0 0
  | .obj ms => .object true (ofMembers ms)

def JsValue.ofElems : List (Json ν) → List (Option (Option (JsValue ν)))
  | [] => []
  | x :: xs => some (some (ofJson x)) :: ofElems xs

def JsValue.ofMembers : List (String × Json ν) → List (PropertyKey × Option (JsValue ν))
  | [] => []
  | (key, x) :: ms => (.string key, some (ofJson x)) :: ofMembers ms
end

theorem JsValue.ofElems_eq_map (xs : List (Json ν)) :
    JsValue.ofElems xs = xs.map fun x => some (some (JsValue.ofJson x)) := by
  induction xs with
  | nil => rfl
  | cons x xs ih => rw [JsValue.ofElems, ih, List.map_cons]

theorem JsValue.ofMembers_eq_map (ms : List (String × Json ν)) :
    JsValue.ofMembers ms = ms.map fun m => (.string m.1, some (JsValue.ofJson m.2)) := by
  induction ms with
  | nil => rfl
  | cons m ms ih => rw [JsValue.ofMembers, ih, List.map_cons]

/-! ## Plans -/

inductive SortDirection
  | asc
  | desc
  deriving DecidableEq

structure OrderItem where
  column : String
  direction : SortDirection
  deriving DecidableEq

inductive Cardinality
  | many
  | one
  deriving DecidableEq

/-- `ChardbSelectPlanV1`; its version, kind and selection are fixed. -/
structure ChardbSelectPlan (ν : Type) where
  table : String
  «where» : Option (ChardbPlanPredicate ν)
  orderBy : Option (List OrderItem)
  limit : Option Int
  cardinality : Cardinality

def CompareOp.word : CompareOp → String
  | .eq => "eq"
  | .ne => "ne"
  | .gt => "gt"
  | .gte => "gte"
  | .lt => "lt"
  | .lte => "lte"

def NullOp.word : NullOp → String
  | .isNull => "isNull"
  | .isNotNull => "isNotNull"

def NodeKind.word : NodeKind → String
  | .and => "and"
  | .or => "or"

def SortDirection.word : SortDirection → String
  | .asc => "asc"
  | .desc => "desc"

def Cardinality.word : Cardinality → String
  | .many => "many"
  | .one => "one"

def ChardbPlanScalar.toJson : ChardbPlanScalar ν → Json ν
  | .text s => .str s
  | .number x => .num x
  | .bool b => .bool b

mutual
def ChardbPlanPredicate.toJson : ChardbPlanPredicate ν → Json ν
  | .compare op column value => .obj
      [("kind", .str "compare"), ("op", .str (CompareOp.word op)), ("column", .str column),
        ("value", value.toJson)]
  | .inList column values => .obj
      [("kind", .str "in"), ("column", .str column),
        ("values", .arr (values.map ChardbPlanScalar.toJson))]
  | .between column lower upper => .obj
      [("kind", .str "between"), ("column", .str column), ("lower", lower.toJson),
        ("upper", upper.toJson)]
  | .null op column => .obj
      [("kind", .str "null"), ("op", .str op.word), ("column", .str column)]
  | .node kind predicates => .obj
      [("kind", .str kind.word), ("predicates", .arr (toJsonAll predicates))]

def ChardbPlanPredicate.toJsonAll : List (ChardbPlanPredicate ν) → List (Json ν)
  | [] => []
  | p :: ps => p.toJson :: toJsonAll ps
end

theorem toJsonAll_eq_map (ps : List (ChardbPlanPredicate ν)) :
    ChardbPlanPredicate.toJsonAll ps = ps.map ChardbPlanPredicate.toJson := by
  induction ps with
  | nil => rfl
  | cons p ps ih => rw [ChardbPlanPredicate.toJsonAll, ih, List.map_cons]

def OrderItem.toJson (item : OrderItem) : Json ν :=
  .obj [("column", .str item.column), ("direction", .str item.direction.word)]

/-- The plan as an object, in the order of its keys. -/
def ChardbSelectPlan.toJson [JsNumber ν] (plan : ChardbSelectPlan ν) : Json ν :=
  .obj (
    [("version", .int CHARDB_SELECT_PLAN_VERSION), ("kind", .str "select"),
      ("table", .str plan.table), ("selection", .obj [("kind", .str "all")])] ++
    (plan.where.map fun p => ("where", p.toJson)).toList ++
    (plan.orderBy.map fun items => ("orderBy", Json.arr (items.map OrderItem.toJson))).toList ++
    (plan.limit.map fun n => ("limit", Json.int n)).toList ++
    [("cardinality", .str plan.cardinality.word)])

/-! ## Reading values -/

/-- `invalid` of `binding-plan.ts`. -/
def invalidPlan (message : String) : Thrown := invalidArgs ("DB select plan: " ++ message)

/-- `new TextEncoder().encode(text).byteLength`. -/
def byteLength (text : List Char) : Nat := (text.map Char.utf8Size).sum

def isIdentifier (s : String) : Bool :=
  !s.isEmpty && byteLength s.toList ≤ MAX_IDENTIFIER_BYTES &&
    !s.toList.any fun c => c.toNat ≤ 31 || c.toNat = 127

def boundedIdentifier (value : JsValue ν) (subject : String) : Except Thrown String :=
  match value with
  | .text s => if isIdentifier s then .ok s else .error (invalidPlan (subject ++ " is invalid"))
  | _ => .error (invalidPlan (subject ++ " is invalid"))

/-- The own properties of a plain object, in their order. -/
abbrev Entries (ν : Type) := List (String × JsValue ν)

def entryOf (subject : String) : PropertyKey × Option (JsValue ν) → Except Thrown (String × JsValue ν)
  | (.symbol, _) => .error (invalidPlan (subject ++ " cannot contain symbol keys"))
  | (.string key, none) =>
    .error (invalidPlan (subject ++ "." ++ key ++ " must be an enumerable data property"))
  | (.string key, some value) => .ok (key, value)

def objectEntries (value : JsValue ν) (subject : String) : Except Thrown (Entries ν) :=
  match value with
  | .object false _ => .error (invalidPlan (subject ++ " must be a plain object"))
  | .object true properties =>
    if MAX_PLAN_OBJECT_KEYS < properties.length then
      .error (invalidPlan (subject ++ " contains too many keys"))
    else properties.mapM (entryOf subject)
  | _ => .error (invalidPlan (subject ++ " must be an object"))

/-- `entries.get(key)`. -/
def Entries.get (entries : Entries ν) (key : String) : JsValue ν :=
  ((entries.find? fun e => e.1 = key).map Prod.snd).getD .undefined

/-- `entries.has(key)`. -/
def Entries.has (entries : Entries ν) (key : String) : Bool := entries.any fun e => e.1 = key

def exactKeys (entries : Entries ν) (subject : String) (required optional : List String) :
    Except Thrown Unit :=
  match entries.find? fun e => e.1 ∉ required ++ optional with
  | some e => .error (invalidPlan (subject ++ " contains unknown key " ++ e.1))
  | none =>
    match required.find? fun key => !entries.has key with
    | some key => .error (invalidPlan (subject ++ " is missing " ++ key))
    | none => .ok ()

def itemOf (subject : String) :
    Option (Option (JsValue ν)) × Nat → Except Thrown (JsValue ν)
  | (some (some value), _) => .ok value
  | (_, index) => .error (invalidPlan
      (subject ++ "[" ++ toString index ++ "] must be an enumerable data property"))

def strictArray (value : JsValue ν) (subject : String) (maxLength : Nat) :
    Except Thrown (List (JsValue ν)) :=
  match value with
  | .array items extraKeys symbolKeys =>
    if maxLength < items.length then
      .error (invalidPlan (subject ++ " accepts at most " ++ toString maxLength ++ " entries"))
    else if symbolKeys ≠ 0 then
      .error (invalidPlan (subject ++ " cannot contain symbol keys"))
    else if (items.filter Option.isSome).length + extraKeys ≠ items.length then
      .error (invalidPlan (subject ++ " must be a dense array without extra properties"))
    else items.zipIdx.mapM (itemOf subject)
  | _ => .error (invalidPlan (subject ++ " must be an array"))

/-! ## Predicates -/

structure PredicateDecodeCounter where
  nodes : Nat
  stringValueBytes : Nat
  deriving DecidableEq

/-- Decoding counts nodes and the bytes of strings as it goes. -/
abbrev DecodeM := StateT PredicateDecodeCounter (Except Thrown)

section
variable [JsNumber ν]

def decodedNonNullScalar (value : JsValue ν) (subject : String) :
    Except Thrown (ChardbPlanScalar ν) :=
  match value with
  | .text s => .ok (.text s)
  | .bool b => .ok (.bool b)
  | .number x =>
    if JsNumber.exact x then .ok (.number x)
    else .error (invalidPlan (subject ++ " must be a JSON scalar"))
  | .null => .error (invalidPlan (subject ++ " cannot be null; use an explicit null predicate"))
  | _ => .error (invalidPlan (subject ++ " must be a JSON scalar"))

/-- One more character, or more bytes than a plan may have. -/
def addCharBytes (bytes : Nat) (c : Char) : Except Thrown Nat :=
  if CHARDB_SELECT_PLAN_MAX_BYTES < bytes + c.utf8Size then
    .error (invalidPlan ("predicate string values exceed " ++
      toString CHARDB_SELECT_PLAN_MAX_BYTES ++ " UTF-8 bytes"))
  else .ok (bytes + c.utf8Size)

def addPredicateStringValueBytes (value : ChardbPlanScalar ν) : DecodeM Unit := fun counter =>
  match value with
  | .text s => do
    let bytes ← s.toList.foldlM addCharBytes counter.stringValueBytes
    pure ((), { counter with stringValueBytes := bytes })
  | _ => pure ((), counter)

def decodedPredicateScalar (value : JsValue ν) (subject : String) : DecodeM (ChardbPlanScalar ν) := do
  let decoded ← decodedNonNullScalar value subject
  addPredicateStringValueBytes decoded
  pure decoded

def compareOpOf : JsValue ν → Option CompareOp
  | .text s => [CompareOp.eq, .ne, .gt, .gte, .lt, .lte].find? fun op => CompareOp.word op = s
  | _ => none

def nullOpOf : JsValue ν → Option NullOp
  | .text s => [NullOp.isNull, .isNotNull].find? fun op => op.word = s
  | _ => none

def countNode : DecodeM Unit := fun counter =>
  if CHARDB_SELECT_PLAN_MAX_PREDICATES < counter.nodes + 1 then
    .error (invalidPlan
      ("predicate count exceeds " ++ toString CHARDB_SELECT_PLAN_MAX_PREDICATES))
  else .ok ((), { counter with nodes := counter.nodes + 1 })

/-- The branches without children. -/
def decodeLeaf (entries : Entries ν) (subject : String) : DecodeM (ChardbPlanPredicate ν) :=
  match entries.get "kind" with
  | .text "compare" => do
    exactKeys entries subject ["kind", "op", "column", "value"] []
    match compareOpOf (entries.get "op") with
    | none => throw (invalidPlan (subject ++ ".op is invalid"))
    | some op => do
      let column ← boundedIdentifier (entries.get "column") (subject ++ ".column")
      let value ← decodedPredicateScalar (entries.get "value") (subject ++ ".value")
      pure (.compare op column value)
  | .text "in" => do
    exactKeys entries subject ["kind", "column", "values"] []
    let values ← strictArray (entries.get "values") (subject ++ ".values")
      CHARDB_SELECT_PLAN_MAX_IN_VALUES
    if values.length = 0 ∨ CHARDB_SELECT_PLAN_MAX_IN_VALUES < values.length then
      throw (invalidPlan (subject ++ ".values requires 1 through " ++
        toString CHARDB_SELECT_PLAN_MAX_IN_VALUES ++ " entries"))
    else
      let column ← boundedIdentifier (entries.get "column") (subject ++ ".column")
      let values ← values.zipIdx.mapM fun entry =>
        decodedPredicateScalar entry.1 (subject ++ ".values[" ++ toString entry.2 ++ "]")
      pure (.inList column values)
  | .text "between" => do
    exactKeys entries subject ["kind", "column", "lower", "upper"] []
    let column ← boundedIdentifier (entries.get "column") (subject ++ ".column")
    let lower ← decodedPredicateScalar (entries.get "lower") (subject ++ ".lower")
    let upper ← decodedPredicateScalar (entries.get "upper") (subject ++ ".upper")
    pure (.between column lower upper)
  | .text "null" => do
    exactKeys entries subject ["kind", "op", "column"] []
    match nullOpOf (entries.get "op") with
    | none => throw (invalidPlan (subject ++ ".op is invalid"))
    | some op => do
      let column ← boundedIdentifier (entries.get "column") (subject ++ ".column")
      pure (.null op column)
  | _ => throw (invalidPlan (subject ++ ".kind is invalid"))

def nodeKindOf : JsValue ν → Option NodeKind
  | .text s => [NodeKind.and, .or].find? fun kind => kind.word = s
  | _ => none

/-- The entries of the children of a node. -/
def childValues (entries : Entries ν) (subject : String) : Except Thrown (List (JsValue ν)) := do
  exactKeys entries subject ["kind", "predicates"] []
  let predicates ← strictArray (entries.get "predicates") (subject ++ ".predicates")
    CHARDB_SELECT_PLAN_MAX_CHILDREN
  if predicates.length < 2 ∨ CHARDB_SELECT_PLAN_MAX_CHILDREN < predicates.length then
    throw (invalidPlan (subject ++ ".predicates requires 2 through " ++
      toString CHARDB_SELECT_PLAN_MAX_CHILDREN ++ " entries"))
  else pure predicates

/-- `decodePredicate` at the depth that leaves `levels` more, its own included. -/
def decodePredicate (levels : Nat) (value : JsValue ν) (subject : String) :
    DecodeM (ChardbPlanPredicate ν) :=
  match levels with
  | 0 => throw (invalidPlan
      ("predicate nesting exceeds " ++ toString CHARDB_SELECT_PLAN_MAX_DEPTH))
  | levels + 1 => do
    countNode
    let entries ← objectEntries value subject
    match nodeKindOf (entries.get "kind") with
    | some kind => do
      let children ← childValues entries subject
      let predicates ← children.zipIdx.mapM fun child =>
        decodePredicate levels child.1 (subject ++ ".predicates[" ++ toString child.2 ++ "]")
      pure (.node kind predicates)
    | none => decodeLeaf entries subject

/-! ## Plans -/

def sortDirectionOf : JsValue ν → Option SortDirection
  | .text s => [SortDirection.asc, .desc].find? fun d => d.word = s
  | _ => none

def cardinalityOf : JsValue ν → Option Cardinality
  | .text s => [Cardinality.many, .one].find? fun c => c.word = s
  | _ => none

def decodeOrderItem (entry : JsValue ν × Nat) : Except Thrown OrderItem := do
  let subject := "plan.orderBy[" ++ toString entry.2 ++ "]"
  let item ← objectEntries entry.1 subject
  exactKeys item subject ["column", "direction"] []
  match sortDirectionOf (item.get "direction") with
  | none => throw (invalidPlan (subject ++ ".direction is invalid"))
  | some direction => do
    let column ← boundedIdentifier (item.get "column") (subject ++ ".column")
    pure ⟨column, direction⟩

def decodeOrderBy (value : JsValue ν) : Except Thrown (List OrderItem) := do
  let rawOrder ← strictArray value "plan.orderBy" CHARDB_SELECT_PLAN_MAX_ORDER_BY
  if rawOrder.length = 0 ∨ CHARDB_SELECT_PLAN_MAX_ORDER_BY < rawOrder.length then
    throw (invalidPlan ("plan.orderBy requires 1 through " ++
      toString CHARDB_SELECT_PLAN_MAX_ORDER_BY ++ " entries"))
  else rawOrder.zipIdx.mapM decodeOrderItem

/-- The number of a value that `Number.isSafeInteger` accepts. -/
def safeIntegerOf : JsValue ν → Option Int
  | .number x => JsNumber.toInt? x
  | _ => none

def decodeLimit (value : JsValue ν) : Except Thrown Int :=
  match safeIntegerOf value with
  | some n =>
    if 1 ≤ n ∧ n ≤ CHARDB_SELECT_PLAN_MAX_LIMIT then .ok n
    else .error (invalidPlan ("limit must be an integer from 1 through " ++
      toString CHARDB_SELECT_PLAN_MAX_LIMIT))
  | none => .error (invalidPlan ("limit must be an integer from 1 through " ++
      toString CHARDB_SELECT_PLAN_MAX_LIMIT))

/-- An optional key. -/
def Entries.optional {α : Type} (entries : Entries ν) (key : String)
    (decode : JsValue ν → Except Thrown α) : Except Thrown (Option α) :=
  if entries.has key then (decode (entries.get key)).map some else .ok none

def isText (value : JsValue ν) (s : String) : Bool :=
  match value with
  | .text t => t = s
  | _ => false

def decodeSelection (value : JsValue ν) : Except Thrown Unit := do
  let selection ← objectEntries value "plan.selection"
  exactKeys selection "plan.selection" ["kind"] []
  if isText (selection.get "kind") "all" then pure ()
  else throw (invalidPlan "plan.selection.kind must be all")

def decodeWhere (value : JsValue ν) : Except Thrown (ChardbPlanPredicate ν) := do
  let decoded ← decodePredicate CHARDB_SELECT_PLAN_MAX_DEPTH value "plan.where" ⟨0, 0⟩
  pure decoded.1

/-- The last check: the plan as JSON text. -/
def assertPlanBytes (plan : ChardbSelectPlan ν) : Except Thrown (ChardbSelectPlan ν) :=
  if CHARDB_SELECT_PLAN_MAX_BYTES < byteLength plan.toJson.stringify then
    .error (invalidPlan ("serialized size exceeds " ++ toString CHARDB_SELECT_PLAN_MAX_BYTES ++
      " bytes"))
  else .ok plan

def validateChardbSelectPlanV1 (value : JsValue ν) : Except Thrown (ChardbSelectPlan ν) := do
  let entries ← objectEntries value "plan"
  exactKeys entries "plan" ["version", "kind", "table", "selection", "cardinality"]
    ["where", "orderBy", "limit"]
  if safeIntegerOf (entries.get "version") ≠ some CHARDB_SELECT_PLAN_VERSION then
    throw (invalidPlan "version is unsupported")
  else if isText (entries.get "kind") "select" = false then
    throw (invalidPlan "kind must be select")
  else do
    decodeSelection (entries.get "selection")
    match cardinalityOf (entries.get "cardinality") with
    | none => throw (invalidPlan "cardinality is invalid")
    | some cardinality => do
      let predicate ← entries.optional "where" decodeWhere
      let orderBy ← entries.optional "orderBy" decodeOrderBy
      let limit ← entries.optional "limit" decodeLimit
      let table ← boundedIdentifier (entries.get "table") "plan.table"
      assertPlanBytes ⟨table, predicate, orderBy, limit, cardinality⟩

end

end Chardb.Plan
