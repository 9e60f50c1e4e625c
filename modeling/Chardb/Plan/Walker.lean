import Chardb.Core.Canonical
import Chardb.Plan.Drizzle

/-!
# The predicate walker

`walk` reads off a condition what it says about one column. `predicateInfo` makes of this
the values that the column can have and the intervals that they lie in.
-/

namespace Chardb.Plan

open Chardb.Lib

/-! ## Predicates about one column -/

inductive AtomOp
  | eq
  | inList
  | between
  | gt
  | gte
  | lt
  | lte
  deriving DecidableEq

structure Atom (ν : Type) where
  op : AtomOp
  values : List (ParamValue ν)

/-- `Predicate` of the walker; nodes are its `and` and `or`. -/
inductive ColumnPredicate (ν : Type)
  | atom (atom : Atom ν)
  | node (kind : NodeKind) (children : List (ColumnPredicate ν))
  | other

inductive WireEndpoint (ν : Type)
  | negInf
  | posInf
  | value (v : ParamValue ν) (inclusive : Bool)
  deriving DecidableEq

inductive WireInterval (ν : Type)
  | full
  | range (lo hi : WireEndpoint ν)
  deriving DecidableEq

/-- Intervals of a column; `full` says nothing about it. -/
inductive ObservedIntervals (ν : Type)
  | full
  | within (intervals : List (WireInterval ν))
  deriving DecidableEq

/-- `PartitionInfo`. -/
structure PartitionInfo (ν : Type) where
  values : Option (List (ParamValue ν))
  intervals : ObservedIntervals ν
  deriving DecidableEq

variable {ν : Type}

def FULL_INFO : PartitionInfo ν := ⟨none, .full⟩

/-! ## Reading conditions -/

def binaryOp (text : String) : Option AtomOp :=
  [(" = ", AtomOp.eq), (" > ", .gt), (" >= ", .gte), (" < ", .lt), (" <= ", .lte)].lookup text

def isPartitionColumn (c : DrizzleColumn) (table column : String) : Bool :=
  c.tableName = table && c.name = column

/-- Every second chunk is the separator, the others are conditions. -/
def conjunctionChildren (separator : String) : Sql ν → Option (List (Sql ν))
  | [.sql c] => some [c]
  | .sql c :: .string text :: rest =>
    if text = separator then (conjunctionChildren separator rest).map (c :: ·) else none
  | _ => none

def matchConjunction (chunks : Sql ν) : Option (NodeKind × List (Sql ν)) :=
  match chunks with
  | [.string left, .sql middle, .string right] =>
    if left ≠ "(" ∨ right ≠ ")" then none
    else
      let inner := compact middle
      if inner.length < 3 ∨ inner.length % 2 = 0 then none
      else
        match (inner[1]? : Option (SqlChunk ν)) with
        | some (.string text) =>
          match separatorKind text with
          | some kind => (conjunctionChildren text inner).map fun children => (kind, children)
          | none => none
        | _ => none
  | _ => none

/-- The comparisons that the walker knows, on the column at hand. -/
def walkLeaf (table column : String) (chunks : Sql ν) : ColumnPredicate ν :=
  match chunks with
  | [.column c, .string text, .array items] =>
    if text = " in " ∧ isPartitionColumn c table column then
      match paramsOf items with
      | some params => .atom ⟨.inList, params.map Param.value⟩
      | none => .other
    else .other
  | [.column c, .string text, .param p] =>
    match binaryOp text with
    | some op => if isPartitionColumn c table column then .atom ⟨op, [p.value]⟩ else .other
    | none => .other
  | [.column c, .string between, .param lower, .string conj, .param upper] =>
    if between = " between " ∧ conj = " and " ∧ isPartitionColumn c table column then
      .atom ⟨.between, [lower.value, upper.value]⟩
    else .other
  | _ => .other

theorem mem_of_conjunctionChildren {separator : String} {cs : Sql ν} {children : List (Sql ν)}
    (h : conjunctionChildren separator cs = some children) : ∀ c ∈ children, SqlChunk.sql c ∈ cs := by
  fun_induction conjunctionChildren separator cs generalizing children with
  | case1 c =>
    obtain rfl := Option.some.inj h
    intro child hchild
    rw [List.mem_singleton.mp hchild]
    exact List.mem_cons_self
  | case2 c rest ih =>
    obtain ⟨children', hrest, rfl⟩ := Option.map_eq_some_iff.mp h
    intro child hchild
    rcases List.mem_cons.mp hchild with rfl | hchild
    · exact List.mem_cons_self
    · exact List.mem_cons_of_mem _ (List.mem_cons_of_mem _ (ih hrest child hchild))
  | case3 => cases h
  | case4 => cases h

/-- A conjunction or disjunction is conditions in brackets with one separator between. -/
theorem matchConjunction_eq_some {cs : Sql ν} {kind : NodeKind} {children : List (Sql ν)}
    (h : matchConjunction cs = some (kind, children)) :
    ∃ inner text, bracketed cs = some inner ∧ 3 ≤ inner.length ∧ separatorKind text = some kind ∧
      conjunctionChildren text inner = some children := by
  unfold matchConjunction at h
  split at h
  · rename_i left middle right
    split at h
    · cases h
    · rename_i hsides
      rw [not_or, not_not, not_not] at hsides
      simp only at h
      split at h
      · cases h
      · rename_i hlength
        split at h
        · rename_i text _
          split at h
          · rename_i kind' hkind
            obtain ⟨children', hchildren, heq⟩ := Option.map_eq_some_iff.mp h
            obtain ⟨rfl, rfl⟩ := Prod.mk.inj heq
            refine ⟨compact middle, text, ?_, by omega, hkind, hchildren⟩
            unfold bracketed
            exact if_pos hsides
          · cases h
        · cases h
  · cases h

theorem sizeOf_of_matchConjunction {chunks : Sql ν} {kind : NodeKind} {children : List (Sql ν)}
    (h : matchConjunction (compact chunks) = some (kind, children)) :
    ∀ c ∈ children, sizeOf c < sizeOf chunks := by
  obtain ⟨inner, text, hb, -, -, hchildren⟩ := matchConjunction_eq_some h
  exact fun c hc => sizeOf_of_bracketed hb (mem_of_conjunctionChildren hchildren c hc)

/-- The one condition that the chunks wrap. -/
def onlySql : Sql ν → Option (Sql ν)
  | [.sql only] => some only
  | _ => none

theorem onlySql_eq_some {cs only : Sql ν} (h : onlySql cs = some only) : cs = [.sql only] := by
  unfold onlySql at h
  split at h
  · rw [Option.some.inj h]
  · cases h

/-- What a condition says about the column. -/
def walk (table column : String) (chunks : Sql ν) : ColumnPredicate ν :=
  match _h : onlySql (compact chunks) with
  | some only => walk table column only
  | none =>
    match _h : matchConjunction (compact chunks) with
    | some (kind, children) => .node kind (children.attach.map fun c => walk table column c.1)
    | none => walkLeaf table column (compact chunks)
termination_by sizeOf chunks
decreasing_by
  · exact sizeOf_of_mem_compact (by rw [onlySql_eq_some _h]; exact List.mem_cons_self)
  · exact sizeOf_of_matchConjunction _h c.1 c.2

section
variable {table column : String} {chunks : Sql ν}

theorem walk_only {only : Sql ν} (h : onlySql (compact chunks) = some only) :
    walk table column chunks = walk table column only := by
  rw [walk]
  split <;> rename_i heq <;> rw [h] at heq <;> cases heq
  rfl

theorem walk_node {kind : NodeKind} {children : List (Sql ν)}
    (hs : onlySql (compact chunks) = none)
    (h : matchConjunction (compact chunks) = some (kind, children)) :
    walk table column chunks = .node kind (children.map (walk table column)) := by
  rw [walk]
  split
  · rename_i heq
    rw [hs] at heq
    cases heq
  · split <;> rename_i heq <;> rw [h] at heq <;> cases heq
    rw [List.attach_map_val]

theorem walk_leaf (hs : onlySql (compact chunks) = none)
    (h : matchConjunction (compact chunks) = none) :
    walk table column chunks = walkLeaf table column (compact chunks) := by
  rw [walk]
  split
  · rename_i heq
    rw [hs] at heq
    cases heq
  · split
    · rename_i heq
      rw [h] at heq
      cases heq
    · rfl

end

/-! ### Shapes -/

theorem separated_of_conjunction {text : String} {kind : NodeKind} {inner : Sql ν}
    {children : List (Sql ν)} (hkind : separatorKind text = some kind)
    (h : conjunctionChildren text inner = some children) :
    children ≠ [] ∧ separated inner = some (children, List.replicate (children.length - 1) kind) := by
  fun_induction conjunctionChildren text inner generalizing children with
  | case1 c =>
    obtain rfl := Option.some.inj h
    exact ⟨List.cons_ne_nil _ _, rfl⟩
  | case2 c rest ih =>
    obtain ⟨children', hrest, rfl⟩ := Option.map_eq_some_iff.mp h
    obtain ⟨hne, hsep⟩ := ih hrest
    refine ⟨List.cons_ne_nil _ _, ?_⟩
    obtain ⟨d, ds, rfl⟩ := List.exists_cons_of_ne_nil hne
    rw [separated, hkind, hsep]
    rfl
  | case3 => cases h
  | case4 => cases h

/-- A conjunction or disjunction of the walker is one of the text. -/
theorem shapeOf_conjunction [LinearOrder ν] {cs : Sql ν} {kind : NodeKind} {children : List (Sql ν)}
    (h : matchConjunction cs = some (kind, children)) :
    children ≠ [] ∧ shapeOf cs = .group children (List.replicate (children.length - 1) kind) := by
  obtain ⟨inner, text, hb, -, hkind, hchildren⟩ := matchConjunction_eq_some h
  obtain ⟨hne, hsep⟩ := separated_of_conjunction hkind hchildren
  refine ⟨hne, ?_⟩
  have hgroup : (bracketed cs).bind separated =
      some (children, List.replicate (children.length - 1) kind) := by rw [hb]; exact hsep
  obtain ⟨middle, rfl, -⟩ := bracketed_eq_some hb
  unfold shapeOf
  simp only [hgroup]

theorem shapeOf_onlySql [LinearOrder ν] {cs only : Sql ν} (h : onlySql cs = some only) :
    shapeOf cs = .alone only := by
  rw [onlySql_eq_some h]
  rfl

/-! ## Values and intervals -/

def valueEndpoint (v : ParamValue ν) (inclusive : Bool) : WireEndpoint ν := .value v inclusive

def point (v : ParamValue ν) : WireInterval ν := .range (valueEndpoint v true) (valueEndpoint v true)

/-- `atom.values[i]`, unless it is `undefined`. -/
def Atom.valueAt (atom : Atom ν) (i : Nat) : Option (ParamValue ν) :=
  match atom.values[i]? with
  | some .undefined => none
  | v => v

/-- An interval from the first value, if there is one. -/
def Atom.from1 (atom : Atom ν) (interval : ParamValue ν → WireInterval ν) : List (WireInterval ν) :=
  (atom.valueAt 0).toList.map interval

def intervalsForAtom (atom : Atom ν) : List (WireInterval ν) :=
  match atom.op with
  | .eq => atom.from1 point
  | .inList => atom.values.map point
  | .between =>
    match atom.valueAt 0, atom.valueAt 1 with
    | some lo, some hi => [.range (valueEndpoint lo true) (valueEndpoint hi true)]
    | _, _ => []
  | .gt => atom.from1 fun v => .range (valueEndpoint v false) .posInf
  | .gte => atom.from1 fun v => .range (valueEndpoint v true) .posInf
  | .lt => atom.from1 fun v => .range .negInf (valueEndpoint v false)
  | .lte => atom.from1 fun v => .range .negInf (valueEndpoint v true)

section
variable [LinearOrder ν]

/-- `cmpScalar`, on finite numbers: values that are not of one scalar type count as equal. -/
def cmpScalar : ParamValue ν → ParamValue ν → Ordering
  | .text a, .text b => compare (utf16 a) (utf16 b)
  | .number a, .number b => compare a b
  | .bool a, .bool b => compare a.toNat b.toNat
  | _, _ => .eq

inductive Side
  | lo
  | hi
  deriving DecidableEq

def cmpEndpoint (a b : WireEndpoint ν) (side : Side) : Ordering :=
  match a, b with
  | .negInf, .negInf => .eq
  | .negInf, _ => .lt
  | _, .negInf => .gt
  | .posInf, .posInf => .eq
  | .posInf, _ => .gt
  | _, .posInf => .lt
  | .value v i, .value w j =>
    match cmpScalar v w with
    | .eq =>
      if i = j then .eq
      else match side with
        | .lo => if i then .lt else .gt
        | .hi => if i then .gt else .lt
    | c => c

def maxLo (a b : WireEndpoint ν) : WireEndpoint ν := if cmpEndpoint a b .lo ≠ .lt then a else b

def minHi (a b : WireEndpoint ν) : WireEndpoint ν := if cmpEndpoint a b .hi ≠ .gt then a else b

def leLoHi (lo hi : WireEndpoint ν) : Bool :=
  match lo, hi with
  | .negInf, _ => true
  | _, .posInf => true
  | .posInf, _ => false
  | _, .negInf => false
  | .value v i, .value w j =>
    match cmpScalar v w with
    | .lt => true
    | .gt => false
    | .eq => i && j

def intersectPair (a b : WireInterval ν) : Option (WireInterval ν) :=
  match a, b with
  | .full, b => some b
  | a, .full => some a
  | .range lo₁ hi₁, .range lo₂ hi₂ =>
    if leLoHi (maxLo lo₁ lo₂) (minHi hi₁ hi₂) then some (.range (maxLo lo₁ lo₂) (minHi hi₁ hi₂))
    else none

def intersectIntervals (a b : List (WireInterval ν)) : List (WireInterval ν) :=
  a.flatMap fun ai => b.filterMap fun bi => intersectPair ai bi

/-- The values of one list that the other has, by `===`. -/
def intersectValues (a b : List (ParamValue ν)) : List (ParamValue ν) := a.filter fun x => x ∈ b

/-- One more child of a conjunction. -/
def andStep (acc c : PartitionInfo ν) : PartitionInfo ν where
  values :=
    match acc.values, c.values with
    | acc, none => acc
    | none, some vs => some vs
    | some acc, some vs => some (intersectValues acc vs)
  intervals :=
    match acc.intervals, c.intervals with
    | acc, .full => acc
    | .full, .within is => .within is
    | .within acc, .within is => .within (intersectIntervals acc is)

def combineAnd (children : List (PartitionInfo ν)) : PartitionInfo ν := children.foldl andStep FULL_INFO

end

/-- One more child of a disjunction. -/
def orStep (acc c : PartitionInfo ν) : PartitionInfo ν where
  values :=
    match acc.values, c.values with
    | some acc, some vs => some (acc ++ vs)
    | _, _ => none
  intervals :=
    match acc.intervals, c.intervals with
    | .within acc, .within is => .within (acc ++ is)
    | _, _ => .full

def combineOr (children : List (PartitionInfo ν)) : PartitionInfo ν :=
  if children.isEmpty then FULL_INFO else children.foldl orStep ⟨some [], .within []⟩

section
variable [LinearOrder ν]

mutual
def predicateInfo : ColumnPredicate ν → PartitionInfo ν
  | .other => FULL_INFO
  | .atom a => ⟨if a.op = .eq ∨ a.op = .inList then some a.values else none, .within (intervalsForAtom a)⟩
  | .node .and children => combineAnd (predicateInfoAll children)
  | .node .or children => combineOr (predicateInfoAll children)

def predicateInfoAll : List (ColumnPredicate ν) → List (PartitionInfo ν)
  | [] => []
  | p :: ps => predicateInfo p :: predicateInfoAll ps
end

def intervalsForColumnPredicate (predicate : Sql ν) (table column : String) : ObservedIntervals ν :=
  (predicateInfo (walk table column predicate)).intervals

/-! ## Intents -/

inductive IntentKind
  | select
  | insert
  | update
  | delete
  deriving DecidableEq

inductive JoinShape
  | colocated
  | crossPartition
  deriving DecidableEq

structure PartitionKey (ν : Type) where
  table : String
  column : String
  values : List (ParamValue ν)

structure IndexIntervals (ν : Type) where
  table : String
  indexName : String
  intervals : List (WireInterval ν)

/-- `CdbIntent`, as the walker builds it. -/
structure CdbIntent (ν : Type) where
  kind : IntentKind
  tables : List String
  partitionKey : Option (PartitionKey ν)
  joinShape : JoinShape
  intervals : Option (IndexIntervals ν)

/-- `ExtractArgs`. -/
structure ExtractArgs (ν : Type) where
  tables : List String
  «where» : Option (Sql ν)

/-- A list that is there and not empty. -/
def nonempty? {α : Type} : List α → Option (List α)
  | [] => none
  | a :: as => some (a :: as)

def ObservedIntervals.nonempty? : ObservedIntervals ν → Option (List (WireInterval ν))
  | .full => none
  | .within is => Chardb.Plan.nonempty? is

/-- `[...new Set(values)]`. -/
def distinct {α : Type} [DecidableEq α] (values : List α) : List α := values.reverse.dedup.reverse

theorem mem_distinct {α : Type} [DecidableEq α] {values : List α} {v : α} :
    v ∈ distinct values ↔ v ∈ values := by
  rw [distinct, List.mem_reverse, List.mem_dedup, List.mem_reverse]

theorem nonempty?_eq_some {α : Type} {l l' : List α} (h : nonempty? l = some l') : l = l' := by
  cases l with
  | nil => cases h
  | cons a as => exact Option.some.inj h

def buildIntent (args : ExtractArgs ν) (kind : IntentKind) (partitionMap : List (String × String)) :
    CdbIntent ν :=
  let partition := args.tables.findSome? fun t =>
    (partitionMap.find? fun e => e.1 = t).map fun e => (t, e.2)
  match args.where, partition with
  | some condition, some (table, column) =>
    let info := predicateInfo (walk table column condition)
    let intervals := info.intervals.nonempty?.map fun is => ⟨table, column, is⟩
    match info.values.bind nonempty? with
    | some values =>
      ⟨kind, args.tables, some ⟨table, column, distinct values⟩, .colocated, intervals⟩
    | none => ⟨kind, args.tables, none, .crossPartition, intervals⟩
  | _, _ => ⟨kind, args.tables, none, .crossPartition, none⟩

end

end Chardb.Plan
