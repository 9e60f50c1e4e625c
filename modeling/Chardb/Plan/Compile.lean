import Chardb.Plan.Placement
import Chardb.Plan.Walker

/-!
# Compiling conditions

`compileChardbSelectPlanPredicate` reads a plan predicate off the chunks of a condition, and
`predicateSql` builds a condition from a plan predicate with Drizzle's operators.
-/

namespace Chardb.Plan

open Chardb.Lib

variable {ν : Type}

/-- A `cdbTable`: the object, its SQL name, its entry in the schema, the keys of its columns in
their order, the columns of its primary key, and what each column makes of a value. -/
structure DrizzleTable (ν : Type) where
  ref : Nat
  name : String
  entry : SchemaTable
  keys : List String
  primaryKey : List String
  encode : String → ParamValue ν → Option (StoredValue ν)
  named : ∀ t, entry.resolveCdbMeta = .ok t → t.name = name

def DrizzleTable.column (t : DrizzleTable ν) (name : String) : DrizzleColumn := ⟨t.ref, t.name, name⟩

/-! ## From conditions to plans -/

/-- `unsupported` of `binding-plan.ts`. -/
def unsupportedBuilder (message : String) : Thrown :=
  .cdb { code := .unsupportedFeature, message := "DB select builder: " ++ message }

/-- `selectedColumn` of `binding-plan.ts`: the column is of the table object. -/
def selectedTableColumn (t : DrizzleTable ν) (chunk : SqlChunk ν) : Except Thrown String :=
  match chunk with
  | .column c =>
    if (c.table, c.tableName) ≠ (t.ref, t.name) then
      .error (unsupportedBuilder "predicates and ordering may reference only the selected table")
    else boundedIdentifier (.text c.name : JsValue ν) "column name"
  | _ => .error (unsupportedBuilder "predicates may reference only typed columns")

def badScalar (subject : String) : Thrown :=
  unsupportedBuilder (subject ++ " must be a JSON string, finite number, boolean, or null")

def parameter [JsNumber ν] (chunk : SqlChunk ν) (subject : String) :
    Except Thrown (ChardbPlanScalar ν) :=
  match chunk with
  | .param p =>
    match p.value with
    | .text s => .ok (.text s)
    | .bool b => .ok (.bool b)
    | .number x => if JsNumber.exact x then .ok (.number x) else .error (badScalar subject)
    | .null => .error (unsupportedBuilder (subject ++ " cannot be null; use isNull() or isNotNull()"))
    | _ => .error (badScalar subject)
  | _ => .error (unsupportedBuilder (subject ++ " must use a bound Drizzle value"))

def unsupportedShape : Thrown := unsupportedBuilder
  "predicate is outside the bounded eq/ne/range/inArray/between/null/and/or subset"

section
variable [JsNumber ν]

def compileIn (t : DrizzleTable ν) (column value : SqlChunk ν) :
    Except Thrown (ChardbPlanPredicate ν) := do
  let name ← selectedTableColumn t column
  match value with
  | .array items =>
    if items.length = 0 ∨ CHARDB_SELECT_PLAN_MAX_IN_VALUES < items.length then
      throw (invalidPlan ("inArray requires 1 through " ++
        toString CHARDB_SELECT_PLAN_MAX_IN_VALUES ++ " values"))
    else do
      let values ← items.zipIdx.mapM fun item =>
        parameter item.1 ("inArray value " ++ toString item.2)
      pure (.inList name values)
  | _ => throw (unsupportedBuilder "inArray must contain bound Drizzle values")

/-- The shapes without children. -/
def compileLeaf (t : DrizzleTable ν) (chunks : Sql ν) : Except Thrown (ChardbPlanPredicate ν) :=
  match chunks with
  | [column, .string text] =>
    match nullText text with
    | some op => do
      let name ← selectedTableColumn t column
      pure (.null op name)
    | none => throw unsupportedShape
  | [column, .string text, value] =>
    match compareText text with
    | some op => do
      let name ← selectedTableColumn t column
      let scalar ← parameter value (CompareOp.word op ++ " value")
      pure (.compare op name scalar)
    | none => if text = " in " then compileIn t column value else throw unsupportedShape
  | [column, .string between, lower, .string conj, upper] =>
    if between = " between " ∧ conj = " and " then do
      let name ← selectedTableColumn t column
      let lower ← parameter lower "between lower value"
      let upper ← parameter upper "between upper value"
      pure (.between name lower upper)
    else throw unsupportedShape
  | _ => throw unsupportedShape

/-- Compiling counts the conditions that it sees. -/
abbrev CompileM := StateT Nat (Except Thrown)

def countCondition (depth : Nat) : CompileM Unit := fun nodes =>
  if CHARDB_SELECT_PLAN_MAX_DEPTH < depth then
    .error (invalidPlan ("predicate nesting exceeds " ++ toString CHARDB_SELECT_PLAN_MAX_DEPTH))
  else if CHARDB_SELECT_PLAN_MAX_PREDICATES < nodes + 1 then
    .error (invalidPlan ("predicate count exceeds " ++ toString CHARDB_SELECT_PLAN_MAX_PREDICATES))
  else .ok ((), nodes + 1)

def compilePredicate (t : DrizzleTable ν) (depth : Nat) (chunks : Sql ν) :
    CompileM (ChardbPlanPredicate ν) := do
  countCondition depth
  match _h : onlySql (compact chunks) with
  | some only => compilePredicate t depth only
  | none =>
    match _h : matchConjunction (compact chunks) with
    | some (kind, children) =>
      if children.length < 2 ∨ CHARDB_SELECT_PLAN_MAX_CHILDREN < children.length then
        throw (invalidPlan (kind.word ++ " predicates require 2 through " ++
          toString CHARDB_SELECT_PLAN_MAX_CHILDREN ++ " children"))
      else do
        let predicates ← children.attach.mapM fun c => compilePredicate t (depth + 1) c.1
        pure (.node kind predicates)
    | none => liftM (compileLeaf t (compact chunks))
termination_by sizeOf chunks
decreasing_by
  · exact sizeOf_of_mem_compact (by rw [onlySql_eq_some _h]; exact List.mem_cons_self)
  · exact sizeOf_of_matchConjunction _h c.1 c.2

theorem attach_mapM {m : Type → Type} [Monad m] [LawfulMonad m] {α β : Type} (xs : List α)
    (f : α → m β) : (xs.attach.mapM fun x => f x.1) = xs.mapM f := by
  rw [List.mapM_subtype (g := f) fun _ _ => rfl, List.unattach_attach]

section
variable {t : DrizzleTable ν} {depth : Nat} {chunks : Sql ν}

theorem compilePredicate_only {only : Sql ν} (h : onlySql (compact chunks) = some only) :
    compilePredicate t depth chunks = (do countCondition depth; compilePredicate t depth only) := by
  rw [compilePredicate]
  congr 1
  funext _
  split <;> rename_i heq <;> rw [h] at heq <;> cases heq
  rfl

theorem compilePredicate_node {kind : NodeKind} {children : List (Sql ν)}
    (hs : onlySql (compact chunks) = none)
    (h : matchConjunction (compact chunks) = some (kind, children)) :
    compilePredicate t depth chunks = (do
      countCondition depth
      if children.length < 2 ∨ CHARDB_SELECT_PLAN_MAX_CHILDREN < children.length then
        throw (invalidPlan (kind.word ++ " predicates require 2 through " ++
          toString CHARDB_SELECT_PLAN_MAX_CHILDREN ++ " children"))
      else do
        let predicates ← children.mapM (compilePredicate t (depth + 1))
        pure (.node kind predicates)) := by
  rw [compilePredicate]
  congr 1
  funext _
  split
  · rename_i heq
    rw [hs] at heq
    cases heq
  · split <;> rename_i heq <;> rw [h] at heq <;> cases heq
    rw [attach_mapM]

theorem compilePredicate_leaf (hs : onlySql (compact chunks) = none)
    (h : matchConjunction (compact chunks) = none) :
    compilePredicate t depth chunks =
      (do countCondition depth; liftM (compileLeaf t (compact chunks))) := by
  rw [compilePredicate]
  congr 1
  funext _
  split
  · rename_i heq
    rw [hs] at heq
    cases heq
  · split
    · rename_i heq
      rw [h] at heq
      cases heq
    · rfl

end

/-- `compileChardbSelectPlanPredicate`, on a condition. -/
def compileChardbSelectPlanPredicate (expression : Sql ν) (t : DrizzleTable ν) :
    Except Thrown (ChardbPlanPredicate ν) := do
  let compiled ← compilePredicate t 1 expression 0
  pure compiled.1

end

/-! ## From plans to conditions -/

def ChardbPlanScalar.toParamValue : ChardbPlanScalar ν → ParamValue ν
  | .text s => .text s
  | .number x => .number x
  | .bool b => .bool b

def CompareOp.text : CompareOp → String
  | .eq => " = "
  | .ne => " <> "
  | .gt => " > "
  | .gte => " >= "
  | .lt => " < "
  | .lte => " <= "

def NullOp.text : NullOp → String
  | .isNull => " is null"
  | .isNotNull => " is not null"

def NodeKind.text : NodeKind → String
  | .and => " and "
  | .or => " or "

/-- A value bound to a column, with the encoder of the column. -/
def bindIfParam (t : DrizzleTable ν) (name : String) (value : ChardbPlanScalar ν) : Param ν :=
  ⟨value.toParamValue, t.encode name value.toParamValue⟩

/-- `sql.join(conditions, separator)`. -/
def sqlJoin (separator : String) : List (Sql ν) → Sql ν
  | [] => []
  | [c] => [.sql c]
  | c :: cs => .sql c :: .string separator :: sqlJoin separator cs

/-- `and(...children)` and `or(...children)`; `undefined` without children. -/
def combineSql (kind : NodeKind) : List (Sql ν) → Option (Sql ν)
  | [] => none
  | [c] => some [.sql c]
  | cs => some [.string "(", .sql (sqlJoin kind.text cs), .string ")"]

/-- `column` of `binding-plan-execution.ts`. -/
def planColumn (t : DrizzleTable ν) (name : String) : Except Thrown DrizzleColumn :=
  match columnNamed t.entry.columns name with
  | some _ => .ok (t.column name)
  | none => .error (invalidArgs ("DB select plan references unknown column " ++ name))

def emptyPredicate : Thrown := invalidArgs "DB select plan predicate is empty"

mutual
def predicateSql (t : DrizzleTable ν) : ChardbPlanPredicate ν → Except Thrown (Sql ν)
  | .compare op name value => do
    let left ← planColumn t name
    pure [.string "", .column left, .string (CompareOp.text op), .param (bindIfParam t name value),
      .string ""]
  | .inList name values => do
    let left ← planColumn t name
    pure [.string "", .column left, .string " in ",
      .array (values.map fun v => .param (bindIfParam t name v)), .string ""]
  | .between name lower upper => do
    let left ← planColumn t name
    pure [.string "", .column left, .string " between ", .param (bindIfParam t name lower),
      .string " and ", .param (bindIfParam t name upper), .string ""]
  | .null op name => do
    let left ← planColumn t name
    pure [.string "", .column left, .string op.text]
  | .node kind predicates => do
    let children ← predicateSqlAll t predicates
    match combineSql kind children with
    | some combined => pure combined
    | none => throw emptyPredicate

def predicateSqlAll (t : DrizzleTable ν) :
    List (ChardbPlanPredicate ν) → Except Thrown (List (Sql ν))
  | [] => pure []
  | p :: ps => do
    let c ← predicateSql t p
    let cs ← predicateSqlAll t ps
    pure (c :: cs)
end

end Chardb.Plan
