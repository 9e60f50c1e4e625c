import Chardb.Lib.CondText
import Chardb.Plan.Predicate

/-!
# Drizzle conditions

A condition is a list of chunks: texts, columns, bound values and further conditions. Its
SQL text is the texts of the chunks one after the other, without brackets of its own, so
that `and` and `or` inside a fragment mix with those around it. `render` keeps this: the
text of a condition is a list of alternatives, each a list of operands of `and`.
-/

namespace Chardb.Plan

open Chardb.Lib

/-! ## Chunks -/

/-- A typed column: its table object, the name of the table and its SQL name. -/
structure DrizzleColumn where
  table : Nat
  tableName : String
  name : String
  deriving DecidableEq

/-- `Param.value`; what is no scalar goes by identity. -/
inductive ParamValue (ν : Type)
  | undefined
  | null
  | text (s : String)
  | number (x : ν)
  | bool (b : Bool)
  | other (ref : Nat)
  deriving DecidableEq

/-- A bound value, with what its encoder hands to SQLite, in the storage class that the
comparison has it in. -/
structure Param (ν : Type) where
  value : ParamValue ν
  driver : Option (StoredValue ν)

inductive SqlChunk (ν : Type)
  | string (text : String)
  | column (c : DrizzleColumn)
  | param (p : Param ν)
  | sql (chunks : List (SqlChunk ν))
  | array (items : List (SqlChunk ν))
  | undefined
  | other (ref : Nat)

/-- `SQL`, by its `queryChunks`. -/
abbrev Sql (ν : Type) := List (SqlChunk ν)

variable {ν : Type}

def SqlChunk.isBlank : SqlChunk ν → Bool
  | .undefined => true
  | .string text => text = ""
  | _ => false

/-- Drop the chunks without a text. -/
def compact (chunks : Sql ν) : Sql ν := chunks.filter fun c => !c.isBlank

/-- The values of the bound values of an array. -/
def paramsOf : List (SqlChunk ν) → Option (List (Param ν))
  | [] => some []
  | .param p :: items => (paramsOf items).map (p :: ·)
  | _ => none

theorem sizeOf_of_mem_compact {chunks cs : Sql ν} (h : .sql cs ∈ compact chunks) :
    sizeOf cs < sizeOf chunks := by
  have hlt := List.sizeOf_lt_of_mem (List.mem_of_mem_filter h)
  have hsql : sizeOf (SqlChunk.sql cs) = 1 + sizeOf cs := by simp
  omega

/-! ## The text of a condition -/

/-- A row of the tables at hand, by table name and column name. -/
abbrev SqlRow (ν : Type) := String → String → Option (StoredValue ν)

abbrev SqlCond (ν : Type) := SqlRow ν → Option Bool

/-- The text of a condition. -/
abbrev Alternatives (ν : Type) := CondText (SqlRow ν)

def NodeKind.join : NodeKind → Alternatives ν → Alternatives ν → Alternatives ν
  | .and => joinAnd
  | .or => fun a b => a ++ b

def joinAll : List (Alternatives ν) → List NodeKind → Alternatives ν
  | a :: as, kind :: kinds => kind.join a (joinAll as kinds)
  | [a], [] => a
  | _, _ => []

/-- `NOT` before a text: it takes the first operand. -/
def negateFirst : Alternatives ν → Alternatives ν
  | (c :: operands) :: rest => ((fun row => (c row).map not) :: operands) :: rest
  | a => a

def separatorKind (text : String) : Option NodeKind :=
  if text = " and " then some .and else if text = " or " then some .or else none

/-- Conditions with `and` and `or` between them. -/
def separated : Sql ν → Option (List (Sql ν) × List NodeKind)
  | [.sql c] => some ([c], [])
  | .sql c :: .string text :: rest =>
    match separatorKind text, separated rest with
    | some kind, some (children, kinds) => some (c :: children, kind :: kinds)
    | _, _ => none
  | _ => none

/-- What stands in brackets. -/
def bracketed : Sql ν → Option (Sql ν)
  | [.string left, .sql middle, .string right] =>
    if left = "(" ∧ right = ")" then some (compact middle) else none
  | _ => none

def compareText (text : String) : Option CompareOp :=
  [(" = ", CompareOp.eq), (" <> ", .ne), (" > ", .gt), (" >= ", .gte), (" < ", .lt),
    (" <= ", .lte)].lookup text

def nullText (text : String) : Option NullOp :=
  if text = " is null" then some .isNull
  else if text = " is not null" then some .isNotNull
  else none

section
variable [LinearOrder ν]

/-- The cell of a column. -/
def cellOf (row : SqlRow ν) (c : DrizzleColumn) : Option (StoredValue ν) := row c.tableName c.name

/-- The comparisons that Drizzle's operators build. -/
def leafCond : Sql ν → Option (SqlCond ν)
  | [.column c, .string text] =>
    (nullText text).map fun op row => some (op.holds (cellOf row c))
  | [.column c, .string text, .param p] =>
    (compareText text).map fun op row => compareSql op (cellOf row c) p.driver
  | [.column c, .string text, .array items] =>
    if text = " in " then
      (paramsOf items).map fun params row => inSql (cellOf row c) (params.map Param.driver)
    else none
  | [.column c, .string between, .param lower, .string conj, .param upper] =>
    if between = " between " ∧ conj = " and " then
      some fun row => betweenSql (cellOf row c) lower.driver upper.driver
    else none
  | _ => none

end

/-- The members of a list of conditions are conditions of the list. -/
theorem mem_of_separated {cs : Sql ν} {children : List (Sql ν)} {kinds : List NodeKind}
    (h : separated cs = some (children, kinds)) : ∀ c ∈ children, SqlChunk.sql c ∈ cs := by
  fun_induction separated cs generalizing children kinds with
  | case1 c =>
    obtain ⟨rfl, rfl⟩ := Prod.mk.inj (Option.some.inj h)
    intro child hchild
    rw [List.mem_singleton.mp hchild]
    exact List.mem_cons_self
  | case2 c text rest kind children' kinds' hrest hkind ih =>
    obtain ⟨rfl, rfl⟩ := Prod.mk.inj (Option.some.inj h)
    intro child hchild
    rcases List.mem_cons.mp hchild with rfl | hchild
    · exact List.mem_cons_self
    · exact List.mem_cons_of_mem _ (List.mem_cons_of_mem _ (ih hrest child hchild))
  | case3 => cases h
  | case4 => cases h

theorem bracketed_eq_some {cs inner : Sql ν} (h : bracketed cs = some inner) :
    ∃ middle, cs = [.string "(", .sql middle, .string ")"] ∧ inner = compact middle := by
  unfold bracketed at h
  split at h
  · rename_i left middle right
    split at h
    · rename_i hsides
      obtain ⟨rfl, rfl⟩ := hsides
      exact ⟨middle, rfl, (Option.some.inj h).symm⟩
    · cases h
  · cases h

/-- What Drizzle's operators build: a condition alone, conditions in brackets, a negation, a
comparison, or none of these. -/
inductive Shape (ν : Type)
  | alone (only : Sql ν)
  | group (children : List (Sql ν)) (kinds : List NodeKind)
  | negation (c : Sql ν)
  | leaf (cond : SqlCond ν)
  | raw

def negated : Sql ν → Option (Sql ν)
  | [.string text, .sql c] => if text = "not " then some c else none
  | _ => none

theorem sizeOf_of_bracketed {chunks inner c : Sql ν} (hb : bracketed (compact chunks) = some inner)
    (hc : .sql c ∈ inner) : sizeOf c < sizeOf chunks := by
  obtain ⟨middle, hcs, rfl⟩ := bracketed_eq_some hb
  have hmiddle : sizeOf middle < sizeOf chunks :=
    sizeOf_of_mem_compact (by rw [hcs]; exact List.mem_cons_of_mem _ List.mem_cons_self)
  exact (sizeOf_of_mem_compact hc).trans hmiddle

theorem negated_eq_some {cs c : Sql ν} (h : negated cs = some c) :
    cs = [.string "not ", .sql c] := by
  unfold negated at h
  split at h
  · split at h
    · rename_i htext
      rw [htext, Option.some.inj h]
    · cases h
  · cases h

section
variable [LinearOrder ν]

def shapeOf (cs : Sql ν) : Shape ν :=
  match cs with
  | [.sql only] => .alone only
  | _ =>
    match (bracketed cs).bind separated with
    | some (children, kinds) => .group children kinds
    | none =>
      match negated cs with
      | some c => .negation c
      | none =>
        match leafCond cs with
        | some cond => .leaf cond
        | none => .raw

theorem shapeOf_alone {chunks only : Sql ν} (h : shapeOf (compact chunks) = .alone only) :
    sizeOf only < sizeOf chunks := by
  unfold shapeOf at h
  split at h
  · rename_i honly
    cases h
    exact sizeOf_of_mem_compact (by rw [honly]; exact List.mem_cons_self)
  · split at h
    · cases h
    · split at h
      · cases h
      · split at h <;> cases h

theorem shapeOf_group {chunks : Sql ν} {children : List (Sql ν)} {kinds : List NodeKind}
    (h : shapeOf (compact chunks) = .group children kinds) :
    ∀ c ∈ children, sizeOf c < sizeOf chunks := by
  unfold shapeOf at h
  split at h
  · cases h
  · split at h
    · rename_i children' kinds' hgroup
      cases h
      obtain ⟨inner, hb, hsep⟩ := Option.bind_eq_some_iff.mp hgroup
      exact fun c hc => sizeOf_of_bracketed hb (mem_of_separated hsep c hc)
    · split at h
      · cases h
      · split at h <;> cases h

theorem shapeOf_negation {chunks c : Sql ν} (h : shapeOf (compact chunks) = .negation c) :
    sizeOf c < sizeOf chunks := by
  unfold shapeOf at h
  split at h
  · cases h
  · split at h
    · cases h
    · split at h
      · rename_i hnegated
        cases h
        refine sizeOf_of_mem_compact ?_
        rw [negated_eq_some hnegated]
        exact List.mem_cons_of_mem _ List.mem_cons_self
      · split at h <;> cases h

/-- The text of a condition; `raw` is the text of fragments that no operator builds. -/
def render (raw : Sql ν → Alternatives ν) (chunks : Sql ν) : Alternatives ν :=
  match _h : shapeOf (compact chunks) with
  | .alone only => render raw only
  | .group children kinds =>
    [[(joinAll (children.attach.map fun c => render raw c.1) kinds).truth]]
  | .negation c => negateFirst (render raw c)
  | .leaf cond => [[cond]]
  | .raw => raw chunks
termination_by sizeOf chunks
decreasing_by
  · exact shapeOf_alone _h
  · exact shapeOf_group _h c.1 c.2
  · exact shapeOf_negation _h

/-- The truth of a condition on a row. -/
def truth (raw : Sql ν → Alternatives ν) (chunks : Sql ν) : SqlCond ν := (render raw chunks).truth

section
variable {raw : Sql ν → Alternatives ν} {chunks : Sql ν}

theorem render_alone {only : Sql ν} (h : shapeOf (compact chunks) = .alone only) :
    render raw chunks = render raw only := by
  rw [render]
  split <;> rename_i heq <;> rw [h] at heq <;> cases heq
  rfl

theorem render_group {children : List (Sql ν)} {kinds : List NodeKind}
    (h : shapeOf (compact chunks) = .group children kinds) :
    render raw chunks = [[(joinAll (children.map (render raw)) kinds).truth]] := by
  rw [render]
  split <;> rename_i heq <;> rw [h] at heq <;> cases heq
  rw [List.attach_map_val]

theorem render_leaf {cond : SqlCond ν} (h : shapeOf (compact chunks) = .leaf cond) :
    render raw chunks = [[cond]] := by
  rw [render]
  split <;> rename_i heq <;> rw [h] at heq <;> cases heq
  rfl

end

end

/-! ## Joined texts -/

theorem truth_single (cond : SqlCond ν) : CondText.truth [[cond]] = cond := CondText.truth_operand cond

end Chardb.Plan
