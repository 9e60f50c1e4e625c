import Chardb.Lib.Tx
import Mathlib.Data.List.Basic

/-!
# Tables with foreign keys

A store holds the rows of several tables. A statement changes rows of one table; the
foreign keys that refer to these rows then act on the rows of other tables, whose
changes make further foreign keys act. A statement that leaves a constraint broken
changes nothing.
-/

namespace Chardb.Lib

/-- What happens to the rows that refer to a row which goes away or changes its key. -/
inductive FkAction
  | noAction
  | restrict
  | cascade
  | setNull
  | setDefault
  deriving DecidableEq

/-- A foreign key, with its columns in pairs: of the child, of the parent. -/
structure ForeignKey (τ κ : Type) where
  child : τ
  parent : τ
  columns : List (κ × κ)
  onDelete : FkAction
  onUpdate : FkAction

/-- A row of a table. -/
structure StoredRow (τ κ ν : Type) where
  table : τ
  row : κ → ν

abbrev RowStore (τ κ ν : Type) := List (StoredRow τ κ ν)

/-- The rows of a table. -/
def RowStore.rows {τ κ ν : Type} [DecidableEq τ] (store : RowStore τ κ ν) (table : τ) :
    List (κ → ν) :=
  (store.filter fun e => e.table = table).map StoredRow.row

/-- What becomes of a row: there is none before an insert and none after a delete. -/
structure RowChange (τ κ ν : Type) where
  table : τ
  before : Option (κ → ν)
  after : Option (κ → ν)

inductive StatementError
  | restricted
  | tooDeep
  | violated
  deriving DecidableEq

/-- The constraints of a store. -/
structure RefSchema (τ κ ν : Type) where
  foreignKeys : List (ForeignKey τ κ)
  null : ν
  default : τ → κ → ν
  /-- How deep foreign keys may act on one another. -/
  maxDepth : Nat
  /-- The other constraints. -/
  satisfied : RowStore τ κ ν → Bool

/-- A statement of one table. -/
inductive Statement (τ κ ν : Type)
  | insert (table : τ) (rows : List (κ → ν))
  | update (table : τ) (p : (κ → ν) → Bool) (f : (κ → ν) → κ → ν)
  | delete (table : τ) (p : (κ → ν) → Bool)

def Statement.table {τ κ ν : Type} : Statement τ κ ν → τ
  | .insert table _ => table
  | .update table _ _ => table
  | .delete table _ => table

section
variable {τ κ ν : Type} [DecidableEq τ]

/-! ## Changes -/

/-- Change a row of the table that `p` selects. -/
def changeRow (table : τ) (p : (κ → ν) → Bool) (f : (κ → ν) → Option (κ → ν))
    (e : StoredRow τ κ ν) : Option (StoredRow τ κ ν) :=
  if e.table = table ∧ p e.row then (f e.row).map (StoredRow.mk table) else some e

/-- Change the rows that `p` selects. -/
def changeRows (store : RowStore τ κ ν) (table : τ) (p : (κ → ν) → Bool)
    (f : (κ → ν) → Option (κ → ν)) : RowStore τ κ ν × List (RowChange τ κ ν) :=
  (store.filterMap (changeRow table p f),
    ((store.rows table).filter p).map fun row => ⟨table, some row, f row⟩)

theorem changeRow_table {table : τ} {p : (κ → ν) → Bool} {f : (κ → ν) → Option (κ → ν)}
    {e e' : StoredRow τ κ ν} (h : changeRow table p f e = some e') : e'.table = e.table := by
  unfold changeRow at h
  split at h
  · rename_i hselected
    obtain ⟨row, -, rfl⟩ := Option.map_eq_some_iff.mp h
    exact hselected.1.symm
  · obtain rfl := Option.some.inj h
    rfl

theorem changeRow_other {table : τ} {p : (κ → ν) → Bool} {f : (κ → ν) → Option (κ → ν)}
    {e : StoredRow τ κ ν} (h : e.table ≠ table) : changeRow table p f e = some e :=
  if_neg fun hselected => h hselected.1

theorem changeRows_table {store : RowStore τ κ ν} {table : τ} {p : (κ → ν) → Bool}
    {f : (κ → ν) → Option (κ → ν)} : ∀ c ∈ (changeRows store table p f).2, c.table = table := by
  intro c hc
  obtain ⟨row, -, rfl⟩ := List.mem_map.mp hc
  rfl

/-- Other tables keep their rows. -/
theorem changeRows_other {store : RowStore τ κ ν} {table n : τ} {p : (κ → ν) → Bool}
    {f : (κ → ν) → Option (κ → ν)} (hn : n ≠ table) :
    (changeRows store table p f).1.rows n = store.rows n := by
  unfold changeRows RowStore.rows
  congr 1
  show (store.filterMap (changeRow table p f)).filter _ = store.filter _
  induction store with
  | nil => rfl
  | cons e store ih =>
    by_cases he : e.table = n
    · have hsame : changeRow table p f e = some e := changeRow_other (by rwa [he])
      rw [List.filterMap_cons_some hsame, List.filter_cons_of_pos (by simpa using he),
        List.filter_cons_of_pos (by simpa using he), ih]
    · rw [List.filter_cons_of_neg (by simpa using he), ← ih]
      cases hchange : changeRow table p f e with
      | none => rw [List.filterMap_cons_none hchange]
      | some e' =>
        have hne : e'.table ≠ n := changeRow_table hchange ▸ he
        rw [List.filterMap_cons_some hchange, List.filter_cons_of_neg (by simpa using hne)]

/-- Rows that are not selected are all there was. -/
theorem changeRows_nil {store : RowStore τ κ ν} {table : τ} {p : (κ → ν) → Bool}
    {f : (κ → ν) → Option (κ → ν)} (h : (changeRows store table p f).2 = []) :
    (changeRows store table p f).1 = store := by
  have hnone : ∀ e ∈ store, ¬(e.table = table ∧ p e.row = true) := by
    rintro e he ⟨htable, hp⟩
    have hmem : e.row ∈ (store.rows table).filter p :=
      List.mem_filter.mpr ⟨List.mem_map_of_mem (List.mem_filter.mpr ⟨he, by simpa using htable⟩), hp⟩
    rw [List.map_eq_nil_iff.mp h] at hmem
    cases hmem
  have hsame : ∀ e ∈ store, changeRow table p f e = some e := fun e he => if_neg (hnone e he)
  rw [changeRows, List.filterMap_congr hsame, List.filterMap_some]

/-- The rows of the statement itself. -/
def Statement.base (stmt : Statement τ κ ν) (store : RowStore τ κ ν) :
    RowStore τ κ ν × List (RowChange τ κ ν) :=
  match stmt with
  | .insert table rows =>
    (store ++ rows.map (StoredRow.mk table), rows.map fun row => ⟨table, none, some row⟩)
  | .update table p f => changeRows store table p fun row => some (f row)
  | .delete table p => changeRows store table p fun _ => none

theorem Statement.base_other {store : RowStore τ κ ν} {stmt : Statement τ κ ν} {n : τ} (hn : n ≠ stmt.table) :
    (stmt.base store).1.rows n = store.rows n := by
  cases stmt with
  | insert table rows =>
    have hnone : (rows.map (StoredRow.mk (κ := κ) (ν := ν) table)).filter (fun e => e.table = n) =
        [] := by
      refine List.filter_eq_nil_iff.mpr fun e he => ?_
      obtain ⟨row, -, rfl⟩ := List.mem_map.mp he
      exact fun h => hn (of_decide_eq_true h).symm
    simp [Statement.base, RowStore.rows, List.filter_append, hnone]
  | update table p f => exact changeRows_other hn
  | delete table p => exact changeRows_other hn

end

section
variable {τ κ ν : Type} [DecidableEq τ] [DecidableEq κ] [DecidableEq ν]

/-! ## Actions -/

/-- The row refers to the key that `row` holds. -/
def ForeignKey.refers (null : ν) (fk : ForeignKey τ κ) (row child : κ → ν) : Bool :=
  fk.columns.all fun c => child c.1 ≠ null && child c.1 = row c.2

/-- The row with other values in the columns of the foreign key. -/
def ForeignKey.put (fk : ForeignKey τ κ) (value : κ × κ → ν) (child : κ → ν) : κ → ν := fun col =>
  match fk.columns.find? fun c => c.1 = col with
  | some c => value c
  | none => child col

/-- The action that a change calls for: a delete, or an update of the key. -/
def ForeignKey.actionOn (fk : ForeignKey τ κ) (change : RowChange τ κ ν) :
    Option (FkAction × (κ → ν)) :=
  if fk.parent = change.table then
    match change.before, change.after with
    | some before, none => some (fk.onDelete, before)
    | some before, some after =>
      if fk.columns.any fun c => before c.2 ≠ after c.2 then some (fk.onUpdate, before) else none
    | none, _ => none
  else none

/-- What an action makes of a row that refers to the changed one. -/
def RefSchema.act (schema : RefSchema τ κ ν) (fk : ForeignKey τ κ) (change : RowChange τ κ ν)
    (child : κ → ν) : FkAction → Option (κ → ν)
  | .cascade => change.after.map fun after => fk.put (fun c => after c.2) child
  | .setNull => some (fk.put (fun _ => schema.null) child)
  | .setDefault => some (fk.put (fun c => schema.default fk.child c.1) child)
  | .noAction | .restrict => some child

/-- One foreign key acts on one change. -/
def RefSchema.fire (schema : RefSchema τ κ ν) (store : RowStore τ κ ν) (fk : ForeignKey τ κ)
    (change : RowChange τ κ ν) :
    Except StatementError (RowStore τ κ ν × List (RowChange τ κ ν)) :=
  match fk.actionOn change with
  | none => .ok (store, [])
  | some (.noAction, _) => .ok (store, [])
  | some (.restrict, before) =>
    if (store.rows fk.child).any (fk.refers schema.null before) then .error .restricted
    else .ok (store, [])
  | some (action, before) =>
    .ok (changeRows store fk.child (fk.refers schema.null before) fun child =>
      schema.act fk change child action)

/-- The foreign keys act on the changes one after another, each on what its actions change as
well. -/
def RefSchema.fireAll (schema : RefSchema τ κ ν) : Nat → List (RowChange τ κ ν) → RowStore τ κ ν →
    Except StatementError (RowStore τ κ ν × List (RowChange τ κ ν))
  | _, [], store => .ok (store, [])
  | 0, _ :: _, _ => .error .tooDeep
  | depth + 1, change :: changes, store =>
    ((change :: changes).flatMap fun c => schema.foreignKeys.map fun fk => (fk, c)).foldlM
      (fun done next => do
        let fired ← schema.fire done.1 next.1 next.2
        let nested ← RefSchema.fireAll schema depth fired.2 fired.1
        pure (nested.1, done.2 ++ fired.2 ++ nested.2)) (store, [])

/-! ## Statements -/

/-- Every row that names a key refers to a row. -/
def RefSchema.referencesHold (schema : RefSchema τ κ ν) (store : RowStore τ κ ν) : Bool :=
  schema.foreignKeys.all fun fk => (store.rows fk.child).all fun child =>
    fk.columns.any (fun c => child c.1 = schema.null) ||
      (store.rows fk.parent).any fun parent => fk.refers schema.null parent child

/-- What a statement changed: its own rows, and those that foreign keys acted on. -/
structure StatementResult (τ κ ν : Type) where
  store : RowStore τ κ ν
  direct : List (RowChange τ κ ν)
  acted : List (RowChange τ κ ν)

def RefSchema.execute (schema : RefSchema τ κ ν) (stmt : Statement τ κ ν) (store : RowStore τ κ ν) :
    Except StatementError (StatementResult τ κ ν) := do
  let direct := stmt.base store
  let acted ← schema.fireAll (schema.maxDepth + 1) direct.2 direct.1
  if schema.referencesHold acted.1 && schema.satisfied acted.1 then
    pure ⟨acted.1, direct.2, acted.2⟩
  else .error .violated

/-! ## What is left alone -/

variable {schema : RefSchema τ κ ν} {store : RowStore τ κ ν}

theorem RefSchema.fire_other {fk : ForeignKey τ κ} {change : RowChange τ κ ν}
    {fired : RowStore τ κ ν × List (RowChange τ κ ν)}
    (h : schema.fire store fk change = .ok fired) {n : τ} (hn : ∀ c ∈ fired.2, c.table ≠ n) :
    fired.1.rows n = store.rows n := by
  unfold RefSchema.fire at h
  split at h
  · obtain rfl := Except.ok.inj h; rfl
  · obtain rfl := Except.ok.inj h; rfl
  · split at h
    · cases h
    · obtain rfl := Except.ok.inj h; rfl
  · obtain rfl := Except.ok.inj h
    by_cases hchild : n = fk.child
    · subst hchild
      rw [changeRows_nil]
      exact List.eq_nil_iff_forall_not_mem.mpr fun c hc => hn c hc (changeRows_table c hc)
    · exact changeRows_other hchild

theorem RefSchema.fireAll_other {n : τ} : ∀ {depth : Nat} {changes : List (RowChange τ κ ν)}
    {store : RowStore τ κ ν} {fired : RowStore τ κ ν × List (RowChange τ κ ν)},
    schema.fireAll depth changes store = .ok fired → (∀ c ∈ fired.2, c.table ≠ n) →
      fired.1.rows n = store.rows n
  | _, [], store, fired, h, _ => by
    rw [RefSchema.fireAll] at h
    obtain rfl := Except.ok.inj h
    rfl
  | 0, _ :: _, _, _, h, _ => by
    rw [RefSchema.fireAll] at h
    cases h
  | depth + 1, change :: changes, store, fired, h, hn => by
    rw [RefSchema.fireAll] at h
    suffices hfold : ∀ (pending : List (ForeignKey τ κ × RowChange τ κ ν))
        (done fired : RowStore τ κ ν × List (RowChange τ κ ν)),
        pending.foldlM (fun done next => do
          let fired ← schema.fire done.1 next.1 next.2
          let nested ← RefSchema.fireAll schema depth fired.2 fired.1
          pure (nested.1, done.2 ++ fired.2 ++ nested.2)) done = .ok fired →
        (∀ c ∈ fired.2, c.table ≠ n) →
          fired.1.rows n = done.1.rows n ∧ ∀ c ∈ done.2, c.table ≠ n from (hfold _ _ _ h hn).1
    intro pending
    induction pending with
    | nil =>
      intro done fired h hn
      obtain rfl := Except.ok.inj h
      exact ⟨rfl, hn⟩
    | cons next pending ih =>
      intro done fired h hn
      rw [List.foldlM_cons] at h
      obtain ⟨mid, hmid, h⟩ := bind_ok h
      obtain ⟨once, honce, hmid⟩ := bind_ok hmid
      obtain ⟨nested, hnested, hmid⟩ := bind_ok hmid
      obtain rfl := Except.ok.inj hmid
      obtain ⟨hrows, hdone⟩ := ih _ _ h hn
      have hnest := RefSchema.fireAll_other hnested fun c hc =>
        hdone c (List.mem_append_right _ hc)
      have hfire := RefSchema.fire_other honce fun c hc =>
        hdone c (List.mem_append_left _ (List.mem_append_right _ hc))
      exact ⟨hrows.trans (hnest.trans hfire), fun c hc =>
        hdone c (List.mem_append_left _ (List.mem_append_left _ hc))⟩

/-- A table none of whose rows is changed by the statement or by an action stays as it is. -/
theorem RefSchema.execute_other {stmt : Statement τ κ ν} {result : StatementResult τ κ ν} {n : τ}
    (h : schema.execute stmt store = .ok result) (hstmt : n ≠ stmt.table)
    (hn : ∀ c ∈ result.acted, c.table ≠ n) : result.store.rows n = store.rows n := by
  obtain ⟨acted, hacted, h⟩ := bind_ok h
  split at h
  · obtain rfl := Except.ok.inj h
    exact (RefSchema.fireAll_other hacted hn).trans (Statement.base_other hstmt)
  · cases h

end

end Chardb.Lib
