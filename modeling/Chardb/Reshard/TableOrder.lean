import Chardb.Core.Canonical
import Chardb.Lib.InsertionMap
import Chardb.Lib.KahnOrder
import Chardb.Lib.ExceptList
import Chardb.Reshard.Identity

/-!
# The order of the moving tables

`orderReshardTables` reads the foreign keys of the tables that move and puts every table after the
tables it references, so that each batch of a bulk copy finds the rows it refers to.
-/

namespace Chardb.Reshard

open Chardb.Lib

/-! ## The pragmas -/

structure TableColumn where
  name : String
  pk : Int
  deriving DecidableEq

structure ForeignKeyRow where
  id : Int
  seq : Int
  table : String
  deriving DecidableEq

/-- What SQLite answers about a table. -/
structure SchemaPragmas where
  tableInfo : String → List TableColumn
  foreignKeyList : String → List ForeignKeyRow

/-- `/^[A-Za-z_][A-Za-z0-9_]*$/`. -/
def isSqliteIdentifier (value : String) : Bool :=
  match value.toList with
  | [] => false
  | c :: cs => (c.isAlpha || c = '_') && cs.all fun c => c.isAlphanum || c = '_'

def quoteIdent (value : String) : Except Thrown String :=
  if isSqliteIdentifier value then .ok ("\"" ++ value ++ "\"")
  else .error (invariantError "reshard table metadata contains an invalid identifier")

structure ReshardTableLayout where
  primaryKey : List String

def readReshardTableLayout (sql : SchemaPragmas) (table : TableSpec) :
    Except Thrown ReshardTableLayout := do
  let _ ← quoteIdent table.name
  let columns := sql.tableInfo table.name
  if columns.length = 0 then
    .error (invariantError ("reshard destination table " ++ table.name ++ " is missing"))
  else
    let primaryKey := ((columns.filter fun c => 0 < c.pk).insertionSort
      fun left right => left.pk ≤ right.pk).map TableColumn.name
    if primaryKey.length = 0 then
      .error (phaseMismatch ("reshard table " ++ table.name ++ " has no declared primary key"))
    else .ok { primaryKey }

/-! ## The edges -/

/-- The tables that reference a table, and how many parents each table waits for. -/
structure TableEdges where
  children : InsertionMap String (List String)
  incoming : InsertionMap String Int

def addParent (byName : InsertionMap String TableSpec) (table : TableSpec) (g : TableEdges)
    (parent : String) : Except Thrown TableEdges :=
  if (byName.get? parent).isNone then
    .error (.cdb {
      code := .reshardPhaseMismatch
      message := "reshard table " ++ table.name ++ " references non-migrating table " ++ parent
      hint := some "move the complete foreign-key component in one split" })
  else
    let next := (g.children.get? parent).getD []
    if table.name ∈ next then .ok g
    else .ok {
      children := g.children.set parent (next ++ [table.name])
      incoming := g.incoming.set table.name ((g.incoming.get? table.name).getD 0 + 1) }

/-- The tables that a table references, each once. -/
def parentsOf (sql : SchemaPragmas) (name : String) : List String :=
  distinct ((sql.foreignKeyList name).map ForeignKeyRow.table)

def addTable (sql : SchemaPragmas) (byName : InsertionMap String TableSpec) (g : TableEdges)
    (table : TableSpec) : Except Thrown TableEdges := do
  let _ ← readReshardTableLayout sql table
  (parentsOf sql table.name).foldlM (addParent byName table) g

/-! ## The queue -/

structure TableQueue where
  ready : List String
  ordered : List TableSpec
  incoming : InsertionMap String Int

def releaseChild (q : TableQueue) (child : String) : TableQueue :=
  let count := (q.incoming.get? child).getD 0 - 1
  { q with
    incoming := q.incoming.set child count
    ready := if count = 0 then sortStrings (q.ready ++ [child]) else q.ready }

def placeTable (byName : InsertionMap String TableSpec)
    (children : InsertionMap String (List String)) (name : String) (rest : List String)
    (q : TableQueue) : TableQueue :=
  (sortStrings ((children.get? name).getD [])).foldl releaseChild
    { q with ready := rest, ordered := q.ordered ++ (byName.get? name).toList }

/-- The loop, for at most `n` turns. -/
def drainReady (byName : InsertionMap String TableSpec)
    (children : InsertionMap String (List String)) : Nat → TableQueue → TableQueue
  | 0, q => q
  | n + 1, q =>
    match q.ready with
    | [] => q
    | name :: rest => drainReady byName children n (placeTable byName children name rest q)

/-- The queue before the loop. -/
def firstReady (incoming : InsertionMap String Int) : TableQueue where
  ready := sortStrings ((incoming.entries.filter fun e => e.2 = 0).map Prod.fst)
  ordered := []
  incoming

def orderReshardTables (sql : SchemaPragmas) (tables : List TableSpec) :
    Except Thrown (List TableSpec) := do
  let byName := InsertionMap.ofEntries (tables.map fun table => (table.name, table))
  let g ← tables.foldlM (addTable sql byName)
    { children := .empty, incoming := .ofEntries (tables.map fun table => (table.name, (0 : Int))) }
  -- Every turn places a table, so the queue is empty after one turn for each of them.
  let ordered := (drainReady byName g.children tables.length (firstReady g.incoming)).ordered
  if ordered.length ≠ tables.length then
    throw (.cdb {
      code := .reshardPhaseMismatch
      message := "reshard tables contain a foreign-key cycle"
      hint := some "online resharding requires an acyclic parent-before-child bulk order" })
  pure ordered

/-! ## Tables by name -/

section
variable {sql : SchemaPragmas} {tables : List TableSpec}

theorem get?_ofEntries_map {ν : Type} (value : TableSpec → ν)
    (hnames : (tables.map TableSpec.name).Nodup) {name : String} {v : ν} :
    (InsertionMap.ofEntries (tables.map fun table => (table.name, value table))).get? name = some v ↔
      ∃ t ∈ tables, t.name = name ∧ value t = v := by
  have hkeys : ((tables.map fun table => (table.name, value table)).map Prod.fst).Nodup := by
    rw [List.map_map]
    exact hnames
  rw [InsertionMap.get?_eq_some, InsertionMap.ofEntries_entries hkeys, List.mem_map]
  simp only [Prod.mk.injEq]

theorem readReshardTableLayout_ok {table : TableSpec} :
    (∃ layout, readReshardTableLayout sql table = .ok layout) ↔
      isSqliteIdentifier table.name = true ∧ ∃ c ∈ sql.tableInfo table.name, 0 < c.pk := by
  have hkeys : ((((sql.tableInfo table.name).filter fun c => 0 < c.pk).insertionSort
      fun left right => left.pk ≤ right.pk).map TableColumn.name).length = 0 ↔
      ¬∃ c ∈ sql.tableInfo table.name, 0 < c.pk := by
    rw [List.length_map, List.length_insertionSort, List.length_eq_zero_iff, List.filter_eq_nil_iff]
    simp
  unfold readReshardTableLayout quoteIdent
  constructor
  · rintro ⟨layout, h⟩
    obtain ⟨_, hname, h⟩ := bind_ok h
    split at hname
    · rename_i hid
      refine ⟨hid, ?_⟩
      dsimp only at h
      split at h
      · cases h
      · split at h
        · cases h
        · rename_i hsome
          exact not_not.mp fun hnone => hsome (hkeys.mpr hnone)
    · cases hname
  · rintro ⟨hid, hpk⟩
    have hne : ¬(sql.tableInfo table.name).length = 0 := fun hzero => by
      obtain ⟨c, hc, -⟩ := hpk
      rw [List.eq_nil_of_length_eq_zero hzero] at hc
      cases hc
    have hsome := mt hkeys.mp (not_not.mpr hpk)
    exact ⟨_, by rw [if_pos hid]; exact (if_neg hne).trans (if_neg hsome)⟩

end

/-! ## The loop over the tables -/

/-- One more edge into the table. -/
def pushParent (table : TableSpec) (g : TableEdges) (parent : String) : TableEdges where
  children := g.children.set parent ((g.children.get? parent).getD [] ++ [table.name])
  incoming := g.incoming.set table.name ((g.incoming.get? table.name).getD 0 + 1)

section
variable {byName : InsertionMap String TableSpec} {table : TableSpec}

theorem addParent_ok {g g' : TableEdges} {parent : String}
    (hfresh : table.name ∉ (g.children.get? parent).getD []) :
    addParent byName table g parent = .ok g' ↔
      (byName.get? parent).isSome = true ∧ pushParent table g parent = g' := by
  unfold addParent
  cases hparent : byName.get? parent with
  | none => simp
  | some t =>
    rw [if_neg (by simp)]
    dsimp only
    rw [if_neg hfresh]
    simp [pushParent]

theorem pushParent_children (g : TableEdges) (parent p : String) :
    ((pushParent table g parent).children.get? p).getD [] =
      (g.children.get? p).getD [] ++ if p = parent then [table.name] else [] := by
  unfold pushParent
  rw [InsertionMap.get?_set]
  by_cases h : p = parent
  · rw [if_pos h, if_pos h, h]
    rfl
  · rw [if_neg h, if_neg h, List.append_nil]

theorem pushParent_incoming (g : TableEdges) (parent u : String) :
    ((pushParent table g parent).incoming.get? u).getD 0 =
      (g.incoming.get? u).getD 0 + if u = table.name then 1 else 0 := by
  unfold pushParent
  rw [InsertionMap.get?_set]
  by_cases h : u = table.name
  · rw [if_pos h, if_pos h, h]
    rfl
  · rw [if_neg h, if_neg h, add_zero]

theorem pushParent_keys {g : TableEdges} {parent : String}
    (h : table.name ∈ g.incoming.entries.map Prod.fst) :
    (pushParent table g parent).incoming.entries.map Prod.fst = g.incoming.entries.map Prod.fst :=
  (keys_setEntry _ _ _).trans (if_pos h)

theorem foldl_pushParent {ps : List String} (hps : ps.Nodup) {g : TableEdges}
    (hkey : table.name ∈ g.incoming.entries.map Prod.fst) :
    (∀ p, ((ps.foldl (pushParent table) g).children.get? p).getD [] =
        (g.children.get? p).getD [] ++ if p ∈ ps then [table.name] else []) ∧
      (∀ u, ((ps.foldl (pushParent table) g).incoming.get? u).getD 0 =
        (g.incoming.get? u).getD 0 + if u = table.name then (ps.length : Int) else 0) ∧
      (ps.foldl (pushParent table) g).incoming.entries.map Prod.fst =
        g.incoming.entries.map Prod.fst := by
  induction ps generalizing g with
  | nil => simp
  | cons parent ps ih =>
    obtain ⟨hparent, hps⟩ := List.nodup_cons.mp hps
    obtain ⟨hchildren, hincoming, hkeys⟩ :=
      ih hps (g := pushParent table g parent) (by rw [pushParent_keys hkey]; exact hkey)
    refine ⟨fun p => ?_, fun u => ?_, hkeys.trans (pushParent_keys hkey)⟩
    · rw [List.foldl_cons, hchildren, pushParent_children, List.append_assoc]
      by_cases h : p = parent
      · subst h
        simp [hparent]
      · simp [h]
    · rw [List.foldl_cons, hincoming, pushParent_incoming, List.length_cons]
      by_cases h : u = table.name
      · simp only [if_pos h]
        push_cast
        omega
      · simp only [if_neg h, add_zero]

theorem foldlM_addParent {ps : List String} (hps : ps.Nodup) {g g' : TableEdges}
    (hfresh : ∀ p, table.name ∉ (g.children.get? p).getD []) :
    ps.foldlM (addParent byName table) g = .ok g' ↔
      (∀ p ∈ ps, (byName.get? p).isSome = true) ∧ ps.foldl (pushParent table) g = g' := by
  suffices h : ∀ g : TableEdges, (∀ p ∈ ps, table.name ∉ (g.children.get? p).getD []) →
      (ps.foldlM (addParent byName table) g = .ok g' ↔
        (∀ p ∈ ps, (byName.get? p).isSome = true) ∧ ps.foldl (pushParent table) g = g') from
    h g fun p _ => hfresh p
  clear hfresh g
  induction ps with
  | nil =>
    intro g _
    simp [pure, Except.pure]
  | cons parent ps ih =>
    intro g hfresh
    obtain ⟨hparent, hps⟩ := List.nodup_cons.mp hps
    have hnext : ∀ p ∈ ps, table.name ∉ ((pushParent table g parent).children.get? p).getD [] := by
      intro p hp
      have hne : p ≠ parent := fun h => hparent (h ▸ hp)
      rw [pushParent_children, if_neg hne, List.append_nil]
      exact hfresh p (List.mem_cons_of_mem _ hp)
    have ih := ih hps (pushParent table g parent) hnext
    rw [List.foldlM_cons, List.forall_mem_cons, List.foldl_cons, and_assoc, ← ih]
    constructor
    · intro h
      obtain ⟨g₁, hfirst, h⟩ := bind_ok h
      obtain ⟨hsome, rfl⟩ := (addParent_ok (hfresh parent List.mem_cons_self)).mp hfirst
      exact ⟨hsome, h⟩
    · rintro ⟨hsome, h⟩
      rw [(addParent_ok (hfresh parent List.mem_cons_self)).mpr ⟨hsome, rfl⟩]
      exact h

end

/-- What the two maps hold when the tables named `done` have been read. -/
structure EdgesOf (sql : SchemaPragmas) (names done : List String) (g : TableEdges) : Prop where
  children : ∀ p, (g.children.get? p).getD [] = ReadyQueue.childrenOf done (parentsOf sql) p
  keys : g.incoming.entries.map Prod.fst = names
  incoming : ∀ u, (g.incoming.get? u).getD 0 = if u ∈ done then ((parentsOf sql u).length : Int) else 0

/-- A table that moves is laid out as the copy needs it. -/
def Movable (sql : SchemaPragmas) (table : TableSpec) : Prop :=
  isSqliteIdentifier table.name = true ∧ ∃ c ∈ sql.tableInfo table.name, 0 < c.pk

section
variable {sql : SchemaPragmas} {byName : InsertionMap String TableSpec} {names done : List String}

variable (byName) in
theorem addTable_spec {table : TableSpec} {g : TableEdges} (hg : EdgesOf sql names done g)
    (hname : table.name ∈ names) (hdone : table.name ∉ done) :
    (∀ g', addTable sql byName g table = .ok g' →
      (Movable sql table ∧ ∀ p ∈ parentsOf sql table.name, (byName.get? p).isSome = true) ∧
        EdgesOf sql names (done ++ [table.name]) g') ∧
    (Movable sql table → (∀ p ∈ parentsOf sql table.name, (byName.get? p).isSome = true) →
      ∃ g', addTable sql byName g table = .ok g') := by
  have hfresh : ∀ p, table.name ∉ (g.children.get? p).getD [] := by
    intro p hin
    rw [hg.children, ReadyQueue.childrenOf] at hin
    exact hdone (List.mem_filter.mp hin).1
  have hparents : (parentsOf sql table.name).Nodup := distinct_nodup _
  constructor
  · intro g' h
    obtain ⟨layout, hlayout, h⟩ := bind_ok h
    obtain ⟨hsome, rfl⟩ := (foldlM_addParent hparents hfresh).mp h
    obtain ⟨hchildren, hincoming, hkeys⟩ :=
      @foldl_pushParent table _ hparents g (hg.keys ▸ hname)
    refine ⟨⟨readReshardTableLayout_ok.mp ⟨layout, hlayout⟩, hsome⟩, fun p => ?_,
      hkeys.trans hg.keys, fun u => ?_⟩
    · rw [hchildren, hg.children, ReadyQueue.childrenOf, ReadyQueue.childrenOf, List.filter_append]
      by_cases hp : p ∈ parentsOf sql table.name <;> simp [hp]
    · rw [hincoming, hg.incoming]
      by_cases hu : u = table.name
      · subst hu
        simp [hdone]
      · simp [hu]
  · intro hmovable hsome
    obtain ⟨layout, hlayout⟩ := readReshardTableLayout_ok.mpr hmovable
    refine ⟨(parentsOf sql table.name).foldl (pushParent table) g, ?_⟩
    unfold addTable
    rw [hlayout]
    exact (foldlM_addParent hparents hfresh).mpr ⟨hsome, rfl⟩

variable (byName) in
theorem foldlM_addTable {rest : List TableSpec} {g : TableEdges} (hg : EdgesOf sql names done g)
    (hnames : names = done ++ rest.map TableSpec.name) (hnodup : names.Nodup) :
    (∀ g', rest.foldlM (addTable sql byName) g = .ok g' →
      (∀ t ∈ rest, Movable sql t ∧ ∀ p ∈ parentsOf sql t.name, (byName.get? p).isSome = true) ∧
        EdgesOf sql names names g') ∧
    ((∀ t ∈ rest, Movable sql t ∧ ∀ p ∈ parentsOf sql t.name, (byName.get? p).isSome = true) →
      ∃ g', rest.foldlM (addTable sql byName) g = .ok g') := by
  induction rest generalizing g done with
  | nil =>
    rw [List.map_nil, List.append_nil] at hnames
    subst hnames
    refine ⟨fun g' h => ⟨fun t ht => (by cases ht), ?_⟩, fun _ => ⟨g, rfl⟩⟩
    obtain rfl := Except.ok.inj h
    exact hg
  | cons t rest ih =>
    have hsplit : names = (done ++ [t.name]) ++ rest.map TableSpec.name := by
      rw [hnames, List.map_cons, List.append_assoc, List.singleton_append]
    have hname : t.name ∈ names := by
      rw [hnames]
      exact List.mem_append_right _ List.mem_cons_self
    have hdone : t.name ∉ done := fun hin =>
      (List.nodup_append.mp (hnames ▸ hnodup)).2.2 _ hin _ List.mem_cons_self rfl
    have hall := addTable_spec byName hg hname hdone
    rw [List.forall_mem_cons]
    constructor
    · intro g' h
      rw [List.foldlM_cons] at h
      obtain ⟨g₁, hfirst, h⟩ := bind_ok h
      obtain ⟨ht, hg₁⟩ := hall.1 _ hfirst
      obtain ⟨hrest, hg'⟩ := (ih hg₁ hsplit).1 g' h
      exact ⟨⟨ht, hrest⟩, hg'⟩
    · rintro ⟨ht, hrest⟩
      obtain ⟨g₁, hfirst⟩ := hall.2 ht.1 ht.2
      obtain ⟨-, hg₁⟩ := hall.1 _ hfirst
      obtain ⟨g', h⟩ := (ih hg₁ hsplit).2 hrest
      exact ⟨g', by rw [List.foldlM_cons, hfirst]; exact h⟩

end

/-! ## The loop over the queue -/

/-- The queue by the names of its tables. -/
def TableQueue.view (q : TableQueue) : ReadyQueue String where
  ready := q.ready
  ordered := q.ordered.map TableSpec.name
  incoming u := (q.incoming.get? u).getD 0

theorem releaseChild_view (q : TableQueue) (child : String) :
    (releaseChild q child).view = q.view.release sortStrings child := by
  have hincoming : (releaseChild q child).view.incoming =
      (q.view.release sortStrings child).incoming := by
    have hset : (releaseChild q child).incoming =
        q.incoming.set child ((q.incoming.get? child).getD 0 - 1) := rfl
    funext u
    show ((releaseChild q child).incoming.get? u).getD 0 =
      if u = child then (q.incoming.get? child).getD 0 - 1 else (q.incoming.get? u).getD 0
    rw [hset, InsertionMap.get?_set]
    by_cases h : u = child
    · rw [if_pos h, if_pos h]
      rfl
    · rw [if_neg h, if_neg h]
  have hrest : (releaseChild q child).view =
      { q.view.release sortStrings child with incoming := (releaseChild q child).view.incoming } := rfl
  rw [hrest, hincoming]

theorem foldl_releaseChild_view (cs : List String) (q : TableQueue) :
    (cs.foldl releaseChild q).view = cs.foldl (ReadyQueue.release sortStrings) q.view := by
  induction cs generalizing q with
  | nil => rfl
  | cons c cs ih => rw [List.foldl_cons, ih, releaseChild_view, List.foldl_cons]

theorem foldl_releaseChild_ordered (cs : List String) (q : TableQueue) :
    (cs.foldl releaseChild q).ordered = q.ordered := by
  induction cs generalizing q with
  | nil => rfl
  | cons c cs ih => rw [List.foldl_cons, ih, releaseChild]

section
variable {sql : SchemaPragmas} {names : List String} {byName : InsertionMap String TableSpec}
  {children : InsertionMap String (List String)}

theorem placeTable_view {name : String} {t : TableSpec} (hname : byName.get? name = some t)
    (ht : t.name = name)
    (hchildren : (children.get? name).getD [] = ReadyQueue.childrenOf names (parentsOf sql) name)
    (rest : List String) (q : TableQueue) :
    (placeTable byName children name rest q).view =
      q.view.visit sortStrings (ReadyQueue.childrenOf names (parentsOf sql)) name rest := by
  unfold placeTable ReadyQueue.visit
  rw [foldl_releaseChild_view, hchildren, hname]
  congr 1
  unfold TableQueue.view
  rw [List.map_append, Option.toList_some, List.map_singleton, ht]

theorem drainReady_view (hnodup : names.Nodup)
    (hbyName : ∀ name ∈ names, ∃ t, byName.get? name = some t ∧ t.name = name)
    (hchildren : ∀ p, (children.get? p).getD [] = ReadyQueue.childrenOf names (parentsOf sql) p)
    (n : Nat) {q : TableQueue} (h : q.view.Inv names (parentsOf sql)) :
    (drainReady byName children n q).view =
      q.view.drain sortStrings (ReadyQueue.childrenOf names (parentsOf sql)) n := by
  induction n generalizing q with
  | zero => rfl
  | succ n ih =>
    rw [drainReady, ReadyQueue.drain]
    have hready : q.view.ready = q.ready := rfl
    cases hcons : q.ready with
    | nil => rw [hready, hcons]
    | cons name rest =>
      rw [hready, hcons]
      dsimp only
      have hmem : name ∈ q.view.ordered ++ q.view.ready :=
        List.mem_append_right _ (hready ▸ hcons ▸ List.mem_cons_self)
      obtain ⟨t, hget, ht⟩ := hbyName name ((h.mem name).mp hmem).1
      have hview := placeTable_view hget ht (hchildren name) rest q
      rw [← hview]
      refine ih ?_
      rw [hview]
      exact ReadyQueue.inv_visit sortStrings_perm hnodup (fun _ => distinct_nodup _) h hcons

theorem drainReady_mem {tables : List TableSpec}
    (hbyName : ∀ {name t}, byName.get? name = some t → t ∈ tables) (n : Nat) {q : TableQueue}
    (h : ∀ t ∈ q.ordered, t ∈ tables) : ∀ t ∈ (drainReady byName children n q).ordered, t ∈ tables := by
  induction n generalizing q with
  | zero => exact h
  | succ n ih =>
    rw [drainReady]
    split
    · exact h
    · refine ih fun t ht => ?_
      rw [placeTable, foldl_releaseChild_ordered] at ht
      rcases List.mem_append.mp ht with ht | ht
      · exact h t ht
      · exact hbyName (Option.mem_toList.mp ht)

/-- The queue before the loop, by names. -/
def firstQueue (sql : SchemaPragmas) (names : List String) : ReadyQueue String where
  ready := sortStrings (names.filter fun u => ((parentsOf sql u).length : Int) = 0)
  ordered := []
  incoming u := if u ∈ names then ((parentsOf sql u).length : Int) else 0

theorem firstReady_view (hnodup : names.Nodup) {g : TableEdges} (hg : EdgesOf sql names names g) :
    (firstReady g.incoming).view = firstQueue sql names := by
  have hincoming : (firstReady g.incoming).view.incoming = (firstQueue sql names).incoming :=
    funext hg.incoming
  have hmem : ∀ u, u ∈ (g.incoming.entries.filter fun e => e.2 = 0).map Prod.fst ↔
      u ∈ names.filter fun u => ((parentsOf sql u).length : Int) = 0 := by
    intro u
    have hat := hg.incoming u
    rw [List.mem_map, List.mem_filter, decide_eq_true_eq]
    constructor
    · rintro ⟨e, he, rfl⟩
      obtain ⟨he, hzero⟩ := List.mem_filter.mp he
      have hname : e.1 ∈ names := hg.keys ▸ List.mem_map_of_mem he
      rw [InsertionMap.get?_eq_some.mpr he, if_pos hname, Option.getD_some] at hat
      exact ⟨hname, hat.symm.trans (of_decide_eq_true hzero)⟩
    · rintro ⟨hname, hzero⟩
      obtain ⟨e, he, rfl⟩ := List.mem_map.mp (hg.keys ▸ hname)
      rw [InsertionMap.get?_eq_some.mpr he, if_pos hname, Option.getD_some] at hat
      exact ⟨e, List.mem_filter.mpr ⟨he, decide_eq_true (hat.trans hzero)⟩, rfl⟩
  have hkeys : ((g.incoming.entries.filter fun e => e.2 = 0).map Prod.fst).Nodup :=
    g.incoming.nodup.sublist (List.filter_sublist.map _)
  have hready : (firstReady g.incoming).view.ready = (firstQueue sql names).ready :=
    sortStrings_congr ((List.perm_ext_iff_of_nodup hkeys (hnodup.filter _)).mpr hmem)
  have hrest : (firstReady g.incoming).view = {
      ready := (firstReady g.incoming).view.ready
      ordered := []
      incoming := (firstReady g.incoming).view.incoming } := rfl
  rw [hrest, hincoming, hready]
  rfl

theorem firstQueue_inv (hnodup : names.Nodup) :
    (firstQueue sql names).Inv names (parentsOf sql) := by
  refine ⟨fun t ht => ?_, ?_, fun t => ?_, fun {done t later} h => ?_⟩
  · simp [firstQueue, ht]
  · exact (sortStrings_perm _).nodup_iff.mpr (hnodup.filter _)
  · simp only [firstQueue, List.nil_append, mem_sortStrings, List.mem_filter, decide_eq_true_eq]
    constructor
    · rintro ⟨ht, hzero⟩
      exact ⟨ht, (if_pos ht).trans hzero⟩
    · rintro ⟨ht, hzero⟩
      exact ⟨ht, (if_pos ht).symm.trans hzero⟩
  · exact absurd h.symm (by simp [firstQueue])

theorem firstQueue_congr {names' : List String} (h : names'.Perm names) :
    firstQueue sql names' = firstQueue sql names := by
  unfold firstQueue
  rw [sortStrings_congr (h.filter _)]
  congr 1
  funext u
  simp only [h.mem_iff]

end

/-! ## The order -/

/-- A foreign key of a table that moves. -/
def References (sql : SchemaPragmas) (tables : List TableSpec) (child parent : String) : Prop :=
  ∃ t ∈ tables, t.name = child ∧ ∃ row ∈ sql.foreignKeyList child, row.table = parent

/-- Every table that is referenced moves too. -/
def ClosedUnderReferences (sql : SchemaPragmas) (tables : List TableSpec) : Prop :=
  ∀ t ∈ tables, ∀ row ∈ sql.foreignKeyList t.name, ∃ p ∈ tables, p.name = row.table

/-- No table reaches itself through foreign keys. -/
def AcyclicReferences (sql : SchemaPragmas) (tables : List TableSpec) : Prop :=
  ∀ name, ¬Relation.TransGen (References sql tables) name name

section
variable {sql : SchemaPragmas} {tables : List TableSpec}

theorem mem_parentsOf {name parent : String} :
    parent ∈ parentsOf sql name ↔ ∃ row ∈ sql.foreignKeyList name, row.table = parent := by
  rw [parentsOf, mem_distinct, List.mem_map]

theorem references_iff {child parent : String} : References sql tables child parent ↔
    child ∈ tables.map TableSpec.name ∧ parent ∈ parentsOf sql child := by
  rw [mem_parentsOf, List.mem_map]
  constructor
  · rintro ⟨t, ht, rfl, hrow⟩
    exact ⟨⟨t, ht, rfl⟩, hrow⟩
  · rintro ⟨⟨t, ht, rfl⟩, hrow⟩
    exact ⟨t, ht, rfl, hrow⟩

theorem references_eq : References sql tables = fun child parent =>
    child ∈ tables.map TableSpec.name ∧ parent ∈ parentsOf sql child :=
  funext fun _ => funext fun _ => propext references_iff

/-- The tables by name, as the code keeps them. -/
def tablesByName (tables : List TableSpec) : InsertionMap String TableSpec :=
  .ofEntries (tables.map fun table => (table.name, table))

/-- The edges before the first table. -/
def noEdges (tables : List TableSpec) : TableEdges where
  children := .empty
  incoming := .ofEntries (tables.map fun table => (table.name, (0 : Int)))

section
variable (hnames : (tables.map TableSpec.name).Nodup)
include hnames

theorem tablesByName_get? {name : String} {t : TableSpec} :
    (tablesByName tables).get? name = some t ↔ t ∈ tables ∧ t.name = name :=
  (get?_ofEntries_map id hnames).trans
    ⟨fun ⟨_, hu, hname, h⟩ => h ▸ ⟨hu, hname⟩, fun ⟨ht, hname⟩ => ⟨t, ht, hname, rfl⟩⟩

theorem tablesByName_isSome {name : String} :
    ((tablesByName tables).get? name).isSome = true ↔ ∃ t ∈ tables, t.name = name := by
  rw [Option.isSome_iff_exists]
  exact exists_congr fun t => tablesByName_get? hnames

variable (sql) in
theorem noEdges_edgesOf : EdgesOf sql (tables.map TableSpec.name) [] (noEdges tables) := by
  refine ⟨fun p => rfl, ?_, fun u => ?_⟩
  · have hkeys : ((tables.map fun table => (table.name, (0 : Int))).map Prod.fst).Nodup := by
      rw [List.map_map]
      exact hnames
    unfold noEdges
    rw [InsertionMap.ofEntries_entries hkeys, List.map_map]
    rfl
  · rw [if_neg List.not_mem_nil]
    cases h : (noEdges tables).incoming.get? u with
    | none => rfl
    | some v =>
      obtain ⟨_, -, -, rfl⟩ := (get?_ofEntries_map (fun _ => (0 : Int)) hnames).mp h
      rfl

theorem tablesByName_name {name : String} (h : name ∈ tables.map TableSpec.name) :
    ∃ t, (tablesByName tables).get? name = some t ∧ t.name = name := by
  obtain ⟨t, ht, hname⟩ := List.mem_map.mp h
  exact ⟨t, (tablesByName_get? hnames).mpr ⟨ht, hname⟩, hname⟩

/-- The edges are read when every table can move and what it references moves too. -/
theorem edges_ok :
    (∃ g, tables.foldlM (addTable sql (tablesByName tables)) (noEdges tables) = .ok g) ↔
      (∀ t ∈ tables, Movable sql t) ∧ ClosedUnderReferences sql tables := by
  have hspec := foldlM_addTable (tablesByName tables) (noEdges_edgesOf sql hnames)
    (List.nil_append _).symm hnames
  have hclosed : (∀ t ∈ tables, Movable sql t ∧ ∀ p ∈ parentsOf sql t.name,
      ((tablesByName tables).get? p).isSome = true) ↔
        (∀ t ∈ tables, Movable sql t) ∧ ClosedUnderReferences sql tables := by
    constructor
    · intro h
      refine ⟨fun t ht => (h t ht).1, fun t ht row hrow => ?_⟩
      exact (tablesByName_isSome hnames).mp ((h t ht).2 row.table (mem_parentsOf.mpr ⟨row, hrow, rfl⟩))
    · rintro ⟨hmovable, hclosed⟩ t ht
      refine ⟨hmovable t ht, fun p hp => ?_⟩
      obtain ⟨row, hrow, rfl⟩ := mem_parentsOf.mp hp
      exact (tablesByName_isSome hnames).mpr (hclosed t ht row hrow)
  rw [← hclosed]
  exact ⟨fun ⟨g, hg⟩ => (hspec.1 g hg).1, hspec.2⟩

end

/-- The loop over the names alone. -/
def drained (sql : SchemaPragmas) (names : List String) : ReadyQueue String :=
  (firstQueue sql names).drain sortStrings (ReadyQueue.childrenOf names (parentsOf sql)) names.length

variable (sql) in
theorem drained_inv {names : List String} (h : names.Nodup) :
    (drained sql names).Inv names (parentsOf sql) :=
  ReadyQueue.inv_drain sortStrings_perm h (fun _ => distinct_nodup _) _ (firstQueue_inv h)

theorem drained_ready {names : List String} (h : names.Nodup) : (drained sql names).ready = [] :=
  ReadyQueue.drain_ready sortStrings_perm h (fun _ => distinct_nodup _) (firstQueue_inv h)
    (Nat.le_add_right _ _)

theorem drained_congr {names names' : List String} (h : names'.Perm names) :
    drained sql names' = drained sql names := by
  unfold drained
  rw [firstQueue_congr h, h.length_eq]
  exact ReadyQueue.drain_congr (fun p => sortStrings_congr (h.filter _)) _ _

/-- The tables in the order in which the loop places them. -/
def placed (tables : List TableSpec) (g : TableEdges) : List TableSpec :=
  (drainReady (tablesByName tables) g.children tables.length (firstReady g.incoming)).ordered

theorem orderReshardTables_eq_ok {ordered : List TableSpec} :
    orderReshardTables sql tables = .ok ordered ↔
      ∃ g, tables.foldlM (addTable sql (tablesByName tables)) (noEdges tables) = .ok g ∧
        (placed tables g).length = tables.length ∧ placed tables g = ordered := by
  constructor
  · intro h
    obtain ⟨g, hg, h⟩ := bind_ok h
    dsimp only at h
    split at h
    · cases h
    · rename_i hlength
      exact ⟨g, hg, not_not.mp hlength, Except.ok.inj h⟩
  · rintro ⟨g, hg, hlength, rfl⟩
    unfold tablesByName noEdges at hg
    unfold orderReshardTables
    dsimp only
    rw [hg]
    exact if_neg (not_not.mpr hlength)

section
variable (hnames : (tables.map TableSpec.name).Nodup)
include hnames

theorem placed_spec {g : TableEdges}
    (hg : tables.foldlM (addTable sql (tablesByName tables)) (noEdges tables) = .ok g) :
    (placed tables g).map TableSpec.name = (drained sql (tables.map TableSpec.name)).ordered ∧
      ∀ t ∈ placed tables g, t ∈ tables := by
  have hedges := ((foldlM_addTable (tablesByName tables) (noEdges_edgesOf sql hnames)
    (List.nil_append _).symm hnames).1 g hg).2
  have hfirst := firstReady_view hnames hedges
  have hview := drainReady_view hnames (fun _ => tablesByName_name hnames) hedges.children
    tables.length (hfirst ▸ firstQueue_inv hnames)
  refine ⟨?_, drainReady_mem (fun h => ((tablesByName_get? hnames).mp h).1) _ fun t ht => (by cases ht)⟩
  rw [hfirst] at hview
  unfold drained
  rw [List.length_map, ← hview]
  rfl

/-- A complete order has each table once. -/
theorem placed_perm {g : TableEdges}
    (hg : tables.foldlM (addTable sql (tablesByName tables)) (noEdges tables) = .ok g)
    (hlength : (placed tables g).length = tables.length) : (placed tables g).Perm tables := by
  obtain ⟨hplaced, hmem⟩ := placed_spec hnames hg
  have hnodup : ((placed tables g).map TableSpec.name).Nodup := by
    rw [hplaced]
    exact (List.nodup_append.mp (drained_inv sql hnames).nodup).1
  exact (List.subperm_of_subset (List.Nodup.of_map _ hnodup) hmem).perm_of_length_le hlength.ge

theorem orderReshardTables_isOk :
    (∃ ordered, orderReshardTables sql tables = .ok ordered) ↔
      (∀ t ∈ tables, Movable sql t) ∧ ClosedUnderReferences sql tables ∧
        AcyclicReferences sql tables := by
  have hinv := drained_inv sql hnames
  unfold AcyclicReferences
  rw [← and_assoc, ← edges_ok hnames, references_eq]
  constructor
  · rintro ⟨ordered, h⟩
    obtain ⟨g, hg, hlength, -⟩ := orderReshardTables_eq_ok.mp h
    refine ⟨⟨g, hg⟩, hinv.acyclic fun name hname => ?_⟩
    obtain ⟨t, ht, rfl⟩ := List.mem_map.mp hname
    rw [← (placed_spec hnames hg).1]
    exact List.mem_map_of_mem ((placed_perm hnames hg hlength).mem_iff.mpr ht)
  · rintro ⟨⟨g, hg⟩, hacyclic⟩
    have hclosed := ((edges_ok hnames).mp ⟨g, hg⟩).2
    have hall := hinv.complete (drained_ready hnames) (fun name hname p hp => ?_) hacyclic
    · refine ⟨_, orderReshardTables_eq_ok.mpr ⟨g, hg, le_antisymm ?_ ?_, rfl⟩⟩
      · have hle := hinv.length_le
        rw [drained_ready hnames, List.append_nil, ← (placed_spec hnames hg).1] at hle
        simpa using hle
      · have hle := (List.subperm_of_subset hnames hall).length_le
        rw [← (placed_spec hnames hg).1] at hle
        simpa using hle
    · obtain ⟨t, ht, rfl⟩ := List.mem_map.mp hname
      obtain ⟨row, hrow, rfl⟩ := mem_parentsOf.mp hp
      obtain ⟨parent, hparent, hname⟩ := hclosed t ht row hrow
      exact hname ▸ List.mem_map_of_mem hparent

/-- Tables of distinct names are the same when their names are. -/
theorem eq_of_map_name_eq {xs ys : List TableSpec} (hxs : ∀ t ∈ xs, t ∈ tables)
    (hys : ∀ t ∈ ys, t ∈ tables) (h : xs.map TableSpec.name = ys.map TableSpec.name) : xs = ys := by
  induction xs generalizing ys with
  | nil => exact (List.map_eq_nil_iff.mp h.symm).symm
  | cons x xs ih =>
    cases ys with
    | nil => cases h
    | cons y ys =>
      obtain ⟨hhead, htail⟩ := List.cons.inj h
      obtain rfl := List.inj_on_of_nodup_map hnames (hxs x List.mem_cons_self)
        (hys y List.mem_cons_self) hhead
      rw [ih (fun t ht => hxs t (List.mem_cons_of_mem _ ht))
        (fun t ht => hys t (List.mem_cons_of_mem _ ht)) htail]

end

end

/-- For tables of distinct names that can move, there is an order exactly when each references
tables of the move only and none reaches itself; it has each table once, after all tables it
references, and does not depend on the order in which the tables were listed. -/
theorem orderReshardTables_topological {sql : SchemaPragmas} {tables : List TableSpec}
    (hnames : (tables.map TableSpec.name).Nodup) :
    ((∃ ordered, orderReshardTables sql tables = .ok ordered) ↔
      (∀ t ∈ tables, Movable sql t) ∧ ClosedUnderReferences sql tables ∧
        AcyclicReferences sql tables) ∧
    ∀ ordered, orderReshardTables sql tables = .ok ordered →
      ordered.Perm tables ∧
      (∀ done t later, ordered = done ++ t :: later →
        ∀ row ∈ sql.foreignKeyList t.name, ∃ p ∈ done, p.name = row.table) ∧
      ∀ tables' : List TableSpec, tables'.Perm tables →
        orderReshardTables sql tables' = .ok ordered := by
  refine ⟨orderReshardTables_isOk hnames, fun ordered h => ?_⟩
  obtain ⟨g, hg, hlength, rfl⟩ := orderReshardTables_eq_ok.mp h
  obtain ⟨hplaced, hmem⟩ := placed_spec hnames hg
  refine ⟨placed_perm hnames hg hlength, fun done t later hsplit row hrow => ?_,
    fun tables' hperm => ?_⟩
  · have hsplit' := hplaced.symm
    rw [hsplit, List.map_append, List.map_cons] at hsplit'
    obtain ⟨p, hp, hname⟩ := List.mem_map.mp <|
      (drained_inv sql hnames).first hsplit' row.table (mem_parentsOf.mpr ⟨row, hrow, rfl⟩)
    exact ⟨p, hp, hname⟩
  · have hnames' : (tables'.map TableSpec.name).Nodup := (hperm.map _).nodup_iff.mpr hnames
    obtain ⟨hmovable, hclosed, hacyclic⟩ := (orderReshardTables_isOk hnames).mp ⟨_, h⟩
    have hreferences : References sql tables' = References sql tables := by
      funext child parent
      unfold References
      simp only [hperm.mem_iff]
    have hok' : ∃ ordered', orderReshardTables sql tables' = .ok ordered' :=
      (orderReshardTables_isOk hnames').mpr ⟨fun t ht => hmovable t (hperm.mem_iff.mp ht), fun t ht row hrow => by
        obtain ⟨p, hp, hname⟩ := hclosed t (hperm.mem_iff.mp ht) row hrow
        exact ⟨p, hperm.mem_iff.mpr hp, hname⟩, by
        unfold AcyclicReferences
        rw [hreferences]
        exact hacyclic⟩
    obtain ⟨ordered', h'⟩ := hok'
    obtain ⟨g', hg', hlength', rfl⟩ := orderReshardTables_eq_ok.mp h'
    obtain ⟨hplaced', hmem'⟩ := placed_spec hnames' hg'
    rw [h', eq_of_map_name_eq hnames (fun t ht => hperm.mem_iff.mp (hmem' t ht)) hmem]
    rw [hplaced', hplaced, drained_congr (hperm.map _)]

/-- Tasks reference their project. -/
def projectSchema : SchemaPragmas where
  tableInfo _ := [⟨"id", 1⟩, ⟨"projectId", 0⟩]
  foreignKeyList name := if name = "tasks" then [⟨0, 0, "projects"⟩] else []

def projectTables : List TableSpec :=
  [⟨"tasks", "projectId", ["id", "projectId"]⟩, ⟨"projects", "id", ["id", "projectId"]⟩]

theorem orderReshardTables_topological_projects :
    AcyclicReferences projectSchema projectTables ∧
      orderReshardTables projectSchema projectTables.reverse = .ok projectTables.reverse := by
  have hok : orderReshardTables projectSchema projectTables = .ok projectTables.reverse := by rfl
  obtain ⟨hisOk, horder⟩ := @orderReshardTables_topological projectSchema
    projectTables (by decide)
  exact ⟨(hisOk.mp ⟨_, hok⟩).2.2,
    (horder _ hok).2.2 projectTables.reverse projectTables.reverse_perm⟩

/-- A table without a primary key does not move, although it references nothing. -/
theorem orderReshardTables_without_primary_key :
    ¬∀ (sql : SchemaPragmas) (tables : List TableSpec), (tables.map TableSpec.name).Nodup →
      ClosedUnderReferences sql tables → AcyclicReferences sql tables →
        ∃ ordered, orderReshardTables sql tables = .ok ordered := by
  intro h
  have hnone : ∀ child parent,
      ¬References ⟨fun _ => [⟨"id", 0⟩], fun _ => []⟩ [⟨"notes", "id", ["id"]⟩] child parent := by
    rintro child parent ⟨_, _, _, row, hrow, _⟩
    cases hrow
  obtain ⟨ordered, hok⟩ := h ⟨fun _ => [⟨"id", 0⟩], fun _ => []⟩ [⟨"notes", "id", ["id"]⟩]
    (by decide) (fun _ _ row hrow => (by cases hrow)) fun name hcycle => by
      obtain ⟨parent, hfirst, _⟩ := Relation.TransGen.head'_iff.mp hcycle
      exact hnone name parent hfirst
  have herror : orderReshardTables ⟨fun _ => [⟨"id", 0⟩], fun _ => []⟩ [⟨"notes", "id", ["id"]⟩] =
      .error (phaseMismatch "reshard table notes has no declared primary key") := by rfl
  exact absurd (herror.symm.trans hok) (by simp)

end Chardb.Reshard
