import Chardb.Core.CanonicalQuotient
import Chardb.Lib.ExceptList
import Chardb.Schema.PlaneRun

/-!
# What an accepted diff says

Two descriptors have the same canonical JSON only if they are the same. An accepted diff therefore
extends every previous table, and keeps every previous resource.
-/

namespace Chardb.Schema

open Chardb.Lib

section
variable {ν : Type} [JsNumber ν]

/-! ## Canonical JSON -/

theorem elemsExact_iff {xs : List (Json ν)} : Json.ElemsExact xs ↔ ∀ x ∈ xs, x.Exact := by
  induction xs with
  | nil => simp [Json.ElemsExact]
  | cons x xs ih => rw [Json.ElemsExact, ih, List.forall_mem_cons]

omit [JsNumber ν] in
/-- Objects with the same keys have the same canonical form only if their members have. -/
theorem canonicalize_obj_inj {ms ms' : List (String × Json ν)}
    (h : canonicalize (.obj ms) = canonicalize (.obj ms')) (hown : OwnKeys (ms.map Prod.fst))
    (hkeys : ms.map Prod.fst = ms'.map Prod.fst) :
    canonicalizeMembers ms = canonicalizeMembers ms' := by
  rw [canonicalize, canonicalize] at h
  have hperm := canonicalize_obj_perm hown
  rw [Json.obj.inj h] at hperm
  refine members_eq (hperm.trans (canonicalize_obj_perm (hkeys ▸ hown)).symm) ?_ ?_
  · rw [canonicalizeMembers_keys]
    exact hown.nodup
  · rw [canonicalizeMembers_keys, canonicalizeMembers_keys, hkeys]

/-! ## Descriptors -/

theorem column_exact (c : SqliteColumnDdlDescriptor) : (c.toJson : Json ν).Exact := by
  have hkeys : OwnKeys ["name", "sql"] := by decide
  exact ⟨hkeys, trivial, trivial, trivial⟩

theorem constraint_exact (c : SqliteTableConstraintDdlDescriptor) : (c.toJson : Json ν).Exact := by
  have hkeys : OwnKeys ["kind", "name", "sql"] := by decide
  refine ⟨hkeys, trivial, ?_, trivial, trivial⟩
  cases c.name <;> exact trivial

theorem index_exact (i : SqliteIndexDdlDescriptor) : (i.toJson : Json ν).Exact := by
  have hkeys : OwnKeys ["name", "unique", "sql"] := by decide
  exact ⟨hkeys, trivial, trivial, trivial, trivial⟩

omit [JsNumber ν] in
theorem column_inj {a b : SqliteColumnDdlDescriptor}
    (h : canonicalize (a.toJson : Json ν) = canonicalize b.toJson) : a = b := by
  have hkeys : OwnKeys ["name", "sql"] := by decide
  have := canonicalize_obj_inj h hkeys rfl
  simp only [canonicalizeMembers, canonicalize, List.cons.injEq, Prod.mk.injEq, Json.str.injEq,
    true_and, and_true] at this
  cases a
  cases b
  simp_all

omit [JsNumber ν] in
theorem constraint_inj {a b : SqliteTableConstraintDdlDescriptor}
    (h : canonicalize (a.toJson : Json ν) = canonicalize b.toJson) : a = b := by
  have hkeys : OwnKeys ["kind", "name", "sql"] := by decide
  have := canonicalize_obj_inj h hkeys rfl
  simp only [canonicalizeMembers, canonicalize, List.cons.injEq, Prod.mk.injEq, Json.str.injEq,
    true_and, and_true] at this
  obtain ⟨hkind, hname, hsql⟩ := this
  have hkind : a.kind = b.kind := by
    revert hkind
    cases a.kind <;> cases b.kind <;> decide
  have hname : a.name = b.name := by
    revert hname
    cases a.name <;> cases b.name <;> simp [canonicalize]
  cases a
  cases b
  simp_all

omit [JsNumber ν] in
theorem index_inj {a b : SqliteIndexDdlDescriptor}
    (h : canonicalize (a.toJson : Json ν) = canonicalize b.toJson) : a = b := by
  have hkeys : OwnKeys ["name", "unique", "sql"] := by decide
  have := canonicalize_obj_inj h hkeys rfl
  simp only [canonicalizeMembers, canonicalize, List.cons.injEq, Prod.mk.injEq, Json.str.injEq,
    Json.bool.injEq, true_and, and_true] at this
  cases a
  cases b
  simp_all

/-- The same canonical JSON of two arrays, element by element. -/
theorem arr_canonical {xs ys : List (Json ν)} (hxs : ∀ x ∈ xs, x.Exact) (hys : ∀ y ∈ ys, y.Exact)
    (h : stableJson (.arr xs) = stableJson (.arr ys)) :
    xs.map canonicalize = ys.map canonicalize := by
  have hx : (Json.arr xs).Exact := by rwa [Json.Exact, elemsExact_iff]
  have hy : (Json.arr ys).Exact := by rwa [Json.Exact, elemsExact_iff]
  have helems := canonicalize_eq hx hy h
  rw [canonicalize, canonicalize, canonicalizeElems_eq, canonicalizeElems_eq] at helems
  exact Json.arr.inj helems

/-- What one image of two lists decides. -/
theorem map_congr_image {α β γ : Type} {f : α → β} {g : α → γ} (h : ∀ a b, f a = f b → g a = g b)
    {xs ys : List α} (hmap : xs.map f = ys.map f) : xs.map g = ys.map g := by
  induction xs generalizing ys with
  | nil =>
    cases ys with
    | nil => rfl
    | cons y ys => cases hmap
  | cons x xs ih =>
    cases ys with
    | nil => cases hmap
    | cons y ys =>
      obtain ⟨hx, hrest⟩ := List.cons.inj hmap
      rw [List.map_cons, List.map_cons, h x y hx, ih hrest]

/-- Lists of descriptors with the same canonical JSON are the same. -/
theorem list_inj {α : Type} {toJson : α → Json ν} (hexact : ∀ a, (toJson a).Exact)
    (hinj : ∀ a b, canonicalize (toJson a) = canonicalize (toJson b) → a = b) {xs ys : List α}
    (h : stableJson (.arr (xs.map toJson)) = stableJson (.arr (ys.map toJson))) : xs = ys := by
  have hall : ∀ zs : List α, ∀ j ∈ zs.map toJson, j.Exact := fun zs j hj => by
    obtain ⟨a, -, rfl⟩ := List.mem_map.mp hj
    exact hexact a
  have hmap := arr_canonical (hall xs) (hall ys) h
  rw [List.map_map, List.map_map] at hmap
  have := map_congr_image (g := id) hinj hmap
  rwa [List.map_id, List.map_id] at this

/-! ## Validated tables -/

theorem forM_ok {α : Type} {f : α → Except Thrown Unit} {xs : List α} {u : Unit}
    (h : xs.forM f = .ok u) : ∀ x ∈ xs, f x = .ok () := by
  induction xs with
  | nil => simp
  | cons x xs ih =>
    obtain ⟨u, hx, h⟩ := bind_ok h
    exact List.forall_mem_cons.mpr ⟨hx, ih h⟩

theorem ownEach_ok {α : Type} {own : α → String → Except Thrown Unit} {subject : String}
    {position : Nat} {xs : List α} {u : Unit} (h : ownEach own subject position xs = .ok u) :
    ∀ x ∈ xs, ∃ subject, own x subject = .ok () := by
  induction xs generalizing position with
  | nil => simp
  | cons x xs ih =>
    obtain ⟨_, hx, h⟩ := bind_ok h
    exact List.forall_mem_cons.mpr ⟨⟨_, hx⟩, ih h⟩

theorem boundedSql_ok {sql subject : String} {u : Unit} (h : boundedSql sql subject = .ok u) :
    sql ≠ "" := by
  obtain ⟨_, hsql, -⟩ := bind_ok h
  rintro rfl
  exact ensure_ok hsql rfl

theorem ownIndex_ok {i : SqliteIndexDdlDescriptor} {subject : String} {u : Unit}
    (h : ownIndex i subject = .ok u) : i.name ≠ "" ∧ i.sql ≠ "" := by
  obtain ⟨_, hname, hsql⟩ := bind_ok h
  exact ⟨(ensure_ok hname).1, boundedSql_ok hsql⟩

/-- What the exact-text comparison and `ADD COLUMN` need of a table. -/
structure Wellformed (t : SqliteTableDdlDescriptor) : Prop where
  columns : t.columns ≠ []
  indexes : ∀ i ∈ t.indexes, i.name ≠ "" ∧ i.sql ≠ ""

theorem ownTable_ok {t : SqliteTableDdlDescriptor} {subject : String} {u : Unit}
    (h : ownTable ν t subject = .ok u) : Wellformed t := by
  obtain ⟨_, -, h⟩ := bind_ok h
  obtain ⟨_, -, h⟩ := bind_ok h
  obtain ⟨_, -, h⟩ := bind_ok h
  obtain ⟨_, hindexes, h⟩ := bind_ok h
  obtain ⟨_, hcolumns, -⟩ := bind_ok h
  refine ⟨ensure_ok hcolumns, fun i hi => ?_⟩
  obtain ⟨_, hi⟩ := ownEach_ok hindexes i hi
  exact ownIndex_ok hi

theorem ownTables_ok {ts : List SqliteTableDdlDescriptor} {subject : String} {u : Unit}
    (h : ownTables ν ts subject = .ok u) : ∀ t ∈ ts, Wellformed t := by
  obtain ⟨_, -, h⟩ := bind_ok h
  obtain ⟨_, heach, -⟩ := bind_ok h
  intro t ht
  obtain ⟨_, ht⟩ := ownEach_ok heach t ht
  exact ownTable_ok ht

/-! ## An accepted plane -/

theorem keepColumns_ok {error : Thrown} {ps ns : List SqliteColumnDdlDescriptor} {u : Unit}
    (h : keepColumns ν error ps ns = .ok u) : ns = ps ++ ns.drop ps.length := by
  induction ps generalizing ns with
  | nil => rfl
  | cons p ps ih =>
    cases ns with
    | nil => cases h
    | cons n ns =>
      obtain ⟨_, hcolumn, h⟩ := bind_ok h
      have : n = p :=
        column_inj (canonicalize_eq (column_exact n) (column_exact p) (ensure_ok hcolumn))
      rw [this, List.length_cons, List.drop_succ_cons, List.cons_append, ← ih h]

theorem diffTable_ok {plane : String} {p n : SqliteTableDdlDescriptor} {diff : PlaneDiff}
    (hname : n.tableName = p.tableName) (h : diffTable ν plane p n = .ok diff) :
    Extends p n ∧ diff.statements = tableStatements p n := by
  obtain ⟨_, hconstraints, h⟩ := bind_ok h
  obtain ⟨_, -, h⟩ := bind_ok h
  obtain ⟨_, hcolumns, h⟩ := bind_ok h
  obtain ⟨_, -, h⟩ := bind_ok h
  obtain ⟨_, hindexes, h⟩ := bind_ok h
  obtain ⟨_, -, h⟩ := bind_ok h
  obtain rfl := Except.ok.inj h
  refine ⟨⟨hname, ?_, keepColumns_ok hcolumns, fun i hi => ?_⟩, rfl⟩
  · exact list_inj constraint_exact (fun _ _ => constraint_inj) (ensure_ok hconstraints)
  · have hi := forM_ok hindexes i hi
    cases hfind : n.indexes.find? (·.name = i.name) with
    | none =>
      rw [hfind] at hi
      cases hi
    | some j =>
      rw [hfind] at hi
      have hji : j = i := index_inj (canonicalize_eq (index_exact j) (index_exact i) (ensure_ok hi))
      exact hji ▸ List.mem_of_find?_eq_some hfind

theorem diffTables_ok {plane : String} {prev nexts : List SqliteTableDdlDescriptor}
    {diff : PlaneDiff} (h : diffTables ν plane prev nexts = .ok diff) :
    diff.statements = nexts.flatMap (nextStatements ν prev) ∧
      ∀ n ∈ nexts, ∀ p, tableNamed prev n.tableName = some p → Extends p n := by
  induction nexts generalizing diff with
  | nil =>
    obtain rfl := Except.ok.inj h
    exact ⟨rfl, by simp⟩
  | cons n nexts ih =>
    obtain ⟨first, hfirst, h⟩ := bind_ok h
    obtain ⟨rest, hrest, h⟩ := bind_ok h
    obtain rfl := Except.ok.inj h
    obtain ⟨hstatements, hextends⟩ := ih hrest
    have hn : first.statements = nextStatements ν prev n ∧
        ∀ p, tableNamed prev n.tableName = some p → Extends p n := by
      unfold nextStatements
      unfold diffNext at hfirst
      rw [show prev.find? (·.tableName = n.tableName) = tableNamed prev n.tableName from rfl]
        at hfirst
      cases hfind : tableNamed prev n.tableName with
      | none =>
        rw [hfind] at hfirst
        obtain rfl := Except.ok.inj hfirst
        exact ⟨rfl, fun p hp => (by cases hp)⟩
      | some p =>
        rw [hfind] at hfirst
        obtain ⟨hx, hs⟩ := diffTable_ok (tableNamed_some hfind).2.symm hfirst
        refine ⟨hs, fun q hq => ?_⟩
        obtain rfl := Option.some.inj hq
        exact hx
    refine ⟨?_, List.forall_mem_cons.mpr ⟨hn.2, hextends⟩⟩
    rw [List.flatMap_cons, ← hn.1, ← hstatements]
    rfl

/-- An accepted plane keeps and extends every table. -/
theorem diffPlane_ok {plane : String} {prev nexts : List SqliteTableDdlDescriptor}
    {diff : PlaneDiff} (h : diffPlane ν prev nexts plane = .ok diff) :
    (∀ p ∈ prev, ∃ n ∈ nexts, n.tableName = p.tableName) ∧
      diff.statements = nexts.flatMap (nextStatements ν prev) ∧
      ∀ n ∈ nexts, ∀ p, tableNamed prev n.tableName = some p → Extends p n := by
  obtain ⟨_, hkept, h⟩ := bind_ok h
  refine ⟨fun p hp => ?_, diffTables_ok h⟩
  obtain ⟨n, hn, hname⟩ := List.mem_map.mp (ensure_ok (forM_ok hkept p hp))
  exact ⟨n, hn, hname⟩

end

end Chardb.Schema
