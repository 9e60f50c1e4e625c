import Chardb.Schema.DiffRun

/-!
# A plane after its diff

Over the tables of a plane: the statements of a diff run exactly when every table that was there
takes its rows, and leave what the next snapshot describes.
-/

namespace Chardb.Schema

open Chardb.Lib

section
variable {V : Type} [DecidableEq V] {ν : Type} [JsNumber ν] {sqlite : Sqlite V}
  {db db' : SqliteDb V} {T : Set SqliteTableDdlDescriptor} {n p : SqliteTableDdlDescriptor}
  {prev : List SqliteTableDdlDescriptor}

/-- The previous table of this name. -/
def tableNamed (prev : List SqliteTableDdlDescriptor) (name : String) :
    Option SqliteTableDdlDescriptor :=
  prev.find? (·.tableName = name)

theorem tableNamed_some {name : String} (h : tableNamed prev name = some p) :
    p ∈ prev ∧ p.tableName = name :=
  ⟨List.mem_of_find?_eq_some h, by simpa using List.find?_some h⟩

theorem key_mem_keys (t : SqliteTableDdlDescriptor) : identifierKey t.tableName ∈ t.keys :=
  List.mem_cons_self

theorem tableNamed_eq_some (hprev : (prev.flatMap (·.keys)).Nodup) {name : String} :
    tableNamed prev name = some p ↔ p ∈ prev ∧ p.tableName = name := by
  refine ⟨tableNamed_some, fun ⟨hp, hname⟩ => ?_⟩
  cases hfind : tableNamed prev name with
  | none => exact absurd (by simpa using hname) (List.find?_eq_none.mp hfind p hp)
  | some q =>
    obtain ⟨hq, hqname⟩ := tableNamed_some hfind
    refine congrArg some (eq_of_mem_flatMap hprev hq hp (key_mem_keys q) ?_)
    rw [hqname, ← hname]
    exact key_mem_keys p

/-- The statements for a table of the next snapshot. -/
def nextStatements (ν : Type) [JsNumber ν] (prev : List SqliteTableDdlDescriptor)
    (n : SqliteTableDdlDescriptor) : List String :=
  match tableNamed prev n.tableName with
  | none => createStatements ν n
  | some p => tableStatements p n

/-- SQLite takes the rows of the table, if it was there. -/
def TakesRows (sqlite : Sqlite V) (prev : List SqliteTableDdlDescriptor) (db : SqliteDb V)
    (n : SqliteTableDdlDescriptor) : Prop :=
  ∀ p, tableNamed prev n.tableName = some p → ∀ rows,
    db.tables (identifierKey n.tableName) = some (p.entry rows) →
      ∃ rows', Takes sqlite p n rows rows'

/-- The table after the diff: without rows where it is new, with the rows it had and the values of
the new columns otherwise. -/
def TableAfter (sqlite : Sqlite V) (prev : List SqliteTableDdlDescriptor) (db db' : SqliteDb V)
    (n : SqliteTableDdlDescriptor) : Prop :=
  match tableNamed prev n.tableName with
  | none => db'.tables (identifierKey n.tableName) = some (n.entry [])
  | some p => ∃ rows rows', db.tables (identifierKey n.tableName) = some (p.entry rows) ∧
      Takes sqlite p n rows rows' ∧ db'.tables (identifierKey n.tableName) = some (n.entry rows')

/-- One table of the next snapshot. -/
theorem run_next (hread : Reads ν sqlite n) (hvalid : Valid sqlite n) (hnodup : n.keys.Nodup)
    (hapart : Apart n T)
    (hx : ∀ p, tableNamed prev n.tableName = some p → Extends p n ∧ p.columns ≠ [])
    (h : Describes db (T ∪ {p | tableNamed prev n.tableName = some p})) :
    ((∃ db', sqlite.run db (nextStatements ν prev n) = some db') ↔ TakesRows sqlite prev db n) ∧
      ∀ db', sqlite.run db (nextStatements ν prev n) = some db' → Describes db' (insert n T) ∧
        db'.triggers = db.triggers ∧ TableAfter sqlite prev db db' n ∧
        ∀ k, k ≠ identifierKey n.tableName → db'.tables k = db.tables k := by
  unfold nextStatements TakesRows TableAfter
  cases hfind : tableNamed prev n.tableName with
  | none =>
    have hset : T ∪ {p | tableNamed prev n.tableName = some p} = T := by
      rw [hfind]
      simp
    rw [hset] at h
    obtain ⟨hsome, hresult⟩ := run_create hread h
    refine ⟨hsome.trans ⟨fun _ p hp => (by cases hp), fun _ => ⟨hnodup, hapart, hvalid⟩⟩, ?_⟩
    intro db' hdb'
    obtain ⟨hdescribes, htables, htriggers⟩ := hresult db' hdb'
    refine ⟨hdescribes, htriggers, ?_, fun k hk => ?_⟩
    · rw [htables, Function.update_self]
    · rw [htables, Function.update_of_ne hk]
  | some p =>
    obtain ⟨hextends, hcolumns⟩ := hx p hfind
    have hset : T ∪ {q | tableNamed prev n.tableName = some q} = insert p T := by
      rw [hfind]
      ext q
      simp [eq_comm]
    rw [hset] at h
    obtain ⟨rows, hrows⟩ := h.table_eq (Set.mem_insert p T)
    rw [← hextends.name] at hrows
    obtain ⟨hsome, hresult⟩ := run_table hextends hread hcolumns h hapart hnodup hvalid hrows
    refine ⟨hsome.trans ⟨?_, fun h => h p rfl rows hrows⟩, fun db' hdb' => ?_⟩
    · rintro htakes q hq rows₁ hrows₁
      obtain rfl := Option.some.inj hq
      have : rows = rows₁ :=
        congrArg TableEntry.rows (Option.some.inj (hrows.symm.trans hrows₁))
      exact this ▸ htakes
    · obtain ⟨hdescribes, ⟨rows', htakes, htables⟩, htriggers⟩ := hresult db' hdb'
      refine ⟨hdescribes, htriggers, ⟨rows, rows', hrows, htakes, ?_⟩, fun k hk => ?_⟩
      · rw [htables, Function.update_self]
      · rw [htables, Function.update_of_ne hk]

/-- The previous tables that these tables extend. -/
def oldOf (prev rest : List SqliteTableDdlDescriptor) : Set SqliteTableDdlDescriptor :=
  {p | ∃ n ∈ rest, tableNamed prev n.tableName = some p}

/-- The tables of a plane in turn. -/
theorem run_plane {rest : List SqliteTableDdlDescriptor}
    (hread : ∀ n ∈ rest, Reads ν sqlite n) (hvalid : ∀ n ∈ rest, Valid sqlite n)
    (hnodup : (rest.flatMap (·.keys)).Nodup) (hapart : ∀ n ∈ rest, Apart n T)
    (hx : ∀ n ∈ rest, ∀ p, tableNamed prev n.tableName = some p → Extends p n ∧ p.columns ≠ [])
    (h : Describes db (T ∪ oldOf prev rest)) :
    ((∃ db', sqlite.run db (rest.flatMap (nextStatements ν prev)) = some db') ↔
        ∀ n ∈ rest, TakesRows sqlite prev db n) ∧
      ∀ db', sqlite.run db (rest.flatMap (nextStatements ν prev)) = some db' →
        Describes db' (T ∪ {n | n ∈ rest}) ∧ db'.triggers = db.triggers ∧
        (∀ n ∈ rest, TableAfter sqlite prev db db' n) ∧
        ∀ k, (∀ n ∈ rest, identifierKey n.tableName ≠ k) → db'.tables k = db.tables k := by
  induction rest generalizing db T with
  | nil =>
    refine ⟨⟨fun _ => by simp, fun _ => ⟨db, rfl⟩⟩, ?_⟩
    rintro db' ⟨⟩
    refine ⟨?_, rfl, by simp, fun _ _ => rfl⟩
    have hset : T ∪ oldOf prev [] = T ∪ {n | n ∈ []} := by
      ext p
      simp [oldOf]
    rwa [hset] at h
  | cons n rest ih =>
    have hdisjoint := (List.nodup_append'.mp (List.flatMap_cons ▸ hnodup)).2.2
    have hold : oldOf prev (n :: rest) =
        oldOf prev rest ∪ {p | tableNamed prev n.tableName = some p} := by
      ext p
      simp [oldOf, or_comm]
    have hapart' : Apart n (T ∪ oldOf prev rest) := by
      rintro u (hu | ⟨m, hm, hu⟩) k hk hk'
      · exact hapart n List.mem_cons_self u hu k hk hk'
      · have := (hx m (List.mem_cons_of_mem n hm) u hu).1.keys_subset hk'
        exact hdisjoint hk (List.mem_flatMap.mpr ⟨m, hm, this⟩)
    rw [hold, ← Set.union_assoc] at h
    obtain ⟨hsome, hresult⟩ := run_next (hread n List.mem_cons_self) (hvalid n List.mem_cons_self)
      (nodup_keys hnodup List.mem_cons_self) hapart' (hx n List.mem_cons_self) h
    rw [List.flatMap_cons, Sqlite.run_append]
    have hkey : ∀ m ∈ rest, identifierKey m.tableName ≠ identifierKey n.tableName :=
      fun m hm hk => hdisjoint (hk ▸ key_mem_keys n) (List.mem_flatMap.mpr ⟨m, hm, key_mem_keys m⟩)
    rw [List.forall_mem_cons, ← hsome]
    cases hfirst : sqlite.run db (nextStatements ν prev n) with
    | none =>
      refine ⟨⟨by rintro ⟨_, ⟨⟩⟩, by rintro ⟨⟨_, ⟨⟩⟩, _⟩⟩, ?_⟩
      intro db' hdb'
      cases hdb'
    | some db₁ =>
      obtain ⟨h₁, htriggers, hafter, hother⟩ := hresult db₁ hfirst
      rw [← Set.insert_union] at h₁
      obtain ⟨hsome', hresult'⟩ := ih (fun m hm => hread m (List.mem_cons_of_mem n hm))
        (fun m hm => hvalid m (List.mem_cons_of_mem n hm))
        (List.nodup_append'.mp (List.flatMap_cons ▸ hnodup)).2.1
        (fun m hm u hu k hk hk' => by
          rcases hu with rfl | hu
          · exact hdisjoint hk' (List.mem_flatMap.mpr ⟨m, hm, hk⟩)
          · exact hapart m (List.mem_cons_of_mem n hm) u hu k hk hk')
        (fun m hm => hx m (List.mem_cons_of_mem n hm)) h₁
      rw [Option.bind_some, hsome']
      have htakes : ∀ m ∈ rest, TakesRows sqlite prev db₁ m ↔ TakesRows sqlite prev db m :=
        fun m hm => by rw [TakesRows, TakesRows, hother _ (hkey m hm)]
      refine ⟨⟨fun h => ⟨⟨db₁, rfl⟩, fun m hm => (htakes m hm).mp (h m hm)⟩,
        fun h m hm => (htakes m hm).mpr (h.2 m hm)⟩, fun db' hdb' => ?_⟩
      obtain ⟨h', htriggers', hafter', hother'⟩ := hresult' db' hdb'
      refine ⟨?_, htriggers'.trans htriggers, ?_, fun k hk => ?_⟩
      · have hset : insert n T ∪ {m | m ∈ rest} = T ∪ {m | m ∈ n :: rest} := by
          ext m
          simp only [Set.mem_union, Set.mem_insert_iff, Set.mem_ofPred_eq, List.mem_cons]
          tauto
        rwa [hset] at h'
      · refine List.forall_mem_cons.mpr ⟨?_, fun m hm => ?_⟩
        · have hn := hother' (identifierKey n.tableName) hkey
          unfold TableAfter at hafter ⊢
          rwa [hn]
        · have := hafter' m hm
          unfold TableAfter at this ⊢
          rwa [hother _ (hkey m hm)] at this
      · rw [hother' k fun m hm => hk m (List.mem_cons_of_mem n hm),
          hother k (hk n List.mem_cons_self).symm]

end

end Chardb.Schema
