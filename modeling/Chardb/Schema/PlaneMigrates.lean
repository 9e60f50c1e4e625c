import Chardb.Schema.DiffAccepted

/-!
# Triggers, and both producers of a schema

The triggers of a schema come after its tables. A plane is then the same after a diff and after a
complete install of the next snapshot.
-/

namespace Chardb.Schema

open Chardb.Lib

section
variable {V : Type} [DecidableEq V] {ν : Type} [JsNumber ν] {sqlite : Sqlite V}
  {sha256Hex toLowerCase : String → String} {db db' : SqliteDb V}

/-! ## Running trigger programs -/

def TriggerProgram.entry (q : TriggerProgram) : AttachedEntry := ⟨q.name, q.table, q.install⟩

/-- The triggers of a database are those of the programs. -/
def DescribesTriggers (db : SqliteDb V) (Q : Set TriggerProgram) : Prop :=
  ∀ k e, db.triggers k = some e ↔ ∃ q ∈ Q, identifierKey q.name = k ∧ e = q.entry

omit [DecidableEq V] in
theorem DescribesTriggers.setTrigger {Q : Set TriggerProgram} (h : DescribesTriggers db Q)
    {q : TriggerProgram} (hnew : ∀ r ∈ Q, identifierKey q.name ≠ identifierKey r.name) :
    DescribesTriggers (db.setTrigger q.entry) (insert q Q) := by
  intro k e
  show Function.update db.triggers (identifierKey q.name) (some q.entry) k = some e ↔ _
  by_cases hk : k = identifierKey q.name
  · subst hk
    rw [Function.update_self]
    constructor
    · rintro ⟨rfl⟩
      exact ⟨q, Set.mem_insert q Q, rfl, rfl⟩
    · rintro ⟨r, rfl | hr, hk, rfl⟩
      · rfl
      · exact absurd hk.symm (hnew r hr)
  · rw [Function.update_of_ne hk, h k e]
    constructor
    · rintro ⟨r, hr, he⟩
      exact ⟨r, Set.mem_insert_of_mem q hr, he⟩
    · rintro ⟨r, rfl | hr, he⟩
      · exact absurd he.1.symm hk
      · exact ⟨r, hr, he⟩

/-- Triggers with new names run exactly when their tables are there and take them. -/
theorem run_triggers {qs : List TriggerProgram} {Q : Set TriggerProgram}
    (hread : ∀ q ∈ qs, sqlite.read q.install = some (.createTrigger q.name q.table))
    (h : DescribesTriggers db Q) (hnodup : (qs.map fun q => identifierKey q.name).Nodup)
    (hnew : ∀ q ∈ qs, ∀ r ∈ Q, identifierKey q.name ≠ identifierKey r.name) :
    ((∃ db', sqlite.run db (qs.map (·.install)) = some db') ↔ ∀ q ∈ qs, ∃ t,
        db.tables (identifierKey q.table) = some t ∧ sqlite.triggerOk t.columns q.install = true) ∧
      ∀ db', sqlite.run db (qs.map (·.install)) = some db' →
        DescribesTriggers db' (Q ∪ {q | q ∈ qs}) ∧ db'.tables = db.tables ∧
          db'.indexes = db.indexes := by
  induction qs generalizing db Q with
  | nil =>
    refine ⟨⟨fun _ => by simp, fun _ => ⟨db, rfl⟩⟩, ?_⟩
    rintro db' ⟨⟩
    refine ⟨?_, rfl, rfl⟩
    have hset : Q ∪ {q | q ∈ ([] : List TriggerProgram)} = Q := by simp
    rwa [hset]
  | cons q qs ih =>
    have hfresh : db.triggers (identifierKey q.name) = none := by
      cases htrigger : db.triggers (identifierKey q.name) with
      | none => rfl
      | some e =>
        obtain ⟨r, hr, hk, -⟩ := (h _ e).mp htrigger
        exact absurd hk.symm (hnew q List.mem_cons_self r hr)
    have hexec : sqlite.exec db q.install = (db.tables (identifierKey q.table)).bind fun t =>
        if sqlite.triggerOk t.columns q.install = true then some (db.setTrigger q.entry)
        else none := by
      rw [Sqlite.exec, hread q List.mem_cons_self]
      dsimp only
      rw [hfresh, Option.isSome_none, if_neg Bool.false_ne_true]
      cases db.tables (identifierKey q.table) <;> rfl
    rw [List.map_cons, Sqlite.run, hexec, List.forall_mem_cons]
    by_cases hok : ∃ t, db.tables (identifierKey q.table) = some t ∧
        sqlite.triggerOk t.columns q.install = true
    · obtain ⟨t, ht, hok'⟩ := hok
      obtain ⟨hsome, hresult⟩ := ih (fun r hr => hread r (List.mem_cons_of_mem q hr))
        (h.setTrigger (hnew q List.mem_cons_self)) (List.nodup_cons.mp hnodup).2
        (fun r hr s hs => by
          rcases hs with rfl | hs
          · exact fun hk => (List.nodup_cons.mp hnodup).1 (List.mem_map.mpr ⟨r, hr, hk⟩)
          · exact hnew r (List.mem_cons_of_mem q hr) s hs)
      rw [ht, Option.bind_some, if_pos hok', Option.bind_some]
      refine ⟨hsome.trans ⟨fun h => ⟨⟨t, rfl, hok'⟩, h⟩, fun h => h.2⟩, fun db' hdb' => ?_⟩
      obtain ⟨h', htables, hindexes⟩ := hresult db' hdb'
      have hset : insert q Q ∪ {r | r ∈ qs} = Q ∪ {r | r ∈ q :: qs} := by
        ext r
        simp only [Set.mem_union, Set.mem_insert_iff, Set.mem_ofPred_eq, List.mem_cons]
        tauto
      rw [hset] at h'
      exact ⟨h', htables, hindexes⟩
    · have hnone : ((db.tables (identifierKey q.table)).bind fun t =>
          if sqlite.triggerOk t.columns q.install = true then some (db.setTrigger q.entry)
          else none) = none := by
        cases htable : db.tables (identifierKey q.table) with
        | none => rfl
        | some t => exact if_neg fun h => hok ⟨t, htable, h⟩
      rw [hnone]
      refine ⟨⟨by rintro ⟨_, ⟨⟩⟩, fun h => absurd h.1 hok⟩, fun db' hdb' => ?_⟩
      cases hdb'

/-! ## A plane -/

/-- The rows of a table after the diff: those that were there, with null in the new columns. -/
def RowsKept (sqlite : Sqlite V) (prev : List SqliteTableDdlDescriptor) (db db' : SqliteDb V)
    (n : SqliteTableDdlDescriptor) : Prop :=
  match tableNamed prev n.tableName with
  | none => ∃ t, db'.tables (identifierKey n.tableName) = some t ∧ t.rows = []
  | some p => ∃ t t', db.tables (identifierKey n.tableName) = some t ∧
      db'.tables (identifierKey n.tableName) = some t' ∧
      t'.rows = t.rows.map (· ++ List.replicate (addedColumns p n).length sqlite.null)

/-- SQLite takes the rows that are there: it adds the new columns as null, and every new index can
be built. -/
def TakesNull (sqlite : Sqlite V) (prev : List SqliteTableDdlDescriptor) (db : SqliteDb V)
    (n : SqliteTableDdlDescriptor) : Prop :=
  ∀ p, tableNamed prev n.tableName = some p → ∀ t,
    db.tables (identifierKey n.tableName) = some t → Takes sqlite p n t.rows
      (t.rows.map (· ++ List.replicate (addedColumns p n).length sqlite.null))

/-- Both producers of the schema of a plane: the next snapshot installs, and the diff runs on a
database with the objects of the previous one. -/
structure Producers (ν : Type) [JsNumber ν] (sqlite : Sqlite V)
    (prev nexts : List SqliteTableDdlDescriptor)
    (prevTriggers nextTriggers added : List TriggerProgram) (db installed : SqliteDb V) : Prop where
  prevReads : ∀ p ∈ prev, Reads ν sqlite p
  nextReads : ∀ n ∈ nexts, Reads ν sqlite n
  prevTriggerReads : ∀ q ∈ prevTriggers,
    sqlite.read q.install = some (.createTrigger q.name q.table)
  nextTriggerReads : ∀ q ∈ nextTriggers,
    sqlite.read q.install = some (.createTrigger q.name q.table)
  columns : ∀ p ∈ prev, p.columns ≠ []
  kept : ∀ p ∈ prev, ∃ n ∈ nexts, n.tableName = p.tableName
  extendsTable : ∀ n ∈ nexts, ∀ p, tableNamed prev n.tableName = some p → Extends p n
  triggers : ∀ q, q ∈ nextTriggers ↔ q ∈ prevTriggers ∨ q ∈ added
  prevNames : (prevTriggers.map fun q => identifierKey q.name).Nodup
  nextNames : (nextTriggers.map fun q => identifierKey q.name).Nodup
  addedNames : (added.map fun q => identifierKey q.name).Nodup
  apart : ∀ q ∈ added, ∀ r ∈ prevTriggers, identifierKey q.name ≠ identifierKey r.name
  before : ∃ prevInstalled, db.SameObjects prevInstalled ∧
    sqlite.run .empty (prev.flatMap (createStatements ν) ++ prevTriggers.map (·.install)) =
      some prevInstalled
  after : sqlite.run .empty (nexts.flatMap (createStatements ν) ++ nextTriggers.map (·.install)) =
    some installed

/-- What an install leaves. -/
theorem run_complete {ts : List SqliteTableDdlDescriptor} {qs : List TriggerProgram}
    (hread : ∀ t ∈ ts, Reads ν sqlite t)
    (hreadTriggers : ∀ q ∈ qs, sqlite.read q.install = some (.createTrigger q.name q.table))
    (hnames : (qs.map fun q => identifierKey q.name).Nodup)
    (hrun : sqlite.run .empty (ts.flatMap (createStatements ν) ++ qs.map (·.install)) = some db) :
    Describes db {t | t ∈ ts} ∧ (ts.flatMap (·.keys)).Nodup ∧ (∀ t ∈ ts, Valid sqlite t) ∧
      DescribesTriggers db {q | q ∈ qs} ∧ ∀ q ∈ qs, ∃ t,
        db.tables (identifierKey q.table) = some t ∧
          sqlite.triggerOk t.columns q.install = true := by
  rw [Sqlite.run_append] at hrun
  obtain ⟨db₁, htables, htriggers⟩ := Option.bind_eq_some_iff.mp hrun
  obtain ⟨h, hnodup, -, hvalid, hnone⟩ := run_install hread describes_empty htables
  have hempty : DescribesTriggers db₁ ∅ := by
    intro k e
    rw [hnone]
    simp [SqliteDb.empty]
  obtain ⟨hsome, hresult⟩ := run_triggers hreadTriggers hempty hnames (by simp)
  obtain ⟨h', hsame, hindexes⟩ := hresult db htriggers
  rw [Set.empty_union] at h h'
  refine ⟨h.of_same (fun k => by rw [hsame]) hindexes, hnodup, hvalid, h', ?_⟩
  rw [hsame]
  exact hsome.mp ⟨db, htriggers⟩

/-- The diff of a plane is a correct migration exactly where SQLite takes the rows. -/
theorem plane_migrates {prev nexts : List SqliteTableDdlDescriptor}
    {prevTriggers nextTriggers added : List TriggerProgram} {installed : SqliteDb V}
    (h : Producers ν sqlite prev nexts prevTriggers nextTriggers added db installed) :
    (∃ db', sqlite.run db (nexts.flatMap (nextStatements ν prev) ++ added.map (·.install)) =
        some db' ∧ db'.SameObjects installed ∧ ∀ n ∈ nexts, RowsKept sqlite prev db db' n) ↔
      ∀ n ∈ nexts, TakesNull sqlite prev db n := by
  obtain ⟨prevInstalled, hsame, hprevRun⟩ := h.before
  obtain ⟨hprev, hprevNodup, -, hprevTriggers, -⟩ :=
    run_complete h.prevReads h.prevTriggerReads h.prevNames hprevRun
  obtain ⟨hnext, hnodup, hvalid, hnextTriggers, htriggerOk⟩ :=
    run_complete h.nextReads h.nextTriggerReads h.nextNames h.after
  have htriggers : DescribesTriggers db {q | q ∈ prevTriggers} := by
    intro k e
    rw [hsame.2.2]
    exact hprevTriggers k e
  have hdb : Describes db (∅ ∪ oldOf prev nexts) := by
    have hset : ∅ ∪ oldOf prev nexts = {p | p ∈ prev} := by
      ext p
      rw [Set.empty_union]
      constructor
      · rintro ⟨n, -, hp⟩
        exact (tableNamed_some hp).1
      · intro hp
        obtain ⟨n, hn, hname⟩ := h.kept p hp
        exact ⟨n, hn, (tableNamed_eq_some hprevNodup).mpr ⟨hp, hname.symm⟩⟩
    rw [hset]
    exact hprev.of_same hsame.1 hsame.2.1
  obtain ⟨hsome, hresult⟩ := run_plane h.nextReads hvalid hnodup (fun n _ u hu => hu.elim)
    (fun n hn p hp => ⟨h.extendsTable n hn p hp, h.columns p (tableNamed_some hp).1⟩) hdb
  have hadded : ∀ q ∈ added, q ∈ nextTriggers := fun q hq => (h.triggers q).mpr (.inr hq)
  rw [Sqlite.run_append]
  constructor
  · rintro ⟨db', hrun, -, hrows⟩ n hn p hp t ht
    obtain ⟨db₁, hplane, hrest⟩ := Option.bind_eq_some_iff.mp hrun
    obtain ⟨-, htriggers₁, hafter, -⟩ := hresult db₁ hplane
    have hdescribes₁ : DescribesTriggers db₁ {q | q ∈ prevTriggers} := by
      intro k e
      rw [htriggers₁]
      exact htriggers k e
    obtain ⟨-, htables, -⟩ := (run_triggers (fun q hq => h.nextTriggerReads q (hadded q hq))
      hdescribes₁ h.addedNames h.apart).2 db' hrest
    have hn' := hafter n hn
    have hkept := hrows n hn
    unfold TableAfter at hn'
    unfold RowsKept at hkept
    rw [hp] at hn' hkept
    obtain ⟨rows, rows', hbefore, htakes, hafter'⟩ := hn'
    obtain ⟨u, u', hu, hu', hrows'⟩ := hkept
    obtain rfl := Option.some.inj (hbefore.symm.trans ht)
    obtain rfl := Option.some.inj (hbefore.symm.trans hu)
    rw [htables] at hu'
    obtain rfl := Option.some.inj (hafter'.symm.trans hu')
    exact hrows' ▸ htakes
  · intro htakes
    have htakesRows : ∀ n ∈ nexts, TakesRows sqlite prev db n :=
      fun n hn p hp rows hrows => ⟨_, htakes n hn p hp _ hrows⟩
    obtain ⟨db₁, hplane⟩ := hsome.mpr htakesRows
    obtain ⟨h₁, htriggers₁, hafter, -⟩ := hresult db₁ hplane
    rw [Set.empty_union] at h₁
    have hshapes := (h₁.unique hnext).1
    have hdescribes₁ : DescribesTriggers db₁ {q | q ∈ prevTriggers} := by
      intro k e
      rw [htriggers₁]
      exact htriggers k e
    obtain ⟨hsome', hresult'⟩ := run_triggers (fun q hq => h.nextTriggerReads q (hadded q hq))
      hdescribes₁ h.addedNames h.apart
    have hoks : ∀ q ∈ added, ∃ t, db₁.tables (identifierKey q.table) = some t ∧
        sqlite.triggerOk t.columns q.install = true := by
      intro q hq
      obtain ⟨t, ht, hok⟩ := htriggerOk q (hadded q hq)
      have hshape := hshapes (identifierKey q.table)
      rw [ht] at hshape
      obtain ⟨t₁, ht₁, hshape⟩ := Option.map_eq_some_iff.mp hshape
      have hcolumns : t₁.shape.columns = t.shape.columns := congrArg TableEntry.columns hshape
      exact ⟨t₁, ht₁, (show t₁.columns = t.columns from hcolumns) ▸ hok⟩
    obtain ⟨db', hrest⟩ := hsome'.mpr hoks
    obtain ⟨htriggers', htables, hindexes⟩ := hresult' db' hrest
    refine ⟨db', Option.bind_eq_some_iff.mpr ⟨db₁, hplane, hrest⟩, ⟨?_, ?_, ?_⟩, fun n hn => ?_⟩
    · rw [htables]
      exact hshapes
    · rw [hindexes]
      exact (h₁.unique hnext).2
    · refine funext fun k => Option.ext fun e => ?_
      rw [htriggers' k e, hnextTriggers k e]
      have hset : {q | q ∈ prevTriggers} ∪ {q | q ∈ added} = {q | q ∈ nextTriggers} := by
        ext q
        exact (h.triggers q).symm
      rw [hset]
    · have hn' := hafter n hn
      unfold TableAfter at hn'
      unfold RowsKept
      rw [htables]
      cases hp : tableNamed prev n.tableName with
      | none =>
        rw [hp] at hn'
        exact ⟨_, hn', rfl⟩
      | some p =>
        rw [hp] at hn'
        obtain ⟨rows, rows', hbefore, htakes', hafter'⟩ := hn'
        refine ⟨_, _, hbefore, hafter', ?_⟩
        have hnull := htakes n hn p hp _ hbefore
        exact Option.some.inj (htakes'.1.symm.trans hnull.1)

end

end Chardb.Schema
