import Chardb.Moves.Lifecycle
import Chardb.OpLog.ReplayInvariant

/-!
# The op-log under moves

A move that comes in writes to the op-log of a shard, and its abort takes rows out again. `Sound` is
the invariant that lets an abort find its own rows: each row that a move has inserted is there, one
move has inserted it, and that move still holds off the retention (`Receiving`). A row that no move
has inserted is `Held`, which no call ends but a cleanup.
-/

namespace Chardb.Moves

open Chardb.Lib Chardb.Reshard

variable {δ α : Type}

/-! ## Moves that come in -/

/-- Rows may still come in for the migration. -/
def Receives (t : SplitStateTable) (k : String) : Prop :=
  ∃ r, t.find? k = some r ∧ r.role = .dest ∧ r.drained = false

/-- The migration is bound here as one that comes in. -/
def Receiving (c : SplitControl) (k : String) : Prop :=
  Receives c.splits k ∧ (c.identities.find? k).isSome = true

section
variable {t t' : SplitStateTable} {c c' : SplitControl} {k : String} {n : Nat}
  {p : SplitStateRow → Bool} {f : SplitStateRow → SplitStateRow}

theorem Receives.insertIgnore {row : SplitStateRow} (h : Receives t k)
    (hi : (Table.insertIgnore row : Tx Thrown SplitStateTable Nat).Returns t n t') : Receives t' k := by
  rcases Table.insertIgnore_returns.mp hi with ⟨-, hi⟩ | ⟨-, -, rfl⟩
  · obtain ⟨r, hr, hok⟩ := h
    obtain ⟨hmem, hkey⟩ := Table.find?_eq_some.mp hr
    exact ⟨r, Table.find?_eq_some.mpr ⟨(Table.mem_insert hi).mpr (.inl hmem), hkey⟩, hok⟩
  · exact h

theorem Receives.update (h : Receives t k) (hu : t.update? p f = some t')
    (hkey : ∀ r, (f r).migId = r.migId)
    (hf : ∀ r, t.find? k = some r → p r = true → r.role = .dest → r.drained = false →
      (f r).role = .dest ∧ (f r).drained = false) : Receives t' k := by
  obtain ⟨r, hr, hrole, hdrained⟩ := h
  refine ⟨if p r then f r else r, ?_, ?_⟩
  · rw [Table.find?_update hu (fun r _ _ => hkey r), hr, Option.map_some]
  · split
    · rename_i hp
      exact hf r hr hp hrole hdrained
    · exact ⟨hrole, hdrained⟩

theorem Receives.active (h : Receives t k) : ∃ r ∈ t, r.drained = false := by
  obtain ⟨r, hr, -, hdrained⟩ := h
  exact ⟨r, (Table.find?_eq_some.mp hr).1, hdrained⟩

theorem receiving_insertIgnore {row : SplitStateRow} (h : Receiving c k)
    (hi : (onSplits (Table.insertIgnore row)).Returns c n c') : Receiving c' k := by
  obtain ⟨t, ht, rfl⟩ := onSplits_returns.mp hi
  exact ⟨h.1.insertIgnore ht, h.2⟩

theorem receiving_updateSplit (h : Receiving c k) (hu : (updateSplit p f).Returns c n c')
    (hkey : ∀ r, (f r).migId = r.migId)
    (hf : ∀ r, c.split? k = some r → p r = true → r.role = .dest → r.drained = false →
      (f r).role = .dest ∧ (f r).drained = false) : Receiving c' k := by
  obtain ⟨t, ht, rfl⟩ := onSplits_returns.mp hu
  exact ⟨h.1.update (Table.update_returns.mp ht).1 hkey hf, h.2⟩

theorem receiving_tombstone {migId : String} {lo hi nowMs : Int} {role : SplitRole}
    {generation : Option Int} {u : Unit} (h : Receiving c k)
    (hp : (persistReshardAbortTombstone migId lo hi role generation nowMs).Returns c u c') :
    Receiving c' k := by
  obtain ⟨hids, hsplit⟩ := persistReshardAbortTombstone_returns hp
  obtain ⟨⟨r, hr, hok⟩, hbound⟩ := h
  refine ⟨⟨r, ?_, hok⟩, by rw [hids]; exact hbound⟩
  have := hsplit k
  rw [show c.split? k = some r from hr] at this
  rw [show c'.splits.find? k = c'.split? k from rfl, this]
  split <;> rfl

/-- A binding is for good. -/
theorem receiving_bind {schema : CdbSchema} {identity : CdbReshardSplitIdentity} {nowMs : Int} {u : Unit}
    (h : Receiving c k) (hbind : (onIdentities (Reshard.bind schema identity nowMs)).Returns c u c') :
    Receiving c' k := by
  obtain ⟨ids, hb, rfl⟩ := onIdentities_returns.mp hbind
  refine ⟨h.1, ?_⟩
  simp only [Reshard.bind, Tx.bind_returns, Tx.require_returns, Tx.ofExcept_returns, Tx.gets_returns] at hb
  obtain ⟨_, _, hrange, _, _, ⟨-, rfl⟩, _, _, hschema, tables, _, ⟨-, rfl⟩, existing, _, ⟨rfl, rfl⟩, hb⟩ := hb
  obtain rfl := readOnly_assertActiveSchema.returns hschema
  obtain rfl := readOnly_assertCdbReshardRangeIdentity.returns hrange
  cases hfind : Table.find? c.identities identity.migId with
  | some stored =>
    rw [hfind] at hb
    have hexact : (assertExact stored identity tables).Returns c.identities u ids := hb
    have hids : c.identities = ids := (Tx.readOnly_require _ _).returns hexact
    rw [← hids]
    exact h.2
  | none =>
    rw [hfind] at hb
    simp only [insertIdentity, Tx.bind_returns, Tx.gets_returns, Tx.require_returns,
      Table.insert_returns] at hb
    obtain ⟨_, _, ⟨-, rfl⟩, _, _, ⟨-, rfl⟩, hi⟩ := hb
    show (ids.find? k).isSome = true
    rw [Table.find?_insert hi]
    split
    · rfl
    · exact h.2

end

/-! ## The invariant -/

def ShardDb.applied (db : ShardDb δ) : OpLog.AppliedTable := db.cdb.domain.split.applied

def ShardDb.row? (db : ShardDb δ) (key : String × String) : Option OpLog.OpLogRow :=
  db.cdb.opLog.rows.find? key

/-- The rows that moves have inserted. -/
structure Inserted (cdb : OpLog.Cdb δ) : Prop where
  present : ∀ a ∈ cdb.domain.split.applied, a.inserted = true →
    ∃ row, cdb.opLog.rows.find? (a.principalId, a.mutId) = some row
  one : ∀ a ∈ cdb.domain.split.applied, ∀ b ∈ cdb.domain.split.applied, a.inserted = true →
    b.inserted = true → (a.principalId, a.mutId) = (b.principalId, b.mutId) → a = b

structure Sound (db : ShardDb δ) : Prop where
  inserted : Inserted db.cdb
  receiving : ∀ a ∈ db.applied, Receiving db.control a.migId

/-- The row is there, and no move has inserted it. -/
structure Held (key : String × String) (row : OpLog.OpLogRow) (cdb : OpLog.Cdb δ) : Prop where
  here : cdb.opLog.rows.find? key = some row
  own : ∀ a ∈ cdb.domain.split.applied, a.inserted = true → (a.principalId, a.mutId) ≠ key

/-- Rows are added by no move, and no move ends. -/
structure Grows (db db' : ShardDb δ) : Prop where
  rows : ∀ key row, db.row? key = some row → db'.row? key = some row
  applied : db'.applied = db.applied
  receiving : ∀ k, Receiving db.control k → Receiving db'.control k

section
variable {db db' db'' : ShardDb δ} {key : String × String} {row : OpLog.OpLogRow}

theorem Grows.refl (db : ShardDb δ) : Grows db db := ⟨fun _ _ h => h, rfl, fun _ h => h⟩

theorem Grows.trans (h : Grows db db') (h' : Grows db' db'') : Grows db db'' :=
  ⟨fun key row hr => h'.rows key row (h.rows key row hr), h'.applied.trans h.applied,
    fun k hk => h'.receiving k (h.receiving k hk)⟩

theorem Sound.grows (h : Sound db) (hg : Grows db db') : Sound db' := by
  have happlied : db'.cdb.domain.split.applied = db.cdb.domain.split.applied := hg.applied
  refine ⟨⟨fun a ha hins => ?_, fun a ha b hb => ?_⟩, fun a ha => ?_⟩
  · obtain ⟨row, hrow⟩ := h.inserted.present a (happlied ▸ ha) hins
    exact ⟨row, hg.rows _ _ hrow⟩
  · exact h.inserted.one a (happlied ▸ ha) b (happlied ▸ hb)
  · exact hg.receiving _ (h.receiving a (hg.applied ▸ ha))

theorem Held.grows (h : Held key row db.cdb) (hg : Grows db db') : Held key row db'.cdb :=
  ⟨hg.rows _ _ h.here, fun a ha => h.own a (by
    rw [show db'.cdb.domain.split.applied = db.cdb.domain.split.applied from hg.applied] at ha
    exact ha)⟩

/-- What no move has inserted yet is free of moves. -/
theorem Inserted.free {cdb : OpLog.Cdb δ} (h : Inserted cdb) (hnone : cdb.opLog.rows.find? key = none) :
    ∀ a ∈ cdb.domain.split.applied, a.inserted = true → (a.principalId, a.mutId) ≠ key := by
  rintro a ha hins rfl
  obtain ⟨row, hrow⟩ := h.present a ha hins
  rw [hnone] at hrow
  cases hrow

end

/-! ## Calls that add no row of a move -/

section
variable {db db' : ShardDb δ} {a : α}

theorem grows_onControl {x : ControlTx α} (h : (onControl x).Returns db a db')
    (hx : ∀ c, x.Returns db.control a c → ∀ k, Receiving db.control k → Receiving c k) :
    Grows db db' := by
  obtain ⟨c, hc, rfl⟩ := Tx.zoom_returns.mp h
  exact ⟨fun _ _ h => h, rfl, hx c hc⟩

theorem grows_onControl_readOnly {x : ControlTx α} (hx : x.ReadOnly)
    (h : (onControl x).Returns db a db') : db' = db := by
  obtain ⟨c, hc, rfl⟩ := Tx.zoom_returns.mp h
  obtain rfl := hx.returns hc
  rfl

/-- What the source tables of a move do not hold. -/
def aside (cdb : OpLog.Cdb δ) : OpLog.Ledger × OpLog.AppliedTable × SplitStateTable :=
  (cdb.opLog, cdb.domain.split.applied, cdb.domain.split.splitState)

def splitAside (s : OpLog.SplitDb) : OpLog.AppliedTable × SplitStateTable := (s.applied, s.splitState)

theorem frames_onSplit {x : OpLog.SplitTx α} (hx : x.Frames splitAside) :
    (OpLog.onSplit x : Tx Thrown (OpLog.Cdb δ) α).Frames aside := by
  intro cdb
  rcases (OpLog.onSplit x).returns_or_throws cdb with ⟨a, h⟩ | ⟨e, h⟩
  · obtain ⟨s, hs, heq⟩ := Tx.zoom_returns.mp h
    rw [heq]
    exact congrArg (Prod.mk cdb.opLog) (hx.returns hs)
  · obtain ⟨s, hs, heq⟩ := Tx.zoom_throws.mp h
    rw [heq]
    exact congrArg (Prod.mk cdb.opLog) (hx.throws hs)

theorem grows_aside {x : Tx Thrown (OpLog.Cdb δ) α} (hx : x.Frames aside)
    (h : (onCdb x).Returns db a db') : Grows db db' := by
  obtain ⟨cdb, hcdb, rfl⟩ := Tx.zoom_returns.mp h
  have haside := hx.returns hcdb
  have hlog : cdb.opLog = db.cdb.opLog := congrArg Prod.fst haside
  have happlied : cdb.domain.split.applied = db.cdb.domain.split.applied :=
    congrArg (fun x => x.2.1) haside
  have hstate : cdb.domain.split.splitState = db.cdb.domain.split.splitState :=
    congrArg (fun x => x.2.2) haside
  refine ⟨fun key row hr => ?_, happlied, fun k hk => ⟨?_, hk.2⟩⟩
  · show cdb.opLog.rows.find? key = some row
    rw [hlog]
    exact hr
  · show Receives cdb.domain.split.splitState k
    rw [hstate]
    exact hk.1

end

end Chardb.Moves
