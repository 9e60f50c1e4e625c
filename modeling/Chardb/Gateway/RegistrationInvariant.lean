import Chardb.Gateway.RegistrationStore

/-!
# What a registration is made of

A generation, whether a head names it, and its outbox row: `RowOk` says how the three agree. Each
statement of the store changes one of them, and the operations put the statements together so that
they agree again.
-/

namespace Chardb.Gateway

open Chardb.Lib

/-! ## The invariant -/

structure RowOk (g : Generation) (headed : Prop) (o : Option OutboxRow) : Prop where
  states : (g.lifecycle = .installing ∧ g.cdbState = .pending) ∨ g.Active ∨
    (g.lifecycle = .retiring ∧ (g.cdbState = .pending ∨ g.cdbState = .retiring))
  head : headed ↔ g.lifecycle ≠ .retiring
  scrubbed : g.lifecycle = .retiring → g.payload = .retired
  scheduled : g.cdbState = .retiring → g.retryAt.isSome = true
  run : g.Idle ∨ (g.runToken.isSome = true ∧ g.runTargetVersion.isSome = true ∧
    g.runLeaseExpiresAt.isSome = true)
  running : ¬ g.Idle → g.Active ∧ ∀ t ∈ g.runTargetVersion, g.deliveredVersion ≤ t
  leased : ∀ lease ∈ g.runLeaseExpiresAt, ∀ t ∈ g.retryAt, t ≤ lease
  staged : ∀ r ∈ o, g.Active ∧ g.Idle ∧ g.deliveredVersion ≤ r.targetVersion ∧
    r.targetVersion ≤ g.dirtyVersion

/-- The tables agree about one registration. -/
structure Agrees (db : GatewayDb) (id : String) : Prop where
  absent : db.generations.find? id = none → ¬ db.Headed id ∧ db.outbox.find? id = none
  key : ∀ g, db.generations.find? id = some g → ∀ h ∈ db.heads.rows, h.registrationId = id →
    h.key = g.key
  row : ∀ g, db.generations.find? id = some g → RowOk g (db.Headed id) (db.outbox.find? id)

def Inv (db : GatewayDb) : Prop := ∀ id, Agrees db id

variable {db db' : GatewayDb}

theorem inv_empty : Inv .empty := fun id =>
  ⟨fun _ => ⟨fun ⟨h, hm, _⟩ => (by cases hm), rfl⟩, fun g hg => (by cases hg), fun g hg => (by cases hg)⟩

theorem find_generation {g : Generation} (hg : g ∈ db.generations.rows) :
    db.generations.find? g.registrationId = some g := Table.find?_key hg

theorem generation_of_find {id : String} {g : Generation} (hg : db.generations.find? id = some g) :
    g ∈ db.generations.rows ∧ g.registrationId = id := Table.find?_eq_some.mp hg

theorem Inv.rowOk (h : Inv db) {g : Generation} (hg : g ∈ db.generations.rows) :
    RowOk g (db.Headed g.registrationId) (db.outbox.find? g.registrationId) :=
  (h g.registrationId).row g (find_generation hg)

/-- A head that names a generation is that of its subscription. -/
theorem Inv.current_iff (h : Inv db) {g : Generation} (hg : g ∈ db.generations.rows) :
    db.Current g ↔ db.Headed g.registrationId := by
  constructor
  · rintro ⟨hd, hm, hr, -⟩
    exact ⟨hd, hm, hr⟩
  · rintro ⟨hd, hm, hr⟩
    exact ⟨hd, hm, hr, (h g.registrationId).key g (find_generation hg) hd hm hr⟩

/-! ## Rows of one registration -/

namespace RowOk

variable {g : Generation} {headed : Prop} {o : Option OutboxRow}

theorem idle (h : RowOk g headed o) (ha : ¬ g.Active) : g.Idle := by
  by_contra hrun
  exact ha (h.running hrun).1

theorem unstaged (h : RowOk g headed o) (ha : ¬ g.Active) : o = none := by
  refine Option.eq_none_iff_forall_ne_some.mpr fun r hr => ?_
  exact ha (h.staged r hr).1

/-- Columns that `RowOk` does not read may change. -/
theorem dirty (h : RowOk g headed o) (g' : Generation) (hl : g'.lifecycle = g.lifecycle)
    (hc : g'.cdbState = g.cdbState) (hp : g.lifecycle = .retiring → g'.payload = g.payload)
    (hr : g.cdbState = .retiring → g'.retryAt.isSome = true) (hk : g'.runToken = g.runToken)
    (ht : g'.runTargetVersion = g.runTargetVersion) (he : g'.runLeaseExpiresAt = g.runLeaseExpiresAt)
    (hlease : ∀ lease ∈ g.runLeaseExpiresAt, ∀ t ∈ g'.retryAt, t ≤ lease)
    (hd : g'.deliveredVersion = g.deliveredVersion) (hv : g.dirtyVersion ≤ g'.dirtyVersion) :
    RowOk g' headed o := by
  have hidle : g'.Idle ↔ g.Idle := by unfold Generation.Idle; rw [hk, ht, he]
  have hact : g'.Active ↔ g.Active := by unfold Generation.Active; rw [hl, hc]
  refine ⟨?_, ?_, fun hret => ?_, fun hret => ?_, ?_, fun hrun => ?_, ?_, fun r hmem => ?_⟩
  · rw [hl, hc, hact]
    exact h.states
  · rw [hl]
    exact h.head
  · rw [hl] at hret
    rw [hp hret]
    exact h.scrubbed hret
  · rw [hc] at hret
    exact hr hret
  · rw [hidle, hk, ht, he]
    exact h.run
  · rw [hidle] at hrun
    rw [hact, ht, hd]
    exact h.running hrun
  · rw [he]
    exact hlease
  · obtain ⟨ha, hi, hle, hge⟩ := h.staged r hmem
    rw [hact, hidle, hd]
    exact ⟨ha, hi, hle, hge.trans hv⟩

theorem retire (g : Generation) (nowMs : Nat) : RowOk (g.retire nowMs) False none := by
  have hidle : (g.retire nowMs).Idle := ⟨rfl, rfl, rfl⟩
  refine ⟨.inr (.inr ⟨rfl, ?_⟩), ⟨False.elim, fun hne => hne rfl⟩, fun _ => rfl, fun hret => ?_,
    .inl hidle, fun hrun => absurd hidle hrun, fun _ hl => (by cases hl), fun _ hr => (by cases hr)⟩
  · show (if _ then _ else _) = _ ∨ (if _ then _ else _) = _
    split
    · exact .inl rfl
    · exact .inr rfl
  · have hne : g.cdbState ≠ .pending := by
      intro hp
      have hret : (if g.cdbState = .pending then CdbState.pending else .retiring) = .retiring := hret
      rw [if_pos hp] at hret
      cases hret
    show (if _ then _ else _ : Option Nat).isSome = true
    rw [if_neg hne]
    rfl

theorem ambiguous (nowMs : Nat) (g : Generation) :
    RowOk (GatewayDb.ambiguous nowMs g) False none := by
  have hidle : (GatewayDb.ambiguous nowMs g).Idle := ⟨rfl, rfl, rfl⟩
  exact ⟨.inr (.inr ⟨rfl, .inr rfl⟩), ⟨False.elim, fun hne => hne rfl⟩, fun _ => rfl, fun _ => rfl,
    .inl hidle, fun hrun => absurd hidle hrun, fun _ hl => (by cases hl), fun _ hr => (by cases hr)⟩

theorem installed (input : GatewayDb.Install) : RowOk input.generation True none := by
  have hidle : input.generation.Idle := ⟨rfl, rfl, rfl⟩
  exact ⟨.inl ⟨rfl, rfl⟩, ⟨fun _ h => (by cases h), fun _ => trivial⟩, fun h => (by cases h),
    fun h => (by cases h), .inl hidle, fun hrun => absurd hidle hrun, fun _ hl => (by cases hl),
    fun _ hr => (by cases hr)⟩

/-- The outbox row goes, or changes beside its target. -/
theorem outbox (h : RowOk g headed o) {o' : Option OutboxRow}
    (ho : ∀ r' ∈ o', ∃ r ∈ o, r'.targetVersion = r.targetVersion) : RowOk g headed o' := by
  refine ⟨h.states, h.head, h.scrubbed, h.scheduled, h.run, h.running, h.leased, fun r' hr' => ?_⟩
  obtain ⟨r, hr, he⟩ := ho r' hr'
  rw [he]
  exact h.staged r hr

end RowOk

/-! ## Statements -/

theorem updateGenerations_find {p : Generation → Bool} {f : Generation → Generation} {n : Nat}
    (hu : db.updateGenerations p f = some (db', n))
    (hid : ∀ g, (f g).registrationId = g.registrationId) :
    db'.heads = db.heads ∧ db'.outbox = db.outbox ∧ n = (db.generations.select p).length ∧
      ∀ id, db'.generations.find? id =
        (db.generations.find? id).map fun g => if p g then f g else g := by
  obtain ⟨t, ht, he⟩ := Option.map_eq_some_iff.mp hu
  obtain ⟨rfl, rfl⟩ := Prod.mk.inj he
  exact ⟨rfl, rfl, rfl, fun id => Table.find?_update ht (fun g _ _ => hid g) id⟩

theorem inv_updateGenerations {p : Generation → Bool} {f : Generation → Generation} {n : Nat}
    (h : Inv db) (hu : db.updateGenerations p f = some (db', n))
    (hid : ∀ g, (f g).registrationId = g.registrationId ∧ (f g).key = g.key)
    (hok : ∀ g ∈ db.generations.rows, p g = true →
      RowOk g (db.Headed g.registrationId) (db.outbox.find? g.registrationId) →
        RowOk (f g) (db.Headed g.registrationId) (db.outbox.find? g.registrationId)) : Inv db' := by
  obtain ⟨hheads, hout, -, hfind⟩ := updateGenerations_find hu fun g => (hid g).1
  have hheaded : ∀ id, db'.Headed id ↔ db.Headed id := fun id => by
    unfold GatewayDb.Headed
    rw [hheads]
  intro id
  refine ⟨fun hnone => ?_, fun g' hg' hd hm hr => ?_, fun g' hg' => ?_⟩
  · rw [hfind, Option.map_eq_none_iff] at hnone
    rw [hheaded, hout]
    exact (h id).absent hnone
  · rw [hfind, Option.map_eq_some_iff] at hg'
    obtain ⟨g, hg, rfl⟩ := hg'
    rw [hheads] at hm
    have hkey := (h id).key g hg hd hm hr
    split
    · rw [(hid g).2]
      exact hkey
    · exact hkey
  · rw [hfind, Option.map_eq_some_iff] at hg'
    obtain ⟨g, hg, rfl⟩ := hg'
    obtain ⟨hm, rfl⟩ := generation_of_find hg
    have hrow := h.rowOk hm
    rw [propext (hheaded _), hout]
    split
    · exact hok g hm ‹_› hrow
    · exact hrow

theorem inv_updateOutbox {p : OutboxRow → Bool} {f : OutboxRow → OutboxRow} {n : Nat} (h : Inv db)
    (hu : db.updateOutbox p f = some (db', n))
    (hf : ∀ o, (f o).registrationId = o.registrationId ∧ (f o).targetVersion = o.targetVersion) :
    Inv db' := by
  obtain ⟨t, ht, he⟩ := Option.map_eq_some_iff.mp hu
  obtain ⟨rfl, rfl⟩ := Prod.mk.inj he
  have hfind := fun id => Table.find?_update ht (fun o _ _ => (hf o).1) id
  intro id
  refine ⟨fun hnone => ?_, (h id).key, fun g hg => ((h id).row g hg).outbox fun r' hr' => ?_⟩
  · obtain ⟨hhead, hout⟩ := (h id).absent hnone
    refine ⟨hhead, ?_⟩
    rw [hfind, hout]
    rfl
  · rw [hfind, Option.mem_def, Option.map_eq_some_iff] at hr'
    obtain ⟨r, hr, rfl⟩ := hr'
    refine ⟨r, hr, ?_⟩
    split
    · exact (hf r).2
    · rfl

theorem inv_deleteOutbox (h : Inv db) (p : OutboxRow → Bool) : Inv (db.deleteOutbox p) := by
  have hfind := fun id => Table.find?_deleteWhere (t := db.outbox) (p := p) id
  intro id
  refine ⟨fun hnone => ?_, (h id).key, fun g hg => ((h id).row g hg).outbox fun r' hr' => ?_⟩
  · obtain ⟨hhead, hout⟩ := (h id).absent hnone
    refine ⟨hhead, ?_⟩
    show (db.outbox.deleteWhere p).find? id = none
    rw [hfind, hout]
    rfl
  · have hr' : r' ∈ (db.outbox.deleteWhere p).find? id := hr'
    rw [hfind, Option.mem_def, Option.filter_eq_some_iff] at hr'
    exact ⟨r', hr'.1, rfl⟩

/-- What happens to the tables when one registration loses its head and its outbox row. -/
structure Detaches (db db' : GatewayDb) (id : String) (f : Generation → Generation) : Prop where
  generations : ∀ i, db'.generations.find? i =
    (db.generations.find? i).map fun g => if i = id then f g else g
  heads : ∀ h, h ∈ db'.heads.rows ↔ h ∈ db.heads.rows ∧ h.registrationId ≠ id
  outbox : ∀ i, db'.outbox.find? i = if i = id then none else db.outbox.find? i

theorem Detaches.headed {id : String} {f : Generation → Generation} (hd : Detaches db db' id f)
    (i : String) : db'.Headed i ↔ db.Headed i ∧ i ≠ id := by
  constructor
  · rintro ⟨h, hm, rfl⟩
    obtain ⟨hm, hne⟩ := (hd.heads h).mp hm
    exact ⟨⟨h, hm, rfl⟩, hne⟩
  · rintro ⟨⟨h, hm, rfl⟩, hne⟩
    exact ⟨h, (hd.heads h).mpr ⟨hm, hne⟩, rfl⟩

theorem inv_detaches {id : String} {f : Generation → Generation} (h : Inv db)
    (hd : Detaches db db' id f)
    (hok : ∀ g ∈ db.generations.rows, g.registrationId = id → RowOk (f g) False none) : Inv db' := by
  intro i
  refine ⟨fun hnone => ?_, fun g' hg' hh hm hr => ?_, fun g' hg' => ?_⟩
  · rw [hd.generations, Option.map_eq_none_iff] at hnone
    obtain ⟨hhead, hout⟩ := (h i).absent hnone
    rw [hd.headed, hd.outbox, hout]
    exact ⟨fun hh => hhead hh.1, by split <;> rfl⟩
  · obtain ⟨hm, hne⟩ := (hd.heads hh).mp hm
    rw [hd.generations, Option.map_eq_some_iff] at hg'
    obtain ⟨g, hg, rfl⟩ := hg'
    rw [if_neg fun he => hne (hr.trans he)]
    exact (h i).key g hg hh hm hr
  · rw [hd.generations, Option.map_eq_some_iff] at hg'
    obtain ⟨g, hg, rfl⟩ := hg'
    obtain ⟨hm, rfl⟩ := generation_of_find hg
    have hheaded := propext (hd.headed g.registrationId)
    rw [hheaded, hd.outbox]
    by_cases he : g.registrationId = id
    · rw [if_pos he, if_pos he, show (db.Headed g.registrationId ∧ g.registrationId ≠ id) = False from
        propext ⟨fun hh => hh.2 he, False.elim⟩]
      exact hok g hm he
    · rw [if_neg he, if_neg he, show (db.Headed g.registrationId ∧ g.registrationId ≠ id) =
        db.Headed g.registrationId from propext ⟨And.left, fun hh => ⟨hh, he⟩⟩]
      exact h.rowOk hm

end Chardb.Gateway
