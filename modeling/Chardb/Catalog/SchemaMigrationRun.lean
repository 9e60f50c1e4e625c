import Chardb.Catalog.SchemaMigrationInvariant
import Chardb.Schema.MigrationRun

/-!
# Progress of a Catalog migration

A migration in flight whose id is unused reaches its target: its steps are applied in order, every
shard of the inventory is recorded, and it completes.
-/

namespace Chardb.Catalog

open Chardb.Lib Chardb.Schema

section
variable {δ ν α : Type} [JsNumber ν] {sha256Hex : String → String} {hooks : CatalogHooks δ}
  {journal : ChardbMigrationJournal sha256Hex ν} {s s' : CatalogStore δ}

/-! ## Hooks that return -/

/-- No statement and no hook throws, under the recovery generation of the moment. -/
structure CatalogHooks.Returning (hooks : CatalogHooks δ) : Prop where
  exec : ∀ s d, ∃ d', (hooks.exec s).Returns d () d'
  recordMigratedCatalogAuthoritySchema :
    ∀ d, ∃ d', hooks.recordMigratedCatalogAuthoritySchema.Returns d () d'
  assertRecoveryAvailable : ∀ d, ∃ d', hooks.assertRecoveryAvailable.Returns d () d'
  assertRequest : ∀ d, ∃ generation d', (hooks.assertRequest generation).Returns d () d'

theorem CatalogHooks.Returning.statements (hh : hooks.Returning) : hooks.statements.Returning where
  exec := hh.exec
  recordDomainSchema := hh.recordMigratedCatalogAuthoritySchema
  beforeStatements _ d := ⟨d, Tx.pure_returns.mpr ⟨rfl, rfl⟩⟩
  afterStatements _ d := ⟨d, Tx.pure_returns.mpr ⟨rfl, rfl⟩⟩

theorem onTables_total {x : SchemaTx δ α} {b : α} {t : CdbDb δ}
    (h : x.Returns s.db.rest.tables b t) : ∃ s', (onTables x).Returns s b s' ∧
      s'.db = { s.db with rest := { s.db.rest with tables := t } } := by
  unfold onTables onRest
  exact ⟨_, Tx.zoom_returns.mpr ⟨_, Tx.zoom_returns.mpr ⟨t, h, rfl⟩, rfl⟩, rfl⟩

theorem onShards_total {x : Tx Thrown SchemaShardTable α} {b : α} {t : SchemaShardTable}
    (h : x.Returns s.db.rest.shards b t) : ∃ s', (onShards x).Returns s b s' := by
  unfold onShards onRest
  exact ⟨_, Tx.zoom_returns.mpr ⟨_, Tx.zoom_returns.mpr ⟨t, h, rfl⟩, rfl⟩⟩

theorem onBaselines_total {x : Tx Thrown SchemaBaselineTable α} {b : α} {t : SchemaBaselineTable}
    (h : x.Returns s.db.rest.baselines b t) : ∃ s', (onBaselines x).Returns s b s' := by
  unfold onBaselines onRest
  exact ⟨_, Tx.zoom_returns.mpr ⟨_, Tx.zoom_returns.mpr ⟨t, h, rfl⟩, rfl⟩⟩

theorem onHook_total {x : Tx Thrown δ Unit} {d : δ} (h : x.Returns s.db.rest.tables.domain () d) :
    ∃ s', (onHook x).Returns s () s' := by
  obtain ⟨s', hs', -⟩ := onTables_total (s := s) (Schema.onDomain_returns.mpr ⟨d, h, rfl⟩)
  exact ⟨s', hs'⟩

theorem executeStep_total (hh : hooks.Returning) (baseline : Bool) (statements : List String)
    (s : CatalogStore δ) : ∃ s', (executeStep hooks baseline statements).Returns s () s' ∧
      s'.db.rest.tables.steps = s.db.rest.tables.steps := by
  unfold executeStep
  cases baseline with
  | true => exact ⟨s, Tx.pure_returns.mpr ⟨rfl, rfl⟩, rfl⟩
  | false =>
    obtain ⟨domain, hexec⟩ := execStatements_total hh.statements statements s.db.rest.tables
    obtain ⟨s', hs', hdb⟩ := onTables_total hexec
    exact ⟨s', hs', by rw [hdb]⟩

/-! ## A migration whose id is unused -/

/-- A migration is in flight, and no step at or below the active version has its id. -/
structure Flies (journal : ChardbMigrationJournal sha256Hex ν) (s : CatalogStore δ) (row : CdbSchemaState)
    (p : CdbSchemaPending) (b t : Nat) : Prop where
  stored : s.db.rest.tables.schema = some row
  pending : row.pending = some p
  installed : Installed journal row b
  inFlight : ∃ adopted, InFlight journal adopted s row p b t
  unused : s.db.rest.tables.Unused p.migrationId b

variable {row : CdbSchemaState} {p : CdbSchemaPending} {b t : Nat}

theorem Flies.inv (hf : Flies journal s row p b t) : ∃ adopted, CatalogInv journal adopted s := by
  obtain ⟨adopted, hin⟩ := hf.inFlight
  exact ⟨adopted, .migrating row p b t hf.stored hf.pending hf.installed hin⟩

theorem Flies.of_inv {adopted : Nat} (hf : Flies journal s row p b t) (hi : CatalogInv journal adopted s')
    (hschema : s'.db.rest.tables.schema = s.db.rest.tables.schema)
    (hunused : s'.db.rest.tables.Unused p.migrationId b) : Flies journal s' row p b t := by
  have hstored := hschema.trans hf.stored
  obtain ⟨b', t', hb, hin⟩ := hi.of_migrating hstored hf.pending
  obtain ⟨_, hold⟩ := hf.inFlight
  obtain rfl : b' = b := by
    have h₁ := hb.version
    have h₂ := hf.installed.version
    omega
  obtain rfl : t' = t := by
    have h₁ := hin.target
    have h₂ := hold.target
    omega
  exact ⟨hstored, hf.pending, hb, ⟨adopted, hin⟩, hunused⟩

theorem Flies.quiet (hf : Flies journal s row p b t) (hq : Quiet s s') : Flies journal s' row p b t := by
  obtain ⟨adopted, hi⟩ := hf.inv
  refine hf.of_inv (inv_quiet hi hq) hq.schema fun st hst => ?_
  rw [hq.steps] at hst
  exact hf.unused st hst

theorem Flies.upTo_version (hf : Flies journal s row p b t) : (upTo journal t).version = t := by
  obtain ⟨_, hin⟩ := hf.inFlight
  rw [Catalog.upTo_version, Nat.min_eq_left hin.target_le]

theorem Flies.upTo_length (hf : Flies journal s row p b t) : (upTo journal t).migrations.length = t := by
  obtain ⟨_, hin⟩ := hf.inFlight
  show (journal.migrations.take t).length = t
  rw [List.length_take, Nat.min_eq_left hin.target_le]

theorem Flies.expected (hf : Flies journal s row p b t) :
    expectedSteps (upTo journal t) row.activeVersion p.targetVersion =
      .ok ((upTo journal t).migrations.drop b) := by
  obtain ⟨_, hin⟩ := hf.inFlight
  rw [hf.installed.version, hin.target]
  exact expectedSteps_upTo hin.version_lt.le hf.upTo_version.ge

theorem Flies.applied_eq (hf : Flies journal s row p b t) :
    s.db.rest.tables.applied p.migrationId = flightSteps s p b := by
  obtain ⟨_, hin⟩ := hf.inFlight
  exact @CdbDb.Unused.applied_eq δ ν _ sha256Hex (upTo journal t) _ _ _ hf.unused hin.steps

theorem Flies.begins (hf : Flies journal s row p b t) :
    beginsWith (s.db.rest.tables.applied p.migrationId) ((upTo journal t).migrations.drop b) = true := by
  obtain ⟨_, hin⟩ := hf.inFlight
  exact @CdbDb.Unused.begins δ ν _ sha256Hex (upTo journal t) _ _ _ hf.unused hin.steps

/-- The Worker that packages the target fits the state. -/
theorem Flies.fits (hf : Flies journal s row p b t) :
    (assertPackagedState (upTo journal t)).Returns s () s := by
  obtain ⟨_, hin⟩ := hf.inFlight
  have hversion := hf.upTo_version
  have hb := hf.installed
  have hlt := hin.version_lt
  have htarget := hin.target
  have hdigest : ∀ n : Nat, n ≤ t → migrationDigestAt (upTo journal t) n = .ok (journal.prefixDigest n) := by
    intro n hn
    rw [migrationDigestAt_eq (Int.natCast_nonneg n) (by rw [hversion]; exact Int.ofNat_le.mpr hn),
      Int.toNat_natCast, prefixDigest_upTo hn]
  unfold assertPackagedState readCatalogSchemaState
  simp only [Tx.bind_returns, Tx.gets_returns, Tx.ofOption_returns, Tx.require_returns,
    Tx.ofExcept_returns]
  refine ⟨row, s, ⟨_, s, ⟨rfl, rfl⟩, hf.stored, rfl⟩, (), s, ⟨?_, rfl⟩, journal.prefixDigest b, s, ⟨?_, rfl⟩,
    (), s, ⟨hb.digest, rfl⟩, ?_⟩
  · rw [hb.version, hversion]
    exact Int.ofNat_le.mpr hlt.le
  · rw [hb.version]
    exact hdigest b hlt.le
  · simp only [hf.pending, Tx.bind_returns, Tx.require_returns, Tx.ofExcept_returns]
    refine ⟨(), s, ⟨⟨?_, ?_, hin.epoch⟩, rfl⟩, journal.prefixDigest t, s, ⟨?_, rfl⟩, hin.digest, rfl⟩
    · rw [hb.version, htarget]
      exact Int.ofNat_lt.mpr hlt
    · rw [htarget, hversion]
    · rw [htarget]
      exact hdigest t (Nat.le_refl t)

theorem Flies.step_eq {call : CatalogCall} {nowMs : Int} (hf : Flies journal s row p b t)
    (h : (call.body hooks (upTo journal t) nowMs).Returns s () s') :
    catalogStep hooks journal s ⟨call, t, nowMs⟩ = s' := by
  have hexec : (CatalogRequest.execute hooks journal ⟨call, t, nowMs⟩).Returns s () s' := by
    unfold CatalogRequest.execute storageTransaction
    exact Tx.transactionOn_returns.mpr (Tx.bind_returns.mpr ⟨(), s, hf.fits, h⟩)
  exact hexec.after

theorem Flies.step_inv {call : CatalogCall} {nowMs : Int} (hf : Flies journal s row p b t)
    (h : catalogStep hooks journal s ⟨call, t, nowMs⟩ = s') : ∃ adopted, CatalogInv journal adopted s' := by
  obtain ⟨_, hi⟩ := hf.inv
  obtain ⟨adopted, hi', -⟩ := inv_step hooks ⟨call, t, nowMs⟩ hi
  exact ⟨adopted, h ▸ hi'⟩

/-- A hook that returns, and the state after it. -/
theorem Flies.hook {x : Tx Thrown δ Unit} (hf : Flies journal s row p b t)
    (hx : ∀ d, ∃ d', x.Returns d () d') : ∃ s₁, (onHook x).Returns s () s₁ ∧ Quiet s s₁ ∧
      Flies journal s₁ row p b t := by
  obtain ⟨d, hd⟩ := hx s.db.rest.tables.domain
  obtain ⟨s₁, hs₁⟩ := onHook_total hd
  obtain ⟨hq, -⟩ := quiet_onHook hs₁
  exact ⟨s₁, hs₁, hq, hf.quiet hq⟩

/-! ## Steps -/

/-- The next step returns. -/
theorem Flies.next_total {m : ChardbMigration ν} {nowMs : Int} (hh : hooks.Returning)
    (hf : Flies journal s row p b t)
    (hm : (upTo journal t).migrations[b + (flightSteps s p b).length]? = some m) (hnow : 0 ≤ nowMs) :
    s.db.rest.tables.steps.find? (p.migrationId, m.version) = none ∧
      ∃ s', (applyCatalogNext hooks (upTo journal t) p.migrationId m row.activeVersion p.targetVersion
        nowMs).Returns s () s' := by
  obtain ⟨_, hin⟩ := hf.inFlight
  have hversion := (upTo journal t).contiguous _ _ hm
  have hfresh : s.db.rest.tables.steps.find? (p.migrationId, m.version) = none :=
    @CdbDb.Unused.next_fresh δ ν _ sha256Hex (upTo journal t) _ _ _ _ hf.unused hin.steps
      (by rw [hversion]; rfl)
  refine ⟨hfresh, ?_⟩
  obtain ⟨s₁, hexec, hsteps⟩ := executeStep_total hh (catalogSchemaBaselineExists s p.migrationId)
    m.catalogStatements s
  have hcheck : (⟨p.migrationId, m.version, m.digest, nowMs⟩ : SchemaStep).check :=
    ⟨by show 0 < m.version; omega, hnow⟩
  obtain ⟨steps, hinsert⟩ := Option.isSome_iff_exists.mp <| Table.insert?_isSome.mpr
    ⟨Table.find?_eq_none.mp (hsteps.symm ▸ hfresh), hcheck⟩
  obtain ⟨s₂, hlast, -⟩ := onTables_total (s := s₁) (Schema.insertStep_returns.mpr ⟨steps, hinsert, rfl⟩)
  refine ⟨s₂, ?_⟩
  unfold applyCatalogNext
  simp only [Tx.bind_returns, Tx.gets_returns, Tx.ofExcept_returns, Tx.require_returns]
  refine ⟨_, s, ⟨rfl, rfl⟩, _, s, ⟨hf.expected, rfl⟩, (), s, ⟨hf.begins, rfl⟩, (), s, ⟨?_, rfl⟩, _, s,
    ⟨rfl, rfl⟩, (), s₁, hexec, hlast⟩
  rw [hf.applied_eq, List.getElem?_drop, hm]
  rfl

theorem Flies.apply_next {nowMs : Int} (hh : hooks.Returning) (hf : Flies journal s row p b t)
    (hlt : b + (flightSteps s p b).length < t) (hnow : 0 ≤ nowMs) :
    ∃ s', catalogStep hooks journal s ⟨.applyCatalogSchemaMigration p.migrationId
        (b + (flightSteps s p b).length + 1 : Nat), t, nowMs⟩ = s' ∧ Flies journal s' row p b t ∧
      (flightSteps s' p b).length = (flightSteps s p b).length + 1 := by
  have hlength := hf.upTo_length
  have hversion := hf.upTo_version
  obtain ⟨m, hm⟩ : ∃ m, (upTo journal t).migrations[b + (flightSteps s p b).length]? = some m :=
    ⟨_, List.getElem?_eq_getElem (by omega)⟩
  have hmv : m.version = (b + (flightSteps s p b).length + 1 : Nat) := (upTo journal t).contiguous _ _ hm
  obtain ⟨s₁, hhook, hq, hf₁⟩ := hf.hook hh.assertRecoveryAvailable
  have hflight := flightSteps_congr hq.steps p b
  obtain ⟨hfresh, s', hnext⟩ := hf₁.next_total hh (hflight.symm ▸ hm) hnow
  obtain ⟨_, hin⟩ := hf₁.inFlight
  have hat : (upTo journal t).migrations[(m.version - 1).toNat]? = some m := by
    rw [show (m.version - 1).toNat = b + (flightSteps s p b).length by omega]
    exact hm
  have hstepped := applyCatalogNext_returns hf₁.stored hf₁.pending hat hnext
  have hbody : ((CatalogCall.applyCatalogSchemaMigration p.migrationId m.version).body hooks
      (upTo journal t) nowMs).Returns s () s' := by
    simp only [CatalogCall.body, applyCatalogSchemaMigrationStep, readCatalogSchemaState,
      Tx.bind_returns, Tx.gets_returns, Tx.ofOption_returns, Tx.require_returns]
    refine ⟨(), s₁, hhook, (), s₁, ⟨⟨(upTo journal t).safe (by omega) (by omega), by omega, by omega⟩, rfl⟩,
      row, s₁, ⟨_, s₁, ⟨rfl, rfl⟩, hf₁.stored, rfl⟩, ?_⟩
    simp only [hf₁.pending, applyCatalogPending, Tx.bind_returns, Tx.gets_returns, Tx.ofOption_returns,
      Tx.require_returns]
    refine ⟨(), s₁, ⟨trivial, rfl⟩, (), s₁, ⟨by rw [hin.target]; omega, rfl⟩, m, s₁, ⟨?_, rfl⟩, _, s₁,
      ⟨rfl, rfl⟩, ?_⟩
    · rw [hat, Option.filter_some, if_pos (decide_eq_true rfl)]
    · rw [hfresh]
      exact hnext
  have hstep := hf.step_eq hbody
  have hbeyond : (b : Int) < (⟨p.migrationId, m.version, m.digest, nowMs⟩ : SchemaStep).version := by
    show (b : Int) < m.version
    omega
  obtain ⟨adopted, hi⟩ := hf.step_inv hstep
  rw [← hmv]
  refine ⟨s', hstep, hf.of_inv hi (hstepped.schema.trans hq.schema) fun st hst hid => ?_, ?_⟩
  · rcases (Table.mem_insert hstepped.steps).mp hst with hst | rfl
    · exact hf₁.unused st hst hid
    · exact hbeyond
  · have hinsert : flightSteps s' p b = flightSteps s₁ p b ++ [⟨p.migrationId, m.version, m.digest, nowMs⟩] :=
      inFlight_insert s₁.db.rest.tables hstepped.steps hbeyond
    rw [hinsert, List.length_append, hflight]
    rfl

/-! ## Shards -/

theorem activateShard_total {shardId : String} {nowMs : Int} {r : SchemaShardRow}
    (hf : Flies journal s row p b t) (hr : r ∈ s.db.rest.shards) (hid : r.shardId = shardId)
    (hnow : 0 ≤ nowMs) : ∃ s', (activateCatalogSchemaShard p.migrationId shardId nowMs).Returns s () s' ∧
      s'.db.rest.shards.rows = s.db.rest.shards.rows.map fun r =>
        if decide (r.key = (p.migrationId, shardId)) && !r.active then
          { r with active := true, lastError := none, updatedAt := nowMs } else r := by
  obtain ⟨_, hin⟩ := hf.inFlight
  have hkey : r.key = (p.migrationId, shardId) := Prod.ext (hin.owner r hr) hid
  have hfind : s.db.rest.shards.find? (p.migrationId, shardId) = some r := hkey ▸ Table.find?_key hr
  obtain ⟨shards, hupdate⟩ := Option.isSome_iff_exists.mp <| Table.update?_isSome
    (t := s.db.rest.shards) (p := fun r => decide (r.key = (p.migrationId, shardId)) && !r.active)
    (f := fun r => { r with active := true, lastError := none, updatedAt := nowMs })
    (fun _ _ _ => rfl) fun _ _ _ => hnow
  have hcount := Table.select_key_length (t := s.db.rest.shards) (k := (p.migrationId, shardId))
    (p := fun r => !r.active)
  obtain ⟨s', hs'⟩ := onShards_total (s := s)
    (Table.update_returns (e := Thrown.constraint "catalog_schema_shards").mpr ⟨hupdate, rfl⟩)
  obtain ⟨shards', hshards', hdb⟩ := onShards_returns hs'
  have hrows := Table.rows_update (Table.update_returns.mp hshards').1
  refine ⟨s', ?_, by rw [hdb]; exact hrows⟩
  unfold activateCatalogSchemaShard readCatalogSchemaState updatePendingShard
  simp only [Tx.bind_returns, Tx.gets_returns, Tx.ofOption_returns, Tx.require_returns]
  refine ⟨row, s, ⟨_, s, ⟨rfl, rfl⟩, hf.stored, rfl⟩, (), s, ⟨by rw [hf.pending]; rfl, rfl⟩, _, s', hs',
    Tx.ite_returns.mpr ?_⟩
  rw [hfind] at hcount
  cases hactive : r.active with
  | false => exact .inl ⟨by rw [hcount]; simp [hactive], Tx.pure_returns.mpr ⟨rfl, rfl⟩⟩
  | true =>
    refine .inr ⟨by rw [hcount]; simp [hactive], ?_⟩
    have hsame : s'.db.rest.shards.find? (p.migrationId, shardId) = some r := by
      rw [hdb, Table.find?_update (Table.update_returns.mp hshards').1 (fun _ _ _ => rfl), hfind,
        Option.map_some, if_neg (by simp [hactive])]
    simp only [Tx.bind_returns, Tx.gets_returns, Tx.require_returns]
    exact ⟨_, s', ⟨rfl, rfl⟩, by rw [hsame]; simp [hactive], rfl⟩

/-- A shard is recorded; the other ones stay as they are. -/
theorem Flies.shard {shardId : String} {nowMs : Int} (hh : hooks.Returning)
    (hf : Flies journal s row p b t) (hr : ∃ r ∈ s.db.rest.shards, r.shardId = shardId) (hnow : 0 ≤ nowMs) :
    ∃ generation s', catalogStep hooks journal s ⟨.shardMigrated p.migrationId shardId generation, t, nowMs⟩ = s' ∧
      Flies journal s' row p b t ∧ flightSteps s' p b = flightSteps s p b ∧
      (∀ r ∈ s'.db.rest.shards, r.active = false → r ∈ s.db.rest.shards ∧ r.shardId ≠ shardId) ∧
      ∀ r ∈ s.db.rest.shards, ∃ r' ∈ s'.db.rest.shards, r'.shardId = r.shardId := by
  obtain ⟨generation, d, hd⟩ := hh.assertRequest s.db.rest.tables.domain
  obtain ⟨s₁, hhook⟩ := onHook_total hd
  obtain ⟨hq, -⟩ := quiet_onHook hhook
  have hf₁ := hf.quiet hq
  obtain ⟨_, hin⟩ := hf.inFlight
  obtain ⟨r, hmem, hid⟩ := hr
  obtain ⟨s', hactivate, hrows⟩ := activateShard_total hf₁ (hq.shards ▸ hmem) hid hnow
  have hstep : catalogStep hooks journal s ⟨.shardMigrated p.migrationId shardId generation, t, nowMs⟩ = s' :=
    hf.step_eq (Tx.bind_returns.mpr ⟨(), s₁, hhook, hactivate⟩)
  have hrecorded := activateShard_returns hactivate
  obtain ⟨adopted, hi⟩ := hf.step_inv hstep
  rw [hq.shards] at hrows
  refine ⟨generation, s', hstep, hf.of_inv hi (hrecorded.schema.trans hq.schema) fun st hst => ?_, ?_,
    fun r' hr' hinactive => ?_, fun r' hr' => ?_⟩
  · rw [hrecorded.steps] at hst
    exact hf₁.unused st hst
  · exact flightSteps_congr (hrecorded.steps.trans hq.steps) p b
  · rw [← Table.mem_rows, hrows] at hr'
    obtain ⟨x, hx, rfl⟩ := List.mem_map.mp hr'
    split at hinactive
    · cases hinactive
    · rename_i hne
      rw [if_neg hne]
      refine ⟨hx, fun hsame => hne ?_⟩
      have hkey : x.key = (p.migrationId, shardId) := Prod.ext (hin.owner x hx) hsame
      simp [hkey, hinactive]
  · have hmem' := List.mem_map_of_mem (f := fun r : SchemaShardRow =>
      if decide (r.key = (p.migrationId, shardId)) && !r.active then
        { r with active := true, lastError := none, updatedAt := nowMs } else r) hr'
    rw [← hrows] at hmem'
    refine ⟨_, hmem', ?_⟩
    split
    · rfl
    · rfl

/-! ## Completion -/

theorem Flies.complete {nowMs : Int} (hh : hooks.Returning) (hf : Flies journal s row p b t)
    (hall : b + (flightSteps s p b).length = t) (hactive : ∀ r ∈ s.db.rest.shards, r.active = true) :
    (catalogStep hooks journal s ⟨.completeSchemaMigration p.migrationId, t, nowMs⟩).db.rest.tables.schema =
      some ⟨p.targetVersion, p.targetEpoch, p.targetDigest, some p.migrationId, none⟩ := by
  obtain ⟨s₁, hhook, hq, hf₁⟩ := hf.hook hh.assertRecoveryAvailable
  obtain ⟨s₂, hrecord, hq₂, hf₂⟩ := hf₁.hook hh.recordMigratedCatalogAuthoritySchema
  obtain ⟨s₃, hshards⟩ := onShards_total (s := s₂)
    (x := Table.delete fun r => decide (r.migrationId = p.migrationId))
    (Table.delete_returns.mpr ⟨rfl, rfl⟩)
  obtain ⟨s₄, hbaselines⟩ := onBaselines_total (s := s₃)
    (x := Table.delete fun r => decide (r.migrationId = p.migrationId))
    (Table.delete_returns.mpr ⟨rfl, rfl⟩)
  obtain ⟨s₅, hwrite, hdb⟩ := onTables_total (s := s₄)
    (x := writeState ⟨p.targetVersion, p.targetEpoch, p.targetDigest, some p.migrationId, none⟩)
    (Schema.writeState_returns.mpr rfl)
  have hnone : s₁.db.rest.shards.select (fun r => decide (r.migrationId = p.migrationId) && !r.active) = [] := by
    refine List.filter_eq_nil_iff.mpr fun r hr => ?_
    simp [hactive r (hq.shards ▸ hr)]
  have hbody : ((CatalogCall.completeSchemaMigration p.migrationId).body hooks
      (upTo journal t) nowMs).Returns s () s₅ := by
    simp only [CatalogCall.body, completeCatalogSchemaMigration, readCatalogSchemaState,
      Tx.bind_returns, Tx.gets_returns, Tx.ofOption_returns]
    refine ⟨(), s₁, hhook, row, s₁, ⟨_, s₁, ⟨rfl, rfl⟩, hf₁.stored, rfl⟩, ?_⟩
    simp only [hf₁.pending, completePending, writeCatalogSchemaState, Tx.bind_returns, Tx.gets_returns,
      Tx.require_returns, Tx.ofExcept_returns]
    refine ⟨(), s₁, ⟨trivial, rfl⟩, _, s₁, ⟨rfl, rfl⟩, (), s₁, ⟨hnone, rfl⟩, _, s₁, ⟨hf₁.expected, rfl⟩, _, s₁,
      ⟨rfl, rfl⟩, (), s₁, ⟨⟨?_, hf₁.begins⟩, rfl⟩, (), s₂, hrecord, _, s₃, hshards, _, s₄, hbaselines, hwrite⟩
    rw [hf₁.applied_eq, flightSteps_congr hq.steps, List.length_drop, hf.upTo_length]
    omega
  rw [hf.step_eq hbody, hdb]

/-! ## Runs -/

/-- A call that advances the migration. -/
def CatalogCall.Advances (migrationId : String) (call : CatalogCall) : Prop :=
  (∃ version, call = .applyCatalogSchemaMigration migrationId version) ∨
    (∃ shardId generation, call = .shardMigrated migrationId shardId generation) ∨
    call = .completeSchemaMigration migrationId

theorem catalogRun_cons {request : CatalogRequest} {requests : List CatalogRequest} :
    catalogRun hooks journal s (request :: requests) =
      catalogRun hooks journal (catalogStep hooks journal s request) requests := rfl

theorem catalogRun_append {first second : List CatalogRequest} :
    catalogRun hooks journal s (first ++ second) =
      catalogRun hooks journal (catalogRun hooks journal s first) second := List.foldl_append

/-- The steps that are left are applied in order. -/
theorem Flies.apply_all {k : Nat} (hh : hooks.Returning) (hf : Flies journal s row p b t)
    (hk : b + (flightSteps s p b).length + k = t) :
    ∃ more : List CatalogRequest, (∀ request ∈ more, request.call.Advances p.migrationId) ∧
      Flies journal (catalogRun hooks journal s more) row p b t ∧
      b + (flightSteps (catalogRun hooks journal s more) p b).length = t := by
  induction k generalizing s with
  | zero => exact ⟨[], fun _ h => absurd h List.not_mem_nil, hf, hk⟩
  | succ k ih =>
    obtain ⟨s', hstep, hf', hlength⟩ := hf.apply_next hh (by omega) (Int.le_refl 0)
    obtain ⟨more, hmore, hdone⟩ := ih hf' (by omega)
    refine ⟨⟨.applyCatalogSchemaMigration p.migrationId (b + (flightSteps s p b).length + 1 : Nat), t, 0⟩ ::
      more, List.forall_mem_cons.mpr ⟨.inl ⟨_, rfl⟩, hmore⟩, ?_⟩
    rw [catalogRun_cons, hstep]
    exact hdone

/-- The shards that wait are recorded one after the other. -/
theorem Flies.shard_all {shardIds : List String} (hh : hooks.Returning) (hf : Flies journal s row p b t)
    (hids : ∀ id ∈ shardIds, ∃ r ∈ s.db.rest.shards, r.shardId = id)
    (hwait : ∀ r ∈ s.db.rest.shards, r.active = false → r.shardId ∈ shardIds) :
    ∃ more : List CatalogRequest, (∀ request ∈ more, request.call.Advances p.migrationId) ∧
      Flies journal (catalogRun hooks journal s more) row p b t ∧
      flightSteps (catalogRun hooks journal s more) p b = flightSteps s p b ∧
      ∀ r ∈ (catalogRun hooks journal s more).db.rest.shards, r.active = true := by
  induction shardIds generalizing s with
  | nil =>
    refine ⟨[], fun _ h => absurd h List.not_mem_nil, hf, rfl, fun r hr => ?_⟩
    by_contra hinactive
    have := hwait r hr (by simpa using hinactive)
    cases this
  | cons id rest ih =>
    obtain ⟨generation, s', hstep, hf', hflight, hleft, hkeeps⟩ :=
      hf.shard hh (hids id List.mem_cons_self) (Int.le_refl 0)
    obtain ⟨more, hmore, hrun, hsteps, hdone⟩ := ih hf' (fun id' hid' => by
        obtain ⟨r, hr, hrid⟩ := hids id' (List.mem_cons_of_mem _ hid')
        obtain ⟨r', hr', hsame⟩ := hkeeps r hr
        exact ⟨r', hr', hsame.trans hrid⟩) fun r hr hinactive => by
        obtain ⟨hold, hne⟩ := hleft r hr hinactive
        exact (List.mem_cons.mp (hwait r hold hinactive)).resolve_left hne
    refine ⟨⟨.shardMigrated p.migrationId id generation, t, 0⟩ :: more,
      List.forall_mem_cons.mpr ⟨.inr (.inl ⟨_, _, rfl⟩), hmore⟩, ?_⟩
    rw [catalogRun_cons, hstep]
    exact ⟨hrun, hsteps.trans hflight, hdone⟩

/-- A migration whose id is unused reaches its target. -/
theorem Flies.finish (hh : hooks.Returning) (hf : Flies journal s row p b t) :
    ∃ more : List CatalogRequest, (∀ request ∈ more, request.call.Advances p.migrationId) ∧
      (catalogRun hooks journal s more).db.rest.tables.schema =
        some ⟨p.targetVersion, p.targetEpoch, p.targetDigest, some p.migrationId, none⟩ := by
  obtain ⟨_, hin⟩ := hf.inFlight
  have hle : b + (flightSteps s p b).length ≤ t := by
    have hlength := congrArg List.length hin.steps
    rw [List.length_map, List.length_map, List.length_take, List.length_drop, hf.upTo_length] at hlength
    have := hin.version_lt
    omega
  obtain ⟨first, hfirst, hf₁, hall⟩ := hf.apply_all hh (Nat.add_sub_of_le hle)
  have hids : ∀ id ∈ (catalogRun hooks journal s first).db.rest.shards.rows.map SchemaShardRow.shardId,
      ∃ r ∈ (catalogRun hooks journal s first).db.rest.shards, r.shardId = id := fun id hid => by
    obtain ⟨r, hr, rfl⟩ := List.mem_map.mp hid
    exact ⟨r, hr, rfl⟩
  obtain ⟨second, hsecond, hf₂, hsteps, hactive⟩ := hf₁.shard_all hh hids fun r hr _ =>
    List.mem_map_of_mem hr
  refine ⟨first ++ second ++ [⟨.completeSchemaMigration p.migrationId, t, 0⟩], fun request hmem => ?_, ?_⟩
  · rcases List.mem_append.mp hmem with hmem | hmem
    · rcases List.mem_append.mp hmem with hmem | hmem
      · exact hfirst request hmem
      · exact hsecond request hmem
    · rw [List.mem_singleton.mp hmem]
      exact .inr (.inr rfl)
  · rw [catalogRun_append, catalogRun_append]
    exact hf₂.complete hh (hsteps ▸ hall) hactive

end

end Chardb.Catalog
