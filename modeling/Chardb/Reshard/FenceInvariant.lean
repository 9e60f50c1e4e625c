import Chardb.Reshard.Fence

/-!
# The fence store keeps ranges disjoint

`FenceStep c t t'` lists what a returning call can do to the table. From it follow
`FenceInv` (every row parses, live ranges are pairwise disjoint), the moves of the
status and the life of a cleaned tombstone; a call that throws changes nothing.
-/

namespace Chardb.Reshard

open Chardb.Lib

/-- Every row parses and the live ranges are pairwise disjoint. -/
structure FenceInv (t : FenceTable) : Prop where
  parses : ∀ f ∈ t, FenceParses f
  disjoint : ∀ f ∈ t, ∀ g ∈ t, f.live → g.live → f ≠ g → f.disjoint g

/-- The moves of the status of one fence. -/
inductive StatusMove : FenceStatus → FenceStatus → Prop
  | activate : StatusMove .prepared .active
  | clean : StatusMove .active .cleaned
  | supersede : StatusMove .cleaned .superseded
  | cancelPrepared : StatusMove .prepared .superseded
  | cancelActive : StatusMove .active .superseded

/-- The set timestamps grow in the order of the statuses. -/
structure TimestampsOrdered (f : CdbRoutingFence) : Prop where
  prepared : 0 ≤ f.preparedAt
  activated : ∀ a, f.activatedAt = some a → f.preparedAt ≤ a
  cleaned : ∀ c, f.cleanedAt = some c → ∃ a, f.activatedAt = some a ∧ a ≤ c
  superseded : ∀ s, f.supersededAt = some s → ∃ c, f.cleanedAt = some c ∧ c ≤ s

/-- `g` is the same fence one call later. -/
structure FenceSuccessor (f g : CdbRoutingFence) : Prop where
  identity : g.toCdbRoutingFenceIdentity = f.toCdbRoutingFenceIdentity
  preparedAt : g.preparedAt = f.preparedAt
  activatedAt : ∀ a, f.activatedAt = some a → g.activatedAt = some a
  cleanedAt : ∀ c, f.cleanedAt = some c → g.cleanedAt = some c
  move : g = f ∨ StatusMove f.status g.status

/-- Which timestamps the status leaves unset. -/
theorem CdbRoutingFence.check_unset {f : CdbRoutingFence} (h : f.check) :
    (f.activatedAt = none → f.cleanedAt = none) ∧ (f.cleanedAt = none → f.supersededAt = none) ∧
    (f.status = .prepared → f.activatedAt = none) ∧
    (f.status = .prepared ∨ f.status = .active → f.cleanedAt = none) := by
  have hst := h.2.2.2.2.2.2.2.2.2
  unfold statusCheck at hst
  revert hst
  cases f.status <;> cases f.activatedAt <;> cases f.cleanedAt <;> cases f.supersededAt <;> simp

theorem CdbRoutingFence.check_times {f : CdbRoutingFence} (h : f.check) :
    TimestampsOrdered f := by
  obtain ⟨hca, hsc, -, -⟩ := check_unset h
  obtain ⟨-, -, -, -, -, hp, ha, hc, hs, -⟩ := h
  constructor
  · exact hp
  · intro a h; rw [h] at ha; simpa [nullOrGe] using ha
  · intro c h
    cases ha' : f.activatedAt with
    | none => rw [hca ha'] at h; cases h
    | some a => rw [ha', h] at hc; exact ⟨a, rfl, by simpa [nullOrGe] using hc⟩
  · intro s h
    cases hc' : f.cleanedAt with
    | none => rw [hsc hc'] at h; cases h
    | some c => rw [hc', h] at hs; exact ⟨c, rfl, by simpa [nullOrGe] using hs⟩

theorem FenceSuccessor.refl (f : CdbRoutingFence) : FenceSuccessor f f :=
  ⟨rfl, rfl, fun _ h => h, fun _ h => h, .inl rfl⟩

theorem CdbRoutingFence.disjoint_symm {f g : CdbRoutingFence} (h : f.disjoint g) : g.disjoint f :=
  Or.symm h

theorem CdbRoutingFence.covers_absurd {f g : CdbRoutingFence} {v : Int} (h : f.disjoint g)
    (hf : f.covers v) (hg : g.covers v) : False := by
  unfold disjoint at h; unfold covers at hf hg; omega

section
variable {ω : Type}

/-! ## What the queries and checks return -/

/-- The identities that pass `assertIdentity`. -/
structure ValidIdentity (i : CdbRoutingFenceIdentity) : Prop where
  migrationId : isMigrationId i.migrationId = true
  lo : IsVshard i.rangeLo
  hi : IsVshard i.rangeHi
  range : i.rangeLo ≤ i.rangeHi
  source : IsGeneration i.sourceGeneration
  recovery : IsCounter i.recoveryGeneration
  destination : i.destinationGeneration = i.sourceGeneration + 1

theorem readOnly_assertIdentity {σ : Type} (i : CdbRoutingFenceIdentity) :
    (assertIdentity i : Tx Thrown σ Unit).ReadOnly := by
  unfold assertIdentity assertVshard assertGeneration assertRecoveryGeneration
  repeat' first
    | exact Tx.readOnly_require _ _
    | refine Tx.ReadOnly.bind ?_ fun _ => ?_

theorem readOnly_assertTimestamp {σ : Type} (n : Int) :
    (assertTimestamp n : Tx Thrown σ Unit).ReadOnly := Tx.readOnly_require _ _

theorem assertIdentity_valid {σ : Type} {i : CdbRoutingFenceIdentity} {s s' : σ} {a : Unit}
    (h : (assertIdentity i : Tx Thrown σ Unit).Returns s a s') : ValidIdentity i ∧ s = s' := by
  refine ⟨?_, (readOnly_assertIdentity i).returns h⟩
  simp only [assertIdentity, assertVshard, assertGeneration, assertRecoveryGeneration,
    Tx.bind_returns, Tx.require_returns] at h
  obtain ⟨_, _, ⟨h₁, rfl⟩, _, _, ⟨h₂, rfl⟩, _, _, ⟨h₃, rfl⟩, _, _, ⟨h₄, rfl⟩, _, _, ⟨h₅, rfl⟩,
    _, _, ⟨-, rfl⟩, _, _, ⟨h₇, rfl⟩, h₈, rfl⟩ := h
  exact ⟨h₁, h₂, h₃, h₄, h₅, h₇, h₈⟩

theorem ValidIdentity.parses {i : CdbRoutingFenceIdentity} (h : ValidIdentity i) {f : CdbRoutingFence}
    (hf : f.toCdbRoutingFenceIdentity = i) : FenceParses f := by
  subst hf
  exact ⟨h.migrationId, h.lo.1, h.hi.1, h.lo.2.1, h.range, h.hi.2.2, h.source, h.destination,
    h.recovery⟩

theorem FenceParses.of_identity {f g : CdbRoutingFence} (h : FenceParses f)
    (hi : g.toCdbRoutingFenceIdentity = f.toCdbRoutingFenceIdentity) : FenceParses g := by
  unfold FenceParses at *; rw [hi]; exact h

theorem parseFence_returns {σ : Type} {f g : CdbRoutingFence} {s s' : σ} :
    (parseFence f : Tx Thrown σ _).Returns s g s' ↔ FenceParses f ∧ g = f ∧ s = s' := by
  unfold parseFence; simp only [Tx.bind_returns, Tx.require_returns, Tx.pure_returns]
  constructor
  · rintro ⟨_, _, ⟨h, rfl⟩, rfl, rfl⟩; exact ⟨h, rfl, rfl⟩
  · rintro ⟨h, rfl, rfl⟩; exact ⟨(), s, ⟨h, rfl⟩, rfl, rfl⟩

theorem byMigrationId_returns {id : String} {db db' : FenceDb ω} {o : Option CdbRoutingFence}
    (h : (byMigrationId id).Returns db o db') : o = db.fences.find? id ∧ db = db' := by
  simp only [byMigrationId, Tx.bind_returns, Tx.gets_returns] at h
  obtain ⟨_, _, ⟨rfl, rfl⟩, h⟩ := h
  split at h
  · rename_i row he
    simp only [Tx.bind_returns, parseFence_returns, Tx.pure_returns] at h
    obtain ⟨_, _, ⟨-, rfl, rfl⟩, rfl, rfl⟩ := h
    exact ⟨he.symm, rfl⟩
  · rename_i he
    obtain ⟨rfl, rfl⟩ := Tx.pure_returns.mp h
    exact ⟨he.symm, rfl⟩

theorem byMigrationId_total {id : String} {db db' : FenceDb ω} {e : Thrown}
    (hp : ∀ f ∈ db.fences, FenceParses f) : ¬ (byMigrationId id).Throws db e db' := by
  intro h
  simp only [byMigrationId, Tx.bind_throws, Tx.gets_throws, Tx.gets_returns, false_or] at h
  obtain ⟨_, _, ⟨rfl, rfl⟩, h⟩ := h
  split at h
  · rename_i row he
    simp only [parseFence, Tx.bind_throws, Tx.require_throws, Tx.pure_throws, and_false,
      exists_false, or_false] at h
    exact h.1 (hp row (Table.find?_eq_some.mp he).1)
  · simp at h

theorem required_returns {id : String} {db db' : FenceDb ω} {f : CdbRoutingFence}
    (h : (required id).Returns db f db') :
    (f ∈ db.fences ∧ f.migrationId = id) ∧ db = db' := by
  simp only [required, Tx.bind_returns, Tx.ofOption_returns] at h
  obtain ⟨o, t, h, rfl, rfl⟩ := h
  obtain ⟨ho, rfl⟩ := byMigrationId_returns h
  exact ⟨Table.find?_eq_some.mp ho.symm, rfl⟩

theorem required_total {id : String} {db db' : FenceDb ω} {e : Thrown}
    (hp : ∀ f ∈ db.fences, FenceParses f) (hf : ∃ f ∈ db.fences, f.migrationId = id) :
    ¬ (required id).Throws db e db' := by
  intro h
  simp only [required, Tx.bind_throws, Tx.ofOption_throws] at h
  rcases h with h | ⟨o, t, h, rfl, -⟩
  · exact byMigrationId_total hp h
  · obtain ⟨f, hf, hid⟩ := hf
    exact Table.find?_eq_none.mp (byMigrationId_returns h).1.symm f hf hid

theorem assertSameIdentity_returns {σ : Type} {f : CdbRoutingFence} {i : CdbRoutingFenceIdentity}
    {s s' : σ} {a : Unit} (h : (assertSameIdentity f i : Tx Thrown σ Unit).Returns s a s') :
    f.toCdbRoutingFenceIdentity = i ∧ s = s' := Tx.require_returns.mp h

theorem FenceTable.mem_overlapping {t : FenceTable} {lo hi : Int} {f : CdbRoutingFence} :
    f ∈ t.overlapping lo hi ↔ f ∈ t ∧ f.live ∧ f.rangeLo ≤ hi ∧ lo ≤ f.rangeHi := by
  unfold overlapping
  rw [(List.perm_insertionSort _ _).mem_iff, Table.mem_select]
  simp [and_assoc]

theorem overlapping_returns {lo hi : Int} {db db' : FenceDb ω} {l : List CdbRoutingFence}
    (h : (overlapping lo hi).Returns db l db') : l = db.fences.overlapping lo hi ∧ db = db' := by
  simp only [overlapping, Tx.bind_returns, Tx.gets_returns] at h
  obtain ⟨_, _, ⟨rfl, rfl⟩, h⟩ := h
  exact Tx.mapM_returns_self (fun _ _ _ h => (parseFence_returns.mp h).2) h

/-! ## One call -/

/-- What a returning call does to the rows of the table. -/
inductive FenceStep : FenceCall ω → FenceTable → FenceTable → Prop
  /-- A replay: nothing changes. -/
  | same (c : FenceCall ω) (t : FenceTable) : FenceStep c t t
  /-- A new fence over a range that no live fence meets. -/
  | prepare {identity : CdbRoutingFenceIdentity} {nowMs : Int} {t t' : FenceTable}
      (valid : ValidIdentity identity)
      (clear : t.overlapping identity.rangeLo identity.rangeHi = [])
      (rows : ∀ x, x ∈ t' ↔ x ∈ t ∨ x = preparedFence identity nowMs) :
      FenceStep (.prepare identity nowMs) t t'
  /-- A new fence over the range of the one tombstone it retires. -/
  | replace {identity : CdbRoutingFenceIdentity} {nowMs : Int} {t t' : FenceTable}
      {prior : CdbRoutingFence}
      (valid : ValidIdentity identity)
      (only : t.overlapping identity.rangeLo identity.rangeHi = [prior])
      (cleaned : prior.status = .cleaned)
      (lo : prior.rangeLo = identity.rangeLo) (hi : prior.rangeHi = identity.rangeHi)
      (newer : prior.destinationGeneration < identity.sourceGeneration)
      (rows : ∀ x, x ∈ t' ↔
        ((x ∈ t ∧ x ≠ prior) ∨
          x = { prior with status := .superseded, supersededAt := some nowMs }) ∨
        x = preparedFence identity nowMs) :
      FenceStep (.prepare identity nowMs) t t'
  /-- One fence moves on. -/
  | move {c : FenceCall ω} {t t' : FenceTable} {f g : CdbRoutingFence} (mem : f ∈ t)
      (live : f.live) (uncleaned : f.status ≠ .cleaned)
      (rows : ∀ x, x ∈ t' ↔ (x ∈ t ∧ x ≠ f) ∨ x = g)
      (status : StatusMove f.status g.status) (next : FenceSuccessor f g) :
      FenceStep c t t'

theorem setStatus_returns {id lost : String} {among : FenceStatus → Bool}
    {change : CdbRoutingFence → CdbRoutingFence} {db db' : FenceDb ω} {a : Unit}
    (h : (setStatus id among change lost).Returns db a db') :
    db'.rest = db.rest ∧ ∃ f ∈ db.fences, f.migrationId = id ∧ among f.status = true ∧
      ∀ x, x ∈ db'.fences ↔ (x ∈ db.fences ∧ x ≠ f) ∨ x = change f := by
  simp only [setStatus, onFences_returns, Tx.bind_returns, Table.update_returns,
    Tx.require_returns] at h
  obtain ⟨_, _, ⟨t, ⟨hu, rfl⟩, rfl⟩, hn, rfl⟩ := h
  obtain ⟨f, hf, hp, hx⟩ := Table.mem_update_one hu hn
  simp only [Bool.and_eq_true, decide_eq_true_eq] at hp
  exact ⟨rfl, f, hf, hp.1, hp.2, hx⟩

theorem preparedFence_parses {i : CdbRoutingFenceIdentity} {n : Int} (h : ValidIdentity i) :
    FenceParses (preparedFence i n) := h.parses rfl

theorem prepareRow_step {i : CdbRoutingFenceIdentity} {n : Int} {db db' : FenceDb ω}
    {f : CdbRoutingFence} (hv : ValidIdentity i) (h : (prepareRow i n).Returns db f db') :
    FenceStep (.prepare i n : FenceCall ω) db.fences db'.fences := by
  simp only [prepareRow, Tx.bind_returns] at h
  obtain ⟨o, t, ho, h⟩ := h
  obtain ⟨-, rfl⟩ := byMigrationId_returns ho
  split at h
  · simp only [Tx.bind_returns, Tx.pure_returns] at h
    obtain ⟨_, _, hs, rfl, rfl⟩ := h
    obtain ⟨-, rfl⟩ := assertSameIdentity_returns hs
    exact .same _ _
  · simp only [onFences_returns, Tx.bind_returns, Tx.gets_returns, Tx.require_returns,
      Table.insert_returns] at h
    obtain ⟨_, _, ⟨rfl, rfl⟩, _, _, ⟨-, rfl⟩, l, t₁, hov, _, t₂, hsup, _, _, ⟨t₃, hi, rfl⟩, hr⟩ := h
    obtain ⟨hl, rfl⟩ := overlapping_returns hov
    obtain ⟨-, rfl⟩ := required_returns hr
    have hrows := fun x => Table.mem_insert (x := x) hi
    unfold supersedePrior at hsup
    split at hsup
    · obtain ⟨-, rfl⟩ := Tx.pure_returns.mp hsup
      exact .prepare hv hl.symm hrows
    · rename_i prior
      simp only [Tx.bind_returns, Tx.require_returns] at hsup
      obtain ⟨_, _, ⟨⟨hc, hlo, hhi, hnew⟩, rfl⟩, hset⟩ := hsup
      obtain ⟨-, g, hg, hid, -, hx⟩ := setStatus_returns hset
      have hprior := (FenceTable.mem_overlapping.mp (hl ▸ List.mem_singleton_self _)).1
      obtain rfl := Table.eq_of_key hg hprior hid
      refine .replace hv hl.symm hc hlo hhi hnew fun x => ?_
      rw [hrows x, hx x]
    · simp at hsup

theorem activateRow_step {i : CdbRoutingFenceIdentity} {n : Int} {cb : Tx Thrown ω Unit}
    {db db' : FenceDb ω} {a : Unit} (h : (activateRow i n cb).Returns db a db') :
    FenceStep (.activate i n cb) db.fences db'.fences := by
  simp only [activateRow, Tx.bind_returns] at h
  obtain ⟨f, _, hr, _, _, hs, h⟩ := h
  obtain ⟨hf, rfl⟩ := required_returns hr
  obtain ⟨-, rfl⟩ := assertSameIdentity_returns hs
  rcases Tx.ite_returns.mp h with ⟨hst, h⟩ | ⟨-, h⟩
  · simp only [onRest_returns, Tx.bind_returns] at h
    obtain ⟨_, _, hset, _, -, rfl⟩ := h
    obtain ⟨-, g, hg, hid, -, hx⟩ := setStatus_returns hset
    obtain rfl := Table.eq_of_key hg hf.1 (hid.trans hf.2.symm)
    obtain ⟨-, -, ha, -⟩ := CdbRoutingFence.check_unset (Table.check_of_mem hg)
    have hmove : StatusMove g.status .active := by rw [hst]; exact .activate
    exact .move hg (by simp [CdbRoutingFence.live, hst]) (by simp [hst]) hx hmove
      ⟨rfl, rfl, by simp [ha hst], fun _ h => h, .inr hmove⟩
  · obtain ⟨-, rfl⟩ := Tx.pure_returns.mp h
    exact .same _ _

theorem cleanupRow_step {i : CdbRoutingFenceIdentity} {n : Int} {db db' : FenceDb ω} {a : Unit}
    (h : (cleanupRow i n).Returns db a db') :
    FenceStep (.cleanup i n : FenceCall ω) db.fences db'.fences := by
  simp only [cleanupRow, Tx.bind_returns] at h
  obtain ⟨f, _, hr, _, _, hs, h⟩ := h
  obtain ⟨hf, rfl⟩ := required_returns hr
  obtain ⟨-, rfl⟩ := assertSameIdentity_returns hs
  rcases Tx.ite_returns.mp h with ⟨-, h⟩ | ⟨-, h⟩
  · obtain ⟨-, rfl⟩ := Tx.pure_returns.mp h
    exact .same _ _
  · simp only [Tx.bind_returns, Tx.require_returns, Tx.ofOption_returns] at h
    obtain ⟨_, _, ⟨hst, rfl⟩, at', _, ⟨hat, rfl⟩, hset⟩ := h
    obtain ⟨-, g, hg, hid, -, hx⟩ := setStatus_returns hset
    obtain rfl := Table.eq_of_key hg hf.1 (hid.trans hf.2.symm)
    obtain ⟨-, -, -, hc⟩ := CdbRoutingFence.check_unset (Table.check_of_mem hg)
    have hmove : StatusMove g.status .cleaned := by rw [hst]; exact .clean
    exact .move hg (by simp [CdbRoutingFence.live, hst]) (by simp [hst]) hx hmove
      ⟨rfl, rfl, fun _ h => h, by simp [hc (.inr hst)], .inr hmove⟩

theorem cancelRow_step {i : CdbRoutingFenceIdentity} {n : Int} {db db' : FenceDb ω} {a : Unit}
    (h : (cancelRow i n).Returns db a db') :
    FenceStep (.cancelBeforeCutover i n : FenceCall ω) db.fences db'.fences := by
  simp only [cancelRow, Tx.bind_returns] at h
  obtain ⟨o, _, hr, h⟩ := h
  obtain ⟨ho, rfl⟩ := byMigrationId_returns hr
  split at h
  · obtain ⟨-, rfl⟩ := Tx.pure_returns.mp h
    exact .same _ _
  · rename_i f
    have hf := Table.find?_eq_some.mp ho.symm
    simp only [Tx.bind_returns] at h
    obtain ⟨_, _, hs, h⟩ := h
    obtain ⟨-, rfl⟩ := assertSameIdentity_returns hs
    rcases Tx.ite_returns.mp h with ⟨-, h⟩ | ⟨hns, h⟩
    · obtain ⟨-, rfl⟩ := Tx.pure_returns.mp h
      exact .same _ _
    · simp only [Tx.bind_returns, Tx.require_returns] at h
      obtain ⟨_, _, ⟨hnc, rfl⟩, hset⟩ := h
      obtain ⟨-, g, hg, hid, hst, hx⟩ := setStatus_returns hset
      obtain rfl := Table.eq_of_key hg hf.1 (hid.trans hf.2.symm)
      have hck := Table.check_of_mem hg
      have hmove : StatusMove g.status .superseded := by
        cases hs' : g.status with
        | prepared => exact .cancelPrepared
        | active => exact .cancelActive
        | cleaned => exact absurd hs' hnc
        | superseded => exact absurd hs' hns
      refine .move hg (by simp [CdbRoutingFence.live, hns]) hnc hx hmove
        ⟨rfl, rfl, fun a ha => ?_, fun c hc => ?_, .inr hmove⟩
      · have := (CdbRoutingFence.check_times hck).activated a ha
        simp [ha, this]
      · obtain ⟨-, -, -, hn⟩ := CdbRoutingFence.check_unset hck
        rw [hn (by simpa using hst)] at hc; cases hc

/-- What a returning call does. -/
theorem exec_step {c : FenceCall ω} {db db' : FenceDb ω} {o : Option CdbRoutingFence}
    (h : c.exec.Returns db o db') : FenceStep c db.fences db'.fences := by
  cases c with
  | prepare i n =>
    simp only [FenceCall.exec, prepare, Tx.map_returns, Tx.bind_returns,
      Tx.transactionSync_returns] at h
    obtain ⟨_, ⟨_, _, hi, _, _, ht, h⟩, -⟩ := h
    obtain ⟨hv, rfl⟩ := assertIdentity_valid hi
    obtain ⟨-, rfl⟩ := Tx.require_returns.mp ht
    exact prepareRow_step hv h
  | activate i n cb =>
    simp only [FenceCall.exec, activate, Tx.map_returns, Tx.bind_returns,
      Tx.transactionSync_returns] at h
    obtain ⟨_, ⟨_, _, hi, _, _, ht, _, _, h, hr⟩, -⟩ := h
    obtain ⟨hv, rfl⟩ := assertIdentity_valid hi
    obtain ⟨-, rfl⟩ := Tx.require_returns.mp ht
    obtain ⟨-, rfl⟩ := required_returns hr
    exact activateRow_step h
  | cleanup i n =>
    simp only [FenceCall.exec, cleanup, Tx.map_returns, Tx.bind_returns,
      Tx.transactionSync_returns] at h
    obtain ⟨_, ⟨_, _, hi, _, _, ht, _, _, h, hr⟩, -⟩ := h
    obtain ⟨hv, rfl⟩ := assertIdentity_valid hi
    obtain ⟨-, rfl⟩ := Tx.require_returns.mp ht
    obtain ⟨-, rfl⟩ := required_returns hr
    exact cleanupRow_step h
  | cancelBeforeCutover i n =>
    simp only [FenceCall.exec, cancelBeforeCutover, Tx.bind_returns,
      Tx.transactionSync_returns] at h
    obtain ⟨_, _, hi, _, _, ht, _, _, h, hr⟩ := h
    obtain ⟨hv, rfl⟩ := assertIdentity_valid hi
    obtain ⟨-, rfl⟩ := Tx.require_returns.mp ht
    obtain ⟨-, rfl⟩ := byMigrationId_returns hr
    exact cancelRow_step h

/-! ## The invariant -/

/-- Every fence is still there after a call, as the same fence. -/
theorem FenceStep.successor {c : FenceCall ω} {t t' : FenceTable} (h : FenceStep c t t')
    {f : CdbRoutingFence} (hf : f ∈ t) : ∃ g ∈ t', FenceSuccessor f g := by
  cases h with
  | same => exact ⟨f, hf, .refl f⟩
  | prepare _ _ rows => exact ⟨f, (rows f).mpr (.inl hf), .refl f⟩
  | @replace _ _ _ _ prior _ _ cleaned _ _ _ rows =>
    by_cases he : f = prior
    · subst he
      have hmove : StatusMove f.status .superseded := by rw [cleaned]; exact .supersede
      exact ⟨_, (rows _).mpr (.inl (.inr rfl)), rfl, rfl, fun _ h => h, fun _ h => h, .inr hmove⟩
    · exact ⟨f, (rows f).mpr (.inl (.inl ⟨hf, he⟩)), .refl f⟩
  | @move _ _ _ f' g _ _ _ rows _ next =>
    by_cases he : f = f'
    · subst he; exact ⟨g, (rows g).mpr (.inr rfl), next⟩
    · exact ⟨f, (rows f).mpr (.inl ⟨hf, he⟩), .refl f⟩

/-- Every fence after a call was there before, or the call has just prepared it. -/
theorem FenceStep.origin {c : FenceCall ω} {t t' : FenceTable} (h : FenceStep c t t')
    {g : CdbRoutingFence} (hg : g ∈ t') :
    (∃ f ∈ t, FenceSuccessor f g) ∨
      ∃ i n, ValidIdentity i ∧ g = preparedFence i n ∧ c = .prepare i n := by
  cases h with
  | same => exact .inl ⟨g, hg, .refl g⟩
  | prepare valid _ rows =>
    rcases (rows g).mp hg with hg | rfl
    · exact .inl ⟨g, hg, .refl g⟩
    · exact .inr ⟨_, _, valid, rfl, rfl⟩
  | @replace _ _ _ _ prior valid only cleaned _ _ _ rows =>
    rcases (rows g).mp hg with (⟨hg, -⟩ | rfl) | rfl
    · exact .inl ⟨g, hg, .refl g⟩
    · have hp := (FenceTable.mem_overlapping.mp (only ▸ List.mem_singleton_self _)).1
      have hmove : StatusMove prior.status .superseded := by rw [cleaned]; exact .supersede
      exact .inl ⟨prior, hp, rfl, rfl, fun _ h => h, fun _ h => h, .inr hmove⟩
    · exact .inr ⟨_, _, valid, rfl, rfl⟩
  | move mem _ _ rows _ next =>
    rcases (rows g).mp hg with ⟨hg, -⟩ | rfl
    · exact .inl ⟨g, hg, .refl g⟩
    · exact .inl ⟨_, mem, next⟩

/-- A live row that `overlapping` does not list is disjoint from the range. -/
theorem disjoint_of_not_overlapping {t : FenceTable} {f : CdbRoutingFence}
    {i : CdbRoutingFenceIdentity} {n : Int} (hf : f ∈ t) (hl : f.live)
    (h : f ∉ t.overlapping i.rangeLo i.rangeHi) : f.disjoint (preparedFence i n) := by
  rw [FenceTable.mem_overlapping] at h
  show f.rangeHi < i.rangeLo ∨ i.rangeHi < f.rangeLo
  by_contra hd
  exact h ⟨hf, hl, by omega, by omega⟩

theorem FenceSuccessor.disjoint {f g x : CdbRoutingFence} (h : FenceSuccessor f g)
    (hd : f.disjoint x) : g.disjoint x := by
  have := h.identity; unfold CdbRoutingFence.disjoint at *; rw [this]; exact hd

theorem FenceStep.inv {c : FenceCall ω} {t t' : FenceTable} (h : FenceStep c t t')
    (hi : FenceInv t) : FenceInv t' := by
  constructor
  · intro g hg
    rcases h.origin hg with ⟨f, hf, hfg⟩ | ⟨i, n, hv, rfl, -⟩
    · exact (hi.parses f hf).of_identity hfg.identity
    · exact preparedFence_parses hv
  · cases h with
    | same => exact hi.disjoint
    | @prepare i n _ _ _ clear rows =>
      have hnew : ∀ x ∈ t, x.live → x.disjoint (preparedFence i n) := fun x hx hl =>
        disjoint_of_not_overlapping hx hl (by rw [clear]; exact List.not_mem_nil)
      intro f hf g hg hfl hgl hne
      rcases (rows f).mp hf with hf | rfl <;> rcases (rows g).mp hg with hg | rfl
      · exact hi.disjoint f hf g hg hfl hgl hne
      · exact hnew f hf hfl
      · exact CdbRoutingFence.disjoint_symm (hnew g hg hgl)
      · exact absurd rfl hne
    | @replace i n _ _ prior _ only _ _ _ _ rows =>
      have hnew : ∀ x ∈ t, x ≠ prior → x.live → x.disjoint (preparedFence i n) := fun x hx hne hl =>
        disjoint_of_not_overlapping hx hl (by rw [only, List.mem_singleton]; exact hne)
      intro f hf g hg hfl hgl hne
      rcases (rows f).mp hf with (⟨hf, hfp⟩ | rfl) | rfl
      · rcases (rows g).mp hg with (⟨hg, -⟩ | rfl) | rfl
        · exact hi.disjoint f hf g hg hfl hgl hne
        · simp [CdbRoutingFence.live] at hgl
        · exact hnew f hf hfp hfl
      · simp [CdbRoutingFence.live] at hfl
      · rcases (rows g).mp hg with (⟨hg, hgp⟩ | rfl) | rfl
        · exact CdbRoutingFence.disjoint_symm (hnew g hg hgp hgl)
        · simp [CdbRoutingFence.live] at hgl
        · exact absurd rfl hne
    | @move _ _ _ f' g' mem live _ rows _ next =>
      intro f hf g hg hfl hgl hne
      rcases (rows f).mp hf with ⟨hf, hfp⟩ | rfl <;> rcases (rows g).mp hg with ⟨hg, hgp⟩ | rfl
      · exact hi.disjoint f hf g hg hfl hgl hne
      · exact CdbRoutingFence.disjoint_symm
          (next.disjoint (hi.disjoint f' mem f hf live hfl (Ne.symm hfp)))
      · exact next.disjoint (hi.disjoint f' mem g hg live hgl (Ne.symm hgp))
      · exact absurd rfl hne

/-- `activate` and `cleanup` read their fence back after the commit; it is there. -/
theorem required_after {c : FenceCall ω} {db db' db'' : FenceDb ω} {f : CdbRoutingFence} {e : Thrown}
    (hi : FenceInv db.fences) (h : FenceStep c db.fences db'.fences) (hf : f ∈ db.fences) :
    ¬ (required f.migrationId).Throws db' e db'' := by
  obtain ⟨g, hg, hfg⟩ := h.successor hf
  exact required_total (h.inv hi).parses
    ⟨g, hg, congrArg CdbRoutingFenceIdentity.migrationId hfg.identity⟩

/-- A call that throws changes no row, of this table or another. -/
theorem exec_throws {c : FenceCall ω} {db db' : FenceDb ω} {e : Thrown} (hi : FenceInv db.fences)
    (h : c.exec.Throws db e db') : db' = db := by
  cases c with
  | prepare i n =>
    have : (prepare i n : Tx Thrown (FenceDb ω) _).Atomic :=
      (readOnly_assertIdentity i).bind_atomic fun _ =>
        (readOnly_assertTimestamp n).bind_atomic fun _ => Tx.atomic_transactionSync _
    exact this (Tx.map_throws.mp h)
  | activate i n cb =>
    rcases (readOnly_assertIdentity i).of_bind_throws (Tx.map_throws.mp h) with h | ⟨_, h⟩
    · exact h
    rcases (readOnly_assertTimestamp n).of_bind_throws h with h | ⟨_, h⟩
    · exact h
    rcases (Tx.atomic_transactionSync _).of_bind_throws h with h | ⟨_, t', ht', h⟩
    · exact h
    have hrow := Tx.transactionSync_returns.mp ht'
    have hstep := activateRow_step hrow
    simp only [activateRow, Tx.bind_returns] at hrow
    obtain ⟨f, _, hf, -⟩ := hrow
    obtain ⟨⟨hf, hid⟩, -⟩ := required_returns hf
    exact absurd (hid ▸ h) (required_after hi hstep hf)
  | cleanup i n =>
    rcases (readOnly_assertIdentity i).of_bind_throws (Tx.map_throws.mp h) with h | ⟨_, h⟩
    · exact h
    rcases (readOnly_assertTimestamp n).of_bind_throws h with h | ⟨_, h⟩
    · exact h
    rcases (Tx.atomic_transactionSync _).of_bind_throws h with h | ⟨_, t', ht', h⟩
    · exact h
    have hrow := Tx.transactionSync_returns.mp ht'
    have hstep := cleanupRow_step hrow
    simp only [cleanupRow, Tx.bind_returns] at hrow
    obtain ⟨f, _, hf, -⟩ := hrow
    obtain ⟨⟨hf, hid⟩, -⟩ := required_returns hf
    exact absurd (hid ▸ h) (required_after hi hstep hf)
  | cancelBeforeCutover i n =>
    rcases (readOnly_assertIdentity i).of_bind_throws h with h | ⟨_, h⟩
    · exact h
    rcases (readOnly_assertTimestamp n).of_bind_throws h with h | ⟨_, h⟩
    · exact h
    rcases (Tx.atomic_transactionSync _).of_bind_throws h with h | ⟨_, t', ht', h⟩
    · exact h
    have hstep := cancelRow_step (Tx.transactionSync_returns.mp ht')
    exact absurd h (byMigrationId_total (hstep.inv hi).parses)

/-- One call, returned from or thrown out of. -/
theorem after_step (c : FenceCall ω) {db : FenceDb ω} (hi : FenceInv db.fences) :
    FenceStep c db.fences (c.exec.after db).fences := by
  rcases c.exec.returns_or_throws db with ⟨o, h⟩ | ⟨e, h⟩
  · exact exec_step h
  · rw [exec_throws hi h]; exact .same _ _

theorem run_inv (calls : List (FenceCall ω)) {db : FenceDb ω} (hi : FenceInv db.fences) :
    FenceInv (db.run calls).fences := by
  induction calls generalizing db with
  | nil => exact hi
  | cons c calls ih => exact ih ((after_step c hi).inv hi)

theorem empty_inv : FenceInv (.empty : FenceTable) :=
  ⟨fun _ h => absurd h Table.not_mem_empty, fun _ h => absurd h Table.not_mem_empty⟩

/-- A fence keeps its identity over a whole run. -/
theorem run_identity (calls : List (FenceCall ω)) {db : FenceDb ω} (hi : FenceInv db.fences)
    {f : CdbRoutingFence} (hf : f ∈ db.fences) :
    ∃ g ∈ (db.run calls).fences, g.toCdbRoutingFenceIdentity = f.toCdbRoutingFenceIdentity := by
  induction calls generalizing db f with
  | nil => exact ⟨f, hf, rfl⟩
  | cons c calls ih =>
    have hs := after_step c hi
    obtain ⟨g, hg, hfg⟩ := hs.successor hf
    obtain ⟨g', hg', hgg⟩ := ih (hs.inv hi) hg
    exact ⟨g', hg', hgg.trans hfg.identity⟩

/-! ## Admission -/

theorem FenceTable.mem_over {t : FenceTable} {v : Int} {p : CdbRoutingFence → Bool}
    {f : CdbRoutingFence} (h : f ∈ t.over v p) : f ∈ t ∧ f.covers v ∧ p f = true := by
  have h := List.mem_of_mem_take h
  rw [(List.perm_insertionSort _ _).mem_iff, Table.mem_select] at h
  simpa using h

/-- Among live fences at most one lies over a vshard. -/
theorem FenceInv.over {t : FenceTable} (hi : FenceInv t) {v : Int} {p : CdbRoutingFence → Bool}
    (hp : ∀ f, p f = true → f.live = true) :
    (t.select fun f => decide (f.covers v) && p f).length ≤ 1 ∧ (t.over v p).length ≤ 1 := by
  have hle : (t.select fun f => decide (f.covers v) && p f).length ≤ 1 := by
    refine Table.select_length_le_one fun f hf g hg hfp hgp => ?_
    simp only [Bool.and_eq_true, decide_eq_true_eq] at hfp hgp
    by_contra hne
    exact CdbRoutingFence.covers_absurd
      (hi.disjoint f hf g hg (hp f hfp.2) (hp g hgp.2) hne) hfp.1 hgp.1
  refine ⟨hle, ?_⟩
  unfold FenceTable.over
  rw [List.length_take, List.length_insertionSort]
  omega

theorem FenceInv.over_eq {t : FenceTable} (hi : FenceInv t) {v : Int} {p : CdbRoutingFence → Bool}
    (hp : ∀ f, p f = true → f.live = true) {f : CdbRoutingFence} (hf : f ∈ t) (hv : f.covers v)
    (hpf : p f = true) : t.over v p = [f] := by
  have hmem : f ∈ t.select fun f => decide (f.covers v) && p f :=
    Table.mem_select.mpr ⟨hf, by simp [hv, hpf]⟩
  obtain ⟨g, hg⟩ := List.length_eq_one_iff.mp
    (le_antisymm (hi.over hp).1 (List.length_pos_of_mem hmem))
  rw [hg, List.mem_singleton] at hmem
  unfold FenceTable.over; rw [hg, hmem]; rfl

theorem invalidArgs_ne_corrupt (m m' : String) : invalidArgs m ≠ corruptFence m' := by
  simp [invalidArgs, corruptFence, invariantError]

theorem FenceInv.activeSourceFence_sound {db : FenceDb ω} (hi : FenceInv db.fences) (v : Int)
    (m : String) (db' : FenceDb ω) : ¬ (activeSourceFence v).Throws db (corruptFence m) db' := by
  intro h
  simp only [activeSourceFence, assertVshard, Tx.bind_throws, Tx.require_throws, Tx.require_returns,
    Tx.gets_throws, Tx.gets_returns, false_or] at h
  rcases h with ⟨-, h, -⟩ | ⟨_, _, ⟨-, rfl⟩, _, _, ⟨rfl, rfl⟩, ⟨h, -⟩ | ⟨_, _, ⟨-, rfl⟩, h⟩⟩
  · exact invalidArgs_ne_corrupt _ _ h.symm
  · refine h (hi.over fun f hf => ?_).2
    rcases (by simpa using hf : f.status = .active ∨ f.status = .cleaned) with h | h <;>
      simp [CdbRoutingFence.live, h]
  · split at h
    · rename_i row _ hrow
      have hmem := FenceTable.mem_over (hrow ▸ List.mem_cons_self)
      simp only [parseFence, Tx.bind_throws, Tx.require_throws, Tx.pure_throws, and_false,
        exists_false, or_false] at h
      exact h.1 (hi.parses row hmem.1)
    · simp at h

theorem FenceInv.assertMutationAdmission_sound {db : FenceDb ω} (hi : FenceInv db.fences)
    (epoch v : Int) (m : String) (db' : FenceDb ω) :
    ¬ (assertMutationAdmission epoch v).Throws db (corruptFence m) db' := by
  intro h
  simp only [assertMutationAdmission, assertVshard, assertGeneration, Tx.bind_throws,
    Tx.require_throws, Tx.require_returns, Tx.gets_throws, Tx.gets_returns, false_or] at h
  rcases h with ⟨-, h, -⟩ | ⟨_, _, ⟨-, rfl⟩, ⟨-, h, -⟩ |
    ⟨_, _, ⟨-, rfl⟩, _, _, ⟨rfl, rfl⟩, ⟨h, -⟩ | ⟨_, _, ⟨-, rfl⟩, h⟩⟩⟩
  · exact invalidArgs_ne_corrupt _ _ h.symm
  · exact invalidArgs_ne_corrupt _ _ h.symm
  · exact h (hi.over fun f hf => hf).2
  · split at h
    · simp at h
    · rename_i row _ hrow
      have hmem := FenceTable.mem_over (hrow ▸ List.mem_cons_self)
      simp only [parseFence_returns, Tx.bind_throws, Tx.require_throws] at h
      rcases h with h | ⟨_, _, ⟨-, rfl, rfl⟩, -, h, -⟩
      · simp only [parseFence, Tx.bind_throws, Tx.require_throws, Tx.pure_throws, and_false,
          exists_false, or_false] at h
        exact h.1 (hi.parses row hmem.1)
      · simp [staleGeneration, corruptFence, invariantError] at h

/-- What an admission says about a live fence over the vshard. -/
theorem FenceInv.admitted {db db' : FenceDb ω} (hi : FenceInv db.fences) {epoch v : Int}
    (h : (assertMutationAdmission epoch v).Returns db () db') {f : CdbRoutingFence}
    (hf : f ∈ db.fences) (hv : f.covers v) (hl : f.live) : fenceAdmits f epoch := by
  simp only [assertMutationAdmission, assertVshard, assertGeneration, Tx.bind_returns,
    Tx.require_returns, Tx.gets_returns] at h
  obtain ⟨_, _, ⟨-, rfl⟩, _, _, ⟨-, rfl⟩, _, _, ⟨rfl, rfl⟩, _, _, ⟨-, rfl⟩, h⟩ := h
  rw [hi.over_eq (fun _ h => h) hf hv hl] at h
  simp only [Tx.bind_returns, parseFence_returns, Tx.require_returns] at h
  obtain ⟨_, _, ⟨-, rfl, rfl⟩, h, -⟩ := h
  exact h

/-! ## Tombstones -/

/-- Some `prepare` of the run retired the tombstone `f`: same range, newer source generation. -/
def SupersededDuring (f : CdbRoutingFence) (db : FenceDb ω) (calls : List (FenceCall ω)) : Prop :=
  ∃ before identity nowMs later, calls = before ++ .prepare identity nowMs :: later ∧
    identity.rangeLo = f.rangeLo ∧ identity.rangeHi = f.rangeHi ∧
    f.destinationGeneration < identity.sourceGeneration ∧
    f ∈ (db.run before).fences ∧
    { f with status := .superseded, supersededAt := some nowMs } ∈
      (db.run (before ++ [.prepare identity nowMs])).fences ∧
    preparedFence identity nowMs ∈ (db.run (before ++ [.prepare identity nowMs])).fences

theorem SupersededDuring.cons {f : CdbRoutingFence} {db : FenceDb ω} {c : FenceCall ω}
    {calls : List (FenceCall ω)} (h : SupersededDuring f (c.exec.after db) calls) :
    SupersededDuring f db (c :: calls) := by
  obtain ⟨before, i, n, later, rfl, hlo, hhi, hnew, hf, hs, hp⟩ := h
  exact ⟨c :: before, i, n, later, rfl, hlo, hhi, hnew, hf, hs, hp⟩

/-- A tombstone stays until a newer fence over the same range retires it. -/
theorem tombstone_stays (calls : List (FenceCall ω)) {db : FenceDb ω} (hi : FenceInv db.fences)
    {f : CdbRoutingFence} (hf : f ∈ db.fences) (hc : f.status = .cleaned) :
    f ∈ (db.run calls).fences ∨ SupersededDuring f db calls := by
  induction calls generalizing db with
  | nil => exact .inl hf
  | cons c calls ih =>
    have hs := after_step c hi
    have hgo : f ∈ (c.exec.after db).fences →
        f ∈ (db.run (c :: calls)).fences ∨ SupersededDuring f db (c :: calls) := fun hf' =>
      (ih (hs.inv hi) hf').imp id .cons
    generalize he : (c.exec.after db).fences = t' at hs
    cases hs with
    | same => exact hgo (he ▸ hf)
    | prepare _ _ rows => exact hgo (he ▸ (rows f).mpr (.inl hf))
    | @replace i n _ _ prior _ _ _ hlo hhi hnew rows =>
      by_cases hp : f = prior
      · subst hp
        refine .inr ⟨[], i, n, calls, rfl, hlo.symm, hhi.symm, hnew, hf, ?_, ?_⟩
        · show _ ∈ ((FenceCall.prepare i n).exec.after db).fences
          rw [he]; exact (rows _).mpr (.inl (.inr rfl))
        · show _ ∈ ((FenceCall.prepare i n).exec.after db).fences
          rw [he]; exact (rows _).mpr (.inr rfl)
      · exact hgo (he ▸ (rows f).mpr (.inl (.inl ⟨hf, hp⟩)))
    | @move _ _ _ f' _ _ _ hunc rows _ _ =>
      by_cases hp : f = f'
      · subst hp; exact absurd hc hunc
      · exact hgo (he ▸ (rows f).mpr (.inl ⟨hf, hp⟩))

/-- The store after some calls, seen through every further call and query. -/
structure FenceStoreSafe (db : FenceDb ω) : Prop where
  /-- Live ranges are pairwise disjoint, so no query meets two fences. -/
  disjoint : ∀ f ∈ db.fences, ∀ g ∈ db.fences, f.live → g.live → f ≠ g → f.disjoint g
  activeSourceFence : ∀ v m t, ¬ (activeSourceFence v).Throws db (corruptFence m) t
  assertMutationAdmission :
    ∀ epoch v m t, ¬ (assertMutationAdmission epoch v).Throws db (corruptFence m) t
  /-- One migration id, one identity, for good. -/
  identity : ∀ calls, ∀ f ∈ db.fences, ∀ g ∈ (db.run calls).fences,
    g.migrationId = f.migrationId →
      g.toCdbRoutingFenceIdentity = f.toCdbRoutingFenceIdentity
  /-- A call keeps every fence, or moves it along `StatusMove`. -/
  moves : ∀ c : FenceCall ω, ∀ f ∈ db.fences, ∃ g ∈ (c.exec.after db).fences, FenceSuccessor f g
  /-- A fence a call adds is prepared. -/
  births : ∀ c : FenceCall ω, ∀ g ∈ (c.exec.after db).fences,
    (∃ f ∈ db.fences, FenceSuccessor f g) ∨ g.status = .prepared
  timestamps : ∀ f ∈ db.fences, TimestampsOrdered f
  /-- A cleaned vshard is closed until a newer fence over the same range retires the tombstone. -/
  tombstone : ∀ f ∈ db.fences, f.status = .cleaned → ∀ calls epoch v t, f.covers v →
    (Reshard.assertMutationAdmission epoch v).Returns (db.run calls) () t →
      SupersededDuring f db calls
  /-- A call that throws changes no row. -/
  atomic : ∀ (c : FenceCall ω) e t, c.exec.Throws db e t → t = db

/-- Whatever calls came before, the fence store is safe. -/
theorem fence_store_safe (rest : ω) (calls : List (FenceCall ω)) :
    FenceStoreSafe ((⟨.empty, rest⟩ : FenceDb ω).run calls) := by
  have hi : FenceInv ((⟨.empty, rest⟩ : FenceDb ω).run calls).fences := run_inv calls empty_inv
  refine ⟨hi.disjoint, hi.activeSourceFence_sound, hi.assertMutationAdmission_sound, ?_, ?_, ?_,
    fun f hf => CdbRoutingFence.check_times (Table.check_of_mem hf), ?_, fun c e t => exec_throws hi⟩
  · intro later f hf g hg hid
    obtain ⟨g', hg', hfg⟩ := run_identity later hi hf
    have : g' = g := Table.eq_of_key hg' hg
      ((congrArg CdbRoutingFenceIdentity.migrationId hfg).trans hid.symm)
    rw [← this]; exact hfg
  · intro c f hf; exact (after_step c hi).successor hf
  · intro c g hg
    rcases (after_step c hi).origin hg with h | ⟨i, n, -, rfl, -⟩
    · exact .inl h
    · exact .inr rfl
  · intro f hf hc later epoch v t hv hadm
    rcases tombstone_stays later hi hf hc with hf' | h
    · have := (run_inv later hi).admitted hadm hf' hv (by simp [CdbRoutingFence.live, hc])
      rw [fenceAdmits, hc] at this
      exact absurd this.1 (by decide)
    · exact h

end

end Chardb.Reshard
