import Chardb.Gateway.PayloadQuotaSteps

/-!
# The quota over runs

Every state that a Gateway reaches is within its quota, unless a registration that lost its head
while it was pending is marked ambiguous when nothing is left to charge.
-/

namespace Chardb.Gateway

open Chardb.Lib

variable {db db' : GatewayDb} {w w' : QuotaDb}

/-! ## Sums -/

def QuotaDb.replayCharge (w : QuotaDb) : Nat := (w.replays.rows.map (·.payloadBytes)).sum

theorem withinQuota_iff : w.WithinQuota ↔
    w.store.registrationCharge ≤ GATEWAY_MAX_REGISTRATION_PAYLOAD_BYTES ∧
      w.store.registrationCharge + w.store.snapshotCharge + w.replayCharge ≤
        GATEWAY_MAX_DURABLE_PAYLOAD_BYTES := by
  unfold QuotaDb.WithinQuota QuotaDb.replayCharge
  rw [chargedRegistrationBytes_eq, chargedTotalBytes_eq]

/-- The generations and the outbox fit without the replays. -/
structure Fits (db : GatewayDb) : Prop where
  registration : db.registrationCharge ≤ GATEWAY_MAX_REGISTRATION_PAYLOAD_BYTES
  total : db.registrationCharge + db.snapshotCharge ≤ GATEWAY_MAX_DURABLE_PAYLOAD_BYTES

theorem Fits.of_within (h : w.WithinQuota) : Fits w.store := by
  obtain ⟨hreg, htotal⟩ := withinQuota_iff.mp h
  exact ⟨hreg, (Nat.le_add_right _ _).trans htotal⟩

theorem Fits.lighter (h : Fits db) (hl : Lighter db db') : Fits db' :=
  ⟨hl.registration.trans h.registration,
    (Nat.add_le_add hl.registration hl.snapshot).trans h.total⟩

theorem within_lighter (h : w.WithinQuota) (hl : Lighter w.store w'.store)
    (hr : w'.replays.rows.Sublist w.replays.rows) : w'.WithinQuota := by
  obtain ⟨hreg, htotal⟩ := withinQuota_iff.mp h
  have hreplays : w'.replayCharge ≤ w.replayCharge := sum_sublist_le hr
  refine withinQuota_iff.mpr ⟨hl.registration.trans hreg, ?_⟩
  exact (Nat.add_le_add (Nat.add_le_add hl.registration hl.snapshot) hreplays).trans htotal

theorem checked_within (h : w.checked = some w') : w'.WithinQuota := by
  unfold QuotaDb.checked at h
  split at h
  · rename_i hw
    cases h
    exact hw
  · cases h

/-! ## Pruning -/

theorem trimReplays_sublist (w : QuotaDb) (nowMs : Nat) :
    (w.trimReplays nowMs).replays.rows.Sublist w.replays.rows :=
  (rows_deleteWhere _ _).trans (rows_deleteWhere _ _)

theorem within_trim (h : w.WithinQuota) (nowMs : Nat) : (w.trimReplays nowMs).WithinQuota :=
  within_lighter h (.refl _) (trimReplays_sublist w nowMs)

/-- Where all replays may go, what is left fits. -/
theorem shrinkReplays_within (rs : List Replay) (w : QuotaDb) (hfit : Fits w.store)
    (hall : ∀ r ∈ w.replays.rows, r ∈ rs) : (QuotaDb.shrinkReplays rs w).WithinQuota := by
  induction rs generalizing w with
  | nil =>
    have hnone : w.replays.rows = [] :=
      List.eq_nil_iff_forall_not_mem.mpr fun r hr => List.not_mem_nil (hall r hr)
    refine withinQuota_iff.mpr ⟨hfit.registration, ?_⟩
    unfold QuotaDb.shrinkReplays QuotaDb.replayCharge
    rw [hnone]
    exact hfit.total
  | cons r rs ih =>
    unfold QuotaDb.shrinkReplays
    split
    · rename_i htotal
      refine ⟨?_, htotal⟩
      rw [chargedRegistrationBytes_eq]
      exact hfit.registration
    · refine ih _ hfit fun x hx => ?_
      obtain ⟨hx, hkey⟩ := Table.mem_deleteWhere.mp hx
      rcases List.mem_cons.mp (hall x hx) with rfl | hx
      · exact absurd hkey (by simp)
      · exact hx

theorem pruneReplays_within (hfit : Fits w.store) (nowMs : Nat) :
    (w.pruneReplays nowMs).WithinQuota :=
  shrinkReplays_within _ (w.trimReplays nowMs) hfit fun _ hr =>
    Table.mem_orderBy.mpr ⟨hr, rfl⟩

/-- Within the quota no replay goes but those that are expired or too many. -/
theorem pruneReplays_eq_trim (h : w.WithinQuota) (nowMs : Nat) :
    w.pruneReplays nowMs = w.trimReplays nowMs := by
  have htrim := (within_trim h nowMs).2
  unfold QuotaDb.pruneReplays
  dsimp only
  cases (w.trimReplays nowMs).replays.orderBy (fun _ => true) QuotaDb.replayOrder with
  | nil => rfl
  | cons r rs =>
    unfold QuotaDb.shrinkReplays
    rw [if_pos htrim]

/-! ## Steps -/

theorem GatewayOp.lighter {op : GatewayOp} (h : Inv db) (hop : op.Unchecked)
    (hamb : ∀ i nowMs, op ≠ .markAmbiguous i nowMs) (hc : op.call db = some db') :
    Lighter db db' := by
  cases op with
  | install => exact hop.elim
  | stage => exact hop.elim
  | markSendBase => exact hop.elim
  | acknowledge => exact hop.elim
  | retireConnection => exact hop.elim
  | markAmbiguous i nowMs => exact absurd rfl (hamb i nowMs)
  | arm =>
    obtain ⟨_, hc⟩ := fst_eq_some hc
    exact .arm hc
  | activate =>
    obtain ⟨_, hc⟩ := fst_eq_some hc
    exact .activate hc
  | deleteNeverRegistered =>
    obtain ⟨_, hc⟩ := fst_eq_some hc
    exact .deleteNever hc
  | invalidate =>
    obtain ⟨_, hc⟩ := fst_eq_some hc
    exact .accept hc
  | claim =>
    obtain ⟨_, hc⟩ := fst_eq_some hc
    obtain ⟨_, rfl⟩ := hop
    exact .claim hc
  | failRun =>
    obtain ⟨_, hc⟩ := fst_eq_some hc
    obtain ⟨_, rfl⟩ := hop
    exact .failRun hc
  | deferRun =>
    obtain ⟨_, hc⟩ := fst_eq_some hc
    exact .defer hc
  | claimSend =>
    obtain ⟨_, hc⟩ := fst_eq_some hc
    obtain ⟨_, rfl⟩ := hop
    exact .claimDue hc
  | discardSend =>
    cases hc
    exact lighter_deleteOutbox db _
  | failSend =>
    obtain ⟨_, hc⟩ := fst_eq_some hc
    obtain ⟨_, rfl⟩ := hop
    exact .failSend hc
  | resume =>
    obtain ⟨_, hc⟩ := fst_eq_some hc
    exact .resume hc
  | retire =>
    obtain ⟨_, hc⟩ := fst_eq_some hc
    exact (retire_lighter h hc).1
  | retireCurrent =>
    obtain ⟨_, hc⟩ := fst_eq_some hc
    exact .retireCurrent h hc
  | retireRun =>
    obtain ⟨_, hc⟩ := fst_eq_some hc
    exact .retireRun h hc
  | retireSend =>
    obtain ⟨_, hc⟩ := fst_eq_some hc
    exact (retireSend_lighter h hc).1
  | cleanup =>
    obtain ⟨_, hc⟩ := fst_eq_some hc
    exact .cleanup hc
  | completeCleanup => exact .complete hc
  | cleanupFailure =>
    obtain ⟨_, rfl⟩ := hop
    exact .cleanupFailure hc

theorem GatewayOp.inv_call {op : GatewayOp} (h : Inv db) (hc : op.call db = some db') : Inv db' := by
  have hstep := inv_step h op
  unfold GatewayDb.step at hstep
  rw [hc] at hstep
  exact hstep

/-- The quota is checked before the recovery is armed. -/
theorem install_checked {input : GatewayDb.Install} {recoveryAt : Nat}
    (h : w.install input recoveryAt = some w') : ∃ w₁ w₂ : QuotaDb, w₁.checked = some w₂ ∧
      w₂.store.armGatewaySubscriptionRecovery input.identity recoveryAt input.nowMs =
        some (w'.store, true) ∧ w'.replays = w₂.replays := by
  unfold QuotaDb.install at h
  dsimp only at h
  obtain ⟨_, _, h⟩ := Option.bind_eq_some_iff.mp h
  split at h
  all_goals
    obtain ⟨_, _, h⟩ := Option.bind_eq_some_iff.mp h
    obtain ⟨_, _, h⟩ := Option.bind_eq_some_iff.mp h
    obtain ⟨w₂, hchecked, h⟩ := Option.bind_eq_some_iff.mp h
    obtain ⟨⟨armed, b⟩, harm, h⟩ := Option.bind_eq_some_iff.mp h
    cases b with
    | false => cases h
    | true =>
      cases h
      exact ⟨_, w₂, hchecked, harm, rfl⟩

theorem install_within {input : GatewayDb.Install} {recoveryAt : Nat}
    (h : w.install input recoveryAt = some w') : w'.WithinQuota := by
  obtain ⟨_, w₂, hchecked, harm, hr⟩ := install_checked h
  exact within_lighter (checked_within hchecked) (.arm harm)
    (by rw [hr])

theorem stage_within {input : GatewayDb.Stage} (hw : w.WithinQuota)
    (h : w.stage input = some w') : w'.WithinQuota := by
  obtain ⟨⟨store, b⟩, hstage, h⟩ := Option.bind_eq_some_iff.mp h
  cases b with
  | true => exact checked_within h
  | false =>
    cases h
    refine within_lighter hw ?_ (List.Sublist.refl _)
    obtain ⟨⟨d, n⟩, hu, hstage⟩ := Option.bind_eq_some_iff.mp hstage
    dsimp only at hstage
    split at hstage
    · cases hstage
      refine lighter_current hu (fun _ => rfl)
        (fun g _ hp => (of_decide_eq_true hp).1.1.2.2) fun g _ _ o => ?_
      exact charge_reserved o rfl rfl le_rfl (Nat.zero_le _) (Nat.zero_le _)
    · split at hstage
      · cases hstage
      · obtain ⟨_, _, hstage⟩ := Option.bind_eq_some_iff.mp hstage
        rw [if_neg (by decide)] at hstage
        cases hstage

theorem markSendBase_within {c : GatewayDb.SendClaim} {baseCookie : Option String} {nowMs : Nat}
    (hi : Inv w.store) (hw : w.WithinQuota) (h : w.markSendBase c baseCookie nowMs = some w') :
    w'.WithinQuota := by
  obtain ⟨⟨store, b⟩, hmark, h⟩ := Option.bind_eq_some_iff.mp h
  dsimp only at h
  split at h
  · rename_i htotal
    cases h
    refine ⟨?_, htotal⟩
    rw [chargedRegistrationBytes_eq]
    obtain ⟨⟨d, n⟩, hu, hmark⟩ := Option.bind_eq_some_iff.mp hmark
    have hreg := registrationCharge_updateOutbox hu fun _ => ⟨rfl, rfl⟩
    dsimp only at hmark
    rw [if_pos (show ¬ (false = true) by decide)] at hmark
    have hstore : store = d := by
      split at hmark
      · exact (Prod.mk.inj (Option.some.inj hmark)).1.symm
      · exact (Prod.mk.inj (Option.some.inj hmark)).1.symm
    rw [hstore]
    exact hreg.trans (withinQuota_iff.mp hw).1
  · obtain ⟨⟨store', b'⟩, hmark', h⟩ := Option.bind_eq_some_iff.mp h
    cases h
    exact within_lighter hw (.exceeding hi hmark') (List.Sublist.refl _)

theorem acknowledgement_within {i : Identity} {cookie : String} {nowMs : Nat} {b : Bool}
    (hw : w.WithinQuota) (h : w.acknowledgement i cookie nowMs = some (w', b)) :
    w'.WithinQuota := by
  unfold QuotaDb.acknowledgement at h
  split at h
  · cases h
  · rename_i store done hack
    have hl := Lighter.acknowledge hack
    split at h
    · cases h
      exact within_lighter hw hl (rows_deleteWhere _ _)
    · cases h
      exact within_lighter hw hl (List.Sublist.refl _)

theorem retireAll_within {nowMs : Nat} {gs : List Generation} (hi : Inv w.store)
    (hfit : Fits w.store) (h : QuotaDb.retireAll nowMs gs w = some w') : w'.WithinQuota := by
  induction gs generalizing w with
  | nil =>
    cases h
    exact pruneReplays_within hfit nowMs
  | cons g gs ih =>
    unfold QuotaDb.retireAll at h
    have hsame := retainReplay_store w g.key nowMs
    dsimp only at h
    split at h
    · rename_i store retired hone
      rw [hsame] at hone
      split at h
      · exact ih (Steps.retireCurrent hi hone).inv (hfit.lighter (.retireCurrent hi hone)) h
      · cases h
    · cases h

/-! ## Runs -/

/-- A registration that lost its head while it was pending is not marked ambiguous when every byte is
charged: no byte is reserved for the longer state. -/
def QuotaDb.Reserved (w : QuotaDb) : QuotaOp → Prop
  | .store (.markAmbiguous i _) _ => w.store.Abandoned i →
      (gatewayDurablePayloadUsage w).chargedRegistrationBytes < GATEWAY_MAX_REGISTRATION_PAYLOAD_BYTES ∧
        (gatewayDurablePayloadUsage w).chargedTotalBytes < GATEWAY_MAX_DURABLE_PAYLOAD_BYTES
  | _ => True

/-- Every step of the run is reserved for. -/
def QuotaDb.ReservedRun (w : QuotaDb) : List QuotaOp → Prop
  | [] => True
  | op :: ops => w.Reserved op ∧ (w.step op).ReservedRun ops

structure QuotaDb.Budgeted (w : QuotaDb) : Prop where
  inv : Inv w.store
  within : w.WithinQuota

theorem budgeted_empty : QuotaDb.empty.Budgeted := ⟨inv_empty, by decide⟩

theorem QuotaDb.Budgeted.store (h : w.Budgeted) {op : GatewayOp} (hun : op.Unchecked)
    (hres : w.Reserved (.store op hun)) (hc : op.call w.store = some db') :
    QuotaDb.Budgeted ⟨db', w.replays⟩ := by
  refine ⟨GatewayOp.inv_call h.inv hc, ?_⟩
  by_cases hamb : ∃ i nowMs, op = .markAmbiguous i nowMs
  · obtain ⟨i, nowMs, rfl⟩ := hamb
    obtain ⟨_, hc⟩ := fst_eq_some hc
    obtain ⟨hreg, hsnap⟩ := markAmbiguous_charge h.inv hc
    obtain ⟨hw, hwtotal⟩ := withinQuota_iff.mp h.within
    refine withinQuota_iff.mpr ?_
    show db'.registrationCharge ≤ _ ∧ db'.registrationCharge + db'.snapshotCharge + w.replayCharge ≤ _
    by_cases habandoned : w.store.Abandoned i
    · obtain ⟨hroom, htotal⟩ := hres habandoned
      rw [chargedRegistrationBytes_eq] at hroom
      rw [chargedTotalBytes_eq] at htotal
      have htotal : w.store.registrationCharge + w.store.snapshotCharge + w.replayCharge <
        GATEWAY_MAX_DURABLE_PAYLOAD_BYTES := htotal
      rw [if_pos habandoned] at hreg
      omega
    · rw [if_neg habandoned] at hreg
      omega
  · exact within_lighter h.within (GatewayOp.lighter h.inv hun
      (fun i nowMs he => hamb ⟨i, nowMs, he⟩) hc) (List.Sublist.refl _)

theorem QuotaDb.Budgeted.call (h : w.Budgeted) {op : QuotaOp} (hres : w.Reserved op)
    (hc : w.call op = some w') : w'.Budgeted := by
  cases op with
  | store op hun =>
    obtain ⟨store, hstore, rfl⟩ := Option.map_eq_some_iff.mp hc
    exact h.store hun hres hstore
  | install input recoveryAt => exact ⟨(sane_install h.inv hc).inv, install_within hc⟩
  | stage input =>
    refine ⟨?_, stage_within h.within hc⟩
    obtain ⟨⟨store, b⟩, hstage, hc⟩ := Option.bind_eq_some_iff.mp hc
    have hinv := (Steps.stage h.inv hstage).inv
    cases b with
    | true =>
      obtain rfl := checked_eq hc
      exact hinv
    | false =>
      cases hc
      exact hinv
  | markSendBase c baseCookie nowMs =>
    exact ⟨(sane_markSendBase h.inv hc).inv, markSendBase_within h.inv h.within hc⟩
  | acknowledge i cookie nowMs =>
    obtain ⟨b, hack⟩ : ∃ b, w.acknowledgement i cookie nowMs = some (w', b) := by
      have hc : w.acknowledge i cookie nowMs = some w' := hc
      unfold QuotaDb.acknowledge at hc
      split at hc
      · cases hc
      · rename_i w₁ hack
        exact ⟨true, checked_eq hc ▸ hack⟩
      · rename_i w₁ hack
        cases hc
        exact ⟨false, hack⟩
    exact ⟨(sane_acknowledgement h.inv hack).1.inv, acknowledgement_within h.within hack⟩
  | retireConnection connectionId nowMs =>
    exact ⟨(sane_retireAll h.inv hc).inv, retireAll_within h.inv (.of_within h.within) hc⟩
  | retainReplay key nowMs =>
    cases hc
    have hsame := retainReplay_store w key nowMs
    refine ⟨?_, pruneReplays_within (by rw [hsame]; exact .of_within h.within) nowMs⟩
    rw [(pruneReplays_sub _ nowMs).1, hsame]
    exact h.inv
  | pruneReplays nowMs =>
    cases hc
    refine ⟨?_, pruneReplays_within (.of_within h.within) nowMs⟩
    rw [(pruneReplays_sub w nowMs).1]
    exact h.inv
  | deleteReplay key =>
    cases hc
    exact ⟨h.inv, within_lighter h.within (.refl _) (rows_deleteWhere _ _)⟩

theorem QuotaDb.Budgeted.step (h : w.Budgeted) {op : QuotaOp} (hres : w.Reserved op) :
    (w.step op).Budgeted := by
  unfold QuotaDb.step
  cases hc : w.call op with
  | none => exact h
  | some w' => exact h.call hres hc

theorem QuotaDb.Budgeted.run (h : w.Budgeted) {ops : List QuotaOp} (hres : w.ReservedRun ops) :
    (w.run ops).Budgeted := by
  induction ops generalizing w with
  | nil => exact h
  | cons op ops ih => exact ih (h.step hres.1) hres.2

/-- What the quota promises of a state. -/
structure QuotaDb.Sound (w : QuotaDb) : Prop where
  registration : (gatewayDurablePayloadUsage w).chargedRegistrationBytes ≤
    GATEWAY_MAX_REGISTRATION_PAYLOAD_BYTES
  total : (gatewayDurablePayloadUsage w).chargedTotalBytes ≤ GATEWAY_MAX_DURABLE_PAYLOAD_BYTES
  acknowledges : ∀ i cookie nowMs,
    w.acknowledge i cookie nowMs = none → w.acknowledgement i cookie nowMs = none
  prunes : ∀ nowMs, w.pruneReplays nowMs = w.trimReplays nowMs

/-- In every run whose steps are reserved for, the quota holds in the state that is reached, no
acknowledgement fails for it, and pruning only removes replays that are expired or too many. -/
theorem payload_quota_kept (ops : List QuotaOp) (h : QuotaDb.empty.ReservedRun ops) :
    (QuotaDb.empty.run ops).Sound := by
  have hw := (budgeted_empty.run h).within
  refine ⟨hw.1, hw.2, fun i cookie nowMs hnone => ?_, pruneReplays_eq_trim hw⟩
  unfold QuotaDb.acknowledge at hnone
  split at hnone
  · rename_i hack
    exact hack
  · rename_i w' hack
    unfold QuotaDb.checked at hnone
    rw [if_pos (acknowledgement_within hw hack)] at hnone
    cases hnone
  · cases hnone

def quotaKey : RegistrationKey := ⟨"p", "c", 0⟩

def quotaInstall (registrationId argsJson : String) : GatewayDb.Install where
  identity := ⟨registrationId, quotaKey, "s"⟩
  organizationId := "o"
  payload := ⟨"r", argsJson, "{}", "d", "h", "v", none, none⟩
  sourceCdbId := "cdb"
  schemaEpoch := 1
  recoveryGeneration := 0
  domainSchemaEpoch := 1
  authEpochs := ⟨1, 1, 1⟩
  nowMs := 0

/-- A registration is installed and retired before the Cdb answers. -/
def abandonOps : List QuotaOp :=
  [.install (quotaInstall "a" "[]") 1, .store (.retire quotaKey "a" 0) trivial]

/-- A registration that is abandoned, marked ambiguous and cleaned up. -/
theorem payload_quota_kept_abandoned : (QuotaDb.empty.run (abandonOps ++
    [.store (.markAmbiguous ⟨"a", quotaKey, "s"⟩ 0) trivial, .pruneReplays 5,
      .store (.cleanup quotaKey "a") trivial])).Sound :=
  payload_quota_kept _ ⟨trivial, trivial, fun _ => ⟨by decide +kernel, by decide +kernel⟩, trivial,
    trivial, trivial⟩

/-! ## A registration that outgrows the quota -/

theorem install_of_fresh {input : GatewayDb.Install} {recoveryAt : Nat} {store store' : GatewayDb}
    (hnone : w.store.heads.find? input.identity.key = none)
    (hin : w.store.installGatewayRegistration input false = some (store, none))
    (hw : QuotaDb.WithinQuota ⟨store, w.replays⟩)
    (harm : store.armGatewaySubscriptionRecovery input.identity recoveryAt input.nowMs =
      some (store', true)) :
    w.install input recoveryAt = some ⟨store', w.replays⟩ := by
  unfold GatewayDb.installGatewayRegistration at hin
  dsimp only at hin
  rw [hnone, Option.map_none] at hin
  obtain ⟨t, ht, hin⟩ := Option.bind_eq_some_iff.mp hin
  obtain ⟨x, hx, hin⟩ := Option.bind_eq_some_iff.mp hin
  obtain rfl := Option.some.inj hx
  obtain ⟨d, hup, hin⟩ := Option.bind_eq_some_iff.mp hin
  rw [if_neg (by decide)] at hin
  cases hin
  unfold QuotaDb.install
  dsimp only
  rw [hnone, Option.map_none, if_neg (by decide)]
  refine Option.bind_eq_some_iff.mpr ⟨t, ht, Option.bind_eq_some_iff.mpr ⟨_, rfl,
    Option.bind_eq_some_iff.mpr ⟨store, hup, Option.bind_eq_some_iff.mpr
      ⟨⟨store, w.replays⟩, if_pos hw, Option.bind_eq_some_iff.mpr ⟨_, harm, rfl⟩⟩⟩⟩⟩

/-- Its successor takes what is left of the quota, and then it is marked ambiguous. -/
def outgrowOps (argsJson : String) : List QuotaOp :=
  [.install (quotaInstall "b" argsJson) 1, .store (.markAmbiguous ⟨"a", quotaKey, "s"⟩ 0) trivial]

def abandoned : QuotaDb := QuotaDb.empty.run abandonOps

/-- The row of the first registration. -/
def abandonedRow : Generation := { (quotaInstall "a" "[]").generation.retire 0 with retryAt := some 1 }

theorem quotaInstall_bytes (args : String) :
    (quotaInstall "b" args).generation.payload.bytes = args.utf8ByteSize + 6 := by
  show 1 + args.utf8ByteSize + 2 + 1 + 1 + 1 = _
  omega

/-- What the successor is charged with, whether it is armed or not. -/
theorem quotaInstall_charge (args : String) (retryAt : Option Nat) {retryError : Option String}
    (he : storedBytes retryError ≤ GATEWAY_MAX_RETRY_ERROR_BYTES) :
    { (quotaInstall "b" args).generation with retryAt, retryError }.charge true none =
      args.utf8ByteSize + 4275 := by
  have hfixed : (quotaInstall "b" args).generation.fixedBytes = 8 := rfl
  have hstate : (quotaInstall "b" args).generation.stateBytes = 17 := rfl
  have hfuture : futureSnapshotCookieBytes none = 1080 := by decide
  rw [charge_headed]
  show (quotaInstall "b" args).generation.fixedBytes +
    (quotaInstall "b" args).generation.payload.bytes +
    (quotaInstall "b" args).generation.stateBytes +
    max GATEWAY_MAX_RETRY_ERROR_BYTES (storedBytes retryError) +
    (max GATEWAY_UUID_TOKEN_BYTES (storedBytes none) +
      max (futureSnapshotCookieBytes none) (storedBytes none) +
      max (futureSnapshotCookieBytes none) (storedBytes none)) = _
  rw [hfixed, quotaInstall_bytes, hstate, Nat.max_eq_left he, hfuture, storedBytes_none]
  unfold GATEWAY_MAX_RETRY_ERROR_BYTES GATEWAY_UUID_TOKEN_BYTES
  omega

theorem abandonedRow_charge : abandonedRow.charge false none = 2079 ∧
    (GatewayDb.ambiguous 0 abandonedRow).charge false none = 2080 := by decide +kernel

theorem outgrow_store (args : String) : ∃ store₁ store₂ store₃ : GatewayDb,
    abandoned.store.installGatewayRegistration (quotaInstall "b" args) false = some (store₁, none) ∧
      store₁.armGatewaySubscriptionRecovery (quotaInstall "b" args).identity 1 0 =
        some (store₂, true) ∧
      store₂.markPendingGatewaySubscriptionAmbiguous ⟨"a", quotaKey, "s"⟩ 0 = some (store₃, true) ∧
      store₁.registrationCharge = args.utf8ByteSize + 6354 ∧ store₁.snapshotCharge = 0 ∧
      store₃.registrationCharge = args.utf8ByteSize + 6355 := by
  obtain ⟨hcharge, hcharge'⟩ := abandonedRow_charge
  refine ⟨_, _, _, rfl, rfl, rfl, ?_, rfl, ?_⟩
  · have hsum := @quotaInstall_charge args none none (Nat.zero_le _)
    show abandonedRow.charge false none + ((quotaInstall "b" args).generation.charge true none + 0) = _
    rw [hcharge]
    have hsum : (quotaInstall "b" args).generation.charge true none = args.utf8ByteSize + 4275 := hsum
    omega
  · have hsum := @quotaInstall_charge args (some 1) (some "subscription install recovery") (by decide)
    show (GatewayDb.ambiguous 0 abandonedRow).charge false none +
      ({ (quotaInstall "b" args).generation with
          retryAt := some 1
          retryError := some "subscription install recovery" }.charge true none + 0) = _
    rw [hcharge', hsum]
    omega

theorem run_append (w : QuotaDb) (ops more : List QuotaOp) :
    w.run (ops ++ more) = (w.run ops).run more := by
  induction ops generalizing w with
  | nil => rfl
  | cons op ops ih => exact ih (w.step op)

/-- The arguments that leave nothing to charge. -/
def fillingArgs : String := String.ofList (List.replicate 15722286 'a')

theorem utf8Len_replicate (n : Nat) : String.utf8Len (List.replicate n 'a') = n := by
  induction n with
  | zero => rfl
  | succ n ih =>
    rw [List.replicate_succ, String.utf8Len_cons, ih]
    rfl

theorem fillingArgs_bytes : fillingArgs.utf8ByteSize = 15722286 := by
  unfold fillingArgs
  rw [String.utf8ByteSize_ofList]
  exact utf8Len_replicate _

/-- One byte that nothing reserves breaks the quota. -/
theorem payload_quota_broken : ¬ ∀ ops : List QuotaOp, (QuotaDb.empty.run ops).Sound := by
  intro hsound
  obtain ⟨store₁, store₂, store₃, hin, harm, hamb, hreg, hsnap, hreg'⟩ := outgrow_store fillingArgs
  rw [fillingArgs_bytes] at hreg hreg'
  have hwithin : QuotaDb.WithinQuota ⟨store₁, abandoned.replays⟩ := by
    refine withinQuota_iff.mpr ?_
    show store₁.registrationCharge ≤ _ ∧ store₁.registrationCharge + store₁.snapshotCharge + 0 ≤ _
    rw [hreg, hsnap]
    decide
  have hinstall : abandoned.install (quotaInstall "b" fillingArgs) 1 =
      some ⟨store₂, abandoned.replays⟩ := install_of_fresh rfl hin hwithin harm
  have hrun : abandoned.run (outgrowOps fillingArgs) = ⟨store₃, abandoned.replays⟩ := by
    show QuotaDb.step ((abandoned.install (quotaInstall "b" fillingArgs) 1).getD abandoned)
      (.store (.markAmbiguous ⟨"a", quotaKey, "s"⟩ 0) trivial) = _
    rw [hinstall]
    show (((store₂.markPendingGatewaySubscriptionAmbiguous ⟨"a", quotaKey, "s"⟩ 0).map
      Prod.fst).map fun store => QuotaDb.mk store abandoned.replays).getD _ = _
    rw [hamb]
    rfl
  have hbound := (hsound (abandonOps ++ outgrowOps fillingArgs)).registration
  rw [run_append] at hbound
  have hbound : (gatewayDurablePayloadUsage
      (abandoned.run (outgrowOps fillingArgs))).chargedRegistrationBytes ≤ 15728640 := hbound
  rw [hrun, chargedRegistrationBytes_eq] at hbound
  have hbound : store₃.registrationCharge ≤ 15728640 := hbound
  omega

end Chardb.Gateway
