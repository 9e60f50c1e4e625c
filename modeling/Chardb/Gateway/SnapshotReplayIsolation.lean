import Chardb.Gateway.SnapshotReplayInvariant

/-!
# Replays are isolated

Along every run the log accounts for the outbox and for the replays, so that what a lookup returns was
staged for that very scope, was sent, and is not settled.
-/

namespace Chardb.Gateway

open Chardb.Lib

variable {w w' : QuotaDb} {log es : List ReplayEvent} {snapshot : StagedSnapshot}
  {sentAt : Option Nat} {x : GatewayHistory}

/-! ## What the log says of a snapshot -/

/-- It was staged, nothing was settled since, and its last send was claimed since. -/
def Accounts (log : List ReplayEvent) (snapshot : StagedSnapshot) (sentAt : Option Nat) : Prop :=
  ∃ newer older, log = newer ++ .staged snapshot :: older ∧
    (∀ e ∈ newer, ¬ e.Settles snapshot.scope) ∧
    ∀ t, sentAt = some t → .sent snapshot.registrationId snapshot.scope.cookie t ∈ newer

theorem Accounts.later (h : Accounts log snapshot sentAt)
    (hes : ∀ e ∈ es, ¬ e.Settles snapshot.scope) : Accounts (es ++ log) snapshot sentAt := by
  obtain ⟨newer, older, rfl, hn, ht⟩ := h
  refine ⟨es ++ newer, older, (List.append_assoc _ _ _).symm, fun e he => ?_, fun t hs => ?_⟩
  · exact (List.mem_append.mp he).elim (hes e) (hn e)
  · exact List.mem_append_right _ (ht t hs)

theorem Accounts.send (h : Accounts log snapshot sentAt) (t : Nat) :
    Accounts (.sent snapshot.registrationId snapshot.scope.cookie t :: log) snapshot (some t) := by
  obtain ⟨newer, older, rfl, hn, -⟩ := h
  refine ⟨.sent _ _ t :: newer, older, rfl, fun e he => ?_, fun t' ht' => ?_⟩
  · rcases List.mem_cons.mp he with rfl | he
    · exact id
    · exact hn e he
  · obtain rfl := Option.some.inj ht'
    exact List.mem_cons_self

theorem Accounts.stage (log : List ReplayEvent) (snapshot : StagedSnapshot) :
    Accounts (.staged snapshot :: log) snapshot none :=
  ⟨[], log, rfl, fun e he => absurd he List.not_mem_nil, fun t ht => by cases ht⟩

/-! ## Every step -/

/-- The log accounts for the outbox and for the replays. -/
structure GatewayHistory.Accounted (x : GatewayHistory) : Prop where
  inv : Inv x.db.store
  outbox : ∀ snapshot sentAt, x.db.store.Holds snapshot sentAt → Accounts x.log snapshot sentAt
  replays : ∀ r ∈ x.db.replays, ∃ snapshot, r.Copies snapshot ∧
    Accounts x.log snapshot (some r.createdAt)

theorem accounted_empty : GatewayHistory.empty.Accounted := by
  refine ⟨inv_empty, fun snapshot sentAt ⟨g, o, hg, _⟩ => ?_, fun r hr => absurd hr Table.not_mem_empty⟩
  have hg : (Table.empty : GenerationTable).find? snapshot.registrationId = some g := hg
  cases hg

/-- Settling what is left nowhere keeps the account. -/
theorem GatewayHistory.Accounted.calm (hx : x.Accounted) (h : Sane x.db w')
    (hout : ∀ e ∈ es, ∀ snapshot sentAt, w'.store.Holds snapshot sentAt → ¬ e.Settles snapshot.scope)
    (hrep : ∀ e ∈ es, ∀ r ∈ w'.replays, ¬ e.Settles r.scope) : GatewayHistory.Accounted ⟨w', es ++ x.log⟩ := by
  refine ⟨h.inv, fun snapshot sentAt hh => ?_, fun r hr => ?_⟩
  · exact (hx.outbox _ _ (h.holds _ _ hh)).later fun e he => hout e he _ _ hh
  · have hkept : ∃ snapshot, r.Copies snapshot ∧ Accounts x.log snapshot (some r.createdAt) := by
      rcases h.replays r hr with hold | ⟨snapshot, hcopies, hheld⟩
      · exact hx.replays r hold
      · exact ⟨snapshot, hcopies, hx.outbox _ _ hheld⟩
    obtain ⟨snapshot, hcopies, haccounts⟩ := hkept
    exact ⟨snapshot, hcopies, haccounts.later fun e he => hcopies.scope ▸ hrep e he r hr⟩

theorem GatewayHistory.Accounted.quiet (hx : x.Accounted) (h : Sane x.db w') :
    GatewayHistory.Accounted ⟨w', x.log⟩ :=
  @GatewayHistory.Accounted.calm _ [] _ hx h (fun _ he => absurd he List.not_mem_nil) fun _ he => absurd he List.not_mem_nil

theorem stagedEvents_mem {db db' : GatewayDb} {registrationId : String} {e : ReplayEvent}
    (h : e ∈ stagedEvents db db' registrationId) : ∃ snapshot, e = .staged snapshot := by
  unfold stagedEvents at h
  split at h
  · cases h
  · split at h
    · exact ⟨_, List.mem_singleton.mp h⟩
    · cases h

theorem GatewayHistory.Accounted.stage {input : GatewayDb.Stage} (hx : x.Accounted)
    (h : x.db.stage input = some w') : GatewayHistory.Accounted
      ⟨w', stagedEvents x.db.store w'.store input.identity.registrationId ++ x.log⟩ := by
  have hparts : ∃ b, x.db.store.stageGatewaySnapshot input false = some (w'.store, b) ∧
      w'.replays = x.db.replays := by
    obtain ⟨⟨store, b⟩, hs, he⟩ := Option.bind_eq_some_iff.mp h
    cases b with
    | true =>
      obtain rfl := checked_eq he
      exact ⟨true, hs, rfl⟩
    | false =>
      cases he
      exact ⟨false, hs, rfl⟩
  obtain ⟨b, hs, hr⟩ := hparts
  have hquiet : ∀ scope, ∀ e ∈ stagedEvents x.db.store w'.store input.identity.registrationId,
      ¬ e.Settles scope := by
    intro scope e he
    obtain ⟨snapshot, rfl⟩ := stagedEvents_mem he
    exact id
  refine ⟨(Steps.stage hx.inv hs).inv, fun snapshot sentAt hh => ?_, fun r hmem => ?_⟩
  · rcases Holding.stage hs hh with hold | ⟨rfl, hevents⟩
    · exact (hx.outbox _ _ hold).later (hquiet _)
    · show Accounts (stagedEvents x.db.store w'.store input.identity.registrationId ++ x.log) _ _
      rw [hevents]
      exact .stage x.log snapshot
  · rw [hr] at hmem
    obtain ⟨snapshot, hcopies, haccounts⟩ := hx.replays r hmem
    exact ⟨snapshot, hcopies, haccounts.later (hquiet _)⟩

/-- What a claim of a send adds to the log. -/
def sentEvents (due : Option OutboxRow) (nowMs : Nat) : List ReplayEvent :=
  match due with
  | some due => [.sent due.registrationId due.cookie nowMs]
  | none => []

theorem GatewayHistory.Accounted.send {allowed : OutboxRow → Bool} {claimToken : String}
    {nowMs attemptExpiresAt : Nat} {store : GatewayDb} {due : Option OutboxRow} (hx : x.Accounted)
    (h : x.db.store.claimDueGatewaySnapshot allowed claimToken nowMs attemptExpiresAt =
      some (store, due)) :
    GatewayHistory.Accounted ⟨{ x.db with store }, sentEvents due nowMs ++ x.log⟩ := by
  have hquiet : ∀ scope, ∀ e ∈ sentEvents due nowMs, ¬ e.Settles scope := by
    intro scope e he
    unfold sentEvents at he
    split at he
    · rw [List.mem_singleton.mp he]
      exact id
    · cases he
  refine ⟨(Steps.claimDue hx.inv h).inv, fun snapshot sentAt hh => ?_, fun r hmem => ?_⟩
  · rcases Holding.claimDue h hh with hold | ⟨o, rfl, hid, hcookie, rfl, before, hold⟩
    · exact (hx.outbox _ _ hold).later (hquiet _)
    · show Accounts (.sent o.registrationId o.cookie nowMs :: x.log) _ _
      rw [hid, hcookie]
      exact (hx.outbox _ _ hold).send nowMs
  · obtain ⟨snapshot, hcopies, haccounts⟩ := hx.replays r hmem
    exact ⟨snapshot, hcopies, haccounts.later (hquiet _)⟩

theorem sane_store {op : GatewayOp} (h : Inv w.store) (hop : op.Unchecked)
    (hsend : ∀ allowed token nowMs expiresAt, op ≠ .claimSend allowed token nowMs expiresAt)
    {store : GatewayDb} (hc : op.call w.store = some store) : Sane w { w with store } := by
  refine ⟨calm_store (op.holding h hop hsend hc), ?_⟩
  have hinv := inv_step h op
  unfold GatewayDb.step at hinv
  rw [hc] at hinv
  exact hinv

theorem sane_prune (h : Inv w.store) (nowMs : Nat) : Sane w (w.pruneReplays nowMs) :=
  ⟨calm_prune w nowMs, (pruneReplays_sub w nowMs).1 ▸ h⟩

theorem sane_retain (h : Inv w.store) (key : RegistrationKey) (nowMs : Nat) :
    Sane w (w.retainReplay key nowMs) :=
  ⟨calm_retain w key nowMs, retainReplay_store w key nowMs ▸ h⟩

theorem GatewayHistory.Accounted.acknowledge {i : Identity} {cookie : String} {nowMs : Nat}
    (hx : x.Accounted) (h : x.db.acknowledge i cookie nowMs = some w') : GatewayHistory.Accounted
      ⟨w', (match x.db.acknowledgement i cookie nowMs with
        | some (w', true) => if w'.WithinQuota then [.settled i.key none] else []
        | _ => []) ++ x.log⟩ := by
  unfold QuotaDb.acknowledge at h
  cases hack : x.db.acknowledgement i cookie nowMs with
  | none =>
    rw [hack] at h
    cases h
  | some result =>
    obtain ⟨w₁, b⟩ := result
    obtain ⟨hsane, hnone⟩ := sane_acknowledgement hx.inv hack
    rw [hack] at h
    cases b with
    | false =>
      cases h
      exact hx.quiet hsane
    | true =>
      obtain rfl := checked_eq h
      obtain ⟨hout, hrep⟩ := hnone rfl
      have hevent : ∀ e ∈ if w'.WithinQuota then [ReplayEvent.settled i.key none] else [],
          e = .settled i.key none := fun e he => by
        split at he
        · exact List.mem_singleton.mp he
        · cases he
      refine hx.calm hsane (fun e he snapshot sentAt hh hs => ?_) fun e he r hr hs => ?_
      · rw [hevent e he] at hs
        exact hout _ _ hh hs.1.symm
      · rw [hevent e he] at hs
        exact hrep r hr hs.1.symm

/-- What is held of a subscription is not settled. -/
theorem unsettled_of_holds {db : GatewayDb} {cookie : Option String} (h : db.Holds snapshot sentAt)
    (hc : cookie = none ∨ cookie = some snapshot.scope.cookie) : db.Unsettled snapshot.scope.key cookie := by
  obtain ⟨g, o, hg, ho, rfl, -⟩ := h
  obtain ⟨hgm, hgid⟩ := generation_of_find hg
  obtain ⟨hom, hoid⟩ := Table.find?_eq_some.mp ho
  exact ⟨o, hom, g, hgm, hgid.trans hoid.symm, rfl, hc⟩

theorem GatewayHistory.Accounted.unsub {key : RegistrationKey} {connectionId : String} {nowMs : Nat}
    (hx : x.Accounted) (h : x.db.unsub key connectionId nowMs = some w') : GatewayHistory.Accounted
      ⟨w', (if w'.store.Unsettled key none then [] else [.settled key none]) ++ x.log⟩ := by
  obtain ⟨⟨store, retired⟩, hretire, rfl⟩ := Option.map_eq_some_iff.mp h
  have hcalm : Calm x.db { x.db with store } := calm_store (.retireCurrent hretire)
  have hsane : Sane x.db (QuotaDb.deleteReplay ⟨store, x.db.replays⟩ key) :=
    ⟨hcalm.trans (calm_deleteReplay _ key), (Steps.retireCurrent hx.inv hretire).inv⟩
  show GatewayHistory.Accounted
    ⟨_, (if store.Unsettled key none then [] else [.settled key none]) ++ x.log⟩
  by_cases hsettled : store.Unsettled key none
  · rw [if_pos hsettled]
    exact hx.quiet hsane
  · rw [if_neg hsettled]
    refine hx.calm hsane (fun e he snapshot sentAt hh hs => ?_) fun e he r hr hs => ?_
    · rw [List.mem_singleton.mp he] at hs
      refine hsettled ?_
      rw [hs.1]
      exact unsettled_of_holds hh (.inl rfl)
    · rw [List.mem_singleton.mp he] at hs
      exact of_decide_eq_false (Table.mem_deleteWhere.mp hr).2 hs.1.symm

/-- What an acknowledgement of a replay settles, unless the snapshot is still in the outbox. -/
def replayEvents (w' : QuotaDb) (principalId clientId cookie : String) :
    Option Nat → List ReplayEvent
  | some subId =>
    if w'.store.Unsettled ⟨principalId, clientId, subId⟩ (some cookie) then []
    else [.settled ⟨principalId, clientId, subId⟩ (some cookie)]
  | none => []

theorem GatewayHistory.Accounted.acknowledgeReplay {principalId clientId cookie : String} {nowMs : Nat}
    (hx : x.Accounted) : GatewayHistory.Accounted
      ⟨(x.db.acknowledgeReplay principalId clientId cookie nowMs).1,
        replayEvents (x.db.acknowledgeReplay principalId clientId cookie nowMs).1 principalId clientId
          cookie (x.db.acknowledgeReplay principalId clientId cookie nowMs).2 ++ x.log⟩ := by
  have hpruned := sane_prune hx.inv nowMs
  unfold QuotaDb.acknowledgeReplay
  dsimp only
  split
  · exact hx.quiet hpruned
  · rename_i r rest hfirst
    have hsane : Sane x.db { x.db.pruneReplays nowMs with
        replays := (x.db.pruneReplays nowMs).replays.deleteWhere fun x =>
          decide (x.key = r.key ∧ x.cookie = cookie) } :=
      hpruned.trans ⟨calm_of_sub rfl fun _ hr => (Table.mem_deleteWhere.mp hr).1, hpruned.inv⟩
    have hkey : r.key = ⟨principalId, clientId, r.key.subId⟩ := by
      have hm : r ∈ r :: rest := List.mem_cons_self
      rw [← hfirst, Table.mem_orderBy] at hm
      obtain ⟨hp, hc, -⟩ := of_decide_eq_true hm.2
      rw [← hp, ← hc]
    unfold replayEvents
    dsimp only
    split
    · exact hx.quiet hsane
    · rename_i hsettled
      refine hx.calm hsane (fun e he snapshot sentAt hh hs => ?_) fun e he x hx' hs => ?_
      · rw [List.mem_singleton.mp he] at hs
        refine hsettled ?_
        rw [hs.1]
        exact unsettled_of_holds hh (hs.2)
      · rw [List.mem_singleton.mp he, ← hkey] at hs
        refine of_decide_eq_false (Table.mem_deleteWhere.mp hx').2 ⟨hs.1.symm, ?_⟩
        rcases hs.2 with hn | hc
        · cases hn
        · exact (Option.some.inj hc).symm

theorem sane_resolve (h : Inv w.store) (readable : String → Bool) (lookup : GatewaySnapshotReplayLookup) :
    Sane w (w.resolveReplay readable lookup).1 := by
  have hpruned := sane_prune h lookup.nowMs
  unfold QuotaDb.resolveReplay
  dsimp only
  split
  · exact hpruned
  · split
    · exact hpruned
    · exact hpruned.trans ⟨calm_of_sub rfl fun _ hr => (Table.mem_deleteWhere.mp hr).1, hpruned.inv⟩

theorem accounted_quota {op : QuotaOp} (hop : ∀ key, op ≠ .deleteReplay key) (hx : x.Accounted)
    (h : x.db.call op = some w') :
    GatewayHistory.Accounted ⟨w', (ReplayOp.quota op hop).events x.db w' ++ x.log⟩ := by
  cases op with
  | store op hun =>
    obtain ⟨store, hc, rfl⟩ := Option.map_eq_some_iff.mp h
    by_cases hsend : ∃ allowed token nowMs expiresAt, op = .claimSend allowed token nowMs expiresAt
    · obtain ⟨allowed, token, nowMs, expiresAt, rfl⟩ := hsend
      obtain ⟨due, hdue⟩ := fst_eq_some hc
      have hsent := hx.send hdue
      unfold ReplayOp.events
      dsimp only
      rw [hdue]
      cases due with
      | none => exact hsent
      | some due => exact hsent
    · have hsane := sane_store hx.inv hun (fun allowed token nowMs expiresAt he =>
        hsend ⟨allowed, token, nowMs, expiresAt, he⟩) hc
      have hquiet := hx.quiet hsane
      cases op with
      | claimSend allowed token nowMs expiresAt => exact absurd ⟨_, _, _, _, rfl⟩ hsend
      | _ => exact hquiet
  | install input recoveryAt => exact hx.quiet (sane_install hx.inv h)
  | stage input => exact hx.stage h
  | markSendBase c baseCookie nowMs => exact hx.quiet (sane_markSendBase hx.inv h)
  | acknowledge i cookie nowMs => exact hx.acknowledge h
  | retireConnection connectionId nowMs => exact hx.quiet (sane_retireAll hx.inv h)
  | retainReplay key nowMs =>
    cases h
    have hretain := sane_retain hx.inv key nowMs
    exact hx.quiet (hretain.trans (sane_prune hretain.inv nowMs))
  | pruneReplays nowMs =>
    cases h
    exact hx.quiet (sane_prune hx.inv nowMs)
  | deleteReplay key => exact absurd rfl (hop key)

theorem accounted_step (hx : x.Accounted) (op : ReplayOp) : (x.step op).Accounted := by
  unfold GatewayHistory.step
  cases hc : op.call x.db with
  | none => exact hx
  | some w' =>
    cases op with
    | quota op hop => exact accounted_quota hop hx hc
    | retainDeferred key nowMs =>
      cases hc
      exact hx.quiet (sane_retain hx.inv key nowMs)
    | unsub key connectionId nowMs => exact hx.unsub hc
    | resolve readable lookup =>
      cases hc
      exact hx.quiet (sane_resolve hx.inv readable lookup)
    | acknowledgeReplay principalId clientId cookie nowMs =>
      cases hc
      exact hx.acknowledgeReplay

theorem accounted_run (hx : x.Accounted) (ops : List ReplayOp) : (x.run ops).Accounted := by
  induction ops generalizing x with
  | nil => exact hx
  | cons op ops ih => exact ih (accounted_step hx op)

/-! ## Lookups -/

theorem sendTimes_mem {registrationId cookie : String} {t : Nat}
    (h : .sent registrationId cookie t ∈ log) : t ∈ sendTimes log registrationId cookie := by
  refine List.mem_filterMap.mpr ⟨_, h, ?_⟩
  exact if_pos ⟨rfl, rfl⟩

theorem le_max_of_mem {l : List Nat} {t : Nat} (h : t ∈ l) : ∃ m ∈ l.max?, t ≤ m := by
  obtain ⟨m, hm⟩ := Option.isSome_iff_exists.mp (List.isSome_max?_of_mem h)
  exact ⟨m, hm, (List.max?_eq_some_iff.mp hm).2 t h⟩

theorem GatewayHistory.Accounted.explains {readable : String → Bool}
    {lookup : GatewaySnapshotReplayLookup} {rowsJson : String} (hx : x.Accounted)
    (h : (x.db.resolveReplay readable lookup).2 = some rowsJson) :
    GatewayHistory.Explains x.log lookup rowsJson := by
  unfold QuotaDb.resolveReplay at h
  dsimp only at h
  split at h
  · cases h
  · rename_i r hr
    split at h
    · obtain rfl := Option.some.inj h
      have hfound := List.find?_some hr
      obtain ⟨hscope, hlive⟩ := of_decide_eq_true hfound
      have hmem := (pruneReplays_sub x.db lookup.nowMs).2 r (List.mem_of_find?_eq_some hr)
      obtain ⟨snapshot, hcopies, newer, older, hlog, hsettled, hsent⟩ := hx.replays r hmem
      obtain ⟨m, hm, hle⟩ := le_max_of_mem (sendTimes_mem (hsent _ rfl))
      refine ⟨snapshot, newer, older, hlog, hcopies.scope.symm.trans hscope, hcopies.rowsJson.symm,
        hsettled, m, hm, ?_⟩
      rw [hcopies.expiresAt] at hlive
      omega
    · cases h

/-- Whatever a lookup returns, the log explains. -/
def GatewayHistory.Isolated (x : GatewayHistory) : Prop :=
  ∀ readable lookup rowsJson, (x.db.resolveReplay readable lookup).2 = some rowsJson →
    GatewayHistory.Explains x.log lookup rowsJson

/-- After any operations a replay that is returned was staged for the scope that is asked for, sent
less than the retention window ago, and not settled since it was staged. -/
theorem snapshot_replay_isolated (ops : List ReplayOp) : (GatewayHistory.empty.run ops).Isolated :=
  fun _ _ _ h => (accounted_run accounted_empty ops).explains h

/-! ## What settles nothing -/

/-- The operation stages no snapshot. -/
def ReplayOp.StagesNothing : ReplayOp → Prop
  | quota (.stage _) _ => False
  | _ => True

/-- After an acknowledgement of a replay its cookie is never returned again, unless it is staged
again. -/
def NeverAfterAcknowledgement : Prop :=
  ∀ (ops later : List ReplayOp) (key : RegistrationKey) (cookie : String) (nowMs : Nat)
    (readable : String → Bool) (lookup : GatewaySnapshotReplayLookup),
    ((GatewayHistory.empty.run ops).db.acknowledgeReplay key.principalId key.clientId cookie nowMs).2 =
        some key.subId → (∀ op ∈ later, op.StagesNothing) → lookup.scope.key = key →
      lookup.scope.cookie = cookie →
      (((GatewayHistory.empty.run (ops ++ .acknowledgeReplay key.principalId key.clientId cookie nowMs ::
        later)).db.resolveReplay readable lookup).2 = none)

/-- After an unsub nothing of the subscription is returned, unless it is staged again. -/
def NeverAfterUnsub : Prop :=
  ∀ (ops later : List ReplayOp) (key : RegistrationKey) (connectionId : String) (nowMs : Nat)
    (readable : String → Bool) (lookup : GatewaySnapshotReplayLookup),
    (∀ op ∈ later, op.StagesNothing) → lookup.scope.key = key →
      (((GatewayHistory.empty.run (ops ++ .unsub key connectionId nowMs :: later)).db.resolveReplay
        readable lookup).2 = none)

def sampleKey : RegistrationKey := ⟨"p", "c", 0⟩

def sampleIdentity : Identity := ⟨"r", sampleKey, "first"⟩

def sampleToken : Uuid := ⟨"00000000-0000-4000-8000-000000000000", by decide⟩

def sampleInstall : GatewayDb.Install where
  identity := sampleIdentity
  organizationId := "o"
  payload := ⟨"ref", "[]", "{}", "d", "h", "s", none, none⟩
  sourceCdbId := "cdb"
  schemaEpoch := 1
  recoveryGeneration := 0
  domainSchemaEpoch := 1
  authEpochs := ⟨1, 1, 1⟩
  nowMs := 0

def sampleStage : GatewayDb.Stage where
  identity := sampleIdentity
  cookie := "k"
  rowsJson := "[]"
  byteSize := 2
  runToken := sampleToken.text
  runVersion := 1
  targetVersion := 0
  recoveryGeneration := 0
  authEpochs := ⟨1, 1, 1⟩
  nowMs := 1

theorem not_deleteReplay_store {op : GatewayOp} {h : op.Unchecked} (key : RegistrationKey) :
    QuotaOp.store op h ≠ .deleteReplay key := fun he => by cases he

theorem not_deleteReplay_install {input : GatewayDb.Install} {recoveryAt : Nat} (key : RegistrationKey) :
    QuotaOp.install input recoveryAt ≠ .deleteReplay key := fun he => by cases he

theorem not_deleteReplay_stage {input : GatewayDb.Stage} (key : RegistrationKey) :
    QuotaOp.stage input ≠ .deleteReplay key := fun he => by cases he

/-- A snapshot is staged and sent, and kept as a replay while its generation lives. -/
def sampleOps : List ReplayOp :=
  [.quota (.install sampleInstall 1) not_deleteReplay_install,
    .quota (.store (.activate sampleIdentity 0 1) trivial) not_deleteReplay_store,
    .quota (.store (.claim sampleIdentity sampleToken.text 1 10) ⟨sampleToken, rfl⟩) not_deleteReplay_store,
    .quota (.stage sampleStage) not_deleteReplay_stage,
    .quota (.store (.claimSend (fun _ => true) sampleToken.text 2 10) ⟨sampleToken, rfl⟩)
      not_deleteReplay_store,
    .retainDeferred sampleKey 3]

def sampleLookup : GatewaySnapshotReplayLookup :=
  ⟨⟨sampleKey, "k", "o", "ref", "[]", "d", "h", "s", "cdb", 1, 0, 1, ⟨1, 1, 1⟩⟩, 6⟩

/-- A replay is kept again from the outbox after it was acknowledged, and after an unsub on another
connection. -/
theorem replay_returns_while_staged : ¬ NeverAfterAcknowledgement ∧ ¬ NeverAfterUnsub := by
  constructor
  · intro h
    have hnone := h sampleOps [.retainDeferred sampleKey 5] sampleKey "k" 4 (fun _ => true) sampleLookup
      (by decide +kernel) (fun op hop => by rw [List.mem_singleton.mp hop]; trivial) rfl rfl
    exact absurd hnone (by decide +kernel)
  · intro h
    have hnone := h sampleOps [.retainDeferred sampleKey 5] sampleKey "second" 4 (fun _ => true)
      sampleLookup (fun op hop => by rw [List.mem_singleton.mp hop]; trivial) rfl
    exact absurd hnone (by decide +kernel)

end Chardb.Gateway
