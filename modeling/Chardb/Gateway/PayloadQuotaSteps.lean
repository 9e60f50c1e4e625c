import Chardb.Gateway.PayloadQuotaCharge
import Chardb.Gateway.SnapshotReplayInvariant

/-!
# What each operation is charged

Operations that check no quota make neither sum larger: a head pays for the tokens, cookies and state
words of its generation, and every row for its error text.
-/

namespace Chardb.Gateway

open Chardb.Lib

variable {db db' : GatewayDb}

/-! ## Rows -/

theorem headed_of_current {g : Generation} (h : db.Current g) :
    decide (db.Headed g.registrationId) = true := by
  obtain ⟨hd, hm, hid, -⟩ := h
  exact decide_eq_true ⟨hd, hm, hid⟩

/-- A generation with its head that keeps its payload, with a token and an error that are reserved. -/
theorem charge_reserved {g g' : Generation} (o : Option OutboxRow) (hf : g'.fixedBytes = g.fixedBytes)
    (hp : g'.payload = g.payload) (hs : g'.stateBytes ≤ g.stateBytes)
    (he : storedBytes g'.retryError ≤ max GATEWAY_MAX_RETRY_ERROR_BYTES (storedBytes g.retryError))
    (hk : storedBytes g'.runToken ≤ max GATEWAY_UUID_TOKEN_BYTES (storedBytes g.runToken)) :
    g'.charge true o ≤ g.charge true o := by
  rw [charge_headed, charge_headed, hf, hp]
  omega

theorem lighter_current {p : Generation → Bool} {f : Generation → Generation} {n : Nat}
    (hu : db.updateGenerations p f = some (db', n))
    (hid : ∀ g, (f g).registrationId = g.registrationId)
    (hcur : ∀ g ∈ db.generations.rows, p g = true → db.Current g)
    (hle : ∀ g ∈ db.generations.rows, p g = true → ∀ o, (f g).charge true o ≤ g.charge true o) :
    Lighter db db' := by
  refine lighter_updateGenerations hu hid fun g hg hp => ?_
  unfold GatewayDb.chargeOf
  rw [headed_of_current (hcur g hg hp)]
  exact hle g hg hp _

theorem storedBytes_none : storedBytes none = 0 := rfl

theorem storedBytes_uuid (token : Uuid) : storedBytes (some token.text) = GATEWAY_UUID_TOKEN_BYTES :=
  token.size

theorem storedBytes_error (message : String) :
    storedBytes (some (gatewayRetryError message)) ≤ GATEWAY_MAX_RETRY_ERROR_BYTES :=
  gatewayRetryError_bytes message

/-! ## Runs -/

theorem Lighter.arm {i : Identity} {recoveryAt nowMs : Nat} {b : Bool}
    (he : db.armGatewaySubscriptionRecovery i recoveryAt nowMs = some (db', b)) :
    Lighter db db' := by
  unfold GatewayDb.armGatewaySubscriptionRecovery at he
  split at he
  · cases he
  · obtain ⟨⟨d, n⟩, hu, he⟩ := Option.map_eq_some_iff.mp he
    obtain ⟨rfl, -⟩ := Prod.mk.inj he
    refine lighter_current hu (fun _ => rfl) (fun g _ hp => (of_decide_eq_true hp).2.2.2) fun g _ _ o => ?_
    have htext : storedBytes (some "subscription install recovery") ≤ GATEWAY_MAX_RETRY_ERROR_BYTES := by
      decide
    exact charge_reserved o rfl rfl le_rfl (htext.trans (Nat.le_max_left _ _)) (Nat.le_max_right _ _)

theorem Lighter.activate {i : Identity} {changeSeq nowMs : Nat} {b : Bool}
    (he : db.activateGatewaySubscription i changeSeq nowMs = some (db', b)) : Lighter db db' := by
  obtain ⟨⟨d, n⟩, hu, he⟩ := Option.map_eq_some_iff.mp he
  obtain ⟨rfl, -⟩ := Prod.mk.inj he
  refine lighter_current hu (fun _ => rfl) (fun g _ hp => (of_decide_eq_true hp).2.2.2) fun g _ hp o => ?_
  obtain ⟨-, hl, hc, -⟩ := of_decide_eq_true hp
  refine charge_reserved o rfl rfl ?_ (Nat.zero_le _) (Nat.le_max_right _ _)
  unfold Generation.stateBytes
  rw [hl, hc]
  show Lifecycle.active.text.utf8ByteSize + CdbState.active.text.utf8ByteSize ≤ _
  decide

theorem Lighter.accept {i : Identity} {sourceCdbId : String} {changeSeq updatedAt : Nat} {b : Bool}
    (he : db.acceptInvalidation i sourceCdbId changeSeq updatedAt = some (db', b)) : Lighter db db' := by
  unfold GatewayDb.acceptInvalidation at he
  split at he
  · cases he
    exact .refl db
  · split at he
    · cases he
      exact .refl db
    · split at he
      · cases he
      · obtain ⟨⟨d, n⟩, hu, he⟩ := Option.bind_eq_some_iff.mp he
        dsimp only at he
        split at he
        · cases he
        · cases he
          exact lighter_updateGenerations hu (fun _ => rfl) fun _ _ _ => le_rfl

theorem Lighter.claim {i : Identity} {token : Uuid} {nowMs leaseExpiresAt : Nat} {b : Bool}
    (he : db.claimDirtyGatewayRegistration i token.text nowMs leaseExpiresAt = some (db', b)) :
    Lighter db db' := by
  unfold GatewayDb.claimDirtyGatewayRegistration at he
  split at he
  · cases he
  · obtain ⟨⟨d, n⟩, hu, he⟩ := Option.map_eq_some_iff.mp he
    obtain ⟨rfl, -⟩ := Prod.mk.inj he
    refine lighter_current hu (fun _ => rfl) (fun g _ hp => (of_decide_eq_true hp).1.2.2) fun g _ _ o => ?_
    exact charge_reserved o rfl rfl le_rfl (Nat.le_max_right _ _)
      ((storedBytes_uuid token).trans_le (Nat.le_max_left _ _))

theorem Lighter.failRun {i : Identity} {runToken message : String} {runVersion nowMs : Nat}
    {retryNotBeforeMs : Option Nat} {b : Bool}
    (he : db.failGatewayDirtyRun i runToken runVersion nowMs retryNotBeforeMs
      (gatewayRetryError message) = some (db', b)) : Lighter db db' := by
  obtain ⟨⟨d, n⟩, hu, he⟩ := Option.map_eq_some_iff.mp he
  obtain ⟨rfl, -⟩ := Prod.mk.inj he
  refine lighter_current hu (fun _ => rfl) (fun g _ hp => (of_decide_eq_true hp).1.2.2) fun g _ _ o => ?_
  exact charge_reserved o rfl rfl le_rfl ((storedBytes_error message).trans (Nat.le_max_left _ _))
    (Nat.zero_le _)

theorem Lighter.defer {i : Identity} {nowMs retryAt : Nat} {b : Bool}
    (he : db.deferGatewayDirtyRun i nowMs retryAt = some (db', b)) : Lighter db db' := by
  unfold GatewayDb.deferGatewayDirtyRun at he
  split at he
  · cases he
  · obtain ⟨⟨d, n⟩, hu, he⟩ := Option.map_eq_some_iff.mp he
    obtain ⟨rfl, -⟩ := Prod.mk.inj he
    refine lighter_current hu (fun _ => rfl) (fun g _ hp => (of_decide_eq_true hp).1.2.2) fun g _ _ o => ?_
    have htext : storedBytes (some GATEWAY_AUTH_REFRESH_PENDING_ERROR) ≤ GATEWAY_MAX_RETRY_ERROR_BYTES := by
      decide
    exact charge_reserved o rfl rfl le_rfl (htext.trans (Nat.le_max_left _ _)) (Nat.le_max_right _ _)

theorem charge_outbox (o : OutboxRow) : o.charge = o.registrationId.utf8ByteSize +
    o.cookie.utf8ByteSize + o.rowsJson.utf8ByteSize + storedBytes o.attachmentBaseCookie +
    (max GATEWAY_UUID_TOKEN_BYTES (storedBytes o.claimToken) +
      max GATEWAY_MAX_RETRY_ERROR_BYTES (storedBytes o.lastError)) := by
  unfold OutboxRow.charge OutboxRow.payloadBytes OutboxRow.reservation
  omega

theorem Lighter.resume {connectionId : String} {nowMs : Nat} {b : Bool}
    (he : db.resumeGatewayAuthDeferredWork connectionId nowMs = some (db', b)) : Lighter db db' := by
  obtain ⟨⟨d, n⟩, hu, he⟩ := Option.bind_eq_some_iff.mp he
  obtain ⟨⟨d', m⟩, hu', he⟩ := Option.bind_eq_some_iff.mp he
  cases he
  have hfirst : Lighter db d := by
    refine lighter_current hu (fun _ => rfl) (fun g _ hp => (of_decide_eq_true hp).2.2.2.2.2) fun g _ _ o => ?_
    exact charge_reserved o rfl rfl le_rfl (Nat.zero_le _) (Nat.le_max_right _ _)
  refine hfirst.trans (lighter_updateOutbox hu' (fun _ => ⟨rfl, rfl⟩) fun o => ?_)
  rw [charge_outbox, charge_outbox, storedBytes_none]
  dsimp only
  omega

theorem Lighter.cleanupFailure {i : Identity} {retryCount nowMs : Nat} {message : String}
    (he : db.recordGatewayCleanupFailure i retryCount nowMs (gatewayRetryError message) = some db') :
    Lighter db db' := by
  obtain ⟨⟨d, n⟩, hu, rfl⟩ := Option.map_eq_some_iff.mp he
  refine lighter_updateGenerations hu (fun _ => rfl) fun g _ hp => ?_
  obtain ⟨⟨-, -, -, -, hheadless⟩, -⟩ := of_decide_eq_true hp
  unfold GatewayDb.chargeOf
  rw [decide_eq_false hheadless, charge_headless, charge_headless]
  have hbytes := storedBytes_error message
  show _ + _ + _ + max _ (storedBytes (some (gatewayRetryError message))) + _ ≤ _
  show g.fixedBytes + g.payload.bytes + g.stateBytes +
    max GATEWAY_MAX_RETRY_ERROR_BYTES (storedBytes (some (gatewayRetryError message))) +
      (storedBytes g.runToken + storedBytes g.payload.lastCookie +
        storedBytes g.payload.lastSnapshotCookie) ≤ _
  omega

/-! ## Sending -/

theorem Lighter.claimDue {allowed : OutboxRow → Bool} {token : Uuid} {nowMs attemptExpiresAt : Nat}
    {due : Option OutboxRow}
    (he : db.claimDueGatewaySnapshot allowed token.text nowMs attemptExpiresAt = some (db', due)) :
    Lighter db db' := by
  unfold GatewayDb.claimDueGatewaySnapshot at he
  split at he
  · cases he
  · split at he
    · cases he
      exact .refl db
    · obtain ⟨⟨d, n⟩, hu, he⟩ := Option.map_eq_some_iff.mp he
      obtain ⟨rfl, -⟩ := Prod.mk.inj he
      refine lighter_updateOutbox hu (fun _ => ⟨rfl, rfl⟩) fun o => ?_
      rw [charge_outbox, charge_outbox, storedBytes_uuid]
      dsimp only
      omega

theorem Lighter.failSend {c : GatewayDb.SendClaim} {nowMs : Nat} {retryNotBeforeMs : Option Nat}
    {message : String} {b : Bool}
    (he : db.failGatewaySnapshotSend c nowMs retryNotBeforeMs (gatewayRetryError message) =
      some (db', b)) : Lighter db db' := by
  obtain ⟨⟨d, n⟩, hu, he⟩ := Option.map_eq_some_iff.mp he
  obtain ⟨rfl, -⟩ := Prod.mk.inj he
  refine lighter_updateOutbox hu (fun _ => ⟨rfl, rfl⟩) fun o => ?_
  have hbytes := storedBytes_error message
  rw [charge_outbox, charge_outbox, storedBytes_none]
  dsimp only
  omega

/-! ## Retiring -/

/-- A generation that has its head loses it and its outbox row, and its payload is scrubbed. -/
theorem lighter_retired {id : String} {nowMs : Nat} (hhead : db.Headed id)
    (hs : Scrubs db db' id (Generation.retire · nowMs)) : Lighter db db' := by
  constructor
  · refine charge_scrubs (k := 0) hs (fun _ => rfl) fun g _ hgid => ?_
    unfold GatewayDb.chargeOf
    rw [hgid, decide_eq_true hhead]
    exact @charge_retire_headed g (g.retire nowMs) rfl rfl rfl rfl rfl _
  · unfold GatewayDb.snapshotCharge
    rw [hs.outboxRows]
    exact sum_sublist_le List.filter_sublist

theorem retire_lighter {key : RegistrationKey} {registrationId : String} {nowMs : Nat} {b : Bool}
    (h : Inv db)
    (he : db.retireGatewayRegistration key registrationId nowMs = some (db', b)) :
    Lighter db db' ∧
      (b = true → db'.outbox.rows =
        db.outbox.rows.filter fun o => !decide (o.registrationId = registrationId)) := by
  rcases retire_scrubs h he with ⟨rfl, rfl⟩ | ⟨hhead, hs⟩
  · exact ⟨.refl _, fun hb => by cases hb⟩
  · exact ⟨lighter_retired hhead hs, fun _ => hs.outboxRows⟩

theorem Lighter.retireCurrent {key : RegistrationKey} {connectionId : String} {nowMs : Nat}
    {o : Option Generation} (h : Inv db)
    (he : db.retireCurrentGatewayRegistration key connectionId nowMs = some (db', o)) :
    Lighter db db' := by
  rcases retireCurrent_scrubs h he with rfl | ⟨id, hhead, hs⟩
  · exact .refl _
  · exact lighter_retired hhead hs

theorem Lighter.retireRun {i : Identity} {runToken : String} {runVersion nowMs : Nat} {b : Bool}
    (h : Inv db)
    (he : db.retireClaimedGatewayRegistration i runToken runVersion nowMs = some (db', b)) :
    Lighter db db' := by
  unfold GatewayDb.retireClaimedGatewayRegistration at he
  split at he
  · exact (retire_lighter h he).1
  · cases he
    exact .refl db

theorem retireSend_lighter {c : GatewayDb.SendClaim} {nowMs : Nat} {b : Bool} (h : Inv db)
    (he : db.retireClaimedGatewaySnapshot c nowMs = some (db', b)) :
    Lighter db db' ∧ (b = true → db'.outbox.rows =
      db.outbox.rows.filter fun o => !decide (o.registrationId = c.identity.registrationId)) := by
  unfold GatewayDb.retireClaimedGatewaySnapshot at he
  split at he
  · exact retire_lighter h he
  · cases he
    exact ⟨.refl db, fun hb => by cases hb⟩

/-! ## Ambiguous registrations -/

/-- The pending registration has lost its head. -/
def GatewayDb.Abandoned (db : GatewayDb) (i : Identity) : Prop :=
  ∃ g ∈ db.generations.rows, GatewayDb.Pending i g ∧ ¬ db.Headed g.registrationId

instance (db : GatewayDb) (i : Identity) : Decidable (db.Abandoned i) :=
  inferInstanceAs (Decidable (∃ g ∈ db.generations.rows, _))

/-- `retiring` is one byte longer than `pending`. -/
theorem charge_ambiguous {g : Generation} {o : Option OutboxRow} {headed : Bool} (nowMs : Nat)
    (hok : RowOk g (headed = true) o) (hp : g.cdbState = .pending) :
    (GatewayDb.ambiguous nowMs g).charge false none ≤
      g.charge headed o + if headed = true then 0 else 1 := by
  cases headed with
  | true => exact @charge_retire_headed g (GatewayDb.ambiguous nowMs g) rfl rfl rfl rfl rfl o
  | false =>
    have hret : g.lifecycle = .retiring := by
      by_contra hne
      cases hok.head.mpr hne
    rw [charge_headless, charge_headless]
    show g.fixedBytes + Payload.retired.bytes + 16 + GATEWAY_MAX_RETRY_ERROR_BYTES + 0 ≤ _
    unfold Generation.stateBytes
    rw [hok.scrubbed hret, hret, hp]
    show _ ≤ g.fixedBytes + Payload.retired.bytes + 15 + max GATEWAY_MAX_RETRY_ERROR_BYTES _ +
      (_ + 0 + 0) + 1
    omega

theorem markAmbiguous_charge {i : Identity} {nowMs : Nat} {b : Bool} (h : Inv db)
    (he : db.markPendingGatewaySubscriptionAmbiguous i nowMs = some (db', b)) :
    db'.registrationCharge ≤ db.registrationCharge + (if db.Abandoned i then 1 else 0) ∧
      db'.snapshotCharge ≤ db.snapshotCharge := by
  rcases markAmbiguous_scrubs h he with rfl | ⟨pending, hmem, hpending, hs⟩
  · exact ⟨Nat.le_add_right _ _, le_rfl⟩
  · constructor
    · refine charge_scrubs hs (fun _ => rfl) fun g hg hgid => ?_
      obtain rfl := Table.eq_of_key hg hmem hgid
      have hok := h.rowOk hg
      rw [← decide_eq_true_iff (p := db.Headed g.registrationId)] at hok
      refine (charge_ambiguous nowMs hok hpending.2).trans (Nat.add_le_add_left ?_ _)
      by_cases hh : db.Headed g.registrationId
      · rw [if_pos (decide_eq_true hh)]
        exact Nat.zero_le _
      · rw [if_neg (fun hd => hh (of_decide_eq_true hd)), if_pos ⟨g, hg, hpending, hh⟩]
    · unfold GatewayDb.snapshotCharge
      rw [hs.outboxRows]
      exact sum_sublist_le List.filter_sublist

/-! ## Removing -/

theorem Lighter.deleteNever {i : Identity} {b : Bool}
    (he : db.deleteNeverRegisteredGatewaySubscription i = some (db', b)) : Lighter db db' := by
  unfold GatewayDb.deleteNeverRegisteredGatewaySubscription at he
  split at he
  · obtain ⟨⟨d, n⟩, hd, he⟩ := Option.map_eq_some_iff.mp he
    obtain ⟨rfl, -⟩ := Prod.mk.inj he
    exact (lighter_deleteHead db _ _).trans
      ((lighter_deleteOutbox _ _).trans (lighter_deleteGenerations hd))
  · cases he
    exact .refl db

theorem Lighter.cleanup {key : RegistrationKey} {registrationId : String} {b : Bool}
    (he : db.cleanupGatewayRegistration key registrationId = some (db', b)) : Lighter db db' := by
  obtain ⟨⟨d, n⟩, hd, he⟩ := Option.map_eq_some_iff.mp he
  obtain ⟨rfl, -⟩ := Prod.mk.inj he
  exact lighter_deleteGenerations hd

theorem Lighter.complete {i : Identity} {sourceCdbId : String}
    (he : db.completeGatewayCleanup i sourceCdbId = some db') : Lighter db db' := by
  obtain ⟨⟨d, n⟩, hd, he⟩ := Option.bind_eq_some_iff.mp he
  have hl := lighter_deleteGenerations hd
  dsimp only at he
  split at he
  · cases he
    exact hl
  · split at he
    · cases he
    · cases he
      exact hl

/-! ## Base cookies and acknowledgements -/

/-- An outbox row that grows and goes is charged with nothing. -/
theorem sum_updated_filter {p q : OutboxRow → Bool} {f : OutboxRow → OutboxRow}
    (hq : ∀ o, p o = true → q (f o) = false) (l : List OutboxRow) :
    (((l.map fun o => if p o then f o else o).filter q).map (·.charge)).sum ≤
      (l.map (·.charge)).sum := by
  rw [List.filter_map, List.map_map]
  refine le_trans (List.sum_le_sum fun o ho => ?_) (sum_sublist_le List.filter_sublist)
  show (if p o then f o else o).charge ≤ o.charge
  have hkept := (List.mem_filter.mp ho).2
  split
  · rename_i hp
    have hkept : q (if p o then f o else o) = true := hkept
    rw [if_pos hp, hq o hp] at hkept
    cases hkept
  · exact le_rfl

/-- Where the claim is bound but exceeds the quota, its row goes. -/
theorem Lighter.exceeding {c : GatewayDb.SendClaim} {baseCookie : Option String} {nowMs : Nat}
    {b : Bool} (h : Inv db)
    (he : db.markGatewaySnapshotSendBaseCookie c baseCookie nowMs true = some (db', b)) :
    Lighter db db' := by
  obtain ⟨⟨d, n⟩, hu, he⟩ := Option.bind_eq_some_iff.mp he
  have hinv : Inv d := (steps_updateOutbox h hu fun _ => ⟨rfl, rfl⟩).inv
  have hreg := registrationCharge_updateOutbox hu fun _ => ⟨rfl, rfl⟩
  obtain ⟨t, ht, hd⟩ := Option.map_eq_some_iff.mp hu
  obtain ⟨rfl, rfl⟩ := Prod.mk.inj hd
  have hone : ∀ o ∈ db.outbox.rows, ∀ o' ∈ db.outbox.rows,
      decide (db.ClaimOwned c o ∧ ∃ t ∈ o.claimExpiresAt, nowMs < t) = true →
      decide (db.ClaimOwned c o' ∧ ∃ t ∈ o'.claimExpiresAt, nowMs < t) = true → o = o' :=
    fun o ho o' ho' h₁ h₂ => by
      obtain ⟨⟨⟨hid₁, -⟩, -⟩, -⟩ := of_decide_eq_true h₁
      obtain ⟨⟨⟨hid₂, -⟩, -⟩, -⟩ := of_decide_eq_true h₂
      exact Table.eq_of_key ho ho' (hid₁.trans hid₂.symm)
  dsimp only at he
  split at he
  · rename_i hn
    cases he
    refine ⟨hreg, ?_⟩
    have hnone : ∀ o ∈ db.outbox.rows,
        decide (db.ClaimOwned c o ∧ ∃ t ∈ o.claimExpiresAt, nowMs < t) ≠ true := fun o ho hp =>
      hn (le_antisymm (Table.select_length_le_one hone)
        (List.length_pos_of_mem (Table.mem_select.mpr ⟨ho, hp⟩)))
    unfold GatewayDb.snapshotCharge
    rw [Table.rows_update ht, List.map_congr_left fun o ho => if_neg (hnone o ho), List.map_id']
  · rw [if_neg (by decide)] at he
    obtain ⟨⟨d', b'⟩, hr, he⟩ := Option.bind_eq_some_iff.mp he
    cases b' with
    | false => cases he
    | true =>
      cases he
      obtain ⟨hl, hrows⟩ := retireSend_lighter hinv hr
      refine ⟨hl.registration.trans hreg, ?_⟩
      unfold GatewayDb.snapshotCharge
      rw [hrows rfl]
      show ((t.rows.filter _).map _).sum ≤ _
      rw [Table.rows_update ht]
      refine sum_updated_filter (fun o hp => ?_) _
      obtain ⟨⟨⟨hid, -⟩, -⟩, -⟩ := of_decide_eq_true hp
      exact congrArg Bool.not (decide_eq_true hid)

/-- The cookie that is recorded is that of the outbox row, which is reserved. -/
theorem Lighter.acknowledge {i : Identity} {cookie : String} {nowMs : Nat} {b : Bool}
    (he : db.acknowledgeGatewaySnapshot i cookie nowMs false = some (db', b)) : Lighter db db' := by
  unfold GatewayDb.acknowledgeGatewaySnapshot at he
  split at he
  · cases he
    exact .refl db
  · rename_i staged hstaged
    have hfound := List.find?_some hstaged
    obtain ⟨hid, hcookie, -⟩ := of_decide_eq_true hfound
    have hmem := List.mem_of_find?_eq_some hstaged
    obtain ⟨⟨d, n⟩, hu, he⟩ := Option.bind_eq_some_iff.mp he
    have hl : Lighter db d := by
      refine lighter_updateGenerations hu (fun _ => rfl) fun g hg hp => ?_
      obtain ⟨⟨⟨hgid, -⟩, -, hcur⟩, -⟩ := of_decide_eq_true hp
      have ho : db.outbox.find? g.registrationId = some staged :=
        Table.find?_eq_some.mpr ⟨hmem, hid.trans hgid.symm⟩
      have hbytes : storedBytes (some cookie) ≤ futureSnapshotCookieBytes (some staged) := by
        unfold futureSnapshotCookieBytes
        rw [Option.map_some, hcookie]
        exact Nat.le_max_right _ _
      unfold GatewayDb.chargeOf
      rw [headed_of_current hcur, ho, charge_headed, charge_headed]
      show g.fixedBytes + g.payload.bytes + g.stateBytes +
        max GATEWAY_MAX_RETRY_ERROR_BYTES (storedBytes g.retryError) +
        (max GATEWAY_UUID_TOKEN_BYTES (storedBytes g.runToken) +
          max (futureSnapshotCookieBytes (some staged)) (storedBytes (some cookie)) +
          max (futureSnapshotCookieBytes (some staged)) (storedBytes (some cookie))) ≤ _
      omega
    dsimp only at he
    split at he
    · cases he
      exact hl
    · split at he
      · cases he
      · rw [if_neg (by decide)] at he
        cases he
        exact hl.trans (lighter_deleteOutbox d _)

end Chardb.Gateway
