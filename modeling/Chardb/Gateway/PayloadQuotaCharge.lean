import Chardb.Gateway.PayloadQuota
import Mathlib.Algebra.BigOperators.Group.List.Basic
import Mathlib.Algebra.Order.BigOperators.Group.List

/-!
# What operations are charged

The charge of one generation, as a function of its row, of whether it has a head and of its outbox
row; how each statement changes the sums, and that no operation which leaves the quota unchecked
makes them larger, but for a pending generation without a head that becomes ambiguous.
-/

namespace Chardb.Gateway

open Chardb.Lib

variable {db db' : GatewayDb}

/-! ## Texts -/

theorem sliceUnits_bytes (n : Nat) (cs : List Char) : String.utf8Len (sliceUnits n cs) ≤ 4 * n := by
  induction n using Nat.strong_induction_on generalizing cs with
  | _ n ih =>
    cases n with
    | zero => exact Nat.zero_le _
    | succ n =>
      cases cs with
      | nil => exact Nat.zero_le _
      | cons c cs =>
        have hc := c.utf8Size_le_four
        unfold sliceUnits
        split
        · split
          · show String.utf8Len ['\uFFFD'] ≤ _
            decide
          · rename_i m
            have := ih m (by omega) cs
            rw [String.utf8Len_cons]
            omega
        · have := ih n (by omega) cs
          rw [String.utf8Len_cons]
          omega

theorem gatewayRetryError_bytes (message : String) :
    (gatewayRetryError message).utf8ByteSize ≤ GATEWAY_MAX_RETRY_ERROR_BYTES := by
  unfold gatewayRetryError
  rw [String.utf8ByteSize_ofList]
  exact sliceUnits_bytes _ _

/-! ## One generation -/

/-- What a generation is charged with. -/
def Generation.charge (g : Generation) (headed : Bool) (o : Option OutboxRow) : Nat :=
  g.payloadBytes + (g.retryReservation + if headed then g.headReservation o else 0)

/-- `lifecycle` and `cdb_state`. -/
def Generation.stateBytes (g : Generation) : Nat :=
  g.lifecycle.text.utf8ByteSize + g.cdbState.text.utf8ByteSize

theorem charge_headed (g : Generation) (o : Option OutboxRow) :
    g.charge true o = g.fixedBytes + g.payload.bytes + g.stateBytes +
      max GATEWAY_MAX_RETRY_ERROR_BYTES (storedBytes g.retryError) +
      (max GATEWAY_UUID_TOKEN_BYTES (storedBytes g.runToken) +
        max (futureSnapshotCookieBytes o) (storedBytes g.payload.lastCookie) +
        max (futureSnapshotCookieBytes o) (storedBytes g.payload.lastSnapshotCookie)) := by
  unfold Generation.charge Generation.payloadBytes Generation.retryReservation
    Generation.headReservation Generation.stateBytes
  rw [if_pos rfl]
  omega

theorem charge_headless (g : Generation) (o : Option OutboxRow) :
    g.charge false o = g.fixedBytes + g.payload.bytes + g.stateBytes +
      max GATEWAY_MAX_RETRY_ERROR_BYTES (storedBytes g.retryError) +
      (storedBytes g.runToken + storedBytes g.payload.lastCookie +
        storedBytes g.payload.lastSnapshotCookie) := by
  unfold Generation.charge Generation.payloadBytes Generation.retryReservation Generation.stateBytes
  rw [if_neg (by decide)]
  omega

theorem futureSnapshotCookieBytes_none (o : Option OutboxRow) :
    futureSnapshotCookieBytes none ≤ futureSnapshotCookieBytes o := by
  unfold futureSnapshotCookieBytes
  exact max_le_max_left _ (Nat.zero_le _)

/-- Without its head or its outbox row a generation is charged with less. -/
theorem charge_mono (g : Generation) {headed headed' : Bool} {o o' : Option OutboxRow}
    (hh : headed' = true → headed = true)
    (ho : futureSnapshotCookieBytes o' ≤ futureSnapshotCookieBytes o) :
    g.charge headed' o' ≤ g.charge headed o := by
  cases headed' with
  | true =>
    rw [hh rfl, charge_headed, charge_headed]
    omega
  | false =>
    cases headed with
    | true =>
      rw [charge_headed, charge_headless]
      omega
    | false => rw [charge_headless, charge_headless]

theorem charge_retired {g g' : Generation} (hf : g'.fixedBytes = g.fixedBytes)
    (hp : g'.payload = .retired) (hl : g'.lifecycle = .retiring) (hk : g'.runToken = none)
    (he : g'.retryError = none) :
    g'.charge false none ≤ g.fixedBytes + 24 + GATEWAY_MAX_RETRY_ERROR_BYTES := by
  rw [charge_headless, hf, hp, hk, he]
  have hs : g'.stateBytes ≤ 16 := by
    unfold Generation.stateBytes
    rw [hl]
    cases g'.cdbState <;> decide
  have hb : Payload.retired.bytes = 8 := by decide
  have hc : storedBytes Payload.retired.lastCookie = 0 := rfl
  have hc' : storedBytes Payload.retired.lastSnapshotCookie = 0 := rfl
  have hn : storedBytes none = 0 := rfl
  rw [hb, hc, hc', hn]
  omega

/-- What is reserved for a head pays for retirement. -/
theorem charge_retire_headed {g g' : Generation} (hf : g'.fixedBytes = g.fixedBytes)
    (hp : g'.payload = .retired) (hl : g'.lifecycle = .retiring) (hk : g'.runToken = none)
    (he : g'.retryError = none) (o : Option OutboxRow) :
    g'.charge false none ≤ g.charge true o := by
  refine (charge_retired hf hp hl hk he).trans ?_
  rw [charge_headed]
  have htoken : GATEWAY_UUID_TOKEN_BYTES = 36 := rfl
  omega

/-! ## All rows -/

/-- What the generation is charged with in these tables. -/
def GatewayDb.chargeOf (db : GatewayDb) (g : Generation) : Nat :=
  g.charge (decide (db.Headed g.registrationId)) (db.outbox.find? g.registrationId)

def OutboxRow.charge (o : OutboxRow) : Nat := o.payloadBytes + o.reservation

def GatewayDb.registrationCharge (db : GatewayDb) : Nat :=
  (db.generations.rows.map db.chargeOf).sum

def GatewayDb.snapshotCharge (db : GatewayDb) : Nat := (db.outbox.rows.map (·.charge)).sum

theorem chargedRegistrationBytes_eq (w : QuotaDb) :
    (gatewayDurablePayloadUsage w).chargedRegistrationBytes = w.store.registrationCharge := by
  unfold GatewayDurablePayloadUsage.chargedRegistrationBytes gatewayDurablePayloadUsage
    GatewayDb.registrationCharge
  dsimp only
  rw [← List.sum_map_add]
  refine congrArg List.sum (List.map_congr_left fun g _ => ?_)
  unfold GatewayDb.chargeOf Generation.charge GatewayDb.reservation
  simp only [decide_eq_true_eq]

theorem chargedTotalBytes_eq (w : QuotaDb) :
    (gatewayDurablePayloadUsage w).chargedTotalBytes = w.store.registrationCharge +
      w.store.snapshotCharge + (w.replays.rows.map (·.payloadBytes)).sum := by
  have hreg := chargedRegistrationBytes_eq w
  have hsnap : (w.store.outbox.rows.map (·.payloadBytes)).sum +
      (w.store.outbox.rows.map (·.reservation)).sum = w.store.snapshotCharge := by
    unfold GatewayDb.snapshotCharge OutboxRow.charge
    rw [← List.sum_map_add]
  unfold GatewayDurablePayloadUsage.chargedRegistrationBytes at hreg
  unfold GatewayDurablePayloadUsage.chargedTotalBytes
  unfold gatewayDurablePayloadUsage at hreg ⊢
  dsimp only at hreg ⊢
  omega

/-- Neither sum becomes larger. -/
structure Lighter (db db' : GatewayDb) : Prop where
  registration : db'.registrationCharge ≤ db.registrationCharge
  snapshot : db'.snapshotCharge ≤ db.snapshotCharge

theorem Lighter.refl (db : GatewayDb) : Lighter db db := ⟨le_rfl, le_rfl⟩

theorem Lighter.trans {db₁ db₂ db₃ : GatewayDb} (h : Lighter db₁ db₂) (h' : Lighter db₂ db₃) :
    Lighter db₁ db₃ :=
  ⟨h'.registration.trans h.registration, h'.snapshot.trans h.snapshot⟩

theorem sum_sublist_le {α : Type} {l l' : List α} {f : α → Nat} (h : l'.Sublist l) :
    (l'.map f).sum ≤ (l.map f).sum := (h.map f).sum_le_sum fun _ _ => Nat.zero_le _

theorem registrationCharge_le {φ : Generation → Generation}
    (hrows : db'.generations.rows = db.generations.rows.map φ)
    (h : ∀ g ∈ db.generations.rows, db'.chargeOf (φ g) ≤ db.chargeOf g) :
    db'.registrationCharge ≤ db.registrationCharge := by
  unfold GatewayDb.registrationCharge
  rw [hrows, List.map_map]
  exact List.sum_le_sum h

/-! ## Statements -/

theorem updateGenerations_rows {p : Generation → Bool} {f : Generation → Generation} {n : Nat}
    (hu : db.updateGenerations p f = some (db', n)) :
    db'.generations.rows = db.generations.rows.map fun g => if p g then f g else g := by
  obtain ⟨t, ht, he⟩ := Option.map_eq_some_iff.mp hu
  obtain ⟨rfl, rfl⟩ := Prod.mk.inj he
  exact Table.rows_update ht

theorem lighter_updateGenerations {p : Generation → Bool} {f : Generation → Generation} {n : Nat}
    (hu : db.updateGenerations p f = some (db', n))
    (hid : ∀ g, (f g).registrationId = g.registrationId)
    (hle : ∀ g ∈ db.generations.rows, p g = true →
      (f g).charge (decide (db.Headed g.registrationId)) (db.outbox.find? g.registrationId) ≤
        db.chargeOf g) : Lighter db db' := by
  obtain ⟨hheads, hout, -, -⟩ := updateGenerations_find hu hid
  have hheaded : ∀ id, db'.Headed id ↔ db.Headed id := fun id => by
    unfold GatewayDb.Headed
    rw [hheads]
  refine ⟨registrationCharge_le (updateGenerations_rows hu) fun g hg => ?_, ?_⟩
  · unfold GatewayDb.chargeOf
    rw [hout]
    split
    · rename_i hp
      rw [hid, decide_eq_decide.mpr (hheaded _)]
      exact hle g hg hp
    · rw [decide_eq_decide.mpr (hheaded _)]
  · unfold GatewayDb.snapshotCharge
    rw [hout]

theorem registrationCharge_updateOutbox {p : OutboxRow → Bool} {f : OutboxRow → OutboxRow} {n : Nat}
    (hu : db.updateOutbox p f = some (db', n))
    (hf : ∀ o, (f o).registrationId = o.registrationId ∧ (f o).cookie = o.cookie) :
    db'.registrationCharge ≤ db.registrationCharge := by
  obtain ⟨t, ht, he⟩ := Option.map_eq_some_iff.mp hu
  obtain ⟨rfl, rfl⟩ := Prod.mk.inj he
  refine List.sum_le_sum fun g _ => charge_mono g id ?_
  show futureSnapshotCookieBytes (t.find? g.registrationId) ≤ _
  rw [Table.find?_update ht fun o _ _ => (hf o).1]
  unfold futureSnapshotCookieBytes
  rw [Option.map_map]
  refine le_of_eq (congrArg (fun c => max _ (storedBytes c)) ?_)
  refine congrArg (fun k => Option.map k _) (funext fun o => ?_)
  show (if p o then f o else o).cookie = o.cookie
  split
  · exact (hf o).2
  · rfl

theorem lighter_updateOutbox {p : OutboxRow → Bool} {f : OutboxRow → OutboxRow} {n : Nat}
    (hu : db.updateOutbox p f = some (db', n))
    (hf : ∀ o, (f o).registrationId = o.registrationId ∧ (f o).cookie = o.cookie)
    (hle : ∀ o, (f o).charge ≤ o.charge) : Lighter db db' := by
  refine ⟨registrationCharge_updateOutbox hu hf, ?_⟩
  obtain ⟨t, ht, he⟩ := Option.map_eq_some_iff.mp hu
  obtain ⟨rfl, rfl⟩ := Prod.mk.inj he
  unfold GatewayDb.snapshotCharge
  rw [Table.rows_update ht, List.map_map]
  refine List.sum_le_sum fun o _ => ?_
  show (if p o then f o else o).charge ≤ o.charge
  split
  · exact hle o
  · exact le_rfl

theorem rows_deleteWhere {ρ κ : Type} {key : ρ → κ} {check : ρ → Prop} (t : Table key check)
    (p : ρ → Bool) : (t.deleteWhere p).rows.Sublist t.rows := List.filter_sublist

theorem futureSnapshotCookieBytes_delete (t : OutboxTable) (p : OutboxRow → Bool) (id : String) :
    futureSnapshotCookieBytes ((t.deleteWhere p).find? id) ≤
      futureSnapshotCookieBytes (t.find? id) := by
  rw [Table.find?_deleteWhere]
  cases t.find? id with
  | none => exact le_rfl
  | some o =>
    by_cases hp : p o = true
    · rw [Option.filter_some_neg (by rw [hp]; decide)]
      exact futureSnapshotCookieBytes_none _
    · rw [Option.filter_some_pos (by rw [Bool.eq_false_iff.mpr hp]; rfl)]

theorem lighter_deleteOutbox (db : GatewayDb) (p : OutboxRow → Bool) :
    Lighter db (db.deleteOutbox p) := by
  refine ⟨List.sum_le_sum fun g _ => charge_mono g id (futureSnapshotCookieBytes_delete _ _ _), ?_⟩
  exact sum_sublist_le (rows_deleteWhere _ _)

theorem lighter_deleteHead (db : GatewayDb) (key : RegistrationKey) (registrationId : String) :
    Lighter db (db.deleteHead key registrationId) := by
  refine ⟨List.sum_le_sum fun g _ => charge_mono g (fun hh => ?_) le_rfl, le_rfl⟩
  obtain ⟨hd, hm, he⟩ := of_decide_eq_true hh
  exact decide_eq_true ⟨hd, (Table.mem_deleteWhere.mp hm).1, he⟩

theorem lighter_deleteGenerations {p : Generation → Bool} {n : Nat}
    (hd : db.deleteGenerations p = some (db', n)) : Lighter db db' := by
  unfold GatewayDb.deleteGenerations at hd
  split at hd
  · cases hd
  · cases hd
    refine ⟨?_, sum_sublist_le (rows_deleteWhere _ _)⟩
    refine le_trans (List.sum_le_sum fun g _ => ?_) (sum_sublist_le (rows_deleteWhere _ p))
    exact charge_mono g id (futureSnapshotCookieBytes_delete _ _ _)

theorem sum_indicator {α : Type} (p : α → Bool) (k : Nat) (l : List α) :
    (l.map fun x => if p x then k else 0).sum = (l.filter p).length * k := by
  induction l with
  | nil => exact (Nat.zero_mul k).symm
  | cons x l ih =>
    rw [List.map_cons, List.sum_cons, ih, List.filter_cons]
    split
    · rw [List.length_cons, Nat.succ_mul, Nat.add_comm]
    · exact Nat.zero_add _

/-- A registration loses its head and its outbox row, and its row grows by some bytes. -/
theorem charge_scrubs {id : String} {f : Generation → Generation} {k : Nat} (hs : Scrubs db db' id f)
    (hid : ∀ g, (f g).registrationId = g.registrationId)
    (hle : ∀ g ∈ db.generations.rows, g.registrationId = id →
      (f g).charge false none ≤ db.chargeOf g + k) :
    db'.registrationCharge ≤ db.registrationCharge + k := by
  have hone : (db.generations.select fun g => decide (g.registrationId = id)).length ≤ 1 :=
    Table.select_length_le_one fun r hr r' hr' h₁ h₂ =>
      Table.eq_of_key hr hr' ((of_decide_eq_true h₁).trans (of_decide_eq_true h₂).symm)
  have hsum : db'.registrationCharge ≤ (db.generations.rows.map fun g =>
      db.chargeOf g + if decide (g.registrationId = id) then k else 0).sum := by
    unfold GatewayDb.registrationCharge
    rw [hs.rows, List.map_map]
    refine List.sum_le_sum fun g hg => ?_
    show db'.chargeOf (if g.registrationId = id then f g else g) ≤ _
    unfold GatewayDb.chargeOf
    by_cases hgid : g.registrationId = id
    · rw [if_pos hgid, if_pos (decide_eq_true hgid), hid, hs.outbox, if_pos hgid,
        decide_eq_false fun hh => ((hs.headed _).mp hh).2 hgid]
      exact hle g hg hgid
    · rw [if_neg hgid, if_neg (fun hd => hgid (of_decide_eq_true hd)), hs.outbox, if_neg hgid]
      refine charge_mono g (fun hh => ?_) le_rfl
      exact decide_eq_true ((hs.headed _).mp (of_decide_eq_true hh)).1
  rw [List.sum_map_add, sum_indicator] at hsum
  refine hsum.trans (Nat.add_le_add_left ?_ _)
  exact (Nat.mul_le_mul_right k hone).trans_eq (Nat.one_mul k)

end Chardb.Gateway
