import Chardb.Gateway.RegistrationSafety
import Mathlib.Data.Prod.Lex
import Mathlib.Data.String.Basic

/-!
# The alarm of a Gateway

When the Gateway has work next, and the queries that find the work then. The expressions are written
apart from each other; that they agree rests on what the store keeps.
-/

namespace Chardb.Gateway

open Chardb.Lib

def GATEWAY_CLEANUP_BATCH_SIZE : Nat := 32
def GATEWAY_QUERY_BATCH_SIZE : Nat := 16

namespace GatewayDb

/-! ## Rows of each kind of work -/

/-- A retired generation to be forgotten by the Cdb. -/
def Cleaning (db : GatewayDb) (g : Generation) : Prop :=
  g.lifecycle = .retiring ∧ g.cdbState = .retiring ∧ g.retryAt.isSome = true ∧
    ¬ db.Headed g.registrationId

instance (db : GatewayDb) (g : Generation) : Decidable (db.Cleaning g) :=
  inferInstanceAs (Decidable (_ ∧ _))

/-- An install of which nobody knows whether it reached the Cdb. -/
def Recovering (g : Generation) : Prop :=
  g.cdbState = .pending ∧ (g.lifecycle = .installing ∨ g.lifecycle = .retiring) ∧
    g.retryAt.isSome = true

instance (g : Generation) : Decidable (Recovering g) := inferInstanceAs (Decidable (_ ∧ _))

/-- A generation to be queried again, whenever it may be. -/
def Materializing (db : GatewayDb) (g : Generation) : Prop :=
  db.Current g ∧ g.Active ∧ g.sourceCdbId ≠ "" ∧ g.Dirty ∧ ¬ db.Staged g.registrationId

instance (db : GatewayDb) (g : Generation) : Decidable (db.Materializing g) :=
  inferInstanceAs (Decidable (_ ∧ _))

/-! ## Deadlines -/

/-- `CASE WHEN g.run_token IS NULL THEN COALESCE(g.retry_at, 0) ELSE g.run_lease_expires_at END`, for
a run of which all columns are set or none. -/
def runDeadline (g : Generation) : Option Nat :=
  if g.Idle ∨ (g.runToken.isSome = true ∧ g.runTargetVersion.isSome = true ∧
      g.runLeaseExpiresAt.isSome = true) then
    if g.runToken.isNone then some (g.retryAt.getD 0) else g.runLeaseExpiresAt
  else none

/-- `nextGatewaySnapshotSendAt` of one outbox row. -/
def sendDeadline (o : OutboxRow) : Nat :=
  if o.claimToken.isNone then o.nextAttemptAt
  else max o.nextAttemptAt (o.claimExpiresAt.getD o.nextAttemptAt)

def nextGatewaySnapshotSendAt (db : GatewayDb) : Option Nat :=
  ((db.outbox.select fun o => decide (db.Sendable o)).map sendDeadline).min?

/-- `nextGatewayWorkAt`, with no connection excluded; `replay` is the column `expires_at` of the
replays. -/
def nextGatewayWorkAt (db : GatewayDb) (replay : List Nat) : Option Nat :=
  ([((db.generations.select fun g => decide (db.Cleaning g)).filterMap (·.retryAt)).min?,
    ((db.generations.select fun g => decide (Recovering g)).filterMap (·.retryAt)).min?,
    ((db.generations.select fun g => decide (db.Materializing g)).filterMap runDeadline).min?,
    db.nextGatewaySnapshotSendAt,
    replay.min?].filterMap id).min?

/-! ## Due work -/

/-- `ORDER BY COALESCE(g.retry_at, 0), g.registration_id LIMIT n`. -/
def dueGenerations (db : GatewayDb) (p : Generation → Bool) (n : Nat) : List Generation :=
  (db.generations.orderBy p fun g => toLex (g.retryAt.getD 0, g.registrationId)).take n

def dueGatewayCleanupRows (db : GatewayDb) (nowMs : Nat) : List Generation :=
  db.dueGenerations (fun g => decide (db.Cleaning g ∧ ∀ t ∈ g.retryAt, t ≤ nowMs))
    GATEWAY_CLEANUP_BATCH_SIZE

def dueGatewayInstallRecoveries (db : GatewayDb) (nowMs : Nat) : List Generation :=
  db.dueGenerations (fun g => decide (Recovering g ∧ ∀ t ∈ g.retryAt, t ≤ nowMs))
    GATEWAY_QUERY_BATCH_SIZE

def dueCandidates (db : GatewayDb) (nowMs : Nat) : List Generation :=
  db.dueGenerations (fun g => decide (db.Materializing g ∧ (∀ t ∈ g.retryAt, t ≤ nowMs) ∧
    g.Claimable nowMs)) GATEWAY_QUERY_BATCH_SIZE

/-- Some query finds work at `nowMs`; a send is claimed for `lease + 1` milliseconds. -/
def DueWork (db : GatewayDb) (replay : List Nat) (claimToken : String) (nowMs lease : Nat) : Prop :=
  db.dueGatewayCleanupRows nowMs ≠ [] ∨ db.dueGatewayInstallRecoveries nowMs ≠ [] ∨
    db.dueCandidates nowMs ≠ [] ∨
    (∃ db' o, db.claimDueGatewaySnapshot (fun _ => true) claimToken nowMs (nowMs + lease + 1) =
      some (db', some o)) ∨
    ∃ expiresAt ∈ replay, expiresAt ≤ nowMs

/-! ## Minima -/

theorem min_le_iff {l : List Nat} {t : Nat} :
    (∃ m, l.min? = some m ∧ m ≤ t) ↔ ∃ x ∈ l, x ≤ t := by
  constructor
  · rintro ⟨m, hm, hle⟩
    exact ⟨m, List.min?_mem hm, hle⟩
  · rintro ⟨x, hx, hle⟩
    cases hm : l.min? with
    | none =>
      rw [List.min?_eq_none_iff.mp hm] at hx
      cases hx
    | some m => exact ⟨m, rfl, ((List.min?_eq_some_iff.mp hm).2 x hx).trans hle⟩

theorem mins_le_iff {l : List (Option Nat)} {t : Nat} :
    (∃ d, (l.filterMap id).min? = some d ∧ d ≤ t) ↔ ∃ m ∈ l, ∃ d, m = some d ∧ d ≤ t := by
  rw [min_le_iff]
  constructor
  · rintro ⟨d, hd, hle⟩
    obtain ⟨m, hm, he⟩ := List.mem_filterMap.mp hd
    exact ⟨m, hm, d, he, hle⟩
  · rintro ⟨m, hm, d, rfl, hle⟩
    exact ⟨d, List.mem_filterMap.mpr ⟨some d, hm, rfl⟩, hle⟩

theorem dueGenerations_ne_nil {db : GatewayDb} {p : Generation → Bool} {n : Nat} :
    db.dueGenerations p (n + 1) ≠ [] ↔ ∃ g ∈ db.generations.rows, p g = true := by
  unfold dueGenerations
  rw [ne_eq, List.take_eq_nil_iff, not_or]
  constructor
  · rintro ⟨-, hne⟩
    obtain ⟨g, hg⟩ := List.exists_mem_of_ne_nil _ hne
    exact ⟨g, Table.mem_orderBy.mp hg⟩
  · rintro ⟨g, hg⟩
    exact ⟨by omega, List.ne_nil_of_mem (Table.mem_orderBy.mpr hg)⟩

theorem deadline_iff {db : GatewayDb} {p : Generation → Bool} {f : Generation → Option Nat}
    {t : Nat} :
    (∃ m, ((db.generations.select p).filterMap f).min? = some m ∧ m ≤ t) ↔
      ∃ g ∈ db.generations.rows, p g = true ∧ ∃ d, f g = some d ∧ d ≤ t := by
  rw [min_le_iff]
  constructor
  · rintro ⟨d, hd, hle⟩
    obtain ⟨g, hg, hf⟩ := List.mem_filterMap.mp hd
    obtain ⟨hm, hp⟩ := Table.mem_select.mp hg
    exact ⟨g, hm, hp, d, hf, hle⟩
  · rintro ⟨g, hm, hp, d, hf, hle⟩
    exact ⟨d, List.mem_filterMap.mpr ⟨g, Table.mem_select.mpr ⟨hm, hp⟩, hf⟩, hle⟩

/-! ## Each kind of work -/

variable {db : GatewayDb} {t : Nat}

theorem retryAt_due {r : Option Nat} (h : r.isSome = true) :
    (∀ x ∈ r, x ≤ t) ↔ ∃ d, r = some d ∧ d ≤ t := by
  obtain ⟨d, rfl⟩ := Option.isSome_iff_exists.mp h
  simp

theorem runDeadline_iff {g : Generation} {headed : Prop} {o : Option OutboxRow}
    (h : RowOk g headed o) :
    (∃ d, runDeadline g = some d ∧ d ≤ t) ↔ (∀ r ∈ g.retryAt, r ≤ t) ∧ g.Claimable t := by
  unfold runDeadline
  rw [if_pos h.run]
  rcases h.run with hidle | ⟨htoken, htarget, hlease⟩
  · rw [if_pos (by rw [hidle.1]; rfl)]
    constructor
    · rintro ⟨d, hd, hle⟩
      obtain rfl := Option.some.inj hd
      refine ⟨fun r hr => ?_, .inl hidle⟩
      rw [Option.mem_def.mp hr] at hle
      exact hle
    · rintro ⟨hretry, -⟩
      refine ⟨_, rfl, ?_⟩
      cases hr : g.retryAt with
      | none => exact Nat.zero_le t
      | some r => exact hretry r hr
  · obtain ⟨token, htok⟩ := Option.isSome_iff_exists.mp htoken
    obtain ⟨lease, hl⟩ := Option.isSome_iff_exists.mp hlease
    rw [if_neg (by rw [htok]; simp), hl]
    constructor
    · rintro ⟨d, hd, hle⟩
      obtain rfl := Option.some.inj hd
      exact ⟨fun r hr => (h.leased lease hl r hr).trans hle, .inr ⟨htoken, htarget, lease, hl, hle⟩⟩
    · rintro ⟨-, hidle | ⟨-, -, d, hd, hle⟩⟩
      · rw [hidle.2.2] at hl
        cases hl
      · exact ⟨d, hl.symm.trans hd, hle⟩

theorem sendDeadline_le_iff {o : OutboxRow} :
    sendDeadline o ≤ t ↔
      o.nextAttemptAt ≤ t ∧ (o.claimToken = none ∨ ∀ e ∈ o.claimExpiresAt, e ≤ t) := by
  unfold sendDeadline
  cases o.claimToken with
  | none => simp
  | some token =>
    cases o.claimExpiresAt with
    | none => simp
    | some e => simp

/-- A send is claimed exactly where a row is due. -/
theorem claimDue_iff {claimToken : String} {lease : Nat} :
    (∃ db' o, db.claimDueGatewaySnapshot (fun _ => true) claimToken t (t + lease + 1) =
      some (db', some o)) ↔ ∃ o ∈ db.outbox.rows, db.Due t o := by
  unfold claimDueGatewaySnapshot
  rw [if_neg (by omega)]
  constructor
  · rintro ⟨db', o, he⟩
    split at he
    · cases he
    · rename_i due rest hsort
      have hmem : due ∈ (db.outbox.rows.filter fun o => decide (db.Due t o) && true) :=
        List.mem_mergeSort.mp (by rw [hsort]; exact List.mem_cons_self)
      obtain ⟨hm, hp⟩ := List.mem_filter.mp hmem
      rw [Bool.and_true, decide_eq_true_eq] at hp
      exact ⟨due, hm, hp⟩
  · rintro ⟨o, hm, hdue⟩
    split
    · rename_i hsort
      have hmem : o ∈ (db.outbox.rows.filter fun o => decide (db.Due t o) && true) :=
        List.mem_filter.mpr ⟨hm, by rw [decide_eq_true hdue]; rfl⟩
      have hnil : o ∈ ([] : List OutboxRow) := by
        rw [← hsort]
        exact List.mem_mergeSort.mpr hmem
      cases hnil
    · rename_i due rest hsort
      obtain ⟨t', ht'⟩ := Option.isSome_iff_exists.mp (Table.update?_isSome
        (t := db.outbox) (p := fun o => decide (o.registrationId = due.registrationId))
        (f := fun o =>
          { o with
            sendAttempts := min (o.sendAttempts + 1) GATEWAY_CLEANUP_MAX_RETRY_COUNT
            nextAttemptAt := t + lease + 1
            claimToken := some claimToken
            claimVersion := o.claimVersion + 1
            claimExpiresAt := some (t + lease + 1)
            lastSentAt := some t }) (fun _ _ _ => rfl) (fun _ _ _ => trivial))
      refine ⟨{ db with outbox := t' }, due, ?_⟩
      rw [updateOutbox, ht']
      rfl

/-- `nextGatewayWorkAt` is the least of all deadlines. -/
theorem nextGatewayWorkAt_iff {replay : List Nat} :
    (∃ d, db.nextGatewayWorkAt replay = some d ∧ d ≤ t) ↔
      (∃ g ∈ db.generations.rows, db.Cleaning g ∧ ∃ d, g.retryAt = some d ∧ d ≤ t) ∨
      (∃ g ∈ db.generations.rows, Recovering g ∧ ∃ d, g.retryAt = some d ∧ d ≤ t) ∨
      (∃ g ∈ db.generations.rows, db.Materializing g ∧ ∃ d, runDeadline g = some d ∧ d ≤ t) ∨
      (∃ o ∈ db.outbox.rows, db.Sendable o ∧ sendDeadline o ≤ t) ∨
      ∃ e ∈ replay, e ≤ t := by
  have hsend : (∃ d, db.nextGatewaySnapshotSendAt = some d ∧ d ≤ t) ↔
      ∃ o ∈ db.outbox.rows, db.Sendable o ∧ sendDeadline o ≤ t := by
    unfold nextGatewaySnapshotSendAt
    rw [min_le_iff]
    constructor
    · rintro ⟨d, hd, hle⟩
      obtain ⟨o, ho, rfl⟩ := List.mem_map.mp hd
      obtain ⟨hm, hp⟩ := Table.mem_select.mp ho
      exact ⟨o, hm, of_decide_eq_true hp, hle⟩
    · rintro ⟨o, hm, hp, hle⟩
      exact ⟨_, List.mem_map_of_mem (Table.mem_select.mpr ⟨hm, decide_eq_true hp⟩), hle⟩
  unfold nextGatewayWorkAt
  rw [mins_le_iff]
  simp only [List.mem_cons, List.not_mem_nil, or_false, exists_eq_or_imp, exists_eq_left, hsend,
    deadline_iff, min_le_iff, decide_eq_true_eq]

/-- Whatever the operations were, the alarm is due exactly when some query finds work. -/
theorem deadlines_agree (ops : List GatewayOp) (replay : List Nat) (claimToken : String)
    (nowMs lease : Nat) :
    (GatewayDb.empty.run ops).DueWork replay claimToken nowMs lease ↔
      ∃ d, (GatewayDb.empty.run ops).nextGatewayWorkAt replay = some d ∧ d ≤ nowMs := by
  have h := inv_run inv_empty ops
  generalize GatewayDb.empty.run ops = db at h
  unfold DueWork
  rw [nextGatewayWorkAt_iff, claimDue_iff]
  refine or_congr ?_ (or_congr ?_ (or_congr ?_ (or_congr ?_ Iff.rfl)))
  · refine dueGenerations_ne_nil.trans (exists_congr fun g => and_congr_right fun _ => ?_)
    rw [decide_eq_true_eq]
    refine and_congr_right fun hclean => ?_
    exact retryAt_due hclean.2.2.1
  · refine dueGenerations_ne_nil.trans (exists_congr fun g => and_congr_right fun _ => ?_)
    rw [decide_eq_true_eq]
    refine and_congr_right fun hrec => ?_
    exact retryAt_due hrec.2.2
  · refine dueGenerations_ne_nil.trans (exists_congr fun g => and_congr_right fun hg => ?_)
    rw [decide_eq_true_eq]
    exact and_congr_right fun _ => (runDeadline_iff (h.rowOk hg)).symm
  · refine exists_congr fun o => and_congr_right fun _ => ?_
    rw [sendDeadline_le_iff]
    unfold Due
    tauto

end GatewayDb

end Chardb.Gateway
