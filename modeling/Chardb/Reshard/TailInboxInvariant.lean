import Chardb.Reshard.TailInbox

/-!
# Nothing staged is lost

Over slices of one source log, what a destination accepted is retained or applied, its counters are
sums, its cursors do not go back, and each row is applied once and in order.
-/

namespace Chardb.Reshard

open Chardb.Lib OpLog

variable {δ : Type}

/-! ## Sums and slices -/

theorem sumRows_append (l l' : List InboxRow) : sumRows (l ++ l') = sumRows l + sumRows l' := by
  unfold sumRows
  rw [List.map_append, List.sum_append]

theorem sumBytes_append (l l' : List InboxRow) : sumBytes (l ++ l') = sumBytes l + sumBytes l' := by
  unfold sumBytes
  rw [List.map_append, List.sum_append]

theorem sum_filter_split {f : InboxRow → Int} (p : InboxRow → Bool) (l : List InboxRow) :
    (l.map f).sum = ((l.filter p).map f).sum + ((l.filter fun r => !p r).map f).sum := by
  induction l with
  | nil => rfl
  | cons r l ih =>
    rw [List.filter_cons, List.filter_cons, List.map_cons, List.sum_cons, ih]
    cases p r with
    | true =>
      rw [if_pos rfl, if_neg (by decide), List.map_cons, List.sum_cons]
      omega
    | false =>
      rw [if_neg (by decide), if_pos (by decide), List.map_cons, List.sum_cons]
      omega

/-- Rows that are counted are there. -/
theorem inbox_empty {t : InboxTable} (h : sumRows t.rows = 0) : t.rows = [] := by
  have hpos : ∀ l : List InboxRow, (∀ r ∈ l, 0 < r.rowCount) → 0 ≤ sumRows l := by
    intro l hl
    induction l with
    | nil => exact le_rfl
    | cons r l ih =>
      have hr := hl r List.mem_cons_self
      have htail := ih fun x hx => hl x (List.mem_cons_of_mem _ hx)
      show 0 ≤ r.rowCount + sumRows l
      omega
  cases hrows : t.rows with
  | nil => rfl
  | cons r l =>
    have hr : 0 < r.rowCount := (t.checked r (by rw [hrows]; exact List.mem_cons_self)).2.2.2.1
    have htail : 0 ≤ sumRows l := hpos l fun x hx =>
      (t.checked x (by rw [hrows]; exact List.mem_cons_of_mem _ hx)).2.2.2.1
    rw [hrows] at h
    have h : r.rowCount + sumRows l = 0 := h
    omega

/-- Where the numbers go up, what is up to a number comes before the rest. -/
theorem filter_le_append {l : List TailEntry} (h : (l.map TailEntry.lsn).Pairwise (· < ·)) (m : Int) :
    (l.filter fun e => decide (e.lsn ≤ m)) ++ (l.filter fun e => decide (m < e.lsn)) = l := by
  induction l with
  | nil => rfl
  | cons e l ih =>
    obtain ⟨hhead, htail⟩ := List.pairwise_cons.mp h
    rw [List.filter_cons, List.filter_cons]
    by_cases he : e.lsn ≤ m
    · rw [if_pos (decide_eq_true he), if_neg (fun hlt => by have := of_decide_eq_true hlt; omega),
        List.cons_append, ih htail]
    · have hnone : (l.filter fun e => decide (e.lsn ≤ m)) = [] :=
        List.filter_eq_nil_iff.mpr fun x hx hle => by
          have := hhead x.lsn (List.mem_map_of_mem hx)
          have := of_decide_eq_true hle
          omega
      have hih := ih htail
      rw [hnone, List.nil_append] at hih
      rw [if_neg (fun hle => he (of_decide_eq_true hle)), if_pos (decide_eq_true (by omega)), hnone,
        hih, List.nil_append]

/-- The log of a source, of which every batch is a slice. -/
structure SourceLog (log : List TailTransaction) : Prop extends Batch log where
  positive : ∀ t ∈ log, 0 < t.firstLsn

/-- What a slice adds to the rows up to the cursor. -/
theorem SourceLog.advance {log pre slice post : List TailTransaction} {m : Int} (hlog : SourceLog log)
    (he : log = pre ++ slice ++ post) (hslice : Batch slice) (hpre : ∀ t ∈ pre, t.lastLsn ≤ m)
    (hm : 0 ≤ m) :
    (tailEntries log).filter (fun e => decide (e.lsn ≤ max m (lastLsnOf slice))) =
      (tailEntries log).filter (fun e => decide (e.lsn ≤ m)) ++
        (tailEntries slice).filter (fun e => decide (m < e.lsn)) := by
  have hsorted := hlog.entries_ordered
  have hin : ∀ t ∈ log, ∀ e ∈ t.entries, t.firstLsn ≤ e.lsn ∧ e.lsn ≤ t.lastLsn :=
    fun t ht e hent => (hlog.wf t ht).entry_bounds hent
  have hupto := filter_le_append
    (l := (tailEntries log).filter fun e => decide (e.lsn ≤ max m (lastLsnOf slice)))
    (hsorted.sublist (List.filter_sublist.map _)) m
  rw [← hupto, List.filter_filter, List.filter_filter]
  congr 1
  · refine List.filter_congr fun e _ => ?_
    rw [Bool.and_eq_left_iff_imp]
    intro h
    exact decide_eq_true ((of_decide_eq_true h).trans (le_max_left _ _))
  · have hsplit : tailEntries log = tailEntries pre ++ tailEntries slice ++ tailEntries post := by
      rw [he]
      unfold tailEntries
      rw [List.flatMap_append, List.flatMap_append]
    rw [hsplit, List.filter_append, List.filter_append]
    have hbefore : (tailEntries pre).filter (fun e =>
        decide (m < e.lsn) && decide (e.lsn ≤ max m (lastLsnOf slice))) = [] := by
      refine List.filter_eq_nil_iff.mpr fun e hent h => ?_
      obtain ⟨t, ht, hent⟩ := List.mem_flatMap.mp hent
      have hle := (hin t (by rw [he]; simp [ht]) e hent).2
      have hlast := hpre t ht
      have hlt := of_decide_eq_true (Bool.and_eq_true_iff.mp h).1
      omega
    have hafter : (tailEntries post).filter (fun e =>
        decide (m < e.lsn) && decide (e.lsn ≤ max m (lastLsnOf slice))) = [] := by
      refine List.filter_eq_nil_iff.mpr fun e hent h => ?_
      obtain ⟨t, ht, hent⟩ := List.mem_flatMap.mp hent
      have hfirst := (hin t (by rw [he]; simp [ht]) e hent).1
      obtain ⟨hlt, hle⟩ := Bool.and_eq_true_iff.mp h
      have hlt := of_decide_eq_true hlt
      have hle := of_decide_eq_true hle
      rcases List.eq_nil_or_concat' slice with rfl | ⟨init, last, rfl⟩
      · have hzero : lastLsnOf [] = 0 := rfl
        rw [hzero] at hle
        omega
      · have hlast : lastLsnOf (init ++ [last]) = last.lastLsn := by simp [lastLsnOf]
        have hordered := hlog.ordered
        rw [he] at hordered
        have := (List.pairwise_append.mp hordered).2.2 last (by simp) t ht
        rw [hlast] at hle
        omega
    rw [hbefore, hafter, List.nil_append, List.append_nil]
    refine List.filter_congr fun e hent => ?_
    rw [Bool.and_eq_left_iff_imp]
    intro _
    obtain ⟨t, ht, hent⟩ := List.mem_flatMap.mp hent
    have := (hslice.wf t ht).entry_bounds hent
    have := hslice.mem_le_last ht
    exact decide_eq_true (by omega)

/-! ## What each call does -/

section
variable {ν : Type} [JsNumber ν]

theorem assertTailBatch_ok {tooMany subject envelope : String} {transactions : List TailTransaction}
    (h : assertTailBatch ν tooMany subject envelope transactions = .ok ()) : Batch transactions := by
  unfold assertTailBatch at h
  split at h
  · cases h
  · split at h
    · cases h
    · split at h
      · cases h
      · exact assertTailTransactions_ok h

theorem insertInbox_ok {transactions : List TailTransaction} {t t' : InboxTable}
    (h : insertInbox ν transactions t = some t') :
    t'.rows = t.rows ++ transactions.map (TailTransaction.row ν) ∧
      ∀ x ∈ transactions, ∀ r ∈ t, r.sourceTxId ≠ x.sourceTxId := by
  induction transactions generalizing t with
  | nil =>
    cases h
    exact ⟨(List.append_nil _).symm, fun _ hx => absurd hx List.not_mem_nil⟩
  | cons x transactions ih =>
    unfold insertInbox at h
    split at h
    · cases h
    · split at h
      · cases h
      · rename_i t₁ ht
        obtain ⟨hrows, hfresh⟩ := ih h
        have hrows₁ := Table.rows_insert ht
        refine ⟨?_, fun y hy r hr => ?_⟩
        · rw [hrows, hrows₁, List.append_assoc]
          rfl
        · rcases List.mem_cons.mp hy with rfl | hy
          · exact (Table.insert?_fresh ht).1 r hr
          · exact hfresh y hy r (Table.mem_insert ht |>.mpr (.inl hr))

theorem assertStagedRetry_ok {d : TailDest δ} {transactions : List TailTransaction}
    (h : assertStagedRetry ν d transactions = .ok ()) {t : TailTransaction} (ht : t ∈ transactions) :
    (∀ r ∈ d.inbox.find? t.sourceTxId, r.transactionJson = t.json ν) ∧
      (d.inbox.find? t.sourceTxId = none → t.lastLsn ≤ d.appliedLsn) := by
  induction transactions with
  | nil => cases ht
  | cons x transactions ih =>
    unfold assertStagedRetry at h
    split at h
    · rename_i stored hstored
      split at h
      · cases h
      · rename_i hsame
        rcases List.mem_cons.mp ht with rfl | ht
        · refine ⟨fun r hr => ?_, fun hnone => by rw [hstored] at hnone; cases hnone⟩
          rw [hstored] at hr
          cases hr
          exact not_not.mp hsame
        · exact ih h ht
    · rename_i hstored
      split at h
      · cases h
      · rename_i hle
        rcases List.mem_cons.mp ht with rfl | ht
        · exact ⟨fun r hr => (by rw [hstored] at hr; cases hr), fun _ => by omega⟩
        · exact ih h ht

/-- A batch that is accepted was retained before, or is retained now. -/
theorem stageTailBatch_returns {movement : Except Thrown Unit} {tables : List String}
    {transactions : List TailTransaction} {d d' : TailDest δ} {n : Int}
    (h : (stageTailBatch ν movement tables transactions).Returns d n d') :
    (d' = d ∧ assertStagedRetry ν d transactions = .ok ()) ∨
      (d.stagedLsn < lastLsnOf transactions ∧ ∃ inbox,
        insertInbox ν transactions d.inbox = some inbox ∧
        d' = { d with
          inbox
          stagedLsn := lastLsnOf transactions
          inboxRows := d.inboxRows + addedRows ν transactions
          inboxBytes := d.inboxBytes + addedBytes ν transactions }) := by
  unfold stageTailBatch at h
  obtain ⟨_, d₁, h₁, h⟩ := Tx.bind_returns.mp h
  obtain ⟨-, rfl⟩ := Tx.ofExcept_returns.mp h₁
  obtain ⟨_, d₂, h₂, h⟩ := Tx.bind_returns.mp h
  obtain ⟨-, rfl⟩ := Tx.ofExcept_returns.mp h₂
  have h := Tx.transactionSync_returns.mp h
  obtain ⟨_, d₃, h₃, h⟩ := Tx.bind_returns.mp h
  obtain ⟨-, rfl⟩ := Tx.ofExcept_returns.mp h₃
  obtain ⟨_, d₄, h₄, h⟩ := Tx.bind_returns.mp h
  obtain ⟨rfl, rfl⟩ := Tx.gets_returns.mp h₄
  obtain ⟨_, d₅, h₅, h⟩ := Tx.bind_returns.mp h
  obtain ⟨-, rfl⟩ := Tx.require_returns.mp h₅
  split at h
  · obtain ⟨_, d₆, h₆, h⟩ := Tx.bind_returns.mp h
    obtain ⟨hretry, rfl⟩ := Tx.ofExcept_returns.mp h₆
    obtain ⟨-, rfl⟩ := Tx.pure_returns.mp h
    exact .inl ⟨rfl, hretry⟩
  · rename_i hlast
    obtain ⟨_, d₆, h₆, h⟩ := Tx.bind_returns.mp h
    obtain ⟨-, rfl⟩ := Tx.require_returns.mp h₆
    obtain ⟨_, d₇, h₇, h⟩ := Tx.bind_returns.mp h
    obtain ⟨-, rfl⟩ := Tx.require_returns.mp h₇
    obtain ⟨inbox, d₈, h₈, h⟩ := Tx.bind_returns.mp h
    obtain ⟨hinbox, rfl⟩ := Tx.ofOption_returns.mp h₈
    obtain ⟨_, d₉, h₉, h⟩ := Tx.bind_returns.mp h
    obtain rfl := Tx.modify_returns.mp h₉
    obtain ⟨-, rfl⟩ := Tx.pure_returns.mp h
    exact .inr ⟨by omega, inbox, hinbox, rfl⟩

theorem stageTailBatch_atomic (movement : Except Thrown Unit) (tables : List String)
    (transactions : List TailTransaction) :
    (stageTailBatch ν movement tables transactions : TailTx δ Int).Atomic :=
  (Tx.readOnly_ofExcept _).bind_atomic fun _ =>
    (Tx.readOnly_ofExcept _).bind_atomic fun _ => Tx.atomic_transactionSync _

theorem readStagedTailBatch_readOnly (movement : Except Thrown Unit) (limit : Int) :
    (readStagedTailBatch ν movement limit : TailTx δ (List TailTransaction)).ReadOnly :=
  (Tx.readOnly_require _ _).bind fun _ => (Tx.readOnly_ofExcept _).bind fun _ =>
    (Tx.readOnly_gets _).bind fun _ => (Tx.readOnly_ofExcept _).bind fun _ =>
      (Tx.readOnly_ofExcept _).bind fun _ => (Tx.readOnly_ofExcept _).bind fun _ => Tx.readOnly_pure _

theorem ackStagedTail_returns {movement : Except Thrown Unit} {throughLsn n : Int}
    {d d' : TailDest δ} (h : (ackStagedTail movement throughLsn).Returns d n d') :
    d' = d ∨ (throughLsn ≤ d.appliedLsn ∧
      d' = { d with
        inbox := d.inbox.deleteWhere (acked throughLsn)
        inboxRows := d.inboxRows - sumRows (d.inbox.select (acked throughLsn))
        inboxBytes := d.inboxBytes - sumBytes (d.inbox.select (acked throughLsn)) }) := by
  have h := Tx.transactionSync_returns.mp h
  obtain ⟨_, d₁, h₁, h⟩ := Tx.bind_returns.mp h
  obtain ⟨-, rfl⟩ := Tx.ofExcept_returns.mp h₁
  obtain ⟨_, d₂, h₂, h⟩ := Tx.bind_returns.mp h
  obtain ⟨rfl, rfl⟩ := Tx.gets_returns.mp h₂
  obtain ⟨_, d₃, h₃, h⟩ := Tx.bind_returns.mp h
  obtain ⟨hle, rfl⟩ := Tx.require_returns.mp h₃
  dsimp only [id] at h hle
  split at h
  · obtain ⟨-, rfl⟩ := Tx.pure_returns.mp h
    exact .inl rfl
  · obtain ⟨_, d₄, h₄, h⟩ := Tx.bind_returns.mp h
    obtain ⟨-, rfl⟩ := Tx.require_returns.mp h₄
    obtain ⟨_, d₅, h₅, h⟩ := Tx.bind_returns.mp h
    obtain rfl := Tx.modify_returns.mp h₅
    obtain ⟨-, rfl⟩ := Tx.pure_returns.mp h
    exact .inr ⟨hle, rfl⟩

theorem closeTailStaging_returns {movement : Except Thrown Unit} {b : Bool} {d d' : TailDest δ}
    (h : (closeTailStaging movement).Returns d b d') :
    d.inboxRows = 0 ∧ d' = { d with inboxClosed := true } := by
  have h := Tx.transactionSync_returns.mp h
  obtain ⟨_, d₁, h₁, h⟩ := Tx.bind_returns.mp h
  obtain ⟨-, rfl⟩ := Tx.ofExcept_returns.mp h₁
  obtain ⟨_, d₂, h₂, h⟩ := Tx.bind_returns.mp h
  obtain ⟨rfl, rfl⟩ := Tx.gets_returns.mp h₂
  obtain ⟨_, d₃, h₃, h⟩ := Tx.bind_returns.mp h
  obtain ⟨hzero, rfl⟩ := Tx.require_returns.mp h₃
  obtain ⟨_, d₄, h₄, h⟩ := Tx.bind_returns.mp h
  obtain rfl := Tx.modify_returns.mp h₄
  obtain ⟨-, rfl⟩ := Tx.pure_returns.mp h
  exact ⟨hzero, rfl⟩

theorem snd_of_map {α : Type} {x : Except Thrown δ} {a : α} {r : δ × α}
    (h : (x.map fun data => (data, a)) = .ok r) : r.2 = a := by
  cases x with
  | error e => cases h
  | ok data =>
    cases h
    rfl

/-- Exactly the rows past the cursor are applied, in their order. -/
theorem applyEntries_logged {T : TailTables δ} {tables : List String} {appliedLsn previousLsn n n' : Int}
    {entries : List TailEntry} {p p' : δ × List TailEntry}
    (h : applyEntries T.logged tables appliedLsn previousLsn entries p n = .ok (p', n')) :
    p'.2 = p.2 ++ entries.filter (fun e => decide (appliedLsn < e.lsn)) := by
  induction entries generalizing previousLsn p n with
  | nil =>
    cases h
    exact (List.append_nil _).symm
  | cons e entries ih =>
    unfold applyEntries at h
    rw [List.filter_cons]
    split at h
    · cases h
    · split at h
      · cases h
      · split at h
        · rename_i hle
          split at h
          · cases h
          · rw [if_neg (fun hlt => by have := of_decide_eq_true hlt; omega)]
            exact ih h
        · rename_i hle
          rw [if_pos (decide_eq_true (by omega))]
          split at h
          · cases h
          · split at h
            · cases h
            · rename_i data counts hdata
              have hlogged : data.2 = p.2 ++ [e] := by
                have hdata : ((T.apply e p.1).map fun r => ((r.1, p.2 ++ [e]), r.2)) =
                  .ok (data, counts) := hdata
                cases hT : T.apply e p.1 with
                | error x =>
                  rw [hT] at hdata
                  cases hdata
                | ok r =>
                  rw [hT] at hdata
                  cases hdata
                  rfl
              rw [ih h, hlogged, List.append_assoc]
              rfl

theorem applyTailBatch_returns {T : TailTables δ} {movement : Except Thrown Unit}
    {tables : List String} {transactions : List TailTransaction} {n : Int}
    {d d' : TailDest (δ × List TailEntry)}
    (h : (applyTailBatch ν T.logged movement tables transactions).Returns d n d') :
    Batch transactions ∧ ∃ data : δ × List TailEntry,
      data.2 = d.data.2 ++
        (tailEntries transactions).filter (fun e => decide (d.appliedLsn < e.lsn)) ∧
      d' = { d with data, appliedLsn := max d.appliedLsn (lastLsnOf transactions) } := by
  unfold applyTailBatch at h
  obtain ⟨_, d₁, h₁, h⟩ := Tx.bind_returns.mp h
  obtain ⟨hbatch, rfl⟩ := Tx.ofExcept_returns.mp h₁
  have h := Tx.transactionSync_returns.mp h
  obtain ⟨_, d₂, h₂, h⟩ := Tx.bind_returns.mp h
  obtain ⟨-, rfl⟩ := Tx.ofExcept_returns.mp h₂
  obtain ⟨_, d₃, h₃, h⟩ := Tx.bind_returns.mp h
  obtain ⟨rfl, rfl⟩ := Tx.gets_returns.mp h₃
  obtain ⟨_, d₄, h₄, h⟩ := Tx.bind_returns.mp h
  obtain ⟨-, rfl⟩ := Tx.require_returns.mp h₄
  obtain ⟨data, d₅, h₅, h⟩ := Tx.bind_returns.mp h
  obtain ⟨hprepare, rfl⟩ := Tx.ofExcept_returns.mp h₅
  obtain ⟨⟨data', applied⟩, d₆, h₆, h⟩ := Tx.bind_returns.mp h
  obtain ⟨hentries, rfl⟩ := Tx.ofExcept_returns.mp h₆
  obtain ⟨_, d₇, h₇, h⟩ := Tx.bind_returns.mp h
  obtain rfl := Tx.modify_returns.mp h₇
  obtain ⟨-, rfl⟩ := Tx.pure_returns.mp h
  refine ⟨assertTailBatch_ok hbatch, data', ?_, rfl⟩
  rw [applyEntries_logged hentries]
  congr 1
  exact snd_of_map hprepare

theorem applyTailBatch_atomic (T : TailTables δ) (movement : Except Thrown Unit)
    (tables : List String) (transactions : List TailTransaction) :
    (applyTailBatch ν T movement tables transactions).Atomic :=
  (Tx.readOnly_ofExcept _).bind_atomic fun _ => Tx.atomic_transactionSync _

end

/-! ## Runs over one source log -/

section
variable (ν : Type) [JsNumber ν] (log : List TailTransaction)

/-- The batch is a slice of the source log; what is applied continues where the cursor is, or repeats
what comes before it. -/
def InboxWorld.Slices (x : InboxWorld δ) : InboxOp → Prop
  | .stage _ _ transactions => ∃ pre post, log = pre ++ transactions ++ post
  | .apply _ _ transactions => ∃ pre post, log = pre ++ transactions ++ post ∧
      ∀ t ∈ pre, t.lastLsn ≤ x.dest.appliedLsn
  | _ => True

def InboxWorld.SlicesRun (T : TailTables δ) (x : InboxWorld δ) : List InboxOp → Prop
  | [] => True
  | op :: ops => x.Slices log op ∧ (x.step ν T op).SlicesRun T ops

/-- The invariant of a destination that stages and applies slices of the log. -/
structure InboxWorld.Inv (x : InboxWorld δ) : Prop where
  rows : x.dest.inboxRows = sumRows x.dest.inbox.rows
  bytes : x.dest.inboxBytes = sumBytes x.dest.inbox.rows
  staged : ∀ r ∈ x.dest.inbox, ∃ t ∈ log, r = t.row ν
  accepted : ∀ t ∈ x.accepted, t ∈ log ∧
    (t.row ν ∈ x.dest.inbox ∨ t.lastLsn ≤ x.dest.appliedLsn)
  nonneg : 0 ≤ x.dest.appliedLsn
  applied : x.dest.data.2 = (tailEntries log).filter fun e => decide (e.lsn ≤ x.dest.appliedLsn)

end

section
variable {ν : Type} [JsNumber ν] {log : List TailTransaction} {x : InboxWorld δ}

theorem inv_new (hlog : SourceLog log) (data : δ) : (InboxWorld.new data).Inv ν log := by
  refine ⟨rfl, rfl, fun r hr => absurd hr List.not_mem_nil, fun t ht => absurd ht List.not_mem_nil,
    le_rfl, ?_⟩
  refine (List.filter_eq_nil_iff.mpr fun e hent hle => ?_).symm
  obtain ⟨t, ht, hent⟩ := List.mem_flatMap.mp hent
  have := hlog.positive t ht
  have := ((hlog.wf t ht).entry_bounds hent).1
  have hle : e.lsn ≤ 0 := of_decide_eq_true hle
  omega

theorem row_eq {t t' : TailTransaction} (hlog : SourceLog log) (ht : t ∈ log) (ht' : t' ∈ log)
    (hid : t.sourceTxId = t'.sourceTxId) : t = t' :=
  List.inj_on_of_nodup_map hlog.ids_nodup ht ht' hid

theorem InboxWorld.Inv.stage (hlog : SourceLog log) (hx : x.Inv ν log)
    {movement : Except Thrown Unit} {tables : List String} {transactions : List TailTransaction} {n : Int}
    {d' : TailDest (δ × List TailEntry)}
    (hin : ∀ t ∈ transactions, t ∈ log)
    (h : (stageTailBatch ν movement tables transactions).Returns x.dest n d') :
    InboxWorld.Inv ν log ⟨d', x.accepted ++ transactions⟩ := by
  rcases stageTailBatch_returns h with ⟨rfl, hretry⟩ | ⟨-, inbox, hinbox, rfl⟩
  · refine ⟨hx.rows, hx.bytes, hx.staged, fun t ht => ?_, hx.nonneg, hx.applied⟩
    rcases List.mem_append.mp ht with ht | ht
    · exact hx.accepted t ht
    · obtain ⟨-, hgone⟩ := assertStagedRetry_ok hretry ht
      refine ⟨hin t ht, ?_⟩
      cases hfind : x.dest.inbox.find? t.sourceTxId with
      | none => exact .inr (hgone hfind)
      | some r =>
        obtain ⟨hr, hid⟩ := Table.find?_eq_some.mp hfind
        obtain ⟨t', ht', rfl⟩ := hx.staged r hr
        obtain rfl := row_eq hlog ht' (hin t ht) hid
        exact .inl hr
  · obtain ⟨hrows, -⟩ := insertInbox_ok hinbox
    have hmem : ∀ r, r ∈ inbox ↔ r ∈ x.dest.inbox ∨ ∃ t ∈ transactions, t.row ν = r := fun r => by
      rw [← Table.mem_rows, hrows, List.mem_append, List.mem_map, Table.mem_rows]
    refine ⟨?_, ?_, fun r hr => ?_, fun t ht => ?_, hx.nonneg, hx.applied⟩
    · show x.dest.inboxRows + addedRows ν transactions = sumRows inbox.rows
      rw [hrows, sumRows_append, hx.rows]
      unfold addedRows
      rw [sumRows, sumRows, List.map_map]
      rfl
    · show x.dest.inboxBytes + addedBytes ν transactions = sumBytes inbox.rows
      rw [hrows, sumBytes_append, hx.bytes]
      unfold addedBytes
      rw [sumBytes, sumBytes, List.map_map]
      rfl
    · rcases (hmem r).mp hr with hr | ⟨t, ht, rfl⟩
      · exact hx.staged r hr
      · exact ⟨t, hin t ht, rfl⟩
    · rcases List.mem_append.mp ht with ht | ht
      · obtain ⟨hl, hor⟩ := hx.accepted t ht
        exact ⟨hl, hor.imp_left fun hr => (hmem _).mpr (.inl hr)⟩
      · exact ⟨hin t ht, .inl ((hmem _).mpr (.inr ⟨t, ht, rfl⟩))⟩

theorem InboxWorld.Inv.ack (hx : x.Inv ν log) {movement : Except Thrown Unit} {throughLsn n : Int}
    {d' : TailDest (δ × List TailEntry)}
    (h : (ackStagedTail movement throughLsn).Returns x.dest n d') :
    InboxWorld.Inv ν log { x with dest := d' } := by
  rcases ackStagedTail_returns h with rfl | ⟨hle, rfl⟩
  · exact hx
  · refine ⟨?_, ?_, fun r hr => hx.staged r (Table.mem_deleteWhere.mp hr).1, fun t ht => ?_, hx.nonneg,
      hx.applied⟩
    · have hsplit := sum_filter_split (f := InboxRow.rowCount) (acked throughLsn) x.dest.inbox.rows
      have hrows := hx.rows
      unfold sumRows at hrows
      show x.dest.inboxRows - sumRows (x.dest.inbox.rows.filter (acked throughLsn)) =
        sumRows (x.dest.inbox.rows.filter fun r => !acked throughLsn r)
      unfold sumRows
      omega
    · have hsplit := sum_filter_split (f := InboxRow.byteSize) (acked throughLsn) x.dest.inbox.rows
      have hbytes := hx.bytes
      unfold sumBytes at hbytes
      show x.dest.inboxBytes - sumBytes (x.dest.inbox.rows.filter (acked throughLsn)) =
        sumBytes (x.dest.inbox.rows.filter fun r => !acked throughLsn r)
      unfold sumBytes
      omega
    · obtain ⟨hl, hor⟩ := hx.accepted t ht
      refine ⟨hl, ?_⟩
      rcases hor with hr | happlied
      · by_cases hthrough : t.lastLsn ≤ throughLsn
        · exact .inr (hthrough.trans hle)
        · exact .inl (Table.mem_deleteWhere.mpr ⟨hr, decide_eq_false hthrough⟩)
      · exact .inr happlied

theorem InboxWorld.Inv.apply (hlog : SourceLog log) (hx : x.Inv ν log) {T : TailTables δ}
    {movement : Except Thrown Unit} {tables : List String} {transactions : List TailTransaction} {n : Int}
    {d' : TailDest (δ × List TailEntry)}
    (hslice : ∃ pre post, log = pre ++ transactions ++ post ∧ ∀ t ∈ pre, t.lastLsn ≤ x.dest.appliedLsn)
    (h : (applyTailBatch ν T.logged movement tables transactions).Returns x.dest n d') :
    InboxWorld.Inv ν log { x with dest := d' } := by
  obtain ⟨hbatch, data, hdata, rfl⟩ := applyTailBatch_returns h
  obtain ⟨pre, post, he, hpre⟩ := hslice
  refine ⟨hx.rows, hx.bytes, hx.staged, fun t ht => ?_, hx.nonneg.trans (le_max_left _ _), ?_⟩
  · obtain ⟨hl, hor⟩ := hx.accepted t ht
    exact ⟨hl, hor.imp_right fun hle => hle.trans (le_max_left _ _)⟩
  · show data.2 = _
    rw [hdata, hx.applied]
    exact (hlog.advance he hbatch hpre hx.nonneg).symm

end

/-! ## What holds of every run -/

section
variable {ν : Type} [JsNumber ν] {log : List TailTransaction} {x : InboxWorld δ}

theorem after_of_atomic {α : Type} {y : TailTx δ α} (hy : y.Atomic) {d : TailDest δ}
    {P : TailDest δ → Prop} (hd : P d) (h : ∀ a d', y.Returns d a d' → P d') : P (y.after d) := by
  rcases y.returns_or_throws d with ⟨a, hr⟩ | ⟨e, ht⟩
  · exact h a _ hr
  · rw [hy ht]
    exact hd

theorem step_stage (x : InboxWorld δ) (T : TailTables δ) (movement : Except Thrown Unit)
    (tables : List String) (transactions : List TailTransaction) :
    (∃ n d', (stageTailBatch ν movement tables transactions).Returns x.dest n d' ∧
      x.step ν T (.stage movement tables transactions) = ⟨d', x.accepted ++ transactions⟩) ∨
      x.step ν T (.stage movement tables transactions) = x := by
  rcases (stageTailBatch ν movement tables transactions).returns_or_throws x.dest with ⟨n, hr⟩ | ⟨e, ht⟩
  · exact .inl ⟨n, _, hr, congrArg (x.accept transactions) hr⟩
  · have hsame := stageTailBatch_atomic movement tables transactions ht
    rw [hsame] at ht
    exact .inr (congrArg (x.accept transactions) ht)

theorem InboxWorld.Inv.step (hlog : SourceLog log) (hx : x.Inv ν log) (T : TailTables δ) {op : InboxOp}
    (hop : x.Slices log op) : (x.step ν T op).Inv ν log := by
  cases op with
  | stage movement tables transactions =>
    obtain ⟨pre, post, he⟩ := hop
    have hin : ∀ t ∈ transactions, t ∈ log := fun t ht => by
      rw [he]
      exact List.mem_append_left _ (List.mem_append_right _ ht)
    rcases step_stage (ν := ν) x T movement tables transactions with
      ⟨n, d', hr, hstep⟩ | hstep
    · rw [hstep]
      exact hx.stage hlog hin hr
    · rw [hstep]
      exact hx
  | read movement limit =>
    show InboxWorld.Inv ν log ⟨_, x.accepted⟩
    rw [readStagedTailBatch_readOnly movement limit]
    exact hx
  | apply movement tables transactions =>
    exact after_of_atomic (P := fun d => InboxWorld.Inv ν log ⟨d, x.accepted⟩)
      (applyTailBatch_atomic T.logged movement tables transactions) hx fun _ _ hr => hx.apply hlog hop hr
  | ack movement throughLsn =>
    exact after_of_atomic (P := fun d => InboxWorld.Inv ν log ⟨d, x.accepted⟩)
      (Tx.atomic_transactionSync _) hx fun _ _ hr => hx.ack hr
  | close movement =>
    refine after_of_atomic (P := fun d => InboxWorld.Inv ν log ⟨d, x.accepted⟩)
      (Tx.atomic_transactionSync _) hx fun _ _ hr => ?_
    obtain ⟨-, rfl⟩ := closeTailStaging_returns hr
    exact ⟨hx.rows, hx.bytes, hx.staged, hx.accepted, hx.nonneg, hx.applied⟩

theorem InboxWorld.Inv.run (hlog : SourceLog log) (hx : x.Inv ν log) (T : TailTables δ)
    {ops : List InboxOp} (hops : x.SlicesRun ν log T ops) : (x.run ν T ops).Inv ν log := by
  induction ops generalizing x with
  | nil => exact hx
  | cons op ops ih => exact ih (hx.step hlog T hops.1) hops.2

/-- The cursors of a destination do not go back. -/
structure Advances (d d' : TailDest δ) : Prop where
  applied : d.appliedLsn ≤ d'.appliedLsn
  staged : d.stagedLsn ≤ d'.stagedLsn

theorem Advances.refl (d : TailDest δ) : Advances d d := ⟨le_rfl, le_rfl⟩

theorem step_advances (x : InboxWorld δ) (T : TailTables δ) (op : InboxOp) :
    Advances x.dest (x.step ν T op).dest := by
  cases op with
  | stage movement tables transactions =>
    rcases step_stage (ν := ν) x T movement tables transactions with
      ⟨n, d', hr, hstep⟩ | hstep
    · rw [hstep]
      rcases stageTailBatch_returns hr with ⟨rfl, -⟩ | ⟨hlt, inbox, -, rfl⟩
      · exact .refl _
      · exact ⟨le_rfl, hlt.le⟩
    · rw [hstep]
      exact .refl _
  | read movement limit =>
    show Advances x.dest ((readStagedTailBatch ν movement limit).after x.dest)
    rw [readStagedTailBatch_readOnly movement limit]
    exact .refl _
  | apply movement tables transactions =>
    refine after_of_atomic (P := Advances x.dest)
      (applyTailBatch_atomic T.logged movement tables transactions) (.refl _) fun _ _ hr => ?_
    obtain ⟨-, data, -, rfl⟩ := applyTailBatch_returns hr
    exact ⟨le_max_left _ _, le_rfl⟩
  | ack movement throughLsn =>
    refine after_of_atomic (P := Advances x.dest) (Tx.atomic_transactionSync _) (.refl _) fun _ _ hr => ?_
    rcases ackStagedTail_returns hr with rfl | ⟨-, rfl⟩
    · exact .refl _
    · exact ⟨le_rfl, le_rfl⟩
  | close movement =>
    refine after_of_atomic (P := Advances x.dest) (Tx.atomic_transactionSync _) (.refl _) fun _ _ hr => ?_
    obtain ⟨-, rfl⟩ := closeTailStaging_returns hr
    exact ⟨le_rfl, le_rfl⟩

/-- A retained transaction is not staged again under another envelope, whatever the batch. -/
theorem altered_throws {movement : Except Thrown Unit} {tables : List String}
    {transactions : List TailTransaction} {d : TailDest δ} {t : TailTransaction} {r : InboxRow}
    (ht : t ∈ transactions) (hr : r ∈ d.inbox) (hid : r.sourceTxId = t.sourceTxId)
    (hne : r.transactionJson ≠ t.json ν) :
    ∃ e, (stageTailBatch ν movement tables transactions).Throws d e d := by
  rcases (stageTailBatch ν movement tables transactions).returns_or_throws d with ⟨n, hret⟩ | ⟨e, hthrow⟩
  · exfalso
    rcases stageTailBatch_returns hret with ⟨-, hretry⟩ | ⟨-, inbox, hinbox, -⟩
    · have hfound : d.inbox.find? t.sourceTxId = some r := Table.find?_eq_some.mpr ⟨hr, hid⟩
      exact hne ((assertStagedRetry_ok hretry ht).1 r hfound)
    · exact (insertInbox_ok hinbox).2 t ht r hr hid
  · refine ⟨e, ?_⟩
    have hsame := stageTailBatch_atomic movement tables transactions hthrow
    rwa [hsame] at hthrow

/-- What the staged tail promises of a destination. -/
structure InboxWorld.Sound (ν : Type) [JsNumber ν] (log : List TailTransaction) (T : TailTables δ)
    (x : InboxWorld δ) : Prop where
  /-- The counters are the sums over the inbox. -/
  rows : x.dest.inboxRows = sumRows x.dest.inbox.rows
  bytes : x.dest.inboxBytes = sumBytes x.dest.inbox.rows
  /-- What was accepted is retained, or behind the cursor with all its rows applied. -/
  accepted : ∀ t ∈ x.accepted, t.row ν ∈ x.dest.inbox ∨
    (t.lastLsn ≤ x.dest.appliedLsn ∧ ∀ e ∈ t.entries, e ∈ x.dest.data.2)
  /-- The cursors do not go back. -/
  advances : ∀ op, Advances x.dest (x.step ν T op).dest
  /-- The rows up to the cursor were applied, each once and in the order of their LSNs. -/
  applied : x.dest.data.2 = (tailEntries log).filter fun e => decide (e.lsn ≤ x.dest.appliedLsn)
  ordered : (x.dest.data.2.map TailEntry.lsn).Pairwise (· < ·)
  /-- An altered envelope of a retained transaction is rejected. -/
  altered : ∀ movement tables transactions, ∀ t ∈ transactions, ∀ r ∈ x.dest.inbox,
    r.sourceTxId = t.sourceTxId → r.transactionJson ≠ t.json ν →
      ∃ e, (stageTailBatch ν movement tables transactions).Throws x.dest e x.dest
  /-- Staging closes when all that was accepted is applied. -/
  closes : ∀ movement b d', (closeTailStaging movement).Returns x.dest b d' →
    ∀ t ∈ x.accepted, t.lastLsn ≤ x.dest.appliedLsn ∧ ∀ e ∈ t.entries, e ∈ x.dest.data.2

theorem InboxWorld.Inv.entries (hlog : SourceLog log) (hx : x.Inv ν log) {t : TailTransaction}
    (ht : t ∈ log) (hle : t.lastLsn ≤ x.dest.appliedLsn) : ∀ e ∈ t.entries, e ∈ x.dest.data.2 := by
  intro e hent
  rw [hx.applied]
  refine List.mem_filter.mpr ⟨List.mem_flatMap.mpr ⟨t, ht, hent⟩, decide_eq_true ?_⟩
  exact ((hlog.wf t ht).entry_bounds hent).2.trans hle

theorem InboxWorld.Inv.sound (hlog : SourceLog log) (hx : x.Inv ν log) (T : TailTables δ) :
    x.Sound ν log T := by
  refine ⟨hx.rows, hx.bytes, fun t ht => ?_, step_advances x T, hx.applied, ?_,
    fun _ _ _ t ht r hr hid hne => altered_throws ht hr hid hne, fun movement b d' hclose t ht => ?_⟩
  · obtain ⟨hl, hor⟩ := hx.accepted t ht
    exact hor.imp_right fun hle => ⟨hle, hx.entries hlog hl hle⟩
  · rw [hx.applied]
    exact hlog.entries_ordered.sublist (List.filter_sublist.map _)
  · obtain ⟨hzero, -⟩ := closeTailStaging_returns hclose
    rw [hx.rows] at hzero
    have hnone := inbox_empty hzero
    obtain ⟨hl, hr | hle⟩ := hx.accepted t ht
    · rw [← Table.mem_rows, hnone] at hr
      cases hr
    · exact ⟨hle, hx.entries hlog hl hle⟩

end

/-- In every run over slices of one source log, the destination keeps what it accepted until it is
applied, and applies it once and in order. -/
theorem staged_tail_inbox {ν : Type} [JsNumber ν] (T : TailTables δ) (data : δ)
    (log : List TailTransaction) (hlog : SourceLog log) (ops : List InboxOp)
    (hops : (InboxWorld.new data).SlicesRun ν log T ops) :
    ((InboxWorld.new data).run ν T ops).Sound ν log T :=
  ((inv_new hlog data).run hlog T hops).sound hlog T

/-! ## A run -/

/-- Tables that take every row. -/
def plainTables : TailTables Unit where
  prepare _ _ _ := .ok ()
  replayed _ _ := .ok ()
  apply _ _ := .ok ((), true)

def sampleTail : List TailTransaction :=
  [⟨7, 1, 1, [⟨7, 1, "ins", "t", "k", some "\x7b\x7d", none⟩]⟩,
    ⟨8, 2, 2, [⟨8, 2, "del", "t", "k", none, some "\x7b\x7d"⟩]⟩]

theorem sampleTail_log : SourceLog sampleTail :=
  { @assertTailTransactions_ok sampleTail rfl with
    positive := by decide }

/-- The second batch is staged twice, and applied after the first was acknowledged. -/
theorem staged_tail_inbox_sample : ((InboxWorld.new ()).run Int plainTables
    [.stage (.ok ()) ["t"] (sampleTail.take 1), .stage (.ok ()) ["t"] (sampleTail.drop 1),
      .stage (.ok ()) ["t"] (sampleTail.drop 1), .apply (.ok ()) ["t"] (sampleTail.take 1),
      .ack (.ok ()) 1, .apply (.ok ()) ["t"] sampleTail, .ack (.ok ()) 2, .close (.ok ())]).Sound Int
        sampleTail plainTables :=
  staged_tail_inbox plainTables () sampleTail sampleTail_log _
    ⟨⟨[], sampleTail.drop 1, rfl⟩, ⟨sampleTail.take 1, [], rfl⟩, ⟨sampleTail.take 1, [], rfl⟩,
      ⟨[], sampleTail.drop 1, rfl, fun _ h => absurd h List.not_mem_nil⟩, trivial,
      ⟨[], [], rfl, fun _ h => absurd h List.not_mem_nil⟩, trivial, trivial, trivial⟩

end Chardb.Reshard
