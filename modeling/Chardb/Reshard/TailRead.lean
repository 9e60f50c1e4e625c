import Chardb.Lib.Whole
import Chardb.Reshard.SourceTailAccount
import Chardb.Reshard.TailTransaction

/-!
# Reading the tail of a source

`readTailBatch` reads the split log after an LSN in whole source transactions: at most 500 rows and
1 MiB of envelopes. What it answers is what the log holds up to the LSN it answers, and no source
transaction goes on after it.
-/

namespace Chardb.Reshard

open Chardb.Lib

/-! ## What is read -/

def SplitLogRow.entry (r : SplitLogRow) : TailEntry where
  sourceTxId := r.sourceTxId
  lsn := r.lsn
  op := r.op.text
  tableName := r.tableName
  pk := r.pk
  after := r.after
  before := r.before

/-- The rows of a migration after an LSN, in LSN order. -/
def SourceDb.unread (db : SourceDb) (migId : String) (afterLsn : Int) : List SplitLogRow :=
  db.log.select fun r => r.migId = migId && afterLsn < r.lsn

/-- The rows of a source transaction between two LSNs. -/
def SourceDb.transactionRows (db : SourceDb) (migId : String) (sourceTxId firstLsn lastLsn : Int) :
    List SplitLogRow :=
  db.log.select fun r =>
    r.migId = migId && r.sourceTxId = sourceTxId && firstLsn ≤ r.lsn && r.lsn ≤ lastLsn

structure TailBatch where
  transactions : List TailTransaction
  lastLsn : Int
  done : Bool

def TAIL_BATCH_LIMIT : Int := 500

def changedDuringRead : Thrown := invariantError "source split transaction changed during read"

def exceedsRowCap : Thrown := invariantError "source split transaction exceeds the tail row cap"

def exceedsByteCap : Thrown := invariantError "source split transaction exceeds tail byte cap"

section
variable (ν : Type) [JsNumber ν]

/-- The envelope of the entries that were read for a group of `size` candidates. -/
def sealTransaction (sourceTxId : Int) (size : Nat) (entries : List TailEntry) :
    Except Thrown TailTransaction :=
  match assertReshardBatchBudget (entries.map (TailEntry.toJson ν)) "reshard tail transaction" with
  | .error e => .error e
  | .ok _ =>
    match entries.head?, entries.getLast? with
    | some first, some last =>
      if entries.length = size then .ok ⟨sourceTxId, first.lsn, last.lsn, entries⟩
      else .error changedDuringRead
    | _, _ => .error changedDuringRead

/-- The envelope of a group of candidates, read between its ends. -/
def readTransaction (db : SourceDb) (migId : String) (group : List SplitLogRow) :
    Except Thrown TailTransaction :=
  match group.head?, group.getLast? with
  | some first, some last =>
    sealTransaction ν first.sourceTxId group.length
      ((db.transactionRows migId first.sourceTxId first.lsn last.lsn).map SplitLogRow.entry)
  | _, _ => .error changedDuringRead

/-- The loop over the groups, with the envelopes, the bytes and the rows that were taken. -/
def collectTransactions (db : SourceDb) (migId : String) (limit : Int) :
    List TailTransaction → Int → Int → List (List SplitLogRow) → Except Thrown (List TailTransaction)
  | transactions, _, _, [] => .ok transactions
  | transactions, wireBytes, acceptedRows, group :: rest => do
    let envelope ← readTransaction ν db migId group
    let envelopeBytes := reshardJsonBytes (envelope.toJson ν) + if transactions = [] then 0 else 1
    if transactions ≠ [] ∧ (limit < acceptedRows + envelope.entries.length ∨
        CDB_RESHARD_MAX_BATCH_BYTES < wireBytes + envelopeBytes) then .ok transactions
    else if CDB_RESHARD_MAX_BATCH_BYTES < wireBytes + envelopeBytes then .error exceedsByteCap
    else
      collectTransactions db migId limit (transactions ++ [envelope]) (wireBytes + envelopeBytes)
        (acceptedRows + envelope.entries.length) rest

def assertCandidates : List SplitLogRow → SourceTx Unit
  | [] => pure ()
  | candidate :: candidates => do
    assertReshardSourceTransactionId candidate.sourceTxId
    assertCandidates candidates

/-- `readTailBatch`. -/
def readTailBatch (schema : CdbSchema) (migId : String) (afterLsn limit : Int) : SourceTx TailBatch := do
  .require (limit = TAIL_BATCH_LIMIT) (invalidArgs "reshard tail protocol limit must be exactly 500")
  let _ ← onControl (assertReshardMovement schema { migId, role := .source })
  let candidates ← .gets fun db => (db.unread migId afterLsn).take 501
  assertCandidates candidates
  let complete := takeWhole SplitLogRow.sourceTxId 500 candidates
  .require (¬ (candidates ≠ [] ∧ complete = [])) exceedsRowCap
  let db ← .gets id
  let transactions ← .ofExcept
    (collectTransactions ν db migId limit [] 2 0 (groups SplitLogRow.sourceTxId complete))
  let lastLsn := (transactions.getLast?.map TailTransaction.lastLsn).getD afterLsn
  let rest ← .gets fun db => db.unread migId lastLsn
  pure ⟨transactions, lastLsn, rest.isEmpty⟩

end

/-! ## What a read answers -/

/-- The envelope of the rows of a group. -/
def envelopeOf (group : List SplitLogRow) : TailTransaction where
  sourceTxId := (group.head?.map SplitLogRow.sourceTxId).getD 0
  firstLsn := (group.head?.map SplitLogRow.lsn).getD 0
  lastLsn := (group.getLast?.map SplitLogRow.lsn).getD 0
  entries := group.map SplitLogRow.entry

/-- Rows of one source transaction. -/
structure TxGroup (group : List SplitLogRow) : Prop where
  ne_nil : group ≠ []
  one : ∀ a ∈ group, ∀ b ∈ group, a.sourceTxId = b.sourceTxId

section
variable {ν : Type} [JsNumber ν] {s s' : SourceDb} {migId : String} {afterLsn : Int}

theorem unread_sorted (s : SourceDb) (migId : String) (afterLsn : Int) :
    (s.unread migId afterLsn).Pairwise fun a b => a.lsn < b.lsn := s.log.select_sorted _

theorem mem_unread {r : SplitLogRow} :
    r ∈ s.unread migId afterLsn ↔ r ∈ s.log ∧ r.migId = migId ∧ afterLsn < r.lsn := by
  simp only [SourceDb.unread, SeqTable.mem_select, Bool.and_eq_true, decide_eq_true_eq]

/-- Reading on after a first part gives the rest. -/
theorem unread_after {rows rest : List SplitLogRow} (h : s.unread migId afterLsn = rows ++ rest) :
    s.unread migId ((rows.getLast?.map SplitLogRow.lsn).getD afterLsn) = rest := by
  rcases List.eq_nil_or_concat' rows with rfl | ⟨init, last, rfl⟩
  · exact h
  · have hsorted := h ▸ unread_sorted s migId afterLsn
    obtain ⟨hrows, -, hbetween⟩ := List.pairwise_append.mp hsorted
    have hlast : ((init ++ [last]).getLast?.map SplitLogRow.lsn).getD afterLsn = last.lsn := by simp
    have hle : afterLsn < last.lsn := (mem_unread.mp (show last ∈ s.unread migId afterLsn by
      rw [h]; simp)).2.2
    have hmore : s.unread migId last.lsn =
        (s.unread migId afterLsn).filter fun r => decide (last.lsn < r.lsn) := by
      unfold SourceDb.unread SeqTable.select
      rw [List.filter_filter]
      refine List.filter_congr fun r _ => ?_
      rw [Bool.eq_iff_iff]
      simp only [Bool.and_eq_true, decide_eq_true_eq]
      constructor
      · rintro ⟨hm, hlt⟩
        exact ⟨hlt, hm, hle.trans hlt⟩
      · rintro ⟨hlt, hm, -⟩
        exact ⟨hm, hlt⟩
    rw [hlast, hmore, h, List.filter_append]
    have hnone : (init ++ [last]).filter (fun r => decide (last.lsn < r.lsn)) = [] := by
      refine List.filter_eq_nil_iff.mpr fun r hr hlt => ?_
      have hlt := of_decide_eq_true hlt
      rcases List.mem_append.mp hr with hr | hr
      · have := (List.pairwise_append.mp hrows).2.2 r hr last List.mem_cons_self
        omega
      · rw [List.mem_singleton.mp hr] at hlt
        exact lt_irrefl _ hlt
    rw [hnone, List.nil_append]
    exact List.filter_eq_self.mpr fun r hr => decide_eq_true (hbetween last (by simp) r hr)

/-- The rows between the ends of a group are the group. -/
theorem transactionRows_eq {pre group post : List SplitLogRow} {first last : SplitLogRow}
    (h : s.unread migId afterLsn = pre ++ group ++ post) (hgroup : TxGroup group)
    (hfirst : group.head? = some first) (hlast : group.getLast? = some last) :
    s.transactionRows migId first.sourceTxId first.lsn last.lsn = group := by
  have hmem : first ∈ group := List.mem_of_mem_head? hfirst
  have hmemLast : last ∈ group := List.mem_of_getLast? hlast
  have hsorted := h ▸ unread_sorted s migId afterLsn
  obtain ⟨hleft, -, hpost⟩ := List.pairwise_append.mp hsorted
  obtain ⟨-, hin, hpre⟩ := List.pairwise_append.mp hleft
  have hge : ∀ r ∈ group, first.lsn ≤ r.lsn := by
    obtain ⟨tail, rfl⟩ := List.head?_eq_some_iff.mp hfirst
    intro r hr
    rcases List.mem_cons.mp hr with rfl | hr
    · exact le_rfl
    · exact ((List.pairwise_cons.mp hin).1 r hr).le
  have hle : ∀ r ∈ group, r.lsn ≤ last.lsn := by
    obtain ⟨init, rfl⟩ := List.getLast?_eq_some_iff.mp hlast
    intro r hr
    rcases List.mem_append.mp hr with hr | hr
    · exact ((List.pairwise_append.mp hin).2.2 r hr last List.mem_cons_self).le
    · rw [List.mem_singleton.mp hr]
  have hafter : afterLsn < first.lsn := (mem_unread.mp (show first ∈ s.unread migId afterLsn by
    rw [h]; simp [hmem])).2.2
  have hread : s.transactionRows migId first.sourceTxId first.lsn last.lsn =
      (s.unread migId afterLsn).filter fun r =>
        decide (r.sourceTxId = first.sourceTxId) && (decide (first.lsn ≤ r.lsn) &&
          decide (r.lsn ≤ last.lsn)) := by
    unfold SourceDb.transactionRows SourceDb.unread SeqTable.select
    rw [List.filter_filter]
    refine List.filter_congr fun r _ => ?_
    rw [Bool.eq_iff_iff]
    simp only [Bool.and_eq_true, decide_eq_true_eq]
    constructor
    · rintro ⟨⟨⟨hm, ht⟩, hf⟩, hl⟩
      exact ⟨⟨ht, hf, hl⟩, hm, by omega⟩
    · rintro ⟨⟨ht, hf, hl⟩, hm, -⟩
      exact ⟨⟨⟨hm, ht⟩, hf⟩, hl⟩
  rw [hread, h, List.filter_append, List.filter_append]
  have hnone : ∀ part : List SplitLogRow, (∀ r ∈ part, r.lsn < first.lsn ∨ last.lsn < r.lsn) →
      (part.filter fun r => decide (r.sourceTxId = first.sourceTxId) && (decide (first.lsn ≤ r.lsn) &&
        decide (r.lsn ≤ last.lsn))) = [] := by
    intro part hpart
    refine List.filter_eq_nil_iff.mpr fun r hr hk => ?_
    simp only [Bool.and_eq_true, decide_eq_true_eq] at hk
    have := hpart r hr
    omega
  rw [hnone pre fun r hr => .inl (hpre r hr first hmem),
    hnone post fun r hr => .inr (hpost last (List.mem_append_right _ hmemLast) r hr),
    List.nil_append, List.append_nil]
  refine List.filter_eq_self.mpr fun r hr => ?_
  simp only [Bool.and_eq_true, decide_eq_true_eq]
  exact ⟨hgroup.one r hr first hmem, hge r hr, hle r hr⟩

/-- A group is read as it was found: only its budget can refuse it. -/
theorem readTransaction_eq {pre group post : List SplitLogRow}
    (h : s.unread migId afterLsn = pre ++ group ++ post) (hgroup : TxGroup group) :
    readTransaction ν s migId group =
      (assertReshardBatchBudget ((group.map SplitLogRow.entry).map (TailEntry.toJson ν))
        "reshard tail transaction").map fun _ => envelopeOf group := by
  obtain ⟨first, tail, rfl⟩ := List.exists_cons_of_ne_nil hgroup.ne_nil
  obtain ⟨last, hlast⟩ : ∃ last, (first :: tail).getLast? = some last :=
    ⟨_, List.getLast?_eq_some_getLast (List.cons_ne_nil _ _)⟩
  have hread : readTransaction ν s migId (first :: tail) =
      sealTransaction ν first.sourceTxId (first :: tail).length
        ((s.transactionRows migId first.sourceTxId first.lsn last.lsn).map SplitLogRow.entry) := by
    unfold readTransaction
    rw [hlast]
    rfl
  have hends : ((first :: tail).map SplitLogRow.entry).getLast? = some last.entry := by
    rw [List.getLast?_map, hlast]
    rfl
  rw [hread, transactionRows_eq h hgroup rfl hlast]
  unfold sealTransaction
  cases assertReshardBatchBudget (((first :: tail).map SplitLogRow.entry).map (TailEntry.toJson ν))
    "reshard tail transaction" with
  | error e => rfl
  | ok bytes =>
    rw [hends]
    show (if ((first :: tail).map SplitLogRow.entry).length = (first :: tail).length then _ else _) = _
    rw [if_pos (List.length_map _)]
    show Except.ok _ = Except.ok (envelopeOf (first :: tail))
    unfold envelopeOf
    rw [hlast]
    rfl

/-- The loop takes some of the first groups, at least one of them. -/
theorem collectTransactions_ok {gs : List (List SplitLogRow)} {transactions txs : List TailTransaction}
    {limit wireBytes acceptedRows : Int} {pre post : List SplitLogRow}
    (h : s.unread migId afterLsn = pre ++ gs.flatten ++ post) (hgs : ∀ g ∈ gs, TxGroup g)
    (hok : collectTransactions ν s migId limit transactions wireBytes acceptedRows gs = .ok txs) :
    ∃ k, txs = transactions ++ (gs.take k).map envelopeOf ∧ (transactions = [] → gs ≠ [] → 0 < k) := by
  induction gs generalizing transactions wireBytes acceptedRows pre with
  | nil =>
    cases hok
    exact ⟨0, by simp, fun _ hne => absurd rfl hne⟩
  | cons group gs ih =>
    have hgroup := hgs group List.mem_cons_self
    have hplace : s.unread migId afterLsn = pre ++ group ++ (gs.flatten ++ post) := by
      rw [h, List.flatten_cons, List.append_assoc, List.append_assoc, List.append_assoc]
    have hread := readTransaction_eq (ν := ν) hplace hgroup
    unfold collectTransactions at hok
    obtain ⟨envelope, henvelope, hok⟩ := bind_ok hok
    rw [hread] at henvelope
    obtain rfl : envelopeOf group = envelope := by
      cases hbudget : assertReshardBatchBudget ((group.map SplitLogRow.entry).map (TailEntry.toJson ν))
        "reshard tail transaction" with
      | error e => rw [hbudget] at henvelope; cases henvelope
      | ok bytes => rw [hbudget] at henvelope; exact Except.ok.inj henvelope
    generalize reshardJsonBytes ((envelopeOf group).toJson ν) +
      (if transactions = [] then (0 : Int) else 1) = envelopeBytes at hok
    simp only at hok
    split at hok
    · rename_i hfull
      cases hok
      exact ⟨0, by simp, fun hnil => absurd hnil hfull.1⟩
    · split at hok
      · cases hok
      · rw [← List.append_assoc] at hplace
        obtain ⟨k, hk, -⟩ := ih hplace (fun g hg => hgs g (List.mem_cons_of_mem _ hg)) hok
        exact ⟨k + 1, by rw [hk, List.take_succ_cons]; simp, fun _ _ => Nat.succ_pos k⟩

/-- A batch is a first part of what is unread, in whole source transactions. -/
structure TailBatch.Reads (b : TailBatch) (unread rows rest : List SplitLogRow) (afterLsn : Int) :
    Prop where
  split : unread = rows ++ rest
  cuts : CutsAt SplitLogRow.sourceTxId rows rest
  envelopes : ∃ gs : List (List SplitLogRow), rows = gs.flatten ∧ b.transactions = gs.map envelopeOf ∧
    (∀ g ∈ gs, TxGroup g) ∧ gs.Pairwise (CutsAt SplitLogRow.sourceTxId)
  last : b.lastLsn = (rows.getLast?.map SplitLogRow.lsn).getD afterLsn
  done : b.done = true ↔ rest = []
  progress : rows = [] → rest = []
  limit : rows.length ≤ 500

theorem assertCandidates_readOnly (candidates : List SplitLogRow) :
    (assertCandidates candidates).ReadOnly := by
  induction candidates with
  | nil => exact Tx.readOnly_pure _
  | cons candidate candidates ih => exact (Tx.readOnly_require _ _).bind fun _ => ih

theorem readTailBatch_readOnly (schema : CdbSchema) (migId : String) (afterLsn limit : Int) :
    (readTailBatch ν schema migId afterLsn limit).ReadOnly :=
  (Tx.readOnly_require _ _).bind fun _ =>
    (readOnly_onControl readOnly_assertReshardMovement).bind fun _ => (Tx.readOnly_gets _).bind fun _ =>
      (assertCandidates_readOnly _).bind fun _ => (Tx.readOnly_require _ _).bind fun _ =>
        (Tx.readOnly_gets _).bind fun _ => (Tx.readOnly_ofExcept _).bind fun _ =>
          (Tx.readOnly_gets _).bind fun _ => Tx.readOnly_pure _

theorem unread_ordered (hi : SourceInv s) :
    (s.unread migId afterLsn).Pairwise fun a b => a.sourceTxId ≤ b.sourceTxId := by
  have hret : (s.retained migId).Pairwise fun a b => a.sourceTxId ≤ b.sourceTxId := by
    have := hi.accounted migId
    cases hst : s.split? migId with
    | none =>
      rw [hst] at this
      rw [show s.retained migId = [] from this]
      exact .nil
    | some st =>
      rw [hst] at this
      exact this.ordered
  have hsub : s.unread migId afterLsn =
      (s.retained migId).filter fun r => decide (afterLsn < r.lsn) := by
    unfold SourceDb.unread SourceDb.retained SeqTable.select
    rw [List.filter_filter]
    exact List.filter_congr fun r _ => Bool.and_comm _ _
  rw [hsub]
  exact hret.filter _

theorem lastLsn_envelopes {gs : List (List SplitLogRow)} (hgs : ∀ g ∈ gs, TxGroup g) :
    ((gs.map envelopeOf).getLast?.map TailTransaction.lastLsn).getD afterLsn =
      (gs.flatten.getLast?.map SplitLogRow.lsn).getD afterLsn := by
  rcases List.eq_nil_or_concat' gs with rfl | ⟨init, g, rfl⟩
  · rfl
  · have hne := (hgs g (by simp)).ne_nil
    rw [List.map_append, List.map_singleton, List.getLast?_concat, List.flatten_append,
      List.flatten_singleton, List.getLast?_append_of_ne_nil _ hne]
    show ((g.getLast?.map SplitLogRow.lsn).getD 0) = _
    rw [List.getLast?_eq_some_getLast hne]
    rfl

theorem readTailBatch_returns {schema : CdbSchema} {limit : Int} {b : TailBatch} (hi : SourceInv s)
    (h : (readTailBatch ν schema migId afterLsn limit).Returns s b s') :
    s' = s ∧ ∃ rows rest, b.Reads (s.unread migId afterLsn) rows rest afterLsn := by
  unfold readTailBatch at h
  simp only [Tx.bind_returns, Tx.require_returns, Tx.gets_returns, Tx.ofExcept_returns,
    Tx.pure_returns] at h
  obtain ⟨_, _, ⟨-, rfl⟩, _, _, hmove, _, _, ⟨rfl, rfl⟩, _, _, hassert, _, _, ⟨hcap, rfl⟩, _, _,
    ⟨rfl, rfl⟩, transactions, _, ⟨hcollect, rfl⟩, _, _, ⟨rfl, rfl⟩, rfl, rfl⟩ := h
  obtain rfl := (readOnly_onControl readOnly_assertReshardMovement).returns hmove
  obtain rfl := (assertCandidates_readOnly _).returns hassert
  refine ⟨rfl, ?_⟩
  have hordered : (s.unread migId afterLsn).Pairwise fun a b => a.sourceTxId ≤ b.sourceTxId :=
    unread_ordered hi
  rw [takeWhole_take (by decide)] at hcap hcollect
  obtain ⟨post, hwhole, -⟩ := takeWhole_cuts (n := 500) hordered
  have hgroups : ∀ g ∈ groups SplitLogRow.sourceTxId
      (takeWhole SplitLogRow.sourceTxId 500 (s.unread migId afterLsn)), TxGroup g := fun g hg =>
    ⟨ne_nil_of_mem_groups hg, fun a ha b hb => key_eq_of_mem_groups hg ha hb⟩
  have hplace : s.unread migId afterLsn = [] ++ (groups SplitLogRow.sourceTxId
      (takeWhole SplitLogRow.sourceTxId 500 (s.unread migId afterLsn))).flatten ++ post := by
    rw [flatten_groups, List.nil_append]
    exact hwhole
  obtain ⟨k, rfl, hpos⟩ := collectTransactions_ok hplace hgroups hcollect
  obtain ⟨rest, hsplit, hcuts⟩ := take_groups_cuts (n := 500) hordered k
  have hmono := (List.pairwise_append.mp (hwhole ▸ hordered)).1
  rw [List.nil_append] at *
  generalize hgs : groups SplitLogRow.sourceTxId
    (takeWhole SplitLogRow.sourceTxId 500 (s.unread migId afterLsn)) = gs at *
  have htaken : ∀ g ∈ gs.take k, TxGroup g := fun g hg => hgroups g (List.mem_of_mem_take hg)
  refine ⟨(gs.take k).flatten, rest, hsplit, hcuts, ⟨gs.take k, rfl, rfl, htaken, ?_⟩,
    lastLsn_envelopes htaken, ?_, fun hnil => ?_, ?_⟩
  · exact (hgs ▸ groups_pairwise hmono).sublist (List.take_sublist k gs)
  · show (s.unread migId _).isEmpty = true ↔ _
    rw [lastLsn_envelopes htaken, unread_after hsplit]
    exact List.isEmpty_iff
  · -- a row that is left would have been a candidate, and a group of candidates is taken
    have hnone : gs = [] := by
      by_contra hne
      cases htake : gs.take k with
      | nil => exact (List.take_eq_nil_iff.mp htake).elim (hpos rfl hne).ne' hne
      | cons g tail =>
        rw [htake, List.flatten_cons, List.append_eq_nil_iff] at hnil
        exact (htaken g (by rw [htake]; exact List.mem_cons_self)).ne_nil hnil.1
    have hcomplete : takeWhole SplitLogRow.sourceTxId 500 (s.unread migId afterLsn) = [] := by
      have hflat := flatten_groups SplitLogRow.sourceTxId
        (takeWhole SplitLogRow.sourceTxId 500 (s.unread migId afterLsn))
      rw [hgs, hnone] at hflat
      exact hflat.symm
    have hunread : s.unread migId afterLsn = [] := by
      by_contra hne
      exact hcap ⟨fun htake => (List.take_eq_nil_iff.mp htake).elim (by decide) hne, hcomplete⟩
    rw [hsplit, hnil] at hunread
    exact hunread
  · refine ((List.take_sublist k gs).flatten.length_le).trans ?_
    rw [← hgs, flatten_groups]
    exact takeWhole_length_le

end

end Chardb.Reshard
