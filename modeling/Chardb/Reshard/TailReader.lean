import Chardb.Reshard.TailLog
import Chardb.Reshard.TailRead

/-!
# A reader of the tail

A Resharder reads the tail of a migration on from the LSN that it has, while mutations are captured and
what it has is acknowledged. Whatever the order, it reads each captured row once, in the order of
capture and together with its source transaction.
-/

namespace Chardb.Reshard

open Chardb.Lib

/-- A source with a reader of one of its migrations. `captured` are all rows that were ever captured
for the migration. -/
structure TailReader where
  source : SourceDb
  captured : List SplitLogRow
  read : List TailTransaction
  cursor : Int

inductive ReaderCall
  | source (call : SourceCall)
  | read (schema : CdbSchema)

namespace TailReader

/-- A reader that has read nothing. -/
def new (source : SourceDb) : TailReader := ⟨source, [], [], 0⟩

section
variable (ν : Type) [JsNumber ν] (migId : String)

/-- A call on the source, or a read that goes on after the cursor. -/
def step (w : TailReader) : ReaderCall → TailReader
  | .source call =>
    { w with
      source := w.source.step call
      captured := w.captured ++ (w.source.step call).unread migId w.source.log.last }
  | .read schema =>
    match readTailBatch ν schema migId w.cursor TAIL_BATCH_LIMIT w.source with
    | (.ok b, source) => { w with source, read := w.read ++ b.transactions, cursor := b.lastLsn }
    | (.error _, source) => { w with source }

def run (w : TailReader) (calls : List ReaderCall) : TailReader := calls.foldl (step ν migId) w

omit [JsNumber ν] in
/-- Nothing is acknowledged or cleared that is not read. -/
def Allows (w : TailReader) : ReaderCall → Prop
  | .source call => ∀ r : SplitLogRow, r.migId = migId → w.cursor < r.lsn → ¬ call.Clears r
  | .read _ => True

def AllowsRun (w : TailReader) : List ReaderCall → Prop
  | [] => True
  | call :: calls => w.Allows migId call ∧ AllowsRun (w.step ν migId call) calls

end

/-! ## The invariant -/

/-- What was captured is what was read, `taken`, and what is retained after the cursor, `rest`. -/
structure Inv (migId : String) (w : TailReader) (taken rest : List SplitLogRow) : Prop where
  rests : Rests (fun _ => True) w.source
  captured : w.captured = taken ++ rest
  sorted : w.captured.Pairwise fun a b => a.lsn < b.lsn
  bounds : ∀ r ∈ w.captured, r.lsn ≤ w.source.log.last ∧ r.sourceTxId ≤ w.source.opLog.lastEventId
  cursor_le : w.cursor ≤ w.source.log.last
  taken_le : ∀ r ∈ taken, r.lsn ≤ w.cursor
  cuts : CutsAt SplitLogRow.sourceTxId taken rest
  unread : w.source.unread migId w.cursor = rest
  entries : tailEntries w.read = taken.map SplitLogRow.entry
  ids : w.read.Pairwise fun t t' => t.sourceTxId < t'.sourceTxId
  own : ∀ t ∈ w.read, t.entries ≠ [] ∧ ∀ e ∈ t.entries, e.sourceTxId = t.sourceTxId

variable {ν : Type} [JsNumber ν] {migId : String} {w : TailReader} {taken rest : List SplitLogRow}

omit [JsNumber ν] in
theorem eq_of_mem_iff {l m : List SplitLogRow} (hl : l.Pairwise fun a b => a.lsn < b.lsn)
    (hm : m.Pairwise fun a b => a.lsn < b.lsn) (h : ∀ r, r ∈ l ↔ r ∈ m) : l = m := by
  have hnodup : ∀ {k : List SplitLogRow}, k.Pairwise (fun a b => a.lsn < b.lsn) → k.Nodup := fun hk =>
    hk.imp fun hlt he => by subst he; exact lt_irrefl _ hlt
  have hperm := (List.perm_ext_iff_of_nodup (hnodup hl) (hnodup hm)).mpr h
  exact hperm.eq_of_pairwise (fun a b _ _ hab hba => absurd hab hba.not_gt) hl hm

/-- A call captures rows of a mutation newer than all that was captured. -/
theorem Inv.source (h : Inv migId w taken rest) (call : SourceCall)
    (hallow : w.Allows migId (.source call)) :
    Inv migId (w.step ν migId (.source call)) taken
      (rest ++ (w.source.step call).unread migId w.source.log.last) := by
  have heffect := SourceDb.step_effect h.rests.1 call
  have hrests := h.rests.step stable_true call
  have hnew : ∀ r ∈ (w.source.step call).unread migId w.source.log.last,
      w.source.log.last < r.lsn ∧ w.source.opLog.lastEventId < r.sourceTxId ∧
        r ∈ (w.source.step call).log := by
    intro r hr
    obtain ⟨hmem, -, hlsn⟩ := mem_unread.mp hr
    rcases heffect.fresh r hmem with hold | ⟨-, htx⟩
    · exact absurd (SeqTable.key_le hold) (not_le.mpr hlsn)
    · exact ⟨hlsn, htx, hmem⟩
  have hsorted : (w.captured ++ (w.source.step call).unread migId w.source.log.last).Pairwise
      fun a b => a.lsn < b.lsn := by
    refine List.pairwise_append.mpr ⟨h.sorted, unread_sorted _ _ _, fun a ha b hb => ?_⟩
    exact (h.bounds a ha).1.trans_lt (hnew b hb).1
  have htaken : ∀ r ∈ taken, r ∈ w.captured := fun r hr => by
    rw [h.captured]
    exact List.mem_append_left _ hr
  exact
    { rests := hrests
      captured := by
        show w.captured ++ _ = _
        rw [h.captured, List.append_assoc]
      sorted := hsorted
      bounds := fun r hr => by
        rcases List.mem_append.mp hr with hr | hr
        · obtain ⟨hlsn, htx⟩ := h.bounds r hr
          exact ⟨hlsn.trans heffect.last_le, htx.trans (Int.ofNat_le.mpr heffect.events_le)⟩
        · exact ⟨SeqTable.key_le (hnew r hr).2.2, (hrests.2.1.txs r (hnew r hr).2.2).2⟩
      cursor_le := h.cursor_le.trans heffect.last_le
      taken_le := h.taken_le
      cuts := fun a ha b hb => by
        rcases List.mem_append.mp hb with hb | hb
        · exact h.cuts a ha b hb
        · exact (h.bounds a (htaken a ha)).2.trans_lt (hnew b hb).2.1
      unread := by
        refine eq_of_mem_iff (unread_sorted _ _ _) ?_ fun r => ?_
        · rw [h.captured, List.append_assoc] at hsorted
          exact (List.pairwise_append.mp hsorted).2.1
        · rw [List.mem_append, ← h.unread, mem_unread, mem_unread, mem_unread]
          constructor
          · rintro ⟨hmem, hmig, hlsn⟩
            rcases heffect.fresh r hmem with hold | ⟨hlast, -⟩
            · exact .inl ⟨hold, hmig, hlsn⟩
            · exact .inr ⟨hmem, hmig, hlast⟩
          · rintro (⟨hmem, hmig, hlsn⟩ | ⟨hmem, hmig, hlsn⟩)
            · exact ⟨heffect.kept r hmem (hallow r hmig hlsn), hmig, hlsn⟩
            · exact ⟨hmem, hmig, h.cursor_le.trans_lt hlsn⟩
      entries := h.entries
      ids := h.ids
      own := h.own }

omit [JsNumber ν] in
/-- Envelopes carry the rows of their groups. -/
theorem tailEntries_envelopes (gs : List (List SplitLogRow)) :
    tailEntries (gs.map envelopeOf) = gs.flatten.map SplitLogRow.entry := by
  induction gs with
  | nil => rfl
  | cons g gs ih =>
    rw [List.flatten_cons, List.map_append, ← ih]
    rfl

omit [JsNumber ν] in
theorem envelopeOf_sourceTxId {g : List SplitLogRow} (hg : TxGroup g) {r : SplitLogRow} (hr : r ∈ g) :
    (envelopeOf g).sourceTxId = r.sourceTxId := by
  obtain ⟨first, tail, rfl⟩ := List.exists_cons_of_ne_nil hg.ne_nil
  exact hg.one first List.mem_cons_self r hr

/-- A read takes a first part of what is retained. -/
theorem Inv.read (h : Inv migId w taken rest) {b : TailBatch} {rows rest' : List SplitLogRow}
    (hb : b.Reads (w.source.unread migId w.cursor) rows rest' w.cursor) :
    Inv migId { w with read := w.read ++ b.transactions, cursor := b.lastLsn } (taken ++ rows) rest' := by
  obtain ⟨gs, rfl, htransactions, hgs, hpair⟩ := hb.envelopes
  have hsplit : rest = gs.flatten ++ rest' := h.unread ▸ hb.split
  have hafter := unread_after hb.split
  rw [← hb.last] at hafter
  have hlast : w.cursor ≤ b.lastLsn ∧ b.lastLsn ≤ w.source.log.last ∧
      ∀ r ∈ gs.flatten, r.lsn ≤ b.lastLsn := by
    rw [hb.last]
    have hsorted := hb.split ▸ unread_sorted w.source migId w.cursor
    rcases List.eq_nil_or_concat' gs.flatten with hnil | ⟨init, last, hconcat⟩
    · rw [hnil]
      exact ⟨le_rfl, h.cursor_le, fun _ hr => by cases hr⟩
    · rw [hconcat] at hsorted ⊢
      have hmem : last ∈ w.source.unread migId w.cursor := by
        rw [hb.split, hconcat]
        simp
      obtain ⟨hlog, -, hlt⟩ := mem_unread.mp hmem
      have hend : ((init ++ [last]).getLast?.map SplitLogRow.lsn).getD w.cursor = last.lsn := by simp
      rw [hend]
      refine ⟨hlt.le, SeqTable.key_le hlog, fun r hr => ?_⟩
      rcases List.mem_append.mp hr with hr | hr
      · have hrows := (List.pairwise_append.mp hsorted).1
        exact ((List.pairwise_append.mp hrows).2.2 r hr last List.mem_cons_self).le
      · rw [List.mem_singleton.mp hr]
  have hbetween : ∀ t ∈ w.read, ∀ g ∈ gs, t.sourceTxId < (envelopeOf g).sourceTxId := by
    intro t ht g hg
    obtain ⟨hne, hown⟩ := h.own t ht
    obtain ⟨e, he⟩ := List.exists_mem_of_ne_nil _ hne
    have hentry : e ∈ taken.map SplitLogRow.entry := by
      rw [← h.entries]
      exact List.mem_flatMap.mpr ⟨t, ht, he⟩
    obtain ⟨a, ha, rfl⟩ := List.mem_map.mp hentry
    obtain ⟨r, hr⟩ := List.exists_mem_of_ne_nil _ (hgs g hg).ne_nil
    rw [← hown _ he, envelopeOf_sourceTxId (hgs g hg) hr]
    exact h.cuts a ha r (hsplit ▸ List.mem_append_left _ (List.mem_flatten.mpr ⟨g, hg, hr⟩))
  exact
    { rests := h.rests
      captured := by
        show w.captured = _
        rw [h.captured, hsplit, List.append_assoc]
      sorted := h.sorted
      bounds := h.bounds
      cursor_le := hlast.2.1
      taken_le := fun r hr => by
        rcases List.mem_append.mp hr with hr | hr
        · exact (h.taken_le r hr).trans hlast.1
        · exact hlast.2.2 r hr
      cuts := fun a ha c hc => by
        rcases List.mem_append.mp ha with ha | ha
        · exact h.cuts a ha c (hsplit ▸ List.mem_append_right _ hc)
        · exact hb.cuts a ha c hc
      unread := hafter
      entries := by
        show tailEntries (w.read ++ b.transactions) = _
        rw [htransactions, List.map_append, ← h.entries, ← tailEntries_envelopes]
        exact List.flatMap_append
      ids := by
        show (w.read ++ b.transactions).Pairwise _
        rw [htransactions]
        refine List.pairwise_append.mpr ⟨h.ids, ?_, fun t ht t' ht' => ?_⟩
        · refine List.pairwise_map.mpr (hpair.imp_of_mem fun {g g'} hg hg' hcut => ?_)
          obtain ⟨r, hr⟩ := List.exists_mem_of_ne_nil _ (hgs g hg).ne_nil
          obtain ⟨r', hr'⟩ := List.exists_mem_of_ne_nil _ (hgs g' hg').ne_nil
          rw [envelopeOf_sourceTxId (hgs g hg) hr, envelopeOf_sourceTxId (hgs g' hg') hr']
          exact hcut r hr r' hr'
        · obtain ⟨g, hg, rfl⟩ := List.mem_map.mp ht'
          exact hbetween t ht g hg
      own := fun t ht => by
        rcases List.mem_append.mp ht with ht | ht
        · exact h.own t ht
        · rw [htransactions] at ht
          obtain ⟨g, hg, rfl⟩ := List.mem_map.mp ht
          refine ⟨fun hnil => (hgs g hg).ne_nil (List.map_eq_nil_iff.mp hnil), fun e he => ?_⟩
          obtain ⟨r, hr, rfl⟩ := List.mem_map.mp he
          exact (envelopeOf_sourceTxId (hgs g hg) hr).symm }

theorem Inv.step (h : Inv migId w taken rest) {call : ReaderCall} (hallow : w.Allows migId call) :
    ∃ taken' rest', Inv migId (w.step ν migId call) taken' rest' := by
  cases call with
  | source call => exact ⟨_, _, h.source call hallow⟩
  | read schema =>
    rcases (readTailBatch ν schema migId w.cursor TAIL_BATCH_LIMIT).returns_or_throws w.source
      with ⟨b, hr⟩ | ⟨e, ht⟩
    · obtain ⟨hsame, rows, rest', hb⟩ := readTailBatch_returns h.rests.2.1 hr
      rw [hsame] at hr
      rw [TailReader.step, hr]
      exact ⟨_, _, h.read hb⟩
    · have hsame := readTailBatch_readOnly (ν := ν) schema migId w.cursor TAIL_BATCH_LIMIT w.source
      rw [hsame] at ht
      rw [TailReader.step, ht]
      exact ⟨_, _, h⟩

theorem Inv.run {calls : List ReaderCall} (h : Inv migId w taken rest)
    (hallow : w.AllowsRun ν migId calls) :
    ∃ taken' rest', Inv migId (w.run ν migId calls) taken' rest' := by
  induction calls generalizing w taken rest with
  | nil => exact ⟨_, _, h⟩
  | cons call calls ih =>
    obtain ⟨_, _, hstep⟩ := h.step (ν := ν) hallow.1
    exact ih hstep hallow.2

omit [JsNumber ν] in
theorem Inv.new (source : NewSource) (migId : String) : Inv migId (new source.db) [] [] where
  rests := source.rests
  captured := rfl
  sorted := .nil
  bounds _ hr := by cases hr
  cursor_le := source.db.log.last_nonneg
  taken_le _ hr := by cases hr
  cuts _ hr := by cases hr
  unread := List.eq_nil_iff_forall_not_mem.mpr fun r hr => source.noRows r (mem_unread.mp hr).1
  entries := rfl
  ids := .nil
  own _ ht := by cases ht

/-! ## The guarantee -/

omit [JsNumber ν] in
/-- The entries of one transaction among those of a batch. -/
theorem filter_tailEntries {transactions : List TailTransaction} {t : TailTransaction}
    (hids : transactions.Pairwise fun t t' => t.sourceTxId < t'.sourceTxId)
    (hown : ∀ t ∈ transactions, ∀ e ∈ t.entries, e.sourceTxId = t.sourceTxId) (ht : t ∈ transactions) :
    (tailEntries transactions).filter (fun e => decide (e.sourceTxId = t.sourceTxId)) = t.entries := by
  induction transactions with
  | nil => cases ht
  | cons first transactions ih =>
    obtain ⟨hfirst, hrest⟩ := List.pairwise_cons.mp hids
    have hhead := hown first List.mem_cons_self
    have htail : ∀ t ∈ transactions, ∀ e ∈ t.entries, e.sourceTxId = t.sourceTxId := fun t ht =>
      hown t (List.mem_cons_of_mem _ ht)
    rw [show tailEntries (first :: transactions) = first.entries ++ tailEntries transactions from rfl,
      List.filter_append]
    rcases List.mem_cons.mp ht with rfl | ht
    · have hothers : (tailEntries transactions).filter
          (fun e => decide (e.sourceTxId = t.sourceTxId)) = [] := by
        refine List.filter_eq_nil_iff.mpr fun e he hid => ?_
        obtain ⟨t', ht', he⟩ := List.mem_flatMap.mp he
        have := hfirst t' ht'
        rw [← htail t' ht' e he, of_decide_eq_true hid] at this
        exact lt_irrefl _ this
      rw [hothers, List.append_nil]
      exact List.filter_eq_self.mpr fun e he => decide_eq_true (hhead e he)
    · have hnone : first.entries.filter (fun e => decide (e.sourceTxId = t.sourceTxId)) = [] := by
        refine List.filter_eq_nil_iff.mpr fun e he hid => ?_
        have := hfirst t ht
        rw [← hhead e he, of_decide_eq_true hid] at this
        exact lt_irrefl _ this
      rw [hnone, List.nil_append]
      exact ih hrest htail ht

/-- What a reader has, against what was captured. -/
structure Faithful (ν : Type) [JsNumber ν] (migId : String) (w : TailReader) : Prop where
  /-- The rows up to the cursor were read, in the order of their capture, each once. -/
  once : w.captured.Pairwise (fun a b => a.lsn < b.lsn) ∧
    tailEntries w.read = (w.captured.filter fun r => decide (r.lsn ≤ w.cursor)).map SplitLogRow.entry
  /-- The rows after it are still there to be read. -/
  rest : w.source.unread migId w.cursor = w.captured.filter fun r => decide (w.cursor < r.lsn)
  /-- A transaction that was read has all the rows that its mutation captured. -/
  whole : ∀ t ∈ w.read, t.entries =
    (w.captured.filter fun r => decide (r.sourceTxId = t.sourceTxId)).map SplitLogRow.entry
  ids : w.read.Pairwise fun t t' => t.sourceTxId < t'.sourceTxId
  /-- The next read brings something, or says that it is done and then there was nothing more. -/
  next : ∀ schema b s',
    (readTailBatch ν schema migId w.cursor TAIL_BATCH_LIMIT).Returns w.source b s' →
    (b.done = true → tailEntries (w.read ++ b.transactions) = w.captured.map SplitLogRow.entry) ∧
      (b.done = false → b.transactions ≠ [])

theorem Inv.faithful (h : Inv migId w taken rest) : Faithful ν migId w := by
  have hleft : ∀ r ∈ rest, w.cursor < r.lsn := fun r hr => by
    rw [← h.unread] at hr
    exact (mem_unread.mp hr).2.2
  have hfilter : (w.captured.filter fun r => decide (r.lsn ≤ w.cursor)) = taken := by
    rw [h.captured, List.filter_append,
      List.filter_eq_self.mpr fun r hr => decide_eq_true (h.taken_le r hr),
      List.filter_eq_nil_iff.mpr fun r hr => by simpa using hleft r hr, List.append_nil]
  refine ⟨⟨h.sorted, by rw [hfilter]; exact h.entries⟩, ?_, fun t ht => ?_, h.ids, fun schema b s' hr => ?_⟩
  · rw [h.unread, h.captured, List.filter_append,
      List.filter_eq_nil_iff.mpr fun r hr => by simpa using h.taken_le r hr, List.nil_append,
      List.filter_eq_self.mpr fun r hr => decide_eq_true (hleft r hr)]
  · obtain ⟨hne, hown⟩ := h.own t ht
    obtain ⟨e, he⟩ := List.exists_mem_of_ne_nil _ hne
    have hentry : e ∈ taken.map SplitLogRow.entry := by
      rw [← h.entries]
      exact List.mem_flatMap.mpr ⟨t, ht, he⟩
    obtain ⟨a, ha, rfl⟩ := List.mem_map.mp hentry
    have htx : a.sourceTxId = t.sourceTxId := hown _ he
    have hother : (rest.filter fun r => decide (r.sourceTxId = t.sourceTxId)) = [] := by
      refine List.filter_eq_nil_iff.mpr fun r hr hid => ?_
      have := h.cuts a ha r hr
      rw [htx, of_decide_eq_true hid] at this
      exact lt_irrefl _ this
    rw [h.captured, List.filter_append, hother, List.append_nil,
      ← filter_tailEntries h.ids (fun t ht => (h.own t ht).2) ht, h.entries, List.filter_map]
    rfl
  · obtain ⟨-, rows, rest', hb⟩ := readTailBatch_returns h.rests.2.1 hr
    have hafter := h.read hb
    refine ⟨fun hdone => ?_, fun hmore hnil => ?_⟩
    · have hentries := hafter.entries
      have hcaptured := hafter.captured
      rw [hb.done.mp hdone, List.append_nil] at hcaptured
      rw [hentries, ← hcaptured]
    · have hrows : rows = [] := by
        obtain ⟨gs, rfl, htransactions, -, -⟩ := hb.envelopes
        rw [hnil] at htransactions
        rw [List.map_eq_nil_iff.mp htransactions.symm]
        rfl
      rw [hb.done.mpr (hb.progress hrows)] at hmore
      cases hmore

/-- Reading the tail while the source works loses nothing, repeats nothing and splits no source
transaction. -/
theorem tail_read_once {source : NewSource} {calls : List ReaderCall}
    (hallow : (new source.db).AllowsRun ν migId calls) :
    Faithful ν migId ((new source.db).run ν migId calls) := by
  obtain ⟨taken, rest, h⟩ := (Inv.new source migId).run hallow
  exact h.faithful

/-! ## Two notes -/

def notesSpec : TableSpec := ⟨"notes", "org", ["org", "body"]⟩

def notesDigest : String := String.ofList (List.replicate 64 'a')

def notesSchema : CdbSchema := ⟨[notesSpec], 1, fun _ => notesDigest, true, 1, 1, notesDigest⟩

def notesSplit : CdbReshardSplitIdentity where
  schemaVersion := 1
  schemaEpoch := 1
  schemaDigest := notesDigest
  recoveryGeneration := 0
  migId := "split-notes"
  rangeLo := 0
  rangeHi := 9
  role := .source
  tables := [notesSpec]

/-- A mutation that adds a note. -/
def addNote (mutId : String) : TailMutation where
  principalId := "user"
  mutId
  payloadHash := .empty
  schemaEpoch := 1
  placementVshard := some 3
  statements := [⟨[("notes", .insert fun c => if c = "org" then .text "acme" else .text mutId)], false⟩]
  outcome := .ok ⟨ByteArray.empty.push 1, Nat.one_pos⟩
  touchedKeys := "[]"
  nowMs := 5

def notesSource : NewSource where
  db := ⟨.empty, .empty, ⟨.empty, 0⟩, []⟩
  settled _ hp := by cases hp
  noRows _ hr := by cases hr
  noAccount _ hst := by cases hst

def notesCalls : List ReaderCall :=
  [.source (.begin notesSchema notesSplit 5), .source (.mutate (addNote "m1")),
    .source (.mutate (addNote "m2")), .read notesSchema]

theorem allowsRun_concat {calls : List ReaderCall} {call : ReaderCall} (h : w.AllowsRun ν migId calls)
    (hlast : (w.run ν migId calls).Allows migId call) : w.AllowsRun ν migId (calls ++ [call]) := by
  induction calls generalizing w with
  | nil => exact ⟨hlast, trivial⟩
  | cons first calls ih => exact ⟨h.1, ih h.2 hlast⟩

/-- Two notes are captured, read and acknowledged. -/
theorem tail_read_once_notes : Faithful Int "split-notes" ((new notesSource.db).run Int "split-notes"
    (notesCalls ++ [.source (.ackTail notesSchema "split-notes" 2 6)])) := by
  have hcursor : ((new notesSource.db).run Int "split-notes" notesCalls).cursor = 2 := by decide +kernel
  refine tail_read_once (allowsRun_concat ⟨fun _ _ _ h => h, fun _ _ _ h => h, fun _ _ _ h => h,
    trivial, trivial⟩ fun r _ hlt h => ?_)
  rw [hcursor] at hlt
  exact absurd h.2 (not_le.mpr hlt)

end TailReader

end Chardb.Reshard
