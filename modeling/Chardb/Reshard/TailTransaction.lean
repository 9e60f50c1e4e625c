import Chardb.OpLog.CapturedRow
import Chardb.Reshard.SplitLog

/-!
# Tail transactions

The envelope in which the rows of one source transaction go from the split log of a source to its
destination: its JSON, the byte budgets that a batch of envelopes has to keep to, and
`assertTailTransactions`, which every batch passes on its way. A batch that passes numbers its rows
without a gap.
-/

namespace Chardb.Reshard

open Chardb.Lib OpLog

structure TailEntry where
  sourceTxId : Int
  lsn : Int
  op : String
  tableName : String
  pk : String
  after : Option String
  before : Option String
  deriving DecidableEq

structure TailTransaction where
  sourceTxId : Int
  firstLsn : Int
  lastLsn : Int
  entries : List TailEntry
  deriving DecidableEq

/-- The rows of a batch. -/
def tailEntries (transactions : List TailTransaction) : List TailEntry :=
  transactions.flatMap TailTransaction.entries

/-- `transactions.at(-1)?.lastLsn ?? 0`. -/
def lastLsnOf (transactions : List TailTransaction) : Int :=
  (transactions.getLast?.map TailTransaction.lastLsn).getD 0

/-! ## As JSON -/

section
variable (ν : Type) [JsNumber ν]

omit [JsNumber ν] in
def optionJson : Option String → Json ν
  | none => .null
  | some s => .str s

def TailEntry.members (e : TailEntry) : List (String × Json ν) :=
  [("source_tx_id", .int e.sourceTxId), ("lsn", .int e.lsn), ("op", .str e.op),
    ("table_name", .str e.tableName), ("pk", .str e.pk), ("after", optionJson ν e.after),
    ("before", optionJson ν e.before)]

def TailEntry.toJson (e : TailEntry) : Json ν := .obj (e.members ν)

def TailTransaction.members (t : TailTransaction) : List (String × Json ν) :=
  [("sourceTxId", .int t.sourceTxId), ("firstLsn", .int t.firstLsn), ("lastLsn", .int t.lastLsn),
    ("entries", .arr (t.entries.map (TailEntry.toJson ν)))]

def TailTransaction.toJson (t : TailTransaction) : Json ν := .obj (t.members ν)

/-- `JSON.stringify(transaction)`. -/
def TailTransaction.json (t : TailTransaction) : String := (t.toJson ν).toText

end

section
variable {ν : Type} [JsNumber ν]

omit [JsNumber ν] in
/-- A member that is a string or `null`. -/
def nullableString? (members : List (String × Json ν)) (key : String) : Option (Option String) :=
  match Json.get? members key with
  | some .null => some none
  | some (.str s) => some (some s)
  | _ => none

def TailEntry.ofMembers? (members : List (String × Json ν)) : Option TailEntry := do
  let sourceTxId ← safeInt? members "source_tx_id"
  let lsn ← safeInt? members "lsn"
  let op ← string? members "op"
  let tableName ← string? members "table_name"
  let pk ← string? members "pk"
  let after ← nullableString? members "after"
  let before ← nullableString? members "before"
  some ⟨sourceTxId, lsn, op, tableName, pk, after, before⟩

def TailEntry.ofJson? : Json ν → Option TailEntry
  | .obj members => TailEntry.ofMembers? members
  | _ => none

/-- A member that is an array of rows. -/
def entries? (members : List (String × Json ν)) (key : String) : Option (List TailEntry) :=
  match Json.get? members key with
  | some (.arr elems) => elems.mapM TailEntry.ofJson?
  | _ => none

def TailTransaction.ofMembers? (members : List (String × Json ν)) : Option TailTransaction := do
  let sourceTxId ← safeInt? members "sourceTxId"
  let firstLsn ← safeInt? members "firstLsn"
  let lastLsn ← safeInt? members "lastLsn"
  let entries ← entries? members "entries"
  some ⟨sourceTxId, firstLsn, lastLsn, entries⟩

def TailTransaction.ofJson? : Json ν → Option TailTransaction
  | .obj members => TailTransaction.ofMembers? members
  | _ => none

end

variable (ν : Type) [JsNumber ν] in
/-- `JSON.parse(text) as TailTransaction`. -/
def TailTransaction.parse (text : String) : Option TailTransaction :=
  match (Json.parse text : Option (Json ν)) with
  | some j => TailTransaction.ofJson? j
  | none => none

/-! ## Budgets -/

def CDB_RESHARD_MAX_ROW_BYTES : Int := 262144
def CDB_RESHARD_MAX_BATCH_BYTES : Int := 1048576

section
variable {ν : Type} [JsNumber ν]

def reshardJsonBytes (value : Json ν) : Int := textBytes value.toText

/-- The loop of `assertReshardBatchBudget`, with the bytes so far. -/
def batchBudget (subject : String) (bytes : Int) : List (Json ν) → Except Thrown Int
  | [] => .ok bytes
  | value :: values =>
    if CDB_RESHARD_MAX_ROW_BYTES < reshardJsonBytes value then
      .error (phaseMismatch (subject ++ " row exceeds " ++ toString CDB_RESHARD_MAX_ROW_BYTES ++
        " UTF-8 bytes"))
    else if CDB_RESHARD_MAX_BATCH_BYTES < bytes + reshardJsonBytes value then
      .error (phaseMismatch (subject ++ " batch exceeds " ++ toString CDB_RESHARD_MAX_BATCH_BYTES ++
        " UTF-8 bytes"))
    else batchBudget subject (bytes + reshardJsonBytes value) values

def assertReshardBatchBudget (values : List (Json ν)) (subject : String) : Except Thrown Int :=
  batchBudget subject 0 values

def assertReshardEnvelopeBudget (value : Json ν) (subject : String) : Except Thrown Int :=
  if CDB_RESHARD_MAX_BATCH_BYTES < reshardJsonBytes value then
    .error (invalidArgs (subject ++ " envelope exceeds " ++ toString CDB_RESHARD_MAX_BATCH_BYTES ++
      " UTF-8 bytes"))
  else .ok (reshardJsonBytes value)

end

/-! ## The envelope check -/

/-- The envelope fits its rows, and follows the envelopes before it. -/
def TailTransaction.fits (t : TailTransaction) (previousLsn : Option Int) (seen : List Int) : Bool :=
  IsSafeInteger t.sourceTxId && t.sourceTxId ≠ 0 && IsSafeInteger t.firstLsn &&
    IsSafeInteger t.lastLsn && t.entries ≠ [] &&
    t.entries.head?.map TailEntry.lsn = some t.firstLsn &&
    t.entries.getLast?.map TailEntry.lsn = some t.lastLsn &&
    t.lastLsn - t.firstLsn + 1 = t.entries.length &&
    previousLsn.all (fun lsn => t.firstLsn = lsn + 1) && t.sourceTxId ∉ seen

/-- The loop over the rows of an envelope; answers the last LSN. -/
def assertTailEntries (sourceTxId : Int) : Option Int → List TailEntry → Except Thrown (Option Int)
  | previousLsn, [] => .ok previousLsn
  | previousLsn, e :: entries =>
    if e.sourceTxId ≠ sourceTxId ∨ previousLsn.any (fun lsn => e.lsn ≠ lsn + 1) = true then
      .error (invariantError "reshard tail transaction entries are invalid")
    else assertTailEntries sourceTxId (some e.lsn) entries

def assertTailTransactionsFrom (previousLsn : Option Int) (seen : List Int) :
    List TailTransaction → Except Thrown Unit
  | [] => .ok ()
  | t :: transactions =>
    if t.fits previousLsn seen = true then
      match assertTailEntries t.sourceTxId previousLsn t.entries with
      | .error e => .error e
      | .ok lsn => assertTailTransactionsFrom lsn (t.sourceTxId :: seen) transactions
    else .error (invariantError "reshard tail transaction envelope is invalid")

def assertTailTransactions (transactions : List TailTransaction) : Except Thrown Unit :=
  assertTailTransactionsFrom none [] transactions

/-! ## Numbers without a gap -/

/-- The numbers count up from `first`. -/
def CountsFrom : Int → List Int → Prop
  | _, [] => True
  | first, n :: ns => n = first ∧ CountsFrom (first + 1) ns

theorem CountsFrom.mem {first n : Int} {ns : List Int} (h : CountsFrom first ns) (hn : n ∈ ns) :
    first ≤ n ∧ n < first + ns.length := by
  induction ns generalizing first with
  | nil => cases hn
  | cons m ns ih =>
    obtain ⟨rfl, h⟩ := h
    rw [List.length_cons]
    rcases List.mem_cons.mp hn with rfl | hn
    · omega
    · have := ih h hn
      omega

theorem CountsFrom.pairwise {first : Int} {ns : List Int} (h : CountsFrom first ns) :
    ns.Pairwise (· < ·) := by
  induction ns generalizing first with
  | nil => exact List.Pairwise.nil
  | cons m ns ih =>
    obtain ⟨rfl, h⟩ := h
    refine List.pairwise_cons.mpr ⟨fun n hn => ?_, ih h⟩
    have := (h.mem hn).1
    omega

theorem CountsFrom.append {first : Int} {ns ms : List Int} (hn : CountsFrom first ns)
    (hm : CountsFrom (first + ns.length) ms) : CountsFrom first (ns ++ ms) := by
  induction ns generalizing first with
  | nil => simpa using hm
  | cons n ns ih =>
    obtain ⟨rfl, hn⟩ := hn
    refine ⟨rfl, ih hn ?_⟩
    rw [List.length_cons] at hm
    rwa [show n + 1 + (ns.length : Int) = n + ((ns.length + 1 : Nat) : Int) by omega]

/-! ## What a batch that passes looks like -/

/-- An envelope that fits its rows. -/
structure TailTransaction.Wf (t : TailTransaction) : Prop where
  id_safe : IsSafeInteger t.sourceTxId
  id_ne : t.sourceTxId ≠ 0
  first_safe : IsSafeInteger t.firstLsn
  last_safe : IsSafeInteger t.lastLsn
  counts : CountsFrom t.firstLsn (t.entries.map TailEntry.lsn)
  last_eq : t.lastLsn = t.firstLsn + t.entries.length - 1
  entries_pos : 0 < t.entries.length
  entry_id : ∀ e ∈ t.entries, e.sourceTxId = t.sourceTxId

namespace TailTransaction.Wf
variable {t : TailTransaction} {e : TailEntry}

theorem first_le_last (h : t.Wf) : t.firstLsn ≤ t.lastLsn := by
  have := h.last_eq
  have := h.entries_pos
  omega

theorem entry_bounds (h : t.Wf) (he : e ∈ t.entries) : t.firstLsn ≤ e.lsn ∧ e.lsn ≤ t.lastLsn := by
  have := h.counts.mem (List.mem_map_of_mem he)
  rw [List.length_map] at this
  have := h.last_eq
  omega

end TailTransaction.Wf

theorem assertTailEntries_ok {id first : Int} {entries : List TailEntry} {last : Option Int}
    (h : assertTailEntries id (some (first - 1)) entries = .ok last) :
    CountsFrom first (entries.map TailEntry.lsn) ∧ (∀ e ∈ entries, e.sourceTxId = id) ∧
      last = some (first + entries.length - 1) := by
  induction entries generalizing first with
  | nil =>
    cases h
    exact ⟨trivial, by simp, by simp⟩
  | cons e entries ih =>
    unfold assertTailEntries at h
    split at h
    · cases h
    · rename_i hc
      simp only [Option.any_some, decide_eq_true_eq, not_or, not_not] at hc
      obtain ⟨hid, hlsn⟩ := hc
      have hfirst : e.lsn = first := by omega
      rw [show some e.lsn = some (first + 1 - 1) by rw [hfirst]; congr 1; omega] at h
      obtain ⟨hcounts, hids, hlast⟩ := ih h
      refine ⟨⟨hfirst, hcounts⟩, ?_, ?_⟩
      · intro x hx
        rcases List.mem_cons.mp hx with rfl | hx
        · exact hid
        · exact hids x hx
      · rw [hlast, List.length_cons]
        congr 1
        omega

/-- What `fits` and the loop over the rows say together. -/
theorem fits_wf {t : TailTransaction} {previousLsn : Option Int} {seen : List Int}
    {last : Option Int} (h : t.fits previousLsn seen = true)
    (he : assertTailEntries t.sourceTxId previousLsn t.entries = .ok last) :
    t.Wf ∧ last = some t.lastLsn ∧ (∀ lsn ∈ previousLsn, t.firstLsn = lsn + 1) ∧
      t.sourceTxId ∉ seen := by
  unfold TailTransaction.fits at h
  simp only [Bool.and_eq_true, decide_eq_true_eq, ne_eq, decide_not, Bool.not_eq_true',
    decide_eq_false_iff_not] at h
  obtain ⟨⟨⟨⟨⟨⟨⟨⟨⟨hid, hid0⟩, hf⟩, hl⟩, hne⟩, hhead⟩, -⟩, hlen⟩, hprev⟩, hseen⟩ := h
  have hprev : ∀ lsn ∈ previousLsn, t.firstLsn = lsn + 1 := by
    rintro lsn rfl
    simpa using hprev
  have hpos : 0 < t.entries.length := List.length_pos_iff.mpr hne
  -- the first row has no row before it to be compared with, but its LSN is the first one
  have he' : assertTailEntries t.sourceTxId (some (t.firstLsn - 1)) t.entries = .ok last := by
    cases previousLsn with
    | some lsn =>
      rwa [show t.firstLsn - 1 = lsn by have := hprev lsn rfl; omega]
    | none =>
      cases hentries : t.entries with
      | nil => exact absurd hentries hne
      | cons e entries =>
        rw [hentries] at he hhead
        have hlsn : e.lsn = t.firstLsn := by simpa using hhead
        unfold assertTailEntries at he ⊢
        simpa [hlsn] using he
  obtain ⟨hcounts, hids, hlast⟩ := assertTailEntries_ok he'
  have hlast_eq : t.lastLsn = t.firstLsn + t.entries.length - 1 := by omega
  exact ⟨⟨hid, hid0, hf, hl, hcounts, hlast_eq, hpos, hids⟩, hlast_eq ▸ hlast, hprev, hseen⟩

/-- The envelopes of a batch fit their rows, follow each other without a gap, and are distinct. -/
structure Batch (transactions : List TailTransaction) : Prop where
  wf : ∀ t ∈ transactions, t.Wf
  ids_nodup : (transactions.map TailTransaction.sourceTxId).Nodup
  ordered : transactions.Pairwise fun t t' => t.lastLsn < t'.firstLsn
  counts : ∀ t ∈ transactions.head?, CountsFrom t.firstLsn ((tailEntries transactions).map TailEntry.lsn)

theorem assertTailTransactionsFrom_ok {transactions : List TailTransaction} {previousLsn : Option Int}
    {seen : List Int} (h : assertTailTransactionsFrom previousLsn seen transactions = .ok ()) :
    Batch transactions ∧ (∀ t ∈ transactions, t.sourceTxId ∉ seen) ∧
      (∀ lsn ∈ previousLsn, ∀ t ∈ transactions, lsn < t.firstLsn) ∧
      (∀ lsn ∈ previousLsn, CountsFrom (lsn + 1) ((tailEntries transactions).map TailEntry.lsn)) := by
  induction transactions generalizing previousLsn seen with
  | nil =>
    exact ⟨⟨by simp, List.nodup_nil, List.Pairwise.nil, by simp⟩, by simp, by simp,
      fun _ _ => trivial⟩
  | cons t transactions ih =>
    unfold assertTailTransactionsFrom at h
    split at h
    · rename_i hfits
      split at h
      · cases h
      · rename_i last hentries
        obtain ⟨hwf, rfl, hprev, hseen⟩ := fits_wf hfits hentries
        obtain ⟨hbatch, hids, hafter, hcounts⟩ := ih h
        have hcount : CountsFrom t.firstLsn
            ((tailEntries (t :: transactions)).map TailEntry.lsn) := by
          rw [tailEntries, List.flatMap_cons, List.map_append]
          refine hwf.counts.append ?_
          rw [List.length_map, show t.firstLsn + (t.entries.length : Int) = t.lastLsn + 1 by
            have := hwf.last_eq; omega]
          exact hcounts t.lastLsn rfl
        refine ⟨⟨?_, ?_, ?_, ?_⟩, ?_, ?_, ?_⟩
        · intro x hx
          rcases List.mem_cons.mp hx with rfl | hx
          · exact hwf
          · exact hbatch.wf x hx
        · rw [List.map_cons, List.nodup_cons]
          refine ⟨fun hmem => ?_, hbatch.ids_nodup⟩
          obtain ⟨x, hx, hxid⟩ := List.mem_map.mp hmem
          exact hids x hx (hxid ▸ List.mem_cons_self)
        · exact List.pairwise_cons.mpr ⟨hafter t.lastLsn rfl, hbatch.ordered⟩
        · rintro x hx
          obtain rfl : t = x := by simpa using hx
          exact hcount
        · intro x hx
          rcases List.mem_cons.mp hx with rfl | hx
          · exact hseen
          · exact fun hmem => hids x hx (List.mem_cons_of_mem _ hmem)
        · intro lsn hlsn x hx
          have hfirst := hprev lsn hlsn
          rcases List.mem_cons.mp hx with rfl | hx
          · omega
          · have := hafter t.lastLsn rfl x hx
            have := hwf.first_le_last
            omega
        · intro lsn hlsn
          rw [← hprev lsn hlsn]
          exact hcount
    · cases h

theorem assertTailTransactions_ok {transactions : List TailTransaction}
    (h : assertTailTransactions transactions = .ok ()) : Batch transactions :=
  (assertTailTransactionsFrom_ok h).1

namespace Batch
variable {transactions : List TailTransaction} {t : TailTransaction}

theorem mem_le_last (h : Batch transactions) (ht : t ∈ transactions) :
    t.lastLsn ≤ lastLsnOf transactions := by
  obtain ⟨init, last, rfl⟩ : ∃ init last, transactions = init ++ [last] :=
    List.eq_nil_or_concat' transactions |>.resolve_left (List.ne_nil_of_mem ht)
  have hlast : lastLsnOf (init ++ [last]) = last.lastLsn := by simp [lastLsnOf]
  rw [hlast]
  rcases List.mem_append.mp ht with ht | ht
  · have hlt : t.lastLsn < last.firstLsn :=
      (List.pairwise_append.mp h.ordered).2.2 t ht last List.mem_cons_self
    have := (h.wf last (by simp)).first_le_last
    omega
  · rw [List.mem_singleton.mp ht]

theorem entries_ordered (h : Batch transactions) :
    ((tailEntries transactions).map TailEntry.lsn).Pairwise (· < ·) := by
  cases hb : transactions with
  | nil => exact List.Pairwise.nil
  | cons t rest => exact hb ▸ (h.counts t (by rw [hb]; rfl)).pairwise

end Batch

end Chardb.Reshard
