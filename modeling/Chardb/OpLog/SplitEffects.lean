import Chardb.OpLog.AtMostOnce
import Chardb.OpLog.SplitStore

/-!
# What the split-oplog operations do

One lemma for each operation of the store: which rows of `_chardb_split_oplog` it adds
or prunes, how it moves the seed and the apply cursor, and what of the op-log it has
copied.
-/

namespace Chardb.OpLog

open Chardb.Lib Chardb.Reshard

variable {δ : Type} {ν : Type} [JsNumber ν]

/-! ## Vocabulary -/

variable (ν) in
/-- The captured form of a placed row. -/
def Encodes (bytes : ByteArray) (r : OpLogRow) : Prop :=
  ∃ v, r.placementVshard = some v ∧ IsVshard v ∧ encodeCapturedRow ν r v = .ok bytes

/-- A row is waiting under `migId` with this content. -/
def SplitDb.Retains (db : SplitDb) (migId : String) (bytes : ByteArray) : Prop :=
  ∃ e ∈ db.splitOplog, e.migId = migId ∧ e.oplogRow = bytes

/-- The seed columns of an accounting row. -/
structure Seed where
  after : Int
  max : Int
  done : Bool

def AccountingRow.seed (r : AccountingRow) : Seed := ⟨r.seedAfterEventId, r.seedMaxEventId, r.seedDone⟩

def SplitDb.seed? (db : SplitDb) (migId : String) : Option Seed :=
  (db.accounting.find? migId).map (·.seed)

/-- The seed has still to come to the row. -/
def Seed.Pending (s : Seed) (r : OpLogRow) : Prop :=
  s.done = false ∧ s.after < r.eventId ∧ (r.eventId : Int) ≤ s.max

/-- Rows with contents in `P` were appended for `migId`, behind all LSNs given out before. -/
structure Appends (migId : String) (P : ByteArray → Prop) (s s' : SplitDb) : Prop where
  splitState : s'.splitState = s.splitState
  kept : ∀ e ∈ s.splitOplog, e ∈ s'.splitOplog
  fresh : ∀ e ∈ s'.splitOplog, e ∈ s.splitOplog ∨
    (e.migId = migId ∧ P e.oplogRow ∧ s.lastLsn < e.lsn ∧ e.lsn ≤ s'.lastLsn)
  lastLsn : s.lastLsn ≤ s'.lastLsn

variable {migId : String} {P Q : ByteArray → Prop} {s s' s'' : SplitDb}

theorem Appends.refl (migId : String) (P : ByteArray → Prop) (s : SplitDb) : Appends migId P s s :=
  ⟨rfl, fun _ h => h, fun _ h => .inl h, le_rfl⟩

theorem Appends.trans (h : Appends migId P s s') (h' : Appends migId P s' s'') :
    Appends migId P s s'' where
  splitState := h'.splitState.trans h.splitState
  kept e he := h'.kept e (h.kept e he)
  fresh e he := by
    rcases h'.fresh e he with he | ⟨hm, hp, hlo, hhi⟩
    · rcases h.fresh e he with he | ⟨hm, hp, hlo, hhi⟩
      · exact .inl he
      · exact .inr ⟨hm, hp, hlo, hhi.trans h'.lastLsn⟩
    · exact .inr ⟨hm, hp, h.lastLsn.trans_lt hlo, hhi⟩
  lastLsn := h.lastLsn.trans h'.lastLsn

theorem Appends.mono (h : Appends migId P s s') (hPQ : ∀ b, P b → Q b) : Appends migId Q s s' :=
  { h with fresh := fun e he => (h.fresh e he).imp_right fun h => ⟨h.1, hPQ _ h.2.1, h.2.2⟩ }

theorem Appends.retains (h : Appends migId P s s') {bytes : ByteArray} (hr : s.Retains migId bytes) :
    s'.Retains migId bytes := by
  obtain ⟨e, he, hm, hb⟩ := hr
  exact ⟨e, h.kept e he, hm, hb⟩

theorem onSplit_returns {α : Type} {x : SplitTx α} {db db' : Cdb δ} {a : α} :
    (onSplit x).Returns db a db' ↔ ∃ s, x.Returns db.domain.split a s ∧
      db' = { db with domain := { db.domain with split := s } } := Tx.zoom_returns

/-! ## Capture -/

theorem requiredSourceAccounting_returns {row : AccountingRow}
    (h : (requiredSourceAccounting migId).Returns s row s') :
    s = s' ∧ s.accounting.find? migId = some row ∧ row.Valid := by
  simp only [requiredSourceAccounting, Tx.bind_returns, Tx.gets_returns, Tx.ofOption_returns,
    Tx.require_returns, Tx.pure_returns] at h
  obtain ⟨_, _, ⟨rfl, rfl⟩, r, _, ⟨hr, rfl⟩, _, _, ⟨hv, rfl⟩, rfl, rfl⟩ := h
  exact ⟨rfl, hr, hv⟩

theorem insertSplitOplog_returns {bytes : ByteArray} {nowMs lsn : Int}
    (h : (insertSplitOplog migId bytes nowMs).Returns s lsn s') :
    lsn = s.lastLsn + 1 ∧ s'.lastLsn = lsn ∧ s'.accounting = s.accounting ∧
      s'.splitState = s.splitState ∧
      ∀ e, e ∈ s'.splitOplog ↔ e ∈ s.splitOplog ∨ e = ⟨lsn, migId, bytes, nowMs⟩ := by
  simp only [insertSplitOplog, onSplitOplog, Tx.bind_returns, Tx.gets_returns, Tx.zoom_returns,
    Table.insert_returns, Tx.modify_returns, Tx.pure_returns] at h
  obtain ⟨_, _, ⟨rfl, rfl⟩, _, _, ⟨t, ht, rfl⟩, _, _, rfl, rfl, rfl⟩ := h
  exact ⟨rfl, rfl, rfl, rfl, fun e => Table.mem_insert ht⟩

/-- An update of one accounting row that leaves the seed columns alone keeps all seeds. -/
theorem seed?_update {t t' : AccountingTable} {p : AccountingRow → Bool}
    {f : AccountingRow → AccountingRow} (h : t.update? p f = some t')
    (hid : ∀ r, (f r).migId = r.migId) (hseed : ∀ r, (f r).seed = r.seed) (k : String) :
    (t'.find? k).map (·.seed) = (t.find? k).map (·.seed) := by
  rw [Table.find?_update h fun r _ _ => hid r, Option.map_map]
  congr 1
  funext r
  show (if p r then f r else r).seed = r.seed
  split
  · exact hseed r
  · rfl

theorem captureFresh_returns {principalId mutId : String} {bytes : ByteArray} {nowMs : Int} {n : Nat}
    (h : (captureFresh migId principalId mutId bytes nowMs).Returns s n s') :
    Appends migId (· = bytes) s s' ∧ (∀ k, s'.seed? k = s.seed? k) ∧ s'.Retains migId bytes := by
  simp only [captureFresh, onAccounting, onKeys, Tx.bind_returns, Tx.zoom_returns,
    Table.update_returns, Table.insert_returns, Tx.require_returns, Tx.pure_returns] at h
  obtain ⟨row, _, hacc, changes, _, ⟨acc, ⟨hu, -⟩, rfl⟩, _, _, ⟨-, rfl⟩, lsn, mid, hins, _, _, ⟨-, rfl⟩,
    _, _, ⟨keys, -, rfl⟩, -, rfl⟩ := h
  obtain ⟨rfl, -, -⟩ := requiredSourceAccounting_returns hacc
  obtain ⟨rfl, hlast, hmacc, hstate, hmem⟩ := insertSplitOplog_returns hins
  have hlt : s.lastLsn < mid.lastLsn := by rw [hlast]; exact Int.lt_succ _
  refine ⟨⟨hstate, fun e he => (hmem e).mpr (.inl he), fun e he => ?_, hlt.le⟩, fun k => ?_,
    _, (hmem _).mpr (.inr rfl), rfl, rfl⟩
  · rcases (hmem e).mp he with he | rfl
    · exact .inl he
    · exact .inr ⟨rfl, rfl, Int.lt_succ _, hlast.ge⟩
  · show (mid.accounting.find? k).map (·.seed) = _
    rw [hmacc]
    exact seed?_update hu (fun _ => rfl) (fun _ => rfl) k

theorem captureEncoded_returns {principalId mutId : String} {bytes : ByteArray} {nowMs : Int}
    {n : Nat} (h : (captureEncodedForMigration migId principalId mutId bytes nowMs).Returns s n s') :
    Appends migId (· = bytes) s s' ∧ (∀ k, s'.seed? k = s.seed? k) ∧ s'.Retains migId bytes := by
  simp only [captureEncodedForMigration, Tx.bind_returns, Tx.gets_returns] at h
  obtain ⟨prior, _, ⟨-, rfl⟩, h⟩ := h
  cases prior with
  | none => exact captureFresh_returns h
  | some prior =>
    simp only [checkCaptured, Tx.bind_returns, Tx.gets_returns, Tx.require_returns,
      Tx.pure_returns] at h
    obtain ⟨captured, _, ⟨rfl, rfl⟩, _, _, ⟨hc, rfl⟩, -, rfl⟩ := h
    obtain ⟨e, he, hb⟩ := Option.map_eq_some_iff.mp hc
    obtain ⟨hfind, hm⟩ := Option.filter_eq_some_iff.mp he
    exact ⟨.refl .., fun _ => rfl, e, (Table.find?_eq_some.mp hfind).1, by simpa using hm, hb⟩

theorem ensureSourceAccounting_returns {nowMs : Int} {n : Nat}
    (hacc : (s.accounting.find? migId).isSome)
    (h : (ensureSourceAccounting migId nowMs).Returns s n s') : s' = s := by
  simp only [ensureSourceAccounting, onAccounting, Tx.zoom_returns] at h
  obtain ⟨t, h, rfl⟩ := h
  rcases Table.insertIgnore_returns.mp h with ⟨-, hi⟩ | ⟨-, -, rfl⟩
  · obtain ⟨row, hrow⟩ := Option.isSome_iff_exists.mp hacc
    obtain ⟨hmem, hkey⟩ := Table.find?_eq_some.mp hrow
    exact absurd hkey ((Table.insert?_fresh hi).1 row hmem)
  · rfl

theorem captureSplitOpLogOutcome_opLog {principalId mutId : String} {vshard nowMs : Int} {n : Nat}
    {db db' : Cdb δ}
    (h : (captureSplitOpLogOutcome ν principalId mutId vshard nowMs).Returns db n db') :
    db'.opLog = db.opLog := by
  simp only [captureSplitOpLogOutcome, assertVshard, Tx.bind_returns, Tx.require_returns,
    Tx.gets_returns] at h
  obtain ⟨_, _, ⟨-, rfl⟩, splits, _, ⟨-, rfl⟩, _, _, ⟨-, rfl⟩, h⟩ := h
  cases splits with
  | nil => rw [(Tx.pure_returns.mp h).2]
  | cons split rest =>
    simp only [captureForSplit, onSplit_returns, Tx.bind_returns, Tx.gets_returns,
      Tx.ofOption_returns, Tx.ofExcept_returns, Tx.require_returns] at h
    obtain ⟨_, _, ⟨-, rfl⟩, row, _, ⟨-, rfl⟩, bytes, _, ⟨-, rfl⟩, _, _, ⟨-, rfl⟩, _, _, ⟨s₁, -, rfl⟩,
      s₂, -, rfl⟩ := h
    rfl

/-- What a capture has done: nothing where no split covers the vshard, otherwise the row under the
key is waiting. -/
theorem captureSplitOpLogOutcome_returns {principalId mutId : String} {vshard nowMs : Int} {n : Nat}
    {db db' : Cdb δ} (hacc : ∀ r ∈ capturingSplits db.domain.split vshard,
      (db.domain.split.accounting.find? r.migId).isSome)
    (h : (captureSplitOpLogOutcome ν principalId mutId vshard nowMs).Returns db n db') :
    (capturingSplits db.domain.split vshard = [] ∧ db' = db) ∨
      ∃ split row bytes, capturingSplits db.domain.split vshard = [split] ∧
        db.opLog.rows.find? (principalId, mutId) = some row ∧ row.placementVshard = some vshard ∧
        Encodes ν bytes row ∧ Appends split.migId (· = bytes) db.domain.split db'.domain.split ∧
        (∀ k, db'.domain.split.seed? k = db.domain.split.seed? k) ∧
        db'.domain.split.Retains split.migId bytes := by
  simp only [captureSplitOpLogOutcome, assertVshard, Tx.bind_returns, Tx.require_returns,
    Tx.gets_returns] at h
  obtain ⟨_, _, ⟨hv, rfl⟩, splits, _, ⟨rfl, rfl⟩, _, _, ⟨hlen, rfl⟩, h⟩ := h
  rcases hs : capturingSplits db.domain.split vshard with _ | ⟨split, rest⟩
  · rw [hs] at h
    obtain ⟨-, rfl⟩ := Tx.pure_returns.mp h
    exact .inl ⟨rfl, rfl⟩
  · rw [hs] at h hlen
    obtain rfl : rest = [] := by
      rcases rest with _ | ⟨a, l⟩
      · rfl
      · simp at hlen
    have hrow := hacc split (by rw [hs]; exact List.mem_cons_self)
    simp only [captureForSplit, onSplit_returns, Tx.bind_returns, Tx.gets_returns,
      Tx.ofOption_returns, Tx.ofExcept_returns, Tx.require_returns] at h
    obtain ⟨_, _, ⟨rfl, rfl⟩, row, _, ⟨hfind, rfl⟩, bytes, _, ⟨henc, rfl⟩, _, _, ⟨-, rfl⟩, _, _,
      ⟨s₁, hens, rfl⟩, s₂, hcap, rfl⟩ := h
    obtain rfl := ensureSourceAccounting_returns hrow hens
    obtain ⟨happ, hseed, hret⟩ := captureEncoded_returns hcap
    have hplace : row.placementVshard = some vshard := (decodeCapturedRow_encode hv henc).2.placement
    exact .inr ⟨split, row, bytes, rfl, hfind, hplace, ⟨vshard, hplace, hv, henc⟩, happ, hseed, hret⟩

/-! ## Seeding -/

theorem seedRows_returns {nowMs : Int} {rows : List OpLogRow} {p p' : SeedProgress}
    (h : (seedRows ν migId nowMs rows p).Returns s p' s') :
    ∃ pre suf, rows = pre ++ suf ∧ Appends migId (fun b => ∃ r ∈ pre, Encodes ν b r) s s' ∧
      (∀ k, s'.seed? k = s.seed? k) ∧ (∀ r ∈ pre, ∃ b, Encodes ν b r ∧ s'.Retains migId b) ∧
      ((pre = [] ∧ p'.afterEventId = p.afterEventId) ∨ ∃ r ∈ pre, p'.afterEventId = r.eventId) := by
  induction rows generalizing s p with
  | nil =>
    obtain ⟨rfl, rfl⟩ := Tx.pure_returns.mp h
    exact ⟨[], [], rfl, .refl .., fun _ => rfl, by simp, .inl ⟨rfl, rfl⟩⟩
  | cons row rows ih =>
    simp only [seedRows, assertVshard, Tx.bind_returns, Tx.ofOption_returns, Tx.require_returns,
      Tx.ofExcept_returns] at h
    obtain ⟨v, _, ⟨hplace, rfl⟩, _, _, ⟨hv, rfl⟩, _, _, ⟨-, rfl⟩, bytes, _, ⟨henc, rfl⟩, _, _,
      ⟨-, rfl⟩, h⟩ := h
    rcases Tx.ite_returns.mp h with ⟨-, h⟩ | ⟨-, h⟩
    · obtain ⟨rfl, rfl⟩ := Tx.pure_returns.mp h
      exact ⟨[], row :: rows, rfl, .refl .., fun _ => rfl, by simp, .inl ⟨rfl, rfl⟩⟩
    · obtain ⟨captured, mid, hcap, h⟩ := Tx.bind_returns.mp h
      obtain ⟨happ, hseed, hret⟩ := captureEncoded_returns hcap
      obtain ⟨pre, suf, rfl, happ', hseed', hall, hafter⟩ := ih h
      have hrow : Encodes ν bytes row := ⟨v, hplace, hv, henc⟩
      refine ⟨row :: pre, suf, rfl, ?_, fun k => (hseed' k).trans (hseed k), ?_, ?_⟩
      · refine (happ.mono fun b hb => ⟨row, List.mem_cons_self, hb ▸ hrow⟩).trans
          (happ'.mono fun b hb => ?_)
        obtain ⟨r, hr, hb⟩ := hb
        exact ⟨r, List.mem_cons_of_mem _ hr, hb⟩
      · intro r hr
        rcases List.mem_cons.mp hr with rfl | hr
        · exact ⟨bytes, hrow, happ'.retains hret⟩
        · exact hall r hr
      · rcases hafter with ⟨-, hafter⟩ | ⟨r, hr, hafter⟩
        · exact .inr ⟨row, List.mem_cons_self, hafter⟩
        · exact .inr ⟨r, List.mem_cons_of_mem _ hr, hafter⟩

/-- Event ids identify the rows of a ledger. -/
def EventIds (log : Ledger) : Prop :=
  (∀ r ∈ log.rows, 1 ≤ r.eventId ∧ r.eventId ≤ log.lastEventId) ∧
    ∀ r ∈ log.rows, ∀ r' ∈ log.rows, r.eventId = r'.eventId → r = r'

theorem mem_pendingRows {log : Ledger} {state : SplitStateRow} {acc : AccountingRow} {r : OpLogRow} :
    r ∈ pendingRows log state acc ↔ r ∈ log.rows ∧ inRange state.rangeLo state.rangeHi r = true ∧
      acc.seedAfterEventId < r.eventId ∧ (r.eventId : Int) ≤ acc.seedMaxEventId := by
  simp [pendingRows]

/-- A pending row up to the last one of a prefix is in the prefix. -/
theorem mem_prefix_of_le {log : Ledger} {state : SplitStateRow} {acc : AccountingRow}
    (hids : EventIds log) {pre : List OpLogRow} (hpre : pre <+: pendingRows log state acc)
    {last r : OpLogRow} (hlast : last ∈ pre) (hr : r ∈ pendingRows log state acc)
    (hle : r.eventId ≤ last.eventId) : r ∈ pre := by
  have hlast' := (mem_pendingRows.mp (hpre.subset hlast)).1
  have hr' := (mem_pendingRows.mp hr).1
  have hsorted : (pendingRows log state acc).Pairwise fun a b => (a.eventId : Int) ≤ b.eventId :=
    Table.orderBy_sorted ..
  obtain ⟨suf, hsuf⟩ := hpre
  rw [← hsuf] at hr hsorted
  rcases List.mem_append.mp hr with hr | hr
  · exact hr
  · have hge := (List.pairwise_append.mp hsorted).2.2 last hlast r hr
    have heq : r = last := hids.2 r hr' last hlast' (by omega)
    rw [heq]; exact hlast

theorem initial_pendingRows {log : Ledger} {state : SplitStateRow} {acc : AccountingRow}
    {pre suf : List OpLogRow} (hpage : seedPage log state acc = pre ++ suf) :
    pre <+: pendingRows log state acc :=
  (List.prefix_append pre suf).trans (hpage ▸ List.take_prefix ..)

/-- After a page a pending row was captured or is still pending. -/
theorem pending_after_page {log : Ledger} {state : SplitStateRow} {acc : AccountingRow}
    (hids : EventIds log) (hroom : 1 ≤ CDB_SPLIT_OPLOG_MAX_ROWS - acc.retainedRows)
    {pre suf : List OpLogRow} (hpage : seedPage log state acc = pre ++ suf) {after : Int}
    (hafter : (pre = [] ∧ after = acc.seedAfterEventId) ∨ ∃ r ∈ pre, after = r.eventId)
    {r : OpLogRow} (hr : r ∈ pendingRows log state acc) :
    r ∈ pre ∨ Seed.Pending ⟨after, acc.seedMaxEventId,
      acc.seedMaxEventId ≤ after || (seedPage log state acc).isEmpty⟩ r := by
  have hne : (seedPage log state acc).isEmpty = false := by
    have hpos : 0 < (min CDB_SPLIT_OPLOG_MAX_BATCH_ROWS
        (CDB_SPLIT_OPLOG_MAX_ROWS - acc.retainedRows)).toNat := by
      unfold CDB_SPLIT_OPLOG_MAX_BATCH_ROWS; omega
    have := List.length_pos_of_mem hr
    rw [List.isEmpty_eq_false_iff, seedPage, ← List.length_pos_iff, List.length_take]
    omega
  obtain ⟨-, -, hlo, hhi⟩ := mem_pendingRows.mp hr
  have hstill : ∀ _ : after < r.eventId, Seed.Pending ⟨after, acc.seedMaxEventId,
      acc.seedMaxEventId ≤ after || (seedPage log state acc).isEmpty⟩ r := by
    intro h
    refine ⟨?_, h, hhi⟩
    rw [hne, Bool.or_false, decide_eq_false_iff_not]
    omega
  rcases hafter with ⟨-, rfl⟩ | ⟨last, hlast, rfl⟩
  · exact .inr (hstill hlo)
  · by_cases hle : r.eventId ≤ last.eventId
    · exact .inl (mem_prefix_of_le hids (initial_pendingRows hpage) hlast hr hle)
    · exact .inr (hstill (by omega))

/-- One page of the seed: the rows it was to come to are waiting, or it has still to come to them. -/
structure SeedsPage (ν : Type) [JsNumber ν] (migId : String) (lo hi : Int) (log : Ledger)
    (s s' : SplitDb) : Prop where
  appends : Appends migId (fun b => ∃ r ∈ log.rows, inRange lo hi r = true ∧ Encodes ν b r) s s'
  others : ∀ k, k ≠ migId → s'.seed? k = s.seed? k
  pending : ∀ sd, s.seed? migId = some sd → ∃ sd', s'.seed? migId = some sd' ∧
    ∀ r ∈ log.rows, inRange lo hi r = true → sd.Pending r →
      (∃ b, Encodes ν b r ∧ s'.Retains migId b) ∨ sd'.Pending r

theorem SeedsPage.refl (lo hi : Int) (log : Ledger) (s : SplitDb) :
    SeedsPage ν migId lo hi log s s :=
  ⟨.refl .., fun _ _ => rfl, fun sd hsd => ⟨sd, hsd, fun _ _ _ hp => .inr hp⟩⟩

theorem seedFromPage_returns {nowMs : Int} {n : Nat} {log : Ledger} {state : SplitStateRow}
    {acc : AccountingRow} (hids : EventIds log) (hacc : s.accounting.find? migId = some acc)
    (hroom : 1 ≤ CDB_SPLIT_OPLOG_MAX_ROWS - acc.retainedRows)
    (h : (seedFromPage ν migId nowMs acc (seedPage log state acc)).Returns s n s') :
    SeedsPage ν migId state.rangeLo state.rangeHi log s s' := by
  simp only [seedFromPage, onAccounting, Tx.bind_returns, Tx.zoom_returns, Table.update_returns,
    Tx.require_returns, Tx.pure_returns] at h
  obtain ⟨p, mid, hrows, changes, _, ⟨t, ⟨hu, rfl⟩, rfl⟩, _, _, ⟨hone, rfl⟩, -, rfl⟩ := h
  obtain ⟨pre, suf, hpage, happ, hseed, hall, hafter⟩ := seedRows_returns hrows
  have hpre := initial_pendingRows hpage
  refine ⟨⟨happ.splitState, happ.kept, fun e he => ?_, happ.lastLsn⟩, fun k hk => ?_, fun sd hsd => ?_⟩
  · refine (happ.fresh e he).imp_right fun hnew => ?_
    obtain ⟨hm, ⟨r, hr, hb⟩, hlsn⟩ := hnew
    have := mem_pendingRows.mp (hpre.subset hr)
    exact ⟨hm, ⟨r, this.1, this.2.1, hb⟩, hlsn⟩
  · rw [← hseed k]
    show (t.find? k).map (·.seed) = (mid.accounting.find? k).map (·.seed)
    rw [Table.find?_update hu fun _ _ _ => rfl, Option.map_map]
    cases hf : mid.accounting.find? k with
    | none => rfl
    | some r =>
      have hne : r.migId ≠ migId := by rw [(Table.find?_eq_some.mp hf).2]; exact hk
      simp [hne]
  · obtain rfl : acc.seed = sd := by
      rw [SplitDb.seed?, hacc] at hsd; exact Option.some.inj hsd
    obtain ⟨row, hrow, hrowseed⟩ : ∃ row, mid.accounting.find? migId = some row ∧
        row.seed = acc.seed := Option.map_eq_some_iff.mp ((hseed migId).trans hsd)
    have hmatch : (decide (row.seedAfterEventId = acc.seedAfterEventId) && !row.seedDone) = true := by
      rw [Table.select_key_length, hrow] at hone
      by_contra hp
      simp [hp] at hone
    refine ⟨⟨p.afterEventId, acc.seedMaxEventId, acc.seedMaxEventId ≤ p.afterEventId ||
      (seedPage log state acc).isEmpty⟩, ?_, fun r hr hin hpend =>
        (pending_after_page hids hroom hpage hafter
          (mem_pendingRows.mpr ⟨hr, hin, hpend.2⟩)).imp_left (hall r)⟩
    · have hmax : row.seedMaxEventId = acc.seedMaxEventId := congrArg Seed.max hrowseed
      show (t.find? migId).map (·.seed) = _
      rw [Table.find?_update hu fun _ _ _ => rfl, hrow, Option.map_some, Option.map_some, if_pos,
        ← hmax]
      · rfl
      · rw [hmatch, Bool.and_true]
        exact decide_eq_true (Table.find?_eq_some.mp hrow).2

/-- What `seedSplitOpLogPage` does to the shard. -/
theorem seedSplitOpLogPage_returns {nowMs : Int} {n : Nat} {db db' : Cdb δ} {lo hi : Int}
    (hids : EventIds db.opLog)
    (hstate : ∀ r, db.domain.split.splitState.find? migId = some r → r.rangeLo = lo ∧ r.rangeHi = hi)
    (h : (seedSplitOpLogPage ν migId nowMs).Returns db n db') :
    db'.opLog = db.opLog ∧ db'.domain.domain = db.domain.domain ∧
      SeedsPage ν migId lo hi db.opLog db.domain.split db'.domain.split := by
  simp only [seedSplitOpLogPage, Tx.bind_returns, onSplit_returns] at h
  obtain ⟨acc, _, ⟨s, hacc, rfl⟩, h⟩ := h
  obtain ⟨rfl, hacc, -⟩ := requiredSourceAccounting_returns hacc
  rcases Tx.ite_returns.mp h with ⟨-, h⟩ | ⟨-, h⟩
  · obtain ⟨-, rfl⟩ := Tx.pure_returns.mp h
    exact ⟨rfl, rfl, .refl ..⟩
  · simp only [seedSplitPage, assertRange, assertVshard, Tx.bind_returns, Tx.gets_returns,
      Tx.ofOption_returns, Tx.require_returns] at h
    obtain ⟨_, _, ⟨rfl, rfl⟩, state, _, ⟨hfind, rfl⟩, _, _, ⟨_, _, ⟨-, rfl⟩, _, _, ⟨-, rfl⟩, -, rfl⟩,
      _, _, ⟨rfl, rfl⟩, h⟩ := h
    obtain ⟨hfind, -⟩ := Option.filter_eq_some_iff.mp hfind
    obtain ⟨rfl, rfl⟩ := hstate state hfind
    rcases Tx.ite_returns.mp h with ⟨-, h⟩ | ⟨hroom, h⟩
    · obtain ⟨-, rfl⟩ := Tx.pure_returns.mp h
      exact ⟨rfl, rfl, .refl ..⟩
    · obtain ⟨s', hpage, rfl⟩ := onSplit_returns.mp h
      exact ⟨rfl, rfl, seedFromPage_returns hids hacc (by omega) hpage⟩

theorem le_maxEventId {log : Ledger} {lo hi : Int} {r : OpLogRow} (hr : r ∈ log.rows)
    (hin : inRange lo hi r = true) : (r.eventId : Int) ≤ maxEventId log lo hi := by
  have hmem : (r.eventId : Int) ∈ (log.rows.select (inRange lo hi)).map fun r => (r.eventId : Int) :=
    List.mem_map_of_mem (Table.mem_select.mpr ⟨hr, hin⟩)
  rw [maxEventId]
  cases hmax : ((log.rows.select (inRange lo hi)).map fun r => (r.eventId : Int)).max? with
  | none => rw [List.max?_eq_none_iff.mp hmax] at hmem; cases hmem
  | some n => exact (List.max?_eq_some_iff.mp hmax).2 _ hmem

theorem seedSplitOpLogRange_returns {migId : String} {lo hi nowMs : Int} {db db' : Cdb δ} {u : Unit}
    (hnow : 0 ≤ nowMs) (h : (seedSplitOpLogRange migId lo hi nowMs).Returns db u db') :
    ∃ accounting, db' = { db with domain := { db.domain with
        split := { db.domain.split with accounting } } } ∧
      db'.domain.split.seed? migId = some ((db.domain.split.seed? migId).getD
        ⟨0, maxEventId db.opLog lo hi, maxEventId db.opLog lo hi = 0⟩) := by
  simp only [seedSplitOpLogRange, assertRange, assertVshard, Tx.bind_returns, Tx.require_returns,
    Tx.gets_returns] at h
  obtain ⟨_, _, ⟨_, _, ⟨-, rfl⟩, _, _, ⟨-, rfl⟩, -, rfl⟩, existing, _, ⟨rfl, rfl⟩, _, _, ⟨rfl, rfl⟩, h⟩ := h
  rcases Tx.ite_returns.mp h with ⟨hsome, h⟩ | ⟨hnone, h⟩
  · obtain ⟨-, rfl⟩ := Tx.pure_returns.mp h
    obtain ⟨row, hrow⟩ := Option.isSome_iff_exists.mp hsome
    exact ⟨_, rfl, by rw [SplitDb.seed?, hrow]; rfl⟩
  · simp only [seedAccounting, onAccounting, onSplit_returns, Tx.bind_returns, Tx.require_returns,
      Tx.zoom_returns, Tx.pure_returns] at h
    obtain ⟨_, ⟨_, _, ⟨hmax, rfl⟩, n, _, ⟨t, ht, rfl⟩, -, rfl⟩, rfl⟩ := h
    have hfind : db.domain.split.accounting.find? migId = none := Option.not_isSome_iff_eq_none.mp hnone
    refine ⟨t, rfl, ?_⟩
    have := Table.insertIgnore_find? ht (by
      refine ⟨le_rfl, le_rfl, le_rfl, le_rfl, hmax.2, hnow⟩) migId
    show (t.find? migId).map (·.seed) = _
    rw [this, if_pos rfl, SplitDb.seed?, hfind]; rfl

/-! ## Reading -/

theorem takeEntries_returns {limit : Nat} {bytes : Int} {first : Bool} {rows : List SplitOplogRow}
    {entries : List SplitOpLogEntry} (h : (takeEntries limit bytes first rows).Returns s entries s') :
    s = s' ∧ ∃ pre, pre <+: rows ∧ entries = pre.map fun r => ⟨r.lsn, r.oplogRow⟩ := by
  induction rows generalizing limit bytes first entries with
  | nil =>
    cases limit <;> obtain ⟨rfl, rfl⟩ := Tx.pure_returns.mp h <;> exact ⟨rfl, [], List.nil_prefix, rfl⟩
  | cons row rows ih =>
    cases limit with
    | zero => obtain ⟨rfl, rfl⟩ := Tx.pure_returns.mp h; exact ⟨rfl, [], List.nil_prefix, rfl⟩
    | succ limit =>
      simp only [takeEntries, assertCursor, Tx.bind_returns, Tx.require_returns] at h
      obtain ⟨_, _, ⟨-, rfl⟩, _, _, ⟨-, rfl⟩, h⟩ := h
      rcases Tx.ite_returns.mp h with ⟨-, h⟩ | ⟨-, h⟩
      · obtain ⟨rfl, rfl⟩ := Tx.pure_returns.mp h
        exact ⟨rfl, [], List.nil_prefix, rfl⟩
      · simp only [Tx.bind_returns, Tx.pure_returns] at h
        obtain ⟨es, _, hes, rfl, rfl⟩ := h
        obtain ⟨rfl, pre, hpre, rfl⟩ := ih hes
        exact ⟨rfl, row :: pre, List.cons_prefix_cons.mpr ⟨rfl, hpre⟩, rfl⟩

/-- The entries are the waiting rows after an LSN, up to the last of them. -/
structure Contiguous (migId : String) (db : SplitDb) (afterLsn : Int)
    (entries : List SplitOpLogEntry) (lastLsn : Int) : Prop where
  sound : ∀ e ∈ entries, afterLsn < e.lsn ∧ e.lsn ≤ lastLsn
  complete : ∀ e ∈ db.splitOplog, e.migId = migId → afterLsn < e.lsn → e.lsn ≤ lastLsn →
    ⟨e.lsn, e.oplogRow⟩ ∈ entries

theorem mem_retainedAfter {afterLsn : Int} {e : SplitOplogRow} :
    e ∈ retainedAfter s migId afterLsn ↔ e ∈ s.splitOplog ∧ e.migId = migId ∧ afterLsn < e.lsn := by
  simp [retainedAfter]

/-- A prefix of the waiting rows is what lies up to its last one. -/
theorem contiguous_of_prefix {afterLsn : Int} {pre : List SplitOplogRow}
    (hpre : pre <+: retainedAfter s migId afterLsn) :
    Contiguous migId s afterLsn (pre.map fun r => ⟨r.lsn, r.oplogRow⟩)
      ((pre.getLast?.map (·.lsn)).getD afterLsn) := by
  have hsorted : (retainedAfter s migId afterLsn).Pairwise fun a b => a.lsn ≤ b.lsn :=
    Table.orderBy_sorted ..
  have hmem : ∀ e ∈ pre, e ∈ s.splitOplog ∧ e.migId = migId ∧ afterLsn < e.lsn :=
    fun e he => mem_retainedAfter.mp (hpre.subset he)
  obtain ⟨suf, hsuf⟩ := hpre
  rw [← hsuf] at hsorted
  obtain ⟨hpresorted, -, hbeyond⟩ := List.pairwise_append.mp hsorted
  rcases List.eq_nil_or_concat' pre with rfl | ⟨init, last, rfl⟩
  · exact ⟨by simp, fun e _ _ hlo hhi => absurd hhi (not_le.mpr hlo)⟩
  · rw [List.getLast?_concat, Option.map_some, Option.getD_some]
    refine ⟨fun e he => ?_, fun e he hm hlo hhi => List.mem_map.mpr ⟨e, ?_, rfl⟩⟩
    · obtain ⟨r, hr, rfl⟩ := List.mem_map.mp he
      refine ⟨(hmem r hr).2.2, ?_⟩
      rcases List.mem_append.mp hr with hr | hr
      · exact (List.pairwise_append.mp hpresorted).2.2 r hr last (List.mem_singleton_self last)
      · rw [List.mem_singleton.mp hr]
    · have hwait : e ∈ init ++ [last] ++ suf := hsuf ▸ mem_retainedAfter.mpr ⟨he, hm, hlo⟩
      rcases List.mem_append.mp hwait with hin | hout
      · exact hin
      · have hlast : last ∈ init ++ [last] := List.mem_append_right _ (List.mem_singleton_self last)
        have heq : e.lsn = last.lsn := le_antisymm hhi (hbeyond last hlast e hout)
        rw [Table.eq_of_key he (hmem last hlast).1 heq]
        exact hlast

/-- What a read answers. -/
structure ReadsBatch (migId : String) (db : SplitDb) (afterLsn : Int) (b : SplitOpLogBatch) : Prop where
  contiguous : Contiguous migId db afterLsn b.entries b.lastLsn
  waiting : ∀ e ∈ b.entries, ∃ r ∈ db.splitOplog, r.migId = migId ∧ r.lsn = e.lsn ∧
    r.oplogRow = e.oplogRow
  last : b.entries ≠ [] → ∃ e ∈ b.entries, e.lsn = b.lastLsn
  empty : b.entries = [] → b.lastLsn = afterLsn
  done : b.done = true → (∀ e ∈ db.splitOplog, e.migId = migId → e.lsn ≤ b.lastLsn) ∧
    ∃ sd, db.seed? migId = some sd ∧ sd.done = true

theorem readEntries_returns {afterLsn limit : Int} {b : SplitOpLogBatch}
    (h : (readEntries migId afterLsn limit).Returns s b s') :
    s = s' ∧ ReadsBatch migId s afterLsn b := by
  simp only [readEntries, Tx.bind_returns, Tx.gets_returns, Tx.pure_returns] at h
  obtain ⟨rows, _, ⟨rfl, rfl⟩, entries, _, hentries, remains, _, ⟨rfl, rfl⟩, acc, _, hacc, rfl, rfl⟩ := h
  obtain ⟨rfl, pre, hpre, rfl⟩ := takeEntries_returns hentries
  obtain ⟨rfl, hacc, -⟩ := requiredSourceAccounting_returns hacc
  have hpre := hpre.trans (List.take_prefix ..)
  have hlast : (((pre.map fun r => (⟨r.lsn, r.oplogRow⟩ : SplitOpLogEntry)).getLast?.map
      (·.lsn)).getD afterLsn) = (pre.getLast?.map (·.lsn)).getD afterLsn := by
    rw [List.getLast?_map, Option.map_map]; rfl
  refine ⟨rfl, hlast ▸ contiguous_of_prefix hpre, fun e he => ?_, fun hne => ?_, fun he => ?_,
    fun hdone => ⟨fun e he hm => ?_, acc.seed, ?_, ?_⟩⟩
  · obtain ⟨r, hr, rfl⟩ := List.mem_map.mp he
    obtain ⟨hr, hm, -⟩ := mem_retainedAfter.mp (hpre.subset hr)
    exact ⟨r, hr, hm, rfl, rfl⟩
  · refine ⟨_, List.getLast_mem hne, ?_⟩
    dsimp only
    rw [List.getLast?_eq_getLast_of_ne_nil hne]; rfl
  · dsimp only at he ⊢
    rw [he]; rfl
  · by_contra hlt
    have : e ∈ retainedAfter s migId _ := mem_retainedAfter.mpr ⟨he, hm, not_le.mp hlt⟩
    simp only [Bool.and_eq_true, List.isEmpty_iff] at hdone
    rw [hdone.1] at this
    cases this
  · rw [SplitDb.seed?, hacc]; rfl
  · exact (Bool.and_eq_true _ _ ▸ hdone : _ ∧ _).2

/-- What `readSplitOpLogBatch` does to the shard. -/
theorem readSplitOpLogBatch_returns {afterLsn limit nowMs : Int} {b : SplitOpLogBatch}
    {db db' : Cdb δ} {lo hi : Int} (hids : EventIds db.opLog)
    (hstate : ∀ r, db.domain.split.splitState.find? migId = some r → r.rangeLo = lo ∧ r.rangeHi = hi)
    (h : (readSplitOpLogBatch ν migId afterLsn limit nowMs).Returns db b db') :
    db'.opLog = db.opLog ∧ db'.domain.domain = db.domain.domain ∧
      SeedsPage ν migId lo hi db.opLog db.domain.split db'.domain.split ∧
      ReadsBatch migId db'.domain.split afterLsn b := by
  simp only [readSplitOpLogBatch, assertCursor, Tx.bind_returns, Tx.require_returns,
    onSplit_returns] at h
  obtain ⟨_, _, ⟨-, rfl⟩, _, _, ⟨-, rfl⟩, n, mid, hseed, s', hread, rfl⟩ := h
  obtain ⟨hlog, hdomain, hpage⟩ := seedSplitOpLogPage_returns hids hstate hseed
  obtain ⟨rfl, hbatch⟩ := readEntries_returns hread
  exact ⟨hlog, hdomain, hpage, hbatch⟩

/-! ## Pruning -/

/-- Rows of `migId` up to an LSN were dropped. -/
structure Prunes (migId : String) (throughLsn : Int) (s s' : SplitDb) : Prop where
  splitState : s'.splitState = s.splitState
  seed : ∀ k, s'.seed? k = s.seed? k
  lastLsn : s'.lastLsn = s.lastLsn
  sub : ∀ e ∈ s'.splitOplog, e ∈ s.splitOplog
  kept : ∀ e ∈ s.splitOplog, e ∈ s'.splitOplog ∨ (e.migId = migId ∧ e.lsn ≤ throughLsn)

theorem Prunes.refl (migId : String) (throughLsn : Int) (s : SplitDb) : Prunes migId throughLsn s s :=
  ⟨rfl, fun _ => rfl, rfl, fun _ he => he, fun _ he => .inl he⟩

theorem pruneAcked_returns {throughLsn nowMs : Int} {acc : AccountingRow}
    {span : List SplitOplogRow} {u : Unit}
    (h : (pruneAcked migId throughLsn nowMs acc span).Returns s u s') :
    Prunes migId throughLsn s s' := by
  simp only [pruneAcked, onKeys, onSplitOplog, onAccounting, Tx.bind_returns, Tx.require_returns,
    Tx.zoom_returns, Table.delete_returns, Table.update_returns] at h
  obtain ⟨_, _, ⟨-, rfl⟩, _, _, ⟨-, rfl⟩, _, _, ⟨-, rfl⟩, _, _, ⟨_, ⟨rfl, -⟩, rfl⟩, h⟩ := h
  obtain ⟨_, _, ⟨_, ⟨rfl, -⟩, rfl⟩, _, _, ⟨-, rfl⟩, _, _, ⟨acc', ⟨hu, -⟩, rfl⟩, -, rfl⟩ := h
  refine ⟨rfl, fun k => seed?_update hu (fun _ => rfl) (fun _ => rfl) k, rfl,
    fun e he => (Table.mem_deleteWhere.mp he).1, fun e he => ?_⟩
  by_cases hdel : (decide (e.migId = migId) && decide (e.lsn ≤ throughLsn)) = true
  · simp only [Bool.and_eq_true, decide_eq_true_eq] at hdel
    exact .inr hdel
  · exact .inl (Table.mem_deleteWhere.mpr ⟨he, Bool.eq_false_iff.mpr hdel⟩)

theorem ackSplitOpLog_returns {throughLsn nowMs : Int} {u : Unit}
    (h : (ackSplitOpLog migId throughLsn nowMs).Returns s u s') : Prunes migId throughLsn s s' := by
  simp only [ackSplitOpLog, assertCursor, Tx.bind_returns, Tx.require_returns] at h
  obtain ⟨_, _, ⟨-, rfl⟩, acc, _, hacc, _, _, ⟨-, rfl⟩, h⟩ := h
  obtain ⟨rfl, -, -⟩ := requiredSourceAccounting_returns hacc
  rcases Tx.ite_returns.mp h with ⟨-, h⟩ | ⟨-, h⟩
  · obtain ⟨-, rfl⟩ := Tx.pure_returns.mp h
    exact .refl ..
  · simp only [advanceAck, Tx.bind_returns, Tx.gets_returns, Tx.require_returns] at h
    obtain ⟨_, _, ⟨rfl, rfl⟩, _, _, ⟨-, rfl⟩, _, _, ⟨rfl, rfl⟩, h⟩ := h
    exact pruneAcked_returns h

/-! ## The destination -/

/-- How far the destination has come, 0 before it has begun. -/
def SplitDb.appliedLsn (db : SplitDb) (migId : String) : Int :=
  ((db.cursors.find? migId).map (·.appliedLsn)).getD 0

theorem SplitDb.appliedLsn_of_find {cursor : SplitOplogCursorRow}
    (h : s.cursors.find? migId = some cursor) : s.appliedLsn migId = cursor.appliedLsn := by
  rw [SplitDb.appliedLsn, h]; rfl

theorem requiredCursor_returns {cursor : SplitOplogCursorRow}
    (h : (requiredCursor migId).Returns s cursor s') :
    s = s' ∧ s.cursors.find? migId = some cursor := by
  simp only [requiredCursor, assertRange, assertVshard, assertCursor, Tx.bind_returns,
    Tx.gets_returns, Tx.ofOption_returns, Tx.require_returns, Tx.pure_returns] at h
  obtain ⟨_, _, ⟨rfl, rfl⟩, row, _, ⟨hrow, rfl⟩, _, _, ⟨_, _, ⟨-, rfl⟩, _, _, ⟨-, rfl⟩, -, rfl⟩, _, _,
    ⟨-, rfl⟩, rfl, rfl⟩ := h
  exact ⟨rfl, hrow⟩

theorem beginSplitOpLogDestination_returns {lo hi nowMs : Int} {u : Unit}
    (h : (beginSplitOpLogDestination migId lo hi nowMs).Returns s u s') :
    s'.splitState = s.splitState ∧ s'.appliedLsn migId = s.appliedLsn migId := by
  simp only [beginSplitOpLogDestination, assertRange, assertVshard, onCursors, Tx.bind_returns,
    Tx.require_returns, Tx.zoom_returns] at h
  obtain ⟨_, _, ⟨_, _, ⟨-, rfl⟩, _, _, ⟨-, rfl⟩, -, rfl⟩, n, _, ⟨t, ht, rfl⟩, cursor, _, hcursor, -,
    rfl⟩ := h
  obtain ⟨rfl, -⟩ := requiredCursor_returns hcursor
  refine ⟨rfl, ?_⟩
  rcases Table.insertIgnore_returns.mp ht with ⟨-, hi⟩ | ⟨-, -, rfl⟩
  · have hnone : s.cursors.find? migId = none := Table.find?_eq_none.mpr (Table.insert?_fresh hi).1
    rw [SplitDb.appliedLsn, SplitDb.appliedLsn, Table.find?_insert hi, if_pos rfl, hnone]; rfl
  · rfl

theorem decodeEntries_returns {σ : Type} {t t' : σ} {lo hi prev bytes : Int}
    {entries : List SplitOpLogEntry} {decoded : List (Int × CapturedOpLog)}
    (h : (decodeEntries ν lo hi prev bytes entries).Returns t decoded t') :
    t = t' ∧
      (∀ e ∈ entries, ∃ d ∈ decoded, e.lsn = d.1 ∧ decodeCapturedRow ν e.oplogRow = .ok d.2) ∧
      ∀ d ∈ decoded, ∃ e ∈ entries, e.lsn = d.1 ∧ decodeCapturedRow ν e.oplogRow = .ok d.2 := by
  induction entries generalizing prev bytes decoded with
  | nil => obtain ⟨rfl, rfl⟩ := Tx.pure_returns.mp h; exact ⟨rfl, by simp, by simp⟩
  | cons e entries ih =>
    unfold decodeEntries at h
    obtain ⟨_, _, h₁, h⟩ := Tx.bind_returns.mp h
    obtain ⟨-, rfl⟩ := Tx.require_returns.mp h₁
    obtain ⟨_, _, h₂, h⟩ := Tx.bind_returns.mp h
    obtain ⟨-, rfl⟩ := Tx.require_returns.mp h₂
    obtain ⟨_, _, h₃, h⟩ := Tx.bind_returns.mp h
    obtain ⟨-, rfl⟩ := Tx.require_returns.mp h₃
    obtain ⟨row, _, h₄, h⟩ := Tx.bind_returns.mp h
    obtain ⟨hrow, rfl⟩ := Tx.ofExcept_returns.mp h₄
    obtain ⟨_, _, h₅, h⟩ := Tx.bind_returns.mp h
    obtain ⟨-, rfl⟩ := Tx.require_returns.mp h₅
    obtain ⟨rows, _, hrows, h⟩ := Tx.bind_returns.mp h
    obtain ⟨rfl, rfl⟩ := Tx.pure_returns.mp h
    obtain ⟨rfl, hleft, hright⟩ := ih hrows
    refine ⟨rfl, fun e' he' => ?_, fun d hd => ?_⟩
    · rcases List.mem_cons.mp he' with rfl | he'
      · exact ⟨_, List.mem_cons_self, rfl, hrow⟩
      · obtain ⟨d, hd, h⟩ := hleft e' he'
        exact ⟨d, List.mem_cons_of_mem _ hd, h⟩
    · rcases List.mem_cons.mp hd with rfl | hd
      · exact ⟨e, List.mem_cons_self, rfl, hrow⟩
      · obtain ⟨e', he', h⟩ := hright d hd
        exact ⟨e', List.mem_cons_of_mem _ he', h⟩

/-- Captured rows were copied into the op-log, nothing else has changed there. -/
structure Copies (rows : List CapturedOpLog) (db db' : Cdb δ) : Prop where
  splitState : db'.domain.split.splitState = db.domain.split.splitState
  cursors : db'.domain.split.cursors = db.domain.split.cursors
  domain : db'.domain.domain = db.domain.domain
  kept : ∀ r ∈ db.opLog.rows, r ∈ db'.opLog.rows
  fresh : ∀ r ∈ db'.opLog.rows, r ∈ db.opLog.rows ∨ ∃ c ∈ rows, SameOpLogRow r c
  copied : ∀ c ∈ rows, ∃ r ∈ db'.opLog.rows, SameOpLogRow r c

theorem applyEntry_returns {row : CapturedOpLog} {inserted : Bool} {db db' : Cdb δ}
    (h : (applyEntry migId row).Returns db inserted db') : Copies [row] db db' := by
  simp only [applyEntry, checkExisting, onOpLog, onApplied, onSplit_returns, Tx.bind_returns,
    Tx.gets_returns, Tx.zoom_returns, Tx.require_returns, Tx.pure_returns] at h
  obtain ⟨prior, _, ⟨-, rfl⟩, changes, _, ⟨log, hins, rfl⟩, _, _, ⟨-, rfl⟩, _, _,
    ⟨existing, _, ⟨rfl, rfl⟩, hsame, rfl⟩, n, _, ⟨s', ⟨t, -, rfl⟩, rfl⟩, -, rfl⟩ := h
  rcases insertOrIgnore_returns hins with ⟨rfl, rfl, -⟩ | ⟨rfl, -, hrows⟩
  · refine ⟨rfl, rfl, rfl, fun _ hr => hr, fun _ hr => .inl hr, fun c hc => ?_⟩
    obtain ⟨r, hr, hsame⟩ := hsame.resolve_left (by decide)
    rw [List.mem_singleton.mp hc]
    exact ⟨r, (Table.find?_eq_some.mp hr).1, hsame⟩
  · refine ⟨rfl, rfl, rfl, fun r hr => (Table.mem_insert hrows).mpr (.inl hr), fun r hr => ?_,
      fun c hc => ?_⟩
    · refine ((Table.mem_insert hrows).mp hr).imp_right fun hr => ⟨row, List.mem_singleton_self _, ?_⟩
      rw [hr]; rfl
    · rw [List.mem_singleton.mp hc]
      exact ⟨_, (Table.mem_insert hrows).mpr (.inr rfl), rfl⟩

theorem applyEntries_returns {decoded : List (Int × CapturedOpLog)} {n : Nat} {db db' : Cdb δ}
    (h : (applyEntries migId decoded).Returns db n db') :
    Copies (decoded.map (·.2)) db db' := by
  induction decoded generalizing db n with
  | nil =>
    obtain ⟨-, rfl⟩ := Tx.pure_returns.mp h
    exact ⟨rfl, rfl, rfl, fun _ hr => hr, fun _ hr => .inl hr, by simp⟩
  | cons d decoded ih =>
    obtain ⟨lsn, row⟩ := d
    simp only [applyEntries, Tx.bind_returns, Tx.pure_returns] at h
    obtain ⟨inserted, mid, hone, m, _, hrest, -, rfl⟩ := h
    have h₁ := applyEntry_returns hone
    have h₂ := ih hrest
    refine ⟨h₂.splitState.trans h₁.splitState, h₂.cursors.trans h₁.cursors,
      h₂.domain.trans h₁.domain, fun r hr => h₂.kept r (h₁.kept r hr), fun r hr => ?_, fun c hc => ?_⟩
    · rcases h₂.fresh r hr with hr | ⟨c, hc, hs⟩
      · refine (h₁.fresh r hr).imp_right fun hnew => ?_
        obtain ⟨c, hc, hs⟩ := hnew
        rw [List.mem_singleton.mp hc] at hs
        exact ⟨row, List.mem_cons_self, hs⟩
      · exact .inr ⟨c, List.mem_cons_of_mem _ hc, hs⟩
    · rcases List.mem_cons.mp hc with rfl | hc
      · obtain ⟨r, hr, hs⟩ := h₁.copied _ (List.mem_singleton_self _)
        exact ⟨r, h₂.kept r hr, hs⟩
      · exact h₂.copied c hc

/-- What an apply has done. -/
structure AppliesBatch (ν : Type) [JsNumber ν] (migId : String) (entries : List SplitOpLogEntry)
    (res : SplitOpLogApplyResult) (db db' : Cdb δ) : Prop where
  splitState : db'.domain.split.splitState = db.domain.split.splitState
  kept : ∀ r ∈ db.opLog.rows, r ∈ db'.opLog.rows
  fresh : ∀ r ∈ db'.opLog.rows, r ∈ db.opLog.rows ∨
    ∃ e ∈ entries, ∃ c, decodeCapturedRow ν e.oplogRow = .ok c ∧ SameOpLogRow r c
  copied : ∀ e ∈ entries, ∃ c, decodeCapturedRow ν e.oplogRow = .ok c ∧
    ∃ r ∈ db'.opLog.rows, SameOpLogRow r c
  cursor : db.domain.split.appliedLsn migId ≤ db'.domain.split.appliedLsn migId
  result : res.lastLsn ≤ db'.domain.split.appliedLsn migId
  reached : db'.domain.split.appliedLsn migId = db.domain.split.appliedLsn migId ∨
    ∃ e ∈ entries, e.lsn = db'.domain.split.appliedLsn migId

theorem advanceCursor_returns {cursor : SplitOplogCursorRow} {lastLsn nowMs : Int} {n : Nat} {u : Unit}
    (hcursor : s.cursors.find? migId = some cursor)
    (h : (advanceCursor migId cursor lastLsn n nowMs).Returns s u s') :
    s'.splitState = s.splitState ∧ s'.appliedLsn migId = lastLsn := by
  simp only [advanceCursor, onCursors, Tx.bind_returns, Tx.zoom_returns, Table.update_returns,
    Tx.require_returns] at h
  obtain ⟨changes, _, ⟨t, ⟨hu, -⟩, rfl⟩, -, rfl⟩ := h
  refine ⟨rfl, ?_⟩
  show ((t.find? migId).map (·.appliedLsn)).getD 0 = lastLsn
  rw [Table.find?_update hu fun _ _ _ => rfl, hcursor, Option.map_some, if_pos]
  · rfl
  · simp [(Table.find?_eq_some.mp hcursor).2]

theorem applySplitOpLogBatch_returns {lo hi nowMs : Int} {entries : List SplitOpLogEntry}
    {res : SplitOpLogApplyResult} {db db' : Cdb δ}
    (h : (applySplitOpLogBatch ν migId lo hi entries nowMs).Returns db res db') :
    AppliesBatch ν migId entries res db db' := by
  simp only [applySplitOpLogBatch, assertRange, assertVshard, onSplit_returns, Tx.bind_returns,
    Tx.require_returns] at h
  obtain ⟨_, _, ⟨_, _, ⟨-, rfl⟩, _, _, ⟨-, rfl⟩, -, rfl⟩, _, _, ⟨-, rfl⟩, cursor, _, ⟨s, hreq, rfl⟩,
    _, _, ⟨-, rfl⟩, decoded, _, hdec, _, _, ⟨-, rfl⟩, applied, mid, happ, h⟩ := h
  obtain ⟨rfl, hcursor⟩ := requiredCursor_returns hreq
  obtain ⟨rfl, hleft, hright⟩ := decodeEntries_returns hdec
  have hcop : Copies _ db mid := applyEntries_returns happ
  have hcur : mid.domain.split.cursors.find? migId = some cursor := by rw [hcop.cursors]; exact hcursor
  have hfresh : ∀ r ∈ mid.opLog.rows, r ∈ db.opLog.rows ∨
      ∃ e ∈ entries, ∃ c, decodeCapturedRow ν e.oplogRow = .ok c ∧ SameOpLogRow r c := by
    refine fun r hr => (hcop.fresh r hr).imp_right fun hnew => ?_
    obtain ⟨c, hc, hs⟩ := hnew
    obtain ⟨d, hd, rfl⟩ := List.mem_map.mp hc
    obtain ⟨e, he, -, hed⟩ := hright d hd
    exact ⟨e, he, d.2, hed, hs⟩
  have hcopied : ∀ e ∈ entries, ∃ c, decodeCapturedRow ν e.oplogRow = .ok c ∧
      ∃ r ∈ mid.opLog.rows, SameOpLogRow r c := by
    intro e he
    obtain ⟨d, hd, -, hed⟩ := hleft e he
    exact ⟨d.2, hed, hcop.copied d.2 (List.mem_map_of_mem hd)⟩
  have hcur₀ := SplitDb.appliedLsn_of_find hcursor
  rcases Tx.ite_returns.mp h with ⟨hlt, h⟩ | ⟨hge, h⟩
  · simp only [Tx.bind_returns, onSplit_returns, Tx.pure_returns] at h
    obtain ⟨_, _, ⟨s', hadv, rfl⟩, rfl, rfl⟩ := h
    obtain ⟨hstate, hlast⟩ := advanceCursor_returns hcur hadv
    refine ⟨hstate.trans hcop.splitState, hcop.kept, hfresh, hcopied, ?_, hlast.ge, .inr ?_⟩
    · rw [hcur₀]; exact hlast.ge.trans' hlt.le
    · obtain ⟨d, hd, hd'⟩ : ∃ d ∈ decoded, d.1 = s'.appliedLsn migId := by
        rw [hlast]
        rcases List.eq_nil_or_concat' decoded with rfl | ⟨init, last, rfl⟩
        · exact absurd hlt (lt_irrefl _)
        · exact ⟨last, by simp, by simp⟩
      obtain ⟨e, he, hlsn, -⟩ := hright d hd
      exact ⟨e, he, hlsn.trans hd'⟩
  · obtain ⟨rfl, rfl⟩ := Tx.pure_returns.mp h
    have hsame : mid.domain.split.appliedLsn migId = db.domain.split.appliedLsn migId := by
      rw [SplitDb.appliedLsn, SplitDb.appliedLsn, hcop.cursors]
    exact ⟨hcop.splitState, hcop.kept, hfresh, hcopied, hsame.ge,
      (not_lt.mp hge).trans (hcur₀.ge.trans hsame.ge), .inl hsame⟩

end Chardb.OpLog
