import Chardb.AuthEpochs.Handoff
import Chardb.Lib.Paging

/-!
# Pages of shards

A page holds the next shards of the inventory after the cursor. The rows are sorted by SQLite, the page
by JavaScript; shard ids are ASCII, where both orders agree, so that a shard the page leaves out comes
after all that it holds.
-/

namespace Chardb.AuthEpochs

open Chardb.Lib Chardb.Live Chardb.Catalog

/-! ## The two orders -/

/-- All characters are single code units. -/
def SingleUnits (s : String) : Prop := ∀ c ∈ s.toList, c.toNat < 0x10000

theorem singleUnits_of_isMigrationId {s : String} (h : isMigrationId s = true) : SingleUnits s := by
  have hsmall : ∀ c : Char, c.isAlphanum = true → c.toNat < 0x10000 := by
    intro c hc
    have hval : c.toNat = c.val.toNat := rfl
    have hbound : ∀ hi : UInt32, hi.toNat < 0x10000 → c.val ≤ hi → c.toNat < 0x10000 := by
      intro hi hhi hle
      rw [hval]
      exact (UInt32.le_iff_toNat_le.mp hle).trans_lt hhi
    rcases Bool.or_eq_true_iff.mp (show (c.isAlpha || c.isDigit) = true from hc) with halpha | hdigit
    · rcases Bool.or_eq_true_iff.mp (show (c.isUpper || c.isLower) = true from halpha) with hup | hlow
      · have hboth : c.val ≥ 'A'.val ∧ c.val ≤ 'Z'.val := of_decide_eq_true hup
        exact hbound _ (by decide) hboth.2
      · have hboth : (decide (c.val ≥ 'a'.val) && decide (c.val ≤ 'z'.val)) = true := hlow
        exact hbound _ (by decide) (of_decide_eq_true (Bool.and_eq_true_iff.mp hboth).2)
    · have hboth : (decide (c.val ≥ '0'.val) && decide (c.val ≤ '9'.val)) = true := hdigit
      exact hbound _ (by decide) (of_decide_eq_true (Bool.and_eq_true_iff.mp hboth).2)
  unfold isMigrationId isIdOver at h
  intro c hc
  split at h
  · cases h
  · rename_i c₀ cs hcs
    simp only [Bool.and_eq_true, List.all_eq_true, Bool.or_eq_true, beq_iff_eq] at h
    rw [hcs] at hc
    rcases List.mem_cons.mp hc with rfl | hc
    · exact hsmall _ h.1.1
    · rcases h.2 c hc with (((h | rfl) | rfl) | rfl) | rfl
      · exact hsmall _ h
      · decide
      · decide
      · decide
      · decide

theorem utf16_eq_map {s : String} (h : SingleUnits s) : utf16 s = s.toList.map Char.toNat := by
  unfold utf16
  have hone : ∀ l : List Char, (∀ c ∈ l, c.toNat < 0x10000) → l.flatMap utf16Char = l.map Char.toNat := by
    intro l hl
    induction l with
    | nil => rfl
    | cons c l ih =>
      rw [List.flatMap_cons, List.map_cons, ih fun c hc => hl c (List.mem_cons_of_mem _ hc), utf16Char,
        if_pos (hl c List.mem_cons_self)]
      rfl
  exact hone s.toList h

theorem map_toNat_lt_iff (l m : List Char) : l.map Char.toNat < m.map Char.toNat ↔ l < m := by
  induction l generalizing m with
  | nil =>
    cases m with
    | nil => simp
    | cons d m => simp
  | cons c l ih =>
    cases m with
    | nil => simp
    | cons d m =>
      have hlt : c.toNat < d.toNat ↔ c < d := UInt32.lt_iff_toNat_lt.symm
      have heq : c.toNat = d.toNat ↔ c = d :=
        ⟨fun h => Char.ext (UInt32.toNat_inj.mp h), fun h => congrArg _ h⟩
      rw [List.map_cons, List.map_cons, List.cons_lt_cons_iff, List.cons_lt_cons_iff, ih, hlt, heq]

/-- On shard ids the order of JavaScript is the order of SQLite. -/
theorem utf16_lt_iff {a b : String} (ha : isMigrationId a = true) (hb : isMigrationId b = true) :
    utf16 a < utf16 b ↔ a < b := by
  rw [utf16_eq_map (singleUnits_of_isMigrationId ha), utf16_eq_map (singleUnits_of_isMigrationId hb),
    map_toNat_lt_iff]
  exact String.lt_iff_toList_lt.symm

/-! ## What a page holds -/

/-- The cursor comes before the shard. -/
def BeforeShard (cursor : Option String) (shardId : String) : Prop := ∀ c ∈ cursor, c < shardId

variable {s : AuthCatalog} {cursor : Option String} {shardId : String}

theorem mem_listShardIdsPage {limit : Nat} (h : shardId ∈ listShardIdsPage s cursor limit) :
    ∃ r ∈ s.db.ranges.rows, r.shardId = shardId := by
  have hmem := List.mem_of_mem_take h
  rw [List.mem_insertionSort, List.mem_filter, List.mem_dedup] at hmem
  exact List.mem_map.mp hmem.1

theorem mem_shardPage (h : shardId ∈ shardPage s cursor) : s.Inventory shardId := by
  have hmem := List.mem_of_mem_take h
  rw [mem_sortStrings, List.mem_dedup, List.mem_append] at hmem
  rcases hmem with hrow | hpart
  · exact .inl (mem_listShardIdsPage hrow)
  · unfold laterParticipants at hpart
    split at hpart
    · cases hpart
    · rename_i o ho
      have hmem := (List.mem_filter.mp hpart).1
      refine .inr ⟨o, ho, ?_⟩
      simpa using hmem

theorem sortStrings_sorted (l : List String) :
    (sortStrings l).Pairwise fun a b => utf16 a ≤ utf16 b := by
  have : Std.Total fun a b : String => utf16 a ≤ utf16 b := ⟨fun a b => le_total (utf16 a) (utf16 b)⟩
  have : IsTrans String fun a b => utf16 a ≤ utf16 b := ⟨fun _ _ _ hab hbc => hab.trans hbc⟩
  exact List.pairwise_insertionSort _ l

/-- A shard after the cursor is on the page, or the page ends before it. -/
theorem shardPage_covers (hids : ∀ id, s.Inventory id → isMigrationId id = true)
    (hcursor : ∀ c ∈ cursor, isMigrationId c = true) (hin : s.Inventory shardId)
    (hafter : BeforeShard cursor shardId) :
    shardId ∈ shardPage s cursor ∨
      ∃ last, (shardPage s cursor).getLast? = some last ∧ last < shardId := by
  have hmem : ∀ id, id ∈ shardPage s cursor → isMigrationId id = true := fun id hid =>
    hids id (mem_shardPage hid)
  -- it is enough that the page is not empty and stays before the shard
  have henough : (shardPage s cursor ≠ [] ∧ ∀ y ∈ shardPage s cursor, utf16 y < utf16 shardId) →
      ∃ last, (shardPage s cursor).getLast? = some last ∧ last < shardId := by
    rintro ⟨hne, hbefore⟩
    refine ⟨_, List.getLast?_eq_some_getLast hne, ?_⟩
    have hlast := List.getLast_mem hne
    exact (utf16_lt_iff (hmem _ hlast) (hids _ hin)).mp (hbefore _ hlast)
  have hall : ∀ id, id ∈ listShardIdsPage s cursor CATALOG_AUTH_INVALIDATION_BATCH_SIZE ++
        laterParticipants s.activeTopology cursor →
      id ∈ sortStrings (listShardIdsPage s cursor CATALOG_AUTH_INVALIDATION_BATCH_SIZE ++
        laterParticipants s.activeTopology cursor).dedup := fun id hid =>
    mem_sortStrings.mpr (List.mem_dedup.mpr hid)
  have hsorted := sortStrings_sorted (listShardIdsPage s cursor CATALOG_AUTH_INVALIDATION_BATCH_SIZE ++
    laterParticipants s.activeTopology cursor).dedup
  -- a shard that was collected is on the page, or all of the page comes before it
  have hcollected : shardId ∈ listShardIdsPage s cursor CATALOG_AUTH_INVALIDATION_BATCH_SIZE ++
      laterParticipants s.activeTopology cursor →
      shardId ∈ shardPage s cursor ∨
        (shardPage s cursor ≠ [] ∧ ∀ y ∈ shardPage s cursor, utf16 y < utf16 shardId) := by
    intro hid
    by_cases hpage : shardId ∈ shardPage s cursor
    · exact .inl hpage
    rcases mem_take_or_after (n := CATALOG_AUTH_INVALIDATION_BATCH_SIZE) hsorted (hall _ hid)
      with hpage' | ⟨hlen, hle⟩
    · exact absurd hpage' hpage
    refine .inr ⟨?_, fun y hy => lt_of_le_of_ne (hle y hy) fun he => ?_⟩
    · intro hnil
      have hzero := congrArg List.length hnil
      unfold shardPage at hzero
      rw [List.length_take, List.length_nil] at hzero
      unfold CATALOG_AUTH_INVALIDATION_BATCH_SIZE at hzero hlen
      omega
    · exact hpage (utf16_injective he ▸ hy)
  rcases hin with hrow | ⟨o, ho, hpart⟩
  · have hrouted : shardId ∈ ((s.db.ranges.rows.map VshardRange.shardId).dedup.filter fun id =>
        cursor.all fun c => decide (c < id)).insertionSort (· ≤ ·) := by
      rw [List.mem_insertionSort, List.mem_filter, List.mem_dedup, List.mem_map]
      refine ⟨hrow, ?_⟩
      rw [Option.all_eq_true]
      exact fun c hc => decide_eq_true (hafter c hc)
    have hrows : (((s.db.ranges.rows.map VshardRange.shardId).dedup.filter fun id =>
        cursor.all fun c => decide (c < id)).insertionSort (· ≤ ·)).Pairwise fun a b => id a ≤ id b :=
      List.pairwise_insertionSort _ _
    rcases mem_take_or_after (n := CATALOG_AUTH_INVALIDATION_BATCH_SIZE) hrows hrouted
      with hfirst | ⟨hlen, hle⟩
    · exact (hcollected (List.mem_append_left _ hfirst)).imp_right henough
    · -- the rows before it fill the page
      by_cases hfirst : shardId ∈ listShardIdsPage s cursor CATALOG_AUTH_INVALIDATION_BATCH_SIZE
      · exact (hcollected (List.mem_append_left _ hfirst)).imp_right henough
      have hnodup : (listShardIdsPage s cursor CATALOG_AUTH_INVALIDATION_BATCH_SIZE).Nodup := by
        refine List.Nodup.sublist (List.take_sublist _ _) ?_
        exact (List.perm_insertionSort _ _).nodup_iff.mpr ((List.nodup_dedup _).filter _)
      have hlength : (listShardIdsPage s cursor CATALOG_AUTH_INVALIDATION_BATCH_SIZE).length =
          CATALOG_AUTH_INVALIDATION_BATCH_SIZE := by
        unfold listShardIdsPage
        rw [List.length_take]
        omega
      have hbefore := take_before (n := CATALOG_AUTH_INVALIDATION_BATCH_SIZE) (x := shardId) hsorted
        hnodup (fun y hy => ⟨hall y (List.mem_append_left _ hy),
          (utf16_lt_iff (hids y (.inl (mem_listShardIdsPage hy))) (hids _ (.inl hrow))).mpr
            (lt_of_le_of_ne (hle y hy) fun he => hfirst (he ▸ hy))⟩) hlength.ge
      refine .inr (henough ⟨fun hnil => ?_, hbefore⟩)
      have hsub : (listShardIdsPage s cursor CATALOG_AUTH_INVALIDATION_BATCH_SIZE) ≠ [] := fun h => by
        rw [h] at hlength
        cases hlength
      obtain ⟨y, hy⟩ := List.exists_mem_of_ne_nil _ hsub
      have hlong := List.length_pos_of_mem (hall y (List.mem_append_left _ hy))
      have hzero := congrArg List.length hnil
      unfold shardPage at hzero
      rw [List.length_take, List.length_nil] at hzero
      unfold CATALOG_AUTH_INVALIDATION_BATCH_SIZE at hzero hlong
      omega
  · refine (hcollected (List.mem_append_right _ ?_)).imp_right henough
    unfold laterParticipants
    rw [ho]
    refine List.mem_filter.mpr ⟨by simpa using hpart, ?_⟩
    rw [Option.all_eq_true]
    exact fun c hc => decide_eq_true
      ((utf16_lt_iff (hcursor c hc) (hids _ (.inr ⟨o, ho, hpart⟩))).mpr (hafter c hc))

end Chardb.AuthEpochs
