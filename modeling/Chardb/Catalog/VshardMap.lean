import Chardb.Core.Errors
import Chardb.Core.Vshard
import Chardb.Lib.Tiling

/-!
# The vshard map

The sorted ranges of a `VshardMap` tile the vshard namespace: the constructor checks
it, and `split` builds the next map with the constructor. `routeVshard` is a binary
search over the ranges.
-/

namespace Chardb.Catalog

open Chardb.Lib

/-- Inclusive range `[lo, hi]`. -/
structure VshardRange where
  lo : Int
  hi : Int
  shardId : String
  deriving DecidableEq

/-- The ranges follow one another over the whole namespace. -/
def TilesVshards (ranges : List VshardRange) : Prop :=
  Tiles VshardRange.lo VshardRange.hi 0 VSHARD_COUNT ranges

/-- A `VshardMap` object. -/
structure VshardMap where
  ranges : List VshardRange
  tiles : TilesVshards ranges

theorem VshardMap.ext_ranges {m m' : VshardMap} (h : m.ranges = m'.ranges) : m = m' := by
  cases m; cases m'; cases h; rfl

/-! ## The constructor -/

/-- The place of a range: before the first one that does not start below it. -/
def placeRange (r : VshardRange) : List VshardRange → List VshardRange
  | [] => [r]
  | x :: xs => if x.lo < r.lo then x :: placeRange r xs else r :: x :: xs

def VshardRange.Valid (r : VshardRange) : Prop := 0 ≤ r.lo ∧ r.hi < VSHARD_COUNT ∧ r.lo ≤ r.hi

instance (r : VshardRange) : Decidable r.Valid := inferInstanceAs (Decidable (_ ∧ _))

def badRange (r : VshardRange) : Thrown :=
  .error ("bad vshard range [" ++ toString r.lo ++ ", " ++ toString r.hi ++ "]")

def insertSorted (ranges : List VshardRange) (r : VshardRange) : Except Thrown (List VshardRange) :=
  if r.Valid then .ok (placeRange r ranges) else .error (badRange r)

/-- The rest of `assertContiguous` after a range. -/
def assertContiguousFrom (prev : VshardRange) : List VshardRange → Except Thrown Unit
  | [] =>
    if prev.hi = VSHARD_COUNT - 1 then .ok ()
    else .error (.error ("vshard map does not end at " ++ toString (VSHARD_COUNT - 1)))
  | cur :: rest =>
    if cur.lo = prev.hi + 1 then assertContiguousFrom cur rest
    else .error (.error ("vshard map gap between " ++ toString prev.hi ++ " and " ++ toString cur.lo))

def assertContiguous : List VshardRange → Except Thrown Unit
  | [] => .error (.error "vshard map is empty")
  | first :: rest =>
    if first.lo = 0 then assertContiguousFrom first rest
    else .error (.error "vshard map does not start at 0")

theorem placeRange_perm (r : VshardRange) (l : List VshardRange) : (placeRange r l).Perm (r :: l) := by
  induction l with
  | nil => exact .refl _
  | cons x xs ih =>
    unfold placeRange
    split
    · exact (ih.cons x).trans (.swap r x xs)
    · exact .refl _

theorem placeRange_sorted (r : VshardRange) {l : List VshardRange}
    (h : l.Pairwise fun a b => a.lo ≤ b.lo) : (placeRange r l).Pairwise fun a b => a.lo ≤ b.lo := by
  induction l with
  | nil => exact List.pairwise_singleton _ r
  | cons x xs ih =>
    obtain ⟨hx, hxs⟩ := List.pairwise_cons.mp h
    unfold placeRange
    split
    · rename_i hlt
      refine List.pairwise_cons.mpr ⟨fun y hy => ?_, ih hxs⟩
      rcases List.mem_cons.mp ((placeRange_perm r xs).mem_iff.mp hy) with rfl | hy
      · omega
      · exact hx y hy
    · rename_i hle
      refine List.pairwise_cons.mpr ⟨fun y hy => ?_, h⟩
      rcases List.mem_cons.mp hy with rfl | hy
      · omega
      · have := hx y hy; omega

theorem insertAll_ok {initial ranges sorted : List VshardRange}
    (h : initial.foldlM insertSorted ranges = .ok sorted)
    (hs : ranges.Pairwise fun a b => a.lo ≤ b.lo) :
    sorted.Perm (initial ++ ranges) ∧ (sorted.Pairwise fun a b => a.lo ≤ b.lo) ∧
      ∀ r ∈ initial, r.Valid := by
  induction initial generalizing ranges with
  | nil => cases h; exact ⟨.refl _, hs, by simp⟩
  | cons r rest ih =>
    rw [List.foldlM_cons] at h
    by_cases hv : r.Valid
    · rw [insertSorted, if_pos hv] at h
      obtain ⟨hp, hsorted, hvalid⟩ := ih h (placeRange_sorted r hs)
      refine ⟨hp.trans ?_, hsorted, fun x hx => ?_⟩
      · exact ((placeRange_perm r ranges).append_left rest).trans List.perm_middle
      · rcases List.mem_cons.mp hx with rfl | hx
        · exact hv
        · exact hvalid x hx
    · rw [insertSorted, if_neg hv] at h; cases h

theorem insertAll_valid {initial : List VshardRange} (h : ∀ r ∈ initial, r.Valid)
    (ranges : List VshardRange) : ∃ sorted, initial.foldlM insertSorted ranges = .ok sorted := by
  induction initial generalizing ranges with
  | nil => exact ⟨ranges, rfl⟩
  | cons r rest ih =>
    obtain ⟨sorted, hs⟩ := ih (fun x hx => h x (List.mem_cons_of_mem _ hx)) (placeRange r ranges)
    refine ⟨sorted, ?_⟩
    rw [List.foldlM_cons, insertSorted, if_pos (h r List.mem_cons_self)]
    exact hs

theorem assertContiguousFrom_ok {prev : VshardRange} {rest : List VshardRange}
    (hv : ∀ r ∈ rest, r.Valid) : assertContiguousFrom prev rest = .ok () ↔
      Tiles VshardRange.lo VshardRange.hi (prev.hi + 1) VSHARD_COUNT rest := by
  induction rest generalizing prev with
  | nil =>
    unfold assertContiguousFrom Tiles
    split <;> simp <;> omega
  | cons cur rest ih =>
    have hcur := (hv cur List.mem_cons_self).2.2
    rw [assertContiguousFrom, Tiles]
    by_cases hlo : cur.lo = prev.hi + 1
    · rw [if_pos hlo, ih fun r hr => hv r (List.mem_cons_of_mem _ hr)]
      exact ⟨fun h => ⟨hlo, hcur, h⟩, fun h => h.2.2⟩
    · rw [if_neg hlo]
      constructor
      · intro h; cases h
      · intro h; exact absurd h.1 hlo

theorem assertContiguous_ok {ranges : List VshardRange} (hv : ∀ r ∈ ranges, r.Valid) :
    assertContiguous ranges = .ok () ↔ TilesVshards ranges := by
  cases ranges with
  | nil => simp [assertContiguous, TilesVshards, Tiles, VSHARD_COUNT]
  | cons first rest =>
    rw [assertContiguous, TilesVshards, Tiles]
    by_cases hlo : first.lo = 0
    · rw [if_pos hlo, assertContiguousFrom_ok fun r hr => hv r (List.mem_cons_of_mem _ hr)]
      exact ⟨fun h => ⟨hlo, (hv first List.mem_cons_self).2.2, h⟩, fun h => h.2.2⟩
    · rw [if_neg hlo]
      constructor
      · intro h; cases h
      · intro h; exact absurd h.1 hlo

/-- `new VshardMap(initial)`. -/
def VshardMap.make (initial : List VshardRange) : Except Thrown VshardMap :=
  match hs : initial.foldlM insertSorted [] with
  | .error e => .error e
  | .ok ranges =>
    match hc : assertContiguous ranges with
    | .error e => .error e
    | .ok () => .ok ⟨ranges, by
        obtain ⟨hp, -, hv⟩ := insertAll_ok hs .nil
        rw [List.append_nil] at hp
        exact (assertContiguous_ok fun r hr => hv r (hp.mem_iff.mp hr)).mp hc⟩

/-- The constructor keeps the ranges that it is given. -/
theorem VshardMap.make_perm {initial : List VshardRange} {m : VshardMap} (h : make initial = .ok m) :
    m.ranges.Perm initial := by
  unfold make at h
  split at h
  · cases h
  · rename_i ranges hs
    split at h
    · cases h
    · cases h
      simpa using (insertAll_ok hs .nil).1

theorem TilesVshards.valid {ranges : List VshardRange} (h : TilesVshards ranges) :
    ∀ r ∈ ranges, r.Valid := fun _ hr =>
  ⟨(h.bounds hr).1, (h.bounds hr).2.2, (h.bounds hr).2.1⟩

/-- The constructor accepts a tiling in any order. -/
theorem VshardMap.make_of_tiles {initial ranges : List VshardRange} (h : TilesVshards ranges)
    (hp : initial.Perm ranges) : make initial = .ok ⟨ranges, h⟩ := by
  have hv : ∀ r ∈ initial, r.Valid := fun r hr => h.valid r (hp.mem_iff.mp hr)
  obtain ⟨sorted, hs⟩ := insertAll_valid hv []
  obtain ⟨hperm, hsorted, -⟩ := insertAll_ok hs .nil
  rw [List.append_nil] at hperm
  obtain rfl : sorted = ranges := h.eq_of_perm hsorted (hperm.trans hp)
  have hc := (assertContiguous_ok h.valid).mpr h
  unfold make
  split
  · rename_i e he; rw [hs] at he; cases he
  · rename_i l hl
    obtain rfl : sorted = l := Except.ok.inj (hs.symm.trans hl)
    split
    · rename_i e he; rw [hc] at he; cases he
    · rfl

/-! ## Routing -/

def vshardOutOfRange (v : Int) : Thrown := .error ("vshard " ++ toString v ++ " out of range")

/-- The loop of `routeVshard`. -/
def searchRange (ranges : List VshardRange) (v lo hi : Int) : Option VshardRange :=
  if lo ≤ hi then
    match ranges[((lo + hi) / 2).toNat]? with
    | none => none
    | some r =>
      if v < r.lo then searchRange ranges v lo ((lo + hi) / 2 - 1)
      else if r.hi < v then searchRange ranges v ((lo + hi) / 2 + 1) hi
      else some r
  else none
termination_by (hi - lo + 1).toNat
decreasing_by all_goals omega

def VshardMap.routeVshard (m : VshardMap) (v : Int) : Except Thrown String :=
  if 0 ≤ v ∧ v < VSHARD_COUNT then
    match searchRange m.ranges v 0 (m.ranges.length - 1) with
    | some r => .ok r.shardId
    | none => .error (.error ("vshard " ++ toString v ++ " not routable (corrupt map)"))
  else .error (vshardOutOfRange v)

/-- The search finds the range that covers `v` wherever it is in the window. -/
theorem searchRange_eq {ranges : List VshardRange} {v lo hi : Int} {k : Nat} {r : VshardRange}
    (hsep : ranges.Pairwise fun a b => a.hi < b.lo) (hk : ranges[k]? = some r)
    (hc : Covers VshardRange.lo VshardRange.hi v r) (hvalid : ∀ x ∈ ranges, x.lo ≤ x.hi)
    (h₀ : 0 ≤ lo) (hlo : lo ≤ k) (hhi : k ≤ hi) (hlen : hi < ranges.length) :
    searchRange ranges v lo hi = some r := by
  have hsep' := List.pairwise_iff_getElem.mp hsep
  obtain ⟨hkl, hkr⟩ := List.getElem?_eq_some_iff.mp hk
  unfold Covers at hc
  fun_induction searchRange ranges v lo hi with
  | case1 lo hi hle hnone =>
    rw [List.getElem?_eq_none_iff] at hnone; omega
  | case2 lo hi hle x hx hlt ih =>
    -- the range in the middle starts above `v`: the covering one is to its left
    obtain ⟨hml, hmx⟩ := List.getElem?_eq_some_iff.mp hx
    have hkm : ¬ (lo + hi) / 2 ≤ (k : Int) := by
      intro hkm
      by_cases he : ((lo + hi) / 2).toNat = k
      · subst he; rw [hkr] at hmx; subst hmx; omega
      · have := hsep' _ _ hml hkl (by omega)
        have hxv := hvalid x (List.mem_of_getElem? hx)
        rw [hmx, hkr] at this; omega
    exact ih h₀ hlo (by omega) (by omega)
  | case3 lo hi hle x hx hge hgt ih =>
    obtain ⟨hml, hmx⟩ := List.getElem?_eq_some_iff.mp hx
    have hkm : ¬ (k : Int) ≤ (lo + hi) / 2 := by
      intro hkm
      by_cases he : ((lo + hi) / 2).toNat = k
      · subst he; rw [hkr] at hmx; subst hmx; omega
      · have := hsep' _ _ hkl hml (by omega)
        have hxv := hvalid x (List.mem_of_getElem? hx)
        rw [hmx, hkr] at this; omega
    exact ih (by omega) (by omega) hhi hlen
  | case4 lo hi hle x hx hge hle' =>
    obtain ⟨hml, hmx⟩ := List.getElem?_eq_some_iff.mp hx
    by_contra hne
    have hmk : ((lo + hi) / 2).toNat ≠ k := by
      intro he; subst he; rw [hkr] at hmx; exact hne (by rw [hmx])
    rcases Nat.lt_or_gt_of_ne hmk with h | h
    · have := hsep' _ _ hml hkl h
      rw [hmx, hkr] at this; omega
    · have := hsep' _ _ hkl hml h
      rw [hmx, hkr] at this; omega
  | case5 lo hi hgt => omega

/-- Every vshard has one range, and is routed to its shard. -/
theorem VshardMap.routeVshard_eq {m : VshardMap} {v : Int} {r : VshardRange} (hr : r ∈ m.ranges)
    (hc : Covers VshardRange.lo VshardRange.hi v r) : m.routeVshard v = .ok r.shardId := by
  obtain ⟨k, hk⟩ := List.mem_iff_getElem?.mp hr
  obtain ⟨hkl, -⟩ := List.getElem?_eq_some_iff.mp hk
  have hb := m.tiles.bounds hr
  have hs : searchRange m.ranges v 0 (m.ranges.length - 1) = some r :=
    searchRange_eq m.tiles.pairwise hk hc (fun x hx => (m.tiles.bounds hx).2.1) le_rfl
      (by omega) (by omega) (by omega)
  unfold Covers at hc
  rw [routeVshard, if_pos ⟨by omega, by omega⟩, hs]

theorem VshardMap.exists_covers (m : VshardMap) {v : Int} (h₀ : 0 ≤ v) (h₁ : v < VSHARD_COUNT) :
    ∃ r ∈ m.ranges, Covers VshardRange.lo VshardRange.hi v r := m.tiles.exists_covers h₀ h₁

/-! ## Splitting -/

/-- The target range with `[lo, hi]` taken out for `toShard`. -/
def carve (target : VshardRange) (lo hi : Int) (toShard : String) : List VshardRange :=
  (if target.lo < lo then [⟨target.lo, lo - 1, target.shardId⟩] else []) ++
    [⟨lo, hi, toShard⟩] ++
    if hi < target.hi then [⟨hi + 1, target.hi, target.shardId⟩] else []

def splitOutside (lo hi : Int) : Thrown :=
  .error ("split [" ++ toString lo ++ ", " ++ toString hi ++
    "] does not lie within a single existing range")

/-- The first range that holds all of `[lo, hi]`, with the ranges before and behind it. -/
def findTarget (lo hi : Int) : List VshardRange →
    Option (List VshardRange × VshardRange × List VshardRange)
  | [] => none
  | r :: rs =>
    if r.lo ≤ lo ∧ hi ≤ r.hi then some ([], r, rs)
    else (findTarget lo hi rs).map fun found => (r :: found.1, found.2)

def VshardMap.split (m : VshardMap) (lo hi : Int) (toShard : String) : Except Thrown VshardMap :=
  match findTarget lo hi m.ranges with
  | none => .error (splitOutside lo hi)
  | some (before, target, after) =>
    if target.shardId = toShard then
      .error (.error ("split target shard " ++ toShard ++ " matches source"))
    else make (before ++ (carve target lo hi toShard ++ after))

theorem findTarget_eq {ranges before after : List VshardRange} {target : VshardRange} {lo hi : Int}
    (h : findTarget lo hi ranges = some (before, target, after)) :
    ranges = before ++ target :: after ∧ target.lo ≤ lo ∧ hi ≤ target.hi := by
  induction ranges generalizing before with
  | nil => cases h
  | cons r rs ih =>
    unfold findTarget at h
    split at h
    · rename_i hr
      cases h
      exact ⟨rfl, hr⟩
    · obtain ⟨found, hf, he⟩ := Option.map_eq_some_iff.mp h
      obtain ⟨before', target', after'⟩ := found
      cases he
      obtain ⟨rfl, hb⟩ := ih hf
      exact ⟨rfl, hb⟩

theorem findTarget_append {before after : List VshardRange} {target : VshardRange} {lo hi : Int}
    (hno : ∀ r ∈ before, ¬ (r.lo ≤ lo ∧ hi ≤ r.hi)) (ht : target.lo ≤ lo ∧ hi ≤ target.hi) :
    findTarget lo hi (before ++ target :: after) = some (before, target, after) := by
  induction before with
  | nil => rw [List.nil_append, findTarget, if_pos ht]
  | cons r rs ih =>
    rw [List.cons_append, findTarget, if_neg (hno r List.mem_cons_self),
      ih fun x hx => hno x (List.mem_cons_of_mem _ hx)]
    rfl

theorem carve_tiles {target : VshardRange} {lo hi : Int} (toShard : String) (hlo : target.lo ≤ lo)
    (hle : lo ≤ hi) (hhi : hi ≤ target.hi) :
    Tiles VshardRange.lo VshardRange.hi target.lo (target.hi + 1) (carve target lo hi toShard) := by
  unfold carve
  by_cases h₁ : target.lo < lo <;> by_cases h₂ : hi < target.hi <;> simp [h₁, h₂, Tiles] <;> omega

/-- A split that goes through: where it cut, and what it made of it. -/
theorem VshardMap.split_ok {m m' : VshardMap} {lo hi : Int} {toShard : String} :
    m.split lo hi toShard = .ok m' ↔ ∃ before target after, m.ranges = before ++ target :: after ∧
      target.lo ≤ lo ∧ lo ≤ hi ∧ hi ≤ target.hi ∧ target.shardId ≠ toShard ∧
      m'.ranges = before ++ (carve target lo hi toShard ++ after) := by
  constructor
  · intro h
    unfold split at h
    split at h
    · cases h
    · rename_i before target after hf
      obtain ⟨hm, hlo, hhi⟩ := findTarget_eq hf
      split at h
      · cases h
      · rename_i hne
        -- the constructor refused an empty piece
        have hle : lo ≤ hi := by
          have hmem : (⟨lo, hi, toShard⟩ : VshardRange) ∈ m'.ranges :=
            (make_perm h).mem_iff.mpr (by simp [carve])
          exact (m'.tiles.bounds hmem).2.1
        have ht : TilesVshards (before ++ (carve target lo hi toShard ++ after)) :=
          Tiles.splice (hm ▸ m.tiles) (carve_tiles toShard hlo hle hhi)
        rw [make_of_tiles ht (.refl _)] at h
        exact ⟨before, target, after, hm, hlo, hle, hhi, hne, by cases h; rfl⟩
  · rintro ⟨before, target, after, hm, hlo, hle, hhi, hne, hm'⟩
    have hno : ∀ r ∈ before, ¬ (r.lo ≤ lo ∧ hi ≤ r.hi) := by
      have hsep := m.tiles.pairwise
      rw [hm] at hsep
      intro r hr
      have := (List.pairwise_append.mp hsep).2.2 r hr target List.mem_cons_self
      omega
    have ht : TilesVshards (before ++ (carve target lo hi toShard ++ after)) :=
      Tiles.splice (hm ▸ m.tiles) (carve_tiles toShard hlo hle hhi)
    rw [split, hm, findTarget_append hno ⟨hlo, hhi⟩]
    simp only [if_neg hne, make_of_tiles ht (.refl _)]
    exact congrArg _ (ext_ranges hm'.symm)

/-- After a split the taken out range is routed to its new shard and everything else as before. -/
theorem VshardMap.split_routes {m m' : VshardMap} {lo hi : Int} {toShard : String}
    (h : m.split lo hi toShard = .ok m') (v : Int) :
    m'.routeVshard v = if lo ≤ v ∧ v ≤ hi then .ok toShard else m.routeVshard v := by
  obtain ⟨before, target, after, hm, hlo, hle, hhi, -, hm'⟩ := split_ok.mp h
  have htarget : target ∈ m.ranges := by rw [hm]; simp
  have hb := m.tiles.bounds htarget
  split
  · rename_i hv
    exact routeVshard_eq (r := ⟨lo, hi, toShard⟩) (by rw [hm']; simp [carve]) hv
  · rename_i hv
    by_cases hin : 0 ≤ v ∧ v < VSHARD_COUNT
    · obtain ⟨r, hr, hc⟩ := m.exists_covers hin.1 hin.2
      rw [routeVshard_eq hr hc]
      by_cases hrt : r = target
      · -- one of the two pieces that the target shard keeps
        subst hrt
        unfold Covers at hc
        by_cases hleft : v < lo
        · exact routeVshard_eq (r := ⟨r.lo, lo - 1, r.shardId⟩)
            (by rw [hm', carve, if_pos (by omega)]; simp) ⟨hc.1, by show v ≤ lo - 1; omega⟩
        · exact routeVshard_eq (r := ⟨hi + 1, r.hi, r.shardId⟩)
            (by rw [hm', carve, if_pos (show hi < r.hi by omega)]; simp)
            ⟨by show hi + 1 ≤ v; omega, hc.2⟩
      · refine routeVshard_eq (r := r) ?_ hc
        rw [hm] at hr
        rw [hm']
        rcases List.mem_append.mp hr with hr | hr
        · exact List.mem_append_left _ hr
        · exact List.mem_append_right _ (List.mem_append_right _ ((List.mem_cons.mp hr).resolve_left hrt))
    · rw [routeVshard, routeVshard, if_neg hin, if_neg hin]

theorem VshardMap.split_isOk {m : VshardMap} {lo hi : Int} {toShard : String} :
    (∃ m', m.split lo hi toShard = .ok m') ↔
      ∃ r ∈ m.ranges, r.lo ≤ lo ∧ lo ≤ hi ∧ hi ≤ r.hi ∧ r.shardId ≠ toShard := by
  constructor
  · rintro ⟨m', h⟩
    obtain ⟨before, target, after, hm, hlo, hle, hhi, hne, -⟩ := split_ok.mp h
    exact ⟨target, by rw [hm]; simp, hlo, hle, hhi, hne⟩
  · rintro ⟨target, htarget, hlo, hle, hhi, hne⟩
    obtain ⟨before, after, hm⟩ := List.append_of_mem htarget
    have ht : TilesVshards (before ++ (carve target lo hi toShard ++ after)) :=
      Tiles.splice (hm ▸ m.tiles) (carve_tiles toShard hlo hle hhi)
    exact ⟨⟨_, ht⟩, split_ok.mpr ⟨before, target, after, hm, hlo, hle, hhi, hne, rfl⟩⟩

/-! ## Maps that splits lead to -/

/-- The maps that an accepted list of ranges and splits lead to. -/
inductive VshardMap.Obtained : VshardMap → Prop
  | initial {ranges : List VshardRange} {m : VshardMap} : make ranges = .ok m → Obtained m
  | split {m m' : VshardMap} {lo hi : Int} {toShard : String} :
      Obtained m → m.split lo hi toShard = .ok m' → Obtained m'

/-- A map routes every vshard to the shard of its one range, and a split moves just its range. -/
structure VshardMap.Sound (m : VshardMap) : Prop where
  nonempty : ∀ r ∈ m.ranges, r.lo ≤ r.hi
  sorted : m.ranges.Pairwise fun r r' => r.hi < r'.lo
  covers : ∀ v, (∃ r ∈ m.ranges, r.lo ≤ v ∧ v ≤ r.hi) ↔ 0 ≤ v ∧ v ≤ 16383
  routes : ∀ v, 0 ≤ v → v ≤ 16383 → ∃ r ∈ m.ranges, (r.lo ≤ v ∧ v ≤ r.hi) ∧
    (∀ r' ∈ m.ranges, r'.lo ≤ v ∧ v ≤ r'.hi → r' = r) ∧ m.routeVshard v = .ok r.shardId
  split : ∀ lo hi toShard m', m.split lo hi toShard = .ok m' → ∀ v,
    m'.routeVshard v = if lo ≤ v ∧ v ≤ hi then .ok toShard else m.routeVshard v
  rejects : ∀ lo hi toShard, (∃ e, m.split lo hi toShard = .error e) ↔
    ¬ ∃ r ∈ m.ranges, r.lo ≤ lo ∧ lo ≤ hi ∧ hi ≤ r.hi ∧ r.shardId ≠ toShard

/-- Splits only lead to sound maps, and the constructor accepts partitions and nothing else. -/
structure VshardRoutingSound : Prop where
  obtained : ∀ m, VshardMap.Obtained m → m.Sound
  accepts : ∀ initial m, VshardMap.make initial = .ok m ↔
    initial.Perm m.ranges ∧ Tiles VshardRange.lo VshardRange.hi 0 16384 m.ranges

theorem vshardMap_sound : VshardRoutingSound where
  obtained m _ :=
    { nonempty := fun r hr => (m.tiles.bounds hr).2.1
      sorted := m.tiles.pairwise
      covers := fun v => by
        constructor
        · rintro ⟨r, hr, hlo, hhi⟩
          have := m.tiles.bounds hr
          unfold VSHARD_COUNT at this
          omega
        · rintro ⟨h₀, h₁⟩
          exact m.exists_covers h₀ (by unfold VSHARD_COUNT; omega)
      routes := fun v h₀ h₁ => by
        obtain ⟨r, hr, hc⟩ := m.exists_covers h₀ (by unfold VSHARD_COUNT; omega)
        exact ⟨r, hr, hc, fun r' hr' hc' => m.tiles.covers_unique hr' hr hc' hc,
          VshardMap.routeVshard_eq hr hc⟩
      split := fun lo hi toShard m' h v => VshardMap.split_routes h v
      rejects := fun lo hi toShard => by
        rw [← VshardMap.split_isOk]
        cases m.split lo hi toShard <;> simp }
  accepts initial m := by
    constructor
    · intro h
      exact ⟨(VshardMap.make_perm h).symm, m.tiles⟩
    · rintro ⟨hp, -⟩
      exact VshardMap.make_of_tiles m.tiles hp

end Chardb.Catalog
