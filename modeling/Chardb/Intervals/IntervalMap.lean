import Chardb.Intervals.Interval
import Chardb.Lib.InsertionMap

/-!
# Matching keys against intervals

Two intervals that share a key overlap, and in a dense order two inhabited intervals that overlap
share a key. `IntervalMap` keeps the interval sets of the subscriptions by table and index;
`match` finds the registrations that are live and contain a key.
-/

namespace Chardb.Intervals

open Chardb.Lib

/-! ## Overlap and membership -/

section
variable {ν : Type} [FiniteNumber ν]

/-- A lower end at or before a key is not over an upper end at or after it. -/
theorem leLoHi_of_between {lo hi : Endpoint (IntervalKey ν)} {k : IntervalKey ν} {o o' : Ordering}
    (h : cmpEndpoint cmpKey lo (.value k true) .lo = .ok o) (ho : o ≠ .gt)
    (h' : cmpEndpoint cmpKey (.value k true) hi .hi = .ok o') (ho' : o' ≠ .gt) :
    leLoHi cmpKey lo hi = .ok true := by
  cases lo with
  | negInf => rfl
  | posInf => exact absurd (Except.ok.inj h).symm ho
  | value v i =>
    cases hi with
    | negInf => exact absurd (Except.ok.inj h').symm ho'
    | posInf => rfl
    | value w j =>
      obtain ⟨c, hc, h⟩ := bind_ok h
      obtain ⟨c', hc', h'⟩ := bind_ok h'
      have hne : c ≠ .gt := fun hgt => by
        subst hgt
        exact ho (Except.ok.inj h).symm
      have hne' : c' ≠ .gt := fun hgt => by
        subst hgt
        exact ho' (Except.ok.inj h').symm
      obtain ⟨c'', hc''⟩ := cmpKey_trans hc hne hc' hne'
      have hvk := (cmpKey_agrees _ _ _ hc).ne_gt.mp hne
      have hkw := (cmpKey_agrees _ _ _ hc').ne_gt.mp hne'
      have hcmp := cmpKey_agrees _ _ _ hc''
      rw [leLoHi, hc'']
      cases c'' with
      | lt => rfl
      | gt => exact absurd (hvk.trans hkw) hcmp.not_ge
      | eq =>
        have hvw : rankKey v = rankKey w := hcmp
        obtain rfl : c = .eq :=
          (cmpKey_agrees _ _ _ hc).eq_eq.mpr (le_antisymm hvk (hkw.trans hvw.ge))
        obtain rfl : c' = .eq :=
          (cmpKey_agrees _ _ _ hc').eq_eq.mpr (le_antisymm hkw (hvw.ge.trans hvk))
        cases i with
        | false => exact absurd (Except.ok.inj h).symm ho
        | true =>
          cases j with
          | false => exact absurd (Except.ok.inj h').symm ho'
          | true => rfl

theorem contains_ends {a : Interval (IntervalKey ν)} {k : IntervalKey ν}
    (h : contains cmpKey a k = .ok true) :
    (∃ o, cmpEndpoint cmpKey a.lo (.value k true) .lo = .ok o ∧ o ≠ .gt) ∧
      ∃ o, cmpEndpoint cmpKey (.value k true) a.hi .hi = .ok o ∧ o ≠ .gt := by
  obtain ⟨below, hbelow, h⟩ := bind_ok h
  split at h
  · cases h
  · rename_i hne
    obtain ⟨above, habove, h⟩ := bind_ok h
    exact ⟨⟨below, hbelow, hne⟩, above, habove, of_decide_eq_true (Except.ok.inj h)⟩

/-- Intervals with a key in common overlap. -/
theorem overlaps_of_contains {a b : Interval (IntervalKey ν)} {k : IntervalKey ν}
    (ha : contains cmpKey a k = .ok true) (hb : contains cmpKey b k = .ok true) :
    overlaps cmpKey a b = .ok true := by
  obtain ⟨⟨o₁, h₁, hne₁⟩, o₂, h₂, hne₂⟩ := contains_ends ha
  obtain ⟨⟨o₃, h₃, hne₃⟩, o₄, h₄, hne₄⟩ := contains_ends hb
  rw [overlaps, leLoHi_of_between h₁ hne₁ h₄ hne₄]
  exact leLoHi_of_between h₃ hne₃ h₂ hne₂

end

section
variable {α : Type} [LinearOrder α]

/-- The comparison of a linear order. -/
def cmpPoint (a b : α) : Except Thrown Ordering := .ok (cmpLT a b)

theorem cmpPoint_agrees : Agrees (cmpPoint (α := α)) id := fun v w o h => by
  obtain rfl := Except.ok.inj h
  exact cmpLT_compares v w

theorem cmpEndpoint_cmpPoint (a b : Endpoint α) (side : Side) :
    ∃ o, cmpEndpoint cmpPoint a b side = .ok o := by
  cases a with
  | negInf => cases b <;> exact ⟨_, rfl⟩
  | posInf => cases b <;> exact ⟨_, rfl⟩
  | value v i =>
    cases b with
    | negInf => exact ⟨_, rfl⟩
    | posInf => exact ⟨_, rfl⟩
    | value w j =>
      by_cases hne : cmpLT v w ≠ .eq
      · exact ⟨_, if_pos hne⟩
      · by_cases hij : i = j
        · exact ⟨_, (if_neg hne).trans (if_pos hij)⟩
        · cases side <;> exact ⟨_, (if_neg hne).trans (if_neg hij)⟩

theorem contains_cmpPoint {a : Interval α} {x : α} :
    contains cmpPoint a x = .ok true ↔ a.Mem id x := by
  obtain ⟨below, hbelow⟩ := cmpEndpoint_cmpPoint a.lo (.value x true) .lo
  obtain ⟨above, habove⟩ := cmpEndpoint_cmpPoint (.value x true) a.hi .hi
  refine ⟨contains_eq_true cmpPoint_agrees, fun h => ?_⟩
  have hcontains : ∃ b, contains cmpPoint a x = .ok b := by
    rw [contains, hbelow]
    by_cases hgt : below = .gt
    · exact ⟨false, if_pos hgt⟩
    · refine ⟨decide (above ≠ .gt), ?_⟩
      refine (if_neg hgt).trans ?_
      rw [habove]
      rfl
  obtain ⟨b, hb⟩ := hcontains
  cases b with
  | true => exact hb
  | false => exact absurd h (contains_eq_false cmpPoint_agrees hb)

/-- Inhabited intervals of a dense order that overlap have a point in common. -/
theorem exists_common_point [DenselyOrdered α] {a b : Interval α} {x y : α}
    (hx : contains cmpPoint a x = .ok true) (hy : contains cmpPoint b y = .ok true)
    (h : overlaps cmpPoint a b = .ok true) :
    ∃ z, contains cmpPoint a z = .ok true ∧ contains cmpPoint b z = .ok true := by
  have hx := contains_cmpPoint.mp hx
  have hy := contains_cmpPoint.mp hy
  obtain ⟨first, hfirst, h⟩ := bind_ok h
  cases first with
  | false => cases h
  | true =>
    have hab := leLoHi_eq_true cmpPoint_agrees hfirst (hx.1.trans_lt (after_lt_top x |>.trans_le'
      (before_lt_after x).le)).ne (bot_lt_before y |>.trans ((before_lt_after y).trans_le hy.2)).ne'
    have hba := leLoHi_eq_true cmpPoint_agrees h (hy.1.trans_lt (after_lt_top y |>.trans_le'
      (before_lt_after y).le)).ne (bot_lt_before x |>.trans ((before_lt_after x).trans_le hx.2)).ne'
    obtain ⟨z, hz, hz'⟩ := exists_within_both hx hy hab hba
    exact ⟨z, contains_cmpPoint.mpr hz, contains_cmpPoint.mpr hz'⟩

end

/-! ## Sets of intervals -/

structure IntervalSet (κ : Type) where
  intervals : List (Interval κ)

def IntervalSet.add {κ : Type} (set : IntervalSet κ) (interval : Interval κ) : IntervalSet κ :=
  ⟨set.intervals ++ [interval]⟩

section
variable {κ : Type} (cmpKey : κ → κ → Except Thrown Ordering)

def containsAny (key : κ) : List (Interval κ) → Except Thrown Bool
  | [] => .ok false
  | iv :: ivs => do
    let found ← contains cmpKey iv key
    if found then .ok true else containsAny key ivs

/-- True if any interval in the set contains the key. -/
def IntervalSet.contains (set : IntervalSet κ) (key : κ) : Except Thrown Bool :=
  containsAny cmpKey key set.intervals

end

/-! ## The map -/

structure Registration (σ κ : Type) where
  subId : σ
  set : IntervalSet κ

/-- The registrations under each pair of a table and an index. -/
abbrev IntervalMap (σ κ : Type) : Type := InsertionMap String (List (Registration σ κ))

/-- The key of a table and an index. -/
def mapKey (table indexName : String) : String := table ++ "\x00" ++ indexName

namespace IntervalMap

variable {σ κ : Type}

def register (m : IntervalMap σ κ) (subId : σ) (table indexName : String) (set : IntervalSet κ) :
    IntervalMap σ κ :=
  m.set (mapKey table indexName) ((m.get? (mapKey table indexName)).getD [] ++ [⟨subId, set⟩])

/-- The registrations of the other subscriptions stay; a key without any goes. -/
def unregisterEntry [DecidableEq σ] (subId : σ) (m : IntervalMap σ κ)
    (e : String × List (Registration σ κ)) : IntervalMap σ κ :=
  let next := e.2.filter fun r => r.subId ≠ subId
  if next.length = 0 then m.delete e.1 else m.set e.1 next

def unregister [DecidableEq σ] (m : IntervalMap σ κ) (subId : σ) : IntervalMap σ κ :=
  m.entries.foldl (unregisterEntry subId) m

/-- The loop of `match` over the registrations of a key. -/
def hits (cmpKey : κ → κ → Except Thrown Ordering) (key : κ) :
    List (Registration σ κ) → Except Thrown (List σ)
  | [] => .ok []
  | e :: es => do
    let hit ← e.set.contains cmpKey key
    let rest ← hits cmpKey key es
    .ok (if hit then e.subId :: rest else rest)

/-- `match`. -/
def matchKey (cmpKey : κ → κ → Except Thrown Ordering) (m : IntervalMap σ κ)
    (table indexName : String) (key : κ) : Except Thrown (List σ) :=
  match m.get? (mapKey table indexName) with
  | none => .ok []
  | some arr => hits cmpKey key arr

end IntervalMap

/-! ## Calls -/

/-- What a `register` call is given. -/
structure Registered (σ κ : Type) where
  subId : σ
  table : String
  indexName : String
  set : IntervalSet κ

inductive IntervalCall (σ κ : Type)
  | register (r : Registered σ κ)
  | unregister (subId : σ)

section
variable {σ κ : Type} [DecidableEq σ]

def IntervalMap.call (m : IntervalMap σ κ) : IntervalCall σ κ → IntervalMap σ κ
  | .register r => m.register r.subId r.table r.indexName r.set
  | .unregister subId => m.unregister subId

/-- The map after a sequence of calls. -/
def IntervalMap.run (calls : List (IntervalCall σ κ)) : IntervalMap σ κ :=
  calls.foldl IntervalMap.call .empty

/-- The registrations that a call leaves in force. -/
def keepLive (live : List (Registered σ κ)) : IntervalCall σ κ → List (Registered σ κ)
  | .register r => live ++ [r]
  | .unregister subId => live.filter fun r => r.subId ≠ subId

/-- The registrations that were not unregistered, in the order of their calls. -/
def liveAfter (calls : List (IntervalCall σ κ)) : List (Registered σ κ) := calls.foldl keepLive []

/-- The registrations under one key of the map. -/
def under (k : String) (live : List (Registered σ κ)) : List (Registration σ κ) :=
  (live.filter fun r => mapKey r.table r.indexName = k).map fun r => ⟨r.subId, r.set⟩

namespace IntervalMap

theorem unregisterEntry_get? (subId : σ) (m : IntervalMap σ κ)
    (e : String × List (Registration σ κ)) (k : String) :
    ((unregisterEntry subId m e).get? k).getD [] =
      if k = e.1 then e.2.filter fun r => r.subId ≠ subId else (m.get? k).getD [] := by
  unfold unregisterEntry
  dsimp only
  split
  · rename_i hnil
    rw [InsertionMap.get?_delete]
    by_cases hk : k = e.1
    · rw [if_pos hk, if_pos hk, List.eq_nil_of_length_eq_zero hnil]
      rfl
    · rw [if_neg hk, if_neg hk]
  · rw [InsertionMap.get?_set]
    by_cases hk : k = e.1
    · rw [if_pos hk, if_pos hk]
      rfl
    · rw [if_neg hk, if_neg hk]

theorem foldl_unregisterEntry (subId : σ) {es : List (String × List (Registration σ κ))}
    (hes : (es.map Prod.fst).Nodup) (m : IntervalMap σ κ) (k : String) :
    ((es.foldl (unregisterEntry subId) m).get? k).getD [] =
      if k ∈ es.map Prod.fst then ((lookupEntry k es).getD []).filter fun r => r.subId ≠ subId
      else (m.get? k).getD [] := by
  induction es generalizing m with
  | nil => rfl
  | cons e es ih =>
    obtain ⟨hnot, hes⟩ := List.nodup_cons.mp hes
    rw [List.foldl_cons, ih hes, unregisterEntry_get?]
    by_cases hk : k = e.1
    · subst hk
      have hmem : e.1 ∈ (e :: es).map Prod.fst := List.mem_cons_self
      rw [if_neg hnot, if_pos rfl, if_pos hmem]
      simp [lookupEntry]
    · have hlookup : lookupEntry k (e :: es) = lookupEntry k es := by
        have hne : e.1 ≠ k := fun h => hk h.symm
        simp [lookupEntry, hne]
      rw [if_neg hk, hlookup]
      simp only [List.map_cons, List.mem_cons, hk, false_or]

theorem unregister_get? (m : IntervalMap σ κ) (subId : σ) (k : String) :
    ((m.unregister subId).get? k).getD [] =
      ((m.get? k).getD []).filter fun r => r.subId ≠ subId := by
  unfold unregister
  rw [foldl_unregisterEntry subId m.nodup]
  split
  · rfl
  · rename_i hk
    have hnone : m.get? k = none := by
      cases h : m.get? k with
      | none => rfl
      | some arr => exact absurd (List.mem_map_of_mem (InsertionMap.get?_eq_some.mp h)) hk
    rw [hnone]
    rfl

theorem call_get? {m : IntervalMap σ κ} {live : List (Registered σ κ)}
    (h : ∀ k, (m.get? k).getD [] = under k live) (c : IntervalCall σ κ) (k : String) :
    ((m.call c).get? k).getD [] = under k (keepLive live c) := by
  cases c with
  | register r =>
    unfold call register keepLive under
    rw [InsertionMap.get?_set, List.filter_append, List.map_append, h]
    by_cases hk : k = mapKey r.table r.indexName
    · subst hk
      simp [under]
    · have hne : mapKey r.table r.indexName ≠ k := fun h => hk h.symm
      rw [if_neg hk, h]
      simp [under, hne]
  | unregister subId =>
    unfold call keepLive under
    dsimp only
    rw [unregister_get?, h, under, List.filter_map, List.filter_filter, List.filter_filter]
    congr 1
    refine List.filter_congr fun r _ => ?_
    simp [Bool.and_comm]

theorem run_get? (calls : List (IntervalCall σ κ)) (k : String) :
    ((run calls).get? k).getD [] = under k (liveAfter calls) := by
  suffices h : ∀ (m : IntervalMap σ κ) (live : List (Registered σ κ)),
      (∀ k, (m.get? k).getD [] = under k live) → ∀ k,
        ((calls.foldl call m).get? k).getD [] = under k (calls.foldl keepLive live) from
    h .empty [] (fun _ => rfl) k
  induction calls with
  | nil => exact fun _ _ h => h
  | cons c calls ih => exact fun m live h => ih _ _ (call_get? h c)

omit [DecidableEq σ] in
theorem hits_ok (cmpKey : κ → κ → Except Thrown Ordering) (key : κ) {es : List (Registration σ κ)}
    {ids : List σ} : hits cmpKey key es = .ok ids ↔
      (∀ e ∈ es, ∃ b, e.set.contains cmpKey key = .ok b) ∧
        ids = (es.filter fun e => e.set.contains cmpKey key = .ok true).map Registration.subId := by
  induction es generalizing ids with
  | nil => exact ⟨fun h => ⟨fun _ he => (by cases he), (Except.ok.inj h).symm⟩, fun h => h.2 ▸ rfl⟩
  | cons e es ih =>
    rw [List.forall_mem_cons, hits]
    constructor
    · intro h
      obtain ⟨hit, hhit, h⟩ := bind_ok h
      obtain ⟨rest, hrest, h⟩ := bind_ok h
      obtain ⟨hall, rfl⟩ := ih.mp hrest
      refine ⟨⟨⟨hit, hhit⟩, hall⟩, (Except.ok.inj h).symm.trans ?_⟩
      cases hit <;> simp [hhit]
    · rintro ⟨⟨⟨hit, hhit⟩, hall⟩, rfl⟩
      rw [hhit, ih.mpr ⟨hall, rfl⟩]
      cases hit <;> simp [hhit, bind, Except.bind]

end IntervalMap

/-- Without U+0000 in the names of tables the pair is read off its key. -/
theorem mapKey_inj {table table' indexName indexName' : String}
    (ht : Char.ofNat 0 ∉ table.toList) (ht' : Char.ofNat 0 ∉ table'.toList)
    (h : mapKey table indexName = mapKey table' indexName') :
    table = table' ∧ indexName = indexName' := by
  have hsplit : ∀ {a b x y : List Char}, Char.ofNat 0 ∉ a → Char.ofNat 0 ∉ b →
      a ++ Char.ofNat 0 :: x = b ++ Char.ofNat 0 :: y → a = b ∧ x = y := by
    intro a
    induction a with
    | nil =>
      intro b x y _ hb h
      cases b with
      | nil => exact ⟨rfl, (List.cons.inj h).2⟩
      | cons c b => exact absurd ((List.cons.inj h).1 ▸ List.mem_cons_self) hb
    | cons c a ih =>
      intro b x y ha hb h
      cases b with
      | nil => exact absurd ((List.cons.inj h).1 ▸ List.mem_cons_self) ha
      | cons d b =>
        obtain ⟨rfl, hrest⟩ := List.cons.inj h
        obtain ⟨rfl, htail⟩ := ih (fun hin => ha (List.mem_cons_of_mem _ hin))
          (fun hin => hb (List.mem_cons_of_mem _ hin)) hrest
        exact ⟨rfl, htail⟩
  have hlist := congrArg String.toList h
  have hnul : "\x00".toList = [Char.ofNat 0] := by decide
  simp only [mapKey, String.toList_append, hnul, List.append_assoc, List.singleton_append] at hlist
  obtain ⟨htable, hindex⟩ := hsplit ht ht' hlist
  exact ⟨String.ext htable, String.ext hindex⟩

theorem matchKey_live (cmpKey : κ → κ → Except Thrown Ordering) {calls : List (IntervalCall σ κ)}
    (hcalls : ∀ r ∈ liveAfter calls, Char.ofNat 0 ∉ r.table.toList) {table indexName : String}
    (htable : Char.ofNat 0 ∉ table.toList) (key : κ) (ids : List σ) :
    (IntervalMap.run calls).matchKey cmpKey table indexName key = .ok ids ↔
      (∀ r ∈ liveAfter calls, r.table = table → r.indexName = indexName →
        ∃ b, r.set.contains cmpKey key = .ok b) ∧
      ids = ((liveAfter calls).filter fun r => r.table = table ∧ r.indexName = indexName ∧
        r.set.contains cmpKey key = .ok true).map Registered.subId := by
  have hmatch : (IntervalMap.run calls).matchKey cmpKey table indexName key =
      IntervalMap.hits cmpKey key (under (mapKey table indexName) (liveAfter calls)) := by
    rw [← IntervalMap.run_get?, IntervalMap.matchKey]
    cases (IntervalMap.run calls).get? (mapKey table indexName) <;> rfl
  have hpair : ∀ r ∈ liveAfter calls, mapKey r.table r.indexName = mapKey table indexName ↔
      r.table = table ∧ r.indexName = indexName := fun r hr =>
    ⟨mapKey_inj (hcalls r hr) htable, fun h => by rw [h.1, h.2]⟩
  have hunder : under (mapKey table indexName) (liveAfter calls) =
      ((liveAfter calls).filter fun r => r.table = table ∧ r.indexName = indexName).map
        fun r => ⟨r.subId, r.set⟩ := by
    unfold under
    congr 1
    exact List.filter_congr fun r hr => decide_eq_decide.mpr (hpair r hr)
  rw [hmatch, hunder, IntervalMap.hits_ok, List.filter_map, List.map_map, List.filter_filter]
  refine and_congr ⟨fun h r hr h₁ h₂ => ?_, fun h e he => ?_⟩ (Eq.congr_right ?_)
  · exact h ⟨r.subId, r.set⟩ (List.mem_map.mpr
      ⟨r, List.mem_filter.mpr ⟨hr, decide_eq_true ⟨h₁, h₂⟩⟩, rfl⟩)
  · obtain ⟨r, hr, rfl⟩ := List.mem_map.mp he
    obtain ⟨hr, hpair⟩ := List.mem_filter.mp hr
    obtain ⟨h₁, h₂⟩ := of_decide_eq_true hpair
    exact h r hr h₁ h₂
  · refine congrArg _ (List.filter_congr fun r _ => ?_)
    by_cases h : r.set.contains cmpKey key = .ok true <;> simp [h]

end

/-- Sharing a key implies overlap; overlap of inhabited intervals implies a common point in a dense
order; and `match` returns the live registrations of its table and index whose sets contain the
key, in the order in which they were registered, when no live registration is for a table with
U+0000 in its name. -/
theorem matching_agrees_with_membership :
    (∀ (ν : Type) [FiniteNumber ν] (a b : Interval (IntervalKey ν)) (k : IntervalKey ν),
      contains cmpKey a k = .ok true → contains cmpKey b k = .ok true →
        overlaps cmpKey a b = .ok true) ∧
    (∀ (α : Type) [LinearOrder α] [DenselyOrdered α] (a b : Interval α) (x y : α),
      contains cmpPoint a x = .ok true → contains cmpPoint b y = .ok true →
        overlaps cmpPoint a b = .ok true →
          ∃ z, contains cmpPoint a z = .ok true ∧ contains cmpPoint b z = .ok true) ∧
    (∀ (σ ν : Type) [DecidableEq σ] [FiniteNumber ν] (calls : List (IntervalCall σ (IntervalKey ν))),
      (∀ r ∈ liveAfter calls, Char.ofNat 0 ∉ r.table.toList) →
        ∀ (table indexName : String) (key : IntervalKey ν) (ids : List σ),
          Char.ofNat 0 ∉ table.toList →
            ((IntervalMap.run calls).matchKey cmpKey table indexName key = .ok ids ↔
              (∀ r ∈ liveAfter calls, r.table = table → r.indexName = indexName →
                ∃ b, r.set.contains cmpKey key = .ok b) ∧
              ids = ((liveAfter calls).filter fun r => r.table = table ∧ r.indexName = indexName ∧
                r.set.contains cmpKey key = .ok true).map Registered.subId)) :=
  ⟨fun _ _ _ _ _ ha hb => overlaps_of_contains ha hb,
    fun _ _ _ _ _ _ _ hx hy h => exists_common_point hx hy h,
    fun _ _ _ _ _ hcalls _ _ key ids htable => matchKey_live cmpKey hcalls htable key ids⟩

/-- Of two subscribers to all keys, the one that stays is matched. -/
theorem matching_agrees_with_membership_unsubscribed :
    (IntervalMap.run [.register ⟨1, "docs", "id", ⟨[FULL]⟩⟩, .register ⟨2, "docs", "id", ⟨[FULL]⟩⟩,
      .unregister 1]).matchKey cmpKey "docs" "id" ([.number 5] : IntervalKey Int) = .ok [2] :=
  (matching_agrees_with_membership.2.2 Nat Int [.register ⟨1, "docs", "id", ⟨[FULL]⟩⟩,
    .register ⟨2, "docs", "id", ⟨[FULL]⟩⟩, .unregister 1] (by decide) "docs" "id" [.number 5] [2]
    (by decide)).mpr ⟨fun r hr _ _ => ⟨true, by
      obtain rfl := List.mem_singleton.mp hr
      rfl⟩, by decide⟩

/-- A registration for one pair of names is found under another pair with the same key. -/
theorem matchKey_other_table :
    ¬∀ (calls : List (IntervalCall Nat (IntervalKey Int))) (table indexName : String)
      (key : IntervalKey Int) (ids : List Nat),
        (IntervalMap.run calls).matchKey cmpKey table indexName key = .ok ids →
          ids = ((liveAfter calls).filter fun r => r.table = table ∧ r.indexName = indexName ∧
            r.set.contains cmpKey key = .ok true).map Registered.subId := by
  intro h
  have hids := h [.register ⟨1, "a\x00b", "c", ⟨[FULL]⟩⟩] "a" "b\x00c" [] [1] (by decide)
  exact absurd hids (by decide)

end Chardb.Intervals
