import Mathlib.Data.List.SplitBy
import Mathlib.Order.Lattice

/-!
# Reading a log by whole groups

The entries of a log belong to groups that never go back. A read takes a bounded part of the log,
without the last group where that is cut; what it takes falls into groups, and any number of the first
ones ends where a group ends.
-/

namespace Chardb.Lib

variable {α κ : Type} [LinearOrder κ] {f : α → κ} {l m : List α} {n : Nat}

/-- No group of `l` goes on in `m`. -/
def CutsAt (f : α → κ) (l m : List α) : Prop := ∀ a ∈ l, ∀ b ∈ m, f a < f b

/-- The first `n` entries, without the last group when the next entry belongs to it. -/
def takeWhole (f : α → κ) (n : Nat) (l : List α) : List α :=
  match l[n]? with
  | none => l.take n
  | some probe =>
    if (l.take n).getLast?.map f = some (f probe) then (l.take n).filter fun a => decide (f a ≠ f probe)
    else l.take n

/-- The groups of a log, in order. -/
def groups (f : α → κ) (l : List α) : List (List α) := l.splitBy fun a b => decide (f a = f b)

/-! ## Cuts -/

theorem cutsAt_of_ne (hmono : (l ++ m).Pairwise fun a b => f a ≤ f b)
    (hne : ∀ a ∈ l.getLast?, ∀ b ∈ m.head?, f a ≠ f b) : CutsAt f l m := by
  intro a ha b hb
  obtain ⟨hl, hm, hlm⟩ := List.pairwise_append.mp hmono
  obtain ⟨init, last, rfl⟩ := (List.eq_nil_or_concat' l).resolve_left (List.ne_nil_of_mem ha)
  cases m with
  | nil => cases hb
  | cons c m =>
    have hlast : f last < f c := lt_of_le_of_ne (hlm last (by simp) c List.mem_cons_self)
      (hne last (by simp) c rfl)
    have hle : f a ≤ f last := by
      rcases List.mem_append.mp ha with ha | ha
      · exact (List.pairwise_append.mp hl).2.2 a ha last List.mem_cons_self
      · rw [List.mem_singleton.mp ha]
    have hge : f c ≤ f b := by
      rcases List.mem_cons.mp hb with rfl | hb
      · exact le_rfl
      · exact (List.pairwise_cons.mp hm).1 b hb
    exact hle.trans_lt (hlast.trans_le hge)

theorem CutsAt.mono {l' m' : List α} (h : CutsAt f l m) (hl : l' ⊆ l) (hm : m' ⊆ m) : CutsAt f l' m' :=
  fun a ha b hb => h a (hl ha) b (hm hb)

/-- The last group of a log whose keys end at `k`. -/
theorem filter_ne_append_filter_eq {k : κ} (hmono : l.Pairwise fun a b => f a ≤ f b)
    (hle : ∀ a ∈ l, f a ≤ k) :
    (l.filter fun a => decide (f a ≠ k)) ++ (l.filter fun a => decide (f a = k)) = l := by
  induction l with
  | nil => rfl
  | cons a l ih =>
    obtain ⟨hfirst, hrest⟩ := List.pairwise_cons.mp hmono
    have hih := ih hrest fun b hb => hle b (List.mem_cons_of_mem _ hb)
    by_cases hk : f a = k
    · have hall : ∀ b ∈ l, f b = k := fun b hb =>
        le_antisymm (hle b (List.mem_cons_of_mem _ hb)) (hk ▸ hfirst b hb)
      have hnone : (l.filter fun b => decide (f b ≠ k)) = [] :=
        List.filter_eq_nil_iff.mpr fun b hb => by simp [hall b hb]
      rw [hnone, List.nil_append] at hih
      rw [List.filter_cons_of_neg (by simp [hk]), List.filter_cons_of_pos (by simp [hk]), hnone,
        List.nil_append, hih]
    · rw [List.filter_cons_of_pos (by simp [hk]), List.filter_cons_of_neg (by simp [hk]),
        List.cons_append, hih]

/-- What is taken is a first part, and ends where a group ends. -/
theorem takeWhole_cuts (hmono : l.Pairwise fun a b => f a ≤ f b) :
    ∃ rest, l = takeWhole f n l ++ rest ∧ CutsAt f (takeWhole f n l) rest := by
  unfold takeWhole
  cases hprobe : l[n]? with
  | none =>
    refine ⟨[], ?_, fun _ _ _ hb => by cases hb⟩
    show l = l.take n ++ []
    rw [List.append_nil, List.take_of_length_le (List.getElem?_eq_none_iff.mp hprobe)]
  | some probe =>
    have hdrop : ∃ rest, l.drop n = probe :: rest := by
      obtain ⟨hn, rfl⟩ := List.getElem?_eq_some_iff.mp hprobe
      exact ⟨l.drop (n + 1), List.drop_eq_getElem_cons hn⟩
    obtain ⟨rest, hdrop⟩ := hdrop
    have hsplit : l = l.take n ++ probe :: rest := by rw [← hdrop, List.take_append_drop]
    have hparts := hsplit ▸ hmono
    obtain ⟨hhead, htail, hbetween⟩ := List.pairwise_append.mp hparts
    by_cases hlast : (l.take n).getLast?.map f = some (f probe)
    · simp only [hlast, if_true]
      have hfilter := filter_ne_append_filter_eq hhead fun a ha => hbetween a ha probe List.mem_cons_self
      refine ⟨((l.take n).filter fun a => decide (f a = f probe)) ++ probe :: rest, ?_, ?_⟩
      · rw [← List.append_assoc, hfilter]
        exact hsplit
      · intro a ha b hb
        obtain ⟨ha, hne⟩ := List.mem_filter.mp ha
        have hlt : f a < f probe :=
          lt_of_le_of_ne (hbetween a ha probe List.mem_cons_self) (of_decide_eq_true hne)
        rcases List.mem_append.mp hb with hb | hb
        · rw [of_decide_eq_true (List.mem_filter.mp hb).2]
          exact hlt
        · rcases List.mem_cons.mp hb with rfl | hb
          · exact hlt
          · exact hlt.trans_le ((List.pairwise_cons.mp htail).1 b hb)
    · simp only [hlast, if_false]
      refine ⟨probe :: rest, hsplit, cutsAt_of_ne hparts fun a ha b hb he => hlast ?_⟩
      obtain rfl := Option.some.inj hb
      rw [show (l.take n).getLast? = some a from ha, ← he]
      rfl

theorem takeWhole_length_le : (takeWhole f n l).length ≤ n := by
  have htake : (l.take n).length ≤ n := List.length_take_le n l
  unfold takeWhole
  split
  · exact htake
  · split
    · exact (List.length_filter_le _ _).trans htake
    · exact htake

/-- One entry more than `n` is enough to tell where to stop. -/
theorem takeWhole_take {k : Nat} (h : n < k) : takeWhole f n (l.take k) = takeWhole f n l := by
  unfold takeWhole
  rw [List.getElem?_take_of_lt h, List.take_take, min_eq_left h.le]

/-! ## Groups -/

theorem flatten_groups (f : α → κ) (l : List α) : (groups f l).flatten = l := List.flatten_splitBy _ _

theorem ne_nil_of_mem_groups {g : List α} (h : g ∈ groups f l) : g ≠ [] := List.ne_nil_of_mem_splitBy h

/-- The entries of a group have one key. -/
theorem key_eq_of_mem_groups {g : List α} (h : g ∈ groups f l) {a b : α} (ha : a ∈ g) (hb : b ∈ g) :
    f a = f b := by
  have hchain := List.isChain_of_mem_splitBy h
  simp only [decide_eq_true_eq] at hchain
  have htrans : IsTrans α fun a b => f a = f b := ⟨fun _ _ _ => Eq.trans⟩
  have hsymm : Std.Symm fun a b : α => f a = f b := ⟨fun _ _ => Eq.symm⟩
  have hpair : g.Pairwise fun a b => f a = f b := List.isChain_iff_pairwise.mp hchain
  exact List.Pairwise.forall_of_forall (R := fun a b => f a = f b) (fun _ _ => rfl) hpair ha hb

/-- The first groups end where a group ends. -/
theorem groups_cuts (hmono : l.Pairwise fun a b => f a ≤ f b) (n : Nat) :
    CutsAt f ((groups f l).take n).flatten ((groups f l).drop n).flatten := by
  have hjoin : ((groups f l).take n).flatten ++ ((groups f l).drop n).flatten = l := by
    rw [← List.flatten_append, List.take_append_drop, flatten_groups]
  refine cutsAt_of_ne (hjoin.symm ▸ hmono) fun a ha b hb => ?_
  have hchain : ((groups f l).take n ++ (groups f l).drop n).IsChain fun g g' =>
      ∃ hg hg', decide (f (g.getLast hg) = f (g'.head hg')) = false := by
    rw [List.take_append_drop]
    exact List.isChain_getLast_head_splitBy (fun a b => decide (f a = f b)) l
  have hbetween := (List.isChain_append.mp hchain).2.2
  rcases List.eq_nil_or_concat' ((groups f l).take n) with htake | ⟨init, g, htake⟩
  · rw [htake] at ha
    cases ha
  cases hdrop : (groups f l).drop n with
  | nil =>
    rw [hdrop] at hb
    cases hb
  | cons g' gs =>
    obtain ⟨hg, hg', hne⟩ := hbetween g (by simp [htake]) g' (by simp [hdrop])
    rw [htake, List.flatten_append, List.flatten_singleton, List.getLast?_append_of_ne_nil _ hg,
      List.getLast?_eq_some_getLast hg] at ha
    rw [hdrop, List.flatten_cons, List.head?_append_of_ne_nil _ hg', List.head?_eq_some_head hg'] at hb
    obtain rfl := Option.some.inj ha
    obtain rfl := Option.some.inj hb
    exact of_decide_eq_false hne

theorem groups_pairwise (hmono : l.Pairwise fun a b => f a ≤ f b) :
    (groups f l).Pairwise (CutsAt f) := by
  refine List.pairwise_iff_getElem.mpr fun i j hi hj hij => ?_
  refine (groups_cuts hmono j).mono (fun a ha => ?_) fun b hb => ?_
  · refine List.mem_flatten.mpr ⟨(groups f l)[i], List.mem_iff_getElem.mpr ⟨i, ?_, ?_⟩, ha⟩
    · rw [List.length_take]
      omega
    · rw [List.getElem_take]
  · refine List.mem_flatten.mpr ⟨(groups f l)[j], ?_, hb⟩
    rw [List.drop_eq_getElem_cons hj]
    exact List.mem_cons_self

/-- The first groups of what is taken are a first part of the log, and end where a group ends. -/
theorem take_groups_cuts (hmono : l.Pairwise fun a b => f a ≤ f b) (n k : Nat) :
    ∃ rest, l = ((groups f (takeWhole f n l)).take k).flatten ++ rest ∧
      CutsAt f ((groups f (takeWhole f n l)).take k).flatten rest := by
  obtain ⟨rest, hsplit, hcut⟩ := takeWhole_cuts (n := n) hmono
  have hmono' : (takeWhole f n l).Pairwise fun a b => f a ≤ f b :=
    (List.pairwise_append.mp (hsplit ▸ hmono)).1
  have hjoin : ((groups f (takeWhole f n l)).take k).flatten ++
      ((groups f (takeWhole f n l)).drop k).flatten = takeWhole f n l := by
    rw [← List.flatten_append, List.take_append_drop, flatten_groups]
  refine ⟨((groups f (takeWhole f n l)).drop k).flatten ++ rest, ?_, fun a ha b hb => ?_⟩
  · rw [← List.append_assoc, hjoin]
    exact hsplit
  · rcases List.mem_append.mp hb with hb | hb
    · exact groups_cuts hmono' k a ha b hb
    · exact hcut a (hjoin ▸ List.mem_append_left _ ha) b hb

end Chardb.Lib
