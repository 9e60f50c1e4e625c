import Mathlib.Data.List.Perm.Subperm
import Mathlib.Data.Fintype.Sets
import Mathlib.Data.Fintype.EquivFin
import Mathlib.Logic.Relation
import Mathlib.Data.Fintype.Card

/-!
# Kahn's algorithm

A queue of the names none of whose parents is missing. Taking a name out of the queue lowers the
count of each of its children, and a child whose count falls to zero joins the queue.
-/

namespace Chardb.Lib

/-- The names that wait for nothing, those already placed, and how many parents each name misses. -/
structure ReadyQueue (α : Type) where
  ready : List α
  ordered : List α
  incoming : α → Int

namespace ReadyQueue

variable {α : Type} [DecidableEq α]

/-- One parent of a child has been placed. -/
def release (sort : List α → List α) (q : ReadyQueue α) (child : α) : ReadyQueue α :=
  { q with
    incoming := fun t => if t = child then q.incoming child - 1 else q.incoming t
    ready := if q.incoming child - 1 = 0 then sort (q.ready ++ [child]) else q.ready }

/-- The first ready name is placed. -/
def visit (sort : List α → List α) (children : α → List α) (name : α) (rest : List α)
    (q : ReadyQueue α) : ReadyQueue α :=
  (sort (children name)).foldl (release sort)
    { q with ready := rest, ordered := q.ordered ++ [name] }

/-- Names are placed until none is ready. -/
def drain (sort : List α → List α) (children : α → List α) : Nat → ReadyQueue α → ReadyQueue α
  | 0, q => q
  | n + 1, q =>
    match q.ready with
    | [] => q
    | name :: rest => drain sort children n (visit sort children name rest q)

/-- The queue depends on the children only as they are sorted. -/
theorem drain_congr {sort : List α → List α} {children children' : α → List α}
    (h : ∀ p, sort (children p) = sort (children' p)) (n : Nat) (q : ReadyQueue α) :
    drain sort children n q = drain sort children' n q := by
  induction n generalizing q with
  | zero => rfl
  | succ n ih =>
    rw [drain, drain]
    split
    · rfl
    · rw [ih, visit, visit, h]

/-! ## The children of one name -/

section
variable {sort : List α → List α} (hsort : ∀ l, (sort l).Perm l)
include hsort

theorem foldl_release {cs : List α} (h : cs.Nodup) (q : ReadyQueue α) :
    (cs.foldl (release sort) q).ordered = q.ordered ∧
      (∀ t, (cs.foldl (release sort) q).incoming t =
        if t ∈ cs then q.incoming t - 1 else q.incoming t) ∧
      (cs.foldl (release sort) q).ready.Perm (q.ready ++ cs.filter fun t => q.incoming t = 1) := by
  induction cs generalizing q with
  | nil => simp
  | cons c cs ih =>
    obtain ⟨hc, h⟩ := List.nodup_cons.mp h
    obtain ⟨hordered, hincoming, hready⟩ := ih h (release sort q c)
    refine ⟨hordered, fun t => ?_, hready.trans ?_⟩
    · rw [List.foldl_cons, hincoming t]
      by_cases ht : t = c
      · subst ht
        simp [release, hc]
      · simp [release, ht]
    · have hfilter : (cs.filter fun t => (release sort q c).incoming t = 1) =
          cs.filter fun t => q.incoming t = 1 :=
        List.filter_congr fun t ht => by
          have hne : t ≠ c := fun h => hc (h ▸ ht)
          simp [release, hne]
      rw [hfilter]
      by_cases hone : q.incoming c = 1
      · have hzero : q.incoming c - 1 = 0 := by omega
        have hsorted : (release sort q c).ready = sort (q.ready ++ [c]) := if_pos hzero
        rw [hsorted, List.filter_cons_of_pos (by simpa using hone)]
        exact ((hsort _).append_right _).trans (by simp)
      · have hzero : ¬q.incoming c - 1 = 0 := by omega
        have hsame : (release sort q c).ready = q.ready := if_neg hzero
        rw [hsame, List.filter_cons_of_neg (by simpa using hone)]

end

/-! ## The invariant -/

/-- The names that have a parent. -/
def childrenOf (names : List α) (parents : α → List α) (p : α) : List α :=
  names.filter fun t => p ∈ parents t

/-- What holds before every turn of the loop. -/
structure Inv (names : List α) (parents : α → List α) (q : ReadyQueue α) : Prop where
  count : ∀ t ∈ names, q.incoming t = ((parents t).filter (· ∉ q.ordered)).length
  nodup : (q.ordered ++ q.ready).Nodup
  mem : ∀ t, t ∈ q.ordered ++ q.ready ↔ t ∈ names ∧ q.incoming t = 0
  first : ∀ {done t later}, q.ordered = done ++ t :: later → ∀ p ∈ parents t, p ∈ done

section
variable {names : List α} {parents : α → List α} {q : ReadyQueue α}

theorem Inv.placed (h : Inv names parents q) {t : α} (ht : t ∈ q.ordered ++ q.ready) :
    ∀ p ∈ parents t, p ∈ q.ordered := by
  obtain ⟨hname, hzero⟩ := (h.mem t).mp ht
  have hcount := h.count t hname
  rw [hzero] at hcount
  have hnil := List.eq_nil_of_length_eq_zero (Int.natCast_eq_zero.mp hcount.symm)
  intro p hp
  by_contra hnot
  exact List.filter_eq_nil_iff.mp hnil p hp (by simpa using hnot)

theorem Inv.length_le (h : Inv names parents q) :
    (q.ordered ++ q.ready).length ≤ names.length :=
  (List.subperm_of_subset h.nodup fun t ht => ((h.mem t).mp ht).1).length_le

/-- Placing a parent lowers a count by one for its children and by nothing for the others. -/
theorem missing_append {ps ordered : List α} (hps : ps.Nodup) {name : α} (hname : name ∉ ordered) :
    ((ps.filter (· ∉ ordered ++ [name])).length : Int) =
      if name ∈ ps then ((ps.filter (· ∉ ordered)).length : Int) - 1
      else (ps.filter (· ∉ ordered)).length := by
  induction ps with
  | nil => simp
  | cons p ps ih =>
    obtain ⟨hp, hps⟩ := List.nodup_cons.mp hps
    have ih := ih hps
    by_cases hpn : p = name
    · subst hpn
      rw [if_neg hp] at ih
      rw [if_pos List.mem_cons_self, List.filter_cons_of_neg (by simp),
        List.filter_cons_of_pos (by simpa using hname), ih]
      simp
    · have hmem : name ∈ p :: ps ↔ name ∈ ps :=
        ⟨fun h => (List.mem_cons.mp h).resolve_left fun h => hpn h.symm, List.mem_cons_of_mem _⟩
      by_cases hpo : p ∈ ordered
      · rw [List.filter_cons_of_neg (by simp [hpo]), List.filter_cons_of_neg (by simp [hpo]), ih]
        simp only [hmem]
      · rw [List.filter_cons_of_pos (by simp [hpo, hpn]), List.filter_cons_of_pos (by simp [hpo]),
          List.length_cons, List.length_cons]
        simp only [hmem]
        split at ih <;> rename_i hin <;> simp only [hin, if_true, if_false] <;> push_cast <;> omega

end

/-! ## A turn, and all of them -/

section
variable {sort : List α → List α} (hsort : ∀ l, (sort l).Perm l) {names : List α}
  {parents : α → List α} (hnames : names.Nodup) (hparents : ∀ t, (parents t).Nodup)
include hsort hnames

variable (parents) in
theorem visit_spec (name : α) (rest : List α) (q : ReadyQueue α) :
    (visit sort (childrenOf names parents) name rest q).ordered = q.ordered ++ [name] ∧
      (∀ t, (visit sort (childrenOf names parents) name rest q).incoming t =
        if t ∈ names ∧ name ∈ parents t then q.incoming t - 1 else q.incoming t) ∧
      (visit sort (childrenOf names parents) name rest q).ready.Perm
        (rest ++ (childrenOf names parents name).filter fun t => q.incoming t = 1) := by
  have hchildren : (sort (childrenOf names parents name)).Nodup :=
    (hsort _).nodup_iff.mpr (hnames.filter _)
  have hmem : ∀ t, t ∈ sort (childrenOf names parents name) ↔ t ∈ names ∧ name ∈ parents t :=
    fun t => by rw [(hsort _).mem_iff, childrenOf, List.mem_filter, decide_eq_true_eq]
  obtain ⟨hordered, hincoming, hqueue⟩ := foldl_release hsort hchildren
    { q with ready := rest, ordered := q.ordered ++ [name] }
  refine ⟨hordered, fun t => (hincoming t).trans ?_, hqueue.trans ?_⟩
  · simp only [hmem]
  · exact ((hsort _).filter _).append_left rest

include hparents

theorem inv_visit {name : α} {rest : List α} {q : ReadyQueue α} (h : Inv names parents q)
    (hready : q.ready = name :: rest) :
    Inv names parents (visit sort (childrenOf names parents) name rest q) := by
  obtain ⟨hordered, hincoming, hqueue⟩ :=
    visit_spec hsort parents hnames name rest q
  have hnodup := h.nodup
  rw [hready, List.append_cons] at hnodup
  have hplaced : name ∉ q.ordered := fun hin => (List.nodup_append.mp
    (List.nodup_append.mp hnodup).1).2.2 name hin name List.mem_cons_self rfl
  have hmember : ∀ t, t ∈ (q.ordered ++ [name]) ++
      (rest ++ (childrenOf names parents name).filter fun t => q.incoming t = 1) ↔
      t ∈ q.ordered ++ q.ready ∨ (t ∈ names ∧ name ∈ parents t) ∧ q.incoming t = 1 := by
    intro t
    rw [← List.append_assoc, List.mem_append, ← List.append_cons, ← hready, List.mem_filter,
      childrenOf, List.mem_filter, decide_eq_true_eq, decide_eq_true_eq]
  refine ⟨fun t ht => ?_, ?_, fun t => ?_, fun {done t later} hsplit => ?_⟩
  · rw [hordered, missing_append (hparents t) hplaced, ← h.count t ht, hincoming]
    simp only [ht, true_and]
  · rw [hordered, ((hqueue.append_left (q.ordered ++ [name])).nodup_iff), ← List.append_assoc]
    refine List.nodup_append.mpr ⟨hnodup, (hnames.filter _).filter _, fun a ha b hb hab => ?_⟩
    subst hab
    have hone := of_decide_eq_true (List.mem_filter.mp hb).2
    rw [← List.append_cons, ← hready] at ha
    have hzero := ((h.mem a).mp ha).2
    omega
  · rw [hordered, (hqueue.append_left (q.ordered ++ [name])).mem_iff, hmember, h.mem, hincoming]
    constructor
    · rintro (⟨ht, hzero⟩ | ⟨hchild, hone⟩)
      · have hnot : ¬(t ∈ names ∧ name ∈ parents t) := fun hin =>
          hplaced (h.placed ((h.mem t).mpr ⟨ht, hzero⟩) name hin.2)
        exact ⟨ht, (if_neg hnot).trans hzero⟩
      · exact ⟨hchild.1, by rw [if_pos hchild]; omega⟩
    · rintro ⟨ht, hzero⟩
      split at hzero
      · rename_i hchild
        exact .inr ⟨hchild, by omega⟩
      · exact .inl ⟨ht, hzero⟩
  · rw [hordered] at hsplit
    rcases List.eq_nil_or_concat later with rfl | ⟨later, z, rfl⟩
    · obtain ⟨rfl, hlast⟩ := List.append_inj' hsplit rfl
      obtain rfl := (List.cons.inj hlast).1
      exact h.placed (hready ▸ List.mem_append_right _ List.mem_cons_self)
    · have hinit : q.ordered ++ [name] = (done ++ t :: later) ++ [z] := by
        rw [hsplit, List.concat_eq_append, List.append_assoc, List.cons_append]
      exact h.first (List.append_inj' hinit rfl).1

theorem inv_drain (n : Nat) {q : ReadyQueue α} (h : Inv names parents q) :
    Inv names parents (drain sort (childrenOf names parents) n q) := by
  induction n generalizing q with
  | zero => exact h
  | succ n ih =>
    rw [drain]
    split
    · exact h
    · rename_i hready
      exact ih (inv_visit hsort hnames hparents h hready)

/-- With a turn for each name that is not placed, the loop ends. -/
theorem drain_ready {n : Nat} {q : ReadyQueue α} (h : Inv names parents q)
    (hn : names.length ≤ n + q.ordered.length) :
    (drain sort (childrenOf names parents) n q).ready = [] := by
  induction n generalizing q with
  | zero =>
    have := h.length_le
    rw [List.length_append] at this
    exact List.eq_nil_of_length_eq_zero (by rw [drain]; omega)
  | succ n ih =>
    rw [drain]
    split
    · assumption
    · rename_i name rest hready
      have hordered := (visit_spec hsort parents hnames name rest q).1
      refine ih (inv_visit hsort hnames hparents h hready) ?_
      rw [hordered, List.length_append, List.length_singleton]
      omega

end

/-! ## What an empty queue means -/

section
variable {names : List α} {parents : α → List α} {q : ReadyQueue α}

/-- A name that is left out misses a parent that is left out. -/
theorem Inv.missing (h : Inv names parents q) (hready : q.ready = []) {t : α} (ht : t ∈ names)
    (hleft : t ∉ q.ordered) : ∃ p ∈ parents t, p ∉ q.ordered := by
  by_contra hnone
  have hfilter : (parents t).filter (· ∉ q.ordered) = [] :=
    List.filter_eq_nil_iff.mpr fun p hp hout => hnone ⟨p, hp, by simpa using hout⟩
  refine hleft ?_
  have hmem := (h.mem t).mpr ⟨ht, by rw [h.count t ht, hfilter]; rfl⟩
  rwa [hready, List.append_nil] at hmem

/-- Without a cycle nothing is left out. -/
theorem Inv.complete (h : Inv names parents q) (hready : q.ready = [])
    (hclosed : ∀ t ∈ names, ∀ p ∈ parents t, p ∈ names)
    (hacyclic : ∀ t, ¬Relation.TransGen (fun t p => t ∈ names ∧ p ∈ parents t) t t) :
    ∀ t ∈ names, t ∈ q.ordered := by
  let Below (x y : { t // t ∈ names }) : Prop :=
    Relation.TransGen (fun t p => t ∈ names ∧ p ∈ parents t) y.1 x.1
  have hwf : WellFounded Below := by
    have : IsTrans _ Below := ⟨fun a b c hab hbc => hbc.trans hab⟩
    have : Std.Irrefl Below := ⟨fun a => hacyclic a.1⟩
    exact Finite.wellFounded_of_trans_of_irrefl Below
  have hall : ∀ x : { t // t ∈ names }, x.1 ∈ q.ordered := fun x => by
    induction x using hwf.induction with
    | h x ih =>
      by_contra hleft
      obtain ⟨p, hp, hout⟩ := h.missing hready x.2 hleft
      exact hout (ih ⟨p, hclosed x.1 x.2 p hp⟩ (.single ⟨x.2, hp⟩))
  exact fun t ht => hall ⟨t, ht⟩

/-- An order with every parent before its children has no cycle. -/
theorem Inv.acyclic (h : Inv names parents q) (hall : ∀ t ∈ names, t ∈ q.ordered) (t : α) :
    ¬Relation.TransGen (fun t p => t ∈ names ∧ p ∈ parents t) t t := by
  have hstep : ∀ {t p}, t ∈ names ∧ p ∈ parents t → q.ordered.idxOf p < q.ordered.idxOf t := by
    rintro t p ⟨ht, hp⟩
    obtain ⟨done, later, hsplit⟩ := List.append_of_mem (hall t ht)
    have hbefore := h.first hsplit p hp
    have hnodup : q.ordered.Nodup := (List.nodup_append.mp h.nodup).1
    have hnot : t ∉ done := fun hin => (List.nodup_append.mp (hsplit ▸ hnodup)).2.2 t hin t
      List.mem_cons_self rfl
    rw [hsplit, List.idxOf_append_of_mem hbefore, List.idxOf_append_of_notMem hnot]
    have := List.idxOf_lt_length_of_mem hbefore
    omega
  have hpath : ∀ {a b}, Relation.TransGen (fun t p => t ∈ names ∧ p ∈ parents t) a b →
      q.ordered.idxOf b < q.ordered.idxOf a := by
    intro a b hab
    induction hab with
    | single hab => exact hstep hab
    | tail _ hbc ih => exact (hstep hbc).trans ih
  exact fun hcycle => lt_irrefl _ (hpath hcycle)

end

end ReadyQueue

end Chardb.Lib
