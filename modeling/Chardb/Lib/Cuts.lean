import Mathlib.Order.Compare
import Mathlib.Order.WithBot
import Mathlib.Data.Prod.Lex

/-!
# Cuts of a linear order

A cut lies before or after an element, or before or after all of them. An interval runs from one
cut to another: the lower end `[v` is the cut before `v` and `(v` the cut after it, the upper end
`v]` the cut after `v` and `v)` the cut before it.
-/

namespace Chardb.Lib

/-- A place between the elements of `α`. -/
abbrev Cut (α : Type) : Type := WithBot (WithTop (α ×ₗ Bool))

variable {α : Type}

/-- The cut just before an element. -/
def before (x : α) : Cut α := ((toLex (x, false) : α ×ₗ Bool) : WithTop (α ×ₗ Bool))

/-- The cut just after an element. -/
def after (x : α) : Cut α := ((toLex (x, true) : α ×ₗ Bool) : WithTop (α ×ₗ Bool))

/-- Every cut is the first, the last, or beside an element. -/
theorem cut_cases (c : Cut α) : c = ⊥ ∨ c = ⊤ ∨ ∃ x, c = before x ∨ c = after x := by
  induction c using WithBot.recBotCoe with
  | bot => exact .inl rfl
  | coe c =>
    induction c using WithTop.recTopCoe with
    | top => exact .inr (.inl rfl)
    | coe p =>
      obtain ⟨x, b⟩ := p
      cases b
      · exact .inr (.inr ⟨x, .inl rfl⟩)
      · exact .inr (.inr ⟨x, .inr rfl⟩)

variable [LinearOrder α]

theorem before_lt_after_iff {x y : α} : before x < after y ↔ x ≤ y := by
  simp [before, after, Prod.Lex.toLex_lt_toLex, le_iff_lt_or_eq]

theorem after_lt_before_iff {x y : α} : after x < before y ↔ x < y := by
  simp [before, after, Prod.Lex.toLex_lt_toLex]

theorem before_lt_before_iff {x y : α} : before x < before y ↔ x < y := by
  simp [before, Prod.Lex.toLex_lt_toLex]

theorem after_lt_after_iff {x y : α} : after x < after y ↔ x < y := by
  simp [after, Prod.Lex.toLex_lt_toLex]

theorem before_lt_after (x : α) : before x < after x := before_lt_after_iff.mpr le_rfl

theorem bot_lt_before (x : α) : (⊥ : Cut α) < before x := WithBot.bot_lt_coe _

theorem after_lt_top (x : α) : after x < (⊤ : Cut α) :=
  WithBot.coe_lt_coe.mpr (WithTop.coe_lt_top _)

/-- No cut lies between the two sides of an element. -/
theorem le_before_or_after_le (c : Cut α) (x : α) : c ≤ before x ∨ after x ≤ c := by
  rcases cut_cases c with rfl | rfl | ⟨y, rfl | rfl⟩
  · exact .inl bot_le
  · exact .inr le_top
  · rcases le_or_gt y x with h | h
    · exact .inl (not_lt.mp (mt before_lt_before_iff.mp h.not_gt))
    · exact .inr (after_lt_before_iff.mpr h).le
  · rcases lt_or_ge y x with h | h
    · exact .inl (after_lt_before_iff.mpr h).le
    · exact .inr (not_lt.mp (mt after_lt_after_iff.mp h.not_gt))

/-- The elements from one cut to another. -/
def Within (l u : Cut α) (x : α) : Prop := l ≤ before x ∧ after x ≤ u

theorem Within.mono {l l' u u' : Cut α} {x : α} (h : Within l u x) (hl : l' ≤ l) (hu : u ≤ u') :
    Within l' u' x := ⟨hl.trans h.1, h.2.trans hu⟩

/-- Two intervals without a gap between them cover what is between their outer ends. -/
theorem Within.split {l u l' u' : Cut α} {x : α} (h : Within l u' x) (hgap : l' ≤ u) :
    Within l u x ∨ Within l' u' x := by
  rcases le_before_or_after_le u x with hux | hux
  · exact .inr ⟨hgap.trans hux, h.2⟩
  · exact .inl ⟨h.1, hux⟩

/-- In a dense order two inhabited intervals whose ends overlap share an element. -/
theorem exists_within_both [DenselyOrdered α] {l u l' u' : Cut α} {x y : α} (hx : Within l u x)
    (hy : Within l' u' y) (h : l < u') (h' : l' < u) : ∃ z, Within l u z ∧ Within l' u' z := by
  suffices hstep : ∀ {l u l' u' : Cut α} {x y : α}, Within l u x → Within l' u' y → l < u' →
      l' ≤ l → ∃ z, Within l u z ∧ Within l' u' z by
    rcases le_total l' l with hl | hl
    · exact hstep hx hy h hl
    · obtain ⟨z, hz, hz'⟩ := hstep hy hx h' hl
      exact ⟨z, hz', hz⟩
  clear h h' hx hy x y l u l' u'
  intro l u l' u' x y hx hy h hl
  rcases le_or_gt u u' with hu | hu
  · exact ⟨x, hx, hx.mono hl hu⟩
  -- the common part runs from `l` to `u'`
  suffices hz : ∃ z, Within l u' z by
    obtain ⟨z, hz⟩ := hz
    exact ⟨z, hz.mono le_rfl hu.le, hz.mono hl le_rfl⟩
  rcases cut_cases l with rfl | rfl | ⟨v, rfl | rfl⟩
  · exact ⟨y, hy.mono bot_le le_rfl⟩
  · exact absurd h not_top_lt
  · rcases le_before_or_after_le u' v with hv | hv
    · exact absurd h hv.not_gt
    · exact ⟨v, le_rfl, hv⟩
  · rcases cut_cases u' with rfl | rfl | ⟨w, rfl | rfl⟩
    · exact absurd h not_lt_bot
    · exact absurd hu not_top_lt
    · obtain ⟨z, hvz, hzw⟩ := exists_between (after_lt_before_iff.mp h)
      exact ⟨z, (after_lt_before_iff.mpr hvz).le, (after_lt_before_iff.mpr hzw).le⟩
    · exact ⟨w, (after_lt_before_iff.mpr (after_lt_after_iff.mp h)).le, le_rfl⟩

end Chardb.Lib
