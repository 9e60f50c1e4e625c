import Mathlib.Logic.Basic
import Mathlib.Tactic.Common

/-!
# Computations over a store

`Tx ε σ α` is a program over a store `σ` that returns an `α` or throws an `ε`, and
leaves a store in both cases. `transactionSync` puts the old store back when the
program throws. `x.Returns s a s'` and `x.Throws s e s'` read off one run; the
lemmas named after them take a run of a compound program apart.
-/

namespace Chardb.Lib

/-- A computation that may fail and returns has returned at each of its steps. -/
theorem bind_ok {ε α β : Type} {x : Except ε α} {f : α → Except ε β} {b : β}
    (h : (x >>= f) = .ok b) : ∃ a, x = .ok a ∧ f a = .ok b := by
  cases x with
  | error e => cases h
  | ok a => exact ⟨a, rfl, h⟩

/-- A program over the store `σ`: it returns or throws, and leaves a store in both cases. -/
def Tx (ε σ α : Type) : Type := σ → Except ε α × σ

namespace Tx

variable {ε σ α β : Type}

instance : Monad (Tx ε σ) where
  pure a := fun s => (.ok a, s)
  bind x f := fun s =>
    match x s with
    | (.ok a, s') => f a s'
    | (.error e, s') => (.error e, s')

/-- Stop with `e`; the store stays as it is. -/
def throw (e : ε) : Tx ε σ α := fun s => (.error e, s)

/-- Look at the store. -/
def gets (f : σ → α) : Tx ε σ α := fun s => (.ok (f s), s)

/-- Change the store. -/
def modify (f : σ → σ) : Tx ε σ Unit := fun s => (.ok (), f s)

/-- Go on if `p` holds, throw `e` otherwise. -/
def require (p : Prop) [Decidable p] (e : ε) : Tx ε σ Unit :=
  if p then pure () else throw e

/-- Go on with the value, throw `e` when there is none. -/
def ofOption (o : Option α) (e : ε) : Tx ε σ α :=
  match o with
  | some a => pure a
  | none => throw e

/-- Go on with the value of `x`, or throw its error. -/
def ofExcept : Except ε α → Tx ε σ α
  | .ok a => pure a
  | .error e => throw e

/-- Run `x`; a throw puts the old store back. -/
def transactionSync (x : Tx ε σ α) : Tx ε σ α := fun s =>
  match x s with
  | (.ok a, s') => (.ok a, s')
  | (.error e, _) => (.error e, s)

/-- Run `x` on a part of the store. -/
def zoom {τ : Type} (get : τ → σ) (set : τ → σ → τ) (x : Tx ε σ α) : Tx ε τ α := fun t =>
  match x (get t) with
  | (r, s') => (r, set t s')

/-- `x` returns `a` from the store `s` and leaves `s'`. -/
def Returns (x : Tx ε σ α) (s : σ) (a : α) (s' : σ) : Prop := x s = (.ok a, s')

/-- `x` throws `e` from the store `s` and leaves `s'`. -/
def Throws (x : Tx ε σ α) (s : σ) (e : ε) (s' : σ) : Prop := x s = (.error e, s')

/-- The store after a run, returned from or thrown out of. -/
def after (x : Tx ε σ α) (s : σ) : σ := (x s).2

theorem returns_or_throws (x : Tx ε σ α) (s : σ) :
    (∃ a, x.Returns s a (x.after s)) ∨ ∃ e, x.Throws s e (x.after s) := by
  unfold Returns Throws after
  rcases x s with ⟨a | a, s'⟩
  · exact .inr ⟨a, rfl⟩
  · exact .inl ⟨a, rfl⟩

theorem Returns.after {x : Tx ε σ α} {s s' : σ} {a : α} (h : x.Returns s a s') :
    x.after s = s' := by
  unfold Tx.after; rw [h]

theorem Throws.after {x : Tx ε σ α} {s s' : σ} {e : ε} (h : x.Throws s e s') :
    x.after s = s' := by
  unfold Tx.after; rw [h]

theorem Returns.not_throws {x : Tx ε σ α} {s s' s'' : σ} {a : α} {e : ε}
    (h : x.Returns s a s') : ¬ x.Throws s e s'' := by
  intro h'; unfold Returns at h; unfold Throws at h'; rw [h] at h'; cases h'

theorem Returns.unique {x : Tx ε σ α} {s s₁ s₂ : σ} {a₁ a₂ : α}
    (h₁ : x.Returns s a₁ s₁) (h₂ : x.Returns s a₂ s₂) : a₁ = a₂ ∧ s₁ = s₂ := by
  unfold Returns at h₁ h₂; rw [h₁] at h₂; cases h₂; exact ⟨rfl, rfl⟩

/-! ## Taking a run apart -/

@[simp] theorem pure_returns {s s' : σ} {a b : α} :
    (pure a : Tx ε σ α).Returns s b s' ↔ b = a ∧ s = s' := by
  show ((Except.ok a, s) = (Except.ok b, s')) ↔ _
  simp [eq_comm]

@[simp] theorem pure_throws {s s' : σ} {a : α} {e : ε} :
    (pure a : Tx ε σ α).Throws s e s' ↔ False := by
  show ((Except.ok a, s) = (Except.error e, s')) ↔ _
  simp

@[simp] theorem throw_returns {s s' : σ} {a : α} {e : ε} :
    (throw e : Tx ε σ α).Returns s a s' ↔ False := by
  simp [Returns, throw]

@[simp] theorem throw_throws {s s' : σ} {e e' : ε} :
    (throw e : Tx ε σ α).Throws s e' s' ↔ e' = e ∧ s' = s := by
  simp [Throws, throw, eq_comm]

@[simp] theorem bind_returns {x : Tx ε σ α} {f : α → Tx ε σ β} {s s' : σ} {b : β} :
    (x >>= f).Returns s b s' ↔ ∃ a t, x.Returns s a t ∧ (f a).Returns t b s' := by
  show (match x s with
    | (.ok a, t) => f a t
    | (.error e, t) => (Except.error e, t)) = (Except.ok b, s') ↔ _
  unfold Returns
  rcases x s with ⟨e | a, t⟩
  · simp
  · constructor
    · intro h; exact ⟨a, t, rfl, h⟩
    · rintro ⟨a', t', h, h'⟩; cases h; exact h'

@[simp] theorem bind_throws {x : Tx ε σ α} {f : α → Tx ε σ β} {s s' : σ} {e : ε} :
    (x >>= f).Throws s e s' ↔
      x.Throws s e s' ∨ ∃ a t, x.Returns s a t ∧ (f a).Throws t e s' := by
  show (match x s with
    | (.ok a, t) => f a t
    | (.error e, t) => (Except.error e, t)) = (Except.error e, s') ↔ _
  unfold Returns Throws
  rcases x s with ⟨e' | a, t⟩
  · simp
  · constructor
    · intro h; exact .inr ⟨a, t, rfl, h⟩
    · rintro (h | ⟨a', t', h, h'⟩)
      · cases h
      · cases h; exact h'

theorem Returns.after_bind {x : Tx ε σ α} {f : α → Tx ε σ β} {s t : σ} {a : α}
    (h : x.Returns s a t) : (x >>= f).after s = (f a).after t := by
  rcases (f a).returns_or_throws t with ⟨b, h'⟩ | ⟨e, h'⟩
  · exact (bind_returns.mpr ⟨a, t, h, h'⟩).after
  · exact (bind_throws.mpr (.inr ⟨a, t, h, h'⟩)).after

theorem Throws.after_bind {x : Tx ε σ α} {f : α → Tx ε σ β} {s t : σ} {e : ε}
    (h : x.Throws s e t) : (x >>= f).after s = t := (bind_throws.mpr (.inl h)).after

@[simp] theorem map_returns {x : Tx ε σ α} {f : α → β} {s s' : σ} {b : β} :
    (f <$> x).Returns s b s' ↔ ∃ a, x.Returns s a s' ∧ b = f a := by
  show (x >>= fun a => pure (f a)).Returns s b s' ↔ _
  simp only [bind_returns, pure_returns]
  constructor
  · rintro ⟨a, t, h, hb, rfl⟩; exact ⟨a, h, hb⟩
  · rintro ⟨a, h, hb⟩; exact ⟨a, s', h, hb, rfl⟩

@[simp] theorem map_throws {x : Tx ε σ α} {f : α → β} {s s' : σ} {e : ε} :
    (f <$> x).Throws s e s' ↔ x.Throws s e s' := by
  show (x >>= fun a => pure (f a)).Throws s e s' ↔ _
  simp

@[simp] theorem gets_returns {f : σ → α} {s s' : σ} {a : α} :
    (gets f : Tx ε σ α).Returns s a s' ↔ a = f s ∧ s = s' := by
  simp [Returns, gets, eq_comm]

@[simp] theorem gets_throws {f : σ → α} {s s' : σ} {e : ε} :
    (gets f : Tx ε σ α).Throws s e s' ↔ False := by
  simp [Throws, gets]

@[simp] theorem modify_returns {f : σ → σ} {s s' : σ} {a : Unit} :
    (modify f : Tx ε σ Unit).Returns s a s' ↔ s' = f s := by
  simp [Returns, modify, eq_comm]

@[simp] theorem modify_throws {f : σ → σ} {s s' : σ} {e : ε} :
    (modify f : Tx ε σ Unit).Throws s e s' ↔ False := by
  simp [Throws, modify]

@[simp] theorem require_returns {p : Prop} [Decidable p] {e : ε} {s s' : σ} {a : Unit} :
    (require p e : Tx ε σ Unit).Returns s a s' ↔ p ∧ s = s' := by
  unfold require; split <;> simp_all

@[simp] theorem require_throws {p : Prop} [Decidable p] {e e' : ε} {s s' : σ} :
    (require p e : Tx ε σ Unit).Throws s e' s' ↔ ¬ p ∧ e' = e ∧ s' = s := by
  unfold require; split <;> simp_all

@[simp] theorem ofOption_returns {o : Option α} {e : ε} {s s' : σ} {a : α} :
    (ofOption o e : Tx ε σ α).Returns s a s' ↔ o = some a ∧ s = s' := by
  cases o <;> simp [ofOption, eq_comm]

@[simp] theorem ofOption_throws {o : Option α} {e e' : ε} {s s' : σ} :
    (ofOption o e : Tx ε σ α).Throws s e' s' ↔ o = none ∧ e' = e ∧ s' = s := by
  cases o <;> simp [ofOption]

@[simp] theorem ofExcept_returns {x : Except ε α} {s s' : σ} {a : α} :
    (ofExcept x : Tx ε σ α).Returns s a s' ↔ x = .ok a ∧ s = s' := by
  cases x <;> simp [ofExcept, eq_comm]

@[simp] theorem ofExcept_throws {x : Except ε α} {e : ε} {s s' : σ} :
    (ofExcept x : Tx ε σ α).Throws s e s' ↔ x = .error e ∧ s' = s := by
  cases x <;> simp [ofExcept, eq_comm]

@[simp] theorem transactionSync_returns {x : Tx ε σ α} {s s' : σ} {a : α} :
    (transactionSync x).Returns s a s' ↔ x.Returns s a s' := by
  unfold Returns transactionSync; rcases x s with ⟨e | b, t⟩ <;> simp

@[simp] theorem transactionSync_throws {x : Tx ε σ α} {s s' : σ} {e : ε} :
    (transactionSync x).Throws s e s' ↔ s' = s ∧ ∃ t, x.Throws s e t := by
  unfold Throws transactionSync
  rcases x s with ⟨e' | b, t⟩
  · simp only [Prod.mk.injEq, Except.error.injEq]
    constructor
    · rintro ⟨rfl, rfl⟩; exact ⟨rfl, t, rfl, rfl⟩
    · rintro ⟨rfl, _, h, _⟩; exact ⟨h, rfl⟩
  · simp

@[simp] theorem zoom_returns {τ : Type} {get : τ → σ} {set : τ → σ → τ} {x : Tx ε σ α}
    {t t' : τ} {a : α} :
    (zoom get set x).Returns t a t' ↔ ∃ s', x.Returns (get t) a s' ∧ t' = set t s' := by
  unfold Returns zoom; rcases x (get t) with ⟨e | b, s⟩
  · simp
  · constructor
    · intro h; cases h; exact ⟨s, rfl, rfl⟩
    · rintro ⟨s', h, rfl⟩; cases h; rfl

@[simp] theorem zoom_throws {τ : Type} {get : τ → σ} {set : τ → σ → τ} {x : Tx ε σ α}
    {t t' : τ} {e : ε} :
    (zoom get set x).Throws t e t' ↔ ∃ s', x.Throws (get t) e s' ∧ t' = set t s' := by
  unfold Throws zoom; rcases x (get t) with ⟨e' | b, s⟩
  · constructor
    · intro h; cases h; exact ⟨s, rfl, rfl⟩
    · rintro ⟨s', h, rfl⟩; cases h; rfl
  · simp

theorem ite_returns {p : Prop} [Decidable p] {x y : Tx ε σ α} {s s' : σ} {a : α} :
    (if p then x else y).Returns s a s' ↔ (p ∧ x.Returns s a s') ∨ (¬ p ∧ y.Returns s a s') := by
  split <;> simp_all

theorem ite_throws {p : Prop} [Decidable p] {x y : Tx ε σ α} {s s' : σ} {e : ε} :
    (if p then x else y).Throws s e s' ↔ (p ∧ x.Throws s e s') ∨ (¬ p ∧ y.Throws s e s') := by
  split <;> simp_all

instance : LawfulMonad (Tx ε σ) := LawfulMonad.mk' _
  (by
    intro α x; funext s
    show (match x s with | (.ok a, t) => (.ok a, t) | (.error e, t) => (.error e, t)) = x s
    rcases x s with ⟨e | a, t⟩ <;> rfl)
  (fun _ _ => rfl)
  (by
    intro α β γ x f g; funext s
    show (match (match x s with | (.ok a, t) => f a t | (.error e, t) => (.error e, t)) with
        | (.ok b, t) => g b t
        | (.error e, t) => (.error e, t)) =
      match x s with
        | (.ok a, t) => (f a >>= g) t
        | (.error e, t) => (.error e, t)
    rcases x s with ⟨e | a, t⟩ <;> rfl)

/-- A `mapM` of checks that answer their argument answers the list it was given. -/
theorem mapM_returns_self {f : α → Tx ε σ α} {s s' : σ} {l l' : List α}
    (hf : ∀ a b t, (f a).Returns s b t → b = a ∧ s = t) (h : (l.mapM f).Returns s l' s') :
    l' = l ∧ s = s' := by
  induction l generalizing l' with
  | nil => simpa using h
  | cons a l ih =>
    simp only [List.mapM_cons, bind_returns, pure_returns] at h
    obtain ⟨b, t, hb, l₁, t', hl, rfl, rfl⟩ := h
    obtain ⟨rfl, rfl⟩ := hf _ _ _ hb
    obtain ⟨rfl, rfl⟩ := ih hl
    exact ⟨rfl, rfl⟩

/-! ## Programs that only look, and programs that change nothing when they throw -/

/-- `x` never changes the store. -/
def ReadOnly (x : Tx ε σ α) : Prop := ∀ s, x.after s = s

/-- A throw of `x` leaves the store it found. -/
def Atomic (x : Tx ε σ α) : Prop := ∀ ⦃s e s'⦄, x.Throws s e s' → s' = s

theorem ReadOnly.returns {x : Tx ε σ α} (hx : x.ReadOnly) {s s' : σ} {a : α}
    (h : x.Returns s a s') : s = s' := by
  rw [← h.after]; exact (hx s).symm

theorem ReadOnly.atomic {x : Tx ε σ α} (hx : x.ReadOnly) : x.Atomic := by
  intro s e s' h; rw [← h.after]; exact hx s

theorem mapM_throws {f : α → Tx ε σ β} {s s' : σ} {e : ε} {l : List α}
    (hf : ∀ a, (f a).ReadOnly) (h : (l.mapM f).Throws s e s') :
    ∃ a ∈ l, (f a).Throws s e s' := by
  induction l with
  | nil => simp at h
  | cons a l ih =>
    simp only [List.mapM_cons, bind_throws, pure_throws, or_false, exists_false, and_false] at h
    rcases h with h | ⟨b, t, hb, h⟩
    · exact ⟨a, List.mem_cons_self, h⟩
    · rw [← (hf a).returns hb] at h
      obtain ⟨a', ha', h⟩ := ih h
      exact ⟨a', List.mem_cons_of_mem _ ha', h⟩

theorem readOnly_pure (a : α) : (pure a : Tx ε σ α).ReadOnly := fun _ => rfl

theorem readOnly_throw (e : ε) : (throw e : Tx ε σ α).ReadOnly := fun _ => rfl

theorem readOnly_gets (f : σ → α) : (gets f : Tx ε σ α).ReadOnly := fun _ => rfl

theorem readOnly_require (p : Prop) [Decidable p] (e : ε) :
    (require p e : Tx ε σ Unit).ReadOnly := by
  unfold require; split
  · exact readOnly_pure _
  · exact readOnly_throw _

theorem readOnly_ofOption (o : Option α) (e : ε) : (ofOption o e : Tx ε σ α).ReadOnly := by
  cases o with
  | none => exact readOnly_throw e
  | some a => exact readOnly_pure a

theorem readOnly_ofExcept (x : Except ε α) : (ofExcept x : Tx ε σ α).ReadOnly := by
  cases x with
  | error e => exact readOnly_throw e
  | ok a => exact readOnly_pure a

theorem ReadOnly.bind {x : Tx ε σ α} {f : α → Tx ε σ β} (hx : x.ReadOnly)
    (hf : ∀ a, (f a).ReadOnly) : (x >>= f).ReadOnly := by
  intro s
  rcases (x >>= f).returns_or_throws s with ⟨b, h⟩ | ⟨e, h⟩
  · obtain ⟨a, t, h₁, h₂⟩ := bind_returns.mp h
    rw [← (hf a).returns h₂, ← hx.returns h₁]
  · rcases bind_throws.mp h with h₁ | ⟨a, t, h₁, h₂⟩
    · exact hx.atomic h₁
    · rw [(hf a).atomic h₂, ← hx.returns h₁]

theorem atomic_transactionSync (x : Tx ε σ α) : (transactionSync x).Atomic := by
  intro s e s' h; exact (transactionSync_throws.mp h).1

theorem ReadOnly.bind_atomic {x : Tx ε σ α} {f : α → Tx ε σ β} (hx : x.ReadOnly)
    (hf : ∀ a, (f a).Atomic) : (x >>= f).Atomic := by
  intro s e s' h
  rcases bind_throws.mp h with h | ⟨a, t, h₁, h₂⟩
  · exact hx.atomic h
  · rw [hf a h₂, ← hx.returns h₁]

/-- Where a throw of `x >>= f` comes from: `x` left the store alone, or `f` threw. -/
theorem Atomic.of_bind_throws {x : Tx ε σ α} {f : α → Tx ε σ β} (hx : x.Atomic) {s s' : σ} {e : ε}
    (h : (x >>= f).Throws s e s') : s' = s ∨ ∃ a t, x.Returns s a t ∧ (f a).Throws t e s' :=
  (bind_throws.mp h).imp_left fun h => hx h

theorem ReadOnly.of_bind_throws {x : Tx ε σ α} {f : α → Tx ε σ β} (hx : x.ReadOnly) {s s' : σ}
    {e : ε} (h : (x >>= f).Throws s e s') : s' = s ∨ ∃ a, (f a).Throws s e s' :=
  (hx.atomic.of_bind_throws h).imp_right fun ⟨a, _, hr, h⟩ => ⟨a, (hx.returns hr).symm ▸ h⟩

/-- A program that may no longer throw once `x` has returned is as atomic as `x`. -/
theorem Atomic.bind_total {x : Tx ε σ α} {f : α → Tx ε σ β} (hx : x.Atomic)
    (hf : ∀ ⦃s a t⦄, x.Returns s a t → ∀ e s', ¬ (f a).Throws t e s') : (x >>= f).Atomic := by
  intro s e s' h
  rcases bind_throws.mp h with h | ⟨a, t, h₁, h₂⟩
  · exact hx h
  · exact absurd h₂ (hf h₁ _ _)

/-! ## Parts of the store that a program leaves alone -/

/-- `x` leaves the part `f` of the store as it is, returned from or thrown out of. -/
def Frames (f : σ → β) (x : Tx ε σ α) : Prop := ∀ s, f (x.after s) = f s

section
variable {γ : Type} {f : σ → γ}

theorem Frames.returns {x : Tx ε σ α} (hx : x.Frames f) {s s' : σ} {a : α} (h : x.Returns s a s') :
    f s' = f s := by
  rw [← h.after]; exact hx s

theorem Frames.throws {x : Tx ε σ α} (hx : x.Frames f) {s s' : σ} {e : ε} (h : x.Throws s e s') :
    f s' = f s := by
  rw [← h.after]; exact hx s

theorem ReadOnly.frames {x : Tx ε σ α} (hx : x.ReadOnly) : x.Frames f := fun s => congrArg f (hx s)

theorem Frames.bind {x : Tx ε σ α} {g : α → Tx ε σ β} (hx : x.Frames f) (hg : ∀ a, (g a).Frames f) :
    (x >>= g).Frames f := by
  intro s
  rcases (x >>= g).returns_or_throws s with ⟨b, h⟩ | ⟨e, h⟩
  · obtain ⟨a, t, h₁, h₂⟩ := bind_returns.mp h
    rw [(hg a).returns h₂, hx.returns h₁]
  · rcases bind_throws.mp h with h₁ | ⟨a, t, h₁, h₂⟩
    · exact hx.throws h₁
    · rw [(hg a).throws h₂, hx.returns h₁]

theorem Frames.modify {g : σ → σ} (hg : ∀ s, f (g s) = f s) : (modify g : Tx ε σ Unit).Frames f := hg

/-- A program on one part of the store leaves the others alone. -/
theorem Frames.zoom {τ : Type} {get : σ → τ} {set : σ → τ → σ} {x : Tx ε τ α}
    (hset : ∀ s t, f (set s t) = f s) : (zoom get set x).Frames f := by
  intro s
  rcases (Tx.zoom get set x).returns_or_throws s with ⟨a, h⟩ | ⟨e, h⟩
  · obtain ⟨t, -, ht⟩ := zoom_returns.mp h
    rw [ht]; exact hset _ _
  · obtain ⟨t, -, ht⟩ := zoom_throws.mp h
    rw [ht]; exact hset _ _

end

/-! ## Transactions on a part of the store -/

/-- Run `x`; a throw puts back the part of the store that `get` reads. -/
def transactionOn {τ : Type} (get : σ → τ) (set : σ → τ → σ) (x : Tx ε σ α) : Tx ε σ α := fun s =>
  match x s with
  | (.ok a, s') => (.ok a, s')
  | (.error e, s') => (.error e, set s' (get s))

@[simp] theorem transactionOn_returns {τ : Type} {get : σ → τ} {set : σ → τ → σ} {x : Tx ε σ α}
    {s s' : σ} {a : α} : (transactionOn get set x).Returns s a s' ↔ x.Returns s a s' := by
  unfold Returns transactionOn; rcases x s with ⟨e | b, t⟩ <;> simp

@[simp] theorem transactionOn_throws {τ : Type} {get : σ → τ} {set : σ → τ → σ} {x : Tx ε σ α}
    {s s' : σ} {e : ε} : (transactionOn get set x).Throws s e s' ↔
      ∃ t, x.Throws s e t ∧ s' = set t (get s) := by
  unfold Throws transactionOn
  rcases x s with ⟨e' | b, t⟩
  · simp only [Prod.mk.injEq, Except.error.injEq]
    constructor
    · rintro ⟨rfl, rfl⟩; exact ⟨t, ⟨rfl, rfl⟩, rfl⟩
    · rintro ⟨_, ⟨rfl, rfl⟩, rfl⟩; exact ⟨rfl, rfl⟩
  · simp

/-! ## Invariants of the store -/

/-- `x` keeps `I`, returned from or thrown out of. -/
def Keeps (I : σ → Prop) (x : Tx ε σ α) : Prop := ∀ ⦃s⦄, I s → I (x.after s)

/-- An atomic program keeps `I` as soon as its returns do. -/
theorem Atomic.keeps {I : σ → Prop} {x : Tx ε σ α} (hx : x.Atomic)
    (h : ∀ ⦃s a s'⦄, I s → x.Returns s a s' → I s') : x.Keeps I := by
  intro s hs
  rcases x.returns_or_throws s with ⟨a, hr⟩ | ⟨e, ht⟩
  · exact h hs hr
  · rw [hx ht]; exact hs

/-- `x` keeps `I` when it returns. -/
def Preserves (I : σ → Prop) (x : Tx ε σ α) : Prop := ∀ ⦃s a s'⦄, I s → x.Returns s a s' → I s'

theorem ReadOnly.preserves {I : σ → Prop} {x : Tx ε σ α} (hx : x.ReadOnly) : x.Preserves I := by
  intro s a s' hs h
  obtain rfl := hx.returns h; exact hs

theorem Preserves.bind {I : σ → Prop} {x : Tx ε σ α} {f : α → Tx ε σ β} (hx : x.Preserves I)
    (hf : ∀ a, (f a).Preserves I) : (x >>= f).Preserves I := by
  intro s b s' hs h
  obtain ⟨a, t, ha, hb⟩ := bind_returns.mp h
  exact hf a (hx hs ha) hb

theorem Preserves.ite {I : σ → Prop} {p : Prop} [Decidable p] {x y : Tx ε σ α} (hx : p → x.Preserves I)
    (hy : ¬ p → y.Preserves I) : (if p then x else y).Preserves I := by
  by_cases hp : p
  · rw [if_pos hp]; exact hx hp
  · rw [if_neg hp]; exact hy hp

/-- A transaction keeps what its program keeps when it returns. -/
theorem Preserves.transactionSync {I : σ → Prop} {x : Tx ε σ α} (hx : x.Preserves I) :
    (transactionSync x).Keeps I :=
  (atomic_transactionSync x).keeps fun _ _ _ hs h => hx hs (transactionSync_returns.mp h)

theorem Keeps.preserves {I : σ → Prop} {x : Tx ε σ α} (hx : x.Keeps I) : x.Preserves I := by
  intro s a s' hs h
  rw [← h.after]; exact hx hs

/-! ## What a program can throw -/

/-- Whatever `x` throws satisfies `P`. -/
def ThrowsOnly (P : ε → Prop) (x : Tx ε σ α) : Prop := ∀ ⦃s e s'⦄, x.Throws s e s' → P e

section
variable {P Q : ε → Prop} {x : Tx ε σ α}

theorem throwsOnly_pure (a : α) : (pure a : Tx ε σ α).ThrowsOnly P := by
  intro s e s' h; simp at h

theorem throwsOnly_gets (f : σ → α) : (gets f : Tx ε σ α).ThrowsOnly P := by
  intro s e s' h; simp at h

theorem throwsOnly_modify (f : σ → σ) : (modify f : Tx ε σ Unit).ThrowsOnly P := by
  intro s e s' h; simp at h

theorem throwsOnly_throw {e : ε} (he : P e) : (throw e : Tx ε σ α).ThrowsOnly P := by
  intro s e' s' h
  obtain ⟨rfl, -⟩ := throw_throws.mp h
  exact he

theorem throwsOnly_require {p : Prop} [Decidable p] {e : ε} (he : P e) :
    (require p e : Tx ε σ Unit).ThrowsOnly P := by
  intro s e' s' h
  obtain ⟨-, rfl, -⟩ := require_throws.mp h
  exact he

theorem throwsOnly_ofOption {o : Option α} {e : ε} (he : P e) :
    (ofOption o e : Tx ε σ α).ThrowsOnly P := by
  intro s e' s' h
  obtain ⟨-, rfl, -⟩ := ofOption_throws.mp h
  exact he

theorem throwsOnly_ofExcept {o : Except ε α} (ho : ∀ e, o = .error e → P e) :
    (ofExcept o : Tx ε σ α).ThrowsOnly P := by
  intro s e' s' h
  exact ho _ (ofExcept_throws.mp h).1

theorem ThrowsOnly.bind {f : α → Tx ε σ β} (hx : x.ThrowsOnly P) (hf : ∀ a, (f a).ThrowsOnly P) :
    (x >>= f).ThrowsOnly P := by
  intro s e s' h
  rcases bind_throws.mp h with h | ⟨a, t, -, h⟩
  · exact hx h
  · exact hf a h

theorem ThrowsOnly.ite {p : Prop} [Decidable p] {y : Tx ε σ α} (hx : x.ThrowsOnly P)
    (hy : y.ThrowsOnly P) : (if p then x else y).ThrowsOnly P := by
  by_cases hp : p
  · rw [if_pos hp]; exact hx
  · rw [if_neg hp]; exact hy

theorem ThrowsOnly.zoom {τ : Type} {get : τ → σ} {set : τ → σ → τ} (hx : x.ThrowsOnly P) :
    (zoom get set x).ThrowsOnly P := by
  intro s e s' h
  obtain ⟨t, ht, -⟩ := zoom_throws.mp h
  exact hx ht

end

end Tx

end Chardb.Lib
