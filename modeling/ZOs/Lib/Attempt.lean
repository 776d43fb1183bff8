import Mathlib.Logic.Basic

/-!
# Computations that may give up

An `Attempt σ α` works on a state and either returns a result or gives up;
the state it gives up in is kept, as when a C function returns -1 after
some of its stores. `Tried x s F P` is its weakest precondition: from `s`,
`x` returns with `P` of the result and the state, or gives up with `F` of
the state. The rules follow the shape of a `do` block.
-/

/-- A computation on a state that may give up. -/
def Attempt (σ α : Type) : Type := σ → Option α × σ

namespace Attempt

variable {σ α β : Type}

instance : Monad (Attempt σ) where
  pure a s := (some a, s)
  bind x f s :=
    match x s with
    | (some a, s') => f a s'
    | (none, s') => (none, s')

/-- Stop here, without a result. -/
def giveUp : Attempt σ α := fun s => (none, s)

/-- Read the state. -/
def read (f : σ → α) : Attempt σ α := fun s => (some (f s), s)

/-- Change the state. -/
def modify (f : σ → σ) : Attempt σ Unit := fun s => (some (), f s)

/-- `P` of what `x` returns from `s`, or `F` of the state it gives up in. -/
def Tried (x : Attempt σ α) (s : σ) (F : σ → Prop) (P : α → σ → Prop) : Prop :=
  match x s with
  | (some a, s') => P a s'
  | (none, s') => F s'

variable {x : Attempt σ α} {s s' : σ} {F F' : σ → Prop} {P P' : α → σ → Prop}

@[simp] theorem tried_pure {a : α} : Tried (pure a) s F P ↔ P a s := Iff.rfl

@[simp] theorem tried_giveUp : Tried (giveUp : Attempt σ α) s F P ↔ F s := Iff.rfl

@[simp] theorem tried_read {f : σ → α} : Tried (read f) s F P ↔ P (f s) s := Iff.rfl

@[simp] theorem tried_modify {f : σ → σ} {P : Unit → σ → Prop} :
    Tried (modify f) s F P ↔ P () (f s) := Iff.rfl

/-- The rule for sequencing. -/
theorem tried_bind {f : α → Attempt σ β} {R : β → σ → Prop} :
    Tried (x >>= f) s F R ↔ Tried x s F fun a s' => Tried (f a) s' F R := by
  show (match (match x s with
      | (some a, s') => f a s'
      | (none, s') => (none, s')) with
    | (some b, s') => R b s'
    | (none, s') => F s') ↔ _
  unfold Tried
  rcases x s with ⟨_ | a, s'⟩ <;> rfl

theorem tried_ite {c : Prop} [Decidable c] {y : Attempt σ α} :
    Tried (if c then x else y) s F P ↔ if c then Tried x s F P else Tried y s F P := by
  split <;> rfl

/-- The rule of consequence. -/
theorem Tried.mono (h : Tried x s F P) (hF : ∀ s', F s' → F' s')
    (hP : ∀ a s', P a s' → P' a s') : Tried x s F' P' := by
  revert h
  unfold Tried
  rcases x s with ⟨_ | a, s'⟩
  · exact hF s'
  · exact hP a s'

theorem Tried.and (h : Tried x s F P) (h' : Tried x s F' P') :
    Tried x s (fun s' => F s' ∧ F' s') fun a s' => P a s' ∧ P' a s' := by
  revert h h'
  unfold Tried
  rcases x s with ⟨_ | a, s'⟩
  · exact And.intro
  · exact And.intro

/-- What always holds holds of every outcome. -/
theorem tried_of_forall (hF : ∀ s', F s') (hP : ∀ a s', P a s') : Tried x s F P := by
  unfold Tried
  rcases x s with ⟨_ | a, s'⟩
  · exact hF s'
  · exact hP a s'

theorem Tried.returned {a : α} (h : Tried x s F P) (hx : x s = (some a, s')) : P a s' := by
  unfold Tried at h
  rw [hx] at h
  exact h

theorem tried_of_eq {a : α} (hx : x s = (some a, s')) (h : P a s') : Tried x s F P := by
  unfold Tried
  rw [hx]
  exact h

theorem Tried.gaveUp (h : Tried x s F P) (hx : x s = (none, s')) : F s' := by
  unfold Tried at h
  rw [hx] at h
  exact h

/-- What cannot give up returns. -/
theorem Tried.returns (h : Tried x s F P) (hF : ∀ s', ¬F s') :
    ∃ a s', x s = (some a, s') ∧ P a s' := by
  rcases hx : x s with ⟨_ | a, s'⟩
  · exact absurd (h.gaveUp hx) (hF s')
  · exact ⟨a, s', rfl, h.returned hx⟩

/-- What holds however `x` ends holds of the state it ends in. -/
theorem Tried.state (h : Tried x s F fun _ => F) : F (x s).2 := by
  unfold Tried at h
  rcases hx : x s with ⟨_ | a, s'⟩
  · rw [hx] at h
    exact h
  · rw [hx] at h
    exact h

theorem bind_eq {f : α → Attempt σ β} {a : α} (hx : x s = (some a, s')) :
    (x >>= f) s = f a s' := by
  show (match x s with
    | (some a, s') => f a s'
    | (none, s') => (none, s')) = _
  rw [hx]

theorem bind_gaveUp {f : α → Attempt σ β} (hx : x s = (none, s')) : (x >>= f) s = (none, s') := by
  show (match x s with
    | (some a, s') => f a s'
    | (none, s') => (none, s')) = _
  rw [hx]

/-- A sequence returns when both of its parts do. -/
theorem bind_returned {f : α → Attempt σ β} {b : β} :
    (x >>= f) s = (some b, s') ↔ ∃ a s₁, x s = (some a, s₁) ∧ f a s₁ = (some b, s') := by
  show (match x s with
      | (some a, s') => f a s'
      | (none, s') => (none, s')) = _ ↔ _
  rcases x s with ⟨_ | a, s₁⟩
  · constructor
    · intro h
      cases h
    · rintro ⟨_, _, h, _⟩
      cases h
  · constructor
    · exact fun h => ⟨a, s₁, rfl, h⟩
    · rintro ⟨_, _, h, hf⟩
      cases h
      exact hf

/-- Whether it returns or gives up, `x` ends in a state that `R` relates to
the one it started in. -/
def Moves (R : σ → σ → Prop) (x : Attempt σ α) : Prop := ∀ s, R s (x s).2

section
variable {R : σ → σ → Prop}

theorem moves_pure (hrefl : ∀ s, R s s) (a : α) : Moves R (pure a) := fun s => hrefl s

theorem moves_giveUp (hrefl : ∀ s, R s s) : Moves R (giveUp : Attempt σ α) := fun s => hrefl s

theorem moves_read (hrefl : ∀ s, R s s) (f : σ → α) : Moves R (read f) := fun s => hrefl s

theorem moves_bind {f : α → Attempt σ β} (htrans : ∀ {s s' s''}, R s s' → R s' s'' → R s s'')
    (hx : Moves R x) (hf : ∀ a, Moves R (f a)) : Moves R (x >>= f) := by
  intro s
  show R s (match x s with
    | (some a, s') => f a s'
    | (none, s') => (none, s')).2
  have hmove := hx s
  rcases hs : x s with ⟨_ | a, s'⟩
  · rw [hs] at hmove
    exact hmove
  · rw [hs] at hmove
    exact htrans hmove (hf a s')

theorem moves_ite {c : Prop} [Decidable c] {y : Attempt σ α} (hx : Moves R x) (hy : Moves R y) :
    Moves R (if c then x else y) := by
  split
  · exact hx
  · exact hy

end

end Attempt
