import Mathlib.Logic.Basic

/-!
# Counted loops that may fail

`forTo n f` runs `f 0`, …, `f (n - 1)` one after another on an accumulator
and stops at the first that fails. Where it depends on the index only
whether `f` returns, the loop returns exactly when each of its rounds does.
-/

namespace Checked

universe u v

variable {ε : Type u} {α : Type v} {n : Nat} {f : Nat → α → Except ε α} {x y : α}

/-- The computation has a result. -/
def Returns (x : Except ε α) : Prop := ∃ a, x = .ok a

@[simp] theorem returns_ok {a : α} : Returns (.ok a : Except ε α) := ⟨a, rfl⟩

@[simp] theorem not_returns_error {e : ε} : ¬ Returns (.error e : Except ε α) := nofun

@[simp] theorem pure_eq_ok {a : α} : (pure a : Except ε α) = .ok a := rfl

@[simp] theorem throw_eq_error {e : ε} : (throw e : Except ε α) = .error e := rfl

@[simp] theorem ok_bind {β : Type v} {a : α} {g : α → Except ε β} :
    (Except.ok a >>= g) = g a := rfl

@[simp] theorem error_bind {β : Type v} {e : ε} {g : α → Except ε β} :
    (Except.error e >>= g) = .error e := rfl

/-- A sequence returns when both of its parts do. -/
@[simp] theorem returns_bind {β : Type v} {x : Except ε α} {g : α → Except ε β} :
    Returns (x >>= g) ↔ ∃ a, x = .ok a ∧ Returns (g a) := by
  cases x with
  | ok a => simp [bind, Except.bind]
  | error e => simp [bind, Except.bind, Returns]

theorem bind_eq_ok {β : Type v} {x : Except ε α} {g : α → Except ε β} {b : β} :
    x >>= g = .ok b ↔ ∃ a, x = .ok a ∧ g a = .ok b := by
  cases x <;> simp [bind, Except.bind]

/-- `for (i = 0; i < n; i++)`. -/
def forTo : Nat → (Nat → α → Except ε α) → α → Except ε α
  | 0, _, x => .ok x
  | n + 1, f, x => (forTo n f x).bind (f n)

theorem forTo_succ_ok :
    forTo (n + 1) f x = .ok y ↔ ∃ z, forTo n f x = .ok z ∧ f n z = .ok y := by
  cases h : forTo n f x <;> simp [forTo, h, Except.bind]

/-- What every round keeps is kept by the loop. -/
theorem forTo_keeps (Inv : α → Prop) (hkeeps : ∀ i x y, Inv x → f i x = .ok y → Inv y)
    (hx : Inv x) (h : forTo n f x = .ok y) : Inv y := by
  induction n generalizing y with
  | zero =>
    cases h
    exact hx
  | succ n ih =>
    obtain ⟨z, hz, hy⟩ := forTo_succ_ok.mp h
    exact hkeeps n z y (ih hz) hy

/-- An invariant that counts the rounds. -/
theorem forTo_counts (Inv : Nat → α → Prop) (h : forTo n f x = .ok y) (hx : Inv 0 x)
    (hround : ∀ i x y, Inv i x → f i x = .ok y → Inv (i + 1) y) : Inv n y := by
  induction n generalizing y with
  | zero =>
    cases h
    exact hx
  | succ n ih =>
    obtain ⟨z, hz, hy⟩ := forTo_succ_ok.mp h
    exact hround n z y (ih hz) hy

/-- Where each round returns and keeps an invariant that counts them, the loop
returns. -/
theorem forTo_reaches (Inv : Nat → α → Prop)
    (hround : ∀ i x, i < n → Inv i x → ∃ y, f i x = .ok y ∧ Inv (i + 1) y) (hx : Inv 0 x) :
    ∃ y, forTo n f x = .ok y ∧ Inv n y := by
  induction n with
  | zero => exact ⟨x, rfl, hx⟩
  | succ n ih =>
    obtain ⟨z, hz, hinv⟩ := ih fun i x hi => hround i x (Nat.lt_succ_of_lt hi)
    obtain ⟨y, hy, hlast⟩ := hround n z (Nat.lt_succ_self n) hinv
    exact ⟨y, forTo_succ_ok.mpr ⟨z, hz, hy⟩, hlast⟩

/-- A loop whose states are known, and that fails in known rounds. -/
theorem forTo_eq {e : ε} {bad : Nat → Prop} [DecidablePred bad] (state : Nat → α)
    (hround : ∀ i < n, f i (state i) = if bad i then .error e else .ok (state (i + 1))) :
    forTo n f (state 0) = if ∃ i < n, bad i then .error e else .ok (state n) := by
  induction n with
  | zero => simp [forTo]
  | succ n ih =>
    rw [forTo, ih fun i hi => hround i (Nat.lt_succ_of_lt hi)]
    by_cases hbefore : ∃ i < n, bad i
    · obtain ⟨i, hi, hbad⟩ := hbefore
      rw [if_pos ⟨i, hi, hbad⟩, if_pos ⟨i, Nat.lt_succ_of_lt hi, hbad⟩]
      rfl
    · rw [if_neg hbefore]
      refine (hround n (Nat.lt_succ_self n)).trans ?_
      by_cases hlast : bad n
      · rw [if_pos hlast, if_pos ⟨n, Nat.lt_succ_self n, hlast⟩]
      · rw [if_neg hlast, if_neg]
        rintro ⟨i, hi, hbad⟩
        rcases Nat.lt_succ_iff_lt_or_eq.mp hi with hlt | rfl
        · exact hbefore ⟨i, hlt, hbad⟩
        · exact hlast hbad

/-- The loop returns exactly when each of its rounds does. -/
theorem forTo_returns_iff (Inv : α → Prop) {P : Nat → Prop}
    (hkeeps : ∀ i x y, Inv x → f i x = .ok y → Inv y)
    (hround : ∀ i x, Inv x → (Returns (f i x) ↔ P i)) (hx : Inv x) :
    Returns (forTo n f x) ↔ ∀ i < n, P i := by
  induction n with
  | zero => simp [forTo]
  | succ n ih =>
    rw [Nat.forall_lt_succ_right, ← ih]
    constructor
    · rintro ⟨y, hy⟩
      obtain ⟨z, hz, hlast⟩ := forTo_succ_ok.mp hy
      exact ⟨⟨z, hz⟩, (hround n z (forTo_keeps Inv hkeeps hx hz)).mp ⟨y, hlast⟩⟩
    · rintro ⟨⟨z, hz⟩, hlast⟩
      obtain ⟨y, hy⟩ := (hround n z (forTo_keeps Inv hkeeps hx hz)).mpr hlast
      exact ⟨y, forTo_succ_ok.mpr ⟨z, hz, hy⟩⟩

/-! ## Two loops, one in the other -/

section

variable {m : Nat} {f : Nat → Nat → α → Except ε α}

/-- The loops return exactly when each of their rounds does. -/
theorem forTo_forTo_returns_iff (Inv : α → Prop) {P : Nat → Nat → Prop}
    (hkeeps : ∀ i j x y, Inv x → f i j x = .ok y → Inv y)
    (hround : ∀ i j x, Inv x → (Returns (f i j x) ↔ P i j)) (hx : Inv x) :
    Returns (forTo m (fun i => forTo n (f i)) x) ↔ ∀ i < m, ∀ j < n, P i j :=
  forTo_returns_iff Inv (fun i _ _ hinv hrow => forTo_keeps Inv (hkeeps i) hinv hrow)
    (fun i _ hinv => forTo_returns_iff Inv (hkeeps i) (hround i) hinv) hx

/-- Where each round returns and keeps an invariant, the loops return. -/
theorem forTo_forTo_reaches (Inv : α → Prop)
    (hround : ∀ i j x, i < m → j < n → Inv x → ∃ y, f i j x = .ok y ∧ Inv y) (hx : Inv x) :
    ∃ y, forTo m (fun i => forTo n (f i)) x = .ok y ∧ Inv y :=
  forTo_reaches (fun _ => Inv) (fun i _ hi hinv =>
    forTo_reaches (fun _ => Inv) (fun j x hj => hround i j x hi hj) hinv) hx

/-- An invariant of the rounds that are done, each of them once. -/
theorem forTo_forTo_once (Inv : (Nat → Nat → Prop) → α → Prop)
    (h : forTo m (fun i => forTo n (f i)) x = .ok y) (hx : Inv (fun _ _ => False) x)
    (hround : ∀ D i j x y, i < m → j < n → ¬D i j → Inv D x → f i j x = .ok y →
      Inv (fun i' j' => D i' j' ∨ i' = i ∧ j' = j) y) :
    Inv (fun i j => i < m ∧ j < n) y := by
  have hcongr {D D' : Nat → Nat → Prop} {z : α} (hD : ∀ i j, D i j ↔ D' i j) (hz : Inv D z) :
      Inv D' z := by
    rwa [show D' = D from funext fun i => funext fun j => propext (hD i j).symm]
  apply forTo_counts (fun k z => k ≤ m → Inv (fun i j => i < k ∧ j < n) z) h _ _ (Nat.le_refl m)
  · exact fun _ => hcongr (fun i j => by simp) hx
  intro k y z hy hrow hk
  -- the rows above `k`, and of row `k` the columns left of `l`
  have hlast := forTo_counts
    (fun l z => l ≤ n → Inv (fun i j => i < k ∧ j < n ∨ i = k ∧ j < l) z) hrow
    (fun _ => hcongr (fun i j => by simp) (hy (Nat.le_of_lt hk))) fun l y z hy hone hl =>
      hcongr (fun i j => by omega)
        (hround _ k l y z hk hl (by omega) (hy (Nat.le_of_lt hl)) hone)
  exact hcongr (fun i j => by omega) (hlast (Nat.le_refl n))

/-- An invariant of the rounds that are done. -/
theorem forTo_forTo_counts (Inv : (Nat → Nat → Prop) → α → Prop)
    (h : forTo m (fun i => forTo n (f i)) x = .ok y) (hx : Inv (fun _ _ => False) x)
    (hround : ∀ D i j x y, Inv D x → f i j x = .ok y →
      Inv (fun i' j' => D i' j' ∨ i' = i ∧ j' = j) y) :
    Inv (fun i j => i < m ∧ j < n) y :=
  forTo_forTo_once Inv h hx fun D i j x y _ _ _ => hround D i j x y

end

end Checked
