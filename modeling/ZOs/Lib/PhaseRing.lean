import Mathlib.Algebra.Ring.Nat
import Mathlib.Logic.Function.Basic

/-!
# Rings with a phase bit

A producer writes a sequence of entries into the `m` slots of a ring, lap
after lap, and marks each with the phase of its lap. A consumer that shares
no counter with it sees from the phase of a slot whether the next entry is
there. `Window` says what the slots hold after `E` entries: the last `m` of
them, and slots that were never written. `Window.ready_iff` is the protocol
and `Window.push` what a write does.
-/

namespace PhaseRing

/-- The phase of a lap: 1 for the first one, then alternating. -/
def phase (lap : Nat) : Nat := (lap + 1) % 2

theorem phase_zero : phase 0 = 1 := rfl

theorem phase_succ (lap : Nat) : phase (lap + 1) = if phase lap = 0 then 1 else 0 := by
  unfold phase
  split <;> omega

theorem phase_ne_succ (lap : Nat) : phase lap ≠ phase (lap + 1) := by
  unfold phase
  omega

theorem phase_le (lap : Nat) : phase lap ≤ 1 := by
  unfold phase
  omega

variable {α : Type*} {m E R : Nat} {cycle : α → Nat} {slots : Nat → α} {stored : Nat → α}

/-- After `E` entries the ring holds the last `m` of them, each with the
phase of its lap; a slot that was never written has phase 0. -/
structure Window (m : Nat) (cycle : α → Nat) (slots stored : Nat → α) (E : Nat) : Prop where
  pos : 0 < m
  recent : ∀ e, e < E → E ≤ e + m → slots (e % m) = stored e
  fresh : ∀ j, E ≤ j → j < m → cycle (slots j) = 0
  cycle : ∀ e, e < E → cycle (stored e) = phase (e / m)

/-- A ring in which every slot has phase 0 holds nothing. -/
theorem Window.empty (hm : 0 < m) (h : ∀ j < m, cycle (slots j) = 0) (stored : Nat → α) :
    Window m cycle slots stored 0 :=
  ⟨hm, by simp, fun j _ hj => h j hj, by simp⟩

/-- Entry `R` is there exactly when its slot has the phase of its lap. -/
theorem Window.ready_iff (h : Window m cycle slots stored E) (hle : R ≤ E) (hwin : E ≤ R + m) :
    cycle (slots (R % m)) = phase (R / m) ↔ R < E := by
  have hm := h.pos
  by_cases hlt : R < E
  · rw [h.recent R hlt hwin, h.cycle R hlt]
    exact iff_of_true rfl hlt
  · have heq : R = E := by omega
    refine iff_of_false ?_ hlt
    by_cases hlap : R < m
    · -- the slot has never been written
      have hdiv : R / m = 0 := Nat.div_eq_of_lt hlap
      rw [Nat.mod_eq_of_lt hlap, h.fresh R (by omega) hlap, hdiv, phase_zero]
      omega
    · -- the slot still holds the entry of the lap before
      obtain ⟨k, rfl⟩ : ∃ k, R = k + m := ⟨R - m, by omega⟩
      rw [Nat.add_mod_right, Nat.add_div_right k hm, h.recent k (by omega) (by omega),
        h.cycle k (by omega)]
      exact phase_ne_succ _

/-- The next entry, read from its slot. -/
theorem Window.read (h : Window m cycle slots stored E) (hlt : R < E) (hwin : E ≤ R + m) :
    slots (R % m) = stored R :=
  h.recent R hlt hwin

/-- The next entry, written to its slot. -/
theorem Window.push (h : Window m cycle slots stored E) {a : α} (ha : cycle a = phase (E / m))
    {stored' : Nat → α} (hnew : stored' E = a) (hold : ∀ e, e < E → stored' e = stored e) :
    Window m cycle (Function.update slots (E % m) a) stored' (E + 1) where
  pos := h.pos
  recent := by
    intro e he hwin
    by_cases heq : e = E
    · subst heq
      rw [Function.update_self, hnew]
    · have hne : e % m ≠ E % m := by
        intro hmod
        -- two entries of one slot are at least a lap apart
        have hsame : (E - e) % m = 0 := Nat.sub_mod_eq_zero_of_mod_eq hmod.symm
        have hsmall : (E - e) % m = E - e := Nat.mod_eq_of_lt (by omega)
        omega
      rw [Function.update_of_ne hne, hold e (by omega)]
      exact h.recent e (by omega) (by omega)
  fresh := by
    intro j hj hjm
    have hmod : E % m = E := Nat.mod_eq_of_lt (by omega)
    rw [hmod, Function.update_of_ne (by omega)]
    exact h.fresh j (by omega) hjm
  cycle := by
    intro e he
    by_cases heq : e = E
    · subst heq
      rw [hnew, ha]
    · rw [hold e (by omega)]
      exact h.cycle e (by omega)

/-- A step of the index behind entry `e`, as code with a wrap-around
computes it. -/
theorem succ_mod_div (hm : 0 < m) (e : Nat) :
    ((e + 1) % m = if e % m + 1 = m then 0 else e % m + 1) ∧
      (e + 1) / m = if e % m + 1 = m then e / m + 1 else e / m := by
  have hdiv := Nat.div_add_mod e m
  have hlt := Nat.mod_lt e hm
  by_cases hwrap : e % m + 1 = m
  · rw [if_pos hwrap, if_pos hwrap]
    have heq : e + 1 = m * (e / m + 1) := by
      rw [Nat.mul_add, Nat.mul_one]
      omega
    rw [heq, Nat.mul_mod_right, Nat.mul_div_cancel_left _ hm]
    exact ⟨rfl, rfl⟩
  · rw [if_neg hwrap, if_neg hwrap]
    have heq : e + 1 = e % m + 1 + m * (e / m) := by omega
    constructor
    · rw [heq, Nat.add_mul_mod_self_left, Nat.mod_eq_of_lt (by omega)]
    · rw [heq, Nat.add_mul_div_left _ _ hm, Nat.div_eq_of_lt (by omega), Nat.zero_add]

end PhaseRing
