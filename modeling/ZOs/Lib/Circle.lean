import Mathlib.Data.Fintype.Pigeonhole
import Mathlib.Data.Int.ModEq
import Mathlib.Order.Monotone.Basic

/-!
# Short steps around a circle

Places on a circle of `n` points. If a step of at most `d` points leads
from every place of a list to a place of it again, then the list goes all
the way round, so it has at least `n / d` places.
-/

namespace Circle

variable {places : List Nat} {n d x : Nat}

/-- From every place, a step forward leads to another one. -/
def StepsOn (places : List Nat) (n d : Nat) : Prop :=
  ∀ x ∈ places, ∃ step, 0 < step ∧ step ≤ d ∧ (x + step) % n ∈ places

/-- The way of a walk that follows the steps. -/
theorem StepsOn.way (h : StepsOn places n d) (hx : x % n ∈ places) :
    ∃ way : Nat → Nat, ∀ m, way m % n ∈ places ∧ way m < way (m + 1) ∧
      way (m + 1) ≤ way m + d := by
  have hnext (y : { y // y % n ∈ places }) :
      ∃ z : { z // z % n ∈ places }, y.1 < z.1 ∧ z.1 ≤ y.1 + d := by
    obtain ⟨step, hpos, hle, hmem⟩ := h _ y.2
    rw [Nat.mod_add_mod] at hmem
    exact ⟨⟨y.1 + step, hmem⟩, Nat.lt_add_of_pos_right hpos, Nat.add_le_add_left hle _⟩
  choose next hlt hle using hnext
  refine ⟨fun m => (next^[m] ⟨x, hx⟩).1, fun m => ⟨(next^[m] ⟨x, hx⟩).2, ?_, ?_⟩⟩
  · dsimp only
    rw [Function.iterate_succ_apply']
    exact hlt _
  · dsimp only
    rw [Function.iterate_succ_apply']
    exact hle _

theorem way_le {way : Nat → Nat} (hway : ∀ m, way (m + 1) ≤ way m + d) (a k : Nat) :
    way (a + k) ≤ way a + k * d := by
  induction k with
  | zero => simp
  | succ k ih =>
    have hstep := hway (a + k)
    rw [Nat.succ_mul, ← Nat.add_assoc a k 1]
    omega

/-- A list with such steps is long. -/
theorem StepsOn.le_length (h : StepsOn places n d) (hx : x % n ∈ places) :
    n ≤ places.length * d := by
  obtain ⟨way, hway⟩ := h.way hx
  have hindex m : ∃ i : Fin places.length, places.get i = way m % n := List.get_of_mem (hway m).1
  choose index hindex using hindex
  -- two of the first places of the way are the same
  obtain ⟨a, b, hne, hsame⟩ := Fintype.exists_ne_map_eq_of_card_lt
    (fun m : Fin (places.length + 1) => index m) (by simp)
  have hmono := strictMono_nat_of_lt_succ fun m => (hway m).2.1
  have hmod : way a % n = way b % n := by
    rw [← hindex a, ← hindex b]
    exact congrArg places.get hsame
  have hround {a b : Nat} (hab : a < b) (hb : b ≤ places.length) (hmod : way a % n = way b % n) :
      n ≤ places.length * d := by
    have hlt := hmono hab
    have hle := way_le (fun m => (hway m).2.2) a (b - a)
    rw [Nat.add_sub_cancel' (Nat.le_of_lt hab)] at hle
    have hdvd : n ∣ way b - way a := (Nat.modEq_iff_dvd' (Nat.le_of_lt hlt)).mp hmod
    calc n ≤ way b - way a := Nat.le_of_dvd (Nat.sub_pos_of_lt hlt) hdvd
      _ ≤ (b - a) * d := Nat.sub_le_iff_le_add'.mpr hle
      _ ≤ places.length * d := Nat.mul_le_mul_right d (Nat.le_trans (Nat.sub_le ..) hb)
  rcases Nat.lt_or_gt_of_ne (Fin.val_ne_of_ne hne) with hab | hba
  · exact hround hab (Nat.le_of_lt_succ b.2) hmod
  · exact hround hba (Nat.le_of_lt_succ a.2) hmod.symm

end Circle
