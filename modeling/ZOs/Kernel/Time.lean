import Mathlib.Algebra.Ring.Nat

/-!
# The time

`time.c`. Ticks become nanoseconds by a product of 64 bits and a division; as
soon as the product wraps, the quotient is not that of the ticks.
-/

namespace ZOs.Time

abbrev Word := BitVec 64

/-- `get_time_ns`, with the counter and its frequency. -/
def getTimeNs (ticks freq : Word) : Word := ticks * 1000000000 / freq

/-- `get_time_ms`. -/
def getTimeMs (ticks freq : Word) : Word := getTimeNs ticks freq / 1000000

/-- Both times are those of the ticks, rounded down. -/
structure Exact (ticks freq : Word) : Prop where
  ns : (getTimeNs ticks freq).toNat = ticks.toNat * 1000000000 / freq.toNat
  ms : (getTimeMs ticks freq).toNat = ticks.toNat * 1000 / freq.toNat

variable {ticks freq : Word}

theorem getTimeNs_toNat : (getTimeNs ticks freq).toNat =
    ticks.toNat * 1000000000 % 2 ^ 64 / freq.toNat := by
  rw [getTimeNs, BitVec.toNat_udiv, BitVec.toNat_mul]
  rfl

theorem getTimeMs_toNat : (getTimeMs ticks freq).toNat =
    (getTimeNs ticks freq).toNat / 1000000 := by
  rw [getTimeMs, BitVec.toNat_udiv]
  rfl

/-- Numbers with the same quotient are less than the divisor apart, so that a
number that is reduced modulo more than the divisor has another one. -/
theorem mod_div_eq_iff {n m d : Nat} (hd : 0 < d) (hm : d ≤ m) : n % m / d = n / d ↔ n < m := by
  constructor
  · intro h
    by_contra hge
    have hless : n % m + m ≤ n := by
      have hquot := Nat.mod_add_div n m
      have hone : m * 1 ≤ m * (n / m) :=
        Nat.mul_le_mul_left m (Nat.div_pos (Nat.le_of_not_lt hge) (by omega))
      omega
    have hstep : n % m / d + 1 ≤ n / d := by
      rw [← Nat.add_div_right _ hd]
      exact Nat.div_le_div_right (by omega)
    omega
  · intro h
    rw [Nat.mod_eq_of_lt h]

theorem exact_iff (hfreq : 0 < freq.toNat) :
    Exact ticks freq ↔ ticks.toNat * 1000000000 < 2 ^ 64 := by
  have hns := mod_div_eq_iff (n := ticks.toNat * 1000000000) hfreq (Nat.le_of_lt freq.isLt)
  constructor
  · intro h
    rw [← hns, ← getTimeNs_toNat]
    exact h.ns
  · intro h
    have hexact : (getTimeNs ticks freq).toNat = ticks.toNat * 1000000000 / freq.toNat := by
      rw [getTimeNs_toNat]
      exact hns.mpr h
    refine ⟨hexact, ?_⟩
    calc (getTimeMs ticks freq).toNat
        = ticks.toNat * 1000000000 / freq.toNat / 1000000 := by rw [getTimeMs_toNat, hexact]
      _ = ticks.toNat * 1000 * 1000000 / (freq.toNat * 1000000) := by
        rw [Nat.div_div_eq_div_mul, Nat.mul_assoc]
      _ = ticks.toNat * 1000 / freq.toNat := Nat.mul_div_mul_right _ _ (by decide)

/-- From a tick to a later one, time is exact at both and does not run
backwards, exactly when the product of the later one fits into 64 bits. -/
theorem time_exact_iff {ticks₁ ticks₂ freq : Word} (hfreq : 0 < freq.toNat)
    (hle : ticks₁.toNat ≤ ticks₂.toNat) :
    (getTimeNs ticks₁ freq ≤ getTimeNs ticks₂ freq ∧ Exact ticks₁ freq ∧ Exact ticks₂ freq) ↔
      ticks₂.toNat * 1000000000 < 2 ^ 64 := by
  constructor
  · rintro ⟨-, -, h⟩
    exact (exact_iff hfreq).mp h
  · intro h
    have h₁ : Exact ticks₁ freq :=
      (exact_iff hfreq).mpr (Nat.lt_of_le_of_lt (Nat.mul_le_mul_right _ hle) h)
    have h₂ := (exact_iff hfreq).mpr h
    refine ⟨?_, h₁, h₂⟩
    rw [BitVec.le_def, h₁.ns, h₂.ns]
    exact Nat.div_le_div_right (Nat.mul_le_mul_right _ hle)

/-- At 62.5 MHz, one tick and two ticks. -/
theorem twoTicks_exact : getTimeNs 1 62500000 ≤ getTimeNs 2 62500000 ∧
    Exact 1 62500000 ∧ Exact 2 62500000 :=
  (time_exact_iff (by decide) (by decide)).mpr (by decide)

/-- At 62.5 MHz, time runs backwards at tick 18446744074, after 295 seconds. -/
theorem time_backwards :
    ¬getTimeNs 18446744073 62500000 ≤ getTimeNs 18446744074 62500000 ∧
      18446744074 * 1000000000 / 62500000 < 2 ^ 64 := by
  decide

end ZOs.Time
