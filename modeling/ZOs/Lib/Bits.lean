import Mathlib.Data.BitVec

/-!
# Fields of machine words

`field lo hi` is the mask of the bits from `lo` up to `hi`. A word that is
a multiple of `2 ^ lo` below `2 ^ hi` fits the field, and what is or-ed to
it outside of the field is masked away again.
-/

namespace Bits

variable {w n lo hi i : Nat} {x y m m' : BitVec w}

theorem and_eq_left_of_clear (h : y &&& m = 0) : (x ||| y) &&& m = x &&& m := by
  rw [BitVec.and_or_distrib_right, h]
  exact BitVec.or_zero

theorem and_eq_right_of_clear (h : x &&& m = 0) : (x ||| y) &&& m = y &&& m := by
  rw [BitVec.or_comm]
  exact and_eq_left_of_clear h

/-- A masked word has no bit outside of the mask. -/
theorem and_and_of_clear (h : m &&& m' = 0) : x &&& m &&& m' = 0 := by
  rw [BitVec.and_assoc, h]
  exact BitVec.and_zero

theorem or_and_ne_zero (h : x &&& m ≠ 0) : (x ||| y) &&& m ≠ 0 := by
  intro hzero
  rw [BitVec.and_or_distrib_right] at hzero
  exact h (BitVec.or_eq_zero_iff.mp hzero).1

/-- The bits below `n`. -/
def low (w n : Nat) : BitVec w := BitVec.ofNat w (2 ^ n - 1)

/-- The bits from `lo` up to `hi`. -/
def field (w lo hi : Nat) : BitVec w := low w hi &&& ~~~ low w lo

theorem getLsbD_low (hi : i < w) : (low w n).getLsbD i = decide (i < n) := by
  unfold low
  rw [BitVec.getLsbD_ofNat, Nat.testBit_two_pow_sub_one]
  simp [hi]

theorem getLsbD_field (h : i < w) :
    (field w lo hi).getLsbD i = (decide (lo ≤ i) && decide (i < hi)) := by
  unfold field
  rw [BitVec.getLsbD_and, BitVec.getLsbD_not, getLsbD_low h, getLsbD_low h]
  by_cases hlo : i < lo
  · simp [h, hlo, Nat.not_le.mpr hlo]
  · simp [h, hlo, Nat.not_lt.mp hlo]

/-- Masking the low bits is taking a remainder. -/
theorem toNat_and_low (h : n ≤ w) : (x &&& low w n).toNat = x.toNat % 2 ^ n := by
  have hpow : 2 ^ n - 1 < 2 ^ w :=
    Nat.lt_of_lt_of_le (Nat.sub_lt (Nat.two_pow_pos n) Nat.one_pos)
      (Nat.pow_le_pow_right (by decide) h)
  unfold low
  rw [BitVec.toNat_and, BitVec.toNat_ofNat, Nat.mod_eq_of_lt hpow, Nat.and_two_pow_sub_one_eq_mod]

theorem and_field_eq_self (hlo : x.toNat % 2 ^ lo = 0) (hhi : x.toNat < 2 ^ hi) :
    x &&& field w lo hi = x := by
  apply BitVec.eq_of_getLsbD_eq
  intro i hi'
  rw [BitVec.getLsbD_and, getLsbD_field hi']
  by_cases hge : lo ≤ i
  · by_cases hlt : i < hi
    · simp [hge, hlt]
    · have hbit : x.getLsbD i = false := Nat.testBit_lt_two_pow
        (Nat.lt_of_lt_of_le hhi (Nat.pow_le_pow_right (by decide) (Nat.not_lt.mp hlt)))
      simp [hbit]
  · have hbit : (x.toNat % 2 ^ lo).testBit i = x.toNat.testBit i := by
      rw [Nat.testBit_mod_two_pow, decide_eq_true (Nat.not_le.mp hge), Bool.true_and]
    rw [hlo, Nat.zero_testBit] at hbit
    have hfalse : x.getLsbD i = false := hbit.symm
    simp [hfalse]

theorem field_and_low : field w lo hi &&& low w lo = 0 := by
  unfold field
  rw [BitVec.and_assoc, BitVec.and_comm (~~~ _), BitVec.and_not_self]
  exact BitVec.and_zero

/-- A field and the bits below it. -/
theorem field_or_low (h : lo ≤ hi) : field w lo hi ||| low w lo = low w hi := by
  apply BitVec.eq_of_getLsbD_eq
  intro i hi'
  rw [BitVec.getLsbD_or, getLsbD_field hi', getLsbD_low hi', getLsbD_low hi']
  by_cases hlt : i < lo
  · simp [hlt, Nat.lt_of_lt_of_le hlt h]
  · simp [hlt, Nat.not_lt.mp hlt]

/-- Or-ing an offset to an aligned base adds it. -/
theorem or_eq_add (hlo : x.toNat % 2 ^ lo = 0) (hy : y &&& low w lo = y) : x ||| y = x + y := by
  rw [BitVec.add_eq_or_of_and_eq_zero]
  have hx : x &&& field w lo w = x := and_field_eq_self hlo x.isLt
  calc x &&& y = (x &&& field w lo w) &&& (low w lo &&& y) := by
        rw [hx, BitVec.and_comm (low w lo), hy]
    _ = x &&& (field w lo w &&& low w lo) &&& y := by simp only [BitVec.and_assoc]
    _ = 0 := by
      rw [field_and_low]
      simp

/-- Masking a field takes away what is above it and what is below. -/
theorem toNat_and_field (h : lo ≤ hi) (hi' : hi ≤ w) :
    (x &&& field w lo hi).toNat + x.toNat % 2 ^ lo = x.toNat % 2 ^ hi := by
  have hclear : (x &&& field w lo hi) &&& (x &&& low w lo) = 0 := by
    calc (x &&& field w lo hi) &&& (x &&& low w lo)
        = x &&& (field w lo hi &&& low w lo) := by
          rw [BitVec.and_comm x (low w lo), ← BitVec.and_assoc, BitVec.and_assoc x,
            BitVec.and_comm _ x, ← BitVec.and_assoc, BitVec.and_self]
      _ = 0 := by
        rw [field_and_low]
        exact BitVec.and_zero
  have hsum : (x &&& field w lo hi) + (x &&& low w lo) = x &&& low w hi := by
    rw [BitVec.add_eq_or_of_and_eq_zero _ _ hclear, ← BitVec.and_or_distrib_left, field_or_low h]
  rw [← toNat_and_low (Nat.le_trans h hi'), ← toNat_and_low hi', ← hsum,
    BitVec.toNat_add_of_and_eq_zero hclear]

/-! ## Replacing a field -/

/-- The bits of `y` under the mask, and those of `x` elsewhere. -/
def replace (x mask y : BitVec w) : BitVec w := x &&& ~~~mask ||| y &&& mask

theorem getLsbD_replace (h : i < w) :
    (replace x m y).getLsbD i = if m.getLsbD i then y.getLsbD i else x.getLsbD i := by
  unfold replace
  rw [BitVec.getLsbD_or, BitVec.getLsbD_and, BitVec.getLsbD_and, BitVec.getLsbD_not]
  cases m.getLsbD i <;> simp [h]

/-- Under masks that have no bit in common the order does not matter. -/
theorem replace_comm {y' : BitVec w} (h : m &&& m' = 0) :
    replace (replace x m y) m' y' = replace (replace x m' y') m y := by
  apply BitVec.eq_of_getLsbD_eq
  intro i hi
  have hbit : (m &&& m').getLsbD i = false := by
    rw [h]
    exact BitVec.getLsbD_zero
  rw [BitVec.getLsbD_and] at hbit
  rw [getLsbD_replace hi, getLsbD_replace hi, getLsbD_replace hi, getLsbD_replace hi]
  cases hm : m.getLsbD i <;> cases hm' : m'.getLsbD i <;> simp_all

/-- The field from `lo` up to `hi`, moved down. -/
def getField (x : BitVec w) (lo hi : Nat) : BitVec w := x >>> lo &&& low w (hi - lo)

theorem getLsbD_getField (h : i < w) :
    (getField x lo hi).getLsbD i = (x.getLsbD (lo + i) && decide (i < hi - lo)) := by
  rw [getField, BitVec.getLsbD_and, BitVec.getLsbD_ushiftRight, getLsbD_low h]

/-- A value that fits the field can be read back from it. -/
theorem getField_replace (hw : hi ≤ w) (hy : y.toNat < 2 ^ (hi - lo)) :
    getField (replace x (field w lo hi) (y <<< lo)) lo hi = y := by
  apply BitVec.eq_of_getLsbD_eq
  intro i hi'
  rw [getLsbD_getField hi']
  by_cases hlt : i < hi - lo
  · rw [getLsbD_replace (by omega), getLsbD_field (by omega), BitVec.getLsbD_shiftLeft]
    have hle : lo ≤ lo + i := Nat.le_add_right _ _
    have hsum : lo + i < hi := by omega
    simp [hlt, hle, hsum, Nat.lt_of_lt_of_le hsum hw]
  · have hbit : y.getLsbD i = false := Nat.testBit_lt_two_pow
      (Nat.lt_of_lt_of_le hy (Nat.pow_le_pow_right (by decide) (Nat.not_lt.mp hlt)))
    simp [hlt, hbit]

end Bits
