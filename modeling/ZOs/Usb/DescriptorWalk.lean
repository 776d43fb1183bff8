import Mathlib.Data.Nat.Find
import Mathlib.Order.Monotone.Basic
import ZOs.Usb.Enumeration

/-!
# The walk through the descriptors

The loop of `enumerate_configuration` goes on by the length byte of the
descriptor it is at. Whatever it does with a descriptor does not matter for
where it comes to, so the walk is a sequence of offsets.
-/

namespace ZOs.UsbCore

/-- Where the loop is after `k` iterations. -/
def offsetAfter (buffer : Bytes) : Nat → Nat
  | 0 => 0
  | k + 1 => offsetAfter buffer k + (buffer (offsetAfter buffer k)).toNat

/-- The loop goes round `k` times and ends. -/
structure EndsAfter (buffer : Bytes) (totalLength k : Nat) : Prop where
  running : ∀ j < k, offsetAfter buffer j < totalLength
  ended : totalLength ≤ offsetAfter buffer k

/-- The loop ends after at most `wTotalLength` iterations. -/
def Terminates (buffer : Bytes) (totalLength : Nat) : Prop :=
  ∃ k ≤ totalLength, EndsAfter buffer totalLength k

section
variable {buffer : Bytes} {totalLength k j fuel : Nat} {c c' : Cursor}

theorem offsetAfter_mono (buffer : Bytes) : Monotone (offsetAfter buffer) :=
  monotone_nat_of_le_succ fun _ => Nat.le_add_right ..

/-- The loop of the model, from where it is after `k` iterations. When it
returns, it has gone round as often as it takes. -/
theorem scan_ends (h : scan buffer totalLength fuel (offsetAfter buffer k) c = .ok c')
    (hbefore : ∀ j < k, offsetAfter buffer j < totalLength) :
    ∃ j < k + fuel, EndsAfter buffer totalLength j := by
  induction fuel generalizing k c with
  | zero => cases h
  | succ fuel ih =>
    unfold scan at h
    split at h
    · rename_i hlt
      cases htake : c.takeDescriptor buffer (offsetAfter buffer k) with
      | error f =>
        rw [htake] at h
        cases h
      | ok c₁ =>
        rw [htake] at h
        cases hread : readByte buffer (offsetAfter buffer k) with
        | error f =>
          simp only [bind, Except.bind, hread] at h
          cases h
        | ok length =>
          have hlength : length = buffer (offsetAfter buffer k) := by
            unfold readByte at hread
            split at hread
            · cases hread
              rfl
            · cases hread
          simp only [bind, Except.bind, hread] at h
          subst hlength
          have hnext : ∀ j < k + 1, offsetAfter buffer j < totalLength := by
            intro j hj
            rcases Nat.lt_succ_iff_lt_or_eq.mp hj with hj | rfl
            · exact hbefore j hj
            · exact hlt
          have hrest : scan buffer totalLength fuel (offsetAfter buffer (k + 1)) c₁ = .ok c' := h
          obtain ⟨j, hj, hends⟩ := ih hrest hnext
          exact ⟨j, by omega, hends⟩
    · rename_i hge
      exact ⟨k, by omega, hbefore, Nat.le_of_not_lt hge⟩

/-- Where a length is 0, the loop stays. -/
theorem offsetAfter_stuck (hzero : buffer (offsetAfter buffer k) = 0) (j : Nat) :
    offsetAfter buffer (k + j) = offsetAfter buffer k := by
  induction j with
  | zero => rfl
  | succ j ih =>
    have hstep : offsetAfter buffer (k + (j + 1)) =
        offsetAfter buffer (k + j) + (buffer (offsetAfter buffer (k + j))).toNat := rfl
    rw [hstep, ih, hzero]
    rfl

/-- Where no length is 0, every iteration takes the loop a byte further. -/
theorem le_offsetAfter
    (hpositive : ∀ k, offsetAfter buffer k < totalLength → buffer (offsetAfter buffer k) ≠ 0)
    (k : Nat) : k ≤ offsetAfter buffer k ∨ totalLength ≤ offsetAfter buffer k := by
  induction k with
  | zero => exact .inl (Nat.le_refl 0)
  | succ k ih =>
    have hle : offsetAfter buffer k ≤ offsetAfter buffer (k + 1) := Nat.le_add_right ..
    by_cases hlt : offsetAfter buffer k < totalLength
    · have hlength : 0 < (buffer (offsetAfter buffer k)).toNat := by
        apply Nat.pos_of_ne_zero
        exact fun hzero => hpositive k hlt (UInt8.toNat_inj.mp hzero)
      have hstep : offsetAfter buffer (k + 1) =
          offsetAfter buffer k + (buffer (offsetAfter buffer k)).toNat := rfl
      omega
    · omega

end

/-- The walk terminates exactly if no descriptor that it comes to has the
length 0. -/
theorem descriptorWalk_terminates_iff (buffer : Bytes) (totalLength : Nat) :
    Terminates buffer totalLength ↔
      ∀ k, offsetAfter buffer k < totalLength → buffer (offsetAfter buffer k) ≠ 0 := by
  constructor
  · rintro ⟨k, _, hends⟩ j hlt hzero
    rcases Nat.le_total j k with hjk | hkj
    · -- the loop would still be there after `k` iterations
      obtain ⟨i, rfl⟩ := Nat.exists_eq_add_of_le hjk
      have hended := hends.ended
      rw [offsetAfter_stuck hzero] at hended
      omega
    · have hmono := offsetAfter_mono buffer hkj
      have hended := hends.ended
      omega
  · intro hpositive
    have hreached : ∃ k, totalLength ≤ offsetAfter buffer k := by
      refine ⟨totalLength, ?_⟩
      rcases le_offsetAfter hpositive totalLength with hle | hle <;> exact hle
    refine ⟨Nat.find hreached, ?_, ?_, Nat.find_spec hreached⟩
    · apply Nat.find_min' hreached
      rcases le_offsetAfter hpositive totalLength with hle | hle <;> exact hle
    · exact fun j hj => Nat.lt_of_not_le (Nat.find_min hreached hj)

/-- A block of zeros: the loop never ends. -/
theorem zeroBlock_runs_on : ¬ ∀ buffer totalLength, Terminates buffer totalLength := by
  intro h
  obtain ⟨k, _, hends⟩ := h (fun _ => 0) 9
  have hstuck : offsetAfter (fun _ => 0) (0 + k) = 0 := offsetAfter_stuck rfl k
  have hended := hends.ended
  rw [Nat.zero_add] at hstuck
  rw [hstuck] at hended
  exact absurd hended (by decide)

end ZOs.UsbCore
