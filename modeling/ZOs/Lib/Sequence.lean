import Mathlib.Data.List.Basic

/-!
# The first values of a memory

`firstValues f n` are `f 0`, …, `f (n - 1)`. Moving what is behind a place
one place further, or one place back, is an insertion, or a removal.
-/

namespace Sequences

variable {α : Type*} {f g : Nat → α} {n p : Nat} {x : α}

/-- `f 0`, …, `f (n - 1)`. -/
def firstValues (f : Nat → α) (n : Nat) : List α := (List.range n).map f

@[simp] theorem length_firstValues : (firstValues f n).length = n := by simp [firstValues]

@[simp] theorem getElem_firstValues {i : Nat} (h : i < (firstValues f n).length) :
    (firstValues f n)[i] = f i := by simp [firstValues]

theorem firstValues_congr (h : ∀ i < n, g i = f i) : firstValues g n = firstValues f n :=
  List.map_congr_left fun i hi => h i (List.mem_range.mp hi)

/-- The values from `p` on one place further. -/
theorem firstValues_insertIdx (hp : p ≤ n) (hbefore : ∀ i < p, g i = f i) (hat : g p = x)
    (hbehind : ∀ i, p ≤ i → i < n → g (i + 1) = f i) :
    firstValues g (n + 1) = (firstValues f n).insertIdx p x := by
  apply List.ext_getElem
  · rw [List.length_insertIdx_of_le_length (by simpa using hp)]
    simp
  intro i hi hi'
  rw [getElem_firstValues]
  rw [length_firstValues] at hi
  rcases Nat.lt_trichotomy i p with hlt | rfl | hgt
  · rw [List.getElem_insertIdx_of_lt hlt, getElem_firstValues, hbefore i hlt]
  · rw [List.getElem_insertIdx_self, hat]
  · obtain ⟨j, rfl⟩ : ∃ j, i = j + 1 := ⟨i - 1, by omega⟩
    rw [List.getElem_insertIdx_of_gt hgt, getElem_firstValues]
    exact hbehind j (by omega) (by omega)

/-- The values behind `p` one place back. -/
theorem firstValues_eraseIdx (hp : p < n) (hbefore : ∀ i < p, g i = f i)
    (hbehind : ∀ i, p ≤ i → i + 1 < n → g i = f (i + 1)) :
    firstValues g (n - 1) = (firstValues f n).eraseIdx p := by
  apply List.ext_getElem
  · rw [List.length_eraseIdx_of_lt (by simpa using hp)]
    simp
  intro i hi hi'
  rw [length_firstValues] at hi
  rw [getElem_firstValues, List.getElem_eraseIdx]
  split
  · rw [getElem_firstValues, hbefore i ‹_›]
  · rw [getElem_firstValues, hbehind i (by omega) (by omega)]

end Sequences
