import Mathlib.Data.List.Basic

/-!
# Patches

Stores of ranges into an addressed memory, one after the other. Where a
memory ends up is said by one rule: all patches over an address agree on its
value, and there is one, or the memory had the value before.
-/

namespace Patches

/-- A range of addresses, and the values that are stored there. -/
structure Patch (α : Type*) where
  start : Nat
  length : Nat
  value : Nat → α

variable {α : Type*} {p : Patch α} {ps : List (Patch α)} {memory : Nat → α} {c : Nat} {x : α}

def Patch.Covers (p : Patch α) (c : Nat) : Prop := p.start ≤ c ∧ c < p.start + p.length

instance (p : Patch α) (c : Nat) : Decidable (p.Covers c) := inferInstanceAs (Decidable (_ ∧ _))

def Patch.store (p : Patch α) (memory : Nat → α) : Nat → α :=
  fun c => if p.Covers c then p.value (c - p.start) else memory c

def storeAll (ps : List (Patch α)) (memory : Nat → α) : Nat → α :=
  ps.foldl (fun memory p => p.store memory) memory

theorem store_eq (hvalue : p.Covers c → p.value (c - p.start) = x)
    (h : ¬p.Covers c → memory c = x) : p.store memory c = x := by
  unfold Patch.store
  split
  · exact hvalue ‹_›
  · exact h ‹_›

/-- The patches over an address agree on its value. -/
theorem storeAll_eq (hvalue : ∀ p ∈ ps, p.Covers c → p.value (c - p.start) = x)
    (h : (∀ p ∈ ps, ¬p.Covers c) → memory c = x) : storeAll ps memory c = x := by
  induction ps generalizing memory with
  | nil => exact h (List.forall_mem_nil _)
  | cons p ps ih =>
    obtain ⟨hhere, hlater⟩ := List.forall_mem_cons.mp hvalue
    refine ih hlater fun hnone => store_eq hhere fun hnot => ?_
    exact h (List.forall_mem_cons.mpr ⟨hnot, hnone⟩)

/-- An address under no patch keeps its value. -/
theorem storeAll_of_not_covers (h : ∀ p ∈ ps, ¬p.Covers c) : storeAll ps memory c = memory c :=
  storeAll_eq (fun p hp hcovers => absurd hcovers (h p hp)) fun _ => rfl

/-- An address under a patch does not depend on what was there. -/
theorem storeAll_congr {memory' : Nat → α} (h : (∀ p ∈ ps, ¬p.Covers c) → memory c = memory' c) :
    storeAll ps memory c = storeAll ps memory' c := by
  induction ps generalizing memory memory' with
  | nil => exact h (List.forall_mem_nil _)
  | cons p ps ih =>
    refine ih fun hnone => ?_
    by_cases hp : p.Covers c
    · exact (if_pos hp).trans (if_pos hp).symm
    · exact (if_neg hp).trans ((h (List.forall_mem_cons.mpr ⟨hp, hnone⟩)).trans (if_neg hp).symm)

end Patches
