import Mathlib.Data.List.Basic

/-!
# Taking turns

A queue is served from its head, and whoever joins it goes to its end. Where
nobody waits, the turn goes to `rest`. A member of the queue cannot be
overtaken: with `k` others before it, it has the turn number `k` from now on
(`Moves.waits`).
-/

namespace Turns

variable {S α : Type*} (queue taken : S → List α) (rest : α)

/-- Some join the queue, and then the head may have its turn; `taken` records
whose turn it was. -/
inductive Move (s s' : S) : Prop
  | join (more : List α) : queue s' = queue s ++ more → taken s' = taken s → Move s s'
  | turn (more : List α) : queue s' = (queue s ++ more).tail →
      taken s' = taken s ++ [(queue s ++ more).head?.getD rest] → Move s s'

/-- Moves one after another. -/
inductive Moves : S → S → Prop
  | refl (s : S) : Moves s s
  | next {s s' s'' : S} : Moves s s' → Move queue taken rest s' s'' → Moves s s''

/-- The turns from `s` to `s'`, seen by the member at place `k`: it moves up by
one with each turn until it has its own. -/
def HasTurn (k : Nat) (x : α) (s s' : S) : Prop :=
  ∃ turns, taken s' = taken s ++ turns ∧
    (turns.length ≤ k → (queue s')[k - turns.length]? = some x) ∧
    (k < turns.length → turns[k]? = some x)

variable {queue taken rest} {s s' s'' : S} {k : Nat} {x : α}

/-- One move more. -/
theorem HasTurn.next (h : HasTurn queue taken k x s s') (hmove : Move queue taken rest s' s'') :
    HasTurn queue taken k x s s'' := by
  obtain ⟨turns, htaken, hwaits, hturn⟩ := h
  cases hmove with
  | join more hqueue htaken' =>
    refine ⟨turns, htaken'.trans htaken, ?_, hturn⟩
    intro hle
    have hold := hwaits hle
    rw [hqueue, List.getElem?_append_left (List.getElem?_eq_some_iff.mp hold).1]
    exact hold
  | turn more hqueue htaken' =>
    refine ⟨turns ++ [(queue s' ++ more).head?.getD rest], ?_, ?_, ?_⟩
    · rw [htaken', htaken, List.append_assoc]
    · intro hle
      rw [List.length_append, List.length_singleton] at hle ⊢
      have hold := hwaits (by omega)
      have hlt := (List.getElem?_eq_some_iff.mp hold).1
      rw [hqueue, List.getElem?_tail, show k - (turns.length + 1) + 1 = k - turns.length by omega,
        List.getElem?_append_left hlt]
      exact hold
    · intro hlt
      rw [List.length_append, List.length_singleton] at hlt
      by_cases hk : k < turns.length
      · rw [List.getElem?_append_left hk]
        exact hturn hk
      -- the turn is that of the head, which is `x`
      · have hold := hwaits (by omega)
        rw [show k - turns.length = 0 by omega] at hold
        have hhead : (queue s' ++ more).head? = some x := by
          rw [List.head?_eq_getElem?, List.getElem?_append_left
            (List.getElem?_eq_some_iff.mp hold).1]
          exact hold
        rw [hhead, List.getElem?_append_right (by omega), show k - turns.length = 0 by omega]
        rfl

/-- Whoever is in the queue has its turn after those before it. -/
theorem Moves.waits (h : Moves queue taken rest s s') (hx : (queue s)[k]? = some x) :
    HasTurn queue taken k x s s' := by
  induction h with
  | refl => exact ⟨[], (List.append_nil _).symm, fun _ => hx, fun h => absurd h (Nat.not_lt_zero k)⟩
  | next _ hmove ih => exact ih.next hmove

end Turns
