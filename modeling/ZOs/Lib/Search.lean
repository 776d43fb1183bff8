import Mathlib.Data.List.Basic

/-!
# Searching a list

`looked p l` is what a search for the first hit of `p` looks at. Searches for
two things come to the same exactly when the first hit of either is a hit of
both.
-/

namespace Search

variable {α : Type*} {p q : α → Bool} {l l' : List α}

/-- Everything up to the first hit. -/
def looked (p : α → Bool) : List α → List α
  | [] => []
  | a :: l => if p a then [a] else a :: looked p l

theorem looked_append : looked p (l ++ l') =
    if (l.find? p).isSome then looked p l else l ++ looked p l' := by
  induction l with
  | nil => rfl
  | cons a l ih =>
    rw [List.cons_append, looked, List.find?_cons, ih]
    cases hp : p a with
    | true => simp [looked, hp]
    | false =>
      simp only [looked, hp, Bool.false_eq_true, if_false]
      split
      · rfl
      · rfl

theorem looked_subset : looked p l ⊆ l := by
  induction l with
  | nil => exact List.Subset.refl _
  | cons a l ih =>
    rw [looked]
    split
    · exact List.cons_subset_cons _ (List.nil_subset l)
    · exact List.cons_subset_cons _ ih

/-- A search begins with the first element. -/
theorem head_mem_looked {a : α} : a ∈ looked p (a :: l) := by
  rw [looked]
  split
  · exact List.mem_cons_self
  · exact List.mem_cons_self

theorem looked_ne_nil (h : l ≠ []) : looked p l ≠ [] := by
  obtain ⟨a, l, rfl⟩ := List.exists_cons_of_ne_nil h
  exact List.ne_nil_of_mem head_mem_looked

/-- Two searches find the same exactly when the first hit of either is a hit
of both. -/
theorem find?_eq_find?_iff : l.find? p = l.find? q ↔
    ∀ a, l.find? (fun a => p a || q a) = some a → p a ∧ q a := by
  induction l with
  | nil => simp
  | cons a l ih =>
    rw [List.find?_cons, List.find?_cons, List.find?_cons]
    cases hp : p a with
    | true =>
      cases hq : q a with
      | true => simp [hp, hq]
      | false =>
        have hne : some a ≠ l.find? q := by
          intro h
          have hhit := List.find?_some h.symm
          rw [hq] at hhit
          cases hhit
        simp [hne, hp, hq]
    | false =>
      cases hq : q a with
      | true =>
        have hne : l.find? p ≠ some a := by
          intro h
          have hhit := List.find?_some h
          rw [hp] at hhit
          cases hhit
        simp [hne, hp, hq]
      | false => exact ih

end Search
