import Mathlib.Data.List.Nodup
import Mathlib.Logic.Function.Basic
import Mathlib.Algebra.Group.Defs

/-!
# Chains of links in memory

A memory that stores one successor pointer per node is a function
`next : α → α`, with `0` as the null pointer. `Chain next p xs` says that
following `next` from `p` visits exactly `xs`, in order, and then reaches
null. The memory determines the list (`Chain.unique`), so a chain never
meets the same node twice (`Chain.nodup`), and a write to a node that is
not on the chain leaves it alone (`Chain.update_of_notMem`).
-/

namespace LinkedMem

variable {α : Type*} [Zero α]

/-- Following `next` from `p` visits exactly `xs` and then reaches null. -/
def Chain (next : α → α) : α → List α → Prop
  | p, [] => p = 0
  | p, x :: xs => p = x ∧ x ≠ 0 ∧ Chain next (next x) xs

variable {next next' : α → α} {p x y : α} {xs ys : List α}

@[simp] theorem chain_nil : Chain next p [] ↔ p = 0 := Iff.rfl

@[simp] theorem chain_cons :
    Chain next p (x :: xs) ↔ p = x ∧ x ≠ 0 ∧ Chain next (next x) xs := Iff.rfl

/-- The start pointer is null exactly when the chain is empty. -/
theorem Chain.start_eq_zero_iff (h : Chain next p xs) : p = 0 ↔ xs = [] := by
  cases xs with
  | nil => simpa using h
  | cons x xs =>
    obtain ⟨rfl, hx, _⟩ := h
    simp [hx]

/-- The memory determines the list. -/
theorem Chain.unique (h : Chain next p xs) (h' : Chain next p ys) : xs = ys := by
  induction xs generalizing p ys with
  | nil =>
    have hp : p = 0 := h
    exact (h'.start_eq_zero_iff.mp hp).symm
  | cons x xs ih =>
    obtain ⟨rfl, hx, ht⟩ := h
    cases ys with
    | nil => exact absurd h' hx
    | cons y ys =>
      obtain ⟨rfl, _, ht'⟩ := h'
      rw [ih ht ht']

/-- Every node of a chain starts a chain of its own: the rest of the list. -/
theorem Chain.suffix (h : Chain next p (xs ++ y :: ys)) : Chain next y (y :: ys) := by
  induction xs generalizing p with
  | nil =>
    obtain ⟨_, hy, ht⟩ := h
    exact ⟨rfl, hy, ht⟩
  | cons x xs ih => exact ih h.2.2

theorem Chain.nodup (h : Chain next p xs) : xs.Nodup := by
  induction xs generalizing p with
  | nil => simp
  | cons x xs ih =>
    refine List.nodup_cons.mpr ⟨fun hmem => ?_, ih h.2.2⟩
    -- a second occurrence of `x` would start a shorter chain at `x`
    obtain ⟨as, bs, rfl⟩ := List.append_of_mem hmem
    have hself : Chain next x (x :: (as ++ x :: bs)) := ⟨rfl, h.2.1, h.2.2⟩
    have hlen := congrArg List.length (hself.unique h.2.2.suffix)
    simp only [List.length_cons, List.length_append] at hlen
    omega

theorem Chain.congr (h : Chain next p xs) (heq : ∀ x ∈ xs, next' x = next x) :
    Chain next' p xs := by
  induction xs generalizing p with
  | nil => exact h
  | cons x xs ih =>
    obtain ⟨hp, hx, ht⟩ := h
    refine ⟨hp, hx, ?_⟩
    rw [heq x (by simp)]
    exact ih ht (fun y hy => heq y (by simp [hy]))

variable [DecidableEq α]

/-- A write outside the chain leaves it alone. -/
theorem Chain.update_of_notMem (h : Chain next p xs) (hx : x ∉ xs) (v : α) :
    Chain (Function.update next x v) p xs :=
  h.congr fun y hy => Function.update_of_ne (fun heq => hx (by rwa [← heq])) v next

/-- Pushing a fresh node in front of the chain. -/
theorem Chain.push (h : Chain next p xs) (hx : x ∉ xs) (h0 : x ≠ 0) :
    Chain (Function.update next x p) x (x :: xs) := by
  refine ⟨rfl, h0, ?_⟩
  rw [Function.update_self]
  exact h.update_of_notMem hx p

/-- Bypassing the second node of the chain unlinks it. -/
theorem Chain.bypass (h : Chain next p (x :: y :: ys)) :
    Chain (Function.update next x (next y)) p (x :: ys) := by
  have hxy : x ∉ y :: ys := (List.nodup_cons.mp h.nodup).1
  obtain ⟨hp, hx, _, _, ht⟩ := h
  refine ⟨hp, hx, ?_⟩
  rw [Function.update_self]
  exact ht.update_of_notMem (fun hmem => hxy (List.mem_cons_of_mem _ hmem)) _

end LinkedMem
