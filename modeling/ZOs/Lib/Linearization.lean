import Mathlib.Data.List.Basic

/-!
# Calls that take effect one at a time

Callers call an object, wait, and are answered, and their calls overlap. The
object is linearizable if what it did is also done by some order of the calls,
one at a time, in which each has the result that its caller got and no call
comes before one that was answered before it was made.

The order is built up with the run: a call is made (`Linearizes.invoke`), it
takes effect at the end of the order so far (`Linearizes.effect`), and it is
answered by what it had as its result there (`Linearizes.respond`).
-/

namespace Linearization

variable {σ K O R : Type*}

/-- What callers see: a call is made under a key of its own, or answered. -/
inductive Event (K O R : Type*)
  | invoke (key : K) (op : O)
  | respond (key : K) (result : R)

/-- A call with its result, in a run of one call at a time. -/
structure Entry (K O R : Type*) where
  key : K
  op : O
  result : R

/-- The calls are done one after another. -/
inductive Executes (spec : σ → O → R → σ → Prop) (c : σ) : List (Entry K O R) → σ → Prop
  | nil : Executes spec c [] c
  | snoc {order : List (Entry K O R)} {c' c'' : σ} {e : Entry K O R} :
      Executes spec c order c' → spec c' e.op e.result c'' → Executes spec c (order ++ [e]) c''

/-- Some `x` of the list is before some `y` of it. -/
def Precedes {α : Type*} (l : List α) (x y : α) : Prop := ∃ a b, l = a ++ b ∧ x ∈ a ∧ y ∈ b

/-- The keys of the calls that have taken effect. -/
def keys (order : List (Entry K O R)) : List K := order.map Entry.key

/-- The calls of `order`, one at a time, explain the events. -/
structure Linearizes (spec : σ → O → R → σ → Prop) (c : σ) (events : List (Event K O R))
    (order : List (Entry K O R)) (c' : σ) : Prop where
  executes : Executes spec c order c'
  once : (keys order).Nodup
  invoked : ∀ e ∈ order, Event.invoke e.key e.op ∈ events
  answered : ∀ key result, Event.respond key result ∈ events →
    ∃ e ∈ order, e.key = key ∧ e.result = result
  realTime : ∀ key result key' op, Precedes events (.respond key result) (.invoke key' op) →
    key' ∈ keys order → Precedes (keys order) key key'

/-- Some order of the calls explains the events. -/
def Linearizable (spec : σ → O → R → σ → Prop) (c : σ) (events : List (Event K O R)) (c' : σ) :
    Prop :=
  ∃ order, Linearizes spec c events order c'

/-! ## Before and after -/

section

variable {α : Type*} {l more : List α} {x y z : α}

theorem Precedes.append (h : Precedes l x y) : Precedes (l ++ more) x y := by
  obtain ⟨a, b, rfl, hx, hy⟩ := h
  exact ⟨a, b ++ more, List.append_assoc .., hx, List.mem_append_left _ hy⟩

theorem Precedes.of_last (h : x ∈ l) : Precedes (l ++ [y]) x y :=
  ⟨l, [y], rfl, h, List.mem_singleton_self y⟩

theorem Precedes.left (h : Precedes l x y) : x ∈ l := by
  obtain ⟨a, b, rfl, hx, _⟩ := h
  exact List.mem_append_left _ hx

/-- With one element more, either both were there or `y` is the new one. -/
theorem Precedes.of_append (h : Precedes (l ++ [z]) x y) : Precedes l x y ∨ (x ∈ l ∧ y = z) := by
  obtain ⟨a, b, hl, hx, hy⟩ := h
  rcases List.eq_nil_or_concat b with rfl | ⟨b, t, rfl⟩
  · simp at hy
  · rw [List.concat_eq_append, ← List.append_assoc] at hl
    obtain ⟨rfl, ht⟩ := List.append_inj' hl rfl
    cases ht
    rcases List.mem_append.mp (List.concat_eq_append ▸ hy) with hy | hy
    · exact .inl ⟨a, b, rfl, hx, hy⟩
    · exact .inr ⟨List.mem_append_left _ hx, List.mem_singleton.mp hy⟩

end

/-! ## The three rules -/

variable {spec : σ → O → R → σ → Prop} {c c' c'' : σ} {events : List (Event K O R)}
  {order : List (Entry K O R)} {key : K} {op : O} {result : R}

@[simp] theorem keys_append (order more : List (Entry K O R)) :
    keys (order ++ more) = keys order ++ keys more := List.map_append

theorem mem_keys {e : Entry K O R} (he : e ∈ order) : e.key ∈ keys order := List.mem_map_of_mem he

theorem Linearizes.start : Linearizes (K := K) spec c [] [] c where
  executes := .nil
  once := List.nodup_nil
  invoked := by simp
  answered := by simp
  realTime := by
    intro key result key' op _ hkey
    simp [keys] at hkey

/-- A call is made under a key that has not been used. -/
theorem Linearizes.invoke (h : Linearizes spec c events order c')
    (hnew : ∀ op, Event.invoke key op ∉ events) :
    Linearizes spec c (events ++ [.invoke key op]) order c' where
  executes := h.executes
  once := h.once
  invoked := fun e he => List.mem_append_left _ (h.invoked e he)
  answered := by
    intro key' result' hmem
    rcases List.mem_append.mp hmem with hmem | hmem
    · exact h.answered key' result' hmem
    · simp at hmem
  realTime := by
    intro key₀ result₀ key' op' hprec hkey
    rcases hprec.of_append with hprec | ⟨_, heq⟩
    · exact h.realTime key₀ result₀ key' op' hprec hkey
    -- the new call has not taken effect
    · cases heq
      obtain ⟨e, he, rfl⟩ := List.mem_map.mp hkey
      exact absurd (h.invoked e he) (hnew _)

/-- A call that was made takes effect. -/
theorem Linearizes.effect (h : Linearizes spec c events order c')
    (hinvoked : Event.invoke key op ∈ events) (hnew : key ∉ keys order)
    (hspec : spec c' op result c'') :
    Linearizes spec c events (order ++ [⟨key, op, result⟩]) c'' where
  executes := .snoc h.executes hspec
  once := by
    rw [keys_append]
    refine List.nodup_append.mpr ⟨h.once, by simp [keys], ?_⟩
    intro a ha b hb heq
    cases List.mem_singleton.mp hb
    exact hnew (by rwa [heq] at ha)
  invoked := by
    intro e he
    rcases List.mem_append.mp he with he | he
    · exact h.invoked e he
    · cases List.mem_singleton.mp he
      exact hinvoked
  answered := by
    intro key' result' hmem
    obtain ⟨e, he, heq⟩ := h.answered key' result' hmem
    exact ⟨e, List.mem_append_left _ he, heq⟩
  realTime := by
    intro key₀ result₀ key' op' hprec hkey
    rw [keys_append] at hkey ⊢
    rcases List.mem_append.mp hkey with hkey | hkey
    · exact (h.realTime key₀ result₀ key' op' hprec hkey).append
    -- what was answered has taken effect before
    · cases List.mem_singleton.mp hkey
      obtain ⟨e, he, rfl, _⟩ := h.answered key₀ result₀ hprec.left
      exact .of_last (mem_keys he)

/-- A call that has taken effect is answered by its result. -/
theorem Linearizes.respond (h : Linearizes spec c events order c') {e : Entry K O R}
    (he : e ∈ order) : Linearizes spec c (events ++ [.respond e.key e.result]) order c' where
  executes := h.executes
  once := h.once
  invoked := fun e he => List.mem_append_left _ (h.invoked e he)
  answered := by
    intro key' result' hmem
    rcases List.mem_append.mp hmem with hmem | hmem
    · exact h.answered key' result' hmem
    · cases List.mem_singleton.mp hmem
      exact ⟨e, he, rfl, rfl⟩
  realTime := by
    intro key₀ result₀ key' op' hprec hkey
    rcases hprec.of_append with hprec | ⟨_, heq⟩
    · exact h.realTime key₀ result₀ key' op' hprec hkey
    · cases heq

end Linearization
