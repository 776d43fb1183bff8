import Mathlib.Data.List.Basic

/-!
# Runs of a step relation

`Run init step history s`: some initial state is led to `s` by the actions
of `history`, latest first, each recorded with the state it was taken in.
An invariant of all runs is proved once by `Run.invariant`. Where a
property can be lost, `Run.safe_iff` says exactly when it is not: if under
an invariant each step keeps the property precisely when a condition on
its state and action holds, then a run ends with the property precisely
when all of its steps meet the condition.
-/

namespace Runs

variable {S A : Type*}

/-- The runs of `step` from the states of `init`, with their history. -/
inductive Run (init : S → Prop) (step : S → A → S → Prop) : List (S × A) → S → Prop
  | start {s} : init s → Run init step [] s
  | next {history s a s'} : Run init step history s → step s a s' →
      Run init step ((s, a) :: history) s'

variable {init : S → Prop} {step : S → A → S → Prop} {history : List (S × A)} {s : S}
  {Inv Safe : S → Prop} {Cond : S → A → Prop}

/-- What holds initially and is kept by every step holds at the end of
every run. -/
theorem Run.invariant (h : Run init step history s) (hinit : ∀ s, init s → Inv s)
    (hstep : ∀ s a s', Inv s → step s a s' → Inv s') : Inv s := by
  induction h with
  | start hs => exact hinit _ hs
  | next _ hs ih => exact hstep _ _ _ ih hs

/-- A run ends with `Safe` exactly when all of its steps meet `Cond`. -/
theorem Run.safe_iff (h : Run init step history s) (hinit : ∀ s, init s → Inv s ∧ Safe s)
    (hstep : ∀ s a s', Inv s → step s a s' → Inv s')
    (hsafe : ∀ s a s', Inv s → step s a s' → (Safe s' ↔ Safe s ∧ Cond s a)) :
    Safe s ↔ ∀ p ∈ history, Cond p.1 p.2 := by
  induction h with
  | start hs => simp [(hinit _ hs).2]
  | next hrun hs ih =>
    have hinv := hrun.invariant (fun s hs => (hinit s hs).1) hstep
    rw [hsafe _ _ _ hinv hs, ih, List.forall_mem_cons, and_comm]

/-- An invariant that needs `Cond` at every step. -/
theorem Run.invariant_of_cond (h : Run init step history s) (hinit : ∀ s, init s → Inv s)
    (hstep : ∀ s a s', Inv s → Cond s a → step s a s' → Inv s')
    (hcond : ∀ p ∈ history, Cond p.1 p.2) : Inv s := by
  induction h with
  | start hs => exact hinit _ hs
  | next _ hs ih =>
    obtain ⟨hc, hrest⟩ := List.forall_mem_cons.mp hcond
    exact hstep _ _ _ (ih hrest) hc hs

/-- Where `Cond` at a step is what keeps the invariant and is also what
makes the step `Ok`, all steps are `Ok` exactly when all meet `Cond`. -/
theorem Run.all_iff {Ok : S → A → Prop} (h : Run init step history s)
    (hinit : ∀ s, init s → Inv s) (hstep : ∀ s a s', Inv s → Cond s a → step s a s' → Inv s')
    (hok : ∀ s a s', Inv s → step s a s' → (Ok s a ↔ Cond s a)) :
    (∀ p ∈ history, Ok p.1 p.2) ↔ ∀ p ∈ history, Cond p.1 p.2 := by
  induction h with
  | start _ => simp
  | @next history s a s' hrun hs ih =>
    rw [List.forall_mem_cons, List.forall_mem_cons, ih]
    apply and_congr_left
    intro hrest
    exact hok s a s' (hrun.invariant_of_cond hinit hstep hrest) hs

/-- The same with one more action, which is tried and need not return. -/
theorem Run.tried_iff {Ok Enabled : S → A → Prop} {a : A} (h : Run init step history s)
    (ha : Enabled s a) (hinit : ∀ s, init s → Inv s)
    (hstep : ∀ s a s', Inv s → Cond s a → step s a s' → Inv s')
    (henabled : ∀ s a s', step s a s' → Enabled s a)
    (hok : ∀ s a, Inv s → Enabled s a → (Ok s a ↔ Cond s a)) :
    (∀ p ∈ (s, a) :: history, Ok p.1 p.2) ↔ ∀ p ∈ (s, a) :: history, Cond p.1 p.2 := by
  have hbefore := h.all_iff hinit hstep fun s a s' hinv hs => hok s a hinv (henabled s a s' hs)
  rw [List.forall_mem_cons, List.forall_mem_cons, hbefore]
  apply and_congr_left
  intro hrest
  exact hok s a (h.invariant_of_cond hinit hstep hrest) ha

/-- Where steps have one outcome, the actions say what the run is. -/
theorem Run.unique {s₀ s' : S} {history' : List (S × A)}
    (hstep : ∀ s a t t', step s a t → step s a t' → t' = t)
    (h : Run (· = s₀) step history s) (h' : Run (· = s₀) step history' s')
    (hactions : history'.map Prod.snd = history.map Prod.snd) : history' = history ∧ s' = s := by
  induction h generalizing history' s' with
  | start hs =>
    cases h' with
    | start hs' => exact ⟨rfl, hs'.trans hs.symm⟩
    | next => cases hactions
  | @next history s a t hrun hs ih =>
    cases h' with
    | start => cases hactions
    | @next history' s' a' t' hrun' hs' =>
      obtain ⟨ha, hrest⟩ := List.cons.inj hactions
      obtain ⟨rfl, rfl⟩ := ih hrun' hrest
      cases ha
      exact ⟨rfl, hstep _ _ _ _ hs hs'⟩

/-- Take the actions one after another with an executable step. -/
def runSteps (f : S → A → Option S) : S → List A → Option S
  | s, [] => some s
  | s, a :: as => (f s a).bind fun s' => runSteps f s' as

theorem Run.append_steps {f : S → A → Option S} (hf : ∀ s a s', f s a = some s' → step s a s') :
    ∀ (as : List A) {history : List (S × A)} {s s' : S}, Run init step history s →
      runSteps f s as = some s' → ∃ history', Run init step history' s'
  | [], history, s, s', h, heq => by
    cases heq
    exact ⟨history, h⟩
  | a :: as, history, s, s', h, heq => by
    obtain ⟨s₁, hs₁, hrest⟩ := Option.bind_eq_some_iff.mp heq
    exact Run.append_steps hf as (.next h (hf _ _ _ hs₁)) hrest

/-- A run whose steps are known to meet a condition. -/
theorem Run.split {C : S → A → Prop} (h : Run init (fun s a s' => C s a ∧ step s a s') history s) :
    Run init step history s ∧ ∀ p ∈ history, C p.1 p.2 := by
  induction h with
  | start hs => exact ⟨.start hs, by simp⟩
  | next _ hs ih => exact ⟨.next ih.1 hs.2, List.forall_mem_cons.mpr ⟨hs.1, ih.2⟩⟩

/-- A run found by evaluation, with a property of its last state. -/
theorem Run.of_check {f : S → A → Option S} (hf : ∀ s a s', f s a = some s' → step s a s')
    {s₀ : S} (hinit : init s₀) (as : List A) (P : S → Bool)
    (h : (runSteps f s₀ as).any P = true) :
    ∃ history s, Run init step history s ∧ P s = true := by
  obtain ⟨s, hs, hP⟩ := (Option.any_eq_true _ _).mp h
  obtain ⟨history, hrun⟩ := Run.append_steps hf as (.start hinit) hs
  exact ⟨history, s, hrun, hP⟩

end Runs
