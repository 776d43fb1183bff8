import ZOs.Sched.SchedulerRun

/-!
# The address space of the dispatched thread

`scheduler_yield`, `scheduler_save_and_block` and `scheduler_terminate`
install the kernel's own tables before `scheduler_run` picks a thread, and
only `context_switch` installs the table of a process again. A thread that
yields while nothing else is queued is picked itself, and
`scheduler_run` returns to it without a context switch: it goes on with
the kernel's table in TTBR0. `dispatches_rightTable_iff` shows that this is the only way for
a thread of a process to run on another table than its own.
-/

namespace ZOs.Scheduler

open Runs

/-- Whenever control went to a thread of a process, TTBR0 held the root of
that process's address space. -/
def RightTable (env : Env) (s : Kernel) : Prop :=
  ∀ t found r, .dispatch t found r ∈ s.trace → ∀ p, (s.threads t).process = some p →
    r = tableBase (env.rootPageTable p)

/-- The running thread of a process, whose root is not the kernel's own
table, yields while no other thread is queued (and gets its queue node). -/
def YieldsAlone (env : Env) (s : Kernel) (a : Action) : Prop :=
  (∃ frame, a = .yield frame) ∧ s.runQueue = [] ∧ env.kmallocOk s.kmallocs = true ∧
    ∃ t p, s.currentThread = some t ∧ (s.threads t).process = some p ∧
      tableBase (env.rootPageTable p) ≠ tableBase env.gTtbr0Table

section
variable {env : Env} {s s' mid : Kernel} {t : ThreadId} {a : Action} {more : List ThreadId}
  {history : List (Kernel × Action)}

theorem SameDispatches.rightTable (h : SameDispatches s s') :
    RightTable env s' ↔ RightTable env s := by
  unfold RightTable
  simp only [h.process, h.dispatch]

/-- Only a return without a context switch can go wrong. -/
theorem RunEffect.rightTable (e : RunEffect env s s') :
    RightTable env s' ↔ RightTable env s ∧ (s.currentThread = some (nextThread s) →
      ∀ p, (s.threads (nextThread s)).process = some p →
        s.ttbr0 = tableBase (env.rootPageTable p)) := by
  constructor
  · intro h
    constructor
    · intro u found r hd p hp
      refine h u found r ?_ p (by rw [e.process]; exact hp)
      rw [e.trace]
      exact List.mem_append_left _ hd
    · intro hcur p hp
      rw [← e.ttbr0_same hcur]
      refine h (nextThread s) s.queued _ ?_ p (by rw [e.process]; exact hp)
      rw [e.trace]
      exact List.mem_append_right _ List.mem_cons_self
  · intro ⟨hold, hsame⟩ u found r hd p hp
    rw [e.process] at hp
    rw [e.trace, List.mem_append, List.mem_singleton] at hd
    rcases hd with hd | hd
    · exact hold u found r hd p hp
    · injection hd with hu _ hr
      subst hu hr
      by_cases hcur : s.currentThread = some (nextThread s)
      · rw [e.ttbr0_same hcur]
        exact hsame hcur p hp
      · exact e.ttbr0_switch hcur p hp

/-- A thread that is not queued is picked only if it is the idle thread. -/
theorem next_ne (hq : t ∉ s.queued) (ht : t ≠ idleThread) : nextThread s ≠ t := by
  intro heq
  obtain ⟨_, hidle, _⟩ | hcons := next_cases s
  · exact ht (heq.symm.trans hidle)
  · apply hq
    rw [hcons, heq]
    exact List.mem_cons_self

/-- The thread that yields is picked exactly when it is alone in the queue. -/
theorem yield_next_iff (hq : t ∉ s.queued) (ht : t ≠ idleThread)
    {st : ThreadState} (hmid : Pending env s t st more mid) (hmore : more = [t] ∨ more = []) :
    nextThread mid = t ↔ s.runQueue = [] ∧ more = [t] := by
  rw [← queued_eq_nil]
  have hmidq := hmid.queued
  constructor
  · intro heq
    obtain ⟨_, hidle, _⟩ | hcons := next_cases mid
    · exact absurd (heq.symm.trans hidle) ht
    · rw [hmidq, heq] at hcons
      cases hsq : s.queued with
      | nil =>
        rcases hmore with hmore | hmore
        · exact ⟨rfl, hmore⟩
        · rw [hsq, hmore] at hcons
          cases hcons
      | cons u rest =>
        rw [hsq, List.cons_append] at hcons
        injection hcons with hu _
        exact absurd (by rw [hsq, hu]; exact List.mem_cons_self) hq
  · intro ⟨hnil, hone⟩
    obtain ⟨hmidnil, _⟩ | hcons := next_cases mid
    · rw [hmidnil, hnil, hone] at hmidq
      cases hmidq
    · rw [hmidq, hnil, hone] at hcons
      injection hcons with hu _
      exact hu.symm

/-- Each step keeps the law exactly when it is not a yield that finds the
queue empty. -/
theorem step_rightTable (h : RunInv s) (hstep : Step env s a s') :
    RightTable env s' ↔ RightTable env s ∧ ¬ YieldsAlone env s a := by
  obtain ⟨_, heffect⟩ := step_spec h hstep
  have hother : (∀ frame, a ≠ .yield frame) → ¬ YieldsAlone env s a := by
    intro ha ⟨⟨frame, heq⟩, _⟩
    exact ha frame heq
  cases heffect with
  | enqueues ha hsame => rw [hsame.rightTable, and_iff_left (hother ha)]
  | runs ha e =>
    have hno := hother (by simp [ha])
    rw [e.rightTable, and_iff_left hno, and_iff_left]
    -- control stays only on the idle thread, which has no process
    intro hcur p hp
    have hidle : nextThread s = idleThread := by
      by_contra hne
      exact next_ne (h.current_not_queued hcur) hne rfl
    rw [hidle, h.idle_process] at hp
    cases hp
  | @leaves t mid ha hcur ht st hmid e =>
    have hq := h.current_not_queued hcur
    have hmidq : mid.queued = s.queued := hmid.queued.trans (List.append_nil _)
    have hne := next_ne (hmidq ▸ hq) ht
    rw [e.rightTable, hmid.rightTable, and_iff_left (hother ha), and_iff_left]
    intro hsame
    rw [hmid.currentThread] at hsame
    injection hsame with hsame
    exact absurd hsame.symm hne
  | @yields t mid frame ha hcur ht hmid e =>
    have hq := h.current_not_queued hcur
    have hmore : (if env.kmallocOk s.kmallocs then [t] else []) = [t] ∨
        (if env.kmallocOk s.kmallocs then [t] else []) = [] := by
      split <;> simp
    have hnext := yield_next_iff hq ht hmid hmore
    rw [e.rightTable, hmid.rightTable, hmid.currentThread, hmid.ttbr0]
    apply and_congr_right
    intro _
    constructor
    · intro hsame ⟨_, hnil, hk, u, p, hu, hp, hroot⟩
      cases hcur.symm.trans hu
      have heq := hnext.mpr ⟨hnil, by rw [if_pos hk]⟩
      refine hroot (hsame (by rw [heq]) p ?_).symm
      rw [heq, hmid.process]
      exact hp
    · intro hno hsame p hp
      injection hsame with hsame
      obtain ⟨hnil, hone⟩ := hnext.mp hsame.symm
      have hk : env.kmallocOk s.kmallocs = true := by
        by_contra hk
        rw [if_neg hk] at hone
        cases hone
      rw [← hsame, hmid.process] at hp
      by_contra hroot
      exact hno ⟨⟨frame, ha⟩, hnil, hk, t, p, hcur, hp, fun heq => hroot heq.symm⟩

theorem init_rightTable (h : Init s) : RightTable env s := by
  intro t found r hd
  rw [h.trace] at hd
  cases hd

/-- In a run, every thread of a process was given control on the table of
its process exactly when no thread of a process ever yielded alone. -/
theorem dispatches_rightTable_iff (env : Env) (history : List (Kernel × Action)) (s : Kernel)
    (h : Run Init (Step env) history s) :
    RightTable env s ↔ ∀ p ∈ history, ¬ YieldsAlone env p.1 p.2 := by
  have hsafe : ∀ s a s', RunInv s → Step env s a s' →
      (RightTable env s' ↔ RightTable env s ∧ ¬ YieldsAlone env s a) :=
    fun _ _ _ => step_rightTable
  have key := h.safe_iff (fun _ hs => ⟨init_inv hs, init_rightTable hs⟩)
    (fun _ _ _ hinv hstep => (step_spec hinv hstep).1) hsafe
  exact key

/-- One process: its thread is started, runs and yields. The last event is
its return to user mode, on the kernel's table. -/
theorem loneYield_run : ∃ history s, Run Init (Step bootEnv) history s ∧
    decide (.dispatch 1 [1] 0x1000 ∈ s.trace ∧ (s.threads 1).process = some 1) = true :=
  boot_run [.threadStart 1, .run, .yield blankFrame]
    (fun s => decide (.dispatch 1 [1] 0x1000 ∈ s.trace ∧ (s.threads 1).process = some 1))
    (by decide)

/-- The dispatch recorded last is on the wrong table. -/
theorem wrongTable {s : Kernel} (hd : .dispatch 1 [1] 0x1000 ∈ s.trace)
    (hp : (s.threads 1).process = some 1) : ¬ RightTable bootEnv s := by
  intro h
  have hroot := h 1 [1] _ hd 1 hp
  revert hroot
  decide

theorem loneYield_wrongTable : ¬ ∀ env history s, Run Init (Step env) history s →
    RightTable env s := by
  intro hall
  obtain ⟨history, s, hrun, hfound⟩ := loneYield_run
  obtain ⟨hd, hp⟩ := of_decide_eq_true hfound
  exact wrongTable hd hp (hall bootEnv history s hrun)

/-- The run has a step in which a thread yields alone. -/
theorem loneYield_yieldsAlone : ∃ history s, Run Init (Step bootEnv) history s ∧
    ∃ p ∈ history, YieldsAlone bootEnv p.1 p.2 := by
  obtain ⟨history, s, hrun, hfound⟩ := loneYield_run
  obtain ⟨hd, hp⟩ := of_decide_eq_true hfound
  refine ⟨history, s, hrun, ?_⟩
  by_contra hnone
  push Not at hnone
  exact wrongTable hd hp ((dispatches_rightTable_iff bootEnv history s hrun).mpr hnone)

end

end ZOs.Scheduler
