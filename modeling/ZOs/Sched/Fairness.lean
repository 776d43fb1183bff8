import ZOs.Lib.Turns
import ZOs.Sched.Machine

/-!
# Everybody gets a turn

The run queue is a queue in which threads take turns, whatever sequence of
calls of the scheduler a part of the kernel makes. And while there are nodes
for it, no started thread is forgotten: it runs, it is in the queue, it is
BLOCKED, or it has ended.
-/

namespace ZOs.Scheduler

open Runs Turns

/-- The threads that `scheduler_run` has dispatched, in order; the idle thread
is one of them. -/
def turnsTaken (s : Kernel) : List ThreadId :=
  s.trace.filterMap fun
    | .dispatch t _ _ => some t
    | _ => none

/-- Calls of the scheduler, with calls of kmalloc between them. `scheduler_run`
itself is called at boot. -/
inductive SchedulerCalls (env : Env) (s : Kernel) : Kernel → Prop
  | none : SchedulerCalls env s s
  | kmalloc {s'} : SchedulerCalls env s s' →
      SchedulerCalls env s { s' with kmallocs := s'.kmallocs + 1 }
  | call {s' a s''} : SchedulerCalls env s s' → Step env s' a s'' →
      (a = .run → s'.currentThread = .none) → SchedulerCalls env s s''

/-- A thread that is neither in the queue nor waits for an event runs or has
ended. -/
def Accounted (s : Kernel) : Prop :=
  ∀ t ∈ enqueued s.trace, s.currentThread = some t ∨ t ∈ s.queued ∨ Blocked s t ∨
    (s.threads t).state = .terminated

section
variable {env : Env} {s s' : Kernel} {t u : ThreadId} {a : Action}

/-! ## The record of turns -/

theorem turnsTaken_log (s : Kernel) (e : Event) :
    turnsTaken (s.log e) = turnsTaken s ++ (turnsTaken { s with trace := [e] }) :=
  List.filterMap_append ..

@[simp] theorem turnsTaken_modifyThread (f : Thread → Thread) :
    turnsTaken (s.modifyThread t f) = turnsTaken s := rfl

theorem addThread_turns {r : Int} (h : addThread env s t = .ok (r, s')) :
    turnsTaken s' = turnsTaken s ∧ (s'.queued = s.queued ++
      if env.kmallocOk s.kmallocs then [t] else []) ∧ s'.currentThread = s.currentThread := by
  have hnode : (s.threads t).runQueueNode = none := by
    by_contra hnode
    unfold addThread assert at h
    rw [decide_eq_false hnode] at h
    cases h
  have hstate : (s.threads t).state = .ready ∨ (s.threads t).state = .suspended := by
    by_contra hstate
    unfold addThread assert at h
    rw [decide_eq_true hnode, decide_eq_false hstate] at h
    cases h
  rw [addThread_eq env hnode hstate] at h
  injection h with h
  split at h
  · cases h
    refine ⟨?_, ?_, rfl⟩
    · show List.filterMap _ (enqueue s t).trace = _
      rw [enqueue_trace, List.filterMap_append]
      exact List.append_nil _
    · rw [enqueue_queued, if_pos ‹_›]
  · cases h
    rw [if_neg ‹_›]
    exact ⟨rfl, (List.append_nil _).symm, rfl⟩

theorem removeThread_trace (h : removeThread s t = .ok s') : s'.trace = s.trace := by
  unfold removeThread at h
  split at h
  · cases h
  · cases h
    rfl

theorem skipTerminated_trace {fuel : Nat} {next : ThreadId}
    (h : skipTerminated fuel s t = .ok (next, s')) : s'.trace = s.trace := by
  induction fuel generalizing s t with
  | zero =>
    unfold skipTerminated at h
    split at h
    · cases h
      rfl
    · split at h
      · cases h
      · cases h
        rfl
  | succ fuel ih =>
    unfold skipTerminated at h
    split at h
    · cases h
      rfl
    · split at h
      · obtain ⟨s₁, hremove, hrest⟩ := bind_ok h
        exact (ih hrest).trans (removeThread_trace hremove)
      · cases h
        rfl

theorem pickNext_trace {next : Option ThreadId} (h : pickNext s = .ok (next, s')) :
    s'.trace = s.trace := by
  unfold pickNext at h
  split at h
  · cases h
    rfl
  · obtain ⟨s₁, hremove, hrest⟩ := bind_ok h
    obtain ⟨⟨next', s₂⟩, hskip, hret⟩ := bind_ok hrest
    cases hret
    exact (skipTerminated_trace hskip).trans (removeThread_trace hremove)

/-- `scheduler_run` gives one turn. -/
theorem schedulerRun_turns (h : schedulerRun env s = .ok s') :
    ∃ u, s'.currentThread = some u ∧ turnsTaken s' = turnsTaken s ++ [u] := by
  obtain ⟨⟨next, s₁⟩, hpick, hret⟩ := bind_ok h
  cases hret
  obtain ⟨r0, heq, -, -⟩ := switchTo_spec env s₁ (next.getD idleThread)
  refine ⟨next.getD idleThread, ?_, ?_⟩
  · show (switchTo env s₁ (next.getD idleThread)).currentThread = _
    rw [heq]
  · have htrace := pickNext_trace hpick
    show turnsTaken ((switchTo env s₁ (next.getD idleThread)).log _) = _
    rw [turnsTaken_log, heq]
    show List.filterMap _ s₁.trace ++ _ = _
    rw [htrace]
    rfl

/-! ## What a step does to the queue -/

/-- Who goes to the end of the queue. -/
def joining (env : Env) (s : Kernel) : Action → List ThreadId
  | .threadStart t | .wakeUp t => if env.kmallocOk s.kmallocs then [t] else []
  | .yield _ => if env.kmallocOk s.kmallocs then s.currentThread.toList else []
  | _ => []

/-- The thread at the head of the queue, or else the idle thread. -/
def headOr (queue : List ThreadId) : ThreadId := queue.head?.getD idleThread

/-- A step that calls `scheduler_run` takes the head off the queue and gives it
its turn. -/
inductive QueueStep (env : Env) (s : Kernel) (a : Action) (s' : Kernel) : Prop
  | join : s'.queued = s.queued ++ joining env s a → s'.currentThread = s.currentThread →
      turnsTaken s' = turnsTaken s → QueueStep env s a s'
  | turn : s'.queued = (s.queued ++ joining env s a).tail →
      s'.currentThread = some (headOr (s.queued ++ joining env s a)) →
      turnsTaken s' = turnsTaken s ++ [headOr (s.queued ++ joining env s a)] →
      QueueStep env s a s'

/-- The turn of a state in which those who join are in the queue. -/
theorem queueStep_of_run {mid s₁ : Kernel} (hinv : QueueInv mid)
    (hqueued : mid.queued = s.queued ++ joining env s a) (hmid : schedulerRun env mid = .ok s')
    (hrun : schedulerRun env s₁ = .ok s') (htaken : turnsTaken s₁ = turnsTaken s) :
    QueueStep env s a s' := by
  cases (schedulerRun_eq hinv).symm.trans hmid
  have heffect := afterRun_effect env mid
  have hnext : nextThread mid = headOr (s.queued ++ joining env s a) := by
    rw [nextThread_eq, hqueued, headOr]
  obtain ⟨u, hcur, hturns⟩ := schedulerRun_turns hrun
  cases heffect.currentThread.symm.trans hcur
  refine .turn ?_ (heffect.currentThread.trans (congrArg some hnext)) ?_
  · show List.map _ _ = _
    rw [heffect.runQueue, popHead_runQueue, List.map_tail]
    exact congrArg List.tail hqueued
  · rw [hturns, htaken, hnext]

theorem step_queue (hinv : RunInv s) (hstep : Step env s a s') : QueueStep env s a s' := by
  obtain ⟨ha, hexec⟩ := hstep
  cases a with
  | threadStart t =>
    obtain ⟨⟨r, s₁⟩, hadd, rfl⟩ := map_ok hexec
    obtain ⟨hturns, hqueued, hcur⟩ := addThread_turns hadd
    exact .join hqueued hcur hturns
  | wakeUp t =>
    obtain ⟨_, -, hrest⟩ := bind_ok hexec
    obtain ⟨⟨r, s₁⟩, hadd, hret⟩ := bind_ok hrest
    cases hret
    obtain ⟨hturns, hqueued, hcur⟩ := addThread_turns hadd
    exact .join hqueued hcur hturns
  | run =>
    exact queueStep_of_run hinv.toQueueInv (List.append_nil _).symm hexec hexec rfl
  | yield frame =>
    obtain ⟨t, hcur, ht⟩ := ha
    obtain ⟨mid, heq, hmid⟩ := schedulerYield_spec env hinv hcur ht frame
    have hjoin : joining env s (.yield frame) = if env.kmallocOk s.kmallocs then [t] else [] := by
      unfold joining
      rw [hcur]
      rfl
    rw [← hjoin] at hmid
    have hrun := heq.symm.trans hexec
    simp only [exec, schedulerYield, hcur] at hexec
    obtain ⟨⟨r, s₁⟩, hadd, hlast⟩ := bind_ok hexec
    exact queueStep_of_run hmid.toQueueInv hmid.queued hrun hlast (addThread_turns hadd).1
  | waitForEvent cpu =>
    obtain ⟨t, hcur, ht⟩ := ha
    obtain ⟨mid, heq, hmid⟩ := schedulerWaitForEvent_spec env hinv hcur ht cpu
    have hrun := heq.symm.trans hexec
    simp only [exec, schedulerWaitForEvent, hcur] at hexec
    exact queueStep_of_run hmid.toQueueInv hmid.queued hrun hexec rfl
  | terminate =>
    obtain ⟨t, hcur, ht⟩ := ha
    obtain ⟨mid, heq, hmid⟩ := schedulerTerminate_spec env hinv hcur ht
    have hrun := heq.symm.trans hexec
    simp only [exec, schedulerTerminate, hcur] at hexec
    refine queueStep_of_run hmid.toQueueInv hmid.queued hrun hexec ?_
    show turnsTaken ((s.modifyThread t Thread.terminate).log _) = _
    rw [turnsTaken_log]
    exact List.append_nil _

theorem QueueStep.move (h : QueueStep env s a s') :
    Move Kernel.queued turnsTaken idleThread s s' := by
  cases h with
  | join hqueued _ hturns => exact .join _ hqueued hturns
  | turn hqueued _ hturns => exact .turn _ hqueued hturns

/-- Whoever was in the queue or joins it is in the queue after the step, or it
is its turn. -/
theorem QueueStep.member (h : QueueStep env s a s') (hu : u ∈ s.queued ++ joining env s a) :
    s'.currentThread = some u ∨ u ∈ s'.queued := by
  cases h with
  | join hqueued _ _ => exact .inr (hqueued ▸ hu)
  | turn hqueued hcur _ =>
    rw [hqueued, hcur]
    cases hall : s.queued ++ joining env s a with
    | nil =>
      rw [hall] at hu
      cases hu
    | cons v rest =>
      rw [hall] at hu
      rcases List.mem_cons.mp hu with rfl | hu
      · exact .inl rfl
      · exact .inr hu

/-! ## Threads that are away -/

/-- The thread waits for an event, or it has ended. -/
def Away (s : Kernel) (u : ThreadId) : Prop := Blocked s u ∨ (s.threads u).state = .terminated

/-- A turn is given to no thread that is away. -/
theorem RunEffect.away (hinv : QueueInv s) (h : RunEffect env s s') (hu : Away s u) :
    Away s' u := by
  rcases hu with hu | hu
  · exact .inl ((h.blocked_iff hinv u).mpr hu)
  · refine .inr ?_
    rw [h.state, if_neg, hu]
    rintro rfl
    exact hinv.next_live hu

theorem RunInv.away_ne (h : RunInv s) (hu : Away s u) (hcur : s.currentThread = some t) :
    u ≠ t := by
  rintro rfl
  have hrunning := h.current_running u hcur
  rcases hu with hu | hu
  · cases hrunning.symm.trans hu
  · cases hrunning.symm.trans hu

theorem Pending.away {st : ThreadState} {more : List ThreadId} {mid : Kernel} (hinv : RunInv s)
    (h : Pending env s t st more mid) (hcur : s.currentThread = some t) (hu : Away s u) :
    Away mid u := by
  have hstate : (mid.threads u).state = (s.threads u).state := by
    rw [h.state, Function.update_of_ne (hinv.away_ne hu hcur)]
  unfold Away Blocked
  rw [hstate]
  exact hu

/-- A thread that is away stays away until it is woken up. -/
theorem step_away (hinv : RunInv s) (hstep : Step env s a s') (hu : Away s u)
    (ha : a ≠ .wakeUp u) : Away s' u := by
  have hsame : (s'.threads u).state = (s.threads u).state → Away s' u := by
    intro hstate
    unfold Away Blocked
    rw [hstate]
    exact hu
  obtain ⟨henabled, hexec⟩ := hstep
  cases a with
  | threadStart t =>
    obtain ⟨r, s₁, heq, -, e⟩ := threadStart_spec env hinv henabled.1 henabled.2
    obtain ⟨⟨r', s₂⟩, hadd, rfl⟩ := map_ok hexec
    cases heq.symm.trans hadd
    exact hsame (e.state u)
  | wakeUp t =>
    obtain ⟨s₁, heq, -, e⟩ := schedulerWakeUp_spec env hinv henabled
    cases heq.symm.trans hexec
    refine hsame ((e.state u).trans (Function.update_of_ne ?_ ..))
    rintro rfl
    exact ha rfl
  | run =>
    cases (schedulerRun_eq hinv.toQueueInv).symm.trans hexec
    exact (afterRun_effect env s).away hinv.toQueueInv hu
  | yield frame =>
    obtain ⟨t, hcur, ht⟩ := henabled
    obtain ⟨mid, heq, hmid⟩ := schedulerYield_spec env hinv hcur ht frame
    cases (heq.trans (schedulerRun_eq hmid.toQueueInv)).symm.trans hexec
    exact (afterRun_effect env mid).away hmid.toQueueInv (hmid.away hinv hcur hu)
  | waitForEvent cpu =>
    obtain ⟨t, hcur, ht⟩ := henabled
    obtain ⟨mid, heq, hmid⟩ := schedulerWaitForEvent_spec env hinv hcur ht cpu
    cases (heq.trans (schedulerRun_eq hmid.toQueueInv)).symm.trans hexec
    exact (afterRun_effect env mid).away hmid.toQueueInv (hmid.away hinv hcur hu)
  | terminate =>
    obtain ⟨t, hcur, ht⟩ := henabled
    obtain ⟨mid, heq, hmid⟩ := schedulerTerminate_spec env hinv hcur ht
    cases (heq.trans (schedulerRun_eq hmid.toQueueInv)).symm.trans hexec
    exact (afterRun_effect env mid).away hmid.toQueueInv (hmid.away hinv hcur hu)

/-- The thread that gives up the CPU joins the queue, or it is away. -/
theorem step_current_leaves (hinv : RunInv s) (hstep : Step env s a s')
    (hk : env.kmallocOk s.kmallocs = true) (hcur : s.currentThread = some t)
    (hrun : a = .run → s.currentThread = none) :
    t ∈ joining env s a ∨ Away s' t ∨ s'.currentThread = some t := by
  obtain ⟨henabled, hexec⟩ := hstep
  cases a with
  | threadStart v =>
    obtain ⟨r, s₁, heq, -, e⟩ := threadStart_spec env hinv henabled.1 henabled.2
    obtain ⟨⟨r', s₂⟩, hadd, rfl⟩ := map_ok hexec
    cases heq.symm.trans hadd
    exact .inr (.inr (e.currentThread.trans hcur))
  | wakeUp v =>
    obtain ⟨s₁, heq, -, e⟩ := schedulerWakeUp_spec env hinv henabled
    cases heq.symm.trans hexec
    exact .inr (.inr (e.currentThread.trans hcur))
  | run => cases (hrun rfl).symm.trans hcur
  | yield frame =>
    exact .inl (by simp [joining, hk, hcur])
  | waitForEvent cpu =>
    obtain ⟨v, hcur', ht⟩ := henabled
    cases hcur.symm.trans hcur'
    obtain ⟨s₁, heq, -, hblocked, -⟩ := schedulerWaitForEvent_blocks env hinv hcur ht cpu
    cases heq.symm.trans hexec
    exact .inr (.inl (.inl ((hblocked t).mpr (.inl rfl))))
  | terminate =>
    obtain ⟨v, hcur', ht⟩ := henabled
    cases hcur.symm.trans hcur'
    obtain ⟨mid, heq, hmid⟩ := schedulerTerminate_spec env hinv hcur ht
    cases (heq.trans (schedulerRun_eq hmid.toQueueInv)).symm.trans hexec
    refine .inr (.inl ((afterRun_effect env mid).away hmid.toQueueInv (.inr ?_)))
    rw [hmid.state, Function.update_self]

theorem Accounted.step (h : Accounted s) (hinv : RunInv s) (hstep : Step env s a s')
    (hk : env.kmallocOk s.kmallocs = true) (hrun : a = .run → s.currentThread = none) :
    Accounted s' := by
  intro u hu
  have hqueue := step_queue hinv hstep
  have hmember : u ∈ s.queued ++ joining env s a → s'.currentThread = some u ∨ u ∈ s'.queued ∨
      Blocked s' u ∨ (s'.threads u).state = .terminated := fun hu =>
    (hqueue.member hu).imp_right .inl
  have haway : Away s' u → s'.currentThread = some u ∨ u ∈ s'.queued ∨
      Blocked s' u ∨ (s'.threads u).state = .terminated := fun hu => .inr (.inr hu)
  rcases step_enqueued hinv hstep hu with hu | rfl
  · rcases h u hu with hcur | hqueued | hrest
    · rcases step_current_leaves hinv hstep hk hcur hrun with hjoin | hu | hcur
      · exact hmember (List.mem_append_right _ hjoin)
      · exact haway hu
      · exact .inl hcur
    · exact hmember (List.mem_append_left _ hqueued)
    · by_cases hwake : a = .wakeUp u
      · subst hwake
        exact hmember (List.mem_append_right _ (by simp [joining, hk]))
      · exact haway (step_away hinv hstep hrest hwake)
  · exact hmember (List.mem_append_right _ (by simp [joining, hk]))

/-! ## Calls one after another -/

theorem SchedulerCalls.inv (h : SchedulerCalls env s s') (hinv : RunInv s) : RunInv s' := by
  induction h with
  | none => exact hinv
  | kmalloc _ ih => exact ih.kmalloc
  | call _ hstep _ ih => exact (step_spec ih hstep).1

theorem SchedulerCalls.trans {s'' : Kernel} (h : SchedulerCalls env s s')
    (h' : SchedulerCalls env s' s'') : SchedulerCalls env s s'' := by
  induction h' with
  | none => exact h
  | kmalloc _ ih => exact ih.kmalloc
  | call _ hstep hrun ih => exact ih.call hstep hrun

/-- Whatever sequence of calls is made, the queue is served in turns. -/
theorem SchedulerCalls.moves (h : SchedulerCalls env s s') (hinv : RunInv s) :
    Moves Kernel.queued turnsTaken idleThread s s' := by
  induction h with
  | none => exact .refl s
  | @kmalloc s' _ ih => exact ih.next (.join [] (List.append_nil _).symm rfl)
  | call hcalls hstep _ ih => exact ih.next (step_queue (hcalls.inv hinv) hstep).move

theorem SchedulerCalls.accounted (hk : ∀ n, env.kmallocOk n = true)
    (h : SchedulerCalls env s s') (hinv : RunInv s) (haccounted : Accounted s) :
    Accounted s' := by
  induction h with
  | none => exact haccounted
  | kmalloc _ ih => exact ih
  | call hcalls hstep hrun ih => exact ih.step (hcalls.inv hinv) hstep (hk _) hrun

end

end ZOs.Scheduler
