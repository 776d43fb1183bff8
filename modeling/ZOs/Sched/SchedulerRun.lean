import ZOs.Sched.SchedulerInv

/-!
# Runs of the scheduler

Every action that can happen returns and keeps `RunInv`. Starting and
waking up a thread enqueue it. The other actions lead to `scheduler_run`:
from the state itself, or from a state `Pending` in which the thread that
gives up the CPU has its new state and the kernel's own tables are
installed.
-/

namespace ZOs.Scheduler

open Runs

section
variable {env : Env} {s s' mid : Kernel} {t u : ThreadId} {a : Action}
  {history : List (Kernel × Action)}

/-- No thread changes its process, and what was dispatched is the same. -/
structure SameDispatches (s s' : Kernel) : Prop where
  process : ∀ u, (s'.threads u).process = (s.threads u).process
  dispatch : ∀ u found r, .dispatch u found r ∈ s'.trace ↔ .dispatch u found r ∈ s.trace

/-- One call of kmalloc for a queue node, with the threads left in the
states `states`. -/
structure EnqueueEffect (s : Kernel) (states : ThreadId → ThreadState) (s' : Kernel) : Prop
    extends SameDispatches s s' where
  state : ∀ u, (s'.threads u).state = states u
  currentThread : s'.currentThread = s.currentThread
  kmallocs : s'.kmallocs = s.kmallocs + 1

/-- The state in which `scheduler_run` is entered when thread `t` has given
up the CPU in state `st` with `more` behind the queue. -/
structure Pending (env : Env) (s : Kernel) (t : ThreadId) (st : ThreadState)
    (more : List ThreadId) (mid : Kernel) : Prop extends QueueInv mid, SameDispatches s mid where
  currentThread : mid.currentThread = some t
  state : ∀ u, (mid.threads u).state = Function.update (fun u => (s.threads u).state) t st u
  ttbr0 : mid.ttbr0 = tableBase env.gTtbr0Table
  queued : mid.queued = s.queued ++ more

theorem modifyThread_state (f : Thread → Thread) (u : ThreadId) :
    ((s.modifyThread t f).threads u).state =
      Function.update (fun u => (s.threads u).state) t (f (s.threads t)).state u := by
  by_cases hu : u = t
  · subst hu
    rw [modifyThread_self, Function.update_self]
  · rw [modifyThread_ne hu, Function.update_of_ne hu]

/-! ## Enqueueing actions -/

theorem enqueue_sameDispatches : SameDispatches s (enqueue s t) where
  process := enqueue_keeps Thread.process fun _ _ => rfl
  dispatch := by simp

/-- A thread that is enqueued is not the one that runs. -/
theorem RunInv.enqueue (h : RunInv s) (hq : t ∉ s.queued) (ht : t ≠ idleThread)
    (hstate : (s.threads t).state = .ready ∨ (s.threads t).state = .suspended) :
    RunInv (enqueue s t) where
  toQueueInv := h.toQueueInv.enqueue hq ht hstate
  current_running := by
    intro u hu
    rw [enqueue_keeps Thread.state fun _ _ => rfl]
    exact h.current_running u hu
  current_started := by
    intro u hu hne
    rw [enqueue_trace, enqueued_append]
    exact List.mem_append_left _ (h.current_started u hu hne)

/-- `scheduler_add_thread` returns and keeps the invariant, whether it gets
its node or not. -/
theorem addThread_spec (env : Env) (h : RunInv s) (hq : t ∉ s.queued) (ht : t ≠ idleThread)
    (hstate : (s.threads t).state = .ready ∨ (s.threads t).state = .suspended) :
    ∃ r s', addThread env s t = .ok (r, s') ∧ RunInv s' ∧
      EnqueueEffect s (fun u => (s.threads u).state) s' := by
  rw [addThread_eq env (h.node_none hq) hstate]
  cases env.kmallocOk s.kmallocs with
  | true =>
    exact ⟨0, enqueue s t, rfl, h.enqueue hq ht hstate,
      { toSameDispatches := enqueue_sameDispatches
        state := enqueue_keeps Thread.state fun _ _ => rfl
        currentThread := rfl
        kmallocs := rfl }⟩
  | false =>
    refine ⟨-1, { s with kmallocs := s.kmallocs + 1 }, rfl, ⟨?_, h.current_running,
      h.current_started⟩, ⟨⟨fun _ => rfl, fun _ _ _ => Iff.rfl⟩, fun _ => rfl, rfl, rfl⟩⟩
    exact { h with address_le := fun n hn => Nat.le_succ_of_le (h.address_le n hn) }

theorem threadStart_spec (env : Env) (h : RunInv s) (ht : t ≠ idleThread)
    (hnew : t ∉ enqueued s.trace) :
    ∃ r s', threadStart env s t = .ok (r, s') ∧ RunInv s' ∧
      EnqueueEffect s (fun u => (s.threads u).state) s' := by
  have hq : t ∉ s.queued := fun hq => hnew (h.queued_enqueued hq)
  exact addThread_spec env h hq ht (.inl (h.fresh t ht hnew).1)

theorem RunInv.current_not_queued (h : RunInv s) (hcur : s.currentThread = some t) :
    t ∉ s.queued := by
  have hrun := h.current_running t hcur
  exact h.not_queued (by simp [hrun]) (by simp [hrun])

/-- A blocked thread is not the idle thread, not queued, not current, and
has been started. -/
theorem RunInv.blocked (h : RunInv s) (hb : (s.threads t).state = .blocked) :
    t ≠ idleThread ∧ t ∉ s.queued ∧ s.currentThread ≠ some t ∧ t ∈ enqueued s.trace := by
  have hidle : t ≠ idleThread := by
    intro heq
    rcases h.idle_state with hst | hst <;> simp [← heq, hb] at hst
  refine ⟨hidle, h.not_queued (by simp [hb]) (by simp [hb]), ?_, ?_⟩
  · intro hcur
    simp [h.current_running t hcur] at hb
  · by_contra hnot
    simp [(h.fresh t hidle hnot).1] at hb

/-- Waking up a blocked thread: the assertion holds. -/
theorem schedulerWakeUp_spec (env : Env) (h : RunInv s) (hb : (s.threads t).state = .blocked) :
    ∃ s', schedulerWakeUp env s t = .ok s' ∧ RunInv s' ∧
      EnqueueEffect s (Function.update (fun u => (s.threads u).state) t .suspended) s' := by
  obtain ⟨hidle, hq, hcur, hstarted⟩ := h.blocked hb
  let s₁ := s.modifyThread t fun th => { th with state := .suspended }
  have h₁ : RunInv s₁ :=
    { h.modify hq hidle hstarted (by simp [hb]) (fun th => { th with state := .suspended }) rfl with
      current_running := by
        intro u hu
        have hne : u ≠ t := by
          intro heq
          exact hcur (heq ▸ hu)
        rw [modifyThread_ne hne]
        exact h.current_running u hu
      current_started := h.current_started }
  have hstate : (s₁.threads t).state = .suspended := by simp [s₁]
  obtain ⟨r, s', hadd, hinv, e⟩ := addThread_spec env h₁ hq hidle (.inr hstate)
  refine ⟨s', ?_, hinv, ⟨⟨?_, e.dispatch⟩, ?_, e.currentThread, e.kmallocs⟩⟩
  · unfold schedulerWakeUp assert
    rw [decide_eq_true hb]
    show (addThread env s₁ t >>= _) = _
    rw [hadd]
    rfl
  · intro u
    rw [e.process u]
    exact modifyThread_keeps Thread.process _ rfl u
  · intro u
    rw [e.state u, modifyThread_state]

/-! ## Giving up the CPU -/

/-- Installing the kernel's tables after an update of the thread that runs. -/
theorem pending_mappings (h : QueueInv mid) (hsame : SameDispatches s mid)
    (hcur : mid.currentThread = some t) {st : ThreadState}
    (hst : ∀ u, (mid.threads u).state = Function.update (fun u => (s.threads u).state) t st u)
    {more : List ThreadId} (hq : mid.queued = s.queued ++ more) :
    Pending env s t st more (mmapApplyMappings env mid) where
  toQueueInv := h.congr rfl rfl rfl rfl
  process := hsame.process
  dispatch := hsame.dispatch
  currentThread := hcur
  state := hst
  ttbr0 := rfl
  queued := hq

/-- The thread that runs may change its state. -/
theorem RunInv.modify_current (h : RunInv s) (hcur : s.currentThread = some t)
    (ht : t ≠ idleThread) (f : Thread → Thread)
    (hnode : (f (s.threads t)).runQueueNode = (s.threads t).runQueueNode)
    (hprocess : (f (s.threads t)).process = (s.threads t).process) :
    QueueInv (s.modifyThread t f) ∧ SameDispatches s (s.modifyThread t f) := by
  have hrun := h.current_running t hcur
  refine ⟨h.modify (h.current_not_queued hcur) ht (h.current_started t hcur ht) (by simp [hrun]) f
    hnode, ⟨?_, fun _ _ _ => Iff.rfl⟩⟩
  exact modifyThread_keeps Thread.process f hprocess

theorem schedulerYield_spec (env : Env) (h : RunInv s) (hcur : s.currentThread = some t)
    (ht : t ≠ idleThread) (frame : ExceptionFrame) :
    ∃ mid, schedulerYield env s frame = schedulerRun env mid ∧
      Pending env s t .suspended (if env.kmallocOk s.kmallocs then [t] else []) mid := by
  let f : Thread → Thread := fun th => th.suspend frame
  let s₁ := s.modifyThread t f
  obtain ⟨h₁, hsame₁⟩ : QueueInv s₁ ∧ SameDispatches s s₁ := h.modify_current hcur ht f rfl rfl
  have hq : t ∉ s₁.queued := h.current_not_queued hcur
  have hstate : (s₁.threads t).state = .suspended := by simp [s₁, f, Thread.suspend]
  have hstates : ∀ u, (s₁.threads u).state =
      Function.update (fun u => (s.threads u).state) t .suspended u := modifyThread_state f
  have hadd := addThread_eq env (h₁.node_none hq) (.inr hstate)
  have hyield : schedulerYield env s frame =
      (addThread env s₁ t >>= fun p => schedulerRun env (mmapApplyMappings env p.2)) := by
    simp only [schedulerYield, hcur]
    rfl
  rw [hyield, hadd]
  -- without a node the thread is in no list any more
  cases hk : env.kmallocOk s.kmallocs with
  | true =>
    have hk₁ : env.kmallocOk s₁.kmallocs = true := hk
    rw [if_pos hk₁]
    refine ⟨_, rfl, pending_mappings (h₁.enqueue hq ht (.inr hstate)) ?_ hcur ?_ enqueue_queued⟩
    · exact ⟨fun u => (enqueue_sameDispatches.process u).trans (hsame₁.process u),
        fun u found r => (enqueue_sameDispatches.dispatch u found r).trans
          (hsame₁.dispatch u found r)⟩
    · intro u
      rw [← hstates u]
      exact enqueue_keeps Thread.state (fun _ _ => rfl) u
  | false =>
    have hk₁ : env.kmallocOk s₁.kmallocs = false := hk
    have h₂ : QueueInv { s₁ with kmallocs := s₁.kmallocs + 1 } :=
      { h₁ with address_le := fun n hn => Nat.le_succ_of_le (h₁.address_le n hn) }
    rw [hk₁]
    exact ⟨_, rfl, pending_mappings h₂ ⟨hsame₁.process, hsame₁.dispatch⟩ hcur hstates
      (List.append_nil _).symm⟩

theorem schedulerWaitForEvent_spec (env : Env) (h : RunInv s) (hcur : s.currentThread = some t)
    (ht : t ≠ idleThread) (cpu : CpuRegisters) :
    ∃ mid, schedulerWaitForEvent env s cpu = schedulerRun env mid ∧
      Pending env s t .blocked [] mid := by
  let f : Thread → Thread := fun th => th.block cpu
  let s₁ := s.modifyThread t f
  obtain ⟨h₁, hsame₁⟩ : QueueInv s₁ ∧ SameDispatches s s₁ := h.modify_current hcur ht f rfl rfl
  have hstates : ∀ u, (s₁.threads u).state =
      Function.update (fun u => (s.threads u).state) t .blocked u := modifyThread_state f
  refine ⟨mmapApplyMappings env s₁, ?_,
    pending_mappings h₁ hsame₁ hcur hstates (List.append_nil _).symm⟩
  simp only [schedulerWaitForEvent, hcur, schedulerSaveAndBlock]
  rfl

/-- Recording the end of a thread whose state is TERMINATED. -/
theorem QueueInv.log_terminate (h : QueueInv s) (hterm : (s.threads t).state = .terminated) :
    QueueInv (s.log (.terminate t)) where
  addresses := h.addresses
  address_le := h.address_le
  node_iff := h.node_iff
  queued_state := h.queued_state
  idle_not_queued := h.idle_not_queued
  idle_state := h.idle_state
  idle_process := h.idle_process
  idle_not_enqueued := by
    simpa [Kernel.log, enqueued] using h.idle_not_enqueued
  fresh := by
    intro u hu hnot
    apply h.fresh u hu
    simpa [Kernel.log, enqueued] using hnot
  fifo := by
    have h0 : enqueued [Event.terminate t] = [] := rfl
    have h1 : dispatched [Event.terminate t] = [] := rfl
    show enqueued (s.trace ++ [Event.terminate t]) =
      dispatched (s.trace ++ [Event.terminate t]) ++ s.queued
    rw [enqueued_append, dispatched_append, h0, h1, List.append_nil, List.append_nil]
    exact h.fifo
  terminated := by
    intro u hu
    rcases List.mem_append.mp hu with hu | hu
    · exact h.terminated u hu
    · injection List.mem_singleton.mp hu with hu
      rw [hu]
      exact hterm
  no_return := by
    show (s.trace ++ [Event.terminate t]).Pairwise _
    rw [List.pairwise_append]
    refine ⟨h.no_return, List.pairwise_singleton _ _, ?_⟩
    simp
  idle_dispatch := by
    intro found r hd
    apply h.idle_dispatch found r
    simpa [Kernel.log] using hd

theorem schedulerTerminate_spec (env : Env) (h : RunInv s) (hcur : s.currentThread = some t)
    (ht : t ≠ idleThread) :
    ∃ mid, schedulerTerminate env s = schedulerRun env mid ∧
      Pending env s t .terminated [] mid := by
  let s₁ := s.modifyThread t Thread.terminate
  obtain ⟨h₁, hsame₁⟩ : QueueInv s₁ ∧ SameDispatches s s₁ :=
    h.modify_current hcur ht Thread.terminate rfl rfl
  have hstates : ∀ u, (s₁.threads u).state =
      Function.update (fun u => (s.threads u).state) t .terminated u :=
    modifyThread_state Thread.terminate
  have hterm : (s₁.threads t).state = .terminated := by simp [s₁, Thread.terminate]
  have hsame₂ : SameDispatches s (s₁.log (.terminate t)) := by
    refine ⟨hsame₁.process, ?_⟩
    intro u found r
    simp [Kernel.log, s₁]
  refine ⟨mmapApplyMappings env (s₁.log (.terminate t)), ?_,
    pending_mappings (h₁.log_terminate hterm) hsame₂ hcur hstates (List.append_nil _).symm⟩
  simp only [schedulerTerminate, hcur]
  rfl

/-! ## Which threads are blocked -/

/-- A thread is BLOCKED. -/
def Blocked (s : Kernel) (u : ThreadId) : Prop := (s.threads u).state = .blocked

/-- `scheduler_run` dispatches no BLOCKED thread. -/
theorem RunEffect.blocked_iff (h : QueueInv s) (e : RunEffect env s s') (u : ThreadId) :
    Blocked s' u ↔ Blocked s u := by
  unfold Blocked
  rw [e.state]
  split
  · rename_i hu
    have hnext : (s.threads (nextThread s)).state ≠ .blocked := by
      obtain ⟨_, hidle, _⟩ | hq := next_cases s
      · rw [hidle]
        rcases h.idle_state with hst | hst <;> simp [hst]
      · have hmem : nextThread s ∈ s.queued := by rw [hq]; exact List.mem_cons_self
        rcases h.queued_state _ hmem with hst | hst <;> simp [hst]
    simp [hu, hnext]
  · rfl

/-- Giving up the CPU in a state other than BLOCKED blocks nobody. -/
theorem Pending.run_blocked {st : ThreadState} {more : List ThreadId} (h : RunInv s)
    (hcur : s.currentThread = some t) (hst : st ≠ .blocked) (hmid : Pending env s t st more mid) :
    ∃ s', schedulerRun env mid = .ok s' ∧ RunInv s' ∧ (∀ u, Blocked s' u ↔ Blocked s u) ∧
      ∀ u, (s'.threads u).process = (s.threads u).process := by
  have e := afterRun_effect env mid
  refine ⟨_, schedulerRun_eq hmid.toQueueInv, hmid.toQueueInv.run e, ?_,
    fun u => (e.process u).trans (hmid.process u)⟩
  intro u
  rw [e.blocked_iff hmid.toQueueInv, Blocked, Blocked, hmid.state]
  by_cases hu : u = t
  · subst hu
    simp [hst, h.current_running u hcur]
  · rw [Function.update_of_ne hu]

/-- `scheduler_wait_for_event` blocks the thread that runs and no other. -/
theorem schedulerWaitForEvent_blocks (env : Env) (h : RunInv s) (hcur : s.currentThread = some t)
    (ht : t ≠ idleThread) (cpu : CpuRegisters) :
    ∃ s', schedulerWaitForEvent env s cpu = .ok s' ∧ RunInv s' ∧
      (∀ u, Blocked s' u ↔ u = t ∨ Blocked s u) ∧
      ∀ u, (s'.threads u).process = (s.threads u).process := by
  obtain ⟨mid, heq, hmid⟩ := schedulerWaitForEvent_spec env h hcur ht cpu
  have e := afterRun_effect env mid
  refine ⟨_, heq.trans (schedulerRun_eq hmid.toQueueInv), hmid.toQueueInv.run e, ?_,
    fun u => (e.process u).trans (hmid.process u)⟩
  intro u
  rw [e.blocked_iff hmid.toQueueInv, Blocked, Blocked, hmid.state]
  by_cases hu : u = t
  · subst hu
    simp
  · rw [Function.update_of_ne hu]
    simp [hu]

/-- `scheduler_wake_up` takes the thread out of the BLOCKED ones. -/
theorem schedulerWakeUp_blocked (env : Env) (h : RunInv s) (hb : Blocked s t) :
    ∃ s', schedulerWakeUp env s t = .ok s' ∧ RunInv s' ∧
      (∀ u, Blocked s' u ↔ u ≠ t ∧ Blocked s u) ∧
      (∀ u, (s'.threads u).process = (s.threads u).process) ∧
      s'.currentThread = s.currentThread ∧ s'.kmallocs = s.kmallocs + 1 := by
  obtain ⟨s', heq, hinv, e⟩ := schedulerWakeUp_spec env h hb
  refine ⟨s', heq, hinv, ?_, e.process, e.currentThread, e.kmallocs⟩
  intro u
  rw [Blocked, Blocked, e.state]
  by_cases hu : u = t
  · subst hu
    simp
  · rw [Function.update_of_ne hu]
    simp [hu]

/-- A call of kmalloc elsewhere in the kernel. -/
theorem RunInv.kmalloc (h : RunInv s) : RunInv { s with kmallocs := s.kmallocs + 1 } :=
  { h with address_le := fun n hn => Nat.le_succ_of_le (h.address_le n hn) }

/-! ## Steps and runs -/

/-- What a step does: it enqueues, or it ends in `scheduler_run`. -/
inductive StepEffect (env : Env) (s : Kernel) (a : Action) (s' : Kernel) : Prop
  | enqueues (ha : ∀ frame, a ≠ .yield frame) (h : SameDispatches s s')
  | runs (ha : a = .run) (h : RunEffect env s s')
  | yields {t : ThreadId} {mid : Kernel} (frame : ExceptionFrame) (ha : a = .yield frame)
      (hcur : s.currentThread = some t) (ht : t ≠ idleThread)
      (hmid : Pending env s t .suspended (if env.kmallocOk s.kmallocs then [t] else []) mid)
      (h : RunEffect env mid s')
  | leaves {t : ThreadId} {mid : Kernel} (ha : ∀ frame, a ≠ .yield frame)
      (hcur : s.currentThread = some t) (ht : t ≠ idleThread) {st : ThreadState}
      (hmid : Pending env s t st [] mid) (h : RunEffect env mid s')

/-- Every enabled action returns, with no assertion failing, and keeps the
invariant. -/
theorem exec_spec (env : Env) (h : RunInv s) (ha : Enabled s a) :
    ∃ s', exec env s a = .ok s' ∧ RunInv s' ∧ StepEffect env s a s' := by
  cases a with
  | threadStart t =>
    obtain ⟨r, s', heq, hinv, e⟩ := threadStart_spec env h ha.1 ha.2
    refine ⟨s', ?_, hinv, .enqueues (by simp) e.toSameDispatches⟩
    show Prod.snd <$> threadStart env s t = _
    rw [heq]
    rfl
  | run =>
    have e := afterRun_effect env s
    exact ⟨_, schedulerRun_eq h.toQueueInv, h.toQueueInv.run e, .runs rfl e⟩
  | yield frame =>
    obtain ⟨t, hcur, ht⟩ := ha
    obtain ⟨mid, heq, hmid⟩ := schedulerYield_spec env h hcur ht frame
    have e := afterRun_effect env mid
    exact ⟨_, heq.trans (schedulerRun_eq hmid.toQueueInv), hmid.toQueueInv.run e,
      .yields frame rfl hcur ht hmid e⟩
  | waitForEvent cpu =>
    obtain ⟨t, hcur, ht⟩ := ha
    obtain ⟨mid, heq, hmid⟩ := schedulerWaitForEvent_spec env h hcur ht cpu
    have e := afterRun_effect env mid
    exact ⟨_, heq.trans (schedulerRun_eq hmid.toQueueInv), hmid.toQueueInv.run e,
      .leaves (by simp) hcur ht hmid e⟩
  | wakeUp t =>
    obtain ⟨s', heq, hinv, e⟩ := schedulerWakeUp_spec env h ha
    exact ⟨s', heq, hinv, .enqueues (by simp) e.toSameDispatches⟩
  | terminate =>
    obtain ⟨t, hcur, ht⟩ := ha
    obtain ⟨mid, heq, hmid⟩ := schedulerTerminate_spec env h hcur ht
    have e := afterRun_effect env mid
    exact ⟨_, heq.trans (schedulerRun_eq hmid.toQueueInv), hmid.toQueueInv.run e,
      .leaves (by simp) hcur ht hmid e⟩

theorem step_spec (h : RunInv s) (hstep : Step env s a s') :
    RunInv s' ∧ StepEffect env s a s' := by
  obtain ⟨s'', heq, hinv, heffect⟩ := exec_spec env h hstep.1
  cases heq.symm.trans hstep.2
  exact ⟨hinv, heffect⟩

theorem init_inv (h : Init s) : RunInv s where
  addresses := by simp [h.runQueue]
  address_le := by simp [h.runQueue]
  node_iff := by simp [h.runQueue, (h.fresh _).2]
  queued_state := by simp [Kernel.queued, h.runQueue]
  idle_not_queued := by simp [Kernel.queued, h.runQueue]
  idle_state := .inl (h.fresh _).1
  idle_process := h.idle
  idle_not_enqueued := by simp [h.trace, enqueued]
  fresh := fun t _ _ => h.fresh t
  fifo := by simp [h.trace, enqueued, dispatched, Kernel.queued, h.runQueue]
  terminated := by simp [h.trace]
  no_return := by simp [h.trace]
  idle_dispatch := by simp [h.trace]
  current_running := by simp [h.currentThread]
  current_started := by simp [h.currentThread]

/-- The invariant holds in every run. -/
theorem run_inv (h : Run Init (Step env) history s) : RunInv s :=
  h.invariant (fun _ => init_inv) fun _ _ _ hinv hstep => (step_spec hinv hstep).1

/-- The laws of the scheduler's state machine. -/
structure SchedulerLaws (s : Kernel) : Prop where
  /-- A thread is queued at most once. -/
  queued_once : s.queued.Nodup
  /-- It is queued exactly when its `run_queue_node` is not NULL. -/
  queued_iff : ∀ t, t ∈ s.queued ↔ (s.threads t).runQueueNode ≠ none
  /-- The back pointer names the thread's own node. -/
  node_iff : ∀ t a, (s.threads t).runQueueNode = some a ↔ ⟨a, t⟩ ∈ s.runQueue
  queued_state : ∀ t ∈ s.queued,
    (s.threads t).state = .ready ∨ (s.threads t).state = .suspended
  current : ∀ t, s.currentThread = some t → (s.threads t).state = .running ∧ t ∉ s.queued
  /-- After its end a thread stays TERMINATED and is not dispatched again. -/
  terminated : ∀ t, .terminate t ∈ s.trace → (s.threads t).state = .terminated
  no_return : s.trace.Pairwise fun e e' =>
    ∀ t found r, e = .terminate t → e' ≠ .dispatch t found r
  /-- The idle thread runs only when nothing is queued. -/
  idle_dispatch : ∀ found r, .dispatch idleThread found r ∈ s.trace → found = []
  /-- Threads are dispatched in the order in which they were enqueued. -/
  fifo : enqueued s.trace = dispatched s.trace ++ s.queued

/-- The laws hold in every state that a run reaches, and no assertion fails
there whatever happens next. -/
theorem scheduler_laws (env : Env) (history : List (Kernel × Action)) (s : Kernel)
    (h : Run Init (Step env) history s) :
    SchedulerLaws s ∧ ∀ a, Enabled s a → ∃ s', exec env s a = .ok s' := by
  have hinv := run_inv h
  constructor
  · exact
      { queued_once := hinv.queued_nodup
        queued_iff := fun t => hinv.queued_iff
        node_iff := hinv.node_iff
        queued_state := hinv.queued_state
        current := fun t ht => ⟨hinv.current_running t ht, hinv.current_not_queued ht⟩
        terminated := hinv.terminated
        no_return := hinv.no_return
        idle_dispatch := hinv.idle_dispatch
        fifo := hinv.fifo }
  · intro a ha
    obtain ⟨s', heq, _⟩ := exec_spec env hinv ha
    exact ⟨s', heq⟩

end

/-! ## A booted system -/

/-- The thread of a process as it is before it is started. -/
def blankThread (process : Option ProcessId) : Thread where
  process := process
  kernelStackTop := 0x10000
  stackTop := 0x20000
  state := .ready
  type := .user
  ctx := { entryPoint := 0x1000, sp := 0x20000, registers := fun _ => 0, spsr := 0, elr := 0x1000 }
  runQueueNode := none

/-- A booted system in which every thread but the idle one is the thread of
a process of its own. -/
def boot : Kernel where
  currentThread := none
  runQueue := []
  threads := fun t => blankThread (if t = idleThread then none else some t)
  ttbr0 := 0x1000
  ttbr1 := 0x2000
  kmallocs := 0
  trace := []

/-- The kernel's tables at `0x1000` and `0x2000`, that of process `p` at
`0x10000 * p`. -/
def bootEnv : Env where
  kmallocOk := fun _ => true
  gTtbr0Table := 0x1000
  gTtbr1Table := 0x2000
  rootPageTable := fun p => 0x10000 * BitVec.ofNat 64 p

def blankFrame : ExceptionFrame where
  registers := fun _ => 0
  sp := 0
  elr := 0
  spsr := 0

theorem boot_init : Init boot where
  currentThread := rfl
  runQueue := rfl
  trace := rfl
  fresh := fun _ => ⟨rfl, rfl⟩
  idle := rfl

/-- Runs of the booted system, found by evaluation. -/
theorem boot_run (as : List Action) (P : Kernel → Bool)
    (h : (runSteps (execStep bootEnv) boot as).any P = true) :
    ∃ history s, Run Init (Step bootEnv) history s ∧ P s = true :=
  Run.of_check (fun _ _ _ => execStep_sound) boot_init as P h

/-- Two threads take turns, the first one ends. -/
theorem boot_laws : ∃ s, s.queued = [] ∧ (s.threads 1).state = .terminated ∧
    s.currentThread = some 2 ∧ SchedulerLaws s := by
  obtain ⟨history, s, hrun, hend⟩ := boot_run
    [.threadStart 1, .threadStart 2, .run, .yield blankFrame, .yield blankFrame, .terminate]
    (fun s => decide (s.queued = [] ∧ (s.threads 1).state = .terminated ∧
      s.currentThread = some 2)) (by decide +kernel)
  obtain ⟨hq, hterm, hcur⟩ := of_decide_eq_true hend
  exact ⟨s, hq, hterm, hcur, (scheduler_laws bootEnv history s hrun).1⟩

end ZOs.Scheduler
