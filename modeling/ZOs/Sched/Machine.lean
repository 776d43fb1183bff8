import ZOs.Sched.AddressSpace
import ZOs.Sched.Switch

/-!
# Threads on the CPU

The scheduler and the CPU together. A step is an `svc` with the assembly
around the handler, a call of the scheduler out of a handler, or whatever a
thread computes between its exceptions. The C code of the kernel is not
executed here: it does what the scheduler's model says, uses the stack
below where it was called, comes back where it was called, and writes
neither to SP_EL0 nor to the exception frames.

`calls` says which system calls are in progress, `yielded` what each thread
that has yielded had in its registers at the `svc`, and `continued` pairs
that with what it found when it went on. The code reads none of the three.
-/

namespace ZOs.Scheduler

open Runs A64

/-- The number of the yield system call. -/
def syscallYield : Word := 0x2

/-- The mode in a PSTATE: zero for EL0, where the SP of the thread is
SP_EL0. -/
def mode (pstate : Word) : Word := pstate &&& 0xF

/-- What a thread sees of the CPU. -/
structure View where
  x : Reg → Word
  sp : Word
  pc : Word
  pstate : Word

def view (c : Cpu) : View where
  x := c.get
  sp := if mode c.pstate = 0 then c.spEl0 else c.sp
  pc := c.pc
  pstate := c.pstate

/-- A system call in progress: where its exception frame is, what it holds,
and how many bytes below it the C code uses. -/
structure Call where
  base : Word
  frame : ExceptionFrame
  depth : Nat

/-- The machine. -/
structure Machine where
  kernel : Kernel
  cpu : Cpu
  calls : ThreadId → Option Call
  yielded : ThreadId → Option View
  continued : List (View × View)

/-- Where `thread->ctx` is, and how many threads there are. -/
structure Layout where
  ctxAddress : ThreadId → Word
  count : Nat

/-- `KERNEL_STACK_SIZE`. -/
def stackBytes : Nat := 8 * 4096

/-- The kernel stack of a thread. -/
def stackTop (k : Kernel) (t : ThreadId) : Nat := (k.threads t).kernelStackTop.toNat

/-- The memory of the threads: kernel stacks in the upper half, each for
one thread, and contexts outside all of them. -/
structure Layout.Fits (layout : Layout) (k : Kernel) : Prop where
  idleCount : idleThread < layout.count
  upper : ∀ t < layout.count, 2 ^ 63 + stackBytes ≤ stackTop k t
  apart : ∀ t < layout.count, ∀ u < layout.count, t ≠ u →
    stackTop k t + stackBytes ≤ stackTop k u ∨ stackTop k u + stackBytes ≤ stackTop k t
  contexts : ∀ t < layout.count, ∀ u < layout.count,
    (layout.ctxAddress t).toNat + 288 + stackBytes ≤ stackTop k u ∨
      stackTop k u ≤ (layout.ctxAddress t).toNat
  contexts_end : ∀ t < layout.count, (layout.ctxAddress t).toNat + 288 ≤ 2 ^ 64

/-- `context_switch` moves SP to the kernel stack and passes the context in
`x0`. -/
def switchEntry (layout : Layout) (k : Kernel) (t : ThreadId) (c : Cpu) : Cpu :=
  { (c.set 1 (k.threads t).kernelStackTop).set 0 (layout.ctxAddress t) with
    sp := (k.threads t).kernelStackTop }

/-- The thread that `scheduler_run` has chosen goes on: `straight` is the
state in which the running thread returns, and another one is switched to
from `c`. -/
inductive Resume (layout : Layout) (prev : Option ThreadId) (k : Kernel) (c straight : Cpu) :
    Cpu → Prop
  | same : k.currentThread = prev → Resume layout prev k c straight straight
  | switch {t : ThreadId} {c' : Cpu} : k.currentThread = some t → prev ≠ some t →
      HoldsContext c (layout.ctxAddress t) (k.threads t).ctx →
      schedulerSwitchToThread 18 (switchEntry layout k t c) = some c' →
      Resume layout prev k c straight c'

/-- The exception frames keep their words, but for the result in `x0`. -/
def FramesKept (calls : ThreadId → Option Call) (mem mem' : Word → Word) : Prop :=
  ∀ t call, calls t = some call → ∀ i, 0 < i → i < 35 →
    mem' (slot call.base i) = mem (slot call.base i)

namespace Machine

/-- The current thread goes on in the state `c`. -/
def goOn (m : Machine) (k : Kernel) (c : Cpu) : Machine :=
  match k.currentThread.bind m.yielded with
  | none => { m with kernel := k, cpu := c }
  | some v =>
    { m with
      kernel := k
      cpu := c
      yielded := fun t => if k.currentThread = some t then none else m.yielded t
      continued := m.continued ++ [(v, view c)] }

def setCall (m : Machine) (t : ThreadId) (call : Option Call) : Machine :=
  { m with calls := Function.update m.calls t call }

def setYielded (m : Machine) (t : ThreadId) (v : View) : Machine :=
  { m with yielded := Function.update m.yielded t (some v) }

/-- Where the stack pointer is at the call of the system call's handler,
or in a thread that is in none. -/
def handlerSp (m : Machine) (t : ThreadId) : Word :=
  m.cpu.sp + ((m.calls t).elim 0 fun call => BitVec.ofNat 64 call.depth)

end Machine

/-- What can happen on the CPU. Where C code runs, the action carries the
state of the CPU at its end. -/
inductive CpuAction
  /-- `kernel_main` calls `scheduler_run`. -/
  | boot (c : Cpu)
  /-- The current thread computes. -/
  | compute (c : Cpu)
  /-- A system call other than yield. -/
  | enter
  /-- The handler of a system call returns. -/
  | leave (c : Cpu)
  /-- The yield system call. -/
  | yield (c : Cpu)
  /-- `scheduler_wait_for_event`. -/
  | block (depth : Nat) (registers : Reg → Word) (c : Cpu)
  /-- `scheduler_terminate`. -/
  | terminate (c : Cpu)
  | threadStart (t : ThreadId)
  | wakeUp (t : ThreadId)

section
variable (env : Env) (layout : Layout)

/-- One step of the machine. -/
inductive CpuStep : Machine → CpuAction → Machine → Prop
  | boot {m k' c c'} : m.kernel.currentThread = none → c.spEl0 = m.cpu.spEl0 →
      FramesKept m.calls m.cpu.mem c.mem → Step env m.kernel .run k' →
      Resume layout none k' c c c' → CpuStep m (.boot c) (m.goOn k' c')
  | compute {m t c} : m.kernel.currentThread = some t → m.calls t = none →
      mode c.pstate = mode m.cpu.pstate →
      -- EL0 has no access to SP_EL1
      (mode m.cpu.pstate = 0 → c.sp = m.cpu.sp) → FramesKept m.calls m.cpu.mem c.mem →
      CpuStep m (.compute c) { m with cpu := c }
  | enter {m t} : m.kernel.currentThread = some t → m.calls t = none →
      mode m.cpu.pstate = 0 → m.cpu.get 8 ≠ syscallYield →
      CpuStep m .enter ({ m with cpu := handleSyncEntry m.cpu.svc }.setCall t
        (some ⟨m.cpu.sp - 280, savedFrame m.cpu.svc, 0⟩))
  | leave {m t call c} : m.kernel.currentThread = some t → m.calls t = some call →
      c.sp = m.handlerSp t → c.spEl0 = m.cpu.spEl0 → FramesKept m.calls m.cpu.mem c.mem →
      CpuStep m (.leave c) ({ m with cpu := handleSyncExit c }.setCall t none)
  | yield {m t k' c c'} : m.kernel.currentThread = some t → m.calls t = none →
      m.cpu.get 8 = syscallYield →
      -- a kernel thread has its stack pointer in its own stack
      (mode m.cpu.pstate ≠ 0 → ∀ u call, m.calls u = some call → ∀ i < 35, ∀ j < 35,
        slot call.base i ≠ slot (m.cpu.sp - 280) j) →
      c.sp = m.cpu.sp - 280 → c.spEl0 = m.cpu.spEl0 →
      readFrame c (m.cpu.sp - 280) = savedFrame m.cpu.svc →
      FramesKept m.calls (handleSyncEntry m.cpu.svc).mem c.mem →
      Step env m.kernel (.yield (readFrame (handleSyncEntry m.cpu.svc) (m.cpu.sp - 280))) k' →
      Resume layout (some t) k' c (handleSyncExit c) c' →
      CpuStep m (.yield c) ((m.setYielded t (view m.cpu)).goOn k' c')
  | block {m t k' depth registers c c'} : m.kernel.currentThread = some t →
      -- a user thread waits in a system call, on a stack that is large enough
      (mode m.cpu.pstate = 0 → m.calls t ≠ none) → depth + 568 ≤ stackBytes →
      c.spEl0 = m.cpu.spEl0 → FramesKept m.calls m.cpu.mem c.mem →
      Step env m.kernel
        (.waitForEvent ⟨registers, m.handlerSp t - BitVec.ofNat 64 depth⟩) k' →
      Resume layout (some t) k' c c c' →
      CpuStep m (.block depth registers c)
        ((m.setCall t ((m.calls t).map fun call => { call with depth })).goOn k' c')
  | terminate {m t k' c c'} : m.kernel.currentThread = some t →
      (mode m.cpu.pstate = 0 → m.calls t ≠ none) → c.spEl0 = m.cpu.spEl0 →
      FramesKept m.calls m.cpu.mem c.mem →
      Step env m.kernel .terminate k' → Resume layout (some t) k' c c c' →
      CpuStep m (.terminate c) ((m.setCall t none).goOn k' c')
  | threadStart {m t k'} : t < layout.count → Step env m.kernel (.threadStart t) k' →
      CpuStep m (.threadStart t) { m with kernel := k' }
  | wakeUp {m t k'} : Step env m.kernel (.wakeUp t) k' →
      CpuStep m (.wakeUp t) { m with kernel := k' }

/-- When the threads have been made: each as `thread_init` left it, no
system call in progress, and nothing recorded. -/
structure MachineInit (m : Machine) : Prop extends Init m.kernel, Layout.Fits layout m.kernel where
  made : ∀ t, ∃ kernelStack entryPoint top type th process,
    threadInit kernelStack entryPoint top type = some th ∧
      m.kernel.threads t = { th with process }
  idleType : (m.kernel.threads idleThread).type = .kernel
  calls : ∀ t, m.calls t = none
  yielded : ∀ t, m.yielded t = none
  continued : m.continued = []

end

/-! ## What the scheduler stores in a thread -/

section
variable {env : Env} {s s' : Kernel} {t u : ThreadId}

/-- A field that is neither the state nor the back pointer. -/
def Steady {β : Type*} (field : Thread → β) : Prop :=
  ∀ (th : Thread) state node, field { th with state, runQueueNode := node } = field th

theorem Steady.state {β : Type*} {field : Thread → β} (h : Steady field) (th : Thread)
    (state : ThreadState) : field { th with state } = field th :=
  h th state th.runQueueNode

theorem Steady.node {β : Type*} {field : Thread → β} (h : Steady field) (th : Thread)
    (node : Option NodeId) : field { th with runQueueNode := node } = field th :=
  h th th.state node

/-- From the success of a sequence, that of its two parts. -/
theorem bind_ok {α β : Type} {x : Except Fault α} {f : α → Except Fault β} {b : β}
    (h : (x >>= f) = .ok b) : ∃ a, x = .ok a ∧ f a = .ok b := by
  cases x with
  | error e => cases h
  | ok a => exact ⟨a, rfl, h⟩

theorem map_ok {α β : Type} {x : Except Fault α} {f : α → β} {b : β}
    (h : f <$> x = .ok b) : ∃ a, x = .ok a ∧ f a = b := by
  cases x with
  | error e => cases h
  | ok a => exact ⟨a, rfl, Except.ok.inj h⟩

theorem addThread_keeps {β : Type*} {field : Thread → β} (hf : Steady field) {r : Int}
    (h : addThread env s t = .ok (r, s')) (u : ThreadId) :
    field (s'.threads u) = field (s.threads u) := by
  have hnode : (s.threads t).runQueueNode = none := by
    by_contra hnode
    unfold addThread assert at h
    rw [decide_eq_false hnode] at h
    cases h
  have hstate : (s.threads t).state = .ready ∨ (s.threads t).state = .suspended := by
    by_contra hstate
    unfold addThread assert at h
    rw [decide_eq_true hnode, decide_eq_false hstate] at h
    cases h
  rw [addThread_eq env hnode hstate] at h
  injection h with h
  split at h
  · cases h
    exact enqueue_keeps field hf.node u
  · cases h
    rfl

theorem removeThread_keeps {β : Type*} {field : Thread → β} (hf : Steady field)
    (h : removeThread s t = .ok s') (u : ThreadId) :
    field (s'.threads u) = field (s.threads u) := by
  unfold removeThread at h
  split at h
  · cases h
  · cases h
    exact modifyThread_keeps field _ (hf.node _ _) u

theorem skipTerminated_keeps {β : Type*} {field : Thread → β} (hf : Steady field) {fuel : Nat}
    {next : ThreadId} (h : skipTerminated fuel s t = .ok (next, s')) (u : ThreadId) :
    field (s'.threads u) = field (s.threads u) := by
  induction fuel generalizing s t with
  | zero =>
    unfold skipTerminated at h
    split at h
    · cases h
      rfl
    · split at h
      · cases h
      · cases h
        rfl
  | succ fuel ih =>
    unfold skipTerminated at h
    split at h
    · cases h
      rfl
    · split at h
      · obtain ⟨s₁, hremove, hrest⟩ := bind_ok h
        rw [ih hrest]
        exact removeThread_keeps hf hremove u
      · cases h
        rfl

theorem pickNext_keeps {β : Type*} {field : Thread → β} (hf : Steady field)
    {next : Option ThreadId} (h : pickNext s = .ok (next, s')) (u : ThreadId) :
    field (s'.threads u) = field (s.threads u) := by
  unfold pickNext at h
  split at h
  · cases h
    rfl
  · obtain ⟨s₁, hremove, hrest⟩ := bind_ok h
    obtain ⟨⟨next', s₂⟩, hskip, hret⟩ := bind_ok hrest
    cases hret
    rw [skipTerminated_keeps hf hskip]
    exact removeThread_keeps hf hremove u

theorem schedulerRun_keeps {β : Type*} {field : Thread → β} (hf : Steady field)
    (h : schedulerRun env s = .ok s') (u : ThreadId) :
    field (s'.threads u) = field (s.threads u) := by
  obtain ⟨⟨next, s₁⟩, hpick, hret⟩ := bind_ok h
  cases hret
  obtain ⟨r0, heq, -, -⟩ := switchTo_spec env s₁ (next.getD idleThread)
  show field ((switchTo env s₁ (next.getD idleThread)).threads u) = _
  rw [heq]
  have hset := modifyThread_keeps field (fun th => { th with state := .running })
    (hf.state (s₁.threads (next.getD idleThread)) .running) u
  exact hset.trans (pickNext_keeps hf hpick u)

/-- What an action stores in the context of the thread that runs. -/
def Action.store : Action → Thread → Thread
  | .yield frame, th => th.suspend frame
  | .waitForEvent cpu, th => th.block cpu
  | _, th => th

/-- A step changes the fields of the running thread as its action says, and
of no other thread anything but the state and the back pointer. -/
theorem step_keeps {β : Type*} {field : Thread → β} (hf : Steady field) {a : Action}
    (hstep : Step env s a s') (u : ThreadId) :
    field (s'.threads u) =
      field (if s.currentThread = some u then a.store (s.threads u) else s.threads u) := by
  obtain ⟨ha, hexec⟩ := hstep
  -- an update of the running thread
  have hmodify : ∀ {t : ThreadId} (f : Thread → Thread), s.currentThread = some t →
      (∀ th, field (f th) = field (a.store th)) → field ((s.modifyThread t f).threads u) =
        field (if s.currentThread = some u then a.store (s.threads u) else s.threads u) := by
    intro t f hcur hfield
    by_cases hu : u = t
    · subst hu
      rw [modifyThread_self, if_pos hcur, hfield]
    · rw [modifyThread_ne hu, if_neg]
      rw [hcur]
      exact fun h => hu (Option.some.inj h).symm
  cases a with
  | threadStart t =>
    obtain ⟨⟨r, s₁⟩, hadd, rfl⟩ := map_ok hexec
    rw [addThread_keeps hf hadd]
    exact congrArg field (ite_self _).symm
  | run =>
    rw [schedulerRun_keeps hf hexec]
    exact congrArg field (ite_self _).symm
  | yield frame =>
    obtain ⟨t, hcur, -⟩ := ha
    simp only [exec, schedulerYield, hcur] at hexec
    obtain ⟨⟨r, s₁⟩, hadd, hrun⟩ := bind_ok hexec
    rw [schedulerRun_keeps hf hrun]
    exact (addThread_keeps hf hadd u).trans (hmodify _ hcur fun _ => rfl)
  | waitForEvent cpu =>
    obtain ⟨t, hcur, -⟩ := ha
    simp only [exec, schedulerWaitForEvent, hcur] at hexec
    exact (schedulerRun_keeps hf hexec u).trans (hmodify _ hcur fun _ => rfl)
  | wakeUp t =>
    obtain ⟨_, -, hrest⟩ := bind_ok hexec
    obtain ⟨⟨r, s₁⟩, hadd, hret⟩ := bind_ok hrest
    cases hret
    rw [addThread_keeps hf hadd, modifyThread_keeps field _ (hf.state _ _)]
    exact congrArg field (ite_self _).symm
  | terminate =>
    obtain ⟨t, hcur, -⟩ := ha
    simp only [exec, schedulerTerminate, hcur] at hexec
    exact (schedulerRun_keeps hf hexec u).trans
      (hmodify _ hcur fun th => hf.state th .terminated)

/-- The thread that `scheduler_run` picks in a yield. -/
def nextAfterYield (env : Env) (s : Kernel) : ThreadId :=
  (s.queued ++ if env.kmallocOk s.kmallocs then s.currentThread.toList else []).head?.getD
    idleThread

/-- Who runs after an action. -/
def currentAfter (env : Env) (s : Kernel) : Action → Option ThreadId
  | .threadStart _ | .wakeUp _ => s.currentThread
  | .yield _ => some (nextAfterYield env s)
  | .run | .waitForEvent _ | .terminate => some (nextThread s)

theorem nextThread_eq (s : Kernel) : nextThread s = s.queued.head?.getD idleThread := by
  unfold nextThread Kernel.queued
  rcases s.runQueue with _ | ⟨n, rest⟩ <;> rfl

theorem step_current {a : Action} (hinv : RunInv s) (hstep : Step env s a s') :
    s'.currentThread = currentAfter env s a := by
  obtain ⟨ha, hexec⟩ := hstep
  cases a with
  | threadStart t =>
    obtain ⟨r, s₁, heq, -, e⟩ := threadStart_spec env hinv ha.1 ha.2
    obtain ⟨⟨r', s₂⟩, hadd, rfl⟩ := map_ok hexec
    cases heq.symm.trans hadd
    exact e.currentThread
  | run =>
    cases (schedulerRun_eq hinv.toQueueInv).symm.trans hexec
    exact (afterRun_effect env s).currentThread
  | yield frame =>
    obtain ⟨t, hcur, ht⟩ := ha
    obtain ⟨mid, heq, hmid⟩ := schedulerYield_spec env hinv hcur ht frame
    cases (heq.trans (schedulerRun_eq hmid.toQueueInv)).symm.trans hexec
    rw [(afterRun_effect env mid).currentThread, nextThread_eq, hmid.queued]
    show _ = some (nextAfterYield env s)
    unfold nextAfterYield
    rw [hcur]
    rfl
  | waitForEvent cpu =>
    obtain ⟨t, hcur, ht⟩ := ha
    obtain ⟨mid, heq, hmid⟩ := schedulerWaitForEvent_spec env hinv hcur ht cpu
    cases (heq.trans (schedulerRun_eq hmid.toQueueInv)).symm.trans hexec
    rw [(afterRun_effect env mid).currentThread, nextThread_eq, hmid.queued, List.append_nil,
      ← nextThread_eq]
    rfl
  | wakeUp t =>
    obtain ⟨s₁, heq, -, e⟩ := schedulerWakeUp_spec env hinv ha
    cases heq.symm.trans hexec
    exact e.currentThread
  | terminate =>
    obtain ⟨t, hcur, ht⟩ := ha
    obtain ⟨mid, heq, hmid⟩ := schedulerTerminate_spec env hinv hcur ht
    cases (heq.trans (schedulerRun_eq hmid.toQueueInv)).symm.trans hexec
    rw [(afterRun_effect env mid).currentThread, nextThread_eq, hmid.queued, List.append_nil,
      ← nextThread_eq]
    rfl

theorem mem_dispatched {l : List Event} : u ∈ dispatched l ↔
    u ≠ idleThread ∧ ∃ found r, .dispatch u found r ∈ l := by
  unfold dispatched
  rw [List.mem_filterMap]
  constructor
  · rintro ⟨e, he, h⟩
    cases e with
    | dispatch v found r =>
      dsimp only at h
      split at h
      · cases h
      · cases h
        exact ⟨‹_›, found, r, he⟩
    | enqueue v => cases h
    | terminate v => cases h
  · rintro ⟨hne, found, r, he⟩
    exact ⟨_, he, by simp [hne]⟩

/-- Before `scheduler_run` only the running thread may have been enqueued. -/
theorem Pending.enqueued {st : ThreadState} {more : List ThreadId} {mid : Kernel}
    (hinv : RunInv s) (h : Pending env s t st more mid) (hcur : s.currentThread = some t)
    (ht : t ≠ idleThread) (hmore : ∀ v ∈ more, v = t) (hu : u ∈ enqueued mid.trace) :
    u ∈ enqueued s.trace := by
  rw [h.fifo, List.mem_append, h.queued, List.mem_append] at hu
  rcases hu with hu | hu | hu
  · obtain ⟨hne, found, r, he⟩ := mem_dispatched.mp hu
    rw [hinv.fifo, List.mem_append]
    exact .inl (mem_dispatched.mpr ⟨hne, found, r, (h.dispatch u found r).mp he⟩)
  · exact hinv.queued_enqueued hu
  · rw [hmore u hu]
    exact hinv.current_started t hcur ht

/-- A thread is enqueued for the first time by `thread_start`. -/
theorem step_enqueued {a : Action} (hinv : RunInv s) (hstep : Step env s a s')
    (hu : u ∈ enqueued s'.trace) : u ∈ enqueued s.trace ∨ a = .threadStart u := by
  -- what `scheduler_run` adds to the record is no enqueueing
  have hrun : ∀ {mid : Kernel}, RunEffect env mid s' → u ∈ enqueued mid.trace := by
    intro mid e
    rw [e.trace, enqueued_append] at hu
    simpa [enqueued] using hu
  have hadd : ∀ {s₁ : Kernel} {t : ThreadId} {r : Int}, (s₁.threads t).runQueueNode = none →
      ((s₁.threads t).state = .ready ∨ (s₁.threads t).state = .suspended) →
      addThread env s₁ t = .ok (r, s') → u ∈ enqueued s₁.trace ∨ u = t := by
    intro s₁ t r hnode hstate heq
    rw [addThread_eq env hnode hstate] at heq
    injection heq with heq
    split at heq
    · cases heq
      rw [enqueue_trace, enqueued_append, List.mem_append] at hu
      exact hu.imp id fun h => by simpa [enqueued] using h
    · cases heq
      exact .inl hu
  obtain ⟨ha, hexec⟩ := hstep
  cases a with
  | threadStart t =>
    obtain ⟨⟨r, s₁⟩, heq, rfl⟩ := map_ok hexec
    have hfresh := hinv.fresh t ha.1 ha.2
    exact (hadd hfresh.2 (.inl hfresh.1) heq).imp id fun h => by rw [h]
  | run =>
    cases (schedulerRun_eq hinv.toQueueInv).symm.trans hexec
    exact .inl (hrun (afterRun_effect env s))
  | yield frame =>
    obtain ⟨t, hcur, ht⟩ := ha
    obtain ⟨mid, heq, hmid⟩ := schedulerYield_spec env hinv hcur ht frame
    cases (heq.trans (schedulerRun_eq hmid.toQueueInv)).symm.trans hexec
    refine .inl (hmid.enqueued hinv hcur ht ?_ (hrun (afterRun_effect env mid)))
    intro v hv
    split at hv
    · exact List.mem_singleton.mp hv
    · cases hv
  | waitForEvent cpu =>
    obtain ⟨t, hcur, ht⟩ := ha
    obtain ⟨mid, heq, hmid⟩ := schedulerWaitForEvent_spec env hinv hcur ht cpu
    cases (heq.trans (schedulerRun_eq hmid.toQueueInv)).symm.trans hexec
    exact .inl (hmid.enqueued hinv hcur ht (by simp) (hrun (afterRun_effect env mid)))
  | wakeUp t =>
    obtain ⟨-, hq, -, hstarted⟩ := hinv.blocked ha
    obtain ⟨_, -, hrest⟩ := bind_ok hexec
    obtain ⟨⟨r, s₁⟩, heq, hret⟩ := bind_ok hrest
    cases hret
    have hnode := hinv.node_none hq
    rcases hadd (by simpa using hnode) (.inr (by simp)) heq with h | rfl
    · exact .inl h
    · exact .inl hstarted
  | terminate =>
    obtain ⟨t, hcur, ht⟩ := ha
    obtain ⟨mid, heq, hmid⟩ := schedulerTerminate_spec env hinv hcur ht
    cases (heq.trans (schedulerRun_eq hmid.toQueueInv)).symm.trans hexec
    exact .inl (hmid.enqueued hinv hcur ht (by simp) (hrun (afterRun_effect env mid)))

/-- The thread that an action of the machine dispatches. -/
def dispatches (env : Env) (m : Machine) : CpuAction → Option ThreadId
  | .boot _ | .block .. | .terminate _ => some (nextThread m.kernel)
  | .yield _ => some (nextAfterYield env m.kernel)
  | _ => none

/-! ## The kernel in a run of the machine -/

/-- The scheduler's invariant, with the stacks and contexts of the threads
that have been started in their places. -/
structure KernelInv (layout : Layout) (k : Kernel) : Prop where
  run : RunInv k
  fits : layout.Fits k
  started : ∀ t ∈ enqueued k.trace, t < layout.count

theorem kernelStackTop_steady : Steady Thread.kernelStackTop := fun _ _ _ => rfl

theorem step_kernelStackTop {a : Action} (hstep : Step env s a s') (u : ThreadId) :
    (s'.threads u).kernelStackTop = (s.threads u).kernelStackTop := by
  rw [step_keeps kernelStackTop_steady hstep]
  split
  · cases a <;> rfl
  · rfl

theorem Layout.Fits.congr {layout : Layout} (h : layout.Fits s)
    (htop : ∀ u, (s'.threads u).kernelStackTop = (s.threads u).kernelStackTop) :
    layout.Fits s' := by
  have hstack : ∀ u, stackTop s' u = stackTop s u := fun u => congrArg BitVec.toNat (htop u)
  constructor
  · exact h.idleCount
  · intro t ht
    rw [hstack]
    exact h.upper t ht
  · intro t ht u hu
    rw [hstack, hstack]
    exact h.apart t ht u hu
  · intro t ht u hu
    rw [hstack]
    exact h.contexts t ht u hu
  · exact h.contexts_end

theorem KernelInv.step {layout : Layout} {a : Action} (h : KernelInv layout s)
    (hstep : Step env s a s') (hstart : ∀ t, a = .threadStart t → t < layout.count) :
    KernelInv layout s' where
  run := (step_spec h.run hstep).1
  fits := h.fits.congr (step_kernelStackTop hstep)
  started := by
    intro t ht
    rcases step_enqueued h.run hstep ht with ht | ha
    · exact h.started t ht
    · exact hstart t ha

/-- The thread that runs is one of the machine's. -/
theorem KernelInv.current_lt {layout : Layout} (h : KernelInv layout s)
    (hcur : s.currentThread = some t) : t < layout.count := by
  by_cases ht : t = idleThread
  · rw [ht]
    exact h.fits.idleCount
  · exact h.started t (h.run.current_started t hcur ht)

variable {layout : Layout} {k : Kernel} {c c' : Cpu}

theorem slot_toNat {base : Word} {i : Nat} (h : base.toNat + 8 * i < 2 ^ 64) :
    (slot base i).toNat = base.toNat + 8 * i := by
  unfold slot
  rw [BitVec.toNat_add, BitVec.toNat_ofNat]
  omega

/-- The copy of a context on a kernel stack is below the top. -/
theorem stackSlot_toNat (hfits : layout.Fits k) (ht : t < layout.count) {i : Nat} (hi : i < 36) :
    (slot ((k.threads t).kernelStackTop - 288) i).toNat = stackTop k t - 288 + 8 * i := by
  have hupper : 2 ^ 63 + 32768 ≤ (k.threads t).kernelStackTop.toNat := hfits.upper t ht
  have hlt := (k.threads t).kernelStackTop.isLt
  have hbase : ((k.threads t).kernelStackTop - 288).toNat =
      (k.threads t).kernelStackTop.toNat - 288 :=
    BitVec.toNat_sub_of_le (BitVec.le_def.mpr (by simp; omega))
  rw [slot_toNat (by omega), hbase]
  rfl

/-- A context is not in the way of its copy. -/
theorem Layout.Fits.copy (hfits : layout.Fits k) (ht : t < layout.count) :
    ∀ i < 36, ∀ j < 36, slot (layout.ctxAddress t) i ≠
      slot ((k.threads t).kernelStackTop - 288) j := by
  intro i hi j hj heq
  have hend := hfits.contexts_end t ht
  have hnat := congrArg BitVec.toNat heq
  rw [slot_toNat (by omega), stackSlot_toNat hfits ht hj] at hnat
  have hupper : 2 ^ 63 + 32768 ≤ stackTop k t := hfits.upper t ht
  rcases hfits.contexts t ht t ht with h | h
  · unfold stackBytes at h
    omega
  · omega

/-- A switch to the thread that runs next. -/
theorem KernelInv.switch (h : KernelInv layout k) (hcur : k.currentThread = some t)
    (hctx : HoldsContext c (layout.ctxAddress t) (k.threads t).ctx) :
    ∃ c', schedulerSwitchToThread 18 (switchEntry layout k t c) = some c' ∧
      Switched (k.threads t).ctx ((k.threads t).kernelStackTop - 288) c c' := by
  obtain ⟨c', heq, hspec⟩ := schedulerSwitchToThread_spec 18
    (c := switchEntry layout k t c) (by omega) hctx (h.fits.copy (h.current_lt hcur))
  refine ⟨c', heq, hspec.get, hspec.scratch, hspec.pc, hspec.pstate, hspec.sp, ?_, ?_⟩
  · rw [hspec.spEl0]
    simp only [switchEntry, Cpu.set_spEl0]
  · intro a ha
    rw [hspec.outside a ha]
    simp only [switchEntry, Cpu.set_mem]

end

section
variable {env : Env} {layout : Layout} {m m' : Machine} {k : Kernel} {c : Cpu} {a : CpuAction}

@[simp] theorem goOn_kernel : (m.goOn k c).kernel = k := by
  unfold Machine.goOn
  split <;> rfl

@[simp] theorem goOn_cpu : (m.goOn k c).cpu = c := by
  unfold Machine.goOn
  split <;> rfl

@[simp] theorem goOn_calls : (m.goOn k c).calls = m.calls := by
  unfold Machine.goOn
  split <;> rfl

/-- The thread that goes on has no yield pending any more. -/
theorem goOn_yielded {u : ThreadId} {v : View} : (m.goOn k c).yielded u = some v ↔
    m.yielded u = some v ∧ k.currentThread ≠ some u := by
  unfold Machine.goOn
  split
  · rename_i hnone
    refine ⟨fun h => ⟨h, ?_⟩, And.left⟩
    intro hcur
    rw [hcur] at hnone
    cases hnone.symm.trans h
  · dsimp only
    split <;> simp [*]

theorem goOn_continued {p : View × View} : p ∈ (m.goOn k c).continued ↔ p ∈ m.continued ∨
    ∃ t v, k.currentThread = some t ∧ m.yielded t = some v ∧ p = (v, view c) := by
  unfold Machine.goOn
  split
  · rename_i hnone
    refine ⟨.inl, ?_⟩
    rintro (h | ⟨t, v, hcur, hv, -⟩)
    · exact h
    · rw [hcur] at hnone
      cases hnone.symm.trans hv
  · rename_i v hsome
    obtain ⟨t, hcur, hv⟩ := Option.bind_eq_some_iff.mp hsome
    rw [List.mem_append, List.mem_singleton]
    apply or_congr_right
    constructor
    · intro hp
      exact ⟨t, v, hcur, hv, hp⟩
    · rintro ⟨t', v', hcur', hv', hp⟩
      cases hcur.symm.trans hcur'
      cases hv.symm.trans hv'
      exact hp

/-- A step of the machine is a step of the scheduler or leaves the kernel
alone. -/
theorem CpuStep.kernel (h : CpuStep env layout m a m') : m'.kernel = m.kernel ∨
    ∃ b, Step env m.kernel b m'.kernel ∧ ∀ t, b = .threadStart t → t < layout.count := by
  cases h with
  | boot _ _ _ hk => exact .inr ⟨_, by simpa using hk, by simp⟩
  | compute => exact .inl rfl
  | enter => exact .inl rfl
  | leave => exact .inl rfl
  | yield _ _ _ _ _ _ _ _ hk => exact .inr ⟨_, by simpa using hk, by simp⟩
  | block _ _ _ _ _ hk => exact .inr ⟨_, by simpa using hk, by simp⟩
  | terminate _ _ _ _ hk => exact .inr ⟨_, by simpa using hk, by simp⟩
  | threadStart ht hk =>
    refine .inr ⟨_, hk, ?_⟩
    rintro u hu
    cases hu
    exact ht
  | wakeUp hk => exact .inr ⟨_, hk, by simp⟩

theorem KernelInv.cpuStep (h : KernelInv layout m.kernel) (hstep : CpuStep env layout m a m') :
    KernelInv layout m'.kernel := by
  rcases hstep.kernel with heq | ⟨b, hb, hstart⟩
  · rw [heq]
    exact h
  · exact h.step hb hstart

theorem MachineInit.kernelInv (h : MachineInit layout m) : KernelInv layout m.kernel where
  run := init_inv h.toInit
  fits := h.toFits
  started := by simp [h.trace, enqueued]

end

end ZOs.Scheduler
