import Mathlib.Algebra.Ring.Nat
import Mathlib.Logic.Function.Basic
import ZOs.Lib.A64
import ZOs.Lib.Run

/-!
# The scheduler

`scheduler.c` with the two functions of `scheduler.S`. The state is
`g_scheduler`, the threads and the two translation table registers. A
thread is named by a number, `idleThread` being `&g_scheduler.idle_thread`;
the run queue is the list of its nodes from head to tail. A failed
assertion stops the machine, so the functions return the assertion that
failed or the state they leave.

`trace` is a record beside the state: what was enqueued, dispatched and
terminated, oldest first. The code never reads it.
-/

namespace ZOs.Scheduler

/-- A machine word. -/
abbrev Word := BitVec 64

/-- Which thread a `thread_t *` points to. -/
abbrev ThreadId := Nat

/-- Which process a `process_t *` points to. -/
abbrev ProcessId := Nat

/-- The address of a run queue node. -/
abbrev NodeId := Nat

/-- `&g_scheduler.idle_thread`. -/
def idleThread : ThreadId := 0

/-- `thread_state_t`. -/
inductive ThreadState
  | ready | running | suspended | blocked | terminated
  deriving DecidableEq, Repr

/-- `thread_type_t`. -/
inductive ThreadType
  | kernel | user
  deriving DecidableEq, Repr

/-- `thread_context_t`. -/
structure ThreadContext where
  entryPoint : Word
  sp : Word
  registers : Fin 32 → Word
  spsr : Word
  elr : Word

/-- `thread_t`; NULL pointers are `none`. -/
structure Thread where
  process : Option ProcessId
  kernelStackTop : Word
  stackTop : Word
  state : ThreadState
  type : ThreadType
  ctx : ThreadContext
  runQueueNode : Option NodeId

/-- `exception_frame_t`. -/
structure ExceptionFrame where
  registers : Fin 32 → Word
  sp : Word
  elr : Word
  spsr : Word

/-- The registers that `scheduler_save_and_block` finds in the CPU. -/
structure CpuRegisters where
  registers : Fin 32 → Word
  sp : Word

def spsrModeEl0 : Word := 0x0
def spsrModeEl1H : Word := 0x5
def kernelStackSize : Word := 8 * 4096

/-- `thread_init`; `kernelStack` is what its call of kmalloc returned. -/
def threadInit (kernelStack entryPoint stackTop : Word) (type : ThreadType) : Option Thread :=
  if kernelStack = 0 then none
  else some
    { process := none
      kernelStackTop := kernelStack + kernelStackSize
      stackTop
      state := .ready
      type
      ctx :=
        { entryPoint
          sp := stackTop
          registers := fun _ => 0
          spsr := match type with
            | .kernel => spsrModeEl1H
            | .user => spsrModeEl0
          elr := entryPoint }
      runQueueNode := none }

/-- A `linked_list_node_t` of the run queue. -/
structure RunQueueNode where
  address : NodeId
  data : ThreadId
  deriving DecidableEq

/-- What the record keeps. A dispatch says which threads `scheduler_run`
found in the queue and the TTBR0 that the dispatched thread runs on. -/
inductive Event
  | enqueue (t : ThreadId)
  | dispatch (t : ThreadId) (found : List ThreadId) (ttbr0 : Word)
  | terminate (t : ThreadId)
  deriving DecidableEq

/-- What the scheduler works on. -/
structure Kernel where
  currentThread : Option ThreadId
  runQueue : List RunQueueNode
  threads : ThreadId → Thread
  ttbr0 : Word
  ttbr1 : Word
  /-- How often kmalloc has been called. -/
  kmallocs : Nat
  trace : List Event

/-- What the scheduler takes from the rest of the kernel: whether each call
of kmalloc succeeds, the kernel's own two tables, and the root page table
of every process. -/
structure Env where
  kmallocOk : Nat → Bool
  gTtbr0Table : Word
  gTtbr1Table : Word
  rootPageTable : ProcessId → Word

/-- Why a call does not return: an assertion of the code, a write through a
NULL current thread, or a loop of `scheduler_run` that does not end. -/
inductive Fault
  | addThreadNode | addThreadState | removeThreadNode | yieldCurrent | wakeUpBlocked
  | nullThread | runDiverges
  deriving DecidableEq, Repr

/-- `assert(condition)`. -/
def assert (condition : Bool) (fault : Fault) : Except Fault Unit :=
  if condition then .ok () else .error fault

/-- `vmap_destination_t`. -/
inductive VmapDestination
  | user | kernel

namespace Kernel

/-- Write to the fields of one thread. -/
def modifyThread (s : Kernel) (t : ThreadId) (f : Thread → Thread) : Kernel :=
  { s with threads := Function.update s.threads t (f (s.threads t)) }

/-- Add to the record. -/
def log (s : Kernel) (e : Event) : Kernel := { s with trace := s.trace ++ [e] }

/-- The threads of the run queue, from head to tail. -/
def queued (s : Kernel) : List ThreadId := s.runQueue.map RunQueueNode.data

end Kernel

/-- The value `vmap_apply_table` writes to a translation table register. -/
def tableBase (rootPageTable : Word) : Word := rootPageTable &&& ~~~(1 : Word)

/-- `vmap_apply_table`: install a root table. -/
def vmapApplyTable (s : Kernel) (rootPageTable : Word) : VmapDestination → Kernel
  | .user => { s with ttbr0 := tableBase rootPageTable }
  | .kernel => { s with ttbr1 := tableBase rootPageTable }

section
variable (env : Env)

/-- `mmap_apply_mappings`: install the kernel's own tables. -/
def mmapApplyMappings (s : Kernel) : Kernel :=
  vmapApplyTable (vmapApplyTable s env.gTtbr0Table .user) env.gTtbr1Table .kernel

/-- `linked_list_insert` on the run queue. A node that kmalloc returns has
an address of its own. -/
def linkedListInsert (s : Kernel) (t : ThreadId) : Option NodeId × Kernel :=
  let s' := { s with kmallocs := s.kmallocs + 1 }
  if env.kmallocOk s.kmallocs then
    (some s'.kmallocs, { s' with runQueue := s.runQueue ++ [⟨s'.kmallocs, t⟩] })
  else (none, s')

/-- `scheduler_add_thread`. -/
def addThread (s : Kernel) (t : ThreadId) : Except Fault (Int × Kernel) := do
  assert ((s.threads t).runQueueNode = none) .addThreadNode
  assert ((s.threads t).state = .ready ∨ (s.threads t).state = .suspended) .addThreadState
  match linkedListInsert env s t with
  | (none, s) => return (-1, s)
  | (some node, s) =>
    return (0, (s.modifyThread t fun th => { th with runQueueNode := some node }).log (.enqueue t))

/-- `linked_list_remove` on the run queue. -/
def linkedListRemove (s : Kernel) (node : NodeId) : Kernel :=
  { s with runQueue := s.runQueue.eraseP fun n => n.address = node }

/-- `scheduler_remove_thread`. -/
def removeThread (s : Kernel) (t : ThreadId) : Except Fault Kernel :=
  match (s.threads t).runQueueNode with
  | none => .error .removeThreadNode
  | some node =>
    .ok ((linkedListRemove s node).modifyThread t fun th => { th with runQueueNode := none })

/-- `context_switch`: a thread of a process runs on the table of its
process, any other on the table it finds. -/
def contextSwitch (s : Kernel) (next : ThreadId) : Kernel :=
  match (s.threads next).process with
  | none => s
  | some p => vmapApplyTable s (env.rootPageTable p) .user

/-- The loop of `scheduler_run` that passes over terminated threads. -/
def skipTerminated : Nat → Kernel → ThreadId → Except Fault (ThreadId × Kernel)
  | fuel, s, next =>
    match s.runQueue with
    | [] => .ok (next, s)
    | node :: _ =>
      if (s.threads next).state = .terminated then
        match fuel with
        | 0 => .error .runDiverges
        | fuel + 1 => do
          let s ← removeThread s node.data
          skipTerminated fuel s node.data
      else .ok (next, s)

/-- The choice of the next thread in `scheduler_run`. -/
def pickNext (s : Kernel) : Except Fault (Option ThreadId × Kernel) :=
  match s.runQueue with
  | [] => .ok (none, s)
  | node :: _ => do
    let s ← removeThread s node.data
    let (next, s) ← skipTerminated s.runQueue.length s node.data
    return (some next, s)

/-- The end of `scheduler_run`: `next` becomes the current thread, by a
context switch unless it is the thread that was running. -/
def switchTo (s : Kernel) (next : ThreadId) : Kernel :=
  let prev := s.currentThread
  let s := { s with currentThread := some next }
  let s := s.modifyThread next fun th => { th with state := .running }
  if prev = some next then s else contextSwitch env s next

/-- `scheduler_run`. -/
def schedulerRun (s : Kernel) : Except Fault Kernel := do
  let found := s.queued
  let (next, s) ← pickNext s
  let next := next.getD idleThread
  let s := switchTo env s next
  return s.log (.dispatch next found s.ttbr0)

/-- The stores of `scheduler_yield`: the latest context, and SUSPENDED. -/
def Thread.suspend (th : Thread) (frame : ExceptionFrame) : Thread :=
  { th with
    ctx :=
      { th.ctx with
        registers := frame.registers, sp := frame.sp, spsr := frame.spsr, elr := frame.elr }
    state := .suspended }

/-- `scheduler_yield`. -/
def schedulerYield (s : Kernel) (frame : ExceptionFrame) : Except Fault Kernel := do
  match s.currentThread with
  | none => .error .yieldCurrent
  | some t =>
    let s := s.modifyThread t fun th => th.suspend frame
    let (_, s) ← addThread env s t
    schedulerRun env (mmapApplyMappings env s)

/-- The stores of `scheduler_save_and_block`: the callee-saved registers,
the stack pointer and the return address, and BLOCKED. -/
def Thread.block (th : Thread) (cpu : CpuRegisters) : Thread :=
  { th with
    ctx :=
      { th.ctx with
        registers := fun i => if 19 ≤ i.val ∧ i.val ≤ 30 then cpu.registers i
          else th.ctx.registers i
        sp := cpu.sp
        elr := cpu.registers 30
        spsr := spsrModeEl1H }
    state := .blocked }

/-- `scheduler_save_and_block`. -/
def schedulerSaveAndBlock (s : Kernel) (t : ThreadId) (cpu : CpuRegisters) :
    Except Fault Kernel :=
  schedulerRun env (mmapApplyMappings env (s.modifyThread t fun th => th.block cpu))

/-- `scheduler_wait_for_event`. -/
def schedulerWaitForEvent (s : Kernel) (cpu : CpuRegisters) : Except Fault Kernel :=
  match s.currentThread with
  | none => .error .nullThread
  | some t => schedulerSaveAndBlock env s t cpu

/-- `scheduler_wake_up`. -/
def schedulerWakeUp (s : Kernel) (t : ThreadId) : Except Fault Kernel := do
  assert ((s.threads t).state = .blocked) .wakeUpBlocked
  let s := s.modifyThread t fun th => { th with state := .suspended }
  let (_, s) ← addThread env s t
  return s

/-- The store of `scheduler_terminate`. -/
def Thread.terminate (th : Thread) : Thread := { th with state := .terminated }

/-- `scheduler_terminate`. -/
def schedulerTerminate (s : Kernel) : Except Fault Kernel :=
  match s.currentThread with
  | none => .error .nullThread
  | some t =>
    let s := (s.modifyThread t Thread.terminate).log (.terminate t)
    schedulerRun env (mmapApplyMappings env s)

/-- `thread_start`. -/
def threadStart (s : Kernel) (t : ThreadId) : Except Fault (Int × Kernel) := addThread env s t

end

/-! ## Runs -/

/-- What can happen to the scheduler. -/
inductive Action
  | threadStart (t : ThreadId)
  | run
  | yield (frame : ExceptionFrame)
  | waitForEvent (cpu : CpuRegisters)
  | wakeUp (t : ThreadId)
  | terminate

/-- The threads enqueued so far, in order. -/
def enqueued (trace : List Event) : List ThreadId :=
  trace.filterMap fun
    | .enqueue t => some t
    | _ => none

/-- The threads dispatched from the run queue so far, in order. -/
def dispatched (trace : List Event) : List ThreadId :=
  trace.filterMap fun
    | .dispatch t _ _ => if t = idleThread then none else some t
    | _ => none

/-- When an action can happen. Only a fresh thread is started and only a
blocked one woken up; a thread that yields, waits or exits is the one that
runs, and not the idle thread, whose code does nothing but `wfe`. -/
def Enabled (s : Kernel) : Action → Prop
  | .threadStart t => t ≠ idleThread ∧ t ∉ enqueued s.trace
  | .run => True
  | .yield _ | .waitForEvent _ | .terminate => ∃ t, s.currentThread = some t ∧ t ≠ idleThread
  | .wakeUp t => (s.threads t).state = .blocked

instance (s : Kernel) (a : Action) : Decidable (Enabled s a) :=
  match a with
  | .threadStart t => inferInstanceAs (Decidable (t ≠ idleThread ∧ t ∉ enqueued s.trace))
  | .run => inferInstanceAs (Decidable True)
  | .wakeUp t => inferInstanceAs (Decidable ((s.threads t).state = .blocked))
  | .yield _ | .waitForEvent _ | .terminate =>
    decidable_of_iff (s.currentThread.any (· ≠ idleThread) = true) <| by
      rw [Option.any_eq_true]
      simp [Enabled]

/-- What an action does. -/
def exec (env : Env) (s : Kernel) : Action → Except Fault Kernel
  | .threadStart t => Prod.snd <$> threadStart env s t
  | .run => schedulerRun env s
  | .yield frame => schedulerYield env s frame
  | .waitForEvent cpu => schedulerWaitForEvent env s cpu
  | .wakeUp t => schedulerWakeUp env s t
  | .terminate => schedulerTerminate env s

/-- One step of the scheduler. -/
def Step (env : Env) (s : Kernel) (a : Action) (s' : Kernel) : Prop :=
  Enabled s a ∧ exec env s a = .ok s'

/-- The step as a function. -/
def execStep (env : Env) (s : Kernel) (a : Action) : Option Kernel :=
  if Enabled s a then (exec env s a).toOption else none

theorem execStep_sound {env : Env} {s s' : Kernel} {a : Action} (h : execStep env s a = some s') :
    Step env s a s' := by
  unfold execStep at h
  split at h
  · rename_i ha
    refine ⟨ha, ?_⟩
    cases hexec : exec env s a with
    | error e =>
      rw [hexec] at h
      cases h
    | ok s'' =>
      rw [hexec] at h
      cases h
      rfl
  · cases h

/-- A thread as `thread_init` leaves it, perhaps given to a process. -/
def Thread.Fresh (th : Thread) : Prop := th.state = .ready ∧ th.runQueueNode = none

/-- After `scheduler_init`: nothing is queued, nothing runs, every thread is
fresh and the idle thread belongs to no process. -/
structure Init (s : Kernel) : Prop where
  currentThread : s.currentThread = none
  runQueue : s.runQueue = []
  trace : s.trace = []
  fresh : ∀ t, (s.threads t).Fresh
  idle : (s.threads idleThread).process = none

theorem threadInit_fresh {kernelStack entryPoint stackTop : Word} {type : ThreadType} {th : Thread}
    (h : threadInit kernelStack entryPoint stackTop type = some th) :
    th.Fresh ∧ th.process = none := by
  unfold threadInit at h
  split at h
  · cases h
  · cases h
    exact ⟨⟨rfl, rfl⟩, rfl⟩

end ZOs.Scheduler
