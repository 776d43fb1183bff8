import ZOs.Ipc.Steps

/-!
# No lost wake-up

A thread waits only where nothing is pending, and the BLOCKED threads are
exactly the threads that wait, each in one list and once. So whatever
wakes a thread up finds it BLOCKED.
-/

namespace ZOs.Ipc

open Scheduler (ThreadId Blocked idleThread Word)
open Checked Runs

/-- The laws of waiting. -/
structure WaitLaws (s : System) : Prop where
  /-- Where a message is pending no thread is in `recv_waiters`, and where an
  fd message is pending none is in `recv_fd_waiters`. -/
  message_pending : ∀ kind e, s.lists (.messages kind e) ≠ [] → s.lists (.recvWaiters kind e) = []
  event_pending : ∀ i, (s.inputFiles i).eventRingBuffer ≠ [] → s.lists (.eventWaiters i) = []
  /-- A BLOCKED thread is in exactly one waiter list, exactly once. -/
  blocked_waits : ∀ t, Blocked s.kernel t → ∃ w : ListAddr, w.IsWaiters ∧
    (s.lists w).count t = 1 ∧ ∀ w' : ListAddr, w'.IsWaiters → t ∈ s.lists w' → w' = w
  waits_blocked : ∀ (w : ListAddr) (t : ThreadId), w.IsWaiters → t ∈ s.lists w →
    Blocked s.kernel t

theorem SystemInv.waitLaws {s : System} (h : SystemInv s) : WaitLaws s where
  message_pending := fun kind e hm => h.nobody_waits (.recvWaiters kind e) hm
  event_pending := fun i hi => h.nobody_waits (.eventWaiters i) hi
  blocked_waits := by
    intro t ht
    obtain ⟨w, hw, hmem⟩ := (h.blocked_iff t).mp ht
    refine ⟨w, hw, List.count_eq_one_of_mem (h.once w hw) hmem, ?_⟩
    intro w' hw' hmem'
    exact h.unique w' w t hw' hw hmem' hmem
  waits_blocked := fun w t hw hmem => (h.blocked_iff t).mpr ⟨w, hw, hmem⟩

/-- The laws hold in every state that a run reaches, and whatever happens
next, no assertion of the scheduler fails. -/
theorem no_lost_wakeUp (env : Scheduler.Env) (history : List (System × Action)) (s : System)
    (h : Run Init (Step env) history s) :
    WaitLaws s ∧ ∀ a, Enabled s a → ∀ f, exec env s a ≠ .error (.scheduler f) := by
  have hinv := run_inv h
  constructor
  · exact hinv.waitLaws
  · intro a ha f hf
    exact (exec_spec hinv ha).allowed hf f rfl

/-! ## A booted system -/

instance (s : System) : Decidable (InUser s) :=
  decidable_of_iff
    (s.kernel.currentThread.any (fun t =>
      decide (t ≠ idleThread) && (s.calls t).isNone) = true) <| by
    rw [Option.any_eq_true]
    simp [InUser]

instance (s : System) (r : Request) : Decidable (r.Valid s) := by
  cases r <;> unfold Request.Valid <;> infer_instance

instance (s : System) (a : Action) : Decidable (Enabled s a) :=
  match a with
  | .boot => inferInstanceAs (Decidable (s.kernel.currentThread = none))
  | .threadStart t =>
    inferInstanceAs (Decidable (t ≠ idleThread ∧ t ∉ Scheduler.enqueued s.kernel.trace))
  | .yield _ | .terminate => inferInstanceAs (Decidable (InUser s))
  | .request r _ => inferInstanceAs (Decidable (InUser s ∧ r.Valid s))
  | .resume _ =>
    decidable_of_iff
      (s.kernel.currentThread.any (fun t =>
        decide (t ≠ idleThread) && (s.calls t).isSome) = true) <| by
      rw [Option.any_eq_true]
      simp [Enabled, Option.isSome_iff_ne_none]

/-- The step as a function. -/
def execStep (env : Scheduler.Env) (s : System) (a : Action) : Option System :=
  if Enabled s a then (exec env s a).toOption else none

theorem execStep_sound {env : Scheduler.Env} {s s' : System} {a : Action}
    (h : execStep env s a = some s') : Step env s a s' := by
  unfold execStep at h
  split at h
  · rename_i ha
    refine ⟨ha, ?_⟩
    cases hexec : exec env s a with
    | error e =>
      rw [hexec] at h
      cases h
    | ok s'' =>
      rw [hexec] at h
      cases h
      rfl
  · cases h

def noBuffer : UserBuffer where
  data := 0
  size := 0
  bytes := fun _ => 0

/-- The booted scheduler, with no files. -/
def booted : System where
  kernel := Scheduler.boot
  lists := fun _ => []
  channelFiles := fun _ => { sourceChannel := 0, flags := 0 }
  channelFileCount := 0
  channelCount := 0
  inputFiles := fun _ => { flags := 0, eventRingBuffer := [] }
  fileTable := { handles := [], capacity := 64 }
  fdTables := fun _ => { handles := [], capacity := 64 }
  processHandles := fun _ => 0
  messages := fun _ => dataMessage 0 noBuffer
  messageCount := 0
  calls := fun _ => none
  record := { openedAt := fun _ => 0, received := fun _ _ => [], heap := [], reads := [] }

theorem booted_init : Init booted where
  kernel := Scheduler.boot_init
  lists := fun _ => rfl
  channelFileCount := rfl
  channelCount := rfl
  events := fun _ => rfl
  files := by
    intro f file hf
    simp [fileObject, booted] at hf
  messageCount := rfl
  calls := fun _ => rfl
  received := fun _ _ => rfl
  heap := rfl
  reads := rfl

/-- Runs of the booted system, found by evaluation. -/
theorem booted_run (as : List Action) (P : System → Bool)
    (h : (runSteps (execStep Scheduler.bootEnv) booted as).any P = true) :
    ∃ history s, Run Init (Step Scheduler.bootEnv) history s ∧ P s = true :=
  Run.of_check (fun _ _ _ => execStep_sound) booted_init as P h

def cpu : Scheduler.CpuRegisters where
  registers := fun _ => 0
  sp := 0

/-- A buffer of `size` bytes at address 1. -/
def buffer (size : Word) : UserBuffer where
  data := 1
  size
  bytes := fun _ => 7

/-- A thread opens two endpoints of a channel. -/
def openTwo : List Action :=
  [.threadStart 1, .threadStart 2, .boot, .request (.channelOpen (some "c") 1 0) cpu,
    .request (.channelOpen (some "c") 1 0) cpu]

/-- Thread 1 waits for a message at endpoint 1, which thread 2 sends from
endpoint 0. -/
theorem waitAndSend_laws : ∃ s, s.lists (.messages .data 1) = [0] ∧
    s.kernel.queued = [1] ∧ WaitLaws s := by
  obtain ⟨history, s, hrun, hend⟩ := booted_run
    (openTwo ++ [.request (.read 1 (buffer 3)) cpu, .request (.write 0 (buffer 3)) cpu])
    (fun s => decide (s.lists (.messages .data 1) = [0] ∧ s.kernel.queued = [1]))
    (by decide +kernel)
  obtain ⟨hq, hk⟩ := of_decide_eq_true hend
  exact ⟨s, hq, hk, (no_lost_wakeUp Scheduler.bootEnv history s hrun).1⟩

end ZOs.Ipc
