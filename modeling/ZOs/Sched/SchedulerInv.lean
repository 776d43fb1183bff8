import Mathlib.Data.List.Nodup
import ZOs.Sched.Scheduler

/-!
# The scheduler's state machine

`QueueInv` ties the run queue, the back pointers `run_queue_node`, the
thread states and the record together. It says nothing about the current
thread, so it also holds in the middle of a call, when that thread is
already SUSPENDED, BLOCKED or TERMINATED but still current. `RunInv` adds
the current thread and holds between calls. Under `QueueInv` each function
has an equation, from which its effect is read.
-/

namespace ZOs.Scheduler

open Runs

/-- The invariant of the run queue. -/
structure QueueInv (s : Kernel) : Prop where
  addresses : (s.runQueue.map RunQueueNode.address).Nodup
  address_le : ∀ n ∈ s.runQueue, n.address ≤ s.kmallocs
  node_iff : ∀ t a, (s.threads t).runQueueNode = some a ↔ ⟨a, t⟩ ∈ s.runQueue
  queued_state : ∀ t ∈ s.queued,
    (s.threads t).state = .ready ∨ (s.threads t).state = .suspended
  idle_not_queued : idleThread ∉ s.queued
  idle_state : (s.threads idleThread).state = .ready ∨ (s.threads idleThread).state = .running
  idle_process : (s.threads idleThread).process = none
  idle_not_enqueued : idleThread ∉ enqueued s.trace
  fresh : ∀ t, t ≠ idleThread → t ∉ enqueued s.trace → (s.threads t).Fresh
  fifo : enqueued s.trace = dispatched s.trace ++ s.queued
  terminated : ∀ t, .terminate t ∈ s.trace → (s.threads t).state = .terminated
  no_return : s.trace.Pairwise fun e e' =>
    ∀ t found r, e = .terminate t → e' ≠ .dispatch t found r
  idle_dispatch : ∀ found r, .dispatch idleThread found r ∈ s.trace → found = []

/-- The invariant between calls. -/
structure RunInv (s : Kernel) : Prop extends QueueInv s where
  current_running : ∀ t, s.currentThread = some t → (s.threads t).state = .running
  current_started : ∀ t, s.currentThread = some t → t ≠ idleThread → t ∈ enqueued s.trace

section
variable {env : Env} {s s' : Kernel} {t u : ThreadId}

/-! ## The updates of a thread -/

@[simp] theorem modifyThread_self (f : Thread → Thread) :
    (s.modifyThread t f).threads t = f (s.threads t) := by
  simp [Kernel.modifyThread]

theorem modifyThread_ne (h : u ≠ t) (f : Thread → Thread) :
    (s.modifyThread t f).threads u = s.threads u := by
  simp [Kernel.modifyThread, h]

@[simp] theorem modifyThread_runQueue (f : Thread → Thread) :
    (s.modifyThread t f).runQueue = s.runQueue := rfl

@[simp] theorem modifyThread_queued (f : Thread → Thread) :
    (s.modifyThread t f).queued = s.queued := rfl

@[simp] theorem modifyThread_trace (f : Thread → Thread) :
    (s.modifyThread t f).trace = s.trace := rfl

/-- A field that `f` keeps is kept for all threads. -/
theorem modifyThread_keeps {β : Type*} (field : Thread → β) (f : Thread → Thread)
    (h : field (f (s.threads t)) = field (s.threads t)) (u : ThreadId) :
    field ((s.modifyThread t f).threads u) = field (s.threads u) := by
  by_cases hu : u = t
  · subst hu
    rw [modifyThread_self]
    exact h
  · rw [modifyThread_ne hu]

@[simp] theorem enqueued_append (l : List Event) (e : Event) :
    enqueued (l ++ [e]) = enqueued l ++ enqueued [e] := by
  simp [enqueued, List.filterMap_append]

@[simp] theorem dispatched_append (l : List Event) (e : Event) :
    dispatched (l ++ [e]) = dispatched l ++ dispatched [e] := by
  simp [dispatched, List.filterMap_append]

/-! ## Consequences of the invariant -/

/-- The invariant does not look at the current thread or the registers. -/
theorem QueueInv.congr (h : QueueInv s) (hq : s'.runQueue = s.runQueue)
    (ht : s'.threads = s.threads) (hk : s'.kmallocs = s.kmallocs) (hl : s'.trace = s.trace) :
    QueueInv s' := by
  obtain ⟨current, queue, threads, ttbr0, ttbr1, kmallocs, trace⟩ := s'
  simp only at hq ht hk hl
  subst hq ht hk hl
  exact ⟨h.1, h.2, h.3, h.4, h.5, h.6, h.7, h.8, h.9, h.10, h.11, h.12, h.13⟩

theorem mem_queued : t ∈ s.queued ↔ ∃ a, ⟨a, t⟩ ∈ s.runQueue := by
  constructor
  · intro h
    obtain ⟨n, hn, rfl⟩ := List.mem_map.mp h
    exact ⟨n.address, hn⟩
  · intro ⟨a, h⟩
    exact List.mem_map.mpr ⟨⟨a, t⟩, h, rfl⟩

/-- A thread is queued exactly when its back pointer is set. -/
theorem QueueInv.queued_iff (h : QueueInv s) :
    t ∈ s.queued ↔ (s.threads t).runQueueNode ≠ none := by
  rw [mem_queued, Option.ne_none_iff_exists']
  exact exists_congr fun a => (h.node_iff t a).symm

theorem QueueInv.queued_nodup (h : QueueInv s) : s.queued.Nodup := by
  apply List.Nodup.map_on _ (List.Nodup.of_map _ h.addresses)
  intro n hn m hm hdata
  have hn' := (h.node_iff n.data n.address).mpr hn
  have hm' := (h.node_iff m.data m.address).mpr hm
  rw [← hdata, hn'] at hm'
  cases n
  cases m
  simp_all

theorem QueueInv.node_none (h : QueueInv s) (hq : t ∉ s.queued) :
    (s.threads t).runQueueNode = none := by
  by_contra hne
  exact hq (h.queued_iff.mpr hne)

/-- Only threads that are READY or SUSPENDED are queued. -/
theorem QueueInv.not_queued (h : QueueInv s) (hr : (s.threads t).state ≠ .ready)
    (hs : (s.threads t).state ≠ .suspended) : t ∉ s.queued := by
  intro hq
  rcases h.queued_state t hq with h | h
  · exact hr h
  · exact hs h

/-- Every queued thread has been enqueued. -/
theorem QueueInv.queued_enqueued (h : QueueInv s) (hq : t ∈ s.queued) :
    t ∈ enqueued s.trace := by
  rw [h.fifo]
  exact List.mem_append_right _ hq

/-- A started thread that is not queued and has not ended may change its
state and context. -/
theorem QueueInv.modify (h : QueueInv s) (hq : t ∉ s.queued) (ht : t ≠ idleThread)
    (hstarted : t ∈ enqueued s.trace) (hlive : (s.threads t).state ≠ .terminated)
    (f : Thread → Thread)
    (hnode : (f (s.threads t)).runQueueNode = (s.threads t).runQueueNode) :
    QueueInv (s.modifyThread t f) where
  addresses := h.addresses
  address_le := h.address_le
  node_iff := by
    intro u a
    rw [modifyThread_keeps Thread.runQueueNode f hnode u]
    exact h.node_iff u a
  queued_state := by
    intro u hu
    have hne : u ≠ t := by
      intro heq
      exact hq (heq ▸ hu)
    rw [modifyThread_ne hne]
    exact h.queued_state u hu
  idle_not_queued := h.idle_not_queued
  idle_state := by
    rw [modifyThread_ne ht.symm]
    exact h.idle_state
  idle_process := by
    rw [modifyThread_ne ht.symm]
    exact h.idle_process
  idle_not_enqueued := h.idle_not_enqueued
  fresh := by
    intro u hu hnot
    have hne : u ≠ t := by
      intro heq
      exact hnot (heq ▸ hstarted)
    rw [modifyThread_ne hne]
    exact h.fresh u hu hnot
  fifo := h.fifo
  terminated := by
    intro u hu
    have hne : u ≠ t := by
      intro heq
      exact hlive (heq ▸ h.terminated u hu)
    rw [modifyThread_ne hne]
    exact h.terminated u hu
  no_return := h.no_return
  idle_dispatch := h.idle_dispatch

/-! ## Enqueueing -/

/-- The state after `scheduler_add_thread` got its node. -/
def enqueue (s : Kernel) (t : ThreadId) : Kernel :=
  let s' : Kernel :=
    { s with
      kmallocs := s.kmallocs + 1
      runQueue := s.runQueue ++ [⟨s.kmallocs + 1, t⟩] }
  (s'.modifyThread t fun th => { th with runQueueNode := some (s.kmallocs + 1) }).log (.enqueue t)

/-- The assertions of `scheduler_add_thread` hold for a thread that is not
queued and READY or SUSPENDED. -/
theorem addThread_eq (env : Env) (hnode : (s.threads t).runQueueNode = none)
    (hstate : (s.threads t).state = .ready ∨ (s.threads t).state = .suspended) :
    addThread env s t = .ok (if env.kmallocOk s.kmallocs then (0, enqueue s t)
      else (-1, { s with kmallocs := s.kmallocs + 1 })) := by
  unfold addThread assert linkedListInsert
  rw [decide_eq_true hnode, decide_eq_true hstate]
  cases env.kmallocOk s.kmallocs <;> rfl

@[simp] theorem enqueue_runQueue :
    (enqueue s t).runQueue = s.runQueue ++ [⟨s.kmallocs + 1, t⟩] := rfl

theorem enqueue_threads : (enqueue s t).threads = (s.modifyThread t
    fun th => { th with runQueueNode := some (s.kmallocs + 1) }).threads := rfl

theorem enqueue_ne (hu : u ≠ t) : (enqueue s t).threads u = s.threads u := by
  rw [enqueue_threads, modifyThread_ne hu]

@[simp] theorem enqueue_queued : (enqueue s t).queued = s.queued ++ [t] := by
  simp [enqueue, Kernel.queued, Kernel.log]

@[simp] theorem enqueue_trace : (enqueue s t).trace = s.trace ++ [.enqueue t] := rfl

/-- Enqueueing changes nothing of a thread but its back pointer. -/
theorem enqueue_keeps {β : Type*} (field : Thread → β)
    (h : ∀ (th : Thread) n, field { th with runQueueNode := n } = field th) (u : ThreadId) :
    field ((enqueue s t).threads u) = field (s.threads u) := by
  rw [enqueue_threads]
  exact modifyThread_keeps field _ (h _ _) u

theorem QueueInv.enqueue (h : QueueInv s) (hq : t ∉ s.queued) (ht : t ≠ idleThread)
    (hstate : (s.threads t).state = .ready ∨ (s.threads t).state = .suspended) :
    QueueInv (enqueue s t) where
  addresses := by
    rw [enqueue_runQueue, List.map_append, List.nodup_append]
    refine ⟨h.addresses, by simp, ?_⟩
    intro a ha b hb
    obtain ⟨n, hn, rfl⟩ := List.mem_map.mp ha
    have hle := h.address_le n hn
    simp only [List.map_cons, List.map_nil, List.mem_singleton] at hb
    rw [hb]
    exact Nat.ne_of_lt (Nat.lt_succ_of_le hle)
  address_le := by
    intro n hn
    show n.address ≤ s.kmallocs + 1
    rcases List.mem_append.mp hn with hn | hn
    · exact Nat.le_succ_of_le (h.address_le n hn)
    · exact Nat.le_of_eq (congrArg RunQueueNode.address (List.mem_singleton.mp hn))
  node_iff := by
    intro u a
    rw [enqueue_runQueue, List.mem_append, List.mem_singleton, ← h.node_iff u a]
    by_cases hu : u = t
    · subst hu
      have hnone := h.node_none hq
      rw [enqueue_threads, modifyThread_self]
      simp [hnone, eq_comm]
    · rw [enqueue_ne hu]
      simp [hu]
  queued_state := by
    intro u hu
    rw [enqueue_keeps Thread.state fun _ _ => rfl]
    rw [enqueue_queued, List.mem_append, List.mem_singleton] at hu
    rcases hu with hu | rfl
    · exact h.queued_state u hu
    · exact hstate
  idle_not_queued := by
    rw [enqueue_queued, List.mem_append, List.mem_singleton]
    rintro (hidle | hidle)
    · exact h.idle_not_queued hidle
    · exact ht hidle.symm
  idle_state := by
    rw [enqueue_keeps Thread.state fun _ _ => rfl]
    exact h.idle_state
  idle_process := by
    rw [enqueue_keeps Thread.process fun _ _ => rfl]
    exact h.idle_process
  idle_not_enqueued := by
    have hidle : idleThread ≠ t := ht.symm
    have hnot := h.idle_not_enqueued
    simp only [enqueue_trace, enqueued_append, List.mem_append, not_or]
    exact ⟨hnot, by simpa [enqueued] using hidle⟩
  fresh := by
    intro u hu hnot
    simp only [enqueue_trace, enqueued_append, List.mem_append, not_or] at hnot
    have hne : u ≠ t := by simpa [enqueued] using hnot.2
    rw [enqueue_ne hne]
    exact h.fresh u hu hnot.1
  fifo := by
    have h0 : dispatched [Event.enqueue t] = [] := rfl
    have h1 : enqueued [Event.enqueue t] = [t] := rfl
    rw [enqueue_trace, enqueue_queued, enqueued_append, dispatched_append, h.fifo, h0, h1]
    simp
  terminated := by
    intro u hu
    rw [enqueue_keeps Thread.state fun _ _ => rfl]
    apply h.terminated u
    simpa using hu
  no_return := by
    rw [enqueue_trace, List.pairwise_append]
    refine ⟨h.no_return, List.pairwise_singleton _ _, ?_⟩
    simp
  idle_dispatch := by
    intro found r hr
    apply h.idle_dispatch found r
    simpa using hr

/-! ## Dispatching -/

/-- The thread that `scheduler_run` picks. -/
def nextThread (s : Kernel) : ThreadId :=
  match s.runQueue with
  | [] => idleThread
  | n :: _ => n.data

/-- The state after `scheduler_run` took the head off the queue. -/
def popHead (s : Kernel) : Kernel :=
  match s.runQueue with
  | [] => s
  | n :: rest => { s with runQueue := rest }.modifyThread n.data
      fun th => { th with runQueueNode := none }

/-- The state after `scheduler_run`. -/
def afterRun (env : Env) (s : Kernel) : Kernel :=
  let s' := switchTo env (popHead s) (nextThread s)
  s'.log (.dispatch (nextThread s) s.queued s'.ttbr0)

theorem removeThread_head {n : RunQueueNode} {rest : List RunQueueNode} (h : QueueInv s)
    (hq : s.runQueue = n :: rest) : removeThread s n.data = .ok (popHead s) := by
  have hnode : (s.threads n.data).runQueueNode = some n.address := by
    rw [h.node_iff, hq]
    exact List.mem_cons_self
  simp [removeThread, hnode, linkedListRemove, popHead, hq]

/-- The loop over terminated threads is never entered. -/
theorem pickNext_eq (h : QueueInv s) :
    pickNext s = .ok (s.runQueue.head?.map RunQueueNode.data, popHead s) := by
  rcases hq : s.runQueue with _ | ⟨n, rest⟩
  · simp [pickNext, popHead, hq]
  · have hlive : ((popHead s).threads n.data).state ≠ .terminated := by
      have hmem : n.data ∈ s.queued := by simp [Kernel.queued, hq]
      have hkeep : ((popHead s).threads n.data).state = (s.threads n.data).state := by
        simp [popHead, hq, Kernel.modifyThread]
      rw [hkeep]
      rcases h.queued_state _ hmem with hst | hst <;> simp [hst]
    have hskip : ∀ fuel, skipTerminated fuel (popHead s) n.data = .ok (n.data, popHead s) := by
      intro fuel
      unfold skipTerminated
      split
      · rfl
      · rw [if_neg hlive]
    simp only [pickNext, hq, removeThread_head h hq]
    show (skipTerminated _ (popHead s) n.data >>= _) = _
    rw [hskip]
    rfl

theorem schedulerRun_eq (h : QueueInv s) : schedulerRun env s = .ok (afterRun env s) := by
  unfold schedulerRun
  rw [pickNext_eq h]
  have hnext : (s.runQueue.head?.map RunQueueNode.data).getD idleThread = nextThread s := by
    rcases hq : s.runQueue with _ | ⟨n, rest⟩ <;> simp [nextThread, hq]
  show Except.ok _ = _
  rw [hnext]
  rfl

theorem queued_eq_nil : s.queued = [] ↔ s.runQueue = [] := by simp [Kernel.queued]

/-- Either the queue is empty and the idle thread is next, or the head of
the queue is. -/
theorem next_cases (s : Kernel) :
    (s.queued = [] ∧ nextThread s = idleThread ∧ popHead s = s) ∨
      s.queued = nextThread s :: (popHead s).queued := by
  rcases hq : s.runQueue with _ | ⟨n, rest⟩
  · exact .inl ⟨by simp [Kernel.queued, hq], by simp [nextThread, hq], by simp [popHead, hq]⟩
  · exact .inr (by simp [Kernel.queued, nextThread, popHead, hq, Kernel.modifyThread])

@[simp] theorem popHead_trace : (popHead s).trace = s.trace := by
  unfold popHead
  split <;> rfl

@[simp] theorem popHead_currentThread : (popHead s).currentThread = s.currentThread := by
  unfold popHead
  split <;> rfl

@[simp] theorem popHead_ttbr0 : (popHead s).ttbr0 = s.ttbr0 := by
  unfold popHead
  split <;> rfl

@[simp] theorem popHead_kmallocs : (popHead s).kmallocs = s.kmallocs := by
  unfold popHead
  split <;> rfl

/-- Taking the head off changes nothing of a thread but its back pointer. -/
theorem popHead_keeps {β : Type*} (field : Thread → β)
    (h : ∀ (th : Thread) n, field { th with runQueueNode := n } = field th) (u : ThreadId) :
    field ((popHead s).threads u) = field (s.threads u) := by
  unfold popHead
  split
  · rfl
  · exact modifyThread_keeps field _ (h _ _) u

/-- The switch itself: the current thread, the state of the next one, and
TTBR0, which only a switch to another thread changes. -/
theorem switchTo_spec (env : Env) (s : Kernel) (t : ThreadId) :
    ∃ r0, switchTo env s t = { s.modifyThread t fun th => { th with state := .running } with
        currentThread := some t, ttbr0 := r0 } ∧
      (s.currentThread = some t → r0 = s.ttbr0) ∧
      (s.currentThread ≠ some t → ∀ p, (s.threads t).process = some p →
        r0 = tableBase (env.rootPageTable p)) := by
  unfold switchTo
  by_cases hcur : s.currentThread = some t
  · refine ⟨s.ttbr0, ?_, fun _ => rfl, fun h => absurd hcur h⟩
    simp only [hcur, if_true]
    rfl
  · simp only [if_neg hcur]
    unfold contextSwitch
    simp only [modifyThread_self]
    cases hp : (s.threads t).process with
    | none =>
      refine ⟨s.ttbr0, rfl, fun _ => rfl, ?_⟩
      intro _ p h
      simp at h
    | some p =>
      refine ⟨tableBase (env.rootPageTable p), rfl, fun h => absurd h hcur, ?_⟩
      intro _ q h
      cases h
      rfl

/-- What `scheduler_run` leaves, field by field. -/
structure RunEffect (env : Env) (s s' : Kernel) : Prop where
  currentThread : s'.currentThread = some (nextThread s)
  runQueue : s'.runQueue = (popHead s).runQueue
  kmallocs : s'.kmallocs = s.kmallocs
  threads : s'.threads = ((popHead s).modifyThread (nextThread s)
    fun th => { th with state := .running }).threads
  trace : s'.trace = s.trace ++ [.dispatch (nextThread s) s.queued s'.ttbr0]
  ttbr0_same : s.currentThread = some (nextThread s) → s'.ttbr0 = s.ttbr0
  ttbr0_switch : s.currentThread ≠ some (nextThread s) → ∀ p,
    (s.threads (nextThread s)).process = some p → s'.ttbr0 = tableBase (env.rootPageTable p)

theorem afterRun_effect (env : Env) (s : Kernel) : RunEffect env s (afterRun env s) := by
  obtain ⟨r0, heq, hsame, hswitch⟩ := switchTo_spec env (popHead s) (nextThread s)
  simp only [popHead_currentThread, popHead_ttbr0] at hsame hswitch
  have hafter : afterRun env s = { (popHead s).modifyThread (nextThread s)
      (fun th => { th with state := .running }) with
      currentThread := some (nextThread s), ttbr0 := r0
      trace := s.trace ++ [.dispatch (nextThread s) s.queued r0] } := by
    simp only [afterRun, heq, Kernel.log, modifyThread_trace, popHead_trace]
  have hprocess := popHead_keeps (s := s) Thread.process (fun _ _ => rfl) (nextThread s)
  rw [hafter]
  refine ⟨rfl, rfl, popHead_kmallocs, rfl, rfl, hsame, ?_⟩
  rw [hprocess] at hswitch
  exact hswitch

theorem RunEffect.state (h : RunEffect env s s') (u : ThreadId) :
    (s'.threads u).state = if u = nextThread s then .running else (s.threads u).state := by
  rw [h.threads]
  split
  · rename_i hu
    subst hu
    simp
  · rename_i hu
    rw [modifyThread_ne hu]
    exact popHead_keeps Thread.state (fun _ _ => rfl) u

theorem RunEffect.process (h : RunEffect env s s') (u : ThreadId) :
    (s'.threads u).process = (s.threads u).process := by
  rw [h.threads, modifyThread_keeps Thread.process _ rfl]
  exact popHead_keeps Thread.process (fun _ _ => rfl) u

theorem RunEffect.node (h : RunEffect env s s') (u : ThreadId) :
    (s'.threads u).runQueueNode = ((popHead s).threads u).runQueueNode := by
  rw [h.threads]
  exact modifyThread_keeps Thread.runQueueNode _ rfl u

theorem popHead_runQueue : (popHead s).runQueue = s.runQueue.tail := by
  unfold popHead
  split <;> simp [*]

/-- After the head is off, the back pointers match what is left. -/
theorem QueueInv.popHead_node_iff (h : QueueInv s) (u : ThreadId) (a : NodeId) :
    ((popHead s).threads u).runQueueNode = some a ↔ ⟨a, u⟩ ∈ (popHead s).runQueue := by
  rw [popHead_runQueue]
  rcases hq : s.runQueue with _ | ⟨n, rest⟩
  · have := h.node_iff u a
    simpa [popHead, hq] using this
  · have hnodup := h.queued_nodup
    have hiff := h.node_iff u a
    simp only [Kernel.queued, hq, List.map_cons, List.nodup_cons, List.mem_cons] at hnodup hiff
    by_cases hu : u = n.data
    · subst hu
      have hout : (⟨a, n.data⟩ : RunQueueNode) ∉ rest := by
        intro hmem
        exact hnodup.1 (List.mem_map.mpr ⟨_, hmem, rfl⟩)
      simp [popHead, hq, hout]
    · have hne : (⟨a, u⟩ : RunQueueNode) ≠ n := by
        intro heq
        exact hu (congrArg RunQueueNode.data heq)
      rw [List.tail_cons, popHead, hq, modifyThread_ne hu]
      rw [hiff]
      simp [hne]

/-- The thread that `scheduler_run` picks is the idle thread or has been
enqueued, and has not ended. -/
theorem QueueInv.next_started (h : QueueInv s) (hne : nextThread s ≠ idleThread) :
    nextThread s ∈ enqueued s.trace := by
  obtain ⟨_, hidle, _⟩ | hq := next_cases s
  · exact absurd hidle hne
  · apply h.queued_enqueued
    rw [hq]
    exact List.mem_cons_self

theorem QueueInv.next_live (h : QueueInv s) :
    (s.threads (nextThread s)).state ≠ .terminated := by
  obtain ⟨_, hidle, _⟩ | hq := next_cases s
  · rw [hidle]
    rcases h.idle_state with hst | hst <;> simp [hst]
  · have hmem : nextThread s ∈ s.queued := by rw [hq]; exact List.mem_cons_self
    rcases h.queued_state _ hmem with hst | hst <;> simp [hst]

/-- The idle thread is picked only when nothing is queued. -/
theorem QueueInv.next_idle (h : QueueInv s) (hidle : nextThread s = idleThread) :
    s.queued = [] := by
  obtain ⟨hnil, _⟩ | hq := next_cases s
  · exact hnil
  · have hmem : idleThread ∈ s.queued := by rw [hq, hidle]; exact List.mem_cons_self
    exact absurd hmem h.idle_not_queued

/-- The threads left in the queue were queued before, behind the next one. -/
theorem QueueInv.mem_popHead (h : QueueInv s) (hu : u ∈ (popHead s).queued) :
    u ∈ s.queued ∧ u ≠ nextThread s := by
  have hnodup := h.queued_nodup
  obtain ⟨hnil, _, hpop⟩ | hq := next_cases s
  · rw [hpop, hnil] at hu
    cases hu
  · rw [hq, List.nodup_cons] at hnodup
    refine ⟨hq ▸ List.mem_cons_of_mem _ hu, ?_⟩
    intro heq
    exact hnodup.1 (heq ▸ hu)

theorem QueueInv.dispatched_queue (h : QueueInv s) (r : Word) :
    dispatched [.dispatch (nextThread s) s.queued r] ++ (popHead s).queued = s.queued := by
  obtain ⟨hnil, hidle, hpop⟩ | hq := next_cases s
  · rw [hidle, hpop, hnil]
    rfl
  · have hne : nextThread s ≠ idleThread := by
      intro heq
      rw [h.next_idle heq] at hq
      cases hq
    have hd : dispatched [.dispatch (nextThread s) s.queued r] = [nextThread s] := by
      simp [dispatched, hne]
    rw [hd]
    exact hq.symm

/-- `scheduler_run` keeps the invariant and makes the thread it dispatches
the running one, whatever state the thread before it was left in. -/
theorem QueueInv.run (h : QueueInv s) (e : RunEffect env s s') : RunInv s' where
  addresses := by
    rw [e.runQueue, popHead_runQueue, List.map_tail]
    exact h.addresses.tail
  address_le := by
    intro n hn
    rw [e.runQueue, popHead_runQueue] at hn
    rw [e.kmallocs]
    exact h.address_le n (List.mem_of_mem_tail hn)
  node_iff := by
    intro u a
    rw [e.node, e.runQueue]
    exact h.popHead_node_iff u a
  queued_state := by
    intro u hu
    rw [Kernel.queued, e.runQueue] at hu
    obtain ⟨hmem, hne⟩ := h.mem_popHead hu
    rw [e.state, if_neg hne]
    exact h.queued_state u hmem
  idle_not_queued := by
    intro hidle
    rw [Kernel.queued, e.runQueue] at hidle
    exact h.idle_not_queued (h.mem_popHead hidle).1
  idle_state := by
    rw [e.state]
    split
    · exact .inr rfl
    · exact h.idle_state
  idle_process := by
    rw [e.process]
    exact h.idle_process
  idle_not_enqueued := by
    rw [e.trace, enqueued_append]
    simpa [enqueued] using h.idle_not_enqueued
  fresh := by
    intro u hu hnot
    have hnot' : u ∉ enqueued s.trace := by
      rw [e.trace, enqueued_append] at hnot
      simpa [enqueued] using hnot
    have hne : u ≠ nextThread s := by
      intro heq
      exact hnot' (heq ▸ h.next_started (heq ▸ hu))
    obtain ⟨hstate, hnode⟩ := h.fresh u hu hnot'
    constructor
    · rw [e.state, if_neg hne]
      exact hstate
    · rw [e.node, Option.eq_none_iff_forall_ne_some]
      intro a ha
      rw [h.popHead_node_iff, popHead_runQueue] at ha
      have hmem := (h.node_iff u a).mpr (List.mem_of_mem_tail ha)
      rw [hnode] at hmem
      cases hmem
  fifo := by
    rw [e.trace, enqueued_append, dispatched_append, List.append_assoc]
    show _ = _ ++ (_ ++ s'.runQueue.map _)
    rw [e.runQueue]
    show _ = _ ++ (_ ++ (popHead s).queued)
    rw [h.dispatched_queue, ← h.fifo]
    simp [enqueued]
  terminated := by
    intro u hu
    rw [e.trace, List.mem_append] at hu
    have hterm := h.terminated u (by simpa using hu)
    have hne : u ≠ nextThread s := by
      intro heq
      exact h.next_live (heq ▸ hterm)
    rw [e.state, if_neg hne]
    exact hterm
  no_return := by
    rw [e.trace, List.pairwise_append]
    refine ⟨h.no_return, List.pairwise_singleton _ _, ?_⟩
    intro e' he' d hd u found r heq hdisp
    rw [List.mem_singleton.mp hd] at hdisp
    injection hdisp with hnext
    subst heq
    exact h.next_live (hnext ▸ h.terminated u he')
  idle_dispatch := by
    intro found r hd
    rw [e.trace, List.mem_append, List.mem_singleton] at hd
    rcases hd with hd | hd
    · exact h.idle_dispatch found r hd
    · injection hd with hnext hfound _
      rw [hfound]
      exact h.next_idle hnext.symm
  current_running := by
    intro u hu
    rw [e.currentThread] at hu
    injection hu with hu
    rw [e.state, if_pos hu.symm]
  current_started := by
    intro u hu hne
    rw [e.currentThread] at hu
    injection hu with hu
    subst hu
    rw [e.trace, enqueued_append]
    exact List.mem_append_left _ (h.next_started hne)

end

end ZOs.Scheduler
