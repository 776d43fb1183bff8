import ZOs.Lib.Ensures
import ZOs.Sched.SchedulerRun
import ZOs.Ipc.System

/-!
# Waiting and waking up

`WaitCore` says that the BLOCKED threads are exactly the threads in the
waiter lists, each in one list and once. It holds through every function,
also between the insertion of a message and the end of the loop that wakes
up the waiters. The functions that wait and wake up have their effect stated
as an equation, so that whatever they do not mention is unchanged.
-/

namespace ZOs.Ipc

open Scheduler (ThreadId ProcessId Kernel Word CpuRegisters idleThread Blocked)
open Checked

/-- A list of threads that wait. -/
def ListAddr.IsWaiters : ListAddr → Prop
  | .recvWaiters _ _ | .eventWaiters _ => True
  | _ => False

/-- BLOCKED threads and waiter lists agree. -/
structure WaitCore (s : System) : Prop where
  kernel : Scheduler.RunInv s.kernel
  blocked_iff : ∀ t, Blocked s.kernel t ↔ ∃ w : ListAddr, w.IsWaiters ∧ t ∈ s.lists w
  once : ∀ w : ListAddr, w.IsWaiters → (s.lists w).Nodup
  unique : ∀ (w w' : ListAddr) (t : ThreadId), w.IsWaiters → w'.IsWaiters →
    t ∈ s.lists w → t ∈ s.lists w' → w = w'

/-- The errors that leave the scheduler out. -/
def NotScheduler (f : Fault) : Prop := ∀ g, f ≠ .scheduler g

/-- A call ends without an error of the scheduler, in a result with `P`. -/
abbrev Returns {α : Type} (x : Except Fault α) (P : α → Prop) : Prop := Ensures NotScheduler x P

section
variable {env : Scheduler.Env} {s s' : System} {w : ListAddr} {t : ThreadId}

theorem returns_assert {condition : Bool} {text : String} {P : Unit → Prop}
    (h : condition = true → P ()) : Returns (assert condition text) P := by
  unfold assert
  split
  · rename_i hc
    exact h hc
  · intro g hg
    cases hg

@[simp] theorem notScheduler_assertion (text : String) : NotScheduler (.assertion text) := by
  intro g hg
  cases hg

@[simp] theorem notScheduler_nullPointer : NotScheduler .nullPointer := by
  intro g hg
  cases hg

@[simp] theorem notScheduler_typeConfusion : NotScheduler .typeConfusion := by
  intro g hg
  cases hg

/-! ## Changes that concern no waiter -/

/-- Only the kernel and the waiter lists matter. -/
theorem WaitCore.congr (h : WaitCore s) (hk : s'.kernel = s.kernel)
    (hl : ∀ w : ListAddr, w.IsWaiters → s'.lists w = s.lists w) : WaitCore s' where
  kernel := by
    rw [hk]
    exact h.kernel
  blocked_iff := by
    intro t
    rw [hk, h.blocked_iff]
    exact exists_congr fun w => and_congr_right fun hw => by rw [hl w hw]
  once := by
    intro w hw
    rw [hl w hw]
    exact h.once w hw
  unique := by
    intro w w' t hw hw' ht ht'
    rw [hl w hw] at ht
    rw [hl w' hw'] at ht'
    exact h.unique w w' t hw hw' ht ht'

/-- The kernel after `n` calls of kmalloc. -/
def countKmalloc (k : Kernel) (n : Nat) : Kernel := { k with kmallocs := k.kmallocs + n }

theorem kmalloc_eq : kmalloc env s =
    (env.kmallocOk s.kernel.kmallocs, { s with kernel := countKmalloc s.kernel 1 }) := rfl

theorem WaitCore.kmalloc (h : WaitCore s) : WaitCore { s with kernel := countKmalloc s.kernel 1 } :=
  { h with kernel := h.kernel.kmalloc }

theorem linkedListInsert_eq (list : ListAddr) (data : Nat) :
    linkedListInsert env s list data =
      (env.kmallocOk s.kernel.kmallocs,
        { s with
          kernel := countKmalloc s.kernel 1
          lists := if env.kmallocOk s.kernel.kmallocs then
            Function.update s.lists list (s.lists list ++ [data]) else s.lists }) := by
  unfold linkedListInsert
  rw [kmalloc_eq]
  cases env.kmallocOk s.kernel.kmallocs <;> rfl

/-! ## Waking up -/

/-- What the scheduler's part of the state keeps while threads are woken
up, with `n` calls of kmalloc. -/
structure KernelFrame (k k' : Kernel) (n : Nat) : Prop where
  process : ∀ u, (k'.threads u).process = (k.threads u).process
  currentThread : k'.currentThread = k.currentThread
  kmallocs : k'.kmallocs = k.kmallocs + n

theorem KernelFrame.refl (k : Kernel) : KernelFrame k k 0 := ⟨fun _ => rfl, rfl, rfl⟩

theorem KernelFrame.trans {k k' k'' : Kernel} {n m : Nat} (h : KernelFrame k k' n)
    (h' : KernelFrame k' k'' m) : KernelFrame k k'' (n + m) where
  process := fun u => (h'.process u).trans (h.process u)
  currentThread := h'.currentThread.trans h.currentThread
  kmallocs := by rw [h'.kmallocs, h.kmallocs, Nat.add_assoc]

theorem kernelFrame_kmalloc (k : Kernel) (n : Nat) : KernelFrame k (countKmalloc k n) n :=
  ⟨fun _ => rfl, rfl, rfl⟩

/-- The head of a waiter list is taken off and woken up. -/
theorem WaitCore.wake_head (env : Scheduler.Env) (h : WaitCore s) (hw : w.IsWaiters)
    {rest : List ThreadId} (hl : s.lists w = t :: rest) :
    ∃ k, Scheduler.schedulerWakeUp env s.kernel t = .ok k ∧ KernelFrame s.kernel k 1 ∧
      WaitCore { s with kernel := k, lists := Function.update s.lists w rest } := by
  have hmem : t ∈ s.lists w := by
    rw [hl]
    exact List.mem_cons_self
  have hb : Blocked s.kernel t := (h.blocked_iff t).mpr ⟨w, hw, hmem⟩
  have hnodup := h.once w hw
  rw [hl, List.nodup_cons] at hnodup
  obtain ⟨k, heq, hrun, hblocked, hprocess, hcur, hkm⟩ :=
    Scheduler.schedulerWakeUp_blocked env h.kernel hb
  -- a thread other than `t` waits where it waited before
  have hother : ∀ (v : ListAddr) (u : ThreadId), v.IsWaiters →
      (u ∈ Function.update s.lists w rest v ↔ u ≠ t ∧ u ∈ s.lists v) := by
    intro v u hv
    by_cases hvw : v = w
    · subst hvw
      rw [Function.update_self, hl, List.mem_cons]
      constructor
      · intro hu
        refine ⟨?_, .inr hu⟩
        intro hut
        exact hnodup.1 (hut ▸ hu)
      · intro ⟨hne, hu⟩
        exact hu.resolve_left hne
    · rw [Function.update_of_ne hvw]
      constructor
      · intro hu
        refine ⟨?_, hu⟩
        intro hut
        exact hvw (h.unique v w t hv hw (hut ▸ hu) hmem)
      · exact fun hu => hu.2
  refine ⟨k, heq, ⟨hprocess, hcur, hkm⟩, ?_⟩
  exact
    { kernel := hrun
      blocked_iff := by
        intro u
        rw [hblocked, h.blocked_iff]
        constructor
        · intro ⟨hne, v, hv, hu⟩
          exact ⟨v, hv, (hother v u hv).mpr ⟨hne, hu⟩⟩
        · intro ⟨v, hv, hu⟩
          obtain ⟨hne, hu⟩ := (hother v u hv).mp hu
          exact ⟨hne, v, hv, hu⟩
      once := by
        intro v hv
        show (Function.update s.lists w rest v).Nodup
        by_cases hvw : v = w
        · subst hvw
          rw [Function.update_self]
          exact hnodup.2
        · rw [Function.update_of_ne hvw]
          exact h.once v hv
      unique := by
        intro v v' u hv hv' hu hu'
        exact h.unique v v' u hv hv' ((hother v u hv).mp hu).2 ((hother v' u hv').mp hu').2 }

/-- The wake-up loop empties the list, and its assertion never fails. -/
theorem WaitCore.wakeWaiters (env : Scheduler.Env) (hw : w.IsWaiters) :
    ∀ (fuel : Nat) {s : System}, WaitCore s → (s.lists w).length ≤ fuel →
      ∃ k, wakeWaiters env fuel s w =
          .ok { s with kernel := k, lists := Function.update s.lists w [] } ∧
        KernelFrame s.kernel k (s.lists w).length ∧
        WaitCore { s with kernel := k, lists := Function.update s.lists w [] } := by
  intro fuel
  induction fuel with
  | zero =>
    intro s h hfuel
    have hnil : s.lists w = [] := List.length_eq_zero_iff.mp (Nat.le_zero.mp hfuel)
    have hsame : Function.update s.lists w [] = s.lists := by
      rw [← hnil, Function.update_eq_self]
    refine ⟨s.kernel, ?_, ?_, ?_⟩
    · rw [hsame]
      unfold Ipc.wakeWaiters
      rw [hnil]
    · rw [hnil]
      exact KernelFrame.refl _
    · rw [hsame]
      exact h
  | succ fuel ih =>
    intro s h hfuel
    cases hl : s.lists w with
    | nil =>
      have hsame : Function.update s.lists w [] = s.lists := by
        rw [← hl, Function.update_eq_self]
      refine ⟨s.kernel, ?_, KernelFrame.refl _, ?_⟩
      · rw [hsame]
        unfold Ipc.wakeWaiters
        rw [hl]
      · rw [hsame]
        exact h
    | cons t rest =>
      obtain ⟨k₁, heq₁, hframe₁, h₁⟩ := h.wake_head env hw hl
      have hlen : rest.length ≤ fuel := by
        rw [hl, List.length_cons] at hfuel
        omega
      obtain ⟨k, heq, hframe, hcore⟩ := ih h₁ (by simpa using hlen)
      simp only [Function.update_self, Function.update_idem] at heq hframe hcore
      refine ⟨k, ?_, ?_, hcore⟩
      · unfold Ipc.wakeWaiters
        simp only [hl, linkedListRemoveHead, heq₁, callScheduler, List.tail_cons]
        exact heq
      · have := hframe₁.trans hframe
        rwa [Nat.add_comm] at this

/-! ## Waiting -/

/-- The running thread goes into a waiter list and blocks. -/
theorem WaitCore.block (env : Scheduler.Env) (h : WaitCore s) (hw : w.IsWaiters)
    (hcur : s.kernel.currentThread = some t) (ht : t ≠ idleThread) (cpu : CpuRegisters) :
    ∃ k, Scheduler.schedulerWaitForEvent env s.kernel cpu = .ok k ∧
      (∀ u, (k.threads u).process = (s.kernel.threads u).process) ∧
      WaitCore { s with kernel := k, lists := Function.update s.lists w (s.lists w ++ [t]) } := by
  obtain ⟨k, heq, hrun, hblocked, hprocess⟩ :=
    Scheduler.schedulerWaitForEvent_blocks env h.kernel hcur ht cpu
  have hnot : ∀ v : ListAddr, v.IsWaiters → t ∉ s.lists v := by
    intro v hv hmem
    have hb : Blocked s.kernel t := (h.blocked_iff t).mpr ⟨v, hv, hmem⟩
    rw [Blocked, h.kernel.current_running t hcur] at hb
    cases hb
  have hmem : ∀ (v : ListAddr) (u : ThreadId),
      u ∈ Function.update s.lists w (s.lists w ++ [t]) v ↔ u ∈ s.lists v ∨ (v = w ∧ u = t) := by
    intro v u
    by_cases hvw : v = w
    · subst hvw
      simp
    · simp [hvw]
  refine ⟨k, heq, hprocess, ?_⟩
  exact
    { kernel := hrun
      blocked_iff := by
        intro u
        rw [hblocked, h.blocked_iff]
        constructor
        · intro hu
          rcases hu with rfl | ⟨v, hv, hu⟩
          · exact ⟨w, hw, (hmem w u).mpr (.inr ⟨rfl, rfl⟩)⟩
          · exact ⟨v, hv, (hmem v u).mpr (.inl hu)⟩
        · rintro ⟨v, hv, hu⟩
          rcases (hmem v u).mp hu with hu | ⟨_, hu⟩
          · exact .inr ⟨v, hv, hu⟩
          · exact .inl hu
      once := by
        intro v hv
        show (Function.update s.lists w (s.lists w ++ [t]) v).Nodup
        by_cases hvw : v = w
        · subst hvw
          rw [Function.update_self, List.nodup_append]
          refine ⟨h.once v hv, List.nodup_singleton _, ?_⟩
          intro a ha b hb hab
          rw [hab, List.mem_singleton.mp hb] at ha
          exact hnot v hv ha
        · rw [Function.update_of_ne hvw]
          exact h.once v hv
      unique := by
        intro v v' u hv hv' hu hu'
        rcases (hmem v u).mp hu with hu | ⟨hvw, hut⟩
        · rcases (hmem v' u).mp hu' with hu' | ⟨_, hut⟩
          · exact h.unique v v' u hv hv' hu hu'
          · exact absurd (hut ▸ hu) (hnot v hv)
        · rcases (hmem v' u).mp hu' with hu' | ⟨hvw', _⟩
          · exact absurd (hut ▸ hu') (hnot v' hv')
          · exact hvw.trans hvw'.symm }

/-- What a waiting loop leaves when its thread is blocked. -/
structure BlockedIn (s : System) (t : ThreadId) (w : ListAddr) (call : Call) (s' : System) :
    Prop where
  eq : ∃ k, s' = { s with
    kernel := k
    lists := Function.update s.lists w (s.lists w ++ [t])
    calls := Function.update s.calls t (some call) } ∧
    ∀ u, (k.threads u).process = (s.kernel.threads u).process
  core : WaitCore s'

/-- One pass through a waiting loop: the thread is blocked in the list, or
there was no node for it. -/
theorem WaitCore.waitIn (h : WaitCore s) (hw : w.IsWaiters)
    (hcur : s.kernel.currentThread = some t) (ht : t ≠ idleThread) {call : Call}
    (cpu : CpuRegisters) {onFull : System → Except Fault (Outcome × System)}
    {P : Outcome × System → Prop}
    (hfull : Returns (onFull { s with kernel := countKmalloc s.kernel 1 }) P)
    (hblock : ∀ s', BlockedIn s t w call s' → P (.blocked, s')) :
    Returns (waitIn env s w call cpu onFull) P := by
  unfold Ipc.waitIn
  simp only [hcur, linkedListInsert_eq]
  cases env.kmallocOk s.kernel.kmallocs with
  | false => exact hfull
  | true =>
    obtain ⟨k, heq, hprocess, hcore⟩ := h.kmalloc.block env hw hcur ht cpu
    simp only [if_true, heq, callScheduler, ensures_bind, ensures_ok, ensures_pure]
    exact hblock _ ⟨⟨k, rfl, hprocess⟩, hcore.congr rfl fun _ _ => rfl⟩

/-! ## Fanning out -/

/-- The endpoints among `es` that get the message: those for which there is
a list node. At each one kmalloc is called for the node and once for every
waiter woken up. -/
def deliveredTo (env : Scheduler.Env) (lists : ListAddr → List Nat) (kind : MessageKind)
    (sender : EndpointId) : Nat → List EndpointId → List EndpointId
  | _, [] => []
  | k, e :: rest =>
    if e = sender then deliveredTo env lists kind sender k rest
    else
      let delivered := deliveredTo env lists kind sender
        (k + 1 + (lists (.recvWaiters kind e)).length) rest
      if env.kmallocOk k then e :: delivered else delivered

variable {kind : MessageKind} {sender : EndpointId} {m : MessageId} {es : List EndpointId}

theorem deliveredTo_sub (lists : ListAddr → List Nat) :
    ∀ (k : Nat) {e : EndpointId}, e ∈ deliveredTo env lists kind sender k es →
      e ∈ es ∧ e ≠ sender := by
  induction es with
  | nil =>
    intro k e he
    cases he
  | cons x rest ih =>
    intro k e he
    rw [deliveredTo] at he
    split at he
    · obtain ⟨hmem, hne⟩ := ih k he
      exact ⟨List.mem_cons_of_mem _ hmem, hne⟩
    · rename_i hx
      split at he
      · rcases List.mem_cons.mp he with rfl | he
        · exact ⟨List.mem_cons_self, hx⟩
        · obtain ⟨hmem, hne⟩ := ih _ he
          exact ⟨List.mem_cons_of_mem _ hmem, hne⟩
      · obtain ⟨hmem, hne⟩ := ih _ he
        exact ⟨List.mem_cons_of_mem _ hmem, hne⟩

/-- Where kmalloc does not fail, every other endpoint gets the message. -/
theorem deliveredTo_all (hk : ∀ n, env.kmallocOk n = true) (lists : ListAddr → List Nat) :
    ∀ (k : Nat) {e : EndpointId}, e ∈ es → e ≠ sender →
      e ∈ deliveredTo env lists kind sender k es := by
  induction es with
  | nil =>
    intro k e he
    cases he
  | cons x rest ih =>
    intro k e he hne
    rw [deliveredTo]
    split
    · rename_i hx
      rcases List.mem_cons.mp he with rfl | he
      · exact absurd hx hne
      · exact ih k he hne
    · rw [if_pos (hk _)]
      rcases List.mem_cons.mp he with rfl | he
      · exact List.mem_cons_self
      · exact List.mem_cons_of_mem _ (ih _ he hne)

theorem deliveredTo_congr {lists lists' : ListAddr → List Nat} :
    ∀ (k : Nat), (∀ e ∈ es, lists' (.recvWaiters kind e) = lists (.recvWaiters kind e)) →
      deliveredTo env lists' kind sender k es = deliveredTo env lists kind sender k es := by
  induction es with
  | nil => exact fun _ _ => rfl
  | cons x rest ih =>
    intro k h
    have hrest : ∀ e ∈ rest, lists' (.recvWaiters kind e) = lists (.recvWaiters kind e) :=
      fun e he => h e (List.mem_cons_of_mem _ he)
    rw [deliveredTo, deliveredTo, ih k hrest, h x List.mem_cons_self, ih _ hrest]

/-- The lists after a message went to the endpoints of `delivered`, and the
waiters of all endpoints among `es` but `sender` were woken up. -/
structure FannedOut (lists : ListAddr → List Nat) (kind : MessageKind) (sender : EndpointId)
    (m : MessageId) (es delivered : List EndpointId) (lists' : ListAddr → List Nat) : Prop where
  messages : ∀ e, lists' (.messages kind e) =
    if e ∈ delivered then lists (.messages kind e) ++ [m] else lists (.messages kind e)
  waiters : ∀ e, lists' (.recvWaiters kind e) =
    if e ∈ es ∧ e ≠ sender then [] else lists (.recvWaiters kind e)
  other : ∀ l, (∀ e, l ≠ .messages kind e) → (∀ e, l ≠ .recvWaiters kind e) → lists' l = lists l

/-- Nothing is done for an empty list. -/
theorem fannedOut_nil (lists : ListAddr → List Nat) :
    FannedOut lists kind sender m [] [] lists :=
  ⟨by simp, by simp, fun _ _ _ => rfl⟩

/-- One endpoint after another, where the second part serves others than
the first. -/
theorem FannedOut.append {lists lists₁ lists₂ : ListAddr → List Nat}
    {es₁ es₂ d₁ d₂ : List EndpointId} (h₁ : FannedOut lists kind sender m es₁ d₁ lists₁)
    (h₂ : FannedOut lists₁ kind sender m es₂ d₂ lists₂) (hd : ∀ e ∈ d₁, e ∉ d₂) :
    FannedOut lists kind sender m (es₁ ++ es₂) (d₁ ++ d₂) lists₂ where
  messages := by
    intro e
    rw [h₂.messages, h₁.messages]
    by_cases h₁e : e ∈ d₁
    · simp [h₁e, hd e h₁e]
    · simp [h₁e]
  waiters := by
    intro e
    rw [h₂.waiters, h₁.waiters]
    by_cases h₁e : e ∈ es₁ <;> by_cases h₂e : e ∈ es₂ <;> by_cases hs : e = sender <;>
      simp [h₁e, h₂e, hs]
  other := by
    intro l hm hw
    rw [h₂.other l hm hw, h₁.other l hm hw]

/-- The sender itself is passed over. -/
theorem FannedOut.skip {lists lists' : ListAddr → List Nat} {d : List EndpointId}
    (h : FannedOut lists kind sender m es d lists') :
    FannedOut lists kind sender m (sender :: es) d lists' where
  messages := h.messages
  waiters := by
    intro e
    rw [h.waiters]
    by_cases hs : e = sender <;> simp [hs]
  other := h.other

/-- The message is inserted at one endpoint, and the waiters there are woken
up. -/
theorem WaitCore.deliver (env : Scheduler.Env) (h : WaitCore s) (kind : MessageKind)
    (m : MessageId) {x : EndpointId} (hx : x ≠ sender) :
    ∃ k lists, (let s₁ := (linkedListInsert env s (.messages kind x) m).2
        Ipc.wakeWaiters env (s₁.lists (.recvWaiters kind x)).length s₁ (.recvWaiters kind x)) =
          .ok { s with kernel := k, lists } ∧
      WaitCore { s with kernel := k, lists } ∧
      KernelFrame s.kernel k (1 + (s.lists (.recvWaiters kind x)).length) ∧
      FannedOut s.lists kind sender m [x] (if env.kmallocOk s.kernel.kmallocs then [x] else [])
        lists := by
  let lists₁ := if env.kmallocOk s.kernel.kmallocs then
    Function.update s.lists (.messages kind x) (s.lists (.messages kind x) ++ [m]) else s.lists
  have hother : ∀ l, l ≠ .messages kind x → lists₁ l = s.lists l := by
    intro l hl
    show (if _ then _ else s.lists : ListAddr → List Nat) l = _
    split
    · rw [Function.update_of_ne hl]
    · rfl
  have h₁ : WaitCore { s with kernel := countKmalloc s.kernel 1, lists := lists₁ } := by
    refine h.kmalloc.congr rfl ?_
    intro w hw
    apply hother
    intro heq
    subst heq
    exact hw
  obtain ⟨k, heq, hframe, hcore⟩ := WaitCore.wakeWaiters env
    (w := .recvWaiters kind x) trivial _ h₁ (Nat.le_refl _)
  have hw₁ : lists₁ (.recvWaiters kind x) = s.lists (.recvWaiters kind x) := hother _ (by simp)
  simp only [hw₁] at heq hframe
  refine ⟨k, Function.update lists₁ (.recvWaiters kind x) [], ?_, hcore,
    (kernelFrame_kmalloc _ 1).trans hframe, ?_, ?_, ?_⟩
  · rw [linkedListInsert_eq]
    show Ipc.wakeWaiters env (lists₁ _).length { s with kernel := _, lists := lists₁ } _ = _
    rw [hw₁]
    exact heq
  · intro e
    rw [Function.update_of_ne (by simp)]
    by_cases he : e = x
    · subst he
      show (if _ then _ else s.lists : ListAddr → List Nat) _ = _
      cases env.kmallocOk s.kernel.kmallocs <;> simp
    · rw [hother _ (by simpa using he), if_neg]
      split <;> simp [he]
  · intro e
    by_cases he : e = x
    · subst he
      simp [hx]
    · rw [Function.update_of_ne (by simpa using he), hother _ (by simp), if_neg (by simp [he])]
  · intro l hm hw
    rw [Function.update_of_ne (hw x), hother l (hm x)]

/-- A message goes to all endpoints but the sender: the assertion on the
waiters never fails. -/
theorem WaitCore.fanOut (env : Scheduler.Env) (kind : MessageKind) (sender : EndpointId)
    (m : MessageId) (es : List EndpointId) (hes : es.Nodup) : ∀ {s : System}, WaitCore s →
    ∃ k lists, fanOut env kind sender m es s = .ok { s with kernel := k, lists } ∧
      WaitCore { s with kernel := k, lists } ∧
      (∃ n, KernelFrame s.kernel k n) ∧
      FannedOut s.lists kind sender m es
        (deliveredTo env s.lists kind sender s.kernel.kmallocs es) lists := by
  induction es with
  | nil =>
    intro s h
    exact ⟨s.kernel, s.lists, rfl, h, ⟨0, KernelFrame.refl _⟩, fannedOut_nil _⟩
  | cons x rest ih =>
    intro s h
    rw [List.nodup_cons] at hes
    by_cases hx : x = sender
    · obtain ⟨k, lists, heq, hcore, hframe, hfan⟩ := ih hes.2 h
      refine ⟨k, lists, ?_, hcore, hframe, ?_⟩
      · rw [Ipc.fanOut, if_pos hx]
        exact heq
      · rw [deliveredTo, if_pos hx, hx]
        exact hfan.skip
    · obtain ⟨k₁, lists₁, heq₁, h₁, hframe₁, hfan₁⟩ := h.deliver env kind m hx
      obtain ⟨k, lists, heq, hcore, ⟨n, hframe⟩, hfan⟩ := ih hes.2 h₁
      refine ⟨k, lists, ?_, hcore, ⟨_, hframe₁.trans hframe⟩, ?_⟩
      · rw [Ipc.fanOut, if_neg hx]
        simp only [heq₁]
        exact heq
      · -- the waiters of the endpoints still to come are the old ones
        have hcongr : deliveredTo env lists₁ kind sender k₁.kmallocs rest =
            deliveredTo env s.lists kind sender
              (s.kernel.kmallocs + 1 + (s.lists (.recvWaiters kind x)).length) rest := by
          rw [hframe₁.kmallocs, Nat.add_assoc]
          apply deliveredTo_congr
          intro e he
          have hne : e ≠ x := fun heq => hes.1 (heq ▸ he)
          rw [hfan₁.waiters, if_neg (by simp [hne])]
        simp only [hcongr] at hfan
        have hall := hfan₁.append hfan fun e he hmem => by
          have hex : e = x := by
            split at he
            · exact List.mem_singleton.mp he
            · cases he
          exact hes.1 (hex ▸ (deliveredTo_sub _ _ hmem).1)
        rw [deliveredTo, if_neg hx]
        cases hk : env.kmallocOk s.kernel.kmallocs <;> simpa [hk] using hall

end

end ZOs.Ipc
