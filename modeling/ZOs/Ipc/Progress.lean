import ZOs.Ipc.NoLostWakeUp
import ZOs.Sched.Fairness

/-!
# Nobody is forgotten

Every function of the channels and input files uses the scheduler through its
calls only, so a step of the system is a sequence of steps of the scheduler
(`step_calls`). With the laws of waiting, each started thread runs, or is in
the run queue and has its turn after those before it, or waits where nothing is
pending, or has ended (`nobody_is_forgotten`).
-/

namespace ZOs.Ipc

open Scheduler (ThreadId ProcessId Kernel Word CpuRegisters idleThread SchedulerCalls turnsTaken
  Accounted)
open Checked Runs Turns

/-- A call ends in an error, or in a result with `P`. -/
abbrev IfReturns {α : Type} (x : Except Fault α) (P : α → Prop) : Prop :=
  Ensures (fun _ => True) x P

/-- From one state of the system to the other, the scheduler is used through
its calls. -/
abbrev Calls (env : Scheduler.Env) (s s' : System) : Prop :=
  SchedulerCalls env s.kernel s'.kernel

section
variable {env : Scheduler.Env} {s s' : System} {t : ThreadId} {a : Action} {e : EndpointId}
  {kind : MessageKind} {m : MessageId} {buffer : UserBuffer} {w : ListAddr}

theorem ifReturns_of_forall {α : Type} {P : α → Prop} (x : Except Fault α) (h : ∀ a, P a) :
    IfReturns x P := by
  cases x with
  | ok a => exact h a
  | error e => trivial

theorem ifReturns_assert {condition : Bool} {text : String} {P : Unit → Prop} (h : P ()) :
    IfReturns (assert condition text) P :=
  ifReturns_of_forall _ fun _ => h

theorem calls_count (s : System) (n : Nat) :
    SchedulerCalls env s.kernel (countKmalloc s.kernel n) := by
  induction n with
  | zero => exact .none
  | succ n ih => exact ih.kmalloc

theorem Calls.kmalloc (h : Calls env s s') : Calls env s (kmalloc env s').2 :=
  SchedulerCalls.kmalloc h

theorem Calls.linkedListInsert (h : Calls env s s') (list : ListAddr) (data : Nat) :
    Calls env s (linkedListInsert env s' list data).2 := by
  rw [linkedListInsert_eq]
  exact SchedulerCalls.kmalloc h

theorem Calls.handleTableInsert {α : Type} (h : Calls env s s') (table : HandleTable α) (data : α) :
    Calls env s (handleTableInsert env s' table data).2 := by
  obtain ⟨result, n, heq, -⟩ := handleTableInsert_eq env s' table data
  rw [heq]
  exact h.trans (calls_count s' n)

theorem Calls.fdTableOpen (h : Calls env s s') (p : ProcessId) (file : FileId) :
    Calls env s (fdTableOpen env s' p file).2 := by
  obtain ⟨ok, n, tables, heq⟩ := fdTableOpen_eq env s' p file
  rw [heq]
  exact h.trans (calls_count s' n)

theorem Calls.of_eq {β : Type} {x : β × System} {b : β} {s₁ : System} (h : Calls env s x.2)
    (heq : x = (b, s₁)) : Calls env s s₁ := by
  rw [heq] at h
  exact h

/-! ## Functions that do not wait -/

/-- `file_table_open`. -/
theorem Calls.fileTableOpen (h : Calls env s s') (file : File) :
    IfReturns (fileTableOpen env s' file) fun r => Calls env s r.2 := by
  unfold Ipc.fileTableOpen
  split
  · exact h.kmalloc.of_eq ‹_›
  rename_i s₁ heq₁
  have h₁ : Calls env s s₁ := h.kmalloc.of_eq heq₁
  split
  · exact (h₁.handleTableInsert ..).of_eq ‹_›
  rename_i table s₂ heq₂
  have h₂ : Calls env s s₂ := (h₁.handleTableInsert ..).of_eq heq₂
  dsimp only
  split
  · exact h₂
  · simp only [ensures_bind]
    refine ifReturns_assert ?_
    split
    all_goals
      rename_i s₃ heq₃
      have h₃ : Calls env s s₃ := h₂.kmalloc.kmalloc.of_eq heq₃
      exact h₃

theorem Calls.channelOfPath (h : Calls env s s') (path : String) :
    IfReturns (channelOfPath env s' path) fun r => Calls env s r.2 := by
  unfold Ipc.channelOfPath
  split
  · simp only [ensures_bind]
    exact ifReturns_of_forall _ fun _ => h
  · simp only [channelCreate, ensures_bind]
    refine ifReturns_assert (Ensures.mono (Calls.fileTableOpen (s := s) ?_ _) fun r hr => ?_)
    · exact h.kmalloc
    · split
      · trivial
      · exact hr

theorem Calls.channelFileCreate (h : Calls env s s') (c : ChannelId) (flags : BitVec 32) :
    IfReturns (channelFileCreate env s' c flags) fun r => Calls env s r.2 := by
  unfold Ipc.channelFileCreate
  simp only [ensures_bind]
  refine ifReturns_assert (ifReturns_assert ?_)
  refine Calls.linkedListInsert (s := s) ?_ ..
  exact h.kmalloc

theorem Calls.channelOpen (s : System) (path : Option String) (fd : Word) (flags : BitVec 32) :
    IfReturns (channelOpen env s path fd flags) fun r => Calls env s r.2 := by
  have h : Calls env s s := SchedulerCalls.none
  unfold Ipc.channelOpen
  split
  · exact h
  split
  · exact h
  simp only [ensures_bind]
  refine ifReturns_of_forall _ fun r => ?_
  refine (h.channelOfPath _).mono fun r₁ h₁ => ?_
  refine (h₁.channelFileCreate ..).mono fun r₂ h₂ => ?_
  refine (h₂.fileTableOpen _).mono fun r₃ h₃ => ?_
  split
  · trivial
  · simp only [ensures_bind]
    exact ifReturns_assert (h₃.fdTableOpen ..)

/-- The loop that wakes up: each round is a call of the scheduler. -/
theorem Calls.wakeWaiters (fuel : Nat) (h : Calls env s s') :
    IfReturns (wakeWaiters env fuel s' w) fun s'' => Calls env s s'' := by
  induction fuel generalizing s' with
  | zero =>
    unfold Ipc.wakeWaiters
    split
    · exact h
    · trivial
  | succ fuel ih =>
    unfold Ipc.wakeWaiters
    split
    · exact h
    rename_i t rest hl
    simp only [ensures_bind]
    cases hwake : Scheduler.schedulerWakeUp env s'.kernel t with
    | error f =>
      simp only [linkedListRemoveHead, hwake, callScheduler]
      trivial
    | ok k =>
      simp only [linkedListRemoveHead, hwake, callScheduler]
      have hblocked : (s'.kernel.threads t).state = .blocked := by
        by_contra hstate
        unfold Scheduler.schedulerWakeUp Scheduler.assert at hwake
        rw [decide_eq_false hstate] at hwake
        cases hwake
      have hcall : SchedulerCalls env s.kernel k :=
        SchedulerCalls.call h (a := .wakeUp t) ⟨hblocked, hwake⟩ (by simp)
      exact ih hcall

theorem Calls.fanOut (kind : MessageKind) (sender : EndpointId) (m : MessageId)
    (es : List EndpointId) (h : Calls env s s') :
    IfReturns (fanOut env kind sender m es s') fun s'' => Calls env s s'' := by
  induction es generalizing s' with
  | nil => exact h
  | cons e rest ih =>
    unfold Ipc.fanOut
    split
    · exact ih h
    · simp only [ensures_bind]
      exact ((h.linkedListInsert ..).wakeWaiters _).mono fun s'' h'' => ih h''

theorem Calls.sendMessage (h : Calls env s s') (message : Message) :
    IfReturns (sendMessage env s' message) fun r => Calls env s r.2 := by
  unfold Ipc.sendMessage
  simp only [ensures_bind]
  refine Ensures.mono (Calls.fanOut (s := s) _ _ _ _ ?_) fun s'' h'' => h''
  exact h

theorem Calls.channelFileWrite (s : System) (e : EndpointId) (buffer : UserBuffer) :
    IfReturns (channelFileWrite env s e buffer) fun r => Calls env s r.2 := by
  have h : Calls env s s := SchedulerCalls.none
  unfold Ipc.channelFileWrite
  split
  · exact h
  · simp only [ensures_bind]
    exact ifReturns_assert (ifReturns_assert (h.kmalloc.kmalloc.sendMessage _))

theorem Calls.channelSendFd (s : System) (channelFd fd : Word) (buffer : UserBuffer) :
    IfReturns (channelSendFd env s channelFd fd buffer) fun r => Calls env s r.2 := by
  have h : Calls env s s := SchedulerCalls.none
  unfold Ipc.channelSendFd
  split
  · exact h
  · simp only [ensures_bind]
    refine ifReturns_of_forall _ fun r => ?_
    exact ifReturns_assert (ifReturns_assert (h.kmalloc.kmalloc.sendMessage _))

theorem Calls.channelRecvFdPeek (s : System) (e : EndpointId) :
    IfReturns (channelRecvFdPeek env s e) fun r => Calls env s r.2 := by
  have h : Calls env s s := SchedulerCalls.none
  unfold Ipc.channelRecvFdPeek
  simp only [ensures_bind]
  refine ifReturns_of_forall _ fun r => ?_
  split
  · trivial
  split
  · trivial
  · trivial
  · split
    · trivial
    · trivial
    · simp only [ensures_bind]
      refine ifReturns_assert (Calls.fdTableOpen (s := s) ?_ ..)
      exact h
  · trivial

theorem calls_channelFilePeek (s : System) (e : EndpointId) (buffer : UserBuffer) :
    IfReturns (channelFilePeek s e buffer) fun r => Calls env s r.2 := by
  unfold channelFilePeek
  split
  · trivial
  dsimp only
  split
  · exact SchedulerCalls.none
  · exact SchedulerCalls.none

theorem Calls.inputFileEmit (s : System) (i : InputFileId) (event : Option InputDeviceEvent) :
    IfReturns (inputFileEmit env s i event) fun r => Calls env s r.2 := by
  have h : Calls env s s := SchedulerCalls.none
  unfold Ipc.inputFileEmit
  split
  · exact h
  dsimp only
  split
  · exact h
  · simp only [ensures_bind]
    refine Ensures.mono (Calls.wakeWaiters (s := s) _ ?_) fun s'' h'' => h''
    exact h

theorem calls_inputFileDequeue (s : System) (i : InputFileId) :
    IfReturns (inputFileDequeue s i) fun r => Calls env s r.2 := by
  unfold inputFileDequeue
  split
  · trivial
  · exact SchedulerCalls.none

/-! ## Functions that wait -/

/-- One pass through a waiting loop. -/
theorem calls_waitIn (ht : Running s t) (list : ListAddr) (call : Call) (cpu : CpuRegisters)
    {onFull : System → Except Fault (Outcome × System)}
    (hfull : ∀ s', Calls env s s' → IfReturns (onFull s') fun r => Calls env s r.2) :
    IfReturns (waitIn env s list call cpu onFull) fun r => Calls env s r.2 := by
  have hcount : SchedulerCalls env s.kernel (countKmalloc s.kernel 1) := calls_count s 1
  unfold waitIn
  simp only [ht.1, linkedListInsert_eq]
  cases env.kmallocOk s.kernel.kmallocs with
  | false => exact hfull _ hcount
  | true =>
    simp only [if_true, ensures_bind]
    cases hwait : Scheduler.schedulerWaitForEvent env (countKmalloc s.kernel 1) cpu with
    | error f => trivial
    | ok k =>
      have henabled : Scheduler.Enabled (countKmalloc s.kernel 1) (.waitForEvent cpu) :=
        ⟨t, ht.1, ht.2⟩
      have hcall : SchedulerCalls env s.kernel k := hcount.call ⟨henabled, hwait⟩ (by simp)
      exact hcall

theorem returnRead_kernel (before : System) (e : EndpointId) (r : Outcome × System) :
    (returnRead before e r).2.kernel = r.2.kernel := by
  obtain ⟨outcome, s⟩ := r
  cases outcome <;> rfl

theorem Ensures.returnRead {x : Except Fault (Outcome × System)} (before : System)
    (h : IfReturns x fun r => Calls env s r.2) (e : EndpointId) :
    IfReturns (returnRead before e <$> x) fun r => Calls env s r.2 := by
  rw [IfReturns, ensures_map]
  refine h.mono fun r hr => ?_
  rw [Calls, returnRead_kernel]
  exact hr

theorem calls_channelFileReadLoop (ht : Running s t) (e : EndpointId) (buffer : UserBuffer)
    (cpu : CpuRegisters) :
    IfReturns (channelFileReadLoop env s e buffer cpu) fun r => Calls env s r.2 := by
  unfold channelFileReadLoop
  refine Ensures.returnRead s ?_ e
  split
  · simp only [ensures_bind]
    exact ifReturns_of_forall _ fun _ => calls_waitIn ht _ _ _ fun _ h => h
  · exact calls_channelFilePeek s e buffer

theorem calls_channelFileRead (ht : Running s t) (e : EndpointId) (buffer : UserBuffer)
    (cpu : CpuRegisters) :
    IfReturns (channelFileRead env s e buffer cpu) fun r => Calls env s r.2 := by
  unfold channelFileRead
  split
  · exact SchedulerCalls.none
  split
  · split
    · exact SchedulerCalls.none
    · exact Ensures.returnRead s (calls_channelFilePeek s e buffer) e
  · exact calls_channelFileReadLoop ht e buffer cpu

theorem calls_channelRecvFdLoop (ht : Running s t) (e : EndpointId) (cpu : CpuRegisters) :
    IfReturns (channelRecvFdLoop env s e cpu) fun r => Calls env s r.2 := by
  unfold channelRecvFdLoop
  split
  · simp only [ensures_bind]
    exact ifReturns_of_forall _ fun _ => calls_waitIn ht _ _ _ fun _ h => h
  · exact Calls.channelRecvFdPeek s e

theorem calls_channelRecvFd (ht : Running s t) (channelFd fd : Word) (cpu : CpuRegisters) :
    IfReturns (channelRecvFd env s channelFd fd cpu) fun r => Calls env s r.2 := by
  unfold channelRecvFd
  split
  · exact SchedulerCalls.none
  simp only [ensures_bind]
  refine ifReturns_of_forall _ fun r => ?_
  unfold channelFileRecvFd
  split
  · split
    · exact SchedulerCalls.none
    · exact Calls.channelRecvFdPeek s r.2
  · exact calls_channelRecvFdLoop ht r.2 cpu

theorem calls_inputFileReadLoop (ht : Running s t) (i : InputFileId) (cpu : CpuRegisters) :
    IfReturns (inputFileReadLoop env s i cpu) fun r => Calls env s r.2 := by
  unfold inputFileReadLoop
  split
  · simp only [ensures_bind]
    exact ifReturns_of_forall _ fun _ => calls_waitIn ht _ _ _ fun _ _ => trivial
  · exact calls_inputFileDequeue s i

theorem calls_inputFileRead (ht : Running s t) (i : InputFileId) (buffer : UserBuffer)
    (cpu : CpuRegisters) :
    IfReturns (inputFileRead env s i buffer cpu) fun r => Calls env s r.2 := by
  unfold inputFileRead
  split
  · exact SchedulerCalls.none
  split
  · exact SchedulerCalls.none
  split
  · split
    · exact SchedulerCalls.none
    · exact calls_inputFileDequeue s i
  · exact calls_inputFileReadLoop ht i cpu

/-! ## Steps -/

theorem calls_perform (ht : Running s t) (cpu : CpuRegisters) (r : Request) :
    IfReturns (perform env s cpu r) fun x => Calls env s x.2 := by
  cases r with
  | channelOpen path fd flags => exact Calls.channelOpen s path fd flags
  | write e buffer => exact Calls.channelFileWrite s e buffer
  | read e buffer => exact calls_channelFileRead ht e buffer cpu
  | sendFd channelFd fd buffer => exact Calls.channelSendFd s channelFd fd buffer
  | recvFd channelFd fd => exact calls_channelRecvFd ht channelFd fd cpu
  | emit i event => exact Calls.inputFileEmit s i event
  | inputRead i buffer => exact calls_inputFileRead ht i buffer cpu

theorem calls_schedule {x : Except Scheduler.Fault Kernel}
    (h : ∀ k, x = .ok k → SchedulerCalls env s.kernel k) :
    IfReturns (schedule s x) (Calls env s) := by
  cases x with
  | error f => trivial
  | ok k => exact h k rfl

/-- A step of the system is a sequence of calls of the scheduler. -/
theorem step_calls (hstep : Step env s a s') : Calls env s s' := by
  obtain ⟨ha, hexec⟩ := hstep
  -- an action that is one call
  have hcall : ∀ {b : Scheduler.Action} {k : Kernel}, Scheduler.Enabled s.kernel b →
      (b = .run → s.kernel.currentThread = none) → Scheduler.exec env s.kernel b = .ok k →
      SchedulerCalls env s.kernel k := fun hb hrun hk => SchedulerCalls.none.call ⟨hb, hk⟩ hrun
  cases a with
  | boot =>
    exact (calls_schedule fun k hk =>
      hcall (b := .run) trivial (fun _ => ha) hk).result hexec
  | threadStart t =>
    exact (calls_schedule fun k hk => hcall (b := .threadStart t) ha (by simp) hk).result hexec
  | yield frame =>
    obtain ⟨t, hcur, ht, -⟩ := ha
    exact (calls_schedule fun k hk =>
      hcall (b := .yield frame) ⟨t, hcur, ht⟩ (by simp) hk).result hexec
  | terminate =>
    obtain ⟨t, hcur, ht, -⟩ := ha
    exact (calls_schedule fun k hk =>
      hcall (b := .terminate) ⟨t, hcur, ht⟩ (by simp) hk).result hexec
  | request r cpu =>
    obtain ⟨⟨t, hcur, ht, -⟩, -⟩ := ha
    exact (ensures_map.mpr (calls_perform ⟨hcur, ht⟩ cpu r)).result hexec
  | resume cpu =>
    obtain ⟨t, hcur, ht, hcalls⟩ := ha
    obtain ⟨call, hcall'⟩ := Option.ne_none_iff_exists'.mp hcalls
    have hcurrent : currentCall s = some call := by simp [currentCall, hcur, hcall']
    have hclear : clearCall s = { s with calls := Function.update s.calls t none } := by
      simp [clearCall, hcur]
    have hrunning : Running (clearCall s) t := by
      rw [hclear]
      exact ⟨hcur, ht⟩
    have hkernel : (clearCall s).kernel = s.kernel := by rw [hclear]
    unfold exec at hexec
    simp only [hcurrent] at hexec
    have hresumed : IfReturns (resumeCall env (clearCall s) cpu call)
        fun r => Calls env (clearCall s) r.2 := by
      cases call with
      | read e buffer => exact calls_channelFileReadLoop hrunning e buffer cpu
      | recvFd e => exact calls_channelRecvFdLoop hrunning e cpu
      | inputRead i => exact calls_inputFileReadLoop hrunning i cpu
    have hmap := (ensures_map (f := Prod.snd) (R := Calls env (clearCall s))).mpr hresumed
    have hcalls' := hmap.result hexec
    rw [Calls, hkernel] at hcalls'
    exact hcalls'

theorem run_calls {history : List (System × Action)} (h : Run (· = s) (Step env) history s') :
    Calls env s s' := by
  induction h with
  | start heq => exact heq ▸ SchedulerCalls.none
  | next _ hstep ih => exact ih.trans (step_calls hstep)

theorem run_accounted {history : List (System × Action)} (hk : ∀ n, env.kmallocOk n = true)
    (h : Run Init (Step env) history s) : Accounted s.kernel := by
  induction h with
  | start hinit =>
    intro t ht
    rw [hinit.kernel.trace] at ht
    cases ht
  | next hrun hstep ih => exact (step_calls hstep).accounted hk (run_inv hrun).kernel ih

/-! ## The property -/

/-- How a started thread stands. In the queue it has fewer others before it than
threads have been started, and its turn comes after theirs, whatever happens
next. -/
inductive Standing (env : Scheduler.Env) (s : System) (t : ThreadId) : Prop
  | runs : s.kernel.currentThread = some t → Standing env s t
  | queued (k : Nat) : s.kernel.queued[k]? = some t →
      k < (Scheduler.enqueued s.kernel.trace).dedup.length →
      (∀ later s', Run (· = s) (Step env) later s' →
        HasTurn Kernel.queued turnsTaken k t s.kernel s'.kernel) → Standing env s t
  | waits (w : ListAddr) : w.IsWaiters → t ∈ s.lists w → ¬ Pending s w → Standing env s t
  | ended : (s.kernel.threads t).state = .terminated → Standing env s t

theorem SystemInv.standing (h : SystemInv s) (haccounted : Accounted s.kernel)
    (ht : t ∈ Scheduler.enqueued s.kernel.trace) : Standing env s t := by
  rcases haccounted t ht with hcur | hqueued | hblocked | hended
  · exact .runs hcur
  · obtain ⟨k, hk⟩ := List.mem_iff_getElem?.mp hqueued
    refine .queued k hk ?_ fun later s' hrun => ((run_calls hrun).moves h.kernel).waits hk
    have hsub : s.kernel.queued ⊆ (Scheduler.enqueued s.kernel.trace).dedup := fun u hu =>
      List.mem_dedup.mpr (h.kernel.queued_enqueued hu)
    have hlength := (h.kernel.queued_nodup.subperm hsub).length_le
    have hlt := (List.getElem?_eq_some_iff.mp hk).1
    omega
  · obtain ⟨w, hw, hmem⟩ := (h.blocked_iff t).mp hblocked
    refine .waits w hw hmem fun hpending => ?_
    rw [h.nobody_waits w hpending] at hmem
    cases hmem
  · exact .ended hended

/-- With nodes for the run queue, a started thread runs, or has its turn after
those before it, or waits where nothing is pending, or has ended. -/
theorem nobody_is_forgotten (env : Scheduler.Env) (hk : ∀ n, env.kmallocOk n = true)
    (history : List (System × Action)) (s : System) (h : Run Init (Step env) history s)
    (t : ThreadId) (ht : t ∈ Scheduler.enqueued s.kernel.trace) : Standing env s t :=
  (run_inv h).standing (run_accounted hk h) ht

/-- Thread 1 has waited for a message that is there now, and is in the queue. -/
theorem waitAndSend_standing : ∃ s, s.kernel.queued = [1] ∧
    s.kernel.currentThread = some 2 ∧ Standing Scheduler.bootEnv s 1 := by
  obtain ⟨history, s, hrun, hend⟩ := booted_run
    (openTwo ++ [.request (.read 1 (buffer 3)) cpu, .request (.write 0 (buffer 3)) cpu])
    (fun s => decide (s.kernel.queued = [1] ∧ s.kernel.currentThread = some 2 ∧
      1 ∈ Scheduler.enqueued s.kernel.trace)) (by decide +kernel)
  obtain ⟨hqueued, hcur, ht⟩ := of_decide_eq_true hend
  exact ⟨s, hqueued, hcur, nobody_is_forgotten Scheduler.bootEnv (fun _ => rfl) history s hrun 1 ht⟩

end

end ZOs.Ipc
