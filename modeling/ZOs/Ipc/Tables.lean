import ZOs.Ipc.Steps
import ZOs.Sched.Machine

/-!
# The tables only grow

No step takes a file out of the file table or a descriptor out of a table
of a process, and no thread changes its process: nothing that is in use
calls `file_table_close` or `fd_table_close`. `Carries` says so for two
states, and is proved for each function from those it calls.
-/

namespace ZOs.Ipc

open Scheduler (ThreadId ProcessId Kernel Word CpuRegisters)
open Checked

/-- What one state has of files, descriptors and processes, the other has
too; a thread that has come to wait for a descriptor is one of a process. -/
structure Carries (s s' : System) : Prop where
  fileTable : s.fileTable.handles <+: s'.fileTable.handles
  fdTables : ∀ p, (s.fdTables p).handles <+: (s'.fdTables p).handles
  processHandles : s'.processHandles = s.processHandles
  process : ∀ t, (s'.kernel.threads t).process = (s.kernel.threads t).process
  calls : ∀ t e, s'.calls t = some (.recvFd e) →
    s.calls t = some (.recvFd e) ∨ (s.kernel.threads t).process ≠ none

/-- If the computation returns, the state it leaves carries what `s` has. -/
abbrev Keeps {α : Type} (s : System) (x : Except Fault α) (state : α → System) : Prop :=
  Ensures (fun _ => True) x fun a => Carries s (state a)

section
variable {env : Scheduler.Env} {s s' s₁ : System} {kind : MessageKind} {e : EndpointId}
  {cpu : CpuRegisters} {buffer : UserBuffer} {i : InputFileId}

@[simp] theorem Carries.refl (s : System) : Carries s s :=
  ⟨List.prefix_rfl, fun _ => List.prefix_rfl, rfl, fun _ => rfl, fun _ _ h => .inl h⟩

theorem Carries.trans (h : Carries s s₁) (h' : Carries s₁ s') : Carries s s' where
  fileTable := h.fileTable.trans h'.fileTable
  fdTables p := (h.fdTables p).trans (h'.fdTables p)
  processHandles := h'.processHandles.trans h.processHandles
  process t := (h'.process t).trans (h.process t)
  calls t e hcall := by
    rcases h'.calls t e hcall with hcall | hp
    · exact h.calls t e hcall
    · rw [h.process] at hp
      exact .inr hp

/-- What follows a computation may start from the state it leaves. -/
theorem keeps_bind {α β : Type} {x : Except Fault α} {state : α → System}
    {f : α → Except Fault β} {state' : β → System} (hx : Keeps s x state)
    (hf : ∀ a, Keeps (state a) (f a) state') : Keeps s (x >>= f) state' := by
  apply ensures_bind.mpr
  apply hx.mono
  intro a ha
  exact (hf a).mono fun _ hb => ha.trans hb

theorem keeps_assert {β : Type} {condition : Bool} {text : String} {f : Unit → Except Fault β}
    {state : β → System} (hf : Keeps s (f ()) state) :
    Keeps s (assert condition text >>= f) state := by
  cases condition with
  | true => exact hf
  | false => trivial

/-- Other lists, messages, files of channels or records. -/
theorem carries_of_eq (hf : s'.fileTable = s.fileTable) (hd : s'.fdTables = s.fdTables)
    (hp : s'.processHandles = s.processHandles) (hk : s'.kernel.threads = s.kernel.threads)
    (hc : s'.calls = s.calls) : Carries s s' := by
  refine ⟨?_, fun p => ?_, hp, fun t => ?_, fun t e hcall => ?_⟩
  · rw [hf]
  · rw [hd]
  · rw [hk]
  · rw [hc] at hcall
    exact .inl hcall

theorem Carries.of_eq (h : Carries s₁ s') (hf : s₁.fileTable = s.fileTable)
    (hd : s₁.fdTables = s.fdTables) (hp : s₁.processHandles = s.processHandles)
    (hk : s₁.kernel.threads = s.kernel.threads) (hc : s₁.calls = s.calls) : Carries s s' :=
  (carries_of_eq hf hd hp hk hc).trans h

/-! ## The scheduler -/

theorem steady_process : Scheduler.Steady fun th : Scheduler.Thread => th.process :=
  fun _ _ _ => rfl

theorem modifyThread_process {k : Kernel} {t : ThreadId} {f : Scheduler.Thread → Scheduler.Thread}
    (hf : ∀ th, (f th).process = th.process) (u : ThreadId) :
    ((k.modifyThread t f).threads u).process = (k.threads u).process :=
  Scheduler.modifyThread_keeps (fun th => th.process) f (hf _) u

theorem schedulerWakeUp_process {k k' : Kernel} {t : ThreadId}
    (h : Scheduler.schedulerWakeUp env k t = .ok k') (u : ThreadId) :
    (k'.threads u).process = (k.threads u).process := by
  obtain ⟨_, -, hrest⟩ := Scheduler.bind_ok h
  obtain ⟨⟨r, k₁⟩, hadd, hret⟩ := Scheduler.bind_ok hrest
  cases hret
  apply (Scheduler.addThread_keeps steady_process hadd u).trans
  apply modifyThread_process
  intro th
  rfl

theorem schedulerWaitForEvent_process {k k' : Kernel}
    (h : Scheduler.schedulerWaitForEvent env k cpu = .ok k') (u : ThreadId) :
    (k'.threads u).process = (k.threads u).process := by
  unfold Scheduler.schedulerWaitForEvent at h
  split at h
  · cases h
  · rename_i t _
    apply (Scheduler.schedulerRun_keeps steady_process h u).trans
    show ((k.modifyThread t fun th => th.block cpu).threads u).process = _
    apply modifyThread_process
    intro th
    rfl

theorem carries_kernel {k : Kernel}
    (h : ∀ t, (k.threads t).process = (s.kernel.threads t).process) :
    Carries s { s with kernel := k } :=
  ⟨List.prefix_rfl, fun _ => List.prefix_rfl, rfl, h, fun _ _ hcall => .inl hcall⟩

theorem keeps_scheduler {x : Except Scheduler.Fault Kernel}
    (h : ∀ k, x = .ok k → ∀ t, (k.threads t).process = (s.kernel.threads t).process) :
    Keeps s (callScheduler x) fun k => { s with kernel := k } := by
  cases x with
  | error f => trivial
  | ok k => exact carries_kernel (h k rfl)

/-! ## Memory and lists -/

theorem linkedListInsert_carries (env : Scheduler.Env) (s : System) (list : ListAddr) (data : Nat) :
    Carries s (linkedListInsert env s list data).2 := by
  unfold linkedListInsert kmalloc
  cases env.kmallocOk s.kernel.kmallocs <;> exact carries_of_eq rfl rfl rfl rfl rfl

theorem wakeWaiters_keeps (w : ListAddr) (fuel : Nat) :
    ∀ s, Keeps s (wakeWaiters env fuel s w) id := by
  induction fuel with
  | zero =>
    intro s
    unfold wakeWaiters
    split
    · exact .refl s
    · trivial
  | succ fuel ih =>
    intro s
    unfold wakeWaiters
    split
    · exact .refl s
    · have hremove : Carries s (linkedListRemoveHead s w) := carries_of_eq rfl rfl rfl rfl rfl
      apply ensures_bind.mpr
      apply (keeps_scheduler (s := linkedListRemoveHead s w)
        fun k hk => schedulerWakeUp_process hk).mono
      intro k hk
      exact (ih _).mono fun _ hrest => (hremove.trans hk).trans hrest

theorem fanOut_keeps (kind : MessageKind) (sender : EndpointId) (m : MessageId)
    (es : List EndpointId) : ∀ s, Keeps s (fanOut env kind sender m es s) id := by
  induction es with
  | nil => exact fun s => .refl s
  | cons e es ih =>
    intro s
    unfold fanOut
    split
    · exact ih s
    · have hinsert := linkedListInsert_carries env s (.messages kind e) m
      refine ((keeps_bind (@wakeWaiters_keeps env _ _ _) ih).mono ?_)
      exact fun _ hrest => hinsert.trans hrest

/-! ## The tables -/

theorem fdTableOpen_carries (env : Scheduler.Env) (s : System) (p : ProcessId) (file : FileId) :
    Carries s (fdTableOpen env s p file).2 := by
  obtain ⟨result, n, heq, htable⟩ := handleTableInsert_eq env s (s.fdTables p) file
  unfold fdTableOpen
  rw [heq]
  cases result with
  | none => exact carries_of_eq rfl rfl rfl rfl rfl
  | some table =>
    refine ⟨List.prefix_rfl, fun q => ?_, rfl, fun _ => rfl, fun _ _ hcall => .inl hcall⟩
    show _ <+: (Function.update s.fdTables p table q).handles
    by_cases hq : q = p
    · rw [hq, Function.update_self, htable table rfl]
      exact List.prefix_append ..
    · rw [Function.update_of_ne hq]

theorem carries_fileTable {table : HandleTable File} {kernel : Kernel}
    (htable : s.fileTable.handles <+: table.handles)
    (hk : kernel.threads = s.kernel.threads) :
    Carries s { s with kernel, fileTable := table } :=
  ⟨htable, fun _ => List.prefix_rfl, rfl, fun t => by rw [hk], fun _ _ hcall => .inl hcall⟩

theorem fileTableOpen_keeps (env : Scheduler.Env) (s : System) (file : File) :
    Keeps s (fileTableOpen env s file) Prod.snd := by
  obtain ⟨result, n, heq, htable⟩ := handleTableInsert_eq env (kmalloc env s).2 s.fileTable file
  unfold fileTableOpen
  rw [kmalloc_eq]
  cases env.kmallocOk s.kernel.kmallocs with
  | false => exact carries_of_eq rfl rfl rfl rfl rfl
  | true =>
    dsimp only
    rw [kmalloc_eq] at heq
    change handleTableInsert env _ s.fileTable file = _ at heq
    rw [heq]
    cases result with
    | none => exact carries_of_eq rfl rfl rfl rfl rfl
    | some table =>
      have hprefix : s.fileTable.handles <+: table.handles := by
        rw [htable table rfl]
        exact List.prefix_append ..
      cases file.path with
      | none => exact carries_fileTable hprefix rfl
      | some path =>
        dsimp only
        rw [kmalloc_eq]
        apply keeps_assert
        rw [kmalloc_eq]
        split
        · rename_i hkmalloc
          obtain ⟨-, rfl⟩ := Prod.mk.inj hkmalloc
          show Carries s { s with kernel := _, fileTable := _ }
          exact carries_fileTable (List.prefix_append ..) rfl
        · rename_i hkmalloc
          obtain ⟨-, rfl⟩ := Prod.mk.inj hkmalloc
          show Carries s { s with kernel := _, fileTable := _ }
          exact carries_fileTable hprefix rfl

/-! ## The calls -/

theorem currentProcess_keeps {β : Type} {f : ThreadId × ProcessId → Except Fault β}
    {state : β → System} (hf : ∀ r, Keeps s (f r) state) :
    Keeps s (currentProcess s >>= f) state :=
  ensures_bind.mpr ((show Ensures _ _ _ by
    cases currentProcess s <;> trivial).mono fun r (_ : True) => hf r)

theorem channelOfPath_keeps (path : String) :
    Keeps s (channelOfPath env s path) Prod.snd := by
  unfold channelOfPath
  split
  · apply ensures_bind.mpr
    cases sourceChannelOf s _ with
    | error f => trivial
    | ok c => exact .refl s
  · unfold channelCreate
    apply ensures_bind.mpr
    rw [kmalloc_eq]
    apply keeps_assert
    apply ensures_bind.mpr
    apply (fileTableOpen_keeps env _ _).mono
    rintro ⟨handle, s₁⟩ h
    have hs₁ : Carries s s₁ := h.of_eq rfl rfl rfl rfl rfl
    cases handle with
    | none => trivial
    | some handle => exact hs₁

theorem channelFileCreate_keeps (c : ChannelId) (flags : BitVec 32) :
    Keeps s (channelFileCreate env s c flags) Prod.snd := by
  unfold channelFileCreate
  rw [kmalloc_eq]
  apply keeps_assert
  dsimp only
  apply keeps_assert
  exact (linkedListInsert_carries env _ (.endpoints c) s.channelFileCount).of_eq rfl rfl rfl rfl rfl

theorem channelOpen_keeps (path : Option String) (fd : Word) (flags : BitVec 32) :
    Keeps s (channelOpen env s path fd flags) Prod.snd := by
  unfold channelOpen
  cases path with
  | none => exact .refl s
  | some path =>
    dsimp only
    split
    · exact .refl s
    · apply currentProcess_keeps
      intro ⟨_, p⟩
      apply keeps_bind (channelOfPath_keeps path)
      intro ⟨c, s₁⟩
      apply keeps_bind (channelFileCreate_keeps c flags)
      intro ⟨e, s₂⟩
      apply keeps_bind (fileTableOpen_keeps env s₂ _)
      intro ⟨file, s₃⟩
      cases file with
      | none => trivial
      | some file =>
        apply keeps_assert
        exact fdTableOpen_carries env s₃ p file

theorem sendMessage_keeps (message : Message) : Keeps s (sendMessage env s message) Prod.snd := by
  unfold sendMessage newMessage
  apply ensures_bind.mpr
  apply (@fanOut_keeps env _ _ _ _ _).mono
  intro s₁ h
  exact h.of_eq rfl rfl rfl rfl rfl

theorem send_keeps (message : Message) {x : System → Except Fault (Outcome × System)}
    {text text' : String} (hx : x = fun s => sendMessage env s message) :
    Keeps s (do
      let (ok, s) := kmalloc env s
      assert ok text
      let (ok, s) := kmalloc env s
      assert ok text'
      x s) Prod.snd := by
  subst hx
  rw [kmalloc_eq]
  apply keeps_assert
  rw [kmalloc_eq]
  apply keeps_assert
  apply (sendMessage_keeps message).mono
  intro r h
  exact h.of_eq rfl rfl rfl rfl rfl

theorem channelFileWrite_keeps : Keeps s (channelFileWrite env s e buffer) Prod.snd := by
  unfold channelFileWrite
  split
  · exact .refl s
  · exact send_keeps _ rfl

/-- A call that looks up a descriptor is made by a thread of a process. -/
theorem channelFileOf_ok {channelFd : Word} {p : ProcessId}
    (h : channelFileOf s channelFd = .ok (p, e)) :
    ∃ t, currentProcess s = .ok (t, p) ∧ s.kernel.currentThread = some t ∧
      (s.kernel.threads t).process = some p := by
  obtain ⟨⟨t, q⟩, hcur, hrest⟩ : ∃ r, currentProcess s = .ok r ∧ _ := by
    cases hcur : currentProcess s with
    | error f =>
      unfold channelFileOf at h
      rw [hcur] at h
      cases h
    | ok r => exact ⟨r, rfl, h⟩
  have hq : q = p := by
    unfold channelFileOf at hrest
    rw [hcur] at hrest
    dsimp only [bind, Except.bind] at hrest
    split at hrest
    · cases hrest
    · cases hrest
    · split at hrest
      · cases hrest
        rfl
      · cases hrest
  rw [← hq]
  refine ⟨t, hcur, ?_⟩
  unfold currentProcess at hcur
  split at hcur
  · cases hcur
  · rename_i t' ht
    split at hcur
    · cases hcur
    · rename_i p' hp
      cases hcur
      exact ⟨ht, hp⟩

theorem channelFileOf_keeps {β : Type} {channelFd : Word}
    {f : ProcessId × EndpointId → Except Fault β} {state : β → System}
    (hf : ∀ p e, channelFileOf s channelFd = .ok (p, e) → Keeps s (f (p, e)) state) :
    Keeps s (channelFileOf s channelFd >>= f) state := by
  apply ensures_bind.mpr
  cases hfile : channelFileOf s channelFd with
  | error f => trivial
  | ok r => exact hf r.1 r.2 hfile

theorem channelSendFd_keeps (channelFd fd : Word) :
    Keeps s (channelSendFd env s channelFd fd buffer) Prod.snd := by
  unfold channelSendFd
  split
  · exact .refl s
  · apply channelFileOf_keeps
    intro p e _
    exact send_keeps _ rfl

theorem takeMessage_carries (kind : MessageKind) (e : EndpointId) (m : MessageId) :
    Carries s (takeMessage s kind e m).2 :=
  carries_of_eq rfl rfl rfl rfl rfl

theorem returnRead_carries (before : System) (e : EndpointId) (r : Outcome × System) :
    Carries r.2 (returnRead before e r).2 := by
  obtain ⟨outcome, s⟩ := r
  cases outcome with
  | returned value copied => exact carries_of_eq rfl rfl rfl rfl rfl
  | blocked => exact .refl s

theorem channelFilePeek_keeps : Keeps s (channelFilePeek s e buffer) Prod.snd := by
  unfold channelFilePeek
  split
  · trivial
  · dsimp only
    split <;> exact carries_of_eq rfl rfl rfl rfl rfl

/-- The thread that runs belongs to a process. -/
def OfProcess (s : System) : Prop :=
  ∀ t, s.kernel.currentThread = some t → (s.kernel.threads t).process ≠ none

theorem waitIn_keeps {list : ListAddr} {call : Call}
    {onFull : System → Except Fault (Outcome × System)}
    (hcall : (∀ e, call ≠ .recvFd e) ∨ OfProcess s)
    (hfull : ∀ s, Keeps s (onFull s) Prod.snd) :
    Keeps s (waitIn env s list call cpu onFull) Prod.snd := by
  unfold waitIn
  split
  · trivial
  · rename_i t ht
    have hinsert := linkedListInsert_carries env s list t
    split
    · rename_i heq
      rw [heq] at hinsert
      exact (hfull _).mono fun _ hrest => hinsert.trans hrest
    · rename_i heq
      rw [heq] at hinsert
      apply ensures_bind.mpr
      apply (keeps_scheduler fun k hk => schedulerWaitForEvent_process hk).mono
      intro k hk
      apply (hinsert.trans hk).trans
      refine ⟨List.prefix_rfl, fun _ => List.prefix_rfl, rfl, fun _ => rfl, ?_⟩
      intro u e hu
      change (Function.update _ t (some call) : ThreadId → Option Call) u = _ at hu
      by_cases hut : u = t
      · rw [hut, Function.update_self] at hu
        rcases hcall with hcall | hp
        · exact absurd (Option.some.inj hu) (hcall e)
        · refine .inr ?_
          rw [(hinsert.trans hk).process, hut]
          exact hp t ht
      · rw [Function.update_of_ne hut] at hu
        exact .inl hu

theorem assertRunning_keeps {β : Type} {f : Unit → Except Fault β} {state : β → System}
    (hf : Keeps s (f ()) state) : Keeps s (assertRunning s >>= f) state := by
  unfold assertRunning
  split
  · trivial
  · exact keeps_assert hf

theorem channelFileReadLoop_keeps : Keeps s (channelFileReadLoop env s e buffer cpu) Prod.snd := by
  unfold channelFileReadLoop
  apply ensures_map.mpr
  have hreturn : ∀ r : Outcome × System, Carries s r.2 → Carries s (returnRead s e r).2 :=
    fun r hr => hr.trans (returnRead_carries s e r)
  split
  · apply assertRunning_keeps
    have hwait : Keeps s (waitIn env s (.recvWaiters .data e) (.read e buffer) cpu
        fun s => .ok (.returned (-1) none, s)) Prod.snd :=
      waitIn_keeps (.inl (by simp)) fun s => Carries.refl s
    exact hwait.mono hreturn
  · exact channelFilePeek_keeps.mono hreturn

theorem channelFileRead_keeps : Keeps s (channelFileRead env s e buffer cpu) Prod.snd := by
  unfold channelFileRead
  split
  · exact returnRead_carries s e (.returned (-1) none, s)
  · split
    · split
      · exact returnRead_carries s e (.returned (-1) none, s)
      · apply ensures_map.mpr
        exact channelFilePeek_keeps.mono fun r hr => hr.trans (returnRead_carries s e r)
    · exact channelFileReadLoop_keeps

theorem channelRecvFdPeek_keeps : Keeps s (channelRecvFdPeek env s e) Prod.snd := by
  unfold channelRecvFdPeek
  apply currentProcess_keeps
  intro ⟨_, p⟩
  dsimp only
  split
  · trivial
  · split
    · trivial
    · trivial
    · split
      · trivial
      · trivial
      · apply keeps_assert
        have hlog : ∀ events, Carries s (logHeap s events) :=
          fun _ => carries_of_eq rfl rfl rfl rfl rfl
        exact ((hlog _).trans (fdTableOpen_carries env _ p _)).trans (takeMessage_carries ..)
    · trivial

theorem channelRecvFdLoop_keeps (hp : OfProcess s) :
    Keeps s (channelRecvFdLoop env s e cpu) Prod.snd := by
  unfold channelRecvFdLoop
  split
  · apply assertRunning_keeps
    exact waitIn_keeps (.inr hp) fun s => Carries.refl s
  · exact channelRecvFdPeek_keeps

theorem channelFileRecvFd_keeps (hp : OfProcess s) :
    Keeps s (channelFileRecvFd env s e cpu) Prod.snd := by
  unfold channelFileRecvFd
  split
  · split
    · exact Carries.refl s
    · exact channelRecvFdPeek_keeps
  · exact channelRecvFdLoop_keeps hp

theorem channelRecvFd_keeps (channelFd fd : Word) :
    Keeps s (channelRecvFd env s channelFd fd cpu) Prod.snd := by
  unfold channelRecvFd
  split
  · exact .refl s
  · apply channelFileOf_keeps
    intro p e hfile
    apply channelFileRecvFd_keeps
    intro t ht
    obtain ⟨t', -, ht', hp⟩ := channelFileOf_ok hfile
    cases ht.symm.trans ht'
    rw [hp]
    exact Option.some_ne_none p

theorem inputFileEmit_keeps (event : Option InputDeviceEvent) :
    Keeps s (inputFileEmit env s i event) Prod.snd := by
  unfold inputFileEmit
  split
  · exact .refl s
  · dsimp only
    split
    · exact .refl s
    · apply ensures_bind.mpr
      apply (@wakeWaiters_keeps env _ _ _).mono
      intro s₁ h
      exact h.of_eq rfl rfl rfl rfl rfl

theorem inputFileDequeue_keeps : Keeps s (inputFileDequeue s i) Prod.snd := by
  unfold inputFileDequeue
  split
  · trivial
  · exact carries_of_eq rfl rfl rfl rfl rfl

theorem inputFileReadLoop_keeps : Keeps s (inputFileReadLoop env s i cpu) Prod.snd := by
  unfold inputFileReadLoop
  split
  · apply currentProcess_keeps
    intro _
    exact waitIn_keeps (.inl (by simp)) fun s => trivial
  · exact inputFileDequeue_keeps

theorem inputFileRead_keeps : Keeps s (inputFileRead env s i buffer cpu) Prod.snd := by
  unfold inputFileRead
  split
  · exact .refl s
  · split
    · exact .refl s
    · split
      · split
        · exact .refl s
        · exact inputFileDequeue_keeps
      · exact inputFileReadLoop_keeps

theorem perform_keeps (r : Request) : Keeps s (perform env s cpu r) Prod.snd := by
  cases r with
  | channelOpen path fd flags => exact channelOpen_keeps path fd flags
  | write e buffer => exact channelFileWrite_keeps
  | read e buffer => exact channelFileRead_keeps
  | sendFd channelFd fd buffer => exact channelSendFd_keeps channelFd fd
  | recvFd channelFd fd => exact channelRecvFd_keeps channelFd fd
  | emit i event => exact inputFileEmit_keeps event
  | inputRead i buffer => exact inputFileRead_keeps

theorem resumeCall_keeps (call : Call) (hp : ∀ e, call = .recvFd e → OfProcess s) :
    Keeps s (resumeCall env s cpu call) Prod.snd := by
  cases call with
  | read e buffer => exact channelFileReadLoop_keeps
  | recvFd e => exact channelRecvFdLoop_keeps (hp e rfl)
  | inputRead i => exact inputFileReadLoop_keeps

theorem clearCall_carries (s : System) : Carries s (clearCall s) := by
  unfold clearCall
  split
  · exact .refl s
  · rename_i t _
    refine ⟨List.prefix_rfl, fun _ => List.prefix_rfl, rfl, fun _ => rfl, ?_⟩
    intro u e hu
    change Function.update s.calls t none u = _ at hu
    by_cases hut : u = t
    · rw [hut, Function.update_self] at hu
      cases hu
    · rw [Function.update_of_ne hut] at hu
      exact .inl hu

/-- Every thread that waits for a descriptor belongs to a process. -/
def WaitersOfProcesses (s : System) : Prop :=
  ∀ t e, s.calls t = some (.recvFd e) → (s.kernel.threads t).process ≠ none

/-- Every action keeps what there is. -/
theorem exec_keeps (h : WaitersOfProcesses s) (a : Action) : Keeps s (exec env s a) id := by
  have hschedule : ∀ {x : Except Scheduler.Fault Kernel},
      (∀ k, x = .ok k → ∀ t, (k.threads t).process = (s.kernel.threads t).process) →
        Keeps s (schedule s x) id := by
    intro x hx
    apply ensures_bind.mpr
    exact (keeps_scheduler hx).mono fun _ h => h
  cases a with
  | boot => exact hschedule fun k hk => Scheduler.schedulerRun_keeps steady_process hk
  | threadStart t =>
    apply hschedule
    intro k hk
    obtain ⟨⟨r, k'⟩, hadd, rfl⟩ := Scheduler.map_ok hk
    exact Scheduler.addThread_keeps steady_process hadd
  | yield frame =>
    apply hschedule
    intro k hk u
    unfold Scheduler.schedulerYield at hk
    split at hk
    · cases hk
    · obtain ⟨⟨r, k₁⟩, hadd, hrun⟩ := Scheduler.bind_ok hk
      apply (Scheduler.schedulerRun_keeps steady_process hrun u).trans
      apply (Scheduler.addThread_keeps steady_process hadd u).trans
      apply modifyThread_process
      intro th
      rfl
  | terminate =>
    apply hschedule
    intro k hk u
    unfold Scheduler.schedulerTerminate at hk
    split at hk
    · cases hk
    · rename_i t _
      apply (Scheduler.schedulerRun_keeps steady_process hk u).trans
      show ((s.kernel.modifyThread t Scheduler.Thread.terminate).threads u).process = _
      apply modifyThread_process
      intro th
      rfl
  | request r cpu => exact ensures_map.mpr (perform_keeps r)
  | resume cpu =>
    unfold exec
    dsimp only
    split
    · exact .refl s
    · rename_i call hcur
      apply ensures_map.mpr
      refine (resumeCall_keeps call ?_).mono fun _ h => (clearCall_carries s).trans h
      rintro e rfl t ht
      obtain ⟨u, hu, hcall⟩ := Option.bind_eq_some_iff.mp hcur
      have hkernel : (clearCall s).kernel = s.kernel := by
        unfold clearCall
        split <;> rfl
      rw [hkernel] at ht ⊢
      cases hu.symm.trans ht
      exact h t e hcall

theorem Step.carries {a : Action} (hwait : WaitersOfProcesses s) (h : Step env s a s') :
    Carries s s' ∧ WaitersOfProcesses s' := by
  have hcarries : Carries s s' := (exec_keeps hwait a).result h.2
  refine ⟨hcarries, ?_⟩
  intro t e hcall
  rw [hcarries.process]
  rcases hcarries.calls t e hcall with hcall | hp
  · exact hwait t e hcall
  · exact hp

end

end ZOs.Ipc
