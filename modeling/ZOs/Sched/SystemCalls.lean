import ZOs.Sched.KernelStack

/-!
# System calls

The wrappers of `libz/syscall.h` put a number and arguments into registers;
`handle_sync_exception` and `syscall_handler` take them out of the exception
frame. What a wrapper asked for is what its handler is called with, and when
the handler returns the thread goes on with all that it had at the `svc`, but
for the result in `x0` (`system_call_returns`), no matter what has run while
it waited.
-/

namespace ZOs.Scheduler

open Runs A64

/-! ## The wrappers and the handler -/

/-- The system calls with their arguments, as the wrappers take them. Pointers
and handles are words. -/
inductive SystemCall
  | consoleWrite (message : Word)
  | yield
  | exit
  | mmap (address length flags fd : Word)
  | munmap (address length : Word)
  | shmOpen (path size fd : Word)
  | shmUnlink (path : Word)
  | channelOpen (path fd : Word) (flags : BitVec 32)
  | channelClose (fd : Word)
  | channelSend (fd data size : Word)
  | channelRecv (fd data size : Word)
  | channelSendFd (channelFd fd data size : Word)
  | channelRecvFd (channelFd fd data size : Word)
  | shutdown
  | open (path fd : Word) (flags : BitVec 32)
  | read (fd buffer size : Word)
  | write (fd buffer size : Word)
  | close (fd : Word)
  | getTimeNs
  | getTimeMs
  | processGetHandle
  deriving DecidableEq

/-- `syscall_call` before its `svc`. -/
def syscallCall (syscallIdx arg0 arg1 arg2 arg3 arg4 arg5 : Word) (c : Cpu) : Cpu :=
  let c := c.set 0 arg0
  let c := c.set 1 arg1
  let c := c.set 2 arg2
  let c := c.set 3 arg3
  let c := c.set 4 arg4
  let c := c.set 5 arg5
  c.set 8 syscallIdx

/-- The wrappers `syscall_console_write` and so on. An `int` is converted to
`uint64_t` with its sign. -/
def SystemCall.wrapper : SystemCall → Cpu → Cpu
  | .consoleWrite message => syscallCall 0x1 message 0 0 0 0 0
  | .yield => syscallCall 0x2 0 0 0 0 0 0
  | .exit => syscallCall 0x3 0 0 0 0 0 0
  | .mmap address length flags fd => syscallCall 0x4 address length flags fd 0 0
  | .munmap address length => syscallCall 0x5 address length 0 0 0 0
  | .shmOpen path size fd => syscallCall 0x6 path size fd 0 0 0
  | .shmUnlink path => syscallCall 0x7 path 0 0 0 0 0
  | .channelOpen path fd flags => syscallCall 0x8 path fd (flags.signExtend 64) 0 0 0
  | .channelClose fd => syscallCall 0x9 fd 0 0 0 0 0
  | .channelSend fd data size => syscallCall 0xA fd data size 0 0 0
  | .channelRecv fd data size => syscallCall 0xB fd data size 0 0 0
  | .channelSendFd channelFd fd data size => syscallCall 0x14 channelFd fd data size 0 0
  | .channelRecvFd channelFd fd data size => syscallCall 0x15 channelFd fd data size 0 0
  | .shutdown => syscallCall 0xC 0 0 0 0 0 0
  | .open path fd flags => syscallCall 0xD path fd (flags.signExtend 64) 0 0 0
  | .read fd buffer size => syscallCall 0xE fd buffer size 0 0 0
  | .write fd buffer size => syscallCall 0xF fd buffer size 0 0 0
  | .close fd => syscallCall 0x10 fd 0 0 0 0 0
  | .getTimeNs => syscallCall 0x11 0 0 0 0 0 0
  | .getTimeMs => syscallCall 0x12 0 0 0 0 0 0
  | .processGetHandle => syscallCall 0x13 0 0 0 0 0 0

/-- `syscall_handler`: what the `_impl` function of the call passes on, and
`none` where the number is unknown and `assert(0)` stops the kernel. -/
def syscallHandler (frame : ExceptionFrame) : Option SystemCall :=
  let x := frame.registers
  match (x 8).toNat with
  | 0x1 => some (.consoleWrite (x 0))
  | 0x2 => some .yield
  | 0x3 => some .exit
  | 0x4 => some (.mmap (x 0) (x 1) (x 2) (x 3))
  | 0x5 => some (.munmap (x 0) (x 1))
  | 0x6 => some (.shmOpen (x 0) (x 1) (x 2))
  | 0x7 => some (.shmUnlink (x 0))
  | 0x8 => some (.channelOpen (x 0) (x 1) ((x 2).setWidth 32))
  | 0x9 => some (.channelClose (x 0))
  | 0xA => some (.channelSend (x 0) (x 1) (x 2))
  | 0xB => some (.channelRecv (x 0) (x 1) (x 2))
  | 0x14 => some (.channelSendFd (x 0) (x 1) (x 2) (x 3))
  | 0x15 => some (.channelRecvFd (x 0) (x 1) (x 2) (x 3))
  | 0xC => some .shutdown
  | 0xD => some (.open (x 0) (x 1) ((x 2).setWidth 32))
  | 0xE => some (.read (x 0) (x 1) (x 2))
  | 0xF => some (.write (x 0) (x 1) (x 2))
  | 0x10 => some (.close (x 0))
  | 0x11 => some .getTimeNs
  | 0x12 => some .getTimeMs
  | 0x13 => some .processGetHandle
  | _ => none

/-- `EXCEPTION_CLASS`. -/
def exceptionClass (esr : Word) : Word := (esr >>> 26) &&& 0x3F

/-- `handle_sync_exception`: `none` where `assert(0)` stops the kernel. -/
def handleSyncException (frame : ExceptionFrame) (esr : Word) : Option SystemCall :=
  -- SVC_EXCEPTION_CLASS
  if exceptionClass esr = 0x15 then syscallHandler frame else none

/-- The request that the code behind `handle_sync` reads: `x0` points to the
frame, and `x1` is the syndrome. -/
def handledRequest (c : Cpu) : Option SystemCall :=
  handleSyncException (readFrame c (c.get 0)) (c.get 1)

section
variable {env : Env} {layout : Layout} {m m' : Machine} {k' : Kernel} {c c' c₀ c₁ : Cpu}
  {t u : ThreadId} {call : Call} {request : SystemCall} {history : List (Machine × CpuAction)}

theorem int_roundTrip (flags : BitVec 32) : (flags.signExtend 64).setWidth 32 = flags := by
  ext i hi
  rw [BitVec.getElem_setWidth, BitVec.getLsbD_signExtend]
  simp [hi, show i < 64 by omega]

/-- The handler takes out of the registers what the wrapper has put in. -/
theorem syscallHandler_wrapper (request : SystemCall) (c : Cpu) :
    syscallHandler (savedFrame (request.wrapper c).svc) = some request := by
  cases request <;>
    simp [SystemCall.wrapper, syscallCall, syscallHandler, savedFrame, Cpu.svc, Cpu.get, Cpu.set,
      int_roundTrip]

/-- `handle_sync` calls `handle_sync_exception` with the frame and the syndrome. -/
theorem handleSyncEntry_arguments (c : Cpu) :
    (handleSyncEntry c).get 0 = c.sp - 280 ∧ (handleSyncEntry c).get 1 = c.esr := by
  obtain ⟨mem, heq, -⟩ := Cpu.storeWords_spec (c.sp - 280) { c with sp := c.sp - 280 }
    frameTable_nodup
  rw [← Cpu.storePairs_eq] at heq
  obtain ⟨x₁, hSp⟩ := storeSp_eq { c with sp := c.sp - 280, mem := mem }
  unfold handleSyncEntry
  dsimp only
  rw [show Cpu.storePairs { c with sp := c.sp - 35 * 8 } (c.sp - 35 * 8) frameTable = _ from heq,
    hSp]
  exact ⟨rfl, rfl⟩

theorem svc_class : exceptionClass c.svc.esr = 0x15 := by
  show exceptionClass 0x56000000 = 0x15
  decide

/-- What a wrapper asked for is what its handler is called with. -/
theorem handledRequest_wrapper (request : SystemCall) (c : Cpu) :
    handledRequest (handleSyncEntry (request.wrapper c).svc) = some request := by
  obtain ⟨hframe, hesr⟩ := handleSyncEntry_arguments (request.wrapper c).svc
  have hentered := handleSyncEntry_spec (request.wrapper c).svc
  unfold handledRequest handleSyncException
  rw [hframe, hesr, hentered.frame, syscallHandler_wrapper]
  exact if_pos svc_class

/-- A yield is what the handler takes for one. -/
theorem handledRequest_yield (c : Cpu) :
    handledRequest (handleSyncEntry c.svc) = some .yield ↔ c.get 8 = syscallYield := by
  obtain ⟨hframe, hesr⟩ := handleSyncEntry_arguments c.svc
  have hentered := handleSyncEntry_spec c.svc
  unfold handledRequest handleSyncException
  rw [hframe, hesr, hentered.frame, if_pos svc_class]
  show syscallHandler (savedFrame c.svc) = _ ↔ _
  have hnumber : (savedFrame c.svc).registers 8 = c.get 8 := rfl
  constructor
  · intro h
    unfold syscallHandler at h
    dsimp only at h
    rw [hnumber] at h
    split at h
    case h_2 heq => exact BitVec.eq_of_toNat_eq heq
    all_goals cases h
  · intro h
    unfold syscallHandler
    dsimp only
    rw [hnumber, h]
    rfl

/-! ## Calls in progress -/

/-- The state of the CPU at the `svc` of the last system call of the thread. -/
inductive MadeAt (t : ThreadId) (c₀ : Cpu) : List (Machine × CpuAction) → Prop
  | here {n past} : n.kernel.currentThread = some t → n.cpu = c₀ →
      MadeAt t c₀ ((n, .enter) :: past)
  | before {n a past} : MadeAt t c₀ past → (a = .enter → n.kernel.currentThread ≠ some t) →
      MadeAt t c₀ ((n, a) :: past)

/-- A system call in progress was made in user mode, and its frame is what
`handle_sync` saved at its `svc`. -/
structure Made (c₀ : Cpu) (call : Call) : Prop where
  base : call.base = c₀.sp - 280
  frame : call.frame = savedFrame c₀.svc
  mode : mode c₀.pstate = 0

/-- Every system call in progress has its `svc` in the history. -/
def CallsMade (history : List (Machine × CpuAction)) (m : Machine) : Prop :=
  ∀ t call, m.calls t = some call → ∃ c₀, MadeAt t c₀ history ∧ Made c₀ call

/-- A step that makes no call of the thread keeps the one in progress, but for
its depth. -/
theorem CallsMade.keep {a : CpuAction} (h : CallsMade history m)
    (ha : a = .enter → m.kernel.currentThread ≠ some t)
    (hcalls : ∃ old, m.calls t = some old ∧ call.base = old.base ∧ call.frame = old.frame) :
    ∃ c₀, MadeAt t c₀ ((m, a) :: history) ∧ Made c₀ call := by
  obtain ⟨old, hold, hbase, hframe⟩ := hcalls
  obtain ⟨c₀, hmade, hmadeOld⟩ := h t old hold
  exact ⟨c₀, .before hmade ha, hbase.trans hmadeOld.base, hframe.trans hmadeOld.frame,
    hmadeOld.mode⟩

theorem CallsMade.step {a : CpuAction} (h : CallsMade history m)
    (hstep : CpuStep env layout m a m') : CallsMade ((m, a) :: history) m' := by
  intro u call hcall
  cases hstep with
  | boot =>
    rw [goOn_calls] at hcall
    exact h.keep (by simp) ⟨call, hcall, rfl, rfl⟩
  | compute => exact h.keep (by simp) ⟨call, hcall, rfl, rfl⟩
  | @enter t hcur _ hmode _ =>
    rcases update_call hcall with ⟨rfl, hsome⟩ | ⟨hne, hold⟩
    · cases hsome
      exact ⟨m.cpu, .here hcur rfl, rfl, rfl, hmode⟩
    · refine h.keep (fun _ hcur' => hne ?_) ⟨call, hold, rfl, rfl⟩
      exact Option.some.inj (hcur'.symm.trans hcur)
  | leave =>
    rcases update_call hcall with ⟨-, hsome⟩ | ⟨-, hold⟩
    · cases hsome
    · exact h.keep (by simp) ⟨call, hold, rfl, rfl⟩
  | yield =>
    rw [goOn_calls] at hcall
    exact h.keep (by simp) ⟨call, hcall, rfl, rfl⟩
  | block =>
    rw [goOn_calls] at hcall
    rcases update_call hcall with ⟨rfl, hsome⟩ | ⟨-, hold⟩
    · obtain ⟨old, hold, rfl⟩ := Option.map_eq_some_iff.mp hsome
      exact h.keep (by simp) ⟨old, hold, rfl, rfl⟩
    · exact h.keep (by simp) ⟨call, hold, rfl, rfl⟩
  | terminate =>
    rw [goOn_calls] at hcall
    rcases update_call hcall with ⟨-, hsome⟩ | ⟨-, hold⟩
    · cases hsome
    · exact h.keep (by simp) ⟨call, hold, rfl, rfl⟩
  | threadStart => exact h.keep (by simp) ⟨call, hcall, rfl, rfl⟩
  | wakeUp => exact h.keep (by simp) ⟨call, hcall, rfl, rfl⟩

/-- The calls of a run in which the stack pointers are told right. -/
theorem run_calls (hrun : Run (MachineInit layout) (CpuStep env layout) history m)
    (hclear : ∀ p ∈ history, SpBitClear env p.1 p.2) :
    StackInv layout m ∧ CallsMade history m := by
  induction hrun with
  | start hinit =>
    refine ⟨init_stackInv hinit, fun t call hcall => ?_⟩
    cases (hinit.calls t).symm.trans hcall
  | next _ hstep ih =>
    obtain ⟨hclear, hrest⟩ := List.forall_mem_cons.mp hclear
    obtain ⟨hinv, hmade⟩ := ih hrest
    exact ⟨(step_stack hinv hstep).1 hclear, hmade.step hstep⟩

/-! ## The return -/

/-- The end of a system call: the thread sees what it saw at the `svc` but for
`x0`, which is what the handler has left in the frame. -/
structure Returned (c₀ c c' : Cpu) : Prop where
  agree : Agree (view c₀) (view c')
  result : c'.get 0 = c.mem (slot (c₀.sp - 280) 0)

theorem returned_of_made (hmade : Made c₀ call) (hintact : Intact c.mem call)
    (hsp : c.sp = call.base) : Returned c₀ c (handleSyncExit c) := by
  have hleft := handleSyncExit_spec c
  rw [hsp] at hleft
  have hpstate : (handleSyncExit c).pstate = c₀.pstate := by
    rw [hleft.pstate]
    show c.mem (slot call.base 34) = _
    rw [hintact.spsr, hmade.frame]
    rfl
  constructor
  · constructor
    · intro i h0 h31
      show (handleSyncExit c).get i = c₀.get i
      rw [hleft.get i h31]
      show c.mem (slot call.base i) = _
      rw [hintact.registers i h0, hmade.frame]
      rfl
    · show (if mode (handleSyncExit c).pstate = 0 then _ else _) =
        if mode c₀.pstate = 0 then _ else _
      rw [hpstate, if_pos hmade.mode, if_pos hmade.mode, hleft.spEl0]
      show (if mode (c.mem (slot call.base 34)) = 0 then c.mem (slot call.base 32) else _) = _
      rw [hintact.spsr, hintact.sp, hmade.frame]
      show (if mode c₀.pstate = 0 then (if mode c₀.pstate = 0 then _ else _) else _) = _
      rw [if_pos hmade.mode, if_pos hmade.mode]
      rfl
    · show (handleSyncExit c).pc = c₀.pc
      rw [hleft.pc]
      show c.mem (slot call.base 33) = _
      rw [hintact.elr, hmade.frame]
      rfl
    · exact hpstate
  · rw [hleft.get 0 (by decide), ← hmade.base]
    rfl

/-- In a run in which every switch tells the stack pointers right, a system
call that ends has had its `svc`, where its handler was called with what the
wrapper asked for, and the thread goes on with all that it had there, but for
the result. -/
theorem system_call_returns (env : Env) (layout : Layout)
    (history : List (Machine × CpuAction)) (m m' : Machine) (c : Cpu) (t : ThreadId)
    (hrun : Run (MachineInit layout) (CpuStep env layout) history m)
    (hclear : ∀ p ∈ history, SpBitClear env p.1 p.2)
    (hstep : CpuStep env layout m (.leave c) m') (hcur : m.kernel.currentThread = some t) :
    ∃ c₀, MadeAt t c₀ history ∧ Returned c₀ c m'.cpu ∧ ∀ request c₁,
      c₀ = SystemCall.wrapper request c₁ →
        handledRequest (handleSyncEntry c₀.svc) = some request := by
  obtain ⟨hinv, hmade⟩ := run_calls hrun hclear
  cases hstep with
  | @leave t' call _ hcur' hcall hsp _ hkept =>
    cases hcur.symm.trans hcur'
    obtain ⟨c₀, hat, hmade⟩ := hmade t call hcall
    have hbase : c.sp = call.base := by
      rw [hsp, Machine.handlerSp, hcall, ((hinv.cpu t hcur).inside call hcall).1]
      exact BitVec.sub_add_cancel ..
    have hintact := (hinv.calls.memory hkept).intact t call hcall
    refine ⟨c₀, hat, returned_of_made hmade hintact hbase, ?_⟩
    intro request c₁ heq
    rw [heq]
    exact handledRequest_wrapper request c₁

/-- Thread 1 of the pair has been dispatched, in user mode. -/
theorem pair_clear : ∃ history c,
    Run (MachineInit pairLayout) (CpuStep bootEnv pairLayout) history
        (pairMachine pairBooted c) ∧
      (∀ p ∈ history, SpBitClear bootEnv p.1 p.2) ∧ mode c.pstate = 0 := by
  obtain ⟨_, _, hbooted, -⟩ := pair_booted
  have hinv : KernelInv pairLayout pairBooted :=
    (hbooted.invariant (fun _ hm => init_yieldInv hm) fun _ _ _ hi hs => hi.step hs).kernel
  have hstart : Step bootEnv pairKernel (.threadStart 1)
      (after pairKernel (.threadStart 1)) := ⟨by decide, rfl⟩
  have hstart' : Step bootEnv (after pairKernel (.threadStart 1)) (.threadStart 2)
      pairStarted := ⟨by decide, rfl⟩
  have hrun : Step bootEnv pairStarted .run pairBooted := ⟨by decide, rfl⟩
  let c := withContext resetCpu (pairLayout.ctxAddress 1) (pairBooted.threads 1).ctx
  have hcur : pairBooted.currentThread = some 1 := rfl
  have hholds : HoldsContext c (pairLayout.ctxAddress 1) (pairBooted.threads 1).ctx :=
    withContext_holds resetCpu _ _
  obtain ⟨c', hswitch, hspec⟩ := hinv.switch hcur hholds
  have hboot : CpuStep bootEnv pairLayout (pairMachine pairStarted resetCpu) (.boot c) _ :=
    .boot rfl rfl (fun _ _ h => by cases h) hrun (.switch hcur (by simp) hholds hswitch)
  refine ⟨_, c', .next (.next (.next (.start pair_init) (.threadStart (by decide) hstart))
    (.threadStart (by decide) hstart')) hboot, ?_, ?_⟩
  · simp only [List.forall_mem_cons, List.not_mem_nil, false_implies, implies_true, and_true]
    refine ⟨?_, nofun, nofun⟩
    intro t ht _ _ _
    cases ht
    exact .inl (by decide)
  · rw [hspec.pstate]
    decide

/-- Thread 1 asks for the time, and goes on with 42 in `x0`. -/
theorem pair_asks : ∃ history m c m' c₀,
    Run (MachineInit pairLayout) (CpuStep bootEnv pairLayout) history m ∧
      CpuStep bootEnv pairLayout m (.leave c) m' ∧ MadeAt 1 c₀ history ∧
      Returned c₀ c m'.cpu ∧ m'.cpu.get 0 = 42 ∧
      handledRequest (handleSyncEntry c₀.svc) = some .getTimeNs := by
  obtain ⟨history, c₀, hrun, hclear, hmode⟩ := pair_clear
  let c₁ := SystemCall.getTimeNs.wrapper c₀
  have hcompute : CpuStep bootEnv pairLayout (pairMachine pairBooted c₀) (.compute c₁)
      (pairMachine pairBooted c₁) :=
    .compute (t := 1) rfl rfl rfl (fun _ => rfl) (fun _ _ h => by cases h)
  have henter : CpuStep bootEnv pairLayout (pairMachine pairBooted c₁) .enter _ :=
    .enter (t := 1) rfl rfl hmode (show (0x11 : Word) ≠ syscallYield by decide)
  let base := c₁.sp - 280
  have hentered := handleSyncEntry_spec c₁.svc
  -- the handler stores the result in the frame
  let c : Cpu :=
    { handleSyncEntry c₁.svc with
      mem := Function.update (handleSyncEntry c₁.svc).mem (slot base 0) 42 }
  let m := { pairMachine pairBooted c₁ with cpu := handleSyncEntry c₁.svc }.setCall 1
    (some ⟨base, savedFrame c₁.svc, 0⟩)
  have hcall : m.calls 1 = some ⟨base, savedFrame c₁.svc, 0⟩ := rfl
  have hresult : c.mem (slot base 0) = 42 := Function.update_self ..
  have hleave : CpuStep bootEnv pairLayout m (.leave c) _ :=
    .leave (t := 1) rfl hcall (BitVec.add_zero _).symm rfl (by
        intro u call hcall i hpos hi
        rcases update_call hcall with ⟨-, hsome⟩ | ⟨-, hold⟩
        · cases hsome
          exact update_slot_ne hi (by omega) (by omega)
        · cases hold)
  have hclear' : ∀ p ∈ (pairMachine pairBooted c₁, CpuAction.enter) ::
      (pairMachine pairBooted c₀, CpuAction.compute c₁) :: history, SpBitClear bootEnv p.1 p.2 := by
    simp only [List.forall_mem_cons]
    exact ⟨fun t ht => (nomatch ht), fun t ht => (nomatch ht), hclear⟩
  have hrun' := (hrun.next hcompute).next henter
  obtain ⟨c', hat, hreturned, hrequest⟩ := system_call_returns bootEnv pairLayout _ _ _ c 1 hrun'
    hclear' hleave rfl
  have hc' : c' = c₁ := by
    cases hat with
    | here _ hcpu => exact hcpu.symm
    | before _ hne => exact absurd rfl (hne rfl)
  rw [hc'] at hat hreturned hrequest
  exact ⟨_, _, c, _, c₁, hrun', hleave, hat, hreturned, hreturned.result.trans hresult,
    hrequest .getTimeNs c₀ rfl⟩

end

end ZOs.Scheduler
