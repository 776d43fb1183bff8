import ZOs.Sched.Yield

/-!
# The kernel stack of a user thread

In user mode SP_EL1 is `kernel_stack_top - 288`, below the copy of the
context that the last switch made. A system call has its exception frame
right below that, and a thread that waits in it keeps everything from its
stack pointer up to the frame; the copy of its context at the next switch
lies above. What can go wrong is the switch itself, which decides by bit 63
of the saved stack pointer whether it belongs to SP_EL0 or SP_EL1: a user
thread chooses that bit.
-/

namespace ZOs.Scheduler

open Runs A64

/-- The words of an exception frame, but for the result in `x0`, are those
that `handle_sync` has stored. -/
structure Intact (mem : Word → Word) (call : Call) : Prop where
  registers : ∀ i : Reg, i ≠ 0 → mem (slot call.base i) = call.frame.registers i
  sp : mem (slot call.base 32) = call.frame.sp
  elr : mem (slot call.base 33) = call.frame.elr
  spsr : mem (slot call.base 34) = call.frame.spsr

/-- The discipline of the kernel stacks. -/
structure StackDiscipline (m : Machine) : Prop where
  /-- In user mode the stack pointer is below the room for one context. -/
  user : ∀ t, m.kernel.currentThread = some t → (m.kernel.threads t).type = .user →
    mode m.cpu.pstate = 0 → m.cpu.sp = (m.kernel.threads t).kernelStackTop - 288
  /-- What a blocked thread keeps on its stack lies below that room. -/
  blocked : ∀ t, (m.kernel.threads t).type = .user → (m.kernel.threads t).state = .blocked →
    ∃ call, m.calls t = some call ∧
      (m.kernel.threads t).ctx.sp.toNat ≤ call.base.toNat ∧
      call.base.toNat + 280 ≤ stackTop m.kernel t - 288
  /-- No exception frame has been overwritten. -/
  intact : ∀ t call, m.calls t = some call → Intact m.cpu.mem call

/-- A switch to a user thread outside a system call finds a stack pointer
with bit 63 clear, or by chance the right value for SP_EL1. -/
def SpBitClear (env : Env) (m : Machine) (a : CpuAction) : Prop :=
  ∀ t, dispatches env m a = some t → m.kernel.currentThread ≠ some t →
    (m.kernel.threads t).type = .user → m.calls t = none →
      (m.kernel.threads t).ctx.sp >>> 63 = 0 ∨
        (m.kernel.threads t).ctx.sp = (m.kernel.threads t).kernelStackTop - 288

section
variable {env : Env} {layout : Layout} {m m' : Machine} {k k' s s' : Kernel} {c c' : Cpu}
  {t u : ThreadId} {calls : ThreadId → Option Call}

/-! ## The states of the threads -/

/-- A thread that does not run keeps its state, or it is woken up or
dispatched and has not ended. -/
theorem step_state {a : Action} (hinv : RunInv s) (hstep : Step env s a s')
    (hu : s.currentThread ≠ some u) : (s'.threads u).state = (s.threads u).state ∨
      ((s.threads u).state ≠ .terminated ∧
        ((s'.threads u).state = .running ∨ (s'.threads u).state = .suspended)) := by
  -- what `scheduler_run` does after the running thread has been updated
  have hrun : ∀ {t : ThreadId} {st : ThreadState} {more : List ThreadId} {mid : Kernel},
      s.currentThread = some t → Pending env s t st more mid → RunEffect env mid s' →
      (s'.threads u).state = (s.threads u).state ∨ ((s.threads u).state ≠ .terminated ∧
        ((s'.threads u).state = .running ∨ (s'.threads u).state = .suspended)) := by
    intro t st more mid hcur hmid e
    have hne : u ≠ t := fun heq => hu (heq ▸ hcur)
    have hsame : (mid.threads u).state = (s.threads u).state := by
      rw [hmid.state, Function.update_of_ne hne]
    rw [e.state]
    split
    · rename_i hnext
      refine .inr ⟨?_, .inl rfl⟩
      rw [← hsame, hnext]
      exact hmid.next_live
    · exact .inl hsame
  obtain ⟨ha, hexec⟩ := hstep
  cases a with
  | threadStart t =>
    obtain ⟨r, s₁, heq, -, e⟩ := threadStart_spec env hinv ha.1 ha.2
    obtain ⟨⟨r', s₂⟩, hadd, rfl⟩ := map_ok hexec
    cases heq.symm.trans hadd
    exact .inl (e.state u)
  | run =>
    cases (schedulerRun_eq hinv.toQueueInv).symm.trans hexec
    rw [(afterRun_effect env s).state]
    split
    · rename_i hnext
      refine .inr ⟨?_, .inl rfl⟩
      rw [hnext]
      exact hinv.next_live
    · exact .inl rfl
  | yield frame =>
    obtain ⟨t, hcur, ht⟩ := ha
    obtain ⟨mid, heq, hmid⟩ := schedulerYield_spec env hinv hcur ht frame
    cases (heq.trans (schedulerRun_eq hmid.toQueueInv)).symm.trans hexec
    exact hrun hcur hmid (afterRun_effect env mid)
  | waitForEvent cpu =>
    obtain ⟨t, hcur, ht⟩ := ha
    obtain ⟨mid, heq, hmid⟩ := schedulerWaitForEvent_spec env hinv hcur ht cpu
    cases (heq.trans (schedulerRun_eq hmid.toQueueInv)).symm.trans hexec
    exact hrun hcur hmid (afterRun_effect env mid)
  | wakeUp t =>
    obtain ⟨s₁, heq, -, e⟩ := schedulerWakeUp_spec env hinv ha
    cases heq.symm.trans hexec
    rw [e.state]
    by_cases hut : u = t
    · subst hut
      rw [Function.update_self, show (s.threads u).state = .blocked from ha]
      exact .inr ⟨by simp, .inr rfl⟩
    · rw [Function.update_of_ne hut]
      exact .inl rfl
  | terminate =>
    obtain ⟨t, hcur, ht⟩ := ha
    obtain ⟨mid, heq, hmid⟩ := schedulerTerminate_spec env hinv hcur ht
    cases (heq.trans (schedulerRun_eq hmid.toQueueInv)).symm.trans hexec
    exact hrun hcur hmid (afterRun_effect env mid)

/-- The running thread is not BLOCKED after it has yielded. -/
theorem yield_not_blocked {frame : ExceptionFrame} (hinv : RunInv s)
    (hcur : s.currentThread = some t) (hstep : Step env s (.yield frame) s') :
    (s'.threads t).state ≠ .blocked := by
  obtain ⟨⟨t', hcur', ht⟩, hexec⟩ := hstep
  cases hcur.symm.trans hcur'
  obtain ⟨mid, heq, hmid⟩ := schedulerYield_spec env hinv hcur ht frame
  cases (heq.trans (schedulerRun_eq hmid.toQueueInv)).symm.trans hexec
  rw [(afterRun_effect env mid).state]
  split
  · simp
  · rw [hmid.state, Function.update_self]
    simp

/-- It has ended after it has terminated, and another thread runs. -/
theorem terminate_ends (hinv : RunInv s) (hcur : s.currentThread = some t)
    (hstep : Step env s .terminate s') :
    (s'.threads t).state = .terminated ∧ s'.currentThread ≠ some t := by
  have hnext := step_current hinv hstep
  obtain ⟨⟨t', hcur', ht⟩, hexec⟩ := hstep
  cases hcur.symm.trans hcur'
  have hne : nextThread s ≠ t := next_ne (hinv.current_not_queued hcur) ht
  obtain ⟨mid, heq, hmid⟩ := schedulerTerminate_spec env hinv hcur ht
  cases (heq.trans (schedulerRun_eq hmid.toQueueInv)).symm.trans hexec
  have hmidNext : nextThread mid = nextThread s := by
    rw [nextThread_eq, hmid.queued, List.append_nil, ← nextThread_eq]
  constructor
  · rw [(afterRun_effect env mid).state, if_neg (hmidNext ▸ hne.symm), hmid.state,
      Function.update_self]
  · rw [hnext]
    exact fun h => hne (Option.some.inj h)

theorem block_leaves {cpu : CpuRegisters} (hinv : RunInv s) (hcur : s.currentThread = some t)
    (hstep : Step env s (.waitForEvent cpu) s') : s'.currentThread ≠ some t := by
  rw [step_current hinv hstep]
  obtain ⟨⟨t', hcur', ht⟩, -⟩ := hstep
  cases hcur.symm.trans hcur'
  exact fun h => next_ne (hinv.current_not_queued hcur) ht (Option.some.inj h)

theorem type_steady : Steady Thread.type := fun _ _ _ => rfl

theorem step_type {a : Action} (hstep : Step env s a s') (u : ThreadId) :
    (s'.threads u).type = (s.threads u).type := by
  rw [step_keeps type_steady hstep]
  split
  · cases a <;> rfl
  · rfl

/-! ## The invariant -/

/-- The type of a thread tells its mode. -/
def RightMode (th : Thread) (pstate : Word) : Prop := mode pstate = 0 ↔ th.type = .user

/-- What a thread that does not run will find: the rest of its system call,
or the mode of its type. -/
structure AtRest (th : Thread) (call : Option Call) : Prop where
  inside : ∀ c, call = some c → th.ctx.sp = c.base - BitVec.ofNat 64 c.depth ∧
    mode th.ctx.spsr ≠ 0
  outside : call = none → th.state ≠ .terminated → RightMode th th.ctx.spsr

/-- What the CPU has for the thread that runs. -/
structure OnCpu (cpu : Cpu) (th : Thread) (call : Option Call) : Prop where
  inside : ∀ c, call = some c → cpu.sp = c.base - BitVec.ofNat 64 c.depth ∧ mode cpu.pstate ≠ 0
  outside : call = none → RightMode th cpu.pstate
  user : call = none → th.type = .user → cpu.sp = th.kernelStackTop - 288

/-- A system call in progress: its frame is the first thing below the room
for the context, and the stack is large enough. -/
structure InCall (layout : Layout) (k : Kernel) (t : ThreadId) (call : Call) : Prop where
  lt : t < layout.count
  user : (k.threads t).type = .user
  base : call.base = (k.threads t).kernelStackTop - 288 - 280
  room : call.depth + 568 ≤ stackBytes
  mode : mode call.frame.spsr = 0

/-- The system calls in progress. -/
structure Calls (layout : Layout) (k : Kernel) (calls : ThreadId → Option Call)
    (mem : Word → Word) : Prop where
  call : ∀ t c, calls t = some c → InCall layout k t c
  intact : ∀ t c, calls t = some c → Intact mem c

structure StackInv (layout : Layout) (m : Machine) : Prop where
  kernel : KernelInv layout m.kernel
  calls : Calls layout m.kernel m.calls m.cpu.mem
  rest : ∀ t, m.kernel.currentThread ≠ some t → AtRest (m.kernel.threads t) (m.calls t)
  cpu : ∀ t, m.kernel.currentThread = some t → OnCpu m.cpu (m.kernel.threads t) (m.calls t)
  blocked : ∀ t, (m.kernel.threads t).type = .user → (m.kernel.threads t).state = .blocked →
    m.calls t ≠ none

/-! ## Addresses on a kernel stack -/

theorem top_ge (hfits : layout.Fits k) (ht : t < layout.count) :
    2 ^ 63 + 32768 ≤ (k.threads t).kernelStackTop.toNat :=
  hfits.upper t ht

theorem frame_toNat (hfits : layout.Fits k) {call : Call} (h : InCall layout k t call) :
    call.base.toNat = stackTop k t - 568 := by
  have hge := top_ge hfits h.lt
  have hlt := (k.threads t).kernelStackTop.isLt
  rw [h.base]
  unfold stackTop
  bv_omega

theorem frameSlot_toNat (hfits : layout.Fits k) {call : Call} (h : InCall layout k t call)
    {i : Nat} (hi : i < 35) : (slot call.base i).toNat = stackTop k t - 568 + 8 * i := by
  have hge := top_ge hfits h.lt
  have hlt := (k.threads t).kernelStackTop.isLt
  have hbase := frame_toNat hfits h
  unfold stackTop at hbase ⊢
  rw [slot_toNat (by omega), hbase]

/-- The copy of a context overwrites no exception frame. -/
theorem frame_copy (hfits : layout.Fits k) {call : Call} (h : InCall layout k t call)
    (hu : u < layout.count) {i j : Nat} (hi : i < 35) (hj : j < 36) :
    slot call.base i ≠ slot ((k.threads u).kernelStackTop - 288) j := by
  intro heq
  have hnat := congrArg BitVec.toNat heq
  rw [frameSlot_toNat hfits h hi, stackSlot_toNat hfits hu hj] at hnat
  have hge : 2 ^ 63 + 32768 ≤ stackTop k t := hfits.upper t h.lt
  have hge' : 2 ^ 63 + 32768 ≤ stackTop k u := hfits.upper u hu
  by_cases htu : t = u
  · subst htu
    omega
  · rcases hfits.apart t h.lt u hu htu with hle | hle
    · unfold stackBytes at hle
      omega
    · unfold stackBytes at hle
      omega

/-- Nor does the frame of another thread. -/
theorem frame_apart (hfits : layout.Fits k) {call : Call} (h : InCall layout k t call)
    (hu : u < layout.count) (htu : t ≠ u) {i j : Nat} (hi : i < 35) (hj : j < 35) :
    slot call.base i ≠ slot ((k.threads u).kernelStackTop - 288 - 280) j := by
  intro heq
  have hge : 2 ^ 63 + 32768 ≤ stackTop k t := hfits.upper t h.lt
  have hge' := top_ge hfits hu
  have hlt := (k.threads u).kernelStackTop.isLt
  have hbase : ((k.threads u).kernelStackTop - 288 - 280).toNat = stackTop k u - 568 := by
    unfold stackTop
    bv_omega
  have hge'' : 2 ^ 63 + 32768 ≤ stackTop k u := hge'
  have hlt' : stackTop k u < 2 ^ 64 := hlt
  have hnat := congrArg BitVec.toNat heq
  rw [frameSlot_toNat hfits h hi, slot_toNat (by omega), hbase] at hnat
  rcases hfits.apart t h.lt u hu htu with hle | hle
  · unfold stackBytes at hle
    omega
  · unfold stackBytes at hle
    omega

/-- The stack pointer in a system call is an address of the upper half. -/
theorem call_sp (hfits : layout.Fits k) {call : Call} (h : InCall layout k t call) :
    (call.base - BitVec.ofNat 64 call.depth).toNat = stackTop k t - 568 - call.depth ∧
      (call.base - BitVec.ofNat 64 call.depth) >>> 63 ≠ 0 := by
  have hge : 2 ^ 63 + 32768 ≤ stackTop k t := hfits.upper t h.lt
  have hbase := frame_toNat hfits h
  have hroom := h.room
  unfold stackBytes at hroom
  have hlt : stackTop k t < 2 ^ 64 := (k.threads t).kernelStackTop.isLt
  have hsp : (call.base - BitVec.ofNat 64 call.depth).toNat =
      stackTop k t - 568 - call.depth := by
    rw [BitVec.toNat_sub, BitVec.toNat_ofNat, hbase]
    omega
  refine ⟨hsp, ?_⟩
  intro hzero
  have hnat := congrArg BitVec.toNat hzero
  rw [BitVec.toNat_ushiftRight, hsp, Nat.shiftRight_eq_div_pow] at hnat
  have hpos : 2 ^ 63 ≤ stackTop k t - 568 - call.depth := by omega
  have hdiv : 1 ≤ (stackTop k t - 568 - call.depth) / 2 ^ 63 :=
    (Nat.one_le_div_iff (by decide)).mpr hpos
  rw [show (0 : Word).toNat = 0 from rfl] at hnat
  omega

/-! ## What keeps the parts of the invariant -/

variable {mem mem' : Word → Word}

theorem Intact.congr {call : Call} (h : Intact mem call)
    (hkeep : ∀ i, 0 < i → i < 35 → mem' (slot call.base i) = mem (slot call.base i)) :
    Intact mem' call where
  registers := by
    intro i hi
    have hpos : 0 < i.val := Nat.pos_of_ne_zero fun h => hi (Fin.ext h)
    rw [hkeep i hpos (by omega)]
    exact h.registers i hi
  sp := (hkeep 32 (by omega) (by omega)).trans h.sp
  elr := (hkeep 33 (by omega) (by omega)).trans h.elr
  spsr := (hkeep 34 (by omega) (by omega)).trans h.spsr

theorem Calls.memory (h : Calls layout k calls mem) (hkeep : FramesKept calls mem mem') :
    Calls layout k calls mem' :=
  ⟨h.call, fun t c hc => (h.intact t c hc).congr (hkeep t c hc)⟩

theorem InCall.step {a : Action} {call : Call} (h : InCall layout s t call)
    (hstep : Step env s a s') : InCall layout s' t call where
  lt := h.lt
  user := (step_type hstep t).trans h.user
  base := by
    rw [step_kernelStackTop hstep]
    exact h.base
  room := h.room
  mode := h.mode

theorem Calls.step {a : Action} (h : Calls layout s calls mem) (hstep : Step env s a s') :
    Calls layout s' calls mem :=
  ⟨fun t c hc => (h.call t c hc).step hstep, h.intact⟩

theorem AtRest.step {a : Action} {call : Option Call} (hinv : RunInv s) (hstep : Step env s a s')
    (ht : s.currentThread ≠ some t) (h : AtRest (s.threads t) call) :
    AtRest (s'.threads t) call := by
  have hctx := step_ctx hstep ht
  have htype := step_type hstep t
  constructor
  · rw [hctx]
    exact h.inside
  · intro hnone hlive
    unfold RightMode
    rw [hctx, htype]
    apply h.outside hnone
    intro hterm
    rcases step_state hinv hstep ht with hst | ⟨hst, -⟩
    · exact hlive (hst.trans hterm)
    · exact hst hterm

/-! ## The switch to a thread -/

/-- The switch keeps the frames of all system calls. -/
theorem Calls.switch {ctx : ThreadContext} (h : Calls layout k calls c.mem)
    (hk : KernelInv layout k) (hu : u < layout.count)
    (hspec : Switched ctx ((k.threads u).kernelStackTop - 288) c c') :
    Calls layout k calls c'.mem := by
  apply h.memory
  intro t call hcall i _ hi
  apply hspec.outside
  intro j hj
  exact frame_copy hk.fits (h.call t call hcall) hu hi hj

/-- The thread that is switched to finds its stack exactly when the switch
has taken its SP for what it is. -/
theorem onCpu_switch_iff (hk : KernelInv layout k)
    (hcalls : ∀ call, calls u = some call → InCall layout k u call)
    (hlive : (k.threads u).state ≠ .terminated) (hrest : AtRest (k.threads u) (calls u))
    (hspec : Switched (k.threads u).ctx ((k.threads u).kernelStackTop - 288) c c') :
    OnCpu c' (k.threads u) (calls u) ↔ (calls u = none → (k.threads u).type = .user →
      c'.sp = (k.threads u).kernelStackTop - 288) := by
  refine ⟨OnCpu.user, ?_⟩
  intro huser
  refine ⟨?_, ?_, huser⟩
  · intro call hcall
    obtain ⟨hsp, hmode⟩ := hrest.inside call hcall
    obtain ⟨-, hbit⟩ := call_sp hk.fits (hcalls call hcall)
    rw [hspec.sp, hspec.pstate, hsp, if_neg hbit]
    exact ⟨rfl, hmode⟩
  · intro hnone
    rw [hspec.pstate]
    exact hrest.outside hnone hlive

theorem switched_sp_iff {ctx : ThreadContext} {base : Word} (hspec : Switched ctx base c c') :
    c'.sp = base ↔ ctx.sp >>> 63 = 0 ∨ ctx.sp = base := by
  rw [hspec.sp]
  by_cases hbit : ctx.sp >>> 63 = 0
  · rw [if_pos hbit]
    exact iff_of_true rfl (.inl hbit)
  · rw [if_neg hbit]
    exact ⟨.inr, fun h => h.resolve_left hbit⟩

/-- When everybody rests, the switch to a thread keeps the invariant if its
stack pointer is set right, and only then the discipline. -/
theorem switch_stack (hk : KernelInv layout k') (hcur : k'.currentThread = some u)
    (hcalls : Calls layout k' m.calls c.mem)
    (hrest : ∀ t, AtRest (k'.threads t) (m.calls t))
    (hblocked : ∀ t, (k'.threads t).type = .user → (k'.threads t).state = .blocked →
      m.calls t ≠ none)
    (hctx : HoldsContext c (layout.ctxAddress u) (k'.threads u).ctx)
    (hswitch : schedulerSwitchToThread 18 (switchEntry layout k' u c) = some c') :
    ((m.calls u = none → (k'.threads u).type = .user → (k'.threads u).ctx.sp >>> 63 = 0 ∨
        (k'.threads u).ctx.sp = (k'.threads u).kernelStackTop - 288) →
      StackInv layout (m.goOn k' c')) ∧
    (StackDiscipline (m.goOn k' c') → m.calls u = none → (k'.threads u).type = .user →
      (k'.threads u).ctx.sp >>> 63 = 0 ∨
        (k'.threads u).ctx.sp = (k'.threads u).kernelStackTop - 288) := by
  obtain ⟨c'', heq, hspec⟩ := hk.switch hcur hctx
  cases heq.symm.trans hswitch
  have hlive : (k'.threads u).state ≠ .terminated := by
    rw [hk.run.current_running u hcur]
    simp
  constructor
  · intro hcond
    have hon : OnCpu c' (k'.threads u) (m.calls u) :=
      (onCpu_switch_iff hk (hcalls.call u) hlive (hrest u) hspec).mpr fun hnone huser =>
        (switched_sp_iff hspec).mpr (hcond hnone huser)
    constructor
    · rw [goOn_kernel]
      exact hk
    · rw [goOn_kernel, goOn_calls, goOn_cpu]
      exact hcalls.switch hk (hk.current_lt hcur) hspec
    · intro t _
      rw [goOn_kernel, goOn_calls]
      exact hrest t
    · intro t ht
      rw [goOn_kernel] at ht
      cases hcur.symm.trans ht
      rw [goOn_kernel, goOn_calls, goOn_cpu]
      exact hon
    · rw [goOn_kernel, goOn_calls]
      exact hblocked
  · intro hdisc hnone huser
    have hmode : mode c'.pstate = 0 := by
      rw [hspec.pstate]
      exact ((hrest u).outside hnone hlive).mpr huser
    have hsp := hdisc.user u
    rw [goOn_kernel, goOn_cpu] at hsp
    exact (switched_sp_iff hspec).mp (hsp hcur huser hmode)

/-! ## Steps -/

/-- An action that switches to another thread. -/
theorem dispatch_stack {m₁ : Machine} {a : CpuAction} {b : Action} (h : StackInv layout m)
    (hb : Step env m.kernel b k') (hk : KernelInv layout k') (hcur : k'.currentThread = some u)
    (hne : m.kernel.currentThread ≠ some u) (ha : dispatches env m a = some u)
    (hothers : ∀ t, m.kernel.currentThread ≠ some t → m₁.calls t = m.calls t)
    (hself : ∀ t, m.kernel.currentThread = some t → AtRest (k'.threads t) (m₁.calls t) ∧
      ((k'.threads t).type = .user → (k'.threads t).state = .blocked → m₁.calls t ≠ none))
    (hcalls : Calls layout k' m₁.calls c.mem)
    (hctx : HoldsContext c (layout.ctxAddress u) (k'.threads u).ctx)
    (hswitch : schedulerSwitchToThread 18 (switchEntry layout k' u c) = some c') :
    (SpBitClear env m a → StackInv layout (m₁.goOn k' c')) ∧
      (StackDiscipline (m₁.goOn k' c') → SpBitClear env m a) := by
  have hrest : ∀ t, AtRest (k'.threads t) (m₁.calls t) := by
    intro t
    by_cases ht : m.kernel.currentThread = some t
    · exact (hself t ht).1
    · rw [hothers t ht]
      exact (h.rest t ht).step h.kernel.run hb ht
  have hblocked : ∀ t, (k'.threads t).type = .user → (k'.threads t).state = .blocked →
      m₁.calls t ≠ none := by
    intro t huser hbl
    by_cases ht : m.kernel.currentThread = some t
    · exact (hself t ht).2 huser hbl
    · rw [hothers t ht]
      apply h.blocked t ((step_type hb t).symm.trans huser)
      rcases step_state h.kernel.run hb ht with hst | ⟨-, hst | hst⟩
      · exact hst.symm.trans hbl
      · rw [hst] at hbl
        cases hbl
      · rw [hst] at hbl
        cases hbl
  obtain ⟨hto, hfrom⟩ := switch_stack hk hcur hcalls hrest hblocked hctx hswitch
  rw [step_type hb, step_ctx hb hne, step_kernelStackTop hb, hothers u hne] at hto hfrom
  constructor
  · intro hclear
    exact hto fun hnone huser => hclear u ha hne huser hnone
  · intro hdisc t ht _ huser hnone
    cases ha.symm.trans ht
    exact hfrom hdisc hnone huser

/-- An action that dispatches nothing. -/
theorem quiet_stack {a : CpuAction} (ha : dispatches env m a = none) (h : StackInv layout m') :
    (SpBitClear env m a → StackInv layout m') ∧ (StackDiscipline m' → SpBitClear env m a) := by
  refine ⟨fun _ => h, ?_⟩
  intro _ t ht
  rw [ha] at ht
  cases ht

/-- A step of the scheduler without a switch. -/
theorem StackInv.enqueue {b : Action} (h : StackInv layout m) (hb : Step env m.kernel b k')
    (hk : KernelInv layout k') (hcur : k'.currentThread = m.kernel.currentThread) :
    StackInv layout { m with kernel := k' } where
  kernel := hk
  calls := h.calls.step hb
  rest := by
    intro t ht
    have ht' : m.kernel.currentThread ≠ some t := by
      rw [← hcur]
      exact ht
    exact (h.rest t ht').step h.kernel.run hb ht'
  cpu := by
    intro t ht
    have hold := h.cpu t (hcur.symm.trans ht)
    have htype := step_type hb t
    have htop := step_kernelStackTop hb t
    constructor
    · exact hold.inside
    · intro hnone
      show RightMode (k'.threads t) _
      unfold RightMode
      rw [htype]
      exact hold.outside hnone
    · intro hnone huser
      show _ = (k'.threads t).kernelStackTop - 288
      rw [htop]
      exact hold.user hnone (htype.symm.trans huser)
  blocked := by
    intro t huser hbl
    by_cases ht : m.kernel.currentThread = some t
    · have hrun := hk.run.current_running t (hcur.trans ht)
      cases hrun.symm.trans hbl
    · apply h.blocked t ((step_type hb t).symm.trans huser)
      rcases step_state h.kernel.run hb ht with hst | ⟨-, hst | hst⟩
      · exact hst.symm.trans hbl
      · cases hst.symm.trans hbl
      · cases hst.symm.trans hbl

/-- The exception frame of a system call overwrites no other one. -/
theorem Calls.entry (h : StackInv layout m) (hcur : m.kernel.currentThread = some t)
    (hnone : m.calls t = none)
    (hkernel : mode m.cpu.pstate ≠ 0 → ∀ u call, m.calls u = some call → ∀ i < 35, ∀ j < 35,
      slot call.base i ≠ slot (m.cpu.sp - 280) j) :
    Calls layout m.kernel m.calls (handleSyncEntry m.cpu.svc).mem := by
  apply h.calls.memory
  intro u call hcall i _ hi
  apply (handleSyncEntry_spec m.cpu.svc).outside
  intro j hj
  have hcpu := h.cpu t hcur
  by_cases hmode : mode m.cpu.pstate = 0
  · have hut : u ≠ t := by
      rintro rfl
      cases hnone.symm.trans hcall
    show _ ≠ slot (m.cpu.sp - 280) j
    rw [hcpu.user hnone ((hcpu.outside hnone).mp hmode)]
    exact frame_apart h.kernel.fits (h.calls.call u call hcall) (h.kernel.current_lt hcur) hut hi hj
  · exact hkernel hmode u call hcall i hi j hj

/-- `handle_sync` has stored the frame. -/
theorem intact_entry (c : Cpu) :
    Intact (handleSyncEntry c.svc).mem ⟨c.sp - 280, savedFrame c.svc, 0⟩ := by
  have hframe : readFrame (handleSyncEntry c.svc) (c.sp - 280) = savedFrame c.svc :=
    (handleSyncEntry_spec c.svc).frame
  constructor
  · intro i _
    exact congrFun (congrArg ExceptionFrame.registers hframe) i
  · exact congrArg ExceptionFrame.sp hframe
  · exact congrArg ExceptionFrame.elr hframe
  · exact congrArg ExceptionFrame.spsr hframe

theorem update_call {f : ThreadId → Option Call} {call : Call} {o : Option Call}
    (h : Function.update f t o u = some call) : (u = t ∧ o = some call) ∨
      (u ≠ t ∧ f u = some call) := by
  by_cases hu : u = t
  · subst hu
    rw [Function.update_self] at h
    exact .inl ⟨rfl, h⟩
  · rw [Function.update_of_ne hu] at h
    exact .inr ⟨hu, h⟩

/-- A step of the running thread that stays on the CPU. -/
theorem StackInv.running {o : Option Call} {yielded : ThreadId → Option View}
    {continued : List (View × View)} (h : StackInv layout m)
    (hcur : m.kernel.currentThread = some t)
    (hcalls : Calls layout m.kernel (Function.update m.calls t o) c.mem)
    (hcpu : OnCpu c (m.kernel.threads t) o) :
    StackInv layout ⟨m.kernel, c, Function.update m.calls t o, yielded, continued⟩ where
  kernel := h.kernel
  calls := hcalls
  rest := by
    intro u hu
    have hne : u ≠ t := fun heq => hu (heq ▸ hcur)
    show AtRest _ (Function.update m.calls t o u)
    rw [Function.update_of_ne hne]
    exact h.rest u hu
  cpu := by
    intro u hu
    cases hcur.symm.trans hu
    show OnCpu _ _ (Function.update m.calls t o t)
    rw [Function.update_self]
    exact hcpu
  blocked := by
    intro u huser hbl
    have hne : u ≠ t := by
      rintro rfl
      cases (h.kernel.run.current_running u hcur).symm.trans hbl
    show Function.update m.calls t o u ≠ none
    rw [Function.update_of_ne hne]
    exact h.blocked u huser hbl

theorem enter_stack (h : StackInv layout m) (hcur : m.kernel.currentThread = some t)
    (hnone : m.calls t = none) (hmode : mode m.cpu.pstate = 0) :
    StackInv layout ({ m with cpu := handleSyncEntry m.cpu.svc }.setCall t
      (some ⟨m.cpu.sp - 280, savedFrame m.cpu.svc, 0⟩)) := by
  have hcpu := h.cpu t hcur
  have huser := (hcpu.outside hnone).mp hmode
  have hspec := handleSyncEntry_spec m.cpu.svc
  have hentry := Calls.entry h hcur hnone (fun hne => absurd hmode hne)
  apply h.running hcur
  · constructor
    · intro u call hcall
      rcases update_call hcall with ⟨rfl, hsome⟩ | ⟨-, hold⟩
      · cases hsome
        constructor
        · exact h.kernel.current_lt hcur
        · exact huser
        · rw [hcpu.user hnone huser]
        · show 0 + 568 ≤ 8 * 4096
          omega
        · exact hmode
      · exact h.calls.call u call hold
    · intro u call hcall
      rcases update_call hcall with ⟨rfl, hsome⟩ | ⟨-, hold⟩
      · cases hsome
        exact intact_entry m.cpu
      · exact hentry.intact u call hold
  · constructor
    · rintro call hcall
      cases hcall
      rw [hspec.sp, hspec.pstate]
      refine ⟨(BitVec.sub_zero _).symm, ?_⟩
      show mode 0x3C5 ≠ 0
      decide
    · simp
    · simp

theorem leave_stack {call : Call} (h : StackInv layout m) (hcur : m.kernel.currentThread = some t)
    (hcall : m.calls t = some call) (hsp : c.sp = m.handlerSp t)
    (hkept : FramesKept m.calls m.cpu.mem c.mem) :
    StackInv layout ({ m with cpu := handleSyncExit c }.setCall t none) := by
  have hin := h.calls.call t call hcall
  have hbase : c.sp = call.base := by
    rw [hsp, Machine.handlerSp, hcall, ((h.cpu t hcur).inside call hcall).1]
    exact BitVec.sub_add_cancel ..
  have hkeep := h.calls.memory hkept
  have hleft := handleSyncExit_spec c
  rw [hbase] at hleft
  have hspsr : (readFrame c call.base).spsr = call.frame.spsr := (hkeep.intact t call hcall).spsr
  apply h.running hcur
  · rw [hleft.mem]
    constructor
    · intro u call' hcall'
      rcases update_call hcall' with ⟨-, hsome⟩ | ⟨-, hold⟩
      · cases hsome
      · exact hkeep.call u call' hold
    · intro u call' hcall'
      rcases update_call hcall' with ⟨-, hsome⟩ | ⟨-, hold⟩
      · cases hsome
      · exact hkeep.intact u call' hold
  · constructor
    · simp
    · intro _
      rw [hleft.pstate, hspsr]
      exact iff_of_true hin.mode hin.user
    · intro _ _
      rw [hleft.sp, hbase, hin.base, BitVec.sub_add_cancel]

theorem StackInv.discipline (h : StackInv layout m) : StackDiscipline m where
  user := by
    intro t hcur huser hmode
    have hcpu := h.cpu t hcur
    cases hcall : m.calls t with
    | none => exact hcpu.user hcall huser
    | some call => exact absurd hmode (hcpu.inside call hcall).2
  blocked := by
    intro t huser hbl
    obtain ⟨call, hcall⟩ := Option.ne_none_iff_exists'.mp (h.blocked t huser hbl)
    have hin := h.calls.call t call hcall
    have hne : m.kernel.currentThread ≠ some t := by
      intro hcur
      cases (h.kernel.run.current_running t hcur).symm.trans hbl
    have hbase := frame_toNat h.kernel.fits hin
    have hge : 2 ^ 63 + 32768 ≤ stackTop m.kernel t := h.kernel.fits.upper t hin.lt
    refine ⟨call, hcall, ?_, by omega⟩
    rw [((h.rest t hne).inside call hcall).1, (call_sp h.kernel.fits hin).1, hbase]
    omega
  intact := h.calls.intact

/-- A yield: the thread goes on, or it rests with what it had. -/
theorem yield_stack (h : StackInv layout m) (hcur : m.kernel.currentThread = some t)
    (hnone : m.calls t = none) (hsp : c.sp = m.cpu.sp - 280)
    (hframe : readFrame c (m.cpu.sp - 280) = savedFrame m.cpu.svc)
    (hcalls : Calls layout k' m.calls c.mem)
    (hb : Step env m.kernel
      (.yield (readFrame (handleSyncEntry m.cpu.svc) (m.cpu.sp - 280))) k')
    (hk : KernelInv layout k') (hresume : Resume layout (some t) k' c (handleSyncExit c) c') :
    (SpBitClear env m (.yield c) →
      StackInv layout ((m.setYielded t (view m.cpu)).goOn k' c')) ∧
    (StackDiscipline ((m.setYielded t (view m.cpu)).goOn k' c') →
      SpBitClear env m (.yield c)) := by
  have hnext : k'.currentThread = some (nextAfterYield env m.kernel) :=
    step_current h.kernel.run hb
  have hcpu := h.cpu t hcur
  rw [hnone] at hcpu
  have hmode := hcpu.outside rfl
  have hsaved := yield_saved hcur hb
  have hrest : AtRest (k'.threads t) none := by
    constructor
    · simp
    · intro _ _
      unfold RightMode
      rw [hsaved.spsr, step_type hb]
      exact hmode
  have hself : ∀ u, m.kernel.currentThread = some u → AtRest (k'.threads u) (m.calls u) ∧
      ((k'.threads u).type = .user → (k'.threads u).state = .blocked → m.calls u ≠ none) := by
    intro u hu
    cases hcur.symm.trans hu
    rw [hnone]
    exact ⟨hrest, fun _ hbl => absurd hbl (yield_not_blocked h.kernel.run hcur hb)⟩
  cases hresume with
  | switch hcur' hne hctx hswitch =>
    cases hnext.symm.trans hcur'
    rw [← hcur] at hne
    exact dispatch_stack h hb hk hnext hne rfl (fun _ _ => rfl) hself hcalls hctx hswitch
  | same hsame =>
    have hleft := handleSyncExit_spec c
    rw [hsp, hframe] at hleft
    refine ⟨fun _ => ⟨?_, ?_, ?_, ?_, ?_⟩, ?_⟩
    · rw [goOn_kernel]
      exact hk
    · rw [goOn_kernel, goOn_calls, goOn_cpu, hleft.mem]
      exact hcalls
    · intro u hu
      rw [goOn_kernel, hsame, ← hcur] at hu
      rw [goOn_kernel, goOn_calls]
      exact (h.rest u hu).step h.kernel.run hb hu
    · intro u hu
      rw [goOn_kernel, hsame] at hu
      cases hu
      rw [goOn_kernel, goOn_calls, goOn_cpu]
      show OnCpu _ _ (m.calls t)
      rw [hnone]
      constructor
      · simp
      · intro _
        unfold RightMode
        rw [hleft.pstate, step_type hb]
        exact hmode
      · intro _ huser
        rw [hleft.sp, hsp, BitVec.sub_add_cancel, step_kernelStackTop hb]
        exact hcpu.user rfl ((step_type hb t).symm.trans huser)
    · intro u huser hbl
      rw [goOn_kernel] at huser hbl
      rw [goOn_calls]
      by_cases hu : m.kernel.currentThread = some u
      · exact (hself u hu).2 huser hbl
      · apply h.blocked u ((step_type hb u).symm.trans huser)
        rcases step_state h.kernel.run hb hu with hst | ⟨-, hst | hst⟩
        · exact hst.symm.trans hbl
        · cases hst.symm.trans hbl
        · cases hst.symm.trans hbl
    · intro _ u hu hne
      cases Option.some.inj hu
      exact absurd (hcur.trans (hsame.symm.trans hnext)) hne

/-- A thread that waits leaves its stack pointer below its frame. -/
theorem block_stack {depth : Nat} {registers : Reg → Word} (h : StackInv layout m)
    (hcur : m.kernel.currentThread = some t) (hwait : mode m.cpu.pstate = 0 → m.calls t ≠ none)
    (hroom : depth + 568 ≤ stackBytes) (hmem : Calls layout m.kernel m.calls c.mem)
    (hb : Step env m.kernel
      (.waitForEvent ⟨registers, m.handlerSp t - BitVec.ofNat 64 depth⟩) k')
    (hk : KernelInv layout k') (hresume : Resume layout (some t) k' c c c') :
    (SpBitClear env m (.block depth registers c) → StackInv layout
      ((m.setCall t ((m.calls t).map fun call => { call with depth })).goOn k' c')) ∧
    (StackDiscipline ((m.setCall t ((m.calls t).map fun call => { call with depth })).goOn k' c') →
      SpBitClear env m (.block depth registers c)) := by
  have hnext := step_current h.kernel.run hb
  have haway := block_leaves h.kernel.run hcur hb
  have hcpu := h.cpu t hcur
  have hctxt := step_keeps ctx_steady hb t
  rw [if_pos hcur] at hctxt
  have hnew : ∀ u call, Function.update m.calls t
      ((m.calls t).map fun call => { call with depth }) u = some call →
      ∃ old, m.calls u = some old ∧ call.base = old.base ∧ call.frame = old.frame ∧
        (u = t → call.depth = depth) ∧ (u ≠ t → call = old) := by
    intro u call hcall
    rcases update_call hcall with ⟨rfl, hsome⟩ | ⟨hne, hold⟩
    · obtain ⟨old, hold, rfl⟩ := Option.map_eq_some_iff.mp hsome
      exact ⟨old, hold, rfl, rfl, fun _ => rfl, fun hne => absurd rfl hne⟩
    · exact ⟨call, hold, rfl, rfl, fun heq => absurd heq hne, fun _ => rfl⟩
  have hcalls : Calls layout k' (m.setCall t ((m.calls t).map fun call =>
      { call with depth })).calls c.mem := by
    constructor
    · intro u call hcall
      obtain ⟨old, hold, hbase, hframe, hdepth, hsame⟩ := hnew u call hcall
      have hin := (hmem.call u old hold).step hb
      refine ⟨hin.lt, hin.user, hbase.trans hin.base, ?_, ?_⟩
      · by_cases hu : u = t
        · rw [hdepth hu]
          exact hroom
        · rw [hsame hu]
          exact hin.room
      · rw [hframe]
        exact hin.mode
    · intro u call hcall
      obtain ⟨old, hold, hbase, hframe, -, -⟩ := hnew u call hcall
      have hold' := hmem.intact u old hold
      constructor
      · rw [hbase, hframe]
        exact hold'.registers
      · rw [hbase, hframe]
        exact hold'.sp
      · rw [hbase, hframe]
        exact hold'.elr
      · rw [hbase, hframe]
        exact hold'.spsr
  have hself : ∀ u, m.kernel.currentThread = some u → AtRest (k'.threads u)
      ((m.setCall t ((m.calls t).map fun call => { call with depth })).calls u) ∧
      ((k'.threads u).type = .user → (k'.threads u).state = .blocked →
        (m.setCall t ((m.calls t).map fun call => { call with depth })).calls u ≠ none) := by
    intro u hu
    cases hcur.symm.trans hu
    have hset : (m.setCall t ((m.calls t).map fun call => { call with depth })).calls t =
        (m.calls t).map fun call => { call with depth } := Function.update_self ..
    rw [hset]
    refine ⟨⟨?_, ?_⟩, ?_⟩
    · intro call hcall
      obtain ⟨old, hold, rfl⟩ := Option.map_eq_some_iff.mp hcall
      rw [hctxt]
      refine ⟨?_, by show mode spsrModeEl1H ≠ 0; decide⟩
      show m.handlerSp t - BitVec.ofNat 64 depth = _
      rw [Machine.handlerSp, hold, (hcpu.inside old hold).1]
      exact congrArg (· - BitVec.ofNat 64 depth) (BitVec.sub_add_cancel ..)
    · intro hnone _
      have hnone' : m.calls t = none := Option.map_eq_none_iff.mp hnone
      unfold RightMode
      rw [hctxt, step_type hb]
      refine iff_of_false (by show mode spsrModeEl1H ≠ 0; decide) ?_
      intro huser
      exact hwait ((hcpu.outside hnone').mpr huser) hnone'
    · intro huser _ hnone
      have hnone' : m.calls t = none := Option.map_eq_none_iff.mp hnone
      rw [step_type hb] at huser
      exact hwait ((hcpu.outside hnone').mpr huser) hnone'
  cases hresume with
  | same hsame => exact absurd hsame haway
  | switch hcur' hne hctx hswitch =>
    cases hnext.symm.trans hcur'
    rw [← hcur] at hne
    refine dispatch_stack h hb hk hnext hne rfl ?_ hself hcalls hctx hswitch
    intro u hu
    have hne : u ≠ t := fun heq => hu (heq ▸ hcur)
    exact Function.update_of_ne hne ..

/-- The end of a thread is the end of its system call. -/
theorem terminate_stack (h : StackInv layout m) (hcur : m.kernel.currentThread = some t)
    (hmem : Calls layout m.kernel m.calls c.mem) (hb : Step env m.kernel .terminate k')
    (hk : KernelInv layout k') (hresume : Resume layout (some t) k' c c c') :
    (SpBitClear env m (.terminate c) → StackInv layout ((m.setCall t none).goOn k' c')) ∧
    (StackDiscipline ((m.setCall t none).goOn k' c') → SpBitClear env m (.terminate c)) := by
  have hnext := step_current h.kernel.run hb
  obtain ⟨hterm, haway⟩ := terminate_ends h.kernel.run hcur hb
  have hcalls : Calls layout k' (m.setCall t none).calls c.mem := by
    constructor
    · intro u call hcall
      rcases update_call hcall with ⟨-, hsome⟩ | ⟨-, hold⟩
      · cases hsome
      · exact (hmem.call u call hold).step hb
    · intro u call hcall
      rcases update_call hcall with ⟨-, hsome⟩ | ⟨-, hold⟩
      · cases hsome
      · exact hmem.intact u call hold
  have hself : ∀ u, m.kernel.currentThread = some u →
      AtRest (k'.threads u) ((m.setCall t none).calls u) ∧
      ((k'.threads u).type = .user → (k'.threads u).state = .blocked →
        (m.setCall t none).calls u ≠ none) := by
    intro u hu
    cases hcur.symm.trans hu
    have hset : (m.setCall t none).calls t = none := Function.update_self ..
    rw [hset]
    refine ⟨⟨by simp, fun _ hlive => absurd hterm hlive⟩, ?_⟩
    intro _ hbl
    cases hterm.symm.trans hbl
  cases hresume with
  | same hsame => exact absurd hsame haway
  | switch hcur' hne hctx hswitch =>
    cases hnext.symm.trans hcur'
    rw [← hcur] at hne
    refine dispatch_stack h hb hk hnext hne rfl ?_ hself hcalls hctx hswitch
    intro u hu
    have hne : u ≠ t := fun heq => hu (heq ▸ hcur)
    exact Function.update_of_ne hne ..

/-- One step keeps the invariant where the condition holds, and leads to a
state of discipline only there. -/
theorem step_stack {a : CpuAction} (h : StackInv layout m) (hstep : CpuStep env layout m a m') :
    (SpBitClear env m a → StackInv layout m') ∧ (StackDiscipline m' → SpBitClear env m a) := by
  have hk := h.kernel.cpuStep hstep
  cases hstep with
  | @boot k' c c' hnone _ hkept hb hresume =>
    rw [goOn_kernel] at hk
    have hcalls : Calls layout k' m.calls c.mem := (h.calls.memory hkept).step hb
    cases hresume with
    | same hsame =>
      have hcur := step_current h.kernel.run hb
      rw [hsame] at hcur
      cases hcur
    | switch hcur hne hctx hswitch =>
      have hnext := step_current h.kernel.run hb
      cases hnext.symm.trans hcur
      refine dispatch_stack h hb hk hcur (by rw [hnone]; simp) rfl (fun _ _ => rfl) ?_ hcalls hctx
        hswitch
      intro t ht
      rw [hnone] at ht
      cases ht
  | @compute t c hcur hnone hmode hsp hkept =>
    apply quiet_stack rfl
    have hcpu := h.cpu t hcur
    have hinv : StackInv layout
        ⟨m.kernel, c, Function.update m.calls t none, m.yielded, m.continued⟩ :=
      h.running hcur ?_ ?_
    · rwa [← hnone, Function.update_eq_self] at hinv
    · rw [← hnone, Function.update_eq_self]
      exact h.calls.memory hkept
    · rw [hnone] at hcpu
      constructor
      · simp
      · intro _
        unfold RightMode
        rw [hmode]
        exact hcpu.outside rfl
      · intro _ huser
        rw [hsp ((hcpu.outside rfl).mpr huser)]
        exact hcpu.user rfl huser
  | enter hcur hnone hmode _ => exact quiet_stack rfl (enter_stack h hcur hnone hmode)
  | leave hcur hcall hsp _ hkept => exact quiet_stack rfl (leave_stack h hcur hcall hsp hkept)
  | @yield t k' c c' hcur hnone _ hkernel hsp _ hframe hkept hb hresume =>
    rw [goOn_kernel] at hk
    have hcalls : Calls layout k' m.calls c.mem :=
      ((Calls.entry h hcur hnone hkernel).memory hkept).step hb
    exact yield_stack h hcur hnone hsp hframe hcalls hb hk hresume
  | @block t k' depth registers c c' hcur hwait hroom _ hkept hb hresume =>
    rw [goOn_kernel] at hk
    exact block_stack h hcur hwait hroom (h.calls.memory hkept) hb hk hresume
  | @terminate t k' c c' hcur hwait _ hkept hb hresume =>
    rw [goOn_kernel] at hk
    exact terminate_stack h hcur (h.calls.memory hkept) hb hk hresume
  | threadStart ht hb =>
    exact quiet_stack rfl (h.enqueue hb hk (step_current h.kernel.run hb))
  | wakeUp hb => exact quiet_stack rfl (h.enqueue hb hk (step_current h.kernel.run hb))

theorem init_stackInv (h : MachineInit layout m) : StackInv layout m where
  kernel := h.kernelInv
  calls := by
    constructor
    · intro t call hcall
      cases (h.calls t).symm.trans hcall
    · intro t call hcall
      cases (h.calls t).symm.trans hcall
  rest := by
    intro t _
    rw [h.calls t]
    refine ⟨by simp, fun _ _ => ?_⟩
    obtain ⟨kernelStack, entryPoint, top, type, th, process, hmade, hth⟩ := h.made t
    rw [hth]
    unfold threadInit at hmade
    split at hmade
    · cases hmade
    · cases hmade
      cases type
      · exact iff_of_false (by show mode spsrModeEl1H ≠ 0; decide) (by simp)
      · exact iff_of_true (by show mode spsrModeEl0 = 0; decide) rfl
  cpu := by
    intro t hcur
    cases h.currentThread.symm.trans hcur
  blocked := by
    intro t _ hbl
    cases (h.fresh t).1.symm.trans hbl

/-- In a run, the discipline holds after every step exactly when every
switch to a user thread outside a system call finds bit 63 clear. -/
theorem stack_discipline_iff (env : Env) (layout : Layout)
    (history : List (Machine × CpuAction)) (m : Machine)
    (h : Run (MachineInit layout) (CpuStep env layout) history m) :
    (∀ p ∈ history, ∀ m', CpuStep env layout p.1 p.2 m' → StackDiscipline m') ↔
      ∀ p ∈ history, SpBitClear env p.1 p.2 := by
  have hstep : ∀ m a m', StackInv layout m → SpBitClear env m a → CpuStep env layout m a m' →
      StackInv layout m' :=
    fun _ _ _ hinv hclear hstep => (step_stack hinv hstep).1 hclear
  have hok : ∀ m a m', StackInv layout m → CpuStep env layout m a m' →
      ((∀ m', CpuStep env layout m a m' → StackDiscipline m') ↔ SpBitClear env m a) := by
    intro m a m' hinv hstep
    constructor
    · intro hok
      exact (step_stack hinv hstep).2 (hok m' hstep)
    · intro hclear m'' hstep'
      exact ((step_stack hinv hstep').1 hclear).discipline
  exact h.all_iff (fun _ hm => init_stackInv hm) hstep hok

/-- The discipline of the pair's first thread is lost when it yields with
bit 63 of its stack pointer set. -/
theorem pair_no_discipline : ¬ ∀ env layout history m,
    Run (MachineInit layout) (CpuStep env layout) history m →
      ∀ p ∈ history, ∀ m', CpuStep env layout p.1 p.2 m' → StackDiscipline m' := by
  intro h
  obtain ⟨history, m, c, m', v, hrun, hstep, -, -, -, -, -, hcur, huser, htop, hmode, hsp⟩ :=
    pair_returns (fun _ => syscallYield) rfl 0x8000000000000000
  have hdisc := h _ _ _ _ (.next hrun hstep) _ List.mem_cons_self _ hstep
  have hbad := hsp.symm.trans (hdisc.user 1 hcur huser hmode)
  rw [htop] at hbad
  revert hbad
  decide

/-- A run of the pair with the stack pointer in the lower half. -/
theorem pair_discipline_iff : ∃ history m,
    Run (MachineInit pairLayout) (CpuStep bootEnv pairLayout) history m ∧ history ≠ [] ∧
      ((∀ p ∈ history, ∀ m', CpuStep bootEnv pairLayout p.1 p.2 m' → StackDiscipline m') ↔
        ∀ p ∈ history, SpBitClear bootEnv p.1 p.2) := by
  obtain ⟨history, m, _, m', v, hrun, hstep, -⟩ :=
    pair_returns (fun _ => syscallYield) rfl 0x800000
  exact ⟨_, m', .next hrun hstep, List.cons_ne_nil _ _,
    stack_discipline_iff bootEnv pairLayout _ m' (.next hrun hstep)⟩

end

end ZOs.Scheduler
