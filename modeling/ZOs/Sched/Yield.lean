import ZOs.Sched.Machine

/-!
# What a yield leaves of the registers

A thread that yields goes on in one of two ways. When it is alone,
`scheduler_run` returns and `handle_sync` restores the whole frame. When
another thread has run meanwhile, `scheduler_switch_to_thread` restores the
context, but it computes in `x0` to `x3` after it has loaded them, and it
takes bit 63 of the stack pointer for the mode of the thread.
`ScratchFits` says for which registers that is not seen.
-/

namespace ZOs.Scheduler

open Runs A64

/-- The same registers but for `x0`, the result of the call. -/
structure Agree (v w : View) : Prop where
  x : ∀ i : Reg, i ≠ 0 → i ≠ 31 → w.x i = v.x i
  sp : w.sp = v.sp
  pc : w.pc = v.pc
  pstate : w.pstate = v.pstate

/-- Every thread that went on after a yield found its registers. -/
def Transparent (m : Machine) : Prop := ∀ p ∈ m.continued, Agree p.1 p.2

/-- The scratch registers of the switch happen to hold what they held at
the `svc`, and bit 63 of the stack pointer tells the mode, or else SP_EL0 or
SP_EL1 happens to be right. -/
structure ScratchFits (v : View) (spEl0 top : Word) : Prop where
  x1 : v.x 1 = v.sp
  x2 : v.x 2 = v.sp >>> 63
  x3 : v.x 3 = v.pstate
  user : mode v.pstate = 0 → v.sp >>> 63 = 0 ∨ spEl0 = v.sp
  kernel : mode v.pstate ≠ 0 → v.sp >>> 63 ≠ 0 ∨ v.sp = top - 288

/-- A thread that the action switches to after a yield does not see the
switch. -/
def Unseen (env : Env) (m : Machine) (a : CpuAction) : Prop :=
  ∀ t, dispatches env m a = some t → m.kernel.currentThread ≠ some t →
    ∀ v, m.yielded t = some v →
      ScratchFits v m.cpu.spEl0 (m.kernel.threads t).kernelStackTop

/-- A context holds what a thread saw. -/
structure View.Saved (v : View) (ctx : ThreadContext) : Prop where
  registers : ctx.registers = v.x
  sp : ctx.sp = v.sp
  elr : ctx.elr = v.pc
  spsr : ctx.spsr = v.pstate

section
variable {env : Env} {layout : Layout} {m m' : Machine} {k k' : Kernel} {c c' : Cpu}
  {t u : ThreadId} {v w : View}

/-! ## The two ways of going on -/

/-- The straight way restores everything. -/
theorem straight_agrees (hsp : c.sp = m.cpu.sp - 280)
    (hframe : readFrame c (m.cpu.sp - 280) = savedFrame m.cpu.svc) :
    Agree (view m.cpu) (view (handleSyncExit c)) := by
  have hleft := handleSyncExit_spec c
  rw [hsp, hframe] at hleft
  constructor
  · intro i _ hi
    exact hleft.get i hi
  · show (if mode (handleSyncExit c).pstate = 0 then _ else _) = _
    rw [hleft.pstate, hleft.spEl0, hleft.sp, hsp]
    show (if mode m.cpu.pstate = 0 then (if mode m.cpu.pstate = 0 then (view m.cpu).sp else _)
      else _) = (view m.cpu).sp
    by_cases hmode : mode m.cpu.pstate = 0
    · rw [if_pos hmode, if_pos hmode]
    · rw [if_neg hmode, BitVec.sub_add_cancel]
      exact (if_neg hmode).symm
  · exact hleft.pc
  · exact hleft.pstate

/-- The other way restores everything exactly when its scratch values fit. -/
theorem switched_agrees_iff {ctx : ThreadContext} {base top : Word} (h : Switched ctx base c c')
    (hsaved : v.Saved ctx) (hbase : base = top - 288) :
    Agree v (view c') ↔ ScratchFits v c.spEl0 top := by
  obtain ⟨-, h1, h2, h3⟩ := h.scratch
  have hpstate : (view c').pstate = v.pstate := h.pstate.trans hsaved.spsr
  have hpc : (view c').pc = v.pc := h.pc.trans hsaved.elr
  rw [hsaved.sp] at h1 h2
  rw [hsaved.spsr] at h3
  have hsp : (view c').sp = if mode v.pstate = 0 then c'.spEl0 else c'.sp := by
    show (if mode c'.pstate = 0 then _ else _) = _
    rw [h.pstate, hsaved.spsr]
  rw [h.sp, h.spEl0, hsaved.sp, hbase] at hsp
  constructor
  · intro hagree
    have hsame := hagree.sp
    rw [hsp] at hsame
    constructor
    · exact (hagree.x 1 (by decide) (by decide)).symm.trans h1
    · exact (hagree.x 2 (by decide) (by decide)).symm.trans h2
    · exact (hagree.x 3 (by decide) (by decide)).symm.trans h3
    · intro hmode
      rw [if_pos hmode] at hsame
      by_cases hbit : v.sp >>> 63 = 0
      · exact .inl hbit
      · rw [if_neg hbit] at hsame
        exact .inr hsame
    · intro hmode
      rw [if_neg hmode] at hsame
      by_cases hbit : v.sp >>> 63 = 0
      · rw [if_pos hbit] at hsame
        exact .inr hsame.symm
      · exact .inl hbit
  · intro hfits
    constructor
    · intro i h0 h31
      show c'.get i = v.x i
      -- x1, x2 and x3 are scratch registers, the rest is from the context
      match i, h0, h31 with
      | 0, h0, _ => exact absurd rfl h0
      | 1, _, _ => exact h1.trans hfits.x1.symm
      | 2, _, _ => exact h2.trans hfits.x2.symm
      | 3, _, _ => exact h3.trans hfits.x3.symm
      | ⟨j + 4, hj⟩, _, h31 => rw [h.get _ (Nat.le_add_left 4 j) h31, hsaved.registers]
    · rw [hsp]
      by_cases hmode : mode v.pstate = 0
      · rw [if_pos hmode]
        split
        · rfl
        · exact (hfits.user hmode).resolve_left ‹_›
      · rw [if_neg hmode]
        split
        · exact ((hfits.kernel hmode).resolve_left (not_not_intro ‹_›)).symm
        · rfl
    · exact hpc
    · exact hpstate

/-! ## The invariant -/

/-- A thread with a yield pending does not run, and its context holds what
it saw. -/
structure YieldInv (layout : Layout) (m : Machine) : Prop where
  kernel : KernelInv layout m.kernel
  away : ∀ t v, m.yielded t = some v → m.kernel.currentThread ≠ some t
  saved : ∀ t v, m.yielded t = some v → v.Saved (m.kernel.threads t).ctx

theorem ctx_steady : Steady Thread.ctx := fun _ _ _ => rfl

/-- The context of a thread that does not run is kept. -/
theorem step_ctx {b : Action} (hstep : Step env k b k') (ht : k.currentThread ≠ some t) :
    (k'.threads t).ctx = (k.threads t).ctx := by
  rw [step_keeps ctx_steady hstep, if_neg ht]

/-- A yield saves what the thread saw. -/
theorem yield_saved (hcur : m.kernel.currentThread = some t)
    (hstep : Step env m.kernel
      (.yield (readFrame (handleSyncEntry m.cpu.svc) (m.cpu.sp - 280))) k') :
    (view m.cpu).Saved (k'.threads t).ctx := by
  have hframe : readFrame (handleSyncEntry m.cpu.svc) (m.cpu.sp - 280) = savedFrame m.cpu.svc :=
    (handleSyncEntry_spec m.cpu.svc).frame
  have hctx := step_keeps ctx_steady hstep t
  rw [if_pos hcur, hframe] at hctx
  rw [hctx]
  exact ⟨rfl, rfl, rfl, rfl⟩

theorem setYielded_self (m : Machine) (t : ThreadId) (v : View) :
    (m.setYielded t v).yielded t = some v :=
  Function.update_self ..

theorem setYielded_cases {t : ThreadId} (h : (m.setYielded t w).yielded u = some v) :
    (u = t ∧ v = w) ∨ (u ≠ t ∧ m.yielded u = some v) := by
  by_cases hu : u = t
  · subst hu
    exact .inl ⟨rfl, Option.some.inj (h.symm.trans (setYielded_self m u w))⟩
  · have hkeep : (m.setYielded t w).yielded u = m.yielded u := Function.update_of_ne hu ..
    exact .inr ⟨hu, hkeep.symm.trans h⟩

/-- A step of the scheduler that stores no yield keeps the invariant. -/
theorem YieldInv.goOn {b : Action} {calls : ThreadId → Option Call} (h : YieldInv layout m)
    (hk : KernelInv layout k') (hstep : Step env m.kernel b k') :
    YieldInv layout (Machine.goOn { m with calls := calls } k' c') where
  kernel := by
    rw [goOn_kernel]
    exact hk
  away := by
    intro u v hv
    rw [goOn_kernel]
    exact (goOn_yielded.mp hv).2
  saved := by
    intro u v hv
    have hold : m.yielded u = some v := (goOn_yielded.mp hv).1
    rw [goOn_kernel, step_ctx hstep (h.away u v hold)]
    exact h.saved u v hold

theorem YieldInv.step {a : CpuAction} (h : YieldInv layout m) (hstep : CpuStep env layout m a m') :
    YieldInv layout m' := by
  have hk := h.kernel.cpuStep hstep
  -- a step that enqueues a thread
  have henqueue : ∀ {b : Action} {k' : Kernel}, KernelInv layout k' → Step env m.kernel b k' →
      k'.currentThread = m.kernel.currentThread → YieldInv layout { m with kernel := k' } := by
    intro b k' hk' hb hcur
    refine ⟨hk', ?_, ?_⟩
    · intro u v hv
      show k'.currentThread ≠ some u
      rw [hcur]
      exact h.away u v hv
    · intro u v hv
      show v.Saved (k'.threads u).ctx
      rw [step_ctx hb (h.away u v hv)]
      exact h.saved u v hv
  cases hstep with
  | boot _ _ _ hb => exact h.goOn (by simpa using hk) hb
  | compute => exact ⟨hk, h.away, h.saved⟩
  | enter => exact ⟨hk, h.away, h.saved⟩
  | leave => exact ⟨hk, h.away, h.saved⟩
  | yield hcur _ _ _ _ _ _ _ hb =>
    refine ⟨hk, ?_, ?_⟩
    · intro u v hv
      rw [goOn_kernel]
      exact (goOn_yielded.mp hv).2
    · intro u v hv
      rw [goOn_kernel]
      rcases setYielded_cases (goOn_yielded.mp hv).1 with ⟨rfl, rfl⟩ | ⟨-, hold⟩
      · exact yield_saved hcur hb
      · rw [step_ctx hb (h.away u v hold)]
        exact h.saved u v hold
  | block _ _ _ _ _ hb => exact h.goOn (by simpa using hk) hb
  | terminate _ _ _ _ hb => exact h.goOn (by simpa using hk) hb
  | threadStart ht hb => exact henqueue hk hb (step_current h.kernel.run hb)
  | wakeUp hb => exact henqueue hk hb (step_current h.kernel.run hb)

/-! ## The property -/

theorem goOn_transparent : Transparent (m.goOn k c) ↔ Transparent m ∧
    ∀ t v, k.currentThread = some t → m.yielded t = some v → Agree v (view c) := by
  constructor
  · intro h
    refine ⟨fun p hp => h p (goOn_continued.mpr (.inl hp)), ?_⟩
    intro t v hcur hv
    exact h (v, view c) (goOn_continued.mpr (.inr ⟨t, v, hcur, hv, rfl⟩))
  · rintro ⟨hold, hnew⟩ p hp
    rcases goOn_continued.mp hp with hp | ⟨t, v, hcur, hv, rfl⟩
    · exact hold p hp
    · exact hnew t v hcur hv

/-- A thread that is switched to agrees exactly when the scratch values
fit. -/
theorem switch_agrees_iff (hk : KernelInv layout k) (hcur : k.currentThread = some t)
    (hsaved : v.Saved (k.threads t).ctx)
    (hctx : HoldsContext c (layout.ctxAddress t) (k.threads t).ctx)
    (hswitch : schedulerSwitchToThread 18 (switchEntry layout k t c) = some c') :
    Agree v (view c') ↔ ScratchFits v c.spEl0 (k.threads t).kernelStackTop := by
  obtain ⟨c'', heq, hspec⟩ := hk.switch hcur hctx
  cases heq.symm.trans hswitch
  exact switched_agrees_iff hspec hsaved rfl

/-- Where `scheduler_run` has dispatched `t`, a pending yield of another
thread is continued unseen exactly when its scratch values fit. -/
theorem resume_agrees_iff {straight : Cpu} {spEl0 : Word} (h : YieldInv layout m)
    (hk : KernelInv layout k') {b : Action} (hstep : Step env m.kernel b k')
    (hcur : k'.currentThread = some t) (hkeep : c.spEl0 = spEl0)
    (hresume : Resume layout m.kernel.currentThread k' c straight c') :
    (m.kernel.currentThread ≠ some t → ∀ v, m.yielded t = some v → Agree v (view c')) ↔
      (m.kernel.currentThread ≠ some t → ∀ v, m.yielded t = some v →
        ScratchFits v spEl0 (m.kernel.threads t).kernelStackTop) := by
  apply imp_congr_right
  intro hne
  apply forall_congr'
  intro v
  apply imp_congr_right
  intro hv
  cases hresume with
  | same hsame => exact absurd (hsame.symm.trans hcur) hne
  | switch hcur' _ hctx hswitch =>
    cases hcur.symm.trans hcur'
    have hsaved : v.Saved (k'.threads t).ctx := by
      rw [step_ctx hstep hne]
      exact h.saved t v hv
    rw [switch_agrees_iff hk hcur hsaved hctx hswitch, hkeep, step_kernelStackTop hstep]

/-- An action that dispatches a thread, and is no yield. -/
theorem goOn_transparent_iff {straight : Cpu} {calls : ThreadId → Option Call}
    {a : CpuAction} (h : YieldInv layout m) (hk : KernelInv layout k') {b : Action}
    (hstep : Step env m.kernel b k') (hcur : k'.currentThread = some t)
    (ha : dispatches env m a = some t) (hkeep : c.spEl0 = m.cpu.spEl0)
    (hresume : Resume layout m.kernel.currentThread k' c straight c') :
    Transparent (Machine.goOn { m with calls := calls } k' c') ↔
      Transparent m ∧ Unseen env m a := by
  have hiff := resume_agrees_iff h hk hstep hcur hkeep hresume
  rw [goOn_transparent]
  apply and_congr_right
  intro _
  constructor
  · intro hagree u hu hne
    cases ha.symm.trans hu
    exact hiff.mp (fun _ v hv => hagree t v hcur hv) hne
  · intro hunseen u v hu hv
    cases hcur.symm.trans hu
    exact hiff.mpr (hunseen t ha) (h.away t v hv) v hv

/-- One step keeps the yields transparent exactly when it is unseen. -/
theorem step_transparent_iff {a : CpuAction} (h : YieldInv layout m)
    (hstep : CpuStep env layout m a m') : Transparent m' ↔ Transparent m ∧ Unseen env m a := by
  have hk := h.kernel.cpuStep hstep
  have hidle : ∀ {a : CpuAction}, dispatches env m a = none → Unseen env m a := by
    intro a ha t ht
    rw [ha] at ht
    cases ht
  cases hstep with
  | boot hnone hkeep _ hb hresume =>
    rw [← hnone] at hresume
    exact goOn_transparent_iff h (by simpa using hk) hb (step_current h.kernel.run hb) rfl hkeep
      hresume
  | compute => exact (and_iff_left (hidle rfl)).symm
  | enter => exact (and_iff_left (hidle rfl)).symm
  | leave => exact (and_iff_left (hidle rfl)).symm
  | @yield t k' c c' hcur _ _ _ hsp hkeep hframe _ hb hresume =>
    rw [goOn_kernel] at hk
    have hnext : k'.currentThread = some (nextAfterYield env m.kernel) :=
      step_current h.kernel.run hb
    rw [← hcur] at hresume
    have hiff := resume_agrees_iff h hk hb hnext hkeep hresume
    rw [goOn_transparent]
    apply and_congr_right
    intro _
    constructor
    · intro hagree u hu hne
      cases Option.some.inj hu
      refine hiff.mp (fun hne v hv => hagree _ v hnext ?_) hne
      have hnot : nextAfterYield env m.kernel ≠ t := fun heq => hne (heq ▸ hcur)
      exact (Function.update_of_ne hnot ..).trans hv
    · intro hunseen u v hu hv
      cases hnext.symm.trans hu
      rcases setYielded_cases hv with ⟨hself, rfl⟩ | ⟨hne, hv⟩
      · -- the thread was alone: it goes on the straight way
        cases hresume with
        | same _ => exact straight_agrees hsp hframe
        | switch hcur' hne' _ _ =>
          cases hnext.symm.trans hcur'
          exact absurd (hself ▸ hcur) hne'
      · have hnot : m.kernel.currentThread ≠ some (nextAfterYield env m.kernel) := by
          rw [hcur]
          exact fun heq => hne (Option.some.inj heq).symm
        exact hiff.mpr (hunseen _ rfl) hnot v hv
  | block hcur _ _ hkeep _ hb hresume =>
    rw [← hcur] at hresume
    exact goOn_transparent_iff h (by simpa using hk) hb (step_current h.kernel.run hb) rfl hkeep
      hresume
  | terminate hcur _ hkeep _ hb hresume =>
    rw [← hcur] at hresume
    exact goOn_transparent_iff h (by simpa using hk) hb (step_current h.kernel.run hb) rfl hkeep
      hresume
  | threadStart => exact (and_iff_left (hidle rfl)).symm
  | wakeUp => exact (and_iff_left (hidle rfl)).symm

theorem init_yieldInv (h : MachineInit layout m) : YieldInv layout m := by
  refine ⟨h.kernelInv, ?_, ?_⟩
  · intro t v hv
    cases (h.yielded t).symm.trans hv
  · intro t v hv
    cases (h.yielded t).symm.trans hv

end

/-! ## A pair of threads -/

/-- A CPU whose memory holds a context. -/
def withContext (c : Cpu) (address : Word) (ctx : ThreadContext) : Cpu :=
  { c with
    mem := fun a =>
      if ∃ i : Fin 36, a = slot address i then
        ctx.word (Fin.ofNat 36 ((a - address).toNat / 8))
      else c.mem a }

theorem withContext_holds (c : Cpu) (address : Word) (ctx : ThreadContext) :
    HoldsContext (withContext c address ctx) address ctx := by
  intro i
  have hi := i.isLt
  show (if _ then _ else _) = _
  rw [if_pos ⟨i, rfl⟩]
  congr 1
  have hsub : slot address i - address = BitVec.ofNat 64 (8 * i) := by
    unfold slot
    rw [BitVec.add_comm, BitVec.add_sub_cancel]
  rw [hsub, BitVec.toNat_ofNat]
  apply Fin.ext
  show 8 * i.val % 2 ^ 64 / 8 % 36 = i.val
  omega

theorem withContext_other {c : Cpu} {address a : Word} {ctx : ThreadContext}
    (h : ∀ i : Fin 36, a ≠ slot address i) : (withContext c address ctx).mem a = c.mem a :=
  if_neg fun ⟨i, hi⟩ => h i hi

/-- Thread 1 is a user thread, the others are kernel threads. -/
def pairThread (t : ThreadId) : Thread where
  process := none
  kernelStackTop := 0x8000000000000000 + BitVec.ofNat 64 (0x10000 * min t 2) + kernelStackSize
  stackTop := 0x800000
  state := .ready
  type := if t = 1 then .user else .kernel
  ctx :=
    { entryPoint := 0x400000
      sp := 0x800000
      registers := fun _ => 0
      spsr := if t = 1 then spsrModeEl0 else spsrModeEl1H
      elr := 0x400000 }
  runQueueNode := none

def pairKernel : Kernel where
  currentThread := none
  runQueue := []
  threads := pairThread
  ttbr0 := 0x1000
  ttbr1 := 0x2000
  kmallocs := 0
  trace := []

def pairLayout : Layout where
  ctxAddress := fun t => BitVec.ofNat 64 (0x1000 * (t + 1))
  count := 3

/-- The state after an action that returns. -/
def after (k : Kernel) (a : Action) : Kernel := (exec bootEnv k a).toOption.getD k

/-- Both threads are started, and thread 1 is dispatched. -/
def pairStarted : Kernel := after (after pairKernel (.threadStart 1)) (.threadStart 2)

def pairBooted : Kernel := after pairStarted .run

def pairMachine (k : Kernel) (c : Cpu) : Machine where
  kernel := k
  cpu := c
  calls := fun _ => none
  yielded := fun _ => none
  continued := []

def resetCpu : Cpu where
  x := fun _ => 0
  sp := 0
  spEl0 := 0
  elr := 0
  spsr := 0
  esr := 0
  pc := 0
  pstate := 0x3C5
  mem := fun _ => 0

theorem pair_fits : pairLayout.Fits pairKernel := by
  constructor
  · decide
  all_goals decide

theorem pair_init : MachineInit pairLayout (pairMachine pairKernel resetCpu) where
  currentThread := rfl
  runQueue := rfl
  trace := rfl
  fresh := fun _ => ⟨rfl, rfl⟩
  idle := rfl
  toFits := pair_fits
  made := by
    intro t
    refine ⟨0x8000000000000000 + BitVec.ofNat 64 (0x10000 * min t 2), 0x400000, 0x800000,
      if t = 1 then .user else .kernel, pairThread t, none, ?_, rfl⟩
    have hstack : 0x8000000000000000 + BitVec.ofNat 64 (0x10000 * min t 2) ≠ (0 : Word) := by
      have hmin : min t 2 ≤ 2 := Nat.min_le_right t 2
      intro h
      have hnat := congrArg BitVec.toNat h
      rw [BitVec.toNat_add, BitVec.toNat_ofNat] at hnat
      simp at hnat
      omega
    unfold threadInit
    rw [if_neg hstack]
    by_cases ht : t = 1
    · subst ht
      rfl
    · simp [pairThread, ht]
  idleType := rfl
  calls := fun _ => rfl
  yielded := fun _ => rfl
  continued := rfl

/-- The machine with both threads started and thread 1 in user mode. -/
theorem pair_booted : ∃ history c,
    Run (MachineInit pairLayout) (CpuStep bootEnv pairLayout) history
        (pairMachine pairBooted c) ∧
      mode c.pstate = 0 ∧ c.sp = (pairThread 1).kernelStackTop - 288 := by
  have hstart : Step bootEnv pairKernel (.threadStart 1)
      (after pairKernel (.threadStart 1)) := ⟨by decide, rfl⟩
  have hstart' : Step bootEnv (after pairKernel (.threadStart 1)) (.threadStart 2)
      pairStarted := ⟨by decide, rfl⟩
  have hrun : Step bootEnv pairStarted .run pairBooted := ⟨by decide, rfl⟩
  have hinit : KernelInv pairLayout pairKernel := pair_init.kernelInv
  have hinv : KernelInv pairLayout pairBooted := by
    refine ((hinit.step hstart ?_).step hstart' ?_).step hrun (by simp)
    · rintro t ht
      cases ht
      decide
    · rintro t ht
      cases ht
      decide
  have hcur : pairBooted.currentThread = some 1 := rfl
  let c := withContext resetCpu (pairLayout.ctxAddress 1) (pairBooted.threads 1).ctx
  obtain ⟨c', hswitch, hspec⟩ := hinv.switch hcur (c := c) (withContext_holds resetCpu _ _)
  refine ⟨_, c', .next (.next (.next (.start pair_init) (.threadStart (by decide) hstart))
    (.threadStart (by decide) hstart')) (a := .boot c) ?_, ?_, ?_⟩
  · have hboot : CpuStep bootEnv pairLayout (pairMachine pairStarted resetCpu) (.boot c) _ :=
      .boot rfl rfl
      (fun _ _ h => by cases h) hrun
      (.switch hcur (by simp) (withContext_holds resetCpu _ _) hswitch)
    exact hboot
  · rw [hspec.pstate]
    decide
  · rw [hspec.sp]
    decide

/-- Thread 1 has yielded to thread 2. -/
def pairYielded (frame : ExceptionFrame) : Kernel := after pairBooted (.yield frame)

/-- Thread 2 has ended, and thread 1 runs again. -/
def pairReturned (frame : ExceptionFrame) : Kernel := after (pairYielded frame) .terminate

theorem pairYielded_next (frame : ExceptionFrame) :
    nextThread (pairYielded frame) = 1 ∧ (pairYielded frame).currentThread = some 2 ∧
      ((pairYielded frame).threads 2).ctx.spsr = spsrModeEl1H :=
  ⟨rfl, rfl, rfl⟩

theorem pairReturned_next (frame : ExceptionFrame) :
    (pairReturned frame).currentThread = some 1 ∧
      ((pairReturned frame).threads 1).ctx.sp = frame.sp ∧
      ((pairReturned frame).threads 1).ctx.spsr = frame.spsr ∧
      ((pairReturned frame).threads 1).type = .user ∧
      ((pairReturned frame).threads 1).kernelStackTop = (pairThread 1).kernelStackTop :=
  ⟨rfl, rfl, rfl, rfl, rfl⟩

theorem readFrame_congr {c c' : Cpu} {base : Word}
    (h : ∀ j < 35, c'.mem (slot base j) = c.mem (slot base j)) :
    readFrame c' base = readFrame c base := by
  unfold readFrame
  congr 1
  · funext i
    exact h i (by omega)
  · exact h 32 (by omega)
  · exact h 33 (by omega)
  · exact h 34 (by omega)

theorem pair_stack_ctx : ∀ j < 35, ∀ i : Fin 36,
    slot ((pairThread 1).kernelStackTop - 288 - 280) j ≠ slot (pairLayout.ctxAddress 2) i := by
  intro j hj i heq
  have hi := i.isLt
  have hstack : ((pairThread 1).kernelStackTop - 288 - 280).toNat = 0x8000000000017DC8 := by decide
  have hctx : (pairLayout.ctxAddress 2).toNat = 0x3000 := by decide
  have hnat := congrArg BitVec.toNat heq
  rw [slot_toNat (by omega), slot_toNat (by omega), hstack, hctx] at hnat
  omega

/-- Thread 1 computes whatever it likes, yields, and goes on when thread 2
has ended: the machine before and after the last step. -/
theorem pair_returns (x : Reg → Word) (hx : x 8 = syscallYield) (spEl0 : Word) :
    ∃ history m c m' v, Run (MachineInit pairLayout) (CpuStep bootEnv pairLayout) history m ∧
      CpuStep bootEnv pairLayout m (.terminate c) m' ∧
      nextThread m.kernel = 1 ∧ m.kernel.currentThread = some 2 ∧
      m.yielded 1 = some v ∧ v.x 1 = x 1 ∧ v.sp = spEl0 ∧
      m'.kernel.currentThread = some 1 ∧ (m'.kernel.threads 1).type = .user ∧
      (m'.kernel.threads 1).kernelStackTop = (pairThread 1).kernelStackTop ∧
      mode m'.cpu.pstate = 0 ∧
      m'.cpu.sp = if spEl0 >>> 63 = 0 then (pairThread 1).kernelStackTop - 288 else spEl0 := by
  obtain ⟨history, c₀, hbooted, hmode, hsp⟩ := pair_booted
  let c₁ : Cpu := { c₀ with x := x, spEl0 := spEl0 }
  have hcompute : CpuStep bootEnv pairLayout (pairMachine pairBooted c₀) (.compute c₁)
      (pairMachine pairBooted c₁) :=
    .compute (t := 1) rfl rfl rfl (fun _ => rfl) (fun _ _ h => by cases h)
  let frame := readFrame (handleSyncEntry c₁.svc) (c₁.sp - 280)
  have hsaved : frame = savedFrame c₁.svc := (handleSyncEntry_spec c₁.svc).frame
  have hentrySp : (handleSyncEntry c₁.svc).sp = c₁.sp - 280 := (handleSyncEntry_spec c₁.svc).sp
  have hspEl0 : (handleSyncEntry c₁.svc).spEl0 = spEl0 := (handleSyncEntry_spec c₁.svc).spEl0
  -- the yield, which switches to thread 2
  have hyield : Step bootEnv pairBooted (.yield frame) (pairYielded frame) :=
    ⟨⟨1, rfl, by decide⟩, rfl⟩
  have hinvBooted : KernelInv pairLayout pairBooted :=
    (hbooted.invariant (fun _ hm => init_yieldInv hm) fun _ _ _ hi hs => hi.step hs).kernel
  have hinvYielded := hinvBooted.step hyield (by simp)
  let c₂ := withContext (handleSyncEntry c₁.svc) (pairLayout.ctxAddress 2)
    ((pairYielded frame).threads 2).ctx
  have hholds₂ : HoldsContext c₂ (pairLayout.ctxAddress 2) ((pairYielded frame).threads 2).ctx :=
    withContext_holds _ _ _
  have hframe₂ : readFrame c₂ (c₁.sp - 280) = savedFrame c₁.svc := by
    rw [← hsaved]
    apply readFrame_congr
    intro j hj
    apply withContext_other
    intro i
    rw [show c₁.sp = (pairThread 1).kernelStackTop - 288 from hsp]
    exact pair_stack_ctx j hj i
  obtain ⟨c₂', hswitch₂, hspec₂⟩ := hinvYielded.switch (t := 2) (pairYielded_next frame).2.1
    hholds₂
  have hstep₂ : CpuStep bootEnv pairLayout (pairMachine pairBooted c₁) (.yield c₂) _ :=
    .yield (t := 1) rfl rfl hx (fun h => absurd hmode h)
    hentrySp hspEl0 hframe₂ (fun _ _ h => by cases h) hyield
    (.switch (pairYielded_next frame).2.1 (by simp) hholds₂ hswitch₂)
  -- the end of thread 2, which switches back
  have hend : Step bootEnv (pairYielded frame) .terminate (pairReturned frame) :=
    ⟨⟨2, rfl, by decide⟩, rfl⟩
  have hinvReturned := hinvYielded.step hend (by simp)
  let c₃ := withContext c₂' (pairLayout.ctxAddress 1) ((pairReturned frame).threads 1).ctx
  have hholds₃ : HoldsContext c₃ (pairLayout.ctxAddress 1) ((pairReturned frame).threads 1).ctx :=
    withContext_holds _ _ _
  obtain ⟨c₃', hswitch₃, hspec₃⟩ := hinvReturned.switch (t := 1)
    (pairReturned_next frame).1 hholds₃
  have hmode₂ : mode c₂'.pstate ≠ 0 := by
    rw [hspec₂.pstate, (pairYielded_next frame).2.2]
    decide
  have hstep₃ : CpuStep bootEnv pairLayout
      (((pairMachine pairBooted c₁).setYielded 1 (view c₁)).goOn (pairYielded frame) c₂')
      (.terminate c₃) _ :=
    .terminate (t := 2) (by rw [goOn_kernel]; exact (pairYielded_next frame).2.1)
    (by rw [goOn_cpu]; exact fun h => absurd h hmode₂) (by rw [goOn_cpu]; rfl)
    (by rw [goOn_calls]; exact fun _ _ h => by cases h) (by rw [goOn_kernel]; exact hend)
    (.switch (pairReturned_next frame).1 (by simp) hholds₃ hswitch₃)
  refine ⟨_, _, c₃, _, view c₁, .next (.next hbooted hcompute) hstep₂, hstep₃, ?_, ?_, ?_, rfl, ?_,
    ?_, ?_, ?_, ?_, ?_⟩
  · rw [goOn_kernel]
    exact (pairYielded_next frame).1
  · rw [goOn_kernel]
    exact (pairYielded_next frame).2.1
  · rw [goOn_yielded, (pairYielded_next frame).2.1]
    exact ⟨setYielded_self _ _ _, by simp⟩
  · exact if_pos hmode
  · rw [goOn_kernel]
    exact (pairReturned_next frame).1
  · rw [goOn_kernel]
    exact (pairReturned_next frame).2.2.2.1
  · rw [goOn_kernel]
    exact (pairReturned_next frame).2.2.2.2
  · rw [goOn_cpu, hspec₃.pstate, (pairReturned_next frame).2.2.1, hsaved]
    exact hmode
  · rw [goOn_cpu, hspec₃.sp]
    have hctxSp : ((pairReturned frame).threads 1).ctx.sp = spEl0 := by
      rw [(pairReturned_next frame).2.1, hsaved]
      exact if_pos hmode
    rw [hctxSp]
    rfl

end ZOs.Scheduler
