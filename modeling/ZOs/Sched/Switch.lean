import ZOs.Lib.A64
import ZOs.Sched.Scheduler

/-!
# Saving and restoring a thread

The assembly behind the scheduler: `handle_sync` of
`exception_vector_table.S` builds the exception frame of a system call and
restores it, and `scheduler_switch_to_thread` of `scheduler.S` continues a
thread from its context. Each line of the routines is one step here, in
the same order; a step that the next one needs is a line of its own.
-/

namespace ZOs.Scheduler

open A64

/-! ## `handle_sync` -/

/-- The registers in the exception frame. -/
def frameTable : List (Reg × Reg × Word) :=
  [(0, 1, 0 * 16), (2, 3, 1 * 16), (4, 5, 2 * 16), (6, 7, 3 * 16), (8, 9, 4 * 16),
    (10, 11, 5 * 16), (12, 13, 6 * 16), (14, 15, 7 * 16), (16, 17, 8 * 16), (18, 19, 9 * 16),
    (20, 21, 10 * 16), (22, 23, 11 * 16), (24, 25, 12 * 16), (26, 27, 13 * 16),
    (28, 29, 14 * 16), (30, 31, 15 * 16)]

/-- `handle_sync` stores the thread's SP, which may be SP_EL0 or SP_EL1. -/
def storeSp (c : Cpu) : Cpu :=
  let c := c.set 0 c.spsr
  let c := c.set 0 (c.get 0 &&& 0xF)
  let c := if c.get 0 ≠ 0 then c.set 0 (c.sp + 35 * 8) else c.set 0 c.spEl0
  c.str 0 (c.sp + 32 * 8)

/-- `handle_sync` stores ELR_EL1 and SPSR_EL1. -/
def storeMetadata (c : Cpu) : Cpu :=
  let c := c.set 0 c.elr
  let c := c.str 0 (c.sp + 33 * 8)
  let c := c.set 0 c.spsr
  c.str 0 (c.sp + 34 * 8)

/-- `handle_sync` up to the call of `handle_sync_exception`. -/
def handleSyncEntry (c : Cpu) : Cpu :=
  let c := { c with sp := c.sp - 35 * 8 }
  let c := c.storePairs c.sp frameTable
  let c := storeSp c
  let c := storeMetadata c
  -- the arguments of handle_sync_exception
  let c := c.set 0 c.sp
  c.set 1 c.esr

/-- The registers that `handle_sync` restores in pairs. -/
def restoreTable : List (Reg × Reg × Word) :=
  [(0, 1, 0 * 16), (2, 3, 1 * 16), (4, 5, 2 * 16), (6, 7, 3 * 16), (8, 9, 4 * 16),
    (10, 11, 5 * 16), (12, 13, 6 * 16), (14, 15, 7 * 16), (16, 17, 8 * 16), (18, 19, 9 * 16),
    (20, 21, 10 * 16), (22, 23, 11 * 16), (24, 25, 12 * 16), (26, 27, 13 * 16),
    (28, 29, 14 * 16)]

/-- `handle_sync` restores SPSR_EL1 and, for an exception from EL0, SP_EL0. -/
def restoreSp (c : Cpu) : Cpu :=
  let c := c.ldr 0 (c.sp + 34 * 8)
  let c := { c with spsr := c.get 0 }
  let c := c.set 1 (c.get 0 &&& 0xF)
  if c.get 1 ≠ 0 then c
  else
    let c := c.ldr 1 (c.sp + 32 * 8)
    { c with spEl0 := c.get 1 }

/-- `handle_sync` after the call of `handle_sync_exception`. -/
def handleSyncExit (c : Cpu) : Cpu :=
  let c := restoreSp c
  let c := c.ldr 0 (c.sp + 33 * 8)
  let c := { c with elr := c.get 0 }
  let c := c.loadPairs c.sp restoreTable
  let c := c.ldr 30 (c.sp + 15 * 16)
  let c := { c with sp := c.sp + 35 * 8 }
  c.eret

/-- The `exception_frame_t` at an address. -/
def readFrame (c : Cpu) (base : Word) : ExceptionFrame where
  registers i := c.mem (slot base i)
  sp := c.mem (slot base 32)
  elr := c.mem (slot base 33)
  spsr := c.mem (slot base 34)

/-! ## `scheduler_switch_to_thread` -/

/-- The body of the loop that copies the context to the stack. -/
def copyRound (c : Cpu) : Cpu :=
  let c := c.ldp 0 1 (c.get 3)
  let c := c.stp 0 1 (c.get 4)
  let c := c.set 3 (c.get 3 + 16)
  c.set 4 (c.get 4 + 16)

/-- The loop that copies the context to the stack. -/
def copyContext : Nat → Cpu → Option Cpu
  | 0, _ => none
  | fuel + 1, c =>
    let c := copyRound c
    if c.get 3 = c.get 5 then some c else copyContext fuel c

/-- The registers that are restored from the copy. -/
def contextTable : List (Reg × Reg × Word) :=
  [(0, 1, 2 * 8), (2, 3, 4 * 8), (4, 5, 6 * 8), (6, 7, 8 * 8), (8, 9, 10 * 8),
    (10, 11, 12 * 8), (12, 13, 14 * 8), (14, 15, 16 * 8), (16, 17, 18 * 8), (18, 19, 20 * 8),
    (20, 21, 22 * 8), (22, 23, 24 * 8), (24, 25, 26 * 8), (26, 27, 28 * 8), (28, 29, 30 * 8),
    (30, 31, 32 * 8)]

/-- `scheduler_switch_to_thread` sets the thread's SP, where a kernel
address is the SP of a kernel thread. -/
def setThreadSp (c : Cpu) : Cpu :=
  let c := c.ldr 1 (c.sp + 8)
  let c := c.set 2 (c.get 1 >>> 63)
  if c.get 2 = 0 then { c with spEl0 := c.get 1 }
  else { c with sp := c.get 1 }

/-- `scheduler_switch_to_thread` restores the registers, and reads ELR_EL1
and SPSR_EL1. -/
def loadContext (c : Cpu) : Cpu :=
  let c := c.loadPairs c.sp contextTable
  let c := c.ldr 0 (c.sp + 35 * 8)
  c.ldr 3 (c.sp + 34 * 8)

/-- The end of `scheduler_switch_to_thread`, from the copy on the stack. -/
def restoreContext (c : Cpu) : Cpu :=
  let c := setThreadSp (loadContext c)
  let c := { c with elr := c.get 0 }
  let c := { c with spsr := c.get 3 }
  c.eret

/-- `scheduler_switch_to_thread`. -/
def schedulerSwitchToThread (fuel : Nat) (c : Cpu) : Option Cpu :=
  let c := c.set 2 (c.get 0)
  let c := { c with sp := c.sp - 36 * 8 }
  let c := c.set 3 (c.get 2)
  let c := c.set 4 c.sp
  let c := c.set 5 (c.get 3 + 36 * 8)
  (copyContext fuel c).map restoreContext

/-- The words of a `thread_context_t`. -/
def ThreadContext.word (ctx : ThreadContext) (i : Fin 36) : Word :=
  if i.val = 0 then ctx.entryPoint
  else if i.val = 1 then ctx.sp
  else if h : i.val < 34 then ctx.registers ⟨i.val - 2, by omega⟩
  else if i.val = 34 then ctx.spsr
  else ctx.elr

/-- The memory holds a context at an address. -/
def HoldsContext (c : Cpu) (address : Word) (ctx : ThreadContext) : Prop :=
  ∀ i : Fin 36, c.mem (slot address i) = ctx.word i

/-! ## What the start of `handle_sync` does -/

theorem frameTable_nodup : ((Cpu.words frameTable).map Prod.snd).Nodup := by decide

/-- What `handle_sync` saves of the thread. -/
def savedFrame (c : Cpu) : ExceptionFrame where
  registers := c.get
  sp := if c.spsr &&& 0xF = 0 then c.spEl0 else c.sp
  elr := c.elr
  spsr := c.spsr

theorem storeSp_eq (c : Cpu) : ∃ x, storeSp c =
    { c with
      x := x
      mem := Function.update c.mem (c.sp + 256)
        (if c.spsr &&& 0xF = 0 then c.spEl0 else c.sp + 280) } := by
  unfold storeSp
  dsimp only
  by_cases hmode : c.spsr &&& 0xF = 0
  · rw [if_pos hmode, if_neg (by simpa [Cpu.set, Cpu.get] using hmode)]
    exact ⟨_, rfl⟩
  · rw [if_neg hmode, if_pos (by simpa [Cpu.set, Cpu.get] using hmode)]
    exact ⟨_, rfl⟩

theorem storeMetadata_eq (c : Cpu) : ∃ x, storeMetadata c =
    { c with
      x := x
      mem := Function.update (Function.update c.mem (c.sp + 264) c.elr) (c.sp + 272) c.spsr } :=
  ⟨_, rfl⟩

theorem handleSyncEntry_eq (c : Cpu) : ∃ x mem,
    (∀ w ∈ Cpu.words frameTable, mem (c.sp - 280 + w.2) = c.get w.1) ∧
      (∀ a, (∀ w ∈ Cpu.words frameTable, a ≠ c.sp - 280 + w.2) → mem a = c.mem a) ∧
      handleSyncEntry c =
        { c with
          x := x
          sp := c.sp - 280
          mem := Function.update (Function.update (Function.update mem
            (c.sp - 280 + 256) (savedFrame c).sp) (c.sp - 280 + 264) c.elr)
            (c.sp - 280 + 272) c.spsr } := by
  obtain ⟨mem, heq, hin, hout⟩ := Cpu.storeWords_spec (c.sp - 280)
    { c with sp := c.sp - 280 } frameTable_nodup
  rw [← Cpu.storePairs_eq] at heq
  have hsp : c.sp - 280 + 280 = c.sp := BitVec.sub_add_cancel ..
  obtain ⟨x₁, hSp⟩ := storeSp_eq { c with sp := c.sp - 280, mem := mem }
  rw [hsp] at hSp
  obtain ⟨x₂, hMeta⟩ := storeMetadata_eq
    { c with
      x := x₁
      sp := c.sp - 280
      mem := Function.update mem (c.sp - 280 + 256) (savedFrame c).sp }
  have hall := (congrArg (fun c => storeMetadata (storeSp c)) heq).trans
    ((congrArg storeMetadata hSp).trans hMeta)
  unfold handleSyncEntry
  dsimp only
  rw [show storeMetadata (storeSp (Cpu.storePairs { c with sp := c.sp - 35 * 8 } (c.sp - 35 * 8)
    frameTable)) = _ from hall]
  exact ⟨_, mem, hin, hout, rfl⟩

theorem frameTable_slot : ∀ i : Reg, (i, BitVec.ofNat 64 (8 * i)) ∈ Cpu.words frameTable := by
  decide

theorem frameTable_index : ∀ w ∈ Cpu.words frameTable, w.2 = BitVec.ofNat 64 (8 * w.1) := by
  have hall : (Cpu.words frameTable).all (fun w => w.2 = BitVec.ofNat 64 (8 * w.1)) := by decide
  intro w hw
  exact of_decide_eq_true (List.all_eq_true.mp hall w hw)

theorem update_slot_ne {mem : Word → Word} {base v : Word} {i j : Nat} (hi : i < 35) (hj : j < 35)
    (h : i ≠ j) : Function.update mem (slot base j) v (slot base i) = mem (slot base i) := by
  apply Function.update_of_ne
  intro heq
  exact h (slot_inj (by omega) (by omega) heq)

/-- The entry of an exception: the frame below the stack pointer holds the
state of the thread, and nothing else of the memory has changed. -/
structure Entered (c c' : Cpu) : Prop where
  sp : c'.sp = c.sp - 280
  spEl0 : c'.spEl0 = c.spEl0
  pstate : c'.pstate = c.pstate
  frame : readFrame c' (c.sp - 280) = savedFrame c
  outside : ∀ a, (∀ i < 35, a ≠ slot (c.sp - 280) i) → c'.mem a = c.mem a

theorem handleSyncEntry_spec (c : Cpu) : Entered c (handleSyncEntry c) := by
  obtain ⟨x, mem, hin, hout, heq⟩ := handleSyncEntry_eq c
  rw [heq]
  have hreg : ∀ i : Reg, mem (slot (c.sp - 280) i) = c.get i := by
    intro i
    exact hin _ (frameTable_slot i)
  constructor
  · rfl
  · rfl
  · rfl
  · unfold readFrame savedFrame
    congr 1
    · funext i
      have hi := i.isLt
      rw [← hreg i]
      show Function.update (Function.update (Function.update mem (slot _ 32) _) (slot _ 33) _)
        (slot _ 34) _ _ = _
      rw [update_slot_ne (by omega) (by omega) (by omega),
        update_slot_ne (by omega) (by omega) (by omega),
        update_slot_ne (by omega) (by omega) (by omega)]
    · show Function.update (Function.update (Function.update mem (slot _ 32) _) (slot _ 33) _)
        (slot _ 34) _ _ = _
      rw [update_slot_ne (by omega) (by omega) (by omega),
        update_slot_ne (by omega) (by omega) (by omega), Function.update_self]
    · show Function.update (Function.update (Function.update mem (slot _ 32) _) (slot _ 33) _)
        (slot _ 34) _ _ = _
      rw [update_slot_ne (by omega) (by omega) (by omega), Function.update_self]
    · exact Function.update_self ..
  · intro a ha
    show Function.update (Function.update (Function.update mem (slot _ 32) _) (slot _ 33) _)
        (slot _ 34) _ _ = _
    rw [Function.update_of_ne (ha 34 (by omega)), Function.update_of_ne (ha 33 (by omega)),
      Function.update_of_ne (ha 32 (by omega)), hout]
    intro w hw
    rw [frameTable_index w hw]
    exact ha w.1 (by omega)

/-! ## What the end of `handle_sync` does -/

theorem restoreTable_nodup : ((Cpu.words restoreTable).map Prod.fst).Nodup := by decide

theorem restoreTable_slot : ∀ i : Reg, i.val < 30 →
    (i, BitVec.ofNat 64 (8 * i)) ∈ Cpu.words restoreTable := by
  decide

theorem restoreSp_eq (c : Cpu) : ∃ x, restoreSp c =
    { c with
      x := x
      spsr := c.mem (c.sp + 272)
      spEl0 := if c.mem (c.sp + 272) &&& 0xF = 0 then c.mem (c.sp + 256) else c.spEl0 } := by
  unfold restoreSp
  dsimp only
  by_cases hmode : c.mem (c.sp + 272) &&& 0xF = 0
  · rw [if_pos hmode, if_neg (by simpa [Cpu.set, Cpu.get, Cpu.ldr] using hmode)]
    exact ⟨_, rfl⟩
  · rw [if_neg hmode, if_pos (by simpa [Cpu.set, Cpu.get, Cpu.ldr] using hmode)]
    exact ⟨_, rfl⟩

/-- The end of an exception: the thread goes on with the state in the frame. -/
structure Left (frame : ExceptionFrame) (c c' : Cpu) : Prop where
  get : ∀ i : Reg, i ≠ 31 → c'.get i = frame.registers i
  pc : c'.pc = frame.elr
  pstate : c'.pstate = frame.spsr
  sp : c'.sp = c.sp + 280
  spEl0 : c'.spEl0 = if frame.spsr &&& 0xF = 0 then frame.sp else c.spEl0
  mem : c'.mem = c.mem

theorem handleSyncExit_spec (c : Cpu) : Left (readFrame c c.sp) c (handleSyncExit c) := by
  obtain ⟨x₁, hSp⟩ := restoreSp_eq c
  let c₁ : Cpu :=
    { c with
      x := Function.update x₁ 0 (c.mem (c.sp + 264))
      spsr := c.mem (c.sp + 272)
      spEl0 := if c.mem (c.sp + 272) &&& 0xF = 0 then c.mem (c.sp + 256) else c.spEl0
      elr := c.mem (c.sp + 264) }
  obtain ⟨x₂, heq, hin, hout⟩ := Cpu.loadWords_spec c.sp c₁ restoreTable_nodup
  rw [← Cpu.loadPairs_eq] at heq hin hout
  have hexit : handleSyncExit c =
      Cpu.eret { (c₁.loadPairs c.sp restoreTable).ldr 30 (c.sp + 240) with sp := c.sp + 280 } := by
    unfold handleSyncExit
    dsimp only
    rw [hSp]
    show Cpu.eret { (c₁.loadPairs c.sp restoreTable).ldr 30
        ((c₁.loadPairs c.sp restoreTable).sp + 240) with
      sp := ((c₁.loadPairs c.sp restoreTable).ldr 30
        ((c₁.loadPairs c.sp restoreTable).sp + 240)).sp + 280 } = _
    rw [heq]
    rfl
  have hget : ∀ i, (handleSyncExit c).get i =
      ((c₁.loadPairs c.sp restoreTable).ldr 30 (c.sp + 240)).get i := by
    intro i
    rw [hexit]
    rfl
  constructor
  · intro i hi
    rw [hget]
    by_cases h30 : i = 30
    · subst h30
      unfold Cpu.ldr
      rw [Cpu.get_set_same (by decide), heq]
      rfl
    · unfold Cpu.ldr
      rw [Cpu.get_set_other h30]
      have hlt : i.val < 30 := by
        have h30' : i.val ≠ 30 := fun h => h30 (Fin.ext h)
        have h31 : i.val ≠ 31 := fun h => hi (Fin.ext h)
        omega
      exact hin _ (restoreTable_slot i hlt) hi
  all_goals rw [hexit, heq]; rfl

/-! ## What `scheduler_switch_to_thread` does -/

theorem slot_next (base : Word) (i : Nat) : slot (base + 16) i = slot base (i + 2) := by
  show base + BitVec.ofNat 64 16 + BitVec.ofNat 64 (8 * i) = base + BitVec.ofNat 64 (8 * (i + 2))
  rw [BitVec.add_assoc, ← BitVec.ofNat_add]
  congr 2
  omega

@[simp] theorem slot_zero (base : Word) : slot base 0 = base := BitVec.add_zero base

/-- What the first rounds of the loop have done. -/
structure Copied (src dst : Word) (n : Nat) (c c' : Cpu) : Prop where
  rest : ∃ x mem, c' = { c with x := x, mem := mem }
  inside : ∀ i < n, c'.mem (slot dst i) = c.mem (slot src i)
  outside : ∀ a, (∀ i < n, a ≠ slot dst i) → c'.mem a = c.mem a

theorem copyRound_spec (c : Cpu) : Copied (c.get 3) (c.get 4) 2 c (copyRound c) ∧
    (copyRound c).get 3 = c.get 3 + 16 ∧ (copyRound c).get 4 = c.get 4 + 16 ∧
    (copyRound c).get 5 = c.get 5 := by
  have hne : c.get 4 ≠ slot (c.get 4) 1 := by
    intro h
    have h01 : 0 = 1 := slot_inj (by omega) (by omega) ((slot_zero _).trans h)
    omega
  have hmem : (copyRound c).mem = Function.update (Function.update c.mem (c.get 4)
      (c.mem (c.get 3))) (slot (c.get 4) 1) (c.mem (slot (c.get 3) 1)) := rfl
  refine ⟨⟨⟨_, _, rfl⟩, ?_, ?_⟩, rfl, rfl, rfl⟩
  · intro i hi
    rw [hmem]
    match i, hi with
    | 0, _ => rw [slot_zero, slot_zero, Function.update_of_ne hne, Function.update_self]
    | 1, _ => rw [Function.update_self]
  · intro a ha
    have h0 : a ≠ c.get 4 := by simpa using ha 0 (by omega)
    rw [hmem, Function.update_of_ne (ha 1 (by omega)), Function.update_of_ne h0]

/-- The loop copies `2 * (n + 1)` words and changes nothing else. -/
theorem copyContext_spec {n fuel : Nat} {c : Cpu} {src dst : Word} (hfuel : n < fuel)
    (hn : n < 2 ^ 59) (hsrc : c.get 3 = src) (hdst : c.get 4 = dst)
    (hend : c.get 5 = slot src (2 * (n + 1)))
    (hdisj : ∀ i < 2 * (n + 1), ∀ j < 2 * (n + 1), slot src i ≠ slot dst j) :
    ∃ c', copyContext fuel c = some c' ∧ Copied src dst (2 * (n + 1)) c c' := by
  induction n generalizing c fuel src dst with
  | zero =>
    obtain ⟨fuel, rfl⟩ : ∃ k, fuel = k + 1 := ⟨fuel - 1, by omega⟩
    obtain ⟨hcopied, h3, h4, h5⟩ := copyRound_spec c
    rw [hsrc, hdst] at hcopied
    refine ⟨copyRound c, ?_, hcopied⟩
    unfold copyContext
    dsimp only
    rw [if_pos]
    rw [h3, h5, hend, hsrc]
    rfl
  | succ n ih =>
    obtain ⟨fuel, rfl⟩ : ∃ k, fuel = k + 1 := ⟨fuel - 1, by omega⟩
    obtain ⟨hcopied, h3, h4, h5⟩ := copyRound_spec c
    rw [hsrc] at h3 hcopied
    rw [hdst] at h4 hcopied
    rw [hend] at h5
    have hmore : (copyRound c).get 3 ≠ (copyRound c).get 5 := by
      rw [h3, h5]
      intro h
      have hlen : 2 = 2 * (n + 1 + 1) := @slot_inj src _ _ (by omega) (by omega) h
      omega
    obtain ⟨c', heq, hrest⟩ := @ih fuel (copyRound c) _ _ (by omega) (by omega) h3 h4
      (by rw [h5, slot_next]; rfl) (by
        intro i hi j hj
        rw [slot_next, slot_next]
        exact hdisj (i + 2) (by omega) (j + 2) (by omega))
    refine ⟨c', ?_, ?_⟩
    · unfold copyContext
      dsimp only
      rw [if_neg hmore, heq]
    · obtain ⟨⟨x₁, mem₁, hc₁⟩, hin₁, hout₁⟩ := hcopied
      obtain ⟨⟨x₂, mem₂, hc₂⟩, hin₂, hout₂⟩ := hrest
      -- the later rounds keep the first two words, and read words of the
      -- source that the first round has not changed
      refine ⟨⟨x₂, mem₂, by rw [hc₂, hc₁]⟩, ?_, ?_⟩
      · intro i hi
        by_cases hfirst : i < 2
        · rw [hout₂, hin₁ i hfirst]
          intro j hj
          rw [slot_next]
          intro h
          have heq := slot_inj (by omega) (by omega) h
          omega
        · obtain ⟨k, rfl⟩ : ∃ k, i = k + 2 := ⟨i - 2, by omega⟩
          rw [← slot_next, hin₂ k (by omega), slot_next, hout₁]
          intro j hj
          exact hdisj (k + 2) hi j (by omega)
      · intro a ha
        rw [hout₂, hout₁]
        · intro i hi
          exact ha i (by omega)
        · intro i hi
          rw [slot_next]
          exact ha (i + 2) (by omega)

theorem contextTable_nodup : ((Cpu.words contextTable).map Prod.fst).Nodup := by decide

theorem contextTable_slot : ∀ i : Reg, (i, BitVec.ofNat 64 (8 * (i + 2))) ∈
    Cpu.words contextTable := by
  decide

theorem word_register (ctx : ThreadContext) (i : Reg) :
    ctx.word ⟨i.val + 2, by omega⟩ = ctx.registers i := by
  have hi := i.isLt
  unfold ThreadContext.word
  rw [if_neg (by simp), if_neg (by simp), dif_pos (by simp only; omega)]
  rfl

theorem setThreadSp_eq (c : Cpu) : ∃ x, setThreadSp c =
    { c with
      x := x
      sp := if c.mem (slot c.sp 1) >>> 63 = 0 then c.sp else c.mem (slot c.sp 1)
      spEl0 := if c.mem (slot c.sp 1) >>> 63 = 0 then c.mem (slot c.sp 1) else c.spEl0 } ∧
    x 1 = c.mem (slot c.sp 1) ∧ x 2 = c.mem (slot c.sp 1) >>> 63 ∧
    ∀ r, r ≠ 1 → r ≠ 2 → x r = c.x r := by
  refine ⟨Function.update (Function.update c.x 1 (c.mem (slot c.sp 1))) 2
    (c.mem (slot c.sp 1) >>> 63), ?_, rfl, rfl, ?_⟩
  · unfold setThreadSp
    dsimp only
    by_cases hbit : c.mem (slot c.sp 1) >>> 63 = 0
    · rw [if_pos hbit, if_pos hbit, if_pos (by exact hbit)]
      rfl
    · rw [if_neg hbit, if_neg hbit, if_neg (by exact hbit)]
      rfl
  · intro r h1 h2
    rw [Function.update_of_ne h2, Function.update_of_ne h1]

/-- What the switch leaves for the thread. The registers from `x4` on, the
program counter and the state are those of the context; the first four hold
what the code used them for. -/
structure Switched (ctx : ThreadContext) (base : Word) (c c' : Cpu) : Prop where
  get : ∀ i : Reg, 4 ≤ i.val → i ≠ 31 → c'.get i = ctx.registers i
  scratch : c'.get 0 = ctx.elr ∧ c'.get 1 = ctx.sp ∧ c'.get 2 = ctx.sp >>> 63 ∧
    c'.get 3 = ctx.spsr
  pc : c'.pc = ctx.elr
  pstate : c'.pstate = ctx.spsr
  sp : c'.sp = if ctx.sp >>> 63 = 0 then base else ctx.sp
  spEl0 : c'.spEl0 = if ctx.sp >>> 63 = 0 then ctx.sp else c.spEl0
  outside : ∀ a, (∀ i < 36, a ≠ slot base i) → c'.mem a = c.mem a

theorem restoreContext_spec {c : Cpu} {ctx : ThreadContext} (h : HoldsContext c c.sp ctx) :
    Switched ctx c.sp c (restoreContext c) := by
  have hreg : ∀ i : Reg, c.mem (slot c.sp (i + 2)) = ctx.registers i := by
    intro i
    rw [← word_register]
    exact h ⟨i.val + 2, by omega⟩
  have hsp : c.mem (slot c.sp 1) = ctx.sp := h 1
  have hspsr : c.mem (slot c.sp 34) = ctx.spsr := h 34
  have helr : c.mem (slot c.sp 35) = ctx.elr := h 35
  obtain ⟨x₁, heq, hin, -⟩ := Cpu.loadWords_spec c.sp c contextTable_nodup
  rw [← Cpu.loadPairs_eq] at heq hin
  have hc₁ : loadContext c =
      { c with x := Function.update (Function.update x₁ 0 ctx.elr) 3 ctx.spsr } := by
    unfold loadContext
    dsimp only
    rw [heq, ← helr, ← hspsr]
    rfl
  obtain ⟨x₂, hset, h1, h2, hkeep⟩ := setThreadSp_eq (loadContext c)
  have hfinal : restoreContext c =
      { setThreadSp (loadContext c) with
        elr := (setThreadSp (loadContext c)).get 0, spsr := (setThreadSp (loadContext c)).get 3
        pc := (setThreadSp (loadContext c)).get 0
        pstate := (setThreadSp (loadContext c)).get 3 } := rfl
  have hx0 : x₂ 0 = ctx.elr := by
    rw [hkeep 0 (by decide) (by decide), hc₁]
    rfl
  have hx3 : x₂ 3 = ctx.spsr := by
    rw [hkeep 3 (by decide) (by decide), hc₁]
    rfl
  rw [hc₁] at hset h1 h2
  dsimp only at hset h1 h2
  rw [hsp] at hset h1 h2
  rw [hfinal, hc₁, hset]
  constructor
  · intro i hi hne
    have hne' : ∀ j : Reg, j.val < 4 → i ≠ j := by
      rintro j hj rfl
      omega
    have hi₁ := hin _ (contextTable_slot i) hne
    rw [heq] at hi₁
    unfold Cpu.get at hi₁ ⊢
    rw [if_neg hne] at hi₁ ⊢
    show x₂ i = _
    rw [hkeep i (hne' 1 (by decide)) (hne' 2 (by decide)), hc₁]
    show Function.update (Function.update x₁ 0 _) 3 _ i = _
    rw [Function.update_of_ne (hne' 3 (by decide)), Function.update_of_ne (hne' 0 (by decide)),
      ← hreg i]
    exact hi₁
  · exact ⟨hx0, h1, h2, hx3⟩
  · exact hx0
  · exact hx3
  · rfl
  · rfl
  · intro a _
    rfl

/-- The switch to a thread: `x0` points to its context, which lies outside
the 36 words below the stack pointer. -/
theorem schedulerSwitchToThread_spec (fuel : Nat) {c : Cpu} {ctx : ThreadContext}
    (hfuel : 18 ≤ fuel) (hctx : HoldsContext c (c.get 0) ctx)
    (hdisj : ∀ i < 36, ∀ j < 36, slot (c.get 0) i ≠ slot (c.sp - 288) j) :
    ∃ c', schedulerSwitchToThread fuel c = some c' ∧ Switched ctx (c.sp - 288) c c' := by
  let c₁ : Cpu := { c.set 2 (c.get 0) with sp := c.sp - 288 }
  let c₂ := ((c₁.set 3 (c.get 0)).set 4 (c.sp - 288)).set 5 (slot (c.get 0) 36)
  have hcopy : ∃ c', copyContext fuel c₂ = some c' ∧ Copied (c.get 0) (c.sp - 288) 36 c₂ c' :=
    copyContext_spec (n := 17) (by omega) (by omega) rfl rfl rfl hdisj
  obtain ⟨c', heq, ⟨x, mem, hc'⟩, hin, hout⟩ := hcopy
  refine ⟨restoreContext c', ?_, ?_⟩
  · show (copyContext fuel c₂).map restoreContext = _
    rw [heq]
    rfl
  · have hsp : c'.sp = c.sp - 288 := by
      rw [hc']
      rfl
    have hholds : HoldsContext c' c'.sp ctx := by
      intro i
      rw [hsp, hin i (by omega)]
      exact hctx i
    have hrest := restoreContext_spec hholds
    rw [hsp] at hrest
    constructor
    · exact hrest.get
    · exact hrest.scratch
    · exact hrest.pc
    · exact hrest.pstate
    · exact hrest.sp
    · rw [hrest.spEl0, hc']
      rfl
    · intro a ha
      rw [hrest.outside a ha, hout a ha]
      rfl

end ZOs.Scheduler
