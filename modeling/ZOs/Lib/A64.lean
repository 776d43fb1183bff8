import Mathlib.Data.BitVec
import Mathlib.Data.List.Nodup
import Mathlib.Logic.Function.Basic

/-!
# A part of the A64 instruction set

The registers that system software sees at exception level 1, and the
instructions that save and restore them: each is a function on the state
of the CPU. Memory is accessed in words of eight bytes, by address.

Straight-line blocks of `stp` and `ldp` are tables of register pairs and
offsets. `storePairs_spec` and `loadPairs_spec` say once what such a block
does, so that a routine is not executed store by store.
-/

namespace A64

/-- A 64-bit register. -/
abbrev Word := BitVec 64

/-- A general register by its number; 31 is `xzr`. -/
abbrev Reg := Fin 32

instance regCount_neZero : NeZero 32 := ⟨by decide⟩

/-- The state of the CPU. `sp` is `SP_EL1`, and `pc` the address at which a
thread goes on. -/
structure Cpu where
  x : Reg → Word
  sp : Word
  spEl0 : Word
  elr : Word
  spsr : Word
  esr : Word
  pc : Word
  pstate : Word
  mem : Word → Word

/-- The word number `i` of a block. -/
def slot (base : Word) (i : Nat) : Word := base + BitVec.ofNat 64 (8 * i)

theorem slot_inj {base : Word} {i j : Nat} (hi : i < 2 ^ 61) (hj : j < 2 ^ 61)
    (h : slot base i = slot base j) : i = j := by
  have heq := congrArg BitVec.toNat ((BitVec.add_right_inj base).mp h)
  rw [BitVec.toNat_ofNat, BitVec.toNat_ofNat] at heq
  omega

namespace Cpu

/-! ## Instructions -/

def get (c : Cpu) (r : Reg) : Word := if r = 31 then 0 else c.x r

def set (c : Cpu) (r : Reg) (v : Word) : Cpu :=
  if r = 31 then c else { c with x := Function.update c.x r v }

/-- `str r, [address]`. -/
def str (c : Cpu) (r : Reg) (address : Word) : Cpu :=
  { c with mem := Function.update c.mem address (c.get r) }

/-- `ldr r, [address]`. -/
def ldr (c : Cpu) (r : Reg) (address : Word) : Cpu := c.set r (c.mem address)

/-- `stp r, r', [address]`. -/
def stp (c : Cpu) (r r' : Reg) (address : Word) : Cpu := (c.str r address).str r' (address + 8)

/-- `ldp r, r', [address]`. -/
def ldp (c : Cpu) (r r' : Reg) (address : Word) : Cpu :=
  (c.set r (c.mem address)).set r' (c.mem (address + 8))

/-- `svc #0`, taken to exception level 1: the thread will go on behind it.
The class of the exception is in the syndrome register. -/
def svc (c : Cpu) : Cpu :=
  { c with elr := c.pc, spsr := c.pstate, esr := 0x56000000, pstate := 0x3C5 }

/-- `eret`. -/
def eret (c : Cpu) : Cpu := { c with pc := c.elr, pstate := c.spsr }

section
variable {c : Cpu} {r r' : Reg} {v a : Word}

@[simp] theorem get_set_same (h : r ≠ 31) : (c.set r v).get r = v := by
  simp [get, set, h]

theorem get_set_other (h : r' ≠ r) : (c.set r v).get r' = c.get r' := by
  unfold set
  by_cases hr : r = 31
  · rw [if_pos hr]
  · rw [if_neg hr]
    unfold get
    dsimp only
    rw [Function.update_of_ne h]

@[simp] theorem set_sp : (c.set r v).sp = c.sp := by unfold set; split <;> rfl
@[simp] theorem set_spEl0 : (c.set r v).spEl0 = c.spEl0 := by unfold set; split <;> rfl
@[simp] theorem set_elr : (c.set r v).elr = c.elr := by unfold set; split <;> rfl
@[simp] theorem set_spsr : (c.set r v).spsr = c.spsr := by unfold set; split <;> rfl
@[simp] theorem set_pstate : (c.set r v).pstate = c.pstate := by unfold set; split <;> rfl
@[simp] theorem set_pc : (c.set r v).pc = c.pc := by unfold set; split <;> rfl
@[simp] theorem set_mem : (c.set r v).mem = c.mem := by unfold set; split <;> rfl

theorem str_same : (c.str r a).mem a = c.get r := Function.update_self ..

theorem str_other {b : Word} (h : b ≠ a) : (c.str r a).mem b = c.mem b :=
  Function.update_of_ne h ..

end

/-! ## Blocks of stores and loads -/

/-- A block of `stp` instructions relative to a base. -/
def storePairs (c : Cpu) (base : Word) (table : List (Reg × Reg × Word)) : Cpu :=
  table.foldl (fun c p => c.stp p.1 p.2.1 (base + p.2.2)) c

/-- A block of `ldp` instructions relative to a base. -/
def loadPairs (c : Cpu) (base : Word) (table : List (Reg × Reg × Word)) : Cpu :=
  table.foldl (fun c p => c.ldp p.1 p.2.1 (base + p.2.2)) c

/-- The registers of a table with the offsets of their words. -/
def words (table : List (Reg × Reg × Word)) : List (Reg × Word) :=
  table.flatMap fun p => [(p.1, p.2.2), (p.2.1, p.2.2 + 8)]

/-- The same stores one by one. -/
def storeWords (c : Cpu) (base : Word) (ws : List (Reg × Word)) : Cpu :=
  ws.foldl (fun c w => c.str w.1 (base + w.2)) c

def loadWords (c : Cpu) (base : Word) (ws : List (Reg × Word)) : Cpu :=
  ws.foldl (fun c w => c.ldr w.1 (base + w.2)) c

section
variable {base : Word} {table : List (Reg × Reg × Word)}

theorem storePairs_eq (c : Cpu) : c.storePairs base table = c.storeWords base (words table) := by
  induction table generalizing c with
  | nil => rfl
  | cons p table ih =>
    show (c.stp p.1 p.2.1 (base + p.2.2)).storePairs base table = _
    rw [ih]
    unfold words storeWords stp
    rw [List.flatMap_cons, List.foldl_append, BitVec.add_assoc]
    rfl

theorem loadPairs_eq (c : Cpu) : c.loadPairs base table = c.loadWords base (words table) := by
  induction table generalizing c with
  | nil => rfl
  | cons p table ih =>
    show (c.ldp p.1 p.2.1 (base + p.2.2)).loadPairs base table = _
    rw [ih]
    unfold words loadWords ldp ldr
    rw [List.flatMap_cons, List.foldl_append, BitVec.add_assoc]
    simp only [List.foldl_cons, List.foldl_nil, set_mem]

/-- Each word that is stored holds its register; the rest of the memory and
all registers are as before. -/
theorem storeWords_spec (base : Word) (c : Cpu) {ws : List (Reg × Word)}
    (hnodup : (ws.map Prod.snd).Nodup) :
    ∃ mem, c.storeWords base ws = { c with mem := mem } ∧
      (∀ w ∈ ws, mem (base + w.2) = c.get w.1) ∧
      ∀ a, (∀ w ∈ ws, a ≠ base + w.2) → mem a = c.mem a := by
  induction ws generalizing c with
  | nil => exact ⟨c.mem, rfl, by simp, fun _ _ => rfl⟩
  | cons w ws ih =>
    rw [List.map_cons, List.nodup_cons] at hnodup
    obtain ⟨mem, heq, hin, hout⟩ := ih (c.str w.1 (base + w.2)) hnodup.2
    refine ⟨mem, heq, ?_, ?_⟩
    · intro w' hw'
      rcases List.mem_cons.mp hw' with rfl | hw'
      · rw [hout, str_same]
        intro w' hmem hsame
        apply hnodup.1
        rw [(BitVec.add_right_inj base).mp hsame]
        exact List.mem_map_of_mem hmem
      · exact hin w' hw'
    · intro a ha
      rw [hout a fun w' hw' => ha w' (List.mem_cons_of_mem _ hw'),
        str_other (ha w List.mem_cons_self)]

/-- Each register that is loaded holds its word; nothing else changes. -/
theorem loadWords_spec (base : Word) (c : Cpu) {ws : List (Reg × Word)}
    (hnodup : (ws.map Prod.fst).Nodup) :
    ∃ x, c.loadWords base ws = { c with x := x } ∧
      (∀ w ∈ ws, w.1 ≠ 31 → (c.loadWords base ws).get w.1 = c.mem (base + w.2)) ∧
      ∀ r, (∀ w ∈ ws, r ≠ w.1) → (c.loadWords base ws).get r = c.get r := by
  induction ws generalizing c with
  | nil => exact ⟨c.x, rfl, by simp, fun _ _ => rfl⟩
  | cons w ws ih =>
    rw [List.map_cons, List.nodup_cons] at hnodup
    obtain ⟨x, heq, hin, hout⟩ := ih (c.ldr w.1 (base + w.2)) hnodup.2
    have hstep : c.loadWords base (w :: ws) = (c.ldr w.1 (base + w.2)).loadWords base ws := rfl
    rw [hstep]
    have hfirst : ∃ x, c.ldr w.1 (base + w.2) = { c with x := x } := by
      unfold ldr set
      split
      · exact ⟨c.x, rfl⟩
      · exact ⟨_, rfl⟩
    obtain ⟨x₁, hx₁⟩ := hfirst
    refine ⟨x, ?_, ?_, ?_⟩
    · rw [heq, hx₁]
    · intro w' hw' hne
      rcases List.mem_cons.mp hw' with rfl | hw'
      · rw [hout, ldr, get_set_same hne]
        intro w'' hmem heq
        apply hnodup.1
        rw [heq]
        exact List.mem_map_of_mem hmem
      · rw [hin w' hw' hne]
        unfold ldr
        rw [set_mem]
    · intro r hr
      rw [hout r fun w' hw' => hr w' (List.mem_cons_of_mem _ hw'), ldr,
        get_set_other (hr w List.mem_cons_self)]

end

end Cpu

end A64
