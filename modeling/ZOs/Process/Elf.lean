import Mathlib.Data.BitVec
import ZOs.Lib.Bytes

/-!
# ELF files

The headers that the boot loader and `process_load_elf` read, at places of
a file. A place is an offset from the start of the buffer; like the
pointers into the buffer it is a `uint64_t` and wraps. Products of 16-bit
fields are of type `int`, and are extended with their sign where they meet
a `uint64_t`.
-/

namespace ZOs.Elf

open Bytes

/-- A buffer, and what is in memory from its start on, beyond its size too.
A pointer just past it is no null pointer. -/
structure Buffer where
  address : BitVec 64
  size : BitVec 64
  bytes : Nat → Byte
  fits : address.toNat + size.toNat < 2 ^ 64

/-- No buffer. -/
def Buffer.null : Buffer := ⟨0, 0, fun _ => 0, by decide⟩

/-- A number of `n` bytes, the lowest first. -/
def readNumber (file : Buffer) (offset : Nat) : Nat → Nat
  | 0 => 0
  | n + 1 => (file.bytes offset).toNat + 256 * readNumber file (offset + 1) n

/-- The part of `elf_header_t` that is used. -/
structure ElfHeader where
  eEntry : BitVec 64
  ePhoff : BitVec 64
  ePhentsize : BitVec 16
  ePhnum : BitVec 16

/-- `sizeof(elf_header_t)`. -/
def elfHeaderSize : Nat := 64

def readElfHeader (file : Buffer) : ElfHeader where
  eEntry := BitVec.ofNat 64 (readNumber file 24 8)
  ePhoff := BitVec.ofNat 64 (readNumber file 32 8)
  ePhentsize := BitVec.ofNat 16 (readNumber file 54 2)
  ePhnum := BitVec.ofNat 16 (readNumber file 56 2)

/-- `program_header_t`. -/
structure ProgramHeader where
  pType : BitVec 32
  pFlags : BitVec 32
  pOffset : BitVec 64
  pVaddr : BitVec 64
  pFilesz : BitVec 64
  pMemsz : BitVec 64
  pAlign : BitVec 64
  deriving DecidableEq

/-- `sizeof(program_header_t)`. -/
def programHeaderSize : Nat := 56

/-- The program header at a place of the file. -/
def readProgramHeader (file : Buffer) (offset : Nat) : ProgramHeader where
  pType := BitVec.ofNat 32 (readNumber file offset 4)
  pFlags := BitVec.ofNat 32 (readNumber file (offset + 4) 4)
  pOffset := BitVec.ofNat 64 (readNumber file (offset + 8) 8)
  pVaddr := BitVec.ofNat 64 (readNumber file (offset + 16) 8)
  pFilesz := BitVec.ofNat 64 (readNumber file (offset + 32) 8)
  pMemsz := BitVec.ofNat 64 (readNumber file (offset + 40) 8)
  pAlign := BitVec.ofNat 64 (readNumber file (offset + 48) 8)

def ptLoad : BitVec 32 := 0x1
def pfX : BitVec 32 := 1 <<< 0
def pfW : BitVec 32 := 1 <<< 1

/-- The product of an `int` and a 16-bit field, as a `uint64_t`. -/
def intProduct (i : Nat) (field : BitVec 16) : BitVec 64 :=
  (BitVec.ofNat 32 i * field.setWidth 32).signExtend 64

/-- A product that fits in an `int` is the product. -/
theorem intProduct_toNat {i : Nat} {field : BitVec 16} (h : i * field.toNat < 2 ^ 31) :
    (intProduct i field).toNat = i * field.toNat := by
  have hmul : (BitVec.ofNat 32 i * field.setWidth 32).toNat = i * field.toNat := by
    rw [BitVec.toNat_mul, BitVec.toNat_ofNat, BitVec.toNat_setWidth]
    rw [← Nat.mul_mod, Nat.mod_eq_of_lt (by omega)]
  have hmsb : (BitVec.ofNat 32 i * field.setWidth 32).msb = false := by
    rw [BitVec.msb_eq_false_iff_two_mul_lt, hmul]
    omega
  unfold intProduct
  rw [BitVec.signExtend_eq_setWidth_of_msb_false hmsb, BitVec.toNat_setWidth, hmul,
    Nat.mod_eq_of_lt (by omega)]

/-- `e_phoff + i * e_phentsize`. -/
def ElfHeader.programOffset (header : ElfHeader) (i : Nat) : BitVec 64 :=
  header.ePhoff + intProduct i header.ePhentsize

/-- The program headers, each with its place. -/
def programHeaders (file : Buffer) : List (BitVec 64 × ProgramHeader) :=
  let header := readElfHeader file
  (List.range header.ePhnum.toNat).map fun i =>
    (header.programOffset i, readProgramHeader file (header.programOffset i).toNat)

/-- The segment is one to load. -/
def ProgramHeader.Loadable (program : ProgramHeader) : Prop := program.pType = ptLoad

instance (program : ProgramHeader) : Decidable program.Loadable :=
  inferInstanceAs (Decidable (_ = _))

/-- The checks that are made of a segment. -/
def ProgramHeader.refused (program : ProgramHeader) : Bool :=
  program.pMemsz < program.pFilesz ∨ program.pAlign = 0

/-! ## What is read -/

/-- A part of the file that is read: its place and its size. -/
abbrev Read := BitVec 64 × Nat

/-- The part is in the buffer. -/
def Buffer.Holds (file : Buffer) (part : Read) : Prop :=
  part.1.toNat + part.2 ≤ file.size.toNat

theorem holds_iff {file : Buffer} {offset : BitVec 64} {n : Nat} :
    file.Holds (offset, n) ↔ offset.toNat + n ≤ file.size.toNat := Iff.rfl

/-- The data of a segment is in the buffer. -/
def ProgramHeader.Inside (program : ProgramHeader) (file : Buffer) : Prop :=
  file.Holds (program.pOffset, program.pFilesz.toNat)

/-- The program header is in the buffer. -/
def HeaderInside (file : Buffer) (header : BitVec 64 × ProgramHeader) : Prop :=
  file.Holds (header.1, programHeaderSize)

/-- The data of the segments to load is in the buffer. -/
def SegmentsInside (file : Buffer) (headers : List (BitVec 64 × ProgramHeader)) : Prop :=
  ∀ header ∈ headers, header.2.Loadable → header.2.Inside file

/-- The segments to load among some headers are not refused. -/
def Sound (headers : List (BitVec 64 × ProgramHeader)) : Prop :=
  ∀ header ∈ headers, header.2.Loadable → header.2.refused = false

theorem sound_nil : Sound [] := List.forall_mem_nil _

theorem not_sound_cons {header : BitVec 64 × ProgramHeader}
    {headers : List (BitVec 64 × ProgramHeader)} (hload : header.2.Loadable) 
    (hrefused : header.2.refused = true) : ¬Sound (header :: headers) := by
  intro h
  have hnot := h header (List.mem_cons_self ..) hload
  rw [hrefused] at hnot
  cases hnot

section Reached
variable {α : Type} {Passed : List α → Prop} {Q : α → Prop}

/-- `Q` of every element that is reached: the ones before it are passed. -/
def AllReached (Passed : List α → Prop) (Q : α → Prop) (xs : List α) : Prop :=
  ∀ before x after, xs = before ++ x :: after → Passed before → Q x

theorem allReached_nil : AllReached Passed Q [] := by
  intro before x after h
  cases before <;> cases h

theorem allReached_cons {x : α} {xs : List α} (hnil : Passed []) :
    AllReached Passed Q (x :: xs) ↔
      Q x ∧ AllReached (fun before => Passed (x :: before)) Q xs := by
  constructor
  · intro h
    exact ⟨h [] x xs rfl hnil, fun before y after hxs => h (x :: before) y after (by rw [hxs]; rfl)⟩
  · rintro ⟨hx, hrest⟩ before y after hxs hpassed
    cases before with
    | nil =>
      cases hxs
      exact hx
    | cons z before =>
      cases hxs
      exact hrest before y after rfl hpassed

end Reached

end ZOs.Elf
