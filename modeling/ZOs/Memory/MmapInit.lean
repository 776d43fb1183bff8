import ZOs.Memory.BlockMapping
import ZOs.Memory.DirectMap
import ZOs.Memory.KernelTables
import ZOs.Memory.MapReserve
import ZOs.Memory.TableCopy

/-!
# `mmap_init` and the mapping calls after it

`mmap_init` takes a root for the lower half, copies the boot loader's
tables of the upper half and maps the first 16 GiB of physical memory at
`MMAP_VIRTUAL_BASE_ADDRESS` in sixteen blocks. From then on every access to
a table goes through that window.
-/

namespace ZOs.Paging

open Attempt BootMap

/-! ## Blocks -/

/-- The loops of `vmap_map_range_l1_block` and `vmap_map_range_l2_block`,
for as many iterations as there is fuel; `none` is no end yet. -/
def Block.mapRange (b : Block) (fuel : Nat) (virtualAddress virtualEndAddress
    physicalStartAddress pageFlags : Word) (v : Vmap) : Option (Option Unit × Vmap) :=
  match fuel with
  | 0 => none
  | fuel + 1 =>
    if virtualAddress < virtualEndAddress then
      match b.map virtualAddress physicalStartAddress pageFlags v with
      | (none, v') => some (none, v')
      | (some (), v') =>
        b.mapRange fuel (virtualAddress + b.size) virtualEndAddress
          (physicalStartAddress + b.size) pageFlags v'
    else some (some (), v)

/-- `vmap_map_range_l1_block`. -/
def vmapMapRangeL1Block := Block.l1.mapRange

/-- `vmap_map_range_l2_block`. -/
def vmapMapRangeL2Block := Block.l2.mapRange

/-- The wrappers that map one block. -/
def mmapMapBlock (b : Block) (virtualAddress physicalAddress pageFlags : Word) (s : Kernel) :
    Option Unit × Kernel :=
  match b.map virtualAddress physicalAddress pageFlags (s.buildVmapTable virtualAddress) with
  | (none, v) => (none, s.keep v)
  | (some (), v) => (some (), (s.keep v).publish virtualAddress v.rootPageTable)

/-- `mmap_map_l1_block`. -/
def mmapMapL1Block := mmapMapBlock .l1

/-- `mmap_map_l2_block`. -/
def mmapMapL2Block := mmapMapBlock .l2

/-- The wrappers that map a range of blocks. -/
def mmapMapBlockRange (b : Block) (fuel : Nat) (virtualStartAddress virtualEndAddress
    physicalStartAddress pageFlags : Word) (s : Kernel) : Option (Option Unit × Kernel) :=
  match b.mapRange fuel virtualStartAddress virtualEndAddress physicalStartAddress pageFlags
      (s.buildVmapTable virtualStartAddress) with
  | none => none
  | some (none, v) => some (none, s.keep v)
  | some (some (), v) => some (some (), (s.keep v).publish virtualStartAddress v.rootPageTable)

/-- `mmap_map_range_l1_block`. -/
def mmapMapRangeL1Block := mmapMapBlockRange .l1

/-- `mmap_map_range_l2_block`. -/
def mmapMapRangeL2Block := mmapMapBlockRange .l2

/-! ## `mmap_init` -/

/-- The addresses that `count` calls of `bump_allocator_allocate` give, up to
the first that fails. -/
def allocations (size : Nat) : Nat → BumpAllocator → List Nat
  | 0, _ => []
  | count + 1, a =>
    match a.allocate size with
    | none => []
    | some (address, a') => address :: allocations size count a'

/-- The answers of `alloc_new_table`: the pages of the page table region. -/
def tableAnswers (a : BumpAllocator) : List Word :=
  (allocations 4096 (a.remainingSize / 4096) a).map (BitVec.ofNat 64)

def windowStart : Word := 0xFFFF500000000000

def windowEnd : Word := windowStart + 0x400000000

/-- The flags of `mmap_build_ttbr1_table`: `PAGE_FLAG_EL1_RW`,
`PAGE_FLAG_NX`, `PAGE_FLAG_NORMAL_MEMORY`, `PAGE_FLAG_INNER_SHARABLE` and
`PAGE_FLAG_ACCESS`. -/
def windowFlags : Word :=
  (0x0 <<< 6) ||| (1 <<< 53) ||| (1 <<< 54) ||| (0x3 <<< 2) ||| (3 <<< 8) ||| (1 <<< 10)

/-- Before any table is taken. -/
def noTables (memory : Nat → Word) (answers : List Word) : Vmap :=
  { rootPageTable := 0, memory, answers, obtained := [], stored := [] }

/-- Two roots, with what else is there once they are taken. -/
def Vmap.withRoots (v : Vmap) (ttbr0Table ttbr1Table : Word) : Kernel :=
  { ttbr0Table, ttbr1Table, memory := v.memory, answers := v.answers, obtained := v.obtained,
    stored := v.stored }

/-- `mmap_build_ttbr0_table`, `mmap_build_ttbr1_table`. `ttbr1` is the
register as the boot loader left it. The range call makes 16 iterations. -/
def buildTables (ttbr1 : Word) (memory : Nat → Word) (answers : List Word) : Option Kernel :=
  match allocNewTable (noTables memory answers) with
  | (none, _) => none
  | (some ttbr0Table, v) =>
    match recursiveCopyTable 3 (ttbr1 &&& tblEntryAddrMask) v with
    | (none, _) => none
    | (some ttbr1Table, v') =>
      match mmapMapRangeL1Block 17 windowStart windowEnd 0 windowFlags
          (v'.withRoots ttbr0Table ttbr1Table) with
      | some (some (), s) => some s
      | _ => none

/-- `mmap_init`; `none` is its error return. The entries of the kernel
memory map go to a region that nothing here reads. -/
def mmapInit (efiMemoryMap : List EfiMemoryDescriptor) (ttbr1 : Word) (memory : Nat → Word) :
    Option Kernel :=
  match mmapReserveMemory efiMemoryMap with
  | none => none
  | some allocators =>
    match mmapBuildMemoryMap allocators efiMemoryMap with
    | none => none
    | some _ => buildTables ttbr1 memory (tableAnswers allocators.pageTable)

/-! ## Translation after `mmap_init` -/

/-- The table has an address in the window. Of another one,
`vmap_physical_to_virtual` makes the null pointer. -/
def Visible (table : Word) : Prop := table.toNat < mmapPhysicalRegionSize

instance (table : Word) : Decidable (Visible table) := inferInstanceAs (Decidable (_ < _))

/-- `vmap_virtual_to_physical` with tables read through the window. The
outer `none` is a read through the null pointer. -/
def Vmap.translateMapped (v : Vmap) (virtualAddress : Word) : Option (Option Word) :=
  let ttbrTable := v.rootPageTable
  if ttbrTable = 0 then some none
  else if ¬ Visible ttbrTable then none
  else
    let l0Entry := v.entry ttbrTable (l0Index virtualAddress)
    if l0Entry &&& tblEntryValid = 0 then some none
    else if ¬ Visible (l0Entry &&& tblEntryAddrMask) then none
    else
      let l1Entry := v.entry (l0Entry &&& tblEntryAddrMask) (l1Index virtualAddress)
      if l1Entry &&& tblEntryValid = 0 then some none
      else if l1Entry &&& tblEntryTable = 0 then
        some (some ((l1Entry &&& tblEntryL1BlockAddrMask) |||
          (virtualAddress &&& (tblL1BlockSize - 1))))
      else if ¬ Visible (l1Entry &&& tblEntryAddrMask) then none
      else
        let l2Entry := v.entry (l1Entry &&& tblEntryAddrMask) (l2Index virtualAddress)
        if l2Entry &&& tblEntryValid = 0 then some none
        else if l2Entry &&& tblEntryTable = 0 then
          some (some ((l2Entry &&& tblEntryL2BlockAddrMask) |||
            (virtualAddress &&& (tblL2BlockSize - 1))))
        else if ¬ Visible (l2Entry &&& tblEntryAddrMask) then none
        else
          let l3Entry := v.entry (l2Entry &&& tblEntryAddrMask) (l3Index virtualAddress)
          if l3Entry &&& tblEntryValid = 0 then some none
          else
            some (some ((l3Entry &&& tblEntryAddrMask) |||
              (virtualAddress &&& (mmapGranuleSize - 1))))

/-- `mmap_virtual_to_physical` after `mmap_init`. -/
def Kernel.translateMapped (s : Kernel) (virtualAddress : Word) : Option (Option Word) :=
  (s.buildVmapTable virtualAddress).translateMapped virtualAddress

/-- Every physical address of the window translates there and back. -/
def RoundTrip (s : Kernel) : Prop :=
  ∀ p, p < mmapPhysicalRegionSize → ∃ virtualAddress,
    mmapPhysicalToVirtual p = some virtualAddress ∧
    s.translateMapped (BitVec.ofNat 64 virtualAddress) = some (some (BitVec.ofNat 64 p))

/-! ## Calls -/

/-- A call of one of the six mapping functions. -/
inductive MapCall where
  | page (physicalAddress virtualAddress pageFlags : Word)
  | range (virtualStartAddress virtualEndAddress physicalStartAddress pageFlags : Word)
  | block (b : Block) (virtualAddress physicalAddress pageFlags : Word)
  | blockRange (b : Block) (virtualStartAddress virtualEndAddress physicalStartAddress
      pageFlags : Word)

/-- The call returns, successfully or not, with the state `s'`. -/
def MapCall.Returns (s : Kernel) (c : MapCall) (s' : Kernel) : Prop :=
  match c with
  | .page physicalAddress virtualAddress pageFlags =>
    ∃ r, mmapMapPage physicalAddress virtualAddress pageFlags s = (r, s')
  | .range virtualStartAddress virtualEndAddress physicalStartAddress pageFlags =>
    ∃ fuel r, mmapMapRange fuel virtualStartAddress virtualEndAddress physicalStartAddress
      pageFlags s = some (r, s')
  | .block b virtualAddress physicalAddress pageFlags =>
    ∃ r, mmapMapBlock b virtualAddress physicalAddress pageFlags s = (r, s')
  | .blockRange b virtualStartAddress virtualEndAddress physicalStartAddress pageFlags =>
    ∃ fuel r, mmapMapBlockRange b fuel virtualStartAddress virtualEndAddress
      physicalStartAddress pageFlags s = some (r, s')

/-- No page that the loop maps is below a larger block when its turn comes. -/
def RangeClear : Nat → Word → Word → Word → Word → Vmap → Prop
  | 0, _, _, _, _, _ => True
  | fuel + 1, virtualAddress, virtualEndAddress, physicalStartAddress, pageFlags, v =>
    virtualAddress < virtualEndAddress → ¬ Covered v virtualAddress ∧
      ∀ v', vmapMapPage physicalStartAddress virtualAddress pageFlags v = (some (), v') →
        RangeClear fuel (virtualAddress + mmapGranuleSize) virtualEndAddress
          (physicalStartAddress + mmapGranuleSize) pageFlags v'

/-- The call maps no page below a larger block, and asks for blocks where it
says blocks: the flags leave `TBL_ENTRY_TABLE` clear, as all
`PAGE_FLAG_*` do. -/
def MapCall.Allowed (s : Kernel) : MapCall → Prop
  | .page _ virtualAddress _ => ¬ Covered (s.buildVmapTable virtualAddress) virtualAddress
  | .range virtualStartAddress virtualEndAddress physicalStartAddress pageFlags =>
    ∀ fuel, RangeClear fuel virtualStartAddress virtualEndAddress physicalStartAddress pageFlags
      (s.buildVmapTable virtualStartAddress)
  | .block _ _ _ pageFlags => pageFlags &&& tblEntryTable = 0
  | .blockRange _ _ _ _ pageFlags => pageFlags &&& tblEntryTable = 0

end ZOs.Paging
