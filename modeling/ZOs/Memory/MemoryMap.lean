import ZOs.Memory.BlockAllocator
import ZOs.Memory.PageAllocRun

/-!
# The boot memory map

The two passes of `mmap_init` over the EFI memory map (`kernel/mmap.c`,
`kernel/bump_allocator.c`, `kernel/efi_memory_map.c`).
`mmap_reserve_memory` places the two bump allocators inside usable
descriptors; `mmap_build_memory_map` then writes the kernel's own map and
splits both regions off the descriptors that contain them.

Both run before `g_mmap_initialized` is set, so addresses are physical. A
result `none` is the error return, with which `mmap_init` gives up.
-/

namespace ZOs.BootMap

open PageAlloc
open BlockAllocator (add64 sub64)

/-- `EFI_PAGE_SIZE`. -/
def efiPageSize : Nat := 4096

/-- `MMAP_MEMORY_MAP_RESERVED_SIZE`: 1 MiB. -/
def mmapMemoryMapReservedSize : Nat := 2 ^ 20

/-- `PAGE_TABLE_RESERVED_SIZE`: 8 MiB. -/
def pageTableReservedSize : Nat := 2 ^ 23

/-- `sizeof(mmap_memory_descriptor_t)`. -/
def descriptorSize : Nat := 24

/-! ## The bump allocator -/

/-- `bump_allocator_t`. -/
structure BumpAllocator where
  memoryStart : Nat
  memoryEnd : Nat
  allocatedSize : Nat
  remainingSize : Nat
  deriving DecidableEq

/-- `bump_allocator_make_invalid`. -/
def BumpAllocator.makeInvalid : BumpAllocator := ⟨0, 0, 0, 0⟩

/-- `bump_allocator_invalid`. -/
def BumpAllocator.invalid (a : BumpAllocator) : Bool := a.memoryStart == 0 || a.memoryEnd == 0

/-- `bump_allocator_init`, which always returns 0. -/
def BumpAllocator.init (memoryStart memoryEnd : Nat) : BumpAllocator :=
  { memoryStart, memoryEnd, allocatedSize := 0, remainingSize := sub64 memoryEnd memoryStart }

/-- `bump_allocator_allocate`: the address and the allocator after. -/
def BumpAllocator.allocate (a : BumpAllocator) (size : Nat) : Option (Nat × BumpAllocator) :=
  if a.remainingSize < size then none
  else some (add64 a.memoryStart a.allocatedSize,
    { a with
      allocatedSize := add64 a.allocatedSize size
      remainingSize := sub64 a.remainingSize size })

/-! ## The EFI memory map -/

/-- `efi_memory_descriptor_t`, as far as the two passes read it. -/
structure EfiMemoryDescriptor where
  type : Nat
  physicalStartAddress : Nat
  numberOfPages : Nat
  deriving DecidableEq

/-- `efi_memory_map_is_usable`: conventional memory, loader code, boot
service code and data, persistent memory. -/
def efiMemoryMapIsUsable (descriptor : EfiMemoryDescriptor) : Bool :=
  descriptor.type == 0x7 || descriptor.type == 0x1 || descriptor.type == 0x3 ||
    descriptor.type == 0x4 || descriptor.type == 0xe

/-- `number_of_pages * EFI_PAGE_SIZE`. -/
def EfiMemoryDescriptor.memorySize (descriptor : EfiMemoryDescriptor) : Nat :=
  descriptor.numberOfPages * efiPageSize % 2 ^ 64

/-! ## First pass: `mmap_reserve_memory` -/

/-- `g_kernel_memory_map_allocator` and `g_page_table_allocator`. -/
structure Allocators where
  kernelMemoryMap : BumpAllocator
  pageTable : BumpAllocator

/-- An attempt of the loop body to place an allocator of `size` bytes at the
start of what is left of a descriptor: the allocator, and the new
`memory_start` and `memory_size`. -/
def attemptReserve (size : Nat) (has : Bool) (a : BumpAllocator) (memoryStart memorySize : Nat) :
    BumpAllocator × Nat × Nat :=
  if !has && decide (size ≤ memorySize) then
    (.init memoryStart (add64 memoryStart size), add64 memoryStart size, sub64 memorySize size)
  else (a, memoryStart, memorySize)

/-- The loop body for a usable descriptor. Both flags are read before
either attempt. -/
def reserveFrom (descriptor : EfiMemoryDescriptor) (s : Allocators) : Allocators :=
  let hasPageTableAllocator := !s.pageTable.invalid
  let hasKernelMemoryMapAllocator := !s.kernelMemoryMap.invalid
  let (kernelMemoryMap, memoryStart, memorySize) :=
    attemptReserve mmapMemoryMapReservedSize hasKernelMemoryMapAllocator s.kernelMemoryMap
      descriptor.physicalStartAddress descriptor.memorySize
  let (pageTable, _, _) :=
    attemptReserve pageTableReservedSize hasPageTableAllocator s.pageTable memoryStart memorySize
  { kernelMemoryMap, pageTable }

/-- The loop of `mmap_reserve_memory`; it stops behind the descriptor before
which both allocators were there. -/
def reserveLoop (s : Allocators) : List EfiMemoryDescriptor → Allocators
  | [] => s
  | descriptor :: rest =>
    if !efiMemoryMapIsUsable descriptor then reserveLoop s rest
    else
      let s' := reserveFrom descriptor s
      if !s.pageTable.invalid && !s.kernelMemoryMap.invalid then s' else reserveLoop s' rest

/-- `mmap_reserve_memory`. -/
def mmapReserveMemory (efiMemoryMap : List EfiMemoryDescriptor) : Option Allocators :=
  let s := reserveLoop ⟨.makeInvalid, .makeInvalid⟩ efiMemoryMap
  if s.pageTable.invalid || s.kernelMemoryMap.invalid then none else some s

/-! ## Second pass: `mmap_build_memory_map` -/

/-- The kernel memory map under construction: its allocator and the entries
written so far, in the order of their addresses. -/
structure KernelMemoryMap where
  allocator : BumpAllocator
  entries : List MemoryDescriptor

/-- `mmap_new_memory_map_entry`. -/
def mmapNewMemoryMapEntry (m : KernelMemoryMap) (physicalStartAddress numberOfPages : Nat)
    (type : MemoryType) : Option KernelMemoryMap :=
  match m.allocator.allocate descriptorSize with
  | none => none
  | some (_, allocator) =>
    some { allocator, entries := m.entries ++ [⟨physicalStartAddress, numberOfPages, type⟩] }

/-- `contains_kernel_memory_map_region` and `contains_page_table_region`. -/
def containsRegion (descriptor : EfiMemoryDescriptor) (a : BumpAllocator) : Bool :=
  decide (descriptor.physicalStartAddress ≤ a.memoryStart) &&
    decide (a.memoryEnd ≤ add64 descriptor.physicalStartAddress descriptor.memorySize)

/-- The two branches that split a region off: an entry for the region where
it is, and `size` bytes less at the start of the descriptor. The result has
the new `memory_start` and `number_of_pages`. -/
def splitOff (contains : Bool) (regionStart size : Nat) (m : KernelMemoryMap)
    (memoryStart numberOfPages : Nat) : Option (KernelMemoryMap × Nat × Nat) :=
  if contains then
    match mmapNewMemoryMapEntry m regionStart (size / efiPageSize) .reserved with
    | none => none
    | some m' => some (m', add64 memoryStart size, sub64 numberOfPages (size / efiPageSize))
  else some (m, memoryStart, numberOfPages)

/-- The loop body of `mmap_build_memory_map`. -/
def buildEntries (pageTable : BumpAllocator) (descriptor : EfiMemoryDescriptor)
    (m : KernelMemoryMap) : Option KernelMemoryMap :=
  if efiMemoryMapIsUsable descriptor then
    let containsKernelMemoryMapRegion := containsRegion descriptor m.allocator
    let containsPageTableRegion := containsRegion descriptor pageTable
    match splitOff containsKernelMemoryMapRegion m.allocator.memoryStart mmapMemoryMapReservedSize
        m descriptor.physicalStartAddress descriptor.numberOfPages with
    | none => none
    | some (m₁, memoryStart₁, numberOfPages₁) =>
      match splitOff containsPageTableRegion pageTable.memoryStart pageTableReservedSize
          m₁ memoryStart₁ numberOfPages₁ with
      | none => none
      | some (m₂, memoryStart₂, numberOfPages₂) =>
        mmapNewMemoryMapEntry m₂ memoryStart₂ numberOfPages₂ .usable
  else
    mmapNewMemoryMapEntry m descriptor.physicalStartAddress descriptor.numberOfPages .reserved

/-- The loop of `mmap_build_memory_map`. -/
def buildLoop (pageTable : BumpAllocator) (m : KernelMemoryMap) :
    List EfiMemoryDescriptor → Option KernelMemoryMap
  | [] => some m
  | descriptor :: rest =>
    match buildEntries pageTable descriptor m with
    | none => none
    | some m' => buildLoop pageTable m' rest

/-- `mmap_build_memory_map`. -/
def mmapBuildMemoryMap (s : Allocators) (efiMemoryMap : List EfiMemoryDescriptor) :
    Option KernelMemoryMap :=
  buildLoop s.pageTable ⟨s.kernelMemoryMap, []⟩ efiMemoryMap

/-! ## Pages -/

/-- The page frames of an EFI descriptor. -/
def EfiMemoryDescriptor.pages (d : EfiMemoryDescriptor) : Set Nat :=
  Set.Ico (d.physicalStartAddress / efiPageSize)
    (d.physicalStartAddress / efiPageSize + d.numberOfPages)

/-- The page frames of the region a bump allocator was given. -/
def BumpAllocator.pages (a : BumpAllocator) : Set Nat :=
  Set.Ico (a.memoryStart / efiPageSize) (a.memoryEnd / efiPageSize)

/-- Page aligned, pairwise disjoint descriptors whose ends do not wrap. -/
structure WellFormedEfi (efiMemoryMap : List EfiMemoryDescriptor) : Prop where
  aligned : ∀ d ∈ efiMemoryMap, d.physicalStartAddress % efiPageSize = 0
  noWrap : ∀ d ∈ efiMemoryMap,
    d.physicalStartAddress + d.numberOfPages * efiPageSize < 2 ^ 64
  disjoint : efiMemoryMap.Pairwise fun d e => Disjoint d.pages e.pages

/-- What the kernel memory map is for. The entries partition the pages of
the EFI map, the usable entries are the usable pages without the two
regions, and the page allocator started on the map never hands out a page
of either region. -/
structure MapsMemory (efiMemoryMap : List EfiMemoryDescriptor) (s : Allocators)
    (memoryMap : List MemoryDescriptor) : Prop where
  disjoint : memoryMap.Pairwise fun d e => Disjoint d.pages e.pages
  covers : {p | ∃ d ∈ memoryMap, p ∈ d.pages} = {p | ∃ d ∈ efiMemoryMap, p ∈ d.pages}
  usable : usablePages memoryMap =
    {p | ∃ d ∈ efiMemoryMap, efiMemoryMapIsUsable d = true ∧ p ∈ d.pages} \
      (s.kernelMemoryMap.pages ∪ s.pageTable.pages)
  handedOut : ∀ dm a allocated, AllocRun dm memoryMap a allocated →
    ∀ block ∈ allocated, ∀ p, inBlock block p = true →
      p ∉ s.kernelMemoryMap.pages ∪ s.pageTable.pages

/-- The first usable descriptor with room for the memory map region. -/
def firstRoomy (efiMemoryMap : List EfiMemoryDescriptor) : Option EfiMemoryDescriptor :=
  efiMemoryMap.find? fun d => efiMemoryMapIsUsable d && decide (256 ≤ d.numberOfPages)

/-- The first usable descriptor with room for the memory map region starts
at physical address 0, which `bump_allocator_invalid` takes for no
allocator, and has room for the page table region behind it. -/
def StrandsPageTables (efiMemoryMap : List EfiMemoryDescriptor) : Prop :=
  ∃ d, firstRoomy efiMemoryMap = some d ∧ d.physicalStartAddress = 0 ∧ 2304 ≤ d.numberOfPages

end ZOs.BootMap
