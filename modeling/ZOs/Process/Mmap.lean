import ZOs.Memory.VmapFrame

/-!
# Memory mapped by processes

`process_mmap.c`. A process has its page table, the list of the regions it
has mapped, and its table of file descriptors. The pages that
`page_alloc_block` gives to `alloc_page` are the answers of the page table,
those that `process_mmap` takes itself are `blocks`; `none` in it is a
failure.

`none` is a call that does not return, an assertion that fails.
-/

namespace ZOs.ProcessMemory

open Paging

/-- `PAGE_SIZE`. -/
def pageSize : Word := 4096

/-- `HEAP_VIRTUAL_BASE`. -/
def heapVirtualBase : Word := 0x0000400000000000

/-- `HEAP_SIZE`: 16 GiB. -/
def heapSize : Word := 1 <<< 34

/-! ## Flags -/

def mapRead : Word := 1 <<< 0
def mapWrite : Word := 1 <<< 1
def mapShared : Word := 1 <<< 4

def pageFlagInnerSharable : Word := 3 <<< 8
def pageFlagEl0El1Ro : Word := 0x3 <<< 6
def pageFlagEl0El1Rw : Word := 0x1 <<< 6

/-- `PAGE_FLAG_MAIR_ATTR(NORMAL_MEMORY_ATTR_INDEX)`. -/
def pageFlagNormalMemory : Word := 0x3 <<< 2

/-! ## State -/

/-- `mmap_entry_t`. -/
structure MmapEntry where
  virtualAddress : Word
  numPages : Word
  deriving DecidableEq

/-- `shared_memory_t`. The array of its pages is in the kernel's heap, so
it is no larger than the direct-map window. -/
structure SharedMemory where
  pages : List Word
  fits : 8 * pages.length ≤ 2 ^ 34

/-- What a file is for `process_mmap`, which compares its operations with
those of shared memory. -/
inductive File
  | sharedMemory (object : SharedMemory)
  | other

/-- `process_memory_page_type_t`. -/
inductive MemoryPageType
  | userStack
  | program
  deriving DecidableEq

/-- `process_memory_page_t`. -/
structure MemoryPage where
  virtualAddress : Word
  physicalAddress : Word
  type : MemoryPageType

/-- The part of `process_t` that the mapping of memory uses. -/
structure Process where
  pageTable : Vmap
  blocks : List (Option Word)
  memoryPages : List MemoryPage
  mmapEntries : List MmapEntry
  fdTable : Int → Option File

/-! ## Pages -/

/-- The number of pages of a length, rounded up. -/
def countPages (length : Word) : Word :=
  if length % pageSize ≠ 0 then length / pageSize + 1 else length / pageSize

/-- `assert(vmap_map_page(...) == 0)`. -/
def Process.mapPage (p : Process) (physicalAddress virtualAddress pageFlags : Word) :
    Option Process :=
  match vmapMapPage physicalAddress virtualAddress pageFlags p.pageTable with
  | (some (), pageTable) => some { p with pageTable }
  | (none, _) => none

/-- The loops of `process_mmap`: page `i` of `n` more. -/
def mapPages (nextPage : Nat → Process → Option (Word × Process)) (address pageFlags : Word) :
    Nat → Nat → Process → Option Process
  | _, 0, p => some p
  | i, n + 1, p =>
    match nextPage i p with
    | none => none
    | some (pageAddress, p) =>
      match p.mapPage pageAddress (address + BitVec.ofNat 64 i * pageSize) pageFlags with
      | none => none
      | some p => mapPages nextPage address pageFlags (i + 1) n p

/-- `assert(vector_get(&shared_memory->pages, i, ...) == 0)`. -/
def sharedPage (object : SharedMemory) (i : Nat) (p : Process) : Option (Word × Process) :=
  object.pages[i]?.map fun page => (page, p)

/-- `assert(page_alloc_block(PAGE_ALLOC_ORDER_4KB, ...) == 0)`. -/
def privatePage (_ : Nat) (p : Process) : Option (Word × Process) :=
  match p.blocks with
  | some page :: rest => some (page, { p with blocks := rest })
  | _ => none

/-- The descriptor is that of a shared memory object. -/
def Process.sharedMemory (p : Process) (fd : Int) : Option SharedMemory :=
  if fd < 0 then none
  else
    match p.fdTable fd with
    | some (.sharedMemory object) => some object
    | _ => none

/-! ## `process_mmap` -/

/-- One pass of the loop of `find_free_address_space`. -/
def skipEntry (freeAddressSpace : Word) (entry : MmapEntry) : Word :=
  let endAddress := entry.virtualAddress + entry.numPages * pageSize
  if freeAddressSpace ≤ endAddress then endAddress else freeAddressSpace

/-- `find_free_address_space`. -/
def findFreeAddressSpace (entries : List MmapEntry) : Option Word :=
  let freeAddressSpace := entries.foldl skipEntry heapVirtualBase
  if freeAddressSpace = heapVirtualBase ∧ entries ≠ [] then none
  else if freeAddressSpace % pageSize = 0 then some freeAddressSpace
  else none

/-- The address that `process_mmap` maps to. -/
def Process.startAddress (p : Process) (address : Word) : Option Word :=
  if address = 0 then findFreeAddressSpace p.mmapEntries else some address

def mmapPageFlags (flags : Word) : Word :=
  let pageFlags := pageFlagNormalMemory ||| pageFlagInnerSharable
  if flags &&& mapRead ≠ 0 ∧ flags &&& mapWrite ≠ 0 then pageFlags ||| pageFlagEl0El1Rw
  else if flags &&& mapRead ≠ 0 then pageFlags ||| pageFlagEl0El1Ro
  else if flags &&& mapWrite ≠ 0 then pageFlags ||| pageFlagEl0El1Rw
  else pageFlags

/-- The pages of the region are mapped. -/
def Process.mapRegion (p : Process) (address numPages flags : Word) (fd : Int) : Option Process :=
  if flags &&& mapShared ≠ 0 then
    match p.sharedMemory fd with
    | none => none
    | some object =>
      mapPages (sharedPage object) address (mmapPageFlags flags) 0 numPages.toNat p
  else mapPages privatePage address (mmapPageFlags flags) 0 numPages.toNat p

/-- `process_mmap`. -/
def processMmap (p : Process) (address length flags : Word) (fd : Int) : Option (Word × Process) :=
  if address % pageSize ≠ 0 then none
  else
    match p.startAddress address with
    | none => none
    | some address =>
      if address < heapVirtualBase then none
      else if heapVirtualBase + heapSize < address + length then none
      else
        let numPages := countPages length
        match p.mapRegion address numPages flags fd with
        | none => none
        | some p =>
          let entry : MmapEntry := ⟨address, numPages⟩
          some (address, { p with mmapEntries := p.mmapEntries ++ [entry] })

end ZOs.ProcessMemory
