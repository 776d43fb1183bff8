import ZOs.Memory.DirectMap
import ZOs.Process.Elf
import ZOs.Process.Mmap

/-!
# Loading a process

`process.c`: the pages of the stack and of the segments of a program, and
the bytes that are copied into them. A page that is mapped already is used
again, and the bytes go where its first address leads to. What is read of
the file is kept beside the process; no function looks at it.

Giving up is the return of -1. What `kmalloc` answers is a parameter: for
page `i`, call `2 * i` is for its record and `2 * i + 1` for the node that
holds the record in the list.
-/

namespace ZOs.ProcessMemory

open Paging Bytes Elf

/-- `USER_STACK_TOP`. -/
def userStackTop : Word := 0x0000007ffffff000

/-- `USER_STACK_SIZE`: 64 KiB. -/
def userStackSize : Word := 1 <<< 16

def pageFlagUxn : Word := 1 <<< 54
def pageFlagPxn : Word := 1 <<< 53

/-- `USER_STACK_PAGE_FLAGS`. -/
def userStackPageFlags : Word :=
  pageFlagPxn ||| pageFlagUxn ||| pageFlagEl0El1Rw ||| pageFlagNormalMemory |||
    pageFlagInnerSharable

/-! ## Pages -/

/-- `page_alloc_block(PAGE_ALLOC_ORDER_4KB, ...)`. -/
def takeBlock : Attempt Process Word := fun p =>
  match p.blocks with
  | some page :: rest => (some page, { p with blocks := rest })
  | none :: rest => (none, { p with blocks := rest })
  | [] => (none, p)

/-- `vmap_map_page(&process->address_space.page_table, ...)`. -/
def mapTaken (physicalAddress virtualAddress pageFlags : Word) : Attempt Process Unit := fun p =>
  match vmapMapPage physicalAddress virtualAddress pageFlags p.pageTable with
  | (result, pageTable) => (result, { p with pageTable })

/-- `linked_list_insert`, whose result is not looked at. -/
def recordPage (page : MemoryPage) (inserted : Bool) : Attempt Process Unit :=
  .modify fun p => if inserted then { p with memoryPages := p.memoryPages ++ [page] } else p

/-- A new page for an address. On failure the block is freed, and the caller
gives up. -/
def takePage (virtualAddress pageFlags : Word) : Attempt Process Word := do
  let physicalAddress ← takeBlock
  mapTaken physicalAddress virtualAddress pageFlags
  pure physicalAddress

/-- The page of an address: the one that is mapped, or a new one. -/
def findPage (virtualAddress pageFlags : Word) : Attempt Process Word := fun p =>
  match p.pageTable.vmapVirtualToPhysical virtualAddress with
  | some existingPhysicalAddress => (some existingPhysicalAddress, p)
  | none => takePage virtualAddress pageFlags p

/-- A process that is loaded, and what has been read of its file. -/
structure Loading where
  process : Process
  reads : List Read

/-- A step of the process. -/
def onProcess {α : Type} (x : Attempt Process α) : Attempt Loading α := fun l =>
  match x l.process with
  | (result, process) => (result, { l with process })

def Loading.noted (l : Loading) (offset : Word) (n : Nat) : Loading :=
  { l with reads := l.reads ++ [(offset, n)] }

/-- A part of the file is read. -/
def note (offset : Word) (n : Nat) : Attempt Loading Unit := .modify (·.noted offset n)

/-- `memory_copy` from the file. -/
def Process.copy (p : Process) (file : Buffer) (physicalAddress source : Word) (n : Nat) :
    Process :=
  let memory := copyBytes (fun k => file.bytes (source.toNat + k)) physicalAddress.toNat n
    p.pageTable.memory
  { p with pageTable := { p.pageTable with memory } }

/-- The end of the loop of `allocate_memory_pages`: a part of the buffer is
copied. The buffer is a place in the file, and the rest of its size. -/
def copyPart (file : Buffer) (physicalAddress : Word) (buffer : Option Word)
    (bytesRemaining : Nat) :
    Attempt Loading (Option Word × Nat) :=
  match buffer with
  | none => pure (none, bytesRemaining)
  | some source =>
    -- the pointer into the buffer can be null as well
    if file.address + source = 0 ∨ bytesRemaining = 0 then pure (some source, bytesRemaining)
    else if bytesRemaining < 4096 then do
      note source bytesRemaining
      onProcess (.modify (·.copy file physicalAddress source bytesRemaining))
      pure (none, 0)
    else do
      note source 4096
      onProcess (.modify (·.copy file physicalAddress source 4096))
      pure (some (source + pageSize), bytesRemaining - 4096)

/-- The loop of `allocate_memory_pages`: page `i` of `n` more. -/
def allocatePages (type : MemoryPageType) (virtualBase pageFlags : Word) (kmalloc : Nat → Bool)
    (file : Buffer) : Nat → Nat → Option Word → Nat → Attempt Loading Unit
  | _, 0, _, _ => pure ()
  | i, n + 1, buffer, bytesRemaining => do
    if kmalloc (2 * i) = false then .giveUp
    else
      let virtualAddress := virtualBase + BitVec.ofNat 64 i * pageSize
      let physicalAddress ← onProcess (findPage virtualAddress pageFlags)
      onProcess (recordPage ⟨virtualAddress, physicalAddress, type⟩ (kmalloc (2 * i + 1)))
      -- mmap_physical_to_virtual
      if mmapPhysicalRegionSize ≤ physicalAddress.toNat then .giveUp
      else
        let (buffer, bytesRemaining) ← copyPart file physicalAddress buffer bytesRemaining
        allocatePages type virtualBase pageFlags kmalloc file (i + 1) n buffer bytesRemaining

/-- `allocate_memory_pages`. -/
def allocateMemoryPages (type : MemoryPageType) (virtualBase size pageFlags : Word)
    (kmalloc : Nat → Bool) (file : Buffer) (buffer : Option Word) (bufferSize : Word) :
    Attempt Loading Unit :=
  allocatePages type virtualBase pageFlags kmalloc file 0 (countPages size).toNat buffer
    bufferSize.toNat

/-- The stack of `process_init`. -/
def allocateStack (kmalloc : Nat → Bool) : Attempt Loading Unit :=
  allocateMemoryPages .userStack (userStackTop - userStackSize) userStackSize userStackPageFlags
    kmalloc .null none 0

/-! ## Programs -/

/-- `page_flags` of `load_program_segment`, a `uint32_t`. -/
def segmentPageFlags (flags : BitVec 32) : BitVec 32 :=
  let pageFlags : BitVec 32 := (pageFlagInnerSharable ||| pageFlagNormalMemory).setWidth 32
  let pageFlags :=
    if flags &&& pfX = 0 then pageFlags ||| (pageFlagPxn ||| pageFlagUxn).setWidth 32 else pageFlags
  if flags &&& pfW = 0 then pageFlags ||| pageFlagEl0El1Ro.setWidth 32
  else pageFlags ||| pageFlagEl0El1Rw.setWidth 32

/-- `load_program_segment`. -/
def loadProgramSegment (kmalloc : Nat → Bool) (file : Buffer) (program : ProgramHeader) :
    Attempt Loading Unit :=
  if program.refused then .giveUp
  else
    allocateMemoryPages .program program.pVaddr program.pMemsz
      ((segmentPageFlags program.pFlags).setWidth 64) kmalloc file (some program.pOffset)
      program.pFilesz

/-- The loop of `process_load_elf` over the program headers. -/
def loadSegments (kmalloc : Nat → Nat → Bool) (file : Buffer) :
    Nat → List (Word × ProgramHeader) → Attempt Loading Unit
  | _, [] => pure ()
  | i, (offset, program) :: rest => do
    note offset programHeaderSize
    if program.pType = ptLoad then
      loadProgramSegment (kmalloc i) file program
      loadSegments kmalloc file (i + 1) rest
    else loadSegments kmalloc file (i + 1) rest

/-- `process_load_elf`; whether the main thread can be made is a parameter. -/
def processLoadElf (kmalloc : Nat → Nat → Bool) (mainThread : Bool) (file : Buffer) :
    Attempt Loading Unit := do
  note 0 elfHeaderSize
  loadSegments kmalloc file 0 (programHeaders file)
  if mainThread then pure () else .giveUp

end ZOs.ProcessMemory
