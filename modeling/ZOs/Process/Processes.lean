import ZOs.Ipc.System
import ZOs.Process.Load
import ZOs.Process.Regions

/-!
# Processes in one memory

Physical memory and `page_alloc_block` are shared by all processes, by the
objects of shared memory and by the kernel's heap. What a process has of its
own are the root of its page table and its lists; a function of
`process.c` or `process_mmap.c` runs on these and on what is shared.

The pages that `page_alloc_block` gives are in three lists, by what they are
given to: page tables, the pages of processes and objects, and the heap.
Pointers that a function checks against NULL are not NULL. `none` is a call
that fails an assertion, which stops the kernel.
-/

namespace ZOs.Processes

open Paging ProcessMemory Bytes Elf
open Ipc (HandleTable handleTableGet)

abbrev ProcessId := Nat

/-- The bytes of a C string. -/
abbrev Path := List UInt8

/-- What is a process's own. -/
structure Owned where
  rootPageTable : Word
  obtained : List Word
  stored : List Nat
  memoryPages : List MemoryPage
  mmapEntries : List MmapEntry
  fdTable : HandleTable File

/-- After `memory_set` and the functions that make lists and tables. -/
def Owned.new : Owned := ⟨0, [], [], [], [], ⟨[], 64⟩⟩

structure Kernel where
  memory : Nat → Word
  /-- given to page tables -/
  answers : List Word
  /-- given to processes and objects -/
  blocks : List (Option Word)
  /-- given to the heap -/
  heapBlocks : List Word
  heap : List Word
  pathTable : Path → Option File
  processes : ProcessId → Option Owned

/-- The process, with what it shares. -/
def Kernel.process (k : Kernel) (o : Owned) : Process where
  pageTable := ⟨o.rootPageTable, k.memory, k.answers, o.obtained, o.stored⟩
  blocks := k.blocks
  memoryPages := o.memoryPages
  mmapEntries := o.mmapEntries
  fdTable fd := (handleTableGet o.fdTable (BitVec.ofInt 64 fd)).join

/-- The process has gone on to `p`. -/
def Kernel.keep (k : Kernel) (i : ProcessId) (o : Owned) (p : Process) : Kernel :=
  { k with
    memory := p.pageTable.memory
    answers := p.pageTable.answers
    blocks := p.blocks
    processes := Function.update k.processes i (some
      { o with
        rootPageTable := p.pageTable.rootPageTable
        obtained := p.pageTable.obtained
        stored := p.pageTable.stored
        memoryPages := p.memoryPages
        mmapEntries := p.mmapEntries }) }

/-! ## Processes -/

/-- A function that loads pages of a process. -/
def Kernel.load (k : Kernel) (i : ProcessId) (o : Owned) (f : Attempt Loading Unit) :
    Option Unit × Kernel :=
  match f ⟨k.process o, []⟩ with
  | (result, l) => (result, k.keep i o l.process)

/-- `process_init` of a new process. What `kmalloc` answers is a parameter: to
`fd_table_init`, and to `allocate_memory_pages`. -/
def Kernel.processInit (k : Kernel) (i : ProcessId) (fdTable : Bool) (stack : Nat → Bool) :
    Option (Option Unit × Kernel) :=
  match k.processes i with
  | some _ => none
  | none =>
    if fdTable then some (k.load i .new (allocateStack stack))
    else some (none, { k with processes := Function.update k.processes i (some .new) })

/-- `process_load_elf`. -/
def Kernel.processLoadElf (k : Kernel) (i : ProcessId) (kmalloc : Nat → Nat → Bool)
    (mainThread : Bool) (file : Buffer) : Option (Option Unit × Kernel) :=
  (k.processes i).map fun o => k.load i o (ProcessMemory.processLoadElf kmalloc mainThread file)

/-- `process_mmap`. -/
def Kernel.processMmap (k : Kernel) (i : ProcessId) (address length flags : Word) (fd : Int) :
    Option (Word × Kernel) := do
  let o ← k.processes i
  let (start, p) ← ProcessMemory.processMmap (k.process o) address length flags fd
  return (start, k.keep i o p)

/-- A store of a process, whatever the flags of the page. -/
def Kernel.store (k : Kernel) (i : ProcessId) (x : Word) (b : Byte) : Option Kernel := do
  let o ← k.processes i
  let physicalAddress ← (k.process o).pageTable.vmapVirtualToPhysical x
  return { k with memory := writeByte k.memory physicalAddress.toNat b }

/-! ## Shared memory -/

/-- The loop of `shared_memory_create`: `n` more pages. -/
def takePages : Nat → List (Option Word) → Option (List Word × List (Option Word))
  | 0, blocks => some ([], blocks)
  | n + 1, some page :: blocks =>
    (takePages n blocks).map fun (pages, blocks) => (page :: pages, blocks)
  | _ + 1, _ => none

/-- An object with these pages, if the heap has room for the array of them. -/
def objectOf (pages : List Word) : Option SharedMemory :=
  if fits : 8 * pages.length ≤ 2 ^ 34 then some ⟨pages, fits⟩ else none

/-- The end of the functions that create an object: it gets a path. -/
def Kernel.openObject (k : Kernel) (path : Path) (object : SharedMemory) : Kernel :=
  { k with pathTable := Function.update k.pathTable path (some (.sharedMemory object)) }

/-- `shared_memory_create`. Whether there is memory for the object and for its
vector is a parameter. -/
def Kernel.sharedMemoryCreate (k : Kernel) (path : Path) (size : Word) (kmalloc : Bool) :
    Option (Option SharedMemory × Kernel) :=
  if kmalloc then do
    let (pages, blocks) ← takePages (countPages size).toNat k.blocks
    let object ← objectOf pages
    return (some object, { k with blocks }.openObject path object)
  else some (none, k)

/-- The pages from an address on. -/
def contiguousPages (physicalStartAddress size : Word) : List Word :=
  (List.range (countPages size).toNat).map (pageAt physicalStartAddress)

/-- `shared_memory_create_from_contiguous_pages`. -/
def Kernel.sharedMemoryCreateFromContiguousPages (k : Kernel) (path : Path)
    (physicalStartAddress size : Word) (kmalloc : Bool) : Option (Option SharedMemory × Kernel) :=
  if kmalloc then do
    let object ← objectOf (contiguousPages physicalStartAddress size)
    return (some object, k.openObject path object)
  else some (none, k)

/-- `handle_table_insert`; a vector that is full doubles its capacity. -/
def insertHandle (table : HandleTable File) (file : File) : HandleTable File where
  handles := table.handles ++ [some file]
  capacity := if table.handles.length < table.capacity then table.capacity else table.capacity * 2

/-- `assert(fd_table_open(fd_table, file_object, fd) == 0)`, and the descriptor. -/
def Kernel.fdTableOpen (k : Kernel) (i : ProcessId) (o : Owned) (object : SharedMemory) :
    Nat × Kernel :=
  let fdTable := insertHandle o.fdTable (.sharedMemory object)
  (o.fdTable.handles.length,
    { k with processes := Function.update k.processes i (some { o with fdTable }) })

/-- `shared_memory_open`. -/
def Kernel.sharedMemoryOpen (k : Kernel) (i : ProcessId) (path : Path) (size : Word)
    (kmalloc : Bool) : Option (Option Nat × Kernel) := do
  let o ← k.processes i
  match k.pathTable path with
  | some .other => return (none, k)
  | some (.sharedMemory object) =>
    let (fd, k) := k.fdTableOpen i o object
    return (some fd, k)
  | none =>
    match ← k.sharedMemoryCreate path size kmalloc with
    | (none, _) => none
    | (some object, k) =>
      let (fd, k) := k.fdTableOpen i o object
      return (some fd, k)

/-! ## The heap -/

/-- `page_alloc_block`, for a page of the heap. -/
def Kernel.growHeap (k : Kernel) : Option Kernel :=
  match k.heapBlocks with
  | [] => none
  | page :: heapBlocks => some { k with heap := page :: k.heap, heapBlocks }

/-! ## Calls -/

inductive Call
  | init (i : ProcessId) (fdTable : Bool) (stack : Nat → Bool)
  | loadElf (i : ProcessId) (kmalloc : Nat → Nat → Bool) (mainThread : Bool) (file : Buffer)
  | mmap (i : ProcessId) (address length flags : Word) (fd : Int)
  | store (i : ProcessId) (x : Word) (b : Byte)
  | create (path : Path) (size : Word) (kmalloc : Bool)
  | createFromContiguousPages (path : Path) (physicalStartAddress size : Word) (kmalloc : Bool)
  | openObject (i : ProcessId) (path : Path) (size : Word) (kmalloc : Bool)
  | growHeap

/-- The kernel after a call. -/
def exec (k : Kernel) : Call → Option Kernel
  | .init i fdTable stack => (k.processInit i fdTable stack).map Prod.snd
  | .loadElf i kmalloc mainThread file => (k.processLoadElf i kmalloc mainThread file).map Prod.snd
  | .mmap i address length flags fd => (k.processMmap i address length flags fd).map Prod.snd
  | .store i x b => k.store i x b
  | .create path size kmalloc => (k.sharedMemoryCreate path size kmalloc).map Prod.snd
  | .createFromContiguousPages path physicalStartAddress size kmalloc =>
    (k.sharedMemoryCreateFromContiguousPages path physicalStartAddress size kmalloc).map Prod.snd
  | .openObject i path size kmalloc => (k.sharedMemoryOpen i path size kmalloc).map Prod.snd
  | .growHeap => k.growHeap

/-- What an address of a process translates to. -/
def Kernel.translate (k : Kernel) (i : ProcessId) (x : Word) : Option Word :=
  (k.processes i).bind fun o => (k.process o).pageTable.vmapVirtualToPhysical x

end ZOs.Processes
