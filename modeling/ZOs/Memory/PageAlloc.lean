import Mathlib.Logic.Function.Basic
import ZOs.Memory.DirectMap

/-!
# The buddy page allocator

`kernel/page_alloc.c`. Free blocks of each order hang on a singly linked
list whose links are stored in the free pages themselves, at their
addresses in the direct-map window; a bitmap has one 16-bit entry for each
page frame.

A result `none` is a call that never returns: `assert_impl` loops on
`wfe`, and the search loop of `page_alloc_free` may not end.
-/

namespace ZOs.PageAlloc

/-- `MAX_ORDER`. -/
def maxOrder : Nat := 10

/-- `MAX_TOTAL_PAGES`: 64 GiB of pages. -/
def maxTotalPages : Nat := 0x1000000

/-- `PAGE_SIZE`. -/
def pageSize : Nat := 4096

/-- `PAGE_SHIFT`. -/
def pageShift : Nat := 12

/-! ## The bitmap entry: `[order (8 bits)][is_free][is_head][valid]` -/

def pageBitmapIsFreeMask : Nat := 0x4
def pageBitmapIsHeadMask : Nat := 0x2
def pageBitmapValidMask : Nat := 0x1

/-- What `free_list_push` writes for the head of a free block. -/
def freeHeadEntry (order : Nat) : Nat :=
  (order <<< 3) ||| pageBitmapIsFreeMask ||| pageBitmapValidMask ||| pageBitmapIsHeadMask

/-- What `free_list_pop` and `page_alloc_block` write for the head of a
block that is handed out. -/
def usedHeadEntry (order : Nat) : Nat :=
  (order <<< 3) ||| pageBitmapIsHeadMask ||| pageBitmapValidMask

/-- `entry & ~PAGE_BITMAP_IS_FREE_MASK`, in 16 bits. -/
def clearFree (entry : Nat) : Nat := entry &&& 0xFFFB

/-- `merge_possible` of `page_alloc_free`: the entry is a valid, free head
of exactly this order. -/
def isFreeHead (entry order : Nat) : Bool :=
  decide (0 < entry &&& pageBitmapValidMask ∧
    0 < entry &&& pageBitmapIsFreeMask ∧
    0 < entry &&& pageBitmapIsHeadMask ∧
    entry >>> 3 = order)

/-! ## State -/

/-- The two static arrays and the links threaded through the free pages.
A link is keyed by the virtual address of the page that stores it. -/
structure PageAllocator where
  freeLists : Nat → Nat
  pageBitmap : Nat → Nat
  nextPage : Nat → Nat

/-- `mmap_memory_type_t`. -/
inductive MemoryType where
  | usable
  | reserved
  deriving DecidableEq, Repr

/-- `mmap_memory_descriptor_t`. -/
structure MemoryDescriptor where
  physicalStartAddress : Nat
  numberOfPages : Nat
  type : MemoryType

/-! ## Free lists -/

/-- `free_list_push`. -/
def freeListPush (s : PageAllocator) (order pageFrameNumber : Nat) :
    Option (Int × PageAllocator) :=
  if maxOrder < order then some (-1, s)
  else if maxTotalPages ≤ pageFrameNumber then some (-1, s)
  else
    -- assert(mmap_physical_to_virtual(...) == 0)
    match mmapPhysicalToVirtual (pageFrameNumber <<< pageShift) with
    | none => none
    | some virtualAddress =>
      some (0,
        { freeLists := Function.update s.freeLists order virtualAddress
          pageBitmap := Function.update s.pageBitmap pageFrameNumber (freeHeadEntry order)
          nextPage := Function.update s.nextPage virtualAddress (s.freeLists order) })

/-- `free_list_pop`; an empty list is the inner `none`. -/
def freeListPop (dm : DirectMap) (s : PageAllocator) (order : Nat) :
    Option (Option Nat × PageAllocator) :=
  let freePage := s.freeLists order
  if freePage = 0 then some (none, s)
  else
    -- assert(mmap_virtual_to_physical(...) == 0)
    match dm.mmapVirtualToPhysical freePage with
    | none => none
    | some physicalAddress =>
      let pageFrameNumber := physicalAddress >>> pageShift
      some (some pageFrameNumber,
        { s with
          pageBitmap := Function.update s.pageBitmap pageFrameNumber (usedHeadEntry order)
          freeLists := Function.update s.freeLists order (s.nextPage freePage) })

/-! ## Initialisation -/

/-- The loop of `page_alloc_init` that looks for the largest order that
fits the remaining pages and the alignment of the start. -/
def largestOrder (remainingPages startPageFrameIdx : Nat) : Nat → Nat
  | 0 => 0
  | order + 1 =>
    if 2 ^ (order + 1) ≤ remainingPages ∧ startPageFrameIdx % 2 ^ (order + 1) = 0 then order + 1
    else largestOrder remainingPages startPageFrameIdx order

/-- The loop of `page_alloc_init` that carves one descriptor into blocks.
Each pass takes at least one page, so the page count is enough fuel. -/
def carve (s : PageAllocator) : Nat → Nat → Nat → Option (Int × PageAllocator)
  | 0, remainingPages, _ => if remainingPages = 0 then some (0, s) else none
  | fuel + 1, remainingPages, startPageFrameIdx =>
    if remainingPages = 0 then some (0, s)
    else
      let order := largestOrder remainingPages startPageFrameIdx maxOrder
      match freeListPush s order startPageFrameIdx with
      | none => none
      | some (result, s') =>
        if result < 0 then some (-1, s')
        else carve s' fuel (remainingPages - 2 ^ order) (startPageFrameIdx + 2 ^ order)

/-- `(int64_t)number_of_pages`, as the count the `while` loop starts with:
a negative value never enters the loop. -/
def signedPageCount (numberOfPages : Nat) : Nat :=
  if numberOfPages < 2 ^ 63 then numberOfPages else 0

/-- The loop of `page_alloc_init` over the memory map. -/
def initDescriptors (s : PageAllocator) : List MemoryDescriptor → Option (Int × PageAllocator)
  | [] => some (0, s)
  | descriptor :: rest =>
    if descriptor.type ≠ .usable then initDescriptors s rest
    else
      -- assert(mmap_physical_to_virtual(...) == 0)
      match mmapPhysicalToVirtual descriptor.physicalStartAddress with
      | none => none
      | some _ =>
        let remainingPages := signedPageCount descriptor.numberOfPages
        match carve s remainingPages remainingPages
            (descriptor.physicalStartAddress >>> pageShift) with
        | none => none
        | some (result, s') => if result < 0 then some (-1, s') else initDescriptors s' rest

/-- `page_alloc_init`: the static arrays are cleared, the links are
whatever the pages held before. -/
def pageAllocInit (nextPage : Nat → Nat) (memoryMap : List MemoryDescriptor) :
    Option (Int × PageAllocator) :=
  initDescriptors { freeLists := fun _ => 0, pageBitmap := fun _ => 0, nextPage } memoryMap

/-! ## Allocation -/

/-- `page_alloc_block_size`. -/
def pageAllocBlockSize (order : Nat) : Nat := 1 <<< order

/-- The first loop of `page_alloc_block`: climb from `currentOrder` until a
list is not empty. The fuel counts the orders left up to `MAX_ORDER`. -/
def findFreeBlock (dm : DirectMap) (s : PageAllocator) :
    Nat → Nat → Option (Option (Nat × Nat) × PageAllocator)
  | 0, _ => some (none, s)
  | fuel + 1, currentOrder =>
    match freeListPop dm s currentOrder with
    | none => none
    | some (some pageFrameNumber, s') => some (some (currentOrder, pageFrameNumber), s')
    | some (none, s') => findFreeBlock dm s' fuel (currentOrder + 1)

/-- The second loop of `page_alloc_block`: give back the upper half until
the requested order is reached. The counter is `current_order - order`. -/
def splitBlock (s : PageAllocator) (order pageFrameNumber : Nat) :
    Nat → Option (Int × PageAllocator)
  | 0 => some (0, s)
  | n + 1 =>
    let currentOrder := order + n
    match freeListPush s currentOrder (pageFrameNumber + pageAllocBlockSize currentOrder) with
    | none => none
    | some (result, s') =>
      if result < 0 then some (-1, s') else splitBlock s' order pageFrameNumber n

/-- `page_alloc_block`: the address of the block, or `none` for -1. -/
def pageAllocBlock (dm : DirectMap) (s : PageAllocator) (order : Nat) :
    Option (Option Nat × PageAllocator) :=
  match findFreeBlock dm s (maxOrder + 1 - order) order with
  | none => none
  | some (none, s') => some (none, s')
  | some (some (currentOrder, pageFrameNumber), s') =>
    match splitBlock s' order pageFrameNumber (currentOrder - order) with
    | none => none
    | some (result, s'') =>
      if result < 0 then some (none, s'')
      else
        some (some (pageFrameNumber <<< pageShift),
          { s'' with
            pageBitmap := Function.update s''.pageBitmap pageFrameNumber (usedHeadEntry order) })

/-! ## Freeing -/

/-- `calculate_buddy_page_frame_number`. -/
def calculateBuddyPageFrameNumber (pageFrameNumber order : Nat) : Nat :=
  pageFrameNumber ^^^ (1 <<< order)

/-- The search loop of `page_alloc_free` for the predecessor of the buddy.
`current_page` is never advanced, so every pass sees the same page. Going
through a null `next_page` is a fault. -/
def unlinkBuddy (dm : DirectMap) (nextPage : Nat → Nat) (buddy currentPage : Nat) :
    Nat → Option (Nat → Nat)
  | 0 => none
  | fuel + 1 =>
    if currentPage = 0 then some nextPage
    else
      -- assert(mmap_virtual_to_physical((uint64_t)current_page->next_page, ...) == 0)
      match dm.mmapVirtualToPhysical (nextPage currentPage) with
      | none => none
      | some physicalAddress =>
        if physicalAddress >>> pageShift = buddy then
          if nextPage currentPage = 0 then none
          else some (Function.update nextPage currentPage (nextPage (nextPage currentPage)))
        else unlinkBuddy dm nextPage buddy currentPage fuel

/-- The merge loop of `page_alloc_free` and the final push. The counter is
`MAX_ORDER - current_order`; `fuel` bounds each search. -/
def mergeAndPush (dm : DirectMap) (fuel : Nat) (s : PageAllocator) :
    Nat → Nat → Nat → Option (Int × PageAllocator)
  | 0, currentOrder, pageFrameNumber => freeListPush s currentOrder pageFrameNumber
  | n + 1, currentOrder, pageFrameNumber =>
    let buddy := calculateBuddyPageFrameNumber pageFrameNumber currentOrder
    if maxTotalPages ≤ buddy then freeListPush s currentOrder pageFrameNumber
    else if isFreeHead (s.pageBitmap buddy) currentOrder then
      match unlinkBuddy dm s.nextPage buddy (s.freeLists currentOrder) fuel with
      | none => none
      | some nextPage =>
        mergeAndPush dm fuel
          { s with
            nextPage := nextPage
            pageBitmap := Function.update s.pageBitmap buddy (clearFree (s.pageBitmap buddy)) }
          n (currentOrder + 1)
          (if buddy < pageFrameNumber then buddy else pageFrameNumber)
    else freeListPush s currentOrder pageFrameNumber

/-- `page_alloc_free`. -/
def pageAllocFree (dm : DirectMap) (fuel : Nat) (s : PageAllocator)
    (physicalStartAddress order : Nat) : Option (Int × PageAllocator) :=
  mergeAndPush dm fuel s (maxOrder - order) order (physicalStartAddress >>> pageShift)

end ZOs.PageAlloc
