import Mathlib.Logic.Function.Basic
import ZOs.Memory.PageAlloc

/-!
# The kernel heap

`kernel/block_allocator.c`. The heap is one growing range of virtual
memory, cut into blocks; a block is a header with its payload behind it.
All headers hang on the block list, in the order of their addresses, and
those of the free blocks on the free list as well.

Memory is what a `block_header_t` read at an address would say. Headers in
use never overlap, so nothing is lost by keeping the fields of a header
together. Pointers and sizes are numbers below 2^64, and sums wrap. A
result `none` is a call that never returns: `assert_impl` loops on `wfe`,
and a walk along a cyclic list does not end.
-/

namespace ZOs.BlockAllocator

open PageAlloc (pageSize)

/-- `PAGE_ALLOC_ORDER_4KB`. -/
def pageAllocOrder4KB : Nat := 0

/-- `BLOCK_ALLOCATOR_DEFAULT_ORDER`: `PAGE_ALLOC_ORDER_4MB`. -/
def blockAllocatorDefaultOrder : Nat := 10

/-- `BLOCK_ALLOCATOR_DEFAULT_SIZE`: 4 MiB. -/
def blockAllocatorDefaultSize : Nat := 4 * 1024 * 1024

/-- `BLOCK_ALLOCATOR_BLOCK_MAGIC`: 'V'. -/
def blockAllocatorBlockMagic : Nat := 0x56

/-- `sizeof(block_header_t)`: two bytes, padded to eight, and six words. -/
def headerSize : Nat := 56

/-- `a + b` in 64 bits. -/
def add64 (a b : Nat) : Nat := (a + b) % 2 ^ 64

/-- `a - b` in 64 bits. -/
def sub64 (a b : Nat) : Nat := (a + (2 ^ 64 - b)) % 2 ^ 64

/-! ## State -/

/-- `block_header_t`. -/
structure BlockHeader where
  magic : Nat
  isFree : Nat
  size : Nat
  offset : Nat
  prevPtr : Nat
  nextPtr : Nat
  freeListNextPtr : Nat
  freeListPrevPtr : Nat
  deriving DecidableEq

/-- The address space a heap lives in: `vmap_is_active`,
`page_alloc_block` (`none` is its error return) and `vmap_map_page` (`true`
is the return of 0), on a state `σ` of the kernel. A mapping that
succeeds maps its page, and neither call takes a mapping away. -/
structure AddressSpace (σ : Type) where
  vmapIsActive : σ → Bool
  pageAllocBlock : Nat → σ → Option Nat × σ
  vmapMapPage : Nat → Nat → Nat → σ → Bool × σ
  mapped : σ → Nat → Prop
  alloc_keeps : ∀ order w a, mapped w a → mapped (pageAllocBlock order w).2 a
  map_keeps : ∀ page va flags w a, mapped w a → mapped (vmapMapPage page va flags w).2 a
  map_maps : ∀ page va flags w a, va % 4096 = 0 → (vmapMapPage page va flags w).1 = true →
    va ≤ a → a < va + 4096 → a < 2 ^ 64 → mapped (vmapMapPage page va flags w).2 a

/-- `block_allocator_t` with the memory behind it. -/
structure Heap (σ : Type) where
  virtualBase : Nat
  pageFlags : Nat
  blockListHead : Nat
  freeListHead : Nat
  headers : Nat → BlockHeader
  space : σ

variable {σ : Type}

/-- Store to fields of the header at an address. -/
def Heap.modify (h : Heap σ) (address : Nat) (f : BlockHeader → BlockHeader) : Heap σ :=
  { h with headers := Function.update h.headers address (f (h.headers address)) }

/-! ## Lists -/

/-- `add_block_to_free_list`. -/
def addBlockToFreeList (h : Heap σ) (blockHeader : Nat) : Heap σ :=
  let next := h.freeListHead
  let h := h.modify blockHeader fun b => { b with freeListPrevPtr := 0, freeListNextPtr := next }
  let h := { h with freeListHead := blockHeader }
  if next ≠ 0 then h.modify next fun b => { b with freeListPrevPtr := blockHeader }
  else h

/-- `remove_block_from_free_list`. -/
def removeBlockFromFreeList (h : Heap σ) (blockHeader : Nat) : Heap σ :=
  let prev := (h.headers blockHeader).freeListPrevPtr
  let next := (h.headers blockHeader).freeListNextPtr
  let h :=
    if prev ≠ 0 then h.modify prev fun b => { b with freeListNextPtr := next }
    else { h with freeListHead := next }
  let h :=
    if next ≠ 0 then h.modify next fun b => { b with freeListPrevPtr := prev }
    else h
  h.modify blockHeader fun b => { b with freeListNextPtr := 0, freeListPrevPtr := 0 }

/-- `remove_block_from_block_list`. -/
def removeBlockFromBlockList (h : Heap σ) (blockHeader : Nat) : Heap σ :=
  let prev := (h.headers blockHeader).prevPtr
  let next := (h.headers blockHeader).nextPtr
  let h :=
    if prev ≠ 0 then h.modify prev fun b => { b with nextPtr := next }
    else { h with blockListHead := next }
  let h :=
    if next ≠ 0 then h.modify next fun b => { b with prevPtr := prev }
    else h
  h.modify blockHeader fun b => { b with nextPtr := 0, prevPtr := 0 }

/-- More steps than a list without a cycle can have. -/
def walkFuel : Nat := 2 ^ 64

/-- The loop of `find_free_block`; null is 0. -/
def findFreeBlockFrom (h : Heap σ) (size : Nat) : Nat → Nat → Option Nat
  | 0, _ => none
  | fuel + 1, blockHeader =>
    if blockHeader = 0 then some 0
    else if size ≤ (h.headers blockHeader).size then some blockHeader
    else findFreeBlockFrom h size fuel (h.headers blockHeader).freeListNextPtr

/-- `find_free_block`. -/
def findFreeBlock (h : Heap σ) (size : Nat) : Option Nat :=
  findFreeBlockFrom h size walkFuel h.freeListHead

/-- The loop of `get_last_block_header`. -/
def lastBlockFrom (h : Heap σ) : Nat → Nat → Option Nat
  | 0, _ => none
  | fuel + 1, blockHeader =>
    if blockHeader = 0 then some 0
    else if (h.headers blockHeader).nextPtr = 0 then some blockHeader
    else lastBlockFrom h fuel (h.headers blockHeader).nextPtr

/-- `get_last_block_header`. -/
def getLastBlockHeader (h : Heap σ) : Option Nat := lastBlockFrom h walkFuel h.blockListHead

/-! ## Initialisation -/

/-- `vmap_map_range`. -/
def vmapMapRange (env : AddressSpace σ) (virtualEnd pageFlags : Nat) :
    Nat → Nat → Nat → σ → Option (Bool × σ)
  | 0, _, _, _ => none
  | fuel + 1, virtualAddress, physicalAddress, w =>
    if virtualAddress < virtualEnd then
      match env.vmapMapPage physicalAddress virtualAddress pageFlags w with
      | (false, w) => some (false, w)
      | (true, w) =>
        vmapMapRange env virtualEnd pageFlags fuel (add64 virtualAddress 4096)
          (add64 physicalAddress 4096) w
    else some (true, w)

/-- The end of `block_allocator_init`: the whole heap becomes one free
block. Before that, the heap is empty. -/
def firstBlock (virtualBase pageFlags : Nat) (headers : Nat → BlockHeader) :
    Option (Bool × σ) → Option (Int × Heap σ)
  | none => none
  | some (false, w) => some (-1, ⟨virtualBase, pageFlags, 0, 0, headers, w⟩)
  | some (true, w) =>
    let first : BlockHeader :=
      { magic := blockAllocatorBlockMagic
        isFree := 1
        size := blockAllocatorDefaultSize - headerSize
        offset := headerSize
        prevPtr := 0
        nextPtr := 0
        freeListNextPtr := 0
        freeListPrevPtr := 0 }
    some (0,
      { virtualBase := virtualBase
        pageFlags := pageFlags
        blockListHead := virtualBase
        freeListHead := virtualBase
        headers := Function.update headers virtualBase first
        space := w })

/-- `block_allocator_init` on memory that holds `headers`: its return code
and the heap. -/
def blockAllocatorInit (env : AddressSpace σ) (virtualBase pageFlags : Nat)
    (headers : Nat → BlockHeader) (w : σ) : Option (Int × Heap σ) :=
  -- assert(vmap_is_active(address_space))
  if env.vmapIsActive w then
    match env.pageAllocBlock blockAllocatorDefaultOrder w with
    | (none, w) => some (-1, ⟨virtualBase, pageFlags, 0, 0, headers, w⟩)
    | (some pageAddress, w) =>
      firstBlock virtualBase pageFlags headers
        (vmapMapRange env (add64 virtualBase blockAllocatorDefaultSize) pageFlags walkFuel
          virtualBase pageAddress w)
  else none

/-! ## Allocation -/

/-- The loop of `find_or_create_free_block` that gives the new block its
pages, from the page numbered `i` on. -/
def mapNewPages (env : AddressSpace σ) (pageFlags start : Nat) : Nat → Nat → σ → Bool × σ
  | 0, _, w => (true, w)
  | remaining + 1, i, w =>
    match env.pageAllocBlock pageAllocOrder4KB w with
    | (none, w) => (false, w)
    | (some pageAddress, w) =>
      match env.vmapMapPage pageAddress (add64 start (i * pageSize)) pageFlags w with
      | (false, w) => (false, w)
      | (true, w) => mapNewPages env pageFlags start remaining (i + 1) w

/-- The pages that a block with a payload of this size needs. -/
def numPages (size : Nat) : Nat :=
  let bytes := add64 size headerSize
  if bytes % pageSize ≠ 0 then bytes / pageSize + 1 else bytes / pageSize

/-- The offset of the block that goes behind the last one. -/
def nextOffset (h : Heap σ) (lastBlock : Nat) : Nat :=
  if lastBlock ≠ 0 then
    add64 (add64 (h.headers lastBlock).offset (h.headers lastBlock).size) headerSize
  else headerSize

/-- Where the header of a block with this offset is. -/
def blockAt (h : Heap σ) (offset : Nat) : Nat := sub64 (add64 h.virtualBase offset) headerSize

/-- The header that `find_or_create_free_block` builds behind the last
block. -/
def buildBlock (h : Heap σ) (lastBlock offset pages : Nat) : Heap σ :=
  let newBlock := blockAt h offset
  let h := h.modify newBlock fun b =>
    { b with
      magic := blockAllocatorBlockMagic
      offset := offset
      isFree := 1
      size := sub64 (pages * pageSize % 2 ^ 64) headerSize }
  if lastBlock ≠ 0 then
    let h := h.modify lastBlock fun b => { b with nextPtr := newBlock }
    h.modify newBlock fun b => { b with prevPtr := lastBlock, nextPtr := 0 }
  else
    let h := { h with blockListHead := newBlock }
    h.modify newBlock fun b => { b with prevPtr := 0, nextPtr := 0 }

/-- `find_or_create_free_block`; null is 0. -/
def findOrCreateFreeBlock (env : AddressSpace σ) (h : Heap σ) (size : Nat) :
    Option (Nat × Heap σ) :=
  match findFreeBlock h size with
  | none => none
  | some blockHeader =>
    if blockHeader ≠ 0 then some (blockHeader, h)
    else
      match getLastBlockHeader h with
      | none => none
      | some lastBlock =>
        let offset := nextOffset h lastBlock
        let pages := numPages size
        let newBlock := blockAt h offset
        match mapNewPages env h.pageFlags newBlock pages 0 h.space with
        | (false, w) => some (0, { h with space := w })
        | (true, w) =>
          let h := buildBlock { h with space := w } lastBlock offset pages
          some (newBlock, addBlockToFreeList h newBlock)

/-- The stores of `split_block`: the block keeps `size` bytes, and the rest
of its payload becomes a block behind it. -/
def cutBlock (h : Heap σ) (blockHeader remainder size delta : Nat) : Heap σ :=
  let next := (h.headers blockHeader).nextPtr
  let h := h.modify blockHeader fun b => { b with size := size, nextPtr := remainder }
  let offset := add64 (add64 (h.headers blockHeader).offset size) headerSize
  let h := h.modify remainder fun b =>
    { b with
      magic := blockAllocatorBlockMagic
      offset := offset
      isFree := 1
      size := delta - headerSize
      prevPtr := blockHeader
      nextPtr := next }
  if next ≠ 0 then h.modify next fun b => { b with prevPtr := remainder } else h

/-- `split_block`. -/
def splitBlock (h : Heap σ) (blockHeader size : Nat) : Heap σ :=
  let delta := sub64 (h.headers blockHeader).size size
  if delta ≤ headerSize then h
  else
    let remainder := add64 (add64 blockHeader size) headerSize
    addBlockToFreeList (cutBlock h blockHeader remainder size delta) remainder

/-- `block_allocator_allocate`; null is 0. -/
def blockAllocatorAllocate (env : AddressSpace σ) (h : Heap σ) (size : Nat) :
    Option (Nat × Heap σ) :=
  -- assert(vmap_is_active(allocator->address_space))
  if env.vmapIsActive h.space then
    match findOrCreateFreeBlock env h size with
    | none => none
    | some (blockHeader, h) =>
      if blockHeader = 0 then some (0, h)
      else
        let h := splitBlock h blockHeader size
        let h := h.modify blockHeader fun b => { b with isFree := 0 }
        let h := removeBlockFromFreeList h blockHeader
        some (add64 h.virtualBase (h.headers blockHeader).offset, h)
  else none

/-! ## Freeing -/

/-- What `block_allocator_free` does with a used block. -/
def releaseBlock (h : Heap σ) (blockHeader : Nat) : Heap σ :=
  let prev := (h.headers blockHeader).prevPtr
  let next := (h.headers blockHeader).nextPtr
  let isPrevFree := prev ≠ 0 ∧ (h.headers prev).isFree ≠ 0
  let isNextFree := next ≠ 0 ∧ (h.headers next).isFree ≠ 0
  if isPrevFree ∧ isNextFree then
    -- [PREV BLOCK] -> [BLOCK] -> [NEXT BLOCK]
    let h := h.modify prev fun b => { b with nextPtr := (h.headers next).nextPtr }
    let grown := add64 (h.headers prev).size
      (add64 (add64 (2 * headerSize) (h.headers blockHeader).size) (h.headers next).size)
    let h := h.modify prev fun b => { b with size := grown }
    let h := removeBlockFromFreeList h next
    let h := removeBlockFromBlockList h next
    removeBlockFromBlockList h blockHeader
  else if isPrevFree then
    -- [PREV BLOCK] -> [BLOCK]
    let h := h.modify prev fun b => { b with nextPtr := (h.headers blockHeader).nextPtr }
    let grown := add64 (h.headers prev).size (add64 headerSize (h.headers blockHeader).size)
    let h := h.modify prev fun b => { b with size := grown }
    removeBlockFromBlockList h blockHeader
  else if isNextFree then
    -- [BLOCK] -> [NEXT BLOCK]
    let h := h.modify blockHeader fun b => { b with nextPtr := (h.headers next).nextPtr }
    let grown := add64 (h.headers blockHeader).size (add64 headerSize (h.headers next).size)
    let h := h.modify blockHeader fun b => { b with size := grown }
    let h := removeBlockFromBlockList h next
    let h := removeBlockFromFreeList h next
    let h := h.modify blockHeader fun b => { b with isFree := 1 }
    addBlockToFreeList h blockHeader
  else
    -- [BLOCK]
    let h := h.modify blockHeader fun b => { b with isFree := 1 }
    addBlockToFreeList h blockHeader

/-- `block_allocator_free`. -/
def blockAllocatorFree (env : AddressSpace σ) (h : Heap σ) (address : Nat) : Option (Heap σ) :=
  if address = 0 then some h
  -- assert(vmap_is_active(allocator->address_space))
  else if env.vmapIsActive h.space then
    let blockHeader := sub64 address headerSize
    if (h.headers blockHeader).magic ≠ blockAllocatorBlockMagic ∨
        (h.headers blockHeader).isFree ≠ 0 then some h
    else some (releaseBlock h blockHeader)
  else none

end ZOs.BlockAllocator
