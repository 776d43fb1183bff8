import Mathlib.Data.BitVec
import ZOs.Lib.Attempt

/-!
# Translation tables

`kernel/vmap.c`: four levels of tables of 512 entries. `vmap_map_page`
enters a 4 KiB page at the last level, `vmap_map_l1_block` and
`vmap_map_l2_block` enter blocks of 1 GiB and 2 MiB one and two levels
earlier; tables that are missing on the way are taken from `alloc_page`.

Memory is what the 64-bit words of physical memory hold, by byte address;
`physical_to_virtual` is the kernel's way to reach it and does not show.
-/

namespace ZOs.Paging

/-- `uint64_t`. -/
abbrev Word := BitVec 64

/-! ## Entries -/

/-- `MMAP_GRANULE_SIZE`. -/
def mmapGranuleSize : Word := 4096

/-- `TBL_ENTRY_VALID`. -/
def tblEntryValid : Word := 0x1

/-- `TBL_ENTRY_TABLE`. -/
def tblEntryTable : Word := 0x2

/-- `TBL_ENTRY_BLOCK`. -/
def tblEntryBlock : Word := 0x0

/-- `TBL_ENTRY_ADDR_MASK`. -/
def tblEntryAddrMask : Word := 0x0000FFFFFFFFF000

/-- `TBL_L1_BLOCK_SIZE`: 1 GiB. -/
def tblL1BlockSize : Word := 1 <<< 30

/-- `TBL_L2_BLOCK_SIZE`: 2 MiB. -/
def tblL2BlockSize : Word := 1 <<< 21

/-- `TBL_ENTRY_L1_BLOCK_ADDR_MASK`. -/
def tblEntryL1BlockAddrMask : Word := tblEntryAddrMask &&& ~~~(tblL1BlockSize - 1)

/-- `TBL_ENTRY_L2_BLOCK_ADDR_MASK`. -/
def tblEntryL2BlockAddrMask : Word := tblEntryAddrMask &&& ~~~(tblL2BlockSize - 1)

/-- `PAGE_FLAG_ACCESS`. -/
def pageFlagAccess : Word := 1 <<< 10

def l0Index (virtualAddress : Word) : Word := (virtualAddress >>> 39) &&& 0x1FF
def l1Index (virtualAddress : Word) : Word := (virtualAddress >>> 30) &&& 0x1FF
def l2Index (virtualAddress : Word) : Word := (virtualAddress >>> 21) &&& 0x1FF
def l3Index (virtualAddress : Word) : Word := (virtualAddress >>> 12) &&& 0x1FF

/-- The entry that leads to a table. -/
def tableEntry (newTable : Word) : Word :=
  tblEntryValid ||| tblEntryTable ||| (newTable &&& tblEntryAddrMask)

/-! ## State -/

/-- A `vmap_t` with what its function pointers reach: physical memory and
the answers `alloc_page` will give (0, or no answer left, is a failure).
The pages obtained so far and the words stored to are kept for the
statements about them. -/
structure Vmap where
  rootPageTable : Word
  memory : Nat → Word
  answers : List Word
  obtained : List Word
  stored : List Nat

/-- Where `table[index]` is. -/
def entryAddress (table index : Word) : Nat := table.toNat + 8 * index.toNat

/-- What `table[index]` holds. -/
def Vmap.entry (v : Vmap) (table index : Word) : Word := v.memory (entryAddress table index)

/-- The words of a page. -/
def InPage (page : Word) (address : Nat) : Prop :=
  page.toNat ≤ address ∧ address < page.toNat + 4096

instance (page : Word) (address : Nat) : Decidable (InPage page address) :=
  inferInstanceAs (Decidable (_ ∧ _))

/-- A page that `alloc_page` has cleared. -/
def Vmap.takePage (v : Vmap) (page : Word) (rest : List Word) : Vmap :=
  { v with
    memory := fun address => if InPage page address then 0 else v.memory address
    answers := rest
    obtained := page :: v.obtained }

/-- `vmap->alloc_page()`. -/
def allocPage : Attempt Vmap Word := fun v =>
  match v.answers with
  | [] => (some 0, v)
  | page :: rest =>
    if page = 0 then (some 0, { v with answers := rest })
    else (some page, v.takePage page rest)

def Vmap.store (v : Vmap) (table index entry : Word) : Vmap :=
  { v with
    memory := Function.update v.memory (entryAddress table index) entry
    stored := entryAddress table index :: v.stored }

/-- `table[index]`. -/
def loadEntry (table index : Word) : Attempt Vmap Word := .read (·.entry table index)

/-- `table[index] = entry`. -/
def storeEntry (table index entry : Word) : Attempt Vmap Unit := .modify (·.store table index entry)

/-! ## Mapping

A result is the return of 0, giving up is the return of -1. -/

/-- The head of the mapping functions: the root table, taken now if there
is none. -/
def rootTable : Attempt Vmap Word := do
  let ttbrTable ← .read (·.rootPageTable)
  if ttbrTable = 0 then
    let ttbrTable ← allocPage
    if ttbrTable = 0 then .giveUp
    else
      .modify fun v => { v with rootPageTable := ttbrTable }
      .read (·.rootPageTable)
  else .read (·.rootPageTable)

/-- One level of the way down: the entry at an index, after a table has
been hung up there if it was not valid. -/
def entryOrNewTable (table index : Word) : Attempt Vmap Word := do
  let entry ← loadEntry table index
  if entry &&& tblEntryValid = 0 then
    let newTable ← allocPage
    if newTable = 0 then .giveUp
    else
      storeEntry table index (tableEntry newTable)
      loadEntry table index
  else pure entry

/-- `vmap_map_page`. -/
def vmapMapPage (physicalAddress virtualAddress pageFlags : Word) : Attempt Vmap Unit := do
  let ttbrTable ← rootTable
  let l0Entry ← entryOrNewTable ttbrTable (l0Index virtualAddress)
  let l0PageTable := l0Entry &&& tblEntryAddrMask
  let l1Entry ← entryOrNewTable l0PageTable (l1Index virtualAddress)
  let l1PageTable := l1Entry &&& tblEntryAddrMask
  let l2Entry ← entryOrNewTable l1PageTable (l2Index virtualAddress)
  let l2PageTable := l2Entry &&& tblEntryAddrMask
  storeEntry l2PageTable (l3Index virtualAddress)
    (tblEntryValid ||| tblEntryTable ||| pageFlagAccess ||| pageFlags |||
      (physicalAddress &&& tblEntryAddrMask))

/-- The loop of `vmap_map_range`, for as many iterations as there is fuel;
`none` is no end yet. The addresses wrap as `uint64_t` does. -/
def vmapMapRange (fuel : Nat) (virtualAddress virtualEndAddress physicalStartAddress
    pageFlags : Word) (v : Vmap) : Option (Option Unit × Vmap) :=
  match fuel with
  | 0 => none
  | fuel + 1 =>
    if virtualAddress < virtualEndAddress then
      match vmapMapPage physicalStartAddress virtualAddress pageFlags v with
      | (none, v') => some (none, v')
      | (some (), v') =>
        vmapMapRange fuel (virtualAddress + mmapGranuleSize) virtualEndAddress
          (physicalStartAddress + mmapGranuleSize) pageFlags v'
    else some (some (), v)

/-- The end of the block functions: an entry that is not valid is filled,
an occupied one is refused. -/
def fillSlot (table index entry : Word) : Attempt Vmap Unit := do
  let old ← loadEntry table index
  if old &&& tblEntryValid = 0 then storeEntry table index entry
  else .giveUp -- something is already mapped here

/-- `vmap_map_l1_block`. -/
def vmapMapL1Block (virtualAddress physicalAddress pageFlags : Word) : Attempt Vmap Unit := do
  if virtualAddress % tblL1BlockSize ≠ 0 then .giveUp
  else if physicalAddress % tblL1BlockSize ≠ 0 then .giveUp
  else
    let ttbrTable ← rootTable
    let l0Entry ← entryOrNewTable ttbrTable (l0Index virtualAddress)
    if l0Entry &&& tblEntryTable = 0 then .giveUp
    else
      let l1PageTable := l0Entry &&& tblEntryAddrMask
      fillSlot l1PageTable (l1Index virtualAddress)
        (tblEntryValid ||| tblEntryBlock ||| pageFlagAccess ||| pageFlags |||
          (physicalAddress &&& tblEntryL1BlockAddrMask))

/-- `vmap_map_l2_block`. -/
def vmapMapL2Block (virtualAddress physicalAddress pageFlags : Word) : Attempt Vmap Unit := do
  if virtualAddress % tblL2BlockSize ≠ 0 then .giveUp
  else if physicalAddress % tblL2BlockSize ≠ 0 then .giveUp
  else
    let ttbrTable ← rootTable
    let l0Entry ← entryOrNewTable ttbrTable (l0Index virtualAddress)
    if l0Entry &&& tblEntryTable = 0 then .giveUp
    else
      let l1PageTable := l0Entry &&& tblEntryAddrMask
      let l1Entry ← entryOrNewTable l1PageTable (l1Index virtualAddress)
      if l1Entry &&& tblEntryTable = 0 then .giveUp
      else
        let l2PageTable := l1Entry &&& tblEntryAddrMask
        fillSlot l2PageTable (l2Index virtualAddress)
          (tblEntryValid ||| tblEntryBlock ||| pageFlagAccess ||| pageFlags |||
            (physicalAddress &&& tblEntryL2BlockAddrMask))

/-! ## Translation -/

/-- `vmap_virtual_to_physical`; `none` is the return of -1. -/
def Vmap.vmapVirtualToPhysical (v : Vmap) (virtualAddress : Word) : Option Word :=
  let ttbrTable := v.rootPageTable
  if ttbrTable = 0 then none
  else
    let l0Entry := v.entry ttbrTable (l0Index virtualAddress)
    if l0Entry &&& tblEntryValid = 0 then none
    else
      let l0PageTable := l0Entry &&& tblEntryAddrMask
      let l1Entry := v.entry l0PageTable (l1Index virtualAddress)
      if l1Entry &&& tblEntryValid = 0 then none
      else if l1Entry &&& tblEntryTable = 0 then
        some ((l1Entry &&& tblEntryL1BlockAddrMask) ||| (virtualAddress &&& (tblL1BlockSize - 1)))
      else
        let l1PageTable := l1Entry &&& tblEntryAddrMask
        let l2Entry := v.entry l1PageTable (l2Index virtualAddress)
        if l2Entry &&& tblEntryValid = 0 then none
        else if l2Entry &&& tblEntryTable = 0 then
          some ((l2Entry &&& tblEntryL2BlockAddrMask) |||
            (virtualAddress &&& (tblL2BlockSize - 1)))
        else
          let l2PageTable := l2Entry &&& tblEntryAddrMask
          let l3Entry := v.entry l2PageTable (l3Index virtualAddress)
          if l3Entry &&& tblEntryValid = 0 then none
          else
            some ((l3Entry &&& tblEntryAddrMask) ||| (virtualAddress &&& (mmapGranuleSize - 1)))

end ZOs.Paging
