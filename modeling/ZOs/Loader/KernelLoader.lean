import ZOs.Loader.KernelElf
import ZOs.Process.Regions

/-!
# Loading the kernel

`loader/kernel_loader.c` and `loader/virtual_addr.c`. Each segment gets
pages of its own from UEFI, its bytes, zeros up to its size in memory, and
entries in the table that the kernel starts with. What `AllocatePages`
answers is a parameter: the answers for tables are those of the table, and
those for segments are `kernelPages`, where `none` is an error status.

The counter of the pages is an `int`, and so is its product with 4096,
which wraps.
-/

namespace ZOs.Boot

open Paging Elf Bytes Attempt
open ProcessMemory (countPages frame pageOffset pageAt)

/-! ## Flags -/

def pageFlagUxn : Word := 1 <<< 54
def pageFlagPxn : Word := 1 <<< 53
def pageFlagInnerSharable : Word := 3 <<< 8
def pageFlagEl1Ro : Word := 0x2 <<< 6
def pageFlagEl1Rw : Word := 0x0 <<< 6
def pageFlagMairAttr (attr : Word) : Word := attr <<< 2

/-- `page_flags` of `kernel_loader_load`. -/
def segmentPageFlags (flags : BitVec 32) : Word :=
  let pageFlags := pageFlagInnerSharable ||| pageFlagMairAttr 3
  let pageFlags :=
    if flags &&& pfX = 0 then pageFlags ||| (pageFlagPxn ||| pageFlagUxn) else pageFlags
  if flags &&& pfW = 0 then pageFlags ||| pageFlagEl1Ro else pageFlags ||| pageFlagEl1Rw

/-! ## `virtual_addr.c` -/

/-- `virtual_addr_map_page`: there is a root table. -/
def virtualAddrMapPage (physicalAddress virtualAddress pageFlags : Word) : Attempt Vmap Unit := do
  let rootPageTable ← .read (·.rootPageTable)
  let l0Entry ← entryOrNewTable rootPageTable (l0Index virtualAddress)
  let l0PageTable := l0Entry &&& tblEntryAddrMask
  let l1Entry ← entryOrNewTable l0PageTable (l1Index virtualAddress)
  let l1PageTable := l1Entry &&& tblEntryAddrMask
  let l2Entry ← entryOrNewTable l1PageTable (l2Index virtualAddress)
  let l2PageTable := l2Entry &&& tblEntryAddrMask
  storeEntry l2PageTable (l3Index virtualAddress)
    (tblEntryValid ||| tblEntryTable ||| pageFlagAccess ||| pageFlags |||
      (physicalAddress &&& tblEntryAddrMask))

/-- `i * VIRTUAL_ADDR_GRANULE_SIZE`, of type `int`, where it is added to an
address. -/
def granules (i : Nat) : Word := (BitVec.ofNat 32 i * 4096).signExtend 64

/-- The loop of `virtual_addr_map`: page `i` of `n` more. -/
def mapPages (physicalAddress virtualAddress pageFlags : Word) : Nat → Nat → Attempt Vmap Unit
  | _, 0 => pure ()
  | i, n + 1 => do
    virtualAddrMapPage (physicalAddress + granules i) (virtualAddress + granules i) pageFlags
    mapPages physicalAddress virtualAddress pageFlags (i + 1) n

/-- `virtual_addr_map`. The counter is an `int`: after 2^31 pages it is
negative, which is not below `num_pages`. -/
def virtualAddrMap (physicalAddress virtualAddress numPages pageFlags : Word) :
    Attempt Vmap Unit :=
  mapPages physicalAddress virtualAddress pageFlags 0 (min numPages.toNat (2 ^ 31))

/-! ## `kernel_loader.c` -/

/-- The table of the kernel, and what `AllocatePages` will answer for
segments. -/
structure Loader where
  table : Vmap
  kernelPages : List (Option Word)

/-- `AllocatePages(..., num_pages, &kernel_pages)`. -/
def allocatePages : Attempt Loader Word := fun s =>
  match s.kernelPages with
  | some page :: rest => (some page, { s with kernelPages := rest })
  | none :: rest => (none, { s with kernelPages := rest })
  | [] => (none, s)

/-- The pages of a segment with its bytes, and zeros after them. -/
def Loader.fill (s : Loader) (file : Buffer) (segment : KernelElfSegment) (kernelPages : Word) :
    Loader :=
  let fileSize := segment.loadableSegmentFileSize
  -- CopyMem
  let memory := copyBytes (fun k => file.bytes (segment.loadableSegmentStart.toNat + k))
    kernelPages.toNat fileSize.toNat s.table.memory
  -- SetMem
  let memory := copyBytes (fun _ => 0) (kernelPages + fileSize).toNat
    (segment.loadableSegmentMemorySize - fileSize).toNat memory
  { s with table := { s.table with memory } }

/-- A step of the table. -/
def onTable (x : Attempt Vmap Unit) : Attempt Loader Unit := fun s =>
  match x s.table with
  | (result, table) => (result, { s with table })

/-- The body of the loop of `kernel_loader_load`. -/
def loadSegment (file : Buffer) (segment : KernelElfSegment) : Attempt Loader Unit := do
  let kernelPages ← allocatePages
  .modify (·.fill file segment kernelPages)
  onTable (virtualAddrMap kernelPages segment.imageStart
    (countPages segment.loadableSegmentMemorySize) (segmentPageFlags segment.flags))

def loadSegments (file : Buffer) : List KernelElfSegment → Attempt Loader Unit
  | [] => pure ()
  | segment :: rest => do
    loadSegment file segment
    loadSegments file rest

/-- `kernel_loader_load`. -/
def kernelLoaderLoad (file : Buffer) (info : KernelElfInfo) : Attempt Loader Unit :=
  loadSegments file (info.segments.take info.numSegments.toNat)

/-! ## Pages are entered -/

/-- The calls have been made: what an address is translated to is from one
of them or, where none is for its page, from before. -/
structure Built (maps : List Mapping) (v v' : Vmap) : Prop extends Kept v v' where
  recorded : Recorded v v'
  root : v'.rootPageTable ≠ 0
  pagesOnly : PagesOnly v'
  walks : ∀ x, (∃ m ∈ maps, pageNumber m.virtualAddress = pageNumber x ∧
      v'.walk (path x) = .leaf 3 (pageEntry m.physicalAddress m.pageFlags)) ∨
    (∀ m ∈ maps, pageNumber m.virtualAddress ≠ pageNumber x) ∧ v'.walk (path x) = v.walk (path x)

section
variable {v v' v'' : Vmap} {maps maps' : List Mapping} {m : Mapping}
  {physicalAddress virtualAddress pageFlags : Word}

/-- With a root table, this is `vmap_map_page` of the kernel. -/
theorem virtualAddrMapPage_eq (hroot : v.rootPageTable ≠ 0) :
    virtualAddrMapPage physicalAddress virtualAddress pageFlags v =
      vmapMapPage physicalAddress virtualAddress pageFlags v := by
  have hrootTable : rootTable v = (some v.rootPageTable, v) := by
    unfold rootTable
    show (if v.rootPageTable = 0 then _
      else Attempt.read (·.rootPageTable) : Attempt Vmap Word) v = _
    rw [if_neg hroot]
    rfl
  unfold virtualAddrMapPage vmapMapPage
  rw [bind_eq hrootTable]
  rfl

theorem Built.refl (hroot : v.rootPageTable ≠ 0) (hwf : WellFormed v) (hpages : PagesOnly v) :
    Built [] v v where
  toKept := (Grew.refl hwf).toKept
  recorded := .refl v
  root := hroot
  pagesOnly := hpages
  walks _ := .inr ⟨List.forall_mem_nil _, rfl⟩

theorem Built.trans (h : Built maps v v') (h' : Built maps' v' v'') :
    Built (maps ++ maps') v v'' where
  toKept := h.toKept.trans h'.toKept
  recorded := h.recorded.trans h'.recorded
  root := h'.root
  pagesOnly := h'.pagesOnly
  walks x := by
    rcases h'.walks x with ⟨m, hm, hnumber, hwalk⟩ | ⟨hnone', hwalk'⟩
    · exact .inl ⟨m, List.mem_append_right _ hm, hnumber, hwalk⟩
    · rw [hwalk']
      rcases h.walks x with ⟨m, hm, hnumber, hwalk⟩ | ⟨hnone, hwalk⟩
      · exact .inl ⟨m, List.mem_append_left _ hm, hnumber, hwalk⟩
      · exact .inr ⟨List.forall_mem_append.mpr ⟨hnone, hnone'⟩, hwalk⟩

/-- A page is entered. -/
theorem virtualAddrMapPage_built (hroot : v.rootPageTable ≠ 0) (hwf : WellFormed v)
    (hpages : PagesOnly v)
    (hcall : virtualAddrMapPage m.physicalAddress m.virtualAddress m.pageFlags v = (some (), v')) :
    Built [m] v v' := by
  rw [virtualAddrMapPage_eq hroot] at hcall
  have hentered := (vmapMapPage_spec m.physicalAddress m.pageFlags hwf
    (hpages m.virtualAddress)).returned hcall
  have hrecorded := recorded_vmapMapPage m.physicalAddress m.virtualAddress m.pageFlags v
  rw [hcall] at hrecorded
  have hroot' : v'.rootPageTable ≠ 0 := by
    intro h
    have hwalk := hentered.here (List.prefix_refl (path m.virtualAddress))
    unfold Vmap.walk at hwalk
    rw [if_pos h] at hwalk
    cases hwalk
  refine ⟨hentered.toKept, hrecorded, hroot', hentered.pagesOnly hpages, fun x => ?_⟩
  by_cases hx : pageNumber m.virtualAddress = pageNumber x
  · exact .inl ⟨m, List.mem_singleton_self m, hx, hentered.here (path_prefix_iff.mpr hx.symm)⟩
  · refine .inr ⟨(List.forall_mem_singleton ..).mpr hx, hentered.there fun h => hx ?_⟩
    exact (path_prefix_iff.mp h).symm

/-- The call for page `i`. -/
def pageMapping (physicalAddress virtualAddress pageFlags : Word) (i : Nat) : Mapping :=
  ⟨physicalAddress + granules i, virtualAddress + granules i, pageFlags⟩

theorem mapPages_built {i n : Nat} (hroot : v.rootPageTable ≠ 0) (hwf : WellFormed v)
    (hpages : PagesOnly v)
    (hcall : mapPages physicalAddress virtualAddress pageFlags i n v = (some (), v')) :
    Built ((List.range' i n).map (pageMapping physicalAddress virtualAddress pageFlags)) v v' := by
  induction n generalizing i v with
  | zero =>
    cases hcall
    exact .refl hroot hwf hpages
  | succ n ih =>
    obtain ⟨_, v₁, hfirst, hrest⟩ := bind_returned.mp hcall
    have hbuilt := virtualAddrMapPage_built
      (m := pageMapping physicalAddress virtualAddress pageFlags i) hroot hwf hpages hfirst
    exact hbuilt.trans (ih hbuilt.root hbuilt.wellFormed hbuilt.pagesOnly hrest)

end

end ZOs.Boot
