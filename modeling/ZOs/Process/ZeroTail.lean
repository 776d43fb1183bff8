import Mathlib.Data.List.Dedup
import ZOs.Process.Space

/-!
# Zero-initialised data

`allocate_memory_pages` copies the file data of a segment and clears
nothing: the call of `memory_set` is a comment. What is behind the file data
reads as the block held before. `zeroTail_iff`: it is zero whatever the
blocks held for segments only that have nothing there.
-/

namespace ZOs.ProcessMemory

open Paging Attempt Bytes Elf
open Boot (IsTable pageAt_eq)

/-! ## Images -/

/-- A process to which nothing has been mapped. The blocks that
`page_alloc_block` will give are different pages; those for tables are in the
direct-map window, as `alloc_vmap_page` makes sure. -/
structure NewProcess (p : Process) : Prop where
  table : EmptyRoot p.pageTable
  answers : ∀ page ∈ p.pageTable.answers, page.toNat < mmapPhysicalRegionSize
  block : ∀ page, some page ∈ p.blocks → PageAddress page ∧ page ∉ p.pageTable.answers
  once : (p.blocks.filter Option.isSome).Nodup
  memoryPages : p.memoryPages = []
  mmapEntries : p.mmapEntries = []

/-- A byte of the segment is in the page. -/
def Touches (program : ProgramHeader) (number : Nat) : Prop :=
  ∃ i < program.pMemsz.toNat, pageNumber (program.pVaddr + BitVec.ofNat 64 i) = number

/-- Program header `i` is that of a segment which starts with a page and
shares no page with another one. -/
structure OwnPages (file : Buffer) (i : Nat) (program : ProgramHeader) : Prop where
  header : ∃ offset, (programHeaders file)[i]? = some (offset, program)
  loadable : program.Loadable
  aligned : program.pVaddr.toNat % 4096 = 0
  alone : ∀ j offset other, (programHeaders file)[j]? = some (offset, other) → other.Loadable →
    j ≠ i → ∀ number, Touches program number → ¬Touches other number

/-- The visits if `kmalloc` never fails. -/
def allVisits (file : Buffer) : List Visit := imageVisits (fun _ => true) (fun _ _ => true) file

/-- No segment is refused, and the pages of the process and its tables are
not more than the window has. -/
structure Fits (file : Buffer) : Prop where
  sound : Sound (programHeaders file)
  pages : ((allVisits file).map Visit.number).dedup.length +
    ((allVisits file).flatMap Visit.tablePaths).dedup.length < 2 ^ 22

/-- When the file has been loaded into a new process, every byte of the
segment behind its file data reads as 0. -/
def ZeroTail (file : Buffer) (program : ProgramHeader) : Prop :=
  ∀ stackKmalloc kmalloc mainThread p l, NewProcess p →
    loadNewProcess stackKmalloc kmalloc mainThread file ⟨p, []⟩ = (some (), l) →
    ∀ i, program.pFilesz.toNat ≤ i → i < program.pMemsz.toNat → ∃ physicalAddress,
      l.process.pageTable.vmapVirtualToPhysical (program.pVaddr + BitVec.ofNat 64 i) =
          some physicalAddress ∧
        readByte l.process.pageTable.memory physicalAddress.toNat = 0

/-! ## Processes with given blocks -/

/-- A block is behind the tables. -/
def DirtyBlock (vs : List Visit) (page : Word) : Prop :=
  page.toNat % 4096 = 0 ∧ 4096 * ((newTables [] vs).length + 1) ≤ page.toNat ∧ page.toNat < 2 ^ 48

/-- Different blocks of the window for the pages that are visited. -/
structure Layout (vs : List Visit) (block : Nat → Word) : Prop where
  kind : ∀ v ∈ vs, DirtyBlock vs (block v.number)
  low : ∀ v ∈ vs, (block v.number).toNat < mmapPhysicalRegionSize
  inj : ∀ v ∈ vs, ∀ w ∈ vs, block v.number = block w.number → v.number = w.number
  tables : (newTables [] vs).length < 2 ^ 22

/-- Every word of memory is the same. The pages for tables are at the start. -/
def laidOut (vs : List Visit) (block : Nat → Word) (word : Word) : Process where
  pageTable :=
    { rootPageTable := 0
      memory := fun _ => word
      answers := (List.range (newTables [] vs).length).map fun k => BitVec.ofNat 64 (4096 * (k + 1))
      obtained := []
      stored := [] }
  blocks := (firstVisits [] vs).map (some ∘ block)
  memoryPages := []
  mmapEntries := []
  fdTable := fun _ => none

section
variable {vs : List Visit} {block : Nat → Word} {page word : Word}

theorem Layout.answer (h : Layout vs block)
    (hpage : page ∈ (laidOut vs block word).pageTable.answers) :
    page.toNat % 4096 = 0 ∧ 0 < page.toNat ∧
      page.toNat < 4096 * ((newTables [] vs).length + 1) := by
  obtain ⟨k, hk, rfl⟩ := List.mem_map.mp hpage
  have hk := List.mem_range.mp hk
  have htables := h.tables
  rw [BitVec.toNat_ofNat]
  omega

theorem mem_laidOut_blocks (hpage : some page ∈ (firstVisits [] vs).map (some ∘ block)) :
    ∃ v ∈ vs, page = block v.number := by
  obtain ⟨m, hm, heq⟩ := List.mem_map.mp hpage
  obtain ⟨v, hv, rfl⟩ := (mem_firstVisits.mp hm).2
  exact ⟨v, hv, (Option.some.inj heq).symm⟩

/-- A page that is not the first one of memory. -/
theorem pageAddress_of_pos (haligned : page.toNat % 4096 = 0) (hpos : 0 < page.toNat)
    (hlt : page.toNat < 2 ^ 48) : PageAddress page := by
  refine ⟨?_, haligned, hlt⟩
  rintro rfl
  exact absurd hpos (by decide)

theorem Layout.answer_pageAddress (h : Layout vs block)
    (hpage : page ∈ (laidOut vs block word).pageTable.answers) : PageAddress page := by
  obtain ⟨haligned, hpos, hlt⟩ := h.answer hpage
  have htables := h.tables
  exact pageAddress_of_pos haligned hpos (by omega)

theorem Layout.new (h : Layout vs block) (word : Word) : NewProcess (laidOut vs block word) where
  table :=
    { root := rfl
      obtained := rfl
      answers :=
        { page := fun page hpage _ => ⟨h.answer_pageAddress hpage, List.not_mem_nil⟩
          once := by
            have htables := h.tables
            refine List.Nodup.filter _ (List.nodup_range.map_on fun i hi j hj hsame => ?_)
            have hi := List.mem_range.mp hi
            have hj := List.mem_range.mp hj
            have htoNat := congrArg BitVec.toNat hsame
            rw [BitVec.toNat_ofNat, BitVec.toNat_ofNat] at htoNat
            omega } }
  answers page hpage := by
    obtain ⟨-, -, hlt⟩ := h.answer hpage
    have htables := h.tables
    have hsize : mmapPhysicalRegionSize = 2 ^ 34 := rfl
    omega
  block page hpage := by
    obtain ⟨v, hv, rfl⟩ := mem_laidOut_blocks hpage
    obtain ⟨haligned, hbehind, hlt⟩ := h.kind v hv
    refine ⟨pageAddress_of_pos haligned (by omega) hlt, fun hanswer => ?_⟩
    obtain ⟨-, -, hbefore⟩ := h.answer hanswer
    omega
  once := by
    refine List.Nodup.filter _ ((nodup_firstVisits [] vs).map_on fun i hi j hj hsame => ?_)
    obtain ⟨v, hv, rfl⟩ := (mem_firstVisits.mp hi).2
    obtain ⟨w, hw, rfl⟩ := (mem_firstVisits.mp hj).2
    exact h.inj v hv w hw (Option.some.inj hsame)
  memoryPages := rfl
  mmapEntries := rfl

end

/-! ## Blocks that are not clear -/

/-- One page first, then the others that are visited. -/
def pageOrder (vs : List Visit) (number : Nat) : List Nat :=
  number :: (firstVisits [] vs).erase number

/-- The blocks are at the end of the window, in this order. -/
def dirtyBlock (vs : List Visit) (number : Nat) (m : Nat) : Word :=
  BitVec.ofNat 64 (4096 * (2 ^ 22 - (pageOrder vs number).length + (pageOrder vs number).idxOf m))

/-- All bits of memory are set. The pages for tables are at the start. -/
def dirtyProcess (vs : List Visit) (number : Nat) : Process where
  pageTable :=
    { rootPageTable := 0
      memory := fun _ => BitVec.allOnes 64
      answers := (List.range (newTables [] vs).length).map fun k => BitVec.ofNat 64 (4096 * (k + 1))
      obtained := []
      stored := [] }
  blocks := (firstVisits [] vs).map (some ∘ dirtyBlock vs number)
  memoryPages := []
  mmapEntries := []
  fdTable := fun _ => none

/-- There is room for the blocks and the tables, and the first page is one of
those visited. -/
structure HasRoom (vs : List Visit) (number : Nat) : Prop where
  visited : ∃ v ∈ vs, v.number = number
  pages : (firstVisits [] vs).length + (newTables [] vs).length < 2 ^ 22

section
variable {vs : List Visit} {number m m' : Nat} {page : Word}

theorem pageOrder_length (h : HasRoom vs number) :
    (pageOrder vs number).length = (firstVisits [] vs).length := by
  have hmem : number ∈ firstVisits [] vs := mem_firstVisits.mpr ⟨List.not_mem_nil, h.visited⟩
  have hpos := List.length_pos_of_mem hmem
  unfold pageOrder
  rw [List.length_cons, List.length_erase_of_mem hmem]
  omega

theorem mem_pageOrder (number : Nat) (hm : ∃ v ∈ vs, v.number = m) : m ∈ pageOrder vs number := by
  by_cases hnumber : m = number
  · exact hnumber ▸ List.mem_cons_self ..
  · refine List.mem_cons_of_mem _ ((List.mem_erase_of_ne hnumber).mpr ?_)
    exact mem_firstVisits.mpr ⟨List.not_mem_nil, hm⟩

/-- Where the blocks are. -/
theorem dirtyBlock_toNat (h : HasRoom vs number) (hm : ∃ v ∈ vs, v.number = m) :
    (dirtyBlock vs number m).toNat =
        4096 * (2 ^ 22 - (firstVisits [] vs).length + (pageOrder vs number).idxOf m) ∧
      (pageOrder vs number).idxOf m < (firstVisits [] vs).length := by
  have hlt := List.idxOf_lt_length_of_mem (mem_pageOrder number hm)
  have hlength := pageOrder_length h
  have hpages := h.pages
  refine ⟨?_, by omega⟩
  unfold dirtyBlock
  rw [BitVec.toNat_ofNat, hlength]
  omega

/-- The block of the first page is the first one. -/
theorem dirtyBlock_number (h : HasRoom vs number) : (dirtyBlock vs number number).toNat =
    4096 * (2 ^ 22 - (firstVisits [] vs).length) := by
  have hzero : (pageOrder vs number).idxOf number = 0 := List.idxOf_cons_self
  rw [(dirtyBlock_toNat h h.visited).1, hzero, Nat.add_zero]

theorem dirtyBlock_inj (h : HasRoom vs number) (hm : ∃ v ∈ vs, v.number = m)
    (hm' : ∃ v ∈ vs, v.number = m') (heq : dirtyBlock vs number m = dirtyBlock vs number m') :
    m = m' := by
  have htoNat := (dirtyBlock_toNat h hm).1
  have htoNat' := (dirtyBlock_toNat h hm').1
  rw [heq] at htoNat
  refine (List.idxOf_inj (mem_pageOrder number hm)).mp ?_
  omega

/-- The blocks of other pages are behind that of the first one. -/
theorem dirtyBlock_other (h : HasRoom vs number) (hm : ∃ v ∈ vs, v.number = m) (hne : m ≠ number) :
    (dirtyBlock vs number number).toNat + 4096 ≤ (dirtyBlock vs number m).toNat := by
  have hpos : (pageOrder vs number).idxOf m ≠ 0 := by
    intro hzero
    refine hne ((List.idxOf_inj (mem_pageOrder number hm)).mp ?_)
    exact hzero.trans (List.idxOf_cons_self).symm
  rw [dirtyBlock_number h, (dirtyBlock_toNat h hm).1]
  omega

/-- The pages for tables. -/
theorem mem_dirtyAnswers (h : HasRoom vs number)
    (hpage : page ∈ (dirtyProcess vs number).pageTable.answers) :
    ∃ k < (newTables [] vs).length, page.toNat = 4096 * (k + 1) := by
  obtain ⟨k, hk, rfl⟩ := List.mem_map.mp hpage
  have hk := List.mem_range.mp hk
  have hpages := h.pages
  refine ⟨k, hk, ?_⟩
  rw [BitVec.toNat_ofNat]
  omega

theorem mem_dirtyBlocks (hpage : some page ∈ (dirtyProcess vs number).blocks) :
    ∃ m, (∃ v ∈ vs, v.number = m) ∧ page = dirtyBlock vs number m := by
  obtain ⟨m, hm, heq⟩ := List.mem_map.mp hpage
  exact ⟨m, (mem_firstVisits.mp hm).2, (Option.some.inj heq).symm⟩

theorem dirtyBlock_kind (h : HasRoom vs number) (hm : ∃ v ∈ vs, v.number = m) :
    DirtyBlock vs (dirtyBlock vs number m) := by
  obtain ⟨htoNat, hlt⟩ := dirtyBlock_toNat h hm
  have hpages := h.pages
  exact ⟨by omega, by omega, by omega⟩

theorem dirty_layout (h : HasRoom vs number) : Layout vs (dirtyBlock vs number) where
  kind v hv := dirtyBlock_kind h ⟨v, hv, rfl⟩
  low v hv := by
    obtain ⟨htoNat, hlt⟩ := dirtyBlock_toNat h ⟨v, hv, rfl⟩
    have hpages := h.pages
    have hsize : mmapPhysicalRegionSize = 2 ^ 34 := rfl
    omega
  inj v hv w hw heq := dirtyBlock_inj h ⟨v, hv, rfl⟩ ⟨w, hw, rfl⟩ heq
  tables := Nat.lt_of_le_of_lt (Nat.le_add_left ..) h.pages

theorem dirtyProcess_new (h : HasRoom vs number) : NewProcess (dirtyProcess vs number) :=
  (dirty_layout h).new _

/-- The pages that are tables, or can become tables. -/
def DirtyTable (vs : List Visit) (number : Nat) (page : Word) : Prop :=
  page ∈ (dirtyProcess vs number).pageTable.answers

/-- No table is behind the start of a block. -/
theorem not_inPage_dirtyTable (h : HasRoom vs number) (hpage : DirtyTable vs number page) {c : Nat}
    (hc : 4096 * ((newTables [] vs).length + 1) ≤ c) : ¬InPage page c := by
  obtain ⟨k, hk, htoNat⟩ := mem_dirtyAnswers h hpage
  rintro ⟨-, hhi⟩
  omega

theorem dirty_keepsApart (file : Buffer) (h : HasRoom vs number) :
    KeepsApart (DirtyTable vs number) file fun s _ => s.Uses (DirtyBlock vs) where
  step huses hvisits := hvisits.uses huses
  apart huses hfinds := by
    obtain ⟨block, offset, ⟨haligned, hlow, -⟩, hoffset, rfl⟩ := hfinds.inBlock huses
    obtain ⟨htoNat, -⟩ := add_offset_toNat haligned hoffset
    intro page hpage c hc _
    exact not_inPage_dirtyTable h hpage (by omega)

/-- The space to start with. -/
def dirtySpace (vs : List Visit) (number : Nat) : Space where
  place _ := none
  blocks := (dirtyProcess vs number).blocks
  bytes _ := 0xFF

theorem dirty_uses (h : HasRoom vs number) : (dirtySpace vs number).Uses (DirtyBlock vs) where
  place _ _ hplace := nomatch hplace
  blocks page hpage := by
    obtain ⟨m, hm, rfl⟩ := mem_dirtyBlocks hpage
    exact dirtyBlock_kind h hm

theorem byteOf_allOnes (c : Nat) : byteOf (BitVec.allOnes 64) (c % 8) = 0xFF := by
  have hlt := Nat.mod_lt c (show 0 < 8 by decide)
  interval_cases c % 8 <;> decide

theorem dirty_refines (h : HasRoom vs number) :
    Refines (DirtyTable vs number) (dirtyProcess vs number) (dirtySpace vs number) where
  wellFormed := (dirtyProcess_new h).table.wellFormed
  pagesOnly := (dirtyProcess_new h).table.pagesOnly
  pageAddress page hpage := by
    obtain ⟨k, hk, htoNat⟩ := mem_dirtyAnswers h hpage
    have hpages := h.pages
    refine ⟨?_, by omega, by omega⟩
    rintro rfl
    have hzero : (0 : Word).toNat = 0 := rfl
    omega
  tables page hpage := (hpage.resolve_left List.not_mem_nil).1
  walk x := (dirtyProcess_new h).table.walk _
  attributes _ _ hplace := nomatch hplace
  blocks := rfl
  aligned page hpage := by
    obtain ⟨haligned, -, hfits⟩ := (dirty_uses h).blocks page hpage
    exact frame_of_aligned haligned hfits
  bytes c _ := by
    exact byteOf_allOnes c

end

section
variable {vs : List Visit} {number o : Nat} {file : Buffer}

theorem dirty_blocks (h : HasRoom vs number) : ∀ v ∈ vs,
    (dirtyBlock vs number v.number).toNat % 4096 = 0 ∧
      (dirtyBlock vs number v.number).toNat < mmapPhysicalRegionSize := by
  intro v hv
  obtain ⟨htoNat, hlt⟩ := dirtyBlock_toNat h ⟨v, hv, rfl⟩
  have hpages := h.pages
  have hsize : mmapPhysicalRegionSize = 2 ^ 34 := rfl
  omega

theorem dirty_hasPages (h : HasRoom vs number) :
    HasPages (newTables [] vs).length (dirtyProcess vs number).pageTable := by
  refine ⟨?_, fun page hpage => ((dirty_refines h).pageAddress page hpage).nonzero⟩
  show _ ≤ ((List.range _).map _).length
  rw [List.length_map, List.length_range]

/-- All visits can be made, and a byte that they miss stays. -/
theorem dirty_run {c : Nat} (h : HasRoom vs number) (hflags : ∀ v ∈ vs, AttributeFlags v.pageFlags)
    (hmisses : ∀ v ∈ vs, v.Misses (dirtyBlock vs number) c) :
    ∃ p' s', visitAll file vs (dirtyProcess vs number) = (some (), p') ∧
      Refines (DirtyTable vs number) p' s' ∧ s'.bytes c = 0xFF ∧
      ∃ placement, s'.place number = some placement ∧
        placement.page = dirtyBlock vs number number := by
  have hnew : (dirtySpace vs number).PlacedBy (dirtyBlock vs number) [] := fun _ => rfl
  obtain ⟨s', hall, hkept, seen', hplaced, hseen⟩ :=
    exists_visitsAll (dirty_blocks h) hmisses hnew rfl
  obtain ⟨p', hcall, h'⟩ := (dirty_refines h).visitAll_returns (dirty_keepsApart file h)
    (dirty_uses h) hflags (List.forall_mem_nil _) (dirty_hasPages h) hall
  have hplace := hplaced number
  rw [if_pos ((hseen number).mpr (.inr h.visited))] at hplace
  exact ⟨p', s', hcall, h', hkept, Option.map_eq_some_iff.mp hplace⟩

/-- What is behind the window is missed. -/
theorem misses_far (h : HasRoom vs number) (hcounts : ∀ v ∈ vs, v.part.2 ≤ 4096) :
    ∀ v ∈ vs, v.Misses (dirtyBlock vs number) (2 ^ 35) := by
  intro v hv offset hoffset
  obtain ⟨htoNat, hlt⟩ := dirtyBlock_toNat h ⟨v, hv, rfl⟩
  have hcount := hcounts v hv
  have hsmall := pageOffset_toNat v.virtualAddress
  have hpages := h.pages
  omega

/-- A byte of the first page that no visit puts a part over is not clear. -/
theorem exists_dirty (h : HasRoom vs number) (ho : o < 4096)
    (hflags : ∀ v ∈ vs, AttributeFlags v.pageFlags)
    (hquiet : ∀ v ∈ vs, v.number = number → v.part.2 = 0 ∨
      pageOffset v.virtualAddress = 0 ∧ v.part.2 ≤ o) :
    ∃ p', visitAll file vs (dirtyProcess vs number) = (some (), p') ∧
      ∀ x, pageNumber x = number → (pageOffset x).toNat = o → ∃ physicalAddress,
        p'.pageTable.vmapVirtualToPhysical x = some physicalAddress ∧
          readByte p'.pageTable.memory physicalAddress.toNat = 0xFF := by
  have hmisses : ∀ v ∈ vs, v.Misses (dirtyBlock vs number)
      ((dirtyBlock vs number number).toNat + o) := by
    intro v hv offset hoffset
    by_cases hnumber : v.number = number
    · rw [hnumber]
      rcases hquiet v hv hnumber with hnone | ⟨hstart, hpart⟩
      · omega
      · rw [hstart] at hoffset
        have hzero : (0 : Word).toNat = 0 := rfl
        omega
    · have hother := dirtyBlock_other h ⟨v, hv, rfl⟩ hnumber
      omega
  obtain ⟨p', s', hcall, h', hkept, placement, hsome, hpage⟩ := dirty_run h hflags hmisses
  refine ⟨p', hcall, fun x hx hoffset => ?_⟩
  have htranslate := h'.translate x
  rw [hx, hsome] at htranslate
  obtain ⟨haligned, hlow, -⟩ := dirtyBlock_kind h h.visited
  obtain ⟨htoNat, -⟩ := add_offset_toNat (x := x) haligned (.inr rfl)
  refine ⟨_, htranslate, ?_⟩
  dsimp only
  rw [hpage, htoNat, hoffset, h'.bytes, hkept]
  exact fun page hpage => not_inPage_dirtyTable h hpage (by omega)

end

/-! ## Images with zero-initialised data -/

section
variable {file : Buffer} {stackKmalloc : Nat → Bool} {kmalloc : Nat → Nat → Bool} {v : Visit}
  {i : Nat} {program : ProgramHeader}

theorem segmentPageFlags_attributes (flags : BitVec 32) :
    AttributeFlags ((segmentPageFlags flags).setWidth 64) := by
  unfold segmentPageFlags AttributeFlags
  dsimp only
  split <;> split <;> decide

theorem userStackPageFlags_attributes : AttributeFlags userStackPageFlags := by
  unfold AttributeFlags
  decide

theorem mem_imageVisits : v ∈ imageVisits stackKmalloc kmalloc file ↔
    v ∈ stackVisits stackKmalloc ∨ ∃ j offset program,
      (programHeaders file)[j]? = some (offset, program) ∧ program.Loadable ∧
      ∃ k < (countPages program.pMemsz).toNat, v = segmentVisit (kmalloc j) file program k := by
  unfold imageVisits
  rw [List.mem_append, mem_headerVisits]
  simp only [Prod.exists, mem_segmentVisits, Nat.zero_add]

theorem flags_of_imageVisits (hv : v ∈ imageVisits stackKmalloc kmalloc file) :
    AttributeFlags v.pageFlags := by
  rcases mem_imageVisits.mp hv with hstack | ⟨j, offset, program, -, -, k, -, rfl⟩
  · unfold stackVisits at hstack
    rw [pageVisits_eq] at hstack
    obtain ⟨k, -, rfl⟩ := List.mem_map.mp hstack
    exact userStackPageFlags_attributes
  · exact segmentPageFlags_attributes _

theorem count_of_imageVisits (hv : v ∈ imageVisits stackKmalloc kmalloc file) :
    v.part.2 ≤ 4096 := by
  rcases mem_imageVisits.mp hv with hstack | ⟨j, offset, program, -, -, k, -, rfl⟩
  · rw [part_of_stackVisits hstack]
    exact Nat.zero_le _
  · have hle : (segmentVisit (kmalloc j) file program k).part.2 ≤ _ := partAt_le ..
    omega

theorem length_le_dedup {α : Type} [DecidableEq α] {xs ys : List α} (hnodup : xs.Nodup)
    (hsub : xs ⊆ ys) : xs.length ≤ ys.dedup.length :=
  (hnodup.subperm fun _ hx => List.mem_dedup.mpr (hsub hx)).length_le

theorem Fits.room (h : Fits file) {number : Nat}
    (hvisited : ∃ v ∈ allVisits file, v.number = number) :
    HasRoom (allVisits file) number where
  visited := hvisited
  pages := by
    have hblocks : (firstVisits [] (allVisits file)).length ≤
        ((allVisits file).map Visit.number).dedup.length :=
      length_le_dedup (nodup_firstVisits [] _)
        fun m hm => List.mem_map.mpr (mem_firstVisits.mp hm).2
    obtain ⟨hnodup, hmem⟩ := nodup_newTables [] (allVisits file)
    have htables : (newTables [] (allVisits file)).length ≤
        ((allVisits file).flatMap Visit.tablePaths).dedup.length :=
      length_le_dedup hnodup fun is his => List.mem_flatMap.mpr (hmem is his).2
    have hpages := h.pages
    omega

/-- The stack is visited. -/
theorem exists_visit (file : Buffer) : ∃ v, v ∈ allVisits file := by
  have hpages : 0 < (countPages userStackSize).toNat := by decide
  exact ⟨_, List.mem_append_left _
    (pageVisits_eq .. ▸ List.mem_map_of_mem (List.mem_range.mpr hpages))⟩

/-- A file that fits can be loaded. -/
theorem Fits.loads (h : Fits file) : ∃ p l, NewProcess p ∧
    loadNewProcess (fun _ => true) (fun _ _ => true) true file ⟨p, []⟩ = (some (), l) := by
  obtain ⟨first, hfirst⟩ := exists_visit file
  have hroom : HasRoom (allVisits file) first.number := h.room ⟨first, hfirst, rfl⟩
  obtain ⟨p', -, hcall, -⟩ := dirty_run hroom (fun v hv => flags_of_imageVisits hv)
    (misses_far hroom fun v hv => count_of_imageVisits hv)
  obtain ⟨l, hload, -⟩ := loadNewProcess_returns (l := ⟨_, []⟩) h.sound hcall
  exact ⟨_, l, dirtyProcess_new hroom, hload⟩

/-- Page `k` of a segment is one that the segment touches. -/
theorem touches_pageAt {k : Nat} (hk : k < (countPages program.pMemsz).toNat) :
    Touches program (pageNumber (pageAt program.pVaddr k)) := by
  have hcount := countPages_toNat program.pMemsz
  exact ⟨4096 * k, by omega, by rw [pageAt_eq]⟩

/-- With more pages the process would not fit. -/
theorem Fits.few (h : Fits file) {offset : Word}
    (hheader : (programHeaders file)[i]? = some (offset, program)) (hload : program.Loadable) :
    (countPages program.pMemsz).toNat < 2 ^ 36 := by
  by_contra hlarge
  have hnodup : ((List.range (2 ^ 36)).map fun j => pageNumber (pageAt program.pVaddr j)).Nodup :=
    List.nodup_range.map_on fun j hj j' hj' hsame =>
      pageNumber_pageAt_inj (List.mem_range.mp hj) (List.mem_range.mp hj') hsame
  have hle : ((List.range (2 ^ 36)).map fun j => pageNumber (pageAt program.pVaddr j)).length ≤
      ((allVisits file).map Visit.number).dedup.length := by
    refine length_le_dedup hnodup fun m hm => ?_
    obtain ⟨j, hj, rfl⟩ := List.mem_map.mp hm
    have hj := List.mem_range.mp hj
    exact List.mem_map.mpr ⟨_, mem_imageVisits.mpr (.inr
      ⟨i, offset, program, hheader, hload, j, by omega, rfl⟩), rfl⟩
  rw [List.length_map, List.length_range] at hle
  have hpages := h.pages
  omega

/-- The pages of a segment have different numbers. -/
theorem OwnPages.page_inj (hown : OwnPages file i program) (hfits : Fits file) {k k' : Nat}
    (hk : k < (countPages program.pMemsz).toNat) (hk' : k' < (countPages program.pMemsz).toNat)
    (hnumber : pageNumber (pageAt program.pVaddr k) = pageNumber (pageAt program.pVaddr k')) :
    k = k' := by
  obtain ⟨offset, hheader⟩ := hown.header
  have hsmall := hfits.few hheader hown.loadable
  exact pageNumber_pageAt_inj (by omega) (by omega) hnumber

/-- Behind the file data of a segment nothing is put. -/
theorem OwnPages.quiet (hown : OwnPages file i program) (hfits : Fits file) {b : Nat}
    (hfile : program.pFilesz.toNat ≤ b) (hmemory : b < program.pMemsz.toNat)
    (hv : v ∈ allVisits file)
    (hnumber : v.number = pageNumber (program.pVaddr + BitVec.ofNat 64 b)) :
    v.part.2 = 0 ∨ pageOffset v.virtualAddress = 0 ∧ v.part.2 ≤ b % 4096 := by
  have hlt := program.pMemsz.isLt
  have hcount := countPages_toNat program.pMemsz
  obtain ⟨offset, hheader⟩ := hown.header
  obtain ⟨hpage, -⟩ := Boot.page_of_byte (i := b) hown.aligned (by omega)
  rcases mem_imageVisits.mp hv with hstack | ⟨j, offset', other, hother, hload, k, hk, rfl⟩
  · rw [part_of_stackVisits hstack]
    exact .inl rfl
  by_cases hij : j = i
  · subst hij
    cases hheader.symm.trans hother
    have hsame : k = b / 4096 := hown.page_inj hfits hk (by omega) (hnumber.trans hpage)
    refine .inr ⟨?_, ?_⟩
    · apply BitVec.eq_of_toNat_eq
      have hstart := hown.aligned
      rw [pageOffset_toNat]
      show (pageAt program.pVaddr k).toNat % 4096 = 0
      rw [pageAt_toNat]
      omega
    · have hle : (segmentVisit (fun _ => true) file program k).part.2 ≤ _ := partAt_le ..
      omega
  · refine absurd (touches_pageAt hk) (hown.alone j offset' other hother hload hij _ ?_)
    exact ⟨b, hmemory, hnumber.symm⟩

end

/-- A segment that has something behind its file data is not zero there, if
the blocks were not. -/
theorem OwnPages.not_zeroTail {file : Buffer} {i : Nat} {program : ProgramHeader}
    (hown : OwnPages file i program) (hfits : Fits file)
    (hne : program.pFilesz ≠ program.pMemsz) : ¬ZeroTail file program := by
  intro hzero
  obtain ⟨offset, hheader⟩ := hown.header
  have hsound := of_decide_eq_false
    (hfits.sound _ (List.mem_of_getElem? hheader) hown.loadable)
  have hle : program.pFilesz.toNat ≤ program.pMemsz.toNat :=
    Nat.le_of_not_lt fun h => hsound (.inl h)
  have hlt : program.pFilesz.toNat < program.pMemsz.toNat :=
    Nat.lt_of_le_of_ne hle fun h => hne (BitVec.eq_of_toNat_eq h)
  have hcount := countPages_toNat program.pMemsz
  have hword := program.pMemsz.isLt
  obtain ⟨hpage, hoffset⟩ := Boot.page_of_byte (i := program.pFilesz.toNat) hown.aligned (by omega)
  -- the first byte behind the file data
  have hroom : HasRoom (allVisits file)
      (pageNumber (program.pVaddr + BitVec.ofNat 64 program.pFilesz.toNat)) := by
    refine hfits.room ⟨_, mem_imageVisits.mpr (.inr ⟨i, offset, program, hheader, hown.loadable,
      program.pFilesz.toNat / 4096, by omega, rfl⟩), hpage.symm⟩
  obtain ⟨p', hcalls, hdirty⟩ := exists_dirty hroom (Nat.mod_lt program.pFilesz.toNat (by decide))
    (fun v hv => flags_of_imageVisits hv)
    fun v hv hnumber => hown.quiet hfits (Nat.le_refl _) hlt hv hnumber
  obtain ⟨l, hload, hprocess⟩ := loadNewProcess_returns (l := ⟨_, []⟩) hfits.sound hcalls
  obtain ⟨physicalAddress, htranslate, hread⟩ := hzero _ _ _ _ l (dirtyProcess_new hroom) hload
    program.pFilesz.toNat (Nat.le_refl _) hlt
  obtain ⟨physicalAddress', htranslate', hread'⟩ := hdirty _ rfl hoffset
  rw [hprocess, htranslate'] at htranslate
  cases htranslate
  rw [hprocess, hread'] at hread
  cases hread

/-- Of a file that fits, a segment is zero behind its file data whatever
memory held before just if there is nothing behind the file data. -/
theorem zeroTail_iff (file : Buffer) (i : Nat) (program : ProgramHeader) (hfits : Fits file)
    (hown : OwnPages file i program) :
    ZeroTail file program ↔ program.pFilesz = program.pMemsz := by
  constructor
  · intro hzero
    by_contra hne
    exact hown.not_zeroTail hfits hne hzero
  · intro hsame _ _ _ _ _ _ _ b hfile hmemory
    rw [hsame] at hfile
    omega

theorem tailImage_inMemory : (0x10000 : Word).toNat + (120 : Word).toNat < 2 ^ 64 := by decide

/-- A file whose only segment has 64 bytes of file data, from its start, and
64 bytes behind them. -/
def tailImage : Buffer where
  address := 0x10000
  size := 120
  bytes offset :=
    match offset with
    | 32 => 64 -- e_phoff
    | 54 => 56 -- e_phentsize
    | 56 => 1 -- e_phnum
    | 64 => 1 -- p_type
    | 82 => 64 -- p_vaddr
    | 96 => 64 -- p_filesz
    | 104 => 128 -- p_memsz
    | 112 => 1 -- p_align
    | _ => 0
  fits := tailImage_inMemory

def tailProgram : ProgramHeader := ⟨1, 0, 0, 0x400000, 64, 128, 1⟩

theorem programHeaders_tailImage : programHeaders tailImage = [(64, tailProgram)] := by
  decide +kernel

theorem tailImage_fits : Fits tailImage where
  sound := by
    unfold Sound
    rw [programHeaders_tailImage]
    decide
  pages := by decide +kernel

theorem tailImage_ownPages : OwnPages tailImage 0 tailProgram where
  header := ⟨64, by rw [programHeaders_tailImage]; rfl⟩
  loadable := rfl
  aligned := by decide
  alone := by
    intro j offset other hother _ hj
    rw [programHeaders_tailImage] at hother
    have hlt := (List.getElem?_eq_some_iff.mp hother).1
    exact absurd (Nat.lt_one_iff.mp hlt) hj

theorem tailImage_zeroTail : ¬ZeroTail tailImage tailProgram := fun h =>
  absurd ((zeroTail_iff tailImage 0 tailProgram tailImage_fits tailImage_ownPages).mp h) (by decide)

/-- Such a segment need not be zero. -/
theorem zeroTail_counterexample :
    ¬∀ file i program, OwnPages file i program → ZeroTail file program := fun h =>
  tailImage_ownPages.not_zeroTail tailImage_fits (by decide) (h _ _ _ tailImage_ownPages)

end ZOs.ProcessMemory
