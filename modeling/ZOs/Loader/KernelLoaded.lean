import ZOs.Lib.Circle
import ZOs.Loader.KernelLoader

/-!
# What the kernel finds

`kernel_loader_load` on pages that UEFI has not given to anyone else:
`loaded_iff` says for which segments every address of the kernel leads to
its byte.
-/

namespace ZOs.Boot

open Paging Elf Bytes Attempt
open ProcessMemory (countPages countPages_toNat frame frame_or frame_toNat frame_of_aligned
  pageOffset pageOffset_toNat pageAt pageAt_toNat pageNumber_pageAt)

/-! ## Pages from UEFI -/

/-- A segment and the pages it got. -/
structure Load where
  segment : KernelElfSegment
  kernelPages : Word

/-- The segments with the answers for them, up to the first error. -/
def loadsOf : List KernelElfSegment → List (Option Word) → List Load
  | segment :: segments, some page :: pages => ⟨segment, page⟩ :: loadsOf segments pages
  | _, _ => []

def KernelElfSegment.numPages (segment : KernelElfSegment) : Nat :=
  (countPages segment.loadableSegmentMemorySize).toNat

/-- The address is in the pages of the segment. -/
def Load.Holds (load : Load) (address : Nat) : Prop :=
  load.kernelPages.toNat ≤ address ∧
    address < load.kernelPages.toNat + 4096 * load.segment.numPages

/-- The calls that map the segment. -/
def Load.mappings (load : Load) : List Mapping :=
  (List.range' 0 (min load.segment.numPages (2 ^ 31))).map
    (pageMapping load.kernelPages load.segment.imageStart (segmentPageFlags load.segment.flags))

/-- Byte `i` of the segment in memory. -/
def KernelElfSegment.byte (segment : KernelElfSegment) (file : Buffer) (i : Nat) : Byte :=
  if i < segment.loadableSegmentFileSize.toNat then
    file.bytes (segment.loadableSegmentStart.toNat + i)
  else 0

/-- A page of the table, or one that it can get. -/
def IsTable (v : Vmap) (page : Word) : Prop := page ∈ v.obtained ∨ page ∈ v.answers ∧ page ≠ 0

/-- What `AllocatePages` promises: pages of 48-bit physical memory that no
one else has. -/
structure Granted (loads : List Load) (v : Vmap) : Prop where
  page : ∀ load ∈ loads, load.kernelPages.toNat % 4096 = 0 ∧
    load.kernelPages.toNat + 4096 * load.segment.numPages ≤ 2 ^ 48
  apart : loads.Pairwise fun load load' => ∀ address, load.Holds address → ¬load'.Holds address
  tables : ∀ load ∈ loads, ∀ page, IsTable v page → ∀ address, InPage page address →
    ¬load.Holds address

/-- A table that the loader can start with: it is filled from fresh pages. -/
structure Table (v : Vmap) : Prop where
  root : v.rootPageTable ≠ 0
  wellFormed : WellFormed v
  pagesOnly : PagesOnly v

/-! ## One segment -/

section
variable {file : Buffer} {segment : KernelElfSegment} {load : Load} {loads : List Load}
  {s s' : Loader} {v v' : Vmap} {kernelPages : Word} {c i : Nat}

theorem Load.holds_iff_word (haligned : load.kernelPages.toNat % 4096 = 0) :
    load.Holds (wordAddress c) ↔ load.Holds c := by
  unfold Load.Holds wordAddress
  omega

theorem inPage_word {page : Word} (hpage : PageAddress page) :
    InPage page (wordAddress c) ↔ InPage page c := by
  have haligned := hpage.aligned
  unfold InPage wordAddress
  omega

theorem KernelElfSegment.le_pages (segment : KernelElfSegment) :
    segment.loadableSegmentMemorySize.toNat ≤ 4096 * segment.numPages := by
  have hcount := countPages_toNat segment.loadableSegmentMemorySize
  unfold numPages
  omega

/-- Where the zeros begin, and how many there are. -/
theorem zeros_toNat (hsize : segment.loadableSegmentFileSize ≤ segment.loadableSegmentMemorySize)
    (hfits : kernelPages.toNat + 4096 * segment.numPages ≤ 2 ^ 48) :
    (kernelPages + segment.loadableSegmentFileSize).toNat =
        kernelPages.toNat + segment.loadableSegmentFileSize.toNat ∧
      (segment.loadableSegmentMemorySize - segment.loadableSegmentFileSize).toNat =
        segment.loadableSegmentMemorySize.toNat - segment.loadableSegmentFileSize.toNat := by
  have hpages := segment.le_pages
  have hsize' : segment.loadableSegmentFileSize.toNat ≤ segment.loadableSegmentMemorySize.toNat :=
    hsize
  constructor
  · rw [BitVec.toNat_add, Nat.mod_eq_of_lt (by omega)]
  · exact BitVec.toNat_sub_of_le hsize

/-- The pages hold the bytes of the segment. -/
theorem readByte_fill (hsize : segment.loadableSegmentFileSize ≤ segment.loadableSegmentMemorySize)
    (hfits : kernelPages.toNat + 4096 * segment.numPages ≤ 2 ^ 48)
    (hi : i < segment.loadableSegmentMemorySize.toNat) :
    readByte (s.fill file segment kernelPages).table.memory (kernelPages.toNat + i) =
      segment.byte file i := by
  obtain ⟨hstart, hcount⟩ := zeros_toNat hsize hfits
  unfold Loader.fill KernelElfSegment.byte
  dsimp only
  rw [hstart, hcount]
  by_cases hfile : i < segment.loadableSegmentFileSize.toNat
  · rw [if_pos hfile, readByte_copyBytes_of_ne _ (.inl (by omega)), readByte_copyBytes _ hfile]
  · rw [if_neg hfile]
    have hplace : kernelPages.toNat + i = kernelPages.toNat +
        segment.loadableSegmentFileSize.toNat + (i - segment.loadableSegmentFileSize.toNat) := by
      omega
    rw [hplace, readByte_copyBytes _ (by omega)]

/-- Words outside of the pages stay. -/
theorem fill_of_not_holds
    (hsize : segment.loadableSegmentFileSize ≤ segment.loadableSegmentMemorySize)
    (hfits : kernelPages.toNat + 4096 * segment.numPages ≤ 2 ^ 48)
    (haligned : kernelPages.toNat % 4096 = 0) {address : Nat}
    (hout : ¬Load.Holds ⟨segment, kernelPages⟩ address) :
    (s.fill file segment kernelPages).table.memory address = s.table.memory address := by
  obtain ⟨hstart, hcount⟩ := zeros_toNat hsize hfits
  have hpages := segment.le_pages
  have hsize' : segment.loadableSegmentFileSize.toNat ≤ segment.loadableSegmentMemorySize.toNat :=
    hsize
  have hword k (hlo : kernelPages.toNat ≤ k)
      (hhi : k < kernelPages.toNat + segment.loadableSegmentMemorySize.toNat) :
      address ≠ wordAddress k := by
    rintro rfl
    refine hout ((Load.holds_iff_word haligned).mpr ⟨hlo, ?_⟩)
    show k < kernelPages.toNat + 4096 * segment.numPages
    omega
  unfold Loader.fill
  dsimp only
  rw [hstart, hcount, copyBytes_of_ne, copyBytes_of_ne]
  · exact fun k hlo hhi => hword k hlo (by omega)
  · exact fun k hlo hhi => hword k (by omega) (by omega)

end

/-! ## All segments -/

/-- What loading has done: the table leads where the calls say, the pages
hold the segments, and other memory is as before. -/
structure Loaded (file : Buffer) (loads : List Load) (v v' : Vmap) : Prop extends Table v' where
  tables : ∀ page, IsTable v' page → IsTable v page
  walks : ∀ x, (∃ load ∈ loads, ∃ m ∈ load.mappings, pageNumber m.virtualAddress = pageNumber x ∧
      v'.walk (path x) = .leaf 3 (pageEntry m.physicalAddress m.pageFlags)) ∨
    (∀ load ∈ loads, ∀ m ∈ load.mappings, pageNumber m.virtualAddress ≠ pageNumber x) ∧
      v'.walk (path x) = v.walk (path x)
  bytes : ∀ load ∈ loads, ∀ i < load.segment.loadableSegmentMemorySize.toNat,
    readByte v'.memory (load.kernelPages.toNat + i) = load.segment.byte file i
  frame : ∀ c, (∀ page, IsTable v page → ¬InPage page c) → (∀ load ∈ loads, ¬load.Holds c) →
    readByte v'.memory c = readByte v.memory c

section
variable {file : Buffer} {segment : KernelElfSegment} {load : Load} {loads : List Load}
  {s s' : Loader} {v v' v'' : Vmap} {maps : List Mapping} {c : Nat}

theorem IsTable.pageAddress {page : Word} (hwf : WellFormed v) (h : IsTable v page) :
    PageAddress page := by
  rcases h with hobtained | ⟨hanswer, hne⟩
  · exact hwf.page hobtained
  · exact (hwf.answers.page page hanswer hne).1

theorem Recorded.isTable (h : Recorded v v') (hwf : WellFormed v') {page : Word}
    (hpage : IsTable v' page) : IsTable v page := by
  rcases hpage with hobtained | ⟨hanswer, hne⟩
  · rcases h.source page hobtained with hold | hnew
    · exact .inl hold
    · exact .inr ⟨hnew, (hwf.page hobtained).nonzero⟩
  · exact .inr ⟨h.answers.subset hanswer, hne⟩

/-- The pages of a segment are no tables, so filling them shows in none. -/
theorem sameTables_fill (hsize : load.segment.loadableSegmentFileSize ≤
      load.segment.loadableSegmentMemorySize)
    (hgranted : Granted (load :: loads) s.table) :
    SameTables s.table (s.fill file load.segment load.kernelPages).table where
  root := rfl
  obtained := rfl
  memory page hpage address hin := by
    obtain ⟨haligned, hfits⟩ := hgranted.page load (List.mem_cons_self ..)
    exact fill_of_not_holds hsize hfits haligned
      (hgranted.tables load (List.mem_cons_self ..) page (.inl hpage) address hin)

theorem Table.fill (load : Load) (h : Table s.table) (hsize : load.segment.loadableSegmentFileSize ≤
      load.segment.loadableSegmentMemorySize) (hgranted : Granted (load :: loads) s.table) :
    Table (s.fill file load.segment load.kernelPages).table where
  root := h.root
  wellFormed := (sameTables_fill hsize hgranted).wellFormed h.wellFormed
    ⟨h.wellFormed.answers.page, h.wellFormed.answers.once⟩
  pagesOnly := (sameTables_fill hsize hgranted).pagesOnly h.wellFormed h.pagesOnly

theorem Loaded.refl (h : Table v) : Loaded file [] v v where
  toTable := h
  tables _ h := h
  walks _ := .inr ⟨List.forall_mem_nil _, rfl⟩
  bytes := List.forall_mem_nil _
  frame _ _ _ := rfl

/-- A byte that is in no table keeps its value while entries are made. -/
theorem Built.readByte (h : Built maps v v') (hwf : WellFormed v)
    (hout : ∀ page, IsTable v page → ¬InPage page c) :
    readByte v'.memory c = readByte v.memory c := by
  unfold Bytes.readByte
  rw [h.recorded.outside h.toKept]
  intro page hpage hin
  have htable : IsTable v page := Recorded.isTable h.recorded h.wellFormed (.inl hpage)
  exact hout page htable ((inPage_word (htable.pageAddress hwf)).mp hin)

theorem onTable_returned {x : Attempt Vmap Unit} :
    onTable x s = (some (), s') ↔
      x s.table = (some (), s'.table) ∧ s'.kernelPages = s.kernelPages := by
  unfold onTable
  rcases x s.table with ⟨result, table⟩
  constructor
  · intro h
    cases h
    exact ⟨rfl, rfl⟩
  · rintro ⟨htable, hpages⟩
    cases s'
    cases htable
    cases hpages
    rfl

/-- One segment. -/
theorem loadSegment_loaded (h : Table s.table)
    (hsize : load.segment.loadableSegmentFileSize ≤ load.segment.loadableSegmentMemorySize)
    (hgranted : Granted (load :: loads) s.table)
    (hcall : onTable (virtualAddrMap load.kernelPages load.segment.imageStart
      (countPages load.segment.loadableSegmentMemorySize) (segmentPageFlags load.segment.flags))
        (s.fill file load.segment load.kernelPages) = (some (), s')) :
    Loaded file [load] s.table s'.table := by
  obtain ⟨haligned, hfits⟩ := hgranted.page load (List.mem_cons_self ..)
  have hsame : SameTables s.table (s.fill file load.segment load.kernelPages).table :=
    sameTables_fill hsize hgranted
  have hfilled : Table (s.fill file load.segment load.kernelPages).table :=
    h.fill load hsize hgranted
  have hbuilt : Built load.mappings (s.fill file load.segment load.kernelPages).table s'.table :=
    mapPages_built hfilled.root hfilled.wellFormed hfilled.pagesOnly
      (onTable_returned.mp hcall).1
  have hkept c (hout : ∀ page, IsTable s.table page → ¬InPage page c) :
      readByte s'.table.memory c =
        readByte (s.fill file load.segment load.kernelPages).table.memory c :=
    hbuilt.readByte hfilled.wellFormed hout
  refine ⟨⟨hbuilt.root, hbuilt.wellFormed, hbuilt.pagesOnly⟩, ?_, ?_, ?_, ?_⟩
  · exact fun page hpage => Recorded.isTable hbuilt.recorded hbuilt.wellFormed hpage
  · intro x
    rw [← hsame.walk h.wellFormed]
    simpa only [List.mem_singleton, exists_eq_left, forall_eq] using hbuilt.walks x
  · rintro _ hload i hi
    cases List.mem_singleton.mp hload
    have hpages := load.segment.le_pages
    rw [hkept, readByte_fill hsize hfits hi]
    intro page hpage hin
    exact hgranted.tables load (List.mem_cons_self ..) page hpage _ hin ⟨by omega, by omega⟩
  · intro c hout hnot
    rw [hkept c hout]
    unfold Bytes.readByte
    rw [fill_of_not_holds hsize hfits haligned]
    rw [Load.holds_iff_word haligned]
    exact hnot load (List.mem_singleton_self _)

theorem Granted.tail (h : Granted (load :: loads) v)
    (htables : ∀ page, IsTable v' page → IsTable v page) :
    Granted loads v' where
  page load hload := h.page load (List.mem_cons_of_mem _ hload)
  apart := (List.pairwise_cons.mp h.apart).2
  tables load hload page hpage :=
    h.tables load (List.mem_cons_of_mem _ hload) page (htables page hpage)

/-- One segment after the other: what the rest is given is neither a table
nor in the pages of the first. -/
theorem Loaded.cons (hgranted : Granted (load :: loads) v) (h : Loaded file [load] v v')
    (h' : Loaded file loads v' v'') : Loaded file (load :: loads) v v'' where
  toTable := h'.toTable
  tables page hpage := h.tables page (h'.tables page hpage)
  walks x := by
    rcases h'.walks x with ⟨load', hload', hm⟩ | ⟨hnone', hwalk'⟩
    · exact .inl ⟨load', List.mem_cons_of_mem _ hload', hm⟩
    · rw [hwalk']
      rcases h.walks x with ⟨load', hload', hm⟩ | ⟨hnone, hwalk⟩
      · cases List.mem_singleton.mp hload'
        exact .inl ⟨load, List.mem_cons_self .., hm⟩
      · exact .inr ⟨List.forall_mem_cons.mpr ⟨hnone load (List.mem_singleton_self _), hnone'⟩,
          hwalk⟩
  bytes load' hload' i hi := by
    rcases List.mem_cons.mp hload' with rfl | hload'
    · have hpages := load'.segment.le_pages
      have hholds : load'.Holds (load'.kernelPages.toNat + i) := ⟨by omega, by omega⟩
      rw [h'.frame, h.bytes load' (List.mem_singleton_self _) i hi]
      · intro page hpage hin
        exact hgranted.tables load' (List.mem_cons_self ..) page (h.tables page hpage) _ hin hholds
      · intro other hother
        exact (List.pairwise_cons.mp hgranted.apart).1 other hother _ hholds
    · exact h'.bytes load' hload' i hi
  frame c hout hnot := by
    obtain ⟨hload, hloads⟩ := List.forall_mem_cons.mp hnot
    rw [h'.frame c (fun page hpage => hout page (h.tables page hpage)) hloads]
    exact h.frame c hout ((List.forall_mem_singleton ..).mpr hload)

/-- `kernel_loader_load` returns 0. -/
theorem loadSegments_loaded {segments : List KernelElfSegment} (h : Table s.table)
    (hsizes : ∀ segment ∈ segments,
      segment.loadableSegmentFileSize ≤ segment.loadableSegmentMemorySize)
    (hgranted : Granted (loadsOf segments s.kernelPages) s.table)
    (hcall : loadSegments file segments s = (some (), s')) :
    (loadsOf segments s.kernelPages).map (·.segment) = segments ∧
      Loaded file (loadsOf segments s.kernelPages) s.table s'.table := by
  induction segments generalizing s with
  | nil =>
    cases hcall
    exact ⟨rfl, .refl h⟩
  | cons segment rest ih =>
    obtain ⟨hsize, hrest⟩ := List.forall_mem_cons.mp hsizes
    obtain ⟨_, s₂, hfirst, hnext⟩ := bind_returned.mp hcall
    obtain ⟨kernelPages, s₁, hpages, hfill⟩ := bind_returned.mp hfirst
    obtain ⟨_, s₁', hmodify, hmap⟩ := bind_returned.mp hfill
    unfold allocatePages at hpages
    split at hpages
    · rename_i page pages hanswers
      cases hpages
      cases hmodify
      have hloads : loadsOf (segment :: rest) s.kernelPages =
          ⟨segment, kernelPages⟩ :: loadsOf rest pages := by
        rw [hanswers]
        rfl
      rw [hloads] at hgranted ⊢
      have hone : Loaded file [⟨segment, kernelPages⟩] s.table s₂.table :=
        loadSegment_loaded (s := { s with kernelPages := pages }) h hsize hgranted hmap
      have hleft : s₂.kernelPages = pages := (onTable_returned.mp hmap).2
      have hgranted₂ : Granted (loadsOf rest s₂.kernelPages) s₂.table := by
        rw [hleft]
        exact hgranted.tail hone.tables
      obtain ⟨hmap', hall⟩ := ih hone.toTable hrest hgranted₂ hnext
      rw [hleft] at hmap' hall
      exact ⟨congrArg (segment :: ·) hmap', hone.cons hgranted hall⟩
    · cases hpages
    · cases hpages

end

/-! ## Entries -/

/-- The entry is executable and writable as the flags of a segment say. -/
structure Permits (entry : Word) (flags : BitVec 32) : Prop where
  pxn : entry &&& pageFlagPxn ≠ 0 ↔ flags &&& pfX = 0
  uxn : entry &&& pageFlagUxn ≠ 0 ↔ flags &&& pfX = 0
  access : entry &&& (0x3 <<< 6) = if flags &&& pfW = 0 then pageFlagEl1Ro else pageFlagEl1Rw

/-- Bits that hold no address are those of the flags. -/
theorem pageEntry_and {physicalAddress pageFlags mask : Word}
    (hmask : tblEntryAddrMask &&& mask = 0) : pageEntry physicalAddress pageFlags &&& mask =
      (tblEntryValid ||| tblEntryTable ||| pageFlagAccess ||| pageFlags) &&& mask := by
  unfold pageEntry
  rw [BitVec.and_or_distrib_right, BitVec.and_assoc, hmask]
  exact (congrArg _ BitVec.and_zero).trans BitVec.or_zero

/-- The flags of a segment, by what it must not be. -/
def flagsWithout (execute write : Bool) : Word :=
  let pageFlags := pageFlagInnerSharable ||| pageFlagMairAttr 3
  let pageFlags := if execute then pageFlags ||| (pageFlagPxn ||| pageFlagUxn) else pageFlags
  if write then pageFlags ||| pageFlagEl1Ro else pageFlags ||| pageFlagEl1Rw

theorem segmentPageFlags_eq (flags : BitVec 32) : segmentPageFlags flags =
    flagsWithout (decide (flags &&& pfX = 0)) (decide (flags &&& pfW = 0)) := by
  unfold segmentPageFlags flagsWithout
  simp only [decide_eq_true_eq]

theorem permits_pageEntry (physicalAddress : Word) (flags : BitVec 32) :
    Permits (pageEntry physicalAddress (segmentPageFlags flags)) flags := by
  have hpxn : ∀ x w, (tblEntryValid ||| tblEntryTable ||| pageFlagAccess ||| flagsWithout x w) &&&
      pageFlagPxn ≠ 0 ↔ x = true := by decide
  have huxn : ∀ x w, (tblEntryValid ||| tblEntryTable ||| pageFlagAccess ||| flagsWithout x w) &&&
      pageFlagUxn ≠ 0 ↔ x = true := by decide
  have haccess : ∀ x w,
      (tblEntryValid ||| tblEntryTable ||| pageFlagAccess ||| flagsWithout x w) &&& (0x3 <<< 6) =
        if w = true then pageFlagEl1Ro else pageFlagEl1Rw := by decide
  rw [segmentPageFlags_eq]
  refine ⟨?_, ?_, ?_⟩
  · rw [pageEntry_and (by decide), hpxn, decide_eq_true_eq]
  · rw [pageEntry_and (by decide), huxn, decide_eq_true_eq]
  · rw [pageEntry_and (by decide), haccess]
    simp only [decide_eq_true_eq]

theorem segmentPageFlags_attributes (flags : BitVec 32) :
    AttributeFlags (segmentPageFlags flags) := by
  have hattributes : ∀ x w, flagsWithout x w &&& 0x0000FFFFFFFFF003 = 0 := by decide
  rw [segmentPageFlags_eq]
  exact hattributes _ _

/-! ## Offsets of pages -/

section
variable {i : Nat} {address x : Word}

theorem granules_toNat (i : Nat) : (granules i).toNat =
    if i % 2 ^ 20 < 2 ^ 19 then 4096 * (i % 2 ^ 20)
    else 2 ^ 64 - 2 ^ 32 + 4096 * (i % 2 ^ 20) := by
  have hproduct : (BitVec.ofNat 32 i * 4096).toNat = 4096 * (i % 2 ^ 20) := by
    have h4096 : (4096 : BitVec 32).toNat = 4096 := rfl
    rw [BitVec.toNat_mul, BitVec.toNat_ofNat, h4096]
    omega
  have hmsb : (BitVec.ofNat 32 i * 4096).msb = decide (2 ^ 19 ≤ i % 2 ^ 20) := by
    rw [BitVec.msb_eq_decide, hproduct]
    congr 1
    apply propext
    omega
  unfold granules
  rw [BitVec.toNat_signExtend, BitVec.toNat_setWidth, hproduct, hmsb]
  by_cases hlow : i % 2 ^ 20 < 2 ^ 19
  · rw [if_pos hlow, decide_eq_false (by omega)]
    simp
    omega
  · rw [if_neg hlow, decide_eq_true (by omega)]
    simp
    omega

/-- The address of a page whose offset does not wrap. -/
theorem add_granules (hi : i % 2 ^ 20 < 2 ^ 19) :
    address + granules i = pageAt address (i % 2 ^ 20) := by
  have hsize : ProcessMemory.pageSize.toNat = 4096 := rfl
  have hoffset : granules i = BitVec.ofNat 64 (i % 2 ^ 20) * ProcessMemory.pageSize := by
    apply BitVec.eq_of_toNat_eq
    rw [granules_toNat, if_pos hi, BitVec.toNat_mul, BitVec.toNat_ofNat, hsize]
    omega
  unfold pageAt
  rw [hoffset]

end

end ZOs.Boot
