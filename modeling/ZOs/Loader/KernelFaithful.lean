import Mathlib.Data.List.Nodup
import ZOs.Lib.Circle
import ZOs.Loader.KernelLoaded
import ZOs.Memory.VmapSupply

/-!
# A kernel in its place

`faithful_iff`: every address of the kernel leads to its byte, with the
permissions of its segment, and to a page of its own, just if no segment is
larger than 2 GiB, where the offset of a page turns negative, and the pages
of the segments differ in the 48 bits of an address that are translated.
-/

namespace ZOs.Boot

open Paging Elf Bytes Attempt
open ProcessMemory (countPages countPages_toNat frame frame_or frame_toNat frame_of_aligned
  pageOffset pageOffset_toNat pageAt pageAt_toNat pageNumber_pageAt)

/-! ## The table to start with -/

/-- What `virtual_addr_allocate_table` leaves: one page, cleared. -/
structure NewTable (v : Vmap) : Prop where
  page : PageAddress v.rootPageTable
  obtained : v.obtained = [v.rootPageTable]
  cleared : ∀ i, v.slot v.rootPageTable i = 0
  answers : FreshAnswers v

section
variable {v : Vmap}

theorem NewTable.empty (h : NewTable v) (d : Nat) (i : Index) :
    entryKind d (v.slot v.rootPageTable i) = .fault := by
  rw [h.cleared]
  exact entryKind_zero d

theorem NewTable.walk (h : NewTable v) (x : Word) : v.walk (path x) = .fault := by
  rw [v.walk_of_root h.page.nonzero]
  exact TableTree.walk_cons_fault (h.empty 0 _)

theorem NewTable.table (h : NewTable v) : Table v where
  root := h.page.nonzero
  wellFormed :=
    { distinct := by
        intro t p q hp hq
        exact TableTree.distinct_empty h.empty ((Vmap.reached_iff h.page.nonzero).mp hp)
          ((Vmap.reached_iff h.page.nonzero).mp hq)
      reached := by
        intro t p hp
        obtain ⟨-, rfl⟩ := (TableTree.reached_empty h.empty).mp
          ((Vmap.reached_iff h.page.nonzero).mp hp)
        rw [h.obtained]
        exact List.mem_singleton_self _
      page := by
        intro t ht
        rw [h.obtained] at ht
        cases List.mem_singleton.mp ht
        exact h.page
      answers := h.answers }
  pagesOnly := by
    rintro x ⟨d, e, hwalk, _⟩
    rw [h.walk] at hwalk
    cases hwalk

end

/-! ## What is promised -/

/-- The kernel is in its place: byte by byte, with the permissions of the
segments, and no two pages of it in one. -/
structure Faithful (file : Buffer) (loads : List Load) (v : Vmap) : Prop where
  bytes : ∀ load ∈ loads, ∀ i < load.segment.loadableSegmentMemorySize.toNat,
    v.vmapVirtualToPhysical (load.segment.imageStart + BitVec.ofNat 64 i) =
        some (load.kernelPages + BitVec.ofNat 64 i) ∧
      readByte v.memory (load.kernelPages + BitVec.ofNat 64 i).toNat = load.segment.byte file i
  permissions : ∀ load ∈ loads, ∀ i < load.segment.numPages, ∃ entry,
    v.walk (path (pageAt load.segment.imageStart i)) = .leaf 3 entry ∧
      Permits entry load.segment.flags
  alone : ∀ load ∈ loads, ∀ load' ∈ loads, ∀ i < load.segment.numPages,
    ∀ j < load'.segment.numPages,
    v.vmapVirtualToPhysical (pageAt load.segment.imageStart i) =
      v.vmapVirtualToPhysical (pageAt load'.segment.imageStart j) → load = load' ∧ i = j

/-- The numbers of the pages of a segment. -/
def KernelElfSegment.pageNumbers (segment : KernelElfSegment) : List Nat :=
  (List.range segment.numPages).map fun i => pageNumber (pageAt segment.imageStart i)

/-- Segments of at most 2^19 pages, all of different numbers. -/
structure SegmentsFit (segments : List KernelElfSegment) : Prop where
  small : ∀ segment ∈ segments, segment.numPages ≤ 2 ^ 19
  distinct : (segments.flatMap KernelElfSegment.pageNumbers).Nodup

section
variable {file : Buffer} {load load' : Load} {loads : List Load} {segments : List KernelElfSegment}
  {v v' : Vmap} {i j : Nat} {x : Word}

/-- A number belongs to one page of one segment. -/
theorem page_unique (h : ((loads.map (·.segment)).flatMap KernelElfSegment.pageNumbers).Nodup)
    (hload : load ∈ loads) (hload' : load' ∈ loads) (hi : i < load.segment.numPages)
    (hj : j < load'.segment.numPages)
    (hnumber : pageNumber (pageAt load.segment.imageStart i) =
      pageNumber (pageAt load'.segment.imageStart j)) : load = load' ∧ i = j := by
  rw [List.flatMap_map, List.nodup_flatMap] at h
  obtain ⟨hone, htwo⟩ := h
  have hmem : pageNumber (pageAt load.segment.imageStart i) ∈ load.segment.pageNumbers :=
    List.mem_map_of_mem (List.mem_range.mpr hi)
  have hmem' : pageNumber (pageAt load'.segment.imageStart j) ∈ load'.segment.pageNumbers :=
    List.mem_map_of_mem (List.mem_range.mpr hj)
  by_cases heq : load = load'
  · subst heq
    exact ⟨rfl, List.inj_on_of_nodup_map (hone load hload) (List.mem_range.mpr hi)
      (List.mem_range.mpr hj) hnumber⟩
  · have hsymm : Std.Symm (Function.onFun List.Disjoint fun load : Load =>
        load.segment.pageNumbers) := ⟨fun _ _ h => h.symm⟩
    exact absurd (hnumber ▸ hmem') (htwo.forall hload hload' heq hmem)

/-- No page of memory is in two segments. -/
theorem Granted.unique (address : Nat) (h : Granted loads v) (hload : load ∈ loads)
    (hload' : load' ∈ loads) (hin : load.Holds address) (hin' : load'.Holds address) :
    load = load' := by
  by_contra hne
  have hsymm : Std.Symm fun load load' : Load =>
      ∀ address, load.Holds address → ¬load'.Holds address :=
    ⟨fun _ _ h address hin hin' => h address hin' hin⟩
  exact h.apart.forall hload hload' hne address hin hin'

theorem translate_of_walk {physicalAddress pageFlags : Word} (hflags : AttributeFlags pageFlags)
    (hwalk : v.walk (path x) = .leaf 3 (pageEntry physicalAddress pageFlags)) :
    v.vmapVirtualToPhysical x = some (frame physicalAddress + pageOffset x) := by
  rw [vmapVirtualToPhysical_eq, hwalk]
  show some ((pageEntry physicalAddress pageFlags &&& tblEntryAddrMask) ||| pageOffset x) = _
  rw [pageEntry_mask, Bits.and_eq_right_of_clear hflags.addr, ← frame_or]
  rfl

/-- Where the segments fit, a page of a segment has the entry of that page. -/
theorem Loaded.walk (h : Loaded file loads v v')
    (hfit : SegmentsFit (loads.map (·.segment))) (hload : load ∈ loads)
    (hi : i < load.segment.numPages)
    (hx : pageNumber x = pageNumber (pageAt load.segment.imageStart i)) :
    v'.walk (path x) = .leaf 3 (pageEntry (pageAt load.kernelPages i)
      (segmentPageFlags load.segment.flags)) := by
  have hsmall load (hload : load ∈ loads) : load.segment.numPages ≤ 2 ^ 19 :=
    hfit.small _ (List.mem_map_of_mem hload)
  have hpage {address : Word} {load i} (hload : load ∈ loads) (hi : i < load.segment.numPages) :
      address + granules i = pageAt address i := by
    have hle := hsmall load hload
    rw [add_granules (by omega), Nat.mod_eq_of_lt (by omega)]
  rcases h.walks x with ⟨load', hload', m, hm, hnumber, hwalk⟩ | ⟨hnone, -⟩
  · obtain ⟨j, hj, rfl⟩ := List.mem_map.mp hm
    have hj : j < load'.segment.numPages := by
      have hrange := List.mem_range'_1.mp hj
      omega
    change pageNumber (load'.segment.imageStart + granules j) = _ at hnumber
    change v'.walk (path x) = .leaf 3 (pageEntry (load'.kernelPages + granules j) _) at hwalk
    rw [hpage hload' hj] at hwalk hnumber
    obtain ⟨rfl, rfl⟩ := page_unique hfit.distinct hload hload' hi hj (hx.symm.trans hnumber.symm)
    exact hwalk
  · have hle := hsmall load hload
    have hmem : pageMapping load.kernelPages load.segment.imageStart
        (segmentPageFlags load.segment.flags) i ∈ load.mappings :=
      List.mem_map_of_mem (List.mem_range'_1.mpr ⟨Nat.zero_le _, by omega⟩)
    refine absurd ?_ (hnone load hload _ hmem)
    show pageNumber (load.segment.imageStart + granules i) = _
    rw [hpage hload hi, hx]

/-! ## Where the segments fit -/

/-- Byte `i` of a region is in its page `i / 4096`. -/
theorem page_of_byte {address : Word} (haligned : address.toNat % 4096 = 0) (hi : i < 2 ^ 64) :
    pageNumber (address + BitVec.ofNat 64 i) = pageNumber (pageAt address (i / 4096)) ∧
      (pageOffset (address + BitVec.ofNat 64 i)).toNat = i % 4096 := by
  have hsum : (address + BitVec.ofNat 64 i).toNat = (address.toNat + i) % 2 ^ 64 := by
    rw [BitVec.toNat_add, BitVec.toNat_ofNat, Nat.mod_eq_of_lt hi]
  constructor
  · unfold pageNumber
    rw [hsum, pageAt_toNat]
    omega
  · rw [pageOffset_toNat, hsum]
    omega

/-- The place of a byte in the pages that a segment got. -/
theorem frame_of_byte {address : Word} (haligned : address.toNat % 4096 = 0) (hi : i / 4096 < j)
    (hfits : address.toNat + 4096 * j ≤ 2 ^ 48) {offset : Word}
    (hoffset : offset.toNat = i % 4096) :
    frame (pageAt address (i / 4096)) + offset = address + BitVec.ofNat 64 i := by
  have hpage := pageAt_toNat address (i / 4096)
  rw [frame_of_aligned (by omega) (by omega)]
  apply BitVec.eq_of_toNat_eq
  rw [BitVec.toNat_add, BitVec.toNat_add, BitVec.toNat_ofNat, hpage, hoffset]
  omega

/-- The bytes of the segments are translated to their places. -/
def InPlace (loads : List Load) (v : Vmap) : Prop :=
  ∀ load ∈ loads, ∀ i < load.segment.loadableSegmentMemorySize.toNat,
    v.vmapVirtualToPhysical (load.segment.imageStart + BitVec.ofNat 64 i) =
      some (load.kernelPages + BitVec.ofNat 64 i)

theorem pageAt_eq (address : Word) (i : Nat) :
    pageAt address i = address + BitVec.ofNat 64 (4096 * i) := by
  apply BitVec.eq_of_toNat_eq
  rw [pageAt_toNat, BitVec.toNat_add, BitVec.toNat_ofNat]
  omega

theorem KernelElfSegment.lt_numPages {segment : KernelElfSegment} : i < segment.numPages ↔
    4096 * i < segment.loadableSegmentMemorySize.toNat := by
  have hcount := countPages_toNat segment.loadableSegmentMemorySize
  unfold numPages
  omega

theorem InPlace.page (h : InPlace loads v) (hload : load ∈ loads)
    (hi : i < load.segment.numPages) :
    v.vmapVirtualToPhysical (pageAt load.segment.imageStart i) =
      some (pageAt load.kernelPages i) := by
  rw [pageAt_eq, pageAt_eq]
  exact h load hload _ (KernelElfSegment.lt_numPages.mp hi)

/-- Pages that are translated alike are the same page. -/
theorem InPlace.alone (h : InPlace loads v) (hgranted : Granted loads v') (hload : load ∈ loads)
    (hload' : load' ∈ loads) (hi : i < load.segment.numPages) (hj : j < load'.segment.numPages)
    (hsame : v.vmapVirtualToPhysical (pageAt load.segment.imageStart i) =
      v.vmapVirtualToPhysical (pageAt load'.segment.imageStart j)) : load = load' ∧ i = j := by
  rw [h.page hload hi, h.page hload' hj] at hsame
  have hplace := congrArg BitVec.toNat (Option.some.inj hsame)
  have hfits := (hgranted.page load hload).2
  have hfits' := (hgranted.page load' hload').2
  rw [pageAt_toNat, pageAt_toNat] at hplace
  obtain rfl := hgranted.unique (load.kernelPages.toNat + 4096 * i) hload hload'
    ⟨by omega, by omega⟩ ⟨by omega, by omega⟩
  exact ⟨rfl, by omega⟩

theorem Loaded.faithful (h : Loaded file loads v v') (hgranted : Granted loads v)
    (haligned : ∀ load ∈ loads, load.segment.imageStart.toNat % 4096 = 0)
    (hfit : SegmentsFit (loads.map (·.segment))) : Faithful file loads v' := by
  have hplace : InPlace loads v' := by
    intro load hload i hi
    have hpages := load.segment.le_pages
    obtain ⟨hkernel, hfits⟩ := hgranted.page load hload
    obtain ⟨hnumber, hoffset⟩ := page_of_byte (i := i) (haligned load hload) (by omega)
    have hwalk := h.walk hfit hload (i := i / 4096) (by omega) hnumber
    rw [translate_of_walk (segmentPageFlags_attributes _) hwalk,
      frame_of_byte hkernel (by omega) hfits hoffset]
  refine ⟨fun load hload i hi => ⟨hplace load hload i hi, ?_⟩, ?_, ?_⟩
  · have hpages := load.segment.le_pages
    obtain ⟨-, hfits⟩ := hgranted.page load hload
    have hbyte : (load.kernelPages + BitVec.ofNat 64 i).toNat = load.kernelPages.toNat + i := by
      rw [BitVec.toNat_add, BitVec.toNat_ofNat]
      omega
    rw [hbyte, h.bytes load hload i hi]
  · intro load hload i hi
    exact ⟨_, h.walk hfit hload hi rfl, permits_pageEntry _ _⟩
  · intro load hload load' hload' i hi j hj
    exact hplace.alone hgranted hload hload' hi hj

/-! ## Where they do not -/

/-- Only 48 bits of an address are translated. -/
theorem translate_congr {y : Word} (h : x.toNat % 2 ^ 48 = y.toNat % 2 ^ 48) :
    v.vmapVirtualToPhysical x = v.vmapVirtualToPhysical y := by
  have hnumber : pageNumber x = pageNumber y := by
    unfold pageNumber
    rw [h]
  have hlow {n : Nat} (hn : n ≤ 48) : x &&& Bits.low 64 n = y &&& Bits.low 64 n := by
    apply BitVec.eq_of_toNat_eq
    rw [Bits.toNat_and_low (by omega), Bits.toNat_and_low (by omega)]
    have hdvd := Nat.pow_dvd_pow 2 hn
    rw [← Nat.mod_mod_of_dvd x.toNat hdvd, h, Nat.mod_mod_of_dvd _ hdvd]
  have hoffset d : x &&& (leafSize d - 1) = y &&& (leafSize d - 1) := by
    unfold leafSize
    split
    · exact hlow (n := 30) (by decide)
    · exact hlow (n := 21) (by decide)
    · exact hlow (n := 12) (by decide)
  rw [vmapVirtualToPhysical_eq, vmapVirtualToPhysical_eq, path_eq_iff.mpr hnumber]
  unfold stopAddress
  split
  · rw [hoffset]
  · rfl

/-- Pages of one number are translated alike, so the numbers differ. -/
theorem InPlace.distinct (h : InPlace loads v) (hgranted : Granted loads v')
    (haligned : ∀ load ∈ loads, load.segment.imageStart.toNat % 4096 = 0) :
    ((loads.map (·.segment)).flatMap KernelElfSegment.pageNumbers).Nodup := by
  have hunique {load load' i j} (hload : load ∈ loads) (hload' : load' ∈ loads)
      (hi : i < load.segment.numPages) (hj : j < load'.segment.numPages)
      (hnumber : pageNumber (pageAt load.segment.imageStart i) =
        pageNumber (pageAt load'.segment.imageStart j)) : load = load' ∧ i = j := by
    refine h.alone hgranted hload hload' hi hj (translate_congr ?_)
    have hbase := haligned load hload
    have hbase' := haligned load' hload'
    unfold pageNumber at hnumber
    rw [pageAt_toNat, pageAt_toNat] at hnumber ⊢
    omega
  rw [List.flatMap_map, List.nodup_flatMap]
  constructor
  · intro load hload
    refine List.nodup_range.map_on fun i hi j hj hnumber => ?_
    exact (hunique hload hload (List.mem_range.mp hi) (List.mem_range.mp hj) hnumber).2
  · refine hgranted.apart.imp_of_mem fun {load load'} hload hload' hapart => ?_
    intro number hmem hmem'
    obtain ⟨i, hi, rfl⟩ := List.mem_map.mp hmem
    obtain ⟨j, hj, hnumber⟩ := List.mem_map.mp hmem'
    have hi := List.mem_range.mp hi
    obtain ⟨rfl, -⟩ := hunique hload hload' hi (List.mem_range.mp hj) hnumber.symm
    have hholds : load.Holds (load.kernelPages.toNat + 4096 * i) := ⟨by omega, by omega⟩
    exact hapart _ hholds hholds

/-- Page 2^19 of a large segment is entered by no call for that segment,
whose offset is negative there, so the call is one for another segment, a
large one too, whose pages are up to 4 GiB further. -/
theorem Loaded.next (h : Loaded file loads v v') (hnew : NewTable v) (hplace : InPlace loads v')
    (hgranted : Granted loads v)
    (haligned : ∀ load ∈ loads, load.segment.imageStart.toNat % 4096 = 0) (hload : load ∈ loads)
    (hlarge : 2 ^ 19 < load.segment.numPages) :
    ∃ load' ∈ loads, 2 ^ 19 < load'.segment.numPages ∧ ∃ step, 0 < step ∧ step ≤ 2 ^ 32 ∧
      (load.kernelPages.toNat + step) % 2 ^ 48 = load'.kernelPages.toNat := by
  have htarget := hplace.page hload hlarge
  obtain ⟨hkernel, hfits⟩ := hgranted.page load hload
  rcases h.walks (pageAt load.segment.imageStart (2 ^ 19)) with
    ⟨load', hload', m, hm, hnumber, hwalk⟩ | ⟨-, hwalk⟩
  · obtain ⟨j, hj, rfl⟩ := List.mem_map.mp hm
    have hj := List.mem_range'_1.mp hj
    change pageNumber (load'.segment.imageStart + granules j) = _ at hnumber
    change v'.walk _ = .leaf 3 (pageEntry (load'.kernelPages + granules j) _) at hwalk
    obtain ⟨hkernel', hfits'⟩ := hgranted.page load' hload'
    have hoffset := granules_toNat j
    by_cases hlow : j % 2 ^ 20 < 2 ^ 19
    · rw [add_granules hlow] at hnumber
      obtain ⟨-, hpage⟩ := page_unique (hplace.distinct hgranted haligned) hload' hload (by omega)
        hlarge hnumber
      omega
    · rw [if_neg hlow] at hoffset
      rw [translate_of_walk (segmentPageFlags_attributes _) hwalk] at htarget
      have hsame := congrArg BitVec.toNat (Option.some.inj htarget)
      have hframe := frame_toNat (load'.kernelPages + granules j)
      have hbase := haligned load hload
      rw [BitVec.toNat_add, pageOffset_toNat, pageAt_toNat, pageAt_toNat] at hsame
      rw [BitVec.toNat_add, hoffset] at hframe
      refine ⟨load', hload', by omega, 2 ^ 31 + (2 ^ 32 - 4096 * (j % 2 ^ 20)), by omega, by omega,
        ?_⟩
      omega
  · rw [hnew.walk] at hwalk
    rw [vmapVirtualToPhysical_eq, hwalk] at htarget
    cases htarget

/-- So large segments would have to go all the way round, and there are too
few segments for that. -/
theorem Loaded.small (h : Loaded file loads v v') (hnew : NewTable v) (hplace : InPlace loads v')
    (hgranted : Granted loads v)
    (haligned : ∀ load ∈ loads, load.segment.imageStart.toNat % 4096 = 0)
    (hcount : loads.length < 2 ^ 8) (hload : load ∈ loads) : load.segment.numPages ≤ 2 ^ 19 := by
  by_contra hlarge
  let large := loads.filter fun load => 2 ^ 19 < load.segment.numPages
  have hsteps : Circle.StepsOn (large.map (·.kernelPages.toNat)) (2 ^ 48) (2 ^ 32) := by
    intro x hx
    obtain ⟨load, hmem, rfl⟩ := List.mem_map.mp hx
    obtain ⟨hload, hlarge⟩ := List.mem_filter.mp hmem
    obtain ⟨load', hload', hlarge', step, hpos, hle, hnext⟩ :=
      h.next hnew hplace hgranted haligned hload (of_decide_eq_true hlarge)
    refine ⟨step, hpos, hle, List.mem_map.mpr ⟨load', ?_, hnext.symm⟩⟩
    exact List.mem_filter.mpr ⟨hload', decide_eq_true hlarge'⟩
  have hfits := (hgranted.page load hload).2
  have hstart : load.kernelPages.toNat % 2 ^ 48 ∈ large.map (·.kernelPages.toNat) := by
    rw [Nat.mod_eq_of_lt (by omega)]
    exact List.mem_map_of_mem (List.mem_filter.mpr ⟨hload, decide_eq_true (by omega)⟩)
  have hlength := hsteps.le_length hstart
  rw [List.length_map] at hlength
  have hfew : large.length ≤ loads.length := List.length_filter_le ..
  omega

end

/-! ## `kernel_loader_load` -/

/-- Where `kernel_loader_load` starts: a new table, and pages that no one
else has. The image starts at page boundaries, and no segment is larger in
the file than in memory, as `kernel_elf_parse_info` makes sure. -/
structure Ready (s : Loader) (segments : List KernelElfSegment) : Prop where
  table : NewTable s.table
  granted : Granted (loadsOf segments s.kernelPages) s.table
  aligned : ∀ segment ∈ segments, segment.imageStart.toNat % 4096 = 0
  sizes : ∀ segment ∈ segments,
    segment.loadableSegmentFileSize ≤ segment.loadableSegmentMemorySize

/-- The segments that are loaded. -/
def KernelElfInfo.used (info : KernelElfInfo) : List KernelElfSegment :=
  info.segments.take info.numSegments.toNat

/-- After `kernel_loader_load` has returned 0, the kernel is in its place
just if its segments fit. -/
theorem kernelLoaderLoad_faithful_iff (file : Buffer) (info : KernelElfInfo) (s s' : Loader)
    (hready : Ready s info.used) (hcall : kernelLoaderLoad file info s = (some (), s')) :
    Faithful file (loadsOf info.used s.kernelPages) s'.table ↔ SegmentsFit info.used := by
  obtain ⟨hnew, hgranted, haligned, hsizes⟩ := hready
  obtain ⟨hsegments, hloaded⟩ := loadSegments_loaded hnew.table hsizes hgranted hcall
  have hstarts load (hload : load ∈ loadsOf info.used s.kernelPages) :
      load.segment.imageStart.toNat % 4096 = 0 :=
    haligned _ (hsegments ▸ List.mem_map_of_mem hload)
  constructor
  · intro h
    have hplace : InPlace (loadsOf info.used s.kernelPages) s'.table :=
      fun load hload i hi => (h.bytes load hload i hi).1
    have hcount : (loadsOf info.used s.kernelPages).length < 2 ^ 8 := by
      have hlength := congrArg List.length hsegments
      rw [List.length_map] at hlength
      have htake : info.used.length ≤ info.numSegments.toNat := List.length_take_le ..
      have hlt := info.numSegments.isLt
      omega
    constructor
    · intro segment hsegment
      obtain ⟨load, hload, rfl⟩ := List.mem_map.mp (hsegments ▸ hsegment)
      exact hloaded.small hnew hplace hgranted hstarts hcount hload
    · rw [← hsegments]
      exact hplace.distinct hgranted hstarts
  · intro hfit
    exact hloaded.faithful hgranted hstarts (hsegments.symm ▸ hfit)

/-! ## One segment -/

/-- The page at `2 ^ 36 + 4096 * k`. -/
def tablePage (k : Nat) : Word := BitVec.ofNat 64 (2 ^ 36 + 4096 * k)

/-- Memory for a segment at 1 TiB, and pages for some tables. -/
def loaderAt1TiB (tables : Nat) : Loader where
  table :=
    { rootPageTable := 0x1000
      memory := fun _ => 0
      answers := (List.range tables).map tablePage
      obtained := [0x1000]
      stored := [] }
  kernelPages := [some 0x10000000000]

def oneSegment (segment : KernelElfSegment) : KernelElfInfo := ⟨segment.imageStart, 1, [segment]⟩

section
variable {tables k : Nat} {page : Word} {segment : KernelElfSegment}

theorem tablePage_toNat (hk : k < 2 ^ 24) : (tablePage k).toNat = 2 ^ 36 + 4096 * k := by
  unfold tablePage
  rw [BitVec.toNat_ofNat]
  omega

/-- The answers for tables. -/
theorem mem_answers (htables : tables ≤ 2 ^ 24) (h : page ∈ (loaderAt1TiB tables).table.answers) :
    ∃ k < 2 ^ 24, page.toNat = 2 ^ 36 + 4096 * k := by
  obtain ⟨k, hk, rfl⟩ := List.mem_map.mp h
  have hk := List.mem_range.mp hk
  exact ⟨k, by omega, tablePage_toNat (by omega)⟩

theorem loaderAt1TiB_answers (htables : tables ≤ 2 ^ 24) :
    FreshAnswers (loaderAt1TiB tables).table where
  page page hpage _ := by
    obtain ⟨k, hk, htoNat⟩ := mem_answers htables hpage
    refine ⟨⟨?_, by omega, by omega⟩, ?_⟩
    · rintro rfl
      have hzero : (0 : Word).toNat = 0 := rfl
      omega
    · intro hobtained
      have hroot : page = 0x1000 := List.mem_singleton.mp hobtained
      have hrootNat : (0x1000 : Word).toNat = 0x1000 := rfl
      rw [hroot, hrootNat] at htoNat
      omega
  once := by
    refine List.Nodup.filter _ (List.nodup_range.map_on fun i hi j hj hsame => ?_)
    have hi := List.mem_range.mp hi
    have hj := List.mem_range.mp hj
    have htoNat := congrArg BitVec.toNat hsame
    rw [tablePage_toNat (by omega), tablePage_toNat (by omega)] at htoNat
    omega

theorem loaderAt1TiB_ready (htables : tables ≤ 2 ^ 24) (hpages : segment.numPages ≤ 2 ^ 20)
    (haligned : segment.imageStart.toNat % 4096 = 0)
    (hsize : segment.loadableSegmentFileSize ≤ segment.loadableSegmentMemorySize) :
    Ready (loaderAt1TiB tables) (oneSegment segment).used := by
  have hkernel : (0x10000000000 : Word).toNat = 2 ^ 40 := rfl
  refine ⟨?_, ⟨?_, List.pairwise_singleton .., ?_⟩, ?_, ?_⟩
  · exact
      { page := ⟨(by decide : (0x1000 : Word) ≠ 0), (by decide : (0x1000 : Word).toNat % 4096 = 0),
          (by decide : (0x1000 : Word).toNat < 2 ^ 48)⟩
        obtained := rfl
        cleared := fun _ => rfl
        answers := loaderAt1TiB_answers htables }
  · intro load hload
    cases List.mem_singleton.mp hload
    refine ⟨(by decide : (0x10000000000 : Word).toNat % 4096 = 0), ?_⟩
    show (0x10000000000 : Word).toNat + 4096 * segment.numPages ≤ 2 ^ 48
    omega
  · rintro load hload page htable address ⟨hlo, hhi⟩ ⟨hin, -⟩
    cases List.mem_singleton.mp hload
    change (0x10000000000 : Word).toNat ≤ address at hin
    rcases htable with hobtained | ⟨hanswer, -⟩
    · have hroot : page = 0x1000 := List.mem_singleton.mp hobtained
      have hrootNat : (0x1000 : Word).toNat = 0x1000 := rfl
      rw [hroot] at hhi
      omega
    · obtain ⟨k, hk, htoNat⟩ := mem_answers htables hanswer
      omega
  · intro other hother
    cases List.mem_singleton.mp hother
    exact haligned
  · intro other hother
    cases List.mem_singleton.mp hother
    exact hsize

end

section
variable {v : Vmap} {physicalAddress virtualAddress pageFlags : Word} {i n tables : Nat}
  {segment : KernelElfSegment}

/-- With four pages for each call, all calls return. -/
theorem mapPages_returns (physicalAddress virtualAddress pageFlags : Word) (i : Nat)
    (h : HasPages (4 * n) v) (htable : Table v) :
    ∃ v', mapPages physicalAddress virtualAddress pageFlags i n v = (some (), v') := by
  induction n generalizing i v with
  | zero => exact ⟨v, rfl⟩
  | succ n ih =>
    have hpages : HasPages (4 * n + 4) v := h
    rcases hcall : virtualAddrMapPage (physicalAddress + granules i) (virtualAddress + granules i)
      pageFlags v with ⟨_ | _, v₁⟩
    · rw [virtualAddrMapPage_eq htable.root] at hcall
      exact (hpages.vmapMapPage.gaveUp hcall).elim
    · have hbuilt := virtualAddrMapPage_built
        (m := pageMapping physicalAddress virtualAddress pageFlags i) htable.root
        htable.wellFormed htable.pagesOnly hcall
      have hleft := hcall
      rw [virtualAddrMapPage_eq htable.root] at hleft
      obtain ⟨v', hrest⟩ := ih (i + 1) (hpages.vmapMapPage.returned hleft)
        ⟨hbuilt.root, hbuilt.wellFormed, hbuilt.pagesOnly⟩
      exact ⟨v', bind_returned.mpr ⟨(), v₁, hcall, hrest⟩⟩

theorem loaderAt1TiB_returns (htables : tables ≤ 2 ^ 24) (hmany : 4 * segment.numPages ≤ tables)
    (hready : Ready (loaderAt1TiB tables) (oneSegment segment).used) (file : Buffer) :
    ∃ s', kernelLoaderLoad file (oneSegment segment) (loaderAt1TiB tables) = (some (), s') := by
  have hsize := hready.sizes segment (List.mem_singleton_self _)
  have htable : Table ((loaderAt1TiB tables).fill file segment 0x10000000000).table :=
    hready.table.table.fill ⟨segment, 0x10000000000⟩ hsize hready.granted
  have hpages : HasPages (4 * min segment.numPages (2 ^ 31))
      ((loaderAt1TiB tables).fill file segment 0x10000000000).table := by
    constructor
    · show 4 * min segment.numPages (2 ^ 31) ≤ ((List.range tables).map tablePage).length
      rw [List.length_map, List.length_range]
      omega
    · intro page hpage
      obtain ⟨k, hk, htoNat⟩ := mem_answers htables hpage
      rintro rfl
      have hzero : (0 : Word).toNat = 0 := rfl
      omega
  obtain ⟨v', hmap⟩ := mapPages_returns 0x10000000000 segment.imageStart
    (segmentPageFlags segment.flags) 0 hpages htable
  refine ⟨⟨v', []⟩, bind_returned.mpr ⟨(), ⟨v', []⟩, ?_, rfl⟩⟩
  refine bind_returned.mpr ⟨0x10000000000, { loaderAt1TiB tables with kernelPages := [] }, rfl, ?_⟩
  exact bind_returned.mpr ⟨(), _, rfl, onTable_returned.mpr ⟨hmap, rfl⟩⟩

end

/-- A segment of two pages, the second of which is zero. -/
def smallSegment : KernelElfSegment where
  loadableSegmentStart := 4096
  loadableSegmentMemorySize := 5000
  loadableSegmentFileSize := 1000
  imageStart := 0xFFFF800000000000
  alignment := 4096
  flags := 6

theorem smallSegment_faithful : ∃ s',
    kernelLoaderLoad .null (oneSegment smallSegment) (loaderAt1TiB 8) = (some (), s') ∧
      Faithful .null [⟨smallSegment, 0x10000000000⟩] s'.table := by
  have hready : Ready (loaderAt1TiB 8) (oneSegment smallSegment).used :=
    loaderAt1TiB_ready (by decide) (by decide) (by decide) (by decide)
  obtain ⟨s', hcall⟩ := loaderAt1TiB_returns (by decide) (by decide) hready .null
  refine ⟨s', hcall, (kernelLoaderLoad_faithful_iff _ _ _ _ hready hcall).mpr ⟨?_, by decide⟩⟩
  intro segment hsegment
  cases List.mem_singleton.mp hsegment
  decide

/-- A segment of 2 GiB and a byte, all zeros. -/
def largeSegment : KernelElfSegment where
  loadableSegmentStart := 0
  loadableSegmentMemorySize := 0x80000001
  loadableSegmentFileSize := 0
  imageStart := 0xFFFF800000000000
  alignment := 4096
  flags := 6

/-- Its last page is not mapped. -/
theorem largeSegment_unmapped : ¬∀ (file : Buffer) (info : KernelElfInfo) (s s' : Loader),
    Ready s info.used → kernelLoaderLoad file info s = (some (), s') →
    ∀ load ∈ loadsOf info.used s.kernelPages,
      ∀ i < load.segment.loadableSegmentMemorySize.toNat, ∃ physicalAddress,
      s'.table.vmapVirtualToPhysical (load.segment.imageStart + BitVec.ofNat 64 i) =
          some physicalAddress ∧
        readByte s'.table.memory physicalAddress.toNat = load.segment.byte file i := by
  intro h
  have htables : 2 ^ 24 ≤ 2 ^ 24 := Nat.le_refl _
  have hready : Ready (loaderAt1TiB (2 ^ 24)) (oneSegment largeSegment).used :=
    loaderAt1TiB_ready htables (by decide) (by decide) (by decide)
  obtain ⟨s', hcall⟩ := loaderAt1TiB_returns htables (by decide) hready .null
  obtain ⟨_, htarget, -⟩ := h .null (oneSegment largeSegment) _ s' hready hcall
    ⟨largeSegment, 0x10000000000⟩ (List.mem_singleton_self _) 0x80000000 (by decide)
  obtain ⟨hnew, hgranted, -, hsizes⟩ := hready
  obtain ⟨-, hloaded⟩ := loadSegments_loaded hnew.table hsizes hgranted hcall
  rcases hloaded.walks (largeSegment.imageStart + BitVec.ofNat 64 0x80000000) with
    ⟨load, hload, m, hm, hnumber, -⟩ | ⟨-, hwalk⟩
  · cases List.mem_singleton.mp hload
    obtain ⟨j, -, rfl⟩ := List.mem_map.mp hm
    change pageNumber (largeSegment.imageStart + granules j) = _ at hnumber
    have hoffset := granules_toNat j
    have himage : largeSegment.imageStart.toNat = 0xFFFF800000000000 := rfl
    unfold pageNumber at hnumber
    rw [BitVec.toNat_add, BitVec.toNat_add, BitVec.toNat_ofNat, himage, hoffset] at hnumber
    split at hnumber <;> omega
  · rw [vmapVirtualToPhysical_eq, hwalk, hnew.walk] at htarget
    cases htarget

end ZOs.Boot
