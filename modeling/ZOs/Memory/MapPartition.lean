import Mathlib.Order.Interval.Set.Disjoint
import ZOs.Memory.MapReserve

/-!
# The boot memory map is a partition

`mmap_build_memory_map` appends the same pieces of a descriptor whatever
came before it (`pieces`). Where both regions are at the start of
descriptors the pieces tile the descriptor, so the whole map tiles the EFI
map; a stranded page table region is covered twice.
-/

namespace ZOs.BootMap

open PageAlloc
open BlockAllocator (add64 sub64)

/-! ## What the second pass appends -/

/-- `memory_start` and `number_of_pages` behind a region that may have been
split off. -/
def cut (contains : Bool) (size : Nat) (part : Nat × Nat) : Nat × Nat :=
  if contains then (add64 part.1 size, sub64 part.2 (size / efiPageSize)) else part

/-- The entry of a region that may have been split off. -/
def regionEntry (contains : Bool) (regionStart size : Nat) : List MemoryDescriptor :=
  if contains then [⟨regionStart, size / efiPageSize, .reserved⟩] else []

/-- The entries of one EFI descriptor. -/
def pieces (s : Allocators) (d : EfiMemoryDescriptor) : List MemoryDescriptor :=
  if efiMemoryMapIsUsable d then
    let inKernelMap := containsRegion d s.kernelMemoryMap
    let inPageTable := containsRegion d s.pageTable
    let left := cut inPageTable pageTableReservedSize
      (cut inKernelMap mmapMemoryMapReservedSize (d.physicalStartAddress, d.numberOfPages))
    regionEntry inKernelMap s.kernelMemoryMap.memoryStart mmapMemoryMapReservedSize ++
      (regionEntry inPageTable s.pageTable.memoryStart pageTableReservedSize ++
        [⟨left.1, left.2, .usable⟩])
  else [⟨d.physicalStartAddress, d.numberOfPages, .reserved⟩]

/-- The allocators were given the same region. -/
def SameRegion (a b : BumpAllocator) : Prop :=
  a.memoryStart = b.memoryStart ∧ a.memoryEnd = b.memoryEnd

section Appends

variable {m m' : KernelMemoryMap} {s : Allocators} {efi : List EfiMemoryDescriptor}
  {d : EfiMemoryDescriptor} {start n : Nat}

theorem mmapNewMemoryMapEntry_spec {type : MemoryType}
    (h : mmapNewMemoryMapEntry m start n type = some m') :
    m'.entries = m.entries ++ [⟨start, n, type⟩] ∧ SameRegion m'.allocator m.allocator := by
  simp only [mmapNewMemoryMapEntry, BumpAllocator.allocate] at h
  split at h
  case h_1 => cases h
  case h_2 hallocate =>
    split at hallocate
    · cases hallocate
    · obtain ⟨-, rfl⟩ := Prod.mk.inj (Option.some.inj hallocate)
      obtain rfl := Option.some.inj h
      exact ⟨rfl, rfl, rfl⟩

theorem splitOff_spec {contains : Bool} {regionStart size start' n' : Nat}
    (h : splitOff contains regionStart size m start n = some (m', start', n')) :
    m'.entries = m.entries ++ regionEntry contains regionStart size ∧
      SameRegion m'.allocator m.allocator ∧ (start', n') = cut contains size (start, n) := by
  cases contains with
  | false =>
    obtain ⟨rfl, rfl, rfl⟩ : m = m' ∧ start = start' ∧ n = n' := by simpa [splitOff] using h
    exact ⟨by simp [regionEntry], ⟨rfl, rfl⟩, rfl⟩
  | true =>
    simp only [splitOff, if_true] at h
    split at h
    case h_1 => cases h
    case h_2 hentry =>
      obtain ⟨rfl, hcut⟩ := Prod.mk.inj (Option.some.inj h)
      obtain ⟨hentries, hsame⟩ := mmapNewMemoryMapEntry_spec hentry
      exact ⟨hentries, hsame, hcut.symm⟩

theorem pieces_congr {a : BumpAllocator} (h : SameRegion a s.kernelMemoryMap) :
    pieces ⟨a, s.pageTable⟩ d = pieces s d := by
  simp only [pieces, containsRegion, h.1, h.2]

/-- The loop body appends the pieces of its descriptor. -/
theorem buildEntries_spec (hm : SameRegion m.allocator s.kernelMemoryMap)
    (h : buildEntries s.pageTable d m = some m') :
    m'.entries = m.entries ++ pieces s d ∧ SameRegion m'.allocator s.kernelMemoryMap := by
  rw [← pieces_congr hm]
  simp only [buildEntries] at h
  split at h
  case isTrue husable =>
    split at h
    case h_1 => cases h
    case h_2 m₁ start₁ n₁ hkernel =>
      obtain ⟨hentries₁, hsame₁, hcut₁⟩ := splitOff_spec hkernel
      split at h
      case h_1 => cases h
      case h_2 m₂ start₂ n₂ hpage =>
        obtain ⟨hentries₂, hsame₂, hcut₂⟩ := splitOff_spec hpage
        obtain ⟨hentries, hsame⟩ := mmapNewMemoryMapEntry_spec h
        constructor
        · simp only [pieces, husable, if_true, ← hcut₁, ← hcut₂]
          rw [hentries, hentries₂, hentries₁]
          simp only [List.append_assoc]
        · exact ⟨hsame.1.trans (hsame₂.1.trans (hsame₁.1.trans hm.1)),
            hsame.2.trans (hsame₂.2.trans (hsame₁.2.trans hm.2))⟩
  case isFalse hunusable =>
    obtain ⟨hentries, hsame⟩ := mmapNewMemoryMapEntry_spec h
    refine ⟨by rw [hentries, pieces, if_neg hunusable], hsame.1.trans hm.1, hsame.2.trans hm.2⟩

theorem buildLoop_entries (hm : SameRegion m.allocator s.kernelMemoryMap)
    (h : buildLoop s.pageTable m efi = some m') :
    m'.entries = m.entries ++ efi.flatMap (pieces s) := by
  induction efi generalizing m with
  | nil =>
    obtain rfl : m = m' := by simpa [buildLoop] using h
    simp
  | cons d rest ih =>
    simp only [buildLoop] at h
    split at h
    case h_1 => cases h
    case h_2 m₁ hentries =>
      obtain ⟨happend, hsame⟩ := buildEntries_spec hm hentries
      rw [ih hsame h, happend, List.flatMap_cons, List.append_assoc]

/-- If the second pass succeeds, the map is the pieces of all descriptors. -/
theorem mmapBuildMemoryMap_entries (h : mmapBuildMemoryMap s efi = some m) :
    m.entries = efi.flatMap (pieces s) :=
  buildLoop_entries (m := ⟨s.kernelMemoryMap, []⟩) ⟨rfl, rfl⟩ h

end Appends

/-! ## Tilings -/

/-- The entries are pairwise disjoint and page aligned and cover `S`, the
usable ones `U`. -/
structure Tiles (es : List MemoryDescriptor) (S U : Set Nat) : Prop where
  disjoint : es.Pairwise fun d e => Disjoint d.pages e.pages
  covers : {p | ∃ e ∈ es, p ∈ e.pages} = S
  usable : usablePages es = U
  aligned : ∀ e ∈ es, e.physicalStartAddress % pageSize = 0

/-- `n` page frames from a physical address on. -/
def pagesFrom (start n : Nat) : Set Nat :=
  Set.Ico (start / pageSize) (start / pageSize + n)

section Tiles

variable {es : List MemoryDescriptor} {S U : Set Nat} {start n : Nat}

theorem tiles_usable (h : start % pageSize = 0) :
    Tiles [⟨start, n, .usable⟩] (pagesFrom start n) (pagesFrom start n) where
  disjoint := List.pairwise_singleton _ _
  covers := by ext p; simp [MemoryDescriptor.pages, pagesFrom]
  usable := by ext p; simp [usablePages, MemoryDescriptor.pages, pagesFrom]
  aligned := by simpa using h

theorem tiles_reserved (h : start % pageSize = 0) :
    Tiles [⟨start, n, .reserved⟩] (pagesFrom start n) ∅ where
  disjoint := List.pairwise_singleton _ _
  covers := by ext p; simp [MemoryDescriptor.pages, pagesFrom]
  usable := by simp [usablePages]
  aligned := by simpa using h

/-- A reserved entry in front of a tiling. -/
theorem Tiles.reserve (h : Tiles es S U) (haligned : start % pageSize = 0)
    (hnew : Disjoint (pagesFrom start n) S) :
    Tiles (⟨start, n, .reserved⟩ :: es) (pagesFrom start n ∪ S) U where
  disjoint := by
    refine List.pairwise_cons.mpr ⟨fun e he => hnew.mono_right ?_, h.disjoint⟩
    rw [← h.covers]
    exact fun p hp => ⟨e, he, hp⟩
  covers := by
    rw [← h.covers]
    ext p
    simp [MemoryDescriptor.pages, pagesFrom]
  usable := by simp [usablePages_cons, h.usable]
  aligned := by simpa [haligned] using h.aligned

/-- Tilings of sets that are pairwise disjoint, one behind the other. -/
theorem tiles_flatMap {ι : Type*} {l : List ι} {f : ι → List MemoryDescriptor} {S U : ι → Set Nat}
    (hdisj : l.Pairwise fun i j => Disjoint (S i) (S j)) (h : ∀ i ∈ l, Tiles (f i) (S i) (U i)) :
    Tiles (l.flatMap f) {p | ∃ i ∈ l, p ∈ S i} {p | ∃ i ∈ l, p ∈ U i} where
  disjoint := by
    refine List.pairwise_flatMap.mpr ⟨fun i hi => (h i hi).disjoint, ?_⟩
    refine hdisj.imp_of_mem fun {i j} hi hj hij e he e' he' => hij.mono ?_ ?_
    · rw [← (h i hi).covers]
      exact fun p hp => ⟨e, he, hp⟩
    · rw [← (h j hj).covers]
      exact fun p hp => ⟨e', he', hp⟩
  covers := by
    ext p
    simp only [List.mem_flatMap, Set.mem_ofPred_eq]
    constructor
    · rintro ⟨e, ⟨i, hi, he⟩, hp⟩
      exact ⟨i, hi, by rw [← (h i hi).covers]; exact ⟨e, he, hp⟩⟩
    · rintro ⟨i, hi, hp⟩
      rw [← (h i hi).covers] at hp
      obtain ⟨e, he, hp⟩ := hp
      exact ⟨e, ⟨i, hi, he⟩, hp⟩
  usable := by
    ext p
    simp only [usablePages, List.mem_flatMap, Set.mem_ofPred_eq]
    constructor
    · rintro ⟨e, ⟨i, hi, he⟩, htype, hp⟩
      exact ⟨i, hi, by rw [← (h i hi).usable]; exact ⟨e, he, htype, hp⟩⟩
    · rintro ⟨i, hi, hp⟩
      rw [← (h i hi).usable] at hp
      obtain ⟨e, he, htype, hp⟩ := hp
      exact ⟨e, ⟨i, hi, he⟩, htype, hp⟩
  aligned := by
    intro e he
    obtain ⟨i, hi, he⟩ := List.mem_flatMap.mp he
    exact (h i hi).aligned e he

theorem Tiles.of_eq {S' U' : Set Nat} (h : Tiles es S U) (hS : ∀ p, p ∈ S ↔ p ∈ S')
    (hU : ∀ p, p ∈ U ↔ p ∈ U') : Tiles es S' U' := by
  rwa [Set.ext hS, Set.ext hU] at h

end Tiles

/-! ## The pieces of one descriptor -/

section Pieces

variable {efi : List EfiMemoryDescriptor} {s : Allocators} {d e : EfiMemoryDescriptor}
  {a : BumpAllocator} {start k : Nat}

/-- A region of `k` pages, as page frames. -/
theorem BumpAllocator.At.pages (h : a.At start (4096 * k)) : a.pages = pagesFrom start k := by
  ext p
  simp only [BumpAllocator.pages, pagesFrom, h.memoryStart, h.memoryEnd, efiPageSize, pageSize,
    Set.mem_Ico]
  omega

theorem containsRegion_iff (hwf : WellFormedEfi efi) (hd : d ∈ efi) {size : Nat}
    (h : a.At start size) :
    containsRegion d a = true ↔ d.physicalStartAddress ≤ start ∧
      start + size ≤ d.physicalStartAddress + d.numberOfPages * 4096 := by
  have hend := hwf.noWrap d hd
  simp only [containsRegion, memorySize_eq hend, Bool.and_eq_true, decide_eq_true_eq,
    h.memoryStart, h.memoryEnd]
  simp only [efiPageSize] at hend
  rw [add64, Nat.mod_eq_of_lt hend]

/-- A region inside a descriptor is in no other. -/
theorem containsRegion_eq_false (hwf : WellFormedEfi efi) (hd : d ∈ efi)
    (h : a.At start (4096 * k)) (hk : 0 < k) (hin : pagesFrom start k ⊆ e.pages)
    (hdisj : Disjoint d.pages e.pages) : containsRegion d a = false := by
  rw [← Bool.not_eq_true, containsRegion_iff hwf hd h]
  rintro ⟨hstart, hend⟩
  have hfirst : start / pageSize ∈ d.pages := by
    simp only [EfiMemoryDescriptor.pages, efiPageSize, pageSize, Set.mem_Ico]
    omega
  exact Set.disjoint_left.mp hdisj hfirst (hin ⟨le_rfl, by omega⟩)

/-- A descriptor with neither region is one usable entry. -/
theorem pieces_neither (hwf : WellFormedEfi efi) (hd : d ∈ efi)
    (husable : efiMemoryMapIsUsable d = true)
    (hkernel : containsRegion d s.kernelMemoryMap = false)
    (hpage : containsRegion d s.pageTable = false)
    (hdisj : Disjoint d.pages (s.kernelMemoryMap.pages ∪ s.pageTable.pages)) :
    Tiles (pieces s d) d.pages (d.pages \ (s.kernelMemoryMap.pages ∪ s.pageTable.pages)) := by
  have hpieces : pieces s d = [⟨d.physicalStartAddress, d.numberOfPages, .usable⟩] := by
    simp [pieces, husable, hkernel, hpage, regionEntry, cut]
  rw [hpieces, sdiff_eq_left.mpr hdisj]
  exact tiles_usable (hwf.aligned d hd)

/-- Behind a region of `k` pages that was split off. -/
theorem cut_true (hwf : WellFormedEfi efi) (hd : d ∈ efi) {j k : Nat}
    (hle : j + k ≤ d.numberOfPages) :
    cut true (4096 * k) (d.physicalStartAddress + 4096 * j, d.numberOfPages - j) =
      (d.physicalStartAddress + 4096 * (j + k), d.numberOfPages - (j + k)) := by
  have hend := hwf.noWrap d hd
  simp only [efiPageSize] at hend
  have hstart : add64 (d.physicalStartAddress + 4096 * j) (4096 * k) =
      d.physicalStartAddress + 4096 * (j + k) := by
    rw [add64, Nat.mod_eq_of_lt (by omega)]
    omega
  have hcount : sub64 (d.numberOfPages - j) (4096 * k / efiPageSize) =
      d.numberOfPages - (j + k) := by
    simp only [sub64, efiPageSize]
    omega
  simp only [cut, if_true, hstart, hcount]

/-- A region at the start of a descriptor, split off alone. -/
theorem tiles_split (hwf : WellFormedEfi efi) (hd : d ∈ efi) (hle : k ≤ d.numberOfPages) :
    Tiles [⟨d.physicalStartAddress, k, .reserved⟩,
        ⟨d.physicalStartAddress + 4096 * k, d.numberOfPages - k, .usable⟩]
      d.pages (d.pages \ pagesFrom d.physicalStartAddress k) := by
  have haligned := hwf.aligned d hd
  simp only [efiPageSize] at haligned
  refine ((tiles_usable ?_).reserve haligned ?_).of_eq (fun p => ?_) (fun p => ?_)
  · simp only [pageSize]
    omega
  · refine Set.disjoint_left.mpr fun p hp hp' => ?_
    simp only [pagesFrom, pageSize, Set.mem_Ico] at hp hp'
    omega
  all_goals
    simp only [pagesFrom, EfiMemoryDescriptor.pages, pageSize, efiPageSize, Set.mem_union,
      Set.mem_sdiff, Set.mem_Ico]
    omega

/-- Two regions split off, the second behind the first. -/
theorem tiles_split_twice (hwf : WellFormedEfi efi) (hd : d ∈ efi) {j k : Nat}
    (hle : j + k ≤ d.numberOfPages) :
    Tiles [⟨d.physicalStartAddress, j, .reserved⟩,
        ⟨d.physicalStartAddress + 4096 * j, k, .reserved⟩,
        ⟨d.physicalStartAddress + 4096 * (j + k), d.numberOfPages - (j + k), .usable⟩]
      d.pages
      (d.pages \ (pagesFrom d.physicalStartAddress j ∪
        pagesFrom (d.physicalStartAddress + 4096 * j) k)) := by
  have haligned := hwf.aligned d hd
  simp only [efiPageSize] at haligned
  refine (((tiles_usable ?_).reserve ?_ ?_).reserve haligned ?_).of_eq (fun p => ?_) (fun p => ?_)
  · simp only [pageSize]
    omega
  · simp only [pageSize]
    omega
  · refine Set.disjoint_left.mpr fun p hp hp' => ?_
    simp only [pagesFrom, pageSize, Set.mem_Ico] at hp hp'
    omega
  · refine Set.disjoint_left.mpr fun p hp hp' => ?_
    simp only [pagesFrom, pageSize, Set.mem_union, Set.mem_Ico] at hp hp'
    omega
  all_goals
    simp only [pagesFrom, EfiMemoryDescriptor.pages, pageSize, efiPageSize, Set.mem_union,
      Set.mem_sdiff, Set.mem_Ico]
    omega

/-- The memory map region at the start, the page table region elsewhere. -/
theorem pieces_kernelMap (hwf : WellFormedEfi efi) (hd : d ∈ efi) (hoffers : d.Offers 256)
    (hkernel : s.kernelMemoryMap.At d.physicalStartAddress (2 ^ 20))
    (hpage : containsRegion d s.pageTable = false) (hdisj : Disjoint d.pages s.pageTable.pages) :
    Tiles (pieces s d) d.pages (d.pages \ (s.kernelMemoryMap.pages ∪ s.pageTable.pages)) := by
  have hin : containsRegion d s.kernelMemoryMap = true :=
    (containsRegion_iff hwf hd hkernel).mpr ⟨le_rfl, by have := hoffers.2; omega⟩
  have hcut := cut_true hwf hd (j := 0) (k := 256) (by simpa using hoffers.2)
  have hpieces : pieces s d = [⟨d.physicalStartAddress, 256, .reserved⟩,
      ⟨d.physicalStartAddress + 4096 * 256, d.numberOfPages - 256, .usable⟩] := by
    simpa [pieces, hoffers.1, hin, hpage, regionEntry, cut, hkernel.memoryStart,
      mmapMemoryMapReservedSize, efiPageSize] using hcut
  rw [hpieces, hkernel.pages (k := 256), Set.union_comm, ← Set.sdiff_sdiff, hdisj.sdiff_eq_left]
  exact tiles_split hwf hd hoffers.2

/-- The page table region at the start, the memory map region elsewhere. -/
theorem pieces_pageTable (hwf : WellFormedEfi efi) (hd : d ∈ efi) (hoffers : d.Offers 2048)
    (hkernel : containsRegion d s.kernelMemoryMap = false)
    (hdisj : Disjoint d.pages s.kernelMemoryMap.pages)
    (hpage : s.pageTable.At d.physicalStartAddress (2 ^ 23)) :
    Tiles (pieces s d) d.pages (d.pages \ (s.kernelMemoryMap.pages ∪ s.pageTable.pages)) := by
  have hin : containsRegion d s.pageTable = true :=
    (containsRegion_iff hwf hd hpage).mpr ⟨le_rfl, by have := hoffers.2; omega⟩
  have hcut := cut_true hwf hd (j := 0) (k := 2048) (by simpa using hoffers.2)
  have hpieces : pieces s d = [⟨d.physicalStartAddress, 2048, .reserved⟩,
      ⟨d.physicalStartAddress + 4096 * 2048, d.numberOfPages - 2048, .usable⟩] := by
    simpa [pieces, hoffers.1, hin, hkernel, regionEntry, cut, hpage.memoryStart,
      pageTableReservedSize, efiPageSize] using hcut
  rw [hpieces, hpage.pages (k := 2048), ← Set.sdiff_sdiff, hdisj.sdiff_eq_left]
  exact tiles_split hwf hd hoffers.2

/-- Both regions, the page table region behind the other. -/
theorem pieces_both (hwf : WellFormedEfi efi) (hd : d ∈ efi) (hoffers : d.Offers 2304)
    (hkernel : s.kernelMemoryMap.At d.physicalStartAddress (2 ^ 20))
    (hpage : s.pageTable.At (d.physicalStartAddress + 2 ^ 20) (2 ^ 23)) :
    Tiles (pieces s d) d.pages (d.pages \ (s.kernelMemoryMap.pages ∪ s.pageTable.pages)) := by
  have hlong := hoffers.2
  have hinKernel : containsRegion d s.kernelMemoryMap = true :=
    (containsRegion_iff hwf hd hkernel).mpr ⟨le_rfl, by omega⟩
  have hinPage : containsRegion d s.pageTable = true :=
    (containsRegion_iff hwf hd hpage).mpr ⟨by omega, by omega⟩
  have hcut₁ := cut_true hwf hd (j := 0) (k := 256) (by omega)
  have hcut₂ := cut_true hwf hd (j := 256) (k := 2048) (by omega)
  have hpieces : pieces s d = [⟨d.physicalStartAddress, 256, .reserved⟩,
      ⟨d.physicalStartAddress + 4096 * 256, 2048, .reserved⟩,
      ⟨d.physicalStartAddress + 4096 * (256 + 2048), d.numberOfPages - (256 + 2048), .usable⟩] := by
    have hleft : cut true pageTableReservedSize (cut true mmapMemoryMapReservedSize
        (d.physicalStartAddress, d.numberOfPages)) = (d.physicalStartAddress + 4096 * (256 + 2048),
          d.numberOfPages - (256 + 2048)) := by
      rw [← hcut₂]
      exact congrArg _ hcut₁
    simp only [pieces, hoffers.1, hinKernel, hinPage, hleft, if_true]
    simp [regionEntry, hkernel.memoryStart, hpage.memoryStart, mmapMemoryMapReservedSize,
      pageTableReservedSize, efiPageSize]
  rw [hpieces, hkernel.pages (k := 256), hpage.pages (k := 2048)]
  exact tiles_split_twice hwf hd hlong

theorem pagesFrom_subset {j : Nat} (hle : j + k ≤ d.numberOfPages) :
    pagesFrom (d.physicalStartAddress + 4096 * j) k ⊆ d.pages := by
  intro p hp
  simp only [pagesFrom, EfiMemoryDescriptor.pages, pageSize, efiPageSize, Set.mem_Ico] at hp ⊢
  omega

/-- Where both regions are at the start of descriptors, the pieces of every
usable descriptor tile it. -/
theorem AtStarts.pieces_tiles (h : AtStarts efi s) (hwf : WellFormedEfi efi) (hd : d ∈ efi)
    (husable : efiMemoryMapIsUsable d = true) :
    Tiles (pieces s d) d.pages (d.pages \ (s.kernelMemoryMap.pages ∪ s.pageTable.pages)) := by
  rcases h with ⟨e, he, hoffers, hkernel, hpage⟩ | ⟨e, he, f, hf, hoffers, hoffers', hef, hkernel,
    hpage⟩
  · by_cases hde : d = e
    · subst hde
      exact pieces_both hwf hd hoffers hkernel hpage
    · have hdisj := hwf.disjoint_of_mem hd he hde
      have hlong := hoffers.2
      have hkernelIn := pagesFrom_subset (d := e) (j := 0) (k := 256) (by omega)
      have hpageIn := pagesFrom_subset (d := e) (j := 256) (k := 2048) (by omega)
      refine pieces_neither hwf hd husable
        (containsRegion_eq_false hwf hd (k := 256) hkernel (by omega) hkernelIn hdisj)
        (containsRegion_eq_false hwf hd (k := 2048) hpage (by omega) hpageIn hdisj) ?_
      rw [hkernel.pages (k := 256), hpage.pages (k := 2048)]
      exact hdisj.mono_right (Set.union_subset hkernelIn hpageIn)
  · have hkernelIn := pagesFrom_subset (d := e) (j := 0) (k := 256) (by simpa using hoffers.2)
    have hpageIn := pagesFrom_subset (d := f) (j := 0) (k := 2048) (by simpa using hoffers'.2)
    have hkernelOut : Disjoint d.pages e.pages → containsRegion d s.kernelMemoryMap = false ∧
        Disjoint d.pages s.kernelMemoryMap.pages := fun hdisj =>
      ⟨containsRegion_eq_false hwf hd (k := 256) hkernel (by omega) hkernelIn hdisj,
        hkernel.pages (k := 256) ▸ hdisj.mono_right hkernelIn⟩
    have hpageOut : Disjoint d.pages f.pages → containsRegion d s.pageTable = false ∧
        Disjoint d.pages s.pageTable.pages := fun hdisj =>
      ⟨containsRegion_eq_false hwf hd (k := 2048) hpage (by omega) hpageIn hdisj,
        hpage.pages (k := 2048) ▸ hdisj.mono_right hpageIn⟩
    by_cases hde : d = e
    · subst hde
      exact pieces_kernelMap hwf hd hoffers hkernel (hpageOut hef).1 (hpageOut hef).2
    obtain ⟨hkernelNot, hkernelDisj⟩ := hkernelOut (hwf.disjoint_of_mem hd he hde)
    by_cases hdf : d = f
    · subst hdf
      exact pieces_pageTable hwf hd hoffers' hkernelNot hkernelDisj hpage
    · obtain ⟨hpageNot, hpageDisj⟩ := hpageOut (hwf.disjoint_of_mem hd hf hdf)
      exact pieces_neither hwf hd husable hkernelNot hpageNot
        (Set.disjoint_union_right.mpr ⟨hkernelDisj, hpageDisj⟩)

/-- A stranded page table region shares a page with what is left of the
descriptor at address 0. -/
theorem Stranded.overlap (h : Stranded efi s) (hwf : WellFormedEfi efi)
    (hvalid : s.kernelMemoryMap.invalid = false) :
    ¬ (efi.flatMap (pieces s)).Pairwise fun d e => Disjoint d.pages e.pages := by
  obtain ⟨d, hfirst, hzero, hlong, hpage, hkernel⟩ := h
  obtain ⟨hd, hoffers⟩ := mem_of_firstRoomy hfirst
  have hkernelNot : containsRegion d s.kernelMemoryMap = false := by
    rcases hkernel with hinvalid | ⟨e, he, ho, hdisj, hat⟩
    · rw [hvalid] at hinvalid
      cases hinvalid
    · exact containsRegion_eq_false hwf hd (k := 256) hat (by omega)
        (pagesFrom_subset (d := e) (j := 0) (by simpa using ho.2)) hdisj
  have hin : containsRegion d s.pageTable = true :=
    (containsRegion_iff hwf hd hpage).mpr ⟨by omega, by omega⟩
  have hcut := cut_true hwf hd (j := 0) (k := 2048) (by omega)
  have hpieces : pieces s d = [⟨2 ^ 20, 2048, .reserved⟩,
      ⟨4096 * 2048, d.numberOfPages - 2048, .usable⟩] := by
    simpa [pieces, hoffers.1, hin, hkernelNot, regionEntry, cut, hpage.memoryStart, hzero,
      pageTableReservedSize, efiPageSize] using hcut
  intro hpairwise
  have hd' := (List.pairwise_flatMap.mp hpairwise).1 d hd
  rw [hpieces, List.pairwise_pair] at hd'
  refine Set.disjoint_left.mp hd' (?_ : 2048 ∈ _) ?_
  all_goals
    simp only [MemoryDescriptor.pages, pageSize, Set.mem_Ico]
    omega

end Pieces

/-! ## The whole map -/

section Whole

variable {efi : List EfiMemoryDescriptor} {s : Allocators} {m : KernelMemoryMap}

theorem AtStarts.tiles (h : AtStarts efi s) (hwf : WellFormedEfi efi) :
    Tiles (efi.flatMap (pieces s)) {p | ∃ d ∈ efi, p ∈ d.pages}
      ({p | ∃ d ∈ efi, efiMemoryMapIsUsable d = true ∧ p ∈ d.pages} \
        (s.kernelMemoryMap.pages ∪ s.pageTable.pages)) := by
  refine (tiles_flatMap (U := fun d => {p | efiMemoryMapIsUsable d = true ∧ p ∈ d.pages} \
    (s.kernelMemoryMap.pages ∪ s.pageTable.pages)) hwf.disjoint fun d hd => ?_).of_eq
      (fun p => Iff.rfl) fun p => ?_
  · by_cases husable : efiMemoryMapIsUsable d = true
    · refine (h.pieces_tiles hwf hd husable).of_eq (fun p => Iff.rfl) fun p => ?_
      simp [husable]
    · have hpieces : pieces s d = [⟨d.physicalStartAddress, d.numberOfPages, .reserved⟩] := by
        simp [pieces, husable]
      rw [hpieces]
      refine (tiles_reserved (hwf.aligned d hd)).of_eq (fun p => Iff.rfl) fun p => ?_
      simp [husable]
  · simp only [Set.mem_sdiff, Set.mem_ofPred_eq]
    constructor
    · rintro ⟨d, hd, hp, hnot⟩
      exact ⟨⟨d, hd, hp⟩, hnot⟩
    · rintro ⟨⟨d, hd, hp⟩, hnot⟩
      exact ⟨d, hd, hp, hnot⟩

/-- A tiling of pages that do not wrap is a map the page allocator manages,
if it initialises from it. -/
theorem Tiles.wellFormedMap {es : List MemoryDescriptor} {U : Set Nat}
    (h : Tiles es {p | ∃ d ∈ efi, p ∈ d.pages} U) (hwf : WellFormedEfi efi)
    {nextPage : Nat → Nat} {result : Int} {a : PageAllocator}
    (hinit : pageAllocInit nextPage es = some (result, a)) : WellFormedMap es where
  aligned e he _ := h.aligned e he
  disjoint := h.disjoint.imp fun hde _ _ => hde
  window e he htype := by
    have hshort : e.numberOfPages < 2 ^ 63 := by
      by_contra hlong
      have hp : e.physicalStartAddress / pageSize + (2 ^ 63 - 1) ∈ e.pages := ⟨by omega, by omega⟩
      have hin : e.physicalStartAddress / pageSize + (2 ^ 63 - 1) ∈
          {p | ∃ d ∈ efi, p ∈ d.pages} := by
        rw [← h.covers]
        exact ⟨e, he, hp⟩
      obtain ⟨d, hd, hpd⟩ := hin
      have hend := hwf.noWrap d hd
      simp only [EfiMemoryDescriptor.pages, efiPageSize, pageSize, Set.mem_Ico] at hpd hend
      omega
    have hwin := initDescriptors_window hinit e he htype hshort
    have haligned := h.aligned e he
    simp only [pageSize, windowPages, mmapPhysicalRegionSize] at hwin haligned ⊢
    omega

theorem AtStarts.mapsMemory (h : AtStarts efi s) (hwf : WellFormedEfi efi) :
    MapsMemory efi s (efi.flatMap (pieces s)) where
  disjoint := (h.tiles hwf).disjoint
  covers := (h.tiles hwf).covers
  usable := (h.tiles hwf).usable
  handedOut := by
    intro dm a allocated run block hblock p hp
    obtain ⟨nextPage, result, a₀, hinit⟩ := run.started
    obtain ⟨free, hinv⟩ := run.inv ((h.tiles hwf).wellFormedMap hwf hinit)
    have husable := hinv.mem_usable (List.mem_append_right _ hblock) hp
    rw [(h.tiles hwf).usable] at husable
    exact husable.2

/-- If both passes succeed on a well formed EFI map, the kernel memory map
is what it should be unless the page table region is stranded. -/
theorem bootMap_partition_iff (hwf : WellFormedEfi efi) (hreserve : mmapReserveMemory efi = some s)
    (hbuild : mmapBuildMemoryMap s efi = some m) :
    MapsMemory efi s m.entries ↔ ¬ StrandsPageTables efi := by
  rw [mmapBuildMemoryMap_entries hbuild]
  rcases mmapReserveMemory_spec hwf hreserve with ⟨hstarts, hnot⟩ | ⟨hstranded, hvalid⟩
  · exact ⟨fun _ => hnot, fun _ => hstarts.mapsMemory hwf⟩
  · have hstrands : StrandsPageTables efi := by
      obtain ⟨d, hfirst, hzero, hlong, _⟩ := hstranded
      exact ⟨d, hfirst, hzero, hlong⟩
    exact ⟨fun h => absurd h.disjoint (hstranded.overlap hwf hvalid), fun h => absurd hstrands h⟩

end Whole

/-! ## Two machines -/

/-- Memory from address 0 up, with an unusable page in front. -/
def lowMemory : List EfiMemoryDescriptor := [⟨0, 0, 1⟩, ⟨7, 0x1000, 4096⟩]

theorem lowMemory_wellFormed : WellFormedEfi lowMemory where
  aligned := by decide
  noWrap := by decide
  disjoint := by
    simp [lowMemory, EfiMemoryDescriptor.pages, efiPageSize, Set.Ico_disjoint_Ico]

theorem lowMemory_mapped :
    ∃ s m, mmapReserveMemory lowMemory = some s ∧ mmapBuildMemoryMap s lowMemory = some m ∧
      MapsMemory lowMemory s m.entries := by
  refine ⟨_, _, rfl, rfl, ?_⟩
  refine (bootMap_partition_iff lowMemory_wellFormed rfl rfl).mpr ?_
  rintro ⟨d, hfirst, hzero, _⟩
  obtain rfl : (⟨7, 0x1000, 4096⟩ : EfiMemoryDescriptor) = d := Option.some.inj hfirst
  exact absurd hzero (by decide)

/-- Memory from address 0 up, and a second bank. -/
def memoryAtZero : List EfiMemoryDescriptor := [⟨7, 0, 4096⟩, ⟨7, 0x40000000, 4096⟩]

theorem memoryAtZero_wellFormed : WellFormedEfi memoryAtZero where
  aligned := by decide
  noWrap := by decide
  disjoint := by
    simp [memoryAtZero, EfiMemoryDescriptor.pages, efiPageSize, Set.Ico_disjoint_Ico]

/-- The memory map region ends up in the second bank and the page table
region at 1 MiB. -/
def memoryAtZeroMap : List MemoryDescriptor :=
  [⟨0x100000, 2048, .reserved⟩, ⟨0x800000, 2048, .usable⟩, ⟨0x40000000, 256, .reserved⟩,
    ⟨0x40100000, 3840, .usable⟩]

theorem memoryAtZero_built :
    ∃ s m, mmapReserveMemory memoryAtZero = some s ∧
      mmapBuildMemoryMap s memoryAtZero = some m ∧ m.entries = memoryAtZeroMap :=
  ⟨_, _, rfl, rfl, rfl⟩

/-- The first two entries share a megabyte. The page allocator takes it for
usable, though page tables lie there. -/
theorem memoryAtZero_not_mapped :
    WellFormedEfi memoryAtZero ∧
      ∃ s m, mmapReserveMemory memoryAtZero = some s ∧
        mmapBuildMemoryMap s memoryAtZero = some m ∧ ¬ MapsMemory memoryAtZero s m.entries := by
  obtain ⟨s, m, hreserve, hbuild, hentries⟩ := memoryAtZero_built
  refine ⟨memoryAtZero_wellFormed, s, m, hreserve, hbuild, fun h => ?_⟩
  have hdisj := h.disjoint
  rw [hentries] at hdisj
  have hshared := (List.pairwise_cons.mp hdisj).1 ⟨0x800000, 2048, .usable⟩ (by simp)
  refine Set.disjoint_left.mp hshared (?_ : 2048 ∈ _) ?_
  all_goals
    simp [MemoryDescriptor.pages, pageSize]

end ZOs.BootMap
