import Mathlib.Data.List.Pairwise
import ZOs.Memory.MemoryMap

/-!
# Where the two regions are placed

`mmap_reserve_memory` by an invariant of its loop (`Progress`) that says
which descriptor each region was placed in. Both end up at the start of a
descriptor, one behind the other if it is the same one, unless the memory
map region was placed at physical address 0 and given up: then the page
table region lies behind it, in the middle of the descriptor.
-/

namespace ZOs.BootMap

open PageAlloc
open BlockAllocator (add64 sub64)

/-! ## Where the first pass places the regions -/

/-- The allocator was given `size` bytes at `start`, has given none of them
away, and is valid. -/
structure BumpAllocator.At (a : BumpAllocator) (start size : Nat) : Prop where
  memoryStart : a.memoryStart = start
  memoryEnd : a.memoryEnd = start + size
  pos : 0 < start
  allocatedSize : a.allocatedSize = 0
  remainingSize : a.remainingSize = size

theorem BumpAllocator.At.valid {a : BumpAllocator} {start size : Nat} (h : a.At start size) :
    a.invalid = false := by
  have := h.pos
  simp [invalid, h.memoryStart, h.memoryEnd]
  omega

/-- A descriptor that the passes take for usable, with at least `pages`
pages. -/
def EfiMemoryDescriptor.Offers (d : EfiMemoryDescriptor) (pages : Nat) : Prop :=
  efiMemoryMapIsUsable d = true ∧ pages ≤ d.numberOfPages

/-- Both regions are at the start of descriptors: one behind the other, or
in two that share no page. -/
def AtStarts (efi : List EfiMemoryDescriptor) (s : Allocators) : Prop :=
  (∃ d ∈ efi, d.Offers 2304 ∧
    s.kernelMemoryMap.At d.physicalStartAddress (2 ^ 20) ∧
    s.pageTable.At (d.physicalStartAddress + 2 ^ 20) (2 ^ 23)) ∨
  ∃ d ∈ efi, ∃ e ∈ efi, d.Offers 256 ∧ e.Offers 2048 ∧ Disjoint d.pages e.pages ∧
    s.kernelMemoryMap.At d.physicalStartAddress (2 ^ 20) ∧
    s.pageTable.At e.physicalStartAddress (2 ^ 23)

/-- The page table region is 1 MiB into the descriptor at address 0, and the
memory map region not in that descriptor. -/
def Stranded (efi : List EfiMemoryDescriptor) (s : Allocators) : Prop :=
  ∃ d, firstRoomy efi = some d ∧ d.physicalStartAddress = 0 ∧ 2304 ≤ d.numberOfPages ∧
    s.pageTable.At (2 ^ 20) (2 ^ 23) ∧
    (s.kernelMemoryMap.invalid = true ∨
      ∃ e ∈ efi, e.Offers 256 ∧ Disjoint d.pages e.pages ∧
        s.kernelMemoryMap.At e.physicalStartAddress (2 ^ 20))

/-- What the loop of `mmap_reserve_memory` has done behind the descriptors
`seen`. -/
inductive Progress (seen : List EfiMemoryDescriptor) (s : Allocators) : Prop
  | nothing (hkernel : s.kernelMemoryMap.invalid = true) (hpage : s.pageTable.invalid = true)
      (hroomy : ∀ d ∈ seen, d.Offers 256 → d.physicalStartAddress = 0 ∧ d.numberOfPages < 2304)
  | kernelMap (d : EfiMemoryDescriptor) (hd : d ∈ seen) (hoffers : d.Offers 256)
      (hkernel : s.kernelMemoryMap.At d.physicalStartAddress (2 ^ 20))
      (hpage : s.pageTable.invalid = true) (hnot : ¬ StrandsPageTables seen)
  | both (h : AtStarts seen s) (hnot : ¬ StrandsPageTables seen)
  | stranded (h : Stranded seen s)

section Progress

variable {seen rest efi : List EfiMemoryDescriptor} {s : Allocators} {d : EfiMemoryDescriptor}

theorem WellFormedEfi.disjoint_of_mem (h : WellFormedEfi efi) {d e : EfiMemoryDescriptor}
    (hd : d ∈ efi) (he : e ∈ efi) (hne : d ≠ e) : Disjoint d.pages e.pages := by
  have : Std.Symm fun d e : EfiMemoryDescriptor => Disjoint d.pages e.pages :=
    ⟨fun _ _ hde => hde.symm⟩
  exact h.disjoint.forall hd he hne

/-- Two descriptors that share no page and are not empty start at different
addresses. -/
theorem starts_ne {d e : EfiMemoryDescriptor} (h : Disjoint d.pages e.pages)
    (hd : 0 < d.numberOfPages) (he : 0 < e.numberOfPages) :
    d.physicalStartAddress ≠ e.physicalStartAddress := by
  intro heq
  have hfirst : d.physicalStartAddress / efiPageSize ∈ d.pages := ⟨le_rfl, by omega⟩
  refine Set.disjoint_left.mp h hfirst ?_
  rw [heq]
  exact ⟨le_rfl, by omega⟩

/-- Of a descriptor that does not wrap, the byte count is the page count. -/
theorem memorySize_eq (h : d.physicalStartAddress + d.numberOfPages * efiPageSize < 2 ^ 64) :
    d.memorySize = d.numberOfPages * 4096 := by
  simp only [EfiMemoryDescriptor.memorySize, efiPageSize] at h ⊢
  exact Nat.mod_eq_of_lt (by omega)

theorem firstRoomy_snoc_of_some {e : EfiMemoryDescriptor} (h : firstRoomy seen = some e) :
    firstRoomy (seen ++ [d]) = some e := by
  have : seen.find? _ = some e := h
  simp [firstRoomy, this]

theorem firstRoomy_eq_none :
    firstRoomy seen = none ↔ ∀ e ∈ seen, ¬ e.Offers 256 := by
  simp [firstRoomy, EfiMemoryDescriptor.Offers]

/-- A descriptor that is no room, or comes behind one, decides nothing. -/
theorem strands_snoc_iff (h : ¬ d.Offers 256 ∨ ∃ e ∈ seen, e.Offers 256) :
    StrandsPageTables (seen ++ [d]) ↔ StrandsPageTables seen := by
  have hsame : firstRoomy (seen ++ [d]) = firstRoomy seen := by
    cases hfirst : firstRoomy seen with
    | some e => exact firstRoomy_snoc_of_some hfirst
    | none =>
      rw [firstRoomy_eq_none] at hfirst ⊢
      intro e he
      rcases List.mem_append.mp he with he | he
      · exact hfirst e he
      · obtain rfl := List.mem_singleton.mp he
        exact h.resolve_right fun ⟨e', he', ho⟩ => hfirst e' he' ho
  simp [StrandsPageTables, hsame]

theorem mem_of_firstRoomy (h : firstRoomy seen = some d) : d ∈ seen ∧ d.Offers 256 := by
  refine ⟨List.mem_of_find?_eq_some h, ?_⟩
  simpa [EfiMemoryDescriptor.Offers] using List.find?_some h

theorem AtStarts.snoc (h : AtStarts seen s) : AtStarts (seen ++ [d]) s := by
  rcases h with ⟨e, he, h⟩ | ⟨e, he, f, hf, h⟩
  · exact .inl ⟨e, List.mem_append_left _ he, h⟩
  · exact .inr ⟨e, List.mem_append_left _ he, f, List.mem_append_left _ hf, h⟩

/-! ### One step of the loop -/

theorem BumpAllocator.init_at {start size : Nat} (hend : start + size < 2 ^ 64) (hpos : 0 < start) :
    (init start (add64 start size)).At start size where
  memoryStart := rfl
  memoryEnd := by
    rw [init, add64, Nat.mod_eq_of_lt hend]
  pos := hpos
  allocatedSize := rfl
  remainingSize := by
    simp only [init, add64, sub64]
    omega

/-- An allocator placed at physical address 0 counts as none. -/
theorem BumpAllocator.init_zero_invalid (memoryEnd : Nat) : (init 0 memoryEnd).invalid = true := rfl

theorem reserveFrom_kernelMemoryMap (hsize : d.memorySize = d.numberOfPages * 4096) :
    (reserveFrom d s).kernelMemoryMap =
      if s.kernelMemoryMap.invalid = true ∧ 256 ≤ d.numberOfPages then
        .init d.physicalStartAddress (add64 d.physicalStartAddress (2 ^ 20))
      else s.kernelMemoryMap := by
  have hfits : 2 ^ 20 ≤ d.numberOfPages * 4096 ↔ 256 ≤ d.numberOfPages := by omega
  simp only [reserveFrom, attemptReserve, hsize, mmapMemoryMapReservedSize, Bool.not_not,
    Bool.and_eq_true, decide_eq_true_eq, hfits]
  split <;> rfl

/-- Behind a memory map region placed in the same step, the page table
region needs 2304 pages; alone it needs 2048. -/
theorem reserveFrom_pageTable (hsize : d.memorySize = d.numberOfPages * 4096)
    (hend : d.physicalStartAddress + d.numberOfPages * 4096 < 2 ^ 64) :
    (reserveFrom d s).pageTable =
      if s.pageTable.invalid = false then s.pageTable
      else if s.kernelMemoryMap.invalid = true ∧ 256 ≤ d.numberOfPages then
        if 2304 ≤ d.numberOfPages then
          .init (d.physicalStartAddress + 2 ^ 20)
            (add64 (d.physicalStartAddress + 2 ^ 20) (2 ^ 23))
        else s.pageTable
      else if 2048 ≤ d.numberOfPages then
        .init d.physicalStartAddress (add64 d.physicalStartAddress (2 ^ 23))
      else s.pageTable := by
  have hfits : 2 ^ 20 ≤ d.numberOfPages * 4096 ↔ 256 ≤ d.numberOfPages := by omega
  have halone : 2 ^ 23 ≤ d.numberOfPages * 4096 ↔ 2048 ≤ d.numberOfPages := by omega
  cases hpage : s.pageTable.invalid
  · simp [reserveFrom, attemptReserve, hpage]
  · simp only [reserveFrom, attemptReserve, hsize, mmapMemoryMapReservedSize, Bool.not_not,
      Bool.and_eq_true, decide_eq_true_eq, hfits, hpage, pageTableReservedSize, true_and]
    by_cases hboth : s.kernelMemoryMap.invalid = true ∧ 256 ≤ d.numberOfPages
    · have hstart : add64 d.physicalStartAddress (2 ^ 20) = d.physicalStartAddress + 2 ^ 20 :=
        Nat.mod_eq_of_lt (by omega)
      have hbehind : 2 ^ 23 ≤ sub64 (d.numberOfPages * 4096) (2 ^ 20) ↔ 2304 ≤ d.numberOfPages := by
        simp only [sub64]
        omega
      simp only [hboth, hstart, hbehind, Bool.true_eq_false, and_self, if_true, if_false]
      split <;> rfl
    · simp only [hboth, halone, Bool.true_eq_false, if_false]
      split <;> rfl

theorem WellFormedEfi.apart_last (hwf : WellFormedEfi (seen ++ [d])) {e : EfiMemoryDescriptor}
    (he : e ∈ seen) : Disjoint e.pages d.pages :=
  (List.pairwise_append.mp hwf.disjoint).2.2 e he d (by simp)

/-- A region at the start of a descriptor, or behind it, fits in it. -/
theorem WellFormedEfi.init_at (hwf : WellFormedEfi efi) (hd : d ∈ efi) {start size : Nat}
    (hle : start + size ≤ d.physicalStartAddress + d.numberOfPages * 4096) (hpos : 0 < start) :
    (BumpAllocator.init start (add64 start size)).At start size := by
  have := hwf.noWrap d hd
  simp only [efiPageSize] at this
  exact BumpAllocator.init_at (by omega) hpos

/-- Both allocators are there: the step does nothing. -/
theorem reserveFrom_of_valid (hkernel : s.kernelMemoryMap.invalid = false)
    (hpage : s.pageTable.invalid = false) : reserveFrom d s = s := by
  simp [reserveFrom, attemptReserve, hkernel, hpage]

/-- The step from nothing: the first descriptor with room decides. -/
theorem Progress.reserveFrom_nothing (hwf : WellFormedEfi (seen ++ [d]))
    (husable : efiMemoryMapIsUsable d = true) (hkernel : s.kernelMemoryMap.invalid = true)
    (hpage : s.pageTable.invalid = true)
    (hroomy : ∀ e ∈ seen, e.Offers 256 → e.physicalStartAddress = 0 ∧ e.numberOfPages < 2304) :
    Progress (seen ++ [d]) (reserveFrom d s) := by
  have hd : d ∈ seen ++ [d] := by simp
  have hend := hwf.noWrap d hd
  have hsize := memorySize_eq hend
  have hkernel' := reserveFrom_kernelMemoryMap (s := s) hsize
  have hpage' := reserveFrom_pageTable (s := s) hsize hend
  rw [if_neg (by simp [hpage])] at hpage'
  by_cases hroom : 256 ≤ d.numberOfPages
  · rw [if_pos ⟨hkernel, hroom⟩] at hkernel' hpage'
    have hoffers : d.Offers 256 := ⟨husable, hroom⟩
    by_cases hzero : d.physicalStartAddress = 0
    · -- no descriptor before `d` has room: it would start at 0 as well
      have hfirst : firstRoomy (seen ++ [d]) = some d := by
        have hnone : firstRoomy seen = none := firstRoomy_eq_none.mpr fun e he ho =>
          starts_ne (hwf.apart_last he) (by have := ho.2; omega) (by omega)
            ((hroomy e he ho).1.trans hzero.symm)
        have : seen.find? _ = none := hnone
        simp [firstRoomy, this, husable, hroom]
      have hinvalid : (reserveFrom d s).kernelMemoryMap.invalid = true := by
        rw [hkernel', hzero]
        exact BumpAllocator.init_zero_invalid _
      by_cases hlong : 2304 ≤ d.numberOfPages
      · refine .stranded ⟨d, hfirst, hzero, hlong, ?_, .inl hinvalid⟩
        rw [hpage', if_pos hlong, hzero]
        exact hwf.init_at hd (by omega) (by omega)
      · refine .nothing hinvalid (by rw [hpage', if_neg hlong]; exact hpage) fun e he ho => ?_
        rcases List.mem_append.mp he with he | he
        · exact hroomy e he ho
        · obtain rfl := List.mem_singleton.mp he
          exact ⟨hzero, by omega⟩
    · have hnot : ¬ StrandsPageTables (seen ++ [d]) := by
        rintro ⟨e, hfirst, hstart, hlong⟩
        obtain ⟨he, ho⟩ := mem_of_firstRoomy hfirst
        rcases List.mem_append.mp he with he | he
        · have := (hroomy e he ho).2
          omega
        · obtain rfl := List.mem_singleton.mp he
          exact hzero hstart
      have hat : (reserveFrom d s).kernelMemoryMap.At d.physicalStartAddress (2 ^ 20) := by
        rw [hkernel']
        exact hwf.init_at hd (by omega) (by omega)
      by_cases hlong : 2304 ≤ d.numberOfPages
      · refine .both (.inl ⟨d, hd, ⟨husable, hlong⟩, hat, ?_⟩) hnot
        rw [hpage', if_pos hlong]
        exact hwf.init_at hd (by omega) (by omega)
      · exact .kernelMap d hd hoffers hat (by rw [hpage', if_neg hlong]; exact hpage) hnot
  · rw [if_neg (by tauto)] at hkernel' hpage'
    rw [if_neg (by omega)] at hpage'
    refine .nothing (hkernel' ▸ hkernel) (hpage' ▸ hpage) fun e he ho => ?_
    rcases List.mem_append.mp he with he | he
    · exact hroomy e he ho
    · obtain rfl := List.mem_singleton.mp he
      exact absurd ho.2 hroom

/-- The step with the memory map region placed. A page table region placed
at address 0 counts as none, and is placed again later. -/
theorem Progress.reserveFrom_kernelMap {e : EfiMemoryDescriptor}
    (hwf : WellFormedEfi (seen ++ [d])) (husable : efiMemoryMapIsUsable d = true) (he : e ∈ seen)
    (hoffers : e.Offers 256) (hkernel : s.kernelMemoryMap.At e.physicalStartAddress (2 ^ 20))
    (hpage : s.pageTable.invalid = true) (hnot : ¬ StrandsPageTables seen) :
    Progress (seen ++ [d]) (reserveFrom d s) := by
  have hd : d ∈ seen ++ [d] := by simp
  have he' : e ∈ seen ++ [d] := List.mem_append_left _ he
  have hend := hwf.noWrap d hd
  have hsize := memorySize_eq hend
  have hkernel' := reserveFrom_kernelMemoryMap (s := s) hsize
  have hpage' := reserveFrom_pageTable (s := s) hsize hend
  rw [if_neg (by simp [hkernel.valid])] at hkernel'
  rw [if_neg (by simp [hpage]), if_neg (by simp [hkernel.valid])] at hpage'
  rw [← hkernel'] at hkernel
  have hnot' : ¬ StrandsPageTables (seen ++ [d]) := by
    rwa [strands_snoc_iff (.inr ⟨e, he, hoffers⟩)]
  by_cases hroom : 2048 ≤ d.numberOfPages
  · rw [if_pos hroom] at hpage'
    by_cases hzero : d.physicalStartAddress = 0
    · refine .kernelMap e he' hoffers hkernel ?_ hnot'
      rw [hpage', hzero]
      exact BumpAllocator.init_zero_invalid _
    · refine .both (.inr ⟨e, he', d, hd, hoffers, ⟨husable, hroom⟩, hwf.apart_last he, hkernel, ?_⟩)
        hnot'
      rw [hpage']
      exact hwf.init_at hd (by omega) (by omega)
  · rw [if_neg hroom] at hpage'
    exact .kernelMap e he' hoffers hkernel (hpage' ▸ hpage) hnot'

/-- A stranded page table region stays where it is. -/
theorem Stranded.reserveFrom (h : Stranded seen s) (hwf : WellFormedEfi (seen ++ [d]))
    (husable : efiMemoryMapIsUsable d = true) : Stranded (seen ++ [d]) (reserveFrom d s) := by
  have hd : d ∈ seen ++ [d] := by simp
  have hend := hwf.noWrap d hd
  have hsize := memorySize_eq hend
  have hkernel' := reserveFrom_kernelMemoryMap (s := s) hsize
  have hpage' := reserveFrom_pageTable (s := s) hsize hend
  obtain ⟨f, hfirst, hzero, hlong, hpage, hkernel⟩ := h
  have hf := (mem_of_firstRoomy hfirst).1
  rw [if_pos hpage.valid] at hpage'
  refine ⟨f, firstRoomy_snoc_of_some hfirst, hzero, hlong, hpage' ▸ hpage, ?_⟩
  rcases hkernel with hinvalid | ⟨e, he, hoffers, hdisj, hat⟩
  · by_cases hroom : 256 ≤ d.numberOfPages
    · rw [if_pos ⟨hinvalid, hroom⟩] at hkernel'
      have hne := starts_ne (hwf.apart_last hf) (by omega) (by omega)
      refine .inr ⟨d, hd, ⟨husable, hroom⟩, hwf.apart_last hf, ?_⟩
      rw [hkernel']
      exact hwf.init_at hd (by omega) (by omega)
    · rw [if_neg (by tauto)] at hkernel'
      exact .inl (hkernel' ▸ hinvalid)
  · rw [if_neg (by simp [hat.valid])] at hkernel'
    exact .inr ⟨e, List.mem_append_left _ he, hoffers, hdisj, hkernel' ▸ hat⟩

theorem AtStarts.offers (h : AtStarts seen s) : ∃ e ∈ seen, e.Offers 256 := by
  rcases h with ⟨e, he, ho, _⟩ | ⟨e, he, _, _, ho, _⟩
  · exact ⟨e, he, ho.1, by have := ho.2; omega⟩
  · exact ⟨e, he, ho⟩

theorem AtStarts.valid (h : AtStarts seen s) :
    s.kernelMemoryMap.invalid = false ∧ s.pageTable.invalid = false := by
  rcases h with ⟨_, _, _, hkernel, hpage⟩ | ⟨_, _, _, _, _, _, _, hkernel, hpage⟩
  · exact ⟨hkernel.valid, hpage.valid⟩
  · exact ⟨hkernel.valid, hpage.valid⟩

/-- One step of the loop at a usable descriptor. -/
theorem Progress.reserveFrom (h : Progress seen s) (hwf : WellFormedEfi (seen ++ [d]))
    (husable : efiMemoryMapIsUsable d = true) : Progress (seen ++ [d]) (reserveFrom d s) := by
  cases h with
  | nothing hkernel hpage hroomy => exact .reserveFrom_nothing hwf husable hkernel hpage hroomy
  | kernelMap e he hoffers hkernel hpage hnot =>
    exact .reserveFrom_kernelMap hwf husable he hoffers hkernel hpage hnot
  | both h hnot =>
    rw [reserveFrom_of_valid h.valid.1 h.valid.2]
    exact .both h.snoc (by rwa [strands_snoc_iff (.inr h.offers)])
  | stranded h => exact .stranded (h.reserveFrom hwf husable)

/-- The loop passes over a descriptor that is not usable. -/
theorem Progress.skip (h : Progress seen s) (hunusable : ¬ efiMemoryMapIsUsable d = true) :
    Progress (seen ++ [d]) s := by
  have hnone : ∀ pages, ¬ d.Offers pages := fun _ ho => hunusable ho.1
  cases h with
  | nothing hkernel hpage hroomy =>
    refine .nothing hkernel hpage fun e he ho => ?_
    rcases List.mem_append.mp he with he | he
    · exact hroomy e he ho
    · obtain rfl := List.mem_singleton.mp he
      exact absurd ho (hnone 256)
  | kernelMap e he hoffers hkernel hpage hnot =>
    exact .kernelMap e (List.mem_append_left _ he) hoffers hkernel hpage
      (by rwa [strands_snoc_iff (.inl (hnone 256))])
  | both h hnot => exact .both h.snoc (by rwa [strands_snoc_iff (.inl (hnone 256))])
  | stranded h =>
    obtain ⟨f, hfirst, hzero, hlong, hpage, hkernel⟩ := h
    refine .stranded ⟨f, firstRoomy_snoc_of_some hfirst, hzero, hlong, hpage, ?_⟩
    exact hkernel.imp_right fun ⟨e, he, hat⟩ => ⟨e, List.mem_append_left _ he, hat⟩

/-! ### The whole loop -/

/-- The early exit changes nothing: every later step would do nothing. -/
theorem reserveLoop_of_valid (hkernel : s.kernelMemoryMap.invalid = false)
    (hpage : s.pageTable.invalid = false) : reserveLoop s rest = s := by
  induction rest with
  | nil => rfl
  | cons d rest ih =>
    rw [reserveLoop, ih, reserveFrom_of_valid hkernel hpage]
    simp [ih]

theorem reserveLoop_cons :
    reserveLoop s (d :: rest) =
      if efiMemoryMapIsUsable d = true then reserveLoop (reserveFrom d s) rest
      else reserveLoop s rest := by
  by_cases husable : efiMemoryMapIsUsable d = true
  · by_cases hvalid : s.pageTable.invalid = false ∧ s.kernelMemoryMap.invalid = false
    · have hexit : reserveLoop s rest = s := reserveLoop_of_valid hvalid.2 hvalid.1
      simp [reserveLoop, husable, reserveFrom_of_valid hvalid.2 hvalid.1, hvalid, hexit]
    · have hgoOn : (!s.pageTable.invalid && !s.kernelMemoryMap.invalid) = false := by
        simpa using hvalid
      rw [if_pos husable, reserveLoop, if_neg (by simp [husable])]
      simp only [hgoOn, Bool.false_eq_true, if_false]
  · simp [reserveLoop, husable]

theorem WellFormedEfi.left (h : WellFormedEfi (seen ++ rest)) : WellFormedEfi seen where
  aligned e he := h.aligned e (List.mem_append_left _ he)
  noWrap e he := h.noWrap e (List.mem_append_left _ he)
  disjoint := (List.pairwise_append.mp h.disjoint).1

theorem Progress.reserveLoop (h : Progress seen s) (hwf : WellFormedEfi (seen ++ rest)) :
    Progress (seen ++ rest) (reserveLoop s rest) := by
  induction rest generalizing seen s with
  | nil => simpa [BootMap.reserveLoop] using h
  | cons d rest ih =>
    rw [List.append_cons] at hwf ⊢
    rw [reserveLoop_cons]
    split
    case isTrue husable => exact ih (h.reserveFrom hwf.left husable) hwf
    case isFalse hunusable => exact ih (h.skip hunusable) hwf

/-- If the first pass succeeds, both regions are at the start of
descriptors, or the page table region is stranded. -/
theorem mmapReserveMemory_spec (hwf : WellFormedEfi efi) (h : mmapReserveMemory efi = some s) :
    (AtStarts efi s ∧ ¬ StrandsPageTables efi) ∨
      Stranded efi s ∧ s.kernelMemoryMap.invalid = false := by
  simp only [mmapReserveMemory] at h
  split at h
  case isTrue => cases h
  case isFalse hvalid =>
    obtain rfl := Option.some.inj h
    have hstart : Progress [] ⟨.makeInvalid, .makeInvalid⟩ := .nothing rfl rfl (by simp)
    have hend : Progress efi _ := hstart.reserveLoop hwf
    cases hend with
    | nothing _ hpage _ => exact absurd (by simp [hpage]) hvalid
    | kernelMap _ _ _ _ hpage _ => exact absurd (by simp [hpage]) hvalid
    | both h hnot => exact .inl ⟨h, hnot⟩
    | stranded h =>
      simp only [Bool.or_eq_true, not_or, Bool.not_eq_true] at hvalid
      exact .inr ⟨h, hvalid.2⟩

end Progress

end ZOs.BootMap
