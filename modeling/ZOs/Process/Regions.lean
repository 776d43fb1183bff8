import Mathlib.Data.Finset.Card
import ZOs.Lib.Run
import ZOs.Process.Mmap

/-!
# Regions of a process

Where `process_mmap` puts a region. A region that wraps at the end of the
address space is accepted, if its last page is below the limit again. Its
pages are far from those of the heap area in any case, since no region is
longer than memory is.
-/

namespace ZOs.ProcessMemory

open Paging Attempt Runs

/-! ## Pages and frames -/

/-- The page that an address is in, as far as an entry can hold it. -/
def frame (address : Word) : Word := address &&& tblEntryAddrMask

/-- The place of an address in its page. -/
def pageOffset (address : Word) : Word := address &&& (mmapGranuleSize - 1)

/-- The address of page `i` of a region. -/
def pageAt (address : Word) (i : Nat) : Word := address + BitVec.ofNat 64 i * pageSize

/-- The address is in the region. -/
def MmapEntry.Contains (entry : MmapEntry) (x : Word) : Prop :=
  (x - entry.virtualAddress).toNat < 4096 * entry.numPages.toNat

/-- A page of a region has this number. -/
def MmapEntry.HasPage (entry : MmapEntry) (number : Nat) : Prop :=
  ∃ i < entry.numPages.toNat, number = pageNumber (pageAt entry.virtualAddress i)

/-- Where `process_mmap` can put a region. -/
structure Placed (entry : MmapEntry) : Prop where
  aligned : entry.virtualAddress.toNat % 4096 = 0
  base : 2 ^ 46 ≤ entry.virtualAddress.toNat
  small : entry.numPages.toNat ≤ 2 ^ 31
  fits : entry.virtualAddress.toNat + 4096 * entry.numPages.toNat ≤ 2 ^ 46 + 2 ^ 34 ∨
    2 ^ 64 ≤ entry.virtualAddress.toNat + 4096 * entry.numPages.toNat

section
variable {x y address page physicalAddress virtualAddress pageFlags off : Word}
  {entry entry' : MmapEntry} {i j : Nat} {v v' : Vmap}

theorem pageOffset_toNat (x : Word) : (pageOffset x).toNat = x.toNat % 4096 := by
  have hlow : mmapGranuleSize - 1 = Bits.low 64 12 := by decide
  unfold pageOffset
  rw [hlow]
  exact Bits.toNat_and_low (by decide)

theorem frame_aligned (page : Word) : (frame page).toNat % 4096 = 0 := by
  have hclear : frame page &&& Bits.low 64 12 = 0 := by
    unfold frame
    rw [addrMask_eq]
    exact Bits.and_and_of_clear (by decide)
  have hzero := congrArg BitVec.toNat hclear
  rwa [Bits.toNat_and_low (by decide)] at hzero

theorem frame_or (page x : Word) : frame page ||| pageOffset x = frame page + pageOffset x := by
  have haligned : (frame page).toNat % 2 ^ 12 = 0 := frame_aligned page
  apply Bits.or_eq_add haligned
  unfold pageOffset
  rw [BitVec.and_assoc]
  have hmask : (mmapGranuleSize - 1) &&& Bits.low 64 12 = mmapGranuleSize - 1 := by decide
  rw [hmask]

/-- An address of a page is in this page. -/
theorem frame_add (page x : Word) : frame (frame page + pageOffset x) = frame page := by
  have hoffset : pageOffset x &&& tblEntryAddrMask = 0 := Bits.and_and_of_clear (by decide)
  rw [← frame_or]
  unfold frame at *
  rw [Bits.and_eq_left_of_clear hoffset, BitVec.and_assoc, BitVec.and_self]

theorem frame_toNat (page : Word) :
    (frame page).toNat + page.toNat % 4096 = page.toNat % 2 ^ 48 := by
  unfold frame
  rw [addrMask_eq]
  exact Bits.toNat_and_field (by decide) (by decide)

theorem frame_of_aligned (haligned : page.toNat % 4096 = 0) (hfits : page.toNat < 2 ^ 48) :
    frame page = page := by
  unfold frame
  rw [addrMask_eq]
  exact Bits.and_field_eq_self haligned hfits

theorem pageAt_toNat (address : Word) (i : Nat) :
    (pageAt address i).toNat = (address.toNat + 4096 * i) % 2 ^ 64 := by
  have hsize : pageSize.toNat = 4096 := rfl
  unfold pageAt
  rw [BitVec.toNat_add, BitVec.toNat_mul, BitVec.toNat_ofNat, hsize]
  omega

theorem pageNumber_pageAt (address : Word) (i : Nat) :
    pageNumber (pageAt address i) = (address.toNat / 4096 + i) % 2 ^ 36 := by
  unfold pageNumber
  rw [pageAt_toNat]
  omega

/-- The pages of a region have different numbers. -/
theorem pageNumber_pageAt_inj (hi : i < 2 ^ 36) (hj : j < 2 ^ 36)
    (h : pageNumber (pageAt address i) = pageNumber (pageAt address j)) : i = j := by
  rw [pageNumber_pageAt, pageNumber_pageAt] at h
  omega

/-- An address of a region is in a page of it. -/
theorem MmapEntry.Contains.hasPage (h : entry.Contains x)
    (haligned : entry.virtualAddress.toNat % 4096 = 0) : entry.HasPage (pageNumber x) := by
  unfold Contains at h
  have hx : x = entry.virtualAddress + (x - entry.virtualAddress) := by
    rw [BitVec.add_comm, BitVec.sub_add_cancel]
  refine ⟨(x - entry.virtualAddress).toNat / 4096, by omega, ?_⟩
  rw [pageNumber_pageAt]
  have htoNat := congrArg BitVec.toNat hx
  rw [BitVec.toNat_add] at htoNat
  unfold pageNumber
  omega

/-- The addresses of a page of a region are in it. -/
theorem contains_pageAt (haligned : entry.virtualAddress.toNat % 4096 = 0)
    (hsmall : entry.numPages.toNat ≤ 2 ^ 31) (hi : i < entry.numPages.toNat)
    (hoff : off.toNat < 4096) :
    entry.Contains (pageAt entry.virtualAddress i + off) ∧
      pageNumber (pageAt entry.virtualAddress i + off) =
        pageNumber (pageAt entry.virtualAddress i) ∧
      pageOffset (pageAt entry.virtualAddress i + off) = off := by
  have hpage := pageAt_toNat entry.virtualAddress i
  have htoNat : (pageAt entry.virtualAddress i + off).toNat =
      (entry.virtualAddress.toNat + 4096 * i) % 2 ^ 64 + off.toNat := by
    rw [BitVec.toNat_add, hpage]
    omega
  refine ⟨?_, ?_, ?_⟩
  · unfold MmapEntry.Contains
    rw [BitVec.toNat_sub, htoNat]
    omega
  · unfold pageNumber
    rw [htoNat, hpage]
    omega
  · apply BitVec.eq_of_toNat_eq
    rw [pageOffset_toNat, htoNat]
    omega

/-- A region of the heap area above the end of another has no page in
common with it. -/
theorem Placed.disjoint (h : Placed entry) (h' : Placed entry')
    (hfits : entry'.virtualAddress.toNat + 4096 * entry'.numPages.toNat ≤ 2 ^ 46 + 2 ^ 34)
    (habove : entry.virtualAddress.toNat + 4096 * entry.numPages.toNat ≤ 2 ^ 46 + 2 ^ 34 →
      entry.virtualAddress.toNat + 4096 * entry.numPages.toNat ≤ entry'.virtualAddress.toNat)
    (hx : entry'.HasPage (pageNumber x)) : ¬ entry.HasPage (pageNumber x) := by
  rintro ⟨i, hi, hnumber⟩
  obtain ⟨j, hj, hnumber'⟩ := hx
  rw [pageNumber_pageAt] at hnumber
  rw [pageNumber_pageAt] at hnumber'
  have hbase := h.base
  have hbase' := h'.base
  have hsmall := h.small
  have haligned := h.aligned
  have haligned' := h'.aligned
  have hlt := entry.virtualAddress.isLt
  rcases h.fits with hplain | hwrap
  · have hle := habove hplain
    omega
  · omega

/-! ## The free address -/

/-- The end of a region, as `find_free_address_space` computes it. -/
def MmapEntry.endAddress (entry : MmapEntry) : Word :=
  entry.virtualAddress + entry.numPages * pageSize

theorem endAddress_toNat (entry : MmapEntry) : entry.endAddress.toNat =
      (entry.virtualAddress.toNat + 4096 * entry.numPages.toNat) % 2 ^ 64 := by
  have hsize : pageSize.toNat = 4096 := rfl
  unfold MmapEntry.endAddress
  rw [BitVec.toNat_add, BitVec.toNat_mul, hsize]
  omega

theorem skipEntry_eq (free : Word) (entry : MmapEntry) :
    skipEntry free entry = if free ≤ entry.endAddress then entry.endAddress else free := rfl

/-- The loop finds the largest end. -/
theorem foldl_skipEntry (entries : List MmapEntry) : ∀ free : Word,
    free ≤ entries.foldl skipEntry free ∧
      (∀ entry ∈ entries, entry.endAddress ≤ entries.foldl skipEntry free) ∧
      (entries.foldl skipEntry free = free ∨
        ∃ entry ∈ entries, entries.foldl skipEntry free = entry.endAddress) := by
  induction entries with
  | nil => exact fun free => ⟨BitVec.le_refl free, by simp, .inl rfl⟩
  | cons entry rest ih =>
    intro free
    rw [List.foldl_cons]
    obtain ⟨hle, hends, hwhich⟩ := ih (skipEntry free entry)
    have hfree : free ≤ skipEntry free entry ∧ entry.endAddress ≤ skipEntry free entry ∧
        (skipEntry free entry = free ∨ skipEntry free entry = entry.endAddress) := by
      rw [skipEntry_eq]
      split
      · rename_i hend
        exact ⟨hend, BitVec.le_refl _, .inr rfl⟩
      · rename_i hend
        exact ⟨BitVec.le_refl _, BitVec.le_of_lt (BitVec.not_le.mp hend), .inl rfl⟩
    refine ⟨BitVec.le_trans hfree.1 hle, ?_, ?_⟩
    · intro e he
      rcases List.mem_cons.mp he with rfl | he
      · exact BitVec.le_trans hfree.2.1 hle
      · exact hends e he
    · rcases hwhich with hsame | ⟨e, he, heq⟩
      · rw [hsame]
        exact hfree.2.2.imp_right fun heq => ⟨entry, List.mem_cons_self, heq⟩
      · exact .inr ⟨e, List.mem_cons_of_mem _ he, heq⟩

/-- The free address is above the regions of the heap area. -/
theorem findFreeAddressSpace_spec {entries : List MmapEntry} {free : Word}
    (hplaced : ∀ entry ∈ entries, Placed entry) (h : findFreeAddressSpace entries = some free) :
    free.toNat % 4096 = 0 ∧ 2 ^ 46 ≤ free.toNat ∧ free.toNat ≤ 2 ^ 46 + 2 ^ 34 ∧
      ∀ entry ∈ entries,
        entry.virtualAddress.toNat + 4096 * entry.numPages.toNat ≤ 2 ^ 46 + 2 ^ 34 →
        entry.virtualAddress.toNat + 4096 * entry.numPages.toNat ≤ free.toNat := by
  have hbase : heapVirtualBase.toNat = 2 ^ 46 := by decide
  unfold findFreeAddressSpace at h
  dsimp only at h
  split at h
  · cases h
  split at h
  swap
  · cases h
  rename_i haligned
  cases h
  obtain ⟨hle, hends, hwhich⟩ := foldl_skipEntry entries heapVirtualBase
  refine ⟨congrArg BitVec.toNat haligned, ?_, ?_, ?_⟩
  · have hle := BitVec.le_def.mp hle
    omega
  · rcases hwhich with hsame | ⟨entry, hentry, heq⟩
    · rw [hsame]
      omega
    · obtain ⟨_, _, hsmall, hfits⟩ := hplaced entry hentry
      have hlt := entry.virtualAddress.isLt
      rw [heq, endAddress_toNat entry]
      omega
  · intro entry hentry hfits
    have hend := BitVec.le_def.mp (hends entry hentry)
    rw [endAddress_toNat entry] at hend
    omega

theorem countPages_toNat (length : Word) :
    (countPages length).toNat = (length.toNat + 4095) / 4096 := by
  have hsize : pageSize.toNat = 4096 := rfl
  have hmod : length % pageSize ≠ 0 ↔ length.toNat % 4096 ≠ 0 := by
    rw [Ne, ← BitVec.toNat_inj, BitVec.toNat_umod, hsize]
    rfl
  have hlt := length.isLt
  unfold countPages
  split
  · rename_i hrest
    rw [hmod] at hrest
    rw [BitVec.toNat_add, BitVec.toNat_udiv, hsize]
    show (length.toNat / 4096 + 1) % 2 ^ 64 = _
    omega
  · rename_i hrest
    rw [hmod] at hrest
    rw [BitVec.toNat_udiv, hsize]
    omega

/-! ## Mapping pages -/

theorem mmapPageFlags_attributes (flags : Word) : AttributeFlags (mmapPageFlags flags) := by
  unfold mmapPageFlags AttributeFlags
  dsimp only
  split
  · decide
  · split
    · decide
    · split <;> decide

/-- The entry of a page translates its addresses into the frame. -/
theorem entered_here
    (h : Entered v v' (path virtualAddress) (pageEntry physicalAddress pageFlags))
    (hflags : AttributeFlags pageFlags) (hx : pageNumber x = pageNumber virtualAddress) :
    v'.vmapVirtualToPhysical x = some (frame physicalAddress + pageOffset x) := by
  rw [h.target hx, hflags.target, ← frame_or]
  rfl

/-- From page `i` on, a region is mapped to the pages of a list, which are
not so many that two would be entered at one place. -/
structure Mapped (v v' : Vmap) (address : Word) (i : Nat) (pages : List Word) : Prop extends
    Kept v v' where
  recorded : Recorded v v'
  pagesOnly : PagesOnly v'
  inside : i + pages.length ≤ 2 ^ 36 → ∀ j page, pages[j]? = some page →
    ∀ x, pageNumber x = pageNumber (pageAt address (i + j)) →
    v'.vmapVirtualToPhysical x = some (frame page + pageOffset x)
  outside : ∀ x, (∀ j < pages.length, pageNumber x ≠ pageNumber (pageAt address (i + j))) →
    v'.vmapVirtualToPhysical x = v.vmapVirtualToPhysical x

/-- What a loop of `process_mmap` takes for the pages from `i` on. -/
structure Supply (nextPage : Nat → Process → Option (Word × Process))
    (Takes : Nat → List (Option Word) → List Word → List (Option Word) → Prop) : Prop where
  nil : ∀ i blocks, Takes i blocks [] blocks
  cons : ∀ {i p page q}, nextPage i p = some (page, q) → q = { p with blocks := q.blocks } ∧
    ∀ {pages blocks}, Takes (i + 1) q.blocks pages blocks → Takes i p.blocks (page :: pages) blocks

theorem privatePage_supply :
    Supply privatePage fun _ blocks pages blocks' => blocks = pages.map some ++ blocks' where
  nil _ _ := rfl
  cons := by
    intro i p page q h
    unfold privatePage at h
    split at h
    · rename_i head rest hblocks
      cases h
      refine ⟨rfl, fun htakes => ?_⟩
      rw [hblocks]
      exact congrArg (some page :: ·) htakes
    · cases h

theorem sharedPage_supply (object : SharedMemory) :
    Supply (sharedPage object) fun i blocks pages blocks' => blocks' = blocks ∧
      ∀ j page, pages[j]? = some page → object.pages[i + j]? = some page where
  nil _ _ := ⟨rfl, by simp⟩
  cons := by
    intro i p page q h
    obtain ⟨page', hpage, heq⟩ := Option.map_eq_some_iff.mp h
    cases heq
    refine ⟨rfl, fun htakes => ⟨htakes.1, ?_⟩⟩
    intro j page' hj
    cases j with
    | zero =>
      cases hj
      exact hpage
    | succ j =>
      rw [← htakes.2 j page' hj]
      congr 1
      omega

theorem mapPage_eq_some {p p' : Process} (h : p.mapPage physicalAddress virtualAddress pageFlags =
    some p') : vmapMapPage physicalAddress virtualAddress pageFlags p.pageTable =
      (some (), p'.pageTable) ∧ p' = { p with pageTable := p'.pageTable } := by
  unfold Process.mapPage at h
  split at h
  · rename_i pageTable hmap
    cases h
    exact ⟨hmap, rfl⟩
  · cases h

/-- The loops of `process_mmap`. -/
theorem mapPages_spec {nextPage : Nat → Process → Option (Word × Process)}
    {Takes : Nat → List (Option Word) → List Word → List (Option Word) → Prop}
    (hsupply : Supply nextPage Takes) (hflags : AttributeFlags pageFlags) (n : Nat) :
    ∀ {i : Nat} {p p' : Process},
      WellFormed p.pageTable → PagesOnly p.pageTable →
      mapPages nextPage address pageFlags i n p = some p' →
      ∃ pages, pages.length = n ∧ Mapped p.pageTable p'.pageTable address i pages ∧
        Takes i p.blocks pages p'.blocks ∧
        p' = { p with pageTable := p'.pageTable, blocks := p'.blocks } := by
  induction n with
  | zero =>
    intro i p p' hwf hpages h
    cases h
    refine ⟨[], rfl, ?_, hsupply.nil _ _, rfl⟩
    exact ⟨(Grew.refl hwf).toKept, Recorded.refl _, hpages, by simp, fun _ _ => rfl⟩
  | succ n ih =>
    intro i p p' hwf hpages h
    unfold mapPages at h
    split at h
    · cases h
    rename_i page q hnext
    split at h
    · cases h
    rename_i p₁ hmap
    obtain ⟨hq, htakes⟩ := hsupply.cons hnext
    obtain ⟨hcall, hp₁⟩ := mapPage_eq_some hmap
    have htable : q.pageTable = p.pageTable := by rw [hq]
    have hblocks : p₁.blocks = q.blocks := by rw [hp₁]
    rw [htable] at hcall
    have hspec := vmapMapPage_spec page pageFlags hwf (hpages (pageAt address i))
    have hentered := hspec.returned hcall
    have hrecorded : Recorded p.pageTable p₁.pageTable := by
      have hmoves := recorded_vmapMapPage page (pageAt address i) pageFlags p.pageTable
      unfold pageAt at hmoves
      rwa [hcall] at hmoves
    obtain ⟨pages, hlength, hmapped, hrest, hp'⟩ :=
      ih hentered.wellFormed (hentered.pagesOnly hpages) h
    refine ⟨page :: pages, by rw [List.length_cons, hlength], ?_, ?_, ?_⟩
    · refine ⟨hentered.toKept.trans hmapped.toKept, hrecorded.trans hmapped.recorded,
        hmapped.pagesOnly, ?_, ?_⟩
      · intro hsmall j page' hj x hx
        rw [List.length_cons] at hsmall
        cases j with
        | zero =>
          cases hj
          rw [hmapped.outside x, entered_here hentered hflags hx]
          intro j hj heq
          have hsame := pageNumber_pageAt_inj (by omega) (by omega) (hx.symm.trans heq)
          omega
        | succ j =>
          apply hmapped.inside (by omega) j page' hj x
          rw [hx]
          congr 2
          omega
      · intro x hx
        rw [hmapped.outside x, hentered.elsewhere (hx 0 (Nat.succ_pos _))]
        intro j hj heq
        apply hx (j + 1) (Nat.succ_lt_succ hj)
        rw [heq]
        congr 2
        omega
    · apply htakes
      rw [← hblocks]
      exact hrest
    · rw [hp', hp₁, hq]

end

end ZOs.ProcessMemory
