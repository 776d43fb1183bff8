import ZOs.Process.MmapRuns

/-!
# The bounds of `process_mmap`

Two checks guard the heap area. `find_free_address_space` takes the end of
the regions for the start of the free space, and takes it for a sign of
exhaustion when this is still where the area starts. The range of a request
is checked by its end, a sum that may wrap.
-/

namespace ZOs.ProcessMemory

open Paging Runs

/-- The end of the heap area. -/
def heapLimit : Nat := heapVirtualBase.toNat + heapSize.toNat

/-- Between the highest page of the regions and the end of the heap area
there is room for `length` bytes; without a page, in the whole area. -/
def Room (entries : List MmapEntry) (length : Word) : Prop :=
  heapVirtualBase.toNat + length.toNat ≤ heapLimit ∧
  ∀ entry ∈ entries, ∀ i < entry.numPages.toNat,
    (pageAt entry.virtualAddress i).toNat + 4096 + length.toNat ≤ heapLimit

/-- `find_free_address_space` does not stop where there is room. -/
def AddressFound (p : Process) (length : Word) : Prop :=
  Room p.mmapEntries length → (p.startAddress 0).isSome = true

/-- A region without a page, at the start of the heap area. -/
def emptyRegion : MmapEntry := ⟨heapVirtualBase, 0⟩

/-- What a call that returns must have kept to: the pages are in the heap
area and have been mapped, the new entry is about them and does not wrap,
and no other address of the process is translated to another place. -/
structure WithinRange (p : Process) (length flags : Word) (fd : Int) (start : Word)
    (p' : Process) : Prop where
  pages : ∀ i < (countPages length).toNat, heapVirtualBase.toNat ≤ (pageAt start i).toNat ∧
    (pageAt start i).toNat + 4096 ≤ heapLimit
  mapped : ∀ i < (countPages length).toNat, ∃ page, p.PageFor flags fd i page ∧
    p'.pageTable.vmapVirtualToPhysical (pageAt start i) = some (frame page)
  entry : ∃ entry, p'.mmapEntries = p.mmapEntries ++ [entry] ∧
    entry.virtualAddress.toNat + 4096 * entry.numPages.toNat ≤ heapLimit ∧
    ∀ x : Word, (∃ i < (countPages length).toNat, x = pageAt start i) ↔
      x.toNat % 4096 = 0 ∧ entry.virtualAddress.toNat ≤ x.toNat ∧
        x.toNat < entry.virtualAddress.toNat + 4096 * entry.numPages.toNat
  outside : ∀ x : Word, x.toNat < 2 ^ 48 →
    (x.toNat < heapVirtualBase.toNat ∨ heapLimit ≤ x.toNat) →
    p'.pageTable.vmapVirtualToPhysical x = p.pageTable.vmapVirtualToPhysical x
  sum : start.toNat + length.toNat < 2 ^ 64

section
variable {p p' : Process} {entry : MmapEntry} {entries : List MmapEntry}
  {address length flags start : Word} {fd : Int} {i : Nat}

theorem heapLimit_eq : heapLimit = 2 ^ 46 + 2 ^ 34 := by decide

theorem heapVirtualBase_toNat : heapVirtualBase.toNat = 2 ^ 46 := by decide

/-! ## The free address -/

theorem Placed.endAddress_aligned (h : Placed entry) : entry.endAddress.toNat % 4096 = 0 := by
  have haligned := h.aligned
  rw [endAddress_toNat]
  omega

/-- The search stops only where it takes the area for exhausted. -/
theorem findFreeAddressSpace_eq_none_iff (hplaced : ∀ entry ∈ entries, Placed entry) :
    findFreeAddressSpace entries = none ↔
      entries.foldl skipEntry heapVirtualBase = heapVirtualBase ∧ entries ≠ [] := by
  have haligned : entries.foldl skipEntry heapVirtualBase % pageSize = 0 := by
    apply BitVec.eq_of_toNat_eq
    show (entries.foldl skipEntry heapVirtualBase).toNat % 4096 = 0
    obtain ⟨_, _, hsame | ⟨entry, hentry, hend⟩⟩ := foldl_skipEntry entries heapVirtualBase
    · rw [hsame]
      decide
    · rw [hend]
      exact (hplaced entry hentry).endAddress_aligned
  simp [findFreeAddressSpace, haligned]

/-- Where there is room, a region ends at the start of the area only if it
is empty. -/
theorem Placed.end_le_base (h : Placed entry) (hroom : Room entries length)
    (hentry : entry ∈ entries) (hend : entry.endAddress ≤ heapVirtualBase) :
    entry = emptyRegion := by
  have hbase := h.base
  have hsmall := h.small
  have hlimit := heapLimit_eq
  have hstart := heapVirtualBase_toNat
  have hlt := entry.virtualAddress.isLt
  have hend := BitVec.le_def.mp hend
  have hnone : entry.numPages.toNat = 0 := by
    by_contra hpages
    have hfirst := hroom.2 entry hentry 0 (Nat.pos_of_ne_zero hpages)
    rw [pageAt_toNat] at hfirst
    rw [endAddress_toNat] at hend
    omega
  rw [endAddress_toNat, hnone] at hend
  obtain ⟨virtualAddress, numPages⟩ := entry
  have haddress : virtualAddress = heapVirtualBase := by
    apply BitVec.eq_of_toNat_eq
    dsimp only at hend hbase hlt
    omega
  have hpages : numPages = 0 := BitVec.eq_of_toNat_eq hnone
  rw [haddress, hpages]
  rfl

/-- Where there is room, the search stops for empty regions only. -/
theorem findFreeAddressSpace_stops (hplaced : ∀ entry ∈ entries, Placed entry)
    (hroom : Room entries length) :
    findFreeAddressSpace entries = none ↔
      entries ≠ [] ∧ ∀ entry ∈ entries, entry = emptyRegion := by
  rw [findFreeAddressSpace_eq_none_iff hplaced]
  obtain ⟨_, hends, hwhich⟩ := foldl_skipEntry entries heapVirtualBase
  constructor
  · rintro ⟨hsame, hne⟩
    refine ⟨hne, fun entry hentry => ?_⟩
    have hend := hends entry hentry
    rw [hsame] at hend
    exact (hplaced entry hentry).end_le_base hroom hentry hend
  · rintro ⟨hne, hempty⟩
    refine ⟨?_, hne⟩
    rcases hwhich with hsame | ⟨entry, hentry, hend⟩
    · exact hsame
    · rw [hend, hempty entry hentry]
      decide

end

/-- In every run, the next region is found a place exactly if there is none
yet, or one that is more than an empty region where the area starts. -/
theorem addressFound_iff (history : List (Process × Action)) (p : Process)
    (hrun : Run Initial Step history p) (length : Word) :
    AddressFound p length ↔ (Room p.mmapEntries length → returnedRegions history = [] ∨
      ∃ region ∈ returnedRegions history, region ≠ emptyRegion) := by
  have hstops : Room p.mmapEntries length → (findFreeAddressSpace p.mmapEntries = none ↔
      p.mmapEntries ≠ [] ∧ ∀ entry ∈ p.mmapEntries, entry = emptyRegion) :=
    findFreeAddressSpace_stops (run_inv hrun).placed
  have hstart : p.startAddress 0 = findFreeAddressSpace p.mmapEntries := if_pos rfl
  unfold AddressFound
  rw [hstart, ← mmapEntries_eq hrun]
  refine forall_congr' fun hroom => ?_
  rw [Option.isSome_iff_ne_none, Ne, hstops hroom]
  simp [or_iff_not_imp_left]

/-- Behind a region with a page there is a place. -/
theorem oneRegion_addressFound : AddressFound oneRegion 4096 := by
  apply (addressFound_iff _ _ oneRegion_run 4096).mpr
  exact fun _ => .inr ⟨_, List.mem_cons_self, by decide⟩

/-- A region of no bytes, wherever there is room. -/
def mapNothing : Action := .mmap 0 0 mapRead (-1)

/-- After it, no region is found a place. -/
theorem emptyRegion_stops : ∃ history p, Run Initial Step history p ∧ ¬ AddressFound p 4096 := by
  have hexec : (exec newProcess mapNothing).map Process.mmapEntries = some [emptyRegion] := by
    decide
  obtain ⟨p, hp, hentries⟩ := Option.map_eq_some_iff.mp hexec
  refine ⟨_, p, .next (.start newProcess_initial) (exec_step _ _ _ hp), ?_⟩
  intro hfound
  have hroom : Room p.mmapEntries 4096 := by
    rw [hentries]
    refine ⟨by decide, ?_⟩
    intro entry hentry i hi
    rw [List.mem_singleton.mp hentry] at hi
    cases hi
  have hsome := hfound hroom
  have hstart : p.startAddress 0 = findFreeAddressSpace p.mmapEntries := if_pos rfl
  rw [hstart, hentries] at hsome
  revert hsome
  decide

/-! ## The range of a request -/

section
variable {p p' : Process} {address length flags start : Word} {fd : Int} {i : Nat}

theorem pageOffset_of_aligned {x : Word} (haligned : x.toNat % 4096 = 0) : pageOffset x = 0 :=
  BitVec.eq_of_toNat_eq ((pageOffset_toNat x).trans haligned)

theorem pageAt_aligned (haligned : start.toNat % 4096 = 0) (i : Nat) :
    (pageAt start i).toNat % 4096 = 0 := by
  rw [pageAt_toNat]
  omega

/-- A chosen address is at most the end of the area, so that no sum wraps. -/
theorem Mmapped.start_add (h : Inv p) (hmmap : Mmapped p address length flags fd start p') :
    2 ^ 64 ≤ start.toNat + length.toNat ↔ 2 ^ 64 ≤ address.toNat + length.toNat := by
  have hstart := hmmap.startAddress
  unfold Process.startAddress at hstart
  split at hstart
  · rename_i hzero
    have hsmall : (countPages length).toNat ≤ 2 ^ 31 := hmmap.placed.small
    have hcount := countPages_toNat length
    obtain ⟨_, _, hhigh, _⟩ := findFreeAddressSpace_spec h.placed hstart
    rw [hzero]
    show _ ↔ 2 ^ 64 ≤ 0 + length.toNat
    omega
  · cases hstart
    rfl

/-- If the sum wraps, the first page is behind the heap area. -/
theorem Mmapped.wrapped (hmmap : Mmapped p address length flags fd start p')
    (hwrap : 2 ^ 64 ≤ start.toNat + length.toNat) :
    0 < (countPages length).toNat ∧ heapLimit < (pageAt start 0).toNat := by
  have hsmall : (countPages length).toNat ≤ 2 ^ 31 := hmmap.placed.small
  have hcount := countPages_toNat length
  have hlimit := heapLimit_eq
  have hlt := start.isLt
  rw [pageAt_toNat]
  omega

/-- The end that was asked for has been checked. -/
theorem processMmap_checked (hcall : processMmap p address length flags fd = some (start, p')) :
    (start + length).toNat ≤ heapLimit := by
  unfold processMmap at hcall
  split at hcall
  · cases hcall
  split at hcall
  · cases hcall
  split at hcall
  · cases hcall
  split at hcall
  · cases hcall
  rename_i hchecked
  dsimp only at hcall
  split at hcall
  · cases hcall
  cases hcall
  exact BitVec.le_def.mp (BitVec.not_lt.mp hchecked)

/-- If it does not, the pages are in the heap area. -/
theorem Mmapped.within (hmmap : Mmapped p address length flags fd start p')
    (hchecked : (start + length).toNat ≤ heapLimit)
    (hfits : start.toNat + length.toNat < 2 ^ 64) :
    start.toNat + 4096 * (countPages length).toNat ≤ heapLimit := by
  have hcount := countPages_toNat length
  have hlimit := heapLimit_eq
  have haligned : start.toNat % 4096 = 0 := hmmap.placed.aligned
  rw [BitVec.toNat_add, Nat.mod_eq_of_lt hfits] at hchecked
  omega

theorem pageAt_of_within (hend : start.toNat + 4096 * (countPages length).toNat ≤ heapLimit)
    (hi : i < (countPages length).toNat) : (pageAt start i).toNat = start.toNat + 4096 * i := by
  have hlimit := heapLimit_eq
  rw [pageAt_toNat]
  omega

/-- The pages of a region that does not wrap are those between its ends. -/
theorem pageAt_iff (haligned : start.toNat % 4096 = 0)
    (hend : start.toNat + 4096 * (countPages length).toNat ≤ heapLimit) (x : Word) :
    (∃ i < (countPages length).toNat, x = pageAt start i) ↔ x.toNat % 4096 = 0 ∧
      start.toNat ≤ x.toNat ∧ x.toNat < start.toNat + 4096 * (countPages length).toNat := by
  constructor
  · rintro ⟨i, hi, rfl⟩
    rw [pageAt_of_within hend hi]
    omega
  · rintro ⟨hx, hlow, hhigh⟩
    have hi : (x.toNat - start.toNat) / 4096 < (countPages length).toNat := by omega
    refine ⟨(x.toNat - start.toNat) / 4096, hi, BitVec.eq_of_toNat_eq ?_⟩
    rw [pageAt_of_within hend hi]
    omega

theorem Mmapped.withinRange (hmmap : Mmapped p address length flags fd start p')
    (hchecked : (start + length).toNat ≤ heapLimit)
    (hfits : start.toNat + length.toNat < 2 ^ 64) : WithinRange p length flags fd start p' := by
  have hend := hmmap.within hchecked hfits
  have haligned : start.toNat % 4096 = 0 := hmmap.placed.aligned
  have hbase : 2 ^ 46 ≤ start.toNat := hmmap.placed.base
  have hlimit := heapLimit_eq
  have hstart := heapVirtualBase_toNat
  refine ⟨?_, ?_, ⟨_, hmmap.mmapEntries, hend, pageAt_iff haligned hend⟩, ?_, hfits⟩
  · intro i hi
    rw [pageAt_of_within hend hi]
    omega
  · intro i hi
    obtain ⟨page, hpage, htranslate⟩ := hmmap.inside hi
    have haligned := pageAt_aligned haligned i
    refine ⟨page, hpage, ?_⟩
    rw [htranslate _ rfl, pageOffset_of_aligned haligned]
    simp
  · intro x hx hout
    apply hmmap.outside
    rintro ⟨i, hi, hnumber⟩
    change i < (countPages length).toNat at hi
    have hsmall : (countPages length).toNat ≤ 2 ^ 31 := hmmap.placed.small
    rw [regionOf, pageNumber_pageAt] at hnumber
    dsimp only at hnumber
    unfold pageNumber at hnumber
    omega

end

/-- A call that returns has kept to the heap area exactly if the end that was
asked for does not wrap. -/
theorem mmap_within_iff (history : List (Process × Action)) (p p' : Process)
    (hrun : Run Initial Step history p) (address length flags start : Word) (fd : Int)
    (hcall : processMmap p address length flags fd = some (start, p')) :
    WithinRange p length flags fd start p' ↔ address.toNat + length.toNat < 2 ^ 64 := by
  have hinv := run_inv hrun
  have hmmap := processMmap_spec hinv hcall
  have hsum := hmmap.start_add hinv
  constructor
  · intro hwithin
    by_contra hwrap
    obtain ⟨hpages, hpage⟩ := hmmap.wrapped (hsum.mpr (Nat.le_of_not_lt hwrap))
    have hlast := (hwithin.pages 0 hpages).2
    omega
  · intro hfits
    have hchecked := processMmap_checked hcall
    exact hmmap.withinRange hchecked (Nat.lt_of_not_le fun hwrap =>
      Nat.not_le.mpr hfits (hsum.mp hwrap))

/-- A region behind the first one keeps to it. -/
theorem nextRegion_within : ∃ start p', processMmap oneRegion 0 1 mapRead (-1) =
    some (start, p') ∧ WithinRange oneRegion 1 mapRead (-1) start p' := by
  have hsome : (processMmap oneRegion 0 1 mapRead (-1)).isSome = true := by decide
  obtain ⟨⟨start, p'⟩, hcall⟩ := Option.isSome_iff_exists.mp hsome
  exact ⟨start, p', hcall,
    (mmap_within_iff _ _ _ oneRegion_run 0 1 mapRead start (-1) hcall).mpr (by decide)⟩

/-- The last page of the address space ends at 0, and is mapped. -/
theorem lastPage_outside : Run Initial Step [] newProcess ∧
    ∃ p', processMmap newProcess 0xFFFFFFFFFFFFF000 4096 mapRead (-1) =
        some (0xFFFFFFFFFFFFF000, p') ∧
      ¬ WithinRange newProcess 4096 mapRead (-1) 0xFFFFFFFFFFFFF000 p' := by
  have hstart : (processMmap newProcess 0xFFFFFFFFFFFFF000 4096 mapRead (-1)).map Prod.fst =
      some 0xFFFFFFFFFFFFF000 := by decide
  obtain ⟨⟨start, p'⟩, hcall, hsame⟩ := Option.map_eq_some_iff.mp hstart
  cases hsame
  refine ⟨.start newProcess_initial, p', hcall, fun hwithin => ?_⟩
  have hpage := (hwithin.pages 0 (by decide)).2
  revert hpage
  decide

end ZOs.ProcessMemory
