import ZOs.Process.Regions

/-!
# Runs of `process_mmap`

A process maps regions one after another. In between it runs, and others
do: memory outside of its tables changes, files are opened, and what
`page_alloc_block` will give next is settled anew. What it promises is that
it never gives a page that is in use.
-/

namespace ZOs.ProcessMemory

open Paging Runs

/-- What `page_alloc_block` promises: pages of the direct-map window, each
given once, that are no tables, are not mapped, and belong to no object. -/
structure Promise (p : Process) : Prop where
  answers : FreshAnswers p.pageTable
  page : ∀ page, some page ∈ p.blocks → page.toNat % 4096 = 0 ∧ page.toNat < 2 ^ 34
  once : (p.blocks.filterMap id).Nodup
  mapped : ∀ x pa, p.pageTable.vmapVirtualToPhysical x = some pa → some (frame pa) ∉ p.blocks
  objects : ∀ fd object, p.fdTable fd = some (.sharedMemory object) →
    ∀ page ∈ object.pages, some (frame page) ∉ p.blocks

/-- What else may happen between two calls. -/
structure Others (p p' : Process) : Prop where
  tables : SameTables p.pageTable p'.pageTable
  mmapEntries : p'.mmapEntries = p.mmapEntries
  promise : Promise p'

inductive Action
  | mmap (address length flags : Word) (fd : Int)
  | others

/-- A call returned, or something else happened. -/
def Step (p : Process) : Action → Process → Prop
  | .mmap address length flags fd, p' =>
    ∃ start, processMmap p address length flags fd = some (start, p')
  | .others, p' => Others p p'

/-- A process that has mapped nothing yet, with the tables that
`vmap_map_page` has built for its stack and program. -/
structure Initial (p : Process) : Prop where
  pageTable : ∃ history, Run EmptyRoot MapsPage history p.pageTable
  mmapEntries : p.mmapEntries = []
  promise : Promise p

structure Inv (p : Process) : Prop where
  wellFormed : WellFormed p.pageTable
  pagesOnly : PagesOnly p.pageTable
  promise : Promise p
  placed : ∀ entry ∈ p.mmapEntries, Placed entry

section
variable {p p' : Process} {address length flags start : Word} {fd : Int}

/-! ## One call -/

/-- The page that a call takes for page `i` of its region. -/
def Process.PageFor (p : Process) (flags : Word) (fd : Int) (i : Nat) (page : Word) : Prop :=
  if flags &&& mapShared ≠ 0 then
    ∃ object, p.sharedMemory fd = some object ∧ object.pages[i]? = some page
  else p.blocks[i]? = some (some page)

/-- Different pages of the window are not many. -/
theorem length_le_of_nodup {pages : List Word} (hnodup : pages.Nodup)
    (hpage : ∀ page ∈ pages, page.toNat % 4096 = 0 ∧ page.toNat < 2 ^ 34) :
    pages.length ≤ 2 ^ 22 := by
  have hnumbers : (pages.map fun page => page.toNat / 4096).Nodup := by
    apply hnodup.map_on
    intro page hp page' hp' heq
    have hp := hpage page hp
    have hp' := hpage page' hp'
    apply BitVec.eq_of_toNat_eq
    omega
  have hsub : (pages.map fun page => page.toNat / 4096) ⊆ List.range (2 ^ 22) := by
    intro number hnumber
    obtain ⟨page, hp, rfl⟩ := List.mem_map.mp hnumber
    have hp := hpage page hp
    rw [List.mem_range]
    omega
  have hle := (hnumbers.subperm hsub).length_le
  rwa [List.length_map, List.length_range] at hle

/-- What a returning call has done. -/
structure Mmapped (p : Process) (address length flags : Word) (fd : Int) (start : Word)
    (p' : Process) : Prop where
  startAddress : p.startAddress address = some start
  placed : Placed ⟨start, countPages length⟩
  pages : ∃ pages, pages.length = (countPages length).toNat ∧
    Mapped p.pageTable p'.pageTable start 0 pages ∧
    (∀ i page, pages[i]? = some page → p.PageFor flags fd i page) ∧
    (flags &&& mapShared = 0 → p.blocks = pages.map some ++ p'.blocks) ∧
    (flags &&& mapShared ≠ 0 → p'.blocks = p.blocks)
  fdTable : p'.fdTable = p.fdTable
  mmapEntries : p'.mmapEntries = p.mmapEntries ++ [⟨start, countPages length⟩]

/-- The pages of a region are found. -/
theorem mapRegion_spec {numPages : Word} (h : Inv p)
    (heq : p.mapRegion start numPages flags fd = some p') :
    ∃ pages, pages.length = numPages.toNat ∧ pages.length ≤ 2 ^ 31 ∧
      Mapped p.pageTable p'.pageTable start 0 pages ∧
      (∀ i page, pages[i]? = some page → p.PageFor flags fd i page) ∧
      (flags &&& mapShared = 0 → p.blocks = pages.map some ++ p'.blocks) ∧
      (flags &&& mapShared ≠ 0 → p'.blocks = p.blocks) ∧
      p' = { p with pageTable := p'.pageTable, blocks := p'.blocks } := by
  unfold Process.mapRegion at heq
  split at heq
  · rename_i hshared
    split at heq
    · cases heq
    rename_i object hobject
    obtain ⟨pages, hlength, hmapped, ⟨hblocks, htakes⟩, hp'⟩ :=
      mapPages_spec (sharedPage_supply object) (mmapPageFlags_attributes flags) _
        h.wellFormed h.pagesOnly heq
    have hpages : ∀ (i : Nat) (page : Word), pages[i]? = some page →
        object.pages[i]? = some page := by
      intro i page hi
      have htaken := htakes i page hi
      rwa [Nat.zero_add] at htaken
    refine ⟨pages, hlength, ?_, hmapped, ?_, ?_, fun _ => hblocks, hp'⟩
    · have hle : pages.length ≤ object.pages.length := by
        by_contra hlt
        have hlast := hpages object.pages.length _ (List.getElem?_eq_getElem (by omega))
        rw [List.getElem?_eq_none (Nat.le_refl _)] at hlast
        cases hlast
      have hfits := object.fits
      omega
    · intro i page hi
      unfold Process.PageFor
      rw [if_pos hshared]
      exact ⟨object, hobject, hpages i page hi⟩
    · exact fun hzero => absurd hzero hshared
  · rename_i hshared
    obtain ⟨pages, hlength, hmapped, htakes, hp'⟩ :=
      mapPages_spec privatePage_supply (mmapPageFlags_attributes flags) _
        h.wellFormed h.pagesOnly heq
    refine ⟨pages, hlength, ?_, hmapped, ?_, fun _ => htakes, fun hne => absurd hne hshared, hp'⟩
    · have honce := h.promise.once
      rw [htakes, List.filterMap_append, List.filterMap_map] at honce
      have hsome : pages.filterMap (id ∘ some) = pages := List.filterMap_some
      rw [hsome] at honce
      have hle := length_le_of_nodup (List.nodup_append.mp honce).1 fun page hpage =>
        h.promise.page page (htakes ▸ List.mem_append_left _ (List.mem_map_of_mem hpage))
      omega
    · intro i page hi
      unfold Process.PageFor
      rw [if_neg hshared, htakes, List.getElem?_append_left, List.getElem?_map, hi]
      · rfl
      · obtain ⟨hlt, _⟩ := List.getElem?_eq_some_iff.mp hi
        rwa [List.length_map]

/-- `process_mmap`. -/
theorem processMmap_spec (h : Inv p)
    (heq : processMmap p address length flags fd = some (start, p')) :
    Mmapped p address length flags fd start p' := by
  have hbase : heapVirtualBase.toNat = 2 ^ 46 := by decide
  have hlimit : (heapVirtualBase + heapSize).toNat = 2 ^ 46 + 2 ^ 34 := by decide
  unfold processMmap at heq
  split at heq
  · cases heq
  rename_i haligned
  split at heq
  · cases heq
  rename_i start' hstart
  split at heq
  · cases heq
  rename_i hlow
  split at heq
  · cases heq
  rename_i hhigh
  dsimp only at heq
  split at heq
  · cases heq
  rename_i p₁ hregion
  cases heq
  have hlow := Nat.le_of_not_lt fun hlt => hlow (BitVec.lt_def.mpr hlt)
  have hhigh := Nat.le_of_not_lt fun hlt => hhigh (BitVec.lt_def.mpr hlt)
  rw [hbase] at hlow
  rw [hlimit, BitVec.toNat_add] at hhigh
  have hstartAligned : start.toNat % 4096 = 0 := by
    unfold Process.startAddress at hstart
    split at hstart
    · exact (findFreeAddressSpace_spec h.placed hstart).1
    · cases hstart
      exact congrArg BitVec.toNat (not_not.mp haligned)
  obtain ⟨pages, hlength, hsmall, hmapped, hfor, hprivate, hshared, hp₁⟩ :=
    mapRegion_spec h hregion
  have hcount := countPages_toNat length
  have hlt := start.isLt
  refine ⟨hstart, ⟨hstartAligned, hlow, ?_, ?_⟩,
    ⟨pages, hlength, hmapped, hfor, hprivate, hshared⟩, by rw [hp₁], by rw [hp₁]⟩
  · show (countPages length).toNat ≤ 2 ^ 31
    omega
  · show start.toNat + 4096 * (countPages length).toNat ≤ 2 ^ 46 + 2 ^ 34 ∨
      2 ^ 64 ≤ start.toNat + 4096 * (countPages length).toNat
    omega

/-- The region of a call. -/
def regionOf (start length : Word) : MmapEntry := ⟨start, countPages length⟩

/-- An address of page `i` is in the page that was taken for it. -/
theorem Mmapped.inside (h : Mmapped p address length flags fd start p') {i : Nat}
    (hi : i < (countPages length).toNat) :
    ∃ page, p.PageFor flags fd i page ∧ ∀ x, pageNumber x = pageNumber (pageAt start i) →
      p'.pageTable.vmapVirtualToPhysical x = some (frame page + pageOffset x) := by
  obtain ⟨pages, hlength, hmapped, hfor, _, _⟩ := h.pages
  have hsmall : (countPages length).toNat ≤ 2 ^ 31 := h.placed.small
  have hpage : pages[i]? = some pages[i] := List.getElem?_eq_getElem (hlength ▸ hi)
  refine ⟨pages[i], hfor i _ hpage, fun x hx => hmapped.inside (by omega) i _ hpage x ?_⟩
  rw [hx, Nat.zero_add]

/-- The other addresses are translated as before. -/
theorem Mmapped.outside (h : Mmapped p address length flags fd start p') {x : Word}
    (hx : ¬ (regionOf start length).HasPage (pageNumber x)) :
    p'.pageTable.vmapVirtualToPhysical x = p.pageTable.vmapVirtualToPhysical x := by
  obtain ⟨pages, hlength, hmapped, _, _, _⟩ := h.pages
  apply hmapped.outside
  intro j hj heq
  rw [Nat.zero_add] at heq
  exact hx ⟨j, hlength ▸ hj, heq⟩

theorem Mmapped.blocks (h : Mmapped p address length flags fd start p') :
    p'.blocks <:+ p.blocks := by
  obtain ⟨pages, _, _, _, hprivate, hshared⟩ := h.pages
  by_cases hflag : flags &&& mapShared = 0
  · exact ⟨_, (hprivate hflag).symm⟩
  · rw [hshared hflag]

theorem Process.sharedMemory_fdTable {object : SharedMemory}
    (h : p.sharedMemory fd = some object) : p.fdTable fd = some (.sharedMemory object) := by
  unfold Process.sharedMemory at h
  split at h
  · cases h
  split at h
  · rename_i hfile
    cases h
    exact hfile
  · cases h

/-- A block is the page that an entry with it leads to. -/
theorem Promise.frame_eq (h : Promise p) {page : Word} (hpage : some page ∈ p.blocks) :
    frame page = page := by
  obtain ⟨haligned, hlt⟩ := h.page page hpage
  exact frame_of_aligned haligned (by omega)

/-- The pages of a region will not be given again. -/
theorem Mmapped.notMem_blocks (h : Mmapped p address length flags fd start p')
    (hpromise : Promise p)
    {i : Nat} {page : Word} (hi : i < (countPages length).toNat)
    (hpage : p.PageFor flags fd i page) : some (frame page) ∉ p'.blocks := by
  obtain ⟨pages, hlength, _, _, hprivate, hshared⟩ := h.pages
  unfold Process.PageFor at hpage
  split at hpage
  · rename_i hflag
    obtain ⟨object, hobject, hget⟩ := hpage
    rw [hshared hflag]
    exact hpromise.objects fd object (Process.sharedMemory_fdTable hobject) page
      (List.mem_of_getElem? hget)
  · rename_i hflag
    have hblocks := hprivate (not_not.mp hflag)
    rw [hpromise.frame_eq (List.mem_of_getElem? hpage)]
    intro hrest
    rw [hblocks, List.getElem?_append_left (by rwa [List.length_map, hlength])] at hpage
    have honce := hpromise.once
    rw [hblocks, List.filterMap_append, List.nodup_append] at honce
    have hin : page ∈ (pages.map some).filterMap id :=
      List.mem_filterMap.mpr ⟨some page, List.mem_of_getElem? hpage, rfl⟩
    exact honce.2.2 page hin page (List.mem_filterMap.mpr ⟨some page, hrest, rfl⟩) rfl

/-! ## Invariant -/

theorem Inv.mmap (h : Inv p) (hcall : processMmap p address length flags fd = some (start, p')) :
    Inv p' := by
  have hmmap := processMmap_spec h hcall
  have hpromise := h.promise
  have hsub := hmmap.blocks.subset
  obtain ⟨_, _, hmapped, _⟩ := hmmap.pages
  refine ⟨hmapped.wellFormed, hmapped.pagesOnly, ⟨hmapped.wellFormed.answers, ?_, ?_, ?_, ?_⟩,
    ?_⟩
  · exact fun page hpage => hpromise.page page (hsub hpage)
  · exact hpromise.once.sublist (hmmap.blocks.sublist.filterMap id)
  · intro x pa hx
    by_cases hin : (regionOf start length).HasPage (pageNumber x)
    · obtain ⟨i, hi, hnumber⟩ := hin
      obtain ⟨page, hpage, htranslate⟩ := hmmap.inside hi
      cases hx.symm.trans (htranslate x hnumber)
      rw [frame_add]
      exact hmmap.notMem_blocks hpromise hi hpage
    · rw [hmmap.outside hin] at hx
      exact fun hmem => hpromise.mapped x pa hx (hsub hmem)
  · intro fd' object hobject page hpage hmem
    rw [hmmap.fdTable] at hobject
    exact hpromise.objects fd' object hobject page hpage (hsub hmem)
  · intro entry hentry
    rw [hmmap.mmapEntries] at hentry
    rcases List.mem_append.mp hentry with hold | hnew
    · exact h.placed entry hold
    · rw [List.mem_singleton.mp hnew]
      exact hmmap.placed

theorem Inv.others (h : Inv p) (hothers : Others p p') : Inv p' := by
  obtain ⟨htables, hentries, hpromise⟩ := hothers
  refine ⟨htables.wellFormed h.wellFormed hpromise.answers,
    htables.pagesOnly h.wellFormed h.pagesOnly, hpromise, ?_⟩
  rw [hentries]
  exact h.placed

theorem Inv.step {action : Action} (h : Inv p) (hstep : Step p action p') : Inv p' := by
  cases action with
  | mmap address length flags fd =>
    obtain ⟨start, hcall⟩ := hstep
    exact h.mmap hcall
  | others => exact h.others hstep

theorem Initial.inv (h : Initial p) : Inv p := by
  obtain ⟨⟨history, hrun⟩, hentries, hpromise⟩ := h
  obtain ⟨hwf, hpages⟩ := run_pagesOnly hrun
  refine ⟨hwf, hpages, hpromise, ?_⟩
  rw [hentries]
  exact fun _ h => absurd h List.not_mem_nil

theorem run_inv {history : List (Process × Action)} (h : Run Initial Step history p) : Inv p :=
  h.invariant (fun _ hinit => hinit.inv) fun _ _ _ hinv hstep => hinv.step hstep

/-- The region that a call returned. -/
def returned : Process × Action → Option MmapEntry
  | (p, .mmap address length flags fd) =>
    (processMmap p address length flags fd).map fun result => regionOf result.1 length
  | (_, .others) => none

/-- The regions of the calls of a run, first to last. -/
def returnedRegions (history : List (Process × Action)) : List MmapEntry :=
  history.reverse.filterMap returned

theorem mmapEntries_eq {history : List (Process × Action)} (h : Run Initial Step history p) :
    p.mmapEntries = returnedRegions history := by
  induction h with
  | start hinit => exact hinit.mmapEntries
  | @next history p action p' hrun hstep ih =>
    unfold returnedRegions at *
    rw [List.reverse_cons, List.filterMap_append, ← ih]
    cases action with
    | mmap address length flags fd =>
      obtain ⟨start, hcall⟩ := hstep
      rw [(processMmap_spec (run_inv hrun) hcall).mmapEntries]
      simp [returned, hcall, regionOf]
    | others =>
      have hothers : Others p p' := hstep
      rw [hothers.mmapEntries]
      exact (List.append_nil _).symm

/-- The address that is found is behind all regions. -/
theorem Mmapped.fresh (h : Inv p) (hmmap : Mmapped p 0 length flags fd start p') {entry : MmapEntry}
    (hentry : entry ∈ p.mmapEntries) {x : Word}
    (hx : (regionOf start length).HasPage (pageNumber x)) : ¬ entry.HasPage (pageNumber x) := by
  have hfind : findFreeAddressSpace p.mmapEntries = some start := hmmap.startAddress
  obtain ⟨_, _, hle, habove⟩ := findFreeAddressSpace_spec h.placed hfind
  apply (h.placed entry hentry).disjoint hmmap.placed _ (habove entry hentry) hx
  have hfits : start.toNat + 4096 * (countPages length).toNat ≤ 2 ^ 46 + 2 ^ 34 ∨
    2 ^ 64 ≤ start.toNat + 4096 * (countPages length).toNat := hmmap.placed.fits
  have hsmall : (countPages length).toNat ≤ 2 ^ 31 := hmmap.placed.small
  show start.toNat + 4096 * (countPages length).toNat ≤ 2 ^ 46 + 2 ^ 34
  omega

end

/-- A call with address 0 maps a region of its own, and nothing else. -/
theorem mmap_chosen_fresh (history : List (Process × Action)) (p p' : Process)
    (hrun : Run Initial Step history p) (length flags start : Word) (fd : Int)
    (hcall : processMmap p 0 length flags fd = some (start, p')) :
    start % pageSize = 0 ∧ heapVirtualBase ≤ start ∧
    (∀ entry ∈ returnedRegions history, ∀ x y, (regionOf start length).Contains x →
      entry.Contains y → pageNumber x ≠ pageNumber y) ∧
    (∀ i < (length.toNat + 4095) / 4096, ∃ page, p.PageFor flags fd i page ∧
      ∀ off : Word, off.toNat < 4096 →
        p'.pageTable.vmapVirtualToPhysical (pageAt start i + off) = some (frame page + off)) ∧
    ∀ x, ¬ (regionOf start length).HasPage (pageNumber x) →
      p'.pageTable.vmapVirtualToPhysical x = p.pageTable.vmapVirtualToPhysical x := by
  have hinv := run_inv hrun
  have hmmap := processMmap_spec hinv hcall
  have hplaced : Placed (regionOf start length) := hmmap.placed
  have haligned : start.toNat % 4096 = 0 := hplaced.aligned
  refine ⟨?_, ?_, ?_, ?_, fun x hx => hmmap.outside hx⟩
  · apply BitVec.eq_of_toNat_eq
    rw [BitVec.toNat_umod]
    exact haligned
  · exact BitVec.le_def.mpr hplaced.base
  · intro entry hentry x y hx hy heq
    rw [← mmapEntries_eq hrun] at hentry
    apply hmmap.fresh hinv hentry (hx.hasPage haligned)
    rw [heq]
    exact hy.hasPage (hinv.placed entry hentry).aligned
  · intro i hi
    rw [← countPages_toNat] at hi
    obtain ⟨page, hpage, htranslate⟩ := hmmap.inside hi
    refine ⟨page, hpage, fun off hoff => ?_⟩
    obtain ⟨_, hnumber, hoffset⟩ :=
      @contains_pageAt off (regionOf start length) i haligned hplaced.small hi hoff
    exact (htranslate _ hnumber).trans (congrArg (fun o => some (frame page + o)) hoffset)

/-! ## Live mappings -/

/-- The call changes no address of a region that is mapped. -/
def Keeps (p : Process) (action : Action) : Prop :=
  ∀ p', Step p action p' → ∀ entry ∈ p.mmapEntries, ∀ x, entry.Contains x →
    p'.pageTable.vmapVirtualToPhysical x = p.pageTable.vmapVirtualToPhysical x

/-- Where the pages of the call are in a region that is mapped, the call
maps the pages of a shared object that are mapped there already. -/
def Undisturbing (p : Process) : Action → Prop
  | .mmap address length flags fd =>
    ∀ start, p.startAddress address = some start → ∀ entry ∈ p.mmapEntries, ∀ x, entry.Contains x →
      ∀ i < (countPages length).toNat, pageNumber x = pageNumber (pageAt start i) →
        flags &&& mapShared ≠ 0 ∧ ∃ object page, p.sharedMemory fd = some object ∧
          object.pages[i]? = some page ∧
          p.pageTable.vmapVirtualToPhysical x = some (frame page + pageOffset x)
  | .others => True

section
variable {p p' : Process} {address length flags start : Word} {fd : Int} {action : Action}

/-- A call that keeps the regions does not put new pages into them. -/
theorem Mmapped.undisturbing (h : Inv p) (hmmap : Mmapped p address length flags fd start p')
    {x : Word} {i : Nat} (hi : i < (countPages length).toNat)
    (hnumber : pageNumber x = pageNumber (pageAt start i))
    (hkept : p'.pageTable.vmapVirtualToPhysical x = p.pageTable.vmapVirtualToPhysical x) :
    flags &&& mapShared ≠ 0 ∧ ∃ object page, p.sharedMemory fd = some object ∧
      object.pages[i]? = some page ∧
      p.pageTable.vmapVirtualToPhysical x = some (frame page + pageOffset x) := by
  obtain ⟨page, hpage, htranslate⟩ := hmmap.inside hi
  have hnow := htranslate x hnumber
  rw [hkept] at hnow
  unfold Process.PageFor at hpage
  split at hpage
  · rename_i hflag
    obtain ⟨object, hobject, hget⟩ := hpage
    exact ⟨hflag, object, page, hobject, hget, hnow⟩
  · -- a page just taken was not mapped before
    have hmem := List.mem_of_getElem? hpage
    have hnot := h.promise.mapped x _ hnow
    rw [frame_add, h.promise.frame_eq hmem] at hnot
    exact absurd hmem hnot

theorem keeps_iff (h : Inv p) (hstep : Step p action p') :
    Keeps p action ↔ Undisturbing p action := by
  cases action with
  | others =>
    constructor
    · exact fun _ => trivial
    · intro _ p'' hothers entry _ x _
      have hothers : Others p p'' := hothers
      exact hothers.tables.translate h.wellFormed x
  | mmap address length flags fd =>
    constructor
    · intro hkeeps start hstart entry hentry x hx i hi hnumber
      obtain ⟨start', hcall⟩ := hstep
      have hmmap := processMmap_spec h hcall
      cases hstart.symm.trans hmmap.startAddress
      exact hmmap.undisturbing h hi hnumber (hkeeps p' ⟨start, hcall⟩ entry hentry x hx)
    · intro hundisturbing p'' ⟨start', hcall⟩ entry hentry x hx
      have hmmap := processMmap_spec h hcall
      by_cases hin : (regionOf start' length).HasPage (pageNumber x)
      · obtain ⟨i, hi, hnumber⟩ := hin
        obtain ⟨hflag, object, page, hobject, hget, hmapped⟩ :=
          hundisturbing start' hmmap.startAddress entry hentry x hx i hi hnumber
        obtain ⟨page', hpage, htranslate⟩ := hmmap.inside hi
        unfold Process.PageFor at hpage
        rw [if_pos hflag] at hpage
        obtain ⟨object', hobject', hget'⟩ := hpage
        cases hobject.symm.trans hobject'
        cases hget.symm.trans hget'
        rw [htranslate x hnumber, hmapped]
      · exact hmmap.outside hin

end

/-- A process without a page table. -/
def newProcess : Process where
  pageTable := fourPages
  blocks := [some 0x5000, some 0x6000]
  memoryPages := []
  mmapEntries := []
  fdTable := fun _ => none

theorem newProcess_initial : Initial newProcess where
  pageTable := ⟨[], .start fourPages_empty⟩
  mmapEntries := rfl
  promise :=
    { answers := fourPages_answers
      page := by
        intro page hpage
        have hmem : page = 0x5000 ∨ page = 0x6000 := by simpa [newProcess] using hpage
        rcases hmem with rfl | rfl <;> exact ⟨by decide, by decide⟩
      once := by decide
      mapped := by
        intro x pa hx
        cases hx
      objects := fun _ _ h => by cases h }

/-- A step, executed. -/
def exec (p : Process) : Action → Option Process
  | .mmap address length flags fd => (processMmap p address length flags fd).map Prod.snd
  | .others => none

theorem exec_step (p : Process) (action : Action) (p' : Process) (h : exec p action = some p') :
    Step p action p' := by
  cases action with
  | mmap address length flags fd =>
    obtain ⟨⟨start, q⟩, hcall, rfl⟩ := Option.map_eq_some_iff.mp h
    exact ⟨start, hcall⟩
  | others => cases h

/-- One page is mapped at the start of the heap area. -/
def mapFirst : Action := .mmap heapVirtualBase 1 (mapRead ||| mapWrite) (-1)

def oneRegion : Process := (exec newProcess mapFirst).getD newProcess

theorem oneRegion_step : Step newProcess mapFirst oneRegion := by
  apply exec_step
  have hsome : (exec newProcess mapFirst).isSome := by decide
  obtain ⟨p, hp⟩ := Option.isSome_iff_exists.mp hsome
  unfold oneRegion
  rw [hp]
  rfl

theorem oneRegion_run : Run Initial Step [(newProcess, mapFirst)] oneRegion :=
  .next (.start newProcess_initial) oneRegion_step

/-- The next region is mapped behind it. -/
theorem second_region_fresh : ∃ p', processMmap oneRegion 0 1 mapRead (-1) =
    some (0x400000001000, p') ∧
    ∀ x, ¬ (regionOf 0x400000001000 1).HasPage (pageNumber x) →
      p'.pageTable.vmapVirtualToPhysical x = oneRegion.pageTable.vmapVirtualToPhysical x := by
  have hstart : (processMmap oneRegion 0 1 mapRead (-1)).map Prod.fst = some 0x400000001000 := by
    decide
  obtain ⟨⟨start, p'⟩, hcall, heq⟩ := Option.map_eq_some_iff.mp hstart
  have heq : start = 0x400000001000 := heq
  subst heq
  exact ⟨p', hcall, (mmap_chosen_fresh _ oneRegion p' oneRegion_run 1 mapRead _ (-1) hcall).2.2.2.2⟩

end ZOs.ProcessMemory
