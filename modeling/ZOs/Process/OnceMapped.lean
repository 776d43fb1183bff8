import ZOs.Process.MmapRuns
import ZOs.Process.Separate

/-!
# Pages that are mapped once

A page that a process has taken for itself is at one place in it. Loading and
`process_mmap` keep this: each block is mapped at one page number, and no block
that is still to be given is mapped.
-/

namespace ZOs.ProcessMemory

open Paging Attempt Elf

/-- What the process owns is mapped at one place, and blocks are mapped nowhere. -/
structure OnceMapped (Own : Word → Prop) (p : Process) : Prop where
  place : ∀ x y pa pb, p.pageTable.vmapVirtualToPhysical x = some pa →
    p.pageTable.vmapVirtualToPhysical y = some pb → frame pa = frame pb → Own (frame pa) →
    pageNumber x = pageNumber y
  block : ∀ x pa, p.pageTable.vmapVirtualToPhysical x = some pa → some (frame pa) ∉ p.blocks

section
variable {Own Own' : Word → Prop} {p p' : Process} {file : Buffer} {v : Visit} {vs ws : List Visit}
  {virtualAddress pageFlags : Word} {result : Option Word} {l l' : Loading}

/-- Pages that were not mapped can become the process's own. -/
theorem OnceMapped.mono (h : OnceMapped Own p)
    (hown : ∀ x pa, p.pageTable.vmapVirtualToPhysical x = some pa → Own' (frame pa) →
      Own (frame pa)) : OnceMapped Own' p where
  place x y pa pb hx hy hframe how := h.place x y pa pb hx hy hframe (hown x pa hx how)
  block := h.block

theorem OnceMapped.same (h : OnceMapped Own p)
    (hsame : ∀ x pa, p'.pageTable.vmapVirtualToPhysical x = some pa →
      p.pageTable.vmapVirtualToPhysical x = some pa)
    (hblocks : p'.blocks ⊆ p.blocks) : OnceMapped Own p' where
  place x y pa pb hx hy := h.place x y pa pb (hsame x pa hx) (hsame y pb hy)
  block x pa hx hmem := h.block x pa (hsame x pa hx) (hblocks hmem)

/-- The process has got no block, so it has got no page. -/
theorem OnceMapped.extends (h : OnceMapped Own p) (hextends : Extends p p')
    (hblocks : p'.blocks = p.blocks) : OnceMapped Own p' := by
  refine h.same (fun x pa hx => ?_) (hblocks ▸ List.Subset.refl _)
  rcases hextends.added x pa hx with hold | ⟨hgiven, hleft⟩
  · exact hold
  · exact absurd (hblocks ▸ hgiven) hleft

/-- A block is mapped where nothing was. -/
theorem OnceMapped.entered {pageTable : Vmap} {page : Word} {blocks : List (Option Word)}
    (h : OnceMapped Own p) (hseparate : Separate p) (hflags : AttributeFlags pageFlags)
    (hblocks : p.blocks = some page :: blocks)
    (hentered : Entered p.pageTable pageTable (path virtualAddress) (pageEntry page pageFlags)) :
    OnceMapped Own { p with pageTable, blocks } := by
  obtain ⟨hframe, -⟩ := hseparate.block page (hblocks ▸ List.mem_cons_self ..)
  have hpage : some page ∈ p.blocks := hblocks ▸ List.mem_cons_self ..
  have hleft : some page ∉ blocks := by
    have honce := hseparate.once
    rw [hblocks] at honce
    exact fun hmem => (List.nodup_cons.mp honce).1 (List.mem_filterMap.mpr ⟨some page, hmem, rfl⟩)
  -- the page is the block at the address, and elsewhere as before
  have hwhere {x pa : Word} (hx : pageTable.vmapVirtualToPhysical x = some pa) :
      pageNumber x = pageNumber virtualAddress ∧ frame pa = page ∨
        pageNumber x ≠ pageNumber virtualAddress ∧
          p.pageTable.vmapVirtualToPhysical x = some pa := by
    by_cases hnumber : pageNumber x = pageNumber virtualAddress
    · cases (entered_here hentered hflags hnumber).symm.trans hx
      exact .inl ⟨hnumber, by rw [frame_add, hframe]⟩
    · exact .inr ⟨hnumber, (hentered.elsewhere hnumber).symm.trans hx⟩
  constructor
  · intro x y pa pb hx hy heq how
    rcases hwhere hx with ⟨hnx, hpa⟩ | ⟨-, hx⟩
    · rcases hwhere hy with ⟨hny, -⟩ | ⟨-, hy⟩
      · exact hnx.trans hny.symm
      · exact absurd (by rw [← heq, hpa]; exact hpage) (h.block y pb hy)
    · rcases hwhere hy with ⟨-, hpb⟩ | ⟨-, hy⟩
      · exact absurd (by rw [heq, hpb]; exact hpage) (h.block x pa hx)
      · exact h.place x y pa pb hx hy heq how
  · intro x pa hx hmem
    rcases hwhere hx with ⟨-, rfl⟩ | ⟨-, hx⟩
    · exact hleft hmem
    · exact h.block x pa hx (hblocks ▸ List.mem_cons_of_mem _ hmem)

theorem findPage_once (h : OnceMapped Own p) (hseparate : Separate p)
    (hflags : AttributeFlags pageFlags)
    (hcall : findPage virtualAddress pageFlags p = (result, p')) : OnceMapped Own p' := by
  have hloads := findPage_loads hseparate hflags hcall
  cases result with
  | some physicalAddress =>
    cases findPage_returned hseparate.wellFormed hseparate.pagesOnly hcall with
    | existing => exact h
    | new _ hblocks hentered _ => exact h.entered hseparate hflags hblocks hentered
  | none =>
    -- nothing has been mapped, whatever has been taken
    unfold findPage at hcall
    split at hcall
    · cases hcall
    · rcases takeBlock_spec p with ⟨blocks, hsub, htake⟩ | ⟨page, blocks, hblocks, htake⟩
      · cases (bind_gaveUp htake).symm.trans hcall
        exact h.same (fun _ _ hx => hx) hsub.subset
      · have hrest := (bind_eq htake).symm.trans hcall
        have hspec := vmapMapPage_spec page pageFlags hseparate.wellFormed
          (hseparate.pagesOnly virtualAddress)
        rcases hmap : vmapMapPage page virtualAddress pageFlags p.pageTable with ⟨_ | _, v⟩
        · have htaken : mapTaken page virtualAddress pageFlags { p with blocks } =
              (none, { p with pageTable := v, blocks }) := by
            unfold mapTaken
            rw [hmap]
          cases (bind_gaveUp htaken).symm.trans hrest
          have hgrew := hspec.gaveUp hmap
          refine h.same (fun x pa hx => ?_) (hblocks ▸ List.subset_cons_self _ _)
          rw [vmapVirtualToPhysical_eq, hgrew.address x, ← vmapVirtualToPhysical_eq] at hx
          exact hx
        · have htaken : mapTaken page virtualAddress pageFlags { p with blocks } =
              (some (), { p with pageTable := v, blocks }) := by
            unfold mapTaken
            rw [hmap]
          cases (bind_eq htaken).symm.trans hrest

theorem OnceMapped.recordPage (h : OnceMapped Own p) (page : MemoryPage) (inserted : Bool) :
    OnceMapped Own (recordPage page inserted p).2 := by
  cases inserted with
  | false => exact h
  | true => exact h.same (fun _ _ hx => hx) (List.Subset.refl _)

/-- A visit that gives up. -/
theorem visit_stops_once (h : OnceMapped Own p) (hseparate : Separate p)
    (hflags : AttributeFlags v.pageFlags) (hcall : visit file v p = (none, p')) :
    OnceMapped Own p' := by
  rcases hfind : findPage v.virtualAddress v.pageFlags p with ⟨_ | physicalAddress, p₁⟩
  · cases (bind_gaveUp hfind).symm.trans hcall
    exact findPage_once h hseparate hflags hfind
  · have hvisit := (visit_found file hfind).symm.trans hcall
    split at hvisit
    · cases hvisit
      exact (findPage_once h hseparate hflags hfind).recordPage _ _
    · cases hvisit

theorem visit_once (h : OnceMapped Own p) (hseparate : Separate p)
    (hends : EndsInPages p (v :: vs)) (hflags : AttributeFlags v.pageFlags)
    (hcount : v.part.2 ≤ 4096) (hcall : visit file v p = (some (), p')) : OnceMapped Own p' := by
  rcases hfind : findPage v.virtualAddress v.pageFlags p with ⟨_ | physicalAddress, p₁⟩
  · cases (bind_gaveUp hfind).symm.trans hcall
  have hvisit := (visit_found file hfind).symm.trans hcall
  by_cases hwindow : mmapPhysicalRegionSize ≤ physicalAddress.toNat
  · rw [if_pos hwindow] at hvisit
    cases hvisit
  rw [if_neg hwindow] at hvisit
  cases hvisit
  obtain ⟨pa, hpa, hlo, hhi⟩ := findPage_room hseparate hflags (hends.again v List.mem_cons_self)
    hcount hfind
  have hfound := (findPage_loads hseparate hflags hfind).recordPage
    ⟨v.virtualAddress, physicalAddress, v.type⟩ v.recorded
  have htable := recordPage_pageTable ⟨v.virtualAddress, physicalAddress, v.type⟩ v.recorded p₁
  have hcopy := Loads.copy file hfound.separate (htable ▸ hpa) hlo hhi
  exact ((findPage_once h hseparate hflags hfind).recordPage _ _).extends hcopy.toExtends rfl

end

/-! ## Loading -/

section
variable {Own : Word → Prop} {file : Buffer} {ws : List Visit} {l : Loading}
  {type : MemoryPageType} {virtualBase pageFlags : Word} {kmalloc : Nat → Bool}

theorem allocatePages_once (i n : Nat) (buffer : Option Word) (bytesRemaining : Nat)
    (h : OnceMapped Own l.process) (hseparate : Separate l.process)
    (hends : EndsInPages l.process (pageVisits type virtualBase pageFlags kmalloc file i n buffer
      bytesRemaining ++ ws))
    (hregular : Regular (pageVisits type virtualBase pageFlags kmalloc file i n buffer
      bytesRemaining)) :
    Tried (allocatePages type virtualBase pageFlags kmalloc file i n buffer bytesRemaining) l
      (fun l' => OnceMapped Own l'.process) fun _ l' => OnceMapped Own l'.process := by
  induction n generalizing i l buffer bytesRemaining with
  | zero => exact h
  | succ n ih =>
    have hflags : AttributeFlags pageFlags := hregular.flags _ List.mem_cons_self
    have hcount := hregular.counts _ List.mem_cons_self
    refine tried_allocatePages (fun _ => h) (fun p' hvisit => ?_) fun p' reads hvisit => ?_
    · exact visit_stops_once h hseparate hflags hvisit
    · obtain ⟨hloads, hends'⟩ := visit_loads hseparate hends hflags hcount hvisit
      exact ih (l := ⟨p', reads⟩) (i + 1) _ _ (visit_once h hseparate hends hflags hcount hvisit)
        hloads.separate hends' hregular.tail

theorem loadSegments_once {kmalloc : Nat → Nat → Bool} (i : Nat)
    (headers : List (Word × ProgramHeader)) (h : OnceMapped Own l.process)
    (hseparate : Separate l.process)
    (hends : EndsInPages l.process (headerVisits kmalloc file i (reachedHeaders headers)))
    (hregular : Regular (headerVisits kmalloc file i (reachedHeaders headers))) :
    Tried (loadSegments kmalloc file i headers) l (fun l' => OnceMapped Own l'.process)
      fun _ l' => OnceMapped Own l'.process := by
  induction headers generalizing i l with
  | nil => exact h
  | cons header rest ih =>
    obtain ⟨offset, program⟩ := header
    refine tried_bind.mpr (tried_modify.mpr ?_)
    show Tried (if program.Loadable then _ else _) (l.noted offset programHeaderSize) _ _
    by_cases hload : program.Loadable
    · rw [if_pos hload]
      unfold loadProgramSegment
      by_cases hrefused : program.refused = true
      · rw [if_pos hrefused]
        exact h
      · rw [if_neg hrefused]
        rw [headerVisits_reached hload hrefused] at hends hregular
        have hloads := allocatePages_loads (l := l.noted offset programHeaderSize) 0 _ _ _
          hseparate hends hregular.append_left
        have honce := allocatePages_once (l := l.noted offset programHeaderSize) 0 _ _ _ h
          hseparate hends hregular.append_left
        refine tried_bind.mpr ((honce.and hloads).mono (fun _ hstopped => hstopped.1) ?_)
        rintro _ l' ⟨honce', hloads', hends'⟩
        exact ih (i + 1) honce' hloads'.separate hends' hregular.append_right
    · rw [if_neg hload]
      rw [headerVisits_skipped hload] at hends hregular
      exact ih (l := l.noted ..) (i + 1) h hseparate hends hregular

theorem processLoadElf_once (kmalloc : Nat → Nat → Bool) (mainThread : Bool)
    (h : OnceMapped Own l.process) (hseparate : Separate l.process)
    (hends : EndsInPages l.process (reachedVisits kmalloc file)) :
    OnceMapped Own (processLoadElf kmalloc mainThread file l).2.process := by
  have hloaded : Tried (processLoadElf kmalloc mainThread file) l
      (fun l' => OnceMapped Own l'.process) fun _ l' => OnceMapped Own l'.process := by
    refine tried_bind.mpr (tried_modify.mpr (tried_bind.mpr ?_))
    refine (loadSegments_once (l := l.noted ..) 0 _ h hseparate hends
      (regular_headerVisits ..)).mono (fun _ honce => honce) fun _ l' honce => ?_
    refine tried_ite.mpr ?_
    split
    · exact honce
    · exact honce
  exact hloaded.state

theorem allocateStack_once (kmalloc : Nat → Bool) (h : OnceMapped Own l.process)
    (hseparate : Separate l.process) :
    OnceMapped Own (allocateStack kmalloc l).2.process := by
  have hends := stackVisits_endsInPages l.process kmalloc
  rw [← List.append_nil (stackVisits kmalloc)] at hends
  have hstack : Tried (allocateStack kmalloc) l (fun l' => OnceMapped Own l'.process)
      fun _ l' => OnceMapped Own l'.process :=
    allocatePages_once 0 _ none 0 h hseparate hends (regular_stackVisits kmalloc)
  exact hstack.state

end

/-! ## Mapping -/

section
variable {Own : Word → Prop} {p p' : Process} {address length flags start : Word} {fd : Int}

/-- A page of the region is the one that was found for it, another one is where it was. -/
theorem Mmapped.whereIs (h : Mmapped p address length flags fd start p') {x pa : Word}
    (hx : p'.pageTable.vmapVirtualToPhysical x = some pa) :
    (∃ i < (countPages length).toNat, pageNumber x = pageNumber (pageAt start i) ∧
      ∃ page, p.PageFor flags fd i page ∧ frame pa = frame page) ∨
    p.pageTable.vmapVirtualToPhysical x = some pa := by
  by_cases hin : (regionOf start length).HasPage (pageNumber x)
  · obtain ⟨i, hi, hnumber⟩ := hin
    obtain ⟨page, hpage, htranslate⟩ := h.inside hi
    cases hx.symm.trans (htranslate x hnumber)
    exact .inl ⟨i, hi, hnumber, page, hpage, frame_add ..⟩
  · rw [h.outside hin] at hx
    exact .inr hx

theorem blockFor (hflag : flags &&& mapShared = 0) {i : Nat} {page : Word}
    (h : p.PageFor flags fd i page) : p.blocks[i]? = some (some page) := by
  unfold Process.PageFor at h
  rwa [if_neg (not_not.mpr hflag)] at h

/-- The pages of a private region are different. -/
theorem Mmapped.page_inj (h : Mmapped p address length flags fd start p') (hinv : Inv p)
    (hflag : flags &&& mapShared = 0) {i j : Nat} {page : Word}
    (hi : i < (countPages length).toNat) (hj : j < (countPages length).toNat)
    (hfor : p.PageFor flags fd i page) (hfor' : p.PageFor flags fd j page) : i = j := by
  obtain ⟨pages, hlength, -, -, hprivate, -⟩ := h.pages
  have honce := hinv.promise.once
  rw [hprivate hflag, List.filterMap_append, List.filterMap_map] at honce
  have hsome : pages.filterMap (id ∘ some) = pages := List.filterMap_some
  rw [hsome] at honce
  have hget {i : Nat} (hi : i < (countPages length).toNat) (hfor : p.PageFor flags fd i page) :
      pages[i]? = some page := by
    have hblock := blockFor hflag hfor
    rw [hprivate hflag, List.getElem?_append_left (by simp; omega), List.getElem?_map] at hblock
    obtain ⟨page', hget, heq⟩ := Option.map_eq_some_iff.mp hblock
    cases heq
    exact hget
  obtain ⟨hi', hgeti⟩ := List.getElem?_eq_some_iff.mp (hget hi hfor)
  obtain ⟨hj', hgetj⟩ := List.getElem?_eq_some_iff.mp (hget hj hfor')
  exact (List.nodup_append.mp honce).1.getElem_inj_iff.mp (hgeti.trans hgetj.symm)

/-- Of the pages of a region, the process owns those of a private one. -/
theorem Mmapped.once (hmmap : Mmapped p address length flags fd start p') (hinv : Inv p)
    (h : OnceMapped Own p)
    (hobjects : ∀ object, p.sharedMemory fd = some object → ∀ page ∈ object.pages,
      ¬Own (frame page)) : OnceMapped Own p' := by
  constructor
  · intro x y pa pb hx hy heq how
    by_cases hflag : flags &&& mapShared = 0
    · have hmem {i : Nat} {page : Word} (hfor : p.PageFor flags fd i page) :
          some (frame page) ∈ p.blocks := by
        have hblock := List.mem_of_getElem? (blockFor hflag hfor)
        rwa [hinv.promise.frame_eq hblock]
      rcases hmmap.whereIs hx with ⟨i, hi, hnx, page, hfor, hpa⟩ | hx
      · rcases hmmap.whereIs hy with ⟨j, hj, hny, page', hfor', hpb⟩ | hy
        · have hframe {i : Nat} {page : Word} (hfor : p.PageFor flags fd i page) :
              frame page = page :=
            hinv.promise.frame_eq (List.mem_of_getElem? (blockFor hflag hfor))
          have hsame : page = page' := by rw [← hframe hfor, ← hframe hfor', ← hpa, ← hpb, heq]
          subst hsame
          rw [hnx, hny, hmmap.page_inj hinv hflag hi hj hfor hfor']
        · exact absurd (by rw [← heq, hpa]; exact hmem hfor) (h.block y pb hy)
      · rcases hmmap.whereIs hy with ⟨j, hj, -, page, hfor, hpb⟩ | hy
        · exact absurd (by rw [heq, hpb]; exact hmem hfor) (h.block x pa hx)
        · exact h.place x y pa pb hx hy heq how
    · have hshared {i : Nat} {page : Word} (hfor : p.PageFor flags fd i page) :
          ¬Own (frame page) := by
        unfold Process.PageFor at hfor
        rw [if_pos hflag] at hfor
        obtain ⟨object, hobject, hget⟩ := hfor
        exact hobjects object hobject page (List.mem_of_getElem? hget)
      rcases hmmap.whereIs hx with ⟨i, -, -, page, hfor, hpa⟩ | hx
      · exact absurd (hpa ▸ how) (hshared hfor)
      · rcases hmmap.whereIs hy with ⟨j, -, -, page, hfor, hpb⟩ | hy
        · exact absurd (by rw [← hpb, ← heq]; exact how) (hshared hfor)
        · exact h.place x y pa pb hx hy heq how
  · intro x pa hx hmem
    rcases hmmap.whereIs hx with ⟨i, hi, -, page, hfor, hpa⟩ | hx
    · exact hmmap.notMem_blocks hinv.promise hi hfor (hpa ▸ hmem)
    · exact h.block x pa hx (hmmap.blocks.subset hmem)

end

end ZOs.ProcessMemory
