import ZOs.Memory.KernelTables
import ZOs.Process.OwnMemory

/-!
# What loading leaves to others

A call that loads pages adds to the tables and the pages of its process, and
changes memory in these only, as long as no part of a file is put over the
end of a page that had been mapped before: `processLoadElf_loads`.
-/

namespace ZOs.ProcessMemory

open Paging Attempt Bytes Elf
open Boot (IsTable Recorded.isTable)

/-- No page of the process, and no block, is a table or can become one. -/
structure Separate (p : Process) : Prop where
  wellFormed : WellFormed p.pageTable
  pagesOnly : PagesOnly p.pageTable
  block : ∀ page, some page ∈ p.blocks → frame page = page ∧ ¬IsTable p.pageTable page
  once : (p.blocks.filterMap id).Nodup
  mapped : ∀ x pa, p.pageTable.vmapVirtualToPhysical x = some pa → ¬IsTable p.pageTable (frame pa)

/-- What a call has taken, and where it has changed memory: in tables and in
pages that are mapped. -/
structure Moved (p p' : Process) : Prop where
  wellFormed : WellFormed p'.pageTable
  pagesOnly : PagesOnly p'.pageTable
  answers : p'.pageTable.answers <:+ p.pageTable.answers
  obtained : p.pageTable.obtained ⊆ p'.pageTable.obtained
  source : ∀ page ∈ p'.pageTable.obtained,
    page ∈ p.pageTable.obtained ∨ page ∈ p.pageTable.answers
  blocks : p'.blocks <:+ p.blocks
  memory : ∀ c, (∀ page ∈ p'.pageTable.obtained, ¬InPage page c) →
    (∀ x pa, p'.pageTable.vmapVirtualToPhysical x = some pa → ¬InPage (frame pa) c) →
    p'.pageTable.memory c = p.pageTable.memory c

/-- Pages are added from the blocks; those that were mapped still are. -/
structure Extends (p p' : Process) : Prop extends Moved p p' where
  separate : Separate p'
  mmapEntries : p'.mmapEntries = p.mmapEntries
  kept : ∀ x pa, p.pageTable.vmapVirtualToPhysical x = some pa →
    p'.pageTable.vmapVirtualToPhysical x = some pa
  added : ∀ x pa, p'.pageTable.vmapVirtualToPhysical x = some pa →
    p.pageTable.vmapVirtualToPhysical x = some pa ∨
      some (frame pa) ∈ p.blocks ∧ some (frame pa) ∉ p'.blocks

/-- What visits do: besides the tables, memory changes in the pages only that
they put a part of the file into. -/
structure Loads (vs : List Visit) (p p' : Process) : Prop extends Extends p p' where
  spares : ∀ c, (∀ page ∈ p'.pageTable.obtained, ¬InPage page c) →
    (∀ v ∈ vs, v.part.2 ≠ 0 → ∀ pa,
      p'.pageTable.vmapVirtualToPhysical v.virtualAddress = some pa → ¬InPage (frame pa) c) →
    p'.pageTable.memory c = p.pageTable.memory c

section
variable {p p' p'' : Process} {x pa virtualAddress pageFlags physicalAddress : Word} {file : Buffer}
  {v : Visit} {vs ws : List Visit} {result : Option Word} {n : Nat}

theorem Extends.refl (h : Separate p) : Extends p p where
  wellFormed := h.wellFormed
  pagesOnly := h.pagesOnly
  answers := List.suffix_refl _
  obtained := List.Subset.refl _
  source _ hpage := .inl hpage
  blocks := List.suffix_refl _
  memory _ _ _ := rfl
  separate := h
  mmapEntries := rfl
  kept _ _ hx := hx
  added _ _ hx := .inl hx

theorem Extends.trans (h : Extends p p') (h' : Extends p' p'') : Extends p p'' where
  wellFormed := h'.wellFormed
  pagesOnly := h'.pagesOnly
  answers := h'.answers.trans h.answers
  obtained := List.Subset.trans h.obtained h'.obtained
  source page hpage := by
    rcases h'.source page hpage with hold | hnew
    · exact h.source page hold
    · exact .inr (h.answers.subset hnew)
  blocks := h'.blocks.trans h.blocks
  memory c htables hpages := by
    rw [h'.memory c htables hpages]
    apply h.memory c fun page hpage => htables page (h'.obtained hpage)
    exact fun x pa hx => hpages x pa (h'.kept x pa hx)
  separate := h'.separate
  mmapEntries := h'.mmapEntries.trans h.mmapEntries
  kept x pa hx := h'.kept x pa (h.kept x pa hx)
  added x pa hx := by
    rcases h'.added x pa hx with hold | ⟨hgiven, htaken⟩
    · rcases h.added x pa hold with holder | ⟨hgiven, htaken⟩
      · exact .inl holder
      · exact .inr ⟨hgiven, fun hmem => htaken (h'.blocks.subset hmem)⟩
    · exact .inr ⟨h.blocks.subset hgiven, htaken⟩

theorem Loads.refl (vs : List Visit) (h : Separate p) : Loads vs p p where
  toExtends := .refl h
  spares _ _ _ := rfl

theorem Loads.trans (h : Loads vs p p') (h' : Loads ws p' p'') : Loads (vs ++ ws) p p'' where
  toExtends := h.toExtends.trans h'.toExtends
  spares c htables hpages := by
    rw [h'.spares c htables fun v hv => hpages v (List.mem_append_right _ hv)]
    apply h.spares c fun page hpage => htables page (h'.obtained hpage)
    exact fun v hv hpart pa hx => hpages v (List.mem_append_left _ hv) hpart pa (h'.kept _ pa hx)

theorem Loads.mono (h : Loads vs p p') (hsub : vs ⊆ ws) : Loads ws p p' where
  toExtends := h.toExtends
  spares c htables hpages := h.spares c htables fun v hv => hpages v (hsub hv)

/-! ## Finding a page -/

/-- Whether an address is mapped is a matter of its page. -/
theorem translate_none {v : Vmap} {x y : Word} (hnumber : pageNumber x = pageNumber y) :
    v.vmapVirtualToPhysical y = none ↔ v.vmapVirtualToPhysical x = none := by
  rw [vmapVirtualToPhysical_eq, vmapVirtualToPhysical_eq, path_eq_iff.mpr hnumber]
  cases v.walk (path y) <;> simp [stopAddress]

/-- Blocks that are not used are dropped. -/
theorem Loads.drop {blocks : List (Option Word)} (h : Separate p) (hblocks : blocks <:+ p.blocks) :
    Loads [] p { p with blocks } where
  wellFormed := h.wellFormed
  pagesOnly := h.pagesOnly
  answers := List.suffix_refl _
  obtained := List.Subset.refl _
  source _ hpage := .inl hpage
  blocks := hblocks
  memory _ _ _ := rfl
  separate :=
    { wellFormed := h.wellFormed
      pagesOnly := h.pagesOnly
      block := fun page hpage => h.block page (hblocks.subset hpage)
      once := h.once.sublist (hblocks.sublist.filterMap id)
      mapped := h.mapped }
  mmapEntries := rfl
  kept _ _ hx := hx
  added _ _ hx := .inl hx
  spares _ _ _ := rfl

theorem takeBlock_spec (p : Process) :
    (∃ blocks, blocks <:+ p.blocks ∧ takeBlock p = (none, { p with blocks })) ∨
      ∃ page blocks, p.blocks = some page :: blocks ∧
        takeBlock p = (some page, { p with blocks }) := by
  unfold takeBlock
  split
  · rename_i page blocks hblocks
    exact .inr ⟨page, blocks, hblocks, rfl⟩
  · rename_i blocks hblocks
    exact .inl ⟨blocks, hblocks ▸ List.suffix_cons _ _, rfl⟩
  · exact .inl ⟨p.blocks, List.suffix_refl _, rfl⟩

/-- A page that could not be mapped leaves tables only. -/
theorem Loads.grew {v : Vmap} (h : Separate p) (hgrew : Grew p.pageTable v)
    (hrecorded : Recorded p.pageTable v) : Loads [] p { p with pageTable := v } := by
  have hsame (x : Word) :
      v.vmapVirtualToPhysical x = p.pageTable.vmapVirtualToPhysical x := by
    rw [vmapVirtualToPhysical_eq, vmapVirtualToPhysical_eq, hgrew.address x]
  have hpages : PagesOnly v := by
    intro x ⟨d, e, hwalk, hd⟩
    rw [hgrew.address] at hwalk
    exact h.pagesOnly x ⟨d, e, hwalk, hd⟩
  have htable {page : Word} (hpage : IsTable v page) : IsTable p.pageTable page :=
    Recorded.isTable hrecorded hgrew.wellFormed hpage
  refine
    { wellFormed := hgrew.wellFormed
      pagesOnly := hpages
      answers := hrecorded.answers
      obtained := hrecorded.obtained
      source := hrecorded.source
      blocks := List.suffix_refl _
      memory := fun c htables _ => hrecorded.outside hgrew.toKept htables
      separate := ⟨hgrew.wellFormed, hpages, fun page hpage => ?_, h.once, fun x pa hx => ?_⟩
      mmapEntries := rfl
      kept := fun x pa hx => (hsame x).trans hx
      added := fun x pa hx => .inl ((hsame x).symm.trans hx)
      spares := fun c htables _ => hrecorded.outside hgrew.toKept htables }
  · exact ⟨(h.block page hpage).1, fun hpage' => (h.block page hpage).2 (htable hpage')⟩
  · exact fun hpage => h.mapped x pa ((hsame x).symm.trans hx) (htable hpage)

/-- A block is mapped where nothing was. -/
theorem Loads.entered {v : Vmap} {page : Word} {blocks : List (Option Word)} (h : Separate p)
    (hflags : AttributeFlags pageFlags) (hblocks : p.blocks = some page :: blocks)
    (hnone : p.pageTable.vmapVirtualToPhysical virtualAddress = none)
    (hentered : Entered p.pageTable v (path virtualAddress) (pageEntry page pageFlags))
    (hrecorded : Recorded p.pageTable v) : Loads [] p { p with pageTable := v, blocks } := by
  obtain ⟨hframe, hpage⟩ := h.block page (hblocks ▸ List.mem_cons_self ..)
  have hhere {x : Word} (hx : pageNumber x = pageNumber virtualAddress) :
      v.vmapVirtualToPhysical x = some (page + pageOffset x) := by
    rw [entered_here hentered hflags hx, hframe]
  have hleft : some page ∉ blocks := by
    have honce := h.once
    rw [hblocks] at honce
    exact fun hmem => (List.nodup_cons.mp honce).1 (List.mem_filterMap.mpr ⟨some page, hmem, rfl⟩)
  have hsub : blocks <:+ p.blocks := hblocks ▸ List.suffix_cons _ _
  have htable {page : Word} (hpage : IsTable v page) : IsTable p.pageTable page :=
    Recorded.isTable hrecorded hentered.wellFormed hpage
  have hadd (x pa : Word) (hx : v.vmapVirtualToPhysical x = some pa) :
      p.pageTable.vmapVirtualToPhysical x = some pa ∨ frame pa = page := by
    by_cases hnumber : pageNumber x = pageNumber virtualAddress
    · cases (hhere hnumber).symm.trans hx
      rw [← hframe, frame_add]
      exact .inr rfl
    · exact .inl ((hentered.elsewhere hnumber).symm.trans hx)
  have hunmapped {x pa : Word} (hx : p.pageTable.vmapVirtualToPhysical x = some pa) :
      pageNumber x ≠ pageNumber virtualAddress := by
    intro hnumber
    cases ((translate_none hnumber).mp hnone).symm.trans hx
  refine
    { wellFormed := hentered.wellFormed
      pagesOnly := hentered.pagesOnly h.pagesOnly
      answers := hrecorded.answers
      obtained := hrecorded.obtained
      source := hrecorded.source
      blocks := hsub
      memory := fun c htables _ => hrecorded.outside hentered.toKept htables
      separate := ⟨hentered.wellFormed, hentered.pagesOnly h.pagesOnly, ?_,
        h.once.sublist (hsub.sublist.filterMap id), ?_⟩
      mmapEntries := rfl
      kept := fun x pa hx => (hentered.elsewhere (hunmapped hx)).trans hx
      added := ?_
      spares := fun c htables _ => hrecorded.outside hentered.toKept htables }
  · intro page' hpage'
    obtain ⟨hframe', hnot⟩ := h.block page' (hsub.subset hpage')
    exact ⟨hframe', fun hpage => hnot (htable hpage)⟩
  · intro x pa hx hpa
    rcases hadd x pa hx with hold | rfl
    · exact h.mapped x pa hold (htable hpa)
    · exact hpage (htable hpa)
  · intro x pa hx
    rcases hadd x pa hx with hold | rfl
    · exact .inl hold
    · exact .inr ⟨hblocks ▸ List.mem_cons_self .., hleft⟩

theorem findPage_loads (h : Separate p) (hflags : AttributeFlags pageFlags)
    (hcall : findPage virtualAddress pageFlags p = (result, p')) : Loads [] p p' := by
  unfold findPage at hcall
  split at hcall
  · cases hcall
    exact .refl [] h
  · rename_i hnone
    rcases takeBlock_spec p with ⟨blocks, hsub, htake⟩ | ⟨page, blocks, hblocks, htake⟩
    · cases (bind_gaveUp htake).symm.trans hcall
      exact .drop h hsub
    · have hrest := (bind_eq htake).symm.trans hcall
      have hrecorded := recorded_vmapMapPage page virtualAddress pageFlags p.pageTable
      have hspec := vmapMapPage_spec page pageFlags h.wellFormed (h.pagesOnly virtualAddress)
      rcases hmap : vmapMapPage page virtualAddress pageFlags p.pageTable with ⟨_ | _, v⟩
      · rw [hmap] at hrecorded
        have htaken : mapTaken page virtualAddress pageFlags { p with blocks } =
            (none, { p with pageTable := v, blocks }) := by
          unfold mapTaken
          rw [hmap]
        cases (bind_gaveUp htaken).symm.trans hrest
        have hdrop := Loads.drop h (hblocks ▸ List.suffix_cons (some page) blocks)
        exact hdrop.trans (.grew hdrop.separate (hspec.gaveUp hmap) hrecorded)
      · rw [hmap] at hrecorded
        have htaken : mapTaken page virtualAddress pageFlags { p with blocks } =
            (some (), { p with pageTable := v, blocks }) := by
          unfold mapTaken
          rw [hmap]
        cases (bind_eq htaken).symm.trans hrest
        exact .entered h hflags hblocks hnone (hspec.returned hmap) hrecorded

/-- An address is at its place in the page that it is translated into. -/
theorem translate_frame {v : Vmap} (hpages : PagesOnly v)
    (hx : v.vmapVirtualToPhysical x = some pa) :
    pa.toNat = (frame pa).toNat + (pageOffset x).toNat ∧ (pageOffset x).toNat < 4096 := by
  obtain ⟨e, -, hentry⟩ := pageEntry_of_translate (hpages x) hx
  have hpa : pa = frame e + pageOffset x := by
    rw [← frame_or]
    exact hentry.symm
  rw [hpa, frame_add]
  exact add_offset_toNat (frame_aligned e) (.inr rfl)

/-- A page that is found is mapped at the address, and what follows of it can
be written. -/
theorem findPage_room (h : Separate p) (hflags : AttributeFlags v.pageFlags)
    (hends : p.pageTable.vmapVirtualToPhysical v.virtualAddress ≠ none → v.EndsInPage)
    (hcount : v.part.2 ≤ 4096)
    (hcall : findPage v.virtualAddress v.pageFlags p = (some physicalAddress, p')) :
    ∃ pa, p'.pageTable.vmapVirtualToPhysical v.virtualAddress = some pa ∧
      (frame pa).toNat ≤ physicalAddress.toNat ∧
      physicalAddress.toNat + v.part.2 ≤ (frame pa).toNat + 4096 := by
  cases findPage_returned h.wellFormed h.pagesOnly hcall with
  | existing hexisting =>
    have hends : (pageOffset v.virtualAddress).toNat + v.part.2 ≤ 4096 :=
      hends (by rw [hexisting]; exact Option.some_ne_none _)
    obtain ⟨htoNat, -⟩ := translate_frame h.pagesOnly hexisting
    exact ⟨physicalAddress, hexisting, by omega, by omega⟩
  | new hnone hblocks hentered hrecorded =>
    obtain ⟨hframe, -⟩ := h.block physicalAddress (hblocks ▸ List.mem_cons_self ..)
    refine ⟨_, entered_here hentered hflags rfl, ?_⟩
    rw [frame_add, hframe]
    omega

/-! ## Putting a part there -/

theorem Loads.recordPage (h : Loads vs p p') (page : MemoryPage) (inserted : Bool) :
    Loads vs p (recordPage page inserted p').2 := by
  cases inserted with
  | false => exact h
  | true =>
    exact
      { wellFormed := h.wellFormed
        pagesOnly := h.pagesOnly
        answers := h.answers
        obtained := h.obtained
        source := h.source
        blocks := h.blocks
        memory := h.memory
        separate := ⟨h.separate.wellFormed, h.separate.pagesOnly, h.separate.block,
          h.separate.once, h.separate.mapped⟩
        mmapEntries := h.mmapEntries
        kept := h.kept
        added := h.added
        spares := h.spares }

theorem inPage_wordAddress {page : Word} (haligned : page.toNat % 4096 = 0) {c : Nat} :
    InPage page (wordAddress c) ↔ InPage page c := by
  unfold InPage wordAddress
  omega

/-- Memory that differs in mapped pages only. -/
theorem Extends.withMemory {memory : Nat → Word} (h : Separate p)
    (hmemory : ∀ c, (∀ x pa, p.pageTable.vmapVirtualToPhysical x = some pa → ¬InPage (frame pa) c) →
      memory c = p.pageTable.memory c) :
    Extends p { p with pageTable := { p.pageTable with memory } } := by
  have hsame : SameTables p.pageTable { p.pageTable with memory } :=
    { root := rfl
      obtained := rfl
      memory := by
        intro table htable c hin
        refine hmemory c fun x pa hx hpa => h.mapped x pa hx (.inl ?_)
        have haligned := (h.wellFormed.page htable).aligned
        have haligned' := frame_aligned pa
        have heq : frame pa = table := by
          apply BitVec.eq_of_toNat_eq
          obtain ⟨hlo, hhi⟩ := hin
          obtain ⟨hlo', hhi'⟩ := hpa
          omega
        exact heq ▸ htable }
  have hwf : WellFormed { p.pageTable with memory } := hsame.wellFormed h.wellFormed
    ⟨h.wellFormed.answers.page, h.wellFormed.answers.once⟩
  have hpages := hsame.pagesOnly h.wellFormed h.pagesOnly
  have htranslate := hsame.translate h.wellFormed
  exact
    { wellFormed := hwf
      pagesOnly := hpages
      answers := List.suffix_refl _
      obtained := List.Subset.refl _
      source := fun _ hpage => .inl hpage
      blocks := List.suffix_refl _
      memory := fun c _ hmapped => hmemory c fun x pa hx => hmapped x pa ((htranslate x).trans hx)
      separate := ⟨hwf, hpages, h.block, h.once, fun x pa hx =>
        h.mapped x pa ((htranslate x).symm.trans hx)⟩
      mmapEntries := rfl
      kept := fun x pa hx => (htranslate x).trans hx
      added := fun x pa hx => .inl ((htranslate x).symm.trans hx) }

/-- The part of a visit is copied into a page that is mapped. -/
theorem Loads.copy (file : Buffer) (h : Separate p)
    (hx : p.pageTable.vmapVirtualToPhysical v.virtualAddress = some pa)
    (hlo : (frame pa).toNat ≤ physicalAddress.toNat)
    (hhi : physicalAddress.toNat + v.part.2 ≤ (frame pa).toNat + 4096) :
    Loads [v] p (p.copy file physicalAddress v.part.1 v.part.2) := by
  have hmemory (c : Nat) (hout : v.part.2 ≠ 0 → ¬InPage (frame pa) c) :
      (p.copy file physicalAddress v.part.1 v.part.2).pageTable.memory c =
        p.pageTable.memory c := by
    refine copyBytes_of_ne v.part.2 fun k hk hlt heq => hout (by omega) ?_
    rw [heq, inPage_wordAddress (frame_aligned pa)]
    exact ⟨by omega, by omega⟩
  have hextends : Extends p (p.copy file physicalAddress v.part.1 v.part.2) :=
    .withMemory h fun c hmapped => hmemory c fun _ => hmapped _ pa hx
  refine ⟨hextends, fun c _ hpages => hmemory c fun hpart => ?_⟩
  exact hpages v List.mem_cons_self hpart pa (hextends.kept _ pa hx)

end

/-! ## Visits -/

/-- No part that is put into a page that had been mapped before, by these
visits or earlier, goes over its end. -/
structure EndsInPages (p : Process) (vs : List Visit) : Prop where
  again : ∀ v ∈ vs, p.pageTable.vmapVirtualToPhysical v.virtualAddress ≠ none → v.EndsInPage
  later : Contained vs

instance (p : Process) (vs : List Visit) : Decidable (EndsInPages p vs) :=
  decidable_of_iff ((∀ v ∈ vs, p.pageTable.vmapVirtualToPhysical v.virtualAddress ≠ none →
    v.EndsInPage) ∧ Contained vs) ⟨fun h => ⟨h.1, h.2⟩, fun h => ⟨h.again, h.later⟩⟩

/-- What is said of visits that are made for a file. -/
structure Regular (vs : List Visit) : Prop where
  flags : ∀ v ∈ vs, AttributeFlags v.pageFlags
  counts : ∀ v ∈ vs, v.part.2 ≤ 4096

section
variable {p p' : Process} {x virtualAddress pageFlags physicalAddress : Word} {file : Buffer}
  {v : Visit} {vs ws : List Visit}

theorem Regular.append_left (h : Regular (vs ++ ws)) : Regular vs where
  flags v hv := h.flags v (List.mem_append_left _ hv)
  counts v hv := h.counts v (List.mem_append_left _ hv)

/-- Only the page of the address can be mapped by the search for it. -/
theorem findPage_elsewhere (h : Separate p)
    (hcall : findPage virtualAddress pageFlags p = (some physicalAddress, p'))
    (hx : p'.pageTable.vmapVirtualToPhysical x ≠ none) :
    p.pageTable.vmapVirtualToPhysical x ≠ none ∨ pageNumber x = pageNumber virtualAddress := by
  cases findPage_returned h.wellFormed h.pagesOnly hcall with
  | existing => exact .inl hx
  | new _ _ hentered _ =>
    by_cases hnumber : pageNumber x = pageNumber virtualAddress
    · exact .inr hnumber
    · rw [← hentered.elsewhere hnumber]
      exact .inl hx

/-- A visit that gives up. -/
theorem visit_stops_loads (h : Separate p) (hflags : AttributeFlags v.pageFlags)
    (hcall : visit file v p = (none, p')) : Loads [] p p' := by
  rcases hfind : findPage v.virtualAddress v.pageFlags p with ⟨_ | physicalAddress, p₁⟩
  · cases (bind_gaveUp hfind).symm.trans hcall
    exact findPage_loads h hflags hfind
  · have hvisit := (visit_found file hfind).symm.trans hcall
    split at hvisit
    · cases hvisit
      exact (findPage_loads h hflags hfind).recordPage _ _
    · cases hvisit

theorem visit_loads (h : Separate p) (hends : EndsInPages p (v :: vs))
    (hflags : AttributeFlags v.pageFlags) (hcount : v.part.2 ≤ 4096)
    (hcall : visit file v p = (some (), p')) : Loads [v] p p' ∧ EndsInPages p' vs := by
  rcases hfind : findPage v.virtualAddress v.pageFlags p with ⟨_ | physicalAddress, p₁⟩
  · cases (bind_gaveUp hfind).symm.trans hcall
  have hvisit := (visit_found file hfind).symm.trans hcall
  by_cases hwindow : mmapPhysicalRegionSize ≤ physicalAddress.toNat
  · rw [if_pos hwindow] at hvisit
    cases hvisit
  rw [if_neg hwindow] at hvisit
  cases hvisit
  obtain ⟨pa, hpa, hlo, hhi⟩ := findPage_room h hflags (hends.again v List.mem_cons_self)
    hcount hfind
  have hfound := (findPage_loads h hflags hfind).recordPage
    ⟨v.virtualAddress, physicalAddress, v.type⟩ v.recorded
  have htable := recordPage_pageTable ⟨v.virtualAddress, physicalAddress, v.type⟩ v.recorded p₁
  have hcopy := Loads.copy file hfound.separate (htable ▸ hpa) hlo hhi
  refine ⟨hfound.trans hcopy, fun w hw hmapped => ?_, (List.pairwise_cons.mp hends.later).2⟩
  obtain ⟨pa', hmapped⟩ := Option.ne_none_iff_exists'.mp hmapped
  have hmapped₁ : p₁.pageTable.vmapVirtualToPhysical w.virtualAddress ≠ none := by
    rcases hcopy.added _ _ hmapped with hold | ⟨hmem, hnot⟩
    · rw [htable] at hold
      rw [hold]
      exact Option.some_ne_none _
    · exact absurd hmem hnot
  rcases findPage_elsewhere h hfind hmapped₁ with hold | hnumber
  · exact hends.again w (List.mem_cons_of_mem _ hw) hold
  · exact (List.pairwise_cons.mp hends.later).1 w hw hnumber.symm

theorem Regular.tail (h : Regular (v :: vs)) : Regular vs where
  flags w hw := h.flags w (List.mem_cons_of_mem _ hw)
  counts w hw := h.counts w (List.mem_cons_of_mem _ hw)

theorem Regular.append_right (h : Regular (vs ++ ws)) : Regular ws where
  flags v hv := h.flags v (List.mem_append_right _ hv)
  counts v hv := h.counts v (List.mem_append_right _ hv)

end

/-! ## Loading -/

section
variable {p p' : Process} {file : Buffer} {vs ws : List Visit} {l l' : Loading}
  {type : MemoryPageType} {virtualBase pageFlags : Word} {kmalloc : Nat → Bool}
  {headers : List (Word × ProgramHeader)}

/-- The loop of `allocate_memory_pages`, before other visits. -/
theorem allocatePages_loads (i n : Nat) (buffer : Option Word) (bytesRemaining : Nat)
    (h : Separate l.process)
    (hends : EndsInPages l.process (pageVisits type virtualBase pageFlags kmalloc file i n buffer
      bytesRemaining ++ ws))
    (hregular : Regular (pageVisits type virtualBase pageFlags kmalloc file i n buffer
      bytesRemaining)) :
    Tried (allocatePages type virtualBase pageFlags kmalloc file i n buffer bytesRemaining) l
      (fun l' => Loads (pageVisits type virtualBase pageFlags kmalloc file i n buffer
        bytesRemaining) l.process l'.process)
      fun _ l' => Loads (pageVisits type virtualBase pageFlags kmalloc file i n buffer
        bytesRemaining) l.process l'.process ∧ EndsInPages l'.process ws := by
  induction n generalizing i l buffer bytesRemaining with
  | zero => exact ⟨.refl _ h, hends⟩
  | succ n ih =>
    have hflags : AttributeFlags pageFlags := hregular.flags _ List.mem_cons_self
    refine tried_allocatePages (fun _ => .refl _ h) (fun p' hvisit => ?_) fun p' reads hvisit => ?_
    · exact (visit_stops_loads h hflags hvisit).mono (List.nil_subset _)
    · obtain ⟨hloads, hends'⟩ :=
        visit_loads h hends hflags (hregular.counts _ List.mem_cons_self) hvisit
      refine (ih (l := ⟨p', reads⟩) (i + 1) _ _ hloads.separate hends' hregular.tail).mono ?_ ?_
      · exact fun l' hrest => hloads.trans hrest
      · exact fun _ l' hrest => ⟨hloads.trans hrest.1, hrest.2⟩

/-- The headers in front of the first one that is refused. -/
def reachedHeaders (headers : List (Word × ProgramHeader)) : List (Word × ProgramHeader) :=
  headers.takeWhile fun header => !(decide header.2.Loadable && header.2.refused)

theorem headerVisits_reached {kmalloc : Nat → Nat → Bool} {i : Nat} {offset : Word}
    {program : ProgramHeader} {rest : List (Word × ProgramHeader)} (hload : program.Loadable)
    (hrefused : ¬program.refused = true) :
    headerVisits kmalloc file i (reachedHeaders ((offset, program) :: rest)) =
      segmentVisits (kmalloc i) file program ++
        headerVisits kmalloc file (i + 1) (reachedHeaders rest) := by
  unfold reachedHeaders
  rw [List.takeWhile_cons_of_pos (by simp [hrefused])]
  exact if_pos hload

theorem headerVisits_skipped {kmalloc : Nat → Nat → Bool} {i : Nat} {offset : Word}
    {program : ProgramHeader} {rest : List (Word × ProgramHeader)} (hload : ¬program.Loadable) :
    headerVisits kmalloc file i (reachedHeaders ((offset, program) :: rest)) =
      headerVisits kmalloc file (i + 1) (reachedHeaders rest) := by
  unfold reachedHeaders
  rw [List.takeWhile_cons_of_pos (by simp [hload])]
  exact if_neg hload

theorem loadSegments_loads {kmalloc : Nat → Nat → Bool} (i : Nat)
    (headers : List (Word × ProgramHeader)) (h : Separate l.process)
    (hends : EndsInPages l.process (headerVisits kmalloc file i (reachedHeaders headers)))
    (hregular : Regular (headerVisits kmalloc file i (reachedHeaders headers))) :
    Tried (loadSegments kmalloc file i headers) l
      (fun l' => Loads (headerVisits kmalloc file i (reachedHeaders headers)) l.process l'.process)
      fun _ l' => Loads (headerVisits kmalloc file i (reachedHeaders headers)) l.process
        l'.process := by
  induction headers generalizing i l with
  | nil => exact Loads.refl _ h
  | cons header rest ih =>
    obtain ⟨offset, program⟩ := header
    refine tried_bind.mpr (tried_modify.mpr ?_)
    show Tried (if program.Loadable then _ else _) (l.noted offset programHeaderSize) _ _
    by_cases hload : program.Loadable
    · rw [if_pos hload]
      unfold loadProgramSegment
      by_cases hrefused : program.refused = true
      · rw [if_pos hrefused]
        exact Loads.refl _ h
      · rw [if_neg hrefused]
        rw [headerVisits_reached hload hrefused] at hends hregular ⊢
        refine tried_bind.mpr ((allocatePages_loads (l := l.noted ..) 0 _ _ _ h hends
          hregular.append_left).mono ?_ ?_)
        · exact fun _ hloads => hloads.mono (List.subset_append_left _ _)
        · rintro _ l' ⟨hloads, hends'⟩
          refine (ih (i + 1) hloads.separate hends' hregular.append_right).mono ?_ ?_
          · exact fun _ hrest => hloads.trans hrest
          · exact fun _ _ hrest => hloads.trans hrest
    · rw [if_neg hload]
      rw [headerVisits_skipped hload] at hends hregular ⊢
      exact ih (l := l.noted ..) (i + 1) h hends hregular

/-- The visits of `process_load_elf` for the headers that it can get to. -/
def reachedVisits (kmalloc : Nat → Nat → Bool) (file : Buffer) : List Visit :=
  headerVisits kmalloc file 0 (reachedHeaders (programHeaders file))

theorem regular_headerVisits (kmalloc : Nat → Nat → Bool) (file : Buffer) (i : Nat)
    (headers : List (Word × ProgramHeader)) : Regular (headerVisits kmalloc file i headers) where
  flags v hv := by
    obtain ⟨j, header, -, -, hv⟩ := mem_headerVisits.mp hv
    obtain ⟨k, -, rfl⟩ := mem_segmentVisits.mp hv
    exact segmentPageFlags_attributes _
  counts v hv := by
    obtain ⟨j, header, -, -, hv⟩ := mem_headerVisits.mp hv
    obtain ⟨k, -, rfl⟩ := mem_segmentVisits.mp hv
    exact Nat.le_trans (partAt_le ..) (Nat.min_le_right ..)

theorem regular_stackVisits (kmalloc : Nat → Bool) : Regular (stackVisits kmalloc) where
  flags v hv := by
    unfold stackVisits at hv
    rw [pageVisits_eq] at hv
    obtain ⟨k, -, rfl⟩ := List.mem_map.mp hv
    exact userStackPageFlags_attributes
  counts v hv := by
    rw [part_of_stackVisits hv]
    exact Nat.zero_le _

theorem processLoadElf_loads (kmalloc : Nat → Nat → Bool) (mainThread : Bool)
    (h : Separate l.process) (hends : EndsInPages l.process (reachedVisits kmalloc file)) :
    Loads (reachedVisits kmalloc file) l.process
      (processLoadElf kmalloc mainThread file l).2.process := by
  have hloaded : Tried (processLoadElf kmalloc mainThread file) l
      (fun l' => Loads (reachedVisits kmalloc file) l.process l'.process)
      fun _ l' => Loads (reachedVisits kmalloc file) l.process l'.process := by
    refine tried_bind.mpr (tried_modify.mpr (tried_bind.mpr ?_))
    refine (loadSegments_loads (l := l.noted ..) 0 _ h hends (regular_headerVisits ..)).mono
      (fun _ hloads => hloads) fun _ l' hloads => ?_
    refine tried_ite.mpr ?_
    split
    · exact hloads
    · exact hloads
  exact hloaded.state

/-- The stack has no part of a file, so its pages can be anywhere. -/
theorem stackVisits_endsInPages (p : Process) (kmalloc : Nat → Bool) :
    EndsInPages p (stackVisits kmalloc) := by
  have hparts : ∀ v ∈ stackVisits kmalloc, v.EndsInPage := by
    intro v hv
    unfold Visit.EndsInPage
    rw [part_of_stackVisits hv, pageOffset_toNat]
    omega
  exact ⟨fun v hv _ => hparts v hv,
    List.pairwise_of_forall_mem_list fun _ _ v hv _ => hparts v hv⟩

theorem allocateStack_loads (kmalloc : Nat → Bool) (h : Separate l.process) :
    Loads (stackVisits kmalloc) l.process (allocateStack kmalloc l).2.process := by
  have hends := stackVisits_endsInPages l.process kmalloc
  rw [← List.append_nil (stackVisits kmalloc)] at hends
  have hstack : Tried (allocateStack kmalloc) l
      (fun l' => Loads (stackVisits kmalloc) l.process l'.process) _ :=
    allocatePages_loads 0 _ none 0 h hends (regular_stackVisits kmalloc)
  exact (hstack.mono (fun _ hloads => hloads) fun _ _ hloads => hloads.1).state

end

end ZOs.ProcessMemory
