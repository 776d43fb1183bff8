import ZOs.Memory.VmapTwins
import ZOs.Process.MmapRuns
import ZOs.Process.Separate

/-!
# Processes in two memories

A process that has the same tables in two memories, and the same pages to
take, does the same in both: it looks at no other words of memory. What it
writes is the same too, so the memories agree afterwards where they did.
-/

namespace ZOs.ProcessMemory

open Paging Attempt Bytes Elf

/-- One process in two memories. -/
structure Alike (A : Nat → Prop) (p q : Process) : Prop where
  tables : Twins A p.pageTable q.pageTable
  blocks : q.blocks = p.blocks
  memoryPages : q.memoryPages = p.memoryPages
  mmapEntries : q.mmapEntries = p.mmapEntries
  fdTable : q.fdTable = p.fdTable

section
variable {A : Nat → Prop} {p q p' : Process} {physicalAddress virtualAddress pageFlags : Word}
  {file : Buffer}

theorem Alike.translate (h : Alike A p q) (hwf : WellFormed p.pageTable) (x : Word) :
    q.pageTable.vmapVirtualToPhysical x = p.pageTable.vmapVirtualToPhysical x :=
  h.tables.translate hwf x

/-! ## A page -/

theorem Alike.withBlocks (h : Alike A p q) (blocks : List (Option Word)) :
    Alike A { p with blocks } { q with blocks } :=
  ⟨h.tables, rfl, h.memoryPages, h.mmapEntries, h.fdTable⟩

theorem Alike.takeBlock (h : Alike A p q) : Follows (Alike A) takeBlock p q := by
  have hblocks := h.blocks
  unfold ProcessMemory.takeBlock Follows
  rcases hgiven : p.blocks with _ | ⟨_ | page, rest⟩
  · rw [hgiven] at hblocks
    simp only [hblocks, hgiven]
    exact ⟨trivial, h⟩
  · rw [hgiven] at hblocks
    simp only [hblocks, hgiven]
    exact ⟨trivial, h.withBlocks rest⟩
  · rw [hgiven] at hblocks
    simp only [hblocks, hgiven]
    exact ⟨trivial, h.withBlocks rest⟩

theorem mapTaken_eq (p : Process) : mapTaken physicalAddress virtualAddress pageFlags p =
    ((vmapMapPage physicalAddress virtualAddress pageFlags p.pageTable).1,
      { p with pageTable :=
          (vmapMapPage physicalAddress virtualAddress pageFlags p.pageTable).2 }) := rfl

theorem Alike.mapTaken (h : Alike A p q) (hwf : WellFormed p.pageTable)
    (hpages : PagesOnly p.pageTable) :
    Follows (Alike A) (mapTaken physicalAddress virtualAddress pageFlags) p q := by
  have hmap : Follows (Twins A) (vmapMapPage physicalAddress virtualAddress pageFlags) p.pageTable
      q.pageTable := h.tables.vmapMapPage hwf (hpages virtualAddress)
  obtain ⟨hresult, htables⟩ := hmap
  exact follows_of_ends (mapTaken_eq p) ((mapTaken_eq q).trans (Prod.ext hresult rfl))
    ⟨htables, h.blocks, h.memoryPages, h.mmapEntries, h.fdTable⟩

theorem Alike.takePage (h : Alike A p q) (hwf : WellFormed p.pageTable)
    (hpages : PagesOnly p.pageTable) :
    Follows (Alike A) (takePage virtualAddress pageFlags) p q := by
  refine h.takeBlock.bind fun page p₁ q₁ htake h₁ => ?_
  -- taking a block leaves the tables
  have htable : p₁.pageTable = p.pageTable := by
    rcases takeBlock_spec p with ⟨_, _, heq⟩ | ⟨_, _, _, heq⟩
    · cases htake.symm.trans heq
    · cases htake.symm.trans heq
      rfl
  rw [← htable] at hwf hpages
  exact (h₁.mapTaken hwf hpages).bind fun _ _ _ _ h₂ => follows_pure h₂

/-- The same page is found, or taken. -/
theorem Alike.findPage (h : Alike A p q) (hwf : WellFormed p.pageTable)
    (hpages : PagesOnly p.pageTable) :
    Follows (Alike A) (findPage virtualAddress pageFlags) p q := by
  have htake : Follows (Alike A) (ProcessMemory.takePage virtualAddress pageFlags) p q :=
    h.takePage hwf hpages
  unfold ProcessMemory.findPage Follows
  dsimp only
  rw [h.translate hwf virtualAddress]
  cases p.pageTable.vmapVirtualToPhysical virtualAddress with
  | some existing => exact ⟨rfl, h⟩
  | none => exact htake

theorem Alike.recordPage (h : Alike A p q) (page : MemoryPage) (inserted : Bool) :
    Follows (Alike A) (recordPage page inserted) p q := by
  refine follows_modify ?_
  cases inserted with
  | false => exact h
  | true => exact ⟨h.tables, h.blocks, congrArg (· ++ [page]) h.memoryPages, h.mmapEntries,
      h.fdTable⟩

/-- The same bytes go to the same places. -/
theorem Alike.copy (h : Alike A p q) (file : Buffer) (physicalAddress source : Word) (n : Nat) :
    Alike A (p.copy file physicalAddress source n) (q.copy file physicalAddress source n) where
  tables :=
    { root := h.tables.root
      obtained := h.tables.obtained
      memory := fun page hpage c hin => copyBytes_congr n (h.tables.memory page hpage c hin)
      answers := h.tables.answers
      stored := h.tables.stored
      agree := fun c hc => copyBytes_congr n (h.tables.agree c hc) }
  blocks := h.blocks
  memoryPages := h.memoryPages
  mmapEntries := h.mmapEntries
  fdTable := h.fdTable

end

/-! ## Loading -/

/-- The process that is loaded, in two memories. -/
def LoadsAlike (A : Nat → Prop) (l m : Loading) : Prop := Alike A l.process m.process

section
variable {A : Nat → Prop} {l m : Loading} {file : Buffer} {ws : List Visit} {type : MemoryPageType}
  {virtualBase pageFlags physicalAddress : Word} {kmalloc : Nat → Bool}

theorem follows_onProcess {α : Type} {x : Attempt Process α}
    (h : Follows (Alike A) x l.process m.process) :
    Follows (LoadsAlike A) (onProcess x) l m := h

theorem onProcess_eq {α : Type} {x : Attempt Process α} {r : Option α} {l' : Loading}
    (h : onProcess x l = (r, l')) : x l.process = (r, l'.process) := by
  cases h
  rfl

theorem LoadsAlike.copyPart (h : LoadsAlike A l m) (file : Buffer) (physicalAddress : Word)
    (buffer : Option Word) (bytesRemaining : Nat) :
    Follows (LoadsAlike A) (copyPart file physicalAddress buffer bytesRemaining) l m := by
  obtain ⟨reads, hcopy⟩ := copyPart_eq file physicalAddress buffer bytesRemaining l
  obtain ⟨reads', hcopy'⟩ := copyPart_eq file physicalAddress buffer bytesRemaining m
  exact follows_of_ends hcopy hcopy' (Alike.copy h ..)

/-- The loop of `allocate_memory_pages`, before other visits. -/
theorem LoadsAlike.allocatePages (i n : Nat) (buffer : Option Word) (bytesRemaining : Nat)
    (h : LoadsAlike A l m) (hseparate : Separate l.process)
    (hends : EndsInPages l.process (pageVisits type virtualBase pageFlags kmalloc file i n buffer
      bytesRemaining ++ ws))
    (hregular : Regular (pageVisits type virtualBase pageFlags kmalloc file i n buffer
      bytesRemaining)) :
    Follows (LoadsAlike A) (allocatePages type virtualBase pageFlags kmalloc file i n buffer
      bytesRemaining) l m := by
  induction n generalizing i l m buffer bytesRemaining with
  | zero => exact follows_pure h
  | succ n ih =>
    unfold ProcessMemory.allocatePages
    refine .ite (fun _ => follows_giveUp h) fun _ => ?_
    refine (follows_onProcess (Alike.findPage h hseparate.wellFormed hseparate.pagesOnly)).bind
      fun physicalAddress l₁ m₁ hfind h₁ => ?_
    refine (follows_onProcess (Alike.recordPage h₁ _ _)).bind fun _ l₂ m₂ hrecord h₂ => ?_
    refine .ite (fun _ => follows_giveUp h₂) fun hwindow => ?_
    refine (h₂.copyPart ..).bind fun next l₃ m₃ hcopy h₃ => ?_
    -- the visit was made, so the rest can be
    obtain ⟨reads, hcopied⟩ := copyPart_eq file physicalAddress buffer bytesRemaining l₂
    cases hcopied.symm.trans hcopy
    cases hrecord
    have hvisit := visit_found file (v := ⟨pageAt virtualBase i, pageFlags, type,
      kmalloc (2 * i + 1), (nextPart file buffer bytesRemaining).1⟩) (onProcess_eq hfind)
    rw [if_neg hwindow] at hvisit
    obtain ⟨hloads, hends₁⟩ := visit_loads hseparate hends
      (hregular.flags _ List.mem_cons_self) (hregular.counts _ List.mem_cons_self) hvisit
    exact ih (i + 1) _ _ h₃ hloads.separate hends₁ hregular.tail

theorem LoadsAlike.loadSegments {kmalloc : Nat → Nat → Bool} (i : Nat)
    (headers : List (Word × ProgramHeader)) (h : LoadsAlike A l m) (hseparate : Separate l.process)
    (hends : EndsInPages l.process (headerVisits kmalloc file i (reachedHeaders headers)))
    (hregular : Regular (headerVisits kmalloc file i (reachedHeaders headers))) :
    Follows (LoadsAlike A) (loadSegments kmalloc file i headers) l m := by
  induction headers generalizing i l m with
  | nil => exact follows_pure h
  | cons header rest ih =>
    obtain ⟨offset, program⟩ := header
    unfold ProcessMemory.loadSegments
    refine (follows_modify (R := LoadsAlike A) h).bind fun _ l₁ m₁ hnote h₁ => ?_
    cases hnote
    refine .ite (fun hload => ?_) fun hload => ?_
    · have hload : program.Loadable := hload
      unfold loadProgramSegment
      by_cases hrefused : program.refused = true
      · rw [if_pos hrefused]
        exact (follows_giveUp h₁).bind fun _ _ _ hcall => nomatch hcall
      · rw [if_neg hrefused]
        rw [headerVisits_reached hload hrefused] at hends hregular
        refine (h₁.allocatePages 0 _ _ _ hseparate hends hregular.append_left).bind
          fun _ l₂ m₂ hcall h₂ => ?_
        obtain ⟨hloads, hends'⟩ := (allocatePages_loads (l := l.noted ..) 0 _ _ _ hseparate
          hends hregular.append_left).returned hcall
        exact ih (i + 1) h₂ hloads.separate hends' hregular.append_right
    · have hload : ¬program.Loadable := hload
      rw [headerVisits_skipped hload] at hends hregular
      exact ih (i + 1) h₁ hseparate hends hregular

/-- `process_load_elf` does the same in both. -/
theorem LoadsAlike.processLoadElf (kmalloc : Nat → Nat → Bool) (mainThread : Bool)
    (h : LoadsAlike A l m) (hseparate : Separate l.process)
    (hends : EndsInPages l.process (reachedVisits kmalloc file)) :
    Follows (LoadsAlike A) (processLoadElf kmalloc mainThread file) l m := by
  unfold ProcessMemory.processLoadElf
  refine (follows_modify (R := LoadsAlike A) h).bind fun _ l₁ m₁ hnote h₁ => ?_
  cases hnote
  refine (h₁.loadSegments 0 _ hseparate hends (regular_headerVisits ..)).bind
    fun _ l₂ m₂ _ h₂ => ?_
  exact .ite (fun _ => follows_pure h₂) fun _ => follows_giveUp h₂

/-- So does the allocation of the stack. -/
theorem LoadsAlike.allocateStack (kmalloc : Nat → Bool) (h : LoadsAlike A l m)
    (hseparate : Separate l.process) : Follows (LoadsAlike A) (allocateStack kmalloc) l m := by
  have hends := stackVisits_endsInPages l.process kmalloc
  rw [← List.append_nil (stackVisits kmalloc)] at hends
  exact h.allocatePages 0 _ none 0 hseparate hends (regular_stackVisits kmalloc)

end

/-! ## `process_mmap` -/

/-- Where the next page of a region comes from, in both. -/
def SuppliesAlike (nextPage : Nat → Process → Option (Word × Process)) : Prop :=
  ∀ ⦃A : Nat → Prop⦄ ⦃i p q page p'⦄, Alike A p q → nextPage i p = some (page, p') →
    p'.pageTable = p.pageTable ∧ ∃ q', nextPage i q = some (page, q') ∧ Alike A p' q'

theorem privatePage_alike : SuppliesAlike privatePage := by
  intro A i p q page p' h hnext
  have hblocks := h.blocks
  unfold privatePage at hnext ⊢
  split at hnext
  · rename_i head rest hgiven
    cases hnext
    rw [hblocks, hgiven]
    exact ⟨rfl, _, rfl, h.withBlocks rest⟩
  · cases hnext

theorem sharedPage_alike (object : SharedMemory) : SuppliesAlike (sharedPage object) := by
  intro A i p q page p' h hnext
  obtain ⟨page', hpage, heq⟩ := Option.map_eq_some_iff.mp hnext
  cases heq
  exact ⟨rfl, q, Option.map_eq_some_iff.mpr ⟨page, hpage, rfl⟩, h⟩

section
variable {A : Nat → Prop} {p q p' : Process} {address length flags pageFlags start : Word}
  {fd : Int}

theorem Alike.mapPage {physicalAddress virtualAddress : Word} (h : Alike A p q)
    (hwf : WellFormed p.pageTable) (hpages : PagesOnly p.pageTable)
    (hmap : p.mapPage physicalAddress virtualAddress pageFlags = some p') :
    ∃ q', q.mapPage physicalAddress virtualAddress pageFlags = some q' ∧ Alike A p' q' := by
  obtain ⟨hcall, heq⟩ := mapPage_eq_some hmap
  obtain ⟨w, hcall', htables⟩ := (h.tables.vmapMapPage hwf (hpages virtualAddress)).ends hcall
  refine ⟨{ q with pageTable := w }, ?_, ?_⟩
  · unfold Process.mapPage
    rw [hcall']
  · rw [heq]
    exact ⟨htables, h.blocks, h.memoryPages, h.mmapEntries, h.fdTable⟩

theorem Alike.mapPages {nextPage : Nat → Process → Option (Word × Process)}
    (hsupplies : SuppliesAlike nextPage) (i n : Nat) (h : Alike A p q)
    (hwf : WellFormed p.pageTable) (hpages : PagesOnly p.pageTable)
    (heq : mapPages nextPage address pageFlags i n p = some p') :
    ∃ q', mapPages nextPage address pageFlags i n q = some q' ∧ Alike A p' q' := by
  induction n generalizing i p q with
  | zero =>
    cases heq
    exact ⟨q, rfl, h⟩
  | succ n ih =>
    unfold ProcessMemory.mapPages at heq
    split at heq
    · cases heq
    rename_i page p₁ hnext
    split at heq
    · cases heq
    rename_i p₂ hmap
    obtain ⟨htable, q₁, hnext', h₁⟩ := hsupplies h hnext
    rw [← htable] at hwf hpages
    obtain ⟨q₂, hmap', h₂⟩ := h₁.mapPage hwf hpages hmap
    obtain ⟨hcall, -⟩ := mapPage_eq_some hmap
    have hentered := (vmapMapPage_spec page pageFlags hwf (hpages _)).returned hcall
    obtain ⟨q', hrest, h'⟩ := ih (i + 1) h₂ hentered.wellFormed (hentered.pagesOnly hpages) heq
    refine ⟨q', ?_, h'⟩
    unfold ProcessMemory.mapPages
    simp only [hnext', hmap']
    exact hrest

theorem Alike.mapRegion {numPages : Word} (h : Alike A p q) (hwf : WellFormed p.pageTable)
    (hpages : PagesOnly p.pageTable) (heq : p.mapRegion address numPages flags fd = some p') :
    ∃ q', q.mapRegion address numPages flags fd = some q' ∧ Alike A p' q' := by
  have hobject : q.sharedMemory fd = p.sharedMemory fd := by
    unfold Process.sharedMemory
    rw [h.fdTable]
  unfold Process.mapRegion at heq ⊢
  rw [hobject]
  by_cases hshared : flags &&& mapShared ≠ 0
  · rw [if_pos hshared] at heq ⊢
    split at heq
    · cases heq
    rename_i object hgiven
    exact h.mapPages (sharedPage_alike object) 0 _ hwf hpages heq
  · rw [if_neg hshared] at heq ⊢
    exact h.mapPages privatePage_alike 0 _ hwf hpages heq

/-- `process_mmap` does the same in both. -/
theorem Alike.processMmap (h : Alike A p q) (hwf : WellFormed p.pageTable)
    (hpages : PagesOnly p.pageTable)
    (heq : processMmap p address length flags fd = some (start, p')) :
    ∃ q', processMmap q address length flags fd = some (start, q') ∧ Alike A p' q' := by
  have hstart : q.startAddress address = p.startAddress address := by
    unfold Process.startAddress
    rw [h.mmapEntries]
  unfold ProcessMemory.processMmap at heq ⊢
  rw [hstart]
  by_cases haligned : address % pageSize ≠ 0
  · rw [if_pos haligned] at heq
    cases heq
  rw [if_neg haligned] at heq ⊢
  cases hgiven : p.startAddress address with
  | none =>
    rw [hgiven] at heq
    cases heq
  | some start' =>
    rw [hgiven] at heq
    simp only at heq ⊢
    by_cases hlow : start' < heapVirtualBase
    · rw [if_pos hlow] at heq
      cases heq
    rw [if_neg hlow] at heq ⊢
    by_cases hhigh : heapVirtualBase + heapSize < start' + length
    · rw [if_pos hhigh] at heq
      cases heq
    rw [if_neg hhigh] at heq ⊢
    split at heq
    · cases heq
    rename_i p₁ hregion
    cases heq
    obtain ⟨q₁, hregion', h₁⟩ := h.mapRegion hwf hpages hregion
    rw [hregion']
    exact ⟨_, rfl, h₁.tables, h₁.blocks, h₁.memoryPages, congrArg (· ++ [_]) h₁.mmapEntries,
      h₁.fdTable⟩

end

end ZOs.ProcessMemory
