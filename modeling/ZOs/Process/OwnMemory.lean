import ZOs.Process.FileBytes

/-!
# The memory that loading changes

What a process owns are the pages in its list of memory pages, and the pages
of its tables. Loading changes nothing else, also where it gives up, if no
part of the file goes over the end of a page that had been mapped before, and
every page that gets a part is recorded (`contained_owned`).
-/

namespace ZOs.ProcessMemory

open Paging Attempt Bytes Elf Patches
open Boot (IsTable inPage_word)

/-- The byte is in a page of the process: one that is recorded, or a table. -/
def Process.Owns (p : Process) (c : Nat) : Prop :=
  (∃ page ∈ p.memoryPages, InPage (frame page.physicalAddress) c) ∨
    ∃ table ∈ p.pageTable.obtained, InPage table c

/-- Nothing else is changed. -/
def ChangesOwn (p p' : Process) : Prop :=
  ∀ c, readByte p'.pageTable.memory c ≠ readByte p.pageTable.memory c → p'.Owns c

/-- Loading the file into a new process changes nothing else, whether it
returns or gives up. -/
def LoadsInOwn (file : Buffer) (stackKmalloc : Nat → Bool) (kmalloc : Nat → Nat → Bool) : Prop :=
  ∀ mainThread p result l, NewProcess p →
    loadNewProcess stackKmalloc kmalloc mainThread file ⟨p, []⟩ = (result, l) →
    ChangesOwn p l.process

/-- The pages that get something are recorded. -/
def RecordsData (vs : List Visit) : Prop := ∀ v ∈ vs, v.part.2 ≠ 0 → v.recorded = true

/-! ## Steps -/

/-- A process that has changed its own memory only. -/
structure StaysOwn (p p' : Process) : Prop where
  memoryPages : p.memoryPages ⊆ p'.memoryPages
  obtained : p.pageTable.obtained ⊆ p'.pageTable.obtained
  changes : ChangesOwn p p'

section
variable {p p' p'' : Process} {c : Nat} {virtualAddress pageFlags physicalAddress : Word}
  {result : Option Word} {file : Buffer}

theorem Process.Owns.mono (h : p.Owns c) (hpages : p.memoryPages ⊆ p'.memoryPages)
    (hobtained : p.pageTable.obtained ⊆ p'.pageTable.obtained) : p'.Owns c := by
  rcases h with ⟨page, hpage, hin⟩ | ⟨table, htable, hin⟩
  · exact .inl ⟨page, hpages hpage, hin⟩
  · exact .inr ⟨table, hobtained htable, hin⟩

theorem StaysOwn.refl (p : Process) : StaysOwn p p :=
  ⟨List.Subset.refl _, List.Subset.refl _, fun _ hne => absurd rfl hne⟩

theorem StaysOwn.trans (h : StaysOwn p p') (h' : StaysOwn p' p'') : StaysOwn p p'' where
  memoryPages := List.Subset.trans h.memoryPages h'.memoryPages
  obtained := List.Subset.trans h.obtained h'.obtained
  changes c hne := by
    by_cases hsame : readByte p''.pageTable.memory c = readByte p'.pageTable.memory c
    · exact (h.changes c (hsame ▸ hne)).mono h'.memoryPages h'.obtained
    · exact h'.changes c hsame

/-- Mapping a page changes tables. -/
theorem mapTaken_own (hwf : WellFormed p.pageTable) (hpages : PagesOnly p.pageTable) :
    StaysOwn p (mapTaken physicalAddress virtualAddress pageFlags p).2 := by
  have hrecorded := recorded_vmapMapPage physicalAddress virtualAddress pageFlags p.pageTable
  have hspec := vmapMapPage_spec physicalAddress pageFlags hwf (hpages virtualAddress)
  unfold mapTaken
  rcases hcall : vmapMapPage physicalAddress virtualAddress pageFlags p.pageTable with ⟨r, v⟩
  have hrecorded : Recorded p.pageTable v := by
    have hmoves : Recorded p.pageTable
      (vmapMapPage physicalAddress virtualAddress pageFlags p.pageTable).2 := hrecorded
    rwa [hcall] at hmoves
  have hkept : Kept p.pageTable v := by
    cases r with
    | none => exact (hspec.gaveUp hcall).toKept
    | some _ => exact (hspec.returned hcall).toKept
  refine ⟨List.Subset.refl _, hrecorded.obtained, fun c hne => ?_⟩
  by_contra hnot
  refine hne ?_
  unfold readByte
  rw [hrecorded.outside hkept]
  intro table htable hin
  exact hnot (.inr ⟨table, htable, (inPage_word (hkept.wellFormed.page htable)).mp hin⟩)

/-- So does the search for a page, whatever it finds. -/
theorem findPage_own (hwf : WellFormed p.pageTable) (hpages : PagesOnly p.pageTable)
    (h : findPage virtualAddress pageFlags p = (result, p')) : StaysOwn p p' := by
  unfold findPage at h
  split at h
  · cases h
    exact .refl p
  · rcases htake : takeBlock p with ⟨taken, p₁⟩
    have hsame : p₁.pageTable = p.pageTable ∧ p₁.memoryPages = p.memoryPages := by
      unfold takeBlock at htake
      split at htake <;> cases htake <;> exact ⟨rfl, rfl⟩
    obtain ⟨htable, hmemory⟩ := hsame
    have h₁ : StaysOwn p p₁ :=
      ⟨hmemory ▸ List.Subset.refl _, htable ▸ List.Subset.refl _, fun c hne =>
        absurd (htable ▸ rfl) hne⟩
    have hrest := h
    cases taken with
    | none =>
      cases (bind_gaveUp htake).symm.trans hrest
      exact h₁
    | some physicalAddress =>
      have hmap := (bind_eq htake).symm.trans hrest
      have h₂ : StaysOwn p₁ (mapTaken physicalAddress virtualAddress pageFlags p₁).2 :=
        mapTaken_own (htable ▸ hwf) (htable ▸ hpages)
      rcases hcall : mapTaken physicalAddress virtualAddress pageFlags p₁ with ⟨_ | _, p₂⟩
      · cases (bind_gaveUp hcall).symm.trans hmap
        rw [hcall] at h₂
        exact h₁.trans h₂
      · cases (bind_eq hcall).symm.trans hmap
        rw [hcall] at h₂
        exact h₁.trans h₂

theorem recordPage_own (page : MemoryPage) (inserted : Bool) (p : Process) :
    StaysOwn p (recordPage page inserted p).2 := by
  cases inserted with
  | false => exact .refl p
  | true => exact ⟨List.subset_append_left _ _, List.Subset.refl _, fun _ hne => absurd rfl hne⟩

/-- A copy into pages of the process. -/
theorem copy_own {source : Word} {n : Nat}
    (hown : ∀ c, physicalAddress.toNat ≤ c → c < physicalAddress.toNat + n → p.Owns c) :
    StaysOwn p (p.copy file physicalAddress source n) := by
  refine ⟨List.Subset.refl _, List.Subset.refl _, fun c hne => ?_⟩
  rw [readByte_copy] at hne
  by_cases hin : physicalAddress.toNat ≤ c ∧ c < physicalAddress.toNat + n
  · exact (hown c hin.1 hin.2).mono (List.Subset.refl _) (List.Subset.refl _)
  · rw [if_neg hin] at hne
    exact absurd rfl hne

end

/-! ## Where loading stops -/

/-- The visit that loading gives up at: nothing is copied, whatever has been
found and recorded. -/
inductive LastVisit (p : Process) : Process → Prop
  | before : LastVisit p p
  | searched {virtualAddress pageFlags result p'} :
      findPage virtualAddress pageFlags p = (result, p') → LastVisit p p'
  | recorded {virtualAddress pageFlags result p' page inserted} :
      findPage virtualAddress pageFlags p = (result, p') →
      LastVisit p (recordPage page inserted p').2

/-- Some of the visits have been made. -/
def Stopped (file : Buffer) (vs : List Visit) (p p' : Process) : Prop :=
  ∃ done left p₁, vs = done ++ left ∧ visitAll file done p = (some (), p₁) ∧ LastVisit p₁ p'

section
variable {file : Buffer} {vs ws : List Visit} {v : Visit} {p p' p₁ : Process} {l : Loading}
  {type : MemoryPageType} {virtualBase pageFlags : Word} {kmalloc : Nat → Bool}

theorem stopped_start (file : Buffer) (vs : List Visit) (p : Process) : Stopped file vs p p :=
  ⟨[], vs, p, rfl, rfl, .before⟩

theorem Stopped.cons (hvisit : visit file v p = (some (), p₁)) (h : Stopped file vs p₁ p') :
    Stopped file (v :: vs) p p' := by
  obtain ⟨done, left, p₂, rfl, hdone, hlast⟩ := h
  exact ⟨v :: done, left, p₂, rfl, (bind_eq hvisit).trans hdone, hlast⟩

theorem Stopped.append_left (ws : List Visit) (h : Stopped file vs p p') :
    Stopped file (vs ++ ws) p p' := by
  obtain ⟨done, left, p₂, rfl, hdone, hlast⟩ := h
  exact ⟨done, left ++ ws, p₂, List.append_assoc .., hdone, hlast⟩

theorem Stopped.append_right (hvisits : visitAll file vs p = (some (), p₁))
    (h : Stopped file ws p₁ p') : Stopped file (vs ++ ws) p p' := by
  obtain ⟨done, left, p₂, rfl, hdone, hlast⟩ := h
  exact ⟨vs ++ done, left, p₂, (List.append_assoc ..).symm,
    (visitAll_append_some hvisits).trans hdone, hlast⟩

theorem stopped_all (h : visitAll file vs p = (some (), p')) : Stopped file vs p p' :=
  ⟨vs, [], p', (List.append_nil vs).symm, h, .before⟩

/-- A visit that gives up has copied nothing. -/
theorem visit_stops (h : visit file v p = (none, p')) : LastVisit p p' := by
  rcases hfind : findPage v.virtualAddress v.pageFlags p with ⟨_ | physicalAddress, p₁⟩
  · cases (bind_gaveUp hfind).symm.trans h
    exact .searched hfind
  · have hvisit := (visit_found file hfind).symm.trans h
    split at hvisit
    · cases hvisit
      exact .recorded hfind
    · cases hvisit

/-- The loop of `allocate_memory_pages` gives up between two visits. -/
theorem allocatePages_stops (i n : Nat) (buffer : Option Word) (bytesRemaining : Nat) :
    Tried (allocatePages type virtualBase pageFlags kmalloc file i n buffer bytesRemaining) l
      (fun l' => Stopped file (pageVisits type virtualBase pageFlags kmalloc file i n buffer
        bytesRemaining) l.process l'.process) fun _ _ => True := by
  induction n generalizing i l buffer bytesRemaining with
  | zero => trivial
  | succ n ih =>
    refine tried_allocatePages (fun _ => stopped_start ..) (fun p' hvisit => ?_)
      fun p' reads hvisit => (ih (i + 1) _ _).mono (fun l' hstopped => ?_) fun _ _ h => h
    · exact ⟨[], _, l.process, rfl, rfl, visit_stops hvisit⟩
    · exact hstopped.cons hvisit

theorem loadProgramSegment_stops {program : ProgramHeader} :
    Tried (loadProgramSegment kmalloc file program) l
      (fun l' => Stopped file (segmentVisits kmalloc file program) l.process l'.process)
      fun _ _ => True := by
  refine tried_ite.mpr ?_
  split
  · exact stopped_start ..
  · exact allocatePages_stops 0 _ _ _

theorem loadSegments_stops {kmalloc : Nat → Nat → Bool} (i : Nat)
    (headers : List (Word × ProgramHeader)) :
    Tried (loadSegments kmalloc file i headers) l
      (fun l' => Stopped file (headerVisits kmalloc file i headers) l.process l'.process)
      fun _ _ => True := by
  induction headers generalizing i l with
  | nil => trivial
  | cons header rest ih =>
    obtain ⟨offset, program⟩ := header
    refine tried_bind.mpr (tried_modify.mpr ?_)
    show Tried (if program.Loadable then _ else _) (l.noted offset programHeaderSize) _ _
    unfold headerVisits
    by_cases hload : program.Loadable
    · rw [if_pos hload, if_pos hload]
      have hsegment : Tried (loadProgramSegment (kmalloc i) file program)
        (l.noted offset programHeaderSize) _ _ := loadProgramSegment_stops
      refine tried_bind.mpr ((hsegment.and loadProgramSegment_visits).mono ?_ ?_)
      · exact fun _ hstopped => hstopped.1.append_left _
      · rintro _ l' ⟨-, -, hvisits⟩
        exact (ih (i + 1)).mono (fun _ hstopped => hstopped.append_right hvisits) fun _ _ h => h
    · rw [if_neg hload, if_neg hload]
      exact ih (l := l.noted ..) (i + 1)

end

section
variable {file : Buffer} {vs : List Visit} {stackKmalloc : Nat → Bool}
  {kmalloc : Nat → Nat → Bool} {mainThread : Bool} {p p' : Process} {l l' : Loading}
  {result : Option Unit}

theorem Stopped.congr (file' : Buffer) (h : ∀ v ∈ vs, v.part = (0, 0))
    (hstopped : Stopped file vs p p') : Stopped file' vs p p' := by
  obtain ⟨done, left, p₁, rfl, hdone, hlast⟩ := hstopped
  refine ⟨done, left, p₁, rfl, ?_, hlast⟩
  exact (visitAll_congr file fun v hv => h v (List.mem_append_left _ hv)) p ▸ hdone

/-- Loading stops after some of its visits, or after all of them. -/
theorem loadNewProcess_stops
    (h : loadNewProcess stackKmalloc kmalloc mainThread file l = (result, l')) :
    Stopped file (imageVisits stackKmalloc kmalloc file) l.process l'.process := by
  have hstack : Tried (allocateStack stackKmalloc) l _ _ :=
    Tried.and (allocatePages_stops 0 (countPages userStackSize).toNat none 0) allocateStack_visits
  have hloaded : Tried (loadNewProcess stackKmalloc kmalloc mainThread file) l
      (fun l' => Stopped file (imageVisits stackKmalloc kmalloc file) l.process l'.process)
      fun _ l' => Stopped file (imageVisits stackKmalloc kmalloc file) l.process l'.process := by
    refine tried_bind.mpr (hstack.mono ?_ ?_)
    · rintro l₁ ⟨hstopped, -⟩
      exact (hstopped.congr file fun v hv => part_of_stackVisits hv).append_left _
    · rintro _ l₁ ⟨-, hvisits⟩
      rw [visitAll_congr file fun v hv => part_of_stackVisits hv] at hvisits
      refine tried_bind.mpr (tried_modify.mpr (tried_bind.mpr ?_))
      have hsegments : Tried (loadSegments kmalloc file 0 (programHeaders file))
        (l₁.noted 0 elfHeaderSize) _ _ := (loadSegments_stops 0 _).and (loadSegments_visits 0 _)
      refine hsegments.mono (fun _ hstopped => hstopped.1.append_right hvisits) ?_
      rintro _ l₂ ⟨-, -, hvisits'⟩
      have hall := stopped_all ((visitAll_append_some hvisits).trans hvisits')
      refine tried_ite.mpr ?_
      split
      · exact hall
      · exact hall
  cases result with
  | none => exact hloaded.gaveUp h
  | some _ => exact hloaded.returned h

end

/-! ## Runs -/

section
variable {Table : Word → Prop} {file : Buffer} {vs ws : List Visit} {v : Visit} {p p' : Process}
  {s : Space} {page address : Word}

theorem frame_eq_of_inPage (hpage : PageAddress page) (hin : InPage page address.toNat) :
    frame address = page := by
  have haligned := hpage.aligned
  have hfits := hpage.fits
  obtain ⟨hlo, hhi⟩ := hin
  have hframe := frame_toNat address
  apply BitVec.eq_of_toNat_eq
  omega

/-- A visit that puts its part into the page of its record. -/
theorem visit_own (h : Refines Table p s) (hinside : StaysInside Table s (v :: vs))
    (hflags : AttributeFlags v.pageFlags) (hrecorded : v.part.2 ≠ 0 → v.recorded = true)
    (hcall : visit file v p = (some (), p')) : StaysOwn p p' := by
  rcases hfind : findPage v.virtualAddress v.pageFlags p with ⟨_ | address, p₁⟩
  · cases (bind_gaveUp hfind).symm.trans hcall
  obtain ⟨s₁, hfinds, -⟩ := h.find hflags hfind
  have hvisit := (visit_found file hfind).symm.trans hcall
  by_cases hwindow : mmapPhysicalRegionSize ≤ address.toNat
  · rw [if_pos hwindow] at hvisit
    cases hvisit
  rw [if_neg hwindow] at hvisit
  cases hvisit
  refine (findPage_own h.wellFormed h.pagesOnly hfind).trans
    ((recordPage_own _ _ p₁).trans (copy_own fun c hlo hhi => .inl ?_))
  obtain ⟨page, ⟨hpage, -⟩, hstart, hend⟩ := hinside.inPage hfinds
  have hpart : v.part.2 ≠ 0 := by omega
  have hframe : frame address = page := frame_eq_of_inPage hpage ⟨hstart, by omega⟩
  rw [hrecorded hpart]
  refine ⟨⟨v.virtualAddress, address, v.type⟩, List.mem_append_right _ List.mem_cons_self, ?_⟩
  rw [hframe]
  exact ⟨by omega, by omega⟩

theorem visitAll_own (htables : ∀ page, Table page → PageAddress page) (h : Refines Table p s)
    (hinside : StaysInside Table s (vs ++ ws)) (hflags : ∀ v ∈ vs, AttributeFlags v.pageFlags)
    (hrecorded : RecordsData vs) (hcall : visitAll file vs p = (some (), p')) :
    StaysOwn p p' ∧ ∃ s', Refines Table p' s' := by
  induction vs generalizing p s with
  | nil =>
    cases hcall
    exact ⟨.refl _, s, h⟩
  | cons v vs ih =>
    obtain ⟨hflag, hflags⟩ := List.forall_mem_cons.mp hflags
    obtain ⟨hrecord, hrecorded⟩ := List.forall_mem_cons.mp hrecorded
    obtain ⟨_, p₁, hvisit, hrest⟩ := bind_returned.mp hcall
    have hkeeps := staysInside_keepsApart file htables
    obtain ⟨s₁, hvisits, h₁⟩ :=
      h.of_visit hflag (fun _ _ hfinds _ => hkeeps.apart hinside hfinds) hvisit
    have hown := visit_own h hinside hflag hrecord hvisit
    obtain ⟨hrest, hrefines⟩ := ih h₁ (hkeeps.step hinside hvisits) hflags hrecorded hrest
    exact ⟨hown.trans hrest, hrefines⟩

theorem LastVisit.own (h : LastVisit p p') (hrefines : Refines Table p s) : StaysOwn p p' := by
  cases h with
  | before => exact .refl p
  | searched hfind => exact findPage_own hrefines.wellFormed hrefines.pagesOnly hfind
  | recorded hfind =>
    exact (findPage_own hrefines.wellFormed hrefines.pagesOnly hfind).trans (recordPage_own ..)

end

/-- If no part goes over the end of a page that had been mapped before, and
the pages that get something are recorded, loading changes nothing else. -/
theorem contained_owned {file : Buffer} {stackKmalloc : Nat → Bool} {kmalloc : Nat → Nat → Bool}
    (hcontained : Contained (allVisits file))
    (hrecorded : RecordsData (imageVisits stackKmalloc kmalloc file)) :
    LoadsInOwn file stackKmalloc kmalloc := by
  intro mainThread p result l hnew hcall
  obtain ⟨done, left, p₁, hvisits, hdone, hlast⟩ := loadNewProcess_stops hcall
  have hinside : StaysInside (IsTable p.pageTable) p.newSpace
    (imageVisits stackKmalloc kmalloc file) := hnew.staysInside hcontained
  have hflags : ∀ v ∈ imageVisits stackKmalloc kmalloc file, AttributeFlags v.pageFlags :=
    fun v hv => flags_of_imageVisits hv
  rw [hvisits] at hinside hflags hrecorded
  obtain ⟨hown, s, hrefines⟩ := visitAll_own (fun page hpage => (hnew.tables hpage).1)
    hnew.refines hinside (fun v hv => hflags v (List.mem_append_left _ hv))
    (fun v hv => hrecorded v (List.mem_append_left _ hv)) hdone
  exact (hown.trans (hlast.own hrefines)).changes

end ZOs.ProcessMemory
