import ZOs.Process.ZeroTail

/-!
# Parts that stay in their pages

A part is put at the place of the address in a page that has been mapped
before, and may go over the end of that page then. For files where none does,
loading a new process is a run of its space: `loaded_space`.
-/

namespace ZOs.ProcessMemory

open Paging Attempt Bytes Elf
open Boot (IsTable)

/-! ## Files -/

/-- Put at the place of the address, the part ends in the page. -/
def Visit.EndsInPage (v : Visit) : Prop := (pageOffset v.virtualAddress).toNat + v.part.2 ≤ 4096

instance (v : Visit) : Decidable v.EndsInPage := inferInstanceAs (Decidable (_ ≤ _))

/-- No page that is visited again gets a part that goes over its end. -/
def Contained (vs : List Visit) : Prop :=
  vs.Pairwise fun u v => u.number = v.number → v.EndsInPage

instance (vs : List Visit) : Decidable (Contained vs) :=
  inferInstanceAs (Decidable (List.Pairwise ..))

/-- The visit, without what `kmalloc` answered. -/
def Visit.bare (v : Visit) : Visit := { v with recorded := true }

section
variable {file : Buffer} {stackKmalloc : Nat → Bool} {kmalloc : Nat → Nat → Bool} {vs : List Visit}
  {v : Visit}

theorem bare_pageVisits (type : MemoryPageType) (virtualBase pageFlags : Word)
    (kmalloc : Nat → Bool) (file : Buffer) (i n : Nat) (buffer : Option Word)
    (bytesRemaining : Nat) :
    (pageVisits type virtualBase pageFlags kmalloc file i n buffer bytesRemaining).map Visit.bare =
      pageVisits type virtualBase pageFlags (fun _ => true) file i n buffer bytesRemaining := by
  rw [pageVisits_eq, pageVisits_eq, List.map_map]
  rfl

theorem bare_headerVisits (kmalloc : Nat → Nat → Bool) (file : Buffer) (i : Nat)
    (headers : List (Word × ProgramHeader)) :
    (headerVisits kmalloc file i headers).map Visit.bare =
      headerVisits (fun _ _ => true) file i headers := by
  induction headers generalizing i with
  | nil => rfl
  | cons header rest ih =>
    obtain ⟨offset, program⟩ := header
    show (if program.Loadable then _ else _ : List Visit).map Visit.bare =
      if program.Loadable then _ else _
    split
    · rw [List.map_append, ih]
      exact congrArg (· ++ _) (bare_pageVisits ..)
    · exact ih (i + 1)

/-- Where the visits go is in the file alone. -/
theorem bare_imageVisits (stackKmalloc : Nat → Bool) (kmalloc : Nat → Nat → Bool) (file : Buffer) :
    (imageVisits stackKmalloc kmalloc file).map Visit.bare = allVisits file := by
  unfold imageVisits
  rw [List.map_append, bare_headerVisits]
  exact congrArg (· ++ _) (bare_pageVisits ..)

theorem contained_bare : Contained (vs.map Visit.bare) ↔ Contained vs := List.pairwise_map

theorem contained_imageVisits (h : Contained (allVisits file)) :
    Contained (imageVisits stackKmalloc kmalloc file) := by
  rw [← bare_imageVisits stackKmalloc kmalloc file] at h
  exact contained_bare.mp h

end

/-! ## Runs that stay in pages -/

/-- A page for data. -/
def DataPage (Table : Word → Prop) (page : Word) : Prop := PageAddress page ∧ ¬Table page

/-- The parts that are left to put stay in pages for data. -/
structure StaysInside (Table : Word → Prop) (s : Space) (vs : List Visit) : Prop where
  uses : s.Uses (DataPage Table)
  again : ∀ v ∈ vs, s.place v.number ≠ none → v.EndsInPage
  later : Contained vs
  counts : ∀ v ∈ vs, v.part.2 ≤ 4096

section
variable {Table : Word → Prop} {s s' s₁ : Space} {file : Buffer} {v : Visit} {vs : List Visit}
  {address page : Word} {n : Nat}

/-- Two pages have no byte in common. -/
theorem inPage_unique {page' : Word} {c : Nat} (hpage : PageAddress page)
    (hpage' : PageAddress page')
    (h : InPage page c) (h' : InPage page' c) : page = page' := by
  have haligned := hpage.aligned
  have haligned' := hpage'.aligned
  obtain ⟨hlo, hhi⟩ := h
  obtain ⟨hlo', hhi'⟩ := h'
  apply BitVec.eq_of_toNat_eq
  omega

/-- The part of a visit is put into a page for data. -/
theorem StaysInside.inPage (h : StaysInside Table s (v :: vs)) (hfinds : s.Finds v address s₁) :
    ∃ page, DataPage Table page ∧ page.toNat ≤ address.toNat ∧
      address.toNat + v.part.2 ≤ page.toNat + 4096 := by
  have hcount := h.counts v (List.mem_cons_self ..)
  cases hfinds with
  | again hplace =>
    rename_i placement
    have hpage := h.uses.place _ _ hplace
    have hends : v.EndsInPage :=
      h.again v (List.mem_cons_self ..) fun hnone => nomatch hplace.symm.trans hnone
    unfold Visit.EndsInPage at hends
    obtain ⟨htoNat, -⟩ := add_offset_toNat (x := v.virtualAddress) hpage.1.aligned (.inr rfl)
    exact ⟨placement.page, hpage, by omega, by omega⟩
  | first _ hblocks =>
    exact ⟨address, h.uses.blocks _ (hblocks ▸ List.mem_cons_self ..), Nat.le_refl _, by omega⟩

/-- Where a page is after a visit, it was before or is the page of the visit. -/
theorem Space.Finds.place_or {number : Nat} (h : s.Finds v address s₁)
    (hplace : s₁.place number ≠ none) : s.place number ≠ none ∨ number = v.number := by
  cases h with
  | again => exact .inl hplace
  | first =>
    by_cases hnumber : number = v.number
    · exact .inr hnumber
    · dsimp only at hplace
      rw [Function.update_of_ne hnumber] at hplace
      exact .inl hplace

theorem staysInside_keepsApart (file : Buffer) (htables : ∀ page, Table page → PageAddress page) :
    KeepsApart Table file (StaysInside Table) where
  step h hvisits := by
    rename_i s v vs s'
    obtain ⟨hlater, hcontained⟩ := List.pairwise_cons.mp h.later
    refine ⟨hvisits.uses h.uses, fun w hw hplace => ?_, hcontained,
      fun w hw => h.counts w (List.mem_cons_of_mem _ hw)⟩
    obtain ⟨address, s₁, hfinds, -, rfl⟩ := hvisits
    rcases hfinds.place_or hplace with hbefore | hnumber
    · exact h.again w (List.mem_cons_of_mem _ hw) hbefore
    · exact hlater w hw hnumber.symm
  apart h hfinds := by
    obtain ⟨page, ⟨hpage, hdata⟩, hlo, hhi⟩ := h.inPage hfinds
    intro table htable c hc hlt hin
    refine hdata ?_
    rwa [inPage_unique hpage (htables table htable) ⟨by omega, by omega⟩ hin]

end

/-! ## New processes -/

/-- The space of a process to which nothing has been mapped. -/
def Process.newSpace (p : Process) : Space where
  place _ := none
  blocks := p.blocks
  bytes := readByte p.pageTable.memory

section
variable {p : Process} {page : Word} {file : Buffer} {l : Loading} {stackKmalloc : Nat → Bool}
  {kmalloc : Nat → Nat → Bool} {mainThread : Bool}

theorem NewProcess.tables (h : NewProcess p) (hpage : IsTable p.pageTable page) :
    PageAddress page ∧ page ∈ p.pageTable.answers := by
  rcases hpage with hobtained | ⟨hanswer, hne⟩
  · rw [h.table.obtained] at hobtained
    cases hobtained
  · exact ⟨(h.table.answers.page page hanswer hne).1, hanswer⟩

theorem NewProcess.refines (h : NewProcess p) :
    Refines (IsTable p.pageTable) p p.newSpace where
  wellFormed := h.table.wellFormed
  pagesOnly := h.table.pagesOnly
  pageAddress _ hpage := (h.tables hpage).1
  tables _ hpage := hpage
  walk _ := h.table.walk _
  attributes _ _ hplace := nomatch hplace
  blocks := rfl
  aligned page hpage := frame_of_aligned (h.block page hpage).1.aligned (h.block page hpage).1.fits
  bytes _ _ := rfl

theorem NewProcess.staysInside (h : NewProcess p) (hcontained : Contained (allVisits file)) :
    StaysInside (IsTable p.pageTable) p.newSpace (imageVisits stackKmalloc kmalloc file) where
  uses :=
    { place := fun _ _ hplace => nomatch hplace
      blocks := fun page hpage =>
        ⟨(h.block page hpage).1, fun htable => (h.block page hpage).2 (h.tables htable).2⟩ }
  again _ _ hplace := absurd rfl hplace
  later := contained_imageVisits hcontained
  counts _ hv := count_of_imageVisits hv

/-- Loading a new process is a run of its space. -/
theorem loaded_space (h : NewProcess p) (hcontained : Contained (allVisits file))
    (hcall : loadNewProcess stackKmalloc kmalloc mainThread file ⟨p, []⟩ = (some (), l)) :
    ∃ s, p.newSpace.VisitsAll file (imageVisits stackKmalloc kmalloc file) s ∧
      Refines (IsTable p.pageTable) l.process s ∧ s.Uses (DataPage (IsTable p.pageTable)) := by
  obtain ⟨-, hvisits⟩ := loadNewProcess_returned hcall
  have hkeeps := staysInside_keepsApart file fun page hpage => (h.tables hpage).1
  obtain ⟨s, hall, hrefines, hinside⟩ := h.refines.of_visitAll hkeeps (h.staysInside hcontained)
    (fun v hv => flags_of_imageVisits hv) hvisits
  exact ⟨s, hall, hrefines, hinside.uses⟩

end

/-! ## Runs with given blocks -/

section
variable {vs : List Visit} {block : Nat → Word} {file : Buffer} {word : Word}

theorem Layout.behind (h : Layout vs block) {page : Word}
    (htable : IsTable (laidOut vs block word).pageTable page) {c : Nat}
    (hc : 4096 * ((newTables [] vs).length + 1) ≤ c) : ¬InPage page c := by
  obtain ⟨haligned, -, hlt⟩ := h.answer ((htable.resolve_left List.not_mem_nil).1)
  rintro ⟨-, hhi⟩
  omega

theorem Layout.keepsApart (h : Layout vs block) (file : Buffer) (word : Word) :
    KeepsApart (IsTable (laidOut vs block word).pageTable) file
      fun s _ => s.Uses (DirtyBlock vs) where
  step huses hvisits := hvisits.uses huses
  apart huses hfinds := by
    obtain ⟨page, offset, ⟨haligned, hbehind, -⟩, hoffset, rfl⟩ := hfinds.inBlock huses
    obtain ⟨htoNat, -⟩ := add_offset_toNat haligned hoffset
    intro table htable c hc _
    exact h.behind htable (by omega)

/-- All visits can be made, whatever memory is filled with. -/
theorem Layout.run (h : Layout vs block) (hflags : ∀ v ∈ vs, AttributeFlags v.pageFlags)
    (hcounts : ∀ v ∈ vs, v.part.2 ≤ 4096) (file : Buffer) (word : Word) :
    ∃ p' s', visitAll file vs (laidOut vs block word) = (some (), p') ∧
      Refines (IsTable (laidOut vs block word).pageTable) p' s' ∧
      (laidOut vs block word).newSpace.VisitsAll file vs s' ∧
      ∀ m placement, s'.place m = some placement →
        placement.page = block m ∧ ∃ v ∈ vs, v.number = m := by
  have hblock : ∀ v ∈ vs, (block v.number).toNat % 4096 = 0 ∧
      (block v.number).toNat < mmapPhysicalRegionSize := fun v hv => ⟨(h.kind v hv).1, h.low v hv⟩
  -- a byte that no part goes over
  have hmisses : ∀ v ∈ vs, v.Misses block (2 ^ 35) := by
    intro v hv offset hoffset
    have hlow := h.low v hv
    have hcount := hcounts v hv
    have hsmall := pageOffset_toNat v.virtualAddress
    have hsize : mmapPhysicalRegionSize = 2 ^ 34 := rfl
    omega
  have hplaced : (laidOut vs block word).newSpace.PlacedBy block [] := fun _ => rfl
  obtain ⟨s', hall, -, seen, hplaced', hseen⟩ :
      ∃ s', (laidOut vs block word).newSpace.VisitsAll file vs s' ∧ _ :=
    exists_visitsAll hblock hmisses hplaced rfl
  have huses : (laidOut vs block word).newSpace.Uses (DirtyBlock vs) :=
    ⟨fun _ _ hplace => (nomatch hplace), fun page hpage => by
      obtain ⟨v, hv, rfl⟩ := mem_laidOut_blocks hpage
      exact h.kind v hv⟩
  have hpages : HasPages (newTables [] vs).length (laidOut vs block word).pageTable := by
    refine ⟨?_, fun page hpage => (h.answer_pageAddress hpage).nonzero⟩
    show _ ≤ ((List.range _).map _).length
    rw [List.length_map, List.length_range]
  obtain ⟨p', hcall, hrefines⟩ := (h.new word).refines.visitAll_returns (h.keepsApart file word)
    huses hflags (List.forall_mem_nil _) hpages hall
  refine ⟨p', s', hcall, hrefines, hall, fun m placement hplace => ?_⟩
  have hm := hplaced' m
  rw [hplace] at hm
  split at hm
  · rename_i hmem
    exact ⟨Option.some.inj hm, ((hseen m).mp hmem).resolve_left List.not_mem_nil⟩
  · cases hm

end

end ZOs.ProcessMemory
