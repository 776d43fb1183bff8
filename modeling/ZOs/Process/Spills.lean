import ZOs.Process.OwnMemory

/-!
# Parts that go over the end of a page

With the block of a page at the end of the window, a part that goes over the
end of the page is put behind the window, in no page of the process.
-/

namespace ZOs.ProcessMemory

open Paging Attempt Bytes Elf Patches
open Boot (IsTable)

/-! ## Blocks in an order -/

/-- The blocks are at the end of the window, in the order of the pages. -/
def orderedBlock (order : List Nat) (number : Nat) : Word :=
  BitVec.ofNat 64 (4096 * (2 ^ 22 - order.length + order.idxOf number))

/-- The order of the visits, with one page behind the others. -/
def lastOrder (vs : List Visit) (number : Nat) : List Nat :=
  (firstVisits [] vs).erase number ++ [number]

section
variable {vs : List Visit} {order : List Nat} {number m : Nat}

theorem orderedBlock_toNat (hroom : order.length < 2 ^ 22) (hm : m ∈ order) :
    (orderedBlock order m).toNat = 4096 * (2 ^ 22 - order.length + order.idxOf m) ∧
      order.idxOf m < order.length := by
  have hlt := List.idxOf_lt_length_of_mem hm
  refine ⟨?_, hlt⟩
  unfold orderedBlock
  rw [BitVec.toNat_ofNat]
  omega

theorem ordered_layout (hroom : order.length + (newTables [] vs).length < 2 ^ 22)
    (hvisited : ∀ v ∈ vs, v.number ∈ order) : Layout vs (orderedBlock order) where
  kind v hv := by
    obtain ⟨htoNat, hlt⟩ := orderedBlock_toNat (by omega) (hvisited v hv)
    exact ⟨by omega, by omega, by omega⟩
  low v hv := by
    obtain ⟨htoNat, hlt⟩ := orderedBlock_toNat (by omega) (hvisited v hv)
    have hsize : mmapPhysicalRegionSize = 2 ^ 34 := rfl
    omega
  inj v hv w hw heq := by
    have htoNat := (orderedBlock_toNat (by omega) (hvisited v hv)).1
    have htoNat' := (orderedBlock_toNat (by omega) (hvisited w hw)).1
    rw [heq] at htoNat
    exact (List.idxOf_inj (hvisited v hv)).mp (by omega)
  tables := by omega

theorem lastOrder_length (h : HasRoom vs number) :
    (lastOrder vs number).length = (firstVisits [] vs).length := by
  have hmem : number ∈ firstVisits [] vs := mem_firstVisits.mpr ⟨List.not_mem_nil, h.visited⟩
  have hpos := List.length_pos_of_mem hmem
  unfold lastOrder
  rw [List.length_append, List.length_erase_of_mem hmem, List.length_singleton]
  omega

theorem mem_lastOrder (number : Nat) {v : Visit} (hv : v ∈ vs) :
    v.number ∈ lastOrder vs number := by
  unfold lastOrder
  by_cases hnumber : v.number = number
  · exact List.mem_append_right _ (List.mem_singleton.mpr hnumber)
  · refine List.mem_append_left _ ((List.mem_erase_of_ne hnumber).mpr ?_)
    exact mem_firstVisits.mpr ⟨List.not_mem_nil, v, hv, rfl⟩

theorem last_layout (h : HasRoom vs number) : Layout vs (orderedBlock (lastOrder vs number)) := by
  refine ordered_layout ?_ fun v hv => mem_lastOrder number hv
  rw [lastOrder_length h]
  exact h.pages

/-- Behind the block of the last page the window ends. -/
theorem lastBlock_toNat (h : HasRoom vs number) :
    (orderedBlock (lastOrder vs number) number).toNat + 4096 = 2 ^ 34 := by
  have hlength := lastOrder_length h
  have hpages := h.pages
  have hnot : number ∉ (firstVisits [] vs).erase number :=
    (nodup_firstVisits [] vs).not_mem_erase
  have hidx : (lastOrder vs number).idxOf number = ((firstVisits [] vs).erase number).length := by
    unfold lastOrder
    rw [List.idxOf_append_of_notMem hnot, List.idxOf_cons_self, Nat.add_zero]
  have hsplit : (lastOrder vs number).length =
      ((firstVisits [] vs).erase number).length + 1 := List.length_append ..
  obtain ⟨v, hv, rfl⟩ := h.visited
  obtain ⟨htoNat, -⟩ := orderedBlock_toNat (by omega) (mem_lastOrder v.number hv)
  omega

end

/-! ## What is recorded -/

section
variable {p p' : Process} {file : Buffer} {vs : List Visit} {v : Visit} {c : Nat}
  {virtualAddress pageFlags : Word} {result : Option Word}

theorem findPage_memoryPages (h : findPage virtualAddress pageFlags p = (result, p')) :
    p'.memoryPages = p.memoryPages := by
  unfold findPage at h
  split at h
  · cases h
    rfl
  · have htaken : (takeBlock p).2.memoryPages = p.memoryPages := by
      unfold takeBlock
      split <;> rfl
    rcases htake : takeBlock p with ⟨_ | physicalAddress, p₁⟩
    · cases (bind_gaveUp htake).symm.trans h
      rw [← htaken, htake]
    · have hmap := (bind_eq htake).symm.trans h
      rw [← htaken, htake]
      rcases hcall : mapTaken physicalAddress virtualAddress pageFlags p₁ with ⟨_ | _, p₂⟩
      · cases (bind_gaveUp hcall).symm.trans hmap
        exact congrArg (fun q => q.2.memoryPages) hcall.symm
      · cases (bind_eq hcall).symm.trans hmap
        exact congrArg (fun q => q.2.memoryPages) hcall.symm

/-- The pages that are recorded are in the window, after a run that returns. -/
theorem visitAll_low (hcall : visitAll file vs p = (some (), p'))
    (h : ∀ page ∈ p.memoryPages, page.physicalAddress.toNat < mmapPhysicalRegionSize) :
    ∀ page ∈ p'.memoryPages, page.physicalAddress.toNat < mmapPhysicalRegionSize := by
  induction vs generalizing p with
  | nil =>
    cases hcall
    exact h
  | cons v vs ih =>
    obtain ⟨_, p₁, hvisit, hrest⟩ := bind_returned.mp hcall
    refine ih hrest ?_
    rcases hfind : findPage v.virtualAddress v.pageFlags p with ⟨_ | address, p₂⟩
    · cases (bind_gaveUp hfind).symm.trans hvisit
    have hvisit := (visit_found file hfind).symm.trans hvisit
    split at hvisit
    · cases hvisit
    · rename_i hwindow
      cases hvisit
      intro page hpage
      change page ∈ (recordPage ⟨v.virtualAddress, address, v.type⟩ v.recorded p₂).2.memoryPages
        at hpage
      have hor : page ∈ p₂.memoryPages ∨ page = ⟨v.virtualAddress, address, v.type⟩ := by
        cases hrecorded : v.recorded with
        | false =>
          rw [hrecorded] at hpage
          exact .inl hpage
        | true =>
          rw [hrecorded] at hpage
          exact (List.mem_append.mp hpage).imp id List.mem_singleton.mp
      rcases hor with hold | rfl
      · exact h page (findPage_memoryPages hfind ▸ hold)
      · exact Nat.lt_of_not_le hwindow

end

/-! ## Files with parts that go over the end of a page -/

section
variable {file : Buffer} {l : Landing}

theorem exists_spill (h : ¬Contained (allVisits file)) : ∃ l ∈ landings [] (allVisits file),
    l.offset = l.visit.offset ∧ ¬l.visit.EndsInPage := by
  by_contra hnone
  refine h ?_
  have hpairs : (landings [] (allVisits file)).Pairwise fun l l' =>
      l.visit.number = l'.visit.number → l'.visit.EndsInPage := by
    refine (pairwise_landings [] (allVisits file)).imp_of_mem fun {l l'} _ hl' hoffset hnumber => ?_
    by_contra hends
    exact hnone ⟨l', hl', hoffset hnumber.symm, hends⟩
  rw [← visit_landings [] (allVisits file)]
  exact List.pairwise_map.mpr hpairs

/-- The byte behind the window is in no page of the process, and ends up the
same whatever was there. -/
theorem spill_run (hfits : Fits file) (hl : l ∈ landings [] (allVisits file))
    (hoffset : l.offset = l.visit.offset) (hends : ¬l.visit.EndsInPage) :
    ∃ block, Layout (allVisits file) block ∧ ∃ x, ∀ word, ∃ p',
      visitAll file (allVisits file) (laidOut (allVisits file) block word) = (some (), p') ∧
        ¬p'.Owns (2 ^ 34) ∧ readByte p'.pageTable.memory (2 ^ 34) = x := by
  have hroom : HasRoom (allVisits file) l.visit.number :=
    hfits.room ⟨_, mem_of_landings hl, rfl⟩
  have hlayout := last_layout hroom
  let block := orderedBlock (lastOrder (allVisits file) l.visit.number)
  let patches := (landings [] (allVisits file)).map (Landing.patch file fun n => (block n).toNat)
  refine ⟨block, hlayout, storeAll patches (fun _ => 0) (2 ^ 34), fun word => ?_⟩
  obtain ⟨p', s, hcall, hrefines, hall, hpage⟩ := hlayout.run
    (fun v hv => flags_of_imageVisits hv) (fun v hv => count_of_imageVisits hv) file word
  have hsize : mmapPhysicalRegionSize = 2 ^ 34 := rfl
  have hnew := hlayout.new word
  -- the tables are in the window
  have htables : ∀ page, IsTable (laidOut (allVisits file) block word).pageTable page →
      ¬InPage page (2 ^ 34) := by
    refine fun page hpage => hlayout.behind hpage ?_
    have htables := hlayout.tables
    omega
  refine ⟨p', hcall, ?_, ?_⟩
  · rintro (⟨page, hpage, hin⟩ | ⟨table, htable, hin⟩)
    · have hlow := visitAll_low hcall (fun _ hmem => (nomatch hmem)) page hpage
      have hframe := frame_toNat page.physicalAddress
      obtain ⟨-, hhi⟩ := hin
      omega
    · exact htables table (hrefines.tables table (.inl htable)) hin
  · have hpatches : (landings [] (allVisits file)).map
        (Landing.patch file fun n => (s.block n).toNat) = patches := by
      refine List.map_congr_left fun l' hl' => ?_
      obtain ⟨placement, hplace⟩ := hall.visited (mem_of_landings hl')
      have hblock : s.block l'.visit.number = block l'.visit.number :=
        (Space.block_of_place hplace).trans (hpage _ _ hplace).1
      unfold Landing.patch
      dsimp only
      rw [hblock]
    rw [hrefines.bytes _ htables, (hnew.leaves hall).bytes hnew, hpatches]
    refine storeAll_congr fun hnone => absurd ?_ (hnone _ (List.mem_map_of_mem hl))
    have hlast : (block l.visit.number).toNat + 4096 = 2 ^ 34 := lastBlock_toNat hroom
    have hlt := l.visit.offset_lt
    have hends : ¬l.visit.offset + l.visit.part.2 ≤ 4096 := hends
    unfold Patch.Covers Landing.patch
    dsimp only
    omega

/-- So the byte is changed, for one of two values that it can have had. -/
theorem LoadsInOwn.contained (h : LoadsInOwn file (fun _ => true) fun _ _ => true)
    (hfits : Fits file) : Contained (allVisits file) := by
  by_contra hcontained
  obtain ⟨l, hl, hoffset, hends⟩ := exists_spill hcontained
  obtain ⟨block, hlayout, x, hrun⟩ := spill_run hfits hl hoffset hends
  have hsame (word : Word) : x = byteOf word 0 := by
    obtain ⟨p', hcall, hnot, hread⟩ := hrun word
    obtain ⟨l', hload, rfl⟩ := loadNewProcess_returns (l := ⟨_, []⟩) hfits.sound hcall
    have hkept : readByte l'.process.pageTable.memory (2 ^ 34) =
        readByte (laidOut (allVisits file) block word).pageTable.memory (2 ^ 34) := by
      by_contra hne
      exact hnot (h _ _ _ l' (hlayout.new word) hload _ hne)
    rw [← hread, hkept]
    rfl
  have hzero := hsame 0
  have hones := hsame (BitVec.allOnes 64)
  rw [hzero] at hones
  exact absurd hones (by decide)

end

/-- Loading a file changes only memory of the process if no part goes over
the end of a page that had been mapped before and the pages that get parts are
recorded; the former is needed for every file that can be loaded. -/
theorem contained_loadsInOwn (file : Buffer) :
    (∀ stackKmalloc kmalloc, Contained (allVisits file) →
      RecordsData (imageVisits stackKmalloc kmalloc file) →
      LoadsInOwn file stackKmalloc kmalloc) ∧
    (Fits file → LoadsInOwn file (fun _ => true) (fun _ _ => true) →
      Contained (allVisits file)) :=
  ⟨fun _ _ => contained_owned, fun hfits h => h.contained hfits⟩

theorem tailImage_loadsInOwn : LoadsInOwn tailImage (fun _ => true) fun _ _ => true :=
  (contained_loadsInOwn tailImage).1 _ _ (by decide +kernel) (by unfold RecordsData; decide +kernel)

theorem spillImage_inMemory : (0x10000 : Word).toNat + (4096 : Word).toNat < 2 ^ 64 := by decide

/-- A file with a segment at the start of a page, and another one that starts
in that page and ends in the next. -/
def spillImage : Buffer where
  address := 0x10000
  size := 4096
  bytes offset :=
    match offset with
    | 32 => 64 -- e_phoff
    | 54 => 56 -- e_phentsize
    | 56 => 2 -- e_phnum
    | 64 => 1 -- p_type
    | 82 => 64 -- p_vaddr
    | 96 => 64 -- p_filesz
    | 104 => 128 -- p_memsz
    | 112 => 1 -- p_align
    | 120 => 1 -- p_type
    | 137 => 15 -- p_vaddr
    | 138 => 64
    | 153 => 2 -- p_filesz
    | 161 => 2 -- p_memsz
    | 168 => 1 -- p_align
    | _ => 0
  fits := spillImage_inMemory

theorem programHeaders_spillImage : programHeaders spillImage =
    [(64, ⟨1, 0, 0, 0x400000, 64, 128, 1⟩), (120, ⟨1, 0, 0, 0x400F00, 512, 512, 1⟩)] := by
  decide +kernel

theorem spillImage_fits : Fits spillImage where
  sound := by
    unfold Sound
    rw [programHeaders_spillImage]
    decide
  pages := by decide +kernel

theorem spillImage_spills : ¬∀ file stackKmalloc kmalloc, LoadsInOwn file stackKmalloc kmalloc := by
  intro h
  exact absurd ((h spillImage _ _).contained spillImage_fits) (by decide +kernel)

end ZOs.ProcessMemory
