import ZOs.Memory.WindowFrame

/-!
# The direct-map window round trip

`mmap_init` enters the sixteen blocks of the window, and no mapping call
moves a 1 GiB block, so the window stays as it is. Tables are read through
it too, which works for tables that lie in it.
-/

namespace ZOs.Paging

open TableTree Attempt Runs BootMap

/-! ## Reading tables through the window -/

section
variable {v v' : Vmap} {x va pa finish pageFlags : Word} {fuel n : Nat} {b : Block}

/-- Where every table can be seen, the translation is that of the tables. -/
theorem translateMapped_of_visible (h : ∀ {t p}, v.Reached t p → Visible t) (x : Word) :
    v.translateMapped x = some (v.vmapVirtualToPhysical x) := by
  unfold Vmap.translateMapped Vmap.vmapVirtualToPhysical
  by_cases hroot : v.rootPageTable = 0
  · simp only [hroot, if_true]
  have ht : v.Reached v.rootPageTable [] := by
    unfold Vmap.Reached
    rw [v.walk_of_root hroot, walk_nil]
  simp only [hroot, if_false, h ht, not_true_eq_false]
  rw [v.entry_l0]
  generalize hl0 : v.slot v.rootPageTable (index (x >>> 39)) = l0Entry
  by_cases h0 : l0Entry &&& tblEntryValid = 0
  · simp only [h0, if_true]
  have ht0 : v.Reached (l0Entry &&& tblEntryAddrMask) [index (x >>> 39)] :=
    ht.child (by rw [hl0]; exact entryKind_root h0)
  simp only [h0, if_false, h ht0, not_true_eq_false]
  rw [v.entry_l1]
  generalize hl1 : v.slot (l0Entry &&& tblEntryAddrMask) (index (x >>> 30)) = l1Entry
  by_cases h1 : l1Entry &&& tblEntryValid = 0
  · simp only [h1, if_true]
  by_cases hb1 : l1Entry &&& tblEntryTable = 0
  · simp only [h1, hb1, if_true, if_false]
  have ht1 := ht0.next (by simp) hl1.symm h1 hb1
  simp only [h1, hb1, if_false, h ht1, not_true_eq_false]
  rw [v.entry_l2]
  generalize hl2 : v.slot (l1Entry &&& tblEntryAddrMask) (index (x >>> 21)) = l2Entry
  by_cases h2 : l2Entry &&& tblEntryValid = 0
  · simp only [h2, if_true]
  by_cases hb2 : l2Entry &&& tblEntryTable = 0
  · simp only [h2, hb2, if_true, if_false]
  have ht2 := ht1.next (by simp) hl2.symm h2 hb2
  simp only [h2, hb2, if_false, h ht2, not_true_eq_false]
  rw [v.entry_l3]
  generalize v.slot (l2Entry &&& tblEntryAddrMask) (index (x >>> 12)) = l3Entry
  split
  · rfl
  · rfl

/-! ## Mapping a range of blocks -/

/-- What a range of blocks that is mapped in full leaves behind: every
address of it is in a block that stands for the right physical address. -/
theorem blockMapRange_maps (hwf : WellFormed v) (hflags : AttributeFlags pageFlags)
    (hcall : Block.l1.mapRange fuel va finish pa pageFlags v = some (some (), v'))
    (hfinish : finish.toNat = va.toNat + n * 2 ^ 30) (hpa : pa.toNat + n * 2 ^ 30 ≤ 2 ^ 48) :
    ∀ off, off < n * 2 ^ 30 → ∃ e,
      v'.walk (path (va + BitVec.ofNat 64 off)) = .leaf 1 e ∧
      stopAddress (va + BitVec.ofNat 64 off) (.leaf 1 e) = some (pa + BitVec.ofNat 64 off) := by
  induction n generalizing fuel va pa v with
  | zero =>
    intro off hoff
    omega
  | succ n ih =>
    intro off hoff
    have hlt : va < finish := by
      rw [BitVec.lt_def]
      omega
    cases fuel with
    | zero => cases hcall
    | succ fuel =>
      rw [Block.mapRange, if_pos hlt] at hcall
      have hframe := frame_blockMap .l1 va pa hwf hflags.table
      have hspec := Block.map_spec (b := .l1) va pa hwf hflags.table
      rcases hone : Block.l1.map va pa pageFlags v with ⟨_ | _, v₁⟩
      · rw [hone] at hcall
        cases hcall
      rw [hone] at hcall hframe
      obtain ⟨hent, -⟩ := hspec.returned hone
      obtain ⟨hva, hbase⟩ := Block.map_aligned hone
      have hsize : Block.l1.size.toNat = 2 ^ 30 := by decide
      have hfin := finish.isLt
      by_cases hfirst : off < 2 ^ 30
      · -- the block that is entered now, which the rest of the loop keeps
        have hoff' : (BitVec.ofNat 64 off).toNat < Block.l1.size.toNat := by
          rw [hsize, BitVec.toNat_ofNat]
          omega
        have hhere := hent.here (x := va + BitVec.ofNat 64 off)
          (Block.l1.prefix_iff.mpr (Block.number_add hva hoff'))
        have hrest : Frame v₁ v' := frame_blockMapRange hframe.kept.wellFormed hflags.table hcall
        refine ⟨_, hrest.blocks hhere, ?_⟩
        exact stopAddress_blockEntry hva hbase (by omega) hflags hoff'
      · have hoffset : BitVec.ofNat 64 off =
            Block.l1.size + BitVec.ofNat 64 (off - 2 ^ 30) := by
          have hsum : off = 2 ^ 30 + (off - 2 ^ 30) := by omega
          conv_lhs => rw [hsum, BitVec.ofNat_add]
          rfl
        rw [hoffset, ← add_assoc, ← add_assoc]
        refine ih hframe.kept.wellFormed hcall ?_ ?_ (off - 2 ^ 30) (by omega)
        · rw [BitVec.toNat_add, hsize]
          omega
        · rw [BitVec.toNat_add, hsize]
          omega

/-- A table without valid entries is a tree. -/
theorem wellFormed_emptyTable {pages : List Word} (hroot : v.rootPageTable ≠ 0)
    (hempty : ∀ i, v.slot v.rootPageTable i = 0) (hin : v.rootPageTable ∈ pages)
    (hpages : ∀ page ∈ pages, PageAddress page) (hanswers : FreshAnswers (v.owning pages)) :
    WellFormed (v.owning pages) := by
  have hreach : ∀ {t p}, (v.owning pages).Reached t p → p = [] ∧ t = v.rootPageTable := by
    intro t p ht
    rw [Vmap.reached_iff (v := v.owning pages) hroot] at ht
    cases p with
    | nil =>
      have ht : Stop.table v.rootPageTable = .table t := ht
      injection ht with ht
      exact ⟨rfl, ht.symm⟩
    | cons i p =>
      have hfault : entryKind 0 (v.slot v.rootPageTable i) = .fault := by
        rw [hempty i]
        exact entryKind_zero 0
      have ht : TableTree.walk entryKind v.slot 0 v.rootPageTable (i :: p) = .table t := ht
      rw [walk_cons_fault hfault] at ht
      cases ht
  exact
    { distinct := fun hp hq => (hreach hp).1.trans (hreach hq).1.symm
      reached := by
        intro t p ht
        show t ∈ pages
        rw [(hreach ht).2]
        exact hin
      page := fun hpage => hpages _ hpage
      answers := hanswers }

end

/-! ## The state that `mmap_init` leaves -/

/-- The window of the kernel's tables. -/
def WindowMapped (s : Kernel) : Prop :=
  ∀ p, p < mmapPhysicalRegionSize → ∃ e,
    (s.buildVmapTable windowStart).walk (path (windowStart + BitVec.ofNat 64 p)) = .leaf 1 e ∧
    stopAddress (windowStart + BitVec.ofNat 64 p) (.leaf 1 e) = some (BitVec.ofNat 64 p)

/-- The tables of the boot loader lie outside the page table region, and
those of the first level lead to further ones. -/
def LoaderTables (root : Word) (memory : Nat → Word) (answers : List Word) : Prop :=
  Source (noTables memory answers) 0 root

section
variable {s : Kernel} {v v' : Vmap} {ttbr0 ttbr1 src : Word} {taken : List Word}

theorem windowFlags_attributes : AttributeFlags windowFlags := by
  unfold AttributeFlags
  decide

theorem withRoots_buildVmapTable (x : Word) : (v.withRoots ttbr0 ttbr1).buildVmapTable x =
    v.withRoot (if isUpper x then ttbr1 else ttbr0) := rfl

/-- The two trees before the window is mapped. -/
theorem owned_twoTables {memory : Nat → Word} {answers : List Word}
    (hfresh : FreshAnswers (noTables memory answers)) (hsrc : LoaderTables src memory answers)
    (hlower : allocNewTable (noTables memory answers) = (some ttbr0, v))
    (hupper : recursiveCopyTable 3 src v = (some ttbr1, v')) :
    ∃ own, Owned (v'.withRoots ttbr0 ttbr1) own ∧
      (∀ x, ∀ page ∈ own (isUpper x), page ∈ answers) ∧ v'.answers ⊆ answers := by
  obtain ⟨htook₀, hzero⟩ := (allocNewTable_spec _).returned hlower
  have hnone : ∀ page ∈ ([] : List Word), PageAddress page ∧
      ∀ p, walk entryKind (noTables memory answers).slot 0 src p ≠ .table page := by simp
  have hfresh₁ := htook₀.fresh hfresh
  obtain ⟨taken, htook, hmem, hcopied⟩ := (recursiveCopyTable_spec rfl hfresh₁
    (hsrc.after hfresh htook₀ hnone)).returned hupper
  have hfresh₂ := htook.fresh hfresh₁
  have hin₀ := List.mem_singleton_self ttbr0
  have hpage₀ := htook₀.pageAddress hfresh hin₀
  have hpages := htook.pageAddress hfresh₁ hmem
  have hnot : ttbr0 ∉ taken := fun hin => htook₀.not_left hfresh hin₀ (htook.mem_answers hin)
  refine ⟨fun upper => if upper then taken else [ttbr0], ⟨fun x => ?_, ?_, fun x => ?_⟩, ?_, ?_⟩
  · have hanswers : ∀ root pages, (∀ page ∈ pages, page ∈ v'.obtained) →
        FreshAnswers ((v'.withRoot root).owning pages) := by
      intro root pages hpages
      refine ⟨fun page hpage hne => ?_, hfresh₂.once⟩
      obtain ⟨haddress, hnot'⟩ := hfresh₂.page page hpage hne
      exact ⟨haddress, fun hin => hnot' (hpages page hin)⟩
    have hobtained : v'.obtained = taken.reverse ++ v.obtained := htook.obtained
    rw [withRoots_buildVmapTable]
    cases isUpper x with
    | false =>
      refine wellFormed_emptyTable hpage₀.nonzero ?_ hin₀ ?_ (hanswers _ _ ?_)
      · intro i
        have hsame : v'.slot ttbr0 i = v.slot ttbr0 i :=
          htook.slot hfresh₁ hpage₀ (by simp) hnot (by simp) i
        exact hsame.trans (hzero i)
      · intro page hpage
        obtain rfl := List.mem_singleton.mp hpage
        exact hpage₀
      · intro page hpage
        obtain rfl := List.mem_singleton.mp hpage
        rw [hobtained, htook₀.obtained]
        exact List.mem_append_right _ (List.mem_append_left _ (by simp))
    | true =>
      have hroot : ((v'.withRoot ttbr1).owning taken).rootPageTable ≠ 0 := hpages.nonzero
      exact
        { distinct := fun hp hq => hcopied.distinct _ _ _ ((Vmap.reached_iff hroot).mp hp)
            ((Vmap.reached_iff hroot).mp hq)
          reached := fun hp => hcopied.within _ _ ((Vmap.reached_iff hroot).mp hp)
          page := fun hpage => htook.pageAddress hfresh₁ hpage
          answers := hanswers _ _ fun page hpage => by
            rw [hobtained]
            exact List.mem_append_left _ (List.mem_reverse.mpr hpage) }
  · intro x y hxy page hpage hpage'
    revert hxy hpage hpage'
    cases isUpper x <;> cases isUpper y
    · exact fun hxy => absurd rfl hxy
    · intro _ hpage hpage'
      obtain rfl := List.mem_singleton.mp hpage
      exact hnot hpage'
    · intro _ hpage hpage'
      obtain rfl := List.mem_singleton.mp hpage'
      exact hnot hpage
    · exact fun hxy => absurd rfl hxy
  · show (if isUpper x then ttbr1 else ttbr0) ≠ 0
    split
    · exact hpages.nonzero
    · exact hpage₀.nonzero
  · intro x page hpage
    revert hpage
    cases isUpper x
    · intro hpage
      obtain rfl := List.mem_singleton.mp hpage
      exact htook₀.mem_answers hin₀
    · intro hpage
      have hleft : page ∈ v.answers := htook.mem_answers hpage
      have hall : answers = [ttbr0] ++ v.answers := htook₀.answers
      rw [hall]
      exact List.mem_append_right _ hleft
  · intro page hpage
    have hall : answers = [ttbr0] ++ v.answers := htook₀.answers
    rw [hall, htook.answers]
    exact List.mem_append_right _ (List.mem_append_right _ hpage)

theorem windowStart_toNat : windowStart.toNat = 0xFFFF500000000000 := by decide

theorem window_toNat {p : Nat} (hp : p < mmapPhysicalRegionSize) :
    (windowStart + BitVec.ofNat 64 p).toNat = 0xFFFF500000000000 + p := by
  unfold mmapPhysicalRegionSize at hp
  rw [BitVec.toNat_add, windowStart_toNat, BitVec.toNat_ofNat]
  omega

theorem isUpper_window {p : Nat} (hp : p < mmapPhysicalRegionSize) :
    isUpper (windowStart + BitVec.ofNat 64 p) = isUpper windowStart := by
  have htoNat := window_toNat hp
  have hbound : (0xFFFF000000000000 : Word).toNat = 0xFFFF000000000000 := by decide
  have hup : isUpper (windowStart + BitVec.ofNat 64 p) = true := by
    unfold isUpper
    rw [decide_eq_true_iff, BitVec.le_def, htoNat, hbound]
    omega
  rw [hup]
  decide

/-- What every state after `mmap_init` has: two trees of pages that can be
seen, no other pages to be had, and the window. -/
def Ready (s : Kernel) : Prop :=
  (∃ own, Owned s own ∧ ∀ x, ∀ page ∈ own (isUpper x), Visible page) ∧
  (∀ page ∈ s.answers, Visible page) ∧ WindowMapped s

/-- One frame later. -/
theorem Owned.visible {own : Bool → List Word} {x : Word} {pages' : List Word}
    (hframe : Frame ((s.buildVmapTable x).owning (own (isUpper x))) (v'.owning pages'))
    (hown : ∀ x, ∀ page ∈ own (isUpper x), Visible page)
    (hanswers : ∀ page ∈ s.answers, Visible page) :
    (∀ y, ∀ page ∈ Function.update own (isUpper x) pages' (isUpper y), Visible page) ∧
      ∀ page ∈ (s.keep v').answers, Visible page := by
  constructor
  · intro y page hpage
    by_cases hy : isUpper y = isUpper x
    · rw [hy, Function.update_self] at hpage
      rcases hframe.recorded.source page hpage with hold | hnew
      · exact hown x page hold
      · exact hanswers page hnew
    · rw [Function.update_of_ne hy] at hpage
      exact hown y page hpage
  · intro page hpage
    exact hanswers page (hframe.recorded.answers.subset hpage)

theorem Ready.call {s' : Kernel} {c : MapCall} (h : Ready s) (hallowed : c.Allowed s)
    (hreturns : c.Returns s s') : Ready s' := by
  obtain ⟨⟨own, howned, hown⟩, hanswers, hwindow⟩ := h
  obtain ⟨x, v', pages', rfl, hframe⟩ := c.frame howned hallowed hreturns
  obtain ⟨howned', hblocks⟩ := howned.keep hframe
  obtain ⟨hown', hanswers'⟩ := Owned.visible hframe hown hanswers
  refine ⟨⟨_, howned', hown'⟩, hanswers', fun p hp => ?_⟩
  obtain ⟨e, hwalk, hstop⟩ := hwindow p hp
  refine ⟨e, ?_, hstop⟩
  rw [← buildVmapTable_congr (isUpper_window hp)] at hwalk ⊢
  exact hblocks _ e hwalk

/-- The range call of `mmap_build_ttbr1_table`. -/
theorem ready_window {own : Bool → List Word} (howned : Owned s own)
    (hown : ∀ x, ∀ page ∈ own (isUpper x), Visible page)
    (hanswers : ∀ page ∈ s.answers, Visible page) {s' : Kernel}
    (h : mmapMapRangeL1Block 17 windowStart windowEnd 0 windowFlags s = some (some (), s')) :
    Ready s' := by
  unfold mmapMapRangeL1Block mmapMapBlockRange at h
  rcases hrange : Block.l1.mapRange 17 windowStart windowEnd 0 windowFlags
    (s.buildVmapTable windowStart) with _ | ⟨_ | _, v'⟩
  · rw [hrange] at h
    cases h
  · rw [hrange] at h
    cases h
  rw [hrange] at h
  obtain ⟨-, rfl⟩ := Prod.mk.inj (Option.some.inj h)
  obtain ⟨pages', hrange'⟩ := blockMapRange_owning (own (isUpper windowStart)) hrange
  have hflags := windowFlags_attributes
  have hframe := frame_blockMapRange (howned.tree windowStart) hflags.table hrange'
  obtain ⟨hown', hanswers'⟩ := Owned.visible hframe hown hanswers
  rw [howned.publish]
  refine ⟨⟨_, (howned.keep hframe).1, hown'⟩, hanswers', fun p hp => ?_⟩
  obtain ⟨e, hwalk, hstop⟩ := blockMapRange_maps (n := 16) (howned.tree windowStart) hflags hrange'
    (by decide) (by decide) p hp
  refine ⟨e, ?_, hstop.trans (congrArg some (zero_add _))⟩
  rw [buildVmapTable_keep (hframe.root (howned.root windowStart))]
  exact hwalk

/-- Building the tables makes the kernel ready, if the pages to be had can
be seen later. -/
theorem ready_buildTables {memory : Nat → Word} {answers : List Word}
    (hfresh : FreshAnswers (noTables memory answers))
    (hsrc : LoaderTables (src &&& tblEntryAddrMask) memory answers)
    (hvisible : ∀ page ∈ answers, Visible page) (h : buildTables src memory answers = some s) :
    Ready s := by
  unfold buildTables at h
  rcases hlower : allocNewTable (noTables memory answers) with ⟨_ | ttbr0, v⟩
  · rw [hlower] at h
    cases h
  rw [hlower] at h
  dsimp only at h
  rcases hupper : recursiveCopyTable 3 (src &&& tblEntryAddrMask) v with ⟨_ | ttbr1, v'⟩
  · rw [hupper] at h
    cases h
  rw [hupper] at h
  dsimp only at h
  obtain ⟨own, howned, hown, hanswers⟩ := owned_twoTables hfresh hsrc hlower hupper
  rcases hwindow : mmapMapRangeL1Block 17 windowStart windowEnd 0 windowFlags
    (v'.withRoots ttbr0 ttbr1) with _ | ⟨_ | _, s'⟩
  · rw [hwindow] at h
    cases h
  · rw [hwindow] at h
    cases h
  rw [hwindow] at h
  obtain rfl := Option.some.inj h
  exact ready_window howned (fun x page hpage => hvisible page (hown x page hpage))
    (fun page hpage => hvisible page (hanswers hpage)) hwindow

/-- In a ready state the window translates there and back. -/
theorem Ready.roundTrip (h : Ready s) : RoundTrip s := by
  obtain ⟨⟨own, howned, hown⟩, -, hwindow⟩ := h
  intro p hp
  obtain ⟨e, hwalk, hstop⟩ := hwindow p hp
  refine ⟨mmapVirtualBaseAddress + p, if_pos hp, ?_⟩
  have haddress : BitVec.ofNat 64 (mmapVirtualBaseAddress + p) =
      windowStart + BitVec.ofNat 64 p := by
    rw [BitVec.ofNat_add]
    rfl
  rw [haddress]
  unfold Kernel.translateMapped
  rw [buildVmapTable_congr (isUpper_window hp), translateMapped_of_visible,
    vmapVirtualToPhysical_eq, hwalk, hstop]
  intro t q ht
  exact hown windowStart t ((howned.tree windowStart).reached (p := q) ht)

end

/-- `mmap_virtual_to_physical` of such a kernel, as the page allocator calls it. -/
def Kernel.virtualToPhysical (s : Kernel) (va : Nat) : Option Nat :=
  (s.translateMapped (BitVec.ofNat 64 va)).join.map (·.toNat)

theorem RoundTrip.window {s : Kernel} (h : RoundTrip s) (p : Nat)
    (hp : p < mmapPhysicalRegionSize) :
    s.virtualToPhysical (mmapVirtualBaseAddress + p) = some p := by
  obtain ⟨va, hva, htranslate⟩ := h p hp
  obtain rfl : mmapVirtualBaseAddress + p = va := by
    rw [mmapPhysicalToVirtual, if_pos hp] at hva
    exact Option.some.inj hva
  unfold Kernel.virtualToPhysical
  rw [htranslate]
  show some (BitVec.ofNat 64 p).toNat = some p
  unfold mmapPhysicalRegionSize at hp
  rw [BitVec.toNat_ofNat, Nat.mod_eq_of_lt (by omega)]

/-- Such a kernel translates for the page allocator as it relies on. -/
def RoundTrip.directMap {s : Kernel} (h : RoundTrip s) : DirectMap where
  mmapVirtualToPhysical := s.virtualToPhysical
  window := h.window

/-! ## The page table region -/

/-- Where the first pass puts the page table region: at a page, all of it
free. -/
theorem mmapReserveMemory_pageTable {efi : List EfiMemoryDescriptor} {a : Allocators}
    (hwf : WellFormedEfi efi) (h : mmapReserveMemory efi = some a) :
    ∃ start, a.pageTable.At start (2 ^ 23) ∧ start % 4096 = 0 := by
  rcases mmapReserveMemory_spec hwf h with ⟨hstarts, -⟩ | ⟨⟨_, _, _, _, hat, _⟩, -⟩
  · rcases hstarts with ⟨d, hd, -, -, hat⟩ | ⟨_, _, e, he, _, _, _, -, hat⟩
    · have haligned : d.physicalStartAddress % 4096 = 0 := hwf.aligned d hd
      exact ⟨_, hat, by omega⟩
    · exact ⟨_, hat, hwf.aligned e he⟩
  · exact ⟨_, hat, by decide⟩

/-- The blocks come one behind the other, as long as there are some. -/
theorem allocations_eq {size start count : Nat} {a : BumpAllocator}
    (hnext : a.memoryStart + a.allocatedSize = start) (hroom : count * size ≤ a.remainingSize)
    (hend : start + count * size < 2 ^ 64) (hsize : a.remainingSize < 2 ^ 64) :
    allocations size count a = List.range' start count size := by
  induction count generalizing start a with
  | zero => rfl
  | succ count ih =>
    rw [Nat.succ_mul] at hroom hend
    have hnot : ¬ a.remainingSize < size := by omega
    rw [allocations, BumpAllocator.allocate, if_neg hnot, List.range'_succ]
    have haddress : BlockAllocator.add64 a.memoryStart a.allocatedSize = start := by
      rw [BlockAllocator.add64, hnext]
      omega
    have hallocated : BlockAllocator.add64 a.allocatedSize size = a.allocatedSize + size := by
      rw [BlockAllocator.add64]
      omega
    have hremaining : BlockAllocator.sub64 a.remainingSize size = a.remainingSize - size := by
      rw [BlockAllocator.sub64]
      omega
    rw [haddress, hallocated, hremaining]
    have hnext' : a.memoryStart + (a.allocatedSize + size) = start + size := by omega
    have hrest := ih (a := ⟨a.memoryStart, a.memoryEnd, _, _⟩) hnext' (Nat.le_sub_of_add_le hroom)
      (by omega) (Nat.lt_of_le_of_lt (Nat.sub_le _ _) hsize)
    exact congrArg (start :: ·) hrest

/-- The answers of `alloc_new_table` are the pages of the region. -/
theorem tableAnswers_eq {a : BumpAllocator} {start : Nat} (hat : a.At start (2 ^ 23))
    (hend : start + 2 ^ 23 < 2 ^ 64) :
    tableAnswers a = (List.range' start 2048 4096).map (BitVec.ofNat 64) := by
  have hremaining := hat.remainingSize
  have hcount : a.remainingSize / 4096 = 2048 := by omega
  have hstart := hat.memoryStart
  have hallocated := hat.allocatedSize
  have hnext : a.memoryStart + a.allocatedSize = start := by omega
  rw [tableAnswers, hcount, allocations_eq hnext (by omega) (by omega) (by omega)]

theorem mem_tableAnswers {a : BumpAllocator} {start : Nat} {page : Word}
    (hat : a.At start (2 ^ 23)) (hend : start + 2 ^ 23 < 2 ^ 64) (hpage : page ∈ tableAnswers a) :
    ∃ i < 2048, page.toNat = start + 4096 * i := by
  rw [tableAnswers_eq hat hend] at hpage
  obtain ⟨address, haddress, rfl⟩ := List.mem_map.mp hpage
  obtain ⟨i, hi, rfl⟩ := List.mem_range'.mp haddress
  refine ⟨i, hi, ?_⟩
  rw [BitVec.toNat_ofNat]
  omega

theorem freshAnswers_tableAnswers {a : BumpAllocator} {start : Nat} {memory : Nat → Word}
    (hat : a.At start (2 ^ 23)) (haligned : start % 4096 = 0) (hend : start + 2 ^ 23 ≤ 2 ^ 34) :
    FreshAnswers (noTables memory (tableAnswers a)) where
  page page hpage hne := by
    obtain ⟨i, hi, htoNat⟩ := mem_tableAnswers hat (by omega) hpage
    exact ⟨⟨hne, by omega, by omega⟩, List.not_mem_nil⟩
  once := by
    refine List.Nodup.filter _ ?_
    show (tableAnswers a).Nodup
    rw [tableAnswers_eq hat (by omega)]
    refine List.Nodup.map_on (fun x hx y hy heq => ?_) (List.nodup_range' 4096)
    obtain ⟨i, hi, rfl⟩ := List.mem_range'.mp hx
    obtain ⟨j, hj, rfl⟩ := List.mem_range'.mp hy
    have htoNat := congrArg BitVec.toNat heq
    rw [BitVec.toNat_ofNat, BitVec.toNat_ofNat] at htoNat
    omega

/-- The page table region ends at or below the end of the window. -/
def TablesInWindow (efi : List EfiMemoryDescriptor) : Prop :=
  ∀ a, mmapReserveMemory efi = some a → a.pageTable.memoryEnd ≤ mmapPhysicalRegionSize

/-- What is assumed of the boot loader's tables, for the region that the
first pass chooses. -/
def LoaderOutside (efi : List EfiMemoryDescriptor) (ttbr1 : Word) (memory : Nat → Word) : Prop :=
  ∀ a, mmapReserveMemory efi = some a →
    LoaderTables (ttbr1 &&& tblEntryAddrMask) memory (tableAnswers a.pageTable)

section
variable {efi : List EfiMemoryDescriptor} {ttbr1 : Word} {memory : Nat → Word} {s₀ s : Kernel}
  {history : List (Kernel × MapCall)}

theorem ready_mmapInit (hwf : WellFormedEfi efi) (hloader : LoaderOutside efi ttbr1 memory)
    (hregion : TablesInWindow efi) (hinit : mmapInit efi ttbr1 memory = some s₀) : Ready s₀ := by
  unfold mmapInit at hinit
  cases hreserve : mmapReserveMemory efi with
  | none =>
    rw [hreserve] at hinit
    cases hinit
  | some a =>
    rw [hreserve] at hinit
    dsimp only at hinit
    cases hbuild : mmapBuildMemoryMap a efi with
    | none =>
      rw [hbuild] at hinit
      cases hinit
    | some m =>
      rw [hbuild] at hinit
      obtain ⟨start, hat, haligned⟩ := mmapReserveMemory_pageTable hwf hreserve
      have hend := hregion a hreserve
      rw [hat.memoryEnd] at hend
      unfold mmapPhysicalRegionSize at hend
      refine ready_buildTables (freshAnswers_tableAnswers hat haligned hend)
        (hloader a hreserve) (fun page hpage => ?_) hinit
      obtain ⟨i, hi, htoNat⟩ := mem_tableAnswers hat (by omega) hpage
      unfold Visible mmapPhysicalRegionSize
      omega

/-- After `mmap_init` with the page tables in the window, and any run of
mapping calls that map no page below a larger block, the window translates
there and back. -/
theorem window_roundTrip (hwf : WellFormedEfi efi) (hloader : LoaderOutside efi ttbr1 memory)
    (hregion : TablesInWindow efi) (hinit : mmapInit efi ttbr1 memory = some s₀)
    (hrun : Run (· = s₀) MapCall.Returns history s)
    (hallowed : ∀ p ∈ history, p.2.Allowed p.1) : RoundTrip s := by
  have hready : Ready s := by
    have hstep : ∀ s (c : MapCall) s', Ready s → c.Allowed s → c.Returns s s' → Ready s' :=
      fun _ _ _ hready hcond hreturns => hready.call hcond hreturns
    refine hrun.invariant_of_cond ?_ hstep hallowed
    rintro s rfl
    exact ready_mmapInit hwf hloader hregion hinit
  exact hready.roundTrip

end

/-! ## Two machines -/

/-- A machine with one bank of memory. -/
def oneBank (physicalStartAddress : Nat) : List EfiMemoryDescriptor :=
  [⟨7, physicalStartAddress, 4096⟩]

theorem oneBank_wellFormed {start : Nat} (haligned : start % 4096 = 0) (hend : start < 2 ^ 63) :
    WellFormedEfi (oneBank start) where
  aligned d hd := by
    obtain rfl := List.mem_singleton.mp hd
    exact haligned
  noWrap d hd := by
    obtain rfl := List.mem_singleton.mp hd
    simp only [efiPageSize]
    omega
  disjoint := List.pairwise_singleton _ _

/-- A loader that mapped nothing in the upper half. -/
theorem loaderTables_empty {root : Word} {answers : List Word} (hroot : PageAddress root)
    (hnot : root ∉ answers) : LoaderTables root (fun _ => 0) answers where
  page p t ht := by
    cases p with
    | nil =>
      have ht : Stop.table root = .table t := ht
      injection ht with ht
      rw [← ht]
      exact ⟨hroot, hnot⟩
    | cons i p =>
      rw [walk_cons_fault (entryKind_zero 0)] at ht
      cases ht
  root _ i hvalid := absurd (BitVec.zero_and) hvalid

/-- The page table region of a machine whose one bank does not start at 0
begins 1 MiB into it. -/
theorem oneBank_pageTable {start : Nat} {a : Allocators} (haligned : start % 4096 = 0)
    (hpos : 0 < start) (hend : start < 2 ^ 63) (h : mmapReserveMemory (oneBank start) = some a) :
    a.pageTable.At (start + 2 ^ 20) (2 ^ 23) := by
  have hwf := oneBank_wellFormed haligned hend
  rcases mmapReserveMemory_spec hwf h with ⟨hstarts, -⟩ | ⟨⟨d, hfirst, hzero, _⟩, -⟩
  · rcases hstarts with ⟨d, hd, -, -, hat⟩ | ⟨d, hd, e, he, hoffers, hoffers', hdisj, -⟩
    · obtain rfl := List.mem_singleton.mp hd
      exact hat
    · obtain rfl := List.mem_singleton.mp hd
      obtain rfl := List.mem_singleton.mp he
      exact absurd rfl (starts_ne hdisj (Nat.zero_lt_succ 4095) (Nat.zero_lt_succ 4095))
  · obtain rfl := List.mem_singleton.mp (mem_of_firstRoomy hfirst).1
    exact absurd hzero hpos.ne'

theorem oneBank_loader {start : Nat} {root : Word} (haligned : start % 4096 = 0) (hpos : 0 < start)
    (hend : start < 2 ^ 63) (hroot : PageAddress root)
    (hout : root.toNat < start ∨ start + 2 ^ 24 ≤ root.toNat) :
    LoaderOutside (oneBank start) root (fun _ => 0) := by
  intro a ha
  have hat := oneBank_pageTable haligned hpos hend ha
  rw [hroot.masked]
  refine loaderTables_empty hroot fun hin => ?_
  obtain ⟨i, hi, htoNat⟩ := mem_tableAnswers hat (by omega) hin
  omega

/-- With memory from 4 KiB up, after a page has been mapped at the start of
the upper half. -/
theorem lowBank_roundTrip : ∃ s₀ s₁ history, mmapInit (oneBank 0x1000) 0x9000000 (fun _ => 0) =
    some s₀ ∧ Run (· = s₀) MapCall.Returns history s₁ ∧ history ≠ [] ∧ RoundTrip s₁ := by
  have hfree : (mmapInit (oneBank 0x1000) 0x9000000 fun _ => 0).map
      (·.mmapVirtualToPhysical 0xFFFF000000000000) = some none := by decide +kernel
  obtain ⟨s₀, hinit, hnone⟩ := Option.map_eq_some_iff.mp hfree
  have hnot : ¬ Covered (s₀.buildVmapTable 0xFFFF000000000000) 0xFFFF000000000000 := by
    rintro ⟨d, e, hwalk, -⟩
    unfold Kernel.mmapVirtualToPhysical at hnone
    rw [vmapVirtualToPhysical_eq, hwalk] at hnone
    cases hnone
  have hrun : Run (· = s₀) MapCall.Returns
      [(s₀, .page 0x5000 0xFFFF000000000000 0x40)]
      (mmapMapPage 0x5000 0xFFFF000000000000 0x40 s₀).2 := .next (.start rfl) ⟨_, rfl⟩
  have hroot : PageAddress 0x9000000 := ⟨by decide, by decide, by decide⟩
  refine ⟨s₀, _, _, hinit, hrun, List.cons_ne_nil _ _, ?_⟩
  refine window_roundTrip (oneBank_wellFormed (by decide) (by decide))
    (oneBank_loader (by decide) (by decide) (by decide) hroot (.inr (by decide))) ?_ hinit hrun ?_
  · intro a ha
    rw [(oneBank_pageTable (by decide) (by decide) (by decide) ha).memoryEnd]
    decide
  · intro p hp
    obtain rfl := List.mem_singleton.mp hp
    exact hnot

/-- With memory from 16 GiB up, `mmap_init` succeeds, and the first
translation reads the root table through the null pointer. -/
theorem highBank_no_roundTrip : WellFormedEfi (oneBank (2 ^ 34)) ∧
    LoaderOutside (oneBank (2 ^ 34)) 0x1000 (fun _ => 0) ∧
    ∃ s₀, mmapInit (oneBank (2 ^ 34)) 0x1000 (fun _ => 0) = some s₀ ∧ ¬ RoundTrip s₀ := by
  have htable : (mmapInit (oneBank (2 ^ 34)) 0x1000 fun _ => 0).map (·.ttbr1Table) =
      some 0x400101000 := by decide +kernel
  obtain ⟨s₀, hinit, hroot⟩ := Option.map_eq_some_iff.mp htable
  have hloader : PageAddress 0x1000 := ⟨by decide, by decide, by decide⟩
  refine ⟨oneBank_wellFormed (by decide) (by decide),
    oneBank_loader (by decide) (by decide) (by decide) hloader (.inl (by decide)), s₀, hinit, ?_⟩
  intro hround
  obtain ⟨va, hva, htranslate⟩ := hround 0 (by decide)
  obtain rfl : mmapVirtualBaseAddress + 0 = va := Option.some.inj hva
  have hview : (s₀.buildVmapTable (BitVec.ofNat 64 (mmapVirtualBaseAddress + 0))).rootPageTable =
      0x400101000 := hroot
  have hnone : s₀.translateMapped (BitVec.ofNat 64 (mmapVirtualBaseAddress + 0)) = none := by
    unfold Kernel.translateMapped Vmap.translateMapped
    rw [hview, if_neg (by decide), if_pos (by decide)]
  rw [hnone] at htranslate
  cases htranslate

end ZOs.Paging
