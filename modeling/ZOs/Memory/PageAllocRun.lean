import ZOs.Memory.PageAllocInv

/-!
# Runs of the buddy allocator without frees

`page_alloc_init` carves the usable descriptors greedily into aligned
blocks, and `page_alloc_block` splits a larger block until the requested
order is reached. Both are walks along `BuddyInv`: carving adds one block
after another to the managed pages, and every pass of the split loop trades
a block for its two halves and gives the upper one back.
-/

namespace ZOs.PageAlloc

open LinkedMem Partition

/-! ## Initialisation -/

/-- The page frames of a descriptor. -/
def MemoryDescriptor.pages (d : MemoryDescriptor) : Set Nat :=
  Set.Ico (d.physicalStartAddress / pageSize) (d.physicalStartAddress / pageSize + d.numberOfPages)

/-- The page frames that the memory map declares usable. -/
def usablePages (memoryMap : List MemoryDescriptor) : Set Nat :=
  {p | ∃ d ∈ memoryMap, d.type = .usable ∧ p ∈ d.pages}

/-- The usable descriptors are page aligned, pairwise disjoint and lie below
the 16 GiB window. -/
structure WellFormedMap (memoryMap : List MemoryDescriptor) : Prop where
  aligned : ∀ d ∈ memoryMap, d.type = .usable → d.physicalStartAddress % pageSize = 0
  disjoint : memoryMap.Pairwise fun d e =>
    d.type = .usable → e.type = .usable → Disjoint d.pages e.pages
  window : ∀ d ∈ memoryMap, d.type = .usable →
    d.physicalStartAddress + d.numberOfPages * pageSize ≤ mmapPhysicalRegionSize

theorem largestOrder_spec {remaining : Nat} (h : 0 < remaining) (start order : Nat) :
    largestOrder remaining start order ≤ order ∧
      2 ^ largestOrder remaining start order ≤ remaining ∧
      2 ^ largestOrder remaining start order ∣ start := by
  induction order with
  | zero => exact ⟨Nat.le_refl _, h, Nat.one_dvd _⟩
  | succ order ih =>
    rw [largestOrder]
    split
    · rename_i hfit
      exact ⟨Nat.le_refl _, hfit.1, Nat.dvd_of_mod_eq_zero hfit.2⟩
    · exact ⟨Nat.le_succ_of_le ih.1, ih.2⟩

section
variable {s : PageAllocator} {usable : Set Nat} {allocated : List (Nat × Nat)}
  {free : Nat → List Nat} {x k : Nat}

@[simp] theorem freeBlocks_nil : freeBlocks (fun _ => []) = [] := by
  rw [freeBlocks, List.flatMap_eq_nil_iff]
  simp

/-- The empty allocator manages no page. -/
theorem buddyInv_empty (nextPage : Nat → Nat) :
    BuddyInv { freeLists := fun _ => 0, pageBitmap := fun _ => 0, nextPage } ∅ [] fun _ => [] where
  chain := fun _ _ => rfl
  aligned := by simp
  order_le := by simp
  bitmap := by simp
  partition := ⟨by simp, by simp⟩
  window := by simp

/-- An aligned block of pages that are not managed yet, taken into the
managed pages as a handed-out block. -/
theorem BuddyInv.add_block (h : BuddyInv s usable allocated free) (hk : k ≤ maxOrder)
    (hx : 2 ^ k ∣ x) (hnew : ∀ p ∈ usable, inBlock (x, k) p = false)
    (hwin : x + 2 ^ k ≤ windowPages) :
    BuddyInv s (usable ∪ Set.Ico x (x + 2 ^ k)) ((x, k) :: allocated) free where
  chain := h.chain
  aligned := by
    intro b hb
    simp only [List.mem_append, List.mem_cons] at hb
    rcases hb with hb | rfl | hb
    · exact h.aligned b (by simp [hb])
    · exact hx
    · exact h.aligned b (by simp [hb])
  order_le := by
    intro b hb
    rcases List.mem_cons.mp hb with rfl | hb
    · exact hk
    · exact h.order_le b hb
  bitmap := h.bitmap
  partition := by
    have hset : Set.Ico x (x + 2 ^ k) = {p | inBlock (x, k) p = true} := by
      ext p
      simp [inBlock]
    rw [hset]
    exact (h.partition.cons hnew).perm List.perm_middle.symm
  window := by
    rintro p (hp | hp)
    · exact h.window p hp
    · exact Nat.lt_of_lt_of_le hp.2 hwin

/-- Carving a region of new pages puts all of it on the free lists. -/
theorem carve_spec : ∀ (fuel remaining start : Nat) {s : PageAllocator} {usable : Set Nat}
    {free : Nat → List Nat}, remaining ≤ fuel → BuddyInv s usable allocated free →
    (∀ p ∈ usable, p ∉ Set.Ico start (start + remaining)) → start + remaining ≤ windowPages →
    ∃ s' free', carve s fuel remaining start = some (0, s') ∧
      BuddyInv s' (usable ∪ Set.Ico start (start + remaining)) allocated free' := by
  intro fuel
  induction fuel with
  | zero =>
    intro remaining start s usable free hfuel h _ _
    have h0 : remaining = 0 := by omega
    subst h0
    exact ⟨s, free, by simp [carve], by simpa using h⟩
  | succ fuel ih =>
    intro remaining start s usable free hfuel h hnew hwin
    by_cases h0 : remaining = 0
    · subst h0
      exact ⟨s, free, by simp [carve], by simpa using h⟩
    · obtain ⟨hmax, hle, hdvd⟩ :=
        largestOrder_spec (Nat.pos_of_ne_zero h0) start maxOrder
      set order := largestOrder remaining start maxOrder with horder
      have hpos := Nat.two_pow_pos order
      have hblock : ∀ p ∈ usable, inBlock (start, order) p = false := by
        intro p hp
        have := hnew p hp
        simp only [Set.mem_Ico, not_and] at this
        simp only [inBlock, decide_eq_false_iff_not, not_and]
        omega
      obtain ⟨s₁, hpush, hinv₁⟩ := (h.add_block hmax hdvd hblock (by omega)).push
      obtain ⟨s', free', hcarve, hinv'⟩ := ih (remaining - 2 ^ order) (start + 2 ^ order)
        (by omega) hinv₁
        (by
          intro p hp
          have := hnew p
          simp only [Set.mem_union, Set.mem_Ico] at hp this ⊢
          rcases hp with hp | hp
          · have := this hp
            omega
          · omega)
        (by omega)
      refine ⟨s', free', ?_, ?_⟩
      · rw [carve, if_neg h0]
        simp only [← horder, hpush]
        simpa using hcarve
      · have hset : usable ∪ Set.Ico start (start + 2 ^ order) ∪
            Set.Ico (start + 2 ^ order) (start + 2 ^ order + (remaining - 2 ^ order))
              = usable ∪ Set.Ico start (start + remaining) := by
          ext p
          simp only [Set.mem_union, Set.mem_Ico]
          constructor
          · rintro ((hp | hp) | hp)
            · exact .inl hp
            · exact .inr (by omega)
            · exact .inr (by omega)
          · rintro (hp | hp)
            · exact .inl (.inl hp)
            · by_cases hlt : p < start + 2 ^ order
              · exact .inl (.inr ⟨hp.1, hlt⟩)
              · exact .inr (by omega)
        rwa [hset] at hinv'

theorem WellFormedMap.tail {d : MemoryDescriptor} {rest : List MemoryDescriptor}
    (h : WellFormedMap (d :: rest)) : WellFormedMap rest where
  aligned := fun e he => h.aligned e (by simp [he])
  disjoint := (List.pairwise_cons.mp h.disjoint).2
  window := fun e he => h.window e (by simp [he])

theorem usablePages_cons (d : MemoryDescriptor) (rest : List MemoryDescriptor) :
    usablePages (d :: rest) = (if d.type = .usable then d.pages else ∅) ∪ usablePages rest := by
  ext p
  simp only [usablePages, List.mem_cons, exists_eq_or_imp, Set.mem_ofPred_eq, Set.mem_union]
  split <;> simp [*]

/-- One usable descriptor is carved in full, whatever was carved before. -/
theorem carve_descriptor {d : MemoryDescriptor} (h : BuddyInv s usable allocated free)
    (hwin : d.physicalStartAddress + d.numberOfPages * pageSize ≤ mmapPhysicalRegionSize)
    (hnew : Disjoint usable d.pages) :
    ∃ s' free', carve s (signedPageCount d.numberOfPages) (signedPageCount d.numberOfPages)
        (d.physicalStartAddress >>> pageShift) = some (0, s') ∧
      BuddyInv s' (usable ∪ d.pages) allocated free' := by
  have hcount : signedPageCount d.numberOfPages = d.numberOfPages := by
    simp only [mmapPhysicalRegionSize, pageSize] at hwin
    rw [signedPageCount, if_pos (by omega)]
  have hstart : d.physicalStartAddress >>> pageShift = d.physicalStartAddress / pageSize := by
    simp [pageShift, pageSize, Nat.shiftRight_eq_div_pow]
  rw [hcount, hstart]
  refine carve_spec _ _ _ (Nat.le_refl _) h (fun p hp => Set.disjoint_left.mp hnew hp) ?_
  simp only [mmapPhysicalRegionSize, pageSize, windowPages] at hwin ⊢
  omega

/-- The loop over the memory map manages exactly the usable pages if it
ends, and it ends if every usable descriptor starts inside the window. -/
theorem initDescriptors_spec {memoryMap : List MemoryDescriptor} (hmap : WellFormedMap memoryMap)
    (h : BuddyInv s usable allocated free) (hnew : Disjoint usable (usablePages memoryMap)) :
    (∀ result s', initDescriptors s memoryMap = some (result, s') → result = 0 ∧
      ∃ free', BuddyInv s' (usable ∪ usablePages memoryMap) allocated free') ∧
    ((∀ d ∈ memoryMap, d.type = .usable → d.physicalStartAddress < mmapPhysicalRegionSize) →
      ∃ s', initDescriptors s memoryMap = some (0, s')) := by
  induction memoryMap generalizing s usable free with
  | nil =>
    refine ⟨fun result s' hrun => ?_, fun _ => ⟨s, rfl⟩⟩
    obtain ⟨rfl, rfl⟩ : 0 = result ∧ s = s' := by simpa [initDescriptors] using hrun
    exact ⟨rfl, free, by simpa [usablePages] using h⟩
  | cons d rest ih =>
    rw [usablePages_cons] at hnew ⊢
    by_cases htype : d.type = .usable
    · rw [if_pos htype] at hnew ⊢
      obtain ⟨hd, hrest⟩ := Set.disjoint_union_right.mp hnew
      obtain ⟨s₁, free₁, hcarve, hinv₁⟩ :=
        carve_descriptor h (hmap.window d (by simp) htype) hd
      have hnew₁ : Disjoint (usable ∪ d.pages) (usablePages rest) := by
        refine Set.disjoint_union_left.mpr ⟨hrest, Set.disjoint_left.mpr fun p hp => ?_⟩
        rintro ⟨e, he, hetype, hpe⟩
        have := (List.pairwise_cons.mp hmap.disjoint).1 e he htype hetype
        exact Set.disjoint_left.mp this hp hpe
      obtain ⟨ihrun, ihret⟩ := ih hmap.tail hinv₁ hnew₁
      rw [← Set.union_assoc]
      constructor
      · intro result s' hrun
        rw [initDescriptors, if_neg (by simp [htype])] at hrun
        cases hva : mmapPhysicalToVirtual d.physicalStartAddress with
        | none => simp [hva] at hrun
        | some va => exact ihrun result s' (by simpa [hva, hcarve] using hrun)
      · intro hstart
        have hd0 := hstart d (by simp) htype
        obtain ⟨s', hs'⟩ := ihret fun e he => hstart e (by simp [he])
        refine ⟨s', ?_⟩
        rw [initDescriptors, if_neg (by simp [htype])]
        simpa [mmapPhysicalToVirtual, hd0, hcarve] using hs'
    · rw [if_neg htype, Set.empty_union] at hnew ⊢
      obtain ⟨ihrun, ihret⟩ := ih hmap.tail h hnew
      have hskip : initDescriptors s (d :: rest) = initDescriptors s rest := by
        rw [initDescriptors, if_pos htype]
      rw [hskip]
      exact ⟨ihrun, fun hstart => ihret fun e he => hstart e (by simp [he])⟩

/-- A block at the end of the window fails the assertion of
`free_list_push`. -/
theorem freeListPush_window_end (s : PageAllocator) {order : Nat} (hk : order ≤ maxOrder) :
    freeListPush s order windowPages = none := by
  rw [freeListPush, if_neg (Nat.not_lt.mpr hk), if_neg (by decide)]
  rfl

/-- The carving loop ends inside the window or not at all: its blocks are
aligned, so one of them starts at the end of the window. -/
theorem carve_le_window {result : Int} {s s' : PageAllocator} {fuel remaining start : Nat}
    (h : carve s fuel remaining start = some (result, s')) (hstart : start ≤ windowPages) :
    result = 0 ∧ start + remaining ≤ windowPages := by
  induction fuel generalizing s remaining start with
  | zero =>
    by_cases h0 : remaining = 0
    · obtain ⟨rfl, -⟩ : 0 = result ∧ s = s' := by simpa [carve, h0] using h
      exact ⟨rfl, by omega⟩
    · simp [carve, h0] at h
  | succ fuel ih =>
    by_cases h0 : remaining = 0
    · obtain ⟨rfl, -⟩ : 0 = result ∧ s = s' := by simpa [carve, h0] using h
      exact ⟨rfl, by omega⟩
    obtain ⟨hmax, hle, hdvd⟩ := largestOrder_spec (Nat.pos_of_ne_zero h0) start maxOrder
    simp only [carve, if_neg h0] at h
    generalize largestOrder remaining start maxOrder = order at *
    rcases Nat.lt_or_eq_of_le hstart with hlt | rfl
    · rw [freeListPush_eq s hmax hlt] at h
      have hblock : start + 2 ^ order ≤ windowPages := by
        have hwindow : 2 ^ order ∣ windowPages :=
          Nat.pow_dvd_pow 2 (hmax.trans (by decide : maxOrder ≤ 22))
        obtain ⟨a, rfl⟩ := hdvd
        obtain ⟨b, hb⟩ := hwindow
        have hab : a < b := by
          rw [hb] at hlt
          exact Nat.lt_of_mul_lt_mul_left hlt
        rw [hb, ← Nat.mul_succ]
        exact Nat.mul_le_mul_left _ hab
      obtain ⟨hresult, hrest⟩ := ih (by simpa using h) hblock
      exact ⟨hresult, by omega⟩
    · rw [freeListPush_window_end s hmax] at h
      cases h

/-- `page_alloc_init` does not return from a map whose usable descriptors
leave the window. -/
theorem initDescriptors_window {result : Int} {s s' : PageAllocator}
    {memoryMap : List MemoryDescriptor} (h : initDescriptors s memoryMap = some (result, s')) :
    ∀ d ∈ memoryMap, d.type = .usable → d.numberOfPages < 2 ^ 63 →
      d.physicalStartAddress / pageSize + d.numberOfPages ≤ windowPages := by
  induction memoryMap generalizing s with
  | nil => simp
  | cons d rest ih =>
    by_cases htype : d.type = .usable
    · rw [initDescriptors, if_neg (by simp [htype])] at h
      split at h
      case h_1 => cases h
      case h_2 va hva =>
        have hstart : d.physicalStartAddress / pageSize ≤ windowPages := by
          have hlt : d.physicalStartAddress < mmapPhysicalRegionSize := by
            by_contra hge
            simp [mmapPhysicalToVirtual, hge] at hva
          simp only [mmapPhysicalRegionSize, pageSize, windowPages] at hlt ⊢
          omega
        have hshift : d.physicalStartAddress >>> pageShift = d.physicalStartAddress / pageSize := by
          simp [pageShift, pageSize, Nat.shiftRight_eq_div_pow]
        rw [hshift] at h
        dsimp only at h
        split at h
        case h_1 => cases h
        case h_2 r s₁ hcarve =>
          obtain ⟨rfl, hwin⟩ := carve_le_window hcarve hstart
          intro e he
          rcases List.mem_cons.mp he with rfl | he
          · intro _ hshort
            rwa [signedPageCount, if_pos hshort] at hwin
          · exact ih (by simpa using h) e he
    · rw [initDescriptors, if_pos htype] at h
      intro e he hetype
      rcases List.mem_cons.mp he with rfl | he
      · exact absurd hetype htype
      · exact ih h e he hetype

/-! ## Allocation -/

/-- The climbing loop finds the first non-empty list and hands out its first
block, or finds every list empty and changes nothing. -/
theorem findFreeBlock_spec (dm : DirectMap) (h : BuddyInv s usable allocated free) :
    ∀ fuel order, order + fuel = maxOrder + 1 →
      ((∀ k, order ≤ k → k ≤ maxOrder → free k = []) ∧
        findFreeBlock dm s fuel order = some (none, s)) ∨
      ∃ k x xs s', order ≤ k ∧ k ≤ maxOrder ∧ free k = x :: xs ∧
        findFreeBlock dm s fuel order = some (some (k, x), s') ∧
        BuddyInv s' usable ((x, k) :: allocated) (Function.update free k xs) := by
  intro fuel
  induction fuel with
  | zero =>
    intro order hfuel
    exact .inl ⟨fun k hk hkmax => by omega, rfl⟩
  | succ fuel ih =>
    intro order hfuel
    have horder : order ≤ maxOrder := by omega
    cases hfree : free order with
    | cons x xs =>
      obtain ⟨s', hpop, hinv⟩ := h.pop dm horder hfree
      exact .inr ⟨order, x, xs, s', Nat.le_refl _, horder, hfree, by simp [findFreeBlock, hpop],
        hinv⟩
    | nil =>
      have hstep : findFreeBlock dm s (fuel + 1) order = findFreeBlock dm s fuel (order + 1) := by
        simp [findFreeBlock, h.pop_empty dm horder hfree]
      rcases ih (order + 1) (by omega) with
        ⟨hempty, hfind⟩ | ⟨k, x, xs, s', hk, hmax, hx, hfind, hi⟩
      · refine .inl ⟨fun k hk hkmax => ?_, by rw [hstep, hfind]⟩
        rcases Nat.eq_or_lt_of_le hk with rfl | hlt
        · exact hfree
        · exact hempty k hlt hkmax
      · exact .inr ⟨k, x, xs, s', by omega, hmax, hx, by rw [hstep, hfind], hi⟩

/-- The split loop trades a handed-out block for its lowest part of the
requested order and puts the rest on the free lists. -/
theorem splitBlock_spec {order : Nat} : ∀ (n : Nat) {s : PageAllocator} {free : Nat → List Nat},
    BuddyInv s usable ((x, order + n) :: allocated) free →
    ∃ s' free', splitBlock s order x n = some (0, s') ∧
      BuddyInv s' usable ((x, order) :: allocated) free' := by
  intro n
  induction n with
  | zero => intro s free h; exact ⟨s, free, rfl, h⟩
  | succ n ih =>
    intro s free h
    obtain ⟨s₁, hpush, hinv₁⟩ := (h.split (k := order + n)).push
    obtain ⟨s', free', hsplit, hinv'⟩ := ih hinv₁
    refine ⟨s', free', ?_, hinv'⟩
    simpa [splitBlock, pageAllocBlockSize, Nat.one_shiftLeft, hpush] using hsplit

/-- `page_alloc_block` either hands out a block of the requested order, or
finds no free block of that order or a larger one and changes nothing. -/
theorem pageAllocBlock_spec (dm : DirectMap) (h : BuddyInv s usable allocated free) (order : Nat) :
    ((∀ k, order ≤ k → k ≤ maxOrder → free k = []) ∧
      pageAllocBlock dm s order = some (none, s)) ∨
    ∃ k x s' free', order ≤ k ∧ k ≤ maxOrder ∧ free k ≠ [] ∧
      pageAllocBlock dm s order = some (some (x <<< pageShift), s') ∧
      BuddyInv s' usable ((x, order) :: allocated) free' := by
  by_cases hmax : order ≤ maxOrder
  · rcases findFreeBlock_spec dm h (maxOrder + 1 - order) order (by omega) with
      ⟨hempty, hfind⟩ | ⟨k, x, xs, s₁, hk, hkmax, hx, hfind, hinv₁⟩
    · exact .inl ⟨hempty, by simp [pageAllocBlock, hfind]⟩
    · have hkeq : k = order + (k - order) := by omega
      rw [hkeq] at hinv₁
      obtain ⟨s₂, free', hsplit, hinv₂⟩ := splitBlock_spec (k - order) hinv₁
      refine .inr ⟨k, x, _, free', hk, hkmax, by simp [hx], ?_,
        hinv₂.set_used (isFreeHead_usedHeadEntry hmax)⟩
      simp [pageAllocBlock, hfind, hsplit]
  · refine .inl ⟨fun k hk hkmax => by omega, ?_⟩
    have h0 : maxOrder + 1 - order = 0 := by omega
    simp [pageAllocBlock, h0, findFreeBlock]

end

/-! ## Runs -/

/-- The states after `page_alloc_init` and any sequence of
`page_alloc_block` calls, with the blocks handed out so far. Between calls
the owners of handed-out pages may write to them. -/
inductive AllocRun (dm : DirectMap) (memoryMap : List MemoryDescriptor) :
    PageAllocator → List (Nat × Nat) → Prop where
  | init {nextPage result s} (h : pageAllocInit nextPage memoryMap = some (result, s)) :
      AllocRun dm memoryMap s []
  | alloc {s allocated order address s'} (run : AllocRun dm memoryMap s allocated)
      (h : pageAllocBlock dm s order = some (some address, s')) :
      AllocRun dm memoryMap s' ((address >>> pageShift, order) :: allocated)
  | fail {s allocated order s'} (run : AllocRun dm memoryMap s allocated)
      (h : pageAllocBlock dm s order = some (none, s')) : AllocRun dm memoryMap s' allocated
  | clientWrite {s allocated block p value} (run : AllocRun dm memoryMap s allocated)
      (hblock : block ∈ allocated) (hp : inBlock block p = true) :
      AllocRun dm memoryMap
        { s with nextPage := Function.update s.nextPage (pageVirtualAddress p) value } allocated

/-- Every run begins with an initialisation that returned. -/
theorem AllocRun.started {dm : DirectMap} {memoryMap : List MemoryDescriptor} {s : PageAllocator}
    {allocated : List (Nat × Nat)} (run : AllocRun dm memoryMap s allocated) :
    ∃ nextPage result s₀, pageAllocInit nextPage memoryMap = some (result, s₀) := by
  induction run with
  | init h => exact ⟨_, _, _, h⟩
  | alloc _ _ ih => exact ih
  | fail _ _ ih => exact ih
  | clientWrite _ _ _ ih => exact ih

/-- What an owner writes to its pages does not reach the free lists. -/
theorem BuddyInv.client_write {s : PageAllocator} {usable : Set Nat}
    {allocated : List (Nat × Nat)} {free : Nat → List Nat} {block : Nat × Nat} {p : Nat}
    (h : BuddyInv s usable allocated free) (hblock : block ∈ allocated)
    (hp : inBlock block p = true) (value : Nat) :
    BuddyInv { s with nextPage := Function.update s.nextPage (pageVirtualAddress p) value } usable
      allocated free where
  chain := by
    intro k hk
    refine (h.chain k hk).update_of_notMem (fun hmem => ?_) value
    have hfree : (p, k) ∈ freeBlocks free :=
      mem_freeBlocks.mpr ⟨hk, pageVirtualAddress_mem.mp hmem⟩
    exact (List.pairwise_append.mp h.partition.disjoint).2.2 (p, k) hfree block hblock p
      ⟨inBlock_head (p, k), hp⟩
  aligned := h.aligned
  order_le := h.order_le
  bitmap := h.bitmap
  partition := h.partition
  window := h.window

theorem AllocRun.inv {dm : DirectMap} {memoryMap : List MemoryDescriptor} {s : PageAllocator}
    {allocated : List (Nat × Nat)} (hmap : WellFormedMap memoryMap)
    (run : AllocRun dm memoryMap s allocated) :
    ∃ free, BuddyInv s (usablePages memoryMap) allocated free := by
  induction run with
  | @init nextPage result s h =>
    have hspec := (initDescriptors_spec hmap (buddyInv_empty nextPage) (Set.empty_disjoint _)).1
    simpa using (hspec result s h).2
  | @alloc s allocated order address s' _ h ih =>
    obtain ⟨free, hinv⟩ := ih
    rcases pageAllocBlock_spec dm hinv order with ⟨_, hnone⟩ | ⟨_, x, s₁, free', _, _, _, hsome, hi⟩
    · simp [hnone] at h
    · rw [hsome] at h
      simp only [Option.some.injEq, Prod.mk.injEq] at h
      obtain ⟨rfl, rfl⟩ := h
      have hx : x <<< pageShift >>> pageShift = x := Nat.shiftLeft_shiftRight x pageShift
      exact ⟨free', by rwa [hx]⟩
  | @fail s allocated order s' _ h ih =>
    obtain ⟨free, hinv⟩ := ih
    rcases pageAllocBlock_spec dm hinv order with ⟨_, hnone⟩ | ⟨_, x, s₁, _, _, _, _, hsome, _⟩
    · rw [hnone] at h
      simp only [Option.some.injEq, Prod.mk.injEq, true_and] at h
      exact ⟨free, h ▸ hinv⟩
    · simp [hsome] at h
  | clientWrite _ hblock hp ih =>
    obtain ⟨free, hinv⟩ := ih
    exact ⟨free, hinv.client_write hblock hp _⟩

/-- **The buddy allocator partitions the usable pages**: `page_alloc_init`
returns 0, and after it and any `page_alloc_block` calls the free and the
handed-out blocks partition the usable pages, lists and bitmap agree, and
the next call succeeds exactly when a large enough block is free; a failing
call changes nothing. -/
theorem pageAlloc_partition (dm : DirectMap) {memoryMap : List MemoryDescriptor}
    (hmap : WellFormedMap memoryMap) :
    ((∀ d ∈ memoryMap, d.type = .usable → d.physicalStartAddress < mmapPhysicalRegionSize) →
      ∀ nextPage, ∃ s, pageAllocInit nextPage memoryMap = some (0, s)) ∧
    ∀ s allocated, AllocRun dm memoryMap s allocated →
      ∃ free, BuddyInv s (usablePages memoryMap) allocated free ∧
        ∀ order,
          ((∃ address s', pageAllocBlock dm s order = some (some address, s')) ↔
            order ≤ maxOrder ∧ ∃ b ∈ freeBlocks free, order ≤ b.2) ∧
          (¬ (order ≤ maxOrder ∧ ∃ b ∈ freeBlocks free, order ≤ b.2) →
            pageAllocBlock dm s order = some (none, s)) := by
  constructor
  · intro hstart nextPage
    exact (initDescriptors_spec hmap (buddyInv_empty nextPage) (Set.empty_disjoint _)).2 hstart
  · intro s allocated run
    obtain ⟨free, hinv⟩ := run.inv hmap
    refine ⟨free, hinv, fun order => ?_⟩
    rcases pageAllocBlock_spec dm hinv order with
      ⟨hempty, hnone⟩ | ⟨k, x, s', free', hk, hmax, hne, hsome, _⟩
    · have hno : ¬ (order ≤ maxOrder ∧ ∃ b ∈ freeBlocks free, order ≤ b.2) := by
        rintro ⟨_, ⟨y, k⟩, hb, hk⟩
        obtain ⟨hmax, hy⟩ := mem_freeBlocks.mp hb
        simp [hempty k hk hmax] at hy
      exact ⟨iff_of_false (by simp [hnone]) hno, fun _ => hnone⟩
    · obtain ⟨y, hy⟩ := List.exists_mem_of_ne_nil _ hne
      have hyes : order ≤ maxOrder ∧ ∃ b ∈ freeBlocks free, order ≤ b.2 :=
        ⟨Nat.le_trans hk hmax, (y, k), mem_freeBlocks.mpr ⟨hmax, hy⟩, hk⟩
      exact ⟨iff_of_true ⟨_, s', hsome⟩ hyes, fun hno => absurd hyes hno⟩

/-- The state a call leaves behind. -/
def stateOf {α : Type} (result : Option (α × PageAllocator)) : PageAllocator :=
  match result with
  | some (_, s) => s
  | none => { freeLists := fun _ => 0, pageBitmap := fun _ => 0, nextPage := fun _ => 0 }

/-- A map with one block of order 1. -/
def twoPages : List MemoryDescriptor := [⟨0, 2, .usable⟩]

/-- `twoPages` with its block split and the lower page handed out. -/
def twoPagesSplit : PageAllocator :=
  stateOf (pageAllocBlock .windowOnly (stateOf (pageAllocInit (fun _ => 0) twoPages)) 0)

theorem twoPages_wellFormed : WellFormedMap twoPages where
  aligned := by decide
  disjoint := List.pairwise_singleton _ _
  window := by decide

theorem twoPagesSplit_run : AllocRun .windowOnly twoPages twoPagesSplit [(0, 0)] := by
  have hinit : pageAllocInit (fun _ => 0) twoPages
      = some (0, stateOf (pageAllocInit (fun _ => 0) twoPages)) := rfl
  have halloc : pageAllocBlock .windowOnly (stateOf (pageAllocInit (fun _ => 0) twoPages)) 0
      = some (some 0, twoPagesSplit) := rfl
  exact .alloc (.init hinit) halloc

theorem twoPages_partition :
    (∃ s, pageAllocInit (fun _ => 0) twoPages = some (0, s)) ∧
      ∃ free, BuddyInv twoPagesSplit (usablePages twoPages) [(0, 0)] free := by
  obtain ⟨hinit, hrun⟩ := pageAlloc_partition .windowOnly twoPages_wellFormed
  obtain ⟨free, hinv, _⟩ := hrun twoPagesSplit [(0, 0)] twoPagesSplit_run
  exact ⟨hinit (by decide) _, free, hinv⟩

end ZOs.PageAlloc
