import Mathlib.Data.Set.Lattice
import Mathlib.Order.CompletePartialOrder
import Mathlib.Order.Interval.Set.Basic
import Mathlib.Tactic.IntervalCases
import ZOs.Lib.Chain
import ZOs.Lib.Partition
import ZOs.Memory.PageAlloc

/-!
# The buddy invariant

`BuddyInv` ties the three representations of the allocator together: the
lists threaded through the free pages, the bitmap, and the blocks that are
handed out. A block is a pair of its first page frame and its order. Blocks
move between the free lists and the handed-out ones through three lemmas,
one for each primitive: `BuddyInv.push`, `BuddyInv.pop` and
`BuddyInv.split`.
-/

namespace ZOs.PageAlloc

open LinkedMem Partition

/-- The virtual address of a page frame in the direct-map window. -/
def pageVirtualAddress (pageFrameNumber : Nat) : Nat :=
  mmapVirtualBaseAddress + pageFrameNumber * pageSize

/-- The page frames inside the window. -/
def windowPages : Nat := 2 ^ 22

/-- The page `p` belongs to the block. -/
def inBlock (block : Nat × Nat) (p : Nat) : Bool :=
  decide (block.1 ≤ p ∧ p < block.1 + 2 ^ block.2)

/-- The free blocks of all orders. -/
def freeBlocks (free : Nat → List Nat) : List (Nat × Nat) :=
  (List.range (maxOrder + 1)).flatMap fun order => (free order).map (·, order)

/-- The allocator state `s` manages the pages `usable`: the blocks in
`allocated` are handed out, and `free order` lists the heads of the free
blocks of each order as the links in memory give them. -/
structure BuddyInv (s : PageAllocator) (usable : Set Nat) (allocated : List (Nat × Nat))
    (free : Nat → List Nat) : Prop where
  chain : ∀ order ≤ maxOrder,
    Chain s.nextPage (s.freeLists order) ((free order).map pageVirtualAddress)
  aligned : ∀ b ∈ freeBlocks free ++ allocated, 2 ^ b.2 ∣ b.1
  order_le : ∀ b ∈ allocated, b.2 ≤ maxOrder
  bitmap : ∀ p order, p < maxTotalPages →
    (isFreeHead (s.pageBitmap p) order = true ↔ order ≤ maxOrder ∧ p ∈ free order)
  partition : IsPartition inBlock (freeBlocks free ++ allocated) usable
  window : ∀ p ∈ usable, p < windowPages

/-! ## Bitmap entries -/

theorem isFreeHead_iff {entry order : Nat} :
    isFreeHead entry order = true ↔ 0 < entry &&& pageBitmapValidMask ∧
      0 < entry &&& pageBitmapIsFreeMask ∧ 0 < entry &&& pageBitmapIsHeadMask ∧
      entry >>> 3 = order :=
  decide_eq_true_iff

theorem isFreeHead_freeHeadEntry {order : Nat} (h : order ≤ maxOrder) (k : Nat) :
    isFreeHead (freeHeadEntry order) k = true ↔ order = k := by
  unfold maxOrder at h
  rw [isFreeHead_iff]
  interval_cases order <;>
    simp [freeHeadEntry, pageBitmapIsFreeMask, pageBitmapIsHeadMask, pageBitmapValidMask]

theorem isFreeHead_eq_false {entry : Nat} (h : entry &&& pageBitmapIsFreeMask = 0) (k : Nat) :
    isFreeHead entry k = false := by
  rw [← Bool.not_eq_true, isFreeHead_iff, h]
  simp

theorem isFreeHead_usedHeadEntry {order : Nat} (h : order ≤ maxOrder) (k : Nat) :
    isFreeHead (usedHeadEntry order) k = false := by
  refine isFreeHead_eq_false ?_ k
  unfold maxOrder at h
  interval_cases order <;> rfl

@[simp] theorem isFreeHead_clearFree (entry k : Nat) : isFreeHead (clearFree entry) k = false := by
  refine isFreeHead_eq_false ?_ k
  simp [clearFree, pageBitmapIsFreeMask, Nat.and_assoc]

@[simp] theorem isFreeHead_zero (k : Nat) : isFreeHead 0 k = false :=
  isFreeHead_eq_false rfl k

/-! ## Blocks and window addresses -/

theorem inBlock_iff {b : Nat × Nat} {p : Nat} :
    inBlock b p = true ↔ b.1 ≤ p ∧ p < b.1 + 2 ^ b.2 := by
  simp [inBlock]

theorem inBlock_head (b : Nat × Nat) : inBlock b b.1 = true := by
  have := Nat.two_pow_pos b.2
  rw [inBlock_iff]
  omega

theorem inBlock_split (x k a : Nat) :
    (if inBlock (x, k + 1) a then 1 else 0)
      = (if inBlock (x, k) a then 1 else 0) + if inBlock (x + 2 ^ k, k) a then 1 else 0 := by
  have hpow : 2 ^ (k + 1) = 2 ^ k + 2 ^ k := by rw [Nat.pow_succ]; omega
  simp only [inBlock, decide_eq_true_eq, hpow]
  have := Nat.two_pow_pos k
  split <;> split <;> split <;> omega

theorem mem_freeBlocks {free : Nat → List Nat} {x k : Nat} :
    (x, k) ∈ freeBlocks free ↔ k ≤ maxOrder ∧ x ∈ free k := by
  simp only [freeBlocks, List.mem_flatMap, List.mem_range, List.mem_map, Prod.mk.injEq]
  constructor
  · rintro ⟨j, hj, y, hy, rfl, rfl⟩
    exact ⟨by omega, hy⟩
  · rintro ⟨hk, hx⟩
    exact ⟨k, by omega, x, hx, rfl, rfl⟩

/-- Taking the head off one list takes one block off the free blocks. -/
theorem freeBlocks_perm {free : Nat → List Nat} {x k : Nat} {l : List Nat} (hk : k ≤ maxOrder)
    (h : (free k).Perm (x :: l)) :
    (freeBlocks free).Perm ((x, k) :: freeBlocks (Function.update free k l)) := by
  have hmap : (fun order => (free order).map (·, order))
      = Function.update (fun order => (Function.update free k l order).map (·, order)) k
          ((free k).map (·, k)) := by
    funext j
    by_cases hj : j = k
    · subst hj; simp
    · simp [Function.update_of_ne hj]
  unfold freeBlocks
  rw [hmap]
  refine flatMap_update_perm List.nodup_range (List.mem_range.mpr (by omega)) ?_
  simpa using h.map (·, k)

theorem pageVirtualAddress_ne_zero (p : Nat) : pageVirtualAddress p ≠ 0 := by
  simp only [pageVirtualAddress, mmapVirtualBaseAddress]
  omega

theorem pageVirtualAddress_inj {p q : Nat} (h : pageVirtualAddress p = pageVirtualAddress q) :
    p = q := by
  simp only [pageVirtualAddress, pageSize] at h
  omega

theorem pageVirtualAddress_mem {p : Nat} {l : List Nat} :
    pageVirtualAddress p ∈ l.map pageVirtualAddress ↔ p ∈ l :=
  List.mem_map_of_injective fun _ _ => pageVirtualAddress_inj

theorem physicalToVirtual_page {p : Nat} (h : p < windowPages) :
    mmapPhysicalToVirtual (p <<< pageShift) = some (pageVirtualAddress p) := by
  simp only [windowPages] at h
  simp only [mmapPhysicalToVirtual, mmapPhysicalRegionSize, pageShift, Nat.shiftLeft_eq,
    pageVirtualAddress, pageSize]
  rw [if_pos (by omega)]

theorem virtualToPhysical_page (dm : DirectMap) {p : Nat} (h : p < windowPages) :
    dm.mmapVirtualToPhysical (pageVirtualAddress p) = some (p * pageSize) := by
  simp only [windowPages] at h
  exact dm.window _ (by simp only [mmapPhysicalRegionSize, pageSize]; omega)

theorem page_shift (p : Nat) : (p * pageSize) >>> pageShift = p := by
  simp only [pageSize, pageShift, Nat.shiftRight_eq_div_pow]
  omega

/-- `free_list_push` of a page frame of the window never fails. -/
theorem freeListPush_eq (s : PageAllocator) {order p : Nat} (hk : order ≤ maxOrder)
    (hp : p < windowPages) :
    freeListPush s order p = some (0,
      { freeLists := Function.update s.freeLists order (pageVirtualAddress p)
        pageBitmap := Function.update s.pageBitmap p (freeHeadEntry order)
        nextPage := Function.update s.nextPage (pageVirtualAddress p) (s.freeLists order) }) := by
  have hmax : p < maxTotalPages := by simp only [windowPages, maxTotalPages] at *; omega
  unfold freeListPush
  rw [if_neg (by omega), if_neg (by omega), physicalToVirtual_page hp]

/-- `free_list_pop` of a list that starts with a page of the window. -/
theorem freeListPop_eq (dm : DirectMap) (s : PageAllocator) {order p : Nat} (hp : p < windowPages)
    (hhead : s.freeLists order = pageVirtualAddress p) :
    freeListPop dm s order = some (some p,
      { s with
        pageBitmap := Function.update s.pageBitmap p (usedHeadEntry order)
        freeLists := Function.update s.freeLists order (s.nextPage (pageVirtualAddress p)) }) := by
  simp only [freeListPop, hhead, pageVirtualAddress_ne_zero, if_false,
    virtualToPhysical_page dm hp, page_shift]

/-! ## What the invariant says about one block -/

section
variable {s : PageAllocator} {usable : Set Nat} {allocated : List (Nat × Nat)}
  {free : Nat → List Nat} {x k p : Nat}

theorem BuddyInv.mem_usable (h : BuddyInv s usable allocated free) {b : Nat × Nat}
    (hb : b ∈ freeBlocks free ++ allocated) (hp : inBlock b p = true) : p ∈ usable :=
  h.partition.mem_of_covers hb hp

theorem BuddyInv.free_lt_window (h : BuddyInv s usable allocated free) (hk : k ≤ maxOrder)
    (hx : x ∈ free k) : x < windowPages :=
  h.window x (h.mem_usable (List.mem_append_left _ (mem_freeBlocks.mpr ⟨hk, hx⟩))
    (inBlock_head (x, k)))

theorem BuddyInv.allocated_lt_window (h : BuddyInv s usable allocated free)
    (hx : (x, k) ∈ allocated) : x < windowPages :=
  h.window x (h.mem_usable (List.mem_append_right _ hx) (inBlock_head (x, k)))

theorem windowPages_lt {p : Nat} (h : p < windowPages) : p < maxTotalPages := by
  simp only [windowPages, maxTotalPages] at *
  omega

/-- The order of the handed-out blocks does not matter. -/
theorem BuddyInv.perm (h : BuddyInv s usable allocated free) {allocated' : List (Nat × Nat)}
    (hp : allocated.Perm allocated') : BuddyInv s usable allocated' free where
  chain := h.chain
  aligned := fun b hb => h.aligned b ((hp.append_left _).mem_iff.mpr hb)
  order_le := fun b hb => h.order_le b (hp.mem_iff.mpr hb)
  bitmap := h.bitmap
  partition := h.partition.perm (hp.append_left _)
  window := h.window

/-- The head of a block that is handed out heads no free block. -/
theorem BuddyInv.notMem_free (h : BuddyInv s usable ((x, k) :: allocated) free) {j : Nat}
    (hj : j ≤ maxOrder) : x ∉ free j := by
  intro hx
  have hpart := h.partition.perm List.perm_middle
  have hmem : (x, j) ∈ freeBlocks free ++ allocated :=
    List.mem_append_left _ (mem_freeBlocks.mpr ⟨hj, hx⟩)
  have hfalse := hpart.head_disjoint hmem (inBlock_head (x, k))
  rw [inBlock_head (x, j)] at hfalse
  exact Bool.noConfusion hfalse

/-- Writing a bitmap entry of the head of a handed-out block keeps the
invariant as long as the entry is no free head. -/
theorem BuddyInv.set_used (h : BuddyInv s usable ((x, k) :: allocated) free) {entry : Nat}
    (he : ∀ j, isFreeHead entry j = false) :
    BuddyInv { s with pageBitmap := Function.update s.pageBitmap x entry } usable
      ((x, k) :: allocated) free where
  chain := h.chain
  aligned := h.aligned
  order_le := h.order_le
  bitmap := fun p j hp => by
    by_cases hpx : p = x
    · subst hpx
      simp only [Function.update_self, he, Bool.false_eq_true, false_iff, not_and]
      exact fun hj => h.notMem_free hj
    · simpa only [Function.update_of_ne hpx] using h.bitmap p j hp
  partition := h.partition
  window := h.window

/-- A handed-out block is two handed-out halves. -/
theorem BuddyInv.split (h : BuddyInv s usable ((x, k + 1) :: allocated) free) :
    BuddyInv s usable ((x + 2 ^ k, k) :: (x, k) :: allocated) free where
  chain := h.chain
  aligned := by
    have hx : 2 ^ (k + 1) ∣ x := h.aligned (x, k + 1) (by simp)
    have hxk : 2 ^ k ∣ x := (Nat.pow_dvd_pow 2 (Nat.le_succ k)).trans hx
    intro b hb
    simp only [List.mem_append, List.mem_cons] at hb
    rcases hb with hb | rfl | rfl | hb
    · exact h.aligned b (by simp [hb])
    · exact Nat.dvd_add hxk (Nat.dvd_refl _)
    · exact hxk
    · exact h.aligned b (by simp [hb])
  order_le := by
    have hk := h.order_le (x, k + 1) (by simp)
    intro b hb
    simp only [List.mem_cons] at hb
    rcases hb with rfl | rfl | hb
    · exact Nat.le_of_succ_le hk
    · exact Nat.le_of_succ_le hk
    · exact h.order_le b (by simp [hb])
  bitmap := h.bitmap
  partition := by
    have hhead := h.partition.perm List.perm_middle
    rw [isPartition_split_iff (inBlock_split x k)] at hhead
    refine hhead.perm ((List.Perm.swap _ _ _).trans ?_)
    exact (List.perm_append_comm_assoc [(x + 2 ^ k, k), (x, k)] (freeBlocks free) allocated)
  window := h.window

/-- `free_list_push` of a handed-out block puts it at the front of the free
list of its order. -/
theorem BuddyInv.push (h : BuddyInv s usable ((x, k) :: allocated) free) :
    ∃ s', freeListPush s k x = some (0, s') ∧
      BuddyInv s' usable allocated (Function.update free k (x :: free k)) := by
  have hk : k ≤ maxOrder := h.order_le (x, k) (by simp)
  have hx : x < windowPages := h.allocated_lt_window (k := k) (by simp)
  have hblocks : (freeBlocks (Function.update free k (x :: free k))).Perm
      ((x, k) :: freeBlocks free) := by
    have hcons : (Function.update free k (x :: free k) k).Perm (x :: free k) := by simp
    simpa using freeBlocks_perm hk hcons
  have hall : (freeBlocks (Function.update free k (x :: free k)) ++ allocated).Perm
      (freeBlocks free ++ (x, k) :: allocated) :=
    (hblocks.append_right _).trans List.perm_middle.symm
  refine ⟨_, freeListPush_eq s hk hx, ?_, ?_, ?_, ?_, ?_, h.window⟩
  · intro j hj
    by_cases hjk : j = k
    · subst hjk
      simp only [Function.update_self, List.map_cons]
      exact (h.chain j hj).push (mt pageVirtualAddress_mem.mp (h.notMem_free hj))
        (pageVirtualAddress_ne_zero x)
    · simp only [Function.update_of_ne hjk]
      exact (h.chain j hj).update_of_notMem (mt pageVirtualAddress_mem.mp (h.notMem_free hj)) _
  · exact fun b hb => h.aligned b (hall.mem_iff.mp hb)
  · exact fun b hb => h.order_le b (by simp [hb])
  · intro p j hp
    by_cases hpx : p = x
    · subst hpx
      simp only [Function.update_self, isFreeHead_freeHeadEntry hk]
      by_cases hjk : j = k
      · subst hjk; simp [hk]
      · have hno : ¬ (j ≤ maxOrder ∧ p ∈ free j) := fun hc => h.notMem_free hc.1 hc.2
        simp only [Function.update_of_ne hjk, hno, iff_false]
        exact fun hkj => hjk hkj.symm
    · simp only [Function.update_of_ne hpx, h.bitmap p j hp]
      by_cases hjk : j = k
      · subst hjk; simp [hpx]
      · simp [Function.update_of_ne hjk]
  · exact h.partition.perm hall.symm

/-- `free_list_pop` of a non-empty list hands out its first block. -/
theorem BuddyInv.pop (dm : DirectMap) (h : BuddyInv s usable allocated free) (hk : k ≤ maxOrder)
    {xs : List Nat} (hfree : free k = x :: xs) :
    ∃ s', freeListPop dm s k = some (some x, s') ∧
      BuddyInv s' usable ((x, k) :: allocated) (Function.update free k xs) := by
  have hxw : x < windowPages := h.free_lt_window hk (by simp [hfree])
  have hchain := h.chain k hk
  rw [hfree, List.map_cons] at hchain
  obtain ⟨hhead, _, htail⟩ := hchain
  have hall : (freeBlocks free ++ allocated).Perm
      (freeBlocks (Function.update free k xs) ++ (x, k) :: allocated) :=
    ((freeBlocks_perm hk (by rw [hfree])).append_right _).trans List.perm_middle.symm
  -- before the bitmap write the block is handed out with a stale free entry
  have hx : ∀ j ≤ maxOrder, x ∉ Function.update free k xs j := by
    intro j hj hmem
    have hpart := h.partition.perm (hall.trans List.perm_middle)
    have hfalse := hpart.head_disjoint (c := (x, j))
      (List.mem_append_left _ (mem_freeBlocks.mpr ⟨hj, hmem⟩)) (inBlock_head (x, k))
    rw [inBlock_head (x, j)] at hfalse
    exact Bool.noConfusion hfalse
  refine ⟨_, freeListPop_eq dm s hxw hhead, ?_, ?_, ?_, ?_, ?_, h.window⟩
  · intro j hj
    by_cases hjk : j = k
    · subst hjk
      simpa only [Function.update_self] using htail
    · simpa only [Function.update_of_ne hjk] using h.chain j hj
  · exact fun b hb => h.aligned b (hall.mem_iff.mpr hb)
  · intro b hb
    rcases List.mem_cons.mp hb with rfl | hb
    · exact hk
    · exact h.order_le b hb
  · intro p j hp
    by_cases hpx : p = x
    · subst hpx
      simp only [Function.update_self, isFreeHead_usedHeadEntry hk, Bool.false_eq_true, false_iff,
        not_and]
      exact fun hj => hx j hj
    · simp only [Function.update_of_ne hpx, h.bitmap p j hp]
      by_cases hjk : j = k
      · subst hjk; simp [hfree, hpx]
      · simp [Function.update_of_ne hjk]
  · exact h.partition.perm hall

theorem BuddyInv.pop_empty (dm : DirectMap) (h : BuddyInv s usable allocated free)
    (hk : k ≤ maxOrder) (hfree : free k = []) : freeListPop dm s k = some (none, s) := by
  have hhead : s.freeLists k = 0 := by simpa [hfree] using h.chain k hk
  simp [freeListPop, hhead]

end

end ZOs.PageAlloc
