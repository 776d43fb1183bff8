import Mathlib.Algebra.Group.Nat.Even
import Mathlib.Data.Nat.Bitwise
import Mathlib.Order.Interval.Set.Disjoint
import Mathlib.Tactic.Ring
import ZOs.Memory.PageAllocRun

/-!
# `page_alloc_free`

Going up from the freed block, `page_alloc_free` merges with the buddy as
long as the buddy is a free block of the current order. `mergedBuddies`
lists these buddies; they are a function of the state before the call. The
search that should unlink a buddy only ever looks at the link of the first
page of the list, so it finds the buddy exactly when the buddy stands
second, and otherwise it stops the kernel: it runs into the null link of a
one-element list or goes round for ever.
-/

namespace ZOs.PageAlloc

open LinkedMem Partition

/-- The first page of a block merged with its buddy. -/
def mergedStart (pageFrameNumber order : Nat) : Nat :=
  if calculateBuddyPageFrameNumber pageFrameNumber order < pageFrameNumber then
    calculateBuddyPageFrameNumber pageFrameNumber order
  else pageFrameNumber

/-- The buddies that merging starting at `pageFrameNumber` takes in, with
their orders, as the bitmap before the call decides. The first argument is
`MAX_ORDER - order`. -/
def mergedBuddies (s : PageAllocator) : Nat → Nat → Nat → List (Nat × Nat)
  | 0, _, _ => []
  | n + 1, order, pageFrameNumber =>
    let buddy := calculateBuddyPageFrameNumber pageFrameNumber order
    if maxTotalPages ≤ buddy then []
    else if isFreeHead (s.pageBitmap buddy) order then
      (buddy, order) :: mergedBuddies s n (order + 1) (mergedStart pageFrameNumber order)
    else []

/-- The block is the second one on the free list of its order. -/
def StandsSecond (s : PageAllocator) (block : Nat × Nat) : Prop :=
  s.nextPage (s.freeLists block.2) = pageVirtualAddress block.1

/-! ## Buddies -/

/-- The buddy of an aligned block is the other half of the block of the
next order. -/
theorem buddy_cases {x k : Nat} (h : 2 ^ k ∣ x) :
    (2 ^ (k + 1) ∣ x ∧ calculateBuddyPageFrameNumber x k = x + 2 ^ k) ∨
      ∃ y, x = y + 2 ^ k ∧ 2 ^ (k + 1) ∣ y ∧ calculateBuddyPageFrameNumber x k = y := by
  obtain ⟨q, rfl⟩ := h
  have hxor : calculateBuddyPageFrameNumber (2 ^ k * q) k = 2 ^ k * (q ^^^ 1) := by
    rw [calculateBuddyPageFrameNumber, Nat.mul_comm, ← Nat.shiftLeft_eq,
      ← Nat.shiftLeft_xor_distrib, Nat.shiftLeft_eq, Nat.mul_comm]
  rcases Nat.even_or_odd q with heven | hodd
  · left
    obtain ⟨m, rfl⟩ := heven
    refine ⟨⟨m, by rw [Nat.pow_succ]; ring⟩, ?_⟩
    rw [hxor, Nat.xor_one_of_even ⟨m, rfl⟩]
    ring
  · right
    obtain ⟨m, rfl⟩ := hodd
    refine ⟨2 ^ k * (2 * m), by ring, ⟨m, by rw [Nat.pow_succ]; ring⟩, ?_⟩
    rw [hxor, Nat.xor_one_of_odd ⟨m, rfl⟩]
    rfl

theorem buddy_lt_window {x k : Nat} (hx : x < windowPages) (hk : k < maxOrder) :
    calculateBuddyPageFrameNumber x k < windowPages := by
  refine Nat.xor_lt_two_pow hx ?_
  rw [Nat.one_shiftLeft]
  exact Nat.pow_lt_pow_right (by omega) (by simp only [maxOrder] at hk; omega)

/-! ## The search -/

section
variable {nextPage : Nat → Nat} {buddy current c : Nat}

theorem unlinkBuddy_second (dm : DirectMap) (fuel : Nat) (hcur : current ≠ 0)
    (hb : buddy < windowPages) (hnext : nextPage current = pageVirtualAddress buddy) :
    unlinkBuddy dm nextPage buddy current (fuel + 1)
      = some (Function.update nextPage current (nextPage (pageVirtualAddress buddy))) := by
  simp only [unlinkBuddy, hcur, if_false, hnext, virtualToPhysical_page dm hb, page_shift, if_true,
    pageVirtualAddress_ne_zero]

/-- If the first link of the list does not lead to the buddy, the search
never returns: nothing it looks at ever changes. -/
theorem unlinkBuddy_stuck (dm : DirectMap) (hcur : current ≠ 0)
    (hlink : nextPage current = 0 ∨ ∃ c < windowPages, nextPage current = pageVirtualAddress c)
    (hnext : nextPage current ≠ pageVirtualAddress buddy) (fuel : Nat) :
    unlinkBuddy dm nextPage buddy current fuel = none := by
  induction fuel with
  | zero => rfl
  | succ fuel ih =>
    simp only [unlinkBuddy, hcur, if_false, ih]
    rcases hlink with h0 | ⟨c, hc, hpv⟩
    · simp only [h0, if_true]
      split
      · rfl
      · split <;> rfl
    · have hcb : c ≠ buddy := fun h => hnext (by rw [hpv, h])
      simp only [hpv, virtualToPhysical_page dm hc, page_shift, hcb, if_false]

end

/-! ## One merge -/

section
variable {s : PageAllocator} {usable : Set Nat} {allocated : List (Nat × Nat)}
  {free : Nat → List Nat} {x k j y b : Nat} {rest : List Nat}

/-- The state after the buddy behind the first page of the list has been
unlinked and marked as not free. -/
def afterUnlink (s : PageAllocator) (order buddy : Nat) : PageAllocator :=
  { s with
    nextPage := Function.update s.nextPage (s.freeLists order)
      (s.nextPage (pageVirtualAddress buddy))
    pageBitmap := Function.update s.pageBitmap buddy (clearFree (s.pageBitmap buddy)) }

/-- A page heads a block on one free list at most. -/
theorem BuddyInv.order_unique (h : BuddyInv s usable allocated free) (hk : k ≤ maxOrder)
    (hj : j ≤ maxOrder) (hxk : x ∈ free k) (hxj : x ∈ free j) : k = j := by
  have hx := windowPages_lt (h.free_lt_window hk hxk)
  have hbk := (isFreeHead_iff.mp ((h.bitmap x k hx).mpr ⟨hk, hxk⟩)).2.2.2
  have hbj := (isFreeHead_iff.mp ((h.bitmap x j hx).mpr ⟨hj, hxj⟩)).2.2.2
  exact hbk.symm.trans hbj

theorem BuddyInv.freeLists_cons (h : BuddyInv s usable allocated free) (hk : k ≤ maxOrder)
    (hfree : free k = y :: rest) : s.freeLists k = pageVirtualAddress y := by
  have hchain := h.chain k hk
  rw [hfree, List.map_cons] at hchain
  exact hchain.1

/-- The first link of a list is null or leads to a page of the window. -/
theorem BuddyInv.first_link (h : BuddyInv s usable allocated free) (hk : k ≤ maxOrder)
    (hfree : free k = y :: rest) :
    s.nextPage (s.freeLists k) = 0 ∨
      ∃ c < windowPages, s.nextPage (s.freeLists k) = pageVirtualAddress c := by
  have hchain := h.chain k hk
  rw [hfree, List.map_cons] at hchain
  obtain ⟨hhead, _, htail⟩ := hchain
  rw [hhead]
  cases rest with
  | nil => exact .inl htail
  | cons c rest =>
    refine .inr ⟨c, h.free_lt_window hk ?_, htail.1⟩
    simp [hfree]

/-- The block that stands second is the second one of the list. -/
theorem BuddyInv.second_of_standsSecond (h : BuddyInv s usable allocated free) (hk : k ≤ maxOrder)
    (hb : b ∈ free k) (hs : StandsSecond s (b, k)) : ∃ y rest, free k = y :: b :: rest := by
  have hchain := h.chain k hk
  cases hfree : free k with
  | nil => simp [hfree] at hb
  | cons y l =>
    rw [hfree, List.map_cons] at hchain
    obtain ⟨hhead, _, htail⟩ := hchain
    rw [StandsSecond, hhead] at hs
    cases l with
    | nil => exact absurd (hs.symm.trans htail) (pageVirtualAddress_ne_zero b)
    | cons c rest =>
      have hcb : b = c := pageVirtualAddress_inj (hs.symm.trans htail.1)
      exact ⟨y, rest, by rw [hcb]⟩

/-- Unlinking the second block of a list hands it out. -/
theorem BuddyInv.unlink (h : BuddyInv s usable allocated free) (hk : k ≤ maxOrder)
    (hfree : free k = y :: b :: rest) :
    BuddyInv (afterUnlink s k b) usable ((b, k) :: allocated)
      (Function.update free k (y :: rest)) := by
  have hhead := h.freeLists_cons hk hfree
  have hnodup : (y :: b :: rest).Nodup := by
    have := (h.chain k hk).nodup
    rw [hfree] at this
    exact List.Nodup.of_map _ this
  have hbno : ∀ j ≤ maxOrder, b ∉ Function.update free k (y :: rest) j := by
    intro j hj hmem
    by_cases hjk : j = k
    · subst hjk
      simp only [Function.update_self, List.mem_cons] at hmem
      simp only [List.nodup_cons, List.mem_cons, not_or] at hnodup
      rcases hmem with rfl | hmem
      · exact hnodup.1.1 rfl
      · exact hnodup.2.1 hmem
    · rw [Function.update_of_ne hjk] at hmem
      exact hjk (h.order_unique hj hk hmem (by simp [hfree]))
  have hall : (freeBlocks free ++ allocated).Perm
      (freeBlocks (Function.update free k (y :: rest)) ++ (b, k) :: allocated) := by
    refine ((freeBlocks_perm hk ?_).append_right _).trans List.perm_middle.symm
    rw [hfree]
    exact List.Perm.swap _ _ _
  refine ⟨?_, fun c hc => h.aligned c (hall.mem_iff.mpr hc), ?_, ?_, h.partition.perm hall,
    h.window⟩
  · intro j hj
    simp only [afterUnlink, hhead]
    by_cases hjk : j = k
    · subst hjk
      have hchain := h.chain j hj
      rw [hfree, List.map_cons, List.map_cons] at hchain
      simpa only [Function.update_self, List.map_cons] using hchain.bypass
    · rw [Function.update_of_ne hjk]
      refine (h.chain j hj).update_of_notMem (fun hmem => hjk ?_) _
      exact h.order_unique hj hk (pageVirtualAddress_mem.mp hmem) (by simp [hfree])
  · intro c hc
    rcases List.mem_cons.mp hc with rfl | hc
    · exact hk
    · exact h.order_le c hc
  · intro p j hp
    simp only [afterUnlink]
    by_cases hpb : p = b
    · subst hpb
      simp only [Function.update_self, isFreeHead_clearFree, Bool.false_eq_true, false_iff, not_and]
      exact fun hj => hbno j hj
    · rw [Function.update_of_ne hpb, h.bitmap p j hp]
      by_cases hjk : j = k
      · subst hjk; simp [hfree, hpb]
      · rw [Function.update_of_ne hjk]

/-- Two handed-out halves are a handed-out block. -/
theorem BuddyInv.join (h : BuddyInv s usable ((y + 2 ^ k, k) :: (y, k) :: allocated) free)
    (hk : k + 1 ≤ maxOrder) (hy : 2 ^ (k + 1) ∣ y) :
    BuddyInv s usable ((y, k + 1) :: allocated) free where
  chain := h.chain
  aligned := by
    intro c hc
    simp only [List.mem_append, List.mem_cons] at hc
    rcases hc with hc | rfl | hc
    · exact h.aligned c (by simp [hc])
    · exact hy
    · exact h.aligned c (by simp [hc])
  order_le := by
    intro c hc
    rcases List.mem_cons.mp hc with rfl | hc
    · exact hk
    · exact h.order_le c (by simp [hc])
  bitmap := h.bitmap
  partition := by
    refine IsPartition.perm ?_ List.perm_middle.symm
    rw [isPartition_split_iff (inBlock_split y k)]
    refine h.partition.perm (List.Perm.trans ?_ (List.Perm.swap _ _ _))
    exact (List.perm_append_comm_assoc (freeBlocks free) [(y + 2 ^ k, k), (y, k)] allocated)
  window := h.window

/-- A handed-out block and its handed-out buddy are the block of the next
order that the merge loop goes on with. -/
theorem BuddyInv.join_buddy
    (h : BuddyInv s usable ((calculateBuddyPageFrameNumber x k, k) :: (x, k) :: allocated) free)
    (hk : k + 1 ≤ maxOrder) : BuddyInv s usable ((mergedStart x k, k + 1) :: allocated) free := by
  have hpos := Nat.two_pow_pos k
  have hdvd : 2 ^ k ∣ x := h.aligned (x, k) (by simp)
  rcases buddy_cases hdvd with ⟨hx, hb⟩ | ⟨y, rfl, hy, hb⟩
  · rw [hb] at h
    rw [mergedStart, hb, if_neg (by omega)]
    exact h.join hk hx
  · rw [hb] at h
    rw [mergedStart, hb, if_pos (by omega)]
    exact (h.perm (List.Perm.swap _ _ _)).join hk hy

/-- One pass of the merge loop whose buddy stands second. -/
theorem BuddyInv.merge (h : BuddyInv s usable ((x, k) :: allocated) free) (hk : k + 1 ≤ maxOrder)
    (hb : calculateBuddyPageFrameNumber x k ∈ free k)
    (hs : StandsSecond s (calculateBuddyPageFrameNumber x k, k)) :
    ∃ l, calculateBuddyPageFrameNumber x k ∉ l ∧
      BuddyInv (afterUnlink s k (calculateBuddyPageFrameNumber x k)) usable
        ((mergedStart x k, k + 1) :: allocated) (Function.update free k l) := by
  obtain ⟨y, rest, hfree⟩ := h.second_of_standsSecond (by omega) hb hs
  have hunlink := h.unlink (by omega) hfree
  refine ⟨y :: rest, ?_, hunlink.join_buddy hk⟩
  have := hunlink.notMem_free (j := k) (by omega)
  rwa [Function.update_self] at this

/-! ## What a merge leaves alone -/

/-- Unlinking at one order changes no verdict about another order. -/
theorem BuddyInv.isFreeHead_afterUnlink (h : BuddyInv s usable allocated free) (hk : k ≤ maxOrder)
    (hb : b ∈ free k) (hjk : j ≠ k) (p : Nat) :
    isFreeHead ((afterUnlink s k b).pageBitmap p) j = isFreeHead (s.pageBitmap p) j := by
  simp only [afterUnlink]
  by_cases hpb : p = b
  · subst hpb
    have hp := windowPages_lt (h.free_lt_window hk hb)
    rw [Function.update_self, isFreeHead_clearFree, Eq.comm, ← Bool.not_eq_true, h.bitmap p j hp]
    exact fun hj => hjk (h.order_unique hj.1 hk hj.2 hb)
  · rw [Function.update_of_ne hpb]

theorem BuddyInv.standsSecond_afterUnlink (h : BuddyInv s usable allocated free)
    (hk : k ≤ maxOrder) (hfree : free k = y :: rest) (hj : j ≤ maxOrder) (hjk : j ≠ k) (c : Nat) :
    StandsSecond (afterUnlink s k b) (c, j) ↔ StandsSecond s (c, j) := by
  have hne : s.freeLists j ≠ s.freeLists k := by
    intro heq
    rw [h.freeLists_cons hk hfree] at heq
    have hchain := h.chain j hj
    cases hfj : free j with
    | nil =>
      rw [hfj] at hchain
      exact pageVirtualAddress_ne_zero y (heq.symm.trans hchain)
    | cons z l =>
      have hzy := pageVirtualAddress_inj ((h.freeLists_cons hj hfj).symm.trans heq)
      exact hjk (h.order_unique hj hk (x := y) (by simp [hfj, hzy]) (by simp [hfree]))
  simp only [StandsSecond, afterUnlink, Function.update_of_ne hne]

theorem mergedBuddies_order {n : Nat} {c : Nat × Nat} (hc : c ∈ mergedBuddies s n k x) :
    k ≤ c.2 ∧ c.2 < k + n := by
  induction n generalizing k x with
  | zero => simp [mergedBuddies] at hc
  | succ n ih =>
    simp only [mergedBuddies] at hc
    split at hc
    · simp at hc
    · split at hc
      · rcases List.mem_cons.mp hc with rfl | hc
        · exact ⟨Nat.le_refl _, by simp⟩
        · have := ih hc
          omega
      · simp at hc

theorem mergedBuddies_congr {s' : PageAllocator} {n : Nat}
    (h : ∀ j, k ≤ j → ∀ p, isFreeHead (s'.pageBitmap p) j = isFreeHead (s.pageBitmap p) j) :
    mergedBuddies s' n k x = mergedBuddies s n k x := by
  induction n generalizing k x with
  | zero => rfl
  | succ n ih =>
    simp only [mergedBuddies, h k (Nat.le_refl _)]
    rw [ih fun j hj => h j (by omega)]

/-- The buddies still to be merged after one pass, and where they stand,
are those of the state before the pass. -/
theorem BuddyInv.merged_afterUnlink (h : BuddyInv s usable allocated free) (hk : k ≤ maxOrder)
    (hb : b ∈ free k) (n z : Nat) (hn : k + 1 + n = maxOrder) :
    mergedBuddies (afterUnlink s k b) n (k + 1) z = mergedBuddies s n (k + 1) z ∧
      ∀ c ∈ mergedBuddies s n (k + 1) z, StandsSecond (afterUnlink s k b) c ↔ StandsSecond s c := by
  obtain ⟨y, rest, hfree⟩ := List.exists_cons_of_ne_nil (List.ne_nil_of_mem hb)
  refine ⟨mergedBuddies_congr fun j hj p => h.isFreeHead_afterUnlink hk hb (by omega) p, ?_⟩
  intro c hc
  have hord := mergedBuddies_order hc
  exact h.standsSecond_afterUnlink hk hfree (by omega) (by omega) c.1

/-! ## The whole loop -/

/-- A buddy below `MAX_ORDER` lies in the window, so the guard against
`MAX_TOTAL_PAGES` never ends the merging. -/
theorem BuddyInv.buddy_lt (h : BuddyInv s usable ((x, k) :: allocated) free) (hk : k < maxOrder) :
    ¬ maxTotalPages ≤ calculateBuddyPageFrameNumber x k := by
  have := windowPages_lt (buddy_lt_window (h.allocated_lt_window (x := x) (k := k) (by simp)) hk)
  omega

theorem BuddyInv.buddy_mem (h : BuddyInv s usable ((x, k) :: allocated) free) (hk : k < maxOrder)
    (hbit : isFreeHead (s.pageBitmap (calculateBuddyPageFrameNumber x k)) k = true) :
    calculateBuddyPageFrameNumber x k ∈ free k :=
  ((h.bitmap _ k (Nat.lt_of_not_le (h.buddy_lt hk))).mp hbit).2

/-- If every buddy to be merged stands second, the call returns 0 and the
block is free. -/
theorem mergeAndPush_returns (dm : DirectMap) (fuel : Nat) : ∀ (n : Nat) {s : PageAllocator}
    {x k : Nat} {free : Nat → List Nat}, k + n = maxOrder →
    BuddyInv s usable ((x, k) :: allocated) free →
    (∀ b ∈ mergedBuddies s n k x, StandsSecond s b) →
    ∃ s' free', mergeAndPush dm (fuel + 1) s n k x = some (0, s') ∧
      BuddyInv s' usable allocated free' ∧ (∀ j < k, free' j = free j) ∧
      ∀ b ∈ mergedBuddies s n k x, b ∉ freeBlocks free' := by
  intro n
  induction n with
  | zero =>
    intro s x k free hkn h _
    obtain ⟨s', hpush, hinv⟩ := h.push
    refine ⟨s', _, hpush, hinv, fun j hj => ?_, by simp [mergedBuddies]⟩
    rw [Function.update_of_ne (by omega)]
  | succ n ih =>
    intro s x k free hkn h hsecond
    have hk : k < maxOrder := by omega
    have hguard := h.buddy_lt hk
    simp only [mergedBuddies, hguard, if_false] at hsecond ⊢
    simp only [mergeAndPush, hguard, if_false]
    split
    · rename_i hbit
      simp only [hbit, if_true, List.mem_cons, forall_eq_or_imp] at hsecond
      obtain ⟨hs, hrest⟩ := hsecond
      have hbmem := h.buddy_mem hk hbit
      have hcur : s.freeLists k ≠ 0 := by
        obtain ⟨y, l, hfree⟩ := List.exists_cons_of_ne_nil (List.ne_nil_of_mem hbmem)
        rw [h.freeLists_cons (by omega) hfree]
        exact pageVirtualAddress_ne_zero y
      have hsearch := unlinkBuddy_second dm fuel hcur
        (h.free_lt_window (by omega) hbmem) hs
      obtain ⟨l, hbl, hinv⟩ := h.merge (by omega) hbmem hs
      obtain ⟨hmerged, hstands⟩ := h.merged_afterUnlink (by omega) hbmem n (mergedStart x k)
        (by omega)
      obtain ⟨s', free', hrun, hinv', hlow, hout⟩ := ih (by omega) hinv (by
        intro c hc
        rw [hmerged] at hc
        exact (hstands c hc).mpr (hrest c hc))
      refine ⟨s', free', ?_, hinv', fun j hj => ?_, ?_⟩
      · rw [hsearch]
        exact hrun
      · rw [hlow j (by omega), Function.update_of_ne (by omega)]
      · rw [hmerged] at hout
        refine List.forall_mem_cons.mpr ⟨fun hmem => hbl ?_, hout⟩
        have := (mem_freeBlocks.mp hmem).2
        rwa [hlow k (by omega), Function.update_self] at this
    · obtain ⟨s', hpush, hinv⟩ := h.push
      refine ⟨s', _, hpush, hinv, fun j hj => ?_, by simp⟩
      rw [Function.update_of_ne (by omega)]

/-- If some buddy to be merged does not stand second, the call never
returns, however long its searches may run. -/
theorem mergeAndPush_stuck (dm : DirectMap) (fuel : Nat) : ∀ (n : Nat) {s : PageAllocator}
    {x k : Nat} {free : Nat → List Nat}, k + n = maxOrder →
    BuddyInv s usable ((x, k) :: allocated) free →
    (∃ b ∈ mergedBuddies s n k x, ¬ StandsSecond s b) → mergeAndPush dm fuel s n k x = none := by
  intro n
  induction n with
  | zero =>
    rintro s x k free _ _ ⟨b, hb, _⟩
    simp [mergedBuddies] at hb
  | succ n ih =>
    rintro s x k free hkn h ⟨b, hb, hnot⟩
    have hk : k < maxOrder := by omega
    have hguard := h.buddy_lt hk
    simp only [mergedBuddies, hguard, if_false] at hb
    simp only [mergeAndPush, hguard, if_false]
    split at hb
    · rename_i hbit
      have hbmem := h.buddy_mem hk hbit
      obtain ⟨y, l, hfree⟩ := List.exists_cons_of_ne_nil (List.ne_nil_of_mem hbmem)
      have hcur : s.freeLists k ≠ 0 := by
        rw [h.freeLists_cons (by omega) hfree]
        exact pageVirtualAddress_ne_zero y
      rw [if_pos hbit]
      by_cases hs : StandsSecond s (calculateBuddyPageFrameNumber x k, k)
      · cases fuel with
        | zero => rfl
        | succ fuel =>
          rw [unlinkBuddy_second dm fuel hcur (h.free_lt_window (by omega) hbmem) hs]
          obtain ⟨l, _, hinv⟩ := h.merge (by omega) hbmem hs
          obtain ⟨hmerged, hstands⟩ := h.merged_afterUnlink (by omega) hbmem n (mergedStart x k)
            (by omega)
          have hb' : b ∈ mergedBuddies s n (k + 1) (mergedStart x k) := by
            rcases List.mem_cons.mp hb with rfl | hb
            · exact absurd hs hnot
            · exact hb
          exact ih (by omega) hinv ⟨b, hmerged ▸ hb', mt (hstands b hb').mp hnot⟩
      · rw [unlinkBuddy_stuck dm hcur (h.first_link (by omega) hfree) hs]
    · simp at hb

end

/-! ## The call -/

/-- What `page_alloc_free` is for: the call returns 0, every buddy it merged
is off its free list, and in the state after it the invariant holds with the
block moved from the handed-out to the free pages. -/
def FreesBlock (dm : DirectMap) (s : PageAllocator) (usable : Set Nat)
    (allocated : List (Nat × Nat)) (free : Nat → List Nat) (block : Nat × Nat) : Prop :=
  ∃ fuel s' free', pageAllocFree dm fuel s (block.1 <<< pageShift) block.2 = some (0, s') ∧
    (∀ b ∈ mergedBuddies s (maxOrder - block.2) block.2 block.1, b ∉ freeBlocks free') ∧
    BuddyInv s' usable (allocated.erase block) free' ∧
    ∀ p, (∃ b ∈ freeBlocks free', inBlock b p = true) ↔
      (∃ b ∈ freeBlocks free, inBlock b p = true) ∨ inBlock block p = true

section
variable {s : PageAllocator} {usable : Set Nat} {allocated : List (Nat × Nat)}
  {free : Nat → List Nat} {block : Nat × Nat}

theorem BuddyInv.erase (h : BuddyInv s usable allocated free) (hb : block ∈ allocated) :
    BuddyInv s usable (block :: allocated.erase block) free :=
  h.perm (List.perm_cons_erase hb)

/-- The free pages are the managed pages that are not handed out. -/
theorem BuddyInv.free_page_iff (h : BuddyInv s usable allocated free) (p : Nat) :
    (∃ b ∈ freeBlocks free, inBlock b p = true) ↔
      p ∈ usable ∧ ∀ b ∈ allocated, inBlock b p = false := by
  constructor
  · rintro ⟨b, hb, hbp⟩
    refine ⟨h.mem_usable (List.mem_append_left _ hb) hbp, fun c hc => ?_⟩
    have := (List.pairwise_append.mp h.partition.disjoint).2.2 b hb c hc p
    simpa [hbp] using this
  · rintro ⟨hp, hno⟩
    obtain ⟨b, hb, hbp⟩ := (h.partition.union p).mp hp
    rcases List.mem_append.mp hb with hb | hb
    · exact ⟨b, hb, hbp⟩
    · rw [hno b hb] at hbp
      exact Bool.noConfusion hbp

/-- Moving one block from the handed-out to the free ones makes exactly its
pages free. -/
theorem BuddyInv.freed_page_iff {s' : PageAllocator} {free' : Nat → List Nat}
    (h : BuddyInv s usable (block :: allocated) free) (h' : BuddyInv s' usable allocated free')
    (p : Nat) : (∃ b ∈ freeBlocks free', inBlock b p = true) ↔
      (∃ b ∈ freeBlocks free, inBlock b p = true) ∨ inBlock block p = true := by
  rw [h.free_page_iff, h'.free_page_iff]
  constructor
  · rintro ⟨hp, hno⟩
    cases hbp : inBlock block p with
    | true => exact .inr rfl
    | false => exact .inl ⟨hp, List.forall_mem_cons.mpr ⟨hbp, hno⟩⟩
  · rintro (⟨hp, hno⟩ | hbp)
    · exact ⟨hp, (List.forall_mem_cons.mp hno).2⟩
    · refine ⟨h.mem_usable (by simp) hbp, fun c hc => ?_⟩
      have hpart := h.partition.perm List.perm_middle
      exact hpart.head_disjoint (List.mem_append_right _ hc) hbp

/-- **When `page_alloc_free` works**: exactly when every buddy that merging
takes in, from the freed block upwards, stands second on the free list of
its order before the call. -/
theorem pageAllocFree_correct_iff (dm : DirectMap) (h : BuddyInv s usable allocated free)
    (hb : block ∈ allocated) :
    FreesBlock dm s usable allocated free block ↔
      ∀ b ∈ mergedBuddies s (maxOrder - block.2) block.2 block.1, StandsSecond s b := by
  have herase := h.erase hb
  have horder := h.order_le block hb
  have hshift : block.1 <<< pageShift >>> pageShift = block.1 := Nat.shiftLeft_shiftRight _ _
  constructor
  · rintro ⟨fuel, s', free', hrun, _⟩
    by_contra hno
    push Not at hno
    have hstuck := mergeAndPush_stuck dm fuel (maxOrder - block.2) (by omega) herase hno
    rw [pageAllocFree, hshift, hstuck] at hrun
    simp at hrun
  · intro hsecond
    obtain ⟨s', free', hrun, hinv, _, hout⟩ :=
      mergeAndPush_returns dm 0 (maxOrder - block.2) (by omega) herase hsecond
    refine ⟨1, s', free', ?_, hout, hinv, fun p => herase.freed_page_iff hinv p⟩
    rw [pageAllocFree, hshift]
    exact hrun

end

/-- Three pages of order 0: 1, 4 and 0, pushed in this order. -/
def threePages : List MemoryDescriptor :=
  [⟨0x1000, 1, .usable⟩, ⟨0x4000, 1, .usable⟩, ⟨0, 1, .usable⟩]

/-- `threePages` with page 0 handed out: the list of order 0 is 4, 1. -/
def threePagesTaken : PageAllocator :=
  stateOf (pageAllocBlock .windowOnly (stateOf (pageAllocInit (fun _ => 0) threePages)) 0)

theorem threePages_wellFormed : WellFormedMap threePages where
  aligned := by decide
  disjoint := by simp [threePages, MemoryDescriptor.pages, pageSize, Set.Ico_disjoint_Ico]
  window := by decide

theorem threePagesTaken_run : AllocRun .windowOnly threePages threePagesTaken [(0, 0)] := by
  have hinit : pageAllocInit (fun _ => 0) threePages
      = some (0, stateOf (pageAllocInit (fun _ => 0) threePages)) := rfl
  have halloc : pageAllocBlock .windowOnly (stateOf (pageAllocInit (fun _ => 0) threePages)) 0
      = some (some 0, threePagesTaken) := rfl
  exact .alloc (.init hinit) halloc

/-- Page 1 stands second, so freeing page 0 merges the two. -/
theorem threePages_free :
    mergedBuddies threePagesTaken 10 0 0 = [(1, 0)] ∧
      ∃ free, FreesBlock .windowOnly threePagesTaken (usablePages threePages) [(0, 0)] free
        (0, 0) := by
  obtain ⟨free, hinv⟩ := threePagesTaken_run.inv threePages_wellFormed
  have hmerged : mergedBuddies threePagesTaken 10 0 0 = [(1, 0)] := by decide
  refine ⟨hmerged, free, (pageAllocFree_correct_iff .windowOnly hinv (by simp)).mpr ?_⟩
  have hsecond : StandsSecond threePagesTaken (1, 0) := by
    unfold StandsSecond
    decide
  intro b hb
  have hb' : b ∈ mergedBuddies threePagesTaken 10 0 0 := hb
  rw [hmerged, List.mem_singleton] at hb'
  rw [hb']
  exact hsecond

/-- The first free after boot already fails: with two pages, the buddy of
the freed page is alone on its list, and the call never returns. -/
theorem twoPages_free_stuck :
    ∃ free, AllocRun .windowOnly twoPages twoPagesSplit [(0, 0)] ∧
      BuddyInv twoPagesSplit (usablePages twoPages) [(0, 0)] free ∧
      ¬ FreesBlock .windowOnly twoPagesSplit (usablePages twoPages) [(0, 0)] free (0, 0) := by
  obtain ⟨free, hinv⟩ := twoPagesSplit_run.inv twoPages_wellFormed
  refine ⟨free, twoPagesSplit_run, hinv, ?_⟩
  rintro ⟨fuel, s', free', hrun, _⟩
  have hsecond : ¬ StandsSecond twoPagesSplit (1, 0) := by
    unfold StandsSecond
    decide
  have hbuddy : (1, 0) ∈ mergedBuddies twoPagesSplit 10 0 0 := by decide
  have hstuck : pageAllocFree .windowOnly fuel twoPagesSplit 0 0 = none :=
    mergeAndPush_stuck .windowOnly fuel 10 rfl hinv ⟨(1, 0), hbuddy, hsecond⟩
  have hrun' : pageAllocFree .windowOnly fuel twoPagesSplit 0 0 = some (0, s') := hrun
  rw [hstuck] at hrun'
  simp at hrun'

end ZOs.PageAlloc
