import Mathlib.Data.Finset.Card
import Mathlib.Data.Finset.Range
import ZOs.Usb.Completions

/-!
# The pages of the DMA heap

`xhci_alloc_page` and `xhci_free_page` in any order. The search begins where
the last page was taken or freed, goes round the heap, and ends at a free
page or when it comes to a page for the second time.
-/

namespace ZOs.Xhci.Dma

open Jobs Runs

/-! ## The search -/

/-- The loop of `xhci_alloc_page` goes round a number of times, from what
it has checked and the index it is at, and ends at an index. -/
inductive Searches (allocated : Nat → Bool) : (Nat → Bool) → Nat → Nat → Nat → Prop
  | ends {checked pageIdx} : (allocated pageIdx && !checked pageIdx) = false →
      Searches allocated checked pageIdx 0 pageIdx
  | round {checked pageIdx rounds last} : (allocated pageIdx && !checked pageIdx) = true →
      Searches allocated (Function.update checked pageIdx true)
        (if pageIdx + 1 ≥ xhciHeapMaxPages then 0 else pageIdx + 1) rounds last →
      Searches allocated checked pageIdx (rounds + 1) last

/-- The pages that the loop has not checked. -/
def unchecked (checked : Nat → Bool) : Finset Nat :=
  (Finset.range xhciHeapMaxPages).filter fun i => checked i = false

theorem unchecked_update {checked : Nat → Bool} (pageIdx : Nat) :
    unchecked (Function.update checked pageIdx true) = (unchecked checked).erase pageIdx := by
  ext i
  by_cases hi : i = pageIdx
  · simp [unchecked, hi]
  · simp [unchecked, hi, Function.update_of_ne]

/-- Every round checks a page more. -/
theorem searches {allocated : Nat → Bool} {rounds : Nat} : ∀ {checked pageIdx},
    pageIdx < xhciHeapMaxPages → (unchecked checked).card ≤ rounds →
    ∃ n ≤ rounds, Searches allocated checked pageIdx n
      (searchPage allocated rounds checked pageIdx) := by
  induction rounds with
  | zero =>
    intro checked pageIdx hlt hcard
    have hnone : pageIdx ∉ unchecked checked := by
      rw [Finset.card_eq_zero.mp (Nat.le_zero.mp hcard)]
      exact Finset.notMem_empty _
    have hchecked : checked pageIdx = true := by simpa [unchecked, hlt] using hnone
    exact ⟨0, Nat.le_refl _, .ends (by simp [hchecked])⟩
  | succ rounds ih =>
    intro checked pageIdx hlt hcard
    unfold searchPage
    by_cases hgo : (allocated pageIdx && !checked pageIdx) = true
    · have hmem : pageIdx ∈ unchecked checked := by
        rw [Bool.and_eq_true, Bool.not_eq_true'] at hgo
        simp [unchecked, hlt, hgo.2]
      have hless : (unchecked (Function.update checked pageIdx true)).card ≤ rounds := by
        rw [unchecked_update, Finset.card_erase_of_mem hmem]
        omega
      have hnext : (if pageIdx + 1 ≥ xhciHeapMaxPages then 0 else pageIdx + 1) <
          xhciHeapMaxPages := by
        split <;> omega
      obtain ⟨n, hn, hsearch⟩ := ih hnext hless
      rw [if_pos hgo]
      exact ⟨n + 1, Nat.succ_le_succ hn, .round hgo hsearch⟩
    · rw [if_neg hgo]
      exact ⟨0, Nat.zero_le _, .ends (Bool.eq_false_iff.mpr hgo)⟩

/-! ## Runs -/

/-- The driver, and the pages that were obtained and not yet freed. -/
structure State where
  driver : Driver
  obtained : List AllocatedPage

inductive Action
  | alloc
  | free (page : AllocatedPage)

/-- The pages of a list that are not the one that is freed. -/
def remaining (page : AllocatedPage) (pages : List AllocatedPage) : List AllocatedPage :=
  pages.filter fun p => pageIndex p ≠ pageIndex page

/-- A call. A page that is freed need not have been obtained. -/
inductive Step (mmapVirtualToPhysical : Word → Option Word) : State → Action → State → Prop
  | alloc {d d' : Driver} {obtained : List AllocatedPage} {page : AllocatedPage} :
      xhciAllocPage mmapVirtualToPhysical d = some (page, d') →
      Step mmapVirtualToPhysical ⟨d, obtained⟩ .alloc ⟨d', page :: obtained⟩
  | allocFails {d : Driver} {obtained : List AllocatedPage} :
      xhciAllocPage mmapVirtualToPhysical d = none →
      Step mmapVirtualToPhysical ⟨d, obtained⟩ .alloc ⟨d, obtained⟩
  | free {d : Driver} {obtained : List AllocatedPage} {page : AllocatedPage} :
      Step mmapVirtualToPhysical ⟨d, obtained⟩ (.free page)
        ⟨xhciFreePage page d, remaining page obtained⟩

/-- The heap has been zeroed, and no page obtained. -/
structure Init (s : State) : Prop where
  free : ∀ i < xhciHeapMaxPages, s.driver.heapPageAllocated i = false
  last : s.driver.lastModifiedHeapPageIdx < xhciHeapMaxPages
  obtained : s.obtained = []

/-- The heap is mapped. -/
def HeapMapped (mmapVirtualToPhysical : Word → Option Word) : Prop :=
  ∀ i < xhciHeapMaxPages, (mmapVirtualToPhysical (pageAddress i)).isSome = true

/-- A page of the heap, with its physical address. -/
def InHeap (mmapVirtualToPhysical : Word → Option Word) (page : AllocatedPage) (i : Nat) : Prop :=
  i < xhciHeapMaxPages ∧ page.virtualAddress = pageAddress i ∧
    mmapVirtualToPhysical (pageAddress i) = some page.physicalAddress

/-- What the two calls do, and what it makes of the pages in use. -/
structure Laws (mmapVirtualToPhysical : Word → Option Word) (s : State) : Prop where
  terminates : ∃ rounds ≤ xhciHeapMaxPages, Searches s.driver.heapPageAllocated (fun _ => false)
    s.driver.lastModifiedHeapPageIdx rounds (searchPage s.driver.heapPageAllocated
      xhciHeapMaxPages (fun _ => false) s.driver.lastModifiedHeapPageIdx)
  succeeds_iff : (xhciAllocPage mmapVirtualToPhysical s.driver).isSome = true ↔
    ∃ i < xhciHeapMaxPages, s.driver.heapPageAllocated i = false
  alloc : ∀ page d, xhciAllocPage mmapVirtualToPhysical s.driver = some (page, d) →
    ∃ i, InHeap mmapVirtualToPhysical page i ∧ s.driver.heapPageAllocated i = false ∧
      page.virtualAddress ∉ s.obtained.map AllocatedPage.virtualAddress ∧
      d = { s.driver with
        heapPageAllocated := Function.update s.driver.heapPageAllocated i true
        lastModifiedHeapPageIdx := i }
  free : ∀ page, ∀ i < xhciHeapMaxPages, page.virtualAddress = pageAddress i →
    xhciFreePage page s.driver = { s.driver with
      heapPageAllocated := Function.update s.driver.heapPageAllocated i false
      lastModifiedHeapPageIdx := i }
  distinct : (s.obtained.map AllocatedPage.virtualAddress).Nodup
  inside : ∀ page ∈ s.obtained, ∃ i, InHeap mmapVirtualToPhysical page i
  allocated_iff : ∀ i < xhciHeapMaxPages, s.driver.heapPageAllocated i = true ↔
    ∃ page ∈ s.obtained, page.virtualAddress = pageAddress i

/-- What the laws rest on. -/
structure Inv (mmapVirtualToPhysical : Word → Option Word) (s : State) : Prop where
  last : s.driver.lastModifiedHeapPageIdx < xhciHeapMaxPages
  distinct : (s.obtained.map pageIndex).Nodup
  inside : ∀ page ∈ s.obtained, InHeap mmapVirtualToPhysical page (pageIndex page)
  allocated_iff : ∀ i < xhciHeapMaxPages, s.driver.heapPageAllocated i = true ↔
    i ∈ s.obtained.map pageIndex

section

variable {translate : Word → Option Word} {s s' : State} {action : Action} {d d' : Driver}
  {page : AllocatedPage} {obtained : List AllocatedPage} {i j : Nat}

/-- A call that returns a page. -/
theorem alloc_spec (h : xhciAllocPage translate d = some (page, d'))
    (hlast : d.lastModifiedHeapPageIdx < xhciHeapMaxPages) :
    InHeap translate page (pageIndex page) ∧ d.heapPageAllocated (pageIndex page) = false ∧
      d' = { d with
        heapPageAllocated := Function.update d.heapPageAllocated (pageIndex page) true
        lastModifiedHeapPageIdx := pageIndex page } := by
  have hlt : searchPage d.heapPageAllocated xhciHeapMaxPages (fun _ => false)
      d.lastModifiedHeapPageIdx < xhciHeapMaxPages := searchPage_lt hlast
  unfold xhciAllocPage at h
  dsimp only at h
  split at h
  · cases h
  · rename_i hfree
    split at h
    · cases h
    · rename_i physical hphysical
      cases h
      have hindex : pageIndex ⟨pageAddress _, physical⟩ = _ := pageIndex_pageAddress hlt rfl
      rw [hindex]
      exact ⟨⟨hlt, rfl, hphysical⟩, Bool.eq_false_iff.mpr hfree, rfl⟩

/-! ## Invariant -/

theorem mem_remaining : i ∈ (remaining page obtained).map pageIndex ↔
    i ∈ obtained.map pageIndex ∧ i ≠ pageIndex page := by
  simp only [remaining, List.mem_map, List.mem_filter, decide_eq_true_eq]
  constructor
  · rintro ⟨p, ⟨hp, hne⟩, rfl⟩
    exact ⟨⟨p, hp, rfl⟩, hne⟩
  · rintro ⟨⟨p, hp, rfl⟩, hne⟩
    exact ⟨p, ⟨hp, hne⟩, rfl⟩

/-- A free page was not obtained. -/
theorem Inv.not_obtained (h : Inv translate s) (hi : i < xhciHeapMaxPages)
    (hfree : s.driver.heapPageAllocated i = false) : i ∉ s.obtained.map pageIndex := by
  rw [← h.allocated_iff i hi, hfree]
  exact Bool.false_ne_true

theorem Inv.alloc (h : Inv translate ⟨d, obtained⟩)
    (hcall : xhciAllocPage translate d = some (page, d')) :
    Inv translate ⟨d', page :: obtained⟩ := by
  obtain ⟨hpage, hfree, rfl⟩ := alloc_spec hcall h.last
  have hnew : pageIndex page ∉ obtained.map pageIndex := h.not_obtained hpage.1 hfree
  refine ⟨hpage.1, List.nodup_cons.mpr ⟨hnew, h.distinct⟩, ?_, ?_⟩
  · exact List.forall_mem_cons.mpr ⟨hpage, h.inside⟩
  · intro i hi
    show Function.update d.heapPageAllocated (pageIndex page) true i = true ↔ _
    rw [List.map_cons, List.mem_cons]
    by_cases hsame : i = pageIndex page
    · simp [hsame]
    · have hold : d.heapPageAllocated i = true ↔ i ∈ obtained.map pageIndex :=
        h.allocated_iff i hi
      rw [Function.update_of_ne hsame, hold]
      simp [hsame]

theorem Inv.free (h : Inv translate ⟨d, obtained⟩) :
    Inv translate ⟨xhciFreePage page d, remaining page obtained⟩ := by
  have hdistinct : ((remaining page obtained).map pageIndex).Nodup :=
    h.distinct.sublist (List.filter_sublist.map pageIndex)
  have hinside : ∀ p ∈ remaining page obtained, InHeap translate p (pageIndex p) :=
    fun p hp => h.inside p (List.mem_of_mem_filter hp)
  unfold xhciFreePage
  split
  · rename_i hout
    -- no page that was obtained has an index outside of the heap
    refine ⟨h.last, hdistinct, hinside, fun i hi => ?_⟩
    rw [mem_remaining, and_iff_left (by omega)]
    exact h.allocated_iff i hi
  · rename_i hin
    refine ⟨Nat.lt_of_not_le hin, hdistinct, hinside, fun i hi => ?_⟩
    show Function.update d.heapPageAllocated (pageIndex page) false i = true ↔ _
    rw [mem_remaining]
    by_cases hsame : i = pageIndex page
    · simp [hsame]
    · rw [Function.update_of_ne hsame, and_iff_left hsame]
      exact h.allocated_iff i hi

theorem Inv.step (h : Inv translate s) (hstep : Step translate s action s') :
    Inv translate s' := by
  cases hstep with
  | alloc hcall => exact h.alloc hcall
  | allocFails => exact h
  | free => exact h.free

theorem Init.inv (h : Init s) : Inv translate s := by
  refine ⟨h.last, ?_, ?_, fun i hi => ?_⟩
  · simp [h.obtained]
  · simp [h.obtained]
  · simp [h.obtained, h.free i hi]

/-! ## Laws -/

/-- A page that was obtained is known by its address. -/
theorem Inv.obtained_iff (h : Inv translate s) (hi : i < xhciHeapMaxPages) :
    i ∈ s.obtained.map pageIndex ↔ ∃ page ∈ s.obtained, page.virtualAddress = pageAddress i := by
  rw [List.mem_map]
  constructor
  · rintro ⟨page, hpage, rfl⟩
    exact ⟨page, hpage, (h.inside page hpage).2.1⟩
  · rintro ⟨page, hpage, haddress⟩
    exact ⟨page, hpage, pageIndex_pageAddress hi haddress⟩

theorem Inv.succeeds_iff (h : Inv translate s) (hmapped : HeapMapped translate) :
    (xhciAllocPage translate s.driver).isSome = true ↔
      ∃ i < xhciHeapMaxPages, s.driver.heapPageAllocated i = false := by
  constructor
  · intro hsome
    obtain ⟨⟨page, d⟩, hcall⟩ := Option.isSome_iff_exists.mp hsome
    obtain ⟨hpage, hfree, _⟩ := alloc_spec hcall h.last
    exact ⟨_, hpage.1, hfree⟩
  · intro hfree
    obtain ⟨page, d, hcall⟩ := xhciAllocPage_isSome hmapped h.last hfree
    rw [hcall]
    rfl

theorem Inv.laws (h : Inv translate s) (hmapped : HeapMapped translate) : Laws translate s where
  terminates := searches h.last <| by
    have hle := Finset.card_filter_le (Finset.range xhciHeapMaxPages) fun _ => false = false
    rwa [Finset.card_range] at hle
  succeeds_iff := h.succeeds_iff hmapped
  alloc page d hcall := by
    obtain ⟨hpage, hfree, hd⟩ := alloc_spec hcall h.last
    refine ⟨_, hpage, hfree, ?_, hd⟩
    intro hmem
    obtain ⟨page', hpage', hsame⟩ := List.mem_map.mp hmem
    apply h.not_obtained hpage.1 hfree
    rw [h.obtained_iff hpage.1]
    exact ⟨page', hpage', hsame.trans hpage.2.1⟩
  free page i hi haddress := xhciFreePage_spec hi haddress
  distinct := by
    apply List.Nodup.of_map (fun address => pageIndex ⟨address, 0⟩)
    rw [List.map_map]
    exact h.distinct
  inside page hpage := ⟨_, h.inside page hpage⟩
  allocated_iff i hi := by
    rw [← h.obtained_iff hi]
    exact h.allocated_iff i hi

end

/-- After every run of the two calls on a mapped heap. -/
theorem dmaPages_laws (mmapVirtualToPhysical : Word → Option Word)
    (hmapped : HeapMapped mmapVirtualToPhysical) (history : List (State × Action)) (s : State)
    (hrun : Run Init (Step mmapVirtualToPhysical) history s) : Laws mmapVirtualToPhysical s := by
  have hinv : Inv mmapVirtualToPhysical s :=
    hrun.invariant (fun _ hinit => hinit.inv) fun _ _ _ hinv hstep => hinv.step hstep
  exact hinv.laws hmapped

/-- A heap that is mapped one to one, with all pages free. -/
def freeHeap : State where
  driver := ⟨fun _ => false, 0, fun _ => false, fun _ _ => .init (fun _ => zeroJob) 1⟩
  obtained := []

theorem freeHeap_init : Init freeHeap := ⟨fun _ _ => rfl, by decide, rfl⟩

/-- A page of it is taken. -/
theorem onePage_laws : ∃ page d, xhciAllocPage some freeHeap.driver = some (page, d) ∧
    Laws some ⟨d, [page]⟩ := by
  have hsome : (xhciAllocPage some freeHeap.driver).isSome = true := rfl
  obtain ⟨⟨page, d⟩, hcall⟩ := Option.isSome_iff_exists.mp hsome
  have hstep : Step some freeHeap .alloc ⟨d, [page]⟩ := .alloc hcall
  have hrun := Run.next (.start freeHeap_init) hstep
  exact ⟨page, d, hcall, dmaPages_laws some (fun _ _ => rfl) _ _ hrun⟩

end ZOs.Xhci.Dma
