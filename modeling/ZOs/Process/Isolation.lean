import ZOs.Process.MmapRuns
import ZOs.Process.Processes
import ZOs.Process.Separate

/-!
# Isolation of processes

Every page of memory has at most one use: it is a table of one process, it
was taken for one process, it is in the heap, or it can be shared. A ledger
says which, and a call only adds to it (`Accounts`). What is mapped in a
process is in the ledger as its own or as shared, so it is no table and not
in the heap, unless the loading of a file writes over a table.
-/

namespace ZOs.Processes

open Paging ProcessMemory Bytes Elf Attempt Runs
open Boot (IsTable)
open Ipc (handleTableGet)

/-! ## What the calls have done -/

/-- The process that a call takes pages for. -/
def Call.taker : Call → Option ProcessId
  | .init i _ _ => some i
  | .loadElf i _ _ _ => some i
  | .mmap i _ _ _ _ => some i
  | _ => none

/-- A call took the page from `page_alloc_block` for the process. -/
def TakenFor (history : List (Kernel × Call)) (i : ProcessId) (page : Word) : Prop :=
  ∃ q ∈ history, q.2.taker = some i ∧ some page ∈ q.1.blocks ∧
    ∀ k, exec q.1 q.2 = some k → some page ∉ k.blocks

/-- The call maps a page of the process. -/
def Maps (k : Kernel) (i : ProcessId) (number : Nat) : Call → Prop
  | .mmap j address length _ _ => j = i ∧ ∃ o start, k.processes j = some o ∧
      (k.process o).startAddress address = some start ∧ (regionOf start length).HasPage number
  | _ => False

/-- The page of the process that was mapped last at a page number is page `n` of
the object. -/
inductive SharedAt (i : ProcessId) (number : Nat) (object : SharedMemory) (n : Nat) :
    List (Kernel × Call) → Prop
  | here {history k o address length flags fd start} : k.processes i = some o →
      (k.process o).startAddress address = some start → flags &&& mapShared ≠ 0 →
      (k.process o).sharedMemory fd = some object → n < (countPages length).toNat →
      number = pageNumber (pageAt start n) →
      SharedAt i number object n ((k, .mmap i address length flags fd) :: history)
  | there {history k call} : SharedAt i number object n history → ¬Maps k i number call →
      SharedAt i number object n ((k, call) :: history)

/-- The object can be reached, by a path or by a descriptor. -/
def Kernel.HasObject (k : Kernel) (object : SharedMemory) : Prop :=
  (∃ path, k.pathTable path = some (.sharedMemory object)) ∨
    ∃ i o, k.processes i = some o ∧ some (.sharedMemory object) ∈ o.fdTable.handles

/-- A page that is mapped was taken for the process alone, or is the page of an
object that the process has mapped there. No table and no page of the heap is
mapped. The same page of an object is the same page everywhere. -/
structure Isolated (history : List (Kernel × Call)) (k : Kernel) : Prop where
  mapped : ∀ i x physicalAddress, k.translate i x = some physicalAddress →
    TakenFor history i (frame physicalAddress) ∨
      ∃ object n page, SharedAt i (pageNumber x) object n history ∧
        object.pages[n]? = some page ∧ frame physicalAddress = frame page
  alone : ∀ i page, TakenFor history i page → (∀ j, TakenFor history j page → j = i) ∧
    ∀ object, k.HasObject object → page ∉ object.pages.map frame
  apart : ∀ i x physicalAddress, k.translate i x = some physicalAddress →
    frame physicalAddress ∉ k.heap ∧
      ∀ j o, k.processes j = some o → frame physicalAddress ∉ o.obtained
  shared : ∀ i j x y object n, SharedAt i (pageNumber x) object n history →
    SharedAt j (pageNumber y) object n history →
    ∃ page, k.translate i x = some (page + pageOffset x) ∧
      k.translate j y = some (page + pageOffset y)

/-! ## Runs -/

/-- The pages that `page_alloc_block` has not given yet. -/
def Kernel.free (k : Kernel) : List Word :=
  k.answers.filter (· ≠ 0) ++ (k.blocks.filterMap id ++ k.heapBlocks)

/-- No process has been made. `page_alloc_block` gives usable pages of the
direct-map window, no page twice, and none that the heap has. -/
structure Initial (usable : Word → Prop) (k : Kernel) : Prop where
  processes : ∀ i, k.processes i = none
  pathTable : ∀ path object, k.pathTable path ≠ some (.sharedMemory object)
  page : ∀ page ∈ k.free, page.toNat % 4096 = 0 ∧ page.toNat < mmapPhysicalRegionSize
  usable : ∀ page ∈ k.free ++ k.heap, usable page
  once : (k.free ++ k.heap).Nodup

/-- The pages of a framebuffer are outside of usable memory. -/
def Outside (usable : Word → Prop) : Call → Prop
  | .createFromContiguousPages _ physicalStartAddress size _ =>
    ∀ page ∈ contiguousPages physicalStartAddress size, ¬usable (frame page)
  | _ => True

def Step (usable : Word → Prop) (k : Kernel) (call : Call) (k' : Kernel) : Prop :=
  exec k call = some k' ∧ Outside usable call

/-- No part of a file is put over the end of a page that has been mapped before. -/
def StaysInPages (k : Kernel) : Call → Prop
  | .loadElf i kmalloc _ file => ∀ o, k.processes i = some o →
      EndsInPages (k.process o) (reachedVisits kmalloc file)
  | _ => True

/-! ## The ledger -/

/-- What a page is used for. -/
inductive Use
  | table (i : ProcessId)
  | own (i : ProcessId)
  | heap
  | shared
  deriving DecidableEq

/-- The tables and the mapped pages of a process are in the ledger. -/
structure Accounted (use : Word → Option Use) (history : List (Kernel × Call)) (i : ProcessId)
    (o : Owned) (p : Process) : Prop where
  wellFormed : WellFormed p.pageTable
  pagesOnly : PagesOnly p.pageTable
  tables : ∀ page ∈ p.pageTable.obtained, use page = some (.table i)
  placed : ∀ entry ∈ p.mmapEntries, Placed entry
  mapped : ∀ x pa, p.pageTable.vmapVirtualToPhysical x = some pa →
    use (frame pa) = some (.own i) ∨
      ∃ object n page, SharedAt i (pageNumber x) object n history ∧
        some (.sharedMemory object) ∈ o.fdTable.handles ∧
        object.pages[n]? = some page ∧ frame pa = frame page
  shared : ∀ x object n, SharedAt i (pageNumber x) object n history →
    ∃ page, object.pages[n]? = some page ∧
      p.pageTable.vmapVirtualToPhysical x = some (frame page + pageOffset x)

/-- Every page that is used is in the ledger. -/
structure Accounts (usable : Word → Prop) (use : Word → Option Use)
    (history : List (Kernel × Call)) (k : Kernel) : Prop where
  free : ∀ page ∈ k.free,
    page.toNat % 4096 = 0 ∧ page.toNat < mmapPhysicalRegionSize ∧ use page = none
  once : k.free.Nodup
  device : ∀ page, ¬usable page → use page = some .shared
  heap : ∀ page ∈ k.heap, use page = some .heap
  objects : ∀ object, k.HasObject object → ∀ page ∈ object.pages, use (frame page) = some .shared
  taken : ∀ i page, TakenFor history i page ↔ use page = some (.own i)
  absent : ∀ i number object n, k.processes i = none → ¬SharedAt i number object n history
  process : ∀ i o, k.processes i = some o → Accounted use history i o (k.process o)

/-- The ledger after a call, which has used what is not free any more. -/
def enter (use : Word → Option Use) (k k' : Kernel) (assign : Word → Use) (page : Word) :
    Option Use :=
  if page ∈ k.free ∧ page ∉ k'.free then some (assign page) else use page

section
variable {usable : Word → Prop} {use use' : Word → Option Use} {history : List (Kernel × Call)}
  {k k' k₁ : Kernel} {call : Call} {i j : ProcessId} {o o' : Owned} {p p' : Process} {page x : Word}
  {number n : Nat} {object : SharedMemory} {assign : Word → Use}

theorem mem_free : page ∈ k.free ↔
    (page ∈ k.answers ∧ page ≠ 0) ∨ some page ∈ k.blocks ∨ page ∈ k.heapBlocks := by
  simp [Kernel.free]

/-- What is given to one purpose is not given to another one. -/
theorem Accounts.not_block (h : Accounts usable use history k) (hanswer : page ∈ k.answers)
    (hne : page ≠ 0) : some page ∉ k.blocks := by
  intro hblock
  have hmem : page ∈ k.answers.filter (· ≠ 0) := List.mem_filter.mpr ⟨hanswer, decide_eq_true hne⟩
  have hmem' : page ∈ k.blocks.filterMap id ++ k.heapBlocks := by simp [hblock]
  exact (List.nodup_append.mp h.once).2.2 page hmem page hmem' rfl

theorem Accounts.not_heapBlock (h : Accounts usable use history k) (hblock : some page ∈ k.blocks) :
    page ∉ k.heapBlocks := by
  have hmem : page ∈ k.blocks.filterMap id := List.mem_filterMap.mpr ⟨some page, hblock, rfl⟩
  exact fun hheap => (List.nodup_append.mp (List.nodup_append.mp h.once).2.1).2.2 page hmem page
    hheap rfl

theorem Accounts.block_once (h : Accounts usable use history k) :
    (k.blocks.filterMap id).Nodup :=
  (List.nodup_append.mp (List.nodup_append.mp h.once).2.1).1

theorem Accounts.block (h : Accounts usable use history k) (hblock : some page ∈ k.blocks) :
    page.toNat % 4096 = 0 ∧ page.toNat < mmapPhysicalRegionSize ∧ use page = none :=
  h.free page (mem_free.mpr (.inr (.inl hblock)))

theorem Accounts.frame_block (h : Accounts usable use history k) (hblock : some page ∈ k.blocks) :
    frame page = page := by
  obtain ⟨haligned, hlt, -⟩ := h.block hblock
  have hsize : mmapPhysicalRegionSize = 2 ^ 34 := rfl
  exact frame_of_aligned haligned (by omega)

/-- The tables of a process get free pages only. -/
theorem freshAnswers (hfree : ∀ page ∈ k.free,
      page.toNat % 4096 = 0 ∧ page.toNat < mmapPhysicalRegionSize ∧ use page = none)
    (honce : k.free.Nodup) (htables : ∀ page ∈ o.obtained, use page = some (.table i)) :
    FreshAnswers (k.process o).pageTable where
  page page hanswer hne := by
    obtain ⟨haligned, hlt, hnone⟩ := hfree page (mem_free.mpr (.inl ⟨hanswer, hne⟩))
    have hsize : mmapPhysicalRegionSize = 2 ^ 34 := rfl
    refine ⟨⟨hne, haligned, by omega⟩, fun hobtained => ?_⟩
    cases hnone.symm.trans (htables page hobtained)
  once := (List.nodup_append.mp honce).1

/-! ### A process beside the call -/

theorem SharedAt.old (h : SharedAt i number object n ((k, call) :: history))
    (hmaps : ¬Maps k i number call) : SharedAt i number object n history := by
  cases h with
  | here hprocess hstart _ _ hn hnumber =>
    exact absurd ⟨rfl, _, _, hprocess, hstart, _, hn, hnumber⟩ hmaps
  | there h _ => exact h

/-- The tables of the process are as they were. -/
theorem Accounted.untouched (h : Accounted use history i o p)
    (hgrows : ∀ page, use page ≠ none → use' page = use page)
    (htables : SameTables p.pageTable p'.pageTable) (hanswers : FreshAnswers p'.pageTable)
    (hentries : p'.mmapEntries = p.mmapEntries) (hhandles : o.fdTable.handles ⊆ o'.fdTable.handles)
    (hmaps : ∀ number, ¬Maps k i number call) :
    Accounted use' ((k, call) :: history) i o' p' where
  wellFormed := htables.wellFormed h.wellFormed hanswers
  pagesOnly := htables.pagesOnly h.wellFormed h.pagesOnly
  tables page hpage := by
    have htable := h.tables page (htables.obtained ▸ hpage)
    rw [hgrows page (by rw [htable]; exact Option.some_ne_none _), htable]
  placed := hentries ▸ h.placed
  mapped x pa hx := by
    rw [htables.translate h.wellFormed] at hx
    rcases h.mapped x pa hx with hown | ⟨object, n, page, hshared, hobject, hpage, hframe⟩
    · left
      rw [hgrows _ (by rw [hown]; exact Option.some_ne_none _), hown]
    · exact .inr ⟨object, n, page, .there hshared (hmaps _), hhandles hobject, hpage, hframe⟩
  shared x object n hshared := by
    rw [htables.translate h.wellFormed]
    exact h.shared x object n (hshared.old (hmaps _))

/-! ### The process of the call -/

/-- Objects that a process has a descriptor of can be reached. -/
def Reaches (k : Kernel) (o : Owned) : Prop :=
  ∀ object, some (.sharedMemory object) ∈ o.fdTable.handles → k.HasObject object

theorem reaches_of_process (ho : k.processes i = some o) : Reaches k o :=
  fun _ hobject => .inr ⟨i, o, ho, hobject⟩

/-- A page that is mapped in a process is in the ledger as its own or as shared. -/
theorem Accounts.used {pa : Word} (h : Accounts usable use history k)
    (ho : Accounted use history i o (k.process o)) (hreaches : Reaches k o)
    (hx : (k.process o).pageTable.vmapVirtualToPhysical x = some pa) :
    use (frame pa) = some (.own i) ∨ use (frame pa) = some .shared := by
  rcases ho.mapped x pa hx with hown | ⟨object, n, page, -, hobject, hpage, heq⟩
  · exact .inl hown
  · exact .inr (heq ▸ h.objects object (hreaches object hobject) page
      (List.mem_of_getElem? hpage))

theorem Accounts.separate (h : Accounts usable use history k)
    (ho : Accounted use history i o (k.process o)) (hreaches : Reaches k o) :
    Separate (k.process o) where
  wellFormed := ho.wellFormed
  pagesOnly := ho.pagesOnly
  block page hblock := by
    refine ⟨h.frame_block hblock, ?_⟩
    obtain ⟨-, -, hnone⟩ := h.block hblock
    rintro (hobtained | ⟨hanswer, hne⟩)
    · cases hnone.symm.trans (ho.tables page hobtained)
    · exact h.not_block hanswer hne hblock
  once := h.block_once
  mapped x pa hx := by
    have hused := h.used ho hreaches hx
    rintro (hobtained | ⟨hanswer, hne⟩)
    · have htable : use (frame pa) = some (.table i) := ho.tables _ hobtained
      rw [htable] at hused
      rcases hused with hused | hused <;> cases hused
    · obtain ⟨-, -, hnone⟩ := h.free _ (mem_free.mpr (.inl ⟨hanswer, hne⟩))
      rw [hnone] at hused
      rcases hused with hused | hused <;> cases hused

/-- A process that has just been made has nothing. -/
theorem Accounts.new (h : Accounts usable use history k) (hnone : k.processes i = none) :
    Accounted use history i .new (k.process .new) := by
  have hanswers : FreshAnswers (k.process .new).pageTable :=
    freshAnswers (i := i) h.free h.once fun _ hpage => (nomatch hpage)
  have hempty : EmptyRoot (k.process .new).pageTable := ⟨rfl, rfl, hanswers⟩
  exact
    { wellFormed := hempty.wellFormed
      pagesOnly := hempty.pagesOnly
      tables := fun _ hpage => (nomatch hpage)
      placed := fun _ hentry => (nomatch hentry)
      mapped := fun _ _ hx => (nomatch hx)
      shared := fun x object n hshared => absurd hshared (h.absent i _ object n hnone) }

/-- What is in the descriptor table of a process can be reached. -/
theorem mem_handles_of_fdTable {fd : Int}
    (hfile : (k.process o).fdTable fd = some (.sharedMemory object)) :
    some (.sharedMemory object) ∈ o.fdTable.handles := by
  have hget : (handleTableGet o.fdTable (BitVec.ofInt 64 fd)).join =
    some (.sharedMemory object) := hfile
  obtain ⟨entry, hget, rfl⟩ : ∃ entry, handleTableGet o.fdTable (BitVec.ofInt 64 fd) = some entry ∧
      entry = some (.sharedMemory object) := by
    rw [Option.join_eq_some_iff] at hget
    exact ⟨_, hget, rfl⟩
  unfold handleTableGet at hget
  split at hget
  · cases hget
  split at hget
  · cases hget
  · exact List.mem_of_getElem? hget

/-- The invariant of `process_mmap` holds of every process. -/
theorem Accounts.inv (h : Accounts usable use history k) (ho : k.processes i = some o) :
    ProcessMemory.Inv (k.process o) where
  wellFormed := (h.process i o ho).wellFormed
  pagesOnly := (h.process i o ho).pagesOnly
  placed := (h.process i o ho).placed
  promise :=
    { answers := freshAnswers h.free h.once (h.process i o ho).tables
      page := fun page hblock => ⟨(h.block hblock).1, (h.block hblock).2.1⟩
      once := h.block_once
      mapped := by
        intro x pa hx hblock
        obtain ⟨-, -, hnone⟩ := h.block hblock
        rcases h.used (h.process i o ho) (reaches_of_process ho) hx with hused | hused
        · cases hnone.symm.trans hused
        · cases hnone.symm.trans hused
      objects := by
        intro fd object hfile page hpage hblock
        have hobject := mem_handles_of_fdTable hfile
        have hshared := h.objects object (.inr ⟨i, o, ho, hobject⟩) page hpage
        obtain ⟨-, -, hnone⟩ := h.block hblock
        cases hnone.symm.trans hshared }

/-! ### Steps -/

theorem takenFor_cons (hexec : exec k call = some k') :
    TakenFor ((k, call) :: history) i page ↔ TakenFor history i page ∨
      call.taker = some i ∧ some page ∈ k.blocks ∧ some page ∉ k'.blocks := by
  unfold TakenFor
  constructor
  · rintro ⟨q, hq, htaker, hblock, hnot⟩
    rcases List.mem_cons.mp hq with rfl | hq
    · exact .inr ⟨htaker, hblock, hnot k' hexec⟩
    · exact .inl ⟨q, hq, htaker, hblock, hnot⟩
  · rintro (⟨q, hq, hrest⟩ | ⟨htaker, hblock, hnot⟩)
    · exact ⟨q, List.mem_cons_of_mem _ hq, hrest⟩
    · refine ⟨(k, call), List.mem_cons_self, htaker, hblock, fun k'' hexec' => ?_⟩
      cases hexec.symm.trans hexec'
      exact hnot

/-- What a call has done with the pages that were free. -/
structure Uses (usable : Word → Prop) (k : Kernel) (call : Call) (k' : Kernel)
    (assign : Word → Use) : Prop where
  answers : k'.answers <:+ k.answers
  blocks : k'.blocks <:+ k.blocks
  heapBlocks : k'.heapBlocks <:+ k.heapBlocks
  heap : ∀ page ∈ k'.heap, page ∈ k.heap ∨
    page ∈ k.free ∧ page ∉ k'.free ∧ assign page = .heap
  objects : ∀ object, k'.HasObject object → k.HasObject object ∨ ∀ page ∈ object.pages,
    ¬usable (frame page) ∨
      frame page ∈ k.free ∧ frame page ∉ k'.free ∧ assign (frame page) = .shared
  taken : ∀ i page, page ∈ k.free → page ∉ k'.free →
    (assign page = .own i ↔ call.taker = some i ∧ some page ∈ k.blocks)
  present : ∀ i, k'.processes i = none → k.processes i = none

theorem Uses.free (h : Uses usable k call k' assign) : k'.free.Sublist k.free :=
  (h.answers.sublist.filter _).append
    ((h.blocks.sublist.filterMap id).append h.heapBlocks.sublist)

/-- What is used already stays so. -/
theorem Accounts.grows (h : Accounts usable use history k) (k' : Kernel) (assign : Word → Use)
    (page : Word) (hused : use page ≠ none) : enter use k k' assign page = use page :=
  if_neg fun hnew => hused (h.free page hnew.1).2.2

theorem Accounts.enter_free (h : Accounts usable use history k)
    (huses : Uses usable k call k' assign) : ∀ page ∈ k'.free,
      page.toNat % 4096 = 0 ∧ page.toNat < mmapPhysicalRegionSize ∧
        enter use k k' assign page = none := by
  intro page hpage
  obtain ⟨haligned, hlt, hnone⟩ := h.free page (huses.free.subset hpage)
  refine ⟨haligned, hlt, ?_⟩
  unfold enter
  rw [if_neg fun hnew => hnew.2 hpage, hnone]

/-- The ledger is kept by a call if it is for each process. -/
theorem Accounts.step (h : Accounts usable use history k) (hexec : exec k call = some k')
    (huses : Uses usable k call k' assign)
    (hprocess : ∀ i o, k'.processes i = some o →
      Accounted (enter use k k' assign) ((k, call) :: history) i o (k'.process o)) :
    Accounts usable (enter use k k' assign) ((k, call) :: history) k' := by
  have hgrows := h.grows k' assign
  have hgrow {page : Word} {u : Use} (hu : use page = some u) :
      enter use k k' assign page = some u := by
    rw [hgrows page (by rw [hu]; exact Option.some_ne_none _), hu]
  refine
    { free := h.enter_free huses
      once := h.once.sublist huses.free
      device := fun page hpage => hgrow (h.device page hpage)
      heap := ?_
      objects := ?_
      taken := ?_
      absent := ?_
      process := hprocess }
  · intro page hpage
    rcases huses.heap page hpage with hold | ⟨hfree, hnot, hassign⟩
    · exact hgrow (h.heap page hold)
    · exact (if_pos ⟨hfree, hnot⟩).trans (congrArg some hassign)
  · intro object hobject page hpage
    rcases huses.objects object hobject with hold | hnew
    · exact hgrow (h.objects object hold page hpage)
    · rcases hnew page hpage with hdevice | ⟨hfree, hnot, hassign⟩
      · exact hgrow (h.device _ hdevice)
      · exact (if_pos ⟨hfree, hnot⟩).trans (congrArg some hassign)
  · intro i page
    rw [takenFor_cons hexec, h.taken]
    unfold enter
    by_cases hnew : page ∈ k.free ∧ page ∉ k'.free
    · rw [if_pos hnew, (h.free page hnew.1).2.2, Option.some_inj, huses.taken i page hnew.1 hnew.2]
      have hnot : some page ∉ k'.blocks := fun hmem => hnew.2 (mem_free.mpr (.inr (.inl hmem)))
      simp [hnot]
    · rw [if_neg hnew]
      refine or_iff_left ?_
      rintro ⟨-, hblock, hnot⟩
      have hfree : page ∈ k.free := mem_free.mpr (.inr (.inl hblock))
      refine hnew ⟨hfree, fun hmem => ?_⟩
      rcases mem_free.mp hmem with ⟨hanswer, hne⟩ | hblock' | hheap
      · exact h.not_block (huses.answers.subset hanswer) hne hblock
      · exact hnot hblock'
      · exact h.not_heapBlock hblock (huses.heapBlocks.subset hheap)
  · intro i number object n hnone hshared
    have hnone := huses.present i hnone
    cases hshared with
    | here ho => cases hnone.symm.trans ho
    | there hshared => exact h.absent i number object n hnone hshared

/-! ### Calls on a process -/

theorem inPage_aligned {page' : Word} {c : Nat} (haligned : page.toNat % 4096 = 0)
    (haligned' : page'.toNat % 4096 = 0) (h : InPage page c) (h' : InPage page' c) :
    page = page' := by
  obtain ⟨hlo, hhi⟩ := h
  obtain ⟨hlo', hhi'⟩ := h'
  apply BitVec.eq_of_toNat_eq
  omega

theorem Accounts.not_answer (h : Accounts usable use history k) (hheap : page ∈ k.heapBlocks)
    (hne : page ≠ 0) : page ∉ k.answers := by
  intro hanswer
  have hmem : page ∈ k.answers.filter (· ≠ 0) := List.mem_filter.mpr ⟨hanswer, decide_eq_true hne⟩
  exact (List.nodup_append.mp h.once).2.2 page hmem page (List.mem_append_right _ hheap) rfl

/-- A call on a process keeps the ledger, if what it maps is in the ledger. -/
theorem Accounts.keep (h : Accounts usable use history k)
    (hexec : exec k call = some (k.keep i o p')) (htaker : call.taker = some i)
    (hmoved : Moved (k.process o) p') (hobtained : ∀ page ∈ o.obtained, use page = some (.table i))
    (hreaches : Reaches k o)
    (hplaced : ∀ entry ∈ p'.mmapEntries, Placed entry)
    (hmaps : ∀ j number, j ≠ i → ¬Maps k j number call)
    (hmapped : ∀ x pa, p'.pageTable.vmapVirtualToPhysical x = some pa →
      some (frame pa) ∈ k.blocks ∧ some (frame pa) ∉ p'.blocks ∨ use (frame pa) = some (.own i) ∨
        ∃ object n page, SharedAt i (pageNumber x) object n ((k, call) :: history) ∧
          some (.sharedMemory object) ∈ o.fdTable.handles ∧
          object.pages[n]? = some page ∧ frame pa = frame page)
    (hshared : ∀ x object n, SharedAt i (pageNumber x) object n ((k, call) :: history) →
      ∃ page, object.pages[n]? = some page ∧
        p'.pageTable.vmapVirtualToPhysical x = some (frame page + pageOffset x)) :
    ∃ use', Accounts usable use' ((k, call) :: history) (k.keep i o p') := by
  let k' := k.keep i o p'
  let assign (page : Word) : Use := if some page ∈ k.blocks then .own i else .table i
  have huses : Uses usable k call k' assign := by
    refine ⟨hmoved.answers, hmoved.blocks, List.suffix_refl _, fun _ hpage => .inl hpage, ?_,
      ?_, ?_⟩
    · rintro object (hpath | ⟨j, o', ho', hobject⟩)
      · exact .inl (.inl hpath)
      · by_cases hj : j = i
        · subst hj
          cases (Function.update_self ..).symm.trans ho'
          exact .inl (hreaches object hobject)
        · exact .inl (.inr ⟨j, o', (Function.update_of_ne hj ..).symm.trans ho', hobject⟩)
    · intro j page _ _
      rw [htaker]
      by_cases hblock : some page ∈ k.blocks
      · simp [assign, hblock]
      · simp [assign, hblock]
    · intro j hnone
      by_cases hj : j = i
      · subst hj
        cases (Function.update_self ..).symm.trans hnone
      · exact (Function.update_of_ne hj ..).symm.trans hnone
  have hgrows := h.grows k' assign
  have hgrow {page : Word} {u : Use} (hu : use page = some u) :
      enter use k k' assign page = some u := by
    rw [hgrows page (by rw [hu]; exact Option.some_ne_none _), hu]
  -- the tables of the process and what it maps
  have htables : ∀ page ∈ p'.pageTable.obtained, enter use k k' assign page = some (.table i) := by
    intro page hpage
    rcases hmoved.source page hpage with hold | hanswer
    · exact hgrow (hobtained page hold)
    · have hanswer : page ∈ k.answers := hanswer
      have hne := (hmoved.wellFormed.page hpage).nonzero
      have hblock := h.not_block hanswer hne
      have hleft : page ∉ k'.free := by
        intro hfree
        rcases mem_free.mp hfree with ⟨hanswer', -⟩ | hblock' | hheap
        · exact (hmoved.wellFormed.answers.page page hanswer' hne).2 hpage
        · exact hblock (hmoved.blocks.subset hblock')
        · exact h.not_answer hheap hne hanswer
      refine (if_pos ⟨mem_free.mpr (.inl ⟨hanswer, hne⟩), hleft⟩).trans ?_
      simp [assign, hblock]
  have howned : ∀ x pa, p'.pageTable.vmapVirtualToPhysical x = some pa →
      enter use k k' assign (frame pa) = some (.own i) ∨
        ∃ object n page, SharedAt i (pageNumber x) object n ((k, call) :: history) ∧
          some (.sharedMemory object) ∈ o.fdTable.handles ∧
          object.pages[n]? = some page ∧ frame pa = frame page := by
    intro x pa hx
    rcases hmapped x pa hx with ⟨hblock, hnot⟩ | hown | hshared
    · have hleft : frame pa ∉ k'.free := by
        intro hfree
        rcases mem_free.mp hfree with ⟨hanswer, hne⟩ | hblock' | hheap
        · exact h.not_block (hmoved.answers.subset hanswer) hne hblock
        · exact hnot hblock'
        · exact h.not_heapBlock hblock hheap
      left
      refine (if_pos ⟨mem_free.mpr (.inr (.inl hblock)), hleft⟩).trans ?_
      simp [assign, hblock]
    · exact .inl (hgrow hown)
    · exact .inr hshared
  refine ⟨_, h.step hexec huses fun j oj hoj => ?_⟩
  by_cases hj : j = i
  · subst hj
    cases (Function.update_self ..).symm.trans hoj
    exact
      { wellFormed := hmoved.wellFormed
        pagesOnly := hmoved.pagesOnly
        tables := htables
        placed := hplaced
        mapped := howned
        shared := hshared }
  · have hold : k.processes j = some oj := (Function.update_of_ne hj ..).symm.trans hoj
    have haccounted := h.process j oj hold
    have hanswers : FreshAnswers (k'.process oj).pageTable :=
      freshAnswers (h.enter_free huses) (h.once.sublist huses.free)
        fun page hpage => hgrow (haccounted.tables page hpage)
    refine haccounted.untouched hgrows ⟨rfl, rfl, ?_⟩ hanswers rfl (List.Subset.refl _)
      fun number => hmaps j number hj
    -- no table of another process is one of this process, or mapped in it
    intro table htable c hin
    have htable' := hgrow (haccounted.tables table htable)
    have haligned := (haccounted.wellFormed.page htable).aligned
    refine hmoved.memory c (fun page hpage hin' => ?_) fun x pa hx hin' => ?_
    · have heq := inPage_aligned haligned (hmoved.wellFormed.page hpage).aligned hin hin'
      rw [← heq] at hpage
      cases htable'.symm.trans (htables table hpage)
      exact hj rfl
    · have heq := inPage_aligned haligned (frame_aligned pa) hin hin'
      rw [heq] at htable'
      rcases howned x pa hx with hown | ⟨object, n, page, -, hobject, hpage, hframe⟩
      · cases htable'.symm.trans hown
      · have hused := hgrow (h.objects object (hreaches object hobject) page
          (List.mem_of_getElem? hpage))
        rw [← hframe] at hused
        cases htable'.symm.trans hused

/-- A call that loads pages. -/
theorem Accounts.load (h : Accounts usable use history k)
    (hexec : exec k call = some (k.keep i o p')) (htaker : call.taker = some i)
    (ho : Accounted use history i o (k.process o)) (hreaches : Reaches k o)
    (hmaps : ∀ j number, ¬Maps k j number call) (hextends : Extends (k.process o) p') :
    ∃ use', Accounts usable use' ((k, call) :: history) (k.keep i o p') := by
  refine h.keep hexec htaker hextends.toMoved ho.tables hreaches ?_
    (fun j number _ => hmaps j number)
    ?_ ?_
  · rw [hextends.mmapEntries]
    exact ho.placed
  · intro x pa hx
    rcases hextends.added x pa hx with hold | hnew
    · rcases ho.mapped x pa hold with hown | ⟨object, n, page, hshared, hrest⟩
      · exact .inr (.inl hown)
      · exact .inr (.inr ⟨object, n, page, .there hshared (hmaps i _), hrest⟩)
    · exact .inl hnew
  · intro x object n hshared
    obtain ⟨page, hpage, hx⟩ := ho.shared x object n (hshared.old (hmaps i _))
    exact ⟨page, hpage, hextends.kept x _ hx⟩

theorem Accounts.processInit {fdTable : Bool} {stack : Nat → Bool}
    (h : Accounts usable use history k) (hexec : exec k (.init i fdTable stack) = some k') :
    ∃ use', Accounts usable use' ((k, .init i fdTable stack) :: history) k' := by
  obtain ⟨⟨result, k₁⟩, hcall, rfl⟩ := Option.map_eq_some_iff.mp hexec
  unfold Kernel.processInit at hcall
  split at hcall
  · cases hcall
  rename_i hnone
  have hnew := h.new hnone
  have hreaches : Reaches k .new := fun _ hobject => (nomatch hobject)
  have hseparate := h.separate hnew hreaches
  split at hcall
  · cases hcall
    exact h.load hexec rfl hnew hreaches (fun _ _ hmaps => hmaps)
      (allocateStack_loads (l := ⟨k.process .new, []⟩) stack hseparate).toExtends
  · cases hcall
    have hkept : exec k (.init i fdTable stack) = some (k.keep i .new (k.process .new)) := hexec
    exact h.load hkept rfl hnew hreaches (fun _ _ hmaps => hmaps) (.refl hseparate)

theorem Accounts.processLoadElf {kmalloc : Nat → Nat → Bool} {mainThread : Bool} {file : Buffer}
    (h : Accounts usable use history k)
    (hexec : exec k (.loadElf i kmalloc mainThread file) = some k')
    (hstays : StaysInPages k (.loadElf i kmalloc mainThread file)) :
    ∃ use', Accounts usable use' ((k, .loadElf i kmalloc mainThread file) :: history) k' := by
  obtain ⟨⟨result, k₁⟩, hcall, rfl⟩ := Option.map_eq_some_iff.mp hexec
  obtain ⟨o, ho, heq⟩ := Option.map_eq_some_iff.mp hcall
  cases heq
  have hreaches := reaches_of_process ho
  have haccounted := h.process i o ho
  exact h.load hexec rfl haccounted hreaches (fun _ _ hmaps => hmaps)
    (processLoadElf_loads (l := ⟨k.process o, []⟩) kmalloc mainThread
      (h.separate haccounted hreaches) (hstays o ho)).toExtends

/-- What `process_mmap` leaves to others. -/
theorem Mmapped.moved {address length flags start : Word} {fd : Int}
    (hmmap : ProcessMemory.Mmapped p address length flags fd start p') : Moved p p' := by
  obtain ⟨pages, -, hmapped, -⟩ := hmmap.pages
  exact
    { wellFormed := hmapped.wellFormed
      pagesOnly := hmapped.pagesOnly
      answers := hmapped.recorded.answers
      obtained := hmapped.recorded.obtained
      source := hmapped.recorded.source
      blocks := hmmap.blocks
      memory := fun c htables _ => hmapped.recorded.outside hmapped.toKept htables }

theorem Accounts.processMmap {address length flags : Word} {fd : Int}
    (h : Accounts usable use history k)
    (hexec : exec k (.mmap i address length flags fd) = some k') :
    ∃ use', Accounts usable use' ((k, .mmap i address length flags fd) :: history) k' := by
  obtain ⟨⟨start, k₁⟩, hcall, rfl⟩ := Option.map_eq_some_iff.mp hexec
  obtain ⟨o, ho, hcall⟩ := Option.bind_eq_some_iff.mp hcall
  obtain ⟨⟨start', p'⟩, hmmap, heq⟩ := Option.bind_eq_some_iff.mp hcall
  cases heq
  have hinv := h.inv ho
  have hmapped := processMmap_spec hinv hmmap
  have haccounted := h.process i o ho
  have hmaps (number : Nat) : Maps k i number (.mmap i address length flags fd) ↔
      (regionOf start length).HasPage number := by
    constructor
    · rintro ⟨-, o', start', ho', hstart', hpage⟩
      cases ho.symm.trans ho'
      cases hmapped.startAddress.symm.trans hstart'
      exact hpage
    · exact fun hpage => ⟨rfl, o, start, ho, hmapped.startAddress, hpage⟩
  refine h.keep hexec rfl (Mmapped.moved hmapped) haccounted.tables (reaches_of_process ho) ?_
    (fun j number hj hmaps => hj hmaps.1.symm) ?_ ?_
  · exact (hinv.mmap hmmap).placed
  · intro x pa hx
    by_cases hin : (regionOf start length).HasPage (pageNumber x)
    · obtain ⟨n, hn, hnumber⟩ := hin
      obtain ⟨page, hpage, htranslate⟩ := hmapped.inside hn
      cases hx.symm.trans (htranslate x hnumber)
      have hnot := hmapped.notMem_blocks hinv.promise hn hpage
      rw [frame_add]
      unfold Process.PageFor at hpage
      split at hpage
      · rename_i hflag
        obtain ⟨object, hobject, hget⟩ := hpage
        exact .inr (.inr ⟨object, n, page, .here ho hmapped.startAddress hflag hobject hn hnumber,
          mem_handles_of_fdTable (Process.sharedMemory_fdTable hobject), hget, rfl⟩)
      · have hblock : some page ∈ k.blocks := List.mem_of_getElem? hpage
        rw [h.frame_block hblock] at hnot ⊢
        exact .inl ⟨hblock, hnot⟩
    · have hout := hmapped.outside hin
      rw [hout] at hx
      rcases haccounted.mapped x pa hx with hown | ⟨object, n, page, hshared, hrest⟩
      · exact .inr (.inl hown)
      · exact .inr (.inr ⟨object, n, page, .there hshared (fun hmem => hin ((hmaps _).mp hmem)),
          hrest⟩)
  · intro x object n hshared
    cases hshared with
    | here ho' hstart' hflag hobject hn hnumber =>
      cases ho.symm.trans ho'
      cases hmapped.startAddress.symm.trans hstart'
      obtain ⟨page, hpage, htranslate⟩ := hmapped.inside hn
      unfold Process.PageFor at hpage
      rw [if_pos hflag] at hpage
      obtain ⟨object', hobject', hget⟩ := hpage
      cases hobject.symm.trans hobject'
      exact ⟨page, hget, htranslate x hnumber⟩
    | there hshared hnot =>
      rw [hmapped.outside fun hin => hnot ((hmaps _).mpr hin)]
      exact haccounted.shared x object n hshared

/-! ### Calls beside the tables -/

/-- The process is as it was, but for new descriptors. -/
structure Kept (k k' : Kernel) (o o' : Owned) : Prop where
  tables : SameTables (k.process o).pageTable (k'.process o').pageTable
  mmapEntries : o'.mmapEntries = o.mmapEntries
  handles : o.fdTable.handles ⊆ o'.fdTable.handles

theorem Accounts.others (h : Accounts usable use history k) (hexec : exec k call = some k')
    (huses : Uses usable k call k' assign) (hmaps : ∀ j number, ¬Maps k j number call)
    (hkept : ∀ j o', k'.processes j = some o' → ∃ o, k.processes j = some o ∧ Kept k k' o o') :
    ∃ use', Accounts usable use' ((k, call) :: history) k' := by
  have hgrows := h.grows k' assign
  refine ⟨_, h.step hexec huses fun j o' ho' => ?_⟩
  obtain ⟨o, ho, htables, hentries, hhandles⟩ := hkept j o' ho'
  have haccounted := h.process j o ho
  refine haccounted.untouched hgrows htables ?_ hentries hhandles fun number => hmaps j number
  refine freshAnswers (i := j) (h.enter_free huses) (h.once.sublist huses.free) fun page hpage => ?_
  have hold := haccounted.tables page (htables.obtained ▸ hpage)
  rw [hgrows page (by rw [hold]; exact Option.some_ne_none _), hold]

/-- A call that takes nothing for a process. -/
theorem not_taken (htaker : call.taker = none) (i : ProcessId) (page : Word) {u : Use}
    (hu : u ≠ .own i) : u = .own i ↔ call.taker = some i ∧ some page ∈ k.blocks := by
  rw [htaker]
  exact ⟨fun heq => absurd heq hu, fun hboth => nomatch hboth.1⟩

theorem translate_eq_some {pa : Word} : k.translate i x = some pa ↔
    ∃ o, k.processes i = some o ∧ (k.process o).pageTable.vmapVirtualToPhysical x = some pa :=
  Option.bind_eq_some_iff

/-- A translated address is in its page. -/
theorem Accounts.inPage {pa : Word} (h : Accounts usable use history k)
    (hx : k.translate i x = some pa) : InPage (frame pa) pa.toNat := by
  obtain ⟨o, ho, hx⟩ := translate_eq_some.mp hx
  obtain ⟨htoNat, hlt⟩ := translate_frame (h.process i o ho).pagesOnly hx
  exact ⟨by omega, by omega⟩

theorem Accounts.store {b : Byte} (h : Accounts usable use history k)
    (hexec : exec k (.store i x b) = some k') :
    ∃ use', Accounts usable use' ((k, .store i x b) :: history) k' := by
  obtain ⟨o, ho, hcall⟩ := Option.bind_eq_some_iff.mp hexec
  obtain ⟨pa, hx, heq⟩ := Option.bind_eq_some_iff.mp hcall
  cases heq
  have huses : Uses usable k (.store i x b) { k with memory := writeByte k.memory pa.toNat b }
      fun _ => .heap :=
    ⟨List.suffix_refl _, List.suffix_refl _, List.suffix_refl _, fun _ hpage => .inl hpage,
      fun _ hobject => .inl hobject, fun i page _ hnot => absurd ‹_› hnot, fun _ hnone => hnone⟩
  refine h.others hexec huses (fun _ _ hmaps => hmaps) fun j o' ho' => ⟨o', ho', ?_⟩
  refine ⟨⟨rfl, rfl, fun table htable c hin => writeByte_of_ne ?_⟩, rfl, List.Subset.refl _⟩
  -- the page of the address is no table
  rintro rfl
  have haccounted := h.process j o' ho'
  have haligned := (haccounted.wellFormed.page htable).aligned
  rw [inPage_wordAddress haligned] at hin
  have hused := h.used (h.process i o ho) (reaches_of_process ho) hx
  have htable := haccounted.tables table htable
  have hpa := h.inPage (translate_eq_some.mpr ⟨o, ho, hx⟩)
  rw [inPage_aligned haligned (frame_aligned pa) hin hpa] at htable
  rcases hused with hused | hused <;> cases htable.symm.trans hused

/-! ### Shared memory -/

theorem takePages_spec {blocks rest : List (Option Word)} {pages : List Word}
    (h : takePages n blocks = some (pages, rest)) : blocks = pages.map some ++ rest := by
  induction n generalizing blocks pages with
  | zero =>
    cases h
    rfl
  | succ n ih =>
    cases blocks with
    | nil => cases h
    | cons block blocks =>
      cases block with
      | none => cases h
      | some page =>
        obtain ⟨⟨pages', rest'⟩, htake, heq⟩ := Option.map_eq_some_iff.mp h
        cases heq
        rw [ih htake]
        rfl

theorem objectOf_pages {pages : List Word} (h : objectOf pages = some object) :
    object.pages = pages := by
  unfold objectOf at h
  split at h
  · cases h
    rfl
  · cases h

/-- What the functions that create an object do to the kernel: its pages are
given up, or are outside of usable memory. -/
structure Creates (usable : Word → Prop) (k k₁ : Kernel) (object : SharedMemory) : Prop where
  eq : ∃ path blocks, k₁ = { k with blocks }.openObject path object
  pages : k.blocks = object.pages.map some ++ k₁.blocks ∨
    k₁.blocks = k.blocks ∧ ∀ page ∈ object.pages, ¬usable (frame page)

theorem creates_of_create {path : Path} {size : Word} {kmalloc : Bool}
    (hcall : k.sharedMemoryCreate path size kmalloc = some (some object, k')) :
    Creates usable k k' object := by
  unfold Kernel.sharedMemoryCreate at hcall
  split at hcall
  · obtain ⟨⟨pages, blocks⟩, htake, hcall⟩ := Option.bind_eq_some_iff.mp hcall
    obtain ⟨object', hobject, heq⟩ := Option.bind_eq_some_iff.mp hcall
    cases heq
    refine ⟨⟨path, blocks, rfl⟩, .inl ?_⟩
    rw [objectOf_pages hobject]
    exact takePages_spec htake
  · cases hcall

theorem Creates.hasObject {object' : SharedMemory} (h : Creates usable k k' object)
    (hobject : k'.HasObject object') : k.HasObject object' ∨ object' = object := by
  obtain ⟨path, blocks, rfl⟩ := h.eq
  rcases hobject with ⟨path', hpath⟩ | hdescriptor
  · by_cases hpath' : path' = path
    · subst hpath'
      cases (Function.update_self ..).symm.trans hpath
      exact .inr rfl
    · exact .inl (.inl ⟨path', (Function.update_of_ne hpath' ..).symm.trans hpath⟩)
  · exact .inl (.inr hdescriptor)

/-- A call that creates an object, and may open it. -/
theorem Creates.uses (h : Accounts usable use history k) (hcreates : Creates usable k k₁ object)
    (hanswers : k'.answers = k₁.answers) (hblocks : k'.blocks = k₁.blocks)
    (hheapBlocks : k'.heapBlocks = k₁.heapBlocks) (hheap : k'.heap = k₁.heap)
    (hobjects : ∀ object', k'.HasObject object' → k₁.HasObject object' ∨ object' = object)
    (htaker : call.taker = none) (hpresent : ∀ i, k'.processes i = none → k₁.processes i = none) :
    Uses usable k call k' fun _ => .shared := by
  obtain ⟨path, blocks, heq⟩ := hcreates.eq
  have hsub : k'.blocks <:+ k.blocks := by
    rw [hblocks]
    rcases hcreates.pages with hpages | ⟨hsame, -⟩
    · exact ⟨_, hpages.symm⟩
    · rw [hsame]
  refine
    { answers := by rw [hanswers, heq]; exact List.suffix_refl _
      blocks := hsub
      heapBlocks := by rw [hheapBlocks, heq]; exact List.suffix_refl _
      heap := fun page hpage => .inl (by rw [hheap, heq] at hpage; exact hpage)
      objects := ?_
      taken := fun i page _ _ => not_taken htaker i page nofun
      present := fun i hnone => by
        have hnone := hpresent i hnone
        rw [heq] at hnone
        exact hnone }
  intro object' hobject'
  have hor : k.HasObject object' ∨ object' = object := by
    rcases hobjects object' hobject' with hobject' | rfl
    · exact hcreates.hasObject hobject'
    · exact .inr rfl
  rcases hor with hold | rfl
  · exact .inl hold
  · refine .inr fun page hpage => ?_
    rcases hcreates.pages with hpages | ⟨-, hdevice⟩
    · have hblock : some page ∈ k.blocks :=
        hpages ▸ List.mem_append_left _ (List.mem_map_of_mem hpage)
      rw [h.frame_block hblock]
      refine .inr ⟨mem_free.mpr (.inr (.inl hblock)), fun hfree => ?_, rfl⟩
      rcases mem_free.mp hfree with ⟨hanswer, hne⟩ | hblock' | hheap
      · rw [hanswers, heq] at hanswer
        exact h.not_block hanswer hne hblock
      · have honce := h.block_once
        rw [hpages, List.filterMap_append, List.nodup_append] at honce
        refine honce.2.2 page (List.mem_filterMap.mpr ⟨some page, List.mem_map_of_mem hpage, rfl⟩)
          page (List.mem_filterMap.mpr ⟨some page, hblocks ▸ hblock', rfl⟩) rfl
      · rw [hheapBlocks, heq] at hheap
        exact h.not_heapBlock hblock hheap
    · exact .inl (hdevice page hpage)

/-- The processes are those before, their tables too. -/
theorem Creates.kept (h : Creates usable k k' object) (hi : k'.processes i = some o) :
    k.processes i = some o ∧ Kept k k' o o := by
  obtain ⟨path, blocks, rfl⟩ := h.eq
  exact ⟨hi, ⟨rfl, rfl, fun _ _ _ _ => rfl⟩, rfl, List.Subset.refl _⟩

theorem Accounts.created (h : Accounts usable use history k) (hexec : exec k call = some k')
    (hcreates : Creates usable k k' object) (htaker : call.taker = none)
    (hmaps : ∀ j number, ¬Maps k j number call) :
    ∃ use', Accounts usable use' ((k, call) :: history) k' :=
  h.others hexec (hcreates.uses h rfl rfl rfl rfl (fun _ hobject => .inl hobject) htaker
    fun _ hnone => hnone) hmaps fun _ o' ho' => ⟨o', hcreates.kept ho'⟩

/-- A call that changes nothing. -/
theorem Accounts.same (h : Accounts usable use history k) (hexec : exec k call = some k)
    (hmaps : ∀ j number, ¬Maps k j number call) :
    ∃ use', Accounts usable use' ((k, call) :: history) k := by
  have huses : Uses usable k call k fun _ => .heap :=
    ⟨List.suffix_refl _, List.suffix_refl _, List.suffix_refl _, fun _ hpage => .inl hpage,
      fun _ hobject => .inl hobject, fun i page hfree hnot => absurd hfree hnot,
      fun _ hnone => hnone⟩
  exact h.others hexec huses hmaps fun _ o' ho' =>
    ⟨o', ho', ⟨rfl, rfl, fun _ _ _ _ => rfl⟩, rfl, List.Subset.refl _⟩

theorem Accounts.create {path : Path} {size : Word} {kmalloc : Bool}
    (h : Accounts usable use history k) (hexec : exec k (.create path size kmalloc) = some k') :
    ∃ use', Accounts usable use' ((k, .create path size kmalloc) :: history) k' := by
  obtain ⟨⟨_ | object, k₁⟩, hcall, rfl⟩ := Option.map_eq_some_iff.mp hexec
  · have hsame : k₁ = k := by
      unfold Kernel.sharedMemoryCreate at hcall
      split at hcall
      · obtain ⟨⟨pages, blocks⟩, _, hcall⟩ := Option.bind_eq_some_iff.mp hcall
        obtain ⟨_, _, heq⟩ := Option.bind_eq_some_iff.mp hcall
        cases heq
      · cases hcall
        rfl
    subst hsame
    exact h.same hexec fun _ _ hmaps => hmaps
  · exact h.created hexec (creates_of_create hcall) rfl fun _ _ hmaps => hmaps

theorem Accounts.createFromContiguousPages {path : Path} {start size : Word} {kmalloc : Bool}
    (h : Accounts usable use history k)
    (hexec : exec k (.createFromContiguousPages path start size kmalloc) = some k')
    (houtside : Outside usable (.createFromContiguousPages path start size kmalloc)) :
    ∃ use', Accounts usable use'
      ((k, .createFromContiguousPages path start size kmalloc) :: history) k' := by
  obtain ⟨⟨result, k₁⟩, hcall, rfl⟩ := Option.map_eq_some_iff.mp hexec
  unfold Kernel.sharedMemoryCreateFromContiguousPages at hcall
  split at hcall
  · obtain ⟨object, hobject, heq⟩ := Option.bind_eq_some_iff.mp hcall
    cases heq
    have hcreates : Creates usable k (k.openObject path object) object := by
      refine ⟨⟨path, k.blocks, rfl⟩, .inr ⟨rfl, ?_⟩⟩
      rw [objectOf_pages hobject]
      exact houtside
    exact h.created hexec hcreates rfl fun _ _ hmaps => hmaps
  · cases hcall
    exact h.same hexec fun _ _ hmaps => hmaps

/-- A descriptor for an object that can be reached. -/
theorem fdTableOpen_hasObject {object' : SharedMemory} (ho : k.processes i = some o)
    (hobject : k.HasObject object) (hobject' : (k.fdTableOpen i o object).2.HasObject object') :
    k.HasObject object' := by
  rcases hobject' with hpath | ⟨j, o', ho', hmem⟩
  · exact .inl hpath
  · by_cases hj : j = i
    · subst hj
      cases (Function.update_self ..).symm.trans ho'
      rcases List.mem_append.mp hmem with hold | hnew
      · exact .inr ⟨j, o, ho, hold⟩
      · cases List.mem_singleton.mp hnew
        exact hobject
    · exact .inr ⟨j, o', (Function.update_of_ne hj ..).symm.trans ho', hmem⟩

theorem fdTableOpen_kept (hi : k.processes i = some o)
    (hj : (k.fdTableOpen i o object).2.processes j = some o') :
    ∃ o₁, k.processes j = some o₁ ∧ Kept k (k.fdTableOpen i o object).2 o₁ o' := by
  by_cases hij : j = i
  · subst hij
    cases (Function.update_self ..).symm.trans hj
    exact ⟨o, hi, ⟨rfl, rfl, fun _ _ _ _ => rfl⟩, rfl, List.subset_append_left _ _⟩
  · exact ⟨o', (Function.update_of_ne hij ..).symm.trans hj, ⟨rfl, rfl, fun _ _ _ _ => rfl⟩, rfl,
      List.Subset.refl _⟩

theorem fdTableOpen_present (hi : k.processes i = some o)
    (hnone : (k.fdTableOpen i o object).2.processes j = none) : k.processes j = none := by
  by_cases hij : j = i
  · subst hij
    cases (Function.update_self ..).symm.trans hnone
  · exact (Function.update_of_ne hij ..).symm.trans hnone

theorem Accounts.openObject {path : Path} {size : Word} {kmalloc : Bool}
    (h : Accounts usable use history k)
    (hexec : exec k (.openObject i path size kmalloc) = some k') :
    ∃ use', Accounts usable use' ((k, .openObject i path size kmalloc) :: history) k' := by
  obtain ⟨⟨result, k₁⟩, hcall, rfl⟩ := Option.map_eq_some_iff.mp hexec
  obtain ⟨o, ho, hcall⟩ := Option.bind_eq_some_iff.mp hcall
  split at hcall
  · cases hcall
    exact h.same hexec fun _ _ hmaps => hmaps
  · -- the path has an object
    rename_i object hpath
    cases hcall
    have hobject : k.HasObject object := .inl ⟨path, hpath⟩
    have huses : Uses usable k (.openObject i path size kmalloc) (k.fdTableOpen i o object).2
        fun _ => .heap :=
      ⟨List.suffix_refl _, List.suffix_refl _, List.suffix_refl _, fun _ hpage => .inl hpage,
        fun _ hobject' => .inl (fdTableOpen_hasObject ho hobject hobject'),
        fun i page hfree hnot => absurd hfree hnot, fun _ hnone => fdTableOpen_present ho hnone⟩
    exact h.others hexec huses (fun _ _ hmaps => hmaps) fun j o' ho' => fdTableOpen_kept ho ho'
  · obtain ⟨⟨_ | object, k₂⟩, hcreate, hcall⟩ := Option.bind_eq_some_iff.mp hcall
    · cases hcall
    · cases hcall
      have hcreates : Creates usable k k₂ object := creates_of_create hcreate
      have ho₂ : k₂.processes i = some o := by
        obtain ⟨path, blocks, rfl⟩ := hcreates.eq
        exact ho
      have hobject : k₂.HasObject object := by
        obtain ⟨path, blocks, rfl⟩ := hcreates.eq
        exact .inl ⟨path, Function.update_self ..⟩
      refine h.others hexec (hcreates.uses h rfl rfl rfl rfl (fun object' hobject' =>
        .inl (fdTableOpen_hasObject ho₂ hobject hobject')) rfl
          fun _ hnone => fdTableOpen_present ho₂ hnone) (fun _ _ hmaps => hmaps) fun j o' ho' => ?_
      obtain ⟨o₁, ho₁, htables, hentries, hhandles⟩ := fdTableOpen_kept ho₂ ho'
      obtain ⟨hold, hkept⟩ := hcreates.kept ho₁
      refine ⟨o₁, hold, ⟨htables.root.trans hkept.tables.root,
        htables.obtained.trans hkept.tables.obtained, fun page hpage c hin => ?_⟩, hentries,
        hhandles⟩
      exact (htables.memory page (hkept.tables.obtained ▸ hpage) c hin).trans
        (hkept.tables.memory page hpage c hin)

/-! ### The heap -/

theorem Accounts.growHeap (h : Accounts usable use history k)
    (hexec : exec k .growHeap = some k') :
    ∃ use', Accounts usable use' ((k, .growHeap) :: history) k' := by
  have hgrow : k.growHeap = some k' := hexec
  unfold Kernel.growHeap at hgrow
  split at hgrow
  · cases hgrow
  rename_i page heapBlocks hblocks
  cases hgrow
  have hfree : page ∈ k.free := mem_free.mpr (.inr (.inr (hblocks ▸ List.mem_cons_self ..)))
  have hleft : page ∉ { k with heap := page :: k.heap, heapBlocks : Kernel }.free := by
    intro hmem
    have honce := h.once
    unfold Kernel.free at honce
    rw [hblocks, ← List.append_assoc, List.nodup_append] at honce
    have hmem : page ∈ (k.answers.filter (· ≠ 0) ++ k.blocks.filterMap id) ++ heapBlocks := by
      rw [List.append_assoc]
      exact hmem
    rcases List.mem_append.mp hmem with hmem | hmem
    · exact honce.2.2 page hmem page List.mem_cons_self rfl
    · exact (List.nodup_cons.mp honce.2.1).1 hmem
  have huses : Uses usable k .growHeap { k with heap := page :: k.heap, heapBlocks }
      fun _ => .heap := by
    refine ⟨List.suffix_refl _, List.suffix_refl _, ?_, fun page' hpage' => ?_,
      fun _ hobject => .inl hobject, fun i page _ _ => not_taken rfl i page nofun,
      fun _ hnone => hnone⟩
    · rw [hblocks]
      exact List.suffix_cons _ _
    · rcases List.mem_cons.mp hpage' with rfl | hold
      · exact .inr ⟨hfree, hleft, rfl⟩
      · exact .inl hold
  exact h.others hexec huses (fun _ _ hmaps => hmaps) fun _ o' ho' =>
    ⟨o', ho', ⟨rfl, rfl, fun _ _ _ _ => rfl⟩, rfl, List.Subset.refl _⟩

/-! ## Isolation -/

theorem Initial.accounts (h : Initial usable k) : ∃ use, Accounts usable use [] k := by
  classical
  refine ⟨fun page => if page ∈ k.heap then some .heap else if usable page then none
    else some .shared, ?_⟩
  obtain ⟨honce, -, hapart⟩ := List.nodup_append.mp h.once
  refine ⟨fun page hpage => ?_, honce, fun page hdevice => ?_, fun page hpage => if_pos hpage,
    fun object hobject => ?_, fun i page => ?_, fun _ _ _ _ _ hshared => (nomatch hshared),
    fun i o ho => ?_⟩
  · obtain ⟨haligned, hlt⟩ := h.page page hpage
    refine ⟨haligned, hlt, ?_⟩
    rw [if_neg fun hheap => hapart page hpage page hheap rfl,
      if_pos (h.usable page (List.mem_append_left _ hpage))]
  · rw [if_neg fun hheap => hdevice (h.usable page (List.mem_append_right _ hheap)), if_neg hdevice]
  · rcases hobject with ⟨path, hpath⟩ | ⟨i, o, ho, -⟩
    · exact absurd hpath (h.pathTable path object)
    · cases (h.processes i).symm.trans ho
  · constructor
    · rintro ⟨q, hq, -⟩
      cases hq
    · intro hown
      split at hown
      · cases hown
      · split at hown <;> cases hown
  · cases (h.processes i).symm.trans ho

theorem Accounts.next (h : Accounts usable use history k) (hstays : StaysInPages k call)
    (hstep : Step usable k call k') : ∃ use', Accounts usable use' ((k, call) :: history) k' := by
  obtain ⟨hexec, houtside⟩ := hstep
  cases call with
  | init => exact h.processInit hexec
  | loadElf => exact h.processLoadElf hexec hstays
  | mmap => exact h.processMmap hexec
  | store => exact h.store hexec
  | create => exact h.create hexec
  | createFromContiguousPages => exact h.createFromContiguousPages hexec houtside
  | openObject => exact h.openObject hexec
  | growHeap => exact h.growHeap hexec

theorem run_accounts (hrun : Run (Initial usable) (Step usable) history k)
    (hstays : ∀ q ∈ history, StaysInPages q.1 q.2) : ∃ use, Accounts usable use history k := by
  induction hrun with
  | start hinit => exact hinit.accounts
  | next _ hstep ih =>
    obtain ⟨hstays, hrest⟩ := List.forall_mem_cons.mp hstays
    obtain ⟨use, h⟩ := ih hrest
    exact h.next hstays hstep

/-- The ledger says what isolation is. -/
theorem Accounts.isolated (h : Accounts usable use history k) : Isolated history k where
  mapped i x pa hx := by
    obtain ⟨o, ho, hx⟩ := translate_eq_some.mp hx
    rcases (h.process i o ho).mapped x pa hx with hown | ⟨object, n, page, hshared, -, hrest⟩
    · exact .inl ((h.taken i _).mpr hown)
    · exact .inr ⟨object, n, page, hshared, hrest⟩
  alone i page htaken := by
    have hown := (h.taken i page).mp htaken
    refine ⟨fun j hj => ?_, fun object hobject hmem => ?_⟩
    · cases hown.symm.trans ((h.taken j page).mp hj)
      rfl
    · obtain ⟨page', hpage', rfl⟩ := List.mem_map.mp hmem
      cases hown.symm.trans (h.objects object hobject page' hpage')
  apart i x pa hx := by
    obtain ⟨o, ho, hx⟩ := translate_eq_some.mp hx
    have hused := h.used (h.process i o ho) (reaches_of_process ho) hx
    refine ⟨fun hheap => ?_, fun j o' ho' htable => ?_⟩
    · have hheap := h.heap _ hheap
      rcases hused with hused | hused <;> cases hheap.symm.trans hused
    · have htable := (h.process j o' ho').tables _ htable
      rcases hused with hused | hused <;> cases htable.symm.trans hused
  shared i j x y object n hi hj := by
    have hpresent {i : ProcessId} {number : Nat}
        (hshared : SharedAt i number object n history) : ∃ o, k.processes i = some o := by
      refine Option.ne_none_iff_exists'.mp fun hnone => ?_
      exact h.absent i number object n hnone hshared
    obtain ⟨o, ho⟩ := hpresent hi
    obtain ⟨o', ho'⟩ := hpresent hj
    obtain ⟨page, hpage, hx⟩ := (h.process i o ho).shared x object n hi
    obtain ⟨page', hpage', hy⟩ := (h.process j o' ho').shared y object n hj
    cases hpage.symm.trans hpage'
    exact ⟨frame page, translate_eq_some.mpr ⟨o, ho, hx⟩, translate_eq_some.mpr ⟨o', ho', hy⟩⟩

end

/-- In every run that loads only files whose parts stay in their pages, the
processes are isolated in every state. -/
theorem processes_isolated (usable : Word → Prop) (history : List (Kernel × Call)) (k : Kernel)
    (hrun : Run (Initial usable) (Step usable) history k)
    (hstays : ∀ q ∈ history, StaysInPages q.1 q.2) : Isolated history k := by
  obtain ⟨use, h⟩ := run_accounts hrun hstays
  exact h.isolated

/-! ## Two runs -/

instance (usable : Word → Prop) [DecidablePred usable] (call : Call) :
    Decidable (Outside usable call) :=
  match call with
  | .createFromContiguousPages _ physicalStartAddress size _ =>
    List.decidableBAll _ (contiguousPages physicalStartAddress size)
  | .init .. | .loadElf .. | .mmap .. | .store .. | .create .. | .openObject .. | .growHeap =>
    .isTrue trivial

instance (k : Kernel) (call : Call) : Decidable (StaysInPages k call) :=
  match call with
  | .loadElf i _ _ _ =>
    inferInstanceAs (Decidable (∀ o ∈ k.processes i, EndsInPages (k.process o) _))
  | .init .. | .mmap .. | .store .. | .create .. | .createFromContiguousPages .. | .openObject ..
  | .growHeap => .isTrue trivial

/-- A step, executed. -/
def execStep (usable : Word → Prop) [DecidablePred usable] (k : Kernel) (call : Call) :
    Option Kernel :=
  if Outside usable call then exec k call else none

theorem execStep_step (usable : Word → Prop) [DecidablePred usable] (k : Kernel) (call : Call)
    (k' : Kernel) (h : execStep usable k call = some k') : Step usable k call k' := by
  unfold execStep at h
  split at h
  · exact ⟨h, ‹_›⟩
  · cases h

/-- The pages below 16 MiB are usable. -/
def Low (page : Word) : Prop := page.toNat < 2 ^ 24

instance : DecidablePred Low := fun _ => inferInstanceAs (Decidable (_ < _))

/-- `n` pages from an address on. -/
def pagesFrom (address n : Nat) : List Word :=
  (List.range n).map fun i => BitVec.ofNat 64 (address + 4096 * i)

/-- A kernel with some pages to give. The page behind the blocks will be a table. -/
def bootKernel : Kernel where
  memory := fun _ => 0
  answers := [0x1000, 0x2000, 0x3000, 0x4000, 0x5000, 0x21000] ++ pagesFrom 0x40000 12
  blocks := (pagesFrom 0x10000 17 ++ pagesFrom 0x60000 20).map some
  heapBlocks := []
  heap := [0x30000]
  pathTable := fun _ => none
  processes := fun _ => none

theorem bootKernel_initial : Initial Low bootKernel where
  processes _ := rfl
  pathTable _ _ := nofun
  page := by
    have hall : bootKernel.free.all (fun page => decide (page.toNat % 4096 = 0 ∧
        page.toNat < mmapPhysicalRegionSize)) = true := by decide +kernel
    exact fun page hpage => of_decide_eq_true (List.all_eq_true.mp hall page hpage)
  usable := by
    have hall : (bootKernel.free ++ bootKernel.heap).all
        (fun page => decide (Low page)) = true := by
      decide +kernel
    exact fun page hpage => of_decide_eq_true (List.all_eq_true.mp hall page hpage)
  once := by decide +kernel

/-- Two processes, one with a program, share a page. -/
def sharingCalls : List Call :=
  [.init 0 true fun _ => true, .init 1 true fun _ => true,
    .loadElf 0 (fun _ _ => true) true tailImage,
    .openObject 0 [109] 4096 true, .openObject 1 [109] 4096 true,
    .mmap 0 0 4096 (mapRead ||| mapWrite) (-1), .mmap 0 0 4096 (mapRead ||| mapShared) 0,
    .mmap 1 0 4096 (mapWrite ||| mapShared) 0, .store 1 heapVirtualBase 1]

/-- The same, in a run that loads only such files. -/
def execStays (usable : Word → Prop) [DecidablePred usable] (k : Kernel) (call : Call) :
    Option Kernel :=
  if StaysInPages k call then execStep usable k call else none

theorem execStays_step (usable : Word → Prop) [DecidablePred usable] (k : Kernel) (call : Call)
    (k' : Kernel) (h : execStays usable k call = some k') :
    StaysInPages k call ∧ Step usable k call k' := by
  unfold execStays at h
  split at h
  · exact ⟨‹_›, execStep_step usable k call k' h⟩
  · cases h

theorem sharing_isolated : ∃ history k, Run (Initial Low) (Step Low) history k ∧
    Isolated history k ∧ k.translate 0 0x400000001000 = some 0x70000 ∧
    k.translate 1 heapVirtualBase = some 0x70000 := by
  obtain ⟨history, k, hrun, htranslate⟩ := Run.of_check (execStays_step Low) bootKernel_initial
    sharingCalls
    (fun k => decide (k.translate 0 0x400000001000 = some 0x70000 ∧
      k.translate 1 heapVirtualBase = some 0x70000)) (by decide +kernel)
  obtain ⟨hrun, hstays⟩ := hrun.split
  exact ⟨history, k, hrun, processes_isolated Low history k hrun hstays,
    of_decide_eq_true htranslate⟩

theorem entryImage_inMemory : (0x10000 : Word).toNat + (4096 : Word).toNat < 2 ^ 64 := by decide

/-- A file with a segment of one byte at the start of a page, and another one of
nine bytes at its end. The last eight are an entry for the page 0x30000. -/
def entryImage : Buffer where
  address := 0x10000
  size := 4096
  bytes offset :=
    match offset with
    | 32 => 64 -- e_phoff
    | 54 => 56 -- e_phentsize
    | 56 => 2 -- e_phnum
    | 64 => 1 -- p_type
    | 82 => 64 -- p_vaddr
    | 104 => 1 -- p_memsz
    | 112 => 1 -- p_align
    | 120 => 1 -- p_type
    | 128 => 176 -- p_offset
    | 136 => 255 -- p_vaddr
    | 137 => 15
    | 138 => 64
    | 152 => 9 -- p_filesz
    | 160 => 9 -- p_memsz
    | 168 => 1 -- p_align
    | 177 => 3 -- the entry
    | 179 => 3
    | _ => 0
  fits := entryImage_inMemory

/-- The file is loaded, and its page is in the heap. -/
theorem entryImage_not_isolated :
    ¬∀ usable history k, Run (Initial usable) (Step usable) history k → Isolated history k := by
  intro h
  obtain ⟨history, k, hrun, htranslate⟩ := Run.of_check (execStep_step Low) bootKernel_initial
    [.init 0 true fun _ => true, .loadElf 0 (fun _ _ => true) true entryImage]
    (fun k => decide (k.translate 0 0x400000 = some 0x30000 ∧ (0x30000 : Word) ∈ k.heap))
    (by decide +kernel)
  obtain ⟨hmapped, hheap⟩ := of_decide_eq_true htranslate
  have hframe : frame 0x30000 = 0x30000 := by decide
  exact ((h Low history k hrun).apart 0 _ _ hmapped).1 (hframe ▸ hheap)

end ZOs.Processes
