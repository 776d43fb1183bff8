import ZOs.Memory.HeapRun
import ZOs.Memory.VmapSupply
import ZOs.Process.MmapRuns

/-!
# The heap of a process

`libz/block_allocator.c`. It is the allocator of the kernel, line by line,
except that it gets its memory from `process_mmap`. The kernel asks for the
pages from the new header on, this allocator from the payload on, and that
is no page boundary: the end of the heap is one.
-/

namespace ZOs.Libz

open Runs BlockAllocator ProcessMemory
open Paging (Word)

/-- `MALLOC_PAGE_FLAGS`. -/
def mallocPageFlags : Word := (1 <<< 2) ||| (1 <<< 3) ||| mapRead ||| mapWrite

/-- `block_allocator_t` with the process it belongs to; `pageFlags` is
`mmap_flags`. -/
abbrev UserHeap := Heap Process

/-! ## The allocator -/

/-- `block_allocator_init` on memory that holds `headers`. -/
def blockAllocatorInit (mmapFlags : Word) (headers : Nat → BlockHeader) (process : Process) :
    Option UserHeap :=
  match processMmap process 0 (.ofNat 64 blockAllocatorDefaultSize) mmapFlags (-1) with
  | none => none
  | some (virtualBase, process) =>
    -- assert(allocator->virtual_base != 0)
    if virtualBase = 0 then none
    else
      (firstBlock virtualBase.toNat mmapFlags.toNat headers (some (true, process))).map Prod.snd

/-- The address and the length that `find_or_create_free_block` asks for. -/
def growthRequest (h : UserHeap) (lastBlock size : Nat) : Word × Word :=
  (.ofNat 64 (add64 h.virtualBase (nextOffset h lastBlock)),
    .ofNat 64 (numPages size * PageAlloc.pageSize))

/-- The call of `mmap` in `find_or_create_free_block`. -/
def growthMmap (h : UserHeap) (lastBlock size : Nat) : Option (Word × Process) :=
  processMmap h.space (growthRequest h lastBlock size).1 (growthRequest h lastBlock size).2
    (.ofNat 64 h.pageFlags) (-1)

/-- `find_or_create_free_block`. -/
def findOrCreateFreeBlock (h : UserHeap) (size : Nat) : Option (Nat × UserHeap) :=
  match findFreeBlock h size with
  | none => none
  | some blockHeader =>
    if blockHeader ≠ 0 then some (blockHeader, h)
    else
      match getLastBlockHeader h with
      | none => none
      | some lastBlock =>
        -- assert(mmap(...) > 0)
        match growthMmap h lastBlock size with
        | none => none
        | some (address, process) =>
          if address = 0 then none
          else
            let offset := nextOffset h lastBlock
            let newBlock := blockAt h offset
            let h := buildBlock { h with space := process } lastBlock offset (numPages size)
            some (newBlock, addBlockToFreeList h newBlock)

/-- `block_allocator_allocate`; null is 0. -/
def blockAllocatorAllocate (h : UserHeap) (size : Nat) : Option (Nat × UserHeap) :=
  match findOrCreateFreeBlock h size with
  | none => none
  | some (blockHeader, h) =>
    if blockHeader = 0 then some (0, h)
    else
      let h := splitBlock h blockHeader size
      let h := h.modify blockHeader fun b => { b with isFree := 0 }
      let h := removeBlockFromFreeList h blockHeader
      some (add64 h.virtualBase (h.headers blockHeader).offset, h)

/-- `block_allocator_free`. -/
def blockAllocatorFree (h : UserHeap) (address : Nat) : UserHeap :=
  if address = 0 then h
  else
    let blockHeader := sub64 address headerSize
    if (h.headers blockHeader).magic ≠ blockAllocatorBlockMagic ∨
        (h.headers blockHeader).isFree ≠ 0 then h
    else releaseBlock h blockHeader

/-! ## Runs -/

/-- The program has started: `malloc_init` has returned. -/
def Start (s : State Process) : Prop :=
  ∃ history process headers, Run Initial ProcessMemory.Step history process ∧
    blockAllocatorInit mallocPageFlags headers process = some s.heap ∧ s.live = []

inductive Event
  | malloc (size : Nat)
  | free (address : Nat)
  | write (headers : Nat → BlockHeader)
  | others (process : Process)

/-- A call that returns, a store of the program into what it was given, or
something else that the process does. -/
inductive Step : State Process → Event → State Process → Prop
  | malloc {h h' : UserHeap} {live : List (Nat × Nat)} {size p : Nat}
      (hcall : blockAllocatorAllocate h size = some (p, h')) :
      Step ⟨h, live⟩ (.malloc size) ⟨h', if p = 0 then live else (p, size) :: live⟩
  | free {h : UserHeap} {live : List (Nat × Nat)} {address : Nat}
      (hlive : address = 0 ∨ address ∈ live.map Prod.fst) :
      Step ⟨h, live⟩ (.free address)
        ⟨blockAllocatorFree h address, live.filter fun q => q.1 ≠ address⟩
  | write {h : UserHeap} {live : List (Nat × Nat)} {headers : Nat → BlockHeader}
      (hkeep : ∀ y, (∀ q ∈ live, y + headerSize ≤ q.1 ∨ q.1 + q.2 ≤ y) →
        headers y = h.headers y) :
      Step ⟨h, live⟩ (.write headers) ⟨{ h with headers := headers }, live⟩
  | others {h : UserHeap} {live : List (Nat × Nat)} {process : Process} :
      Step ⟨h, live⟩ (.others process) ⟨{ h with space := process }, live⟩

/-- What the kernel needs of a request of the heap: it starts at the end of
the heap, at a page, and is long enough; it is then accepted, and all of it
is mapped. -/
def RequestAgrees (h : UserHeap) (lastBlock size : Nat) : Prop :=
  (growthRequest h lastBlock size).1.toNat % 4096 = 0 ∧
  (growthRequest h lastBlock size).1.toNat = heapEnd h ∧
  size + headerSize ≤ (growthRequest h lastBlock size).2.toNat ∧
  ∃ address process, growthMmap h lastBlock size = some (address, process) ∧
    ∀ a : Word, a < (growthRequest h lastBlock size).2 →
      (process.pageTable.vmapVirtualToPhysical
        ((growthRequest h lastBlock size).1 + a)).isSome = true

/-- If no free block is large enough, the request agrees. -/
def GrowthAgrees (h : UserHeap) (size : Nat) : Prop :=
  findFreeBlock h size = some 0 →
    ∃ lastBlock, getLastBlockHeader h = some lastBlock ∧ RequestAgrees h lastBlock size

/-! ## The shape of the heap -/

/-- Any memory will do: the shape of the heap alone matters. -/
def anySpace : AddressSpace Process where
  vmapIsActive _ := true
  pageAllocBlock _ w := (none, w)
  vmapMapPage _ _ _ w := (false, w)
  mapped _ _ := True
  alloc_keeps _ _ _ _ := trivial
  map_keeps _ _ _ _ _ _ := trivial
  map_maps _ _ _ _ _ _ _ _ _ _ := trivial

/-- The blocks tile the memory of the heap, and it ends at a page. -/
def Inv (s : State Process) : Prop :=
  ∃ xs fs e, Shape anySpace s.heap xs fs e ∧ e < 2 ^ 64 ∧ Apart s.heap.Free xs ∧
    LiveOk s.heap xs s.live

section

variable {h h' : UserHeap} {s s' : State Process} {event : Event} {xs fs l : List Nat}
  {e x size p : Nat} {address length flags : Word} {process : Process}

theorem processMmap_unaligned (haddress : address.toNat % 4096 ≠ 0) {fd : Int} :
    processMmap process address length flags fd = none := by
  unfold processMmap
  rw [if_pos]
  intro hzero
  exact haddress (congrArg BitVec.toNat hzero)

/-- The request starts a header behind the end of the heap. -/
theorem growthRequest_address (hs : Shape anySpace h (l ++ [x]) fs e) (he : e < 2 ^ 64) :
    (growthRequest h x size).1.toNat = e + headerSize := by
  have hlast := (hs.header_fits he).2
  have hoffset := (nextOffset_eq hs hlast).1
  have hsum : add64 h.virtualBase (nextOffset h x) = e + headerSize := by
    rw [add64_eq (by omega), hoffset]
  show (BitVec.ofNat 64 (add64 h.virtualBase (nextOffset h x))).toNat = _
  rw [hsum, BitVec.toNat_ofNat, Nat.mod_eq_of_lt hlast]

theorem growthRequest_unaligned (hs : Shape anySpace h (l ++ [x]) fs e) (he : e < 2 ^ 64) :
    (growthRequest h x size).1.toNat % 4096 ≠ 0 := by
  have hend := hs.range.aligned
  have hheader : headerSize = 56 := rfl
  rw [growthRequest_address hs he]
  omega

/-- The last block, and what comes before it. -/
theorem last_block (hs : Shape anySpace h xs fs e) :
    ∃ l x, Shape anySpace h (l ++ [x]) fs e ∧ getLastBlockHeader h = some x := by
  obtain rfl | ⟨l, x, rfl⟩ := List.eq_nil_or_concat xs
  · exact absurd rfl hs.nonempty
  · rw [List.concat_eq_append] at hs
    exact ⟨l, x, hs, getLastBlockHeader_eq hs⟩

theorem growth_stops (hs : Shape anySpace h xs fs e) (he : e < 2 ^ 64)
    (hfind : findFreeBlock h size = some 0) : blockAllocatorAllocate h size = none := by
  obtain ⟨l, x, hs, hlast⟩ := last_block hs
  have hmmap : growthMmap h x size = none :=
    processMmap_unaligned (growthRequest_unaligned hs he)
  have hnone : findOrCreateFreeBlock h size = none := by
    simp [findOrCreateFreeBlock, hfind, hlast, hmmap]
  simp [blockAllocatorAllocate, hnone]

/-- With a free block, the two allocators do the same. -/
theorem allocate_eq (hfind : findFreeBlock h size = some x) (hx : x ≠ 0) :
    blockAllocatorAllocate h size = BlockAllocator.blockAllocatorAllocate anySpace h size := by
  have hkernel : BlockAllocator.findOrCreateFreeBlock anySpace h size = some (x, h) :=
    BlockAllocator.findOrCreateFreeBlock_found hfind hx
  have huser : findOrCreateFreeBlock h size = some (x, h) := by
    simp [findOrCreateFreeBlock, hfind, hx]
  have hactive : anySpace.vmapIsActive h.space = true := rfl
  unfold blockAllocatorAllocate BlockAllocator.blockAllocatorAllocate
  rw [if_pos hactive, hkernel, huser]

theorem free_eq (address : Nat) :
    BlockAllocator.blockAllocatorFree anySpace h address = some (blockAllocatorFree h address) := by
  unfold BlockAllocator.blockAllocatorFree blockAllocatorFree
  split
  · rfl
  · simp only [anySpace, if_true]
    split <;> rfl

/-! ## Runs keep the shape -/

theorem Inv.malloc (hinv : Inv s) (hcall : blockAllocatorAllocate s.heap size = some (p, h')) :
    Inv ⟨h', if p = 0 then s.live else (p, size) :: s.live⟩ := by
  obtain ⟨xs, fs, e, hs, he, hapart, hl⟩ := hinv
  obtain ⟨x, hfind, _⟩ := findFreeBlock_spec hs size
  by_cases hx : x = 0
  · rw [hx] at hfind
    cases (growth_stops hs he hfind).symm.trans hcall
  · obtain ⟨h₁, hcall₁, hout⟩ := blockAllocatorAllocate_found hs hapart rfl he hfind hx
    rw [allocate_eq hfind hx, hcall₁] at hcall
    cases hcall
    obtain ⟨xs', fs', e', hs', hapart', hl'⟩ := hout.allocated.ordered hl
    obtain ⟨_, _, hend, _⟩ := hout.shape
    have hsame : e' = e := (heapEnd_eq hs').symm.trans (heapEnd_eq hend)
    exact ⟨xs', fs', e', hs', hsame ▸ he, hapart', hl'⟩

theorem Inv.step (hinv : Inv s) (hstep : Step s event s') : Inv s' := by
  cases hstep with
  | malloc hcall => exact hinv.malloc hcall
  | free hlive =>
    obtain ⟨xs, fs, e, hs, he, hapart, hl⟩ := hinv
    obtain ⟨xs', fs', hs', hapart', hl'⟩ := hs.free hapart hl hlive (free_eq _)
    exact ⟨xs', fs', e, hs', he, hapart', hl'⟩
  | write hkeep =>
    obtain ⟨xs, fs, e, hs, he, hapart, hl⟩ := hinv
    obtain ⟨hs', hapart', hl'⟩ := hs.write hapart hl hkeep
    exact ⟨xs, fs, e, hs', he, hapart', hl'⟩
  | others =>
    obtain ⟨xs, fs, e, hs, he, hapart, hl⟩ := hinv
    exact ⟨xs, fs, e, hs.space fun _ _ => trivial, he, hapart, hl.block, hl.nodup⟩

/-- The memory that the heap starts with is where `process_mmap` puts it. -/
theorem init_shape {headers : Nat → BlockHeader} {mmapFlags : Word}
    (hprocess : ProcessMemory.Inv process)
    (hinit : blockAllocatorInit mmapFlags headers process = some h) :
    ∃ base, Shape anySpace h [base] [base] (base + blockAllocatorDefaultSize) ∧
      base + blockAllocatorDefaultSize < 2 ^ 64 := by
  unfold blockAllocatorInit at hinit
  split at hinit
  · cases hinit
  · next base process' hmmap =>
    split at hinit
    · cases hinit
    · next hbase =>
      have hstart := (processMmap_spec hprocess hmmap).startAddress
      obtain ⟨haligned, _, hhigh, _⟩ := findFreeAddressSpace_spec hprocess.placed hstart
      have hsize : blockAllocatorDefaultSize = 4194304 := by decide
      have hfits : base.toNat + blockAllocatorDefaultSize < 2 ^ 64 := by omega
      have hne : base.toNat ≠ 0 := fun hzero => hbase (BitVec.eq_of_toNat_eq hzero)
      cases hinit
      exact ⟨base.toNat, Shape.first haligned hne hfits rfl rfl (Function.update_self ..)
        fun _ _ _ => trivial, hfits⟩

theorem start_inv (hstart : Start s) : Inv s := by
  obtain ⟨history, process, headers, hrun, hinit, hlive⟩ := hstart
  obtain ⟨base, hs, hfits⟩ := init_shape (run_inv hrun) hinit
  refine ⟨_, _, _, hs, hfits, List.isChain_singleton _, ?_, ?_⟩
  · intro q hq
    rw [hlive] at hq
    cases hq
  · rw [hlive]
    exact List.nodup_nil

/-! ## A process with memory enough -/

/-- Private pages can be mapped if there are as many, and pages for their
tables. -/
theorem mapPages_private {n i : Nat} {p : Process} {pages : List Word}
    {rest : List (Option Word)} (hpages : Paging.HasPages (4 * n) p.pageTable)
    (hblocks : p.blocks = pages.map some ++ rest) (hlength : pages.length = n) :
    (mapPages privatePage address flags i n p).isSome = true := by
  induction n generalizing i p pages with
  | zero => rfl
  | succ n ih =>
    cases pages with
    | nil => cases hlength
    | cons page pages =>
      have hmap : Attempt.Tried
          (Paging.vmapMapPage page (address + BitVec.ofNat 64 i * pageSize) flags) p.pageTable
          (fun _ => False) fun _ v' => Paging.HasPages (4 * n) v' := hpages.vmapMapPage
      cases hcall : Paging.vmapMapPage page (address + BitVec.ofNat 64 i * pageSize) flags
          p.pageTable with
      | mk result pageTable =>
        cases result with
        | none => exact (hmap.gaveUp hcall).elim
        | some u =>
          simp only [mapPages, privatePage, hblocks, List.map_cons, List.cons_append,
            Process.mapPage, hcall]
          exact ih (p := { p with pageTable, blocks := pages.map some ++ rest })
            (hmap.returned hcall) rfl (Nat.succ.inj hlength)

end

/-- `n` pages of the direct-map window, from page number `first` on. -/
def pagesFrom (first n : Nat) : List Word :=
  (List.range n).map fun i => BitVec.ofNat 64 (4096 * (first + i))

theorem mem_pagesFrom {first n : Nat} {page : Word} (hfits : first + n ≤ 2 ^ 22) :
    page ∈ pagesFrom first n ↔ ∃ i < n, page.toNat = 4096 * (first + i) := by
  simp only [pagesFrom, List.mem_map, List.mem_range]
  constructor
  · rintro ⟨i, hi, rfl⟩
    exact ⟨i, hi, by rw [BitVec.toNat_ofNat]; omega⟩
  · rintro ⟨i, hi, hpage⟩
    refine ⟨i, hi, BitVec.eq_of_toNat_eq ?_⟩
    rw [BitVec.toNat_ofNat]
    omega

theorem pagesFrom_nodup {first n : Nat} (hfits : first + n ≤ 2 ^ 22) :
    (pagesFrom first n).Nodup := by
  apply List.Nodup.map_on _ List.nodup_range
  intro i hi j hj heq
  have hsame := congrArg BitVec.toNat heq
  rw [List.mem_range] at hi hj
  simp only [BitVec.toNat_ofNat] at hsame
  omega

theorem pagesFrom_length (first n : Nat) : (pagesFrom first n).length = n := by
  simp [pagesFrom]

/-- A process that has mapped nothing, and the pages that will be given for
tables and for other things. -/
def freshProcess (tables pages : List Word) : Process where
  pageTable := ⟨0, fun _ => 0, tables, [], []⟩
  blocks := pages.map some
  memoryPages := []
  mmapEntries := []
  fdTable := fun _ => none

section

variable {tables pages : List Word}

theorem freshProcess_initial (htables : ∀ page ∈ tables, Paging.PageAddress page)
    (htablesOnce : tables.Nodup)
    (hpages : ∀ page ∈ pages, page.toNat % 4096 = 0 ∧ page.toNat < 2 ^ 34)
    (hpagesOnce : pages.Nodup) : Initial (freshProcess tables pages) := by
  have hanswers : Paging.FreshAnswers (freshProcess tables pages).pageTable :=
    ⟨fun page hpage _ => ⟨htables page hpage, List.not_mem_nil⟩, htablesOnce.filter _⟩
  have hblocks : (freshProcess tables pages).blocks.filterMap id = pages := by
    show (pages.map some).filterMap id = pages
    rw [List.filterMap_map]
    exact List.filterMap_some
  refine ⟨⟨[], .start ⟨rfl, rfl, hanswers⟩⟩, rfl, hanswers, ?_, ?_, ?_, nofun⟩
  · intro page hpage
    obtain ⟨_, hmem, heq⟩ := List.mem_map.mp hpage
    cases heq
    exact hpages page hmem
  · rw [hblocks]
    exact hpagesOnce
  · intro x pa hx
    cases hx

/-- With pages for 4 MiB and for their tables the heap can be initialised. -/
theorem freshProcess_init (headers : Nat → BlockHeader) (htables : 4096 ≤ tables.length)
    (hnonzero : ∀ page ∈ tables, page ≠ 0) (hpages : pages.length = 1024) :
    ∃ process, blockAllocatorInit mallocPageFlags headers (freshProcess tables pages) =
      some ⟨2 ^ 46, mallocPageFlags.toNat, 2 ^ 46, 2 ^ 46, Function.update headers (2 ^ 46)
        ⟨blockAllocatorBlockMagic, 1, blockAllocatorDefaultSize - headerSize, headerSize,
          0, 0, 0, 0⟩, process⟩ := by
  have hmapped : (mapPages privatePage heapVirtualBase (mmapPageFlags mallocPageFlags) 0 1024
      (freshProcess tables pages)).isSome = true :=
    mapPages_private ⟨htables, hnonzero⟩ (List.append_nil _).symm hpages
  obtain ⟨process, hprocess⟩ := Option.isSome_iff_exists.mp hmapped
  have hregion : (freshProcess tables pages).mapRegion heapVirtualBase
      (countPages (.ofNat 64 blockAllocatorDefaultSize)) mallocPageFlags (-1) = some process := by
    have hprivate : ¬ mallocPageFlags &&& mapShared ≠ 0 := by decide
    unfold Process.mapRegion
    rw [if_neg hprivate]
    exact hprocess
  have hstart : (freshProcess tables pages).startAddress 0 = some heapVirtualBase := by
    have hfree : findFreeAddressSpace [] = some heapVirtualBase := by decide
    exact (if_pos rfl).trans hfree
  have hmmap : processMmap (freshProcess tables pages) 0 (.ofNat 64 blockAllocatorDefaultSize)
      mallocPageFlags (-1) = some (heapVirtualBase, { process with
        mmapEntries := process.mmapEntries ++
          [⟨heapVirtualBase, countPages (.ofNat 64 blockAllocatorDefaultSize)⟩] }) := by
    unfold processMmap
    rw [if_neg (by decide), hstart]
    dsimp only
    rw [if_neg (by decide), if_neg (by decide), hregion]
  refine ⟨{ process with mmapEntries := process.mmapEntries ++
    [⟨heapVirtualBase, countPages (.ofNat 64 blockAllocatorDefaultSize)⟩] }, ?_⟩
  unfold blockAllocatorInit
  rw [hmmap]
  dsimp only
  rw [if_neg (by decide)]
  rfl

end

/-- Pages for 4 MiB, and more than enough for their tables. -/
def readyProcess : Process := freshProcess (pagesFrom 1 4096) (pagesFrom 5000 1024)

theorem pageAddress_of_mem {first n : Nat} {page : Word} (hfirst : 0 < first)
    (hfits : first + n ≤ 2 ^ 22) (hpage : page ∈ pagesFrom first n) : Paging.PageAddress page := by
  obtain ⟨i, hi, hvalue⟩ := (mem_pagesFrom hfits).mp hpage
  have hnonzero : page ≠ 0 := by
    rintro rfl
    have hzero : (0 : Word).toNat = 0 := rfl
    omega
  exact ⟨hnonzero, by omega, by omega⟩

theorem readyProcess_initial : Initial readyProcess := by
  apply freshProcess_initial
  · exact fun _ => pageAddress_of_mem (by decide) (by decide)
  · exact pagesFrom_nodup (by decide)
  · intro page hpage
    obtain ⟨i, hi, hvalue⟩ := (mem_pagesFrom (by decide)).mp hpage
    omega
  · exact pagesFrom_nodup (by decide)

/-- A program that starts on it has no block of 5 MiB. -/
theorem readyProcess_start : ∃ h : UserHeap, Start ⟨h, []⟩ ∧
    findFreeBlock h 0x500000 = some 0 := by
  have hready : ∀ page ∈ pagesFrom 1 4096, page ≠ 0 := fun _ hpage =>
    (pageAddress_of_mem (by decide) (by decide) hpage).nonzero
  obtain ⟨process, hinit⟩ := freshProcess_init (fun _ => ⟨0, 0, 0, 0, 0, 0, 0, 0⟩)
    (Nat.le_of_eq (pagesFrom_length ..).symm) hready (pagesFrom_length 5000 1024)
  refine ⟨_, ⟨[], _, _, .start readyProcess_initial, hinit, rfl⟩, ?_⟩
  obtain ⟨fuel, hfuel⟩ : ∃ fuel, walkFuel = fuel + 2 :=
    ⟨walkFuel - 2, (Nat.sub_add_cancel (by decide)).symm⟩
  have hsmall : ¬ 0x500000 ≤ blockAllocatorDefaultSize - headerSize := by decide
  simp [findFreeBlock, hfuel, findFreeBlockFrom, hsmall]

/-! ## Growth -/

/-- In every run, the heap does not grow as the kernel wants it to: the
request is right exactly when there is none, and the call that makes one does
not return. -/
theorem growthAgrees_iff {history : List (State Process × Event)} {s : State Process}
    (h : Run Start Step history s) (size : Nat) :
    (GrowthAgrees s.heap size ↔ ∃ x ≠ 0, findFreeBlock s.heap size = some x) ∧
      (findFreeBlock s.heap size = some 0 → blockAllocatorAllocate s.heap size = none) := by
  have hinv : Inv s := h.invariant (fun _ => start_inv) fun _ _ _ hinv hstep => hinv.step hstep
  obtain ⟨xs, fs, e, hs, he, _⟩ := hinv
  refine ⟨?_, growth_stops hs he⟩
  obtain ⟨x, hfind, _⟩ := findFreeBlock_spec hs size
  by_cases hx : x = 0
  · rw [hx] at hfind
    apply iff_of_false
    · intro hagrees
      obtain ⟨l, y, hs, hlast⟩ := last_block hs
      obtain ⟨z, hz, haligned, _⟩ := hagrees hfind
      cases hlast.symm.trans hz
      exact growthRequest_unaligned hs he haligned
    · rintro ⟨y, hy, hfound⟩
      exact hy (Option.some.inj (hfound.symm.trans hfind))
  · apply iff_of_true
    · intro hzero
      exact absurd (Option.some.inj (hfind.symm.trans hzero)) hx
    · exact ⟨x, hx, hfind⟩

/-- On `readyProcess`, `malloc` does not return for 5 MiB. -/
theorem readyProcess_stops : ∃ s : State Process,
    ¬ GrowthAgrees s.heap 0x500000 ∧ blockAllocatorAllocate s.heap 0x500000 = none := by
  obtain ⟨h, hstart, hfind⟩ := readyProcess_start
  obtain ⟨hiff, hstops⟩ := growthAgrees_iff (.start hstart) 0x500000
  refine ⟨_, ?_, hstops hfind⟩
  rw [hiff]
  rintro ⟨x, hx, hfound⟩
  exact hx (Option.some.inj (hfound.symm.trans hfind))

/-- The heap of `readyProcess` cannot grow. -/
theorem readyProcess_growth : ∃ s : State Process, Run Start Step [] s ∧
    ¬ GrowthAgrees s.heap 0x500000 := by
  obtain ⟨h, hstart, hfind⟩ := readyProcess_start
  obtain ⟨xs, fs, e, hs, he, _⟩ := start_inv hstart
  refine ⟨_, .start hstart, ?_⟩
  intro hagrees
  obtain ⟨l, x, hs, hlast⟩ := last_block hs
  obtain ⟨y, hy, haligned, _⟩ := hagrees hfind
  cases hlast.symm.trans hy
  exact growthRequest_unaligned hs he haligned

end ZOs.Libz
