import ZOs.Memory.HeapPages
import ZOs.Memory.MapBelow
import ZOs.Memory.MapPartition
import ZOs.Memory.PageFree

/-!
# The kernel heap in physical memory

`kernel/kmalloc.c` puts a heap at the end of the kernel's address space. Its
pages come from the page allocator, its mappings go into the kernel's
tables, and the tables are made of pages that the page allocator does not
have. Here the three run together, from `mmap_init` on, beside everything
else that takes pages and maps: no byte of the heap is anyone else's.
-/

namespace ZOs.KernelHeap

open Runs Paging BootMap
open BlockAllocator (AddressSpace Heap BlockHeader blockAllocatorInit heapEnd)
open PageAlloc (PageAllocator BuddyInv pageShift inBlock pageVirtualAddress windowPages)

/-! ## The machine -/

/-- `KERNEL_HEAP_VIRTUAL_BASE`. -/
def kernelHeapVirtualBase : Nat := 0xffffffffa0000000

/-- `KERNEL_HEAP_PAGE_FLAGS`: `PAGE_FLAG_NORMAL_MEMORY`, `PAGE_FLAG_EL1_RW`
and `PAGE_FLAG_NX`. -/
def kernelHeapPageFlags : Nat := 0x3 <<< 2 ||| 0x0 <<< 6 ||| (1 <<< 53 ||| 1 <<< 54)

/-- The two table registers, the root in `g_kernel_address_space`, the
tables of the kernel and the page allocator. -/
structure Machine where
  ttbr0 : Word
  ttbr1 : Word
  rootPageTable : Word
  kernel : Kernel
  pages : PageAllocator

/-- `g_kernel_address_space`. -/
def Machine.addressSpace (m : Machine) : Vmap :=
  (m.kernel.buildVmapTable (.ofNat 64 kernelHeapVirtualBase)).withRoot m.rootPageTable

/-- `vmap_is_active`. -/
def Machine.vmapIsActive (m : Machine) : Bool :=
  m.ttbr0 >>> 1 = m.rootPageTable >>> 1 || m.ttbr1 >>> 1 = m.rootPageTable >>> 1

/-- `page_alloc_block`. One of its assertions could fail and end the call,
but none does in a machine that has been started (`Backing.take`). -/
def Machine.pageAllocBlock (dm : DirectMap) (order : Nat) (m : Machine) : Option Nat × Machine :=
  match PageAlloc.pageAllocBlock dm m.pages order with
  | none => (none, m)
  | some (answer, pages) => (answer, { m with pages := pages })

/-- `vmap_map_page`. -/
def Machine.vmapMapPage (page va flags : Nat) (m : Machine) : Bool × Machine :=
  match Paging.vmapMapPage (.ofNat 64 page) (.ofNat 64 va) (.ofNat 64 flags) m.addressSpace with
  | (r, v) =>
    (r.isSome, { m with rootPageTable := v.rootPageTable, kernel := m.kernel.keep v })

/-- The address space of the heap. What it maps is not said here: that is
an invariant of the machine (`Backing.leaf`). -/
def machineSpace (dm : DirectMap) : AddressSpace Machine where
  vmapIsActive := Machine.vmapIsActive
  pageAllocBlock := Machine.pageAllocBlock dm
  vmapMapPage := Machine.vmapMapPage
  mapped _ _ := True
  alloc_keeps _ _ _ _ := trivial
  map_keeps _ _ _ _ _ _ := trivial
  map_maps _ _ _ _ _ _ _ _ _ _ := trivial

/-- `kernel_heap_init`: `mmap_build_vmap`, then `block_allocator_init`. -/
def kernelHeapInit (dm : DirectMap) (headers : Nat → BlockHeader) (m : Machine) :
    Option (Int × Heap Machine) :=
  let ttbrTable := m.kernel.getTtbrTable (.ofNat 64 kernelHeapVirtualBase)
  if ttbrTable = 0 then some (-1, ⟨0, 0, 0, 0, headers, m⟩)
  else
    blockAllocatorInit (machineSpace dm) kernelHeapVirtualBase kernelHeapPageFlags headers
      { m with rootPageTable := ttbrTable }

/-! ## Runs -/

/-- The kernel heap on its machine, what is live in it, and the blocks of
pages that others hold. -/
structure State where
  alloc : BlockAllocator.State Machine
  others : List (Nat × Nat)

def State.machine (s : State) : Machine := s.alloc.heap.space

def State.setMachine (s : State) (m : Machine) : State :=
  { s with alloc := { s.alloc with heap := { s.alloc.heap with space := m } } }

/-- The address behind the heap. -/
def State.heapEnd (s : State) : Nat := BlockAllocator.heapEnd s.alloc.heap

/-- Where the tables of the kernel lead an address. -/
def State.physical (s : State) (a : Nat) : Option Nat :=
  (s.machine.kernel.mmapVirtualToPhysical (.ofNat 64 a)).map (·.toNat)

/-- A page frame of memory that has been handed out: someone else's, or one
that the heap shows. -/
def State.Taken (s : State) (page : Nat) : Prop :=
  (∃ b ∈ s.others, inBlock b page = true) ∨
    ∃ a p, kernelHeapVirtualBase ≤ a ∧ a < s.heapEnd ∧ s.physical a = some p ∧ p / 4096 = page

inductive Action where
  | heap (event : BlockAllocator.Event)
  | takeBlock (order : Nat)
  | freeBlock (block : Nat × Nat)
  | map (c : MapCall)
  | write (page : Nat)
  | switch (ttbr0 : Word)

/-- A step of the heap, or one of the rest of the kernel: it takes and gives
back blocks of pages, maps below the heap, writes to memory that has been
handed out (whoever holds it), and changes the address space of the user
half. -/
inductive Step (dm : DirectMap) (s : State) : Action → State → Prop
  | heap {event : BlockAllocator.Event} {alloc : BlockAllocator.State Machine}
      (hstep : BlockAllocator.Step (machineSpace dm) s.alloc event alloc) :
      Step dm s (.heap event) { s with alloc := alloc }
  | takeBlock {order : Nat} {answer : Option Nat} {pages : PageAllocator}
      (hcall : PageAlloc.pageAllocBlock dm s.machine.pages order = some (answer, pages)) :
      Step dm s (.takeBlock order)
        { s.setMachine { s.machine with pages := pages } with
          others := (answer.map fun a => (a >>> pageShift, order)).toList ++ s.others }
  | freeBlock {block : Nat × Nat} {fuel : Nat} {result : Int} {pages : PageAllocator}
      (hmem : block ∈ s.others)
      (hcall : PageAlloc.pageAllocFree dm (fuel + 1) s.machine.pages (block.1 <<< pageShift)
        block.2 = some (result, pages)) :
      Step dm s (.freeBlock block)
        { s.setMachine { s.machine with pages := pages } with others := s.others.erase block }
  | map {c : MapCall} {kernel : Kernel} (hallowed : c.Allowed s.machine.kernel)
      (hbelow : c.Below kernelHeapVirtualBase) (hreturns : c.Returns s.machine.kernel kernel) :
      Step dm s (.map c) (s.setMachine { s.machine with kernel := kernel })
  | write {page value : Nat} {memory : Nat → Word} (htaken : s.Taken page)
      (hsame : ∀ address, address / 4096 ≠ page →
        memory address = s.machine.kernel.memory address) :
      Step dm s (.write page)
        (s.setMachine
          { s.machine with
            kernel := { s.machine.kernel with memory := memory }
            pages :=
              { s.machine.pages with
                nextPage := Function.update s.machine.pages.nextPage (pageVirtualAddress page)
                  value } })
  | switch {ttbr0 : Word} :
      Step dm s (.switch ttbr0) (s.setMachine { s.machine with ttbr0 := ttbr0 })

/-- The machine after `mmap_apply_mappings`; `g_kernel_address_space` is
still zero. -/
def started (kernel : Kernel) (pages : PageAllocator) : Machine where
  ttbr0 := kernel.ttbr0Table &&& ~~~1
  ttbr1 := kernel.ttbr1Table &&& ~~~1
  rootPageTable := 0
  kernel := kernel
  pages := pages

/-- What `kernel_main` does up to `kernel_heap_init`: `mmap_init` on a
machine whose boot loader has mapped no blocks where the heap will be, then
`page_alloc_init` on the map that it built. -/
inductive Booted (dm : DirectMap) : State → Prop
  | intro {efi : List EfiMemoryDescriptor} {ttbr1 : Word} {memory : Nat → Word} {kernel : Kernel}
      {a : Allocators} {map : KernelMemoryMap} {nextPage : Nat → Nat} {pages : PageAllocator}
      {headers : Nat → BlockHeader} {h : Heap Machine} (hwf : WellFormedEfi efi)
      (hloader : LoaderOutside efi ttbr1 memory)
      (hpages : LoaderPages kernelHeapVirtualBase (ttbr1 &&& tblEntryAddrMask) memory)
      (hregion : TablesInWindow efi) (hstrands : ¬ StrandsPageTables efi)
      (hinit : mmapInit efi ttbr1 memory = some kernel)
      (hreserve : mmapReserveMemory efi = some a) (hbuild : mmapBuildMemoryMap a efi = some map)
      (halloc : PageAlloc.pageAllocInit nextPage map.entries = some (0, pages))
      (hheap : kernelHeapInit dm headers (started kernel pages) = some (0, h)) :
      Booted dm ⟨⟨h, []⟩, []⟩

/-! ## What backs the heap -/

/-- The heap's page of this number. -/
def heapPage (i : Nat) : Nat := kernelHeapVirtualBase / 4096 + i

/-- The first `n` pages of the heap show the frames `frame 0`, `frame 1`, …,
different ones, in the blocks `own` that the heap has taken; the others hold
different blocks, and the tables are in none of the pages the page
allocator manages. -/
structure Backing (usable : Set Nat) (m : Machine) (others own : List (Nat × Nat))
    (frame : Nat → Nat) (n : Nat) : Prop where
  buddy : ∃ free, BuddyInv m.pages usable (own ++ others) free
  tables : TablesIn (fun page => page.toNat / 4096 ∉ usable) m.kernel
  root : m.rootPageTable = m.kernel.ttbr1Table
  active : m.ttbr1 >>> 1 = m.kernel.ttbr1Table >>> 1
  clear : ∀ x : Word, kernelHeapVirtualBase ≤ x.toNat → ¬ Covered (m.kernel.buildVmapTable x) x
  leaf : ∀ i < n, ∀ x : Word, x.toNat / 4096 = heapPage i →
    (m.kernel.buildVmapTable x).walk (path x) =
      .leaf 3 (pageEntry (.ofNat 64 (frame i * 4096)) (.ofNat 64 kernelHeapPageFlags))
  held : ∀ i < n, ∃ b ∈ own, inBlock b (frame i) = true
  injective : ∀ i < n, ∀ j < n, frame i = frame j → i = j

section
variable {dm : DirectMap} {usable : Set Nat} {m m' : Machine} {others own : List (Nat × Nat)}
  {frame : Nat → Nat} {n i j off order : Nat} {x : Word}

theorem isUpper_heap (hx : kernelHeapVirtualBase ≤ x.toNat) : isUpper x = true := by
  rw [isUpper_iff]
  unfold kernelHeapVirtualBase at hx
  omega

theorem kernelHeapPageFlags_attributes : AttributeFlags (.ofNat 64 kernelHeapPageFlags) := by
  unfold AttributeFlags
  decide

theorem Backing.mono (h : Backing usable m others own frame n) {k : Nat} (hk : k ≤ n) :
    Backing usable m others own frame k where
  buddy := h.buddy
  tables := h.tables
  root := h.root
  active := h.active
  clear := h.clear
  leaf i hi := h.leaf i (Nat.lt_of_lt_of_le hi hk)
  held i hi := h.held i (Nat.lt_of_lt_of_le hi hk)
  injective i hi j hj := h.injective i (Nat.lt_of_lt_of_le hi hk) j (Nat.lt_of_lt_of_le hj hk)

/-- Where the frames are the same, nothing else of the function matters. -/
theorem Backing.congr (h : Backing usable m others own frame n) {frame' : Nat → Nat}
    (hsame : ∀ i < n, frame' i = frame i) : Backing usable m others own frame' n where
  buddy := h.buddy
  tables := h.tables
  root := h.root
  active := h.active
  clear := h.clear
  leaf i hi := by
    rw [hsame i hi]
    exact h.leaf i hi
  held i hi := by
    rw [hsame i hi]
    exact h.held i hi
  injective i hi j hj := by
    rw [hsame i hi, hsame j hj]
    exact h.injective i hi j hj

/-- The machine is active, whatever the user half is. -/
theorem Backing.isActive (h : Backing usable m others own frame n) : m.vmapIsActive = true := by
  have hsame : m.ttbr1 >>> 1 = m.rootPageTable >>> 1 := h.active.trans (by rw [h.root])
  unfold Machine.vmapIsActive
  rw [hsame]
  simp

/-- The frames lie in the window. -/
theorem Backing.frame_usable (h : Backing usable m others own frame n) (hi : i < n) :
    frame i ∈ usable ∧ frame i < windowPages := by
  obtain ⟨free, hbuddy⟩ := h.buddy
  obtain ⟨b, hb, hin⟩ := h.held i hi
  have husable : frame i ∈ usable :=
    hbuddy.mem_usable (List.mem_append_right _ (List.mem_append_left _ hb)) hin
  exact ⟨husable, hbuddy.window _ husable⟩

/-- No frame of the heap is someone else's. -/
theorem Backing.apart (h : Backing usable m others own frame n) (hi : i < n) {b : Nat × Nat}
    (hb : b ∈ others) : inBlock b (frame i) = false := by
  obtain ⟨free, hbuddy⟩ := h.buddy
  obtain ⟨c, hc, hin⟩ := h.held i hi
  have hdisjoint := (List.pairwise_append.mp hbuddy.partition.disjoint).2.1
  rw [← Bool.not_eq_true]
  exact fun hin' => (List.pairwise_append.mp hdisjoint).2.2 c hc b hb (frame i) ⟨hin, hin'⟩

/-- Where an address of the heap leads. -/
theorem Backing.translate (h : Backing usable m others own frame n) (hi : i < n)
    (hx : x.toNat / 4096 = heapPage i) : m.kernel.mmapVirtualToPhysical x =
      some (.ofNat 64 (frame i * 4096 + x.toNat % 4096)) := by
  have hwindow := (h.frame_usable hi).2
  unfold windowPages at hwindow
  have hnumber : (BitVec.ofNat 64 (frame i * 4096)).toNat = frame i * 4096 := by
    rw [BitVec.toNat_ofNat]
    omega
  have hbase : PageBase (.ofNat 64 (frame i * 4096)) := by
    unfold PageBase
    rw [hnumber]
    omega
  unfold Kernel.mmapVirtualToPhysical
  rw [vmapVirtualToPhysical_eq, h.leaf i hi x hx]
  show some ((pageEntry _ _ &&& tblEntryAddrMask) ||| _) = _
  rw [pageEntry_mask]
  apply congrArg some
  apply BitVec.eq_of_toNat_eq
  show (pageTarget (.ofNat 64 (frame i * 4096)) (.ofNat 64 kernelHeapPageFlags) x).toNat = _
  rw [pageTarget_toNat, Bits.and_eq_right_of_clear kernelHeapPageFlags_attributes.addr,
    hbase.masked, hnumber, BitVec.toNat_ofNat]
  omega

end

/-! ## Steps of the heap -/

section
variable {dm : DirectMap} {usable : Set Nat} {m m' : Machine} {others own : List (Nat × Nat)}
  {frame : Nat → Nat} {n p page va flags order : Nat} {ok : Bool} {answer : Option Nat} {x : Word}

theorem toNat_heap (hlt : va < 2 ^ 64) : (BitVec.ofNat 64 va).toNat = va := by
  rw [BitVec.toNat_ofNat, Nat.mod_eq_of_lt hlt]

/-- `g_kernel_address_space` is the upper half of the kernel's tables. -/
theorem Backing.addressSpace (h : Backing usable m others own frame n)
    (hva : kernelHeapVirtualBase ≤ x.toNat) : m.addressSpace = m.kernel.buildVmapTable x := by
  have hupper := isUpper_heap hva
  have hbase : isUpper (.ofNat 64 kernelHeapVirtualBase) = true := by decide
  rw [buildVmapTable_congr (hupper.trans hbase.symm)]
  unfold Machine.addressSpace Vmap.withRoot
  rw [h.root]
  exact congrArg (fun root => { m.kernel.buildVmapTable _ with rootPageTable := root })
    (if_pos hbase).symm

/-- `vmap_map_page` in the heap does to the kernel's tables what
`mmap_map_page` does. -/
theorem Backing.vmapMapPage (h : Backing usable m others own frame n)
    (hva : kernelHeapVirtualBase ≤ va) (hlt : va < 2 ^ 64)
    (hcall : m.vmapMapPage page va flags = (ok, m')) :
    ∃ r kernel, mmapMapPage (.ofNat 64 page) (.ofNat 64 va) (.ofNat 64 flags) m.kernel =
      (r, kernel) ∧ ok = r.isSome ∧ m' = { m with kernel := kernel } := by
  have hupper : kernelHeapVirtualBase ≤ (BitVec.ofNat 64 va).toNat := by
    rw [toNat_heap hlt]
    exact hva
  have hspace := h.addressSpace hupper
  obtain ⟨tables, howned, -⟩ := h.tables.owned
  have hroot := rootKept_vmapMapPage (.ofNat 64 page) (.ofNat 64 va) (.ofNat 64 flags)
    (m.kernel.buildVmapTable (.ofNat 64 va)) (howned.root _)
  unfold Machine.vmapMapPage at hcall
  rw [hspace] at hcall
  rcases hmap : Paging.vmapMapPage (.ofNat 64 page) (.ofNat 64 va) (.ofNat 64 flags)
    (m.kernel.buildVmapTable (.ofNat 64 va)) with ⟨r, v⟩
  rw [hmap] at hcall hroot
  obtain ⟨rfl, rfl⟩ := Prod.mk.inj hcall
  refine ⟨r, _, mmapMapPage_eq hmap, rfl, ?_⟩
  have hsame : v.rootPageTable = m.rootPageTable := by
    rw [hroot, h.root]
    exact if_pos (isUpper_heap hupper)
  rw [hsame]

/-- One page more. -/
theorem Backing.extend (h : Backing usable m others own frame n)
    (hheld : ∃ b ∈ own, inBlock b (frame n) = true) (hnew : ∀ i < n, frame i ≠ frame n)
    (hleaf : ∀ x : Word, x.toNat / 4096 = heapPage n →
      (m.kernel.buildVmapTable x).walk (path x) =
        .leaf 3 (pageEntry (.ofNat 64 (frame n * 4096)) (.ofNat 64 kernelHeapPageFlags))) :
    Backing usable m others own frame (n + 1) where
  buddy := h.buddy
  tables := h.tables
  root := h.root
  active := h.active
  clear := h.clear
  leaf i hi := by
    rcases Nat.lt_succ_iff_lt_or_eq.mp hi with hi | rfl
    · exact h.leaf i hi
    · exact hleaf
  held i hi := by
    rcases Nat.lt_succ_iff_lt_or_eq.mp hi with hi | rfl
    · exact h.held i hi
    · exact hheld
  injective i hi j hj heq := by
    rcases Nat.lt_succ_iff_lt_or_eq.mp hi with hi | rfl
    · rcases Nat.lt_succ_iff_lt_or_eq.mp hj with hj | rfl
      · exact h.injective i hi j hj heq
      · exact absurd heq (hnew i hi)
    · rcases Nat.lt_succ_iff_lt_or_eq.mp hj with hj | rfl
      · exact absurd heq.symm (hnew j hj)
      · rfl

/-- The next page of the heap is mapped, or the call gives up and changes no
translation. -/
theorem Backing.mapPage (h : Backing usable m others own frame n)
    (hfits : kernelHeapVirtualBase + n * 4096 < 2 ^ 64) (hheld : ∃ b ∈ own, inBlock b p = true)
    (hnew : ∀ i < n, frame i ≠ p)
    (hcall : m.vmapMapPage (p * 4096) (kernelHeapVirtualBase + n * 4096) kernelHeapPageFlags =
      (ok, m')) :
    Backing usable m' others own (Function.update frame n p) (if ok then n + 1 else n) := by
  have hva : kernelHeapVirtualBase ≤
      (BitVec.ofNat 64 (kernelHeapVirtualBase + n * 4096)).toNat := by
    rw [toNat_heap hfits]
    exact Nat.le_add_right _ _
  obtain ⟨r, kernel, hmap, rfl, rfl⟩ := h.vmapMapPage (Nat.le_add_right _ _) hfits hcall
  have hnot := h.clear _ hva
  have hwalk : ∀ x : Word, kernelHeapVirtualBase ≤ x.toNat → _ := fun x hx =>
    h.tables.mapPage hnot hmap (x := x) ((isUpper_heap hx).trans (isUpper_heap hva).symm)
  have htables := h.tables.call (c := .page _ _ _) hnot ⟨r, hmap⟩
  -- only 48 bits of an address are translated, but above the base they tell the pages apart
  have hnumber : ∀ x : Word, kernelHeapVirtualBase ≤ x.toNat →
      (pageNumber x = pageNumber (.ofNat 64 (kernelHeapVirtualBase + n * 4096)) ↔
        x.toNat / 4096 = heapPage n) := by
    intro x hx
    have hlt := x.isLt
    unfold pageNumber heapPage kernelHeapVirtualBase at *
    rw [toNat_heap hfits]
    omega
  have hroot : kernel.ttbr1Table = m.kernel.ttbr1Table := by
    unfold mmapMapPage at hmap
    split at hmap <;> exact (congrArg Kernel.ttbr1Table (Prod.mk.inj hmap).2).symm
  have hkept : ∀ i < n, ∀ x : Word, x.toNat / 4096 = heapPage i →
      (kernel.buildVmapTable x).walk (path x) =
        .leaf 3 (pageEntry (.ofNat 64 (frame i * 4096)) (.ofNat 64 kernelHeapPageFlags)) := by
    intro i hi x hx
    have hlo : kernelHeapVirtualBase ≤ x.toNat := by
      unfold heapPage kernelHeapVirtualBase at *
      omega
    rw [(hwalk x hlo).1 (.inr fun heq => ?_), h.leaf i hi x hx]
    have hsame := (hnumber x hlo).mp heq
    unfold heapPage at hx hsame
    omega
  have hclear : ∀ x : Word, kernelHeapVirtualBase ≤ x.toNat →
      ¬ Covered (kernel.buildVmapTable x) x := by
    rintro x hx ⟨d, e, hleaf, hd⟩
    by_cases hsame : r = none ∨
        pageNumber x ≠ pageNumber (.ofNat 64 (kernelHeapVirtualBase + n * 4096))
    · rw [(hwalk x hx).1 hsame] at hleaf
      exact h.clear x hx ⟨d, e, hleaf, hd⟩
    · obtain ⟨hr, hpage⟩ := not_or.mp hsame
      obtain ⟨u, rfl⟩ := Option.ne_none_iff_exists'.mp hr
      rw [(hwalk x hx).2 rfl (not_not.mp hpage)] at hleaf
      injection hleaf with hdepth _
      omega
  -- the tables may have grown even where the call gave up
  have hold : Backing usable { m with kernel := kernel } others own (Function.update frame n p)
      n := by
    have hframe : Backing usable { m with kernel := kernel } others own frame n :=
      ⟨h.buddy, htables, h.root.trans hroot.symm, h.active.trans (by rw [hroot]), hclear, hkept,
        h.held, h.injective⟩
    exact hframe.congr fun i hi => Function.update_of_ne (Nat.ne_of_lt hi) _ _
  cases r with
  | none => exact hold
  | some u =>
    apply hold.extend
    · rw [Function.update_self]
      exact hheld
    · intro i hi
      rw [Function.update_self, Function.update_of_ne (Nat.ne_of_lt hi)]
      exact hnew i hi
    · intro x hx
      have hlo : kernelHeapVirtualBase ≤ x.toNat := by
        unfold heapPage kernelHeapVirtualBase at *
        omega
      rw [Function.update_self]
      exact (hwalk x hlo).2 rfl ((hnumber x hlo).mpr hx)

/-- A block that the page allocator gives is one that nobody has. -/
theorem Backing.take (h : Backing usable m others own frame n)
    (hcall : m.pageAllocBlock dm order = (answer, m')) :
    answer = none ∧ m' = m ∨ ∃ block, answer = some (block <<< pageShift) ∧
      Backing usable m' others ((block, order) :: own) frame n ∧
      ∀ q, inBlock (block, order) q = true → ∀ i < n, frame i ≠ q := by
  obtain ⟨free, hbuddy⟩ := h.buddy
  unfold Machine.pageAllocBlock at hcall
  rcases PageAlloc.pageAllocBlock_spec dm hbuddy order with
    ⟨-, hnone⟩ | ⟨_, block, pages, free', _, _, _, hsome, hinv⟩
  · rw [hnone] at hcall
    obtain ⟨rfl, rfl⟩ := Prod.mk.inj hcall
    exact .inl ⟨rfl, rfl⟩
  · rw [hsome] at hcall
    obtain ⟨rfl, rfl⟩ := Prod.mk.inj hcall
    refine .inr ⟨block, rfl, ⟨⟨free', hinv⟩, h.tables, h.root, h.active, h.clear, h.leaf,
      fun i hi => ?_, h.injective⟩, fun q hq i hi heq => ?_⟩
    · obtain ⟨b, hb, hin⟩ := h.held i hi
      exact ⟨b, List.mem_cons_of_mem _ hb, hin⟩
    · obtain ⟨b, hb, hin⟩ := h.held i hi
      have hpart := hinv.partition.perm List.perm_middle
      have hfalse := (List.pairwise_cons.mp hpart.disjoint).1 b
        (List.mem_append_right _ (List.mem_append_left _ hb)) (frame i)
      exact hfalse ⟨heq ▸ hq, hin⟩

/-- The loop over the new pages of a heap that grows. -/
theorem Backing.mapNewPages {start remaining i : Nat}
    (h : Backing usable m others own frame (n + i))
    (hstart : start = kernelHeapVirtualBase + n * 4096)
    (hfits : kernelHeapVirtualBase + (n + i + remaining) * 4096 ≤ 2 ^ 64)
    (hcall : BlockAllocator.mapNewPages (machineSpace dm) kernelHeapPageFlags start remaining i m =
      (ok, m')) :
    ∃ own' frame', (∀ j < n + i, frame' j = frame j) ∧
      Backing usable m' others own' frame' (if ok then n + i + remaining else n + i) := by
  induction remaining generalizing i m own frame with
  | zero =>
    obtain ⟨rfl, rfl⟩ := Prod.mk.inj hcall
    exact ⟨own, frame, fun _ _ => rfl, h⟩
  | succ remaining ih =>
    rw [BlockAllocator.mapNewPages] at hcall
    rcases hblock : m.pageAllocBlock dm BlockAllocator.pageAllocOrder4KB with ⟨answer, m₁⟩
    have hspace : (machineSpace dm).pageAllocBlock BlockAllocator.pageAllocOrder4KB m =
        (answer, m₁) := hblock
    rw [hspace] at hcall
    rcases h.take hblock with ⟨rfl, rfl⟩ | ⟨block, rfl, h₁, hnew⟩
    · obtain ⟨rfl, rfl⟩ := Prod.mk.inj hcall
      exact ⟨own, frame, fun _ _ => rfl, h⟩
    · have hva : BlockAllocator.add64 start (i * PageAlloc.pageSize) =
          kernelHeapVirtualBase + (n + i) * 4096 := by
        unfold BlockAllocator.add64 PageAlloc.pageSize
        omega
      have hpa : block <<< pageShift = block * 4096 := Nat.shiftLeft_eq block 12
      dsimp only at hcall
      rw [hva, hpa] at hcall
      have hin : inBlock (block, BlockAllocator.pageAllocOrder4KB) block = true :=
        PageAlloc.inBlock_head (block, _)
      rcases hmap : m₁.vmapMapPage (block * 4096) (kernelHeapVirtualBase + (n + i) * 4096)
        kernelHeapPageFlags with ⟨ok₁, m₂⟩
      have hspace₁ : (machineSpace dm).vmapMapPage (block * 4096)
          (kernelHeapVirtualBase + (n + i) * 4096) kernelHeapPageFlags m₁ = (ok₁, m₂) := hmap
      rw [hspace₁] at hcall
      have h₂ := h₁.mapPage (by omega) ⟨_, List.mem_cons_self, hin⟩ (hnew block hin) hmap
      have hsame : ∀ j < n + i, Function.update frame (n + i) block j = frame j :=
        fun j hj => Function.update_of_ne (Nat.ne_of_lt hj) _ _
      cases ok₁ with
      | false =>
        obtain ⟨rfl, rfl⟩ := Prod.mk.inj hcall
        exact ⟨_, _, hsame, h₂⟩
      | true =>
        have hcount : n + (i + 1) + remaining = n + i + (remaining + 1) := by omega
        obtain ⟨own', frame', hkept, h'⟩ := ih (i := i + 1) h₂ (by rwa [hcount]) hcall
        refine ⟨own', frame', fun j hj => (hkept j (by omega)).trans (hsame j hj), ?_⟩
        -- a failed call leaves the pages that were mapped before it, which nobody uses
        cases ok with
        | false => exact h'.mono (Nat.le_succ _)
        | true => exact hcount ▸ h'

/-- The pages of the block that the heap starts with. -/
theorem inBlock_default {block : Nat} (hn : n < 1024) :
    inBlock (block, BlockAllocator.blockAllocatorDefaultOrder) (block + n) = true := by
  rw [PageAlloc.inBlock_iff]
  unfold BlockAllocator.blockAllocatorDefaultOrder
  dsimp only
  omega

/-- A page of the block that the heap starts with. -/
theorem Backing.mapBlockPage {block : Nat} (h : Backing usable m others own frame n)
    (hblock : (block, BlockAllocator.blockAllocatorDefaultOrder) ∈ own)
    (hframe : ∀ i < n, frame i = block + i) (hn : n < 1024)
    (hcall : m.vmapMapPage ((block + n) * 4096) (kernelHeapVirtualBase + n * 4096)
      kernelHeapPageFlags = (true, m')) :
    ∃ frame', Backing usable m' others own frame' (n + 1) ∧ ∀ i < n + 1, frame' i = block + i := by
  have hnew : ∀ i < n, frame i ≠ block + n := by
    intro i hi
    rw [hframe i hi]
    omega
  have hfits : kernelHeapVirtualBase + n * 4096 < 2 ^ 64 := by
    unfold kernelHeapVirtualBase
    omega
  have h₁ : Backing usable m' others own (Function.update frame n (block + n)) (n + 1) :=
    h.mapPage hfits ⟨_, hblock, inBlock_default hn⟩ hnew hcall
  refine ⟨_, h₁, fun i hi => ?_⟩
  rcases Nat.lt_succ_iff_lt_or_eq.mp hi with hi | rfl
  · rw [Function.update_of_ne (Nat.ne_of_lt hi)]
    exact hframe i hi
  · exact Function.update_self ..

/-- One round of `vmap_map_range` over the first block. -/
theorem Backing.mapRange_succ {block fuel : Nat} (h : Backing usable m others own frame n)
    (hblock : (block, BlockAllocator.blockAllocatorDefaultOrder) ∈ own) (hn : n < 1024)
    (hcall : m.vmapMapPage ((block + n) * 4096) (kernelHeapVirtualBase + n * 4096)
      kernelHeapPageFlags = (ok, m')) :
    BlockAllocator.vmapMapRange (machineSpace dm)
        (kernelHeapVirtualBase + BlockAllocator.blockAllocatorDefaultSize) kernelHeapPageFlags
        (fuel + 1) (kernelHeapVirtualBase + n * 4096) ((block + n) * 4096) m =
      if ok then
        BlockAllocator.vmapMapRange (machineSpace dm)
          (kernelHeapVirtualBase + BlockAllocator.blockAllocatorDefaultSize) kernelHeapPageFlags
          fuel (kernelHeapVirtualBase + (n + 1) * 4096) ((block + (n + 1)) * 4096) m'
      else some (false, m') := by
  have hwindow : block + n < windowPages := by
    obtain ⟨free, hbuddy⟩ := h.buddy
    exact hbuddy.window _ (hbuddy.mem_usable
      (List.mem_append_right _ (List.mem_append_left _ hblock)) (inBlock_default hn))
  have hsize : BlockAllocator.blockAllocatorDefaultSize = 1024 * 4096 := by decide
  have hnextVa : BlockAllocator.add64 (kernelHeapVirtualBase + n * 4096) 4096 =
      kernelHeapVirtualBase + (n + 1) * 4096 := by
    unfold BlockAllocator.add64 kernelHeapVirtualBase
    omega
  have hnextPa : BlockAllocator.add64 ((block + n) * 4096) 4096 = (block + (n + 1)) * 4096 := by
    unfold BlockAllocator.add64
    unfold windowPages at hwindow
    omega
  have hspace : (machineSpace dm).vmapMapPage ((block + n) * 4096)
      (kernelHeapVirtualBase + n * 4096) kernelHeapPageFlags m = (ok, m') := hcall
  rw [BlockAllocator.vmapMapRange, if_pos (by omega), hspace, hnextVa, hnextPa]
  cases ok with
  | false => rfl
  | true => rfl

/-- It ends behind the last page. -/
theorem mapRange_end {block fuel : Nat} :
    BlockAllocator.vmapMapRange (machineSpace dm)
      (kernelHeapVirtualBase + BlockAllocator.blockAllocatorDefaultSize) kernelHeapPageFlags
      (fuel + 1) (kernelHeapVirtualBase + 1024 * 4096) ((block + 1024) * 4096) m =
        some (true, m) := by
  have hsize : BlockAllocator.blockAllocatorDefaultSize = 1024 * 4096 := by decide
  rw [BlockAllocator.vmapMapRange, hsize, if_neg (Nat.lt_irrefl _)]

/-- The loop of `vmap_map_range` over the first block. -/
theorem Backing.mapRange {block fuel : Nat} (h : Backing usable m others own frame n)
    (hblock : (block, BlockAllocator.blockAllocatorDefaultOrder) ∈ own)
    (hframe : ∀ i < n, frame i = block + i) (hn : n ≤ 1024)
    (hcall : BlockAllocator.vmapMapRange (machineSpace dm)
      (kernelHeapVirtualBase + BlockAllocator.blockAllocatorDefaultSize) kernelHeapPageFlags fuel
      (kernelHeapVirtualBase + n * 4096) ((block + n) * 4096) m = some (true, m')) :
    ∃ frame', Backing usable m' others own frame' 1024 := by
  induction fuel generalizing n m frame with
  | zero => cases hcall
  | succ fuel ih =>
    by_cases hend : n = 1024
    · rw [hend, mapRange_end] at hcall
      obtain ⟨-, rfl⟩ := Prod.mk.inj (Option.some.inj hcall)
      exact ⟨frame, hend ▸ h⟩
    · have hlt : n < 1024 := by omega
      rcases hmap : m.vmapMapPage ((block + n) * 4096) (kernelHeapVirtualBase + n * 4096)
        kernelHeapPageFlags with ⟨ok, m₁⟩
      rw [h.mapRange_succ hblock hlt hmap] at hcall
      cases ok with
      | false => cases hcall
      | true =>
        obtain ⟨frame₁, h₁, hframe₁⟩ := h.mapBlockPage hblock hframe hlt hmap
        exact ih h₁ hframe₁ hlt hcall

end

/-! ## Steps of others -/

section
variable {dm : DirectMap} {usable : Set Nat} {m m' : Machine} {others own : List (Nat × Nat)}
  {frame : Nat → Nat} {n : Nat}

/-- A block that is freed is free, if the call returns. -/
theorem freed_of_returned {pages pages' : PageAllocator} {allocated : List (Nat × Nat)}
    {free : Nat → List Nat} {block : Nat × Nat} {fuel : Nat} {result : Int}
    (h : BuddyInv pages usable (block :: allocated) free)
    (hcall : PageAlloc.pageAllocFree dm (fuel + 1) pages (block.1 <<< pageShift) block.2 =
      some (result, pages')) : ∃ free', BuddyInv pages' usable allocated free' := by
  have horder := h.order_le block List.mem_cons_self
  have hshift : block.1 <<< pageShift >>> pageShift = block.1 := Nat.shiftLeft_shiftRight _ _
  rw [PageAlloc.pageAllocFree, hshift] at hcall
  by_cases hsecond : ∀ b ∈ PageAlloc.mergedBuddies pages (PageAlloc.maxOrder - block.2) block.2
      block.1, PageAlloc.StandsSecond pages b
  · obtain ⟨pages₁, free', hfree, hinv, -⟩ :=
      PageAlloc.mergeAndPush_returns dm fuel _ (Nat.add_sub_cancel' horder) h hsecond
    rw [hfree] at hcall
    obtain ⟨-, rfl⟩ := Prod.mk.inj (Option.some.inj hcall)
    exact ⟨free', hinv⟩
  · -- a buddy that is not second in its list makes the call loop
    push Not at hsecond
    rw [PageAlloc.mergeAndPush_stuck dm (fuel + 1) _ (Nat.add_sub_cancel' horder) h hsecond]
      at hcall
    cases hcall

theorem Backing.takeOther (h : Backing usable m others own frame n) {order : Nat}
    {answer : Option Nat} {pages : PageAllocator}
    (hcall : PageAlloc.pageAllocBlock dm m.pages order = some (answer, pages)) :
    Backing usable { m with pages := pages }
      ((answer.map fun a => (a >>> pageShift, order)).toList ++ others) own frame n := by
  obtain ⟨free, hbuddy⟩ := h.buddy
  refine ⟨?_, h.tables, h.root, h.active, h.clear, h.leaf, h.held, h.injective⟩
  rcases PageAlloc.pageAllocBlock_spec dm hbuddy order with
    ⟨-, hnone⟩ | ⟨_, block, pages₁, free', _, _, _, hsome, hinv⟩
  · rw [hnone] at hcall
    obtain ⟨rfl, rfl⟩ := Prod.mk.inj (Option.some.inj hcall)
    exact ⟨free, hbuddy⟩
  · rw [hsome] at hcall
    obtain ⟨rfl, rfl⟩ := Prod.mk.inj (Option.some.inj hcall)
    have hshift : block <<< pageShift >>> pageShift = block := Nat.shiftLeft_shiftRight _ _
    refine ⟨free', hinv.perm ?_⟩
    show ((block, order) :: (own ++ others)).Perm
      (own ++ ((block <<< pageShift >>> pageShift, order) :: others))
    rw [hshift]
    exact List.perm_middle.symm

theorem Backing.freeOther (h : Backing usable m others own frame n) {block : Nat × Nat}
    {fuel : Nat} {result : Int} {pages : PageAllocator} (hmem : block ∈ others)
    (hcall : PageAlloc.pageAllocFree dm (fuel + 1) m.pages (block.1 <<< pageShift) block.2 =
      some (result, pages)) :
    Backing usable { m with pages := pages } (others.erase block) own frame n := by
  obtain ⟨free, hbuddy⟩ := h.buddy
  have hperm : (own ++ others).Perm (block :: (own ++ others.erase block)) :=
    ((List.perm_cons_erase hmem).append_left own).trans List.perm_middle
  exact ⟨freed_of_returned (hbuddy.perm hperm) hcall, h.tables, h.root, h.active, h.clear,
    h.leaf, h.held, h.injective⟩

theorem Backing.map (h : Backing usable m others own frame n) {c : MapCall} {kernel : Kernel}
    (hallowed : c.Allowed m.kernel) (hbelow : c.Below kernelHeapVirtualBase)
    (hreturns : c.Returns m.kernel kernel) :
    Backing usable { m with kernel := kernel } others own frame n := by
  have hwalk : ∀ x : Word, kernelHeapVirtualBase ≤ x.toNat →
      (kernel.buildVmapTable x).walk (path x) = (m.kernel.buildVmapTable x).walk (path x) :=
    fun x hx => h.tables.above hallowed hreturns hbelow (by decide) (by decide) (by decide) hx
  have hroot : kernel.ttbr1Table = m.kernel.ttbr1Table := by
    obtain ⟨tables, howned, -⟩ := h.tables.owned
    obtain ⟨v, rfl, -⟩ := MapCall.runs howned hreturns
    rfl
  refine ⟨h.buddy, h.tables.call hallowed hreturns, h.root.trans hroot.symm,
    h.active.trans (by rw [hroot]), fun x hx => ?_, fun i hi x hx => ?_, h.held, h.injective⟩
  · rintro ⟨d, e, hleaf, hd⟩
    rw [hwalk x hx] at hleaf
    exact h.clear x hx ⟨d, e, hleaf, hd⟩
  · have hlo : kernelHeapVirtualBase ≤ x.toNat := by
      unfold heapPage kernelHeapVirtualBase at *
      omega
    exact (hwalk x hlo).trans (h.leaf i hi x hx)

theorem Backing.switch (h : Backing usable m others own frame n) (ttbr0 : Word) :
    Backing usable { m with ttbr0 := ttbr0 } others own frame n :=
  ⟨h.buddy, h.tables, h.root, h.active, h.clear, h.leaf, h.held, h.injective⟩

/-- What is written to a page that has been handed out reaches no table and
no free list. -/
theorem Backing.write (h : Backing usable m others own frame n) {page value : Nat}
    {memory : Nat → Word} (hpage : ∃ b ∈ own ++ others, inBlock b page = true)
    (hsame : ∀ address, address / 4096 ≠ page → memory address = m.kernel.memory address) :
    Backing usable
      { m with
        kernel := { m.kernel with memory := memory }
        pages :=
          { m.pages with
            nextPage := Function.update m.pages.nextPage (pageVirtualAddress page) value } }
      others own frame n := by
  obtain ⟨free, hbuddy⟩ := h.buddy
  obtain ⟨b, hb, hin⟩ := hpage
  have husable : page ∈ usable := hbuddy.mem_usable (List.mem_append_right _ hb) hin
  have hfar : ∀ t : Word, PageAddress t → t.toNat / 4096 ∉ usable → ∀ address,
      InPage t address → memory address = m.kernel.memory address := by
    intro t ht hout address ⟨hlo, hhi⟩
    apply hsame
    intro heq
    have hal := ht.aligned
    have hnumber : t.toNat / 4096 = page := by omega
    exact hout (hnumber ▸ husable)
  obtain ⟨htables, hwalk⟩ := h.tables.write hfar
  refine ⟨⟨free, hbuddy.client_write hb hin value⟩, htables, h.root, h.active, fun x hx => ?_,
    fun i hi x hx => (hwalk x _).trans (h.leaf i hi x hx), h.held, h.injective⟩
  rintro ⟨d, e, hleaf, hd⟩
  exact h.clear x hx ⟨d, e, (hwalk x _).symm.trans hleaf, hd⟩

end

/-! ## Whole runs -/

/-- How many pages the heap has. -/
def State.pages (s : State) : Nat := (s.heapEnd - kernelHeapVirtualBase) / 4096

/-- The laws of the heap, and what backs it. -/
structure Inv (dm : DirectMap) (usable : Set Nat) (s : State) (own : List (Nat × Nat))
    (frame : Nat → Nat) : Prop where
  ordered : BlockAllocator.Ordered (machineSpace dm) s.alloc
  base : s.alloc.heap.virtualBase = kernelHeapVirtualBase
  flags : s.alloc.heap.pageFlags = kernelHeapPageFlags
  backing : Backing usable s.machine s.others own frame s.pages

section
variable {dm : DirectMap} {usable : Set Nat} {s s' : State} {m : Machine}
  {others own : List (Nat × Nat)} {frame : Nat → Nat} {action : Action} {a b p : Nat}

theorem pages_of_heapEnd {n : Nat} (h : s.heapEnd = kernelHeapVirtualBase + n * 4096) :
    s.pages = n := by
  unfold State.pages
  rw [h]
  omega

/-- The heap consists of pages, up to the end of the address space. -/
theorem Inv.heapEnd_eq (h : Inv dm usable s own frame) :
    s.heapEnd = kernelHeapVirtualBase + s.pages * 4096 ∧ s.heapEnd ≤ 2 ^ 64 := by
  obtain ⟨xs, fs, e, hs, -, -⟩ := h.ordered
  have hend : s.heapEnd = e := BlockAllocator.heapEnd_eq hs
  obtain ⟨x, hx⟩ := List.exists_mem_of_ne_nil _ hs.nonempty
  obtain ⟨hlo, hhi, hfits⟩ := hs.bounds hx
  have hal := hs.range.aligned
  rw [h.base] at hlo
  unfold State.pages
  rw [hend]
  unfold kernelHeapVirtualBase at *
  omega

/-- The heap itself does not change with the machine. -/
theorem ordered_setMachine (h : BlockAllocator.Ordered (machineSpace dm) s.alloc) (m : Machine) :
    BlockAllocator.Ordered (machineSpace dm) (s.setMachine m).alloc ∧
      (s.setMachine m).heapEnd = s.heapEnd := by
  obtain ⟨xs, fs, e, hs, hapart, hl⟩ := h
  have hs' := hs.space (w := m) fun _ _ => trivial
  exact ⟨⟨xs, fs, e, hs', hapart, hl.block, hl.nodup⟩,
    (BlockAllocator.heapEnd_eq hs').trans (BlockAllocator.heapEnd_eq hs).symm⟩

theorem Inv.setMachine (h : Inv dm usable s own frame)
    (hbacking : Backing usable m others own frame s.pages) :
    Inv dm usable { s.setMachine m with others := others } own frame ∧
      State.pages { s.setMachine m with others := others } = s.pages := by
  obtain ⟨hordered, hend⟩ := ordered_setMachine h.ordered m
  have hpages : State.pages { s.setMachine m with others := others } = s.pages :=
    congrArg (fun e => (e - kernelHeapVirtualBase) / 4096) hend
  exact ⟨⟨hordered, h.base, h.flags, hpages.symm ▸ hbacking⟩, hpages⟩

/-- The number of an address of the heap is that of one of its pages. -/
theorem Inv.page_of (h : Inv dm usable s own frame) (hlo : kernelHeapVirtualBase ≤ a)
    (hhi : a < s.heapEnd) : ∃ i < s.pages, a / 4096 = heapPage i ∧ a < 2 ^ 64 := by
  obtain ⟨hend, hfits⟩ := h.heapEnd_eq
  refine ⟨(a - kernelHeapVirtualBase) / 4096, ?_, ?_, by omega⟩
  · rw [hend] at hhi
    omega
  · unfold heapPage kernelHeapVirtualBase at *
    omega

/-- Where the bytes of the heap are. -/
theorem Inv.physical_eq (h : Inv dm usable s own frame) {i : Nat} (hi : i < s.pages)
    (ha : a / 4096 = heapPage i) (hlt : a < 2 ^ 64) :
    s.physical a = some (frame i * 4096 + a % 4096) := by
  have hx : (BitVec.ofNat 64 a).toNat = a := toNat_heap hlt
  have hwindow := (h.backing.frame_usable hi).2
  unfold windowPages at hwindow
  unfold State.physical
  rw [h.backing.translate hi (by rw [hx, ha]), hx]
  show some (BitVec.ofNat 64 (frame i * 4096 + a % 4096)).toNat = _
  rw [toNat_heap (by omega)]

/-- A page that may be written to belongs to a block that has been taken. -/
theorem Inv.taken (h : Inv dm usable s own frame) {page : Nat} (htaken : s.Taken page) :
    ∃ b ∈ own ++ s.others, inBlock b page = true := by
  rcases htaken with ⟨b, hb, hin⟩ | ⟨a, p, hlo, hhi, hp, rfl⟩
  · exact ⟨b, List.mem_append_right _ hb, hin⟩
  · obtain ⟨i, hi, ha, hlt⟩ := h.page_of hlo hhi
    rw [h.physical_eq hi ha hlt, Option.some.injEq] at hp
    obtain ⟨b, hb, hin⟩ := h.backing.held i hi
    have hpage : p / 4096 = frame i := by omega
    exact ⟨b, List.mem_append_left _ hb, hpage ▸ hin⟩

/-- What a step of the heap itself keeps. -/
theorem Inv.heapStep (h : Inv dm usable s own frame) {event : BlockAllocator.Event}
    {alloc : BlockAllocator.State Machine}
    (hstep : BlockAllocator.Step (machineSpace dm) s.alloc event alloc) :
    ∃ own' frame', Inv dm usable { s with alloc := alloc } own' frame' ∧
      s.pages ≤ State.pages { s with alloc := alloc } ∧ ∀ i < s.pages, frame' i = frame i := by
  have hactive : (machineSpace dm).vmapIsActive s.alloc.heap.space = true := h.backing.isActive
  have hreached := hstep.reached h.ordered hactive
  have hordered := hstep.ordered h.ordered
  have hbase := hreached.base.trans h.base
  have hflags := hreached.flags.trans h.flags
  obtain ⟨hend, -⟩ := h.heapEnd_eq
  have haddress : BlockAllocator.heapEnd s.alloc.heap = s.heapEnd := rfl
  rcases hreached.space with ⟨hspace, hsame⟩ | ⟨size, ok, hfits, hgrowth, hgrown⟩
  · have hpages : State.pages { s with alloc := alloc } = s.pages :=
      congrArg (fun e => (e - kernelHeapVirtualBase) / 4096) hsame
    refine ⟨own, frame, ⟨hordered, hbase, hflags, ?_⟩, Nat.le_of_eq hpages.symm, fun _ _ => rfl⟩
    have hmachine : State.machine { s with alloc := alloc } = s.machine := hspace
    rw [hpages, hmachine]
    exact h.backing
  · have hroom : size + BlockAllocator.headerSize < 2 ^ 64 := by omega
    obtain ⟨-, hhi⟩ := BlockAllocator.numPages_bounds size hroom
    rw [haddress, hend] at hfits hgrowth hgrown
    unfold BlockAllocator.growth at hgrowth
    rw [h.flags] at hgrowth
    have hbefore : Backing usable s.machine s.others own frame (s.pages + 0) := by
      rw [Nat.add_zero]
      exact h.backing
    have hlast : kernelHeapVirtualBase + (s.pages + 0 + BlockAllocator.numPages size) * 4096 ≤
        2 ^ 64 := by
      unfold kernelHeapVirtualBase BlockAllocator.headerSize at *
      omega
    obtain ⟨own', frame', hkept, hbacking⟩ := hbefore.mapNewPages rfl hlast hgrowth
    have hpages : State.pages { s with alloc := alloc } =
        if ok then s.pages + 0 + BlockAllocator.numPages size else s.pages + 0 := by
      apply pages_of_heapEnd
      have hafter : State.heapEnd { s with alloc := alloc } = _ := hgrown
      rw [hafter]
      split <;> omega
    rw [Nat.add_zero] at hkept
    refine ⟨own', frame', ⟨hordered, hbase, hflags, ?_⟩, ?_, hkept⟩
    · rw [hpages]
      exact hbacking
    · rw [hpages]
      split <;> omega

/-- **One step**: the heap keeps its laws and its pages, and where a page of
it was, it stays. -/
theorem Inv.step (h : Inv dm usable s own frame) (hstep : Step dm s action s') :
    ∃ own' frame', Inv dm usable s' own' frame' ∧ s.pages ≤ s'.pages ∧
      ∀ i < s.pages, frame' i = frame i := by
  cases hstep with
  | heap hstep => exact h.heapStep hstep
  | takeBlock hcall =>
    obtain ⟨hinv, hpages⟩ := h.setMachine (h.backing.takeOther hcall)
    exact ⟨own, frame, hinv, Nat.le_of_eq hpages.symm, fun _ _ => rfl⟩
  | freeBlock hmem hcall =>
    obtain ⟨hinv, hpages⟩ := h.setMachine (h.backing.freeOther hmem hcall)
    exact ⟨own, frame, hinv, Nat.le_of_eq hpages.symm, fun _ _ => rfl⟩
  | map hallowed hbelow hreturns =>
    obtain ⟨hinv, hpages⟩ := h.setMachine (h.backing.map hallowed hbelow hreturns)
    exact ⟨own, frame, hinv, Nat.le_of_eq hpages.symm, fun _ _ => rfl⟩
  | write htaken hsame =>
    obtain ⟨hinv, hpages⟩ := h.setMachine (h.backing.write (h.taken htaken) hsame)
    exact ⟨own, frame, hinv, Nat.le_of_eq hpages.symm, fun _ _ => rfl⟩
  | @switch ttbr0 =>
    obtain ⟨hinv, hpages⟩ := h.setMachine (h.backing.switch ttbr0)
    exact ⟨own, frame, hinv, Nat.le_of_eq hpages.symm, fun _ _ => rfl⟩

end

/-! ## Boot -/

section
variable {dm : DirectMap} {efi : List EfiMemoryDescriptor} {ttbr1 : Word} {memory : Nat → Word}
  {kernel : Kernel} {a : Allocators} {map : KernelMemoryMap} {nextPage : Nat → Nat}
  {pages : PageAllocator} {headers : Nat → BlockHeader} {h : Heap Machine}
  {s : State}

/-- The page allocator manages usable pages, and none of the page table
region. -/
theorem buddyInv_boot (hwf : WellFormedEfi efi) (hstrands : ¬ StrandsPageTables efi)
    (hreserve : mmapReserveMemory efi = some a) (hbuild : mmapBuildMemoryMap a efi = some map)
    (halloc : PageAlloc.pageAllocInit nextPage map.entries = some (0, pages)) :
    (∃ free, BuddyInv pages (PageAlloc.usablePages map.entries) [] free) ∧
      ∀ page ∈ a.pageTable.pages, page ∉ PageAlloc.usablePages map.entries := by
  have hstarts : AtStarts efi a := by
    rcases mmapReserveMemory_spec hwf hreserve with ⟨hstarts, -⟩ | ⟨hstranded, -⟩
    · exact hstarts
    · obtain ⟨d, hfirst, hzero, hlong, -⟩ := hstranded
      exact absurd ⟨d, hfirst, hzero, hlong⟩ hstrands
  have htiles := hstarts.tiles hwf
  rw [← mmapBuildMemoryMap_entries hbuild] at htiles
  have hmap := htiles.wellFormedMap hwf halloc
  constructor
  · have hinv := (PageAlloc.initDescriptors_spec hmap (PageAlloc.buddyInv_empty nextPage)
      (Set.empty_disjoint _)).1 0 pages halloc
    simpa using hinv.2
  · intro page hpage hin
    rw [htiles.usable] at hin
    exact hin.2 (.inr hpage)

/-- The tables that `mmap_init` builds. -/
theorem tablesIn_boot {P : Word → Prop} (hwf : WellFormedEfi efi)
    (hloader : LoaderOutside efi ttbr1 memory)
    (hpages : LoaderPages kernelHeapVirtualBase (ttbr1 &&& tblEntryAddrMask) memory)
    (hregion : TablesInWindow efi) (hinit : mmapInit efi ttbr1 memory = some kernel)
    (hreserve : mmapReserveMemory efi = some a)
    (hP : ∀ page : Word, page.toNat / 4096 ∈ a.pageTable.pages → P page) :
    TablesIn P kernel ∧ ∀ x : Word, kernelHeapVirtualBase ≤ x.toNat →
      ¬ Covered (kernel.buildVmapTable x) x := by
  unfold mmapInit at hinit
  rw [hreserve] at hinit
  dsimp only at hinit
  cases hbuild : mmapBuildMemoryMap a efi with
  | none =>
    rw [hbuild] at hinit
    cases hinit
  | some m =>
    rw [hbuild] at hinit
    obtain ⟨start, hat, haligned⟩ := mmapReserveMemory_pageTable hwf hreserve
    have hend := hregion a hreserve
    rw [hat.memoryEnd] at hend
    unfold mmapPhysicalRegionSize at hend
    refine tablesIn_buildTables (freshAnswers_tableAnswers hat haligned hend) (hloader a hreserve)
      (fun page hpage => hP page ?_) hpages (by decide) (by decide) (by decide) hinit
    obtain ⟨i, hi, htoNat⟩ := mem_tableAnswers hat (by omega) hpage
    unfold BumpAllocator.pages efiPageSize
    rw [hat.memoryStart, hat.memoryEnd, Set.mem_Ico]
    omega

/-- A heap without pages. -/
theorem Backing.empty {usable : Set Nat} {m : Machine}
    (hactive : m.ttbr1 >>> 1 = m.kernel.ttbr1Table >>> 1)
    (hbuddy : ∃ free, BuddyInv m.pages usable [] free)
    (htables : TablesIn (fun page => page.toNat / 4096 ∉ usable) m.kernel)
    (hclear : ∀ x : Word, kernelHeapVirtualBase ≤ x.toNat →
      ¬ Covered (m.kernel.buildVmapTable x) x) :
    Backing usable { m with rootPageTable := m.kernel.ttbr1Table } [] [] (fun _ => 0) 0 :=
  ⟨hbuddy, htables, rfl, hactive, hclear, fun i hi => absurd hi (Nat.not_lt_zero i),
    fun i hi => absurd hi (Nat.not_lt_zero i), fun i hi => absurd hi (Nat.not_lt_zero i)⟩

/-- A heap that has been initialised has as many pages as its first block. -/
theorem kernelHeapInit_initialised {m : Machine}
    (hheap : kernelHeapInit dm headers m = some (0, h)) :
    BlockAllocator.Initialised (machineSpace dm) ⟨h, []⟩ ∧
      blockAllocatorInit (machineSpace dm) kernelHeapVirtualBase kernelHeapPageFlags headers
        { m with rootPageTable := m.kernel.ttbr1Table } = some (0, h) ∧
      h.virtualBase = kernelHeapVirtualBase ∧ h.pageFlags = kernelHeapPageFlags ∧
      State.heapEnd ⟨⟨h, []⟩, []⟩ = kernelHeapVirtualBase + 1024 * 4096 := by
  have hupper : m.kernel.getTtbrTable (.ofNat 64 kernelHeapVirtualBase) = m.kernel.ttbr1Table :=
    if_pos (by decide)
  unfold kernelHeapInit at hheap
  dsimp only at hheap
  rw [hupper] at hheap
  by_cases hroot : m.kernel.ttbr1Table = 0
  · rw [if_pos hroot] at hheap
    simp at hheap
  rw [if_neg hroot] at hheap
  have hinitialised : BlockAllocator.Initialised (machineSpace dm) ⟨h, []⟩ :=
    .intro (by decide) (by decide) hheap
  obtain ⟨page, m₁, hfirst⟩ := BlockAllocator.blockAllocatorInit_spec hheap
  obtain ⟨m₂, -, hh⟩ := BlockAllocator.firstBlock_spec hfirst
  have hbase : h.virtualBase = kernelHeapVirtualBase := by rw [hh]
  have hflags : h.pageFlags = kernelHeapPageFlags := by rw [hh]
  have hnonzero : h.virtualBase ≠ 0 := by
    rw [hbase]
    decide
  obtain ⟨hs, -, -⟩ := hinitialised.shape hnonzero
  refine ⟨hinitialised, hheap, hbase, hflags, (BlockAllocator.heapEnd_eq hs).trans ?_⟩
  show h.virtualBase + BlockAllocator.blockAllocatorDefaultSize = _
  rw [hbase]
  decide

/-- A heap that has been initialised is backed by one block of pages. -/
theorem Backing.init {usable : Set Nat} {m : Machine}
    (hactive : m.ttbr1 >>> 1 = m.kernel.ttbr1Table >>> 1)
    (hbuddy : ∃ free, BuddyInv m.pages usable [] free)
    (htables : TablesIn (fun page => page.toNat / 4096 ∉ usable) m.kernel)
    (hclear : ∀ x : Word, kernelHeapVirtualBase ≤ x.toNat →
      ¬ Covered (m.kernel.buildVmapTable x) x)
    (hheap : kernelHeapInit dm headers m = some (0, h)) :
    ∃ own frame, Inv dm usable ⟨⟨h, []⟩, []⟩ own frame := by
  obtain ⟨hinitialised, hinit, hbase, hflags, hend⟩ := kernelHeapInit_initialised hheap
  have hbefore := Backing.empty hactive hbuddy htables hclear
  generalize { m with rootPageTable := m.kernel.ttbr1Table } = m₀ at hinit hbefore
  unfold blockAllocatorInit at hinit
  have hisActive : (machineSpace dm).vmapIsActive m₀ = true := hbefore.isActive
  rw [if_pos hisActive] at hinit
  rcases hblock : m₀.pageAllocBlock dm BlockAllocator.blockAllocatorDefaultOrder with ⟨answer, m₁⟩
  have hspace : (machineSpace dm).pageAllocBlock BlockAllocator.blockAllocatorDefaultOrder m₀ =
      (answer, m₁) := hblock
  rw [hspace] at hinit
  rcases hbefore.take hblock with ⟨rfl, rfl⟩ | ⟨block, rfl, h₁, -⟩
  · simp at hinit
  dsimp only at hinit
  obtain ⟨m₂, hrange, hh⟩ := BlockAllocator.firstBlock_spec hinit
  have hmachine : h.space = m₂ := by rw [hh]
  have hpa : block <<< pageShift = (block + 0) * 4096 := Nat.shiftLeft_eq block 12
  have hva : BlockAllocator.add64 kernelHeapVirtualBase BlockAllocator.blockAllocatorDefaultSize =
      kernelHeapVirtualBase + BlockAllocator.blockAllocatorDefaultSize := by decide
  rw [hpa, hva] at hrange
  obtain ⟨frame, hbacking⟩ := h₁.mapRange List.mem_cons_self
    (fun i hi => absurd hi (Nat.not_lt_zero i)) (by decide) hrange
  have hnonzero : h.virtualBase ≠ 0 := by
    rw [hbase]
    decide
  refine ⟨[(block, BlockAllocator.blockAllocatorDefaultOrder)], frame,
    hinitialised.ordered hnonzero, hbase, hflags, ?_⟩
  rw [pages_of_heapEnd hend]
  show Backing usable h.space [] _ frame 1024
  rw [hmachine]
  exact hbacking

/-- `x & ~1` is `x` up to the lowest bit. -/
theorem clearLowest_shift (x : Word) : (x &&& ~~~1) >>> 1 = x >>> 1 := by
  have hones : (~~~(1 : Word)) >>> 1 = (BitVec.allOnes 64) >>> 1 := by decide
  rw [BitVec.ushiftRight_and_distrib, hones, ← BitVec.ushiftRight_and_distrib,
    BitVec.and_allOnes]

theorem Booted.inv (hboot : Booted dm s) : ∃ usable own frame, Inv dm usable s own frame := by
  obtain @⟨efi, ttbr1, memory, kernel, a, map, nextPage, pages, headers, h, hwf, hloader, hpages,
    hregion, hstrands, hinit, hreserve, hbuild, halloc, hheap⟩ := hboot
  obtain ⟨hbuddy, hout⟩ := buddyInv_boot hwf hstrands hreserve hbuild halloc
  obtain ⟨htables, hclear⟩ := tablesIn_boot hwf hloader hpages hregion hinit hreserve
    fun page hpage => hout _ hpage
  obtain ⟨own, frame, hinv⟩ := Backing.init (clearLowest_shift kernel.ttbr1Table) hbuddy htables
    hclear hheap
  exact ⟨_, own, frame, hinv⟩

end

/-! ## Privacy -/

def State.InHeap (s : State) (a : Nat) : Prop := kernelHeapVirtualBase ≤ a ∧ a < s.heapEnd

/-- Every byte of the heap has a byte of memory, no two the same, and it is
in no block that someone else holds and in no table. Memory that has been
allocated is in the heap, and no two live allocations share a byte. -/
structure Private (s : State) : Prop where
  backed : ∀ a, s.InHeap a → ∃ p < mmapPhysicalRegionSize, s.physical a = some p
  distinct : ∀ a b p, s.InHeap a → s.InHeap b → s.physical a = some p → s.physical b = some p →
    a = b
  others : ∀ a p, s.InHeap a → s.physical a = some p → ∀ b ∈ s.others,
    inBlock b (p / 4096) = false
  tables : ∀ a p, s.InHeap a → s.physical a = some p → ∀ x t indices,
    (s.machine.kernel.buildVmapTable x).Reached t indices → t.toNat / 4096 ≠ p / 4096
  inside : ∀ q ∈ s.alloc.live, ∀ a, q.1 ≤ a → a < q.1 + q.2 → s.InHeap a
  objects : s.alloc.live.Pairwise fun q r => ∀ a b, q.1 ≤ a → a < q.1 + q.2 → r.1 ≤ b →
    b < r.1 + r.2 → s.physical a ≠ s.physical b

section
variable {dm : DirectMap} {usable : Set Nat} {s : State} {own : List (Nat × Nat)}
  {frame : Nat → Nat} {history : List (State × Action)} {a b p : Nat}

/-- An address of the heap by the frame behind it. -/
theorem Inv.inHeap (h : Inv dm usable s own frame) (ha : s.InHeap a) :
    ∃ i < s.pages, a / 4096 = heapPage i ∧ s.physical a = some (frame i * 4096 + a % 4096) := by
  obtain ⟨i, hi, hpage, hlt⟩ := h.page_of ha.1 ha.2
  exact ⟨i, hi, hpage, h.physical_eq hi hpage hlt⟩

theorem Inv.distinct (h : Inv dm usable s own frame) (ha : s.InHeap a) (hb : s.InHeap b)
    (hsame : s.physical a = s.physical b) : a = b := by
  obtain ⟨i, hi, hpage, hphys⟩ := h.inHeap ha
  obtain ⟨j, hj, hpage', hphys'⟩ := h.inHeap hb
  rw [hphys, hphys', Option.some.injEq] at hsame
  have hframe : frame i = frame j := by omega
  obtain rfl := h.backing.injective i hi j hj hframe
  omega

theorem Inv.inside (h : Inv dm usable s own frame) {q : Nat × Nat} (hq : q ∈ s.alloc.live)
    (hlo : q.1 ≤ a) (hhi : a < q.1 + q.2) : s.InHeap a := by
  obtain ⟨xs, fs, e, hs, -, hl⟩ := h.ordered
  obtain ⟨x, hx, haddr, -, hsize⟩ := hl.block q hq
  obtain ⟨hbase, hend, -⟩ := hs.bounds hx
  rw [h.base] at hbase
  have heapEnd_eq : s.heapEnd = e := BlockAllocator.heapEnd_eq hs
  constructor
  · omega
  · omega

theorem Inv.isPrivate (h : Inv dm usable s own frame) : Private s where
  backed a ha := by
    obtain ⟨i, hi, -, hphys⟩ := h.inHeap ha
    have hwindow := (h.backing.frame_usable hi).2
    refine ⟨_, ?_, hphys⟩
    unfold windowPages at hwindow
    unfold mmapPhysicalRegionSize
    omega
  distinct a b p ha hb hphys hphys' := h.distinct ha hb (hphys.trans hphys'.symm)
  others a p ha hphys b hb := by
    obtain ⟨i, hi, -, hphys'⟩ := h.inHeap ha
    rw [hphys', Option.some.injEq] at hphys
    have hframe : p / 4096 = frame i := by omega
    rw [hframe]
    exact h.backing.apart hi hb
  tables a p ha hphys x t indices ht heq := by
    obtain ⟨i, hi, -, hphys'⟩ := h.inHeap ha
    rw [hphys', Option.some.injEq] at hphys
    have hframe : p / 4096 = frame i := by omega
    have hout := h.backing.tables.reached ht
    rw [heq, hframe] at hout
    exact hout (h.backing.frame_usable hi).1
  inside q hq a hlo hhi := h.inside hq hlo hhi
  objects := by
    obtain ⟨xs, fs, e, hs, -, hl⟩ := id h.ordered
    apply (hl.disjoint hs).imp_of_mem
    intro q r hq hr hapart a b hqa haq hrb hbr hsame
    obtain ⟨-, -, -, -, hfitsq, -⟩ := hl.payload hq
    obtain ⟨-, -, -, -, hfitsr, -⟩ := hl.payload hr
    have hab := h.distinct (h.inside hq hqa haq) (h.inside hr hrb hbr) hsame
    omega

/-- **A run**: the invariant holds, and every earlier state had its pages
where they are now. -/
theorem Inv.of_run (hrun : Run (Booted dm) (Step dm) history s) :
    ∃ usable own frame, Inv dm usable s own frame ∧ ∀ q ∈ history, ∃ own' frame',
      Inv dm usable q.1 own' frame' ∧ q.1.pages ≤ s.pages ∧
        ∀ i < q.1.pages, frame i = frame' i := by
  induction hrun with
  | start hboot =>
    obtain ⟨usable, own, frame, hinv⟩ := hboot.inv
    exact ⟨usable, own, frame, hinv, by simp⟩
  | next _ hstep ih =>
    obtain ⟨usable, own, frame, hinv, hpast⟩ := ih
    obtain ⟨own', frame', hinv', hgrown, hkept⟩ := hinv.step hstep
    refine ⟨usable, own', frame', hinv', fun q hq => ?_⟩
    rcases List.mem_cons.mp hq with rfl | hq
    · exact ⟨own, frame, hinv, hgrown, hkept⟩
    · obtain ⟨own₀, frame₀, hinv₀, hpages, hsame⟩ := hpast q hq
      refine ⟨own₀, frame₀, hinv₀, Nat.le_trans hpages hgrown, fun i hi => ?_⟩
      rw [hkept i (Nat.lt_of_lt_of_le hi hpages)]
      exact hsame i hi

/-- What was in the heap stays in it, and in the same byte of memory. -/
theorem Inv.stays {s₀ : State} {own₀ : List (Nat × Nat)} {frame₀ : Nat → Nat}
    (h : Inv dm usable s own frame) (h₀ : Inv dm usable s₀ own₀ frame₀)
    (hpages : s₀.pages ≤ s.pages) (hsame : ∀ i < s₀.pages, frame i = frame₀ i)
    (ha : s₀.InHeap a) : s.InHeap a ∧ s.physical a = s₀.physical a := by
  obtain ⟨i, hi, hpage, hphys⟩ := h₀.inHeap ha
  have hin : s.InHeap a := by
    have hend := h.heapEnd_eq.1
    have hend₀ := h₀.heapEnd_eq.1
    have hhi := ha.2
    exact ⟨ha.1, by omega⟩
  have hnow := h.physical_eq (Nat.lt_of_lt_of_le hi hpages) hpage
    (Nat.lt_of_lt_of_le hin.2 h.heapEnd_eq.2)
  rw [hnow, hphys, hsame i hi]
  exact ⟨hin, rfl⟩

end

/-! ## A heap that is started -/

section
variable {dm : DirectMap} {usable : Set Nat} {m m' : Machine} {others own : List (Nat × Nat)}
  {frame : Nat → Nat} {n : Nat} {ok : Bool}

/-- The first page of a heap has all tables but the last that the first
1024 pages need. -/
theorem Backing.missing_le (h : Backing usable m others own frame n) (hn : n < 1024)
    {va : Word} (hva : va.toNat = kernelHeapVirtualBase + n * 4096) :
    (m.kernel.buildVmapTable va).missing va ≤ if n = 0 then 4 else 1 := by
  unfold Vmap.missing
  by_cases hzero : n = 0
  · rw [if_pos hzero]
    exact List.length_filter_le _ (List.range 4)
  · rw [if_neg hzero]
    -- a walk to the first page does not fault, and so no prefix of it does
    let base : Word := .ofNat 64 kernelHeapVirtualBase
    have hbase : base.toNat = kernelHeapVirtualBase := toNat_heap (by decide)
    have hleaf := h.leaf 0 (by omega) base (by rw [hbase]; rfl)
    have hsame : ∀ k, 30 ≤ k → va >>> k = base >>> k := by
      intro k hk
      have hhigh : va >>> 30 = base >>> 30 := by
        apply BitVec.eq_of_toNat_eq
        rw [BitVec.toNat_ushiftRight, BitVec.toNat_ushiftRight, hva, hbase,
          Nat.shiftRight_eq_div_pow, Nat.shiftRight_eq_div_pow]
        unfold kernelHeapVirtualBase
        omega
      obtain ⟨j, rfl⟩ := Nat.exists_eq_add_of_le hk
      rw [BitVec.shiftRight_add, BitVec.shiftRight_add, hhigh]
    have hprefix : ∀ d < 3, (path va).take d <+: path base := by
      intro d hd
      have htwo : (path va).take 2 = (path base).take 2 := by
        unfold path
        rw [hsame 39 (by decide), hsame 30 (by decide)]
        rfl
      have hmin : min d 2 = d := by omega
      rw [← hmin, ← List.take_take, htwo, List.take_take, hmin]
      exact List.take_prefix _ _
    have hupper : isUpper va = isUpper base := by
      rw [isUpper_heap (by omega), isUpper_heap (by omega)]
    rw [buildVmapTable_congr hupper, ← List.countP_eq_length_filter]
    have hlast : (List.range 4).countP (fun d => decide (d = 3)) = 1 := by decide
    rw [← hlast]
    refine List.countP_mono_left fun d hd hfault => decide_eq_true ?_
    have hd := List.mem_range.mp hd
    by_contra hne
    obtain ⟨rest, hpath⟩ := hprefix d (by omega)
    rw [← hpath, Vmap.walk_fault_append (of_decide_eq_true hfault)] at hleaf
    cases hleaf

/-- With pages for its tables, the next page of the heap is mapped. -/
theorem Backing.mapPage_returns (h : Backing usable m others own frame n) (hn : n < 1024)
    {page : Nat} (henough : (if n = 0 then 4 else 1) ≤ m.kernel.answers.length)
    (hpage : ∀ page ∈ m.kernel.answers, page ≠ 0)
    (hcall : m.vmapMapPage page (kernelHeapVirtualBase + n * 4096) kernelHeapPageFlags =
      (ok, m')) :
    ok = true ∧ m.kernel.answers.length ≤ m'.kernel.answers.length + (if n = 0 then 4 else 1) ∧
      ∀ page ∈ m'.kernel.answers, page ≠ 0 := by
  generalize hva : BitVec.ofNat 64 (kernelHeapVirtualBase + n * 4096) = va
  have htoNat : va.toNat = kernelHeapVirtualBase + n * 4096 := by
    rw [← hva]
    exact toNat_heap (by unfold kernelHeapVirtualBase; omega)
  have hlo : kernelHeapVirtualBase ≤ va.toNat := by omega
  have hmissing := h.missing_le hn htoNat
  obtain ⟨tables, howned, -⟩ := h.tables.owned
  have hpages : HasPages
      (m.kernel.answers.length - (m.kernel.buildVmapTable va).missing va +
        (m.kernel.buildVmapTable va).missing va)
      ((m.kernel.buildVmapTable va).owning (tables (isUpper va))) :=
    ⟨by show _ ≤ m.kernel.answers.length; omega, hpage⟩
  have hreturns : Attempt.Tried (Paging.vmapMapPage (.ofNat 64 page) va
      (.ofNat 64 kernelHeapPageFlags)) _ (fun _ => False) fun _ v => HasPages _ v :=
    hpages.vmapMapPage_missing (howned.tree va) (h.clear va hlo)
  unfold Machine.vmapMapPage at hcall
  rw [h.addressSpace hlo, hva] at hcall
  rcases hmap : Paging.vmapMapPage (.ofNat 64 page) va (.ofNat 64 kernelHeapPageFlags)
    (m.kernel.buildVmapTable va) with ⟨r, v⟩
  obtain ⟨pages', hown⟩ := (blind_vmapMapPage _ _ _).returned hmap (tables (isUpper va))
  rw [hmap] at hcall
  obtain ⟨rfl, rfl⟩ := Prod.mk.inj hcall
  unfold Attempt.Tried at hreturns
  rw [hown] at hreturns
  cases r with
  | none => exact hreturns.elim
  | some u =>
    have hrest : _ ≤ v.answers.length := hreturns.enough
    refine ⟨rfl, ?_, hreturns.page⟩
    show m.kernel.answers.length ≤ v.answers.length + _
    omega

theorem Backing.mapRange_returns {block fuel : Nat} (h : Backing usable m others own frame n)
    (hblock : (block, BlockAllocator.blockAllocatorDefaultOrder) ∈ own)
    (hframe : ∀ i < n, frame i = block + i) (hfuel : 1024 < fuel + n) (hn : n ≤ 1024)
    (henough : (if n = 0 then 1028 else 1025) ≤ m.kernel.answers.length + n)
    (hpage : ∀ page ∈ m.kernel.answers, page ≠ 0) :
    ∃ m', BlockAllocator.vmapMapRange (machineSpace dm)
      (kernelHeapVirtualBase + BlockAllocator.blockAllocatorDefaultSize) kernelHeapPageFlags fuel
      (kernelHeapVirtualBase + n * 4096) ((block + n) * 4096) m = some (true, m') := by
  induction fuel generalizing n m frame with
  | zero => omega
  | succ fuel ih =>
    by_cases hend : n = 1024
    · rw [hend, mapRange_end]
      exact ⟨m, rfl⟩
    · have hlt : n < 1024 := by omega
      rcases hmap : m.vmapMapPage ((block + n) * 4096) (kernelHeapVirtualBase + n * 4096)
        kernelHeapPageFlags with ⟨ok, m₁⟩
      have htables : (if n = 0 then 4 else 1) ≤ m.kernel.answers.length := by
        split at henough <;> simp [*] <;> omega
      obtain ⟨rfl, hleft, hpage₁⟩ := h.mapPage_returns hlt htables hpage hmap
      obtain ⟨frame₁, h₁, hframe₁⟩ := h.mapBlockPage hblock hframe hlt hmap
      rw [h.mapRange_succ hblock hlt hmap, if_pos rfl]
      refine ih h₁ hframe₁ (by omega) hlt ?_ hpage₁
      rw [if_neg (Nat.succ_ne_zero n)]
      split at hleft <;> simp_all <;> omega

/-- `kernel_heap_init` succeeds on a machine with a block of pages for the
heap and a page for each table. -/
theorem kernelHeapInit_returns {headers : Nat → BlockHeader}
    (hactive : m.ttbr1 >>> 1 = m.kernel.ttbr1Table >>> 1) (hroot : m.kernel.ttbr1Table ≠ 0)
    (hbuddy : ∃ free, BuddyInv m.pages usable [] free)
    (htables : TablesIn (fun page => page.toNat / 4096 ∉ usable) m.kernel)
    (hclear : ∀ x : Word, kernelHeapVirtualBase ≤ x.toNat →
      ¬ Covered (m.kernel.buildVmapTable x) x)
    {address : Nat} {pages : PageAllocator}
    (hblock : PageAlloc.pageAllocBlock dm m.pages BlockAllocator.blockAllocatorDefaultOrder =
      some (some address, pages))
    (henough : 1028 ≤ m.kernel.answers.length) (hpage : ∀ page ∈ m.kernel.answers, page ≠ 0) :
    ∃ h, kernelHeapInit dm headers m = some (0, h) := by
  have hupper : m.kernel.getTtbrTable (.ofNat 64 kernelHeapVirtualBase) = m.kernel.ttbr1Table :=
    if_pos (by decide)
  unfold kernelHeapInit
  dsimp only
  rw [hupper, if_neg hroot]
  have hbefore := Backing.empty hactive hbuddy htables hclear
  have hspace : (machineSpace dm).pageAllocBlock BlockAllocator.blockAllocatorDefaultOrder
      { m with rootPageTable := m.kernel.ttbr1Table } =
        (some address, { m with rootPageTable := m.kernel.ttbr1Table, pages := pages }) := by
    show Machine.pageAllocBlock dm _ _ = _
    unfold Machine.pageAllocBlock
    rw [hblock]
  unfold blockAllocatorInit
  rw [if_pos (show (machineSpace dm).vmapIsActive _ = true from hbefore.isActive), hspace]
  rcases hbefore.take hspace with ⟨hnone, -⟩ | ⟨block, hsome, h₁, -⟩
  · cases hnone
  obtain rfl : address = block <<< pageShift := Option.some.inj hsome
  have hrange : ∃ m₂, BlockAllocator.vmapMapRange (machineSpace dm)
      (kernelHeapVirtualBase + BlockAllocator.blockAllocatorDefaultSize) kernelHeapPageFlags
      BlockAllocator.walkFuel kernelHeapVirtualBase ((block + 0) * 4096) _ = some (true, m₂) :=
    h₁.mapRange_returns List.mem_cons_self (fun i hi => absurd hi (Nat.not_lt_zero i))
      (by decide) (by decide) henough hpage
  obtain ⟨m₂, hmapped⟩ := hrange
  have hpa : block <<< pageShift = (block + 0) * 4096 := Nat.shiftLeft_eq block 12
  have hva : BlockAllocator.add64 kernelHeapVirtualBase BlockAllocator.blockAllocatorDefaultSize =
      kernelHeapVirtualBase + BlockAllocator.blockAllocatorDefaultSize := by decide
  dsimp only
  rw [hpa, hva, hmapped]
  exact ⟨_, rfl⟩

end

/-- A machine with memory from 4 KiB up boots. -/
theorem lowBank_booted : ∃ h, Booted .windowOnly ⟨⟨h, []⟩, []⟩ ∧
    State.heapEnd ⟨⟨h, []⟩, []⟩ = kernelHeapVirtualBase + 1024 * 4096 := by
  have htables : (mmapInit (oneBank 0x1000) 0x9000000 fun _ => 0).any (fun kernel =>
      decide (1028 ≤ kernel.answers.length) && kernel.answers.all (· ≠ 0) &&
        decide (kernel.ttbr1Table ≠ 0)) = true := by decide +kernel
  have hfree : ((mmapReserveMemory (oneBank 0x1000)).bind fun a =>
      (mmapBuildMemoryMap a (oneBank 0x1000)).bind fun map =>
        PageAlloc.pageAllocInit (fun _ => 0) map.entries).any (fun r => decide (r.1 = 0) &&
          (PageAlloc.pageAllocBlock .windowOnly r.2 BlockAllocator.blockAllocatorDefaultOrder).any
            fun b => b.1.isSome) = true := by decide +kernel
  obtain ⟨kernel, hinit, hkernel⟩ := (Option.any_eq_true _ _).mp htables
  simp only [Bool.and_eq_true, decide_eq_true_eq, List.all_eq_true] at hkernel
  obtain ⟨⟨henough, hpage⟩, hroot⟩ := hkernel
  obtain ⟨⟨result, pages⟩, hstarted, hblock⟩ := (Option.any_eq_true _ _).mp hfree
  obtain ⟨a, hreserve, hstarted⟩ := Option.bind_eq_some_iff.mp hstarted
  obtain ⟨map, hbuild, halloc⟩ := Option.bind_eq_some_iff.mp hstarted
  simp only [Bool.and_eq_true, decide_eq_true_eq] at hblock
  obtain ⟨rfl, hblock⟩ := hblock
  obtain ⟨⟨answer, rest⟩, hblock, hanswer⟩ := (Option.any_eq_true _ _).mp hblock
  obtain ⟨address, rfl⟩ := Option.isSome_iff_exists.mp hanswer
  have hwf : WellFormedEfi (oneBank 0x1000) := oneBank_wellFormed (by decide) (by decide)
  have hloader : LoaderOutside (oneBank 0x1000) 0x9000000 fun _ => 0 :=
    oneBank_loader (by decide) (by decide) (by decide) ⟨by decide, by decide, by decide⟩
      (.inr (by decide))
  have hpages : LoaderPages kernelHeapVirtualBase (0x9000000 &&& tblEntryAddrMask)
      fun _ => 0 := by
    intro x _ d e hleaf
    have hslot : ∀ t i, (noTables (fun _ => 0) []).slot t i = 0 := fun _ _ => rfl
    rw [path, TableTree.walk, hslot, entryKind_zero] at hleaf
    cases hleaf
  have hregion : TablesInWindow (oneBank 0x1000) := by
    intro b hb
    rw [(oneBank_pageTable (by decide) (by decide) (by decide) hb).memoryEnd]
    decide
  have hstrands : ¬ StrandsPageTables (oneBank 0x1000) := by
    rintro ⟨d, hfirst, hzero, -⟩
    obtain rfl := List.mem_singleton.mp (mem_of_firstRoomy hfirst).1
    cases hzero
  obtain ⟨hbuddy, hout⟩ := buddyInv_boot hwf hstrands hreserve hbuild halloc
  obtain ⟨hin, hclear⟩ := tablesIn_boot hwf hloader hpages hregion hinit hreserve
    fun page hpage => hout _ hpage
  let headers : Nat → BlockHeader := fun _ => ⟨0, 0, 0, 0, 0, 0, 0, 0⟩
  obtain ⟨h, hheap⟩ : ∃ h, kernelHeapInit .windowOnly headers (started kernel pages) =
      some (0, h) :=
    kernelHeapInit_returns (clearLowest_shift kernel.ttbr1Table) hroot hbuddy hin hclear hblock
      henough hpage
  obtain ⟨-, -, -, -, hend⟩ := kernelHeapInit_initialised hheap
  exact ⟨h, .intro hwf hloader hpages hregion hstrands hinit hreserve hbuild halloc hheap, hend⟩

/-! ## The result -/

/-- Whatever the rest of the kernel does, the heap is the heap's alone, what
was in it stays where it was, and its calls return. -/
theorem heap_private {dm : DirectMap} {history : List (State × Action)} {s : State}
    (hrun : Run (Booted dm) (Step dm) history s) :
    Private s ∧
      (∀ q ∈ history, ∀ a, q.1.InHeap a → s.InHeap a ∧ s.physical a = q.1.physical a) ∧
      (∀ size, size + BlockAllocator.headerSize + s.heapEnd < 2 ^ 64 →
        ∃ p h, BlockAllocator.blockAllocatorAllocate (machineSpace dm) s.alloc.heap size =
          some (p, h)) ∧
      ∀ address, address = 0 ∨ address ∈ s.alloc.live.map Prod.fst →
        ∃ h, BlockAllocator.blockAllocatorFree (machineSpace dm) s.alloc.heap address =
          some h := by
  obtain ⟨usable, own, frame, hinv, hpast⟩ := Inv.of_run hrun
  refine ⟨hinv.isPrivate, fun q hq a ha => ?_, hinv.ordered.returns hinv.backing.isActive⟩
  obtain ⟨own₀, frame₀, hinv₀, hpages, hsame⟩ := hpast q hq
  exact hinv.stays hinv₀ hpages hsame ha

/-- With memory from 4 KiB up, after an allocation in another address
space. -/
theorem lowBank_heap : ∃ history s, Run (Booted .windowOnly) (Step .windowOnly) history s ∧
    history.length = 2 ∧ Private s := by
  obtain ⟨h, hboot, hend⟩ := lowBank_booted
  have hfits : 100 + BlockAllocator.headerSize + heapEnd h < 2 ^ 64 := by
    have hend : heapEnd h = _ := hend
    rw [hend]
    decide
  obtain ⟨usable, own, frame, hinv⟩ := hboot.inv
  obtain ⟨p, h', hcall⟩ := (hinv.ordered.returns hinv.backing.isActive).1 100 hfits
  have hrun : Run (Booted .windowOnly) (Step .windowOnly) _ _ :=
    .next (.next (.start hboot) (.heap (.allocate hfits hcall))) (@Step.switch _ _ 0x5000)
  exact ⟨_, _, hrun, rfl, (heap_private hrun).1⟩

end ZOs.KernelHeap
