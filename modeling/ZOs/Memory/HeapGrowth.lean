import ZOs.Memory.HeapSizes
import ZOs.Memory.HeapSpace
import ZOs.Memory.VmapFrame

/-!
# Growth that fails

The heap grows page by page, and a page can be refused at any of them. The
call then returns NULL and leaves both lists as they were; what it does not
do is give back the pages it has taken.
-/

namespace ZOs.BlockAllocator

open Runs Paging

variable {σ : Type}

/-- How many physical pages are free: `page_alloc_block` takes some or fails
and changes nothing, and `vmap_map_page` may take some for tables. -/
structure PagePool (env : AddressSpace σ) where
  freePages : σ → Nat
  taken : ∀ order w page w', env.pageAllocBlock order w = (some page, w') →
    freePages w' < freePages w
  refused : ∀ order w w', env.pageAllocBlock order w = (none, w') → w' = w
  mapping : ∀ page va flags w, freePages (env.vmapMapPage page va flags w).2 ≤ freePages w

/-- The heap `h'` has the lists of `h`, and no page and no mapping is
missing or left over. -/
structure NoTrace {env : AddressSpace σ} (pool : PagePool env) (h h' : Heap σ) : Prop where
  headers : h'.headers = h.headers
  blockListHead : h'.blockListHead = h.blockListHead
  freeListHead : h'.freeListHead = h.freeListHead
  freePages : pool.freePages h'.space = pool.freePages h.space
  mapped : ∀ a, env.mapped h'.space a ↔ env.mapped h.space a

/-- The call for a block returns NULL and leaves no trace. -/
def Atomic {env : AddressSpace σ} (pool : PagePool env) (h : Heap σ) (size : Nat) : Prop :=
  ∃ h', findOrCreateFreeBlock env h size = some (0, h') ∧ NoTrace pool h h'

section
variable {env : AddressSpace σ} {flags start n i : Nat} {w : σ}

theorem mapNewPages_freePages (pool : PagePool env) (flags start n i : Nat) (w : σ) :
    pool.freePages (mapNewPages env flags start n i w).2 ≤ pool.freePages w := by
  induction n generalizing i w with
  | zero => exact Nat.le_refl _
  | succ n ih =>
    unfold mapNewPages
    cases hpage : env.pageAllocBlock pageAllocOrder4KB w with
    | mk r w₁ =>
      cases r with
      | none => exact Nat.le_of_eq (congrArg pool.freePages (pool.refused _ _ _ hpage))
      | some page =>
        have htaken := Nat.le_of_lt (pool.taken _ _ _ _ hpage)
        have hmap := pool.mapping page (add64 start (i * PageAlloc.pageSize)) flags w₁
        dsimp only
        cases hcall : env.vmapMapPage page (add64 start (i * PageAlloc.pageSize)) flags w₁ with
        | mk ok w₂ =>
          rw [hcall] at hmap
          cases ok with
          | false => exact Nat.le_trans hmap htaken
          | true => exact Nat.le_trans (ih (i + 1) w₂) (Nat.le_trans hmap htaken)

/-- A loop that fails has changed nothing if the first page was refused, and
has lost a page otherwise. -/
theorem mapNewPages_refused (pool : PagePool env)
    (hno : (mapNewPages env flags start n i w).1 = false) :
    (env.pageAllocBlock pageAllocOrder4KB w).1 = none ∧
        (mapNewPages env flags start n i w).2 = w ∨
      (env.pageAllocBlock pageAllocOrder4KB w).1 ≠ none ∧
        pool.freePages (mapNewPages env flags start n i w).2 < pool.freePages w := by
  cases n with
  | zero => cases hno
  | succ n =>
    unfold mapNewPages at hno ⊢
    cases hpage : env.pageAllocBlock pageAllocOrder4KB w with
    | mk r w₁ =>
      rw [hpage] at hno
      cases r with
      | none => exact .inl ⟨rfl, pool.refused _ _ _ hpage⟩
      | some page =>
        refine .inr ⟨fun hnone => Option.some_ne_none page hnone, ?_⟩
        have htaken := pool.taken _ _ _ _ hpage
        have hmap := pool.mapping page (add64 start (i * PageAlloc.pageSize)) flags w₁
        dsimp only
        cases hcall : env.vmapMapPage page (add64 start (i * PageAlloc.pageSize)) flags w₁ with
        | mk ok w₂ =>
          rw [hcall] at hmap
          have hrest := mapNewPages_freePages pool flags start n (i + 1) w₂
          cases ok with
          | false => exact Nat.lt_of_le_of_lt hmap htaken
          | true => exact Nat.lt_of_le_of_lt hrest (Nat.lt_of_le_of_lt hmap htaken)

/-- **Growth that fails**: in every state of the kernel heap whose calls so
far have been honoured, a call that finds no free block and is refused a
page leaves no trace exactly if the first page was refused. -/
theorem failedGrowth_atomic_iff (pool : PagePool env) (history : List (State σ × Event))
    (s : State σ) (hrun : Run (Started env) (Call env) history s)
    (hfits : ∀ q ∈ history, SizeFits env q.1 q.2) (size : Nat)
    (hfind : findFreeBlock s.heap size = some 0)
    (hno : (growth env s.heap (heapEnd s.heap) size).1 = false) :
    Atomic pool s.heap size ↔ (env.pageAllocBlock pageAllocOrder4KB s.heap.space).1 = none := by
  obtain ⟨⟨xs, fs, e, hs, _, _⟩, he⟩ := bounded_of_fits hrun hfits
  rw [heapEnd_eq hs] at hno he
  have hcall := findOrCreateFreeBlock_refused hs he hfind hno
  rcases mapNewPages_refused pool hno with ⟨hfirst, hsame⟩ | ⟨hfirst, hlost⟩
  · refine iff_of_true ⟨_, hcall, rfl, rfl, rfl, ?_, ?_⟩ hfirst
    · exact congrArg pool.freePages hsame
    · exact fun a => iff_of_eq (congrArg (env.mapped · a) hsame)
  · refine iff_of_false ?_ hfirst
    rintro ⟨h', hcall', htrace⟩
    rw [hcall, Option.some.injEq, Prod.mk.injEq] at hcall'
    rw [← hcall'.2] at htrace
    exact absurd htrace.freePages (Nat.ne_of_lt hlost)

end

/-! ## The pool of the kernel -/

/-- The pages that `vmap.c` and the heap will be given. -/
def kernelPool : PagePool kernelSpace where
  freePages w := w.blocks.length + w.vmap.answers.countP (· ≠ 0)
  taken := by
    intro _ w page w' hcall
    change w.takeBlock = _ at hcall
    unfold KernelSpace.takeBlock at hcall
    split at hcall
    · cases hcall
    · rename_i block rest hblocks
      rw [Prod.mk.injEq] at hcall
      rw [← hcall.2, hblocks, List.length_cons]
      exact Nat.add_lt_add_right (Nat.lt_succ_self _) _
  refused := by
    intro _ w w' hcall
    change w.takeBlock = _ at hcall
    unfold KernelSpace.takeBlock at hcall
    split at hcall
    · exact (Prod.mk.inj hcall).2.symm
    · cases hcall
  mapping := by
    intro page va flags w
    apply Nat.add_le_add_left
    exact (recorded_vmapMapPage _ _ _ w.vmap).answers.sublist.countP_le

/-! ## An evaluated failure -/

/-- The page space with no more than this many pages. -/
def limitedSpace (limit : Nat) : AddressSpace PageSpace :=
  { pageSpace with
    pageAllocBlock := fun order w =>
      if w.nextPage + 2 ^ order ≤ limit then pageSpace.pageAllocBlock order w else (none, w)
    alloc_keeps := by
      intro order w a ha
      split <;> exact ha }

def limitedPool (limit : Nat) : PagePool (limitedSpace limit) where
  freePages w := limit - w.nextPage
  taken := by
    intro order w page w' hcall
    change (if _ then _ else _) = _ at hcall
    have hpos := Nat.two_pow_pos order
    split at hcall
    · rename_i hle
      rw [← (Prod.mk.inj hcall).2]
      show limit - (w.nextPage + 2 ^ order) < limit - w.nextPage
      omega
    · cases hcall
  refused := by
    intro order w w' hcall
    change (if _ then _ else _) = _ at hcall
    split at hcall
    · cases hcall
    · exact (Prod.mk.inj hcall).2.symm
  mapping _ _ _ _ := Nat.le_refl _

/-- `kernel_heap_init` with three pages left behind. -/
def limitedInit : Option (Int × Heap PageSpace) :=
  blockAllocatorInit (limitedSpace 0x40403) 0xffffffffa0000000 0 (fun _ => ⟨0, 0, 0, 0, 0, 0, 0, 0⟩)
    ⟨0x40000, fun _ => false⟩

theorem limitedInit_ok : limitedInit.isSome = true := by decide +kernel

def limitedHeap : Heap PageSpace := (limitedInit.get limitedInit_ok).2

theorem limitedHeap_started : Started (limitedSpace 0x40403) ⟨limitedHeap, []⟩ := by
  have hcode : (limitedInit.get limitedInit_ok).1 = 0 := by decide +kernel
  exact ⟨.intro (by decide) (by decide) (eq_some_of_get limitedInit_ok hcode), by decide +kernel⟩

/-- A call for 5 MiB takes the three pages and fails. -/
theorem threePages_lost : Run (Started (limitedSpace 0x40403)) (Call (limitedSpace 0x40403)) []
      ⟨limitedHeap, []⟩ ∧
    findFreeBlock limitedHeap 0x500000 = some 0 ∧
    (growth (limitedSpace 0x40403) limitedHeap (heapEnd limitedHeap) 0x500000).1 = false ∧
    ¬ Atomic (limitedPool 0x40403) limitedHeap 0x500000 := by
  have hfind : findFreeBlock limitedHeap 0x500000 = some 0 := by decide +kernel
  have hno : (growth (limitedSpace 0x40403) limitedHeap (heapEnd limitedHeap) 0x500000).1 =
      false := by decide +kernel
  have hbefore : limitedHeap.space.nextPage = 0x40400 := by decide +kernel
  have hafter : ((findOrCreateFreeBlock (limitedSpace 0x40403) limitedHeap 0x500000).all
      fun r => r.2.space.nextPage = 0x40403) = true := by decide +kernel
  refine ⟨.start limitedHeap_started, hfind, hno, ?_⟩
  generalize limitedHeap = h at hbefore hafter ⊢
  rintro ⟨h', hcall, htrace⟩
  rw [hcall] at hafter
  have hlost := of_decide_eq_true hafter
  have hpages := htrace.freePages
  change 0x40403 - h'.space.nextPage = 0x40403 - h.space.nextPage at hpages
  rw [hlost, hbefore] at hpages
  cases hpages

/-- The same call again, without a page. -/
theorem noPage_atomic : ∃ history s,
    Run (Started (limitedSpace 0x40403)) (Call (limitedSpace 0x40403)) history s ∧
      Atomic (limitedPool 0x40403) s.heap 0x500000 := by
  have hno : (growth (limitedSpace 0x40403) limitedHeap (heapEnd limitedHeap) 0x500000).1 =
      false := by decide +kernel
  have hcall : (blockAllocatorAllocate (limitedSpace 0x40403) limitedHeap 0x500000).any
      (fun r => findFreeBlock r.2 0x500000 = some 0 ∧
        (growth (limitedSpace 0x40403) r.2 (heapEnd r.2) 0x500000).1 = false ∧
        ((limitedSpace 0x40403).pageAllocBlock pageAllocOrder4KB r.2.space).1 = none) = true := by
    decide +kernel
  have hstart := limitedHeap_started
  generalize limitedHeap = h at hno hcall hstart
  obtain ⟨⟨p, h'⟩, hreturned, hstate⟩ := (Option.any_eq_true _ _).mp hcall
  obtain ⟨hfind, hno', hfirst⟩ := of_decide_eq_true hstate
  have hrun : Run (Started (limitedSpace 0x40403)) (Call (limitedSpace 0x40403))
      [(⟨h, []⟩, .allocate 0x500000)] _ := .next (.start hstart) (.allocate (by decide) hreturned)
  refine ⟨_, _, hrun, ?_⟩
  refine (failedGrowth_atomic_iff (limitedPool 0x40403) _ _ hrun ?_ 0x500000 hfind hno').mpr hfirst
  intro q hq
  rw [List.mem_singleton.mp hq]
  exact .inr (.inr hno)

end ZOs.BlockAllocator
