import ZOs.Lib.Run
import ZOs.Memory.HeapAllocate
import ZOs.Memory.HeapRelease

/-!
# The heap over whole runs

After `block_allocator_init`, any sequence of calls keeps the laws of the
heap: the blocks tile it, the free list holds exactly the free blocks, and
the payloads handed out and not freed do not overlap. Between calls their
owners may write to them.
-/

namespace ZOs.BlockAllocator

open LinkedMem Tiling Runs

variable {σ : Type}

/-! ## Runs -/

/-- The address behind the last block. -/
def heapEnd (h : Heap σ) : Nat :=
  match getLastBlockHeader h with
  | none => h.virtualBase
  | some lastBlock =>
    if lastBlock = 0 then h.virtualBase
    else lastBlock + headerSize + (h.headers lastBlock).size

/-- The payload that starts at an address has this size. -/
def Heap.payloadSize (h : Heap σ) (address : Nat) : Nat := (h.headers (address - headerSize)).size

/-- A heap and the allocations that are live: the address returned and the
size asked for. -/
structure State (σ : Type) where
  heap : Heap σ
  live : List (Nat × Nat)

inductive Event where
  | allocate (size : Nat)
  | free (address : Nat)
  | write (headers : Nat → BlockHeader)

/-- A successful `block_allocator_init` at a page-aligned base, with room for
the first block. -/
inductive Initialised (env : AddressSpace σ) : State σ → Prop
  | intro {virtualBase pageFlags : Nat} {headers : Nat → BlockHeader} {w : σ} {h : Heap σ}
      (haligned : virtualBase % 4096 = 0)
      (hfits : virtualBase + blockAllocatorDefaultSize < 2 ^ 64)
      (hinit : blockAllocatorInit env virtualBase pageFlags headers w = some (0, h)) :
      Initialised env ⟨h, []⟩

/-- A call that returns, or a store of a client into what it was given: what
the headers say at places that overlap no live payload stays. -/
inductive Step (env : AddressSpace σ) : State σ → Event → State σ → Prop
  | allocate {h h' : Heap σ} {live : List (Nat × Nat)} {size p : Nat}
      (hfits : size + headerSize + heapEnd h < 2 ^ 64)
      (hcall : blockAllocatorAllocate env h size = some (p, h')) :
      Step env ⟨h, live⟩ (.allocate size) ⟨h', if p = 0 then live else (p, size) :: live⟩
  | free {h h' : Heap σ} {live : List (Nat × Nat)} {address : Nat}
      (hlive : address = 0 ∨ address ∈ live.map Prod.fst)
      (hcall : blockAllocatorFree env h address = some h') :
      Step env ⟨h, live⟩ (.free address) ⟨h', live.filter fun q => q.1 ≠ address⟩
  | write {h : Heap σ} {live : List (Nat × Nat)} {headers : Nat → BlockHeader}
      (hkeep : ∀ y, (∀ q ∈ live, y + headerSize ≤ q.1 ∨ q.1 + q.2 ≤ y) →
        headers y = h.headers y) :
      Step env ⟨h, live⟩ (.write headers) ⟨{ h with headers := headers }, live⟩

/-! ## Invariant -/

/-- The live allocations are the payloads of used blocks. -/
structure LiveOk (h : Heap σ) (xs : List Nat) (live : List (Nat × Nat)) : Prop where
  block : ∀ q ∈ live, ∃ x ∈ xs, q.1 = x + headerSize ∧ ¬ h.Free x ∧ q.2 ≤ (h.info x).size
  nodup : (live.map Prod.fst).Nodup

def Ordered (env : AddressSpace σ) (s : State σ) : Prop :=
  ∃ xs fs e, Shape env s.heap xs fs e ∧ Apart s.heap.Free xs ∧ LiveOk s.heap xs s.live

/-- A heap based at NULL: its first block cannot be told from none, so that
it stays empty and every allocation fails. -/
structure Void (h : Heap σ) : Prop where
  base : h.virtualBase = 0
  blockHead : h.blockListHead = 0
  freeHead : h.freeListHead = 0

def Inv (env : AddressSpace σ) (s : State σ) : Prop :=
  Ordered env s ∨ Void s.heap ∧ s.live = []

section
variable {env : AddressSpace σ} {h h' : Heap σ} {xs xs' fs : List Nat} {live : List (Nat × Nat)}
  {e p size : Nat} {s s' : State σ} {event : Event}

theorem heapEnd_eq (hs : Shape env h xs fs e) : heapEnd h = e := by
  obtain rfl | ⟨l, x, rfl⟩ := List.eq_nil_or_concat xs
  · exact absurd rfl hs.nonempty
  rw [List.concat_eq_append] at hs
  unfold heapEnd
  rw [getLastBlockHeader_eq hs, hs.tiles.end_eq]
  exact (if_neg (hs.ne_zero (by simp))).trans (Nat.add_assoc ..)

/-- Used blocks that are kept keep their payloads. -/
theorem LiveOk.keep (hl : LiveOk h xs live) {live' : List (Nat × Nat)} (hsub : live'.Sublist live)
    (hkeep : ∀ q ∈ live', ∀ x ∈ xs, q.1 = x + headerSize → ¬ h.Free x →
      x ∈ xs' ∧ h'.info x = h.info x) : LiveOk h' xs' live' where
  block := by
    intro q hq
    obtain ⟨x, hx, haddr, hused, hsize⟩ := hl.block q (hsub.subset hq)
    obtain ⟨hx', hinfo⟩ := hkeep q hq x hx haddr hused
    refine ⟨x, hx', haddr, ?_, ?_⟩
    · unfold Heap.Free
      rw [hinfo]
      exact hused
    · rw [hinfo]
      exact hsize
  nodup := hl.nodup.sublist (hsub.map _)

theorem Allocated.ordered (ha : Allocated env h h' xs size p) (hl : LiveOk h xs live) :
    Ordered env ⟨h', if p = 0 then live else (p, size) :: live⟩ := by
  cases ha with
  | failed hp hs hapart hinfo =>
    rw [if_pos hp]
    refine ⟨xs, _, _, hs, hapart, hl.keep (List.Sublist.refl _) ?_⟩
    intro _ _ x hx _ _
    exact ⟨hx, by rw [hinfo]⟩
  | @handedOut xs' _ _ x hp hx hs hapart hkeep hused hsize =>
    have hne : p ≠ 0 := by
      unfold headerSize at hp
      omega
    rw [if_neg hne]
    have hold : LiveOk h' xs' live := by
      apply hl.keep (List.Sublist.refl _)
      intro _ _ z hz _ hzused
      obtain ⟨hmem, _, hinfo⟩ := hkeep z hz hzused
      exact ⟨hmem, hinfo⟩
    refine ⟨xs', _, _, hs, hapart, ?_, ?_⟩
    · intro q hq
      rcases List.mem_cons.mp hq with heq | hq
      · subst heq
        refine ⟨x, hx, hp, ?_, hsize⟩
        unfold Heap.Free
        rw [hused]
        simp
      · exact hold.block q hq
    · rw [List.map_cons, List.nodup_cons]
      refine ⟨?_, hl.nodup⟩
      intro hmem
      obtain ⟨q, hq, heq⟩ := List.mem_map.mp hmem
      obtain ⟨z, hz, haddr, hzused, _⟩ := hl.block q hq
      apply (hkeep z hz hzused).2.1
      dsimp only at heq
      omega

/-- Freeing a live allocation takes it, and only it, from the live ones. -/
theorem Shape.free (hs : Shape env h xs fs e) (hapart : Apart h.Free xs) (hl : LiveOk h xs live)
    (hlive : p = 0 ∨ p ∈ live.map Prod.fst) (hcall : blockAllocatorFree env h p = some h') :
    ∃ xs' fs', Shape env h' xs' fs' e ∧ Apart h'.Free xs' ∧
      LiveOk h' xs' (live.filter fun q => q.1 ≠ p) := by
  have hsub : (live.filter fun q => q.1 ≠ p).Sublist live := List.filter_sublist
  rcases hlive with hzero | hmem
  · unfold blockAllocatorFree at hcall
    rw [if_pos hzero, Option.some.injEq] at hcall
    subst hcall
    exact ⟨xs, fs, hs, hapart, hl.keep hsub fun _ _ _ hx _ _ => ⟨hx, rfl⟩⟩
  · obtain ⟨q, hq, rfl⟩ := List.mem_map.mp hmem
    obtain ⟨b, hb, haddr, hused, _⟩ := hl.block q hq
    obtain ⟨l, r, rfl⟩ := List.append_of_mem hb
    by_cases hactive : env.vmapIsActive h.space = true
    · obtain ⟨h₁, hfree, hreleased⟩ := blockAllocatorFree_spec hs hapart hused hactive
      rw [haddr, hfree, Option.some.injEq] at hcall
      subst hcall
      obtain ⟨⟨xs', fs', hs', hapart', hkeep⟩, _⟩ := hreleased
      refine ⟨xs', fs', hs', hapart', hl.keep hsub ?_⟩
      intro q' hq' x hx haddr' hxused
      have hne : x ≠ b := by
        intro heq
        have hfilter := (List.mem_filter.mp hq').2
        rw [haddr', haddr, heq] at hfilter
        simp at hfilter
      apply hkeep x _ hxused
      simp only [List.mem_append, List.mem_cons] at hx ⊢
      tauto
    · have hne : q.1 ≠ 0 := by
        rw [haddr]
        unfold headerSize
        omega
      unfold blockAllocatorFree at hcall
      rw [if_neg hne, if_neg hactive] at hcall
      cases hcall

theorem Ordered.free (hi : Ordered env ⟨h, live⟩) (hlive : p = 0 ∨ p ∈ live.map Prod.fst)
    (hcall : blockAllocatorFree env h p = some h') :
    Ordered env ⟨h', live.filter fun q => q.1 ≠ p⟩ := by
  obtain ⟨xs, fs, e, hs, hapart, hl⟩ := hi
  obtain ⟨xs', fs', hs', hapart', hl'⟩ := hs.free hapart hl hlive hcall
  exact ⟨xs', fs', e, hs', hapart', hl'⟩

/-- Only the headers in use matter. -/
theorem Shape.of_headers (hs : Shape env h xs fs e) {headers : Nat → BlockHeader}
    (hsame : ∀ x ∈ xs, headers x = h.headers x) :
    Shape env { h with headers := headers } xs fs e := by
  have hinfo : ∀ x ∈ xs, Heap.info { h with headers := headers } x = h.info x :=
    fun x hx => congrArg BlockHeader.info (hsame x hx)
  refine ⟨?_, ?_, ?_, hs.nonempty, ?_, ?_, hs.range.of_outside rfl⟩
  · apply Links.Holds.congr hs.blocks
    · rfl
    · exact fun x hx => congrArg BlockHeader.nextPtr (hsame x hx)
    · exact fun x hx => congrArg BlockHeader.prevPtr (hsame x hx)
  · apply Links.Holds.congr hs.freeList
    · rfl
    · exact fun x hx => congrArg BlockHeader.freeListNextPtr (hsame x (hs.mem_free hx))
    · exact fun x hx => congrArg BlockHeader.freeListPrevPtr (hsame x (hs.mem_free hx))
  · apply hs.tiles.congr
    intro x hx
    unfold Heap.len
    rw [hinfo x hx]
  · exact fun x hx => (hs.header x hx).of_eq rfl (hinfo x hx)
  · intro x
    rw [hs.free_iff]
    apply and_congr_right
    intro hx
    rw [hinfo x hx]

/-- What the owners of the payloads write reaches no header. -/
theorem Shape.write (hs : Shape env h xs fs e) (hapart : Apart h.Free xs) (hl : LiveOk h xs live)
    {headers : Nat → BlockHeader}
    (hkeep : ∀ y, (∀ q ∈ live, y + headerSize ≤ q.1 ∨ q.1 + q.2 ≤ y) →
      headers y = h.headers y) :
    Shape env { h with headers := headers } xs fs e ∧
      Apart (Heap.Free { h with headers := headers }) xs ∧
      LiveOk { h with headers := headers } xs live := by
  have hsame : ∀ x ∈ xs, headers x = h.headers x := by
    intro x hx
    apply hkeep
    intro q hq
    obtain ⟨y, hy, haddr, _, hsize⟩ := hl.block q hq
    by_cases heq : x = y
    · exact .inl (by rw [heq, haddr])
    · have hdisj := hs.tiles.disjoint hx hy heq
      unfold Heap.len at hdisj
      omega
  have hinfo : ∀ x ∈ xs, Heap.info { h with headers := headers } x = h.info x :=
    fun x hx => congrArg BlockHeader.info (hsame x hx)
  refine ⟨hs.of_headers hsame, ?_, hl.keep (List.Sublist.refl _) ?_⟩
  · apply hapart.congr
    intro x hx
    unfold Heap.Free
    rw [hinfo x hx]
  · exact fun _ _ x hx _ _ => ⟨hx, hinfo x hx⟩

theorem Ordered.write (hi : Ordered env ⟨h, live⟩) {headers : Nat → BlockHeader}
    (hkeep : ∀ y, (∀ q ∈ live, y + headerSize ≤ q.1 ∨ q.1 + q.2 ≤ y) →
      headers y = h.headers y) : Ordered env ⟨{ h with headers := headers }, live⟩ := by
  obtain ⟨xs, fs, e, hs, hapart, hl⟩ := hi
  obtain ⟨hs', hapart', hl'⟩ := hs.write hapart hl hkeep
  exact ⟨xs, fs, e, hs', hapart', hl'⟩

theorem Step.ordered (hi : Ordered env s) (hstep : Step env s event s') : Ordered env s' := by
  cases hstep with
  | @allocate h h' live size p hfits hcall =>
    obtain ⟨xs, fs, e, hs, hapart, hl⟩ := hi
    by_cases hactive : env.vmapIsActive h.space = true
    · rw [heapEnd_eq hs] at hfits
      obtain ⟨p₁, h₁, hcall₁, halloc, _⟩ := blockAllocatorAllocate_spec hs hapart hactive hfits
      rw [hcall₁, Option.some.injEq, Prod.mk.injEq] at hcall
      obtain ⟨rfl, rfl⟩ := hcall
      exact halloc.ordered hl
    · unfold blockAllocatorAllocate at hcall
      rw [if_neg hactive] at hcall
      cases hcall
  | free hlive hcall => exact hi.free hlive hcall
  | write hkeep => exact hi.write hkeep

/-! ## A heap at NULL -/

theorem walkFuel_succ : ∃ fuel, walkFuel = fuel + 1 :=
  Nat.exists_eq_succ_of_ne_zero (Nat.ne_of_gt (Nat.two_pow_pos 64))

theorem Void.findFreeBlock (hv : Void h) (size : Nat) : findFreeBlock h size = some 0 := by
  obtain ⟨fuel, hfuel⟩ := walkFuel_succ
  unfold BlockAllocator.findFreeBlock
  rw [hfuel, hv.freeHead]
  exact if_pos rfl

theorem Void.getLastBlockHeader (hv : Void h) : getLastBlockHeader h = some 0 := by
  obtain ⟨fuel, hfuel⟩ := walkFuel_succ
  unfold BlockAllocator.getLastBlockHeader
  rw [hfuel, hv.blockHead]
  exact if_pos rfl

theorem Void.addBlock (hv : Void h) : Void (addBlockToFreeList h 0) := by
  unfold addBlockToFreeList
  simp only [hv.freeHead, ne_eq, not_true_eq_false, if_false]
  exact ⟨hv.base, hv.blockHead, rfl⟩

/-- The block that is built is at NULL again. -/
theorem Void.allocate (hv : Void h) (hactive : env.vmapIsActive h.space = true) (size : Nat) :
    ∃ h', blockAllocatorAllocate env h size = some (0, h') ∧ Void h' := by
  have hoffset : nextOffset h 0 = headerSize := if_neg (not_not.mpr rfl)
  have hat : ∀ w : σ, blockAt { h with space := w } headerSize = 0 := by
    intro w
    show sub64 (add64 h.virtualBase headerSize) headerSize = 0
    rw [hv.base]
    decide
  have hfind : ∃ h', findOrCreateFreeBlock env h size = some (0, h') ∧ Void h' := by
    unfold findOrCreateFreeBlock
    rw [hv.findFreeBlock, hv.getLastBlockHeader]
    simp only [ne_eq, not_true_eq_false, if_false, hoffset, hat h.space]
    cases mapNewPages env h.pageFlags 0 (numPages size) 0 h.space with
    | mk ok w =>
      cases ok with
      | false => exact ⟨_, rfl, hv.base, hv.blockHead, hv.freeHead⟩
      | true =>
        have hbuilt : Void (buildBlock { h with space := w } 0 headerSize (numPages size)) := by
          unfold buildBlock
          rw [hat w]
          exact ⟨hv.base, rfl, hv.freeHead⟩
        exact ⟨_, rfl, hbuilt.addBlock⟩
  obtain ⟨h', hfind, hv'⟩ := hfind
  refine ⟨h', ?_, hv'⟩
  unfold blockAllocatorAllocate
  rw [if_pos hactive, hfind]
  exact if_pos rfl

theorem Step.inv (hi : Inv env s) (hstep : Step env s event s') : Inv env s' := by
  rcases hi with hi | ⟨hv, hlive⟩
  · exact .inl (hstep.ordered hi)
  · right
    cases hstep with
    | @allocate h h' live size p hfits hcall =>
      by_cases hactive : env.vmapIsActive h.space = true
      · obtain ⟨h₁, hcall₁, hv₁⟩ := hv.allocate hactive size
        rw [hcall₁, Option.some.injEq, Prod.mk.injEq] at hcall
        obtain ⟨rfl, rfl⟩ := hcall
        exact ⟨hv₁, hlive⟩
      · unfold blockAllocatorAllocate at hcall
        rw [if_neg hactive] at hcall
        cases hcall
    | @free h h' live address hmem hcall =>
      have hnil : live = [] := hlive
      subst hnil
      have hzero : address = 0 := by simpa using hmem
      unfold blockAllocatorFree at hcall
      rw [if_pos hzero, Option.some.injEq] at hcall
      subst hcall
      exact ⟨hv, rfl⟩
    | write _ => exact ⟨⟨hv.base, hv.blockHead, hv.freeHead⟩, hlive⟩

/-! ## Initialisation -/

/-- A loop of `vmap_map_range` that does not fail maps the whole range. -/
theorem vmapMapRange_spec (env : AddressSpace σ) {virtualEnd pageFlags : Nat}
    (hend : virtualEnd % 4096 = 0) (hlt : virtualEnd < 2 ^ 64) {w' : σ} :
    ∀ fuel va pa w, va % 4096 = 0 →
      vmapMapRange env virtualEnd pageFlags fuel va pa w = some (true, w') →
      (∀ a, env.mapped w a → env.mapped w' a) ∧
        ∀ a, va ≤ a → a < virtualEnd → env.mapped w' a
  | 0, _, _, _, _, h => by cases h
  | fuel + 1, va, pa, w, hva, h => by
    unfold vmapMapRange at h
    by_cases hin : va < virtualEnd
    · rw [if_pos hin] at h
      cases hmap : env.vmapMapPage pa va pageFlags w with
      | mk ok w₁ =>
        have hkeep : ∀ a, env.mapped w a → env.mapped w₁ a := by
          intro a ha
          have hk := env.map_keeps pa va pageFlags w a ha
          rw [hmap] at hk
          exact hk
        rw [hmap] at h
        cases ok with
        | false => cases h
        | true =>
          have hnext : add64 va 4096 = va + 4096 := add64_eq (by omega)
          dsimp only at h
          rw [hnext] at h
          obtain ⟨hrest, hmapped⟩ := vmapMapRange_spec env hend hlt fuel (va + 4096) _ w₁
            (by omega) h
          refine ⟨fun a ha => hrest a (hkeep a ha), fun a hlo hhi => ?_⟩
          by_cases hpage : a < va + 4096
          · have hm := env.map_maps pa va pageFlags w a hva (by rw [hmap]) hlo hpage (by omega)
            rw [hmap] at hm
            exact hrest a hm
          · exact hmapped a (Nat.not_lt.mp hpage) hhi
    · rw [if_neg hin, Option.some.injEq, Prod.mk.injEq] at h
      obtain ⟨_, rfl⟩ := h
      exact ⟨fun _ ha => ha, fun a hlo hhi => absurd (Nat.lt_of_le_of_lt hlo hhi) hin⟩

/-- The one block that a new heap starts with. -/
theorem Shape.first (haligned : h.virtualBase % 4096 = 0) (hbase : h.virtualBase ≠ 0)
    (hfits : h.virtualBase + blockAllocatorDefaultSize < 2 ^ 64)
    (hblock : h.blockListHead = h.virtualBase) (hfree : h.freeListHead = h.virtualBase)
    (hheader : h.headers h.virtualBase = ⟨blockAllocatorBlockMagic, 1,
      blockAllocatorDefaultSize - headerSize, headerSize, 0, 0, 0, 0⟩)
    (hmapped : ∀ a, h.virtualBase ≤ a → a < h.virtualBase + blockAllocatorDefaultSize →
      env.mapped h.space a) :
    Shape env h [h.virtualBase] [h.virtualBase] (h.virtualBase + blockAllocatorDefaultSize) := by
  have hinfo : h.info h.virtualBase = ⟨blockAllocatorBlockMagic, 1,
      blockAllocatorDefaultSize - headerSize, headerSize⟩ := by
    show (h.headers h.virtualBase).info = _
    rw [hheader]
    rfl
  have hlinks : ∀ L : Links Nat, L.head = h.virtualBase → L.nxt h.virtualBase = 0 →
      L.prv h.virtualBase = 0 → L.Holds [h.virtualBase] := by
    intro L hhead hnxt hprv
    refine ⟨⟨?_, hprv, ?_, fun hne => absurd rfl hne⟩, by simpa using hbase.symm⟩
    · exact (if_pos rfl).trans hhead
    · exact (if_neg hbase).trans hnxt
  have hsize : blockAllocatorDefaultSize = 4194304 := by decide
  refine ⟨?_, ?_, ?_, by simp, ?_, ?_, ?_, ?_, hmapped⟩
  · exact hlinks _ hblock (congrArg BlockHeader.nextPtr hheader)
      (congrArg BlockHeader.prevPtr hheader)
  · exact hlinks _ hfree (congrArg BlockHeader.freeListNextPtr hheader)
      (congrArg BlockHeader.freeListPrevPtr hheader)
  · refine ⟨rfl, ?_⟩
    show h.virtualBase + h.len h.virtualBase = _
    unfold Heap.len
    rw [hinfo]
    rfl
  · intro x hx
    rw [List.mem_singleton.mp hx]
    exact ⟨by rw [hinfo], by rw [hinfo], .inr (by rw [hinfo])⟩
  · intro x
    rw [List.mem_singleton]
    constructor
    · intro heq
      exact ⟨heq, by rw [heq, hinfo]⟩
    · exact fun hx => hx.1
  · omega
  · omega

theorem firstBlock_spec {base flags : Nat} {headers : Nat → BlockHeader}
    {r : Option (Bool × σ)} (hfirst : firstBlock base flags headers r = some (0, h)) :
    ∃ w, r = some (true, w) ∧ h = ⟨base, flags, base, base, Function.update headers base
      ⟨blockAllocatorBlockMagic, 1, blockAllocatorDefaultSize - headerSize, headerSize, 0, 0, 0,
        0⟩, w⟩ := by
  unfold firstBlock at hfirst
  split at hfirst
  · cases hfirst
  · simp at hfirst
  · simp only [Option.some.injEq, Prod.mk.injEq, true_and] at hfirst
    exact ⟨_, rfl, hfirst.symm⟩

/-- What a successful initialisation has done. -/
theorem blockAllocatorInit_spec {base flags : Nat} {headers : Nat → BlockHeader} {w : σ}
    (hinit : blockAllocatorInit env base flags headers w = some (0, h)) :
    ∃ page w₁, firstBlock base flags headers (vmapMapRange env
      (add64 base blockAllocatorDefaultSize) flags walkFuel base page w₁) = some (0, h) := by
  unfold blockAllocatorInit at hinit
  by_cases hactive : env.vmapIsActive w = true
  · rw [if_pos hactive] at hinit
    cases halloc : env.pageAllocBlock blockAllocatorDefaultOrder w with
    | mk answer w₁ =>
      rw [halloc] at hinit
      cases answer with
      | none => simp at hinit
      | some page => exact ⟨page, w₁, hinit⟩
  · rw [if_neg hactive] at hinit
    cases hinit

/-- A new heap that is not based at NULL is one free block. -/
theorem Initialised.shape (hi : Initialised env s) (hbase : s.heap.virtualBase ≠ 0) :
    Shape env s.heap [s.heap.virtualBase] [s.heap.virtualBase]
      (s.heap.virtualBase + blockAllocatorDefaultSize) ∧
      s.heap.virtualBase + blockAllocatorDefaultSize < 2 ^ 64 ∧ s.live = [] := by
  obtain @⟨base, flags, headers, w, h, haligned, hfits, hinit⟩ := hi
  obtain ⟨page, w₁, hfirst⟩ := blockAllocatorInit_spec hinit
  obtain ⟨w₂, hmap, rfl⟩ := firstBlock_spec hfirst
  rw [add64_eq hfits] at hmap
  have hmod : (base + blockAllocatorDefaultSize) % 4096 = 0 := by
    have hsize : blockAllocatorDefaultSize = 4194304 := by decide
    omega
  have hmapped := (vmapMapRange_spec env hmod hfits _ base page w₁ haligned hmap).2
  refine ⟨Shape.first haligned hbase hfits rfl rfl ?_ hmapped, hfits, rfl⟩
  exact Function.update_self ..

/-- At NULL, the first block is none. -/
theorem Initialised.void (hi : Initialised env s) (hbase : s.heap.virtualBase = 0) :
    Void s.heap ∧ s.live = [] := by
  obtain @⟨base, flags, headers, w, h, _, _, hinit⟩ := hi
  obtain ⟨page, w₁, hfirst⟩ := blockAllocatorInit_spec hinit
  obtain ⟨w₂, _, rfl⟩ := firstBlock_spec hfirst
  exact ⟨⟨hbase, hbase, hbase⟩, rfl⟩

theorem Initialised.ordered (hi : Initialised env s) (hbase : s.heap.virtualBase ≠ 0) :
    Ordered env s := by
  obtain ⟨hs, _, hlive⟩ := hi.shape hbase
  refine ⟨_, _, _, hs, List.isChain_singleton _, ?_, ?_⟩
  · intro q hq
    rw [hlive] at hq
    cases hq
  · rw [hlive]
    exact List.nodup_nil

theorem Initialised.inv (hi : Initialised env s) : Inv env s := by
  by_cases hbase : s.heap.virtualBase = 0
  · exact .inr (hi.void hbase)
  · exact .inl (hi.ordered hbase)

/-! ## The laws -/

/-- The laws of the heap, for the blocks `blocks` of which `free` are
free. -/
structure HeapLaws (env : AddressSpace σ) (s : State σ) (blocks free : List Nat) : Prop where
  blockList : s.heap.blocks.Holds blocks
  increasing : blocks.Pairwise (· < ·)
  tiles : Tiles s.heap.len s.heap.virtualBase blocks (heapEnd s.heap)
  aligned : heapEnd s.heap % 4096 = 0
  mapped : ∀ a, s.heap.virtualBase ≤ a → a < heapEnd s.heap → env.mapped s.heap.space a
  freeList : s.heap.freeBlocks.Holds free
  free_iff : ∀ x, x ∈ free ↔ x ∈ blocks ∧ (s.heap.headers x).isFree = 1
  merged : blocks.IsChain fun x y =>
    ¬ ((s.heap.headers x).isFree = 1 ∧ (s.heap.headers y).isFree = 1)
  payload : ∀ q ∈ s.live, ∃ x ∈ blocks, q.1 = x + headerSize ∧ (s.heap.headers x).isFree = 0 ∧
    q.2 ≤ s.heap.payloadSize q.1
  disjoint : s.live.Pairwise fun p q => p.1 + s.heap.payloadSize p.1 ≤ q.1 ∨
    q.1 + s.heap.payloadSize q.1 ≤ p.1

theorem LiveOk.payload (hl : LiveOk h xs live) {q : Nat × Nat} (hq : q ∈ live) :
    ∃ x ∈ xs, q.1 = x + headerSize ∧ ¬ h.Free x ∧ q.2 ≤ h.payloadSize q.1 ∧
      q.1 + h.payloadSize q.1 = x + h.len x := by
  obtain ⟨x, hx, haddr, hused, hsize⟩ := hl.block q hq
  have hpay : h.payloadSize q.1 = (h.info x).size := by
    unfold Heap.payloadSize
    rw [haddr, Nat.add_sub_cancel]
    rfl
  refine ⟨x, hx, haddr, hused, by rw [hpay]; exact hsize, ?_⟩
  rw [hpay, haddr, Nat.add_assoc]
  rfl

/-- The payloads of two live allocations lie in different blocks. -/
theorem LiveOk.disjoint (hs : Shape env h xs fs e) (hl : LiveOk h xs live) :
    live.Pairwise fun p q => p.1 + h.payloadSize p.1 ≤ q.1 ∨ q.1 + h.payloadSize q.1 ≤ p.1 := by
  have hne : live.Pairwise fun p q => p.1 ≠ q.1 := List.pairwise_map.mp hl.nodup
  apply hne.imp_of_mem
  intro p q hp hq hpq
  obtain ⟨x, hx, hpx, _, _, hpend⟩ := hl.payload hp
  obtain ⟨y, hy, hqy, _, _, hqend⟩ := hl.payload hq
  have hxy : x ≠ y := by
    intro heq
    exact hpq (by rw [hpx, hqy, heq])
  have hdisj := hs.tiles.disjoint hx hy hxy
  omega

theorem Ordered.laws (hi : Ordered env s) : ∃ blocks free, HeapLaws env s blocks free := by
  obtain ⟨xs, fs, e, hs, hapart, hl⟩ := hi
  refine ⟨xs, fs, hs.blocks, ?_, ?_, ?_, ?_, hs.freeList, hs.free_iff, hapart, ?_, hl.disjoint hs⟩
  · apply hs.tiles.pairwise.imp
    intro x y hxy
    unfold Heap.len headerSize at hxy
    omega
  · rw [heapEnd_eq hs]
    exact hs.tiles
  · rw [heapEnd_eq hs]
    exact hs.range.aligned
  · rw [heapEnd_eq hs]
    exact hs.range.mapped
  · intro q hq
    obtain ⟨x, hx, haddr, hused, hsize, _⟩ := hl.payload hq
    exact ⟨x, hx, haddr, (hs.header x hx).isFree.resolve_right hused, hsize⟩

theorem Inv.laws (hi : Inv env s) : ∃ blocks free, HeapLaws env s blocks free := by
  rcases hi with hi | ⟨hv, hlive⟩
  · exact hi.laws
  · have hnil : ∀ L : Links Nat, L.head = 0 → L.Holds [] := by
      intro L hhead
      exact ⟨⟨(if_pos rfl).trans hhead, fun hne => absurd rfl hne⟩, List.nodup_singleton 0⟩
    have hend : heapEnd s.heap = 0 := by
      unfold heapEnd
      rw [hv.getLastBlockHeader]
      exact (if_pos rfl).trans hv.base
    refine ⟨[], [], hnil _ hv.blockHead, .nil, ?_, ?_, ?_, hnil _ hv.freeHead, ?_, .nil, ?_, ?_⟩
    · exact hv.base.trans hend.symm
    · rw [hend]
    · intro a _ ha
      rw [hend] at ha
      exact absurd ha (Nat.not_lt_zero a)
    · simp
    · simp [hlive]
    · simp [hlive]

/-- A call that may be made returns, as long as the address space is
active. -/
theorem Ordered.returns (hi : Ordered env s) (hactive : env.vmapIsActive s.heap.space = true) :
    (∀ size, size + headerSize + heapEnd s.heap < 2 ^ 64 →
      ∃ p h', blockAllocatorAllocate env s.heap size = some (p, h')) ∧
    ∀ address, address = 0 ∨ address ∈ s.live.map Prod.fst →
      ∃ h', blockAllocatorFree env s.heap address = some h' := by
  obtain ⟨xs, fs, e, hs, hapart, hl⟩ := hi
  constructor
  · intro size hfits
    rw [heapEnd_eq hs] at hfits
    obtain ⟨p, h', hcall, _⟩ := blockAllocatorAllocate_spec hs hapart hactive hfits
    exact ⟨p, h', hcall⟩
  · rintro address (hzero | hmem)
    · exact ⟨s.heap, if_pos hzero⟩
    · obtain ⟨q, hq, rfl⟩ := List.mem_map.mp hmem
      obtain ⟨x, hx, haddr, hused, _⟩ := hl.block q hq
      obtain ⟨l, r, rfl⟩ := List.append_of_mem hx
      obtain ⟨h', hcall, _⟩ := blockAllocatorFree_spec hs hapart hused hactive
      rw [haddr]
      exact ⟨h', hcall⟩

theorem Inv.returns (hi : Inv env s) (hactive : env.vmapIsActive s.heap.space = true) :
    (∀ size, size + headerSize + heapEnd s.heap < 2 ^ 64 →
      ∃ p h', blockAllocatorAllocate env s.heap size = some (p, h')) ∧
    ∀ address, address = 0 ∨ address ∈ s.live.map Prod.fst →
      ∃ h', blockAllocatorFree env s.heap address = some h' := by
  rcases hi with hi | ⟨hv, hlive⟩
  · exact hi.returns hactive
  · refine ⟨fun size _ => ?_, fun address hmem => ⟨s.heap, if_pos ?_⟩⟩
    · obtain ⟨h', hcall, _⟩ := hv.allocate hactive size
      exact ⟨0, h', hcall⟩
    · simpa [hlive] using hmem

/-- **The heap invariant**: after `block_allocator_init` at a page-aligned
base and any calls, the laws of the heap hold, and every call that may be
made returns. -/
theorem heap_laws (env : AddressSpace σ) (history : List (State σ × Event)) (s : State σ)
    (hrun : Run (Initialised env) (Step env) history s) :
    (∃ blocks free, HeapLaws env s blocks free) ∧
      (env.vmapIsActive s.heap.space = true →
        (∀ size, size + headerSize + heapEnd s.heap < 2 ^ 64 →
          ∃ p h', blockAllocatorAllocate env s.heap size = some (p, h')) ∧
        ∀ address, address = 0 ∨ address ∈ s.live.map Prod.fst →
          ∃ h', blockAllocatorFree env s.heap address = some h') := by
  have hi : Inv env s := hrun.invariant (fun _ hinit => hinit.inv) fun _ _ _ hi hs => hs.inv hi
  exact ⟨hi.laws, hi.returns⟩

end

/-! ## An evaluated run -/

/-- The pages handed out so far end at `nextPage`, and these are mapped. -/
structure PageSpace where
  nextPage : Nat
  isMapped : Nat → Bool

/-- Blocks come one after another, and every mapping succeeds. -/
def pageSpace : AddressSpace PageSpace where
  vmapIsActive _ := true
  pageAllocBlock order w := (some (w.nextPage * 4096),
    { w with nextPage := w.nextPage + 2 ^ order })
  vmapMapPage _ va _ w := (true, { w with isMapped := Function.update w.isMapped (va / 4096) true })
  mapped w a := w.isMapped (a / 4096) = true
  alloc_keeps _ _ _ ha := ha
  map_keeps page va flags w a ha := by
    by_cases heq : a / 4096 = va / 4096
    · rw [heq]
      exact Function.update_self ..
    · exact (Function.update_of_ne heq _ _).trans ha
  map_maps page va flags w a hva _ hlo hhi _ := by
    have heq : a / 4096 = va / 4096 := by omega
    rw [heq]
    exact Function.update_self ..

/-- One call, as far as it is allowed. -/
def runEvent {σ : Type} (env : AddressSpace σ) (s : State σ) : Event → Option (State σ)
  | .allocate size =>
    if size + headerSize + heapEnd s.heap < 2 ^ 64 then
      (blockAllocatorAllocate env s.heap size).map fun r =>
        ⟨r.2, if r.1 = 0 then s.live else (r.1, size) :: s.live⟩
    else none
  | .free address =>
    if address = 0 ∨ address ∈ s.live.map Prod.fst then
      (blockAllocatorFree env s.heap address).map fun h' =>
        ⟨h', s.live.filter fun q => q.1 ≠ address⟩
    else none
  | .write _ => none

theorem runEvent_step {σ : Type} (env : AddressSpace σ) (s : State σ) (event : Event)
    (s' : State σ) (h : runEvent env s event = some s') : Step env s event s' := by
  cases event with
  | allocate size =>
    simp only [runEvent] at h
    split at h
    · rename_i hfits
      obtain ⟨⟨p, h'⟩, hcall, rfl⟩ := Option.map_eq_some_iff.mp h
      exact .allocate hfits hcall
    · cases h
  | free address =>
    simp only [runEvent] at h
    split at h
    · rename_i hlive
      obtain ⟨h', hcall, rfl⟩ := Option.map_eq_some_iff.mp h
      exact .free hlive hcall
    · cases h
  | write _ => cases h

/-- `block_allocator_init` at 0x10000 on pages from 0x40000000 on. -/
def smallInit : Option (Int × Heap PageSpace) :=
  blockAllocatorInit pageSpace 0x10000 0 (fun _ => ⟨0, 0, 0, 0, 0, 0, 0, 0⟩)
    ⟨0x40000, fun _ => false⟩

theorem smallInit_ok : smallInit.isSome = true := by decide +kernel

/-- The heap after `block_allocator_init`. -/
def smallHeap : Heap PageSpace := (smallInit.get smallInit_ok).2

theorem eq_some_of_get {σ : Type} {r : Option (Int × Heap σ)} (hsome : r.isSome = true)
    (hcode : (r.get hsome).1 = 0) : r = some (0, (r.get hsome).2) := by
  rw [← hcode]
  exact (Option.some_get hsome).symm

theorem smallHeap_initialised : Initialised pageSpace ⟨smallHeap, []⟩ := by
  have hcode : (smallInit.get smallInit_ok).1 = 0 := by decide +kernel
  exact .intro (by decide) (by decide) (eq_some_of_get smallInit_ok hcode)

/-- Of two allocations the first is freed. -/
theorem smallHeap_laws : ∃ s blocks free, HeapLaws pageSpace s blocks free ∧
    s.live = [(0x10000 + 56 + 100 + 56, 200)] := by
  obtain ⟨history, s, hrun, hlive⟩ := Run.of_check (runEvent_step pageSpace) smallHeap_initialised
    [.allocate 100, .allocate 200, .free (0x10000 + 56)]
    (fun s => s.live = [(0x10000 + 56 + 100 + 56, 200)]) (by decide +kernel)
  obtain ⟨⟨blocks, free, hlaws⟩, _⟩ := heap_laws pageSpace history s hrun
  exact ⟨s, blocks, free, hlaws, by simpa using hlive⟩

end ZOs.BlockAllocator
