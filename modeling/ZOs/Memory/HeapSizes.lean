import ZOs.Memory.HeapRun

/-!
# Sizes of allocations

System calls pass sizes from user space straight to `kmalloc`, so that a
call may be made for any 64-bit size. The size and the header are added in
64 bits, and the heap grows at its end whatever the end is: for which calls
the block that is handed out is the one asked for.
-/

namespace ZOs.BlockAllocator

open Runs Tiling

variable {σ : Type}

/-! ## Vocabulary -/

/-- `p` is the payload of the used block `x`: it has `size` bytes, which are
memory of the heap and mapped, and no other block reaches into it. The end
of the heap is an address. -/
structure Payload (env : AddressSpace σ) (h : Heap σ) (size p : Nat) (blocks : List Nat)
    (x : Nat) : Prop where
  blockList : h.blocks.Holds blocks
  mem : x ∈ blocks
  address : p = x + headerSize
  used : (h.headers x).isFree = 0
  large : size ≤ (h.headers x).size
  above : h.virtualBase ≤ x
  below : p + (h.headers x).size ≤ heapEnd h
  heapEnd_lt : heapEnd h < 2 ^ 64
  mapped : ∀ a, p ≤ a → a < p + (h.headers x).size → env.mapped h.space a
  apart : ∀ y ∈ blocks, y ≠ x → p + (h.headers x).size ≤ y ∨
    y + headerSize + (h.headers y).size ≤ x

/-- What a call for `size` bytes that returns `p` has to mean. -/
def Honoured (env : AddressSpace σ) (h : Heap σ) (size p : Nat) : Prop :=
  p = 0 ∨ ∃ blocks x, Payload env h size p blocks x

/-- If the call returns, its size is honoured. -/
def SizeHonoured (env : AddressSpace σ) (s : State σ) : Event → Prop
  | .allocate size =>
    ∀ p h', blockAllocatorAllocate env s.heap size = some (p, h') → Honoured env h' size p
  | _ => True

/-- A free block is large enough, or a new block ends below 2^64, or one of
the pages for it is refused. -/
def SizeFits (env : AddressSpace σ) (s : State σ) : Event → Prop
  | .allocate size =>
    (∃ x, findFreeBlock s.heap size = some x ∧ x ≠ 0) ∨
      (size + headerSize < 2 ^ 64 ∧ heapEnd s.heap + numPages size * 4096 < 2 ^ 64) ∨
      (growth env s.heap (heapEnd s.heap) size).1 = false
  | _ => True

/-- The kernel heap, which is not based at NULL. -/
def Started (env : AddressSpace σ) (s : State σ) : Prop :=
  Initialised env s ∧ s.heap.virtualBase ≠ 0

/-- A call with any size, or one of the other steps. -/
inductive Call (env : AddressSpace σ) : State σ → Event → State σ → Prop
  | allocate {h h' : Heap σ} {live : List (Nat × Nat)} {size p : Nat} (hsize : size < 2 ^ 64)
      (hcall : blockAllocatorAllocate env h size = some (p, h')) :
      Call env ⟨h, live⟩ (.allocate size) ⟨h', if p = 0 then live else (p, size) :: live⟩
  | step {s s' : State σ} {event : Event} (hother : ∀ size, event ≠ .allocate size)
      (hstep : Step env s event s') : Call env s event s'

section
variable {env : AddressSpace σ} {h h' : Heap σ} {xs fs : List Nat} {live : List (Nat × Nat)}
  {e x p size : Nat} {s s' : State σ} {event : Event}

/-! ## Calls that are honoured -/

theorem HandedOut.heapEnd_eq (ho : HandedOut env h h' xs size x e) : heapEnd h' = e := by
  obtain ⟨_, _, hs, _⟩ := ho.shape
  exact BlockAllocator.heapEnd_eq hs

theorem HandedOut.honoured (ho : HandedOut env h h' xs size x e) (he : e < 2 ^ 64) :
    Honoured env h' size (x + headerSize) := by
  have hend := ho.heapEnd_eq
  obtain ⟨blocks, fs', hs, _, hx, _⟩ := ho.shape
  obtain ⟨hlo, hhi, _⟩ := hs.bounds hx
  refine .inr ⟨blocks, x, hs.blocks, hx, rfl, ho.used, ho.large, hlo, ?_, ?_, ?_, ?_⟩
  · rw [hend]
    exact hhi
  · rw [hend]
    exact he
  · intro a hap hae
    exact hs.range.mapped a (by omega) (Nat.lt_of_lt_of_le hae hhi)
  · intro y hy hne
    have hdisj := hs.tiles.disjoint hx hy hne.symm
    rw [Nat.add_assoc, Nat.add_assoc]
    exact hdisj

/-- A call that fits hands out a block, or fails and changes no block. -/
theorem SizeFits.call (hs : Shape env h xs fs e) (hapart : Apart h.Free xs) (he : e < 2 ^ 64)
    (hactive : env.vmapIsActive h.space = true) (hfits : SizeFits env ⟨h, live⟩ (.allocate size)) :
    (∃ x e' h', blockAllocatorAllocate env h size = some (x + headerSize, h') ∧
      HandedOut env h h' xs size x e' ∧ e' < 2 ^ 64) ∨
    ∃ h', blockAllocatorAllocate env h size = some (0, h') ∧
      Allocated env h h' xs size 0 ∧ heapEnd h' = e := by
  have hend : heapEnd h = e := heapEnd_eq hs
  obtain ⟨x, hfind, _⟩ := findFreeBlock_spec hs size
  by_cases hx : x = 0
  · rw [hx] at hfind
    cases hgrown : (growth env h e size).1 with
    | true =>
      have hroom : size + headerSize < 2 ^ 64 ∧ e + numPages size * 4096 < 2 ^ 64 := by
        rcases hfits with ⟨y, hy, hy0⟩ | hroom | hno
        · exact absurd (Option.some.inj (hy.symm.trans hfind)) hy0
        · rw [← hend]
          exact hroom
        · rw [hend, hgrown] at hno
          cases hno
      obtain ⟨hlo, _⟩ := numPages_bounds size hroom.1
      obtain ⟨h', hcall, hout⟩ :=
        blockAllocatorAllocate_appended hs hapart hactive he hfind (by omega) hgrown
      exact .inl ⟨_, _, h', hcall, hout, hroom.2⟩
    | false =>
      have hs' := hs.space fun a ha => growth_keeps env h e size ha
      refine .inr ⟨_, blockAllocatorAllocate_refused hs hactive he hfind hgrown, ?_,
        heapEnd_eq hs'⟩
      exact .failed rfl hs' (hapart.congr fun _ _ => Iff.rfl) rfl
  · obtain ⟨h', hcall, hout⟩ := blockAllocatorAllocate_found hs hapart hactive he hfind hx
    exact .inl ⟨_, _, h', hcall, hout, he⟩

/-! ## Calls that are not -/

/-- Splitting a block leaves its offset alone, unless the rest is put where
the block is. -/
theorem splitBlock_offset (hne : add64 (add64 x size) headerSize ≠ x ∨
    sub64 (h.headers x).size size ≤ headerSize) :
    ((splitBlock h x size).info x).offset = (h.info x).offset := by
  unfold splitBlock
  by_cases hsmall : sub64 (h.headers x).size size ≤ headerSize
  · simp only [if_pos hsmall]
  · have hne := (hne.resolve_right hsmall).symm
    simp only [if_neg hsmall]
    rw [(addBlockToFreeList_keeps _ _).info, cutBlock_info, Function.update_of_ne hne,
      Function.update_self]

theorem splitBlock_outside : (splitBlock h x size).outside = h.outside := by
  unfold splitBlock
  by_cases hsmall : sub64 (h.headers x).size size ≤ headerSize
  · simp only [if_pos hsmall]
  · simp only [if_neg hsmall]
    exact (addBlockToFreeList_keeps _ _).outside.trans cutBlock_outside

theorem handOut_offset (hne : add64 (add64 x size) headerSize ≠ x ∨
    sub64 (h.headers x).size size ≤ headerSize) :
    ((handOut h x size).headers x).offset = (h.info x).offset := by
  have hinfo := (removeBlockFromFreeList_keeps
    ((splitBlock h x size).modify x fun b => { b with isFree := 0 }) x).info
  rw [info_modify_update (h := splitBlock h x size)] at hinfo
  have hself := congrArg BlockInfo.offset (congrFun hinfo x)
  rw [Function.update_self] at hself
  exact hself.trans (splitBlock_offset hne)

theorem handOut_outside : (handOut h x size).outside = h.outside :=
  (removeBlockFromFreeList_keeps _ _).outside.trans splitBlock_outside

/-- The header that is built when the heap grows. -/
theorem findOrCreateFreeBlock_built (hs : Shape env h xs fs e) (he : e < 2 ^ 64)
    (hfind : findFreeBlock h size = some 0) (hgrown : (growth env h e size).1 = true) :
    ∃ h₁, findOrCreateFreeBlock env h size = some (e, h₁) ∧
      h₁.virtualBase + (h₁.info e).offset = e + headerSize ∧
      (h₁.info e).size = sub64 (numPages size * PageAlloc.pageSize % 2 ^ 64) headerSize := by
  obtain rfl | ⟨l, last, rfl⟩ := List.eq_nil_or_concat xs
  · exact absurd rfl hs.nonempty
  rw [List.concat_eq_append] at hs
  obtain ⟨hoffset, hy⟩ := nextOffset_eq hs (hs.header_fits he).2
  have hlast0 : last ≠ 0 := hs.ne_zero (by simp)
  have hcall := findOrCreateFreeBlock_grow hs he hfind
  rw [if_pos hgrown] at hcall
  have hkeep := addBlockToFreeList_keeps (buildBlock { h with space := (growth env h e size).2 }
    last (nextOffset h last) (numPages size)) e
  have hself := congrFun (hkeep.info.trans (buildBlock_info hlast0 hy)) e
  rw [Function.update_self] at hself
  have hbase := (outside_eq (hkeep.outside.trans (buildBlock_outside hlast0))).1
  refine ⟨_, hcall, ?_, ?_⟩
  · rw [hself, hbase]
    exact hoffset
  · rw [hself]

/-- A heap that grows hands out the place behind its end, whatever the size
is. -/
theorem blockAllocatorAllocate_grown (hs : Shape env h xs fs e) (he : e < 2 ^ 64)
    (hactive : env.vmapIsActive h.space = true) (hsize : size < 2 ^ 64)
    (hfind : findFreeBlock h size = some 0) (hgrown : (growth env h e size).1 = true) :
    ∃ h', blockAllocatorAllocate env h size = some (e + headerSize, h') := by
  obtain ⟨hpos, hlast⟩ := hs.header_fits he
  obtain ⟨h₁, hcall, hoffset, hbuilt⟩ := findOrCreateFreeBlock_built hs he hfind hgrown
  have he0 : e ≠ 0 := Nat.ne_of_gt (Nat.lt_of_le_of_lt (Nat.zero_le _) hpos)
  have hkept : ((handOut h₁ e size).headers e).offset = (h₁.info e).offset := by
    apply handOut_offset
    by_cases hwrap : add64 (add64 e size) headerSize = e
    · -- only a size that makes the sum with the header 0 leads back
      have heq : size = 2 ^ 64 - headerSize := by
        unfold add64 headerSize at *
        omega
      have hread : (h₁.headers e).size = 2 ^ 64 - headerSize := by
        show (h₁.info e).size = _
        rw [hbuilt, heq]
        decide
      rw [heq, hread]
      exact .inr (by decide)
    · exact .inl hwrap
  have hbase : (handOut h₁ e size).virtualBase = h₁.virtualBase := (outside_eq handOut_outside).1
  have haddr : add64 (handOut h₁ e size).virtualBase ((handOut h₁ e size).headers e).offset =
      e + headerSize := by
    rw [hkept, hbase]
    unfold add64
    rw [hoffset]
    exact Nat.mod_eq_of_lt hlast
  refine ⟨handOut h₁ e size, ?_⟩
  rw [blockAllocatorAllocate_of_find hactive hcall, if_neg he0, haddr]

/-- A block that is handed out behind the end and honours its size lies in
the address space, and the heap with it. -/
theorem SizeFits.of_honoured (hs : Shape env h xs fs e) (hapart : Apart h.Free xs)
    (he : e < 2 ^ 64) (hactive : env.vmapIsActive h.space = true)
    (hfind : findFreeBlock h size = some 0) (hgrown : (growth env h e size).1 = true)
    (hcall : blockAllocatorAllocate env h size = some (e + headerSize, h'))
    (hhonoured : Honoured env h' size (e + headerSize)) :
    size + headerSize < 2 ^ 64 ∧ e + numPages size * 4096 < 2 ^ 64 := by
  obtain ⟨hpos, hlast⟩ := hs.header_fits he
  rcases hhonoured with hzero | ⟨blocks, x, hx⟩
  · unfold headerSize at hzero
    omega
  · have hbelow := hx.below
    have hlarge := hx.large
    have hend := hx.heapEnd_lt
    have haddr : x = e := (Nat.add_right_cancel hx.address).symm
    have hroom : size + headerSize + e < 2 ^ 64 := by
      rw [haddr] at hlarge hbelow
      omega
    obtain ⟨h₁, hcall₁, hout⟩ :=
      blockAllocatorAllocate_appended hs hapart hactive he hfind (Nat.le_of_lt hroom) hgrown
    rw [hcall₁, Option.some.injEq, Prod.mk.injEq] at hcall
    obtain ⟨_, rfl⟩ := hcall
    rw [hout.heapEnd_eq] at hend
    exact ⟨by omega, hend⟩

/-- **One call**: in a heap that ends below 2^64, the size of a call is
honoured exactly if it fits. -/
theorem sizeHonoured_iff (hs : Shape env h xs fs e) (hapart : Apart h.Free xs) (he : e < 2 ^ 64)
    (hactive : env.vmapIsActive h.space = true) (hsize : size < 2 ^ 64) :
    SizeHonoured env ⟨h, live⟩ (.allocate size) ↔ SizeFits env ⟨h, live⟩ (.allocate size) := by
  have hend : heapEnd h = e := heapEnd_eq hs
  constructor
  · intro hhonoured
    obtain ⟨x, hfind, _⟩ := findFreeBlock_spec hs size
    by_cases hx : x = 0
    · right
      rw [hx] at hfind
      show _ ∨ (growth env h (heapEnd h) size).1 = false
      rw [hend]
      cases hgrown : (growth env h e size).1 with
      | false => exact .inr rfl
      | true =>
        obtain ⟨h', hcall⟩ := blockAllocatorAllocate_grown hs he hactive hsize hfind hgrown
        left
        exact SizeFits.of_honoured hs hapart he hactive hfind hgrown hcall (hhonoured _ _ hcall)
    · exact .inl ⟨x, hfind, hx⟩
  · intro hfits p h' hcall
    rcases SizeFits.call hs hapart he hactive hfits with
      ⟨x, e', h₁, hcall₁, hout, he'⟩ | ⟨h₁, hcall₁, _⟩
    · rw [hcall₁, Option.some.injEq, Prod.mk.injEq] at hcall
      obtain ⟨rfl, rfl⟩ := hcall
      exact hout.honoured he'
    · rw [hcall₁, Option.some.injEq, Prod.mk.injEq] at hcall
      exact .inl hcall.1.symm

/-! ## Whole runs -/

/-- The heap is in order and ends below 2^64. -/
def Bounded (env : AddressSpace σ) (s : State σ) : Prop := Ordered env s ∧ heapEnd s.heap < 2 ^ 64

theorem active_of_allocate (hcall : blockAllocatorAllocate env h size = some (p, h')) :
    env.vmapIsActive h.space = true := by
  by_contra hactive
  unfold blockAllocatorAllocate at hcall
  rw [if_neg hactive] at hcall
  cases hcall

theorem Started.bounded (hs : Started env s) : Bounded env s := by
  obtain ⟨hinit, hbase⟩ := hs
  obtain ⟨hs, hfits, _⟩ := hinit.shape hbase
  refine ⟨hinit.ordered hbase, ?_⟩
  rw [heapEnd_eq hs]
  exact hfits

theorem Bounded.allocate (hi : Bounded env ⟨h, live⟩)
    (hcall : blockAllocatorAllocate env h size = some (p, h'))
    (hfits : SizeFits env ⟨h, live⟩ (.allocate size)) :
    Bounded env ⟨h', if p = 0 then live else (p, size) :: live⟩ := by
  obtain ⟨⟨xs, fs, e, hs, hapart, hl⟩, he⟩ := hi
  have hend : heapEnd h = e := heapEnd_eq hs
  have he : heapEnd h < 2 ^ 64 := he
  rw [hend] at he
  rcases SizeFits.call hs hapart he (active_of_allocate hcall) hfits with
    ⟨x, e', h₁, hcall₁, hout, he'⟩ | ⟨h₁, hcall₁, halloc, hend₁⟩
  · rw [hcall₁, Option.some.injEq, Prod.mk.injEq] at hcall
    obtain ⟨rfl, rfl⟩ := hcall
    refine ⟨hout.allocated.ordered hl, ?_⟩
    show heapEnd h₁ < _
    rw [hout.heapEnd_eq]
    exact he'
  · rw [hcall₁, Option.some.injEq, Prod.mk.injEq] at hcall
    obtain ⟨rfl, rfl⟩ := hcall
    refine ⟨halloc.ordered hl, ?_⟩
    show heapEnd h₁ < _
    rw [hend₁]
    exact he

/-- The other steps leave the end of the heap where it is. -/
theorem Bounded.step (hi : Bounded env s) (hstep : Step env s event s')
    (hother : ∀ size, event ≠ .allocate size) : Bounded env s' := by
  obtain ⟨⟨xs, fs, e, hs, hapart, hl⟩, he⟩ := hi
  rw [heapEnd_eq hs] at he
  cases hstep with
  | @allocate h h' live size p _ _ => exact absurd rfl (hother size)
  | free hlive hcall =>
    obtain ⟨xs', fs', hs', hapart', hl'⟩ := hs.free hapart hl hlive hcall
    refine ⟨⟨xs', fs', e, hs', hapart', hl'⟩, ?_⟩
    rw [heapEnd_eq hs']
    exact he
  | write hkeep =>
    obtain ⟨hs', hapart', hl'⟩ := hs.write hapart hl hkeep
    refine ⟨⟨xs, fs, e, hs', hapart', hl'⟩, ?_⟩
    rw [heapEnd_eq hs']
    exact he

theorem Bounded.call (hi : Bounded env s) (hfits : SizeFits env s event)
    (hcall : Call env s event s') : Bounded env s' := by
  cases hcall with
  | allocate _ hcall => exact hi.allocate hcall hfits
  | step hother hstep => exact hi.step hstep hother

/-- A run whose sizes fit keeps the heap in order. -/
theorem bounded_of_fits {history : List (State σ × Event)}
    (hrun : Run (Started env) (Call env) history s)
    (hfits : ∀ q ∈ history, SizeFits env q.1 q.2) : Bounded env s :=
  hrun.invariant_of_cond (fun _ hs => hs.bounded) (fun _ _ _ hi hc hs => hi.call hc hs) hfits

/-- **The size of every call**: over a whole run of the kernel heap, the
sizes of all calls are honoured exactly if all of them fit. -/
theorem sizes_honoured_iff (env : AddressSpace σ) (history : List (State σ × Event)) (s : State σ)
    (hrun : Run (Started env) (Call env) history s) :
    (∀ q ∈ history, SizeHonoured env q.1 q.2) ↔ ∀ q ∈ history, SizeFits env q.1 q.2 := by
  apply hrun.all_iff fun _ hs => hs.bounded
  · intro s event s' hi hfits hcall
    exact hi.call hfits hcall
  · intro s event s' hi hcall
    cases hcall with
    | allocate hsize hcall =>
      obtain ⟨⟨xs, fs, e, hs, hapart, _⟩, he⟩ := hi
      rw [heapEnd_eq hs] at he
      exact sizeHonoured_iff hs hapart he (active_of_allocate hcall) hsize
    | step hother _ =>
      cases event with
      | allocate size => exact absurd rfl (hother size)
      | free _ => exact Iff.rfl
      | write _ => exact Iff.rfl

end

/-! ## Evaluated calls -/

/-- `kernel_heap_init` on pages from 0x40000000 on. -/
def kernelInit : Option (Int × Heap PageSpace) :=
  blockAllocatorInit pageSpace 0xffffffffa0000000 0 (fun _ => ⟨0, 0, 0, 0, 0, 0, 0, 0⟩)
    ⟨0x40000, fun _ => false⟩

theorem kernelInit_ok : kernelInit.isSome = true := by decide +kernel

def kernelHeap : Heap PageSpace := (kernelInit.get kernelInit_ok).2

theorem kernelHeap_started : Started pageSpace ⟨kernelHeap, []⟩ := by
  have hcode : (kernelInit.get kernelInit_ok).1 = 0 := by decide +kernel
  exact ⟨.intro (by decide) (by decide) (eq_some_of_get kernelInit_ok hcode), by decide +kernel⟩

/-- A call for 100 bytes finds the first block. -/
theorem hundredBytes_honoured : ∃ s, Run (Started pageSpace) (Call pageSpace)
    [(⟨kernelHeap, []⟩, .allocate 100)] s ∧
    SizeHonoured pageSpace ⟨kernelHeap, []⟩ (.allocate 100) := by
  have hsome : (blockAllocatorAllocate pageSpace kernelHeap 100).isSome = true := by decide +kernel
  have hfind : findFreeBlock kernelHeap 100 = some 0xffffffffa0000000 := by decide +kernel
  have hstart := kernelHeap_started
  -- the heap is not to be evaluated again
  generalize kernelHeap = h at hsome hfind hstart ⊢
  obtain ⟨⟨p, h'⟩, hcall⟩ := Option.isSome_iff_exists.mp hsome
  have hrun : Run (Started pageSpace) (Call pageSpace) [(⟨h, []⟩, .allocate 100)] _ :=
    .next (.start hstart) (.allocate (by decide) hcall)
  have hall := (sizes_honoured_iff pageSpace _ _ hrun).mpr (by
    intro q hq
    rw [List.mem_singleton.mp hq]
    exact .inl ⟨_, hfind, by decide⟩)
  exact ⟨_, hrun, hall _ List.mem_cons_self⟩

/-- A call for 2^64 - 1 bytes is given a page: the size and the header add up
to 55 bytes. -/
theorem allBytes_handedOut : Run (Started pageSpace) (Call pageSpace) [] ⟨kernelHeap, []⟩ ∧
    ¬ SizeHonoured pageSpace ⟨kernelHeap, []⟩ (.allocate (2 ^ 64 - 1)) := by
  have hcall : (blockAllocatorAllocate pageSpace kernelHeap (2 ^ 64 - 1)).map Prod.fst =
      some (0xffffffffa0000000 + 0x400000 + 56) := by decide +kernel
  have hstart := kernelHeap_started
  generalize kernelHeap = h at hcall hstart ⊢
  obtain ⟨⟨p, h'⟩, hreturned, hp⟩ := Option.map_eq_some_iff.mp hcall
  refine ⟨.start hstart, fun hhonoured => ?_⟩
  rcases hhonoured p h' hreturned with hzero | ⟨blocks, x, hx⟩
  · omega
  · have hlarge := hx.large
    have hbelow := hx.below
    have hend := hx.heapEnd_lt
    omega

end ZOs.BlockAllocator
