import ZOs.Lib.DList
import ZOs.Lib.Tiling
import ZOs.Memory.BlockAllocator

/-!
# The shape of the heap

The headers hold two doubly linked lists and the facts of the blocks. Each
function of the allocator is an operation on these three views: the list
functions unlink and insert nodes and leave the other views alone. `Shape`
is what they have to keep, with the lists named.
-/

namespace ZOs.BlockAllocator

open LinkedMem Tiling

variable {σ : Type}

/-! ## Views -/

/-- The block list. -/
def Heap.blocks (h : Heap σ) : Links Nat where
  head := h.blockListHead
  nxt := BlockHeader.nextPtr ∘ h.headers
  prv := BlockHeader.prevPtr ∘ h.headers

/-- The free list. -/
def Heap.freeBlocks (h : Heap σ) : Links Nat where
  head := h.freeListHead
  nxt := BlockHeader.freeListNextPtr ∘ h.headers
  prv := BlockHeader.freeListPrevPtr ∘ h.headers

/-- The fields of a header that are no links. -/
structure BlockInfo where
  magic : Nat
  isFree : Nat
  size : Nat
  offset : Nat

def BlockHeader.info (b : BlockHeader) : BlockInfo := ⟨b.magic, b.isFree, b.size, b.offset⟩

/-- What the headers say about the blocks. -/
def Heap.info (h : Heap σ) : Nat → BlockInfo := BlockHeader.info ∘ h.headers

/-- A header with its payload. -/
def Heap.len (h : Heap σ) (x : Nat) : Nat := headerSize + (h.info x).size

/-- The parts that no list function touches. -/
def Heap.outside (h : Heap σ) : Nat × Nat × σ := (h.virtualBase, h.pageFlags, h.space)

/-- Only the free list has changed. -/
structure KeepsBlocks (h h' : Heap σ) : Prop where
  blocks : h'.blocks = h.blocks
  info : h'.info = h.info
  outside : h'.outside = h.outside

/-- Only the block list has changed. -/
structure KeepsFree (h h' : Heap σ) : Prop where
  freeBlocks : h'.freeBlocks = h.freeBlocks
  info : h'.info = h.info
  outside : h'.outside = h.outside

section
variable {h h' h'' : Heap σ} {a b x v : Nat} {f : BlockHeader → BlockHeader} {β : Type}

theorem comp_modify (p : BlockHeader → β) :
    p ∘ (h.modify a f).headers = Function.update (p ∘ h.headers) a (p (f (h.headers a))) :=
  Function.comp_update ..

theorem comp_modify_keeps (p : BlockHeader → β) (hp : ∀ b, p (f b) = p b) :
    p ∘ (h.modify a f).headers = p ∘ h.headers := by
  rw [comp_modify, hp]
  exact Function.update_eq_self a (p ∘ h.headers)

theorem blocks_modify (hn : ∀ b, (f b).nextPtr = b.nextPtr) (hp : ∀ b, (f b).prevPtr = b.prevPtr) :
    (h.modify a f).blocks = h.blocks := by
  unfold Heap.blocks
  rw [comp_modify_keeps _ hn, comp_modify_keeps _ hp]
  rfl

theorem freeBlocks_modify (hn : ∀ b, (f b).freeListNextPtr = b.freeListNextPtr)
    (hp : ∀ b, (f b).freeListPrevPtr = b.freeListPrevPtr) :
    (h.modify a f).freeBlocks = h.freeBlocks := by
  unfold Heap.freeBlocks
  rw [comp_modify_keeps _ hn, comp_modify_keeps _ hp]
  rfl

theorem info_modify (hi : ∀ b, (f b).info = b.info) : (h.modify a f).info = h.info :=
  comp_modify_keeps _ hi

theorem info_modify_update :
    (h.modify a f).info = Function.update h.info a (f (h.headers a)).info := comp_modify _

/-- A store to the next pointer of a block. -/
theorem blocks_setNext (ha : a ≠ 0) :
    (h.modify a fun b => { b with nextPtr := v }).blocks = h.blocks.setNext a v := by
  unfold Heap.blocks Links.setNext
  rw [if_neg ha, comp_modify, comp_modify_keeps BlockHeader.prevPtr]
  · rfl
  · exact fun _ => rfl

theorem blocks_setPrev (ha : a ≠ 0) :
    (h.modify a fun b => { b with prevPtr := v }).blocks = h.blocks.setPrev a v := by
  unfold Heap.blocks Links.setPrev
  rw [if_neg ha, comp_modify_keeps BlockHeader.nextPtr, comp_modify]
  · rfl
  · exact fun _ => rfl

theorem freeBlocks_setNext (ha : a ≠ 0) :
    (h.modify a fun b => { b with freeListNextPtr := v }).freeBlocks =
      h.freeBlocks.setNext a v := by
  unfold Heap.freeBlocks Links.setNext
  rw [if_neg ha, comp_modify, comp_modify_keeps BlockHeader.freeListPrevPtr]
  · rfl
  · exact fun _ => rfl

theorem freeBlocks_setPrev (ha : a ≠ 0) :
    (h.modify a fun b => { b with freeListPrevPtr := v }).freeBlocks =
      h.freeBlocks.setPrev a v := by
  unfold Heap.freeBlocks Links.setPrev
  rw [if_neg ha, comp_modify_keeps BlockHeader.freeListNextPtr, comp_modify]
  · rfl
  · exact fun _ => rfl

theorem KeepsBlocks.trans (k : KeepsBlocks h h') (k' : KeepsBlocks h' h'') : KeepsBlocks h h'' :=
  ⟨k'.blocks.trans k.blocks, k'.info.trans k.info, k'.outside.trans k.outside⟩

theorem KeepsFree.trans (k : KeepsFree h h') (k' : KeepsFree h' h'') : KeepsFree h h'' :=
  ⟨k'.freeBlocks.trans k.freeBlocks, k'.info.trans k.info, k'.outside.trans k.outside⟩

/-- A store to the free links of a header. -/
theorem keepsBlocks_modify (n p : BlockHeader → Nat) : KeepsBlocks h (h.modify a fun c =>
    { c with freeListNextPtr := n c, freeListPrevPtr := p c }) :=
  ⟨blocks_modify (h := h) (fun _ => rfl) (fun _ => rfl), info_modify (h := h) (fun _ => rfl), rfl⟩

/-- A store to the block links of a header. -/
theorem keepsFree_modify (n p : BlockHeader → Nat) : KeepsFree h (h.modify a fun c =>
    { c with nextPtr := n c, prevPtr := p c }) :=
  ⟨freeBlocks_modify (h := h) (fun _ => rfl) (fun _ => rfl), info_modify (h := h) (fun _ => rfl),
    rfl⟩

/-! ## The list functions -/

theorem addBlockToFreeList_keeps (h : Heap σ) (b : Nat) :
    KeepsBlocks h (addBlockToFreeList h b) := by
  have hfirst : KeepsBlocks h { (h.modify b fun c =>
      { c with freeListPrevPtr := 0, freeListNextPtr := h.freeListHead }) with
        freeListHead := b } := by
    have hk := keepsBlocks_modify (h := h) (a := b) (fun _ => h.freeListHead) (fun _ => 0)
    exact ⟨hk.blocks, hk.info, hk.outside⟩
  unfold addBlockToFreeList
  by_cases hz : h.freeListHead = 0
  · simp only [hz, ne_eq, not_true_eq_false, if_false]
    rw [hz] at hfirst
    exact hfirst
  · simp only [hz, ne_eq, not_false_eq_true, if_true]
    exact hfirst.trans (keepsBlocks_modify BlockHeader.freeListNextPtr (fun _ => b))

/-- `add_block_to_free_list` inserts at the head. -/
theorem addBlockToFreeList_free (h : Heap σ) (b : Nat) :
    (addBlockToFreeList h b).freeBlocks = h.freeBlocks.insertAfter 0 b := by
  have hfirst : ∀ next, { (h.modify b fun c =>
        { c with freeListPrevPtr := 0, freeListNextPtr := next }) with
          freeListHead := b }.freeBlocks =
      { h.freeBlocks with
        nxt := Function.update h.freeBlocks.nxt b next
        prv := Function.update h.freeBlocks.prv b 0
        head := b } := by
    intro next
    unfold Heap.freeBlocks
    rw [comp_modify, comp_modify]
  unfold addBlockToFreeList
  by_cases hz : h.freeListHead = 0
  · simp only [hz, ne_eq, not_true_eq_false, if_false]
    rw [hfirst]
    unfold Links.insertAfter Links.setNext Links.setPrev Links.next
    simp only [if_pos, show h.freeBlocks.head = 0 from hz]
  · simp only [hz, ne_eq, not_false_eq_true, if_true]
    rw [freeBlocks_setPrev hz, hfirst]
    unfold Links.insertAfter Links.setNext Links.next
    rfl

theorem freeBlocks_relinkNext (g : Heap σ) (p v : Nat) :
    (if p ≠ 0 then g.modify p fun b => { b with freeListNextPtr := v }
      else { g with freeListHead := v }).freeBlocks = g.freeBlocks.setNext p v := by
  by_cases hp : p = 0
  · rw [if_neg (not_not.mpr hp)]
    unfold Links.setNext
    rw [if_pos hp]
    rfl
  · rw [if_pos hp, freeBlocks_setNext hp]

theorem freeBlocks_relinkPrev (g : Heap σ) (n v : Nat) :
    (if n ≠ 0 then g.modify n fun b => { b with freeListPrevPtr := v } else g).freeBlocks =
      g.freeBlocks.setPrev n v := by
  by_cases hn : n = 0
  · rw [if_neg (not_not.mpr hn)]
    unfold Links.setPrev
    rw [if_pos hn]
  · rw [if_pos hn, freeBlocks_setPrev hn]

theorem blocks_relinkNext (g : Heap σ) (p v : Nat) :
    (if p ≠ 0 then g.modify p fun b => { b with nextPtr := v }
      else { g with blockListHead := v }).blocks = g.blocks.setNext p v := by
  by_cases hp : p = 0
  · rw [if_neg (not_not.mpr hp)]
    unfold Links.setNext
    rw [if_pos hp]
    rfl
  · rw [if_pos hp, blocks_setNext hp]

theorem blocks_relinkPrev (g : Heap σ) (n v : Nat) :
    (if n ≠ 0 then g.modify n fun b => { b with prevPtr := v } else g).blocks =
      g.blocks.setPrev n v := by
  by_cases hn : n = 0
  · rw [if_neg (not_not.mpr hn)]
    unfold Links.setPrev
    rw [if_pos hn]
  · rw [if_pos hn, blocks_setPrev hn]

/-- `remove_block_from_free_list` unlinks the block. -/
theorem removeBlockFromFreeList_free (h : Heap σ) (b : Nat) :
    (removeBlockFromFreeList h b).freeBlocks = h.freeBlocks.remove b := by
  have hclear : ∀ g : Heap σ, (g.modify b fun c =>
        { c with freeListNextPtr := 0, freeListPrevPtr := 0 }).freeBlocks =
      { g.freeBlocks with
        nxt := Function.update g.freeBlocks.nxt b 0
        prv := Function.update g.freeBlocks.prv b 0 } := by
    intro g
    unfold Heap.freeBlocks
    rw [comp_modify, comp_modify]
    rfl
  unfold removeBlockFromFreeList
  rw [hclear, freeBlocks_relinkPrev, freeBlocks_relinkNext]
  rfl

/-- `remove_block_from_block_list` unlinks the block. -/
theorem removeBlockFromBlockList_blocks (h : Heap σ) (b : Nat) :
    (removeBlockFromBlockList h b).blocks = h.blocks.remove b := by
  have hclear : ∀ g : Heap σ, (g.modify b fun c => { c with nextPtr := 0, prevPtr := 0 }).blocks =
      { g.blocks with
        nxt := Function.update g.blocks.nxt b 0
        prv := Function.update g.blocks.prv b 0 } := by
    intro g
    unfold Heap.blocks
    rw [comp_modify, comp_modify]
    rfl
  unfold removeBlockFromBlockList
  rw [hclear, blocks_relinkPrev, blocks_relinkNext]
  rfl

theorem keepsBlocks_relinkNext (h : Heap σ) (p v : Nat) : KeepsBlocks h
    (if p ≠ 0 then h.modify p fun c => { c with freeListNextPtr := v }
      else { h with freeListHead := v }) := by
  split
  · exact keepsBlocks_modify (fun _ => v) BlockHeader.freeListPrevPtr
  · exact ⟨rfl, rfl, rfl⟩

theorem keepsBlocks_relinkPrev (h : Heap σ) (n v : Nat) : KeepsBlocks h
    (if n ≠ 0 then h.modify n fun c => { c with freeListPrevPtr := v } else h) := by
  split
  · exact keepsBlocks_modify BlockHeader.freeListNextPtr (fun _ => v)
  · exact ⟨rfl, rfl, rfl⟩

theorem keepsFree_relinkNext (h : Heap σ) (p v : Nat) : KeepsFree h
    (if p ≠ 0 then h.modify p fun c => { c with nextPtr := v }
      else { h with blockListHead := v }) := by
  split
  · exact keepsFree_modify (fun _ => v) BlockHeader.prevPtr
  · exact ⟨rfl, rfl, rfl⟩

theorem keepsFree_relinkPrev (h : Heap σ) (n v : Nat) : KeepsFree h
    (if n ≠ 0 then h.modify n fun c => { c with prevPtr := v } else h) := by
  split
  · exact keepsFree_modify BlockHeader.nextPtr (fun _ => v)
  · exact ⟨rfl, rfl, rfl⟩

theorem removeBlockFromFreeList_keeps (h : Heap σ) (b : Nat) :
    KeepsBlocks h (removeBlockFromFreeList h b) :=
  ((keepsBlocks_relinkNext _ _ _).trans (keepsBlocks_relinkPrev _ _ _)).trans
    (keepsBlocks_modify (fun _ => 0) (fun _ => 0))

theorem removeBlockFromBlockList_keeps (h : Heap σ) (b : Nat) :
    KeepsFree h (removeBlockFromBlockList h b) :=
  ((keepsFree_relinkNext _ _ _).trans (keepsFree_relinkPrev _ _ _)).trans
    (keepsFree_modify (fun _ => 0) (fun _ => 0))

end

end ZOs.BlockAllocator
