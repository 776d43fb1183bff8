import Mathlib.Data.List.Chain
import Mathlib.Data.List.Perm.Subperm
import ZOs.Memory.HeapShape

/-!
# What the allocator keeps

`Shape env h xs fs e`: the blocks `xs` tile the heap up to its end `e`, and
the blocks `fs` are the free ones. Taking a block out of the free list,
splitting one, appending one and releasing one each lead from a shape to a
shape.
-/

namespace ZOs.BlockAllocator

open LinkedMem Tiling

variable {σ : Type}

/-! ## Arithmetic in 64 bits -/

theorem add64_eq {a b : Nat} (h : a + b < 2 ^ 64) : add64 a b = a + b := Nat.mod_eq_of_lt h

theorem add64_add64 {a b c : Nat} (h : a + (b + c) < 2 ^ 64) :
    add64 a (add64 b c) = a + (b + c) := by
  have hsum : add64 b c = b + c := add64_eq (Nat.lt_of_le_of_lt (Nat.le_add_left _ _) h)
  rw [hsum, add64_eq h]

theorem sub64_eq {a b : Nat} (hle : b ≤ a) (h : a < 2 ^ 64) : sub64 a b = a - b := by
  unfold sub64
  omega

/-- A new block gets the least number of pages that hold it. -/
theorem numPages_bounds (size : Nat) (h : size + headerSize < 2 ^ 64) :
    size + headerSize ≤ numPages size * 4096 ∧ numPages size * 4096 < size + headerSize + 4096 := by
  unfold numPages PageAlloc.pageSize
  rw [add64_eq h]
  dsimp only
  split <;> omega

/-! ## Shape -/

/-- A header in use: it is marked as one, and it knows its own place. -/
structure HeaderOk (h : Heap σ) (x : Nat) : Prop where
  magic : (h.info x).magic = blockAllocatorBlockMagic
  offset : h.virtualBase + (h.info x).offset = x + headerSize
  isFree : (h.info x).isFree = 0 ∨ (h.info x).isFree = 1

/-- The heap ends at a page boundary, and everything below is mapped. -/
structure Range (env : AddressSpace σ) (h : Heap σ) (e : Nat) : Prop where
  aligned : e % 4096 = 0
  fits : e ≤ 2 ^ 64
  mapped : ∀ a, h.virtualBase ≤ a → a < e → env.mapped h.space a

/-- The blocks are `xs`, of which `fs` are free, and end at `e`. -/
structure Shape (env : AddressSpace σ) (h : Heap σ) (xs fs : List Nat) (e : Nat) : Prop where
  blocks : h.blocks.Holds xs
  freeList : h.freeBlocks.Holds fs
  tiles : Tiles h.len h.virtualBase xs e
  nonempty : xs ≠ []
  header : ∀ x ∈ xs, HeaderOk h x
  free_iff : ∀ x, x ∈ fs ↔ x ∈ xs ∧ (h.info x).isFree = 1
  range : Range env h e

section
variable {env : AddressSpace σ} {h h' : Heap σ} {xs fs l r f₁ f₂ : List Nat} {e x y z size : Nat}
  {i : BlockInfo}

theorem outside_eq (ho : h'.outside = h.outside) :
    h'.virtualBase = h.virtualBase ∧ h'.pageFlags = h.pageFlags ∧ h'.space = h.space := by
  unfold Heap.outside at ho
  simpa only [Prod.mk.injEq] using ho

theorem Range.of_outside (hr : Range env h e) (ho : h'.outside = h.outside) : Range env h' e := by
  obtain ⟨hbase, _, hspace⟩ := outside_eq ho
  refine ⟨hr.aligned, hr.fits, ?_⟩
  rw [hbase, hspace]
  exact hr.mapped

theorem HeaderOk.of_info (hx : HeaderOk h x) (ho : h'.outside = h.outside)
    (hmagic : (h'.info x).magic = (h.info x).magic)
    (hoffset : (h'.info x).offset = (h.info x).offset)
    (hfree : (h'.info x).isFree = (h.info x).isFree ∨ (h'.info x).isFree = 0 ∨
      (h'.info x).isFree = 1) : HeaderOk h' x := by
  refine ⟨hmagic.trans hx.magic, ?_, ?_⟩
  · rw [(outside_eq ho).1, hoffset]
    exact hx.offset
  · rcases hfree with heq | hfree
    · rw [heq]
      exact hx.isFree
    · exact hfree

theorem HeaderOk.of_eq (hx : HeaderOk h x) (ho : h'.outside = h.outside)
    (hinfo : h'.info x = h.info x) : HeaderOk h' x :=
  hx.of_info ho (by rw [hinfo]) (by rw [hinfo]) (.inl (by rw [hinfo]))

theorem Shape.bounds (hs : Shape env h xs fs e) (hx : x ∈ xs) :
    h.virtualBase ≤ x ∧ x + headerSize + (h.info x).size ≤ e ∧ e ≤ 2 ^ 64 := by
  obtain ⟨hlo, hhi⟩ := hs.tiles.bounds hx
  refine ⟨hlo, ?_, hs.range.fits⟩
  rw [Nat.add_assoc]
  exact hhi

theorem Shape.nodup (hs : Shape env h xs fs e) : xs.Nodup := (List.nodup_cons.mp hs.blocks.nodup).2

theorem Shape.ne_zero (hs : Shape env h xs fs e) (hx : x ∈ xs) : x ≠ 0 := hs.blocks.ne_zero hx

theorem Shape.mem_free (hs : Shape env h xs fs e) (hx : x ∈ fs) : x ∈ xs :=
  ((hs.free_iff x).mp hx).1

/-- There are fewer blocks than addresses. -/
theorem Shape.length_lt (hs : Shape env h xs fs e) : xs.length < 2 ^ 64 := by
  have hlen := hs.tiles.length (k := headerSize) fun x _ => Nat.le_add_right _ _
  have hfits := hs.range.fits
  unfold headerSize at hlen
  omega

theorem Shape.free_length_lt (hs : Shape env h xs fs e) : fs.length < 2 ^ 64 := by
  have hsub : fs.Subperm xs :=
    List.subperm_of_subset (List.nodup_cons.mp hs.freeList.nodup).2 fun x hx => hs.mem_free hx
  exact Nat.lt_of_le_of_lt hsub.length_le hs.length_lt

/-! ## The walks -/

/-- The search for a free block ends with none or with one that is large
enough. -/
theorem findFreeBlockFrom_spec (h : Heap σ) (size : Nat) : ∀ fs a fuel,
    Linked h.freeBlocks.next h.freeBlocks.prv a fs 0 → (∀ x ∈ fs, x ≠ 0) → fs.length < fuel →
    ∃ x, findFreeBlockFrom h size fuel (h.freeBlocks.next a) = some x ∧
      (x = 0 ∨ x ∈ fs ∧ size ≤ (h.info x).size)
  | [], a, fuel + 1, hl, _, _ => by
    refine ⟨0, ?_, .inl rfl⟩
    rw [hl.1]
    rfl
  | y :: fs, a, fuel + 1, hl, hne, hfuel => by
    obtain ⟨hnext, _, hrest⟩ := hl
    have hy := hne y List.mem_cons_self
    rw [hnext, findFreeBlockFrom, if_neg hy]
    by_cases hsize : size ≤ (h.headers y).size
    · rw [if_pos hsize]
      exact ⟨y, rfl, .inr ⟨List.mem_cons_self, hsize⟩⟩
    · rw [if_neg hsize]
      have hstep : h.freeBlocks.next y = (h.headers y).freeListNextPtr := if_neg hy
      obtain ⟨x, hx, hfound⟩ := findFreeBlockFrom_spec h size fs y fuel hrest
        (fun x hx => hne x (List.mem_cons_of_mem _ hx)) (Nat.lt_of_succ_lt_succ hfuel)
      rw [hstep] at hx
      refine ⟨x, hx, ?_⟩
      rcases hfound with hzero | ⟨hmem, hsize⟩
      · exact .inl hzero
      · exact .inr ⟨List.mem_cons_of_mem _ hmem, hsize⟩

theorem findFreeBlock_spec (hs : Shape env h xs fs e) (size : Nat) :
    ∃ x, findFreeBlock h size = some x ∧ (x = 0 ∨ x ∈ fs ∧ size ≤ (h.info x).size) :=
  findFreeBlockFrom_spec h size fs 0 walkFuel hs.freeList.linked
    (fun _ hx => hs.freeList.ne_zero hx) hs.free_length_lt

theorem lastBlockFrom_spec (h : Heap σ) : ∀ xs a fuel,
    Linked h.blocks.next h.blocks.prv a xs 0 → (∀ x ∈ xs, x ≠ 0) → xs.length < fuel →
    lastBlockFrom h fuel (h.blocks.next a) = some (xs.getLastD 0)
  | [], a, fuel + 1, hl, _, _ => by
    rw [hl.1]
    rfl
  | y :: xs, a, fuel + 1, hl, hne, hfuel => by
    obtain ⟨hnext, _, hrest⟩ := hl
    have hy := hne y List.mem_cons_self
    have hstep : h.blocks.next y = (h.headers y).nextPtr := if_neg hy
    have hfirst := hrest.nxt_eq
    rw [hnext, lastBlockFrom, if_neg hy]
    rw [hstep] at hfirst
    cases xs with
    | nil =>
      have hzero : (h.headers y).nextPtr = 0 := hfirst
      rw [if_pos hzero]
      rfl
    | cons z xs =>
      have hz : (h.headers y).nextPtr ≠ 0 := by
        rw [hfirst]
        exact hne z (by simp)
      rw [if_neg hz, List.getLastD_cons, List.getLastD_cons, ← hstep]
      have hlast := lastBlockFrom_spec h (z :: xs) y fuel hrest
        (fun x hx => hne x (List.mem_cons_of_mem _ hx)) (Nat.lt_of_succ_lt_succ hfuel)
      rw [List.getLastD_cons] at hlast
      exact hlast

theorem getLastBlockHeader_eq (hs : Shape env h (l ++ [x]) fs e) :
    getLastBlockHeader h = some x := by
  have hlast := lastBlockFrom_spec h (l ++ [x]) 0 walkFuel hs.blocks.linked
    (fun _ hx => hs.blocks.ne_zero hx) hs.length_lt
  rw [List.getLastD_concat] at hlast
  exact hlast

/-! ## Taking a block out of the free list -/

theorem Shape.take (hs : Shape env h xs (f₁ ++ x :: f₂) e)
    (hh : h' = removeBlockFromFreeList (h.modify x fun b => { b with isFree := 0 }) x) :
    Shape env h' xs (f₁ ++ f₂) e ∧
      h'.info = Function.update h.info x { h.info x with isFree := 0 } ∧
        h'.outside = h.outside := by
  have hkeep := removeBlockFromFreeList_keeps (h.modify x fun b => { b with isFree := 0 }) x
  rw [← hh] at hkeep
  have hinfo : h'.info = Function.update h.info x { h.info x with isFree := 0 } :=
    hkeep.info.trans info_modify_update
  have ho : h'.outside = h.outside := hkeep.outside
  have hblocks : h'.blocks = h.blocks :=
    hkeep.blocks.trans (blocks_modify (h := h) (fun _ => rfl) (fun _ => rfl))
  have hfree : h'.freeBlocks = h.freeBlocks.remove x := by
    rw [hh, removeBlockFromFreeList_free, freeBlocks_modify (h := h)]
    · exact fun _ => rfl
    · exact fun _ => rfl
  have hother : ∀ {z}, z ≠ x → h'.info z = h.info z := by
    intro z hz
    rw [hinfo, Function.update_of_ne hz]
  have hself : h'.info x = { h.info x with isFree := 0 } := by
    rw [hinfo, Function.update_self]
  have hnotin : x ∉ f₁ ++ f₂ := by
    have hnodup := (List.nodup_cons.mp hs.freeList.nodup).2
    exact (List.nodup_cons.mp (List.nodup_middle.mp hnodup)).1
  refine ⟨⟨?_, ?_, ?_, hs.nonempty, ?_, ?_, hs.range.of_outside ho⟩, hinfo, ho⟩
  · rw [hblocks]
    exact hs.blocks
  · rw [hfree]
    exact hs.freeList.remove
  · rw [(outside_eq ho).1]
    apply hs.tiles.congr
    intro z _
    unfold Heap.len
    by_cases hz : z = x
    · rw [hz, hself]
    · rw [hother hz]
  · intro z hz
    by_cases heq : z = x
    · subst heq
      exact (hs.header z hz).of_info ho (by rw [hself]) (by rw [hself])
        (.inr (.inl (by rw [hself])))
    · exact (hs.header z hz).of_eq ho (hother heq)
  · intro z
    by_cases heq : z = x
    · subst heq
      rw [hself]
      exact iff_of_false hnotin (by simp)
    · rw [hother heq, ← hs.free_iff]
      simp [heq]

end

/-! ## Free blocks are merged -/

/-- No two neighbours are both in `F`. -/
def Apart (F : Nat → Prop) (xs : List Nat) : Prop := xs.IsChain fun a b => ¬ (F a ∧ F b)

/-- The block is free. -/
def Heap.Free (h : Heap σ) (x : Nat) : Prop := (h.info x).isFree = 1

section
variable {F G : Nat → Prop} {xs l r : List Nat} {x : Nat}

theorem apart_nil : Apart F [] := List.isChain_nil

/-- What is not in `F` separates its neighbours. -/
theorem apart_used (hx : ¬ F x) : Apart F (l ++ x :: r) ↔ Apart F l ∧ Apart F r := by
  unfold Apart
  rw [List.isChain_append, List.isChain_cons]
  constructor
  · intro ⟨hl, ⟨_, hr⟩, _⟩
    exact ⟨hl, hr⟩
  · intro ⟨hl, hr⟩
    refine ⟨hl, ⟨fun _ _ hboth => hx hboth.1, hr⟩, ?_⟩
    intro _ _ b hb hboth
    have heq : b = x := by simpa using hb.symm
    exact hx (heq ▸ hboth.2)

/-- The neighbours of what is in `F` are not. -/
theorem apart_free (hx : F x) : Apart F (l ++ x :: r) ↔
    Apart F l ∧ Apart F r ∧ (∀ a ∈ l.getLast?, ¬ F a) ∧ ∀ b ∈ r.head?, ¬ F b := by
  unfold Apart
  rw [List.isChain_append, List.isChain_cons]
  constructor
  · intro ⟨hl, ⟨hnext, hr⟩, hprev⟩
    exact ⟨hl, hr, fun a ha hfree => hprev a ha x (by simp) ⟨hfree, hx⟩,
      fun b hb hfree => hnext b hb ⟨hx, hfree⟩⟩
  · intro ⟨hl, hr, hprev, hnext⟩
    refine ⟨hl, ⟨fun b hb hboth => hnext b hb hboth.2, hr⟩, ?_⟩
    intro a ha _ _ hboth
    exact hprev a ha hboth.1

theorem Apart.congr (h : Apart F xs) (hsame : ∀ x ∈ xs, (G x ↔ F x)) : Apart G xs :=
  (List.IsChain.iff_of_mem_imp fun a b ha hb => by rw [hsame a ha, hsame b hb]).mpr h

end

end ZOs.BlockAllocator
