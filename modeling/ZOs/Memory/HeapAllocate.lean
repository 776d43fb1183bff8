import ZOs.Memory.HeapInv

/-!
# Allocating from the heap

A free block is found or appended, split if it is much too large, and taken
out of the free list.
-/

namespace ZOs.BlockAllocator

open LinkedMem Tiling

variable {σ : Type} {env : AddressSpace σ} {h h' : Heap σ} {xs fs l r : List Nat}
  {e x y z size : Nat}

/-! ## Splitting -/

theorem cutBlock_blocks {delta : Nat} (hx : x ≠ 0) (hxy : x ≠ y) :
    (cutBlock h x y size delta).blocks = h.blocks.insertAfter x y := by
  unfold cutBlock
  rw [blocks_relinkPrev, Links.insertAfter_of_ne hx hxy]
  congr 1
  unfold Heap.blocks
  rw [comp_modify, comp_modify, comp_modify BlockHeader.prevPtr,
    comp_modify_keeps BlockHeader.prevPtr]
  · rfl
  · exact fun _ => rfl

theorem cutBlock_free {delta : Nat} : (cutBlock h x y size delta).freeBlocks = h.freeBlocks := by
  unfold cutBlock
  dsimp only
  rw [(keepsFree_relinkPrev _ _ _).freeBlocks, freeBlocks_modify, freeBlocks_modify]
  all_goals exact fun _ => rfl

theorem cutBlock_info {delta : Nat} : (cutBlock h x y size delta).info =
    Function.update (Function.update h.info x { h.info x with size := size }) y
      ⟨blockAllocatorBlockMagic, 1, delta - headerSize,
        add64 (add64 (h.info x).offset size) headerSize⟩ := by
  unfold cutBlock
  dsimp only
  rw [(keepsFree_relinkPrev _ _ _).info, info_modify_update, info_modify_update]
  have hread : ((h.modify x fun b => { b with size := size, nextPtr := y }).headers x).offset =
      (h.info x).offset := by
    show (Function.update h.headers x _ x).offset = _
    rw [Function.update_self]
    rfl
  rw [hread]
  rfl

theorem cutBlock_outside {delta : Nat} : (cutBlock h x y size delta).outside = h.outside := by
  unfold cutBlock
  dsimp only
  rw [(keepsFree_relinkPrev _ _ _).outside]
  rfl

/-- The rest `y` of a block `x` is a free block of its own. -/
theorem Shape.cut (hs : Shape env h (l ++ x :: r) fs e)
    (hlarge : size + headerSize < (h.info x).size) (hy : y = x + size + headerSize)
    (hh : h' = addBlockToFreeList (cutBlock h x y size ((h.info x).size - size)) y) :
    Shape env h' (l ++ x :: y :: r) (y :: fs) e ∧ (∀ z ∈ l ++ r, h'.info z = h.info z) ∧
      h'.info x = { h.info x with size := size } ∧ h'.outside = h.outside := by
  have hxmem : x ∈ l ++ x :: r := by simp
  have hx0 := hs.ne_zero hxmem
  obtain ⟨hlo, hhi, hfits⟩ := hs.bounds hxmem
  have hlt : x < y := by
    unfold headerSize at hy
    omega
  have hne : x ≠ y := Nat.ne_of_lt hlt
  have hynot : y ∉ l ++ x :: r := by
    apply hs.tiles.notMem_inside hxmem hlt
    unfold Heap.len
    unfold headerSize at *
    omega
  have hy0 : y ≠ 0 := Nat.ne_of_gt (Nat.lt_of_le_of_lt (Nat.zero_le _) hlt)
  have hkeep := addBlockToFreeList_keeps (cutBlock h x y size ((h.info x).size - size)) y
  rw [← hh] at hkeep
  have ho : h'.outside = h.outside := hkeep.outside.trans cutBlock_outside
  have hinfo := hkeep.info.trans cutBlock_info
  have hother : ∀ {z}, z ≠ x → z ≠ y → h'.info z = h.info z := by
    intro z hzx hzy
    rw [hinfo, Function.update_of_ne hzy, Function.update_of_ne hzx]
  have hself : h'.info x = { h.info x with size := size } := by
    rw [hinfo, Function.update_of_ne hne, Function.update_self]
  have hnew : h'.info y = ⟨blockAllocatorBlockMagic, 1, (h.info x).size - size - headerSize,
      add64 (add64 (h.info x).offset size) headerSize⟩ := by
    rw [hinfo, Function.update_self]
  have hrest : ∀ z ∈ l ++ r, z ≠ x ∧ z ≠ y := by
    intro z hz
    have hnodup := hs.nodup
    rw [List.nodup_middle, List.nodup_cons] at hnodup
    refine ⟨fun heq => hnodup.1 (heq ▸ hz), fun heq => hynot (heq ▸ ?_)⟩
    simp only [List.mem_append, List.mem_cons] at hz ⊢
    tauto
  have hsame : ∀ z ∈ l ++ r, h'.info z = h.info z := fun z hz =>
    hother (hrest z hz).1 (hrest z hz).2
  have hmem : ∀ z, z ∈ l ++ x :: y :: r ↔ z = y ∨ z ∈ l ++ x :: r := by
    intro z
    simp only [List.mem_append, List.mem_cons]
    tauto
  refine ⟨⟨?_, ?_, ?_, by simp, ?_, ?_, hs.range.of_outside ho⟩, hsame, hself, ho⟩
  · have hins := Links.Holds.insertAfter (L := h.blocks) (l := l ++ [x]) (r := r) (x := x) (y := y)
      (by rw [List.append_assoc]; exact hs.blocks) (by simp) hy0
      (by rw [List.append_assoc]; exact hynot)
    rw [hkeep.blocks, cutBlock_blocks hx0 hne]
    rw [List.append_assoc] at hins
    exact hins
  · have hins := Links.Holds.insertAfter (l := []) hs.freeList rfl hy0
      (fun hy => hynot (hs.mem_free hy))
    rw [hh, addBlockToFreeList_free, cutBlock_free]
    exact hins
  · rw [(outside_eq ho).1]
    apply hs.tiles.cut
    · unfold Heap.len
      rw [hself, hnew]
      dsimp only
      unfold headerSize at *
      omega
    · unfold Heap.len
      rw [hself, hy]
      dsimp only
      omega
    · intro z hz
      unfold Heap.len
      rw [hsame z hz]
  · intro z hz
    rcases (hmem z).mp hz with heq | hz
    · subst heq
      refine ⟨by rw [hnew], ?_, .inr (by rw [hnew])⟩
      have hoff := (hs.header x hxmem).offset
      rw [(outside_eq ho).1, hnew]
      dsimp only
      unfold headerSize at *
      have hsum : add64 (h.info x).offset size = (h.info x).offset + size := add64_eq (by omega)
      rw [hsum, add64_eq (by omega)]
      omega
    · by_cases heq : z = x
      · subst heq
        exact (hs.header z hz).of_info ho (by rw [hself]) (by rw [hself]) (.inl (by rw [hself]))
      · exact (hs.header z hz).of_eq ho (hother heq fun hzy => hynot (hzy ▸ hz))
  · intro z
    rw [List.mem_cons, hmem]
    by_cases hzy : z = y
    · rw [hzy, hnew]
      simp
    · have hfree : (h'.info z).isFree = (h.info z).isFree := by
        by_cases heq : z = x
        · rw [heq, hself]
        · rw [hother heq hzy]
      rw [hfree, hs.free_iff]
      simp [hzy]

/-- `split_block` keeps the block, and may put a free one behind it. -/
theorem splitBlock_spec (hs : Shape env h (l ++ x :: r) fs e)
    (hsize : size ≤ (h.info x).size) (hh : h' = splitBlock h x size) :
    ∃ rest, (rest = [] ∨ ∃ y, rest = [y]) ∧
      Shape env h' (l ++ x :: (rest ++ r)) (rest ++ fs) e ∧
      (∀ z ∈ l ++ r, h'.info z = h.info z) ∧ size ≤ (h'.info x).size ∧
      h'.outside = h.outside := by
  obtain ⟨_, hhi, hfits⟩ := hs.bounds (x := x) (by simp)
  have hread : (h.headers x).size = (h.info x).size := rfl
  have hdelta : sub64 (h.headers x).size size = (h.info x).size - size := by
    rw [hread]
    unfold headerSize at hhi
    exact sub64_eq hsize (by omega)
  unfold splitBlock at hh
  rw [hdelta] at hh
  by_cases hsmall : (h.info x).size - size ≤ headerSize
  · simp only [if_pos hsmall] at hh
    subst hh
    exact ⟨[], .inl rfl, hs, fun _ _ => rfl, hsize, rfl⟩
  · simp only [if_neg hsmall] at hh
    have hlarge : size + headerSize < (h.info x).size := by omega
    have hy : add64 (add64 x size) headerSize = x + size + headerSize := by
      unfold headerSize at hhi hlarge ⊢
      have hsum : add64 x size = x + size := add64_eq (by omega)
      rw [hsum, add64_eq (by omega)]
    rw [hy] at hh
    obtain ⟨hshape, hsame, hself, ho⟩ := hs.cut hlarge rfl hh
    refine ⟨[x + size + headerSize], .inr ⟨_, rfl⟩, hshape, hsame, ?_, ho⟩
    rw [hself]

/-! ## Growing -/

/-- The loop over the new pages takes no mapping away. -/
theorem mapNewPages_keeps (env : AddressSpace σ) (flags start remaining i : Nat) (w : σ) (a : Nat)
    (ha : env.mapped w a) : env.mapped (mapNewPages env flags start remaining i w).2 a := by
  induction remaining generalizing i w with
  | zero => exact ha
  | succ remaining ih =>
    have halloc := env.alloc_keeps pageAllocOrder4KB w a ha
    unfold mapNewPages
    cases hpage : env.pageAllocBlock pageAllocOrder4KB w with
    | mk r w₁ =>
      rw [hpage] at halloc
      cases r with
      | none => exact halloc
      | some page =>
        have hmap := env.map_keeps page (add64 start (i * PageAlloc.pageSize)) flags w₁ a halloc
        dsimp only
        cases hcall : env.vmapMapPage page (add64 start (i * PageAlloc.pageSize)) flags w₁ with
        | mk ok w₂ =>
          rw [hcall] at hmap
          cases ok with
          | false => exact hmap
          | true => exact ih (i + 1) w₂ hmap

/-- The loop over the new pages takes no mapping away, and if it does not
fail, all of the pages are mapped. -/
theorem mapNewPages_spec (env : AddressSpace σ) (flags start remaining i : Nat) (w : σ)
    (hstart : start % 4096 = 0) (hfits : start + (i + remaining) * 4096 ≤ 2 ^ 64) :
    (∀ a, env.mapped w a → env.mapped (mapNewPages env flags start remaining i w).2 a) ∧
    ((mapNewPages env flags start remaining i w).1 = true → ∀ a, start + i * 4096 ≤ a →
      a < start + (i + remaining) * 4096 →
      env.mapped (mapNewPages env flags start remaining i w).2 a) := by
  refine ⟨mapNewPages_keeps env flags start remaining i w, ?_⟩
  induction remaining generalizing i w with
  | zero =>
    intro _ a hlo hhi
    rw [Nat.add_zero] at hhi
    exact absurd hhi (Nat.not_lt.mpr hlo)
  | succ remaining ih =>
    have hva : add64 start (i * PageAlloc.pageSize) = start + i * 4096 :=
      add64_eq (show start + i * 4096 < 2 ^ 64 by omega)
    have hnext : i + 1 + remaining = i + (remaining + 1) := by omega
    unfold mapNewPages
    rw [hva]
    cases halloc : env.pageAllocBlock pageAllocOrder4KB w with
    | mk r w₁ =>
      cases r with
      | none => exact fun hfalse => by cases hfalse
      | some page =>
        dsimp only
        cases hmap : env.vmapMapPage page (start + i * 4096) flags w₁ with
        | mk ok w₂ =>
          cases ok with
          | false => exact fun hfalse => by cases hfalse
          | true =>
            intro hok a hlo hhi
            have hmapped := ih (i + 1) w₂ (by rw [hnext]; exact hfits) hok
            rw [hnext] at hmapped
            by_cases hin : a < start + i * 4096 + 4096
            · have hm := env.map_maps page (start + i * 4096) flags w₁ a (by omega) (by rw [hmap])
                hlo hin (by omega)
              rw [hmap] at hm
              exact mapNewPages_keeps env flags start remaining (i + 1) w₂ a hm
            · have hbehind : start + (i + 1) * 4096 ≤ a := by
                rw [Nat.succ_mul, ← Nat.add_assoc]
                exact Nat.not_lt.mp hin
              exact hmapped a hbehind hhi

section
variable {pages offset : Nat}

theorem buildBlock_blocks (hx : x ≠ 0) (hxy : x ≠ y) (hlast : h.blocks.nxt x = 0)
    (hy : blockAt h offset = y) :
    (buildBlock h x offset pages).blocks = h.blocks.insertAfter x y := by
  unfold buildBlock
  rw [hy, Links.insertAfter_of_ne hx hxy, hlast]
  simp only [ne_eq, hx, not_false_eq_true, if_true]
  unfold Links.setPrev Heap.blocks
  rw [if_pos rfl, comp_modify, comp_modify, comp_modify_keeps BlockHeader.nextPtr,
    comp_modify BlockHeader.prevPtr, comp_modify_keeps BlockHeader.prevPtr,
    comp_modify_keeps BlockHeader.prevPtr]
  · rfl
  all_goals exact fun _ => rfl

theorem buildBlock_free (hx : x ≠ 0) : (buildBlock h x offset pages).freeBlocks = h.freeBlocks := by
  unfold buildBlock
  simp only [ne_eq, hx, not_false_eq_true, if_true]
  rw [freeBlocks_modify, freeBlocks_modify, freeBlocks_modify]
  all_goals exact fun _ => rfl

theorem buildBlock_info (hx : x ≠ 0) (hy : blockAt h offset = y) :
    (buildBlock h x offset pages).info = Function.update h.info y
      ⟨blockAllocatorBlockMagic, 1, sub64 (pages * PageAlloc.pageSize % 2 ^ 64) headerSize,
        offset⟩ := by
  unfold buildBlock
  rw [hy]
  simp only [ne_eq, hx, not_false_eq_true, if_true]
  rw [info_modify, info_modify, info_modify_update]
  · rfl
  all_goals exact fun _ => rfl

theorem buildBlock_outside (hx : x ≠ 0) : (buildBlock h x offset pages).outside = h.outside := by
  unfold buildBlock
  simp only [ne_eq, hx, not_false_eq_true, if_true]
  rfl

/-- The block that is built behind the last one is free and ends the heap. -/
theorem Shape.append (hs : Shape env h (l ++ [x]) fs e) (hlt : e < 2 ^ 64) (hpages : 0 < pages)
    (hfits : e + pages * 4096 ≤ 2 ^ 64) (hy : blockAt h offset = e)
    (hoffset : h.virtualBase + offset = e + headerSize)
    (hmapped : ∀ a, e ≤ a → a < e + pages * 4096 → env.mapped h.space a)
    (hh : h' = addBlockToFreeList (buildBlock h x offset pages) e) :
    Shape env h' (l ++ [x] ++ [e]) (e :: fs) (e + pages * 4096) ∧
      (∀ z ∈ l ++ [x], h'.info z = h.info z) ∧
      h'.info e = ⟨blockAllocatorBlockMagic, 1, pages * 4096 - headerSize, offset⟩ ∧
      h'.outside = h.outside := by
  have hxmem : x ∈ l ++ [x] := by simp
  have hx0 := hs.ne_zero hxmem
  have hnot : e ∉ l ++ [x] := by
    intro hmem
    have hhi := (hs.bounds hmem).2.1
    unfold headerSize at hhi
    omega
  have hne : x ≠ e := fun heq => hnot (heq ▸ hxmem)
  obtain ⟨_, hxe, _⟩ := hs.bounds hxmem
  have he0 : e ≠ 0 := by
    unfold headerSize at hxe
    omega
  have hlast : h.blocks.nxt x = 0 := hs.blocks.nxt_eq
  have hkeep := addBlockToFreeList_keeps (buildBlock h x offset pages) e
  rw [← hh] at hkeep
  have ho : h'.outside = h.outside := hkeep.outside.trans (buildBlock_outside hx0)
  have hinfo := hkeep.info.trans (buildBlock_info hx0 hy)
  have hsize : sub64 (pages * PageAlloc.pageSize % 2 ^ 64) headerSize =
      pages * 4096 - headerSize := by
    unfold PageAlloc.pageSize headerSize
    unfold headerSize at hxe
    rw [Nat.mod_eq_of_lt (by omega), sub64_eq (by omega) (by omega)]
  rw [hsize] at hinfo
  have hsame : ∀ z ∈ l ++ [x], h'.info z = h.info z := by
    intro z hz
    have hze : z ≠ e := fun heq => hnot (heq ▸ hz)
    rw [hinfo, Function.update_of_ne hze]
  have hnew : h'.info e =
      ⟨blockAllocatorBlockMagic, 1, pages * 4096 - headerSize, offset⟩ := by
    rw [hinfo, Function.update_self]
  obtain ⟨hbase, _, hspace⟩ := outside_eq ho
  refine ⟨⟨?_, ?_, ?_, by simp, ?_, ?_, ?_⟩, hsame, hnew, ho⟩
  · have hins := Links.Holds.insertAfter (L := h.blocks) (l := l ++ [x]) (r := []) (x := x) (y := e)
      (by rw [List.append_nil]; exact hs.blocks) (by simp) he0
      (by rw [List.append_nil]; exact hnot)
    rw [hkeep.blocks, buildBlock_blocks hx0 hne hlast hy]
    exact hins
  · have hins := Links.Holds.insertAfter (l := []) hs.freeList rfl he0
      (fun hmem => hnot (hs.mem_free hmem))
    rw [hh, addBlockToFreeList_free, buildBlock_free hx0]
    exact hins
  · have hkept : ∀ z ∈ l ++ [x], h'.len z = h.len z := by
      intro z hz
      unfold Heap.len
      rw [hsame z hz]
    have happ := hs.tiles.append hkept
    have hlen : h'.len e = pages * 4096 := by
      unfold Heap.len
      rw [hnew]
      dsimp only
      unfold headerSize
      omega
    rw [hlen] at happ
    rw [hbase]
    exact happ
  · intro z hz
    rcases List.mem_append.mp hz with hz | hz
    · exact (hs.header z hz).of_eq ho (hsame z hz)
    · rw [List.mem_singleton.mp hz]
      refine ⟨by rw [hnew], ?_, .inr (by rw [hnew])⟩
      rw [hbase, hnew]
      exact hoffset
  · intro z
    rw [List.mem_cons, List.mem_append, List.mem_singleton]
    by_cases hze : z = e
    · rw [hze, hnew]
      simp
    · by_cases hz : z ∈ l ++ [x]
      · rw [hsame z hz, hs.free_iff]
        simp [hze]
      · have hnotfree : z ∉ fs := fun hmem => hz (hs.mem_free hmem)
        simp [hze, hz, hnotfree]
  · refine ⟨?_, hfits, ?_⟩
    · have hal := hs.range.aligned
      omega
    · rw [hbase, hspace]
      intro a hlo hhi
      by_cases hin : a < e
      · exact hs.range.mapped a hlo hin
      · exact hmapped a (Nat.not_lt.mp hin) hhi

/-- Where the next block would go is the end of the heap. -/
theorem nextOffset_eq (hs : Shape env h (l ++ [x]) fs e) (hroom : e + headerSize < 2 ^ 64) :
    h.virtualBase + nextOffset h x = e + headerSize ∧ blockAt h (nextOffset h x) = e := by
  have hxmem : x ∈ l ++ [x] := by simp
  have hend := hs.tiles.end_eq
  have hoff := (hs.header x hxmem).offset
  have hnext : nextOffset h x = (h.info x).offset + (h.info x).size + headerSize := by
    unfold nextOffset
    rw [if_pos (hs.ne_zero hxmem)]
    show add64 (add64 (h.info x).offset (h.info x).size) headerSize = _
    unfold Heap.len at hend
    have hsum : add64 (h.info x).offset (h.info x).size = (h.info x).offset + (h.info x).size :=
      add64_eq (by omega)
    rw [hsum, add64_eq (by omega)]
  unfold Heap.len at hend
  have hbase : h.virtualBase + nextOffset h x = e + headerSize := by
    rw [hnext]
    omega
  refine ⟨hbase, ?_⟩
  unfold blockAt
  rw [add64_eq (by omega), hbase, sub64_eq (Nat.le_add_left _ _) hroom, Nat.add_sub_cancel]

end

/-! ## Searching and growing -/

/-- Whether the pages for a block with a payload of this size are to be
had. -/
def growth (env : AddressSpace σ) (h : Heap σ) (start size : Nat) : Bool × σ :=
  mapNewPages env h.pageFlags start (numPages size) 0 h.space

theorem growth_keeps (env : AddressSpace σ) (h : Heap σ) (start size : Nat) {a : Nat}
    (ha : env.mapped h.space a) : env.mapped (growth env h start size).2 a :=
  mapNewPages_keeps env _ _ _ _ _ a ha

/-- The address space may change as long as it takes no mapping away. -/
theorem Shape.space (hs : Shape env h xs fs e) {w : σ}
    (hkeep : ∀ a, env.mapped h.space a → env.mapped w a) :
    Shape env { h with space := w } xs fs e where
  blocks := hs.blocks
  freeList := hs.freeList
  tiles := hs.tiles
  nonempty := hs.nonempty
  header z hz := ⟨(hs.header z hz).magic, (hs.header z hz).offset, (hs.header z hz).isFree⟩
  free_iff := hs.free_iff
  range := ⟨hs.range.aligned, hs.range.fits, fun a hlo hhi => hkeep a (hs.range.mapped a hlo hhi)⟩

/-- A heap that ends below 2^64 has room for one more header. -/
theorem Shape.header_fits (hs : Shape env h xs fs e) (he : e < 2 ^ 64) :
    headerSize < e ∧ e + headerSize < 2 ^ 64 := by
  obtain ⟨x, hx⟩ := List.exists_mem_of_ne_nil _ hs.nonempty
  have hx0 := hs.ne_zero hx
  obtain ⟨_, hhi, _⟩ := hs.bounds hx
  have hal := hs.range.aligned
  unfold headerSize at *
  omega

theorem findOrCreateFreeBlock_found {x : Nat} (hfind : findFreeBlock h size = some x)
    (hx : x ≠ 0) : findOrCreateFreeBlock env h size = some (x, h) := by
  unfold findOrCreateFreeBlock
  rw [hfind]
  exact if_pos hx

/-- Without a free block that is large enough, the heap grows behind its
end. -/
theorem findOrCreateFreeBlock_grow (hs : Shape env h (l ++ [x]) fs e) (he : e < 2 ^ 64)
    (hfind : findFreeBlock h size = some 0) : findOrCreateFreeBlock env h size = some
      (if (growth env h e size).1 = true then
        (e, addBlockToFreeList (buildBlock { h with space := (growth env h e size).2 } x
          (nextOffset h x) (numPages size)) e)
      else (0, { h with space := (growth env h e size).2 })) := by
  have hy := (nextOffset_eq hs (hs.header_fits he).2).2
  unfold findOrCreateFreeBlock growth
  rw [hfind, getLastBlockHeader_eq hs]
  simp only [ne_eq, not_true_eq_false, if_false, hy]
  cases mapNewPages env h.pageFlags e (numPages size) 0 h.space with
  | mk ok w => cases ok <;> rfl

/-- If the new block ends in the address space, it becomes the last one. -/
theorem findOrCreateFreeBlock_appended (hs : Shape env h xs fs e) (he : e < 2 ^ 64)
    (hfind : findFreeBlock h size = some 0) (hroom : size + headerSize + e ≤ 2 ^ 64)
    (hgrown : (growth env h e size).1 = true) :
    ∃ h', findOrCreateFreeBlock env h size = some (e, h') ∧
      Shape env h' (xs ++ [e]) (e :: fs) (e + numPages size * 4096) ∧
      (∀ z ∈ xs, h'.info z = h.info z) ∧ size ≤ (h'.info e).size ∧
      h'.virtualBase = h.virtualBase ∧ h'.pageFlags = h.pageFlags := by
  obtain rfl | ⟨l, last, rfl⟩ := List.eq_nil_or_concat xs
  · exact absurd rfl hs.nonempty
  rw [List.concat_eq_append] at hs ⊢
  obtain ⟨hpos, hlast⟩ := hs.header_fits he
  obtain ⟨hoffset, hy⟩ := nextOffset_eq hs hlast
  obtain ⟨hlo, hhi⟩ := numPages_bounds size (by omega)
  have hal := hs.range.aligned
  have hfits : e + numPages size * 4096 ≤ 2 ^ 64 := by omega
  have hpages : 0 < numPages size := by
    unfold headerSize at hlo
    omega
  have hnew := (mapNewPages_spec env h.pageFlags e (numPages size) 0 h.space hal
    (by rw [Nat.zero_add]; exact hfits)).2 hgrown
  rw [Nat.zero_mul, Nat.add_zero, Nat.zero_add] at hnew
  have hs' := hs.space fun a ha => growth_keeps env h e size ha
  obtain ⟨hshape, hsame, hself, ho⟩ := hs'.append he hpages hfits hy hoffset hnew rfl
  obtain ⟨hbase, hflags, _⟩ := outside_eq ho
  refine ⟨_, ?_, hshape, hsame, ?_, hbase, hflags⟩
  · rw [findOrCreateFreeBlock_grow hs he hfind, if_pos hgrown]
  · rw [hself]
    show size ≤ numPages size * 4096 - headerSize
    omega

theorem findOrCreateFreeBlock_refused (hs : Shape env h xs fs e) (he : e < 2 ^ 64)
    (hfind : findFreeBlock h size = some 0) (hno : (growth env h e size).1 = false) :
    findOrCreateFreeBlock env h size = some (0, { h with space := (growth env h e size).2 }) := by
  obtain rfl | ⟨l, last, rfl⟩ := List.eq_nil_or_concat xs
  · exact absurd rfl hs.nonempty
  rw [List.concat_eq_append] at hs
  rw [findOrCreateFreeBlock_grow hs he hfind, hno]
  rfl

/-! ## The whole call -/

/-- The end of `block_allocator_allocate`: a free block is split and taken. -/
def handOut (h : Heap σ) (blockHeader size : Nat) : Heap σ :=
  let h := splitBlock h blockHeader size
  let h := h.modify blockHeader fun b => { b with isFree := 0 }
  removeBlockFromFreeList h blockHeader

theorem handOut_spec (hs : Shape env h (l ++ x :: r) fs e) (hx : x ∈ fs)
    (hsize : size ≤ (h.info x).size) (hl : Apart h.Free l) (hr : Apart h.Free r)
    (hnext : ∀ b ∈ r.head?, ¬ h.Free b) (hh : h' = handOut h x size) :
    ∃ rest fs', Shape env h' (l ++ x :: (rest ++ r)) fs' e ∧
      Apart h'.Free (l ++ x :: (rest ++ r)) ∧ (∀ z ∈ l ++ r, h'.info z = h.info z) ∧
      (h'.info x).isFree = 0 ∧ size ≤ (h'.info x).size ∧ h'.outside = h.outside := by
  obtain ⟨rest, hrest, hs₁, hsame₁, hsize₁, ho₁⟩ := splitBlock_spec hs hsize rfl
  have hx₁ : x ∈ rest ++ fs := List.mem_append_right _ hx
  obtain ⟨f₁, f₂, hf⟩ := List.append_of_mem hx₁
  rw [hf] at hs₁
  obtain ⟨hs₂, hinfo, ho₂⟩ := hs₁.take hh
  have hother : ∀ {z}, z ≠ x → h'.info z = (splitBlock h x size).info z := by
    intro z hz
    rw [hinfo, Function.update_of_ne hz]
  have hself : h'.info x = { (splitBlock h x size).info x with isFree := 0 } := by
    rw [hinfo, Function.update_self]
  have hnodup := hs₂.nodup
  rw [List.nodup_middle, List.nodup_cons] at hnodup
  have hne : ∀ z ∈ l ++ (rest ++ r), z ≠ x := fun z hz heq => hnodup.1 (heq ▸ hz)
  have hsame : ∀ z ∈ l ++ r, h'.info z = h.info z := by
    intro z hz
    rw [hother (hne z _), hsame₁ z hz]
    rcases List.mem_append.mp hz with hz | hz
    · exact List.mem_append_left _ hz
    · exact List.mem_append_right _ (List.mem_append_right _ hz)
  have hfree : ∀ z ∈ l ++ r, (h'.Free z ↔ h.Free z) := by
    intro z hz
    unfold Heap.Free
    rw [hsame z hz]
  have hused : ¬ h'.Free x := by
    unfold Heap.Free
    rw [hself]
    simp
  have hl' : Apart h'.Free l := hl.congr fun z hz => hfree z (List.mem_append_left _ hz)
  have hr' : Apart h'.Free r := hr.congr fun z hz => hfree z (List.mem_append_right _ hz)
  refine ⟨rest, f₁ ++ f₂, hs₂, ?_, hsame, by rw [hself], by rw [hself]; exact hsize₁,
    ho₂.trans ho₁⟩
  rw [apart_used hused]
  refine ⟨hl', ?_⟩
  rcases hrest with rfl | ⟨y, rfl⟩
  · exact hr'
  · -- the rest is free, and what follows it is not
    by_cases hy : h'.Free y
    · have hiff := apart_free (l := []) (r := r) hy
      rw [List.nil_append] at hiff
      refine hiff.mpr ⟨apart_nil, hr', by simp, ?_⟩
      intro b hb
      have hmem : b ∈ r := List.mem_of_mem_head? hb
      rw [hfree b (List.mem_append_right _ hmem)]
      exact hnext b hb
    · have hiff := apart_used (l := []) (r := r) hy
      rw [List.nil_append] at hiff
      exact hiff.mpr ⟨apart_nil, hr'⟩

/-- The block `x` is handed out, and the heap ends at `e`: the block is large
enough, and the blocks used before are as they were. -/
structure HandedOut (env : AddressSpace σ) (h h' : Heap σ) (xs : List Nat) (size x e : Nat) :
    Prop where
  shape : ∃ xs' fs', Shape env h' xs' fs' e ∧ Apart h'.Free xs' ∧ x ∈ xs' ∧
    ∀ z ∈ xs, ¬ h.Free z → z ∈ xs' ∧ z ≠ x ∧ h'.info z = h.info z
  used : (h'.info x).isFree = 0
  large : size ≤ (h'.info x).size
  base : h'.virtualBase = h.virtualBase
  flags : h'.pageFlags = h.pageFlags

/-- A free block between used ones, or the last one, is handed out. -/
theorem handOut_handedOut {h₁ : Heap σ} (hs : Shape env h₁ (l ++ x :: r) fs e) (hx : x ∈ fs)
    (hsize : size ≤ (h₁.info x).size) (hl : Apart h₁.Free l) (hr : Apart h₁.Free r)
    (hnext : ∀ b ∈ r.head?, ¬ h₁.Free b)
    (hold : ∀ z ∈ xs, ¬ h.Free z → z ∈ l ++ r ∧ h₁.info z = h.info z)
    (hbase : h₁.virtualBase = h.virtualBase) (hflags : h₁.pageFlags = h.pageFlags) :
    HandedOut env h (handOut h₁ x size) xs size x e ∧
      add64 (handOut h₁ x size).virtualBase ((handOut h₁ x size).headers x).offset =
        add64 x headerSize := by
  obtain ⟨rest, fs', hs₂, hapart₂, hsame, hused, hsize₂, ho⟩ :=
    handOut_spec hs hx hsize hl hr hnext rfl
  obtain ⟨hbase₂, hflags₂, _⟩ := outside_eq ho
  have hxmem : x ∈ l ++ x :: (rest ++ r) := by simp
  constructor
  · refine ⟨⟨_, _, hs₂, hapart₂, hxmem, ?_⟩, hused, hsize₂, hbase₂.trans hbase,
      hflags₂.trans hflags⟩
    intro z hz hnotfree
    obtain ⟨hmem, hinfo⟩ := hold z hz hnotfree
    have hnodup := hs.nodup
    rw [List.nodup_middle, List.nodup_cons] at hnodup
    refine ⟨?_, fun heq => hnodup.1 (heq ▸ hmem), (hsame z hmem).trans hinfo⟩
    simp only [List.mem_append, List.mem_cons] at hmem ⊢
    tauto
  · exact congrArg (· % 2 ^ 64) (hs₂.header x hxmem).offset

theorem blockAllocatorAllocate_of_find {h₁ : Heap σ} (hactive : env.vmapIsActive h.space = true)
    (hfind : findOrCreateFreeBlock env h size = some (x, h₁)) :
    blockAllocatorAllocate env h size = some (if x = 0 then (0, h₁) else
      (add64 (handOut h₁ x size).virtualBase ((handOut h₁ x size).headers x).offset,
        handOut h₁ x size)) := by
  unfold blockAllocatorAllocate
  rw [if_pos hactive, hfind]
  exact (apply_ite some _ _ _).symm

/-- A free block is found. -/
theorem blockAllocatorAllocate_found (hs : Shape env h xs fs e) (hapart : Apart h.Free xs)
    (hactive : env.vmapIsActive h.space = true) (he : e < 2 ^ 64)
    (hfind : findFreeBlock h size = some x) (hx : x ≠ 0) :
    ∃ h', blockAllocatorAllocate env h size = some (x + headerSize, h') ∧
      HandedOut env h h' xs size x e := by
  obtain ⟨y, hy, hfound⟩ := findFreeBlock_spec hs size
  have heq : y = x := Option.some.inj (hy.symm.trans hfind)
  rw [heq] at hfound
  obtain ⟨hmem, hsize⟩ := hfound.resolve_left hx
  obtain ⟨l, r, rfl⟩ := List.append_of_mem (hs.mem_free hmem)
  have hfree : h.Free x := ((hs.free_iff x).mp hmem).2
  obtain ⟨hl, hr, _, hnext⟩ := (apart_free hfree).mp hapart
  have hhi := (hs.bounds (hs.mem_free hmem)).2.1
  have hold : ∀ z ∈ l ++ x :: r, ¬ h.Free z → z ∈ l ++ r ∧ h.info z = h.info z := by
    intro z hz hnotfree
    refine ⟨?_, rfl⟩
    have hzx : z ≠ x := fun heq => hnotfree (heq ▸ hfree)
    simp only [List.mem_append, List.mem_cons] at hz ⊢
    tauto
  obtain ⟨hout, hp⟩ := handOut_handedOut hs hmem hsize hl hr hnext hold rfl rfl
  have hsum : add64 x headerSize = x + headerSize := add64_eq (by omega)
  rw [hsum] at hp
  refine ⟨_, ?_, hout⟩
  rw [blockAllocatorAllocate_of_find hactive (findOrCreateFreeBlock_found hfind hx), if_neg hx, hp]

/-- The heap grows. -/
theorem blockAllocatorAllocate_appended (hs : Shape env h xs fs e) (hapart : Apart h.Free xs)
    (hactive : env.vmapIsActive h.space = true) (he : e < 2 ^ 64)
    (hfind : findFreeBlock h size = some 0) (hroom : size + headerSize + e ≤ 2 ^ 64)
    (hgrown : (growth env h e size).1 = true) :
    ∃ h', blockAllocatorAllocate env h size = some (e + headerSize, h') ∧
      HandedOut env h h' xs size e (e + numPages size * 4096) := by
  obtain ⟨h₁, hcall, hs₁, hsame, hsize, hbase, hflags⟩ :=
    findOrCreateFreeBlock_appended hs he hfind hroom hgrown
  have hpos := hs.header_fits he
  have he0 : e ≠ 0 := Nat.ne_of_gt (Nat.lt_of_le_of_lt (Nat.zero_le _) hpos.1)
  have hl : Apart h₁.Free xs := by
    apply hapart.congr
    intro z hz
    unfold Heap.Free
    rw [hsame z hz]
  have hold : ∀ z ∈ xs, ¬ h.Free z → z ∈ xs ++ [] ∧ h₁.info z = h.info z :=
    fun z hz _ => ⟨by simpa using hz, hsame z hz⟩
  obtain ⟨hout, hp⟩ := handOut_handedOut hs₁ List.mem_cons_self hsize hl apart_nil (by simp) hold
    hbase hflags
  have hsum : add64 e headerSize = e + headerSize := add64_eq hpos.2
  rw [hsum] at hp
  refine ⟨_, ?_, hout⟩
  rw [blockAllocatorAllocate_of_find hactive hcall, if_neg he0, hp]

/-- A page for the new block is not to be had. -/
theorem blockAllocatorAllocate_refused (hs : Shape env h xs fs e)
    (hactive : env.vmapIsActive h.space = true) (he : e < 2 ^ 64)
    (hfind : findFreeBlock h size = some 0) (hno : (growth env h e size).1 = false) :
    blockAllocatorAllocate env h size = some (0, { h with space := (growth env h e size).2 }) := by
  rw [blockAllocatorAllocate_of_find hactive (findOrCreateFreeBlock_refused hs he hfind hno)]
  rfl

/-- What an allocation leads to: it fails and changes no block, or it hands
out a block that is large enough. -/
inductive Allocated (env : AddressSpace σ) (h h' : Heap σ) (xs : List Nat) (size p : Nat) : Prop
  | failed {fs : List Nat} {e : Nat} : p = 0 → Shape env h' xs fs e → Apart h'.Free xs →
      h'.info = h.info → Allocated env h h' xs size p
  | handedOut {xs' fs' : List Nat} {e' x : Nat} : p = x + headerSize → x ∈ xs' →
      Shape env h' xs' fs' e' → Apart h'.Free xs' →
      (∀ z ∈ xs, ¬ h.Free z → z ∈ xs' ∧ z ≠ x ∧ h'.info z = h.info z) →
      (h'.info x).isFree = 0 → size ≤ (h'.info x).size → Allocated env h h' xs size p

theorem HandedOut.allocated (ho : HandedOut env h h' xs size x e) :
    Allocated env h h' xs size (x + headerSize) := by
  obtain ⟨xs', fs', hs, hapart, hx, hkeep⟩ := ho.shape
  exact .handedOut rfl hx hs hapart hkeep ho.used ho.large

theorem blockAllocatorAllocate_spec (hs : Shape env h xs fs e) (hapart : Apart h.Free xs)
    (hactive : env.vmapIsActive h.space = true) (hroom : size + headerSize + e < 2 ^ 64) :
    ∃ p h', blockAllocatorAllocate env h size = some (p, h') ∧ Allocated env h h' xs size p ∧
      h'.virtualBase = h.virtualBase ∧ h'.pageFlags = h.pageFlags := by
  have he : e < 2 ^ 64 := Nat.lt_of_le_of_lt (Nat.le_add_left ..) hroom
  obtain ⟨x, hfind, _⟩ := findFreeBlock_spec hs size
  by_cases hx : x = 0
  · rw [hx] at hfind
    cases hgrown : (growth env h e size).1 with
    | true =>
      obtain ⟨h', hcall, hout⟩ :=
        blockAllocatorAllocate_appended hs hapart hactive he hfind (Nat.le_of_lt hroom) hgrown
      exact ⟨_, h', hcall, hout.allocated, hout.base, hout.flags⟩
    | false =>
      refine ⟨0, _, blockAllocatorAllocate_refused hs hactive he hfind hgrown,
        .failed rfl (hs.space fun a ha => growth_keeps env h e size ha) ?_ rfl, rfl, rfl⟩
      exact hapart.congr fun _ _ => Iff.rfl
  · obtain ⟨h', hcall, hout⟩ := blockAllocatorAllocate_found hs hapart hactive he hfind hx
    exact ⟨_, h', hcall, hout.allocated, hout.base, hout.flags⟩

end ZOs.BlockAllocator
