import ZOs.Memory.HeapInv

/-!
# Freeing a block

A block that becomes free is merged with the free ones next to it. There
are four cases; in each, one block `x` of the old list ends up free, with
the room of those that are gone.
-/

namespace ZOs.BlockAllocator

open LinkedMem Tiling

variable {σ : Type} {env : AddressSpace σ} {h h' : Heap σ} {xs xs' fs fs' l r : List Nat}
  {e x b p n size : Nat}

/-- One block of the old list is free now, and nothing else has changed
about the blocks that are left. -/
theorem Shape.merged (hs : Shape env h xs fs e) (hblocks : h'.blocks.Holds xs')
    (hfree : h'.freeBlocks.Holds fs') (htiles : Tiles h'.len h.virtualBase xs' e)
    (hinfo : h'.info = Function.update h.info x { h.info x with isFree := 1, size := size })
    (ho : h'.outside = h.outside) (hx : x ∈ xs') (hsub : ∀ z ∈ xs', z ∈ xs)
    (hfs : ∀ z, z ∈ fs' ↔ z = x ∨ z ≠ x ∧ z ∈ xs' ∧ z ∈ fs) : Shape env h' xs' fs' e := by
  have hself : h'.info x = { h.info x with isFree := 1, size := size } := by
    rw [hinfo, Function.update_self]
  have hother : ∀ {z}, z ≠ x → h'.info z = h.info z := by
    intro z hz
    rw [hinfo, Function.update_of_ne hz]
  refine ⟨hblocks, hfree, ?_, List.ne_nil_of_mem hx, ?_, ?_, hs.range.of_outside ho⟩
  · rw [(outside_eq ho).1]
    exact htiles
  · intro z hz
    by_cases heq : z = x
    · rw [heq]
      exact (hs.header x (hsub x hx)).of_info ho (by rw [hself]) (by rw [hself])
        (.inr (.inr (by rw [hself])))
    · exact (hs.header z (hsub z hz)).of_eq ho (hother heq)
  · intro z
    rw [hfs]
    by_cases heq : z = x
    · rw [heq, hself]
      simp [hx]
    · rw [hother heq, hs.free_iff]
      constructor
      · intro hz
        rcases hz with hz | ⟨_, hz, _, hzfree⟩
        · exact absurd hz heq
        · exact ⟨hz, hzfree⟩
      · intro ⟨hz, hzfree⟩
        exact .inr ⟨heq, hz, hsub z hz, hzfree⟩

/-- The lengths after a block has grown. -/
theorem len_of_info
    (hinfo : h'.info = Function.update h.info x { h.info x with isFree := 1, size := size }) :
    h'.len = Function.update h.len x (headerSize + size) := by
  funext z
  unfold Heap.len
  rw [hinfo]
  by_cases hz : z = x
  · rw [hz, Function.update_self, Function.update_self]
  · rw [Function.update_of_ne hz, Function.update_of_ne hz]

theorem len_other
    (hinfo : h'.info = Function.update h.info x { h.info x with isFree := 1, size := size })
    (hne : n ≠ x) : h'.len n = h.len n := by
  rw [len_of_info hinfo, Function.update_of_ne hne]

/-- A block stands once in the list. -/
theorem Shape.ne_mid (hs : Shape env h (l ++ x :: r) fs e) (hsub : xs ⊆ r) (hn : n ∈ l ++ xs) :
    n ≠ x := by
  have hnodup := hs.nodup
  rw [List.nodup_middle, List.nodup_cons] at hnodup
  intro heq
  apply hnodup.1
  rw [← heq]
  rcases List.mem_append.mp hn with hn | hn
  · exact List.mem_append_left _ hn
  · exact List.mem_append_right _ (hsub hn)

/-- What freeing leads to: the blocks that are used otherwise are as they
were. -/
structure Released (env : AddressSpace σ) (h h' : Heap σ) (others : List Nat) (e : Nat) : Prop where
  shape : ∃ xs fs, Shape env h' xs fs e ∧ Apart h'.Free xs ∧
    ∀ z ∈ others, ¬ h.Free z → z ∈ xs ∧ h'.info z = h.info z
  outside : h'.outside = h.outside

/-- The free block that has grown stands between used ones. -/
theorem Released.of_merged {others : List Nat} (hs : Shape env h' (l ++ x :: r) fs' e)
    (hinfo : h'.info = Function.update h.info x { h.info x with isFree := 1, size := size })
    (ho : h'.outside = h.outside) (hl : Apart h.Free l) (hr : Apart h.Free r)
    (hprev : ∀ a ∈ l.getLast?, ¬ h.Free a) (hnext : ∀ a ∈ r.head?, ¬ h.Free a)
    (hothers : ∀ z ∈ others, ¬ h.Free z → z ∈ l ++ r) : Released env h h' others e := by
  have hnodup := hs.nodup
  rw [List.nodup_middle, List.nodup_cons] at hnodup
  have hsame : ∀ z ∈ l ++ r, h'.info z = h.info z := by
    intro z hz
    have hzx : z ≠ x := fun heq => hnodup.1 (heq ▸ hz)
    rw [hinfo, Function.update_of_ne hzx]
  have hfree : ∀ z ∈ l ++ r, (h'.Free z ↔ h.Free z) := by
    intro z hz
    unfold Heap.Free
    rw [hsame z hz]
  have hxfree : h'.Free x := by
    unfold Heap.Free
    rw [hinfo, Function.update_self]
  refine ⟨⟨_, _, hs, ?_, ?_⟩, ho⟩
  · refine (apart_free hxfree).mpr ⟨?_, ?_, ?_, ?_⟩
    · exact hl.congr fun z hz => hfree z (List.mem_append_left _ hz)
    · exact hr.congr fun z hz => hfree z (List.mem_append_right _ hz)
    · intro a ha
      rw [hfree a (List.mem_append_left _ (List.mem_of_mem_getLast? ha))]
      exact hprev a ha
    · intro a ha
      rw [hfree a (List.mem_append_right _ (List.mem_of_mem_head? ha))]
      exact hnext a ha
  · intro z hz hzused
    have hmem := hothers z hz hzused
    refine ⟨?_, hsame z hmem⟩
    simp only [List.mem_append, List.mem_cons] at hmem ⊢
    tauto

/-! ## Growing a block -/

/-- The stores by which a block takes the room of others. -/
def Heap.grow (h : Heap σ) (x v size : Nat) : Heap σ :=
  (h.modify x fun c => { c with nextPtr := v }).modify x fun c => { c with size := size }

theorem grow_info {v : Nat} :
    (h.grow x v size).info = Function.update h.info x { h.info x with size := size } := by
  have hread : (h.modify x fun c => { c with nextPtr := v }).headers x =
      { h.headers x with nextPtr := v } := Function.update_self ..
  unfold Heap.grow
  rw [info_modify_update, info_modify, hread]
  · rfl
  · exact fun _ => rfl

theorem grow_info_free {v : Nat} (hfree : h.Free x) : (h.grow x v size).info =
    Function.update h.info x { h.info x with isFree := 1, size := size } := by
  rw [grow_info]
  unfold Heap.Free at hfree
  rw [← hfree]

theorem grow_blocks {v : Nat} (hx : x ≠ 0) :
    (h.grow x v size).blocks = h.blocks.setNext x v := by
  unfold Heap.grow
  rw [blocks_modify, blocks_setNext hx]
  all_goals exact fun _ => rfl

theorem grow_freeBlocks {v : Nat} : (h.grow x v size).freeBlocks = h.freeBlocks := by
  unfold Heap.grow
  rw [freeBlocks_modify, freeBlocks_modify]
  all_goals exact fun _ => rfl

/-! ## The four cases -/

/-- Neither neighbour is free. -/
theorem Shape.release_none (hs : Shape env h (l ++ b :: r) fs e) (hused : ¬ h.Free b)
    (hapart : Apart h.Free (l ++ b :: r)) (hprev : ∀ a ∈ l.getLast?, ¬ h.Free a)
    (hnext : ∀ a ∈ r.head?, ¬ h.Free a)
    (hh : h' = addBlockToFreeList (h.modify b fun c => { c with isFree := 1 }) b) :
    Released env h h' (l ++ r) e := by
  have hbmem : b ∈ l ++ b :: r := by simp
  have hkeep := addBlockToFreeList_keeps (h.modify b fun c => { c with isFree := 1 }) b
  rw [← hh] at hkeep
  have hinfo : h'.info =
      Function.update h.info b { h.info b with isFree := 1, size := (h.info b).size } :=
    hkeep.info.trans info_modify_update
  have ho : h'.outside = h.outside := hkeep.outside
  have hnotin : b ∉ fs := fun hmem => hused ((hs.free_iff b).mp hmem).2
  have hshape : Shape env h' (l ++ b :: r) (b :: fs) e := by
    apply hs.merged (x := b) _ _ _ hinfo ho hbmem (fun z hz => hz)
    · intro z
      rw [List.mem_cons]
      by_cases hz : z = b
      · simp [hz]
      · simp only [hz, false_or, ne_eq, not_false_eq_true, true_and]
        exact ⟨fun hmem => ⟨hs.mem_free hmem, hmem⟩, fun hmem => hmem.2⟩
    · rw [hkeep.blocks, blocks_modify (h := h)]
      · exact hs.blocks
      all_goals exact fun _ => rfl
    · have hins := Links.Holds.insertAfter (l := []) hs.freeList rfl (hs.ne_zero hbmem) hnotin
      rw [hh, addBlockToFreeList_free, freeBlocks_modify (h := h)]
      · exact hins
      all_goals exact fun _ => rfl
    · apply hs.tiles.congr
      intro z _
      rw [len_of_info hinfo]
      by_cases hz : z = b
      · rw [hz, Function.update_self]
        rfl
      · rw [Function.update_of_ne hz]
  obtain ⟨hl, hr⟩ := (apart_used hused).mp hapart
  exact .of_merged hshape hinfo ho hl hr hprev hnext fun _ hz _ => hz

/-- The previous block is free and takes the room of the block. -/
theorem Shape.release_prev {v : Nat} (hs : Shape env h (l ++ p :: b :: r) fs e)
    (hused : ¬ h.Free b) (hpfree : h.Free p) (hapart : Apart h.Free (l ++ p :: b :: r))
    (hnext : ∀ a ∈ r.head?, ¬ h.Free a)
    (hsize : size = (h.info p).size + (headerSize + (h.info b).size))
    (hh : h' = removeBlockFromBlockList (h.grow p v size) b) :
    Released env h h' (l ++ p :: r) e := by
  have hp0 : p ≠ 0 := hs.ne_zero (by simp)
  have hkeep := removeBlockFromBlockList_keeps (h.grow p v size) b
  rw [← hh] at hkeep
  have hinfo := hkeep.info.trans (grow_info_free hpfree)
  have ho : h'.outside = h.outside := hkeep.outside
  have hbnot : b ∉ fs := fun hmem => hused ((hs.free_iff b).mp hmem).2
  have hpfs : p ∈ fs := (hs.free_iff p).mpr ⟨by simp, hpfree⟩
  have hshape : Shape env h' (l ++ p :: r) fs e := by
    apply hs.merged (x := p) _ _ (hs.tiles.join _ _) hinfo ho (by simp)
    · intro z hz
      simp only [List.mem_append, List.mem_cons] at hz ⊢
      tauto
    · intro z
      constructor
      · intro hz
        by_cases heq : z = p
        · exact .inl heq
        · refine .inr ⟨heq, ?_, hz⟩
          have hmem := hs.mem_free hz
          have hzb : z ≠ b := fun hzb => hbnot (hzb ▸ hz)
          simp only [List.mem_append, List.mem_cons] at hmem ⊢
          tauto
      · rintro (heq | ⟨_, _, hz⟩)
        · rw [heq]
          exact hpfs
        · exact hz
    · rw [hh, removeBlockFromBlockList_blocks, grow_blocks hp0]
      exact hs.blocks.remove_lost
    · rw [hkeep.freeBlocks, grow_freeBlocks]
      exact hs.freeList
    · rw [len_of_info hinfo, Function.update_self, hsize]
      exact (Nat.add_assoc ..).symm
    · exact fun z hz => len_other hinfo (hs.ne_mid (by simp) hz)
  obtain ⟨hl, hbr, hprev, _⟩ := (apart_free hpfree).mp hapart
  have hr : Apart h.Free r := ((apart_used (l := []) hused).mp hbr).2
  refine .of_merged hshape hinfo ho hl hr hprev hnext fun z hz hzused => ?_
  have hzp : z ≠ p := fun heq => hzused (heq ▸ hpfree)
  simp only [List.mem_append, List.mem_cons] at hz ⊢
  tauto

/-- The next block is free, and the block takes its room. -/
theorem Shape.release_next {v : Nat} (hs : Shape env h (l ++ b :: n :: r) fs e)
    (hused : ¬ h.Free b) (hnfree : h.Free n) (hapart : Apart h.Free (l ++ b :: n :: r))
    (hprev : ∀ a ∈ l.getLast?, ¬ h.Free a)
    (hsize : size = (h.info b).size + (headerSize + (h.info n).size))
    (hh : h' = addBlockToFreeList ((removeBlockFromFreeList (removeBlockFromBlockList
      (h.grow b v size) n) n).modify b fun c => { c with isFree := 1 }) b) :
    Released env h h' (l ++ n :: r) e := by
  have hb0 : b ≠ 0 := hs.ne_zero (by simp)
  obtain ⟨f₁, f₂, hfs⟩ := List.append_of_mem ((hs.free_iff n).mpr ⟨by simp, hnfree⟩)
  subst hfs
  have hmid : ∀ z, z ∈ f₁ ++ n :: f₂ ↔ z = n ∨ z ∈ f₁ ++ f₂ := by
    intro z
    simp only [List.mem_append, List.mem_cons]
    tauto
  have hbnot : b ∉ f₁ ++ f₂ :=
    fun hmem => hused ((hs.free_iff b).mp ((hmid b).mpr (.inr hmem))).2
  have hnnot : n ∉ f₁ ++ f₂ := by
    have hnodup := (List.nodup_cons.mp hs.freeList.nodup).2
    exact (List.nodup_cons.mp (List.nodup_middle.mp hnodup)).1
  have hnblock : n ∉ l ++ b :: r := by
    have hnodup := hs.nodup
    rw [List.append_cons, List.nodup_middle, List.nodup_cons, ← List.append_cons] at hnodup
    exact hnodup.1
  have hkeep₁ := removeBlockFromBlockList_keeps (h.grow b v size) n
  have hkeep₂ := removeBlockFromFreeList_keeps (removeBlockFromBlockList (h.grow b v size) n) n
  have hkeep₃ := addBlockToFreeList_keeps ((removeBlockFromFreeList (removeBlockFromBlockList
    (h.grow b v size) n) n).modify b fun c => { c with isFree := 1 }) b
  rw [← hh] at hkeep₃
  have hinfo : h'.info = Function.update h.info b { h.info b with isFree := 1, size := size } := by
    have hgrown := (hkeep₂.info.trans hkeep₁.info).trans grow_info
    have hread := congrFun hgrown b
    rw [Function.update_self] at hread
    have hmark := hkeep₃.info.trans info_modify_update
    rw [hgrown, Function.update_idem] at hmark
    rw [hmark]
    congr 1
    show { (removeBlockFromFreeList _ n).info b with isFree := 1 } = _
    rw [hread]
  have ho : h'.outside = h.outside :=
    hkeep₃.outside.trans (hkeep₂.outside.trans hkeep₁.outside)
  have hshape : Shape env h' (l ++ b :: r) (b :: (f₁ ++ f₂)) e := by
    apply hs.merged (x := b) _ _ (hs.tiles.join _ _) hinfo ho (by simp)
    · intro z hz
      simp only [List.mem_append, List.mem_cons] at hz ⊢
      tauto
    · intro z
      rw [List.mem_cons]
      by_cases heq : z = b
      · simp [heq]
      · rw [hmid]
        constructor
        · rintro (hz | hz)
          · exact .inl hz
          · have hmem := hs.mem_free ((hmid z).mpr (.inr hz))
            have hzn : z ≠ n := fun hzn => hnnot (hzn ▸ hz)
            refine .inr ⟨heq, ?_, .inr hz⟩
            simp only [List.mem_append, List.mem_cons] at hmem ⊢
            tauto
        · rintro (hz | ⟨_, hz, hzn | hzf⟩)
          · exact .inl hz
          · exact absurd (hzn ▸ hz) hnblock
          · exact .inr hzf
    · rw [hkeep₃.blocks, blocks_modify, hkeep₂.blocks, removeBlockFromBlockList_blocks,
        grow_blocks hb0]
      · exact hs.blocks.remove_lost
      all_goals exact fun _ => rfl
    · have hrem : (h.freeBlocks.remove n).Holds (f₁ ++ f₂) := hs.freeList.remove
      have hins := Links.Holds.insertAfter (l := []) hrem rfl hb0 hbnot
      rw [hh, addBlockToFreeList_free, freeBlocks_modify, removeBlockFromFreeList_free,
        hkeep₁.freeBlocks, grow_freeBlocks]
      · exact hins
      all_goals exact fun _ => rfl
    · rw [len_of_info hinfo, Function.update_self, hsize]
      exact (Nat.add_assoc ..).symm
    · exact fun z hz => len_other hinfo (hs.ne_mid (by simp) hz)
  obtain ⟨hl, hnr⟩ := (apart_used hused).mp hapart
  obtain ⟨_, hr, _, hnext⟩ := (apart_free (l := []) hnfree).mp hnr
  refine .of_merged hshape hinfo ho hl hr hprev hnext fun z hz hzused => ?_
  have hzn : z ≠ n := fun heq => hzused (heq ▸ hnfree)
  simp only [List.mem_append, List.mem_cons] at hz ⊢
  tauto

/-- Both neighbours are free; the previous block takes the room of the two
others. -/
theorem Shape.release_both {v : Nat} (hs : Shape env h (l ++ p :: b :: n :: r) fs e)
    (hused : ¬ h.Free b) (hpfree : h.Free p) (hnfree : h.Free n)
    (hapart : Apart h.Free (l ++ p :: b :: n :: r))
    (hsize : size = (h.info p).size + (2 * headerSize + (h.info b).size + (h.info n).size))
    (hh : h' = removeBlockFromBlockList (removeBlockFromBlockList (removeBlockFromFreeList
      (h.grow p v size) n) n) b) :
    Released env h h' (l ++ p :: n :: r) e := by
  have hp0 : p ≠ 0 := hs.ne_zero (by simp)
  obtain ⟨f₁, f₂, hfs⟩ := List.append_of_mem ((hs.free_iff n).mpr ⟨by simp, hnfree⟩)
  have hpfs : p ∈ fs := (hs.free_iff p).mpr ⟨by simp, hpfree⟩
  have hbfs : b ∉ fs := fun hmem => hused ((hs.free_iff b).mp hmem).2
  subst hfs
  have hmid : ∀ z, z ∈ f₁ ++ n :: f₂ ↔ z = n ∨ z ∈ f₁ ++ f₂ := by
    intro z
    simp only [List.mem_append, List.mem_cons]
    tauto
  have hnnot : n ∉ f₁ ++ f₂ := by
    have hnodup := (List.nodup_cons.mp hs.freeList.nodup).2
    exact (List.nodup_cons.mp (List.nodup_middle.mp hnodup)).1
  have hnodup := hs.nodup
  have hnblock : n ∉ l ++ p :: b :: r := by
    have hsplit : l ++ p :: b :: n :: r = (l ++ [p, b]) ++ n :: r := by simp
    rw [hsplit, List.nodup_middle, List.nodup_cons, List.append_assoc] at hnodup
    exact hnodup.1
  have hpn : p ≠ n := fun heq => hnblock (by simp [← heq])
  have hkeep₁ := removeBlockFromFreeList_keeps (h.grow p v size) n
  have hkeep₂ := removeBlockFromBlockList_keeps (removeBlockFromFreeList (h.grow p v size) n) n
  have hkeep₃ := removeBlockFromBlockList_keeps (removeBlockFromBlockList (removeBlockFromFreeList
    (h.grow p v size) n) n) b
  rw [← hh] at hkeep₃
  have hinfo := (hkeep₃.info.trans (hkeep₂.info.trans hkeep₁.info)).trans (grow_info_free hpfree)
  have ho : h'.outside = h.outside :=
    hkeep₃.outside.trans (hkeep₂.outside.trans hkeep₁.outside)
  have hshape : Shape env h' (l ++ p :: r) (f₁ ++ f₂) e := by
    -- the room of the first two, and then that of the third one
    have hfirst : Tiles (Function.update h.len p (h.len p + h.len b)) h.virtualBase
        (l ++ p :: n :: r) e := by
      apply hs.tiles.join (Function.update_self ..)
      exact fun z hz => Function.update_of_ne (hs.ne_mid (by simp) hz) _ _
    apply hs.merged (x := p) _ _ (hfirst.join _ _) hinfo ho (by simp)
    · intro z hz
      simp only [List.mem_append, List.mem_cons] at hz ⊢
      tauto
    · intro z
      constructor
      · intro hz
        by_cases heq : z = p
        · exact .inl heq
        · have hzf := (hmid z).mpr (.inr hz)
          have hmem := hs.mem_free hzf
          have hzb : z ≠ b := fun hzb => hbfs (hzb ▸ hzf)
          have hzn : z ≠ n := fun hzn => hnnot (hzn ▸ hz)
          refine .inr ⟨heq, ?_, hzf⟩
          simp only [List.mem_append, List.mem_cons] at hmem ⊢
          tauto
      · rintro (heq | ⟨_, hz, hzf⟩)
        · rw [heq]
          exact ((hmid p).mp hpfs).resolve_left hpn
        · refine ((hmid z).mp hzf).resolve_left fun hzn => hnblock ?_
          rw [← hzn]
          simp only [List.mem_append, List.mem_cons] at hz ⊢
          tauto
    · rw [hh, removeBlockFromBlockList_blocks, removeBlockFromBlockList_blocks, hkeep₁.blocks,
        grow_blocks hp0]
      exact hs.blocks.remove_two_lost
    · rw [hkeep₃.freeBlocks, hkeep₂.freeBlocks, removeBlockFromFreeList_free, grow_freeBlocks]
      exact hs.freeList.remove
    · rw [len_of_info hinfo, Function.update_self, Function.update_self,
        Function.update_of_ne hpn.symm, hsize]
      unfold Heap.len
      omega
    · intro z hz
      have hsub : r ⊆ b :: n :: r := fun a ha => by simp [ha]
      have hzp := hs.ne_mid hsub hz
      rw [len_other hinfo hzp, Function.update_of_ne hzp]
  obtain ⟨hl, hbnr, hprev, _⟩ := (apart_free hpfree).mp hapart
  have hnr := ((apart_used (l := []) hused).mp hbnr).2
  obtain ⟨_, hr, _, hnext⟩ := (apart_free (l := []) hnfree).mp hnr
  refine .of_merged hshape hinfo ho hl hr hprev hnext fun z hz hzused => ?_
  have hzp : z ≠ p := fun heq => hzused (heq ▸ hpfree)
  have hzn : z ≠ n := fun heq => hzused (heq ▸ hnfree)
  simp only [List.mem_append, List.mem_cons] at hz ⊢
  tauto

/-! ## The whole call -/

theorem Shape.prev_eq (hs : Shape env h (l ++ b :: r) fs e) :
    (h.headers b).prevPtr = l.getLastD 0 := hs.blocks.prv_eq

theorem Shape.next_eq (hs : Shape env h (l ++ b :: r) fs e) :
    (h.headers b).nextPtr = r.headD 0 := hs.blocks.nxt_eq

theorem Shape.free_of_ne_zero (hs : Shape env h xs fs e) (hx : x ∈ xs)
    (hfree : (h.headers x).isFree ≠ 0) : h.Free x :=
  (hs.header x hx).isFree.resolve_left hfree

/-- The negated test for a free neighbour, whether there is one or not. -/
theorem Shape.not_free_of (hs : Shape env h xs fs e) {o : Option Nat}
    (htest : ¬ (o.getD 0 ≠ 0 ∧ (h.headers (o.getD 0)).isFree ≠ 0)) (ho : ∀ a ∈ o, a ∈ xs) :
    ∀ a ∈ o, ¬ h.Free a := by
  intro a ha hfree
  have hget : o.getD 0 = a := by
    rw [Option.mem_def.mp ha, Option.getD_some]
  apply htest
  rw [hget]
  refine ⟨hs.ne_zero (ho a ha), fun hzero => ?_⟩
  have hone : (h.headers a).isFree = 1 := hfree
  rw [hzero] at hone
  cases hone

/-- The sizes are read after the store to a link. -/
theorem size_setNext {v : Nat} (x : Nat) :
    ((h.modify p fun c => { c with nextPtr := v }).headers x).size = (h.info x).size := by
  have hinfo : (h.modify p fun c => { c with nextPtr := v }).info = h.info :=
    info_modify (h := h) fun _ => rfl
  exact congrArg BlockInfo.size (congrFun hinfo x)

/-- Where a block and the one behind it end. -/
theorem Shape.room (hs : Shape env h (l ++ x :: b :: r) fs e) :
    x + headerSize + (h.info x).size = b ∧ b + headerSize + (h.info b).size ≤ 2 ^ 64 := by
  have hnext := hs.tiles.next_eq
  obtain ⟨_, hhi, hfits⟩ := hs.bounds (x := b) (by simp)
  refine ⟨?_, Nat.le_trans hhi hfits⟩
  rw [hnext, Nat.add_assoc]
  rfl

/-- Releasing a used block leads to a heap without neighbours that are both
free. -/
theorem releaseBlock_spec (hs : Shape env h (l ++ b :: r) fs e)
    (hapart : Apart h.Free (l ++ b :: r)) (hused : ¬ h.Free b) :
    Released env h (releaseBlock h b) (l ++ r) e := by
  unfold releaseBlock
  rw [hs.prev_eq, hs.next_eq]
  dsimp only
  by_cases hp : l.getLastD 0 ≠ 0 ∧ (h.headers (l.getLastD 0)).isFree ≠ 0
  · obtain rfl | ⟨l, p, rfl⟩ := List.eq_nil_or_concat l
    · exact absurd rfl hp.1
    rw [List.concat_eq_append] at hs hapart hp ⊢
    rw [List.getLastD_concat] at hp ⊢
    rw [List.append_assoc] at hs hapart ⊢
    rw [List.singleton_append] at hs hapart ⊢
    have hpfree : h.Free p := hs.free_of_ne_zero (by simp) hp.2
    have hroom := hs.room
    by_cases hn : r.headD 0 ≠ 0 ∧ (h.headers (r.headD 0)).isFree ≠ 0
    · rw [if_pos ⟨hp, hn⟩]
      cases r with
      | nil => exact absurd rfl hn.1
      | cons n r =>
        have hnfree : h.Free n := hs.free_of_ne_zero (by simp) hn.2
        have hroom₂ := Shape.room (l := l ++ [p]) (by rw [List.append_assoc]; exact hs)
        refine hs.release_both hused hpfree hnfree hapart ?_ rfl
        rw [size_setNext, size_setNext, size_setNext, List.headD_cons]
        unfold headerSize at *
        have hsum : add64 (2 * 56) (h.info b).size = 2 * 56 + (h.info b).size :=
          add64_eq (by omega)
        rw [hsum]
        exact add64_add64 (by omega)
    · rw [if_neg fun hboth => hn hboth.2, if_pos hp]
      rw [List.headD_eq_head?_getD] at hn
      have hnext := hs.not_free_of hn fun a ha => by simp [List.mem_of_mem_head? ha]
      refine hs.release_prev hused hpfree hapart hnext ?_ rfl
      rw [size_setNext, size_setNext]
      unfold headerSize at *
      exact add64_add64 (by omega)
  · rw [if_neg fun hboth => hp hboth.1, if_neg hp]
    rw [List.getLastD_eq_getLast?] at hp
    have hprev := hs.not_free_of hp fun a ha => by simp [List.mem_of_mem_getLast? ha]
    by_cases hn : r.headD 0 ≠ 0 ∧ (h.headers (r.headD 0)).isFree ≠ 0
    · rw [if_pos hn]
      cases r with
      | nil => exact absurd rfl hn.1
      | cons n r =>
        have hnfree : h.Free n := hs.free_of_ne_zero (by simp) hn.2
        have hroom := hs.room
        refine hs.release_next hused hnfree hapart hprev ?_ rfl
        rw [size_setNext, size_setNext, List.headD_cons]
        unfold headerSize at *
        exact add64_add64 (by omega)
    · rw [if_neg hn]
      rw [List.headD_eq_head?_getD] at hn
      have hnext := hs.not_free_of hn fun a ha => by simp [List.mem_of_mem_head? ha]
      exact hs.release_none hused hapart hprev hnext rfl

theorem blockAllocatorFree_spec (hs : Shape env h (l ++ b :: r) fs e)
    (hapart : Apart h.Free (l ++ b :: r)) (hused : ¬ h.Free b)
    (hactive : env.vmapIsActive h.space = true) :
    ∃ h', blockAllocatorFree env h (b + headerSize) = some h' ∧
      Released env h h' (l ++ r) e := by
  have hb : b ∈ l ++ b :: r := by simp
  obtain ⟨_, hhi, hfits⟩ := hs.bounds hb
  have hne : b + headerSize ≠ 0 := by
    unfold headerSize
    omega
  have hheader : sub64 (b + headerSize) headerSize = b := by
    unfold sub64 headerSize at *
    omega
  have hzero : (h.headers b).isFree = 0 := (hs.header b hb).isFree.resolve_right hused
  have hmagic : (h.headers b).magic = blockAllocatorBlockMagic := (hs.header b hb).magic
  refine ⟨releaseBlock h b, ?_, releaseBlock_spec hs hapart hused⟩
  unfold blockAllocatorFree
  rw [if_neg hne, if_pos hactive, hheader]
  apply if_neg
  rw [hmagic, hzero]
  simp

end ZOs.BlockAllocator
