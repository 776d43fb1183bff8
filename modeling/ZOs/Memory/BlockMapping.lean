import ZOs.Memory.VmapBlock

/-!
# What a block maps

`vmap_map_l1_block` and `vmap_map_l2_block` enter one block at one level or
the next. An entry has room for the bits of a physical address below 2^48,
and tables translate the low 48 bits of a virtual one; within these limits
a block maps all its addresses, and nothing else.
-/

namespace ZOs.Paging

open TableTree Attempt

/-- The blocks, by the level of their entries. -/
inductive Block where
  | l1
  | l2

def Block.level : Block → Nat
  | .l1 => 1
  | .l2 => 2

/-- The bits of an address that tell the addresses of a block apart. -/
def Block.offsetBits : Block → Nat
  | .l1 => 30
  | .l2 => 21

def Block.size (b : Block) : Word := leafSize b.level

/-- The function that maps such a block. -/
def Block.map : Block → Word → Word → Word → Attempt Vmap Unit
  | .l1 => vmapMapL1Block
  | .l2 => vmapMapL2Block

/-- The number of the block of an address, of which only 48 bits count. -/
def Block.number (b : Block) (virtualAddress : Word) : Nat :=
  virtualAddress.toNat % 2 ^ 48 / b.size.toNat

section
variable {v v' : Vmap} {x off physicalAddress virtualAddress pageFlags : Word} (b : Block)

/-! ## Arithmetic of blocks -/

theorem Block.size_toNat : b.size.toNat = 2 ^ b.offsetBits := by
  cases b <;> decide

theorem Block.size_sub_one : b.size - 1 = Bits.low 64 b.offsetBits := by
  cases b <;> decide

theorem Block.mask_eq : leafAddrMask b.level = Bits.field 64 b.offsetBits 48 := by
  cases b <;> decide

theorem Block.offsetBits_le : b.offsetBits ≤ 48 := by
  cases b <;> decide

/-- Aligned to the size of the block. -/
def Block.Base (address : Word) : Prop := address.toNat % 2 ^ b.offsetBits = 0

variable {b}

theorem Block.base_iff {address : Word} : address % b.size = 0 ↔ b.Base address := by
  unfold Block.Base
  rw [← b.size_toNat, ← BitVec.toNat_umod, ← BitVec.toNat_inj]
  rfl

/-- The checks that both functions start with. -/
theorem tried_aligned {α : Type} {size : Word} (x : Attempt Vmap α) (v : Vmap) :
    Tried (if virtualAddress % size ≠ 0 then giveUp
      else if physicalAddress % size ≠ 0 then giveUp else x) v (fun _ => True)
      fun _ _ => virtualAddress % size = 0 ∧ physicalAddress % size = 0 := by
  rw [tried_ite]
  split
  · trivial
  · rename_i hva
    rw [tried_ite]
    split
    · trivial
    · rename_i hpa
      exact tried_of_forall (fun _ => trivial) fun _ _ =>
        ⟨Decidable.not_not.mp hva, Decidable.not_not.mp hpa⟩

/-- What is mapped was aligned. -/
theorem Block.map_aligned (h : b.map virtualAddress physicalAddress pageFlags v = (some (), v')) :
    b.Base virtualAddress ∧ b.Base physicalAddress := by
  have hspec : Tried (b.map virtualAddress physicalAddress pageFlags) v (fun _ => True)
      fun _ _ => virtualAddress % b.size = 0 ∧ physicalAddress % b.size = 0 := by
    cases b with
    | l1 => exact tried_aligned _ v
    | l2 => exact tried_aligned _ v
  obtain ⟨hva, hpa⟩ := hspec.returned h
  exact ⟨base_iff.mp hva, base_iff.mp hpa⟩

theorem Block.toNat_add (hva : b.Base virtualAddress) (hoff : off.toNat < b.size.toNat) :
    (virtualAddress + off).toNat = virtualAddress.toNat + off.toNat := by
  rw [BitVec.toNat_add, Nat.mod_eq_of_lt]
  have hlt := virtualAddress.isLt
  rw [b.size_toNat] at hoff
  cases b <;> simp only [Block.Base, Block.offsetBits] at * <;> omega

theorem Block.number_add (hva : b.Base virtualAddress) (hoff : off.toNat < b.size.toNat) :
    b.number (virtualAddress + off) = b.number virtualAddress := by
  unfold Block.number
  rw [Block.toNat_add hva hoff]
  rw [b.size_toNat] at hoff ⊢
  cases b <;> simp only [Block.Base, Block.offsetBits] at * <;> omega

theorem Block.and_offset (hva : b.Base virtualAddress) (hoff : off.toNat < b.size.toNat) :
    (virtualAddress + off) &&& (b.size - 1) = off := by
  apply BitVec.eq_of_toNat_eq
  rw [b.size_sub_one, Bits.toNat_and_low (Nat.le_trans b.offsetBits_le (by decide)),
    Block.toNat_add hva hoff]
  rw [b.size_toNat] at hoff
  unfold Block.Base at hva
  rw [Nat.add_mod, hva, Nat.zero_add, Nat.mod_mod, Nat.mod_eq_of_lt hoff]

/-- The entry of a block is on the way of the addresses of the block. -/
theorem Block.prefix_iff :
    (path virtualAddress).take (b.level + 1) <+: path x ↔ b.number x = b.number virtualAddress := by
  have htake : (path virtualAddress).take (b.level + 1) <+: path x ↔
      (path virtualAddress).take (b.level + 1) = (path x).take (b.level + 1) := by
    rw [List.prefix_iff_eq_take, List.length_take]
    cases b <;> rfl
  rw [htake]
  unfold Block.number
  rw [b.size_toNat]
  cases b <;> simp only [path, Block.level, Block.offsetBits, List.take_succ_cons, List.take_zero,
    List.cons.injEq, Fin.ext_iff, index_val, BitVec.toNat_ushiftRight,
    Nat.shiftRight_eq_div_pow, and_true] <;> omega

/-! ## Block entries -/

theorem AttributeFlags.and_field {lo : Nat} (h : AttributeFlags pageFlags) (hlo : 12 ≤ lo) :
    pageFlags &&& Bits.field 64 lo 48 = 0 := by
  have hmask : Bits.field 64 lo 48 = tblEntryAddrMask &&& Bits.field 64 lo 48 := by
    rw [addrMask_eq]
    apply BitVec.eq_of_getLsbD_eq
    intro i hi
    rw [BitVec.getLsbD_and, Bits.getLsbD_field hi, Bits.getLsbD_field hi]
    by_cases hle : lo ≤ i
    · simp [hle, Nat.le_trans hlo hle]
    · simp [hle]
  rw [hmask, ← BitVec.and_assoc, h.addr]
  exact BitVec.zero_and

theorem blockEntry_addr (hpa : b.Base physicalAddress) (hlt : physicalAddress.toNat < 2 ^ 48)
    (hflags : AttributeFlags pageFlags) :
    blockEntry (leafAddrMask b.level) physicalAddress pageFlags &&& leafAddrMask b.level =
      physicalAddress := by
  have hmasked : physicalAddress &&& leafAddrMask b.level = physicalAddress := by
    rw [b.mask_eq]
    exact Bits.and_field_eq_self hpa hlt
  have hclear : pageFlags &&& leafAddrMask b.level = 0 := by
    rw [b.mask_eq]
    exact hflags.and_field (by cases b <;> decide)
  unfold blockEntry
  rw [hmasked, Bits.and_eq_right_of_clear, hmasked]
  rw [Bits.and_eq_right_of_clear (by cases b <;> decide)]
  exact hclear

/-- What an address of the block reads from its entry. -/
theorem stopAddress_blockEntry (hva : b.Base virtualAddress) (hpa : b.Base physicalAddress)
    (hlt : physicalAddress.toNat < 2 ^ 48) (hflags : AttributeFlags pageFlags)
    (hoff : off.toNat < b.size.toNat) :
    stopAddress (virtualAddress + off)
      (.leaf b.level (blockEntry (leafAddrMask b.level) physicalAddress pageFlags)) =
      some (physicalAddress + off) := by
  show some ((blockEntry (leafAddrMask b.level) physicalAddress pageFlags &&&
    leafAddrMask b.level) ||| ((virtualAddress + off) &&& (b.size - 1))) = _
  have hsmall : off &&& Bits.low 64 b.offsetBits = off := by
    rw [b.size_toNat] at hoff
    apply BitVec.eq_of_toNat_eq
    rw [Bits.toNat_and_low (Nat.le_trans b.offsetBits_le (by decide))]
    exact Nat.mod_eq_of_lt hoff
  rw [blockEntry_addr hpa hlt hflags, Block.and_offset hva hoff, Bits.or_eq_add hpa hsmall]

/-! ## Mapping a block -/

theorem AttributeFlags.table (h : AttributeFlags pageFlags) : pageFlags &&& tblEntryTable = 0 := by
  have hmask : tblEntryTable = 0x0000FFFFFFFFF003 &&& tblEntryTable := by decide
  rw [hmask, ← BitVec.and_assoc, h]
  exact BitVec.zero_and

theorem Block.map_spec (virtualAddress physicalAddress : Word) (h : WellFormed v)
    (hflags : pageFlags &&& tblEntryTable = 0) :
    Tried (b.map virtualAddress physicalAddress pageFlags) v (Grew v) fun _ v' =>
      Entered v v' ((path virtualAddress).take (b.level + 1))
        (blockEntry (leafAddrMask b.level) physicalAddress pageFlags) ∧
      v.walk ((path virtualAddress).take (b.level + 1)) = .fault := by
  cases b with
  | l1 => exact vmapMapL1Block_spec virtualAddress physicalAddress h hflags
  | l2 => exact vmapMapL2Block_spec virtualAddress physicalAddress h hflags

/-- Nothing is translated below a slot that was free. -/
theorem Block.translate_of_fault (h : v.walk ((path virtualAddress).take (b.level + 1)) = .fault)
    (hx : b.number x = b.number virtualAddress) : v.vmapVirtualToPhysical x = none := by
  obtain ⟨q, hq⟩ := b.prefix_iff.mpr hx
  rw [vmapVirtualToPhysical_eq, ← hq, Vmap.walk_fault_append h]
  rfl

/-- A call that returns 0 maps a block that was free, and only that; a call
that returns -1 changes no translation. -/
theorem vmapMapBlock_correct (b : Block) (v v' : Vmap) (h : WellFormed v)
    (virtualAddress physicalAddress pageFlags : Word) (hflags : AttributeFlags pageFlags)
    (r : Option Unit) (hcall : b.map virtualAddress physicalAddress pageFlags v = (r, v')) :
    match r with
    | some () =>
      (∀ off : Word, off.toNat < b.size.toNat →
        v.vmapVirtualToPhysical (virtualAddress + off) = none ∧
        (physicalAddress.toNat < 2 ^ 48 →
          v'.vmapVirtualToPhysical (virtualAddress + off) = some (physicalAddress + off))) ∧
      ∀ x, b.number x ≠ b.number virtualAddress →
        v'.vmapVirtualToPhysical x = v.vmapVirtualToPhysical x
    | none => ∀ x, v'.vmapVirtualToPhysical x = v.vmapVirtualToPhysical x := by
  have hspec := Block.map_spec (b := b) virtualAddress physicalAddress h hflags.table
  cases r with
  | none => exact (hspec.gaveUp hcall).translate
  | some u =>
    obtain ⟨hent, hfault⟩ := hspec.returned hcall
    obtain ⟨hva, hbase⟩ := Block.map_aligned hcall
    constructor
    · intro off hoff
      have hnumber := Block.number_add hva hoff
      constructor
      · exact Block.translate_of_fault hfault hnumber
      · intro hpa
        have hlevel : ((path virtualAddress).take (b.level + 1)).length - 1 = b.level := by
          cases b <;> rfl
        rw [vmapVirtualToPhysical_eq, hent.here (b.prefix_iff.mpr hnumber), hlevel]
        exact stopAddress_blockEntry hva hbase hpa hflags hoff
    · intro x hx
      rw [vmapVirtualToPhysical_eq, vmapVirtualToPhysical_eq, hent.there]
      exact fun hpre => hx (b.prefix_iff.mp hpre)

end

/-- What `oneBlock` maps, by the theorem for all blocks. -/
theorem oneBlock_translate : oneBlock.vmapVirtualToPhysical 0x1FFFFF = some 0x3FFFFF := by
  rcases hcall : Block.l2.map 0 0x200000 0 fourPages with ⟨r, v'⟩
  have hone : oneBlock = (Block.l2.map 0 0x200000 0 fourPages).2 := rfl
  have hreturned : (Block.l2.map 0 0x200000 0 fourPages).1 = some () := by decide +kernel
  rw [hcall] at hone hreturned
  have hreturned : r = some () := hreturned
  subst hreturned
  have hcorrect := vmapMapBlock_correct .l2 fourPages v' fourPages_empty.wellFormed 0 0x200000 0
    (by unfold AttributeFlags; decide) (some ()) hcall
  rw [hone]
  exact (hcorrect.1 0x1FFFFF (by decide)).2 (by decide)

/-- Of a physical address from 2^48 on an entry keeps the low bits, and a
virtual address from 2^48 on is translated as its low bits are. -/
theorem block_limits :
    (¬ ∀ (b : Block) (v v' : Vmap) (virtualAddress physicalAddress pageFlags : Word),
      WellFormed v → AttributeFlags pageFlags →
      b.map virtualAddress physicalAddress pageFlags v = (some (), v') →
      ∀ off : Word, off.toNat < b.size.toNat →
        v'.vmapVirtualToPhysical (virtualAddress + off) = some (physicalAddress + off)) ∧
    ¬ ∀ (b : Block) (v v' : Vmap) (virtualAddress physicalAddress pageFlags : Word),
      WellFormed v → AttributeFlags pageFlags →
      b.map virtualAddress physicalAddress pageFlags v = (some (), v') →
      ∀ x, (∀ off : Word, off.toNat < b.size.toNat → x ≠ virtualAddress + off) →
        v'.vmapVirtualToPhysical x = v.vmapVirtualToPhysical x := by
  have hflags : AttributeFlags 0 := by
    unfold AttributeFlags
    decide
  rcases hcall : Block.l2.map 0 0x1000000000000 0 fourPages with ⟨r, v'⟩
  have hreturned : (Block.l2.map 0 0x1000000000000 0 fourPages).1 = some () := by
    decide +kernel
  have hlow : (Block.l2.map 0 0x1000000000000 0 fourPages).2.vmapVirtualToPhysical (0 + 0) =
      some 0 := by decide +kernel
  have hhigh : (Block.l2.map 0 0x1000000000000 0 fourPages).2.vmapVirtualToPhysical
      0x1000000000000 = some 0 := by decide +kernel
  rw [hcall] at hreturned hlow hhigh
  have hreturned : r = some () := hreturned
  have hlow : v'.vmapVirtualToPhysical (0 + 0) = some 0 := hlow
  have hhigh : v'.vmapVirtualToPhysical 0x1000000000000 = some 0 := hhigh
  subst hreturned
  constructor
  · intro hall
    have hmapped := hall .l2 fourPages v' 0 0x1000000000000 0 fourPages_empty.wellFormed hflags
      hcall 0 (by decide)
    rw [hlow] at hmapped
    exact absurd hmapped (by decide)
  · intro hall
    have hsame := hall .l2 fourPages v' 0 0x1000000000000 0 fourPages_empty.wellFormed hflags
      hcall 0x1000000000000 ?_
    · rw [hhigh] at hsame
      exact absurd hsame (by decide)
    · intro off hoff heq
      have heq : off = 0x1000000000000 := (heq.trans (zero_add off)).symm
      rw [heq] at hoff
      exact absurd hoff (by decide)

end ZOs.Paging
