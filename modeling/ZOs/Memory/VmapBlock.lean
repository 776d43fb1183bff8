import ZOs.Memory.VmapPage

/-!
# Mixing blocks and pages

The block functions refuse an occupied slot, and they check every entry on
the way for being a table. `vmap_map_page` makes no such check: below a
block entry it takes the memory that the block maps for a table and writes
into it. `calls_safe_iff` shows that nothing else goes wrong in any
sequence of the three mapping calls.
-/

namespace ZOs.Paging

open TableTree Attempt Runs

section
variable {v v' : Vmap} {t idx e entry physicalAddress virtualAddress pageFlags : Word}
  {p : List Index} {i : Index} {F : Vmap → Prop} {P : Word → Vmap → Prop}

/-! ## Block entries -/

/-- What the block functions write. -/
def blockEntry (addrMask physicalAddress pageFlags : Word) : Word :=
  tblEntryValid ||| tblEntryBlock ||| pageFlagAccess ||| pageFlags |||
    (physicalAddress &&& addrMask)

theorem blockEntry_valid {addrMask : Word} :
    blockEntry addrMask physicalAddress pageFlags &&& tblEntryValid ≠ 0 :=
  Bits.or_and_ne_zero (Bits.or_and_ne_zero (Bits.or_and_ne_zero (Bits.or_and_ne_zero (by decide))))

/-- Flags without the table bit make a block entry. -/
theorem blockEntry_block {addrMask : Word} (hmask : addrMask &&& tblEntryTable = 0)
    (hflags : pageFlags &&& tblEntryTable = 0) :
    blockEntry addrMask physicalAddress pageFlags &&& tblEntryTable = 0 := by
  unfold blockEntry
  rw [Bits.and_eq_left_of_clear (Bits.and_and_of_clear hmask), Bits.and_eq_left_of_clear hflags]
  decide

/-- An entry that is valid and has the table bit leads to a table. -/
theorem Vmap.Reached.next (h : v.Reached t p) (hp : p.length < 3) (he : entry = v.slot t i)
    (hvalid : entry &&& tblEntryValid ≠ 0) (htable : entry &&& tblEntryTable ≠ 0) :
    v.Reached (entry &&& tblEntryAddrMask) (p ++ [i]) := by
  apply h.child
  rw [← he]
  exact entryKind_table hvalid htable hp

/-- An invalid entry is filled, an occupied one is refused. -/
theorem fillSlot_spec (h : WellFormed v) (ht : v.Reached t p) (hidx : idx.toNat = i.val)
    (hnew : entryKind p.length e = .leaf) :
    Tried (fillSlot t idx e) v (fun v' => v' = v) fun _ v' =>
      Entered v v' (p ++ [i]) e ∧ v.walk (p ++ [i]) = .fault := by
  unfold fillSlot loadEntry
  rw [tried_bind, tried_read, tried_ite]
  have hload : v.entry t idx = v.slot t i := by
    unfold Vmap.entry Vmap.slot entryAddress
    rw [hidx]
  split
  · rename_i hold
    rw [hload] at hold
    have hfault := entryKind_invalid hold p.length
    unfold storeEntry
    rw [tried_modify]
    constructor
    · exact store_leaf h ht hidx (by simp [hfault]) hnew
    · rw [ht.walk_append, walk_cons_fault hfault]
  · rfl

/-! ## The block functions -/

/-- One level of the way down in a block function, which goes on from a table. -/
theorem tried_tableEntry {v₀ : Vmap} {f : Word → Attempt Vmap Unit} {P : Unit → Vmap → Prop}
    (h₀ : Grew v v₀) (ht : v₀.Reached t p) (hp : p.length < 3) (hidx : idx.toNat = i.val)
    (hrest : ∀ entry v₁, Grew v v₁ → v₁.Reached (entry &&& tblEntryAddrMask) (p ++ [i]) →
      Tried (f entry) v₁ (Grew v) P) :
    Tried (entryOrNewTable t idx >>= fun entry =>
      if entry &&& tblEntryTable = 0 then .giveUp else f entry) v₀ (Grew v) P := by
  rw [tried_bind]
  apply (entryOrNewTable_spec h₀.wellFormed ht hp hidx).mono
  · exact fun _ hgrew => h₀.trans hgrew
  intro entry v₁ ⟨hgrew, he, hvalid⟩
  have h₁ := h₀.trans hgrew
  rw [tried_ite]
  split
  · exact h₁
  · rename_i htable
    exact hrest entry v₁ h₁ ((hgrew.reached ht).next hp he hvalid htable)

/-- The end of a block function, after tables have been added. -/
theorem tried_fillSlot {v₁ : Vmap} (h₁ : Grew v v₁) (ht : v₁.Reached t p)
    (hidx : idx.toNat = i.val) (hkind : entryKind p.length e = .leaf) :
    Tried (fillSlot t idx e) v₁ (Grew v) fun _ v' =>
      Entered v v' (p ++ [i]) e ∧ v.walk (p ++ [i]) = .fault := by
  apply (fillSlot_spec h₁.wellFormed ht hidx hkind).mono
  · intro v₂ heq
    rw [heq]
    exact h₁
  · intro _ v₂ ⟨hent, hfault⟩
    refine ⟨h₁.entered hent, ?_⟩
    by_contra hne
    exact hne ((h₁.stops hne).symm.trans hfault)

/-- `vmap_map_l1_block` adds tables and fails, or enters the block in a slot
that was free. -/
theorem vmapMapL1Block_spec (virtualAddress physicalAddress : Word) (h : WellFormed v)
    (hflags : pageFlags &&& tblEntryTable = 0) :
    Tried (vmapMapL1Block virtualAddress physicalAddress pageFlags) v (Grew v) fun _ v' =>
      Entered v v' ((path virtualAddress).take 2)
        (blockEntry tblEntryL1BlockAddrMask physicalAddress pageFlags) ∧
      v.walk ((path virtualAddress).take 2) = .fault := by
  unfold vmapMapL1Block
  rw [tried_ite]
  split
  · exact Grew.refl h
  rw [tried_ite]
  split
  · exact Grew.refl h
  rw [tried_bind]
  apply (rootTable_spec h).mono (fun _ hgrew => hgrew)
  intro root v₀ ⟨h₀, hroot⟩
  apply tried_tableEntry (i := index (virtualAddress >>> 39)) h₀ hroot (by simp)
    (l0Index_toNat virtualAddress)
  intro l0Entry v₁ h₁ hl0
  have hkind : entryKind 1 (blockEntry tblEntryL1BlockAddrMask physicalAddress pageFlags) = .leaf :=
    entryKind_block blockEntry_valid (blockEntry_block (by decide) hflags) (by decide)
  exact tried_fillSlot (i := index (virtualAddress >>> 30)) h₁ hl0 (l1Index_toNat virtualAddress)
    hkind

theorem vmapMapL2Block_spec (virtualAddress physicalAddress : Word) (h : WellFormed v)
    (hflags : pageFlags &&& tblEntryTable = 0) :
    Tried (vmapMapL2Block virtualAddress physicalAddress pageFlags) v (Grew v) fun _ v' =>
      Entered v v' ((path virtualAddress).take 3)
        (blockEntry tblEntryL2BlockAddrMask physicalAddress pageFlags) ∧
      v.walk ((path virtualAddress).take 3) = .fault := by
  unfold vmapMapL2Block
  rw [tried_ite]
  split
  · exact Grew.refl h
  rw [tried_ite]
  split
  · exact Grew.refl h
  rw [tried_bind]
  apply (rootTable_spec h).mono (fun _ hgrew => hgrew)
  intro root v₀ ⟨h₀, hroot⟩
  apply tried_tableEntry (i := index (virtualAddress >>> 39)) h₀ hroot (by simp)
    (l0Index_toNat virtualAddress)
  intro l0Entry v₁ h₁ hl0
  apply tried_tableEntry (i := index (virtualAddress >>> 30)) h₁ hl0 (by simp)
    (l1Index_toNat virtualAddress)
  intro l1Entry v₂ h₂ hl1
  have hkind : entryKind 2 (blockEntry tblEntryL2BlockAddrMask physicalAddress pageFlags) = .leaf :=
    entryKind_block blockEntry_valid (blockEntry_block (by decide) hflags) (by decide)
  exact tried_fillSlot (i := index (virtualAddress >>> 21)) h₂ hl1 (l2Index_toNat virtualAddress)
    hkind

/-! ## A page below a block -/

/-- The one way in which `vmap_map_page` gives up below a block: the block is
one of 1 GiB, the word of it that is taken for the next entry is not valid,
and there is no page to be had. -/
def StopsShort (v : Vmap) (virtualAddress : Word) : Prop :=
  ∃ entry, v.walk (path virtualAddress) = .leaf 1 entry ∧
    v.slot (entry &&& tblEntryAddrMask) (index (virtualAddress >>> 21)) &&& tblEntryValid = 0 ∧
    v.answers.headD 0 = 0

theorem tried_rootTable (hroot : v.rootPageTable ≠ 0) :
    Tried rootTable v F P ↔ P v.rootPageTable v := by
  unfold rootTable
  rw [tried_bind, tried_read, tried_ite, if_neg hroot, tried_read]

theorem tried_entry_valid (hvalid : v.entry t idx &&& tblEntryValid ≠ 0) :
    Tried (entryOrNewTable t idx) v F P ↔ P (v.entry t idx) v := by
  unfold entryOrNewTable loadEntry
  rw [tried_bind, tried_read, tried_ite, if_neg hvalid, tried_pure]

/-- What a block that covers an address looks like in memory. -/
theorem covered_cases (h : Covered v virtualAddress) : v.rootPageTable ≠ 0 ∧
    ∃ l0Entry, l0Entry = v.slot v.rootPageTable (index (virtualAddress >>> 39)) ∧
      l0Entry &&& tblEntryValid ≠ 0 ∧
    ∃ l1Entry, l1Entry = v.slot (l0Entry &&& tblEntryAddrMask) (index (virtualAddress >>> 30)) ∧
      l1Entry &&& tblEntryValid ≠ 0 ∧
      (v.walk (path virtualAddress) = .leaf 1 l1Entry ∨
       (∀ e, v.walk (path virtualAddress) ≠ .leaf 1 e) ∧
        v.slot (l1Entry &&& tblEntryAddrMask) (index (virtualAddress >>> 21)) &&&
          tblEntryValid ≠ 0) := by
  obtain ⟨d, e, hwalk, hd⟩ := h
  have hroot : v.rootPageTable ≠ 0 := by
    intro hroot
    unfold Vmap.walk at hwalk
    rw [if_pos hroot] at hwalk
    cases hwalk
  refine ⟨hroot, _, rfl, ?_⟩
  rw [v.walk_of_root hroot] at hwalk ⊢
  unfold path at hwalk ⊢
  generalize hl0 : v.slot v.rootPageTable (index (virtualAddress >>> 39)) = l0Entry at *
  by_cases h0 : l0Entry &&& tblEntryValid = 0
  · rw [walk_cons_fault (by rw [hl0, entryKind_invalid h0])] at hwalk
    cases hwalk
  refine ⟨h0, _, rfl, ?_⟩
  rw [walk_cons_table (by rw [hl0, entryKind_root h0])] at hwalk ⊢
  generalize hl1 : v.slot (l0Entry &&& tblEntryAddrMask) (index (virtualAddress >>> 30)) =
    l1Entry at *
  by_cases h1 : l1Entry &&& tblEntryValid = 0
  · rw [walk_cons_fault (by rw [hl1, entryKind_invalid h1])] at hwalk
    cases hwalk
  refine ⟨h1, ?_⟩
  by_cases hb1 : l1Entry &&& tblEntryTable = 0
  · left
    rw [walk_cons_leaf (by rw [hl1, entryKind_block h1 hb1 (by decide)]), hl1]
  right
  rw [walk_cons_table (by rw [hl1, entryKind_table h1 hb1 (by decide)])] at hwalk ⊢
  generalize hl2 : v.slot (l1Entry &&& tblEntryAddrMask) (index (virtualAddress >>> 21)) =
    l2Entry at *
  by_cases h2 : l2Entry &&& tblEntryValid = 0
  · rw [walk_cons_fault (by rw [hl2, entryKind_invalid h2])] at hwalk
    cases hwalk
  refine ⟨?_, h2⟩
  by_cases hb2 : l2Entry &&& tblEntryTable = 0
  · rw [walk_cons_leaf (by rw [hl2, entryKind_block h2 hb2 (by decide)])]
    simp
  · -- below a table of the last level there are no blocks
    rw [walk_cons_table (by rw [hl2, entryKind_table h2 hb2 (by decide)])] at hwalk
    generalize hl3 : v.slot (l2Entry &&& tblEntryAddrMask) (index (virtualAddress >>> 12)) =
      l3Entry at *
    by_cases h3 : l3Entry &&& tblEntryValid = 0
    · rw [walk_cons_fault (by rw [hl3, entryKind_invalid h3])] at hwalk
      cases hwalk
    · rw [walk_cons_leaf (by rw [hl3, entryKind_page h3])] at hwalk
      injection hwalk with hdepth _
      omega

/-- Below a block, `vmap_map_page` returns 0 unless it stops short. -/
theorem vmapMapPage_covered (physicalAddress pageFlags : Word) (h : WellFormed v)
    (hcov : Covered v virtualAddress) :
    Tried (vmapMapPage physicalAddress virtualAddress pageFlags) v
      (fun v' => StopsShort v virtualAddress ∧ Grew v v')
      fun _ _ => ¬ StopsShort v virtualAddress := by
  obtain ⟨hroot, l0Entry, hl0, h0, l1Entry, hl1, h1, hcases⟩ := covered_cases hcov
  rw [← v.entry_l0] at hl0
  rw [← v.entry_l1] at hl1
  unfold vmapMapPage
  rw [tried_bind, tried_rootTable hroot, tried_bind, tried_entry_valid (by rw [← hl0]; exact h0),
    ← hl0, tried_bind, tried_entry_valid (by rw [← hl1]; exact h1), ← hl1, tried_bind]
  have hlast : ∀ l2PageTable v', Tried (storeEntry l2PageTable (l3Index virtualAddress)
      (pageEntry physicalAddress pageFlags)) v'
      (fun v' => StopsShort v virtualAddress ∧ Grew v v')
      (fun _ _ => ¬ StopsShort v virtualAddress) ↔ ¬ StopsShort v virtualAddress :=
    fun _ _ => Iff.rfl
  have hstops : ∀ {e}, v.walk (path virtualAddress) = .leaf 1 e → (StopsShort v virtualAddress ↔
      v.slot (e &&& tblEntryAddrMask) (index (virtualAddress >>> 21)) &&& tblEntryValid = 0 ∧
        v.answers.headD 0 = 0) := by
    intro e hwalk
    constructor
    · intro ⟨e', hwalk', hshort⟩
      rw [hwalk] at hwalk'
      injection hwalk' with _ he
      rw [he]
      exact hshort
    · intro hshort
      exact ⟨e, hwalk, hshort⟩
  rcases hcases with hwalk | ⟨hno, h2⟩
  · by_cases h2 : v.slot (l1Entry &&& tblEntryAddrMask) (index (virtualAddress >>> 21)) &&&
        tblEntryValid = 0
    · unfold entryOrNewTable loadEntry
      rw [tried_bind, tried_read, tried_ite, v.entry_l2, if_pos h2, tried_bind]
      apply (allocPage_spec h).mono (fun _ => False.elim)
      intro page v' ⟨hpage, hgrew, _⟩
      rw [tried_ite]
      split
      · rename_i hzero
        rw [hzero] at hpage
        exact ⟨(hstops hwalk).mpr ⟨h2, hpage.symm⟩, hgrew⟩
      · rename_i hne
        unfold storeEntry
        rw [tried_bind, tried_modify, tried_read]
        refine (hlast _ _).mpr ?_
        rw [hstops hwalk]
        intro hshort
        exact hne (hpage.trans hshort.2)
    · rw [tried_entry_valid (by rw [v.entry_l2]; exact h2)]
      refine (hlast _ _).mpr ?_
      rw [hstops hwalk]
      intro hshort
      exact h2 hshort.1
  · rw [tried_entry_valid (by rw [v.entry_l2]; exact h2)]
    refine (hlast _ _).mpr ?_
    intro ⟨e, hwalk, _⟩
    exact hno e hwalk

end

/-! ## Runs of the three mapping functions -/

inductive Call where
  | page (m : Mapping)
  | l1Block (m : Mapping)
  | l2Block (m : Mapping)

def Call.exec : Call → Attempt Vmap Unit
  | .page m => vmapMapPage m.physicalAddress m.virtualAddress m.pageFlags
  | .l1Block m => vmapMapL1Block m.virtualAddress m.physicalAddress m.pageFlags
  | .l2Block m => vmapMapL2Block m.virtualAddress m.physicalAddress m.pageFlags

/-- Flags say nothing about the type of an entry: like all `PAGE_FLAG_*`,
those of a block leave `TBL_ENTRY_TABLE` clear. -/
def Call.KeepsType : Call → Prop
  | .page _ => True
  | .l1Block m | .l2Block m => m.pageFlags &&& tblEntryTable = 0

/-- One call, whatever it returns. -/
def Calls (v : Vmap) (c : Call) (v' : Vmap) : Prop := c.KeepsType ∧ (c.exec v).2 = v'

/-- There is something where the call would map: for a page, a block entry
that covers it; for a block, a valid entry in its slot or a block above. -/
def Occupied (v : Vmap) : Call → Prop
  | .page m => Covered v m.virtualAddress
  | .l1Block m => v.walk ((path m.virtualAddress).take 2) ≠ .fault
  | .l2Block m => v.walk ((path m.virtualAddress).take 3) ≠ .fault

/-- A call stores only to pages obtained from `alloc_page`, and what is
occupied it refuses, leaving every translation as it was. -/
structure SafeCall (v : Vmap) (c : Call) : Prop where
  stores : ∃ more, (c.exec v).2.stored = more ++ v.stored ∧
    ∀ address ∈ more, ∃ page ∈ (c.exec v).2.obtained, InPage page address
  refuses : Occupied v c → (c.exec v).1 = none ∧
    ∀ x, (c.exec v).2.vmapVirtualToPhysical x = v.vmapVirtualToPhysical x

/-- No page is mapped below a block, unless that stops short. -/
def AvoidsBlocks (v : Vmap) (c : Call) : Prop :=
  ∀ m, c = .page m → Covered v m.virtualAddress → StopsShort v m.virtualAddress

section
variable {v v' : Vmap} {c : Call}

/-- A call that grows the tree on giving up, and otherwise fills a free slot,
is safe. -/
theorem safeCall_of_tried {slotPath : List Index} {e : Word}
    (h : Tried c.exec v (Grew v) fun _ v' => Entered v v' slotPath e ∧ ¬ Occupied v c) :
    SafeCall v c ∧ WellFormed (c.exec v).2 := by
  rcases hcall : c.exec v with ⟨_ | _, v'⟩
  · have hgrew := h.gaveUp hcall
    refine ⟨⟨?_, ?_⟩, hgrew.wellFormed⟩
    · rw [hcall]
      exact hgrew.stored
    · rw [hcall]
      exact fun _ => ⟨rfl, hgrew.translate⟩
  · obtain ⟨hent, hfree⟩ := h.returned hcall
    refine ⟨⟨?_, ?_⟩, hent.wellFormed⟩
    · rw [hcall]
      exact hent.stored
    · exact fun hocc => absurd hocc hfree

/-- What one call does: it is safe exactly when it avoids blocks, and then
it keeps the tree. -/
theorem call_spec (h : WellFormed v) (hflags : c.KeepsType) :
    (SafeCall v c ↔ AvoidsBlocks v c) ∧ (AvoidsBlocks v c → WellFormed (c.exec v).2) := by
  cases c with
  | page m =>
    by_cases hcov : Covered v m.virtualAddress
    · have hspec := vmapMapPage_covered m.physicalAddress m.pageFlags h hcov
      rcases hcall : (Call.page m).exec v with ⟨_ | _, v'⟩
      · obtain ⟨hshort, hgrew⟩ := hspec.gaveUp hcall
        have havoids : AvoidsBlocks v (.page m) := by
          intro m' heq _
          injection heq with heq
          exact heq ▸ hshort
        refine ⟨iff_of_true ⟨?_, ?_⟩ havoids, fun _ => hgrew.wellFormed⟩
        · rw [hcall]
          exact hgrew.stored
        · rw [hcall]
          exact fun _ => ⟨rfl, hgrew.translate⟩
      · have hlong := hspec.returned hcall
        have hnot : ¬ AvoidsBlocks v (.page m) := fun havoids => hlong (havoids m rfl hcov)
        refine ⟨iff_of_false ?_ hnot, fun havoids => absurd havoids hnot⟩
        intro hsafe
        have hnone := (hsafe.refuses hcov).1
        rw [hcall] at hnone
        cases hnone
    · have hspec := vmapMapPage_spec m.physicalAddress m.pageFlags h hcov
      obtain ⟨hsafe, hwf⟩ := safeCall_of_tried (c := .page m)
        (hspec.mono (fun _ hgrew => hgrew) fun _ _ hent => ⟨hent, hcov⟩)
      refine ⟨iff_of_true hsafe ?_, fun _ => hwf⟩
      intro m' heq hcov'
      injection heq with heq
      exact absurd (heq ▸ hcov') hcov
  | l1Block m =>
    have hspec := vmapMapL1Block_spec m.virtualAddress m.physicalAddress h hflags
    obtain ⟨hsafe, hwf⟩ := safeCall_of_tried (c := .l1Block m)
      (hspec.mono (fun _ hgrew => hgrew) fun _ _ ⟨hent, hfault⟩ => ⟨hent, fun hocc => hocc hfault⟩)
    exact ⟨iff_of_true hsafe (by simp [AvoidsBlocks]), fun _ => hwf⟩
  | l2Block m =>
    have hspec := vmapMapL2Block_spec m.virtualAddress m.physicalAddress h hflags
    obtain ⟨hsafe, hwf⟩ := safeCall_of_tried (c := .l2Block m)
      (hspec.mono (fun _ hgrew => hgrew) fun _ _ ⟨hent, hfault⟩ => ⟨hent, fun hocc => hocc hfault⟩)
    exact ⟨iff_of_true hsafe (by simp [AvoidsBlocks]), fun _ => hwf⟩

end

/-- In every sequence of mapping calls from an empty root, all calls are safe
exactly when no page is mapped below a block. -/
theorem calls_safe_iff (history : List (Vmap × Call)) (v : Vmap)
    (h : Run EmptyRoot Calls history v) :
    (∀ p ∈ history, SafeCall p.1 p.2) ↔ ∀ p ∈ history, AvoidsBlocks p.1 p.2 := by
  have hstep : ∀ v c v', WellFormed v → AvoidsBlocks v c → Calls v c v' → WellFormed v' := by
    intro v c v' hwf havoids ⟨hflags, heq⟩
    exact heq ▸ (call_spec hwf hflags).2 havoids
  exact h.all_iff (fun _ hinit => hinit.wellFormed) hstep
    fun _ _ _ hwf hcalls => (call_spec hwf hcalls.1).1

/-- The tables after a 2 MiB block at 0 that maps physical memory from
0x200000. -/
def oneBlock : Vmap := (vmapMapL2Block 0 0x200000 0 fourPages).2

theorem oneBlock_run :
    Run EmptyRoot Calls [(fourPages, .l2Block ⟨0x200000, 0, 0⟩)] oneBlock :=
  .next (.start fourPages_empty) ⟨show (0 : Word) &&& tblEntryTable = 0 by decide, rfl⟩

theorem oneBlock_walk : oneBlock.walk (path 0x200000) = .fault := by decide +kernel

/-- A block, and a page next to it. -/
theorem pageNextToBlock_safe : ∃ history v, Run EmptyRoot Calls history v ∧
    (∀ p ∈ history, SafeCall p.1 p.2) ∧ v.vmapVirtualToPhysical 0x1000 = some 0x201000 ∧
    v.vmapVirtualToPhysical 0x200000 = some 0x5000 := by
  have hcall : Calls oneBlock (.page ⟨0x5000, 0x200000, 0⟩)
      (vmapMapPage 0x5000 0x200000 0 oneBlock).2 := ⟨trivial, rfl⟩
  have hrun := oneBlock_run.next hcall
  refine ⟨_, _, hrun, (calls_safe_iff _ _ hrun).mpr ?_, by decide +kernel, by decide +kernel⟩
  intro p hp
  rcases List.mem_cons.mp hp with rfl | hp
  · intro m heq ⟨d, e, hwalk, _⟩
    injection heq with heq
    rw [← heq, oneBlock_walk] at hwalk
    cases hwalk
  · rw [List.mem_singleton] at hp
    rw [hp]
    intro m heq
    cases heq

/-- A page mapped at 0 is written into the memory that the block maps. -/
theorem pageInBlock_stores :
    ((Call.page ⟨0x5000, 0, 0⟩).exec oneBlock).2.stored = 0x200000 :: oneBlock.stored ∧
    ((Call.page ⟨0x5000, 0, 0⟩).exec oneBlock).2.obtained = [0x3000, 0x2000, 0x1000] := by
  decide +kernel

theorem pageInBlock_unsafe : ¬ ∀ history v, Run EmptyRoot Calls history v →
    ∀ c : Call, c.KeepsType → SafeCall v c := by
  intro hall
  obtain ⟨more, hmore, hin⟩ := (hall _ _ oneBlock_run (.page ⟨0x5000, 0, 0⟩) trivial).stores
  obtain ⟨hstored, hobtained⟩ := pageInBlock_stores
  rw [hstored] at hmore
  rw [hobtained] at hin
  have hone : [0x200000] = more := List.append_cancel_right hmore
  obtain ⟨page, hpage, haddr⟩ := hin 0x200000 (by rw [← hone]; exact List.mem_singleton_self _)
  simp only [List.mem_cons, List.not_mem_nil, or_false] at hpage
  rcases hpage with rfl | rfl | rfl <;> simp [InPage] at haddr

end ZOs.Paging
