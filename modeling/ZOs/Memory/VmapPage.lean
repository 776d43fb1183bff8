import ZOs.Lib.Run
import ZOs.Memory.VmapInv

/-!
# Mapping a page

`vmap_map_page` follows every valid entry as if it led to a table, so it is
right as long as no block entry covers the address; tables that only
`vmap_map_page` has built hold no block entry at all.
-/

namespace ZOs.Paging

open TableTree Attempt Runs

/-! ## One call -/

/-- A 1 GiB or 2 MiB block entry translates the address. -/
def Covered (v : Vmap) (virtualAddress : Word) : Prop :=
  ∃ depth entry, v.walk (path virtualAddress) = .leaf depth entry ∧ depth < 3

/-- What `vmap_map_page` writes at the last level. -/
def pageEntry (physicalAddress pageFlags : Word) : Word :=
  tblEntryValid ||| tblEntryTable ||| pageFlagAccess ||| pageFlags |||
    (physicalAddress &&& tblEntryAddrMask)

section
variable {v v' : Vmap} {t x entry physicalAddress virtualAddress pageFlags : Word}
  {p rest : List Index} {i : Index}

theorem Grew.covered_iff (h : Grew v v') : Covered v' x ↔ Covered v x := by
  unfold Covered
  rw [h.address]

/-- Where no block covers the address, a valid entry on its way leads to a
table. -/
theorem reached_next (hnot : ¬ Covered v x) (ht : v.Reached t p) (hpath : path x = p ++ i :: rest)
    (hp : p.length < 3) (he : entry = v.slot t i) (hvalid : entry &&& tblEntryValid ≠ 0) :
    v.Reached (entry &&& tblEntryAddrMask) (p ++ [i]) := by
  apply ht.child
  rw [← he]
  by_cases hroot : p.length = 0
  · rw [hroot]
    exact entryKind_root hvalid
  · by_cases htable : entry &&& tblEntryTable = 0
    · have hleaf := entryKind_block hvalid htable hroot
      have hwalk : v.walk (path x) = .leaf p.length entry := by
        rw [hpath, ht.walk_append, he, walk_cons_leaf (by rw [← he, hleaf])]
      exact absurd ⟨p.length, entry, hwalk, hp⟩ hnot
    · exact entryKind_table hvalid htable hp

/-- One level of the way down to a page. -/
theorem wayDown_spec {idx : Word} (h : WellFormed v) (hnot : ¬ Covered v x) (ht : v.Reached t p)
    (hpath : path x = p ++ i :: rest) (hp : p.length < 3) (hidx : idx.toNat = i.val) :
    Tried (entryOrNewTable t idx) v (Grew v) fun entry v' =>
      Grew v v' ∧ v'.Reached (entry &&& tblEntryAddrMask) (p ++ [i]) := by
  apply (entryOrNewTable_spec h ht hp hidx).mono (fun _ hgrew => hgrew)
  intro entry v' ⟨hgrew, he, hvalid⟩
  exact ⟨hgrew, reached_next (hgrew.covered_iff.not.mpr hnot) (hgrew.reached ht) hpath hp he hvalid⟩

theorem pageEntry_valid : pageEntry physicalAddress pageFlags &&& tblEntryValid ≠ 0 :=
  Bits.or_and_ne_zero (Bits.or_and_ne_zero (Bits.or_and_ne_zero (Bits.or_and_ne_zero (by decide))))

/-- On an address that no block covers, either tables are added and the call
fails, or the page is entered. -/
theorem vmapMapPage_spec (physicalAddress pageFlags : Word) (h : WellFormed v)
    (hnot : ¬ Covered v virtualAddress) :
    Tried (vmapMapPage physicalAddress virtualAddress pageFlags) v (Grew v) fun _ v' =>
      Entered v v' (path virtualAddress) (pageEntry physicalAddress pageFlags) := by
  unfold vmapMapPage
  rw [tried_bind]
  apply (rootTable_spec h).mono (fun _ hgrew => hgrew)
  intro root v₀ ⟨h₀, hroot⟩
  rw [tried_bind]
  apply (wayDown_spec h₀.wellFormed (h₀.covered_iff.not.mpr hnot) hroot rfl (by simp)
    (l0Index_toNat virtualAddress)).mono
  · exact fun _ hgrew => h₀.trans hgrew
  intro l0Entry v₁ ⟨hgrew₁, hl0⟩
  have h₁ := h₀.trans hgrew₁
  rw [tried_bind]
  apply (wayDown_spec h₁.wellFormed (h₁.covered_iff.not.mpr hnot) hl0 rfl (by simp)
    (l1Index_toNat virtualAddress)).mono
  · exact fun _ hgrew => h₁.trans hgrew
  intro l1Entry v₂ ⟨hgrew₂, hl1⟩
  have h₂ := h₁.trans hgrew₂
  rw [tried_bind]
  apply (wayDown_spec h₂.wellFormed (h₂.covered_iff.not.mpr hnot) hl1 rfl (by simp)
    (l2Index_toNat virtualAddress)).mono
  · exact fun _ hgrew => h₂.trans hgrew
  intro l2Entry v₃ ⟨hgrew₃, hl2⟩
  have h₃ := h₂.trans hgrew₃
  unfold storeEntry
  rw [tried_modify]
  apply h₃.entered
  exact store_leaf (i := index (virtualAddress >>> 12)) h₃.wellFormed hl2
    (l3Index_toNat virtualAddress) (fun u => entryKind_page_ne_table _ u)
    (entryKind_page pageEntry_valid)

end

/-! ## Arithmetic of addresses -/

/-- Page-aligned, and below 2^48. -/
def PageBase (address : Word) : Prop := address.toNat % 4096 = 0 ∧ address.toNat < 2 ^ 48

/-- Flags touch neither bits 0-1 nor bits 12-47. -/
def AttributeFlags (pageFlags : Word) : Prop := pageFlags &&& 0x0000FFFFFFFFF003 = 0

section
variable {v v' : Vmap} {x off physicalAddress virtualAddress pageFlags : Word}

theorem AttributeFlags.addr (h : AttributeFlags pageFlags) :
    pageFlags &&& tblEntryAddrMask = 0 := by
  have hmask : tblEntryAddrMask = 0x0000FFFFFFFFF003 &&& tblEntryAddrMask := by decide
  rw [hmask, ← BitVec.and_assoc, h]
  exact BitVec.zero_and

theorem PageBase.masked (h : PageBase physicalAddress) :
    physicalAddress &&& tblEntryAddrMask = physicalAddress := by
  rw [addrMask_eq]
  exact Bits.and_field_eq_self h.1 h.2

theorem toNat_add_off (hva : PageBase virtualAddress) (hoff : off.toNat < 4096) :
    (virtualAddress + off).toNat = virtualAddress.toNat + off.toNat := by
  rw [BitVec.toNat_add, Nat.mod_eq_of_lt]
  have hlt := hva.2
  omega

/-- The addresses of a page have one number. -/
theorem pageNumber_add (hva : PageBase virtualAddress) (hoff : off.toNat < 4096) :
    pageNumber (virtualAddress + off) = pageNumber virtualAddress := by
  obtain ⟨hal, hlt⟩ := hva
  unfold pageNumber
  rw [toNat_add_off ⟨hal, hlt⟩ hoff]
  omega

theorem and_offset (hva : PageBase virtualAddress) (hoff : off.toNat < 4096) :
    (virtualAddress + off) &&& (mmapGranuleSize - 1) = off := by
  have hlow : mmapGranuleSize - 1 = Bits.low 64 12 := by decide
  have hal := hva.1
  apply BitVec.eq_of_toNat_eq
  rw [hlow, Bits.toNat_and_low (by decide), toNat_add_off hva hoff]
  omega

theorem path_prefix_iff :
    path virtualAddress <+: path x ↔ pageNumber x = pageNumber virtualAddress := by
  rw [← path_eq_iff]
  constructor
  · intro h
    exact (h.eq_of_length rfl).symm
  · intro h
    rw [h]

/-- An address reads its place in the page from itself, and the rest from
the entry, where flags and physical address come together. -/
def pageTarget (physicalAddress pageFlags x : Word) : Word :=
  ((pageFlags ||| physicalAddress) &&& tblEntryAddrMask) ||| (x &&& (mmapGranuleSize - 1))

theorem pageEntry_mask (physicalAddress pageFlags : Word) :
    pageEntry physicalAddress pageFlags &&& tblEntryAddrMask =
      (pageFlags ||| physicalAddress) &&& tblEntryAddrMask := by
  unfold pageEntry
  rw [BitVec.and_or_distrib_right, BitVec.and_assoc, BitVec.and_self,
    Bits.and_eq_right_of_clear (by decide), BitVec.and_or_distrib_right]

theorem Entered.target
    (h : Entered v v' (path virtualAddress) (pageEntry physicalAddress pageFlags))
    (hx : pageNumber x = pageNumber virtualAddress) :
    v'.vmapVirtualToPhysical x = some (pageTarget physicalAddress pageFlags x) := by
  rw [vmapVirtualToPhysical_eq, h.here (path_prefix_iff.mpr hx)]
  show some ((pageEntry physicalAddress pageFlags &&& tblEntryAddrMask) ||| _) = _
  rw [pageEntry_mask]
  rfl

/-- Flags that stay out of the address leave it as it is. -/
theorem AttributeFlags.target (h : AttributeFlags pageFlags) (physicalAddress x : Word) :
    pageTarget physicalAddress pageFlags x =
      (physicalAddress &&& tblEntryAddrMask) ||| (x &&& (mmapGranuleSize - 1)) := by
  unfold pageTarget
  rw [Bits.and_eq_right_of_clear h.addr]

theorem Entered.elsewhere
    (h : Entered v v' (path virtualAddress) (pageEntry physicalAddress pageFlags))
    (hx : pageNumber x ≠ pageNumber virtualAddress) :
    v'.vmapVirtualToPhysical x = v.vmapVirtualToPhysical x := by
  rw [vmapVirtualToPhysical_eq, vmapVirtualToPhysical_eq, h.there]
  exact fun hpre => hx (path_prefix_iff.mp hpre)

/-- No block covers what is entered for a page. -/
theorem Entered.covered
    (h : Entered v v' (path virtualAddress) (pageEntry physicalAddress pageFlags))
    (hcov : Covered v' x) : Covered v x := by
  obtain ⟨d, e, hwalk, hd⟩ := hcov
  by_cases hpre : path virtualAddress <+: path x
  · rw [h.here hpre] at hwalk
    injection hwalk with hdepth _
    rw [← hdepth] at hd
    exact absurd hd (Nat.lt_irrefl 3)
  · rw [h.there hpre] at hwalk
    exact ⟨d, e, hwalk, hd⟩

/-- An entered page is translated as asked for, the other pages as before. -/
theorem Entered.page
    (h : Entered v v' (path virtualAddress) (pageEntry physicalAddress pageFlags))
    (hva : PageBase virtualAddress) (hpa : PageBase physicalAddress)
    (hflags : AttributeFlags pageFlags) :
    (∀ off : Word, off.toNat < 4096 →
      v'.vmapVirtualToPhysical (virtualAddress + off) = some (physicalAddress + off)) ∧
    ∀ x, pageNumber x ≠ pageNumber virtualAddress →
      v'.vmapVirtualToPhysical x = v.vmapVirtualToPhysical x := by
  constructor
  · intro off hoff
    have hsmall : off &&& Bits.low 64 12 = off := by
      apply BitVec.eq_of_toNat_eq
      rw [Bits.toNat_and_low (by decide)]
      exact Nat.mod_eq_of_lt hoff
    rw [h.target (pageNumber_add hva hoff), hflags.target, hpa.masked, and_offset hva hoff,
      Bits.or_eq_add hpa.1 hsmall]
  · exact fun x hx => h.elsewhere hx

end

/-! ## Runs of `vmap_map_page` -/

/-- No table yet, and `alloc_page` will give fresh pages. -/
structure EmptyRoot (v : Vmap) : Prop where
  root : v.rootPageTable = 0
  obtained : v.obtained = []
  answers : FreshAnswers v

/-- The arguments of a mapping call. -/
structure Mapping where
  physicalAddress : Word
  virtualAddress : Word
  pageFlags : Word

/-- One call of `vmap_map_page`, whatever it returns. -/
def MapsPage (v : Vmap) (m : Mapping) (v' : Vmap) : Prop :=
  (vmapMapPage m.physicalAddress m.virtualAddress m.pageFlags v).2 = v'

/-- There are no block entries. -/
def PagesOnly (v : Vmap) : Prop := ∀ x, ¬ Covered v x

theorem EmptyRoot.walk {v : Vmap} (h : EmptyRoot v) (is : List Index) : v.walk is = .fault :=
  if_pos h.root

theorem EmptyRoot.wellFormed {v : Vmap} (h : EmptyRoot v) : WellFormed v where
  distinct hq _ := absurd h.root hq.root_ne
  reached hq := absurd h.root hq.root_ne
  page ht := by
    rw [h.obtained] at ht
    cases ht
  answers := h.answers

theorem EmptyRoot.pagesOnly {v : Vmap} (h : EmptyRoot v) : PagesOnly v := by
  intro x ⟨d, e, hwalk, _⟩
  rw [h.walk] at hwalk
  cases hwalk

theorem Entered.pagesOnly {v v' : Vmap} {physicalAddress virtualAddress pageFlags : Word}
    (hpages : PagesOnly v)
    (h : Entered v v' (path virtualAddress) (pageEntry physicalAddress pageFlags)) :
    PagesOnly v' := fun x hcov => hpages x (h.covered hcov)

/-- `vmap_map_page` keeps the tree and enters no block. -/
theorem MapsPage.inv {v v' : Vmap} {m : Mapping} (hwf : WellFormed v) (hpages : PagesOnly v)
    (h : MapsPage v m v') : WellFormed v' ∧ PagesOnly v' := by
  have hspec := vmapMapPage_spec m.physicalAddress m.pageFlags hwf (hpages m.virtualAddress)
  rcases hcall : vmapMapPage m.physicalAddress m.virtualAddress m.pageFlags v with ⟨r, v₁⟩
  have heq : v₁ = v' := by
    unfold MapsPage at h
    rw [hcall] at h
    exact h
  subst heq
  cases r with
  | none =>
    have hgrew := hspec.gaveUp hcall
    exact ⟨hgrew.wellFormed, fun x => hgrew.covered_iff.not.mpr (hpages x)⟩
  | some u =>
    have hent := hspec.returned hcall
    exact ⟨hent.wellFormed, hent.pagesOnly hpages⟩

theorem run_pagesOnly {history : List (Vmap × Mapping)} {v : Vmap}
    (h : Run EmptyRoot MapsPage history v) : WellFormed v ∧ PagesOnly v :=
  h.invariant
    (fun _ hinit => ⟨hinit.wellFormed, hinit.pagesOnly⟩)
    (fun _ _ _ hinv hstep => hstep.inv hinv.1 hinv.2)

/-- On tables built by `vmap_map_page`, a call that returns 0 maps its page
and only its page, and a call that returns -1 changes no translation. -/
theorem vmapMapPage_correct (history : List (Vmap × Mapping)) (v v' : Vmap)
    (hrun : Run EmptyRoot MapsPage history v)
    (physicalAddress virtualAddress pageFlags : Word) (hva : PageBase virtualAddress)
    (hpa : PageBase physicalAddress) (hflags : AttributeFlags pageFlags) (r : Option Unit)
    (hcall : vmapMapPage physicalAddress virtualAddress pageFlags v = (r, v')) :
    match r with
    | some () =>
      (∀ off : Word, off.toNat < 4096 →
        v'.vmapVirtualToPhysical (virtualAddress + off) = some (physicalAddress + off)) ∧
      ∀ x, pageNumber x ≠ pageNumber virtualAddress →
        v'.vmapVirtualToPhysical x = v.vmapVirtualToPhysical x
    | none => ∀ x, v'.vmapVirtualToPhysical x = v.vmapVirtualToPhysical x := by
  obtain ⟨hwf, hpages⟩ := run_pagesOnly hrun
  have hspec := vmapMapPage_spec physicalAddress pageFlags hwf (hpages virtualAddress)
  cases r with
  | some u => exact (hspec.returned hcall).page hva hpa hflags
  | none => exact (hspec.gaveUp hcall).translate

/-- No tables, and four pages to be had. -/
def fourPages : Vmap where
  rootPageTable := 0
  memory _ := 0
  answers := [0x1000, 0x2000, 0x3000, 0x4000]
  obtained := []
  stored := []

theorem fourPages_answers : FreshAnswers fourPages where
  page p hp _ := by
    have hmem : p = 0x1000 ∨ p = 0x2000 ∨ p = 0x3000 ∨ p = 0x4000 := by
      simpa [fourPages] using hp
    refine ⟨?_, by simp [fourPages]⟩
    rcases hmem with rfl | rfl | rfl | rfl <;> exact ⟨by decide, by decide, by decide⟩
  once := by decide

theorem fourPages_empty : EmptyRoot fourPages := ⟨rfl, rfl, fourPages_answers⟩

theorem fourPages_mapped : ∃ v', vmapMapPage 0x5000 0x7000 0x40 fourPages = (some (), v') ∧
    v'.vmapVirtualToPhysical 0x7123 = some 0x5123 := by
  rcases hcall : vmapMapPage 0x5000 0x7000 0x40 fourPages with ⟨r, v'⟩
  have hreturned : (vmapMapPage 0x5000 0x7000 0x40 fourPages).1 = some () := by decide
  rw [hcall] at hreturned
  have hreturned : r = some () := hreturned
  subst hreturned
  have hcorrect := vmapMapPage_correct [] fourPages v' (.start fourPages_empty) 0x5000 0x7000 0x40
    ⟨by decide, by decide⟩ ⟨by decide, by decide⟩ (by unfold AttributeFlags; decide) (some ()) hcall
  exact ⟨v', rfl, hcorrect.1 0x123 (by decide)⟩

end ZOs.Paging
