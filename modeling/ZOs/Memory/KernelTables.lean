import ZOs.Memory.VmapBlock
import ZOs.Memory.VmapRange
import ZOs.Memory.VmapSupply

/-!
# The tables of the kernel

`kernel/mmap.c` keeps two root tables, one for each half of the address
space. Its mapping functions put the root of the right half into a temporary
`vmap_t`, map, and publish a root that was created on the way. One of them,
`mmap_map_page`, returns before it gets to that.
-/

namespace ZOs.Paging

open TableTree Attempt

/-- `g_ttbr0_table`, `g_ttbr1_table`, and what the temporary `vmap_t` reaches
through its function pointers. -/
structure Kernel where
  ttbr0Table : Word
  ttbr1Table : Word
  memory : Nat → Word
  answers : List Word
  obtained : List Word
  stored : List Nat

/-- Whether `get_ttbr_table_ptr` selects `g_ttbr1_table`. -/
def isUpper (virtualAddress : Word) : Bool := 0xFFFF000000000000 ≤ virtualAddress

/-- `*get_ttbr_table_ptr(virtual_address)`. -/
def Kernel.getTtbrTable (s : Kernel) (virtualAddress : Word) : Word :=
  if isUpper virtualAddress then s.ttbr1Table else s.ttbr0Table

/-- `*get_ttbr_table_ptr(virtual_address) = table`. -/
def Kernel.setTtbrTable (s : Kernel) (virtualAddress table : Word) : Kernel :=
  if isUpper virtualAddress then { s with ttbr1Table := table }
  else { s with ttbr0Table := table }

/-- `build_vmap_table`. -/
def Kernel.buildVmapTable (s : Kernel) (virtualAddress : Word) : Vmap where
  rootPageTable := s.getTtbrTable virtualAddress
  memory := s.memory
  answers := s.answers
  obtained := s.obtained
  stored := s.stored

/-- What remains when the temporary `vmap_t` is gone. -/
def Kernel.keep (s : Kernel) (v : Vmap) : Kernel :=
  { s with memory := v.memory, answers := v.answers, obtained := v.obtained, stored := v.stored }

/-- The root is published if there was none. -/
def Kernel.publish (s : Kernel) (virtualAddress rootPageTable : Word) : Kernel :=
  if s.getTtbrTable virtualAddress = 0 then s.setTtbrTable virtualAddress rootPageTable else s

/-- `mmap_map_range`. -/
def mmapMapRange (fuel : Nat) (virtualStartAddress virtualEndAddress physicalStartAddress
    pageFlags : Word) (s : Kernel) : Option (Option Unit × Kernel) :=
  match vmapMapRange fuel virtualStartAddress virtualEndAddress physicalStartAddress pageFlags
      (s.buildVmapTable virtualStartAddress) with
  | none => none
  | some (none, v) => some (none, s.keep v)
  | some (some (), v) =>
    some (some (), (s.keep v).publish virtualStartAddress v.rootPageTable)

/-- `mmap_map_page`; the statements after its first `return 0` publish the
root, and are never reached. -/
def mmapMapPage (physicalAddress virtualAddress pageFlags : Word) (s : Kernel) :
    Option Unit × Kernel :=
  match vmapMapPage physicalAddress virtualAddress pageFlags (s.buildVmapTable virtualAddress) with
  | (none, v) => (none, s.keep v)
  | (some (), v) => (some (), s.keep v)

/-- `mmap_virtual_to_physical`. -/
def Kernel.mmapVirtualToPhysical (s : Kernel) (virtualAddress : Word) : Option Word :=
  (s.buildVmapTable virtualAddress).vmapVirtualToPhysical virtualAddress

/-! ## What the wrappers do -/

section
variable {s s' : Kernel} {v v' : Vmap} {x w t physicalAddress virtualAddress pageFlags : Word}
  {n : Nat} {r : Option Unit}

theorem mmapMapPage_eq (h : vmapMapPage physicalAddress virtualAddress pageFlags
    (s.buildVmapTable virtualAddress) = (r, v)) :
    mmapMapPage physicalAddress virtualAddress pageFlags s = (r, s.keep v) := by
  unfold mmapMapPage
  rw [h]
  cases r <;> rfl

/-- The last page of the address space is the one after which the address
wraps. -/
theorem add_granule_lt (hva : virtualAddress.toNat % 4096 = 0)
    (hlast : virtualAddress + mmapGranuleSize ≠ 0) :
    virtualAddress < virtualAddress + mmapGranuleSize := by
  have hsize : mmapGranuleSize.toNat = 4096 := rfl
  have hlt := virtualAddress.isLt
  have hne : (virtualAddress + mmapGranuleSize).toNat ≠ 0 := by
    intro hzero
    exact hlast (BitVec.eq_of_toNat_eq hzero)
  rw [BitVec.toNat_add, hsize] at hne
  rw [BitVec.lt_def, BitVec.toNat_add, hsize]
  omega

/-- A range of one page is one call of `vmap_map_page`. -/
theorem vmapMapRange_onePage (hva : virtualAddress.toNat % 4096 = 0)
    (hlast : virtualAddress + mmapGranuleSize ≠ 0) :
    vmapMapRange (n + 2) virtualAddress (virtualAddress + mmapGranuleSize) physicalAddress
      pageFlags v = some (vmapMapPage physicalAddress virtualAddress pageFlags v) := by
  have hlt := add_granule_lt hva hlast
  rcases hcall : vmapMapPage physicalAddress virtualAddress pageFlags v with ⟨_ | _, v'⟩
  · exact vmapMapRange_failed hlt hcall
  · rw [vmapMapRange_next hlt hcall]
    apply vmapMapRange_end
    rw [BitVec.lt_def]
    exact Nat.lt_irrefl _

/-- A range that ends at 0 has no page. -/
theorem vmapMapRange_noPage (hlast : virtualAddress + mmapGranuleSize = 0) :
    vmapMapRange (n + 1) virtualAddress (virtualAddress + mmapGranuleSize) physicalAddress
      pageFlags v = some (some (), v) := by
  apply vmapMapRange_end
  rw [hlast, BitVec.lt_def]
  exact Nat.not_lt_zero _

theorem publish_of_root (hroot : s.getTtbrTable virtualAddress ≠ 0) (root : Word) :
    s.publish virtualAddress root = s := if_neg hroot

/-- Publishing what is there changes nothing. -/
theorem publish_self : s.publish virtualAddress (s.getTtbrTable virtualAddress) = s := by
  unfold Kernel.publish
  split
  · unfold Kernel.setTtbrTable Kernel.getTtbrTable
    split
    · rfl
    · rfl
  · rfl

theorem buildVmapTable_keep (hroot : v.rootPageTable = s.getTtbrTable virtualAddress) :
    (s.keep v).buildVmapTable virtualAddress = v := by
  have hsame : (s.keep v).getTtbrTable virtualAddress = s.getTtbrTable virtualAddress := rfl
  unfold Kernel.buildVmapTable
  rw [hsame, ← hroot]
  rfl

theorem noRoot_translate (hroot : s.getTtbrTable virtualAddress = 0) :
    s.mmapVirtualToPhysical virtualAddress = none := if_pos hroot

end

/-! ## Mapping in one tree beside the other -/

/-- Both halves have well-formed tables, and no table is in both. -/
structure Kernel.WellFormed (s : Kernel) : Prop where
  tree : ∀ x, Paging.WellFormed (s.buildVmapTable x)
  apart : ∀ {x y t p q}, isUpper x ≠ isUpper y → (s.buildVmapTable x).Reached t p →
    ¬ (s.buildVmapTable y).Reached t q

section
variable {s : Kernel} {v v' : Vmap} {x y t e physicalAddress virtualAddress pageFlags : Word}
  {p rest : List Index} {i : Index}

theorem buildVmapTable_congr (h : isUpper x = isUpper y) :
    s.buildVmapTable x = s.buildVmapTable y := by
  unfold Kernel.buildVmapTable Kernel.getTtbrTable
  rw [h]

/-- A root that is there stays. -/
def RootKept (v v' : Vmap) : Prop := v.rootPageTable ≠ 0 → v'.rootPageTable = v.rootPageTable

theorem RootKept.refl (v : Vmap) : RootKept v v := fun _ => rfl

theorem RootKept.trans {v v' v'' : Vmap} (h : RootKept v v') (h' : RootKept v' v'') :
    RootKept v v'' := by
  intro hroot
  have hsame := h hroot
  rw [h' (by rwa [hsame]), hsame]

theorem RootKept.bind {α β : Type} {a : Attempt Vmap α} {f : α → Attempt Vmap β}
    (ha : Moves RootKept a) (hf : ∀ b, Moves RootKept (f b)) : Moves RootKept (a >>= f) :=
  moves_bind (R := RootKept) RootKept.trans ha hf

theorem rootKept_allocPage : Moves RootKept allocPage := by
  intro v _
  unfold allocPage
  split
  · rfl
  · split
    · rfl
    · rfl

theorem rootKept_rootTable : Moves RootKept rootTable := by
  intro v hroot
  exact Tried.state (F := fun v' => v'.rootPageTable = v.rootPageTable)
    ((tried_rootTable hroot).mpr rfl)

theorem rootKept_entryOrNewTable (table index : Word) :
    Moves RootKept (entryOrNewTable table index) := by
  unfold entryOrNewTable
  apply RootKept.bind (moves_read RootKept.refl _)
  intro entry
  apply moves_ite _ (moves_pure RootKept.refl _)
  apply RootKept.bind rootKept_allocPage
  intro page
  apply moves_ite (moves_giveUp RootKept.refl)
  exact RootKept.bind (fun _ _ => rfl) fun _ => moves_read RootKept.refl _

theorem rootKept_vmapMapPage (physicalAddress virtualAddress pageFlags : Word) :
    Moves RootKept (vmapMapPage physicalAddress virtualAddress pageFlags) := by
  unfold vmapMapPage
  apply RootKept.bind rootKept_rootTable
  intro root
  apply RootKept.bind (rootKept_entryOrNewTable _ _)
  intro l0Entry
  apply RootKept.bind (rootKept_entryOrNewTable _ _)
  intro l1Entry
  apply RootKept.bind (rootKept_entryOrNewTable _ _)
  exact fun _ _ _ => rfl

/-- On the way of an address that is translated, every entry is valid. -/
theorem valid_of_walk (ht : v.Reached t p) (hpath : path x = p ++ i :: rest)
    (hwalk : v.walk (path x) ≠ .fault) : v.slot t i &&& tblEntryValid ≠ 0 := by
  intro hinvalid
  apply hwalk
  rw [hpath, ht.walk_append, walk_cons_fault (entryKind_invalid hinvalid _)]

/-- A page that is mapped already is mapped again by one store. -/
theorem vmapMapPage_again (physicalAddress pageFlags : Word)
    (hwalk : v.walk (path x) = .leaf 3 e) :
    ∃ t, v.Reached t ((path x).take 3) ∧ vmapMapPage physicalAddress x pageFlags v =
      (some (), v.store t (l3Index x) (pageEntry physicalAddress pageFlags)) := by
  have hne : v.walk (path x) ≠ .fault := by
    rw [hwalk]
    exact fun hfault => nomatch hfault
  have hnot : ¬ Covered v x := by
    intro ⟨d, e', hleaf, hd⟩
    rw [hwalk] at hleaf
    injection hleaf with hdepth _
    rw [← hdepth] at hd
    exact absurd hd (Nat.lt_irrefl 3)
  have hroot : v.rootPageTable ≠ 0 := by
    intro hroot
    exact hne (if_pos hroot)
  have ht : v.Reached v.rootPageTable [] := by
    unfold Vmap.Reached
    rw [v.walk_of_root hroot, walk_nil]
  have h0 : v.entry _ (l0Index x) &&& tblEntryValid ≠ 0 := valid_of_walk ht rfl hne
  have hl0 := reached_next hnot ht rfl (by simp) rfl h0
  have h1 : v.entry _ (l1Index x) &&& tblEntryValid ≠ 0 := valid_of_walk hl0 rfl hne
  have hl1 := reached_next hnot hl0 rfl (by simp) rfl h1
  have h2 : v.entry _ (l2Index x) &&& tblEntryValid ≠ 0 := valid_of_walk hl1 rfl hne
  have hl2 := reached_next hnot hl1 rfl (by simp) rfl h2
  refine ⟨_, hl2, ?_⟩
  have hspec : Tried (vmapMapPage physicalAddress x pageFlags) v (fun _ => False) fun _ v' =>
      v' = v.store (v.slot (v.slot (v.slot v.rootPageTable (index (x >>> 39)) &&&
        tblEntryAddrMask) (index (x >>> 30)) &&& tblEntryAddrMask) (index (x >>> 21)) &&&
        tblEntryAddrMask) (l3Index x) (pageEntry physicalAddress pageFlags) := by
    unfold vmapMapPage
    rw [tried_bind, tried_rootTable hroot, tried_bind, tried_entry_valid h0, v.entry_l0,
      tried_bind, tried_entry_valid h1, v.entry_l1, tried_bind, tried_entry_valid h2, v.entry_l2]
    exact rfl
  rcases hcall : vmapMapPage physicalAddress x pageFlags v with ⟨_ | _, v'⟩
  · exact (hspec.gaveUp hcall).elim
  · rw [hspec.returned hcall]

/-- A store to a table of one half is not seen in the other. -/
theorem Kernel.WellFormed.other (h : s.WellFormed) (hxy : isUpper x ≠ isUpper y)
    (ht : (s.buildVmapTable x).Reached t p) {idx : Word} (hidx : idx.toNat = i.val)
    (is : List Index) :
    ((s.keep ((s.buildVmapTable x).store t idx e)).buildVmapTable y).walk is =
      (s.buildVmapTable y).walk is := by
  by_cases hroot : (s.buildVmapTable y).rootPageTable = 0
  · unfold Vmap.walk
    rw [if_pos hroot]
    exact if_pos hroot
  · have hsame : (s.keep ((s.buildVmapTable x).store t idx e)).buildVmapTable y =
        (s.buildVmapTable y).store t idx e := rfl
    rw [hsame, (s.buildVmapTable y).walk_of_root hroot, walk_store hroot]
    apply walk_congr
    intro r u j hu _
    have hu := (Vmap.reached_iff hroot).mpr hu
    apply slot_store_other ((h.tree x).pageAddress ht) ((h.tree y).pageAddress hu) hidx
    intro heq
    exact h.apart hxy ht (heq.1 ▸ hu)

end

/-! ## The two wrappers -/

/-- The calls end alike, and where they return 0 the address is mapped. -/
structure Alike (r₁ r₂ : Option Unit) (s₁ s₂ : Kernel) (physicalAddress virtualAddress : Word) :
    Prop where
  result : r₁ = r₂
  translate : ∀ x, s₁.mmapVirtualToPhysical x = s₂.mmapVirtualToPhysical x
  page : r₁ = some () → s₁.mmapVirtualToPhysical virtualAddress = some physicalAddress
  range : r₂ = some () → s₂.mmapVirtualToPhysical virtualAddress = some physicalAddress

/-- `mmap_map_page` and `mmap_map_range` of one page agree. -/
def WrappersAgree (s : Kernel) (physicalAddress virtualAddress pageFlags : Word) : Prop :=
  ∃ fuel r s', mmapMapRange fuel virtualAddress (virtualAddress + mmapGranuleSize)
      physicalAddress pageFlags s = some (r, s') ∧
    Alike (mmapMapPage physicalAddress virtualAddress pageFlags s).1 r
      (mmapMapPage physicalAddress virtualAddress pageFlags s).2 s' physicalAddress virtualAddress

/-- When they do: there are no pages for the tables, so both fail, or the
root exists and the entry can hold the address. The last page of the address
space is a range without pages, so it has to be mapped before. -/
def CanAgree (s : Kernel) (physicalAddress virtualAddress pageFlags : Word) : Prop :=
  if virtualAddress + mmapGranuleSize = 0 then
    s.mmapVirtualToPhysical virtualAddress = some physicalAddress ∧
      EntryFits physicalAddress pageFlags
  else
    RunsOut (s.buildVmapTable virtualAddress) virtualAddress ∨
      s.getTtbrTable virtualAddress ≠ 0 ∧ EntryFits physicalAddress pageFlags

section
variable {s s' : Kernel} {v v' : Vmap} {x e physicalAddress virtualAddress pageFlags : Word}
  {n : Nat} {r : Option Unit}

/-- The outcome of the range call does not depend on how much fuel is left. -/
theorem mmapMapRange_det {m : Nat} {start finish : Word} {o o' : Option Unit × Kernel}
    (h : mmapMapRange n start finish physicalAddress pageFlags s = some o)
    (h' : mmapMapRange m start finish physicalAddress pageFlags s = some o') : o = o' := by
  unfold mmapMapRange at h h'
  cases hrun : vmapMapRange n start finish physicalAddress pageFlags (s.buildVmapTable start) with
  | none =>
    rw [hrun] at h
    cases h
  | some out =>
    cases hrun' : vmapMapRange m start finish physicalAddress pageFlags
        (s.buildVmapTable start) with
    | none =>
      rw [hrun'] at h'
      cases h'
    | some out' =>
      have hout := vmapMapRange_det hrun hrun'
      subst hout
      rw [hrun] at h
      rw [hrun'] at h'
      exact Option.some_inj.mp (h.symm.trans h')

/-- Where the root exists, the two calls do the same. -/
theorem mmapMapRange_root (hva : virtualAddress.toNat % 4096 = 0)
    (hlast : virtualAddress + mmapGranuleSize ≠ 0) (hroot : s.getTtbrTable virtualAddress ≠ 0) :
    mmapMapRange (n + 2) virtualAddress (virtualAddress + mmapGranuleSize) physicalAddress
      pageFlags s = some (mmapMapPage physicalAddress virtualAddress pageFlags s) := by
  unfold mmapMapRange mmapMapPage
  rw [vmapMapRange_onePage hva hlast]
  rcases hcall : vmapMapPage physicalAddress virtualAddress pageFlags
    (s.buildVmapTable virtualAddress) with ⟨_ | _, v'⟩
  · rfl
  · have hkept : (s.keep v').getTtbrTable virtualAddress ≠ 0 := hroot
    show some (some (), (s.keep v').publish virtualAddress v'.rootPageTable) = _
    rw [publish_of_root hkept]

/-- What the page of a page-aligned address reads. -/
theorem pageTarget_self (hva : virtualAddress.toNat % 4096 = 0)
    (hpa : physicalAddress.toNat % 4096 = 0) :
    pageTarget physicalAddress pageFlags virtualAddress = physicalAddress ↔
      EntryFits physicalAddress pageFlags := by
  rw [entryFits_iff, hpa, Nat.add_zero, ← BitVec.toNat_inj, pageTarget_toNat, hva, Nat.add_zero]

/-- After a call of `mmap_map_page` that returned 0. -/
theorem mmapMapPage_target (h : s.WellFormed)
    (hnot : ¬ Covered (s.buildVmapTable virtualAddress) virtualAddress)
    (hroot : s.getTtbrTable virtualAddress ≠ 0)
    (hcall : vmapMapPage physicalAddress virtualAddress pageFlags
      (s.buildVmapTable virtualAddress) = (some (), v')) :
    (s.keep v').mmapVirtualToPhysical virtualAddress =
      some (pageTarget physicalAddress pageFlags virtualAddress) := by
  have hkept := rootKept_vmapMapPage physicalAddress virtualAddress pageFlags
    (s.buildVmapTable virtualAddress) hroot
  rw [hcall] at hkept
  have hentered := (vmapMapPage_spec physicalAddress pageFlags (h.tree virtualAddress)
    hnot).returned hcall
  unfold Kernel.mmapVirtualToPhysical
  rw [buildVmapTable_keep hkept]
  exact hentered.target rfl

/-- An address that is translated by a page, not a block, has a page entry. -/
theorem pageEntry_of_translate (hnot : ¬ Covered v x)
    (h : v.vmapVirtualToPhysical x = some physicalAddress) :
    ∃ e, v.walk (path x) = .leaf 3 e ∧
      (e &&& tblEntryAddrMask) ||| (x &&& (mmapGranuleSize - 1)) = physicalAddress := by
  rw [vmapVirtualToPhysical_eq] at h
  cases hwalk : v.walk (path x) with
  | fault =>
    rw [hwalk] at h
    cases h
  | table t =>
    rw [hwalk] at h
    cases h
  | leaf d e =>
    have hd : d = 3 := by
      have hlt : d < 4 := Vmap.leaf_depth hwalk
      have hge : ¬ d < 3 := fun hd => hnot ⟨d, e, hwalk, hd⟩
      omega
    subst hd
    rw [hwalk] at h
    exact ⟨e, rfl, Option.some_inj.mp h⟩

/-- The last page: the range call does nothing and returns 0, so the page
call has to find the page mapped. -/
theorem agree_lastPage (h : s.WellFormed) (hpa : physicalAddress.toNat % 4096 = 0)
    (hva : virtualAddress.toNat % 4096 = 0) (hlast : virtualAddress + mmapGranuleSize = 0)
    (hnot : ¬ Covered (s.buildVmapTable virtualAddress) virtualAddress) :
    WrappersAgree s physicalAddress virtualAddress pageFlags ↔
      s.mmapVirtualToPhysical virtualAddress = some physicalAddress ∧
        EntryFits physicalAddress pageFlags := by
  have hrange : mmapMapRange 1 virtualAddress (virtualAddress + mmapGranuleSize)
      physicalAddress pageFlags s = some (some (), s) := by
    unfold mmapMapRange
    rw [vmapMapRange_noPage (n := 0) hlast]
    show some (some (), s.publish virtualAddress (s.getTtbrTable virtualAddress)) = _
    rw [publish_self]
  constructor
  · intro ⟨fuel, r, s', hrun, halike⟩
    have hdet := mmapMapRange_det hrange hrun
    injection hdet with hr hs
    subst hr hs
    have hmapped := halike.range rfl
    refine ⟨hmapped, ?_⟩
    have hroot : s.getTtbrTable virtualAddress ≠ 0 := by
      intro hroot
      rw [noRoot_translate hroot] at hmapped
      cases hmapped
    rcases hcall : vmapMapPage physicalAddress virtualAddress pageFlags
      (s.buildVmapTable virtualAddress) with ⟨_ | _, v'⟩
    · have hresult := halike.result
      rw [mmapMapPage_eq hcall] at hresult
      cases hresult
    · have hpage := halike.page
      rw [mmapMapPage_eq hcall, mmapMapPage_target h hnot hroot hcall] at hpage
      exact (pageTarget_self hva hpa).mp (Option.some_inj.mp (hpage rfl))
  · intro ⟨hmapped, hfits⟩
    obtain ⟨e, hwalk, he⟩ := pageEntry_of_translate hnot hmapped
    obtain ⟨t, ht, hcall⟩ := vmapMapPage_again physicalAddress pageFlags hwalk
    have hroot := ht.root_ne
    have htarget := mmapMapPage_target h hnot hroot hcall
    rw [(pageTarget_self hva hpa).mpr hfits] at htarget
    refine ⟨1, some (), s, hrange, ?_⟩
    rw [mmapMapPage_eq hcall]
    refine ⟨rfl, ?_, fun _ => htarget, fun _ => hmapped⟩
    intro x
    by_cases hx : isUpper x = isUpper virtualAddress
    · have hentered := (vmapMapPage_spec physicalAddress pageFlags (h.tree virtualAddress)
        hnot).returned hcall
      have hafter : ((s.keep ((s.buildVmapTable virtualAddress).store t (l3Index virtualAddress)
          (pageEntry physicalAddress pageFlags))).buildVmapTable x) =
          (s.buildVmapTable virtualAddress).store t (l3Index virtualAddress)
            (pageEntry physicalAddress pageFlags) := by
        rw [buildVmapTable_congr hx]
        rfl
      unfold Kernel.mmapVirtualToPhysical
      rw [hafter, buildVmapTable_congr hx]
      by_cases hnumber : pageNumber x = pageNumber virtualAddress
      · -- the entry says of the page what it said before
        have hsame : path x = path virtualAddress := path_eq_iff.mpr hnumber
        have hbits : e &&& tblEntryAddrMask =
            (pageFlags ||| physicalAddress) &&& tblEntryAddrMask := by
          have hboth := he.trans ((pageTarget_self hva hpa).mpr hfits).symm
          have hzero : virtualAddress &&& (mmapGranuleSize - 1) = 0 := by
            apply BitVec.eq_of_toNat_eq
            rw [granuleOffset_toNat, hva]
            rfl
          have hor : ∀ a : Word, a ||| 0 = a := fun _ => BitVec.or_zero
          unfold pageTarget at hboth
          rwa [hzero, hor, hor] at hboth
        rw [hentered.target hnumber, vmapVirtualToPhysical_eq, hsame, hwalk]
        unfold pageTarget
        rw [← hbits]
        rfl
      · exact hentered.elsewhere hnumber
    · unfold Kernel.mmapVirtualToPhysical
      rw [vmapVirtualToPhysical_eq, vmapVirtualToPhysical_eq,
        h.other (Ne.symm hx) ht (l3Index_toNat virtualAddress)]

/-- All other pages: the calls differ in the root alone. -/
theorem agree_page (h : s.WellFormed) (hpa : physicalAddress.toNat % 4096 = 0)
    (hva : virtualAddress.toNat % 4096 = 0) (hlast : virtualAddress + mmapGranuleSize ≠ 0)
    (hnot : ¬ Covered (s.buildVmapTable virtualAddress) virtualAddress) :
    WrappersAgree s physicalAddress virtualAddress pageFlags ↔
      RunsOut (s.buildVmapTable virtualAddress) virtualAddress ∨
        s.getTtbrTable virtualAddress ≠ 0 ∧ EntryFits physicalAddress pageFlags := by
  have hsupply := vmapMapPage_supply physicalAddress pageFlags (h.tree virtualAddress) hnot
  rcases hcall : vmapMapPage physicalAddress virtualAddress pageFlags
    (s.buildVmapTable virtualAddress) with ⟨_ | _, v'⟩
  · refine iff_of_true ⟨2, none, s.keep v', ?_, ?_⟩ (.inl (hsupply.gaveUp hcall))
    · unfold mmapMapRange
      rw [vmapMapRange_onePage (n := 0) hva hlast, hcall]
    · rw [mmapMapPage_eq hcall]
      exact ⟨rfl, fun _ => rfl, (fun hr => nomatch hr), (fun hr => nomatch hr)⟩
  · rw [or_iff_right (hsupply.returned hcall)]
    constructor
    · intro ⟨fuel, r, s', _, halike⟩
      have hpage := halike.page
      rw [mmapMapPage_eq hcall] at hpage
      have hmapped := hpage rfl
      have hroot : s.getTtbrTable virtualAddress ≠ 0 := by
        intro hroot
        have hkept : (s.keep v').getTtbrTable virtualAddress = 0 := hroot
        rw [noRoot_translate hkept] at hmapped
        cases hmapped
      rw [mmapMapPage_target h hnot hroot hcall] at hmapped
      exact ⟨hroot, (pageTarget_self hva hpa).mp (Option.some_inj.mp hmapped)⟩
    · intro ⟨hroot, hfits⟩
      have hmapped := mmapMapPage_target h hnot hroot hcall
      rw [(pageTarget_self hva hpa).mpr hfits] at hmapped
      refine ⟨2, some (), s.keep v', ?_, ?_⟩
      · rw [mmapMapRange_root (n := 0) hva hlast hroot, mmapMapPage_eq hcall]
      · rw [mmapMapPage_eq hcall]
        exact ⟨rfl, fun _ => rfl, fun _ => hmapped, fun _ => hmapped⟩

/-- The wrappers agree on an address that no block covers exactly when they
`CanAgree`; below a block they do the same, whatever this is. -/
theorem wrappersAgree_iff (s : Kernel) (h : s.WellFormed) (physicalAddress virtualAddress
    pageFlags : Word) (hpa : physicalAddress.toNat % 4096 = 0)
    (hva : virtualAddress.toNat % 4096 = 0) :
    (¬ Covered (s.buildVmapTable virtualAddress) virtualAddress →
      (WrappersAgree s physicalAddress virtualAddress pageFlags ↔
        CanAgree s physicalAddress virtualAddress pageFlags)) ∧
    (Covered (s.buildVmapTable virtualAddress) virtualAddress →
      virtualAddress + mmapGranuleSize ≠ 0 → ∀ fuel,
      mmapMapRange (fuel + 2) virtualAddress (virtualAddress + mmapGranuleSize) physicalAddress
        pageFlags s = some (mmapMapPage physicalAddress virtualAddress pageFlags s)) := by
  constructor
  · intro hnot
    unfold CanAgree
    split
    · rename_i hlast
      exact agree_lastPage h hpa hva hlast hnot
    · rename_i hlast
      exact agree_page h hpa hva hlast hnot
  · intro hcov hlast fuel
    exact mmapMapRange_root hva hlast (covered_cases hcov).1

end

/-- Cleared memory with three pages to be had and, if there is a root for the
lower half, this page taken for it. -/
def clearedKernel (ttbr0Table : Word) : Kernel where
  ttbr0Table := ttbr0Table
  ttbr1Table := 0
  memory _ := 0
  answers := [0x2000, 0x3000, 0x4000, 0x5000]
  obtained := [0x1000]
  stored := []

section
variable {root x t : Word} {p : List Index}

theorem clearedKernel_answers : FreshAnswers ((clearedKernel root).buildVmapTable x) where
  page q hq _ := by
    have hmem : q = 0x2000 ∨ q = 0x3000 ∨ q = 0x4000 ∨ q = 0x5000 := by
      simpa [Kernel.buildVmapTable, clearedKernel] using hq
    refine ⟨?_, ?_⟩
    · rcases hmem with rfl | rfl | rfl | rfl <;> exact ⟨by decide, by decide, by decide⟩
    · show q ∉ [0x1000]
      rcases hmem with rfl | rfl | rfl | rfl <;> decide
  once := by
    show ([0x2000, 0x3000, 0x4000, 0x5000].filter (· ≠ (0 : Word))).Nodup
    decide

theorem clearedKernel_reached (h : ((clearedKernel root).buildVmapTable x).Reached t p) :
    p = [] ∧ t = ((clearedKernel root).buildVmapTable x).rootPageTable := by
  have hroot := h.root_ne
  rw [Vmap.reached_iff hroot] at h
  exact (reached_empty fun d j => entryKind_zero d).mp h

theorem clearedKernel_wellFormed (hroot : root = 0 ∨ root = 0x1000) :
    (clearedKernel root).WellFormed := by
  have hpage : ∀ {x t p}, ((clearedKernel root).buildVmapTable x).Reached t p →
      isUpper x = false ∧ t = 0x1000 := by
    intro x t p ht
    have hne := ht.root_ne
    obtain ⟨_, heq⟩ := clearedKernel_reached ht
    cases hx : isUpper x with
    | true =>
      have hzero : ((clearedKernel root).buildVmapTable x).rootPageTable = 0 := if_pos hx
      exact absurd hzero hne
    | false =>
      have hlow : ((clearedKernel root).buildVmapTable x).rootPageTable = root :=
        if_neg (by rw [hx]; decide)
      rw [hlow] at hne heq
      exact ⟨rfl, heq.trans (hroot.resolve_left hne)⟩
  constructor
  · intro x
    refine ⟨?_, ?_, ?_, clearedKernel_answers⟩
    · intro t p q hp hq
      rw [(clearedKernel_reached hp).1, (clearedKernel_reached hq).1]
    · intro t p ht
      rw [(hpage ht).2]
      exact List.mem_singleton_self _
    · intro t ht
      rw [List.mem_singleton.mp ht]
      exact ⟨by decide, by decide, by decide⟩
  · intro x y t p q hxy hp hq
    exact hxy ((hpage hp).1.trans (hpage hq).1.symm)

theorem clearedKernel_pages : ¬ Covered ((clearedKernel root).buildVmapTable x) x := by
  intro ⟨d, e, hwalk, _⟩
  have hroot : ((clearedKernel root).buildVmapTable x).rootPageTable ≠ 0 := by
    intro hroot
    unfold Vmap.walk at hwalk
    rw [if_pos hroot] at hwalk
    cases hwalk
  rw [Vmap.walk_of_root hroot] at hwalk
  unfold path at hwalk
  rw [walk_cons_fault (entryKind_zero 0)] at hwalk
  cases hwalk

end

/-- With a root, the two calls map the same page. -/
theorem withRoot_agree : WrappersAgree (clearedKernel 0x1000) 0x6000 0x7000 0x40 :=
  ((wrappersAgree_iff _ (clearedKernel_wellFormed (.inr rfl)) 0x6000 0x7000 0x40 (by decide)
    (by decide)).1 clearedKernel_pages).mpr
    (by
      unfold CanAgree
      rw [if_neg (by decide)]
      exact .inr ⟨by decide, by unfold EntryFits; decide⟩)

/-- Without a root, `mmap_map_page` returns 0 and drops what it mapped. -/
theorem root_dropped : ¬ ∀ (s : Kernel) (physicalAddress virtualAddress pageFlags : Word),
    s.WellFormed → AttributeFlags pageFlags → physicalAddress.toNat % 4096 = 0 →
    virtualAddress.toNat % 4096 = 0 →
    ¬ Covered (s.buildVmapTable virtualAddress) virtualAddress →
    WrappersAgree s physicalAddress virtualAddress pageFlags := by
  intro hall
  have hagree := hall (clearedKernel 0) 0x6000 0x7000 0x40 (clearedKernel_wellFormed (.inl rfl))
    (by unfold AttributeFlags; decide) (by decide) (by decide) clearedKernel_pages
  rw [agree_page (clearedKernel_wellFormed (.inl rfl)) (by decide) (by decide) (by decide)
    clearedKernel_pages] at hagree
  rcases hagree with ⟨j, hj, hzero⟩ | ⟨hroot, _⟩
  · rw [missing_of_noRoot (by decide)] at hj
    interval_cases j <;> exact absurd hzero (by decide)
  · exact hroot (by decide)

end ZOs.Paging
