import Mathlib.Algebra.Ring.Nat
import Mathlib.Tactic.IntervalCases
import ZOs.Memory.VmapPage

/-!
# Mapping a range

`vmap_map_range` maps the pages of its start address, of the address 4096
further on, and so forth while it is below the end. Whether these are all
pages of the range depends on where in a page the range starts and ends;
and near the top of the address space the address wraps before it reaches
the end.
-/

namespace ZOs.Paging

open TableTree Attempt

/-! ## The loop -/

section
variable {v v' : Vmap} {x virtualAddress virtualEndAddress physicalAddress pageFlags : Word}
  {fuel n : Nat} {o : Option Unit × Vmap}

theorem vmapMapRange_end (hnot : ¬ virtualAddress < virtualEndAddress) :
    vmapMapRange (fuel + 1) virtualAddress virtualEndAddress physicalAddress pageFlags v =
      some (some (), v) := by
  rw [vmapMapRange, if_neg hnot]

theorem vmapMapRange_failed (hlt : virtualAddress < virtualEndAddress)
    (hcall : vmapMapPage physicalAddress virtualAddress pageFlags v = (none, v')) :
    vmapMapRange (fuel + 1) virtualAddress virtualEndAddress physicalAddress pageFlags v =
      some (none, v') := by
  rw [vmapMapRange, if_pos hlt, hcall]

theorem vmapMapRange_next (hlt : virtualAddress < virtualEndAddress)
    (hcall : vmapMapPage physicalAddress virtualAddress pageFlags v = (some (), v')) :
    vmapMapRange (fuel + 1) virtualAddress virtualEndAddress physicalAddress pageFlags v =
      vmapMapRange fuel (virtualAddress + mmapGranuleSize) virtualEndAddress
        (physicalAddress + mmapGranuleSize) pageFlags v' := by
  rw [vmapMapRange, if_pos hlt, hcall]

/-- More fuel does not change where the loop ends. -/
theorem vmapMapRange_mono (h : vmapMapRange fuel virtualAddress virtualEndAddress physicalAddress
    pageFlags v = some o) {fuel' : Nat} (hle : fuel ≤ fuel') :
    vmapMapRange fuel' virtualAddress virtualEndAddress physicalAddress pageFlags v = some o := by
  induction fuel generalizing fuel' virtualAddress physicalAddress v with
  | zero => cases h
  | succ fuel ih =>
    obtain ⟨m, rfl⟩ := Nat.exists_eq_add_of_lt (Nat.lt_of_lt_of_le (Nat.lt_succ_self fuel) hle)
    by_cases hlt : virtualAddress < virtualEndAddress
    · rcases hcall : vmapMapPage physicalAddress virtualAddress pageFlags v with ⟨_ | _, v₁⟩
      · rw [vmapMapRange_failed hlt hcall] at h ⊢
        exact h
      · rw [vmapMapRange_next hlt hcall] at h ⊢
        exact ih h (Nat.le_add_right fuel m)
    · rw [vmapMapRange_end hlt] at h ⊢
      exact h

theorem vmapMapRange_det {fuel' : Nat} {o' : Option Unit × Vmap}
    (h : vmapMapRange fuel virtualAddress virtualEndAddress physicalAddress pageFlags v = some o)
    (h' : vmapMapRange fuel' virtualAddress virtualEndAddress physicalAddress pageFlags v =
      some o') : o = o' := by
  have hmax := vmapMapRange_mono h (Nat.le_max_left fuel fuel')
  rw [vmapMapRange_mono h' (Nat.le_max_right fuel fuel')] at hmax
  exact (Option.some_inj.mp hmax).symm

/-! ## The pages visited -/

/-- How many addresses from the start on, 4096 apart, are below the end. -/
def pagesVisited (virtualAddress virtualEndAddress : Word) : Nat :=
  (virtualEndAddress.toNat - virtualAddress.toNat + 4095) / 4096

/-- The address after `k` pages. -/
def after (address : Word) (k : Nat) : Word := address + BitVec.ofNat 64 (4096 * k)

/-- The address after the last page visited is still below 2^64. -/
def NoWrap (virtualAddress virtualEndAddress : Word) : Prop :=
  virtualEndAddress.toNat ≤ 2 ^ 64 - 4096 + virtualAddress.toNat % 4096

theorem after_zero (address : Word) : after address 0 = address := by
  unfold after
  rw [Nat.mul_zero]
  exact add_zero address

theorem after_succ (address : Word) (k : Nat) :
    after (address + mmapGranuleSize) k = after address (k + 1) := by
  have hsum : BitVec.ofNat 64 (4096 * (k + 1)) = mmapGranuleSize + BitVec.ofNat 64 (4096 * k) := by
    rw [Nat.mul_succ, Nat.add_comm, BitVec.ofNat_add]
    rfl
  unfold after
  rw [hsum, add_assoc]

/-- As long as nothing wraps, the addresses visited are below the end. -/
theorem after_toNat {k : Nat}
    (hk : k < pagesVisited virtualAddress virtualEndAddress) :
    (after virtualAddress k).toNat = virtualAddress.toNat + 4096 * k ∧
      virtualAddress.toNat + 4096 * k < virtualEndAddress.toNat := by
  have hlt := virtualEndAddress.isLt
  unfold pagesVisited at hk
  have hbelow : virtualAddress.toNat + 4096 * k < virtualEndAddress.toNat := by omega
  refine ⟨?_, hbelow⟩
  unfold after
  rw [BitVec.toNat_add, BitVec.toNat_ofNat]
  omega

/-- One page less is left after one iteration, and still nothing wraps. -/
theorem step_range (hwrap : NoWrap virtualAddress virtualEndAddress)
    (hlt : virtualAddress < virtualEndAddress) :
    NoWrap (virtualAddress + mmapGranuleSize) virtualEndAddress ∧
    pagesVisited virtualAddress virtualEndAddress =
      pagesVisited (virtualAddress + mmapGranuleSize) virtualEndAddress + 1 := by
  have hva := virtualAddress.isLt
  have hend := virtualEndAddress.isLt
  rw [BitVec.lt_def] at hlt
  unfold NoWrap pagesVisited mmapGranuleSize at *
  have hadd : (virtualAddress + 4096#64).toNat = virtualAddress.toNat + 4096 := by
    rw [BitVec.toNat_add, BitVec.toNat_ofNat]
    omega
  have hlit : (4096 : Word) = 4096#64 := rfl
  rw [hlit, hadd]
  omega

theorem pagesVisited_of_le (h : ¬ virtualAddress < virtualEndAddress) :
    pagesVisited virtualAddress virtualEndAddress = 0 := by
  rw [BitVec.lt_def] at h
  unfold pagesVisited
  omega

/-- Without a wrap, the loop ends after the pages it visits. -/
theorem vmapMapRange_ends (hwrap : NoWrap virtualAddress virtualEndAddress)
    (hn : pagesVisited virtualAddress virtualEndAddress = n) :
    ∃ o, vmapMapRange (n + 1) virtualAddress virtualEndAddress physicalAddress pageFlags v =
      some o := by
  induction n generalizing virtualAddress physicalAddress v with
  | zero =>
    refine ⟨_, vmapMapRange_end ?_⟩
    rw [BitVec.lt_def]
    unfold pagesVisited at hn
    omega
  | succ n ih =>
    have hlt : virtualAddress < virtualEndAddress := by
      by_contra hnot
      rw [pagesVisited_of_le hnot] at hn
      cases hn
    obtain ⟨hwrap', hpages⟩ := step_range hwrap hlt
    rcases hcall : vmapMapPage physicalAddress virtualAddress pageFlags v with ⟨_ | _, v₁⟩
    · exact ⟨_, vmapMapRange_failed hlt hcall⟩
    · rw [vmapMapRange_next hlt hcall]
      exact ih hwrap' (Nat.succ.inj (hpages.symm.trans hn))

/-- The address wraps within its page offset. -/
theorem add_granule_offset (address : Word) :
    (address + mmapGranuleSize).toNat % 4096 = address.toNat % 4096 := by
  have hsize : mmapGranuleSize.toNat = 4096 := rfl
  rw [BitVec.toNat_add, hsize]
  omega

/-- Where the address wraps before it reaches the end, it never does. -/
theorem vmapMapRange_wraps (hwrap : ¬ NoWrap virtualAddress virtualEndAddress) :
    vmapMapRange fuel virtualAddress virtualEndAddress physicalAddress pageFlags v ≠
      some (some (), v') := by
  induction fuel generalizing virtualAddress physicalAddress v with
  | zero => exact fun h => nomatch h
  | succ fuel ih =>
    have hlt : virtualAddress < virtualEndAddress := by
      have hva := virtualAddress.isLt
      unfold NoWrap at hwrap
      rw [BitVec.lt_def]
      omega
    rcases hcall : vmapMapPage physicalAddress virtualAddress pageFlags v with ⟨_ | _, v₁⟩
    · rw [vmapMapRange_failed hlt hcall]
      exact fun h => nomatch h
    · rw [vmapMapRange_next hlt hcall]
      apply ih
      unfold NoWrap at hwrap ⊢
      rwa [add_granule_offset]

end

/-! ## What the pages visited become -/

section
variable {v v' : Vmap} {x y virtualAddress virtualEndAddress physicalAddress pageFlags : Word}
  {fuel k : Nat}

theorem addrMask_toNat (x : Word) :
    (x &&& tblEntryAddrMask).toNat + x.toNat % 4096 = x.toNat % 2 ^ 48 := by
  rw [addrMask_eq]
  exact Bits.toNat_and_field (by decide) (by decide)

theorem granuleOffset_toNat (x : Word) : (x &&& (mmapGranuleSize - 1)).toNat = x.toNat % 4096 := by
  have hlow : mmapGranuleSize - 1 = Bits.low 64 12 := by decide
  rw [hlow]
  exact Bits.toNat_and_low (by decide)

/-- The page of an address, with all its bits. -/
theorem granuleBase_toNat (x : Word) :
    (x &&& ~~~(mmapGranuleSize - 1)).toNat + x.toNat % 4096 = x.toNat := by
  have hmask : ~~~(mmapGranuleSize - 1) = Bits.field 64 12 64 := by decide
  have hsum : (x &&& Bits.field 64 12 64).toNat + x.toNat % 2 ^ 12 = x.toNat % 2 ^ 64 :=
    Bits.toNat_and_field (by decide) (by decide)
  rw [Nat.mod_eq_of_lt x.isLt] at hsum
  rw [hmask]
  exact hsum

theorem pageTarget_toNat (physicalAddress pageFlags x : Word) :
    (pageTarget physicalAddress pageFlags x).toNat =
      ((pageFlags ||| physicalAddress) &&& tblEntryAddrMask).toNat + x.toNat % 4096 := by
  have hclear : ((pageFlags ||| physicalAddress) &&& tblEntryAddrMask) &&&
      (x &&& (mmapGranuleSize - 1)) = 0 := by
    have hmask : tblEntryAddrMask &&& (mmapGranuleSize - 1) = 0 := by decide
    rw [BitVec.and_comm x, ← BitVec.and_assoc, Bits.and_and_of_clear hmask]
    exact BitVec.zero_and
  unfold pageTarget
  rw [← BitVec.add_eq_or_of_and_eq_zero _ _ hclear, BitVec.toNat_add_of_and_eq_zero hclear,
    granuleOffset_toNat]

/-- Physical addresses that an entry cannot tell apart. -/
theorem pageTarget_congr (hlow : x.toNat % 2 ^ 48 = y.toNat % 2 ^ 48) (a : Word) :
    pageTarget x pageFlags a = pageTarget y pageFlags a := by
  have hmask : x &&& tblEntryAddrMask = y &&& tblEntryAddrMask := by
    apply BitVec.eq_of_toNat_eq
    have hx := addrMask_toNat x
    have hy := addrMask_toNat y
    omega
  unfold pageTarget
  rw [BitVec.and_or_distrib_right, BitVec.and_or_distrib_right, hmask]

/-- Pages visited of one number are entered alike. -/
theorem pageTarget_after (hoff : pageNumber (after virtualAddress k) = pageNumber virtualAddress)
    (hk : (after virtualAddress k).toNat = virtualAddress.toNat + 4096 * k) (a : Word) :
    pageTarget (after physicalAddress k) pageFlags a = pageTarget physicalAddress pageFlags a := by
  apply pageTarget_congr
  unfold pageNumber at hoff
  unfold after
  rw [hk] at hoff
  rw [BitVec.toNat_add, BitVec.toNat_ofNat]
  omega

/-- A call that returns 0 has entered every page it visited, and no other. -/
theorem vmapMapRange_pages (h : WellFormed v) (hwrap : NoWrap virtualAddress virtualEndAddress)
    (hnot : ∀ k < pagesVisited virtualAddress virtualEndAddress,
      ¬ Covered v (after virtualAddress k))
    (hrun : vmapMapRange fuel virtualAddress virtualEndAddress physicalAddress pageFlags v =
      some (some (), v')) :
    (∀ k < pagesVisited virtualAddress virtualEndAddress, ∀ x,
      pageNumber x = pageNumber (after virtualAddress k) →
        v'.vmapVirtualToPhysical x = some (pageTarget (after physicalAddress k) pageFlags x)) ∧
    ∀ x, (∀ k < pagesVisited virtualAddress virtualEndAddress,
        pageNumber x ≠ pageNumber (after virtualAddress k)) →
      v'.vmapVirtualToPhysical x = v.vmapVirtualToPhysical x := by
  induction fuel generalizing virtualAddress physicalAddress v with
  | zero => cases hrun
  | succ fuel ih =>
    by_cases hlt : virtualAddress < virtualEndAddress
    · rcases hcall : vmapMapPage physicalAddress virtualAddress pageFlags v with ⟨_ | _, v₁⟩
      · rw [vmapMapRange_failed hlt hcall] at hrun
        cases hrun
      · rw [vmapMapRange_next hlt hcall] at hrun
        obtain ⟨hwrap', hpages⟩ := step_range hwrap hlt
        have hnot₀ := hnot 0 (by omega)
        rw [after_zero] at hnot₀
        have hentered := (vmapMapPage_spec physicalAddress pageFlags h hnot₀).returned hcall
        obtain ⟨hthere, helse⟩ := ih hentered.wellFormed hwrap'
          (by
            intro k hk hcov
            rw [after_succ] at hcov
            exact hnot (k + 1) (by omega) (hentered.covered hcov))
          hrun
        constructor
        · intro k hk x hx
          cases k with
          | zero =>
            rw [after_zero] at hx ⊢
            -- the page of the first address may be entered once more
            by_cases hagain : ∃ j < pagesVisited (virtualAddress + mmapGranuleSize)
                virtualEndAddress,
                pageNumber x = pageNumber (after (virtualAddress + mmapGranuleSize) j)
            · obtain ⟨j, hj, hxj⟩ := hagain
              have hj' : j + 1 < pagesVisited virtualAddress virtualEndAddress := by omega
              rw [hthere j hj x hxj]
              rw [after_succ] at hxj ⊢
              rw [pageTarget_after (hxj.symm.trans hx) (after_toNat hj').1]
            · rw [helse x fun j hj heq => hagain ⟨j, hj, heq⟩, hentered.target hx]
          | succ k =>
            rw [hthere k (by omega) x (by rw [after_succ, hx]), after_succ]
        · intro x hx
          rw [helse x, hentered.elsewhere]
          · have hx₀ := hx 0 (by omega)
            rwa [after_zero] at hx₀
          · intro k hk
            rw [after_succ]
            exact hx (k + 1) (by omega)
    · rw [vmapMapRange_end hlt] at hrun
      injection hrun with hrun
      injection hrun with _ hv
      rw [← hv, pagesVisited_of_le hlt]
      exact ⟨fun k hk => absurd hk (Nat.not_lt_zero k), fun _ _ => rfl⟩

end

/-! ## Whole ranges -/

/-- The addresses from the start up to the end are mapped one to one, and
pages without such an address are left alone. -/
structure MapsRange (v v' : Vmap) (virtualStartAddress virtualEndAddress
    physicalStartAddress : Word) : Prop where
  inside : ∀ a, virtualStartAddress ≤ a → a < virtualEndAddress →
    v'.vmapVirtualToPhysical a = some (physicalStartAddress + (a - virtualStartAddress))
  outside : ∀ x, (∀ a, virtualStartAddress ≤ a → a < virtualEndAddress →
    pageNumber x ≠ pageNumber a) → v'.vmapVirtualToPhysical x = v.vmapVirtualToPhysical x

/-- An entry can hold the page of the physical address beside the flags. -/
def EntryFits (physicalAddress pageFlags : Word) : Prop :=
  (pageFlags ||| physicalAddress) &&& tblEntryAddrMask =
    physicalAddress &&& ~~~(mmapGranuleSize - 1)

/-- The ranges that `vmap_map_range` can map: the address does not wrap, what
is entered fits its entry, and if there is a last page that is not visited,
its part of the range has been mapped before. -/
structure Mappable (v : Vmap) (virtualStartAddress virtualEndAddress physicalStartAddress
    pageFlags : Word) : Prop where
  noWrap : NoWrap virtualStartAddress virtualEndAddress
  fits : ∀ k < pagesVisited virtualStartAddress virtualEndAddress,
    EntryFits (after physicalStartAddress k) pageFlags
  leftOver : ∀ a, virtualStartAddress ≤ a → a < virtualEndAddress →
    virtualStartAddress.toNat / 4096 + pagesVisited virtualStartAddress virtualEndAddress ≤
      a.toNat / 4096 →
    v.vmapVirtualToPhysical a = some (physicalStartAddress + (a - virtualStartAddress))

section
variable {v v' : Vmap} {a x w virtualStartAddress virtualEndAddress physicalStartAddress
  physicalAddress pageFlags : Word} {fuel k : Nat}

theorem entryFits_iff : EntryFits physicalAddress pageFlags ↔
    ((pageFlags ||| physicalAddress) &&& tblEntryAddrMask).toNat + physicalAddress.toNat % 4096 =
      physicalAddress.toNat := by
  have hbase := granuleBase_toNat physicalAddress
  unfold EntryFits
  rw [← BitVec.toNat_inj]
  omega

/-- Tables translate to physical addresses below 2^48. -/
theorem translate_lt (h : v.vmapVirtualToPhysical x = some w) : w.toNat < 2 ^ 48 := by
  rw [vmapVirtualToPhysical_eq] at h
  cases hwalk : v.walk (path x) with
  | fault =>
    rw [hwalk] at h
    cases h
  | table t =>
    rw [hwalk] at h
    cases h
  | leaf d e =>
    rw [hwalk] at h
    injection h with h
    have hmask : (leafAddrMask d).toNat < 2 ^ 48 := by
      unfold leafAddrMask
      split <;> decide
    have hsize : (leafSize d - 1).toNat < 2 ^ 48 := by
      unfold leafSize
      split <;> decide
    rw [← h, BitVec.toNat_or, BitVec.toNat_and, BitVec.toNat_and]
    exact Nat.or_lt_two_pow (Nat.lt_of_le_of_lt Nat.and_le_right hmask)
      (Nat.lt_of_le_of_lt Nat.and_le_right hsize)

/-- How far an address is from where the range starts. -/
theorem target_toNat (hle : virtualStartAddress ≤ a) :
    (physicalStartAddress + (a - virtualStartAddress)).toNat =
      (physicalStartAddress.toNat + (a.toNat - virtualStartAddress.toNat)) % 2 ^ 64 := by
  rw [BitVec.le_def] at hle
  rw [BitVec.toNat_add, BitVec.toNat_sub_of_le (BitVec.le_def.mpr hle)]

theorem after_target_toNat (address : Word) (k : Nat) :
    (after address k).toNat = (address.toNat + 4096 * k) % 2 ^ 64 := by
  unfold after
  rw [BitVec.toNat_add, BitVec.toNat_ofNat]
  omega

/-- In a page visited, the entry has what the range asks for. -/
theorem EntryFits.target (hfits : EntryFits (after physicalStartAddress k) pageFlags)
    (hcongr : physicalStartAddress.toNat % 4096 = virtualStartAddress.toNat % 4096)
    (hle : virtualStartAddress ≤ a)
    (hpage : a.toNat / 4096 = virtualStartAddress.toNat / 4096 + k) :
    pageTarget (after physicalStartAddress k) pageFlags a =
      physicalStartAddress + (a - virtualStartAddress) := by
  rw [entryFits_iff, after_target_toNat] at hfits
  apply BitVec.eq_of_toNat_eq
  rw [pageTarget_toNat, target_toNat hle]
  rw [BitVec.le_def] at hle
  omega

/-- If the first address of a page is translated as the range asks for, the
entry of the page has room for what it was given. -/
theorem entryFits_of_target
    (hcongr : physicalStartAddress.toNat % 4096 = virtualStartAddress.toNat % 4096)
    (hk : (after virtualStartAddress k).toNat = virtualStartAddress.toNat + 4096 * k)
    (h : pageTarget (after physicalStartAddress k) pageFlags (after virtualStartAddress k) =
      physicalStartAddress + (after virtualStartAddress k - virtualStartAddress)) :
    EntryFits (after physicalStartAddress k) pageFlags := by
  have hle : virtualStartAddress ≤ after virtualStartAddress k := by
    rw [BitVec.le_def]
    omega
  have htoNat := congrArg BitVec.toNat h
  rw [pageTarget_toNat, target_toNat hle, hk] at htoNat
  rw [entryFits_iff, after_target_toNat] at *
  omega

/-- A page left over does not have the number of one visited, since the
physical addresses asked for are both below 2^48. -/
theorem leftOver_number (hfits : EntryFits (after physicalStartAddress k) pageFlags)
    (hcongr : physicalStartAddress.toNat % 4096 = virtualStartAddress.toNat % 4096)
    (hk : (after virtualStartAddress k).toNat = virtualStartAddress.toNat + 4096 * k)
    (hle : virtualStartAddress ≤ a) (hpage : virtualStartAddress.toNat / 4096 + k < a.toNat / 4096)
    (hlt : (physicalStartAddress + (a - virtualStartAddress)).toNat < 2 ^ 48) :
    pageNumber a ≠ pageNumber (after virtualStartAddress k) := by
  have ha := a.isLt
  have hmask := addrMask_toNat (pageFlags ||| after physicalStartAddress k)
  rw [entryFits_iff, after_target_toNat] at hfits
  rw [target_toNat hle] at hlt
  rw [BitVec.le_def] at hle
  unfold pageNumber
  rw [hk]
  intro hnumber
  obtain ⟨q, hq⟩ := Nat.exists_eq_add_of_lt hpage
  have hmultiple : (q + 1) % 2 ^ 36 = 0 := by omega
  have hvisited : (physicalStartAddress.toNat + 4096 * k) % 2 ^ 64 < 2 ^ 48 := by omega
  have hsum : physicalStartAddress.toNat + (a.toNat - virtualStartAddress.toNat) =
      4096 * (physicalStartAddress.toNat / 4096 + k + (q + 1)) + a.toNat % 4096 := by omega
  rw [hsum] at hlt
  clear hsum hfits hmask hk hnumber hle
  omega

end

end ZOs.Paging
