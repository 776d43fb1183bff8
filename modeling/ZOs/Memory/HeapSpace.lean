import ZOs.Memory.BlockAllocator
import ZOs.Memory.VmapPage

/-!
# The address space of the heap

The kernel's translation tables are an address space as the heap needs it:
what a page entered by `vmap_map_page` maps stays mapped.
-/

namespace ZOs.BlockAllocator

open Paging Attempt

/-- The `vmap_t` of the kernel heap, the answers `page_alloc_block` will
give, and the two table registers. -/
structure KernelSpace where
  vmap : Vmap
  blocks : List Nat
  ttbr0 : Word
  ttbr1 : Word
  wellFormed : WellFormed vmap
  pagesOnly : PagesOnly vmap

/-- `vmap_map_page` on numbers. -/
def mapPage (page va flags : Nat) (v : Vmap) : Option Unit × Vmap :=
  vmapMapPage (.ofNat 64 page) (.ofNat 64 va) (.ofNat 64 flags) v

/-- An address below 2^64 is translated. -/
def Mapped (v : Vmap) (a : Nat) : Prop := (v.vmapVirtualToPhysical (.ofNat 64 a)).isSome = true

section
variable {v v' : Vmap} {x virtualAddress physicalAddress pageFlags : Word} {page va flags a : Nat}

/-- The addresses of a page that has been entered are translated. -/
theorem Entered.isSome
    (h : Entered v v' (path virtualAddress) (pageEntry physicalAddress pageFlags))
    (hx : pageNumber x = pageNumber virtualAddress) :
    (v'.vmapVirtualToPhysical x).isSome = true := by
  rw [vmapVirtualToPhysical_eq, h.here (path_prefix_iff.mpr hx)]
  rfl

theorem mapPage_inv (hwf : WellFormed v) (hpages : PagesOnly v) (page va flags : Nat) :
    WellFormed (mapPage page va flags v).2 ∧ PagesOnly (mapPage page va flags v).2 :=
  MapsPage.inv (m := ⟨.ofNat 64 page, .ofNat 64 va, .ofNat 64 flags⟩) hwf hpages rfl

theorem mapPage_keeps (hwf : WellFormed v) (hpages : PagesOnly v) (ha : Mapped v a) :
    Mapped (mapPage page va flags v).2 a := by
  have hspec := vmapMapPage_spec (.ofNat 64 page) (.ofNat 64 flags) hwf (hpages (.ofNat 64 va))
  unfold Mapped at ha ⊢
  cases hcall : mapPage page va flags v with
  | mk r v₁ =>
    cases r with
    | none =>
      rw [(hspec.gaveUp hcall).translate]
      exact ha
    | some u =>
      have hent := hspec.returned hcall
      by_cases hx : pageNumber (.ofNat 64 a) = pageNumber (.ofNat 64 va)
      · exact Entered.isSome hent hx
      · rw [vmapVirtualToPhysical_eq, hent.there fun hpre => hx (path_prefix_iff.mp hpre),
          ← vmapVirtualToPhysical_eq]
        exact ha

theorem mapPage_maps (hwf : WellFormed v) (hpages : PagesOnly v) (hva : va % 4096 = 0)
    (hok : (mapPage page va flags v).1.isSome = true) (hlo : va ≤ a) (hhi : a < va + 4096)
    (hlt : a < 2 ^ 64) : Mapped (mapPage page va flags v).2 a := by
  have hspec := vmapMapPage_spec (.ofNat 64 page) (.ofNat 64 flags) hwf (hpages (.ofNat 64 va))
  cases hcall : mapPage page va flags v with
  | mk r v₁ =>
    rw [hcall] at hok
    cases r with
    | none => cases hok
    | some u =>
      apply Entered.isSome (hspec.returned hcall)
      unfold pageNumber
      rw [BitVec.toNat_ofNat, BitVec.toNat_ofNat]
      omega

end

/-- `vmap->root_page_table` is in one of the table registers. -/
def KernelSpace.isActive (w : KernelSpace) : Bool :=
  w.ttbr0 >>> 1 = w.vmap.rootPageTable >>> 1 || w.ttbr1 >>> 1 = w.vmap.rootPageTable >>> 1

def KernelSpace.takeBlock (w : KernelSpace) : Option Nat × KernelSpace :=
  match w.blocks with
  | [] => (none, w)
  | block :: rest => (some block, { w with blocks := rest })

def KernelSpace.mapPage (w : KernelSpace) (page va flags : Nat) : Bool × KernelSpace :=
  ((BlockAllocator.mapPage page va flags w.vmap).1.isSome,
    { w with
      vmap := (BlockAllocator.mapPage page va flags w.vmap).2
      wellFormed := (mapPage_inv w.wellFormed w.pagesOnly page va flags).1
      pagesOnly := (mapPage_inv w.wellFormed w.pagesOnly page va flags).2 })

/-- The address space that `vmap.c` makes. -/
def kernelSpace : AddressSpace KernelSpace where
  vmapIsActive := KernelSpace.isActive
  pageAllocBlock _ w := w.takeBlock
  vmapMapPage page va flags w := w.mapPage page va flags
  mapped w a := Mapped w.vmap a
  alloc_keeps _ w a ha := by
    unfold KernelSpace.takeBlock
    split <;> exact ha
  map_keeps page va flags w a ha := mapPage_keeps w.wellFormed w.pagesOnly ha
  map_maps page va flags w a hva hok hlo hhi hlt :=
    mapPage_maps w.wellFormed w.pagesOnly hva hok hlo hhi hlt

end ZOs.BlockAllocator
