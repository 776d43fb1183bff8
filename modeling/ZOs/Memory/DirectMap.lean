import Mathlib.Algebra.Ring.Nat

/-!
# The direct-map window

`mmap_init` maps the first 16 GiB of physical memory at
`MMAP_VIRTUAL_BASE_ADDRESS` and sets `g_mmap_initialized`. From then on
`mmap_physical_to_virtual` is arithmetic, while
`mmap_virtual_to_physical` walks the kernel's translation table.
-/

namespace ZOs

/-- `MMAP_VIRTUAL_BASE_ADDRESS`. -/
def mmapVirtualBaseAddress : Nat := 0xFFFF500000000000

/-- `MMAP_PHYSICAL_REGION_SIZE`: 16 GiB. -/
def mmapPhysicalRegionSize : Nat := 2 ^ 34

/-- `mmap_physical_to_virtual` once `g_mmap_initialized` is set; `none` is
its error return. -/
def mmapPhysicalToVirtual (physicalAddress : Nat) : Option Nat :=
  if physicalAddress < mmapPhysicalRegionSize then
    some (mmapVirtualBaseAddress + physicalAddress)
  else none

/-- The kernel's translation of virtual addresses after `mmap_init`:
`mmap_virtual_to_physical`, with the window in place. Nothing is said
about addresses outside the window. -/
structure DirectMap where
  mmapVirtualToPhysical : Nat → Option Nat
  window : ∀ p, p < mmapPhysicalRegionSize →
    mmapVirtualToPhysical (mmapVirtualBaseAddress + p) = some p

/-- A kernel that has mapped nothing but the window. -/
def DirectMap.windowOnly : DirectMap where
  mmapVirtualToPhysical va :=
    if mmapVirtualBaseAddress ≤ va ∧ va < mmapVirtualBaseAddress + mmapPhysicalRegionSize then
      some (va - mmapVirtualBaseAddress)
    else none
  window p hp := by
    rw [if_pos ⟨Nat.le_add_right _ _, Nat.add_lt_add_left hp _⟩, Nat.add_sub_cancel_left]

end ZOs
