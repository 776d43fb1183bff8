import ZOs.Process.Load
import ZOs.Process.Regions

/-!
# Pages that are found or taken

What the parts of `allocate_memory_pages` do when they return.
-/

namespace ZOs.ProcessMemory

open Paging Attempt Bytes Elf

/-- A page was mapped already, or was taken and mapped. -/
inductive Found (p : Process) (virtualAddress pageFlags : Word) : Word → Process → Prop
  | existing {physicalAddress} :
      p.pageTable.vmapVirtualToPhysical virtualAddress = some physicalAddress →
      Found p virtualAddress pageFlags physicalAddress p
  | new {page rest pageTable} : p.pageTable.vmapVirtualToPhysical virtualAddress = none →
      p.blocks = some page :: rest →
      Entered p.pageTable pageTable (path virtualAddress) (pageEntry page pageFlags) →
      Recorded p.pageTable pageTable →
      Found p virtualAddress pageFlags page { p with pageTable, blocks := rest }

section
variable {p p' : Process} {physicalAddress virtualAddress pageFlags : Word}

theorem findPage_returned (hwf : WellFormed p.pageTable) (hpages : PagesOnly p.pageTable)
    (h : findPage virtualAddress pageFlags p = (some physicalAddress, p')) :
    Found p virtualAddress pageFlags physicalAddress p' := by
  unfold findPage at h
  split at h
  · rename_i existing hexisting
    cases h
    exact .existing hexisting
  · rename_i hnone
    obtain ⟨page, p₁, htake, h⟩ := bind_returned.mp h
    obtain ⟨_, p₂, hmap, h⟩ := bind_returned.mp h
    cases h
    unfold takeBlock at htake
    split at htake
    · rename_i block rest hblocks
      cases htake
      unfold mapTaken at hmap
      split at hmap
      rename_i result pageTable hcall
      cases hmap
      have hentered := (vmapMapPage_spec physicalAddress pageFlags hwf
        (hpages virtualAddress)).returned hcall
      have hrecorded := recorded_vmapMapPage physicalAddress virtualAddress pageFlags p.pageTable
      have hcall : vmapMapPage physicalAddress virtualAddress pageFlags p.pageTable =
        (some (), pageTable) := hcall
      rw [hcall] at hrecorded
      exact .new hnone hblocks hentered hrecorded
    · cases htake
    · cases htake

end

theorem tried_onProcess {α : Type} {x : Attempt Process α} {l : Loading} {F : Loading → Prop}
    {P : α → Loading → Prop} :
    Tried (onProcess x) l F P ↔ Tried x l.process (fun p => F { l with process := p })
      fun a p => P a { l with process := p } := by
  unfold Tried onProcess
  rcases x l.process with ⟨_ | a, p⟩ <;> rfl

/-- What the end of the loop does with the page at a physical address. -/
inductive CopiedPart (file : Buffer) (physicalAddress : Word) (buffer : Option Word)
    (bytesRemaining : Nat) (l : Loading) : Option Word × Nat → Loading → Prop
  | nothing :
      (∀ source, buffer = some source → file.address + source = 0 ∨ bytesRemaining = 0) →
      CopiedPart file physicalAddress buffer bytesRemaining l (buffer, bytesRemaining) l
  | rest {source} : buffer = some source → file.address + source ≠ 0 → bytesRemaining ≠ 0 →
      bytesRemaining < 4096 →
      CopiedPart file physicalAddress buffer bytesRemaining l (none, 0)
        ⟨l.process.copy file physicalAddress source bytesRemaining,
          l.reads ++ [(source, bytesRemaining)]⟩
  | page {source} : buffer = some source → file.address + source ≠ 0 → 4096 ≤ bytesRemaining →
      CopiedPart file physicalAddress buffer bytesRemaining l
        (some (source + pageSize), bytesRemaining - 4096)
        ⟨l.process.copy file physicalAddress source 4096, l.reads ++ [(source, 4096)]⟩

theorem copyPart_spec (file : Buffer) (physicalAddress : Word) (buffer : Option Word)
    (bytesRemaining : Nat) (l : Loading) :
    Tried (copyPart file physicalAddress buffer bytesRemaining) l (fun _ => False)
      (CopiedPart file physicalAddress buffer bytesRemaining l) := by
  cases buffer with
  | none => exact .nothing fun _ h => nomatch h
  | some source =>
    show Tried (if file.address + source = 0 ∨ bytesRemaining = 0 then _ else _) _ _ _
    by_cases hskip : file.address + source = 0 ∨ bytesRemaining = 0
    · rw [if_pos hskip]
      refine .nothing fun _ h => ?_
      cases h
      exact hskip
    · rw [if_neg hskip]
      obtain ⟨hnull, hbytes⟩ := not_or.mp hskip
      by_cases hlast : bytesRemaining < 4096
      · rw [if_pos hlast]
        exact .rest rfl hnull hbytes hlast
      · rw [if_neg hlast]
        exact .page rfl hnull (Nat.le_of_not_lt hlast)

end ZOs.ProcessMemory
