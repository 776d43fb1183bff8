import ZOs.Lib.Patch
import ZOs.Process.Contained

/-!
# Where parts land

`allocate_memory_pages` copies to the start of a page that is new, and to the
place of the address in a page that has been mapped before. Which it is the
visits before decide: `landings`. What memory holds after a run is what the
parts left where they landed, `Space.VisitsAll.stores`.
-/

namespace ZOs.ProcessMemory

open Paging Attempt Bytes Elf Patches
open Boot (IsTable)

/-! ## Landings -/

/-- A visit, and the offset in the page at which its part is put. -/
structure Landing where
  offset : Nat
  visit : Visit

/-- The offset of the address in its page. -/
def Visit.offset (v : Visit) : Nat := (pageOffset v.virtualAddress).toNat

/-- The landings, when some pages have been gone to before. -/
def landings : List Nat → List Visit → List Landing
  | _, [] => []
  | seen, v :: vs =>
    ⟨if v.number ∈ seen then v.offset else 0, v⟩ :: landings (v.number :: seen) vs

/-- What is stored, with the pages in blocks. -/
def Landing.patch (file : Buffer) (block : Nat → Nat) (l : Landing) : Patch Byte where
  start := block l.visit.number + l.offset
  length := l.visit.part.2
  value i := file.bytes (l.visit.part.1.toNat + i)

section
variable {seen : List Nat} {vs : List Visit} {v : Visit} {l l' : Landing}

theorem visit_landings (seen : List Nat) (vs : List Visit) :
    (landings seen vs).map Landing.visit = vs := by
  induction vs generalizing seen with
  | nil => rfl
  | cons v vs ih => exact congrArg (v :: ·) (ih _)

theorem mem_of_landings (h : l ∈ landings seen vs) : l.visit ∈ vs := by
  have hmem := List.mem_map_of_mem (f := Landing.visit) h
  rwa [visit_landings] at hmem

theorem landing_of_mem (seen : List Nat) (hv : v ∈ vs) : ∃ l ∈ landings seen vs, l.visit = v := by
  rw [← visit_landings seen vs] at hv
  exact List.mem_map.mp hv

theorem Visit.offset_lt (v : Visit) : v.offset < 4096 := by
  unfold Visit.offset
  rw [pageOffset_toNat]
  exact Nat.mod_lt _ (by decide)

/-- A part is put at the start of the page, or at the place of the address. -/
theorem offset_of_landings (h : l ∈ landings seen vs) :
    l.offset = 0 ∨ l.offset = l.visit.offset := by
  induction vs generalizing seen with
  | nil => cases h
  | cons v vs ih =>
    rcases List.mem_cons.mp h with rfl | h
    · dsimp only
      split
      · exact .inr rfl
      · exact .inl rfl
    · exact ih h

/-- It is the latter in a page that has been gone to. -/
theorem offset_of_seen (h : l ∈ landings seen vs) (hseen : l.visit.number ∈ seen) :
    l.offset = l.visit.offset := by
  induction vs generalizing seen with
  | nil => cases h
  | cons v vs ih =>
    rcases List.mem_cons.mp h with rfl | h
    · exact if_pos hseen
    · exact ih h (List.mem_cons_of_mem _ hseen)

theorem pairwise_landings (seen : List Nat) (vs : List Visit) : (landings seen vs).Pairwise
    fun l l' => l'.visit.number = l.visit.number → l'.offset = l'.visit.offset := by
  induction vs generalizing seen with
  | nil => exact .nil
  | cons v vs ih =>
    refine .cons (fun l' hl' hnumber => offset_of_seen hl' ?_) (ih _)
    exact hnumber ▸ List.mem_cons_self ..

/-- Of two landings in a page, one is at the place of its address. -/
theorem offset_or (h : l ∈ landings [] vs) (h' : l' ∈ landings [] vs)
    (hnumber : l'.visit.number = l.visit.number) (hne : l ≠ l') :
    l.offset = l.visit.offset ∨ l'.offset = l'.visit.offset := by
  let Other (l l' : Landing) : Prop := l'.visit.number = l.visit.number →
    l.offset = l.visit.offset ∨ l'.offset = l'.visit.offset
  have hpairs : (landings [] vs).Pairwise Other :=
    (pairwise_landings [] vs).imp fun hoffset hnumber => .inr (hoffset hnumber)
  have hsymm : Std.Symm Other := ⟨fun _ _ hoffset hnumber => (hoffset hnumber.symm).symm⟩
  exact hpairs.forall h h' hne hnumber

end

/-! ## Runs of a space -/

/-- No two pages are in one block, and no block is left that has a page. -/
structure Space.Distinct (s : Space) : Prop where
  once : (s.blocks.filter Option.isSome).Nodup
  taken : ∀ number placement, s.place number = some placement → some placement.page ∉ s.blocks
  place : ∀ number number' placement placement', s.place number = some placement →
    s.place number' = some placement' → placement.page = placement'.page → number = number'

section
variable {s s' s₁ : Space} {file : Buffer} {v : Visit} {vs : List Visit} {address : Word}
  {seen : List Nat} {block : Nat → Nat}

theorem Space.Finds.distinct (h : s.Finds v address s₁) (hdistinct : s.Distinct) : s₁.Distinct := by
  cases h with
  | again => exact hdistinct
  | first hnone hblocks =>
    rename_i blocks
    have honce := hdistinct.once
    rw [hblocks, List.filter_cons_of_pos rfl] at honce
    obtain ⟨hnew, honce⟩ := List.nodup_cons.mp honce
    have hleft : some address ∉ blocks := fun hmem => hnew (List.mem_filter.mpr ⟨hmem, rfl⟩)
    have hother {number placement} (hplace : s.place number = some placement) :
        placement.page ≠ address := by
      rintro rfl
      exact hdistinct.taken _ _ hplace (hblocks ▸ List.mem_cons_self ..)
    refine ⟨honce, fun number placement hplace hmem => ?_, ?_⟩
    · dsimp only at hplace hmem
      by_cases hnumber : number = v.number
      · rw [hnumber, Function.update_self] at hplace
        cases hplace
        exact hleft hmem
      · rw [Function.update_of_ne hnumber] at hplace
        exact hdistinct.taken _ _ hplace (hblocks ▸ List.mem_cons_of_mem _ hmem)
    · intro number number' placement placement' hplace hplace' hpage
      dsimp only at hplace hplace'
      by_cases hnumber : number = v.number <;> by_cases hnumber' : number' = v.number
      · rw [hnumber, hnumber']
      · rw [hnumber, Function.update_self] at hplace
        rw [Function.update_of_ne hnumber'] at hplace'
        cases hplace
        exact absurd hpage.symm (hother hplace')
      · rw [Function.update_of_ne hnumber] at hplace
        rw [hnumber', Function.update_self] at hplace'
        cases hplace'
        exact absurd hpage (hother hplace)
      · rw [Function.update_of_ne hnumber] at hplace
        rw [Function.update_of_ne hnumber'] at hplace'
        exact hdistinct.place _ _ _ _ hplace hplace' hpage

theorem Space.VisitsAll.distinct (h : s.VisitsAll file vs s') (hdistinct : s.Distinct) :
    s'.Distinct := by
  induction h with
  | nil => exact hdistinct
  | cons hvisits _ ih =>
    obtain ⟨address, s₁, hfinds, -, rfl⟩ := hvisits
    have h₁ := hfinds.distinct hdistinct
    exact ih ⟨h₁.once, h₁.taken, h₁.place⟩

/-- What a run leaves in memory. -/
theorem Space.VisitsAll.stores (h : s.VisitsAll file vs s')
    (haligned : s.Uses fun page => page.toNat % 4096 = 0)
    (hseen : ∀ number, number ∈ seen ↔ s.place number ≠ none)
    (hblock : ∀ number placement, s'.place number = some placement →
      placement.page.toNat = block number) :
    s'.bytes = storeAll ((landings seen vs).map (Landing.patch file block)) s.bytes := by
  induction h generalizing seen with
  | nil => rfl
  | cons hvisits hrest ih =>
    rename_i s s₂ s' v vs
    have haligned₂ := hvisits.uses haligned
    obtain ⟨address, s₁, hfinds, -, rfl⟩ := hvisits
    have hseen₁ : ∀ number, number ∈ v.number :: seen ↔ s₁.place number ≠ none := by
      intro number
      rw [List.mem_cons, hseen]
      constructor
      · rintro (rfl | hplace)
        · exact hfinds.place.2
        · obtain ⟨placement, hplace⟩ := Option.ne_none_iff_exists'.mp hplace
          exact fun hnone => nomatch (hfinds.place.1 _ _ hplace).symm.trans hnone
      · exact fun hplace => (hfinds.place_or hplace).symm
    have hstart : address.toNat = block v.number + if v.number ∈ seen then v.offset else 0 := by
      cases hfinds with
      | again hplace =>
        rename_i placement
        have hmem : v.number ∈ seen := (hseen _).mpr fun hnone => nomatch hplace.symm.trans hnone
        have hpage := hblock _ _ (hrest.stays hplace)
        rw [if_pos hmem, (add_offset_toNat (haligned.place _ _ hplace) (.inr rfl)).1, hpage]
        rfl
      | first hnone hblocks =>
        have hmem : v.number ∉ seen := fun hmem => (hseen _).mp hmem hnone
        have hpage := hblock _ _ (hrest.stays (Function.update_self ..))
        rw [if_neg hmem]
        exact hpage
    refine (ih haligned₂ hseen₁ hblock).trans (congrArg (storeAll _) ?_)
    have hbytes : s₁.bytes = s.bytes := by cases hfinds <;> rfl
    unfold Space.put
    dsimp only
    rw [hbytes, hstart]
    rfl

end

end ZOs.ProcessMemory
