import ZOs.Lib.Lockstep
import ZOs.Memory.VmapFrame

/-!
# Mapping in two memories

The tables are all that mapping looks at, and what it writes it writes
whatever was there before. In two memories with the same tables it therefore
does the same (`Twins.vmapMapPage`).
-/

namespace ZOs.Paging

open Attempt TableTree

/-- The same tables in two memories, which agree in the words of `A` besides. -/
structure Twins (A : Nat → Prop) (v w : Vmap) : Prop extends SameTables v w where
  answers : w.answers = v.answers
  stored : w.stored = v.stored
  agree : ∀ c, A c → w.memory c = v.memory c

section
variable {A : Nat → Prop} {v w : Vmap}
  {table idx entry physicalAddress virtualAddress pageFlags : Word}

/-- A page that is cleared is the same page in both. -/
theorem Twins.takePage (h : Twins A v w) (page : Word) (rest : List Word) :
    Twins A (v.takePage page rest) (w.takePage page rest) where
  root := h.root
  obtained := congrArg (page :: ·) h.obtained
  memory p hp c hin := by
    by_cases hpage : InPage page c
    · -- it has been cleared, so nothing is left of what it held
      exact (if_pos hpage).trans (if_pos hpage).symm
    · rcases List.mem_cons.mp hp with rfl | hold
      · exact absurd hin hpage
      · exact if_congr Iff.rfl rfl (h.memory p hold c hin)
  answers := rfl
  stored := h.stored
  agree c hc := if_congr Iff.rfl rfl (h.agree c hc)

theorem Twins.allocPage (h : Twins A v w) : Follows (Twins A) allocPage v w := by
  have hanswers := h.answers
  cases hgiven : v.answers with
  | nil =>
    rw [hgiven] at hanswers
    refine follows_of_ends (r := some 0) ?_ ?_ h
    · unfold Paging.allocPage
      rw [hgiven]
    · unfold Paging.allocPage
      rw [hanswers]
  | cons page rest =>
    rw [hgiven] at hanswers
    by_cases hzero : page = 0
    · have hrest : Twins A { v with answers := rest } { w with answers := rest } :=
        ⟨⟨h.root, h.obtained, h.memory⟩, rfl, h.stored, h.agree⟩
      refine follows_of_ends (r := some 0) ?_ ?_ hrest
      · unfold Paging.allocPage
        rw [hgiven]
        exact if_pos hzero
      · unfold Paging.allocPage
        rw [hanswers]
        exact if_pos hzero
    · refine follows_of_ends (r := some page) ?_ ?_ (h.takePage page rest)
      · unfold Paging.allocPage
        rw [hgiven]
        exact if_neg hzero
      · unfold Paging.allocPage
        rw [hanswers]
        exact if_neg hzero

theorem update_congr {f g : Nat → Word} {a c : Nat} (h : g c = f c) :
    Function.update g a entry c = Function.update f a entry c := by
  by_cases hc : c = a
  · subst hc
    rw [Function.update_self, Function.update_self]
  · rw [Function.update_of_ne hc, Function.update_of_ne hc, h]

theorem Twins.store (h : Twins A v w) :
    Twins A (v.store table idx entry) (w.store table idx entry) where
  root := h.root
  obtained := h.obtained
  memory p hp c hin := update_congr (h.memory p hp c hin)
  answers := h.answers
  stored := congrArg (entryAddress table idx :: ·) h.stored
  agree c hc := update_congr (h.agree c hc)

theorem Twins.storeEntry (h : Twins A v w) :
    Follows (Twins A) (storeEntry table idx entry) v w := follows_modify h.store

theorem Twins.loadEntry (h : Twins A v w) (htable : table ∈ v.obtained) (hidx : idx.toNat < 512) :
    Follows (Twins A) (loadEntry table idx) v w :=
  follows_read h (h.memory table htable _ ⟨by unfold entryAddress; omega, by
    unfold entryAddress; omega⟩)

theorem Twins.rootTable (h : Twins A v w) : Follows (Twins A) rootTable v w := by
  refine (follows_read h h.root).bind fun root v₀ w₀ hread h₀ => ?_
  cases hread
  refine .ite (fun hroot => h₀.allocPage.bind fun page v₁ w₁ hcall h₁ => ?_)
    fun hroot => follows_read h₀ h₀.root
  refine .ite (fun _ => follows_giveUp h₁) fun _ => ?_
  refine (follows_modify ?_).bind fun _ v₂ w₂ _ h₂ => follows_read h₂ h₂.root
  exact ⟨⟨rfl, h₁.obtained, h₁.memory⟩, h₁.answers, h₁.stored, h₁.agree⟩

theorem Twins.entryOrNewTable (h : Twins A v w) (htable : table ∈ v.obtained)
    (hidx : idx.toNat < 512) : Follows (Twins A) (entryOrNewTable table idx) v w := by
  refine (h.loadEntry htable hidx).bind fun entry v₀ w₀ hread h₀ => ?_
  cases hread
  refine .ite (fun _ => h₀.allocPage.bind fun page v₁ w₁ hcall h₁ => ?_)
    fun _ => follows_pure h₀
  refine .ite (fun _ => follows_giveUp h₁) fun _ => ?_
  -- the entry is read back, from a table that is still one
  refine h₁.storeEntry.bind fun _ v₂ w₂ hstore h₂ => h₂.loadEntry ?_ hidx
  cases hstore
  have hrecorded := recorded_allocPage v
  rw [hcall] at hrecorded
  exact hrecorded.obtained htable

/-- One level of the way down, in both. -/
theorem Twins.wayDown {t : Word} {p : List Index} {i : Index} (h : Twins A v w)
    (hwf : WellFormed v) (ht : v.Reached t p) (hidx : idx.toNat = i.val) :
    Follows (Twins A) (Paging.entryOrNewTable t idx) v w :=
  h.entryOrNewTable (hwf.reached ht) (hidx ▸ i.isLt)

/-- `vmap_map_page` does the same in both. -/
theorem Twins.vmapMapPage (h : Twins A v w) (hwf : WellFormed v)
    (hnot : ¬Covered v virtualAddress) :
    Follows (Twins A) (vmapMapPage physicalAddress virtualAddress pageFlags) v w := by
  unfold Paging.vmapMapPage
  refine h.rootTable.bind fun root v₀ w₀ hcall h₀ => ?_
  obtain ⟨hgrew₀, hroot⟩ := (rootTable_spec hwf).returned hcall
  have hnot₀ := hgrew₀.covered_iff.not.mpr hnot
  have hidx := l0Index_toNat virtualAddress
  refine (h₀.wayDown hgrew₀.wellFormed hroot hidx).bind fun l0Entry v₁ w₁ hcall h₁ => ?_
  obtain ⟨hgrew₁, hl0⟩ :=
    (wayDown_spec hgrew₀.wellFormed hnot₀ hroot rfl (by simp) hidx).returned hcall
  have hnot₁ := hgrew₁.covered_iff.not.mpr hnot₀
  have hidx := l1Index_toNat virtualAddress
  refine (h₁.wayDown hgrew₁.wellFormed hl0 hidx).bind fun l1Entry v₂ w₂ hcall h₂ => ?_
  obtain ⟨hgrew₂, hl1⟩ :=
    (wayDown_spec hgrew₁.wellFormed hnot₁ hl0 rfl (by simp) hidx).returned hcall
  have hidx := l2Index_toNat virtualAddress
  refine (h₂.wayDown hgrew₂.wellFormed hl1 hidx).bind fun l2Entry v₃ w₃ hcall h₃ => ?_
  exact h₃.storeEntry

end

end ZOs.Paging
