import ZOs.Memory.MmapInit
import ZOs.Memory.VmapFrame

/-!
# What a mapping call leaves alone

`Frame` says what every mapping call keeps, whether it returns 0 or -1: the
tree, memory outside of it, and the 1 GiB blocks in it. The two halves of
the kernel's address space are two trees in one memory; a call works on one
of them, and the pages of the other are not among those it writes to.
-/

namespace ZOs.Paging

open TableTree Attempt

/-! ## Frames -/

/-- What a call of a mapping function keeps. -/
structure Frame (v v' : Vmap) : Prop where
  kept : Kept v v'
  recorded : Recorded v v'
  root : RootKept v v'
  blocks : ∀ {x e}, v.walk (path x) = .leaf 1 e → v'.walk (path x) = .leaf 1 e

section
variable {v v' v'' : Vmap} {x e physicalAddress virtualAddress pageFlags : Word} {fuel : Nat}
  {o : Option Unit} {b : Block}

theorem Frame.refl (h : WellFormed v) : Frame v v where
  kept := (Grew.refl h).toKept
  recorded := Recorded.refl v
  root := RootKept.refl v
  blocks := id

theorem Frame.trans (h : Frame v v') (h' : Frame v' v'') : Frame v v'' where
  kept := h.kept.trans h'.kept
  recorded := h.recorded.trans h'.recorded
  root := h.root.trans h'.root
  blocks hwalk := h'.blocks (h.blocks hwalk)

/-- Adding tables moves no block. -/
theorem Frame.of_grew (h : Grew v v') (hrecorded : Recorded v v') (hroot : RootKept v v') :
    Frame v v' where
  kept := h.toKept
  recorded := hrecorded
  root := hroot
  blocks hwalk := (h.address _).trans hwalk

/-- A page beside the blocks moves none of them. -/
theorem frame_vmapMapPage (physicalAddress pageFlags : Word) (h : WellFormed v)
    (hnot : ¬ Covered v virtualAddress) :
    Frame v (vmapMapPage physicalAddress virtualAddress pageFlags v).2 := by
  have hrecorded := recorded_vmapMapPage physicalAddress virtualAddress pageFlags v
  have hroot := rootKept_vmapMapPage physicalAddress virtualAddress pageFlags v
  have hspec := vmapMapPage_spec physicalAddress pageFlags h hnot
  rcases hcall : vmapMapPage physicalAddress virtualAddress pageFlags v with ⟨_ | _, v'⟩
  · rw [hcall] at hrecorded hroot
    exact .of_grew (hspec.gaveUp hcall) hrecorded hroot
  · rw [hcall] at hrecorded hroot
    have hent := hspec.returned hcall
    refine ⟨hent.toKept, hrecorded, hroot, fun {x e} hwalk => ?_⟩
    rw [hent.there, hwalk]
    intro hpre
    have hpath : path virtualAddress = path x := List.IsPrefix.eq_of_length hpre rfl
    exact hnot ⟨1, e, by rw [hpath, hwalk], by decide⟩

/-- What the steps of the block functions keep, the functions keep. -/
theorem moves_blockMap {R : Vmap → Vmap → Prop} (hrefl : ∀ v, R v v)
    (htrans : ∀ {v v' v''}, R v v' → R v' v'' → R v v'') (hroot : Moves R rootTable)
    (hentry : ∀ table index, Moves R (entryOrNewTable table index))
    (hstore : ∀ table index entry, Moves R (storeEntry table index entry)) (b : Block)
    (virtualAddress physicalAddress pageFlags : Word) :
    Moves R (b.map virtualAddress physicalAddress pageFlags) := by
  have hgiveUp : Moves R (giveUp : Attempt Vmap Unit) := moves_giveUp hrefl
  have hbind : ∀ {α : Type} {a : Attempt Vmap α} {f : α → Attempt Vmap Unit}, Moves R a →
      (∀ x, Moves R (f x)) → Moves R (a >>= f) := fun ha hf => moves_bind (R := R) htrans ha hf
  have hfill : ∀ table index entry, Moves R (fillSlot table index entry) := by
    intro table index entry
    unfold fillSlot
    apply hbind (moves_read hrefl _)
    intro old
    exact moves_ite (hstore table index entry) hgiveUp
  cases b with
  | l1 =>
    show Moves R (vmapMapL1Block _ _ _)
    unfold vmapMapL1Block
    apply moves_ite hgiveUp
    apply moves_ite hgiveUp
    apply hbind hroot
    intro root
    apply hbind (hentry _ _)
    intro l0Entry
    exact moves_ite hgiveUp (hfill _ _ _)
  | l2 =>
    show Moves R (vmapMapL2Block _ _ _)
    unfold vmapMapL2Block
    apply moves_ite hgiveUp
    apply moves_ite hgiveUp
    apply hbind hroot
    intro root
    apply hbind (hentry _ _)
    intro l0Entry
    apply moves_ite hgiveUp
    apply hbind (hentry _ _)
    intro l1Entry
    exact moves_ite hgiveUp (hfill _ _ _)

/-- A block is entered where nothing was, so it replaces no block. -/
theorem frame_blockMap (b : Block) (virtualAddress physicalAddress : Word) (h : WellFormed v)
    (hflags : pageFlags &&& tblEntryTable = 0) :
    Frame v (b.map virtualAddress physicalAddress pageFlags v).2 := by
  have hrecorded := moves_blockMap Recorded.refl Recorded.trans recorded_rootTable
    recorded_entryOrNewTable recorded_storeEntry b virtualAddress physicalAddress pageFlags v
  have hroot := moves_blockMap RootKept.refl RootKept.trans rootKept_rootTable
    rootKept_entryOrNewTable (fun _ _ _ _ _ => rfl) b virtualAddress physicalAddress pageFlags v
  have hspec := Block.map_spec (b := b) virtualAddress physicalAddress h hflags
  rcases hcall : b.map virtualAddress physicalAddress pageFlags v with ⟨_ | _, v'⟩
  · rw [hcall] at hrecorded hroot
    exact .of_grew (hspec.gaveUp hcall) hrecorded hroot
  · rw [hcall] at hrecorded hroot
    obtain ⟨hent, hfault⟩ := hspec.returned hcall
    refine ⟨hent.toKept, hrecorded, hroot, fun {x e} hwalk => ?_⟩
    rw [hent.there, hwalk]
    intro ⟨q, hq⟩
    rw [← hq, v.walk_fault_append hfault] at hwalk
    cases hwalk

/-! ## Ranges -/

theorem frame_vmapMapRange (h : WellFormed v)
    (hclear : RangeClear fuel virtualAddress x physicalAddress pageFlags v)
    (hcall : vmapMapRange fuel virtualAddress x physicalAddress pageFlags v = some (o, v')) :
    Frame v v' := by
  induction fuel generalizing virtualAddress physicalAddress v with
  | zero => cases hcall
  | succ fuel ih =>
    by_cases hlt : virtualAddress < x
    · obtain ⟨hnot, hrest⟩ := hclear hlt
      have hframe := frame_vmapMapPage physicalAddress pageFlags h hnot
      rcases hpage : vmapMapPage physicalAddress virtualAddress pageFlags v with ⟨_ | _, v₁⟩
      · rw [hpage] at hframe
        rw [vmapMapRange_failed hlt hpage] at hcall
        obtain ⟨-, rfl⟩ := Prod.mk.inj (Option.some.inj hcall)
        exact hframe
      · rw [hpage] at hframe
        rw [vmapMapRange_next hlt hpage] at hcall
        exact hframe.trans (ih hframe.kept.wellFormed (hrest v₁ hpage) hcall)
    · rw [vmapMapRange_end hlt] at hcall
      obtain ⟨-, rfl⟩ := Prod.mk.inj (Option.some.inj hcall)
      exact .refl h

theorem frame_blockMapRange (h : WellFormed v) (hflags : pageFlags &&& tblEntryTable = 0)
    (hcall : b.mapRange fuel virtualAddress x physicalAddress pageFlags v = some (o, v')) :
    Frame v v' := by
  induction fuel generalizing virtualAddress physicalAddress v with
  | zero => cases hcall
  | succ fuel ih =>
    rw [Block.mapRange] at hcall
    by_cases hlt : virtualAddress < x
    · rw [if_pos hlt] at hcall
      have hframe := frame_blockMap b virtualAddress physicalAddress h hflags
      rcases hone : b.map virtualAddress physicalAddress pageFlags v with ⟨_ | _, v₁⟩
      · rw [hone] at hframe hcall
        obtain ⟨-, rfl⟩ := Prod.mk.inj (Option.some.inj hcall)
        exact hframe
      · rw [hone] at hframe hcall
        exact hframe.trans (ih hframe.kept.wellFormed hcall)
    · rw [if_neg hlt] at hcall
      obtain ⟨-, rfl⟩ := Prod.mk.inj (Option.some.inj hcall)
      exact .refl h

end

/-! ## The pages of one tree -/

/-- The same tables, with other pages counted as obtained. -/
def Vmap.owning (v : Vmap) (pages : List Word) : Vmap := { v with obtained := pages }

/-- What a computation does does not depend on the pages counted as
obtained. -/
def Blind {α : Type} (a : Attempt Vmap α) : Prop :=
  ∀ v pages, ∃ pages', a (v.owning pages) = ((a v).1, (a v).2.owning pages')

section
variable {v v' : Vmap} {α β : Type} {a : Attempt Vmap α} {virtualAddress physicalAddress pageFlags
  finish : Word} {fuel : Nat} {o : Option Unit} {b : Block}

theorem blind_giveUp : Blind (giveUp : Attempt Vmap α) := fun _ pages => ⟨pages, rfl⟩

theorem Blind.bind {f : α → Attempt Vmap β} (ha : Blind a) (hf : ∀ x, Blind (f x)) :
    Blind (a >>= f) := by
  intro v pages
  obtain ⟨pages₁, h₁⟩ := ha v pages
  rcases hav : a v with ⟨_ | x, v₁⟩
  · rw [hav] at h₁
    rw [bind_gaveUp h₁, bind_gaveUp hav]
    exact ⟨pages₁, rfl⟩
  · rw [hav] at h₁
    rw [bind_eq h₁, bind_eq hav]
    exact hf x v₁ pages₁

theorem Blind.ite {c : Prop} [Decidable c] {a' : Attempt Vmap α} (ha : Blind a) (ha' : Blind a') :
    Blind (if c then a else a') := by
  split
  · exact ha
  · exact ha'

theorem blind_loadEntry (table index : Word) : Blind (loadEntry table index) :=
  fun _ pages => ⟨pages, rfl⟩

theorem blind_storeEntry (table index entry : Word) : Blind (storeEntry table index entry) :=
  fun _ pages => ⟨pages, rfl⟩

theorem blind_allocPage : Blind allocPage := by
  intro v pages
  rcases hanswers : v.answers with _ | ⟨page, rest⟩
  · have howning : (v.owning pages).answers = [] := hanswers
    simp only [allocPage, hanswers, howning]
    exact ⟨pages, rfl⟩
  · have howning : (v.owning pages).answers = page :: rest := hanswers
    simp only [allocPage, hanswers, howning]
    split
    · exact ⟨pages, rfl⟩
    · exact ⟨page :: pages, rfl⟩

theorem blind_rootTable : Blind rootTable := by
  have hread : Blind (.read (·.rootPageTable)) := fun _ pages => ⟨pages, rfl⟩
  unfold rootTable
  apply Blind.bind hread
  intro root
  apply Blind.ite _ hread
  apply Blind.bind blind_allocPage
  intro page
  apply Blind.ite blind_giveUp
  exact Blind.bind (fun _ pages => ⟨pages, rfl⟩) fun _ => hread

theorem blind_entryOrNewTable (table index : Word) : Blind (entryOrNewTable table index) := by
  unfold entryOrNewTable
  apply Blind.bind (blind_loadEntry table index)
  intro entry
  apply Blind.ite _ fun _ pages => ⟨pages, rfl⟩
  apply Blind.bind blind_allocPage
  intro page
  apply Blind.ite blind_giveUp
  exact Blind.bind (blind_storeEntry _ _ _) fun _ => blind_loadEntry table index

theorem blind_vmapMapPage (physicalAddress virtualAddress pageFlags : Word) :
    Blind (vmapMapPage physicalAddress virtualAddress pageFlags) := by
  unfold vmapMapPage
  apply Blind.bind blind_rootTable
  intro root
  apply Blind.bind (blind_entryOrNewTable _ _)
  intro l0Entry
  apply Blind.bind (blind_entryOrNewTable _ _)
  intro l1Entry
  apply Blind.bind (blind_entryOrNewTable _ _)
  exact fun _ => blind_storeEntry _ _ _

theorem blind_fillSlot (table index entry : Word) : Blind (fillSlot table index entry) := by
  unfold fillSlot
  apply Blind.bind (blind_loadEntry table index)
  intro old
  exact Blind.ite (blind_storeEntry table index entry) blind_giveUp

theorem blind_blockMap (b : Block) (virtualAddress physicalAddress pageFlags : Word) :
    Blind (b.map virtualAddress physicalAddress pageFlags) := by
  cases b with
  | l1 =>
    show Blind (vmapMapL1Block _ _ _)
    unfold vmapMapL1Block
    apply Blind.ite blind_giveUp
    apply Blind.ite blind_giveUp
    apply Blind.bind blind_rootTable
    intro root
    apply Blind.bind (blind_entryOrNewTable _ _)
    intro l0Entry
    exact Blind.ite blind_giveUp (blind_fillSlot _ _ _)
  | l2 =>
    show Blind (vmapMapL2Block _ _ _)
    unfold vmapMapL2Block
    apply Blind.ite blind_giveUp
    apply Blind.ite blind_giveUp
    apply Blind.bind blind_rootTable
    intro root
    apply Blind.bind (blind_entryOrNewTable _ _)
    intro l0Entry
    apply Blind.ite blind_giveUp
    apply Blind.bind (blind_entryOrNewTable _ _)
    intro l1Entry
    exact Blind.ite blind_giveUp (blind_fillSlot _ _ _)

theorem Blind.returned {r : Option α} (ha : Blind a) (hcall : a v = (r, v')) (pages : List Word) :
    ∃ pages', a (v.owning pages) = (r, v'.owning pages') := by
  obtain ⟨pages', h⟩ := ha v pages
  rw [hcall] at h
  exact ⟨pages', h⟩

theorem vmapMapRange_owning (pages : List Word)
    (hcall : vmapMapRange fuel virtualAddress finish physicalAddress pageFlags v = some (o, v')) :
    ∃ pages', vmapMapRange fuel virtualAddress finish physicalAddress pageFlags
      (v.owning pages) = some (o, v'.owning pages') := by
  induction fuel generalizing virtualAddress physicalAddress v pages with
  | zero => cases hcall
  | succ fuel ih =>
    by_cases hlt : virtualAddress < finish
    · rcases hpage : vmapMapPage physicalAddress virtualAddress pageFlags v with ⟨_ | _, v₁⟩
      · rw [vmapMapRange_failed hlt hpage] at hcall
        obtain ⟨rfl, rfl⟩ := Prod.mk.inj (Option.some.inj hcall)
        obtain ⟨pages', h⟩ := (blind_vmapMapPage _ _ _).returned hpage pages
        exact ⟨pages', vmapMapRange_failed hlt h⟩
      · rw [vmapMapRange_next hlt hpage] at hcall
        obtain ⟨pages', h⟩ := (blind_vmapMapPage _ _ _).returned hpage pages
        rw [vmapMapRange_next hlt h]
        exact ih pages' hcall
    · rw [vmapMapRange_end hlt] at hcall ⊢
      obtain ⟨rfl, rfl⟩ := Prod.mk.inj (Option.some.inj hcall)
      exact ⟨pages, rfl⟩

theorem blockMapRange_owning (pages : List Word)
    (hcall : b.mapRange fuel virtualAddress finish physicalAddress pageFlags v = some (o, v')) :
    ∃ pages', b.mapRange fuel virtualAddress finish physicalAddress pageFlags
      (v.owning pages) = some (o, v'.owning pages') := by
  induction fuel generalizing virtualAddress physicalAddress v pages with
  | zero => cases hcall
  | succ fuel ih =>
    rw [Block.mapRange] at hcall ⊢
    by_cases hlt : virtualAddress < finish
    · rw [if_pos hlt] at hcall ⊢
      rcases hone : b.map virtualAddress physicalAddress pageFlags v with ⟨_ | _, v₁⟩
      · obtain ⟨pages', h⟩ := (blind_blockMap b _ _ _).returned hone pages
        rw [hone] at hcall
        obtain ⟨rfl, rfl⟩ := Prod.mk.inj (Option.some.inj hcall)
        rw [h]
        exact ⟨pages', rfl⟩
      · obtain ⟨pages', h⟩ := (blind_blockMap b _ _ _).returned hone pages
        rw [hone] at hcall
        rw [h]
        exact ih pages' hcall
    · rw [if_neg hlt] at hcall ⊢
      obtain ⟨rfl, rfl⟩ := Prod.mk.inj (Option.some.inj hcall)
      exact ⟨pages, rfl⟩

theorem RangeClear.owning (h : RangeClear fuel virtualAddress finish physicalAddress pageFlags v)
    (pages : List Word) :
    RangeClear fuel virtualAddress finish physicalAddress pageFlags (v.owning pages) := by
  induction fuel generalizing virtualAddress physicalAddress v pages with
  | zero => trivial
  | succ fuel ih =>
    intro hlt
    obtain ⟨hnot, hrest⟩ := h hlt
    refine ⟨hnot, fun v' hcall => ?_⟩
    rcases hpage : vmapMapPage physicalAddress virtualAddress pageFlags v with ⟨r, v₁⟩
    obtain ⟨pages', hown⟩ := (blind_vmapMapPage _ _ _).returned hpage pages
    rw [hown] at hcall
    obtain ⟨rfl, rfl⟩ := Prod.mk.inj hcall
    exact ih (hrest v₁ hpage) pages'

end

/-! ## The two halves -/

/-- The pages of the two trees: `own true` those of the upper half. Each is
a tree of its own pages, no page is in both, and both have roots. -/
structure Owned (s : Kernel) (own : Bool → List Word) : Prop where
  tree : ∀ x, WellFormed ((s.buildVmapTable x).owning (own (isUpper x)))
  apart : ∀ x y, isUpper x ≠ isUpper y → ∀ page ∈ own (isUpper x), page ∉ own (isUpper y)
  root : ∀ x, s.getTtbrTable x ≠ 0

section
variable {s s' : Kernel} {own : Bool → List Word} {v' : Vmap} {x y t page : Word}
  {pages' : List Word} {c : MapCall}

/-- A word is in one page at most. -/
theorem PageAddress.unique (ht : PageAddress t) (hp : PageAddress page) {address : Nat}
    (hin : InPage t address) (hin' : InPage page address) : t = page := by
  have hal := ht.aligned
  have hal' := hp.aligned
  obtain ⟨hlo, hhi⟩ := hin
  obtain ⟨hlo', hhi'⟩ := hin'
  apply BitVec.eq_of_toNat_eq
  omega

/-- A page of the other half is not among those a call has worked on. -/
theorem Owned.outside (h : Owned s own) (hxy : isUpper x ≠ isUpper y)
    (hframe : Frame ((s.buildVmapTable x).owning (own (isUpper x))) (v'.owning pages'))
    (hpage : page ∈ own (isUpper y)) : page ∉ pages' := by
  intro hin
  have hne := (hframe.kept.wellFormed.page hin).nonzero
  rcases hframe.recorded.source page hin with hold | hnew
  · exact h.apart x y hxy page hold hpage
  · exact ((h.tree y).answers.page page hnew hne).2 hpage

theorem Owned.sameTables (h : Owned s own) (hxy : isUpper x ≠ isUpper y)
    (hframe : Frame ((s.buildVmapTable x).owning (own (isUpper x))) (v'.owning pages')) :
    SameTables ((s.buildVmapTable y).owning (own (isUpper y)))
      (((s.keep v').buildVmapTable y).owning (own (isUpper y))) where
  root := rfl
  obtained := rfl
  memory page hpage address hin := by
    apply hframe.recorded.outside hframe.kept
    intro other hother hin'
    have heq := ((h.tree y).page hpage).unique (hframe.kept.wellFormed.page hother) hin hin'
    exact h.outside hxy hframe hpage (heq ▸ hother)

/-- A call in one half, seen from both. -/
theorem Owned.keep (h : Owned s own)
    (hframe : Frame ((s.buildVmapTable x).owning (own (isUpper x))) (v'.owning pages')) :
    Owned (s.keep v') (Function.update own (isUpper x) pages') ∧
      ∀ y e, (s.buildVmapTable y).walk (path y) = .leaf 1 e →
        ((s.keep v').buildVmapTable y).walk (path y) = .leaf 1 e := by
  have hroot : v'.rootPageTable = s.getTtbrTable x := hframe.root (h.root x)
  have hhere : ∀ y, isUpper y = isUpper x → (s.keep v').buildVmapTable y = v' := by
    intro y hy
    rw [buildVmapTable_congr hy]
    exact buildVmapTable_keep hroot
  have hthere : ∀ {y}, isUpper y ≠ isUpper x →
      SameTables ((s.buildVmapTable y).owning (own (isUpper y)))
        (((s.keep v').buildVmapTable y).owning (own (isUpper y))) := fun hy =>
    h.sameTables hy.symm hframe
  have hanswers : ∀ y, FreshAnswers ((s.buildVmapTable y).owning (own (isUpper y))) →
      FreshAnswers (((s.keep v').buildVmapTable y).owning (own (isUpper y))) := by
    intro y hfresh
    have hsuffix : v'.answers <:+ s.answers := hframe.recorded.answers
    exact ⟨fun page hpage => hfresh.page page (hsuffix.subset hpage),
      hfresh.once.sublist (hsuffix.sublist.filter _)⟩
  refine ⟨⟨fun y => ?_, fun y z hyz page hpage => ?_, h.root⟩, fun y e hwalk => ?_⟩
  · by_cases hy : isUpper y = isUpper x
    · rw [hhere y hy, hy, Function.update_self]
      exact hframe.kept.wellFormed
    · rw [Function.update_of_ne hy]
      exact (hthere hy).wellFormed (h.tree y) (hanswers y (h.tree y).answers)
  · by_cases hy : isUpper y = isUpper x
    · have hz : isUpper z ≠ isUpper x := fun hz => hyz (hy.trans hz.symm)
      rw [hy, Function.update_self] at hpage
      rw [Function.update_of_ne hz]
      exact fun hin => h.outside hz.symm hframe hin hpage
    · rw [Function.update_of_ne hy] at hpage
      by_cases hz : isUpper z = isUpper x
      · rw [hz, Function.update_self]
        exact h.outside (fun hxy => hy hxy.symm) hframe hpage
      · rw [Function.update_of_ne hz]
        exact h.apart y z hyz page hpage
  · by_cases hy : isUpper y = isUpper x
    · rw [hhere y hy]
      rw [buildVmapTable_congr hy] at hwalk
      exact hframe.blocks hwalk
    · have hsame := (hthere hy).walk (h.tree y) (path y)
      exact hsame.trans hwalk

/-! ## The mapping calls -/

/-- Where the root exists, a call is the frame of what it does with it. -/
theorem Owned.publish (h : Owned s own) (root : Word) :
    (s.keep v').publish x root = s.keep v' :=
  publish_of_root (s := s.keep v') (h.root x) root

/-- An allowed call is a frame in the half it works on. -/
theorem MapCall.frame (h : Owned s own) (hallowed : c.Allowed s) (hreturns : c.Returns s s') :
    ∃ x v' pages', s' = s.keep v' ∧
      Frame ((s.buildVmapTable x).owning (own (isUpper x))) (v'.owning pages') := by
  cases c with
  | page physicalAddress virtualAddress pageFlags =>
    obtain ⟨r, hcall⟩ := hreturns
    rcases hpage : vmapMapPage physicalAddress virtualAddress pageFlags
      (s.buildVmapTable virtualAddress) with ⟨o, v'⟩
    rw [mmapMapPage_eq hpage] at hcall
    obtain ⟨-, rfl⟩ := Prod.mk.inj hcall
    obtain ⟨pages', hown⟩ := (blind_vmapMapPage _ _ _).returned hpage (own (isUpper virtualAddress))
    have hframe := frame_vmapMapPage physicalAddress pageFlags (h.tree virtualAddress) hallowed
    rw [hown] at hframe
    exact ⟨virtualAddress, v', pages', rfl, hframe⟩
  | range start finish physicalAddress pageFlags =>
    obtain ⟨fuel, r, hcall⟩ := hreturns
    have hclear := (hallowed fuel).owning (own (isUpper start))
    unfold mmapMapRange at hcall
    rcases hrange : vmapMapRange fuel start finish physicalAddress pageFlags
      (s.buildVmapTable start) with _ | ⟨_ | _, v'⟩
    · rw [hrange] at hcall
      cases hcall
    · rw [hrange] at hcall
      obtain ⟨-, rfl⟩ := Prod.mk.inj (Option.some.inj hcall)
      obtain ⟨pages', hown⟩ := vmapMapRange_owning (own (isUpper start)) hrange
      exact ⟨start, v', pages', rfl, frame_vmapMapRange (h.tree start) hclear hown⟩
    · rw [hrange] at hcall
      obtain ⟨-, rfl⟩ := Prod.mk.inj (Option.some.inj hcall)
      obtain ⟨pages', hown⟩ := vmapMapRange_owning (own (isUpper start)) hrange
      exact ⟨start, v', pages', h.publish _, frame_vmapMapRange (h.tree start) hclear hown⟩
  | block b virtualAddress physicalAddress pageFlags =>
    obtain ⟨r, hcall⟩ := hreturns
    have hframe := frame_blockMap b virtualAddress physicalAddress (h.tree virtualAddress) hallowed
    unfold mmapMapBlock at hcall
    rcases hone : b.map virtualAddress physicalAddress pageFlags
      (s.buildVmapTable virtualAddress) with ⟨_ | _, v'⟩
    · rw [hone] at hcall
      obtain ⟨-, rfl⟩ := Prod.mk.inj hcall
      obtain ⟨pages', hown⟩ := (blind_blockMap b _ _ _).returned hone (own (isUpper virtualAddress))
      rw [hown] at hframe
      exact ⟨virtualAddress, v', pages', rfl, hframe⟩
    · rw [hone] at hcall
      obtain ⟨-, rfl⟩ := Prod.mk.inj hcall
      obtain ⟨pages', hown⟩ := (blind_blockMap b _ _ _).returned hone (own (isUpper virtualAddress))
      rw [hown] at hframe
      exact ⟨virtualAddress, v', pages', h.publish _, hframe⟩
  | blockRange b start finish physicalAddress pageFlags =>
    obtain ⟨fuel, r, hcall⟩ := hreturns
    unfold mmapMapBlockRange at hcall
    rcases hrange : b.mapRange fuel start finish physicalAddress pageFlags
      (s.buildVmapTable start) with _ | ⟨_ | _, v'⟩
    · rw [hrange] at hcall
      cases hcall
    · rw [hrange] at hcall
      obtain ⟨-, rfl⟩ := Prod.mk.inj (Option.some.inj hcall)
      obtain ⟨pages', hown⟩ := blockMapRange_owning (own (isUpper start)) hrange
      exact ⟨start, v', pages', rfl, frame_blockMapRange (h.tree start) hallowed hown⟩
    · rw [hrange] at hcall
      obtain ⟨-, rfl⟩ := Prod.mk.inj (Option.some.inj hcall)
      obtain ⟨pages', hown⟩ := blockMapRange_owning (own (isUpper start)) hrange
      exact ⟨start, v', pages', h.publish _, frame_blockMapRange (h.tree start) hallowed hown⟩

end

end ZOs.Paging
