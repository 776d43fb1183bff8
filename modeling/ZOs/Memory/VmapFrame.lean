import ZOs.Memory.VmapPage

/-!
# Memory and the tables

Mapping changes memory in pages of tables only, and takes pages for tables
from `alloc_page` only. In the other direction, what happens in the rest of
memory does not show in the tables.
-/

namespace ZOs.Paging

open Attempt

/-! ## What mapping changes -/

/-- What a mapping function changed: pages it was given are tables now, and
memory differs in pages of tables and in words it stored to. -/
structure Recorded (v v' : Vmap) : Prop where
  answers : v'.answers <:+ v.answers
  obtained : v.obtained ⊆ v'.obtained
  source : ∀ page ∈ v'.obtained, page ∈ v.obtained ∨ page ∈ v.answers
  memory : ∃ more, v'.stored = more ++ v.stored ∧
    ∀ address, address ∉ more → (∀ page ∈ v'.obtained, ¬ InPage page address) →
      v'.memory address = v.memory address

section
variable {v v' v'' : Vmap}

theorem Recorded.refl (v : Vmap) : Recorded v v where
  answers := List.suffix_refl _
  obtained := List.Subset.refl _
  source _ hpage := .inl hpage
  memory := ⟨[], rfl, fun _ _ _ => rfl⟩

theorem Recorded.trans (h : Recorded v v') (h' : Recorded v' v'') : Recorded v v'' where
  answers := h'.answers.trans h.answers
  obtained := List.Subset.trans h.obtained h'.obtained
  source := by
    intro page hpage
    rcases h'.source page hpage with hold | hnew
    · exact h.source page hold
    · exact .inr (h.answers.subset hnew)
  memory := by
    obtain ⟨more, hstored, hsame⟩ := h.memory
    obtain ⟨more', hstored', hsame'⟩ := h'.memory
    refine ⟨more' ++ more, by rw [hstored', hstored, List.append_assoc], ?_⟩
    intro address hnot hout
    rw [List.mem_append, not_or] at hnot
    rw [hsame' address hnot.1 hout]
    exact hsame address hnot.2 fun page hpage => hout page (h'.obtained hpage)

theorem Recorded.bind {α β : Type} {x : Attempt Vmap α} {f : α → Attempt Vmap β}
    (hx : Moves Recorded x) (hf : ∀ a, Moves Recorded (f a)) : Moves Recorded (x >>= f) :=
  moves_bind (R := Recorded) Recorded.trans hx hf

theorem recorded_allocPage : Moves Recorded allocPage := by
  intro v
  unfold allocPage
  cases hans : v.answers with
  | nil => exact Recorded.refl v
  | cons page rest =>
    dsimp only
    split
    · refine ⟨?_, List.Subset.refl _, fun _ hpage => .inl hpage, ⟨[], rfl, fun _ _ _ => rfl⟩⟩
      rw [hans]
      exact List.suffix_cons _ _
    · refine ⟨?_, List.subset_cons_self _ _, ?_, [], rfl, ?_⟩
      · rw [hans]
        exact List.suffix_cons _ _
      · intro p hp
        rcases List.mem_cons.mp hp with rfl | hp
        · exact .inr (hans ▸ List.mem_cons_self)
        · exact .inl hp
      · intro address _ hout
        exact if_neg (hout page List.mem_cons_self)

theorem recorded_storeEntry (table index entry : Word) :
    Moves Recorded (storeEntry table index entry) := by
  intro v
  refine ⟨List.suffix_refl _, List.Subset.refl _, fun _ hpage => .inl hpage, ?_⟩
  refine ⟨[entryAddress table index], rfl, fun address hnot _ => ?_⟩
  exact Function.update_of_ne (fun heq => hnot (List.mem_singleton.mpr heq)) ..

theorem recorded_loadEntry (table index : Word) : Moves Recorded (loadEntry table index) :=
  moves_read Recorded.refl _

theorem recorded_rootTable : Moves Recorded rootTable := by
  unfold rootTable
  apply Recorded.bind (moves_read Recorded.refl _)
  intro root
  apply moves_ite _ (moves_read Recorded.refl _)
  apply Recorded.bind recorded_allocPage
  intro page
  apply moves_ite (moves_giveUp Recorded.refl)
  apply Recorded.bind _ fun _ => moves_read Recorded.refl _
  exact fun v => ⟨List.suffix_refl _, List.Subset.refl _, fun _ hpage => .inl hpage,
    ⟨[], rfl, fun _ _ _ => rfl⟩⟩

theorem recorded_entryOrNewTable (table index : Word) :
    Moves Recorded (entryOrNewTable table index) := by
  unfold entryOrNewTable
  apply Recorded.bind (recorded_loadEntry table index)
  intro entry
  apply moves_ite _ (moves_pure Recorded.refl _)
  apply Recorded.bind recorded_allocPage
  intro page
  apply moves_ite (moves_giveUp Recorded.refl)
  apply Recorded.bind (recorded_storeEntry table index _)
  exact fun _ => recorded_loadEntry table index

theorem recorded_vmapMapPage (physicalAddress virtualAddress pageFlags : Word) :
    Moves Recorded (vmapMapPage physicalAddress virtualAddress pageFlags) := by
  unfold vmapMapPage
  apply Recorded.bind recorded_rootTable
  intro root
  apply Recorded.bind (recorded_entryOrNewTable _ _)
  intro l0Entry
  apply Recorded.bind (recorded_entryOrNewTable _ _)
  intro l1Entry
  apply Recorded.bind (recorded_entryOrNewTable _ _)
  exact fun _ => recorded_storeEntry _ _ _

/-- Memory outside the tables is left alone. -/
theorem Recorded.outside (h : Recorded v v') (hkept : Kept v v') {address : Nat}
    (hout : ∀ page ∈ v'.obtained, ¬ InPage page address) :
    v'.memory address = v.memory address := by
  obtain ⟨more, hstored, hsame⟩ := h.memory
  obtain ⟨more', hstored', hin⟩ := hkept.stored
  rw [hstored, List.append_left_inj] at hstored'
  apply hsame address _ hout
  intro hmem
  obtain ⟨page, hpage, haddress⟩ := hin address (hstored' ▸ hmem)
  exact hout page hpage haddress

/-! ## What happens outside the tables -/

/-- The tables are the same, whatever the rest of memory is. -/
structure SameTables (v v' : Vmap) : Prop where
  root : v'.rootPageTable = v.rootPageTable
  obtained : v'.obtained = v.obtained
  memory : ∀ page ∈ v.obtained, ∀ address, InPage page address →
    v'.memory address = v.memory address

theorem SameTables.walk (h : SameTables v v') (hwf : WellFormed v) (is : List Index) :
    v'.walk is = v.walk is := by
  unfold Vmap.walk
  rw [h.root]
  split
  · rfl
  · rename_i hroot
    apply TableTree.walk_congr
    intro r t j ht _
    exact h.memory t (hwf.reached ((Vmap.reached_iff hroot).mpr ht)) _ (inPage_slot t j)

theorem SameTables.wellFormed (h : SameTables v v') (hwf : WellFormed v)
    (hanswers : FreshAnswers v') : WellFormed v' where
  distinct hp hq := by
    unfold Vmap.Reached at hp hq
    rw [h.walk hwf] at hp hq
    exact hwf.distinct hp hq
  reached hp := by
    unfold Vmap.Reached at hp
    rw [h.walk hwf] at hp
    rw [h.obtained]
    exact hwf.reached hp
  page hpage := hwf.page (h.obtained ▸ hpage)
  answers := hanswers

theorem SameTables.translate (h : SameTables v v') (hwf : WellFormed v) (x : Word) :
    v'.vmapVirtualToPhysical x = v.vmapVirtualToPhysical x := by
  rw [vmapVirtualToPhysical_eq, vmapVirtualToPhysical_eq, h.walk hwf]

theorem SameTables.pagesOnly (h : SameTables v v') (hwf : WellFormed v) (hpages : PagesOnly v) :
    PagesOnly v' := by
  intro x ⟨d, e, hwalk, hd⟩
  rw [h.walk hwf] at hwalk
  exact hpages x ⟨d, e, hwalk, hd⟩

end

end ZOs.Paging
