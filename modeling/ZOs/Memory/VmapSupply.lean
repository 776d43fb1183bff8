import Mathlib.Tactic.IntervalCases
import ZOs.Memory.VmapFrame

/-!
# When mapping gives up

`vmap_map_page` gives up when it needs a table and there is no page. How many
tables it needs is a fact about the tree: those that are `missing` on the way
down.
-/

namespace ZOs.Paging

open TableTree Attempt

/-- How many tables are missing on the way to the entry of a page. -/
def Vmap.missing (v : Vmap) (virtualAddress : Word) : Nat :=
  ((List.range 4).filter fun d => v.walk ((path virtualAddress).take d) = .fault).length

/-- One of the pages that are needed for tables will not be given. -/
def RunsOut (v : Vmap) (virtualAddress : Word) : Prop :=
  ∃ j < v.missing virtualAddress, v.answers.getD j 0 = 0

/-- A page has been taken for each table that is not missing any more. -/
structure Spent (v v' : Vmap) (virtualAddress : Word) : Prop where
  runsOut : RunsOut v' virtualAddress ↔ RunsOut v virtualAddress
  answers : v.answers.length + v'.missing virtualAddress =
    v'.answers.length + v.missing virtualAddress

section
variable {v v' v'' : Vmap} {t x page idx e physicalAddress virtualAddress pageFlags : Word}
  {p rest : List Index} {i : Index} {pages : List Word} {n : Nat}

theorem Spent.refl (v : Vmap) (x : Word) : Spent v v x := ⟨Iff.rfl, rfl⟩

theorem Spent.trans (h : Spent v v' x) (h' : Spent v' v'' x) : Spent v v'' x where
  runsOut := h'.runsOut.trans h.runsOut
  answers := by
    have hfirst := h.answers
    have hsecond := h'.answers
    omega

/-! ## Missing tables -/

/-- A table found along a path is found along all of its prefixes. -/
theorem Vmap.Reached.take (h : v.Reached t p) (d : Nat) : v.walk (p.take d) ≠ .fault := by
  have hwalk := h
  unfold Vmap.Reached at hwalk
  rw [← List.take_append_drop d p, v.walk_of_root h.root_ne] at hwalk
  obtain ⟨t₁, ht₁⟩ := walk_prefix hwalk
  rw [v.walk_of_root h.root_ne, ht₁]
  exact fun hfault => nomatch hfault

/-- How many depths from `n` on there are. -/
theorem length_filter_range {q : Nat → Bool} (hn : n ≤ 4) (hq : ∀ d < 4, q d = true ↔ n ≤ d) :
    ((List.range 4).filter q).length = 4 - n := by
  have hsame : (List.range 4).filter q = (List.range 4).filter fun d => decide (n ≤ d) := by
    apply List.filter_congr
    intro d hd
    rw [Bool.eq_iff_iff, hq d (List.mem_range.mp hd), decide_eq_true_iff]
  rw [hsame]
  interval_cases n <;> rfl

/-- Below a table whose entry is invalid, everything is missing. -/
theorem missing_of_fault {r : List Index} (ht : v.Reached t p) (hpath : path x = p ++ i :: r)
    (hp : p.length ≤ 3) (hfault : p.length < 3 → v.walk (p ++ [i]) = .fault) :
    v.missing x = 3 - p.length := by
  unfold Vmap.missing
  rw [length_filter_range (n := p.length + 1) (by omega)]
  · omega
  intro d hd
  rw [decide_eq_true_iff, hpath, List.take_append]
  constructor
  · intro hwalk
    by_contra hle
    rw [Nat.sub_eq_zero_of_le (by omega), List.take_zero, List.append_nil] at hwalk
    exact ht.take d hwalk
  · intro hle
    obtain ⟨m, hm⟩ := Nat.exists_eq_add_of_le hle
    have hsub : d - p.length = m + 1 := by omega
    rw [List.take_of_length_le (by omega), hsub, List.take_succ_cons, ← List.singleton_append,
      ← List.append_assoc]
    exact Vmap.walk_fault_append (hfault (by omega)) _

theorem missing_of_noRoot (h : v.rootPageTable = 0) : v.missing x = 4 := by
  unfold Vmap.missing
  rw [length_filter_range (n := 0) (Nat.zero_le 4)]
  intro d _
  rw [decide_eq_true_iff]
  exact iff_of_true (if_pos h) (Nat.zero_le d)

/-! ## Taking the pages one by one -/

theorem runsOut_of_head (hmissing : 0 < v.missing x) (hhead : v.answers.headD 0 = 0) :
    RunsOut v x := by
  refine ⟨0, hmissing, ?_⟩
  cases hans : v.answers with
  | nil => rfl
  | cons page pages =>
    rw [hans] at hhead
    exact hhead

/-- One page is taken, and one table less is missing. -/
theorem spent_step (hans : v.answers = page :: pages) (hpage : page ≠ 0)
    (hrest : v'.answers = pages) (hmissing : v.missing x = v'.missing x + 1) : Spent v v' x where
  runsOut := by
    unfold RunsOut
    rw [hans, hrest, hmissing]
    constructor
    · intro ⟨j, hj, hzero⟩
      exact ⟨j + 1, Nat.succ_lt_succ hj, hzero⟩
    · intro ⟨j, hj, hzero⟩
      cases j with
      | zero => exact absurd hzero hpage
      | succ j => exact ⟨j, Nat.lt_of_succ_lt_succ hj, hzero⟩
  answers := by
    rw [hans, hrest, hmissing, List.length_cons]
    omega

/-- What `alloc_page` does to what is left. -/
theorem tried_allocPage {F : Vmap → Prop} {P : Word → Vmap → Prop}
    (hnone : v.answers.headD 0 = 0 → ∀ v', P 0 v')
    (hsome : ∀ page pages, v.answers = page :: pages → page ≠ 0 →
      P page (v.takePage page pages)) : Tried allocPage v F P := by
  unfold Tried allocPage
  cases hans : v.answers with
  | nil => exact hnone (by rw [hans]; rfl) v
  | cons page pages =>
    dsimp only
    split
    · rename_i heq
      split at heq
      · rename_i hzero
        injection heq with hp hv
        injection hp with hp
        rw [← hp]
        exact hnone (by rw [hans]; exact hzero) _
      · rename_i hpage
        injection heq with hp hv
        injection hp with hp
        rw [← hp, ← hv]
        exact hsome page pages hans hpage
    · rename_i heq
      split at heq <;> cases heq

/-- Behind a new table the next entry is invalid. -/
theorem missing_newTable (h : WellFormed v) (ht : v.Reached t p)
    (hpath : path x = p ++ i :: rest) (hp : p.length < 3) (hidx : idx.toNat = i.val)
    (hold : v.slot t i &&& tblEntryValid = 0) (hs : Spare v page) :
    (v.store t idx (tableEntry page)).missing x + 1 = v.missing x := by
  have hpage := h.page hs.obtained
  have hne : page ≠ t := by
    intro heq
    exact hs.unreached p (heq ▸ ht)
  have hthere : (v.store t idx (tableEntry page)).Reached page (p ++ [i]) := by
    apply ((store_table h ht hp hidx hold hs).reached ht).child
    rw [slot_store_same hidx, entryKind_tableEntry hpage hp]
  have hbefore : v.missing x = 3 - p.length := by
    apply missing_of_fault ht hpath (Nat.le_of_lt hp)
    intro _
    rw [ht.walk_append, walk_cons_fault (entryKind_invalid hold _)]
  have hlength := congrArg List.length hpath
  have hafter : (v.store t idx (tableEntry page)).missing x = 3 - (p ++ [i]).length := by
    cases rest with
    | nil =>
      rw [List.length_append] at hlength
      exact absurd hlength (by simp only [path, List.length_cons, List.length_nil]; omega)
    | cons j rest =>
      apply missing_of_fault hthere (i := j) (r := rest)
      · rw [hpath, List.append_assoc, List.singleton_append]
      · rw [List.length_append, List.length_singleton]
        omega
      · intro _
        rw [hthere.walk_append]
        apply walk_cons_fault
        rw [slot_store_other (h.pageAddress ht) hpage hidx (fun heq => hne heq.1), hs.empty]
        exact entryKind_zero _
  rw [hbefore, hafter, List.length_append, List.length_singleton]
  omega

theorem entryOrNewTable_supply (h : WellFormed v) (ht : v.Reached t p)
    (hpath : path x = p ++ i :: rest) (hp : p.length < 3) (hidx : idx.toNat = i.val) :
    Tried (entryOrNewTable t idx) v (fun _ => RunsOut v x) fun _ v' => Spent v v' x := by
  have hload : v.entry t idx = v.slot t i := by
    unfold Vmap.entry Vmap.slot entryAddress
    rw [hidx]
  unfold entryOrNewTable loadEntry
  rw [tried_bind, tried_read, tried_ite, hload]
  split
  · rename_i hold
    have hmissing : v.missing x = 3 - p.length := by
      apply missing_of_fault ht hpath (Nat.le_of_lt hp)
      intro _
      rw [ht.walk_append, walk_cons_fault (entryKind_invalid hold _)]
    rw [tried_bind]
    apply tried_allocPage
    · intro hhead v'
      rw [tried_ite, if_pos rfl]
      exact runsOut_of_head (by omega) hhead
    · intro page pages hans hpage
      obtain ⟨hgrew, hsame, hspare⟩ := takePage_spec h hans hpage
      unfold storeEntry
      rw [tried_ite, if_neg hpage, tried_bind, tried_modify, tried_read]
      have hnew := missing_newTable hgrew.wellFormed (hgrew.reached ht) hpath hp hidx
        (by rw [hsame ht]; exact hold) hspare
      have htaken : (v.takePage page pages).missing x = v.missing x := by
        rw [hmissing]
        apply missing_of_fault (hgrew.reached ht) hpath (Nat.le_of_lt hp)
        intro _
        rw [(hgrew.reached ht).walk_append,
          walk_cons_fault (entryKind_invalid (by rw [hsame ht]; exact hold) _)]
      exact spent_step hans hpage rfl (by rw [← htaken, ← hnew])
  · exact .refl v x

theorem rootTable_supply (h : WellFormed v) (x : Word) :
    Tried rootTable v (fun _ => RunsOut v x) fun _ v' => Spent v v' x := by
  unfold rootTable
  rw [tried_bind, tried_read, tried_ite]
  split
  · rename_i hroot
    rw [tried_bind]
    apply tried_allocPage
    · intro hhead v'
      rw [tried_ite, if_pos rfl]
      exact runsOut_of_head (by rw [missing_of_noRoot hroot]; decide) hhead
    · intro page pages hans hpage
      rw [tried_ite, if_neg hpage, tried_bind, tried_modify, tried_read]
      have hspare := (takePage_spec h hans hpage).2.2
      apply spent_step hans hpage
      · rfl
      · rw [missing_of_noRoot hroot]
        have hnew : { v.takePage page pages with rootPageTable := page }.Reached page [] := by
          unfold Vmap.Reached
          rw [Vmap.walk_of_root (v := { v.takePage page pages with rootPageTable := page }) hpage,
            walk_nil]
        rw [missing_of_fault (r := (path x).tail) hnew rfl (Nat.zero_le 3)]
        · rfl
        · intro _
          rw [hnew.walk_append]
          apply walk_cons_fault
          have hempty := hspare.empty (index (x >>> 39))
          have hslot : { v.takePage page pages with rootPageTable := page }.slot page
            (index (x >>> 39)) = 0 := hempty
          rw [hslot]
          exact entryKind_zero _
  · exact .refl v x

/-- On an address that no block covers, `vmap_map_page` gives up when the pages
run out, and else takes one for each table that is missing. -/
theorem vmapMapPage_spent (physicalAddress pageFlags : Word) (h : WellFormed v)
    (hnot : ¬ Covered v virtualAddress) :
    Tried (vmapMapPage physicalAddress virtualAddress pageFlags) v
      (fun _ => RunsOut v virtualAddress) fun _ v' => ¬ RunsOut v virtualAddress ∧
        v.answers.length = v'.answers.length + v.missing virtualAddress := by
  unfold vmapMapPage
  rw [tried_bind]
  apply ((rootTable_spec h).and (rootTable_supply h virtualAddress)).mono (fun _ hout => hout.2)
  intro root v₀ ⟨⟨h₀, hroot⟩, hspent₀⟩
  rw [tried_bind]
  have hentry := (entryOrNewTable_spec (i := index (virtualAddress >>> 39)) h₀.wellFormed hroot
    (by simp) (l0Index_toNat virtualAddress)).and
    (entryOrNewTable_supply h₀.wellFormed hroot rfl (by simp) (l0Index_toNat virtualAddress))
  apply hentry.mono (fun _ hout => hspent₀.runsOut.mp hout.2)
  intro l0Entry v₁ ⟨⟨hgrew₁, he₀, hvalid₀⟩, hnext⟩
  have hspent₁ := hspent₀.trans hnext
  have h₁ := h₀.trans hgrew₁
  have hl0 := reached_next (h₁.covered_iff.not.mpr hnot) (hgrew₁.reached hroot) rfl (by simp)
    he₀ hvalid₀
  rw [tried_bind]
  have hentry := (entryOrNewTable_spec (i := index (virtualAddress >>> 30)) h₁.wellFormed hl0
    (by simp) (l1Index_toNat virtualAddress)).and
    (entryOrNewTable_supply h₁.wellFormed hl0 rfl (by simp) (l1Index_toNat virtualAddress))
  apply hentry.mono (fun _ hout => hspent₁.runsOut.mp hout.2)
  intro l1Entry v₂ ⟨⟨hgrew₂, he₁, hvalid₁⟩, hnext⟩
  have hspent₂ := hspent₁.trans hnext
  have h₂ := h₁.trans hgrew₂
  have hl1 := reached_next (h₂.covered_iff.not.mpr hnot) (hgrew₂.reached hl0) rfl (by simp)
    he₁ hvalid₁
  rw [tried_bind]
  have hentry := (entryOrNewTable_spec (i := index (virtualAddress >>> 21)) h₂.wellFormed hl1
    (by simp) (l2Index_toNat virtualAddress)).and
    (entryOrNewTable_supply h₂.wellFormed hl1 rfl (by simp) (l2Index_toNat virtualAddress))
  apply hentry.mono (fun _ hout => hspent₂.runsOut.mp hout.2)
  intro l2Entry v₃ ⟨⟨hgrew₃, he₂, hvalid₂⟩, hnext⟩
  have hspent₃ := hspent₂.trans hnext
  have h₃ := h₂.trans hgrew₃
  have hl2 := reached_next (h₃.covered_iff.not.mpr hnot) (hgrew₃.reached hl1) rfl (by simp)
    he₂ hvalid₂
  -- all tables are there, so nothing is missing any more
  have hnone : v₃.missing virtualAddress = 0 :=
    missing_of_fault hl2 (i := index (virtualAddress >>> 12)) (r := []) rfl (by simp) (by simp)
  have hanswers := hspent₃.answers
  unfold storeEntry
  rw [tried_modify]
  refine ⟨fun hout => ?_, ?_⟩
  · obtain ⟨j, hj, _⟩ := hspent₃.runsOut.mpr hout
    rw [hnone] at hj
    exact absurd hj (Nat.not_lt_zero j)
  · show v.answers.length = v₃.answers.length + v.missing virtualAddress
    omega

/-- On an address that no block covers, `vmap_map_page` gives up exactly when
the pages run out. -/
theorem vmapMapPage_supply (physicalAddress pageFlags : Word) (h : WellFormed v)
    (hnot : ¬ Covered v virtualAddress) :
    Tried (vmapMapPage physicalAddress virtualAddress pageFlags) v
      (fun _ => RunsOut v virtualAddress) fun _ _ => ¬ RunsOut v virtualAddress :=
  (vmapMapPage_spent physicalAddress pageFlags h hnot).mono (fun _ hout => hout) fun _ _ h => h.1

/-! ## Pages enough -/

/-- At least `n` pages can be had. -/
structure HasPages (n : Nat) (v : Vmap) : Prop where
  enough : n ≤ v.answers.length
  page : ∀ page ∈ v.answers, page ≠ 0

theorem HasPages.mono {m : Nat} (h : HasPages n v) (hle : m ≤ n) : HasPages m v :=
  ⟨Nat.le_trans hle h.enough, h.page⟩

theorem HasPages.alloc (h : HasPages (n + 1) v) :
    Tried allocPage v (fun _ => False) fun page v' => page ≠ 0 ∧ HasPages n v' := by
  have hlength := h.enough
  apply tried_allocPage
  · intro hhead
    cases hanswers : v.answers with
    | nil =>
      rw [hanswers] at hlength
      exact absurd hlength (Nat.not_succ_le_zero n)
    | cons page pages =>
      rw [hanswers] at hhead
      exact absurd hhead (h.page page (by simp [hanswers]))
  · intro page pages hanswers hpage
    rw [hanswers] at hlength
    exact ⟨hpage, Nat.le_of_succ_le_succ hlength, fun q hq =>
      h.page q (hanswers ▸ List.mem_cons_of_mem page hq)⟩

theorem HasPages.rootTable (h : HasPages (n + 1) v) :
    Tried rootTable v (fun _ => False) fun _ v' => HasPages n v' := by
  unfold Paging.rootTable
  rw [tried_bind, tried_read]
  split
  · rw [tried_bind]
    apply h.alloc.mono (fun _ => id)
    intro root v₁ ⟨hroot, h₁⟩
    rw [if_neg hroot, tried_bind, tried_modify, tried_read]
    exact ⟨h₁.enough, h₁.page⟩
  · exact h.mono (Nat.le_succ n)

theorem HasPages.entryOrNewTable (h : HasPages (n + 1) v) (table index : Word) :
    Tried (entryOrNewTable table index) v (fun _ => False) fun _ v' => HasPages n v' := by
  unfold Paging.entryOrNewTable loadEntry storeEntry
  rw [tried_bind, tried_read]
  split
  · rw [tried_bind]
    apply h.alloc.mono (fun _ => id)
    intro newTable v₁ ⟨hnew, h₁⟩
    rw [if_neg hnew, tried_bind, tried_modify, tried_read]
    exact ⟨h₁.enough, h₁.page⟩
  · exact h.mono (Nat.le_succ n)

/-- A page can be mapped if there are pages for its tables. -/
theorem HasPages.vmapMapPage (h : HasPages (n + 4) v) :
    Tried (vmapMapPage physicalAddress virtualAddress pageFlags) v (fun _ => False)
      fun _ v' => HasPages n v' := by
  unfold Paging.vmapMapPage
  rw [tried_bind]
  apply h.rootTable.mono (fun _ => id)
  intro root v₁ h₁
  rw [tried_bind]
  apply (h₁.entryOrNewTable _ _).mono (fun _ => id)
  intro l0Entry v₂ h₂
  rw [tried_bind]
  apply (h₂.entryOrNewTable _ _).mono (fun _ => id)
  intro l1Entry v₃ h₃
  rw [tried_bind]
  apply (h₃.entryOrNewTable _ _).mono (fun _ => id)
  intro l2Entry v₄ h₄
  exact ⟨h₄.enough, h₄.page⟩

/-- The pages for the tables that are missing are enough. -/
theorem HasPages.vmapMapPage_missing (h : HasPages (n + v.missing virtualAddress) v)
    (hwf : WellFormed v) (hnot : ¬ Covered v virtualAddress) :
    Tried (Paging.vmapMapPage physicalAddress virtualAddress pageFlags) v (fun _ => False)
      fun _ v' => HasPages n v' := by
  have hspent := vmapMapPage_spent physicalAddress pageFlags hwf hnot
  have hrecorded := recorded_vmapMapPage physicalAddress virtualAddress pageFlags v
  have henough := h.enough
  rcases hcall : Paging.vmapMapPage physicalAddress virtualAddress pageFlags v with ⟨_ | _, v'⟩
  · obtain ⟨j, hj, hzero⟩ := hspent.gaveUp hcall
    have hlt : j < v.answers.length := by omega
    rw [List.getD_eq_getElem?_getD, List.getElem?_eq_getElem hlt] at hzero
    exact absurd hzero (h.page _ (List.getElem_mem hlt))
  · rw [hcall] at hrecorded
    refine tried_of_eq hcall ⟨?_, fun page hpage => h.page page (hrecorded.answers.subset hpage)⟩
    have hlength := (hspent.returned hcall).2
    omega

end

end ZOs.Paging
