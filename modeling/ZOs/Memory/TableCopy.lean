import Mathlib.Data.List.FinRange
import ZOs.Lib.TreeCopy
import ZOs.Memory.VmapPage

/-!
# Copying the tables of the loader

`recursive_copy_table` of `kernel/mmap.c` copies a tree of tables into fresh
pages: the tables are new, blocks and pages stay what they were. It is used
once, for the tables that the boot loader leaves in TTBR1.
-/

namespace ZOs.Paging

open TableTree Attempt

/-! ## The functions -/

/-- `alloc_new_table`, which fails where `alloc_page` gives 0. -/
def allocNewTable : Attempt Vmap Word := do
  let newTable ← allocPage
  if newTable = 0 then .giveUp else pure newTable

/-- `i` of the loop over the entries. -/
def entryIndex (i : Index) : Word := BitVec.ofNat 64 i.val

/-- The entry that leads to the copy of a table. -/
def copiedTableEntry (entry newTable : Word) : Word :=
  (entry &&& ~~~tblEntryAddrMask) ||| (newTable &&& tblEntryAddrMask)

/-- The body of the loop in `recursive_copy_table`; `next` copies a table one
level down, and there is none at level 3. -/
def copyEntry (next : Option (Word → Attempt Vmap Word)) (srcTable dstTable : Word) (i : Index) :
    Attempt Vmap Unit := do
  let entry ← loadEntry srcTable (entryIndex i)
  if entry &&& tblEntryValid = 0 then pure ()
  else
    match next with
    | some copyTable =>
      if entry &&& tblEntryTable ≠ 0 then
        let newTable ← copyTable (entry &&& tblEntryAddrMask)
        storeEntry dstTable (entryIndex i) (copiedTableEntry entry newTable)
      else storeEntry dstTable (entryIndex i) entry
    | none => storeEntry dstTable (entryIndex i) entry

def copyEntries (next : Option (Word → Attempt Vmap Word)) (srcTable dstTable : Word) :
    List Index → Attempt Vmap Unit
  | [] => pure ()
  | i :: is => do
    copyEntry next srcTable dstTable i
    copyEntries next srcTable dstTable is

def copyTable (next : Option (Word → Attempt Vmap Word)) (srcTable : Word) :
    Attempt Vmap Word := do
  let dstTable ← allocNewTable
  copyEntries next srcTable dstTable (List.finRange 512)
  pure dstTable

/-- `recursive_copy_table`, by the levels that are left: 3 - `level`. -/
def recursiveCopyTable : Nat → Word → Attempt Vmap Word
  | 0 => copyTable none
  | n + 1 => copyTable (some (recursiveCopyTable n))

/-! ## What copying takes and changes -/

/-- Pages `taken` from those to be had; memory changed in them and in the
pages `others` only. -/
structure Took (v v' : Vmap) (taken others : List Word) : Prop where
  answers : v.answers = taken ++ v'.answers
  obtained : v'.obtained = taken.reverse ++ v.obtained
  root : v'.rootPageTable = v.rootPageTable
  nonzero : ∀ page ∈ taken, page ≠ 0
  memory : ∀ address, (∀ page ∈ taken ++ others, ¬ InPage page address) →
    v'.memory address = v.memory address

section
variable {v v' v'' : Vmap} {t u src dst page entry : Word} {i j : Index} {d n : Nat}
  {taken taken' others : List Word} {p : List Index} {own : Set Word}

theorem Took.refl (v : Vmap) (others : List Word) : Took v v [] others where
  answers := rfl
  obtained := rfl
  root := rfl
  nonzero _ hpage := absurd hpage List.not_mem_nil
  memory _ _ := rfl

theorem Took.trans (h : Took v v' taken others) (h' : Took v' v'' taken' others) :
    Took v v'' (taken ++ taken') others where
  answers := by rw [h.answers, h'.answers, List.append_assoc]
  obtained := by rw [h'.obtained, h.obtained, List.reverse_append, List.append_assoc]
  root := h'.root.trans h.root
  nonzero page hpage := by
    rcases List.mem_append.mp hpage with hpage | hpage
    · exact h.nonzero page hpage
    · exact h'.nonzero page hpage
  memory address hout := by
    rw [h'.memory, h.memory]
    · intro page hpage
      apply hout
      rcases List.mem_append.mp hpage with hpage | hpage
      · exact List.mem_append_left _ (List.mem_append_left _ hpage)
      · exact List.mem_append_right _ hpage
    · intro page hpage
      apply hout
      rcases List.mem_append.mp hpage with hpage | hpage
      · exact List.mem_append_left _ (List.mem_append_right _ hpage)
      · exact List.mem_append_right _ hpage

/-- A page counted as another one may be counted as taken. -/
theorem Took.weaken (h : Took v v' taken []) (others : List Word) : Took v v' taken others where
  answers := h.answers
  obtained := h.obtained
  root := h.root
  nonzero := h.nonzero
  memory address hout := h.memory address fun page hpage => by
    rw [List.append_nil] at hpage
    exact hout page (List.mem_append_left _ hpage)

/-- What is left is still fresh, and what was taken is not among it. -/
theorem Took.fresh (h : Took v v' taken others) (hfresh : FreshAnswers v) : FreshAnswers v' := by
  have honce := hfresh.once
  rw [h.answers, List.filter_append, List.nodup_append] at honce
  obtain ⟨_, honce', hapart⟩ := honce
  refine ⟨?_, honce'⟩
  intro page hpage hne
  have hmem : page ∈ v.answers := by
    rw [h.answers]
    exact List.mem_append_right _ hpage
  obtain ⟨haddress, hnot⟩ := hfresh.page page hmem hne
  refine ⟨haddress, ?_⟩
  rw [h.obtained, List.mem_append, List.mem_reverse, not_or]
  refine ⟨?_, hnot⟩
  intro htaken
  have hkeep : ∀ {l : List Word}, page ∈ l → page ∈ l.filter (· ≠ 0) := by
    intro l hl
    exact List.mem_filter.mpr ⟨hl, by simpa using hne⟩
  exact hapart page (hkeep htaken) page (hkeep hpage) rfl

theorem Took.mem_answers (h : Took v v' taken others) (hpage : page ∈ taken) :
    page ∈ v.answers := by
  rw [h.answers]
  exact List.mem_append_left _ hpage

theorem Took.pageAddress (h : Took v v' taken others) (hfresh : FreshAnswers v)
    (hpage : page ∈ taken) : PageAddress page :=
  (hfresh.page page (h.mem_answers hpage) (h.nonzero page hpage)).1

/-- A page that is taken is not to be had any more. -/
theorem Took.not_left (h : Took v v' taken others) (hfresh : FreshAnswers v)
    (hpage : page ∈ taken) : page ∉ v'.answers := by
  intro hleft
  have hne := h.nonzero page hpage
  apply ((h.fresh hfresh).page page hleft hne).2
  rw [h.obtained]
  exact List.mem_append_left _ (List.mem_reverse.mpr hpage)

/-- The entries of other pages are as they were. -/
theorem Took.slot (h : Took v v' taken others) (hfresh : FreshAnswers v) (ht : PageAddress t)
    (hothers : ∀ page ∈ others, PageAddress page) (hnot : t ∉ taken) (hnot' : t ∉ others)
    (i : Index) : v'.slot t i = v.slot t i := by
  apply h.memory
  intro page hpage hin
  rcases List.mem_append.mp hpage with hpage | hpage
  · exact hnot (ht.inPage (h.pageAddress hfresh hpage) hin ▸ hpage)
  · exact hnot' (ht.inPage (hothers page hpage) hin ▸ hpage)

theorem entryIndex_toNat (i : Index) : (entryIndex i).toNat = i.val := by
  have hi := i.isLt
  unfold entryIndex
  rw [BitVec.toNat_ofNat]
  omega

theorem took_store (v : Vmap) (t entry : Word) (i : Index) :
    Took v (v.store t (entryIndex i) entry) [] [t] where
  answers := rfl
  obtained := rfl
  root := rfl
  nonzero _ hpage := absurd hpage List.not_mem_nil
  memory address hout := by
    apply Function.update_of_ne
    intro heq
    apply hout t (List.mem_singleton_self t)
    rw [heq]
    unfold entryAddress
    rw [entryIndex_toNat]
    exact inPage_slot t i

theorem allocNewTable_spec (v : Vmap) :
    Tried allocNewTable v (fun _ => True) fun dst v' => Took v v' [dst] [] ∧
      ∀ i, v'.slot dst i = 0 := by
  unfold allocNewTable
  rw [tried_bind]
  unfold Tried allocPage
  cases hans : v.answers with
  | nil => trivial
  | cons page rest =>
    dsimp only
    by_cases hpage : page = 0
    · rw [if_pos hpage]
      trivial
    · rw [if_neg hpage]
      show Tried (if page = 0 then giveUp else pure page) _ _ _
      rw [tried_ite, if_neg hpage]
      refine ⟨⟨hans, rfl, rfl, ?_, ?_⟩, fun i => slot_takePage_same page i⟩
      · intro q hq
        rw [List.mem_singleton.mp hq]
        exact hpage
      · intro address hout
        exact if_neg (hout page List.mem_cons_self)

end

/-! ## Copying one entry -/

/-- A table entry keeps all bits but those of the address. -/
def SameAttributes (entry entry' : Word) : Prop :=
  entry' &&& ~~~tblEntryAddrMask = entry &&& ~~~tblEntryAddrMask

/-- What is below `t` can be copied: its tables are pages that are not to be
had, and the entries of a root lead to tables. -/
structure Source (v : Vmap) (d : Nat) (t : Word) : Prop where
  page : ∀ p u, walk entryKind v.slot d t p = .table u → PageAddress u ∧ u ∉ v.answers
  root : d = 0 → ∀ i, v.slot t i &&& tblEntryValid ≠ 0 → v.slot t i &&& tblEntryTable ≠ 0

section
variable {v v' : Vmap} {t src dst page entry newTable : Word} {i : Index} {d n : Nat}
  {taken others : List Word} {is : List Index} {next : Option (Word → Attempt Vmap Word)}

theorem Source.below (h : Source v d src) (hk : entryKind d (v.slot src i) = .table t) :
    Source v (d + 1) t where
  page p u hp := h.page (i :: p) u (by rw [walk_cons_table hk, hp])
  root hd := absurd hd (Nat.succ_ne_zero d)

/-- Copying does not touch what is copied. -/
theorem Source.slot (h : Source v d src) (hfresh : FreshAnswers v)
    (htook : Took v v' taken others) (hothers : ∀ page ∈ others, PageAddress page ∧
      ∀ p, walk entryKind v.slot d src p ≠ .table page) (p : List Index) (u : Word)
    (hu : walk entryKind v.slot d src p = .table u) (i : Index) : v'.slot u i = v.slot u i := by
  obtain ⟨hpage, hnot⟩ := h.page p u hu
  apply htook.slot hfresh hpage (fun page hmem => (hothers page hmem).1)
  · exact fun hmem => hnot (htook.mem_answers hmem)
  · exact fun hmem => (hothers u hmem).2 p hu

theorem Source.after (h : Source v d src) (hfresh : FreshAnswers v)
    (htook : Took v v' taken others) (hothers : ∀ page ∈ others, PageAddress page ∧
      ∀ p, walk entryKind v.slot d src p ≠ .table page) : Source v' d src := by
  have hsame := h.slot hfresh htook hothers
  refine ⟨?_, ?_⟩
  · intro p u hu
    rw [walk_agree hsame] at hu
    obtain ⟨hpage, hnot⟩ := h.page p u hu
    refine ⟨hpage, fun hmem => hnot ?_⟩
    rw [htook.answers]
    exact List.mem_append_right _ hmem
  · intro hd i
    rw [hsame [] src rfl]
    exact h.root hd i

theorem copiedTableEntry_addr (hnew : PageAddress newTable) :
    copiedTableEntry entry newTable &&& tblEntryAddrMask = newTable := by
  have hclear : ~~~tblEntryAddrMask &&& tblEntryAddrMask = 0 := by decide
  unfold copiedTableEntry
  rw [Bits.and_eq_right_of_clear (Bits.and_and_of_clear hclear), hnew.masked, hnew.masked]

theorem copiedTableEntry_attributes (entry newTable : Word) :
    SameAttributes entry (copiedTableEntry entry newTable) := by
  have hclear : tblEntryAddrMask &&& ~~~tblEntryAddrMask = 0 := by decide
  unfold SameAttributes copiedTableEntry
  rw [Bits.and_eq_left_of_clear (Bits.and_and_of_clear hclear), BitVec.and_assoc, BitVec.and_self]

/-- A bit that is no address bit is copied. -/
theorem SameAttributes.bit {entry' m : Word} (h : SameAttributes entry entry')
    (hm : ~~~tblEntryAddrMask &&& m = m) : entry' &&& m = entry &&& m := by
  unfold SameAttributes at h
  rw [← hm, ← BitVec.and_assoc, ← BitVec.and_assoc, h]

/-- The copy of an entry that leads to a table leads to the copy. -/
theorem copiedTableEntry_kind (hk : entryKind d entry = .table t) (hnew : PageAddress newTable) :
    entryKind d (copiedTableEntry entry newTable) = .table newTable := by
  have hattributes := copiedTableEntry_attributes entry newTable
  unfold entryKind at hk ⊢
  rw [hattributes.bit (by decide), hattributes.bit (by decide), copiedTableEntry_addr hnew]
  split at hk
  · cases hk
  · rename_i hvalid
    rw [if_neg hvalid]
    split at hk
    · rename_i htable
      rw [if_pos htable]
    · cases hk

/-- What `next` does is to copy a table one level down. -/
def Copies (next : Option (Word → Attempt Vmap Word)) (d : Nat) : Prop :=
  match next with
  | some copy => d < 3 ∧ ∀ {v : Vmap} {t : Word}, FreshAnswers v → Source v (d + 1) t →
      Tried (copy t) v (fun _ => True) fun t' v' => ∃ taken, Took v v' taken [] ∧ t' ∈ taken ∧
        Copied entryKind SameAttributes v.slot v'.slot (d + 1) t t' {u | u ∈ taken}
  | none => d = 3

/-- One entry has been copied: the pages `taken` hold what is below it, and
no other entry of the copy changed. -/
structure OneCopied (v v' : Vmap) (d : Nat) (src dst : Word) (i : Index) (taken : List Word) :
    Prop where
  took : Took v v' taken [dst]
  others : ∀ j, j ≠ i → v'.slot dst j = v.slot dst j
  done : EntryDone entryKind SameAttributes v.slot v'.slot d src dst i {u | u ∈ taken}

theorem slot_store_ne (hdst : PageAddress dst) {j : Index} (hne : j ≠ i) :
    (v.store dst (entryIndex i) entry).slot dst j = v.slot dst j :=
  slot_store_other hdst hdst (entryIndex_toNat i) fun heq => hne heq.2

/-- An entry that leads to no table is copied as it is. -/
theorem oneCopied_store (hdst : PageAddress dst) (hk : entryKind d (v.slot src i) = .leaf) :
    OneCopied v (v.store dst (entryIndex i) (v.slot src i)) d src dst i [] where
  took := took_store v dst _ i
  others j hne := slot_store_ne hdst hne
  done := by
    refine ⟨?_, ?_⟩
    · unfold EntryCopied
      rw [hk]
      exact slot_store_same (entryIndex_toNat i)
    · intro u hu
      rw [hk] at hu
      cases hu

theorem copyEntry_spec (hnext : Copies next d) (hfresh : FreshAnswers v) (hsrc : Source v d src)
    (hdst : PageAddress dst) (hleft : dst ∉ v.answers) (hzero : v.slot dst i = 0) :
    Tried (copyEntry next src dst i) v (fun _ => True) fun _ v' =>
      ∃ taken, OneCopied v v' d src dst i taken := by
  have hload : v.entry src (entryIndex i) = v.slot src i := by
    unfold Vmap.entry Vmap.slot entryAddress
    rw [entryIndex_toNat]
  unfold copyEntry loadEntry
  rw [tried_bind, tried_read, tried_ite, hload]
  split
  · rename_i hinvalid
    refine ⟨[], Took.refl v [dst], fun _ _ => rfl, ?_, ?_⟩
    · unfold EntryCopied
      rw [entryKind_invalid hinvalid, hzero]
      exact entryKind_zero d
    · intro u hu
      rw [entryKind_invalid hinvalid] at hu
      cases hu
  rename_i hvalid
  cases next with
  | none =>
    have hd : d = 3 := hnext
    subst hd
    exact ⟨[], oneCopied_store hdst (entryKind_page hvalid)⟩
  | some copy =>
    obtain ⟨hd, hcopy⟩ := hnext
    dsimp only
    rw [tried_ite]
    split
    · rename_i htable
      have hk := entryKind_table hvalid htable hd
      rw [tried_bind]
      apply (hcopy hfresh (hsrc.below hk)).mono (fun _ => id)
      intro new v₁ ⟨taken, htook, hmem, hcopied⟩
      have hnew := htook.pageAddress hfresh hmem
      have hnot : dst ∉ taken := fun hmem => hleft (htook.mem_answers hmem)
      have hframe : ∀ u ∈ taken, ∀ j, (v₁.store dst (entryIndex i)
          (copiedTableEntry (v.slot src i) new)).slot u j = v₁.slot u j := by
        intro u hu j
        apply slot_store_other hdst (htook.pageAddress hfresh hu) (entryIndex_toNat i)
        intro heq
        exact hnot (heq.1 ▸ hu)
      have hslot : (v₁.store dst (entryIndex i) (copiedTableEntry (v.slot src i) new)).slot dst i =
          copiedTableEntry (v.slot src i) new := slot_store_same (entryIndex_toNat i)
      unfold storeEntry
      rw [tried_modify]
      refine ⟨taken, ?_, ?_, ?_, ?_⟩
      · have hboth := (htook.weaken [dst]).trans (took_store v₁ dst
          (copiedTableEntry (v.slot src i) new) i)
        rwa [List.append_nil] at hboth
      · intro j hne
        rw [slot_store_ne hdst hne]
        exact htook.slot hfresh hdst (by simp) hnot (by simp) j
      · unfold EntryCopied
        rw [hk, hslot]
        exact ⟨⟨new, copiedTableEntry_kind hk hnew⟩, copiedTableEntry_attributes _ _⟩
      · intro u hu u' hu'
        rw [hk] at hu
        injection hu with hu
        rw [hslot, copiedTableEntry_kind hk hnew] at hu'
        injection hu' with hu'
        subst hu hu'
        exact hcopied.frame hframe
    · rename_i hblock
      have hd0 : d ≠ 0 := by
        intro hd0
        exact hsrc.root hd0 i hvalid (Decidable.not_not.mp hblock)
      exact ⟨[], oneCopied_store hdst (entryKind_block hvalid (Decidable.not_not.mp hblock) hd0)⟩

end

/-! ## Copying a table -/

/-- The entries `is` have been copied; `below` tells which pages hold what is
below each. -/
structure ManyCopied (v v' : Vmap) (d : Nat) (src dst : Word) (is : List Index)
    (below : Index → Set Word) (taken : List Word) : Prop where
  took : Took v v' taken [dst]
  others : ∀ j, j ∉ is → v'.slot dst j = v.slot dst j
  done : ∀ i ∈ is, EntryDone entryKind SameAttributes v.slot v'.slot d src dst i (below i)
  within : ∀ i ∈ is, ∀ u ∈ below i, u ∈ taken
  apart : ∀ i ∈ is, ∀ j ∈ is, ∀ u, u ∈ below i → u ∈ below j → i = j

section
variable {v v' v'' : Vmap} {src dst : Word} {i : Index} {d n : Nat}
  {taken taken' : List Word} {is : List Index} {below : Index → Set Word}
  {next : Option (Word → Attempt Vmap Word)}

theorem ManyCopied.nil (v : Vmap) (d : Nat) (src dst : Word) :
    ManyCopied v v d src dst [] (fun _ => ∅) [] where
  took := Took.refl v [dst]
  others _ _ := rfl
  done _ hi := absurd hi List.not_mem_nil
  within _ hi := absurd hi List.not_mem_nil
  apart _ hi := absurd hi List.not_mem_nil

/-- What must hold of a table that is being filled. -/
structure Filling (v : Vmap) (d : Nat) (src dst : Word) : Prop where
  fresh : FreshAnswers v
  source : Source v d src
  page : PageAddress dst
  left : dst ∉ v.answers
  apart : ∀ p, walk entryKind v.slot d src p ≠ .table dst

theorem Filling.others (h : Filling v d src dst) : ∀ page ∈ [dst], PageAddress page ∧
    ∀ p, walk entryKind v.slot d src p ≠ .table page := by
  intro page hpage
  rw [List.mem_singleton.mp hpage]
  exact ⟨h.page, h.apart⟩

theorem Filling.after (h : Filling v d src dst) (htook : Took v v' taken [dst]) :
    Filling v' d src dst where
  fresh := htook.fresh h.fresh
  source := h.source.after h.fresh htook h.others
  page := h.page
  left hmem := h.left (by rw [htook.answers]; exact List.mem_append_right _ hmem)
  apart p hp := by
    rw [walk_agree (h.source.slot h.fresh htook h.others)] at hp
    exact h.apart p hp

/-- First one entry, then the others. -/
theorem ManyCopied.cons (hfill : Filling v d src dst) (hnot : i ∉ is)
    (hone : OneCopied v v' d src dst i taken)
    (hmany : ManyCopied v' v'' d src dst is below taken') :
    ManyCopied v v'' d src dst (i :: is)
      (Function.update below i {u | u ∈ taken}) (taken ++ taken') := by
  have hfill' := hfill.after hone.took
  have hsame := hfill.source.slot hfill.fresh hone.took hfill.others
  have hself : Function.update below i {u | u ∈ taken} i = {u | u ∈ taken} :=
    Function.update_self ..
  have hother : ∀ {j}, j ∈ is → Function.update below i {u | u ∈ taken} j = below j := by
    intro j hj
    apply Function.update_of_ne
    intro heq
    exact hnot (heq ▸ hj)
  have hdisjoint : ∀ u, u ∈ taken → u ∉ taken' := by
    intro u hu hu'
    exact hone.took.not_left hfill.fresh hu (hmany.took.mem_answers hu')
  refine ⟨hone.took.trans hmany.took, ?_, ?_, ?_, ?_⟩
  · intro j hj
    rw [List.mem_cons, not_or] at hj
    rw [hmany.others j hj.2, hone.others j hj.1]
  · intro j hj
    rcases List.mem_cons.mp hj with rfl | hj
    · rw [hself]
      apply hone.done.frame (hmany.others j hnot)
      intro u hu k
      apply hmany.took.slot hfill'.fresh (hone.took.pageAddress hfill.fresh hu)
        (fun page hpage => (hfill.others page hpage).1) (hdisjoint u hu)
      intro hmem
      rw [List.mem_singleton.mp hmem] at hu
      exact hfill.left (hone.took.mem_answers hu)
    · rw [hother hj]
      exact (hmany.done j hj).source hsame
  · intro j hj u hu
    rcases List.mem_cons.mp hj with rfl | hj
    · rw [hself] at hu
      exact List.mem_append_left _ hu
    · rw [hother hj] at hu
      exact List.mem_append_right _ (hmany.within j hj u hu)
  · intro j hj k hk u hu hu'
    rcases List.mem_cons.mp hj with hji | hj'
    · rcases List.mem_cons.mp hk with hki | hk'
      · rw [hji, hki]
      · rw [hji, hself] at hu
        rw [hother hk'] at hu'
        exact absurd (hmany.within k hk' u hu') (hdisjoint u hu)
    · rcases List.mem_cons.mp hk with hki | hk'
      · rw [hki, hself] at hu'
        rw [hother hj'] at hu
        exact absurd (hmany.within j hj' u hu) (hdisjoint u hu')
      · rw [hother hj'] at hu
        rw [hother hk'] at hu'
        exact hmany.apart j hj' k hk' u hu hu'

theorem copyEntries_spec (hnext : Copies next d) (hnodup : is.Nodup)
    (hfill : Filling v d src dst) (hzero : ∀ i ∈ is, v.slot dst i = 0) :
    Tried (copyEntries next src dst is) v (fun _ => True) fun _ v' =>
      ∃ below taken, ManyCopied v v' d src dst is below taken := by
  induction is generalizing v with
  | nil => exact ⟨_, _, ManyCopied.nil v d src dst⟩
  | cons i is ih =>
    obtain ⟨hnot, hnodup⟩ := List.nodup_cons.mp hnodup
    unfold copyEntries
    rw [tried_bind]
    apply (copyEntry_spec hnext hfill.fresh hfill.source hfill.page hfill.left
      (hzero i List.mem_cons_self)).mono (fun _ => id)
    intro _ v₁ ⟨taken, hone⟩
    have hzero₁ : ∀ j ∈ is, v₁.slot dst j = 0 := by
      intro j hj
      rw [hone.others j (fun heq => hnot (heq ▸ hj))]
      exact hzero j (List.mem_cons_of_mem _ hj)
    apply (ih hnodup (hfill.after hone.took) hzero₁).mono (fun _ => id)
    intro _ v₂ ⟨below, taken', hmany⟩
    exact ⟨_, _, ManyCopied.cons hfill hnot hone hmany⟩

/-- A table whose entries have all been copied has been copied. -/
theorem copyTable_spec (hnext : Copies next d) (hfresh : FreshAnswers v)
    (hsrc : Source v d src) :
    Tried (copyTable next src) v (fun _ => True) fun dst v' => ∃ taken, Took v v' taken [] ∧
      dst ∈ taken ∧ Copied entryKind SameAttributes v.slot v'.slot d src dst {u | u ∈ taken} := by
  unfold copyTable
  rw [tried_bind]
  apply (allocNewTable_spec v).mono (fun _ => id)
  intro dst v₁ ⟨htook, hzero⟩
  have hdst := List.mem_singleton_self dst
  have hnone : ∀ page ∈ ([] : List Word), PageAddress page ∧
      ∀ p, walk entryKind v.slot d src p ≠ .table page := by simp
  have hsame := hsrc.slot hfresh htook hnone
  have hfill : Filling v₁ d src dst :=
    { fresh := htook.fresh hfresh
      source := hsrc.after hfresh htook hnone
      page := htook.pageAddress hfresh hdst
      left := htook.not_left hfresh hdst
      apart := by
        intro p hp
        rw [walk_agree hsame] at hp
        exact (hsrc.page p dst hp).2 (htook.mem_answers hdst) }
  rw [tried_bind]
  have hnodup : (List.finRange 512).Nodup := List.nodup_finRange 512
  have hall : ∀ i, i ∈ List.finRange 512 := List.mem_finRange
  generalize List.finRange 512 = is at hnodup hall ⊢
  have hentries := copyEntries_spec hnext hnodup hfill fun i _ => hzero i
  refine hentries.mono (fun _ => id) fun _ v₂ ⟨below, taken, hmany⟩ => ?_
  rw [tried_pure]
  have hnode : Copied entryKind SameAttributes v₁.slot v₂.slot d src dst
      (insert dst {u | ∃ i, u ∈ below i}) := by
    apply Copied.node (fun i => hmany.done i (hall i))
    · intro i hi
      exact hfill.left (hmany.took.mem_answers (hmany.within i (hall i) dst hi))
    · exact fun i j u hi hj => hmany.apart i (hall i) j (hall j) u hi hj
  refine ⟨dst :: taken, ?_, List.mem_cons_self, ?_⟩
  · refine ⟨?_, ?_, ?_, ?_, ?_⟩
    · rw [htook.answers, hmany.took.answers]
      rfl
    · rw [hmany.took.obtained, htook.obtained]
      simp
    · rw [hmany.took.root, htook.root]
    · intro page hpage
      rcases List.mem_cons.mp hpage with rfl | hpage
      · exact htook.nonzero page hdst
      · exact hmany.took.nonzero page hpage
    · intro address hout
      rw [hmany.took.memory, htook.memory]
      · intro page hpage
        rw [List.append_nil, List.mem_singleton] at hpage
        rw [hpage]
        exact hout dst (by simp)
      · intro page hpage
        apply hout
        rcases List.mem_append.mp hpage with hpage | hpage
        · simp [hpage]
        · rw [List.mem_singleton.mp hpage]
          simp
  · apply (hnode.source fun p u hu i => hsame p u hu i).mono
    intro u hu
    rcases hu with rfl | ⟨i, hi⟩
    · exact List.mem_cons_self
    · exact List.mem_cons_of_mem _ (hmany.within i (hall i) u hi)

/-- With `n` levels left, `recursive_copy_table` copies the tree below a
table of level 3 - `n`. -/
theorem recursiveCopyTable_spec (hd : n + d = 3) (hfresh : FreshAnswers v)
    (hsrc : Source v d src) :
    Tried (recursiveCopyTable n src) v (fun _ => True) fun dst v' => ∃ taken,
      Took v v' taken [] ∧ dst ∈ taken ∧
        Copied entryKind SameAttributes v.slot v'.slot d src dst {u | u ∈ taken} := by
  induction n generalizing d v src with
  | zero =>
    have hnext : Copies none d := by
      rw [Nat.zero_add] at hd
      exact hd
    exact copyTable_spec hnext hfresh hsrc
  | succ n ih =>
    have hnext : Copies (some (recursiveCopyTable n)) d :=
      ⟨by omega, fun hfresh hsrc => ih (by omega) hfresh hsrc⟩
    exact copyTable_spec hnext hfresh hsrc

end

/-! ## The copy -/

/-- The tables that another root leads to. -/
def Vmap.withRoot (v : Vmap) (root : Word) : Vmap := { v with rootPageTable := root }

/-- Something else has happened to memory. -/
def Vmap.withMemory (v : Vmap) (memory : Nat → Word) : Vmap := { v with memory := memory }

/-- Memory differs in tables of the tree only. -/
def EditsTables (v : Vmap) (memory : Nat → Word) : Prop :=
  ∀ address, memory address ≠ v.memory address → ∃ t p, v.Reached t p ∧ InPage t address

/-- `w` are the tables of a copy of `v`, made when the state of the original
became `v'`. -/
structure CopyOf (v v' w : Vmap) : Prop where
  translate : ∀ x, w.vmapVirtualToPhysical x = v.vmapVirtualToPhysical x
  original : ∀ x, v'.vmapVirtualToPhysical x = v.vmapVirtualToPhysical x
  entries : ∀ p t, v.Reached t p → ∃ t', w.Reached t' p ∧
    ∀ i, EntryCopied entryKind SameAttributes p.length (v.slot t i) (w.slot t' i)
  apart : ∀ t p q, v'.Reached t p → ¬ w.Reached t q
  editOriginal : ∀ memory, EditsTables v' memory → ∀ x,
    (w.withMemory memory).vmapVirtualToPhysical x = w.vmapVirtualToPhysical x
  editCopy : ∀ memory, EditsTables w memory → ∀ x,
    (v'.withMemory memory).vmapVirtualToPhysical x = v'.vmapVirtualToPhysical x
  wellFormed : WellFormed v' ∧ WellFormed w

section
variable {v v' w : Vmap} {root x : Word} {memory : Nat → Word}

/-- Walks that end in the same way stand for the same address. -/
theorem stopAddress_same {s s' : Stop Word Word} (h : SameStop s s') :
    stopAddress x s' = stopAddress x s := by
  cases s with
  | fault => rw [show s' = .fault from h]
  | leaf d e => rw [show s' = .leaf d e from h]
  | table t =>
    obtain ⟨t', ht'⟩ := h
    rw [ht']
    rfl

/-- Trees without a common table do not see each other's edits. -/
theorem translate_withMemory (hv : WellFormed v) (hw : WellFormed w)
    (hmemory : w.memory = v.memory) (hapart : ∀ t p q, v.Reached t p → ¬ w.Reached t q)
    (hedits : EditsTables w memory) (x : Word) :
    (v.withMemory memory).vmapVirtualToPhysical x = v.vmapVirtualToPhysical x := by
  have hwalk : (v.withMemory memory).walk (path x) = v.walk (path x) := by
    by_cases hroot : v.rootPageTable = 0
    · unfold Vmap.walk
      rw [if_pos hroot]
      exact if_pos hroot
    · rw [v.walk_of_root hroot, Vmap.walk_of_root (v := v.withMemory memory) hroot]
      apply walk_agree
      intro p t ht i
      have ht := (Vmap.reached_iff hroot).mpr ht
      by_contra hne
      have hdiff : memory (t.toNat + 8 * i.val) ≠ w.memory (t.toNat + 8 * i.val) := by
        rw [hmemory]
        exact hne
      obtain ⟨t', q, ht', hin⟩ := hedits _ hdiff
      have heq := (hv.pageAddress ht).inPage (hw.pageAddress ht') hin
      exact hapart t p q ht (heq ▸ ht')
  rw [vmapVirtualToPhysical_eq, vmapVirtualToPhysical_eq, hwalk]

/-- When `recursive_copy_table` returns 0, the copy is one: it translates
every address as the original does, entry by entry, and shares no table with
it. -/
theorem recursiveCopyTable_correct (v v' : Vmap) (h : WellFormed v) (hroot : v.rootPageTable ≠ 0)
    (htables : ∀ i, v.slot v.rootPageTable i &&& tblEntryValid ≠ 0 →
      v.slot v.rootPageTable i &&& tblEntryTable ≠ 0)
    (copy : Word) (hcall : recursiveCopyTable 3 v.rootPageTable v = (some copy, v')) :
    CopyOf v v' (v'.withRoot copy) := by
  have hsrc : Source v 0 v.rootPageTable := by
    refine ⟨?_, fun _ => htables⟩
    intro p t ht
    have ht := (Vmap.reached_iff hroot).mpr ht
    have hpage := h.pageAddress ht
    exact ⟨hpage, fun hmem => (h.answers.page t hmem hpage.nonzero).2 (h.reached ht)⟩
  obtain ⟨taken, htook, hmem, hcopied⟩ :=
    (recursiveCopyTable_spec rfl h.answers hsrc).returned hcall
  have hcopy := (htook.pageAddress h.answers hmem).nonzero
  have hcopyRoot : (v'.withRoot copy).rootPageTable ≠ 0 := hcopy
  have hroot' : v'.rootPageTable ≠ 0 := by rwa [htook.root]
  have hsame := hsrc.slot h.answers htook (by simp)
  have hwalk : ∀ p, v'.walk p = v.walk p := by
    intro p
    rw [v'.walk_of_root hroot', v.walk_of_root hroot, htook.root]
    exact walk_agree hsame p
  have hreached : ∀ {t p}, v'.Reached t p → v.Reached t p := by
    intro t p ht
    unfold Vmap.Reached at ht ⊢
    rwa [← hwalk]
  have hin : ∀ {t p}, (v'.withRoot copy).Reached t p → t ∈ taken := by
    intro t p ht
    exact hcopied.within p t ((Vmap.reached_iff hcopyRoot).mp ht)
  have hpages : ∀ {t}, t ∈ v'.obtained → PageAddress t := by
    intro t ht
    rw [htook.obtained, List.mem_append, List.mem_reverse] at ht
    rcases ht with ht | ht
    · exact htook.pageAddress h.answers ht
    · exact h.page ht
  have hfresh := htook.fresh h.answers
  have hwf' : WellFormed v' :=
    { distinct := fun hp hq => h.distinct (hreached hp) (hreached hq)
      reached := by
        intro t p ht
        rw [htook.obtained]
        exact List.mem_append_right _ (h.reached (hreached ht))
      page := hpages
      answers := hfresh }
  have hwf : WellFormed (v'.withRoot copy) :=
    { distinct := by
        intro t p q hp hq
        exact hcopied.distinct p q t ((Vmap.reached_iff hcopyRoot).mp hp)
          ((Vmap.reached_iff hcopyRoot).mp hq)
      reached := by
        intro t p ht
        show t ∈ v'.obtained
        rw [htook.obtained]
        exact List.mem_append_left _ (List.mem_reverse.mpr (hin ht))
      page := hpages
      answers := ⟨hfresh.page, hfresh.once⟩ }
  have hapart : ∀ t p q, v'.Reached t p → ¬ (v'.withRoot copy).Reached t q := by
    intro t p q hp hq
    exact (hsrc.page p t ((Vmap.reached_iff hroot).mp (hreached hp))).2
      (htook.mem_answers (hin hq))
  refine ⟨?_, ?_, ?_, hapart, ?_, ?_, hwf', hwf⟩
  · intro x
    rw [vmapVirtualToPhysical_eq, vmapVirtualToPhysical_eq,
      Vmap.walk_of_root (v := v'.withRoot copy) hcopyRoot, v.walk_of_root hroot]
    exact stopAddress_same (hcopied.walk (path x))
  · intro x
    rw [vmapVirtualToPhysical_eq, vmapVirtualToPhysical_eq, hwalk]
  · intro p t ht
    obtain ⟨t', ht', hentries⟩ := hcopied.entries p t ((Vmap.reached_iff hroot).mp ht)
    refine ⟨t', (Vmap.reached_iff hcopyRoot).mpr ht', fun i => ?_⟩
    have hentry := hentries i
    rwa [Nat.zero_add] at hentry
  · intro memory hedits
    exact translate_withMemory hwf hwf' rfl (fun t p q hp hq => hapart t q p hq hp) hedits
  · intro memory hedits
    exact translate_withMemory hwf' hwf rfl hapart hedits

end

/-- No tables, and eight pages to be had. -/
def eightPages : Vmap where
  rootPageTable := 0
  memory _ := 0
  answers := [0x1000, 0x2000, 0x3000, 0x4000, 0x5000, 0x6000, 0x7000, 0x8000]
  obtained := []
  stored := []

theorem eightPages_empty : EmptyRoot eightPages where
  root := rfl
  obtained := rfl
  answers := by
    have hall : ∀ p ∈ eightPages.answers, PageAddress p := by
      simp only [eightPages, List.forall_mem_cons]
      refine ⟨?_, ?_, ?_, ?_, ?_, ?_, ?_, ?_, by simp⟩ <;> exact ⟨by decide, by decide, by decide⟩
    exact ⟨fun p hp _ => ⟨hall p hp, List.not_mem_nil⟩, by decide⟩

/-- The tables with one page mapped. -/
def onePage : Vmap := (vmapMapPage 0x9000 0x7000 0x40 eightPages).2

/-- The copy of the tables of one page. -/
theorem onePage_copied : ∃ copy v', recursiveCopyTable 3 0x1000 onePage = (some copy, v') ∧
    (v'.withRoot copy).vmapVirtualToPhysical 0x7123 = some 0x9123 := by
  have hwf : WellFormed onePage :=
    (MapsPage.inv (m := ⟨0x9000, 0x7000, 0x40⟩) eightPages_empty.wellFormed
      eightPages_empty.pagesOnly rfl).1
  rcases hcall : recursiveCopyTable 3 0x1000 onePage with ⟨r, v'⟩
  have hreturned : (recursiveCopyTable 3 0x1000 onePage).1 = some 0x5000 := by decide +kernel
  rw [hcall] at hreturned
  have hreturned : r = some 0x5000 := hreturned
  subst hreturned
  have hroot : onePage.rootPageTable = 0x1000 := by decide +kernel
  have hcopy := recursiveCopyTable_correct onePage v' hwf (by rw [hroot]; decide)
    (by decide +kernel) 0x5000 (by rw [hroot, hcall])
  have hpage : onePage.vmapVirtualToPhysical 0x7123 = some 0x9123 := by decide +kernel
  exact ⟨0x5000, v', rfl, (hcopy.translate 0x7123).trans hpage⟩

end ZOs.Paging
