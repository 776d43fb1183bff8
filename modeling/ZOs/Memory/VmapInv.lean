import ZOs.Memory.VmapTree

/-!
# What the mapping functions keep

`Grew` is what holds between the states before and after the helpers that
find the way down: tables were added, but no translation changed. `Entered`
is what holds when an entry has been filled at the end of the way.
-/

namespace ZOs.Paging

open TableTree Attempt

/-! ## Invariant -/

/-- An address of a page that an entry can hold. -/
structure PageAddress (page : Word) : Prop where
  nonzero : page ≠ 0
  aligned : page.toNat % 4096 = 0
  fits : page.toNat < 2 ^ 48

/-- What `alloc_page` promises: it fails or gives a page it has not given
before. (The kernel's `alloc_vmap_page` gives pages of the direct-map window
only, which ends far below 2^48.) -/
structure FreshAnswers (v : Vmap) : Prop where
  page : ∀ p ∈ v.answers, p ≠ 0 → PageAddress p ∧ p ∉ v.obtained
  once : (v.answers.filter (· ≠ 0)).Nodup

/-- The tables form a tree of pages obtained from `alloc_page`. -/
structure WellFormed (v : Vmap) : Prop where
  distinct : ∀ {t p q}, v.Reached t p → v.Reached t q → p = q
  reached : ∀ {t p}, v.Reached t p → t ∈ v.obtained
  page : ∀ {t}, t ∈ v.obtained → PageAddress t
  answers : FreshAnswers v

/-- The tree is kept, and every word stored to is in a page of it. -/
structure Kept (v v' : Vmap) : Prop where
  wellFormed : WellFormed v'
  obtained : v.obtained ⊆ v'.obtained
  stored : ∃ more, v'.stored = more ++ v.stored ∧
    ∀ address ∈ more, ∃ page ∈ v'.obtained, InPage page address

/-- Tables were added: whatever a walk found, it finds again, and no address
is translated that was not before. -/
structure Grew (v v' : Vmap) : Prop extends Kept v v' where
  address : ∀ x, v'.walk (path x) = v.walk (path x)
  stops : ∀ {is}, v.walk is ≠ .fault → v'.walk is = v.walk is

section
variable {v v' v'' : Vmap} {t t' page idx e : Word} {p q is : List Index} {i i' : Index}
  {rest : List Word}

theorem Kept.trans (h : Kept v v') (h' : Kept v' v'') : Kept v v'' where
  wellFormed := h'.wellFormed
  obtained := List.Subset.trans h.obtained h'.obtained
  stored := by
    obtain ⟨more, hmore, hin⟩ := h.stored
    obtain ⟨more', hmore', hin'⟩ := h'.stored
    refine ⟨more' ++ more, by rw [hmore', hmore, List.append_assoc], ?_⟩
    intro address hmem
    rcases List.mem_append.mp hmem with hmem | hmem
    · exact hin' address hmem
    · obtain ⟨page, hpage, haddr⟩ := hin address hmem
      exact ⟨page, h'.obtained hpage, haddr⟩

theorem Grew.refl (h : WellFormed v) : Grew v v where
  wellFormed := h
  obtained := List.Subset.refl _
  stored := ⟨[], rfl, by simp⟩
  address _ := rfl
  stops _ := rfl

theorem Grew.trans (h : Grew v v') (h' : Grew v' v'') : Grew v v'' where
  toKept := h.toKept.trans h'.toKept
  address x := (h'.address x).trans (h.address x)
  stops hne := by
    rw [h'.stops (by rwa [h.stops hne]), h.stops hne]

theorem Grew.reached (h : Grew v v') (ht : v.Reached t p) : v'.Reached t p := by
  have hne : v.walk p ≠ .fault := by
    rw [ht]
    simp
  exact (h.stops hne).trans ht

/-- Nothing is translated differently. -/
theorem Grew.translate (h : Grew v v') (x : Word) :
    v'.vmapVirtualToPhysical x = v.vmapVirtualToPhysical x := by
  rw [vmapVirtualToPhysical_eq, vmapVirtualToPhysical_eq, h.address]

theorem WellFormed.pageAddress (h : WellFormed v) (ht : v.Reached t p) : PageAddress t :=
  h.page (h.reached ht)

/-! ## Memory -/

/-- Entries of pages are at different addresses. -/
theorem PageAddress.slot_inj (ht : PageAddress t) (ht' : PageAddress t')
    (h : t'.toNat + 8 * i'.val = t.toNat + 8 * i.val) : t' = t ∧ i' = i := by
  have hal := ht.aligned
  have hal' := ht'.aligned
  have hi := i.isLt
  have hi' := i'.isLt
  constructor
  · apply BitVec.eq_of_toNat_eq
    omega
  · apply Fin.ext
    omega

theorem PageAddress.inPage (ht : PageAddress t) (hp : PageAddress page)
    (h : InPage page (t.toNat + 8 * i.val)) : t = page := by
  have hal := ht.aligned
  have hal' := hp.aligned
  have hi := i.isLt
  apply BitVec.eq_of_toNat_eq
  obtain ⟨hlo, hhi⟩ := h
  omega

theorem inPage_slot (t : Word) (i : Index) : InPage t (t.toNat + 8 * i.val) := by
  have hi := i.isLt
  exact ⟨by omega, by omega⟩

theorem slot_store_same (hidx : idx.toNat = i.val) : (v.store t idx e).slot t i = e := by
  show Function.update v.memory (entryAddress t idx) e (t.toNat + 8 * i.val) = e
  unfold entryAddress
  rw [hidx, Function.update_self]

theorem slot_store_other (ht : PageAddress t) (ht' : PageAddress t') (hidx : idx.toNat = i.val)
    (hne : ¬ (t' = t ∧ i' = i)) : (v.store t idx e).slot t' i' = v.slot t' i' := by
  show Function.update v.memory (entryAddress t idx) e (t'.toNat + 8 * i'.val) = _
  unfold entryAddress
  rw [hidx, Function.update_of_ne]
  · rfl
  · intro heq
    exact hne (ht.slot_inj ht' heq)

theorem slot_takePage_same (page : Word) (i : Index) : (v.takePage page rest).slot page i = 0 :=
  if_pos (inPage_slot page i)

theorem slot_takePage_other (ht : PageAddress t) (hp : PageAddress page) (hne : t ≠ page) :
    (v.takePage page rest).slot t i = v.slot t i :=
  if_neg fun hin => hne (ht.inPage hp hin)

/-! ## Obtaining a page -/

/-- A page that is obtained but not in the tree yet, all of its entries
invalid. -/
structure Spare (v : Vmap) (page : Word) : Prop where
  obtained : page ∈ v.obtained
  unreached : ∀ p, ¬ v.Reached page p
  empty : ∀ i, v.slot page i = 0

theorem FreshAnswers.tail (h : FreshAnswers v) (hans : v.answers = page :: rest) :
    FreshAnswers { v with answers := rest } where
  page p hp := h.page p (hans ▸ List.mem_cons_of_mem _ hp)
  once := by
    have honce := h.once
    rw [hans] at honce
    exact List.Nodup.sublist ((List.sublist_cons_self _ _).filter _) honce

theorem FreshAnswers.take (h : FreshAnswers v) (hans : v.answers = page :: rest)
    (hpage : page ≠ 0) : FreshAnswers (v.takePage page rest) where
  page p hp hne := by
    have hmem : p ∈ v.answers := hans ▸ List.mem_cons_of_mem _ hp
    obtain ⟨haddr, hnot⟩ := h.page p hmem hne
    refine ⟨haddr, ?_⟩
    show p ∉ page :: v.obtained
    rw [List.mem_cons, not_or]
    refine ⟨?_, hnot⟩
    intro heq
    have honce := h.once
    rw [hans, List.filter_cons_of_pos (by simpa using hpage), List.nodup_cons] at honce
    exact honce.1 (heq ▸ List.mem_filter.mpr ⟨hp, by simpa using hne⟩)
  once := (h.tail hans).once

/-- Taking a page does not touch the tree. -/
theorem walk_takePage (rest : List Word) (h : WellFormed v) (hp : PageAddress page)
    (hnew : page ∉ v.obtained) (is : List Index) : (v.takePage page rest).walk is = v.walk is := by
  by_cases hroot : v.rootPageTable = 0
  · unfold Vmap.walk
    rw [if_pos hroot, if_pos (show (v.takePage page rest).rootPageTable = 0 from hroot)]
  · rw [v.walk_of_root hroot, Vmap.walk_of_root (v := v.takePage page rest) hroot]
    apply walk_congr
    intro r u j hr _
    have hu := (Vmap.reached_iff hroot).mpr hr
    apply slot_takePage_other (h.pageAddress hu) hp
    intro heq
    exact hnew (heq ▸ h.reached hu)

theorem takePage_spec (h : WellFormed v) (hans : v.answers = page :: rest) (hpage : page ≠ 0) :
    Grew v (v.takePage page rest) ∧
      (∀ {t p i}, v.Reached t p → (v.takePage page rest).slot t i = v.slot t i) ∧
      Spare (v.takePage page rest) page := by
  obtain ⟨haddr, hnew⟩ := h.answers.page page (hans ▸ List.mem_cons_self) hpage
  have hwalk := walk_takePage rest h haddr hnew
  have hreach : ∀ {t p}, (v.takePage page rest).Reached t p ↔ v.Reached t p := by
    intro t p
    unfold Vmap.Reached
    rw [hwalk]
  refine ⟨?_, ?_, ?_⟩
  · exact
      { wellFormed :=
          { distinct := fun hq hq' => h.distinct (hreach.mp hq) (hreach.mp hq')
            reached := fun hq => List.mem_cons_of_mem _ (h.reached (hreach.mp hq))
            page := by
              intro u hu
              rcases List.mem_cons.mp hu with heq | hu
              · exact heq ▸ haddr
              · exact h.page hu
            answers := h.answers.take hans hpage }
        obtained := List.subset_cons_self _ _
        stored := ⟨[], rfl, by simp⟩
        address := fun x => hwalk _
        stops := fun _ => hwalk _ }
  · intro t p i ht
    apply slot_takePage_other (h.pageAddress ht) haddr
    intro heq
    exact hnew (heq ▸ h.reached ht)
  · exact
      { obtained := List.mem_cons_self
        unreached := fun p hp => hnew (h.reached (hreach.mp hp))
        empty := fun i => slot_takePage_same page i }

/-- What the tree says does not depend on the answers that are left. -/
theorem Grew.of_answers (h : WellFormed v) (hans : v.answers = page :: rest) :
    Grew v { v with answers := rest } where
  wellFormed := ⟨h.distinct, h.reached, h.page, h.answers.tail hans⟩
  obtained := List.Subset.refl _
  stored := ⟨[], rfl, by simp⟩
  address _ := rfl
  stops _ := rfl

theorem allocPage_spec (h : WellFormed v) :
    Tried allocPage v (fun _ => False) fun page v' => page = v.answers.headD 0 ∧ Grew v v' ∧
      (∀ {t p i}, v.Reached t p → v'.slot t i = v.slot t i) ∧ (page ≠ 0 → Spare v' page) := by
  unfold Tried allocPage
  cases hans : v.answers with
  | nil => exact ⟨rfl, Grew.refl h, fun _ => rfl, fun hne => absurd rfl hne⟩
  | cons page rest =>
    by_cases hpage : page = 0
    · simp only [if_pos hpage]
      exact ⟨hpage.symm, Grew.of_answers h hans, fun _ => rfl, fun hne => absurd rfl hne⟩
    · simp only [if_neg hpage]
      obtain ⟨hgrew, hsame, hspare⟩ := takePage_spec h hans hpage
      exact ⟨rfl, hgrew, hsame, fun _ => hspare⟩

/-! ## Filling an entry -/

theorem walk_store (hroot : v.rootPageTable ≠ 0) (is : List Index) : (v.store t idx e).walk is =
    TableTree.walk entryKind (v.store t idx e).slot 0 v.rootPageTable is := if_neg hroot

theorem reached_store (hroot : v.rootPageTable ≠ 0) : (v.store t idx e).Reached t' q ↔
    TableTree.Reached entryKind (v.store t idx e).slot v.rootPageTable t' q :=
  Vmap.reached_iff (v := v.store t idx e) hroot

/-- A store to an entry of a reached table is an edit of the tree. -/
theorem edit_store (h : WellFormed v) (ht : v.Reached t p) (hidx : idx.toNat = i.val) :
    Edit entryKind v.slot (v.store t idx e).slot v.rootPageTable t p i where
  reached := (Vmap.reached_iff ht.root_ne).mp ht
  same hq hne := slot_store_other (h.pageAddress ht)
    (h.pageAddress ((Vmap.reached_iff ht.root_ne).mpr hq)) hidx hne

theorem WellFormed.tree (h : WellFormed v) (hroot : v.rootPageTable ≠ 0) :
    Distinct entryKind v.slot v.rootPageTable := by
  intro u q q' hq hq'
  exact h.distinct ((Vmap.reached_iff hroot).mpr hq) ((Vmap.reached_iff hroot).mpr hq')

theorem stored_store (hin : t ∈ v.obtained) (hidx : idx.toNat = i.val) :
    ∃ more, (v.store t idx e).stored = more ++ v.stored ∧
      ∀ address ∈ more, ∃ page ∈ (v.store t idx e).obtained, InPage page address := by
  refine ⟨[entryAddress t idx], rfl, ?_⟩
  intro address hmem
  rw [List.mem_singleton.mp hmem]
  refine ⟨t, hin, ?_⟩
  unfold entryAddress
  rw [hidx]
  exact inPage_slot t i

theorem tableEntry_valid (page : Word) : tableEntry page &&& tblEntryValid ≠ 0 :=
  Bits.or_and_ne_zero (Bits.or_and_ne_zero (by decide))

theorem tableEntry_table (page : Word) : tableEntry page &&& tblEntryTable ≠ 0 := by
  apply Bits.or_and_ne_zero
  decide

theorem addrMask_eq : tblEntryAddrMask = Bits.field 64 12 48 := by decide

theorem PageAddress.masked (hp : PageAddress page) : page &&& tblEntryAddrMask = page := by
  rw [addrMask_eq]
  exact Bits.and_field_eq_self hp.aligned hp.fits

theorem tableEntry_addr (hp : PageAddress page) : tableEntry page &&& tblEntryAddrMask = page := by
  unfold tableEntry
  rw [hp.masked, Bits.and_eq_right_of_clear (by decide), hp.masked]

theorem entryKind_tableEntry (hp : PageAddress page) {d : Nat} (hd : d < 3) :
    entryKind d (tableEntry page) = .table page := by
  rw [entryKind_table (tableEntry_valid page) (tableEntry_table page) hd, tableEntry_addr hp]

theorem entryKind_zero (d : Nat) : entryKind d 0 = .fault := entryKind_invalid (by decide) d

/-- Hanging up a spare page where the entry was invalid. -/
theorem store_table (h : WellFormed v) (ht : v.Reached t p) (hp : p.length < 3)
    (hidx : idx.toNat = i.val) (hold : v.slot t i &&& tblEntryValid = 0) (hs : Spare v page) :
    Grew v (v.store t idx (tableEntry page)) := by
  have hpage := h.page hs.obtained
  have hne : page ≠ t := by
    intro heq
    exact hs.unreached p (heq ▸ ht)
  have hroot := ht.root_ne
  have hd := h.tree hroot
  have hedit := edit_store (e := tableEntry page) h ht hidx
  have hfault := entryKind_invalid hold p.length
  have hkind : entryKind p.length ((v.store t idx (tableEntry page)).slot t i) = .table page := by
    rw [slot_store_same hidx, entryKind_tableEntry hpage hp]
  have hempty : ∀ d j, entryKind d ((v.store t idx (tableEntry page)).slot page j) = .fault := by
    intro d j
    rw [slot_store_other (h.pageAddress ht) hpage hidx (fun heq => hne heq.1), hs.empty]
    exact entryKind_zero d
  have hwalk : ∀ {is}, is ≠ p ++ [i] →
      (v.store t idx (tableEntry page)).walk is = v.walk is := by
    intro is his
    rw [v.walk_of_root hroot, walk_store hroot]
    exact hedit.walk_newTable hd hfault hkind hempty his
  have hreach : ∀ {u q}, (v.store t idx (tableEntry page)).Reached u q →
      v.Reached u q ∨ q = p ++ [i] ∧ u = page := by
    intro u q hq
    rw [reached_store hroot] at hq
    rw [Vmap.reached_iff hroot]
    exact (hedit.reached_newTable hd hfault hkind hempty).mp hq
  refine ⟨⟨⟨?_, ?_, h.page, ⟨h.answers.page, h.answers.once⟩⟩, List.Subset.refl _,
    stored_store (h.reached ht) hidx⟩, ?_, ?_⟩
  · intro u q q' hq hq'
    have hdist := hedit.distinct_newTable hd hfault hkind hempty
      (fun q hq => hs.unreached q ((Vmap.reached_iff hroot).mpr hq))
    exact hdist ((reached_store hroot).mp hq) ((reached_store hroot).mp hq')
  · intro u q hq
    rcases hreach hq with hq | ⟨_, heq⟩
    · exact h.reached hq
    · exact heq ▸ hs.obtained
  · intro x
    apply hwalk
    intro heq
    have hlen := congrArg List.length heq
    simp only [path, List.length_cons, List.length_nil, List.length_append] at hlen
    omega
  · intro is hne
    apply hwalk
    intro heq
    rw [heq, ht.walk_append, walk_cons_fault hfault] at hne
    exact hne rfl

/-- The addresses below `p ++ [i]` lead to the entry `e`, all others where
they led before. -/
structure Entered (v v' : Vmap) (slotPath : List Index) (e : Word) : Prop extends Kept v v' where
  here : ∀ {x}, slotPath <+: path x → v'.walk (path x) = .leaf (slotPath.length - 1) e
  there : ∀ {x}, ¬ slotPath <+: path x → v'.walk (path x) = v.walk (path x)

/-- Filling an entry that is no table with a leaf. -/
theorem store_leaf (h : WellFormed v) (ht : v.Reached t p) (hidx : idx.toNat = i.val)
    (hold : ∀ u, entryKind p.length (v.slot t i) ≠ .table u) (hnew : entryKind p.length e = .leaf) :
    Entered v (v.store t idx e) (p ++ [i]) e := by
  have hroot := ht.root_ne
  have hd := h.tree hroot
  have hedit := edit_store (e := e) h ht hidx
  have hkind : entryKind p.length ((v.store t idx e).slot t i) = .leaf := by
    rw [slot_store_same hidx, hnew]
  have hreach : ∀ {u q}, (v.store t idx e).Reached u q ↔ v.Reached u q := by
    intro u q
    rw [reached_store hroot, Vmap.reached_iff hroot]
    exact hedit.reached_leaf hd hold (by simp [hkind])
  refine ⟨⟨⟨?_, ?_, h.page, ⟨h.answers.page, h.answers.once⟩⟩, List.Subset.refl _,
    stored_store (h.reached ht) hidx⟩, ?_, ?_⟩
  · intro u q q' hq hq'
    exact h.distinct (hreach.mp hq) (hreach.mp hq')
  · intro u q hq
    exact h.reached (hreach.mp hq)
  · intro x hpre
    obtain ⟨js, hjs⟩ := hpre
    rw [List.append_assoc, List.singleton_append] at hjs
    rw [← hjs, walk_store hroot, hedit.walk_leaf hd hkind,
      slot_store_same hidx, List.length_append, List.length_singleton, Nat.add_sub_cancel]
  · intro x hpre
    rw [v.walk_of_root hroot, walk_store hroot]
    exact hedit.walk_frame hd hpre

/-- Entering something after the tree has grown. -/
theorem Grew.entered (h : Grew v v') (h' : Entered v' v'' p e) : Entered v v'' p e where
  toKept := h.toKept.trans h'.toKept
  here := h'.here
  there hnot := (h'.there hnot).trans (h.address _)

/-! ## The way down -/

theorem rootTable_spec (h : WellFormed v) :
    Tried rootTable v (Grew v) fun root v' => Grew v v' ∧ v'.Reached root [] := by
  have hread : ∀ {u : Vmap}, u.rootPageTable ≠ 0 → u.Reached u.rootPageTable [] := by
    intro u hu
    unfold Vmap.Reached
    rw [u.walk_of_root hu, walk_nil]
  unfold rootTable
  rw [tried_bind, tried_read, tried_ite]
  split
  · rename_i hroot
    rw [tried_bind]
    apply (allocPage_spec h).mono (fun _ => False.elim)
    intro page v' ⟨_, hgrew, _, hspare⟩
    rw [tried_ite]
    split
    · exact hgrew
    · rename_i hpage
      rw [tried_bind, tried_modify, tried_read]
      have hs := hspare hpage
      have hwf := hgrew.wellFormed
      have hempty : ∀ d j, entryKind d (v'.slot page j) = .fault := by
        intro d j
        rw [hs.empty]
        exact entryKind_zero d
      -- there was no root, so nothing could be found before
      have hnone : ∀ is, v.walk is = .fault := fun is => if_pos hroot
      have hreach : ∀ {u q}, { v' with rootPageTable := page }.Reached u q → q = [] ∧ u = page := by
        intro u q hq
        rw [Vmap.reached_iff (v := { v' with rootPageTable := page }) hpage] at hq
        exact (reached_empty hempty).mp hq
      refine ⟨⟨⟨⟨?_, ?_, hwf.page, ⟨hwf.answers.page, hwf.answers.once⟩⟩, hgrew.obtained,
        hgrew.stored⟩, ?_, ?_⟩, hread (u := { v' with rootPageTable := page }) hpage⟩
      · intro u q q' hq hq'
        rw [(hreach hq).1, (hreach hq').1]
      · intro u q hq
        rw [(hreach hq).2]
        exact hs.obtained
      · intro x
        rw [hnone, Vmap.walk_of_root (v := { v' with rootPageTable := page }) hpage]
        exact walk_cons_fault (hempty 0 _)
      · intro is hne
        exact absurd (hnone is) hne
  · rename_i hroot
    exact ⟨Grew.refl h, hread hroot⟩

theorem entryOrNewTable_spec (h : WellFormed v) (ht : v.Reached t p) (hp : p.length < 3)
    (hidx : idx.toNat = i.val) :
    Tried (entryOrNewTable t idx) v (Grew v) fun entry v' =>
      Grew v v' ∧ entry = v'.slot t i ∧ entry &&& tblEntryValid ≠ 0 := by
  have hload : ∀ u : Vmap, u.entry t idx = u.slot t i := by
    intro u
    unfold Vmap.entry Vmap.slot entryAddress
    rw [hidx]
  unfold entryOrNewTable loadEntry
  rw [tried_bind, tried_read, tried_ite]
  split
  · rename_i hold
    rw [tried_bind]
    apply (allocPage_spec h).mono (fun _ => False.elim)
    intro page v' ⟨_, hgrew, hsame, hspare⟩
    rw [tried_ite]
    split
    · exact hgrew
    · rename_i hpage
      unfold storeEntry
      rw [tried_bind, tried_modify, tried_read, hload, slot_store_same hidx]
      refine ⟨hgrew.trans ?_, rfl, tableEntry_valid page⟩
      apply store_table hgrew.wellFormed (hgrew.reached ht) hp hidx _ (hspare hpage)
      rwa [hsame ht, ← hload]
  · rename_i hvalid
    exact ⟨Grew.refl h, hload v, hvalid⟩

end

end ZOs.Paging
