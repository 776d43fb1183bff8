import ZOs.Memory.WindowRoundTrip

/-!
# Mapping below an address

The kernel keeps the end of its address space for the heap. Calls that map
below the heap do not change where the addresses of the heap lead, and the
tables they build are pages of the page table region.
-/

namespace ZOs.Paging

open TableTree Attempt BootMap

/-! ## The same from an address on -/

/-- From `base` on, addresses lead where they led. -/
structure SameAbove (base : Nat) (v v' : Vmap) : Prop where
  root : RootKept v v'
  walk : ∀ x : Word, base ≤ x.toNat → v'.walk (path x) = v.walk (path x)

/-- Where the last block that ends at or below `base` ends. -/
def Block.limit (b : Block) (base : Nat) : Nat := base / b.size.toNat * b.size.toNat

section
variable {v v' v'' : Vmap} {base fuel : Nat} {x virtualAddress physicalAddress pageFlags : Word}
  {o : Option Unit} {b : Block}

theorem SameAbove.refl (base : Nat) (v : Vmap) : SameAbove base v v :=
  ⟨RootKept.refl v, fun _ _ => rfl⟩

theorem SameAbove.trans (h : SameAbove base v v') (h' : SameAbove base v' v'') :
    SameAbove base v v'' :=
  ⟨h.root.trans h'.root, fun x hx => (h'.walk x hx).trans (h.walk x hx)⟩

theorem isUpper_iff : isUpper x = true ↔ 0xFFFF000000000000 ≤ x.toNat := by
  unfold isUpper
  rw [decide_eq_true_iff, BitVec.le_def]
  rfl

/-- In the upper half, 48 bits tell the addresses apart. -/
theorem pageNumber_above (hupper : isUpper virtualAddress = true)
    (hbelow : virtualAddress.toNat < base) (haligned : base % 4096 = 0) (hx : base ≤ x.toNat) :
    pageNumber x ≠ pageNumber virtualAddress := by
  have hlo := isUpper_iff.mp hupper
  have hlt := x.isLt
  unfold pageNumber
  omega

theorem blockNumber_above (hupper : isUpper virtualAddress = true)
    (hbelow : virtualAddress.toNat < b.limit base) (hva : b.Base virtualAddress)
    (hx : base ≤ x.toNat) : b.number x ≠ b.number virtualAddress := by
  have hlo := isUpper_iff.mp hupper
  have hlt := x.isLt
  unfold Block.limit at hbelow
  unfold Block.number
  rw [b.size_toNat] at hbelow ⊢
  cases b <;> simp only [Block.Base, Block.offsetBits] at * <;> omega

theorem sameAbove_vmapMapPage (physicalAddress pageFlags : Word) (h : WellFormed v)
    (hnot : ¬ Covered v virtualAddress) (hupper : isUpper virtualAddress = true)
    (hbelow : virtualAddress.toNat < base) (haligned : base % 4096 = 0) :
    SameAbove base v (vmapMapPage physicalAddress virtualAddress pageFlags v).2 := by
  refine ⟨rootKept_vmapMapPage physicalAddress virtualAddress pageFlags v, fun x hx => ?_⟩
  have hspec := vmapMapPage_spec physicalAddress pageFlags h hnot
  rcases hcall : vmapMapPage physicalAddress virtualAddress pageFlags v with ⟨_ | _, v'⟩
  · exact (hspec.gaveUp hcall).address x
  · apply (hspec.returned hcall).there
    rw [path_prefix_iff]
    exact pageNumber_above hupper hbelow haligned hx

theorem sameAbove_blockMap (physicalAddress : Word) (h : WellFormed v)
    (hflags : pageFlags &&& tblEntryTable = 0) (hupper : isUpper virtualAddress = true)
    (hbelow : virtualAddress.toNat < b.limit base) :
    SameAbove base v (b.map virtualAddress physicalAddress pageFlags v).2 := by
  refine ⟨moves_blockMap RootKept.refl RootKept.trans rootKept_rootTable
    rootKept_entryOrNewTable (fun _ _ _ _ _ => rfl) b virtualAddress physicalAddress pageFlags v,
    fun x hx => ?_⟩
  have hspec := Block.map_spec (b := b) virtualAddress physicalAddress h hflags
  rcases hcall : b.map virtualAddress physicalAddress pageFlags v with ⟨_ | _, v'⟩
  · exact (hspec.gaveUp hcall).address x
  · apply (hspec.returned hcall).1.there
    rw [Block.prefix_iff]
    exact blockNumber_above hupper hbelow (Block.map_aligned hcall).1 hx

/-- A loop that goes up to `base` stays below it. -/
theorem sameAbove_vmapMapRange {finish : Word} (h : WellFormed v)
    (hclear : RangeClear fuel virtualAddress finish physicalAddress pageFlags v)
    (hupper : isUpper virtualAddress = true) (hfinish : finish.toNat ≤ base)
    (haligned : base % 4096 = 0) (hbase : base < 2 ^ 64)
    (hcall : vmapMapRange fuel virtualAddress finish physicalAddress pageFlags v = some (o, v')) :
    SameAbove base v v' := by
  induction fuel generalizing virtualAddress physicalAddress v with
  | zero => cases hcall
  | succ fuel ih =>
    by_cases hlt : virtualAddress < finish
    · obtain ⟨hnot, hrest⟩ := hclear hlt
      have hbelow : virtualAddress.toNat < base := Nat.lt_of_lt_of_le hlt hfinish
      have hframe := frame_vmapMapPage physicalAddress pageFlags h hnot
      have hsame := sameAbove_vmapMapPage physicalAddress pageFlags h hnot hupper hbelow haligned
      rcases hpage : vmapMapPage physicalAddress virtualAddress pageFlags v with ⟨_ | _, v₁⟩
      · rw [hpage] at hsame
        rw [vmapMapRange_failed hlt hpage] at hcall
        obtain ⟨-, rfl⟩ := Prod.mk.inj (Option.some.inj hcall)
        exact hsame
      · rw [hpage] at hsame hframe
        rw [vmapMapRange_next hlt hpage] at hcall
        have hnext : isUpper (virtualAddress + mmapGranuleSize) = true := by
          have hlo := isUpper_iff.mp hupper
          have hgranule : mmapGranuleSize.toNat = 4096 := rfl
          rw [isUpper_iff, BitVec.toNat_add, hgranule]
          omega
        exact hsame.trans (ih hframe.kept.wellFormed (hrest v₁ hpage) hnext hcall)
    · rw [vmapMapRange_end hlt] at hcall
      obtain ⟨-, rfl⟩ := Prod.mk.inj (Option.some.inj hcall)
      exact .refl base v

theorem sameAbove_blockMapRange {finish : Word} (h : WellFormed v)
    (hflags : pageFlags &&& tblEntryTable = 0) (hupper : isUpper virtualAddress = true)
    (hfinish : finish.toNat ≤ b.limit base) (hbase : base < 2 ^ 64)
    (hcall : b.mapRange fuel virtualAddress finish physicalAddress pageFlags v = some (o, v')) :
    SameAbove base v v' := by
  induction fuel generalizing virtualAddress physicalAddress v with
  | zero => cases hcall
  | succ fuel ih =>
    rw [Block.mapRange] at hcall
    by_cases hlt : virtualAddress < finish
    · rw [if_pos hlt] at hcall
      have hbelow : virtualAddress.toNat < b.limit base := Nat.lt_of_lt_of_le hlt hfinish
      have hframe := frame_blockMap b virtualAddress physicalAddress h hflags
      have hsame := sameAbove_blockMap physicalAddress h hflags hupper hbelow
      rcases hone : b.map virtualAddress physicalAddress pageFlags v with ⟨_ | _, v₁⟩
      · rw [hone] at hsame hcall
        obtain ⟨-, rfl⟩ := Prod.mk.inj (Option.some.inj hcall)
        exact hsame
      · rw [hone] at hsame hframe hcall
        have hnext : isUpper (virtualAddress + b.size) = true := by
          have hlo := isUpper_iff.mp hupper
          have hva := (Block.map_aligned hone).1
          unfold Block.limit at hbelow
          rw [isUpper_iff, BitVec.toNat_add]
          rw [b.size_toNat] at hbelow ⊢
          cases b <;> simp only [Block.Base, Block.offsetBits] at * <;> omega
        exact hsame.trans (ih hframe.kept.wellFormed hnext hcall)
    · rw [if_neg hlt] at hcall
      obtain ⟨-, rfl⟩ := Prod.mk.inj (Option.some.inj hcall)
      exact .refl base v

end

/-! ## Calls -/

/-- The address that selects the half a call works on. -/
def MapCall.address : MapCall → Word
  | .page _ virtualAddress _ => virtualAddress
  | .range virtualStartAddress _ _ _ => virtualStartAddress
  | .block _ virtualAddress _ _ => virtualAddress
  | .blockRange _ virtualStartAddress _ _ _ => virtualStartAddress

/-- What a call maps in the upper half ends at or below `base`. -/
def MapCall.Below (base : Nat) (c : MapCall) : Prop :=
  isUpper c.address = true →
    match c with
    | .page _ virtualAddress _ => virtualAddress.toNat < base
    | .range _ virtualEndAddress _ _ => virtualEndAddress.toNat ≤ base
    | .block b virtualAddress _ _ => virtualAddress.toNat < b.limit base
    | .blockRange b _ virtualEndAddress _ _ => virtualEndAddress.toNat ≤ b.limit base

/-- The call below a wrapper returns with the tables `v'`. -/
def MapCall.Runs (v : Vmap) (c : MapCall) (v' : Vmap) : Prop :=
  match c with
  | .page physicalAddress virtualAddress pageFlags =>
    ∃ r, vmapMapPage physicalAddress virtualAddress pageFlags v = (r, v')
  | .range virtualStartAddress virtualEndAddress physicalStartAddress pageFlags =>
    ∃ fuel r, vmapMapRange fuel virtualStartAddress virtualEndAddress physicalStartAddress
      pageFlags v = some (r, v')
  | .block b virtualAddress physicalAddress pageFlags =>
    ∃ r, b.map virtualAddress physicalAddress pageFlags v = (r, v')
  | .blockRange b virtualStartAddress virtualEndAddress physicalStartAddress pageFlags =>
    ∃ fuel r, b.mapRange fuel virtualStartAddress virtualEndAddress physicalStartAddress
      pageFlags v = some (r, v')

section
variable {s s' : Kernel} {v v' : Vmap} {own : Bool → List Word} {c : MapCall} {base : Nat}
  {x : Word} {P : Word → Prop}

/-- Where the root exists, a wrapper keeps what the call below it did. -/
theorem MapCall.runs (h : Owned s own) (hreturns : c.Returns s s') :
    ∃ v', s' = s.keep v' ∧ c.Runs (s.buildVmapTable c.address) v' := by
  cases c with
  | page physicalAddress virtualAddress pageFlags =>
    obtain ⟨r, hcall⟩ := hreturns
    rcases hpage : vmapMapPage physicalAddress virtualAddress pageFlags
      (s.buildVmapTable virtualAddress) with ⟨o, v'⟩
    rw [mmapMapPage_eq hpage] at hcall
    exact ⟨v', (Prod.mk.inj hcall).2.symm, o, hpage⟩
  | range start finish physicalAddress pageFlags =>
    obtain ⟨fuel, r, hcall⟩ := hreturns
    unfold mmapMapRange at hcall
    rcases hrange : vmapMapRange fuel start finish physicalAddress pageFlags
      (s.buildVmapTable start) with _ | ⟨_ | _, v'⟩
    · rw [hrange] at hcall
      cases hcall
    · rw [hrange] at hcall
      exact ⟨v', (Prod.mk.inj (Option.some.inj hcall)).2.symm, fuel, _, hrange⟩
    · rw [hrange] at hcall
      obtain ⟨-, rfl⟩ := Prod.mk.inj (Option.some.inj hcall)
      exact ⟨v', h.publish _, fuel, _, hrange⟩
  | block b virtualAddress physicalAddress pageFlags =>
    obtain ⟨r, hcall⟩ := hreturns
    unfold mmapMapBlock at hcall
    rcases hone : b.map virtualAddress physicalAddress pageFlags
      (s.buildVmapTable virtualAddress) with ⟨_ | _, v'⟩
    · rw [hone] at hcall
      exact ⟨v', (Prod.mk.inj hcall).2.symm, _, hone⟩
    · rw [hone] at hcall
      obtain ⟨-, rfl⟩ := Prod.mk.inj hcall
      exact ⟨v', h.publish _, _, hone⟩
  | blockRange b start finish physicalAddress pageFlags =>
    obtain ⟨fuel, r, hcall⟩ := hreturns
    unfold mmapMapBlockRange at hcall
    rcases hrange : b.mapRange fuel start finish physicalAddress pageFlags
      (s.buildVmapTable start) with _ | ⟨_ | _, v'⟩
    · rw [hrange] at hcall
      cases hcall
    · rw [hrange] at hcall
      exact ⟨v', (Prod.mk.inj (Option.some.inj hcall)).2.symm, fuel, _, hrange⟩
    · rw [hrange] at hcall
      obtain ⟨-, rfl⟩ := Prod.mk.inj (Option.some.inj hcall)
      exact ⟨v', h.publish _, fuel, _, hrange⟩

theorem MapCall.Runs.owning (h : c.Runs v v') (pages : List Word) :
    ∃ pages', c.Runs (v.owning pages) (v'.owning pages') := by
  cases c with
  | page physicalAddress virtualAddress pageFlags =>
    obtain ⟨r, hcall⟩ := h
    obtain ⟨pages', hown⟩ := (blind_vmapMapPage _ _ _).returned hcall pages
    exact ⟨pages', r, hown⟩
  | range start finish physicalAddress pageFlags =>
    obtain ⟨fuel, r, hcall⟩ := h
    obtain ⟨pages', hown⟩ := vmapMapRange_owning pages hcall
    exact ⟨pages', fuel, r, hown⟩
  | block b virtualAddress physicalAddress pageFlags =>
    obtain ⟨r, hcall⟩ := h
    obtain ⟨pages', hown⟩ := (blind_blockMap b _ _ _).returned hcall pages
    exact ⟨pages', r, hown⟩
  | blockRange b start finish physicalAddress pageFlags =>
    obtain ⟨fuel, r, hcall⟩ := h
    obtain ⟨pages', hown⟩ := blockMapRange_owning pages hcall
    exact ⟨pages', fuel, r, hown⟩

/-- A call in the upper half that stays below `base`. -/
theorem MapCall.Runs.sameAbove {pages : List Word}
    (hwf : WellFormed ((s.buildVmapTable c.address).owning pages)) (hallowed : c.Allowed s)
    (hupper : isUpper c.address = true) (hbelow : c.Below base) (haligned : base % 4096 = 0)
    (hbase : base < 2 ^ 64)
    (h : c.Runs ((s.buildVmapTable c.address).owning pages) v') :
    SameAbove base ((s.buildVmapTable c.address).owning pages) v' := by
  have hbelow := hbelow hupper
  cases c with
  | page physicalAddress virtualAddress pageFlags =>
    obtain ⟨r, hcall⟩ := h
    have hsame := sameAbove_vmapMapPage physicalAddress pageFlags hwf hallowed hupper hbelow
      haligned
    dsimp only [MapCall.address] at hsame hcall ⊢
    rw [hcall] at hsame
    exact hsame
  | range start finish physicalAddress pageFlags =>
    obtain ⟨fuel, r, hcall⟩ := h
    exact sameAbove_vmapMapRange hwf ((hallowed fuel).owning pages) hupper hbelow haligned hbase
      hcall
  | block b virtualAddress physicalAddress pageFlags =>
    obtain ⟨r, hcall⟩ := h
    have hsame := sameAbove_blockMap physicalAddress hwf hallowed hupper hbelow
    dsimp only [MapCall.address] at hsame hcall ⊢
    rw [hcall] at hsame
    exact hsame
  | blockRange b start finish physicalAddress pageFlags =>
    obtain ⟨fuel, r, hcall⟩ := h
    exact sameAbove_blockMapRange hwf hallowed hupper hbelow hbase hcall

theorem MapCall.Runs.frame {pages : List Word}
    (hwf : WellFormed ((s.buildVmapTable c.address).owning pages)) (hallowed : c.Allowed s)
    (h : c.Runs ((s.buildVmapTable c.address).owning pages) v') :
    Frame ((s.buildVmapTable c.address).owning pages) v' := by
  cases c with
  | page physicalAddress virtualAddress pageFlags =>
    obtain ⟨r, hcall⟩ := h
    have hframe := frame_vmapMapPage physicalAddress pageFlags hwf hallowed
    dsimp only [MapCall.address] at hframe hcall ⊢
    rw [hcall] at hframe
    exact hframe
  | range start finish physicalAddress pageFlags =>
    obtain ⟨fuel, r, hcall⟩ := h
    exact frame_vmapMapRange hwf ((hallowed fuel).owning pages) hcall
  | block b virtualAddress physicalAddress pageFlags =>
    obtain ⟨r, hcall⟩ := h
    have hframe := frame_blockMap b virtualAddress physicalAddress hwf hallowed
    dsimp only [MapCall.address] at hframe hcall ⊢
    rw [hcall] at hframe
    exact hframe
  | blockRange b start finish physicalAddress pageFlags =>
    obtain ⟨fuel, r, hcall⟩ := h
    exact frame_blockMapRange hwf hallowed hcall

/-! ## Tables of a region -/

/-- The tables of both halves are pages with `P`, and so are the pages that
further tables will be made of. -/
structure TablesIn (P : Word → Prop) (s : Kernel) : Prop where
  owned : ∃ own, Owned s own ∧ ∀ x, ∀ page ∈ own (isUpper x), P page
  answers : ∀ page ∈ s.answers, P page

theorem TablesIn.keep (hin : ∀ x, ∀ page ∈ own (isUpper x), P page)
    (hanswers : ∀ page ∈ s.answers, P page) (howned : Owned s own) {pages' : List Word}
    (hframe : Frame ((s.buildVmapTable x).owning (own (isUpper x))) (v'.owning pages')) :
    TablesIn P (s.keep v') := by
  refine ⟨⟨_, (howned.keep hframe).1, fun y page hpage => ?_⟩, fun page hpage => ?_⟩
  · by_cases hy : isUpper y = isUpper x
    · rw [hy, Function.update_self] at hpage
      rcases hframe.recorded.source page hpage with hold | hnew
      · exact hin x page hold
      · exact hanswers page hnew
    · rw [Function.update_of_ne hy] at hpage
      exact hin y page hpage
  · exact hanswers page (hframe.recorded.answers.subset hpage)

/-- The tables that an address of one half is translated by. -/
theorem TablesIn.reached (h : TablesIn P s) {t : Word} {p : List Index}
    (ht : (s.buildVmapTable x).Reached t p) : P t := by
  obtain ⟨own, howned, hin⟩ := h.owned
  exact hin x t ((howned.tree x).reached (p := p) ht)

theorem TablesIn.call (h : TablesIn P s) (hallowed : c.Allowed s) (hreturns : c.Returns s s') :
    TablesIn P s' := by
  obtain ⟨own, howned, hin⟩ := h.owned
  obtain ⟨v', rfl, hruns⟩ := MapCall.runs howned hreturns
  obtain ⟨pages', hown⟩ := hruns.owning (own (isUpper c.address))
  exact .keep hin h.answers howned (hown.frame (howned.tree _) hallowed)

/-- What a call below `base` leaves as it is. -/
theorem TablesIn.above (h : TablesIn P s) (hallowed : c.Allowed s) (hreturns : c.Returns s s')
    (hbelow : c.Below base) (haligned : base % 4096 = 0) (hhalf : 0xFFFF000000000000 ≤ base)
    (hbase : base < 2 ^ 64) (hx : base ≤ x.toNat) :
    (s'.buildVmapTable x).walk (path x) = (s.buildVmapTable x).walk (path x) := by
  have hxupper : isUpper x = true := isUpper_iff.mpr (Nat.le_trans hhalf hx)
  obtain ⟨own, howned, hin⟩ := h.owned
  obtain ⟨v', rfl, hruns⟩ := MapCall.runs howned hreturns
  obtain ⟨pages', hown⟩ := hruns.owning (own (isUpper c.address))
  have hframe := hown.frame (howned.tree _) hallowed
  cases hupper : isUpper c.address with
  | false =>
    have hne : isUpper c.address ≠ isUpper x := by
      rw [hupper, hxupper]
      decide
    exact (howned.sameTables hne hframe).walk (howned.tree x) (path x)
  | true =>
    have hsame := hown.sameAbove (howned.tree _) hallowed hupper hbelow haligned hbase
    have hroot : v'.rootPageTable = s.getTtbrTable c.address := hsame.root (howned.root _)
    rw [buildVmapTable_congr (hxupper.trans hupper.symm), buildVmapTable_keep hroot,
      buildVmapTable_congr (hxupper.trans hupper.symm)]
    exact hsame.walk x hx

/-- A page that is mapped where no block is: what it was mapped for, and the
other pages of its half. -/
theorem TablesIn.mapPage (h : TablesIn P s) {physicalAddress virtualAddress pageFlags : Word}
    {r : Option Unit} (hnot : ¬ Covered (s.buildVmapTable virtualAddress) virtualAddress)
    (hcall : mmapMapPage physicalAddress virtualAddress pageFlags s = (r, s'))
    (hx : isUpper x = isUpper virtualAddress) :
    (r = none ∨ pageNumber x ≠ pageNumber virtualAddress →
      (s'.buildVmapTable x).walk (path x) = (s.buildVmapTable x).walk (path x)) ∧
    (r = some () → pageNumber x = pageNumber virtualAddress →
      (s'.buildVmapTable x).walk (path x) = .leaf 3 (pageEntry physicalAddress pageFlags)) := by
  obtain ⟨own, howned, hin⟩ := h.owned
  rcases hpage : vmapMapPage physicalAddress virtualAddress pageFlags
    (s.buildVmapTable virtualAddress) with ⟨o, v'⟩
  rw [mmapMapPage_eq hpage] at hcall
  obtain ⟨rfl, rfl⟩ := Prod.mk.inj hcall
  obtain ⟨pages', hown⟩ := (blind_vmapMapPage _ _ _).returned hpage (own (isUpper virtualAddress))
  have hroot : v'.rootPageTable = s.getTtbrTable virtualAddress := by
    have hkept := rootKept_vmapMapPage physicalAddress virtualAddress pageFlags
      (s.buildVmapTable virtualAddress) (howned.root virtualAddress)
    rw [hpage] at hkept
    exact hkept
  have hspec := vmapMapPage_spec physicalAddress pageFlags (howned.tree virtualAddress) hnot
  rw [buildVmapTable_congr hx, buildVmapTable_keep hroot, buildVmapTable_congr hx]
  constructor
  · rintro (rfl | hne)
    · exact (hspec.gaveUp hown).address x
    · cases o with
      | none => exact (hspec.gaveUp hown).address x
      | some u =>
        apply (hspec.returned hown).there
        rw [path_prefix_iff]
        exact hne
  · rintro rfl hnumber
    exact (hspec.returned hown).here (path_prefix_iff.mpr hnumber)

/-- What is written to other pages changes no table. -/
theorem TablesIn.write (h : TablesIn P s) {memory : Nat → Word}
    (hsame : ∀ page, PageAddress page → P page → ∀ address, InPage page address →
      memory address = s.memory address) :
    TablesIn P { s with memory := memory } ∧ ∀ x is,
      (Kernel.buildVmapTable { s with memory := memory } x).walk is =
        (s.buildVmapTable x).walk is := by
  obtain ⟨own, howned, hin⟩ := h.owned
  have htables : ∀ x, SameTables ((s.buildVmapTable x).owning (own (isUpper x)))
      ((Kernel.buildVmapTable { s with memory := memory } x).owning (own (isUpper x))) := fun x =>
    ⟨rfl, rfl, fun page hpage => hsame page ((howned.tree x).page hpage) (hin x page hpage)⟩
  refine ⟨⟨⟨own, ⟨fun x => ?_, howned.apart, howned.root⟩, hin⟩, h.answers⟩, fun x is => ?_⟩
  · exact (htables x).wellFormed (howned.tree x)
      ⟨(howned.tree x).answers.page, (howned.tree x).answers.once⟩
  · exact (htables x).walk (howned.tree x) is

/-! ## After `mmap_init` -/

/-- From `base` on, the boot loader has mapped pages and no blocks. -/
def LoaderPages (base : Nat) (root : Word) (memory : Nat → Word) : Prop :=
  ∀ x : Word, base ≤ x.toNat → ∀ d e,
    walk entryKind (noTables memory []).slot 0 root (path x) = .leaf d e → 3 ≤ d

/-- The copy of the loader's tables has no block where they have none. -/
theorem pagesAbove_copy {memory : Nat → Word} {answers : List Word} {src ttbr0 ttbr1 : Word}
    (hfresh : FreshAnswers (noTables memory answers)) (hsrc : LoaderTables src memory answers)
    (hpages : LoaderPages base src memory) (hhalf : 0xFFFF000000000000 ≤ base)
    (hlower : allocNewTable (noTables memory answers) = (some ttbr0, v))
    (hupper : recursiveCopyTable 3 src v = (some ttbr1, v')) (hx : base ≤ x.toNat) :
    ¬ Covered ((v'.withRoots ttbr0 ttbr1).buildVmapTable x) x := by
  obtain ⟨htook₀, -⟩ := (allocNewTable_spec _).returned hlower
  have hnone : ∀ page ∈ ([] : List Word), PageAddress page ∧
      ∀ p, walk entryKind (noTables memory answers).slot 0 src p ≠ .table page := by simp
  have hfresh₁ := htook₀.fresh hfresh
  obtain ⟨taken, htook, hmem, hcopied⟩ := (recursiveCopyTable_spec rfl hfresh₁
    (hsrc.after hfresh htook₀ hnone)).returned hupper
  have hsame := hcopied.walk (path x)
  rw [walk_agree (hsrc.slot hfresh htook₀ hnone)] at hsame
  have hxupper : isUpper x = true := isUpper_iff.mpr (Nat.le_trans hhalf hx)
  have hroot : ((v'.withRoots ttbr0 ttbr1).buildVmapTable x).rootPageTable = ttbr1 :=
    if_pos hxupper
  have hne : ((v'.withRoots ttbr0 ttbr1).buildVmapTable x).rootPageTable ≠ 0 := by
    rw [hroot]
    exact (htook.pageAddress hfresh₁ hmem).nonzero
  rintro ⟨d, e, hwalk, hd⟩
  rw [Vmap.walk_of_root hne, hroot] at hwalk
  cases hstop : walk entryKind (noTables memory answers).slot 0 src (path x) with
  | fault =>
    rw [hstop] at hsame
    exact nomatch hwalk.symm.trans hsame
  | leaf d' e' =>
    rw [hstop] at hsame
    have heq := hwalk.symm.trans hsame
    injection heq with hdepth _
    exact absurd (hpages x hx d' e' hstop) (by omega)
  | table t =>
    rw [hstop] at hsame
    obtain ⟨t', ht'⟩ := hsame
    exact nomatch hwalk.symm.trans ht'

/-- What `mmap_init` leaves: tables of the page table region, and no block
from `base` on. -/
theorem tablesIn_buildTables {memory : Nat → Word} {answers : List Word} {src : Word}
    (hfresh : FreshAnswers (noTables memory answers))
    (hsrc : LoaderTables (src &&& tblEntryAddrMask) memory answers)
    (hP : ∀ page ∈ answers, P page) (hpages : LoaderPages base (src &&& tblEntryAddrMask) memory)
    (haligned : base % 4096 = 0) (hwindow : windowEnd.toNat ≤ Block.l1.limit base)
    (hbase : base < 2 ^ 64) (h : buildTables src memory answers = some s) :
    TablesIn P s ∧ ∀ x : Word, base ≤ x.toNat → ¬ Covered (s.buildVmapTable x) x := by
  have hhalf : 0xFFFF000000000000 ≤ base := by
    have hend : windowEnd.toNat = 0xFFFF500400000000 := by decide
    have hlimit : Block.l1.limit base ≤ base := Nat.div_mul_le_self _ _
    omega
  unfold buildTables at h
  rcases hlower : allocNewTable (noTables memory answers) with ⟨_ | ttbr0, v⟩
  · rw [hlower] at h
    cases h
  rw [hlower] at h
  dsimp only at h
  rcases hupper : recursiveCopyTable 3 (src &&& tblEntryAddrMask) v with ⟨_ | ttbr1, v'⟩
  · rw [hupper] at h
    cases h
  rw [hupper] at h
  dsimp only at h
  obtain ⟨own, howned, hown, hanswers⟩ := owned_twoTables hfresh hsrc hlower hupper
  have hbefore : TablesIn P (v'.withRoots ttbr0 ttbr1) :=
    ⟨⟨own, howned, fun x page hpage => hP page (hown x page hpage)⟩,
      fun page hpage => hP page (hanswers hpage)⟩
  rcases hcall : mmapMapRangeL1Block 17 windowStart windowEnd 0 windowFlags
    (v'.withRoots ttbr0 ttbr1) with _ | ⟨_ | _, s'⟩
  · rw [hcall] at h
    cases h
  · rw [hcall] at h
    cases h
  rw [hcall] at h
  obtain rfl := Option.some.inj h
  -- the window is one more call, below `base`
  have hallowed : MapCall.Allowed (v'.withRoots ttbr0 ttbr1)
      (.blockRange .l1 windowStart windowEnd 0 windowFlags) := windowFlags_attributes.table
  have hreturns : MapCall.Returns (v'.withRoots ttbr0 ttbr1)
      (.blockRange .l1 windowStart windowEnd 0 windowFlags) s' := ⟨17, _, hcall⟩
  refine ⟨hbefore.call hallowed hreturns, fun x hx => ?_⟩
  have hwalk := hbefore.above hallowed hreturns (fun _ => hwindow) haligned hhalf hbase hx
  rintro ⟨d, e, hleaf, hd⟩
  rw [hwalk] at hleaf
  exact pagesAbove_copy hfresh hsrc hpages hhalf hlower hupper hx ⟨d, e, hleaf, hd⟩

end

end ZOs.Paging
