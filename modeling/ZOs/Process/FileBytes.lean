import ZOs.Process.Landing

/-!
# The bytes of the file

`allocate_memory_pages` puts a part at the start of a page that is new, even
if the segment starts further behind, and lets it go over the end of the page.
A file of which no part needs either is in memory as its headers say; of
another one that can be loaded, some byte is not (`lands_iff`).
-/

namespace ZOs.ProcessMemory

open Paging Attempt Bytes Elf Patches
open Boot (IsTable)

/-! ## Segments -/

/-- Translation looks at 48 bits of an address. -/
def SameByte (x y : Word) : Prop := x.toNat % 2 ^ 48 = y.toNat % 2 ^ 48

/-- The address of byte `b`. -/
def byteAddress (program : ProgramHeader) (b : Nat) : Word := program.pVaddr + BitVec.ofNat 64 b

/-- No byte is in both segments. -/
def DisjointBytes (program other : ProgramHeader) : Prop :=
  ∀ b < program.pMemsz.toNat, ∀ b' < other.pMemsz.toNat,
    ¬SameByte (byteAddress program b) (byteAddress other b')

/-- The byte ranges of the segments are disjoint; two of them may share a
page. -/
def DisjointSegments (file : Buffer) : Prop :=
  (programHeaders file).Pairwise fun header other =>
    header.2.Loadable → other.2.Loadable → DisjointBytes header.2 other.2

/-- The segments to load. -/
def IsSegment (file : Buffer) (program : ProgramHeader) : Prop :=
  ∃ offset, (offset, program) ∈ programHeaders file ∧ program.Loadable

/-- When the file has been loaded into a new process, every byte of its
segments is at its address. -/
def Lands (file : Buffer) : Prop :=
  ∀ stackKmalloc kmalloc mainThread p l, NewProcess p →
    loadNewProcess stackKmalloc kmalloc mainThread file ⟨p, []⟩ = (some (), l) →
    ∀ program, IsSegment file program → ∀ b < program.pFilesz.toNat, ∃ physicalAddress,
      l.process.pageTable.vmapVirtualToPhysical (byteAddress program b) = some physicalAddress ∧
        readByte l.process.pageTable.memory physicalAddress.toNat =
          file.bytes (program.pOffset.toNat + b)

/-- Every part is put at the place of its address, and ends in the page. -/
def Straight (file : Buffer) : Prop :=
  ∀ l ∈ landings [] (allVisits file), l.visit.part.2 ≠ 0 →
    l.offset = l.visit.offset ∧ l.visit.EndsInPage

theorem sameByte_iff {x y : Word} :
    SameByte x y ↔ pageNumber x = pageNumber y ∧ (pageOffset x).toNat = (pageOffset y).toNat := by
  unfold SameByte pageNumber
  rw [pageOffset_toNat, pageOffset_toNat]
  omega

/-! ## Parts -/

/-- The visit puts part `k` of a segment. -/
structure PutsPart (v : Visit) (program : ProgramHeader) (k : Nat) : Prop where
  address : v.virtualAddress = pageAt program.pVaddr k
  inside : 4096 * k < program.pFilesz.toNat
  source : v.part.1.toNat = program.pOffset.toNat + 4096 * k
  length : v.part.2 = min (program.pFilesz.toNat - 4096 * k) 4096

section
variable {file : Buffer} {source : Word} {n j k : Nat} {program : ProgramHeader} {v : Visit}
  {kmalloc : Nat → Bool} {stackKmalloc : Nat → Bool}

/-- The pointer to data that is in the file is not null. -/
theorem not_null (haddress : file.address ≠ 0) (hinside : source.toNat + n ≤ file.size.toNat)
    (hn : n ≠ 0) : ¬(file.address + source = 0 ∨ n = 0) := by
  rintro (hnull | hnone)
  · have hfits := file.fits
    have hpos : file.address.toNat ≠ 0 := fun hzero => haddress (BitVec.eq_of_toNat_eq hzero)
    have htoNat : (file.address + source).toNat = 0 := congrArg BitVec.toNat hnull
    rw [BitVec.toNat_add, Nat.mod_eq_of_lt (by omega)] at htoNat
    omega
  · exact hn hnone

/-- The parts of such data. -/
theorem partAt_eq (haddress : file.address ≠ 0) (hinside : source.toNat + n ≤ file.size.toNat)
    (hj : 4096 * j < n) : partAt file (some source) n j =
      (source + BitVec.ofNat 64 (4096 * j), min (n - 4096 * j) 4096) := by
  have hfits := file.fits
  have hsome := not_null haddress hinside (by omega)
  induction j generalizing source n with
  | zero =>
    unfold partAt nextPart
    dsimp only
    rw [if_neg hsome]
    split
    · rw [Nat.mul_zero, Nat.sub_zero, Nat.min_eq_left (by omega)]
      simp
    · rw [Nat.mul_zero, Nat.sub_zero, Nat.min_eq_right (by omega)]
      simp
  | succ j ih =>
    have hnext : (nextPart file (some source) n).2 = (some (source + pageSize), n - 4096) := by
      unfold nextPart
      dsimp only
      rw [if_neg hsome, if_neg (by omega)]
    have hsource : (source + pageSize).toNat = source.toNat + 4096 := by
      show (source + BitVec.ofNat 64 4096).toNat = _
      rw [BitVec.toNat_add, BitVec.toNat_ofNat]
      omega
    have hinside' : (source + pageSize).toNat + (n - 4096) ≤ file.size.toNat := by omega
    unfold partAt
    dsimp only
    rw [hnext, ih hinside' (by omega) (not_null haddress hinside' (by omega))]
    refine Prod.ext ?_ ?_
    · apply BitVec.eq_of_toNat_eq
      show ((source + pageSize) + BitVec.ofNat 64 (4096 * j)).toNat = _
      rw [BitVec.toNat_add, hsource, BitVec.toNat_add, BitVec.toNat_ofNat, BitVec.toNat_ofNat]
      omega
    · show min (n - 4096 - 4096 * j) 4096 = min (n - 4096 * (j + 1)) 4096
      omega

theorem putsPart_segmentVisit (haddress : file.address ≠ 0) (hinside : program.Inside file)
    (hk : 4096 * k < program.pFilesz.toNat) :
    PutsPart (segmentVisit kmalloc file program k) program k := by
  have hfits := file.fits
  have hinside : program.pOffset.toNat + program.pFilesz.toNat ≤ file.size.toNat := hinside
  have hpart := partAt_eq haddress hinside hk
  refine ⟨rfl, hk, ?_, congrArg Prod.snd hpart⟩
  show (partAt file (some program.pOffset) program.pFilesz.toNat k).1.toNat = _
  rw [hpart, BitVec.toNat_add, BitVec.toNat_ofNat]
  omega

/-- A visit that puts something puts a part of a segment. -/
theorem putsPart_of_visit {kmalloc : Nat → Nat → Bool} (haddress : file.address ≠ 0)
    (hinside : SegmentsInside file (programHeaders file))
    (hv : v ∈ imageVisits stackKmalloc kmalloc file) (hpart : v.part.2 ≠ 0) :
    ∃ program k, IsSegment file program ∧ PutsPart v program k := by
  rcases mem_imageVisits.mp hv with hstack | ⟨j, offset, program, hheader, hload, k, hk, rfl⟩
  · exact absurd (congrArg Prod.snd (part_of_stackVisits hstack)) hpart
  · have hmem := List.mem_of_getElem? hheader
    have hle : (segmentVisit (kmalloc j) file program k).part.2 ≤ _ := partAt_le ..
    exact ⟨program, k, ⟨offset, hmem, hload⟩,
      putsPart_segmentVisit haddress (hinside _ hmem hload) (by omega)⟩

/-- Every byte of the file is in a part. -/
theorem visit_of_byte {b : Nat} (stackKmalloc : Nat → Bool) (kmalloc : Nat → Nat → Bool)
    (haddress : file.address ≠ 0) (hinside : SegmentsInside file (programHeaders file))
    (hsound : Sound (programHeaders file)) (hsegment : IsSegment file program)
    (hb : b < program.pFilesz.toNat) :
    ∃ v ∈ imageVisits stackKmalloc kmalloc file, PutsPart v program (b / 4096) := by
  obtain ⟨offset, hmem, hload⟩ := hsegment
  obtain ⟨i, hheader⟩ := List.mem_iff_getElem?.mp hmem
  have hrefused := of_decide_eq_false (hsound _ hmem hload)
  have hle : program.pFilesz.toNat ≤ program.pMemsz.toNat :=
    Nat.le_of_not_lt fun h => hrefused (.inl h)
  have hcount := countPages_toNat program.pMemsz
  exact ⟨_, mem_imageVisits.mpr
      (.inr ⟨i, offset, program, hheader, hload, b / 4096, by omega, rfl⟩),
    putsPart_segmentVisit haddress (hinside _ hmem hload) (by omega)⟩

/-- Where byte `t` of a part belongs. -/
theorem PutsPart.byte (h : PutsPart v program k) (t : Nat) :
    pageNumber (byteAddress program (4096 * k + t)) =
        (v.number + (v.offset + t) / 4096) % 2 ^ 36 ∧
      (pageOffset (byteAddress program (4096 * k + t))).toNat = (v.offset + t) % 4096 := by
  unfold Visit.number Visit.offset byteAddress pageNumber
  rw [pageOffset_toNat, pageOffset_toNat, h.address, pageAt_toNat, BitVec.toNat_add,
    BitVec.toNat_ofNat]
  omega

end

/-! ## Straight files -/

/-- The landing, without what `kmalloc` answered. -/
def Landing.bare (l : Landing) : Landing := ⟨l.offset, l.visit.bare⟩

theorem landings_bare (seen : List Nat) (vs : List Visit) :
    (landings seen vs).map Landing.bare = landings seen (vs.map Visit.bare) := by
  induction vs generalizing seen with
  | nil => rfl
  | cons v vs ih => exact congrArg (List.cons _) (ih (v.number :: seen))

section
variable {file : Buffer} {stackKmalloc : Nat → Bool} {kmalloc : Nat → Nat → Bool} {l : Landing}

theorem Straight.landing (h : Straight file)
    (hl : l ∈ landings [] (imageVisits stackKmalloc kmalloc file)) (hpart : l.visit.part.2 ≠ 0) :
    l.offset = l.visit.offset ∧ l.visit.EndsInPage := by
  refine h l.bare ?_ hpart
  show l.bare ∈ landings [] (allVisits file)
  rw [← bare_imageVisits stackKmalloc kmalloc file, ← landings_bare]
  exact List.mem_map_of_mem hl

theorem Straight.contained (h : Straight file) : Contained (allVisits file) := by
  refine List.pairwise_of_forall_mem_list fun _ _ v hv _ => ?_
  by_cases hpart : v.part.2 = 0
  · have hlt := v.offset_lt
    unfold Visit.offset at hlt
    unfold Visit.EndsInPage
    omega
  · obtain ⟨l, hl, rfl⟩ := landing_of_mem [] hv
    exact (h l hl hpart).2

end

section
variable {s s' : Space} {file : Buffer} {v : Visit} {vs : List Visit} {program : ProgramHeader}
  {p : Process} {number : Nat} {placement : Placement}

/-- Every page that is visited is somewhere in the window. -/
theorem Space.VisitsAll.visited (h : s.VisitsAll file vs s') (hv : v ∈ vs) :
    ∃ placement, s'.place v.number = some placement := by
  induction h with
  | nil => cases hv
  | cons hvisits hrest ih =>
    rcases List.mem_cons.mp hv with rfl | hv
    · obtain ⟨address, s₁, hfinds, -, rfl⟩ := hvisits
      obtain ⟨placement, hplace⟩ := Option.ne_none_iff_exists'.mp hfinds.place.2
      exact ⟨placement, hrest.stays hplace⟩
    · exact ih hv

theorem Space.VisitsAll.uses {Kind : Word → Prop} (h : s.VisitsAll file vs s')
    (huses : s.Uses Kind) : s'.Uses Kind := by
  induction h with
  | nil => exact huses
  | cons hvisits _ ih => exact ih (hvisits.uses huses)

theorem Space.VisitsAll.low (h : s.VisitsAll file vs s')
    (hlow : ∀ number placement, s.place number = some placement →
      placement.page.toNat < mmapPhysicalRegionSize) :
    ∀ number placement, s'.place number = some placement →
      placement.page.toNat < mmapPhysicalRegionSize := by
  induction h with
  | nil => exact hlow
  | cons hvisits _ ih =>
    rename_i s s₁ s' v vs _
    refine ih fun number placement hplace => ?_
    obtain ⟨address, s₁, hfinds, hwindow, rfl⟩ := hvisits
    cases hfinds with
    | again => exact hlow number placement hplace
    | first =>
      by_cases hnumber : number = v.number
      · have hplace : Function.update s.place v.number _ number = some placement := hplace
        rw [hnumber, Function.update_self] at hplace
        cases hplace
        exact hwindow
      · have hplace : Function.update s.place v.number _ number = some placement := hplace
        rw [Function.update_of_ne hnumber] at hplace
        exact hlow number placement hplace

/-- Different pages of the window are not many. -/
theorem few_pages {page : Nat → Word} {n : Nat}
    (hinj : ∀ j < n, ∀ j' < n, page j = page j' → j = j')
    (haligned : ∀ j < n, (page j).toNat % 4096 = 0)
    (hlow : ∀ j < n, (page j).toNat < mmapPhysicalRegionSize) : n ≤ 2 ^ 22 := by
  by_contra hmany
  have hsize : mmapPhysicalRegionSize = 2 ^ 34 := rfl
  obtain ⟨a, b, hne, hsame⟩ := Fintype.exists_ne_map_eq_of_card_lt
    (fun j : Fin (2 ^ 22 + 1) => (⟨(page j).toNat / 4096, by
      have hlow := hlow j (by omega)
      omega⟩ : Fin (2 ^ 22))) (by simp)
  have ha := haligned a (by omega)
  have hb := haligned b (by omega)
  have hquotient : (page a).toNat / 4096 = (page b).toNat / 4096 := congrArg Fin.val hsame
  refine hne (Fin.ext (hinj a (by omega) b (by omega) ?_))
  apply BitVec.eq_of_toNat_eq
  omega

end

/-! ## Bytes of segments -/

section
variable {file : Buffer} {program other : ProgramHeader} {v w : Visit} {b b' k k' : Nat}

theorem IsSegment.le (h : IsSegment file program) (hsound : Sound (programHeaders file)) :
    program.pFilesz.toNat ≤ program.pMemsz.toNat := by
  obtain ⟨offset, hmem, hload⟩ := h
  have hrefused := of_decide_eq_false (hsound _ hmem hload)
  exact Nat.le_of_not_lt fun h => hrefused (.inl h)

theorem DisjointSegments.same (hdisjoint : DisjointSegments file) (h : IsSegment file program)
    (h' : IsSegment file other) (hb : b < program.pMemsz.toNat) (hb' : b' < other.pMemsz.toNat)
    (hsame : SameByte (byteAddress program b) (byteAddress other b')) : program = other := by
  obtain ⟨offset, hmem, hload⟩ := h
  obtain ⟨offset', hmem', hload'⟩ := h'
  let Apart (header other : Word × ProgramHeader) : Prop :=
    header.2.Loadable → other.2.Loadable → DisjointBytes header.2 other.2
  have hsymm : Std.Symm Apart :=
    ⟨fun _ _ hapart hload hload' b hb b' hb' hsame => hapart hload' hload b' hb' b hb hsame.symm⟩
  have hpairs : (programHeaders file).Pairwise Apart := hdisjoint
  by_contra hne
  exact hpairs.forall hmem hmem' (fun heq => hne (congrArg Prod.snd heq)) hload hload' b hb b' hb'
    hsame

theorem byteAddress_inj (hb : b < 2 ^ 48) (hb' : b' < 2 ^ 48)
    (hsame : SameByte (byteAddress program b) (byteAddress program b')) : b = b' := by
  unfold SameByte byteAddress at hsame
  rw [BitVec.toNat_add, BitVec.toNat_add, BitVec.toNat_ofNat, BitVec.toNat_ofNat] at hsame
  omega

theorem PutsPart.lt {t : Nat} (h : PutsPart v program k) (ht : t < v.part.2) :
    4096 * k + t < program.pFilesz.toNat ∧ t < 4096 := by
  rw [h.length] at ht
  omega

/-- A byte belongs in one part only. -/
theorem PutsPart.same {t t' : Nat} (hsound : Sound (programHeaders file))
    (hdisjoint : DisjointSegments file) (hsmall : program.pFilesz.toNat ≤ 2 ^ 48)
    (hsegment : IsSegment file program) (hsegment' : IsSegment file other)
    (h : PutsPart v program k) (h' : PutsPart w other k') (ht : t < v.part.2) (ht' : t' < w.part.2)
    (hsame : SameByte (byteAddress program (4096 * k + t)) (byteAddress other (4096 * k' + t'))) :
    program = other ∧ 4096 * k + t = 4096 * k' + t' := by
  have hlt := (h.lt ht).1
  have hlt' := (h'.lt ht').1
  have hle := hsegment.le hsound
  have hle' := hsegment'.le hsound
  have heq : program = other :=
    hdisjoint.same hsegment hsegment' (by omega) (by omega) hsame
  subst heq
  exact ⟨rfl, byteAddress_inj (by omega) (by omega) hsame⟩

end

/-! ## Straight files are loaded -/

section
variable {file : Buffer} {stackKmalloc : Nat → Bool} {kmalloc : Nat → Nat → Bool}
  {mainThread : Bool} {p : Process} {l : Loading} {program : ProgramHeader} {s : Space} {b : Nat}

/-- What a run leaves, without tables. -/
structure Leaves (p : Process) (file : Buffer) (vs : List Visit) (s : Space) : Prop where
  all : p.newSpace.VisitsAll file vs s
  distinct : s.Distinct
  aligned : ∀ number placement, s.place number = some placement → placement.page.toNat % 4096 = 0
  low : ∀ number placement, s.place number = some placement →
    placement.page.toNat < mmapPhysicalRegionSize

/-- The block of a page. -/
def Space.block (s : Space) (number : Nat) : Word := (s.place number).elim 0 Placement.page

theorem Space.block_of_place {number : Nat} {placement : Placement}
    (h : s.place number = some placement) : s.block number = placement.page := by
  unfold Space.block
  rw [h]
  rfl

theorem NewProcess.blocksAligned (h : NewProcess p) :
    p.newSpace.Uses fun page => page.toNat % 4096 = 0 where
  place _ _ hplace := nomatch hplace
  blocks page hpage := (h.block page hpage).1.aligned

theorem NewProcess.leaves {vs : List Visit} (h : NewProcess p)
    (hall : p.newSpace.VisitsAll file vs s) : Leaves p file vs s where
  all := hall
  distinct := hall.distinct ⟨h.once, fun _ _ hplace => (nomatch hplace),
    fun _ _ _ _ hplace => (nomatch hplace)⟩
  aligned := (hall.uses h.blocksAligned).place
  low := hall.low fun _ _ hplace => nomatch hplace

theorem Leaves.bytes {vs : List Visit} (h : Leaves p file vs s) (hnew : NewProcess p) :
    s.bytes = storeAll ((landings [] vs).map (Landing.patch file fun n => (s.block n).toNat))
      p.newSpace.bytes := by
  refine h.all.stores hnew.blocksAligned (fun number => ?_) fun number placement hplace => ?_
  · exact ⟨fun hmem => (nomatch hmem), fun hplace => absurd rfl hplace⟩
  · rw [Space.block_of_place hplace]

/-- A segment that has been loaded does not go round the address space. -/
theorem Leaves.small (h : Leaves p file (imageVisits stackKmalloc kmalloc file) s)
    (hsegment : IsSegment file program) : program.pMemsz.toNat ≤ 2 ^ 34 := by
  obtain ⟨offset, hmem, hload⟩ := hsegment
  obtain ⟨i, hheader⟩ := List.mem_iff_getElem?.mp hmem
  let number (j : Nat) : Nat := pageNumber (pageAt program.pVaddr j)
  have hplace : ∀ j < (countPages program.pMemsz).toNat, ∃ placement,
      s.place (number j) = some placement := fun j hj =>
    h.all.visited (mem_imageVisits.mpr (.inr ⟨i, offset, program, hheader, hload, j, hj, rfl⟩))
  have hfew : min (countPages program.pMemsz).toNat (2 ^ 36) ≤ 2 ^ 22 := by
    refine @few_pages (fun j => s.block (number j)) _ (fun j hj j' hj' hsame => ?_)
      (fun j hj => ?_) fun j hj => ?_
    · obtain ⟨placement, hj₁⟩ := hplace j (by omega)
      obtain ⟨placement', hj₂⟩ := hplace j' (by omega)
      rw [Space.block_of_place hj₁, Space.block_of_place hj₂] at hsame
      exact pageNumber_pageAt_inj (by omega) (by omega) (h.distinct.place _ _ _ _ hj₁ hj₂ hsame)
    · obtain ⟨placement, hj₁⟩ := hplace j (by omega)
      rw [Space.block_of_place hj₁]
      exact h.aligned _ _ hj₁
    · obtain ⟨placement, hj₁⟩ := hplace j (by omega)
      rw [Space.block_of_place hj₁]
      exact h.low _ _ hj₁
  have hcount := countPages_toNat program.pMemsz
  omega

theorem Visit.number_lt (v : Visit) : v.number < 2 ^ 36 := by
  unfold Visit.number pageNumber
  omega

/-- A byte of a page is only under parts that are put in it. -/
theorem Leaves.of_covers {landing : Landing} {number o : Nat} {placement : Placement}
    (h : Leaves p file (imageVisits stackKmalloc kmalloc file) s) (hstraight : Straight file)
    (hplace : s.place number = some placement) (ho : o < 4096)
    (hlanding : landing ∈ landings [] (imageVisits stackKmalloc kmalloc file))
    (hcovers : (landing.patch file fun n => (s.block n).toNat).Covers
      (placement.page.toNat + o)) :
    landing.visit.number = number ∧ landing.offset = landing.visit.offset ∧
      landing.visit.offset ≤ o ∧ o < landing.visit.offset + landing.visit.part.2 := by
  obtain ⟨placement', hplace'⟩ := h.all.visited (mem_of_landings hlanding)
  have haligned := h.aligned _ _ hplace
  have haligned' := h.aligned _ _ hplace'
  obtain ⟨hlo, hhi⟩ := hcovers
  unfold Landing.patch at hlo hhi
  dsimp only at hlo hhi
  rw [Space.block_of_place hplace'] at hlo hhi
  obtain ⟨hoffset, hends⟩ := hstraight.landing hlanding (by omega)
  have hends : landing.visit.offset + landing.visit.part.2 ≤ 4096 := hends
  have hpage : placement'.page = placement.page := by
    apply BitVec.eq_of_toNat_eq
    omega
  have hnumber := h.distinct.place _ _ _ _ hplace' hplace hpage
  rw [hpage] at hlo hhi
  exact ⟨hnumber, hoffset, by omega, by omega⟩

/-- The parts over a byte of a segment have its value there. -/
theorem Leaves.value {landing landing' : Landing} {k : Nat} {placement : Placement} {c : Nat}
    (h : Leaves p file (imageVisits stackKmalloc kmalloc file) s) (hstraight : Straight file)
    (haddress : file.address ≠ 0) (hinside : SegmentsInside file (programHeaders file))
    (hsound : Sound (programHeaders file)) (hdisjoint : DisjointSegments file)
    (hsegment : IsSegment file program) (hputs : PutsPart landing.visit program k) {t : Nat}
    (ht : t < landing.visit.part.2) (hends : landing.visit.EndsInPage)
    (hplace : s.place landing.visit.number = some placement)
    (hlanding' : landing' ∈ landings [] (imageVisits stackKmalloc kmalloc file))
    (hc : c = placement.page.toNat + (landing.visit.offset + t))
    (hcovers : (landing'.patch file fun n => (s.block n).toNat).Covers c) :
    (landing'.patch file fun n => (s.block n).toNat).value
        (c - (landing'.patch file fun n => (s.block n).toNat).start) =
      file.bytes (program.pOffset.toNat + (4096 * k + t)) := by
  have hends : landing.visit.offset + landing.visit.part.2 ≤ 4096 := hends
  subst hc
  obtain ⟨hnumber, hoffset, hlo, hhi⟩ := h.of_covers hstraight hplace (by omega) hlanding' hcovers
  obtain ⟨other, k', hsegment', hputs'⟩ :=
    putsPart_of_visit haddress hinside (mem_of_landings hlanding') (by omega)
  obtain ⟨t', ht'⟩ : ∃ t', landing.visit.offset + t = landing'.visit.offset + t' :=
    Nat.exists_eq_add_of_le hlo
  have hsmall := h.small hsegment
  have hle := hsegment.le hsound
  have hbyte := hputs.byte t
  have hbyte' := hputs'.byte t'
  rw [← ht', hnumber, ← hbyte.1, ← hbyte.2] at hbyte'
  obtain ⟨rfl, heq⟩ := hputs.same hsound hdisjoint (by omega) hsegment hsegment' hputs' ht
    (by omega) (sameByte_iff.mpr ⟨hbyte'.1.symm, hbyte'.2.symm⟩)
  unfold Landing.patch
  dsimp only
  rw [hnumber, Space.block_of_place hplace, hoffset, hputs'.source, ht', ← Nat.add_assoc,
    Nat.add_sub_cancel_left, heq, Nat.add_assoc]

theorem Straight.lands (h : Straight file) (haddress : file.address ≠ 0)
    (hinside : SegmentsInside file (programHeaders file)) (hdisjoint : DisjointSegments file) :
    Lands file := by
  intro stackKmalloc kmalloc mainThread p l hnew hcall program hsegment b hb
  obtain ⟨hsound, -⟩ := loadNewProcess_returned hcall
  obtain ⟨s, hall, hrefines, huses⟩ := loaded_space hnew h.contained hcall
  have hleaves := hnew.leaves hall
  obtain ⟨v, hv, hputs⟩ := visit_of_byte stackKmalloc kmalloc haddress hinside hsound hsegment hb
  obtain ⟨landing, hlanding, rfl⟩ := landing_of_mem [] hv
  obtain ⟨placement, hplace⟩ := hall.visited hv
  have ht : b % 4096 < landing.visit.part.2 := by
    have hlength := hputs.length
    omega
  obtain ⟨hoffset, hends⟩ := h.landing hlanding (by omega)
  have hends' : landing.visit.offset + landing.visit.part.2 ≤ 4096 := hends
  have hb : b = 4096 * (b / 4096) + b % 4096 := (Nat.div_add_mod ..).symm
  obtain ⟨hnumber, hplaced⟩ := hputs.byte (b % 4096)
  rw [← hb, Nat.div_eq_of_lt (by omega), Nat.add_zero,
    Nat.mod_eq_of_lt landing.visit.number_lt] at hnumber
  rw [← hb, Nat.mod_eq_of_lt (by omega)] at hplaced
  have haligned := hleaves.aligned _ _ hplace
  have haddress' := (add_offset_toNat (x := byteAddress program b) haligned (.inr rfl)).1
  rw [hplaced] at haddress'
  have hpage := huses.place _ _ hplace
  refine ⟨placement.page + pageOffset (byteAddress program b), ?_, ?_⟩
  · rw [hrefines.translate, hnumber, hplace]
    rfl
  · rw [hrefines.bytes _ fun page htable hin => ?_, hleaves.bytes hnew]
    · refine storeAll_eq (fun patch hpatch hcovers => ?_) fun hnone => ?_
      · obtain ⟨landing', hlanding', rfl⟩ := List.mem_map.mp hpatch
        refine (hleaves.value h haddress hinside hsound hdisjoint hsegment hputs ht hends hplace
          hlanding' haddress' hcovers).trans ?_
        rw [← hb]
      · refine absurd ?_ (hnone _ (List.mem_map_of_mem hlanding))
        unfold Patch.Covers Landing.patch
        dsimp only
        rw [Space.block_of_place hplace, hoffset]
        omega
    · have hsame := inPage_unique (hnew.tables htable).1 hpage.1 hin ⟨by omega, by omega⟩
      exact hpage.2 (hsame ▸ htable)

end

end ZOs.ProcessMemory
