import ZOs.Lib.Circle
import ZOs.Process.FileBytes

/-!
# Bytes that no part is put over

Where no part lands in a page the block keeps what it held, so a file whose
bytes are always at their addresses has a part over each of them. Then no part
is put in a wrong place: the last byte of the first one that is would be under
no part, and a part over the end of its page needs one in the next page, and
so on around the address space.
-/

namespace ZOs.ProcessMemory

open Paging Attempt Bytes Elf Patches
open Boot (IsTable)

/-! ## Memory that is filled -/

/-- A part lands on the byte of a page. -/
def Covered (vs : List Visit) (number o : Nat) : Prop :=
  ∃ l ∈ landings [] vs, l.visit.number = number ∧ l.offset ≤ o ∧ o < l.offset + l.visit.part.2

section
variable {vs : List Visit} {number o : Nat} {file : Buffer}

/-- A byte of the first page under no part is one of the word. -/
theorem filled_uncovered (h : HasRoom vs number) (hflags : ∀ v ∈ vs, AttributeFlags v.pageFlags)
    (hcounts : ∀ v ∈ vs, v.part.2 ≤ 4096) (ho : o < 4096) (huncovered : ¬Covered vs number o)
    (word : Word) :
    ∃ p', visitAll file vs (laidOut vs (dirtyBlock vs number) word) = (some (), p') ∧
      ∀ x, pageNumber x = number → (pageOffset x).toNat = o → ∀ physicalAddress,
        p'.pageTable.vmapVirtualToPhysical x = some physicalAddress →
          readByte p'.pageTable.memory physicalAddress.toNat = byteOf word (o % 8) := by
  have hlayout := dirty_layout h
  have hnew := hlayout.new word
  obtain ⟨p', s', hcall, hrefines, hall, hpage⟩ := hlayout.run hflags hcounts file word
  refine ⟨p', hcall, fun x hx hoffset physicalAddress htranslate => ?_⟩
  have hleaves := hnew.leaves hall
  rw [hrefines.translate, hx] at htranslate
  obtain ⟨placement, hplace, rfl⟩ := Option.map_eq_some_iff.mp htranslate
  obtain ⟨hblock, -⟩ := hpage _ _ hplace
  obtain ⟨haligned, hlow, -⟩ := dirtyBlock_kind h h.visited
  obtain ⟨htoNat, -⟩ := add_offset_toNat (x := x) haligned (.inr rfl)
  rw [hblock, htoNat, hoffset, hrefines.bytes _ fun page htable => ?_, hleaves.bytes hnew,
    storeAll_of_not_covers fun patch hpatch => ?_]
  · have hmod : ((dirtyBlock vs number number).toNat + o) % 8 = o % 8 := by omega
    show byteOf word (((dirtyBlock vs number number).toNat + o) % 8) = _
    rw [hmod]
  · obtain ⟨l, hl, rfl⟩ := List.mem_map.mp hpatch
    obtain ⟨placement', hplace'⟩ := hall.visited (mem_of_landings hl)
    obtain ⟨hblock', hvisited⟩ := hpage _ _ hplace'
    rintro ⟨hlo, hhi⟩
    unfold Landing.patch at hlo hhi
    dsimp only at hlo hhi
    rw [Space.block_of_place hplace', hblock'] at hlo hhi
    by_cases hnumber : l.visit.number = number
    · rw [hnumber] at hlo hhi
      exact huncovered ⟨l, hl, hnumber, by omega, by omega⟩
    · have hother := dirtyBlock_other h hvisited hnumber
      omega
  · exact hlayout.behind htable (by omega)

/-- A page that is not visited is not mapped. -/
theorem filled_unmapped (h : HasRoom vs number) (hflags : ∀ v ∈ vs, AttributeFlags v.pageFlags)
    (hcounts : ∀ v ∈ vs, v.part.2 ≤ 4096) (word : Word) :
    ∃ p', visitAll file vs (laidOut vs (dirtyBlock vs number) word) = (some (), p') ∧
      ∀ x, (¬∃ v ∈ vs, v.number = pageNumber x) → p'.pageTable.vmapVirtualToPhysical x = none := by
  obtain ⟨p', s', hcall, hrefines, -, hpage⟩ := (dirty_layout h).run hflags hcounts file word
  refine ⟨p', hcall, fun x hx => ?_⟩
  rw [hrefines.translate, Option.map_eq_none_iff]
  by_contra hsome
  obtain ⟨placement, hplace⟩ := Option.ne_none_iff_exists'.mp hsome
  exact hx (hpage _ _ hplace).2

end

/-! ## Covered bytes -/

section
variable {file : Buffer} {program : ProgramHeader} {b number : Nat} {word : Word} {p' : Process}

/-- Where a byte of a file that lands is after a run from a filled process. -/
theorem Lands.run (hlands : Lands file) (hfits : Fits file)
    (hroom : HasRoom (allVisits file) number)
    (hcall : visitAll file (allVisits file)
      (laidOut (allVisits file) (dirtyBlock (allVisits file) number) word) = (some (), p'))
    (hsegment : IsSegment file program) (hb : b < program.pFilesz.toNat) :
    ∃ physicalAddress,
      p'.pageTable.vmapVirtualToPhysical (byteAddress program b) = some physicalAddress ∧
        readByte p'.pageTable.memory physicalAddress.toNat =
          file.bytes (program.pOffset.toNat + b) := by
  obtain ⟨l, hload, rfl⟩ := loadNewProcess_returns (l := ⟨_, []⟩) hfits.sound hcall
  exact hlands _ _ _ _ l ((dirty_layout hroom).new word) hload program hsegment b hb

theorem byteOf_zero (i : Nat) : byteOf 0 i = 0 := by
  unfold byteOf
  simp

/-- A part lands on every byte of a file that lands. -/
theorem Lands.covered (hlands : Lands file) (hfits : Fits file) (hsegment : IsSegment file program)
    (hb : b < program.pFilesz.toNat) : Covered (allVisits file)
      (pageNumber (byteAddress program b)) (pageOffset (byteAddress program b)).toNat := by
  by_contra huncovered
  have hflags : ∀ v ∈ allVisits file, AttributeFlags v.pageFlags := fun v hv =>
    flags_of_imageVisits hv
  have hcounts : ∀ v ∈ allVisits file, v.part.2 ≤ 4096 := fun v hv => count_of_imageVisits hv
  by_cases hvisited : ∃ v ∈ allVisits file, v.number = pageNumber (byteAddress program b)
  · have hroom := hfits.room hvisited
    have ho : (pageOffset (byteAddress program b)).toNat < 4096 := by
      rw [pageOffset_toNat]
      exact Nat.mod_lt _ (by decide)
    have hvalue (word : Word) : file.bytes (program.pOffset.toNat + b) =
        byteOf word ((pageOffset (byteAddress program b)).toNat % 8) := by
      obtain ⟨p', hcall, hstale⟩ := filled_uncovered hroom hflags hcounts ho huncovered word
      obtain ⟨physicalAddress, htranslate, hread⟩ := hlands.run hfits hroom hcall hsegment hb
      rw [← hread]
      exact hstale _ rfl rfl _ htranslate
    have hzero := hvalue 0
    have hones := hvalue (BitVec.allOnes 64)
    rw [byteOf_zero] at hzero
    rw [byteOf_allOnes, hzero] at hones
    exact absurd hones (by decide)
  · obtain ⟨first, hfirst⟩ := exists_visit file
    have hroom : HasRoom (allVisits file) first.number := hfits.room ⟨first, hfirst, rfl⟩
    obtain ⟨p', hcall, hunmapped⟩ := filled_unmapped hroom hflags hcounts 0
    obtain ⟨physicalAddress, htranslate, -⟩ := hlands.run hfits hroom hcall hsegment hb
    cases (hunmapped _ hvisited).symm.trans htranslate

end

/-! ## Parts that are not straight -/

/-- Every byte of the file is covered. -/
def AllCovered (file : Buffer) : Prop :=
  ∀ program, IsSegment file program → ∀ b < program.pFilesz.toNat, Covered (allVisits file)
    (pageNumber (byteAddress program b)) (pageOffset (byteAddress program b)).toNat

section
variable {file : Buffer} {kmalloc : Nat → Nat → Bool} {headers : List (Word × ProgramHeader)}
  {i : Nat} {l l' : Landing}

theorem pairwise_segmentVisits {program : ProgramHeader} (kmalloc : Nat → Bool)
    (hfew : (countPages program.pMemsz).toNat < 2 ^ 36) :
    (segmentVisits kmalloc file program).Pairwise fun u v =>
      ¬SameByte u.virtualAddress v.virtualAddress := by
  unfold segmentVisits
  rw [pageVisits_eq, List.pairwise_map]
  refine List.Pairwise.imp_of_mem (fun {j j'} hj hj' hlt hsame => ?_) List.pairwise_lt_range
  have hj := List.mem_range.mp hj
  have hj' := List.mem_range.mp hj'
  have heq := pageNumber_pageAt_inj (by omega) (by omega) (sameByte_iff.mp hsame).1
  omega

/-- No two visits are for one byte of a segment. -/
theorem pairwise_headerVisits
    (hdisjoint : headers.Pairwise fun header other =>
      header.2.Loadable → other.2.Loadable → DisjointBytes header.2 other.2)
    (hfew : ∀ header ∈ headers, header.2.Loadable →
      (countPages header.2.pMemsz).toNat < 2 ^ 36) :
    (headerVisits kmalloc file i headers).Pairwise fun u v =>
      ¬SameByte u.virtualAddress v.virtualAddress := by
  induction headers generalizing i with
  | nil => exact .nil
  | cons header rest ih =>
    obtain ⟨hfirst, hdisjoint⟩ := List.pairwise_cons.mp hdisjoint
    obtain ⟨hfew₁, hfew⟩ := List.forall_mem_cons.mp hfew
    have hrest := ih (i := i + 1) hdisjoint hfew
    obtain ⟨offset, program⟩ := header
    unfold headerVisits
    split
    · rename_i hload
      refine List.pairwise_append.mpr ⟨pairwise_segmentVisits _ (hfew₁ hload), hrest, ?_⟩
      intro u hu v hv hsame
      obtain ⟨k, hk, rfl⟩ := mem_segmentVisits.mp hu
      obtain ⟨j, other, hother, hload', hv⟩ := mem_headerVisits.mp hv
      obtain ⟨k', hk', rfl⟩ := mem_segmentVisits.mp hv
      have hcount := countPages_toNat program.pMemsz
      have hcount' := countPages_toNat other.2.pMemsz
      have hlt : 4096 * k < program.pMemsz.toNat := by omega
      refine hfirst _ (List.mem_of_getElem? hother) hload hload' _ hlt (4096 * k') (by omega) ?_
      unfold byteAddress
      rw [← Boot.pageAt_eq, ← Boot.pageAt_eq]
      exact hsame
    · exact hrest

theorem landing_unique (hfits : Fits file) (hdisjoint : DisjointSegments file)
    (hl : l ∈ landings [] (allVisits file)) (hl' : l' ∈ landings [] (allVisits file))
    (hpart : l.visit.part.2 ≠ 0) (hpart' : l'.visit.part.2 ≠ 0)
    (hsame : SameByte l.visit.virtualAddress l'.visit.virtualAddress) : l = l' := by
  let Other (u v : Visit) : Prop := u.part.2 ≠ 0 → v.part.2 ≠ 0 →
    ¬SameByte u.virtualAddress v.virtualAddress
  have hvisits : (allVisits file).Pairwise Other := by
    refine List.pairwise_append.mpr ⟨?_, ?_, fun u hu _ _ hpart => ?_⟩
    · refine List.pairwise_of_forall_mem_list fun u hu _ _ hpart => ?_
      exact absurd (congrArg Prod.snd (part_of_stackVisits hu)) hpart
    · refine (pairwise_headerVisits hdisjoint fun header hmem hload => ?_).imp
        fun hother _ _ => hother
      obtain ⟨i, hheader⟩ := List.mem_iff_getElem?.mp hmem
      exact hfits.few hheader hload
    · exact absurd (congrArg Prod.snd (part_of_stackVisits hu)) hpart
  rw [← visit_landings [] (allVisits file)] at hvisits
  have hpairs := List.pairwise_map.mp hvisits
  have hsymm : Std.Symm fun l l' : Landing => Other l.visit l'.visit :=
    ⟨fun _ _ hother hpart hpart' hsame => hother hpart' hpart hsame.symm⟩
  by_contra hne
  exact hpairs.forall hl hl' hne hpart hpart' hsame

/-- What is known of a file when its bytes have been found to be covered. -/
structure Checked (file : Buffer) : Prop where
  address : file.address ≠ 0
  inside : SegmentsInside file (programHeaders file)
  disjoint : DisjointSegments file
  fits : Fits file
  covered : AllCovered file

/-- If a byte of a part is under one that is put at its place, the two are
the same. -/
theorem Checked.same (h : Checked file) {program : ProgramHeader} {k t : Nat}
    (hl' : l' ∈ landings [] (allVisits file)) (hsegment : IsSegment file program)
    (hputs : PutsPart l.visit program k) (ht : t < l.visit.part.2)
    (hnumber : l'.visit.number = pageNumber (byteAddress program (4096 * k + t)))
    (hoffset : l'.offset = l'.visit.offset)
    (hlo : l'.offset ≤ (pageOffset (byteAddress program (4096 * k + t))).toNat)
    (hhi : (pageOffset (byteAddress program (4096 * k + t))).toNat <
      l'.offset + l'.visit.part.2) :
    l'.visit.virtualAddress = l.visit.virtualAddress ∧
      (pageOffset (byteAddress program (4096 * k + t))).toNat = l'.visit.offset + t := by
  obtain ⟨other, k', hsegment', hputs'⟩ :=
    putsPart_of_visit h.address h.inside (mem_of_landings hl') (by omega)
  obtain ⟨t', ht'⟩ := Nat.exists_eq_add_of_le hlo
  rw [hoffset] at ht'
  have hlt : l'.visit.offset + t' < 4096 := by
    rw [← ht', pageOffset_toNat]
    exact Nat.mod_lt _ (by decide)
  have hbyte := hputs'.byte t'
  rw [Nat.div_eq_of_lt hlt, Nat.add_zero, Nat.mod_eq_of_lt l'.visit.number_lt, hnumber,
    Nat.mod_eq_of_lt hlt, ← ht'] at hbyte
  have hsmall : program.pFilesz.toNat ≤ 2 ^ 48 := by
    obtain ⟨offset, hmem, hload⟩ := id hsegment
    obtain ⟨i, hheader⟩ := List.mem_iff_getElem?.mp hmem
    have hfew := h.fits.few hheader hload
    have hcount := countPages_toNat program.pMemsz
    have hle := hsegment.le h.fits.sound
    omega
  obtain ⟨rfl, heq⟩ := hputs.same h.fits.sound h.disjoint hsmall hsegment hsegment' hputs' ht
    (by omega) (sameByte_iff.mpr ⟨hbyte.1.symm, hbyte.2.symm⟩)
  have hin := (hputs.lt ht).2
  have hin' := (hputs'.lt (t := t') (by omega)).2
  obtain ⟨rfl, rfl⟩ : k' = k ∧ t' = t := by omega
  exact ⟨hputs'.address.trans hputs.address.symm, ht'⟩

/-- A part that is put in the wrong place goes over the end of its page. -/
theorem Checked.overruns (h : Checked file) (hl : l ∈ landings [] (allVisits file))
    (hpart : l.visit.part.2 ≠ 0) (hwrong : l.offset ≠ l.visit.offset) :
    ¬l.visit.EndsInPage := by
  intro hends
  have hends : l.visit.offset + l.visit.part.2 ≤ 4096 := hends
  have hstart : l.offset = 0 := (offset_of_landings hl).resolve_right hwrong
  obtain ⟨program, k, hsegment, hputs⟩ :=
    putsPart_of_visit h.address h.inside (mem_of_landings hl) hpart
  -- the last byte of the part
  obtain ⟨t, ht⟩ : ∃ t, t + 1 = l.visit.part.2 := ⟨l.visit.part.2 - 1, by omega⟩
  obtain ⟨l', hl', hnumber, hlo, hhi⟩ :=
    h.covered program hsegment (4096 * k + t) (hputs.lt (by omega)).1
  have hbyte := hputs.byte t
  rw [Nat.div_eq_of_lt (by omega), Nat.add_zero, Nat.mod_eq_of_lt l.visit.number_lt,
    Nat.mod_eq_of_lt (by omega)] at hbyte
  by_cases heq : l = l'
  · subst heq
    rw [hbyte.2] at hhi
    omega
  · have hoffset := (offset_or hl hl' (hnumber.trans hbyte.1) heq).resolve_left hwrong
    obtain ⟨hsame, -⟩ := h.same (l := l) hl' hsegment hputs (by omega) hnumber hoffset hlo hhi
    exact heq (landing_unique h.fits h.disjoint hl hl' hpart (by omega) (by rw [hsame]; rfl))

/-- So does a part in the next page. -/
theorem Checked.next (h : Checked file) (hl : l ∈ landings [] (allVisits file))
    (hends : ¬l.visit.EndsInPage) : ∃ l' ∈ landings [] (allVisits file),
      l'.visit.number = (l.visit.number + 1) % 2 ^ 36 ∧ ¬l'.visit.EndsInPage := by
  have hends : ¬l.visit.offset + l.visit.part.2 ≤ 4096 := hends
  have hlt := l.visit.offset_lt
  have hcount : l.visit.part.2 ≤ 4096 := count_of_imageVisits (mem_of_landings hl)
  obtain ⟨program, k, hsegment, hputs⟩ :=
    putsPart_of_visit h.address h.inside (mem_of_landings hl) (by omega)
  -- the first byte of the part in the next page
  obtain ⟨t, ht⟩ : ∃ t, l.visit.offset + t = 4096 := ⟨4096 - l.visit.offset, by omega⟩
  obtain ⟨l', hl', hnumber, hlo, hhi⟩ :=
    h.covered program hsegment (4096 * k + t) (hputs.lt (by omega)).1
  have hbyte := hputs.byte t
  rw [ht] at hbyte
  refine ⟨l', hl', hnumber.trans hbyte.1, fun hends' => ?_⟩
  by_cases hoffset : l'.offset = l'.visit.offset
  · obtain ⟨-, hplace⟩ := h.same hl' hsegment hputs (by omega) hnumber hoffset hlo hhi
    rw [hbyte.2] at hplace
    omega
  · exact h.overruns hl' (by omega) hoffset hends'

/-- No part goes over the end of its page: the next ones would as well, once
around the address space. -/
theorem Checked.endsInPage (h : Checked file) (hl : l ∈ landings [] (allVisits file)) :
    l.visit.EndsInPage := by
  by_contra hends
  let places : List Nat :=
    (((allVisits file).filter fun v => ¬v.EndsInPage).map Visit.number).dedup
  have hmem {l : Landing} (hl : l ∈ landings [] (allVisits file)) (hends : ¬l.visit.EndsInPage) :
      l.visit.number ∈ places :=
    List.mem_dedup.mpr (List.mem_map_of_mem
      (List.mem_filter.mpr ⟨mem_of_landings hl, decide_eq_true hends⟩))
  have hsteps : Circle.StepsOn places (2 ^ 36) 1 := by
    intro m hm
    obtain ⟨v, hv, rfl⟩ := List.mem_map.mp (List.mem_dedup.mp hm)
    obtain ⟨hv, hoverruns⟩ := List.mem_filter.mp hv
    obtain ⟨l, hl, rfl⟩ := landing_of_mem [] hv
    obtain ⟨l', hl', hnumber, hends'⟩ := h.next hl (of_decide_eq_true hoverruns)
    exact ⟨1, Nat.one_pos, Nat.le_refl 1, hnumber ▸ hmem hl' hends'⟩
  have hfirst : l.visit.number % 2 ^ 36 ∈ places := by
    rw [Nat.mod_eq_of_lt l.visit.number_lt]
    exact hmem hl hends
  have hlength := hsteps.le_length hfirst
  have hle : places.length ≤ ((allVisits file).map Visit.number).dedup.length :=
    length_le_dedup (List.nodup_dedup _) fun m hm => by
      obtain ⟨v, hv, rfl⟩ := List.mem_map.mp (List.mem_dedup.mp hm)
      exact List.mem_map_of_mem (List.mem_filter.mp hv).1
  have hpages := h.fits.pages
  omega

theorem Checked.straight (h : Checked file) : Straight file := by
  intro l hl hpart
  have hends := h.endsInPage hl
  refine ⟨?_, hends⟩
  by_contra hwrong
  exact h.overruns hl hpart hwrong hends

end

/-! ## Files -/

theorem Lands.straight {file : Buffer} (h : Lands file) (haddress : file.address ≠ 0)
    (hinside : SegmentsInside file (programHeaders file)) (hdisjoint : DisjointSegments file)
    (hfits : Fits file) : Straight file := by
  have hchecked : Checked file :=
    ⟨haddress, hinside, hdisjoint, hfits, fun _ hsegment _ hb => h.covered hfits hsegment hb⟩
  exact hchecked.straight

/-- The bytes of a file land where its headers say if every part is put at
the place of its address and ends in its page, and if the file can be loaded
only then. -/
theorem straight_lands (file : Buffer) (haddress : file.address ≠ 0)
    (hinside : SegmentsInside file (programHeaders file)) (hdisjoint : DisjointSegments file) :
    (Straight file → Lands file) ∧ (Fits file → Lands file → Straight file) :=
  ⟨fun h => h.lands haddress hinside hdisjoint,
    fun hfits h => h.straight haddress hinside hdisjoint hfits⟩

instance (file : Buffer) : Decidable (Straight file) := inferInstanceAs (Decidable (∀ _ ∈ _, _ → _))

theorem disjointSegments_one {file : Buffer} {header : Word × ProgramHeader}
    (h : programHeaders file = [header]) : DisjointSegments file := by
  unfold DisjointSegments
  rw [h]
  exact List.pairwise_singleton ..

theorem segmentsInside_one {file : Buffer} {header : Word × ProgramHeader}
    (h : programHeaders file = [header]) (hinside : header.2.Inside file) :
    SegmentsInside file (programHeaders file) := by
  intro other hother _
  rw [h, List.mem_singleton] at hother
  rwa [hother]

/-- A segment that starts with a page lands. -/
theorem tailImage_lands : Lands tailImage :=
  (straight_lands tailImage (by decide)
    (segmentsInside_one programHeaders_tailImage (holds_iff.mpr (by decide)))
    (disjointSegments_one programHeaders_tailImage)).1 (by decide +kernel)

/-- The same file, with a segment that starts 16 bytes behind it. -/
def shiftedImage : Buffer := { tailImage with bytes := Function.update tailImage.bytes 80 16 }

def shiftedProgram : ProgramHeader := ⟨1, 0, 0, 0x400010, 64, 128, 1⟩

theorem programHeaders_shiftedImage : programHeaders shiftedImage = [(64, shiftedProgram)] := by
  decide +kernel

theorem shiftedImage_fits : Fits shiftedImage where
  sound := by
    unfold Sound
    rw [programHeaders_shiftedImage]
    decide
  pages := by decide +kernel

theorem shiftedImage_lost : ¬∀ file, file.address ≠ 0 →
    SegmentsInside file (programHeaders file) → DisjointSegments file → Lands file := by
  intro h
  have haddress : shiftedImage.address ≠ 0 := by decide
  have hinside := segmentsInside_one programHeaders_shiftedImage (holds_iff.mpr (by decide))
  have hdisjoint := disjointSegments_one programHeaders_shiftedImage
  have hstraight := (h shiftedImage haddress hinside hdisjoint).straight haddress hinside hdisjoint
    shiftedImage_fits
  exact absurd hstraight (by decide +kernel)

end ZOs.ProcessMemory
