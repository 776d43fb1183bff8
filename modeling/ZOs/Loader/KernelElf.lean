import ZOs.Lib.Attempt
import ZOs.Process.Elf

/-!
# Parsing the kernel's file

`loader/kernel_elf.c`. The boot loader collects the segments to load; the
only thing it compares with the size of the buffer is the end of the table
of program headers, in arithmetic that wraps. `parse_inside_iff`: for which
files all that it reads is in the buffer, and all that it collects.
-/

namespace ZOs.Boot

open Elf Attempt

/-! ## `kernel_elf_parse_loadable_segments` -/

/-- `KERNEL_ELF_MAX_SEGMENTS`. -/
def kernelElfMaxSegments : Nat := 10

/-- `kernel_elf_segment_t`; the start is a place in the buffer. -/
structure KernelElfSegment where
  loadableSegmentStart : BitVec 64
  loadableSegmentMemorySize : BitVec 64
  loadableSegmentFileSize : BitVec 64
  imageStart : BitVec 64
  alignment : BitVec 64
  flags : BitVec 32
  deriving DecidableEq

/-- `kernel_elf_info_t`, with the segments that have been filled in. -/
structure KernelElfInfo where
  entryPoint : BitVec 64
  numSegments : BitVec 8
  segments : List KernelElfSegment

/-- What is written and what has been read of the buffer. -/
structure Parsing where
  info : KernelElfInfo
  reads : List Read

def Parsing.noted (s : Parsing) (offset : BitVec 64) (n : Nat) : Parsing :=
  { s with reads := s.reads ++ [(offset, n)] }

/-- A part of the buffer is read. -/
def note (offset : BitVec 64) (n : Nat) : Attempt Parsing Unit := .modify (·.noted offset n)

def segmentOf (program : ProgramHeader) : KernelElfSegment where
  loadableSegmentStart := program.pOffset
  loadableSegmentMemorySize := program.pMemsz
  loadableSegmentFileSize := program.pFilesz
  imageStart := program.pVaddr
  alignment := program.pAlign
  flags := program.pFlags

def Parsing.collect (s : Parsing) (program : ProgramHeader) : Parsing :=
  { s with info := { s.info with segments := s.info.segments ++ [segmentOf program] } }

/-- The body of the loop for a segment to load. -/
def collectSegment (program : ProgramHeader) : Attempt Parsing Unit := do
  let loadableSegmentIndex ← .read (·.info.segments.length)
  if kernelElfMaxSegments ≤ loadableSegmentIndex then .giveUp
  else if program.refused then .giveUp
  else
    .modify (·.collect program)

/-- The loop over the program headers. -/
def collectSegments : List (BitVec 64 × ProgramHeader) → Attempt Parsing Unit
  | [] => pure ()
  | (offset, program) :: rest => do
    note offset programHeaderSize
    if program.pType = ptLoad then
      collectSegment program
      collectSegments rest
    else collectSegments rest

/-- The check of the size of the buffer, which passes when this is false. -/
def tooSmall (file : Buffer) : Bool :=
  let elfHeader := readElfHeader file
  file.size < elfHeader.ePhoff + intProduct elfHeader.ePhnum.toNat elfHeader.ePhentsize

/-- `kernel_elf_parse_loadable_segments`. -/
def kernelElfParseLoadableSegments (file : Buffer) : Attempt Parsing Unit := do
  note 0 elfHeaderSize
  if tooSmall file then .giveUp
  else
    .modify fun s => { s with info := { s.info with entryPoint := (readElfHeader file).eEntry } }
    collectSegments (programHeaders file)
    let loadableSegmentIndex ← .read (·.info.segments.length)
    if loadableSegmentIndex = 0 then .giveUp
    else
      .modify fun s =>
        { s with info := { s.info with numSegments := BitVec.ofNat 8 loadableSegmentIndex } }

/-- `kernel_elf_parse_info`. -/
def kernelElfParseInfo (file : Buffer) : Option Unit × Parsing :=
  kernelElfParseLoadableSegments file ⟨⟨0, 0, []⟩, []⟩

/-! ## Which headers are reached -/

/-- The headers do not end the loop, that has collected `n` segments. -/
def Collected (n : Nat) (headers : List (BitVec 64 × ProgramHeader)) : Prop :=
  Sound headers ∧ n + headers.countP (·.2.Loadable) ≤ kernelElfMaxSegments

section
variable {n : Nat} {header : BitVec 64 × ProgramHeader}
  {headers : List (BitVec 64 × ProgramHeader)}

theorem collected_nil (hn : n ≤ kernelElfMaxSegments) : Collected n [] :=
  ⟨List.forall_mem_nil _, by simpa using hn⟩

theorem collected_skip (h : ¬header.2.Loadable) :
    Collected n (header :: headers) ↔ Collected n headers := by
  simp [Collected, Sound, h]

theorem collected_load (h : header.2.Loadable) :
    Collected n (header :: headers) ↔ header.2.refused = false ∧ Collected (n + 1) headers := by
  unfold Collected Sound
  rw [List.countP_cons_of_pos (by simpa using h), List.forall_mem_cons]
  constructor
  · rintro ⟨⟨hheader, hrest⟩, hcount⟩
    exact ⟨hheader h, hrest, by omega⟩
  · rintro ⟨hheader, hrest, hcount⟩
    exact ⟨⟨fun _ => hheader, hrest⟩, by omega⟩

end

/-! ## What the loop reads -/

/-- All that has been read is in the buffer. -/
def Parsing.ReadsInside (s : Parsing) (file : Buffer) : Prop := ∀ part ∈ s.reads, file.Holds part

/-- The segments that have been collected are in the buffer. -/
def Parsing.SegmentsInside (s : Parsing) (file : Buffer) : Prop :=
  ∀ segment ∈ s.info.segments,
    file.Holds (segment.loadableSegmentStart, segment.loadableSegmentFileSize.toNat)

/-- What has been read by `s'` is in the buffer if what had been read by `s`
is, and each header that is reached. -/
def ReadsBetween (file : Buffer) (headers : List (BitVec 64 × ProgramHeader)) (s s' : Parsing) :
    Prop :=
  s'.ReadsInside file ↔ s.ReadsInside file ∧
    AllReached (Collected s.info.segments.length) (HeaderInside file) headers

section
variable {file : Buffer} {program : ProgramHeader} {offset : BitVec 64}
  {headers : List (BitVec 64 × ProgramHeader)} {s s' : Parsing}

/-- A header is read, and others as `Q` says. -/
theorem readsBetween_cons (hs : s.info.segments.length ≤ kernelElfMaxSegments) {t : Parsing}
    (hnoted : t.reads = (s.noted offset programHeaderSize).reads) {Q : Prop}
    (hrest : AllReached
      (fun before => Collected s.info.segments.length ((offset, program) :: before))
      (HeaderInside file) headers ↔ Q)
    (h : s'.ReadsInside file ↔ t.ReadsInside file ∧ Q) :
    ReadsBetween file ((offset, program) :: headers) s s' := by
  have hheader : t.ReadsInside file ↔
      s.ReadsInside file ∧ HeaderInside file (offset, program) := by
    unfold Parsing.ReadsInside
    rw [hnoted]
    exact List.forall_mem_append.trans (and_congr_right' (List.forall_mem_singleton ..))
  unfold ReadsBetween
  rw [h, hheader, and_assoc, allReached_cons (collected_nil hs), hrest]

/-- A segment can be collected. -/
def Parsing.Accepts (s : Parsing) (program : ProgramHeader) : Prop :=
  program.refused = false ∧ s.info.segments.length + 1 ≤ kernelElfMaxSegments

theorem collectSegment_spec : Tried (collectSegment program) s
    (fun s' => ¬s.Accepts program ∧ s' = s)
    (fun _ s' => s.Accepts program ∧ s' = s.collect program) := by
  refine tried_bind.mpr (tried_read.mpr ?_)
  by_cases hfull : kernelElfMaxSegments ≤ s.info.segments.length
  · rw [if_pos hfull]
    exact ⟨fun h => absurd h.2 (by omega), rfl⟩
  · rw [if_neg hfull]
    by_cases hrefused : program.refused = true
    · rw [if_pos hrefused]
      exact ⟨fun h => absurd h.1 (by simp [hrefused]), rfl⟩
    · rw [if_neg hrefused]
      exact ⟨⟨by simpa using hrefused, by omega⟩, rfl⟩

theorem segmentsInside_collect : (s.collect program).SegmentsInside file ↔
    s.SegmentsInside file ∧ program.Inside file := by
  unfold Parsing.SegmentsInside Parsing.collect
  rw [List.forall_mem_append, List.forall_mem_singleton]
  rfl

/-- The loop ends without a result at the first header that cannot be
collected, and reads every header up to that one. -/
theorem collectSegments_spec (file : Buffer) (headers : List (BitVec 64 × ProgramHeader))
    (hs : s.info.segments.length ≤ kernelElfMaxSegments) :
    Tried (collectSegments headers) s
      (fun s' => ¬Collected s.info.segments.length headers ∧ ReadsBetween file headers s s')
      (fun _ s' => Collected s.info.segments.length headers ∧ ReadsBetween file headers s s' ∧
        (s'.SegmentsInside file ↔ s.SegmentsInside file ∧ SegmentsInside file headers)) := by
  induction headers generalizing s with
  | nil =>
    refine tried_pure.mpr ⟨collected_nil hs, ?_, ?_⟩
    · exact (and_iff_left allReached_nil).symm
    · exact (and_iff_left (List.forall_mem_nil _)).symm
  | cons header rest ih =>
    obtain ⟨offset, program⟩ := header
    refine tried_bind.mpr (tried_modify.mpr ?_)
    show Tried (if program.Loadable then _ else _) _ _ _
    by_cases hload : program.Loadable
    · rw [if_pos hload]
      refine tried_bind.mpr (collectSegment_spec.mono ?_ ?_)
      · -- the header ends the loop: none after it is reached
        rintro _ ⟨hrefused, rfl⟩
        have hnone before : ¬Collected s.info.segments.length ((offset, program) :: before) := by
          intro h
          obtain ⟨hsound, hcollected⟩ := (collected_load hload).mp h
          exact hrefused ⟨hsound, le_trans (Nat.le_add_right ..) hcollected.2⟩
        refine ⟨hnone rest, readsBetween_cons hs (t := s.noted offset programHeaderSize) rfl
          (iff_of_true ?_ trivial) (and_iff_left trivial).symm⟩
        exact fun before _ _ _ hpassed => absurd hpassed (hnone before)
      · rintro _ _ ⟨⟨hsound, hroom⟩, rfl⟩
        have hcollected before : Collected s.info.segments.length ((offset, program) :: before) ↔
            Collected (s.info.segments ++ [segmentOf program]).length before := by
          rw [collected_load hload, List.length_append]
          exact and_iff_right hsound
        refine (ih (by simpa [Parsing.collect] using hroom)).mono ?_ ?_
        · rintro s' ⟨hnot, hreads⟩
          refine ⟨(hcollected rest).not.mpr hnot, readsBetween_cons hs rfl ?_ hreads⟩
          rw [funext fun before => propext (hcollected before)]
          rfl
        · rintro _ s' ⟨hall, hreads, hsegments⟩
          refine ⟨(hcollected rest).mpr hall, readsBetween_cons hs rfl ?_ hreads, ?_⟩
          · rw [funext fun before => propext (hcollected before)]
            rfl
          · rw [hsegments, segmentsInside_collect, and_assoc]
            unfold SegmentsInside
            rw [List.forall_mem_cons, forall_prop_of_true hload]
            rfl
    · rw [if_neg hload]
      have hcollected before : Collected s.info.segments.length ((offset, program) :: before) ↔
          Collected s.info.segments.length before := collected_skip hload
      refine (ih (s := s.noted offset programHeaderSize) hs).mono ?_ ?_
      · rintro s' ⟨hnot, hreads⟩
        refine ⟨(hcollected rest).not.mpr hnot, readsBetween_cons hs rfl ?_ hreads⟩
        rw [funext fun before => propext (hcollected before)]
        rfl
      · rintro _ s' ⟨hall, hreads, hsegments⟩
        refine ⟨(hcollected rest).mpr hall, readsBetween_cons hs rfl ?_ hreads, hsegments.trans ?_⟩
        · rw [funext fun before => propext (hcollected before)]
          rfl
        · unfold SegmentsInside
          rw [List.forall_mem_cons, forall_prop_of_false hload, true_and]
          rfl

end

/-! ## Files that are parsed safely -/

/-- Parsing reads nothing outside the buffer, and if it returns 0 the
segments that it has collected are in the buffer. -/
def ParseSafe (file : Buffer) : Prop :=
  (kernelElfParseInfo file).2.ReadsInside file ∧
    ((kernelElfParseInfo file).1 = some () → (kernelElfParseInfo file).2.SegmentsInside file)

/-- The file has an ELF header, and if the check of the size passes, the
headers up to the first one that ends the loop, and, where there is none,
the data of the segments. -/
structure ParseFits (file : Buffer) : Prop where
  header : elfHeaderSize ≤ file.size.toNat
  headers : tooSmall file = false →
    AllReached (Collected 0) (HeaderInside file) (programHeaders file)
  segments : tooSmall file = false → Collected 0 (programHeaders file) →
    SegmentsInside file (programHeaders file)

/-- What has been read is in the buffer, as far as `ParseFits` says. -/
def ReadsFit (file : Buffer) (s : Parsing) : Prop :=
  s.ReadsInside file ↔ elfHeaderSize ≤ file.size.toNat ∧
    (tooSmall file = false → AllReached (Collected 0) (HeaderInside file) (programHeaders file))

theorem kernelElfParseLoadableSegments_spec (file : Buffer) :
    Tried (kernelElfParseLoadableSegments file) ⟨⟨0, 0, []⟩, []⟩
      (fun s' => ReadsFit file s' ∧ (tooSmall file = false → Collected 0 (programHeaders file) →
        SegmentsInside file (programHeaders file)))
      (fun _ s' => ReadsFit file s' ∧ tooSmall file = false ∧ Collected 0 (programHeaders file) ∧
        (s'.SegmentsInside file ↔ SegmentsInside file (programHeaders file))) := by
  refine tried_bind.mpr (tried_modify.mpr ?_)
  have hheader s' (hs' : s'.reads = [(0, elfHeaderSize)]) :
      Parsing.ReadsInside s' file ↔ elfHeaderSize ≤ file.size.toNat := by
    unfold Parsing.ReadsInside
    rw [hs', List.forall_mem_singleton]
    show (0 : BitVec 64).toNat + elfHeaderSize ≤ _ ↔ _
    rw [show (0 : BitVec 64).toNat = 0 from rfl, Nat.zero_add]
  by_cases hsmall : tooSmall file = true
  · rw [if_pos hsmall]
    have hnot : tooSmall file ≠ false := by simp [hsmall]
    refine ⟨(hheader _ rfl).trans (and_iff_left ?_).symm, fun h => absurd h hnot⟩
    exact fun h => absurd h hnot
  · rw [if_neg hsmall]
    have hpassed : tooSmall file = false := by simpa using hsmall
    refine tried_bind.mpr (tried_modify.mpr (tried_bind.mpr ?_))
    -- from the state in which the entry point has been stored
    have hloop := collectSegments_spec file (programHeaders file)
      (s := ⟨⟨(readElfHeader file).eEntry, 0, []⟩, [(0, elfHeaderSize)]⟩) (Nat.zero_le _)
    have hreads s' (h : ReadsBetween file (programHeaders file)
        ⟨⟨(readElfHeader file).eEntry, 0, []⟩, [(0, elfHeaderSize)]⟩ s') : ReadsFit file s' := by
      unfold ReadsFit
      rw [forall_prop_of_true hpassed]
      exact h.trans (and_congr_left' (hheader _ rfl))
    refine hloop.mono ?_ ?_
    · rintro s' ⟨hnot, hbetween⟩
      exact ⟨hreads s' hbetween, fun _ h => absurd h hnot⟩
    · rintro _ s' ⟨hcollected, hbetween, hsegments⟩
      have hsegments : s'.SegmentsInside file ↔ SegmentsInside file (programHeaders file) :=
        hsegments.trans (and_iff_right (List.forall_mem_nil _))
      refine tried_bind.mpr (tried_read.mpr ?_)
      by_cases hnone : s'.info.segments.length = 0
      · rw [if_pos hnone]
        refine ⟨hreads s' hbetween, fun _ _ => hsegments.mp ?_⟩
        rw [Parsing.SegmentsInside, List.eq_nil_of_length_eq_zero hnone]
        exact List.forall_mem_nil _
      · rw [if_neg hnone]
        exact ⟨hreads s' hbetween, hpassed, hcollected, hsegments⟩

/-- What the check of the size is good for: where its arithmetic does not
wrap and the entries are as large as a program header, it keeps all program
headers in the buffer. -/
theorem headersInside_of_checked {file : Buffer}
    (hentry : programHeaderSize ≤ (readElfHeader file).ePhentsize.toNat)
    (hint : (readElfHeader file).ePhnum.toNat * (readElfHeader file).ePhentsize.toNat < 2 ^ 31)
    (hend : (readElfHeader file).ePhoff.toNat +
      (readElfHeader file).ePhnum.toNat * (readElfHeader file).ePhentsize.toNat < 2 ^ 64)
    (hchecked : tooSmall file = false) :
    ∀ header ∈ programHeaders file, HeaderInside file header := by
  intro header hmem
  obtain ⟨i, hi, rfl⟩ := List.mem_map.mp hmem
  have hi := List.mem_range.mp hi
  have hrow := Nat.mul_le_mul_right (readElfHeader file).ePhentsize.toNat (Nat.succ_le_of_lt hi)
  rw [Nat.succ_mul] at hrow
  -- the end of the table and the place of the header, without wrapping
  have htable : ((readElfHeader file).ePhoff + intProduct (readElfHeader file).ePhnum.toNat
      (readElfHeader file).ePhentsize).toNat = (readElfHeader file).ePhoff.toNat +
        (readElfHeader file).ePhnum.toNat * (readElfHeader file).ePhentsize.toNat := by
    rw [BitVec.toNat_add, intProduct_toNat hint, Nat.mod_eq_of_lt hend]
  have hplace : ((readElfHeader file).programOffset i).toNat =
      (readElfHeader file).ePhoff.toNat + i * (readElfHeader file).ePhentsize.toNat := by
    unfold ElfHeader.programOffset
    rw [BitVec.toNat_add, intProduct_toNat (by omega), Nat.mod_eq_of_lt (by omega)]
  have hsize : _ ≤ file.size.toNat := Nat.le_of_not_lt (of_decide_eq_false hchecked)
  rw [htable] at hsize
  refine holds_iff.mpr ?_
  rw [hplace]
  omega

/-- No segment that is collected is larger in the file than in memory. -/
def Parsing.Sized (s : Parsing) : Prop :=
  ∀ segment ∈ s.info.segments,
    segment.loadableSegmentFileSize ≤ segment.loadableSegmentMemorySize

theorem collectSegments_sized {headers : List (BitVec 64 × ProgramHeader)} {s : Parsing}
    (h : s.Sized) : Tried (collectSegments headers) s (fun _ => True) fun _ s' => s'.Sized := by
  induction headers generalizing s with
  | nil => exact h
  | cons header rest ih =>
    obtain ⟨offset, program⟩ := header
    refine tried_bind.mpr (tried_modify.mpr ?_)
    show Tried (if program.Loadable then _ else _) (s.noted offset programHeaderSize) _ _
    split
    · refine tried_bind.mpr (collectSegment_spec.mono (fun _ _ => trivial) ?_)
      rintro _ _ ⟨⟨hsound, -⟩, rfl⟩
      have hsize : program.pFilesz ≤ program.pMemsz := by
        have hchecks := of_decide_eq_false hsound
        exact Nat.le_of_not_lt fun hlt => hchecks (.inl hlt)
      exact ih (List.forall_mem_append.mpr ⟨h, (List.forall_mem_singleton ..).mpr hsize⟩)
    · exact ih (s := s.noted offset programHeaderSize) h

theorem kernelElfParseInfo_sized {file : Buffer} {s' : Parsing}
    (h : kernelElfParseInfo file = (some (), s')) : s'.Sized := by
  have hspec : Tried (kernelElfParseLoadableSegments file) ⟨⟨0, 0, []⟩, []⟩ (fun _ => True)
      fun _ s' => s'.Sized := by
    refine tried_bind.mpr (tried_modify.mpr (tried_ite.mpr ?_))
    split
    · trivial
    · refine tried_bind.mpr (tried_modify.mpr (tried_bind.mpr ?_))
      have hnone : Parsing.Sized
          ⟨⟨(readElfHeader file).eEntry, 0, []⟩, [(0, elfHeaderSize)]⟩ := List.forall_mem_nil _
      refine (collectSegments_sized hnone).mono (fun _ h => h) ?_
      intro _ s₁ h₁
      refine tried_bind.mpr (tried_read.mpr (tried_ite.mpr ?_))
      split
      · trivial
      · exact h₁
  exact hspec.returned h

theorem parseSafe_iff (file : Buffer) : ParseSafe file ↔ ParseFits file := by
  have hspec := kernelElfParseLoadableSegments_spec file
  unfold ParseSafe kernelElfParseInfo
  rcases hrun : kernelElfParseLoadableSegments file ⟨⟨0, 0, []⟩, []⟩ with ⟨_ | _, s'⟩
  · obtain ⟨hreads, hsegments⟩ := hspec.gaveUp hrun
    constructor
    · rintro ⟨hinside, -⟩
      exact ⟨(hreads.mp hinside).1, (hreads.mp hinside).2, hsegments⟩
    · intro h
      exact ⟨hreads.mpr ⟨h.header, h.headers⟩, fun h => nomatch h⟩
  · obtain ⟨hreads, hpassed, hcollected, hsegments⟩ := hspec.returned hrun
    constructor
    · rintro ⟨hinside, hreturned⟩
      exact ⟨(hreads.mp hinside).1, (hreads.mp hinside).2,
        fun _ _ => hsegments.mp (hreturned rfl)⟩
    · intro h
      exact ⟨hreads.mpr ⟨h.header, h.headers⟩,
        fun _ => hsegments.mpr (h.segments hpassed hcollected)⟩

end ZOs.Boot
