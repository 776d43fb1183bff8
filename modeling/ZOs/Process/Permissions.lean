import ZOs.Process.Contained

/-!
# Permissions of segments

`load_program_segment` computes the flags of a page as a `uint32_t`, where
`PAGE_FLAG_PXN` and `PAGE_FLAG_UXN`, bits 53 and 54, are lost; a page of the
stack has been mapped with the flags of the stack before. `permitted_iff`:
which files have pages that permit what their segments say.
-/

namespace ZOs.ProcessMemory

open Paging Attempt Elf
open Boot (pageEntry_and pageAt_eq)

/-- The entry permits what the flags of a segment say, to the kernel and to
the user. -/
structure Permits (entry : Word) (flags : BitVec 32) : Prop where
  pxn : entry &&& pageFlagPxn ≠ 0 ↔ flags &&& pfX = 0
  uxn : entry &&& pageFlagUxn ≠ 0 ↔ flags &&& pfX = 0
  access : entry &&& (0x3 <<< 6) = if flags &&& pfW = 0 then pageFlagEl0El1Ro else pageFlagEl0El1Rw

/-- The segments to load, with their numbers. -/
def HasSegment (file : Buffer) (i : Nat) (program : ProgramHeader) : Prop :=
  (∃ offset, (programHeaders file)[i]? = some (offset, program)) ∧ program.Loadable

/-- No page is touched by two segments. -/
def DisjointPages (file : Buffer) : Prop :=
  ∀ i j program other, HasSegment file i program → HasSegment file j other → j ≠ i →
    ∀ number, Touches program number → ¬Touches other number

/-- Every page of a segment has an entry that permits what the segment says. -/
def Permitted (file : Buffer) (v : Vmap) : Prop :=
  ∀ i program, HasSegment file i program → ∀ b < program.pMemsz.toNat, ∃ entry,
    v.walk (path (program.pVaddr + BitVec.ofNat 64 b)) = .leaf 3 entry ∧
      Permits entry program.pFlags

/-- The page is one of the stack of `process_init`. -/
def OnStack (number : Nat) : Prop :=
  ∃ k < (countPages userStackSize).toNat,
    pageNumber (pageAt (userStackTop - userStackSize) k) = number

/-- The page is one of those that are counted from the address of the
segment. -/
def Counted (program : ProgramHeader) (number : Nat) : Prop :=
  ∃ k < (countPages program.pMemsz).toNat, pageNumber (pageAt program.pVaddr k) = number

/-- What the flags of a segment must be for a page of it: those of the stack
where the page is one of the stack, and executable elsewhere. -/
def FlagsReach (file : Buffer) : Prop :=
  ∀ i program, HasSegment file i program → ∀ number, Touches program number →
    OnStack number ∧ program.pFlags &&& pfX = 0 ∧ program.pFlags &&& pfW ≠ 0 ∨
      ¬OnStack number ∧ Counted program number ∧ program.pFlags &&& pfX ≠ 0

/-! ## Entries -/

section
variable {page : Word} {flags : BitVec 32}

theorem stack_permits_iff : Permits (pageEntry page userStackPageFlags) flags ↔
    flags &&& pfX = 0 ∧ flags &&& pfW ≠ 0 := by
  have hpxn : pageEntry page userStackPageFlags &&& pageFlagPxn ≠ 0 := by
    rw [pageEntry_and (by decide)]
    decide
  have huxn : pageEntry page userStackPageFlags &&& pageFlagUxn ≠ 0 := by
    rw [pageEntry_and (by decide)]
    decide
  have haccess : pageEntry page userStackPageFlags &&& (0x3 <<< 6) = pageFlagEl0El1Rw := by
    rw [pageEntry_and (by decide)]
    decide
  constructor
  · rintro ⟨hx, -, hw⟩
    refine ⟨hx.mp hpxn, fun hro => ?_⟩
    rw [haccess, if_pos hro] at hw
    exact absurd hw (by decide)
  · rintro ⟨hx, hw⟩
    refine ⟨⟨fun _ => hx, fun _ => hpxn⟩, ⟨fun _ => hx, fun _ => huxn⟩, ?_⟩
    rw [haccess, if_neg hw]

/-- The flags that get through: none of them says that the page is not
executable. -/
theorem segmentPageFlags_eq (flags : BitVec 32) : (segmentPageFlags flags).setWidth 64 =
    pageFlagInnerSharable ||| pageFlagNormalMemory |||
      if flags &&& pfW = 0 then pageFlagEl0El1Ro else pageFlagEl0El1Rw := by
  unfold segmentPageFlags
  dsimp only
  split <;> split <;> decide

theorem segment_permits_iff :
    Permits (pageEntry page ((segmentPageFlags flags).setWidth 64)) flags ↔ flags &&& pfX ≠ 0 := by
  have hpxn : pageEntry page ((segmentPageFlags flags).setWidth 64) &&& pageFlagPxn = 0 := by
    rw [pageEntry_and (by decide), segmentPageFlags_eq]
    split <;> decide
  have huxn : pageEntry page ((segmentPageFlags flags).setWidth 64) &&& pageFlagUxn = 0 := by
    rw [pageEntry_and (by decide), segmentPageFlags_eq]
    split <;> decide
  have haccess : pageEntry page ((segmentPageFlags flags).setWidth 64) &&& (0x3 <<< 6) =
      if flags &&& pfW = 0 then pageFlagEl0El1Ro else pageFlagEl0El1Rw := by
    rw [pageEntry_and (by decide), segmentPageFlags_eq]
    split <;> decide
  constructor
  · exact fun h hx => h.pxn.mpr hx hpxn
  · exact fun hx => ⟨⟨fun h => absurd hpxn h, fun h => absurd h hx⟩,
      ⟨fun h => absurd huxn h, fun h => absurd h hx⟩, haccess⟩

end

/-! ## Where the pages are -/

section
variable {file : Buffer} {stackKmalloc : Nat → Bool} {kmalloc : Nat → Nat → Bool} {v : Visit}
  {p : Process} {s : Space} {i number : Nat} {program : ProgramHeader}

theorem mem_stackVisits : v ∈ stackVisits stackKmalloc ↔ ∃ k < (countPages userStackSize).toNat,
    v = ⟨pageAt (userStackTop - userStackSize) k, userStackPageFlags, .userStack,
      stackKmalloc (2 * k + 1), partAt .null none 0 k⟩ := by
  unfold stackVisits
  rw [pageVisits_eq, List.mem_map]
  simp only [List.mem_range, Nat.zero_add]
  exact exists_congr fun k => and_congr_right fun _ => eq_comm

theorem onStack_iff : OnStack number ↔ ∃ v ∈ stackVisits stackKmalloc, v.number = number := by
  constructor
  · rintro ⟨k, hk, hnumber⟩
    exact ⟨_, mem_stackVisits.mpr ⟨k, hk, rfl⟩, hnumber⟩
  · rintro ⟨v, hv, hnumber⟩
    obtain ⟨k, hk, rfl⟩ := mem_stackVisits.mp hv
    exact ⟨k, hk, hnumber⟩

/-- The visits of a page that a segment touches are for that segment. -/
theorem visit_of_touched (hdisjoint : DisjointPages file) (hsegment : HasSegment file i program)
    (htouches : Touches program number)
    (hv : v ∈ headerVisits kmalloc file 0 (programHeaders file)) (hnumber : v.number = number) :
    ∃ k < (countPages program.pMemsz).toNat, v = segmentVisit (kmalloc i) file program k := by
  obtain ⟨j, ⟨offset, other⟩, hheader, hload, hv⟩ := mem_headerVisits.mp hv
  obtain ⟨k, hk, rfl⟩ := mem_segmentVisits.mp hv
  rw [Nat.zero_add]
  by_cases hij : j = i
  · subst hij
    obtain ⟨offset', hheader'⟩ := hsegment.1
    cases hheader.symm.trans hheader'
    exact ⟨k, hk, rfl⟩
  · refine absurd (touches_pageAt hk) ?_
    rw [show pageNumber (pageAt other.pVaddr k) = number from hnumber]
    exact hdisjoint i j program other hsegment ⟨⟨offset, hheader⟩, hload⟩ hij number htouches

/-- A page of the stack has been mapped for the stack. -/
theorem placed_stack (hstack : OnStack number)
    (hall : p.newSpace.VisitsAll file (imageVisits stackKmalloc kmalloc file) s) :
    ∃ page, s.place number = some ⟨page, userStackPageFlags⟩ := by
  obtain ⟨s₁, hstackVisits, hrest⟩ := hall.append
  obtain ⟨page, hplace⟩ := hstackVisits.placed rfl
    (fun v hv _ => by obtain ⟨k, -, rfl⟩ := mem_stackVisits.mp hv; rfl) (onStack_iff.mp hstack)
  exact ⟨page, hrest.stays hplace⟩

/-- A page that a segment touches is mapped for it, if it is counted. -/
theorem placed_segment (hdisjoint : DisjointPages file) (hsegment : HasSegment file i program)
    (htouches : Touches program number) (hstack : ¬OnStack number)
    (hcounted : Counted program number)
    (hall : p.newSpace.VisitsAll file (imageVisits stackKmalloc kmalloc file) s) :
    ∃ page, s.place number = some ⟨page, (segmentPageFlags program.pFlags).setWidth 64⟩ := by
  obtain ⟨s₁, hstackVisits, hrest⟩ := hall.append
  have hnone : s₁.place number = none :=
    hstackVisits.unplaced fun v hv hnumber => hstack (onStack_iff.mpr ⟨v, hv, hnumber⟩)
  refine hrest.placed hnone (fun v hv hnumber => ?_) ?_
  · obtain ⟨k, -, rfl⟩ := visit_of_touched hdisjoint hsegment htouches hv hnumber
    rfl
  · obtain ⟨k, hk, hnumber⟩ := hcounted
    obtain ⟨offset, hheader⟩ := hsegment.1
    exact ⟨segmentVisit (kmalloc (0 + i)) file program k,
      mem_headerVisits.mpr ⟨i, _, hheader, hsegment.2, mem_segmentVisits.mpr ⟨k, hk, rfl⟩⟩, hnumber⟩

/-- A page that is not counted is not mapped. -/
theorem unplaced_segment (hdisjoint : DisjointPages file) (hsegment : HasSegment file i program)
    (htouches : Touches program number) (hstack : ¬OnStack number)
    (hcounted : ¬Counted program number)
    (hall : p.newSpace.VisitsAll file (imageVisits stackKmalloc kmalloc file) s) :
    s.place number = none := by
  refine hall.unplaced fun v hv hnumber => ?_
  rcases List.mem_append.mp hv with hv | hv
  · exact hstack (onStack_iff.mpr ⟨v, hv, hnumber⟩)
  · obtain ⟨k, hk, rfl⟩ := visit_of_touched hdisjoint hsegment htouches hv hnumber
    exact hcounted ⟨k, hk, hnumber⟩

end

section
variable {file : Buffer} {stackKmalloc : Nat → Bool} {kmalloc : Nat → Nat → Bool}
  {mainThread : Bool} {p : Process} {l : Loading}

theorem Refines.walk_placed {Table : Word → Prop} {s : Space} {x : Word} {placement : Placement}
    (h : Refines Table p s) (hplace : s.place (pageNumber x) = some placement) :
    p.pageTable.walk (path x) = .leaf 3 (pageEntry placement.page placement.pageFlags) := by
  rw [h.walk, hplace]
  rfl

theorem flagsReach_of_permitted (hnew : NewProcess p) (hdisjoint : DisjointPages file)
    (hcontained : Contained (allVisits file))
    (hcall : loadNewProcess stackKmalloc kmalloc mainThread file ⟨p, []⟩ = (some (), l))
    (h : Permitted file l.process.pageTable) : FlagsReach file := by
  obtain ⟨s, hall, hrefines, -⟩ := loaded_space hnew hcontained hcall
  intro i program hsegment number htouches
  obtain ⟨b, hb, hnumber⟩ := id htouches
  obtain ⟨entry, hleaf, hpermits⟩ := h i program hsegment b hb
  by_cases hstack : OnStack number
  · obtain ⟨page, hplace⟩ := placed_stack hstack hall
    cases hleaf.symm.trans (hrefines.walk_placed (hnumber ▸ hplace))
    exact .inl ⟨hstack, stack_permits_iff.mp hpermits⟩
  · by_cases hcounted : Counted program number
    · obtain ⟨page, hplace⟩ := placed_segment hdisjoint hsegment htouches hstack hcounted hall
      cases hleaf.symm.trans (hrefines.walk_placed (hnumber ▸ hplace))
      exact .inr ⟨hstack, hcounted, segment_permits_iff.mp hpermits⟩
    · have hnone := unplaced_segment hdisjoint hsegment htouches hstack hcounted hall
      rw [hrefines.walk, hnumber, hnone] at hleaf
      cases hleaf

theorem FlagsReach.permitted (h : FlagsReach file) (hnew : NewProcess p)
    (hdisjoint : DisjointPages file) (hcontained : Contained (allVisits file))
    (hcall : loadNewProcess stackKmalloc kmalloc mainThread file ⟨p, []⟩ = (some (), l)) :
    Permitted file l.process.pageTable := by
  obtain ⟨s, hall, hrefines, -⟩ := loaded_space hnew hcontained hcall
  intro i program hsegment b hb
  have htouches : Touches program (pageNumber (program.pVaddr + BitVec.ofNat 64 b)) := ⟨b, hb, rfl⟩
  rcases h i program hsegment _ htouches with ⟨hstack, hflags⟩ | ⟨hstack, hcounted, hflags⟩
  · obtain ⟨page, hplace⟩ := placed_stack hstack hall
    exact ⟨_, hrefines.walk_placed hplace, stack_permits_iff.mpr hflags⟩
  · obtain ⟨page, hplace⟩ := placed_segment hdisjoint hsegment htouches hstack hcounted hall
    exact ⟨_, hrefines.walk_placed hplace, segment_permits_iff.mpr hflags⟩

end

/-- After a file has been loaded into a new process, the pages of its segments
permit what the segments say just if the flags get through. -/
theorem permitted_iff (stackKmalloc : Nat → Bool) (kmalloc : Nat → Nat → Bool) (mainThread : Bool)
    (file : Buffer) (p : Process) (l : Loading) (hnew : NewProcess p)
    (hdisjoint : DisjointPages file) (hcontained : Contained (allVisits file))
    (hcall : loadNewProcess stackKmalloc kmalloc mainThread file ⟨p, []⟩ = (some (), l)) :
    Permitted file l.process.pageTable ↔ FlagsReach file :=
  ⟨flagsReach_of_permitted hnew hdisjoint hcontained hcall,
    fun h => h.permitted hnew hdisjoint hcontained hcall⟩

/-! ## A segment of data -/

theorem tailImage_segment : HasSegment tailImage 0 tailProgram :=
  ⟨⟨64, by rw [programHeaders_tailImage]; rfl⟩, rfl⟩

theorem tailImage_disjoint : DisjointPages tailImage := by
  intro i j program other hi hj hij
  obtain ⟨⟨_, hi⟩, -⟩ := hi
  obtain ⟨⟨_, hj⟩, -⟩ := hj
  rw [programHeaders_tailImage] at hi hj
  have hfirst := (List.getElem?_eq_some_iff.mp hi).1
  have hsecond := (List.getElem?_eq_some_iff.mp hj).1
  change i < 1 at hfirst
  change j < 1 at hsecond
  omega

theorem tailImage_contained : Contained (allVisits tailImage) := by decide +kernel

/-- Its page is executable, though the segment is not. -/
theorem tailImage_flags : ¬FlagsReach tailImage := by
  intro h
  have htouches : Touches tailProgram 0x400 := ⟨0, by decide, by decide⟩
  rcases h 0 tailProgram tailImage_segment _ htouches with ⟨⟨k, hk, hnumber⟩, -⟩ | ⟨-, -, hflags⟩
  · have hsize : (countPages userStackSize).toNat = 16 := by decide
    rw [hsize] at hk
    revert k
    decide
  · exact hflags rfl

theorem tailImage_not_permitted : ∃ p l, NewProcess p ∧
    loadNewProcess (fun _ => true) (fun _ _ => true) true tailImage ⟨p, []⟩ = (some (), l) ∧
      ¬Permitted tailImage l.process.pageTable := by
  obtain ⟨p, l, hnew, hcall⟩ := tailImage_fits.loads
  refine ⟨p, l, hnew, hcall, fun h => tailImage_flags ?_⟩
  exact (permitted_iff _ _ _ _ p l hnew tailImage_disjoint tailImage_contained hcall).mp h

theorem permitted_counterexample : ¬∀ stackKmalloc kmalloc mainThread file p l, NewProcess p →
    DisjointPages file →
    loadNewProcess stackKmalloc kmalloc mainThread file ⟨p, []⟩ = (some (), l) →
    Permitted file l.process.pageTable := by
  intro h
  obtain ⟨p, l, hnew, hcall⟩ := tailImage_fits.loads
  exact tailImage_flags (flagsReach_of_permitted hnew tailImage_disjoint tailImage_contained hcall
    (h _ _ _ _ p l hnew tailImage_disjoint hcall))

end ZOs.ProcessMemory
