import ZOs.Process.Pages

/-!
# The pages that loading goes to

`process_load_elf` goes from page to page: each is found or taken, and gets a
part of the file. Which pages these are and which parts they get is in the
headers of the file alone; `visitAll` is what is left of the loops.
-/

namespace ZOs.ProcessMemory

open Paging Attempt Bytes Elf

/-! ## Visits -/

/-- A page that is gone to, and the part of the file that it gets. -/
structure Visit where
  virtualAddress : Word
  pageFlags : Word
  type : MemoryPageType
  /-- Whether the record of the page gets into the list. -/
  recorded : Bool
  part : Read

/-- The number of the page. -/
def Visit.number (v : Visit) : Nat := pageNumber v.virtualAddress

/-- The part of a buffer that is copied next, and what the buffer is then. -/
def nextPart (file : Buffer) (buffer : Option Word) (bytesRemaining : Nat) :
    Read × Option Word × Nat :=
  match buffer with
  | none => ((0, 0), none, bytesRemaining)
  | some source =>
    if file.address + source = 0 ∨ bytesRemaining = 0 then
      ((source, 0), some source, bytesRemaining)
    else if bytesRemaining < 4096 then ((source, bytesRemaining), none, 0)
    else ((source, 4096), some (source + pageSize), bytesRemaining - 4096)

/-- The visits of `allocate_memory_pages` from page `i` on. -/
def pageVisits (type : MemoryPageType) (virtualBase pageFlags : Word) (kmalloc : Nat → Bool)
    (file : Buffer) : Nat → Nat → Option Word → Nat → List Visit
  | _, 0, _, _ => []
  | i, n + 1, buffer, bytesRemaining =>
    let (part, buffer, bytesRemaining) := nextPart file buffer bytesRemaining
    ⟨pageAt virtualBase i, pageFlags, type, kmalloc (2 * i + 1), part⟩ ::
      pageVisits type virtualBase pageFlags kmalloc file (i + 1) n buffer bytesRemaining

/-- The visits of `process_init`. -/
def stackVisits (kmalloc : Nat → Bool) : List Visit :=
  pageVisits .userStack (userStackTop - userStackSize) userStackPageFlags kmalloc .null 0
    (countPages userStackSize).toNat none 0

/-- The visits of `load_program_segment`. -/
def segmentVisits (kmalloc : Nat → Bool) (file : Buffer) (program : ProgramHeader) : List Visit :=
  pageVisits .program program.pVaddr ((segmentPageFlags program.pFlags).setWidth 64) kmalloc file 0
    (countPages program.pMemsz).toNat (some program.pOffset) program.pFilesz.toNat

/-- The visits for the headers from number `i` on. -/
def headerVisits (kmalloc : Nat → Nat → Bool) (file : Buffer) :
    Nat → List (Word × ProgramHeader) → List Visit
  | _, [] => []
  | i, (_, program) :: rest =>
    if program.Loadable then
      segmentVisits (kmalloc i) file program ++ headerVisits kmalloc file (i + 1) rest
    else headerVisits kmalloc file (i + 1) rest

/-- One pass of the loop of `allocate_memory_pages`. -/
def visit (file : Buffer) (v : Visit) : Attempt Process Unit := do
  let physicalAddress ← findPage v.virtualAddress v.pageFlags
  recordPage ⟨v.virtualAddress, physicalAddress, v.type⟩ v.recorded
  if mmapPhysicalRegionSize ≤ physicalAddress.toNat then .giveUp
  else .modify (·.copy file physicalAddress v.part.1 v.part.2)

def visitAll (file : Buffer) : List Visit → Attempt Process Unit
  | [] => pure ()
  | v :: vs => do
    visit file v
    visitAll file vs

section
variable {type : MemoryPageType} {virtualBase pageFlags : Word} {kmalloc : Nat → Bool}
  {file : Buffer} {l : Loading} {p p' : Process} {vs ws : List Visit}

theorem visitAll_append (vs ws : List Visit) (p : Process) :
    visitAll file (vs ++ ws) p = (visitAll file vs >>= fun _ => visitAll file ws) p := by
  induction vs generalizing p with
  | nil => rfl
  | cons v vs ih =>
    rcases hvisit : visit file v p with ⟨_ | _, p₁⟩
    · exact (bind_gaveUp hvisit).trans (bind_gaveUp (bind_gaveUp hvisit)).symm
    · have hall : visitAll file (v :: vs) p = visitAll file vs p₁ := bind_eq hvisit
      refine (bind_eq hvisit).trans ((ih p₁).trans ?_)
      rcases hrest : visitAll file vs p₁ with ⟨_ | _, p₂⟩
      · exact (bind_gaveUp hrest).trans (bind_gaveUp (hall.trans hrest)).symm
      · exact (bind_eq hrest).trans
          (bind_eq (f := fun _ => visitAll file ws) (hall.trans hrest)).symm

theorem visitAll_append_none (h : (visitAll file vs p).1 = none) :
    (visitAll file (vs ++ ws) p).1 = none := by
  rw [visitAll_append]
  rcases hvs : visitAll file vs p with ⟨_ | _, p₁⟩
  · exact congrArg Prod.fst (bind_gaveUp hvs)
  · rw [hvs] at h
    cases h

theorem visitAll_append_some (h : visitAll file vs p = (some (), p')) :
    visitAll file (vs ++ ws) p = visitAll file ws p' :=
  (visitAll_append vs ws p).trans (bind_eq h)

/-! ## The loops -/

/-- What is left of a visit when its page is there. -/
theorem visit_found (file : Buffer) {v : Visit} {physicalAddress : Word} {p₁ : Process}
    (hfind : findPage v.virtualAddress v.pageFlags p = (some physicalAddress, p₁)) :
    visit file v p =
      if mmapPhysicalRegionSize ≤ physicalAddress.toNat then
        (none, (recordPage ⟨v.virtualAddress, physicalAddress, v.type⟩ v.recorded p₁).2)
      else
        (some (), (recordPage ⟨v.virtualAddress, physicalAddress, v.type⟩ v.recorded p₁).2.copy file
          physicalAddress v.part.1 v.part.2) := by
  refine (bind_eq hfind).trans ((bind_eq rfl).trans ?_)
  split <;> rfl

/-- The end of the loop copies the next part. -/
theorem copyPart_eq (file : Buffer) (physicalAddress : Word) (buffer : Option Word)
    (bytesRemaining : Nat) (l : Loading) : ∃ reads,
    copyPart file physicalAddress buffer bytesRemaining l =
      (some (nextPart file buffer bytesRemaining).2,
        ⟨l.process.copy file physicalAddress (nextPart file buffer bytesRemaining).1.1
          (nextPart file buffer bytesRemaining).1.2, reads⟩) := by
  cases buffer with
  | none => exact ⟨l.reads, rfl⟩
  | some source =>
    unfold copyPart nextPart
    dsimp only
    split
    · exact ⟨l.reads, rfl⟩
    · split
      · exact ⟨l.reads ++ [(source, bytesRemaining)], rfl⟩
      · exact ⟨l.reads ++ [(source, 4096)], rfl⟩

/-- One pass of the loop of `allocate_memory_pages`: there is no memory for the
record, or the visit gives up, or it is made and the loop goes on. -/
theorem tried_allocatePages {F : Loading → Prop} {P : Unit → Loading → Prop} {i n : Nat}
    {buffer : Option Word} {bytesRemaining : Nat} (hnode : kmalloc (2 * i) = false → F l)
    (hstops : ∀ p', visit file ⟨pageAt virtualBase i, pageFlags, type, kmalloc (2 * i + 1),
      (nextPart file buffer bytesRemaining).1⟩ l.process = (none, p') → F ⟨p', l.reads⟩)
    (hgoes : ∀ p' reads, visit file ⟨pageAt virtualBase i, pageFlags, type, kmalloc (2 * i + 1),
      (nextPart file buffer bytesRemaining).1⟩ l.process = (some (), p') →
      Tried (allocatePages type virtualBase pageFlags kmalloc file (i + 1) n
        (nextPart file buffer bytesRemaining).2.1 (nextPart file buffer bytesRemaining).2.2)
        ⟨p', reads⟩ F P) :
    Tried (allocatePages type virtualBase pageFlags kmalloc file i (n + 1) buffer bytesRemaining)
      l F P := by
  unfold allocatePages
  by_cases hnone : kmalloc (2 * i) = false
  · rw [if_pos hnone]
    exact hnode hnone
  rw [if_neg hnone]
  refine tried_bind.mpr (tried_onProcess.mpr ?_)
  unfold Tried
  split
  · rename_i physicalAddress p₁ hfind
    have hvisit := visit_found file (v := ⟨pageAt virtualBase i, pageFlags, type,
      kmalloc (2 * i + 1), (nextPart file buffer bytesRemaining).1⟩) hfind
    refine tried_bind.mpr (tried_onProcess.mpr ?_)
    show Tried (if _ then _ else _) _ _ _
    by_cases hwindow : mmapPhysicalRegionSize ≤ physicalAddress.toNat
    · rw [if_pos hwindow] at hvisit ⊢
      exact hstops _ hvisit
    · rw [if_neg hwindow] at hvisit ⊢
      obtain ⟨reads, hcopy⟩ := copyPart_eq file physicalAddress buffer bytesRemaining
        ⟨(recordPage ⟨pageAt virtualBase i, physicalAddress, type⟩ (kmalloc (2 * i + 1)) p₁).2,
          l.reads⟩
      exact tried_bind.mpr (tried_of_eq hcopy (hgoes _ reads hvisit))
  · rename_i p₁ hfind
    exact hstops p₁ (bind_gaveUp hfind)

/-- The loop of `allocate_memory_pages` makes its visits, one after the
other, unless there is no memory for a record. -/
theorem allocatePages_visits (i n : Nat) (buffer : Option Word) (bytesRemaining : Nat) :
    Tried (allocatePages type virtualBase pageFlags kmalloc file i n buffer bytesRemaining) l
      (fun _ => (∃ j, kmalloc (2 * j) = false) ∨ (visitAll file (pageVisits type virtualBase
        pageFlags kmalloc file i n buffer bytesRemaining) l.process).1 = none)
      fun _ l' => visitAll file (pageVisits type virtualBase pageFlags kmalloc file i n buffer
        bytesRemaining) l.process = (some (), l'.process) := by
  induction n generalizing i l buffer bytesRemaining with
  | zero => rfl
  | succ n ih =>
    refine tried_allocatePages (fun hnode => .inl ⟨i, hnode⟩) (fun p' hvisit => ?_)
      fun p' reads hvisit => (ih (i + 1) _ _).mono ?_ ?_
    · exact .inr (congrArg Prod.fst (bind_gaveUp hvisit))
    · rintro _ (hnone | hrest)
      · exact .inl hnone
      · exact .inr ((congrArg Prod.fst (bind_eq hvisit)).trans hrest)
    · exact fun _ l' hrest => (bind_eq hvisit).trans hrest

theorem allocateStack_visits : Tried (allocateStack kmalloc) l
    (fun _ => (∃ j, kmalloc (2 * j) = false) ∨
      (visitAll .null (stackVisits kmalloc) l.process).1 = none)
    fun _ l' => visitAll .null (stackVisits kmalloc) l.process = (some (), l'.process) :=
  allocatePages_visits 0 (countPages userStackSize).toNat none 0

theorem loadProgramSegment_visits {program : ProgramHeader} :
    Tried (loadProgramSegment kmalloc file program) l
      (fun _ => program.refused = true ∨ (∃ j, kmalloc (2 * j) = false) ∨
        (visitAll file (segmentVisits kmalloc file program) l.process).1 = none)
      fun _ l' => program.refused = false ∧
        visitAll file (segmentVisits kmalloc file program) l.process = (some (), l'.process) := by
  refine tried_ite.mpr ?_
  by_cases hrefused : program.refused = true
  · rw [if_pos hrefused]
    exact .inl hrefused
  · rw [if_neg hrefused]
    exact (allocatePages_visits 0 _ _ _).mono (fun _ h => .inr h)
      fun _ _ h => ⟨Bool.not_eq_true _ ▸ hrefused, h⟩

/-- Why loading gives up. -/
def GivesUp (kmalloc : Nat → Nat → Bool) (file : Buffer) (headers : List (Word × ProgramHeader))
    (i : Nat) (p : Process) : Prop :=
  ¬Sound headers ∨ (∃ i j, kmalloc i (2 * j) = false) ∨
    (visitAll file (headerVisits kmalloc file i headers) p).1 = none

/-- So does the loop of `process_load_elf`. -/
theorem loadSegments_visits {kmalloc : Nat → Nat → Bool} (i : Nat)
    (headers : List (Word × ProgramHeader)) :
    Tried (loadSegments kmalloc file i headers) l
      (fun _ => GivesUp kmalloc file headers i l.process)
      fun _ l' => Sound headers ∧
        visitAll file (headerVisits kmalloc file i headers) l.process = (some (), l'.process) := by
  induction headers generalizing i l with
  | nil => exact ⟨sound_nil, rfl⟩
  | cons header rest ih =>
    obtain ⟨offset, program⟩ := header
    refine tried_bind.mpr (tried_modify.mpr ?_)
    show Tried (if program.Loadable then _ else _) (l.noted offset programHeaderSize) _ _
    unfold GivesUp headerVisits
    by_cases hload : program.Loadable
    · rw [if_pos hload, if_pos hload]
      refine tried_bind.mpr ((loadProgramSegment_visits (l := l.noted ..)).mono ?_ ?_)
      · rintro _ (hrefused | hnone | hvisits)
        · exact .inl (not_sound_cons hload hrefused)
        · exact .inr (.inl ⟨i, hnone⟩)
        · exact .inr (.inr (visitAll_append_none hvisits))
      · rintro _ l' ⟨hsound, hvisits⟩
        have happend : visitAll file (segmentVisits (kmalloc i) file program ++
            headerVisits kmalloc file (i + 1) rest) l.process = _ := visitAll_append_some hvisits
        refine (ih (i + 1)).mono ?_ ?_
        · rintro _ (hnot | hnone | hvisits')
          · exact .inl fun h => hnot (List.forall_mem_cons.mp h).2
          · exact .inr (.inl hnone)
          · exact .inr (.inr ((congrArg Prod.fst happend).trans hvisits'))
        · rintro _ l'' ⟨hrest, hvisits'⟩
          exact ⟨List.forall_mem_cons.mpr ⟨fun _ => hsound, hrest⟩, happend.trans hvisits'⟩
    · rw [if_neg hload, if_neg hload]
      refine (ih (l := l.noted ..) (i + 1)).mono ?_ ?_
      · rintro _ (hnot | hgaveUp)
        · exact .inl fun h => hnot (List.forall_mem_cons.mp h).2
        · exact .inr hgaveUp
      · rintro _ l' ⟨hrest, hvisits⟩
        exact ⟨List.forall_mem_cons.mpr ⟨fun h => absurd h hload, hrest⟩, hvisits⟩

end

/-! ## A new process -/

/-- The stack of `process_init`, and `process_load_elf`. -/
def loadNewProcess (stackKmalloc : Nat → Bool) (kmalloc : Nat → Nat → Bool) (mainThread : Bool)
    (file : Buffer) : Attempt Loading Unit := do
  allocateStack stackKmalloc
  processLoadElf kmalloc mainThread file

/-- All visits, from the first page of the stack on. -/
def imageVisits (stackKmalloc : Nat → Bool) (kmalloc : Nat → Nat → Bool) (file : Buffer) :
    List Visit :=
  stackVisits stackKmalloc ++ headerVisits kmalloc file 0 (programHeaders file)

section
variable {file : Buffer} {vs : List Visit} {p : Process} {l l' : Loading}
  {stackKmalloc : Nat → Bool} {kmalloc : Nat → Nat → Bool} {mainThread : Bool}

theorem part_of_pageVisits_none {type : MemoryPageType} {virtualBase pageFlags : Word}
    {i n bytesRemaining : Nat} {v : Visit} (hv : v ∈ pageVisits type virtualBase pageFlags
      stackKmalloc file i n none bytesRemaining) : v.part = (0, 0) := by
  induction n generalizing i with
  | zero => cases hv
  | succ n ih =>
    rcases List.mem_cons.mp hv with rfl | hv
    · rfl
    · exact ih hv

/-- The stack gets no part of any file. -/
theorem part_of_stackVisits {v : Visit} (hv : v ∈ stackVisits stackKmalloc) : v.part = (0, 0) :=
  part_of_pageVisits_none hv

theorem visitAll_congr (file' : Buffer) (h : ∀ v ∈ vs, v.part = (0, 0)) (p : Process) :
    visitAll file vs p = visitAll file' vs p := by
  induction vs generalizing p with
  | nil => rfl
  | cons v vs ih =>
    obtain ⟨hv, hvs⟩ := List.forall_mem_cons.mp h
    have hvisit : visit file v p = visit file' v p := by
      unfold visit Process.copy
      rw [hv]
      rfl
    rcases hout : visit file' v p with ⟨_ | _, p₁⟩
    · exact (bind_gaveUp (hvisit.trans hout)).trans (bind_gaveUp hout).symm
    · exact (bind_eq (hvisit.trans hout)).trans ((ih hvs p₁).trans
        (bind_eq (f := fun _ => visitAll file' vs) hout).symm)

/-- Loading makes its visits. -/
theorem loadNewProcess_returned
    (h : loadNewProcess stackKmalloc kmalloc mainThread file l = (some (), l')) :
    Sound (programHeaders file) ∧
      visitAll file (imageVisits stackKmalloc kmalloc file) l.process = (some (), l'.process) := by
  obtain ⟨_, l₁, hstack, hload⟩ := bind_returned.mp h
  obtain ⟨_, l₂, hnote, hload⟩ := bind_returned.mp hload
  cases hnote
  obtain ⟨_, l₃, hsegments, hthread⟩ := bind_returned.mp hload
  have hstack := allocateStack_visits.returned hstack
  obtain ⟨hsound, hvisits⟩ := (loadSegments_visits 0 _).returned hsegments
  rw [visitAll_congr file fun v hv => part_of_stackVisits hv] at hstack
  have hl : l' = l₃ := by
    split at hthread
    · cases hthread
      rfl
    · cases hthread
  exact ⟨hsound, hl ▸ (visitAll_append_some hstack).trans hvisits⟩

/-- If they can be made, a file is loaded. -/
theorem loadNewProcess_returns {p' : Process} (hsound : Sound (programHeaders file))
    (h : visitAll file (imageVisits (fun _ => true) (fun _ _ => true) file) l.process =
      (some (), p')) :
    ∃ l', loadNewProcess (fun _ => true) (fun _ _ => true) true file l = (some (), l') ∧
      l'.process = p' := by
  rcases hstack : visitAll file (stackVisits fun _ => true) l.process with ⟨_ | _, p₁⟩
  · have hnone : (visitAll file (imageVisits (fun _ => true) (fun _ _ => true) file) l.process).1 =
        none := visitAll_append_none (congrArg Prod.fst hstack)
    rw [h] at hnone
    cases hnone
  · have hheaders := (visitAll_append_some hstack).symm.trans h
    rw [visitAll_congr .null fun v hv => part_of_stackVisits hv] at hstack
    have hallocate : Tried (allocateStack fun _ => true) l _ _ := allocateStack_visits
    obtain ⟨_, l₁, hreturned, hvisits⟩ := hallocate.returns fun _ hgaveUp => by
      rcases hgaveUp with ⟨_, hnone⟩ | hnone
      · cases hnone
      · cases (congrArg Prod.fst hstack).symm.trans hnone
    cases (congrArg Prod.snd hstack).symm.trans (congrArg Prod.snd hvisits)
    have hload : Tried (loadSegments (fun _ _ => true) file 0 (programHeaders file))
      (l₁.noted 0 elfHeaderSize) _ _ := loadSegments_visits 0 _
    obtain ⟨_, l₂, hloop, -, hvisits'⟩ := hload.returns fun _ hgaveUp => by
        rcases hgaveUp with hnot | ⟨_, _, hnone⟩ | hnone
        · exact hnot hsound
        · cases hnone
        · cases (congrArg Prod.fst hheaders).symm.trans hnone
    refine ⟨l₂, bind_returned.mpr ⟨(), l₁, hreturned, ?_⟩, ?_⟩
    · exact bind_returned.mpr ⟨(), _, rfl, bind_returned.mpr ⟨(), l₂, hloop, rfl⟩⟩
    · exact (congrArg Prod.snd (hheaders.symm.trans hvisits')).symm

end

/-! ## Which pages get which parts -/

/-- The part that page `j` of a buffer gets. -/
def partAt (file : Buffer) : Option Word → Nat → Nat → Read
  | buffer, bytesRemaining, 0 => (nextPart file buffer bytesRemaining).1
  | buffer, bytesRemaining, j + 1 =>
    let next := (nextPart file buffer bytesRemaining).2
    partAt file next.1 next.2 j

/-- Nothing is copied from the buffer. -/
def Skips (file : Buffer) (buffer : Option Word) (bytesRemaining : Nat) : Prop :=
  ∀ source, buffer = some source → file.address + source = 0 ∨ bytesRemaining = 0

/-- The visit of page `j` of a segment. -/
def segmentVisit (kmalloc : Nat → Bool) (file : Buffer) (program : ProgramHeader) (j : Nat) :
    Visit :=
  ⟨pageAt program.pVaddr j, (segmentPageFlags program.pFlags).setWidth 64, .program,
    kmalloc (2 * j + 1), partAt file (some program.pOffset) program.pFilesz.toNat j⟩

section
variable {file : Buffer} {buffer : Option Word} {bytesRemaining i j n : Nat} {type : MemoryPageType}
  {virtualBase pageFlags : Word} {stackKmalloc : Nat → Bool} {kmalloc : Nat → Nat → Bool}
  {headers : List (Word × ProgramHeader)} {program : ProgramHeader} {v : Visit}

theorem pageVisits_eq (type : MemoryPageType) (virtualBase pageFlags : Word) (kmalloc : Nat → Bool)
    (file : Buffer) (i n : Nat) (buffer : Option Word) (bytesRemaining : Nat) :
    pageVisits type virtualBase pageFlags kmalloc file i n buffer bytesRemaining =
      (List.range n).map fun j => ⟨pageAt virtualBase (i + j), pageFlags, type,
        kmalloc (2 * (i + j) + 1), partAt file buffer bytesRemaining j⟩ := by
  induction n generalizing i buffer bytesRemaining with
  | zero => rfl
  | succ n ih =>
    rw [List.range_succ_eq_map, List.map_cons, List.map_map]
    refine congrArg (List.cons _) ((ih (i + 1) _ _).trans (List.map_congr_left fun j _ => ?_))
    show _ = Visit.mk (pageAt virtualBase (i + (j + 1))) _ _ (kmalloc (2 * (i + (j + 1)) + 1)) _
    rw [Nat.add_assoc, Nat.add_comm 1 j]
    rfl

theorem nextPart_of_skips (h : Skips file buffer bytesRemaining) :
    (nextPart file buffer bytesRemaining).1.2 = 0 ∧
      (nextPart file buffer bytesRemaining).2 = (buffer, bytesRemaining) := by
  cases buffer with
  | none => exact ⟨rfl, rfl⟩
  | some source =>
    unfold nextPart
    dsimp only
    rw [if_pos (h source rfl)]
    exact ⟨rfl, rfl⟩

theorem partAt_of_skips (h : Skips file buffer bytesRemaining) (j : Nat) :
    (partAt file buffer bytesRemaining j).2 = 0 := by
  obtain ⟨hnone, hnext⟩ := nextPart_of_skips h
  induction j with
  | zero => exact hnone
  | succ j ih =>
    unfold partAt
    dsimp only
    rw [hnext]
    exact ih

theorem nextPart_of_not_skips (h : ¬Skips file buffer bytesRemaining) :
    (nextPart file buffer bytesRemaining).1.2 = min bytesRemaining 4096 ∧
      (nextPart file buffer bytesRemaining).2.2 = bytesRemaining - 4096 := by
  cases buffer with
  | none => exact absurd (fun _ h => nomatch h) h
  | some source =>
    have hnot : ¬(file.address + source = 0 ∨ bytesRemaining = 0) := by
      intro hskip
      refine h fun source' heq => ?_
      cases heq
      exact hskip
    unfold nextPart
    dsimp only
    rw [if_neg hnot]
    by_cases hlast : bytesRemaining < 4096
    · rw [if_pos hlast]
      exact ⟨(Nat.min_eq_left (Nat.le_of_lt hlast)).symm,
        (Nat.sub_eq_zero_of_le (Nat.le_of_lt hlast)).symm⟩
    · rw [if_neg hlast]
      exact ⟨(Nat.min_eq_right (Nat.le_of_not_lt hlast)).symm, rfl⟩

/-- No page gets more than there is left of the buffer. -/
theorem partAt_le (file : Buffer) (buffer : Option Word) (bytesRemaining j : Nat) :
    (partAt file buffer bytesRemaining j).2 ≤ min (bytesRemaining - 4096 * j) 4096 := by
  induction j generalizing buffer bytesRemaining with
  | zero =>
    by_cases hskips : Skips file buffer bytesRemaining
    · rw [partAt_of_skips hskips]
      exact Nat.zero_le _
    · exact Nat.le_of_eq (nextPart_of_not_skips hskips).1
  | succ j ih =>
    by_cases hskips : Skips file buffer bytesRemaining
    · rw [partAt_of_skips hskips]
      exact Nat.zero_le _
    · have hle : (partAt file buffer bytesRemaining (j + 1)).2 ≤ _ :=
        ih (nextPart file buffer bytesRemaining).2.1 (nextPart file buffer bytesRemaining).2.2
      rw [(nextPart_of_not_skips hskips).2] at hle
      omega

theorem mem_segmentVisits {kmalloc : Nat → Bool} : v ∈ segmentVisits kmalloc file program ↔
    ∃ j < (countPages program.pMemsz).toNat, v = segmentVisit kmalloc file program j := by
  unfold segmentVisits
  rw [pageVisits_eq, List.mem_map]
  simp only [List.mem_range, Nat.zero_add]
  exact exists_congr fun j => and_congr_right fun _ => eq_comm

/-- The visits for some headers are those for their segments. -/
theorem mem_headerVisits : v ∈ headerVisits kmalloc file i headers ↔
    ∃ j header, headers[j]? = some header ∧ header.2.Loadable ∧
      v ∈ segmentVisits (kmalloc (i + j)) file header.2 := by
  induction headers generalizing i with
  | nil => simp [headerVisits]
  | cons header rest ih =>
    obtain ⟨offset, program⟩ := header
    have hcons : v ∈ headerVisits kmalloc file i ((offset, program) :: rest) ↔
        program.Loadable ∧ v ∈ segmentVisits (kmalloc i) file program ∨
          v ∈ headerVisits kmalloc file (i + 1) rest := by
      show v ∈ (if program.Loadable then _ else _) ↔ _
      split
      · rename_i hload
        rw [List.mem_append]
        exact or_congr_left (and_iff_right hload).symm
      · rename_i hload
        exact (or_iff_right fun h => hload h.1).symm
    rw [hcons, ih]
    constructor
    · rintro (⟨hload, hv⟩ | ⟨j, header, hheader, hload, hv⟩)
      · exact ⟨0, (offset, program), rfl, hload, hv⟩
      · refine ⟨j + 1, header, hheader, hload, ?_⟩
        rwa [← Nat.add_assoc, Nat.add_right_comm]
    · rintro ⟨j, header, hheader, hload, hv⟩
      cases j with
      | zero =>
        cases hheader
        exact .inl ⟨hload, hv⟩
      | succ j =>
        refine .inr ⟨j, header, hheader, hload, ?_⟩
        rwa [Nat.add_right_comm, Nat.add_assoc]

end

end ZOs.ProcessMemory
