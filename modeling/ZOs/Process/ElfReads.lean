import ZOs.Loader.KernelElf
import ZOs.Process.Pages

/-!
# What loading reads of a file

`process_load_elf` looks at no size: the program headers and the data of
the segments are read from where the file says they are.
`elf_inside_iff`: for which files the boot loader and the kernel read
nothing outside of the buffer.
-/

namespace ZOs.ProcessMemory

open Paging Bytes Elf Attempt

/-! ## Reads -/

/-- All that has been read is in the buffer. -/
def Loading.ReadsInside (l : Loading) (file : Buffer) : Prop := ∀ part ∈ l.reads, file.Holds part

/-- What is left to copy is in the buffer, unless the pointer to it is null. -/
def DataInside (file : Buffer) (buffer : Option Word) (bytesRemaining : Nat) : Prop :=
  ∀ source, buffer = some source → bytesRemaining ≠ 0 → file.address + source ≠ 0 →
    file.Holds (source, bytesRemaining)

section
variable {α : Type} {file : Buffer} {l l' : Loading} {source physicalAddress : Word}
  {buffer buffer' : Option Word} {bytesRemaining bytesRemaining' n : Nat}

@[simp] theorem readsInside_process {p : Process} :
    Loading.ReadsInside { l with process := p } file ↔ l.ReadsInside file := Iff.rfl

theorem readsInside_note {offset : Word} :
    (l.noted offset n).ReadsInside file ↔
      l.ReadsInside file ∧ file.Holds (offset, n) :=
  List.forall_mem_append.trans (and_congr_right' (List.forall_mem_singleton ..))

theorem dataInside_none : DataInside file none n := fun _ h => nomatch h

theorem dataInside_some (hnull : file.address + source ≠ 0) (hn : n ≠ 0) :
    DataInside file (some source) n ↔ file.Holds (source, n) := by
  constructor
  · exact fun h => h source rfl hn hnull
  · intro h _ hsource _ _
    obtain rfl := Option.some.inj hsource
    exact h

/-- The data is in the buffer when its first page is, and the rest of it. -/
theorem holds_page_iff (hn : 4096 ≤ n) :
    file.Holds (source, 4096) ∧ DataInside file (some (source + pageSize)) (n - 4096) ↔
      file.Holds (source, n) := by
  have hfits := file.fits
  have hsize : pageSize.toNat = 4096 := rfl
  rw [holds_iff, holds_iff]
  constructor
  · rintro ⟨hpage, hrest⟩
    -- neither the place nor the pointer wraps
    have hplace : (source + pageSize).toNat = source.toNat + 4096 := by
      rw [BitVec.toNat_add, hsize, Nat.mod_eq_of_lt (by omega)]
    by_cases hlast : n = 4096
    · rw [hlast]
      exact hpage
    · have hnull : file.address + (source + pageSize) ≠ 0 := by
        intro h
        have htoNat := congrArg BitVec.toNat h
        rw [BitVec.toNat_add, hplace, Nat.mod_eq_of_lt (by omega)] at htoNat
        have hzero : (0 : Word).toNat = 0 := rfl
        omega
      have hrest := holds_iff.mp (hrest _ rfl (by omega) hnull)
      omega
  · intro h
    refine ⟨by omega, fun _ hsource hrest _ => ?_⟩
    obtain rfl := Option.some.inj hsource
    have hplace : (source + pageSize).toNat = source.toNat + 4096 := by
      rw [BitVec.toNat_add, hsize, Nat.mod_eq_of_lt (by omega)]
    exact holds_iff.mpr (by omega)

/-- A part that is copied moves bytes from what is left to copy to what has
been read. -/
theorem CopiedPart.reads_iff
    (h : CopiedPart file physicalAddress buffer bytesRemaining l (buffer', bytesRemaining') l') :
    l'.ReadsInside file ∧ DataInside file buffer' bytesRemaining' ↔
      l.ReadsInside file ∧ DataInside file buffer bytesRemaining := by
  cases h with
  | nothing => rfl
  | rest hsource hnull hbytes =>
    subst hsource
    rw [dataInside_some hnull hbytes]
    exact (and_iff_left dataInside_none).trans readsInside_note
  | page hsource hnull hbytes =>
    subst hsource
    rw [dataInside_some hnull (by omega), ← holds_page_iff hbytes, ← and_assoc]
    exact and_congr_left' readsInside_note

end

/-! ## Files that fit -/

/-- A header is in the buffer, and the data that is copied for it. -/
def HeaderFits (file : Buffer) (header : Word × ProgramHeader) : Prop :=
  HeaderInside file header ∧ (header.2.Loadable → header.2.refused = false →
    DataInside file (some header.2.pOffset) header.2.pFilesz.toNat)

/-- The file has an ELF header, and the program headers up to the first one
that is refused, with their data. -/
structure LoadFits (file : Buffer) : Prop where
  header : elfHeaderSize ≤ file.size.toNat
  headers : AllReached Sound (HeaderFits file) (programHeaders file)
  segments : Sound (programHeaders file) → SegmentsInside file (programHeaders file)

section
variable {header : Word × ProgramHeader} {headers : List (Word × ProgramHeader)}

/-- The headers after one that does not end the loop. -/
theorem allReached_sound {Q : Word × ProgramHeader → Prop}
    (hpassed : header.2.Loadable → header.2.refused = false) :
    AllReached Sound Q (header :: headers) ↔ Q header ∧ AllReached Sound Q headers := by
  have hcons before : Sound (header :: before) ↔ Sound before := by
    unfold Sound
    rw [List.forall_mem_cons]
    exact and_iff_right hpassed
  rw [allReached_cons sound_nil, funext fun before => propext (hcons before)]

end

/-! ## What is read of a file that fits -/

section
variable {α : Type} {type : MemoryPageType} {virtualBase size pageFlags : Word}
  {kmalloc : Nat → Bool} {file : Buffer} {l : Loading} {buffer : Option Word}
  {i n bytesRemaining : Nat} {program : ProgramHeader} {headers : List (Word × ProgramHeader)}

theorem readsInside_onProcess {x : Attempt Process α} (h : l.ReadsInside file) :
    Tried (onProcess x) l (·.ReadsInside file) fun _ l' => l'.ReadsInside file :=
  tried_onProcess.mpr (tried_of_forall (fun _ => h) fun _ _ => h)

theorem allocatePages_inside (h : l.ReadsInside file ∧ DataInside file buffer bytesRemaining) :
    Tried (allocatePages type virtualBase pageFlags kmalloc file i n buffer bytesRemaining) l
      (·.ReadsInside file) fun _ l' => l'.ReadsInside file := by
  induction n generalizing i l buffer bytesRemaining with
  | zero => exact h.1
  | succ n ih =>
    unfold allocatePages
    refine tried_ite.mpr ?_
    by_cases hrecord : kmalloc (2 * i) = false
    · rw [if_pos hrecord]
      exact h.1
    · rw [if_neg hrecord]
      refine tried_bind.mpr ((readsInside_onProcess h.1).mono (fun _ h => h) ?_)
      intro physicalAddress l₁ h₁
      refine tried_bind.mpr ((readsInside_onProcess h₁).mono (fun _ h => h) ?_)
      intro _ l₂ h₂
      refine tried_ite.mpr ?_
      by_cases hwindow : mmapPhysicalRegionSize ≤ physicalAddress.toNat
      · rw [if_pos hwindow]
        exact h₂
      · rw [if_neg hwindow]
        refine tried_bind.mpr ((copyPart_spec ..).mono (fun _ h => h.elim) ?_)
        intro out l₃ hcopied
        exact ih (hcopied.reads_iff.mpr ⟨h₂, h.2⟩)

theorem loadProgramSegment_inside (h : l.ReadsInside file)
    (hdata : program.refused = false →
      DataInside file (some program.pOffset) program.pFilesz.toNat) :
    Tried (loadProgramSegment kmalloc file program) l (·.ReadsInside file)
      fun _ l' => program.refused = false ∧ l'.ReadsInside file := by
  refine tried_ite.mpr ?_
  by_cases hrefused : program.refused = true
  · rw [if_pos hrefused]
    exact h
  · rw [if_neg hrefused]
    have hsound : program.refused = false := by simpa using hrefused
    exact (allocatePages_inside ⟨h, hdata hsound⟩).mono (fun _ h => h) fun _ _ h => ⟨hsound, h⟩

theorem loadSegments_inside (kmalloc : Nat → Nat → Bool) (i : Nat) (h : l.ReadsInside file)
    (hfits : AllReached Sound (HeaderFits file) headers) :
    Tried (loadSegments kmalloc file i headers) l (·.ReadsInside file)
      fun _ l' => Sound headers ∧ l'.ReadsInside file := by
  induction headers generalizing i l with
  | nil => exact ⟨sound_nil, h⟩
  | cons header rest ih =>
    obtain ⟨offset, program⟩ := header
    have hheader : HeaderFits file (offset, program) := hfits [] _ rest rfl sound_nil
    have hnoted := readsInside_note.mpr ⟨h, hheader.1⟩
    refine tried_bind.mpr (tried_modify.mpr ?_)
    show Tried (if program.Loadable then _ else _) _ _ _
    by_cases hload : program.Loadable
    · rw [if_pos hload]
      refine tried_bind.mpr ((loadProgramSegment_inside hnoted (hheader.2 hload)).mono
        (fun _ h => h) ?_)
      rintro _ l' ⟨hsound, h'⟩
      refine (ih _ h' ((allReached_sound fun _ => hsound).mp hfits).2).mono (fun _ h => h) ?_
      rintro _ l'' ⟨hrest, h''⟩
      exact ⟨List.forall_mem_cons.mpr ⟨fun _ => hsound, hrest⟩, h''⟩
    · rw [if_neg hload]
      have hskip (h : program.Loadable) : program.refused = false := absurd h hload
      refine (ih _ hnoted ((allReached_sound hskip).mp hfits).2).mono (fun _ h => h) ?_
      rintro _ l' ⟨hrest, h'⟩
      exact ⟨List.forall_mem_cons.mpr ⟨hskip, hrest⟩, h'⟩

end

/-! ## A process that every segment fits in

Two tables lead every address into the lowest GiB of physical memory, which
they are not in. -/

/-- Where the tables are: at 2 GiB and a page further. -/
def rootTableAddress : Word := 0x80000000

/-- The process, with all addresses mapped. -/
structure Everywhere (p : Process) : Prop where
  root : p.pageTable.rootPageTable = rootTableAddress
  l0 : ∀ index < 512, p.pageTable.memory (0x80000000 + 8 * index) = 0x80001003
  l1 : ∀ index < 512, p.pageTable.memory (0x80001000 + 8 * index) = 1

/-- Such a process with nothing in memory but the tables. -/
def everywhereProcess : Process where
  pageTable :=
    { rootPageTable := rootTableAddress
      memory := fun address => if address < 0x80001000 then 0x80001003 else 1
      answers := []
      obtained := []
      stored := [] }
  blocks := []
  memoryPages := []
  mmapEntries := []
  fdTable := fun _ => none

theorem everywhere_everywhereProcess : Everywhere everywhereProcess where
  root := rfl
  l0 index hindex := if_pos (by omega)
  l1 index hindex := if_neg (by omega)

section
variable {p : Process} {file : Buffer} {physicalAddress source : Word} {n : Nat}

theorem Everywhere.translate (h : Everywhere p) (x : Word) :
    p.pageTable.vmapVirtualToPhysical x = some (x &&& 0x3FFFFFFF) := by
  have hl0 : p.pageTable.entry rootTableAddress (l0Index x) = 0x80001003 :=
    h.l0 _ (index_lt (x >>> 39))
  have hl1 : p.pageTable.entry 0x80001000 (l1Index x) = 1 := h.l1 _ (index_lt (x >>> 30))
  unfold Vmap.vmapVirtualToPhysical
  dsimp only
  rw [h.root, if_neg (by decide), hl0, if_neg (by decide)]
  rw [show (0x80001003 : Word) &&& tblEntryAddrMask = 0x80001000 from rfl, hl1,
    if_neg (by decide), if_pos (by decide)]
  rw [show (1 : Word) &&& tblEntryL1BlockAddrMask = 0 from rfl]
  exact congrArg some BitVec.zero_or

theorem Everywhere.physical_lt (x : Word) : (x &&& 0x3FFFFFFF : Word).toNat < 2 ^ 30 := by
  rw [BitVec.toNat_and]
  exact Nat.and_lt_two_pow _ (by decide)

theorem Everywhere.copy (h : Everywhere p) (hphysical : physicalAddress.toNat < 2 ^ 30)
    (hn : n ≤ 4096) : Everywhere (p.copy file physicalAddress source n) := by
  have hframe address (haddress : 0x80000000 ≤ address) :
      (p.copy file physicalAddress source n).pageTable.memory address =
        p.pageTable.memory address := by
    refine copyBytes_of_ne n fun k _ hk => ?_
    unfold wordAddress
    omega
  constructor
  · exact h.root
  · intro index hindex
    rw [hframe _ (by omega), h.l0 index hindex]
  · intro index hindex
    rw [hframe _ (by omega), h.l1 index hindex]

end

section
variable {type : MemoryPageType} {virtualBase size pageFlags : Word} {file : Buffer} {l : Loading}
  {buffer : Option Word} {i n bytesRemaining : Nat} {program : ProgramHeader}
  {headers : List (Word × ProgramHeader)}

/-- There is a page for every byte that is left to copy. -/
def Enough (file : Buffer) (buffer : Option Word) (bytesRemaining n : Nat) : Prop :=
  ∀ source, buffer = some source → file.address + source ≠ 0 → bytesRemaining ≤ 4096 * n

theorem CopiedPart.everywhere {l' : Loading} {physicalAddress : Word}
    {out : Option Word × Nat} (h : Everywhere l.process)
    (hphysical : physicalAddress.toNat < 2 ^ 30)
    (hcopied : CopiedPart file physicalAddress buffer bytesRemaining l out l') :
    Everywhere l'.process := by
  cases hcopied with
  | nothing => exact h
  | rest _ _ _ hlast => exact h.copy hphysical (Nat.le_of_lt hlast)
  | page => exact h.copy hphysical (Nat.le_refl _)

theorem CopiedPart.enough {l' : Loading} {physicalAddress : Word} {out : Option Word × Nat}
    (henough : Enough file buffer bytesRemaining (n + 1))
    (hcopied : CopiedPart file physicalAddress buffer bytesRemaining l out l') :
    Enough file out.1 out.2 n := by
  intro source hsource hnull
  cases hcopied with
  | nothing hskip =>
    have hzero : bytesRemaining = 0 := (hskip source hsource).resolve_left hnull
    exact hzero ▸ Nat.zero_le _
  | rest => cases hsource
  | page hsource' hnull' hbytes =>
    have hpages : bytesRemaining ≤ 4096 * (n + 1) := henough _ hsource' hnull'
    show bytesRemaining - 4096 ≤ 4096 * n
    omega

/-- All is copied, so all that is to copy has been read. -/
theorem allocatePages_everywhere (h : Everywhere l.process)
    (henough : Enough file buffer bytesRemaining n) :
    Tried (allocatePages type virtualBase pageFlags (fun _ => true) file i n buffer bytesRemaining)
      l (fun _ => False) fun _ l' => Everywhere l'.process ∧
        (l'.ReadsInside file → l.ReadsInside file ∧ DataInside file buffer bytesRemaining) := by
  induction n generalizing i l buffer bytesRemaining with
  | zero =>
    refine ⟨h, fun hreads => ⟨hreads, fun source hsource hbytes hnull => ?_⟩⟩
    exact absurd (Nat.le_zero.mp (henough source hsource hnull)) hbytes
  | succ n ih =>
    unfold allocatePages
    rw [if_neg (by simp)]
    -- the page is there
    refine tried_bind.mpr (tried_onProcess.mpr ?_)
    unfold Tried findPage
    rw [h.translate]
    refine tried_bind.mpr (tried_onProcess.mpr (tried_modify.mpr ?_))
    have hphysical := Everywhere.physical_lt (virtualBase + BitVec.ofNat 64 i * pageSize)
    have hwindow : mmapPhysicalRegionSize = 2 ^ 34 := rfl
    rw [if_neg (by omega)]
    refine tried_bind.mpr ((copyPart_spec ..).mono (fun _ h => h.elim) ?_)
    intro out l' hcopied
    refine (ih (hcopied.everywhere ?_ hphysical) (hcopied.enough henough)).mono (fun _ h => h) ?_
    · exact ⟨h.root, h.l0, h.l1⟩
    · rintro _ l'' ⟨h'', hreads⟩
      exact ⟨h'', fun hinside => hcopied.reads_iff.mp (hreads hinside)⟩

theorem loadProgramSegment_everywhere (h : Everywhere l.process) :
    Tried (loadProgramSegment (fun _ => true) file program) l
      (fun l' => program.refused = true ∧ l' = l)
      fun _ l' => program.refused = false ∧ Everywhere l'.process ∧ (l'.ReadsInside file →
        l.ReadsInside file ∧ DataInside file (some program.pOffset) program.pFilesz.toNat) := by
  refine tried_ite.mpr ?_
  by_cases hrefused : program.refused = true
  · rw [if_pos hrefused]
    exact ⟨hrefused, rfl⟩
  · rw [if_neg hrefused]
    have hsound : program.refused = false := by simpa using hrefused
    have hsize : program.pFilesz.toNat ≤ program.pMemsz.toNat := by
      have hchecks := of_decide_eq_false hsound
      exact Nat.le_of_not_lt fun h => hchecks (.inl h)
    have hpages := countPages_toNat program.pMemsz
    refine (allocatePages_everywhere h fun _ _ _ => ?_).mono (fun _ h => h.elim)
      fun _ _ h => ⟨hsound, h⟩
    omega

/-- If all that has been read in `l'` is in the buffer, then all that had been
read in `l` is, and the headers that are reached. -/
def ReadsAll (file : Buffer) (headers : List (Word × ProgramHeader)) (l l' : Loading) : Prop :=
  l'.ReadsInside file → l.ReadsInside file ∧ AllReached Sound (HeaderFits file) headers

section
variable {offset : Word} {l₁ l' : Loading}

theorem ReadsAll.cons (hpassed : program.Loadable → program.refused = false)
    (hdata : l₁.ReadsInside file → (l.noted offset programHeaderSize).ReadsInside file ∧
      (program.Loadable → DataInside file (some program.pOffset) program.pFilesz.toNat))
    (hrest : ReadsAll file headers l₁ l') : ReadsAll file ((offset, program) :: headers) l l' := by
  intro hinside
  obtain ⟨hinside₁, hreached⟩ := hrest hinside
  obtain ⟨hnoted, hload⟩ := hdata hinside₁
  obtain ⟨hinside₀, hheader⟩ := readsInside_note.mp hnoted
  exact ⟨hinside₀, (allReached_sound hpassed).mpr ⟨⟨hheader, fun h _ => hload h⟩, hreached⟩⟩

theorem readsAll_refused (hload : program.Loadable) (hrefused : program.refused = true) :
    ReadsAll file ((offset, program) :: headers) l (l.noted offset programHeaderSize) := by
  intro hinside
  obtain ⟨hinside, hheader⟩ := readsInside_note.mp hinside
  refine ⟨hinside, (allReached_cons sound_nil).mpr ⟨⟨hheader, fun _ h => ?_⟩, ?_⟩⟩
  · rw [hrefused] at h
    cases h
  · intro before _ _ _ hpassed
    exact absurd hpassed (not_sound_cons hload hrefused)

end

/-- Every header is read up to the first one that is refused. -/
theorem loadSegments_everywhere (file : Buffer) (headers : List (Word × ProgramHeader)) (i : Nat)
    (h : Everywhere l.process) :
    Tried (loadSegments (fun _ _ => true) file i headers) l
      (fun l' => ¬Sound headers ∧ ReadsAll file headers l l')
      (fun _ l' => Sound headers ∧ ReadsAll file headers l l') := by
  induction headers generalizing i l with
  | nil => exact ⟨sound_nil, fun hreads => ⟨hreads, allReached_nil⟩⟩
  | cons header rest ih =>
    obtain ⟨offset, program⟩ := header
    refine tried_bind.mpr (tried_modify.mpr ?_)
    show Tried (if program.Loadable then _ else _) (l.noted offset programHeaderSize) _ _
    by_cases hload : program.Loadable
    · rw [if_pos hload]
      refine tried_bind.mpr ((loadProgramSegment_everywhere (l := l.noted ..) h).mono ?_ ?_)
      · rintro _ ⟨hrefused, rfl⟩
        exact ⟨not_sound_cons hload hrefused, readsAll_refused hload hrefused⟩
      · rintro _ l₁ ⟨hsound, h₁, hreads⟩
        have hdata hinside := (hreads hinside).imp_right fun h (_ : program.Loadable) => h
        refine (ih _ h₁).mono ?_ ?_
        · rintro l' ⟨hnot, hrest⟩
          exact ⟨fun h => hnot (List.forall_mem_cons.mp h).2, hrest.cons (fun _ => hsound) hdata⟩
        · rintro _ l' ⟨hall, hrest⟩
          exact ⟨List.forall_mem_cons.mpr ⟨fun _ => hsound, hall⟩,
            hrest.cons (fun _ => hsound) hdata⟩
    · rw [if_neg hload]
      have hskip (h : program.Loadable) : program.refused = false := absurd h hload
      refine (ih (l := l.noted ..) _ h).mono ?_ ?_
      · rintro l' ⟨hnot, hrest⟩
        exact ⟨fun h => hnot (List.forall_mem_cons.mp h).2,
          hrest.cons hskip fun hinside => ⟨hinside, fun h => absurd h hload⟩⟩
      · rintro _ l' ⟨hall, hrest⟩
        exact ⟨List.forall_mem_cons.mpr ⟨hskip, hall⟩,
          hrest.cons hskip fun hinside => ⟨hinside, fun h => absurd h hload⟩⟩

end

/-! ## Safety -/

/-- Loading reads nothing outside the buffer, and if it returns 0 the data
of every segment is in the buffer, from any state of the process and
whatever memory there is. -/
def LoadSafe (file : Buffer) : Prop :=
  ∀ kmalloc mainThread (p : Process),
    let out := processLoadElf kmalloc mainThread file ⟨p, []⟩
    out.2.ReadsInside file ∧ (out.1 = some () → SegmentsInside file (programHeaders file))

theorem loadSafe_iff (file : Buffer) : LoadSafe file ↔ LoadFits file := by
  have hheader (p : Process) : (Loading.noted ⟨p, []⟩ 0 elfHeaderSize).ReadsInside file ↔
      elfHeaderSize ≤ file.size.toNat := by
    rw [readsInside_note, holds_iff, show (0 : Word).toNat = 0 from rfl, Nat.zero_add]
    exact and_iff_right (List.forall_mem_nil _)
  constructor
  · intro h
    obtain ⟨hinside, hreturned⟩ := h (fun _ _ => true) true everywhereProcess
    have hloop := loadSegments_everywhere file (programHeaders file) 0
      (l := .noted ⟨everywhereProcess, []⟩ 0 elfHeaderSize) everywhere_everywhereProcess
    have hrun : Tried (processLoadElf (fun _ _ => true) true file) ⟨everywhereProcess, []⟩
        (fun l' => ¬Sound (programHeaders file) ∧ ReadsAll file (programHeaders file)
          (.noted ⟨everywhereProcess, []⟩ 0 elfHeaderSize) l')
        fun _ l' => Sound (programHeaders file) ∧ ReadsAll file (programHeaders file)
          (.noted ⟨everywhereProcess, []⟩ 0 elfHeaderSize) l' :=
      tried_bind.mpr (tried_modify.mpr (tried_bind.mpr (hloop.mono (fun _ h => h) fun _ _ h => h)))
    rcases hout : processLoadElf (fun _ _ => true) true file ⟨everywhereProcess, []⟩ with
      ⟨_ | _, l'⟩
    · obtain ⟨hnot, hreads⟩ := hrun.gaveUp hout
      rw [hout] at hinside
      obtain ⟨hsize, hheaders⟩ := hreads hinside
      exact ⟨(hheader _).mp hsize, hheaders, fun h => absurd h hnot⟩
    · rw [hout] at hinside hreturned
      obtain ⟨hsize, hheaders⟩ := (hrun.returned hout).2 hinside
      exact ⟨(hheader _).mp hsize, hheaders, fun _ => hreturned rfl⟩
  · rintro ⟨hsize, hheaders, hsegments⟩ kmalloc mainThread p
    have hloop := loadSegments_inside kmalloc 0
      ((hheader p).mpr hsize) hheaders
    have hrun : Tried (processLoadElf kmalloc mainThread file) ⟨p, []⟩ (·.ReadsInside file)
        fun _ l' => Sound (programHeaders file) ∧ l'.ReadsInside file := by
      refine tried_bind.mpr (tried_modify.mpr (tried_bind.mpr (hloop.mono (fun _ h => h) ?_)))
      rintro _ l' ⟨hsound, h'⟩
      refine tried_ite.mpr ?_
      split
      · exact ⟨hsound, h'⟩
      · exact h'
    refine ⟨(hrun.mono (fun _ h => h) fun _ _ h => h.2).state, fun hsome => ?_⟩
    rcases hout : processLoadElf kmalloc mainThread file ⟨p, []⟩ with ⟨_ | _, l'⟩
    · rw [hout] at hsome
      cases hsome
    · exact hsegments (hrun.returned hout).1

/-- The boot loader and the kernel read nothing outside of the buffer, and
accept no segment that is not in it, exactly for the files that fit: the
end of the table of program headers is all that is checked, and by the boot
loader only. -/
theorem elf_inside_iff (file : Buffer) :
    (Boot.ParseSafe file ↔ Boot.ParseFits file) ∧ (LoadSafe file ↔ LoadFits file) :=
  ⟨Boot.parseSafe_iff file, loadSafe_iff file⟩

/-- A file of 120 bytes whose only segment is one byte at 4 GiB. -/
def farSegment : Buffer where
  address := 0x10000
  size := 120
  bytes offset :=
    match offset with
    | 32 => 64 -- e_phoff
    | 54 => 56 -- e_phentsize
    | 56 => 1 -- e_phnum
    | 64 => 1 -- p_type
    | 76 => 1 -- p_offset
    | 96 => 1 -- p_filesz
    | 104 => 1 -- p_memsz
    | 112 => 1 -- p_align
    | _ => 0
  fits := by decide

theorem farSegment_accepted :
    ¬∀ file : Buffer, Boot.ParseSafe file ∧ LoadSafe file := by
  intro h
  obtain ⟨⟨-, haccepted⟩, -⟩ := h farSegment
  have hreturned : (Boot.kernelElfParseInfo farSegment).1 = some () := by decide +kernel
  have hsegments : (Boot.kernelElfParseInfo farSegment).2.info.segments =
      [⟨0x100000000, 1, 1, 0, 1, 0⟩] := by decide +kernel
  have hinside := haccepted hreturned
  unfold Boot.Parsing.SegmentsInside at hinside
  rw [hsegments, List.forall_mem_singleton] at hinside
  exact absurd (holds_iff.mp hinside) (by decide)

end ZOs.ProcessMemory
