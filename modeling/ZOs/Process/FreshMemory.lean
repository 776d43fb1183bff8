import ZOs.Process.Alike
import ZOs.Process.Isolation

/-!
# Fresh memory

A page that `process_init`, `process_mmap` or `shared_memory_create` takes from
`page_alloc_block` is mapped as it is: in `allocate_memory_pages` the call of
`memory_set` is a comment. What a process reads there before anything is
written is what the page held before.

Of two kernels that differ in the pages only that are still to be given, each
does in every call what the other does (`run_twin`), and leaves those pages
alone until something is written to them (`run_clean`). The nodes of the free
lists are in free pages too; here they are part of what the pages hold.
-/

namespace ZOs.Processes

open Paging ProcessMemory Bytes Elf Attempt Runs

/-! ## What is fresh -/

/-- The functions that take pages for a stack, a region or an object. -/
def Call.Obtains : Call → Prop
  | .init .. | .mmap .. | .create .. | .openObject .. => True
  | _ => False

/-- Something goes into the page: the byte of a store, or a part of the file. -/
def Writes (k : Kernel) (page : Word) : Call → Prop
  | .store i x _ => ∃ pa, k.translate i x = some pa ∧ frame pa = page
  | .loadElf i kmalloc _ file => ∃ v ∈ reachedVisits kmalloc file, v.part.2 ≠ 0 ∧
      ∃ pa, k.translate i v.virtualAddress = some pa ∧ frame pa = page
  | _ => False

/-- The page was obtained, and nothing has been written to it. -/
inductive Fresh (page : Word) : List (Kernel × Call) → Prop
  | obtained {history k call k'} : call.Obtains → exec k call = some k' →
      some page ∈ k.blocks → some page ∉ k'.blocks → Fresh page ((k, call) :: history)
  | kept {history k call} : Fresh page history → ¬Writes k page call →
      Fresh page ((k, call) :: history)

/-- The address is in a fresh page of the process. -/
def FreshAt (history : List (Kernel × Call)) (k : Kernel) (i : ProcessId) (x : Word) : Prop :=
  ∃ pa, k.translate i x = some pa ∧ Fresh (frame pa) history

/-- What a process reads. -/
def Kernel.readByte (k : Kernel) (i : ProcessId) (x : Word) : Option Byte :=
  (k.translate i x).map fun pa => Bytes.readByte k.memory pa.toNat

/-- The kernels differ in what the pages hold that `page_alloc_block` has not
given yet. -/
structure DiffersInFree (k k' : Kernel) : Prop where
  rest : k' = { k with memory := k'.memory }
  memory : ∀ c, (∀ page ∈ k.free, ¬InPage page c) → k'.memory c = k.memory c

/-- What the processes read in fresh pages is what they read after the same calls
on any kernel that differs in free pages. -/
def RevealsNothing (usable : Word → Prop) (k₀ : Kernel) (history : List (Kernel × Call))
    (k : Kernel) : Prop :=
  ∀ k₀' history' k', DiffersInFree k₀ k₀' → Run (· = k₀') (Step usable) history' k' →
    history'.map Prod.snd = history.map Prod.snd →
    ∀ i x, FreshAt history k i x → k'.readByte i x = k.readByte i x

/-! ## Two kernels -/

/-- The kernels have the same tables, and differ in other memory only. -/
structure Twin (k k' : Kernel) : Prop where
  rest : k' = { k with memory := k'.memory }
  tables : ∀ i o, k.processes i = some o → ∀ table ∈ o.obtained, ∀ c, InPage table c →
    k'.memory c = k.memory c

/-- A word of a table of some process. -/
def TableWord (k : Kernel) (c : Nat) : Prop :=
  ∃ i o, k.processes i = some o ∧ ∃ table ∈ o.obtained, InPage table c

section
variable {usable : Word → Prop} {use : Word → Option Use} {history : List (Kernel × Call)}
  {k k' k₁ : Kernel} {call : Call} {i : ProcessId} {o : Owned} {p p' : Process} {x page : Word}

theorem Twin.alike (h : Twin k k')
    (htables : ∀ table ∈ o.obtained, ∀ c, InPage table c → TableWord k c) :
    Alike (TableWord k) (k.process o) (k'.process o) := by
  have hagree (c : Nat) (hc : TableWord k c) : k'.memory c = k.memory c := by
    obtain ⟨i, o', ho', table, htable, hin⟩ := hc
    exact h.tables i o' ho' table htable c hin
  have hrest := h.rest
  generalize k'.memory = memory at hrest hagree
  subst hrest
  exact ⟨⟨⟨rfl, rfl, fun table htable c hin => hagree c (htables table htable c hin)⟩, rfl, rfl,
    hagree⟩, rfl, rfl, rfl, rfl⟩

/-- A process that the kernels have. -/
theorem Twin.process (h : Twin k k') (ho : k.processes i = some o) :
    Alike (TableWord k) (k.process o) (k'.process o) :=
  h.alike fun table htable _ hin => ⟨i, o, ho, table, htable, hin⟩

/-- A process that has just been made. -/
theorem Twin.new (h : Twin k k') : Alike (TableWord k) (k.process .new) (k'.process .new) :=
  h.alike fun _ htable => nomatch htable

theorem Twin.translate (h : Twin k k') (haccounts : Accounts usable use history k) (i : ProcessId)
    (x : Word) : k'.translate i x = k.translate i x := by
  have hprocesses : k'.processes = k.processes := by rw [h.rest]
  unfold Kernel.translate
  rw [hprocesses]
  cases ho : k.processes i with
  | none => rfl
  | some o => exact (h.process ho).translate (haccounts.process i o ho).wellFormed x

/-- A process goes on, in both kernels. -/
theorem Twin.keep (h : Twin k k') (halike : Alike (TableWord k) p p') :
    Twin (k.keep i o p) (k'.keep i o p') := by
  refine ⟨?_, fun j o' ho' table htable c hin => ?_⟩
  · unfold Kernel.keep
    rw [h.rest]
    simp only [halike.tables.root, halike.tables.answers, halike.tables.obtained,
      halike.tables.stored, halike.blocks, halike.memoryPages, halike.mmapEntries]
  · by_cases hj : j = i
    · subst hj
      cases (Function.update_self ..).symm.trans ho'
      exact halike.tables.memory table htable c hin
    · -- what the process writes is the same, so other tables stay alike
      have ho' : k.processes j = some o' := (Function.update_of_ne hj ..).symm.trans ho'
      exact halike.tables.agree c ⟨j, o', ho', table, htable, hin⟩

/-! ### Calls that look at no memory -/

/-- The call does the same in any memory, and leaves it. -/
structure Quiet (k : Kernel) (call : Call) (k₁ : Kernel) : Prop where
  exec : ∀ memory, exec { k with memory } call = some { k₁ with memory }
  memory : k₁.memory = k.memory
  answers : k₁.answers = k.answers
  blocks : k₁.blocks <:+ k.blocks
  tables : ∀ i o, k₁.processes i = some o → ∃ o', k.processes i = some o' ∧ o'.obtained = o.obtained

theorem create_spec {path : Path} {size : Word} {kmalloc : Bool} {result : Option SharedMemory}
    (hcall : k.sharedMemoryCreate path size kmalloc = some (result, k₁)) :
    (∀ memory, { k with memory }.sharedMemoryCreate path size kmalloc =
      some (result, { k₁ with memory })) ∧
    k₁.memory = k.memory ∧ k₁.answers = k.answers ∧ k₁.blocks <:+ k.blocks ∧
      k₁.processes = k.processes := by
  unfold Kernel.sharedMemoryCreate at hcall ⊢
  split at hcall
  · rename_i hmalloc
    obtain ⟨⟨pages, blocks⟩, htake, hcall⟩ := Option.bind_eq_some_iff.mp hcall
    obtain ⟨object, hobject, heq⟩ := Option.bind_eq_some_iff.mp hcall
    cases heq
    refine ⟨fun memory => ?_, rfl, rfl, ⟨_, (takePages_spec htake).symm⟩, rfl⟩
    rw [if_pos hmalloc]
    exact Option.bind_eq_some_iff.mpr ⟨_, htake, Option.bind_eq_some_iff.mpr ⟨_, hobject, rfl⟩⟩
  · rename_i hmalloc
    cases hcall
    refine ⟨fun memory => ?_, rfl, rfl, List.suffix_refl _, rfl⟩
    rw [if_neg hmalloc]

theorem quiet_create {path : Path} {size : Word} {kmalloc : Bool}
    (hexec : exec k (.create path size kmalloc) = some k₁) :
    Quiet k (.create path size kmalloc) k₁ := by
  obtain ⟨⟨result, k₁⟩, hcall, rfl⟩ := Option.map_eq_some_iff.mp hexec
  obtain ⟨hcreate, hmemory, hanswers, hblocks, hprocesses⟩ := create_spec hcall
  refine ⟨fun memory => congrArg (Option.map Prod.snd) (hcreate memory), hmemory, hanswers, hblocks,
    fun i o ho => ⟨o, ?_, rfl⟩⟩
  rw [← hprocesses]
  exact ho

theorem quiet_createFromContiguousPages {path : Path} {start size : Word} {kmalloc : Bool}
    (hexec : exec k (.createFromContiguousPages path start size kmalloc) = some k₁) :
    Quiet k (.createFromContiguousPages path start size kmalloc) k₁ := by
  obtain ⟨⟨result, k₁⟩, hcall, rfl⟩ := Option.map_eq_some_iff.mp hexec
  unfold Kernel.sharedMemoryCreateFromContiguousPages at hcall
  split at hcall
  · rename_i hmalloc
    obtain ⟨object, hobject, heq⟩ := Option.bind_eq_some_iff.mp hcall
    cases heq
    refine ⟨fun memory => Option.map_eq_some_iff.mpr ⟨(some object, _), ?_, rfl⟩, rfl, rfl,
      List.suffix_refl _, fun _ o ho => ⟨o, ho, rfl⟩⟩
    exact (if_pos hmalloc).trans (Option.bind_eq_some_iff.mpr ⟨_, hobject, rfl⟩)
  · rename_i hmalloc
    cases hcall
    refine ⟨fun memory => Option.map_eq_some_iff.mpr ⟨(none, _), if_neg hmalloc, rfl⟩, rfl, rfl,
      List.suffix_refl _, fun _ o ho => ⟨o, ho, rfl⟩⟩

theorem fdTableOpen_tables {object : SharedMemory} (ho : k.processes i = some o) :
    ∀ j o', (k.fdTableOpen i o object).2.processes j = some o' →
      ∃ o'', k.processes j = some o'' ∧ o''.obtained = o'.obtained := by
  intro j o' ho'
  obtain ⟨o'', ho'', hkept⟩ := fdTableOpen_kept ho ho'
  exact ⟨o'', ho'', hkept.tables.obtained.symm⟩

section
variable {object : SharedMemory} {path : Path} {size : Word} {kmalloc : Bool}

theorem sharedMemoryOpen_other (ho : k.processes i = some o)
    (hpath : k.pathTable path = some .other) :
    k.sharedMemoryOpen i path size kmalloc = some (none, k) := by
  refine Option.bind_eq_some_iff.mpr ⟨o, ho, ?_⟩
  rw [hpath]
  rfl

theorem sharedMemoryOpen_object (ho : k.processes i = some o)
    (hpath : k.pathTable path = some (.sharedMemory object)) :
    k.sharedMemoryOpen i path size kmalloc =
      some (some o.fdTable.handles.length, (k.fdTableOpen i o object).2) := by
  refine Option.bind_eq_some_iff.mpr ⟨o, ho, ?_⟩
  rw [hpath]
  rfl

theorem sharedMemoryOpen_new (ho : k.processes i = some o) (hpath : k.pathTable path = none)
    (hcreate : k.sharedMemoryCreate path size kmalloc = some (some object, k₁)) :
    k.sharedMemoryOpen i path size kmalloc =
      some (some o.fdTable.handles.length, (k₁.fdTableOpen i o object).2) := by
  refine Option.bind_eq_some_iff.mpr ⟨o, ho, ?_⟩
  rw [hpath]
  exact Option.bind_eq_some_iff.mpr ⟨_, hcreate, rfl⟩

theorem quiet_openObject (hexec : exec k (.openObject i path size kmalloc) = some k₁) :
    Quiet k (.openObject i path size kmalloc) k₁ := by
  obtain ⟨⟨result, k₁⟩, hcall, rfl⟩ := Option.map_eq_some_iff.mp hexec
  obtain ⟨o, ho, hopen⟩ := Option.bind_eq_some_iff.mp hcall
  split at hopen
  · rename_i hpath
    cases hopen
    refine ⟨fun memory => ?_, rfl, rfl, List.suffix_refl _, fun _ o' ho' => ⟨o', ho', rfl⟩⟩
    exact congrArg (Option.map Prod.snd) (sharedMemoryOpen_other (k := { k with memory }) ho hpath)
  · rename_i object hpath
    cases hopen
    refine ⟨fun memory => ?_, rfl, rfl, List.suffix_refl _, fdTableOpen_tables ho⟩
    exact congrArg (Option.map Prod.snd) (sharedMemoryOpen_object (k := { k with memory }) ho hpath)
  · rename_i hpath
    obtain ⟨⟨_ | object, k₂⟩, hcreate, hopen⟩ := Option.bind_eq_some_iff.mp hopen
    · cases hopen
    cases hopen
    obtain ⟨hexec, hmemory, hanswers, hblocks, hprocesses⟩ := create_spec hcreate
    refine ⟨fun memory => ?_, hmemory, hanswers, hblocks, fun j o' ho' => ?_⟩
    · exact congrArg (Option.map Prod.snd)
        (sharedMemoryOpen_new (k := { k with memory }) ho hpath (hexec memory))
    · rw [← hprocesses]
      exact fdTableOpen_tables (hprocesses ▸ ho) j o' ho'

end

theorem quiet_growHeap (hexec : exec k .growHeap = some k₁) : Quiet k .growHeap k₁ := by
  have hcall : k.growHeap = some k₁ := hexec
  unfold Kernel.growHeap at hcall
  split at hcall
  · cases hcall
  rename_i page heapBlocks hblocks
  cases hcall
  refine ⟨fun memory => ?_, rfl, rfl, List.suffix_refl _, fun _ o' ho' => ⟨o', ho', rfl⟩⟩
  show Kernel.growHeap _ = _
  unfold Kernel.growHeap
  rw [hblocks]

/-- The kernels go on together. -/
theorem Twin.quiet (h : Twin k k') (hquiet : Quiet k call k₁) :
    ∃ k₁', exec k' call = some k₁' ∧ Twin k₁ k₁' := by
  refine ⟨{ k₁ with memory := k'.memory }, ?_, rfl, fun i o ho table htable c hin => ?_⟩
  · rw [h.rest]
    exact hquiet.exec k'.memory
  · obtain ⟨o', ho', hobtained⟩ := hquiet.tables i o ho
    rw [hquiet.memory]
    exact h.tables i o' ho' table (hobtained ▸ htable) c hin

/-! ### One call in both kernels -/

theorem Twin.init {fdTable : Bool} {stack : Nat → Bool} (h : Twin k k')
    (haccounts : Accounts usable use history k) (hexec : exec k (.init i fdTable stack) = some k₁) :
    ∃ k₁', exec k' (.init i fdTable stack) = some k₁' ∧ Twin k₁ k₁' := by
  obtain ⟨⟨result, k₁⟩, hcall, rfl⟩ := Option.map_eq_some_iff.mp hexec
  have hprocesses : k'.processes = k.processes := by rw [h.rest]
  unfold Kernel.processInit at hcall
  split at hcall
  · cases hcall
  rename_i hnone
  have hseparate := haccounts.separate (haccounts.new hnone) fun _ hobject => (nomatch hobject)
  have hnone' : k'.processes i = none := by rw [hprocesses, hnone]
  have hinit : exec k' (.init i fdTable stack) =
      (if fdTable then some (k'.load i .new (allocateStack stack))
        else some (none, k'.keep i .new (k'.process .new))).map Prod.snd := by
    show (k'.processInit i fdTable stack).map Prod.snd = _
    unfold Kernel.processInit
    rw [hnone']
    rfl
  rw [hinit]
  split at hcall
  · rename_i htable
    cases hcall
    rw [if_pos htable]
    have hstack : LoadsAlike (TableWord k) ⟨k.process .new, []⟩ ⟨k'.process .new, []⟩ := h.new
    exact ⟨_, rfl, h.keep (hstack.allocateStack stack hseparate).2⟩
  · rename_i htable
    cases hcall
    rw [if_neg htable]
    refine ⟨k'.keep i .new (k'.process .new), rfl, ?_⟩
    show Twin (k.keep i .new (k.process .new)) _
    exact h.keep h.new

theorem Twin.loadElf {kmalloc : Nat → Nat → Bool} {mainThread : Bool} {file : Buffer}
    (h : Twin k k') (haccounts : Accounts usable use history k)
    (hstays : StaysInPages k (.loadElf i kmalloc mainThread file))
    (hexec : exec k (.loadElf i kmalloc mainThread file) = some k₁) :
    ∃ k₁', exec k' (.loadElf i kmalloc mainThread file) = some k₁' ∧ Twin k₁ k₁' := by
  obtain ⟨⟨result, k₁⟩, hcall, rfl⟩ := Option.map_eq_some_iff.mp hexec
  obtain ⟨o, ho, heq⟩ := Option.map_eq_some_iff.mp hcall
  cases heq
  have hprocesses : k'.processes = k.processes := by rw [h.rest]
  have hseparate := haccounts.separate (haccounts.process i o ho) (reaches_of_process ho)
  have hloads : LoadsAlike (TableWord k) ⟨k.process o, []⟩ ⟨k'.process o, []⟩ := h.process ho
  refine ⟨(k'.load i o (processLoadElf kmalloc mainThread file)).2, ?_, ?_⟩
  · show ((k'.processes i).map _).map Prod.snd = _
    rw [hprocesses, ho]
    rfl
  · exact h.keep (hloads.processLoadElf kmalloc mainThread hseparate (hstays o ho)).2

theorem Twin.mmap {address length flags : Word} {fd : Int} (h : Twin k k')
    (haccounts : Accounts usable use history k)
    (hexec : exec k (.mmap i address length flags fd) = some k₁) :
    ∃ k₁', exec k' (.mmap i address length flags fd) = some k₁' ∧ Twin k₁ k₁' := by
  obtain ⟨⟨start, k₁⟩, hcall, rfl⟩ := Option.map_eq_some_iff.mp hexec
  obtain ⟨o, ho, hcall⟩ := Option.bind_eq_some_iff.mp hcall
  obtain ⟨⟨start', p⟩, hmmap, heq⟩ := Option.bind_eq_some_iff.mp hcall
  cases heq
  have haccounted := haccounts.process i o ho
  obtain ⟨p', hmmap', halike⟩ :=
    (h.process ho).processMmap haccounted.wellFormed haccounted.pagesOnly hmmap
  have ho' : k'.processes i = some o := by rw [h.rest]; exact ho
  refine ⟨k'.keep i o p', Option.map_eq_some_iff.mpr ⟨(start, k'.keep i o p'), ?_, rfl⟩,
    h.keep halike⟩
  exact Option.bind_eq_some_iff.mpr ⟨o, ho', Option.bind_eq_some_iff.mpr ⟨_, hmmap', rfl⟩⟩

theorem Twin.store {b : Byte} (h : Twin k k') (haccounts : Accounts usable use history k)
    (hexec : exec k (.store i x b) = some k₁) :
    ∃ k₁', exec k' (.store i x b) = some k₁' ∧ Twin k₁ k₁' := by
  obtain ⟨o, ho, hcall⟩ := Option.bind_eq_some_iff.mp hexec
  obtain ⟨pa, hx, heq⟩ := Option.bind_eq_some_iff.mp hcall
  cases heq
  have ho' : k'.processes i = some o := by rw [h.rest]; exact ho
  have hx' := ((h.process ho).translate (haccounts.process i o ho).wellFormed x).trans hx
  refine ⟨{ k' with memory := writeByte k'.memory pa.toNat b },
    Option.bind_eq_some_iff.mpr ⟨o, ho', Option.bind_eq_some_iff.mpr ⟨pa, hx', rfl⟩⟩, ?_, ?_⟩
  · rw [h.rest]
  · exact fun j o' ho' table htable c hin => writeByte_congr (h.tables j o' ho' table htable c hin)

/-- A call does in the other kernel what it does in this one. -/
theorem Twin.step (h : Twin k k') (haccounts : Accounts usable use history k)
    (hstays : StaysInPages k call) (hexec : exec k call = some k₁) :
    ∃ k₁', exec k' call = some k₁' ∧ Twin k₁ k₁' := by
  cases call with
  | init => exact h.init haccounts hexec
  | loadElf => exact h.loadElf haccounts hstays hexec
  | mmap => exact h.mmap haccounts hexec
  | store => exact h.store haccounts hexec
  | create => exact h.quiet (quiet_create hexec)
  | createFromContiguousPages => exact h.quiet (quiet_createFromContiguousPages hexec)
  | openObject => exact h.quiet (quiet_openObject hexec)
  | growHeap => exact h.quiet (quiet_growHeap hexec)

/-! ## What a call leaves -/

def Kernel.HasTable (k : Kernel) (page : Word) : Prop :=
  ∃ i o, k.processes i = some o ∧ page ∈ o.obtained

/-- What is left of the pages. The memory of a page that is no table can change
if something is written to it, or if `process_load_elf` takes it. -/
structure Leaves (k : Kernel) (call : Call) (k₁ : Kernel) : Prop where
  answers : k₁.answers ⊆ k.answers
  blocks : k₁.blocks ⊆ k.blocks
  tables : ∀ page, k₁.HasTable page → k.HasTable page ∨ page ∈ k.answers ∧ page ≠ 0
  memory : ∀ page, page.toNat % 4096 = 0 → ¬k₁.HasTable page → ¬Writes k page call →
    call.Obtains ∨ some page ∉ k.blocks ∨ some page ∈ k₁.blocks →
    ∀ c, InPage page c → k₁.memory c = k.memory c

theorem Quiet.leaves (h : Quiet k call k₁) : Leaves k call k₁ where
  answers := h.answers ▸ List.Subset.refl _
  blocks := h.blocks.subset
  tables page hpage := by
    obtain ⟨i, o, ho, htable⟩ := hpage
    obtain ⟨o', ho', hobtained⟩ := h.tables i o ho
    exact .inl ⟨i, o', ho', hobtained ▸ htable⟩
  memory _ _ _ _ _ c _ := congrFun h.memory c

/-- A word of one page is in no other table. -/
theorem not_inPage_table {v : Vmap} {c : Nat} (hwf : WellFormed v)
    (haligned : page.toNat % 4096 = 0)
    (hnot : page ∉ v.obtained) (hin : InPage page c) : ∀ table ∈ v.obtained, ¬InPage table c := by
  intro table htable hin'
  rw [inPage_aligned haligned (hwf.page htable).aligned hin hin'] at hnot
  exact hnot htable

theorem keep_leaves (hmoved : Moved (k.process o) p')
    (hold : ∀ table ∈ o.obtained, k.HasTable table)
    (hmemory : ∀ page, page.toNat % 4096 = 0 → page ∉ p'.pageTable.obtained →
      ¬Writes k page call → call.Obtains ∨ some page ∉ k.blocks ∨ some page ∈ p'.blocks →
      ∀ c, InPage page c → p'.pageTable.memory c = k.memory c) :
    Leaves k call (k.keep i o p') where
  answers := hmoved.answers.subset
  blocks := hmoved.blocks.subset
  tables page hpage := by
    obtain ⟨j, o', ho', htable⟩ := hpage
    by_cases hj : j = i
    · subst hj
      cases (Function.update_self ..).symm.trans ho'
      rcases hmoved.source page htable with hbefore | hanswer
      · exact .inl (hold page hbefore)
      · exact .inr ⟨hanswer, (hmoved.wellFormed.page htable).nonzero⟩
    · exact .inl ⟨j, o', (Function.update_of_ne hj ..).symm.trans ho', htable⟩
  memory page haligned hnot := hmemory page haligned fun htable =>
    hnot ⟨i, _, Function.update_self .., htable⟩

/-- A call that loads pages. -/
theorem load_leaves {vs : List Visit} (hloads : Loads vs (k.process o) p')
    (hold : ∀ table ∈ o.obtained, k.HasTable table)
    (hparts : ∀ page, ¬Writes k page call →
      call.Obtains ∨ some page ∉ k.blocks ∨ some page ∈ p'.blocks → ∀ v ∈ vs, v.part.2 ≠ 0 →
      ∀ pa, p'.pageTable.vmapVirtualToPhysical v.virtualAddress = some pa → page ≠ frame pa) :
    Leaves k call (k.keep i o p') := by
  refine keep_leaves hloads.toMoved hold fun page haligned hnot hwrites htaken c hin => ?_
  refine hloads.spares c (not_inPage_table hloads.wellFormed haligned hnot hin) ?_
  intro v hv hpart pa hx hin'
  exact hparts page hwrites htaken v hv hpart pa hx
    (inPage_aligned haligned (frame_aligned pa) hin hin')

theorem init_leaves {fdTable : Bool} {stack : Nat → Bool}
    (haccounts : Accounts usable use history k) (hexec : exec k (.init i fdTable stack) = some k₁) :
    Leaves k (.init i fdTable stack) k₁ := by
  obtain ⟨⟨result, k₁⟩, hcall, rfl⟩ := Option.map_eq_some_iff.mp hexec
  unfold Kernel.processInit at hcall
  split at hcall
  · cases hcall
  rename_i hnone
  have hseparate := haccounts.separate (haccounts.new hnone) fun _ hobject => (nomatch hobject)
  split at hcall
  · cases hcall
    refine load_leaves (allocateStack_loads (l := ⟨k.process .new, []⟩) stack hseparate)
      (fun _ htable => nomatch htable) fun page _ _ v hv hpart => ?_
    -- the stack has no part of a file
    rw [part_of_stackVisits hv] at hpart
    exact absurd rfl hpart
  · cases hcall
    show Leaves k _ (k.keep i .new (k.process .new))
    exact load_leaves (.refl [] hseparate) (fun _ htable => nomatch htable)
      fun _ _ _ _ hv => nomatch hv

theorem loadElf_leaves {kmalloc : Nat → Nat → Bool} {mainThread : Bool} {file : Buffer}
    (haccounts : Accounts usable use history k)
    (hstays : StaysInPages k (.loadElf i kmalloc mainThread file))
    (hexec : exec k (.loadElf i kmalloc mainThread file) = some k₁) :
    Leaves k (.loadElf i kmalloc mainThread file) k₁ := by
  obtain ⟨⟨result, k₁⟩, hcall, rfl⟩ := Option.map_eq_some_iff.mp hexec
  obtain ⟨o, ho, heq⟩ := Option.map_eq_some_iff.mp hcall
  cases heq
  have hseparate := haccounts.separate (haccounts.process i o ho) (reaches_of_process ho)
  have hloads := processLoadElf_loads (l := ⟨k.process o, []⟩) kmalloc mainThread hseparate
    (hstays o ho)
  refine load_leaves hloads (fun table htable => ⟨i, o, ho, htable⟩)
    fun page hwrites htaken v hv hpart pa hx heq => ?_
  subst heq
  -- a page that a part goes to was mapped before, or is taken by this call
  rcases hloads.added _ _ hx with hbefore | ⟨hgiven, hleft⟩
  · exact hwrites ⟨v, hv, hpart, pa, translate_eq_some.mpr ⟨o, ho, hbefore⟩, rfl⟩
  · rcases htaken with hobtains | hnot | hstill
    · exact hobtains
    · exact hnot hgiven
    · exact hleft hstill

theorem mmap_leaves {address length flags : Word} {fd : Int}
    (haccounts : Accounts usable use history k)
    (hexec : exec k (.mmap i address length flags fd) = some k₁) :
    Leaves k (.mmap i address length flags fd) k₁ := by
  obtain ⟨⟨start, k₁⟩, hcall, rfl⟩ := Option.map_eq_some_iff.mp hexec
  obtain ⟨o, ho, hcall⟩ := Option.bind_eq_some_iff.mp hcall
  obtain ⟨⟨start', p'⟩, hmmap, heq⟩ := Option.bind_eq_some_iff.mp hcall
  cases heq
  have hmmapped := processMmap_spec (haccounts.inv ho) hmmap
  obtain ⟨pages, -, hmapped, -⟩ := hmmapped.pages
  refine keep_leaves (Mmapped.moved hmmapped) (fun table htable => ⟨i, o, ho, htable⟩)
    fun page haligned hnot _ _ c hin => ?_
  exact hmapped.recorded.outside hmapped.toKept
    (not_inPage_table hmapped.wellFormed haligned hnot hin)

theorem store_leaves {b : Byte} (haccounts : Accounts usable use history k)
    (hexec : exec k (.store i x b) = some k₁) : Leaves k (.store i x b) k₁ := by
  obtain ⟨o, ho, hcall⟩ := Option.bind_eq_some_iff.mp hexec
  obtain ⟨pa, hx, heq⟩ := Option.bind_eq_some_iff.mp hcall
  cases heq
  refine ⟨List.Subset.refl _, List.Subset.refl _, fun _ hpage => .inl hpage, ?_⟩
  intro page haligned _ hwrites _ c hin
  refine writeByte_of_ne ?_
  rintro rfl
  rw [inPage_wordAddress haligned] at hin
  have hx := translate_eq_some.mpr ⟨o, ho, hx⟩
  exact hwrites ⟨pa, hx,
    (inPage_aligned haligned (frame_aligned pa) hin (haccounts.inPage hx)).symm⟩

theorem Accounts.leaves (haccounts : Accounts usable use history k) (hstays : StaysInPages k call)
    (hexec : exec k call = some k₁) : Leaves k call k₁ := by
  cases call with
  | init => exact init_leaves haccounts hexec
  | loadElf => exact loadElf_leaves haccounts hstays hexec
  | mmap => exact mmap_leaves haccounts hexec
  | store => exact store_leaves haccounts hexec
  | create => exact (quiet_create hexec).leaves
  | createFromContiguousPages => exact (quiet_createFromContiguousPages hexec).leaves
  | openObject => exact (quiet_openObject hexec).leaves
  | growHeap => exact (quiet_growHeap hexec).leaves

end

/-! ## Runs -/

/-- A page of the blocks at the beginning that holds what it held then, and is
no table and will be none. -/
structure Untouched (k₀ k : Kernel) (page : Word) : Prop where
  block : some page ∈ k₀.blocks
  aligned : page.toNat % 4096 = 0
  table : ¬k.HasTable page
  answer : page ∈ k.answers → page = 0
  memory : ∀ c, InPage page c → k.memory c = k₀.memory c

/-- The pages that are free, and those that are fresh. -/
structure Clean (k₀ : Kernel) (history : List (Kernel × Call)) (k : Kernel) : Prop where
  free : ∀ page, some page ∈ k.blocks → Untouched k₀ k page
  fresh : ∀ page, Fresh page history → Untouched k₀ k page ∧ some page ∉ k.blocks

section
variable {usable : Word → Prop} {use : Word → Option Use} {history : List (Kernel × Call)}
  {k₀ k₀' k k' k₁ k₁' : Kernel} {call : Call} {i : ProcessId} {x page pa : Word}

theorem Untouched.leaves (h : Untouched k₀ k page) (hleaves : Leaves k call k₁)
    (hwrites : ¬Writes k page call)
    (htaken : call.Obtains ∨ some page ∉ k.blocks ∨ some page ∈ k₁.blocks) :
    Untouched k₀ k₁ page := by
  have htable : ¬k₁.HasTable page := by
    intro hpage
    rcases hleaves.tables page hpage with hbefore | ⟨hanswer, hne⟩
    · exact h.table hbefore
    · exact hne (h.answer hanswer)
  exact
    { block := h.block
      aligned := h.aligned
      table := htable
      answer := fun hanswer => h.answer (hleaves.answers hanswer)
      memory := fun c hin =>
        (hleaves.memory page h.aligned htable hwrites htaken c hin).trans (h.memory c hin) }

/-- A page that is free is not mapped. -/
theorem Accounts.not_mapped (h : Accounts usable use history k) (hblock : some page ∈ k.blocks)
    (hx : k.translate i x = some pa) : frame pa ≠ page := by
  obtain ⟨o, ho, hx⟩ := translate_eq_some.mp hx
  obtain ⟨-, -, hnone⟩ := h.block hblock
  rintro rfl
  rcases h.used (h.process i o ho) (reaches_of_process ho) hx with hused | hused
  · cases hnone.symm.trans hused
  · cases hnone.symm.trans hused

theorem Accounts.not_written (h : Accounts usable use history k) (hblock : some page ∈ k.blocks) :
    ¬Writes k page call := by
  intro hwrites
  cases call with
  | store i x b =>
    obtain ⟨pa, hx, hframe⟩ := hwrites
    exact h.not_mapped hblock hx hframe
  | loadElf i kmalloc mainThread file =>
    obtain ⟨v, -, -, pa, hx, hframe⟩ := hwrites
    exact h.not_mapped hblock hx hframe
  | _ => exact hwrites

theorem Initial.clean (h : Initial usable k₀) : Clean k₀ [] k₀ where
  free page hblock := by
    obtain ⟨use, haccounts⟩ := h.accounts
    refine ⟨hblock, (haccounts.block hblock).1, ?_, fun hanswer => ?_, fun _ _ => rfl⟩
    · rintro ⟨i, o, ho, -⟩
      cases (h.processes i).symm.trans ho
    · by_contra hne
      exact haccounts.not_block hanswer hne hblock
  fresh _ hfresh := nomatch hfresh

theorem Clean.step (h : Clean k₀ history k) (haccounts : Accounts usable use history k)
    (hstays : StaysInPages k call) (hexec : exec k call = some k₁) :
    Clean k₀ ((k, call) :: history) k₁ := by
  have hleaves := haccounts.leaves hstays hexec
  refine ⟨fun page hblock => ?_, fun page hfresh => ?_⟩
  · -- a page that is still free was free before, so it is mapped nowhere
    have hbefore := hleaves.blocks hblock
    exact (h.free page hbefore).leaves hleaves (haccounts.not_written hbefore) (.inr (.inr hblock))
  · cases hfresh with
    | obtained hobtains hexec' hblock hleft =>
      cases hexec.symm.trans hexec'
      exact ⟨(h.free page hblock).leaves hleaves (haccounts.not_written hblock) (.inl hobtains),
        hleft⟩
    | kept hfresh hwrites =>
      obtain ⟨huntouched, hblock⟩ := h.fresh page hfresh
      exact ⟨huntouched.leaves hleaves hwrites (.inr (.inl hblock)),
        fun hmem => hblock (hleaves.blocks hmem)⟩

theorem run_clean (hinit : Initial usable k₀) (hrun : Run (· = k₀) (Step usable) history k)
    (hstays : ∀ q ∈ history, StaysInPages q.1 q.2) :
    Clean k₀ history k ∧ ∃ use, Accounts usable use history k := by
  induction hrun with
  | start hstart =>
    cases hstart
    exact ⟨hinit.clean, hinit.accounts⟩
  | next _ hstep ih =>
    obtain ⟨hstays, hrest⟩ := List.forall_mem_cons.mp hstays
    obtain ⟨hclean, use, haccounts⟩ := ih hrest
    exact ⟨hclean.step haccounts hstays hstep.1, haccounts.next hstays hstep⟩

/-! ### The other run -/

theorem Twin.staysInPages (h : Twin k k') (haccounts : Accounts usable use history k)
    (hstays : StaysInPages k call) : StaysInPages k' call := by
  cases call with
  | loadElf i kmalloc mainThread file =>
    intro o ho
    have ho : k.processes i = some o := by rw [h.rest] at ho; exact ho
    obtain ⟨hagain, hlater⟩ := hstays o ho
    refine ⟨fun v hv hmapped => hagain v hv ?_, hlater⟩
    rwa [(h.process ho).translate (haccounts.process i o ho).wellFormed] at hmapped
  | _ => exact trivial

theorem Twin.writes (h : Twin k k') (haccounts : Accounts usable use history k)
    (hwrites : Writes k' page call) : Writes k page call := by
  have htranslate := h.translate haccounts
  cases call with
  | store i x b =>
    obtain ⟨pa, hx, hframe⟩ := hwrites
    exact ⟨pa, (htranslate i x).symm.trans hx, hframe⟩
  | loadElf i kmalloc mainThread file =>
    obtain ⟨v, hv, hpart, pa, hx, hframe⟩ := hwrites
    exact ⟨v, hv, hpart, pa, (htranslate i _).symm.trans hx, hframe⟩
  | _ => exact hwrites

theorem Twin.blocks (h : Twin k k') : k'.blocks = k.blocks := by rw [h.rest]

/-- The same calls can be made, and the same pages are fresh. -/
theorem run_twin (hinit : Initial usable k₀) (hrest : k₀' = { k₀ with memory := k₀'.memory })
    (hrun : Run (· = k₀) (Step usable) history k) (hstays : ∀ q ∈ history, StaysInPages q.1 q.2) :
    ∃ history' k', Run (· = k₀') (Step usable) history' k' ∧
      history'.map Prod.snd = history.map Prod.snd ∧ (∀ q ∈ history', StaysInPages q.1 q.2) ∧
      Twin k k' ∧ ∀ page, Fresh page history → Fresh page history' := by
  induction hrun with
  | start hstart =>
    cases hstart
    refine ⟨[], k₀', .start rfl, rfl, by simp, ⟨hrest, fun i o ho => ?_⟩, fun _ hfresh =>
      nomatch hfresh⟩
    cases (hinit.processes i).symm.trans ho
  | @next history k call k₁ hrun hstep ih =>
    obtain ⟨hstaysHere, hstaysBefore⟩ := List.forall_mem_cons.mp hstays
    obtain ⟨history', k', hrun', hcalls, hstays', htwin, hfresh⟩ := ih hstaysBefore
    obtain ⟨-, use, haccounts⟩ := run_clean hinit hrun hstaysBefore
    obtain ⟨k₁', hexec', htwin₁⟩ := htwin.step haccounts hstaysHere hstep.1
    refine ⟨(k', call) :: history', k₁', .next hrun' ⟨hexec', hstep.2⟩, congrArg (call :: ·) hcalls,
      List.forall_mem_cons.mpr ⟨htwin.staysInPages haccounts hstaysHere, hstays'⟩, htwin₁, ?_⟩
    intro page hpage
    cases hpage with
    | obtained hobtains hexec hblock hleft =>
      cases hstep.1.symm.trans hexec
      exact .obtained hobtains hexec' (htwin.blocks ▸ hblock) (htwin₁.blocks ▸ hleft)
    | kept hbefore hwrites =>
      exact .kept (hfresh page hbefore) fun hwrites' => hwrites (htwin.writes haccounts hwrites')

/-! ### What is read -/

/-- In a page that is untouched, a process reads what the page held. -/
theorem Untouched.readByte (h : Untouched k₀ k (frame pa))
    (haccounts : Accounts usable use history k)
    (hx : k.translate i x = some pa) :
    k.readByte i x = some (Bytes.readByte k₀.memory pa.toNat) := by
  have hword := h.memory _ ((inPage_wordAddress h.aligned).mpr (haccounts.inPage hx))
  unfold Kernel.readByte Bytes.readByte
  rw [hx]
  exact congrArg (fun word => some (byteOf word (pa.toNat % 8))) hword

theorem step_unique (k : Kernel) (call : Call) (k₁ k₁' : Kernel) (h : Step usable k call k₁)
    (h' : Step usable k call k₁') : k₁' = k₁ :=
  Option.some.inj (h'.1.symm.trans h.1)

/-- Two runs read the same in a fresh page if it held the same. -/
theorem reads_eq_iff {history' : List (Kernel × Call)} (hinit : Initial usable k₀)
    (hrun : Run (· = k₀) (Step usable) history k) (hstays : ∀ q ∈ history, StaysInPages q.1 q.2)
    (hdiffers : DiffersInFree k₀ k₀') (hrun' : Run (· = k₀') (Step usable) history' k')
    (hcalls : history'.map Prod.snd = history.map Prod.snd) (hx : k.translate i x = some pa)
    (hfresh : Fresh (frame pa) history) :
    k'.readByte i x = k.readByte i x ↔
      Bytes.readByte k₀'.memory pa.toNat = Bytes.readByte k₀.memory pa.toNat := by
  obtain ⟨hclean, use, haccounts⟩ := run_clean hinit hrun hstays
  obtain ⟨history'', k'', hrun'', hcalls'', hstays', htwin, hfresh'⟩ :=
    run_twin hinit hdiffers.rest hrun hstays
  -- the calls decide the second run
  obtain ⟨rfl, rfl⟩ := hrun'.unique step_unique hrun'' (hcalls''.trans hcalls.symm)
  have hinit' : Initial usable k₀' := by
    rw [hdiffers.rest]
    exact ⟨hinit.processes, hinit.pathTable, hinit.page, hinit.usable, hinit.once⟩
  obtain ⟨hclean', use', haccounts'⟩ := run_clean hinit' hrun'' hstays'
  have hx' := (htwin.translate haccounts i x).trans hx
  rw [(hclean.fresh _ hfresh).1.readByte haccounts hx,
    (hclean'.fresh _ (hfresh' _ hfresh)).1.readByte haccounts' hx', Option.some_inj]

/-- A kernel that has another byte in a page that is free. -/
theorem differs_of_block (pa : Word) {b : Byte} (hblock : some (frame pa) ∈ k₀.blocks)
    (hin : InPage (frame pa) pa.toNat) :
    DiffersInFree k₀ { k₀ with memory := writeByte k₀.memory pa.toNat b } where
  rest := rfl
  memory c hout := by
    refine writeByte_of_ne ?_
    rintro rfl
    exact hout (frame pa) (mem_free.mpr (.inr (.inl hblock)))
      ((inPage_wordAddress (frame_aligned pa)).mpr hin)

end

/-- A new process. -/
def stackCall : Call := .init 0 true fun _ => true

/-- It maps a page of its own. -/
def regionCall : Call := .mmap 0 0 4096 mapRead (-1)

/-- `bootKernel`, with something left in the page 0x20000. -/
def usedKernel : Kernel :=
  { bootKernel with memory := writeByte bootKernel.memory 0x20000 1 }

/-- The page is taken for the region, and the process reads a byte there. -/
def readsRegion (k₀ : Kernel) (b : Byte) : Bool :=
  ((exec k₀ stackCall).bind fun k₁ => (exec k₁ regionCall).map fun k =>
    decide (some 0x20000 ∈ k₁.blocks ∧ some 0x20000 ∉ k.blocks ∧
      k.translate 0 heapVirtualBase = some 0x20000 ∧
      k.readByte 0 heapVirtualBase = some b)) = some true

theorem region_run (k₀ : Kernel) (b : Byte) (h : readsRegion k₀ b = true) :
    ∃ history k, Run (· = k₀) (Step Low) history k ∧ (∀ q ∈ history, StaysInPages q.1 q.2) ∧
      history.map Prod.snd = [regionCall, stackCall] ∧ FreshAt history k 0 heapVirtualBase ∧
      k.readByte 0 heapVirtualBase = some b := by
  obtain ⟨k₁, hstack, h⟩ := Option.bind_eq_some_iff.mp (of_decide_eq_true h)
  obtain ⟨k, hregion, h⟩ := Option.map_eq_some_iff.mp h
  obtain ⟨hblock, hleft, hx, hread⟩ := of_decide_eq_true h
  have hframe : frame 0x20000 = 0x20000 := by decide
  refine ⟨[(k₁, regionCall), (k₀, stackCall)], k,
    .next (.next (.start rfl) ⟨hstack, trivial⟩) ⟨hregion, trivial⟩, ?_, rfl,
    ⟨0x20000, hx, hframe ▸ .obtained trivial hregion hblock hleft⟩, hread⟩
  intro q hq
  rcases List.mem_cons.mp hq with rfl | hq
  · exact trivial
  · cases List.mem_singleton.mp hq
    exact trivial

theorem usedKernel_differs : DiffersInFree bootKernel usedKernel :=
  differs_of_block 0x20000 (by decide +kernel) (by decide)

end ZOs.Processes
