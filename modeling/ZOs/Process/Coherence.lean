import ZOs.Process.FreshMemory
import ZOs.Process.OnceMapped

/-!
# Memory that processes share

A page of a process shows memory of its own, or a page of an object, and places
that show the same page of an object are one memory: what one process stores
there every other one reads, until something is put there again through any of
them (`memory_coherent`). Nothing else that any process or the kernel does
changes what is read.
-/

namespace ZOs.Processes

open Paging ProcessMemory Bytes Elf Attempt Runs

/-! ## What pages show -/

/-- What is behind a page of a process: memory that it has there for itself, or
a page that can be shared. -/
inductive Backing
  | own (i : ProcessId) (number : Nat)
  | shared (page : Word)

/-- Page `number` of the process shows this. -/
def Shows (history : List (Kernel × Call)) (i : ProcessId) (number : Nat) : Backing → Prop
  | .own j m => j = i ∧ m = number ∧ ∀ object n, ¬SharedAt i number object n history
  | .shared f => ∃ object n page, SharedAt i number object n history ∧
      object.pages[n]? = some page ∧ frame page = f

/-- The call can put something at this place of what the pages show: a store
there, a part of a file, or a new page instead. -/
def Disturbs (history : List (Kernel × Call)) (k : Kernel) (c : Backing) (offset : Word) :
    Call → Prop
  | .store i x _ => pageOffset x = offset ∧ Shows history i (pageNumber x) c
  | .loadElf i kmalloc _ file => ∃ v ∈ reachedVisits kmalloc file, v.part.2 ≠ 0 ∧
      Shows history i (pageNumber v.virtualAddress) c
  | .mmap i address length flags fd => ∃ j m, c = .own j m ∧
      Maps k j m (.mmap i address length flags fd)
  | _ => False

/-- The byte was stored or seen there last, through any place that showed it. -/
inductive Holds (c : Backing) (offset : Word) (b : Byte) : List (Kernel × Call) → Prop
  | stored {history k i x} : Shows history i (pageNumber x) c → pageOffset x = offset →
      Holds c offset b ((k, .store i x b) :: history)
  | seen {history k i x call} : Shows history i (pageNumber x) c → pageOffset x = offset →
      k.readByte i x = some b → ¬Disturbs history k c offset call →
      Holds c offset b ((k, call) :: history)
  | kept {history k call} : Holds c offset b history → ¬Disturbs history k c offset call →
      Holds c offset b ((k, call) :: history)

/-- Places that show the same are the same memory, and show what was stored
there last. -/
structure Coherent (history : List (Kernel × Call)) (k : Kernel) : Prop where
  reads : ∀ i x c b, Shows history i (pageNumber x) c → Holds c (pageOffset x) b history →
    k.readByte i x = some b
  same : ∀ i j x y pa pb, k.translate i x = some pa → k.translate j y = some pb →
    (pa = pb ↔ pageOffset x = pageOffset y ∧
      ∃ c, Shows history i (pageNumber x) c ∧ Shows history j (pageNumber y) c)

/-! ## Places -/

section
variable {usable : Word → Prop} {use use' : Word → Option Use} {history : List (Kernel × Call)}
  {k k' : Kernel} {call : Call} {i j : ProcessId} {o o' : Owned} {p' : Process}
  {x y page pa pb offset : Word} {c c' : Backing} {b : Byte} {number n : Nat}
  {object : SharedMemory}

/-- The addresses of a page are translated into one page. -/
theorem Accounts.translate_page (h : Accounts usable use history k)
    (hx : k.translate i x = some pa) (hnumber : pageNumber y = pageNumber x) :
    k.translate i y = some (frame pa + pageOffset y) := by
  obtain ⟨o, ho, hx⟩ := translate_eq_some.mp hx
  obtain ⟨e, hwalk, hentry⟩ := pageEntry_of_translate ((h.process i o ho).pagesOnly x) hx
  refine translate_eq_some.mpr ⟨o, ho, ?_⟩
  have hpa : frame e + pageOffset x = pa := by
    rw [← frame_or]
    exact hentry
  rw [vmapVirtualToPhysical_eq, path_eq_iff.mpr hnumber, hwalk, ← hpa, frame_add, ← frame_or]
  rfl

theorem Accounts.translate_toNat (h : Accounts usable use history k)
    (hx : k.translate i x = some pa) :
    pa = frame pa + pageOffset x ∧ pa.toNat = (frame pa).toNat + (pageOffset x).toNat := by
  obtain ⟨o, ho, hx'⟩ := translate_eq_some.mp hx
  exact ⟨Option.some.inj (hx.symm.trans (h.translate_page hx rfl)),
    (translate_frame (h.process i o ho).pagesOnly hx').1⟩

/-! ## What a call keeps -/

/-- The pages that a process has for itself are mapped once. -/
def MappedOnce (history : List (Kernel × Call)) (k : Kernel) : Prop :=
  ∀ i o, k.processes i = some o → OnceMapped (TakenFor history i) (k.process o)

/-- What a call leaves of the processes: their descriptors, and the pages that it
does not map. -/
structure Carries (history : List (Kernel × Call)) (k : Kernel) (call : Call) (k' : Kernel) :
    Prop where
  handles : ∀ i o, k.processes i = some o →
    ∃ o', k'.processes i = some o' ∧ o.fdTable.handles ⊆ o'.fdTable.handles
  translate : ∀ i x pa, k.translate i x = some pa → ¬Maps k i (pageNumber x) call →
    k'.translate i x = some pa
  once : MappedOnce history k → MappedOnce ((k, call) :: history) k'

/-- A call that takes nothing, and leaves the tables. -/
theorem carries_of_same (haccounts : Accounts usable use history k)
    (hexec : exec k call = some k') (htaker : call.taker = none) (hblocks : k'.blocks ⊆ k.blocks)
    (hprocess : ∀ i o', k'.processes i = some o' → ∃ o, k.processes i = some o ∧
      SameTables (k.process o).pageTable (k'.process o').pageTable)
    (hhandles : ∀ i o, k.processes i = some o →
      ∃ o', k'.processes i = some o' ∧ o.fdTable.handles ⊆ o'.fdTable.handles) :
    Carries history k call k' where
  handles := hhandles
  translate i x pa hx _ := by
    obtain ⟨o, ho, hx⟩ := translate_eq_some.mp hx
    obtain ⟨o', ho', -⟩ := hhandles i o ho
    obtain ⟨o₁, ho₁, htables⟩ := hprocess i o' ho'
    cases ho.symm.trans ho₁
    exact translate_eq_some.mpr ⟨o', ho',
      (htables.translate (haccounts.process i o ho).wellFormed x).trans hx⟩
  once h i o' ho' := by
    obtain ⟨o, ho, htables⟩ := hprocess i o' ho'
    have hwf := (haccounts.process i o ho).wellFormed
    have hsame : OnceMapped (TakenFor history i) (k'.process o') :=
      (h i o ho).same (fun x pa hx => (htables.translate hwf x).symm.trans hx) hblocks
    refine hsame.mono fun x pa _ htaken => ?_
    rcases (takenFor_cons hexec).mp htaken with htaken | ⟨htaker', -⟩
    · exact htaken
    · cases htaker.symm.trans htaker'

/-- The tables of another process are as they were. -/
theorem keep_sameTables (haccounts : Accounts usable use history k)
    (haccounts' : Accounts usable use' ((k, call) :: history) (k.keep i o p'))
    (hmoved : Moved (k.process o) p') (hj : j ≠ i) (ho' : k.processes j = some o') :
    SameTables (k.process o').pageTable ((k.keep i o p').process o').pageTable := by
  have hkept : (k.keep i o p').processes j = some o' := (Function.update_of_ne hj ..).trans ho'
  have hi : (k.keep i o p').processes i = some _ := Function.update_self ..
  have hprocess := haccounts'.process i _ hi
  refine ⟨rfl, rfl, fun table htable c hin => ?_⟩
  have htable' := (haccounts'.process j o' hkept).tables table htable
  have haligned := ((haccounts.process j o' ho').wellFormed.page htable).aligned
  refine hmoved.memory c (fun page hpage hin' => ?_) fun x pa hx hin' => ?_
  · have heq := inPage_aligned haligned (hmoved.wellFormed.page hpage).aligned hin hin'
    have hpage' := hprocess.tables page hpage
    rw [← heq, htable'] at hpage'
    cases hpage'
    exact hj rfl
  · have heq := inPage_aligned haligned (frame_aligned pa) hin hin'
    rw [heq] at htable'
    rcases haccounts'.used hprocess (reaches_of_process hi) hx with hused | hused
    · cases htable'.symm.trans hused
    · cases htable'.symm.trans hused

/-- A call on a process. -/
theorem carries_of_keep (haccounts : Accounts usable use history k)
    (haccounts' : Accounts usable use' ((k, call) :: history) (k.keep i o p'))
    (hexec : exec k call = some (k.keep i o p')) (htaker : call.taker = some i)
    (hmoved : Moved (k.process o) p') (hprocess : ∀ o', k.processes i = some o' → o' = o)
    (hkept : ∀ x pa, (k.process o).pageTable.vmapVirtualToPhysical x = some pa →
      ¬Maps k i (pageNumber x) call → p'.pageTable.vmapVirtualToPhysical x = some pa)
    (honce : MappedOnce history k → OnceMapped (TakenFor ((k, call) :: history) i) p') :
    Carries history k call (k.keep i o p') where
  handles j o' ho' := by
    by_cases hj : j = i
    · subst hj
      exact ⟨_, Function.update_self .., hprocess o' ho' ▸ List.Subset.refl _⟩
    · exact ⟨o', (Function.update_of_ne hj ..).trans ho', List.Subset.refl _⟩
  translate j x pa hx hmaps := by
    obtain ⟨o', ho', hx⟩ := translate_eq_some.mp hx
    by_cases hj : j = i
    · subst hj
      cases hprocess o' ho'
      exact translate_eq_some.mpr ⟨_, Function.update_self .., hkept x pa hx hmaps⟩
    · have htables := keep_sameTables haccounts haccounts' hmoved hj ho'
      exact translate_eq_some.mpr ⟨o', (Function.update_of_ne hj ..).trans ho',
        (htables.translate (haccounts.process j o' ho').wellFormed x).trans hx⟩
  once h j o' ho' := by
    by_cases hj : j = i
    · subst hj
      cases (Function.update_self ..).symm.trans ho'
      exact (honce h).same (fun _ _ hx => hx) (List.Subset.refl _)
    · have hold : k.processes j = some o' := (Function.update_of_ne hj ..).symm.trans ho'
      have htables := keep_sameTables haccounts haccounts' hmoved hj hold
      have hwf := (haccounts.process j o' hold).wellFormed
      have hsame : OnceMapped (TakenFor history j) ((k.keep i o p').process o') :=
        (h j o' hold).same (fun x pa hx => (htables.translate hwf x).symm.trans hx)
          hmoved.blocks.subset
      refine hsame.mono fun x pa _ htaken => ?_
      rcases (takenFor_cons hexec).mp htaken with htaken | ⟨htaker', -⟩
      · exact htaken
      · cases htaker.symm.trans htaker'
        exact absurd rfl hj

/-- A page that is mapped before a call is not taken by it. -/
theorem once_next (h : OnceMapped (TakenFor history i) (k.process o))
    (hexec : exec k call = some k') :
    OnceMapped (TakenFor ((k, call) :: history) i) (k.process o) := by
  refine h.mono fun x pa hx htaken => ?_
  rcases (takenFor_cons hexec).mp htaken with htaken | ⟨-, hblock, -⟩
  · exact htaken
  · exact absurd hblock (h.block x pa hx)

theorem onceMapped_new (Own : Word → Prop) : OnceMapped Own (k.process .new) :=
  ⟨fun _ _ _ _ hx => (nomatch hx), fun _ _ hx => (nomatch hx)⟩

theorem carries_init {fdTable : Bool} {stack : Nat → Bool}
    (haccounts : Accounts usable use history k) (hexec : exec k (.init i fdTable stack) = some k')
    (haccounts' : Accounts usable use' ((k, .init i fdTable stack) :: history) k') :
    Carries history k (.init i fdTable stack) k' := by
  have hcall' := hexec
  obtain ⟨⟨result, k₁⟩, hcall, rfl⟩ := Option.map_eq_some_iff.mp hcall'
  unfold Kernel.processInit at hcall
  split at hcall
  · cases hcall
  rename_i hnone
  have hseparate := haccounts.separate (haccounts.new hnone) fun _ hobject => (nomatch hobject)
  have hnew (o' : Owned) (ho' : k.processes i = some o') : o' = .new := nomatch hnone.symm.trans ho'
  split at hcall
  · cases hcall
    have hloads := allocateStack_loads (l := ⟨k.process .new, []⟩) stack hseparate
    exact carries_of_keep haccounts haccounts' hexec rfl hloads.toMoved hnew
      (fun x pa hx _ => hloads.kept x pa hx)
      fun _ => allocateStack_once (l := ⟨k.process .new, []⟩) stack (onceMapped_new _) hseparate
  · cases hcall
    have hkeep : ({ k with processes := Function.update k.processes i (some .new) } : Kernel) =
      k.keep i .new (k.process .new) := rfl
    rw [hkeep] at hexec haccounts' ⊢
    exact carries_of_keep haccounts haccounts' hexec rfl (Extends.refl hseparate).toMoved hnew
      (fun x pa hx _ => hx) fun _ => onceMapped_new _

theorem carries_loadElf {kmalloc : Nat → Nat → Bool} {mainThread : Bool} {file : Buffer}
    (haccounts : Accounts usable use history k)
    (hexec : exec k (.loadElf i kmalloc mainThread file) = some k')
    (haccounts' : Accounts usable use' ((k, .loadElf i kmalloc mainThread file) :: history) k')
    (hstays : StaysInPages k (.loadElf i kmalloc mainThread file)) :
    Carries history k (.loadElf i kmalloc mainThread file) k' := by
  have hcall' := hexec
  obtain ⟨⟨result, k₁⟩, hcall, rfl⟩ := Option.map_eq_some_iff.mp hcall'
  obtain ⟨o, ho, heq⟩ := Option.map_eq_some_iff.mp hcall
  cases heq
  have hseparate := haccounts.separate (haccounts.process i o ho) (reaches_of_process ho)
  have hloads := processLoadElf_loads (l := ⟨k.process o, []⟩) kmalloc mainThread hseparate
    (hstays o ho)
  refine carries_of_keep haccounts haccounts' hexec rfl hloads.toMoved
    (fun o' ho' => Option.some.inj (ho'.symm.trans ho)) (fun x pa hx _ => hloads.kept x pa hx) ?_
  exact fun h => processLoadElf_once (l := ⟨k.process o, []⟩) kmalloc mainThread
    (once_next (h i o ho) hexec) hseparate (hstays o ho)

theorem carries_mmap {address length flags : Word} {fd : Int}
    (haccounts : Accounts usable use history k)
    (hexec : exec k (.mmap i address length flags fd) = some k')
    (haccounts' : Accounts usable use' ((k, .mmap i address length flags fd) :: history) k') :
    Carries history k (.mmap i address length flags fd) k' := by
  have hcall' := hexec
  obtain ⟨⟨start, k₁⟩, hcall, rfl⟩ := Option.map_eq_some_iff.mp hcall'
  obtain ⟨o, ho, hcall⟩ := Option.bind_eq_some_iff.mp hcall
  obtain ⟨⟨start', p'⟩, hmmap, heq⟩ := Option.bind_eq_some_iff.mp hcall
  cases heq
  have hinv := haccounts.inv ho
  have hmapped := processMmap_spec hinv hmmap
  refine carries_of_keep haccounts haccounts' hexec rfl (Mmapped.moved hmapped)
    (fun o' ho' => Option.some.inj (ho'.symm.trans ho)) (fun x pa hx hmaps => ?_) fun h => ?_
  · rw [hmapped.outside fun hpage => hmaps ⟨rfl, o, start, ho, hmapped.startAddress, hpage⟩]
    exact hx
  · refine hmapped.once hinv (once_next (h i o ho) hexec) fun object hobject page hpage htaken => ?_
    -- a page of an object is nobody's own
    have hhandle := mem_handles_of_fdTable (Process.sharedMemory_fdTable hobject)
    have hobject' : (k.keep i o p').HasObject object :=
      .inr ⟨i, _, Function.update_self .., hhandle⟩
    cases ((haccounts'.taken i _).mp htaken).symm.trans
      (haccounts'.objects object hobject' page hpage)

theorem carries_store (haccounts : Accounts usable use history k)
    (hexec : exec k (.store i x b) = some k') : Carries history k (.store i x b) k' := by
  obtain ⟨o, ho, hcall⟩ := Option.bind_eq_some_iff.mp hexec
  obtain ⟨pa, hx, heq⟩ := Option.bind_eq_some_iff.mp hcall
  cases heq
  refine carries_of_same haccounts hexec rfl (List.Subset.refl _) (fun j o' ho' => ⟨o', ho', ?_⟩)
    fun j o' ho' => ⟨o', ho', List.Subset.refl _⟩
  refine ⟨rfl, rfl, fun table htable c hin => writeByte_of_ne ?_⟩
  rintro rfl
  have haccounted := haccounts.process j o' ho'
  have haligned := (haccounted.wellFormed.page htable).aligned
  rw [inPage_wordAddress haligned] at hin
  have hused := haccounts.used (haccounts.process i o ho) (reaches_of_process ho) hx
  have htable := haccounted.tables table htable
  have hpa := haccounts.inPage (translate_eq_some.mpr ⟨o, ho, hx⟩)
  rw [inPage_aligned haligned (frame_aligned pa) hin hpa] at htable
  rcases hused with hused | hused <;> cases htable.symm.trans hused

section
variable {path : Path} {start size : Word} {kmalloc : Bool}

/-- The processes and the memory are as they were, but for new descriptors. -/
theorem carries_of_quiet {k₁ : Kernel} (haccounts : Accounts usable use history k)
    (hexec : exec k call = some k') (htaker : call.taker = none) (hblocks : k'.blocks ⊆ k.blocks)
    (hopened : k' = k₁ ∨ ∃ i o object, k.processes i = some o ∧
      k' = (k₁.fdTableOpen i o object).2)
    (hmemory : k₁.memory = k.memory) (hprocesses : k₁.processes = k.processes) :
    Carries history k call k' := by
  have hkept {i : ProcessId} {o' : Owned} (ho' : k'.processes i = some o') :
      ∃ o, k.processes i = some o ∧
        SameTables (k.process o).pageTable (k'.process o').pageTable := by
    rcases hopened with rfl | ⟨j, oj, object, hj, rfl⟩
    · rw [hprocesses] at ho'
      exact ⟨o', ho', rfl, rfl, fun _ _ c _ => congrFun hmemory c⟩
    · obtain ⟨o, ho, htables, -⟩ := fdTableOpen_kept (hprocesses ▸ hj) ho'
      rw [hprocesses] at ho
      exact ⟨o, ho, htables.root, htables.obtained, fun table htable c hin =>
        (htables.memory table htable c hin).trans (congrFun hmemory c)⟩
  refine carries_of_same haccounts hexec htaker hblocks (fun _ _ ho' => hkept ho') fun i o ho => ?_
  rcases hopened with rfl | ⟨j, oj, object, hj, rfl⟩
  · exact ⟨o, hprocesses ▸ ho, List.Subset.refl _⟩
  · by_cases hij : i = j
    · subst hij
      cases ho.symm.trans hj
      exact ⟨_, Function.update_self .., List.subset_append_left _ _⟩
    · exact ⟨o, (Function.update_of_ne hij ..).trans (hprocesses ▸ ho), List.Subset.refl _⟩

theorem carries_create (haccounts : Accounts usable use history k)
    (hexec : exec k (.create path size kmalloc) = some k') :
    Carries history k (.create path size kmalloc) k' := by
  have hcall' := hexec
  obtain ⟨⟨result, k₁⟩, hcall, rfl⟩ := Option.map_eq_some_iff.mp hcall'
  obtain ⟨-, hmemory, -, hblocks, hprocesses⟩ := create_spec hcall
  exact carries_of_quiet haccounts hexec rfl hblocks.subset (.inl rfl) hmemory hprocesses

theorem carries_contiguous (haccounts : Accounts usable use history k)
    (hexec : exec k (.createFromContiguousPages path start size kmalloc) = some k') :
    Carries history k (.createFromContiguousPages path start size kmalloc) k' := by
  have hcall' := hexec
  obtain ⟨⟨result, k₁⟩, hcall, rfl⟩ := Option.map_eq_some_iff.mp hcall'
  unfold Kernel.sharedMemoryCreateFromContiguousPages at hcall
  split at hcall
  · obtain ⟨object, hobject, heq⟩ := Option.bind_eq_some_iff.mp hcall
    cases heq
    exact carries_of_quiet haccounts hexec rfl (List.Subset.refl _) (.inl rfl) rfl rfl
  · cases hcall
    exact carries_of_quiet haccounts hexec rfl (List.Subset.refl _) (.inl rfl) rfl rfl

theorem carries_openObject (haccounts : Accounts usable use history k)
    (hexec : exec k (.openObject i path size kmalloc) = some k') :
    Carries history k (.openObject i path size kmalloc) k' := by
  have hcall' := hexec
  obtain ⟨⟨result, k₁⟩, hcall, rfl⟩ := Option.map_eq_some_iff.mp hcall'
  obtain ⟨o, ho, hopen⟩ := Option.bind_eq_some_iff.mp hcall
  split at hopen
  · cases hopen
    exact carries_of_quiet haccounts hexec rfl (List.Subset.refl _) (.inl rfl) rfl rfl
  · rename_i object hpath
    cases hopen
    exact carries_of_quiet haccounts hexec rfl (List.Subset.refl _)
      (.inr ⟨i, o, object, ho, rfl⟩) rfl rfl
  · obtain ⟨⟨_ | object, k₂⟩, hcreate, hopen⟩ := Option.bind_eq_some_iff.mp hopen
    · cases hopen
    cases hopen
    obtain ⟨-, hmemory, -, hblocks, hprocesses⟩ := create_spec hcreate
    exact carries_of_quiet haccounts hexec rfl hblocks.subset
      (.inr ⟨i, o, object, ho, rfl⟩) hmemory hprocesses

theorem carries_growHeap (haccounts : Accounts usable use history k)
    (hexec : exec k .growHeap = some k') : Carries history k .growHeap k' := by
  have hcall : k.growHeap = some k' := hexec
  unfold Kernel.growHeap at hcall
  split at hcall
  · cases hcall
  cases hcall
  exact carries_of_quiet haccounts hexec rfl (List.Subset.refl _) (.inl rfl) rfl rfl

end

theorem Accounts.carries (haccounts : Accounts usable use history k)
    (hexec : exec k call = some k') (haccounts' : Accounts usable use' ((k, call) :: history) k')
    (hstays : StaysInPages k call) : Carries history k call k' := by
  cases call with
  | init => exact carries_init haccounts hexec haccounts'
  | loadElf => exact carries_loadElf haccounts hexec haccounts' hstays
  | mmap => exact carries_mmap haccounts hexec haccounts'
  | store => exact carries_store haccounts hexec
  | create => exact carries_create haccounts hexec
  | createFromContiguousPages => exact carries_contiguous haccounts hexec
  | openObject => exact carries_openObject haccounts hexec
  | growHeap => exact carries_growHeap haccounts hexec

/-! ## What is held -/

/-- The page is in use for good: it is no table, and will not be given again. -/
structure Settled (k : Kernel) (page : Word) : Prop where
  frame : frame page = page
  table : ¬k.HasTable page
  answer : page ∈ k.answers → page = 0
  block : some page ∉ k.blocks

theorem Accounts.settled (h : Accounts usable use history k)
    (hx : k.translate i x = some pa) : Settled k (frame pa) := by
  obtain ⟨o, ho, hx⟩ := translate_eq_some.mp hx
  have hused := h.used (h.process i o ho) (reaches_of_process ho) hx
  have hnotNone : use (frame pa) ≠ none := by
    rcases hused with hused | hused <;> rw [hused] <;> exact Option.some_ne_none _
  refine ⟨?_, ?_, fun hanswer => ?_, fun hblock => hnotNone (h.block hblock).2.2⟩
  · unfold ProcessMemory.frame
    rw [BitVec.and_assoc, BitVec.and_self]
  · rintro ⟨j, o', ho', htable⟩
    have htable := (h.process j o' ho').tables _ htable
    rcases hused with hused | hused <;> cases htable.symm.trans hused
  · by_contra hne
    exact hnotNone (h.free _ (mem_free.mpr (.inl ⟨hanswer, hne⟩))).2.2

theorem Settled.leaves (h : Settled k page) (hleaves : Leaves k call k') : Settled k' page where
  frame := h.frame
  table htable := by
    rcases hleaves.tables page htable with hold | ⟨hanswer, hne⟩
    · exact h.table hold
    · exact hne (h.answer hanswer)
  answer hanswer := h.answer (hleaves.answers hanswer)
  block hblock := h.block (hleaves.blocks hblock)

/-- The page that is behind a page of a process, or an object. -/
def Backing.At (history : List (Kernel × Call)) (k : Kernel) : Backing → Word → Prop
  | .own i m, page => (∀ object n, ¬SharedAt i m object n history) ∧
      ∃ x, pageNumber x = m ∧ k.translate i x = some (page + pageOffset x)
  | .shared f, page => page = f ∧ ∀ i, ¬TakenFor history i page

/-- The byte is there now. -/
def Backing.Has (history : List (Kernel × Call)) (k : Kernel) (c : Backing) (offset : Word)
    (b : Byte) : Prop :=
  ∃ page, c.At history k page ∧ Settled k page ∧
    Bytes.readByte k.memory (page.toNat + offset.toNat) = b

/-- What a run keeps. -/
structure Coheres (history : List (Kernel × Call)) (k : Kernel) : Prop where
  once : MappedOnce history k
  handles : ∀ i number object n, SharedAt i number object n history →
    ∃ o, k.processes i = some o ∧ some (.sharedMemory object) ∈ o.fdTable.handles
  holds : ∀ c offset b, Holds c offset b history → c.Has history k offset b

/-- A shared page is translated into the page of the object, which is no
process's own. -/
theorem Coheres.sharedAt (h : Coheres history k) (haccounts : Accounts usable use history k)
    (hshared : SharedAt i (pageNumber x) object n history) : ∃ page, object.pages[n]? = some page ∧
      k.translate i x = some (frame page + pageOffset x) ∧
      ∀ j, ¬TakenFor history j (frame page) := by
  obtain ⟨o, ho, hobject⟩ := h.handles i _ object n hshared
  obtain ⟨page, hpage, hx⟩ := (haccounts.process i o ho).shared x object n hshared
  refine ⟨page, hpage, translate_eq_some.mpr ⟨o, ho, hx⟩, fun j htaken => ?_⟩
  cases ((haccounts.taken j _).mp htaken).symm.trans
    (haccounts.objects object (.inr ⟨i, o, ho, hobject⟩) page (List.mem_of_getElem? hpage))

/-- What a page shows is where the page is translated to. -/
theorem Coheres.at_of_shows (h : Coheres history k) (haccounts : Accounts usable use history k)
    (hshows : Shows history i (pageNumber x) c) (hx : k.translate i x = some pa) :
    c.At history k (frame pa) := by
  cases c with
  | own j m =>
    obtain ⟨rfl, rfl, hnot⟩ := hshows
    exact ⟨hnot, x, rfl, haccounts.translate_page hx rfl⟩
  | shared f =>
    obtain ⟨object, n, page, hshared, hpage, rfl⟩ := hshows
    obtain ⟨page', hpage', hx', hnot⟩ := h.sharedAt haccounts hshared
    cases hpage.symm.trans hpage'
    cases hx.symm.trans hx'
    rw [frame_add]
    exact ⟨rfl, hnot⟩

/-- A page that is translated there shows it. -/
theorem Coheres.shows_of_at (h : Coheres history k) (haccounts : Accounts usable use history k)
    (hat : c.At history k (frame pa)) (hx : k.translate i x = some pa) :
    Shows history i (pageNumber x) c := by
  obtain ⟨o, ho, hx'⟩ := translate_eq_some.mp hx
  have hmapped := (haccounts.process i o ho).mapped x pa hx'
  cases c with
  | own j m =>
    obtain ⟨hnot, y, rfl, hy⟩ := hat
    obtain ⟨oj, hoj, hy'⟩ := translate_eq_some.mp hy
    have hownj : use (frame pa) = some (.own j) := by
      rcases (haccounts.process j oj hoj).mapped y _ hy' with hown | ⟨object, n, -, hshared, -⟩
      · rwa [frame_add] at hown
      · exact absurd hshared (hnot object n)
    have hij : i = j := by
      rcases haccounts.used (haccounts.process i o ho) (reaches_of_process ho) hx' with hown | hown
      · cases hown.symm.trans hownj
        rfl
      · cases hown.symm.trans hownj
    subst hij
    cases ho.symm.trans hoj
    have hnumber := (h.once i o ho).place x y pa _ hx' hy' (frame_add pa y).symm
      ((haccounts.taken i _).mpr hownj)
    exact ⟨rfl, hnumber.symm, hnumber ▸ hnot⟩
  | shared f =>
    obtain ⟨rfl, hnot⟩ := hat
    rcases hmapped with hown | ⟨object, n, page, hshared, -, hpage, hframe⟩
    · exact absurd ((haccounts.taken i _).mpr hown) (hnot i)
    · exact ⟨object, n, page, hshared, hpage, hframe.symm⟩

theorem Coheres.translate_of_at (h : Coheres history k) (haccounts : Accounts usable use history k)
    (hat : c.At history k page) (hframe : frame page = page)
    (hshows : Shows history i (pageNumber x) c) :
    k.translate i x = some (page + pageOffset x) := by
  cases c with
  | own j m =>
    obtain ⟨rfl, rfl, -⟩ := hshows
    obtain ⟨-, y, hnumber, hy⟩ := hat
    have hx := haccounts.translate_page hy hnumber.symm
    rwa [← hframe, frame_add, hframe] at hx
  | shared f =>
    obtain ⟨object, n, page', hshared, hpage', rfl⟩ := hshows
    obtain ⟨page'', hpage'', hx, -⟩ := h.sharedAt haccounts hshared
    cases hpage'.symm.trans hpage''
    rw [hat.1]
    exact hx

/-- A place that shows something shows the byte that is there. -/
theorem Coheres.has_iff (h : Coheres history k) (haccounts : Accounts usable use history k)
    (hshows : Shows history i (pageNumber x) c) :
    c.Has history k (pageOffset x) b ↔ k.readByte i x = some b := by
  constructor
  · rintro ⟨page, hat, hsettled, hbyte⟩
    have hx := h.translate_of_at haccounts hat hsettled.frame hshows
    have htoNat := (haccounts.translate_toNat hx).2
    have hframe : frame (page + pageOffset x) = page := by
      rw [← hsettled.frame, frame_add]
    rw [hframe] at htoNat
    unfold Kernel.readByte
    rw [hx, Option.map_some, htoNat, hbyte]
  · intro hread
    obtain ⟨pa, hx, hbyte⟩ := Option.map_eq_some_iff.mp hread
    refine ⟨frame pa, h.at_of_shows haccounts hshows hx, haccounts.settled hx, ?_⟩
    rw [← (haccounts.translate_toNat hx).2]
    exact hbyte

/-- Every page that is mapped shows something. -/
theorem Accounts.shows (haccounts : Accounts usable use history k)
    (hx : k.translate i x = some pa) : ∃ c, Shows history i (pageNumber x) c := by
  obtain ⟨o, ho, hx⟩ := translate_eq_some.mp hx
  by_cases hshared : ∃ object n, SharedAt i (pageNumber x) object n history
  · obtain ⟨object, n, hshared⟩ := hshared
    obtain ⟨page, hpage, -⟩ := (haccounts.process i o ho).shared x object n hshared
    exact ⟨.shared (frame page), object, n, page, hshared, hpage, rfl⟩
  · exact ⟨.own i (pageNumber x), rfl, rfl, fun object n h => hshared ⟨object, n, h⟩⟩

/-! ## Steps -/

/-- Where it is stays where it is, unless a new page is mapped there. -/
theorem Backing.At.step (h : c.At history k page) (hsettled : Settled k page)
    (hcarries : Carries history k call k') (hexec : exec k call = some k')
    (hmaps : ∀ i m, c = .own i m → ¬Maps k i m call) :
    c.At ((k, call) :: history) k' page := by
  cases c with
  | own i m =>
    obtain ⟨hnot, x, rfl, hx⟩ := h
    exact ⟨fun object n hshared => hnot object n (hshared.old (hmaps i _ rfl)), x, rfl,
      hcarries.translate i x _ hx (hmaps i _ rfl)⟩
  | shared f =>
    obtain ⟨rfl, hnot⟩ := h
    refine ⟨rfl, fun i htaken => ?_⟩
    rcases (takenFor_cons hexec).mp htaken with htaken | ⟨-, hblock, -⟩
    · exact hnot i htaken
    · exact hsettled.block hblock

/-- The byte is there after a call that does not disturb it. -/
theorem Coheres.has_step (h : Coheres history k) (haccounts : Accounts usable use history k)
    (hexec : exec k call = some k') (hstays : StaysInPages k call)
    (hcarries : Carries history k call k') (hhas : c.Has history k offset b)
    (hoffset : offset.toNat < 4096)
    (hnot : ¬Disturbs history k c offset call) : c.Has ((k, call) :: history) k' offset b := by
  obtain ⟨page, hat, hsettled, hbyte⟩ := hhas
  have hleaves := haccounts.leaves hstays hexec
  have hmaps (i : ProcessId) (m : Nat) (hc : c = .own i m) : ¬Maps k i m call := by
    intro hmaps
    cases call with
    | mmap => exact hnot ⟨i, m, hc, hmaps⟩
    | _ => exact hmaps
  refine ⟨page, hat.step hsettled hcarries hexec hmaps, hsettled.leaves hleaves, ?_⟩
  have haligned : page.toNat % 4096 = 0 := hsettled.frame ▸ frame_aligned page
  by_cases hwrites : Writes k page call
  · -- something is put into the page, at another place
    cases call with
    | store i x d =>
      obtain ⟨pa, hx, rfl⟩ := hwrites
      have hshows := h.shows_of_at haccounts hat hx
      have hne : pageOffset x ≠ offset := fun heq => hnot ⟨heq, hshows⟩
      obtain ⟨o, ho, hcall⟩ := Option.bind_eq_some_iff.mp hexec
      obtain ⟨pa', hx', heq⟩ := Option.bind_eq_some_iff.mp hcall
      cases heq
      cases hx.symm.trans (translate_eq_some.mpr ⟨o, ho, hx'⟩)
      rw [readByte_writeByte_of_ne]
      · exact hbyte
      · rw [(haccounts.translate_toNat hx).2]
        exact fun heq => hne (BitVec.eq_of_toNat_eq (by omega))
    | loadElf i kmalloc mainThread file =>
      obtain ⟨v, hv, hpart, pa, hx, rfl⟩ := hwrites
      exact absurd ⟨v, hv, hpart, h.shows_of_at haccounts hat hx⟩ hnot
    | _ => exact absurd hwrites not_false
  · have hin : InPage page (wordAddress (page.toNat + offset.toNat)) :=
      (inPage_wordAddress haligned).mpr ⟨by omega, by omega⟩
    have hword := hleaves.memory page haligned
      (fun htable => (hsettled.leaves hleaves).table htable) hwrites (.inr (.inl hsettled.block))
      _ hin
    unfold Bytes.readByte at hbyte ⊢
    rw [hword]
    exact hbyte

theorem Holds.offset_lt (h : Holds c offset b history) : offset.toNat < 4096 := by
  have hlt (x : Word) : (pageOffset x).toNat < 4096 := by
    rw [pageOffset_toNat]
    omega
  induction h with
  | stored _ hoffset => exact hoffset ▸ hlt _
  | seen _ hoffset => exact hoffset ▸ hlt _
  | kept _ _ ih => exact ih

/-- A store puts its byte there. -/
theorem Coheres.stored (h : Coheres history k) (haccounts : Accounts usable use history k)
    (hexec : exec k (.store i x b) = some k') (hshows : Shows history i (pageNumber x) c) :
    c.Has ((k, .store i x b) :: history) k' (pageOffset x) b := by
  have hcarries := carries_store haccounts hexec
  obtain ⟨o, ho, hcall⟩ := Option.bind_eq_some_iff.mp hexec
  obtain ⟨pa, hx, heq⟩ := Option.bind_eq_some_iff.mp hcall
  have hx := translate_eq_some.mpr ⟨o, ho, hx⟩
  have hsettled := haccounts.settled hx
  refine ⟨frame pa, (h.at_of_shows haccounts hshows hx).step hsettled hcarries hexec
    fun _ _ _ hmaps => hmaps, hsettled.leaves (store_leaves haccounts hexec), ?_⟩
  cases heq
  rw [← (haccounts.translate_toNat hx).2]
  exact readByte_writeByte ..

theorem Coheres.step (h : Coheres history k) (haccounts : Accounts usable use history k)
    (hexec : exec k call = some k') (haccounts' : Accounts usable use' ((k, call) :: history) k')
    (hstays : StaysInPages k call) : Coheres ((k, call) :: history) k' := by
  have hcarries := haccounts.carries hexec haccounts' hstays
  refine ⟨hcarries.once h.once, fun i number object n hshared => ?_, fun c offset b hholds => ?_⟩
  · have hbefore : ∃ o, k.processes i = some o ∧
        some (.sharedMemory object) ∈ o.fdTable.handles := by
      cases hshared with
      | here ho _ _ hobject =>
        exact ⟨_, ho, mem_handles_of_fdTable (Process.sharedMemory_fdTable hobject)⟩
      | there hshared _ => exact h.handles i number object n hshared
    obtain ⟨o, ho, hobject⟩ := hbefore
    obtain ⟨o', ho', hhandles⟩ := hcarries.handles i o ho
    exact ⟨o', ho', hhandles hobject⟩
  · have hlt := hholds.offset_lt
    cases hholds with
    | stored hshows hoffset => exact hoffset ▸ h.stored haccounts hexec hshows
    | seen hshows hoffset hread hnot =>
      subst hoffset
      exact h.has_step haccounts hexec hstays hcarries ((h.has_iff haccounts hshows).mpr hread)
        hlt hnot
    | kept hholds hnot =>
      exact h.has_step haccounts hexec hstays hcarries (h.holds c offset b hholds) hlt hnot

theorem Initial.coheres (h : Initial usable k) : Coheres [] k where
  once i _ ho := nomatch (h.processes i).symm.trans ho
  handles _ _ _ _ hshared := nomatch hshared
  holds _ _ _ hholds := nomatch hholds

theorem run_coheres (hrun : Run (Initial usable) (Step usable) history k)
    (hstays : ∀ q ∈ history, StaysInPages q.1 q.2) :
    Coheres history k ∧ ∃ use, Accounts usable use history k := by
  induction hrun with
  | start hinit => exact ⟨hinit.coheres, hinit.accounts⟩
  | next _ hstep ih =>
    obtain ⟨hstays, hrest⟩ := List.forall_mem_cons.mp hstays
    obtain ⟨h, use, haccounts⟩ := ih hrest
    obtain ⟨use', haccounts'⟩ := haccounts.next hstays hstep
    exact ⟨h.step haccounts hstep.1 haccounts' hstays, use', haccounts'⟩

/-- Places with one address are at one place of what both show. -/
theorem Coheres.same_iff (h : Coheres history k) (haccounts : Accounts usable use history k)
    (hx : k.translate i x = some pa) (hy : k.translate j y = some pb) :
    pa = pb ↔ pageOffset x = pageOffset y ∧
      ∃ c, Shows history i (pageNumber x) c ∧ Shows history j (pageNumber y) c := by
  obtain ⟨hpa, hpaNat⟩ := haccounts.translate_toNat hx
  obtain ⟨hpb, hpbNat⟩ := haccounts.translate_toNat hy
  constructor
  · rintro rfl
    refine ⟨BitVec.eq_of_toNat_eq (by omega), ?_⟩
    obtain ⟨c, hshows⟩ := haccounts.shows hx
    exact ⟨c, hshows, h.shows_of_at haccounts (h.at_of_shows haccounts hshows hx) hy⟩
  · rintro ⟨hoffset, c, hshows, hshows'⟩
    have hat := h.at_of_shows haccounts hshows hx
    have hy' := h.translate_of_at haccounts hat (haccounts.settled hx).frame hshows'
    rw [← hoffset, ← hpa, hy] at hy'
    exact (Option.some.inj hy').symm

end

/-- In every run that loads only files whose parts stay in their pages, places are
the same memory exactly when they show the same, and show what was stored or
seen there last. -/
theorem memory_coherent (usable : Word → Prop) (history : List (Kernel × Call)) (k : Kernel)
    (hrun : Run (Initial usable) (Step usable) history k)
    (hstays : ∀ q ∈ history, StaysInPages q.1 q.2) : Coherent history k := by
  obtain ⟨h, use, haccounts⟩ := run_coheres hrun hstays
  exact
    { reads := fun i x c b hshows hholds =>
        (h.has_iff haccounts hshows).mp (h.holds c _ b hholds)
      same := fun i j x y pa pb hx hy => h.same_iff haccounts hx hy }

/-- Process 1 stores into the shared page, and process 0 reads it. -/
theorem sharing_coherent : ∃ history k, Run (Initial Low) (Step Low) history k ∧
    Coherent history k ∧ k.readByte 0 0x400000001000 = some 1 ∧
    k.readByte 1 heapVirtualBase = some 1 := by
  obtain ⟨history, k, hrun, hread⟩ := Run.of_check (execStays_step Low) bootKernel_initial
    sharingCalls
    (fun k => decide (k.readByte 0 0x400000001000 = some 1 ∧
      k.readByte 1 heapVirtualBase = some 1)) (by decide +kernel)
  obtain ⟨hrun, hstays⟩ := hrun.split
  exact ⟨history, k, hrun, memory_coherent Low history k hrun hstays, of_decide_eq_true hread⟩

end ZOs.Processes
