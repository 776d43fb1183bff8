import ZOs.Loader.KernelFaithful
import ZOs.Process.Visits

/-!
# The space of a process

Loading without tables: the pages of a process are in blocks, a page that is
visited first gets the next block, and parts of the file are put where the
page is. `Refines.of_visit` and `Refines.visit_returns` connect it to
`allocate_memory_pages`, as long as no part is put over a table.
-/

namespace ZOs.ProcessMemory

open Paging Attempt Bytes Elf
open Boot (IsTable Recorded.isTable translate_of_walk inPage_word)

/-! ## Spaces -/

/-- Where a page is, and the flags that it has been mapped with. -/
structure Placement where
  page : Word
  pageFlags : Word

/-- The pages of a process by their numbers, the blocks that are left, and
the bytes of physical memory. -/
structure Space where
  place : Nat → Option Placement
  blocks : List (Option Word)
  bytes : Nat → Byte

/-- A part of a file is put at an address. -/
def Space.put (s : Space) (file : Buffer) (address : Nat) (part : Read) : Space :=
  { s with
    bytes := fun c =>
      if address ≤ c ∧ c < address + part.2 then file.bytes (part.1.toNat + (c - address))
      else s.bytes c }

/-- The address that a visit goes to: that of the page, or the start of a new
one. -/
inductive Space.Finds (s : Space) (v : Visit) : Word → Space → Prop
  | again {placement} : s.place v.number = some placement →
      s.Finds v (placement.page + pageOffset v.virtualAddress) s
  | first {page blocks} : s.place v.number = none → s.blocks = some page :: blocks →
      s.Finds v page
        { s with place := Function.update s.place v.number (some ⟨page, v.pageFlags⟩), blocks }

/-- A visit. -/
def Space.Visits (file : Buffer) (s : Space) (v : Visit) (s' : Space) : Prop :=
  ∃ address s₁, s.Finds v address s₁ ∧ address.toNat < mmapPhysicalRegionSize ∧
    s' = s₁.put file address.toNat v.part

/-- One visit after the other. -/
inductive Space.VisitsAll (file : Buffer) : Space → List Visit → Space → Prop
  | nil {s} : VisitsAll file s [] s
  | cons {s s₁ s' v vs} : s.Visits file v s₁ → VisitsAll file s₁ vs s' →
      VisitsAll file s (v :: vs) s'

/-! ## Refinement -/

/-- No byte from an address on is in a table. -/
def Apart (Table : Word → Prop) (address n : Nat) : Prop :=
  ∀ page, Table page → ∀ c, address ≤ c → c < address + n → ¬InPage page c

/-- The tables of the process say where its pages are; memory outside of the
pages that are or can become tables is that of the space. -/
structure Refines (Table : Word → Prop) (p : Process) (s : Space) : Prop where
  wellFormed : WellFormed p.pageTable
  pagesOnly : PagesOnly p.pageTable
  pageAddress : ∀ page, Table page → PageAddress page
  tables : ∀ page, IsTable p.pageTable page → Table page
  walk : ∀ x, p.pageTable.walk (path x) =
    (s.place (pageNumber x)).elim .fault fun placement =>
      .leaf 3 (pageEntry placement.page placement.pageFlags)
  attributes : ∀ number placement, s.place number = some placement →
    frame placement.page = placement.page ∧ AttributeFlags placement.pageFlags
  blocks : p.blocks = s.blocks
  aligned : ∀ page, some page ∈ s.blocks → frame page = page
  bytes : ∀ c, (∀ page, Table page → ¬InPage page c) →
    readByte p.pageTable.memory c = s.bytes c

section
variable {Table : Word → Prop} {p p' : Process} {s s' s₁ : Space} {file : Buffer} {v : Visit}
  {vs : List Visit} {x address page : Word} {n : Nat}

theorem Refines.translate (h : Refines Table p s) (x : Word) :
    p.pageTable.vmapVirtualToPhysical x =
      (s.place (pageNumber x)).map fun placement => placement.page + pageOffset x := by
  cases hplace : s.place (pageNumber x) with
  | none =>
    rw [vmapVirtualToPhysical_eq, h.walk, hplace]
    rfl
  | some placement =>
    obtain ⟨hframe, hflags⟩ := h.attributes _ _ hplace
    have hwalk := h.walk x
    rw [hplace] at hwalk
    rw [translate_of_walk hflags hwalk, hframe]
    rfl

/-- The page of a visit is found, or taken. -/
theorem Refines.find (h : Refines Table p s) (hflags : AttributeFlags v.pageFlags)
    (hcall : findPage v.virtualAddress v.pageFlags p = (some address, p')) :
    ∃ s', s.Finds v address s' ∧ Refines Table p' s' := by
  cases findPage_returned h.wellFormed h.pagesOnly hcall with
  | existing hexisting =>
    rw [h.translate] at hexisting
    obtain ⟨placement, hplace, rfl⟩ := Option.map_eq_some_iff.mp hexisting
    exact ⟨s, .again hplace, h⟩
  | new hnone hblocks hentered hrecorded =>
    rename_i blocks pageTable
    rw [h.translate, Option.map_eq_none_iff] at hnone
    have hframe : frame address = address := h.aligned _ (by rw [← h.blocks, hblocks]; simp)
    refine ⟨_, .first hnone (h.blocks ▸ hblocks), ?_⟩
    refine
      { wellFormed := hentered.wellFormed
        pagesOnly := hentered.pagesOnly h.pagesOnly
        pageAddress := h.pageAddress
        tables := fun page hpage =>
          h.tables page (Recorded.isTable hrecorded hentered.wellFormed hpage)
        walk := ?_
        attributes := ?_
        blocks := rfl
        aligned := ?_
        bytes := ?_ }
    · intro x
      by_cases hx : pageNumber x = v.number
      · dsimp only
        rw [hx, Function.update_self]
        exact hentered.here (path_prefix_iff.mpr hx)
      · dsimp only
        rw [Function.update_of_ne hx, hentered.there fun hpre => hx (path_prefix_iff.mp hpre)]
        exact h.walk x
    · intro number placement hplace
      dsimp only at hplace
      by_cases hnumber : number = v.number
      · rw [hnumber, Function.update_self] at hplace
        cases hplace
        exact ⟨hframe, hflags⟩
      · rw [Function.update_of_ne hnumber] at hplace
        exact h.attributes _ _ hplace
    · intro page hpage
      refine h.aligned page ?_
      rw [← h.blocks, hblocks]
      exact List.mem_cons_of_mem _ hpage
    · intro c hout
      rw [← h.bytes c hout]
      unfold readByte
      rw [hrecorded.outside hentered.toKept]
      intro page hpage hin
      have htable := h.tables page (Recorded.isTable hrecorded hentered.wellFormed (.inl hpage))
      exact hout page htable ((inPage_word (h.pageAddress page htable)).mp hin)

theorem Refines.recordPage (h : Refines Table p s) (page : MemoryPage) (inserted : Bool) :
    Refines Table (recordPage page inserted p).2 s := by
  cases inserted with
  | false => exact h
  | true =>
    exact
      { wellFormed := h.wellFormed
        pagesOnly := h.pagesOnly
        pageAddress := h.pageAddress
        tables := h.tables
        walk := h.walk
        attributes := h.attributes
        blocks := h.blocks
        aligned := h.aligned
        bytes := h.bytes }

/-- The bytes of a copy, and those that it leaves. -/
theorem readByte_copy (source : Word) (n c : Nat) :
    readByte (p.copy file address source n).pageTable.memory c =
      if address.toNat ≤ c ∧ c < address.toNat + n then
        file.bytes (source.toNat + (c - address.toNat))
      else readByte p.pageTable.memory c := by
  unfold Process.copy
  dsimp only
  split
  · rename_i hin
    obtain ⟨i, rfl⟩ := Nat.exists_eq_add_of_le hin.1
    rw [readByte_copyBytes _ (by omega), Nat.add_sub_cancel_left]
  · rename_i hout
    exact readByte_copyBytes_of_ne _ (by omega)

/-- A part that is put over no table. -/
theorem Refines.put (h : Refines Table p s) {part : Read}
    (hapart : Apart Table address.toNat part.2) :
    Refines Table (p.copy file address part.1 part.2) (s.put file address.toNat part) := by
  have hsame : SameTables p.pageTable (p.copy file address part.1 part.2).pageTable :=
    { root := rfl
      obtained := rfl
      memory := by
        intro page hpage c hin
        refine copyBytes_of_ne _ fun k hlo hhi heq => ?_
        have htable := h.tables page (.inl hpage)
        rw [heq] at hin
        exact hapart page htable k hlo hhi ((inPage_word (h.pageAddress page htable)).mp hin) }
  exact
    { wellFormed := hsame.wellFormed h.wellFormed
        ⟨h.wellFormed.answers.page, h.wellFormed.answers.once⟩
      pagesOnly := hsame.pagesOnly h.wellFormed h.pagesOnly
      pageAddress := h.pageAddress
      tables := h.tables
      walk := fun x => (hsame.walk h.wellFormed _).trans (h.walk x)
      attributes := h.attributes
      blocks := h.blocks
      aligned := h.aligned
      bytes := by
        intro c hout
        rw [readByte_copy]
        unfold Space.put
        dsimp only
        rw [h.bytes c hout] }

/-- A visit of the process is one of its space. -/
theorem Refines.of_visit (h : Refines Table p s) (hflags : AttributeFlags v.pageFlags)
    (hapart : ∀ address s₁, s.Finds v address s₁ → address.toNat < mmapPhysicalRegionSize →
      Apart Table address.toNat v.part.2)
    (hcall : visit file v p = (some (), p')) : ∃ s', s.Visits file v s' ∧ Refines Table p' s' := by
  rcases hfind : findPage v.virtualAddress v.pageFlags p with ⟨_ | address, p₁⟩
  · cases (bind_gaveUp hfind).symm.trans hcall
  · obtain ⟨s₁, hfinds, h₁⟩ := h.find hflags hfind
    have hvisit := (visit_found file hfind).symm.trans hcall
    by_cases hwindow : mmapPhysicalRegionSize ≤ address.toNat
    · rw [if_pos hwindow] at hvisit
      cases hvisit
    · rw [if_neg hwindow] at hvisit
      cases hvisit
      have hlow := Nat.lt_of_not_le hwindow
      exact ⟨_, ⟨address, s₁, hfinds, hlow, rfl⟩,
        (h₁.recordPage _ _).put (hapart address s₁ hfinds hlow)⟩

/-- A page stays where it is, and that of the visit is somewhere. -/
theorem Space.Finds.place (h : s.Finds v address s₁) :
    (∀ number placement, s.place number = some placement → s₁.place number = some placement) ∧
      s₁.place v.number ≠ none := by
  cases h with
  | again hplace => exact ⟨fun _ _ h => h, fun hnone => nomatch hplace.symm.trans hnone⟩
  | first hnone =>
    refine ⟨fun number placement hplace => ?_, ?_⟩
    · dsimp only
      rw [Function.update_of_ne]
      · exact hplace
      · rintro rfl
        cases hnone.symm.trans hplace
    · dsimp only
      rw [Function.update_self]
      exact Option.some_ne_none _

theorem Space.Finds.unique {address' : Word} (h : s.Finds v address s₁)
    (h' : s.Finds v address' s') : address' = address ∧ s' = s₁ := by
  cases h with
  | again hplace =>
    cases h' with
    | again hplace' =>
      cases hplace.symm.trans hplace'
      exact ⟨rfl, rfl⟩
    | first hnone => cases hplace.symm.trans hnone
  | first hnone hblocks =>
    cases h' with
    | again hplace => cases hnone.symm.trans hplace
    | first _ hblocks' =>
      cases hblocks.symm.trans hblocks'
      exact ⟨rfl, rfl⟩

theorem recordPage_pageTable (page : MemoryPage) (inserted : Bool) (p : Process) :
    (ProcessMemory.recordPage page inserted p).2.pageTable = p.pageTable := by
  cases inserted <;> rfl

/-- The page of a visit is there, if there are pages for its tables. -/
theorem Refines.find_returns (h : Refines Table p s) (hfinds : s.Finds v address s₁)
    (hpages : HasPages n p.pageTable)
    (hfirst : s.place v.number = none →
      HasPages (n + p.pageTable.missing v.virtualAddress) p.pageTable) :
    ∃ p₁, findPage v.virtualAddress v.pageFlags p = (some address, p₁) ∧
      HasPages n p₁.pageTable := by
  have htranslate := h.translate v.virtualAddress
  cases hfinds with
  | again hplace =>
    refine ⟨p, ?_, hpages⟩
    rw [show s.place (pageNumber v.virtualAddress) = _ from hplace] at htranslate
    unfold findPage
    rw [htranslate]
    rfl
  | first hnone hblocks =>
    rename_i blocks
    rw [show s.place (pageNumber v.virtualAddress) = _ from hnone] at htranslate
    have htake : takeBlock p = (some address, { p with blocks }) := by
      unfold takeBlock
      rw [h.blocks, hblocks]
    have hmapped : Tried (vmapMapPage address v.virtualAddress v.pageFlags) p.pageTable _ _ :=
      (hfirst hnone).vmapMapPage_missing h.wellFormed (h.pagesOnly _)
    rcases hmap : vmapMapPage address v.virtualAddress v.pageFlags p.pageTable with ⟨_ | _, v₁⟩
    · exact (hmapped.gaveUp hmap).elim
    · refine ⟨{ p with blocks, pageTable := v₁ }, ?_, hmapped.returned hmap⟩
      unfold findPage
      rw [htranslate]
      refine bind_returned.mpr ⟨address, _, htake, bind_returned.mpr ⟨(), _, ?_, rfl⟩⟩
      unfold mapTaken
      rw [hmap]

/-- A visit of the space can be made by the process. -/
theorem Refines.visit_returns (h : Refines Table p s) (hflags : AttributeFlags v.pageFlags)
    (hapart : ∀ address s₁, s.Finds v address s₁ → Apart Table address.toNat v.part.2)
    (hpages : HasPages n p.pageTable)
    (hfirst : s.place v.number = none →
      HasPages (n + p.pageTable.missing v.virtualAddress) p.pageTable)
    (hvisits : s.Visits file v s') :
    ∃ p', visit file v p = (some (), p') ∧ Refines Table p' s' ∧ HasPages n p'.pageTable := by
  obtain ⟨address, s₁, hfinds, hwindow, rfl⟩ := hvisits
  obtain ⟨p₁, hfind, hpages₁⟩ := h.find_returns hfinds hpages hfirst
  obtain ⟨s₂, hfinds', h₂⟩ := h.find hflags hfind
  obtain ⟨-, rfl⟩ := hfinds.unique hfinds'
  refine ⟨_, (visit_found file hfind).trans (if_neg (Nat.not_le_of_lt hwindow)),
    (h₂.recordPage _ _).put (hapart address _ hfinds), ?_⟩
  have hanswers := congrArg Vmap.answers
    (recordPage_pageTable ⟨v.virtualAddress, address, v.type⟩ v.recorded p₁)
  refine ⟨?_, fun page hpage => hpages₁.page page (hanswers ▸ hpage)⟩
  exact Nat.le_trans hpages₁.enough (Nat.le_of_eq (congrArg List.length hanswers.symm))

end

/-! ## Tables that are needed -/

/-- Where the tables for the page are. -/
def Visit.tablePaths (v : Visit) : List (List Index) :=
  (List.range 4).map fun d => (path v.virtualAddress).take d

/-- Where new tables are needed. -/
def newTables : List (List Index) → List Visit → List (List Index)
  | _, [] => []
  | seen, v :: vs =>
    let new := v.tablePaths.filter (· ∉ seen)
    new ++ newTables (new ++ seen) vs

section
variable {Table : Word → Prop} {p p' : Process} {s s' s₁ : Space} {file : Buffer} {v : Visit}
  {vs : List Visit} {x address page : Word} {n : Nat} {seen : List (List Index)}

theorem mem_tablePaths {is : List Index} : is ∈ v.tablePaths ↔
    ∃ d < 4, is = (path v.virtualAddress).take d := by
  unfold Visit.tablePaths
  simp only [List.mem_map, List.mem_range, eq_comm]

theorem nodup_tablePaths (v : Visit) : v.tablePaths.Nodup := by
  refine List.nodup_range.map_on fun d hd e he h => ?_
  have hlength := congrArg List.length h
  have hpath : (path v.virtualAddress).length = 4 := rfl
  rw [List.length_take, List.length_take, hpath] at hlength
  have hd := List.mem_range.mp hd
  have he := List.mem_range.mp he
  omega

/-- They are needed once. -/
theorem nodup_newTables (seen : List (List Index)) (vs : List Visit) :
    (newTables seen vs).Nodup ∧ ∀ is ∈ newTables seen vs,
      is ∉ seen ∧ ∃ v ∈ vs, is ∈ v.tablePaths := by
  induction vs generalizing seen with
  | nil => exact ⟨List.nodup_nil, List.forall_mem_nil _⟩
  | cons v vs ih =>
    obtain ⟨hnodup, hmem⟩ := ih (v.tablePaths.filter (· ∉ seen) ++ seen)
    constructor
    · refine List.nodup_append.mpr ⟨(nodup_tablePaths v).filter _, hnodup, ?_⟩
      rintro is his _ hnew rfl
      exact (hmem is hnew).1 (List.mem_append_left _ his)
    · intro is his
      rcases List.mem_append.mp his with hnew | hrest
      · obtain ⟨hpath, hseen⟩ := List.mem_filter.mp hnew
        exact ⟨of_decide_eq_true hseen, v, List.mem_cons_self .., hpath⟩
      · obtain ⟨hnot, w, hw, hpath⟩ := hmem is hrest
        exact ⟨fun h => hnot (List.mem_append_right _ h), w, List.mem_cons_of_mem _ hw, hpath⟩

/-- The tables of pages that have been placed are there. -/
def Seen (s : Space) (seen : List (List Index)) : Prop :=
  ∀ is ∈ seen, ∃ x, is <+: path x ∧ s.place (pageNumber x) ≠ none

/-- No more tables are missing than are needed. -/
theorem Refines.missing_le (h : Refines Table p s) (hseen : Seen s seen) (v : Visit) :
    p.pageTable.missing v.virtualAddress ≤ (v.tablePaths.filter (· ∉ seen)).length := by
  unfold Vmap.missing Visit.tablePaths
  rw [List.filter_map, List.length_map, ← List.countP_eq_length_filter,
    ← List.countP_eq_length_filter]
  refine List.countP_mono_left fun d _ hfault => decide_eq_true fun hmem => ?_
  obtain ⟨x, ⟨rest, hpath⟩, hplace⟩ := hseen _ hmem
  have hwalk := h.walk x
  obtain ⟨placement, hplace⟩ := Option.ne_none_iff_exists'.mp hplace
  rw [← hpath, Vmap.walk_fault_append (of_decide_eq_true hfault), hplace] at hwalk
  cases hwalk

theorem Seen.visit (hseen : Seen s seen) (hvisits : s.Visits file v s') :
    Seen s' (v.tablePaths.filter (· ∉ seen) ++ seen) := by
  obtain ⟨address, s₁, hfinds, -, rfl⟩ := hvisits
  obtain ⟨hstays, hplaced⟩ := hfinds.place
  intro is his
  rcases List.mem_append.mp his with hnew | hold
  · obtain ⟨d, -, rfl⟩ := mem_tablePaths.mp (List.mem_filter.mp hnew).1
    exact ⟨v.virtualAddress, List.take_prefix _ _, hplaced⟩
  · obtain ⟨x, hprefix, hplace⟩ := hseen is hold
    obtain ⟨placement, hplace⟩ := Option.ne_none_iff_exists'.mp hplace
    exact ⟨x, hprefix, fun hnone => nomatch (hstays _ _ hplace).symm.trans hnone⟩

/-! ## Runs -/

/-- An invariant that keeps the parts away from the tables; it is one of a
space and the visits that are left. -/
structure KeepsApart (Table : Word → Prop) (file : Buffer) (Inv : Space → List Visit → Prop) :
    Prop where
  step : ∀ {s v vs s'}, Inv s (v :: vs) → s.Visits file v s' → Inv s' vs
  apart : ∀ {s v vs address s₁}, Inv s (v :: vs) → s.Finds v address s₁ →
    Apart Table address.toNat v.part.2

/-- A run of the process is one of its space. -/
theorem Refines.of_visitAll {Inv : Space → List Visit → Prop} (hkeeps : KeepsApart Table file Inv)
    (h : Refines Table p s) (hinv : Inv s vs) (hflags : ∀ v ∈ vs, AttributeFlags v.pageFlags)
    (hcall : visitAll file vs p = (some (), p')) :
    ∃ s', s.VisitsAll file vs s' ∧ Refines Table p' s' ∧ Inv s' [] := by
  induction vs generalizing p s with
  | nil =>
    cases hcall
    exact ⟨s, .nil, h, hinv⟩
  | cons v vs ih =>
    obtain ⟨hflag, hflags⟩ := List.forall_mem_cons.mp hflags
    obtain ⟨_, p₁, hvisit, hrest⟩ := bind_returned.mp hcall
    obtain ⟨s₁, hvisits, h₁⟩ :=
      h.of_visit hflag (fun _ _ hfinds _ => hkeeps.apart hinv hfinds) hvisit
    obtain ⟨s', hall, h', hinv'⟩ := ih h₁ (hkeeps.step hinv hvisits) hflags hrest
    exact ⟨s', .cons hvisits hall, h', hinv'⟩

/-- With a page for each table that is needed, a run of the space is one of
the process. -/
theorem Refines.visitAll_returns {Inv : Space → List Visit → Prop}
    (hkeeps : KeepsApart Table file Inv) (h : Refines Table p s) (hinv : Inv s vs)
    (hflags : ∀ v ∈ vs, AttributeFlags v.pageFlags) (hseen : Seen s seen)
    (hpages : HasPages (newTables seen vs).length p.pageTable) (hvisits : s.VisitsAll file vs s') :
    ∃ p', visitAll file vs p = (some (), p') ∧ Refines Table p' s' := by
  induction hvisits generalizing p seen with
  | nil => exact ⟨p, rfl, h⟩
  | cons hvisit _ ih =>
    rename_i s s₁ s' v vs _
    obtain ⟨hflag, hflags⟩ := List.forall_mem_cons.mp hflags
    have hmissing := h.missing_le hseen v
    let rest := newTables (v.tablePaths.filter (· ∉ seen) ++ seen) vs
    have hneeded : (newTables seen (v :: vs)).length =
        (v.tablePaths.filter (· ∉ seen)).length + rest.length := List.length_append ..
    have hrest : HasPages rest.length p.pageTable := hpages.mono (by omega)
    have hfirst : HasPages (rest.length + p.pageTable.missing v.virtualAddress) p.pageTable :=
      hpages.mono (by omega)
    obtain ⟨p₁, hcall, h₁, hpages₁⟩ :=
      h.visit_returns hflag (fun _ _ => hkeeps.apart hinv) hrest (fun _ => hfirst) hvisit
    obtain ⟨p', hcalls, h'⟩ := ih h₁ (hkeeps.step hinv hvisit) hflags (hseen.visit hvisit) hpages₁
    exact ⟨p', bind_returned.mpr ⟨(), p₁, hcall, hcalls⟩, h'⟩

end

/-! ## What a run leaves -/

section
variable {s s' s₁ : Space} {file : Buffer} {v : Visit} {vs ws : List Visit} {address : Word}
  {number : Nat}

/-- Other pages are not placed by a visit. -/
theorem Space.Visits.place_other (h : s.Visits file v s') (hnumber : v.number ≠ number) :
    s'.place number = s.place number := by
  obtain ⟨address, s₁, hfinds, -, rfl⟩ := h
  cases hfinds with
  | again => rfl
  | first => exact Function.update_of_ne hnumber.symm _ _

/-- A page that is new has the flags of the visit. -/
theorem Space.Visits.place_new (h : s.Visits file v s') (hnone : s.place v.number = none) :
    ∃ page, s'.place v.number = some ⟨page, v.pageFlags⟩ := by
  obtain ⟨address, s₁, hfinds, -, rfl⟩ := h
  cases hfinds with
  | again hplace => cases hnone.symm.trans hplace
  | first => exact ⟨address, Function.update_self ..⟩

theorem Space.VisitsAll.append (h : s.VisitsAll file (vs ++ ws) s') :
    ∃ s₁, s.VisitsAll file vs s₁ ∧ s₁.VisitsAll file ws s' := by
  induction vs generalizing s with
  | nil => exact ⟨s, .nil, h⟩
  | cons v vs ih =>
    cases h with
    | cons hvisits hrest =>
      obtain ⟨s₁, hvs, hws⟩ := ih hrest
      exact ⟨s₁, .cons hvisits hvs, hws⟩

/-- A page stays where it is. -/
theorem Space.VisitsAll.stays (h : s.VisitsAll file vs s') {placement : Placement}
    (hplace : s.place number = some placement) : s'.place number = some placement := by
  induction h with
  | nil => exact hplace
  | cons hvisits _ ih =>
    obtain ⟨address, s₁, hfinds, -, rfl⟩ := hvisits
    exact ih (hfinds.place.1 _ _ hplace)

theorem Space.VisitsAll.unplaced (h : s.VisitsAll file vs s') (hvs : ∀ v ∈ vs, v.number ≠ number) :
    s'.place number = s.place number := by
  induction h with
  | nil => rfl
  | cons hvisits _ ih =>
    obtain ⟨hv, hvs⟩ := List.forall_mem_cons.mp hvs
    rw [ih hvs, hvisits.place_other hv]

/-- A page that is visited has the flags that its visits have. -/
theorem Space.VisitsAll.placed (h : s.VisitsAll file vs s') {pageFlags : Word}
    (hnone : s.place number = none) (hflags : ∀ v ∈ vs, v.number = number → v.pageFlags = pageFlags)
    (hvisited : ∃ v ∈ vs, v.number = number) :
    ∃ page, s'.place number = some ⟨page, pageFlags⟩ := by
  induction h with
  | nil =>
    obtain ⟨_, hv, _⟩ := hvisited
    cases hv
  | cons hvisits hrest ih =>
    rename_i s s₁ s' v vs
    obtain ⟨hflag, hflags⟩ := List.forall_mem_cons.mp hflags
    by_cases hnumber : v.number = number
    · subst hnumber
      obtain ⟨page, hplace⟩ := hvisits.place_new hnone
      rw [hflag rfl] at hplace
      exact ⟨page, hrest.stays hplace⟩
    · refine ih ((hvisits.place_other hnumber).trans hnone) hflags ?_
      exact ((List.exists_mem_cons_iff ..).mp hvisited).resolve_left hnumber

end

/-! ## Spaces with given blocks -/

/-- The blocks of the space, placed or left, are of a kind. -/
structure Space.Uses (Kind : Word → Prop) (s : Space) : Prop where
  place : ∀ number placement, s.place number = some placement → Kind placement.page
  blocks : ∀ page, some page ∈ s.blocks → Kind page

/-- The numbers of the pages that are new, in the order of the visits. -/
def firstVisits : List Nat → List Visit → List Nat
  | _, [] => []
  | seen, v :: vs =>
    if v.number ∈ seen then firstVisits seen vs
    else v.number :: firstVisits (v.number :: seen) vs

/-- The pages that have been seen, and no others, are where a function says. -/
def Space.PlacedBy (block : Nat → Word) (seen : List Nat) (s : Space) : Prop :=
  ∀ number, (s.place number).map (·.page) = if number ∈ seen then some (block number) else none

/-- The byte is in no part that may be put for the visit, whether the page is
new or not. -/
def Visit.Misses (block : Nat → Word) (c : Nat) (v : Visit) : Prop :=
  ∀ offset, offset = 0 ∨ offset = (pageOffset v.virtualAddress).toNat →
    c < (block v.number).toNat + offset ∨ (block v.number).toNat + offset + v.part.2 ≤ c

section
variable {Kind : Word → Prop} {s s' s₁ : Space} {file : Buffer} {v : Visit} {vs : List Visit}
  {address : Word} {block : Nat → Word} {seen : List Nat} {c number : Nat}

/-- A visit goes to a block, or behind its start. -/
theorem Space.Finds.inBlock (h : s.Finds v address s₁) (huses : s.Uses Kind) :
    ∃ page offset, Kind page ∧ (offset = 0 ∨ offset = pageOffset v.virtualAddress) ∧
      address = page + offset := by
  cases h with
  | again hplace => exact ⟨_, _, huses.place _ _ hplace, .inr rfl, rfl⟩
  | first hnone hblocks =>
    exact ⟨address, 0, huses.blocks _ (hblocks ▸ List.mem_cons_self ..), .inl rfl,
      (BitVec.add_zero _).symm⟩

theorem Space.Finds.uses (h : s.Finds v address s₁) (huses : s.Uses Kind) : s₁.Uses Kind := by
  cases h with
  | again hplace => exact huses
  | first hnone hblocks =>
    refine ⟨fun number placement hplace => ?_, fun page hpage => huses.blocks page ?_⟩
    · dsimp only at hplace
      by_cases hnumber : number = v.number
      · rw [hnumber, Function.update_self] at hplace
        cases hplace
        exact huses.blocks _ (hblocks ▸ List.mem_cons_self ..)
      · rw [Function.update_of_ne hnumber] at hplace
        exact huses.place _ _ hplace
    · exact hblocks ▸ List.mem_cons_of_mem _ hpage

theorem Space.Visits.uses (h : s.Visits file v s') (huses : s.Uses Kind) : s'.Uses Kind := by
  obtain ⟨address, s₁, hfinds, -, rfl⟩ := h
  exact ⟨(hfinds.uses huses).place, (hfinds.uses huses).blocks⟩

theorem mem_firstVisits :
    number ∈ firstVisits seen vs ↔ number ∉ seen ∧ ∃ v ∈ vs, v.number = number := by
  induction vs generalizing seen with
  | nil => simp [firstVisits]
  | cons v vs ih =>
    unfold firstVisits
    split
    · rename_i hseen
      rw [ih, List.exists_mem_cons_iff]
      constructor
      · rintro ⟨hnot, hlater⟩
        exact ⟨hnot, .inr hlater⟩
      · rintro ⟨hnot, rfl | hlater⟩
        · exact absurd hseen hnot
        · exact ⟨hnot, hlater⟩
    · rename_i hseen
      rw [List.mem_cons, ih, List.exists_mem_cons_iff, List.mem_cons, not_or]
      constructor
      · rintro (rfl | ⟨⟨-, hnot⟩, hlater⟩)
        · exact ⟨hseen, .inl rfl⟩
        · exact ⟨hnot, .inr hlater⟩
      · rintro ⟨hnot, hhere | hlater⟩
        · exact .inl hhere.symm
        · by_cases hnumber : number = v.number
          · exact .inl hnumber
          · exact .inr ⟨⟨hnumber, hnot⟩, hlater⟩

theorem nodup_firstVisits (seen : List Nat) (vs : List Visit) : (firstVisits seen vs).Nodup := by
  induction vs generalizing seen with
  | nil => exact List.nodup_nil
  | cons v vs ih =>
    unfold firstVisits
    split
    · exact ih seen
    · refine List.nodup_cons.mpr ⟨fun hmem => ?_, ih _⟩
      exact (mem_firstVisits.mp hmem).1 (List.mem_cons_self ..)

/-- The first address of a visit. -/
theorem Space.PlacedBy.finds (h : s.PlacedBy block seen)
    (hblocks : s.blocks = (firstVisits seen (v :: vs)).map (some ∘ block)) :
    ∃ address s₁ offset, s.Finds v address s₁ ∧
      (offset = 0 ∨ offset = pageOffset v.virtualAddress) ∧ address = block v.number + offset ∧
      s₁.bytes = s.bytes ∧ ∃ seen', s₁.PlacedBy block seen' ∧
        s₁.blocks = (firstVisits seen' vs).map (some ∘ block) ∧
        ∀ number, number ∈ seen' ↔ number = v.number ∨ number ∈ seen := by
  have hplaced := h v.number
  unfold firstVisits at hblocks
  by_cases hseen : v.number ∈ seen
  · rw [if_pos hseen] at hblocks hplaced
    obtain ⟨placement, hplace, hpage⟩ := Option.map_eq_some_iff.mp hplaced
    refine ⟨_, s, pageOffset v.virtualAddress, .again hplace, .inr rfl, by rw [hpage], rfl, seen, h,
      hblocks, fun number => ?_⟩
    exact (or_iff_right_of_imp fun heq => heq ▸ hseen).symm
  · rw [if_neg hseen] at hblocks hplaced
    refine ⟨block v.number, _, 0, .first (Option.map_eq_none_iff.mp hplaced) hblocks, .inl rfl,
      (BitVec.add_zero _).symm, rfl, v.number :: seen, fun number => ?_, rfl,
      fun _ => List.mem_cons⟩
    dsimp only
    by_cases hnumber : number = v.number
    · rw [hnumber, Function.update_self, if_pos (List.mem_cons_self ..)]
      rfl
    · rw [Function.update_of_ne hnumber, h number]
      simp only [List.mem_cons, hnumber, false_or]

theorem add_offset_toNat {page x : Word} (haligned : page.toNat % 4096 = 0) {offset : Word}
    (hoffset : offset = 0 ∨ offset = pageOffset x) :
    (page + offset).toNat = page.toNat + offset.toNat ∧ offset.toNat < 4096 := by
  have hlt : offset.toNat < 4096 := by
    rcases hoffset with rfl | rfl
    · exact Nat.zero_lt_succ _
    · rw [pageOffset_toNat]
      exact Nat.mod_lt _ (by decide)
  refine ⟨?_, hlt⟩
  rw [BitVec.toNat_add, Nat.mod_eq_of_lt]
  have hpage := page.isLt
  omega

/-- With its block for every page, all visits can be made, and a byte that
they all miss stays. -/
theorem exists_visitsAll (hblock : ∀ v ∈ vs, (block v.number).toNat % 4096 = 0 ∧
      (block v.number).toNat < mmapPhysicalRegionSize)
    (hmisses : ∀ v ∈ vs, v.Misses block c) (hplaced : s.PlacedBy block seen)
    (hblocks : s.blocks = (firstVisits seen vs).map (some ∘ block)) :
    ∃ s', s.VisitsAll file vs s' ∧ s'.bytes c = s.bytes c ∧ ∃ seen', s'.PlacedBy block seen' ∧
      ∀ number, number ∈ seen' ↔ number ∈ seen ∨ ∃ v ∈ vs, v.number = number := by
  induction vs generalizing s seen with
  | nil => exact ⟨s, .nil, rfl, seen, hplaced, by simp⟩
  | cons v vs ih =>
    obtain ⟨⟨haligned, hlow⟩, hblock⟩ := List.forall_mem_cons.mp hblock
    obtain ⟨hmiss, hmisses⟩ := List.forall_mem_cons.mp hmisses
    obtain ⟨address, s₁, offset, hfinds, hoffset, rfl, hbytes, seen₁, hplaced₁, hblocks₁, hseen₁⟩ :=
      hplaced.finds hblocks
    obtain ⟨htoNat, hlt⟩ := add_offset_toNat haligned hoffset
    have hwindow : (block v.number + offset).toNat < mmapPhysicalRegionSize := by
      have hsize : mmapPhysicalRegionSize = 2 ^ 34 := rfl
      omega
    obtain ⟨s', hall, hkept, seen', hplaced', hseen'⟩ :=
      ih (s := s₁.put file _ v.part) hblock hmisses
      hplaced₁ hblocks₁
    refine ⟨s', .cons ⟨_, s₁, hfinds, hwindow, rfl⟩ hall, ?_, seen', hplaced', fun number => ?_⟩
    · have hout := hmiss offset.toNat (hoffset.imp (fun h => congrArg BitVec.toNat h)
        fun h => congrArg BitVec.toNat h)
      rw [hkept, ← hbytes]
      refine if_neg fun hin => ?_
      omega
    · rw [hseen', hseen₁, List.exists_mem_cons_iff, eq_comm (a := number)]
      tauto

end

end ZOs.ProcessMemory
