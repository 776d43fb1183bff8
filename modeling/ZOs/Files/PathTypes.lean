import ZOs.Files.GlobalPaths
import ZOs.Lib.Ensures
import ZOs.Lib.Run

/-!
# The types of global paths

A file is used as what it is not, or a pointer is called that was never
assigned, in two places: `channel_open` takes any file at its path for a
channel, and `file_open` reads a slot that only input devices assign.
Everything else is safe: the `ops` of a file go with its `private_data`, and
what is compared with a function, or called, has been assigned
(`globalPaths_safe_iff`).
-/

namespace ZOs.GlobalPaths

open Checked Runs
open Ipc (HandleTable)

/-! ## Type safety -/

/-- The action opens a path with the call of another kind: there is a file at
it, which has not got what the call opens. -/
def OtherKind (s : State) : Action → Prop
  | .channelOpen _ (some path) fd _ => fd ≠ 0 ∧
    ∃ f file, s.pathTable path = some f ∧ fileAt s f = some file ∧
      file.privateData.channel? = none
  | .sharedMemoryOpen _ (some path) _ fd => fd ≠ 0 ∧
    ∃ f file, s.pathTable path = some f ∧ fileAt s f = some file ∧
      file.privateData.sharedMemory? = none
  | .fileOpen _ (some path) fd _ => fd ≠ 0 ∧
    ∃ f file, s.pathTable path = some f ∧ fileAt s f = some file ∧
      file.privateData.inputDevice? = none
  | _ => False

/-- No file is used as what it is not, nothing is called that was not
assigned, and opening a path with the call of another kind returns -1 and
changes nothing. -/
def TypeSafe (env : Env) (s : State) (a : Action) : Prop :=
  exec env s a ≠ .error .typeConfusion ∧ exec env s a ≠ .error .wildCall ∧
    (OtherKind s a → exec env s a = .ok (some (-1), s))

/-- `channel_open` comes upon channels only, and `file_open` upon input devices
or slots that hold NULL. -/
def Fitting (env : Env) (s : State) : Action → Prop
  | .channelOpen _ (some path) fd _ => fd ≠ 0 →
    ∀ f file, s.pathTable path = some f → fileAt s f = some file →
      file.privateData.channel?.isSome
  | .fileOpen _ (some path) fd _ => fd ≠ 0 →
    ∀ f file, s.pathTable path = some f → fileAt s f = some file →
      file.privateData.inputDevice?.isSome ∨ file.ops.open'.word env = 0
  | _ => True

/-! ## Files and what they are used for -/

/-- The `ops` of a file, by what its `private_data` points to. -/
def PrivateData.ops (word : Word) : PrivateData → FileOps
  | .channel _ => ⟨.unassigned word, .null, .null, .null⟩
  | .channelFile _ => ⟨.unassigned word, .function .channelFileRead, .function .channelFileWrite,
      .function .channelFileClose⟩
  | .sharedMemory _ => ⟨.unassigned word, .function .sharedMemoryRead,
      .function .sharedMemoryWrite, .function .sharedMemoryClose⟩
  | .inputDevice _ => ⟨.function .inputFileOpen, .null, .null, .null⟩
  | .inputFile _ => ⟨.null, .function .inputFileRead, .null, .null⟩
  | .process _ => ⟨.null, .null, .null, .null⟩

/-- The file is there and is a channel. -/
def IsChannel (s : State) (f : FileId) : Prop :=
  ∃ file, fileAt s f = some file ∧ file.privateData.channel?.isSome

/-- The handle leads to a process. -/
def IsProcess (s : State) (handle : Word) : Prop :=
  ∃ file, fileAt s handle.toNat = some file ∧ file.privateData.process?.isSome

/-- The `ops` go with the `private_data`, and an endpoint has a channel. -/
structure Sound (s : State) (file : File) : Prop where
  ops : ∃ word, file.ops = file.privateData.ops word
  source : ∀ e, file.privateData = .channelFile e →
    e < s.channelFileCount ∧ IsChannel s (s.channelFiles e).sourceChannel

/-- The entries fit, and the block has less than `2 ^ 63` bytes. -/
structure Fits {α : Type} (table : HandleTable α) : Prop where
  pos : 0 < table.capacity
  length : table.handles.length ≤ table.capacity
  bytes : table.capacity * 8 < 2 ^ 63

structure Inv (s : State) : Prop where
  fits : Fits s.fileTable
  sound : ∀ f file, fileAt s f = some file → Sound s file
  handles : ∀ p < s.processCount, IsProcess s (s.processHandles p)
  messages : ∀ e, ∀ message ∈ s.fdMessages e, IsProcess s message.processFd

/-- The files that there are stay what they are. -/
def Grows (s s' : State) : Prop :=
  ∀ f file, fileAt s f = some file → ∃ file', fileAt s' f = some file' ∧
    file'.privateData = file.privateData ∧ file'.ops = file.ops

/-- An end of a call that is no confusion. -/
def Halts : Fault → Prop
  | .assertion _ | .nullPointer => True
  | .typeConfusion | .wildCall => False

/-- The part of the state that the invariant is about. -/
def State.core (s : State) :=
  (s.fileTable, s.channelFiles, s.channelFileCount, s.fdMessages, s.processHandles, s.processCount)

section
variable {env : Env} {s s' s'' : State} {f : FileId} {file file' : File} {p : ProcessId}
  {path : Option Path} {handle : Word}

theorem fileAt_eq : fileAt s f = some file ↔ s.fileTable.handles[f]? = some (some file) :=
  Option.join_eq_some_iff

theorem Grows.refl (s : State) : Grows s s := fun _ file h => ⟨file, h, rfl, rfl⟩

theorem Grows.isChannel (h : Grows s s') (hf : IsChannel s f) : IsChannel s' f := by
  obtain ⟨file, hfile, hchannel⟩ := hf
  obtain ⟨file', hfile', hdata, -⟩ := h f file hfile
  exact ⟨file', hfile', hdata ▸ hchannel⟩

theorem Grows.isProcess (h : Grows s s') (hf : IsProcess s handle) : IsProcess s' handle := by
  obtain ⟨file, hfile, hprocess⟩ := hf
  obtain ⟨file', hfile', hdata, -⟩ := h _ file hfile
  exact ⟨file', hfile', hdata ▸ hprocess⟩

/-- A file stays sound where endpoints are added and no file changes. -/
theorem Sound.grows (h : Sound s file) (hgrows : Grows s s')
    (hcount : s.channelFileCount ≤ s'.channelFileCount)
    (hsame : ∀ e < s.channelFileCount, s'.channelFiles e = s.channelFiles e) : Sound s' file where
  ops := h.ops
  source e he := by
    obtain ⟨hlt, hchannel⟩ := h.source e he
    refine ⟨Nat.lt_of_lt_of_le hlt hcount, ?_⟩
    rw [hsame e hlt]
    exact hgrows.isChannel hchannel

theorem Sound.of_ops (hops : ∃ word, file.ops = file.privateData.ops word)
    (hnot : file.privateData.channelFile? = none) : Sound s file where
  ops := hops
  source e he := by
    rw [he] at hnot
    cases hnot

/-- What the invariant is about decides it. -/
theorem Inv.of_core (h : Inv s) (hcore : s'.core = s.core) : Inv s' := by
  obtain ⟨hfits, hsound, hhandles, hmessages⟩ := h
  obtain ⟨⟩ := s
  obtain ⟨⟩ := s'
  unfold State.core at hcore
  dsimp only at hcore
  injection hcore with h₁ hcore
  injection hcore with h₂ hcore
  injection hcore with h₃ hcore
  injection hcore with h₄ hcore
  injection hcore with h₅ h₆
  subst h₁ h₂ h₃ h₄ h₅ h₆
  exact
    { fits := hfits
      sound := fun f file hfile => ⟨(hsound f file hfile).ops, (hsound f file hfile).source⟩
      handles := hhandles
      messages := hmessages }

/-- The same invariant where the table of files has changed. -/
theorem Inv.withTable (h : Inv s) {table : HandleTable File} (hfits : Fits table)
    (hgrows : Grows s { s with fileTable := table })
    (hsound : ∀ f file, fileAt { s with fileTable := table } f = some file → Sound s file) :
    Inv { s with fileTable := table } where
  fits := hfits
  sound f file hfile := (hsound f file hfile).grows hgrows (Nat.le_refl _) fun _ _ => rfl
  handles p hp := hgrows.isProcess (h.handles p hp)
  messages e message hmessage := hgrows.isProcess (h.messages e message hmessage)

/-- A file behind the others. -/
theorem Inv.addFile (h : Inv s) {table : HandleTable File} (hfits : Fits table)
    (hhandles : table.handles = s.fileTable.handles ++ [some file]) (hsound : Sound s file) :
    Inv { s with fileTable := table } ∧ Grows s { s with fileTable := table } ∧
      fileAt { s with fileTable := table } s.fileTable.handles.length = some file := by
  have hnew : fileAt { s with fileTable := table } s.fileTable.handles.length = some file := by
    unfold fileAt
    dsimp only
    rw [hhandles, List.getElem?_concat_length]
    rfl
  have hold : ∀ f < s.fileTable.handles.length,
      fileAt { s with fileTable := table } f = fileAt s f := by
    intro f hf
    unfold fileAt
    dsimp only
    rw [hhandles, List.getElem?_append_left hf]
  have hgrows : Grows s { s with fileTable := table } := by
    intro f file hfile
    refine ⟨file, (hold f ?_).trans hfile, rfl, rfl⟩
    exact (List.getElem?_eq_some_iff.mp (fileAt_eq.mp hfile)).1
  refine ⟨h.withTable hfits hgrows fun f file' hfile => ?_, hgrows, hnew⟩
  · rcases Nat.lt_trichotomy f s.fileTable.handles.length with hlt | rfl | hgt
    · exact h.sound f file' ((hold f hlt).symm.trans hfile)
    · rw [hnew] at hfile
      exact Option.some.inj hfile ▸ hsound
    · have hnone : table.handles[f]? = none := by
        rw [hhandles]
        exact List.getElem?_eq_none (by rw [List.length_append, List.length_singleton]; omega)
      unfold fileAt at hfile
      dsimp only at hfile
      rw [hnone] at hfile
      cases hfile

theorem fileAt_modifyFile (s : State) (f f' : FileId) (g : File → File) :
    fileAt (modifyFile s f g) f' = if f = f' then (fileAt s f').map g else fileAt s f' := by
  unfold fileAt modifyFile
  dsimp only
  rw [List.getElem?_modify]
  cases s.fileTable.handles[f']? with
  | none => split <;> rfl
  | some entry => split <;> cases entry <;> simp [*]

/-- A store to a file that leaves what it is. -/
theorem Inv.modifyFile (h : Inv s) (f : FileId) {g : File → File}
    (hdata : ∀ file, (g file).privateData = file.privateData)
    (hops : ∀ file, (g file).ops = file.ops) :
    Inv (modifyFile s f g) ∧ Grows s (modifyFile s f g) := by
  have hgrows : Grows s (GlobalPaths.modifyFile s f g) := by
    intro f' file hfile
    rw [fileAt_modifyFile, hfile]
    split
    · exact ⟨g file, rfl, hdata file, hops file⟩
    · exact ⟨file, rfl, rfl, rfl⟩
  refine ⟨h.withTable ⟨h.fits.pos, ?_, h.fits.bytes⟩ hgrows fun f' file' hfile => ?_, hgrows⟩
  · rw [List.length_modify]
    exact h.fits.length
  · have hfile' : fileAt (GlobalPaths.modifyFile s f g) f' = some file' := hfile
    rw [fileAt_modifyFile] at hfile'
    split at hfile'
    · obtain ⟨file, hold, rfl⟩ := Option.map_eq_some_iff.mp hfile'
      have hsound := h.sound f' file hold
      constructor
      · rw [hops, hdata]
        exact hsound.ops
      · rw [hdata]
        exact hsound.source
    · exact h.sound f' file' hfile'

end

/-! ## The tables -/

section
variable {env : Env} {s s' : State} {f : FileId} {file file' : File} {p : ProcessId}
  {path : Option Path} {handle : Word} {α : Type} {table table' : HandleTable α} {data : α}

@[simp] theorem ensures_assert {condition : Bool} {text : String} {P : Unit → Prop} :
    Ensures Halts (assert condition text) P ↔ (condition = true → P ()) := by
  unfold assert
  split
  · rename_i hcondition
    exact ⟨fun h _ => h, fun h => h hcondition⟩
  · rename_i hcondition
    exact iff_of_true trivial fun h => absurd h hcondition

theorem handleTableInsert_core (table : HandleTable α) (data : α) :
    (handleTableInsert env s table data).2.2.core = s.core := by
  unfold handleTableInsert
  dsimp only
  split
  · rfl
  · split <;> rename_i heq <;> exact congrArg (·.2.core) heq.symm |>.trans rfl

theorem handleTableInsert_some (h : handleTableInsert env s table data = (some handle, table', s'))
    (hfits : Fits table) : handle = BitVec.ofNat 64 table.handles.length ∧ Fits table' ∧
      table'.handles = table.handles ++ [some data] ∧ s'.core = s.core := by
  have hcore : s'.core = s.core := by
    have hcore : (handleTableInsert env s table data).2.2.core = s.core :=
      handleTableInsert_core table data
    rwa [h] at hcore
  obtain ⟨hpos, hlength, hbytes⟩ := hfits
  unfold handleTableInsert at h
  dsimp only at h
  split at h
  · rename_i hlt
    cases h
    refine ⟨rfl, ⟨hpos, ?_, hbytes⟩, rfl, hcore⟩
    rw [List.length_append, List.length_singleton]
    exact hlt
  · unfold kmallocPointers at h
    split at h
    · cases h
    · rename_i heq
      have hok := congrArg Prod.fst heq
      simp only [Bool.and_eq_true, decide_eq_true_eq] at hok
      cases h
      refine ⟨rfl, ⟨by dsimp only; omega, ?_, hok.2⟩, rfl, hcore⟩
      rw [List.length_append, List.length_singleton]
      dsimp only
      omega

theorem core_withTable (h : s'.core = s.core) (table : HandleTable File) :
    ({ s' with fileTable := table } : State).core =
      ({ s with fileTable := table } : State).core := by
  unfold State.core at h ⊢
  exact congrArg (fun rest => (table, rest)) (Prod.mk.inj h).2

theorem core_fileTable (h : s'.core = s.core) : s'.fileTable = s.fileTable := (Prod.mk.inj h).1

theorem hashTableSet_core (path : Path) : (hashTableSet env s path f).2.core = s.core := by
  unfold hashTableSet
  dsimp only
  split
  · rfl
  · unfold kmalloc
    split <;> rename_i heq <;> exact congrArg (·.2.core) heq.symm |>.trans rfl

/-- A file that is opened is behind the others, under the next handle. -/
theorem fileTableOpen_spec (hfits : Fits s.fileTable) (path : Option Path) (file : File) :
    Ensures Halts (fileTableOpen env s path file) fun r => ∀ handle, r.1 = some handle →
      handle = BitVec.ofNat 64 s.fileTable.handles.length ∧
      ∃ table, Fits table ∧ table.handles = s.fileTable.handles ++
        [some { file with path, handle := BitVec.ofNat 64 s.fileTable.handles.length }] ∧
        r.2.core = ({ s with fileTable := table } : State).core := by
  unfold fileTableOpen
  rcases hk : kmalloc env s with ⟨ok, s₁⟩
  have hs₁ : s₁ = { s with kmallocs := s.kmallocs + 1 } := (congrArg Prod.snd hk).symm
  cases ok with
  | false => exact fun handle hsome => absurd hsome nofun
  | true =>
    subst hs₁
    dsimp only
    rcases hi : handleTableInsert env { s with kmallocs := s.kmallocs + 1 } s.fileTable
      { file with path, handle := BitVec.ofNat 64 s.fileTable.handles.length } with
      ⟨inserted, table, s₂⟩
    cases inserted with
    | none => exact fun handle hsome => absurd hsome nofun
    | some handle =>
      obtain ⟨hhandle, hfits', hhandles, hcore⟩ := handleTableInsert_some hi hfits
      have hcore' : ({ s₂ with fileTable := table } : State).core =
          ({ s with fileTable := table } : State).core := core_withTable hcore table
      dsimp only
      cases path with
      | none =>
        intro handle' hsome
        cases hsome
        exact ⟨hhandle, table, hfits', hhandles, hcore'⟩
      | some path =>
        dsimp only
        rw [ensures_bind, ensures_assert]
        intro _
        rcases hset : hashTableSet env (kmalloc env s₂).2 path s.fileTable.handles.length with
          ⟨stored, s₃⟩
        have hs₃ : s₃.core = s₂.core := by
          have hcore₃ : (hashTableSet env (kmalloc env s₂).2 path
              s.fileTable.handles.length).2.core = (kmalloc env s₂).2.core := hashTableSet_core path
          rw [hset] at hcore₃
          exact hcore₃
        cases stored with
        | false => exact fun handle hsome => absurd hsome nofun
        | true =>
          intro handle' hsome
          cases hsome
          exact ⟨hhandle, table, hfits', hhandles, (core_withTable hs₃ table).trans hcore'⟩

/-- What has been opened. -/
structure Opened (s : State) (file : File) (handle : Word) (s' : State) : Prop where
  inv : Inv s'
  grows : Grows s s'
  new : ∃ file', fileAt s' handle.toNat = some file' ∧ file'.privateData = file.privateData
  rest : s'.core = ({ s with fileTable := s'.fileTable } : State).core

theorem openFile_spec (h : Inv s) (hsound : Sound s file) (path : Option Path) :
    Ensures Halts (openFile env s path file) fun r => Opened s file r.1 r.2 := by
  unfold openFile
  rw [ensures_bind]
  refine (fileTableOpen_spec h.fits path file).mono fun r hr => ?_
  obtain ⟨opened, s'⟩ := r
  cases opened with
  | none => trivial
  | some handle =>
    obtain ⟨rfl, table, hfits, hhandles, hcore⟩ := hr handle rfl
    let file' : File := { file with path, handle := BitVec.ofNat 64 s.fileTable.handles.length }
    have hsound' : Sound s file' := ⟨hsound.ops, hsound.source⟩
    obtain ⟨hinv, hgrows, hnew⟩ := h.addFile hfits hhandles hsound'
    have htable := core_fileTable hcore
    have hat : ∀ f, fileAt s' f = fileAt { s with fileTable := table } f := by
      intro f
      unfold fileAt
      rw [htable]
    have hlt : s.fileTable.handles.length < 2 ^ 64 := by
      have hlength := h.fits.length
      have hbytes := h.fits.bytes
      omega
    exact
      { inv := hinv.of_core hcore
        grows := fun f file hfile => by
          rw [hat]
          exact hgrows f file hfile
        new := ⟨file', by
          dsimp only
          rw [hat, BitVec.toNat_ofNat, Nat.mod_eq_of_lt hlt, hnew], rfl⟩
        rest := by
          dsimp only
          rw [hcore, htable] }

theorem load_spec : Ensures Halts (load s f) fun file => fileAt s f = some file := by
  unfold load
  split
  · rename_i hfile
    exact hfile
  · trivial

theorem load_eq (h : fileAt s f = some file) : load s f = .ok file := by
  unfold load
  rw [h]

theorem fileTableGet_some {f : FileId} (h : fileTableGet s handle = some (some f)) :
    f = handle.toNat := by
  unfold fileTableGet at h
  obtain ⟨entry, -, hentry⟩ := Option.map_eq_some_iff.mp h
  obtain ⟨_, -, hf⟩ := Option.map_eq_some_iff.mp hentry
  exact hf.symm

theorem getFile_spec : Ensures Halts (getFile s handle) fun f => f = handle.toNat := by
  unfold getFile
  split
  · trivial
  · trivial
  · rename_i hget
    exact fileTableGet_some hget

theorem fdTableOpen_core : (fdTableOpen env s p f).2.core = s.core := by
  unfold fdTableOpen
  have hcore : (handleTableInsert env s (s.fdTables p) f).2.2.core = s.core :=
    handleTableInsert_core (s.fdTables p) f
  exact hcore

theorem use_eq {β : Type} {select : PrivateData → Option β} {object : β}
    (h : select file.privateData = some object) : file.use select = .ok object := by
  unfold File.use
  rw [h]

theorem use_none {β : Type} {select : PrivateData → Option β}
    (h : select file.privateData = none) : file.use select = .error .typeConfusion := by
  unfold File.use
  rw [h]

end

/-! ## What the calls leave -/

section
variable {env : Env} {s s' : State} {f : FileId} {file : File} {p : ProcessId} {e : EndpointId}
  {handle fd size : Word}

/-- The invariant after a call that returns. -/
abbrev Preserves (result : Result) : Prop := Ensures Halts result fun r => Inv r.2

theorem Inv.addProcess (h : Inv s) (hprocess : IsProcess s handle) :
    Inv { s with
      processHandles := Function.update s.processHandles s.processCount handle
      fdTables := Function.update s.fdTables s.processCount ⟨[], 64⟩
      processCount := s.processCount + 1 } where
  fits := h.fits
  sound f file hfile := (h.sound f file hfile).grows (Grows.refl s) (Nat.le_refl _) fun _ _ => rfl
  handles p hp := by
    dsimp only at hp ⊢
    rcases Nat.lt_succ_iff_lt_or_eq.mp hp with hlt | rfl
    · rw [Function.update_of_ne (Nat.ne_of_lt hlt)]
      exact h.handles p hlt
    · rw [Function.update_self]
      exact hprocess
  messages := h.messages

theorem Inv.kmalloc {ok : Bool} (h : Inv s) (heq : GlobalPaths.kmalloc env s = (ok, s')) : Inv s' :=
  h.of_core (congrArg (·.2.core) heq).symm

theorem processInit_spec (h : Inv s) : Preserves (processInit env s) := by
  unfold processInit
  split
  · rename_i heq
    exact h.kmalloc heq
  · rename_i s₁ heq
    have h₁ : Inv s₁ := h.kmalloc heq
    rw [Preserves, ensures_bind]
    refine (openFile_spec h₁ (.of_ops ⟨0, rfl⟩ rfl) none).mono fun r hr => ?_
    obtain ⟨handle, s₂⟩ := r
    obtain ⟨file, hfile, hdata⟩ := hr.new
    have hcount : s₂.processCount = s₁.processCount := congrArg (·.2.2.2.2.2) hr.rest
    dsimp only
    rw [← hcount]
    exact hr.inv.addProcess ⟨file, hfile, by rw [hdata]; rfl⟩

/-- A new endpoint of a channel. -/
theorem Inv.addEndpoint (h : Inv s) (channels : ChannelId → List EndpointId)
    (endpoint : ChannelFile) :
    Inv { s with
      channels
      channelFiles := Function.update s.channelFiles s.channelFileCount endpoint
      channelFileCount := s.channelFileCount + 1
      fdMessages := Function.update s.fdMessages s.channelFileCount [] } where
  fits := h.fits
  sound f file hfile := (h.sound f file hfile).grows (Grows.refl s) (Nat.le_succ _) fun e he =>
    Function.update_of_ne (Nat.ne_of_lt he) _ _
  handles := h.handles
  messages e message hmessage := by
    dsimp only at hmessage
    by_cases he : e = s.channelFileCount
    · rw [he, Function.update_self] at hmessage
      cases hmessage
    · rw [Function.update_of_ne he] at hmessage
      exact h.messages e message hmessage

theorem channelCreate_spec (h : Inv s) (path : Path) :
    Ensures Halts (channelCreate env s path) fun r => Inv r.2 ∧ IsChannel r.2 r.1 := by
  unfold channelCreate
  simp only [kmalloc, ensures_bind, ensures_assert]
  intro _
  refine (openFile_spec ?_ (.of_ops ?_ ?_) _).mono fun r hr => ?_
  · exact h.of_core rfl
  · exact ⟨_, rfl⟩
  · rfl
  refine getFile_spec.mono fun f hf => ?_
  obtain ⟨file, hfile, hdata⟩ := hr.new
  subst hf
  exact ⟨hr.inv, file, hfile, by rw [hdata]; rfl⟩

theorem channelAt_spec (h : Inv s) (path : Path)
    (hfits : ∀ f file, s.pathTable path = some f → fileAt s f = some file →
      file.privateData.channel?.isSome) :
    Ensures Halts (channelAt env s path) fun r => Inv r.2 ∧ IsChannel r.2 r.1 := by
  unfold channelAt
  split
  · rename_i f hpath
    rw [ensures_bind]
    refine load_spec.mono fun file hfile => ?_
    obtain ⟨hinv, hgrows⟩ := h.modifyFile f
      (g := fun file => { file with refCount := file.refCount + 1 }) (fun _ => rfl) fun _ => rfl
    exact ⟨hinv, hgrows.isChannel ⟨file, hfile, hfits f file hpath hfile⟩⟩
  · exact channelCreate_spec h path

theorem channelFileCreate_spec (h : Inv s) (hf : IsChannel s f) (p : ProcessId)
    (flags : BitVec 32) : Preserves (channelFileCreate env s p f flags) := by
  obtain ⟨file, hfile, hchannel⟩ := hf
  obtain ⟨c, hc⟩ := Option.isSome_iff_exists.mp hchannel
  have hload (kmallocs : Nat) : load { s with kmallocs } f = .ok file := load_eq hfile
  unfold channelFileCreate
  simp only [Preserves, kmalloc, ensures_bind, ensures_assert, hload, use_eq hc, ensures_ok]
  intro _ _
  let s₁ : State := { s with kmallocs := s.kmallocs + 1 + 1 }
  have h₁ : Inv s₁ := h.of_core rfl
  have h₂ := h₁.addEndpoint (Function.update s.channels c (s.channels c ++ [s.channelFileCount]))
    ⟨f, flags⟩
  refine (openFile_spec h₂ ⟨⟨_, rfl⟩, fun e he => ?_⟩ none).mono fun r hr => ?_
  · cases he
    refine ⟨Nat.lt_succ_self _, ?_⟩
    dsimp only
    rw [Function.update_self]
    exact ⟨file, hfile, hchannel⟩
  · refine getFile_spec.mono fun f' _ => fun _ => ?_
    exact hr.inv.of_core fdTableOpen_core

theorem channelOpen_spec (h : Inv s) (p : ProcessId) (path : Option Path) (fd : Word)
    (flags : BitVec 32) (hfits : Fitting env s (.channelOpen p path fd flags)) :
    Preserves (channelOpen env s p path fd flags) := by
  unfold channelOpen
  split
  · exact h
  · rename_i path
    split
    · exact h
    · rename_i hfd
      rw [Preserves, ensures_bind]
      refine (channelAt_spec h path (hfits hfd)).mono fun r hr => ?_
      exact channelFileCreate_spec hr.1 hr.2 p flags

theorem sharedMemoryFile_spec (h : Inv s) (path : Path) (memory : SharedMemory) :
    Ensures Halts (sharedMemoryFile env s path memory) fun r => Inv r.2 := by
  unfold sharedMemoryFile
  refine (openFile_spec ?_ (.of_ops ?_ ?_) _).mono fun r hr => hr.inv
  · exact h.of_core rfl
  · exact ⟨_, rfl⟩
  · rfl

theorem sharedMemoryCreate_spec (h : Inv s) (path : Path) (size : Word) :
    Ensures Halts (sharedMemoryCreate env s path size) fun r => Inv r.2 := by
  unfold sharedMemoryCreate
  simp only [kmalloc, ensures_bind, ensures_assert]
  intro _ _ _
  refine (sharedMemoryFile_spec ?_ path _).mono fun r hr => ?_
  · exact h.of_core rfl
  · exact getFile_spec.mono fun _ _ => hr

theorem sharedMemoryCreateFromContiguousPages_spec (h : Inv s) (path : Path) (size : Word) :
    Preserves (sharedMemoryCreateFromContiguousPages env s path size) := by
  unfold sharedMemoryCreateFromContiguousPages
  split
  · rename_i heq
    exact h.kmalloc heq
  · rename_i s₁ heq
    have h₁ : Inv s₁ := h.kmalloc heq
    split
    · rename_i heq
      exact h₁.kmalloc heq
    · rename_i s₂ heq
      have h₂ : Inv s₂ := h₁.kmalloc heq
      simp only [Preserves, ensures_bind, ensures_assert]
      exact fun _ => sharedMemoryFile_spec h₂ path _

/-- The slots of a file that are compared with a function hold it or NULL. -/
theorem read_eq_sharedMemory (hsound : Sound s file)
    (hread : file.ops.read.word env = env.address .sharedMemoryRead) :
    ∃ m, file.privateData.sharedMemory? = some m := by
  obtain ⟨word, hops⟩ := hsound.ops
  rw [hops] at hread
  cases hdata : file.privateData with
  | sharedMemory m => exact ⟨m, rfl⟩
  | channel | inputDevice | process =>
    rw [hdata] at hread
    exact absurd hread.symm (env.address_ne_zero _)
  | channelFile | inputFile =>
    rw [hdata] at hread
    exact absurd (env.address_injective hread) (by decide)

theorem sharedMemoryOpen_spec (h : Inv s) (p : ProcessId) (path : Option Path) (size fd : Word) :
    Preserves (sharedMemoryOpen env s p path size fd) := by
  unfold sharedMemoryOpen
  split
  · exact h
  · split
    · exact h
    · split
      · rename_i f hpath
        rw [Preserves, ensures_bind]
        refine load_spec.mono fun file hfile => ?_
        split
        · exact h
        · rename_i hread
          obtain ⟨m, hm⟩ := read_eq_sharedMemory (h.sound f file hfile) (not_not.mp hread)
          obtain ⟨hinv, -⟩ := h.modifyFile f
            (g := fun file => { file with refCount := file.refCount + 1 }) (fun _ => rfl)
            fun _ => rfl
          simp only [ensures_bind, ensures_assert, use_eq hm, ensures_ok]
          exact fun _ => hinv.of_core fdTableOpen_core
      · rename_i path _ _ _
        rw [Preserves, ensures_bind]
        refine (sharedMemoryCreate_spec h path size).mono fun r hr => ?_
        rw [ensures_bind, ensures_assert]
        exact fun _ => hr.of_core fdTableOpen_core

theorem inputDeviceCreate_spec (h : Inv s) (path : Option Path) (type : BitVec 32) :
    Preserves (inputDeviceCreate env s path type) := by
  unfold inputDeviceCreate
  split
  · rename_i heq
    exact h.kmalloc heq
  · rename_i s₁ heq
    have h₁ : Inv s₁ := h.kmalloc heq
    rw [Preserves, ensures_bind]
    refine (openFile_spec ?_ (.of_ops ?_ ?_) _).mono fun r hr => hr.inv.of_core rfl
    · exact h₁.of_core rfl
    · exact ⟨0, rfl⟩
    · rfl

theorem inputFileOpen_spec (h : Inv s) (hfile : fileAt s f = some file)
    (hdevice : file.privateData.inputDevice?.isSome) (p : ProcessId) (flags : BitVec 32) :
    Preserves (inputFileOpen env s p f flags) := by
  obtain ⟨d, hd⟩ := Option.isSome_iff_exists.mp hdevice
  unfold inputFileOpen
  simp only [Preserves, kmalloc, ensures_bind, ensures_assert, load_eq hfile, use_eq hd, ensures_ok]
  intro _ _
  refine (openFile_spec ?_ (.of_ops ?_ ?_) _).mono fun r hr => ?_
  · exact h.of_core rfl
  · exact ⟨0, rfl⟩
  · rfl
  · intro _
    refine getFile_spec.mono fun f' _ => ?_
    refine Inv.of_core (Inv.modifyFile (hr.inv.of_core rfl) f' ?_ ?_).1 fdTableOpen_core
    · exact fun _ => rfl
    · exact fun _ => rfl

/-- Only input devices have a function in the slot of `open`. -/
theorem open_of_sound (hsound : Sound s file) :
    (file.ops.open' = .function .inputFileOpen ∧ file.privateData.inputDevice?.isSome) ∨
      (file.privateData.inputDevice? = none ∧
        ∀ operation, file.ops.open' ≠ .function operation) := by
  obtain ⟨word, hops⟩ := hsound.ops
  rw [hops]
  cases file.privateData with
  | inputDevice => exact .inl ⟨rfl, rfl⟩
  | _ => exact .inr ⟨rfl, nofun⟩

theorem fileOpen_spec (h : Inv s) (p : ProcessId) (path : Option Path) (fd : Word)
    (flags : BitVec 32) (hfits : Fitting env s (.fileOpen p path fd flags)) :
    Preserves (fileOpen env s p path fd flags) := by
  unfold fileOpen
  split
  · exact h
  · split
    · exact h
    · rename_i hfd
      split
      · exact h
      · rename_i f hpath
        rw [Preserves, ensures_bind]
        refine load_spec.mono fun file hfile => ?_
        split
        · exact h
        · rename_i hword
          have hdevice := (hfits hfd f file hpath hfile).resolve_right hword
          rcases open_of_sound (h.sound f file hfile) with ⟨hopen, -⟩ | ⟨hnone, -⟩
          · rw [hopen]
            exact inputFileOpen_spec h hfile hdevice p flags
          · rw [hnone] at hdevice
            cases hdevice

/-! ## Calls through descriptors -/

/-- The endpoint of a file, and its channel. -/
theorem channelFile_spec (hsound : Sound s file) (he : file.privateData = .channelFile e) :
    ∃ source, fileAt s (s.channelFiles e).sourceChannel = some source ∧
      ∃ c, source.privateData.channel? = some c := by
  obtain ⟨-, source, hsource, hchannel⟩ := hsound.source e he
  exact ⟨source, hsource, Option.isSome_iff_exists.mp hchannel⟩

theorem channelFileWrite_spec (hsound : Sound s file) (he : file.privateData = .channelFile e) :
    channelFileWrite s file = .ok (none, s) := by
  obtain ⟨source, hsource, c, hc⟩ := channelFile_spec hsound he
  unfold channelFileWrite
  rw [use_eq (congrArg PrivateData.channelFile? he)]
  show (load s (s.channelFiles e).sourceChannel >>= _) = _
  rw [load_eq hsource]
  show (source.use PrivateData.channel? >>= _) = _
  rw [use_eq hc]
  rfl

/-- The functions of a file are for what its `private_data` points to. -/
theorem callOperation_spec (h : Inv s) (hsound : Sound s file) {slot : Slot}
    (hslot : slot = file.ops.read ∨ slot = file.ops.write ∨ slot = file.ops.close) (size : Word) :
    Preserves (callOperation s file slot size) := by
  obtain ⟨word, hops⟩ := hsound.ops
  rw [hops] at hslot
  cases hdata : file.privateData with
  | channel | inputDevice | process =>
    rw [hdata] at hslot
    rcases hslot with rfl | rfl | rfl <;> trivial
  | sharedMemory =>
    rw [hdata] at hslot
    rcases hslot with rfl | rfl | rfl <;> trivial
  | channelFile e =>
    rw [hdata] at hslot
    rcases hslot with rfl | rfl | rfl
    · show Ensures Halts (file.use PrivateData.channelFile? >>= _) _
      rw [use_eq (congrArg PrivateData.channelFile? hdata)]
      exact h
    · show Ensures Halts (channelFileWrite s file) _
      rw [channelFileWrite_spec hsound hdata]
      exact h
    · exact h
  | inputFile i =>
    rw [hdata] at hslot
    rcases hslot with rfl | rfl | rfl
    · show Ensures Halts (if size < 8 then _ else file.use PrivateData.inputFile? >>= _) _
      rw [use_eq (congrArg PrivateData.inputFile? hdata)]
      split <;> exact h
    · trivial
    · trivial

theorem fileCall_spec (h : Inv s) (p : ProcessId) (fd size : Word) {slot : FileOps → Slot}
    (hslot : ∀ ops, slot ops = ops.read ∨ slot ops = ops.write ∨ slot ops = ops.close) :
    Preserves (fileCall env s p fd size slot) := by
  unfold fileCall
  split
  · exact h
  · trivial
  · rw [Preserves, ensures_bind]
    refine load_spec.mono fun file hfile => ?_
    rw [ensures_bind, ensures_assert]
    exact fun _ => callOperation_spec h (h.sound _ file hfile) (hslot file.ops) size

theorem fileRead_spec (h : Inv s) (p : ProcessId) (fd buffer size : Word) :
    Preserves (fileRead env s p fd buffer size) := by
  unfold fileRead
  split
  · exact h
  · exact fileCall_spec h p fd size fun _ => .inl rfl

theorem fileWrite_spec (h : Inv s) (p : ProcessId) (fd buffer size : Word) :
    Preserves (fileWrite env s p fd buffer size) := by
  unfold fileWrite
  split
  · exact h
  · exact fileCall_spec h p fd size fun _ => .inr (.inl rfl)

theorem fileClose_spec (h : Inv s) (p : ProcessId) (fd : Word) :
    Preserves (fileClose env s p fd) := by
  unfold fileClose
  split
  · exact h
  · exact fileCall_spec h p fd 0 fun _ => .inr (.inr rfl)

theorem fdFile_spec (h : Inv s) : Ensures Halts (fdFile s p fd) fun file => Sound s file := by
  unfold fdFile
  split
  · trivial
  · trivial
  · exact load_spec.mono fun file hfile => h.sound _ file hfile

theorem channelSend_spec (h : Inv s) (p : ProcessId) (fd data size : Word) :
    Preserves (channelSend env s p fd data size) := by
  unfold channelSend
  split
  · exact h
  · rw [Preserves, ensures_bind]
    refine (fdFile_spec h).mono fun file hsound => ?_
    rw [ensures_bind, ensures_assert]
    exact fun _ => callOperation_spec h hsound (.inr (.inl rfl)) size

theorem channelRecv_spec (h : Inv s) (p : ProcessId) (fd data size : Word) :
    Preserves (channelRecv env s p fd data size) := by
  unfold channelRecv
  split
  · exact h
  · rw [Preserves, ensures_bind]
    refine (fdFile_spec h).mono fun file hsound => ?_
    rw [ensures_bind, ensures_assert]
    exact fun _ => callOperation_spec h hsound (.inl rfl) size

/-- A file with the `read` of a channel is an endpoint. -/
theorem read_eq_channelFile (hsound : Sound s file)
    (hread : file.ops.read.word env = env.address .channelFileRead) :
    ∃ e, file.privateData = .channelFile e := by
  obtain ⟨word, hops⟩ := hsound.ops
  rw [hops] at hread
  cases hdata : file.privateData with
  | channelFile e => exact ⟨e, rfl⟩
  | channel | inputDevice | process =>
    rw [hdata] at hread
    exact absurd hread.symm (env.address_ne_zero _)
  | sharedMemory | inputFile =>
    rw [hdata] at hread
    exact absurd (env.address_injective hread) (by decide)

theorem channelFileOf_spec (h : Inv s) (p : ProcessId) (channelFd : Word) :
    Ensures Halts (channelFileOf env s p channelFd) fun _ => True := by
  unfold channelFileOf
  rw [ensures_bind]
  refine (fdFile_spec h).mono fun file hsound => ?_
  rw [ensures_bind, ensures_assert]
  intro hread
  obtain ⟨e, he⟩ := read_eq_channelFile hsound (of_decide_eq_true hread)
  obtain ⟨source, hsource, c, hc⟩ := channelFile_spec hsound he
  simp only [ensures_bind, use_eq (congrArg PrivateData.channelFile? he), ensures_ok,
    load_eq hsource, use_eq hc, ensures_pure]

/-- A message to another endpoint. -/
theorem Inv.setMessages (h : Inv s) {messages : List FdMessage}
    (hmessages : ∀ message ∈ messages, IsProcess s message.processFd) :
    Inv { s with fdMessages := Function.update s.fdMessages e messages } where
  fits := h.fits
  sound f file hfile := (h.sound f file hfile).grows (Grows.refl s) (Nat.le_refl _) fun _ _ => rfl
  handles := h.handles
  messages e' message hmessage := by
    dsimp only at hmessage
    by_cases he : e' = e
    · rw [he, Function.update_self] at hmessage
      exact hmessages message hmessage
    · rw [Function.update_of_ne he] at hmessage
      exact h.messages e' message hmessage

theorem fanOut_spec (h : Inv s) {message : FdMessage} (hmessage : IsProcess s message.processFd)
    (sender : EndpointId) (endpoints : List EndpointId) :
    Inv (fanOut env sender message endpoints s) := by
  induction endpoints generalizing s with
  | nil => exact h
  | cons e rest ih =>
    unfold fanOut
    split
    · exact ih h hmessage
    · have hkmalloc : Inv (kmalloc env s).2 := h.of_core rfl
      have hmessage₁ : IsProcess (kmalloc env s).2 message.processFd := hmessage
      split
      · rename_i heq
        rw [heq] at hkmalloc hmessage₁
        exact ih hkmalloc hmessage₁
      · rename_i s₁ heq
        rw [heq] at hkmalloc hmessage₁
        refine ih (hkmalloc.setMessages fun m hm => ?_) hmessage₁
        rcases List.mem_append.mp hm with hold | hnew
        · exact hkmalloc.messages e m hold
        · exact List.mem_singleton.mp hnew ▸ hmessage₁

theorem channelSendFd_spec (h : Inv s) (hp : p < s.processCount) (channelFd fd : Word) :
    Preserves (channelSendFd env s p channelFd fd) := by
  unfold channelSendFd
  split
  · exact h
  · rw [Preserves, ensures_bind]
    refine (channelFileOf_spec h p channelFd).mono fun r _ => ?_
    simp only [kmalloc, ensures_bind, ensures_assert, ensures_pure]
    intro _ _
    refine fanOut_spec (h.of_core ?_) ?_ r.1 _
    · rfl
    · exact h.handles p hp

theorem receiveFd_spec (h : Inv s) (p : ProcessId) (e : EndpointId) :
    Preserves (receiveFd env s p e) := by
  unfold receiveFd
  split
  · trivial
  · rename_i message rest hqueue
    have hmessages := h.messages e
    rw [hqueue] at hmessages
    split
    · trivial
    · trivial
    · rename_i f hget
      obtain ⟨file, hfile, hprocess⟩ := hmessages message List.mem_cons_self
      obtain ⟨source, hsource⟩ := Option.isSome_iff_exists.mp hprocess
      rw [fileTableGet_some hget]
      simp only [Preserves, ensures_bind, load_eq hfile, ensures_ok, use_eq hsource]
      split
      · trivial
      · trivial
      · rename_i file _
        simp only [ensures_bind, ensures_assert, ensures_pure]
        intro _
        have hcore : (fdTableOpen env s p file).2.core = s.core := fdTableOpen_core
        have hgrows : Grows s (fdTableOpen env s p file).2 := by
          intro f file hfile
          refine ⟨file, ?_, rfl, rfl⟩
          unfold fileAt
          rw [core_fileTable hcore]
          exact hfile
        exact (h.of_core hcore).setMessages fun m hm =>
          hgrows.isProcess (hmessages m (List.mem_cons_of_mem _ hm))

theorem channelRecvFd_spec (h : Inv s) (p : ProcessId) (channelFd fd : Word) :
    Preserves (channelRecvFd env s p channelFd fd) := by
  unfold channelRecvFd
  split
  · exact h
  · rw [Preserves, ensures_bind]
    refine (channelFileOf_spec h p channelFd).mono fun r _ => ?_
    obtain ⟨e, c⟩ := r
    dsimp only
    split
    · exact h
    · exact receiveFd_spec h p e

theorem processMmapShared_spec (h : Inv s) (p : ProcessId) (fd : Word) :
    Preserves (processMmapShared env s p fd) := by
  unfold processMmapShared
  simp only [Preserves, ensures_bind, ensures_assert]
  intro _
  refine (fdFile_spec h).mono fun file hsound => ?_
  intro hread _ _
  obtain ⟨m, hm⟩ := read_eq_sharedMemory hsound (of_decide_eq_true hread)
  rw [use_eq hm]
  exact h

/-- A call that finds what fits keeps the invariant, and is no confusion. -/
theorem exec_spec {a : Action} (h : Inv s) (ha : Enabled s a) (hfits : Fitting env s a) :
    Preserves (exec env s a) := by
  cases a with
  | processInit => exact processInit_spec h
  | inputDeviceCreate path type => exact inputDeviceCreate_spec h path type
  | sharedMemoryCreateFromContiguousPages path size =>
    exact sharedMemoryCreateFromContiguousPages_spec h path size
  | channelOpen p path fd flags => exact channelOpen_spec h p path fd flags hfits
  | sharedMemoryOpen p path size fd => exact sharedMemoryOpen_spec h p path size fd
  | fileOpen p path fd flags => exact fileOpen_spec h p path fd flags hfits
  | fileRead p fd buffer size => exact fileRead_spec h p fd buffer size
  | fileWrite p fd buffer size => exact fileWrite_spec h p fd buffer size
  | fileClose p fd => exact fileClose_spec h p fd
  | channelSend p fd data size => exact channelSend_spec h p fd data size
  | channelRecv p fd data size => exact channelRecv_spec h p fd data size
  | channelSendFd p channelFd fd => exact channelSendFd_spec h (ha p rfl) channelFd fd
  | channelRecvFd p channelFd fd => exact channelRecvFd_spec h p channelFd fd
  | resume p e =>
    show Preserves (if (s.fdMessages e).isEmpty then .ok (none, s) else receiveFd env s p e)
    split
    · exact h
    · exact receiveFd_spec h p e
  | processMmapShared p fd => exact processMmapShared_spec h p fd

/-! ## Safe calls -/

theorem Ensures.typeSafe {a : Action} (h : Preserves (exec env s a))
    (hother : OtherKind s a → exec env s a = .ok (some (-1), s)) : TypeSafe env s a :=
  ⟨fun herror => h.allowed herror, fun herror => h.allowed herror, hother⟩

/-- `shared_memory_open` refuses what is no shared memory. -/
theorem sharedMemoryOpen_other (h : Inv s) {path : Option Path}
    (hother : OtherKind s (.sharedMemoryOpen p path size fd)) :
    sharedMemoryOpen env s p path size fd = .ok (some (-1), s) := by
  cases path with
  | none => exact hother.elim
  | some path =>
    obtain ⟨hfd, f, file, hpath, hfile, hnone⟩ := hother
    unfold sharedMemoryOpen
    dsimp only
    rw [if_neg hfd, hpath]
    dsimp only
    rw [load_eq hfile]
    show (if file.ops.read.word env ≠ env.address .sharedMemoryRead then _ else _ : Result) = _
    rw [if_pos fun hread => ?_]
    · rfl
    · obtain ⟨m, hm⟩ := read_eq_sharedMemory (h.sound f file hfile) hread
      rw [hm] at hnone
      cases hnone

/-- Of a file that is no input device, `file_open` calls what the slot holds. -/
theorem fileOpen_other (h : Inv s) {path : Path} (hfd : fd ≠ 0) (hpath : s.pathTable path = some f)
    (hfile : fileAt s f = some file) (hnone : file.privateData.inputDevice? = none)
    (flags : BitVec 32) : fileOpen env s p (some path) fd flags =
      if file.ops.open'.word env = 0 then .ok (some (-1), s) else .error .wildCall := by
  unfold fileOpen
  dsimp only
  rw [if_neg hfd, hpath]
  dsimp only
  rw [load_eq hfile]
  show (if file.ops.open'.word env = 0 then _ else _ : Result) = _
  split
  · rfl
  · split
    · rename_i hopen
      rcases open_of_sound (h.sound f file hfile) with ⟨-, hsome⟩ | ⟨-, hnot⟩
      · rw [hnone] at hsome
        cases hsome
      · exact absurd hopen (hnot _)
    · rfl

/-- `channel_open` does not return where it takes something else for a channel. -/
theorem channelOpen_other {path : Path} (hfd : fd ≠ 0) (hpath : s.pathTable path = some f)
    (hfile : fileAt s f = some file) (hnone : file.privateData.channel? = none)
    (flags : BitVec 32) :
    Ensures (fun _ => True) (channelOpen env s p (some path) fd flags) fun _ => False := by
  let count (file : File) : File := { file with refCount := file.refCount + 1 }
  have hat : fileAt (modifyFile s f count) f = some (count file) := by
    rw [fileAt_modifyFile, if_pos rfl, hfile]
    rfl
  have hload (kmallocs : Nat) :
      load { modifyFile s f count with kmallocs } f = .ok (count file) := load_eq hat
  have huse : (count file).use PrivateData.channel? = .error .typeConfusion := use_none hnone
  unfold channelOpen channelAt
  dsimp only
  rw [if_neg hfd, hpath]
  dsimp only
  rw [load_eq hfile]
  show Ensures _ (channelFileCreate env (modifyFile s f count) p f flags) _
  unfold channelFileCreate
  simp only [kmalloc, ensures_bind, hload, huse, ensures_ok, ensures_error]
  unfold assert
  split <;> trivial

/-- In a state that is sound, a call is safe exactly if it fits. -/
theorem typeSafe_iff {a : Action} (h : Inv s) (ha : Enabled s a) :
    TypeSafe env s a ↔ Fitting env s a := by
  constructor
  · intro hsafe
    cases a with
    | channelOpen p path fd flags =>
      cases path with
      | none => trivial
      | some path =>
        intro hfd f file hpath hfile
        by_contra hnot
        have hnone := Option.not_isSome_iff_eq_none.mp hnot
        have hreturns := hsafe.2.2 ⟨hfd, f, file, hpath, hfile, hnone⟩
        have hconfused : Ensures (fun _ => True) (channelOpen env s p (some path) fd flags)
            fun _ => False := channelOpen_other hfd hpath hfile hnone flags
        exact hconfused.result hreturns
    | fileOpen p path fd flags =>
      cases path with
      | none => trivial
      | some path =>
        intro hfd f file hpath hfile
        by_contra hnot
        obtain ⟨hdevice, hword⟩ := not_or.mp hnot
        refine hsafe.2.1 ?_
        show fileOpen env s p (some path) fd flags = _
        rw [fileOpen_other h hfd hpath hfile (Option.not_isSome_iff_eq_none.mp hdevice),
          if_neg hword]
    | _ => trivial
  · intro hfits
    refine Ensures.typeSafe (exec_spec h ha hfits) fun hother => ?_
    cases a with
    | channelOpen p path fd flags =>
      cases path with
      | none => exact hother.elim
      | some path =>
        obtain ⟨hfd, f, file, hpath, hfile, hnone⟩ := hother
        have hsome := hfits hfd f file hpath hfile
        rw [hnone] at hsome
        cases hsome
    | sharedMemoryOpen p path size fd => exact sharedMemoryOpen_other h hother
    | fileOpen p path fd flags =>
      cases path with
      | none => exact hother.elim
      | some path =>
        obtain ⟨hfd, f, file, hpath, hfile, hnone⟩ := hother
        have hword : file.ops.open'.word env = 0 := by
          refine (hfits hfd f file hpath hfile).resolve_left ?_
          rw [hnone]
          exact Bool.false_ne_true
        show fileOpen env s p (some path) fd flags = _
        rw [fileOpen_other h hfd hpath hfile hnone, if_pos hword]
    | _ => exact hother.elim

theorem init_inv : Inv State.init where
  fits := ⟨by decide, Nat.zero_le _, by decide⟩
  sound _ _ hfile := absurd hfile nofun
  handles _ hp := absurd hp (Nat.not_lt_zero _)
  messages _ _ hmessage := absurd hmessage List.not_mem_nil

end

/-- In every run, with any action tried in the end: all calls use files as what
they are, call what was assigned, and refuse paths of another kind, exactly
if `channel_open` only ever comes upon channels, and `file_open` upon input
devices or slots that hold NULL. -/
theorem globalPaths_safe_iff (env : Env) (history : List (State × Action)) (s : State) (a : Action)
    (h : Run (· = State.init) (Step env) history s) (ha : Enabled s a) :
    (∀ q ∈ (s, a) :: history, TypeSafe env q.1 q.2) ↔
      ∀ q ∈ (s, a) :: history, Fitting env q.1 q.2 := by
  have hinit : ∀ s, s = State.init → Inv s := fun s hs => hs ▸ init_inv
  refine h.tried_iff ha hinit ?_ ?_ ?_
  · rintro s a s' hinv hfits ⟨henabled, value, hexec⟩
    exact (exec_spec hinv henabled hfits).result hexec
  · exact fun s a s' hstep => hstep.1
  · exact fun s a hinv henabled => typeSafe_iff hinv henabled

/-- A kernel that has memory, with functions of 64 bytes. -/
def Env.plain : Env where
  kmallocOk _ := true
  pagesOk _ := true
  stack _ := 0x1000
  address operation := BitVec.ofNat 64 (0x80000 + 64 * operation.ctorIdx)
  address_ne_zero operation := by cases operation <;> decide
  address_injective := by
    intro a b h
    cases a <;> cases b <;> first | rfl | exact absurd h (by decide)

/-- The state after an action of this kernel. -/
def after (s : State) (a : Action) : State := (exec .plain s a).toOption.elim s Prod.snd

/-- A process opens a channel, and then another endpoint of it. -/
theorem secondEndpoint_safe : ∃ s, s.channelFileCount = 1 ∧
    TypeSafe .plain s (.channelOpen 0 (some [120]) 8 0) := by
  let open₁ : Action := .channelOpen 0 (some [120]) 8 0
  let s₁ : State := after State.init .processInit
  let s₂ : State := after s₁ open₁
  have h₁ : Run (· = State.init) (Step .plain) [(State.init, .processInit)] s₁ :=
    .next (.start rfl) ⟨nofun, some 0, rfl⟩
  have henabled {s : State} (hs : s.processCount = 1) : Enabled s open₁ := by
    rintro p ⟨⟩
    rw [hs]
    exact Nat.zero_lt_one
  have h₂ : Run (· = State.init) (Step .plain) [(s₁, open₁), (State.init, .processInit)] s₂ :=
    .next h₁ ⟨henabled rfl, some 0, rfl⟩
  refine ⟨s₂, rfl, (globalPaths_safe_iff .plain _ s₂ open₁ h₂ (henabled rfl)).mpr
    (fun q hq => ?_) _ List.mem_cons_self⟩
  rcases List.mem_cons.mp hq with rfl | hq
  · intro _ f file hpath hfile
    obtain rfl : 1 = f := Option.some.inj hpath
    obtain rfl := Option.some.inj hfile
    rfl
  · rcases List.mem_cons.mp hq with rfl | hq
    · exact fun _ f file hpath _ => absurd hpath nofun
    · rw [List.mem_singleton.mp hq]
      trivial

/-- The path of a region of shared memory opened as a channel, and as a file:
the region is taken for a channel, and what the stack held is called. -/
theorem sharedMemory_confused : ∃ history s, Run (· = State.init) (Step .plain) history s ∧
    Enabled s (.channelOpen 0 (some [120]) 8 0) ∧
    exec .plain s (.channelOpen 0 (some [120]) 8 0) = .error .typeConfusion ∧
    exec .plain s (.fileOpen 0 (some [120]) 8 0) = .error .wildCall ∧
    ¬TypeSafe .plain s (.channelOpen 0 (some [120]) 8 0) := by
  let create : Action := .sharedMemoryOpen 0 (some [120]) 4096 8
  let s₁ : State := after State.init .processInit
  have h₁ : Run (· = State.init) (Step .plain) [(State.init, .processInit)] s₁ :=
    .next (.start rfl) ⟨nofun, some 0, rfl⟩
  have hprocess : ∀ p ∈ some 0, p < 1 := by
    rintro p ⟨⟩
    exact Nat.zero_lt_one
  have h₂ : Run (· = State.init) (Step .plain) [(s₁, create), (State.init, .processInit)]
      (after s₁ create) := .next h₁ ⟨hprocess, some 0, rfl⟩
  exact ⟨_, _, h₂, hprocess, rfl, rfl, fun hsafe => hsafe.1 rfl⟩

end ZOs.GlobalPaths
