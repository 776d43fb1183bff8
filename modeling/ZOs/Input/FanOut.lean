import ZOs.Lib.Ensures
import ZOs.Lib.Run
import ZOs.Usb.RingBuffer

/-!
# Input devices and their readers

`input_device.c` and `input_file.c`. An event that is emitted on a device
goes to every file that has been opened on it; each file has a ring of its
own, drops what does not fit and wakes the threads that wait for it. A file
is as good as a queue of its own: what has been read from it and what is
pending in it are the events it had room for, whatever the other readers do.
-/

namespace ZOs.Input

open Runs Utils Checked

/-- Which device an `input_device_t *` points to. -/
abbrev DeviceId := Nat

/-- Which file an `input_file_t *` points to. -/
abbrev FileId := Nat

abbrev ThreadId := Nat

/-- `INPUT_FILE_EVENT_BUFFER_SIZE`. -/
def inputFileEventBufferSize : Nat := 200

/-- `sizeof(input_device_event_t)`. -/
def inputDeviceEventSize : Nat := 8

variable {α β : Type}

/-! ## State -/

/-- `input_file_t` with the `O_NONBLOCK` of its file, for events `α`. -/
structure InputFile (α : Type) where
  inputDevice : DeviceId
  nonblock : Bool
  eventWaiters : List ThreadId
  eventRingBuffer : RingBuffer α

/-- The files on the list of each device, the files created so far, and the
threads that have been woken up and have not gone on yet. -/
structure System (α : Type) where
  inputFiles : DeviceId → List FileId
  file : FileId → InputFile α
  created : Nat
  woken : FileId → List ThreadId

/-- An assertion that fails. -/
inductive Fault
  | enqueue
  | dequeue
  | memory
  deriving DecidableEq

/-- How a read ends: with a code and an event, or waiting for one. -/
inductive ReadResult (α : Type)
  | returned (code : Int) (event : Option α)
  | blocked

def System.setFile (s : System α) (f : FileId) (file : InputFile α) : System α :=
  { s with file := Function.update s.file f file }

/-- The events pending in a file, the oldest first. -/
def System.pending (s : System α) (f : FileId) : List α := (s.file f).eventRingBuffer.toList

/-! ## Emitting -/

/-- `input_file_emit`. -/
def inputFileEmit (f : FileId) (event : α) (s : System α) : Except Fault (Int × System α) :=
  let file := s.file f
  if file.eventRingBuffer.isFull then .ok (-1, s)
  else
    let r := file.eventRingBuffer.enqueue event
    if r.1 = 0 then
      .ok (0, { s.setFile f { file with eventWaiters := [], eventRingBuffer := r.2 } with
        woken := Function.update s.woken f (s.woken f ++ file.eventWaiters) })
    else .error .enqueue

/-- The loop of `input_device_emit`. -/
def emitAll (event : α) : List FileId → System α → Except Fault (System α)
  | [], s => .ok s
  | f :: fs, s =>
    match inputFileEmit f event s with
    | .error fault => .error fault
    | .ok (_, s) => emitAll event fs s

/-- `input_device_emit`. -/
def inputDeviceEmit (device : Option DeviceId) (event : Option α) (s : System α) :
    Except Fault (Int × System α) :=
  match device, event with
  | some device, some event => (emitAll event (s.inputFiles device) s).map fun s => (0, s)
  | _, _ => .ok (-1, s)

/-! ## Opening and reading -/

/-- `input_file_open` with `input_file_create` and `input_device_open`, as far
as the file is concerned; `entries` is what the cleared buffer reads as, and
`memory` says whether `kmalloc` has what is needed. -/
def inputFileOpen (device : DeviceId) (nonblock : Bool) (entries : Nat → α) (memory : Bool)
    (s : System α) : Except Fault (System α) :=
  if memory then
    .ok { s.setFile s.created ⟨device, nonblock, [], .init entries inputFileEventBufferSize⟩ with
      inputFiles := Function.update s.inputFiles device (s.inputFiles device ++ [s.created])
      created := s.created + 1 }
  else .error .memory

/-- `input_file_read` from the dequeue on. -/
def inputFileDequeue (f : FileId) (s : System α) : Except Fault (ReadResult α × System α) :=
  match (s.file f).eventRingBuffer.dequeue with
  | none => .error .dequeue
  | some (event, ring) =>
    .ok (.returned inputDeviceEventSize (some event),
      s.setFile f { s.file f with eventRingBuffer := ring })

/-- The loop of `input_file_read`, and what follows it. -/
def inputFileReadLoop (f : FileId) (thread : ThreadId) (memory : Bool) (s : System α) :
    Except Fault (ReadResult α × System α) :=
  if (s.file f).eventRingBuffer.isEmpty then
    -- assert(linked_list_insert(&input_file->event_waiters, thread, &node) == 0)
    if memory then
      .ok (.blocked,
        s.setFile f { s.file f with eventWaiters := (s.file f).eventWaiters ++ [thread] })
    else .error .memory
  else inputFileDequeue f s

/-- `input_file_read` into `size` bytes at `buffer`. -/
def inputFileRead (f : FileId) (thread : ThreadId) (buffer size : Nat) (memory : Bool)
    (s : System α) : Except Fault (ReadResult α × System α) :=
  if buffer = 0 ∨ size = 0 then .ok (.returned (-1) none, s)
  else if size < inputDeviceEventSize then .ok (.returned (-1) none, s)
  else if (s.file f).nonblock then
    if (s.file f).eventRingBuffer.isEmpty then .ok (.returned (-1) none, s)
    else inputFileDequeue f s
  else inputFileReadLoop f thread memory s

/-- A thread that has been woken up goes on in the loop. -/
def inputFileResume (f : FileId) (thread : ThreadId) (memory : Bool) (s : System α) :
    Except Fault (ReadResult α × System α) :=
  inputFileReadLoop f thread memory
    { s with woken := Function.update s.woken f ((s.woken f).erase thread) }

/-! ## Runs -/

inductive Action (α : Type)
  | open (device : DeviceId) (nonblock : Bool) (entries : Nat → α) (memory : Bool)
  | emit (device : Option DeviceId) (event : Option α)
  | read (f : FileId) (thread : ThreadId) (buffer size : Nat) (memory : Bool)
  | resume (f : FileId) (thread : ThreadId) (memory : Bool)

/-- Reads are of files that have been opened, and only who has been woken up
goes on. -/
def Allowed (s : System α) : Action α → Prop
  | .open .. => True
  | .emit .. => True
  | .read f .. => f < s.created
  | .resume f thread _ => f < s.created ∧ thread ∈ s.woken f

/-- The event that a read hands over. -/
def ReadResult.event : ReadResult α → List α
  | .returned _ event => event.toList
  | .blocked => []

/-- What an action hands to a reader, and the state it leads to. -/
def exec (s : System α) : Action α → Except Fault (List α × System α)
  | .open device nonblock entries memory =>
    (inputFileOpen device nonblock entries memory s).map fun s => ([], s)
  | .emit device event => (inputDeviceEmit device event s).map fun r => ([], r.2)
  | .read f thread buffer size memory =>
    (inputFileRead f thread buffer size memory s).map fun r => (r.1.event, r.2)
  | .resume f thread memory =>
    (inputFileResume f thread memory s).map fun r => (r.1.event, r.2)

def Step (s : System α) (a : Action α) (s' : System α) : Prop :=
  Allowed s a ∧ ∃ events, exec s a = .ok (events, s')

/-- Before any file is opened. -/
def Start (s : System α) : Prop :=
  s.created = 0 ∧ (∀ d, s.inputFiles d = []) ∧ ∀ f, s.woken f = []

/-! ## What a reader sees -/

/-- The file that an action reads from. -/
def Action.reader : Action α → Option FileId
  | .read f .. => some f
  | .resume f .. => some f
  | _ => none

/-- The events that an action reads from a file. -/
def delivered (f : FileId) (s : System α) (a : Action α) : List α :=
  if a.reader = some f then
    match exec s a with
    | .ok (events, _) => events
    | .error _ => []
  else []

/-- The event that an action emits on the device of an open file, at a moment
when the file has room. -/
def accepted (f : FileId) (s : System α) : Action α → List α
  | .emit (some device) (some event) =>
    if f < s.created ∧ (s.file f).inputDevice = device ∧
        (s.pending f).length < inputFileEventBufferSize then [event]
    else []
  | _ => []

/-- A list for each action of a history, the latest last. -/
def overHistory (g : System α → Action α → List β) : List (System α × Action α) → List β
  | [] => []
  | (s, a) :: history => overHistory g history ++ g s a

/-- What concerns one file. -/
inductive Own (α : Type)
  | emit (event : α)
  | read

/-- What an action means to a file: an event on its device, or a look into
its ring. -/
def own (f : FileId) (s : System α) : Action α → List (Own α)
  | .emit (some device) (some event) =>
    if f < s.created ∧ (s.file f).inputDevice = device then [.emit event] else []
  | .read g _ buffer size _ =>
    if g = f ∧ buffer ≠ 0 ∧ inputDeviceEventSize ≤ size then [.read] else []
  | .resume g _ _ => if g = f then [.read] else []
  | _ => []

/-- A queue of its own: what has been read, and what is pending. -/
structure View (α : Type) where
  received : List α
  pending : List α

/-- Events are dropped when the queue is full. -/
def View.step (v : View α) : Own α → View α
  | .emit event =>
    if v.pending.length < inputFileEventBufferSize then
      { v with pending := v.pending ++ [event] }
    else v
  | .read =>
    match v.pending with
    | [] => v
    | event :: rest => ⟨v.received ++ [event], rest⟩

def View.run (v : View α) (actions : List (Own α)) : View α := actions.foldl View.step v

section

variable {s s' : System α} {f g : FileId} {file : InputFile α} {event : α} {events : List α}
  {a : Action α} {history : List (System α × Action α)} {r : List α}

/-! ## One file -/

@[simp] theorem setFile_file (s : System α) (f : FileId) (file : InputFile α) :
    (s.setFile f file).file = Function.update s.file f file := rfl

@[simp] theorem setFile_created (s : System α) (f : FileId) (file : InputFile α) :
    (s.setFile f file).created = s.created := rfl

@[simp] theorem setFile_inputFiles (s : System α) (f : FileId) (file : InputFile α) :
    (s.setFile f file).inputFiles = s.inputFiles := rfl

/-- The ring of a file is in order. -/
structure InputFile.Sound (file : InputFile α) : Prop where
  holds : file.eventRingBuffer.Holds file.eventRingBuffer.toList
  size : file.eventRingBuffer.ringSize = inputFileEventBufferSize

/-- At most the file `f` has changed, and no file has changed its device. -/
structure OnlyFile (f : FileId) (s s' : System α) : Prop where
  files : s'.inputFiles = s.inputFiles
  created : s'.created = s.created
  device : (s'.file f).inputDevice = (s.file f).inputDevice
  others : ∀ g ≠ f, s'.file g = s.file g

theorem OnlyFile.refl (f : FileId) (s : System α) : OnlyFile f s s :=
  ⟨rfl, rfl, rfl, fun _ _ => rfl⟩

theorem OnlyFile.of_update (hfiles : s'.inputFiles = s.inputFiles)
    (hcreated : s'.created = s.created) (hfile : s'.file = Function.update s.file f file)
    (hdevice : file.inputDevice = (s.file f).inputDevice) : OnlyFile f s s' where
  files := hfiles
  created := hcreated
  device := by simp [hfile, hdevice]
  others g hg := by simp [hfile, hg]

/-- A queue after an event: the event is dropped when the queue is full. -/
def push (queue : List α) (event : α) : List α :=
  if queue.length < inputFileEventBufferSize then queue ++ [event] else queue

theorem inputFileEmit_spec (event : α) (hf : (s.file f).Sound) :
    ∃ code s', inputFileEmit f event s = .ok (code, s') ∧ OnlyFile f s s' ∧ (s'.file f).Sound ∧
      s'.pending f = push (s.pending f) event := by
  have hroom := hf.holds.room
  rw [hf.size] at hroom
  by_cases hfull : (s.file f).eventRingBuffer.isFull
  · have hlength := hf.holds.isFull_iff.mp hfull
    rw [hf.size] at hlength
    refine ⟨-1, s, ?_, .refl f s, hf, ?_⟩
    · simp [inputFileEmit, hfull]
    · simp [push, System.pending, hlength]
  · have hlength : (s.pending f).length < inputFileEventBufferSize := by
      have hne := mt hf.holds.isFull_iff.mpr hfull
      rw [hf.size] at hne
      exact lt_of_le_of_ne hroom hne
    obtain ⟨ring, henqueue, hholds, hsize⟩ :=
      hf.holds.enqueue (a := event) (by rw [hf.size]; exact hlength)
    have hemit : inputFileEmit f event s = .ok (0, { s.setFile f { s.file f with
        eventWaiters := [], eventRingBuffer := ring } with
        woken := Function.update s.woken f (s.woken f ++ (s.file f).eventWaiters) }) := by
      simp [inputFileEmit, hfull, henqueue]
    have hlist : ring.toList = s.pending f ++ [event] := hholds.toList_eq
    refine ⟨0, _, hemit, OnlyFile.of_update rfl rfl rfl rfl, ?_, ?_⟩
    · constructor
      · have hring : ring.Holds ring.toList := by rwa [hlist]
        simpa using hring
      · simpa [hsize] using hf.size
    · rw [push, if_pos hlength]
      simpa [System.pending] using hlist

/-- A look into the ring of a file: the oldest event is handed over, if there
is one. -/
structure Looked (f : FileId) (s : System α) (events : List α) (s' : System α) : Prop where
  only : OnlyFile f s s'
  sound : (s'.file f).Sound
  events : events = (s.pending f).take 1
  pending : s'.pending f = (s.pending f).drop 1

theorem Looked.nothing (hf : (s.file f).Sound) (hempty : s.pending f = []) : Looked f s [] s :=
  ⟨.refl f s, hf, by simp [hempty], by simp [hempty]⟩

theorem inputFileDequeue_spec (hf : (s.file f).Sound)
    (hempty : (s.file f).eventRingBuffer.isEmpty = false) :
    ∃ result s', inputFileDequeue f s = .ok (result, s') ∧ Looked f s result.event s' := by
  have hholds := hf.holds
  cases hpending : (s.file f).eventRingBuffer.toList with
  | nil =>
    rw [hpending] at hholds
    have hcount := hholds.count
    simp [RingBuffer.isEmpty, hcount] at hempty
  | cons oldest rest =>
    rw [hpending] at hholds
    obtain ⟨ring, hdequeue, hrest, hsize⟩ := hholds.dequeue
    have hread : inputFileDequeue f s = .ok (.returned inputDeviceEventSize (some oldest),
        s.setFile f { s.file f with eventRingBuffer := ring }) := by
      simp [inputFileDequeue, hdequeue]
    refine ⟨_, _, hread, ?_⟩
    constructor
    · exact OnlyFile.of_update rfl rfl rfl rfl
    · constructor
      · simpa [hrest.toList_eq] using hrest
      · simpa [hsize] using hf.size
    · simp [ReadResult.event, System.pending, hpending]
    · simp [System.pending, hpending, hrest.toList_eq]

theorem pending_of_isEmpty (h : (s.file f).eventRingBuffer.isEmpty = true) :
    s.pending f = [] := by
  have hcount : (s.file f).eventRingBuffer.usedCount = 0 := of_decide_eq_true h
  simp [System.pending, RingBuffer.toList, hcount]

/-- The loop hands over the oldest event, or waits because there is none. -/
theorem inputFileReadLoop_spec (thread : ThreadId) (memory : Bool) (hf : (s.file f).Sound) :
    Ensures (· = .memory) (inputFileReadLoop f thread memory s) fun r =>
      Looked f s r.1.event r.2 := by
  unfold inputFileReadLoop
  cases hempty : (s.file f).eventRingBuffer.isEmpty with
  | false =>
    obtain ⟨result, s', hread, hlooked⟩ := inputFileDequeue_spec hf hempty
    simpa [hread] using hlooked
  | true =>
    have hpending := pending_of_isEmpty hempty
    cases memory with
    | false => simp
    | true =>
      simp only [if_true, ensures_ok]
      constructor
      · exact OnlyFile.of_update rfl rfl rfl rfl
      · constructor
        · simpa using hf.holds
        · simpa using hf.size
      · simp [ReadResult.event, hpending]
      · have hring : (s.file f).eventRingBuffer.toList = [] := hpending
        simp [System.pending, hring]

theorem inputFileRead_spec {thread : ThreadId} {buffer size : Nat} {memory : Bool}
    (hf : (s.file f).Sound) (hbuffer : buffer ≠ 0) (hsize : inputDeviceEventSize ≤ size) :
    Ensures (· = .memory) (inputFileRead f thread buffer size memory s) fun r =>
      Looked f s r.1.event r.2 := by
  have hpos : ¬ (buffer = 0 ∨ size = 0) := by
    simp only [inputDeviceEventSize] at hsize
    omega
  simp only [inputFileRead, if_neg hpos, if_neg (Nat.not_lt.mpr hsize)]
  cases (s.file f).nonblock with
  | false => exact inputFileReadLoop_spec thread memory hf
  | true =>
    cases hempty : (s.file f).eventRingBuffer.isEmpty with
    | true => exact Looked.nothing hf (pending_of_isEmpty hempty)
    | false =>
      obtain ⟨result, s', hread, hlooked⟩ := inputFileDequeue_spec hf hempty
      simpa [hread] using hlooked

/-- A read without a buffer, or into one that is too small, is refused. -/
theorem inputFileRead_refused {thread : ThreadId} {buffer size : Nat} {memory : Bool}
    (h : ¬ (buffer ≠ 0 ∧ inputDeviceEventSize ≤ size)) :
    inputFileRead f thread buffer size memory s = .ok (.returned (-1) none, s) := by
  unfold inputFileRead
  by_cases hnone : buffer = 0 ∨ size = 0
  · rw [if_pos hnone]
  · rw [if_neg hnone, if_pos (by omega)]

theorem inputFileResume_spec (thread : ThreadId) (memory : Bool) (hf : (s.file f).Sound) :
    Ensures (· = .memory) (inputFileResume f thread memory s) fun r =>
      Looked f s r.1.event r.2 := by
  have hloop := inputFileReadLoop_spec (s := { s with
    woken := Function.update s.woken f ((s.woken f).erase thread) }) thread memory hf
  apply Ensures.mono hloop
  intro r h
  exact ⟨⟨h.only.files, h.only.created, h.only.device, h.only.others⟩, h.sound, h.events, h.pending⟩

/-! ## All files -/

/-- Each file has a ring of its own, and is once on the list of its device. -/
structure Inv (s : System α) : Prop where
  sound : ∀ f < s.created, (s.file f).Sound
  listed : ∀ d f, f ∈ s.inputFiles d ↔ f < s.created ∧ (s.file f).inputDevice = d
  once : ∀ d, (s.inputFiles d).Nodup

theorem OnlyFile.device_eq (h : OnlyFile f s s') (g : FileId) :
    (s'.file g).inputDevice = (s.file g).inputDevice := by
  by_cases hg : g = f
  · rw [hg, h.device]
  · rw [h.others g hg]

theorem OnlyFile.inv (h : OnlyFile f s s') (hinv : Inv s) (hf : (s'.file f).Sound) : Inv s' where
  sound g hg := by
    by_cases hgf : g = f
    · rwa [hgf]
    · rw [h.others g hgf]
      exact hinv.sound g (h.created ▸ hg)
  listed d g := by rw [h.files, h.created, h.device_eq, hinv.listed]
  once d := h.files ▸ hinv.once d

/-- The loop over a list of files pushes the event on the queue of each. -/
theorem emitAll_spec (event : α) (fs : List FileId) (hinv : Inv s)
    (hcreated : ∀ f ∈ fs, f < s.created) (hnodup : fs.Nodup) :
    ∃ s', emitAll event fs s = .ok s' ∧ Inv s' ∧ s'.created = s.created ∧
      ∀ f, s'.pending f = if f ∈ fs then push (s.pending f) event else s.pending f := by
  induction fs generalizing s with
  | nil => exact ⟨s, rfl, hinv, rfl, fun f => by simp⟩
  | cons first rest ih =>
    obtain ⟨hnew, hrest⟩ := List.nodup_cons.mp hnodup
    have hfirst := hcreated first List.mem_cons_self
    obtain ⟨code, s₁, hemit, honly, hsound, hpushed⟩ :=
      inputFileEmit_spec event (hinv.sound first hfirst)
    obtain ⟨s', hloop, hinv', hcreated', hpending⟩ := ih (honly.inv hinv hsound)
      (fun f hf => honly.created ▸ hcreated f (List.mem_cons_of_mem first hf)) hrest
    refine ⟨s', ?_, hinv', hcreated'.trans honly.created, ?_⟩
    · simpa [emitAll, hemit] using hloop
    · intro f
      rw [hpending]
      by_cases hf : f = first
      · subst hf
        simp [hnew, hpushed]
      · have hsame : s₁.pending f = s.pending f := by rw [System.pending, honly.others f hf]; rfl
        simp [hf, hsame]

theorem inv_start (h : Start s) : Inv s where
  sound f hf := absurd hf (by simp [h.1])
  listed d f := by simp [h.1, h.2.1 d]
  once d := by simp [h.2.1 d]

/-! ## One step -/

/-- The queue of a file, empty as long as it is not open. -/
def System.queue (f : FileId) (s : System α) : List α := if f < s.created then s.pending f else []

/-- What an action can do to the queue of a file. -/
inductive Saw (f : FileId) (s : System α) (a : Action α) (s' : System α) : Prop
  | nothing : own f s a = [] → delivered f s a = [] → accepted f s a = [] →
      s'.queue f = s.queue f → Saw f s a s'
  | event (event : α) : own f s a = [.emit event] → delivered f s a = [] →
      accepted f s a = (if (s.queue f).length < inputFileEventBufferSize then [event] else []) →
      s'.queue f = push (s.queue f) event → Saw f s a s'
  | look : own f s a = [.read] → delivered f s a = (s.queue f).take 1 →
      accepted f s a = [] → s'.queue f = (s.queue f).drop 1 → Saw f s a s'

/-- What is read and what is left is what was there and what has been accepted. -/
theorem Saw.conserves (h : Saw f s a s') :
    s.queue f ++ accepted f s a = delivered f s a ++ s'.queue f := by
  cases h with
  | nothing hown hdelivered haccepted hqueue => simp [hdelivered, haccepted, hqueue]
  | event event hown hdelivered haccepted hqueue =>
    rw [hdelivered, haccepted, hqueue, push]
    split <;> simp
  | look hown hdelivered haccepted hqueue =>
    rw [hdelivered, haccepted, hqueue, List.append_nil, List.take_append_drop]

theorem Saw.view (h : Saw f s a s') :
    View.run ⟨r, s.queue f⟩ (own f s a) = ⟨r ++ delivered f s a, s'.queue f⟩ := by
  cases h with
  | nothing hown hdelivered haccepted hqueue => simp [hown, hdelivered, hqueue, View.run]
  | event event hown hdelivered haccepted hqueue =>
    rw [hown, hdelivered, hqueue, push]
    by_cases hroom : (s.queue f).length < inputFileEventBufferSize <;>
      simp [View.run, View.step, hroom]
  | look hown hdelivered haccepted hqueue =>
    rw [hown, hdelivered, hqueue]
    cases s.queue f <;> simp [View.run, View.step]

theorem Saw.of_emit {device : DeviceId} (hinv : Inv s) (hcreated : s'.created = s.created)
    (hpending : ∀ f, s'.pending f =
      if f ∈ s.inputFiles device then push (s.pending f) event else s.pending f) (f : FileId) :
    Saw f s (.emit (some device) (some event)) s' := by
  have hlisted := hinv.listed device f
  have hdelivered : delivered f s (.emit (some device) (some event)) = [] := by
    simp [delivered, Action.reader]
  by_cases hf : f ∈ s.inputFiles device
  · obtain ⟨hopen, hdevice⟩ := hlisted.mp hf
    apply Saw.event event _ hdelivered
    · simp [accepted, System.queue, hopen, hdevice]
    · simp [System.queue, hcreated, hopen, hpending, hf]
    · simp [own, hopen, hdevice]
  · have hother : ¬ (f < s.created ∧ (s.file f).inputDevice = device) := fun h => hf (hlisted.mpr h)
    apply Saw.nothing _ hdelivered
    · simp only [accepted, ← and_assoc]
      simp [hother]
    · simp [System.queue, hcreated, hpending, hf]
    · simp [own, hother]

theorem Saw.of_looked (honly : Looked g s events s') (hg : g < s.created)
    (hown : own g s a = [.read]) (hreader : a.reader = some g)
    (hothers : ∀ f ≠ g, own f s a = []) (hexec : exec s a = .ok (events, s'))
    (haccepted : ∀ f, accepted f s a = []) (f : FileId) : Saw f s a s' := by
  by_cases hf : f = g
  · subst hf
    apply Saw.look hown _ (haccepted f)
    · simp [System.queue, honly.only.created, hg, honly.pending]
    · simp [delivered, hreader, hexec, System.queue, hg, honly.events]
  · apply Saw.nothing (hothers f hf) _ (haccepted f)
    · simp [System.queue, System.pending, honly.only.created, honly.only.others f hf]
    · simp [delivered, hreader, Ne.symm hf]

theorem lt_created_iff (hnew : f ≠ s.created) : f < s.created + 1 ↔ f < s.created :=
  ⟨fun h => lt_of_le_of_ne (Nat.lt_succ_iff.mp h) hnew, Nat.lt_succ_of_lt⟩

/-- An open file starts with an empty ring at the end of the list of its device. -/
theorem inputFileOpen_spec (device : DeviceId) (nonblock : Bool) (entries : Nat → α)
    (hinv : Inv s) (hopen : inputFileOpen device nonblock entries true s = .ok s') :
    Inv s' ∧ ∀ f, s'.queue f = s.queue f := by
  obtain rfl := Except.ok.inj hopen
  have hempty : (RingBuffer.init entries inputFileEventBufferSize).toList = [] := rfl
  constructor
  · constructor
    · intro f hf
      by_cases hnew : f = s.created
      · subst hnew
        constructor
        · simpa [hempty] using RingBuffer.holds_init (by decide)
        · simp [RingBuffer.init]
      · have hold : f < s.created := lt_of_le_of_ne (Nat.lt_succ_iff.mp hf) hnew
        simpa [hnew] using hinv.sound f hold
    · intro d f
      have hlisted := hinv.listed d f
      by_cases hnew : f = s.created
      · have hnot : s.created ∉ s.inputFiles d := by simp [hinv.listed d]
        by_cases hd : d = device
        · simp [hnew, hd]
        · simp [hnew, hd, hnot, Ne.symm hd]
      · have hlt := lt_created_iff hnew
        by_cases hd : d = device
        · subst hd
          simp [hnew, hlisted, hlt]
        · simp [hnew, hd, hlisted, hlt]
    · intro d
      have hnot : s.created ∉ s.inputFiles d := by simp [hinv.listed d]
      by_cases hd : d = device
      · subst hd
        have hne : ∀ f ∈ s.inputFiles d, f ≠ s.created := fun f hf heq => hnot (heq ▸ hf)
        simpa [List.nodup_append, hinv.once d] using hne
      · simpa [hd] using hinv.once d
  · intro f
    by_cases hnew : f = s.created
    · subst hnew
      simp [System.queue, System.pending, hempty]
    · have hlt := lt_created_iff hnew
      simp [System.queue, System.pending, hnew, hlt]

theorem Saw.of_same (hown : own f s a = []) (hreader : a.reader ≠ some f)
    (haccepted : accepted f s a = []) (hqueue : s'.queue f = s.queue f) : Saw f s a s' :=
  .nothing hown (if_neg hreader) haccepted hqueue

theorem Saw.of_read {x : Except Fault (ReadResult α × System α)} (hinv : Inv s) (hg : g < s.created)
    (hx : Ensures (· = .memory) x fun r => Looked g s r.1.event r.2)
    (hexec : exec s a = x.map fun r => (r.1.event, r.2)) (hown : own g s a = [.read])
    (hreader : a.reader = some g) (hothers : ∀ f ≠ g, own f s a = [])
    (haccepted : ∀ f, accepted f s a = []) :
    Ensures (· = .memory) (exec s a) fun r => Inv r.2 ∧ ∀ f, Saw f s a r.2 := by
  cases x with
  | error fault => rwa [hexec]
  | ok r =>
    rw [hexec]
    exact ⟨hx.only.inv hinv hx.sound,
      Saw.of_looked hx hg hown hreader hothers hexec haccepted⟩

/-- A step keeps the files in order, and only the assertions about memory can
fail in it. -/
theorem exec_spec (hinv : Inv s) (hallowed : Allowed s a) :
    Ensures (· = .memory) (exec s a) fun r => Inv r.2 ∧ ∀ f, Saw f s a r.2 := by
  cases a with
  | «open» device nonblock entries memory =>
    cases memory with
    | false => rfl
    | true =>
      obtain ⟨hinv', hqueue⟩ := inputFileOpen_spec device nonblock entries hinv rfl
      exact ⟨hinv', fun f => .of_same rfl nofun rfl (hqueue f)⟩
  | emit device event =>
    cases device with
    | none => exact ⟨hinv, fun f => .of_same rfl nofun rfl rfl⟩
    | some device =>
      cases event with
      | none => exact ⟨hinv, fun f => .of_same rfl nofun rfl rfl⟩
      | some event =>
        obtain ⟨s', hloop, hinv', hcreated, hpending⟩ := emitAll_spec event (s.inputFiles device)
          hinv (fun f hf => ((hinv.listed device f).mp hf).1) (hinv.once device)
        have hexec : exec s (.emit (some device) (some event)) = .ok ([], s') := by
          simp [exec, inputDeviceEmit, hloop, Except.map]
        rw [hexec]
        exact ⟨hinv', Saw.of_emit hinv hcreated hpending⟩
  | read g thread buffer size memory =>
    by_cases hbuffer : buffer ≠ 0 ∧ inputDeviceEventSize ≤ size
    · exact Saw.of_read hinv hallowed
        (inputFileRead_spec (hinv.sound g hallowed) hbuffer.1 hbuffer.2) rfl
        (by simp [own, hbuffer]) rfl (fun f hf => by simp [own, Ne.symm hf]) fun f => rfl
    · have hexec : exec s (.read g thread buffer size memory) = .ok ([], s) := by
        simp [exec, inputFileRead_refused hbuffer, Except.map, ReadResult.event]
      rw [hexec]
      refine ⟨hinv, fun f => .nothing ?_ ?_ rfl rfl⟩
      · exact if_neg fun h => hbuffer h.2
      · simp [delivered, hexec]
  | resume g thread memory =>
    exact Saw.of_read hinv hallowed.1 (inputFileResume_spec thread memory (hinv.sound g hallowed.1))
      rfl (by simp [own]) rfl (fun f hf => by simp [own, Ne.symm hf]) fun f => rfl

/-! ## Runs -/

/-- The queue of a file is what its readers see of all that has happened. -/
structure Account (f : FileId) (history : List (System α × Action α)) (s : System α) : Prop where
  conserved : overHistory (delivered f) history ++ s.queue f = overHistory (accepted f) history
  view : View.run ⟨[], []⟩ (overHistory (own f) history) =
    ⟨overHistory (delivered f) history, s.queue f⟩

theorem View.run_append (v : View α) (l l' : List (Own α)) :
    v.run (l ++ l') = (v.run l).run l' := List.foldl_append

theorem Account.next (h : Account f history s) (hsaw : Saw f s a s') :
    Account f ((s, a) :: history) s' where
  conserved := by
    calc (overHistory (delivered f) history ++ delivered f s a) ++ s'.queue f
        = overHistory (delivered f) history ++ (s.queue f ++ accepted f s a) := by
          rw [List.append_assoc, hsaw.conserves]
      _ = overHistory (accepted f) history ++ accepted f s a := by
          rw [← List.append_assoc, h.conserved]
  view := by
    rw [overHistory, View.run_append, h.view, hsaw.view]
    rfl

theorem run_inv (h : Run Start Step history s) : Inv s :=
  h.invariant (fun _ => inv_start) fun _ _ _ hinv hstep => by
    obtain ⟨hallowed, events, hexec⟩ := hstep
    exact ((exec_spec hinv hallowed).result hexec).1

theorem run_account (h : Run Start Step history s) (f : FileId) : Account f history s := by
  induction h with
  | @start s hs =>
    have hnone : s.queue f = [] := if_neg (by simp [hs.1])
    exact ⟨by simp [overHistory, hnone], by simp [overHistory, View.run, hnone]⟩
  | next hrun hstep ih =>
    obtain ⟨hallowed, events, hexec⟩ := hstep
    exact ih.next (((exec_spec (run_inv hrun) hallowed).result hexec).2 f)

/-- Each open file is a bounded queue of its own: what has been read from it
and what is pending are the events it had room for, in order, and both
depend on nothing but the events of its device and its own reads. The rings
are never full when an event is put in, or empty when one is taken out. -/
theorem inputFile_isQueue (h : Run Start Step history s) :
    (∀ f < s.created,
      overHistory (delivered f) history ++ s.pending f = overHistory (accepted f) history ∧
      (s.pending f).length ≤ inputFileEventBufferSize ∧
      View.run ⟨[], []⟩ (overHistory (own f) history) =
        ⟨overHistory (delivered f) history, s.pending f⟩) ∧
    ∀ a, Allowed s a → exec s a ≠ .error .enqueue ∧ exec s a ≠ .error .dequeue := by
  have hinv := run_inv h
  constructor
  · intro f hf
    have haccount := run_account h f
    have hqueue : s.queue f = s.pending f := if_pos hf
    have hroom := (hinv.sound f hf).holds.room
    rw [(hinv.sound f hf).size] at hroom
    exact ⟨hqueue ▸ haccount.conserved, hroom, hqueue ▸ haccount.view⟩
  · intro a hallowed
    have hensures := exec_spec hinv hallowed
    constructor
    · intro herror
      cases hensures.allowed herror
    · intro herror
      cases hensures.allowed herror

end

/-- No file is open. -/
def noFiles : System Nat :=
  ⟨fun _ => [], fun _ => ⟨0, false, [], .init (fun _ => 0) 0⟩, 0, fun _ => []⟩

/-- Two files are opened on a device, and one of them reads its event. -/
theorem twoReaders_areQueues : ∃ history, ∃ s : System Nat, Run Start Step history s ∧
    (overHistory (delivered 0) history, s.pending 0) = ([7], []) ∧
    (overHistory (delivered 1) history, s.pending 1) = ([], [7]) ∧
    overHistory (accepted 0) history = [7] ∧ overHistory (accepted 1) history = [7] := by
  have hstart : Start noFiles := ⟨rfl, fun _ => rfl, fun _ => rfl⟩
  have hopen : Run Start Step [(_, .open 0 true (fun _ => 0) true),
      (noFiles, .open 0 false (fun _ => 0) true)] _ :=
    .next (.next (.start hstart) ⟨trivial, _, rfl⟩) ⟨trivial, _, rfl⟩
  have hrun : Run Start Step ((_, .read 0 5 1 8 true) :: (_, .emit (some 0) (some 7)) :: _) _ :=
    .next (.next hopen ⟨trivial, _, rfl⟩) ⟨Nat.zero_lt_two, _, rfl⟩
  have hqueue := inputFile_isQueue hrun
  have hfirst := (hqueue.1 0 Nat.zero_lt_two).1
  have hsecond := (hqueue.1 1 Nat.one_lt_two).1
  exact ⟨_, _, hrun, rfl, rfl, hfirst.symm.trans rfl, hsecond.symm.trans rfl⟩

end ZOs.Input
