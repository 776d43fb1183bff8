import ZOs.Input.FanOut
import ZOs.Usb.HidEvents

/-!
# From the reports to a reader

The way of an input event: the callback of a HID driver emits what has changed
in a report on the device of the driver, the file of a reader queues it, and
the reader takes one event after the other out of its file and handles it.
Other files are opened, read and woken up in between. As long as a file has
room for what a report makes of it, nothing is lost on the way: what the
reader has handled and what waits in its file is what the driver has emitted.
-/

namespace ZOs.Usb.Hid

variable {k : Kind} {previous data : List (BitVec 8)} {reports : List (List (BitVec 8))}

/-! ## What a driver emits -/

/-- The events of a report next to the one before it. -/
def Kind.changes (k : Kind) (previous data : List (BitVec 8)) : List Event :=
  k.events ⟨previous, false⟩ ⟨data, false⟩

/-- The events of one report after the other. -/
def Kind.log (k : Kind) (previous : List (BitVec 8)) : List (List (BitVec 8)) → List Event
  | [] => []
  | data :: reports => k.changes previous data ++ k.log data reports

theorem Kind.log_concat : k.log previous (reports ++ [data]) =
    k.log previous reports ++ k.changes (reports.getLastD previous) data := by
  induction reports generalizing previous with
  | nil => simp [Kind.log]
  | cons first reports ih =>
    rw [List.cons_append, Kind.log, ih, Kind.log, List.append_assoc, List.getLastD_cons]

/-- A report has no more bytes than the device sends. -/
theorem Kind.changes_take_right (k : Kind) (previous data : List (BitVec 8)) :
    k.changes previous (data.take k.reportLength) = k.changes previous data := by
  cases k with
  | keyboard => simp [Kind.changes, Kind.events, keyboardReport_take]
  | mouse => simp [Kind.changes, Kind.events, mouseReport_take]

theorem Kind.changes_take_left (k : Kind) (previous data : List (BitVec 8)) :
    k.changes (previous.take k.reportLength) data = k.changes previous data := by
  cases k with
  | keyboard => simp [Kind.changes, Kind.events, keyboardReport_take]
  | mouse => simp [Kind.changes, Kind.events, mouseReport_take]

theorem emits_some {D E : Type} (d : Driver D E) (data : List (BitVec 8)) :
    d.emits k ⟨true, some data⟩ = k.changes d.latestReport.data data := by
  rw [← Kind.changes_take_right]
  cases k with
  | keyboard => rfl
  | mouse => rfl

end ZOs.Usb.Hid

namespace ZOs.Input

open Runs Checked
open Usb.Hid (Event Kind Session)

variable {D E γ μ : Type}

/-- A driver with its device, and a reader with its file: what it does with an
event, given what it gets from elsewhere. -/
structure Wiring (γ μ : Type) where
  kind : Kind
  device : DeviceId
  file : FileId
  handle : μ → γ → Event → γ

/-- A driver with what it has emitted, the files, and the state of a reader. -/
structure Pipeline (D E γ : Type) where
  session : Session D E
  files : System Event
  reader : γ

/-- `input_device_emit` for one event after the other. -/
def emitEvents (device : DeviceId) : List Event → System Event → Except Fault (System Event)
  | [], s => .ok s
  | event :: events, s =>
    match inputDeviceEmit (some device) (some event) s with
    | .error fault => .error fault
    | .ok (_, s) => emitEvents device events s

inductive Pipeline.Action (μ : Type)
  | report (data : Option (List (BitVec 8)))
  | look (thread : ThreadId) (buffer : Nat) (memory : Bool) (supply : μ)
  | other (a : Input.Action Event)

namespace Pipeline

/-- What the driver emits for a completion. -/
def emits (w : Wiring γ μ) (s : Pipeline D E γ) (data : Option (List (BitVec 8))) : List Event :=
  s.session.driver.emits w.kind ⟨true, data⟩

/-- A completion comes in, the reader goes through its loop
`while (input_read(fd, &event) > 0)` once, or something else happens to the
files. -/
def exec (w : Wiring γ μ) (s : Pipeline D E γ) : Action μ → Except Fault (Pipeline D E γ)
  | .report data =>
    (emitEvents w.device (s.emits w data) s.files).map fun files =>
      { s with session := s.session.deliver w.kind ⟨true, data⟩, files }
  | .look thread buffer memory supply =>
    (inputFileRead w.file thread buffer inputDeviceEventSize memory s.files).map fun r =>
      { s with files := r.2, reader := r.1.event.foldl (w.handle supply) s.reader }
  | .other a => (Input.exec s.files a).map fun r => { s with files := r.2 }

/-- Nobody else reads the file, or emits on the device. -/
def Allowed (w : Wiring γ μ) (s : Pipeline D E γ) : Action μ → Prop
  | .report _ => True
  | .look _ buffer _ _ => buffer ≠ 0
  | .other a => Input.Allowed s.files a ∧ a.reader ≠ some w.file ∧
      ∀ event, a ≠ .emit (some w.device) event

def Step (w : Wiring γ μ) (s : Pipeline D E γ) (a : Action μ) (s' : Pipeline D E γ) : Prop :=
  Allowed w s a ∧ exec w s a = .ok s'

/-- The reader is new, and so is its file; the driver has had a report, or
its report is that of the start. -/
structure Start (w : Wiring γ μ) (new : γ → Prop) (previous : List (BitVec 8))
    (s : Pipeline D E γ) : Prop where
  files : ∃ history, Run Input.Start Input.Step history s.files
  created : w.file < s.files.created
  device : (s.files.file w.file).inputDevice = w.device
  pending : s.files.pending w.file = []
  latest : s.session.driver.latestReport.data = previous
  emitted : s.session.emitted = []
  reader : new s.reader

/-- The file has room for the events of a report. -/
def Room (w : Wiring γ μ) (s : Pipeline D E γ) : Action μ → Prop
  | .report data =>
    (s.files.pending w.file).length + (s.emits w data).length ≤ inputFileEventBufferSize
  | _ => True

end Pipeline

section

variable {s s' : System Event} {event : Event} {events : List Event} {device : DeviceId}
  {f g : FileId} {a : Action Event} {code : Int}

/-! ## Files -/

/-- A file that is open on a device. -/
structure OpenOn (device : DeviceId) (f : FileId) (s : System Event) : Prop where
  created : f < s.created
  device : (s.file f).inputDevice = device

theorem inputFileEmit_openOn (hf : OpenOn device f s)
    (h : inputFileEmit g event s = .ok (code, s')) : OpenOn device f s' := by
  unfold inputFileEmit at h
  dsimp only at h
  split at h
  · cases h
    exact hf
  split at h
  · cases h
    refine ⟨hf.created, ?_⟩
    by_cases hg : f = g
    · subst hg
      simpa using hf.device
    · simpa [hg] using hf.device
  · cases h

theorem emitAll_openOn {fs : List FileId} (hf : OpenOn device f s)
    (h : emitAll event fs s = .ok s') : OpenOn device f s' := by
  induction fs generalizing s with
  | nil =>
    cases h
    exact hf
  | cons first rest ih =>
    cases hemit : inputFileEmit first event s with
    | error fault => simp [emitAll, hemit] at h
    | ok r =>
      have hrest : emitAll event rest r.2 = .ok s' := by simpa [emitAll, hemit] using h
      exact ih (inputFileEmit_openOn hf hemit) hrest

theorem OpenOn.only (hf : OpenOn device f s) (h : OnlyFile g s s') : OpenOn device f s' :=
  ⟨h.created ▸ hf.created, (h.device_eq f).trans hf.device⟩

/-- A file that is open stays open on its device, whatever happens. -/
theorem OpenOn.exec (hf : OpenOn device f s) (hinv : Inv s) (ha : Allowed s a)
    (h : exec s a = .ok (events, s')) : OpenOn device f s' := by
  cases a with
  | «open» device' nonblock entries memory =>
    have hne : f ≠ s.created := Nat.ne_of_lt hf.created
    cases memory with
    | false => simp [Input.exec, inputFileOpen, Except.map] at h
    | true =>
      simp [Input.exec, inputFileOpen, Except.map] at h
      obtain ⟨-, rfl⟩ := h
      exact ⟨Nat.lt_succ_of_lt hf.created, by simpa [hne] using hf.device⟩
  | emit device' event' =>
    cases device' with
    | none =>
      simp [Input.exec, inputDeviceEmit, Except.map] at h
      exact h.2 ▸ hf
    | some device' =>
      cases event' with
      | none =>
        simp [Input.exec, inputDeviceEmit, Except.map] at h
        exact h.2 ▸ hf
      | some event' =>
        cases hloop : emitAll event' (s.inputFiles device') s with
        | error fault => simp [Input.exec, inputDeviceEmit, hloop, Except.map] at h
        | ok s₁ =>
          simp [Input.exec, inputDeviceEmit, hloop, Except.map] at h
          exact h.2 ▸ emitAll_openOn hf hloop
  | read g thread buffer size memory =>
    by_cases hbuffer : buffer ≠ 0 ∧ inputDeviceEventSize ≤ size
    · have hspec : Ensures (· = .memory) (inputFileRead g thread buffer size memory s) fun r =>
          Looked g s r.1.event r.2 :=
        inputFileRead_spec (hinv.sound g ha) hbuffer.1 hbuffer.2
      cases hread : inputFileRead g thread buffer size memory s with
      | error fault => simp [Input.exec, hread, Except.map] at h
      | ok r =>
        simp [Input.exec, hread, Except.map] at h
        exact h.2 ▸ hf.only (hspec.result hread).only
    · simp [Input.exec, inputFileRead_refused hbuffer, Except.map] at h
      exact h.2 ▸ hf
  | resume g thread memory =>
    have hspec := inputFileResume_spec thread memory (hinv.sound g ha.1)
    cases hread : inputFileResume g thread memory s with
    | error fault => simp [Input.exec, hread, Except.map] at h
    | ok r =>
      simp [Input.exec, hread, Except.map] at h
      exact h.2 ▸ hf.only (hspec.result hread).only

/-- As long as there is room, all events that are emitted on its device are
put at the end of the queue of a file. -/
theorem emitEvents_spec (hinv : Inv s) (hf : OpenOn device f s)
    (hroom : (s.pending f).length + events.length ≤ inputFileEventBufferSize) :
    ∃ s', emitEvents device events s = .ok s' ∧ Inv s' ∧ OpenOn device f s' ∧
      s'.pending f = s.pending f ++ events := by
  induction events generalizing s with
  | nil => exact ⟨s, rfl, hinv, hf, by simp⟩
  | cons event events ih =>
    simp only [List.length_cons] at hroom
    obtain ⟨s₁, hloop, hinv₁, -, hpending⟩ := emitAll_spec event (s.inputFiles device)
      hinv (fun f hf => ((hinv.listed device f).mp hf).1) (hinv.once device)
    have hlisted : f ∈ s.inputFiles device := (hinv.listed device f).mpr ⟨hf.created, hf.device⟩
    have hpushed : s₁.pending f = s.pending f ++ [event] := by
      rw [hpending, if_pos hlisted, push, if_pos (by omega)]
    have hone : inputDeviceEmit (some device) (some event) s = .ok (0, s₁) := by
      simp [inputDeviceEmit, hloop, Except.map]
    obtain ⟨s', hrest, hinv', hf', hpending'⟩ := ih hinv₁ (emitAll_openOn hf hloop)
      (by rw [hpushed, List.length_append, List.length_singleton]; omega)
    refine ⟨s', ?_, hinv', hf', ?_⟩
    · simpa [emitEvents, hone] using hrest
    · rw [hpending', hpushed, List.append_assoc, List.singleton_append]

/-- Nobody reads the file or emits on its device, so that its queue stays. -/
theorem exec_pending (hinv : Inv s) (hf : OpenOn device f s) (ha : Allowed s a)
    (hreader : a.reader ≠ some f) (hemit : ∀ event, a ≠ .emit (some device) event)
    (h : exec s a = .ok (events, s')) : Inv s' ∧ OpenOn device f s' ∧
      s'.pending f = s.pending f := by
  obtain ⟨hinv', hsaw⟩ := (exec_spec hinv ha).result h
  have hf' := hf.exec hinv ha h
  have hown : own f s a = [] := by
    cases a with
    | «open» => rfl
    | emit device' event' =>
      cases device' with
      | none => rfl
      | some device' =>
        have hother : device ≠ device' := fun heq => hemit event' (heq ▸ rfl)
        cases event' with
        | none => rfl
        | some event' => simp [own, hf.device, hother]
    | read g thread buffer size memory =>
      have hg : g ≠ f := fun heq => hreader (heq ▸ rfl)
      simp [own, hg]
    | resume g thread memory =>
      have hg : g ≠ f := fun heq => hreader (heq ▸ rfl)
      simp [own, hg]
  have hqueue : s'.queue f = s.queue f := by
    cases hsaw f with
    | nothing _ _ _ hqueue => exact hqueue
    | event event hemits => simp [hown] at hemits
    | look hlooks => simp [hown] at hlooks
  have hbefore : s.queue f = s.pending f := if_pos hf.created
  have hafter : s'.queue f = s'.pending f := if_pos hf'.created
  exact ⟨hinv', hf', by rw [← hafter, hqueue, hbefore]⟩

end

/-! ## Runs -/

section

variable {w : Wiring γ μ} {new : γ → Prop} {previous : List (BitVec 8)}
  {s s' : Pipeline D E γ} {a : Pipeline.Action μ}
  {history : List (Pipeline D E γ × Pipeline.Action μ)}

/-- The events that a step hands to the reader, with what it gets from
elsewhere. -/
def Pipeline.handed (w : Wiring γ μ) (s : Pipeline D E γ) : Pipeline.Action μ → List (μ × Event)
  | .look thread buffer memory supply =>
    match inputFileRead w.file thread buffer inputDeviceEventSize memory s.files with
    | .ok r => r.1.event.map fun event => (supply, event)
    | .error _ => []
  | _ => []

/-- What the reader has been handed, the latest last. -/
def Pipeline.received (w : Wiring γ μ) : List (Pipeline D E γ × Pipeline.Action μ) →
    List (μ × Event)
  | [] => []
  | (s, a) :: history => received w history ++ s.handed w a

/-- A reader that handles one event after the other. -/
def Wiring.run (w : Wiring γ μ) (reader : γ) (events : List (μ × Event)) : γ :=
  events.foldl (fun reader e => w.handle e.1 reader e.2) reader

theorem Wiring.run_append (w : Wiring γ μ) (reader : γ) (events events' : List (μ × Event)) :
    w.run reader (events ++ events') = w.run (w.run reader events) events' :=
  List.foldl_append

/-- The files are in order, the reader is where the events it was handed lead
to, and these and the pending ones are what the driver has emitted. -/
structure Pipeline.Account (w : Wiring γ μ) (reader : γ) (received : List (μ × Event))
    (s : Pipeline D E γ) : Prop where
  files : Inv s.files
  openOn : OpenOn w.device w.file s.files
  reader : s.reader = w.run reader received
  emitted : received.map Prod.snd ++ s.files.pending w.file = s.session.emitted

theorem Pipeline.Account.step {reader : γ} {received : List (μ × Event)}
    (h : Pipeline.Account w reader received s) (hroom : s.Room w a)
    (hstep : Pipeline.Step w s a s') :
    Pipeline.Account w reader (received ++ s.handed w a) s' := by
  obtain ⟨hallowed, hexec⟩ := hstep
  cases a with
  | report data =>
    obtain ⟨files, hemit, hinv, hopen, hpending⟩ := emitEvents_spec h.files h.openOn hroom
    simp [Pipeline.exec, hemit, Except.map] at hexec
    subst hexec
    refine ⟨hinv, hopen, by simpa [handed] using h.reader, ?_⟩
    simp only [Pipeline.handed, List.append_nil, hpending]
    rw [← List.append_assoc, h.emitted]
    rfl
  | look thread buffer memory supply =>
    have hspec : Ensures (· = .memory)
        (inputFileRead w.file thread buffer inputDeviceEventSize memory s.files) fun r =>
          Looked w.file s.files r.1.event r.2 :=
      inputFileRead_spec (h.files.sound w.file h.openOn.created) hallowed (Nat.le_refl _)
    cases hread : inputFileRead w.file thread buffer inputDeviceEventSize memory s.files with
    | error fault => simp [Pipeline.exec, hread, Except.map] at hexec
    | ok r =>
      have hlooked := hspec.result hread
      simp [Pipeline.exec, hread, Except.map] at hexec
      subst hexec
      refine ⟨hlooked.only.inv h.files hlooked.sound, h.openOn.only hlooked.only, ?_, ?_⟩
      · simp only [Pipeline.handed, hread]
        rw [Wiring.run_append, ← h.reader, Wiring.run, List.foldl_map]
      · have hmap : (s.handed w (.look thread buffer memory supply)).map Prod.snd = r.1.event := by
          simp [Pipeline.handed, hread, Function.comp_def]
        rw [List.map_append, hmap, hlooked.events, hlooked.pending, List.append_assoc,
          List.take_append_drop]
        exact h.emitted
  | other b =>
    cases hother : Input.exec s.files b with
    | error fault => simp [Pipeline.exec, hother, Except.map] at hexec
    | ok r =>
      obtain ⟨hfiles, hreader, hemit⟩ := hallowed
      obtain ⟨hinv, hopen, hpending⟩ :=
        exec_pending h.files h.openOn hfiles hreader hemit hother
      simp [Pipeline.exec, hother, Except.map] at hexec
      subst hexec
      refine ⟨hinv, hopen, by simpa [Pipeline.handed] using h.reader, ?_⟩
      simpa [Pipeline.handed, hpending] using h.emitted

/-- The reports of a history, the latest last. -/
def Pipeline.reports : List (Pipeline D E γ × Pipeline.Action μ) → List (List (BitVec 8))
  | [] => []
  | (_, .report (some data)) :: history => reports history ++ [data]
  | _ :: history => reports history

/-- What the driver emits is what its reports say, each next to the one before
it. -/
theorem Pipeline.run_emitted
    (h : Run (Pipeline.Start w new previous) (Pipeline.Step w) history s) :
    s.session.emitted = w.kind.log previous (Pipeline.reports history) ∧
    ∀ data, w.kind.changes s.session.driver.latestReport.data data =
      w.kind.changes ((Pipeline.reports history).getLastD previous) data := by
  induction h with
  | start hs => exact ⟨by simp [hs.emitted, Pipeline.reports, Kind.log], by simp [hs.latest,
      Pipeline.reports]⟩
  | @next history s a s' _ hstep ih =>
    obtain ⟨hemitted, hlatest⟩ := ih
    obtain ⟨-, hexec⟩ := hstep
    cases a with
    | report data =>
      cases hemit : emitEvents w.device (s.emits w data) s.files with
      | error fault => simp [Pipeline.exec, hemit, Except.map] at hexec
      | ok files =>
        simp [Pipeline.exec, hemit, Except.map] at hexec
        subst hexec
        cases data with
        | none => exact ⟨(List.append_nil _).trans hemitted, hlatest⟩
        | some data =>
          refine ⟨?_, fun data' => ?_⟩
          · rw [Pipeline.reports, Kind.log_concat, ← hemitted, ← hlatest]
            exact congrArg (s.session.emitted ++ ·) (Usb.Hid.emits_some _ data)
          · rw [Pipeline.reports, List.getLastD_concat]
            exact Kind.changes_take_left ..
    | look thread buffer memory supply =>
      cases hread : inputFileRead w.file thread buffer inputDeviceEventSize memory s.files with
      | error fault => simp [Pipeline.exec, hread, Except.map] at hexec
      | ok r =>
        simp [Pipeline.exec, hread, Except.map] at hexec
        subst hexec
        exact ⟨hemitted, hlatest⟩
    | other b =>
      cases hother : Input.exec s.files b with
      | error fault => simp [Pipeline.exec, hother, Except.map] at hexec
      | ok r =>
        simp [Pipeline.exec, hother, Except.map] at hexec
        subst hexec
        exact ⟨hemitted, hlatest⟩

/-- Where no report comes at a moment when the file has no room for it, the
reader is where the events that it was handed lead to from where it was, and
these followed by the pending ones are the events that were emitted. -/
theorem Pipeline.run_account
    (h : Run (Pipeline.Start w new previous) (Pipeline.Step w) history s)
    (hroom : ∀ p ∈ history, p.1.Room w p.2) :
    ∃ reader, new reader ∧ Pipeline.Account w reader (Pipeline.received w history) s := by
  induction h with
  | start hs =>
    obtain ⟨filesHistory, hfiles⟩ := hs.files
    refine ⟨_, hs.reader, run_inv hfiles, ⟨hs.created, hs.device⟩, rfl, ?_⟩
    simp [Pipeline.received, hs.pending, hs.emitted]
  | next _ hstep ih =>
    obtain ⟨hlast, hrest⟩ := List.forall_mem_cons.mp hroom
    obtain ⟨reader, hnew, haccount⟩ := ih hrest
    exact ⟨reader, hnew, haccount.step hlast hstep⟩

end

/-- No file is open. -/
def noEvents : System Event :=
  ⟨fun _ => [], fun _ => ⟨0, false, [], .init (fun _ => .keyUp 0) 0⟩, 0, fun _ => []⟩

end ZOs.Input
