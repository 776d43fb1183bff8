import ZOs.Compositor.ShiftKeys
import ZOs.Input.Reader

/-!
# What is typed

From the reports of the keyboard to the text. A key that goes down is a stroke
on the editor of a string, in the case of the shift flag, and the flag goes up
and down with either shift key; `Typist` is that editor with its flag. The
text input is where the typist ends up who gets the events that the keyboard
makes of its reports, in whatever portions they are read.
-/

namespace ZOs.Compositor

open Bytes Runs Input
open Usb.Hid (Event Kind KeyboardReport keyboardReport keyboardEvents modifierEvent slotEvents
  bitIndices keyLeftctrl reportContainsKey)

/-! ## The typist -/

/-- What a stroke does to a document. -/
def Document.stroke (d : Document) : Keystroke → Document
  | .addChar c => d.insert c
  | .removeChar => d.delete
  | .moveCursor dx => d.move dx.toInt

/-- A document, and whether a shift key went down last. -/
structure Typist where
  document : Document
  shift : Bool

def Typist.event (t : Typist) : Event → Typist
  | .keyDown k => ⟨(keystrokes k t.shift).foldl Document.stroke t.document, t.shift || isShift k⟩
  | .keyUp k => ⟨t.document, t.shift && !isShift k⟩
  | _ => t

/-- One event after the other. -/
def Typist.type (t : Typist) (events : List Event) : Typist := events.foldl Typist.event t

/-- The bits of the shift keys in the modifiers of a report. -/
def isShiftBit (i : Nat) : Bool := i = 1 ∨ i = 5

/-- The flag behind a report: the last of its shift keys that has changed
decides. -/
def shiftBehind (previous latest : KeyboardReport) (shift : Bool) : Bool :=
  (bitIndices 8 (previous.modifiers ^^^ latest.modifiers)).foldl
    (fun shift i => if isShiftBit i then latest.modifiers.getLsbD i else shift) shift

/-- The strokes of the keys in a report that are not in the one before it,
slot by slot. -/
def newStrokes (previous latest : KeyboardReport) (shift : Bool) : List Keystroke :=
  (List.finRange 6).flatMap fun i =>
    if reportContainsKey previous (latest.keypress i) then []
    else keystrokes (latest.keypress i) shift

/-- A report is typed: the modifiers first, and the new keys in their case. -/
def Typist.report (t : Typist) (previous latest : KeyboardReport) : Typist :=
  let shift := shiftBehind previous latest t.shift
  ⟨(newStrokes previous latest shift).foldl Document.stroke t.document, shift⟩

/-- One report after the other. -/
def Typist.reports (t : Typist) (previous : KeyboardReport) : List KeyboardReport → Typist
  | [] => t
  | latest :: rest => (t.report previous latest).reports latest rest

/-- Nothing has been typed. -/
def Typist.new : Typist := ⟨⟨[], 0⟩, false⟩

/-- The document of a text input, and its flag. -/
def TextInput.typist (s : TextInput) : Typist := ⟨s.document, s.shiftDown ≠ 0⟩

section

variable {s : TextInput} {t : Typist} {e : Event} {malloc : Option (Nat → Byte)} {n : Nat}

/-! ## One event -/

/-- No key makes two strokes. -/
theorem length_keystrokes : ∀ (k : BitVec 8) (shift : Bool), (keystrokes k shift).length ≤ 1 := by
  decide +kernel

theorem step_edit (d : Document) (stroke : Keystroke) :
    d.step (stroke.edit malloc) = d.stroke stroke := by
  cases stroke <;> rfl

theorem length_stroke (d : Document) (stroke : Keystroke) :
    (d.stroke stroke).text.length ≤ d.text.length + 1 := by
  cases stroke with
  | addChar c => exact List.length_insertIdx_le_succ ..
  | removeChar =>
    simp only [Document.stroke, Document.delete]
    split
    · omega
    · exact (List.length_eraseIdx_le ..).trans (Nat.le_succ _)
  | moveCursor dx =>
    simp only [Document.stroke, Document.move]
    split
    · exact Nat.le_succ _
    · exact Nat.le_succ _

theorem supplied_edit (hmalloc : malloc.isSome) (stroke : Keystroke) :
    (stroke.edit malloc).Supplied := by
  cases stroke with
  | addChar c => exact hmalloc
  | removeChar => trivial
  | moveCursor dx => trivial

/-- A text input with less than `n` characters that types as the typist. -/
structure TextInput.Types (n : Nat) (t : Typist) (s : TextInput) : Prop where
  sized : s.Sized
  typist : s.typist = t
  length : s.length.toNat ≤ n

/-- A single stroke, or none. -/
theorem exec_strokes (hs : s.Sized) (hmalloc : malloc.isSome) (hlen : s.length.toNat < 2 ^ 31)
    {strokes : List Keystroke} (hone : strokes.length ≤ 1) :
    ((strokes.map (·.edit malloc)).foldl TextInput.exec s).Sized ∧
      ((strokes.map (·.edit malloc)).foldl TextInput.exec s).document =
        strokes.foldl Document.stroke s.document ∧
      ((strokes.map (·.edit malloc)).foldl TextInput.exec s).length.toNat ≤ s.length.toNat + 1 := by
  match strokes, hone with
  | [], _ => exact ⟨hs, rfl, Nat.le_succ _⟩
  | [stroke], _ =>
    obtain ⟨hsized, hdocument⟩ := TextInput.exec_document hs (supplied_edit hmalloc stroke) hlen
    rw [step_edit] at hdocument
    refine ⟨hsized, hdocument, ?_⟩
    have htext : (s.exec (stroke.edit malloc)).contents = (s.document.stroke stroke).text :=
      congrArg Document.text hdocument
    have hgrown := length_stroke s.document stroke
    rw [← htext, TextInput.length_contents] at hgrown
    exact hgrown.trans (Nat.le_of_eq (congrArg (· + 1) TextInput.length_contents))

/-- The flag is no part of the document. -/
theorem TextInput.Types.flag (h : s.Types n t) (shiftDown : BitVec 8) :
    ({ s with shiftDown } : TextInput).Types n ⟨t.document, shiftDown ≠ 0⟩ := by
  obtain ⟨hsized, rfl, hlength⟩ := h
  exact ⟨⟨⟨hsized.inside.cursor, hsized.inside.length⟩, hsized.capacity⟩, rfl, hlength⟩

/-- An event of a text that is not too long. -/
theorem TextInput.Types.event (h : s.Types n t) (hmalloc : malloc.isSome) (hn : n < 2 ^ 31) :
    (s.event malloc e).Types (n + 1) (t.event e) := by
  cases e with
  | keyDown k =>
    -- the strokes are those of the flag before, on a text input with the flag behind
    have hbehind : (if isShift k then { s with shiftDown := 1 } else s : TextInput).Types n
        ⟨t.document, t.shift || isShift k⟩ := by
      cases hk : isShift k with
      | true => simpa using h.flag 1
      | false => simpa using h
    obtain ⟨hsized, hdocument, hlength⟩ := exec_strokes hbehind.sized hmalloc
      (Nat.lt_of_le_of_lt hbehind.length hn) (length_keystrokes k (s.shiftDown ≠ 0))
    refine ⟨hsized, ?_, hlength.trans (Nat.succ_le_succ hbehind.length)⟩
    have hflag := foldl_exec_shiftDown
      ((keystrokes k (s.shiftDown ≠ 0)).map (·.edit malloc))
      (if isShift k then { s with shiftDown := 1 } else s)
    have hbefore : t.shift = decide (s.shiftDown ≠ 0) := by rw [← h.typist]; rfl
    have htypist := hbehind.typist
    simp only [TextInput.typist, Typist.mk.injEq] at htypist
    simp only [TextInput.typist, Typist.event, Typist.mk.injEq]
    constructor
    · rw [hbefore, ← htypist.1]
      exact hdocument
    · rw [← htypist.2]
      exact congrArg (fun flag : BitVec 8 => decide (flag ≠ 0)) hflag
  | keyUp k =>
    have hbehind : (if isShift k then { s with shiftDown := 0 } else s : TextInput).Types n
        ⟨t.document, t.shift && !isShift k⟩ := by
      cases hk : isShift k with
      | true => simpa using h.flag 0
      | false => simpa using h
    exact ⟨hbehind.sized, hbehind.typist, hbehind.length.trans (Nat.le_succ n)⟩
  | _ => exact ⟨h.sized, h.typist, h.length.trans (Nat.le_succ n)⟩

end

/-! ## One report -/

section

variable {t : Typist} {previous latest : KeyboardReport}

theorem Typist.type_append (t : Typist) (events events' : List Event) :
    t.type (events ++ events') = (t.type events).type events' :=
  List.foldl_append

theorem modifier_isShift : ∀ i < 8, isShift (keyLeftctrl + BitVec.ofNat 8 i) = isShiftBit i := by
  decide

/-- No modifier makes a stroke. -/
theorem keystrokes_modifier : ∀ i < 8, ∀ shift,
    keystrokes (keyLeftctrl + BitVec.ofNat 8 i) shift = [] := by
  decide

theorem not_isShift_of_lt : ∀ k : BitVec 8, k < keyLeftctrl → isShift k = false := by
  decide +kernel

theorem type_modifiers {is : List Nat} (his : ∀ i ∈ is, i < 8) :
    t.type (is.map (modifierEvent latest)) = ⟨t.document, is.foldl
      (fun shift i => if isShiftBit i then latest.modifiers.getLsbD i else shift) t.shift⟩ := by
  induction is generalizing t with
  | nil => rfl
  | cons i is ih =>
    obtain ⟨hi, his⟩ := List.forall_mem_cons.mp his
    have hevent : t.event (modifierEvent latest i) =
        ⟨t.document, if isShiftBit i then latest.modifiers.getLsbD i else t.shift⟩ := by
      rw [Usb.Hid.modifierEvent_eq hi]
      cases hset : latest.modifiers.getLsbD i <;> cases hshift : isShiftBit i <;>
        simp [Typist.event, modifier_isShift i hi, hshift, keystrokes_modifier i hi]
    have hfirst : t.type ((i :: is).map (modifierEvent latest)) =
        (t.event (modifierEvent latest i)).type (is.map (modifierEvent latest)) := rfl
    rw [hfirst, hevent, ih his]
    rfl

/-- A slot of the report before makes no stroke, and none is a shift key. -/
theorem type_slots (hprevious : previous.BelowModifiers) (hlatest : latest.BelowModifiers)
    (is : List (Fin 6)) : t.type (is.flatMap (slotEvents previous latest)) =
      ⟨(is.flatMap fun i => if reportContainsKey previous (latest.keypress i) then []
        else keystrokes (latest.keypress i) t.shift).foldl Document.stroke t.document,
        t.shift⟩ := by
  induction is generalizing t with
  | nil => rfl
  | cons i is ih =>
    have hup := not_isShift_of_lt _ (hprevious i)
    have hdown := not_isShift_of_lt _ (hlatest i)
    have hslot : t.type (slotEvents previous latest i) =
        ⟨(if reportContainsKey previous (latest.keypress i) then []
          else keystrokes (latest.keypress i) t.shift).foldl Document.stroke t.document,
          t.shift⟩ := by
      cases hold : reportContainsKey previous (latest.keypress i) <;>
        cases hkept : reportContainsKey latest (previous.keypress i) <;>
        simp [slotEvents, hold, hkept, Typist.type, Typist.event, hup, hdown]
    rw [List.flatMap_cons, Typist.type_append, hslot, ih, List.flatMap_cons, List.foldl_append]

theorem type_keyboardEvents (hprevious : previous.BelowModifiers)
    (hlatest : latest.BelowModifiers) :
    t.type (keyboardEvents previous latest) = t.report previous latest := by
  rw [keyboardEvents, Typist.type_append,
    type_modifiers fun i hi => (Usb.Hid.mem_modifierEvents.mp hi).1,
    type_slots hprevious hlatest]
  rfl

/-- What is typed with the events of reports is what is typed with the reports. -/
theorem type_log {previous : List (BitVec 8)} {reports : List (List (BitVec 8))}
    (hbelow : ∀ data ∈ previous :: reports, (keyboardReport data).BelowModifiers) :
    t.type (Kind.keyboard.log previous reports) =
      t.reports (keyboardReport previous) (reports.map keyboardReport) := by
  induction reports generalizing t previous with
  | nil => rfl
  | cons data reports ih =>
    obtain ⟨hfirst, hrest⟩ := List.forall_mem_cons.mp hbelow
    have hlog : t.type (Kind.keyboard.log previous (data :: reports)) =
        (t.type (keyboardEvents (keyboardReport previous) (keyboardReport data))).type
          (Kind.keyboard.log data reports) := Typist.type_append ..
    rw [hlog, type_keyboardEvents hfirst (hrest data List.mem_cons_self), ih hrest]
    rfl

end

/-! ## Runs -/

/-- The keyboard, and the text input behind its file. -/
def keyboardToText (device : DeviceId) (file : FileId) :
    Wiring TextInput (Option (Nat → Byte)) where
  kind := .keyboard
  device := device
  file := file
  handle malloc s e := s.event malloc e

theorem TextInput.Types.run {s : TextInput} {n : Nat} {t : Typist} {device : DeviceId}
    {file : FileId} {events : List (Option (Nat → Byte) × Event)} (h : s.Types n t)
    (hmalloc : ∀ e ∈ events, e.1.isSome) (hn : n + events.length ≤ 2 ^ 31) :
    ((keyboardToText device file).run s events).Types (n + events.length)
      (t.type (events.map Prod.snd)) := by
  induction events generalizing s n t with
  | nil => exact h
  | cons e events ih =>
    obtain ⟨hfirst, hrest⟩ := List.forall_mem_cons.mp hmalloc
    simp only [List.length_cons] at hn
    have hall := ih (h.event hfirst (e := e.2) (by omega)) hrest (by omega)
    rwa [List.length_cons, ← Nat.add_assoc, Nat.add_right_comm]

/-- What `malloc` answers while an event is handled. -/
def Supplies : Pipeline.Action (Option (Nat → Byte)) → Prop
  | .look _ _ _ malloc => malloc.isSome
  | _ => True

theorem received_supplied {D E : Type} {device : DeviceId} {file : FileId}
    {history : List (Pipeline D E TextInput × Pipeline.Action (Option (Nat → Byte)))}
    (hmalloc : ∀ p ∈ history, Supplies p.2) :
    ∀ e ∈ Pipeline.received (keyboardToText device file) history, e.1.isSome := by
  induction history with
  | nil => exact fun e he => absurd he List.not_mem_nil
  | cons p history ih =>
    obtain ⟨hlast, hrest⟩ := List.forall_mem_cons.mp hmalloc
    intro e he
    rcases List.mem_append.mp he with hbefore | hhanded
    · exact ih hrest e hbefore
    · obtain ⟨s, a⟩ := p
      cases a with
      | look thread buffer memory supply =>
        simp only [Pipeline.handed] at hhanded
        split at hhanded
        · obtain ⟨event, -, rfl⟩ := List.mem_map.mp hhanded
          exact hlast
        · exact absurd hhanded List.not_mem_nil
      | report data => exact absurd hhanded List.not_mem_nil
      | other b => exact absurd hhanded List.not_mem_nil

end ZOs.Compositor
