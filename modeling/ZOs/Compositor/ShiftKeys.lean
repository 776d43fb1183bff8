import ZOs.Compositor.TextEdits
import ZOs.Usb.HidEvents

/-!
# Typing

What `text_input_update` makes of the events of a keyboard. Whether shift is
down is one flag for two keys: it says whether one of them is held as long as
neither is released while the other one is held.
-/

namespace ZOs.Compositor

open Bytes Runs
open Usb.Hid (Event)

/-! ## Keys -/

/-- `KEY_A`, …, `KEY_RIGHTSHIFT` of `keycodes.h`, as far as they are used. -/
inductive Key
  | a | z | one | two | three | four | five | six | seven | eight | nine | zero
  | enter | backspace | space | minus | equal | leftbrace | rightbrace | backslash
  | semicolon | apostrophe | grave | comma | dot | slash | right | left
  | leftshift | rightshift

def Key.code : Key → BitVec 8
  | .a => 0x04
  | .z => 0x1d
  | .one => 0x1e
  | .two => 0x1f
  | .three => 0x20
  | .four => 0x21
  | .five => 0x22
  | .six => 0x23
  | .seven => 0x24
  | .eight => 0x25
  | .nine => 0x26
  | .zero => 0x27
  | .enter => 0x28
  | .backspace => 0x2a
  | .space => 0x2c
  | .minus => 0x2d
  | .equal => 0x2e
  | .leftbrace => 0x2f
  | .rightbrace => 0x30
  | .backslash => 0x31
  | .semicolon => 0x33
  | .apostrophe => 0x34
  | .grave => 0x35
  | .comma => 0x36
  | .dot => 0x37
  | .slash => 0x38
  | .right => 0x4f
  | .left => 0x50
  | .leftshift => 0xe1
  | .rightshift => 0xe5

/-- `scancode == KEY_LEFTSHIFT || scancode == KEY_RIGHTSHIFT`. -/
def isShift (scancode : BitVec 8) : Bool :=
  scancode = Key.leftshift.code ∨ scancode = Key.rightshift.code

/-- `scancode >= KEY_A && scancode <= KEY_Z`. -/
def isLetter (scancode : BitVec 8) : Bool :=
  Key.a.code ≤ scancode ∧ scancode ≤ Key.z.code

/-- A letter, in upper case or in lower case. -/
def letter (upper : Bool) (scancode : BitVec 8) : Byte :=
  if upper then scancode - Key.a.code + 0x41 else scancode - Key.a.code + 0x61

/-- A call that a key makes, but for what `malloc` answers. -/
inductive Keystroke
  | addChar (c : Byte)
  | removeChar
  | moveCursor (dx : Word32)
  deriving DecidableEq

def Keystroke.edit (malloc : Option (Nat → Byte)) : Keystroke → Edit
  | .addChar c => .addChar c malloc
  | .removeChar => .removeChar
  | .moveCursor dx => .moveCursor dx

/-- The conditions on the scancode and on `shift_down`, one after the other,
each with the call behind it. The numbers are characters. -/
def keystrokeTable (scancode : BitVec 8) (shiftDown : Bool) : List (Bool × Keystroke) :=
  let key (k : Key) : Bool := scancode = k.code
  let symbol (plain shifted : Byte) := Keystroke.addChar (if shiftDown then shifted else plain)
  [ (isLetter scancode, .addChar (letter shiftDown scancode)),
    (Key.one.code ≤ scancode && scancode ≤ Key.zero.code && !shiftDown,
      .addChar (scancode - Key.one.code + 0x31)),
    (key .one && shiftDown, .addChar 0x21),
    (key .two && shiftDown, .addChar 0x40),
    (key .three && shiftDown, .addChar 0x23),
    (key .four && shiftDown, .addChar 0x24),
    (key .five && shiftDown, .addChar 0x25),
    (key .six && shiftDown, .addChar 0x5e),
    (key .seven && shiftDown, .addChar 0x26),
    (key .eight && shiftDown, .addChar 0x2a),
    (key .nine && shiftDown, .addChar 0x28),
    (key .zero && shiftDown, .addChar 0x29),
    (key .minus, symbol 0x2d 0x5f),
    (key .equal, symbol 0x3d 0x2b),
    (key .space, .addChar 0x20),
    (key .backspace, .removeChar),
    (key .slash, symbol 0x2f 0x3f),
    (key .dot, symbol 0x2e 0x3e),
    (key .comma, symbol 0x2c 0x3c),
    (key .semicolon, symbol 0x3b 0x3a),
    (key .apostrophe, symbol 0x27 0x22),
    (key .leftbrace, symbol 0x5b 0x7b),
    (key .rightbrace, symbol 0x5d 0x7d),
    (key .backslash, symbol 0x5c 0x7c),
    (key .grave, symbol 0x60 0x7e),
    (key .left, .moveCursor (-1)),
    (key .right, .moveCursor 1),
    (key .enter, .addChar 0x0a) ]

/-- The calls that a key makes. -/
def keystrokes (scancode : BitVec 8) (shiftDown : Bool) : List Keystroke :=
  ((keystrokeTable scancode shiftDown).filter (·.1)).map (·.2)

/-- One round of `text_input_update`. The calls take `shift_down` as it was
before the key. -/
def TextInput.event (s : TextInput) (malloc : Option (Nat → Byte)) : Event → TextInput
  | .keyDown scancode =>
    let shiftDown := s.shiftDown
    let s := if isShift scancode then { s with shiftDown := 1 } else s
    ((keystrokes scancode (shiftDown ≠ 0)).map (·.edit malloc)).foldl TextInput.exec s
  | .keyUp scancode => if isShift scancode then { s with shiftDown := 0 } else s
  | _ => s

/-- `text_input_update`, with the events that `input_read` returns. -/
def textInputUpdate (s : TextInput) (events : List (Event × Option (Nat → Byte))) : TextInput :=
  events.foldl (fun s e => s.event e.2 e.1) s

/-! ## Runs -/

/-- A text input, and the keys that are held. -/
structure Typing where
  input : TextInput
  held : Finset (BitVec 8)

/-- An event, and what `malloc` answers, should it be called. -/
abbrev KeyAction := Event × Option (Nat → Byte)

def Typing.after (t : Typing) (a : KeyAction) : Typing where
  input := t.input.event a.2 a.1
  held := a.1.replayKey t.held

/-- Each key goes down and up in turn. -/
def Alternates (held : Finset (BitVec 8)) : Event → Prop
  | .keyDown k => k ∉ held
  | .keyUp k => k ∈ held
  | _ => True

instance (held : Finset (BitVec 8)) : (e : Event) → Decidable (Alternates held e)
  | .keyDown k => inferInstanceAs (Decidable (k ∉ held))
  | .keyUp k => inferInstanceAs (Decidable (k ∈ held))
  | .mouseDown _ => .isTrue trivial
  | .mouseUp _ => .isTrue trivial
  | .mouseMove _ _ => .isTrue trivial

/-- An event that is well-formed, processed. -/
def Types (t : Typing) (a : KeyAction) (t' : Typing) : Prop :=
  Alternates t.held a.1 ∧ t' = t.after a

/-- No key is held, and the text input is new. -/
def NewTyping (t : Typing) : Prop := Allocated t.input ∧ t.held = ∅

/-- A shift key is held. -/
def ShiftHeld (held : Finset (BitVec 8)) : Prop := ∃ k ∈ held, isShift k

instance (held : Finset (BitVec 8)) : Decidable (ShiftHeld held) :=
  inferInstanceAs (Decidable (∃ k ∈ held, isShift k))

/-- Behind the event the flag says whether a shift key is held, and where the
event is that of a letter, what was added is the letter in the case of the
shift keys held before. -/
structure Typing.Follows (t : Typing) (a : KeyAction) : Prop where
  flag : (t.after a).input.shiftDown = 1 ↔ ShiftHeld (t.after a).held
  letter : ∀ k, isLetter k → a.1 = .keyDown k →
    (t.after a).input = t.input.exec (.addChar (letter (decide (ShiftHeld t.held)) k) a.2)

/-- A shift key is released only when the other one is not held. -/
def LastShift (held : Finset (BitVec 8)) (e : Event) : Prop :=
  ∀ k, e = .keyUp k → isShift k → ∀ k' ∈ held, isShift k' → k' = k

section

variable {s : TextInput} {t t' : Typing} {a : KeyAction} {malloc : Option (Nat → Byte)}
  {held : Finset (BitVec 8)} {e : Event} {c : Byte} {k : BitVec 8}

/-! ### The flag -/

theorem insertChar_shiftDown : (s.insertChar c).shiftDown = s.shiftDown := by
  obtain ⟨-, -, -, h⟩ := TextInput.shiftRight_same (n := (s.length - s.cursorIndex).toNat) (s := s)
  by_cases hmiddle : s.cursorIndex < s.length
  · simp only [TextInput.insertChar, if_pos hmiddle]
    split
    · exact h
    · exact h
  · simp only [TextInput.insertChar, if_neg hmiddle]
    split
    · rfl
    · rfl

/-- No call has to do with the flag. -/
theorem exec_shiftDown (s : TextInput) (e : Edit) : (s.exec e).shiftDown = s.shiftDown := by
  cases e with
  | addChar c malloc =>
    show (textInputAddChar s c malloc).2.shiftDown = _
    unfold textInputAddChar
    split
    · cases malloc with
      | none => rfl
      | some fresh => exact insertChar_shiftDown
    · exact insertChar_shiftDown
  | removeChar =>
    show (textInputRemoveChar s).2.shiftDown = _
    unfold textInputRemoveChar
    split
    · rfl
    dsimp only
    split
    · rfl
    · exact TextInput.shiftLeft_same.2.2.2
  | moveCursor dx =>
    show (textInputMoveCursor s dx).2.shiftDown = _
    unfold textInputMoveCursor
    split
    · rfl
    split
    · rfl
    split
    · rfl
    · rfl

theorem foldl_exec_shiftDown (edits : List Edit) (s : TextInput) :
    (edits.foldl TextInput.exec s).shiftDown = s.shiftDown := by
  induction edits generalizing s with
  | nil => rfl
  | cons e edits ih => exact (ih _).trans (exec_shiftDown s e)

/-- What an event makes of the flag. -/
theorem event_shiftDown : (s.event malloc e).shiftDown =
    match e with
    | .keyDown k => if isShift k then 1 else s.shiftDown
    | .keyUp k => if isShift k then 0 else s.shiftDown
    | _ => s.shiftDown := by
  cases e with
  | keyDown k =>
    refine (foldl_exec_shiftDown _ _).trans ?_
    dsimp only
    split
    · rfl
    · rfl
  | keyUp k =>
    show (if isShift k then { s with shiftDown := 0 } else s : TextInput).shiftDown = _
    dsimp only
    split
    · rfl
    · rfl
  | _ => rfl

/-- What an event makes of the shift keys that are held. -/
theorem shiftHeld_replayKey : ShiftHeld (e.replayKey held) ↔
    match e with
    | .keyDown k => isShift k ∨ ShiftHeld held
    | .keyUp k => ∃ k' ∈ held, isShift k' ∧ k' ≠ k
    | _ => ShiftHeld held := by
  have hnone : isShift Usb.Hid.keyNone = false := rfl
  unfold ShiftHeld
  cases e with
  | keyDown k =>
    dsimp only [Event.replayKey]
    split
    · rename_i hk
      simp [hk, hnone]
    · simp
  | keyUp k =>
    dsimp only [Event.replayKey]
    split
    · rename_i hk
      constructor
      · rintro ⟨k', hk', hshift⟩
        refine ⟨k', hk', hshift, fun heq => ?_⟩
        rw [heq, hk, hnone] at hshift
        cases hshift
      · rintro ⟨k', hk', hshift, -⟩
        exact ⟨k', hk', hshift⟩
    · constructor
      · rintro ⟨k', hk', hshift⟩
        obtain ⟨hne, hmem⟩ := Finset.mem_erase.mp hk'
        exact ⟨k', hmem, hshift, hne⟩
      · rintro ⟨k', hk', hshift, hne⟩
        exact ⟨k', Finset.mem_erase.mpr ⟨hne, hk'⟩, hshift⟩
  | _ => rfl

/-! ### Letters -/

theorem keystrokes_letter : ∀ (k : BitVec 8) (upper : Bool), isLetter k →
    isShift k = false ∧ keystrokes k upper = [.addChar (letter upper k)] := by
  decide +kernel

/-- A letter is added in the case of the flag. -/
theorem event_letter (hk : isLetter k) : s.event malloc (.keyDown k) =
    s.exec (.addChar (letter (s.shiftDown ≠ 0) k) malloc) := by
  obtain ⟨hshift, hstrokes⟩ := keystrokes_letter k (s.shiftDown ≠ 0) hk
  unfold TextInput.event
  dsimp only
  rw [hstrokes, hshift]
  rfl

/-! ### Steps -/

/-- The flag is 1 when a shift key is held, and 0 otherwise. -/
def Typing.Inv (t : Typing) : Prop := t.input.shiftDown = if ShiftHeld t.held then 1 else 0

theorem Typing.Inv.flag (h : t.Inv) : t.input.shiftDown = 1 ↔ ShiftHeld t.held := by
  rw [show t.input.shiftDown = _ from h]
  split
  · exact iff_of_true rfl ‹_›
  · exact iff_of_false (by decide) ‹_›

/-- An event at which no shift key is released while the other one is held
keeps the flag right, and it is no other event that does. -/
theorem after_inv_iff (h : t.Inv) : (t.after a).Inv ↔ LastShift t.held a.1 := by
  obtain ⟨e, malloc⟩ := a
  unfold Typing.Inv Typing.after
  dsimp only
  rw [event_shiftDown]
  cases e with
  | keyDown k =>
    have hlast : LastShift t.held (.keyDown k) := nofun
    refine iff_of_true ?_ hlast
    simp only [shiftHeld_replayKey]
    by_cases hk : isShift k
    · simp [hk]
    · simp only [hk, Bool.false_eq_true, false_or]
      exact h
  | keyUp k =>
    simp only [shiftHeld_replayKey]
    by_cases hk : isShift k
    · have hlast : LastShift t.held (.keyUp k) ↔ ¬∃ k' ∈ t.held, isShift k' ∧ k' ≠ k := by
        constructor
        · rintro hlast ⟨k', hmem, hshift, hne⟩
          exact hne (hlast k rfl hk k' hmem hshift)
        · rintro hnone _ ⟨rfl⟩ - k' hmem hshift
          by_contra hne
          exact hnone ⟨k', hmem, hshift, hne⟩
      rw [hlast, if_pos hk]
      split
      · exact iff_of_false (by decide) (not_not_intro ‹_›)
      · exact iff_of_true rfl ‹_›
    · have hlast : LastShift t.held (.keyUp k) := by
        rintro _ ⟨rfl⟩ hshift
        exact absurd hshift hk
      refine iff_of_true ?_ hlast
      have hsame : (∃ k' ∈ t.held, isShift k' ∧ k' ≠ k) ↔ ShiftHeld t.held := by
        constructor
        · rintro ⟨k', hmem, hshift, -⟩
          exact ⟨k', hmem, hshift⟩
        · rintro ⟨k', hmem, hshift⟩
          exact ⟨k', hmem, hshift, fun heq => hk (heq ▸ hshift)⟩
      simp only [hk, hsame]
      exact h
  | _ => exact iff_of_true h nofun

theorem after_flag (h : t.Inv) :
    (t.after a).input.shiftDown = 0 ∨ (t.after a).input.shiftDown = 1 := by
  have hbefore : t.input.shiftDown = 0 ∨ t.input.shiftDown = 1 := by
    rw [show t.input.shiftDown = _ from h]
    split
    · exact .inr rfl
    · exact .inl rfl
  obtain ⟨e, malloc⟩ := a
  show (t.input.event malloc e).shiftDown = 0 ∨ (t.input.event malloc e).shiftDown = 1
  rw [event_shiftDown]
  cases e with
  | keyDown k =>
    dsimp only
    split
    · exact .inr rfl
    · exact hbefore
  | keyUp k =>
    dsimp only
    split
    · exact .inl rfl
    · exact hbefore
  | _ => exact hbefore

theorem follows_iff (h : t.Inv) : t.Follows a ↔ (t.after a).Inv := by
  constructor
  · intro hfollows
    have hflag := hfollows.flag
    unfold Typing.Inv
    split
    · exact hflag.mpr ‹_›
    · exact (after_flag h).resolve_right fun hone => absurd (hflag.mp hone) ‹_›
  · intro hafter
    refine ⟨hafter.flag, fun k hk hdown => ?_⟩
    have hletter : (t.after a).input = t.input.event a.2 (.keyDown k) := by rw [← hdown]; rfl
    have hupper : decide (t.input.shiftDown ≠ 0) = decide (ShiftHeld t.held) := by
      rw [decide_eq_decide, show t.input.shiftDown = _ from h]
      split
      · exact iff_of_true (by decide) ‹_›
      · exact iff_of_false (by decide) ‹_›
    rw [hletter, event_letter hk, hupper]

end

/-- Behind every event of a run the flag follows the shift keys, and every
letter is in their case, exactly when no shift key is released while the
other one is held. -/
theorem shiftDown_follows_iff {history : List (Typing × KeyAction)} {t : Typing}
    (h : Run NewTyping Types history t) :
    (∀ p ∈ history, p.1.Follows p.2) ↔ ∀ p ∈ history, LastShift p.1.held p.2.1 := by
  have hstart (t : Typing) (ht : NewTyping t) : t.Inv := by
    have hnone : ¬ShiftHeld t.held := by
      rw [ht.2]
      rintro ⟨k, hk, -⟩
      exact absurd hk (Finset.notMem_empty k)
    unfold Typing.Inv
    rw [if_neg hnone]
    exact (TextInput.allocated_spec ht.1).2.2.2.1
  have hstep (t : Typing) (a : KeyAction) (t' : Typing) (hinv : t.Inv)
      (hlast : LastShift t.held a.1) (htypes : Types t a t') : t'.Inv := by
    obtain ⟨-, rfl⟩ := htypes
    exact (after_inv_iff hinv).mpr hlast
  have hfollows (t : Typing) (a : KeyAction) (t' : Typing) (hinv : t.Inv)
      (_ : Types t a t') : t.Follows a ↔ LastShift t.held a.1 :=
    (follows_iff hinv).trans (after_inv_iff hinv)
  exact h.all_iff hstart hstep hfollows

/-- Shift, a letter, and shift again: nothing is released too early. -/
theorem oneShift_follows : let t₀ : Typing := ⟨newTextInput fun _ => 0, ∅⟩
    let down : KeyAction := (.keyDown Key.leftshift.code, none)
    let a : KeyAction := (.keyDown Key.a.code, none)
    let up : KeyAction := (.keyUp Key.leftshift.code, none)
    let t₁ := t₀.after down
    let t₂ := t₁.after a
    ∀ p ∈ [(t₂, up), (t₁, a), (t₀, down)], p.1.Follows p.2 := by
  intro t₀ down a up t₁ t₂
  have h : Run NewTyping Types [(t₂, up), (t₁, a), (t₀, down)] (t₂.after up) :=
    .next (.next (.next (.start ⟨TextInput.newTextInput_allocated _, rfl⟩)
      ⟨by decide, rfl⟩) ⟨by decide, rfl⟩) ⟨by decide, rfl⟩
  have honly : ∀ k ∈ t₂.held, isShift k → k = Key.leftshift.code := by decide
  refine (shiftDown_follows_iff h).mpr (List.forall_mem_cons.mpr ⟨?_,
    List.forall_mem_cons.mpr ⟨nofun, List.forall_mem_cons.mpr ⟨nofun, List.forall_mem_nil _⟩⟩⟩)
  rintro _ ⟨rfl⟩ -
  exact honly

/-- Both shift keys are pressed and one is released: the other one is held,
and the flag is 0. -/
theorem twoShifts_lost : ∃ history t, Run NewTyping Types history t ∧
    ShiftHeld t.held ∧ t.input.shiftDown = 0 := by
  let t₀ : Typing := ⟨newTextInput fun _ => 0, ∅⟩
  let t₁ := t₀.after (.keyDown Key.leftshift.code, none)
  let t₂ := t₁.after (.keyDown Key.rightshift.code, none)
  have h : Run NewTyping Types _ (t₂.after (.keyUp Key.rightshift.code, none)) :=
    .next (.next (.next (.start ⟨TextInput.newTextInput_allocated _, rfl⟩)
      ⟨by decide, rfl⟩) ⟨by decide, rfl⟩) ⟨by decide, rfl⟩
  exact ⟨_, _, h, by decide, rfl⟩

end ZOs.Compositor
