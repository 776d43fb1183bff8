import ZOs.Compositor.Drawing
import ZOs.Compositor.Typist

/-!
# The text that is shown

`text_input_draw` takes the text to its NUL. What is typed has no NUL and
nothing that the font cannot draw, and the text is always ended: the string in
the buffer is the text, and every character of it has a place.
-/

namespace ZOs.Compositor

open Bytes Sequences
open Usb.Hid (Event)

/-- `text_input->text`, as far as it is read: up to a NUL, which is there
behind the text at the latest. -/
def TextInput.string (s : TextInput) : CString where
  bytes := (firstValues s.text (s.length.toNat + 1)).takeWhile (· ≠ 0)
  nonzero h := by simpa using List.mem_takeWhile_imp h

/-- A character that is drawn, or that ends a line. -/
def Typed (c : Byte) : Prop := c ≠ 0 ∧ c ≠ behindAtlas ∧ Places c

instance (c : Byte) : Decidable (Typed c) := inferInstanceAs (Decidable (_ ∧ _))

def Keystroke.Typed : Keystroke → Prop
  | .addChar c => Compositor.Typed c
  | _ => True

instance : DecidablePred Keystroke.Typed
  | .addChar c => inferInstanceAs (Decidable (Compositor.Typed c))
  | .removeChar => .isTrue trivial
  | .moveCursor _ => .isTrue trivial

/-- A text that is ended and can be drawn. -/
structure TextInput.Ready (s : TextInput) : Prop where
  sized : s.Sized
  terminated : s.text s.length.toNat = 0
  typed : ∀ c ∈ s.contents, Typed c

section

variable {s : TextInput} {t : Typist} {e : Event} {edit : Edit} {malloc : Option (Nat → Byte)}

/-- Whatever the key, what it adds can be drawn. -/
theorem keystrokes_typed : ∀ (k : BitVec 8) (shift : Bool),
    ∀ stroke ∈ keystrokes k shift, stroke.Typed := by
  decide +kernel

theorem stroke_typed {d : Document} {stroke : Keystroke} (hd : ∀ c ∈ d.text, Typed c)
    (hstroke : stroke.Typed) : ∀ c ∈ (d.stroke stroke).text, Typed c := by
  intro c hc
  cases stroke with
  | addChar new =>
    rcases List.eq_or_mem_of_mem_insertIdx hc with rfl | hold
    · exact hstroke
    · exact hd c hold
  | removeChar =>
    simp only [Document.stroke, Document.delete] at hc
    split at hc
    · exact hd c hc
    · exact hd c (List.mem_of_mem_eraseIdx hc)
  | moveCursor dx =>
    simp only [Document.stroke, Document.move] at hc
    split at hc
    · exact hd c hc
    · exact hd c hc

theorem strokes_typed {strokes : List Keystroke} {d : Document} (hd : ∀ c ∈ d.text, Typed c)
    (hstrokes : ∀ stroke ∈ strokes, stroke.Typed) :
    ∀ c ∈ (strokes.foldl Document.stroke d).text, Typed c := by
  induction strokes generalizing d with
  | nil => exact hd
  | cons stroke strokes ih =>
    obtain ⟨hfirst, hrest⟩ := List.forall_mem_cons.mp hstrokes
    exact ih (stroke_typed hd hfirst) hrest

theorem Typist.event_typed (ht : ∀ c ∈ t.document.text, Typed c) :
    ∀ c ∈ (t.event e).document.text, Typed c := by
  cases e with
  | keyDown k => exact strokes_typed ht (keystrokes_typed k t.shift)
  | _ => exact ht

/-- Every call leaves the text ended. -/
theorem exec_terminated (hs : s.Sized) (hedit : edit.Supplied) (hlen : s.length.toNat < 2 ^ 31)
    (hterminated : s.text s.length.toNat = 0) :
    (s.exec edit).text (s.exec edit).length.toNat = 0 := by
  cases edit with
  | addChar c malloc =>
    obtain ⟨fresh, rfl⟩ := Option.isSome_iff_exists.mp hedit
    simp only [TextInput.exec, textInputAddChar]
    split
    · exact (TextInput.insertChar_spec (s := s.grow fresh) hs.inside.cursor
        (by show s.length.toNat + 1 < _; omega)).terminated
    · exact (TextInput.insertChar_spec hs.inside.cursor (by omega)).terminated
  | removeChar =>
    by_cases hzero : s.cursorIndex = 0
    · have hexec : s.exec .removeChar = s := by simp [TextInput.exec, textInputRemoveChar, hzero]
      rwa [hexec]
    · exact (TextInput.removeChar_spec hs.inside hzero).terminated
  | moveCursor dx =>
    obtain ⟨hlength, htext, -⟩ := TextInput.moveCursor_same s dx
    simp only [TextInput.exec]
    rwa [hlength, htext]

/-- One event leaves a text that can be drawn. -/
theorem TextInput.Ready.event (h : s.Ready) (hmalloc : malloc.isSome)
    (hlen : s.length.toNat < 2 ^ 31) : (s.event malloc e).Ready ∧
      (s.event malloc e).length.toNat ≤ s.length.toNat + 1 := by
  have htypes : s.Types s.length.toNat s.typist := ⟨h.sized, rfl, Nat.le_refl _⟩
  obtain ⟨hsized, htypist, hlength⟩ := htypes.event hmalloc hlen (e := e)
  refine ⟨⟨hsized, ?_, ?_⟩, hlength⟩
  · cases e with
    | keyDown k =>
      have hone := length_keystrokes k (s.shiftDown ≠ 0)
      simp only [TextInput.event]
      generalize hstrokes : keystrokes k (s.shiftDown ≠ 0) = strokes at hone ⊢
      match strokes, hone with
      | [], _ =>
        simp only [List.map_nil, List.foldl_nil]
        split <;> exact h.terminated
      | [stroke], _ =>
        simp only [List.map_cons, List.map_nil, List.foldl_cons, List.foldl_nil]
        split
        · exact exec_terminated (s := { s with shiftDown := 1 })
            ⟨⟨h.sized.inside.cursor, h.sized.inside.length⟩, h.sized.capacity⟩
            (supplied_edit hmalloc stroke) hlen h.terminated
        · exact exec_terminated h.sized (supplied_edit hmalloc stroke) hlen h.terminated
    | keyUp k =>
      simp only [TextInput.event]
      split <;> exact h.terminated
    | _ => exact h.terminated
  · have hcontents : (s.event malloc e).contents = (s.typist.event e).document.text :=
      congrArg (·.document.text) htypist
    rw [hcontents]
    exact Typist.event_typed h.typed

theorem TextInput.Ready.update {events : List (Event × Option (Nat → Byte))} (h : s.Ready)
    (hmalloc : ∀ e ∈ events, e.2.isSome) (hlen : s.length.toNat + events.length ≤ 2 ^ 31) :
    (textInputUpdate s events).Ready ∧
      (textInputUpdate s events).length.toNat ≤ s.length.toNat + events.length := by
  induction events generalizing s with
  | nil => exact ⟨h, Nat.le_refl _⟩
  | cons e events ih =>
    obtain ⟨hfirst, hrest⟩ := List.forall_mem_cons.mp hmalloc
    rw [List.length_cons] at hlen
    obtain ⟨hready, hlength⟩ := h.event hfirst (by omega) (e := e.1)
    obtain ⟨hall, hlast⟩ := ih hready hrest (by omega)
    refine ⟨hall, hlast.trans ?_⟩
    rw [List.length_cons]
    omega

theorem allocated_ready (h : Allocated s) : s.Ready := by
  obtain ⟨hlength, -, -, -, htext, -⟩ := TextInput.allocated_spec h
  refine ⟨TextInput.allocated_sized h, ?_, fun c hc => ?_⟩
  · rw [hlength]
    exact htext
  · simp [TextInput.contents, firstValues, hlength] at hc

/-! ## The string -/

/-- The string in the buffer is the text. -/
theorem TextInput.Ready.string_bytes (h : s.Ready) : s.string.bytes = s.contents := by
  have hsplit : firstValues s.text (s.length.toNat + 1) = s.contents ++ [0] := by
    rw [firstValues, List.range_succ, List.map_append, List.map_singleton, h.terminated]
    rfl
  have hnonzero : ∀ c ∈ s.contents, (decide (c ≠ 0)) = true :=
    fun c hc => decide_eq_true (h.typed c hc).1
  simp only [TextInput.string, hsplit]
  rw [List.takeWhile_append_of_pos hnonzero]
  simp

/-- The text is drawn, and its caret has a place. -/
theorem TextInput.Ready.shown (h : s.Ready) (hlen : s.length.toNat < 2 ^ 31) :
    s.string.Legible ∧ (∀ c ∈ s.string.bytes, Places c) ∧
      s.cursorIndex.toNat ≤ s.string.bytes.length := by
  rw [h.string_bytes]
  have hlength : s.contents.length = s.length.toNat := TextInput.length_contents
  refine ⟨⟨?_, ?_⟩, fun c hc => (h.typed c hc).2.2, ?_⟩
  · rwa [h.string_bytes, hlength]
  · rw [h.string_bytes]
    exact fun hmem => (h.typed _ hmem).2.1 rfl
  · rw [hlength]
    exact h.sized.inside.cursor

end

end ZOs.Compositor
