import Mathlib.Data.List.Count
import Mathlib.Data.List.GetD
import ZOs.Compositor.Paint
import ZOs.Lib.Bytes

/-!
# The caret and the text

`font.c` lays out a text twice: to draw it, and to say where its caret is.
The pen advances and the height of a line are whole numbers here. Both loops
take the pen the same way; the caret is left without a place where no
character up to it has one, and the atlas of 96 characters is read one behind
its end for the character 128.
-/

namespace ZOs.Compositor

open Bytes Checked

/-! ## The functions -/

/-- A text that is ended by a NUL. -/
structure CString where
  bytes : List Byte
  nonzero : 0 ∉ bytes

/-- `text[i]`, up to the NUL. -/
def CString.char (text : CString) (i : Nat) : Byte := text.bytes.getD i 0

/-- What the layout comes to grief at: `packed_chars` is read behind its end,
or `strlen` does not count the text in an `int`. -/
inductive LayoutFault
  | outOfTable
  | overflow
  deriving DecidableEq

/-- `strlen`, of a result that is compared as unsigned. -/
def CString.strlen (text : CString) : Except LayoutFault Word32 :=
  if text.bytes.length < 2 ^ 31 then .ok (BitVec.ofNat 32 text.bytes.length) else .error .overflow

/-- `ATLAS_NUM_CHARS`. -/
def atlasNumChars : Nat := 96

/-- `ATLAS_FIRST_CHAR`. -/
def atlasFirstChar : Nat := 32

/-- `font_atlas_t`, as far as the layout reads it. -/
structure Font where
  xadvance : Nat → Word32
  lineHeight : Word32

/-- `packed_chars[glyph_index].xadvance`. -/
def Font.packedXadvance (font : Font) (glyphIndex : Nat) : Except LayoutFault Word32 :=
  if glyphIndex < atlasNumChars then .ok (font.xadvance glyphIndex) else .error .outOfTable

/-- `codepoint == '\n'`. -/
def isNewline (c : Byte) : Bool := c = 0x0a

/-- `codepoint < ATLAS_FIRST_CHAR || codepoint > ATLAS_FIRST_CHAR + ATLAS_NUM_CHARS`. -/
def isSkipped (c : Byte) : Bool :=
  c.toNat < atlasFirstChar ∨ atlasFirstChar + atlasNumChars < c.toNat

/-- The variables of `font_calculate_cursor_pos`, and its outputs as far as
they are assigned. -/
structure Caret where
  cursorX : Word32
  cursorY : Word32
  out : Option (Word32 × Word32)

/-- A round of `font_calculate_cursor_pos`. -/
def caretRound (font : Font) (text : CString) (x : Word32) (i : Nat) (s : Caret) :
    Except LayoutFault Caret :=
  let codepoint := text.char i
  if isNewline codepoint then
    let cursorY := s.cursorY + font.lineHeight
    .ok ⟨x, cursorY, some (x, cursorY)⟩
  else if isSkipped codepoint then .ok s
  else
    (font.packedXadvance (codepoint.toNat - atlasFirstChar)).map fun xadvance =>
      ⟨s.cursorX + xadvance, s.cursorY, some (s.cursorX, s.cursorY)⟩

/-- `font_calculate_cursor_pos`: the result and the outputs. -/
def fontCalculateCursorPos (font : Font) (text : CString) (glyphIndex x baseline : Word32) :
    Except LayoutFault (Int × Option (Word32 × Word32)) := do
  let length ← text.strlen
  if length < glyphIndex then return (-1, none)
  else
    let s ← forTo (glyphIndex.toNat + 1) (caretRound font text x) ⟨x, baseline, none⟩
    return (0, s.out)

/-- A character that is drawn: its index, and the pen. -/
structure Drawn where
  index : Nat
  cursorX : Word32
  cursorY : Word32

/-- The variables of `font_draw_text_bitmap`, and what is drawn. -/
structure Pen where
  cursorX : Word32
  cursorY : Word32
  drawn : List Drawn

/-- A round of `font_draw_text_bitmap`. -/
def drawRound (font : Font) (text : CString) (x : Word32) (i : Nat) (s : Pen) :
    Except LayoutFault Pen :=
  let codepoint := text.char i
  if isNewline codepoint then .ok ⟨x, s.cursorY + font.lineHeight, s.drawn⟩
  else if isSkipped codepoint then .ok s
  else
    (font.packedXadvance (codepoint.toNat - atlasFirstChar)).map fun xadvance =>
      ⟨s.cursorX + xadvance, s.cursorY, s.drawn ++ [⟨i, s.cursorX, s.cursorY⟩]⟩

/-- `font_draw_text_bitmap`: what is drawn. The result is 0. -/
def fontDrawTextBitmap (font : Font) (text : CString) (x baseline : Word32) :
    Except LayoutFault (List Drawn) := do
  let length ← text.strlen
  let s ← forTo length.toNat (drawRound font text x) ⟨x, baseline, []⟩
  return s.drawn

/-! ## The pen -/

section

variable (font : Font) (text : CString) (x baseline : Word32)

/-- Where the pen is behind a character. -/
def penStep (c : Byte) (pen : Word32 × Word32) : Word32 × Word32 :=
  if isNewline c then (x, pen.2 + font.lineHeight)
  else if isSkipped c then pen
  else (pen.1 + font.xadvance (c.toNat - atlasFirstChar), pen.2)

/-- Where the pen is before character `i`. -/
def penAt : Nat → Word32 × Word32
  | 0 => (x, baseline)
  | i + 1 => penStep font x (text.char i) (penAt i)

/-- The outputs behind the characters below `i`. -/
def caretAt : Nat → Option (Word32 × Word32)
  | 0 => none
  | i + 1 =>
    if isNewline (text.char i) then some (penAt font text x baseline (i + 1))
    else if isSkipped (text.char i) then caretAt i
    else some (penAt font text x baseline i)

/-- The characters below `i` that are drawn. -/
def drawnAt : Nat → List Drawn
  | 0 => []
  | i + 1 =>
    if isNewline (text.char i) ∨ isSkipped (text.char i) then drawnAt i
    else drawnAt i ++ [⟨i, (penAt font text x baseline i).1, (penAt font text x baseline i).2⟩]

end

section

variable {font : Font} {text : CString} {x baseline glyphIndex : Word32} {i n : Nat} {c : Byte}

/-- The character behind the last one of the atlas. -/
def behindAtlas : Byte := 128

/-- A character that is neither skipped nor 128 is in the atlas. -/
theorem packedXadvance_ok (hskip : isSkipped c = false) (hbehind : c ≠ behindAtlas) :
    font.packedXadvance (c.toNat - atlasFirstChar) =
      .ok (font.xadvance (c.toNat - atlasFirstChar)) := by
  have hne : c.toNat ≠ 128 := fun h => hbehind (BitVec.eq_of_toNat_eq h)
  have hskip' : ¬(c.toNat < 32 ∨ 32 + 96 < c.toNat) := of_decide_eq_false hskip
  apply if_pos
  show c.toNat - 32 < 96
  omega

/-- A round of either loop fails for the character 128 only. -/
theorem caretRound_eq (s : Caret) : caretRound font text x i s =
    if text.char i = behindAtlas then .error .outOfTable
    else .ok ⟨(penStep font x (text.char i) (s.cursorX, s.cursorY)).1,
      (penStep font x (text.char i) (s.cursorX, s.cursorY)).2,
      if isNewline (text.char i) then some (penStep font x (text.char i) (s.cursorX, s.cursorY))
      else if isSkipped (text.char i) then s.out else some (s.cursorX, s.cursorY)⟩ := by
  unfold caretRound penStep
  dsimp only
  generalize text.char i = c
  by_cases hbehind : c = behindAtlas
  · subst hbehind
    rfl
  · rw [if_neg hbehind]
    split
    · rfl
    split
    · rfl
    · rename_i hskip
      rw [packedXadvance_ok (Bool.eq_false_of_not_eq_true hskip) hbehind]
      rfl

theorem drawRound_eq (s : Pen) : drawRound font text x i s =
    if text.char i = behindAtlas then .error .outOfTable
    else .ok ⟨(penStep font x (text.char i) (s.cursorX, s.cursorY)).1,
      (penStep font x (text.char i) (s.cursorX, s.cursorY)).2,
      if isNewline (text.char i) ∨ isSkipped (text.char i) then s.drawn
      else s.drawn ++ [⟨i, s.cursorX, s.cursorY⟩]⟩ := by
  unfold drawRound penStep
  dsimp only
  generalize text.char i = c
  by_cases hbehind : c = behindAtlas
  · subst hbehind
    rfl
  · rw [if_neg hbehind]
    split
    · rename_i hnewline
      rw [if_pos (.inl hnewline)]
    split
    · rename_i hskip
      rw [if_pos (.inr hskip)]
    · rename_i hnewline hskip
      rw [packedXadvance_ok (Bool.eq_false_of_not_eq_true hskip) hbehind,
        if_neg (fun h => h.elim hnewline hskip)]
      rfl

/-- The loop of `font_calculate_cursor_pos`. -/
theorem caret_loop : forTo n (caretRound font text x) ⟨x, baseline, none⟩ =
    if ∃ i < n, text.char i = behindAtlas then .error .outOfTable
    else .ok ⟨(penAt font text x baseline n).1, (penAt font text x baseline n).2,
      caretAt font text x baseline n⟩ :=
  forTo_eq (fun i => (⟨(penAt font text x baseline i).1, (penAt font text x baseline i).2,
    caretAt font text x baseline i⟩ : Caret)) fun _ _ => caretRound_eq _

/-- The loop of `font_draw_text_bitmap`. -/
theorem draw_loop : forTo n (drawRound font text x) ⟨x, baseline, []⟩ =
    if ∃ i < n, text.char i = behindAtlas then .error .outOfTable
    else .ok ⟨(penAt font text x baseline n).1, (penAt font text x baseline n).2,
      drawnAt font text x baseline n⟩ :=
  forTo_eq (fun i => (⟨(penAt font text x baseline i).1, (penAt font text x baseline i).2,
    drawnAt font text x baseline i⟩ : Pen)) fun _ _ => drawRound_eq _

/-- A character at which the outputs are assigned. -/
def Places (c : Byte) : Prop := isNewline c ∨ ¬isSkipped c

instance (c : Byte) : Decidable (Places c) := inferInstanceAs (Decidable (_ ∨ _))

/-- The outputs are assigned from the first character on that has a place. -/
theorem caretAt_isSome :
    (caretAt font text x baseline n).isSome ↔ ∃ i < n, Places (text.char i) := by
  induction n with
  | zero => simp [caretAt]
  | succ n ih =>
    have hsplit : (∃ i < n + 1, Places (text.char i)) ↔
        (∃ i < n, Places (text.char i)) ∨ Places (text.char n) := by
      simp only [Nat.lt_succ_iff_lt_or_eq, or_and_right, exists_or, exists_eq_left]
    rw [hsplit, ← ih, caretAt]
    unfold Places
    split
    · simp [*]
    split
    · simp [*]
    · simp [*]

/-- A character that has its glyph drawn. -/
def Printable (c : Byte) : Prop := ¬isNewline c ∧ ¬isSkipped c

theorem mem_drawnAt (hi : i < n) (hprintable : Printable (text.char i)) :
    ⟨i, (penAt font text x baseline i).1, (penAt font text x baseline i).2⟩ ∈
      drawnAt font text x baseline n := by
  induction n with
  | zero => exact absurd hi (Nat.not_lt_zero i)
  | succ n ih =>
    rw [drawnAt]
    rcases Nat.lt_succ_iff_lt_or_eq.mp hi with hlt | rfl
    · split
      · exact ih hlt
      · exact List.mem_append_left _ (ih hlt)
    · rw [if_neg fun h => h.elim hprintable.1 hprintable.2]
      exact List.mem_append_right _ (List.mem_singleton_self _)

/-- The newlines among the first characters. -/
def newlines (text : CString) (n : Nat) : Nat := ((List.range n).map text.char).countP isNewline

theorem newlines_succ : newlines text (n + 1) =
    newlines text n + if isNewline (text.char n) then 1 else 0 := by
  rw [newlines, List.range_succ, List.map_append, List.countP_append]
  simp [newlines, List.countP_cons]

/-- The line that the pen is in. -/
theorem penAt_snd : (penAt font text x baseline n).2 =
    baseline + font.lineHeight * BitVec.ofNat 32 (newlines text n) := by
  induction n with
  | zero => simp [penAt, newlines]
  | succ n ih =>
    rw [penAt, penStep, newlines_succ]
    split
    · rw [ih, BitVec.ofNat_add, BitVec.mul_add, ← BitVec.add_assoc]
      simp
    split
    · exact ih
    · exact ih

/-! ## The whole text -/

theorem char_length (text : CString) : text.char text.bytes.length = 0 :=
  List.getD_eq_default _ _ (Nat.le_refl _)

theorem exists_char_iff {c : Byte} :
    (∃ i < text.bytes.length, text.char i = c) ↔ c ∈ text.bytes := by
  rw [List.mem_iff_getElem]
  constructor
  · rintro ⟨i, hi, hc⟩
    refine ⟨i, hi, ?_⟩
    rw [← hc, CString.char, List.getD_eq_getElem _ _ hi]
  · rintro ⟨i, hi, hc⟩
    refine ⟨i, hi, ?_⟩
    rw [CString.char, List.getD_eq_getElem _ _ hi, hc]

theorem fontCalculateCursorPos_eq (hlen : text.bytes.length < 2 ^ 31) :
    fontCalculateCursorPos font text glyphIndex x baseline =
      if text.bytes.length < glyphIndex.toNat then .ok (-1, none)
      else if ∃ i < glyphIndex.toNat + 1, text.char i = behindAtlas then .error .outOfTable
      else .ok (0, caretAt font text x baseline (glyphIndex.toNat + 1)) := by
  unfold fontCalculateCursorPos CString.strlen
  rw [if_pos hlen, ok_bind, caret_loop]
  have hiff : BitVec.ofNat 32 text.bytes.length < glyphIndex ↔
      text.bytes.length < glyphIndex.toNat := by
    rw [BitVec.lt_def, BitVec.toNat_ofNat, Nat.mod_eq_of_lt (by omega)]
  simp only [hiff]
  split
  · rfl
  split
  · rfl
  · rfl

theorem fontDrawTextBitmap_eq (hlen : text.bytes.length < 2 ^ 31) :
    fontDrawTextBitmap font text x baseline =
      if behindAtlas ∈ text.bytes then .error .outOfTable
      else .ok (drawnAt font text x baseline text.bytes.length) := by
  unfold fontDrawTextBitmap CString.strlen
  rw [if_pos hlen, ok_bind, draw_loop]
  have hcount : (BitVec.ofNat 32 text.bytes.length).toNat = text.bytes.length := by
    rw [BitVec.toNat_ofNat, Nat.mod_eq_of_lt (by omega)]
  rw [hcount]
  simp only [exists_char_iff]
  split
  · rfl
  · rfl

end

/-- What `font_calculate_cursor_pos` says of an index agrees with what
`font_draw_text_bitmap` draws, and neither reads behind the atlas: where it
returns 0, the outputs are assigned; a character that has its glyph drawn has
it drawn there, and a newline has the start of the next line. -/
structure CaretAgrees (font : Font) (text : CString) (glyphIndex x baseline : Word32) : Prop where
  caretInTable : fontCalculateCursorPos font text glyphIndex x baseline ≠ .error .outOfTable
  drawInTable : fontDrawTextBitmap font text x baseline ≠ .error .outOfTable
  agrees : ∀ out, fontCalculateCursorPos font text glyphIndex x baseline = .ok (0, out) →
    ∃ cursorX cursorY, out = some (cursorX, cursorY) ∧
      (Printable (text.char glyphIndex.toNat) → ∃ drawn,
        fontDrawTextBitmap font text x baseline = .ok drawn ∧
          ⟨glyphIndex.toNat, cursorX, cursorY⟩ ∈ drawn) ∧
      (isNewline (text.char glyphIndex.toNat) → cursorX = x ∧ cursorY =
        baseline + font.lineHeight * BitVec.ofNat 32 (newlines text (glyphIndex.toNat + 1)))

section

variable {font : Font} {text : CString} {x baseline glyphIndex : Word32} {i : Nat}

/-- At a character that has its glyph drawn, the caret is the pen. -/
theorem caretAt_printable (h : Printable (text.char i)) :
    caretAt font text x baseline (i + 1) = some (penAt font text x baseline i) := by
  rw [caretAt, if_neg h.1, if_neg h.2]

/-- At a newline, the caret is at the start of the next line. -/
theorem caretAt_newline (h : isNewline (text.char i)) : caretAt font text x baseline (i + 1) =
    some (x, baseline + font.lineHeight * BitVec.ofNat 32 (newlines text (i + 1))) := by
  have hx : (penAt font text x baseline (i + 1)).1 = x := by rw [penAt, penStep, if_pos h]
  rw [caretAt, if_pos h, ← penAt_snd (x := x)]
  exact congrArg some (Prod.ext hx rfl)

theorem caretAgrees_of_places (hlen : text.bytes.length < 2 ^ 31)
    (hbehind : behindAtlas ∉ text.bytes) (hindex : glyphIndex.toNat ≤ text.bytes.length)
    (hplaces : ∃ i ≤ glyphIndex.toNat, Places (text.char i)) :
    CaretAgrees font text glyphIndex x baseline := by
  have hnone : ¬∃ i < glyphIndex.toNat + 1, text.char i = behindAtlas := by
    rintro ⟨i, hi, hc⟩
    rcases Nat.lt_or_eq_of_le (Nat.le_trans (Nat.le_of_lt_succ hi) hindex) with hlt | rfl
    · exact hbehind (exists_char_iff.mp ⟨i, hlt, hc⟩)
    · rw [char_length] at hc
      cases hc
  have hcaret : fontCalculateCursorPos font text glyphIndex x baseline =
      .ok (0, caretAt font text x baseline (glyphIndex.toNat + 1)) := by
    rw [fontCalculateCursorPos_eq hlen, if_neg (Nat.not_lt_of_le hindex), if_neg hnone]
  have hdraw : fontDrawTextBitmap font text x baseline =
      .ok (drawnAt font text x baseline text.bytes.length) := by
    rw [fontDrawTextBitmap_eq hlen, if_neg hbehind]
  refine ⟨by rw [hcaret]; nofun, by rw [hdraw]; nofun, fun out hout => ?_⟩
  obtain rfl : caretAt font text x baseline (glyphIndex.toNat + 1) = out := by
    rw [hcaret] at hout
    exact congrArg Prod.snd (Except.ok.inj hout)
  obtain ⟨i, hi, hplace⟩ := hplaces
  have hsome : (caretAt font text x baseline (glyphIndex.toNat + 1)).isSome :=
    caretAt_isSome.mpr ⟨i, Nat.lt_succ_of_le hi, hplace⟩
  obtain ⟨⟨cursorX, cursorY⟩, hout⟩ := Option.isSome_iff_exists.mp hsome
  refine ⟨cursorX, cursorY, hout, fun hprintable => ⟨_, hdraw, ?_⟩, fun hnewline => ?_⟩
  · have hbefore : glyphIndex.toNat < text.bytes.length := by
      apply Nat.lt_of_le_of_ne hindex
      intro heq
      rw [heq, char_length] at hprintable
      exact hprintable.2 rfl
    rw [caretAt_printable hprintable] at hout
    have hpen := Option.some.inj hout
    have hmem : _ ∈ drawnAt font text x baseline text.bytes.length :=
      mem_drawnAt hbefore hprintable
    rwa [hpen] at hmem
  · rw [caretAt_newline hnewline] at hout
    obtain ⟨hx, hy⟩ := Prod.mk.inj (Option.some.inj hout)
    exact ⟨hx.symm, hy.symm⟩

end

/-- Caret and text agree exactly when the text is without the character 128
and, for an index in it, some character up to there has a place; but for a
text that `strlen` does not count. -/
theorem caretAgrees_iff (font : Font) (text : CString) (glyphIndex x baseline : Word32) :
    CaretAgrees font text glyphIndex x baseline ↔ (text.bytes.length < 2 ^ 31 →
      behindAtlas ∉ text.bytes ∧ (glyphIndex.toNat ≤ text.bytes.length →
        ∃ i ≤ glyphIndex.toNat, Places (text.char i))) := by
  constructor
  · intro h hlen
    have hbehind : behindAtlas ∉ text.bytes := by
      intro hmem
      refine h.drawInTable ?_
      rw [fontDrawTextBitmap_eq hlen, if_pos hmem]
    refine ⟨hbehind, fun hindex => ?_⟩
    have hcaret : fontCalculateCursorPos font text glyphIndex x baseline = _ :=
      fontCalculateCursorPos_eq hlen
    rw [if_neg (Nat.not_lt_of_le hindex)] at hcaret
    split at hcaret
    · exact absurd hcaret h.caretInTable
    · obtain ⟨cursorX, cursorY, hout, -⟩ := h.agrees _ hcaret
      obtain ⟨i, hi, hplaces⟩ := caretAt_isSome.mp (Option.isSome_iff_exists.mpr ⟨_, hout⟩)
      exact ⟨i, Nat.le_of_lt_succ hi, hplaces⟩
  · intro h
    by_cases hlen : text.bytes.length < 2 ^ 31
    · obtain ⟨hbehind, hplaces⟩ := h hlen
      by_cases hindex : text.bytes.length < glyphIndex.toNat
      · have hcaret : fontCalculateCursorPos font text glyphIndex x baseline = .ok (-1, none) := by
          rw [fontCalculateCursorPos_eq hlen, if_pos hindex]
        have hdraw : fontDrawTextBitmap font text x baseline =
            .ok (drawnAt font text x baseline text.bytes.length) := by
          rw [fontDrawTextBitmap_eq hlen, if_neg hbehind]
        refine ⟨by rw [hcaret]; nofun, by rw [hdraw]; nofun, fun out hout => ?_⟩
        rw [hcaret] at hout
        cases hout
      · have hle := Nat.le_of_not_lt hindex
        exact caretAgrees_of_places hlen hbehind hle (hplaces hle)
    · have hcaret : fontCalculateCursorPos font text glyphIndex x baseline = .error .overflow := by
        unfold fontCalculateCursorPos CString.strlen
        rw [if_neg hlen]
        rfl
      have hdraw : fontDrawTextBitmap font text x baseline = .error .overflow := by
        unfold fontDrawTextBitmap CString.strlen
        rw [if_neg hlen]
        rfl
      refine ⟨by rw [hcaret]; nofun, by rw [hdraw]; nofun, fun out hout => ?_⟩
      rw [hcaret] at hout
      cases hout

/-- The caret of the empty text is not assigned, and the text of the one
character 128 is laid out from behind the atlas. -/
theorem caret_disagrees : let font : Font := ⟨fun _ => 10, 20⟩
    ¬CaretAgrees font ⟨[], by decide⟩ 0 0 0 ∧ ¬CaretAgrees font ⟨[128], by decide⟩ 0 0 0 := by
  refine ⟨fun h => ?_, fun h => h.drawInTable rfl⟩
  obtain ⟨cursorX, cursorY, hout, -⟩ := h.agrees none rfl
  cases hout

end ZOs.Compositor
