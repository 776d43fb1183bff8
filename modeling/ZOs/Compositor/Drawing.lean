import Mathlib.Data.List.TakeWhile
import ZOs.Compositor.AlphaPaint
import ZOs.Compositor.Dragging
import ZOs.Compositor.TextInput
import ZOs.Compositor.TextLayout
import ZOs.Compositor.Windows

/-!
# Drawing

What `compositor_run` draws in a frame: the text input, the windows in the
order of their list, and the cursor. Each of these functions paints some layers
over what is there; `Draws` says which, and one function after the other paints
the layers of both.
-/

namespace ZOs.Compositor

open Bytes Checked Layers

/-! ## The functions -/

/-- `RGB_COLOR_WHITE`. -/
def white : Word32 := 0x00ffffff

/-- `RGB_COLOR_BLACK`. -/
def black : Word32 := 0x00000000

/-- `paint_draw_rect`. -/
def paintDrawRect (bitmap : Bitmap) (x y width height color : Word32) : Except Fault Bitmap := do
  let bitmap ← paintFillRect bitmap x y width 1 color
  let bitmap ← paintFillRect bitmap x (y + height - 1) width 1 color
  let bitmap ← paintFillRect bitmap x y 1 height color
  paintFillRect bitmap (x + width - 1) y 1 height color

/-- One pixel of `paint_swap_buffers`. -/
def swapPixel (back : Bitmap) (i : Nat) (bitmap : Bitmap) : Except Fault Bitmap :=
  if 4 * i + 4 ≤ back.size ∧ 4 * i + 4 ≤ bitmap.size then
    .ok { bitmap with
      pixels := fun offset => if offset = 4 * i then back.pixels (4 * i) else bitmap.pixels offset }
  else .error .outside

/-- `paint_swap_buffers`, of bitmaps in the one pixel format that there is. -/
def paintSwapBuffers (bitmap back : Bitmap) : Except Fault Bitmap :=
  forTo (bitmap.width * bitmap.height).toNat (swapPixel back) bitmap

/-- `font_atlas_t`, as far as drawing reads it: `place` has the rectangles of a
packed character for a pen, which come of floating-point numbers. -/
structure DrawFont extends Font where
  atlas : AlphaBitmap
  ascent : Word32
  place : Nat → Word32 → Word32 → Scaling

/-- What the layout of a text comes to grief at is undefined behaviour. -/
def laidOut {α : Type} (x : Except LayoutFault α) : Except Fault α := x.mapError fun _ => .outside

/-- The variables of `font_draw_text_bitmap`, and the bitmap. -/
structure TextDrawing where
  cursorX : Word32
  cursorY : Word32
  bitmap : Bitmap

/-- A round of `font_draw_text_bitmap`. -/
def glyphRound (font : DrawFont) (text : CString) (x color : Word32) (i : Nat)
    (s : TextDrawing) : Except Fault TextDrawing :=
  let codepoint := text.char i
  if isNewline codepoint then .ok ⟨x, s.cursorY + font.lineHeight, s.bitmap⟩
  else if isSkipped codepoint then .ok s
  else do
    let glyphIndex := codepoint.toNat - atlasFirstChar
    let xadvance ← laidOut (font.packedXadvance glyphIndex)
    let bitmap ← paintDrawAlphaBitmapScaled s.bitmap font.atlas
      (font.place glyphIndex s.cursorX s.cursorY) color
    return ⟨s.cursorX + xadvance, s.cursorY, bitmap⟩

/-- `font_draw_text_bitmap`, with the bitmap that it draws on. -/
def fontDrawText (font : DrawFont) (bitmap : Bitmap) (text : CString)
    (x baseline color : Word32) : Except Fault Bitmap := do
  let length ← laidOut text.strlen
  let s ← forTo length.toNat (glyphRound font text x color) ⟨x, baseline, bitmap⟩
  return s.bitmap

/-- `window->name`, as far as it is read. -/
def Window.title (window : Window) : CString where
  bytes := (window.name.map UInt8.toBitVec).takeWhile (· ≠ 0)
  nonzero h := by simpa using List.mem_takeWhile_imp h

/-- `compositor_window_render`, of a window at a place. -/
def compositorWindowRender (font : DrawFont) (window : Window) (x y : Word32)
    (backFramebuffer : Bitmap) : Except Fault Bitmap := do
  let width := window.width.setWidth 32
  let height := window.height.setWidth 32
  let bitmap ← paintFillRect backFramebuffer x y width 28 black
  let bitmap ← paintDrawRect bitmap x y width 28 white
  let bitmap ← fontDrawText font bitmap window.title (x + 8) (y + 18) white
  let bitmap ← paintBlitBitmap bitmap window.framebuffer x (y + 28)
  paintDrawRect bitmap x (y + 28 - 1) width (height + 1) white

/-- `CURSOR_IDLE_COLOR`. -/
def cursorIdleColor : Word32 := (255 <<< 16) ||| (255 <<< 8) ||| 255

/-- `CURSOR_LEFT_CLICK_COLOR`. -/
def cursorLeftClickColor : Word32 := (255 <<< 16) ||| (0 <<< 8) ||| 0

/-- `CURSOR_RIGHT_CLICK_COLOR`. -/
def cursorRightClickColor : Word32 := (0 <<< 16) ||| (255 <<< 8) ||| 0

/-- The color in which `cursor_draw` draws. -/
def Cursor.color (c : Cursor) : Word32 :=
  if c.leftClick then cursorLeftClickColor
  else if c.rightClick then cursorRightClickColor
  else cursorIdleColor

/-- `cursor_draw`. -/
def cursorDraw (c : Cursor) (backFramebuffer : Bitmap) : Except Fault Bitmap :=
  paintFillRect backFramebuffer (BitVec.ofInt 32 c.x) (BitVec.ofInt 32 c.y) cursorSize cursorSize
    c.color

/-- `TEXT_INPUT_CHAR_WIDTH`. -/
def textInputCharWidth : Word32 := 8

/-- Where `text_input_draw` draws the caret. Two outputs of
`font_calculate_cursor_pos` that are not assigned are what the stack holds. -/
def caretPlace (font : DrawFont) (text : CString) (cursorIndex : Word32)
    (stale : Word32 × Word32) : Except Fault (Word32 × Word32) :=
  if cursorIndex = 0 then .ok (0, 0)
  else do
    let c := text.char (cursorIndex - 1).toNat
    let xOff := if isNewline c then 0 else textInputCharWidth
    let (_, out) ← laidOut
      (fontCalculateCursorPos font.toFont text (cursorIndex - 1) 0 (0 + font.ascent))
    let (cursorX, cursorY) := out.getD stale
    return (cursorX + xOff, cursorY - font.ascent)

/-- `text_input_draw`, of a text input with the position, the colors and the
caret that `text_input_alloc` gives it. -/
def textInputDraw (font : DrawFont) (text : CString) (cursorIndex : Word32) (timeMs : Nat)
    (stale : Word32 × Word32) (backFramebuffer : Bitmap) : Except Fault Bitmap := do
  let length ← laidOut text.strlen
  let bitmap ← if 0 < length then fontDrawText font backFramebuffer text 0 (0 + font.ascent) white
    else pure backFramebuffer
  if timeMs % 1000 < 500 then
    let (x, y) ← caretPlace font text cursorIndex stale
    paintFillRect bitmap x y textInputCharWidth font.lineHeight white
  else return bitmap

section

variable {b b₁ b₂ b' back : Bitmap} {x y w h color : Word32}
  {below above layers : List Picture} {f g : Bitmap → Except Fault Bitmap}

/-! ## Painters -/

/-- Whatever the bitmap, the function paints these layers over it. -/
def Draws (layers : List Picture) (f : Bitmap → Except Fault Bitmap) : Prop :=
  ∀ b, b.Whole → b.Small → ∃ b', f b = .ok b' ∧ Renders (paint layers) b b'

theorem Same.small (hsame : Same b b') (hb : b.Small) : b'.Small :=
  ⟨by rw [hsame.width]; exact hb.width, by rw [hsame.height]; exact hb.height⟩

theorem Draws.nil : Draws [] (pure : Bitmap → Except Fault Bitmap) :=
  fun b _ _ => ⟨b, rfl, .refl b⟩

/-- One after the other. -/
theorem Draws.bind (hf : Draws below f) (hg : Draws above g) :
    Draws (below ++ above) fun b => f b >>= g := by
  intro b hb hsmall
  obtain ⟨b₁, hfirst, hbelow⟩ := hf b hb hsmall
  obtain ⟨b₂, hsecond, habove⟩ := hg b₁ (hbelow.same.whole hb) (hbelow.same.small hsmall)
  refine ⟨b₂, ?_, ?_⟩
  · show (f b >>= g) = _
    rw [hfirst, ok_bind, hsecond]
  have hlayers : paint (below ++ above) = fun p color => paint above p (paint below p color) :=
    funext fun p => funext fun color => paint_append
  rw [hlayers]
  exact hbelow.trans habove

theorem Draws.single {layer : Picture}
    (h : ∀ b, b.Whole → b.Small → ∃ b', f b = .ok b' ∧ Renders layer b b') : Draws [layer] f := h

/-! ## `paint_fill_rect` and `paint_blit_bitmap` -/

/-- A rectangle in one color. -/
def Rect.filled (r : Rect) (color : Word32) : Picture := fill r.Has fun _ => color

theorem fillPixel_touched (h : fillPixel color x y b = .ok b') :
    Touched x y (fun _ => color) b b' := by
  cases hclips : b.clips x y with
  | true =>
    rw [fillPixel, hclips] at h
    cases h
    exact .of_clips hclips
  | false =>
    rw [fillPixel, hclips] at h
    exact store_touched hclips h

theorem paintFillRect_draws (x y color : Word32) (hw : w.toNat ≤ 2 ^ 31) (hh : h.toNat ≤ 2 ^ 31) :
    Draws [(Rect.mk x.toInt y.toInt w.toNat h.toNat).filled color]
      fun b => paintFillRect b x y w h color := by
  apply Draws.single
  intro b hb hsmall
  obtain ⟨b', hfill⟩ := paintFillRect_returns hb x y w h color
  exact ⟨b', hfill, renders_grid hb hsmall hh hw
    (fun _ _ _ _ _ _ _ hone => fillPixel_touched hone) hfill⟩

/-- A bitmap at a place. -/
def Bitmap.shown (src : Bitmap) (x y : Int) : Picture :=
  fill (Rect.mk x y src.width.toNat src.height.toNat).Has fun p =>
    src.at (BitVec.ofNat 32 (p.1 - x).toNat) (BitVec.ofNat 32 (p.2 - y).toNat)

theorem blitAt_touched {src : Bitmap} {i j : Nat} (h : blitAt src x y i j b = .ok b') :
    Touched (x + BitVec.ofNat 32 j) (y + BitVec.ofNat 32 i)
      (fun _ => src.at (BitVec.ofNat 32 j) (BitVec.ofNat 32 i)) b b' := by
  simp only [blitAt] at h
  cases hclips : b.clips (x + BitVec.ofNat 32 j) (y + BitVec.ofNat 32 i) with
  | true =>
    rw [hclips] at h
    cases h
    exact .of_clips hclips
  | false =>
    rw [hclips] at h
    obtain ⟨color, hload, hstore⟩ := bind_eq_ok.mp h
    rw [load_at hload] at hstore
    exact store_touched hclips hstore

theorem paintBlitBitmap_draws {src : Bitmap} (hsrc : src.Whole) (hsmallSrc : src.Small)
    (x y : Word32) : Draws [src.shown x.toInt y.toInt] fun b => paintBlitBitmap b src x y := by
  apply Draws.single
  intro b hb hsmall
  obtain ⟨b', hblit⟩ := paintBlitBitmap_returns hb hsrc x y
  exact ⟨b', hblit, renders_grid hb hsmall (Nat.le_of_lt hsmallSrc.height)
    (Nat.le_of_lt hsmallSrc.width) (fun _ _ _ _ _ _ _ hone => blitAt_touched hone) hblit⟩

/-! ## `paint_draw_rect` -/

/-- The layers of the edges: those of a rectangle of no width are a column
apart all the same. -/
def Rect.edges (r : Rect) (color : Word32) : List Picture :=
  [(Rect.mk r.x r.y r.width 1).filled color,
    (Rect.mk r.x (r.y + r.height - 1) r.width 1).filled color,
    (Rect.mk r.x r.y 1 r.height).filled color,
    (Rect.mk (r.x + r.width - 1) r.y 1 r.height).filled color]

/-- Coordinates and sides such that no sum leaves the range. -/
def Near (x : Word32) : Prop := -2 ^ 30 ≤ x.toInt ∧ x.toInt ≤ 2 ^ 30

theorem Near.edge (hx : Near x) (hw : w.toNat ≤ 2 ^ 30) :
    (x + w - 1).toInt = x.toInt + w.toNat - 1 := by
  obtain ⟨hlow, hhigh⟩ := hx
  have hwidth : w.toInt = w.toNat := BitVec.toInt_eq_toNat_of_lt (by omega)
  have hone : (1 : Word32).toInt = 1 := rfl
  rw [BitVec.toInt_sub, BitVec.toInt_add, hwidth, hone, Int.bmod_sub_bmod]
  exact Int.bmod_eq_of_le_mul_two (by omega) (by omega)

theorem paintDrawRect_draws (color : Word32) (hx : Near x) (hy : Near y) (hw : w.toNat ≤ 2 ^ 30)
    (hh : h.toNat ≤ 2 ^ 30) :
    Draws ((Rect.mk x.toInt y.toInt w.toNat h.toNat).edges color)
      fun b => paintDrawRect b x y w h color := by
  have hone : (1 : Word32).toNat ≤ 2 ^ 31 := by decide
  have htop := paintFillRect_draws x y color (by omega : w.toNat ≤ 2 ^ 31) hone
  have hbottom := paintFillRect_draws x (y + h - 1) color (by omega : w.toNat ≤ 2 ^ 31) hone
  have hleft := paintFillRect_draws x y color hone (by omega : h.toNat ≤ 2 ^ 31)
  have hright := paintFillRect_draws (x + w - 1) y color hone (by omega : h.toNat ≤ 2 ^ 31)
  rw [hy.edge hh] at hbottom
  rw [hx.edge hw] at hright
  exact htop.bind (hbottom.bind (hleft.bind hright))

/-! ## `font_draw_text_bitmap` -/

/-- The rectangles of the packed characters are in the atlas, and a line is not
too high. -/
structure DrawFont.Sound (font : DrawFont) : Prop where
  inside : ∀ glyphIndex < atlasNumChars, ∀ cursorX cursorY,
    (font.place glyphIndex cursorX cursorY).Inside font.atlas
  lineHeight : font.lineHeight.toNat ≤ 2 ^ 31

/-- A text that is counted, and without the character behind the atlas. -/
structure CString.Legible (text : CString) : Prop where
  length : text.bytes.length < 2 ^ 31
  inAtlas : behindAtlas ∉ text.bytes

/-- A character where it is drawn. -/
def Drawn.picture (font : DrawFont) (text : CString) (color : Word32) (d : Drawn) : Picture :=
  (font.place ((text.char d.index).toNat - atlasFirstChar) d.cursorX d.cursorY).picture
    font.atlas color

/-- The layers of a text: the characters that the layout draws. -/
def textPictures (font : DrawFont) (text : CString) (x baseline color : Word32) (n : Nat) :
    List Picture :=
  (drawnAt font.toFont text x baseline n).map (Drawn.picture font text color)

variable {font : DrawFont} {text : CString} {baseline : Word32} {n i : Nat}

/-- A character that is neither skipped nor the one behind the atlas is in it. -/
theorem glyphIndex_lt {c : Byte} (hskip : isSkipped c = false) (hbehind : c ≠ behindAtlas) :
    c.toNat - atlasFirstChar < atlasNumChars := by
  have hne : c.toNat ≠ 128 := fun h => hbehind (BitVec.eq_of_toNat_eq h)
  have hskip' : ¬(c.toNat < 32 ∨ 32 + 96 < c.toNat) := of_decide_eq_false hskip
  show c.toNat - 32 < 96
  omega

/-- One character is laid out and drawn. -/
theorem glyphRound_spec (hfont : font.Sound) (hb : b.Whole) (hsmall : b.Small)
    (hbehind : text.char i ≠ behindAtlas) {s : TextDrawing}
    (hpen : (s.cursorX, s.cursorY) = penAt font.toFont text x baseline i)
    (hdrawn : Renders (paint (textPictures font text x baseline color i)) b s.bitmap) :
    ∃ s', glyphRound font text x color i s = .ok s' ∧
      (s'.cursorX, s'.cursorY) = penAt font.toFont text x baseline (i + 1) ∧
      Renders (paint (textPictures font text x baseline color (i + 1))) b s'.bitmap := by
  cases hnewline : isNewline (text.char i) with
  | true =>
    refine ⟨⟨x, s.cursorY + font.lineHeight, s.bitmap⟩, by simp [glyphRound, hnewline], ?_, ?_⟩
    · simp [penAt, penStep, hnewline, ← hpen]
    · simpa [textPictures, drawnAt, hnewline] using hdrawn
  | false =>
    cases hskip : isSkipped (text.char i) with
    | true =>
      refine ⟨s, by simp [glyphRound, hnewline, hskip], ?_, ?_⟩
      · simp [penAt, penStep, hnewline, hskip, hpen]
      · simpa [textPictures, drawnAt, hnewline, hskip] using hdrawn
    | false =>
      obtain ⟨b₂, hpaint, hrenders⟩ := paintDrawAlphaBitmapScaled_renders
        (hdrawn.same.whole hb) (hdrawn.same.small hsmall)
        (hfont.inside _ (glyphIndex_lt hskip hbehind) s.cursorX s.cursorY) color
      refine ⟨⟨s.cursorX + font.xadvance ((text.char i).toNat - atlasFirstChar), s.cursorY, b₂⟩,
        ?_, ?_, ?_⟩
      · simp [glyphRound, hnewline, hskip, laidOut, packedXadvance_ok hskip hbehind,
          Except.mapError, hpaint]
      · simp [penAt, penStep, hnewline, hskip, ← hpen]
      · have hall := hdrawn.trans hrenders
        have hlayers : paint (textPictures font text x baseline color (i + 1)) = fun p color' =>
            (font.place ((text.char i).toNat - atlasFirstChar) s.cursorX s.cursorY).picture
              font.atlas color p (paint (textPictures font text x baseline color i) p color') := by
          funext p color'
          simp [textPictures, drawnAt, hnewline, hskip, Drawn.picture, ← hpen]
        rwa [hlayers]

theorem CString.Legible.strlen (htext : text.Legible) :
    laidOut text.strlen = .ok (BitVec.ofNat 32 text.bytes.length) := by
  rw [CString.strlen, if_pos htext.length]
  rfl

/-- A text is laid out, and its characters are drawn one over the other. -/
theorem fontDrawText_draws (hfont : font.Sound) (htext : text.Legible) (x baseline color : Word32) :
    Draws (textPictures font text x baseline color text.bytes.length)
      fun b => fontDrawText font b text x baseline color := by
  intro b hb hsmall
  have hcount : (BitVec.ofNat 32 text.bytes.length).toNat = text.bytes.length := by
    have := htext.length
    rw [BitVec.toNat_ofNat, Nat.mod_eq_of_lt (by omega)]
  have hstrlen := htext.strlen
  obtain ⟨s, hloop, -, hrenders⟩ := forTo_reaches (n := text.bytes.length)
    (f := glyphRound font text x color)
    (fun i s => (s.cursorX, s.cursorY) = penAt font.toFont text x baseline i ∧
      Renders (paint (textPictures font text x baseline color i)) b s.bitmap)
    (fun i s hi hs => glyphRound_spec hfont hb hsmall
      (fun h => htext.inAtlas (exists_char_iff.mp ⟨i, hi, h⟩)) hs.1 hs.2)
    (show (_, _) = _ ∧ Renders _ b (TextDrawing.mk x baseline b).bitmap from ⟨rfl, .refl b⟩)
  refine ⟨s.bitmap, ?_, hrenders⟩
  simp only [fontDrawText, hstrlen, ok_bind, hcount, hloop, pure_eq_ok]

/-! ## `compositor_window_render` -/

/-- The sides of a window, as they are drawn. -/
def Window.sides (window : Window) : Nat × Nat :=
  ((window.width.setWidth 32).toNat, (window.height.setWidth 32).toNat)

/-- The layers of a window: the title bar, its edges, the title, the content,
and the edges of the content, which begin in the last row of the title bar. -/
def windowPictures (font : DrawFont) (window : Window) (x y : Word32) : List Picture :=
  (Rect.mk x.toInt y.toInt window.sides.1 28).filled black ::
    ((Rect.mk x.toInt y.toInt window.sides.1 28).edges white ++
      (textPictures font window.title (x + 8) (y + 18) white window.title.bytes.length ++
        window.framebuffer.shown x.toInt (y.toInt + 28) ::
          (Rect.mk x.toInt (y.toInt + 27) window.sides.1 (window.sides.2 + 1)).edges white))

/-- A window that can be drawn. -/
structure Window.Drawable (window : Window) : Prop where
  legible : window.title.Legible
  width : window.sides.1 < 2 ^ 30
  height : window.sides.2 < 2 ^ 30
  whole : window.framebuffer.Whole
  small : window.framebuffer.Small

theorem compositorWindowRender_draws (hfont : font.Sound) {window : Window}
    (hwindow : window.Drawable) (hx : Near x) (hy : Near y) (hbelow : y.toInt + 28 ≤ 2 ^ 30) :
    Draws (windowPictures font window x y) (compositorWindowRender font window x y) := by
  have hwidth := hwindow.width
  have hheight := hwindow.height
  simp only [Window.sides] at hwidth hheight
  have hsum (k : Word32) (hk : k.toNat ≤ 28) : (y + k).toInt = y.toInt + k.toNat := by
    have htoInt : k.toInt = k.toNat := BitVec.toInt_eq_toNat_of_lt (by omega)
    obtain ⟨hlow, -⟩ := hy
    rw [BitVec.toInt_add, htoInt]
    exact Int.bmod_eq_of_le_mul_two (by omega) (by omega)
  have h27 : (y + 27).toInt = y.toInt + 27 := hsum 27 (by decide)
  have h28 : (y + 28).toInt = y.toInt + 28 := hsum 28 (by decide)
  have hrow : y + 28 - 1 = y + 27 := by
    rw [BitVec.sub_eq_add_neg, BitVec.add_assoc]
    rfl
  have hsucc : (window.height.setWidth 32 + 1).toNat = (window.height.setWidth 32).toNat + 1 :=
    TextInput.add_one_toNat (by omega)
  have hnear : Near (y + 27) := by
    obtain ⟨hlow, -⟩ := hy
    rw [Near, h27]
    omega
  have hbar := paintFillRect_draws x y black
    (by omega : (window.width.setWidth 32).toNat ≤ 2 ^ 31) (by decide : (28 : Word32).toNat ≤ _)
  have hbarEdges := paintDrawRect_draws white hx hy
    (by omega : (window.width.setWidth 32).toNat ≤ 2 ^ 30) (by decide : (28 : Word32).toNat ≤ _)
  have htitle := fontDrawText_draws hfont hwindow.legible (x + 8) (y + 18) white
  have hcontent := paintBlitBitmap_draws hwindow.whole hwindow.small x (y + 28)
  have hedges := paintDrawRect_draws white hx hnear
    (by omega : (window.width.setWidth 32).toNat ≤ 2 ^ 30)
    (by omega : (window.height.setWidth 32 + 1).toNat ≤ 2 ^ 30)
  rw [h28] at hcontent
  rw [h27, hsucc, ← hrow] at hedges
  exact hbar.bind (hbarEdges.bind (htitle.bind (hcontent.bind hedges)))

/-! ## `cursor_draw` -/

/-- The cursor, at a place of the screen. -/
def Cursor.picture (c : Cursor) : Picture := (Rect.mk c.x c.y 10 10).filled c.color

theorem cursorDraw_draws {c : Cursor} (hx : InInt32 c.x) (hy : InInt32 c.y) :
    Draws [c.picture] (cursorDraw c) := by
  have hsize : cursorSize.toNat ≤ 2 ^ 31 := by decide
  have htoInt {z : Int} (hz : InInt32 z) : (BitVec.ofInt 32 z).toInt = z := by
    obtain ⟨hlow, hhigh⟩ := hz
    rw [BitVec.toInt_ofInt]
    exact Int.bmod_eq_of_le_mul_two (by omega) (by omega)
  have hfill := paintFillRect_draws (BitVec.ofInt 32 c.x) (BitVec.ofInt 32 c.y) c.color hsize hsize
  rwa [htoInt hx, htoInt hy] at hfill

/-! ## `text_input_draw` -/

/-- Where the caret is: behind the character before it, or at the start of a
line. -/
def caretPosition (font : DrawFont) (text : CString) (cursorIndex : Nat) : Word32 × Word32 :=
  if cursorIndex = 0 then (0, 0)
  else
    let pen := penAt font.toFont text 0 (0 + font.ascent)
    if isNewline (text.char (cursorIndex - 1)) then
      ((pen cursorIndex).1, (pen cursorIndex).2 - font.ascent)
    else ((pen (cursorIndex - 1)).1 + textInputCharWidth, (pen (cursorIndex - 1)).2 - font.ascent)

/-- The layers of the text input: the text, and for half of each second the
caret. -/
def textInputPictures (font : DrawFont) (text : CString) (cursorIndex timeMs : Nat) :
    List Picture :=
  textPictures font text 0 (0 + font.ascent) white text.bytes.length ++
    if timeMs % 1000 < 500 then
      let place := caretPosition font text cursorIndex
      [(Rect.mk place.1.toInt place.2.toInt 8 font.lineHeight.toNat).filled white]
    else []

/-- Where every character has a place, the outputs are assigned. -/
theorem caretPlace_eq {cursorIndex : Word32} (htext : text.Legible)
    (hplaces : ∀ c ∈ text.bytes, Places c) (hindex : cursorIndex.toNat ≤ text.bytes.length)
    (stale : Word32 × Word32) :
    caretPlace font text cursorIndex stale = .ok (caretPosition font text cursorIndex.toNat) := by
  by_cases hzero : cursorIndex = 0
  · simp [caretPlace, caretPosition, hzero]
  have hpos : cursorIndex.toNat ≠ 0 := fun h => hzero (BitVec.eq_of_toNat_eq h)
  have hpred : (cursorIndex - 1).toNat = cursorIndex.toNat - 1 :=
    TextInput.sub_one_toNat (Nat.pos_of_ne_zero hpos)
  have hsucc : cursorIndex.toNat - 1 + 1 = cursorIndex.toNat := by omega
  have hnone : ¬∃ i < (cursorIndex - 1).toNat + 1, text.char i = behindAtlas := by
    rintro ⟨i, hi, hc⟩
    exact htext.inAtlas (exists_char_iff.mp ⟨i, by omega, hc⟩)
  have hplace : Places (text.char (cursorIndex.toNat - 1)) :=
    hplaces _ (exists_char_iff.mp ⟨cursorIndex.toNat - 1, by omega, rfl⟩)
  have hcalculate : fontCalculateCursorPos font.toFont text (cursorIndex - 1) 0
      (0 + font.ascent) = _ := fontCalculateCursorPos_eq htext.length
  rw [if_neg (by omega), if_neg hnone, hpred, hsucc] at hcalculate
  have hcaret : caretAt font.toFont text 0 (0 + font.ascent) cursorIndex.toNat = some
      (penAt font.toFont text 0 (0 + font.ascent)
        (if isNewline (text.char (cursorIndex.toNat - 1)) then cursorIndex.toNat
        else cursorIndex.toNat - 1)) := by
    rw [← hsucc, caretAt, Nat.add_sub_cancel]
    rcases hplace with hnewline | hskip
    · rw [if_pos hnewline, if_pos hnewline]
    · rw [if_neg hskip]
      split
      · rfl
      · rfl
  simp only [caretPlace, if_neg hzero, hcalculate, laidOut, Except.mapError, ok_bind, hcaret,
    Option.getD_some, hpred, pure_eq_ok, caretPosition, if_neg hpos]
  split
  · simp
  · rfl

theorem textInputDraw_draws (hfont : font.Sound) {cursorIndex : Word32} (htext : text.Legible)
    (hplaces : ∀ c ∈ text.bytes, Places c) (hindex : cursorIndex.toNat ≤ text.bytes.length)
    (timeMs : Nat) (stale : Word32 × Word32) :
    Draws (textInputPictures font text cursorIndex.toNat timeMs)
      (textInputDraw font text cursorIndex timeMs stale) := by
  have hwidth : textInputCharWidth.toNat ≤ 2 ^ 31 := by decide
  have htextDraws : Draws (textPictures font text 0 (0 + font.ascent) white text.bytes.length)
      fun b => if (0 : Word32) < BitVec.ofNat 32 text.bytes.length then
        fontDrawText font b text 0 (0 + font.ascent) white else pure b := by
    split
    · exact fontDrawText_draws hfont htext 0 (0 + font.ascent) white
    · next hempty =>
      have hlength : text.bytes.length = 0 := by
        have hlen := htext.length
        rw [BitVec.lt_def, BitVec.toNat_ofNat, Nat.mod_eq_of_lt (by omega)] at hempty
        exact Nat.eq_zero_of_not_pos hempty
      rw [hlength]
      exact .nil
  have hcaretDraws : Draws (if timeMs % 1000 < 500 then
        let place := caretPosition font text cursorIndex.toNat
        [(Rect.mk place.1.toInt place.2.toInt 8 font.lineHeight.toNat).filled white]
      else [])
      fun b => if timeMs % 1000 < 500 then
        paintFillRect b (caretPosition font text cursorIndex.toNat).1
          (caretPosition font text cursorIndex.toNat).2 textInputCharWidth font.lineHeight white
      else pure b := by
    split
    · exact paintFillRect_draws _ _ white hwidth hfont.lineHeight
    · exact .nil
  have hdraw : textInputDraw font text cursorIndex timeMs stale = fun b =>
      (if (0 : Word32) < BitVec.ofNat 32 text.bytes.length then
        fontDrawText font b text 0 (0 + font.ascent) white else pure b) >>= fun b =>
      if timeMs % 1000 < 500 then
        paintFillRect b (caretPosition font text cursorIndex.toNat).1
          (caretPosition font text cursorIndex.toNat).2 textInputCharWidth font.lineHeight white
      else pure b := by
    funext b
    simp only [textInputDraw, htext.strlen, ok_bind, caretPlace_eq htext hplaces hindex]
    split
    · rfl
    · rfl
  rw [hdraw]
  exact htextDraws.bind hcaretDraws

/-! ## `paint_transparent` and `paint_swap_buffers` -/

/-- All of the bitmap is cleared. -/
theorem paintClear_renders (hb : b.Whole) (hsmall : b.Small) (color : Word32) :
    ∃ b', paintClear b color = .ok b' ∧ Renders (fun _ _ => color) b b' := by
  obtain ⟨b', hclear⟩ := paintClear_returns hb color
  refine ⟨b', hclear, ?_⟩
  have hwidth := hsmall.width
  have hheight := hsmall.height
  -- a row has a round for each of its pixels
  have hrow (hpos : 0 < b.height.toNat) : (b.stride.toNat + 3) / 4 = b.width.toNat := by
    have harea := hb.area
    have hle := Nat.le_mul_of_pos_right b.width.toNat hpos
    have hstride : b.stride.toNat = 4 * b.width.toNat := by
      rw [hb.stride, BitVec.toNat_mul]
      show b.width.toNat * 4 % 2 ^ 32 = _
      omega
    omega
  have hstride := b.stride.isLt
  have hzero (z : Word32) : 0 + z = z := by simp
  have hround (i j : Nat) (b₁ b₂ : Bitmap) (hi : i < b.height.toNat)
      (hj : j < (b.stride.toNat + 3) / 4) (hsame : Same b b₁)
      (hstore : b₁.store (BitVec.ofNat 32 j) (BitVec.ofNat 32 i) color = .ok b₂) :
      Touched (0 + BitVec.ofNat 32 j) (0 + BitVec.ofNat 32 i) (fun _ => color) b₁ b₂ := by
    rw [hzero, hzero]
    apply store_touched _ hstore
    rw [hsame.clips, hsmall.clips_iff]
    rw [hrow (by omega)] at hj
    exact ⟨by rw [BitVec.toNat_ofNat]; omega, by rw [BitVec.toNat_ofNat]; omega⟩
  have hgrid := renders_grid hb hsmall (Nat.le_of_lt hheight)
    (by omega : (b.stride.toNat + 3) / 4 ≤ 2 ^ 31) hround hclear
  constructor
  · exact hgrid.same
  · intro x y hxy
    have hcovered : (Rect.mk (0 : Word32).toInt (0 : Word32).toInt ((b.stride.toNat + 3) / 4)
        b.height.toNat).Has (x.toNat, y.toNat) := by
      have hx := hxy.1
      have hy := hxy.2
      rw [hrow (by omega), Rect.has_mk]
      simp only [BitVec.toInt_zero, BitVec.ofNat_eq_ofNat]
      omega
    rw [hgrid.pixel x y hxy, cover_inside hcovered]
  · exact hgrid.beyond

theorem swapPixel_ok {i : Nat} (h : swapPixel back i b = .ok b') : Same b b' ∧
    ∀ o, b'.pixels o = if o = 4 * i then back.pixels (4 * i) else b.pixels o := by
  rw [swapPixel] at h
  split at h
  · cases h
    exact ⟨⟨rfl, rfl, rfl, rfl⟩, fun _ => rfl⟩
  · cases h

/-- What is in the other bitmap is shown. -/
theorem paintSwapBuffers_shows (hb : b.Whole) (hback : back.Whole)
    (hwidth : back.width = b.width) (hheight : back.height = b.height) :
    ∃ b', paintSwapBuffers b back = .ok b' ∧ Same b b' ∧
      ∀ x y, b.Pixel x y → b'.at x y = back.at x y := by
  have harea := hb.area
  have hsize := hb.size
  have hsizeBack := hback.size
  rw [hwidth, hheight] at hsizeBack
  have hcount : (b.width * b.height).toNat = b.width.toNat * b.height.toNat := by
    rw [BitVec.toNat_mul]
    exact Nat.mod_eq_of_lt (by omega)
  obtain ⟨b', hswap, hsame, hpixels⟩ := forTo_reaches (n := (b.width * b.height).toNat)
    (f := swapPixel back)
    (fun i z => Same b z ∧ ∀ k < i, z.pixels (4 * k) = back.pixels (4 * k))
    (fun i z hi hz => by
      obtain ⟨hsame, hdone⟩ := hz
      have hroom : 4 * i + 4 ≤ back.size ∧ 4 * i + 4 ≤ z.size := by
        rw [hsame.size]
        omega
      obtain ⟨z', hz'⟩ : ∃ z', swapPixel back i z = .ok z' := ⟨_, if_pos hroom⟩
      obtain ⟨hsame', hpixels⟩ := swapPixel_ok hz'
      refine ⟨z', hz', hsame.trans hsame', fun k hk => ?_⟩
      rw [hpixels]
      rcases Nat.lt_succ_iff_lt_or_eq.mp hk with hlt | rfl
      · rw [if_neg (by omega), hdone k hlt]
      · rw [if_pos rfl])
    ⟨.refl b, nofun⟩
  refine ⟨b', hswap, hsame, fun x y hxy => ?_⟩
  have hplace := place_lt hxy.1 hxy.2
  have hoffset : (b.offset x y).toNat = 4 * (x.toNat + y.toNat * b.width.toNat) := by
    rw [offset_toNat hb.stride]
    exact Nat.mod_eq_of_lt (by omega)
  have hoffsetBack : back.offset x y = b.offset x y := by
    rw [Bitmap.offset, Bitmap.offset, hback.stride, hb.stride, hwidth]
  rw [Bitmap.at, Bitmap.at, hsame.offset, hoffsetBack, hoffset]
  exact hpixels _ (by omega)

end

end ZOs.Compositor
