import Mathlib.Tactic.Ring
import ZOs.Lib.Loop

/-!
# Bitmaps

`bitmap.c` and `paint.c`. Widths, heights and offsets are 32 bits wide, and
so is the product that a bitmap is allocated with. A pixel is in its bitmap
when its four bytes are among the bytes that the bitmap has: `Fits` says that
the whole rectangle is, and it is exactly what filling it needs.
-/

namespace ZOs.Compositor

open Checked

abbrev Word32 := BitVec 32

/-- What ends the compositor, or leaves it in undefined behaviour. -/
inductive Fault
  | nameOverrun
  | nullName
  | nullBuffer
  | outside
  | assertion
  deriving DecidableEq

/-- `bitmap_t`, in the one pixel format that there is; `size` is the number
of bytes at `data`, and `pixels` has the pixel at each offset. -/
structure Bitmap where
  size : Nat
  pixels : Nat → Word32
  width : Word32
  height : Word32
  stride : Word32

/-- `bitmap_pixel_format_size(BITMAP_PIXEL_FORMAT_RGB32)`. -/
def pixelSize : Word32 := 4

/-- `x0 * pixel_size + y0 * bitmap->stride`. -/
def Bitmap.offset (bitmap : Bitmap) (x0 y0 : Word32) : Word32 :=
  x0 * pixelSize + y0 * bitmap.stride

/-- `x0 < 0 || y0 < 0 || x0 >= bitmap->width || y0 >= bitmap->height`, where
the last two comparisons are unsigned. -/
def Bitmap.clips (bitmap : Bitmap) (x0 y0 : Word32) : Bool :=
  x0.toInt < 0 ∨ y0.toInt < 0 ∨ bitmap.width ≤ x0 ∨ bitmap.height ≤ y0

def Bitmap.load (bitmap : Bitmap) (x0 y0 : Word32) : Except Fault Word32 :=
  if (bitmap.offset x0 y0).toNat + 4 ≤ bitmap.size then
    .ok (bitmap.pixels (bitmap.offset x0 y0).toNat)
  else .error .outside

def Bitmap.store (bitmap : Bitmap) (x0 y0 color : Word32) : Except Fault Bitmap :=
  if (bitmap.offset x0 y0).toNat + 4 ≤ bitmap.size then
    .ok { bitmap with
      pixels := fun offset =>
        if offset = (bitmap.offset x0 y0).toNat then color else bitmap.pixels offset }
  else .error .outside

/-- A bitmap of `height * stride` bytes, with what they hold. -/
def newBitmap (width height : Word32) (contents : Nat → Word32) : Bitmap :=
  let stride := width * pixelSize
  ⟨(height * stride).toNat, contents, width, height, stride⟩

/-- What becomes of an allocation: a block, `NULL`, or no return because an
assertion fails in the kernel. -/
inductive Malloc
  | block
  | null
  | stops
  deriving DecidableEq

/-- There is a block. -/
def malloc : Malloc → Except Fault Bool
  | .block => .ok true
  | .null => .ok false
  | .stops => .error .assertion

/-- `bitmap_create`, with what becomes of its two allocations. -/
def bitmapCreate (object data : Malloc) (contents : Nat → Word32) (width height : Word32) :
    Except Fault (Option Bitmap) := do
  if ← malloc object then
    if ← malloc data then pure (some (newBitmap width height contents))
    else pure none
  else pure none

/-- `bitmap_from_data`, of `size` bytes. -/
def bitmapFromData (object : Malloc) (size : Nat) (contents : Nat → Word32)
    (width height : Word32) : Except Fault (Option Bitmap) := do
  if ← malloc object then pure (some ⟨size, contents, width, height, width * pixelSize⟩)
  else pure none

/-- The two loops over a rectangle. -/
def forRect (x y width height : Word32)
    (pixel : Word32 → Word32 → Bitmap → Except Fault Bitmap) (bitmap : Bitmap) :
    Except Fault Bitmap :=
  forTo height.toNat (fun i => forTo width.toNat fun j =>
    pixel (x + BitVec.ofNat 32 j) (y + BitVec.ofNat 32 i)) bitmap

/-- One pixel of `paint_fill_rect`. -/
def fillPixel (color x0 y0 : Word32) (bitmap : Bitmap) : Except Fault Bitmap :=
  if bitmap.clips x0 y0 then .ok bitmap else bitmap.store x0 y0 color

/-- `paint_fill_rect`. -/
def paintFillRect (bitmap : Bitmap) (x y width height color : Word32) : Except Fault Bitmap :=
  forRect x y width height (fillPixel color) bitmap

/-- One pixel of `paint_blit_bitmap_rect`. -/
def blitPixel (src : Option Bitmap) (x0 y0 : Word32) (dst : Bitmap) : Except Fault Bitmap :=
  if dst.clips x0 y0 then .ok dst
  else
    match src with
    | none => .error .nullBuffer
    | some src => (src.load x0 y0).bind (dst.store x0 y0)

/-- `paint_blit_bitmap_rect`, of a source that may be `NULL`. -/
def paintBlitBitmapRect (dst : Bitmap) (src : Option Bitmap)
    (srcX srcY srcWidth srcHeight : Word32) : Except Fault Bitmap :=
  forRect srcX srcY srcWidth srcHeight (blitPixel src) dst

section

variable {b b' dst dst' : Bitmap} {src : Option Bitmap} {x y w h color : Word32}
  {contents : Nat → Word32}

/-! ## Single pixels -/

/-- The four bytes of a pixel are in the bitmap. -/
def Bitmap.Has (b : Bitmap) (x y : Word32) : Prop := (b.offset x y).toNat + 4 ≤ b.size

/-- Only pixels have changed. -/
structure Same (b b' : Bitmap) : Prop where
  size : b'.size = b.size
  width : b'.width = b.width
  height : b'.height = b.height
  stride : b'.stride = b.stride

theorem Same.refl (b : Bitmap) : Same b b := ⟨rfl, rfl, rfl, rfl⟩

theorem Same.trans {b'' : Bitmap} (h : Same b b') (h' : Same b' b'') : Same b b'' :=
  ⟨h'.size.trans h.size, h'.width.trans h.width, h'.height.trans h.height,
    h'.stride.trans h.stride⟩

theorem Same.clips (h : Same b b') : b'.clips x y = b.clips x y := by
  simp [Bitmap.clips, h.width, h.height]

theorem Same.has_iff (h : Same b b') : b'.Has x y ↔ b.Has x y := by
  simp [Bitmap.Has, Bitmap.offset, h.size, h.stride]

@[simp] theorem load_returns_iff : Returns (b.load x y) ↔ b.Has x y := by
  unfold Bitmap.load Bitmap.Has
  split <;> simp [*]

@[simp] theorem store_returns_iff : Returns (b.store x y color) ↔ b.Has x y := by
  unfold Bitmap.store Bitmap.Has
  split <;> simp [*]

theorem store_same (h : b.store x y color = .ok b') : Same b b' := by
  unfold Bitmap.store at h
  split at h
  · cases h
    exact ⟨rfl, rfl, rfl, rfl⟩
  · cases h

theorem clips_eq_false_iff : b.clips x y = false ↔
    0 ≤ x.toInt ∧ 0 ≤ y.toInt ∧ x.toNat < b.width.toNat ∧ y.toNat < b.height.toNat := by
  simp [Bitmap.clips, BitVec.le_def]

/-! ## Rectangles -/

/-- The pixels that the loops over a rectangle come by. -/
def InRect (x y width height x0 y0 : Word32) : Prop :=
  ∃ i < height.toNat, ∃ j < width.toNat, x0 = x + BitVec.ofNat 32 j ∧ y0 = y + BitVec.ofNat 32 i

section
variable {pixel : Word32 → Word32 → Bitmap → Except Fault Bitmap} {P : Word32 → Word32 → Prop}

theorem forRect_same (hpixel : ∀ x0 y0 b b', pixel x0 y0 b = .ok b' → Same b b')
    (hrect : forRect x y w h pixel b = .ok b') : Same b b' := by
  apply forTo_keeps (Same b) _ (.refl b) hrect
  intro i b₁ b₂ hsame hrow
  apply forTo_keeps (Same b) _ hsame hrow
  intro j b₁ b₂ hsame hone
  exact hsame.trans (hpixel _ _ _ _ hone)

/-- The loops return when every pixel they come by does. -/
theorem forRect_returns_iff (hpixel : ∀ x0 y0 b b', pixel x0 y0 b = .ok b' → Same b b')
    (hreturns : ∀ x0 y0 b', Same b b' → (Returns (pixel x0 y0 b') ↔ P x0 y0)) :
    Returns (forRect x y w h pixel b) ↔ ∀ x0 y0, InRect x y w h x0 y0 → P x0 y0 := by
  have hkeeps : ∀ y0 j b₁ b₂, Same b b₁ →
      pixel (x + BitVec.ofNat 32 j) y0 b₁ = .ok b₂ → Same b b₂ :=
    fun y0 j b₁ b₂ hsame hone => hsame.trans (hpixel _ _ _ _ hone)
  have hrows := forTo_returns_iff (n := h.toNat) (Same b)
    (f := fun i => forTo w.toNat fun j => pixel (x + BitVec.ofNat 32 j) (y + BitVec.ofNat 32 i))
    (P := fun i => ∀ j < w.toNat, P (x + BitVec.ofNat 32 j) (y + BitVec.ofNat 32 i))
    (fun i b₁ b₂ hsame hrow => forTo_keeps (Same b) (hkeeps _) hsame hrow)
    (fun i b₁ hsame => forTo_returns_iff (Same b) (hkeeps _)
      (fun j b₂ hb₂ => hreturns _ _ b₂ hb₂) hsame)
    (.refl b)
  rw [forRect, hrows]
  constructor
  · rintro hall x0 y0 ⟨i, hi, j, hj, rfl, rfl⟩
    exact hall i hi j hj
  · exact fun hall i hi j hj => hall _ _ ⟨i, hi, j, hj, rfl, rfl⟩

end

theorem fillPixel_same {x0 y0 : Word32} (h : fillPixel color x0 y0 b = .ok b') : Same b b' := by
  unfold fillPixel at h
  split at h
  · cases h
    exact .refl b
  · exact store_same h

theorem blitPixel_same {x0 y0 : Word32} (h : blitPixel src x0 y0 dst = .ok dst') :
    Same dst dst' := by
  unfold blitPixel at h
  split at h
  · cases h
    exact .refl dst
  · cases src with
    | none => cases h
    | some src =>
      cases hload : src.load x0 y0 with
      | error fault => simp [hload, Except.bind] at h
      | ok loaded => exact store_same (by simpa [hload, Except.bind] using h)

theorem paintFillRect_returns_iff : Returns (paintFillRect b x y w h color) ↔
    ∀ x0 y0, InRect x y w h x0 y0 → b.clips x0 y0 = false → b.Has x0 y0 := by
  apply forRect_returns_iff fun _ _ _ _ => fillPixel_same
  intro x0 y0 b' hsame
  cases hclips : b.clips x0 y0 <;> simp [fillPixel, hsame.clips, hclips, hsame.has_iff]

theorem paintBlitBitmapRect_returns_iff : Returns (paintBlitBitmapRect dst src x y w h) ↔
    ∀ x0 y0, InRect x y w h x0 y0 → dst.clips x0 y0 = false →
      ∃ s, src = some s ∧ s.Has x0 y0 ∧ dst.Has x0 y0 := by
  apply forRect_returns_iff fun _ _ _ _ => blitPixel_same
  intro x0 y0 dst' hsame
  cases hclips : dst.clips x0 y0 with
  | true => simp [blitPixel, hsame.clips, hclips]
  | false =>
    cases src with
    | none => simp [blitPixel, hsame.clips, hclips]
    | some src =>
      have hload := load_returns_iff (b := src) (x := x0) (y := y0)
      cases hl : src.load x0 y0 with
      | error fault =>
        have hnot : ¬ src.Has x0 y0 := fun has => by simpa [hl] using hload.mpr has
        simp [blitPixel, hsame.clips, hclips, hl, hnot, Except.bind]
      | ok loaded =>
        have has : src.Has x0 y0 := hload.mp (by simp [hl])
        simp [blitPixel, hsame.clips, hclips, hl, has, Except.bind, hsame.has_iff]

/-! ## Whole bitmaps -/

theorem offset_toNat (hstride : b.stride = b.width * pixelSize) :
    (b.offset x y).toNat = 4 * (x.toNat + y.toNat * b.width.toNat) % 2 ^ 32 := by
  have hsum : x.toNat * 4 + y.toNat * (b.width.toNat * 4) =
      4 * (x.toNat + y.toNat * b.width.toNat) := by ring
  simp only [Bitmap.offset, hstride, pixelSize, BitVec.toNat_add, BitVec.toNat_mul,
    Nat.mul_mod_mod, Nat.mod_add_mod, Nat.add_mod_mod]
  exact congrArg (· % 2 ^ 32) hsum

/-- The pixels of a bitmap are all there. -/
structure Bitmap.Whole (b : Bitmap) : Prop where
  stride : b.stride = b.width * pixelSize
  area : b.width.toNat * b.height.toNat < 2 ^ 30
  size : 4 * (b.width.toNat * b.height.toNat) ≤ b.size

/-- A pixel is one of the first `height` rows of `width`. -/
theorem place_lt {x y w h : Nat} (hx : x < w) (hy : y < h) : x + y * w < w * h :=
  calc x + y * w < (y + 1) * w := by rw [Nat.add_mul, Nat.one_mul]; omega
    _ ≤ h * w := Nat.mul_le_mul_right w hy
    _ = w * h := Nat.mul_comm h w

theorem Bitmap.Whole.has (hb : b.Whole) (hclips : b.clips x y = false) : b.Has x y := by
  obtain ⟨_, _, hx, hy⟩ := clips_eq_false_iff.mp hclips
  have hplace := place_lt hx hy
  have harea := hb.area
  have hsize := hb.size
  rw [Bitmap.Has, offset_toNat hb.stride, Nat.mod_eq_of_lt (by omega)]
  omega

theorem Same.whole (hsame : Same b b') (hb : b.Whole) : b'.Whole where
  stride := by rw [hsame.stride, hsame.width, hb.stride]
  area := by rw [hsame.width, hsame.height]; exact hb.area
  size := by rw [hsame.width, hsame.height, hsame.size]; exact hb.size

theorem newBitmap_size :
    (newBitmap w h contents).size = 4 * (w.toNat * h.toNat) % 2 ^ 32 := by
  have hproduct : h.toNat * (w.toNat * 4) = 4 * (w.toNat * h.toNat) := by ring
  simp only [newBitmap, pixelSize, BitVec.toNat_mul, Nat.mul_mod_mod]
  exact congrArg (· % 2 ^ 32) hproduct

theorem newBitmap_whole (harea : w.toNat * h.toNat < 2 ^ 30) :
    (newBitmap w h contents).Whole where
  stride := rfl
  area := harea
  size := by
    rw [newBitmap_size, Nat.mod_eq_of_lt (by omega)]
    exact Nat.le_refl _

/-- From 2^30 pixels on the memory of a new bitmap is too small: the pixel at
the last of the 32-bit offsets is not in it. -/
theorem newBitmap_not_has (contents : Nat → Word32) (harea : 2 ^ 30 ≤ w.toNat * h.toNat) :
    ∃ x y, (newBitmap w h contents).clips x y = false ∧
      ¬ (newBitmap w h contents).Has x y := by
  have hw : 0 < w.toNat := by
    apply Nat.pos_of_ne_zero
    intro hzero
    simp [hzero] at harea
  obtain ⟨column, row, hcolumn, hrow, hplace⟩ :
      ∃ column row, column < w.toNat ∧ row < h.toNat ∧ column + row * w.toNat = 2 ^ 30 - 1 := by
    refine ⟨(2 ^ 30 - 1) % w.toNat, (2 ^ 30 - 1) / w.toNat, Nat.mod_lt _ hw, ?_, ?_⟩
    · rw [Nat.div_lt_iff_lt_mul hw, Nat.mul_comm]
      omega
    · rw [Nat.mul_comm, Nat.mod_add_div]
  have hcolumnLe : column < 2 ^ 30 := by omega
  have hrowLe : row < 2 ^ 30 := by
    have hle := Nat.le_mul_of_pos_right row hw
    omega
  have hx : (BitVec.ofNat 32 column).toNat = column := by simp; omega
  have hy : (BitVec.ofNat 32 row).toNat = row := by simp; omega
  refine ⟨BitVec.ofNat 32 column, BitVec.ofNat 32 row, ?_, ?_⟩
  · rw [clips_eq_false_iff, BitVec.toInt_eq_toNat_of_lt (by omega),
      BitVec.toInt_eq_toNat_of_lt (by omega), hx, hy]
    exact ⟨Int.natCast_nonneg _, Int.natCast_nonneg _, hcolumn, hrow⟩
  · have hsize := Nat.mod_lt (4 * (w.toNat * h.toNat)) (Nat.two_pow_pos 32)
    rw [Bitmap.Has, offset_toNat rfl, newBitmap_size, hx, hy]
    show ¬ 4 * (column + row * w.toNat) % 2 ^ 32 + 4 ≤ _
    rw [hplace]
    omega

theorem inRect_zero (hx : x.toNat < w.toNat) (hy : y.toNat < h.toNat) : InRect 0 0 w h x y :=
  ⟨y.toNat, hy, x.toNat, hx, by simp, by simp⟩

/-- A new bitmap can be filled exactly if its pixels are all there. -/
theorem fill_newBitmap_returns_iff (contents : Nat → Word32) (color : Word32) :
    Returns (paintFillRect (newBitmap w h contents) 0 0 w h color) ↔
      w.toNat * h.toNat < 2 ^ 30 := by
  rw [paintFillRect_returns_iff]
  constructor
  · intro hfill
    by_contra harea
    obtain ⟨x, y, hclips, hnot⟩ := newBitmap_not_has contents (Nat.not_lt.mp harea)
    obtain ⟨_, _, hx, hy⟩ := clips_eq_false_iff.mp hclips
    exact hnot (hfill x y (inRect_zero hx hy) hclips)
  · exact fun harea x y _ hclips => (newBitmap_whole harea).has hclips

/-! ## What a rectangle leaves -/

/-- The pixel at a place. -/
def Bitmap.at (b : Bitmap) (x y : Word32) : Word32 := b.pixels (b.offset x y).toNat

/-- Different places of a whole bitmap have different offsets. -/
theorem Bitmap.Whole.offset_inj {x' y' : Word32} (hb : b.Whole) (hclips : b.clips x y = false)
    (hclips' : b.clips x' y' = false) (hoffset : (b.offset x y).toNat = (b.offset x' y').toNat) :
    x = x' ∧ y = y' := by
  obtain ⟨_, _, hx, hy⟩ := clips_eq_false_iff.mp hclips
  obtain ⟨_, _, hx', hy'⟩ := clips_eq_false_iff.mp hclips'
  have hplace := place_lt hx hy
  have hplace' := place_lt hx' hy'
  have harea := hb.area
  rw [offset_toNat hb.stride, offset_toNat hb.stride, Nat.mod_eq_of_lt (by omega),
    Nat.mod_eq_of_lt (by omega)] at hoffset
  have hsum : x.toNat + y.toNat * b.width.toNat = x'.toNat + y'.toNat * b.width.toNat := by omega
  have hcolumn := congrArg (· % b.width.toNat) hsum
  simp only [Nat.add_mul_mod_self_right, Nat.mod_eq_of_lt hx, Nat.mod_eq_of_lt hx'] at hcolumn
  have hrow : y.toNat * b.width.toNat = y'.toNat * b.width.toNat := by omega
  exact ⟨BitVec.eq_of_toNat_eq hcolumn,
    BitVec.eq_of_toNat_eq (Nat.eq_of_mul_eq_mul_right (Nat.zero_lt_of_lt hx) hrow)⟩

/-- Of the pixels of `dst`, those in `P` have been copied from `src`. -/
structure Copied (dst : Bitmap) (src : Option Bitmap) (P : Word32 → Word32 → Prop) (b : Bitmap) :
    Prop where
  same : Same dst b
  inside : ∀ x y, dst.clips x y = false → P x y → ∃ s, src = some s ∧ b.at x y = s.at x y
  outside : ∀ x y, dst.clips x y = false → ¬ P x y → b.at x y = dst.at x y

theorem Copied.congr {P Q : Word32 → Word32 → Prop} (hcopied : Copied dst src P b)
    (h : ∀ x y, P x y ↔ Q x y) : Copied dst src Q b where
  same := hcopied.same
  inside x y hclips hQ := hcopied.inside x y hclips ((h x y).mpr hQ)
  outside x y hclips hQ := hcopied.outside x y hclips (mt (h x y).mp hQ)

theorem load_at {s : Bitmap} (h : s.load x y = .ok color) : color = s.at x y := by
  unfold Bitmap.load at h
  split at h
  · exact (Except.ok.inj h).symm
  · cases h

theorem store_at {x' y' : Word32} (h : b.store x y color = .ok b') : b'.at x' y' =
    if (b.offset x' y').toNat = (b.offset x y).toNat then color else b.at x' y' := by
  unfold Bitmap.store at h
  split at h
  · cases h
    rfl
  · cases h

/-- One more pixel is copied. -/
theorem Copied.pixel {P : Word32 → Word32 → Prop} {x1 y1 : Word32} (hdst : dst.Whole)
    (hcopied : Copied dst src P b) (hpixel : blitPixel src x1 y1 b = .ok b') :
    Copied dst src (fun x y => P x y ∨ x = x1 ∧ y = y1) b' := by
  have hsame := hcopied.same.trans (blitPixel_same hpixel)
  unfold blitPixel at hpixel
  rw [hcopied.same.clips] at hpixel
  cases hclips : dst.clips x1 y1 with
  | true =>
    rw [hclips, if_pos rfl] at hpixel
    cases hpixel
    have hne : ∀ x y, dst.clips x y = false → ¬ (x = x1 ∧ y = y1) := by
      rintro x y hxy ⟨rfl, rfl⟩
      cases hclips.symm.trans hxy
    exact ⟨hsame, fun x y hxy hP => hcopied.inside x y hxy (hP.resolve_right (hne x y hxy)),
      fun x y hxy hP => hcopied.outside x y hxy fun h => hP (.inl h)⟩
  | false =>
    rw [hclips] at hpixel
    cases src with
    | none => cases hpixel
    | some s =>
      cases hload : s.load x1 y1 with
      | error fault => simp [hload, Except.bind] at hpixel
      | ok color =>
        have hstore : b.store x1 y1 color = .ok b' := by
          simpa [hload, Except.bind] using hpixel
        have hwhole := hcopied.same.whole hdst
        have hat : ∀ x y, dst.clips x y = false →
            b'.at x y = if x = x1 ∧ y = y1 then s.at x1 y1 else b.at x y := by
          intro x y hxy
          rw [store_at hstore, load_at hload]
          by_cases heq : x = x1 ∧ y = y1
          · simp [heq]
          · rw [if_neg heq, if_neg]
            intro hoffset
            exact heq (hwhole.offset_inj (hcopied.same.clips.trans hxy)
              (hcopied.same.clips.trans hclips) hoffset)
        constructor
        · exact hsame
        · intro x y hxy hP
          rw [hat x y hxy]
          by_cases heq : x = x1 ∧ y = y1
          · exact ⟨s, rfl, by rw [if_pos heq, heq.1, heq.2]⟩
          · rw [if_neg heq]
            exact hcopied.inside x y hxy (hP.resolve_right heq)
        · intro x y hxy hP
          rw [hat x y hxy, if_neg fun heq => hP (.inr heq)]
          exact hcopied.outside x y hxy fun h => hP (.inl h)

/-- A rectangle is copied, but for what is clipped. -/
theorem paintBlitBitmapRect_copied (hdst : dst.Whole)
    (hblit : paintBlitBitmapRect dst src x y w h = .ok dst') :
    Copied dst src (InRect x y w h) dst' := by
  -- the rows above `i`, and of row `i` the columns left of `j`
  let above : Nat → Word32 → Word32 → Prop := fun i x0 y0 =>
    ∃ i' < i, ∃ j < w.toNat, x0 = x + BitVec.ofNat 32 j ∧ y0 = y + BitVec.ofNat 32 i'
  let left : Nat → Nat → Word32 → Word32 → Prop := fun i j x0 y0 =>
    ∃ j' < j, x0 = x + BitVec.ofNat 32 j' ∧ y0 = y + BitVec.ofNat 32 i
  apply forTo_counts (fun i b => Copied dst src (above i) b) hblit
  · exact ⟨.refl dst, fun x0 y0 _ h => by simp [above] at h, fun x0 y0 _ _ => rfl⟩
  · intro i b b' hb hrow
    have hleft := forTo_counts
      (fun j b => Copied dst src (fun x0 y0 => above i x0 y0 ∨ left i j x0 y0) b) hrow
      (hb.congr fun x0 y0 => by simp [left]) (by
        intro j z z' hz hpixel
        apply (hz.pixel hdst hpixel).congr
        intro x0 y0
        simp only [left, Nat.lt_succ_iff_lt_or_eq, or_and_right, exists_or, exists_eq_left,
          or_assoc])
    apply hleft.congr
    intro x0 y0
    simp only [above, left, Nat.lt_succ_iff_lt_or_eq, or_and_right, exists_or, exists_eq_left]

/-- It makes no difference which of two rectangles was copied exactly if the
places where they differ looked the same before. -/
theorem Copied.iff {P Q : Word32 → Word32 → Prop} (hcopied : Copied dst src P b) :
    Copied dst src Q b ↔ ∀ x y, dst.clips x y = false →
      (P x y ↔ Q x y) ∨ ∃ s, src = some s ∧ s.at x y = dst.at x y := by
  constructor
  · intro hQ x y hclips
    by_cases hPxy : P x y <;> by_cases hQxy : Q x y
    · exact .inl (iff_of_true hPxy hQxy)
    · obtain ⟨s, hs, hat⟩ := hcopied.inside x y hclips hPxy
      exact .inr ⟨s, hs, hat.symm.trans (hQ.outside x y hclips hQxy)⟩
    · obtain ⟨s, hs, hat⟩ := hQ.inside x y hclips hQxy
      exact .inr ⟨s, hs, hat.symm.trans (hcopied.outside x y hclips hPxy)⟩
    · exact .inl (iff_of_false hPxy hQxy)
  · intro hsame
    constructor
    · exact hcopied.same
    · intro x y hclips hQxy
      by_cases hPxy : P x y
      · exact hcopied.inside x y hclips hPxy
      · obtain hiff | ⟨s, hs, hat⟩ := hsame x y hclips
        · exact absurd (hiff.mpr hQxy) hPxy
        · exact ⟨s, hs, (hcopied.outside x y hclips hPxy).trans hat.symm⟩
    · intro x y hclips hQxy
      by_cases hPxy : P x y
      · obtain hiff | ⟨s, hs, hat⟩ := hsame x y hclips
        · exact absurd (hiff.mp hPxy) hQxy
        · obtain ⟨s', hs', hat'⟩ := hcopied.inside x y hclips hPxy
          cases hs.symm.trans hs'
          exact hat'.trans hat
      · exact hcopied.outside x y hclips hPxy

end

end ZOs.Compositor
