import ZOs.Compositor.Clipping
import ZOs.Lib.Bytes
import ZOs.Lib.Layers

/-!
# Alpha painting

`blend_colors` and `paint_draw_alpha_bitmap_scaled`: a rectangle of a font
atlas is scaled to a rectangle of a bitmap, and a color is blended into what is
there. A pixel is read before it is written, so that it matters that each one
is come by once; and the samples stay in the rectangle of the atlas only as
long as a product of two 32-bit numbers does not wrap.
-/

namespace ZOs.Compositor

open Bytes Checked Layers

/-! ## The functions -/

/-- `blend_colors`. -/
def blendColors (srcColor dstColor alpha : Word32) : Word32 :=
  let invAlpha := 255 - alpha
  let srcRed := (srcColor >>> 16) &&& 0xff
  let srcGreen := (srcColor >>> 8) &&& 0xff
  let srcBlue := srcColor &&& 0xff
  let dstRed := (dstColor >>> 16) &&& 0xff
  let dstGreen := (dstColor >>> 8) &&& 0xff
  let dstBlue := dstColor &&& 0xff
  let red := (srcRed * alpha + dstRed * invAlpha) / 255
  let green := (srcGreen * alpha + dstGreen * invAlpha) / 255
  let blue := (srcBlue * alpha + dstBlue * invAlpha) / 255
  (red <<< 16) ||| (green <<< 8) ||| blue

/-- `src_bitmap`, of `size` bytes, and `src_stride`. -/
structure AlphaBitmap where
  size : Nat
  alphas : Nat → Byte
  stride : Word32

/-- `src_bitmap[src_x0 + src_y0 * src_stride]`. -/
def AlphaBitmap.load (src : AlphaBitmap) (x0 y0 : Word32) : Except Fault Byte :=
  let index := (x0 + y0 * src.stride).toNat
  if index < src.size then .ok (src.alphas index) else .error .outside

/-- The rectangle that is read, and the one it is scaled to. -/
structure Scaling where
  srcX : Word32
  srcY : Word32
  srcWidth : Word32
  srcHeight : Word32
  dstX : Word32
  dstY : Word32
  dstWidth : Word32
  dstHeight : Word32

/-- One pixel of `paint_draw_alpha_bitmap_scaled`. -/
def alphaPixel (src : AlphaBitmap) (s : Scaling) (color : Word32) (dy dx : Nat)
    (bitmap : Bitmap) : Except Fault Bitmap := do
  let srcY0 := s.srcY + BitVec.ofNat 32 dy * s.srcHeight / s.dstHeight
  let srcX0 := s.srcX + BitVec.ofNat 32 dx * s.srcWidth / s.dstWidth
  let alpha ← src.load srcX0 srcY0
  if alpha = 0 then return bitmap
  let dstX0 := s.dstX + BitVec.ofNat 32 dx
  let dstY0 := s.dstY + BitVec.ofNat 32 dy
  if bitmap.clips dstX0 dstY0 then return bitmap
  let existingColor ← bitmap.load dstX0 dstY0
  bitmap.store dstX0 dstY0 (blendColors color existingColor (alpha.setWidth 32))

/-- `paint_draw_alpha_bitmap_scaled`. -/
def paintDrawAlphaBitmapScaled (bitmap : Bitmap) (src : AlphaBitmap) (s : Scaling)
    (color : Word32) : Except Fault Bitmap :=
  forTo s.dstHeight.toNat (fun dy => forTo s.dstWidth.toNat (alphaPixel src s color dy)) bitmap

/-! ## Pictures -/

/-- A rectangle of points, as integers. -/
structure Rect where
  x : Int
  y : Int
  width : Nat
  height : Nat

def Rect.Has (r : Rect) (p : Int × Int) : Prop :=
  r.x ≤ p.1 ∧ p.1 < r.x + r.width ∧ r.y ≤ p.2 ∧ p.2 < r.y + r.height

instance (r : Rect) : DecidablePred r.Has := fun _ => inferInstanceAs (Decidable (_ ∧ _))

@[simp] theorem Rect.has_mk {x y px py : Int} {width height : Nat} :
    (Rect.mk x y width height).Has (px, py) ↔
      x ≤ px ∧ px < x + width ∧ y ≤ py ∧ py < y + height := Iff.rfl

/-- The layers of a picture: of its points, and of their colors. -/
abbrev Picture := Layer (Int × Int) Word32

/-- Every pixel of the bitmap has become what the layer makes of it, and
nothing else is written. -/
structure Renders (layer : Picture) (b b' : Bitmap) : Prop where
  same : Same b b'
  pixel : ∀ x y, b.Pixel x y → b'.at x y = layer (x.toNat, y.toNat) (b.at x y)
  beyond : ∀ o, (∀ x y, b.Pixel x y → o ≠ (b.offset x y).toNat) → b'.pixels o = b.pixels o

section

variable {b b₁ b₂ b' : Bitmap} {x y : Word32} {m n : Nat} {layer layer' : Picture}

theorem Renders.refl (b : Bitmap) : Renders (fun _ color => color) b b :=
  ⟨.refl b, fun _ _ _ => rfl, fun _ _ => rfl⟩

theorem Renders.trans (h : Renders layer b b₁) (h' : Renders layer' b₁ b₂) :
    Renders (fun p color => layer' p (layer p color)) b b₂ := by
  have hpixel {x y : Word32} : b₁.Pixel x y ↔ b.Pixel x y := by
    simp [Bitmap.Pixel, h.same.width, h.same.height]
  constructor
  · exact h.same.trans h'.same
  · intro x y hxy
    rw [h'.pixel x y (hpixel.mpr hxy), h.pixel x y hxy]
  · intro o ho
    rw [h'.beyond o fun x y hxy => h.same.offset ▸ ho x y (hpixel.mp hxy), h.beyond o ho]

/-! ## Rounds that change a pixel each -/

/-- The pixel at a place is changed, if it is there, and nothing else. -/
structure Touched (x y : Word32) (change : Word32 → Word32) (b b' : Bitmap) : Prop where
  same : Same b b'
  pixels : ∀ o, b'.pixels o =
    if b.clips x y = false ∧ o = (b.offset x y).toNat then change (b.pixels o) else b.pixels o

theorem Touched.of_clips {change : Word32 → Word32} (h : b.clips x y = true) :
    Touched x y change b b :=
  ⟨.refl b, fun o => by simp [h]⟩

theorem Touched.id (b : Bitmap) : Touched x y (fun color => color) b b :=
  ⟨.refl b, fun o => by simp⟩

theorem store_touched {color : Word32} (hclips : b.clips x y = false)
    (h : b.store x y color = .ok b') : Touched x y (fun _ => color) b b' := by
  refine ⟨store_same h, fun o => ?_⟩
  simp only [Bitmap.store] at h
  split at h
  · cases h
    simp [hclips]
  · cases h

/-- The places that two loops come by are different ones. -/
theorem place_inj {i j i' j' : Nat} (hi : i < 2 ^ 32) (hj : j < 2 ^ 32) (hi' : i' < 2 ^ 32)
    (hj' : j' < 2 ^ 32) (hx : x + BitVec.ofNat 32 j = x + BitVec.ofNat 32 j')
    (hy : y + BitVec.ofNat 32 i = y + BitVec.ofNat 32 i') : i = i' ∧ j = j' := by
  have hxn := congrArg BitVec.toNat ((BitVec.add_right_inj x).mp hx)
  have hyn := congrArg BitVec.toNat ((BitVec.add_right_inj y).mp hy)
  simp only [BitVec.toNat_ofNat] at hxn hyn
  omega

/-- The rounds that are done, with what each has made of its pixel. -/
structure Touching (x y : Word32) (m n : Nat) (change : Nat → Nat → Word32 → Word32)
    (D : Nat → Nat → Prop) (b b' : Bitmap) : Prop where
  same : Same b b'
  done : ∀ i < m, ∀ j < n, D i j →
    b.clips (x + BitVec.ofNat 32 j) (y + BitVec.ofNat 32 i) = false →
      b'.at (x + BitVec.ofNat 32 j) (y + BitVec.ofNat 32 i) =
        change j i (b.at (x + BitVec.ofNat 32 j) (y + BitVec.ofNat 32 i))
  other : ∀ o, (∀ i < m, ∀ j < n, D i j →
    b.clips (x + BitVec.ofNat 32 j) (y + BitVec.ofNat 32 i) = false →
      o ≠ (b.offset (x + BitVec.ofNat 32 j) (y + BitVec.ofNat 32 i)).toNat) →
    b'.pixels o = b.pixels o

/-- One more round. It finds its pixel as it was, because no round before it
was there. -/
theorem Touching.round {change : Nat → Nat → Word32 → Word32} {D : Nat → Nat → Prop} {i j : Nat}
    (hb : b.Whole) (hm : m ≤ 2 ^ 32) (hn : n ≤ 2 ^ 32) (hi : i < m) (hj : j < n) (hD : ¬D i j)
    (h : Touching x y m n change D b b₁)
    (hround : Touched (x + BitVec.ofNat 32 j) (y + BitVec.ofNat 32 i) (change j i) b₁ b₂) :
    Touching x y m n change (fun i' j' => D i' j' ∨ i' = i ∧ j' = j) b b₂ := by
  have hpixels := hround.pixels
  simp only [h.same.clips, h.same.offset] at hpixels
  -- another round is of another pixel
  have hne {i' j' : Nat} (hi' : i' < m) (hj' : j' < n) (hdone : D i' j')
      (hclips : b.clips (x + BitVec.ofNat 32 j) (y + BitVec.ofNat 32 i) = false)
      (hclips' : b.clips (x + BitVec.ofNat 32 j') (y + BitVec.ofNat 32 i') = false) :
      (b.offset (x + BitVec.ofNat 32 j) (y + BitVec.ofNat 32 i)).toNat ≠
        (b.offset (x + BitVec.ofNat 32 j') (y + BitVec.ofNat 32 i')).toNat := by
    intro hoffset
    obtain ⟨hx, hy⟩ := hb.offset_inj hclips hclips' hoffset
    obtain ⟨rfl, rfl⟩ := place_inj (by omega) (by omega) (by omega) (by omega) hx hy
    exact hD hdone
  constructor
  · exact h.same.trans hround.same
  · rintro i' hi' j' hj' (hdone | ⟨rfl, rfl⟩) hclips'
    · rw [← h.done i' hi' j' hj' hdone hclips', Bitmap.at, Bitmap.at, hround.same.offset,
        h.same.offset, hpixels, if_neg]
      rintro ⟨hclips, heq⟩
      exact hne hi' hj' hdone hclips hclips' heq.symm
    · rw [Bitmap.at, hround.same.offset, h.same.offset, hpixels, if_pos ⟨hclips', rfl⟩,
        h.other _ fun i hi j hj hdone hclips => hne hi hj hdone hclips' hclips]
      rfl
  · intro o ho
    rw [hpixels, if_neg, h.other o fun i' hi' j' hj' hdone => ho i' hi' j' hj' (.inl hdone)]
    rintro ⟨hclips, heq⟩
    exact ho i hi j hj (.inr ⟨rfl, rfl⟩) hclips heq

/-- What the rounds of two loops make of the pixels of a rectangle. -/
theorem renders_grid {f : Nat → Nat → Bitmap → Except Fault Bitmap}
    {change : Nat → Nat → Word32 → Word32} (hb : b.Whole) (hsmall : b.Small) (hm : m ≤ 2 ^ 31)
    (hn : n ≤ 2 ^ 31)
    (hround : ∀ i j b₁ b₂, i < m → j < n → Same b b₁ → f i j b₁ = .ok b₂ →
      Touched (x + BitVec.ofNat 32 j) (y + BitVec.ofNat 32 i) (change j i) b₁ b₂)
    (h : forTo m (fun i => forTo n (f i)) b = .ok b') :
    Renders (cover (Rect.mk x.toInt y.toInt n m).Has fun p =>
      change (p.1 - x.toInt).toNat (p.2 - y.toInt).toNat) b b' := by
  have hall : Touching x y m n change (fun i j => i < m ∧ j < n) b b' :=
    forTo_forTo_once (fun D z => Touching x y m n change D b z) h
      ⟨.refl b, fun _ _ _ _ => nofun, fun _ _ => rfl⟩
      fun D i j b₁ b₂ hi hj hD hz hone =>
        hz.round hb (by omega) (by omega) hi hj hD (hround i j b₁ b₂ hi hj hz.same hone)
  have hw := hsmall.width
  have hh := hsmall.height
  constructor
  · exact hall.same
  · intro x0 y0 hpixel
    have hx0 : x0.toNat < 2 ^ 31 := Nat.lt_trans hpixel.1 hw
    have hy0 : y0.toNat < 2 ^ 31 := Nat.lt_trans hpixel.2 hh
    by_cases hin : (Rect.mk x.toInt y.toInt n m).Has (x0.toNat, y0.toNat)
    · obtain ⟨hleft, hright, htop, hbottom⟩ := Rect.has_mk.mp hin
      have hj : x + BitVec.ofNat 32 ((x0.toNat : Int) - x.toInt).toNat = x0 :=
        (add_eq_iff hx0 (by omega)).mpr (by omega)
      have hi : y + BitVec.ofNat 32 ((y0.toNat : Int) - y.toInt).toNat = y0 :=
        (add_eq_iff hy0 (by omega)).mpr (by omega)
      have hdone := hall.done ((y0.toNat : Int) - y.toInt).toNat (by omega)
        ((x0.toNat : Int) - x.toInt).toNat (by omega) ⟨by omega, by omega⟩
      rw [hj, hi] at hdone
      rw [cover_inside hin, hdone (hsmall.clips_iff.mpr hpixel)]
    · rw [cover_transparent hin, Bitmap.at, hall.same.offset]
      apply hall.other
      intro i hi j hj _ hclips heq
      obtain ⟨hx, hy⟩ := hb.offset_inj (hsmall.clips_iff.mpr hpixel) hclips heq
      have hxj := (add_eq_iff hx0 (by omega)).mp hx.symm
      have hyi := (add_eq_iff hy0 (by omega)).mp hy.symm
      exact hin (Rect.has_mk.mpr (by omega))
  · intro o ho
    exact hall.other o fun i _ j _ _ hclips => ho _ _ (.of_clips hclips)

/-! ## Samples -/

/-- The place that is read for a place that is painted. -/
def sampled (start length scaled place : Nat) : Nat := start + place * length / scaled

theorem sampled_lt (start : Nat) {length scaled place : Nat} (hlength : 0 < length)
    (hplace : place < scaled) : sampled start length scaled place < start + length := by
  have hlt : place * length / scaled < length :=
    Nat.div_lt_of_lt_mul (Nat.mul_lt_mul_of_pos_right hplace hlength)
  exact Nat.add_lt_add_left hlt start

theorem le_sampled (start length scaled place : Nat) :
    start ≤ sampled start length scaled place := Nat.le_add_right _ _

/-- The place as it is computed, where neither the product nor the sum wraps. -/
theorem sample_toNat {start length scaled : Word32} {place : Nat} (hlength : 0 < length.toNat)
    (hplace : place < scaled.toNat) (hproduct : scaled.toNat * length.toNat ≤ 2 ^ 32)
    (hsum : start.toNat + length.toNat ≤ 2 ^ 32) :
    (start + BitVec.ofNat 32 place * length / scaled).toNat =
      sampled start.toNat length.toNat scaled.toNat place := by
  have hlt := sampled_lt start.toNat hlength hplace
  have hwrap : place * length.toNat < 2 ^ 32 :=
    Nat.lt_of_lt_of_le (Nat.mul_lt_mul_of_pos_right hplace hlength) hproduct
  have hscaled := scaled.isLt
  simp only [BitVec.toNat_add, BitVec.toNat_udiv, BitVec.toNat_mul, BitVec.toNat_ofNat,
    Nat.mod_eq_of_lt (show place < 2 ^ 32 by omega), Nat.mod_eq_of_lt hwrap]
  rw [sampled] at hlt ⊢
  exact Nat.mod_eq_of_lt (by omega)

/-- The rectangle that is read lies in the atlas, and no product wraps; it is
not empty, or nothing is painted. -/
structure Scaling.Inside (s : Scaling) (src : AlphaBitmap) : Prop where
  width : 0 < s.dstWidth.toNat → 0 < s.dstHeight.toNat → 0 < s.srcWidth.toNat
  height : 0 < s.dstWidth.toNat → 0 < s.dstHeight.toNat → 0 < s.srcHeight.toNat
  columns : s.srcX.toNat + s.srcWidth.toNat ≤ src.stride.toNat
  rows : (s.srcY.toNat + s.srcHeight.toNat) * src.stride.toNat ≤ src.size
  size : src.size ≤ 2 ^ 32
  wide : s.dstWidth.toNat * s.srcWidth.toNat ≤ 2 ^ 32
  tall : s.dstHeight.toNat * s.srcHeight.toNat ≤ 2 ^ 32
  dstWidth : s.dstWidth.toNat ≤ 2 ^ 31
  dstHeight : s.dstHeight.toNat ≤ 2 ^ 31

/-- The alpha for a place in the rectangle that is painted. -/
def Scaling.alphaAt (s : Scaling) (src : AlphaBitmap) (dx dy : Nat) : Byte :=
  src.alphas (sampled s.srcX.toNat s.srcWidth.toNat s.dstWidth.toNat dx +
    sampled s.srcY.toNat s.srcHeight.toNat s.dstHeight.toNat dy * src.stride.toNat)

/-- What a color becomes under another; nothing is written for an alpha of 0. -/
def blended (color : Word32) (alpha : Byte) (existing : Word32) : Word32 :=
  if alpha = 0 then existing else blendColors color existing (alpha.setWidth 32)

/-- Where the rectangle is painted. -/
def Scaling.rect (s : Scaling) : Rect :=
  ⟨s.dstX.toInt, s.dstY.toInt, s.dstWidth.toNat, s.dstHeight.toNat⟩

/-- What `paint_draw_alpha_bitmap_scaled` paints. -/
def Scaling.picture (s : Scaling) (src : AlphaBitmap) (color : Word32) : Picture :=
  cover s.rect.Has fun p =>
    blended color (s.alphaAt src (p.1 - s.dstX.toInt).toNat (p.2 - s.dstY.toInt).toNat)

variable {src : AlphaBitmap} {s : Scaling} {color : Word32} {dx dy : Nat}

theorem alphaLoad (hs : s.Inside src) (hdx : dx < s.dstWidth.toNat)
    (hdy : dy < s.dstHeight.toNat) :
    src.load (s.srcX + BitVec.ofNat 32 dx * s.srcWidth / s.dstWidth)
      (s.srcY + BitVec.ofNat 32 dy * s.srcHeight / s.dstHeight) = .ok (s.alphaAt src dx dy) := by
  have hwidth := hs.width (by omega) (by omega)
  have hheight := hs.height (by omega) (by omega)
  have hcolumn := sampled_lt s.srcX.toNat hwidth hdx
  have hrow := sampled_lt s.srcY.toNat hheight hdy
  have hcolumns := hs.columns
  have hstride := src.stride.isLt
  have hrows := hs.rows
  have hsize := hs.size
  -- the sample is in one of the first rows of the atlas
  have hplace := place_lt (Nat.lt_of_lt_of_le hcolumn hcolumns) hrow
  rw [Nat.mul_comm src.stride.toNat] at hplace
  have hsrcY : s.srcY.toNat + s.srcHeight.toNat ≤ 2 ^ 32 := by
    have := Nat.le_mul_of_pos_right (s.srcY.toNat + s.srcHeight.toNat)
      (show 0 < src.stride.toNat by omega)
    omega
  have hindex : (s.srcX + BitVec.ofNat 32 dx * s.srcWidth / s.dstWidth +
      (s.srcY + BitVec.ofNat 32 dy * s.srcHeight / s.dstHeight) * src.stride).toNat =
      sampled s.srcX.toNat s.srcWidth.toNat s.dstWidth.toNat dx +
        sampled s.srcY.toNat s.srcHeight.toNat s.dstHeight.toNat dy * src.stride.toNat := by
    rw [BitVec.toNat_add, BitVec.toNat_mul, sample_toNat hwidth hdx hs.wide (by omega),
      sample_toNat hheight hdy hs.tall hsrcY, Nat.add_mod_mod]
    exact Nat.mod_eq_of_lt (by omega)
  simp only [AlphaBitmap.load, hindex, Scaling.alphaAt]
  exact if_pos (by omega)

theorem alphaPixel_eq (hs : s.Inside src) (hdx : dx < s.dstWidth.toNat)
    (hdy : dy < s.dstHeight.toNat) : alphaPixel src s color dy dx b =
      if s.alphaAt src dx dy = 0 ∨
          b.clips (s.dstX + BitVec.ofNat 32 dx) (s.dstY + BitVec.ofNat 32 dy) = true then .ok b
      else (b.load (s.dstX + BitVec.ofNat 32 dx) (s.dstY + BitVec.ofNat 32 dy)).bind fun existing =>
        b.store (s.dstX + BitVec.ofNat 32 dx) (s.dstY + BitVec.ofNat 32 dy)
          (blended color (s.alphaAt src dx dy) existing) := by
  simp only [alphaPixel, alphaLoad hs hdx hdy, ok_bind, pure_eq_ok]
  by_cases halpha : s.alphaAt src dx dy = 0
  · simp [halpha]
  · simp only [blended, halpha, false_or]
    rfl

theorem alphaPixel_touched (hs : s.Inside src) (hdx : dx < s.dstWidth.toNat)
    (hdy : dy < s.dstHeight.toNat) (h : alphaPixel src s color dy dx b = .ok b') :
    Touched (s.dstX + BitVec.ofNat 32 dx) (s.dstY + BitVec.ofNat 32 dy)
      (blended color (s.alphaAt src dx dy)) b b' := by
  rw [alphaPixel_eq hs hdx hdy] at h
  by_cases halpha : s.alphaAt src dx dy = 0
  · rw [if_pos (.inl halpha)] at h
    cases h
    have hblended : blended color (s.alphaAt src dx dy) = fun existing => existing :=
      funext fun existing => if_pos halpha
    rw [hblended]
    exact .id b
  cases hclips : b.clips (s.dstX + BitVec.ofNat 32 dx) (s.dstY + BitVec.ofNat 32 dy) with
  | true =>
    rw [if_pos (.inr hclips)] at h
    cases h
    exact .of_clips hclips
  | false =>
    rw [hclips, if_neg (not_or.mpr ⟨halpha, Bool.false_ne_true⟩)] at h
    obtain ⟨existing, hload, hstore⟩ := bind_eq_ok.mp h
    have hstored := store_touched hclips hstore
    refine ⟨hstored.same, fun o => ?_⟩
    rw [hstored.pixels]
    apply ite_congr rfl _ fun _ => rfl
    rintro ⟨-, rfl⟩
    rw [load_at hload, Bitmap.at]

theorem alphaPixel_returns (color : Word32) (hb : b.Whole) (hs : s.Inside src)
    (hdx : dx < s.dstWidth.toNat) (hdy : dy < s.dstHeight.toNat) :
    Returns (alphaPixel src s color dy dx b) := by
  rw [alphaPixel_eq hs hdx hdy]
  split
  · simp
  · next hnot =>
    have hclips : b.clips (s.dstX + BitVec.ofNat 32 dx) (s.dstY + BitVec.ofNat 32 dy) = false := by
      simpa using fun h => hnot (.inr h)
    have hhas := hb.has_pixel (.of_clips hclips)
    obtain ⟨existing, hload⟩ := load_returns_iff.mpr hhas
    rw [hload]
    exact store_returns_iff.mpr hhas

/-- Where the samples are in the atlas, each pixel of the rectangle that is
also in the bitmap is blended once, and no other is touched. -/
theorem paintDrawAlphaBitmapScaled_renders (hb : b.Whole) (hsmall : b.Small)
    (hs : s.Inside src) (color : Word32) :
    ∃ b', paintDrawAlphaBitmapScaled b src s color = .ok b' ∧
      Renders (s.picture src color) b b' := by
  obtain ⟨b', hpaint, -⟩ := forTo_forTo_reaches (Same b)
    (fun dy dx z hdy hdx hz => by
      obtain ⟨z', hpixel⟩ := alphaPixel_returns color (hz.whole hb) hs hdx hdy
      exact ⟨z', hpixel, hz.trans (alphaPixel_touched hs hdx hdy hpixel).same⟩) (.refl b)
  refine ⟨b', hpaint, ?_⟩
  exact renders_grid hb hsmall hs.dstHeight hs.dstWidth
    (fun dy dx _ _ hdy hdx _ hpixel => alphaPixel_touched hs hdx hdy hpixel) hpaint

/-! ## Channels -/

/-- The red, green or blue of a color, by its lowest bit. -/
def channel (color : Word32) (k : Nat) : Nat := ((color >>> k) &&& 0xff).toNat

theorem channel_eq (color : Word32) (k : Nat) : channel color k = color.toNat / 2 ^ k % 256 := by
  rw [channel, BitVec.toNat_and, BitVec.toNat_ushiftRight, Nat.shiftRight_eq_div_pow]
  exact Nat.and_two_pow_sub_one_eq_mod _ 8

theorem channel_lt (color : Word32) (k : Nat) : channel color k < 256 := by
  rw [channel_eq]
  exact Nat.mod_lt _ (by decide)

/-- A channel of a blend. -/
def blendChannel (src dst alpha : Nat) : Nat := (src * alpha + dst * (255 - alpha)) / 255

/-- A blend lies between what is blended. -/
theorem blendChannel_between (src dst : Nat) {alpha : Nat} (halpha : alpha ≤ 255) :
    min src dst ≤ blendChannel src dst alpha ∧ blendChannel src dst alpha ≤ max src dst := by
  have hsplit (k : Nat) : k * alpha + k * (255 - alpha) = k * 255 := by
    rw [← Nat.mul_add, Nat.add_sub_cancel' halpha]
  have hlow := Nat.add_le_add (Nat.mul_le_mul_right alpha (Nat.min_le_left src dst))
    (Nat.mul_le_mul_right (255 - alpha) (Nat.min_le_right src dst))
  have hhigh := Nat.add_le_add (Nat.mul_le_mul_right alpha (Nat.le_max_left src dst))
    (Nat.mul_le_mul_right (255 - alpha) (Nat.le_max_right src dst))
  rw [hsplit] at hlow hhigh
  rw [blendChannel]
  omega

/-- The blend of a channel does not wrap. -/
theorem blend_toNat {src dst alpha : Word32} (hsrc : src.toNat < 256) (hdst : dst.toNat < 256)
    (halpha : alpha.toNat ≤ 255) : ((src * alpha + dst * (255 - alpha)) / 255).toNat =
      blendChannel src.toNat dst.toNat alpha.toNat := by
  have hinv : (255 - alpha : Word32).toNat = 255 - alpha.toNat :=
    BitVec.toNat_sub_of_le (BitVec.le_def.mpr halpha)
  have hfirst := Nat.mul_le_mul (Nat.le_of_lt_succ hsrc) halpha
  have hsecond := Nat.mul_le_mul (Nat.le_of_lt_succ hdst) (Nat.sub_le 255 alpha.toNat)
  rw [BitVec.toNat_udiv, BitVec.toNat_add, BitVec.toNat_mul, BitVec.toNat_mul, hinv,
    Nat.mod_eq_of_lt (by omega), Nat.mod_eq_of_lt (by omega), Nat.mod_eq_of_lt (by omega)]
  rfl

/-- Three channels in one color. -/
theorem pack_toNat {red green blue : Word32} (hred : red.toNat < 256) (hgreen : green.toNat < 256)
    (hblue : blue.toNat < 256) : ((red <<< 16) ||| (green <<< 8) ||| blue).toNat =
      65536 * red.toNat + 256 * green.toNat + blue.toNat := by
  have hr : (red <<< 16).toNat = red.toNat <<< 16 := by
    simp only [BitVec.toNat_shiftLeft, Nat.shiftLeft_eq]
    omega
  have hg : (green <<< 8).toNat = green.toNat <<< 8 := by
    simp only [BitVec.toNat_shiftLeft, Nat.shiftLeft_eq]
    omega
  have hlow : green.toNat <<< 8 + blue.toNat < 2 ^ 16 := by
    rw [Nat.shiftLeft_eq]
    omega
  rw [BitVec.or_assoc, BitVec.toNat_or, BitVec.toNat_or, hr, hg,
    ← Nat.shiftLeft_add_eq_or_of_lt (show blue.toNat < 2 ^ 8 from hblue) green.toNat,
    ← Nat.shiftLeft_add_eq_or_of_lt hlow red.toNat]
  simp only [Nat.shiftLeft_eq]
  omega

theorem blendColors_channel {dstColor alpha : Word32} (halpha : alpha.toNat ≤ 255) {k : Nat}
    (hk : k ∈ [0, 8, 16]) : channel (blendColors color dstColor alpha) k =
      blendChannel (channel color k) (channel dstColor k) alpha.toNat := by
  have hlt (k : Nat) : blendChannel (channel color k) (channel dstColor k) alpha.toNat < 256 := by
    have hsrc := channel_lt color k
    have hdst := channel_lt dstColor k
    have hbetween := (blendChannel_between (channel color k) (channel dstColor k) halpha).2
    omega
  have hblend (k : Nat) := blend_toNat (channel_lt color k) (channel_lt dstColor k) halpha
  have htoNat : (blendColors color dstColor alpha).toNat =
      65536 * blendChannel (channel color 16) (channel dstColor 16) alpha.toNat +
        256 * blendChannel (channel color 8) (channel dstColor 8) alpha.toNat +
        blendChannel (channel color 0) (channel dstColor 0) alpha.toNat := by
    have hpack := pack_toNat ((hblend 16).trans_lt (hlt 16)) ((hblend 8).trans_lt (hlt 8))
      ((hblend 0).trans_lt (hlt 0))
    rw [hblend, hblend, hblend] at hpack
    rw [blendColors]
    simpa only [channel, BitVec.ushiftRight_zero] using hpack
  have h0 := hlt 0
  have h8 := hlt 8
  have h16 := hlt 16
  rw [channel_eq, htoNat]
  rcases List.mem_cons.mp hk with rfl | hk
  · omega
  rcases List.mem_cons.mp hk with rfl | hk
  · omega
  · obtain rfl := List.mem_singleton.mp hk
    omega

/-! ## Alpha painting is exact -/

/-- A channel is no darker and no lighter than the two that are blended. -/
def Between (color existing painted : Word32) : Prop :=
  ∀ k ∈ [0, 8, 16], min (channel color k) (channel existing k) ≤ channel painted k ∧
    channel painted k ≤ max (channel color k) (channel existing k)

theorem blended_between (color : Word32) (alpha : Byte) (existing : Word32) :
    Between color existing (blended color alpha existing) := by
  intro k hk
  rw [blended]
  split
  · exact ⟨Nat.min_le_right _ _, Nat.le_max_right _ _⟩
  · have halpha : (alpha.setWidth 32).toNat ≤ 255 := by
      rw [BitVec.toNat_setWidth]
      have := alpha.isLt
      omega
    rw [blendColors_channel halpha hk]
    exact blendChannel_between _ _ halpha

theorem picture_between (src : AlphaBitmap) (s : Scaling) (color existing : Word32)
    (p : Int × Int) :
    Between color existing (s.picture src color p existing) := by
  rw [Scaling.picture, cover]
  split
  · exact blended_between color _ existing
  · exact fun k _ => ⟨Nat.min_le_right _ _, Nat.le_max_right _ _⟩

end

/-- Whatever the bitmap and the place, a part of an atlas is painted without
reading beside that part: each pixel of the scaled rectangle that is in the
bitmap is blended once with its sample, and no other is touched; no channel
gets darker or lighter than both the color and what was there. -/
theorem alphaPainting_exact {b : Bitmap} (hb : b.Whole) (hsmall : b.Small) {src : AlphaBitmap}
    {s : Scaling} (hs : s.Inside src) (color : Word32) :
    ∃ b', paintDrawAlphaBitmapScaled b src s color = .ok b' ∧
      Renders (s.picture src color) b b' ∧
      (∀ dx < s.dstWidth.toNat, ∀ dy < s.dstHeight.toNat,
        (Rect.mk s.srcX.toNat s.srcY.toNat s.srcWidth.toNat s.srcHeight.toNat).Has
          (sampled s.srcX.toNat s.srcWidth.toNat s.dstWidth.toNat dx,
            sampled s.srcY.toNat s.srcHeight.toNat s.dstHeight.toNat dy)) ∧
      ∀ x y, b.Pixel x y → Between color (b.at x y) (b'.at x y) := by
  obtain ⟨b', hpaint, hrenders⟩ := paintDrawAlphaBitmapScaled_renders hb hsmall hs color
  refine ⟨b', hpaint, hrenders, ?_, ?_⟩
  · intro dx hdx dy hdy
    have hcolumn := sampled_lt s.srcX.toNat (hs.width (by omega) (by omega)) hdx
    have hrow := sampled_lt s.srcY.toNat (hs.height (by omega) (by omega)) hdy
    have hleft := le_sampled s.srcX.toNat s.srcWidth.toNat s.dstWidth.toNat dx
    have htop := le_sampled s.srcY.toNat s.srcHeight.toNat s.dstHeight.toNat dy
    rw [Rect.has_mk]
    omega
  · intro x y hxy
    rw [hrenders.pixel x y hxy]
    exact picture_between src s color _ _

/-- An atlas of two by two. -/
def twoByTwoAtlas : AlphaBitmap := ⟨4, fun index => if index = 0 then 255 else 0, 2⟩

/-- Its first place is scaled to two by two at -1, -1. -/
def onePlace : Scaling := ⟨0, 0, 1, 1, -1, -1, 2, 2⟩

theorem onePlace_inside : onePlace.Inside twoByTwoAtlas :=
  ⟨by decide, by decide, by decide, by decide, by decide, by decide, by decide, by decide,
    by decide⟩

theorem onePlace_painted : ∃ b', paintDrawAlphaBitmapScaled twoByTwo twoByTwoAtlas onePlace 5 =
    .ok b' ∧ b'.at 0 0 = 5 ∧ b'.at 1 0 = 0 ∧ b'.at 0 1 = 0 ∧ b'.at 1 1 = 0 := by
  obtain ⟨b', hpaint, hrenders, -, -⟩ := alphaPainting_exact twoByTwo_whole
    ⟨by decide, by decide⟩ onePlace_inside 5
  exact ⟨b', hpaint, hrenders.pixel 0 0 (by decide), hrenders.pixel 1 0 (by decide),
    hrenders.pixel 0 1 (by decide), hrenders.pixel 1 1 (by decide)⟩

end ZOs.Compositor
