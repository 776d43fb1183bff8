import ZOs.Compositor.Paint

/-!
# Clipping

Painting at a position that may be negative. The coordinates of a pixel are
sums that wrap modulo 2³², and they are compared as signed and as unsigned
numbers; for rectangles with sides of at most 2³¹ a pixel is painted exactly
when it lies in the rectangle, as integers. A bitmap has the pixels it is said
to have as long as the product that it is allocated with does not wrap.
-/

namespace ZOs.Compositor

open Checked

/-! ## More of `paint.c` -/

/-- `paint_clear`. The inner loop goes over the offsets in a row in steps of
the size of a pixel; round `k` is that of column `k`. -/
def paintClear (bitmap : Bitmap) (color : Word32) : Except Fault Bitmap :=
  forTo bitmap.height.toNat (fun y => forTo ((bitmap.stride.toNat + 3) / 4) fun k bitmap =>
    bitmap.store (BitVec.ofNat 32 k) (BitVec.ofNat 32 y) color) bitmap

/-- One pixel of `paint_blit_bitmap`. -/
def blitAt (src : Bitmap) (x y : Word32) (i j : Nat) (dst : Bitmap) : Except Fault Bitmap :=
  let x0 := x + BitVec.ofNat 32 j
  let y0 := y + BitVec.ofNat 32 i
  if dst.clips x0 y0 then .ok dst
  else (src.load (BitVec.ofNat 32 j) (BitVec.ofNat 32 i)).bind (dst.store x0 y0)

/-- `paint_blit_bitmap`, of a source with data of its own. -/
def paintBlitBitmap (dst src : Bitmap) (x y : Word32) : Except Fault Bitmap :=
  forTo src.height.toNat (fun i => forTo src.width.toNat (blitAt src x y i)) dst

section

variable {b b₁ b₂ b' dst dst' src : Bitmap} {x y x0 y0 w h color : Word32} {m n : Nat}

/-! ## Pixels -/

/-- A pixel of the bitmap. -/
def Bitmap.Pixel (b : Bitmap) (x y : Word32) : Prop :=
  x.toNat < b.width.toNat ∧ y.toNat < b.height.toNat

theorem Same.offset (h : Same b b') : b'.offset x y = b.offset x y := by
  rw [Bitmap.offset, Bitmap.offset, h.stride]

theorem Bitmap.Pixel.of_clips (h : b.clips x y = false) : b.Pixel x y :=
  (clips_eq_false_iff.mp h).2.2

/-- The pixels of a whole bitmap are at offsets that do not wrap. -/
theorem Bitmap.Whole.has_pixel (hb : b.Whole) (h : b.Pixel x y) : b.Has x y := by
  have hplace := place_lt h.1 h.2
  have harea := hb.area
  have hsize := hb.size
  rw [Bitmap.Has, offset_toNat hb.stride, Nat.mod_eq_of_lt (by omega)]
  omega

/-- The sides are below 2³¹, so that every coordinate is a number that is not
negative. -/
structure Bitmap.Small (b : Bitmap) : Prop where
  width : b.width.toNat < 2 ^ 31
  height : b.height.toNat < 2 ^ 31

theorem Bitmap.Small.clips_iff (hb : b.Small) : b.clips x y = false ↔ b.Pixel x y := by
  refine ⟨.of_clips, fun h => ?_⟩
  have hwidth := Nat.lt_trans h.1 hb.width
  have hheight := Nat.lt_trans h.2 hb.height
  have hx : x.toInt = x.toNat := BitVec.toInt_eq_toNat_of_lt (by omega)
  have hy : y.toInt = y.toNat := BitVec.toInt_eq_toNat_of_lt (by omega)
  rw [clips_eq_false_iff, hx, hy]
  exact ⟨Int.natCast_nonneg _, Int.natCast_nonneg _, h.1, h.2⟩

/-- A coordinate that is not negative is reached from a position in as many
steps as there are between them. -/
theorem add_eq_iff {j : Nat} (hx0 : x0.toNat < 2 ^ 31) (hj : j < 2 ^ 31) :
    x + BitVec.ofNat 32 j = x0 ↔ (x0.toNat : Int) = x.toInt + j := by
  rw [← BitVec.toNat_inj, BitVec.toNat_add, BitVec.toNat_ofNat, BitVec.toInt_eq_toNat_cond]
  have hx := x.isLt
  split <;> omega

/-! ## What a loop over pixels writes -/

/-- Every offset has a value that `P` says was written there, or the value it
had. -/
structure Wrote (P : Nat → Word32 → Prop) (b b' : Bitmap) : Prop where
  same : Same b b'
  pixel : ∀ o, P o (b'.pixels o) ∨ (∀ v, ¬P o v) ∧ b'.pixels o = b.pixels o

theorem Wrote.none (b : Bitmap) : Wrote (fun _ _ => False) b b :=
  ⟨.refl b, fun _ => .inr ⟨fun _ h => h, rfl⟩⟩

theorem Wrote.trans {P Q : Nat → Word32 → Prop} (h : Wrote P b b₁) (h' : Wrote Q b₁ b₂) :
    Wrote (fun o v => P o v ∨ Q o v) b b₂ := by
  refine ⟨h.same.trans h'.same, fun o => ?_⟩
  rcases h'.pixel o with hQ | ⟨hQ, heq⟩
  · exact .inl (.inr hQ)
  rw [heq]
  rcases h.pixel o with hP | ⟨hP, hkept⟩
  · exact .inl (.inl hP)
  · exact .inr ⟨fun v hv => hv.elim (hP v) (hQ v), hkept⟩

theorem Wrote.congr {P Q : Nat → Word32 → Prop} (h : Wrote P b b')
    (hPQ : ∀ o v, P o v ↔ Q o v) : Wrote Q b b' := by
  refine ⟨h.same, fun o => ?_⟩
  simp only [← hPQ]
  exact h.pixel o

theorem store_wrote (h : b.store x y color = .ok b') :
    Wrote (fun o v => o = (b.offset x y).toNat ∧ v = color) b b' := by
  refine ⟨store_same h, fun o => ?_⟩
  unfold Bitmap.store at h
  split at h
  · obtain rfl := Except.ok.inj h
    dsimp only
    split
    · exact .inl ⟨‹_›, rfl⟩
    · exact .inr ⟨fun v hv => absurd hv.1 ‹_›, rfl⟩
  · cases h

/-- What the rounds of two loops write, the loops write. -/
theorem wrote_grid {f : Nat → Nat → Bitmap → Except Fault Bitmap}
    {P : Nat → Nat → Nat → Word32 → Prop}
    (hround : ∀ i j b₁ b₂, Same b b₁ → f i j b₁ = .ok b₂ → Wrote (P i j) b₁ b₂)
    (h : forTo m (fun i => forTo n (f i)) b = .ok b') :
    Wrote (fun o v => ∃ i < m, ∃ j < n, P i j o v) b b' := by
  have hall := forTo_forTo_counts
    (fun D z => Wrote (fun o v => ∃ i j, D i j ∧ P i j o v) b z) h
    ((Wrote.none b).congr fun o v => by simp) fun D i j b₁ b₂ hD hone => by
      refine (hD.trans (hround i j b₁ b₂ hD.same hone)).congr fun o v => ?_
      constructor
      · rintro (⟨i', j', hmem, hP⟩ | hP)
        · exact ⟨i', j', .inl hmem, hP⟩
        · exact ⟨i, j, .inr ⟨rfl, rfl⟩, hP⟩
      · rintro ⟨i', j', hmem | ⟨rfl, rfl⟩, hP⟩
        · exact .inl ⟨i', j', hmem, hP⟩
        · exact .inr hP
  refine hall.congr fun o v => ?_
  constructor
  · rintro ⟨i, j, ⟨hi, hj⟩, hP⟩
    exact ⟨i, hi, j, hj, hP⟩
  · rintro ⟨i, hi, j, hj, hP⟩
    exact ⟨i, j, ⟨hi, hj⟩, hP⟩

/-! ## A rectangle at a position -/

/-- A rectangle of colors at a position, as integers: its pixels in the bitmap
are painted, the other pixels are not, and nothing else is written. -/
structure Painted (x y : Int) (width height : Nat) (color : Nat → Nat → Word32) (b b' : Bitmap) :
    Prop where
  same : Same b b'
  inside : ∀ x0 y0, b.Pixel x0 y0 → ∀ j < width, ∀ i < height,
    (x0.toNat : Int) = x + j → (y0.toNat : Int) = y + i → b'.at x0 y0 = color j i
  outside : ∀ x0 y0, b.Pixel x0 y0 →
    ¬(x ≤ x0.toNat ∧ x0.toNat < x + width ∧ y ≤ y0.toNat ∧ y0.toNat < y + height) →
      b'.at x0 y0 = b.at x0 y0
  beyond : ∀ o, (∀ x0 y0, b.Pixel x0 y0 → o ≠ (b.offset x0 y0).toNat) →
    b'.pixels o = b.pixels o

instance (b : Bitmap) (x y : Word32) : Decidable (b.Pixel x y) :=
  inferInstanceAs (Decidable (_ ∧ _))

/-- What is written at the coordinates that are not clipped is painted. -/
theorem Wrote.painted (hb : b.Whole) (hsmall : b.Small) (hm : m ≤ 2 ^ 31) (hn : n ≤ 2 ^ 31)
    {value : Nat → Nat → Word32} (h : Wrote (fun o v => ∃ i < m, ∃ j < n,
      b.clips (x + BitVec.ofNat 32 j) (y + BitVec.ofNat 32 i) = false ∧
        o = (b.offset (x + BitVec.ofNat 32 j) (y + BitVec.ofNat 32 i)).toNat ∧
        v = value j i) b b') :
    Painted x.toInt y.toInt n m value b b' := by
  have hreach {x0 y0 : Word32} (hpixel : b.Pixel x0 y0) {i j : Nat} (hi : i < m) (hj : j < n) :
      x + BitVec.ofNat 32 j = x0 ∧ y + BitVec.ofNat 32 i = y0 ↔
        (x0.toNat : Int) = x.toInt + j ∧ (y0.toNat : Int) = y.toInt + i := by
    have hw := hsmall.width
    have hh := hsmall.height
    rw [add_eq_iff (by have := hpixel.1; omega) (by omega),
      add_eq_iff (by have := hpixel.2; omega) (by omega)]
  -- two writes to one pixel are of one place in the rectangle
  have hplace {x0 y0 : Word32} (hpixel : b.Pixel x0 y0) {i j : Nat} (hi : i < m) (hj : j < n)
      (hclips : b.clips (x + BitVec.ofNat 32 j) (y + BitVec.ofNat 32 i) = false)
      (ho : (b.offset x0 y0).toNat =
        (b.offset (x + BitVec.ofNat 32 j) (y + BitVec.ofNat 32 i)).toNat) :
      (x0.toNat : Int) = x.toInt + j ∧ (y0.toNat : Int) = y.toInt + i := by
    obtain ⟨hx, hy⟩ := hb.offset_inj (hsmall.clips_iff.mpr hpixel) hclips ho
    exact (hreach hpixel hi hj).mp ⟨hx.symm, hy.symm⟩
  refine ⟨h.same, ?_, ?_, ?_⟩
  · intro x0 y0 hpixel j hj i hi hx hy
    obtain ⟨hxj, hyi⟩ := (hreach hpixel hi hj).mpr ⟨hx, hy⟩
    rw [Bitmap.at, h.same.offset]
    rcases h.pixel (b.offset x0 y0).toNat with ⟨i', hi', j', hj', hclips, ho, hv⟩ | ⟨hnone, -⟩
    · obtain ⟨hx', hy'⟩ := hplace hpixel hi' hj' hclips ho
      obtain rfl : j' = j := by omega
      obtain rfl : i' = i := by omega
      exact hv
    · refine absurd ⟨i, hi, j, hj, ?_, ?_, rfl⟩ (hnone (value j i))
      · rw [hxj, hyi]
        exact hsmall.clips_iff.mpr hpixel
      · rw [hxj, hyi]
  · intro x0 y0 hpixel hout
    rw [Bitmap.at, h.same.offset]
    rcases h.pixel (b.offset x0 y0).toNat with ⟨i, hi, j, hj, hclips, ho, -⟩ | ⟨-, hkept⟩
    · obtain ⟨hx, hy⟩ := hplace hpixel hi hj hclips ho
      exact absurd ⟨by omega, by omega, by omega, by omega⟩ hout
    · exact hkept
  · intro o hbeyond
    rcases h.pixel o with ⟨i, hi, j, hj, hclips, ho, -⟩ | ⟨-, hkept⟩
    · exact absurd ho (hbeyond _ _ (.of_clips hclips))
    · exact hkept

/-! ## `paint_fill_rect` -/

theorem fillPixel_wrote (h : fillPixel color x y b = .ok b') : Wrote (fun o v =>
    b.clips x y = false ∧ o = (b.offset x y).toNat ∧ v = color) b b' := by
  unfold fillPixel at h
  cases hclips : b.clips x y with
  | true =>
    rw [hclips] at h
    obtain rfl := Except.ok.inj h
    exact (Wrote.none b).congr fun o v => by simp
  | false =>
    rw [hclips] at h
    exact (store_wrote h).congr fun o v => by simp

theorem paintFillRect_returns (hb : b.Whole) (x y w h color : Word32) :
    Returns (paintFillRect b x y w h color) :=
  paintFillRect_returns_iff.mpr fun _ _ _ hclips => hb.has_pixel (.of_clips hclips)

theorem paintFillRect_painted (hb : b.Whole) (hsmall : b.Small) (hw : w.toNat ≤ 2 ^ 31)
    (hh : h.toNat ≤ 2 ^ 31) (hfill : paintFillRect b x y w h color = .ok b') :
    Painted x.toInt y.toInt w.toNat h.toNat (fun _ _ => color) b b' := by
  apply Wrote.painted hb hsmall hh hw
  apply wrote_grid _ hfill
  intro i j b₁ b₂ hsame hone
  refine (fillPixel_wrote hone).congr fun o v => ?_
  rw [hsame.clips, hsame.offset]

/-! ## `paint_blit_bitmap` -/

theorem blitAt_same {i j : Nat} (h : blitAt src x y i j dst = .ok dst') : Same dst dst' := by
  unfold blitAt at h
  dsimp only at h
  split at h
  · obtain rfl := Except.ok.inj h
    exact .refl dst
  · obtain ⟨color, -, hstore⟩ := bind_eq_ok.mp h
    exact store_same hstore

theorem blitAt_wrote {i j : Nat} (h : blitAt src x y i j dst = .ok dst') : Wrote (fun o v =>
    dst.clips (x + BitVec.ofNat 32 j) (y + BitVec.ofNat 32 i) = false ∧
      o = (dst.offset (x + BitVec.ofNat 32 j) (y + BitVec.ofNat 32 i)).toNat ∧
      v = src.at (BitVec.ofNat 32 j) (BitVec.ofNat 32 i)) dst dst' := by
  unfold blitAt at h
  dsimp only at h
  cases hclips : dst.clips (x + BitVec.ofNat 32 j) (y + BitVec.ofNat 32 i) with
  | true =>
    rw [hclips] at h
    obtain rfl := Except.ok.inj h
    exact (Wrote.none dst).congr fun o v => by simp
  | false =>
    rw [hclips] at h
    obtain ⟨color, hload, hstore⟩ := bind_eq_ok.mp h
    rw [load_at hload] at hstore
    exact (store_wrote hstore).congr fun o v => by simp

/-- Both bitmaps have the pixels that are copied. -/
theorem paintBlitBitmap_returns (hdst : dst.Whole) (hsrc : src.Whole) (x y : Word32) :
    Returns (paintBlitBitmap dst src x y) := by
  have hpixel {i j : Nat} (hi : i < src.height.toNat) (hj : j < src.width.toNat) :
      src.Pixel (BitVec.ofNat 32 j) (BitVec.ofNat 32 i) := by
    have hw := src.width.isLt
    have hh := src.height.isLt
    refine ⟨?_, ?_⟩
    · rw [BitVec.toNat_ofNat, Nat.mod_eq_of_lt (by omega)]
      exact hj
    · rw [BitVec.toNat_ofNat, Nat.mod_eq_of_lt (by omega)]
      exact hi
  refine (forTo_forTo_returns_iff (Same dst) (P := fun i j =>
    dst.clips (x + BitVec.ofNat 32 j) (y + BitVec.ofNat 32 i) = false →
      src.Has (BitVec.ofNat 32 j) (BitVec.ofNat 32 i))
    (fun i j b₁ b₂ hsame hone => hsame.trans (blitAt_same hone)) ?_ (.refl dst)).mpr
    fun i hi j hj _ => hsrc.has_pixel (hpixel hi hj)
  intro i j b₁ hsame
  unfold blitAt
  dsimp only
  rw [hsame.clips]
  cases hclips : dst.clips (x + BitVec.ofNat 32 j) (y + BitVec.ofNat 32 i) with
  | true => simp
  | false =>
    have hdst' := hsame.has_iff.mpr (hdst.has_pixel (.of_clips hclips))
    rw [if_neg Bool.false_ne_true, ← load_returns_iff]
    constructor
    · rintro hboth -
      obtain ⟨color, hload, -⟩ := returns_bind.mp hboth
      exact ⟨color, hload⟩
    · intro hload
      obtain ⟨color, hload⟩ := hload rfl
      exact returns_bind.mpr ⟨color, hload, store_returns_iff.mpr hdst'⟩

theorem paintBlitBitmap_painted (hdst : dst.Whole) (hsmall : dst.Small) (hsrc : src.Small)
    (hblit : paintBlitBitmap dst src x y = .ok dst') :
    Painted x.toInt y.toInt src.width.toNat src.height.toNat
      (fun j i => src.at (BitVec.ofNat 32 j) (BitVec.ofNat 32 i)) dst dst' := by
  apply Wrote.painted hdst hsmall (Nat.le_of_lt hsrc.height) (Nat.le_of_lt hsrc.width)
  apply wrote_grid _ hblit
  intro i j b₁ b₂ hsame hone
  refine (blitAt_wrote hone).congr fun o v => ?_
  rw [hsame.clips, hsame.offset]

/-! ## `paint_clear` -/

theorem paintClear_returns (hb : b.Whole) (color : Word32) : Returns (paintClear b color) := by
  refine (forTo_forTo_returns_iff (Same b) (P := fun y k =>
    b.Has (BitVec.ofNat 32 k) (BitVec.ofNat 32 y))
    (fun i j b₁ b₂ hsame hone => hsame.trans (store_same hone))
    (fun y k b₁ hsame => store_returns_iff.trans hsame.has_iff) (.refl b)).mpr ?_
  intro y hy k hk
  have harea := hb.area
  have hheight := b.height.isLt
  have hwidth : b.width.toNat ≤ b.width.toNat * b.height.toNat :=
    Nat.le_mul_of_pos_right _ (by omega)
  have hstride : b.stride.toNat = 4 * b.width.toNat := by
    rw [hb.stride, BitVec.toNat_mul]
    show b.width.toNat * 4 % 2 ^ 32 = _
    omega
  apply hb.has_pixel
  refine ⟨?_, ?_⟩
  · rw [BitVec.toNat_ofNat]
    omega
  · rw [BitVec.toNat_ofNat, Nat.mod_eq_of_lt (by omega)]
    exact hy

end

/-! ## Painting is exact -/

/-- On a bitmap that has its pixels and is not too large, what is painted is
the rectangle, or the other bitmap, as far as it lies in the bitmap. -/
theorem clippedPainting_exact {b : Bitmap} (hb : b.Whole) (hsmall : b.Small) :
    (∀ x y w h color : Word32, w.toNat ≤ 2 ^ 31 → h.toNat ≤ 2 ^ 31 →
      ∃ b', paintFillRect b x y w h color = .ok b' ∧
        Painted x.toInt y.toInt w.toNat h.toNat (fun _ _ => color) b b') ∧
    ∀ (src : Bitmap) (x y : Word32), src.Whole → src.Small →
      ∃ b', paintBlitBitmap b src x y = .ok b' ∧
        Painted x.toInt y.toInt src.width.toNat src.height.toNat
          (fun j i => src.at (BitVec.ofNat 32 j) (BitVec.ofNat 32 i)) b b' := by
  constructor
  · intro x y w h color hw hh
    obtain ⟨b', hfill⟩ := paintFillRect_returns hb x y w h color
    exact ⟨b', hfill, paintFillRect_painted hb hsmall hw hh hfill⟩
  · intro src x y hsrc hsrcSmall
    obtain ⟨b', hblit⟩ := paintBlitBitmap_returns hb hsrc x y
    exact ⟨b', hblit, paintBlitBitmap_painted hb hsmall hsrcSmall hblit⟩

/-- A bitmap of two by two pixels, all of them 0. -/
def twoByTwo : Bitmap := newBitmap 2 2 fun _ => 0

theorem twoByTwo_whole : twoByTwo.Whole := newBitmap_whole (by decide)

/-- A rectangle of two by two at -1, -1 paints one pixel. -/
theorem twoByTwo_painted : ∃ b', paintFillRect twoByTwo (-1) (-1) 2 2 5 = .ok b' ∧
    b'.at 0 0 = 5 ∧ b'.at 1 0 = 0 ∧ b'.at 0 1 = 0 ∧ b'.at 1 1 = 0 := by
  obtain ⟨b', hfill, hpainted⟩ := (clippedPainting_exact twoByTwo_whole ⟨by decide, by decide⟩).1
    (-1) (-1) 2 2 5 (by decide) (by decide)
  refine ⟨b', hfill, ?_, ?_, ?_, ?_⟩
  · exact hpainted.inside 0 0 (by decide) 1 (by decide) 1 (by decide) (by decide) (by decide)
  · exact hpainted.outside 1 0 (by decide) (by decide)
  · exact hpainted.outside 0 1 (by decide) (by decide)
  · exact hpainted.outside 1 1 (by decide) (by decide)

/-! ## Bitmaps are as large as they claim -/

/-- The data has room for the pixels, and painting stays in the data. -/
structure Bitmap.Holds (b : Bitmap) : Prop where
  pixels : 4 * (b.width.toNat * b.height.toNat) ≤ b.size
  clear : ∀ color, Returns (paintClear b color)
  fill : ∀ x y w h color, Returns (paintFillRect b x y w h color)
  blitTo : ∀ src x y, src.Whole → Returns (paintBlitBitmap b src x y)
  blitFrom : ∀ dst x y, dst.Whole → Returns (paintBlitBitmap dst b x y)

theorem Bitmap.Whole.holds {b : Bitmap} (hb : b.Whole) : b.Holds where
  pixels := hb.size
  clear := paintClear_returns hb
  fill := paintFillRect_returns hb
  blitTo _ x y hsrc := paintBlitBitmap_returns hb hsrc x y
  blitFrom _ x y hdst := paintBlitBitmap_returns hdst hb x y

theorem bitmapCreate_some {object data : Malloc} {contents : Nat → Word32} {w h : Word32}
    {b : Bitmap} (hcreate : bitmapCreate object data contents w h = .ok (some b)) :
    b = newBitmap w h contents := by
  unfold bitmapCreate at hcreate
  obtain ⟨_ | _, -, hcreate⟩ := bind_eq_ok.mp hcreate
  · cases hcreate
  obtain ⟨_ | _, -, hcreate⟩ := bind_eq_ok.mp hcreate
  · cases hcreate
  · exact (Option.some.inj (Except.ok.inj hcreate)).symm

/-- A bitmap that `bitmap_create` returns has its pixels exactly when their
bytes can be counted with 32 bits. -/
theorem bitmapCreate_holds_iff {object data : Malloc} {contents : Nat → Word32} {w h : Word32}
    {b : Bitmap} (hcreate : bitmapCreate object data contents w h = .ok (some b)) :
    b.Holds ↔ w.toNat * h.toNat * 4 < 2 ^ 32 := by
  obtain rfl := bitmapCreate_some hcreate
  constructor
  · intro hholds
    have hpixels := hholds.pixels
    rw [newBitmap_size] at hpixels
    have hpixels' : 4 * (w.toNat * h.toNat) ≤ 4 * (w.toNat * h.toNat) % 2 ^ 32 := hpixels
    omega
  · intro harea
    exact (newBitmap_whole (by omega)).holds

/-- One pixel. -/
theorem onePixel_holds : (newBitmap 1 1 fun _ => 0).Holds :=
  (bitmapCreate_holds_iff (rfl : bitmapCreate .block .block (fun _ => 0) 1 1 = _)).mpr (by decide)

/-- A bitmap of 32768 by 32769 pixels has 131072 bytes. -/
theorem tallBitmap_not_holds : ∃ b,
    bitmapCreate .block .block (fun _ => 0) 32768 32769 = .ok (some b) ∧ ¬b.Holds := by
  refine ⟨_, rfl, fun hholds => ?_⟩
  exact absurd hholds.pixels (by decide)

end ZOs.Compositor
