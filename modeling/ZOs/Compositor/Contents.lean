import ZOs.Compositor.Clipping
import ZOs.Compositor.Survival

/-!
# The contents of windows

What becomes of the window table in each step, and from it what is in a
framebuffer after a run: at every pixel what the client had drawn in its buffer
when it last committed a rectangle with that pixel, and the color of a new
window where it never did. Neither other clients nor other requests show.
-/

namespace ZOs.Compositor.Survival

open Runs Checked

instance {x y w h x0 y0 : Word32} : Decidable (InRect x y w h x0 y0) :=
  inferInstanceAs (Decidable (∃ i, i < _ ∧ ∃ j, j < _ ∧ _))

/-- The buffer that is copied from at a pixel of window `i`. -/
def committedFrom (c : CompositorState) (i : Nat) (x y : Word32) : Action → Option Bitmap
  | .request (.windowCommit windowHandle x0 y0 width height) _ none _ =>
    match compositorWindowGet c windowHandle with
    | some window =>
      if windowHandle.toNat = i ∧ InRect (x0.setWidth 32) (y0.setWidth 32) (width.setWidth 32)
          (height.setWidth 32) x y then
        window.buffer
      else none
    | none => none
  | _ => none

/-- What a history, latest first, leaves at a pixel of window `i`. -/
def contentAt : List (CompositorState × Action) → Nat → Word32 → Word32 → Word32
  | [], _, _, _ => darkGray
  | (c, a) :: history, i, x, y =>
    match committedFrom c i x y a with
    | some buffer => buffer.at x y
    | none => contentAt history i x y

/-- What an action makes of the window table. -/
inductive TableChange (c : CompositorState) : Action → List Window → Prop
  | kept {a : Action} (hnone : ∀ i x y, committedFrom c i x y a = none) :
      TableChange c a c.windowTable
  | created {name : List UInt8} {width height : Word} {processHandle : Int} {memory : Memory}
      {length : Nat} {framebuffer : Bitmap} (hname : strlen name = .ok length)
      (hfill : paintFillRect (newBitmap (width.setWidth 32) (height.setWidth 32) memory.contents)
        0 0 (width.setWidth 32) (height.setWidth 32) darkGray = .ok framebuffer) :
      TableChange c (.request (.windowCreate name width height) processHandle none memory)
        (c.windowTable ++ [⟨name.take length, width, height, 0, none, framebuffer⟩])
  | attached {windowHandle bufferHandle processHandle fd : Int} {memory : Memory}
      {window : Window} {buffer : Bitmap}
      (hget : compositorWindowGet c windowHandle = some window) :
      TableChange c
        (.request (.windowAttachBuffer windowHandle bufferHandle) processHandle (some fd) memory)
        (c.windowTable.set windowHandle.toNat
          { window with bufferHandle := fd, buffer := some buffer })
  | committed {windowHandle processHandle : Int} {x y width height : Word} {memory : Memory}
      {window : Window} {framebuffer : Bitmap}
      (hget : compositorWindowGet c windowHandle = some window)
      (hcopied : Copied window.framebuffer window.buffer (InRect (x.setWidth 32) (y.setWidth 32)
        (width.setWidth 32) (height.setWidth 32)) framebuffer) :
      TableChange c
        (.request (.windowCommit windowHandle x y width height) processHandle none memory)
        (c.windowTable.set windowHandle.toNat { window with framebuffer })
  | drawn {windowHandle : Int} {pixels : Nat → Word32} {window : Window}
      (hget : compositorWindowGet c windowHandle = some window) :
      TableChange c (.draw windowHandle pixels)
        (c.windowTable.set windowHandle.toNat
          { window with buffer := window.buffer.map fun buffer => { buffer with pixels } })

section

variable {c c' : CompositorState} {a : Action} {name : List UInt8} {width height : Word}
  {result handle : Int} {table : List Window} {window : Window} {i : Nat} {x y : Word32}
  {history : List (CompositorState × Action)}

/-! ## Steps -/

/-- A window that is created has the name up to its end, and is in one color. -/
theorem create_table (h : compositorWindowCreate c name width height = .ok (c', result, handle)) :
    c' = c ∨ ∃ length framebuffer, strlen name = .ok length ∧
      paintFillRect (newBitmap (width.setWidth 32) (height.setWidth 32) c.memory.contents) 0 0
        (width.setWidth 32) (height.setWidth 32) darkGray = .ok framebuffer ∧
      c'.windowTable = c.windowTable ++
        [⟨name.take length, width, height, 0, none, framebuffer⟩] := by
  unfold compositorWindowCreate at h
  obtain ⟨_ | _, -, hrest⟩ := bind_eq_ok.mp h
  · cases hrest
    exact .inl rfl
  obtain ⟨copied, hcopy, hrest⟩ := bind_eq_ok.mp hrest
  obtain ⟨length, hlength, hcopy⟩ := bind_eq_ok.mp hcopy
  obtain ⟨_ | _, -, hcopy⟩ := bind_eq_ok.mp hcopy
  · cases hcopy
  cases hcopy
  obtain ⟨_ | framebuffer, hbitmap, hrest⟩ := bind_eq_ok.mp hrest
  · cases hrest
    exact .inl rfl
  · obtain rfl := bitmapCreate_some hbitmap
    obtain ⟨filled, hfill, hrest⟩ := bind_eq_ok.mp hrest
    obtain ⟨⟨c₁, handle₁⟩, hinsert, hrest⟩ := bind_eq_ok.mp hrest
    obtain ⟨_ | _, -, hrest⟩ := bind_eq_ok.mp hrest
    · cases hrest
    · cases hrest
      exact .inr ⟨length, filled, hlength, hfill, (handleTableInsert_spec hinsert).1⟩

/-- A request that is answered has been performed; one that comes as it should
not leaves the table alone. -/
theorem exec_request {request : Request} {processHandle : Int} {descriptor : Option Int}
    {memory : Memory} (h : exec c (.request request processHandle descriptor memory) = .ok c') :
    (descriptor.isSome ≠ request.sendsFd ∧ c' = { c with memory }) ∨
      (descriptor.isSome = request.sendsFd ∧ ∃ result,
        perform { c with memory } request (descriptor.getD (-1)) = .ok (c', result)) := by
  have hexec : (respond c request processHandle descriptor memory).1 = .ok c' := h
  by_cases hplaced : descriptor.isSome = request.sendsFd
  · refine .inr ⟨hplaced, ?_⟩
    cases hperform : perform { c with memory } request (descriptor.getD (-1)) with
    | error fault => cases (respond_error processHandle hplaced hperform).symm.trans hexec
    | ok r =>
      obtain ⟨response, hrespond, -⟩ := respond_ok processHandle hplaced hperform
      rw [hrespond] at hexec
      cases hexec
      exact ⟨r.2, rfl⟩
  · rw [respond_misplaced hplaced] at hexec
    cases hexec
    exact .inl ⟨hplaced, rfl⟩

theorem request_table {request : Request} {processHandle : Int} {descriptor : Option Int}
    {memory : Memory} (hinv : Inv c)
    (h : exec c (.request request processHandle descriptor memory) = .ok c') :
    TableChange c (.request request processHandle descriptor memory) c'.windowTable := by
  rcases exec_request h with ⟨hmisplaced, rfl⟩ | ⟨hplaced, result, hperform⟩
  · apply TableChange.kept
    cases request <;> cases descriptor <;>
      first | exact fun _ _ _ => rfl | exact absurd rfl hmisplaced
  cases request with
  | windowCreate name width height =>
    cases descriptor with
    | some fd => cases hplaced
    | none =>
      cases hcreate : compositorWindowCreate { c with memory } name width height with
      | error fault => simp [perform, hcreate, Except.map] at hperform
      | ok r =>
        simp only [perform, hcreate, Except.map] at hperform
        cases hperform
        rcases create_table hcreate with hkept | ⟨length, framebuffer, hname, hfill, htable⟩
        · rw [hkept]
          exact .kept fun _ _ _ => rfl
        · rw [htable]
          exact .created hname hfill
  | windowAttachBuffer windowHandle bufferHandle =>
    cases descriptor with
    | none => cases hplaced
    | some fd =>
      obtain ⟨-, rfl, -⟩ | ⟨window, process, contents, -, hget, rfl⟩ := attach_spec hperform
      · exact .kept fun _ _ _ => rfl
      · exact .attached hget
  | windowCommit windowHandle x y width height =>
    cases descriptor with
    | some fd => cases hplaced
    | none =>
      obtain ⟨-, rfl, hnone⟩ | ⟨window, framebuffer, -, hget, hcopied, rfl⟩ :=
        commit_spec (c := { c with memory }) hinv hperform
      · apply TableChange.kept
        intro i x0 y0
        have hget : compositorWindowGet c windowHandle = none := hnone
        simp [committedFrom, hget]
      · exact .committed hget hcopied

theorem exec_table (hinv : Inv c) (h : exec c a = .ok c') : TableChange c a c'.windowTable := by
  cases a with
  | request request processHandle descriptor memory => exact request_table hinv h
  | draw windowHandle pixels =>
    cases h
    unfold drawBuffer
    cases hget : compositorWindowGet c windowHandle with
    | none => exact .kept fun _ _ _ => rfl
    | some window => exact .drawn hget
  | process process =>
    cases h
    exact .kept fun _ _ _ => rfl

/-! ## Runs -/

theorem get_place {windowHandle : Int} (hget : compositorWindowGet c windowHandle = some window) :
    c.windowTable[windowHandle.toNat]? = some window := (handleTableGet_spec hget).2

/-- What is in the framebuffers is what the history leaves; no commit is of a
window that is not there. -/
structure Faithful (history : List (CompositorState × Action)) (c : CompositorState) : Prop where
  inv : Inv c
  content : ∀ i window, c.windowTable[i]? = some window → ∀ x y,
    window.framebuffer.clips x y = false → window.framebuffer.at x y = contentAt history i x y
  absent : ∀ i, c.windowTable.length ≤ i → ∀ x y, contentAt history i x y = darkGray

/-- A window changes but for its framebuffer, and nothing is committed. -/
theorem Faithful.set {window' : Window} (h : Faithful history c) (hinv : Inv c')
    (hnone : ∀ i x y, committedFrom c i x y a = none)
    (hold : c.windowTable[i]? = some window) (htable : c'.windowTable = c.windowTable.set i window')
    (hsame : window'.framebuffer = window.framebuffer) : Faithful ((c, a) :: history) c' := by
  have hcontent (i : Nat) (x y : Word32) : contentAt ((c, a) :: history) i x y =
      contentAt history i x y := by rw [contentAt, hnone]
  refine ⟨hinv, fun k w hk x y hclips => ?_, fun k hk x y => ?_⟩
  · rw [hcontent]
    rw [htable, List.getElem?_set] at hk
    split at hk
    · next heq =>
      subst heq
      split at hk
      · cases hk
        rw [hsame] at hclips ⊢
        exact h.content i window hold x y hclips
      · cases hk
    · exact h.content k w hk x y hclips
  · rw [hcontent]
    rw [htable, List.length_set] at hk
    exact h.absent k hk x y

theorem fill_darkGray {contents : Nat → Word32} {w h : Word32} {framebuffer : Bitmap}
    (hfill : paintFillRect (newBitmap w h contents) 0 0 w h darkGray = .ok framebuffer)
    (hclips : framebuffer.clips x y = false) : framebuffer.at x y = darkGray := by
  have harea := (fill_newBitmap_returns_iff contents darkGray).mp ⟨framebuffer, hfill⟩
  have hsame : Same (newBitmap w h contents) framebuffer :=
    forRect_same (fun _ _ _ _ => fillPixel_same) hfill
  have hpixel : (newBitmap w h contents).Pixel x y := .of_clips (hsame.clips.symm.trans hclips)
  have hx : x.toNat < w.toNat := hpixel.1
  have hy : y.toNat < h.toNat := hpixel.2
  have hw := Nat.le_mul_of_pos_right w.toNat (Nat.zero_lt_of_lt hy)
  have hh := Nat.le_mul_of_pos_left h.toNat (Nat.zero_lt_of_lt hx)
  have hsmall : (newBitmap w h contents).Small :=
    ⟨show w.toNat < 2 ^ 31 by omega, show h.toNat < 2 ^ 31 by omega⟩
  have hpainted := paintFillRect_painted (newBitmap_whole harea) hsmall (by omega) (by omega) hfill
  exact hpainted.inside x y hpixel x.toNat hx y.toNat hy (by simp) (by simp)

theorem Faithful.step (h : Faithful history c) (hstep : Step c a c') :
    Faithful ((c, a) :: history) c' := by
  have hinv : Inv c' := inv_step h.inv hstep.2
  have hchange := exec_table h.inv hstep.2
  generalize htable : c'.windowTable = table at hchange
  cases hchange with
  | kept hnone =>
    refine ⟨hinv, ?_, ?_⟩
    · rw [htable]
      intro i window hi x y hclips
      rw [contentAt, hnone]
      exact h.content i window hi x y hclips
    · rw [htable]
      intro i hi x y
      rw [contentAt, hnone]
      exact h.absent i hi x y
  | created hname hfill =>
    refine ⟨hinv, ?_, ?_⟩
    · rw [htable]
      intro i window hi x y hclips
      show _ = contentAt history i x y
      rcases Nat.lt_or_ge i c.windowTable.length with hlt | hge
      · rw [List.getElem?_append_left hlt] at hi
        exact h.content i window hi x y hclips
      · rw [h.absent i hge]
        rw [List.getElem?_append_right hge] at hi
        obtain rfl := List.mem_singleton.mp (List.mem_of_getElem? hi)
        exact fill_darkGray hfill hclips
    · rw [htable]
      intro i hi x y
      rw [List.length_append] at hi
      exact h.absent i (Nat.le_of_succ_le hi) x y
  | attached hget => exact h.set hinv (fun _ _ _ => rfl) (get_place hget) htable rfl
  | drawn hget => exact h.set hinv (fun _ _ _ => rfl) (get_place hget) htable rfl
  | @committed windowHandle processHandle x₀ y₀ width height memory window framebuffer hget
      hcopied =>
    have hplace := get_place hget
    have hlt := (List.getElem?_eq_some_iff.mp hplace).1
    have hcommitted (i : Nat) (x y : Word32) : committedFrom c i x y
        (.request (.windowCommit windowHandle x₀ y₀ width height) processHandle none memory) =
        if windowHandle.toNat = i ∧ InRect (x₀.setWidth 32) (y₀.setWidth 32)
          (width.setWidth 32) (height.setWidth 32) x y then window.buffer else none := by
      simp only [committedFrom, hget]
    refine ⟨hinv, ?_, ?_⟩
    · rw [htable]
      intro i w hi x y hclips
      rw [contentAt, hcommitted]
      rw [List.getElem?_set] at hi
      by_cases heq : windowHandle.toNat = i
      · subst heq
        rw [if_pos rfl, if_pos hlt] at hi
        cases hi
        have hclips' : window.framebuffer.clips x y = false := hcopied.same.clips.symm.trans hclips
        by_cases hin : InRect (x₀.setWidth 32) (y₀.setWidth 32) (width.setWidth 32)
            (height.setWidth 32) x y
        · obtain ⟨buffer, hbuffer, hat⟩ := hcopied.inside x y hclips' hin
          rw [if_pos ⟨rfl, hin⟩, hbuffer]
          exact hat
        · rw [if_neg fun h => hin h.2]
          exact (hcopied.outside x y hclips' hin).trans (h.content _ window hplace x y hclips')
      · rw [if_neg heq] at hi
        rw [if_neg fun h => heq h.1]
        exact h.content i w hi x y hclips
    · rw [htable]
      intro i hi x y
      rw [List.length_set] at hi
      rw [contentAt, hcommitted, if_neg fun h => by omega]
      exact h.absent i hi x y

theorem run_faithful (h : Run Start Step history c) : Faithful history c := by
  induction h with
  | start hstart =>
    refine ⟨?_, ?_, fun _ _ _ _ => rfl⟩
    · intro window hwindow
      rw [hstart.1] at hwindow
      cases hwindow
    · intro i window hi
      rw [hstart.1] at hi
      cases hi
  | next hrun hstep ih => exact ih.step hstep

end

/-- Whatever the clients do, a framebuffer has at each pixel what was in the
buffer of its window when a rectangle with the pixel was last committed, and
the color of a new window where none ever was. -/
theorem contents_committed {history : List (CompositorState × Action)} {c : CompositorState}
    (h : Run Start Step history c) {i : Nat} {window : Window}
    (hi : c.windowTable[i]? = some window) {x y : Word32}
    (hclips : window.framebuffer.clips x y = false) :
    window.framebuffer.at x y = contentAt history i x y :=
  (run_faithful h).content i window hi x y hclips

/-- A buffer of one pixel is attached, and its pixel is committed. -/
theorem onePixel_shown : ∃ history c window buffer, Run Start Step history c ∧
    c.windowTable[0]? = some window ∧ window.buffer = some buffer ∧
    window.framebuffer.at 0 0 = buffer.at 0 0 := by
  obtain ⟨c, window, buffer, hrun, -, hget, hbuffer, hwidth, hheight⟩ := attachPixel_run
  have hfaithful := run_faithful hrun
  have hsound : Sound c commitPixel := by
    refine ⟨rfl, fun window' hget' => .inl ?_⟩
    cases hget.symm.trans hget'
    rw [hbuffer]
    rfl
  obtain ⟨c', response, hrespond⟩ := (survives_iff_sound hfaithful.inv).mpr hsound
  have hstep : Step c commitPixel c' := ⟨trivial, congrArg Prod.fst hrespond⟩
  have hclips : window.framebuffer.clips 0 0 = false := by
    simp [Bitmap.clips, hwidth, hheight]
  have hfrom : committedFrom c 0 0 0 commitPixel = some buffer := by
    have hin : InRect 0 0 1 1 0 0 := inRect_zero (by decide) (by decide)
    have hsize : BitVec.setWidth 32 (1 : Word) = 1 ∧ BitVec.setWidth 32 (0 : Word) = 0 := by decide
    simp only [committedFrom, commitPixel, hget, hsize]
    exact (if_pos ⟨rfl, hin⟩).trans hbuffer
  have hchange := exec_table hfaithful.inv hstep.2
  generalize htable : c'.windowTable = table at hchange
  cases hchange with
  | kept hnone =>
    rw [hnone] at hfrom
    cases hfrom
  | @committed _ _ _ _ _ _ _ window' framebuffer hget' hcopied =>
    cases hget.symm.trans hget'
    have hlt := (List.getElem?_eq_some_iff.mp (get_place hget)).1
    have hplace : c'.windowTable[0]? = some { window with framebuffer } := by
      rw [htable]
      exact List.getElem?_set_self hlt
    refine ⟨_, c', _, buffer, .next hrun hstep, hplace, hbuffer, ?_⟩
    rw [contents_committed (.next hrun hstep) hplace (hcopied.same.clips.trans hclips), contentAt,
      hfrom]

end ZOs.Compositor.Survival
