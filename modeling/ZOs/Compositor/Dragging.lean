import ZOs.Compositor.Cursor

/-!
# Dragging windows

What `compositor_update` does with the places of the windows, frame after
frame. A window is grabbed where the cursor is in its title bar with the left
button down, and from then on it stays at that place under the cursor until a
frame finds the button up. So a window moves with the cursor or not at all,
and the title bar never leaves the screen for good: the place at which it was
grabbed is always on it.
-/

namespace ZOs.Compositor

open Runs
open Usb.Hid (Event)

/-! ## The functions -/

/-- `WINDOW_TITLE_BAR_HEIGHT`. -/
def windowTitleBarHeight : Int := 28

/-- `compositor_window_t`, as far as its place goes. -/
structure Place where
  x : Int
  y : Int
  width : BitVec 64
  dragging : Bool
  dragStartX : Int
  dragStartY : Int
  dragOffsetX : Int
  dragOffsetY : Int
  deriving DecidableEq

/-- The width as the `int32_t` that `cursor_is_in_rect` takes. -/
def Place.width32 (w : Place) : Int := (w.width.setWidth 32).toInt

/-- Where `compositor_window_create` puts a window. -/
def newPlace (width : BitVec 64) : Place := ⟨0, 0, width, false, 0, 0, 0, 0⟩

/-- The cursor is in the title bar. -/
def Cursor.isInTitleBar (c : Cursor) (w : Place) : Bool :=
  c.isInRect w.x w.y w.width32 windowTitleBarHeight

/-- The first half of `compositor_window_update`: the window is grabbed. -/
def Place.grab (c : Cursor) (w : Place) : Place :=
  if c.isInTitleBar w && (c.leftClick && !w.dragging) then
    { w with
      dragging := true
      dragStartX := w.x
      dragStartY := w.y
      dragOffsetX := c.x
      dragOffsetY := c.y }
  else w

/-- The second half: it is dragged, or let go. -/
def Place.drag (c : Cursor) (w : Place) : Place :=
  if w.dragging && c.leftClick then
    { w with
      x := w.dragStartX + (c.x - w.dragOffsetX)
      y := w.dragStartY + (c.y - w.dragOffsetY) }
  else if w.dragging then { w with dragging := false }
  else w

/-- `compositor_window_update`. -/
def compositorWindowUpdate (c : Cursor) (w : Place) : Place := (w.grab c).drag c

/-- The cursor and the places of the windows, in the order of the list. -/
structure Desk where
  cursor : Cursor
  windows : List Place

/-- `compositor_update`: a window that is created by the one message of
`compositor_abi_poll`, and the events that `cursor_update` reads. -/
structure DeskFrame where
  created : Option (BitVec 64)
  events : List Event

def Desk.update (s : Desk) (a : DeskFrame) : Desk :=
  let cursor := s.cursor.update a.events
  { cursor
    windows := (s.windows ++ a.created.toList.map newPlace).map (compositorWindowUpdate cursor) }

/-! ## Runs -/

/-- A frame. The sum of a place and a width is an `int32_t`, so that no window
is wider than 2^30. -/
def Desk.Step (s : Desk) (a : DeskFrame) (s' : Desk) : Prop :=
  (∀ width ∈ a.created, (newPlace width).width32 ≤ 2 ^ 30) ∧ s' = s.update a

/-- The place of window `i`, and nothing before it is created. -/
def Desk.placeOf (s : Desk) (i : Nat) : Int × Int := (s.windows[i]?).elim 0 fun w => (w.x, w.y)

def Desk.isDragging (s : Desk) (i : Nat) : Bool := (s.windows[i]?).any (·.dragging)

/-- How far the cursor takes window `i` in a frame: all the way if it is
dragged before and behind. -/
def pulled (i : Nat) (s : Desk) (a : DeskFrame) : Int × Int :=
  if s.isDragging i && (s.update a).isDragging i then
    (s.update a).cursor.position - s.cursor.position
  else 0

section

variable {c c' : Cursor} {w : Place} {boundsX boundsY : Word32}

/-! ## One window -/

/-- A place of the screen is in the title bar. -/
structure Place.Covers (w : Place) (p : Int × Int) : Prop where
  left : w.x ≤ p.1
  right : p.1 < w.x + w.width32
  top : w.y ≤ p.2
  bottom : p.2 < w.y + windowTitleBarHeight

theorem isInTitleBar_iff : c.isInTitleBar w = true ↔ w.Covers c.position := by
  simp only [Cursor.isInTitleBar, Cursor.isInRect, Cursor.position, decide_eq_true_eq]
  exact ⟨fun h => ⟨h.1, h.2.1, h.2.2.1, h.2.2.2⟩, fun h => ⟨h.left, h.right, h.top, h.bottom⟩⟩

/-- A window that is dragged is where it was grabbed, and the button is down;
one that can be grabbed has a place of the screen in its title bar. -/
structure Place.Held (boundsX boundsY : Word32) (c : Cursor) (w : Place) : Prop where
  narrow : w.width32 ≤ 2 ^ 30
  offset : w.dragging = true →
    w.x - c.x = w.dragStartX - w.dragOffsetX ∧ w.y - c.y = w.dragStartY - w.dragOffsetY
  covers : w.dragging = true → w.Covers c.position ∧ c.leftClick = true
  reach : 0 < w.width32 → ∃ p : Int × Int, w.Covers p ∧
    (0 ≤ p.1 ∧ p.1 ≤ Cursor.limit boundsX) ∧ 0 ≤ p.2 ∧ p.2 ≤ Cursor.limit boundsY

/-- A new window is at the corner of the screen. -/
theorem newPlace_held (hx : Fits boundsX) (hy : Fits boundsY) {width : BitVec 64}
    (hnarrow : (newPlace width).width32 ≤ 2 ^ 30) : (newPlace width).Held boundsX boundsY c where
  narrow := hnarrow
  offset := nofun
  covers := nofun
  reach hpos := by
    refine ⟨(0, 0), ⟨Int.le_refl 0, ?_, Int.le_refl 0, ?_⟩, ⟨Int.le_refl 0, limit_nonneg hx⟩,
      Int.le_refl 0, limit_nonneg hy⟩
    · simpa [newPlace] using hpos
    · simp [newPlace, windowTitleBarHeight]

/-- What `compositor_window_update` can do: nothing, let a window go, grab it,
or drag it. -/
theorem compositorWindowUpdate_cases (c : Cursor) (w : Place) :
    (w.dragging = false ∧ (c.leftClick && c.isInTitleBar w) = false ∧
      compositorWindowUpdate c w = w) ∨
    (w.dragging = true ∧ c.leftClick = false ∧
      compositorWindowUpdate c w = { w with dragging := false }) ∨
    (w.dragging = false ∧ c.leftClick = true ∧ c.isInTitleBar w = true ∧
      compositorWindowUpdate c w = { w with
        dragging := true
        dragStartX := w.x
        dragStartY := w.y
        dragOffsetX := c.x
        dragOffsetY := c.y }) ∨
    (w.dragging = true ∧ c.leftClick = true ∧
      compositorWindowUpdate c w = { w with
        x := w.dragStartX + (c.x - w.dragOffsetX)
        y := w.dragStartY + (c.y - w.dragOffsetY) }) := by
  cases hdragging : w.dragging <;> cases hclick : c.leftClick <;>
    cases hbar : c.isInTitleBar w <;>
    simp [compositorWindowUpdate, Place.grab, Place.drag, hdragging, hclick, hbar]

/-- A window is moved by the way of the cursor if it is dragged before and
behind, and not at all otherwise. -/
theorem Place.Held.update (hc : c'.On boundsX boundsY) (h : w.Held boundsX boundsY c) :
    (compositorWindowUpdate c' w).Held boundsX boundsY c' ∧
      ((compositorWindowUpdate c' w).dragging =
        (c'.leftClick && (w.dragging || c'.isInTitleBar w))) ∧
      ((compositorWindowUpdate c' w).x, (compositorWindowUpdate c' w).y) = (w.x, w.y) +
        if w.dragging && (compositorWindowUpdate c' w).dragging then c'.position - c.position
        else 0 := by
  have honX : 0 ≤ c'.x ∧ c'.x ≤ Cursor.limit boundsX := hc.boundsX ▸ hc.onScreen.x
  have honY : 0 ≤ c'.y ∧ c'.y ≤ Cursor.limit boundsY := hc.boundsY ▸ hc.onScreen.y
  rcases compositorWindowUpdate_cases c' w with ⟨hfree, hnot, heq⟩ | ⟨hheld, hup, heq⟩ |
    ⟨hfree, hdown, hbar, heq⟩ | ⟨hheld, hdown, heq⟩
  · rw [heq]
    refine ⟨⟨h.narrow, ?_, ?_, h.reach⟩, ?_, ?_⟩
    · simp [hfree]
    · simp [hfree]
    · simpa [hfree] using hnot.symm
    · simp [hfree]
  · rw [heq]
    refine ⟨⟨h.narrow, nofun, nofun, fun hpos => ?_⟩, by simp [hup], by simp⟩
    obtain ⟨p, hcovers, hon⟩ := h.reach hpos
    exact ⟨p, ⟨hcovers.left, hcovers.right, hcovers.top, hcovers.bottom⟩, hon⟩
  · rw [heq]
    have hcovers : w.Covers c'.position := isInTitleBar_iff.mp hbar
    refine ⟨⟨h.narrow, fun _ => ⟨rfl, rfl⟩, fun _ => ⟨?_, hdown⟩, fun _ => ⟨c'.position, ?_, honX,
      honY⟩⟩, by simp [hdown, hbar], by simp [hfree]⟩
    · exact ⟨hcovers.left, hcovers.right, hcovers.top, hcovers.bottom⟩
    · exact ⟨hcovers.left, hcovers.right, hcovers.top, hcovers.bottom⟩
  · rw [heq]
    obtain ⟨hoffX, hoffY⟩ := h.offset hheld
    obtain ⟨hcovers, -⟩ := h.covers hheld
    obtain ⟨hleft, hright, htop, hbottom⟩ := hcovers
    simp only [Cursor.position] at hleft hright htop hbottom
    have hcovers' : ({ w with
        x := w.dragStartX + (c'.x - w.dragOffsetX)
        y := w.dragStartY + (c'.y - w.dragOffsetY) } : Place).Covers c'.position := by
      constructor
      · show w.dragStartX + (c'.x - w.dragOffsetX) ≤ c'.x
        omega
      · show c'.x < w.dragStartX + (c'.x - w.dragOffsetX) + w.width32
        omega
      · show w.dragStartY + (c'.y - w.dragOffsetY) ≤ c'.y
        omega
      · show c'.y < w.dragStartY + (c'.y - w.dragOffsetY) + windowTitleBarHeight
        omega
    refine ⟨⟨h.narrow, fun _ => ⟨?_, ?_⟩, fun _ => ⟨hcovers', hdown⟩,
      fun _ => ⟨c'.position, hcovers', honX, honY⟩⟩, by simp [hdown, hheld], ?_⟩
    · show w.dragStartX + (c'.x - w.dragOffsetX) - c'.x = w.dragStartX - w.dragOffsetX
      omega
    · show w.dragStartY + (c'.y - w.dragOffsetY) - c'.y = w.dragStartY - w.dragOffsetY
      omega
    · simp only [hheld, Bool.and_self, if_true]
      refine Prod.ext ?_ ?_
      · show w.dragStartX + (c'.x - w.dragOffsetX) = w.x + (c'.x - c.x)
        omega
      · show w.dragStartY + (c'.y - w.dragOffsetY) = w.y + (c'.y - c.y)
        omega

/-! ## All windows -/

variable {s s' : Desk} {a : DeskFrame}

/-- The cursor is on the screen, and every window is held to it. -/
structure Desk.Inv (boundsX boundsY : Word32) (s : Desk) : Prop where
  cursor : s.cursor.On boundsX boundsY
  held : ∀ w ∈ s.windows, w.Held boundsX boundsY s.cursor

/-- The windows as they are updated: those of before, and a new one. -/
def Desk.withCreated (s : Desk) (a : DeskFrame) : List Place :=
  s.windows ++ a.created.toList.map newPlace

/-- A window that is created in a frame is like one that was not there. -/
theorem withCreated_placeOf (s : Desk) (a : DeskFrame) (i : Nat) :
    ((s.withCreated a)[i]?).elim 0 (fun w => (w.x, w.y)) = s.placeOf i ∧
      ((s.withCreated a)[i]?).any (·.dragging) = s.isDragging i := by
  unfold Desk.withCreated Desk.placeOf Desk.isDragging
  by_cases hi : i < s.windows.length
  · rw [List.getElem?_append_left hi]
    exact ⟨rfl, rfl⟩
  · rw [List.getElem?_append_right (Nat.le_of_not_lt hi),
      List.getElem?_eq_none (Nat.le_of_not_lt hi)]
    cases a.created with
    | none => simp
    | some width =>
      by_cases hnew : i - s.windows.length = 0 <;> simp [hnew, newPlace]

theorem Desk.Inv.step (hx : Fits boundsX) (hy : Fits boundsY) (h : s.Inv boundsX boundsY)
    (hstep : Desk.Step s a s') : s'.Inv boundsX boundsY ∧
      ∀ i, s'.placeOf i = s.placeOf i + pulled i s a := by
  obtain ⟨hnarrow, rfl⟩ := hstep
  have hcursor : (s.update a).cursor.On boundsX boundsY := h.cursor.update hx hy a.events
  have hheld : ∀ w ∈ s.withCreated a, w.Held boundsX boundsY s.cursor := by
    intro w hw
    rcases List.mem_append.mp hw with hold | hnew
    · exact h.held w hold
    · obtain ⟨width, hwidth, rfl⟩ := List.mem_map.mp hnew
      exact newPlace_held hx hy (hnarrow width (Option.mem_toList.mp hwidth))
  refine ⟨⟨hcursor, fun w hw => ?_⟩, fun i => ?_⟩
  · obtain ⟨w₀, hw₀, rfl⟩ := List.mem_map.mp hw
    exact ((hheld w₀ hw₀).update hcursor).1
  · obtain ⟨hplace, hdragging⟩ := withCreated_placeOf s a i
    have hget : (s.update a).windows[i]? =
        ((s.withCreated a)[i]?).map (compositorWindowUpdate (s.update a).cursor) :=
      List.getElem?_map
    rw [pulled, ← hplace, ← hdragging, Desk.isDragging, Desk.placeOf, hget]
    cases hw : (s.withCreated a)[i]? with
    | none => simp
    | some w =>
      obtain ⟨-, -, hmoved⟩ := (hheld w (List.mem_of_getElem? hw)).update hcursor
      simpa using hmoved

/-- The sum of a coordinate and a width of a window that is held is an
`int32_t`, and so is each of them. -/
theorem Place.Held.inInt32 (h : w.Held boundsX boundsY c) (hx : Fits boundsX)
    (hpos : 0 < w.width32) : InInt32 w.x ∧ InInt32 (w.x + w.width32) := by
  obtain ⟨p, hcovers, ⟨hlow, hhigh⟩, -⟩ := h.reach hpos
  have hnarrow := h.narrow
  have hleft := hcovers.left
  have hright := hcovers.right
  have hbounds := hx.2
  simp only [Cursor.limit] at hhigh
  constructor
  · constructor <;> omega
  · constructor <;> omega

end

/-- No window is there, and the cursor is new. -/
def Desk.Start (boundsX boundsY : Word32) (s : Desk) : Prop :=
  s = ⟨cursorInit boundsX boundsY, []⟩

end ZOs.Compositor
