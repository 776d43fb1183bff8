import ZOs.Compositor.Paint
import ZOs.Input.Reader
import ZOs.Usb.HidChanges

/-!
# The cursor

`cursor.c`, with the functions of `math.h` that it calls. An `int32_t` is an
integer here: the position is kept on the screen, so that no sum of the code
leaves the range. The mouse says how far it has moved, and the cursor stops at
the edges; where it ends up is what the reports say, one after the other, each
followed by the stop.
-/

namespace ZOs.Compositor

open Runs Input
open Usb.Hid (Event Delivery Driver Kind MouseReport Session mouseReport mouseEvents)

/-! ## The functions -/

/-- `math_max_int32`. -/
def mathMaxInt32 (a b : Int) : Int := if a > b then a else b

/-- `math_min_int32`. -/
def mathMinInt32 (a b : Int) : Int := if a < b then a else b

/-- `math_clamp_int32`. -/
def mathClampInt32 (value min max : Int) : Int := mathMaxInt32 (mathMinInt32 value max) min

/-- `CURSOR_WIDTH` and `CURSOR_HEIGHT`. -/
def cursorSize : Word32 := 10

/-- `INPUT_DEVICE_MOUSE_BUTTON_LEFT`. -/
def mouseButtonLeft : BitVec 8 := 0x01

/-- `INPUT_DEVICE_MOUSE_BUTTON_RIGHT`. -/
def mouseButtonRight : BitVec 8 := 0x02

/-- `cursor_t`. -/
structure Cursor where
  x : Int
  y : Int
  boundsX : Word32
  boundsY : Word32
  leftClick : Bool
  rightClick : Bool
  deriving DecidableEq

/-- `cursor_init`. -/
def cursorInit (boundsX boundsY : Word32) : Cursor := ⟨0, 0, boundsX, boundsY, false, false⟩

namespace Cursor

/-- `cursor_set_position`; the bounds are unsigned, and the differences become
an `int32_t`. -/
def setPosition (c : Cursor) (x y : Int) : Cursor :=
  { c with
    x := mathClampInt32 x 0 (c.boundsX - cursorSize).toInt
    y := mathClampInt32 y 0 (c.boundsY - cursorSize).toInt }

/-- `cursor_move`. -/
def move (c : Cursor) (dx dy : BitVec 8) : Cursor :=
  if dx = 0 ∧ dy = 0 then c else c.setPosition (c.x + dx.toInt) (c.y + dy.toInt)

/-- `cursor_is_in_rect`. -/
def isInRect (c : Cursor) (x y width height : Int) : Bool :=
  c.x ≥ x ∧ c.x < x + width ∧ c.y ≥ y ∧ c.y < y + height

/-- A round of `cursor_update`. -/
def event (c : Cursor) : Event → Cursor
  | .mouseMove deltaX deltaY => c.move deltaX deltaY
  | .mouseUp button =>
    if button = mouseButtonLeft then { c with leftClick := false }
    else if button = mouseButtonRight then { c with rightClick := false }
    else c
  | .mouseDown button =>
    if button = mouseButtonLeft then { c with leftClick := true }
    else if button = mouseButtonRight then { c with rightClick := true }
    else c
  | _ => c

/-- `cursor_update`, with the events that `input_read` returns. -/
def update (c : Cursor) (events : List Event) : Cursor := events.foldl event c

end Cursor

section

variable {c : Cursor} {x y : Int} {boundsX boundsY : Word32} {events : List Event} {e : Event}

/-! ## On the screen -/

theorem mathClampInt32_eq (value min max : Int) :
    mathClampInt32 value min max = Max.max (Min.min value max) min := by
  simp only [mathClampInt32, mathMaxInt32, mathMinInt32]
  omega

/-- The last place for the cursor. -/
def Cursor.limit (bounds : Word32) : Int := bounds.toNat - 10

/-- The cursor is on the screen. -/
structure Cursor.OnScreen (c : Cursor) : Prop where
  x : 0 ≤ c.x ∧ c.x ≤ Cursor.limit c.boundsX
  y : 0 ≤ c.y ∧ c.y ≤ Cursor.limit c.boundsY

/-- A screen that has room for the cursor. -/
def Fits (bounds : Word32) : Prop := 10 ≤ bounds.toNat ∧ bounds.toNat ≤ 2 ^ 30

theorem Fits.limit {bounds : Word32} (h : Fits bounds) :
    (bounds - cursorSize).toInt = Cursor.limit bounds := by
  obtain ⟨hlow, hhigh⟩ := h
  have hsub : (bounds - cursorSize).toNat = bounds.toNat - 10 := by
    rw [BitVec.toNat_sub_of_le (by simpa [cursorSize, BitVec.le_def] using hlow)]
    rfl
  rw [BitVec.toInt_eq_toNat_of_lt (by omega), hsub, Cursor.limit]
  omega

/-- The position that is nearest on the screen. -/
def clamp (bounds : Word32) (value : Int) : Int := Max.max (Min.min value (Cursor.limit bounds)) 0

theorem clamp_onScreen {bounds : Word32} (h : Fits bounds) (value : Int) :
    0 ≤ clamp bounds value ∧ clamp bounds value ≤ Cursor.limit bounds := by
  have hlow := h.1
  simp only [clamp, Cursor.limit]
  omega

theorem clamp_of_onScreen {bounds : Word32} {value : Int}
    (h : 0 ≤ value ∧ value ≤ Cursor.limit bounds) : clamp bounds value = value := by
  simp only [clamp]
  omega

theorem setPosition_eq (hx : Fits c.boundsX) (hy : Fits c.boundsY) :
    c.setPosition x y = { c with x := clamp c.boundsX x, y := clamp c.boundsY y } := by
  simp [Cursor.setPosition, mathClampInt32_eq, hx.limit, hy.limit, clamp]

theorem Cursor.OnScreen.setPosition (hx : Fits c.boundsX) (hy : Fits c.boundsY) :
    (c.setPosition x y).OnScreen := by
  rw [setPosition_eq hx hy]
  exact ⟨clamp_onScreen hx x, clamp_onScreen hy y⟩

/-- An `int32_t`. -/
def InInt32 (value : Int) : Prop := -2 ^ 31 ≤ value ∧ value < 2 ^ 31

/-- The sums of `cursor_move` are in range. -/
theorem Cursor.OnScreen.inInt32 (h : c.OnScreen) (hx : Fits c.boundsX) (hy : Fits c.boundsY)
    (d : BitVec 8) : InInt32 (c.x + d.toInt) ∧ InInt32 (c.y + d.toInt) := by
  have hlow := BitVec.le_toInt d
  have hhigh := BitVec.toInt_lt (x := d)
  have hxs := h.x
  have hys := h.y
  obtain ⟨-, hbx⟩ := hx
  obtain ⟨-, hby⟩ := hy
  simp only [Cursor.limit] at hxs hys
  constructor
  · constructor <;> omega
  · constructor <;> omega

/-! ## What a report does -/

/-- A cursor with the buttons of a report. -/
structure Cursor.Shows (c : Cursor) (r : MouseReport) : Prop where
  left : c.leftClick = r.buttons.getLsbD 0
  right : c.rightClick = r.buttons.getLsbD 1

theorem button_iff : ∀ i < 8, (1#8 <<< i = mouseButtonLeft ↔ i = 0) ∧
    (1#8 <<< i = mouseButtonRight ↔ i = 1) := by decide

/-- What the event of one button does. -/
theorem event_bit (set : Bool) {i : Nat} (hi : i < 8) :
    c.event (if set = true then .mouseDown (1#8 <<< i) else .mouseUp (1#8 <<< i)) = { c with
      leftClick := if 0 = i then set else c.leftClick
      rightClick := if 1 = i then set else c.rightClick } := by
  obtain ⟨hleft, hright⟩ := button_iff i hi
  by_cases hzero : 0 = i
  · subst hzero
    cases set <;> simp [Cursor.event, mouseButtonLeft]
  by_cases hone : 1 = i
  · subst hone
    cases set <;> simp [Cursor.event, mouseButtonLeft, mouseButtonRight]
  · cases set <;> simp [Cursor.event, hleft, hright, hzero, hone, Ne.symm hzero, Ne.symm hone]

theorem update_buttons {latest : MouseReport} {is : List Nat} (his : ∀ i ∈ is, i < 8) :
    c.update (is.map (Usb.Hid.buttonEvent latest)) = { c with
      leftClick := if 0 ∈ is then latest.buttons.getLsbD 0 else c.leftClick
      rightClick := if 1 ∈ is then latest.buttons.getLsbD 1 else c.rightClick } := by
  induction is generalizing c with
  | nil => simp [Cursor.update]
  | cons i is ih =>
    obtain ⟨hi, his⟩ := List.forall_mem_cons.mp his
    have hfirst : c.update ((i :: is).map (Usb.Hid.buttonEvent latest)) =
        (c.event (Usb.Hid.buttonEvent latest i)).update
          (is.map (Usb.Hid.buttonEvent latest)) := rfl
    rw [hfirst, Usb.Hid.buttonEvent_eq hi, event_bit _ hi, ih his]
    by_cases hleft : 0 ∈ is <;> by_cases hright : 1 ∈ is <;> by_cases hzero : 0 = i <;>
      by_cases hone : 1 = i <;> simp [hleft, hright, hzero, hone]

/-- The position that a displacement leads to. -/
def stepped (boundsX boundsY : Word32) (p d : Int × Int) : Int × Int :=
  (clamp boundsX (p.1 + d.1), clamp boundsY (p.2 + d.2))

def Cursor.position (c : Cursor) : Int × Int := (c.x, c.y)

/-- A cursor on a screen of this size. -/
structure Cursor.On (boundsX boundsY : Word32) (c : Cursor) : Prop where
  boundsX : c.boundsX = boundsX
  boundsY : c.boundsY = boundsY
  onScreen : c.OnScreen

theorem Cursor.On.move (hx : Fits boundsX) (hy : Fits boundsY) (h : c.On boundsX boundsY)
    (dx dy : BitVec 8) : (c.move dx dy).On boundsX boundsY ∧
      (c.move dx dy).position = stepped boundsX boundsY c.position (dx.toInt, dy.toInt) ∧
      (c.move dx dy).leftClick = c.leftClick ∧ (c.move dx dy).rightClick = c.rightClick := by
  obtain ⟨rfl, rfl, hon⟩ := h
  by_cases hzero : dx = 0 ∧ dy = 0
  · obtain ⟨rfl, rfl⟩ := hzero
    refine ⟨⟨rfl, rfl, hon⟩, ?_, rfl, rfl⟩
    simp [Cursor.move, stepped, Cursor.position, clamp_of_onScreen hon.x, clamp_of_onScreen hon.y]
  · have hmove : c.move dx dy = c.setPosition (c.x + dx.toInt) (c.y + dy.toInt) := if_neg hzero
    have hon' := Cursor.OnScreen.setPosition (x := c.x + dx.toInt) (y := c.y + dy.toInt) hx hy
    rw [hmove]
    exact ⟨⟨rfl, rfl, hon'⟩, by simp [setPosition_eq hx hy, stepped, Cursor.position], rfl, rfl⟩

/-- The displacement of a report, if it says something else than the one
before. -/
def moved (previous latest : MouseReport) : List (Int × Int) :=
  if latest.displacement = previous.displacement then [] else [latest.displacement]

theorem Cursor.update_append (c : Cursor) (events events' : List Event) :
    c.update (events ++ events') = (c.update events).update events' :=
  List.foldl_append

/-- The buttons that have changed become those of the report. -/
theorem Cursor.Shows.changed {previous latest : MouseReport} (h : c.Shows previous) :
    (c.update ((Usb.Hid.bitIndices 8 (previous.buttons ^^^ latest.buttons)).map
      (Usb.Hid.buttonEvent latest))).Shows latest := by
  have hbit (shown : Bool) (i : Nat) (hi : i < 8) (hs : shown = previous.buttons.getLsbD i) :
      (if i ∈ Usb.Hid.bitIndices 8 (previous.buttons ^^^ latest.buttons) then
        latest.buttons.getLsbD i else shown) = latest.buttons.getLsbD i := by
    simp only [Usb.Hid.mem_bitIndices, BitVec.getLsbD_xor, hs]
    generalize previous.buttons.getLsbD i = p
    generalize latest.buttons.getLsbD i = l
    cases p <;> cases l <;> simp [hi]
  rw [update_buttons fun i hi => (Usb.Hid.mem_bitIndices.mp hi).1]
  exact ⟨hbit _ 0 (by decide) h.left, hbit _ 1 (by decide) h.right⟩

/-- A cursor with the buttons of a report is moved by the next one, and has
its buttons. -/
theorem Cursor.On.report {previous : MouseReport} (latest : MouseReport) (hx : Fits boundsX)
    (hy : Fits boundsY) (h : c.On boundsX boundsY) (hshows : c.Shows previous) :
    (c.update (mouseEvents previous latest)).On boundsX boundsY ∧
      (c.update (mouseEvents previous latest)).Shows latest ∧
      (c.update (mouseEvents previous latest)).position =
        (moved previous latest).foldl (stepped boundsX boundsY) c.position := by
  have hbuttons (c : Cursor) (hc : c.On boundsX boundsY) (hcs : c.Shows previous) :
      let c' := c.update ((Usb.Hid.bitIndices 8 (previous.buttons ^^^ latest.buttons)).map
        (Usb.Hid.buttonEvent latest))
      c'.On boundsX boundsY ∧ c'.Shows latest ∧ c'.position = c.position := by
    refine ⟨?_, hcs.changed, ?_⟩
    · rw [update_buttons fun i hi => (Usb.Hid.mem_bitIndices.mp hi).1]
      exact ⟨hc.boundsX, hc.boundsY, hc.onScreen.x, hc.onScreen.y⟩
    · rw [update_buttons fun i hi => (Usb.Hid.mem_bitIndices.mp hi).1]
      rfl
  unfold mouseEvents moved
  rw [Cursor.update_append]
  by_cases hsame : latest.displacement = previous.displacement
  · obtain ⟨hsx, hsy⟩ := Usb.Hid.displacement_inj.mp hsame
    rw [if_pos hsame, if_neg (by simp [hsx, hsy])]
    exact hbuttons c h hshows
  · have hmoved : previous.x ≠ latest.x ∨ previous.y ≠ latest.y := by
      by_contra hnot
      rw [not_or, not_not, not_not] at hnot
      exact hsame (Usb.Hid.displacement_inj.mpr ⟨hnot.1.symm, hnot.2.symm⟩)
    obtain ⟨hon, hposition, hleft, hright⟩ := h.move hx hy latest.x latest.y
    rw [if_neg hsame, if_pos hmoved]
    obtain ⟨hon', hshows', hposition'⟩ := hbuttons (c.move latest.x latest.y) hon
      ⟨hleft.trans hshows.left, hright.trans hshows.right⟩
    exact ⟨hon', hshows', hposition'.trans hposition⟩

/-! ## Runs -/

/-- The displacements that make events, of one report after the other. -/
def path : MouseReport → List MouseReport → List (Int × Int)
  | _, [] => []
  | previous, latest :: reports => moved previous latest ++ path latest reports

/-- A cursor on the way of the reports. -/
theorem Cursor.On.log {previous : List (BitVec 8)} (reports : List (List (BitVec 8)))
    (hx : Fits boundsX) (hy : Fits boundsY) (h : c.On boundsX boundsY)
    (hshows : c.Shows (mouseReport previous)) :
    (c.update (Kind.mouse.log previous reports)).Shows
        (mouseReport (reports.getLastD previous)) ∧
      (c.update (Kind.mouse.log previous reports)).position =
        (path (mouseReport previous) (reports.map mouseReport)).foldl
          (stepped boundsX boundsY) c.position := by
  induction reports generalizing c previous with
  | nil => exact ⟨hshows, rfl⟩
  | cons data reports ih =>
    obtain ⟨hon, hshown, hposition⟩ := h.report (mouseReport data) hx hy hshows
    obtain ⟨hlast, hrest⟩ := ih hon hshown
    have hlog : c.update (Kind.mouse.log previous (data :: reports)) =
        (c.update (mouseEvents (mouseReport previous) (mouseReport data))).update
          (Kind.mouse.log data reports) := Cursor.update_append ..
    rw [hlog, List.getLastD_cons]
    refine ⟨hlast, ?_⟩
    rw [hrest, hposition, List.map_cons, path, List.foldl_append]

theorem limit_nonneg {bounds : Word32} (h : Fits bounds) : 0 ≤ Cursor.limit bounds := by
  have hlow := h.1
  simp only [Cursor.limit]
  omega

theorem cursorInit_on (hx : Fits boundsX) (hy : Fits boundsY) :
    (cursorInit boundsX boundsY).On boundsX boundsY :=
  ⟨rfl, rfl, ⟨Int.le_refl 0, limit_nonneg hx⟩, Int.le_refl 0, limit_nonneg hy⟩

/-- No event takes the cursor off the screen. -/
theorem Cursor.On.event (hx : Fits boundsX) (hy : Fits boundsY) (h : c.On boundsX boundsY)
    (e : Event) : (c.event e).On boundsX boundsY := by
  cases e with
  | mouseMove deltaX deltaY => exact (h.move hx hy deltaX deltaY).1
  | mouseDown button =>
    unfold Cursor.event
    dsimp only
    split
    · exact ⟨h.boundsX, h.boundsY, h.onScreen.x, h.onScreen.y⟩
    split
    · exact ⟨h.boundsX, h.boundsY, h.onScreen.x, h.onScreen.y⟩
    · exact h
  | mouseUp button =>
    unfold Cursor.event
    dsimp only
    split
    · exact ⟨h.boundsX, h.boundsY, h.onScreen.x, h.onScreen.y⟩
    split
    · exact ⟨h.boundsX, h.boundsY, h.onScreen.x, h.onScreen.y⟩
    · exact h
  | _ => exact h

theorem Cursor.On.update (hx : Fits boundsX) (hy : Fits boundsY) (h : c.On boundsX boundsY)
    (events : List Event) : (c.update events).On boundsX boundsY := by
  induction events generalizing c with
  | nil => exact h
  | cons e events ih => exact ih (h.event hx hy e)

/-- As long as the sums stay on the screen, the cursor goes where they lead. -/
theorem foldl_stepped {p : Int × Int} {ds : List (Int × Int)}
    (h : ∀ before, before <+: ds →
      (0 ≤ (p + before.sum).1 ∧ (p + before.sum).1 ≤ Cursor.limit boundsX) ∧
        0 ≤ (p + before.sum).2 ∧ (p + before.sum).2 ≤ Cursor.limit boundsY) :
    ds.foldl (stepped boundsX boundsY) p = p + ds.sum := by
  induction ds generalizing p with
  | nil => simp
  | cons d ds ih =>
    obtain ⟨hdx, hdy⟩ := h [d] (List.prefix_append [d] ds)
    simp only [List.sum_singleton] at hdx hdy
    have hstep : stepped boundsX boundsY p d = p + d := by
      rw [stepped]
      exact Prod.ext (clamp_of_onScreen hdx) (clamp_of_onScreen hdy)
    rw [List.foldl_cons, hstep, ih, List.sum_cons, add_assoc]
    intro before hbefore
    have hall := h (d :: before) (List.cons_prefix_cons.mpr ⟨rfl, hbefore⟩)
    rwa [List.sum_cons, ← add_assoc] at hall

end

/-- The mouse, and the cursor behind its file. -/
def mouseToCursor (device : DeviceId) (file : FileId) : Wiring Cursor Unit where
  kind := .mouse
  device := device
  file := file
  handle _ c e := c.event e

end ZOs.Compositor
