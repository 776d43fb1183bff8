import ZOs.Compositor.Contents
import ZOs.Compositor.ShownText

/-!
# Frames

The loop of `compositor_run`. A frame takes a message, the events of the mouse
and those of the keyboard, and then draws everything anew: what is on the
screen afterwards depends on the text, the windows and the cursor of that
moment alone, each over the ones before it. No frame comes to grief over what
it draws. At a point of a window that nothing later covers the screen has what
the client had drawn there when it last committed the point.
-/

namespace ZOs.Compositor

open Bytes Checked Layers Runs
open ZOs.ProcessMemory (Process)
open Usb.Hid (Event)

/-! ## The loop -/

/-- A message that `compositor_abi_poll` takes. -/
structure Polled where
  request : Request
  processHandle : Int
  descriptor : Option Int
  memory : Memory

/-- What a frame meets: at most one message, the events that are read, the
time, and what the stack holds. -/
structure FrameInput where
  polled : Option Polled
  mouse : List Event
  keyboard : List (Event × Option (Nat → Byte))
  timeMs : Nat
  stale : Word32 × Word32

/-- `compositor_t`, with the windows and their places, the cursor, the bitmaps
of `gfx_t`, and the time that was read last. -/
structure Screen where
  clients : CompositorState
  desk : Desk
  text : TextInput
  timeMs : Nat
  backFramebuffer : Bitmap
  framebuffer : Bitmap

namespace Screen

/-- `compositor_abi_poll`. -/
def poll (s : Screen) : Option Polled → Except Fault CompositorState
  | none => .ok s.clients
  | some p => Survival.exec s.clients (.request p.request p.processHandle p.descriptor p.memory)

/-- `compositor_update`. -/
def update (s : Screen) (a : FrameInput) : Except Fault Screen := do
  let clients ← s.poll a.polled
  let created := clients.windowTable[s.clients.windowTable.length]?.map (·.width)
  return { s with
    clients
    desk := s.desk.update ⟨created, a.mouse⟩
    text := textInputUpdate s.text a.keyboard
    timeMs := a.timeMs }

/-- The windows, in the order of their list, with their places. -/
def windows (s : Screen) : List (Window × Place) := s.clients.windowTable.zip s.desk.windows

end Screen

/-- The loop that renders the windows. -/
def renderWindows (font : DrawFont) : List (Window × Place) → Bitmap → Except Fault Bitmap
  | [], backFramebuffer => pure backFramebuffer
  | (window, place) :: windows, backFramebuffer => do
    let bitmap ← compositorWindowRender font window (BitVec.ofInt 32 place.x)
      (BitVec.ofInt 32 place.y) backFramebuffer
    renderWindows font windows bitmap

/-- What is drawn between `paint_transparent` and `gfx_swap_buffers`. -/
def Screen.draw (font : DrawFont) (s : Screen) (stale : Word32 × Word32)
    (backFramebuffer : Bitmap) : Except Fault Bitmap := do
  let bitmap ← textInputDraw font s.text.string s.text.cursorIndex s.timeMs stale backFramebuffer
  let bitmap ← renderWindows font s.windows bitmap
  cursorDraw s.desk.cursor bitmap

/-- A round of `compositor_run`. -/
def Screen.frame (font : DrawFont) (s : Screen) (a : FrameInput) : Except Fault Screen := do
  let s ← s.update a
  let backFramebuffer ← paintClear s.backFramebuffer black
  let backFramebuffer ← s.draw font a.stale backFramebuffer
  let framebuffer ← paintSwapBuffers s.framebuffer backFramebuffer
  return { s with backFramebuffer, framebuffer }

/-! ## Runs -/

/-- Frames, and what clients and the process do in between. -/
inductive ScreenAction
  | frame (input : FrameInput)
  | draw (windowHandle : Int) (pixels : Nat → Word32)
  | process (process : Process)

def Screen.exec (font : DrawFont) (s : Screen) : ScreenAction → Except Fault Screen
  | .frame input => s.frame font input
  | .draw windowHandle pixels =>
    .ok { s with clients := Survival.drawBuffer s.clients windowHandle pixels }
  | .process process => .ok { s with clients := { s.clients with process } }

/-- A new window has sides that leave room for sums, and a name that the font
can draw. -/
def Request.Modest : Request → Prop
  | .windowCreate name width height => name.length = nameSize ∧ 128 ∉ name ∧
    (width.setWidth 32).toNat < 2 ^ 30 ∧ (height.setWidth 32).toNat < 2 ^ 30
  | _ => True

/-- The text stays below 2³¹, and there is memory for it. -/
structure FrameInput.Allowed (s : Screen) (a : FrameInput) : Prop where
  modest : ∀ p ∈ a.polled, p.request.Modest
  supplied : ∀ e ∈ a.keyboard, e.2.isSome
  length : s.text.length.toNat + a.keyboard.length < 2 ^ 31

def ScreenAction.Allowed (s : Screen) : ScreenAction → Prop
  | .frame input => input.Allowed s
  | _ => True

def Screen.Step (font : DrawFont) (s : Screen) (a : ScreenAction) (s' : Screen) : Prop :=
  a.Allowed s ∧ s.exec font a = .ok s'

/-- After `compositor_init`, on a screen of this size. -/
structure Screen.Start (boundsX boundsY : Word32) (s : Screen) : Prop where
  clients : Survival.Start s.clients
  desk : Desk.Start boundsX boundsY s.desk
  text : Allocated s.text
  back : ∃ contents, s.backFramebuffer = newBitmap boundsX boundsY contents
  front : ∃ contents, s.framebuffer = newBitmap boundsX boundsY contents

/-! ## The scene -/

/-- A window at its place. -/
def windowLayers (font : DrawFont) (w : Window × Place) : List Picture :=
  windowPictures font w.1 (BitVec.ofInt 32 w.2.x) (BitVec.ofInt 32 w.2.y)

/-- The text input, the windows and the cursor, each over the ones before it. -/
def Screen.scene (font : DrawFont) (s : Screen) : List Picture :=
  textInputPictures font s.text.string s.text.cursorIndex.toNat s.timeMs ++
    (s.windows.flatMap (windowLayers font) ++ [s.desk.cursor.picture])

/-- Every pixel of the framebuffer is that of the scene, on black. -/
def Screen.Shows (font : DrawFont) (s : Screen) : Prop :=
  ∀ x y, s.framebuffer.Pixel x y →
    s.framebuffer.at x y = paint (s.scene font) (x.toNat, y.toNat) black

section

variable {font : DrawFont} {s s' : Screen} {a : FrameInput} {boundsX boundsY : Word32}
  {window : Window} {c c' : Cursor} {w : Place} {clients : CompositorState}

/-! ## Windows that can be drawn -/

/-- What is known of a window from the request that it was created with. -/
structure Window.Modest (window : Window) : Prop where
  legible : window.title.Legible
  width : window.sides.1 < 2 ^ 30
  height : window.sides.2 < 2 ^ 30

theorem Window.Modest.drawable (h : window.Modest) (hgood : Survival.Window.Good window) :
    window.Drawable where
  legible := h.legible
  width := h.width
  height := h.height
  whole := hgood.whole
  small := by
    have hwidth : (window.width.setWidth 32).toNat < 2 ^ 30 := h.width
    have hheight : (window.height.setWidth 32).toNat < 2 ^ 30 := h.height
    exact ⟨by rw [hgood.width]; omega, by rw [hgood.height]; omega⟩

/-- The title has no character that the name does not have. -/
theorem title_legible (hlength : window.name.length ≤ nameSize) (hname : 128 ∉ window.name) :
    window.title.Legible := by
  constructor
  · have hle := (List.takeWhile_sublist (l := window.name.map UInt8.toBitVec)
      (fun c => decide (c ≠ 0))).length_le
    rw [List.length_map] at hle
    exact Nat.lt_of_le_of_lt hle (Nat.lt_of_le_of_lt hlength (by decide))
  · intro hmem
    obtain ⟨c, hc, heq⟩ := List.mem_map.mp ((List.takeWhile_sublist _).subset hmem)
    obtain rfl : c = 128 := UInt8.eq_of_toBitVec_eq heq
    exact hname hc

/-- A step leaves the windows modest, and there are as many as before or one
more. -/
theorem change_modest {action : Survival.Action} {table : List Window}
    (hchange : Survival.TableChange clients action table)
    (hrequest : ∀ request processHandle descriptor memory,
      action = .request request processHandle descriptor memory → request.Modest)
    (h : ∀ window ∈ clients.windowTable, window.Modest) :
    (∀ window ∈ table, window.Modest) ∧
      (table.length = clients.windowTable.length ∨
        table.length = clients.windowTable.length + 1) := by
  have hset {i : Nat} {old new : Window} (hold : clients.windowTable[i]? = some old)
      (hsame : new.name = old.name ∧ new.width = old.width ∧ new.height = old.height) :
      (∀ window ∈ clients.windowTable.set i new, window.Modest) ∧
        ((clients.windowTable.set i new).length = clients.windowTable.length ∨
          (clients.windowTable.set i new).length = clients.windowTable.length + 1) := by
    refine ⟨fun window hwindow => ?_, .inl List.length_set⟩
    rcases List.mem_or_eq_of_mem_set hwindow with hmem | rfl
    · exact h window hmem
    · obtain ⟨hlegible, hwidth, hheight⟩ := h old (List.mem_of_getElem? hold)
      obtain ⟨hname, hw, hh⟩ := hsame
      refine ⟨?_, ?_, ?_⟩
      · simpa only [Window.title, hname] using hlegible
      · rwa [Window.sides, hw]
      · rwa [Window.sides, hh]
  cases hchange with
  | kept _ => exact ⟨h, .inl rfl⟩
  | @created name width height processHandle memory length framebuffer hname hfill =>
    obtain ⟨hlength, hbehind, hwidth, hheight⟩ := hrequest _ _ _ _ rfl
    refine ⟨fun window hwindow => ?_, .inr (by simp)⟩
    rcases List.mem_append.mp hwindow with hold | hnew
    · exact h window hold
    · obtain rfl := List.mem_singleton.mp hnew
      refine ⟨title_legible ?_ ?_, hwidth, hheight⟩
      · exact (List.length_take_le' _ _).trans (Nat.le_of_eq hlength)
      · exact fun hmem => hbehind (List.mem_of_mem_take hmem)
  | attached hget => exact hset (Survival.get_place hget) ⟨rfl, rfl, rfl⟩
  | committed hget hcopied => exact hset (Survival.get_place hget) ⟨rfl, rfl, rfl⟩
  | drawn hget => exact hset (Survival.get_place hget) ⟨rfl, rfl, rfl⟩

/-! ## Places that can be drawn at -/

/-- A window without a width is never moved. -/
def Place.Still (w : Place) : Prop := w.width32 ≤ 0 → w.x = 0 ∧ w.y = 0 ∧ w.dragging = false

theorem newPlace_still (width : BitVec 64) : (newPlace width).Still := fun _ => ⟨rfl, rfl, rfl⟩

theorem Place.Still.update (h : w.Still) : (compositorWindowUpdate c w).Still := by
  rcases compositorWindowUpdate_cases c w with ⟨-, -, heq⟩ | ⟨hheld, -, heq⟩ | ⟨-, -, hbar, heq⟩ |
    ⟨hheld, -, heq⟩
  · rwa [heq]
  · rw [heq]
    intro hwidth
    obtain ⟨hx, hy, -⟩ := h hwidth
    exact ⟨hx, hy, rfl⟩
  · rw [heq]
    intro hwidth
    have hwidth' : w.width32 ≤ 0 := hwidth
    obtain ⟨hleft, hright, -, -⟩ := isInTitleBar_iff.mp hbar
    omega
  · rw [heq]
    intro hwidth
    cases hheld.symm.trans (h hwidth).2.2

theorem toInt_ofInt_of_inInt32 {z : Int} (hz : InInt32 z) : (BitVec.ofInt 32 z).toInt = z := by
  obtain ⟨hlow, hhigh⟩ := hz
  rw [BitVec.toInt_ofInt]
  exact Int.bmod_eq_of_le_mul_two (by omega) (by omega)

/-- On a screen of less than 2^30 pixels, with room for the cursor. -/
structure Display (boundsX boundsY : Word32) : Prop where
  x : Fits boundsX
  y : Fits boundsY
  area : boundsX.toNat * boundsY.toNat < 2 ^ 30

theorem Display.sides (h : Display boundsX boundsY) :
    boundsX.toNat < 2 ^ 27 ∧ boundsY.toNat < 2 ^ 27 := by
  have hx := Nat.mul_le_mul_left boundsX.toNat h.y.1
  have hy := Nat.mul_le_mul_right boundsY.toNat h.x.1
  have harea := h.area
  omega

/-- Where a window is drawn: no sum with its coordinates leaves the range. -/
theorem Place.Held.near (hdisplay : Display boundsX boundsY) (h : w.Held boundsX boundsY c)
    (hstill : w.Still) : (BitVec.ofInt 32 w.x).toInt = w.x ∧ (BitVec.ofInt 32 w.y).toInt = w.y ∧
      Near (BitVec.ofInt 32 w.x) ∧ Near (BitVec.ofInt 32 w.y) ∧ w.y + 28 ≤ 2 ^ 30 := by
  have hbounds : (-2 ^ 30 ≤ w.x ∧ w.x ≤ 2 ^ 30) ∧ -2 ^ 30 ≤ w.y ∧ w.y + 28 ≤ 2 ^ 30 := by
    by_cases hpos : 0 < w.width32
    · obtain ⟨p, hcovers, ⟨hlowX, hhighX⟩, hlowY, hhighY⟩ := h.reach hpos
      have hnarrow := h.narrow
      obtain ⟨hleft, hright, htop, hbottom⟩ := hcovers
      obtain ⟨hsideX, hsideY⟩ := hdisplay.sides
      simp only [Cursor.limit, windowTitleBarHeight] at hhighX hhighY hbottom
      omega
    · obtain ⟨hx, hy, -⟩ := hstill (Int.not_lt.mp hpos)
      omega
  have hx := toInt_ofInt_of_inInt32 (z := w.x) ⟨by omega, by omega⟩
  have hy := toInt_ofInt_of_inInt32 (z := w.y) ⟨by omega, by omega⟩
  rw [Near, Near, hx, hy]
  omega

/-! ## The invariant -/

/-- A bitmap of the size of the screen. -/
structure Bitmap.OfDisplay (boundsX boundsY : Word32) (b : Bitmap) : Prop where
  whole : b.Whole
  width : b.width = boundsX
  height : b.height = boundsY

theorem Bitmap.OfDisplay.small {b : Bitmap} (hdisplay : Display boundsX boundsY)
    (h : b.OfDisplay boundsX boundsY) : b.Small := by
  obtain ⟨hx, hy⟩ := hdisplay.sides
  exact ⟨by rw [h.width]; omega, by rw [h.height]; omega⟩

theorem Bitmap.OfDisplay.same {b b' : Bitmap} (h : b.OfDisplay boundsX boundsY)
    (hsame : Same b b') : b'.OfDisplay boundsX boundsY :=
  ⟨hsame.whole h.whole, hsame.width.trans h.width, hsame.height.trans h.height⟩

structure Screen.Inv (boundsX boundsY : Word32) (s : Screen) : Prop where
  clients : Survival.Inv s.clients
  modest : ∀ window ∈ s.clients.windowTable, window.Modest
  desk : s.desk.Inv boundsX boundsY
  still : ∀ w ∈ s.desk.windows, w.Still
  paired : s.desk.windows.length = s.clients.windowTable.length
  text : s.text.Ready
  length : s.text.length.toNat < 2 ^ 31
  back : s.backFramebuffer.OfDisplay boundsX boundsY
  front : s.framebuffer.OfDisplay boundsX boundsY

theorem Screen.Start.inv (hdisplay : Display boundsX boundsY) (h : s.Start boundsX boundsY) :
    s.Inv boundsX boundsY := by
  have hempty := h.clients.1
  have hdesk : s.desk = ⟨cursorInit boundsX boundsY, []⟩ := h.desk
  obtain ⟨backContents, hback⟩ := h.back
  obtain ⟨frontContents, hfront⟩ := h.front
  constructor
  · intro window hwindow
    rw [hempty] at hwindow
    cases hwindow
  · intro window hwindow
    rw [hempty] at hwindow
    cases hwindow
  · rw [hdesk]
    exact ⟨cursorInit_on hdisplay.x hdisplay.y, nofun⟩
  · rw [hdesk]
    nofun
  · rw [hdesk, hempty]
    rfl
  · exact allocated_ready h.text
  · rw [(TextInput.allocated_spec h.text).1]
    decide
  · rw [hback]
    exact ⟨newBitmap_whole hdisplay.area, rfl, rfl⟩
  · rw [hfront]
    exact ⟨newBitmap_whole hdisplay.area, rfl, rfl⟩

/-- What `compositor_update` leaves, when the message has been survived. -/
theorem Screen.Inv.update (hdisplay : Display boundsX boundsY) (h : s.Inv boundsX boundsY)
    (ha : a.Allowed s) (hpoll : s.poll a.polled = .ok clients) :
    ∃ s', s.update a = .ok s' ∧ s'.Inv boundsX boundsY ∧ s'.clients = clients ∧
      s'.timeMs = a.timeMs := by
  have hclients : Survival.Inv clients ∧ (∀ window ∈ clients.windowTable, window.Modest) ∧
      (clients.windowTable.length = s.clients.windowTable.length ∨
        clients.windowTable.length = s.clients.windowTable.length + 1) := by
    cases hp : a.polled with
    | none =>
      rw [hp] at hpoll
      cases hpoll
      exact ⟨h.clients, h.modest, .inl rfl⟩
    | some p =>
      rw [hp] at hpoll
      have hexec : Survival.exec s.clients
          (.request p.request p.processHandle p.descriptor p.memory) = .ok clients := hpoll
      refine ⟨Survival.inv_step h.clients hexec,
        change_modest (Survival.exec_table h.clients hexec) ?_ h.modest⟩
      intro request processHandle descriptor memory heq
      cases heq
      exact ha.modest p hp
  obtain ⟨hinv, hmodest, hcount⟩ := hclients
  let created := clients.windowTable[s.clients.windowTable.length]?.map (·.width)
  have hnarrow : ∀ width ∈ created, (newPlace width).width32 ≤ 2 ^ 30 := by
    intro width hwidth
    obtain ⟨window, hwindow, rfl⟩ := Option.map_eq_some_iff.mp hwidth
    have hside : (window.width.setWidth 32).toNat < 2 ^ 30 :=
      (hmodest window (List.mem_of_getElem? hwindow)).width
    show (window.width.setWidth 32).toInt ≤ 2 ^ 30
    rw [BitVec.toInt_eq_toNat_of_lt (by omega)]
    omega
  have hdesk := (h.desk.step hdisplay.x hdisplay.y
    (show Desk.Step s.desk ⟨created, a.mouse⟩ _ from ⟨hnarrow, rfl⟩)).1
  obtain ⟨hready, hlength⟩ := h.text.update ha.supplied (Nat.le_of_lt ha.length)
  refine ⟨{ s with
      clients
      desk := s.desk.update ⟨created, a.mouse⟩
      text := textInputUpdate s.text a.keyboard
      timeMs := a.timeMs }, by rw [Screen.update, hpoll]; rfl,
    ⟨hinv, hmodest, hdesk, ?_, ?_, hready, ?_, h.back, h.front⟩, rfl, rfl⟩
  · intro w hw
    obtain ⟨w₀, hw₀, rfl⟩ := List.mem_map.mp hw
    rcases List.mem_append.mp hw₀ with hold | hnew
    · exact (h.still w₀ hold).update
    · obtain ⟨width, -, rfl⟩ := List.mem_map.mp hnew
      exact (newPlace_still width).update
  · have hpaired := h.paired
    simp only [Desk.update, List.length_map, List.length_append]
    rcases hcount with hsame | hmore
    · simp [created, hpaired, hsame]
    · simp [created, hpaired, hmore]
  · exact Nat.lt_of_le_of_lt hlength ha.length

/-! ## A frame -/

theorem renderWindows_draws (hfont : font.Sound) {windows : List (Window × Place)}
    (hwindows : ∀ w ∈ windows, w.1.Drawable ∧ Near (BitVec.ofInt 32 w.2.x) ∧
      Near (BitVec.ofInt 32 w.2.y) ∧ (BitVec.ofInt 32 w.2.y).toInt + 28 ≤ 2 ^ 30) :
    Draws (windows.flatMap (windowLayers font)) (renderWindows font windows) := by
  induction windows with
  | nil => exact .nil
  | cons w windows ih =>
    obtain ⟨⟨hdrawable, hx, hy, hbelow⟩, hrest⟩ := List.forall_mem_cons.mp hwindows
    exact (compositorWindowRender_draws hfont hdrawable hx hy hbelow).bind (ih hrest)

/-- The scene is drawn. -/
theorem Screen.Inv.draw (hfont : font.Sound) (hdisplay : Display boundsX boundsY)
    (h : s.Inv boundsX boundsY) (stale : Word32 × Word32) :
    Draws (s.scene font) (s.draw font stale) := by
  obtain ⟨hlegible, hplaces, hindex⟩ := h.text.shown h.length
  have htext := textInputDraw_draws hfont hlegible hplaces hindex s.timeMs stale
  have hwindows : Draws (s.windows.flatMap (windowLayers font)) (renderWindows font s.windows) := by
    apply renderWindows_draws hfont
    intro w hw
    obtain ⟨hwindow, hplace⟩ := List.of_mem_zip hw
    obtain ⟨-, hy, hnearX, hnearY, hbelow⟩ :=
      (h.desk.held w.2 hplace).near hdisplay (h.still w.2 hplace)
    exact ⟨(h.modest w.1 hwindow).drawable (h.clients w.1 hwindow), hnearX, hnearY, by rwa [hy]⟩
  have hcursor : Draws [s.desk.cursor.picture] (cursorDraw s.desk.cursor) := by
    obtain ⟨hboundsX, hboundsY, hx, hy⟩ := h.desk.cursor
    obtain ⟨hsideX, hsideY⟩ := hdisplay.sides
    simp only [Cursor.limit, hboundsX, hboundsY] at hx hy
    exact cursorDraw_draws ⟨by omega, by omega⟩ ⟨by omega, by omega⟩
  exact htext.bind (hwindows.bind hcursor)

/-- What a frame makes of the clients and of the places of their windows. -/
theorem frame_clients (h : s.frame font a = .ok s') : s.poll a.polled = .ok s'.clients ∧
    s'.desk = s.desk.update
      ⟨s'.clients.windowTable[s.clients.windowTable.length]?.map (·.width), a.mouse⟩ := by
  simp only [Screen.frame, Screen.update, pure_eq_ok] at h
  obtain ⟨s₁, hupdate, h⟩ := bind_eq_ok.mp h
  obtain ⟨clients, hpoll, hupdate⟩ := bind_eq_ok.mp hupdate
  obtain ⟨cleared, -, h⟩ := bind_eq_ok.mp h
  obtain ⟨back, -, h⟩ := bind_eq_ok.mp h
  obtain ⟨front, -, h⟩ := bind_eq_ok.mp h
  cases hupdate
  cases h
  exact ⟨hpoll, rfl⟩

/-- A frame whose message is survived is drawn, and shows the scene. -/
theorem Screen.Inv.frame (hfont : font.Sound) (hdisplay : Display boundsX boundsY)
    (h : s.Inv boundsX boundsY) (ha : a.Allowed s) (hpoll : s.poll a.polled = .ok clients) :
    ∃ s', s.frame font a = .ok s' ∧ s'.Inv boundsX boundsY ∧ s'.Shows font ∧
      s'.clients = clients := by
  obtain ⟨s₁, hupdate, hinv, hclients, -⟩ := h.update hdisplay ha hpoll
  obtain ⟨cleared, hclear, hblack⟩ :=
    paintClear_renders hinv.back.whole (hinv.back.small hdisplay) black
  have hcleared := hinv.back.same hblack.same
  obtain ⟨back, hdraw, hscene⟩ :=
    hinv.draw hfont hdisplay a.stale cleared hcleared.whole (hcleared.small hdisplay)
  have hback := hcleared.same hscene.same
  obtain ⟨front, hswap, hsame, hshown⟩ := paintSwapBuffers_shows hinv.front.whole hback.whole
    (hback.width.trans hinv.front.width.symm) (hback.height.trans hinv.front.height.symm)
  refine ⟨{ s₁ with backFramebuffer := back, framebuffer := front }, ?_, ?_, ?_, hclients⟩
  · simp only [Screen.frame, hupdate, ok_bind, hclear, hdraw, hswap, pure_eq_ok]
  · exact ⟨hinv.clients, hinv.modest, hinv.desk, hinv.still, hinv.paired, hinv.text, hinv.length,
      hback, hinv.front.same hsame⟩
  · intro x y hxy
    have hpixel : s₁.framebuffer.Pixel x y := by
      simpa [Bitmap.Pixel, hsame.width, hsame.height] using hxy
    have hpixel' : s₁.backFramebuffer.Pixel x y := by
      simpa [Bitmap.Pixel, hinv.back.width, hinv.back.height, hinv.front.width,
        hinv.front.height] using hpixel
    have hpixel'' : cleared.Pixel x y := by
      simpa [Bitmap.Pixel, hblack.same.width, hblack.same.height] using hpixel'
    show front.at x y = _
    rw [hshown x y hpixel, hscene.pixel x y hpixel'', hblack.pixel x y hpixel']
    rfl

/-! ## Between frames -/

theorem zip_flatMap_set {A B C : Type} {f : A × B → List C} {as : List A} {bs : List B}
    {old : A} {i : Nat} (hold : as[i]? = some old) (new : A) (hf : ∀ b, f (new, b) = f (old, b)) :
    ((as.set i new).zip bs).flatMap f = (as.zip bs).flatMap f := by
  induction as generalizing i bs with
  | nil => rfl
  | cons a as ih =>
    cases bs with
    | nil => simp
    | cons b bs =>
      cases i with
      | zero =>
        cases hold
        simp [hf]
      | succ i => simp [ih (i := i) hold]

/-- What is in a buffer is no part of the scene. -/
theorem drawBuffer_scene (windowHandle : Int) (pixels : Nat → Word32) :
    ({ s with clients := Survival.drawBuffer s.clients windowHandle pixels } : Screen).scene font =
      s.scene font := by
  simp only [Screen.scene, Screen.windows, Survival.drawBuffer]
  cases hget : compositorWindowGet s.clients windowHandle with
  | none => rfl
  | some window =>
    rw [zip_flatMap_set (Survival.get_place hget)
      { window with buffer := window.buffer.map fun buffer => { buffer with pixels } } fun _ => rfl]

theorem drawBuffer_length (c : CompositorState) (windowHandle : Int) (pixels : Nat → Word32) :
    (Survival.drawBuffer c windowHandle pixels).windowTable.length = c.windowTable.length := by
  unfold Survival.drawBuffer
  split
  · rfl
  · exact List.length_set

theorem Screen.Inv.exec (hfont : font.Sound) (hdisplay : Display boundsX boundsY)
    (h : s.Inv boundsX boundsY) {action : ScreenAction} (hstep : Screen.Step font s action s') :
    s'.Inv boundsX boundsY ∧ ((∃ input, action = .frame input) ∨ s.Shows font → s'.Shows font) := by
  obtain ⟨hallowed, hexec⟩ := hstep
  cases action with
  | frame input =>
    have hdrawn : s.frame font input = .ok s' := hexec
    obtain ⟨s₂, hframe, hinv, hshows, -⟩ :=
      h.frame hfont hdisplay hallowed (frame_clients hdrawn).1
    obtain rfl := Except.ok.inj (hframe.symm.trans hdrawn)
    exact ⟨hinv, fun _ => hshows⟩
  | draw windowHandle pixels =>
    cases hexec
    have hchange := Survival.exec_table (a := .draw windowHandle pixels) h.clients rfl
    have hmodest := (change_modest hchange (fun _ _ _ _ heq => by cases heq) h.modest).1
    refine ⟨⟨Survival.inv_step (a := .draw windowHandle pixels) h.clients rfl, hmodest, h.desk,
      h.still, h.paired.trans (drawBuffer_length ..).symm, h.text, h.length, h.back, h.front⟩, ?_⟩
    rintro (⟨input, hinput⟩ | hshows)
    · cases hinput
    · intro x y hxy
      rw [drawBuffer_scene]
      exact hshows x y hxy
  | process process =>
    cases hexec
    refine ⟨⟨h.clients, h.modest, h.desk, h.still, h.paired, h.text, h.length, h.back, h.front⟩, ?_⟩
    rintro (⟨input, hinput⟩ | hshows)
    · cases hinput
    · exact hshows

/-- A frame has been drawn. -/
def FrameDrawn (history : List (Screen × ScreenAction)) : Prop :=
  ∃ p ∈ history, ∃ input, p.2 = .frame input

theorem run_shows {history : List (Screen × ScreenAction)} (hfont : font.Sound)
    (hdisplay : Display boundsX boundsY)
    (h : Run (Screen.Start boundsX boundsY) (Screen.Step font) history s) :
    s.Inv boundsX boundsY ∧ (FrameDrawn history → s.Shows font) := by
  induction h with
  | start hstart =>
    refine ⟨hstart.inv hdisplay, fun hdrawn => ?_⟩
    obtain ⟨p, hp, -⟩ := hdrawn
    exact absurd hp List.not_mem_nil
  | next hrun hstep ih =>
    obtain ⟨hinv, hshows⟩ := ih.1.exec hfont hdisplay hstep
    refine ⟨hinv, fun hdrawn => hshows ?_⟩
    obtain ⟨p, hp, hframe⟩ := hdrawn
    rcases List.mem_cons.mp hp with rfl | hbefore
    · exact .inl hframe
    · exact .inr (ih.2 ⟨p, hbefore, hframe⟩)

end

/-- The sides of a rectangle; those of one without a width are a column apart. -/
def Rect.Edge (r : Rect) (p : Int × Int) : Prop :=
  (p.2 = r.y ∨ p.2 = r.y + r.height - 1) ∧ r.x ≤ p.1 ∧ p.1 < r.x + r.width ∨
    (p.1 = r.x ∨ p.1 = r.x + r.width - 1) ∧ r.y ≤ p.2 ∧ p.2 < r.y + r.height

/-- The title bar and the content of a window, with their edges. -/
def outline (w : Window × Place) : Rect :=
  if w.1.sides.1 = 0 then ⟨w.2.x - 1, w.2.y, 2, 28 + w.1.sides.2⟩
  else ⟨w.2.x, w.2.y, w.1.sides.1, 28 + w.1.sides.2⟩

/-- A window has something at a point: its outline, or a character of its title. -/
def Reaches (font : DrawFont) (w : Window × Place) (p : Int × Int) : Prop :=
  (outline w).Has p ∨ ∃ d ∈ drawnAt font.toFont w.1.title (BitVec.ofInt 32 w.2.x + 8)
    (BitVec.ofInt 32 w.2.y + 18) w.1.title.bytes.length,
      (font.place ((w.1.title.char d.index).toNat - atlasFirstChar) d.cursorX d.cursorY).rect.Has p

/-- What a step is for the clients. -/
def ScreenAction.clients : ScreenAction → Option Survival.Action
  | .frame input =>
    input.polled.map fun p => .request p.request p.processHandle p.descriptor p.memory
  | .draw windowHandle pixels => some (.draw windowHandle pixels)
  | .process p => some (.process p)

/-- A run as the clients see it. -/
def clientHistory (history : List (Screen × ScreenAction)) :
    List (CompositorState × Survival.Action) :=
  history.filterMap fun p => p.2.clients.map fun a => (p.1.clients, a)

section

variable {font : DrawFont} {s s' : Screen} {boundsX boundsY : Word32} {p : Int × Int}
  {w : Window × Place}

theorem edges_transparent {r : Rect} {color : Word32} (h : ¬r.Edge p) :
    ∀ layer ∈ r.edges color, Transparent layer p := by
  intro layer hlayer
  simp only [Rect.edges, List.mem_cons, List.not_mem_nil, or_false] at hlayer
  simp only [Rect.Edge] at h
  rcases hlayer with rfl | rfl | rfl | rfl
  all_goals
    apply fill_transparent
    simp only [Rect.Has]
    omega

theorem textPictures_transparent {text : CString} {x baseline color : Word32} {n : Nat}
    (h : ∀ d ∈ drawnAt font.toFont text x baseline n,
      ¬(font.place ((text.char d.index).toNat - atlasFirstChar) d.cursorX d.cursorY).rect.Has p) :
    ∀ layer ∈ textPictures font text x baseline color n, Transparent layer p := by
  intro layer hlayer
  obtain ⟨d, hd, rfl⟩ := List.mem_map.mp hlayer
  exact cover_transparent (h d hd)

/-- A window leaves the points as they are that it does not reach. -/
theorem windowLayers_transparent (hx : (BitVec.ofInt 32 w.2.x).toInt = w.2.x)
    (hy : (BitVec.ofInt 32 w.2.y).toInt = w.2.y) (hgood : Survival.Window.Good w.1)
    (h : ¬Reaches font w p) : ∀ layer ∈ windowLayers font w, Transparent layer p := by
  obtain ⟨houtline, htitle⟩ := not_or.mp h
  have hwidth : w.1.framebuffer.width.toNat = w.1.sides.1 := congrArg BitVec.toNat hgood.width
  have hheight : w.1.framebuffer.height.toNat = w.1.sides.2 := congrArg BitVec.toNat hgood.height
  have hout : ¬((if w.1.sides.1 = 0 then w.2.x - 1 else w.2.x) ≤ p.1 ∧
      p.1 < w.2.x + max 1 w.1.sides.1 ∧ w.2.y ≤ p.2 ∧ p.2 < w.2.y + (28 + w.1.sides.2)) := by
    intro hin
    apply houtline
    rw [outline]
    split <;> simp only [Rect.Has] <;> split at hin <;> omega
  intro layer hlayer
  simp only [windowLayers, windowPictures, hx, hy, List.mem_cons, List.mem_append] at hlayer
  rcases hlayer with rfl | hbar | hcharacter | rfl | hcontent
  · apply fill_transparent
    simp only [Rect.Has]
    split at hout <;> omega
  · apply edges_transparent _ layer hbar
    simp only [Rect.Edge]
    split at hout <;> omega
  · exact textPictures_transparent (fun d hd hhas => htitle ⟨d, hd, hhas⟩) layer hcharacter
  · apply fill_transparent
    simp only [Rect.Has, hwidth, hheight]
    split at hout <;> omega
  · apply edges_transparent _ layer hcontent
    simp only [Rect.Edge]
    split at hout <;> omega

/-- The clients of a run have a run of their own. -/
theorem run_clients {history : List (Screen × ScreenAction)}
    (h : Run (Screen.Start boundsX boundsY) (Screen.Step font) history s) :
    Run Survival.Start Survival.Step (clientHistory history) s.clients := by
  induction h with
  | start hstart => exact .start hstart.clients
  | @next history s a s' hrun hstep ih =>
    obtain ⟨hallowed, hexec⟩ := hstep
    cases a with
    | frame input =>
      have hpoll := (frame_clients (show s.frame font input = .ok s' from hexec)).1
      have hhistory : clientHistory ((s, .frame input) :: history) =
          (input.polled.map fun p => (s.clients, Survival.Action.request p.request
            p.processHandle p.descriptor p.memory)).toList ++ clientHistory history := by
        cases hp : input.polled <;> simp [clientHistory, ScreenAction.clients, hp]
      rw [hhistory]
      cases hp : input.polled with
      | none =>
        rw [hp] at hpoll
        rw [← Except.ok.inj hpoll]
        exact ih
      | some p =>
        rw [hp] at hpoll
        refine .next ih (show Survival.Step s.clients
          (.request p.request p.processHandle p.descriptor p.memory) s'.clients from ⟨?_, hpoll⟩)
        have hmodest := hallowed.modest p hp
        cases hrequest : p.request with
        | windowCreate name width height =>
          rw [hrequest] at hmodest
          exact hmodest.1
        | _ => trivial
    | draw windowHandle pixels =>
      cases hexec
      exact .next ih (show Survival.Step s.clients (.draw windowHandle pixels) _ from
        ⟨trivial, rfl⟩)
    | process process =>
      cases hexec
      exact .next ih (show Survival.Step s.clients (.process process) _ from ⟨trivial, rfl⟩)

/-- Inside its edges, a window shows its framebuffer over everything below. -/
theorem window_topmost (hx : (BitVec.ofInt 32 w.2.x).toInt = w.2.x)
    (hy : (BitVec.ofInt 32 w.2.y).toInt = w.2.y) (hgood : Survival.Window.Good w.1)
    {below above : List Picture} {dx dy : Nat} (hdx : 0 < dx ∧ dx + 1 < w.1.sides.1)
    (hdy : dy + 1 < w.1.sides.2) (hp : p = (w.2.x + dx, w.2.y + 28 + dy))
    (habove : ∀ layer ∈ above, Transparent layer p) (color : Word32) :
    paint (below ++ (windowLayers font w ++ above)) p color =
      w.1.framebuffer.at (BitVec.ofNat 32 dx) (BitVec.ofNat 32 dy) := by
  have hwidth : w.1.framebuffer.width.toNat = w.1.sides.1 := congrArg BitVec.toNat hgood.width
  have hheight : w.1.framebuffer.height.toNat = w.1.sides.2 := congrArg BitVec.toNat hgood.height
  subst hp
  have hin : (Rect.mk w.2.x (w.2.y + 28) w.1.framebuffer.width.toNat
      w.1.framebuffer.height.toNat).Has (w.2.x + dx, w.2.y + 28 + dy) := by
    rw [Rect.has_mk, hwidth, hheight]
    omega
  have hedges : ∀ layer ∈ (Rect.mk w.2.x (w.2.y + 27) w.1.sides.1 (w.1.sides.2 + 1)).edges white,
      Transparent layer (w.2.x + dx, w.2.y + 28 + dy) := by
    apply edges_transparent
    simp only [Rect.Edge]
    omega
  -- the content is below its own edges and what is above
  have hsplit : below ++ (windowLayers font w ++ above) =
      (below ++ (Rect.mk w.2.x w.2.y w.1.sides.1 28).filled black ::
        ((Rect.mk w.2.x w.2.y w.1.sides.1 28).edges white ++
          textPictures font w.1.title (BitVec.ofInt 32 w.2.x + 8) (BitVec.ofInt 32 w.2.y + 18)
            white w.1.title.bytes.length)) ++
        w.1.framebuffer.shown w.2.x (w.2.y + 28) ::
          ((Rect.mk w.2.x (w.2.y + 27) w.1.sides.1 (w.1.sides.2 + 1)).edges white ++ above) := by
    simp [windowLayers, windowPictures, hx, hy]
  rw [hsplit, Bitmap.shown, paint_topmost hin]
  · simp
  · intro layer hlayer
    rcases List.mem_append.mp hlayer with hown | hother
    · exact hedges layer hown
    · exact habove layer hother

end

/-- A character that is not seen. -/
def noGlyph : Scaling := ⟨0, 0, 0, 0, 0, 0, 0, 0⟩

theorem noGlyph_inside : noGlyph.Inside ⟨0, fun _ => 0, 0⟩ :=
  ⟨by decide, by decide, by decide, by decide, by decide, by decide, by decide, by decide,
    by decide⟩

/-- A font of such characters. -/
def blankFont : DrawFont where
  xadvance _ := 8
  lineHeight := 20
  atlas := ⟨0, fun _ => 0, 0⟩
  ascent := 15
  place _ _ _ := noGlyph

theorem blankFont_sound : blankFont.Sound where
  inside _ _ _ _ := noGlyph_inside
  lineHeight := by decide

theorem smallDisplay : Display 64 64 := ⟨⟨by decide, by decide⟩, ⟨by decide, by decide⟩, by decide⟩

def newScreen : Screen where
  clients := Survival.noWindow ProcessMemory.newProcess
  desk := ⟨cursorInit 64 64, []⟩
  text := newTextInput fun _ => 0
  timeMs := 0
  backFramebuffer := newBitmap 64 64 fun _ => 0
  framebuffer := newBitmap 64 64 fun _ => 0

theorem newScreen_start : newScreen.Start 64 64 :=
  ⟨⟨rfl, rfl⟩, rfl, TextInput.newTextInput_allocated _, ⟨_, rfl⟩, _, rfl⟩

/-- A window of three by two pixels is created. -/
def smallWindow : FrameInput where
  polled := some ⟨.windowCreate (List.replicate nameSize 0) 3 2, 1, none, Survival.allBlocks⟩
  mouse := []
  keyboard := []
  timeMs := 0
  stale := (0, 0)

theorem smallWindow_allowed : smallWindow.Allowed newScreen where
  modest p hp := by
    cases hp
    exact ⟨List.length_replicate, by decide, by decide, by decide⟩
  supplied := nofun
  length := by decide

theorem smallWindow_polled : ∃ clients, newScreen.poll smallWindow.polled = .ok clients ∧
    ∃ window, clients.windowTable = [window] ∧ window.sides = (3, 2) := ⟨_, rfl, _, rfl, rfl⟩

end ZOs.Compositor
