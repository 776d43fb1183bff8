import ZOs.Compositor.Abi
import ZOs.Compositor.Paint
import ZOs.Process.Mmap

/-!
# The windows of the compositor

`compositor.c`: windows are created, get a buffer and are updated from it as
clients ask for it. Every number of a request is chosen by a client and is 64
bits wide, the bitmaps are 32 bits wide.
-/

namespace ZOs.Compositor

open Runs Checked
open ZOs.ProcessMemory (Process processMmap mapShared mapRead mapWrite)

/-- The size of `name` in `compositor_abi_create_window_payload_t`. -/
def nameSize : Nat := 256

/-- `compositor_window_t`, without its place on the screen. -/
structure Window where
  name : List UInt8
  width : Word
  height : Word
  bufferHandle : Int
  buffer : Option Bitmap
  framebuffer : Bitmap

/-- What becomes of the allocations of a request, in the order of the code,
and what new memory holds. -/
structure Memory where
  window : Malloc
  name : Malloc
  bitmap : Malloc
  data : Malloc
  table : Malloc
  node : Malloc
  contents : Nat → Word32

/-- `compositor_t` and the process it runs in: the entries of the window
table, and for how many there is room. -/
structure CompositorState where
  windowTable : List Window
  capacity : Nat
  process : Process
  memory : Memory

/-! ## The window table -/

/-- `handle_table_get` on the window table; the first comparison is one of
`int32_t`. -/
def handleTableGet (windowTable : List Window) (handle : Int) : Option Window :=
  if handle < 0 then none
  else if (BitVec.ofNat 32 windowTable.length).toInt ≤ (BitVec.ofInt 32 handle).toInt then none
  else windowTable[handle.toNat]?

/-- `compositor_window_get`. -/
def compositorWindowGet (c : CompositorState) (windowHandle : Int) : Option Window :=
  handleTableGet c.windowTable windowHandle

/-- `assert(handle_table_insert(...) == 0)`; the table doubles when it is full. -/
def handleTableInsert (c : CompositorState) (window : Window) :
    Except Fault (CompositorState × Int) :=
  let inserted := { c with windowTable := c.windowTable ++ [window] }
  if c.windowTable.length < c.capacity then .ok (inserted, c.windowTable.length)
  else do
    if ← malloc c.memory.table then
      pure ({ inserted with capacity := c.capacity * 2 }, (c.windowTable.length : Int))
    else throw .assertion

/-! ## Requests -/

/-- `strlen` of a field of a message. -/
def strlen (field : List UInt8) : Except Fault Nat :=
  match field.findIdx? (· = 0) with
  | some length => .ok length
  | none => .error .nameOverrun

/-- `malloc(strlen(name) + 1)` and `memory_copy`. -/
def copyName (answer : Malloc) (name : List UInt8) : Except Fault (List UInt8) := do
  let length ← strlen name
  if ← malloc answer then pure (name.take length) else throw .nullName

/-- `RGB_COLOR(25, 25, 25)`. -/
def darkGray : Word32 := (25 <<< 16) ||| (25 <<< 8) ||| 25

/-- `compositor_window_create` once there is a framebuffer. -/
def compositorWindowRegister (c : CompositorState) (name : List UInt8) (width height : Word)
    (framebuffer : Bitmap) : Except Fault (CompositorState × Int × Int) := do
  let framebuffer ← paintFillRect framebuffer 0 0 (width.setWidth 32) (height.setWidth 32) darkGray
  let (c, handle) ← handleTableInsert c ⟨name, width, height, 0, none, framebuffer⟩
  -- assert(linked_list_insert(&g_compositor.windows, (void *)window, &window->node) == 0)
  if ← malloc c.memory.node then pure (c, 0, handle) else throw .assertion

/-- `compositor_window_create`: the result, and the handle. -/
def compositorWindowCreate (c : CompositorState) (name : List UInt8) (width height : Word) :
    Except Fault (CompositorState × Int × Int) := do
  if ← malloc c.memory.window then
    let name ← copyName c.memory.name name
    match ← bitmapCreate c.memory.bitmap c.memory.data c.memory.contents
        (width.setWidth 32) (height.setWidth 32) with
    | none => pure (c, -1, 0)
    | some framebuffer => compositorWindowRegister c name width height framebuffer
  else pure (c, -1, 0)

/-- The mapping of the shared memory in `compositor_window_attach_buffer`;
the kernel does not return from a call that it cannot serve. -/
def mapBuffer (c : CompositorState) (window : Window) (bufferHandle : Int) :
    Except Fault Process :=
  match processMmap c.process 0 (window.width * window.height * 4)
      (mapShared ||| mapRead ||| mapWrite) bufferHandle with
  | none => .error .assertion
  | some (address, process) => if address = 0 then .error .assertion else .ok process

/-- `compositor_window_attach_buffer` for a window that has been found. -/
def attachTo (c : CompositorState) (window : Window) (windowHandle bufferHandle : Int) :
    Except Fault (CompositorState × Int) := do
  let process ← mapBuffer c window bufferHandle
  match ← bitmapFromData c.memory.bitmap (window.width * window.height * 4).toNat
      c.memory.contents (window.width.setWidth 32) (window.height.setWidth 32) with
  | none => throw .assertion
  | some buffer =>
    pure ({ c with
      process
      windowTable := c.windowTable.set windowHandle.toNat
        { window with bufferHandle, buffer := some buffer } }, 0)

/-- `compositor_window_attach_buffer`. -/
def compositorWindowAttachBuffer (c : CompositorState) (windowHandle bufferHandle : Int) :
    Except Fault (CompositorState × Int) :=
  if windowHandle = -1 ∨ bufferHandle = -1 then .ok (c, -1)
  else
    match compositorWindowGet c windowHandle with
    | none => .ok (c, -1)
    | some window => attachTo c window windowHandle bufferHandle

/-- `compositor_window_commit`. -/
def compositorWindowCommit (c : CompositorState) (windowHandle : Int) (x y width height : Word) :
    Except Fault (CompositorState × Int) :=
  if windowHandle = -1 then .ok (c, -1)
  else
    match compositorWindowGet c windowHandle with
    | none => .ok (c, -1)
    | some window => do
      let framebuffer ← paintBlitBitmapRect window.framebuffer window.buffer
        (x.setWidth 32) (y.setWidth 32) (width.setWidth 32) (height.setWidth 32)
      pure ({ c with
        windowTable := c.windowTable.set windowHandle.toNat { window with framebuffer } }, 0)

/-! ## Messages -/

/-- A call of a function that may fail, on a compositor that is still there. -/
def call {α : Type} (default : α) (c : Except Fault CompositorState)
    (f : CompositorState → Except Fault (CompositorState × α)) : Except Fault CompositorState × α :=
  match c.bind f with
  | .ok (c, result) => (.ok c, result)
  | .error fault => (.error fault, default)

/-- The functions of `compositor.c` as `compositor_abi.c` calls them. -/
def windows : Windows (Except Fault CompositorState) where
  create c name width height :=
    call (-1, 0) c fun c => compositorWindowCreate c name width height
  attachBuffer c windowHandle bufferHandle :=
    call (-1) c fun c => compositorWindowAttachBuffer c windowHandle bufferHandle
  commit c windowHandle x y width height :=
    call (-1) c fun c => compositorWindowCommit c windowHandle x y width height

/-- A message is received, with a descriptor or without, and answered. -/
def respond (c : CompositorState) (request : Request) (processHandle : Int)
    (descriptor : Option Int) (memory : Memory) : Except Fault CompositorState × Option Message :=
  let message := commsSendRequest processHandle request.fill
  match descriptor with
  | none => processMessage windows (.ok { c with memory }) message
  | some fd => processFdMessage windows (.ok { c with memory }) fd message

end ZOs.Compositor
