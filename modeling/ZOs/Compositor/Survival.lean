import ZOs.Compositor.Windows
import ZOs.Process.MmapRuns

/-!
# What clients can do to the compositor

A request is survived if it is answered and nothing fails on the way: no
name without an end is read, no buffer that is not there is used, and no
pixel outside a bitmap is touched. The bitmaps of a window are whole as long
as it is so, therefore only the request and the window it names decide.
-/

namespace ZOs.Compositor.Survival

open Runs Checked
open ZOs.ProcessMemory (Process processMmap mapShared mapRead mapWrite)

/-! ## Runs -/

inductive Action
  | request (request : Request) (processHandle : Int) (descriptor : Option Int) (memory : Memory)
  | draw (windowHandle : Int) (pixels : Nat → Word32)
  | process (process : Process)

/-- A name is as long as its field; all other numbers are arbitrary. -/
def Sendable : Action → Prop
  | .request (.windowCreate name _ _) _ _ _ => name.length = nameSize
  | _ => True

/-- A client draws in the memory that it shares with the compositor. -/
def drawBuffer (c : CompositorState) (windowHandle : Int) (pixels : Nat → Word32) :
    CompositorState :=
  match compositorWindowGet c windowHandle with
  | none => c
  | some window =>
    { c with
      windowTable := c.windowTable.set windowHandle.toNat
        { window with buffer := window.buffer.map fun buffer => { buffer with pixels } } }

/-- What else happens to the process of the compositor is left open. -/
def exec (c : CompositorState) : Action → Except Fault CompositorState
  | .request request processHandle descriptor memory =>
    (respond c request processHandle descriptor memory).1
  | .draw windowHandle pixels => .ok (drawBuffer c windowHandle pixels)
  | .process process => .ok { c with process }

def Step (c : CompositorState) (a : Action) (c' : CompositorState) : Prop :=
  Sendable a ∧ exec c a = .ok c'

/-- After `compositor_init`. -/
def Start (c : CompositorState) : Prop := c.windowTable = [] ∧ c.capacity = 1024

/-! ## Requests that are survived -/

/-- A request is answered, and nothing has failed. -/
def Survives (c : CompositorState) : Action → Prop
  | .request request processHandle descriptor memory =>
    ∃ c' response, respond c request processHandle descriptor memory = (.ok c', some response)
  | _ => True

/-- The name ends within its field, there is memory for it, and if there is
memory for the framebuffer then it is that of fewer than 2^30 pixels; the
window can be registered. -/
def CreateSound (c : CompositorState) (name : List UInt8) (width height : Word) : Prop :=
  c.memory.window = .null ∨
    c.memory.window = .block ∧ 0 ∈ name ∧ c.memory.name = .block ∧
      (c.memory.bitmap = .null ∨
        c.memory.bitmap = .block ∧
          (c.memory.data = .null ∨
            c.memory.data = .block ∧
              (width.setWidth 32).toNat * (height.setWidth 32).toNat < 2 ^ 30 ∧
              (c.windowTable.length < c.capacity ∨ c.memory.table = .block) ∧
              c.memory.node = .block))

/-- The descriptor can be mapped in the size of the window. -/
def AttachSound (c : CompositorState) (windowHandle bufferHandle : Int) : Prop :=
  bufferHandle = -1 ∨ ∀ window, compositorWindowGet c windowHandle = some window →
    (processMmap c.process 0 (window.width * window.height * 4)
      (mapShared ||| mapRead ||| mapWrite) bufferHandle).isSome = true ∧
    c.memory.bitmap = .block

/-- A buffer is attached, or no pixel of the window is asked for. -/
def CommitSound (c : CompositorState) (windowHandle : Int) (x y width height : Word) : Prop :=
  ∀ window, compositorWindowGet c windowHandle = some window →
    window.buffer.isSome = true ∨
    ∀ x0 y0, InRect (x.setWidth 32) (y.setWidth 32) (width.setWidth 32) (height.setWidth 32) x0 y0 →
      window.framebuffer.clips x0 y0 = true

/-- The message comes with a descriptor if its type has one, and the request
itself does no harm. -/
def Sound (c : CompositorState) : Action → Prop
  | .request request _ descriptor memory =>
    descriptor.isSome = request.sendsFd ∧
    match request with
    | .windowCreate name width height => CreateSound { c with memory } name width height
    | .windowAttachBuffer windowHandle _ =>
      AttachSound { c with memory } windowHandle (descriptor.getD (-1))
    | .windowCommit windowHandle x y width height =>
      CommitSound { c with memory } windowHandle x y width height
  | _ => True

/-! ## Requests that are carried out -/

/-- `COMPOSITOR_ABI_STATUS_SUCCESS`. -/
def Succeeds (response : Message) : Prop :=
  match response.payload with
  | .createWindowResponse status _ => status = .success
  | .attachBufferResponse status => status = .success
  | .commitResponse status => status = .success
  | _ => False

/-- The rectangle of a request, in numbers of 64 bits. -/
def Asked (x y width height : Word) (x0 y0 : Word32) : Prop :=
  (x.toNat ≤ x0.toNat ∧ x0.toNat < x.toNat + width.toNat) ∧
    y.toNat ≤ y0.toNat ∧ y0.toNat < y.toNat + height.toNat

/-- There is a window of the size that was asked for, a buffer is attached,
or the rectangle has been copied and nothing else. -/
def CarriedOut (c : CompositorState) (request : Request) (c' : CompositorState) : Prop :=
  match request with
  | .windowCreate _ width height =>
    ∃ window, c'.windowTable = c.windowTable ++ [window] ∧
      window.framebuffer.width.toNat = width.toNat ∧
      window.framebuffer.height.toNat = height.toNat
  | .windowAttachBuffer windowHandle _ =>
    ∃ window, compositorWindowGet c' windowHandle = some window ∧ window.buffer.isSome = true
  | .windowCommit windowHandle x y width height =>
    ∃ window window', compositorWindowGet c windowHandle = some window ∧
      compositorWindowGet c' windowHandle = some window' ∧
      Copied window.framebuffer window.buffer (Asked x y width height) window'.framebuffer

/-- Success is reported of what has been carried out only. -/
def Truthful (c : CompositorState) : Action → Prop
  | .request request processHandle descriptor memory =>
    ∀ c' response, respond c request processHandle descriptor memory = (.ok c', some response) →
      Succeeds response → CarriedOut c request c'
  | _ => True

/-- The numbers of the request do not lose what matters in 32 bits. -/
def Exact (c : CompositorState) : Action → Prop
  | .request (.windowCreate _ width height) _ _ memory =>
    memory.window = .block → memory.bitmap = .block → memory.data = .block →
      width.toNat < 2 ^ 32 ∧ height.toNat < 2 ^ 32
  | .request (.windowCommit windowHandle x y width height) _ _ _ =>
    ∀ window, compositorWindowGet c windowHandle = some window →
      ∀ x0 y0, window.framebuffer.clips x0 y0 = false →
        (InRect (x.setWidth 32) (y.setWidth 32) (width.setWidth 32) (height.setWidth 32) x0 y0 ↔
          Asked x y width height x0 y0) ∨
        ∃ buffer, window.buffer = some buffer ∧ buffer.at x0 y0 = window.framebuffer.at x0 y0
  | _ => True

section

variable {c c' : CompositorState} {window : Window} {name : List UInt8} {width height : Word}
  {windowHandle bufferHandle result handle : Int} {fault : Fault}

/-! ## The invariant -/

/-- The bitmaps of a window are whole and of its size. -/
structure Window.Good (window : Window) : Prop where
  whole : window.framebuffer.Whole
  width : window.framebuffer.width = window.width.setWidth 32
  height : window.framebuffer.height = window.height.setWidth 32
  buffer : ∀ buffer, window.buffer = some buffer → buffer.Whole ∧
    buffer.width = window.framebuffer.width ∧ buffer.height = window.framebuffer.height

def Inv (c : CompositorState) : Prop := ∀ window ∈ c.windowTable, Window.Good window

theorem handleTableGet_spec {windowTable : List Window}
    (h : handleTableGet windowTable handle = some window) :
    0 ≤ handle ∧ windowTable[handle.toNat]? = some window := by
  unfold handleTableGet at h
  split at h
  · cases h
  · split at h
    · cases h
    · exact ⟨by omega, h⟩

theorem Inv.get (h : Inv c) (hget : compositorWindowGet c windowHandle = some window) :
    Window.Good window := h window (List.mem_of_getElem? (handleTableGet_spec hget).2)

theorem Inv.set (h : Inv c) (hwindow : Window.Good window)
    (htable : c'.windowTable = c.windowTable.set windowHandle.toNat window) : Inv c' := by
  intro w hw
  rw [htable] at hw
  obtain hold | rfl := List.mem_or_eq_of_mem_set hw
  · exact h w hold
  · exact hwindow

theorem get_set (hget : (compositorWindowGet c windowHandle).isSome = true)
    (htable : c'.windowTable = c.windowTable.set windowHandle.toNat window) :
    compositorWindowGet c' windowHandle = some window := by
  obtain ⟨old, hold⟩ := Option.isSome_iff_exists.mp hget
  obtain ⟨_, hplace⟩ := handleTableGet_spec hold
  have hlt := (List.getElem?_eq_some_iff.mp hplace).1
  unfold compositorWindowGet handleTableGet at hold ⊢
  rw [htable, List.length_set]
  split at hold
  · cases hold
  · next hneg =>
    split at hold
    · cases hold
    · next hlarge => rw [if_neg hneg, if_neg hlarge, List.getElem?_set_self hlt]

/-! ## Creating -/

@[simp] theorem malloc_block : malloc .block = .ok true := rfl

@[simp] theorem malloc_null : malloc .null = .ok false := rfl

@[simp] theorem malloc_stops : malloc .stops = .error .assertion := rfl

theorem strlen_returns_iff : Returns (strlen name) ↔ 0 ∈ name := by
  unfold strlen
  cases h : name.findIdx? (· = 0) with
  | none =>
    have hnot : 0 ∉ name := fun hmem => by simpa using List.findIdx?_eq_none_iff.mp h 0 hmem
    simp [hnot]
  | some length =>
    obtain ⟨hlt, hzero, _⟩ := List.findIdx?_eq_some_iff_getElem.mp h
    have hmem : 0 ∈ name := by simpa using List.mem_of_getElem (of_decide_eq_true hzero)
    simp [hmem]

theorem copyName_returns_iff {answer : Malloc} :
    Returns (copyName answer name) ↔ 0 ∈ name ∧ answer = .block := by
  rw [← strlen_returns_iff]
  unfold copyName
  rw [returns_bind]
  cases answer with
  | block => simp [Returns]
  | null => simp
  | stops => simp

theorem handleTableInsert_returns_iff (window : Window) : Returns (handleTableInsert c window) ↔
    c.windowTable.length < c.capacity ∨ c.memory.table = .block := by
  unfold handleTableInsert
  by_cases hroom : c.windowTable.length < c.capacity
  · simp [hroom]
  · cases c.memory.table <;> simp [hroom]

theorem handleTableInsert_spec (h : handleTableInsert c window = .ok (c', handle)) :
    c'.windowTable = c.windowTable ++ [window] ∧ c'.memory = c.memory := by
  unfold handleTableInsert at h
  split at h
  · cases h
    exact ⟨rfl, rfl⟩
  · obtain ⟨found, _, hrest⟩ := bind_eq_ok.mp h
    cases found with
    | true =>
      cases hrest
      exact ⟨rfl, rfl⟩
    | false => cases hrest

theorem bitmapCreate_cases {object data : Malloc} {contents : Nat → Word32} {w h : Word32}
    {P : Option Bitmap → Prop} :
    (∃ r, bitmapCreate object data contents w h = .ok r ∧ P r) ↔
      object = .null ∧ P none ∨ object = .block ∧ (data = .null ∧ P none ∨
        data = .block ∧ P (some (newBitmap w h contents))) := by
  cases object <;> cases data <;> simp [bitmapCreate]

theorem register_returns_iff {contents : Nat → Word32} :
    Returns (compositorWindowRegister c name width height
      (newBitmap (width.setWidth 32) (height.setWidth 32) contents)) ↔
    (width.setWidth 32).toNat * (height.setWidth 32).toNat < 2 ^ 30 ∧
      (c.windowTable.length < c.capacity ∨ c.memory.table = .block) ∧ c.memory.node = .block := by
  rw [← fill_newBitmap_returns_iff contents darkGray]
  unfold compositorWindowRegister
  simp only [returns_bind]
  constructor
  · rintro ⟨framebuffer, hfill, ⟨c₁, handle⟩, hinsert, found, hnode, hlast⟩
    have hmemory := (handleTableInsert_spec hinsert).2
    refine ⟨⟨framebuffer, hfill⟩, (handleTableInsert_returns_iff _).mp ⟨_, hinsert⟩, ?_⟩
    cases found with
    | false => simp at hlast
    | true => cases hanswer : c.memory.node <;> simp_all
  · rintro ⟨⟨framebuffer, hfill⟩, htable, hnode⟩
    obtain ⟨⟨c₁, handle⟩, hinsert⟩ := (handleTableInsert_returns_iff
      ⟨name, width, height, 0, none, framebuffer⟩).mpr htable
    have hmemory := (handleTableInsert_spec hinsert).2
    exact ⟨framebuffer, hfill, _, hinsert, true, by simp [hmemory, hnode], by simp⟩

/-- A window whose framebuffer could be filled is good. -/
theorem register_spec {contents : Nat → Word32} (h : compositorWindowRegister c name width height
      (newBitmap (width.setWidth 32) (height.setWidth 32) contents) = .ok (c', result, handle)) :
    ∃ window, c'.windowTable = c.windowTable ++ [window] ∧ Window.Good window ∧
      window.width = width ∧ window.height = height ∧ result = 0 := by
  unfold compositorWindowRegister at h
  obtain ⟨framebuffer, hfill, hrest⟩ := bind_eq_ok.mp h
  obtain ⟨⟨c₁, handle₁⟩, hinsert, hlast⟩ := bind_eq_ok.mp hrest
  obtain ⟨found, _, hend⟩ := bind_eq_ok.mp hlast
  have harea := (fill_newBitmap_returns_iff _ _).mp ⟨framebuffer, hfill⟩
  have hsame : Same _ framebuffer := forRect_same (fun _ _ _ _ => fillPixel_same) hfill
  cases found with
  | false => cases hend
  | true =>
    cases hend
    refine ⟨_, (handleTableInsert_spec hinsert).1, ?_, rfl, rfl, rfl⟩
    exact ⟨hsame.whole (newBitmap_whole harea), hsame.width, hsame.height, nofun⟩

theorem create_returns_iff :
    Returns (compositorWindowCreate c name width height) ↔ CreateSound c name width height := by
  unfold compositorWindowCreate CreateSound
  cases c.memory.window with
  | null => simp
  | stops => simp
  | block =>
    simp only [malloc_block, ok_bind, if_true, returns_bind, bitmapCreate_cases, pure_eq_ok,
      returns_ok, register_returns_iff, reduceCtorEq, false_or, true_and, and_true]
    have hname : (∃ copied, copyName c.memory.name name = .ok copied) ↔ _ := copyName_returns_iff
    rw [exists_and_right, hname]
    simp only [and_assoc]

/-- The result of a creation, and what it leaves: a window more, or nothing. -/
theorem create_spec (h : compositorWindowCreate c name width height = .ok (c', result, handle)) :
    (result ≠ 0 ∧ c' = c ∧
      (c.memory.window = .null ∨ c.memory.bitmap = .null ∨ c.memory.data = .null)) ∨
    (result = 0 ∧ (c.memory.window = .block ∧ c.memory.bitmap = .block ∧ c.memory.data = .block) ∧
      ∃ window, c'.windowTable = c.windowTable ++ [window] ∧ Window.Good window ∧
        window.width = width ∧ window.height = height) := by
  unfold compositorWindowCreate at h
  cases hwindow : c.memory.window with
  | stops => simp [hwindow] at h
  | null =>
    rw [hwindow] at h
    cases h
    exact .inl ⟨by decide, rfl, .inl rfl⟩
  | block =>
    rw [hwindow, malloc_block, ok_bind, if_pos rfl] at h
    obtain ⟨name', _, hrest⟩ := bind_eq_ok.mp h
    have hbitmap := bind_eq_ok.mp hrest
    rw [bitmapCreate_cases] at hbitmap
    rcases hbitmap with ⟨hnull, hend⟩ | ⟨hobject, ⟨hnull, hend⟩ | ⟨hdata, hend⟩⟩
    · cases hend
      exact .inl ⟨by decide, rfl, .inr (.inl hnull)⟩
    · cases hend
      exact .inl ⟨by decide, rfl, .inr (.inr hnull)⟩
    · obtain ⟨window, htable, hgood, hw, hh, hresult⟩ := register_spec hend
      exact .inr ⟨hresult, ⟨rfl, hobject, hdata⟩, window, htable, hgood, hw, hh⟩

theorem Inv.append (h : Inv c) (hwindow : Window.Good window)
    (htable : c'.windowTable = c.windowTable ++ [window]) : Inv c' := by
  intro w hw
  rw [htable, List.mem_append, List.mem_singleton] at hw
  rcases hw with hold | rfl
  · exact h w hold
  · exact hwindow

/-! ## Attaching -/

/-- The 64-bit size of a buffer is at least that of the 32-bit bitmap. -/
theorem bufferSize_le {width height : Word}
    (harea : (width.setWidth 32).toNat * (height.setWidth 32).toNat < 2 ^ 30) :
    4 * ((width.setWidth 32).toNat * (height.setWidth 32).toNat) ≤
      (width * height * 4).toNat := by
  have hsize : (width * height * 4).toNat % 2 ^ 32 =
      4 * ((width.setWidth 32).toNat * (height.setWidth 32).toNat) % 2 ^ 32 := by
    have hproduct : (width.setWidth 32).toNat * (height.setWidth 32).toNat % 2 ^ 32 =
        width.toNat * height.toNat % 2 ^ 32 := by
      rw [BitVec.toNat_setWidth, BitVec.toNat_setWidth, ← Nat.mul_mod]
    have hfour : (4 : Word).toNat = 4 := rfl
    rw [BitVec.toNat_mul, BitVec.toNat_mul, hfour]
    omega
  rw [Nat.mod_eq_of_lt (by omega : 4 * _ < 2 ^ 32)] at hsize
  exact hsize ▸ Nat.mod_le _ _


theorem processMmap_address {p p' : Process} {address length flags start : Word} {fd : Int}
    (h : processMmap p address length flags fd = some (start, p')) : start ≠ 0 := by
  unfold processMmap at h
  split at h
  · cases h
  · split at h
    · cases h
    · split at h
      · cases h
      · next hbase =>
        split at h
        · cases h
        · dsimp only at h
          split at h
          · cases h
          · cases h
            rintro rfl
            exact hbase (by decide)

theorem mapBuffer_returns_iff : Returns (mapBuffer c window bufferHandle) ↔
    (processMmap c.process 0 (window.width * window.height * 4)
      (mapShared ||| mapRead ||| mapWrite) bufferHandle).isSome = true := by
  unfold mapBuffer
  cases hmapped : processMmap c.process 0 (window.width * window.height * 4)
      (mapShared ||| mapRead ||| mapWrite) bufferHandle with
  | none => exact iff_of_false not_returns_error Bool.false_ne_true
  | some mapped =>
    obtain ⟨address, process⟩ := mapped
    exact iff_of_true ⟨process, if_neg (processMmap_address hmapped)⟩ rfl

theorem attach_refused (h : bufferHandle = -1 ∨ compositorWindowGet c windowHandle = none) :
    compositorWindowAttachBuffer c windowHandle bufferHandle = .ok (c, -1) := by
  unfold compositorWindowAttachBuffer
  by_cases hnone : windowHandle = -1 ∨ bufferHandle = -1
  · rw [if_pos hnone]
  · have hget := h.resolve_left fun hbuffer => hnone (.inr hbuffer)
    rw [if_neg hnone, hget]

theorem attach_eq (hbuffer : bufferHandle ≠ -1)
    (hget : compositorWindowGet c windowHandle = some window) :
    compositorWindowAttachBuffer c windowHandle bufferHandle =
      attachTo c window windowHandle bufferHandle := by
  have hwindow : windowHandle ≠ -1 := by
    rintro rfl
    cases hget
  unfold compositorWindowAttachBuffer
  rw [if_neg (not_or.mpr ⟨hwindow, hbuffer⟩), hget]

theorem attach_returns_iff : Returns (compositorWindowAttachBuffer c windowHandle bufferHandle) ↔
    AttachSound c windowHandle bufferHandle := by
  unfold AttachSound
  by_cases hbuffer : bufferHandle = -1
  · exact iff_of_true ⟨_, attach_refused (.inl hbuffer)⟩ (.inl hbuffer)
  cases hget : compositorWindowGet c windowHandle with
  | none => exact iff_of_true ⟨_, attach_refused (.inr hget)⟩ (.inr nofun)
  | some window =>
    rw [attach_eq hbuffer hget, attachTo]
    simp only [hbuffer, false_or, Option.some.injEq, forall_eq', ← mapBuffer_returns_iff,
      returns_bind]
    cases c.memory.bitmap <;> simp [bitmapFromData, Returns]

/-- What an attachment that returns has done. -/
theorem attach_spec
    (h : compositorWindowAttachBuffer c windowHandle bufferHandle = .ok (c', result)) :
    (result ≠ 0 ∧ c' = c ∧
        (bufferHandle = -1 ∨ compositorWindowGet c windowHandle = none)) ∨
      ∃ window process contents,
      result = 0 ∧ compositorWindowGet c windowHandle = some window ∧
      c' = { c with
        process
        windowTable := c.windowTable.set windowHandle.toNat
          { window with
            bufferHandle
            buffer := some ⟨(window.width * window.height * 4).toNat, contents,
              window.width.setWidth 32, window.height.setWidth 32,
              window.width.setWidth 32 * pixelSize⟩ } } := by
  by_cases hbuffer : bufferHandle = -1
  · rw [attach_refused (.inl hbuffer)] at h
    cases h
    exact .inl ⟨by decide, rfl, .inl hbuffer⟩
  cases hget : compositorWindowGet c windowHandle with
  | none =>
    rw [attach_refused (.inr hget)] at h
    cases h
    exact .inl ⟨by decide, rfl, .inr rfl⟩
  | some window =>
    rw [attach_eq hbuffer hget, attachTo] at h
    obtain ⟨process, _, hrest⟩ := bind_eq_ok.mp h
    cases hobject : c.memory.bitmap with
    | block =>
      simp only [bitmapFromData, hobject, malloc_block, ok_bind, if_true, pure_eq_ok] at hrest
      cases hrest
      exact .inr ⟨window, process, c.memory.contents, rfl, rfl, rfl⟩
    | null => simp [bitmapFromData, hobject] at hrest
    | stops => simp [bitmapFromData, hobject] at hrest

/-- The buffer of a good window is as large as its framebuffer. -/
theorem Window.Good.attach {contents : Nat → Word32}
    (h : Window.Good window) : Window.Good { window with
      bufferHandle
      buffer := some ⟨(window.width * window.height * 4).toNat, contents,
        window.width.setWidth 32, window.height.setWidth 32,
        window.width.setWidth 32 * pixelSize⟩ } where
  whole := h.whole
  width := h.width
  height := h.height
  buffer := by
    rintro _ ⟨⟩
    have harea := h.whole.area
    rw [h.width, h.height] at harea
    exact ⟨⟨rfl, harea, bufferSize_le harea⟩, h.width.symm, h.height.symm⟩

/-! ## Committing -/

/-- The pixels that are not clipped are in both bitmaps. -/
theorem Window.Good.blit_returns_iff {x y w h : Word32} (hgood : Window.Good window) :
    Returns (paintBlitBitmapRect window.framebuffer window.buffer x y w h) ↔
      window.buffer.isSome = true ∨
        ∀ x0 y0, InRect x y w h x0 y0 → window.framebuffer.clips x0 y0 = true := by
  rw [paintBlitBitmapRect_returns_iff]
  cases hbuffer : window.buffer with
  | none =>
    simp
  | some buffer =>
    obtain ⟨hwhole, hwidth, hheight⟩ := hgood.buffer buffer hbuffer
    apply iff_of_true _ (.inl rfl)
    intro x0 y0 _ hclips
    have hclips' : buffer.clips x0 y0 = false := by
      simpa [Bitmap.clips, hwidth, hheight] using hclips
    exact ⟨buffer, rfl, hwhole.has hclips', hgood.whole.has hclips⟩

theorem commit_returns_iff {x y width height : Word} (hinv : Inv c) :
    Returns (compositorWindowCommit c windowHandle x y width height) ↔
      CommitSound c windowHandle x y width height := by
  unfold compositorWindowCommit CommitSound
  by_cases hwindow : windowHandle = -1
  · subst hwindow
    exact iff_of_true ⟨_, if_pos rfl⟩ nofun
  rw [if_neg hwindow]
  cases hget : compositorWindowGet c windowHandle with
  | none => simp
  | some window =>
    simp only [Option.some.injEq, forall_eq', ← (hinv.get hget).blit_returns_iff, returns_bind]
    simp [Returns]

/-- What a commit that returns has done. -/
theorem commit_spec {x y width height : Word} (hinv : Inv c)
    (h : compositorWindowCommit c windowHandle x y width height = .ok (c', result)) :
    (result ≠ 0 ∧ c' = c ∧ compositorWindowGet c windowHandle = none) ∨
      ∃ window framebuffer, result = 0 ∧ compositorWindowGet c windowHandle = some window ∧
        Copied window.framebuffer window.buffer
          (InRect (x.setWidth 32) (y.setWidth 32) (width.setWidth 32) (height.setWidth 32))
          framebuffer ∧
        c' = { c with
          windowTable := c.windowTable.set windowHandle.toNat { window with framebuffer } } := by
  unfold compositorWindowCommit at h
  by_cases hwindow : windowHandle = -1
  · rw [if_pos hwindow] at h
    cases h
    exact .inl ⟨by decide, rfl, by rw [hwindow]; rfl⟩
  rw [if_neg hwindow] at h
  cases hget : compositorWindowGet c windowHandle with
  | none =>
    rw [hget] at h
    cases h
    exact .inl ⟨by decide, rfl, rfl⟩
  | some window =>
    rw [hget] at h
    obtain ⟨framebuffer, hblit, hend⟩ := bind_eq_ok.mp h
    cases hend
    exact .inr ⟨window, framebuffer, rfl, rfl,
      paintBlitBitmapRect_copied (hinv.get hget).whole hblit, rfl⟩

theorem Window.Good.commit {framebuffer : Bitmap} (h : Window.Good window)
    (hsame : Same window.framebuffer framebuffer) :
    Window.Good { window with framebuffer } where
  whole := hsame.whole h.whole
  width := hsame.width.trans h.width
  height := hsame.height.trans h.height
  buffer buffer hbuffer := by
    obtain ⟨hwhole, hwidth, hheight⟩ := h.buffer buffer hbuffer
    exact ⟨hwhole, hwidth.trans hsame.width.symm, hheight.trans hsame.height.symm⟩

/-! ## Answers -/

/-- What a message makes the compositor do, if it comes as it should. -/
def perform (c : CompositorState) (request : Request) (fd : Int) :
    Except Fault (CompositorState × Int) :=
  match request with
  | .windowCreate name width height =>
    (compositorWindowCreate c name width height).map fun r => (r.1, r.2.1)
  | .windowAttachBuffer windowHandle _ => compositorWindowAttachBuffer c windowHandle fd
  | .windowCommit windowHandle x y width height =>
    compositorWindowCommit c windowHandle x y width height

variable {request : Request} {processHandle : Int} {descriptor : Option Int} {memory : Memory}
  {response : Message}

theorem respond_misplaced (h : descriptor.isSome ≠ request.sendsFd) :
    respond c request processHandle descriptor memory = (.ok { c with memory }, none) := by
  cases descriptor <;> cases request <;> first | rfl | exact absurd rfl h

theorem call_ok {α : Type} {default r : α}
    {f : CompositorState → Except Fault (CompositorState × α)} (h : f c = .ok (c', r)) :
    call default (.ok c) f = (.ok c', r) := by
  simp [call, Except.bind, h]

theorem call_error {α : Type} {default : α}
    {f : CompositorState → Except Fault (CompositorState × α)} (h : f c = .error fault) :
    call default (.ok c) f = (.error fault, default) := by
  simp [call, Except.bind, h]

theorem statusOf_eq_success_iff : statusOf result = .success ↔ result = 0 := by
  by_cases h : result = 0 <;> simp [statusOf, h]

/-- The request is performed, and its result is the status of the response. -/
theorem respond_ok (processHandle : Int) (h : descriptor.isSome = request.sendsFd)
    (hperform : perform { c with memory } request (descriptor.getD (-1)) = .ok (c', result)) :
    ∃ response, respond c request processHandle descriptor memory = (.ok c', some response) ∧
      (Succeeds response ↔ result = 0) := by
  cases request with
  | windowCreate name width height =>
    cases descriptor with
    | some fd => cases h
    | none =>
      cases hcreate : compositorWindowCreate { c with memory } name width height with
      | error fault => simp [perform, hcreate, Except.map] at hperform
      | ok r =>
        simp only [perform, hcreate, Except.map] at hperform
        cases hperform
        refine ⟨⟨.createWindowResponse, processHandle,
          .createWindowResponse (statusOf r.2.1) r.2.2⟩, ?_, statusOf_eq_success_iff⟩
        simp only [respond, processMessage, windowAbiCreate, commsSendRequest, Request.fill,
          windows]
        rw [call_ok hcreate]
  | windowAttachBuffer windowHandle bufferHandle =>
    cases descriptor with
    | none => cases h
    | some fd =>
      refine ⟨⟨.attachBufferResponse, processHandle,
        .attachBufferResponse (statusOf result)⟩, ?_, statusOf_eq_success_iff⟩
      simp only [respond, processFdMessage, windowAbiAttachBuffer, commsSendRequest, Request.fill,
        windows]
      rw [call_ok hperform]
  | windowCommit windowHandle x y width height =>
    cases descriptor with
    | some fd => cases h
    | none =>
      refine ⟨⟨.commitResponse, processHandle, .commitResponse (statusOf result)⟩, ?_,
        statusOf_eq_success_iff⟩
      simp only [respond, processMessage, windowAbiCommit, commsSendRequest, Request.fill, windows]
      rw [call_ok hperform]

theorem respond_error (processHandle : Int) (h : descriptor.isSome = request.sendsFd)
    (hperform : perform { c with memory } request (descriptor.getD (-1)) = .error fault) :
    (respond c request processHandle descriptor memory).1 = .error fault := by
  cases request with
  | windowCreate name width height =>
    cases descriptor with
    | some fd => cases h
    | none =>
      cases hcreate : compositorWindowCreate { c with memory } name width height with
      | ok r => simp [perform, hcreate, Except.map] at hperform
      | error fault =>
        simp only [perform, hcreate, Except.map] at hperform
        cases hperform
        simp only [respond, processMessage, windowAbiCreate, commsSendRequest, Request.fill,
          windows]
        rw [call_error hcreate]
  | windowAttachBuffer windowHandle bufferHandle =>
    cases descriptor with
    | none => cases h
    | some fd =>
      simp only [respond, processFdMessage, windowAbiAttachBuffer, commsSendRequest, Request.fill,
        windows]
      rw [call_error hperform]
  | windowCommit windowHandle x y width height =>
    cases descriptor with
    | some fd => cases h
    | none =>
      simp only [respond, processMessage, windowAbiCommit, commsSendRequest, Request.fill, windows]
      rw [call_error hperform]

/-- A request that comes as it should is survived exactly if the function of
the compositor returns. -/
theorem survives_iff (h : descriptor.isSome = request.sendsFd) :
    Survives c (.request request processHandle descriptor memory) ↔
      Returns (perform { c with memory } request (descriptor.getD (-1))) := by
  cases hperform : perform { c with memory } request (descriptor.getD (-1)) with
  | ok r =>
    obtain ⟨response, hrespond, _⟩ := respond_ok processHandle h hperform
    exact iff_of_true ⟨r.1, response, hrespond⟩ (returns_ok)
  | error fault =>
    apply iff_of_false _ not_returns_error
    rintro ⟨c', response, hrespond⟩
    have herror := respond_error processHandle h hperform
    rw [hrespond] at herror
    cases herror

theorem perform_returns_iff (hinv : Inv c) : Returns (perform c request bufferHandle) ↔
    match request with
    | .windowCreate name width height => CreateSound c name width height
    | .windowAttachBuffer windowHandle _ => AttachSound c windowHandle bufferHandle
    | .windowCommit windowHandle x y width height =>
      CommitSound c windowHandle x y width height := by
  cases request with
  | windowCreate name width height =>
    apply Iff.trans _ create_returns_iff
    cases hcreate : compositorWindowCreate c name width height <;>
      simp [perform, hcreate, Except.map]
  | windowAttachBuffer windowHandle bufferHandle => exact attach_returns_iff
  | windowCommit windowHandle x y width height => exact commit_returns_iff hinv

/-- What has been performed is kept in good windows. -/
theorem perform_inv (hinv : Inv c) (h : perform c request bufferHandle = .ok (c', result)) :
    Inv c' := by
  cases request with
  | windowCreate name width height =>
    cases hcreate : compositorWindowCreate c name width height with
    | error fault => simp [perform, hcreate, Except.map] at h
    | ok r =>
      simp only [perform, hcreate, Except.map] at h
      cases h
      obtain ⟨_, hsame, _⟩ | ⟨_, _, window, htable, hgood, _⟩ := create_spec hcreate
      · exact hsame ▸ hinv
      · exact hinv.append hgood htable
  | windowAttachBuffer windowHandle _ =>
    obtain ⟨_, rfl, _⟩ | ⟨window, process, contents, _, hget, rfl⟩ := attach_spec h
    · exact hinv
    · exact hinv.set (hinv.get hget).attach rfl
  | windowCommit windowHandle x y width height =>
    obtain ⟨_, rfl, _⟩ | ⟨window, framebuffer, _, hget, hcopied, rfl⟩ := commit_spec hinv h
    · exact hinv
    · exact hinv.set ((hinv.get hget).commit hcopied.same) rfl

/-! ## One step -/

theorem respond_inv (hinv : Inv c)
    (h : (respond c request processHandle descriptor memory).1 = .ok c') : Inv c' := by
  by_cases hplaced : descriptor.isSome = request.sendsFd
  · cases hperform : perform { c with memory } request (descriptor.getD (-1)) with
    | error fault => cases (respond_error processHandle hplaced hperform).symm.trans h
    | ok r =>
      obtain ⟨response, hrespond, _⟩ := respond_ok processHandle hplaced hperform
      rw [hrespond] at h
      cases h
      exact perform_inv (c := { c with memory }) hinv hperform
  · rw [respond_misplaced hplaced] at h
    cases h
    exact hinv

theorem Window.Good.draw {pixels : Nat → Word32} (h : Window.Good window) :
    Window.Good { window with
      buffer := window.buffer.map fun buffer => { buffer with pixels } } where
  whole := h.whole
  width := h.width
  height := h.height
  buffer drawn hdrawn := by
    obtain ⟨buffer, hbuffer, rfl⟩ := Option.map_eq_some_iff.mp hdrawn
    obtain ⟨hwhole, hwidth, hheight⟩ := h.buffer buffer hbuffer
    exact ⟨⟨hwhole.stride, hwhole.area, hwhole.size⟩, hwidth, hheight⟩

theorem inv_step {a : Action} (hinv : Inv c) (h : exec c a = .ok c') : Inv c' := by
  cases a with
  | request request processHandle descriptor memory => exact respond_inv hinv h
  | draw windowHandle pixels =>
    cases h
    unfold drawBuffer
    cases hget : compositorWindowGet c windowHandle with
    | none => exact hinv
    | some window => exact hinv.set (hinv.get hget).draw rfl
  | process process =>
    cases h
    exact hinv

theorem survives_iff_sound {a : Action} (hinv : Inv c) : Survives c a ↔ Sound c a := by
  cases a with
  | request request processHandle descriptor memory =>
    by_cases hplaced : descriptor.isSome = request.sendsFd
    · rw [survives_iff hplaced, perform_returns_iff (c := { c with memory }) hinv]
      cases request <;> simp [Sound, hplaced]
    · apply iff_of_false _ fun hsound => hplaced hsound.1
      rintro ⟨c', response, hrespond⟩
      rw [respond_misplaced hplaced] at hrespond
      cases hrespond
  | draw windowHandle pixels => exact Iff.rfl
  | process process => exact Iff.rfl

theorem setWidth_eq_iff : (width.setWidth 32).toNat = width.toNat ↔ width.toNat < 2 ^ 32 := by
  rw [BitVec.toNat_setWidth]
  omega

/-- A request that is performed is carried out as far as the numbers are exact. -/
theorem perform_exact (processHandle : Int) (hinv : Inv c)
    (h : perform { c with memory } request (descriptor.getD (-1)) = .ok (c', result)) :
    (result = 0 → CarriedOut c request c') ↔
      Exact c (.request request processHandle descriptor memory) := by
  cases request with
  | windowCreate name width height =>
    cases hcreate : compositorWindowCreate { c with memory } name width height with
    | error fault => simp [perform, hcreate, Except.map] at h
    | ok r =>
      simp only [perform, hcreate, Except.map] at h
      cases h
      obtain ⟨hresult, _, hnull⟩ | ⟨hresult, hblocks, window, htable, hgood, rfl, rfl⟩ :=
        create_spec hcreate
      · apply iff_of_true fun hzero => absurd hzero hresult
        intro hwindow hbitmap hdata
        simp [hwindow, hbitmap, hdata] at hnull
      · have hexact : Exact c (.request (.windowCreate name window.width window.height)
            processHandle descriptor memory) ↔
            window.width.toNat < 2 ^ 32 ∧ window.height.toNat < 2 ^ 32 :=
          ⟨fun h => h hblocks.1 hblocks.2.1 hblocks.2.2, fun h _ _ _ => h⟩
        rw [hexact, ← setWidth_eq_iff, ← setWidth_eq_iff, ← hgood.width, ← hgood.height]
        constructor
        · intro hcarried
          obtain ⟨window', htable', hsize⟩ := hcarried hresult
          obtain rfl : window = window' := by
            have hsame := htable.symm.trans htable'
            simpa using hsame
          exact hsize
        · exact fun hsize _ => ⟨window, htable, hsize⟩
  | windowAttachBuffer windowHandle bufferHandle =>
    apply iff_of_true _ trivial
    intro hzero
    obtain ⟨hresult, _⟩ | ⟨window, process, contents, _, hget, rfl⟩ := attach_spec h
    · exact absurd hzero hresult
    · exact ⟨_, get_set (c := { c with memory }) (by rw [hget]; rfl) rfl, rfl⟩
  | windowCommit windowHandle x y width height =>
    obtain ⟨hresult, _, hnone⟩ | ⟨window, framebuffer, hresult, hget, hcopied, rfl⟩ :=
      commit_spec (c := { c with memory }) hinv h
    · apply iff_of_true fun hzero => absurd hzero hresult
      intro window hget
      cases hnone.symm.trans hget
    · have hset : compositorWindowGet { c with
          memory
          windowTable := c.windowTable.set windowHandle.toNat { window with framebuffer } }
          windowHandle = some { window with framebuffer } :=
        get_set (c := { c with memory }) (by rw [hget]; rfl) rfl
      have hiff := hcopied.iff (Q := Asked x y width height)
      constructor
      · intro hcarried window' hget'
        obtain ⟨before, after, hbefore, hafter, hasked⟩ := hcarried hresult
        cases hget.symm.trans hget'
        cases hget.symm.trans hbefore
        cases hset.symm.trans hafter
        exact hiff.mp hasked
      · intro hexact _
        exact ⟨window, _, hget, hset, hiff.mpr (hexact window hget)⟩

theorem truthful_iff_exact {a : Action} (hinv : Inv c) (hsound : Sound c a) :
    Truthful c a ↔ Exact c a := by
  cases a with
  | request request processHandle descriptor memory =>
    obtain ⟨⟨c', result⟩, hperform⟩ :=
      (survives_iff hsound.1).mp ((survives_iff_sound (c := c) hinv).mpr hsound)
    obtain ⟨response, hrespond, hsucceeds⟩ :=
      respond_ok processHandle hsound.1 hperform
    rw [← perform_exact processHandle hinv hperform]
    constructor
    · exact fun htruthful hzero => htruthful c' response hrespond (hsucceeds.mpr hzero)
    · intro hcarried c₁ response₁ hrespond₁ hsuccess
      cases hrespond.symm.trans hrespond₁
      exact hcarried (hsucceeds.mp hsuccess)
  | draw windowHandle pixels => exact Iff.rfl
  | process process => exact Iff.rfl

/-! ## Runs of requests -/

/-- In every run and for one request more: all are survived exactly if all
are sound, and all are answered truthfully as well exactly if their numbers
are exact, too. -/
theorem clients_survived_iff {history : List (CompositorState × Action)} {a : Action}
    (h : Run Start Step history c) (ha : Sendable a) :
    ((∀ p ∈ (c, a) :: history, Survives p.1 p.2) ↔ ∀ p ∈ (c, a) :: history, Sound p.1 p.2) ∧
    ((∀ p ∈ (c, a) :: history, Survives p.1 p.2 ∧ Truthful p.1 p.2) ↔
      ∀ p ∈ (c, a) :: history, Sound p.1 p.2 ∧ Exact p.1 p.2) := by
  have hstart : ∀ c, Start c → Inv c := by
    intro c hc window hwindow
    rw [hc.1] at hwindow
    cases hwindow
  have hsurvives : ∀ c a, Inv c → Sendable a → (Survives c a ↔ Sound c a) :=
    fun c a hinv _ => survives_iff_sound hinv
  have htruthful : ∀ c a, Inv c → Sendable a →
      (Survives c a ∧ Truthful c a ↔ Sound c a ∧ Exact c a) := by
    intro c a hinv _
    rw [survives_iff_sound hinv]
    exact and_congr_right fun hsound => truthful_iff_exact hinv hsound
  exact ⟨h.tried_iff ha hstart (fun c a c' hinv _ hstep => inv_step hinv hstep.2)
      (fun _ _ _ hstep => hstep.1) hsurvives,
    h.tried_iff ha hstart (fun c a c' hinv _ hstep => inv_step hinv hstep.2)
      (fun _ _ _ hstep => hstep.1) htruthful⟩

end

/-! ## Two clients -/

def allBlocks : Memory := ⟨.block, .block, .block, .block, .block, .block, fun _ => 0⟩

/-- A window of one pixel without a name. -/
def onePixel : Request := .windowCreate (List.replicate nameSize 0) 1 1

def noWindow (process : Process) : CompositorState := ⟨[], 1024, process, allBlocks⟩

def newWindow (process : Process) : CompositorState :=
  match (respond (noWindow process) onePixel 1 none allBlocks).1 with
  | .ok c => c
  | .error _ => noWindow process

theorem onePixel_created (process : Process) :
    (respond (noWindow process) onePixel 1 none allBlocks).1 = .ok (newWindow process) := rfl

theorem newWindow_run (process : Process) : Run Start Step
    [(noWindow process, .request onePixel 1 none allBlocks)] (newWindow process) :=
  .next (.start ⟨rfl, rfl⟩) ⟨List.length_replicate, onePixel_created process⟩

theorem newWindow_get (process : Process) :
    ∃ window, compositorWindowGet (newWindow process) 0 = some window ∧ window.buffer = none ∧
      window.width = 1 ∧ window.height = 1 := ⟨_, rfl, rfl, rfl, rfl⟩

/-- The pixel of the window is asked for. -/
def commitPixel : Action := .request (.windowCommit 0 0 0 1 1) 1 none allBlocks

/-- The compositor reads from a buffer that is not there. -/
theorem commit_withoutBuffer : ∃ history c, Run Start Step history c ∧ Sendable commitPixel ∧
    ¬ Survives c commitPixel := by
  refine ⟨_, newWindow ProcessMemory.newProcess, newWindow_run _, trivial, ?_⟩
  rintro ⟨c', response, hrespond⟩
  have hfault : (respond (newWindow ProcessMemory.newProcess) (.windowCommit 0 0 0 1 1) 1 none
      allBlocks).1 = .error .nullBuffer := rfl
  rw [hrespond] at hfault
  cases hfault

/-- A process that has shared memory of one page at descriptor 5. -/
def sharingProcess : Process :=
  { ProcessMemory.newProcess with
    fdTable := fun fd => if fd = 5 then some (.sharedMemory ⟨[0x5000], by decide⟩) else none }

def attachPixel : Action := .request (.windowAttachBuffer 0 0) 1 (some 5) allBlocks

theorem onePixel_sound (process : Process) :
    Sound (noWindow process) (.request onePixel 1 none allBlocks) ∧
      Exact (noWindow process) (.request onePixel 1 none allBlocks) := by
  have hname : (0 : UInt8) ∈ List.replicate nameSize 0 := List.mem_replicate.mpr ⟨nofun, rfl⟩
  have hcreate : CreateSound (noWindow process) (List.replicate nameSize 0) 1 1 :=
    .inr ⟨rfl, hname, rfl, .inr ⟨rfl, .inr ⟨rfl, by decide, .inr rfl, rfl⟩⟩⟩
  exact ⟨⟨rfl, hcreate⟩, fun _ _ _ => by decide⟩

/-- The buffer of a window of one pixel is attached. -/
theorem attachPixel_run : ∃ c window buffer, Run Start Step
      [(newWindow sharingProcess, attachPixel),
        (noWindow sharingProcess, .request onePixel 1 none allBlocks)] c ∧
    Sound (newWindow sharingProcess) attachPixel ∧
    compositorWindowGet c 0 = some window ∧ window.buffer = some buffer ∧
    window.framebuffer.width = 1 ∧ window.framebuffer.height = 1 := by
  have hrun := newWindow_run sharingProcess
  obtain ⟨window, hget, _, hwidth, hheight⟩ := newWindow_get sharingProcess
  have hinv : Inv (newWindow sharingProcess) :=
    respond_inv (c := noWindow sharingProcess) nofun (onePixel_created _)
  have hgood := hinv.get hget
  have hsound : Sound (newWindow sharingProcess) attachPixel := by
    refine ⟨rfl, .inr ?_⟩
    intro window' hget'
    cases hget.symm.trans hget'
    rw [hwidth, hheight]
    exact ⟨by decide +kernel, rfl⟩
  have hplaced : (some 5 : Option Int).isSome = (Request.windowAttachBuffer 0 0).sendsFd := rfl
  obtain ⟨⟨c, result⟩, hperform⟩ : Returns (perform
      { newWindow sharingProcess with memory := allBlocks } (.windowAttachBuffer 0 0)
      ((some 5).getD (-1))) := (perform_returns_iff hinv).mpr hsound.2
  obtain ⟨response, hrespond, _⟩ := respond_ok 1 hplaced hperform
  have hstep : Step (newWindow sharingProcess) attachPixel c :=
    ⟨trivial, congrArg Prod.fst hrespond⟩
  obtain ⟨_, _, hfd | hnone⟩ | ⟨window', process, contents, _, hget', rfl⟩ := attach_spec hperform
  · cases hfd
  · cases hnone.symm.trans hget
  · cases hget.symm.trans hget'
    exact ⟨_, _, _, .next hrun hstep, hsound, get_set (by rw [hget']; rfl) rfl, rfl,
      by rw [hgood.width, hwidth]; rfl, by rw [hgood.height, hheight]; rfl⟩

/-- A buffer of one pixel is attached and copied. -/
theorem commit_withBuffer : ∃ history c, Run Start Step history c ∧
    Survives c commitPixel ∧ Truthful c commitPixel := by
  obtain ⟨c, window, buffer, hrun, hattach, hget, hbuffer, hwidth, hheight⟩ := attachPixel_run
  refine ⟨_, c, hrun, ?_⟩
  have hpixel : ∀ x0 y0, window.framebuffer.clips x0 y0 = false →
      (InRect 0 0 1 1 x0 y0 ↔ Asked 0 0 1 1 x0 y0) := by
    intro x0 y0 hclips
    obtain ⟨_, _, hx, hy⟩ := clips_eq_false_iff.mp hclips
    rw [hwidth] at hx
    rw [hheight] at hy
    exact iff_of_true (inRect_zero hx hy) ⟨⟨Nat.zero_le _, hx⟩, Nat.zero_le _, hy⟩
  have hcommit : Sound c commitPixel ∧ Exact c commitPixel := by
    constructor
    · refine ⟨rfl, fun window' hget' => .inl ?_⟩
      cases hget.symm.trans hget'
      rw [hbuffer]
      rfl
    · intro window' hget' x0 y0 hclips
      cases hget.symm.trans hget'
      exact .inl (hpixel x0 y0 hclips)
  have hall := (clients_survived_iff (a := commitPixel) hrun trivial).2.mpr (by
    intro p hp
    simp only [List.mem_cons, List.not_mem_nil, or_false] at hp
    rcases hp with rfl | rfl | rfl
    · exact hcommit
    · exact ⟨hattach, trivial⟩
    · exact onePixel_sound sharingProcess)
  exact hall _ List.mem_cons_self

end ZOs.Compositor.Survival
