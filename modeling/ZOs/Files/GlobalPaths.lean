import ZOs.Ipc.System

/-!
# Global paths

Channels, regions of shared memory and input devices share one table of
paths. What is at a path is a `file_t`: its `private_data` is a `void *`, and
of its `ops` a part is assigned. The functions that come by a file are
followed up to where they have the object behind it. What they do with the
object then, to its messages, events and pages, concerns no file: such a call
returns `none`. The messages that carry descriptors are kept, since the file
of their sender is looked up when they are received.
-/

namespace ZOs.GlobalPaths

open Ipc (HandleTable handleTableGet)

abbrev Word := BitVec 64

/-- Which file a `file_t *` points to: its place in `g_file_table`. -/
abbrev FileId := Nat

abbrev ProcessId := Nat

abbrev ChannelId := Nat

abbrev EndpointId := Nat

/-- The bytes of a C string. -/
abbrev Path := List UInt8

/-! ## Files -/

/-- The functions of `file_ops_t` that the kernel has. -/
inductive Operation
  | inputFileOpen
  | inputFileRead
  | channelFileRead
  | channelFileWrite
  | channelFileClose
  | sharedMemoryRead
  | sharedMemoryWrite
  | sharedMemoryClose
  deriving DecidableEq

/-- A pointer of `file_ops_t`. One that is not assigned is what the stack held
where the `file_t` was built. -/
inductive Slot
  | null
  | function (operation : Operation)
  | unassigned (word : Word)
  deriving DecidableEq

/-- `file_ops_t`. -/
structure FileOps where
  open' : Slot
  read : Slot
  write : Slot
  close : Slot

/-- What `private_data` points to. -/
inductive PrivateData
  | channel (c : ChannelId)
  | channelFile (e : EndpointId)
  | sharedMemory (m : Nat)
  | inputDevice (d : Nat)
  | inputFile (i : Nat)
  | process (p : ProcessId)
  deriving DecidableEq

namespace PrivateData

def channel? : PrivateData → Option ChannelId
  | .channel c => some c
  | _ => none

def channelFile? : PrivateData → Option EndpointId
  | .channelFile e => some e
  | _ => none

def sharedMemory? : PrivateData → Option Nat
  | .sharedMemory m => some m
  | _ => none

def inputDevice? : PrivateData → Option Nat
  | .inputDevice d => some d
  | _ => none

def inputFile? : PrivateData → Option Nat
  | .inputFile i => some i
  | _ => none

def process? : PrivateData → Option ProcessId
  | .process p => some p
  | _ => none

end PrivateData

/-- `file_t`. -/
structure File where
  handle : Word
  path : Option Path
  refCount : Word
  privateData : PrivateData
  ops : FileOps
  flags : BitVec 32

/-- `channel_file_t`, without its lists. -/
structure ChannelFile where
  sourceChannel : FileId
  flags : BitVec 32

/-- `channel_message_fd_t`, without its payload. -/
structure FdMessage where
  processFd : Word
  fd : Word

/-- `shared_memory_t`, without its pages. -/
structure SharedMemory where
  size : Word
  pagesOwned : Bool

/-- `input_device_t`. -/
structure InputDevice where
  type : BitVec 32
  inputFiles : List Nat
  handle : Word

/-- What the kernel runs in: which requests of memory and of pages are granted,
what a slot that is not assigned holds, and where the functions are. -/
structure Env where
  kmallocOk : Nat → Bool
  pagesOk : Nat → Bool
  stack : Nat → Word
  address : Operation → Word
  address_ne_zero : ∀ operation, address operation ≠ 0
  address_injective : Function.Injective address

structure State where
  kmallocs : Nat
  fileTable : HandleTable File
  pathTable : Path → Option FileId
  channels : ChannelId → List EndpointId
  channelCount : Nat
  channelFiles : EndpointId → ChannelFile
  channelFileCount : Nat
  fdMessages : EndpointId → List FdMessage
  sharedMemories : Nat → SharedMemory
  sharedMemoryCount : Nat
  inputDevices : Nat → InputDevice
  inputDeviceCount : Nat
  /-- the device of each input file -/
  inputFiles : Nat → Nat
  inputFileCount : Nat
  processHandles : ProcessId → Word
  fdTables : ProcessId → HandleTable FileId
  processCount : Nat

/-- After `file_table_init`. -/
def State.init : State where
  kmallocs := 0
  fileTable := ⟨[], 64⟩
  pathTable := fun _ => none
  channels := fun _ => []
  channelCount := 0
  channelFiles := fun _ => ⟨0, 0⟩
  channelFileCount := 0
  fdMessages := fun _ => []
  sharedMemories := fun _ => ⟨0, false⟩
  sharedMemoryCount := 0
  inputDevices := fun _ => ⟨0, [], 0⟩
  inputDeviceCount := 0
  inputFiles := fun _ => 0
  inputFileCount := 0
  processHandles := fun _ => 0
  fdTables := fun _ => ⟨[], 64⟩
  processCount := 0

/-- Why a call does not return: an assertion with its text, a NULL pointer is
followed, a file is used as what it is not, or a pointer is called that was
not assigned. -/
inductive Fault
  | assertion (condition : String)
  | nullPointer
  | typeConfusion
  | wildCall
  deriving DecidableEq

/-- What a call returns, `none` for what depends on the object, and the state. -/
abbrev Result := Except Fault (Option Int × State)

def assert (condition : Bool) (text : String) : Except Fault Unit :=
  if condition then .ok () else .error (.assertion text)

/-- The word in a slot. -/
def Slot.word (env : Env) : Slot → Word
  | .null => 0
  | .function operation => env.address operation
  | .unassigned word => word

/-- `private_data` as a pointer to one type. -/
def File.use {α : Type} (file : File) (select : PrivateData → Option α) : Except Fault α :=
  match select file.privateData with
  | some object => .ok object
  | none => .error .typeConfusion

/-- The file that a `file_t *` points to. -/
def fileAt (s : State) (f : FileId) : Option File := (s.fileTable.handles[f]?).join

def load (s : State) (f : FileId) : Except Fault File :=
  match fileAt s f with
  | some file => .ok file
  | none => .error .nullPointer

/-- A store to a file. -/
def modifyFile (s : State) (f : FileId) (g : File → File) : State :=
  { s with fileTable :=
    { s.fileTable with handles := s.fileTable.handles.modify f (Option.map g) } }

section
variable (env : Env)

/-! ## The tables -/

/-- `kmalloc`: whether it found memory. -/
def kmalloc (s : State) : Bool × State :=
  (env.kmallocOk s.kmallocs, { s with kmallocs := s.kmallocs + 1 })

/-- `kmalloc` of `n` pointers. There is no block of `2 ^ 63` bytes. -/
def kmallocPointers (s : State) (n : Nat) : Bool × State :=
  (env.kmallocOk s.kmallocs && decide (n * 8 < 2 ^ 63), { s with kmallocs := s.kmallocs + 1 })

/-- `handle_table_insert`: the handle, `none` for -1. A vector that is full
doubles its capacity before there is a block for it. -/
def handleTableInsert {α : Type} (s : State) (table : HandleTable α) (data : α) :
    Option Word × HandleTable α × State :=
  let handle := BitVec.ofNat 64 table.handles.length
  if table.handles.length < table.capacity then
    (some handle, { table with handles := table.handles ++ [some data] }, s)
  else
    let table := { table with capacity := table.capacity * 2 }
    match kmallocPointers env s table.capacity with
    | (false, s) => (none, table, s)
    | (true, s) => (some handle, { table with handles := table.handles ++ [some data] }, s)

/-- `hash_table_set` on `g_file_path_table`: whether it succeeded. -/
def hashTableSet (s : State) (path : Path) (f : FileId) : Bool × State :=
  let set (s : State) : State :=
    { s with pathTable := Function.update s.pathTable path (some f) }
  match s.pathTable path with
  | some _ => (true, set s)
  | none =>
    match kmalloc env s with
    | (false, s) => (false, s)
    | (true, s) => (true, set s)

/-- `file_table_open`: the handle, `none` for -1. The file is stored when the
entries lead to it, and freed if there is no entry for its path. -/
def fileTableOpen (s : State) (path : Option Path) (file : File) :
    Except Fault (Option Word × State) :=
  match kmalloc env s with
  | (false, s) => .ok (none, s)
  | (true, s) =>
    let f := s.fileTable.handles.length
    let handle := BitVec.ofNat 64 f
    match handleTableInsert env s s.fileTable { file with path, handle } with
    | (none, fileTable, s) => .ok (none, { s with fileTable })
    | (some handle, fileTable, s) =>
      match path with
      | none => .ok (some handle, { s with fileTable })
      | some path => do
        let (ok, s) := kmalloc env s
        assert ok "path_copy != NULL"
        match hashTableSet env s path f with
        | (true, s) => return (some handle, { s with fileTable })
        | (false, s) =>
          return (none,
            { s with fileTable := { fileTable with handles := fileTable.handles.set f none } })

/-- `file_table_get`: `none` for -1, else the pointer, which may be NULL. -/
def fileTableGet (s : State) (handle : Word) : Option (Option FileId) :=
  (handleTableGet s.fileTable handle).map (·.map fun _ => handle.toNat)

/-- `assert(file_table_open(path, file_descriptor, global_handle) == 0)`. -/
def openFile (s : State) (path : Option Path) (file : File) : Except Fault (Word × State) := do
  let (handle, s) ← fileTableOpen env s path file
  match handle with
  | none => .error (.assertion "file_table_open(path, file_descriptor, global_handle) == 0")
  | some handle => return (handle, s)

/-- The new file behind a handle, with the assertions that follow. -/
def getFile (s : State) (handle : Word) : Except Fault FileId :=
  match fileTableGet s handle with
  | none => .error (.assertion "file_table_get(global_handle, &file_object) == 0")
  | some none => .error (.assertion "file_object != NULL")
  | some (some f) => .ok f

/-- `fd_table_open`: whether it succeeded. -/
def fdTableOpen (s : State) (p : ProcessId) (f : FileId) : Bool × State :=
  let (fd, table, s) := handleTableInsert env s (s.fdTables p) f
  (fd.isSome, { s with fdTables := Function.update s.fdTables p table })

/-- `fd_table_get`: `none` for -1, else the pointer, which may be NULL. -/
def fdTableGet (s : State) (p : ProcessId) (fd : Word) : Option (Option FileId) :=
  if fd.toInt < 0 then none else handleTableGet (s.fdTables p) fd

/-! ## Processes -/

/-- The end of `process_init`: a new process with its file. -/
def processInit (s : State) : Result :=
  match kmalloc env s with
  | (false, s) => .ok (some (-1), s)
  | (true, s) => do
    let p := s.processCount
    let (handle, s) ← openFile env s none
      { handle := 0, path := none, refCount := 1, privateData := .process p
        ops := ⟨.null, .null, .null, .null⟩, flags := 0 }
    return (some 0,
      { s with
        processHandles := Function.update s.processHandles p handle
        fdTables := Function.update s.fdTables p ⟨[], 64⟩
        processCount := p + 1 })

/-! ## Channels -/

/-- `channel_create`, and the new file. -/
def channelCreate (s : State) (path : Path) : Except Fault (FileId × State) := do
  let (ok, s) := kmalloc env s
  assert ok "channel_create(path, &channel, &global_handle) == 0"
  let c := s.channelCount
  let s := { s with channels := Function.update s.channels c [], channelCount := c + 1 }
  let (handle, s) ← openFile env s (some path)
    { handle := 0, path := none, refCount := 1, privateData := .channel c
      ops := ⟨.unassigned (env.stack s.kmallocs), .null, .null, .null⟩, flags := 0 }
  let f ← getFile s handle
  return (f, s)

/-- The file that `channel_open` takes for a channel. -/
def channelAt (s : State) (path : Path) : Except Fault (FileId × State) :=
  match s.pathTable path with
  | some f => do
    let _ ← load s f
    return (f, modifyFile s f fun file => { file with refCount := file.refCount + 1 })
  | none => channelCreate env s path

/-- `channel_open` from where it has a file: a new endpoint of its channel. -/
def channelFileCreate (s : State) (p : ProcessId) (f : FileId) (flags : BitVec 32) : Result := do
  let (ok, s) := kmalloc env s
  assert ok "channel_file != NULL"
  let e := s.channelFileCount
  let file ← load s f
  let c ← file.use PrivateData.channel?
  let (ok, s) := kmalloc env s
  assert ok
    "linked_list_insert(&channel->endpoints, channel_file, &channel_file->endpoint_node) == 0"
  let s :=
    { s with
      channels := Function.update s.channels c (s.channels c ++ [e])
      channelFiles := Function.update s.channelFiles e ⟨f, flags⟩
      channelFileCount := e + 1
      fdMessages := Function.update s.fdMessages e [] }
  let (handle, s) ← openFile env s none
    { handle := 0, path := none, refCount := 1, privateData := .channelFile e
      ops := ⟨.unassigned (env.stack s.kmallocs), .function .channelFileRead,
        .function .channelFileWrite, .function .channelFileClose⟩
      flags }
  let f ← getFile s handle
  let (ok, s) := fdTableOpen env s p f
  assert ok "fd_table_open(fd_table, file_object, fd) == 0"
  return (some 0, s)

/-- `channel_open`. -/
def channelOpen (s : State) (p : ProcessId) (path : Option Path) (fd : Word) (flags : BitVec 32) :
    Result :=
  match path with
  | none => .ok (some (-1), s)
  | some path =>
    if fd = 0 then .ok (some (-1), s)
    else do
      let (f, s) ← channelAt env s path
      channelFileCreate env s p f flags

/-! ## Shared memory -/

/-- The file of `shared_memory_create` and of
`shared_memory_create_from_contiguous_pages`. -/
def sharedMemoryFile (s : State) (path : Path) (memory : SharedMemory) :
    Except Fault (Word × State) := do
  let m := s.sharedMemoryCount
  let s :=
    { s with
      sharedMemories := Function.update s.sharedMemories m memory
      sharedMemoryCount := m + 1 }
  openFile env s (some path)
    { handle := 0, path := none, refCount := 1, privateData := .sharedMemory m
      ops := ⟨.unassigned (env.stack s.kmallocs), .function .sharedMemoryRead,
        .function .sharedMemoryWrite, .function .sharedMemoryClose⟩
      flags := 0 }

/-- `shared_memory_create` with its object, its vector and its pages. -/
def sharedMemoryCreate (s : State) (path : Path) (size : Word) : Except Fault (FileId × State) := do
  let (ok, s) := kmalloc env s
  assert ok "shared_memory_create(path, size, &shared_memory, &global_handle) == 0"
  let (ok, s) := kmalloc env s
  assert ok "shared_memory_create(path, size, &shared_memory, &global_handle) == 0"
  assert (env.pagesOk s.kmallocs) "page_alloc_block(PAGE_ALLOC_ORDER_4KB, &page_address) == 0"
  let (handle, s) ← sharedMemoryFile env s path ⟨size, true⟩
  let f ← getFile s handle
  return (f, s)

/-- `shared_memory_create_from_contiguous_pages`. -/
def sharedMemoryCreateFromContiguousPages (s : State) (path : Path) (size : Word) : Result :=
  match kmalloc env s with
  | (false, s) => .ok (some (-1), s)
  | (true, s) =>
    match kmalloc env s with
    | (false, s) => .ok (some (-1), s)
    | (true, s) => do
      assert (env.pagesOk s.kmallocs) "vector_push_back(&shared_memory->pages, &page_address) == 0"
      let (_, s) ← sharedMemoryFile env s path ⟨size, false⟩
      return (some 0, s)

/-- `shared_memory_open`. -/
def sharedMemoryOpen (s : State) (p : ProcessId) (path : Option Path) (size fd : Word) : Result :=
  match path with
  | none => .ok (some (-1), s)
  | some path =>
    if fd = 0 then .ok (some (-1), s)
    else
      match s.pathTable path with
      | some f => do
        let file ← load s f
        if file.ops.read.word env ≠ env.address .sharedMemoryRead then
          return (some (-1), s)
        else do
          let _ ← file.use PrivateData.sharedMemory?
          let s := modifyFile s f fun file => { file with refCount := file.refCount + 1 }
          let (ok, s) := fdTableOpen env s p f
          assert ok "fd_table_open(fd_table, file_object, fd) == 0"
          return (some 0, s)
      | none => do
        let (f, s) ← sharedMemoryCreate env s path size
        let (ok, s) := fdTableOpen env s p f
        assert ok "fd_table_open(fd_table, file_object, fd) == 0"
        return (some 0, s)

/-! ## Input devices -/

/-- `input_device_create`. -/
def inputDeviceCreate (s : State) (path : Option Path) (type : BitVec 32) : Result :=
  match kmalloc env s with
  | (false, s) => .ok (some (-1), s)
  | (true, s) => do
    let d := s.inputDeviceCount
    let s := { s with inputDeviceCount := d + 1 }
    let (handle, s) ← openFile env s path
      { handle := 0, path := none, refCount := 1, privateData := .inputDevice d
        ops := ⟨.function .inputFileOpen, .null, .null, .null⟩, flags := 0 }
    return (some 0,
      { s with inputDevices := Function.update s.inputDevices d ⟨type, [], handle⟩ })

/-- `input_file_open`, with `input_file_create`. -/
def inputFileOpen (s : State) (p : ProcessId) (f : FileId) (flags : BitVec 32) : Result := do
  let file ← load s f
  let d ← file.use PrivateData.inputDevice?
  assert file.path.isSome "input_file_create(file->path, input_device, &global_handle) == 0"
  let (ok, s) := kmalloc env s
  assert ok "input_file != NULL"
  let i := s.inputFileCount
  let s := { s with inputFiles := Function.update s.inputFiles i d, inputFileCount := i + 1 }
  let (handle, s) ← openFile env s none
    { handle := 0, path := none, refCount := 1, privateData := .inputFile i
      ops := ⟨.null, .function .inputFileRead, .null, .null⟩, flags := 0 }
  let (ok, s) := kmalloc env s
  assert ok "linked_list_insert(&input_device->input_files, (void *)input_file, &node) == 0"
  let inputFiles := (s.inputDevices d).inputFiles ++ [i]
  let device := { s.inputDevices d with inputFiles }
  let s := { s with inputDevices := Function.update s.inputDevices d device }
  let f ← getFile s handle
  let s := modifyFile s f fun file => { file with flags }
  let (ok, s) := fdTableOpen env s p f
  return (some (if ok then 0 else -1), s)

/-! ## Calls on files -/

/-- `file_open`. -/
def fileOpen (s : State) (p : ProcessId) (path : Option Path) (fd : Word) (flags : BitVec 32) :
    Result :=
  match path with
  | none => .ok (some (-1), s)
  | some path =>
    if fd = 0 then .ok (some (-1), s)
    else
      match s.pathTable path with
      | none => .ok (some (-1), s)
      | some f => do
        let file ← load s f
        if file.ops.open'.word env = 0 then return (some (-1), s)
        else
          match file.ops.open' with
          | .function .inputFileOpen => inputFileOpen env s p f flags
          | _ => .error .wildCall

/-- `channel_file_write` on its object, the channel included. -/
def channelFileWrite (s : State) (file : File) : Result := do
  let e ← file.use PrivateData.channelFile?
  let source ← load s (s.channelFiles e).sourceChannel
  let _ ← source.use PrivateData.channel?
  return (none, s)

/-- A call of a `read`, a `write` or a `close`. -/
def callOperation (s : State) (file : File) (slot : Slot) (size : Word) : Result :=
  match slot with
  | .function .channelFileRead => do
    let _ ← file.use PrivateData.channelFile?
    return (none, s)
  | .function .channelFileWrite => channelFileWrite s file
  | .function .channelFileClose => .ok (some (-1), s)
  | .function .inputFileRead =>
    -- sizeof(input_device_event_t)
    if size < 8 then .ok (some (-1), s)
    else do
      let _ ← file.use PrivateData.inputFile?
      return (none, s)
  | .function .sharedMemoryRead | .function .sharedMemoryWrite | .function .sharedMemoryClose =>
    .error (.assertion "0")
  | .function .inputFileOpen | .unassigned _ => .error .wildCall
  | .null => .error .nullPointer

/-- `file_read`, `file_write` and `file_close` behind their checks of the
arguments, with the slot that they call. -/
def fileCall (s : State) (p : ProcessId) (fd size : Word) (slot : FileOps → Slot) : Result :=
  match fdTableGet s p fd with
  | none => .ok (some (-1), s)
  | some none => .error (.assertion "file != NULL")
  | some (some f) => do
    let file ← load s f
    assert (decide ((slot file.ops).word env ≠ 0)) "file->ops != NULL"
    callOperation s file (slot file.ops) size

/-- `file_read`. -/
def fileRead (s : State) (p : ProcessId) (fd buffer size : Word) : Result :=
  if fd.toInt < 0 ∨ buffer = 0 ∨ size = 0 then .ok (some (-1), s)
  else fileCall env s p fd size FileOps.read

/-- `file_write`. -/
def fileWrite (s : State) (p : ProcessId) (fd buffer size : Word) : Result :=
  if fd.toInt < 0 ∨ buffer = 0 ∨ size = 0 then .ok (some (-1), s)
  else fileCall env s p fd size FileOps.write

/-- `file_close`. -/
def fileClose (s : State) (p : ProcessId) (fd : Word) : Result :=
  if fd.toInt < 0 then .ok (some (-1), s) else fileCall env s p fd 0 FileOps.close

/-- The file of a descriptor, with the assertions on it. -/
def fdFile (s : State) (p : ProcessId) (fd : Word) : Except Fault File :=
  match fdTableGet s p fd with
  | none => .error (.assertion "fd_table_get(&thread->process->fd_table, fd, &file_object) == 0")
  | some none => .error (.assertion "file_object != NULL")
  | some (some f) => load s f

/-- `channel_send`. -/
def channelSend (s : State) (p : ProcessId) (fd data size : Word) : Result :=
  if fd = -1 ∨ data = 0 ∨ size = 0 then .ok (some (-1), s)
  else do
    let file ← fdFile s p fd
    assert (decide (file.ops.write.word env = env.address .channelFileWrite))
      "file_object->ops.write == channel_file_write"
    callOperation s file file.ops.write size

/-- `channel_recv`. -/
def channelRecv (s : State) (p : ProcessId) (fd data size : Word) : Result :=
  if fd = -1 ∨ data = 0 ∨ size = 0 then .ok (some (-1), s)
  else do
    let file ← fdFile s p fd
    assert (decide (file.ops.read.word env = env.address .channelFileRead))
      "file_object->ops.read == channel_file_read"
    callOperation s file file.ops.read size

/-- The endpoint and the channel of a descriptor, with the assertions of
`channel_send_fd` and `channel_recv_fd`. -/
def channelFileOf (s : State) (p : ProcessId) (channelFd : Word) :
    Except Fault (EndpointId × ChannelId) := do
  let file ← fdFile s p channelFd
  assert (decide (file.ops.read.word env = env.address .channelFileRead))
    "file_object->ops.read == channel_file_read"
  let e ← file.use PrivateData.channelFile?
  let source ← load s (s.channelFiles e).sourceChannel
  let c ← source.use PrivateData.channel?
  return (e, c)

/-- The loop of `channel_send_fd`. An endpoint for which there is no list node
does not get the message. -/
def fanOut (sender : EndpointId) (message : FdMessage) : List EndpointId → State → State
  | [], s => s
  | e :: rest, s =>
    if e = sender then fanOut sender message rest s
    else
      match kmalloc env s with
      | (false, s) => fanOut sender message rest s
      | (true, s) =>
        let messages := s.fdMessages e ++ [message]
        fanOut sender message rest
          { s with fdMessages := Function.update s.fdMessages e messages }

/-- `channel_send_fd`. -/
def channelSendFd (s : State) (p : ProcessId) (channelFd fd : Word) : Result :=
  if channelFd = -1 ∨ fd = -1 then .ok (some (-1), s)
  else do
    let (e, c) ← channelFileOf env s p channelFd
    let (ok, s) := kmalloc env s
    assert ok "message_object != NULL"
    let (ok, s) := kmalloc env s
    assert ok "new_data != NULL"
    return (some 0, fanOut env e ⟨s.processHandles p, fd⟩ (s.channels c) s)

/-- `channel_recv_fd` from the peek on: the descriptor is looked up in the
sender's process and opened in the receiver's. -/
def receiveFd (s : State) (p : ProcessId) (e : EndpointId) : Result :=
  match s.fdMessages e with
  | [] => .error (.assertion "message_node != NULL")
  | message :: rest =>
    match fileTableGet s message.processFd with
    | none =>
      .error (.assertion "file_table_get(message_object->process_fd, &source_process_file) == 0")
    | some none => .error .nullPointer
    | some (some f) => do
      let processFile ← load s f
      let source ← processFile.use PrivateData.process?
      match fdTableGet s source message.fd with
      | none => .error (.assertion
          "fd_table_get(&source_process->fd_table, message_object->fd, &source_fd_file) == 0")
      | some none => .error (.assertion "source_fd_file != NULL")
      | some (some file) =>
        let (ok, s) := fdTableOpen env s p file
        assert ok "fd_table_open(&thread->process->fd_table, source_fd_file, fd) == 0"
        return (none, { s with fdMessages := Function.update s.fdMessages e rest })

/-- `channel_recv_fd`. Without a message it returns or waits. -/
def channelRecvFd (s : State) (p : ProcessId) (channelFd fd : Word) : Result :=
  if channelFd = -1 ∨ fd = 0 then .ok (some (-1), s)
  else do
    let (e, _) ← channelFileOf env s p channelFd
    if (s.fdMessages e).isEmpty then return (none, s) else receiveFd env s p e

/-- The shared memory that `process_mmap` maps. -/
def processMmapShared (s : State) (p : ProcessId) (fd : Word) : Result := do
  assert (decide (0 ≤ fd.toInt)) "fd >= 0"
  let file ← fdFile s p fd
  assert (decide (file.ops.read.word env = env.address .sharedMemoryRead))
    "file->ops.read == shared_memory_read"
  assert (decide (file.ops.write.word env = env.address .sharedMemoryWrite))
    "file->ops.write == shared_memory_write"
  assert (decide (file.ops.close.word env = env.address .sharedMemoryClose))
    "file->ops.close == shared_memory_close"
  let _ ← file.use PrivateData.sharedMemory?
  return (none, s)

/-! ## Runs -/

inductive Action
  | processInit
  | inputDeviceCreate (path : Option Path) (type : BitVec 32)
  | sharedMemoryCreateFromContiguousPages (path : Path) (size : Word)
  | channelOpen (p : ProcessId) (path : Option Path) (fd : Word) (flags : BitVec 32)
  | sharedMemoryOpen (p : ProcessId) (path : Option Path) (size fd : Word)
  | fileOpen (p : ProcessId) (path : Option Path) (fd : Word) (flags : BitVec 32)
  | fileRead (p : ProcessId) (fd buffer size : Word)
  | fileWrite (p : ProcessId) (fd buffer size : Word)
  | fileClose (p : ProcessId) (fd : Word)
  | channelSend (p : ProcessId) (fd data size : Word)
  | channelRecv (p : ProcessId) (fd data size : Word)
  | channelSendFd (p : ProcessId) (channelFd fd : Word)
  | channelRecvFd (p : ProcessId) (channelFd fd : Word)
  /-- a thread that waits in `channel_recv_fd` goes on -/
  | resume (p : ProcessId) (e : EndpointId)
  | processMmapShared (p : ProcessId) (fd : Word)

def exec (s : State) : Action → Result
  | .processInit => processInit env s
  | .inputDeviceCreate path type => inputDeviceCreate env s path type
  | .sharedMemoryCreateFromContiguousPages path size =>
    sharedMemoryCreateFromContiguousPages env s path size
  | .channelOpen p path fd flags => channelOpen env s p path fd flags
  | .sharedMemoryOpen p path size fd => sharedMemoryOpen env s p path size fd
  | .fileOpen p path fd flags => fileOpen env s p path fd flags
  | .fileRead p fd buffer size => fileRead env s p fd buffer size
  | .fileWrite p fd buffer size => fileWrite env s p fd buffer size
  | .fileClose p fd => fileClose env s p fd
  | .channelSend p fd data size => channelSend env s p fd data size
  | .channelRecv p fd data size => channelRecv env s p fd data size
  | .channelSendFd p channelFd fd => channelSendFd env s p channelFd fd
  | .channelRecvFd p channelFd fd => channelRecvFd env s p channelFd fd
  | .resume p e => if (s.fdMessages e).isEmpty then .ok (none, s) else receiveFd env s p e
  | .processMmapShared p fd => processMmapShared env s p fd

/-- The process that makes a call, if one does. -/
def Action.caller : Action → Option ProcessId
  | .processInit | .inputDeviceCreate .. | .sharedMemoryCreateFromContiguousPages .. => none
  | .channelOpen p .. | .sharedMemoryOpen p .. | .fileOpen p .. | .fileRead p .. | .fileWrite p ..
  | .fileClose p _ | .channelSend p .. | .channelRecv p .. | .channelSendFd p ..
  | .channelRecvFd p .. | .resume p _ | .processMmapShared p _ => some p

/-- A call is made by a process that there is. -/
def Enabled (s : State) (a : Action) : Prop := ∀ p ∈ a.caller, p < s.processCount

def Step (s : State) (a : Action) (s' : State) : Prop :=
  Enabled s a ∧ ∃ value, exec env s a = .ok (value, s')

end

end ZOs.GlobalPaths
