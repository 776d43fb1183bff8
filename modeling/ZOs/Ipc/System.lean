import ZOs.Sched.Scheduler

/-!
# Channels, input files and the threads that wait for them

`channel.c` and `input_file.c` over the scheduler, with what they use of the
file table and the descriptor tables. A linked list is named by where its
`linked_list_t` is (`ListAddr`), its content being the `data` pointers from
head to tail; threads, endpoints and messages are named by numbers.

A message keeps the value it was sent with. Whether its memory may still be
used is left to `record.heap`, which notes each time a message object or its
payload is read or given to kfree. The rest of `record` is kept beside the
state as well: where the log of messages stood when an endpoint was opened,
which messages it has received, and what the calls of `channel_file_read`
returned. The code reads none of it.

A call that blocks leaves its arguments in `calls`. When its thread is
dispatched again, the loop is entered once more.
-/

namespace ZOs.Ipc

open Scheduler (ThreadId ProcessId Kernel Word CpuRegisters ExceptionFrame idleThread)

/-- Which endpoint a `channel_file_t *` points to. -/
abbrev EndpointId := Nat

/-- Which channel a `channel_t *` points to. -/
abbrev ChannelId := Nat

/-- Which input file an `input_file_t *` points to. -/
abbrev InputFileId := Nat

/-- Which message a `channel_message_t *` or `channel_message_fd_t *` points
to: its position among all messages sent. -/
abbrev MessageId := Nat

/-- Which file a `file_t *` points to: its handle in the file table. -/
abbrev FileId := Nat

/-- `O_NONBLOCK`. -/
def oNonblock : BitVec 32 := 0x800

/-- `INPUT_FILE_EVENT_BUFFER_SIZE`. -/
def inputFileEventBufferSize : Nat := 200

/-- `sizeof(input_device_event_t)`. -/
def inputDeviceEventSize : Word := 8

/-- The two kinds of messages: `channel_message_t`, sent and received by
write and read, and `channel_message_fd_t`, by `channel_send_fd` and
`channel_recv_fd`. -/
inductive MessageKind
  | data | fd
  deriving DecidableEq

/-- Where a linked list is: `channel->endpoints`, `messages` or
`fd_messages`, `recv_waiters` or `recv_fd_waiters`, and `event_waiters`. -/
inductive ListAddr
  | endpoints (c : ChannelId)
  | messages (kind : MessageKind) (e : EndpointId)
  | recvWaiters (kind : MessageKind) (e : EndpointId)
  | eventWaiters (i : InputFileId)
  deriving DecidableEq

/-- `channel_file_t` without its lists, which are at `ListAddr`s. -/
structure ChannelFile where
  sourceChannel : ChannelId
  flags : BitVec 32

/-- `input_device_event_t`. -/
inductive InputDeviceEvent
  | keyDown (keycode : UInt8)
  | keyUp (keycode : UInt8)
  | mouseDown (button : UInt8)
  | mouseUp (button : UInt8)
  | mouseMove (deltaX deltaY : Int8)

/-- `input_file_t` with the flags of its file; the ring buffer is the list
of the events in it. -/
structure InputFile where
  flags : BitVec 32
  eventRingBuffer : List InputDeviceEvent

/-- The `data` and `size` arguments of a call, and the bytes that memory
holds from `data` on. -/
structure UserBuffer where
  data : Word
  size : Word
  bytes : Nat → UInt8

/-- The payload of a message: `size` bytes. -/
structure Payload where
  size : Word
  bytes : Nat → UInt8

/-- What a call writes to the user's buffer. -/
inductive UserData
  | payload (p : Payload)
  | event (event : InputDeviceEvent)

/-- `channel_message_t` or `channel_message_fd_t`, with the endpoint that
sent it. -/
structure Message where
  kind : MessageKind
  sender : EndpointId
  payload : Payload
  processFd : Word
  fd : Word

/-- The message of `channel_file_write`. -/
def dataMessage (e : EndpointId) (buffer : UserBuffer) : Message where
  kind := .data
  sender := e
  payload := { size := buffer.size, bytes := buffer.bytes }
  processFd := 0
  fd := 0

/-- The message of `channel_send_fd`. -/
def fdMessage (e : EndpointId) (processFd fd : Word) (buffer : UserBuffer) : Message where
  kind := .fd
  sender := e
  payload := { size := buffer.size, bytes := buffer.bytes }
  processFd
  fd

/-- What `private_data` points to. -/
inductive PrivateData
  | channel (c : ChannelId)
  | channelFile (e : EndpointId)
  | inputFile (i : InputFileId)
  | process (p : ProcessId)

/-- `file_t`. -/
structure File where
  path : Option String
  privateData : PrivateData
  flags : BitVec 32

/-- `handle_table_t`: its vector of pointers, NULL for a closed handle. -/
structure HandleTable (α : Type) where
  handles : List (Option α)
  capacity : Nat

/-- An access to the memory of a message. -/
inductive HeapEvent
  | readObject (m : MessageId)
  | readPayload (m : MessageId)
  | freePayload (m : MessageId)
  | freeObject (m : MessageId)
  deriving DecidableEq

/-- A return of `channel_file_read`: the messages and the lists when it
looked for a message, the lists when it returned, the value, and what it
copied to the user. -/
structure ReadRecord where
  endpoint : EndpointId
  messages : MessageId → Message
  before : ListAddr → List Nat
  after : ListAddr → List Nat
  value : BitVec 32
  copied : Option UserData

/-- What is kept beside the state. -/
structure Record where
  openedAt : EndpointId → Nat
  received : MessageKind → EndpointId → List MessageId
  heap : List HeapEvent
  reads : List ReadRecord

/-- A call that waits in its loop. -/
inductive Call
  | read (e : EndpointId) (buffer : UserBuffer)
  | recvFd (e : EndpointId)
  | inputRead (i : InputFileId)

structure System where
  kernel : Kernel
  lists : ListAddr → List Nat
  channelFiles : EndpointId → ChannelFile
  channelFileCount : Nat
  channelCount : Nat
  inputFiles : InputFileId → InputFile
  fileTable : HandleTable File
  fdTables : ProcessId → HandleTable FileId
  processHandles : ProcessId → Word
  messages : MessageId → Message
  messageCount : Nat
  calls : ThreadId → Option Call
  record : Record

/-- Why a call does not return: the scheduler fails, an assertion with its
text, a NULL pointer is followed, or a file is taken for one of another
type. -/
inductive Fault
  | scheduler (f : Scheduler.Fault)
  | assertion (condition : String)
  | nullPointer
  | typeConfusion
  deriving DecidableEq

/-- How a call ends for now: it returns to the user, perhaps with bytes
copied to the user's buffer, or its thread is blocked. -/
inductive Outcome
  | returned (value : BitVec 32) (copied : Option UserData)
  | blocked

/-- `assert(condition)` with the text of the condition. -/
def assert (condition : Bool) (text : String) : Except Fault Unit :=
  if condition then .ok () else .error (.assertion text)

/-- A call of the scheduler. -/
def callScheduler {α : Type} (x : Except Scheduler.Fault α) : Except Fault α :=
  match x with
  | .ok a => .ok a
  | .error f => .error (.scheduler f)

/-- `handle_table_get`: `none` for its return value -1. -/
def handleTableGet {α : Type} (table : HandleTable α) (handle : Word) : Option (Option α) :=
  if handle.toInt < 0 then none
  else if (BitVec.ofNat 32 table.handles.length).toInt ≤ (handle.setWidth 32).toInt then none
  else table.handles[handle.toNat]?

/-- `fd_table_get`, for a table that is not NULL. -/
def fdTableGet (table : HandleTable FileId) (fd : Word) : Option (Option FileId) :=
  if fd.toInt < 0 then none else handleTableGet table fd

section
variable (env : Scheduler.Env)

/-- `kmalloc`: whether it found memory. -/
def kmalloc (s : System) : Bool × System :=
  (env.kmallocOk s.kernel.kmallocs,
    { s with kernel := { s.kernel with kmallocs := s.kernel.kmallocs + 1 } })

/-- `linked_list_insert` of `data`: whether it succeeded. -/
def linkedListInsert (s : System) (list : ListAddr) (data : Nat) : Bool × System :=
  match kmalloc env s with
  | (false, s) => (false, s)
  | (true, s) => (true, { s with lists := Function.update s.lists list (s.lists list ++ [data]) })

/-- `linked_list_remove` of the head. -/
def linkedListRemoveHead (s : System) (list : ListAddr) : System :=
  { s with lists := Function.update s.lists list (s.lists list).tail }

/-- `handle_table_insert`: the vector is expanded when it is full. `none`
for the return value -1, after which every caller stops. -/
def handleTableInsert {α : Type} (s : System) (table : HandleTable α) (data : α) :
    Option (HandleTable α) × System :=
  if table.handles.length < table.capacity then
    (some { table with handles := table.handles ++ [some data] }, s)
  else
    match kmalloc env s with
    | (false, s) => (none, s)
    | (true, s) =>
      (some { handles := table.handles ++ [some data], capacity := table.capacity * 2 }, s)

/-- `file_table_open`, with its calls of kmalloc for the file and, where it
has a path, for a copy of it and for the node of the path table. `none` for
the return value -1. -/
def fileTableOpen (s : System) (file : File) : Except Fault (Option FileId × System) :=
  match kmalloc env s with
  | (false, s) => .ok (none, s)
  | (true, s) =>
    match handleTableInsert env s s.fileTable file with
    | (none, s) => .ok (none, s)
    | (some table, s) =>
      let handle := s.fileTable.handles.length
      match file.path with
      | none => .ok (some handle, { s with fileTable := table })
      | some _ => do
        let (ok, s) := kmalloc env s
        assert ok "path_copy != NULL"
        match kmalloc env s with
        | (false, s) =>
          let handles := s.fileTable.handles ++ [none]
          return (none, { s with fileTable := { table with handles } })
        | (true, s) => return (some handle, { s with fileTable := table })

/-- `file_table_get_by_path`. -/
def fileTableGetByPath (s : System) (path : String) : Option FileId :=
  s.fileTable.handles.findIdx? fun file => file.any fun file => file.path = some path

/-- The file object that a `file_t *` points to. -/
def fileObject (s : System) (f : FileId) : Option File := (s.fileTable.handles[f]?).join

/-- `fd_table_open` on the table of a process: whether it succeeded. -/
def fdTableOpen (s : System) (p : ProcessId) (file : FileId) : Bool × System :=
  match handleTableInsert env s (s.fdTables p) file with
  | (none, s) => (false, s)
  | (some table, s) => (true, { s with fdTables := Function.update s.fdTables p table })

/-- `scheduler_get_current_thread` and its process, with the assertions that
follow. -/
def currentProcess (s : System) : Except Fault (ThreadId × ProcessId) :=
  match s.kernel.currentThread with
  | none => .error (.assertion "thread != NULL")
  | some t =>
    match (s.kernel.threads t).process with
    | none => .error (.assertion "thread->process != NULL")
    | some p => .ok (t, p)

/-- The pointer to a channel in a file; the code does not check that the
file is one. -/
def sourceChannelOf (s : System) (f : FileId) : Except Fault ChannelId :=
  match fileObject s f with
  | some ⟨_, .channel c, _⟩ => .ok c
  | some _ => .error .typeConfusion
  | none => .error .nullPointer

/-- `channel_create`. -/
def channelCreate (s : System) (path : String) : Except Fault (ChannelId × FileId × System) := do
  let (ok, s) := kmalloc env s
  assert ok "channel_create(path, &channel, &global_handle) == 0"
  let c := s.channelCount
  let s := { s with channelCount := c + 1, lists := Function.update s.lists (.endpoints c) [] }
  let (handle, s) ← fileTableOpen env s { path := some path, privateData := .channel c, flags := 0 }
  match handle with
  | none => .error (.assertion "file_table_open(path, file_descriptor, global_handle) == 0")
  | some handle => return (c, handle, s)

/-- The channel of `channel_open`: the one at `path`, or a new one. -/
def channelOfPath (s : System) (path : String) : Except Fault (ChannelId × System) :=
  match fileTableGetByPath s path with
  | some f => do
    let c ← sourceChannelOf s f
    return (c, s)
  | none => do
    let (c, _, s) ← channelCreate env s path
    return (c, s)

/-- The new endpoint of `channel_open`: empty lists, and registered with the
channel. -/
def channelFileCreate (s : System) (c : ChannelId) (flags : BitVec 32) :
    Except Fault (EndpointId × System) := do
  let (ok, s) := kmalloc env s
  assert ok "channel_file != NULL"
  let e := s.channelFileCount
  let lists := Function.update s.lists (.messages .data e) []
  let lists := Function.update lists (.recvWaiters .data e) []
  let lists := Function.update lists (.messages .fd e) []
  let lists := Function.update lists (.recvWaiters .fd e) []
  let s :=
    { s with
      channelFiles := Function.update s.channelFiles e { sourceChannel := c, flags }
      channelFileCount := e + 1
      lists
      record :=
        { s.record with
          openedAt := Function.update s.record.openedAt e s.messageCount
          received := fun kind => Function.update (s.record.received kind) e [] } }
  let (ok, s) := linkedListInsert env s (.endpoints c) e
  assert ok
    "linked_list_insert(&channel->endpoints, channel_file, &channel_file->endpoint_node) == 0"
  return (e, s)

/-- `channel_open`. -/
def channelOpen (s : System) (path : Option String) (fd : Word) (flags : BitVec 32) :
    Except Fault (Outcome × System) :=
  match path with
  | none => .ok (.returned (-1) none, s)
  | some path =>
    if fd = 0 then .ok (.returned (-1) none, s)
    else do
      let (_, p) ← currentProcess s
      let (c, s) ← channelOfPath env s path
      let (e, s) ← channelFileCreate env s c flags
      let (file, s) ← fileTableOpen env s { path := none, privateData := .channelFile e, flags }
      match file with
      | none => .error (.assertion "file_table_open(NULL, file_descriptor, &global_handle) == 0")
      | some file =>
        let (ok, s) := fdTableOpen env s p file
        assert ok "fd_table_open(fd_table, file_object, fd) == 0"
        return (.returned 0 none, s)

/-- The loop that wakes up every thread of a waiter list. -/
def wakeWaiters : Nat → System → ListAddr → Except Fault System
  | fuel, s, list =>
    match s.lists list with
    | [] => .ok s
    | t :: _ =>
      match fuel with
      | 0 => .error (.scheduler .runDiverges)
      | fuel + 1 => do
        let s := linkedListRemoveHead s list
        let kernel ← callScheduler (Scheduler.schedulerWakeUp env s.kernel t)
        wakeWaiters fuel { s with kernel } list

/-- The loop that gives a message to all endpoints except `sender` and wakes
up the threads that wait there. -/
def fanOut (kind : MessageKind) (sender : EndpointId) (m : MessageId) :
    List EndpointId → System → Except Fault System
  | [], s => .ok s
  | e :: rest, s =>
    if e = sender then fanOut kind sender m rest s
    else do
      let (_, s) := linkedListInsert env s (.messages kind e) m
      let waiters := ListAddr.recvWaiters kind e
      let s ← wakeWaiters env (s.lists waiters).length s waiters
      fanOut kind sender m rest s

/-- A new message object. -/
def newMessage (s : System) (message : Message) : MessageId × System :=
  (s.messageCount,
    { s with
      messages := Function.update s.messages s.messageCount message
      messageCount := s.messageCount + 1 })

/-- The end of both sending functions: the new message goes to the other
endpoints of the sender's channel. -/
def sendMessage (s : System) (message : Message) : Except Fault (Outcome × System) := do
  let (m, s) := newMessage s message
  let c := (s.channelFiles message.sender).sourceChannel
  let s ← fanOut env message.kind message.sender m (s.lists (.endpoints c)) s
  return (.returned 0 none, s)

/-- `channel_file_write`. -/
def channelFileWrite (s : System) (e : EndpointId) (buffer : UserBuffer) :
    Except Fault (Outcome × System) :=
  if buffer.data = 0 ∨ buffer.size = 0 then .ok (.returned (-1) none, s)
  else do
    let (ok, s) := kmalloc env s
    assert ok "message != NULL"
    let (ok, s) := kmalloc env s
    assert ok "message_object != NULL"
    sendMessage env s (dataMessage e buffer)

/-- The endpoint that a descriptor of the current process designates, with
the assertions of `channel_send_fd` and `channel_recv_fd`. -/
def channelFileOf (s : System) (channelFd : Word) : Except Fault (ProcessId × EndpointId) := do
  let (_, p) ← currentProcess s
  match fdTableGet (s.fdTables p) channelFd with
  | none => .error (.assertion
      "fd_table_get(&thread->process->fd_table, channel_fd, &file_object) == 0")
  | some none => .error (.assertion "file_object != NULL")
  | some (some file) =>
    match fileObject s file with
    | some ⟨_, .channelFile e, _⟩ => .ok (p, e)
    | _ => .error (.assertion "file_object->ops.read == channel_file_read")

/-- `channel_send_fd`. -/
def channelSendFd (s : System) (channelFd fd : Word) (buffer : UserBuffer) :
    Except Fault (Outcome × System) :=
  if channelFd = -1 ∨ fd = -1 then .ok (.returned (-1) none, s)
  else do
    let (p, e) ← channelFileOf s channelFd
    let (ok, s) := kmalloc env s
    assert ok "message_object != NULL"
    let (ok, s) := kmalloc env s
    assert ok "new_data != NULL"
    sendMessage env s (fdMessage e (s.processHandles p) fd buffer)

/-- Add to the record of heap accesses. -/
def logHeap (s : System) (events : List HeapEvent) : System :=
  { s with record := { s.record with heap := s.record.heap ++ events } }

/-- The end of both receiving functions: the message is copied to the user,
its payload and its object are freed, it is taken off the queue, and its
size is the result. -/
def takeMessage (s : System) (kind : MessageKind) (e : EndpointId) (m : MessageId) :
    Outcome × System :=
  let payload := (s.messages m).payload
  let s := logHeap s [.readObject m, .readPayload m, .freePayload m, .freeObject m]
  let s := linkedListRemoveHead s (.messages kind e)
  let s := { s with record := { s.record with
    received := Function.update s.record.received kind
      (Function.update (s.record.received kind) e (s.record.received kind e ++ [m])) } }
  (.returned (payload.size.setWidth 32) (some (.payload payload)), logHeap s [.readObject m])

/-- A return of `channel_file_read`, recorded; `before` is the state in
which it looked for a message. -/
def returnRead (before : System) (e : EndpointId) : Outcome × System → Outcome × System
  | (.blocked, s) => (.blocked, s)
  | (.returned value copied, s) =>
    let entry : ReadRecord :=
      { endpoint := e, messages := before.messages, before := before.lists, after := s.lists,
        value, copied }
    (.returned value copied,
      { s with record := { s.record with reads := s.record.reads ++ [entry] } })

/-- `channel_file_read` from the peek on. -/
def channelFilePeek (s : System) (e : EndpointId) (buffer : UserBuffer) :
    Except Fault (Outcome × System) :=
  match s.lists (.messages .data e) with
  | [] => .error .nullPointer
  | m :: _ =>
    let s := logHeap s [.readObject m]
    if buffer.size < (s.messages m).payload.size then .ok (.returned (-1) none, s)
    else .ok (takeMessage s .data e m)

/-- One pass through the waiting loop of `call`: the running thread goes
into the waiter list and blocks. `onFull` is what happens when there is no
list node. -/
def waitIn (s : System) (list : ListAddr) (call : Call) (cpu : CpuRegisters)
    (onFull : System → Except Fault (Outcome × System)) : Except Fault (Outcome × System) :=
  match s.kernel.currentThread with
  | none => .error (.assertion "thread != NULL")
  | some t =>
    match linkedListInsert env s list t with
    | (false, s) => onFull s
    | (true, s) => do
      let kernel ← callScheduler (Scheduler.schedulerWaitForEvent env s.kernel cpu)
      return (.blocked, { s with kernel, calls := Function.update s.calls t (some call) })

/-- The assertion of the channel loops on the thread that is about to wait. -/
def assertRunning (s : System) : Except Fault Unit :=
  match s.kernel.currentThread with
  | none => .error (.assertion "thread != NULL")
  | some t => assert ((s.kernel.threads t).state = .running) "thread->state == THREAD_STATE_RUNNING"

/-- The loop of `channel_file_read`, and what follows it. -/
def channelFileReadLoop (s : System) (e : EndpointId) (buffer : UserBuffer) (cpu : CpuRegisters) :
    Except Fault (Outcome × System) :=
  returnRead s e <$>
    if s.lists (.messages .data e) = [] then do
      assertRunning s
      waitIn env s (.recvWaiters .data e) (.read e buffer) cpu fun s => .ok (.returned (-1) none, s)
    else channelFilePeek s e buffer

/-- `channel_file_read`. -/
def channelFileRead (s : System) (e : EndpointId) (buffer : UserBuffer) (cpu : CpuRegisters) :
    Except Fault (Outcome × System) :=
  if buffer.data = 0 ∨ buffer.size = 0 then .ok (returnRead s e (.returned (-1) none, s))
  else if (s.channelFiles e).flags &&& oNonblock ≠ 0 then
    if s.lists (.messages .data e) = [] then .ok (returnRead s e (.returned (-1) none, s))
    else returnRead s e <$> channelFilePeek s e buffer
  else channelFileReadLoop env s e buffer cpu

/-- `channel_recv_fd` from the peek on: the descriptor is looked up in the
sender's process and opened in the receiver's. -/
def channelRecvFdPeek (s : System) (e : EndpointId) : Except Fault (Outcome × System) := do
  let (_, p) ← currentProcess s
  match s.lists (.messages .fd e) with
  | [] => .error (.assertion "message_node != NULL")
  | m :: _ =>
    let s := logHeap s [.readObject m]
    match handleTableGet s.fileTable (s.messages m).processFd with
    | none =>
      .error (.assertion "file_table_get(message_object->process_fd, &source_process_file) == 0")
    | some none => .error .nullPointer
    | some (some ⟨_, .process source, _⟩) =>
      match fdTableGet (s.fdTables source) (s.messages m).fd with
      | none => .error (.assertion
          "fd_table_get(&source_process->fd_table, message_object->fd, &source_fd_file) == 0")
      | some none => .error (.assertion "source_fd_file != NULL")
      | some (some file) =>
        let (ok, s) := fdTableOpen env s p file
        assert ok "fd_table_open(&thread->process->fd_table, source_fd_file, fd) == 0"
        return takeMessage s .fd e m
    | some (some _) => .error .typeConfusion

/-- The loop of `channel_recv_fd`, and what follows it. -/
def channelRecvFdLoop (s : System) (e : EndpointId) (cpu : CpuRegisters) :
    Except Fault (Outcome × System) :=
  if s.lists (.messages .fd e) = [] then do
    assertRunning s
    waitIn env s (.recvWaiters .fd e) (.recvFd e) cpu fun s => .ok (.returned (-1) none, s)
  else channelRecvFdPeek env s e

/-- The part of `channel_recv_fd` behind its lookups. -/
def channelFileRecvFd (s : System) (e : EndpointId) (cpu : CpuRegisters) :
    Except Fault (Outcome × System) :=
  if (s.channelFiles e).flags &&& oNonblock ≠ 0 then
    if s.lists (.messages .fd e) = [] then .ok (.returned (-1) none, s)
    else channelRecvFdPeek env s e
  else channelRecvFdLoop env s e cpu

/-- `channel_recv_fd`. The size of the caller's buffer is not looked at. -/
def channelRecvFd (s : System) (channelFd fd : Word) (cpu : CpuRegisters) :
    Except Fault (Outcome × System) :=
  if channelFd = -1 ∨ fd = 0 then .ok (.returned (-1) none, s)
  else do
    let (_, e) ← channelFileOf s channelFd
    channelFileRecvFd env s e cpu

/-- A write to the ring buffer of an input file. -/
def setEvents (s : System) (i : InputFileId) (events : List InputDeviceEvent) : System :=
  let file := { s.inputFiles i with eventRingBuffer := events }
  { s with inputFiles := Function.update s.inputFiles i file }

/-- `input_file_emit`; `event` is NULL or points to an event. -/
def inputFileEmit (s : System) (i : InputFileId) (event : Option InputDeviceEvent) :
    Except Fault (Outcome × System) :=
  match event with
  | none => .ok (.returned (-1) none, s)
  | some event =>
    let events := (s.inputFiles i).eventRingBuffer
    if events.length = inputFileEventBufferSize then .ok (.returned (-1) none, s)
    else do
      let s := setEvents s i (events ++ [event])
      let waiters := ListAddr.eventWaiters i
      let s ← wakeWaiters env (s.lists waiters).length s waiters
      return (.returned 0 none, s)

/-- `input_file_read` from the dequeue on. -/
def inputFileDequeue (s : System) (i : InputFileId) : Except Fault (Outcome × System) :=
  match (s.inputFiles i).eventRingBuffer with
  | [] =>
    -- with sizeof(input_device_event_t)
    .error (.assertion "ring_buffer_dequeue(&input_file->event_ring_buffer, buffer, ...) == 0")
  | event :: events =>
    .ok (.returned (inputDeviceEventSize.setWidth 32) (some (.event event)),
      setEvents s i events)

/-- The loop of `input_file_read`, and what follows it. -/
def inputFileReadLoop (s : System) (i : InputFileId) (cpu : CpuRegisters) :
    Except Fault (Outcome × System) :=
  if (s.inputFiles i).eventRingBuffer = [] then do
    let _ ← currentProcess s
    waitIn env s (.eventWaiters i) (.inputRead i) cpu fun _ => .error (.assertion
      "linked_list_insert(&input_file->event_waiters, thread, &node) == 0")
  else inputFileDequeue s i

/-- `input_file_read`. -/
def inputFileRead (s : System) (i : InputFileId) (buffer : UserBuffer) (cpu : CpuRegisters) :
    Except Fault (Outcome × System) :=
  if buffer.data = 0 ∨ buffer.size = 0 then .ok (.returned (-1) none, s)
  else if buffer.size < inputDeviceEventSize then .ok (.returned (-1) none, s)
  else if (s.inputFiles i).flags &&& oNonblock ≠ 0 then
    if (s.inputFiles i).eventRingBuffer = [] then .ok (.returned (-1) none, s)
    else inputFileDequeue s i
  else inputFileReadLoop env s i cpu

end

/-! ## Steps -/

/-- A call that a thread makes. The functions that take a `file_t *` are
called with the endpoint or input file it belongs to. -/
inductive Request
  | channelOpen (path : Option String) (fd : Word) (flags : BitVec 32)
  | write (e : EndpointId) (buffer : UserBuffer)
  | read (e : EndpointId) (buffer : UserBuffer)
  | sendFd (channelFd fd : Word) (buffer : UserBuffer)
  | recvFd (channelFd fd : Word)
  | emit (i : InputFileId) (event : Option InputDeviceEvent)
  | inputRead (i : InputFileId) (buffer : UserBuffer)

/-- What can happen. `cpu` is what the registers hold when the thread
blocks. -/
inductive Action
  | boot
  | threadStart (t : ThreadId)
  | yield (frame : ExceptionFrame)
  | terminate
  | request (r : Request) (cpu : CpuRegisters)
  | resume (cpu : CpuRegisters)

/-- The thread that runs, and the call it waits in. -/
def currentCall (s : System) : Option Call := s.kernel.currentThread.bind s.calls

section
variable (env : Scheduler.Env)

/-- What a call does. -/
def perform (s : System) (cpu : CpuRegisters) : Request → Except Fault (Outcome × System)
  | .channelOpen path fd flags => channelOpen env s path fd flags
  | .write e buffer => channelFileWrite env s e buffer
  | .read e buffer => channelFileRead env s e buffer cpu
  | .sendFd channelFd fd buffer => channelSendFd env s channelFd fd buffer
  | .recvFd channelFd fd => channelRecvFd env s channelFd fd cpu
  | .emit i event => inputFileEmit env s i event
  | .inputRead i buffer => inputFileRead env s i buffer cpu

/-- A thread goes on in the loop it waited in. -/
def resumeCall (s : System) (cpu : CpuRegisters) : Call → Except Fault (Outcome × System)
  | .read e buffer => channelFileReadLoop env s e buffer cpu
  | .recvFd e => channelRecvFdLoop env s e cpu
  | .inputRead i => inputFileReadLoop env s i cpu

/-- The calls without that of the thread that runs. -/
def clearCall (s : System) : System :=
  match s.kernel.currentThread with
  | none => s
  | some t => { s with calls := Function.update s.calls t none }

/-- A step of the scheduler alone. -/
def schedule (s : System) (x : Except Scheduler.Fault Kernel) : Except Fault System := do
  let kernel ← callScheduler x
  return { s with kernel }

/-- What an action does. -/
def exec (s : System) : Action → Except Fault System
  | .boot => schedule s (Scheduler.schedulerRun env s.kernel)
  | .threadStart t => schedule s (Prod.snd <$> Scheduler.threadStart env s.kernel t)
  | .yield frame => schedule s (Scheduler.schedulerYield env s.kernel frame)
  | .terminate => schedule s (Scheduler.schedulerTerminate env s.kernel)
  | .request r cpu => Prod.snd <$> perform env s cpu r
  | .resume cpu =>
    match currentCall s with
    | none => .ok s
    | some call => Prod.snd <$> resumeCall env (clearCall s) cpu call

end

/-- The thread that runs is not the idle thread, and waits in no call. -/
def InUser (s : System) : Prop :=
  ∃ t, s.kernel.currentThread = some t ∧ t ≠ idleThread ∧ s.calls t = none

/-- The endpoint of a request exists. -/
def Request.Valid (s : System) : Request → Prop
  | .write e _ | .read e _ => e < s.channelFileCount
  | _ => True

/-- When an action can happen: `scheduler_run` is called once, at boot; a
fresh thread is started; and the running thread makes a call, or goes on in
the one it waited in. -/
def Enabled (s : System) : Action → Prop
  | .boot => s.kernel.currentThread = none
  | .threadStart t => t ≠ idleThread ∧ t ∉ Scheduler.enqueued s.kernel.trace
  | .yield _ | .terminate => InUser s
  | .request r _ => InUser s ∧ r.Valid s
  | .resume _ => ∃ t, s.kernel.currentThread = some t ∧ t ≠ idleThread ∧ s.calls t ≠ none

/-- One step of the system. -/
def Step (env : Scheduler.Env) (s : System) (a : Action) (s' : System) : Prop :=
  Enabled s a ∧ exec env s a = .ok s'

/-- Before boot: no channel, nothing in any list, and files that belong to
neither channels nor endpoints. -/
structure Init (s : System) : Prop where
  kernel : Scheduler.Init s.kernel
  lists : ∀ l, s.lists l = []
  channelFileCount : s.channelFileCount = 0
  channelCount : s.channelCount = 0
  events : ∀ i, (s.inputFiles i).eventRingBuffer = []
  files : ∀ f file, fileObject s f = some file →
    (∀ c, file.privateData ≠ .channel c) ∧ ∀ e, file.privateData ≠ .channelFile e
  messageCount : s.messageCount = 0
  calls : ∀ t, s.calls t = none
  received : ∀ kind e, s.record.received kind e = []
  heap : s.record.heap = []
  reads : s.record.reads = []

/-! ## Handle tables -/

/-- In a vector of less than `2 ^ 31` entries every index is looked up. -/
theorem handleTableGet_eq {α : Type} {table : HandleTable α} (h : table.handles.length < 2 ^ 31)
    (handle : Word) : handleTableGet table handle = table.handles[handle.toNat]? := by
  have hlt := handle.isLt
  unfold handleTableGet
  rw [BitVec.toInt_eq_toNat_cond, BitVec.toInt_eq_toNat_cond, BitVec.toInt_eq_toNat_cond,
    BitVec.toNat_ofNat, BitVec.toNat_setWidth]
  by_cases hin : handle.toNat < table.handles.length
  · rw [if_neg, if_neg]
    · split <;> split <;> omega
    · split <;> omega
  · rw [List.getElem?_eq_none (by omega)]
    simp only [ite_self]

theorem fdTableGet_eq {table : HandleTable FileId} (h : table.handles.length < 2 ^ 31)
    (fd : Word) : fdTableGet table fd = table.handles[fd.toNat]? := by
  rw [← handleTableGet_eq h]
  unfold fdTableGet handleTableGet
  split <;> rfl

/-- With one entry more the size is negative as an `int32_t`. -/
theorem handleTableGet_full {α : Type} {table : HandleTable α}
    (h : table.handles.length = 2 ^ 31) (handle : Word) : handleTableGet table handle = none := by
  unfold handleTableGet
  rw [h]
  split
  · rfl
  · rw [if_pos]
    exact BitVec.le_toInt (handle.setWidth 32)

end ZOs.Ipc
