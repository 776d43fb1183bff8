import Mathlib.Data.List.Basic
import ZOs.Lib.Run

/-!
# The compositor and its clients

`comms.c` and `window.c` of the clients, and `compositor_abi.c` with its
`window.c` on the other side. All of them share one channel. The channel
delivers a message once, and in order, to every endpoint but the sender's:
an endpoint is a queue of what it has been sent and has not received.

A client is known by its process handle. Beside each message the number of
the request is kept that it is, or answers; no function reads it.
-/

namespace ZOs.Compositor

open Runs

abbrev Word := BitVec 64

/-- `compositor_abi_type_t`. -/
inductive AbiType
  | createWindowRequest
  | createWindowResponse
  | attachBufferRequest
  | attachBufferResponse
  | commitRequest
  | commitResponse
  deriving DecidableEq

/-- `compositor_abi_status_t`. -/
inductive Status
  | success
  | error
  deriving DecidableEq

/-- The union of `compositor_abi_payload_t`. -/
inductive Payload
  | createWindow (name : List UInt8) (width height : Word)
  | createWindowResponse (status : Status) (windowHandle : Int)
  | attachBuffer (windowHandle bufferHandle : Int)
  | attachBufferResponse (status : Status)
  | commit (windowHandle : Int) (x y width height : Word)
  | commitResponse (status : Status)
  deriving DecidableEq

/-- `compositor_abi_payload_t`. -/
structure Message where
  type : AbiType
  processHandle : Int
  payload : Payload
  deriving DecidableEq

/-- A message on the channel, with the number of its request. -/
structure Sent where
  message : Message
  request : Nat
  deriving DecidableEq

/-! ## Clients -/

/-- The calls of `window.c`, with arguments that it does not refuse. -/
inductive Request
  | windowCreate (name : List UInt8) (width height : Word)
  | windowAttachBuffer (windowHandle bufferHandle : Int)
  | windowCommit (windowHandle : Int) (x y width height : Word)
  deriving DecidableEq

/-- The message that a call fills in, after `memory_set`. -/
def Request.fill : Request → Message
  | .windowCreate name width height =>
    ⟨.createWindowRequest, 0, .createWindow name width height⟩
  | .windowAttachBuffer windowHandle bufferHandle =>
    ⟨.attachBufferRequest, 0, .attachBuffer windowHandle bufferHandle⟩
  | .windowCommit windowHandle x y width height =>
    ⟨.commitRequest, 0, .commit windowHandle x y width height⟩

/-- What `comms_send_request` sends for the process with this handle. -/
def commsSendRequest (processHandle : Int) (message : Message) : Message :=
  { message with processHandle }

/-- What `comms_send_request_fd` sends, with a descriptor. -/
def commsSendRequestFd (message : Message) : Message := message

/-- The message of a call. -/
def Request.message (processHandle : Nat) (request : Request) : Message :=
  match request with
  | .windowAttachBuffer _ _ => commsSendRequestFd request.fill
  | _ => commsSendRequest processHandle request.fill

/-- The message goes out by `channel_send_fd`. -/
def Request.sendsFd : Request → Bool
  | .windowAttachBuffer _ _ => true
  | _ => false

/-- The type that the caller asserts its response to have. -/
def Request.responseType : Request → AbiType
  | .windowCreate .. => .createWindowResponse
  | .windowAttachBuffer .. => .attachBufferResponse
  | .windowCommit .. => .commitResponse

/-- A call that waits for its response. -/
structure Waiting where
  request : Request
  sent : Sent
  deriving DecidableEq

structure Client where
  isOpen : Bool
  messages : List Sent
  waiting : Option Waiting

/-! ## The compositor -/

/-- The functions of `compositor.c` on its windows: the result, and the
handle that `compositor_window_create` leaves. -/
structure Windows (σ : Type) where
  create : σ → List UInt8 → Word → Word → σ × Int × Int
  attachBuffer : σ → Int → Int → σ × Int
  commit : σ → Int → Word → Word → Word → Word → σ × Int

def statusOf (result : Int) : Status := if result = 0 then .success else .error

variable {σ : Type}

/-- `window_abi_create`. -/
def windowAbiCreate (windows : Windows σ) (c : σ) (message : Message) : σ × Option Message :=
  match message.payload with
  | .createWindow name width height =>
    let (c, result, windowHandle) := windows.create c name width height
    (c, some ⟨.createWindowResponse, message.processHandle,
      .createWindowResponse (statusOf result) windowHandle⟩)
  | _ => (c, none)

/-- `window_abi_attach_buffer`. -/
def windowAbiAttachBuffer (windows : Windows σ) (c : σ) (message : Message) : σ × Option Message :=
  match message.payload with
  | .attachBuffer windowHandle bufferHandle =>
    let (c, result) := windows.attachBuffer c windowHandle bufferHandle
    (c, some ⟨.attachBufferResponse, message.processHandle,
      .attachBufferResponse (statusOf result)⟩)
  | _ => (c, none)

/-- `window_abi_commit`. -/
def windowAbiCommit (windows : Windows σ) (c : σ) (message : Message) : σ × Option Message :=
  match message.payload with
  | .commit windowHandle x y width height =>
    let (c, result) := windows.commit c windowHandle x y width height
    (c, some ⟨.commitResponse, message.processHandle, .commitResponse (statusOf result)⟩)
  | _ => (c, none)

/-- The `switch` of `compositor_abi_process_messages`; `none` for a type
that it does not know. -/
def processMessage (windows : Windows σ) (c : σ) (message : Message) : σ × Option Message :=
  match message.type with
  | .createWindowRequest => windowAbiCreate windows c message
  | .commitRequest => windowAbiCommit windows c message
  | _ => (c, none)

/-- The `switch` of `compositor_abi_process_fd_messages`, with the
descriptor that was received. -/
def processFdMessage (windows : Windows σ) (c : σ) (fdToReceive : Int) (message : Message) :
    σ × Option Message :=
  match message.type, message.payload with
  | .attachBufferRequest, .attachBuffer windowHandle _ =>
    windowAbiAttachBuffer windows c
      { message with payload := .attachBuffer windowHandle fdToReceive }
  | _, _ => (c, none)

/-! ## The system -/

structure System (σ : Type) where
  compositor : σ
  /-- the endpoint of the compositor -/
  messages : List Sent
  fdMessages : List Sent
  /-- the response that the compositor is about to send -/
  reply : Option Sent
  clients : Nat → Client
  requests : Nat
  /-- the calls that returned 0, each with its response -/
  returned : List (Waiting × Sent)

inductive Action
  | openChannel (client : Nat)
  | send (client : Nat) (request : Request)
  | receive (client : Nat)
  | processMessages
  | processFdMessages (fdToReceive : Int)
  | sendReply

/-- A message comes to every endpoint of a client but the sender's. -/
def deliver (clients : Nat → Client) (sender : Option Nat) (sent : Sent) : Nat → Client :=
  fun client =>
    if (clients client).isOpen ∧ sender ≠ some client then
      { clients client with messages := (clients client).messages ++ [sent] }
    else clients client

/-- The first part of a call: the request is sent. Clients do not receive
the messages that come with a descriptor. -/
def System.send (s : System σ) (client : Nat) (request : Request) : System σ :=
  let sent : Sent := ⟨request.message client, s.requests⟩
  let waiting : Client := { s.clients client with waiting := some ⟨request, sent⟩ }
  let clients := Function.update s.clients client waiting
  let s := { s with requests := s.requests + 1 }
  if request.sendsFd then { s with fdMessages := s.fdMessages ++ [sent], clients }
  else { s with messages := s.messages ++ [sent], clients := deliver clients (some client) sent }

/-- A message is received in the loop of a call, which ends with it if its
process handle is that of the request. -/
def System.receive (s : System σ) (client : Nat) : Option (System σ) :=
  match (s.clients client).waiting, (s.clients client).messages with
  | some waiting, sent :: rest =>
    if sent.message.processHandle = waiting.sent.message.processHandle then
      let done : Client := { s.clients client with messages := rest, waiting := none }
      some { s with
        clients := Function.update s.clients client done
        returned := s.returned ++ [(waiting, sent)] }
    else
      let next : Client := { s.clients client with messages := rest }
      some { s with clients := Function.update s.clients client next }
  | _, _ => none

/-- The compositor receives a message and makes out its response. -/
def System.processMessages (windows : Windows σ) (s : System σ) : Option (System σ) :=
  match s.reply, s.messages with
  | none, sent :: rest =>
    let (compositor, response) := processMessage windows s.compositor sent.message
    some { s with
      compositor
      messages := rest
      reply := response.map fun response => ⟨response, sent.request⟩ }
  | _, _ => none

def System.processFdMessages (windows : Windows σ) (fdToReceive : Int) (s : System σ) :
    Option (System σ) :=
  match s.reply, s.fdMessages with
  | none, sent :: rest =>
    let (compositor, response) := processFdMessage windows s.compositor fdToReceive sent.message
    some { s with
      compositor
      fdMessages := rest
      reply := response.map fun response => ⟨response, sent.request⟩ }
  | _, _ => none

/-- The response is sent. -/
def System.sendReply (s : System σ) : Option (System σ) :=
  s.reply.map fun sent => { s with reply := none, clients := deliver s.clients none sent }

/-- A step of a client or of the compositor. -/
def exec (windows : Windows σ) (s : System σ) : Action → Option (System σ)
  | .openChannel client =>
    if (s.clients client).isOpen then none
    else
      let opened : Client := { s.clients client with isOpen := true }
      some { s with clients := Function.update s.clients client opened }
  | .send client request =>
    if (s.clients client).isOpen ∧ (s.clients client).waiting = none then
      some (s.send client request)
    else none
  | .receive client => s.receive client
  | .processMessages => s.processMessages windows
  | .processFdMessages fdToReceive => s.processFdMessages windows fdToReceive
  | .sendReply => s.sendReply

def Step (windows : Windows σ) (s : System σ) (a : Action) (s' : System σ) : Prop :=
  exec windows s a = some s'

/-- Before any client has opened the channel. -/
def Initial (s : System σ) : Prop :=
  ∃ c : σ, s = ⟨c, [], [], none, fun _ => ⟨false, [], none⟩, 0, []⟩

/-- Each call that returned has the response to its own request, of the
type that it asserts. -/
def Answered (s : System σ) : Prop :=
  ∀ p ∈ s.returned, p.2.request = p.1.sent.request ∧ p.2.message.type = p.1.request.responseType

/-- The messages that the compositor has still to answer. -/
def System.atCompositor (s : System σ) : List Sent :=
  s.messages ++ s.fdMessages ++ s.reply.toList

/-- A request with process handle 0 is sent when no message with it is left
unread by the client, or unanswered by the compositor. -/
def Undisturbed (s : System σ) : Action → Prop
  | .send client request =>
    (request.message client).processHandle = 0 →
      (∀ sent ∈ (s.clients client).messages, sent.message.processHandle ≠ 0) ∧
        ∀ sent ∈ s.atCompositor, sent.message.processHandle ≠ 0
  | _ => True

end ZOs.Compositor
