import ZOs.Usb.RingBuffer
import ZOs.Usb.TrbRing

/-!
# Transfers, commands and their events

The part of `xhci.c` that hands transfers and commands to the controller
and takes its events: the heap of buffer pages, a queue of jobs for every
endpoint, the poller, and the three commands that wait for an event.

A transfer ring is the queue of its TRBs that the controller has not gone
through, the event ring the queue of the events that the driver has not
taken, which is what the rings do as long as there is room in them. Beside
the driver's state a trace is kept: which transfers and commands there were,
whose event each event is, and the calls of the callbacks. No function of
the driver reads it.
-/

namespace ZOs.Xhci.Jobs

open ZOs.Utils

abbrev Slot := BitVec 8

def pageSize : Nat := 4096
def xhciHeapVirtualBase : Word := 0xffffffff80000000
def xhciHeapMaxPages : Nat := 512
def xhciMaxNumEndpoints : Nat := 32
def xhciMaxNumTransferJobs : Nat := 256

def trbTypeNormal : BitVec 32 := 0x1 <<< 10
def trbTypeSetupStage : BitVec 32 := 0x2 <<< 10
def trbTypeDataStage : BitVec 32 := 0x3 <<< 10
def trbTypeStatusStage : BitVec 32 := 0x4 <<< 10
def trbTypeCommandCompletion : BitVec 32 := 0x21 <<< 10
def trbTypeTransferEvent : BitVec 32 := 0x20 <<< 10
def trbControlIsp : BitVec 32 := 1 <<< 2
def trbControlIoc : BitVec 32 := 1 <<< 5
def trbControlIdt : BitVec 32 := 1 <<< 6
def trbControlTrtDataOut : BitVec 32 := 0x2 <<< 16
def trbControlTrtDataIn : BitVec 32 := 0x3 <<< 16
def trbDataStageInDirection : BitVec 32 := 1 <<< 16
def completionCodeSuccess : BitVec 8 := 0x1

/-- `XHCI_EVENT_TRB_COMPLETION_CODE`. -/
def completionCode (trb : Trb) : BitVec 8 := ((trb.status >>> 24) &&& 0xff).setWidth 8

/-- `XHCI_EVENT_TRB_SLOT_ID`. -/
def slotId (trb : Trb) : Slot := ((trb.control >>> 24) &&& 0xff).setWidth 8

/-- `XHCI_EVENT_TRB_ENDPOINT_ID`. -/
def endpointId (trb : Trb) : Nat := ((trb.control >>> 16) &&& 0x1f).toNat

/-! ## The driver -/

/-- `xhci_completion_code` of a callback. -/
inductive Outcome
  | success
  | failed
  deriving DecidableEq

/-- `xhci_transfer_job_t`. -/
structure TransferJob where
  callback : Word
  callbackContext : Word
  dataBuffer : AllocatedPage
  transferLength : Word
  hasData : Bool
  deriving DecidableEq

/-- A job that `memory_set` has zeroed. -/
def zeroJob : TransferJob := ⟨0, 0, ⟨0, 0⟩, 0, false⟩

/-- `xhci_driver_t`, as far as transfers and commands use it. -/
structure Driver where
  heapPageAllocated : Nat → Bool
  lastModifiedHeapPageIdx : Nat
  enabled : Slot → Bool
  transferJobs : Slot → Nat → RingBuffer TransferJob

/-- The search loop of `xhci_alloc_page`: it ends at a page that is free, or
that it has checked before. It goes round 512 times at most. -/
def searchPage (allocated : Nat → Bool) : Nat → (Nat → Bool) → Nat → Nat
  | 0, _, pageIdx => pageIdx
  | rounds + 1, checked, pageIdx =>
    if allocated pageIdx && !checked pageIdx then
      searchPage allocated rounds (Function.update checked pageIdx true)
        (if pageIdx + 1 ≥ xhciHeapMaxPages then 0 else pageIdx + 1)
    else pageIdx

/-- The virtual address of a page of the heap. -/
def pageAddress (pageIdx : Nat) : Word :=
  xhciHeapVirtualBase + BitVec.ofNat 64 (pageIdx * pageSize)

/-- `xhci_alloc_page`; `none` for -1, where the driver stays as it was. -/
def xhciAllocPage (mmapVirtualToPhysical : Word → Option Word) (d : Driver) :
    Option (AllocatedPage × Driver) :=
  let pageIdx := searchPage d.heapPageAllocated xhciHeapMaxPages (fun _ => false)
    d.lastModifiedHeapPageIdx
  if d.heapPageAllocated pageIdx then none
  else
    match mmapVirtualToPhysical (pageAddress pageIdx) with
    | none => none
    | some physical =>
      some (⟨pageAddress pageIdx, physical⟩, { d with
        heapPageAllocated := Function.update d.heapPageAllocated pageIdx true
        lastModifiedHeapPageIdx := pageIdx })

/-- The index of a page in the heap. -/
def pageIndex (page : AllocatedPage) : Nat :=
  (page.virtualAddress - xhciHeapVirtualBase).toNat / pageSize

/-- `xhci_free_page`. -/
def xhciFreePage (page : AllocatedPage) (d : Driver) : Driver :=
  if pageIndex page ≥ xhciHeapMaxPages then d
  else { d with
    heapPageAllocated := Function.update d.heapPageAllocated (pageIndex page) false
    lastModifiedHeapPageIdx := pageIndex page }

/-- A table by slot and endpoint with one entry changed. -/
def setAt {α : Type} (table : Slot → Nat → α) (slot : Slot) (endpoint : Nat) (a : α) :
    Slot → Nat → α :=
  Function.update table slot (Function.update (table slot) endpoint a)

@[simp] theorem setAt_self {α : Type} {table : Slot → Nat → α} {slot : Slot} {endpoint : Nat}
    {a : α} : setAt table slot endpoint a slot endpoint = a := by
  simp [setAt]

theorem setAt_of_ne {α : Type} {table : Slot → Nat → α} {slot slot' : Slot}
    {endpoint endpoint' : Nat} {a : α} (h : ¬ (slot' = slot ∧ endpoint' = endpoint)) :
    setAt table slot endpoint a slot' endpoint' = table slot' endpoint' := by
  unfold setAt
  by_cases hslot : slot' = slot
  · subst hslot
    rw [Function.update_self, Function.update_of_ne fun heq => h ⟨rfl, heq⟩]
  · rw [Function.update_of_ne hslot]

theorem setAt_setAt {α : Type} {table : Slot → Nat → α} {slot : Slot} {endpoint : Nat} {a b : α} :
    setAt (setAt table slot endpoint a) slot endpoint b = setAt table slot endpoint b := by
  unfold setAt
  rw [Function.update_self, Function.update_idem, Function.update_idem]

/-- Write the job queue of an endpoint. -/
def Driver.setJobs (d : Driver) (slot : Slot) (endpoint : Nat) (jobs : RingBuffer TransferJob) :
    Driver :=
  { d with transferJobs := setAt d.transferJobs slot endpoint jobs }

/-- The part of `xhci_enable_device_slot` that follows its event: the device
is marked, and the queues of all its endpoints are initialised. -/
def Driver.enable (d : Driver) (slot : Slot) : Driver :=
  { d with
    enabled := Function.update d.enabled slot true
    transferJobs := Function.update d.transferJobs slot fun endpoint =>
      if endpoint < xhciMaxNumEndpoints then
        .init (d.transferJobs slot endpoint).entries xhciMaxNumTransferJobs
      else d.transferJobs slot endpoint }

/-! ## Requests -/

/-- A callback. -/
structure Callback where
  address : Word
  not_null : address ≠ 0

/-- `usb_setup_packet_t`. -/
structure SetupPacket where
  bmRequestType : BitVec 8
  bRequest : BitVec 8
  wValue : BitVec 16
  wIndex : BitVec 16
  wLength : BitVec 16

/-- `xhci_control_transfer_type`. -/
inductive ControlTransferType
  | noData
  | outData
  | inData
  deriving DecidableEq

/-- `xhci_control_transfer_request_t`. -/
structure ControlTransferRequest where
  setupPacket : SetupPacket
  callback : Callback
  callbackContext : Word
  immediateDataTransfer : Bool
  transferType : ControlTransferType

/-- The context index of an endpoint that has been configured. Index 1 is
that of the control endpoint. -/
structure Endpoint where
  contextIdx : Nat
  configured : 2 ≤ contextIdx ∧ contextIdx < xhciMaxNumEndpoints

/-- `xhci_transfer_request_t`. -/
structure TransferRequest where
  endpoint : Endpoint
  callback : Callback
  callbackContext : Word
  transferLength : Word
  interruptOnShortPacket : Bool

/-! ## The system -/

/-- A transfer that was handed to the controller: what was asked for, and
the page that was taken for its data. -/
structure Transfer where
  number : Nat
  slot : Slot
  endpoint : Nat
  callback : Word
  context : Word
  length : Word
  buffer : Option AllocatedPage
  deriving DecidableEq

/-- What a command goes on with when its event has come. -/
inductive CommandKind
  /-- `xhci_enable_device_slot` -/
  | enableSlot
  /-- the same, as the first part of `xhci_address_device` -/
  | enableSlotFor
  /-- the second part of `xhci_address_device` -/
  | addressDevice
  /-- `xhci_configure_endpoint`, with the page of its input context -/
  | configureEndpoint (inputContext : AllocatedPage)
  deriving DecidableEq

structure Command where
  number : Nat
  kind : CommandKind
  deriving DecidableEq

/-- Whose event an event is. -/
inductive Owner
  | transfer (t : Transfer)
  | command (c : Command)
  | port
  deriving DecidableEq

/-- An event on the event ring. -/
structure Event where
  trb : Trb
  owner : Owner
  deriving DecidableEq

/-- The transfer that an event completes. -/
def Event.transfer (e : Event) : Option Transfer :=
  match e.owner with
  | .transfer t => some t
  | _ => none

/-- The command that an event completes. -/
def Event.command (e : Event) : Option Command :=
  match e.owner with
  | .command c => some c
  | _ => none

/-- A call of a callback, with the event it is for. -/
structure Call where
  event : Event
  callback : Word
  outcome : Outcome
  data : Option Word
  size : Word
  context : Word
  deriving DecidableEq

structure System where
  driver : Driver
  /-- by slot and context index -/
  transferRings : Slot → Nat → List Trb
  eventRing : List Event
  /-- the callbacks that run, the latest first, with the page that is freed
  when each returns -/
  running : List (Event × Option AllocatedPage)
  /-- the command that waits for an event -/
  waiting : Option Command
  /-- the transfers of an endpoint that are not completed, the oldest first -/
  pending : Slot → Nat → List Transfer
  /-- the commands that are not completed, the oldest first -/
  commands : List Command
  submitted : List Transfer
  issued : Nat
  /-- the transfers that were completed -/
  delivered : List Transfer
  calls : List Call
  freed : List (Event × AllocatedPage)
  /-- the commands that were completed, and whether with success -/
  completed : List (Command × Bool)
  /-- what the commands that have got an event made of it -/
  results : List (Command × Bool)

/-- `xhci_transfer_ring_enqueue` on the ring of an endpoint. -/
def System.enqueueTrb (s : System) (slot : Slot) (endpoint : Nat) (trb : Trb) : System :=
  let trbs := s.transferRings slot endpoint ++ [trb]
  { s with transferRings := setAt s.transferRings slot endpoint trbs }

/-- Enqueue the job of a transfer; the result of `ring_buffer_enqueue` is
not looked at. The doorbell hands the transfer to the controller. -/
def System.enqueueJob (s : System) (transfer : Transfer) (job : TransferJob) : System :=
  let jobs := s.driver.transferJobs transfer.slot (transfer.endpoint - 1)
  let pending := s.pending transfer.slot transfer.endpoint
  { s with
    driver := s.driver.setJobs transfer.slot (transfer.endpoint - 1) (jobs.enqueue job).2
    pending := setAt s.pending transfer.slot transfer.endpoint (pending ++ [transfer])
    submitted := s.submitted ++ [transfer] }

/-- The control word of the setup stage. -/
def setupStageControl (immediateDataTransfer : Bool) (transferType : ControlTransferType) :
    BitVec 32 :=
  trbTypeSetupStage ||| (if immediateDataTransfer then trbControlIdt else 0) |||
    match transferType with
    | .noData => 0
    | .inData => trbControlTrtDataIn
    | .outData => trbControlTrtDataOut

/-- The TRB of the setup stage. -/
def setupStageTrb (request : ControlTransferRequest) : Trb where
  parameterLow := request.setupPacket.bmRequestType.setWidth 32 |||
    request.setupPacket.bRequest.setWidth 32 <<< 8 |||
    request.setupPacket.wValue.setWidth 32 <<< 16
  parameterHigh := request.setupPacket.wIndex.setWidth 32 |||
    request.setupPacket.wLength.setWidth 32 <<< 16
  status := 0x8
  control := setupStageControl request.immediateDataTransfer request.transferType

/-- The TRB of the data stage. -/
def dataStageTrb (page : AllocatedPage) (wLength : BitVec 16) : Trb where
  parameterLow := page.physicalAddress.setWidth 32
  parameterHigh := (page.physicalAddress >>> 32).setWidth 32
  status := wLength.setWidth 32
  control := trbDataStageInDirection ||| trbTypeDataStage

/-- The TRB of the status stage. -/
def statusStageTrb : Trb := ⟨0, 0, 0, trbControlIoc ||| trbTypeStatusStage⟩

/-- The record of a control transfer. -/
def System.controlRecord (s : System) (slot : Slot) (request : ControlTransferRequest)
    (buffer : Option AllocatedPage) : Transfer where
  number := s.submitted.length
  slot
  endpoint := 1
  callback := request.callback.address
  context := request.callbackContext
  length := request.setupPacket.wLength.setWidth 64
  buffer

/-- `xhci_control_transfer`, on a device that is known by its slot. -/
def xhciControlTransfer (mmapVirtualToPhysical : Word → Option Word) (slot : Slot)
    (request : ControlTransferRequest) (s : System) : Int × System :=
  let job : TransferJob :=
    { zeroJob with
      callback := request.callback.address
      callbackContext := request.callbackContext
      transferLength := request.setupPacket.wLength.setWidth 64 }
  let s := s.enqueueTrb slot 1 (setupStageTrb request)
  if request.transferType = .noData then
    let s := s.enqueueTrb slot 1 statusStageTrb
    (0, s.enqueueJob (s.controlRecord slot request none) job)
  else
    match xhciAllocPage mmapVirtualToPhysical s.driver with
    | none => (-1, s)
    | some (page, driver) =>
      let s := { s with driver }
      let s := s.enqueueTrb slot 1 (dataStageTrb page request.setupPacket.wLength)
      let s := s.enqueueTrb slot 1 statusStageTrb
      (0, s.enqueueJob (s.controlRecord slot request (some page))
        { job with dataBuffer := page, hasData := true })

/-- The control word of a transfer. -/
def transferControl (interruptOnShortPacket : Bool) : BitVec 32 :=
  trbTypeNormal ||| trbControlIoc ||| if interruptOnShortPacket then trbControlIsp else 0

/-- The TRB of a transfer. -/
def transferTrb (page : AllocatedPage) (request : TransferRequest) : Trb where
  parameterLow := page.physicalAddress.setWidth 32
  parameterHigh := (page.physicalAddress >>> 32).setWidth 32
  status := request.transferLength.setWidth 32
  control := transferControl request.interruptOnShortPacket

/-- The record of a transfer. -/
def System.transferRecord (s : System) (slot : Slot) (request : TransferRequest)
    (page : AllocatedPage) : Transfer where
  number := s.submitted.length
  slot
  endpoint := request.endpoint.contextIdx
  callback := request.callback.address
  context := request.callbackContext
  length := request.transferLength
  buffer := some page

/-- `xhci_transfer`. -/
def xhciTransfer (mmapVirtualToPhysical : Word → Option Word) (slot : Slot)
    (request : TransferRequest) (s : System) : Int × System :=
  match xhciAllocPage mmapVirtualToPhysical s.driver with
  | none => (-1, s)
  | some (page, driver) =>
    let s := { s with driver }
    let s := s.enqueueTrb slot request.endpoint.contextIdx (transferTrb page request)
    (0, s.enqueueJob (s.transferRecord slot request page)
      { callback := request.callback.address
        callbackContext := request.callbackContext
        dataBuffer := page
        transferLength := request.transferLength
        hasData := true })

/-! ## The poller -/

/-- `xhci_free_page` of the buffer of a transfer. -/
def System.freeBuffer (s : System) (event : Event) (page : AllocatedPage) : System :=
  { s with
    driver := xhciFreePage page s.driver
    freed := s.freed ++ [(event, page)] }

/-- The callback of a job begins; `page` is freed when it returns. -/
def System.call (s : System) (call : Call) (page : Option AllocatedPage) : System :=
  { s with
    calls := s.calls ++ [call]
    running := (call.event, page) :: s.running }

/-- What `xhci_poll_events` does with an event and the job it belongs to,
up to the callback. -/
def System.handleJob (s : System) (event : Event) (job : TransferJob) : System :=
  if completionCode event.trb ≠ completionCodeSuccess then
    let s := if job.hasData then s.freeBuffer event job.dataBuffer else s
    if job.callback ≠ 0 then
      s.call ⟨event, job.callback, .failed, none, 0, job.callbackContext⟩ none
    else s
  else if job.hasData then
    s.call ⟨event, job.callback, .success, some job.dataBuffer.virtualAddress, job.transferLength,
      job.callbackContext⟩ (some job.dataBuffer)
  else
    s.call ⟨event, job.callback, .success, none, 0, job.callbackContext⟩ none

/-- `xhci_poll_events` takes the next event, if there is one. -/
def System.pollEvent (s : System) : Option System :=
  match s.eventRing with
  | [] => none
  | event :: rest =>
    let s := { s with eventRing := rest }
    let slot := slotId event.trb
    let endpoint := endpointId event.trb
    if endpoint = 0 then some s
    else if s.driver.enabled slot = false then some s
    else
      match (s.driver.transferJobs slot (endpoint - 1)).dequeue with
      | none => some s
      | some (job, jobs) =>
        some ({ s with driver := s.driver.setJobs slot (endpoint - 1) jobs }.handleJob event job)

/-- The callback that runs returns to `xhci_poll_events`. -/
def System.callbackReturns (s : System) : Option System :=
  match s.running with
  | [] => none
  | (event, page) :: rest =>
    let s := { s with running := rest }
    match page with
    | none => some s
    | some page => some (s.freeBuffer event page)

/-! ## Commands -/

/-- A command is enqueued and its doorbell is rung; now it waits. -/
def System.issue (s : System) (kind : CommandKind) : System :=
  let command : Command := ⟨s.issued, kind⟩
  { s with
    waiting := some command
    commands := s.commands ++ [command]
    issued := s.issued + 1 }

/-- `xhci_configure_endpoint` up to its command: the page of the input
context and that of the new ring are allocated. -/
def xhciConfigureEndpoint (mmapVirtualToPhysical : Word → Option Word) (s : System) : System :=
  match xhciAllocPage mmapVirtualToPhysical s.driver with
  | none => s
  | some (inputContext, driver) =>
    let s := { s with driver }
    match xhciAllocPage mmapVirtualToPhysical s.driver with
    | none => s
    | some (_, driver) => { s with driver }.issue (.configureEndpoint inputContext)

/-- `xhci_address_device` between its commands: three pages are allocated,
one after another. -/
def xhciAddressDevice (mmapVirtualToPhysical : Word → Option Word) :
    Nat → System → System
  | 0, s => s.issue .addressDevice
  | pages + 1, s =>
    match xhciAllocPage mmapVirtualToPhysical s.driver with
    | none => s
    | some (_, driver) => xhciAddressDevice mmapVirtualToPhysical pages { s with driver }

/-- The driver goes on after a command that was successful. -/
def System.afterSuccess (mmapVirtualToPhysical : Word → Option Word) (s : System) (event : Event) :
    CommandKind → System
  | .enableSlot => { s with driver := s.driver.enable (slotId event.trb) }
  | .enableSlotFor =>
    xhciAddressDevice mmapVirtualToPhysical 3
      { s with driver := s.driver.enable (slotId event.trb) }
  | .addressDevice => s
  | .configureEndpoint inputContext => { s with driver := xhciFreePage inputContext s.driver }

/-- `xhci_trb_is_type` and `xhci_command_is_successful`. -/
def commandSucceeds (event : Event) : Bool :=
  event.trb.isType trbTypeCommandCompletion && completionCode event.trb = completionCodeSuccess

/-- The command that waits takes the next event. -/
def System.takeEvent (mmapVirtualToPhysical : Word → Option Word) (s : System) : Option System :=
  match s.waiting, s.eventRing with
  | some command, event :: rest =>
    let s := { s with
      eventRing := rest
      waiting := none
      results := s.results ++ [(command, commandSucceeds event)] }
    if commandSucceeds event then
      some (s.afterSuccess mmapVirtualToPhysical event command.kind)
    else some s
  | _, _ => none

/-! ## The controller -/

/-- The TRB asks for no event. -/
def isSilent (trb : Trb) : Bool := trb.control &&& trbControlIoc = 0

/-- What is left of a ring after the first TRB that asks for an event. -/
def remainingTrbs (trbs : List Trb) : List Trb := (trbs.dropWhile isSilent).tail

/-- The controller completes the oldest transfer of an endpoint: it is done
with its TRBs, and its event is on the event ring. -/
def System.completeTransfer (s : System) (slot : Slot) (endpoint : Nat) (trb : Trb) :
    Option System :=
  match s.pending slot endpoint with
  | [] => none
  | transfer :: rest =>
    if slotId trb = slot ∧ endpointId trb = endpoint ∧ trb.isType trbTypeTransferEvent then
      some { s with
        transferRings := setAt s.transferRings slot endpoint
          (remainingTrbs (s.transferRings slot endpoint))
        pending := setAt s.pending slot endpoint rest
        eventRing := s.eventRing ++ [⟨trb, .transfer transfer⟩]
        delivered := s.delivered ++ [transfer] }
    else none

/-- The commands that ask for a slot. -/
def CommandKind.enables : CommandKind → Bool
  | .enableSlot | .enableSlotFor => true
  | _ => false

/-- The controller completes the oldest command. A slot that it assigns is
not in use. -/
def System.completeCommand (s : System) (trb : Trb) : Option System :=
  match s.commands with
  | [] => none
  | command :: rest =>
    let success : Bool := completionCode trb = completionCodeSuccess
    if trb.isType trbTypeCommandCompletion ∧ endpointId trb = 0 ∧
        (command.kind.enables ∧ success → s.driver.enabled (slotId trb) = false) then
      some { s with
        commands := rest
        eventRing := s.eventRing ++ [⟨trb, .command command⟩]
        completed := s.completed ++ [(command, success)] }
    else none

/-- An event of the controller that belongs to no transfer and no command. -/
def System.portEvent (s : System) (trb : Trb) : Option System :=
  if trb.isType trbTypeCommandCompletion = false ∧ endpointId trb = 0 then
    some { s with eventRing := s.eventRing ++ [⟨trb, .port⟩] }
  else none

end ZOs.Xhci.Jobs
