import ZOs.Usb.DmaPages
import ZOs.Usb.RingProtocol

/-!
# Submissions on the rings themselves

`xhci_control_transfer` and `xhci_transfer` once more, on the TRB rings in
memory and with the controller's side of them. Neither looks at what is left
of a ring or at the result of `ring_buffer_enqueue`, and a control transfer
has enqueued its first TRB before it asks for a page.
-/

namespace ZOs.Xhci.Submission

open Jobs Runs PhaseRing ZOs.Utils

/-- The size that every transfer ring is initialised with. -/
def transferRingSize : Nat := 256

/-! ## Enqueueing -/

/-- `xhci_transfer_ring_enqueue`, with the record of what was enqueued. -/
def enqueue (t : Transfers) (trb : Trb) : Transfers :=
  { t with ring := transferRingEnqueue t.ring trb, enqueued := t.enqueued ++ [trb] }

/-- One TRB after another. -/
def enqueueAll (t : Transfers) (trbs : List Trb) : Transfers := trbs.foldl enqueue t

/-- What is in the slots of the TRBs that the controller has not consumed,
the oldest first. -/
def unconsumed (t : Transfers) : List Trb :=
  (List.range (t.enqueued.length - t.consumer.received.length)).map fun k =>
    t.ring.slots ((t.consumer.received.length + k) % (t.ring.ringSize - 1))

section

variable {n : Nat} {t : Transfers} {trbs : List Trb}

theorem enqueueAll_enqueued (t : Transfers) (trbs : List Trb) :
    (enqueueAll t trbs).enqueued = t.enqueued ++ trbs := by
  induction trbs generalizing t with
  | nil => exact (List.append_nil _).symm
  | cons trb rest ih =>
    have hrest := ih (enqueue t trb)
    simpa [enqueueAll, enqueue] using hrest

theorem enqueueAll_consumer (t : Transfers) (trbs : List Trb) :
    (enqueueAll t trbs).consumer = t.consumer := by
  induction trbs generalizing t with
  | nil => rfl
  | cons trb rest ih => exact ih (enqueue t trb)

/-- The rings see nothing of the controller. -/
theorem enqueueAll_ring (t : Transfers) (c : Consumer) (trbs : List Trb) :
    (enqueueAll { t with consumer := c } trbs).ring = (enqueueAll t trbs).ring := by
  induction trbs generalizing t with
  | nil => rfl
  | cons trb rest ih => exact ih (enqueue t trb)

/-- With room for all of them, the ring is in order. -/
theorem enqueueAll_inv (h : TransferInv n t) (htrbs : ∀ trb ∈ trbs, trb.isLink = false)
    (hroom : t.enqueued.length + trbs.length ≤ t.consumer.received.length + (n - 1)) :
    TransferInv n (enqueueAll t trbs) := by
  induction trbs generalizing t with
  | nil => exact h
  | cons trb rest ih =>
    obtain ⟨htrb, hrest⟩ := List.forall_mem_cons.mp htrbs
    rw [List.length_cons] at hroom
    have hnext : TransferInv n (enqueue t trb) := h.enqueue htrb (by omega)
    apply ih hnext hrest
    have hlength : (enqueue t trb).enqueued.length = t.enqueued.length + 1 := by simp [enqueue]
    rw [hlength]
    show _ ≤ t.consumer.received.length + (n - 1)
    omega

/-- The controller when it has consumed everything. -/
def caughtUp (n : Nat) (t : Transfers) : Consumer where
  position := t.enqueued.length % (n - 1)
  expected := phase (t.enqueued.length / (n - 1))
  received := t.enqueued

theorem caughtUp_inv (h : TransferInv n t) : TransferInv n { t with consumer := caughtUp n t } := by
  have hsize := h.size
  refine ⟨h.size, h.ringSize, h.linkTrb, h.enqueuePtr, h.noLink, Nat.le_refl _, Nat.le_add_right ..,
    h.window, h.link, h.producer, ⟨t.enqueued.length / (n - 1), ?_, ?_, rfl⟩, ?_⟩
  · exact (Nat.div_add_mod' _ _).symm
  · exact Nat.le_of_lt (Nat.mod_lt _ (by omega))
  · exact congrArg _ (List.take_length).symm

/-- What the slots hold does not depend on the controller, however many
TRBs it has left. -/
theorem enqueueAll_window (h : TransferInv n t) (htrbs : ∀ trb ∈ trbs, trb.isLink = false)
    (hfew : trbs.length ≤ n - 1) :
    Window (n - 1) Trb.cycle (enqueueAll t trbs).ring.slots
      (storedTrb (n - 1) (t.enqueued ++ trbs)) (t.enqueued.length + trbs.length) := by
  have hinv := enqueueAll_inv (caughtUp_inv h) htrbs (Nat.add_le_add_left hfew _)
  have hwindow := hinv.window
  rw [enqueueAll_ring, enqueueAll_enqueued, List.length_append] at hwindow
  exact hwindow

theorem enqueueAll_ringSize (h : TransferInv n t) (htrbs : ∀ trb ∈ trbs, trb.isLink = false)
    (hfew : trbs.length ≤ n - 1) : (enqueueAll t trbs).ring.ringSize = n := by
  have hinv := enqueueAll_inv (caughtUp_inv h) htrbs (Nat.add_le_add_left hfew _)
  have hsize := hinv.ringSize
  rwa [enqueueAll_ring] at hsize

/-- The unconsumed TRBs of a ring that is in order. -/
theorem unconsumed_eq (h : TransferInv n t) : unconsumed t =
    (List.range (t.enqueued.length - t.consumer.received.length)).map fun k =>
      storedTrb (n - 1) t.enqueued (t.consumer.received.length + k) := by
  have hroom := h.room
  unfold unconsumed
  rw [h.ringSize]
  apply List.map_congr_left
  intro k hk
  rw [List.mem_range] at hk
  exact h.window.recent _ (by omega) (by omega)

theorem unconsumed_length (t : Transfers) :
    (unconsumed t).length = t.enqueued.length - t.consumer.received.length := by
  simp [unconsumed]

/-- The controller will find the TRBs of `trbs` behind those it had not
consumed, which are still there. -/
def Queued (t : Transfers) (trbs : List Trb) (t' : Transfers) : Prop :=
  ∃ stored, stored.map Trb.payload = trbs.map Trb.payload ∧
    unconsumed t' = unconsumed t ++ stored

theorem queued_of_room (h : TransferInv n t) (htrbs : ∀ trb ∈ trbs, trb.isLink = false)
    (hroom : (unconsumed t).length + trbs.length ≤ n - 1) :
    Queued t trbs (enqueueAll t trbs) := by
  have hbehind := h.behind
  rw [unconsumed_length] at hroom
  have hinv := enqueueAll_inv h htrbs (by omega)
  have hlength : t.enqueued.length + trbs.length - t.consumer.received.length =
      (t.enqueued.length - t.consumer.received.length) + trbs.length := by omega
  refine ⟨(List.range trbs.length).map fun k =>
    storedTrb (n - 1) (t.enqueued ++ trbs) (t.enqueued.length + k), ?_, ?_⟩
  · apply List.ext_getElem
    · simp
    · intro k _ hk
      rw [List.length_map] at hk
      have hlt : t.enqueued.length + k < (t.enqueued ++ trbs).length := by
        rw [List.length_append]
        omega
      simp [payload_storedTrb hlt]
  · rw [unconsumed_eq hinv, unconsumed_eq h, enqueueAll_enqueued, enqueueAll_consumer,
      List.length_append, hlength, List.range_add, List.map_append, List.map_map]
    congr 1
    · apply List.map_congr_left
      intro k hk
      rw [List.mem_range] at hk
      have hlt : t.consumer.received.length + k < t.enqueued.length := by omega
      simp [storedTrb, List.getElem?_append_left hlt]
    · apply List.map_congr_left
      intro k _
      show storedTrb _ _ (_ + (_ + k)) = _
      congr 1
      omega

/-- Without room, the oldest TRB is overwritten. -/
theorem room_of_queued (h : TransferInv n t) (htrbs : ∀ trb ∈ trbs, trb.isLink = false)
    (hfew : trbs.length ≤ n - 1) {trbs' : List Trb} (hqueued : Queued t trbs' (enqueueAll t trbs)) :
    (unconsumed t).length + trbs.length ≤ n - 1 := by
  by_contra hfull
  have hsize := h.size
  have hbehind := h.behind
  have hroom := h.room
  rw [unconsumed_length] at hfull
  have hwindow := enqueueAll_window h htrbs hfew
  obtain ⟨stored, -, heq⟩ := hqueued
  -- the slot of the oldest TRB, before and after
  have hold : (unconsumed t)[0]? = some (t.ring.slots (t.consumer.received.length % (n - 1))) := by
    simp [unconsumed, h.ringSize, show 0 < t.enqueued.length - t.consumer.received.length by omega]
  have hnew : (unconsumed (enqueueAll t trbs))[0]? =
      some ((enqueueAll t trbs).ring.slots (t.consumer.received.length % (n - 1))) := by
    simp [unconsumed, enqueueAll_enqueued, enqueueAll_consumer, enqueueAll_ringSize h htrbs hfew,
      show 0 < t.enqueued.length + trbs.length - t.consumer.received.length by omega]
  have hsame : t.ring.slots (t.consumer.received.length % (n - 1)) =
      (enqueueAll t trbs).ring.slots (t.consumer.received.length % (n - 1)) := by
    rw [heq, List.getElem?_append_left (by rw [unconsumed_length]; omega), hold] at hnew
    exact Option.some.inj hnew
  have hbefore := h.window.recent t.consumer.received.length (by omega) (by omega)
  have hafter := hwindow.recent (t.consumer.received.length + (n - 1)) (by omega) (by omega)
  have hcycle := h.window.cycle t.consumer.received.length (by omega)
  have hcycle' := hwindow.cycle (t.consumer.received.length + (n - 1)) (by omega)
  rw [Nat.add_mod_right] at hafter
  rw [← hafter, ← hsame, hbefore, hcycle, Nat.add_div_right _ (by omega)] at hcycle'
  exact phase_ne_succ _ hcycle'

end

/-! ## The driver and its rings -/

/-- The driver and the transfer rings, by slot and context index. -/
structure State where
  driver : Driver
  rings : Slot → Nat → Transfers

namespace State

/-- `xhci_transfer_ring_enqueue` on a ring of a device. -/
def enqueueTrb (s : State) (slot : Slot) (contextIdx : Nat) (trb : Trb) : State :=
  { s with rings := setAt s.rings slot contextIdx (enqueue (s.rings slot contextIdx) trb) }

/-- `ring_buffer_enqueue` into the jobs of an endpoint; nobody looks at the result. -/
def enqueueJob (s : State) (slot : Slot) (endpoint : Nat) (job : TransferJob) : State :=
  { s with driver :=
      s.driver.setJobs slot endpoint ((s.driver.transferJobs slot endpoint).enqueue job).2 }

/-- What the endpoint's jobs are, the oldest first. -/
def jobs (s : State) (slot : Slot) (endpoint : Nat) : List TransferJob :=
  (s.driver.transferJobs slot endpoint).toList

end State

/-- The job of a control transfer. -/
def controlJob (request : ControlTransferRequest) : Option AllocatedPage → TransferJob
  | none =>
    { zeroJob with
      callback := request.callback.address
      callbackContext := request.callbackContext
      transferLength := request.setupPacket.wLength.setWidth 64 }
  | some page =>
    { callback := request.callback.address
      callbackContext := request.callbackContext
      dataBuffer := page
      transferLength := request.setupPacket.wLength.setWidth 64
      hasData := true }

/-- The job of a transfer. -/
def transferJob (request : TransferRequest) (page : AllocatedPage) : TransferJob where
  callback := request.callback.address
  callbackContext := request.callbackContext
  dataBuffer := page
  transferLength := request.transferLength
  hasData := true

/-- `xhci_control_transfer`. -/
def xhciControlTransfer (mmapVirtualToPhysical : Word → Option Word) (slot : Slot)
    (request : ControlTransferRequest) (s : State) : Int × State :=
  let s := s.enqueueTrb slot 1 (setupStageTrb request)
  if request.transferType = .noData then
    let s := s.enqueueTrb slot 1 statusStageTrb
    (0, s.enqueueJob slot 0 (controlJob request none))
  else
    match xhciAllocPage mmapVirtualToPhysical s.driver with
    | none => (-1, s)
    | some (page, driver) =>
      let s := { s with driver }
      let s := s.enqueueTrb slot 1 (dataStageTrb page request.setupPacket.wLength)
      let s := s.enqueueTrb slot 1 statusStageTrb
      (0, s.enqueueJob slot 0 (controlJob request (some page)))

/-- `xhci_transfer`. -/
def xhciTransfer (mmapVirtualToPhysical : Word → Option Word) (slot : Slot)
    (request : TransferRequest) (s : State) : Int × State :=
  match xhciAllocPage mmapVirtualToPhysical s.driver with
  | none => (-1, s)
  | some (page, driver) =>
    let s := { s with driver }
    let s := s.enqueueTrb slot request.endpoint.contextIdx (transferTrb page request)
    (0, s.enqueueJob slot (request.endpoint.contextIdx - 1) (transferJob request page))

/-- The TRBs of a control transfer. -/
def controlTrbs (request : ControlTransferRequest) : Option AllocatedPage → List Trb
  | none => [setupStageTrb request, statusStageTrb]
  | some page =>
    [setupStageTrb request, dataStageTrb page request.setupPacket.wLength, statusStageTrb]

/-! ## All or nothing -/

/-- The controller will find the TRBs, and the driver the job. -/
structure Submitted (s : State) (slot : Slot) (contextIdx : Nat) (trbs : List Trb)
    (job : TransferJob) (s' : State) : Prop where
  trbs : Queued (s.rings slot contextIdx) trbs (s'.rings slot contextIdx)
  job : s'.jobs slot (contextIdx - 1) = s.jobs slot (contextIdx - 1) ++ [job]

/-- Neither a ring, nor the jobs, nor the pages in use are different. -/
structure Untouched (s s' : State) : Prop where
  rings : ∀ slot contextIdx, (s'.rings slot contextIdx).ring = (s.rings slot contextIdx).ring
  jobs : s'.driver.transferJobs = s.driver.transferJobs
  pages : s'.driver.heapPageAllocated = s.driver.heapPageAllocated

/-- A page of the heap that was free, and is not any more. -/
def Taken (s : State) (page : AllocatedPage) (s' : State) : Prop :=
  pageIndex page < xhciHeapMaxPages ∧ s.driver.heapPageAllocated (pageIndex page) = false ∧
    s'.driver.heapPageAllocated =
      Function.update s.driver.heapPageAllocated (pageIndex page) true

/-- A control transfer is queued whole, or not at all. -/
def ControlLaw (mmapVirtualToPhysical : Word → Option Word) (slot : Slot)
    (request : ControlTransferRequest) (s : State) : Prop :=
  let (result, s') := xhciControlTransfer mmapVirtualToPhysical slot request s
  (result = 0 ∧ ∃ buffer, (buffer.isSome = true ↔ request.transferType ≠ .noData) ∧
    (∀ page ∈ buffer, Taken s page s') ∧
    Submitted s slot 1 (controlTrbs request buffer) (controlJob request buffer) s') ∨
  (result = -1 ∧ Untouched s s')

/-- A transfer is queued whole, or not at all. -/
def TransferLaw (mmapVirtualToPhysical : Word → Option Word) (slot : Slot)
    (request : TransferRequest) (s : State) : Prop :=
  let (result, s') := xhciTransfer mmapVirtualToPhysical slot request s
  (result = 0 ∧ ∃ page, Taken s page s' ∧
    Submitted s slot request.endpoint.contextIdx [transferTrb page request]
      (transferJob request page) s') ∨
  (result = -1 ∧ Untouched s s')

/-- A page of the heap is free. -/
def HasPage (s : State) : Prop := ∃ i < xhciHeapMaxPages, s.driver.heapPageAllocated i = false

/-- There is room on the ring for some TRBs, and for a job. -/
def HasRoom (s : State) (slot : Slot) (contextIdx trbs : Nat) : Prop :=
  (unconsumed (s.rings slot contextIdx)).length + trbs ≤ transferRingSize - 1 ∧
    (s.driver.transferJobs slot (contextIdx - 1)).isFull = false

/-- What a control transfer has to find. -/
def ControlFits (request : ControlTransferRequest) (slot : Slot) (s : State) : Prop :=
  if request.transferType = .noData then HasRoom s slot 1 2 else HasPage s ∧ HasRoom s slot 1 3

/-- What a transfer has to find. It asks for its page first. -/
def TransferFits (request : TransferRequest) (slot : Slot) (s : State) : Prop :=
  HasPage s → HasRoom s slot request.endpoint.contextIdx 1

/-! ## Runs -/

inductive Action
  | control (slot : Slot) (request : ControlTransferRequest)
  | transfer (slot : Slot) (request : TransferRequest)
  /-- The controller takes the next TRB of a ring. -/
  | consume (slot : Slot) (contextIdx : Nat)
  /-- `xhci_transfer_ring_init` on a zeroed page. -/
  | newRing (slot : Slot) (contextIdx : Nat) (base : AllocatedPage)
  | enable (slot : Slot)
  /-- The poller takes a job. -/
  | takeJob (slot : Slot) (endpoint : Nat)
  | allocPage
  | freePage (page : AllocatedPage)

/-- A step of the driver or of the controller. Transfers are for devices
that are enabled. -/
inductive Step (mmapVirtualToPhysical : Word → Option Word) : State → Action → State → Prop
  | control {s : State} {slot : Slot} {request : ControlTransferRequest} :
      s.driver.enabled slot = true → Step mmapVirtualToPhysical s (.control slot request)
        (xhciControlTransfer mmapVirtualToPhysical slot request s).2
  | transfer {s : State} {slot : Slot} {request : TransferRequest} :
      s.driver.enabled slot = true → Step mmapVirtualToPhysical s (.transfer slot request)
        (xhciTransfer mmapVirtualToPhysical slot request s).2
  | consume {s : State} {slot : Slot} {contextIdx : Nat} {consumer : Consumer} :
      (s.rings slot contextIdx).consumer.take? (s.rings slot contextIdx).ring.slots =
        some consumer →
      Step mmapVirtualToPhysical s (.consume slot contextIdx)
        { s with
          rings := setAt s.rings slot contextIdx { s.rings slot contextIdx with consumer } }
  | newRing {s : State} {slot : Slot} {contextIdx : Nat} {base : AllocatedPage} :
      Step mmapVirtualToPhysical s (.newRing slot contextIdx base)
        { s with
          rings := setAt s.rings slot contextIdx (transfersInit base transferRingSize) }
  | enable {s : State} {slot : Slot} :
      Step mmapVirtualToPhysical s (.enable slot) { s with driver := s.driver.enable slot }
  | takeJob {s : State} {slot : Slot} {endpoint : Nat} {job : TransferJob}
      {jobs : RingBuffer TransferJob} :
      (s.driver.transferJobs slot endpoint).dequeue = some (job, jobs) →
      Step mmapVirtualToPhysical s (.takeJob slot endpoint)
        { s with driver := s.driver.setJobs slot endpoint jobs }
  | allocPage {s : State} {page : AllocatedPage} {driver : Driver} :
      xhciAllocPage mmapVirtualToPhysical s.driver = some (page, driver) →
      Step mmapVirtualToPhysical s .allocPage { s with driver }
  | freePage {s : State} {page : AllocatedPage} :
      Step mmapVirtualToPhysical s (.freePage page) { s with driver := xhciFreePage page s.driver }

/-- No device is enabled. A ring that nobody has initialised counts as a
fresh one; there are no requests for it. -/
structure Init (s : State) : Prop where
  rings : ∀ slot contextIdx, ∃ base, s.rings slot contextIdx = transfersInit base transferRingSize
  enabled : ∀ slot, s.driver.enabled slot = false
  free : ∀ i < xhciHeapMaxPages, s.driver.heapPageAllocated i = false
  last : s.driver.lastModifiedHeapPageIdx < xhciHeapMaxPages

/-- A submission obeys its law. -/
def Ok (mmapVirtualToPhysical : Word → Option Word) (s : State) : Action → Prop
  | .control slot request => ControlLaw mmapVirtualToPhysical slot request s
  | .transfer slot request => TransferLaw mmapVirtualToPhysical slot request s
  | _ => True

/-- A submission finds what it has to find. -/
def Fits (s : State) : Action → Prop
  | .control slot request => ControlFits request slot s
  | .transfer slot request => TransferFits request slot s
  | _ => True

/-- The rings are in order, and the jobs of the devices that are enabled. -/
structure Inv (s : State) : Prop where
  rings : ∀ slot contextIdx, TransferInv transferRingSize (s.rings slot contextIdx)
  jobs : ∀ slot, s.driver.enabled slot = true → ∀ endpoint < xhciMaxNumEndpoints,
    ∃ l, (s.driver.transferJobs slot endpoint).Holds l
  last : s.driver.lastModifiedHeapPageIdx < xhciHeapMaxPages

section

variable {translate : Word → Option Word} {s s' : State} {slot : Slot} {contextIdx : Nat}
  {trbs : List Trb} {job : TransferJob} {driver : Driver} {page : AllocatedPage}

/-! ## What a submission does -/

/-- TRBs and a job are enqueued, by a driver that may have taken a page. -/
def State.submit (s : State) (driver : Driver) (slot : Slot) (contextIdx : Nat) (trbs : List Trb)
    (job : TransferJob) : State where
  driver := driver.setJobs slot (contextIdx - 1)
    ((driver.transferJobs slot (contextIdx - 1)).enqueue job).2
  rings := setAt s.rings slot contextIdx (enqueueAll (s.rings slot contextIdx) trbs)

@[simp] theorem submit_rings : (s.submit driver slot contextIdx trbs job).rings slot contextIdx =
    enqueueAll (s.rings slot contextIdx) trbs := setAt_self

@[simp] theorem submit_jobs :
    (s.submit driver slot contextIdx trbs job).jobs slot (contextIdx - 1) =
      ((driver.transferJobs slot (contextIdx - 1)).enqueue job).2.toList :=
  congrArg RingBuffer.toList setAt_self

theorem xhciControlTransfer_noData {request : ControlTransferRequest}
    (h : request.transferType = .noData) : xhciControlTransfer translate slot request s =
      (0, s.submit s.driver slot 1 (controlTrbs request none) (controlJob request none)) := by
  unfold xhciControlTransfer
  simp [h, State.enqueueTrb, State.enqueueJob, State.submit, controlTrbs, enqueueAll, setAt_setAt]

theorem xhciControlTransfer_page {request : ControlTransferRequest}
    (h : request.transferType ≠ .noData)
    (halloc : xhciAllocPage translate s.driver = some (page, driver)) :
    xhciControlTransfer translate slot request s =
      (0, s.submit driver slot 1 (controlTrbs request (some page))
        (controlJob request (some page))) := by
  unfold xhciControlTransfer
  simp [h, halloc, State.enqueueTrb, State.enqueueJob, State.submit, controlTrbs, enqueueAll,
    setAt_setAt]

theorem xhciControlTransfer_noPage {request : ControlTransferRequest}
    (h : request.transferType ≠ .noData) (halloc : xhciAllocPage translate s.driver = none) :
    xhciControlTransfer translate slot request s =
      (-1, s.enqueueTrb slot 1 (setupStageTrb request)) := by
  unfold xhciControlTransfer
  simp [h, halloc, State.enqueueTrb]

theorem xhciTransfer_page {request : TransferRequest}
    (halloc : xhciAllocPage translate s.driver = some (page, driver)) :
    xhciTransfer translate slot request s =
      (0, s.submit driver slot request.endpoint.contextIdx [transferTrb page request]
        (transferJob request page)) := by
  unfold xhciTransfer
  simp [halloc, State.enqueueTrb, State.enqueueJob, State.submit, enqueueAll]

theorem xhciTransfer_noPage {request : TransferRequest}
    (halloc : xhciAllocPage translate s.driver = none) :
    xhciTransfer translate slot request s = (-1, s) := by
  unfold xhciTransfer
  rw [halloc]

/-- None of the TRBs is a Link TRB. -/
theorem controlTrbs_noLink (request : ControlTransferRequest) (buffer : Option AllocatedPage) :
    ∀ trb ∈ controlTrbs request buffer, trb.isLink = false := by
  have hsetup : (setupStageTrb request).isLink = false := by
    show (((setupStageControl _ _ >>> 10) &&& (0x3f : BitVec 32) = trbTypeLink >>> 10 : Bool)) = _
    cases request.immediateDataTransfer <;> cases request.transferType <;> decide
  have hdata (page : AllocatedPage) (wLength : BitVec 16) :
      (dataStageTrb page wLength).isLink = false := by
    show ((((trbDataStageInDirection ||| trbTypeDataStage) >>> 10) &&& (0x3f : BitVec 32) =
      trbTypeLink >>> 10 : Bool)) = _
    decide
  have hstatus : statusStageTrb.isLink = false := by decide
  cases buffer <;> simp [controlTrbs, hsetup, hdata, hstatus]

theorem controlTrbs_few (request : ControlTransferRequest) (buffer : Option AllocatedPage) :
    (controlTrbs request buffer).length ≤ transferRingSize - 1 := by
  cases buffer <;> simp [controlTrbs, transferRingSize]

theorem transferTrb_noLink (request : TransferRequest) (page : AllocatedPage) :
    ∀ trb ∈ [transferTrb page request], trb.isLink = false := by
  rw [List.forall_mem_singleton]
  show (((transferControl _ >>> 10) &&& (0x3f : BitVec 32) = trbTypeLink >>> 10 : Bool)) = _
  cases request.interruptOnShortPacket <;> decide

/-- The job ring and the TRB ring take what they have room for. -/
theorem Inv.submitted (h : Inv s) (job : TransferJob) (henabled : s.driver.enabled slot = true)
    (hinside : contextIdx - 1 < xhciMaxNumEndpoints) (htrbs : ∀ trb ∈ trbs, trb.isLink = false)
    (hdriver : driver.transferJobs = s.driver.transferJobs)
    (hroom : HasRoom s slot contextIdx trbs.length) :
    Submitted s slot contextIdx trbs job (s.submit driver slot contextIdx trbs job) := by
  obtain ⟨htrbRoom, hjobRoom⟩ := hroom
  obtain ⟨l, hholds⟩ := h.jobs slot henabled _ hinside
  constructor
  · have hqueued := queued_of_room (h.rings slot contextIdx) htrbs htrbRoom
    simpa using hqueued
  · have hlt : l.length < (s.driver.transferJobs slot (contextIdx - 1)).ringSize := by
      refine Nat.lt_of_le_of_ne hholds.room fun hfull => ?_
      rw [hholds.isFull_iff.mpr hfull] at hjobRoom
      cases hjobRoom
    obtain ⟨ring, henqueue, hnew, -⟩ := hholds.enqueue (a := job) hlt
    rw [submit_jobs, hdriver, henqueue, hnew.toList_eq, State.jobs, hholds.toList_eq]

/-- Whatever it is that was submitted, there was room. -/
theorem Inv.room (h : Inv s) (henabled : s.driver.enabled slot = true)
    (hinside : contextIdx - 1 < xhciMaxNumEndpoints) (htrbs : ∀ trb ∈ trbs, trb.isLink = false)
    (hfew : trbs.length ≤ transferRingSize - 1)
    (hdriver : driver.transferJobs = s.driver.transferJobs) {trbs' : List Trb} {job' : TransferJob}
    (hsubmitted : Submitted s slot contextIdx trbs' job'
      (s.submit driver slot contextIdx trbs job)) : HasRoom s slot contextIdx trbs.length := by
  obtain ⟨l, hholds⟩ := h.jobs slot henabled _ hinside
  constructor
  · have hqueued := hsubmitted.trbs
    rw [submit_rings] at hqueued
    exact room_of_queued (h.rings slot contextIdx) htrbs hfew hqueued
  · rw [Bool.eq_false_iff]
    intro hfull
    have hsame := hsubmitted.job
    have henqueue := hholds.enqueue_full (a := job) (hholds.isFull_iff.mp hfull)
    rw [submit_jobs, hdriver, henqueue] at hsame
    have hlength := congrArg List.length hsame
    simp [State.jobs] at hlength

/-- The rings stay in order if there is room. A job that is not taken does not harm. -/
theorem Inv.submit (h : Inv s) (htrbs : ∀ trb ∈ trbs, trb.isLink = false)
    (hdriver : driver.transferJobs = s.driver.transferJobs)
    (henabled : driver.enabled = s.driver.enabled)
    (hlast : driver.lastModifiedHeapPageIdx < xhciHeapMaxPages)
    (hroom : HasRoom s slot contextIdx trbs.length) :
    Inv (s.submit driver slot contextIdx trbs job) := by
  refine ⟨fun slot' idx => ?_, fun slot' hon endpoint hlt => ?_, hlast⟩
  · show TransferInv _ (setAt s.rings slot contextIdx _ slot' idx)
    by_cases hat : slot' = slot ∧ idx = contextIdx
    · obtain ⟨rfl, rfl⟩ := hat
      have hinv := h.rings slot' idx
      have hfree := hroom.1
      have hbehind := hinv.behind
      rw [unconsumed_length] at hfree
      rw [setAt_self]
      exact enqueueAll_inv hinv htrbs (by omega)
    · rw [setAt_of_ne hat]
      exact h.rings slot' idx
  · have hon' : s.driver.enabled slot' = true := by
      rw [← henabled]
      exact hon
    obtain ⟨l, hholds⟩ := h.jobs slot' hon' endpoint hlt
    show ∃ l, (setAt driver.transferJobs slot (contextIdx - 1) _ slot' endpoint).Holds l
    rw [hdriver]
    by_cases hat : slot' = slot ∧ endpoint = contextIdx - 1
    · obtain ⟨rfl, rfl⟩ := hat
      rw [setAt_self]
      have hlength := hholds.isFull_iff.not.mp (Bool.eq_false_iff.mp hroom.2)
      have hle := hholds.room
      obtain ⟨ring, henqueue, hnew, -⟩ := hholds.enqueue (a := job) (by omega)
      rw [henqueue]
      exact ⟨_, hnew⟩
    · rw [setAt_of_ne hat]
      exact ⟨l, hholds⟩

/-! ## The laws -/

/-- A call of `xhci_alloc_page` that fails says that no page is free. -/
theorem not_hasPage (hmapped : Dma.HeapMapped translate)
    (hlast : s.driver.lastModifiedHeapPageIdx < xhciHeapMaxPages)
    (halloc : xhciAllocPage translate s.driver = none) : ¬ HasPage s := by
  intro hpage
  obtain ⟨page, driver, hsome⟩ := xhciAllocPage_isSome hmapped hlast hpage
  cases halloc.symm.trans hsome

/-- A TRB is visible on the ring. -/
theorem Inv.touched (h : Inv s) (trb : Trb) : ¬ Untouched s (s.enqueueTrb slot contextIdx trb) := by
  intro hsame
  have hring : (setAt s.rings slot contextIdx (enqueue (s.rings slot contextIdx) trb) slot
      contextIdx).ring = (s.rings slot contextIdx).ring := hsame.rings slot contextIdx
  rw [setAt_self] at hring
  have hcount := congrArg TrbRing.entryCount hring
  have hsize := (h.rings slot contextIdx).ringSize
  rcases Nat.lt_or_ge (s.rings slot contextIdx).ring.entryCount
    ((s.rings slot contextIdx).ring.ringSize - 1) with hlt | hge
  · rw [enqueue, transferRingEnqueue_within hlt] at hcount
    exact Nat.succ_ne_self _ hcount
  · rw [enqueue, transferRingEnqueue_wrap hge] at hcount
    have hone : 1 = (s.rings slot contextIdx).ring.entryCount := hcount
    rw [← hone, hsize] at hge
    exact absurd hge (by decide)

theorem Inv.controlLaw_iff (h : Inv s) (hmapped : Dma.HeapMapped translate)
    (henabled : s.driver.enabled slot = true) (request : ControlTransferRequest) :
    ControlLaw translate slot request s ↔ ControlFits request slot s := by
  unfold ControlLaw ControlFits
  by_cases htype : request.transferType = .noData
  · rw [xhciControlTransfer_noData htype, if_pos htype]
    constructor
    · rintro (⟨-, _, -, -, hsubmitted⟩ | ⟨hresult, -⟩)
      · exact h.room henabled (by decide) (controlTrbs_noLink request none)
          (controlTrbs_few request none) rfl hsubmitted
      · cases hresult
    · intro hroom
      have hsubmitted := h.submitted (controlJob request none) henabled (by decide)
        (controlTrbs_noLink request none) rfl hroom
      exact .inl ⟨rfl, none, by simp [htype], by simp, hsubmitted⟩
  · rw [if_neg htype]
    cases halloc : xhciAllocPage translate s.driver with
    | none =>
      rw [xhciControlTransfer_noPage htype halloc]
      -- the TRB of the setup stage stays behind
      refine iff_of_false ?_ fun hfits => not_hasPage hmapped h.last halloc hfits.1
      rintro (⟨hresult, -⟩ | ⟨-, hsame⟩)
      · cases hresult
      · exact h.touched _ hsame
    | some taken =>
      obtain ⟨page, driver⟩ := taken
      obtain ⟨hpage, hfree, hdriver⟩ := Dma.alloc_spec halloc h.last
      have hjobs : driver.transferJobs = s.driver.transferJobs := by rw [hdriver]
      rw [xhciControlTransfer_page htype halloc]
      constructor
      · rintro (⟨-, _, -, -, hsubmitted⟩ | ⟨hresult, -⟩)
        · exact ⟨⟨_, hpage.1, hfree⟩, h.room henabled (by decide)
            (controlTrbs_noLink request (some page)) (controlTrbs_few request _) hjobs hsubmitted⟩
        · cases hresult
      · rintro ⟨-, hroom⟩
        have hsubmitted := h.submitted (controlJob request (some page)) henabled (by decide)
          (controlTrbs_noLink request (some page)) hjobs hroom
        have htaken : Taken s page (s.submit driver slot 1 (controlTrbs request (some page))
            (controlJob request (some page))) := by
          subst hdriver
          exact ⟨hpage.1, hfree, rfl⟩
        exact .inl ⟨rfl, some page, by simp [htype], by simpa using htaken, hsubmitted⟩

theorem Inv.transferLaw_iff (h : Inv s) (hmapped : Dma.HeapMapped translate)
    (henabled : s.driver.enabled slot = true) (request : TransferRequest) :
    TransferLaw translate slot request s ↔ TransferFits request slot s := by
  have hinside : request.endpoint.contextIdx - 1 < xhciMaxNumEndpoints :=
    Nat.lt_of_le_of_lt (Nat.sub_le ..) request.endpoint.configured.2
  unfold TransferLaw TransferFits
  cases halloc : xhciAllocPage translate s.driver with
  | none =>
    rw [xhciTransfer_noPage halloc]
    have hnone := not_hasPage hmapped h.last halloc
    exact iff_of_true (.inr ⟨rfl, fun _ _ => rfl, rfl, rfl⟩) fun hpage => absurd hpage hnone
  | some taken =>
    obtain ⟨page, driver⟩ := taken
    obtain ⟨hpage, hfree, hdriver⟩ := Dma.alloc_spec halloc h.last
    have hjobs : driver.transferJobs = s.driver.transferJobs := by rw [hdriver]
    rw [xhciTransfer_page halloc]
    constructor
    · rintro (⟨-, _, -, hsubmitted⟩ | ⟨hresult, -⟩) -
      · exact h.room henabled hinside (transferTrb_noLink request page) (by decide : 1 ≤ 255) hjobs
          hsubmitted
      · cases hresult
    · intro hroom
      have hsubmitted := h.submitted (transferJob request page) henabled hinside
        (transferTrb_noLink request page) hjobs (hroom ⟨_, hpage.1, hfree⟩)
      have htaken : Taken s page (s.submit driver slot request.endpoint.contextIdx
          [transferTrb page request] (transferJob request page)) := by
        subst hdriver
        exact ⟨hpage.1, hfree, rfl⟩
      exact .inl ⟨rfl, page, htaken, hsubmitted⟩

/-! ## Every run -/

theorem Init.inv (h : Init s) : Inv s := by
  refine ⟨fun slot contextIdx => ?_, fun slot hon => ?_, h.last⟩
  · obtain ⟨base, hring⟩ := h.rings slot contextIdx
    rw [hring]
    exact transfersInit_inv (by decide)
  · rw [h.enabled slot] at hon
    cases hon

/-- The rings are in order after a change of one that is in order. -/
theorem Inv.setRing (h : Inv s) {t : Transfers} (ht : TransferInv transferRingSize t) :
    Inv { s with rings := setAt s.rings slot contextIdx t } := by
  refine ⟨fun slot' idx => ?_, h.jobs, h.last⟩
  show TransferInv _ (setAt s.rings slot contextIdx t slot' idx)
  by_cases hat : slot' = slot ∧ idx = contextIdx
  · obtain ⟨rfl, rfl⟩ := hat
    rw [setAt_self]
    exact ht
  · rw [setAt_of_ne hat]
    exact h.rings slot' idx

theorem Inv.enable (h : Inv s) : Inv { s with driver := s.driver.enable slot } := by
  refine ⟨h.rings, fun slot' hon endpoint hlt => ?_, h.last⟩
  show ∃ l, (Function.update s.driver.transferJobs slot _ slot' endpoint).Holds l
  by_cases hsame : slot' = slot
  · subst hsame
    rw [Function.update_self, if_pos hlt]
    exact ⟨[], RingBuffer.holds_init (by decide)⟩
  · have hold : s.driver.enabled slot' = true := by
      simpa [Driver.enable, hsame] using hon
    rw [Function.update_of_ne hsame]
    exact h.jobs slot' hold endpoint hlt

theorem Inv.takeJob (h : Inv s) {endpoint : Nat} {jobs : RingBuffer TransferJob}
    (hdequeue : (s.driver.transferJobs slot endpoint).dequeue = some (job, jobs)) :
    Inv { s with driver := s.driver.setJobs slot endpoint jobs } := by
  refine ⟨h.rings, fun slot' hon endpoint' hlt => ?_, h.last⟩
  obtain ⟨l, hholds⟩ := h.jobs slot' hon endpoint' hlt
  show ∃ l, (setAt s.driver.transferJobs slot endpoint jobs slot' endpoint').Holds l
  by_cases hat : slot' = slot ∧ endpoint' = endpoint
  · obtain ⟨rfl, rfl⟩ := hat
    rw [setAt_self]
    cases l with
    | nil => cases hholds.dequeue_nil.symm.trans hdequeue
    | cons first rest =>
      obtain ⟨ring, hfirst, hrest, -⟩ := hholds.dequeue
      rw [hfirst] at hdequeue
      cases hdequeue
      exact ⟨rest, hrest⟩
  · rw [setAt_of_ne hat]
    exact ⟨l, hholds⟩

theorem Inv.control (h : Inv s) (hmapped : Dma.HeapMapped translate)
    {request : ControlTransferRequest} (hfits : ControlFits request slot s) :
    Inv (xhciControlTransfer translate slot request s).2 := by
  unfold ControlFits at hfits
  by_cases htype : request.transferType = .noData
  · rw [if_pos htype] at hfits
    rw [xhciControlTransfer_noData htype]
    exact h.submit (controlTrbs_noLink request none) rfl rfl h.last hfits
  · rw [if_neg htype] at hfits
    cases halloc : xhciAllocPage translate s.driver with
    | none => exact absurd hfits.1 (not_hasPage hmapped h.last halloc)
    | some taken =>
      obtain ⟨page, driver⟩ := taken
      obtain ⟨hpage, -, rfl⟩ := Dma.alloc_spec halloc h.last
      rw [xhciControlTransfer_page htype halloc]
      exact h.submit (controlTrbs_noLink request (some page)) rfl rfl hpage.1 hfits.2

theorem Inv.transfer (h : Inv s) {request : TransferRequest}
    (hfits : TransferFits request slot s) : Inv (xhciTransfer translate slot request s).2 := by
  cases halloc : xhciAllocPage translate s.driver with
  | none =>
    rw [xhciTransfer_noPage halloc]
    exact h
  | some taken =>
    obtain ⟨page, driver⟩ := taken
    obtain ⟨hpage, hfree, rfl⟩ := Dma.alloc_spec halloc h.last
    rw [xhciTransfer_page halloc]
    exact h.submit (transferTrb_noLink request page) rfl rfl hpage.1 (hfits ⟨_, hpage.1, hfree⟩)

theorem Inv.step (h : Inv s) (hmapped : Dma.HeapMapped translate) {action : Action}
    (hfits : Fits s action) (hstep : Step translate s action s') : Inv s' := by
  cases hstep with
  | control => exact h.control hmapped hfits
  | transfer => exact h.transfer hfits
  | consume htake => exact h.setRing ((h.rings _ _).consume htake)
  | newRing => exact h.setRing (transfersInit_inv (by decide))
  | enable => exact h.enable
  | takeJob hdequeue => exact h.takeJob hdequeue
  | allocPage halloc =>
    obtain ⟨hpage, -, rfl⟩ := Dma.alloc_spec halloc h.last
    exact ⟨h.rings, h.jobs, hpage.1⟩
  | freePage =>
    refine ⟨h.rings, ?_, xhciFreePage_last h.last⟩
    show ∀ slot, (xhciFreePage _ _).enabled slot = true → _
    rw [xhciFreePage_eq.1]
    show ∀ slot, _ → ∀ endpoint < _, ∃ l, ((xhciFreePage _ _).transferJobs slot endpoint).Holds l
    rw [xhciFreePage_eq.2]
    exact h.jobs

theorem Inv.ok_iff (h : Inv s) (hmapped : Dma.HeapMapped translate) {action : Action}
    (hstep : Step translate s action s') : Ok translate s action ↔ Fits s action := by
  cases hstep with
  | control henabled => exact h.controlLaw_iff hmapped henabled _
  | transfer henabled => exact h.transferLaw_iff hmapped henabled _
  | _ => exact Iff.rfl

end

/-- In every run all submissions are all or nothing exactly if each finds
room for its TRBs and its job, and a control transfer with data a page. -/
theorem submissions_iff (mmapVirtualToPhysical : Word → Option Word)
    (hmapped : Dma.HeapMapped mmapVirtualToPhysical) (history : List (State × Action)) (s : State)
    (hrun : Run Init (Step mmapVirtualToPhysical) history s) :
    (∀ p ∈ history, Ok mmapVirtualToPhysical p.1 p.2) ↔ ∀ p ∈ history, Fits p.1 p.2 :=
  hrun.all_iff (fun _ hinit => hinit.inv)
    (fun _ _ _ hinv hfits hstep => hinv.step hmapped hfits hstep)
    fun _ _ _ hinv hstep => hinv.ok_iff hmapped hstep

/-! ## Two runs -/

/-- Nothing is queued; the first pages of the heap are in use. -/
def pagesInUse (pages : Nat) : State where
  driver :=
    { heapPageAllocated := fun i => i < pages
      lastModifiedHeapPageIdx := pages - 1
      enabled := fun _ => false
      transferJobs := fun _ _ => .init (fun _ => zeroJob) 1 }
  rings := fun _ _ => transfersInit ⟨0, 0⟩ transferRingSize

theorem pagesInUse_init : Init (pagesInUse 0) :=
  ⟨fun _ _ => ⟨⟨0, 0⟩, rfl⟩, fun _ => rfl, fun _ _ => rfl, by decide⟩

/-- A request for the descriptor of a device. -/
def request (transferType : ControlTransferType) : ControlTransferRequest where
  setupPacket := ⟨0x80, 6, 0x100, 0, 18⟩
  callback := ⟨0x1000, by decide⟩
  callbackContext := 0
  immediateDataTransfer := true
  transferType

/-- The driver with a device in slot 1. -/
def addressed (s : State) : State := { s with driver := s.driver.enable 1 }

/-- A request without data to a device that has just been enabled. -/
theorem firstRequest_submitted :
    Ok some (addressed (pagesInUse 0)) (.control 1 (request .noData)) := by
  have henable : Step some (pagesInUse 0) (.enable 1) (addressed (pagesInUse 0)) := .enable
  have hcontrol : Step some (addressed (pagesInUse 0)) (.control 1 (request .noData)) _ :=
    .control rfl
  have hrun := ((Run.start pagesInUse_init).next henable).next hcontrol
  have hroom : HasRoom (addressed (pagesInUse 0)) 1 1 2 := ⟨by decide, rfl⟩
  have hfits : Fits (addressed (pagesInUse 0)) (.control 1 (request .noData)) := hroom
  have hall := (submissions_iff some (fun _ _ => rfl) _ _ hrun).mpr
    (by simpa using ⟨hfits, trivial⟩)
  exact (List.forall_mem_cons.mp hall).1

/-- The search stops at the next page. -/
theorem searchPage_next {allocated : Nat → Bool} {rounds i : Nat} (hi : allocated i = true)
    (hnext : i + 1 < xhciHeapMaxPages) (hfree : allocated (i + 1) = false) :
    searchPage allocated (rounds + 2) (fun _ => false) i = i + 1 := by
  have hwrap : ¬ i + 1 ≥ xhciHeapMaxPages := Nat.not_le.mpr hnext
  simp [searchPage, hi, hwrap, hfree]

theorem pagesInUse_succ {pages : Nat} (h : pages < xhciHeapMaxPages) :
    Step some (pagesInUse pages) .allocPage (pagesInUse (pages + 1)) := by
  have hsearch : searchPage (pagesInUse pages).driver.heapPageAllocated xhciHeapMaxPages
      (fun _ => false) (pages - 1) = pages := by
    cases pages with
    | zero => rfl
    | succ k => exact searchPage_next (by simp [pagesInUse]) h (by simp [pagesInUse])
  have hupdate : Function.update (fun i => decide (i < pages)) pages true =
      fun i => decide (i < pages + 1) := by
    ext i
    by_cases hi : i = pages
    · simp [hi]
    · simp [hi]
      omega
  have halloc : xhciAllocPage some (pagesInUse pages).driver =
      some (⟨pageAddress pages, pageAddress pages⟩, (pagesInUse (pages + 1)).driver) := by
    unfold xhciAllocPage
    rw [show (pagesInUse pages).driver.lastModifiedHeapPageIdx = pages - 1 from rfl, hsearch]
    simp [pagesInUse, hupdate]
  exact .allocPage halloc

theorem pagesInUse_run (pages : Nat) (h : pages ≤ xhciHeapMaxPages) :
    ∃ history, Run Init (Step some) history (pagesInUse pages) := by
  induction pages with
  | zero => exact ⟨_, .start pagesInUse_init⟩
  | succ pages ih =>
    obtain ⟨history, hrun⟩ := ih (Nat.le_of_succ_le h)
    exact ⟨_, hrun.next (pagesInUse_succ h)⟩

/-- A request with data to a device, when no page is left. -/
theorem noPage_not_ok {pages : Nat} (h : pages = xhciHeapMaxPages) :
    ¬ Ok some (addressed (pagesInUse pages)) (.control 1 (request .inData)) := by
  have hinv : Inv (pagesInUse pages) :=
    ⟨pagesInUse_init.inv.rings, fun _ hon => Bool.noConfusion hon, by subst h; decide⟩
  have hinv' : Inv (addressed (pagesInUse pages)) := hinv.enable
  intro hok
  have hfits := (hinv'.controlLaw_iff (fun _ _ => rfl) rfl (request .inData)).mp hok
  rw [ControlFits, if_neg (by decide)] at hfits
  obtain ⟨i, hi, hfree⟩ := hfits.1
  have hused : (pagesInUse pages).driver.heapPageAllocated i = true := decide_eq_true (h ▸ hi)
  cases hused.symm.trans hfree

/-- Without a page, the TRB of the setup stage is left on the ring. -/
theorem fullHeap_leaves_trb : ∃ history s, Run Init (Step some) history s ∧
    ¬ ∀ p ∈ history, Ok some p.1 p.2 := by
  obtain ⟨pages, hpages⟩ : ∃ pages, pages = xhciHeapMaxPages := ⟨_, rfl⟩
  obtain ⟨history, hrun⟩ := pagesInUse_run pages (Nat.le_of_eq hpages)
  have henable : Step some (pagesInUse pages) (.enable 1) (addressed (pagesInUse pages)) := .enable
  have hcontrol : Step some (addressed (pagesInUse pages)) (.control 1 (request .inData)) _ :=
    .control rfl
  exact ⟨_, _, (hrun.next henable).next hcontrol,
    fun hall => noPage_not_ok hpages (hall _ List.mem_cons_self)⟩

end ZOs.Xhci.Submission
