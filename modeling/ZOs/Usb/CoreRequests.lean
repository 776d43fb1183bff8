import ZOs.Usb.DmaPages

/-!
# Requests that wait for their callback

`usb_get_descriptor` and `usb_set_configuration` submit a control transfer
and poll until its callback has been called. Neither looks at the result of
`xhci_control_transfer`. The requests are made at boot, one after another;
while one of them waits, the driver polls and hands out transfers, and
issues no command.
-/

namespace ZOs.UsbCore.Requests

open Xhci Xhci.Jobs Runs ZOs.Utils

/-! ## Requests -/

def requestTypeStandard : BitVec 8 := 0
def requestDirHostToDevice : BitVec 8 := 0 <<< 7
def requestDirDeviceToHost : BitVec 8 := 1 <<< 7
def requestRecipientDevice : BitVec 8 := 0
def getDescriptorRequest : BitVec 8 := 0x6
def setConfigurationRequest : BitVec 8 := 0x9

/-- `usb_get_descriptor_callback` and `usb_set_configuration_callback`. -/
structure CoreCallbacks where
  getDescriptor : Callback
  setConfiguration : Callback

/-- The callback is one of `usb_core.c`. -/
def CoreCallbacks.has (callbacks : CoreCallbacks) (address : Word) : Bool :=
  address = callbacks.getDescriptor.address ∨ address = callbacks.setConfiguration.address

inductive CoreRequest
  | getDescriptor (descriptorType descriptorIndex : BitVec 8) (outDescriptor : Word)
      (descriptorLength : Word)
  | setConfiguration (configurationValue : BitVec 8)

namespace CoreRequest

/-- NULL is given for the descriptor. -/
def refused : CoreRequest → Bool
  | getDescriptor _ _ outDescriptor _ => outDescriptor = 0
  | setConfiguration _ => false

def callback (callbacks : CoreCallbacks) : CoreRequest → Callback
  | getDescriptor .. => callbacks.getDescriptor
  | setConfiguration _ => callbacks.setConfiguration

def setupPacket : CoreRequest → SetupPacket
  | getDescriptor descriptorType descriptorIndex _ descriptorLength =>
    { bmRequestType := requestDirDeviceToHost ||| requestTypeStandard ||| requestRecipientDevice
      bRequest := getDescriptorRequest
      wValue := descriptorType.setWidth 16 <<< 8 ||| descriptorIndex.setWidth 16
      wIndex := 0
      wLength := descriptorLength.setWidth 16 }
  | setConfiguration configurationValue =>
    { bmRequestType := requestDirHostToDevice ||| requestTypeStandard ||| requestRecipientDevice
      bRequest := setConfigurationRequest
      wValue := configurationValue.setWidth 16
      wIndex := 0
      wLength := 0 }

def transferType : CoreRequest → ControlTransferType
  | getDescriptor .. => .inData
  | setConfiguration _ => .noData

/-- What is handed to `xhci_control_transfer`. -/
def controlTransfer (callbacks : CoreCallbacks) (context : Word) (request : CoreRequest) :
    ControlTransferRequest where
  setupPacket := request.setupPacket
  callback := request.callback callbacks
  callbackContext := context
  immediateDataTransfer := true
  transferType := request.transferType

end CoreRequest

/-! ## Calls -/

/-- A call of `usb_get_descriptor` or `usb_set_configuration` that has made
its submission. -/
structure CoreCall where
  slot : Slot
  request : CoreRequest
  /-- the address of the context on the stack -/
  context : Word
  /-- what `xhci_control_transfer` returned -/
  submitted : Int
  /-- the completion code in the context, once `callback_called` is set -/
  called : Option Outcome

/-- The callback of a request writes to the context that it is given. -/
def CoreCall.called? (callbacks : CoreCallbacks) (k : CoreCall) (c : Call) : CoreCall :=
  if c.callback = (k.request.callback callbacks).address ∧ c.context = k.context then
    { k with called := some c.outcome }
  else k

/-- The driver with the call that is under way, and what calls returned. -/
structure CoreSystem where
  bus : System
  call : Option CoreCall
  results : List Int

/-- The bus has gone on, and some callbacks were called. -/
def CoreSystem.goesOn (callbacks : CoreCallbacks) (c : CoreSystem) (bus : System) : CoreSystem :=
  { c with
    bus
    call := c.call.map fun k =>
      (bus.calls.drop c.bus.calls.length).foldl (CoreCall.called? callbacks) k }

inductive CoreAction
  | call (slot : Slot) (request : CoreRequest) (context : Word)
  | bus (action : BusAction)
  | return

/-- There are no other control transfers, no other transfer has one of the
two callbacks, and no command is issued during a call. -/
def MayGoOn (callbacks : CoreCallbacks) (c : CoreSystem) : BusAction → Prop
  | .control .. => False
  | .transfer _ request => callbacks.has request.callback.address = false
  | .enableDeviceSlot | .addressDevice | .configureEndpoint | .takeEvent => c.call = none
  | _ => True

inductive Step (callbacks : CoreCallbacks) (mmapVirtualToPhysical : Word → Option Word) :
    CoreSystem → CoreAction → CoreSystem → Prop
  | refuse {c : CoreSystem} {slot : Slot} {request : CoreRequest} {context : Word} :
      c.call = none → request.refused = true →
      Step callbacks mmapVirtualToPhysical c (.call slot request context)
        { c with results := c.results ++ [-1] }
  | call {c : CoreSystem} {slot : Slot} {request : CoreRequest} {context : Word} {bus : System} :
      c.call = none → request.refused = false →
      exec mmapVirtualToPhysical c.bus
        (.control slot (request.controlTransfer callbacks context)) = some bus →
      Step callbacks mmapVirtualToPhysical c (.call slot request context)
        { c with
          bus
          call := some
            { slot
              request
              context
              submitted := (xhciControlTransfer mmapVirtualToPhysical slot
                (request.controlTransfer callbacks context) c.bus).1
              called := none } }
  | bus {c : CoreSystem} {action : BusAction} {bus : System} :
      MayGoOn callbacks c action → exec mmapVirtualToPhysical c.bus action = some bus →
      Step callbacks mmapVirtualToPhysical c (.bus action) (c.goesOn callbacks bus)
  | return {c : CoreSystem} {k : CoreCall} {outcome : Outcome} :
      c.call = some k → k.called = some outcome →
      Step callbacks mmapVirtualToPhysical c .return
        { c with
          call := none
          results := c.results ++ [if outcome = .success then 0 else -1] }

/-- Nothing is under way. -/
structure Init (c : CoreSystem) : Prop where
  quiet : Quiet c.bus
  call : c.call = none

/-! ## Reports -/

/-- A job is queued that will call back. -/
def CoreCall.Expected (callbacks : CoreCallbacks) (k : CoreCall) (s : System) : Prop :=
  ∃ job ∈ (s.driver.transferJobs k.slot 0).toList,
    job.callback = (k.request.callback callbacks).address ∧ job.callbackContext = k.context

/-- A call whose submission has failed comes to return -1, and no call waits
for a callback that no job will bring. -/
structure Reports (callbacks : CoreCallbacks) (mmapVirtualToPhysical : Word → Option Word)
    (c : CoreSystem) : Prop where
  fails : ∀ k, c.call = some k → k.submitted = -1 →
    ∃ history c', Run (fun c₀ => c₀ = c) (Step callbacks mmapVirtualToPhysical) history c' ∧
      c'.call = none ∧ c'.results = c.results ++ [-1]
  waits : ∀ k, c.call = some k → k.called = none → k.Expected callbacks c.bus

/-- A step leads to a state that reports. -/
def Ok (callbacks : CoreCallbacks) (mmapVirtualToPhysical : Word → Option Word) (c : CoreSystem)
    (a : CoreAction) : Prop :=
  ∀ c', Step callbacks mmapVirtualToPhysical c a c' → Reports callbacks mmapVirtualToPhysical c'

/-- A request finds a page for its data, and room for its job. -/
def Fits (c : CoreSystem) : CoreAction → Prop
  | .call slot request _ => request.refused = false →
    (request.transferType ≠ .noData → HasPage c.bus) ∧
      (c.bus.driver.transferJobs slot 0).isFull = false
  | _ => True

/-! ## The jobs of the calls -/

/-- What a job leads to. -/
def key (job : TransferJob) : Word × Word := (job.callback, job.callbackContext)

/-- The job that the call under way is waiting for. -/
def CoreSystem.owed (callbacks : CoreCallbacks) (c : CoreSystem) (slot : Slot) (endpoint : Nat) :
    List (Word × Word) :=
  match c.call with
  | none => []
  | some k =>
    if k.called = none ∧ slot = k.slot ∧ endpoint = 0 then
      [((k.request.callback callbacks).address, k.context)]
    else []

/-- The jobs with one of the two callbacks. -/
def coreJobs (callbacks : CoreCallbacks) (jobs : List TransferJob) : List (Word × Word) :=
  (jobs.filter fun job => callbacks.has job.callback).map key

/-- The calls' jobs are those that are owed. -/
structure Inv (callbacks : CoreCallbacks) (c : CoreSystem) : Prop where
  jobs : ∀ slot, c.bus.driver.enabled slot = true → ∀ endpoint < xhciMaxNumEndpoints,
    ∃ l, (c.bus.driver.transferJobs slot endpoint).Holds l ∧
      coreJobs callbacks l = c.owed callbacks slot endpoint
  last : c.bus.driver.lastModifiedHeapPageIdx < xhciHeapMaxPages
  submitted : ∀ k, c.call = some k → k.submitted = 0 ∧ c.bus.driver.enabled k.slot = true

section

variable {callbacks : CoreCallbacks} {translate : Word → Option Word} {s s' : System}
  {d : Driver} {c c' : CoreSystem} {slot : Slot} {endpoint : Nat} {job : TransferJob}
  {l : List TransferJob} {k : CoreCall}

/-! ## What the bus does to the job rings -/

/-- Neither the devices, nor their jobs, nor the calls are different. -/
structure SameJobs (s s' : System) : Prop where
  enabled : s'.driver.enabled = s.driver.enabled
  jobs : s'.driver.transferJobs = s.driver.transferJobs
  calls : s'.calls = s.calls
  last : s.driver.lastModifiedHeapPageIdx < xhciHeapMaxPages →
    s'.driver.lastModifiedHeapPageIdx < xhciHeapMaxPages

theorem SameJobs.trans {s'' : System} (h : SameJobs s s') (h' : SameJobs s' s'') :
    SameJobs s s'' where
  enabled := h'.enabled.trans h.enabled
  jobs := h'.jobs.trans h.jobs
  calls := h'.calls.trans h.calls
  last := fun hlast => h'.last (h.last hlast)

theorem SameJobs.alloc {page : AllocatedPage}
    (halloc : xhciAllocPage translate s.driver = some (page, d)) :
    SameJobs s { s with driver := d } where
  enabled := (xhciAllocPage_eq halloc).1
  jobs := (xhciAllocPage_eq halloc).2
  calls := rfl
  last := (Aside.alloc halloc).last

theorem SameJobs.issue {kind : CommandKind} : SameJobs s (s.issue kind) :=
  ⟨rfl, rfl, rfl, fun h => h⟩

theorem SameJobs.addressDevice (translate : Word → Option Word) (pages : Nat) :
    SameJobs s (xhciAddressDevice translate pages s) := by
  induction pages generalizing s with
  | zero => exact SameJobs.issue
  | succ pages ih =>
    unfold xhciAddressDevice
    split
    · exact ⟨rfl, rfl, rfl, fun h => h⟩
    · rename_i halloc
      exact (SameJobs.alloc halloc).trans ih

theorem SameJobs.configureEndpoint : SameJobs s (xhciConfigureEndpoint translate s) := by
  unfold xhciConfigureEndpoint
  split
  · exact ⟨rfl, rfl, rfl, fun h => h⟩
  · rename_i halloc
    dsimp only
    split
    · exact SameJobs.alloc halloc
    · rename_i halloc'
      have hboth := (SameJobs.alloc halloc).trans (SameJobs.alloc halloc')
      exact hboth.trans SameJobs.issue

theorem SameJobs.callbackReturns (heq : s.callbackReturns = some s') : SameJobs s s' := by
  unfold System.callbackReturns at heq
  split at heq
  · cases heq
  · dsimp only at heq
    split at heq
    · cases heq
      exact ⟨rfl, rfl, rfl, fun h => h⟩
    · cases heq
      exact ⟨xhciFreePage_eq.1, xhciFreePage_eq.2, rfl, xhciFreePage_last⟩

/-- A command that succeeds may enable a device. -/
theorem takeEvent_cases (heq : s.takeEvent translate = some s') :
    SameJobs s s' ∨ ∃ slot, SameJobs { s with driver := s.driver.enable slot } s' := by
  unfold System.takeEvent at heq
  split at heq
  · rename_i command event rest hwaiting hring
    dsimp only at heq
    split at heq
    · cases heq
      cases command.kind with
      | enableSlot => exact .inr ⟨slotId event.trb, rfl, rfl, rfl, fun h => h⟩
      | enableSlotFor =>
        have hrest := SameJobs.addressDevice translate 3 (s := { s with
          eventRing := rest
          waiting := none
          results := s.results ++ [(command, commandSucceeds event)]
          driver := s.driver.enable (slotId event.trb) })
        exact .inr ⟨slotId event.trb, hrest.enabled, hrest.jobs, hrest.calls, hrest.last⟩
      | addressDevice => exact .inl ⟨rfl, rfl, rfl, fun h => h⟩
      | configureEndpoint inputContext =>
        exact .inl ⟨xhciFreePage_eq.1, xhciFreePage_eq.2, rfl, xhciFreePage_last⟩
    · cases heq
      exact .inl ⟨rfl, rfl, rfl, fun h => h⟩
  · cases heq

/-- A call of a callback that belongs to a job. -/
def BelongsTo (job : TransferJob) (call : Call) : Prop :=
  call.callback = job.callback ∧ call.context = job.callbackContext

theorem handleJob_calls (event : Event) (job : TransferJob) :
    (s.handleJob event job).driver.enabled = s.driver.enabled ∧
    (s.handleJob event job).driver.transferJobs = s.driver.transferJobs ∧
    ∃ calls, (s.handleJob event job).calls = s.calls ++ calls ∧
      (∀ call ∈ calls, BelongsTo job call) ∧ (job.callback ≠ 0 → ∃ call, calls = [call]) := by
  unfold System.handleJob
  dsimp only
  split
  · have hfree : SameJobs s (if job.hasData then s.freeBuffer event job.dataBuffer else s) := by
      split
      · exact ⟨xhciFreePage_eq.1, xhciFreePage_eq.2, rfl, xhciFreePage_last⟩
      · exact ⟨rfl, rfl, rfl, fun h => h⟩
    split
    · refine ⟨hfree.enabled, hfree.jobs, [_], congrArg (· ++ _) hfree.calls, ?_, fun _ => ⟨_, rfl⟩⟩
      simp [BelongsTo]
    · rename_i hnull
      refine ⟨hfree.enabled, hfree.jobs, [], ?_, by simp, fun hne => absurd hne hnull⟩
      rw [hfree.calls, List.append_nil]
  · split
    · exact ⟨rfl, rfl, [_], rfl, by simp [BelongsTo], fun _ => ⟨_, rfl⟩⟩
    · exact ⟨rfl, rfl, [_], rfl, by simp [BelongsTo], fun _ => ⟨_, rfl⟩⟩

/-- The ring of an endpoint has been replaced. -/
structure SetsJobs (s s' : System) (slot : Slot) (endpoint : Nat) (jobs : RingBuffer TransferJob) :
    Prop where
  enabled : s'.driver.enabled = s.driver.enabled
  jobs : s'.driver.transferJobs = setAt s.driver.transferJobs slot endpoint jobs
  last : s.driver.lastModifiedHeapPageIdx < xhciHeapMaxPages →
    s'.driver.lastModifiedHeapPageIdx < xhciHeapMaxPages

theorem endpointId_lt (trb : Trb) : endpointId trb < xhciMaxNumEndpoints := by
  unfold endpointId
  rw [BitVec.toNat_and]
  exact Nat.lt_succ_of_le Nat.and_le_right

/-- The poller drops an event, or takes a job and calls back. -/
theorem pollEvent_jobs (heq : s.pollEvent = some s') : SameJobs s s' ∨
    ∃ slot endpoint job jobs, s.driver.enabled slot = true ∧ endpoint < xhciMaxNumEndpoints ∧
      (s.driver.transferJobs slot endpoint).dequeue = some (job, jobs) ∧
      SetsJobs s s' slot endpoint jobs ∧
      ∃ calls, s'.calls = s.calls ++ calls ∧ (∀ call ∈ calls, BelongsTo job call) ∧
        (job.callback ≠ 0 → ∃ call, calls = [call]) := by
  have hlast := (Aside.pollEvent heq).last
  unfold System.pollEvent at heq
  split at heq
  · cases heq
  · rename_i event rest hring
    dsimp only at heq
    split at heq
    · cases heq
      exact .inl ⟨rfl, rfl, rfl, fun h => h⟩
    · split at heq
      · cases heq
        exact .inl ⟨rfl, rfl, rfl, fun h => h⟩
      · rename_i hon
        split at heq
        · cases heq
          exact .inl ⟨rfl, rfl, rfl, fun h => h⟩
        · rename_i job jobs hdequeue
          cases heq
          have hinside : endpointId event.trb - 1 < xhciMaxNumEndpoints :=
            Nat.lt_of_le_of_lt (Nat.sub_le ..) (endpointId_lt event.trb)
          obtain ⟨henabled, hjobs, hcalls⟩ := handleJob_calls event job (s := {
            s with
            eventRing := rest
            driver := s.driver.setJobs (slotId event.trb) (endpointId event.trb - 1) jobs })
          exact .inr ⟨_, _, job, jobs, Bool.eq_true_of_not_eq_false hon, hinside, hdequeue,
            ⟨henabled, hjobs, hlast⟩, hcalls⟩

/-- A job is enqueued. -/
def Enqueues (s s' : System) (slot : Slot) (endpoint : Nat) (job : TransferJob) : Prop :=
  SetsJobs s s' slot endpoint ((s.driver.transferJobs slot endpoint).enqueue job).2 ∧
    s'.calls = s.calls

theorem enqueueJob_enqueues {t : Transfer} (hsame : SameJobs s s') :
    Enqueues s (s'.enqueueJob t job) t.slot (t.endpoint - 1) job := by
  refine ⟨⟨hsame.enabled, ?_, hsame.last⟩, hsame.calls⟩
  show setAt s'.driver.transferJobs _ _ ((s'.driver.transferJobs _ _).enqueue _).2 = _
  rw [hsame.jobs]

/-- A transfer adds its job, if there is a page. -/
theorem transfer_jobs (translate : Word → Option Word) (slot : Slot) (request : TransferRequest)
    (s : System) :
    SameJobs s (xhciTransfer translate slot request s).2 ∨
      ∃ job : TransferJob, job.callback = request.callback.address ∧
        Enqueues s (xhciTransfer translate slot request s).2 slot (request.endpoint.contextIdx - 1)
          job := by
  unfold xhciTransfer
  split
  · exact .inl ⟨rfl, rfl, rfl, fun h => h⟩
  · rename_i page driver halloc
    have hsame := SameJobs.alloc halloc
    have hring : SameJobs s (System.enqueueTrb { s with driver } slot request.endpoint.contextIdx
      (transferTrb page request)) := ⟨hsame.enabled, hsame.jobs, rfl, hsame.last⟩
    exact .inr ⟨⟨request.callback.address, request.callbackContext, page, request.transferLength,
      true⟩, rfl, enqueueJob_enqueues hring⟩

/-- So does a control transfer, if it needs no page or finds one. -/
theorem control_jobs (slot : Slot) (request : ControlTransferRequest)
    (hmapped : Dma.HeapMapped translate)
    (hlast : s.driver.lastModifiedHeapPageIdx < xhciHeapMaxPages)
    (hpage : request.transferType ≠ .noData → HasPage s) :
    (xhciControlTransfer translate slot request s).1 = 0 ∧
      ∃ job, key job = (request.callback.address, request.callbackContext) ∧
        Enqueues s (xhciControlTransfer translate slot request s).2 slot 0 job := by
  refine ⟨control_ok hmapped hlast hpage, ?_⟩
  unfold xhciControlTransfer
  dsimp only
  split
  · have hring : SameJobs s ((s.enqueueTrb slot 1 (setupStageTrb request)).enqueueTrb slot 1
      statusStageTrb) := ⟨rfl, rfl, rfl, fun h => h⟩
    exact ⟨_, rfl, enqueueJob_enqueues hring⟩
  · rename_i htype
    obtain ⟨page, driver, halloc⟩ := xhciAllocPage_isSome hmapped hlast (hpage htype)
    have halloc' : xhciAllocPage translate
      (s.enqueueTrb slot 1 (setupStageTrb request)).driver = some (page, driver) := halloc
    have hsame := SameJobs.alloc halloc
    rw [halloc']
    have hring : SameJobs s ((System.enqueueTrb { s.enqueueTrb slot 1 (setupStageTrb request) with
      driver } slot 1 (dataStageTrb page request.setupPacket.wLength)).enqueueTrb slot 1
      statusStageTrb) := ⟨hsame.enabled, hsame.jobs, rfl, hsame.last⟩
    exact ⟨_, rfl, enqueueJob_enqueues hring⟩

/-- Without a page it fails, and adds no job. -/
theorem control_noPage {request : ControlTransferRequest} (htype : request.transferType ≠ .noData)
    (hlast : s.driver.lastModifiedHeapPageIdx < xhciHeapMaxPages) (hpage : ¬ HasPage s) :
    (xhciControlTransfer translate slot request s).2 =
      s.enqueueTrb slot 1 (setupStageTrb request) := by
  have hnone : xhciAllocPage translate (s.enqueueTrb slot 1 (setupStageTrb request)).driver =
      none := by
    rw [Option.eq_none_iff_forall_ne_some]
    rintro ⟨page, driver⟩ halloc
    obtain ⟨hinside, hfree, -⟩ := Dma.alloc_spec halloc hlast
    exact hpage ⟨_, hinside.1, hfree⟩
  unfold xhciControlTransfer
  dsimp only
  rw [if_neg htype, hnone]

/-! ## The calls' jobs -/

@[simp] theorem coreJobs_nil : coreJobs callbacks [] = [] := rfl

theorem coreJobs_core (h : callbacks.has job.callback = true) :
    coreJobs callbacks (job :: l) = key job :: coreJobs callbacks l := by
  simp [coreJobs, h]

theorem coreJobs_other (h : callbacks.has job.callback = false) :
    coreJobs callbacks (job :: l) = coreJobs callbacks l := by
  simp [coreJobs, h]

theorem coreJobs_append {l' : List TransferJob} :
    coreJobs callbacks (l ++ l') = coreJobs callbacks l ++ coreJobs callbacks l' := by
  simp [coreJobs]

theorem has_callback (request : CoreRequest) :
    callbacks.has (request.callback callbacks).address = true := by
  cases request <;> simp [CoreRequest.callback, CoreCallbacks.has]

theorem owed_none (h : c.call = none) : c.owed callbacks slot endpoint = [] := by
  simp [CoreSystem.owed, h]

theorem owed_called (h : c.call = some k) (hcalled : k.called ≠ none) :
    c.owed callbacks slot endpoint = [] := by
  simp [CoreSystem.owed, h, hcalled]

/-- A job that is owed is that of the call under way. -/
theorem owed_cons {x : Word × Word} {rest : List (Word × Word)}
    (h : c.owed callbacks slot endpoint = x :: rest) :
    rest = [] ∧ ∃ k, c.call = some k ∧ k.called = none ∧ slot = k.slot ∧ endpoint = 0 ∧
      x = ((k.request.callback callbacks).address, k.context) := by
  unfold CoreSystem.owed at h
  split at h
  · cases h
  · rename_i k hcall
    split at h
    · rename_i hat
      cases h
      exact ⟨rfl, k, hcall, hat.1, hat.2.1, hat.2.2, rfl⟩
    · cases h

/-- A call of another callback changes no context. -/
theorem called?_other {call : Call} (h : callbacks.has call.callback = false) :
    k.called? callbacks call = k := by
  unfold CoreCall.called?
  rw [if_neg]
  rintro ⟨hcallback, -⟩
  rw [hcallback, has_callback] at h
  cases h

theorem foldl_called?_other {calls : List Call}
    (h : ∀ call ∈ calls, callbacks.has call.callback = false) :
    calls.foldl (CoreCall.called? callbacks) k = k := by
  induction calls with
  | nil => rfl
  | cons call rest ih =>
    obtain ⟨hfirst, hrest⟩ := List.forall_mem_cons.mp h
    rw [List.foldl_cons, called?_other hfirst]
    exact ih hrest

theorem goesOn_other (calls : List Call) (hcalls : s.calls = c.bus.calls ++ calls)
    (h : ∀ call ∈ calls, callbacks.has call.callback = false) :
    c.goesOn callbacks s = { c with bus := s } := by
  unfold CoreSystem.goesOn
  rw [hcalls, List.drop_left]
  congr 1
  cases c.call with
  | none => rfl
  | some k => exact congrArg some (foldl_called?_other h)

/-- A job goes in at the end, if there is room. -/
theorem holds_enqueue (job : TransferJob) {ring : RingBuffer TransferJob} (h : ring.Holds l) :
    (ring.isFull = false ∧ (ring.enqueue job).2.Holds (l ++ [job])) ∨
      (ring.isFull = true ∧ (ring.enqueue job).2 = ring) := by
  rcases Nat.lt_or_eq_of_le h.room with hlt | hfull
  · obtain ⟨ring', henqueue, hholds, -⟩ := h.enqueue (a := job) hlt
    rw [henqueue]
    exact .inl ⟨Bool.eq_false_iff.mpr (h.isFull_iff.not.mpr (Nat.ne_of_lt hlt)), hholds⟩
  · rw [h.enqueue_full hfull]
    exact .inr ⟨h.isFull_iff.mpr hfull, rfl⟩

/-! ## Invariant -/

theorem Inv.same (h : Inv callbacks c) (hsame : SameJobs c.bus s) :
    Inv callbacks { c with bus := s } := by
  refine ⟨?_, hsame.last h.last, ?_⟩
  · show ∀ slot, s.driver.enabled slot = true → _
    rw [hsame.enabled]
    show ∀ slot, _ → ∀ endpoint < _, ∃ l, (s.driver.transferJobs slot endpoint).Holds l ∧ _
    rw [hsame.jobs]
    exact h.jobs
  · show ∀ k : CoreCall, _ → k.submitted = 0 ∧ s.driver.enabled k.slot = true
    rw [hsame.enabled]
    exact h.submitted

/-- One ring has become another, and the call under way may have changed. -/
theorem Inv.sets (h : Inv callbacks c) {jobs : RingBuffer TransferJob}
    (hsets : SetsJobs c.bus c'.bus slot endpoint jobs)
    (hsubmitted : ∀ k : CoreCall, c'.call = some k →
      k.submitted = 0 ∧ c.bus.driver.enabled k.slot = true)
    (hthere : ∃ l, jobs.Holds l ∧ coreJobs callbacks l = c'.owed callbacks slot endpoint)
    (helse : ∀ slot' endpoint', ¬ (slot' = slot ∧ endpoint' = endpoint) →
      c'.owed callbacks slot' endpoint' = c.owed callbacks slot' endpoint') :
    Inv callbacks c' := by
  refine ⟨fun slot' hon endpoint' hlt => ?_, hsets.last h.last, fun k hk => ?_⟩
  · rw [hsets.enabled] at hon
    rw [hsets.jobs]
    by_cases hat : slot' = slot ∧ endpoint' = endpoint
    · obtain ⟨rfl, rfl⟩ := hat
      rw [setAt_self]
      exact hthere
    · rw [setAt_of_ne hat, helse slot' endpoint' hat]
      exact h.jobs slot' hon endpoint' hlt
  · rw [hsets.enabled]
    exact hsubmitted k hk

/-- A job that is not a call's is added. -/
theorem Inv.otherJob (h : Inv callbacks c) (hon : c.bus.driver.enabled slot = true)
    (hinside : endpoint < xhciMaxNumEndpoints) (hother : callbacks.has job.callback = false)
    (henqueues : Enqueues c.bus s slot endpoint job) : Inv callbacks { c with bus := s } := by
  obtain ⟨l, hholds, hcore⟩ := h.jobs slot hon endpoint hinside
  refine h.sets henqueues.1 h.submitted ?_ fun _ _ _ => rfl
  rcases holds_enqueue job hholds with ⟨-, hnew⟩ | ⟨-, hsame⟩
  · refine ⟨l ++ [job], hnew, ?_⟩
    rw [coreJobs_append, coreJobs_other hother, coreJobs_nil, List.append_nil]
    exact hcore
  · rw [hsame]
    exact ⟨l, hholds, hcore⟩

theorem Inv.enable (h : Inv callbacks c) (hcall : c.call = none) :
    Inv callbacks
      { c with bus := { c.bus with driver := c.bus.driver.enable slot } } := by
  refine ⟨fun slot' hon endpoint hlt => ?_, h.last, fun k hk => ?_⟩
  · show ∃ l, (Function.update c.bus.driver.transferJobs slot _ slot' endpoint).Holds l ∧ _
    by_cases hsame : slot' = slot
    · subst hsame
      rw [Function.update_self, if_pos hlt]
      exact ⟨[], RingBuffer.holds_init (by decide), (owed_none hcall).symm⟩
    · have hold : c.bus.driver.enabled slot' = true := by
        simpa [Driver.enable, hsame] using hon
      rw [Function.update_of_ne hsame]
      exact h.jobs slot' hold endpoint hlt
  · cases hcall.symm.trans hk

/-- The poller takes a job: that of the call, whose callback is called, or
another one. -/
theorem Inv.takeJob (h : Inv callbacks c) {jobs : RingBuffer TransferJob} {calls : List Call}
    (hon : c.bus.driver.enabled slot = true) (hinside : endpoint < xhciMaxNumEndpoints)
    (hdequeue : (c.bus.driver.transferJobs slot endpoint).dequeue = some (job, jobs))
    (hsets : SetsJobs c.bus s slot endpoint jobs) (hcalls : s.calls = c.bus.calls ++ calls)
    (hbelong : ∀ call ∈ calls, BelongsTo job call)
    (hone : job.callback ≠ 0 → ∃ call, calls = [call]) : Inv callbacks (c.goesOn callbacks s) := by
  obtain ⟨l, hholds, hcore⟩ := h.jobs slot hon endpoint hinside
  obtain ⟨rest, rfl, hrest⟩ : ∃ rest, l = job :: rest ∧ jobs.Holds rest := by
    cases l with
    | nil => cases hholds.dequeue_nil.symm.trans hdequeue
    | cons first rest =>
      obtain ⟨ring, hfirst, hnew, -⟩ := hholds.dequeue
      rw [hfirst] at hdequeue
      cases hdequeue
      exact ⟨rest, rfl, hnew⟩
  cases hhas : callbacks.has job.callback with
  | false =>
    rw [coreJobs_other hhas] at hcore
    have hothers : ∀ call ∈ calls, callbacks.has call.callback = false := fun call hcall => by
      rw [(hbelong call hcall).1, hhas]
    rw [goesOn_other _ hcalls hothers]
    exact h.sets hsets h.submitted ⟨rest, hrest, hcore⟩ fun _ _ _ => rfl
  | true =>
    rw [coreJobs_core hhas] at hcore
    obtain ⟨hnone, k, hcall, hwaits, rfl, rfl, hkey⟩ := owed_cons hcore.symm
    have hcallback : job.callback = (k.request.callback callbacks).address :=
      congrArg Prod.fst hkey
    have hcontext : job.callbackContext = k.context := congrArg Prod.snd hkey
    obtain ⟨call, rfl⟩ := hone (hcallback ▸ (k.request.callback callbacks).not_null)
    obtain ⟨hcallback', hcontext'⟩ := hbelong call (List.mem_singleton_self _)
    -- the context of the call is the one that is written
    have hk : (c.goesOn callbacks s).call = some { k with called := some call.outcome } := by
      unfold CoreSystem.goesOn
      rw [hcalls, List.drop_left, hcall]
      simp only [Option.map_some, List.foldl_cons, List.foldl_nil, CoreCall.called?]
      rw [if_pos ⟨hcallback'.trans hcallback, hcontext'.trans hcontext⟩]
    have hempty {slot' : Slot} {endpoint' : Nat} :
        (c.goesOn callbacks s).owed callbacks slot' endpoint' = [] :=
      owed_called hk (by simp)
    refine h.sets hsets ?_ ⟨rest, hrest, hnone.trans hempty.symm⟩ fun slot' endpoint' hne => ?_
    · intro k' hk'
      cases hk.symm.trans hk'
      exact h.submitted k hcall
    · rw [hempty]
      simp [CoreSystem.owed, hcall, hne]

/-- The job of a request is added. -/
theorem Inv.call (h : Inv callbacks c) {request : CoreRequest} {context : Word} {submitted : Int}
    (hcall : c.call = none) (hon : c.bus.driver.enabled slot = true)
    (hkey : key job = ((request.callback callbacks).address, context))
    (henqueues : Enqueues c.bus s slot 0 job)
    (hroom : (c.bus.driver.transferJobs slot 0).isFull = false) (hzero : submitted = 0) :
    Inv callbacks { c with bus := s, call := some ⟨slot, request, context, submitted, none⟩ } := by
  obtain ⟨l, hholds, hcore⟩ := h.jobs slot hon 0 (by decide)
  have hhas : callbacks.has job.callback = true := by
    rw [show job.callback = _ from congrArg Prod.fst hkey]
    exact has_callback request
  refine h.sets henqueues.1 ?_ ?_ fun slot' endpoint' hne => ?_
  · intro k hk
    cases hk
    exact ⟨hzero, hon⟩
  · rcases holds_enqueue job hholds with ⟨-, hnew⟩ | ⟨hfull, -⟩
    · refine ⟨l ++ [job], hnew, ?_⟩
      rw [coreJobs_append, hcore, owed_none hcall, coreJobs_core hhas, hkey]
      simp [CoreSystem.owed]
    · cases hroom.symm.trans hfull
  · rw [owed_none hcall]
    simp [CoreSystem.owed, hne]

theorem Inv.returns (h : Inv callbacks c) {outcome : Outcome} {results : List Int}
    (hcall : c.call = some k) (hcalled : k.called = some outcome) :
    Inv callbacks { c with call := none, results } := by
  refine ⟨fun slot hon endpoint hlt => ?_, h.last, fun k hk => by cases hk⟩
  obtain ⟨l, hholds, hcore⟩ := h.jobs slot hon endpoint hlt
  rw [owed_called hcall (by simp [hcalled])] at hcore
  exact ⟨l, hholds, hcore⟩

/-- What the bus does besides. -/
theorem Inv.bus (h : Inv callbacks c) {action : BusAction} (hmay : MayGoOn callbacks c action)
    (heq : exec translate c.bus action = some s) : Inv callbacks (c.goesOn callbacks s) := by
  have hsame (hsame : SameJobs c.bus s) : Inv callbacks (c.goesOn callbacks s) := by
    rw [goesOn_other [] (by rw [hsame.calls, List.append_nil]) (by simp)]
    exact h.same hsame
  cases action with
  | control => exact hmay.elim
  | transfer slot request =>
    obtain ⟨⟨-, hon⟩, heq⟩ := Option.ite_none_right_eq_some.mp heq
    cases heq
    rcases transfer_jobs translate slot request c.bus with hunchanged | ⟨job, hcallback, henqueues⟩
    · exact hsame hunchanged
    · have hinside : request.endpoint.contextIdx - 1 < xhciMaxNumEndpoints :=
        Nat.lt_of_le_of_lt (Nat.sub_le ..) request.endpoint.configured.2
      have hother : callbacks.has job.callback = false := by
        rw [hcallback]
        exact hmay
      rw [goesOn_other [] (by rw [henqueues.2, List.append_nil]) (by simp)]
      exact h.otherJob hon hinside hother henqueues
  | poll =>
    obtain ⟨-, heq⟩ := Option.ite_none_right_eq_some.mp heq
    rcases pollEvent_jobs heq with hunchanged |
      ⟨slot, endpoint, job, jobs, hon, hinside, hdequeue, hsets, calls, hcalls, hbelong, hone⟩
    · exact hsame hunchanged
    · exact h.takeJob hon hinside hdequeue hsets hcalls hbelong hone
  | callbackReturns =>
    obtain ⟨-, heq⟩ := Option.ite_none_right_eq_some.mp heq
    exact hsame (SameJobs.callbackReturns heq)
  | enableDeviceSlot =>
    obtain ⟨-, heq⟩ := Option.ite_none_right_eq_some.mp heq
    cases heq
    exact hsame SameJobs.issue
  | addressDevice =>
    obtain ⟨-, heq⟩ := Option.ite_none_right_eq_some.mp heq
    cases heq
    exact hsame SameJobs.issue
  | configureEndpoint =>
    obtain ⟨-, heq⟩ := Option.ite_none_right_eq_some.mp heq
    cases heq
    exact hsame SameJobs.configureEndpoint
  | takeEvent =>
    have hcall : c.call = none := hmay
    rcases takeEvent_cases heq with hunchanged | ⟨slot, hrest⟩
    · exact hsame hunchanged
    · have henabled : Inv callbacks { c with
        bus := { c.bus with driver := c.bus.driver.enable slot } } := h.enable hcall
      rw [goesOn_other [] (by rw [hrest.calls, List.append_nil]) (by simp)]
      exact henabled.same hrest
  | completeTransfer slot endpoint trb =>
    obtain ⟨t, rest, -, -, -, rfl⟩ := completeTransfer_cases heq
    exact hsame ⟨rfl, rfl, rfl, fun h => h⟩
  | completeCommand trb =>
    have heq : c.bus.completeCommand trb = some s := heq
    unfold System.completeCommand at heq
    split at heq
    · cases heq
    · dsimp only at heq
      split at heq
      · cases heq
        exact hsame ⟨rfl, rfl, rfl, fun h => h⟩
      · cases heq
  | portEvent trb =>
    obtain ⟨-, heq⟩ := Option.ite_none_right_eq_some.mp heq
    cases heq
    exact hsame ⟨rfl, rfl, rfl, fun h => h⟩

theorem Init.inv (h : Init c) : Inv callbacks c := by
  refine ⟨fun slot hon endpoint hlt => ?_, h.quiet.lastModified, fun k hk => ?_⟩
  · exact ⟨[], (h.quiet.jobs slot endpoint hon hlt).2, (owed_none h.call).symm⟩
  · cases h.call.symm.trans hk

/-- What a request that is submitted finds. -/
theorem exec_control {request : ControlTransferRequest}
    (heq : exec translate s (.control slot request) = some s') :
    s.driver.enabled slot = true ∧ s' = (xhciControlTransfer translate slot request s).2 := by
  obtain ⟨⟨-, hon⟩, heq⟩ := Option.ite_none_right_eq_some.mp heq
  cases heq
  exact ⟨hon, rfl⟩

theorem Inv.step (h : Inv callbacks c) (hmapped : Dma.HeapMapped translate) {a : CoreAction}
    (hfits : Fits c a) (hstep : Step callbacks translate c a c') : Inv callbacks c' := by
  cases hstep with
  | refuse => exact ⟨h.jobs, h.last, h.submitted⟩
  | @call slot request context _ hcall hrefused heq =>
    obtain ⟨hon, rfl⟩ := exec_control heq
    obtain ⟨hpage, hroom⟩ := hfits hrefused
    obtain ⟨hzero, job, hkey, henqueues⟩ := control_jobs slot
      (request.controlTransfer callbacks context) hmapped h.last hpage
    exact h.call hcall hon hkey henqueues hroom hzero
  | bus hmay heq => exact h.bus hmay heq
  | «return» hcall hcalled => exact h.returns hcall hcalled

theorem Inv.reports (h : Inv callbacks c) : Reports callbacks translate c := by
  constructor
  · intro k hk hfailed
    have hzero := (h.submitted k hk).1
    rw [hfailed] at hzero
    cases hzero
  · intro k hk hwaits
    obtain ⟨l, hholds, hcore⟩ := h.jobs k.slot (h.submitted k hk).2 0 (by decide)
    have hmem : ((k.request.callback callbacks).address, k.context) ∈ coreJobs callbacks l := by
      rw [hcore]
      simp [CoreSystem.owed, hk, hwaits]
    obtain ⟨job, hjob, hkey⟩ := List.mem_map.mp hmem
    refine ⟨job, ?_, congrArg Prod.fst hkey, congrArg Prod.snd hkey⟩
    rw [hholds.toList_eq]
    exact List.mem_of_mem_filter hjob

/-- A request that does not find what it needs leaves no job. -/
theorem Inv.fits_of_reports (h : Inv callbacks c) (hmapped : Dma.HeapMapped translate)
    {request : CoreRequest} {context : Word} {submitted : Int} (hcall : c.call = none)
    (heq : exec translate c.bus
      (.control slot (request.controlTransfer callbacks context)) = some s)
    (hreports : Reports callbacks translate
      { c with bus := s, call := some ⟨slot, request, context, submitted, none⟩ }) :
    (request.transferType ≠ .noData → HasPage c.bus) ∧
      (c.bus.driver.transferJobs slot 0).isFull = false := by
  obtain ⟨hon, rfl⟩ := exec_control heq
  obtain ⟨l, hholds, hcore⟩ := h.jobs slot hon 0 (by decide)
  rw [owed_none hcall] at hcore
  obtain ⟨job, hjob, hcallback, -⟩ := hreports.waits _ rfl rfl
  -- the job that is expected was not there before
  have hchanged (hsame : (xhciControlTransfer translate slot
      (request.controlTransfer callbacks context) c.bus).2.driver.transferJobs slot 0 =
        c.bus.driver.transferJobs slot 0) : False := by
    have hold : job ∈ l := by
      rw [← hholds.toList_eq, ← hsame]
      exact hjob
    have hmem : key job ∈ coreJobs callbacks l := by
      refine List.mem_map_of_mem (List.mem_filter.mpr ⟨hold, ?_⟩)
      rw [hcallback]
      exact has_callback request
    rw [hcore] at hmem
    cases hmem
  have hpage : request.transferType ≠ .noData → HasPage c.bus := by
    intro htype
    by_contra hnone
    apply hchanged
    rw [control_noPage htype h.last hnone]
    rfl
  refine ⟨hpage, ?_⟩
  obtain ⟨-, job', -, henqueues⟩ := control_jobs slot
    (request.controlTransfer callbacks context) hmapped h.last hpage
  rcases holds_enqueue job' hholds with ⟨hroom, -⟩ | ⟨-, hsame⟩
  · exact hroom
  · refine (hchanged ?_).elim
    rw [henqueues.1.jobs, setAt_self, hsame]

theorem Inv.ok_iff (h : Inv callbacks c) (hmapped : Dma.HeapMapped translate) {a : CoreAction}
    (hstep : Step callbacks translate c a c') : Ok callbacks translate c a ↔ Fits c a := by
  constructor
  · intro hok
    have hreports := hok c' hstep
    cases hstep with
    | refuse _ hrefused =>
      intro hnot
      cases hrefused.symm.trans hnot
    | call hcall _ heq =>
      intro _
      exact h.fits_of_reports hmapped hcall heq hreports
    | bus => trivial
    | «return» => trivial
  · intro hfits c'' hstep'
    exact (h.step hmapped hfits hstep').reports

end

/-- In every run all requests report exactly if each of them finds a page
for its data, if it has any, and room for its job. -/
theorem requests_report_iff (callbacks : CoreCallbacks)
    (mmapVirtualToPhysical : Word → Option Word) (hmapped : Dma.HeapMapped mmapVirtualToPhysical)
    (history : List (CoreSystem × CoreAction)) (c : CoreSystem)
    (hrun : Run Init (Step callbacks mmapVirtualToPhysical) history c) :
    (∀ p ∈ history, Ok callbacks mmapVirtualToPhysical p.1 p.2) ↔
      ∀ p ∈ history, Fits p.1 p.2 :=
  hrun.all_iff (fun _ hinit => hinit.inv)
    (fun _ _ _ hinv hfits hstep => hinv.step hmapped hfits hstep)
    fun _ _ _ hinv hstep => hinv.ok_iff hmapped hstep

/-! ## Two requests -/

theorem getDescriptorAddress_ne : (0x80000 : Word) ≠ 0 := by decide

theorem setConfigurationAddress_ne : (0x80100 : Word) ≠ 0 := by decide

def someCallbacks : CoreCallbacks :=
  ⟨⟨0x80000, getDescriptorAddress_ne⟩, ⟨0x80100, setConfigurationAddress_ne⟩⟩

/-- No request has been made of a driver. -/
def bootSystem (heapPageAllocated : Nat → Bool) : CoreSystem where
  bus := { idleSystem with driver := { idleSystem.driver with heapPageAllocated } }
  call := none
  results := []

theorem bootSystem_init (heapPageAllocated : Nat → Bool) : Init (bootSystem heapPageAllocated) :=
  ⟨⟨idleSystem_quiet.jobs, idleSystem_quiet.lastModified, fun _ _ => rfl, rfl, rfl, rfl,
    fun _ _ => rfl, rfl, rfl, rfl, rfl, rfl, rfl, rfl⟩, rfl⟩

/-- The device is configured. -/
theorem setConfiguration_reports :
    Ok someCallbacks some (bootSystem fun _ => false) (.call 1 (.setConfiguration 1) 0x1000) := by
  have hcall : Step someCallbacks some (bootSystem fun _ => false)
    (.call 1 (.setConfiguration 1) 0x1000) _ := .call rfl rfl rfl
  have hrun := (Run.start (bootSystem_init _)).next hcall
  have hfits : Fits (bootSystem fun _ => false) (.call 1 (.setConfiguration 1) 0x1000) :=
    fun _ => ⟨fun hne => absurd rfl hne, rfl⟩
  have hall := (requests_report_iff someCallbacks some (fun _ _ => rfl) _ _ hrun).mpr
    (List.forall_mem_singleton.mpr hfits)
  exact hall _ (List.mem_singleton_self _)

/-- The descriptor of the device. -/
def deviceDescriptor : CoreRequest := .getDescriptor 1 0 0x2000 0x12

/-- Without a page, `usb_get_descriptor` waits although it has no job. -/
theorem fullHeap_waits : ∃ history c, Run Init (Step someCallbacks some) history c ∧
    ¬ ∀ p ∈ history, Ok someCallbacks some p.1 p.2 := by
  have hcall : Step someCallbacks some (bootSystem fun _ => true)
    (.call 1 deviceDescriptor 0x1000) _ := .call rfl rfl rfl
  have hrun := (Run.start (bootSystem_init _)).next hcall
  refine ⟨_, _, hrun, fun hall => ?_⟩
  have hinv : Inv someCallbacks (bootSystem fun _ => true) := (bootSystem_init _).inv
  have hfits := (hinv.ok_iff (fun _ _ => rfl) hcall).mp (hall _ (List.mem_singleton_self _))
  obtain ⟨i, -, hfree⟩ := (hfits rfl).1 (by decide)
  cases hfree

end ZOs.UsbCore.Requests
