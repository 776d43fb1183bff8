import ZOs.Usb.Transfers

/-!
# The job queues keep pace with the controller

An event says which endpoint it is for and nothing more. The driver relies
on the job queue of the endpoint: it holds the jobs of the transfers whose
events are on the event ring, in their order, and then those of the
transfers that the controller has not completed. `Inv` states this, and
each operation keeps it.
-/

namespace ZOs.Xhci.Jobs

open ZOs.Utils

/-- The job that belongs to a transfer. -/
def Transfer.job (t : Transfer) : TransferJob where
  callback := t.callback
  callbackContext := t.context
  dataBuffer := t.buffer.getD ⟨0, 0⟩
  transferLength := t.length
  hasData := t.buffer.isSome

/-- The call that a transfer is owed for its event. -/
def Transfer.owed (t : Transfer) (event : Event) : Call :=
  if completionCode event.trb = completionCodeSuccess then
    { event
      callback := t.callback
      outcome := .success
      data := t.buffer.map AllocatedPage.virtualAddress
      size := if t.buffer.isSome then t.length else 0
      context := t.context }
  else
    { event
      callback := t.callback
      outcome := .failed
      data := none
      size := 0
      context := t.context }

/-- The transfers whose events the driver has not taken, the oldest first. -/
def System.inFlight (s : System) : List Transfer := s.eventRing.filterMap Event.transfer

/-- The transfer is one of an endpoint. -/
def Transfer.isAt (slot : Slot) (endpoint : Nat) (t : Transfer) : Bool :=
  t.slot = slot ∧ t.endpoint = endpoint

/-- The transfers of an endpoint that the driver has a job for. -/
def System.queued (s : System) (slot : Slot) (endpoint : Nat) : List Transfer :=
  s.inFlight.filter (Transfer.isAt slot endpoint) ++ s.pending slot endpoint

/-- The endpoint of the transfer is one of an enabled device. -/
structure Transfer.Valid (t : Transfer) (d : Driver) : Prop where
  enabled : d.enabled t.slot = true
  inside : 0 < t.endpoint ∧ t.endpoint < xhciMaxNumEndpoints
  callback : t.callback ≠ 0

/-- An event fits its owner. -/
def Event.Genuine (e : Event) : Prop :=
  match e.owner with
  | .transfer t => slotId e.trb = t.slot ∧ endpointId e.trb = t.endpoint
  | _ => endpointId e.trb = 0

/-- The transfers that were called back. -/
def System.called (s : System) : List Transfer := s.calls.filterMap fun c => c.event.transfer

structure Inv (s : System) : Prop where
  jobs : ∀ slot endpoint, s.driver.enabled slot = true → 0 < endpoint →
    endpoint < xhciMaxNumEndpoints →
    (s.driver.transferJobs slot (endpoint - 1)).ringSize = xhciMaxNumTransferJobs ∧
      (s.driver.transferJobs slot (endpoint - 1)).Holds ((s.queued slot endpoint).map Transfer.job)
  pending_at : ∀ slot endpoint, ∀ t ∈ s.pending slot endpoint, t.slot = slot ∧ t.endpoint = endpoint
  pending_valid : ∀ slot endpoint, ∀ t ∈ s.pending slot endpoint, t.Valid s.driver
  inFlight_valid : ∀ t ∈ s.inFlight, t.Valid s.driver
  genuine : ∀ e ∈ s.eventRing, e.Genuine
  calls_owed : ∀ c ∈ s.calls, ∃ t, c.event.owner = .transfer t ∧ c = t.owed c.event
  delivered : s.delivered = s.called ++ s.inFlight
  number : ∀ t ∈ s.submitted, t.number < s.submitted.length
  delivered_mem : ∀ t ∈ s.delivered, t ∈ s.submitted
  pending_mem : ∀ slot endpoint, ∀ t ∈ s.pending slot endpoint, t ∈ s.submitted
  delivered_nodup : s.delivered.Nodup
  pending_nodup : ∀ slot endpoint, (s.pending slot endpoint).Nodup
  pending_new : ∀ slot endpoint, ∀ t ∈ s.pending slot endpoint, t ∉ s.delivered

section
variable {s s' : System} {d : Driver} {slot : Slot} {endpoint : Nat} {t : Transfer}

/-- The heap does not matter. -/
theorem Inv.withDriver (h : Inv s) (henabled : d.enabled = s.driver.enabled)
    (hjobs : d.transferJobs = s.driver.transferJobs) : Inv { s with driver := d } where
  jobs := by
    intro slot endpoint
    show d.enabled slot = true → _
    rw [henabled]
    show _ → _ → _ → (d.transferJobs slot (endpoint - 1)).ringSize = _ ∧ _
    rw [show d.transferJobs = s.driver.transferJobs from hjobs]
    exact h.jobs slot endpoint
  pending_at := h.pending_at
  pending_valid slot endpoint t ht :=
    have hv := h.pending_valid slot endpoint t ht
    ⟨henabled ▸ hv.enabled, hv.inside, hv.callback⟩
  inFlight_valid t ht :=
    have hv := h.inFlight_valid t ht
    ⟨henabled ▸ hv.enabled, hv.inside, hv.callback⟩
  genuine := h.genuine
  calls_owed := h.calls_owed
  delivered := h.delivered
  number := h.number
  delivered_mem := h.delivered_mem
  pending_mem := h.pending_mem
  delivered_nodup := h.delivered_nodup
  pending_nodup := h.pending_nodup
  pending_new := h.pending_new

theorem Inv.issue {kind : CommandKind} (h : Inv s) : Inv (s.issue kind) :=
  ⟨h.jobs, h.pending_at, h.pending_valid, h.inFlight_valid, h.genuine, h.calls_owed, h.delivered,
    h.number, h.delivered_mem, h.pending_mem, h.delivered_nodup, h.pending_nodup, h.pending_new⟩

/-- `xhci_alloc_page` changes the heap only. -/
theorem xhciAllocPage_eq {translate : Word → Option Word} {page : AllocatedPage}
    (h : xhciAllocPage translate s.driver = some (page, d)) :
    d.enabled = s.driver.enabled ∧ d.transferJobs = s.driver.transferJobs := by
  unfold xhciAllocPage at h
  dsimp only at h
  split at h
  · cases h
  · split at h
    · cases h
    · cases h
      exact ⟨rfl, rfl⟩

theorem xhciFreePage_eq {page : AllocatedPage} :
    (xhciFreePage page d).enabled = d.enabled ∧
      (xhciFreePage page d).transferJobs = d.transferJobs := by
  unfold xhciFreePage
  split <;> exact ⟨rfl, rfl⟩

theorem Inv.alloc {translate : Word → Option Word} {page : AllocatedPage} (h : Inv s)
    (halloc : xhciAllocPage translate s.driver = some (page, d)) : Inv { s with driver := d } :=
  h.withDriver (xhciAllocPage_eq halloc).1 (xhciAllocPage_eq halloc).2

theorem Inv.free {page : AllocatedPage} (h : Inv s) :
    Inv { s with driver := xhciFreePage page s.driver } :=
  h.withDriver xhciFreePage_eq.1 xhciFreePage_eq.2

/-- A new transfer on an endpoint that has room for its job. -/
theorem Inv.enqueueJob (h : Inv s) (hvalid : t.Valid s.driver)
    (hnumber : t.number = s.submitted.length)
    (hroom : (s.queued t.slot t.endpoint).length < xhciMaxNumTransferJobs) :
    Inv (s.enqueueJob t t.job) := by
  have hnew : t ∉ s.submitted := by
    intro hmem
    have := h.number t hmem
    omega
  have hnew' : t ∉ s.delivered := fun hmem => hnew (h.delivered_mem t hmem)
  have hfresh : ∀ {slot endpoint}, ∀ t' ∈ setAt s.pending t.slot t.endpoint
      (s.pending t.slot t.endpoint ++ [t]) slot endpoint,
      t' ∈ s.pending slot endpoint ∨ t' = t ∧ slot = t.slot ∧ endpoint = t.endpoint := by
    intro slot endpoint t' ht'
    by_cases hat : slot = t.slot ∧ endpoint = t.endpoint
    · obtain ⟨rfl, rfl⟩ := hat
      rw [setAt_self] at ht'
      rcases List.mem_append.mp ht' with hold | hlast
      · exact .inl hold
      · exact .inr ⟨List.mem_singleton.mp hlast, rfl, rfl⟩
    · rw [setAt_of_ne hat] at ht'
      exact .inl ht'
  constructor
  · intro slot endpoint henabled hpos hlt
    obtain ⟨hsize, hholds⟩ := h.jobs slot endpoint henabled hpos hlt
    show (setAt s.driver.transferJobs t.slot (t.endpoint - 1) _ slot (endpoint - 1)).ringSize = _ ∧
      (setAt s.driver.transferJobs t.slot (t.endpoint - 1) _ slot (endpoint - 1)).Holds
        ((s.inFlight.filter (Transfer.isAt slot endpoint) ++
          setAt s.pending t.slot t.endpoint _ slot endpoint).map Transfer.job)
    by_cases hat : slot = t.slot ∧ endpoint = t.endpoint
    · obtain ⟨rfl, rfl⟩ := hat
      rw [setAt_self, setAt_self]
      obtain ⟨ring, heq, hholds', hsize'⟩ := hholds.enqueue (a := t.job) (by
        rw [List.length_map, hsize]
        exact hroom)
      rw [heq]
      refine ⟨hsize'.trans hsize, ?_⟩
      rw [← List.append_assoc, List.map_append]
      exact hholds'
    · have hpos' := hvalid.inside.1
      rw [setAt_of_ne hat, setAt_of_ne fun heq => hat ⟨heq.1, by omega⟩]
      exact ⟨hsize, hholds⟩
  · intro slot endpoint t' ht'
    rcases hfresh t' ht' with hold | ⟨rfl, hslot, hendpoint⟩
    · exact h.pending_at slot endpoint t' hold
    · exact ⟨hslot.symm, hendpoint.symm⟩
  · intro slot endpoint t' ht'
    rcases hfresh t' ht' with hold | ⟨rfl, -⟩
    · have hv := h.pending_valid slot endpoint t' hold
      exact ⟨hv.enabled, hv.inside, hv.callback⟩
    · exact ⟨hvalid.enabled, hvalid.inside, hvalid.callback⟩
  · intro t' ht'
    have hv := h.inFlight_valid t' ht'
    exact ⟨hv.enabled, hv.inside, hv.callback⟩
  · exact h.genuine
  · exact h.calls_owed
  · exact h.delivered
  · intro t' ht'
    show t'.number < (s.submitted ++ [t]).length
    rw [List.length_append, List.length_singleton]
    rcases List.mem_append.mp ht' with hold | hlast
    · have := h.number t' hold
      omega
    · rw [List.mem_singleton.mp hlast]
      omega
  · intro t' ht'
    exact List.mem_append_left _ (h.delivered_mem t' ht')
  · intro slot endpoint t' ht'
    rcases hfresh t' ht' with hold | ⟨rfl, -⟩
    · exact List.mem_append_left _ (h.pending_mem slot endpoint t' hold)
    · exact List.mem_append_right _ (List.mem_singleton_self _)
  · exact h.delivered_nodup
  · intro slot endpoint
    show (setAt s.pending t.slot t.endpoint _ slot endpoint).Nodup
    by_cases hat : slot = t.slot ∧ endpoint = t.endpoint
    · obtain ⟨rfl, rfl⟩ := hat
      rw [setAt_self, List.nodup_append_comm, List.singleton_append, List.nodup_cons]
      exact ⟨fun hmem => hnew (h.pending_mem _ _ t hmem), h.pending_nodup _ _⟩
    · rw [setAt_of_ne hat]
      exact h.pending_nodup slot endpoint
  · intro slot endpoint t' ht'
    rcases hfresh t' ht' with hold | ⟨rfl, -⟩
    · exact h.pending_new slot endpoint t' hold
    · exact hnew'

/-- What the controller does when it completes a transfer. -/
theorem completeTransfer_cases {trb : Trb} (heq : s.completeTransfer slot endpoint trb = some s') :
    ∃ t rest, s.pending slot endpoint = t :: rest ∧ slotId trb = slot ∧ endpointId trb = endpoint ∧
      s' = { s with
        transferRings := setAt s.transferRings slot endpoint
          (remainingTrbs (s.transferRings slot endpoint))
        pending := setAt s.pending slot endpoint rest
        eventRing := s.eventRing ++ [⟨trb, .transfer t⟩]
        delivered := s.delivered ++ [t] } := by
  unfold System.completeTransfer at heq
  split at heq
  · cases heq
  · rename_i t rest hpending
    split at heq
    · rename_i htrb
      cases heq
      exact ⟨t, rest, hpending, htrb.1, htrb.2.1, rfl⟩
    · cases heq

/-- A transfer that is completed stays queued. -/
theorem Inv.completeTransfer_queued {trb : Trb} (h : Inv s)
    (heq : s.completeTransfer slot endpoint trb = some s') (slot' : Slot) (endpoint' : Nat) :
    s'.queued slot' endpoint' = s.queued slot' endpoint' := by
  obtain ⟨t, rest, hpending, -, -, rfl⟩ := completeTransfer_cases heq
  obtain ⟨hslot, hendpoint⟩ := h.pending_at slot endpoint t (hpending ▸ List.mem_cons_self)
  let event : Event := ⟨trb, .transfer t⟩
  show ((s.eventRing ++ [event]).filterMap Event.transfer).filter _ ++
    setAt s.pending slot endpoint rest slot' endpoint' = _
  have hflight : (s.eventRing ++ [event]).filterMap Event.transfer = s.inFlight ++ [t] := by
    rw [List.filterMap_append]
    rfl
  rw [hflight, List.filter_append]
  by_cases hat : slot' = slot ∧ endpoint' = endpoint
  · obtain ⟨rfl, rfl⟩ := hat
    have hsame : t.isAt slot' endpoint' = true := decide_eq_true ⟨hslot, hendpoint⟩
    rw [setAt_self, List.filter_cons_of_pos hsame, List.filter_nil, List.append_assoc,
      List.singleton_append, ← hpending]
    rfl
  · have hnot : ¬ t.isAt slot' endpoint' = true := by
      unfold Transfer.isAt
      rw [decide_eq_true_iff, hslot, hendpoint]
      exact fun hsame => hat ⟨hsame.1.symm, hsame.2.symm⟩
    rw [setAt_of_ne hat, List.filter_cons_of_neg hnot, List.filter_nil, List.append_nil]
    rfl

/-- The oldest transfer of an endpoint is completed. -/
theorem Inv.completeTransfer {trb : Trb} (h : Inv s)
    (heq : s.completeTransfer slot endpoint trb = some s') : Inv s' := by
  have hqueued := h.completeTransfer_queued heq
  obtain ⟨t, rest, hpending, hslotId, hendpointId, rfl⟩ := completeTransfer_cases heq
  have hmem : t ∈ s.pending slot endpoint := hpending ▸ List.mem_cons_self
  obtain ⟨hslot, hendpoint⟩ := h.pending_at slot endpoint t hmem
  have hvalid := h.pending_valid slot endpoint t hmem
  have hnodup := h.pending_nodup slot endpoint
  rw [hpending, List.nodup_cons] at hnodup
  have hless : ∀ {slot' endpoint'}, ∀ t' ∈ setAt s.pending slot endpoint rest slot' endpoint',
      t' ∈ s.pending slot' endpoint' ∧ t' ≠ t := by
    intro slot' endpoint' t' ht'
    by_cases hat : slot' = slot ∧ endpoint' = endpoint
    · obtain ⟨rfl, rfl⟩ := hat
      rw [setAt_self] at ht'
      rw [hpending]
      exact ⟨List.mem_cons_of_mem _ ht', fun heq => hnodup.1 (heq ▸ ht')⟩
    · rw [setAt_of_ne hat] at ht'
      refine ⟨ht', ?_⟩
      rintro rfl
      obtain ⟨hs, he⟩ := h.pending_at slot' endpoint' t' ht'
      exact hat ⟨hs.symm.trans hslot, he.symm.trans hendpoint⟩
  let event : Event := ⟨trb, .transfer t⟩
  have hflight : (s.eventRing ++ [event]).filterMap Event.transfer = s.inFlight ++ [t] := by
    rw [List.filterMap_append]
    rfl
  constructor
  · intro slot' endpoint'
    rw [hqueued]
    exact h.jobs slot' endpoint'
  · intro slot' endpoint' t' ht'
    exact h.pending_at slot' endpoint' t' (hless t' ht').1
  · intro slot' endpoint' t' ht'
    exact h.pending_valid slot' endpoint' t' (hless t' ht').1
  · intro t' ht'
    have ht' : t' ∈ s.inFlight ++ [t] := hflight ▸ ht'
    rcases List.mem_append.mp ht' with hold | hlast
    · exact h.inFlight_valid t' hold
    · exact List.mem_singleton.mp hlast ▸ hvalid
  · intro e he
    rcases List.mem_append.mp he with hold | hlast
    · exact h.genuine e hold
    · rw [List.mem_singleton.mp hlast]
      exact ⟨hslotId.trans hslot.symm, hendpointId.trans hendpoint.symm⟩
  · exact h.calls_owed
  · show s.delivered ++ [t] = s.called ++ (s.eventRing ++ [event]).filterMap Event.transfer
    rw [hflight, h.delivered, List.append_assoc]
  · exact h.number
  · intro t' ht'
    rcases List.mem_append.mp ht' with hold | hlast
    · exact h.delivered_mem t' hold
    · exact List.mem_singleton.mp hlast ▸ h.pending_mem slot endpoint t hmem
  · intro slot' endpoint' t' ht'
    exact h.pending_mem slot' endpoint' t' (hless t' ht').1
  · show (s.delivered ++ [t]).Nodup
    rw [List.nodup_append_comm, List.singleton_append, List.nodup_cons]
    exact ⟨h.pending_new slot endpoint t hmem, h.delivered_nodup⟩
  · intro slot' endpoint'
    show (setAt s.pending slot endpoint rest slot' endpoint').Nodup
    by_cases hat : slot' = slot ∧ endpoint' = endpoint
    · obtain ⟨rfl, rfl⟩ := hat
      rw [setAt_self]
      exact hnodup.2
    · rw [setAt_of_ne hat]
      exact h.pending_nodup slot' endpoint'
  · intro slot' endpoint' t' ht' hdelivered
    obtain ⟨hold, hne⟩ := hless t' ht'
    rcases List.mem_append.mp hdelivered with hbefore | hlast
    · exact h.pending_new slot' endpoint' t' hold hbefore
    · exact hne (List.mem_singleton.mp hlast)

/-- An event that no transfer is behind is added. -/
theorem Inv.addEvent {event : Event} (h : Inv s) (hnone : event.transfer = none)
    (hgenuine : event.Genuine) : Inv { s with eventRing := s.eventRing ++ [event] } := by
  have hflight : (s.eventRing ++ [event]).filterMap Event.transfer = s.inFlight := by
    rw [List.filterMap_append, List.filterMap_cons_none hnone]
    exact List.append_nil _
  constructor
  · intro slot endpoint
    show _ → _ → _ → _ ∧ (s.driver.transferJobs slot (endpoint - 1)).Holds
      ((List.filter _ ((s.eventRing ++ [event]).filterMap Event.transfer) ++ _).map Transfer.job)
    rw [hflight]
    exact h.jobs slot endpoint
  · exact h.pending_at
  · exact h.pending_valid
  · intro t ht
    exact h.inFlight_valid t (hflight ▸ ht)
  · intro e he
    rcases List.mem_append.mp he with hold | hlast
    · exact h.genuine e hold
    · exact List.mem_singleton.mp hlast ▸ hgenuine
  · exact h.calls_owed
  · show s.delivered = s.called ++ (s.eventRing ++ [event]).filterMap Event.transfer
    rw [hflight]
    exact h.delivered
  · exact h.number
  · exact h.delivered_mem
  · exact h.pending_mem
  · exact h.delivered_nodup
  · exact h.pending_nodup
  · exact h.pending_new

/-- The first event is dropped that no transfer is behind. -/
theorem Inv.dropEvent {event : Event} {rest : List Event} (h : Inv s)
    (hring : s.eventRing = event :: rest) (hnone : event.transfer = none) :
    Inv { s with eventRing := rest } := by
  have hflight : rest.filterMap Event.transfer = s.inFlight := by
    unfold System.inFlight
    rw [hring, List.filterMap_cons_none hnone]
  constructor
  · intro slot endpoint
    show _ → _ → _ → _ ∧ (s.driver.transferJobs slot (endpoint - 1)).Holds
      ((List.filter _ (rest.filterMap Event.transfer) ++ _).map Transfer.job)
    rw [hflight]
    exact h.jobs slot endpoint
  · exact h.pending_at
  · exact h.pending_valid
  · intro t ht
    exact h.inFlight_valid t (hflight ▸ ht)
  · intro e he
    exact h.genuine e (hring ▸ List.mem_cons_of_mem _ he)
  · exact h.calls_owed
  · show s.delivered = s.called ++ rest.filterMap Event.transfer
    rw [hflight]
    exact h.delivered
  · exact h.number
  · exact h.delivered_mem
  · exact h.pending_mem
  · exact h.delivered_nodup
  · exact h.pending_nodup
  · exact h.pending_new

theorem Inv.freeBuffer {event : Event} {page : AllocatedPage} (h : Inv s) :
    Inv (s.freeBuffer event page) :=
  have hfree : Inv { s with driver := xhciFreePage page s.driver } := h.free
  ⟨hfree.jobs, hfree.pending_at, hfree.pending_valid, hfree.inFlight_valid, hfree.genuine,
    hfree.calls_owed, hfree.delivered, hfree.number, hfree.delivered_mem, hfree.pending_mem,
    hfree.delivered_nodup, hfree.pending_nodup, hfree.pending_new⟩

theorem Inv.callbackReturns (h : Inv s) (heq : s.callbackReturns = some s') : Inv s' := by
  unfold System.callbackReturns at heq
  have hreturned : ∀ rest, Inv { s with running := rest } := fun _ =>
    ⟨h.jobs, h.pending_at, h.pending_valid, h.inFlight_valid, h.genuine, h.calls_owed, h.delivered,
      h.number, h.delivered_mem, h.pending_mem, h.delivered_nodup, h.pending_nodup, h.pending_new⟩
  split at heq
  · cases heq
  · dsimp only at heq
    split at heq
    · cases heq
      exact hreturned _
    · cases heq
      exact (hreturned _).freeBuffer

theorem Event.transfer_eq {event : Event} (h : event.owner = .transfer t) :
    event.transfer = some t := by
  unfold Event.transfer
  rw [h]

theorem inFlight_cons {event : Event} {rest : List Event} (hring : s.eventRing = event :: rest)
    (howner : event.owner = .transfer t) : s.inFlight = t :: rest.filterMap Event.transfer := by
  unfold System.inFlight
  rw [hring, List.filterMap_cons_some (Event.transfer_eq howner)]

/-- The event's job is the first of its queue. -/
theorem Inv.dequeue {event : Event} {rest : List Event} (h : Inv s)
    (hring : s.eventRing = event :: rest) (howner : event.owner = .transfer t) :
    ∃ jobs, (s.driver.transferJobs t.slot (t.endpoint - 1)).dequeue = some (t.job, jobs) ∧
      jobs.ringSize = xhciMaxNumTransferJobs ∧
      jobs.Holds (((rest.filterMap Event.transfer).filter (Transfer.isAt t.slot t.endpoint) ++
        s.pending t.slot t.endpoint).map Transfer.job) := by
  have hflight := inFlight_cons hring howner
  have hvalid := h.inFlight_valid t (hflight ▸ List.mem_cons_self)
  obtain ⟨hsize, hholds⟩ := h.jobs t.slot t.endpoint hvalid.enabled hvalid.inside.1
    hvalid.inside.2
  have hself : t.isAt t.slot t.endpoint = true := decide_eq_true ⟨rfl, rfl⟩
  unfold System.queued at hholds
  rw [hflight, List.filter_cons_of_pos hself, List.cons_append, List.map_cons] at hholds
  obtain ⟨jobs, heq, hrest, hsize'⟩ := hholds.dequeue
  exact ⟨jobs, heq, hsize'.trans hsize, hrest⟩

/-- The callback of the event's transfer is called. -/
theorem Inv.call {event : Event} {rest : List Event} {jobs : RingBuffer TransferJob}
    {page : Option AllocatedPage} (h : Inv s) (hring : s.eventRing = event :: rest)
    (howner : event.owner = .transfer t)
    (hdequeue : (s.driver.transferJobs t.slot (t.endpoint - 1)).dequeue = some (t.job, jobs)) :
    Inv (System.call { s with
      eventRing := rest
      driver := s.driver.setJobs t.slot (t.endpoint - 1) jobs } (t.owed event) page) := by
  obtain ⟨jobs', heq, hsize, hholds⟩ := h.dequeue hring howner
  cases hdequeue.symm.trans heq
  have hflight := inFlight_cons hring howner
  have howed : (t.owed event).event = event := by
    unfold Transfer.owed
    split <;> rfl
  have hvalid := h.inFlight_valid t (hflight ▸ List.mem_cons_self)
  constructor
  · intro slot endpoint henabled hpos hlt
    obtain ⟨hsize', hholds'⟩ := h.jobs slot endpoint henabled hpos hlt
    show (setAt s.driver.transferJobs t.slot (t.endpoint - 1) jobs slot (endpoint - 1)).ringSize =
      _ ∧ (setAt s.driver.transferJobs t.slot (t.endpoint - 1) jobs slot (endpoint - 1)).Holds
        (((rest.filterMap Event.transfer).filter (Transfer.isAt slot endpoint) ++
          s.pending slot endpoint).map Transfer.job)
    by_cases hat : slot = t.slot ∧ endpoint = t.endpoint
    · obtain ⟨rfl, rfl⟩ := hat
      rw [setAt_self]
      exact ⟨hsize, hholds⟩
    · have hpos' := hvalid.inside.1
      have hnot : ¬ t.isAt slot endpoint = true := by
        unfold Transfer.isAt
        rw [decide_eq_true_iff]
        exact fun hsame => hat ⟨hsame.1.symm, hsame.2.symm⟩
      unfold System.queued at hholds'
      rw [hflight, List.filter_cons_of_neg hnot] at hholds'
      rw [setAt_of_ne fun heq => hat ⟨heq.1, by omega⟩]
      exact ⟨hsize', hholds'⟩
  · exact h.pending_at
  · intro slot endpoint t' ht'
    have hv := h.pending_valid slot endpoint t' ht'
    exact ⟨hv.enabled, hv.inside, hv.callback⟩
  · intro t' ht'
    have hv := h.inFlight_valid t' (hflight ▸ List.mem_cons_of_mem _ ht')
    exact ⟨hv.enabled, hv.inside, hv.callback⟩
  · intro e he
    exact h.genuine e (hring ▸ List.mem_cons_of_mem _ he)
  · intro c hc
    rcases List.mem_append.mp hc with hold | hlast
    · exact h.calls_owed c hold
    · rw [List.mem_singleton.mp hlast, howed]
      exact ⟨t, howner, rfl⟩
  · show s.delivered = (s.calls ++ [t.owed event]).filterMap (fun c => c.event.transfer) ++
      rest.filterMap Event.transfer
    have hlast : [t.owed event].filterMap (fun c => c.event.transfer) = [t] := by
      rw [List.filterMap_cons_some (by rw [howed, Event.transfer_eq howner])]
      rfl
    rw [h.delivered, hflight, List.filterMap_append, hlast, List.append_assoc]
    rfl
  · exact h.number
  · exact h.delivered_mem
  · exact h.pending_mem
  · exact h.delivered_nodup
  · exact h.pending_nodup
  · exact h.pending_new

/-- What the poller does with the job of a transfer. -/
theorem handleJob_eq {event : Event} (hcallback : t.callback ≠ 0) :
    s.handleJob event t.job =
      if completionCode event.trb = completionCodeSuccess then s.call (t.owed event) t.buffer
      else match t.buffer with
        | none => s.call (t.owed event) none
        | some page => (s.freeBuffer event page).call (t.owed event) none := by
  unfold System.handleJob Transfer.owed Transfer.job
  cases hbuffer : t.buffer with
  | none =>
    by_cases hcode : completionCode event.trb = completionCodeSuccess
    · simp [hcode]
    · simp [hcode]
      exact fun hnull => (hcallback hnull).elim
  | some page =>
    by_cases hcode : completionCode event.trb = completionCodeSuccess
    · simp [hcode]
    · simp [hcode]
      exact fun hnull => (hcallback hnull).elim

/-- An event with no transfer is dropped; one with a transfer calls back. -/
theorem Inv.pollEvent_cases {event : Event} {rest : List Event} (h : Inv s)
    (hring : s.eventRing = event :: rest) :
    (event.transfer = none ∧ s.pollEvent = some { s with eventRing := rest }) ∨
    ∃ t jobs, event.owner = .transfer t ∧
      (s.driver.transferJobs t.slot (t.endpoint - 1)).dequeue = some (t.job, jobs) ∧
      s.pollEvent = some (System.handleJob { s with
        eventRing := rest
        driver := s.driver.setJobs t.slot (t.endpoint - 1) jobs } event t.job) := by
  have hgenuine := h.genuine event (hring ▸ List.mem_cons_self)
  unfold Event.Genuine at hgenuine
  unfold System.pollEvent
  rw [hring]
  dsimp only
  cases howner : event.owner with
  | transfer t =>
    right
    rw [howner] at hgenuine
    obtain ⟨hslot, hendpoint⟩ := hgenuine
    obtain ⟨jobs, hdequeue, -⟩ := h.dequeue hring howner
    have hvalid := h.inFlight_valid t (inFlight_cons hring howner ▸ List.mem_cons_self)
    have hpos := hvalid.inside.1
    refine ⟨t, jobs, rfl, hdequeue, ?_⟩
    rw [hslot, hendpoint, if_neg (by omega), if_neg (by simp [hvalid.enabled])]
    simp only [hdequeue]
  | command c =>
    left
    rw [howner] at hgenuine
    rw [if_pos hgenuine]
    exact ⟨by rw [Event.transfer, howner], rfl⟩
  | port =>
    left
    rw [howner] at hgenuine
    rw [if_pos hgenuine]
    exact ⟨by rw [Event.transfer, howner], rfl⟩

theorem Inv.pollEvent (h : Inv s) (heq : s.pollEvent = some s') : Inv s' := by
  cases hring : s.eventRing with
  | nil =>
    unfold System.pollEvent at heq
    rw [hring] at heq
    cases heq
  | cons event rest =>
    rcases h.pollEvent_cases hring with ⟨hnone, hpoll⟩ | ⟨t, jobs, howner, hdequeue, hpoll⟩
    · cases hpoll.symm.trans heq
      exact h.dropEvent hring hnone
    · have hvalid := h.inFlight_valid t (inFlight_cons hring howner ▸ List.mem_cons_self)
      rw [handleJob_eq hvalid.callback] at hpoll
      cases hpoll.symm.trans heq
      split
      · exact h.call hring howner hdequeue
      · split
        · exact h.call hring howner hdequeue
        · rename_i page _
          have hcall := @Inv.call s t event rest jobs none h hring howner hdequeue
          have hfreed := @Inv.freeBuffer _ event page hcall
          exact hfreed

/-- What a callback may find changed by the poller. -/
theorem handleJob_frame {event : Event} {job : TransferJob} :
    (s.handleJob event job).eventRing = s.eventRing ∧
    (s.handleJob event job).pending = s.pending ∧
    (s.handleJob event job).transferRings = s.transferRings ∧
    (s.handleJob event job).submitted = s.submitted := by
  unfold System.handleJob
  dsimp only
  split
  · split
    · split <;> exact ⟨rfl, rfl, rfl, rfl⟩
    · split <;> exact ⟨rfl, rfl, rfl, rfl⟩
  · split <;> exact ⟨rfl, rfl, rfl, rfl⟩

theorem pollEvent_frame (heq : s.pollEvent = some s') :
    ∃ event, s.eventRing = event :: s'.eventRing ∧ s'.pending = s.pending ∧
      s'.transferRings = s.transferRings ∧ s'.submitted = s.submitted := by
  unfold System.pollEvent at heq
  split at heq
  · cases heq
  · rename_i event rest hring
    refine ⟨event, ?_⟩
    dsimp only at heq
    split at heq
    · cases heq
      exact ⟨hring, rfl, rfl, rfl⟩
    · split at heq
      · cases heq
        exact ⟨hring, rfl, rfl, rfl⟩
      · split at heq
        · cases heq
          exact ⟨hring, rfl, rfl, rfl⟩
        · cases heq
          rw [hring]
          refine ⟨?_, handleJob_frame.2.1, handleJob_frame.2.2.1, handleJob_frame.2.2.2⟩
          rw [handleJob_frame.1]

end

end ZOs.Xhci.Jobs
