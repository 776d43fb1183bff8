import Mathlib.Data.List.Perm.Basic
import ZOs.Lib.Run
import ZOs.Usb.JobQueues

/-!
# Transfers and their completions

Any number of transfers on any number of endpoints: they are submitted,
from outside or by a callback, and completed by the controller, each
endpoint in its own order, and the events are taken by the poller, which
may itself run inside a callback. What is proved of every such run is
`Paired`: each event calls back for its own transfer, with the data of that
transfer, and the buffer page of each transfer is its own until it is freed,
once.
-/

namespace ZOs.Xhci.Jobs

open Runs ZOs.Utils

/-- As many transfers as are handed to an endpoint at a time. -/
def maxOutstanding : Nat := 85

/-- TRBs of a transfer ring that are not the Link TRB. -/
def transferRingRoom : Nat := 255

inductive Action
  | control (slot : Slot) (request : ControlTransferRequest)
  | transfer (slot : Slot) (request : TransferRequest)
  | complete (slot : Slot) (endpoint : Nat) (trb : Trb)
  | poll
  | callbackReturns

/-- Submissions are to devices that have been addressed, and succeed. -/
inductive Step (mmapVirtualToPhysical : Word → Option Word) : System → Action → System → Prop
  | control {s s' slot request} : s.driver.enabled slot = true →
      (s.queued slot 1).length < maxOutstanding →
      xhciControlTransfer mmapVirtualToPhysical slot request s = (0, s') →
      Step mmapVirtualToPhysical s (.control slot request) s'
  | transfer {s s' slot request} : s.driver.enabled slot = true →
      (s.queued slot request.endpoint.contextIdx).length < maxOutstanding →
      xhciTransfer mmapVirtualToPhysical slot request s = (0, s') →
      Step mmapVirtualToPhysical s (.transfer slot request) s'
  | complete {s s' slot endpoint trb} : s.completeTransfer slot endpoint trb = some s' →
      Step mmapVirtualToPhysical s (.complete slot endpoint trb) s'
  | poll {s s'} : s.pollEvent = some s' → Step mmapVirtualToPhysical s .poll s'
  | callbackReturns {s s'} : s.callbackReturns = some s' →
      Step mmapVirtualToPhysical s .callbackReturns s'

/-- Nothing is under way: some devices are enabled, with empty job queues,
and some pages of the heap are in use. -/
structure Quiet (s : System) : Prop where
  jobs : ∀ slot endpoint, s.driver.enabled slot = true → endpoint < xhciMaxNumEndpoints →
    (s.driver.transferJobs slot endpoint).ringSize = xhciMaxNumTransferJobs ∧
      (s.driver.transferJobs slot endpoint).Holds []
  lastModified : s.driver.lastModifiedHeapPageIdx < xhciHeapMaxPages
  transferRings : ∀ slot endpoint, s.transferRings slot endpoint = []
  eventRing : s.eventRing = []
  running : s.running = []
  waiting : s.waiting = none
  pending : ∀ slot endpoint, s.pending slot endpoint = []
  commands : s.commands = []
  submitted : s.submitted = []
  delivered : s.delivered = []
  calls : s.calls = []
  freed : s.freed = []
  completed : s.completed = []
  results : s.results = []

/-- How often the buffer of a transfer was freed. -/
def System.timesFreed (s : System) (t : Transfer) : Nat :=
  (s.freed.filterMap fun x => x.1.transfer).count t

/-- The callback that `c` is a call of has not returned. -/
def System.isRunning (s : System) (c : Call) : Prop := ∃ x ∈ s.running, x.1 = c.event

structure Paired (s : System) : Prop where
  /-- every call is the one that the transfer of its event is owed -/
  owed : ∀ c ∈ s.calls, ∃ t ∈ s.submitted, c.event.owner = .transfer t ∧ c = t.owed c.event
  /-- the events taken have each led to one call, in their order -/
  in_order : s.delivered = s.called ++ s.inFlight
  once : s.delivered.Nodup
  freed_own : ∀ x ∈ s.freed, ∃ t, x.1.owner = .transfer t ∧ t.buffer = some x.2
  /-- a buffer is freed before the callback that fails, and after the one
  that succeeds has returned -/
  freed : ∀ c ∈ s.calls, ∀ t page, c.event.owner = .transfer t → t.buffer = some page →
    (c.outcome = .success ∧ s.isRunning c → s.timesFreed t = 0) ∧
    (¬ (c.outcome = .success ∧ s.isRunning c) → s.timesFreed t = 1)
  not_freed : ∀ t, t ∉ s.called → s.timesFreed t = 0
  /-- no two outstanding transfers share a page -/
  apart : ∀ t ∈ s.submitted, ∀ t' ∈ s.submitted, t ≠ t' → s.timesFreed t = 0 →
    s.timesFreed t' = 0 → ∀ page page', t.buffer = some page → t'.buffer = some page' →
      page.virtualAddress ≠ page'.virtualAddress
  /-- neither the transfer rings nor the job queues fill -/
  trbs : ∀ slot endpoint, (s.transferRings slot endpoint).length ≤ transferRingRoom
  jobs : ∀ slot endpoint, (s.queued slot endpoint).length ≤ maxOutstanding

/-! ## The pages of the heap -/

section Heap

variable {d d' : Driver} {translate : Word → Option Word} {page : AllocatedPage}

theorem searchPage_lt {allocated : Nat → Bool} {rounds : Nat} : ∀ {checked pageIdx},
    pageIdx < xhciHeapMaxPages →
      searchPage allocated rounds checked pageIdx < xhciHeapMaxPages := by
  induction rounds with
  | zero => exact fun h => h
  | succ rounds ih =>
    intro checked pageIdx h
    unfold searchPage
    split
    · apply ih
      split
      · decide
      · omega
    · exact h

/-- The page was free, and is the only one that changes. -/
theorem xhciAllocPage_spec (h : xhciAllocPage translate d = some (page, d'))
    (hlast : d.lastModifiedHeapPageIdx < xhciHeapMaxPages) :
    ∃ i < xhciHeapMaxPages, page.virtualAddress = pageAddress i ∧ d.heapPageAllocated i = false ∧
      d'.heapPageAllocated = Function.update d.heapPageAllocated i true ∧
      d'.lastModifiedHeapPageIdx < xhciHeapMaxPages := by
  have hlt : searchPage d.heapPageAllocated xhciHeapMaxPages (fun _ => false)
      d.lastModifiedHeapPageIdx < xhciHeapMaxPages := searchPage_lt hlast
  unfold xhciAllocPage at h
  dsimp only at h
  split at h
  · cases h
  · rename_i hfree
    split at h
    · cases h
    · cases h
      exact ⟨_, hlt, rfl, Bool.eq_false_iff.mpr hfree, rfl, hlt⟩

theorem pageIndex_pageAddress {i : Nat} (hi : i < xhciHeapMaxPages)
    (h : page.virtualAddress = pageAddress i) : pageIndex page = i := by
  have hi : i < 512 := hi
  unfold pageIndex pageAddress pageSize at *
  have hoffset : xhciHeapVirtualBase + BitVec.ofNat 64 (i * 4096) - xhciHeapVirtualBase =
      BitVec.ofNat 64 (i * 4096) := by
    rw [BitVec.add_comm, BitVec.add_sub_cancel]
  rw [h, hoffset, BitVec.toNat_ofNat]
  omega

theorem xhciFreePage_spec {i : Nat} (hi : i < xhciHeapMaxPages)
    (h : page.virtualAddress = pageAddress i) :
    xhciFreePage page d = { d with
      heapPageAllocated := Function.update d.heapPageAllocated i false
      lastModifiedHeapPageIdx := i } := by
  unfold xhciFreePage
  rw [pageIndex_pageAddress hi h, if_neg (by omega)]

end Heap

/-! ## Frees -/

/-- The page that is freed when a callback returns, with its event. -/
def heldPage (x : Event × Option AllocatedPage) : Option (Event × AllocatedPage) :=
  x.2.map fun page => (x.1, page)

/-- The buffer of the transfer that a call is for, with the event. -/
def Call.buffer (c : Call) : Option (Event × AllocatedPage) :=
  (c.event.transfer.bind Transfer.buffer).map fun page => (c.event, page)

/-- The page that is freed when the callback returns. -/
def Call.held (c : Call) : Option AllocatedPage :=
  if c.outcome = .success then c.event.transfer.bind Transfer.buffer else none

/-- The buffers of the transfers that were called back are each freed or
held by a callback, once. -/
structure Settled (s : System) : Prop where
  frames : ∀ x ∈ s.running, ∃ c ∈ s.calls, c.event = x.1 ∧ x.2 = c.held
  settled : (s.freed ++ s.running.filterMap heldPage).Perm (s.calls.filterMap Call.buffer)

/-- Calls of which the event is for one transfer. -/
theorem nodup_filterMap_inj {α β : Type} {f : α → Option β} {b : β} : ∀ {l : List α},
    (l.filterMap f).Nodup → ∀ x ∈ l, ∀ y ∈ l, f x = some b → f y = some b → x = y := by
  intro l
  induction l with
  | nil => simp
  | cons a l ih =>
    intro h x hx y hy hfx hfy
    cases hfa : f a with
    | none =>
      rw [List.filterMap_cons_none hfa] at h
      have hne : ∀ z, f z = some b → z ≠ a := by
        rintro z hz rfl
        cases hfa.symm.trans hz
      have hx' := (List.mem_cons.mp hx).resolve_left (hne x hfx)
      have hy' := (List.mem_cons.mp hy).resolve_left (hne y hfy)
      exact ih h x hx' y hy' hfx hfy
    | some b' =>
      rw [List.filterMap_cons_some hfa, List.nodup_cons] at h
      obtain ⟨hnew, hrest⟩ := h
      rcases List.mem_cons.mp hx with rfl | hx'
      · rcases List.mem_cons.mp hy with rfl | hy'
        · rfl
        · cases hfa.symm.trans hfx
          exact (hnew (List.mem_filterMap.mpr ⟨y, hy', hfy⟩)).elim
      · rcases List.mem_cons.mp hy with rfl | hy'
        · cases hfa.symm.trans hfy
          exact (hnew (List.mem_filterMap.mpr ⟨x, hx', hfx⟩)).elim
        · exact ih hrest x hx' y hy' hfx hfy

section Frees

variable {s s' : System} {t : Transfer} {c : Call} {event : Event} {page : AllocatedPage}

theorem transfer_buffer (c : Call) :
    c.buffer.bind (fun x => x.1.transfer) = c.event.transfer.bind fun t =>
      if t.buffer.isSome then some t else none := by
  unfold Call.buffer
  cases htransfer : c.event.transfer with
  | none => rfl
  | some t =>
    cases hbuffer : t.buffer with
    | none => simp [hbuffer]
    | some page => simp [hbuffer, htransfer]

/-- The buffers of the calls belong to the transfers called back that have one. -/
theorem filterMap_buffer (calls : List Call) :
    (calls.filterMap Call.buffer).filterMap (fun x => x.1.transfer) =
      (calls.filterMap fun c => c.event.transfer).filter fun t => t.buffer.isSome := by
  rw [List.filterMap_filterMap, ← List.filterMap_eq_filter, List.filterMap_filterMap]
  apply List.filterMap_congr
  intro c _
  rw [transfer_buffer]
  rfl

/-- A transfer is freed or held as often as it has a buffer and was called
back. -/
theorem Settled.count (h : Settled s) (t : Transfer) :
    s.timesFreed t + ((s.running.filterMap heldPage).filterMap fun x => x.1.transfer).count t =
      (s.called.filter fun t => t.buffer.isSome).count t := by
  have hperm := (h.settled.filterMap fun x => x.1.transfer).count_eq t
  rw [filterMap_buffer, List.filterMap_append, List.count_append] at hperm
  exact hperm

theorem Inv.called_nodup (h : Inv s) : s.called.Nodup := by
  have hnodup := h.delivered_nodup
  rw [h.delivered] at hnodup
  exact (List.nodup_append.mp hnodup).1

theorem Settled.not_freed (h : Settled s) (ht : t ∉ s.called) : s.timesFreed t = 0 := by
  have hcount := h.count t
  have hzero : (s.called.filter fun t => t.buffer.isSome).count t = 0 :=
    List.count_eq_zero_of_not_mem fun hmem => ht (List.mem_filter.mp hmem).1
  omega

theorem Settled.times (h : Settled s) (hinv : Inv s) (ht : t ∈ s.called)
    (hbuffer : t.buffer = some page) :
    s.timesFreed t + ((s.running.filterMap heldPage).filterMap fun x => x.1.transfer).count t =
      1 := by
  rw [h.count t, List.count_filter (by simp [hbuffer])]
  exact List.count_eq_one_of_mem hinv.called_nodup ht

/-- The buffer of a success is held until the callback returns. -/
theorem Settled.held (h : Settled s) (hinv : Inv s) (hc : c ∈ s.calls)
    (howner : c.event.owner = .transfer t) (hbuffer : t.buffer = some page)
    (hsuccess : c.outcome = .success) (hrunning : s.isRunning c) : s.timesFreed t = 0 := by
  have htransfer := Event.transfer_eq howner
  have hcalled : t ∈ s.called := List.mem_filterMap.mpr ⟨c, hc, htransfer⟩
  have htimes := h.times hinv hcalled hbuffer
  obtain ⟨x, hx, hevent⟩ := hrunning
  obtain ⟨c', hc', hevent', hheld⟩ := h.frames x hx
  have hsame : c' = c := nodup_filterMap_inj hinv.called_nodup c' hc' c hc
    (by rw [hevent', hevent, htransfer]) htransfer
  have hx2 : x.2 = some page := by
    rw [hheld, hsame, Call.held, if_pos hsuccess, htransfer]
    exact hbuffer
  have hmem : t ∈ (s.running.filterMap heldPage).filterMap fun x => x.1.transfer := by
    refine List.mem_filterMap.mpr ⟨(x.1, page), List.mem_filterMap.mpr ⟨x, hx, ?_⟩, ?_⟩
    · rw [heldPage, hx2]
      rfl
    · rw [← htransfer, ← hevent]
  have hpos := List.count_pos_iff.mpr hmem
  omega

/-- In every other case it is freed. -/
theorem Settled.freed (h : Settled s) (hinv : Inv s) (hc : c ∈ s.calls)
    (howner : c.event.owner = .transfer t) (hbuffer : t.buffer = some page)
    (hnot : ¬ (c.outcome = .success ∧ s.isRunning c)) : s.timesFreed t = 1 := by
  have htransfer := Event.transfer_eq howner
  have hcalled : t ∈ s.called := List.mem_filterMap.mpr ⟨c, hc, htransfer⟩
  have htimes := h.times hinv hcalled hbuffer
  have hnone : t ∉ (s.running.filterMap heldPage).filterMap fun x => x.1.transfer := by
    intro hmem
    obtain ⟨y, hy, hyt⟩ := List.mem_filterMap.mp hmem
    obtain ⟨x, hx, hxy⟩ := List.mem_filterMap.mp hy
    obtain ⟨c', hc', hevent', hheld⟩ := h.frames x hx
    have hfst : y.1 = x.1 ∧ x.2.isSome := by
      unfold heldPage at hxy
      cases hx2 : x.2 with
      | none => simp [hx2] at hxy
      | some p =>
        rw [hx2] at hxy
        cases hxy
        exact ⟨rfl, rfl⟩
    have hsame : c' = c := nodup_filterMap_inj hinv.called_nodup c' hc' c hc
      (by rw [hevent', ← hfst.1, hyt]) htransfer
    subst hsame
    refine hnot ⟨?_, x, hx, hevent'.symm⟩
    by_contra hfailed
    rw [hheld, Call.held, if_neg hfailed] at hfst
    simp at hfst
  have hzero := List.count_eq_zero_of_not_mem hnone
  omega

/-- What is freed is the buffer of a transfer that was called back. -/
theorem Settled.freed_own (h : Settled s) : ∀ x ∈ s.freed,
    ∃ t, x.1.owner = .transfer t ∧ t.buffer = some x.2 := by
  intro x hx
  have hmem := h.settled.subset (List.mem_append_left _ hx)
  obtain ⟨c, -, hc⟩ := List.mem_filterMap.mp hmem
  unfold Call.buffer at hc
  cases howner : c.event.owner with
  | transfer t =>
    rw [Event.transfer_eq howner] at hc
    cases hbuffer : t.buffer with
    | none => simp [hbuffer] at hc
    | some page =>
      simp only [Option.bind_some, hbuffer, Option.map_some, Option.some.injEq] at hc
      subst hc
      exact ⟨t, howner, hbuffer⟩
  | command c' => simp [Event.transfer, howner] at hc
  | port => simp [Event.transfer, howner] at hc

theorem owed_event : (t.owed event).event = event := by
  unfold Transfer.owed
  split <;> rfl

theorem owed_buffer (howner : event.owner = .transfer t) :
    (t.owed event).buffer = t.buffer.map fun page => (event, page) := by
  unfold Call.buffer
  rw [owed_event, Event.transfer_eq howner]
  rfl

theorem owed_held (howner : event.owner = .transfer t) :
    (t.owed event).held =
      if completionCode event.trb = completionCodeSuccess then t.buffer else none := by
  unfold Call.held
  rw [owed_event, Event.transfer_eq howner]
  unfold Transfer.owed
  by_cases hcode : completionCode event.trb = completionCodeSuccess
  · simp [hcode]
  · simp [hcode]

theorem frames_call (h : Settled s) : ∀ x ∈ (c.event, c.held) :: s.running,
    ∃ c' ∈ s.calls ++ [c], c'.event = x.1 ∧ x.2 = c'.held := by
  intro x hx
  rcases List.mem_cons.mp hx with rfl | hold
  · exact ⟨c, List.mem_append_right _ (List.mem_singleton_self _), rfl, rfl⟩
  · obtain ⟨c', hc', heq⟩ := h.frames x hold
    exact ⟨c', List.mem_append_left _ hc', heq⟩

/-- A callback that holds the buffer it is called with. -/
theorem Settled.call (h : Settled s) (hheld : c.held.map (fun page => (c.event, page)) = c.buffer) :
    Settled (s.call c c.held) := by
  refine ⟨frames_call h, ?_⟩
  show (s.freed ++ ((c.event, c.held) :: s.running).filterMap heldPage).Perm
    ((s.calls ++ [c]).filterMap Call.buffer)
  have hframe : heldPage (c.event, c.held) = c.buffer := hheld
  rw [List.filterMap_append]
  cases hbuffer : c.buffer with
  | none =>
    rw [List.filterMap_cons_none (hframe.trans hbuffer), List.filterMap_cons_none hbuffer,
      List.filterMap_nil, List.append_nil]
    exact h.settled
  | some x =>
    rw [List.filterMap_cons_some (hframe.trans hbuffer), List.filterMap_cons_some hbuffer,
      List.filterMap_nil]
    exact List.perm_middle.trans ((h.settled.cons x).trans (List.perm_append_singleton x _).symm)

/-- A callback whose buffer is freed before. -/
theorem Settled.call_freed (h : Settled s) (hheld : c.held = none)
    (hbuffer : c.buffer = some (event, page)) :
    Settled ((s.freeBuffer event page).call c none) := by
  have hframes := frames_call (c := c) h
  rw [hheld] at hframes
  refine ⟨hframes, ?_⟩
  show (s.freed ++ [(event, page)] ++ ((c.event, none) :: s.running).filterMap heldPage).Perm
    ((s.calls ++ [c]).filterMap Call.buffer)
  rw [List.filterMap_append, List.filterMap_cons_some hbuffer, List.filterMap_nil,
    List.filterMap_cons_none rfl, List.append_assoc, List.singleton_append]
  exact List.perm_middle.trans
    ((h.settled.cons _).trans (List.perm_append_singleton _ _).symm)

/-- The callback that returns has its page freed. -/
theorem Settled.return {rest : List (Event × Option AllocatedPage)} {held : Option AllocatedPage}
    (h : Settled s) (hrunning : s.running = (event, held) :: rest) :
    (held = none → Settled { s with running := rest }) ∧
    ∀ page, held = some page → Settled ({ s with running := rest }.freeBuffer event page) := by
  have hframes : ∀ x ∈ rest, ∃ c ∈ s.calls, c.event = x.1 ∧ x.2 = c.held :=
    fun x hx => h.frames x (hrunning ▸ List.mem_cons_of_mem _ hx)
  have hsettled := h.settled
  rw [hrunning] at hsettled
  constructor
  · rintro rfl
    rw [List.filterMap_cons_none rfl] at hsettled
    exact ⟨hframes, hsettled⟩
  · rintro page rfl
    have hheld : heldPage (event, some page) = some (event, page) := rfl
    rw [List.filterMap_cons_some hheld] at hsettled
    refine ⟨hframes, ?_⟩
    show (s.freed ++ [(event, page)] ++ rest.filterMap heldPage).Perm _
    rw [List.append_assoc, List.singleton_append]
    exact hsettled

end Frees

/-! ## Pages that are in use -/

/-- The buffers that are not freed are allocated, and no two are one page. -/
structure PageInv (s : System) : Prop where
  last : s.driver.lastModifiedHeapPageIdx < xhciHeapMaxPages
  allocated : ∀ t ∈ s.submitted, s.timesFreed t = 0 → ∀ page, t.buffer = some page →
    ∃ i < xhciHeapMaxPages, page.virtualAddress = pageAddress i ∧
      s.driver.heapPageAllocated i = true
  apart : ∀ t ∈ s.submitted, ∀ t' ∈ s.submitted, t ≠ t' → s.timesFreed t = 0 →
    s.timesFreed t' = 0 → ∀ page page', t.buffer = some page → t'.buffer = some page' →
      page.virtualAddress ≠ page'.virtualAddress

section Pages

variable {s s' : System} {t : Transfer} {event : Event} {page : AllocatedPage} {d : Driver}
  {translate : Word → Option Word}

theorem PageInv.frame (h : PageInv s) (hsubmitted : s'.submitted = s.submitted)
    (hfreed : s'.freed = s.freed) (hheap : s'.driver.heapPageAllocated = s.driver.heapPageAllocated)
    (hlast : s'.driver.lastModifiedHeapPageIdx = s.driver.lastModifiedHeapPageIdx) :
    PageInv s' := by
  have htimes : ∀ t, s'.timesFreed t = s.timesFreed t := by
    intro t
    unfold System.timesFreed
    rw [hfreed]
  constructor
  · rw [hlast]
    exact h.last
  · intro t ht hzero page hpage
    rw [hheap]
    exact h.allocated t (hsubmitted ▸ ht) (htimes t ▸ hzero) page hpage
  · intro t ht t' ht' hne hzero hzero'
    exact h.apart t (hsubmitted ▸ ht) t' (hsubmitted ▸ ht') hne (htimes t ▸ hzero)
      (htimes t' ▸ hzero')

/-- A new transfer without a buffer. -/
theorem PageInv.submit_plain (h : PageInv s) (hsubmitted : s'.submitted = s.submitted ++ [t])
    (hfreed : s'.freed = s.freed) (hheap : s'.driver.heapPageAllocated = s.driver.heapPageAllocated)
    (hlast : s'.driver.lastModifiedHeapPageIdx = s.driver.lastModifiedHeapPageIdx)
    (hbuffer : t.buffer = none) : PageInv s' := by
  have htimes : ∀ t, s'.timesFreed t = s.timesFreed t := by
    intro t
    unfold System.timesFreed
    rw [hfreed]
  have hold : ∀ {t' page}, t' ∈ s'.submitted → t'.buffer = some page → t' ∈ s.submitted := by
    intro t' page ht' hpage
    rw [hsubmitted] at ht'
    rcases List.mem_append.mp ht' with hmem | hlast
    · exact hmem
    · rw [List.mem_singleton.mp hlast, hbuffer] at hpage
      cases hpage
  constructor
  · rw [hlast]
    exact h.last
  · intro t' ht' hzero page hpage
    rw [hheap]
    exact h.allocated t' (hold ht' hpage) (htimes t' ▸ hzero) page hpage
  · intro t₁ ht₁ t₂ ht₂ hne hzero₁ hzero₂ page₁ page₂ hpage₁ hpage₂
    exact h.apart t₁ (hold ht₁ hpage₁) t₂ (hold ht₂ hpage₂) hne (htimes t₁ ▸ hzero₁)
      (htimes t₂ ▸ hzero₂) page₁ page₂ hpage₁ hpage₂

/-- A new transfer with a page that was free. -/
theorem PageInv.submit_page (h : PageInv s) (hsubmitted : s'.submitted = s.submitted ++ [t])
    (hfreed : s'.freed = s.freed) (halloc : xhciAllocPage translate s.driver = some (page, d))
    (hheap : s'.driver.heapPageAllocated = d.heapPageAllocated)
    (hlast : s'.driver.lastModifiedHeapPageIdx = d.lastModifiedHeapPageIdx)
    (hbuffer : t.buffer = some page) : PageInv s' := by
  have htimes : ∀ t, s'.timesFreed t = s.timesFreed t := by
    intro t
    unfold System.timesFreed
    rw [hfreed]
  obtain ⟨i, hi, haddress, hfree, hupdate, hlast'⟩ := xhciAllocPage_spec halloc h.last
  have hkept : ∀ t' ∈ s.submitted, s.timesFreed t' = 0 → ∀ page', t'.buffer = some page' →
      ∃ j < xhciHeapMaxPages, page'.virtualAddress = pageAddress j ∧
        s.driver.heapPageAllocated j = true ∧ j ≠ i := by
    intro t' ht' hzero page' hpage'
    obtain ⟨j, hj, haddress', hallocated⟩ := h.allocated t' ht' hzero page' hpage'
    refine ⟨j, hj, haddress', hallocated, ?_⟩
    rintro rfl
    cases hfree.symm.trans hallocated
  have hother : ∀ t' ∈ s.submitted, s.timesFreed t' = 0 → ∀ page', t'.buffer = some page' →
      page'.virtualAddress ≠ page.virtualAddress := by
    intro t' ht' hzero page' hpage' hsame
    obtain ⟨j, hj, haddress', -, hne⟩ := hkept t' ht' hzero page' hpage'
    rw [← pageIndex_pageAddress hj haddress', ← pageIndex_pageAddress hi haddress] at hne
    unfold pageIndex at hne
    rw [hsame] at hne
    exact hne rfl
  constructor
  · rw [hlast]
    exact hlast'
  · intro t' ht' hzero page' hpage'
    rw [hheap, hupdate]
    rw [hsubmitted] at ht'
    rcases List.mem_append.mp ht' with hmem | hnew
    · obtain ⟨j, hj, haddress', hallocated, hne⟩ :=
        hkept t' hmem (htimes t' ▸ hzero) page' hpage'
      refine ⟨j, hj, haddress', ?_⟩
      rw [Function.update_of_ne hne]
      exact hallocated
    · rw [List.mem_singleton.mp hnew, hbuffer] at hpage'
      cases hpage'
      exact ⟨i, hi, haddress, Function.update_self ..⟩
  · intro t₁ ht₁ t₂ ht₂ hne hzero₁ hzero₂ page₁ page₂ hpage₁ hpage₂
    rw [hsubmitted] at ht₁ ht₂
    rcases List.mem_append.mp ht₁ with hmem₁ | hnew₁
    · rcases List.mem_append.mp ht₂ with hmem₂ | hnew₂
      · exact h.apart t₁ hmem₁ t₂ hmem₂ hne (htimes t₁ ▸ hzero₁) (htimes t₂ ▸ hzero₂) page₁ page₂
          hpage₁ hpage₂
      · rw [List.mem_singleton.mp hnew₂, hbuffer] at hpage₂
        cases hpage₂
        exact hother t₁ hmem₁ (htimes t₁ ▸ hzero₁) page₁ hpage₁
    · rw [List.mem_singleton.mp hnew₁, hbuffer] at hpage₁
      cases hpage₁
      rcases List.mem_append.mp ht₂ with hmem₂ | hnew₂
      · exact (hother t₂ hmem₂ (htimes t₂ ▸ hzero₂) page₂ hpage₂).symm
      · exact (hne ((List.mem_singleton.mp hnew₁).trans (List.mem_singleton.mp hnew₂).symm)).elim

theorem timesFreed_freeBuffer (howner : event.owner = .transfer t) (t' : Transfer) :
    (s.freeBuffer event page).timesFreed t' =
      s.timesFreed t' + if t = t' then 1 else 0 := by
  show ((s.freed ++ [(event, page)]).filterMap fun x => x.1.transfer).count t' = _
  have hone : [(event, page)].filterMap (fun x => x.1.transfer) = [t] := by
    simp [Event.transfer_eq howner]
  rw [List.filterMap_append, List.count_append, hone, List.count_singleton]
  simp only [beq_iff_eq]
  rfl

/-- The buffer of a transfer is freed for the first time. -/
theorem PageInv.freeBuffer (h : PageInv s) (howner : event.owner = .transfer t)
    (ht : t ∈ s.submitted) (hbuffer : t.buffer = some page) (hzero : s.timesFreed t = 0) :
    PageInv (s.freeBuffer event page) := by
  obtain ⟨i, hi, haddress, -⟩ := h.allocated t ht hzero page hbuffer
  have hspec := xhciFreePage_spec (d := s.driver) hi haddress
  have hless : ∀ t', (s.freeBuffer event page).timesFreed t' = 0 →
      t' ≠ t ∧ s.timesFreed t' = 0 := by
    intro t' hzero'
    rw [timesFreed_freeBuffer howner] at hzero'
    refine ⟨?_, by omega⟩
    rintro rfl
    rw [if_pos rfl] at hzero'
    omega
  constructor
  · show (xhciFreePage page s.driver).lastModifiedHeapPageIdx < _
    rw [hspec]
    exact hi
  · intro t' ht' hzero' page' hpage'
    obtain ⟨hne, hzero'⟩ := hless t' hzero'
    obtain ⟨j, hj, haddress', hallocated⟩ := h.allocated t' ht' hzero' page' hpage'
    have hji : j ≠ i := by
      rintro rfl
      exact h.apart t' ht' t ht hne hzero' hzero page' page hpage' hbuffer
        (haddress'.trans haddress.symm)
    refine ⟨j, hj, haddress', ?_⟩
    show (xhciFreePage page s.driver).heapPageAllocated j = true
    rw [hspec]
    show Function.update s.driver.heapPageAllocated i false j = true
    rw [Function.update_of_ne hji]
    exact hallocated
  · intro t₁ ht₁ t₂ ht₂ hne hzero₁ hzero₂
    exact h.apart t₁ ht₁ t₂ ht₂ hne (hless t₁ hzero₁).2 (hless t₂ hzero₂).2

end Pages

/-! ## Submissions -/

/-- The TRBs of one transfer: the last one, and no other, asks for an event. -/
structure IsTd (trbs : List Trb) : Prop where
  length : trbs.length ≤ 3
  complete : ∀ rest, remainingTrbs (trbs ++ rest) = rest

/-- The TRBs of a transfer are enqueued one after another. -/
def System.enqueueTrbs (s : System) (slot : Slot) (endpoint : Nat) (trbs : List Trb) : System :=
  let ring := s.transferRings slot endpoint ++ trbs
  { s with transferRings := setAt s.transferRings slot endpoint ring }

/-- What a submission that succeeds does. -/
structure Submits (mmapVirtualToPhysical : Word → Option Word) (s : System) (t : Transfer)
    (trbs : List Trb) (s' : System) : Prop where
  td : IsTd trbs
  number : t.number = s.submitted.length
  callback : t.callback ≠ 0
  eq : (t.buffer = none ∧ s' = (s.enqueueTrbs t.slot t.endpoint trbs).enqueueJob t t.job) ∨
    ∃ page driver, t.buffer = some page ∧
      xhciAllocPage mmapVirtualToPhysical s.driver = some (page, driver) ∧
      s' = (System.enqueueTrbs { s with driver } t.slot t.endpoint trbs).enqueueJob t t.job

section Submissions

variable {s s' : System} {slot : Slot} {endpoint : Nat} {t : Transfer} {trbs : List Trb}
  {translate : Word → Option Word}

theorem enqueueTrb_eq {trb : Trb} :
    s.enqueueTrb slot endpoint trb = s.enqueueTrbs slot endpoint [trb] := rfl

theorem enqueueTrbs_append {trbs' : List Trb} :
    (s.enqueueTrbs slot endpoint trbs).enqueueTrbs slot endpoint trbs' =
      s.enqueueTrbs slot endpoint (trbs ++ trbs') := by
  unfold System.enqueueTrbs
  dsimp only
  rw [setAt_self, setAt_setAt, List.append_assoc]

theorem remainingTrbs_skip {trb : Trb} {rest : List Trb} (h : isSilent trb = true) :
    remainingTrbs (trb :: rest) = remainingTrbs rest := by
  unfold remainingTrbs
  rw [List.dropWhile_cons_of_pos h]

theorem remainingTrbs_stop {trb : Trb} {rest : List Trb} (h : isSilent trb = false) :
    remainingTrbs (trb :: rest) = rest := by
  unfold remainingTrbs
  rw [List.dropWhile_cons_of_neg (by simp [h]), List.tail_cons]

theorem setupStageTrb_silent (request : ControlTransferRequest) :
    isSilent (setupStageTrb request) = true := by
  have hcontrol : ∀ immediate type, setupStageControl immediate type &&& trbControlIoc = 0 := by
    intro immediate type
    cases immediate <;> cases type <;> decide
  exact decide_eq_true (hcontrol _ _)

theorem dataStageTrb_silent (page : AllocatedPage) (wLength : BitVec 16) :
    isSilent (dataStageTrb page wLength) = true := by
  have hcontrol : (trbDataStageInDirection ||| trbTypeDataStage) &&& trbControlIoc = 0 := by decide
  exact decide_eq_true hcontrol

theorem statusStageTrb_loud : isSilent statusStageTrb = false := by decide

theorem transferTrb_loud (page : AllocatedPage) (request : TransferRequest) :
    isSilent (transferTrb page request) = false := by
  have hcontrol : ∀ short, transferControl short &&& trbControlIoc ≠ 0 := by
    intro short
    cases short <;> decide
  exact decide_eq_false (hcontrol _)

theorem isTd_noData (request : ControlTransferRequest) :
    IsTd [setupStageTrb request, statusStageTrb] := by
  refine ⟨by simp, fun rest => ?_⟩
  exact (remainingTrbs_skip (setupStageTrb_silent request)).trans
    (remainingTrbs_stop statusStageTrb_loud)

theorem isTd_data (request : ControlTransferRequest) (page : AllocatedPage) :
    IsTd [setupStageTrb request, dataStageTrb page request.setupPacket.wLength,
      statusStageTrb] := by
  refine ⟨by simp, fun rest => ?_⟩
  exact (remainingTrbs_skip (setupStageTrb_silent request)).trans
    ((remainingTrbs_skip (dataStageTrb_silent page _)).trans
      (remainingTrbs_stop statusStageTrb_loud))

theorem isTd_transfer (page : AllocatedPage) (request : TransferRequest) :
    IsTd [transferTrb page request] := by
  refine ⟨by simp, fun rest => ?_⟩
  exact remainingTrbs_stop (transferTrb_loud page request)

theorem control_submits {request : ControlTransferRequest}
    (h : xhciControlTransfer translate slot request s = (0, s')) :
    ∃ t trbs, Submits translate s t trbs s' ∧ t.slot = slot ∧ t.endpoint = 1 := by
  unfold xhciControlTransfer at h
  dsimp only at h
  split at h
  · cases h
    refine ⟨s.controlRecord slot request none, _, ⟨isTd_noData request, rfl,
      request.callback.not_null, .inl ⟨rfl, ?_⟩⟩, rfl, rfl⟩
    rw [enqueueTrb_eq, enqueueTrb_eq, enqueueTrbs_append]
    rfl
  · split at h
    · cases h
    · rename_i page driver halloc
      cases h
      refine ⟨s.controlRecord slot request (some page), _, ⟨isTd_data request page, rfl,
        request.callback.not_null, .inr ⟨page, driver, rfl, halloc, ?_⟩⟩, rfl, rfl⟩
      have hring : { s.enqueueTrb slot 1 (setupStageTrb request) with driver } =
          System.enqueueTrbs { s with driver } slot 1 [setupStageTrb request] := rfl
      rw [hring, enqueueTrb_eq, enqueueTrb_eq, enqueueTrbs_append, enqueueTrbs_append]
      rfl

theorem transfer_submits {request : TransferRequest}
    (h : xhciTransfer translate slot request s = (0, s')) :
    ∃ t trbs, Submits translate s t trbs s' ∧ t.slot = slot ∧
      t.endpoint = request.endpoint.contextIdx := by
  unfold xhciTransfer at h
  split at h
  · cases h
  · rename_i page driver halloc
    cases h
    exact ⟨s.transferRecord slot request page, _, ⟨isTd_transfer page request, rfl,
      request.callback.not_null, .inr ⟨page, driver, rfl, halloc, rfl⟩⟩, rfl, rfl⟩

theorem Inv.enqueueTrbs (h : Inv s) : Inv (s.enqueueTrbs slot endpoint trbs) :=
  ⟨h.jobs, h.pending_at, h.pending_valid, h.inFlight_valid, h.genuine, h.calls_owed, h.delivered,
    h.number, h.delivered_mem, h.pending_mem, h.delivered_nodup, h.pending_nodup, h.pending_new⟩

theorem Inv.submits (h : Inv s) (hsubmits : Submits translate s t trbs s')
    (henabled : s.driver.enabled t.slot = true)
    (hinside : 0 < t.endpoint ∧ t.endpoint < xhciMaxNumEndpoints)
    (hroom : (s.queued t.slot t.endpoint).length < xhciMaxNumTransferJobs) : Inv s' := by
  obtain ⟨-, hnumber, hcallback, ⟨-, rfl⟩ | ⟨page, driver, -, halloc, rfl⟩⟩ := hsubmits
  · exact h.enqueueTrbs.enqueueJob ⟨henabled, hinside, hcallback⟩ hnumber hroom
  · have hvalid : driver.enabled t.slot = true := (xhciAllocPage_eq halloc).1 ▸ henabled
    exact (h.alloc halloc).enqueueTrbs.enqueueJob ⟨hvalid, hinside, hcallback⟩ hnumber hroom

theorem PageInv.submits (h : PageInv s) (hsubmits : Submits translate s t trbs s') :
    PageInv s' := by
  obtain ⟨-, -, -, ⟨hbuffer, rfl⟩ | ⟨page, driver, hbuffer, halloc, rfl⟩⟩ := hsubmits
  · exact h.submit_plain rfl rfl rfl rfl hbuffer
  · exact h.submit_page rfl rfl halloc rfl rfl hbuffer

theorem Settled.submits (h : Settled s) (hsubmits : Submits translate s t trbs s') :
    Settled s' := by
  obtain ⟨-, -, -, ⟨-, rfl⟩ | ⟨page, driver, -, -, rfl⟩⟩ := hsubmits
  · exact ⟨h.frames, h.settled⟩
  · exact ⟨h.frames, h.settled⟩

/-- A ring holds the TRBs of the transfers that are not completed, and no
endpoint has more than it is allowed to. -/
structure RingInv (s : System) : Prop where
  rings : ∀ slot endpoint, ∃ tds : List (List Trb), (∀ td ∈ tds, IsTd td) ∧
    tds.length = (s.pending slot endpoint).length ∧ s.transferRings slot endpoint = tds.flatten
  jobs : ∀ slot endpoint, (s.queued slot endpoint).length ≤ maxOutstanding

theorem RingInv.submits (h : RingInv s) (hsubmits : Submits translate s t trbs s')
    (hroom : (s.queued t.slot t.endpoint).length < maxOutstanding) : RingInv s' := by
  have hkeep : s'.inFlight = s.inFlight ∧
      s'.pending = setAt s.pending t.slot t.endpoint (s.pending t.slot t.endpoint ++ [t]) ∧
      s'.transferRings = setAt s.transferRings t.slot t.endpoint
        (s.transferRings t.slot t.endpoint ++ trbs) := by
    obtain ⟨-, -, -, ⟨-, rfl⟩ | ⟨page, driver, -, -, rfl⟩⟩ := hsubmits
    · exact ⟨rfl, rfl, rfl⟩
    · exact ⟨rfl, rfl, rfl⟩
  obtain ⟨hflight, hpending, hrings⟩ := hkeep
  constructor
  · intro slot endpoint
    obtain ⟨tds, htds, hlength, hring⟩ := h.rings slot endpoint
    rw [hpending, hrings]
    by_cases hat : slot = t.slot ∧ endpoint = t.endpoint
    · obtain ⟨rfl, rfl⟩ := hat
      refine ⟨tds ++ [trbs], ?_, ?_, ?_⟩
      · intro td htd
        rcases List.mem_append.mp htd with hold | hnew
        · exact htds td hold
        · exact List.mem_singleton.mp hnew ▸ hsubmits.td
      · rw [setAt_self, List.length_append, List.length_append, hlength]
        rfl
      · rw [setAt_self, hring, List.flatten_append, List.flatten_singleton]
    · rw [setAt_of_ne hat, setAt_of_ne hat]
      exact ⟨tds, htds, hlength, hring⟩
  · intro slot endpoint
    unfold System.queued
    rw [hflight, hpending]
    by_cases hat : slot = t.slot ∧ endpoint = t.endpoint
    · obtain ⟨rfl, rfl⟩ := hat
      unfold System.queued at hroom
      rw [setAt_self]
      simp only [List.length_append, List.length_singleton] at hroom ⊢
      omega
    · rw [setAt_of_ne hat]
      exact h.jobs slot endpoint

end Submissions

/-! ## Runs -/

section Runs

variable {s s' : System} {slot : Slot} {endpoint : Nat} {t : Transfer} {trb : Trb} {event : Event}
  {translate : Word → Option Word}

theorem RingInv.completeTransfer (h : RingInv s) (hinv : Inv s)
    (heq : s.completeTransfer slot endpoint trb = some s') : RingInv s' := by
  have hqueued := hinv.completeTransfer_queued heq
  refine ⟨?_, fun slot' endpoint' => hqueued slot' endpoint' ▸ h.jobs slot' endpoint'⟩
  obtain ⟨t, rest, hpending, -, -, rfl⟩ := completeTransfer_cases heq
  intro slot' endpoint'
  obtain ⟨tds, htds, hlength, hring⟩ := h.rings slot' endpoint'
  show ∃ tds : List (List Trb), _ ∧
    tds.length = (setAt s.pending slot endpoint rest slot' endpoint').length ∧
    setAt s.transferRings slot endpoint _ slot' endpoint' = tds.flatten
  by_cases hat : slot' = slot ∧ endpoint' = endpoint
  · obtain ⟨rfl, rfl⟩ := hat
    cases tds with
    | nil => simp [hpending] at hlength
    | cons td tds =>
      refine ⟨tds, fun td' htd' => htds td' (List.mem_cons_of_mem _ htd'), ?_, ?_⟩
      · rw [setAt_self]
        rw [hpending] at hlength
        exact Nat.succ.inj hlength
      · rw [setAt_self, hring, List.flatten_cons]
        exact (htds td List.mem_cons_self).complete _
  · rw [setAt_of_ne hat, setAt_of_ne hat]
    exact ⟨tds, htds, hlength, hring⟩

theorem RingInv.pollEvent (h : RingInv s) (heq : s.pollEvent = some s') : RingInv s' := by
  obtain ⟨event, hring, hpending, hrings, -⟩ := pollEvent_frame heq
  constructor
  · intro slot endpoint
    rw [hpending, hrings]
    exact h.rings slot endpoint
  · intro slot endpoint
    refine Nat.le_trans ?_ (h.jobs slot endpoint)
    unfold System.queued System.inFlight
    rw [hpending, hring, List.length_append, List.length_append]
    apply Nat.add_le_add_right
    apply List.Sublist.length_le
    exact (((List.sublist_cons_self event s'.eventRing).filterMap Event.transfer).filter _)

/-- The poller frees the buffer of a transfer that failed. -/
theorem pollEvent_settled (h : Settled s) (hpages : PageInv s) (hinv : Inv s)
    (heq : s.pollEvent = some s') : Settled s' ∧ PageInv s' := by
  obtain ⟨event, hring, -⟩ := pollEvent_frame heq
  generalize s'.eventRing = rest at hring
  rcases hinv.pollEvent_cases hring with ⟨-, hpoll⟩ | ⟨t, jobs, howner, -, hpoll⟩
  · cases hpoll.symm.trans heq
    exact ⟨⟨h.frames, h.settled⟩, hpages.frame rfl rfl rfl rfl⟩
  · have hflight := inFlight_cons hring howner
    have hmem : t ∈ s.inFlight := hflight ▸ List.mem_cons_self
    have hvalid := hinv.inFlight_valid t hmem
    have hdelivered : t ∈ s.delivered := hinv.delivered ▸ List.mem_append_right _ hmem
    have hzero : s.timesFreed t = 0 := by
      -- the transfer was not called back before
      have hnodup := hinv.delivered_nodup
      rw [hinv.delivered] at hnodup
      exact h.not_freed fun hcalled => (List.nodup_append.mp hnodup).2.2 t hcalled t hmem rfl
    let s₁ : System := { s with
      eventRing := rest
      driver := s.driver.setJobs t.slot (t.endpoint - 1) jobs }
    have hsettled : Settled s₁ := ⟨h.frames, h.settled⟩
    have hpages₁ : PageInv s₁ := hpages.frame rfl rfl rfl rfl
    rw [handleJob_eq hvalid.callback] at hpoll
    have hs' := Option.some.inj (hpoll.symm.trans heq)
    have hbuffer := owed_buffer howner
    have hheld := owed_held howner
    have hevent : (t.owed event).event = event := owed_event
    by_cases hcode : completionCode event.trb = completionCodeSuccess
    · rw [if_pos hcode] at hs' hheld
      rw [← hheld] at hs'
      rw [← hs']
      refine ⟨hsettled.call ?_, hpages₁.frame rfl rfl rfl rfl⟩
      rw [hheld, hbuffer, hevent]
    · rw [if_neg hcode] at hs' hheld
      cases hpage : t.buffer with
      | none =>
        rw [hpage] at hs' hbuffer
        dsimp only at hs'
        rw [← hheld] at hs'
        rw [← hs']
        refine ⟨hsettled.call ?_, hpages₁.frame rfl rfl rfl rfl⟩
        rw [hheld, hbuffer]
        rfl
      | some page =>
        rw [hpage] at hs' hbuffer
        dsimp only at hs'
        rw [← hs']
        have hfreed := hpages₁.freeBuffer howner (hinv.delivered_mem t hdelivered) hpage hzero
        exact ⟨hsettled.call_freed hheld hbuffer, hfreed.frame rfl rfl rfl rfl⟩

/-- The buffer of a transfer that succeeded is freed. -/
theorem callbackReturns_settled (h : Settled s) (hpages : PageInv s) (hinv : Inv s)
    (heq : s.callbackReturns = some s') : Settled s' ∧ PageInv s' := by
  unfold System.callbackReturns at heq
  cases hrunning : s.running with
  | nil =>
    rw [hrunning] at heq
    cases heq
  | cons frame rest =>
    obtain ⟨event, held⟩ := frame
    obtain ⟨hnone, hsome⟩ := h.return hrunning
    rw [hrunning] at heq
    dsimp only at heq
    have hpages₁ : PageInv { s with running := rest } := hpages.frame rfl rfl rfl rfl
    cases held with
    | none =>
      cases heq
      exact ⟨hnone rfl, hpages₁⟩
    | some page =>
      cases heq
      refine ⟨hsome page rfl, ?_⟩
      have hframe : (event, some page) ∈ s.running := hrunning ▸ List.mem_cons_self
      obtain ⟨c, hc, hevent, hheld⟩ := h.frames _ hframe
      have hevent : c.event = event := hevent
      have hheld : some page = c.held := hheld
      unfold Call.held at hheld
      split at hheld
      · rename_i hsuccess
        obtain ⟨t, howner, -⟩ := hinv.calls_owed c hc
        rw [Event.transfer_eq howner] at hheld
        have hbuffer : t.buffer = some page := hheld.symm
        have hzero := h.held hinv hc howner hbuffer hsuccess ⟨_, hframe, hevent.symm⟩
        have hcalled : t ∈ s.called :=
          List.mem_filterMap.mpr ⟨c, hc, Event.transfer_eq howner⟩
        have hdelivered : t ∈ s.delivered := hinv.delivered ▸ List.mem_append_left _ hcalled
        exact hpages₁.freeBuffer (hevent ▸ howner) (hinv.delivered_mem t hdelivered) hbuffer hzero
      · cases hheld

/-- What holds in every state of a run. -/
structure Good (s : System) : Prop where
  inv : Inv s
  settled : Settled s
  pages : PageInv s
  rings : RingInv s

theorem Quiet.good (h : Quiet s) : Good s := by
  have hflight : s.inFlight = [] := by
    unfold System.inFlight
    rw [h.eventRing]
    rfl
  have hqueued : ∀ slot endpoint, s.queued slot endpoint = [] := by
    intro slot endpoint
    unfold System.queued
    rw [hflight, h.pending]
    rfl
  have hnone : ∀ {slot endpoint t}, t ∉ s.pending slot endpoint := by
    intro slot endpoint t
    rw [h.pending]
    exact List.not_mem_nil
  constructor
  · constructor
    · intro slot endpoint henabled hpos hlt
      rw [hqueued]
      exact h.jobs slot (endpoint - 1) henabled (by omega)
    · exact fun _ _ _ ht => (hnone ht).elim
    · exact fun _ _ _ ht => (hnone ht).elim
    · rw [hflight]
      simp
    · rw [h.eventRing]
      simp
    · rw [h.calls]
      simp
    · unfold System.called
      rw [h.delivered, h.calls, hflight]
      rfl
    · rw [h.submitted]
      simp
    · rw [h.delivered]
      simp
    · exact fun _ _ _ ht => (hnone ht).elim
    · rw [h.delivered]
      exact List.nodup_nil
    · intro slot endpoint
      rw [h.pending]
      exact List.nodup_nil
    · exact fun _ _ _ ht => (hnone ht).elim
  · constructor
    · rw [h.running]
      simp
    · rw [h.freed, h.running, h.calls]
      exact .nil
  · refine ⟨h.lastModified, ?_, ?_⟩
    · rw [h.submitted]
      simp
    · rw [h.submitted]
      simp
  · constructor
    · intro slot endpoint
      refine ⟨[], by simp, ?_, ?_⟩
      · rw [h.pending]
        rfl
      · rw [h.transferRings]
        rfl
    · intro slot endpoint
      rw [hqueued]
      exact Nat.zero_le _

theorem Good.submits {trbs : List Trb} (h : Good s) (hsubmits : Submits translate s t trbs s')
    (henabled : s.driver.enabled t.slot = true)
    (hinside : 0 < t.endpoint ∧ t.endpoint < xhciMaxNumEndpoints)
    (hroom : (s.queued t.slot t.endpoint).length < maxOutstanding) : Good s' := by
  have hjobs : (s.queued t.slot t.endpoint).length < xhciMaxNumTransferJobs :=
    Nat.lt_trans hroom (by decide)
  exact ⟨h.inv.submits hsubmits henabled hinside hjobs, h.settled.submits hsubmits,
    h.pages.submits hsubmits, h.rings.submits hsubmits hroom⟩

/-- Every step keeps what holds in every state. -/
theorem Good.step {a : Action} (h : Good s) (hstep : Step translate s a s') : Good s' := by
  cases hstep with
  | control henabled hroom heq =>
    obtain ⟨t, trbs, hsubmits, rfl, hendpoint⟩ := control_submits heq
    refine h.submits hsubmits henabled ?_ ?_
    · rw [hendpoint]
      decide
    · rw [hendpoint]
      exact hroom
  | @transfer _ _ request henabled hroom heq =>
    obtain ⟨t, trbs, hsubmits, rfl, hendpoint⟩ := transfer_submits heq
    obtain ⟨hlow, hhigh⟩ := request.endpoint.configured
    refine h.submits hsubmits henabled ?_ ?_
    · rw [hendpoint]
      exact ⟨by omega, hhigh⟩
    · rw [hendpoint]
      exact hroom
  | complete heq =>
    have hinv := h.inv.completeTransfer heq
    have hrings := h.rings.completeTransfer h.inv heq
    obtain ⟨t, rest, -, -, -, rfl⟩ := completeTransfer_cases heq
    exact ⟨hinv, ⟨h.settled.frames, h.settled.settled⟩, h.pages.frame rfl rfl rfl rfl, hrings⟩
  | poll heq =>
    obtain ⟨hsettled, hpages⟩ := pollEvent_settled h.settled h.pages h.inv heq
    exact ⟨h.inv.pollEvent heq, hsettled, hpages, h.rings.pollEvent heq⟩
  | callbackReturns heq =>
    obtain ⟨hsettled, hpages⟩ := callbackReturns_settled h.settled h.pages h.inv heq
    have hinv := h.inv.callbackReturns heq
    have hframe : s'.pending = s.pending ∧ s'.transferRings = s.transferRings ∧
        s'.eventRing = s.eventRing := by
      unfold System.callbackReturns at heq
      split at heq
      · cases heq
      · dsimp only at heq
        split at heq
        · cases heq
          exact ⟨rfl, rfl, rfl⟩
        · cases heq
          exact ⟨rfl, rfl, rfl⟩
    refine ⟨hinv, hsettled, hpages, ?_, ?_⟩
    · rw [hframe.1, hframe.2.1]
      exact h.rings.rings
    · unfold System.queued System.inFlight
      rw [hframe.1, hframe.2.2]
      exact h.rings.jobs

theorem Good.paired (h : Good s) : Paired s where
  owed := by
    intro c hc
    obtain ⟨t, howner, howed⟩ := h.inv.calls_owed c hc
    have hcalled : t ∈ s.called := List.mem_filterMap.mpr ⟨c, hc, Event.transfer_eq howner⟩
    have hdelivered : t ∈ s.delivered := h.inv.delivered ▸ List.mem_append_left _ hcalled
    exact ⟨t, h.inv.delivered_mem t hdelivered, howner, howed⟩
  in_order := h.inv.delivered
  once := h.inv.delivered_nodup
  freed_own := h.settled.freed_own
  freed := by
    intro c hc t page howner hbuffer
    exact ⟨fun hrun => h.settled.held h.inv hc howner hbuffer hrun.1 hrun.2,
      h.settled.freed h.inv hc howner hbuffer⟩
  not_freed := fun t ht => h.settled.not_freed ht
  apart := h.pages.apart
  trbs := by
    intro slot endpoint
    obtain ⟨tds, htds, hlength, hring⟩ := h.rings.rings slot endpoint
    have hjobs := h.rings.jobs slot endpoint
    unfold System.queued at hjobs
    rw [List.length_append] at hjobs
    have hsum : tds.flatten.length ≤ 3 * tds.length := by
      clear hring hlength
      induction tds with
      | nil => simp
      | cons td tds ih =>
        obtain ⟨hfirst, hrest⟩ := List.forall_mem_cons.mp htds
        have hle := ih hrest
        have hthree := hfirst.length
        rw [List.flatten_cons, List.length_append, List.length_cons]
        omega
    rw [hring]
    unfold transferRingRoom
    unfold maxOutstanding at hjobs
    omega
  jobs := h.rings.jobs

end Runs

/-- The device of slot 1 has been addressed, and the heap is free. -/
def idleSystem : System where
  driver :=
    { heapPageAllocated := fun _ => false
      lastModifiedHeapPageIdx := 0
      enabled := fun slot => slot = 1
      transferJobs := fun _ _ => .init (fun _ => zeroJob) xhciMaxNumTransferJobs }
  transferRings := fun _ _ => []
  eventRing := []
  running := []
  waiting := none
  pending := fun _ _ => []
  commands := []
  submitted := []
  issued := 0
  delivered := []
  calls := []
  freed := []
  completed := []
  results := []

theorem idleSystem_quiet : Quiet idleSystem where
  jobs := fun _ _ _ _ => ⟨rfl, RingBuffer.holds_init (by decide)⟩
  lastModified := by decide
  transferRings := fun _ _ => rfl
  eventRing := rfl
  running := rfl
  waiting := rfl
  pending := fun _ _ => rfl
  commands := rfl
  submitted := rfl
  delivered := rfl
  calls := rfl
  freed := rfl
  completed := rfl
  results := rfl

/-- A report of a mouse is asked for. -/
def someRequest : TransferRequest where
  endpoint := ⟨3, by decide⟩
  callback := ⟨0x80000, by decide⟩
  callbackContext := 0
  transferLength := 4
  interruptOnShortPacket := true

end ZOs.Xhci.Jobs
