import ZOs.Usb.TransferPairs

/-!
# Events that are lost

The commands of the driver wait for an event on the ring that the poller
empties, and take whatever comes first. If that is the event of a transfer,
its callback is never called, and the command fails whatever the controller
makes of it. Nothing is lost in a run in which every command finds its own
event first, and in which every transfer finds a page and room on its rings.
-/

namespace ZOs.Xhci.Jobs

open Runs ZOs.Utils

inductive BusAction
  | control (slot : Slot) (request : ControlTransferRequest)
  | transfer (slot : Slot) (request : TransferRequest)
  | poll
  | callbackReturns
  | enableDeviceSlot
  | addressDevice
  | configureEndpoint
  | takeEvent
  | completeTransfer (slot : Slot) (endpoint : Nat) (trb : Trb)
  | completeCommand (trb : Trb)
  | portEvent (trb : Trb)

/-- A step of the driver or of the controller. While a command waits, the
driver does nothing else. -/
def exec (mmapVirtualToPhysical : Word → Option Word) (s : System) : BusAction → Option System
  | .control slot request =>
    if s.waiting = none ∧ s.driver.enabled slot = true then
      some (xhciControlTransfer mmapVirtualToPhysical slot request s).2
    else none
  | .transfer slot request =>
    if s.waiting = none ∧ s.driver.enabled slot = true then
      some (xhciTransfer mmapVirtualToPhysical slot request s).2
    else none
  | .poll => if s.waiting = none then s.pollEvent else none
  | .callbackReturns => if s.waiting = none then s.callbackReturns else none
  | .enableDeviceSlot => if s.waiting = none then some (s.issue .enableSlot) else none
  | .addressDevice => if s.waiting = none then some (s.issue .enableSlotFor) else none
  | .configureEndpoint =>
    if s.waiting = none then some (xhciConfigureEndpoint mmapVirtualToPhysical s) else none
  | .takeEvent => s.takeEvent mmapVirtualToPhysical
  | .completeTransfer slot endpoint trb => s.completeTransfer slot endpoint trb
  | .completeCommand trb => s.completeCommand trb
  | .portEvent trb => s.portEvent trb

def BusStep (mmapVirtualToPhysical : Word → Option Word) (s : System) (a : BusAction)
    (s' : System) : Prop :=
  exec mmapVirtualToPhysical s a = some s'

/-- There is room for a job and for some TRBs. -/
def HasRoom (s : System) (slot : Slot) (endpoint trbs : Nat) : Prop :=
  (s.queued slot endpoint).length < xhciMaxNumTransferJobs ∧
    (s.transferRings slot endpoint).length + trbs ≤ transferRingRoom

/-- A page of the heap is free. -/
def HasPage (s : System) : Prop :=
  ∃ i < xhciHeapMaxPages, s.driver.heapPageAllocated i = false

/-- A submission finds what it needs, and the event that a command takes is
its own. -/
def Undisturbed (s : System) : BusAction → Prop
  | .control slot request =>
    if request.transferType = .noData then HasRoom s slot 1 2
    else HasRoom s slot 1 3 ∧ HasPage s
  | .transfer slot request => HasRoom s slot request.endpoint.contextIdx 1 ∧ HasPage s
  | .takeEvent => ∃ c, s.waiting = some c ∧ s.eventRing.head?.map Event.owner = some (.command c)
  | _ => True

/-- When the ring is drained each transfer whose event was delivered has
been called back once, and no transfer ever more often; each command that
came to an end succeeded exactly if its own event reported success. -/
structure NothingLost (s : System) : Prop where
  called : s.eventRing = [] → ∀ t ∈ s.delivered, s.called.count t = 1
  at_most_once : ∀ t, s.called.count t ≤ 1
  owed : ∀ c ∈ s.calls, ∃ t ∈ s.submitted, c.event.owner = .transfer t ∧ c = t.owed c.event
  commands : ∀ c ok, (c, ok) ∈ s.results → (ok = true ↔ (c, true) ∈ s.completed)
  one_event : (s.completed.map Prod.fst).Nodup

/-- The commands that are not completed, or whose event is on the ring. -/
def System.outstanding (s : System) : List Command :=
  s.commands ++ s.eventRing.filterMap Event.command

/-- There is never more than one command under way. -/
structure CommandInv (s : System) : Prop where
  one : s.outstanding = s.waiting.toList
  last : s.driver.lastModifiedHeapPageIdx < xhciHeapMaxPages
  number : ∀ c ∈ s.outstanding, c.number < s.issued
  completed_number : ∀ r ∈ s.completed, r.1.number < s.issued
  event : ∀ e ∈ s.eventRing, ∀ c, e.owner = .command c →
    e.trb.isType trbTypeCommandCompletion = true ∧
    (c, commandSucceeds e) ∈ s.completed ∧
    (c.kind.enables = true → commandSucceeds e = true → s.driver.enabled (slotId e.trb) = false)
  fresh : ∀ c ∈ s.commands, c ∉ s.completed.map Prod.fst
  unique : (s.completed.map Prod.fst).Nodup
  results : ∀ r ∈ s.results, r ∈ s.completed

section

variable {s s' : System} {d : Driver} {translate : Word → Option Word} {slot : Slot}

/-! ## A free page is found -/

/-- The page that is `k` pages behind another, around the end of the heap. -/
def pageAfter (i k : Nat) : Nat := (i + k) % xhciHeapMaxPages

/-- The search stops at the first free page. -/
theorem searchPage_free {allocated : Nat → Bool} {i distance : Nat} (hi : i < xhciHeapMaxPages)
    (hfree : allocated (pageAfter i distance) = false)
    (hdistance : distance < xhciHeapMaxPages) :
    ∀ {rounds k checked}, k ≤ distance → distance < k + rounds + 1 →
      (∀ j, checked j = true → ∃ l < k, j = pageAfter i l) →
      allocated (searchPage allocated rounds checked (pageAfter i k)) = false := by
  intro rounds
  induction rounds with
  | zero =>
    intro k checked hk hrounds _
    have heq : k = distance := by omega
    subst heq
    exact hfree
  | succ rounds ih =>
    intro k checked hk hrounds hchecked
    unfold searchPage
    by_cases hallocated : allocated (pageAfter i k) = true
    · have hne : k ≠ distance := by
        rintro rfl
        cases hfree.symm.trans hallocated
      have hnew : checked (pageAfter i k) = false := by
        by_contra hold
        obtain ⟨l, hl, hsame⟩ := hchecked _ (Bool.eq_true_of_not_eq_false hold)
        have hdiff := RingBuffer.place_ne (d := i) (n := xhciHeapMaxPages) hl (by omega)
        exact hdiff hsame.symm
      have hnext : (if pageAfter i k + 1 ≥ xhciHeapMaxPages then 0 else pageAfter i k + 1) =
          pageAfter i (k + 1) := by
        have hmod := (PhaseRing.succ_mod_div (Nat.zero_lt_of_lt hi) (i + k)).1
        have hlt : pageAfter i k < xhciHeapMaxPages := Nat.mod_lt _ (Nat.zero_lt_of_lt hi)
        unfold pageAfter at *
        rw [← Nat.add_assoc, hmod]
        by_cases hwrap : (i + k) % xhciHeapMaxPages + 1 = xhciHeapMaxPages
        · rw [if_pos hwrap, if_pos (by omega)]
        · rw [if_neg hwrap, if_neg (by omega)]
      rw [hallocated, hnew, hnext]
      apply ih (by omega) (by omega)
      intro j hj
      by_cases hsame : j = pageAfter i k
      · exact ⟨k, by omega, hsame⟩
      · rw [Function.update_of_ne hsame] at hj
        obtain ⟨l, hl, heq⟩ := hchecked j hj
        exact ⟨l, by omega, heq⟩
    · have hfree' : allocated (pageAfter i k) = false := Bool.eq_false_iff.mpr hallocated
      rw [hfree']
      exact hfree'

/-- `xhci_alloc_page` succeeds as long as there is a free page. -/
theorem xhciAllocPage_isSome (hmapped : ∀ i < xhciHeapMaxPages, (translate (pageAddress i)).isSome)
    (hlast : d.lastModifiedHeapPageIdx < xhciHeapMaxPages)
    (hfree : ∃ i < xhciHeapMaxPages, d.heapPageAllocated i = false) :
    ∃ page d', xhciAllocPage translate d = some (page, d') := by
  obtain ⟨j, hj, hfree⟩ := hfree
  have hj' : j < 512 := hj
  have hlast' : d.lastModifiedHeapPageIdx < 512 := hlast
  -- how far the free page is behind the place where the search begins
  obtain ⟨distance, hdistance, hat⟩ : ∃ k < 512, pageAfter d.lastModifiedHeapPageIdx k = j := by
    refine ⟨(j + 512 - d.lastModifiedHeapPageIdx) % 512, Nat.mod_lt _ (by decide), ?_⟩
    unfold pageAfter xhciHeapMaxPages
    omega
  have hstart : pageAfter d.lastModifiedHeapPageIdx 0 = d.lastModifiedHeapPageIdx :=
    Nat.mod_eq_of_lt hlast
  have hsearch : d.heapPageAllocated (searchPage d.heapPageAllocated xhciHeapMaxPages
      (fun _ => false) (pageAfter d.lastModifiedHeapPageIdx 0)) = false :=
    searchPage_free hlast (hat.symm ▸ hfree) hdistance (Nat.zero_le _)
      (by unfold xhciHeapMaxPages; omega) (by simp)
  rw [hstart] at hsearch
  have hlt : searchPage d.heapPageAllocated xhciHeapMaxPages (fun _ => false)
      d.lastModifiedHeapPageIdx < xhciHeapMaxPages := searchPage_lt hlast
  obtain ⟨physical, hphysical⟩ := Option.isSome_iff_exists.mp (hmapped _ hlt)
  unfold xhciAllocPage
  dsimp only
  rw [hsearch, hphysical]
  exact ⟨_, _, rfl⟩

/-- A submission that finds a page succeeds. -/
theorem control_ok {request : ControlTransferRequest}
    (hmapped : ∀ i < xhciHeapMaxPages, (translate (pageAddress i)).isSome)
    (hlast : s.driver.lastModifiedHeapPageIdx < xhciHeapMaxPages)
    (hpage : request.transferType ≠ .noData → HasPage s) :
    (xhciControlTransfer translate slot request s).1 = 0 := by
  unfold xhciControlTransfer
  dsimp only
  split
  · rfl
  · rename_i htype
    obtain ⟨page, d, halloc⟩ := xhciAllocPage_isSome hmapped hlast (hpage htype)
    have halloc' : xhciAllocPage translate
        (s.enqueueTrb slot 1 (setupStageTrb request)).driver = some (page, d) := halloc
    rw [halloc']

theorem transfer_ok {request : TransferRequest}
    (hmapped : ∀ i < xhciHeapMaxPages, (translate (pageAddress i)).isSome)
    (hlast : s.driver.lastModifiedHeapPageIdx < xhciHeapMaxPages) (hpage : HasPage s) :
    (xhciTransfer translate slot request s).1 = 0 := by
  obtain ⟨page, d, halloc⟩ := xhciAllocPage_isSome hmapped hlast hpage
  unfold xhciTransfer
  rw [halloc]

/-! ## Transfers and commands do not meet -/

/-- What commands use is as it was. -/
structure Aside (s s' : System) : Prop where
  commands : s'.commands = s.commands
  waiting : s'.waiting = s.waiting
  issued : s'.issued = s.issued
  completed : s'.completed = s.completed
  results : s'.results = s.results
  enabled : s'.driver.enabled = s.driver.enabled
  last : s.driver.lastModifiedHeapPageIdx < xhciHeapMaxPages →
    s'.driver.lastModifiedHeapPageIdx < xhciHeapMaxPages

theorem Aside.refl : Aside s s := ⟨rfl, rfl, rfl, rfl, rfl, rfl, fun h => h⟩

theorem Aside.trans {s'' : System} (h : Aside s s') (h' : Aside s' s'') : Aside s s'' where
  commands := h'.commands.trans h.commands
  waiting := h'.waiting.trans h.waiting
  issued := h'.issued.trans h.issued
  completed := h'.completed.trans h.completed
  results := h'.results.trans h.results
  enabled := h'.enabled.trans h.enabled
  last := fun hlast => h'.last (h.last hlast)

theorem Aside.call {call : Call} {page : Option AllocatedPage} : Aside s (s.call call page) :=
  ⟨rfl, rfl, rfl, rfl, rfl, rfl, fun h => h⟩

theorem Aside.alloc {page : AllocatedPage}
    (halloc : xhciAllocPage translate s.driver = some (page, d)) :
    Aside s { s with driver := d } :=
  ⟨rfl, rfl, rfl, rfl, rfl, (xhciAllocPage_eq halloc).1, fun hlast => by
    obtain ⟨i, -, -, -, -, hlast'⟩ := xhciAllocPage_spec halloc hlast
    exact hlast'⟩

theorem xhciFreePage_last {page : AllocatedPage}
    (h : d.lastModifiedHeapPageIdx < xhciHeapMaxPages) :
    (xhciFreePage page d).lastModifiedHeapPageIdx < xhciHeapMaxPages := by
  unfold xhciFreePage
  split
  · exact h
  · show pageIndex page < _
    omega

theorem Aside.freeBuffer {event : Event} {page : AllocatedPage} :
    Aside s (s.freeBuffer event page) :=
  ⟨rfl, rfl, rfl, rfl, rfl, xhciFreePage_eq.1, xhciFreePage_last⟩

theorem Aside.submits {t : Transfer} {trbs : List Trb} (h : Submits translate s t trbs s') :
    Aside s s' ∧ s'.eventRing = s.eventRing := by
  obtain ⟨-, -, -, ⟨-, rfl⟩ | ⟨page, driver, -, halloc, rfl⟩⟩ := h
  · exact ⟨⟨rfl, rfl, rfl, rfl, rfl, rfl, fun h => h⟩, rfl⟩
  · obtain ⟨-, -, -, -, -, henabled, hlast⟩ := Aside.alloc halloc
    exact ⟨⟨rfl, rfl, rfl, rfl, rfl, henabled, hlast⟩, rfl⟩

theorem Aside.handleJob {event : Event} {job : TransferJob} : Aside s (s.handleJob event job) := by
  have hfree : Aside s (if job.hasData then s.freeBuffer event job.dataBuffer else s) := by
    split
    · exact Aside.freeBuffer
    · exact Aside.refl
  unfold System.handleJob
  dsimp only
  split
  · split
    · exact hfree.trans Aside.call
    · exact hfree
  · split <;> exact Aside.call

theorem Aside.pollEvent (heq : s.pollEvent = some s') : Aside s s' := by
  unfold System.pollEvent at heq
  split at heq
  · cases heq
  · dsimp only at heq
    split at heq
    · cases heq
      exact ⟨rfl, rfl, rfl, rfl, rfl, rfl, fun h => h⟩
    · split at heq
      · cases heq
        exact ⟨rfl, rfl, rfl, rfl, rfl, rfl, fun h => h⟩
      · split at heq
        · cases heq
          exact ⟨rfl, rfl, rfl, rfl, rfl, rfl, fun h => h⟩
        · cases heq
          obtain ⟨h₁, h₂, h₃, h₄, h₅, h₆, h₇⟩ := Aside.handleJob
          exact ⟨h₁, h₂, h₃, h₄, h₅, h₆, h₇⟩

theorem Aside.callbackReturns (heq : s.callbackReturns = some s') :
    Aside s s' ∧ s'.eventRing = s.eventRing := by
  unfold System.callbackReturns at heq
  split at heq
  · cases heq
  · dsimp only at heq
    split at heq
    · cases heq
      exact ⟨⟨rfl, rfl, rfl, rfl, rfl, rfl, fun h => h⟩, rfl⟩
    · cases heq
      exact ⟨⟨rfl, rfl, rfl, rfl, rfl, xhciFreePage_eq.1, xhciFreePage_last⟩, rfl⟩

theorem Event.command_eq {e : Event} {c : Command} : e.command = some c ↔ e.owner = .command c := by
  unfold Event.command
  cases e.owner <;> simp

/-- A step that only brings or takes events of other owners. -/
theorem CommandInv.aside (h : CommandInv s) (ha : Aside s s')
    (hring : s'.eventRing.filterMap Event.command = s.eventRing.filterMap Event.command)
    (hevents : ∀ e ∈ s'.eventRing, e ∈ s.eventRing ∨ e.command = none) : CommandInv s' := by
  have houtstanding : s'.outstanding = s.outstanding := by
    unfold System.outstanding
    rw [ha.commands, hring]
  constructor
  · rw [houtstanding, ha.waiting]
    exact h.one
  · exact ha.last h.last
  · rw [houtstanding, ha.issued]
    exact h.number
  · rw [ha.completed, ha.issued]
    exact h.completed_number
  · intro e he c howner
    rw [ha.completed, ha.enabled]
    rcases hevents e he with hold | hnone
    · exact h.event e hold c howner
    · cases hnone.symm.trans (Event.command_eq.mpr howner)
  · rw [ha.commands, ha.completed]
    exact h.fresh
  · rw [ha.completed]
    exact h.unique
  · rw [ha.results, ha.completed]
    exact h.results

/-- While no command waits there is no event of a command. -/
theorem CommandInv.idle (h : CommandInv s) (hwaiting : s.waiting = none) :
    s.commands = [] ∧ s.eventRing.filterMap Event.command = [] := by
  have hone := h.one
  rw [hwaiting] at hone
  exact List.append_eq_nil_iff.mp hone

/-- While no command waits the driver may change. -/
theorem CommandInv.withDriver (h : CommandInv s) (hwaiting : s.waiting = none)
    (hlast : d.lastModifiedHeapPageIdx < xhciHeapMaxPages) :
    CommandInv { s with driver := d } := by
  refine ⟨h.one, hlast, h.number, h.completed_number, ?_, h.fresh, h.unique, h.results⟩
  intro e he c howner
  have hmem := List.mem_filterMap.mpr ⟨e, he, Event.command_eq.mpr howner⟩
  rw [(h.idle hwaiting).2] at hmem
  cases hmem

theorem CommandInv.issue {kind : CommandKind} (h : CommandInv s) (hwaiting : s.waiting = none) :
    CommandInv (s.issue kind) := by
  obtain ⟨hcommands, hring⟩ := h.idle hwaiting
  have houtstanding : (s.issue kind).outstanding = [⟨s.issued, kind⟩] := by
    show s.commands ++ [_] ++ s.eventRing.filterMap Event.command = _
    rw [hcommands, hring]
    rfl
  constructor
  · exact houtstanding
  · exact h.last
  · intro c hc
    rw [houtstanding] at hc
    rw [List.mem_singleton.mp hc]
    exact Nat.lt_succ_self _
  · intro r hr
    exact Nat.lt_succ_of_lt (h.completed_number r hr)
  · exact h.event
  · intro c hc hmem
    have hc : c ∈ s.commands ++ [⟨s.issued, kind⟩] := hc
    rw [hcommands, List.nil_append, List.mem_singleton] at hc
    obtain ⟨r, hr, rfl⟩ := List.mem_map.mp hmem
    have hlt := h.completed_number r hr
    rw [hc] at hlt
    exact Nat.lt_irrefl _ hlt
  · exact h.unique
  · exact h.results

/-! ## Commands -/

/-- The device of a slot that is not in use is enabled. -/
theorem Inv.enable (h : Inv s) (hslot : s.driver.enabled slot = false) :
    Inv { s with driver := s.driver.enable slot } := by
  have hother : ∀ {slot'}, s.driver.enabled slot' = true → slot' ≠ slot := by
    rintro slot' henabled rfl
    cases hslot.symm.trans henabled
  have hvalid : ∀ {t : Transfer}, t.Valid s.driver → t.Valid (s.driver.enable slot) := by
    intro t ht
    refine ⟨?_, ht.inside, ht.callback⟩
    show Function.update s.driver.enabled slot true t.slot = true
    rw [Function.update_of_ne (hother ht.enabled)]
    exact ht.enabled
  constructor
  · intro slot' endpoint henabled hpos hlt
    show (Function.update s.driver.transferJobs slot _ slot' (endpoint - 1)).ringSize = _ ∧
      (Function.update s.driver.transferJobs slot _ slot' (endpoint - 1)).Holds
        ((s.queued slot' endpoint).map Transfer.job)
    by_cases hsame : slot' = slot
    · subst hsame
      -- an unused slot has no transfers
      have hqueued : s.queued slot' endpoint = [] := by
        unfold System.queued
        rw [List.append_eq_nil_iff]
        constructor
        · rw [List.filter_eq_nil_iff]
          intro t ht hat
          have hslot' : t.slot = slot' := (of_decide_eq_true hat).1
          exact hother (h.inFlight_valid t ht).enabled hslot'
        · rw [List.eq_nil_iff_forall_not_mem]
          intro t ht
          exact hother (h.pending_valid slot' endpoint t ht).enabled
            (h.pending_at slot' endpoint t ht).1
      rw [Function.update_self, if_pos (by omega), hqueued]
      exact ⟨rfl, RingBuffer.holds_init (by decide)⟩
    · rw [Function.update_of_ne hsame]
      have henabled : Function.update s.driver.enabled slot true slot' = true := henabled
      rw [Function.update_of_ne hsame] at henabled
      exact h.jobs slot' endpoint henabled hpos hlt
  · exact h.pending_at
  · exact fun slot' endpoint t ht => hvalid (h.pending_valid slot' endpoint t ht)
  · exact fun t ht => hvalid (h.inFlight_valid t ht)
  · exact h.genuine
  · exact h.calls_owed
  · exact h.delivered
  · exact h.number
  · exact h.delivered_mem
  · exact h.pending_mem
  · exact h.delivered_nodup
  · exact h.pending_nodup
  · exact h.pending_new

theorem addressDevice_inv (pages : Nat) : ∀ {s}, Inv s → CommandInv s → s.waiting = none →
    Inv (xhciAddressDevice translate pages s) ∧
      CommandInv (xhciAddressDevice translate pages s) := by
  induction pages with
  | zero =>
    intro s hinv hcommands hwaiting
    exact ⟨hinv.issue, hcommands.issue hwaiting⟩
  | succ pages ih =>
    intro s hinv hcommands hwaiting
    unfold xhciAddressDevice
    split
    · exact ⟨hinv, hcommands⟩
    · rename_i page driver halloc
      exact ih (hinv.alloc halloc)
        (hcommands.withDriver hwaiting ((Aside.alloc halloc).last hcommands.last)) hwaiting

theorem configureEndpoint_inv (hinv : Inv s) (hcommands : CommandInv s)
    (hwaiting : s.waiting = none) : Inv (xhciConfigureEndpoint translate s) ∧
      CommandInv (xhciConfigureEndpoint translate s) := by
  unfold xhciConfigureEndpoint
  split
  · exact ⟨hinv, hcommands⟩
  · rename_i inputContext driver halloc
    have hinv₁ := hinv.alloc halloc
    have hcommands₁ :=
      hcommands.withDriver hwaiting ((Aside.alloc halloc).last hcommands.last)
    dsimp only
    split
    · exact ⟨hinv₁, hcommands₁⟩
    · rename_i page driver' halloc'
      have hinv₂ := hinv₁.alloc halloc'
      have hcommands₂ :=
        hcommands₁.withDriver hwaiting ((Aside.alloc halloc').last hcommands₁.last)
      exact ⟨hinv₂.issue, hcommands₂.issue hwaiting⟩

/-- A command that takes its own event. -/
theorem takeEvent_inv {c : Command} (hinv : Inv s) (hcommands : CommandInv s)
    (hwaiting : s.waiting = some c)
    (hown : s.eventRing.head?.map Event.owner = some (.command c))
    (heq : s.takeEvent translate = some s') : Inv s' ∧ CommandInv s' := by
  cases hring : s.eventRing with
  | nil => simp [hring] at hown
  | cons e rest =>
    have howner : e.owner = .command c := by simpa [hring] using hown
    have hcommand := Event.command_eq.mpr howner
    have htransfer : e.transfer = none := by
      unfold Event.transfer
      rw [howner]
    obtain ⟨-, hcompleted, hslot⟩ :=
      hcommands.event e (hring ▸ List.mem_cons_self) c howner
    -- no other command is under way
    have hone := hcommands.one
    unfold System.outstanding at hone
    rw [hwaiting, hring, List.filterMap_cons_some hcommand] at hone
    obtain ⟨hnone, hrest⟩ : s.commands = [] ∧ rest.filterMap Event.command = [] := by
      have hlength := congrArg List.length hone
      rw [List.length_append, List.length_cons] at hlength
      have htwo : s.commands.length + ((rest.filterMap Event.command).length + 1) = 1 := hlength
      exact ⟨List.length_eq_zero_iff.mp (by omega), List.length_eq_zero_iff.mp (by omega)⟩
    let s₁ : System := { s with
      eventRing := rest
      waiting := none
      results := s.results ++ [(c, commandSucceeds e)] }
    have hinv₁ : Inv s₁ := by
      have hdrop := hinv.dropEvent hring htransfer
      exact ⟨hdrop.jobs, hdrop.pending_at, hdrop.pending_valid, hdrop.inFlight_valid,
        hdrop.genuine, hdrop.calls_owed, hdrop.delivered, hdrop.number, hdrop.delivered_mem,
        hdrop.pending_mem, hdrop.delivered_nodup, hdrop.pending_nodup, hdrop.pending_new⟩
    have houtstanding : s₁.outstanding = [] := by
      show s.commands ++ rest.filterMap Event.command = []
      rw [hnone, hrest]
      rfl
    have hcommands₁ : CommandInv s₁ := by
      refine ⟨houtstanding, hcommands.last, ?_, hcommands.completed_number, ?_, hcommands.fresh,
        hcommands.unique, ?_⟩
      · rw [houtstanding]
        simp
      · intro e' he' c' howner'
        have hmem := List.mem_filterMap.mpr ⟨e', he', Event.command_eq.mpr howner'⟩
        rw [hrest] at hmem
        cases hmem
      · intro r hr
        rcases List.mem_append.mp hr with hold | hnew
        · exact hcommands.results r hold
        · exact List.mem_singleton.mp hnew ▸ hcompleted
    unfold System.takeEvent at heq
    rw [hwaiting, hring] at heq
    dsimp only at heq
    split at heq
    · rename_i hsuccess
      cases heq
      cases hkind : c.kind with
      | enableSlot =>
        have hunused := hslot (by rw [hkind]; rfl) hsuccess
        exact ⟨hinv₁.enable hunused, hcommands₁.withDriver rfl hcommands.last⟩
      | enableSlotFor =>
        have hunused := hslot (by rw [hkind]; rfl) hsuccess
        exact addressDevice_inv 3 (hinv₁.enable hunused)
          (hcommands₁.withDriver rfl hcommands.last) rfl
      | addressDevice => exact ⟨hinv₁, hcommands₁⟩
      | configureEndpoint inputContext =>
        exact ⟨hinv₁.free, hcommands₁.withDriver rfl (xhciFreePage_last hcommands.last)⟩
    · cases heq
      exact ⟨hinv₁, hcommands₁⟩

/-- The controller completes a command. -/
theorem completeCommand_inv {trb : Trb} (hinv : Inv s) (hcommands : CommandInv s)
    (heq : s.completeCommand trb = some s') : Inv s' ∧ CommandInv s' := by
  unfold System.completeCommand at heq
  cases hpending : s.commands with
  | nil =>
    rw [hpending] at heq
    cases heq
  | cons c rest =>
    rw [hpending] at heq
    dsimp only at heq
    split at heq
    swap
    · cases heq
    rename_i htrb
    obtain ⟨htype, hendpoint, hslot⟩ := htrb
    cases heq
    let event : Event := ⟨trb, .command c⟩
    have hsucceeds : commandSucceeds event =
        decide (completionCode trb = completionCodeSuccess) := by
      unfold commandSucceeds
      show (trb.isType _ && _) = _
      rw [htype, Bool.true_and]
    -- the only command under way, without an event so far
    have hone := hcommands.one
    unfold System.outstanding at hone
    rw [hpending] at hone
    obtain ⟨hrest, hring, hwaiting⟩ : rest = [] ∧ s.eventRing.filterMap Event.command = [] ∧
        s.waiting = some c := by
      cases hw : s.waiting with
      | none => simp [hw] at hone
      | some c' =>
        rw [hw, Option.toList_some, List.cons_append, List.cons.injEq,
          List.append_eq_nil_iff] at hone
        exact ⟨hone.2.1, hone.2.2, hone.1 ▸ rfl⟩
    have hnew : c ∉ s.completed.map Prod.fst := hcommands.fresh c (hpending ▸ List.mem_cons_self)
    have hlast : (s.eventRing ++ [event]).filterMap Event.command = [c] := by
      rw [List.filterMap_append, hring]
      rfl
    have hnumber : c.number < s.issued := hcommands.number c (by
      unfold System.outstanding
      rw [hpending]
      exact List.mem_cons_self)
    constructor
    · have hgenuine : event.Genuine := hendpoint
      have hadd := hinv.addEvent rfl hgenuine
      exact ⟨hadd.jobs, hadd.pending_at, hadd.pending_valid, hadd.inFlight_valid, hadd.genuine,
        hadd.calls_owed, hadd.delivered, hadd.number, hadd.delivered_mem, hadd.pending_mem,
        hadd.delivered_nodup, hadd.pending_nodup, hadd.pending_new⟩
    · constructor
      · show rest ++ (s.eventRing ++ [event]).filterMap Event.command = s.waiting.toList
        rw [hrest, hlast, hwaiting]
        rfl
      · exact hcommands.last
      · intro c' hc'
        have hc' : c' ∈ rest ++ (s.eventRing ++ [event]).filterMap Event.command := hc'
        rw [hrest, hlast] at hc'
        exact List.mem_singleton.mp hc' ▸ hnumber
      · intro r hr
        rcases List.mem_append.mp hr with hold | hadded
        · exact hcommands.completed_number r hold
        · rw [List.mem_singleton.mp hadded]
          exact hnumber
      · intro e he c' howner
        rcases List.mem_append.mp he with hold | hadded
        · obtain ⟨htype', hcompleted, hslot'⟩ := hcommands.event e hold c' howner
          exact ⟨htype', List.mem_append_left _ hcompleted, hslot'⟩
        · rw [List.mem_singleton.mp hadded] at howner ⊢
          cases howner
          refine ⟨htype, ?_, ?_⟩
          · show (c, commandSucceeds event) ∈ _
            rw [hsucceeds]
            exact List.mem_append_right _ (List.mem_singleton_self _)
          · intro henables hsuccess
            have hsuccess : commandSucceeds event = true := hsuccess
            rw [hsucceeds] at hsuccess
            exact hslot ⟨henables, hsuccess⟩
      · rw [hrest]
        simp
      · show ((s.completed ++ [_]).map Prod.fst).Nodup
        rw [List.map_append, List.nodup_append_comm]
        exact List.nodup_cons.mpr ⟨hnew, hcommands.unique⟩
      · exact fun r hr => List.mem_append_left _ (hcommands.results r hr)

/-- A submission that is undisturbed. -/
theorem submits_inv {t : Transfer} {trbs : List Trb} (hinv : Inv s) (hcommands : CommandInv s)
    (hsubmits : Submits translate s t trbs s') (henabled : s.driver.enabled t.slot = true)
    (hinside : 0 < t.endpoint ∧ t.endpoint < xhciMaxNumEndpoints)
    (hroom : (s.queued t.slot t.endpoint).length < xhciMaxNumTransferJobs) :
    Inv s' ∧ CommandInv s' := by
  obtain ⟨haside, hring⟩ := Aside.submits hsubmits
  exact ⟨hinv.submits hsubmits henabled hinside hroom,
    hcommands.aside haside (hring ▸ rfl) fun e he => .inl (hring ▸ he)⟩

theorem exec_inv {a : BusAction}
    (hmapped : ∀ i < xhciHeapMaxPages, (translate (pageAddress i)).isSome)
    (h : Inv s ∧ CommandInv s) (ha : Undisturbed s a) (heq : exec translate s a = some s') :
    Inv s' ∧ CommandInv s' := by
  obtain ⟨hinv, hcommands⟩ := h
  cases a with
  | control slot request =>
    obtain ⟨⟨-, henabled⟩, heq⟩ := Option.ite_none_right_eq_some.mp heq
    cases heq
    have hroom : HasRoom s slot 1 2 ∧ (request.transferType ≠ .noData → HasPage s) := by
      have ha : if request.transferType = .noData then HasRoom s slot 1 2
        else HasRoom s slot 1 3 ∧ HasPage s := ha
      split at ha
      · rename_i hnone
        exact ⟨ha, fun hne => (hne hnone).elim⟩
      · obtain ⟨⟨hjobs, htrbs⟩, hpage⟩ := ha
        exact ⟨⟨hjobs, by omega⟩, fun _ => hpage⟩
    have hok : (xhciControlTransfer translate slot request s).1 = 0 :=
      control_ok hmapped hcommands.last hroom.2
    obtain ⟨t, trbs, hsubmits, rfl, hendpoint⟩ := control_submits (Prod.ext hok rfl)
    refine submits_inv hinv hcommands hsubmits henabled ?_ ?_
    · rw [hendpoint]
      decide
    · rw [hendpoint]
      exact hroom.1.1
  | transfer slot request =>
    obtain ⟨⟨-, henabled⟩, heq⟩ := Option.ite_none_right_eq_some.mp heq
    cases heq
    obtain ⟨hroom, hpage⟩ := ha
    have hok : (xhciTransfer translate slot request s).1 = 0 :=
      transfer_ok hmapped hcommands.last hpage
    obtain ⟨t, trbs, hsubmits, rfl, hendpoint⟩ := transfer_submits (Prod.ext hok rfl)
    obtain ⟨hlow, hhigh⟩ := request.endpoint.configured
    refine submits_inv hinv hcommands hsubmits henabled ?_ ?_
    · rw [hendpoint]
      exact ⟨by omega, hhigh⟩
    · rw [hendpoint]
      exact hroom.1
  | poll =>
    obtain ⟨hwaiting, heq⟩ := Option.ite_none_right_eq_some.mp heq
    obtain ⟨event, hring, -⟩ := pollEvent_frame heq
    have hnone := (hcommands.idle hwaiting).2
    have hrest : s'.eventRing.filterMap Event.command = [] := by
      rw [List.filterMap_eq_nil_iff] at hnone ⊢
      exact fun e he => hnone e (hring ▸ List.mem_cons_of_mem _ he)
    refine ⟨hinv.pollEvent heq, hcommands.aside (Aside.pollEvent heq) ?_ ?_⟩
    · rw [hrest, hnone]
    · exact fun e he => .inl (hring ▸ List.mem_cons_of_mem _ he)
  | callbackReturns =>
    obtain ⟨-, heq⟩ := Option.ite_none_right_eq_some.mp heq
    obtain ⟨haside, hring⟩ := Aside.callbackReturns heq
    exact ⟨hinv.callbackReturns heq,
      hcommands.aside haside (hring ▸ rfl) fun e he => .inl (hring ▸ he)⟩
  | enableDeviceSlot =>
    obtain ⟨hwaiting, heq⟩ := Option.ite_none_right_eq_some.mp heq
    cases heq
    exact ⟨hinv.issue, hcommands.issue hwaiting⟩
  | addressDevice =>
    obtain ⟨hwaiting, heq⟩ := Option.ite_none_right_eq_some.mp heq
    cases heq
    exact ⟨hinv.issue, hcommands.issue hwaiting⟩
  | configureEndpoint =>
    obtain ⟨hwaiting, heq⟩ := Option.ite_none_right_eq_some.mp heq
    cases heq
    exact configureEndpoint_inv hinv hcommands hwaiting
  | takeEvent =>
    obtain ⟨c, hwaiting, hown⟩ := ha
    exact takeEvent_inv hinv hcommands hwaiting hown heq
  | completeTransfer slot endpoint trb =>
    have heq : s.completeTransfer slot endpoint trb = some s' := heq
    refine ⟨hinv.completeTransfer heq, ?_⟩
    obtain ⟨t, rest, -, -, -, rfl⟩ := completeTransfer_cases heq
    refine hcommands.aside ⟨rfl, rfl, rfl, rfl, rfl, rfl, fun h => h⟩ ?_ ?_
    · rw [List.filterMap_append]
      exact List.append_nil _
    · intro e he
      rcases List.mem_append.mp he with hold | hnew
      · exact .inl hold
      · exact .inr (List.mem_singleton.mp hnew ▸ rfl)
  | completeCommand trb => exact completeCommand_inv hinv hcommands heq
  | portEvent trb =>
    obtain ⟨⟨-, hendpoint⟩, heq⟩ := Option.ite_none_right_eq_some.mp heq
    cases heq
    have hgenuine : (⟨trb, .port⟩ : Event).Genuine := hendpoint
    refine ⟨hinv.addEvent rfl hgenuine,
      hcommands.aside ⟨rfl, rfl, rfl, rfl, rfl, rfl, fun h => h⟩ ?_ ?_⟩
    · rw [List.filterMap_append]
      exact List.append_nil _
    · intro e he
      rcases List.mem_append.mp he with hold | hnew
      · exact .inl hold
      · exact .inr (List.mem_singleton.mp hnew ▸ rfl)

theorem Quiet.commandInv (h : Quiet s) : CommandInv s := by
  have houtstanding : s.outstanding = [] := by
    unfold System.outstanding
    rw [h.commands, h.eventRing]
    rfl
  constructor
  · rw [houtstanding, h.waiting]
    rfl
  · exact h.lastModified
  · rw [houtstanding]
    simp
  · rw [h.completed]
    simp
  · rw [h.eventRing]
    simp
  · rw [h.commands]
    simp
  · rw [h.completed]
    exact List.nodup_nil
  · rw [h.results]
    simp

theorem nothingLost (h : Inv s) (hcommands : CommandInv s) : NothingLost s where
  called := by
    intro hring t ht
    have hflight : s.inFlight = [] := by
      unfold System.inFlight
      rw [hring]
      rfl
    rw [h.delivered, hflight, List.append_nil] at ht
    exact List.count_eq_one_of_mem h.called_nodup ht
  at_most_once := fun t => List.nodup_iff_count_le_one.mp h.called_nodup t
  owed := by
    intro c hc
    obtain ⟨t, howner, howed⟩ := h.calls_owed c hc
    have hcalled : t ∈ s.called := List.mem_filterMap.mpr ⟨c, hc, Event.transfer_eq howner⟩
    have hdelivered : t ∈ s.delivered := h.delivered ▸ List.mem_append_left _ hcalled
    exact ⟨t, h.delivered_mem t hdelivered, howner, howed⟩
  commands := by
    intro c ok hresult
    have hcompleted := hcommands.results _ hresult
    constructor
    · rintro rfl
      exact hcompleted
    · intro hsuccess
      -- a command is completed once
      exact congrArg Prod.snd (List.inj_on_of_nodup_map hcommands.unique hcompleted hsuccess rfl)
  one_event := hcommands.unique

end

/-- The event of a report of the mouse, and that of a command. -/
def reportEvent : Trb := ⟨0, 0, 0x1000000, 0x1038001⟩

def commandEvent : Trb := ⟨0, 0, 0x1000000, 0x1008401⟩

end ZOs.Xhci.Jobs
