import Mathlib.Data.BitVec
import Mathlib.Data.List.TakeDrop
import ZOs.Lib.PhaseRing
import ZOs.Lib.Run

/-!
# The TRB rings of the xHCI driver

The rings of `xhci.c` that the driver shares with the controller: command
and transfer rings, which the driver fills, and the event ring, which it
empties. Driver and controller share the memory of the ring and nothing
else. A pointer into a ring is the index of its TRB, the base being 0.

The controller is the other side of the protocol: it follows the cycle bit
through a transfer ring, and writes its events with its own cycle bit.
-/

namespace ZOs.Xhci

open Runs PhaseRing

/-- A machine word. -/
abbrev Word := BitVec 64

/-- `xhci_trb_t`. -/
structure Trb where
  parameterLow : BitVec 32
  parameterHigh : BitVec 32
  status : BitVec 32
  control : BitVec 32
  deriving DecidableEq

def trbTypeLink : BitVec 32 := 0x6 <<< 10
def trbLinkToggleCycleBit : BitVec 32 := 1 <<< 1
def trbControlCycleBit : BitVec 32 := 1

/-- The TRB of a zeroed page. -/
def zeroTrb : Trb := ⟨0, 0, 0, 0⟩

/-- `xhci_allocated_page_t`. -/
structure AllocatedPage where
  virtualAddress : Word
  physicalAddress : Word
  deriving DecidableEq

/-- `xhci_trb_ring_t`, with the TRBs of its memory. -/
structure TrbRing where
  baseAddress : Word
  enqueuePtr : Nat
  dequeuePtr : Nat
  linkTrb : Nat
  ringSize : Nat
  entryCount : Nat
  cycleBit : BitVec 8
  slots : Nat → Trb

namespace Trb

/-- `xhci_trb_is_type`. -/
def isType (t : Trb) (typeMask : BitVec 32) : Bool :=
  (t.control >>> 10) &&& (0x3f : BitVec 32) = typeMask >>> 10

/-- The cycle bit of a TRB. -/
def cycle (t : Trb) : Nat := (t.control &&& trbControlCycleBit).toNat

/-- The cycle bit set to that of a ring. -/
def setCycle (t : Trb) (cycleBit : BitVec 8) : Trb :=
  { t with control := if cycleBit = 1 then t.control ||| 1 else t.control &&& ~~~1 }

/-- A TRB, the cycle bit aside. -/
def payload (t : Trb) : Trb := { t with control := t.control &&& ~~~trbControlCycleBit }

/-- A Link TRB. -/
def isLink (t : Trb) : Bool := t.isType trbTypeLink

/-- The toggle bit of a Link TRB. -/
def toggles (t : Trb) : Bool := t.control &&& trbLinkToggleCycleBit ≠ 0

end Trb

/-- `!` on a cycle bit. -/
def flip (cycleBit : BitVec 8) : BitVec 8 := if cycleBit = 0 then 1 else 0

/-! ## Transfer rings -/

/-- The Link TRB that `xhci_transfer_ring_init` writes. -/
def initialLinkTrb (base : AllocatedPage) : Trb :=
  { parameterLow := base.physicalAddress.setWidth 32
    parameterHigh := (base.physicalAddress >>> 32).setWidth 32
    status := 0
    control := trbTypeLink ||| trbLinkToggleCycleBit ||| 0x1 }

/-- `xhci_transfer_ring_init`. -/
def transferRingInit (slots : Nat → Trb) (base : AllocatedPage) (ringSize : Nat) : TrbRing :=
  { baseAddress := base.virtualAddress
    enqueuePtr := 0
    dequeuePtr := 0
    linkTrb := ringSize - 1
    ringSize
    entryCount := 0
    cycleBit := 1
    slots := Function.update slots (ringSize - 1) (initialLinkTrb base) }

/-- `xhci_transfer_ring_enqueue`. -/
def transferRingEnqueue (r : TrbRing) (trb : Trb) : TrbRing :=
  let r :=
    if r.entryCount ≥ r.ringSize - 1 then
      -- the Link TRB gets the cycle bit of the lap that ends
      { r with
        slots := Function.update r.slots r.linkTrb ((r.slots r.linkTrb).setCycle r.cycleBit)
        cycleBit := flip r.cycleBit
        enqueuePtr := 0
        entryCount := 0 }
    else r
  { r with
    slots := Function.update r.slots r.enqueuePtr (trb.setCycle r.cycleBit)
    enqueuePtr := r.enqueuePtr + 1
    entryCount := r.entryCount + 1 }

/-- The controller's side of a transfer ring: its position, the cycle bit it
expects, and what it has received. -/
structure Consumer where
  position : Nat
  expected : Nat
  received : List Trb

/-- One step of the controller, if the TRB at its position is valid. -/
def Consumer.take? (c : Consumer) (slots : Nat → Trb) : Option Consumer :=
  let trb := slots c.position
  if trb.cycle ≠ c.expected then none
  else if trb.isLink then
    some { c with
      position := 0
      expected := if trb.toggles then (c.expected + 1) % 2 else c.expected }
  else some { c with position := c.position + 1, received := c.received ++ [trb] }

/-- A transfer ring between driver and controller, with a record of what
has been enqueued. -/
structure Transfers where
  ring : TrbRing
  consumer : Consumer
  enqueued : List Trb

inductive TransferAction
  | enqueue (trb : Trb)
  | consume

/-- After the initialisation on a zeroed page. -/
def transfersInit (base : AllocatedPage) (ringSize : Nat) : Transfers where
  ring := transferRingInit (fun _ => zeroTrb) base ringSize
  consumer := ⟨0, 1, []⟩
  enqueued := []

/-- The driver enqueues while at most `n - 1` TRBs are unconsumed; none of
its TRBs is a Link TRB, which only the initialisation writes. -/
inductive TransferStep (n : Nat) : Transfers → TransferAction → Transfers → Prop
  | enqueue {s trb} : s.enqueued.length + 1 ≤ s.consumer.received.length + (n - 1) →
      trb.isLink = false → TransferStep n s (.enqueue trb)
        { s with ring := transferRingEnqueue s.ring trb, enqueued := s.enqueued ++ [trb] }
  | consume {s c} : s.consumer.take? s.ring.slots = some c →
      TransferStep n s .consume { s with consumer := c }

/-- The controller goes on for a number of steps, or until it waits. -/
def drain : Nat → Transfers → Transfers
  | 0, s => s
  | k + 1, s =>
    match s.consumer.take? s.ring.slots with
    | none => s
    | some c => drain k { s with consumer := c }

/-! ## The event ring -/

/-- `xhci_event_ring_init`. -/
def eventRingInit (slots : Nat → Trb) (base : AllocatedPage) (ringSize : Nat) : TrbRing :=
  { baseAddress := base.virtualAddress
    enqueuePtr := 0
    dequeuePtr := 0
    linkTrb := 0
    ringSize
    entryCount := 0
    cycleBit := 1
    slots }

/-- `xhci_event_ring_has_valid_trb`. -/
def eventRingHasValidTrb (r : TrbRing) : Bool := (r.slots r.dequeuePtr).cycle = r.cycleBit.toNat

/-- The dequeue pointer moves on, and starts over behind the last TRB. -/
def eventRingAdvance (r : TrbRing) : TrbRing :=
  let r := { r with dequeuePtr := r.dequeuePtr + 1, entryCount := r.entryCount + 1 }
  if r.entryCount ≥ r.ringSize then
    { r with cycleBit := flip r.cycleBit, dequeuePtr := 0, entryCount := 0 }
  else r

/-- `xhci_event_ring_dequeue`: the result, the TRB it has written, and the
ring. The last step translates the new dequeue pointer for the controller,
by `mmap_virtual_to_physical`. -/
def eventRingDequeue (mmapVirtualToPhysical : Word → Option Word) (r : TrbRing) :
    Int × Option Trb × TrbRing :=
  if ¬ eventRingHasValidTrb r then (-1, none, r)
  else
    let trb := r.slots r.dequeuePtr
    let r := eventRingAdvance r
    match mmapVirtualToPhysical (r.baseAddress + BitVec.ofNat 64 (16 * r.dequeuePtr)) with
    | none => (-1, some trb, r)
    | some _ => (0, some trb, r)

/-- The event ring between controller and driver: the controller's position
and cycle bit, what it has written, and what the driver has got. -/
structure Events where
  ring : TrbRing
  position : Nat
  producerCycle : BitVec 8
  written : List Trb
  returned : List Trb

inductive EventAction
  | write (trb : Trb)
  | dequeue

def eventsInit (base : AllocatedPage) (ringSize : Nat) : Events where
  ring := eventRingInit (fun _ => zeroTrb) base ringSize
  position := 0
  producerCycle := 1
  written := []
  returned := []

/-- The controller writes an event. -/
def Events.write (s : Events) (n : Nat) (trb : Trb) : Events :=
  { s with
    ring :=
      { s.ring with
        slots := Function.update s.ring.slots s.position (trb.setCycle s.producerCycle) }
    position := if s.position + 1 = n then 0 else s.position + 1
    producerCycle := if s.position + 1 = n then flip s.producerCycle else s.producerCycle
    written := s.written ++ [trb] }

/-- The controller never has more than `n` events unconsumed. -/
inductive EventStep (mmapVirtualToPhysical : Word → Option Word) (n : Nat) :
    Events → EventAction → Events → Prop
  | write {s trb} : s.written.length + 1 ≤ s.returned.length + n →
      EventStep mmapVirtualToPhysical n s (.write trb) (s.write n trb)
  | dequeue {s result trb ring} :
      eventRingDequeue mmapVirtualToPhysical s.ring = (result, trb, ring) →
      EventStep mmapVirtualToPhysical n s .dequeue
        { s with ring, returned := s.returned ++ trb.toList }

end ZOs.Xhci
