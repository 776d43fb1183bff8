import Mathlib.Data.BitVec
import ZOs.Lib.Patch
import ZOs.Usb.RingBuffer

/-!
# The ring buffer in memory

`ring_buffer.c` as it is: two pointers that are addresses, and elements that
are bytes. It simulates the ring of entries (`Simulates`), and so is a queue
with a capacity. Pointers that are arguments are not NULL.
-/

namespace ZOs.Utils

open Patches

abbrev Word := BitVec 64
abbrev Byte := BitVec 8

/-- `ring_buffer_t`. -/
structure ByteRing where
  baseAddress : Word
  enqueuePtr : Word
  dequeuePtr : Word
  ringSize : Word
  dataSize : Word
  usedCount : Word

/-- `ring_buffer_init`. -/
def ringBufferInit (baseAddress ringSize dataSize : Word) : Option ByteRing :=
  if dataSize = 0 ∨ ringSize = 0 then none
  else some
    { baseAddress
      ringSize
      dataSize
      enqueuePtr := baseAddress
      dequeuePtr := baseAddress
      usedCount := 0 }

namespace ByteRing

/-- `ring_buffer_is_empty`. -/
def isEmpty (r : ByteRing) : Bool := r.usedCount = 0

/-- `ring_buffer_is_full`. -/
def isFull (r : ByteRing) : Bool := r.dataSize ≠ 0 ∧ r.usedCount = r.ringSize

/-- `ring_buffer_advance_ptr`. -/
def advancePtr (r : ByteRing) (ptr : Word) : Word :=
  let ptr := ptr + r.dataSize
  if r.baseAddress + r.ringSize * r.dataSize ≤ ptr then r.baseAddress else ptr

end ByteRing

/-- A ring buffer, and the bytes of memory. -/
structure Ring where
  ring : ByteRing
  memory : Nat → Byte

/-- `memory_copy` of some bytes to an address. -/
def copyIn (address : Word) (data : List Byte) (memory : Nat → Byte) : Nat → Byte :=
  (Patch.mk address.toNat data.length fun i => data.getD i 0).store memory

/-- `memory_copy` of `n` bytes from an address. -/
def copyOut (address : Word) (n : Nat) (memory : Nat → Byte) : List Byte :=
  (List.range n).map fun i => memory (address.toNat + i)

/-- `ring_buffer_enqueue`, with as many bytes as its size says. -/
def ringBufferEnqueue (s : Ring) (data : List Byte) : Int × Ring :=
  if s.ring.dataSize.toNat < data.length then (-1, s)
  else if s.ring.isFull then (-1, s)
  else
    (0,
      { memory := copyIn s.ring.enqueuePtr data s.memory
        ring := { s.ring with
          enqueuePtr := s.ring.advancePtr s.ring.enqueuePtr
          usedCount := s.ring.usedCount + 1 } })

/-- `ring_buffer_dequeue`: the bytes that are copied, or `none` for -1. -/
def ringBufferDequeue (s : Ring) (dataSize : Nat) : Option (List Byte) × Ring :=
  if s.ring.dataSize.toNat < dataSize then (none, s)
  else if s.ring.isEmpty then (none, s)
  else
    (some (copyOut s.ring.dequeuePtr dataSize s.memory),
      { s with ring := { s.ring with
          dequeuePtr := s.ring.advancePtr s.ring.dequeuePtr
          usedCount := s.ring.usedCount - 1 } })

/-- `ring_buffer_peek`. -/
def ringBufferPeek (s : Ring) (dataSize : Nat) : Option (List Byte) :=
  if s.ring.dataSize.toNat < dataSize then none
  else if s.ring.isEmpty then none
  else some (copyOut s.ring.dequeuePtr dataSize s.memory)

/-! ## Calls -/

inductive RingCall
  | enqueue (data : List Byte)
  | dequeue (dataSize : Nat)
  | peek (dataSize : Nat)

/-- The size that is passed. -/
def RingCall.size : RingCall → Nat
  | .enqueue data => data.length
  | .dequeue dataSize => dataSize
  | .peek dataSize => dataSize

/-- What a call returns, and the element that it copies out. -/
structure Answer where
  code : Int
  data : Option (List Byte)
  deriving DecidableEq

/-- The answer of a dequeue or a peek. -/
def Answer.out (data : Option (List Byte)) : Answer := ⟨if data.isSome then 0 else -1, data⟩

def Ring.exec (s : Ring) : RingCall → Answer × Ring
  | .enqueue data => (⟨(ringBufferEnqueue s data).1, none⟩, (ringBufferEnqueue s data).2)
  | .dequeue dataSize => (.out (ringBufferDequeue s dataSize).1, (ringBufferDequeue s dataSize).2)
  | .peek dataSize => (.out (ringBufferPeek s dataSize), s)

/-- A queue with a capacity. -/
def queueExec (capacity : Nat) (queue : List (List Byte)) : RingCall → Answer × List (List Byte)
  | .enqueue data =>
    if queue.length = capacity then (⟨-1, none⟩, queue) else (⟨0, none⟩, queue ++ [data])
  | .dequeue _ => (.out queue.head?, queue.tail)
  | .peek _ => (.out queue.head?, queue)

/-- One call after the other, with their answers. -/
def execAll {S : Type} (exec : S → RingCall → Answer × S) : S → List RingCall →
    List Answer × S
  | s, [] => ([], s)
  | s, call :: calls =>
    let (answer, s) := exec s call
    let (answers, s) := execAll exec s calls
    (answer :: answers, s)

/-! ## Slots -/

namespace ByteRing

/-- The buffer is in memory. -/
structure Fits (r : ByteRing) : Prop where
  ringSize : 0 < r.ringSize.toNat
  dataSize : 0 < r.dataSize.toNat
  room : r.baseAddress.toNat + r.ringSize.toNat * r.dataSize.toNat < 2 ^ 64

/-- The address of slot `i`. -/
def slot (r : ByteRing) (i : Nat) : Nat := r.baseAddress.toNat + i * r.dataSize.toNat

/-- The address is that of a slot in the buffer. -/
def OnSlot (r : ByteRing) (address : Word) : Prop :=
  ∃ i < r.ringSize.toNat, address.toNat = r.slot i

section
variable {r : ByteRing} {ptr : Word} {i j : Nat}

theorem slot_succ (r : ByteRing) (i : Nat) : r.slot (i + 1) = r.slot i + r.dataSize.toNat := by
  unfold slot
  rw [Nat.succ_mul, Nat.add_assoc]

theorem slot_mono (h : i ≤ j) : r.slot i ≤ r.slot j :=
  Nat.add_le_add_left (Nat.mul_le_mul_right _ h) _

theorem Fits.slot_lt (h : r.Fits) (hi : i ≤ r.ringSize.toNat) : r.slot i < 2 ^ 64 :=
  Nat.lt_of_le_of_lt (slot_mono hi) h.room

theorem Fits.end_toNat (h : r.Fits) :
    (r.baseAddress + r.ringSize * r.dataSize).toNat = r.slot r.ringSize.toNat := by
  have hroom := h.room
  rw [BitVec.toNat_add, BitVec.toNat_mul, Nat.mod_eq_of_lt (a := _ * _), Nat.mod_eq_of_lt hroom]
  · rfl
  · omega

/-- The pointer goes on to the next slot, and from the last one to the first. -/
theorem Fits.advancePtr (h : r.Fits) (hi : i < r.ringSize.toNat) (hptr : ptr.toNat = r.slot i) :
    (r.advancePtr ptr).toNat = r.slot (if i + 1 ≥ r.ringSize.toNat then 0 else i + 1) := by
  have hnext : (ptr + r.dataSize).toNat = r.slot (i + 1) := by
    have hlt := h.slot_lt (Nat.succ_le_of_lt hi)
    rw [slot_succ] at hlt ⊢
    rw [BitVec.toNat_add, hptr, Nat.mod_eq_of_lt hlt]
  have hend : r.baseAddress + r.ringSize * r.dataSize ≤ ptr + r.dataSize ↔
      r.slot r.ringSize.toNat ≤ r.slot (i + 1) := by
    rw [BitVec.le_def, h.end_toNat, hnext]
  have hpos := h.dataSize
  unfold ByteRing.advancePtr
  dsimp only
  by_cases hlast : i + 1 ≥ r.ringSize.toNat
  · rw [if_pos hlast, if_pos (hend.mpr (slot_mono hlast))]
    exact (Nat.add_zero _).symm.trans (congrArg _ (Nat.zero_mul _).symm)
  · have hlt : r.slot (i + 1) < r.slot r.ringSize.toNat := by
      have hmono : r.slot (i + 2) ≤ r.slot r.ringSize.toNat := slot_mono (by omega)
      rw [slot_succ] at hmono
      omega
    rw [if_neg hlast, if_neg fun h => Nat.not_le_of_lt hlt (hend.mp h), hnext]

end

end ByteRing

/-! ## Simulation -/

/-- The bytes of slot `i`. -/
def Ring.entry (s : Ring) (i : Nat) : List Byte :=
  (List.range s.ring.dataSize.toNat).map fun k => s.memory (s.ring.slot i + k)

/-- The ring of entries does what the ring in memory does. -/
structure Simulates (s : Ring) (e : RingBuffer (List Byte)) : Prop where
  fits : s.ring.Fits
  entry : ∀ i < s.ring.ringSize.toNat, s.entry i = e.entries i
  enqueuePtr : s.ring.enqueuePtr.toNat = s.ring.slot e.enqueuePtr
  enqueue_lt : e.enqueuePtr < s.ring.ringSize.toNat
  dequeuePtr : s.ring.dequeuePtr.toNat = s.ring.slot e.dequeuePtr
  dequeue_lt : e.dequeuePtr < s.ring.ringSize.toNat
  ringSize : s.ring.ringSize.toNat = e.ringSize
  usedCount : s.ring.usedCount.toNat = e.usedCount
  count_le : e.usedCount ≤ e.ringSize

/-- The address is not in the buffer. -/
def ByteRing.Outside (r : ByteRing) (a : Nat) : Prop := a < r.slot 0 ∨ r.slot r.ringSize.toNat ≤ a

section
variable {s : Ring} {e : RingBuffer (List Byte)} {l : List (List Byte)} {data : List Byte}

theorem Simulates.isFull (h : Simulates s e) : s.ring.isFull = e.isFull := by
  have hsize := h.fits.dataSize
  have hne : s.ring.dataSize ≠ 0 := by
    rintro hzero
    rw [hzero] at hsize
    exact absurd hsize (by decide)
  unfold ByteRing.isFull RingBuffer.isFull
  rw [decide_eq_decide, ← h.ringSize, ← h.usedCount, and_iff_right hne, BitVec.toNat_inj]

theorem Simulates.isEmpty (h : Simulates s e) : s.ring.isEmpty = e.isEmpty := by
  unfold ByteRing.isEmpty RingBuffer.isEmpty
  rw [decide_eq_decide, ← h.usedCount]
  exact (BitVec.toNat_inj (y := 0)).symm

theorem Simulates.advancePtr (h : Simulates s e) {ptr : Word} {i : Nat}
    (hi : i < s.ring.ringSize.toNat) (hptr : ptr.toNat = s.ring.slot i) :
    (s.ring.advancePtr ptr).toNat = s.ring.slot (e.advancePtr i) ∧
      e.advancePtr i < s.ring.ringSize.toNat := by
  have hnext := h.fits.advancePtr hi hptr
  have hpos := h.fits.ringSize
  unfold RingBuffer.advancePtr
  rw [← h.ringSize]
  refine ⟨hnext, ?_⟩
  split <;> omega

/-- A slot that has been written, and another one. -/
theorem entry_copyIn {ptr : Word} {i j : Nat} (hptr : ptr.toNat = s.ring.slot i)
    (hdata : data.length = s.ring.dataSize.toNat) :
    ({ s with memory := copyIn ptr data s.memory } : Ring).entry j =
      if j = i then data else s.entry j := by
  unfold Ring.entry
  by_cases hj : j = i
  · rw [if_pos hj]
    refine List.ext_getElem (by simp [hdata]) fun k hk hk' => ?_
    rw [List.getElem_map, List.getElem_range]
    refine store_eq (fun _ => ?_) fun hnot => absurd ?_ hnot
    · show data.getD (s.ring.slot j + k - ptr.toNat) 0 = _
      rw [hptr, hj, Nat.add_sub_cancel_left, List.getD_eq_getElem?_getD,
        List.getElem?_eq_getElem hk', Option.getD_some]
    · show ptr.toNat ≤ s.ring.slot j + k ∧ s.ring.slot j + k < ptr.toNat + data.length
      rw [hptr, hj]
      omega
  · rw [if_neg hj]
    refine List.map_congr_left fun k hk => ?_
    have hk : k < s.ring.dataSize.toNat := List.mem_range.mp hk
    refine store_eq (fun hcovers => ?_) fun _ => rfl
    -- different slots have no byte in common
    have hother : s.ring.slot j + s.ring.dataSize.toNat ≤ s.ring.slot i ∨
        s.ring.slot i + s.ring.dataSize.toNat ≤ s.ring.slot j := by
      rw [← ByteRing.slot_succ, ← ByteRing.slot_succ]
      rcases Nat.lt_or_gt_of_ne hj with hlt | hgt
      · exact .inl (ByteRing.slot_mono hlt)
      · exact .inr (ByteRing.slot_mono hgt)
    have hcovers : ptr.toNat ≤ s.ring.slot j + k ∧ s.ring.slot j + k < ptr.toNat + data.length :=
      hcovers
    rw [hptr] at hcovers
    omega

theorem outside_copyIn {ptr : Word} {i a : Nat} (hi : i < s.ring.ringSize.toNat)
    (hptr : ptr.toNat = s.ring.slot i)
    (hdata : data.length = s.ring.dataSize.toNat) (ha : s.ring.Outside a) :
    copyIn ptr data s.memory a = s.memory a := by
  refine store_eq (fun hcovers => ?_) fun _ => rfl
  have hcovers : ptr.toNat ≤ a ∧ a < ptr.toNat + data.length := hcovers
  have hfirst : s.ring.slot 0 ≤ s.ring.slot i := ByteRing.slot_mono (Nat.zero_le i)
  have hlast : s.ring.slot (i + 1) ≤ s.ring.slot s.ring.ringSize.toNat := ByteRing.slot_mono hi
  rw [ByteRing.slot_succ] at hlast
  unfold ByteRing.Outside at ha
  omega

/-- What an enqueue does to both rings. -/
theorem Simulates.enqueue (h : Simulates s e) (hdata : data.length = s.ring.dataSize.toNat) :
    (ringBufferEnqueue s data).1 = (e.enqueue data).1 ∧
      Simulates (ringBufferEnqueue s data).2 (e.enqueue data).2 := by
  unfold ringBufferEnqueue RingBuffer.enqueue
  rw [if_neg (Nat.not_lt_of_le (Nat.le_of_eq hdata)), h.isFull]
  split
  · exact ⟨rfl, h⟩
  · rename_i hnotFull
    have hroom : e.usedCount < e.ringSize :=
      Nat.lt_of_le_of_ne h.count_le fun hfull => hnotFull (decide_eq_true hfull)
    obtain ⟨hnext, hlt⟩ := h.advancePtr h.enqueue_lt h.enqueuePtr
    refine ⟨rfl, ?_⟩
    refine
      { fits := ⟨h.fits.ringSize, h.fits.dataSize, h.fits.room⟩
        entry := fun i hi => ?_
        enqueuePtr := hnext
        enqueue_lt := hlt
        dequeuePtr := h.dequeuePtr
        dequeue_lt := h.dequeue_lt
        ringSize := h.ringSize
        usedCount := ?_
        count_le := hroom }
    · refine (entry_copyIn h.enqueuePtr hdata).trans ?_
      dsimp only
      by_cases hi' : i = e.enqueuePtr
      · rw [if_pos hi', hi', Function.update_self]
      · rw [if_neg hi', Function.update_of_ne hi', h.entry i hi]
    · have hword := s.ring.ringSize.isLt
      have hsize := h.ringSize
      show (s.ring.usedCount + 1).toNat = e.usedCount + 1
      rw [BitVec.toNat_add, h.usedCount]
      exact Nat.mod_eq_of_lt (show e.usedCount + 1 < 2 ^ 64 by omega)

theorem Simulates.copyOut (h : Simulates s e) :
    copyOut s.ring.dequeuePtr s.ring.dataSize.toNat s.memory = e.entries e.dequeuePtr := by
  rw [← h.entry _ h.dequeue_lt]
  unfold Utils.copyOut Ring.entry
  rw [h.dequeuePtr]

/-- What a dequeue does to both rings. -/
theorem Simulates.dequeue (h : Simulates s e) :
    (ringBufferDequeue s s.ring.dataSize.toNat).1 = e.dequeue.map Prod.fst ∧
      Simulates (ringBufferDequeue s s.ring.dataSize.toNat).2
        ((e.dequeue.map Prod.snd).getD e) := by
  unfold ringBufferDequeue RingBuffer.dequeue
  rw [if_neg (Nat.lt_irrefl _), h.isEmpty]
  split
  · exact ⟨rfl, h⟩
  · rename_i hnotEmpty
    have hpos : e.usedCount ≠ 0 := fun hzero => hnotEmpty (decide_eq_true hzero)
    obtain ⟨hnext, hlt⟩ := h.advancePtr h.dequeue_lt h.dequeuePtr
    refine ⟨congrArg some h.copyOut, ?_⟩
    refine
      { fits := ⟨h.fits.ringSize, h.fits.dataSize, h.fits.room⟩
        entry := h.entry
        enqueuePtr := h.enqueuePtr
        enqueue_lt := h.enqueue_lt
        dequeuePtr := hnext
        dequeue_lt := hlt
        ringSize := h.ringSize
        usedCount := ?_
        count_le := Nat.le_trans (Nat.sub_le ..) h.count_le }
    have hcount := h.usedCount
    have hword := s.ring.usedCount.isLt
    show (s.ring.usedCount - 1).toNat = e.usedCount - 1
    rw [BitVec.toNat_sub_of_le]
    · rw [hcount]
      rfl
    · rw [BitVec.le_def, hcount]
      exact Nat.one_le_iff_ne_zero.mpr hpos

theorem Simulates.peek (h : Simulates s e) :
    ringBufferPeek s s.ring.dataSize.toNat = e.dequeue.map Prod.fst := by
  refine Eq.trans ?_ h.dequeue.1
  unfold ringBufferPeek ringBufferDequeue
  split
  · rfl
  · split <;> rfl

end

/-! ## Queues -/

/-- The ring in memory holds the elements of a queue. -/
structure HoldsQueue (r : ByteRing) (memory : Nat → Byte) (s : Ring) (queue : List (List Byte)) :
    Prop where
  simulated : ∃ e, Simulates s e ∧ e.Holds queue
  baseAddress : s.ring.baseAddress = r.baseAddress
  ringSize : s.ring.ringSize = r.ringSize
  dataSize : s.ring.dataSize = r.dataSize
  outside : ∀ a, r.Outside a → s.memory a = memory a

section
variable {r : ByteRing} {memory : Nat → Byte} {s : Ring} {queue : List (List Byte)}
  {call : RingCall} {calls : List RingCall}

/-- An enqueue stores to the buffer alone. -/
theorem Simulates.enqueue_frame {e : RingBuffer (List Byte)} {data : List Byte} (h : Simulates s e)
    (hdata : data.length = s.ring.dataSize.toNat) {a : Nat} (ha : s.ring.Outside a) :
    (ringBufferEnqueue s data).2.memory a = s.memory a := by
  unfold ringBufferEnqueue
  split
  · rfl
  · split
    · rfl
    · exact outside_copyIn h.enqueue_lt h.enqueuePtr hdata ha

theorem enqueue_sizes (s : Ring) (data : List Byte) :
    (ringBufferEnqueue s data).2.ring.baseAddress = s.ring.baseAddress ∧
      (ringBufferEnqueue s data).2.ring.ringSize = s.ring.ringSize ∧
      (ringBufferEnqueue s data).2.ring.dataSize = s.ring.dataSize := by
  unfold ringBufferEnqueue
  split
  · exact ⟨rfl, rfl, rfl⟩
  · split <;> exact ⟨rfl, rfl, rfl⟩

theorem dequeue_frame (s : Ring) (dataSize : Nat) :
    (ringBufferDequeue s dataSize).2.memory = s.memory ∧
      (ringBufferDequeue s dataSize).2.ring.baseAddress = s.ring.baseAddress ∧
      (ringBufferDequeue s dataSize).2.ring.ringSize = s.ring.ringSize ∧
      (ringBufferDequeue s dataSize).2.ring.dataSize = s.ring.dataSize := by
  unfold ringBufferDequeue
  split
  · exact ⟨rfl, rfl, rfl, rfl⟩
  · split <;> exact ⟨rfl, rfl, rfl, rfl⟩

theorem HoldsQueue.outside_ring (h : HoldsQueue r memory s queue) {a : Nat} (ha : r.Outside a) :
    s.ring.Outside a := by
  unfold ByteRing.Outside ByteRing.slot at ha ⊢
  rwa [h.baseAddress, h.ringSize, h.dataSize]

theorem HoldsQueue.enqueue (h : HoldsQueue r memory s queue) {data : List Byte}
    (hdata : data.length = r.dataSize.toNat) :
    (s.exec (.enqueue data)).1 = (queueExec r.ringSize.toNat queue (.enqueue data)).1 ∧
      HoldsQueue r memory (s.exec (.enqueue data)).2
        (queueExec r.ringSize.toNat queue (.enqueue data)).2 := by
  obtain ⟨e, hsimulates, hholds⟩ := h.simulated
  rw [← h.dataSize] at hdata
  obtain ⟨hcode, hnext⟩ := hsimulates.enqueue hdata
  obtain ⟨hbase, hring, hsize⟩ := enqueue_sizes s data
  have hcapacity : r.ringSize.toNat = e.ringSize := h.ringSize ▸ hsimulates.ringSize
  have hframe : ∀ a, r.Outside a → (ringBufferEnqueue s data).2.memory a = memory a := fun a ha =>
    (hsimulates.enqueue_frame hdata (h.outside_ring ha)).trans (h.outside a ha)
  unfold Ring.exec queueExec
  dsimp only
  by_cases hfull : queue.length = r.ringSize.toNat
  · rw [hholds.enqueue_full (hfull.trans hcapacity)] at hcode hnext
    rw [if_pos hfull, hcode]
    exact ⟨rfl, ⟨e, hnext, hholds⟩, hbase.trans h.baseAddress, hring.trans h.ringSize,
      hsize.trans h.dataSize, hframe⟩
  · have hroom : queue.length < e.ringSize := by
      have hle := hholds.room
      omega
    obtain ⟨e', henqueue, hholds', -⟩ := hholds.enqueue (a := data) hroom
    rw [henqueue] at hcode hnext
    rw [if_neg hfull, hcode]
    exact ⟨rfl, ⟨e', hnext, hholds'⟩, hbase.trans h.baseAddress, hring.trans h.ringSize,
      hsize.trans h.dataSize, hframe⟩

theorem Holds.head {e : RingBuffer (List Byte)} (h : e.Holds queue) :
    e.dequeue.map Prod.fst = queue.head? := by
  cases queue with
  | nil => rw [h.dequeue_nil, Option.map_none, List.head?_nil]
  | cons a queue =>
    obtain ⟨e', hdequeue, -, -⟩ := h.dequeue
    rw [hdequeue, Option.map_some, List.head?_cons]

theorem HoldsQueue.dequeue (h : HoldsQueue r memory s queue) :
    (s.exec (.dequeue r.dataSize.toNat)).1 =
        (queueExec r.ringSize.toNat queue (.dequeue r.dataSize.toNat)).1 ∧
      HoldsQueue r memory (s.exec (.dequeue r.dataSize.toNat)).2
        (queueExec r.ringSize.toNat queue (.dequeue r.dataSize.toNat)).2 := by
  obtain ⟨e, hsimulates, hholds⟩ := h.simulated
  obtain ⟨hdata, hnext⟩ := hsimulates.dequeue
  rw [h.dataSize] at hdata hnext
  obtain ⟨hmemory, hbase, hring, hsize⟩ := dequeue_frame s r.dataSize.toNat
  have hholds' : ((e.dequeue.map Prod.snd).getD e).Holds queue.tail := by
    cases queue with
    | nil =>
      rw [hholds.dequeue_nil]
      exact hholds
    | cons a queue =>
      obtain ⟨e', hdequeue, hholds', -⟩ := hholds.dequeue
      rw [hdequeue]
      exact hholds'
  constructor
  · exact congrArg Answer.out (hdata.trans (Holds.head hholds))
  · exact ⟨⟨_, hnext, hholds'⟩, hbase.trans h.baseAddress, hring.trans h.ringSize,
      hsize.trans h.dataSize, fun a ha => (congrFun hmemory a).trans (h.outside a ha)⟩

theorem HoldsQueue.peek (h : HoldsQueue r memory s queue) :
    (s.exec (.peek r.dataSize.toNat)).1 =
      (queueExec r.ringSize.toNat queue (.peek r.dataSize.toNat)).1 := by
  obtain ⟨e, hsimulates, hholds⟩ := h.simulated
  have hdata := hsimulates.peek
  rw [h.dataSize] at hdata
  exact congrArg Answer.out (hdata.trans (Holds.head hholds))

/-- Every call answers as the queue does. -/
theorem HoldsQueue.exec (h : HoldsQueue r memory s queue) (hsize : call.size = r.dataSize.toNat) :
    (s.exec call).1 = (queueExec r.ringSize.toNat queue call).1 ∧
      HoldsQueue r memory (s.exec call).2 (queueExec r.ringSize.toNat queue call).2 := by
  cases call with
  | enqueue data => exact h.enqueue hsize
  | dequeue dataSize =>
    obtain rfl : dataSize = _ := hsize
    exact h.dequeue
  | peek dataSize =>
    obtain rfl : dataSize = _ := hsize
    exact ⟨h.peek, h⟩

theorem HoldsQueue.execAll (h : HoldsQueue r memory s queue)
    (hsizes : ∀ call ∈ calls, call.size = r.dataSize.toNat) :
    (execAll Ring.exec s calls).1 = (execAll (queueExec r.ringSize.toNat) queue calls).1 ∧
      HoldsQueue r memory (execAll Ring.exec s calls).2
        (execAll (queueExec r.ringSize.toNat) queue calls).2 := by
  induction calls generalizing s queue with
  | nil => exact ⟨rfl, h⟩
  | cons call calls ih =>
    obtain ⟨hsize, hsizes⟩ := List.forall_mem_cons.mp hsizes
    obtain ⟨hanswer, h'⟩ := h.exec hsize
    obtain ⟨hanswers, hall⟩ := ih h' hsizes
    exact ⟨congrArg₂ List.cons hanswer hanswers, hall⟩

theorem holdsQueue_init {baseAddress ringSize dataSize : Word}
    (hinit : ringBufferInit baseAddress ringSize dataSize = some r)
    (hroom : baseAddress.toNat + ringSize.toNat * dataSize.toNat < 2 ^ 64)
    (memory : Nat → Byte) : HoldsQueue r memory ⟨r, memory⟩ [] := by
  unfold ringBufferInit at hinit
  split at hinit
  · cases hinit
  · rename_i hsizes
    cases hinit
    rw [not_or] at hsizes
    have hring : 0 < ringSize.toNat :=
      Nat.pos_of_ne_zero fun hzero => hsizes.2 (BitVec.eq_of_toNat_eq hzero)
    have hdata : 0 < dataSize.toNat :=
      Nat.pos_of_ne_zero fun hzero => hsizes.1 (BitVec.eq_of_toNat_eq hzero)
    let s : Ring := ⟨⟨baseAddress, baseAddress, baseAddress, ringSize, dataSize, 0⟩, memory⟩
    have hslot : baseAddress.toNat = s.ring.slot 0 := by
      show _ = _ + 0 * _
      rw [Nat.zero_mul, Nat.add_zero]
    refine ⟨⟨.init s.entry ringSize.toNat, ?_, RingBuffer.holds_init hring⟩, rfl, rfl, rfl,
      fun _ _ => rfl⟩
    exact
      { fits := ⟨hring, hdata, hroom⟩
        entry := fun _ _ => rfl
        enqueuePtr := hslot
        enqueue_lt := hring
        dequeuePtr := hslot
        dequeue_lt := hring
        ringSize := rfl
        usedCount := rfl
        count_le := Nat.zero_le _ }

end

/-- A ring buffer is a queue with a capacity: it answers all calls as the
queue does. Its pointers are on slots, and it stores to its buffer alone. -/
theorem ringBuffer_queue (baseAddress ringSize dataSize : Word) (r : ByteRing) (memory : Nat → Byte)
    (calls : List RingCall) (hinit : ringBufferInit baseAddress ringSize dataSize = some r)
    (hroom : baseAddress.toNat + ringSize.toNat * dataSize.toNat < 2 ^ 64)
    (hsizes : ∀ call ∈ calls, call.size = dataSize.toNat) :
    (execAll Ring.exec ⟨r, memory⟩ calls).1 = (execAll (queueExec ringSize.toNat) [] calls).1 ∧
      r.OnSlot (execAll Ring.exec ⟨r, memory⟩ calls).2.ring.enqueuePtr ∧
      r.OnSlot (execAll Ring.exec ⟨r, memory⟩ calls).2.ring.dequeuePtr ∧
      ∀ a, r.Outside a → (execAll Ring.exec ⟨r, memory⟩ calls).2.memory a = memory a := by
  have hr : r.ringSize = ringSize ∧ r.dataSize = dataSize := by
    unfold ringBufferInit at hinit
    split at hinit
    · cases hinit
    · cases hinit
      exact ⟨rfl, rfl⟩
  rw [← hr.2] at hsizes
  obtain ⟨hanswers, hall⟩ := (holdsQueue_init hinit hroom memory).execAll hsizes
  obtain ⟨e, hsimulates, -⟩ := hall.simulated
  have honSlot {ptr : Word} {i : Nat}
      (hlt : i < (execAll Ring.exec ⟨r, memory⟩ calls).2.ring.ringSize.toNat)
      (hptr : ptr.toNat = (execAll Ring.exec ⟨r, memory⟩ calls).2.ring.slot i) : r.OnSlot ptr := by
    unfold ByteRing.slot at hptr
    rw [hall.baseAddress, hall.dataSize] at hptr
    rw [hall.ringSize] at hlt
    exact ⟨i, hlt, hptr⟩
  rw [hr.1] at hanswers
  exact ⟨hanswers, honSlot hsimulates.enqueue_lt hsimulates.enqueuePtr,
    honSlot hsimulates.dequeue_lt hsimulates.dequeuePtr, hall.outside⟩

/-- Two slots of one byte: the third enqueue finds the buffer full. -/
theorem ringBuffer_queue_two :
    (execAll Ring.exec ⟨⟨0x1000, 0x1000, 0x1000, 2, 1, 0⟩, fun _ => 0⟩
      [.enqueue [7], .enqueue [8], .enqueue [9], .dequeue 1, .peek 1]).1 =
    [⟨0, none⟩, ⟨0, none⟩, ⟨-1, none⟩, ⟨0, some [7]⟩, ⟨0, some [8]⟩] :=
  (ringBuffer_queue 0x1000 2 1 _ (fun _ => 0) _ rfl (by decide) (by decide)).1.trans (by decide)

end ZOs.Utils
