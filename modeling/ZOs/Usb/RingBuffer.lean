import Mathlib.Data.List.Basic
import ZOs.Lib.PhaseRing

/-!
# The ring buffer

`ring_buffer.c`, over entries of a type. A pointer into the buffer is the
index of its entry. `Holds r l` says that a buffer holds the entries of `l`,
the oldest first; under it the operations are those of a queue.
-/

namespace ZOs.Utils

/-- `ring_buffer_t`, with the entries of its memory. -/
structure RingBuffer (α : Type) where
  entries : Nat → α
  enqueuePtr : Nat
  dequeuePtr : Nat
  ringSize : Nat
  usedCount : Nat

namespace RingBuffer

variable {α : Type}

/-- `ring_buffer_init`, with a size that is not 0. -/
def init (entries : Nat → α) (ringSize : Nat) : RingBuffer α := ⟨entries, 0, 0, ringSize, 0⟩

/-- `ring_buffer_is_empty`. -/
def isEmpty (r : RingBuffer α) : Bool := r.usedCount = 0

/-- `ring_buffer_is_full`. -/
def isFull (r : RingBuffer α) : Bool := r.usedCount = r.ringSize

/-- `ring_buffer_advance_ptr`. -/
def advancePtr (r : RingBuffer α) (ptr : Nat) : Nat := if ptr + 1 ≥ r.ringSize then 0 else ptr + 1

/-- `ring_buffer_enqueue`: the result and the buffer. -/
def enqueue (r : RingBuffer α) (data : α) : Int × RingBuffer α :=
  if r.isFull then (-1, r)
  else (0, { r with
    entries := Function.update r.entries r.enqueuePtr data
    enqueuePtr := r.advancePtr r.enqueuePtr
    usedCount := r.usedCount + 1 })

/-- `ring_buffer_dequeue`: the data and the buffer, or `none` for -1. -/
def dequeue (r : RingBuffer α) : Option (α × RingBuffer α) :=
  if r.isEmpty then none
  else some (r.entries r.dequeuePtr, { r with
    dequeuePtr := r.advancePtr r.dequeuePtr
    usedCount := r.usedCount - 1 })

/-- The buffer holds the entries of `l`, the oldest first. -/
structure Holds (r : RingBuffer α) (l : List α) : Prop where
  count : r.usedCount = l.length
  room : l.length ≤ r.ringSize
  inside : r.dequeuePtr < r.ringSize
  last : r.enqueuePtr = (r.dequeuePtr + l.length) % r.ringSize
  entry : ∀ k (h : k < l.length), r.entries ((r.dequeuePtr + k) % r.ringSize) = l[k]

/-- The entries that a buffer holds, the oldest first. -/
def toList (r : RingBuffer α) : List α :=
  (List.range r.usedCount).map fun k => r.entries ((r.dequeuePtr + k) % r.ringSize)

variable {r : RingBuffer α} {l : List α} {a : α} {n : Nat}

theorem Holds.toList_eq (h : Holds r l) : r.toList = l := by
  apply List.ext_getElem
  · rw [toList, List.length_map, List.length_range, h.count]
  · intro k _ hk
    simp [toList, h.entry k hk]

theorem holds_init {entries : Nat → α} (h : 0 < n) : Holds (init entries n) [] :=
  ⟨rfl, Nat.zero_le _, h, (Nat.zero_mod _).symm, fun k hk => absurd hk (Nat.not_lt_zero k)⟩

theorem advancePtr_mod (h : 0 < r.ringSize) (p : Nat) :
    r.advancePtr (p % r.ringSize) = (p + 1) % r.ringSize := by
  have hlt := Nat.mod_lt p h
  unfold advancePtr
  rw [(PhaseRing.succ_mod_div h p).1]
  by_cases hwrap : p % r.ringSize + 1 = r.ringSize
  · rw [if_pos hwrap, if_pos (by omega)]
  · rw [if_neg hwrap, if_neg (by omega)]

/-- Two entries of one lap are in different places. -/
theorem place_ne {d j k : Nat} (hjk : j < k) (hk : k < j + n) : (d + j) % n ≠ (d + k) % n := by
  intro heq
  have hzero : (d + k - (d + j)) % n = 0 := Nat.sub_mod_eq_zero_of_mod_eq heq.symm
  have hsmall : (d + k - (d + j)) % n = d + k - (d + j) := Nat.mod_eq_of_lt (by omega)
  omega

theorem Holds.isFull_iff (h : Holds r l) : r.isFull = true ↔ l.length = r.ringSize := by
  unfold isFull
  rw [decide_eq_true_iff, h.count]

theorem Holds.enqueue (h : Holds r l) (hroom : l.length < r.ringSize) :
    ∃ r', r.enqueue a = (0, r') ∧ Holds r' (l ++ [a]) ∧ r'.ringSize = r.ringSize := by
  have hpos : 0 < r.ringSize := Nat.zero_lt_of_lt hroom
  have hnot : ¬ r.isFull = true := fun hfull => by
    have := h.isFull_iff.mp hfull
    omega
  refine ⟨_, if_neg hnot, ?_, rfl⟩
  constructor
  · show r.usedCount + 1 = _
    rw [h.count, List.length_append, List.length_singleton]
  · show _ ≤ r.ringSize
    rw [List.length_append, List.length_singleton]
    exact hroom
  · exact h.inside
  · show r.advancePtr r.enqueuePtr = _
    rw [h.last, advancePtr_mod hpos, List.length_append, List.length_singleton, Nat.add_assoc]
  · intro k hk
    rw [List.length_append, List.length_singleton] at hk
    show Function.update r.entries r.enqueuePtr a ((r.dequeuePtr + k) % r.ringSize) = _
    by_cases hlast : k = l.length
    · subst hlast
      rw [← h.last, Function.update_self, List.getElem_concat_length rfl]
    · have hlt : k < l.length := by omega
      have hne : (r.dequeuePtr + k) % r.ringSize ≠ r.enqueuePtr := by
        rw [h.last]
        exact place_ne hlt (by omega)
      rw [Function.update_of_ne hne, h.entry k hlt, List.getElem_append_left hlt]

theorem Holds.enqueue_full (h : Holds r l) (hfull : l.length = r.ringSize) :
    r.enqueue a = (-1, r) := if_pos (h.isFull_iff.mpr hfull)

theorem Holds.dequeue (h : Holds r (a :: l)) :
    ∃ r', r.dequeue = some (a, r') ∧ Holds r' l ∧ r'.ringSize = r.ringSize := by
  have hpos : 0 < r.ringSize := Nat.zero_lt_of_lt h.inside
  have hcount := h.count
  have hroom := h.room
  rw [List.length_cons] at hcount hroom
  have hfirst := h.entry 0 (by simp)
  rw [Nat.add_zero, Nat.mod_eq_of_lt h.inside] at hfirst
  have hnext : r.advancePtr r.dequeuePtr = (r.dequeuePtr + 1) % r.ringSize := by
    have hadv := advancePtr_mod hpos r.dequeuePtr
    rwa [Nat.mod_eq_of_lt h.inside] at hadv
  have hnot : ¬ r.isEmpty = true := by
    unfold isEmpty
    rw [decide_eq_true_iff]
    omega
  refine ⟨{ r with
    dequeuePtr := r.advancePtr r.dequeuePtr
    usedCount := r.usedCount - 1 }, ?_, ?_, rfl⟩
  · unfold RingBuffer.dequeue
    rw [if_neg hnot, hfirst]
    rfl
  · constructor
    · show r.usedCount - 1 = _
      omega
    · show _ ≤ r.ringSize
      omega
    · show r.advancePtr r.dequeuePtr < r.ringSize
      rw [hnext]
      exact Nat.mod_lt _ hpos
    · show r.enqueuePtr = (r.advancePtr r.dequeuePtr + l.length) % r.ringSize
      rw [h.last, hnext, Nat.mod_add_mod, List.length_cons]
      congr 1
      omega
    · intro k hk
      show r.entries ((r.advancePtr r.dequeuePtr + k) % r.ringSize) = l[k]
      have hentry := h.entry (k + 1) (by simpa using hk)
      rw [hnext, Nat.mod_add_mod, show r.dequeuePtr + 1 + k = r.dequeuePtr + (k + 1) by omega,
        hentry]
      rfl

theorem Holds.dequeue_nil (h : Holds r []) : r.dequeue = none := by
  unfold RingBuffer.dequeue isEmpty
  have hcount : r.usedCount = 0 := h.count
  rw [hcount]
  rfl

end RingBuffer

end ZOs.Utils
