import Mathlib.Logic.Function.Basic
import ZOs.Lib.Bits

/-!
# Bytes in a memory of words

Memory holds 64-bit words at the multiples of 8; a byte is 8 bits of its
word, the lowest first. A store of a byte changes that byte only.
-/

namespace Bytes

abbrev Byte := BitVec 8

abbrev WordMemory := Nat → BitVec 64

variable {w : BitVec 64} {b : Byte} {i j a c : Nat} {m : WordMemory}

/-! ## Bytes of a word -/

/-- Byte `i` of a word. -/
def byteOf (w : BitVec 64) (i : Nat) : Byte := (w >>> (8 * i)).setWidth 8

/-- The word with another byte `i`. -/
def withByte (w : BitVec 64) (i : Nat) (b : Byte) : BitVec 64 :=
  (w &&& ~~~ Bits.field 64 (8 * i) (8 * i + 8)) ||| (b.setWidth 64 <<< (8 * i))

theorem getLsbD_byteOf {k : Nat} (hk : k < 8) : (byteOf w i).getLsbD k = w.getLsbD (8 * i + k) := by
  unfold byteOf
  rw [BitVec.getLsbD_setWidth, BitVec.getLsbD_ushiftRight]
  simp [hk]

theorem getLsbD_withByte {k : Nat} (hk : k < 64) : (withByte w i b).getLsbD k =
    if 8 * i ≤ k ∧ k < 8 * i + 8 then b.getLsbD (k - 8 * i) else w.getLsbD k := by
  unfold withByte
  rw [BitVec.getLsbD_or, BitVec.getLsbD_and, BitVec.getLsbD_not, Bits.getLsbD_field hk,
    BitVec.getLsbD_shiftLeft, BitVec.getLsbD_setWidth]
  by_cases hlo : 8 * i ≤ k
  · by_cases hhi : k < 8 * i + 8
    · have hlt : k - 8 * i < 64 := by omega
      simp [hlo, hhi, hk, hlt]
    · have hbit : b.getLsbD (k - 8 * i) = false := BitVec.getLsbD_of_ge b _ (by omega)
      simp [hlo, hhi, hk, hbit]
  · simp [hlo, hk]

theorem byteOf_withByte (hi : i < 8) : byteOf (withByte w i b) i = b := by
  apply BitVec.eq_of_getLsbD_eq
  intro k hk
  rw [getLsbD_byteOf hk, getLsbD_withByte (by omega), if_pos (by omega), Nat.add_sub_cancel_left]

theorem byteOf_withByte_of_ne (hi : i < 8) (hne : i ≠ j) :
    byteOf (withByte w j b) i = byteOf w i := by
  apply BitVec.eq_of_getLsbD_eq
  intro k hk
  rw [getLsbD_byteOf hk, getLsbD_byteOf hk, getLsbD_withByte (by omega), if_neg (by omega)]

/-- The word whose first `n` bytes are given. -/
def ofBytes (bytes : Nat → Byte) : Nat → BitVec 64
  | 0 => 0
  | n + 1 => withByte (ofBytes bytes n) n (bytes n)

theorem byteOf_ofBytes {bytes : Nat → Byte} {n : Nat} (hn : n ≤ 8) (hi : i < n) :
    byteOf (ofBytes bytes n) i = bytes i := by
  induction n with
  | zero => exact absurd hi (Nat.not_lt_zero i)
  | succ n ih =>
    unfold ofBytes
    rcases Nat.lt_succ_iff_lt_or_eq.mp hi with hlt | rfl
    · rw [byteOf_withByte_of_ne (by omega) (Nat.ne_of_lt hlt)]
      exact ih (by omega) hlt
    · exact byteOf_withByte (by omega)

/-- A word is its eight bytes. -/
theorem eq_of_byteOf {w' : BitVec 64} (h : ∀ k < 8, byteOf w k = byteOf w' k) : w = w' := by
  refine BitVec.eq_of_getLsbD_eq fun k hk => ?_
  have hbyte := congrArg (·.getLsbD (k % 8)) (h (k / 8) (by omega))
  rwa [getLsbD_byteOf (by omega), getLsbD_byteOf (by omega), Nat.div_add_mod] at hbyte

/-- Eight bytes that are those of a word give the word. -/
theorem ofBytes_eq {bytes : Nat → Byte} (h : ∀ k < 8, bytes k = byteOf w k) :
    ofBytes bytes 8 = w :=
  eq_of_byteOf fun k hk => (byteOf_ofBytes (Nat.le_refl 8) hk).trans (h k hk)

/-! ## Bytes of memory -/

/-- The word that a byte is in. -/
def wordAddress (a : Nat) : Nat := 8 * (a / 8)

def readByte (m : WordMemory) (a : Nat) : Byte := byteOf (m (wordAddress a)) (a % 8)

def writeByte (m : WordMemory) (a : Nat) (b : Byte) : WordMemory :=
  Function.update m (wordAddress a) (withByte (m (wordAddress a)) (a % 8) b)

theorem readByte_writeByte (m : WordMemory) (a : Nat) (b : Byte) :
    readByte (writeByte m a b) a = b := by
  unfold readByte writeByte
  rw [Function.update_self]
  exact byteOf_withByte (Nat.mod_lt _ (by decide))

theorem readByte_writeByte_of_ne (hne : c ≠ a) : readByte (writeByte m a b) c = readByte m c := by
  unfold readByte writeByte
  by_cases hword : wordAddress c = wordAddress a
  · rw [hword, Function.update_self]
    apply byteOf_withByte_of_ne (Nat.mod_lt _ (by decide))
    unfold wordAddress at hword
    omega
  · rw [Function.update_of_ne hword]

/-- A word that the byte is not in. -/
theorem writeByte_of_ne (hne : c ≠ wordAddress a) : writeByte m a b c = m c :=
  Function.update_of_ne hne ..

/-- What is written to a word depends on the word only. -/
theorem writeByte_congr {m' : WordMemory} (h : m' c = m c) :
    writeByte m' a b c = writeByte m a b c := by
  by_cases hc : c = wordAddress a
  · subst hc
    unfold writeByte
    rw [Function.update_self, Function.update_self, h]
  · rw [writeByte_of_ne hc, writeByte_of_ne hc, h]

/-- `memory_copy`: `n` bytes, first to last, from address `a`. -/
def copyBytes (source : Nat → Byte) (a : Nat) : Nat → WordMemory → WordMemory
  | 0, m => m
  | n + 1, m => writeByte (copyBytes source a n m) (a + n) (source n)

theorem readByte_copyBytes {source : Nat → Byte} (n : Nat) (h : i < n) :
    readByte (copyBytes source a n m) (a + i) = source i := by
  induction n with
  | zero => exact absurd h (Nat.not_lt_zero i)
  | succ n ih =>
    unfold copyBytes
    by_cases hi : i = n
    · rw [hi, readByte_writeByte]
    · rw [readByte_writeByte_of_ne (by omega), ih (by omega)]

theorem readByte_copyBytes_of_ne {source : Nat → Byte} (n : Nat) (h : c < a ∨ a + n ≤ c) :
    readByte (copyBytes source a n m) c = readByte m c := by
  induction n with
  | zero => rfl
  | succ n ih =>
    unfold copyBytes
    rw [readByte_writeByte_of_ne (by omega), ih (by omega)]

theorem copyBytes_of_ne {source : Nat → Byte} (n : Nat)
    (h : ∀ k, a ≤ k → k < a + n → c ≠ wordAddress k) : copyBytes source a n m c = m c := by
  induction n with
  | zero => rfl
  | succ n ih =>
    unfold copyBytes
    rw [writeByte_of_ne (h (a + n) (by omega) (by omega))]
    exact ih fun k hk hlt => h k hk (by omega)

theorem copyBytes_congr {m' : WordMemory} {source : Nat → Byte} (n : Nat) (h : m' c = m c) :
    copyBytes source a n m' c = copyBytes source a n m c := by
  induction n with
  | zero => exact h
  | succ n ih => exact writeByte_congr ih

end Bytes
