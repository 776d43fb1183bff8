import Mathlib.Logic.Function.Basic
import ZOs.Compositor.Paint
import ZOs.Lib.Bytes
import ZOs.Lib.Patch
import ZOs.Lib.Run
import ZOs.Lib.Sequence

/-!
# The text input

The editor of `text_input.c`: a buffer, the length of the text in it, and a
cursor. A character is put in before the cursor, taken out before the cursor,
and the cursor moves over the characters. What is behind the buffer is memory
as well, so that a write there is a write, and each access is kept with the
size that the buffer has.
-/

namespace ZOs.Compositor

open Bytes Patches Runs

/-! ## The functions -/

/-- A character that is read or written, and the size of its buffer. -/
structure Access where
  index : Nat
  capacity : Nat

/-- `text_input_t`, without the fields that only the drawing reads; `text` is
memory from the buffer on, and `accesses` are those since the first. -/
structure TextInput where
  text : Nat → Byte
  length : Word32
  capacity : Word32
  cursorIndex : Word32
  shiftDown : BitVec 8
  accesses : List Access

/-- `TEXT_INPUT_INITIAL_CAPACITY`. -/
def textInputInitialCapacity : Word32 := 128

/-- An access to each of the first characters of a buffer. -/
def accessesTo (n : Nat) (capacity : Word32) : List Access :=
  (List.range n).map fun i => ⟨i, capacity.toNat⟩

/-- An empty text in a new buffer, which held something else before. -/
def newTextInput (fresh : Nat → Byte) : TextInput where
  text := (Patch.mk 0 textInputInitialCapacity.toNat fun _ => 0).store fresh
  length := 0
  capacity := textInputInitialCapacity
  cursorIndex := 0
  shiftDown := 0
  accesses := accessesTo textInputInitialCapacity.toNat textInputInitialCapacity

/-- `text_input_alloc`, with what `malloc` answers and the result of opening
the keyboard. -/
def textInputAlloc (malloc : Option (Nat → Byte)) (inputOpenNonblock : Int) :
    Int × Option TextInput :=
  match malloc with
  | none => (-1, none)
  | some fresh => (if inputOpenNonblock < 0 then -1 else 0, some (newTextInput fresh))

namespace TextInput

variable (s : TextInput)

/-- `text[i]` is read or written. -/
def access (i : Word32) : TextInput :=
  { s with accesses := ⟨i.toNat, s.capacity.toNat⟩ :: s.accesses }

/-- `text[i] = c`. -/
def put (i : Word32) (c : Byte) : TextInput :=
  { s.access i with text := Function.update s.text i.toNat c }

/-- `text[i] = text[j]`. -/
def copyChar (i j : Word32) : TextInput := (s.access j).put i (s.text j.toNat)

/-- The block of twice the size, and the text in it. -/
def grow (fresh : Nat → Byte) : TextInput :=
  let n := s.length.toNat
  { s with
    text := (Patch.mk 0 n s.text).store fresh
    capacity := s.capacity * 2
    accesses := accessesTo n (s.capacity * 2) ++ accessesTo n s.capacity ++ s.accesses }

/-- The loop of `text_input_add_char`, with `n` rounds to go. -/
def shiftRight : Nat → TextInput → TextInput
  | 0, s => s
  | n + 1, s =>
    let i := s.cursorIndex + BitVec.ofNat 32 (n + 1)
    shiftRight n (s.copyChar i (i - 1))

/-- `text_input_add_char` behind the growth. -/
def insertChar (c : Byte) : TextInput :=
  let s := if s.cursorIndex < s.length then
      { shiftRight (s.length - s.cursorIndex).toNat s with length := s.length + 1 }
    else s
  let s := s.put s.cursorIndex c
  let s := { s with cursorIndex := s.cursorIndex + 1 }
  let s := if s.length < s.cursorIndex then { s with length := s.cursorIndex } else s
  s.put s.length 0

/-- The loop of `text_input_remove_char`, with `n` rounds to go. -/
def shiftLeft : Nat → Word32 → TextInput → TextInput
  | 0, _, s => s
  | n + 1, i, s => shiftLeft n (i + 1) (s.copyChar (i - 1) i)

end TextInput

/-- `text_input_add_char`. -/
def textInputAddChar (s : TextInput) (c : Byte) (malloc : Option (Nat → Byte)) :
    Int × TextInput :=
  if s.capacity < s.length + 1 then
    match malloc with
    | none => (-1, s)
    | some fresh => (0, (s.grow fresh).insertChar c)
  else (0, s.insertChar c)

/-- `text_input_remove_char`. The character before the cursor is read, and
nothing depends on it. -/
def textInputRemoveChar (s : TextInput) : Int × TextInput :=
  if s.cursorIndex = 0 then (0, s)
  else
    let s := s.access (s.cursorIndex - 1)
    if s.cursorIndex = s.length then
      let s := s.put (s.cursorIndex - 1) 0
      (0, { s with length := s.length - 1, cursorIndex := s.cursorIndex - 1 })
    else
      let s := s.shiftLeft (s.length - s.cursorIndex).toNat s.cursorIndex
      let s := { s with length := s.length - 1 }
      let s := s.put s.length 0
      (0, { s with cursorIndex := s.cursorIndex - 1 })

/-- `text_input_move_cursor`. The sum is signed, and its comparison with the
length is unsigned. -/
def textInputMoveCursor (s : TextInput) (dx : Word32) : Int × TextInput :=
  if dx = 0 then (0, s)
  else if (s.cursorIndex + dx).toInt < 0 then (0, s)
  else if s.length < s.cursorIndex + dx then (0, s)
  else (0, { s with cursorIndex := s.cursorIndex + dx })

/-! ## Runs -/

/-- A call. An added character comes with what `malloc` answers, should it be
called. -/
inductive Edit
  | addChar (c : Byte) (malloc : Option (Nat → Byte))
  | removeChar
  | moveCursor (dx : Word32)

def TextInput.exec (s : TextInput) : Edit → TextInput
  | .addChar c malloc => (textInputAddChar s c malloc).2
  | .removeChar => (textInputRemoveChar s).2
  | .moveCursor dx => (textInputMoveCursor s dx).2

/-- After `text_input_alloc`. -/
def Allocated (s : TextInput) : Prop :=
  ∃ fresh opened, (textInputAlloc (some fresh) opened).2 = some s

/-- `malloc` does not fail. -/
def Edit.Supplied : Edit → Prop
  | .addChar _ malloc => malloc.isSome
  | _ => True

/-- A call, `malloc` succeeding. -/
def Edits (s : TextInput) (e : Edit) (s' : TextInput) : Prop := e.Supplied ∧ s' = s.exec e

/-! ## What the functions do -/

namespace TextInput

open Sequences

theorem add_one_toNat {x : Word32} (h : x.toNat + 1 < 2 ^ 32) : (x + 1).toNat = x.toNat + 1 := by
  rw [BitVec.toNat_add, Nat.mod_eq_of_lt (by exact h)]
  rfl

theorem sub_one_toNat {x : Word32} (h : 0 < x.toNat) : (x - 1).toNat = x.toNat - 1 := by
  rw [BitVec.toNat_sub_of_le (by rw [BitVec.le_def]; exact h)]
  rfl

/-- The text. -/
def contents (s : TextInput) : List Byte := firstValues s.text s.length.toNat

/-- No access was behind the buffer of its time. -/
def InBounds (s : TextInput) : Prop := ∀ a ∈ s.accesses, a.index < a.capacity

/-- The cursor is in the text, and the text is in the buffer. -/
structure Inside (s : TextInput) : Prop where
  cursor : s.cursorIndex.toNat ≤ s.length.toNat
  length : s.length.toNat ≤ s.capacity.toNat

section

variable {s : TextInput} {i j : Word32} {c : Byte} {n k : Nat} {fresh : Nat → Byte}

@[simp] theorem length_put : (s.put i c).length = s.length := rfl

@[simp] theorem capacity_put : (s.put i c).capacity = s.capacity := rfl

@[simp] theorem cursorIndex_put : (s.put i c).cursorIndex = s.cursorIndex := rfl

@[simp] theorem text_put : (s.put i c).text = Function.update s.text i.toNat c := rfl

@[simp] theorem inBounds_put :
    (s.put i c).InBounds ↔ i.toNat < s.capacity.toNat ∧ s.InBounds :=
  List.forall_mem_cons

@[simp] theorem inBounds_access :
    (s.access i).InBounds ↔ i.toNat < s.capacity.toNat ∧ s.InBounds :=
  List.forall_mem_cons

theorem inBounds_copyChar : (s.copyChar i j).InBounds ↔
    i.toNat < s.capacity.toNat ∧ j.toNat < s.capacity.toNat ∧ s.InBounds := by
  rw [copyChar, inBounds_put, inBounds_access]
  rfl

/-! ### The loops -/

theorem shiftRight_same : (shiftRight n s).length = s.length ∧
    (shiftRight n s).capacity = s.capacity ∧ (shiftRight n s).cursorIndex = s.cursorIndex ∧
    (shiftRight n s).shiftDown = s.shiftDown := by
  induction n generalizing s with
  | zero => exact ⟨rfl, rfl, rfl, rfl⟩
  | succ n ih => exact ih

theorem shiftLeft_same : (shiftLeft n i s).length = s.length ∧
    (shiftLeft n i s).capacity = s.capacity ∧ (shiftLeft n i s).cursorIndex = s.cursorIndex ∧
    (shiftLeft n i s).shiftDown = s.shiftDown := by
  induction n generalizing i s with
  | zero => exact ⟨rfl, rfl, rfl, rfl⟩
  | succ n ih => exact ih

/-- Where a round of the loop that shifts right reads and writes. -/
theorem shiftRight_index (h : i.toNat + (n + 1) < 2 ^ 32) :
    (i + BitVec.ofNat 32 (n + 1)).toNat = i.toNat + n + 1 ∧
      (i + BitVec.ofNat 32 (n + 1) - 1).toNat = i.toNat + n := by
  have hi : (i + BitVec.ofNat 32 (n + 1)).toNat = i.toNat + n + 1 := by
    rw [BitVec.toNat_add, BitVec.toNat_ofNat]
    omega
  refine ⟨hi, ?_⟩
  rw [BitVec.toNat_sub_of_le (by rw [BitVec.le_def, hi]; exact Nat.le_add_left _ _), hi]
  rfl

/-- The `n` characters from the cursor on move one place up. -/
theorem text_shiftRight (h : s.cursorIndex.toNat + n < 2 ^ 32) : (shiftRight n s).text k =
    if s.cursorIndex.toNat < k ∧ k ≤ s.cursorIndex.toNat + n then s.text (k - 1)
    else s.text k := by
  induction n generalizing s with
  | zero =>
    rw [if_neg (by omega)]
    rfl
  | succ n ih =>
    obtain ⟨hto, hfrom⟩ := shiftRight_index h
    have hround (k : Nat) : (s.copyChar (s.cursorIndex + BitVec.ofNat 32 (n + 1))
        (s.cursorIndex + BitVec.ofNat 32 (n + 1) - 1)).text k =
          if k = s.cursorIndex.toNat + n + 1 then s.text (s.cursorIndex.toNat + n)
          else s.text k := by
      rw [copyChar, text_put, Function.update_apply, hto, hfrom]
      rfl
    -- the characters that are still to move lie below the one that has moved
    refine (ih (by show s.cursorIndex.toNat + n < 2 ^ 32; omega)).trans ?_
    show (if s.cursorIndex.toNat < k ∧ k ≤ s.cursorIndex.toNat + n then _ else _) = _
    rw [hround, hround]
    by_cases hlow : s.cursorIndex.toNat < k ∧ k ≤ s.cursorIndex.toNat + n
    · rw [if_pos hlow, if_neg (by omega), if_pos (by omega)]
    · rw [if_neg hlow]
      by_cases hk : k = s.cursorIndex.toNat + n + 1
      · rw [if_pos hk, if_pos (by omega), hk]
        rfl
      · rw [if_neg hk, if_neg (by omega)]

theorem inBounds_shiftRight (h : s.cursorIndex.toNat + n < 2 ^ 32) :
    (shiftRight n s).InBounds ↔
      (0 < n → s.cursorIndex.toNat + n < s.capacity.toNat) ∧ s.InBounds := by
  induction n generalizing s with
  | zero => simp [shiftRight]
  | succ n ih =>
    obtain ⟨hto, hfrom⟩ := shiftRight_index h
    rw [shiftRight, ih (by show s.cursorIndex.toNat + n < 2 ^ 32; omega), inBounds_copyChar, hto,
      hfrom]
    show (0 < n → s.cursorIndex.toNat + n < s.capacity.toNat) ∧ _ ↔ _
    constructor
    · rintro ⟨-, hone, -, hbefore⟩
      exact ⟨fun _ => hone, hbefore⟩
    · rintro ⟨hall, hbefore⟩
      have hlast := hall (Nat.succ_pos n)
      exact ⟨fun _ => by omega, by omega, by omega, hbefore⟩

/-- The `n` characters from `i` on move one place down. -/
theorem text_shiftLeft (hi : 0 < i.toNat) (h : i.toNat + n < 2 ^ 32) :
    (shiftLeft n i s).text k =
      if i.toNat ≤ k + 1 ∧ k + 1 < i.toNat + n then s.text (k + 1) else s.text k := by
  induction n generalizing i s with
  | zero =>
    rw [if_neg (by omega)]
    rfl
  | succ n ih =>
    have hto := sub_one_toNat hi
    have hnext := add_one_toNat (x := i) (by omega)
    have hround (k : Nat) : (s.copyChar (i - 1) i).text k =
        if k = i.toNat - 1 then s.text i.toNat else s.text k := by
      rw [copyChar, text_put, Function.update_apply, hto]
      rfl
    rw [shiftLeft, ih (by omega) (by omega), hnext, hround, hround]
    by_cases hhigh : i.toNat + 1 ≤ k + 1 ∧ k + 1 < i.toNat + 1 + n
    · rw [if_pos hhigh, if_neg (by omega), if_pos (by omega)]
    · rw [if_neg hhigh]
      by_cases hk : k = i.toNat - 1
      · rw [if_pos hk, if_pos (by omega), hk, Nat.sub_add_cancel hi]
      · rw [if_neg hk, if_neg (by omega)]

theorem inBounds_shiftLeft (hi : 0 < i.toNat) (h : i.toNat + n < 2 ^ 32)
    (hroom : i.toNat + n ≤ s.capacity.toNat) :
    (shiftLeft n i s).InBounds ↔ s.InBounds := by
  induction n generalizing i s with
  | zero => rfl
  | succ n ih =>
    have hto := sub_one_toNat hi
    have hnext := add_one_toNat (x := i) (by omega)
    rw [shiftLeft, ih (by omega) (by omega) (by show _ ≤ s.capacity.toNat; omega),
      inBounds_copyChar, hto]
    exact ⟨fun h => h.2.2, fun h => ⟨by omega, by omega, h⟩⟩

end

/-! ### The calls -/

section

variable {s s' : TextInput} {c : Byte} {dx : Word32} {fresh : Nat → Byte}

/-- `s'` has one more character than `s`, the one before its cursor. -/
structure Inserted (c : Byte) (s s' : TextInput) : Prop where
  length : s'.length.toNat = s.length.toNat + 1
  capacity : s'.capacity = s.capacity
  cursor : s'.cursorIndex.toNat = s.cursorIndex.toNat + 1
  shiftDown : s'.shiftDown = s.shiftDown
  contents : s'.contents = s.contents.insertIdx s.cursorIndex.toNat c
  terminated : s'.text s'.length.toNat = 0
  inBounds : s'.InBounds ↔ s.length.toNat + 1 < s.capacity.toNat ∧ s.InBounds

/-- At the end of the text the loop has no rounds, and the branches come to
the same. -/
theorem insertChar_eq (hcursor : s.cursorIndex.toNat ≤ s.length.toNat)
    (hlen : s.length.toNat + 1 < 2 ^ 32) : s.insertChar c =
      ({ (shiftRight (s.length - s.cursorIndex).toNat s).put s.cursorIndex c with
          length := s.length + 1
          cursorIndex := s.cursorIndex + 1 }).put (s.length + 1) 0 := by
  by_cases h : s.cursorIndex < s.length
  · obtain ⟨-, -, hcur, -⟩ := shiftRight_same (n := (s.length - s.cursorIndex).toNat) (s := s)
    have hle : ¬s.length + 1 < s.cursorIndex + 1 := by
      rw [BitVec.lt_def, add_one_toNat hlen, add_one_toNat (by omega)]
      omega
    simp only [insertChar, if_pos h, hcur, length_put, cursorIndex_put, if_neg hle]
    rfl
  · have heq : s.cursorIndex = s.length :=
      BitVec.eq_of_toNat_eq (Nat.le_antisymm hcursor (Nat.le_of_not_lt h))
    have hnext : s.cursorIndex + 1 = s.length + 1 := by rw [heq]
    have hlt : s.length < s.length + 1 := by
      rw [BitVec.lt_def, add_one_toNat hlen]
      exact Nat.lt_succ_self _
    have hrounds : (s.length - s.cursorIndex).toNat = 0 := by rw [heq, BitVec.sub_self]; rfl
    simp only [insertChar, if_neg h, length_put, cursorIndex_put, hnext, if_pos hlt, hrounds]
    rfl

theorem insertChar_spec (hcursor : s.cursorIndex.toNat ≤ s.length.toNat)
    (hlen : s.length.toNat + 1 < 2 ^ 32) : Inserted c s (s.insertChar c) := by
  rw [insertChar_eq hcursor hlen]
  have hsum : s.cursorIndex.toNat + (s.length - s.cursorIndex).toNat = s.length.toNat := by
    rw [BitVec.toNat_sub_of_le (by rw [BitVec.le_def]; exact hcursor)]
    omega
  have hone := add_one_toNat hlen
  obtain ⟨-, hcap, -, hshift⟩ := shiftRight_same (n := (s.length - s.cursorIndex).toNat) (s := s)
  have htext (k : Nat) := text_shiftRight (s := s) (n := (s.length - s.cursorIndex).toNat) (k := k)
    (by omega)
  rw [hsum] at htext
  generalize hgap : shiftRight (s.length - s.cursorIndex).toNat s = t at *
  refine ⟨hone, hcap, add_one_toNat (by omega), hshift, ?_, ?_, ?_⟩
  · -- the terminator goes behind the text, the character into the gap
    have hput (k : Nat) (hk : k ≤ s.length.toNat) :
        (Function.update (Function.update t.text s.cursorIndex.toNat c) (s.length + 1).toNat 0) k =
          Function.update t.text s.cursorIndex.toNat c k :=
      Function.update_of_ne (by omega) _ _
    show firstValues (Function.update (Function.update t.text s.cursorIndex.toNat c)
      (s.length + 1).toNat 0) (s.length + 1).toNat = _
    rw [firstValues_congr (fun k hk => hput k (by omega)), hone]
    refine firstValues_insertIdx hcursor (fun k hk => ?_) (Function.update_self ..)
      (fun k hk hlast => ?_)
    · rw [Function.update_of_ne (by omega), htext, if_neg (by omega)]
    · rw [Function.update_of_ne (by omega), htext, if_pos (by omega)]
      rfl
  · exact Function.update_self ..
  · rw [inBounds_put]
    show (s.length + 1).toNat < t.capacity.toNat ∧ (t.put s.cursorIndex c).InBounds ↔ _
    rw [inBounds_put, ← hgap, inBounds_shiftRight (by omega), hgap, hcap, hone, hsum]
    constructor
    · rintro ⟨hend, -, -, hbefore⟩
      exact ⟨hend, hbefore⟩
    · rintro ⟨hend, hbefore⟩
      exact ⟨hend, by omega, fun _ => by omega, hbefore⟩

/-- Growing keeps the text. -/
theorem contents_grow : (s.grow fresh).contents = s.contents := by
  apply firstValues_congr
  intro k hk
  exact if_pos ⟨Nat.zero_le k, by rw [Nat.zero_add]; exact hk⟩

/-- A text input whose text is not too long has room for one more character,
or gets it. -/
theorem addChar_spec (c : Byte) (fresh : Nat → Byte) (hs : s.Inside) (hpos : 0 < s.capacity.toNat)
    (hlen : s.length.toNat < 2 ^ 31) : ∃ s', textInputAddChar s c (some fresh) = (0, s') ∧
      s'.Inside ∧ 0 < s'.capacity.toNat ∧
      s'.contents = s.contents.insertIdx s.cursorIndex.toNat c ∧
      s'.cursorIndex.toNat = s.cursorIndex.toNat + 1 := by
  unfold textInputAddChar
  have hone := add_one_toNat (x := s.length) (by omega)
  have hcursor := hs.cursor
  have hlength := hs.length
  split
  · rename_i hfull
    rw [BitVec.lt_def, hone] at hfull
    have hdouble : (s.grow fresh).capacity.toNat = 2 * s.capacity.toNat := by
      show (s.capacity * 2).toNat = _
      rw [BitVec.toNat_mul, Nat.mul_comm]
      exact Nat.mod_eq_of_lt (by show 2 * s.capacity.toNat < 2 ^ 32; omega)
    have hput := insertChar_spec (s := s.grow fresh) (c := c) hcursor
      (by show s.length.toNat + 1 < _; omega)
    refine ⟨_, rfl, ⟨?_, ?_⟩, ?_, hput.contents.trans (by rw [contents_grow]; rfl), hput.cursor⟩
    · rw [hput.cursor, hput.length]
      exact Nat.succ_le_succ hcursor
    · rw [hput.length, hput.capacity, hdouble]
      show s.length.toNat + 1 ≤ _
      omega
    · rw [hput.capacity, hdouble]
      omega
  · rename_i hroom
    rw [BitVec.lt_def, hone] at hroom
    have hput := insertChar_spec (c := c) hcursor (by omega)
    refine ⟨_, rfl, ⟨?_, ?_⟩, ?_, hput.contents, hput.cursor⟩
    · rw [hput.cursor, hput.length]
      exact Nat.succ_le_succ hcursor
    · rw [hput.length, hput.capacity]
      omega
    · rw [hput.capacity]
      exact hpos

/-- `s'` lacks the character before the cursor of `s`. -/
structure Removed (s s' : TextInput) : Prop where
  length : s'.length.toNat = s.length.toNat - 1
  capacity : s'.capacity = s.capacity
  cursor : s'.cursorIndex.toNat = s.cursorIndex.toNat - 1
  shiftDown : s'.shiftDown = s.shiftDown
  contents : s'.contents = s.contents.eraseIdx (s.cursorIndex.toNat - 1)
  terminated : s'.text s'.length.toNat = 0
  inBounds : s'.InBounds ↔ s.InBounds

theorem removeChar_spec (hs : s.Inside) (hpos : s.cursorIndex ≠ 0) :
    Removed s (textInputRemoveChar s).2 := by
  have hcursor := hs.cursor
  have hlength := hs.length
  have hzero : 0 < s.cursorIndex.toNat :=
    Nat.pos_of_ne_zero fun h => hpos (BitVec.eq_of_toNat_eq h)
  have hbefore := sub_one_toNat hzero
  have hless := sub_one_toNat (x := s.length) (by omega)
  have hroom := s.capacity.isLt
  unfold textInputRemoveChar
  rw [if_neg hpos]
  dsimp only
  split
  · rename_i hend
    have hend' : s.cursorIndex = s.length := hend
    refine ⟨hless, rfl, hbefore, rfl, ?_, ?_, ?_⟩
    · show firstValues (Function.update s.text (s.cursorIndex - 1).toNat 0) (s.length - 1).toNat = _
      rw [hless, hbefore]
      refine firstValues_eraseIdx (by omega) (fun k hk => Function.update_of_ne (by omega) _ _) ?_
      intro k hk hlast
      rw [← hend'] at hlast
      omega
    · show Function.update s.text (s.cursorIndex - 1).toNat 0 (s.length - 1).toNat = 0
      rw [hend', Function.update_self]
    · show ((s.access _).put (s.cursorIndex - 1) 0).InBounds ↔ _
      rw [inBounds_put, inBounds_access, hbefore]
      exact ⟨fun h => h.2.2, fun h => ⟨by show _ < s.capacity.toNat; omega, by omega, h⟩⟩
  · rename_i hmiddle
    have hmiddle' : s.cursorIndex.toNat ≠ s.length.toNat := fun h =>
      hmiddle (BitVec.eq_of_toNat_eq h)
    have hsum : s.cursorIndex.toNat + (s.length - s.cursorIndex).toNat = s.length.toNat := by
      rw [BitVec.toNat_sub_of_le (by rw [BitVec.le_def]; exact hcursor)]
      omega
    obtain ⟨hlen, hcap, hcur, hshift⟩ := shiftLeft_same (n := (s.length - s.cursorIndex).toNat)
      (i := s.cursorIndex) (s := s.access (s.cursorIndex - 1))
    have htext (k : Nat) := text_shiftLeft (s := s.access (s.cursorIndex - 1)) (k := k)
      (n := (s.length - s.cursorIndex).toNat) hzero (by omega)
    have hin := inBounds_shiftLeft (s := s.access (s.cursorIndex - 1))
      (n := (s.length - s.cursorIndex).toNat) hzero (by omega)
      (by show _ ≤ s.capacity.toNat; omega)
    rw [hsum] at htext
    show Removed s
      (let t := shiftLeft (s.length - s.cursorIndex).toNat s.cursorIndex
        (s.access (s.cursorIndex - 1))
      { ({ t with length := t.length - 1 } : TextInput).put (t.length - 1) 0 with
        cursorIndex := t.cursorIndex - 1 })
    generalize shiftLeft (s.length - s.cursorIndex).toNat s.cursorIndex
      (s.access (s.cursorIndex - 1)) = t at *
    have hlen' : t.length = s.length := hlen
    have hcur' : t.cursorIndex = s.cursorIndex := hcur
    have hcap' : t.capacity = s.capacity := hcap
    refine ⟨?_, hcap, ?_, hshift, ?_, ?_, ?_⟩
    · show (t.length - 1).toNat = _
      rw [hlen', hless]
    · show (t.cursorIndex - 1).toNat = _
      rw [hcur', hbefore]
    · show firstValues (Function.update t.text (t.length - 1).toNat 0) (t.length - 1).toNat = _
      rw [hlen', hless]
      refine firstValues_eraseIdx (by omega) (fun k hk => ?_) (fun k hk hlast => ?_)
      · rw [Function.update_of_ne (by omega), htext, if_neg (by omega)]
        rfl
      · rw [Function.update_of_ne (by omega), htext, if_pos (by omega)]
        rfl
    · exact Function.update_self ..
    · show (({ t with length := t.length - 1 } : TextInput).put (t.length - 1) 0).InBounds ↔ _
      rw [inBounds_put]
      show (t.length - 1).toNat < t.capacity.toNat ∧ t.InBounds ↔ _
      rw [hin, inBounds_access, hlen', hcap', hless, hbefore]
      exact ⟨fun h => h.2.2, fun h => ⟨by omega, by omega, h⟩⟩

end

end TextInput

end ZOs.Compositor
