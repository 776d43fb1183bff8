import ZOs.Lib.Run
import ZOs.Utils.ByteRing

/-!
# The vector

`vector.c`. A block of `kmalloc` has a size, and an access behind it is an
`Overrun`. What `kmalloc` answers is an argument: nothing, or what happens to
be in the block. Pointers that are arguments are not NULL.

The capacity is changed before the block is allocated. As long as no
allocation fails that does not matter, and the vector is a list; an
allocation that fails leaves a capacity that the block does not have.
-/

namespace ZOs.Utils

open Patches Runs

/-! ## Blocks -/

structure Block where
  size : Nat
  bytes : Nat → Byte

/-- An access behind the end of a block. -/
inductive Overrun
  | read
  | write
  deriving DecidableEq

/-- `n` bytes from a place on. -/
def Block.read (b : Block) (offset n : Nat) : Except Overrun (Nat → Byte) :=
  if offset + n ≤ b.size then .ok fun k => b.bytes (offset + k) else .error .read

def Block.write (b : Block) (offset n : Nat) (source : Nat → Byte) : Except Overrun Block :=
  if offset + n ≤ b.size then .ok { b with bytes := (Patch.mk offset n source).store b.bytes }
  else .error .write

abbrev Kmalloc := Option (Nat → Byte)

/-! ## The vector -/

/-- `vector_t`, with its block. -/
structure ByteVector where
  data : Block
  size : Word
  capacity : Word
  elementSize : Word

/-- `vector_init`. -/
def vectorInit (capacity elementSize : Word) (kmalloc : Kmalloc) : Option ByteVector :=
  if capacity = 0 then none
  else kmalloc.map fun bytes =>
    { data := ⟨(capacity * elementSize).toNat, bytes⟩
      size := 0
      capacity
      elementSize }

namespace ByteVector

variable (v : ByteVector)

/-- The end of `expand_capacity` and `shrink_capacity`: a new block for the
capacity. -/
def reallocate (kmalloc : Kmalloc) : Except Overrun (Int × ByteVector) :=
  match kmalloc with
  | none => .ok (-1, v)
  | some bytes => do
    let data : Block := ⟨(v.capacity * v.elementSize).toNat, bytes⟩
    let n := (v.size * v.elementSize).toNat
    let source ← v.data.read 0 n
    let data ← data.write 0 n source
    return (0, { v with data })

/-- `expand_capacity`. -/
def expandCapacity (kmalloc : Kmalloc) : Except Overrun (Int × ByteVector) :=
  { v with capacity := v.capacity * 2 }.reallocate kmalloc

/-- `shrink_capacity`. -/
def shrinkCapacity (kmalloc : Kmalloc) : Except Overrun (Int × ByteVector) :=
  if v.capacity / 2 ≤ v.size then .ok (0, v)
  else { v with capacity := v.capacity / 2 }.reallocate kmalloc

/-- The end of `vector_push_back`. -/
def append (element : List Byte) : Except Overrun (Int × ByteVector) := do
  let data ← v.data.write (v.size * v.elementSize).toNat v.elementSize.toNat (element.getD · 0)
  return (0, { v with data, size := v.size + 1 })

/-- `vector_push_back`. -/
def vectorPushBack (element : List Byte) (kmalloc : Kmalloc) : Except Overrun (Int × ByteVector) :=
  if v.capacity ≤ v.size then do
    let (result, v) ← v.expandCapacity kmalloc
    if result < 0 then return (-1, v)
    else v.append element
  else v.append element

/-- The element at a place of the block. -/
def elementAt (offset : Nat) : Except Overrun (List Byte) := do
  let source ← v.data.read offset v.elementSize.toNat
  return (List.range v.elementSize.toNat).map source

/-- `vector_pop_back`: the result, the element that is copied and the vector. -/
def vectorPopBack (kmalloc : Kmalloc) : Except Overrun (Int × Option (List Byte) × ByteVector) :=
  if v.size = 0 then .ok (-1, none, v)
  else do
    let element ← v.elementAt ((v.size - 1) * v.elementSize).toNat
    let v := { v with size := v.size - 1 }
    if v.size < v.capacity / 2 then do
      let (result, v) ← v.shrinkCapacity kmalloc
      if result < 0 then return (-1, some element, v)
      else return (0, some element, v)
    else return (0, some element, v)

/-- `vector_get`: the place of the element in the block. -/
def vectorGet (index : Word) : Option Nat :=
  if v.size ≤ index then none else some (index * v.elementSize).toNat

/-- `vector_set`. -/
def vectorSet (index : Word) (element : List Byte) : Except Overrun (Int × ByteVector) :=
  if v.size ≤ index then .ok (-1, v)
  else do
    let data ← v.data.write (index * v.elementSize).toNat v.elementSize.toNat (element.getD · 0)
    return (0, { v with data })

end ByteVector

/-! ## Calls -/

inductive VectorCall
  | push (element : List Byte) (kmalloc : Kmalloc)
  | pop (kmalloc : Kmalloc)
  | get (index : Word)
  | set (index : Word) (element : List Byte)

/-- A call. The caller of `vector_get` reads the element. -/
def ByteVector.exec (v : ByteVector) : VectorCall → Except Overrun (Answer × ByteVector)
  | .push element kmalloc => do
    let (code, v) ← v.vectorPushBack element kmalloc
    return (⟨code, none⟩, v)
  | .pop kmalloc => do
    let (code, element, v) ← v.vectorPopBack kmalloc
    return (⟨code, element⟩, v)
  | .get index =>
    match v.vectorGet index with
    | none => .ok (⟨-1, none⟩, v)
    | some offset => do
      let element ← v.elementAt offset
      return (⟨0, some element⟩, v)
  | .set index element => do
    let (code, v) ← v.vectorSet index element
    return (⟨code, none⟩, v)

/-- What the call does to a list. -/
def listExec (l : List (List Byte)) : VectorCall → Answer × List (List Byte)
  | .push element _ => (⟨0, none⟩, l ++ [element])
  | .pop _ => (.out l.getLast?, l.dropLast)
  | .get index => (.out l[index.toNat]?, l)
  | .set index element =>
    if index.toNat < l.length then (⟨0, none⟩, l.set index.toNat element) else (⟨-1, none⟩, l)

/-- One call after the other, with their answers. -/
def ByteVector.execAll : ByteVector → List VectorCall → Except Overrun (List Answer × ByteVector)
  | v, [] => .ok ([], v)
  | v, call :: calls => do
    let (answer, v) ← v.exec call
    let (answers, v) ← v.execAll calls
    return (answer :: answers, v)

def listExecAll : List (List Byte) → List VectorCall → List Answer × List (List Byte)
  | l, [] => ([], l)
  | l, call :: calls =>
    let (answer, l) := listExec l call
    let (answers, l) := listExecAll l calls
    (answer :: answers, l)

/-! ## What the functions do -/

/-- The block is as large as the capacity says, and holds the elements. -/
structure ByteVector.Inv (v : ByteVector) : Prop where
  block : v.data.size = v.capacity.toNat * v.elementSize.toNat
  fits : v.capacity.toNat * v.elementSize.toNat < 2 ^ 64
  held : v.size.toNat * v.elementSize.toNat ≤ v.capacity.toNat * v.elementSize.toNat
  room : v.elementSize.toNat ≤ v.capacity.toNat * v.elementSize.toNat

/-- The bytes of element `i`. -/
def ByteVector.entry (v : ByteVector) (i : Nat) : List Byte :=
  (List.range v.elementSize.toNat).map fun k => v.data.bytes (i * v.elementSize.toNat + k)

/-- The elements, the first one first. -/
def ByteVector.elements (v : ByteVector) : List (List Byte) :=
  (List.range v.size.toNat).map v.entry

section
variable {v v' : ByteVector} {b : Block} {offset n : Nat} {source : Nat → Byte} {kmalloc : Kmalloc}
  {bytes : Nat → Byte} {element : List Byte}

theorem Block.read_ok (h : offset + n ≤ b.size) :
    b.read offset n = .ok fun k => b.bytes (offset + k) := if_pos h

theorem Block.write_ok (h : offset + n ≤ b.size) : b.write offset n source =
    .ok { b with bytes := (Patch.mk offset n source).store b.bytes } := if_pos h

theorem word_mul_toNat {x y : Word} (h : x.toNat * y.toNat < 2 ^ 64) :
    (x * y).toNat = x.toNat * y.toNat := by
  rw [BitVec.toNat_mul, Nat.mod_eq_of_lt h]

/-- A new block with room for the elements gets them. -/
theorem reallocate_some (v : ByteVector) (bytes : Nat → Byte)
    (hold : v.size.toNat * v.elementSize.toNat ≤ v.data.size)
    (hfits : v.capacity.toNat * v.elementSize.toNat < 2 ^ 64)
    (hheld : v.size.toNat * v.elementSize.toNat ≤ v.capacity.toNat * v.elementSize.toNat) :
    ∃ data, v.reallocate (some bytes) = .ok (0, { v with data }) ∧
      data.size = v.capacity.toNat * v.elementSize.toNat ∧
      ∀ c < v.size.toNat * v.elementSize.toNat, data.bytes c = v.data.bytes c := by
  have hn := word_mul_toNat (Nat.lt_of_le_of_lt hheld hfits)
  let copied : Patch Byte := ⟨0, (v.size * v.elementSize).toNat, fun k => v.data.bytes (0 + k)⟩
  refine ⟨⟨(v.capacity * v.elementSize).toNat, copied.store bytes⟩, ?_, word_mul_toNat hfits,
    fun c hc => ?_⟩
  · unfold ByteVector.reallocate
    dsimp only
    rw [Block.read_ok (by rw [hn, Nat.zero_add]; exact hold)]
    show (Block.write _ 0 _ _ >>= _) = _
    rw [Block.write_ok (by rw [hn, Nat.zero_add, word_mul_toNat hfits]; exact hheld)]
    rfl
  · refine store_eq (fun _ => ?_) fun hnot => absurd ?_ hnot
    · show v.data.bytes (0 + (c - 0)) = _
      rw [Nat.zero_add, Nat.sub_zero]
    · show 0 ≤ c ∧ c < 0 + (v.size * v.elementSize).toNat
      rw [hn]
      omega

/-- Twice the capacity. -/
theorem double_mul {capacity elementSize : Word}
    (h : 2 * capacity.toNat * elementSize.toNat < 2 ^ 64) :
    (capacity * 2).toNat * elementSize.toNat = 2 * (capacity.toNat * elementSize.toNat) := by
  rcases Nat.eq_zero_or_pos elementSize.toNat with hzero | hpos
  · rw [hzero]
    rfl
  · have hlt : capacity.toNat * 2 < 2 ^ 64 := by
      calc capacity.toNat * 2 = 2 * capacity.toNat * 1 := by omega
        _ ≤ 2 * capacity.toNat * elementSize.toNat := Nat.mul_le_mul_left _ hpos
        _ < 2 ^ 64 := h
    have htwo : (2 : Word).toNat = 2 := rfl
    rw [word_mul_toNat (y := 2) hlt, htwo, Nat.mul_comm _ 2, Nat.mul_assoc]

theorem word_succ_le (x : Word) : (x + 1).toNat ≤ x.toNat + 1 := by
  rw [BitVec.toNat_add]
  exact Nat.mod_le _ _

/-- The vector with another element. -/
structure Pushed (v : ByteVector) (element : List Byte) (v' : ByteVector) : Prop where
  inv : v'.Inv
  elementSize : v'.elementSize = v.elementSize
  size : v'.size = v.size + 1
  room : 0 < v.elementSize.toNat → v.size.toNat + 1 < 2 ^ 64
  kept : ∀ c < v.size.toNat * v.elementSize.toNat, v'.data.bytes c = v.data.bytes c
  new : ∀ k < v.elementSize.toNat,
    v'.data.bytes (v.size.toNat * v.elementSize.toNat + k) = element.getD k 0

/-- An element is put behind the others. -/
theorem append_pushed (h : v.Inv) (hroom : v.size.toNat * v.elementSize.toNat +
      v.elementSize.toNat ≤ v.capacity.toNat * v.elementSize.toNat)
    (hsize : 0 < v.elementSize.toNat → v.size.toNat + 1 < 2 ^ 64) (element : List Byte) :
    ∃ v', v.append element = .ok (0, v') ∧ Pushed v element v' := by
  have hfits := h.fits
  have hn := word_mul_toNat (Nat.lt_of_le_of_lt h.held h.fits)
  let stored : Patch Byte :=
    ⟨v.size.toNat * v.elementSize.toNat, v.elementSize.toNat, (element.getD · 0)⟩
  refine ⟨{ v with
    data := { v.data with bytes := stored.store v.data.bytes }, size := v.size + 1 }, ?_, ?_⟩
  · unfold ByteVector.append
    rw [hn, Block.write_ok (h.block ▸ hroom)]
    rfl
  · refine
      { inv := ⟨h.block, h.fits, ?_, h.room⟩
        elementSize := rfl
        size := rfl
        room := hsize
        kept := fun c hc => ?_
        new := fun k hk => ?_ }
    · refine Nat.le_trans ?_ hroom
      rw [← Nat.succ_mul]
      exact Nat.mul_le_mul_right _ (word_succ_le v.size)
    · refine store_eq (fun hcovers => ?_) fun _ => rfl
      exact absurd hcovers.1 (Nat.not_le_of_lt hc)
    · refine store_eq (fun _ => ?_) fun hnot => absurd ?_ hnot
      · show element.getD (_ + k - _) 0 = _
        rw [Nat.add_sub_cancel_left]
      · exact ⟨Nat.le_add_right .., Nat.add_lt_add_left hk _⟩

/-- Where the vector is full, its capacity can be doubled. -/
def ByteVector.CanGrow (v : ByteVector) (kmalloc : Kmalloc) : Prop :=
  v.capacity ≤ v.size → kmalloc ≠ none ∧ 2 * v.capacity.toNat * v.elementSize.toNat < 2 ^ 64

theorem ByteVector.Inv.push (h : v.Inv) (hgrow : v.CanGrow kmalloc) (element : List Byte) :
    ∃ v', v.vectorPushBack element kmalloc = .ok (0, v') ∧ Pushed v element v' := by
  unfold ByteVector.vectorPushBack
  have hword := v.capacity.isLt
  by_cases hfull : v.capacity ≤ v.size
  · rw [if_pos hfull]
    obtain ⟨hsome, hproduct⟩ := hgrow hfull
    obtain ⟨bytes, rfl⟩ := Option.ne_none_iff_exists'.mp hsome
    have hdouble := double_mul hproduct
    have hproduct' : 2 * (v.capacity.toNat * v.elementSize.toNat) < 2 ^ 64 := by
      rwa [← Nat.mul_assoc]
    have hheld := h.held
    have hroom := h.room
    -- the new block
    obtain ⟨data, hreallocate, hblock, hbytes⟩ := reallocate_some
      { v with capacity := v.capacity * 2 } bytes (h.block ▸ h.held)
      (by dsimp only; omega) (by dsimp only; omega)
    let v₁ : ByteVector := { v with capacity := v.capacity * 2, data }
    have h₁ : v₁.Inv := ⟨hblock, by dsimp only [v₁]; omega, by dsimp only [v₁]; omega,
      by dsimp only [v₁]; omega⟩
    obtain ⟨v', happend, hpushed⟩ := append_pushed h₁ (by dsimp only [v₁]; omega)
      (fun hpos => by
        have hle := Nat.le_of_mul_le_mul_right hheld hpos
        have hlt : 2 * v.capacity.toNat * 1 ≤ 2 * v.capacity.toNat * v.elementSize.toNat :=
          Nat.mul_le_mul_left _ hpos
        show v.size.toNat + 1 < 2 ^ 64
        omega) element
    refine ⟨v', ?_, hpushed.inv, hpushed.elementSize, hpushed.size, hpushed.room,
      fun c hc => (hpushed.kept c hc).trans (hbytes c hc), hpushed.new⟩
    unfold ByteVector.expandCapacity
    rw [hreallocate]
    exact happend
  · rw [if_neg hfull]
    have hlt : v.size.toNat < v.capacity.toNat := by
      rwa [BitVec.le_def, Nat.not_le] at hfull
    refine append_pushed h ?_ (fun _ => by omega) element
    rw [← Nat.succ_mul]
    exact Nat.mul_le_mul_right _ hlt

/-- Element `i` is in the block. -/
theorem ByteVector.Inv.entry_inside (h : v.Inv) {i : Nat} (hi : i < v.size.toNat) :
    i * v.elementSize.toNat + v.elementSize.toNat ≤ v.data.size := by
  rw [← Nat.succ_mul, h.block]
  exact Nat.le_trans (Nat.mul_le_mul_right _ hi) h.held

theorem ByteVector.Inv.offset_toNat (h : v.Inv) {index : Word}
    (hindex : index.toNat < v.size.toNat) :
    (index * v.elementSize).toNat = index.toNat * v.elementSize.toNat := by
  have hinside := h.entry_inside hindex
  have hblock := h.block
  have hfits := h.fits
  exact word_mul_toNat (by omega)

theorem ByteVector.Inv.elementAt (h : v.Inv) {index : Word} (hindex : index.toNat < v.size.toNat) :
    v.elementAt (index * v.elementSize).toNat = .ok (v.entry index.toNat) := by
  unfold ByteVector.elementAt
  rw [h.offset_toNat hindex, Block.read_ok (h.entry_inside hindex)]
  rfl

/-- The vector without its last element. -/
structure Popped (v v' : ByteVector) : Prop where
  inv : v'.Inv
  elementSize : v'.elementSize = v.elementSize
  size : v'.size = v.size - 1
  kept : ∀ c < (v.size.toNat - 1) * v.elementSize.toNat, v'.data.bytes c = v.data.bytes c

/-- If the vector gets small, it can be moved to a smaller block. -/
def ByteVector.CanShrink (v : ByteVector) (kmalloc : Kmalloc) : Prop :=
  v.size - 1 < v.capacity / 2 → kmalloc ≠ none

theorem pred_toNat {x : Word} (h : x ≠ 0) : (x - 1).toNat = x.toNat - 1 := by
  have hpos : 1 ≤ x.toNat := Nat.pos_of_ne_zero fun hzero => h (BitVec.eq_of_toNat_eq hzero)
  exact BitVec.toNat_sub_of_le (y := 1) (by rwa [BitVec.le_def])

/-- The elements that are left fit. -/
theorem ByteVector.Inv.popped (h : v.Inv) (hne : v.size ≠ 0) :
    Popped v { v with size := v.size - 1 } where
  inv := by
    refine ⟨h.block, h.fits, ?_, h.room⟩
    refine Nat.le_trans (Nat.mul_le_mul_right _ ?_) h.held
    dsimp only
    rw [pred_toNat hne]
    exact Nat.sub_le ..
  elementSize := rfl
  size := rfl
  kept _ _ := rfl

/-- So they do in the smaller block. -/
theorem Popped.shrink (h : Popped v v') (hne : v.size ≠ 0) (hsmall : v'.size < v'.capacity / 2)
    (bytes : Nat → Byte) :
    ∃ v'', v'.shrinkCapacity (some bytes) = .ok (0, v'') ∧ Popped v v'' := by
  have hhalf : (v'.capacity / 2).toNat = v'.capacity.toNat / 2 := BitVec.toNat_udiv
  have hlt : v'.size.toNat < v'.capacity.toNat / 2 := hhalf ▸ BitVec.lt_def.mp hsmall
  have hproduct : v'.capacity.toNat / 2 * v'.elementSize.toNat ≤
      v'.capacity.toNat * v'.elementSize.toNat := Nat.mul_le_mul_right _ (Nat.div_le_self ..)
  have hfits := h.inv.fits
  have hheld : v'.size.toNat * v'.elementSize.toNat ≤
      (v'.capacity / 2).toNat * v'.elementSize.toNat := by
    rw [hhalf]
    exact Nat.mul_le_mul_right _ (Nat.le_of_lt hlt)
  have hfits' : (v'.capacity / 2).toNat * v'.elementSize.toNat < 2 ^ 64 := by
    rw [hhalf]
    omega
  obtain ⟨data, hreallocate, hblock, hbytes⟩ := reallocate_some
    { v' with capacity := v'.capacity / 2 } bytes (h.inv.block ▸ h.inv.held)
    hfits' hheld
  refine ⟨_, (if_neg (BitVec.not_le.mpr hsmall)).trans hreallocate,
    ⟨hblock, hfits', hheld, ?_⟩, h.elementSize, h.size, fun c hc => ?_⟩
  · dsimp only
    rw [hhalf]
    exact Nat.le_mul_of_pos_left _ (Nat.zero_lt_of_lt hlt)
  · refine (hbytes c ?_).trans (h.kept c hc)
    dsimp only
    rwa [h.size, h.elementSize, pred_toNat hne]

theorem ByteVector.Inv.pop (h : v.Inv) (hne : v.size ≠ 0) (hshrink : v.CanShrink kmalloc) :
    ∃ v', v.vectorPopBack kmalloc = .ok (0, some (v.entry (v.size.toNat - 1)), v') ∧
      Popped v v' := by
  have hlast : (v.size - 1).toNat < v.size.toNat := by
    have hpos : v.size.toNat ≠ 0 := fun hzero => hne (BitVec.eq_of_toNat_eq hzero)
    rw [pred_toNat hne]
    omega
  have helement := h.elementAt hlast
  rw [pred_toNat hne] at helement
  unfold ByteVector.vectorPopBack
  rw [if_neg hne, helement]
  by_cases hsmall : v.size - 1 < v.capacity / 2
  · obtain ⟨bytes, rfl⟩ := Option.ne_none_iff_exists'.mp (hshrink hsmall)
    obtain ⟨v', hcall, hpopped⟩ := (h.popped hne).shrink hne hsmall bytes
    refine ⟨v', ?_, hpopped⟩
    show (if v.size - 1 < v.capacity / 2 then _ else _ : Except _ _) = _
    rw [if_pos hsmall, hcall]
    rfl
  · refine ⟨_, ?_, h.popped hne⟩
    show (if v.size - 1 < v.capacity / 2 then _ else _ : Except _ _) = _
    rw [if_neg hsmall]
    rfl

/-- The vector with an element in the place of another. -/
structure Replaced (v : ByteVector) (i : Nat) (element : List Byte) (v' : ByteVector) : Prop where
  inv : v'.Inv
  elementSize : v'.elementSize = v.elementSize
  size : v'.size = v.size
  kept : ∀ c, c < i * v.elementSize.toNat ∨ i * v.elementSize.toNat + v.elementSize.toNat ≤ c →
    v'.data.bytes c = v.data.bytes c
  new : ∀ k < v.elementSize.toNat,
    v'.data.bytes (i * v.elementSize.toNat + k) = element.getD k 0

theorem ByteVector.Inv.set (h : v.Inv) {index : Word} (hindex : index.toNat < v.size.toNat)
    (element : List Byte) :
    ∃ v', v.vectorSet index element = .ok (0, v') ∧ Replaced v index.toNat element v' := by
  let stored : Patch Byte :=
    ⟨index.toNat * v.elementSize.toNat, v.elementSize.toNat, (element.getD · 0)⟩
  refine ⟨{ v with data := { v.data with bytes := stored.store v.data.bytes } }, ?_,
    ⟨h.block, h.fits, h.held, h.room⟩, rfl, rfl, fun c hc => ?_, fun k hk => ?_⟩
  · unfold ByteVector.vectorSet
    rw [if_neg (by rwa [BitVec.le_def, Nat.not_le]), h.offset_toNat hindex,
      Block.write_ok (h.entry_inside hindex)]
    rfl
  · refine store_eq (fun hcovers => ?_) fun _ => rfl
    have hcovers : index.toNat * v.elementSize.toNat ≤ c ∧
        c < index.toNat * v.elementSize.toNat + v.elementSize.toNat := hcovers
    omega
  · refine store_eq (fun _ => ?_) fun hnot => absurd ?_ hnot
    · show element.getD (_ + k - _) 0 = _
      rw [Nat.add_sub_cancel_left]
    · exact ⟨Nat.le_add_right .., Nat.add_lt_add_left hk _⟩

/-- A new vector. -/
theorem vectorInit_some {capacity elementSize : Word}
    (hinit : vectorInit capacity elementSize kmalloc = some v) :
    capacity ≠ 0 ∧ ∃ bytes, kmalloc = some bytes ∧
      v = ⟨⟨(capacity * elementSize).toNat, bytes⟩, 0, capacity, elementSize⟩ := by
  unfold vectorInit at hinit
  split at hinit
  · cases hinit
  · rename_i hne
    obtain ⟨bytes, hsome, rfl⟩ := Option.map_eq_some_iff.mp hinit
    exact ⟨hne, bytes, hsome, rfl⟩

theorem vectorInit_inv {capacity elementSize : Word}
    (hinit : vectorInit capacity elementSize kmalloc = some v)
    (hfits : capacity.toNat * elementSize.toNat < 2 ^ 64) :
    v.Inv ∧ v.elementSize = elementSize ∧ v.size = 0 := by
  obtain ⟨hne, bytes, -, rfl⟩ := vectorInit_some hinit
  have hpos : 0 < capacity.toNat :=
    Nat.pos_of_ne_zero fun hzero => hne (BitVec.eq_of_toNat_eq hzero)
  refine ⟨⟨word_mul_toNat hfits, hfits, ?_, Nat.le_mul_of_pos_left _ hpos⟩, rfl, rfl⟩
  exact (Nat.zero_mul _).le.trans (Nat.zero_le _)

end

end ZOs.Utils
