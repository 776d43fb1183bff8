import ZOs.Utils.ByteVector

/-!
# Vector calls that fail

`expand_capacity` and `shrink_capacity` change the capacity before they know
whether there is a block for it, and `vector_pop_back` has taken the element
away by then. A call that fails there leaves a vector that is not the one
before. `vector_failed_iff`: apart from products that wrap, that is the only
way in which a vector is damaged.
-/

namespace ZOs.Utils

open Patches Runs

/-! ## Calls on a vector that may fail -/

inductive VectorAction
  | init (capacity elementSize : Word) (kmalloc : Kmalloc)
  | call (call : VectorCall)

/-- A vector is initialised once, and used then. -/
def VectorAction.Enabled : Option ByteVector → VectorAction → Prop
  | none, .init .. => True
  | some _, .call _ => True
  | _, _ => False

/-- A call that returns. A vector that could not be initialised is not there. -/
inductive VectorStep : Option ByteVector → VectorAction → Option ByteVector → Prop
  | init {capacity elementSize kmalloc} : VectorStep none (.init capacity elementSize kmalloc)
      (vectorInit capacity elementSize kmalloc)
  | call {v call answer v'} : v.exec call = .ok (answer, v') →
      VectorStep (some v) (.call call) (some v')

/-- The block has room for the capacity. -/
def ByteVector.HoldsCapacity (v : ByteVector) : Prop :=
  v.capacity.toNat * v.elementSize.toNat ≤ v.data.size

/-- The call stays inside the block, changes nothing if it fails, and leaves a
block with room for the capacity. -/
def Unharmed (s : Option ByteVector) : VectorAction → Prop
  | .init capacity elementSize kmalloc =>
    ∀ v, vectorInit capacity elementSize kmalloc = some v → v.HoldsCapacity
  | .call call => ∀ v, s = some v → ∃ answer v', v.exec call = .ok (answer, v') ∧
      (answer.code = -1 → v' = v) ∧ v'.HoldsCapacity

/-- No allocation fails that a call needs, and the size of the block that it
asks for does not wrap. -/
def ByteVector.Allocates (v : ByteVector) : VectorCall → Prop
  | .push _ kmalloc => v.capacity ≠ 0 → v.CanGrow kmalloc
  | .pop kmalloc => v.size ≠ 0 → v.CanShrink kmalloc
  | _ => True

def Supplied (s : Option ByteVector) : VectorAction → Prop
  | .init capacity elementSize kmalloc =>
    capacity ≠ 0 → kmalloc ≠ none → capacity.toNat * elementSize.toNat < 2 ^ 64
  | .call call => ∀ v, s = some v → v.Allocates call

section
variable {v v' : ByteVector} {call : VectorCall} {kmalloc : Kmalloc} {element : List Byte}
  {answer : Answer}

theorem ByteVector.Inv.holdsCapacity (h : v.Inv) : v.HoldsCapacity := h.block.ge

/-! ## Calls that get their block -/

/-- A vector without capacity has elements without bytes. -/
theorem canGrow_of_capacity_zero (hzero : v.capacity = 0) (hsome : kmalloc ≠ none) :
    v.CanGrow kmalloc := fun _ => by
  refine ⟨hsome, ?_⟩
  rw [hzero]
  show 2 * 0 * _ < _
  omega

theorem ByteVector.Inv.push_kept (h : v.Inv) (hallocates : v.Allocates (.push element kmalloc)) :
    ∃ result v', v.vectorPushBack element kmalloc = .ok (result, v') ∧
      (result = -1 → v' = v) ∧ v'.Inv := by
  have hpush (hgrow : v.CanGrow kmalloc) : ∃ result v',
      v.vectorPushBack element kmalloc = .ok (result, v') ∧ (result = -1 → v' = v) ∧ v'.Inv := by
    obtain ⟨v', hcall, hpushed⟩ := h.push hgrow element
    exact ⟨0, v', hcall, fun hcode => absurd hcode (by decide), hpushed.inv⟩
  by_cases hzero : v.capacity = 0
  · cases kmalloc with
    | some bytes => exact hpush (canGrow_of_capacity_zero hzero (by simp))
    | none =>
      -- twice nothing is nothing
      have hfull : v.capacity ≤ v.size := by
        rw [BitVec.le_def, hzero]
        exact Nat.zero_le _
      refine ⟨-1, v, ?_, fun _ => rfl, h⟩
      unfold ByteVector.vectorPushBack
      rw [if_pos hfull]
      unfold ByteVector.expandCapacity ByteVector.reallocate
      have hsame : { v with capacity := v.capacity * 2 } = v := by
        rw [hzero]
        exact congrArg (fun c => { v with capacity := c }) hzero.symm
      rw [hsame]
      rfl
  · exact hpush (hallocates hzero)

/-- A call that gets its block does no harm. -/
theorem ByteVector.Inv.exec_kept (h : v.Inv) (hallocates : v.Allocates call) :
    ∃ answer v', v.exec call = .ok (answer, v') ∧ (answer.code = -1 → v' = v) ∧ v'.Inv := by
  cases call with
  | push element kmalloc =>
    obtain ⟨result, v', hcall, hsame, h'⟩ := h.push_kept hallocates
    refine ⟨⟨result, none⟩, v', ?_, hsame, h'⟩
    unfold ByteVector.exec
    dsimp only
    rw [hcall]
    rfl
  | pop kmalloc =>
    by_cases hne : v.size = 0
    · refine ⟨⟨-1, none⟩, v, ?_, fun _ => rfl, h⟩
      unfold ByteVector.exec ByteVector.vectorPopBack
      dsimp only
      rw [if_pos hne]
      rfl
    · obtain ⟨v', hcall, hpopped⟩ := h.pop hne (hallocates hne)
      have hcode : (0 : Int) ≠ -1 := by decide
      refine ⟨⟨0, some (v.entry (v.size.toNat - 1))⟩, v', ?_, (absurd · hcode), hpopped.inv⟩
      unfold ByteVector.exec
      dsimp only
      rw [hcall]
      rfl
  | get index =>
    unfold ByteVector.exec ByteVector.vectorGet
    dsimp only
    by_cases hindex : v.size ≤ index
    · rw [if_pos hindex]
      exact ⟨_, v, rfl, fun _ => rfl, h⟩
    · rw [if_neg hindex]
      dsimp only
      rw [h.elementAt (BitVec.lt_def.mp (BitVec.not_le.mp hindex))]
      exact ⟨_, v, rfl, fun _ => rfl, h⟩
  | set index element =>
    unfold ByteVector.exec
    dsimp only
    by_cases hindex : v.size ≤ index
    · refine ⟨⟨-1, none⟩, v, ?_, fun _ => rfl, h⟩
      unfold ByteVector.vectorSet
      rw [if_pos hindex]
      rfl
    · obtain ⟨v', hcall, hreplaced⟩ :=
        h.set (BitVec.lt_def.mp (BitVec.not_le.mp hindex)) element
      refine ⟨⟨0, none⟩, v', ?_, fun hcode => absurd hcode (by decide), hreplaced.inv⟩
      rw [hcall]
      rfl

/-! ## Calls that do not -/

/-- A larger block whose size has wrapped does not take the elements. -/
theorem expand_overruns (h : v.Inv) (hfull : v.capacity ≤ v.size)
    (hwraps : 2 ^ 64 ≤ 2 * v.capacity.toNat * v.elementSize.toNat) (bytes : Nat → Byte) :
    v.expandCapacity (some bytes) = .error .write := by
  rw [Nat.mul_assoc] at hwraps
  have hfits := h.fits
  have hheld := h.held
  have hle : v.capacity.toNat * v.elementSize.toNat ≤ v.size.toNat * v.elementSize.toNat :=
    Nat.mul_le_mul_right _ (BitVec.le_def.mp hfull)
  have hn : (v.size * v.elementSize).toNat = v.size.toNat * v.elementSize.toNat :=
    word_mul_toNat (by omega)
  have hdouble : (v.capacity * 2 * v.elementSize).toNat =
      2 * (v.capacity.toNat * v.elementSize.toNat) - 2 ^ 64 := by
    have htwo : (2 : Word).toNat = 2 := rfl
    rw [BitVec.toNat_mul, BitVec.toNat_mul, Nat.mod_mul_mod, htwo, Nat.mul_comm _ 2, Nat.mul_assoc]
    omega
  unfold ByteVector.expandCapacity ByteVector.reallocate
  dsimp only
  rw [Block.read_ok (by rw [hn, Nat.zero_add, h.block]; exact hheld)]
  have houtside : ¬0 + (v.size * v.elementSize).toNat ≤ (v.capacity * 2 * v.elementSize).toNat := by
    rw [hn, hdouble]
    omega
  show (Block.write ⟨_, _⟩ 0 _ _ >>= _) = _
  rw [show Block.write ⟨(v.capacity * 2 * v.elementSize).toNat, bytes⟩ 0
    (v.size * v.elementSize).toNat _ = .error .write from if_neg houtside]
  rfl

/-- A push that does not get its block returns a failure and another vector,
or leaves the block. -/
theorem ByteVector.Inv.push_damaged (h : v.Inv)
    (hallocates : ¬v.Allocates (.push element kmalloc)) {result : Int}
    (hcall : v.vectorPushBack element kmalloc = .ok (result, v')) : result = -1 ∧ v' ≠ v := by
  obtain ⟨hne, hgrow⟩ := Classical.not_imp.mp hallocates
  obtain ⟨hfull, hblock⟩ := Classical.not_imp.mp hgrow
  unfold ByteVector.vectorPushBack at hcall
  rw [if_pos hfull] at hcall
  cases kmalloc with
  | some bytes =>
    have hwraps : 2 ^ 64 ≤ 2 * v.capacity.toNat * v.elementSize.toNat :=
      Nat.le_of_not_lt fun hlt => hblock ⟨by simp, hlt⟩
    rw [expand_overruns h hfull hwraps] at hcall
    cases hcall
  | none =>
    cases hcall
    refine ⟨rfl, fun hsame => hne ?_⟩
    have hdouble : v.capacity * 2 = v.capacity := congrArg ByteVector.capacity hsame
    bv_omega

theorem ByteVector.Inv.pop_damaged (h : v.Inv) (hallocates : ¬v.Allocates (.pop kmalloc))
    {result : Int} {popped : Option (List Byte)}
    (hcall : v.vectorPopBack kmalloc = .ok (result, popped, v')) : result = -1 ∧ v' ≠ v := by
  obtain ⟨hne, hshrink⟩ := Classical.not_imp.mp hallocates
  obtain ⟨hsmall, hnone⟩ := Classical.not_imp.mp hshrink
  cases Classical.not_not.mp hnone
  have hpos : v.size.toNat ≠ 0 := fun hzero => hne (BitVec.eq_of_toNat_eq hzero)
  have hlast : (v.size - 1).toNat < v.size.toNat := by
    rw [pred_toNat hne]
    omega
  unfold ByteVector.vectorPopBack at hcall
  rw [if_neg hne, h.elementAt hlast] at hcall
  replace hcall : (if v.size - 1 < v.capacity / 2 then _ else _ : Except _ _) = _ := hcall
  unfold ByteVector.shrinkCapacity at hcall
  rw [if_pos hsmall, if_neg (BitVec.not_le.mpr hsmall)] at hcall
  cases hcall
  refine ⟨rfl, fun hsame => ?_⟩
  have hpred : v.size - 1 = v.size := congrArg ByteVector.size hsame
  rw [hpred] at hlast
  exact Nat.lt_irrefl _ hlast

theorem ByteVector.Inv.exec_damaged (h : v.Inv) (hallocates : ¬v.Allocates call)
    (hcall : v.exec call = .ok (answer, v')) : answer.code = -1 ∧ v' ≠ v := by
  cases call with
  | push element kmalloc =>
    unfold ByteVector.exec at hcall
    dsimp only at hcall
    rcases hpush : v.vectorPushBack element kmalloc with _ | ⟨result, v₁⟩
    · rw [hpush] at hcall
      cases hcall
    · rw [hpush] at hcall
      cases hcall
      exact h.push_damaged hallocates hpush
  | pop kmalloc =>
    unfold ByteVector.exec at hcall
    dsimp only at hcall
    rcases hpop : v.vectorPopBack kmalloc with _ | ⟨result, popped, v₁⟩
    · rw [hpop] at hcall
      cases hcall
    · rw [hpop] at hcall
      cases hcall
      exact h.pop_damaged hallocates hpop
  | get index => exact absurd trivial hallocates
  | set index element => exact absurd trivial hallocates

theorem ByteVector.Inv.unharmed_iff (h : v.Inv) :
    Unharmed (some v) (.call call) ↔ Supplied (some v) (.call call) := by
  constructor
  · rintro hunharmed _ ⟨⟩
    obtain ⟨answer, v', hcall, hsame, -⟩ := hunharmed v rfl
    by_contra hallocates
    obtain ⟨hcode, hne⟩ := h.exec_damaged hallocates hcall
    exact hne (hsame hcode)
  · rintro hsupplied _ ⟨⟩
    obtain ⟨answer, v', hcall, hsame, h'⟩ := h.exec_kept (hsupplied v rfl)
    exact ⟨answer, v', hcall, hsame, h'.holdsCapacity⟩

theorem init_unharmed_iff {s : Option ByteVector} {capacity elementSize : Word} :
    Unharmed s (.init capacity elementSize kmalloc) ↔
      Supplied s (.init capacity elementSize kmalloc) := by
  constructor
  · intro hunharmed hne hsome
    obtain ⟨bytes, rfl⟩ := Option.ne_none_iff_exists'.mp hsome
    have hholds : capacity.toNat * elementSize.toNat ≤ (capacity * elementSize).toNat :=
      hunharmed _ (if_neg hne)
    exact Nat.lt_of_le_of_lt hholds (capacity * elementSize).isLt
  · intro hsupplied v hinit
    obtain ⟨hne, bytes, rfl, rfl⟩ := vectorInit_some hinit
    exact (word_mul_toNat (hsupplied hne (by simp))).ge

/-! ## Histories -/

def Sound (s : Option ByteVector) : Prop := ∀ v, s = some v → v.Inv

variable {s s' : Option ByteVector} {a : VectorAction}

theorem started (s : Option ByteVector) (h : s = none) : Sound s :=
  fun _ hv => nomatch h.symm.trans hv

theorem stepped (s : Option ByteVector) (a : VectorAction) (s' : Option ByteVector)
    (hsound : Sound s)
    (hsupplied : Supplied s a) (hstep : VectorStep s a s') : Sound s' := by
  intro v hv
  cases hstep with
  | init =>
    obtain ⟨hne, bytes, rfl, -⟩ := vectorInit_some hv
    exact (vectorInit_inv hv (hsupplied hne (by simp))).1
  | call hcall =>
    cases hv
    obtain ⟨answer, v', hcall', -, h'⟩ := (hsound _ rfl).exec_kept (hsupplied _ rfl)
    cases hcall.symm.trans hcall'
    exact h'

theorem step_enabled (s : Option ByteVector) (a : VectorAction) (s' : Option ByteVector)
    (hstep : VectorStep s a s') : a.Enabled s := by
  cases hstep <;> trivial

theorem unharmed_supplied (hsound : Sound s) (henabled : a.Enabled s) :
    Unharmed s a ↔ Supplied s a := by
  cases a with
  | init capacity elementSize kmalloc => exact init_unharmed_iff
  | call call =>
    cases s with
    | none => cases henabled
    | some v => exact (hsound v rfl).unharmed_iff

end

/-- In every history of a vector, with allocations that fail where they like,
all calls are harmless just if each of them allocates what it needs. -/
theorem vector_failed_iff (history : List (Option ByteVector × VectorAction))
    (s : Option ByteVector) (a : VectorAction) (hrun : Run (· = none) VectorStep history s)
    (henabled : a.Enabled s) :
    (∀ p ∈ (s, a) :: history, Unharmed p.1 p.2) ↔
      ∀ p ∈ (s, a) :: history, Supplied p.1 p.2 :=
  hrun.tried_iff henabled started stepped step_enabled fun _ _ => unharmed_supplied

/-- A vector with room for one byte. -/
def roomForOne : ByteVector := ⟨⟨1, fun _ => 0⟩, 0, 1, 1⟩

/-- It is full, and there is no memory for a second byte. -/
def fullOfOne : ByteVector := ⟨⟨1, (Patch.mk 0 1 ([7].getD · 0)).store fun _ => 0⟩, 1, 1, 1⟩

def fullHistory : List (Option ByteVector × VectorAction) :=
  [(some roomForOne, .call (.push [7] none)), (none, .init 1 1 (some fun _ => 0))]

theorem fullHistory_run : Run (· = none) VectorStep fullHistory (some fullOfOne) :=
  .next (.next (.start rfl) .init) (VectorStep.call (show roomForOne.exec _ =
    .ok (⟨0, none⟩, fullOfOne) from rfl))

theorem vector_failed_pop : (∀ p ∈ (some fullOfOne, .call (.pop none)) :: fullHistory,
      Unharmed p.1 p.2) ↔
    ∀ p ∈ (some fullOfOne, .call (.pop none)) :: fullHistory, Supplied p.1 p.2 :=
  vector_failed_iff fullHistory _ _ fullHistory_run trivial

/-- The failed call doubles the capacity of the full vector, and the next
push writes behind the block. -/
theorem failedPush_overruns : ¬∀ (history : List (Option ByteVector × VectorAction)) s a,
    Run (· = none) VectorStep history s → a.Enabled s →
      ∀ p ∈ (s, a) :: history, Unharmed p.1 p.2 := by
  intro hclaim
  have hfails : fullOfOne.exec (.push [8] none) =
      .ok (⟨-1, none⟩, { fullOfOne with capacity := 2 }) := rfl
  have hrun := fullHistory_run.next (.call hfails)
  obtain ⟨answer, v', hcall, -⟩ := hclaim _ _ (.call (.push [9] none)) hrun trivial _
    (List.mem_cons_self ..) _ rfl
  cases hcall

end ZOs.Utils
