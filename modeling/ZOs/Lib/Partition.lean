import Mathlib.Data.List.Nodup
import Mathlib.Data.List.Perm.Basic
import Mathlib.Data.Set.Basic
import Mathlib.Logic.Function.Basic

/-!
# Partitions of a set by a list of blocks

A list of blocks partitions a set when the blocks are pairwise disjoint
and together cover exactly the set. Counting, for each point, the blocks
that contain it turns this into one equation (`isPartition_iff`): the
count is 1 on the set and 0 off it. Moving, splitting and joining blocks
are then sums.
-/

namespace Partition

variable {α β : Type*}

/-- How many blocks of the list contain `a`. -/
def coverCount (covers : β → α → Bool) (bs : List β) (a : α) : Nat :=
  bs.countP (covers · a)

/-- The blocks are pairwise disjoint and their union is exactly `S`. -/
structure IsPartition (covers : β → α → Bool) (bs : List β) (S : Set α) : Prop where
  disjoint : bs.Pairwise fun b c => ∀ a, ¬ (covers b a = true ∧ covers c a = true)
  union : ∀ a, a ∈ S ↔ ∃ b ∈ bs, covers b a = true

variable {covers : β → α → Bool} {bs cs : List β} {b c d : β} {S : Set α} {a : α}

@[simp] theorem coverCount_cons :
    coverCount covers (b :: bs) a = coverCount covers bs a + if covers b a then 1 else 0 := by
  simp [coverCount, List.countP_cons]

theorem coverCount_perm (h : bs.Perm cs) (a : α) :
    coverCount covers bs a = coverCount covers cs a :=
  h.countP_eq _

theorem coverCount_pos_iff : 0 < coverCount covers bs a ↔ ∃ b ∈ bs, covers b a = true := by
  simp [coverCount, List.countP_pos_iff]

theorem pairwise_iff_coverCount_le_one :
    (bs.Pairwise fun b c => ∀ a, ¬ (covers b a = true ∧ covers c a = true)) ↔
      ∀ a, coverCount covers bs a ≤ 1 := by
  induction bs with
  | nil => simp [coverCount]
  | cons b bs ih =>
    rw [List.pairwise_cons, ih]
    constructor
    · rintro ⟨hb, hbs⟩ a
      rw [coverCount_cons]
      by_cases hba : covers b a = true
      · have h0 : ¬ 0 < coverCount covers bs a := by
          rw [coverCount_pos_iff]
          rintro ⟨c, hc, hca⟩
          exact hb c hc a ⟨hba, hca⟩
        simp only [hba, if_true]
        omega
      · simpa [hba] using hbs a
    · intro h
      refine ⟨fun c hc a ⟨hba, hca⟩ => ?_, fun a => ?_⟩
      · have hpos : 0 < coverCount covers bs a := coverCount_pos_iff.mpr ⟨c, hc, hca⟩
        have h1 := h a
        rw [coverCount_cons, if_pos hba] at h1
        omega
      · have h1 := h a
        rw [coverCount_cons] at h1
        omega

open Classical in
/-- A partition, as one count for each point. -/
theorem isPartition_iff :
    IsPartition covers bs S ↔ ∀ a, coverCount covers bs a = if a ∈ S then 1 else 0 := by
  constructor
  · rintro ⟨hd, hu⟩ a
    have hle := pairwise_iff_coverCount_le_one.mp hd a
    have hpos : 0 < coverCount covers bs a ↔ a ∈ S := coverCount_pos_iff.trans (hu a).symm
    by_cases ha : a ∈ S
    · have := hpos.mpr ha
      simp only [ha, if_true]
      omega
    · have : ¬ 0 < coverCount covers bs a := fun h => ha (hpos.mp h)
      simp only [ha, if_false]
      omega
  · intro h
    refine ⟨pairwise_iff_coverCount_le_one.mpr fun a => ?_, fun a => ?_⟩
    · rw [h a]
      split <;> omega
    · rw [← coverCount_pos_iff, h a]
      split <;> simp [*]

theorem IsPartition.perm (h : IsPartition covers bs S) (hp : bs.Perm cs) :
    IsPartition covers cs S := by
  classical
  rw [isPartition_iff] at h ⊢
  intro a
  rw [← coverCount_perm hp, h a]

/-- Two disjoint blocks that together are `b` may stand for it, and it for
them. -/
theorem isPartition_split_iff
    (hsplit : ∀ a, (if covers b a then 1 else 0)
      = (if covers c a then 1 else 0) + if covers d a then 1 else 0) :
    IsPartition covers (b :: bs) S ↔ IsPartition covers (c :: d :: bs) S := by
  classical
  simp only [isPartition_iff, coverCount_cons, hsplit]
  refine forall_congr' fun a => ?_
  rw [Nat.add_assoc, Nat.add_comm (if covers d a then 1 else 0)]

theorem IsPartition.mem_of_covers (h : IsPartition covers bs S) (hb : b ∈ bs)
    (hba : covers b a = true) : a ∈ S :=
  (h.union a).mpr ⟨b, hb, hba⟩

/-- A block of new points extends the partition. -/
theorem IsPartition.cons (h : IsPartition covers bs S) (hb : ∀ a ∈ S, covers b a = false) :
    IsPartition covers (b :: bs) (S ∪ {a | covers b a = true}) where
  disjoint := by
    refine List.pairwise_cons.mpr ⟨fun c hc a ⟨hba, hca⟩ => ?_, h.disjoint⟩
    rw [hb a (h.mem_of_covers hc hca)] at hba
    exact Bool.noConfusion hba
  union := fun a => by
    simp only [Set.mem_union, Set.mem_ofPred_eq, List.mem_cons, exists_eq_or_imp, h.union a,
      or_comm]

/-- A block that is first in the list shares no point with a later one. -/
theorem IsPartition.head_disjoint (h : IsPartition covers (b :: bs) S) (hc : c ∈ bs)
    (hba : covers b a = true) : covers c a = false := by
  have := (List.pairwise_cons.mp h.disjoint).1 c hc a
  simpa [hba] using this

/-- Replacing the list of one index by a list with one more element adds
that element to the concatenation. -/
theorem flatMap_update_perm {ι : Type*} [DecidableEq ι] {f : ι → List β} {k : ι} {g : List β}
    {l : List ι} (hnd : l.Nodup) (hk : k ∈ l) (hg : g.Perm (b :: f k)) :
    (l.flatMap (Function.update f k g)).Perm (b :: l.flatMap f) := by
  induction l with
  | nil => simp at hk
  | cons i l ih =>
    obtain ⟨hi, hnd'⟩ := List.nodup_cons.mp hnd
    simp only [List.flatMap_cons]
    by_cases hik : i = k
    · subst hik
      have hrest : l.flatMap (Function.update f i g) = l.flatMap f := by
        refine List.flatMap_congr fun j hj => ?_
        rw [Function.update_of_ne (fun hji => hi (by rwa [← hji]))]
      rw [Function.update_self, hrest, ← List.cons_append]
      exact hg.append_right _
    · rw [Function.update_of_ne hik]
      have hkl : k ∈ l := (List.mem_cons.mp hk).resolve_left fun h => hik h.symm
      exact ((ih hnd' hkl).append_left _).trans List.perm_middle

end Partition
