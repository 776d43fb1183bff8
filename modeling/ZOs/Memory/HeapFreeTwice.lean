import ZOs.Memory.HeapSizes

/-!
# Freeing twice

`block_allocator_free` rejects an address whose header is not marked as a
used block. A block that has been merged into the one before it keeps the
header it had, so what the test makes of a second call depends on the
neighbour at the first one.
-/

namespace ZOs.BlockAllocator

open Runs

variable {σ : Type}

/-- What `block_allocator_free` asks of a header. -/
def Heap.IsUsed (h : Heap σ) (x : Nat) : Prop :=
  (h.info x).magic = blockAllocatorBlockMagic ∧ (h.info x).isFree = 0

/-- The block before `x` is free. -/
def PrevFree (h : Heap σ) (x : Nat) : Prop :=
  (h.headers x).prevPtr ≠ 0 ∧ (h.headers (h.headers x).prevPtr).isFree ≠ 0

section
variable {env : AddressSpace σ} {h h' : Heap σ} {xs fs l r : List Nat} {e a b p x n v : Nat}

/-! ## The header that is left behind -/

theorem modify_self {f : BlockHeader → BlockHeader} :
    (h.modify a f).headers a = f (h.headers a) := Function.update_self ..

theorem isUsed_of_info (hinfo : h'.info = h.info) : h'.IsUsed b ↔ h.IsUsed b := by
  unfold Heap.IsUsed
  rw [hinfo]

/-- The room a block takes is no part of a mark. -/
theorem grow_isUsed : (h.grow p v n).IsUsed b ↔ h.IsUsed b := by
  unfold Heap.IsUsed
  rw [grow_info]
  by_cases hb : b = p
  · rw [hb, Function.update_self]
  · rw [Function.update_of_ne hb]

theorem removeBlockFromBlockList_isUsed : (removeBlockFromBlockList h a).IsUsed b ↔ h.IsUsed b :=
  isUsed_of_info (removeBlockFromBlockList_keeps h a).info

theorem removeBlockFromFreeList_isUsed : (removeBlockFromFreeList h a).IsUsed b ↔ h.IsUsed b :=
  isUsed_of_info (removeBlockFromFreeList_keeps h a).info

theorem addBlockToFreeList_isUsed :
    ¬ (addBlockToFreeList (h.modify b fun c => { c with isFree := 1 }) b).IsUsed b := by
  rw [isUsed_of_info (addBlockToFreeList_keeps _ b).info]
  unfold Heap.IsUsed
  rw [info_modify_update, Function.update_self]
  exact fun hused => absurd hused.2 Nat.one_ne_zero

/-- A block that is taken out of the block list has no neighbours. -/
theorem removeBlockFromBlockList_prevPtr :
    ((removeBlockFromBlockList h b).headers b).prevPtr = 0 := by
  unfold removeBlockFromBlockList
  rw [modify_self]

/-- The assertion of a call that returns. -/
theorem active_of_free (hp : p ≠ 0) (hcall : blockAllocatorFree env h p = some h') :
    env.vmapIsActive h.space = true := by
  by_contra hactive
  unfold blockAllocatorFree at hcall
  rw [if_neg hp, if_neg hactive] at hcall
  cases hcall

/-- A block that is not merged into the one before it is marked as free. -/
theorem releaseBlock_free (hprev : ¬ PrevFree h b) : ¬ (releaseBlock h b).IsUsed b := by
  unfold PrevFree at hprev
  unfold releaseBlock
  dsimp only
  rw [if_neg fun hboth => hprev hboth.1, if_neg hprev]
  split <;> exact addBlockToFreeList_isUsed

/-- A block that is merged into the one before it keeps its mark, and is
alone. -/
theorem releaseBlock_merged (hprev : PrevFree h b) :
    ((releaseBlock h b).IsUsed b ↔ h.IsUsed b) ∧ ¬ PrevFree (releaseBlock h b) b := by
  have halone : ∀ g : Heap σ, ¬ PrevFree (removeBlockFromBlockList g b) b :=
    fun g hfree => hfree.1 removeBlockFromBlockList_prevPtr
  unfold PrevFree at hprev
  unfold releaseBlock
  dsimp only
  by_cases hnext : (h.headers b).nextPtr ≠ 0 ∧ (h.headers (h.headers b).nextPtr).isFree ≠ 0
  · rw [if_pos ⟨hprev, hnext⟩]
    refine ⟨?_, halone _⟩
    rw [removeBlockFromBlockList_isUsed, removeBlockFromBlockList_isUsed,
      removeBlockFromFreeList_isUsed]
    exact grow_isUsed
  · rw [if_neg fun hboth => hnext hboth.2, if_pos hprev]
    refine ⟨?_, halone _⟩
    rw [removeBlockFromBlockList_isUsed]
    exact grow_isUsed

/-! ## The second call -/

theorem sub64_header (hx : x + headerSize ≤ 2 ^ 64) : sub64 (x + headerSize) headerSize = x := by
  unfold sub64 headerSize at *
  omega

theorem blockAllocatorFree_used (hx : x + headerSize ≤ 2 ^ 64)
    (hactive : env.vmapIsActive h.space = true) (hused : h.IsUsed x) :
    blockAllocatorFree env h (x + headerSize) = some (releaseBlock h x) := by
  have hne : x + headerSize ≠ 0 := Nat.succ_ne_zero (x + 55)
  unfold blockAllocatorFree
  rw [if_neg hne, if_pos hactive, sub64_header hx]
  exact if_neg fun hrejected => hrejected.elim (fun hm => hm hused.1) fun hf => hf hused.2

theorem blockAllocatorFree_rejected (hx : x + headerSize ≤ 2 ^ 64)
    (hactive : env.vmapIsActive h.space = true) (hused : ¬ h.IsUsed x) :
    blockAllocatorFree env h (x + headerSize) = some h := by
  have hne : x + headerSize ≠ 0 := Nat.succ_ne_zero (x + 55)
  unfold blockAllocatorFree
  rw [if_neg hne, if_pos hactive, sub64_header hx]
  exact if_pos (not_and_or.mp hused)

/-- The second call changes nothing exactly if the first one has marked the
header as free. -/
theorem blockAllocatorFree_twice (hx : b + headerSize ≤ 2 ^ 64)
    (hactive : env.vmapIsActive (releaseBlock h b).space = true) (hused : h.IsUsed b) :
    blockAllocatorFree env (releaseBlock h b) (b + headerSize) = some (releaseBlock h b) ↔
      ¬ PrevFree h b := by
  by_cases hprev : PrevFree h b
  · -- the old header passes the test, and becomes a free block of its own
    obtain ⟨hkept, halone⟩ := releaseBlock_merged hprev
    have hagain := releaseBlock_free halone
    have hcall := blockAllocatorFree_used hx hactive (hkept.mpr hused)
    constructor
    · intro hsame
      rw [hcall, Option.some.injEq] at hsame
      rw [hsame] at hagain
      exact absurd (hkept.mpr hused) hagain
    · exact fun hnot => absurd hprev hnot
  · exact iff_of_true (blockAllocatorFree_rejected hx hactive (releaseBlock_free hprev)) hprev

/-- **Freeing twice**: in every state of the kernel heap whose calls so far
have been honoured, a second call for a live allocation changes nothing
exactly if the block before it was not free at the first one. -/
theorem freeTwice_harmless_iff (env : AddressSpace σ) (history : List (State σ × Event))
    (s : State σ) (hrun : Run (Started env) (Call env) history s)
    (hfits : ∀ q ∈ history, SizeFits env q.1 q.2) (p : Nat) (hlive : p ∈ s.live.map Prod.fst)
    (h₁ : Heap σ) (hfree : blockAllocatorFree env s.heap p = some h₁) :
    blockAllocatorFree env h₁ p = some h₁ ↔ ¬ PrevFree s.heap (sub64 p headerSize) := by
  obtain ⟨⟨xs, fs, e, hs, hapart, hl⟩, _⟩ := bounded_of_fits hrun hfits
  obtain ⟨q, hq, rfl⟩ := List.mem_map.mp hlive
  obtain ⟨b, hb, haddr, hfreeNot, _⟩ := hl.block q hq
  have hactive := active_of_free (by rw [haddr]; exact Nat.succ_ne_zero (b + 55)) hfree
  obtain ⟨_, hhi, hfits64⟩ := hs.bounds hb
  have hx : b + headerSize ≤ 2 ^ 64 := by omega
  have hused : s.heap.IsUsed b :=
    ⟨(hs.header b hb).magic, (hs.header b hb).isFree.resolve_right hfreeNot⟩
  obtain ⟨l, r, rfl⟩ := List.append_of_mem hb
  have hspace := (outside_eq (releaseBlock_spec hs hapart hfreeNot).outside).2.2
  rw [haddr, blockAllocatorFree_used hx hactive hused, Option.some.injEq] at hfree
  rw [haddr, ← hfree, sub64_header hx]
  exact blockAllocatorFree_twice hx (by rw [hspace]; exact hactive) hused

end

/-! ## Evaluated runs -/

theorem Step.call {env : AddressSpace σ} {s s' : State σ} {event : Event}
    (hstep : Step env s event s') : Call env s event s' := by
  cases hstep with
  | allocate hfits hcall => exact .allocate (by omega) hcall
  | free hlive hcall => exact .step (fun _ heq => by cases heq) (.free hlive hcall)
  | write hkeep => exact .step (fun _ heq => by cases heq) (.write hkeep)

/-- One call, where an allocation finds a free block. -/
def runFound (env : AddressSpace σ) (s : State σ) (event : Event) : Option (State σ) :=
  match event with
  | .allocate size =>
    if (findFreeBlock s.heap size).any (· ≠ 0) then runEvent env s (.allocate size) else none
  | event => runEvent env s event

theorem runFound_step (env : AddressSpace σ) (s : State σ) (event : Event) (s' : State σ)
    (h : runFound env s event = some s') : SizeFits env s event ∧ Call env s event s' := by
  cases event with
  | allocate size =>
    simp only [runFound] at h
    split at h
    · rename_i hfound
      obtain ⟨x, hfind, hx⟩ := (Option.any_eq_true _ _).mp hfound
      exact ⟨.inl ⟨x, hfind, of_decide_eq_true hx⟩, (runEvent_step env s _ s' h).call⟩
    · cases h
  | free address => exact ⟨trivial, (runEvent_step env s (.free address) s' h).call⟩
  | write headers => exact ⟨trivial, (runEvent_step env s (.write headers) s' h).call⟩

/-- The first block of the heap has none before it. -/
theorem firstBlock_freeTwice : ∃ history s h₁, Run (Started pageSpace) (Call pageSpace) history s ∧
    blockAllocatorFree pageSpace s.heap 0xffffffffa0000038 = some h₁ ∧
    blockAllocatorFree pageSpace h₁ 0xffffffffa0000038 = some h₁ := by
  obtain ⟨history, s, hrun, hs⟩ := Run.of_check (runFound_step pageSpace) kernelHeap_started
    [.allocate 100]
    (fun s => s.live = [(0xffffffffa0000038, 100)] ∧
      (s.heap.headers 0xffffffffa0000000).prevPtr = 0 ∧
      (blockAllocatorFree pageSpace s.heap 0xffffffffa0000038).isSome) (by decide +kernel)
  obtain ⟨hlive, hprev, hsome⟩ := of_decide_eq_true hs
  obtain ⟨hcalls, hfits⟩ := hrun.split
  obtain ⟨h₁, hfree⟩ := Option.isSome_iff_exists.mp hsome
  refine ⟨history, s, h₁, hcalls, hfree, ?_⟩
  refine (freeTwice_harmless_iff pageSpace history s hcalls hfits _ ?_ h₁ hfree).mpr ?_
  · rw [hlive]
    exact List.mem_cons_self
  · exact fun hfree => hfree.1 hprev

/-- Of two blocks the first is freed, and then the second one twice. -/
theorem mergedBlock_freedAgain : ∃ history s h₁,
    Run (Started pageSpace) (Call pageSpace) history s ∧
    0xffffffffa00000d4 ∈ s.live.map Prod.fst ∧
    blockAllocatorFree pageSpace s.heap 0xffffffffa00000d4 = some h₁ ∧
    blockAllocatorFree pageSpace h₁ 0xffffffffa00000d4 ≠ some h₁ := by
  obtain ⟨history, s, hrun, hs⟩ := Run.of_check (runFound_step pageSpace) kernelHeap_started
    [.allocate 100, .allocate 100, .free 0xffffffffa0000038]
    (fun s => s.live = [(0xffffffffa00000d4, 100)] ∧
      (blockAllocatorFree pageSpace s.heap 0xffffffffa00000d4).any fun h₁ =>
        (blockAllocatorFree pageSpace h₁ 0xffffffffa00000d4).any fun h₂ =>
          h₁.freeListHead = 0xffffffffa0000000 ∧ h₂.freeListHead = 0xffffffffa000009c)
    (by decide +kernel)
  obtain ⟨hlive, hfrees⟩ := of_decide_eq_true hs
  obtain ⟨h₁, hfree, hagain⟩ := (Option.any_eq_true _ _).mp hfrees
  obtain ⟨h₂, hcall, hheads⟩ := (Option.any_eq_true _ _).mp hagain
  obtain ⟨hhead₁, hhead₂⟩ := of_decide_eq_true hheads
  refine ⟨history, s, h₁, hrun.split.1, ?_, hfree, fun hsame => ?_⟩
  · rw [hlive]
    exact List.mem_cons_self
  · rw [hcall, Option.some.injEq] at hsame
    rw [hsame, hhead₁] at hhead₂
    cases hhead₂

end ZOs.BlockAllocator
