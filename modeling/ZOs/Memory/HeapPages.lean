import ZOs.Memory.HeapSizes

/-!
# What the heap asks its address space for

Of the steps of a heap, only an allocation that finds no free block reaches
the address space, and all it does there is the loop that adds pages at the
end.
-/

namespace ZOs.BlockAllocator

variable {σ : Type}

/-- What a step of the heap leaves of its address space, and where the heap
ends then: both as they were, or the pages for a block of `size` bytes have
been asked for at the end. -/
structure Reached (env : AddressSpace σ) (h h' : Heap σ) : Prop where
  base : h'.virtualBase = h.virtualBase
  flags : h'.pageFlags = h.pageFlags
  space : (h'.space = h.space ∧ heapEnd h' = heapEnd h) ∨
    ∃ size ok, size + headerSize + heapEnd h < 2 ^ 64 ∧
      growth env h (heapEnd h) size = (ok, h'.space) ∧
      heapEnd h' = if ok then heapEnd h + numPages size * 4096 else heapEnd h

section
variable {env : AddressSpace σ} {h h' : Heap σ} {xs fs : List Nat} {e p size : Nat}
  {s s' : State σ} {event : Event}

theorem Reached.of_outside {xs' fs' : List Nat} (hs : Shape env h xs fs e)
    (hs' : Shape env h' xs' fs' e) (ho : h'.outside = h.outside) : Reached env h h' := by
  obtain ⟨hbase, hflags, hspace⟩ := outside_eq ho
  exact ⟨hbase, hflags, .inl ⟨hspace, by rw [heapEnd_eq hs, heapEnd_eq hs']⟩⟩

/-- A block that is built keeps the address space it is built in. -/
theorem findOrCreateFreeBlock_grown (hs : Shape env h xs fs e) (he : e < 2 ^ 64)
    (hfind : findFreeBlock h size = some 0) (hgrown : (growth env h e size).1 = true) :
    ∃ h₁, findOrCreateFreeBlock env h size = some (e, h₁) ∧
      h₁.outside = Heap.outside { h with space := (growth env h e size).2 } := by
  obtain rfl | ⟨l, last, rfl⟩ := List.eq_nil_or_concat xs
  · exact absurd rfl hs.nonempty
  rw [List.concat_eq_append] at hs
  have hcall := findOrCreateFreeBlock_grow hs he hfind
  rw [if_pos hgrown] at hcall
  exact ⟨_, hcall, (addBlockToFreeList_keeps _ _).outside.trans
    (buildBlock_outside (hs.ne_zero (by simp)))⟩

theorem Shape.allocate_reached (hs : Shape env h xs fs e) (hapart : Apart h.Free xs)
    (hactive : env.vmapIsActive h.space = true) (hfits : size + headerSize + e < 2 ^ 64)
    (hcall : blockAllocatorAllocate env h size = some (p, h')) : Reached env h h' := by
  have he : e < 2 ^ 64 := Nat.lt_of_le_of_lt (Nat.le_add_left ..) hfits
  have hend : heapEnd h = e := heapEnd_eq hs
  obtain ⟨x, hfind, _⟩ := findFreeBlock_spec hs size
  by_cases hx : x = 0
  · rw [hx] at hfind
    cases hgrown : (growth env h e size).1 with
    | true =>
      obtain ⟨h₁, hblock, ho⟩ := findOrCreateFreeBlock_grown hs he hfind hgrown
      obtain ⟨h₂, hcall₂, hout⟩ :=
        blockAllocatorAllocate_appended hs hapart hactive he hfind (Nat.le_of_lt hfits) hgrown
      rw [hcall₂, Option.some.injEq, Prod.mk.injEq] at hcall
      obtain ⟨-, rfl⟩ := hcall
      have he0 : e ≠ 0 := Nat.ne_of_gt (Nat.lt_of_le_of_lt (Nat.zero_le _) (hs.header_fits he).1)
      rw [blockAllocatorAllocate_of_find hactive hblock, if_neg he0, Option.some.injEq,
        Prod.mk.injEq] at hcall₂
      have hspace : h₂.space = (growth env h e size).2 := by
        rw [← hcall₂.2]
        exact (outside_eq handOut_outside).2.2.trans (outside_eq ho).2.2
      refine ⟨hout.base, hout.flags, .inr ⟨size, true, by rwa [hend], ?_, ?_⟩⟩
      · rw [hend, hspace, ← hgrown]
      · rw [hend]
        exact hout.heapEnd_eq
    | false =>
      rw [blockAllocatorAllocate_refused hs hactive he hfind hgrown, Option.some.injEq,
        Prod.mk.injEq] at hcall
      obtain ⟨-, rfl⟩ := hcall
      have hs' := hs.space fun a ha => growth_keeps env h e size ha
      refine ⟨rfl, rfl, .inr ⟨size, false, by rwa [hend], ?_, ?_⟩⟩
      · rw [hend, ← hgrown]
      · rw [hend]
        exact heapEnd_eq hs'
  · obtain ⟨h₂, hcall₂, hout⟩ := blockAllocatorAllocate_found hs hapart hactive he hfind hx
    rw [hcall₂, Option.some.injEq, Prod.mk.injEq] at hcall
    obtain ⟨-, rfl⟩ := hcall
    obtain ⟨_, _, hs', _⟩ := hout.shape
    rw [blockAllocatorAllocate_of_find hactive (findOrCreateFreeBlock_found hfind hx), if_neg hx,
      Option.some.injEq, Prod.mk.injEq] at hcall₂
    apply Reached.of_outside hs hs'
    rw [← hcall₂.2]
    exact handOut_outside

theorem Shape.free_reached {live : List (Nat × Nat)} (hs : Shape env h xs fs e)
    (hapart : Apart h.Free xs) (hl : LiveOk h xs live)
    (hactive : env.vmapIsActive h.space = true) (hlive : p = 0 ∨ p ∈ live.map Prod.fst)
    (hcall : blockAllocatorFree env h p = some h') : Reached env h h' := by
  rcases hlive with hzero | hmem
  · unfold blockAllocatorFree at hcall
    rw [if_pos hzero, Option.some.injEq] at hcall
    subst hcall
    exact .of_outside hs hs rfl
  · obtain ⟨q, hq, rfl⟩ := List.mem_map.mp hmem
    obtain ⟨b, hb, haddr, hused, _⟩ := hl.block q hq
    obtain ⟨l, r, rfl⟩ := List.append_of_mem hb
    obtain ⟨h₁, hfree, hreleased⟩ := blockAllocatorFree_spec hs hapart hused hactive
    rw [haddr, hfree, Option.some.injEq] at hcall
    subst hcall
    obtain ⟨⟨_, _, hs', _⟩, ho⟩ := hreleased
    exact .of_outside hs hs' ho

/-- What a step of a heap in an active address space reaches. -/
theorem Step.reached (hi : Ordered env s) (hactive : env.vmapIsActive s.heap.space = true)
    (hstep : Step env s event s') : Reached env s.heap s'.heap := by
  obtain ⟨xs, fs, e, hs, hapart, hl⟩ := hi
  cases hstep with
  | allocate hfits hcall =>
    rw [heapEnd_eq hs] at hfits
    exact hs.allocate_reached hapart hactive hfits hcall
  | free hlive hcall => exact hs.free_reached hapart hl hactive hlive hcall
  | write hkeep => exact .of_outside hs (hs.write hapart hl hkeep).1 rfl

end

end ZOs.BlockAllocator
