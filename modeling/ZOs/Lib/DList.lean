import Mathlib.Data.List.Nodup
import Mathlib.Logic.Function.Basic
import Mathlib.Algebra.Group.Defs

/-!
# Doubly linked lists in memory

Nodes carry a link to the next and one to the previous node, `0` is the
null pointer, and a head pointer stands outside. `Links.Holds L xs` says
that the links run through `xs` forwards and backwards. The three
operations are those that C code spells out pointer by pointer: unlinking a
node, and inserting one at the head or after another.

The head counts as the next link of null, so that a list runs from null to
null and its first node is no special case.
-/

namespace LinkedMem

variable {α : Type*} [Zero α]

/-- The links of a doubly linked list. -/
structure Links (α : Type*) where
  head : α
  nxt : α → α
  prv : α → α

/-- The links run from `a` through `xs` to `b`, forwards and backwards; null
has no backward link. -/
def Linked (nxt prv : α → α) : α → List α → α → Prop
  | a, [], b => nxt a = b ∧ (b ≠ 0 → prv b = a)
  | a, x :: xs, b => nxt a = x ∧ prv x = a ∧ Linked nxt prv x xs b

variable {nxt prv nxt' prv' : α → α} {a b x y z v : α} {xs l r : List α}

/-- Only the links of the nodes on the way matter. -/
theorem Linked.congr : ∀ {a xs}, Linked nxt prv a xs b → (∀ x ∈ a :: xs, nxt' x = nxt x) →
    (∀ x ∈ xs ++ [b], x ≠ 0 → prv' x = prv x) → (∀ x ∈ xs, x ≠ 0) → Linked nxt' prv' a xs b
  | a, [], h, hn, hp, _ => by
    constructor
    · rw [hn a List.mem_cons_self]
      exact h.1
    · intro hb
      rw [hp b (by simp) hb]
      exact h.2 hb
  | a, x :: xs, h, hn, hp, hne => by
    obtain ⟨hnext, hprev, hrest⟩ := h
    refine ⟨?_, ?_, ?_⟩
    · rw [hn a List.mem_cons_self]
      exact hnext
    · rw [hp x (by simp) (hne x List.mem_cons_self)]
      exact hprev
    · exact hrest.congr (fun y hy => hn y (List.mem_cons_of_mem _ hy))
        (fun y hy => hp y (by rw [List.cons_append]; exact List.mem_cons_of_mem _ hy))
        (fun y hy => hne y (List.mem_cons_of_mem _ hy))

/-- A list can be cut at a node. -/
theorem linked_append (hy : y ≠ 0) : ∀ {a l}, Linked nxt prv a (l ++ y :: r) b ↔
    Linked nxt prv a l y ∧ Linked nxt prv y r b
  | a, [] => by
    constructor
    · intro ⟨hnext, hprev, hrest⟩
      exact ⟨⟨hnext, fun _ => hprev⟩, hrest⟩
    · intro ⟨⟨hnext, hprev⟩, hrest⟩
      exact ⟨hnext, hprev hy, hrest⟩
  | a, x :: l => by
    rw [List.cons_append]
    show _ ∧ _ ∧ Linked nxt prv x (l ++ y :: r) b ↔ (_ ∧ _ ∧ Linked nxt prv x l y) ∧ _
    rw [linked_append hy, and_assoc, and_assoc]

/-- The node before `b` is the last one of the way, or its start. -/
theorem Linked.prv_eq (hb : b ≠ 0) : ∀ {a xs}, Linked nxt prv a xs b →
    prv b = xs.getLastD a
  | a, [], h => h.2 hb
  | a, x :: xs, h => by
    rw [h.2.2.prv_eq hb, List.getLastD_cons]

/-- The node after `a` is the first one of the way, or its end. -/
theorem Linked.nxt_eq (h : Linked nxt prv a xs b) : nxt a = xs.headD b := by
  cases xs with
  | nil => exact h.1
  | cons x xs => exact h.1

/-- The node after the last one of `l` is the first one of `r`. -/
theorem Linked.nxt_last : ∀ {a l}, Linked nxt prv a (l ++ r) b → nxt (l.getLastD a) = r.headD b
  | a, [], h => h.nxt_eq
  | a, z :: l, h => by
    rw [List.getLastD_cons]
    exact h.2.2.nxt_last

section
variable [DecidableEq α]

/-- Bypass the node `y`: its neighbours are linked to each other. -/
theorem Linked.bypass (hy : y ≠ 0) : ∀ {a l}, Linked nxt prv a l y → Linked nxt prv y r b →
    (a :: (l ++ y :: r)).Nodup → b ∉ l ++ y :: r → (∀ x ∈ l ++ r, x ≠ 0) →
    Linked (Function.update nxt (prv y) (nxt y)) (Function.update prv (nxt y) (prv y)) a (l ++ r) b
  | a, [], h, hr, hnodup, hb, hne => by
    have hprev : prv y = a := h.2 hy
    have ha : a ∉ r := by
      intro hmem
      exact (List.nodup_cons.mp hnodup).1 (List.mem_cons_of_mem _ hmem)
    rw [List.nil_append, hprev]
    cases r with
    | nil =>
      obtain ⟨hnext, _⟩ := hr
      rw [hnext]
      exact ⟨Function.update_self .., fun _ => Function.update_self ..⟩
    | cons n r =>
      obtain ⟨hnext, hback, hrest⟩ := hr
      rw [hnext]
      refine ⟨Function.update_self .., Function.update_self .., ?_⟩
      have hn : n ∉ r ++ [b] := by
        intro hmem
        rcases List.mem_append.mp hmem with hmem | hmem
        · exact (List.nodup_cons.mp (List.nodup_cons.mp (List.nodup_cons.mp hnodup).2).2).1 hmem
        · rw [List.mem_singleton] at hmem
          exact hb (by rw [← hmem]; simp)
      apply hrest.congr
      · intro z hz
        apply Function.update_of_ne
        intro heq
        exact ha (heq ▸ hz)
      · intro z hz _
        apply Function.update_of_ne
        intro heq
        exact hn (heq ▸ hz)
      · intro z hz
        exact hne z (by simp [hz])
  | a, x :: l, h, hr, hnodup, hb, hne => by
    obtain ⟨hnext, hprev, hrest⟩ := h
    rw [List.cons_append, List.nodup_cons] at hnodup
    have hlast : prv y ∈ x :: l := by
      rw [hrest.prv_eq hy]
      exact List.getLastD_mem_cons
    have hfirst : nxt y ∈ r ++ [b] := by
      rw [hr.nxt_eq]
      cases r <;> simp
    rw [List.cons_append]
    refine ⟨?_, ?_, ?_⟩
    · rw [Function.update_of_ne]
      · exact hnext
      · intro heq
        apply hnodup.1
        rw [heq]
        exact List.mem_append_left _ hlast
    · rw [Function.update_of_ne]
      · exact hprev
      · intro heq
        rw [← heq] at hfirst
        rcases List.mem_append.mp hfirst with hmem | hmem
        · have hnot := (List.nodup_cons.mp hnodup.2).1
          exact hnot (List.mem_append_right _ (List.mem_cons_of_mem _ hmem))
        · rw [List.mem_singleton] at hmem
          exact hb (by rw [← hmem]; simp)
    · exact hrest.bypass hy hr hnodup.2 (fun hmem => hb (List.mem_cons_of_mem _ hmem))
        (fun z hz => hne z (List.mem_cons_of_mem _ hz))

/-- Insert a node right after the start. -/
theorem Linked.insert_head (h : Linked nxt prv x r b) (hy : y ∉ x :: (r ++ [b]))
    (hx : x ∉ r) (hr : r.Nodup) (hb : b ∉ r) (hne : ∀ z ∈ r, z ≠ 0) :
    Linked (Function.update (Function.update nxt y (nxt x)) x y)
      (Function.update (Function.update prv y x) (nxt x) y) x (y :: r) b := by
  have hxy : y ≠ x := fun heq => hy (heq ▸ List.mem_cons_self)
  have hfirst : nxt x ∈ r ++ [b] := by
    rw [h.nxt_eq]
    cases r <;> simp
  have hyn : y ≠ nxt x := fun heq => hy (heq ▸ List.mem_cons_of_mem _ hfirst)
  refine ⟨Function.update_self .., ?_, ?_⟩
  · rw [Function.update_of_ne hyn, Function.update_self]
  cases r with
  | nil =>
    obtain ⟨hnext, _⟩ := h
    rw [hnext] at hyn ⊢
    constructor
    · rw [Function.update_of_ne hxy, Function.update_self]
    · exact fun _ => Function.update_self ..
  | cons n r =>
    obtain ⟨hnext, hprev, hrest⟩ := h
    rw [hnext] at hyn ⊢
    refine ⟨?_, Function.update_self .., ?_⟩
    · rw [Function.update_of_ne hxy, Function.update_self]
    apply hrest.congr
    · intro z hz
      have hzx : z ≠ x := fun heq => hx (heq ▸ hz)
      have hzy : z ≠ y := by
        intro heq
        apply hy
        rw [← heq]
        exact List.mem_cons_of_mem _ (List.mem_append_left _ hz)
      rw [Function.update_of_ne hzx, Function.update_of_ne hzy]
    · intro z hz _
      have hzn : z ≠ n := by
        intro heq
        rcases List.mem_append.mp hz with hmem | hmem
        · exact (List.nodup_cons.mp hr).1 (heq ▸ hmem)
        · rw [List.mem_singleton] at hmem
          exact hb (by rw [← hmem, heq]; exact List.mem_cons_self)
      have hzy : z ≠ y := by
        intro heq
        apply hy
        rw [← heq, List.cons_append]
        exact List.mem_cons_of_mem _ (List.mem_cons_of_mem _ hz)
      rw [Function.update_of_ne hzn, Function.update_of_ne hzy]
    · exact fun z hz => hne z (List.mem_cons_of_mem _ hz)

/-- Insert a node after the last one of `l`. -/
theorem Linked.insert : ∀ {a l}, Linked nxt prv a (l ++ r) b → x = l.getLastD a →
    y ∉ a :: (l ++ r ++ [b]) → (a :: (l ++ r)).Nodup → b ∉ l ++ r → (∀ z ∈ l ++ r, z ≠ 0) →
    Linked (Function.update (Function.update nxt y (nxt x)) x y)
      (Function.update (Function.update prv y x) (nxt x) y) a (l ++ y :: r) b
  | a, [], h, hx, hy, hnodup, hb, hne => by
    have hx : x = a := hx
    subst hx
    have hr := List.nodup_cons.mp hnodup
    exact h.insert_head hy hr.1 hr.2 hb hne
  | a, z :: l, h, hx, hy, hnodup, hb, hne => by
    rw [List.getLastD_cons] at hx
    have hnx : nxt x = r.headD b := by
      rw [hx]
      exact h.2.2.nxt_last
    have hxmem : x ∈ z :: l := by
      rw [hx]
      exact List.getLastD_mem_cons
    have hfirst : nxt x ∈ r ++ [b] := by
      rw [hnx]
      cases r <;> simp
    obtain ⟨hnext, hprev, hrest⟩ := h
    rw [List.cons_append] at hy hnodup hb hne
    obtain ⟨hya, hytail⟩ := List.ne_and_not_mem_of_not_mem_cons hy
    obtain ⟨hanot, hnodup⟩ := List.nodup_cons.mp hnodup
    have hyz : y ≠ z := fun heq => hytail (heq ▸ List.mem_cons_self)
    refine ⟨?_, ?_, ?_⟩
    · have hax : a ≠ x := fun heq => hanot (heq ▸ List.mem_append_left r hxmem)
      rw [Function.update_of_ne hax, Function.update_of_ne hya.symm, hnext]
    · have hzn : z ≠ nxt x := by
        intro heq
        rw [← heq] at hfirst
        rcases List.mem_append.mp hfirst with hmem | hmem
        · exact (List.nodup_cons.mp hnodup).1 (List.mem_append_right _ hmem)
        · exact hb (List.mem_singleton.mp hmem ▸ List.mem_cons_self)
      rw [Function.update_of_ne hzn, Function.update_of_ne hyz.symm, hprev]
    · exact hrest.insert hx hytail hnodup (fun hmem => hb (List.mem_cons_of_mem _ hmem))
        (fun w hw => hne w (List.mem_cons_of_mem _ hw))

end

/-! ## Lists from null to null -/

namespace Links

/-- The next link, where null stands for the outside of the list. -/
def next (L : Links α) [DecidableEq α] (a : α) : α := if a = 0 then L.head else L.nxt a

variable [DecidableEq α] {L : Links α}

/-- Set the next link of a node, or the head. -/
def setNext (L : Links α) (a v : α) : Links α :=
  if a = 0 then { L with head := v } else { L with nxt := Function.update L.nxt a v }

/-- Set the previous link of a node, if it is one. -/
def setPrev (L : Links α) (a v : α) : Links α :=
  if a = 0 then L else { L with prv := Function.update L.prv a v }

/-- Unlink a node. -/
def remove (L : Links α) (y : α) : Links α :=
  let p := L.prv y
  let n := L.nxt y
  let L := (L.setNext p n).setPrev n p
  { L with nxt := Function.update L.nxt y 0, prv := Function.update L.prv y 0 }

/-- Insert the node `y` after `x`; after null is at the head. -/
def insertAfter (L : Links α) (x y : α) : Links α :=
  let n := L.next x
  let L := { L with nxt := Function.update L.nxt y n, prv := Function.update L.prv y x }
  (L.setNext x y).setPrev n y

/-- The list `xs` hangs on the links. -/
structure Holds (L : Links α) (xs : List α) : Prop where
  linked : Linked L.next L.prv 0 xs 0
  nodup : (0 :: xs).Nodup

theorem next_setNext : (L.setNext a v).next = Function.update L.next a v := by
  funext z
  unfold next setNext
  by_cases ha : a = 0
  · rw [if_pos ha, ha]
    by_cases hz : z = 0
    · rw [hz, if_pos rfl, Function.update_self]
    · rw [if_neg hz, Function.update_of_ne hz, if_neg hz]
  · rw [if_neg ha]
    by_cases hz : z = 0
    · have hza : z ≠ a := fun heq => ha (heq.symm.trans hz)
      rw [if_pos hz, Function.update_of_ne hza, if_pos hz]
    · show (if z = 0 then L.head else Function.update L.nxt a v z) = _
      rw [if_neg hz]
      by_cases hza : z = a
      · rw [hza, Function.update_self, Function.update_self]
      · rw [Function.update_of_ne hza, Function.update_of_ne hza, if_neg hz]

@[simp] theorem prv_setNext : (L.setNext a v).prv = L.prv := by
  unfold setNext
  split <;> rfl

@[simp] theorem next_setPrev : (L.setPrev a v).next = L.next := by
  unfold setPrev
  split <;> rfl

theorem setNext_zero : L.setNext 0 v = { L with head := v } := if_pos rfl

@[simp] theorem head_setPrev : (L.setPrev a v).head = L.head := by
  unfold setPrev
  split <;> rfl

@[simp] theorem nxt_setPrev : (L.setPrev a v).nxt = L.nxt := by
  unfold setPrev
  split <;> rfl

theorem prv_setPrev (hx : x ≠ 0) : (L.setPrev a v).prv x = Function.update L.prv a v x := by
  unfold setPrev
  split
  · rename_i ha
    rw [ha, Function.update_of_ne hx]
  · rfl

theorem Holds.ne_zero (h : L.Holds xs) (hx : x ∈ xs) : x ≠ 0 := by
  intro heq
  exact (List.nodup_cons.mp h.nodup).1 (heq ▸ hx)

theorem Holds.head_eq (h : L.Holds xs) : L.head = xs.headD 0 := by
  have hnext := h.linked.nxt_eq
  unfold next at hnext
  rw [if_pos rfl] at hnext
  exact hnext

/-- Nothing is behind the last node, or in an empty list. -/
theorem Holds.next_last (h : L.Holds xs) : L.next (xs.getLastD 0) = 0 := by
  have hlinked := h.linked
  rw [← List.append_nil xs] at hlinked
  exact hlinked.nxt_last

theorem Holds.nxt_eq (h : L.Holds (l ++ x :: r)) : L.nxt x = r.headD 0 := by
  have hx : x ≠ 0 := h.ne_zero (by simp)
  have hnext := ((linked_append hx).mp h.linked).2.nxt_eq
  unfold next at hnext
  rw [if_neg hx] at hnext
  exact hnext

theorem Holds.prv_eq (h : L.Holds (l ++ x :: r)) : L.prv x = l.getLastD 0 := by
  have hx : x ≠ 0 := h.ne_zero (by simp)
  exact ((linked_append hx).mp h.linked).1.prv_eq hx

/-- Links that agree on the nodes of a list hold it as well. -/
theorem Holds.congr {L' : Links α} (h : L.Holds xs) (hhead : L'.head = L.head)
    (hnxt : ∀ x ∈ xs, L'.nxt x = L.nxt x) (hprv : ∀ x ∈ xs, L'.prv x = L.prv x) :
    L'.Holds xs where
  nodup := h.nodup
  linked := by
    apply h.linked.congr
    · intro x hx
      unfold next
      rcases List.mem_cons.mp hx with hzero | hx
      · rw [if_pos hzero, if_pos hzero, hhead]
      · rw [if_neg (h.ne_zero hx), if_neg (h.ne_zero hx), hnxt x hx]
    · intro x hx hne
      rcases List.mem_append.mp hx with hx | hx
      · exact hprv x hx
      · exact absurd (List.mem_singleton.mp hx) hne
    · exact fun x hx => h.ne_zero hx

/-- Unlinking a node takes it out of the list. -/
theorem Holds.remove (h : L.Holds (l ++ y :: r)) : (L.remove y).Holds (l ++ r) := by
  have hy : y ≠ 0 := h.ne_zero (by simp)
  have hnot : y ∉ l ++ r := by
    have hnodup := (List.nodup_cons.mp h.nodup).2
    rw [List.nodup_middle, List.nodup_cons] at hnodup
    exact hnodup.1
  have hnodup : (0 :: (l ++ r)).Nodup :=
    h.nodup.sublist ((List.Sublist.append_left (List.sublist_cons_self y r) l).cons_cons 0)
  have hzero : ∀ x ∈ l ++ r, x ≠ 0 := fun x hx heq => (List.nodup_cons.mp hnodup).1 (heq ▸ hx)
  obtain ⟨hl, hr⟩ := (linked_append hy).mp h.linked
  have hnext : L.next y = L.nxt y := if_neg hy
  have hby := hl.bypass hy hr h.nodup (List.nodup_cons.mp h.nodup).1 hzero
  rw [hnext] at hby
  have hmid : ((L.setNext (L.prv y) (L.nxt y)).setPrev (L.nxt y) (L.prv y)).Holds (l ++ r) := by
    refine ⟨?_, hnodup⟩
    apply hby.congr
    · intro x _
      rw [next_setPrev, next_setNext]
    · intro x _ hx
      rw [prv_setPrev hx, prv_setNext]
    · exact hzero
  have hxy : ∀ x ∈ l ++ r, x ≠ y := fun x hx heq => hnot (heq ▸ hx)
  have hhead : (L.remove y).head =
      ((L.setNext (L.prv y) (L.nxt y)).setPrev (L.nxt y) (L.prv y)).head := rfl
  apply Holds.congr hmid hhead
  · exact fun x hx => Function.update_of_ne (hxy x hx) _ _
  · exact fun x hx => Function.update_of_ne (hxy x hx) _ _

theorem next_insertAfter (hy : y ≠ 0) : (L.insertAfter x y).next =
    Function.update (Function.update L.next y (L.next x)) x y := by
  unfold Links.insertAfter
  rw [next_setPrev, next_setNext]
  congr 1
  funext z
  unfold next
  by_cases hz : z = 0
  · rw [if_pos hz, hz, Function.update_of_ne hy.symm, if_pos rfl]
  · show (if z = 0 then L.head else Function.update L.nxt y _ z) = _
    rw [if_neg hz]
    by_cases hzy : z = y
    · rw [hzy, Function.update_self, Function.update_self]
    · rw [Function.update_of_ne hzy, Function.update_of_ne hzy, if_neg hz]

/-- Inserting a new node puts it into the list. -/
theorem Holds.insertAfter (h : L.Holds (l ++ r)) (hx : x = l.getLastD 0) (hy : y ≠ 0)
    (hnot : y ∉ l ++ r) : (L.insertAfter x y).Holds (l ++ y :: r) := by
  have hzero := (List.nodup_cons.mp h.nodup).1
  have hynot : y ∉ 0 :: (l ++ r ++ [0]) := by
    intro hmem
    rcases List.mem_cons.mp hmem with heq | hmem
    · exact hy heq
    · rcases List.mem_append.mp hmem with hmem | hmem
      · exact hnot hmem
      · exact hy (List.mem_singleton.mp hmem)
  have hne : ∀ z ∈ l ++ y :: r, z ≠ 0 := by
    intro z hz
    rw [List.mem_append, List.mem_cons, or_left_comm, ← List.mem_append] at hz
    rcases hz with heq | hz
    · exact heq ▸ hy
    · exact h.ne_zero hz
  have hins := h.linked.insert hx hynot h.nodup hzero (fun z hz => h.ne_zero hz)
  constructor
  · apply hins.congr
    · intro z _
      rw [next_insertAfter hy]
    · intro z _ hz
      unfold Links.insertAfter
      rw [prv_setPrev hz, prv_setNext]
    · exact hne
  · rw [List.nodup_cons, List.nodup_middle, List.nodup_cons]
    exact ⟨fun hmem => hne 0 hmem rfl, hnot, (List.nodup_cons.mp h.nodup).2⟩

/-- The links after an insertion at the head. -/
theorem insertAfter_zero (y : α) : (L.insertAfter 0 y).head = y ∧
    (∀ x, (L.insertAfter 0 y).nxt x = if x = y then L.head else L.nxt x) ∧
    ∀ x ≠ 0, (L.insertAfter 0 y).prv x =
      if x = L.head then y else if x = y then 0 else L.prv x := by
  have hins : L.insertAfter 0 y = Links.setPrev
      { head := y, nxt := Function.update L.nxt y L.head, prv := Function.update L.prv y 0 }
      L.head y := by
    have hnext : L.next 0 = L.head := if_pos rfl
    unfold insertAfter
    dsimp only
    rw [hnext, setNext_zero]
  rw [hins]
  refine ⟨head_setPrev, ?_, ?_⟩
  · intro x
    rw [nxt_setPrev]
    exact Function.update_apply ..
  · intro x hx
    rw [prv_setPrev hx, Function.update_apply]
    congr 1
    exact Function.update_apply ..

/-- The links after an insertion at the end. -/
theorem insertAfter_end (hx : L.next x = 0) (y : α) :
    (L.insertAfter x y).head = (if x = 0 then y else L.head) ∧
    (∀ a ≠ 0, (L.insertAfter x y).nxt a = if a = x then y else if a = y then 0 else L.nxt a) ∧
    ∀ a, (L.insertAfter x y).prv a = if a = y then x else L.prv a := by
  have hins : L.insertAfter x y = Links.setNext
      { L with nxt := Function.update L.nxt y 0, prv := Function.update L.prv y x } x y := by
    unfold insertAfter
    dsimp only
    rw [hx]
    exact if_pos rfl
  rw [hins]
  unfold setNext
  by_cases hzero : x = 0
  · rw [if_pos hzero, if_pos hzero]
    refine ⟨rfl, fun a ha => ?_, fun a => Function.update_apply ..⟩
    rw [if_neg fun heq => ha (heq.trans hzero)]
    exact Function.update_apply ..
  · rw [if_neg hzero, if_neg hzero]
    refine ⟨rfl, fun a _ => ?_, fun a => Function.update_apply ..⟩
    refine (Function.update_apply ..).trans (if_congr Iff.rfl rfl ?_)
    exact Function.update_apply ..

/-- The links of the other nodes after a node is unlinked. -/
theorem remove_links (hx : x ≠ 0) (hxy : x ≠ y) :
    (L.remove y).head = (if L.prv y = 0 then L.nxt y else L.head) ∧
    (L.remove y).nxt x = (if x = L.prv y then L.nxt y else L.nxt x) ∧
    (L.remove y).prv x = if x = L.nxt y then L.prv y else L.prv x := by
  have hprv : ((L.setNext (L.prv y) (L.nxt y)).setPrev (L.nxt y) (L.prv y)).prv x =
      if x = L.nxt y then L.prv y else L.prv x := by
    rw [prv_setPrev hx, prv_setNext, Function.update_apply]
  have hnxt : ((L.setNext (L.prv y) (L.nxt y)).setPrev (L.nxt y) (L.prv y)).nxt x =
      if x = L.prv y then L.nxt y else L.nxt x := by
    have heq := congrFun (next_setNext (L := L) (a := L.prv y) (v := L.nxt y)) x
    rw [Function.update_apply] at heq
    unfold next at heq
    rw [if_neg hx, if_neg hx] at heq
    rw [nxt_setPrev, heq]
  refine ⟨?_, ?_, ?_⟩
  · show ((L.setNext (L.prv y) (L.nxt y)).setPrev (L.nxt y) (L.prv y)).head = _
    rw [head_setPrev]
    unfold setNext
    split <;> rfl
  · exact (Function.update_of_ne hxy _ _).trans hnxt
  · exact (Function.update_of_ne hxy _ _).trans hprv

/-! ## Stores in another order -/

theorem insertAfter_of_ne (hx : x ≠ 0) (hxy : x ≠ y) : L.insertAfter x y =
    Links.setPrev { L with
      nxt := Function.update (Function.update L.nxt x y) y (L.nxt x)
      prv := Function.update L.prv y x } (L.nxt x) y := by
  unfold Links.insertAfter setNext next
  simp only [if_neg hx, Function.update_comm hxy]

/-- Unlinking overwrites the link that leads to the node. -/
theorem remove_setNext_prv (hp : L.prv y ≠ 0) (hpy : L.prv y ≠ y) :
    (L.setNext (L.prv y) v).remove y = L.remove y := by
  unfold Links.remove setNext
  simp only [if_neg hp, Function.update_idem, Function.update_of_ne hpy.symm]

/-- Unlinking a node leaves alone the links of nodes that are not before
it. -/
theorem remove_setNext_comm (ha : a ≠ 0) (hay : a ≠ y) (hp : a ≠ L.prv y) :
    (L.setNext a v).remove y = (L.remove y).setNext a v := by
  unfold Links.remove setNext setPrev
  simp only [if_neg ha, Function.update_of_ne hay.symm]
  by_cases hzero : L.prv y = 0
  · by_cases hn : L.nxt y = 0
    · simp only [hzero, hn, if_true, Function.update_comm hay]
    · simp only [hzero, hn, if_true, if_false, Function.update_comm hay]
  · by_cases hn : L.nxt y = 0
    · simp only [hzero, hn, if_true, if_false, Function.update_comm hay, Function.update_comm hp]
    · simp only [hzero, hn, if_false, Function.update_comm hay, Function.update_comm hp]

/-- So the link that leads to a node may be lost before it is unlinked. -/
theorem Holds.remove_lost (h : L.Holds (l ++ x :: y :: r)) :
    ((L.setNext x v).remove y).Holds (l ++ x :: r) := by
  have hnodup := (List.nodup_cons.mp h.nodup).2
  rw [List.nodup_middle, List.nodup_cons] at hnodup
  have hxy : x ≠ y := fun heq => hnodup.1 (by simp [heq])
  have hx0 : x ≠ 0 := h.ne_zero (by simp)
  have hsplit : l ++ x :: y :: r = (l ++ [x]) ++ y :: r := by simp
  rw [hsplit] at h
  have hprv : L.prv y = x := by
    rw [h.prv_eq, List.getLastD_concat]
  have habsorb := remove_setNext_prv (L := L) (y := y) (v := v) (by rw [hprv]; exact hx0)
    (by rw [hprv]; exact hxy)
  rw [hprv] at habsorb
  rw [habsorb]
  have hrem := h.remove
  rw [List.append_assoc] at hrem
  exact hrem

/-- The same when two nodes in a row are unlinked, the last one first. -/
theorem Holds.remove_two_lost (h : L.Holds (l ++ x :: y :: z :: r)) :
    (((L.setNext x v).remove z).remove y).Holds (l ++ x :: r) := by
  have hnodup := (List.nodup_cons.mp h.nodup).2
  rw [List.nodup_middle, List.nodup_cons] at hnodup
  have hx0 : x ≠ 0 := h.ne_zero (by simp)
  have hxy : x ≠ y := fun heq => hnodup.1 (by simp [heq])
  have hxz : x ≠ z := fun heq => hnodup.1 (by simp [heq])
  have hsplit : l ++ x :: y :: z :: r = (l ++ [x, y]) ++ z :: r := by simp
  rw [hsplit] at h
  have hprv : L.prv z = y := by
    rw [h.prv_eq, List.append_cons, List.getLastD_concat]
  have hrem := h.remove
  rw [List.append_assoc] at hrem
  rw [remove_setNext_comm hx0 hxz (by rw [hprv]; exact hxy)]
  exact hrem.remove_lost

end Links

end LinkedMem
