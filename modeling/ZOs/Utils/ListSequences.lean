import Mathlib.Data.List.Perm.Basic
import ZOs.Lib.Run
import ZOs.Utils.LinkedList

/-!
# Linked lists as sequences

Nodes that callers make and nodes that the lists make are put into any of
the lists and taken out again. Each list is the sequence that appending and
deleting gives (`linked_list_sequence`). A removed node is freed if its
`list_is_owner` says so; `linked_list_insert` sets it, and in a node of the
caller it is what the caller has put there.
-/

namespace ZOs.Utils.LinkedList

open Files (Fault)
open LinkedMem Runs

/-! ## Calls -/

inductive ListAction
  | create (p : Nat) (node : ListNode)
  | release (p : Nat)
  | insert (list data newNode : Nat)
  | insertNode (list p : Nat)
  | remove (list p : Nat)

/-- A call, or what the caller does with a node of its own. -/
def ListMemory.exec (m : ListMemory) : ListAction → Except Fault (Int × ListMemory)
  | .create p node => .ok (0, { m with nodes := Function.update m.nodes p (some node) })
  | .release p => .ok (0, { m with nodes := Function.update m.nodes p none })
  | .insert list data newNode => m.linkedListInsert list data newNode
  | .insertNode list p => m.linkedListInsertNode list p
  | .remove list p => m.linkedListRemove list p

/-- What the lists are for: sequences of nodes, with the data of each node and
whether it is freed when it is removed. -/
structure Sequences where
  nodes : Nat → List Nat
  data : Nat → Nat
  owned : Nat → Bool

/-- No node is in a sequence. -/
def noSequences : Sequences := ⟨fun _ => [], fun _ => 0, fun _ => false⟩

/-- Appending and deleting. -/
def Sequences.step (s : Sequences) : ListAction → Sequences
  | .create p node =>
    { s with
      data := Function.update s.data p node.data
      owned := Function.update s.owned p (node.listIsOwner != 0) }
  | .release _ => s
  | .insert list data newNode =>
    if newNode = 0 then s
    else
      { nodes := Function.update s.nodes list (s.nodes list ++ [newNode])
        data := Function.update s.data newNode data
        owned := Function.update s.owned newNode true }
  | .insertNode list p => { s with nodes := Function.update s.nodes list (s.nodes list ++ [p]) }
  | .remove list p => { s with nodes := Function.update s.nodes list ((s.nodes list).erase p) }

/-- A node that is in no list: it is fresh, or has been removed. -/
def Loose (m : ListMemory) (s : Sequences) (p : Nat) : Prop :=
  m.nodes p ≠ none ∧ ∀ i, p ∉ s.nodes i

/-- What callers do. A fresh node has NULL links; `kmalloc` returns NULL or
memory that is not in use. -/
def ListAction.Allowed (m : ListMemory) (s : Sequences) : ListAction → Prop
  | .create p node => p ≠ 0 ∧ m.nodes p = none ∧ node.next = 0 ∧ node.prev = 0
  | .release p => Loose m s p
  | .insert _ _ newNode => m.nodes newNode = none
  | .insertNode _ p => Loose m s p
  | .remove list p => p ∈ s.nodes list

/-- A call fails if there is no memory for its node. -/
def ListAction.code : ListAction → Int
  | .insert _ _ newNode => if newNode = 0 then -1 else 0
  | _ => 0

/-- The lists have been initialised, and no node is there yet. -/
def noLists : ListMemory := ⟨fun _ => linkedListInit, fun _ => none⟩

/-- An action that returns. -/
def ListStep (x : ListMemory × Sequences) (a : ListAction) (x' : ListMemory × Sequences) : Prop :=
  a.Allowed x.1 x.2 ∧ (∃ code, x.1.exec a = .ok (code, x'.1)) ∧ x'.2 = x.2.step a

/-- The nodes that a list has allocated. -/
def allocated : List ((ListMemory × Sequences) × ListAction) → Nat → Bool
  | [] => fun _ => false
  | (_, .create p _) :: history => Function.update (allocated history) p false
  | (_, .insert _ _ newNode) :: history =>
    if newNode = 0 then allocated history else Function.update (allocated history) newNode true
  | _ :: history => allocated history

/-- The caller does not mark its nodes as the list's. -/
def ListAction.Unmarked : ListAction → Prop
  | .create _ node => node.listIsOwner = 0
  | _ => True

/-! ## What is kept -/

/-- A list has the nodes of a sequence: each is linked to the one behind it
and to the one in front of it, NULL standing at both ends. -/
structure ListMemory.WellFormed (m : ListMemory) (list : Nat) (xs : List Nat) : Prop where
  head : (m.lists list).head = xs.headD 0
  tail : (m.lists list).tail = xs.getLastD 0
  nodup : (0 :: xs).Nodup
  linked : ∀ l a r, xs = l ++ a :: r →
    ∃ node, m.nodes a = some node ∧ node.next = r.headD 0 ∧ node.prev = l.getLastD 0

/-- The lists are the sequences. -/
structure Represents (m : ListMemory) (s : Sequences) : Prop where
  holds : ∀ i, m.Holds i (s.nodes i)
  disjoint : ∀ {i j a}, a ∈ s.nodes i → a ∈ s.nodes j → i = j
  data : ∀ {a node}, m.nodes a = some node → node.data = s.data a
  owned : ∀ {a node}, m.nodes a = some node → (node.listIsOwner ≠ 0 ↔ s.owned a = true)
  loose : ∀ {a node}, m.nodes a = some node → (∀ i, a ∉ s.nodes i) →
    node.next = 0 ∧ node.prev = 0
  null : m.nodes 0 = none

section
variable {m m' : ListMemory} {s : Sequences} {list p newNode data : Nat} {node : ListNode}
  {xs : List Nat}

theorem ListMemory.Holds.wellFormed (h : m.Holds list xs) : m.WellFormed list xs where
  head := h.linked.head_eq
  tail := h.tail
  nodup := h.linked.nodup
  linked l a r hxs := by
    subst hxs
    obtain ⟨node, hnode⟩ := Option.ne_none_iff_exists'.mp (h.alive a (by simp))
    exact ⟨node, hnode, h.place hnode⟩

theorem noLists_represents : Represents noLists noSequences where
  holds _ := ⟨⟨⟨rfl, fun h => absurd rfl h⟩, by simp [noSequences]⟩, rfl, fun _ ha => nomatch ha⟩
  disjoint ha := nomatch ha
  data h := nomatch h
  owned h := nomatch h
  loose h := nomatch h
  null := rfl

theorem Represents.alive (h : Represents m s) (hp : p ∈ s.nodes list) :
    ∃ node, m.nodes p = some node := Option.ne_none_iff_exists'.mp ((h.holds list).alive p hp)

/-- A node that is not allocated is in no list. -/
theorem Represents.not_mem (h : Represents m s) (hp : m.nodes p = none) (i : Nat) :
    p ∉ s.nodes i := fun hmem => (h.holds i).alive p hmem hp

theorem Represents.create (h : Represents m s) (hp : p ≠ 0) (hfree : m.nodes p = none)
    (hnext : node.next = 0) (hprev : node.prev = 0) :
    Represents { m with nodes := Function.update m.nodes p (some node) }
      (s.step (.create p node)) where
  holds i := (h.holds i).congr rfl fun a ha =>
    Function.update_of_ne (ne_of_mem_of_not_mem ha (h.not_mem hfree i)) ..
  disjoint := h.disjoint
  data {a n} hn := by
    show _ = Function.update s.data p node.data a
    by_cases hap : a = p
    · subst hap
      cases (Function.update_self ..).symm.trans hn
      rw [Function.update_self]
    · rw [Function.update_of_ne hap]
      exact h.data ((Function.update_of_ne hap ..).symm.trans hn)
  owned {a n} hn := by
    show _ ↔ Function.update s.owned p _ a = true
    by_cases hap : a = p
    · subst hap
      cases (Function.update_self ..).symm.trans hn
      rw [Function.update_self, bne_iff_ne]
    · rw [Function.update_of_ne hap]
      exact h.owned ((Function.update_of_ne hap ..).symm.trans hn)
  loose {a n} hn hloose := by
    by_cases hap : a = p
    · subst hap
      cases (Function.update_self ..).symm.trans hn
      exact ⟨hnext, hprev⟩
    · exact h.loose ((Function.update_of_ne hap ..).symm.trans hn) hloose
  null := (Function.update_of_ne hp.symm ..).trans h.null

theorem Represents.release (h : Represents m s) (hloose : Loose m s p) :
    Represents { m with nodes := Function.update m.nodes p none } s := by
  have hback : ∀ {a n}, Function.update m.nodes p none a = some n → m.nodes a = some n := by
    intro a n hn
    by_cases hap : a = p
    · subst hap
      cases (Function.update_self ..).symm.trans hn
    · exact (Function.update_of_ne hap ..).symm.trans hn
  refine
    { holds := fun i => (h.holds i).congr rfl fun a ha =>
        Function.update_of_ne (ne_of_mem_of_not_mem ha (hloose.2 i)) ..
      disjoint := h.disjoint
      data := fun hn => h.data (hback hn)
      owned := fun hn => h.owned (hback hn)
      loose := fun hn => h.loose (hback hn)
      null := ?_ }
  cases hzero : Function.update m.nodes p none 0 with
  | none => exact hzero
  | some n => cases h.null.symm.trans (hback hzero)

/-- A loose node is put behind the others. -/
theorem Represents.insertNode (h : Represents m s) (list : Nat) (hloose : Loose m s p) :
    ∃ m', m.linkedListInsertNode list p = .ok (0, m') ∧
      Represents m' (s.step (.insertNode list p)) := by
  obtain ⟨node, hnode⟩ := Option.ne_none_iff_exists'.mp hloose.1
  obtain ⟨hnext, hprev⟩ := h.loose hnode hloose.2
  have hp : p ≠ 0 := fun hzero => hloose.1 (hzero ▸ h.null)
  obtain ⟨m', hcall, happended⟩ :=
    (h.holds list).insertNode h.null hp hnode hprev (hloose.2 list)
  have hmem : ∀ {i a}, a ∈ Function.update s.nodes list (s.nodes list ++ [p]) i ↔
      a ∈ s.nodes i ∨ (a = p ∧ i = list) := by
    intro i a
    by_cases hi : i = list
    · subst hi
      simp
    · simp [hi]
  have hback : ∀ {a n}, m'.nodes a = some n → ∃ n', m.nodes a = some n' ∧
      appended (m.lists list).tail p a n' = n := fun hn =>
    Option.map_eq_some_iff.mp ((happended.nodes _).symm.trans hn)
  refine ⟨m', hcall, fun i => ?_, fun {i j a} hi hj => ?_, fun {a n} hn => ?_, fun {a n} hn => ?_,
    fun {a n} hn hnot => ?_, ?_⟩
  · show m'.Holds i (Function.update s.nodes list (s.nodes list ++ [p]) i)
    by_cases hi : i = list
    · subst hi
      rw [Function.update_self]
      exact happended.holds (h.holds i) hp hnode hnext (hloose.2 i)
    · rw [Function.update_of_ne hi]
      exact happended.holds_other (h.holds list) hi (h.holds i)
        (fun a ha ha' => hi (h.disjoint ha ha')) (hloose.2 i)
  · rcases hmem.mp hi with hold | ⟨hap, hlist⟩
    · rcases hmem.mp hj with hold' | ⟨hap, -⟩
      · exact h.disjoint hold hold'
      · exact absurd (hap ▸ hold) (hloose.2 i)
    · rcases hmem.mp hj with hold' | ⟨-, hlist'⟩
      · exact absurd (hap ▸ hold') (hloose.2 j)
      · rw [hlist, hlist']
  · obtain ⟨n', hn', rfl⟩ := hback hn
    exact @Represents.data _ _ h _ n' hn'
  · obtain ⟨n', hn', rfl⟩ := hback hn
    exact @Represents.owned _ _ h _ n' hn'
  · obtain ⟨n', hn', rfl⟩ := hback hn
    have hap : a ≠ p := fun heq => hnot list (hmem.mpr (.inr ⟨heq, rfl⟩))
    have hold : ∀ i, a ∉ s.nodes i := fun i hi => hnot i (hmem.mpr (.inl hi))
    have hat : a ≠ (m.lists list).tail := by
      rintro rfl
      have hne : (m.lists list).tail ≠ 0 := fun hzero => nomatch (hzero ▸ h.null).symm.trans hn'
      rw [(h.holds list).tail] at hne hold
      exact hold list (getLastD_mem hne)
    obtain ⟨hnext', hprev'⟩ := h.loose hn' hold
    unfold appended
    simp only [if_neg hap, if_neg hat]
    exact ⟨hnext', hprev'⟩
  · rw [happended.nodes, h.null]
    rfl

/-- A new node of the list. -/
theorem Represents.insert (h : Represents m s) (list data : Nat) (hnew : newNode ≠ 0)
    (hfree : m.nodes newNode = none) :
    ∃ m', m.linkedListInsert list data newNode = .ok (0, m') ∧
      Represents m' (s.step (.insert list data newNode)) := by
  let node : ListNode := { data, next := 0, prev := 0, listIsOwner := 1 }
  have hcreated := h.create hnew hfree (rfl : node.next = 0) (rfl : node.prev = 0)
  obtain ⟨m', hcall, h'⟩ := hcreated.insertNode list (p := newNode)
    ⟨by simp [node], h.not_mem hfree⟩
  refine ⟨m', ?_, ?_⟩
  · unfold ListMemory.linkedListInsert
    rw [if_neg hnew]
    dsimp only
    rw [hcall]
    rfl
  · unfold Sequences.step
    dsimp only
    rw [if_neg hnew]
    exact h'

/-- A node is taken out of its list. -/
theorem Represents.remove (h : Represents m s) (hp : p ∈ s.nodes list) :
    ∃ m', m.linkedListRemove list p = .ok (0, m') ∧ Represents m' (s.step (.remove list p)) ∧
      (m'.nodes p = none ↔ s.owned p = true) := by
  obtain ⟨node, hnode⟩ := h.alive hp
  obtain ⟨l, r, hxs⟩ := List.append_of_mem hp
  have hlist := h.holds list
  rw [hxs] at hlist
  obtain ⟨m', hcall, hremoved⟩ := hlist.remove h.null hnode
  have hnodup := (List.nodup_cons.mp hlist.linked.nodup).2
  rw [List.nodup_middle, List.nodup_cons] at hnodup
  have herase : (s.nodes list).erase p = l ++ r := by
    rw [hxs, List.erase_append_right _ fun hl => hnodup.1 (List.mem_append_left _ hl),
      List.erase_cons_head]
  have hmem : ∀ {i a}, a ∈ Function.update s.nodes list ((s.nodes list).erase p) i ↔
      a ∈ s.nodes i ∧ a ≠ p := by
    intro i a
    by_cases hi : i = list
    · subst hi
      rw [Function.update_self, herase, hxs]
      constructor
      · intro ha
        refine ⟨?_, fun heq => hnodup.1 (heq ▸ ha)⟩
        rw [List.mem_append, List.mem_cons]
        exact (List.mem_append.mp ha).imp_right .inr
      · rintro ⟨ha, hap⟩
        rw [List.mem_append, List.mem_cons, or_iff_right hap] at ha
        exact List.mem_append.mpr ha
    · rw [Function.update_of_ne hi]
      exact ⟨fun ha => ⟨ha, fun heq => hi (h.disjoint (heq ▸ ha) hp)⟩, And.left⟩
  have hzero : m'.nodes p = none ↔ s.owned p = true := by
    rw [hremoved.removed, ← h.owned hnode]
    split
    · rename_i howner
      exact iff_of_true rfl howner
    · rename_i howner
      exact iff_of_false nofun howner
  -- every node that is left was there, and is the removed one or has kept its fields but links
  have hback : ∀ {a n}, m'.nodes a = some n → ∃ n', m.nodes a = some n' ∧ n.data = n'.data ∧
      n.listIsOwner = n'.listIsOwner ∧ (a = p ∧ n.next = 0 ∧ n.prev = 0 ∨
        a ≠ p ∧ n = joined node a n') := by
    intro a n hn
    by_cases hap : a = p
    · subst hap
      rw [hremoved.removed] at hn
      split at hn
      · cases hn
      · cases hn
        exact ⟨node, hnode, rfl, rfl, .inl ⟨rfl, rfl, rfl⟩⟩
    · obtain ⟨n', hn', rfl⟩ := Option.map_eq_some_iff.mp ((hremoved.other a hap).symm.trans hn)
      exact ⟨n', hn', rfl, rfl, .inr ⟨hap, rfl⟩⟩
  obtain ⟨hnext, hprev⟩ := hlist.place hnode
  refine ⟨m', hcall, ⟨fun i => ?_, fun {i j a} hi hj => ?_, fun {a n} hn => ?_, fun {a n} hn => ?_,
    fun {a n} hn hnot => ?_, ?_⟩, hzero⟩
  · show m'.Holds i (Function.update s.nodes list ((s.nodes list).erase p) i)
    by_cases hi : i = list
    · subst hi
      rw [Function.update_self, herase]
      exact hremoved.holds hlist hnode
    · rw [Function.update_of_ne hi]
      exact hremoved.holds_other hlist hnode hi (h.holds i) fun a ha ha' =>
        hi (h.disjoint ha (hxs ▸ ha'))
  · exact h.disjoint (hmem.mp hi).1 (hmem.mp hj).1
  · obtain ⟨n', hn', hdata, -⟩ := hback hn
    exact hdata.trans (h.data hn')
  · obtain ⟨n', hn', -, howner, -⟩ := hback hn
    rw [howner]
    exact h.owned hn'
  · obtain ⟨n', hn', -, -, ⟨-, hlinks⟩ | ⟨hap, rfl⟩⟩ := hback hn
    · exact hlinks
    · have hold : ∀ i, a ∉ s.nodes i := fun i hi => hnot i (hmem.mpr ⟨hi, hap⟩)
      have ha : a ≠ 0 := by
        rintro rfl
        cases h.null.symm.trans hn'
      have hane : a ∉ l ++ p :: r := hxs ▸ hold list
      have hanext : a ≠ node.next := by
        rintro rfl
        exact hane (by simp [hnext ▸ headD_mem (hnext ▸ ha)])
      have haprev : a ≠ node.prev := by
        rintro rfl
        exact hane (by simp [hprev ▸ getLastD_mem (hprev ▸ ha)])
      obtain ⟨hnext', hprev'⟩ := h.loose hn' hold
      unfold joined
      simp only [if_neg hanext, if_neg haprev]
      exact ⟨hnext', hprev'⟩
  · rw [hremoved.other 0 (hlist.linked.ne_zero (by simp)).symm, h.null]
    rfl

/-- An allowed call returns, and leaves the sequences that it should. -/
theorem Represents.exec {a : ListAction} (h : Represents m s) (hallowed : a.Allowed m s) :
    ∃ m', m.exec a = .ok (a.code, m') ∧ Represents m' (s.step a) := by
  cases a with
  | create p node =>
    obtain ⟨hp, hfree, hnext, hprev⟩ := hallowed
    exact ⟨_, rfl, h.create hp hfree hnext hprev⟩
  | release p => exact ⟨_, rfl, h.release hallowed⟩
  | insert list data newNode =>
    unfold ListAction.code
    dsimp only
    by_cases hnew : newNode = 0
    · subst hnew
      exact ⟨m, rfl, h⟩
    · rw [if_neg hnew]
      exact h.insert list data hnew hallowed
  | insertNode list p => exact h.insertNode list hallowed
  | remove list p =>
    obtain ⟨m', hcall, h', -⟩ := h.remove hallowed
    exact ⟨m', hcall, h'⟩

theorem run_represents {history : List ((ListMemory × Sequences) × ListAction)}
    {x : ListMemory × Sequences} (hrun : Run (· = (noLists, noSequences)) ListStep history x) :
    Represents x.1 x.2 := by
  refine @Run.invariant _ _ _ _ _ _ (fun x => Represents x.1 x.2) hrun (fun x hx => ?_)
    fun x a x' h hstep => ?_
  · subst hx
    exact noLists_represents
  · obtain ⟨hallowed, ⟨code, hexec⟩, hsequences⟩ := hstep
    obtain ⟨m', hcall, h'⟩ := h.exec hallowed
    cases hexec.symm.trans hcall
    show Represents _ x'.2
    rw [hsequences]
    exact h'

/-- Where no caller marks a node as the list's, the marked ones are those
that a list has allocated. -/
theorem owned_eq_allocated {history : List ((ListMemory × Sequences) × ListAction)}
    {x : ListMemory × Sequences} (hrun : Run (· = (noLists, noSequences)) ListStep history x)
    (hunmarked : ∀ y ∈ history, y.2.Unmarked) : x.2.owned = allocated history := by
  induction hrun with
  | start hx =>
    subst hx
    rfl
  | @next history x a x' hrun hstep ih =>
    obtain ⟨ha, hrest⟩ := List.forall_mem_cons.mp hunmarked
    obtain ⟨-, -, hsequences⟩ := hstep
    rw [hsequences]
    cases a with
    | create p node =>
      have hmark : (node.listIsOwner != 0) = false := by
        rw [show node.listIsOwner = 0 from ha]
        rfl
      exact congrArg₂ (fun g b => Function.update g p b) (ih hrest) hmark
    | release p => exact ih hrest
    | insert list data newNode =>
      show (if newNode = 0 then x.2 else _ : Sequences).owned = if newNode = 0 then _ else _
      split
      · exact ih hrest
      · exact congrArg (Function.update · newNode true) (ih hrest)
    | insertNode list p => exact ih hrest
    | remove list p => exact ih hrest

end

/-- After any calls, on any number of lists, the lists are the sequences
that appending and deleting gives, every call that is allowed returns, and
a node that is removed is freed just if it is marked as the list's; that is,
just if a list has allocated it where callers do not mark theirs. -/
theorem linked_list_sequence (history : List ((ListMemory × Sequences) × ListAction))
    (m : ListMemory) (s : Sequences)
    (hrun : Run (· = (noLists, noSequences)) ListStep history (m, s)) :
    (∀ i, m.WellFormed i (s.nodes i) ∧ ((m.lists i).head = 0 ↔ s.nodes i = []) ∧
      ((m.lists i).tail = 0 ↔ s.nodes i = [])) ∧
    (∀ i, ∀ a ∈ s.nodes i, ∃ node, m.nodes a = some node ∧ node.data = s.data a) ∧
    (∀ a : ListAction, a.Allowed m s → ∃ m', m.exec a = .ok (a.code, m')) ∧
    (∀ list, ∀ p ∈ s.nodes list, ∃ m', m.exec (.remove list p) = .ok (0, m') ∧
      (m'.nodes p = none ↔ s.owned p = true)) ∧
    ((∀ y ∈ history, y.2.Unmarked) → s.owned = allocated history) := by
  have h : Represents m s := run_represents hrun
  refine ⟨fun i => ⟨(h.holds i).wellFormed, (h.holds i).head_eq_zero, (h.holds i).tail_eq_zero⟩,
    fun i a ha => ?_, fun a hallowed => ?_, fun list p hp => ?_, owned_eq_allocated hrun⟩
  · obtain ⟨node, hnode⟩ := h.alive ha
    exact ⟨node, hnode, h.data hnode⟩
  · obtain ⟨m', hexec, -⟩ := h.exec hallowed
    exact ⟨m', hexec⟩
  · obtain ⟨m', hcall, -, hfreed⟩ := h.remove hp
    exact ⟨m', hcall, hfreed⟩

/-! ## A node that is not the list's -/

/-- A node of the caller, marked as the list's. -/
def markedNode : ListNode := ⟨7, 0, 0, 1⟩

def markedMemory : ListMemory :=
  { noLists with nodes := Function.update noLists.nodes 1 (some markedNode) }

/-- The lists after `linked_list_insert_node`. -/
def markedLists : ListMemory × Sequences :=
  (markedMemory.modifyList 0 fun _ => ⟨1, 1⟩,
    (noSequences.step (.create 1 markedNode)).step (.insertNode 0 1))

def markedHistory : List ((ListMemory × Sequences) × ListAction) :=
  [((markedMemory, noSequences.step (.create 1 markedNode)), .insertNode 0 1),
    ((noLists, noSequences), .create 1 markedNode)]

theorem markedHistory_run :
    Run (· = (noLists, noSequences)) ListStep markedHistory markedLists := by
  refine .next (.next (.start rfl) ⟨⟨by decide, rfl, rfl, rfl⟩, ⟨0, rfl⟩, rfl⟩)
    ⟨⟨by simp [markedMemory], fun _ => List.not_mem_nil⟩, ⟨0, rfl⟩, rfl⟩

theorem linked_list_sequence_one : markedLists.1.WellFormed 0 [1] :=
  ((linked_list_sequence markedHistory _ _ markedHistory_run).1 0).1

/-- It is freed by `linked_list_remove`, although no list has allocated it. -/
theorem markedNode_freed : ¬∀ (history : List ((ListMemory × Sequences) × ListAction))
    (m : ListMemory) (s : Sequences),
    Run (· = (noLists, noSequences)) ListStep history (m, s) → ∀ list, ∀ p ∈ s.nodes list,
      ∃ m', m.exec (.remove list p) = .ok (0, m') ∧
        (m'.nodes p = none ↔ allocated history p = true) := by
  intro hclaim
  obtain ⟨m', hcall, hfreed⟩ := hclaim _ _ _ markedHistory_run 0 1 (List.mem_singleton_self 1)
  cases hcall
  exact absurd (hfreed.mp rfl) (by decide)

end ZOs.Utils.LinkedList
