import ZOs.Files.HashTable
import ZOs.Lib.DList

/-!
# The linked list

`linked_list.c`: lists with a head and a tail, whose nodes are in a memory
that all lists share. A pointer is a number, 0 being NULL, and an access to a
node that is not there is a fault. `linked_list_insert` allocates its node
and marks it as owned by the list; `linked_list_insert_node` takes a node of
the caller as it is.
-/

namespace ZOs.Utils.LinkedList

open Files (Fault load)
open Files.HashTable (load_some)
open LinkedMem

/-! ## The code -/

/-- `linked_list_node_t`. -/
structure ListNode where
  data : Nat
  next : Nat
  prev : Nat
  listIsOwner : BitVec 8

/-- `linked_list_t`. -/
structure ListEnds where
  head : Nat
  tail : Nat

/-- The lists, and the memory of the nodes. -/
structure ListMemory where
  lists : Nat → ListEnds
  nodes : Nat → Option ListNode

/-- `linked_list_init`. -/
def linkedListInit : ListEnds := ⟨0, 0⟩

namespace ListMemory

variable (m : ListMemory)

/-- Write to the fields of a node. -/
def modifyNode (p : Nat) (f : ListNode → ListNode) : Except Fault ListMemory := do
  let node ← load m.nodes p
  return { m with nodes := Function.update m.nodes p (some (f node)) }

def modifyList (list : Nat) (f : ListEnds → ListEnds) : ListMemory :=
  { m with lists := Function.update m.lists list (f (m.lists list)) }

/-- `linked_list_insert_node`. -/
def linkedListInsertNode (list node : Nat) : Except Fault (Int × ListMemory) :=
  if node = 0 then .ok (-1, m)
  else if (m.lists list).head = 0 then .ok (0, m.modifyList list fun _ => ⟨node, node⟩)
  else do
    let tail := (m.lists list).tail
    let m ← m.modifyNode tail fun n => { n with next := node }
    let m ← m.modifyNode node fun n => { n with prev := tail }
    return (0, m.modifyList list fun ends => { ends with tail := node })

/-- `linked_list_insert`; `newNode` is what `kmalloc` returns. -/
def linkedListInsert (list data newNode : Nat) : Except Fault (Int × ListMemory) :=
  if newNode = 0 then .ok (-1, m)
  else do
    let node : ListNode := { data, next := 0, prev := 0, listIsOwner := 1 }
    let m := { m with nodes := Function.update m.nodes newNode (some node) }
    let (result, m) ← m.linkedListInsertNode list newNode
    if result < 0 then return (-1, { m with nodes := Function.update m.nodes newNode none })
    else return (0, m)

/-- The node behind `node`, or the head of the list, is linked to the node in
front of it. -/
def unlinkPrev (list : Nat) (node : ListNode) : Except Fault ListMemory :=
  if node.prev ≠ 0 then m.modifyNode node.prev fun behind => { behind with next := node.next }
  else .ok (m.modifyList list fun ends => { ends with head := node.next })

def unlinkNext (list : Nat) (node : ListNode) : Except Fault ListMemory :=
  if node.next ≠ 0 then m.modifyNode node.next fun front => { front with prev := node.prev }
  else .ok (m.modifyList list fun ends => { ends with tail := node.prev })

/-- `linked_list_remove`. -/
def linkedListRemove (list p : Nat) : Except Fault (Int × ListMemory) :=
  if p = 0 then .ok (-1, m)
  else do
    let m ← m.unlinkPrev list (← load m.nodes p)
    let m ← m.unlinkNext list (← load m.nodes p)
    let m ← m.modifyNode p fun node => { node with next := 0, prev := 0 }
    let node ← load m.nodes p
    if node.listIsOwner ≠ 0 then
      return (0, { m with nodes := Function.update m.nodes p none })
    else return (0, m)

end ListMemory

/-! ## Lists in memory -/

/-- The links of a list. -/
def ListMemory.links (m : ListMemory) (list : Nat) : Links Nat where
  head := (m.lists list).head
  nxt a := (m.nodes a).elim 0 ListNode.next
  prv a := (m.nodes a).elim 0 ListNode.prev

/-- The list runs through `xs`, from its head to its tail, forwards and
backwards. -/
structure ListMemory.Holds (m : ListMemory) (list : Nat) (xs : List Nat) : Prop where
  linked : (m.links list).Holds xs
  tail : (m.lists list).tail = xs.getLastD 0
  alive : ∀ a ∈ xs, m.nodes a ≠ none

section
variable {m m' : ListMemory} {list p a x : Nat} {xs l r : List Nat} {node n : ListNode}
  {f : ListNode → ListNode}

theorem modifyNode_eq (h : m.nodes p = some node) : m.modifyNode p f =
    .ok { m with nodes := Function.update m.nodes p (some (f node)) } := by
  unfold ListMemory.modifyNode
  rw [load_some h]
  rfl

theorem headD_mem (h : xs.headD 0 ≠ 0) : xs.headD 0 ∈ xs := by
  cases xs with
  | nil => exact absurd rfl h
  | cons a xs => exact List.mem_cons_self

theorem getLastD_mem (h : xs.getLastD 0 ≠ 0) : xs.getLastD 0 ∈ xs := by
  cases xs with
  | nil => exact absurd rfl h
  | cons a xs =>
    rw [List.getLastD_cons]
    exact List.getLastD_mem_cons

/-- The ends of a list say whether it is empty. -/
theorem ListMemory.Holds.head_eq_zero (h : m.Holds list xs) :
    (m.lists list).head = 0 ↔ xs = [] := by
  have hhead : (m.lists list).head = xs.headD 0 := h.linked.head_eq
  rw [hhead]
  cases xs with
  | nil => exact ⟨fun _ => rfl, fun _ => rfl⟩
  | cons a xs => exact ⟨fun hzero => absurd hzero (h.linked.ne_zero List.mem_cons_self), nofun⟩

theorem ListMemory.Holds.tail_eq_zero (h : m.Holds list xs) :
    (m.lists list).tail = 0 ↔ xs = [] := by
  rw [h.tail]
  cases xs with
  | nil => exact ⟨fun _ => rfl, fun _ => rfl⟩
  | cons a xs =>
    rw [List.getLastD_cons]
    exact ⟨fun hzero => absurd hzero (h.linked.ne_zero List.getLastD_mem_cons), nofun⟩

/-- A list whose ends and nodes are as before. -/
theorem ListMemory.Holds.congr (h : m.Holds list xs) (hlist : m'.lists list = m.lists list)
    (hnodes : ∀ a ∈ xs, m'.nodes a = m.nodes a) : m'.Holds list xs where
  linked := by
    refine h.linked.congr (congrArg ListEnds.head hlist) (fun a ha => ?_) fun a ha => ?_
    · exact congrArg (·.elim 0 ListNode.next) (hnodes a ha)
    · exact congrArg (·.elim 0 ListNode.prev) (hnodes a ha)
  tail := (congrArg ListEnds.tail hlist).trans h.tail
  alive a ha := hnodes a ha ▸ h.alive a ha

/-! ## Insertion -/

/-- A node when `p` has been put behind the tail. -/
def appended (tail p a : Nat) (n : ListNode) : ListNode :=
  { n with
    next := if a = tail then p else n.next
    prev := if a = p then tail else n.prev }

/-- The list with another node behind its tail. -/
structure Appended (m : ListMemory) (list p : Nat) (m' : ListMemory) : Prop where
  lists : m'.lists = Function.update m.lists list
    ⟨if (m.lists list).head = 0 then p else (m.lists list).head, p⟩
  nodes : ∀ a, m'.nodes a = (m.nodes a).map (appended (m.lists list).tail p a)

theorem ListMemory.Holds.insertNode (h : m.Holds list xs) (hnull : m.nodes 0 = none) (hp : p ≠ 0)
    (hnode : m.nodes p = some node) (hprev : node.prev = 0) (hnot : p ∉ xs) :
    ∃ m', m.linkedListInsertNode list p = .ok (0, m') ∧ Appended m list p m' := by
  unfold ListMemory.linkedListInsertNode
  rw [if_neg hp]
  by_cases hempty : (m.lists list).head = 0
  · rw [if_pos hempty]
    refine ⟨_, rfl, ?_, fun a => ?_⟩
    · rw [if_pos hempty]
      rfl
    · have htail : (m.lists list).tail = 0 := h.tail_eq_zero.mpr (h.head_eq_zero.mp hempty)
      show m.nodes a = _
      rw [htail]
      cases hn : m.nodes a with
      | none => rfl
      | some n =>
        have ha : a ≠ 0 := by
          rintro rfl
          cases hnull.symm.trans hn
        have hsame : appended 0 p a n = n := by
          unfold appended
          rw [if_neg ha]
          split
          · rename_i hap
            cases hnode.symm.trans (hap ▸ hn)
            exact hprev ▸ rfl
          · rfl
        rw [Option.map_some, hsame]
  · rw [if_neg hempty]
    have hne : (m.lists list).tail ≠ 0 := fun hzero =>
      hempty (h.head_eq_zero.mpr (h.tail_eq_zero.mp hzero))
    have hmem : (m.lists list).tail ∈ xs := h.tail ▸ getLastD_mem (h.tail ▸ hne)
    obtain ⟨last, hlast⟩ := Option.ne_none_iff_exists'.mp (h.alive _ hmem)
    have hpt : p ≠ (m.lists list).tail := fun heq => hnot (heq ▸ hmem)
    have hnode' : Function.update m.nodes (m.lists list).tail (some { last with next := p }) p =
        some node := (Function.update_of_ne hpt ..).trans hnode
    dsimp only
    rw [modifyNode_eq hlast]
    show ∃ m', (ListMemory.modifyNode { m with nodes := _ } p _ >>= _) = _ ∧ _
    rw [modifyNode_eq (m := { m with nodes := _ }) hnode']
    refine ⟨_, rfl, ?_, fun a => ?_⟩
    · rw [if_neg hempty]
      rfl
    · show Function.update (Function.update m.nodes _ _) p _ a = _
      unfold appended
      by_cases hap : a = p
      · rw [hap, Function.update_self, hnode, Option.map_some, if_neg hpt, if_pos rfl]
      · rw [Function.update_of_ne hap]
        by_cases hat : a = (m.lists list).tail
        · rw [hat, Function.update_self, hlast, Option.map_some, if_pos rfl, if_neg hpt.symm]
        · rw [Function.update_of_ne hat]
          simp only [if_neg hap, if_neg hat]
          exact (Option.map_id' ..).symm

/-- The list runs through the new node too. -/
theorem Appended.holds (happended : Appended m list p m') (h : m.Holds list xs) (hp : p ≠ 0)
    (hnode : m.nodes p = some node) (hnext : node.next = 0) (hnot : p ∉ xs) :
    m'.Holds list (xs ++ [p]) := by
  have hlinked : (m.links list).Holds (xs ++ []) := (List.append_nil xs).symm ▸ h.linked
  have hins := hlinked.insertAfter h.tail hp (by rwa [List.append_nil])
  have hlast : (m.links list).next (m.lists list).tail = 0 := h.tail ▸ h.linked.next_last
  obtain ⟨hhead, hnxt, hprv⟩ := Links.insertAfter_end hlast p
  have hlist : m'.lists list = ⟨if (m.lists list).head = 0 then p else (m.lists list).head, p⟩ := by
    rw [happended.lists, Function.update_self]
  have halive : ∀ a ∈ xs ++ [p], a ≠ 0 ∧ m.nodes a ≠ none := by
    intro a ha
    rcases List.mem_append.mp ha with ha | ha
    · exact ⟨h.linked.ne_zero ha, h.alive a ha⟩
    · rw [List.mem_singleton.mp ha, hnode]
      exact ⟨hp, nofun⟩
  refine ⟨hins.congr ?_ (fun a ha => ?_) (fun a ha => ?_), ?_, fun a ha => ?_⟩
  · rw [hhead]
    show (m'.lists list).head = _
    rw [hlist]
    exact if_congr (h.head_eq_zero.trans h.tail_eq_zero.symm) rfl rfl
  · obtain ⟨ha, n, hn⟩ := (halive a ha).imp_right Option.ne_none_iff_exists'.mp
    rw [hnxt a ha]
    show (m'.nodes a).elim 0 ListNode.next = if a = _ then p else if a = p then 0 else
      (m.nodes a).elim 0 ListNode.next
    rw [happended.nodes a, hn]
    refine if_congr Iff.rfl rfl ?_
    split
    · rename_i hap
      cases hnode.symm.trans (hap ▸ hn)
      exact hnext
    · rfl
  · obtain ⟨ha, n, hn⟩ := (halive a ha).imp_right Option.ne_none_iff_exists'.mp
    rw [hprv a]
    show (m'.nodes a).elim 0 ListNode.prev = if a = p then _ else
      (m.nodes a).elim 0 ListNode.prev
    rw [happended.nodes a, hn]
    rfl
  · rw [hlist, List.getLastD_concat]
  · obtain ⟨ha, n, hn⟩ := (halive a ha).imp_right Option.ne_none_iff_exists'.mp
    rw [happended.nodes a, hn]
    nofun

/-- The other lists do not see it. -/
theorem Appended.holds_other (happended : Appended m list p m') (h : m.Holds list xs) {other : Nat}
    (hother : other ≠ list) {ys : List Nat} (hys : m.Holds other ys)
    (hdisjoint : ∀ a ∈ ys, a ∉ xs) (hnot : p ∉ ys) : m'.Holds other ys := by
  refine hys.congr ?_ fun a ha => ?_
  · rw [happended.lists, Function.update_of_ne hother]
  · have ha0 := hys.linked.ne_zero ha
    have hap : a ≠ p := fun heq => hnot (heq ▸ ha)
    have hat : a ≠ (m.lists list).tail := by
      rintro rfl
      exact hdisjoint _ ha (h.tail ▸ getLastD_mem (h.tail ▸ ha0))
    rw [happended.nodes a]
    unfold appended
    simp only [if_neg hap, if_neg hat]
    exact Option.map_id' ..

/-! ## Removal -/

/-- The memory in which one node has been written to. -/
theorem modifyNode_map (h : m.nodes p ≠ none) : m.modifyNode p f =
    .ok { m with nodes := fun a => (m.nodes a).map fun n => if a = p then f n else n } := by
  obtain ⟨node, hnode⟩ := Option.ne_none_iff_exists'.mp h
  rw [modifyNode_eq hnode]
  refine congrArg (fun nodes => Except.ok { m with nodes }) (funext fun a => ?_)
  by_cases hap : a = p
  · rw [hap, Function.update_self, hnode, Option.map_some, if_pos rfl]
  · rw [Function.update_of_ne hap]
    simp only [if_neg hap]
    exact (Option.map_id' ..).symm

/-- A node when `node` has been unlinked. -/
def joined (node : ListNode) (a : Nat) (n : ListNode) : ListNode :=
  { n with
    next := if a = node.prev then node.next else n.next
    prev := if a = node.next then node.prev else n.prev }

/-- The list without a node, which is freed if it is the list's own. -/
structure Removed (m : ListMemory) (list p : Nat) (node : ListNode) (m' : ListMemory) : Prop where
  lists : m'.lists = Function.update m.lists list
    ⟨if node.prev = 0 then node.next else (m.lists list).head,
      if node.next = 0 then node.prev else (m.lists list).tail⟩
  removed : m'.nodes p =
    if node.listIsOwner ≠ 0 then none else some { node with next := 0, prev := 0 }
  other : ∀ a ≠ p, m'.nodes a = (m.nodes a).map (joined node a)

theorem unlinkPrev_eq (list : Nat) (node : ListNode) (hnull : m.nodes 0 = none)
    (h : node.prev ≠ 0 → m.nodes node.prev ≠ none) :
    ∃ m', m.unlinkPrev list node = .ok m' ∧
      m'.lists = Function.update m.lists list
        ⟨if node.prev = 0 then node.next else (m.lists list).head, (m.lists list).tail⟩ ∧
      ∀ a, m'.nodes a = (m.nodes a).map fun n =>
        { n with next := if a = node.prev then node.next else n.next } := by
  unfold ListMemory.unlinkPrev
  by_cases hzero : node.prev = 0
  · rw [if_neg (not_not_intro hzero)]
    refine ⟨_, rfl, ?_, fun a => ?_⟩
    · rw [if_pos hzero]
      rfl
    · show m.nodes a = _
      rw [hzero]
      by_cases ha : a = 0
      · rw [ha, hnull]
        rfl
      · simp only [if_neg ha]
        exact (Option.map_id' ..).symm
  · rw [if_pos hzero, modifyNode_map (h hzero)]
    refine ⟨_, rfl, ?_, fun a => ?_⟩
    · rw [if_neg hzero]
      exact (Function.update_eq_self ..).symm
    · refine congrArg (fun g => (m.nodes a).map g) (funext fun n => ?_)
      split <;> rfl

theorem unlinkNext_eq (list : Nat) (node : ListNode) (hnull : m.nodes 0 = none)
    (h : node.next ≠ 0 → m.nodes node.next ≠ none) :
    ∃ m', m.unlinkNext list node = .ok m' ∧
      m'.lists = Function.update m.lists list
        ⟨(m.lists list).head, if node.next = 0 then node.prev else (m.lists list).tail⟩ ∧
      ∀ a, m'.nodes a = (m.nodes a).map fun n =>
        { n with prev := if a = node.next then node.prev else n.prev } := by
  unfold ListMemory.unlinkNext
  by_cases hzero : node.next = 0
  · rw [if_neg (not_not_intro hzero)]
    refine ⟨_, rfl, ?_, fun a => ?_⟩
    · rw [if_pos hzero]
      rfl
    · show m.nodes a = _
      rw [hzero]
      by_cases ha : a = 0
      · rw [ha, hnull]
        rfl
      · simp only [if_neg ha]
        exact (Option.map_id' ..).symm
  · rw [if_pos hzero, modifyNode_map (h hzero)]
    refine ⟨_, rfl, ?_, fun a => ?_⟩
    · rw [if_neg hzero]
      exact (Function.update_eq_self ..).symm
    · refine congrArg (fun g => (m.nodes a).map g) (funext fun n => ?_)
      split <;> rfl

/-- Where a node stands in its list. -/
theorem ListMemory.Holds.place (h : m.Holds list (l ++ p :: r)) (hnode : m.nodes p = some node) :
    node.next = r.headD 0 ∧ node.prev = l.getLastD 0 := by
  have hnext : (m.nodes p).elim 0 ListNode.next = _ := h.linked.nxt_eq
  have hprev : (m.nodes p).elim 0 ListNode.prev = _ := h.linked.prv_eq
  rw [hnode] at hnext hprev
  exact ⟨hnext, hprev⟩

theorem ListMemory.Holds.remove (h : m.Holds list (l ++ p :: r)) (hnull : m.nodes 0 = none)
    (hnode : m.nodes p = some node) :
    ∃ m', m.linkedListRemove list p = .ok (0, m') ∧ Removed m list p node m' := by
  obtain ⟨hnext, hprev⟩ := h.place hnode
  have hp : p ≠ 0 := h.linked.ne_zero (by simp)
  have hnodup := (List.nodup_cons.mp h.linked.nodup).2
  rw [List.nodup_middle, List.nodup_cons] at hnodup
  have hbehind (hzero : node.prev ≠ 0) : node.prev ∈ l := hprev ▸ getLastD_mem (hprev ▸ hzero)
  have hfront (hzero : node.next ≠ 0) : node.next ∈ r := hnext ▸ headD_mem (hnext ▸ hzero)
  have hpprev : p ≠ node.prev := fun heq =>
    hnodup.1 (List.mem_append_left _ (heq ▸ hbehind (heq ▸ hp)))
  have hpnext : p ≠ node.next := fun heq =>
    hnodup.1 (List.mem_append_right _ (heq ▸ hfront (heq ▸ hp)))
  -- the links of the neighbours
  obtain ⟨m₁, heq₁, hlists₁, hnodes₁⟩ := unlinkPrev_eq list node hnull
    fun hzero => h.alive _ (by simp [hbehind hzero])
  have hnull₁ : m₁.nodes 0 = none := by
    rw [hnodes₁, hnull]
    rfl
  have hnode₁ : m₁.nodes p = some node := by
    rw [hnodes₁, hnode, Option.map_some, if_neg hpprev]
  obtain ⟨m₂, heq₂, hlists₂, hnodes₂⟩ := unlinkNext_eq list node hnull₁
    fun hzero => by
      rw [hnodes₁]
      exact fun hnone => h.alive _ (by simp [hfront hzero]) (Option.map_eq_none_iff.mp hnone)
  have hnode₂ : m₂.nodes p = some node := by
    rw [hnodes₂, hnode₁, Option.map_some, if_neg hpnext]
  have hother : ∀ a, m₂.nodes a = (m.nodes a).map (joined node a) := by
    intro a
    rw [hnodes₂, hnodes₁, Option.map_map]
    rfl
  have hlists : m₂.lists = Function.update m.lists list
      ⟨if node.prev = 0 then node.next else (m.lists list).head,
        if node.next = 0 then node.prev else (m.lists list).tail⟩ := by
    rw [hlists₂, hlists₁, Function.update_self, Function.update_idem]
  -- the node itself
  unfold ListMemory.linkedListRemove
  rw [if_neg hp, load_some hnode]
  show ∃ m', (m.unlinkPrev list node >>= _) = _ ∧ _
  rw [heq₁]
  show ∃ m', (load m₁.nodes p >>= _) = _ ∧ _
  rw [load_some hnode₁]
  show ∃ m', (m₁.unlinkNext list node >>= _) = _ ∧ _
  rw [heq₂]
  show ∃ m', (m₂.modifyNode p _ >>= _) = _ ∧ _
  rw [modifyNode_eq hnode₂]
  let cleared : Nat → Option ListNode :=
    Function.update m₂.nodes p (some { node with next := 0, prev := 0 })
  show ∃ m', (load cleared p >>= _) = _ ∧ _
  have hcleared : cleared p = some { node with next := 0, prev := 0 } := Function.update_self ..
  have hkept : ∀ a ≠ p, cleared a = (m.nodes a).map (joined node a) := fun a hap =>
    (Function.update_of_ne hap ..).trans (hother a)
  rw [load_some hcleared]
  show ∃ m', (if node.listIsOwner ≠ 0 then _ else _) = _ ∧ _
  by_cases howner : node.listIsOwner ≠ 0
  · rw [if_pos howner]
    refine ⟨{ m₂ with nodes := Function.update cleared p none }, rfl, hlists, ?_, fun a hap => ?_⟩
    · rw [if_pos howner]
      exact Function.update_self ..
    · exact (Function.update_of_ne hap ..).trans (hkept a hap)
  · rw [if_neg howner]
    refine ⟨{ m₂ with nodes := cleared }, rfl, hlists, ?_, hkept⟩
    rw [if_neg howner]
    exact hcleared

/-- The list runs past the removed node. -/
theorem Removed.holds (hremoved : Removed m list p node m') (h : m.Holds list (l ++ p :: r))
    (hnode : m.nodes p = some node) : m'.Holds list (l ++ r) := by
  obtain ⟨hnext, hprev⟩ := h.place hnode
  have hnodup := (List.nodup_cons.mp h.linked.nodup).2
  rw [List.nodup_middle, List.nodup_cons] at hnodup
  have hrem := h.linked.remove
  have hlist : m'.lists list = ⟨if node.prev = 0 then node.next else (m.lists list).head,
      if node.next = 0 then node.prev else (m.lists list).tail⟩ := by
    rw [hremoved.lists, Function.update_self]
  have hnxtp : (m.links list).nxt p = node.next := congrArg (·.elim 0 ListNode.next) hnode
  have hprvp : (m.links list).prv p = node.prev := congrArg (·.elim 0 ListNode.prev) hnode
  have halive : ∀ a ∈ l ++ r, a ≠ 0 ∧ a ≠ p ∧ m.nodes a ≠ none := by
    intro a ha
    refine ⟨hrem.ne_zero ha, fun heq => hnodup.1 (heq ▸ ha), h.alive a ?_⟩
    rw [List.mem_append, List.mem_cons]
    exact (List.mem_append.mp ha).imp_right .inr
  refine ⟨hrem.congr ?_ (fun a ha => ?_) (fun a ha => ?_), ?_, fun a ha => ?_⟩
  · obtain ⟨hhead, -⟩ := Links.remove_links (L := m.links list) (y := p) (x := p + 1)
      (Nat.succ_ne_zero p) (Nat.succ_ne_self p)
    rw [hhead, hnxtp, hprvp]
    exact congrArg ListEnds.head hlist
  · obtain ⟨ha0, hap, halive⟩ := halive a ha
    obtain ⟨n, hn⟩ := Option.ne_none_iff_exists'.mp halive
    obtain ⟨-, hnxt, -⟩ := Links.remove_links (L := m.links list) ha0 hap
    rw [hnxt, hnxtp, hprvp]
    show (m'.nodes a).elim 0 ListNode.next = if a = node.prev then node.next else
      (m.nodes a).elim 0 ListNode.next
    rw [hremoved.other a hap, hn]
    rfl
  · obtain ⟨ha0, hap, halive⟩ := halive a ha
    obtain ⟨n, hn⟩ := Option.ne_none_iff_exists'.mp halive
    obtain ⟨-, -, hprv⟩ := Links.remove_links (L := m.links list) ha0 hap
    rw [hprv, hnxtp, hprvp]
    show (m'.nodes a).elim 0 ListNode.prev = if a = node.next then node.prev else
      (m.nodes a).elim 0 ListNode.prev
    rw [hremoved.other a hap, hn]
    rfl
  · rw [hlist]
    show (if node.next = 0 then node.prev else (m.lists list).tail) = _
    rw [hnext, hprev, h.tail]
    cases r with
    | nil => rw [List.headD_nil, if_pos rfl, List.append_nil]
    | cons b r =>
      have hb : b ≠ 0 := h.linked.ne_zero (by simp)
      rw [List.headD_cons, if_neg hb]
      simp [List.getLastD_eq_getLast?]
  · obtain ⟨ha0, hap, halive⟩ := halive a ha
    obtain ⟨n, hn⟩ := Option.ne_none_iff_exists'.mp halive
    rw [hremoved.other a hap, hn]
    nofun

/-- The other lists do not see it. -/
theorem Removed.holds_other (hremoved : Removed m list p node m') (h : m.Holds list (l ++ p :: r))
    (hnode : m.nodes p = some node) {other : Nat} (hother : other ≠ list) {ys : List Nat}
    (hys : m.Holds other ys) (hdisjoint : ∀ a ∈ ys, a ∉ l ++ p :: r) : m'.Holds other ys := by
  obtain ⟨hnext, hprev⟩ := h.place hnode
  refine hys.congr ?_ fun a ha => ?_
  · rw [hremoved.lists, Function.update_of_ne hother]
  · have ha0 := hys.linked.ne_zero ha
    have hnot := hdisjoint a ha
    have hap : a ≠ p := fun heq => hnot (by simp [heq])
    have hanext : a ≠ node.next := by
      rintro rfl
      exact hnot (by simp [hnext ▸ headD_mem (hnext ▸ ha0)])
    have haprev : a ≠ node.prev := by
      rintro rfl
      exact hnot (by simp [hprev ▸ getLastD_mem (hprev ▸ ha0)])
    rw [hremoved.other a hap]
    unfold joined
    simp only [if_neg hanext, if_neg haprev]
    exact Option.map_id' ..

end

end ZOs.Utils.LinkedList
