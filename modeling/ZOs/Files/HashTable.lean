import Mathlib.Data.BitVec
import ZOs.Lib.DList

/-!
# The hash table

`hash_table.c`: buckets of doubly linked nodes. A pointer is a number, 0
being NULL, and the memory of the nodes is a partial function: a block that
is not allocated has no node, so that an access through NULL, or through a
pointer to a freed node, is a fault. Keys are strings of bytes, as
`hash_key_create_data` makes them; what a key points to does not change
while the key is in the table.
-/

namespace ZOs.Files

open LinkedMem

/-- A machine word. -/
abbrev Word := BitVec 64

inductive Fault
  | nullPointer
  | danglingPointer
  | diverges
  deriving DecidableEq

/-- Read through a pointer. -/
def load {α : Type} (memory : Nat → Option α) (p : Nat) : Except Fault α :=
  match memory p with
  | some a => .ok a
  | none => .error (if p = 0 then .nullPointer else .danglingPointer)

/-- `hash_key_t` for data: the bytes it points to, as many as its size. -/
abbrev HashKey := List UInt8

/-- `hash_node_t`. -/
structure HashNode where
  key : HashKey
  data : Nat
  next : Nat
  prev : Nat

/-- `hash_table_t`, with the memory of its nodes. -/
structure HashTable where
  buckets : Nat → Nat
  bucketCount : Word
  nodeCount : Nat
  nodes : Nat → Option HashNode

/-- `hash_table_init`. -/
def hashTableInit (bucketCount : Word) : HashTable where
  buckets := fun _ => 0
  bucketCount
  nodeCount := 0
  nodes := fun _ => none

/-- `OFFSET_BASIS`. -/
def offsetBasis : Word := 14695981039346656037

/-- `PRIME`. -/
def prime : Word := 1099511628211

/-- `hash_function`, FNV-1a. -/
def hashFunction (data : List UInt8) : Word :=
  data.foldl (fun hash byte => (hash ^^^ byte.toBitVec.setWidth 64) * prime) offsetBasis

/-- The index of the bucket of a key, in a table of `bucketCount` buckets. -/
def bucketIndex (bucketCount : Word) (key : HashKey) : Nat :=
  (hashFunction key &&& (bucketCount - 1)).toNat

namespace HashTable

variable (t : HashTable)

/-- `hash_key_to_index`. -/
def hashKeyToIndex (key : HashKey) : Nat := bucketIndex t.bucketCount key

/-- Write to the fields of a node. -/
def modifyNode (p : Nat) (f : HashNode → HashNode) : Except Fault HashTable := do
  let node ← load t.nodes p
  return { t with nodes := Function.update t.nodes p (some (f node)) }

/-- `find_node_by_bucket` from a node on: the node of the key, or NULL. -/
def findNodeFrom (key : HashKey) : Nat → Nat → Except Fault Nat
  | fuel, p =>
    if p = 0 then .ok 0
    else
      match fuel with
      | 0 => .error .diverges
      | fuel + 1 => do
        let node ← load t.nodes p
        if node.key = key then return p else findNodeFrom key fuel node.next

/-- `find_node_by_bucket`. The loop makes no more steps than nodes have
been inserted. -/
def findNodeByBucket (index : Nat) (key : HashKey) : Except Fault Nat :=
  t.findNodeFrom key t.nodeCount (t.buckets index)

/-- `find_node`. -/
def findNode (key : HashKey) : Except Fault Nat :=
  t.findNodeByBucket (t.hashKeyToIndex key) key

/-- `hash_table_get`: `none` for -1. -/
def hashTableGet (key : HashKey) : Except Fault (Option Nat) := do
  let p ← t.findNode key
  if p = 0 then return none
  else
    let node ← load t.nodes p
    return some node.data

/-- The new node of `hash_table_set`, at the head of its bucket. -/
def insertNode (index : Nat) (key : HashKey) (p : Nat) : Except Fault HashTable := do
  let head := t.buckets index
  let node := { key, data := 0, next := head, prev := 0 }
  let t := { t with nodes := Function.update t.nodes p (some node) }
  let t ← if head = 0 then pure t else t.modifyNode head fun node => { node with prev := p }
  return { t with
    buckets := Function.update t.buckets index p
    nodeCount := t.nodeCount + 1 }

/-- `hash_table_set`; `newNode` is what `kmalloc` returns if it is called. -/
def hashTableSet (key : HashKey) (data newNode : Nat) : Except Fault HashTable := do
  let index := t.hashKeyToIndex key
  let p ← t.findNodeByBucket index key
  if p = 0 then
    let t ← t.insertNode index key newNode
    t.modifyNode newNode fun node => { node with data }
  else t.modifyNode p fun node => { node with data }

/-- The links around a node, as `hash_table_remove` sets them. -/
def unlinkNode (index p : Nat) (node : HashNode) : Except Fault HashTable :=
  if t.buckets index = p then
    let t := { t with buckets := Function.update t.buckets index node.next }
    -- the node in front of it, without a test for NULL
    t.modifyNode node.next fun node => { node with prev := 0 }
  else do
    let t ← if node.prev = 0 then pure t
      else t.modifyNode node.prev fun behind => { behind with next := node.next }
    if node.next = 0 then pure t
      else t.modifyNode node.next fun front => { front with prev := node.prev }

/-- `hash_table_remove`: `none` for -1. -/
def hashTableRemove (key : HashKey) : Except Fault (Option HashTable) := do
  let index := t.hashKeyToIndex key
  let p ← t.findNodeByBucket index key
  if p = 0 then return none
  else
    let node ← load t.nodes p
    let t ← t.unlinkNode index p node
    return some { t with nodes := Function.update t.nodes p none }

end HashTable

/-! ## The lists of the buckets -/

namespace HashTable

variable {t : HashTable} {chains : Nat → List Nat} {key : HashKey} {a b p data newNode : Nat}
  {node : HashNode} {f : HashNode → HashNode}

/-- The links of a bucket. -/
def links (t : HashTable) (index : Nat) : Links Nat where
  head := t.buckets index
  nxt a := (t.nodes a).elim 0 HashNode.next
  prv a := (t.nodes a).elim 0 HashNode.prev

/-- The nodes of the buckets are in lists, every node in that of its key,
and no key has two of them. -/
structure Inv (t : HashTable) (chains : Nat → List Nat) : Prop where
  holds : ∀ i, (t.links i).Holds (chains i)
  node : ∀ {i a}, a ∈ chains i → ∃ node, t.nodes a = some node ∧ t.hashKeyToIndex node.key = i
  chained : ∀ {a node}, t.nodes a = some node → a ∈ chains (t.hashKeyToIndex node.key)
  unique : ∀ {a b node node'}, t.nodes a = some node → t.nodes b = some node' →
    node.key = node'.key → a = b
  count : ∀ i, (chains i).length ≤ t.nodeCount

/-- What the table maps a key to. -/
def Maps (t : HashTable) (key : HashKey) (data : Nat) : Prop :=
  ∃ a node, t.nodes a = some node ∧ node.key = key ∧ node.data = data

theorem init_inv (bucketCount : Word) : (hashTableInit bucketCount).Inv fun _ => [] where
  holds i := ⟨⟨rfl, fun h => absurd rfl h⟩, by simp⟩
  node h := absurd h List.not_mem_nil
  chained h := nomatch h
  unique h := nomatch h
  count _ := Nat.zero_le _

theorem load_some {α : Type} {memory : Nat → Option α} {v : α} (h : memory p = some v) :
    load memory p = .ok v := by
  unfold load
  rw [h]

theorem modifyNode_eq (h : t.nodes p = some node) : t.modifyNode p f =
    .ok { t with nodes := Function.update t.nodes p (some (f node)) } := by
  unfold modifyNode
  rw [load_some h]
  rfl

theorem Inv.ne_zero (h : t.Inv chains) (ha : t.nodes a = some node) : a ≠ 0 :=
  (h.holds _).ne_zero (h.chained ha)

theorem Inv.nodes_zero (h : t.Inv chains) : t.nodes 0 = none := by
  cases hnode : t.nodes 0 with
  | none => rfl
  | some node => exact absurd rfl (h.ne_zero hnode)

/-- From any node of a bucket on, the loop looks at the nodes behind it. -/
theorem Inv.findNodeFrom_eq (h : t.Inv chains) {i : Nat} (r : List Nat) :
    ∀ (l : List Nat) (fuel : Nat), chains i = l ++ r → r.length ≤ fuel →
      ∃ p, t.findNodeFrom key fuel (r.headD 0) = .ok p ∧
        ((p ∈ r ∧ ∃ node, t.nodes p = some node ∧ node.key = key) ∨
          (p = 0 ∧ ∀ a ∈ r, ∀ node, t.nodes a = some node → node.key ≠ key)) := by
  induction r with
  | nil =>
    intro l fuel _ _
    refine ⟨0, ?_, .inr ⟨rfl, by simp⟩⟩
    unfold findNodeFrom
    rfl
  | cons a r ih =>
    intro l fuel hchain hfuel
    obtain ⟨fuel, rfl⟩ : ∃ k, fuel = k + 1 := ⟨fuel - 1, by rw [List.length_cons] at hfuel; omega⟩
    have ha : a ∈ chains i := by
      rw [hchain]
      simp
    obtain ⟨node, hnode, -⟩ := h.node ha
    have hstep : t.findNodeFrom key (fuel + 1) a =
        if node.key = key then .ok a else t.findNodeFrom key fuel node.next := by
      rw [findNodeFrom, if_neg (h.ne_zero hnode)]
      show (load t.nodes a >>= _) = _
      rw [load_some hnode]
      rfl
    show ∃ p, t.findNodeFrom key (fuel + 1) a = .ok p ∧ _
    rw [hstep]
    by_cases hkey : node.key = key
    · rw [if_pos hkey]
      exact ⟨a, rfl, .inl ⟨List.mem_cons_self, node, hnode, hkey⟩⟩
    · rw [if_neg hkey]
      have hnext : node.next = r.headD 0 := by
        have hlinks : (t.links i).Holds (l ++ a :: r) := hchain ▸ h.holds i
        have heq := hlinks.nxt_eq
        show _ = _
        rw [← heq]
        show _ = (t.nodes a).elim 0 HashNode.next
        rw [hnode]
        rfl
      rw [hnext]
      obtain ⟨p, heq, hp⟩ := ih (l ++ [a]) fuel (by rw [hchain]; simp)
        (by rw [List.length_cons] at hfuel; omega)
      refine ⟨p, heq, ?_⟩
      rcases hp with ⟨hmem, hfound⟩ | ⟨hzero, hnone⟩
      · exact .inl ⟨List.mem_cons_of_mem _ hmem, hfound⟩
      · refine .inr ⟨hzero, ?_⟩
        intro b hb node' hnode'
        rcases List.mem_cons.mp hb with rfl | hb
        · cases hnode.symm.trans hnode'
          exact hkey
        · exact hnone b hb node' hnode'

/-- The search finds the node of the key, or NULL if there is none. -/
theorem Inv.findNode_eq (h : t.Inv chains) (key : HashKey) :
    ∃ p, t.findNodeByBucket (t.hashKeyToIndex key) key = .ok p ∧
      ((∃ node, t.nodes p = some node ∧ node.key = key) ∨
        (p = 0 ∧ ∀ a node, t.nodes a = some node → node.key ≠ key)) := by
  have hhead : t.buckets (t.hashKeyToIndex key) = (chains (t.hashKeyToIndex key)).headD 0 :=
    (h.holds _).head_eq
  obtain ⟨p, heq, hp⟩ := @Inv.findNodeFrom_eq t chains key h _ (chains (t.hashKeyToIndex key)) []
    t.nodeCount rfl (h.count _)
  refine ⟨p, ?_, ?_⟩
  · unfold findNodeByBucket
    rw [hhead]
    exact heq
  · rcases hp with ⟨-, hfound⟩ | ⟨hzero, hnone⟩
    · exact .inl hfound
    · refine .inr ⟨hzero, ?_⟩
      intro a node hnode hkey
      have hmem := h.chained hnode
      rw [hkey] at hmem
      exact hnone a hmem node hnode hkey

theorem Inv.findNode_some (h : t.Inv chains) (hp : t.nodes p = some node) :
    t.findNodeByBucket (t.hashKeyToIndex node.key) node.key = .ok p := by
  obtain ⟨q, heq, hq⟩ := h.findNode_eq node.key
  rcases hq with ⟨node', hnode', hkey⟩ | ⟨-, hnone⟩
  · rw [heq, h.unique hnode' hp hkey]
  · exact absurd rfl (hnone p node hp)

theorem Inv.findNode_none (h : t.Inv chains)
    (hnone : ∀ a node, t.nodes a = some node → node.key ≠ key) :
    t.findNodeByBucket (t.hashKeyToIndex key) key = .ok 0 := by
  obtain ⟨q, heq, hq⟩ := h.findNode_eq key
  rcases hq with ⟨node', hnode', hkey⟩ | ⟨rfl, -⟩
  · exact absurd hkey (hnone q node' hnode')
  · exact heq

/-! ## Get -/

theorem Inv.get_some (h : t.Inv chains) (hmaps : t.Maps key data) :
    t.hashTableGet key = .ok (some data) := by
  obtain ⟨p, node, hnode, rfl, rfl⟩ := hmaps
  unfold hashTableGet findNode
  rw [h.findNode_some hnode]
  show (if p = 0 then _ else _) = _
  rw [if_neg (h.ne_zero hnode), load_some hnode]
  rfl

theorem Inv.get_none (h : t.Inv chains) (hnone : ∀ data, ¬ t.Maps key data) :
    t.hashTableGet key = .ok none := by
  have habsent : ∀ a node, t.nodes a = some node → node.key ≠ key :=
    fun a node hnode hkey => hnone node.data ⟨a, node, hnode, hkey, rfl⟩
  unfold hashTableGet findNode
  rw [h.findNode_none habsent]
  rfl

/-! ## Set -/

/-- Where the links of the nodes do not change, and neither do their keys. -/
theorem Inv.congr {t' : HashTable} (h : t.Inv chains) (hbuckets : t'.buckets = t.buckets)
    (hbucketCount : t'.bucketCount = t.bucketCount) (hcount : t.nodeCount ≤ t'.nodeCount)
    (hnodes : ∀ a, (t'.nodes a).map (fun n => (n.key, n.next, n.prev)) =
      (t.nodes a).map fun n => (n.key, n.next, n.prev)) : t'.Inv chains := by
  have hindex : ∀ key, t'.hashKeyToIndex key = t.hashKeyToIndex key := by
    intro key
    unfold hashKeyToIndex
    rw [hbucketCount]
  have hback : ∀ {a node'}, t'.nodes a = some node' → ∃ node, t.nodes a = some node ∧
      node.key = node'.key := by
    intro a node' hnode'
    have heq := hnodes a
    rw [hnode'] at heq
    obtain ⟨node, hnode, hsame⟩ := Option.map_eq_some_iff.mp heq.symm
    exact ⟨node, hnode, congrArg Prod.fst hsame⟩
  have hlinks : ∀ i, t'.links i = t.links i := by
    intro i
    unfold links
    congr 1
    · rw [hbuckets]
    · funext a
      have heq := hnodes a
      cases h₁ : t.nodes a <;> cases h₂ : t'.nodes a <;> simp_all
    · funext a
      have heq := hnodes a
      cases h₁ : t.nodes a <;> cases h₂ : t'.nodes a <;> simp_all
  refine ⟨?_, ?_, ?_, ?_, ?_⟩
  · intro i
    rw [hlinks]
    exact h.holds i
  · intro i a ha
    obtain ⟨node, hnode, hi⟩ := h.node ha
    have heq := hnodes a
    rw [hnode] at heq
    obtain ⟨node', hnode', hsame⟩ := Option.map_eq_some_iff.mp heq
    refine ⟨node', hnode', ?_⟩
    have hkey : node'.key = node.key := congrArg Prod.fst hsame
    rw [hindex, hkey]
    exact hi
  · intro a node' hnode'
    obtain ⟨node, hnode, hkey⟩ := hback hnode'
    rw [hindex, ← hkey]
    exact h.chained hnode
  · intro a b node₁ node₂ h₁ h₂ hkey
    obtain ⟨n₁, hn₁, hk₁⟩ := hback h₁
    obtain ⟨n₂, hn₂, hk₂⟩ := hback h₂
    exact h.unique hn₁ hn₂ (hk₁.trans (hkey.trans hk₂.symm))
  · intro i
    exact Nat.le_trans (h.count i) hcount

/-- What `hash_table_set` does to the table, and what the keys are mapped
to afterwards. -/
structure Updated (t : HashTable) (key : HashKey) (data : Nat) (t' : HashTable) : Prop where
  bucketCount : t'.bucketCount = t.bucketCount
  maps : ∀ k d, t'.Maps k d ↔ if k = key then d = data else t.Maps k d

/-- The key is in the table already: its node gets the new data. -/
theorem Inv.set_present (h : t.Inv chains) (hp : t.nodes p = some node) :
    ∃ t', t.hashTableSet node.key data newNode = .ok t' ∧ t'.Inv chains ∧
      Updated t node.key data t' ∧ t'.nodeCount = t.nodeCount := by
  have heq : t.hashTableSet node.key data newNode =
      .ok { t with nodes := Function.update t.nodes p (some { node with data }) } := by
    unfold hashTableSet
    dsimp only
    rw [h.findNode_some hp]
    show (if p = 0 then _ else _) = _
    rw [if_neg (h.ne_zero hp), modifyNode_eq hp]
  refine ⟨_, heq, h.congr rfl rfl (Nat.le_refl _) ?_, ⟨rfl, ?_⟩, rfl⟩
  · intro a
    by_cases ha : a = p
    · rw [ha, hp]
      show (Function.update t.nodes p _ p).map _ = _
      rw [Function.update_self]
      rfl
    · show (Function.update t.nodes p _ a).map _ = _
      rw [Function.update_of_ne ha]
  · intro k d
    by_cases hk : k = node.key
    · rw [if_pos hk, hk]
      constructor
      · rintro ⟨a, node', hnode', hkey, rfl⟩
        by_cases ha : a = p
        · rw [ha] at hnode'
          cases (Function.update_self p _ t.nodes).symm.trans hnode'
          rfl
        · have hold := (Function.update_of_ne ha _ t.nodes).symm.trans hnode'
          exact absurd (h.unique hold hp hkey) ha
      · rintro rfl
        exact ⟨p, _, Function.update_self .., rfl, rfl⟩
    · rw [if_neg hk]
      constructor
      · rintro ⟨a, node', hnode', hkey, hdata⟩
        by_cases ha : a = p
        · rw [ha] at hnode'
          cases (Function.update_self p _ t.nodes).symm.trans hnode'
          exact absurd hkey.symm hk
        · exact ⟨a, node', (Function.update_of_ne ha _ t.nodes).symm.trans hnode', hkey, hdata⟩
      · rintro ⟨a, node', hnode', hkey, hdata⟩
        have ha : a ≠ p := by
          rintro rfl
          cases hp.symm.trans hnode'
          exact hk hkey.symm
        exact ⟨a, node', (Function.update_of_ne ha _ _).trans hnode', hkey, hdata⟩

/-- The table with a new node at the head of the bucket of its key. -/
structure Inserted (t : HashTable) (key : HashKey) (data p : Nat) (t' : HashTable) : Prop where
  bucketCount : t'.bucketCount = t.bucketCount
  nodeCount : t'.nodeCount = t.nodeCount + 1
  buckets : t'.buckets = Function.update t.buckets (t.hashKeyToIndex key) p
  new : t'.nodes p = some { key, data, next := t.buckets (t.hashKeyToIndex key), prev := 0 }
  other : ∀ a ≠ p, t'.nodes a = (t.nodes a).map fun node =>
    if a = t.buckets (t.hashKeyToIndex key) then { node with prev := p } else node

theorem Inv.set_inserts (h : t.Inv chains) (hfree : t.nodes newNode = none)
    (hnone : ∀ a node, t.nodes a = some node → node.key ≠ key) :
    ∃ t', t.hashTableSet key data newNode = .ok t' ∧ Inserted t key data newNode t' := by
  have hhead := (h.holds (t.hashKeyToIndex key)).head_eq
  unfold hashTableSet
  dsimp only
  rw [h.findNode_none hnone]
  show ∃ t', (t.insertNode (t.hashKeyToIndex key) key newNode >>= _) = _ ∧ _
  generalize hindex : t.hashKeyToIndex key = index at hhead ⊢
  unfold insertNode
  dsimp only
  by_cases hzero : t.buckets index = 0
  · rw [if_pos hzero]
    refine ⟨_, modifyNode_eq (Function.update_self ..), rfl, rfl, ?_, ?_, ?_⟩
    · rw [hindex]
    · rw [hindex]
      exact Function.update_self ..
    · intro a ha
      show Function.update (Function.update t.nodes newNode _) newNode _ a = _
      rw [Function.update_of_ne ha, Function.update_of_ne ha, hindex, hzero]
      cases hnode : t.nodes a with
      | none => rfl
      | some node =>
        show _ = some (if a = 0 then _ else node)
        rw [if_neg (h.ne_zero hnode)]
  · rw [if_neg hzero]
    obtain ⟨node, hnode, -⟩ : ∃ node, t.nodes (t.buckets index) = some node ∧
        t.hashKeyToIndex node.key = index := by
      apply h.node
      change t.buckets index = _ at hhead
      cases hchain : chains index with
      | nil =>
        rw [hchain] at hhead
        exact absurd hhead hzero
      | cons a rest =>
        rw [hchain] at hhead
        rw [hhead]
        exact List.mem_cons_self
    have hne : t.buckets index ≠ newNode := by
      intro heq
      rw [heq, hfree] at hnode
      cases hnode
    let added := Function.update t.nodes newNode
      (some { key, data := 0, next := t.buckets index, prev := 0 })
    have hold : added (t.buckets index) = some node := (Function.update_of_ne hne _ _).trans hnode
    have hmod : ({ t with nodes := added } : HashTable).modifyNode (t.buckets index)
        (fun node => { node with prev := newNode }) =
        .ok { t with nodes :=
          Function.update added (t.buckets index) (some { node with prev := newNode }) } :=
      modifyNode_eq hold
    rw [hmod]
    have hself : Function.update added (t.buckets index) (some { node with prev := newNode })
        newNode = some { key, data := 0, next := t.buckets index, prev := 0 } := by
      rw [Function.update_of_ne hne.symm]
      exact Function.update_self ..
    refine ⟨_, modifyNode_eq hself, rfl, rfl, ?_, ?_, ?_⟩
    · rw [hindex]
    · rw [hindex]
      exact Function.update_self ..
    · intro a ha
      show Function.update (Function.update added _ _) newNode _ a = _
      rw [Function.update_of_ne ha, hindex]
      by_cases hhere : a = t.buckets index
      · rw [hhere, Function.update_self, hnode]
        show _ = some (if _ then _ else _)
        rw [if_pos rfl]
      · rw [Function.update_of_ne hhere]
        show Function.update t.nodes newNode _ a = _
        rw [Function.update_of_ne ha]
        cases t.nodes a with
        | none => rfl
        | some node =>
          show _ = some (if _ then _ else _)
          rw [if_neg hhere]

theorem Inserted.hashKeyToIndex {t' : HashTable} (h : Inserted t key data p t') (k : HashKey) :
    t'.hashKeyToIndex k = t.hashKeyToIndex k := by
  unfold HashTable.hashKeyToIndex
  rw [h.bucketCount]

/-- A node after the insertion is the new one, or an old one with its key
and data. -/
theorem Inserted.back {t' : HashTable} (h : Inserted t key data p t')
    (ha : t'.nodes a = some node) : (a = p ∧ node.key = key ∧ node.data = data) ∨
      (a ≠ p ∧ ∃ node', t.nodes a = some node' ∧ node.key = node'.key ∧
        node.data = node'.data) := by
  by_cases hap : a = p
  · rw [hap, h.new] at ha
    cases ha
    exact .inl ⟨hap, rfl, rfl⟩
  · rw [h.other a hap] at ha
    obtain ⟨node', hnode', heq⟩ := Option.map_eq_some_iff.mp ha
    refine .inr ⟨hap, node', hnode', ?_, ?_⟩ <;> rw [← heq] <;> split <;> rfl

theorem Inserted.keeps {t' : HashTable} (h : Inserted t key data p t') (hfree : t.nodes p = none)
    (ha : t.nodes a = some node) : a ≠ p ∧ ∃ node', t'.nodes a = some node' ∧
      node'.key = node.key ∧ node'.data = node.data ∧ node'.next = node.next := by
  have hap : a ≠ p := by
    rintro rfl
    rw [hfree] at ha
    cases ha
  rw [h.other a hap, ha]
  refine ⟨hap, _, rfl, ?_, ?_, ?_⟩ <;> split <;> rfl

theorem Inserted.updated {t' : HashTable} (h : Inserted t key data p t') (hfree : t.nodes p = none)
    (hnone : ∀ a node, t.nodes a = some node → node.key ≠ key) : Updated t key data t' where
  bucketCount := h.bucketCount
  maps k d := by
    constructor
    · rintro ⟨a, node, hnode, rfl, rfl⟩
      rcases h.back hnode with ⟨-, hkey, hdata⟩ | ⟨-, node', hnode', hkey, hdata⟩
      · rw [if_pos hkey, hdata]
      · rw [if_neg (hkey ▸ hnone a node' hnode')]
        exact ⟨a, node', hnode', hkey.symm, hdata.symm⟩
    · intro hmaps
      by_cases hk : k = key
      · rw [if_pos hk] at hmaps
        exact ⟨p, _, h.new, hk.symm, hmaps.symm⟩
      · rw [if_neg hk] at hmaps
        obtain ⟨a, node, hnode, rfl, rfl⟩ := hmaps
        obtain ⟨-, node', hnode', hkey, hdata, -⟩ := h.keeps hfree hnode
        exact ⟨a, node', hnode', hkey, hdata⟩

/-- The links of the bucket are those of an insertion at its head. -/
theorem Inserted.holds {t' : HashTable} (h : Inserted t key data p t') (hinv : t.Inv chains)
    (hp : p ≠ 0) (hfree : t.nodes p = none) (i : Nat) :
    (t'.links i).Holds (Function.update chains (t.hashKeyToIndex key)
      (p :: chains (t.hashKeyToIndex key)) i) := by
  have hnot : ∀ j, p ∉ chains j := by
    intro j hmem
    obtain ⟨node, hnode, -⟩ := hinv.node hmem
    rw [hfree] at hnode
    cases hnode
  have hhead := (hinv.holds (t.hashKeyToIndex key)).head_eq
  have hnxt : ∀ a ≠ p, (t'.nodes a).elim 0 HashNode.next = (t.nodes a).elim 0 HashNode.next := by
    intro a ha
    rw [h.other a ha]
    cases t.nodes a with
    | none => rfl
    | some node =>
      show (if _ then _ else _ : HashNode).next = node.next
      split <;> rfl
  by_cases hi : i = t.hashKeyToIndex key
  · rw [hi, Function.update_self]
    have hins : ((t.links (t.hashKeyToIndex key)).insertAfter 0 p).Holds
        (p :: chains (t.hashKeyToIndex key)) :=
      Links.Holds.insertAfter (l := []) (hinv.holds _) rfl hp (hnot _)
    obtain ⟨hinsHead, hinsNxt, hinsPrv⟩ := (t.links (t.hashKeyToIndex key)).insertAfter_zero p
    have hfront : p ≠ t.buckets (t.hashKeyToIndex key) := by
      intro heq
      change t.buckets (t.hashKeyToIndex key) = _ at hhead
      cases hchain : chains (t.hashKeyToIndex key) with
      | nil => exact hp (heq.trans (by rw [hhead, hchain]; rfl))
      | cons a rest =>
        apply hnot (t.hashKeyToIndex key)
        rw [hchain, heq, hhead, hchain]
        exact List.mem_cons_self
    apply hins.congr
    · rw [hinsHead]
      show t'.buckets _ = p
      rw [h.buckets, Function.update_self]
    · intro a ha
      rw [hinsNxt]
      show (t'.nodes a).elim 0 HashNode.next = _
      by_cases hap : a = p
      · rw [if_pos hap, hap, h.new]
        rfl
      · rw [if_neg hap]
        exact hnxt a hap
    · intro a ha
      have ha0 := hins.ne_zero ha
      rw [hinsPrv a ha0]
      show (t'.nodes a).elim 0 HashNode.prev =
        if a = t.buckets (t.hashKeyToIndex key) then p else _
      by_cases hap : a = p
      · rw [hap, h.new, if_neg hfront, if_pos rfl]
        rfl
      · rw [h.other a hap]
        rcases List.mem_cons.mp ha with heq | ha
        · exact absurd heq hap
        · obtain ⟨node, hnode, -⟩ := hinv.node ha
          rw [hnode]
          show (if _ then _ else _ : HashNode).prev = _
          split
          · rfl
          · show _ = (t.nodes a).elim 0 HashNode.prev
            rw [hnode]
            rfl
  · rw [Function.update_of_ne hi]
    apply (hinv.holds i).congr
    · show t'.buckets i = t.buckets i
      rw [h.buckets, Function.update_of_ne hi]
    · intro a ha
      exact hnxt a fun heq => hnot i (heq ▸ ha)
    · intro a ha
      obtain ⟨node, hnode, hindex⟩ := hinv.node ha
      have hother : a ≠ t.buckets (t.hashKeyToIndex key) := by
        intro heq
        change t.buckets (t.hashKeyToIndex key) = _ at hhead
        cases hchain : chains (t.hashKeyToIndex key) with
        | nil => exact hinv.ne_zero hnode (heq.trans (by rw [hhead, hchain]; rfl))
        | cons b rest =>
          have hmem : a ∈ chains (t.hashKeyToIndex key) := by
            rw [hchain, heq, hhead, hchain]
            exact List.mem_cons_self
          obtain ⟨node', hnode', hindex'⟩ := hinv.node hmem
          cases hnode.symm.trans hnode'
          exact hi (hindex.symm.trans hindex')
      show (t'.nodes a).elim 0 HashNode.prev = (t.nodes a).elim 0 HashNode.prev
      rw [h.other a fun heq => hnot i (heq ▸ ha), hnode]
      show (if _ then _ else _ : HashNode).prev = node.prev
      rw [if_neg hother]

theorem Inserted.inv {t' : HashTable} (h : Inserted t key data p t') (hinv : t.Inv chains)
    (hp : p ≠ 0) (hfree : t.nodes p = none)
    (hnone : ∀ a node, t.nodes a = some node → node.key ≠ key) :
    t'.Inv (Function.update chains (t.hashKeyToIndex key)
      (p :: chains (t.hashKeyToIndex key))) where
  holds := h.holds hinv hp hfree
  node := by
    intro i a ha
    by_cases hap : a = p
    · rw [hap]
      refine ⟨_, h.new, ?_⟩
      rw [h.hashKeyToIndex]
      by_contra hi
      rw [Function.update_of_ne (Ne.symm hi)] at ha
      obtain ⟨node, hnode, -⟩ := hinv.node ha
      rw [hap, hfree] at hnode
      cases hnode
    · have hold : a ∈ chains i := by
        by_cases hi : i = t.hashKeyToIndex key
        · rw [hi, Function.update_self] at ha
          rw [hi]
          exact (List.mem_cons.mp ha).resolve_left hap
        · rwa [Function.update_of_ne hi] at ha
      obtain ⟨node, hnode, hindex⟩ := hinv.node hold
      obtain ⟨-, node', hnode', hkey, -⟩ := h.keeps hfree hnode
      refine ⟨node', hnode', ?_⟩
      rw [h.hashKeyToIndex, hkey]
      exact hindex
  chained := by
    intro a node hnode
    rw [h.hashKeyToIndex]
    rcases h.back hnode with ⟨rfl, hkey, -⟩ | ⟨-, node', hnode', hkey, -⟩
    · rw [hkey, Function.update_self]
      exact List.mem_cons_self
    · have hold := hinv.chained hnode'
      rw [hkey]
      by_cases hi : t.hashKeyToIndex node'.key = t.hashKeyToIndex key
      · rw [hi, Function.update_self]
        exact List.mem_cons_of_mem _ (hi ▸ hold)
      · rwa [Function.update_of_ne hi]
  unique := by
    intro a b n m ha hb hkey
    rcases h.back ha with ⟨rfl, hka, -⟩ | ⟨-, na, hna, hka, -⟩
    · rcases h.back hb with ⟨rfl, -, -⟩ | ⟨-, nb, hnb, hkb, -⟩
      · rfl
      · exact absurd (hkb.symm.trans (hkey.symm.trans hka)) (hnone b nb hnb)
    · rcases h.back hb with ⟨rfl, hkb, -⟩ | ⟨-, nb, hnb, hkb, -⟩
      · exact absurd (hka.symm.trans (hkey.trans hkb)) (hnone a na hna)
      · exact hinv.unique hna hnb (hka.symm.trans (hkey.trans hkb))
  count := by
    intro i
    have hold := hinv.count i
    rw [h.nodeCount]
    by_cases hi : i = t.hashKeyToIndex key
    · rw [hi, Function.update_self, List.length_cons]
      rw [hi] at hold
      omega
    · rw [Function.update_of_ne hi]
      omega

/-- After `hash_table_set` the key is mapped to the new data, and all other
keys are as before. -/
theorem Inv.set_spec (h : t.Inv chains) (hnew : newNode ≠ 0) (hfree : t.nodes newNode = none)
    (key : HashKey) (data : Nat) : ∃ t' chains', t.hashTableSet key data newNode = .ok t' ∧
      t'.Inv chains' ∧ Updated t key data t' := by
  by_cases hpresent : ∃ a node, t.nodes a = some node ∧ node.key = key
  · obtain ⟨a, node, hnode, rfl⟩ := hpresent
    obtain ⟨t', heq, hinv, hupd, -⟩ := h.set_present hnode
    exact ⟨t', chains, heq, hinv, hupd⟩
  · have hnone : ∀ a node, t.nodes a = some node → node.key ≠ key :=
      fun a node hnode hkey => hpresent ⟨a, node, hnode, hkey⟩
    obtain ⟨t', heq, hins⟩ := h.set_inserts hfree hnone
    exact ⟨t', _, heq, hins.inv h hnew hfree hnone, hins.updated hfree hnone⟩

/-! ## Remove -/

/-- A node `a` when `node` has been unlinked. -/
def joined (node : HashNode) (a : Nat) (m : HashNode) : HashNode :=
  { m with
    next := if a = node.prev then node.next else m.next
    prev := if a = node.next then node.prev else m.prev }

theorem joined_other {m : HashNode} (hprev : a ≠ node.prev) (hnext : a ≠ node.next) :
    joined node a m = m := by
  unfold joined
  rw [if_neg hprev, if_neg hnext]

theorem joined_behind {m : HashNode} (hprev : a = node.prev) (hnext : a ≠ node.next) :
    joined node a m = { m with next := node.next } := by
  unfold joined
  rw [if_pos hprev, if_neg hnext]

theorem joined_front {m : HashNode} (hprev : a ≠ node.prev) (hnext : a = node.next) :
    joined node a m = { m with prev := node.prev } := by
  unfold joined
  rw [if_neg hprev, if_pos hnext]

/-- The table without a node, the links of its neighbours joined. -/
structure Removed (t : HashTable) (p : Nat) (node : HashNode) (t' : HashTable) : Prop where
  bucketCount : t'.bucketCount = t.bucketCount
  nodeCount : t'.nodeCount = t.nodeCount
  buckets : t'.buckets =
    if t.buckets (t.hashKeyToIndex node.key) = p then
      Function.update t.buckets (t.hashKeyToIndex node.key) node.next
    else t.buckets
  gone : t'.nodes p = none
  other : ∀ a ≠ p, t'.nodes a = (t.nodes a).map (joined node a)

/-- Where a node stands in its bucket. -/
theorem Inv.place (h : t.Inv chains) (hp : t.nodes p = some node) :
    ∃ l r, chains (t.hashKeyToIndex node.key) = l ++ p :: r ∧ node.next = r.headD 0 ∧
      node.prev = l.getLastD 0 ∧ t.buckets (t.hashKeyToIndex node.key) = (l ++ p :: r).headD 0 := by
  obtain ⟨l, r, hchain⟩ := List.append_of_mem (h.chained hp)
  have hlinks : (t.links (t.hashKeyToIndex node.key)).Holds (l ++ p :: r) := hchain ▸ h.holds _
  have hnext : (t.nodes p).elim 0 HashNode.next = r.headD 0 := hlinks.nxt_eq
  have hprev : (t.nodes p).elim 0 HashNode.prev = l.getLastD 0 := hlinks.prv_eq
  rw [hp] at hnext hprev
  exact ⟨l, r, hchain, hnext, hprev, hlinks.head_eq⟩

theorem remove_of_unlink {t₁ : HashTable} (h : t.Inv chains) (hp : t.nodes p = some node)
    (hunlink : t.unlinkNode (t.hashKeyToIndex node.key) p node = .ok t₁) :
    t.hashTableRemove node.key =
      .ok (some { t₁ with nodes := Function.update t₁.nodes p none }) := by
  unfold hashTableRemove
  dsimp only
  rw [h.findNode_some hp]
  show (if p = 0 then _ else _) = _
  rw [if_neg (h.ne_zero hp), load_some hp]
  show (t.unlinkNode (t.hashKeyToIndex node.key) p node >>= _) = _
  rw [hunlink]
  rfl

/-- The only node of a bucket is its head, and nothing is in front of it. -/
theorem Inv.remove_alone (h : t.Inv chains) (hp : t.nodes p = some node)
    (halone : ∀ a node', t.nodes a = some node' →
      t.hashKeyToIndex node'.key = t.hashKeyToIndex node.key → a = p) :
    t.hashTableRemove node.key = .error .nullPointer := by
  obtain ⟨l, r, hchain, hnext, -, hhead⟩ := h.place hp
  have hnodup := (List.nodup_cons.mp (h.holds (t.hashKeyToIndex node.key)).nodup).2
  have honly : ∀ a ∈ l ++ p :: r, a = p := by
    intro a ha
    obtain ⟨node', hnode', hindex⟩ := h.node (hchain ▸ ha)
    exact halone a node' hnode' hindex
  rw [hchain, List.nodup_middle, List.nodup_cons] at hnodup
  have hl : l = [] := List.eq_nil_iff_forall_not_mem.mpr fun a ha =>
    hnodup.1 (List.mem_append_left _ (honly a (by simp [ha]) ▸ ha))
  have hr : r = [] := List.eq_nil_iff_forall_not_mem.mpr fun a ha =>
    hnodup.1 (List.mem_append_right _ (honly a (by simp [ha]) ▸ ha))
  rw [hr] at hnext
  have hfirst : t.buckets (t.hashKeyToIndex node.key) = p := by
    rw [hhead, hl]
    rfl
  unfold hashTableRemove
  dsimp only
  rw [h.findNode_some hp]
  show (if p = 0 then _ else _) = _
  rw [if_neg (h.ne_zero hp), load_some hp]
  show (t.unlinkNode (t.hashKeyToIndex node.key) p node >>= _) = _
  have hzero : node.next = 0 := hnext
  unfold unlinkNode modifyNode load
  rw [if_pos hfirst, hzero]
  dsimp only
  rw [h.nodes_zero]
  rfl

/-- With another node in the bucket the removal goes through. -/
theorem Inv.remove_crowded (h : t.Inv chains) (hp : t.nodes p = some node) {b : Nat}
    {node' : HashNode} (hb : t.nodes b = some node') (hbp : b ≠ p)
    (hindex : t.hashKeyToIndex node'.key = t.hashKeyToIndex node.key) :
    ∃ t', t.hashTableRemove node.key = .ok (some t') ∧ Removed t p node t' := by
  obtain ⟨l, r, hchain, hnext, hprev, hhead⟩ := h.place hp
  have hnodup := (List.nodup_cons.mp (h.holds (t.hashKeyToIndex node.key)).nodup).2
  rw [hchain, List.nodup_middle, List.nodup_cons] at hnodup
  have hbmem : b ∈ l ++ p :: r := hchain ▸ hindex ▸ h.chained hb
  have hlive : ∀ a ∈ l ++ r, ∃ m, t.nodes a = some m := by
    intro a ha
    obtain ⟨m, hm, -⟩ := h.node (i := t.hashKeyToIndex node.key) (a := a) (by
      rw [hchain]
      rcases List.mem_append.mp ha with ha | ha
      · exact List.mem_append_left _ ha
      · exact List.mem_append_right _ (List.mem_cons_of_mem _ ha))
    exact ⟨m, hm⟩
  rcases List.eq_nil_or_concat l with rfl | ⟨l, x, rfl⟩
  · -- the node is the head: the other node is in front of it
    cases r with
    | nil => exact absurd (List.mem_singleton.mp hbmem) hbp
    | cons y r =>
      obtain ⟨m, hm⟩ := hlive y (by simp)
      have hfirst : t.buckets (t.hashKeyToIndex node.key) = p := hhead
      have hy : node.next = y := hnext
      have hzero : node.prev = 0 := hprev
      have hyp : y ≠ p := by
        rintro rfl
        exact hnodup.1 (by simp)
      have hunlink : t.unlinkNode (t.hashKeyToIndex node.key) p node = .ok
          { t with
            buckets := Function.update t.buckets (t.hashKeyToIndex node.key) y
            nodes := Function.update t.nodes y (some { m with prev := 0 }) } := by
        unfold unlinkNode
        rw [if_pos hfirst, hy]
        exact modifyNode_eq hm
      refine ⟨_, remove_of_unlink h hp hunlink, rfl, rfl, ?_, ?_, ?_⟩
      · rw [if_pos hfirst, hy]
      · exact Function.update_self ..
      · intro a ha
        show Function.update (Function.update t.nodes y _) p none a = _
        rw [Function.update_of_ne ha]
        by_cases hay : a = y
        · rw [hay, Function.update_self, hm, Option.map_some,
            joined_front (hzero ▸ h.ne_zero hm) hy.symm, hzero]
        · rw [Function.update_of_ne hay]
          cases ham : t.nodes a with
          | none => rfl
          | some n =>
            rw [Option.map_some, joined_other (hzero ▸ h.ne_zero ham) (hy ▸ hay)]
  · obtain ⟨m, hm⟩ := hlive x (by simp)
    have hx : node.prev = x := by
      rw [hprev]
      simp
    have hfirst : t.buckets (t.hashKeyToIndex node.key) ≠ p := by
      intro heq
      apply hnodup.1
      rw [← heq, hhead]
      cases l with
      | nil => simp
      | cons z l => simp
    have hxp : x ≠ p := by
      rintro rfl
      exact hnodup.1 (by simp)
    by_cases hlast : node.next = 0
    · have hunlink : t.unlinkNode (t.hashKeyToIndex node.key) p node = .ok
          { t with nodes := Function.update t.nodes x (some { m with next := 0 }) } := by
        unfold unlinkNode
        rw [if_neg hfirst, if_neg (hx.symm ▸ h.ne_zero hm), hx, modifyNode_eq hm]
        show (if _ then _ else _) = _
        rw [if_pos hlast, hlast]
        rfl
      refine ⟨_, remove_of_unlink h hp hunlink, rfl, rfl, ?_, ?_, ?_⟩
      · rw [if_neg hfirst]
      · exact Function.update_self ..
      · intro a ha
        show Function.update (Function.update t.nodes x _) p none a = _
        rw [Function.update_of_ne ha]
        by_cases hax : a = x
        · rw [hax, Function.update_self, hm, Option.map_some,
            joined_behind hx.symm (hlast ▸ h.ne_zero hm), hlast]
        · rw [Function.update_of_ne hax]
          cases ham : t.nodes a with
          | none => rfl
          | some n =>
            rw [Option.map_some, joined_other (hx ▸ hax) (hlast ▸ h.ne_zero ham)]
    · obtain ⟨y, r, rfl⟩ : ∃ y r', r = y :: r' := by
        cases r with
        | nil => exact absurd hnext hlast
        | cons y r => exact ⟨y, r, rfl⟩
      have hy : node.next = y := hnext
      obtain ⟨n, hn⟩ := hlive y (by simp)
      have hyp : y ≠ p := by
        rintro rfl
        exact hnodup.1 (by simp)
      have hyx : y ≠ x := by
        rintro rfl
        have hdisj := (List.nodup_append.mp hnodup.2).2.2
        exact hdisj y (by simp) y (by simp) rfl
      have hmod : Function.update t.nodes x (some { m with next := y }) y = some n :=
        (Function.update_of_ne hyx _ _).trans hn
      have hunlink : t.unlinkNode (t.hashKeyToIndex node.key) p node = .ok
          { t with
            nodes := Function.update (Function.update t.nodes x (some { m with next := y })) y
              (some { n with prev := x }) } := by
        unfold unlinkNode
        rw [if_neg hfirst, if_neg (hx.symm ▸ h.ne_zero hm), hx, modifyNode_eq hm]
        show (if _ then _ else _) = _
        rw [if_neg hlast, hy]
        exact modifyNode_eq hmod
      refine ⟨_, remove_of_unlink h hp hunlink, rfl, rfl, ?_, ?_, ?_⟩
      · rw [if_neg hfirst]
      · exact Function.update_self ..
      · intro a ha
        show Function.update (Function.update (Function.update t.nodes x _) y _) p none a = _
        rw [Function.update_of_ne ha]
        by_cases hay : a = y
        · rw [hay, Function.update_self, hn, Option.map_some,
            joined_front (hx.symm ▸ hyx) hy.symm, hx]
        · rw [Function.update_of_ne hay]
          by_cases hax : a = x
          · rw [hax, Function.update_self, hm, Option.map_some,
              joined_behind hx.symm (hy.symm ▸ hyx.symm), hy]
          · rw [Function.update_of_ne hax]
            cases t.nodes a with
            | none => rfl
            | some k => rw [Option.map_some, joined_other (hx.symm ▸ hax) (hy.symm ▸ hay)]

theorem Removed.hashKeyToIndex {t' : HashTable} (h : Removed t p node t') (k : HashKey) :
    t'.hashKeyToIndex k = t.hashKeyToIndex k := by
  unfold HashTable.hashKeyToIndex
  rw [h.bucketCount]

theorem Removed.back {t' : HashTable} {n : HashNode} (h : Removed t p node t')
    (ha : t'.nodes a = some n) :
    a ≠ p ∧ ∃ m, t.nodes a = some m ∧ n = joined node a m := by
  have hap : a ≠ p := by
    rintro rfl
    rw [h.gone] at ha
    cases ha
  rw [h.other a hap] at ha
  obtain ⟨m, hm, heq⟩ := Option.map_eq_some_iff.mp ha
  exact ⟨hap, m, hm, heq.symm⟩

theorem Removed.maps {t' : HashTable} (h : Removed t p node t') (hinv : t.Inv chains)
    (hp : t.nodes p = some node) (k : HashKey) (d : Nat) :
    t'.Maps k d ↔ k ≠ node.key ∧ t.Maps k d := by
  constructor
  · rintro ⟨a, n, hn, rfl, rfl⟩
    obtain ⟨hap, m, hm, rfl⟩ := h.back hn
    exact ⟨fun hkey => hap (hinv.unique hm hp hkey), a, m, hm, rfl, rfl⟩
  · rintro ⟨hk, a, m, hm, rfl, rfl⟩
    have hap : a ≠ p := by
      rintro rfl
      cases hp.symm.trans hm
      exact hk rfl
    refine ⟨a, joined node a m, ?_, rfl, rfl⟩
    rw [h.other a hap, hm]
    rfl

theorem Removed.inv {t' : HashTable} (h : Removed t p node t') (hinv : t.Inv chains)
    (hp : t.nodes p = some node) : ∃ chains', t'.Inv chains' := by
  obtain ⟨l, r, hchain, hnext, hprev, hhead⟩ := hinv.place hp
  have hlinks : (t.links (t.hashKeyToIndex node.key)).Holds (l ++ p :: r) := hchain ▸ hinv.holds _
  have hrem := hlinks.remove
  have hnodup := (List.nodup_cons.mp hlinks.nodup).2
  rw [List.nodup_middle, List.nodup_cons] at hnodup
  have hnxtp : (t.links (t.hashKeyToIndex node.key)).nxt p = node.next := by
    show (t.nodes p).elim 0 HashNode.next = _
    rw [hp]
    rfl
  have hprvp : (t.links (t.hashKeyToIndex node.key)).prv p = node.prev := by
    show (t.nodes p).elim 0 HashNode.prev = _
    rw [hp]
    rfl
  have hold : ∀ {i a}, a ∈ Function.update chains (t.hashKeyToIndex node.key) (l ++ r) i →
      a ∈ chains i ∧ a ≠ p := by
    intro i a ha
    by_cases hi : i = t.hashKeyToIndex node.key
    · rw [hi, Function.update_self] at ha
      refine ⟨?_, fun heq => hnodup.1 (heq ▸ ha)⟩
      rw [hi, hchain]
      rcases List.mem_append.mp ha with ha | ha
      · exact List.mem_append_left _ ha
      · exact List.mem_append_right _ (List.mem_cons_of_mem _ ha)
    · rw [Function.update_of_ne hi] at ha
      refine ⟨ha, ?_⟩
      rintro rfl
      obtain ⟨node', hnode', hindex⟩ := hinv.node ha
      cases hp.symm.trans hnode'
      exact hi hindex.symm
  refine ⟨Function.update chains (t.hashKeyToIndex node.key) (l ++ r), ?_, ?_, ?_, ?_, ?_⟩
  · intro i
    by_cases hi : i = t.hashKeyToIndex node.key
    · rw [hi, Function.update_self]
      apply hrem.congr
      · have hrh := (Links.remove_links (L := t.links (t.hashKeyToIndex node.key)) (y := p)
          (x := p + 1) (by omega) (by omega)).1
        rw [hrh, hnxtp, hprvp]
        show t'.buckets _ = _
        rw [h.buckets]
        cases l with
        | nil =>
          have hfirst : t.buckets (t.hashKeyToIndex node.key) = p := hhead
          have hzero : node.prev = 0 := hprev
          rw [if_pos hfirst, Function.update_self, if_pos hzero]
        | cons x l =>
          have hx : x ≠ p := fun heq => hnodup.1 (by simp [heq])
          have hfirst : t.buckets (t.hashKeyToIndex node.key) = x := hhead
          have hlast : node.prev ≠ 0 := by
            rw [hprev, List.getLastD_cons]
            exact hlinks.ne_zero (List.mem_append_left _ (List.getLastD_mem_cons ..))
          rw [hfirst, if_neg hx, if_neg hlast]
          rfl
      · intro a ha
        have hap : a ≠ p := fun heq => hnodup.1 (heq ▸ ha)
        obtain ⟨-, hrn, -⟩ := Links.remove_links (L := t.links (t.hashKeyToIndex node.key))
          (hrem.ne_zero ha) hap
        obtain ⟨m, hm, -⟩ := hinv.node (hold (i := t.hashKeyToIndex node.key) (a := a)
          (by rwa [Function.update_self])).1
        rw [hrn, hnxtp, hprvp]
        show (t'.nodes a).elim 0 HashNode.next =
          if a = node.prev then node.next else (t.nodes a).elim 0 HashNode.next
        rw [h.other a hap, hm]
        rfl
      · intro a ha
        have hap : a ≠ p := fun heq => hnodup.1 (heq ▸ ha)
        obtain ⟨-, -, hrp⟩ := Links.remove_links (L := t.links (t.hashKeyToIndex node.key))
          (hrem.ne_zero ha) hap
        obtain ⟨m, hm, -⟩ := hinv.node (hold (i := t.hashKeyToIndex node.key) (a := a)
          (by rwa [Function.update_self])).1
        rw [hrp, hnxtp, hprvp]
        show (t'.nodes a).elim 0 HashNode.prev =
          if a = node.next then node.prev else (t.nodes a).elim 0 HashNode.prev
        rw [h.other a hap, hm]
        rfl
    · rw [Function.update_of_ne hi]
      -- the neighbours of the node are in its own bucket
      have hother : ∀ a ∈ chains i, a ≠ p ∧ t'.nodes a = t.nodes a := by
        intro a ha
        obtain ⟨m, hm, hindex⟩ := hinv.node ha
        have hap : a ≠ p := by
          rintro rfl
          cases hp.symm.trans hm
          exact hi hindex.symm
        have hnotin : a ∉ l ++ p :: r := by
          intro hmem
          obtain ⟨m', hm', hindex'⟩ := hinv.node (hchain ▸ hmem)
          cases hm.symm.trans hm'
          exact hi (hindex.symm.trans hindex')
        have hnp : a ≠ node.prev := by
          rintro rfl
          rw [hprev] at hnotin hm
          rcases List.eq_nil_or_concat l with rfl | ⟨l, x, rfl⟩
          · exact hinv.ne_zero hm rfl
          · exact hnotin (by simp)
        have hnn : a ≠ node.next := by
          rintro rfl
          rw [hnext] at hnotin hm
          cases r with
          | nil => exact hinv.ne_zero hm rfl
          | cons x r => exact hnotin (by simp)
        rw [h.other a hap, hm, Option.map_some, joined_other hnp hnn]
        exact ⟨hap, rfl⟩
      apply (hinv.holds i).congr
      · show t'.buckets i = t.buckets i
        rw [h.buckets]
        split
        · exact Function.update_of_ne hi ..
        · rfl
      · intro a ha
        show (t'.nodes a).elim 0 HashNode.next = (t.nodes a).elim 0 HashNode.next
        rw [(hother a ha).2]
      · intro a ha
        show (t'.nodes a).elim 0 HashNode.prev = (t.nodes a).elim 0 HashNode.prev
        rw [(hother a ha).2]
  · intro i a ha
    obtain ⟨hmem, hap⟩ := hold ha
    obtain ⟨m, hm, hindex⟩ := hinv.node hmem
    refine ⟨joined node a m, ?_, ?_⟩
    · rw [h.other a hap, hm]
      rfl
    · rw [h.hashKeyToIndex]
      exact hindex
  · intro a n hn
    obtain ⟨hap, m, hm, rfl⟩ := h.back hn
    rw [h.hashKeyToIndex]
    show a ∈ Function.update chains _ _ (t.hashKeyToIndex m.key)
    have hmem := hinv.chained hm
    by_cases hi : t.hashKeyToIndex m.key = t.hashKeyToIndex node.key
    · rw [hi] at hmem ⊢
      rw [Function.update_self]
      rw [hchain] at hmem
      rcases List.mem_append.mp hmem with hmem | hmem
      · exact List.mem_append_left _ hmem
      · exact List.mem_append_right _ ((List.mem_cons.mp hmem).resolve_left hap)
    · rwa [Function.update_of_ne hi]
  · intro a b n m hn hm hkey
    obtain ⟨-, n', hn', rfl⟩ := h.back hn
    obtain ⟨-, m', hm', rfl⟩ := h.back hm
    exact hinv.unique hn' hm' hkey
  · intro i
    have hcount := hinv.count i
    rw [h.nodeCount]
    by_cases hi : i = t.hashKeyToIndex node.key
    · rw [hi, Function.update_self]
      rw [hi, hchain] at hcount
      simp only [List.length_append, List.length_cons] at hcount ⊢
      omega
    · rwa [Function.update_of_ne hi]

end HashTable

end ZOs.Files
