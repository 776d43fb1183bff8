import ZOs.Files.HashTable
import ZOs.Lib.Bytes

/-!
# Keys of the hash table

`hash_key_t` is a number, or a pointer to bytes with their size. The table
of `hash_table.c` compares and hashes what a key stands for, its content,
which is in memory for a key of bytes. As long as the keys of a table are of
one kind, its operations are those of the table of contents
(`HashTable.view`), whatever the pointers are.
-/

namespace ZOs.Utils.Hash

open Files (Fault load hashFunction bucketIndex)

/-! ## The code -/

abbrev Memory := Nat → UInt8

/-- `hash_key_t`: a number, or else, if the size is not 0, a pointer. -/
structure HashKey where
  value : Files.Word
  size : Files.Word

/-- `hash_key_create_data`. -/
def hashKeyCreateData (data size : Files.Word) : HashKey := ⟨data, size⟩

/-- `hash_key_create_u64`. -/
def hashKeyCreateU64 (value : Files.Word) : HashKey := ⟨value, 0⟩

/-- The bytes of a number, as they are in memory. -/
def numberBytes (value : Files.Word) : List UInt8 :=
  (List.range 8).map fun i => UInt8.ofBitVec (Bytes.byteOf value i)

/-- `n` bytes from an address on. -/
def readBytes (memory : Memory) (address n : Nat) : List UInt8 :=
  (List.range n).map fun i => memory (address + i)

/-- What the key stands for, as the bytes that are hashed. -/
def HashKey.content (memory : Memory) (key : HashKey) : List UInt8 :=
  if key.size = 0 then numberBytes key.value
  else readBytes memory key.value.toNat key.size.toNat

/-- `memory_compare`. -/
def memoryCompare (memory : Memory) (a b : Nat) : Nat → Int
  | 0 => 0
  | n + 1 =>
    if memory a < memory b then -1
    else if memory b < memory a then 1
    else memoryCompare memory (a + 1) (b + 1) n

structure HashNode where
  key : HashKey
  data : Nat
  next : Nat
  prev : Nat

/-- `hash_table_t`, with the memory of its nodes. -/
structure HashTable where
  buckets : Nat → Nat
  bucketCount : Files.Word
  nodeCount : Nat
  nodes : Nat → Option HashNode

/-- `is_power_of_2`. -/
def isPowerOf2 (value : Files.Word) : Bool := value &&& (value - 1) == 0

/-- `hash_table_init`, when `kmalloc` has the buckets. -/
def hashTableInit (bucketCount : Files.Word) : Option HashTable :=
  if bucketCount = 0 then none
  else if isPowerOf2 bucketCount then
    some { buckets := fun _ => 0, bucketCount, nodeCount := 0, nodes := fun _ => none }
  else none

/-- `key_matches`. -/
def keyMatches (memory : Memory) (node : HashNode) (key : HashKey) : Bool :=
  if node.key.size = 0 then node.key.value == key.value
  else node.key.size == key.size &&
    memoryCompare memory node.key.value.toNat key.value.toNat node.key.size.toNat == 0

namespace HashTable

variable (t : HashTable) (memory : Memory)

/-- `hash_key_to_index`. -/
def hashKeyToIndex (key : HashKey) : Nat := bucketIndex t.bucketCount (key.content memory)

def modifyNode (p : Nat) (f : HashNode → HashNode) : Except Fault HashTable := do
  let node ← load t.nodes p
  return { t with nodes := Function.update t.nodes p (some (f node)) }

/-- `find_node_by_bucket` from a node on. -/
def findNodeFrom (key : HashKey) : Nat → Nat → Except Fault Nat
  | fuel, p =>
    if p = 0 then .ok 0
    else
      match fuel with
      | 0 => .error .diverges
      | fuel + 1 => do
        let node ← load t.nodes p
        if keyMatches memory node key then return p else findNodeFrom key fuel node.next

/-- `find_node_by_bucket`. -/
def findNodeByBucket (index : Nat) (key : HashKey) : Except Fault Nat :=
  t.findNodeFrom memory key t.nodeCount (t.buckets index)

/-- `find_node`. -/
def findNode (key : HashKey) : Except Fault Nat :=
  t.findNodeByBucket memory (t.hashKeyToIndex memory key) key

/-- `hash_table_get`: `none` for -1. -/
def hashTableGet (key : HashKey) : Except Fault (Option Nat) := do
  let p ← t.findNode memory key
  if p = 0 then return none
  else
    let node ← load t.nodes p
    return some node.data

/-- `hash_table_contains`. -/
def hashTableContains (key : HashKey) : Except Fault Bool := do
  let p ← t.findNode memory key
  return p != 0

/-- The new node of `hash_table_set`, at the head of its bucket. -/
def insertNode (index : Nat) (key : HashKey) (p : Nat) : Except Fault HashTable := do
  let head := t.buckets index
  let node := { key, data := 0, next := head, prev := 0 }
  let t := { t with nodes := Function.update t.nodes p (some node) }
  let t ← if head = 0 then pure t else t.modifyNode head fun node => { node with prev := p }
  return { t with
    buckets := Function.update t.buckets index p
    nodeCount := t.nodeCount + 1 }

/-- `hash_table_set`; `newNode` is what `kmalloc` returns if it is called. -/
def hashTableSet (key : HashKey) (data newNode : Nat) : Except Fault (Int × HashTable) :=
  if data = 0 then .ok (-1, t)
  else do
    let index := t.hashKeyToIndex memory key
    let p ← t.findNodeByBucket memory index key
    if p = 0 then
      if newNode = 0 then return (-1, t)
      else
        let t ← t.insertNode index key newNode
        let t ← t.modifyNode newNode fun node => { node with data }
        return (0, t)
    else
      let t ← t.modifyNode p fun node => { node with data }
      return (0, t)

/-- The links around a node, as `hash_table_remove` sets them. -/
def unlinkNode (index p : Nat) (node : HashNode) : Except Fault HashTable :=
  if t.buckets index = p then
    let t := { t with buckets := Function.update t.buckets index node.next }
    t.modifyNode node.next fun node => { node with prev := 0 }
  else do
    let t ← if node.prev = 0 then pure t
      else t.modifyNode node.prev fun behind => { behind with next := node.next }
    if node.next = 0 then pure t
      else t.modifyNode node.next fun front => { front with prev := node.prev }

/-- `hash_table_remove`. -/
def hashTableRemove (key : HashKey) : Except Fault (Int × HashTable) := do
  let index := t.hashKeyToIndex memory key
  let p ← t.findNodeByBucket memory index key
  if p = 0 then return (-1, t)
  else
    let node ← load t.nodes p
    let t ← t.unlinkNode index p node
    return (0, { t with nodes := Function.update t.nodes p none })

end HashTable

/-! ## Keys and their contents -/

section
variable {memory : Memory} {key key' : HashKey} {node : HashNode} {a b n : Nat}

theorem readBytes_succ (memory : Memory) (a n : Nat) :
    readBytes memory a (n + 1) = memory a :: readBytes memory (a + 1) n := by
  unfold readBytes
  rw [List.range_succ_eq_map, List.map_cons, List.map_map]
  refine congrArg₂ _ rfl (List.map_congr_left fun i _ => ?_)
  show memory (a + (i + 1)) = memory (a + 1 + i)
  rw [Nat.add_right_comm, Nat.add_assoc]

/-- The loop finds no difference just if there is none. -/
theorem memoryCompare_eq_zero : ∀ {n a b : Nat}, memoryCompare memory a b n = 0 ↔
    readBytes memory a n = readBytes memory b n
  | 0, _, _ => ⟨fun _ => rfl, fun _ => rfl⟩
  | n + 1, a, b => by
    rw [memoryCompare, readBytes_succ, readBytes_succ, List.cons.injEq, ← memoryCompare_eq_zero]
    by_cases hlt : memory a < memory b
    · rw [if_pos hlt]
      exact ⟨fun h => absurd h (by decide), fun h => absurd h.1 (UInt8.ne_of_lt hlt)⟩
    · rw [if_neg hlt]
      by_cases hgt : memory b < memory a
      · rw [if_pos hgt]
        exact ⟨fun h => absurd h (by decide), fun h => absurd h.1.symm (UInt8.ne_of_lt hgt)⟩
      · rw [if_neg hgt]
        have heq : memory a = memory b :=
          UInt8.le_antisymm (UInt8.not_lt.mp hgt) (UInt8.not_lt.mp hlt)
        exact ⟨fun h => ⟨heq, h⟩, And.right⟩

theorem numberBytes_injective {x y : Files.Word} (h : numberBytes x = numberBytes y) : x = y := by
  have hbyte : ∀ i < 8, Bytes.byteOf x i = Bytes.byteOf y i := by
    intro i hi
    have hget := congrArg (·[i]?) h
    simp only [numberBytes, List.getElem?_map, List.getElem?_range hi, Option.map_some,
      Option.some.injEq] at hget
    exact congrArg UInt8.toBitVec hget
  refine BitVec.eq_of_getLsbD_eq fun k hk => ?_
  have hbit := congrArg (·.getLsbD (k % 8)) (hbyte (k / 8) (by omega))
  simp only [Bytes.getLsbD_byteOf (Nat.mod_lt k (by decide : 0 < 8)), Nat.div_add_mod] at hbit
  exact hbit

/-- Two keys of one kind. -/
def HashKey.Alike (key key' : HashKey) : Prop := key.size = 0 ↔ key'.size = 0

theorem keyMatches_iff (h : node.key.Alike key) : keyMatches memory node key = true ↔
    node.key.content memory = key.content memory := by
  unfold keyMatches HashKey.content
  by_cases hzero : node.key.size = 0
  · rw [if_pos hzero, if_pos hzero, if_pos (h.mp hzero), beq_iff_eq]
    exact ⟨fun heq => heq ▸ rfl, numberBytes_injective⟩
  · rw [if_neg hzero, if_neg hzero, if_neg fun hkey => hzero (h.mpr hkey), Bool.and_eq_true,
      beq_iff_eq, beq_iff_eq, memoryCompare_eq_zero]
    constructor
    · rintro ⟨hsize, hbytes⟩
      rwa [hsize] at hbytes ⊢
    · intro hbytes
      have hlength := congrArg List.length hbytes
      simp only [readBytes, List.length_map, List.length_range] at hlength
      have hsize : node.key.size = key.size := BitVec.eq_of_toNat_eq hlength
      exact ⟨hsize, by rwa [hsize] at hbytes ⊢⟩

end

/-! ## The table of contents -/

def HashNode.view (memory : Memory) (node : HashNode) : Files.HashNode :=
  ⟨node.key.content memory, node.data, node.next, node.prev⟩

/-- The table with the contents of its keys. -/
def HashTable.view (memory : Memory) (t : HashTable) : Files.HashTable where
  buckets := t.buckets
  bucketCount := t.bucketCount
  nodeCount := t.nodeCount
  nodes a := (t.nodes a).map (HashNode.view memory)

/-- The key is of the kind of the keys of the table. -/
def HashTable.Suits (t : HashTable) (key : HashKey) : Prop :=
  ∀ a node, t.nodes a = some node → node.key.Alike key

section
variable {memory : Memory} {t : HashTable} {key : HashKey} {node : HashNode} {p data newNode : Nat}
  {f : HashNode → HashNode} {g : Files.HashNode → Files.HashNode}

theorem load_view (memory : Memory) (t : HashTable) (p : Nat) :
    load (t.view memory).nodes p = (load t.nodes p).map (HashNode.view memory) := by
  show load (fun a => (t.nodes a).map _) p = _
  unfold load
  dsimp only
  cases t.nodes p <;> rfl

theorem view_update (memory : Memory) (nodes : Nat → Option HashNode) (p : Nat)
    (node : Option HashNode) :
    (fun a => (Function.update nodes p node a).map (HashNode.view memory)) =
      Function.update (fun a => (nodes a).map (HashNode.view memory)) p
        (node.map (HashNode.view memory)) :=
  funext fun a => Function.apply_update (fun _ n => n.map (HashNode.view memory)) nodes p node a

theorem view_modifyNode (hf : ∀ node, (f node).view memory = g (node.view memory)) :
    (t.modifyNode p f).map (HashTable.view memory) = (t.view memory).modifyNode p g := by
  unfold HashTable.modifyNode Files.HashTable.modifyNode
  rw [load_view]
  cases load t.nodes p with
  | error fault => rfl
  | ok node =>
    refine congrArg Except.ok ?_
    unfold HashTable.view
    dsimp only
    rw [view_update, Option.map_some, hf]

theorem view_findNodeFrom (h : t.Suits key) : ∀ {fuel p : Nat},
    t.findNodeFrom memory key fuel p = (t.view memory).findNodeFrom (key.content memory) fuel p
  | 0, p => by
    unfold HashTable.findNodeFrom Files.HashTable.findNodeFrom
    rfl
  | fuel + 1, p => by
    unfold HashTable.findNodeFrom Files.HashTable.findNodeFrom
    dsimp only
    rw [load_view]
    unfold load
    cases hnode : t.nodes p with
    | none => rfl
    | some node =>
      refine if_congr Iff.rfl rfl ?_
      exact if_congr (keyMatches_iff (h p node hnode)) rfl (view_findNodeFrom h)

theorem view_findNodeByBucket (h : t.Suits key) (index : Nat) :
    t.findNodeByBucket memory index key =
      (t.view memory).findNodeByBucket index (key.content memory) :=
  view_findNodeFrom h

theorem view_get (h : t.Suits key) :
    t.hashTableGet memory key = (t.view memory).hashTableGet (key.content memory) := by
  have hfind : t.findNode memory key = (t.view memory).findNode (key.content memory) :=
    view_findNodeFrom h
  unfold HashTable.hashTableGet Files.HashTable.hashTableGet
  rw [hfind]
  cases (t.view memory).findNode (key.content memory) with
  | error fault => rfl
  | ok p =>
    refine if_congr Iff.rfl rfl ?_
    rw [load_view]
    cases load t.nodes p <;> rfl

/-- Two computations that agree on the contents go on together. -/
theorem view_bind {α β γ δ : Type} {x : Except Fault α} {k : α → Except Fault β} {v : α → γ}
    {w : β → δ} {x' : Except Fault γ} {k' : γ → Except Fault δ} (hx : x.map v = x')
    (hk : ∀ a, (k a).map w = k' (v a)) : (x >>= k).map w = x' >>= k' := by
  subst hx
  cases x with
  | error fault => rfl
  | ok a => exact hk a

theorem view_insertNode (memory : Memory) (t : HashTable) (index : Nat) (key : HashKey) (p : Nat) :
    (t.insertNode index key p).map (HashTable.view memory) =
      (t.view memory).insertNode index (key.content memory) p := by
  unfold HashTable.insertNode Files.HashTable.insertNode
  dsimp only
  let new : HashNode := { key, data := 0, next := t.buckets index, prev := 0 }
  have hnew : HashTable.view memory { t with nodes := Function.update t.nodes p (some new) } =
      { t.view memory with
        nodes := Function.update (t.view memory).nodes p (some (new.view memory)) } := by
    unfold HashTable.view
    dsimp only
    rw [view_update]
    rfl
  by_cases hhead : t.buckets index = 0
  · rw [if_pos hhead, if_pos (show (t.view memory).buckets index = 0 from hhead)]
    exact congrArg (fun t : Files.HashTable => Except.ok { t with
      buckets := Function.update t.buckets index p
      nodeCount := t.nodeCount + 1 }) hnew
  · rw [if_neg hhead, if_neg (show ¬(t.view memory).buckets index = 0 from hhead)]
    refine view_bind (v := HashTable.view memory) ?_ fun _ => rfl
    let front (node : Files.HashNode) : Files.HashNode := { node with prev := p }
    refine (view_modifyNode (g := front) fun _ => rfl).trans ?_
    exact congrArg (Files.HashTable.modifyNode · (t.buckets index) front) hnew

/-- A call that has a node to insert if it needs one. -/
theorem view_set (h : t.Suits key) (hdata : data ≠ 0)
    (hnew : t.findNode memory key = .ok 0 → newNode ≠ 0) :
    (t.hashTableSet memory key data newNode).map (Prod.map id (HashTable.view memory)) =
      (t.view memory).hashTableSet (key.content memory) data newNode >>= fun t => pure (0, t) := by
  unfold HashTable.hashTableSet Files.HashTable.hashTableSet
  rw [if_neg hdata]
  dsimp only
  have hfind : t.findNode memory key =
    (t.view memory).findNodeByBucket ((t.view memory).hashKeyToIndex _) (key.content memory) :=
      view_findNodeByBucket h _
  rw [show t.findNodeByBucket memory (t.hashKeyToIndex memory key) key = _ from hfind, bind_assoc]
  rw [hfind] at hnew
  cases hp : (t.view memory).findNodeByBucket ((t.view memory).hashKeyToIndex _)
    (key.content memory) with
  | error fault => rfl
  | ok p =>
    show (if p = 0 then _ else _ : Except Fault _).map _ = (if p = 0 then _ else _) >>= _
    by_cases hzero : p = 0
    · have hne : newNode ≠ 0 := hnew (hzero ▸ hp)
      rw [if_pos hzero, if_pos hzero, if_neg hne, bind_assoc]
      refine view_bind (view_insertNode memory t _ key newNode) fun t => ?_
      exact view_bind (view_modifyNode fun _ => rfl) fun _ => rfl
    · rw [if_neg hzero, if_neg hzero]
      exact view_bind (view_modifyNode fun _ => rfl) fun _ => rfl

theorem view_unlinkNode (index : Nat) :
    (t.unlinkNode index p node).map (HashTable.view memory) =
      (t.view memory).unlinkNode index p (node.view memory) := by
  unfold HashTable.unlinkNode Files.HashTable.unlinkNode
  dsimp only
  have hfront (t : HashTable) : (if node.next = 0 then pure t
      else t.modifyNode node.next fun front => { front with prev := node.prev }).map
        (HashTable.view memory) = if node.next = 0 then pure (t.view memory)
      else (t.view memory).modifyNode node.next fun front => { front with prev := node.prev } := by
    split
    · rfl
    · exact view_modifyNode fun _ => rfl
  by_cases hhead : t.buckets index = p
  · rw [if_pos hhead, if_pos (show (t.view memory).buckets index = p from hhead)]
    exact view_modifyNode fun _ => rfl
  · rw [if_neg hhead, if_neg (show ¬(t.view memory).buckets index = p from hhead)]
    by_cases hprev : node.prev = 0
    · rw [if_pos hprev, if_pos (show (node.view memory).prev = 0 from hprev)]
      exact hfront t
    · rw [if_neg hprev, if_neg (show ¬(node.view memory).prev = 0 from hprev)]
      exact view_bind (view_modifyNode fun _ => rfl) hfront

/-- A removal. The table of contents has no result where it fails. -/
theorem view_remove (memory : Memory) (h : t.Suits key) :
    (t.hashTableRemove memory key).map
        (fun r => if r.1 = 0 then some (r.2.view memory) else none) =
      (t.view memory).hashTableRemove (key.content memory) := by
  unfold HashTable.hashTableRemove Files.HashTable.hashTableRemove
  dsimp only
  rw [view_findNodeByBucket h]
  refine view_bind (congrFun Except.map_id _) fun p => ?_
  dsimp only [id]
  split
  · rfl
  · refine view_bind (load_view memory t p).symm fun node => ?_
    refine view_bind (view_unlinkNode _) fun t => congrArg Except.ok ?_
    show (if (0 : Int) = 0 then some _ else none) = _
    rw [if_pos rfl]
    unfold HashTable.view
    dsimp only
    rw [view_update]
    rfl

end

end ZOs.Utils.Hash
