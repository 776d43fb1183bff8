import Mathlib.Data.Set.Card
import ZOs.Lib.Ensures
import ZOs.Utils.HashKeys

/-!
# Calls of the hash table

Calls in any order, between which the memory of the keys may be written as
long as the keys that are in the table keep their contents. What each call
does is said about the map from contents to data. A key that is removed may
be the only one of its bucket, and then NULL is dereferenced; where it is
not, it is gone but is still counted.
-/

namespace ZOs.Utils.Hash

open Files (Fault load)
open Checked

/-! ## Calls -/

/-- A table, with the memory its keys point to. -/
structure HashState where
  memory : Memory
  table : HashTable

inductive HashAction
  | write (memory : Memory)
  | set (key : HashKey) (data newNode : Nat)
  | get (key : HashKey)
  | contains (key : HashKey)
  | remove (key : HashKey)

/-- What a call returns, and what `hash_table_get` has found. -/
structure HashAnswer where
  code : Int
  data : Option Nat
  deriving DecidableEq

namespace HashState

variable (s : HashState)

/-- What the table maps a content to. -/
def Maps (content : List UInt8) (data : Nat) : Prop :=
  ∃ a node, s.table.nodes a = some node ∧ node.key.content s.memory = content ∧ node.data = data

def exec : HashAction → Except Fault (HashAnswer × HashState)
  | .write memory => .ok (⟨0, none⟩, { s with memory })
  | .set key data newNode => do
    let (code, table) ← s.table.hashTableSet s.memory key data newNode
    return (⟨code, none⟩, { s with table })
  | .get key => do
    match ← s.table.hashTableGet s.memory key with
    | none => return (⟨-1, none⟩, s)
    | some data => return (⟨0, some data⟩, s)
  | .contains key => do
    let found ← s.table.hashTableContains s.memory key
    return (⟨if found then 1 else 0, none⟩, s)
  | .remove key => do
    let (code, table) ← s.table.hashTableRemove s.memory key
    return (⟨code, none⟩, { s with table })

end HashState

/-- All keys of a table are numbers, or all point to bytes. -/
def HashKey.OfKind (numbers : Prop) (key : HashKey) : Prop := key.size = 0 ↔ numbers

/-- What callers do: the keys are of one kind, and keys in the table keep
their contents. `kmalloc` returns NULL or memory that is not in use. -/
def HashAction.Allowed (numbers : Prop) (s : HashState) : HashAction → Prop
  | .write memory => ∀ a node, s.table.nodes a = some node →
      node.key.content memory = node.key.content s.memory
  | .set key _ newNode => key.OfKind numbers ∧ s.table.nodes newNode = none
  | .get key => key.OfKind numbers
  | .contains key => key.OfKind numbers
  | .remove key => key.OfKind numbers

/-! ## Keys of one kind -/

def HashTable.HasKeys (P : HashKey → Prop) (t : HashTable) : Prop :=
  ∀ a node, t.nodes a = some node → P node.key

section
variable {P : HashKey → Prop} {t : HashTable} {memory : Memory} {key : HashKey} {p index : Nat}
  {node : HashNode} {f : HashNode → HashNode} {data newNode : Nat}

theorem HashTable.HasKeys.update (h : t.HasKeys P) {n : Option HashNode}
    (hn : ∀ node, n = some node → P node.key) :
    HashTable.HasKeys P { t with nodes := Function.update t.nodes p n } := by
  intro a node ha
  by_cases hap : a = p
  · subst hap
    exact hn node ((Function.update_self a n t.nodes).symm.trans ha)
  · exact h a node ((Function.update_of_ne hap n t.nodes).symm.trans ha)

theorem HashTable.HasKeys.modifyNode (h : t.HasKeys P) (hf : ∀ node, (f node).key = node.key) :
    Ensures (fun _ => True) (t.modifyNode p f) (HasKeys P) := by
  unfold HashTable.modifyNode load
  cases hnode : t.nodes p with
  | none => trivial
  | some node =>
    refine h.update fun _ hsome => ?_
    cases hsome
    rw [hf]
    exact h p node hnode

theorem HashTable.HasKeys.insertNode (h : t.HasKeys P) (hkey : P key) :
    Ensures (fun _ => True) (t.insertNode index key p) (HasKeys P) := by
  have hadded := h.update (p := p) (n := some ⟨key, 0, t.buckets index, 0⟩) fun _ hsome =>
    Option.some.inj hsome ▸ hkey
  unfold HashTable.insertNode
  dsimp only
  split
  · exact hadded
  · rw [ensures_bind]
    exact Ensures.mono (hadded.modifyNode fun _ => rfl) fun _ h => h

theorem HashTable.HasKeys.set (h : t.HasKeys P) (hkey : P key) :
    Ensures (fun _ => True) (t.hashTableSet memory key data newNode) fun r => r.2.HasKeys P := by
  unfold HashTable.hashTableSet
  split
  · exact h
  · dsimp only
    rw [ensures_bind]
    cases t.findNodeByBucket memory (t.hashKeyToIndex memory key) key with
    | error fault => trivial
    | ok p =>
      show Ensures _ (if p = 0 then _ else _) _
      split
      · show Ensures _ (if newNode = 0 then _ else _) _
        split
        · exact h
        · simp only [ensures_bind]
          exact (h.insertNode hkey).mono fun t h =>
            Ensures.mono (h.modifyNode fun _ => rfl) fun _ h => h
      · rw [ensures_bind]
        exact Ensures.mono (h.modifyNode fun _ => rfl) fun _ h => h

theorem HashTable.HasKeys.unlinkNode (h : t.HasKeys P) :
    Ensures (fun _ => True) (t.unlinkNode index p node) (HasKeys P) := by
  have hfront (t : HashTable) (h : t.HasKeys P) : Ensures (fun _ => True)
      (if node.next = 0 then pure t
        else t.modifyNode node.next fun front => { front with prev := node.prev }) (HasKeys P) := by
    split
    · exact h
    · exact h.modifyNode fun _ => rfl
  unfold HashTable.unlinkNode
  dsimp only
  split
  · exact HasKeys.modifyNode (t := { t with buckets := _ }) h fun _ => rfl
  · split
    · exact hfront t h
    · rw [ensures_bind]
      exact Ensures.mono (h.modifyNode fun _ => rfl) hfront

theorem HashTable.HasKeys.remove (h : t.HasKeys P) :
    Ensures (fun _ => True) (t.hashTableRemove memory key) fun r => r.2.HasKeys P := by
  unfold HashTable.hashTableRemove
  dsimp only
  rw [ensures_bind]
  cases t.findNodeByBucket memory (t.hashKeyToIndex memory key) key with
  | error fault => trivial
  | ok p =>
    show Ensures _ (if p = 0 then _ else _) _
    split
    · exact h
    · rw [ensures_bind]
      cases load t.nodes p with
      | error fault => trivial
      | ok node =>
        show Ensures _ (t.unlinkNode _ p node >>= _) _
        rw [ensures_bind]
        exact h.unlinkNode.mono fun t h => h.update fun _ hnone => nomatch hnone

end

/-! ## What is kept -/

/-- The contents that are in the table. -/
def HashState.contents (s : HashState) : Set (List UInt8) := {c | ∃ data, s.Maps c data}

/-- The table is one of contents, and has not counted less than there are. -/
structure HashState.Inv (numbers : Prop) (s : HashState) : Prop where
  kind : s.table.HasKeys (HashKey.OfKind numbers)
  chains : ∃ chains, (s.table.view s.memory).Inv chains
  finite : s.contents.Finite
  count : s.contents.ncard ≤ s.table.nodeCount
  bucketCount : s.table.bucketCount ≠ 0

section
variable {numbers : Prop} {s s' : HashState} {key : HashKey} {c : List UInt8} {data newNode p : Nat}

theorem maps_view : (s.table.view s.memory).Maps c data ↔ s.Maps c data := by
  constructor
  · rintro ⟨a, n, hn, rfl, rfl⟩
    obtain ⟨node, hnode, rfl⟩ := Option.map_eq_some_iff.mp hn
    exact ⟨a, node, hnode, rfl, rfl⟩
  · rintro ⟨a, node, hnode, rfl, rfl⟩
    exact ⟨a, node.view s.memory, Option.map_eq_some_iff.mpr ⟨node, hnode, rfl⟩, rfl, rfl⟩

theorem HashState.Inv.suits (h : s.Inv numbers) (hkey : key.OfKind numbers) : s.table.Suits key :=
  fun a node hnode => (h.kind a node hnode).trans hkey.symm

theorem ok_of_map {α β : Type} {x : Except Fault α} {f : α → β} {b : β} (h : x.map f = .ok b) :
    ∃ a, x = .ok a ∧ f a = b := by
  cases x with
  | error fault => cases h
  | ok a => exact ⟨a, rfl, Except.ok.inj h⟩

/-! ## Get and contains -/

theorem HashState.Inv.get_some (h : s.Inv numbers) (hkey : key.OfKind numbers)
    (hmaps : s.Maps (key.content s.memory) data) :
    s.exec (.get key) = .ok (⟨0, some data⟩, s) := by
  obtain ⟨chains, hchains⟩ := h.chains
  unfold HashState.exec
  dsimp only
  rw [view_get (h.suits hkey), hchains.get_some (maps_view.mpr hmaps)]
  rfl

theorem HashState.Inv.get_none (h : s.Inv numbers) (hkey : key.OfKind numbers)
    (habsent : key.content s.memory ∉ s.contents) : s.exec (.get key) = .ok (⟨-1, none⟩, s) := by
  obtain ⟨chains, hchains⟩ := h.chains
  unfold HashState.exec
  dsimp only
  rw [view_get (h.suits hkey),
    hchains.get_none fun data hmaps => habsent ⟨data, maps_view.mp hmaps⟩]
  rfl

/-- The search for a key that is there. -/
theorem HashState.Inv.find_some (h : s.Inv numbers) (hkey : key.OfKind numbers)
    (hpresent : key.content s.memory ∈ s.contents) :
    ∃ p node, s.table.findNode s.memory key = .ok p ∧ p ≠ 0 ∧ s.table.nodes p = some node ∧
      node.key.content s.memory = key.content s.memory := by
  obtain ⟨chains, hchains⟩ := h.chains
  obtain ⟨data, p, node, hnode, hcontent, -⟩ := hpresent
  have hview : (s.table.view s.memory).nodes p = some (node.view s.memory) :=
    Option.map_eq_some_iff.mpr ⟨node, hnode, rfl⟩
  refine ⟨p, node, ?_, hchains.ne_zero hview, hnode, hcontent⟩
  have hfind := hchains.findNode_some hview
  unfold HashTable.findNode
  rw [view_findNodeByBucket (h.suits hkey), ← hcontent]
  rw [← hfind]
  unfold HashTable.hashKeyToIndex
  rw [← hcontent]
  rfl

theorem HashState.Inv.find_none (h : s.Inv numbers) (hkey : key.OfKind numbers)
    (habsent : key.content s.memory ∉ s.contents) : s.table.findNode s.memory key = .ok 0 := by
  obtain ⟨chains, hchains⟩ := h.chains
  unfold HashTable.findNode
  rw [view_findNodeByBucket (h.suits hkey)]
  refine hchains.findNode_none fun a node hnode hcontent => habsent ⟨node.data, ?_⟩
  exact maps_view.mp ⟨a, node, hnode, hcontent, rfl⟩

theorem HashState.Inv.contains_some (h : s.Inv numbers) (hkey : key.OfKind numbers)
    (hpresent : key.content s.memory ∈ s.contents) :
    s.exec (.contains key) = .ok (⟨1, none⟩, s) := by
  obtain ⟨p, node, hfind, hp, -, -⟩ := h.find_some hkey hpresent
  unfold HashState.exec HashTable.hashTableContains
  dsimp only
  rw [hfind]
  show Except.ok (HashAnswer.mk (if p != 0 then 1 else 0) none, s) = _
  rw [if_pos (bne_iff_ne.mpr hp)]

theorem HashState.Inv.contains_none (h : s.Inv numbers) (hkey : key.OfKind numbers)
    (habsent : key.content s.memory ∉ s.contents) :
    s.exec (.contains key) = .ok (⟨0, none⟩, s) := by
  unfold HashState.exec HashTable.hashTableContains
  dsimp only
  rw [h.find_none hkey habsent]
  rfl

/-! ## Set -/

/-- One content has new data. -/
structure Assigned (s : HashState) (c : List UInt8) (data : Nat) (s' : HashState) : Prop where
  memory : s'.memory = s.memory
  bucketCount : s'.table.bucketCount = s.table.bucketCount
  maps : ∀ c' d, s'.Maps c' d ↔ if c' = c then d = data else s.Maps c' d
  old : c ∈ s.contents → s'.table.nodeCount = s.table.nodeCount
  new : c ∉ s.contents → s'.table.nodeCount = s.table.nodeCount + 1

theorem Assigned.contents (h : Assigned s c data s') : s'.contents = insert c s.contents := by
  ext c'
  rw [Set.mem_insert_iff]
  show (∃ d, s'.Maps c' d) ↔ c' = c ∨ ∃ d, s.Maps c' d
  by_cases hc : c' = c
  · exact ⟨fun _ => .inl hc, fun _ => ⟨data, (h.maps c' data).mpr (by rw [if_pos hc])⟩⟩
  · simp only [h.maps, hc, if_false, false_or]

/-- The count goes along. -/
theorem Assigned.ncard (h : Assigned s c data s') (hfinite : s.contents.Finite) :
    s'.table.nodeCount + s.contents.ncard = s.table.nodeCount + s'.contents.ncard := by
  rw [h.contents]
  by_cases hc : c ∈ s.contents
  · rw [h.old hc, Set.insert_eq_of_mem hc]
  · rw [h.new hc, Set.ncard_insert_of_notMem hc hfinite]
    omega

/-- A table of contents in which a content is set. -/
theorem table_set {t : Files.HashTable} {chains : Nat → List Nat} (h : t.Inv chains)
    (hnew : (¬∃ d, t.Maps c d) → newNode ≠ 0 ∧ t.nodes newNode = none) (data : Nat) :
    ∃ t' chains', t.hashTableSet c data newNode = .ok t' ∧ t'.Inv chains' ∧
      Files.HashTable.Updated t c data t' ∧ ((∃ d, t.Maps c d) → t'.nodeCount = t.nodeCount) ∧
      ((¬∃ d, t.Maps c d) → t'.nodeCount = t.nodeCount + 1) := by
  by_cases hpresent : ∃ d, t.Maps c d
  · obtain ⟨d, a, node, hnode, rfl, -⟩ := id hpresent
    obtain ⟨t', heq, hinv, hupdated, hcount⟩ := h.set_present hnode
    exact ⟨t', chains, heq, hinv, hupdated, fun _ => hcount, fun hnot => absurd hpresent hnot⟩
  · have hnone : ∀ a node, t.nodes a = some node → node.key ≠ c :=
      fun a node hnode hkey => hpresent ⟨node.data, a, node, hnode, hkey, rfl⟩
    obtain ⟨hne, hfree⟩ := hnew hpresent
    obtain ⟨t', heq, hinserted⟩ := h.set_inserts hfree hnone
    exact ⟨t', _, heq, hinserted.inv h hne hfree hnone, hinserted.updated hfree hnone,
      fun hex => absurd hex hpresent, fun _ => hinserted.nodeCount⟩

theorem HashState.Inv.set_done (h : s.Inv numbers) (hkey : key.OfKind numbers) (hdata : data ≠ 0)
    (hnew : key.content s.memory ∉ s.contents → newNode ≠ 0 ∧ s.table.nodes newNode = none) :
    ∃ s', s.exec (.set key data newNode) = .ok (⟨0, none⟩, s') ∧ s'.Inv numbers ∧
      Assigned s (key.content s.memory) data s' := by
  obtain ⟨chains, hchains⟩ := h.chains
  have hcontents : (∃ d, (s.table.view s.memory).Maps (key.content s.memory) d) ↔
      key.content s.memory ∈ s.contents := exists_congr fun _ => maps_view
  have hnew' (hnot : ¬∃ d, (s.table.view s.memory).Maps (key.content s.memory) d) :
      newNode ≠ 0 ∧ (s.table.view s.memory).nodes newNode = none := by
    obtain ⟨hne, hfree⟩ := hnew fun hmem => hnot (hcontents.mpr hmem)
    exact ⟨hne, Option.map_eq_none_iff.mpr hfree⟩
  obtain ⟨t, chains', heq, hinv, hupdated, hold, hadded⟩ := table_set hchains hnew' data
  have hneeded (hfind : s.table.findNode s.memory key = .ok 0) : newNode ≠ 0 := by
    refine (hnew fun hmem => ?_).1
    obtain ⟨p, -, hp, hne, -, -⟩ := h.find_some hkey hmem
    exact hne (Except.ok.inj (hp.symm.trans hfind))
  have hview := view_set (h.suits hkey) hdata hneeded
  rw [heq] at hview
  obtain ⟨⟨code, t'⟩, hcall, hmap⟩ := ok_of_map hview
  obtain ⟨rfl, rfl⟩ := Prod.mk.inj hmap
  have hassigned : Assigned s (key.content s.memory) data { s with table := t' } :=
    { memory := rfl
      bucketCount := hupdated.bucketCount
      maps := fun c d => maps_view.symm.trans ((hupdated.maps c d).trans (by simp only [maps_view]))
      old := fun hmem => hold (hcontents.mpr hmem)
      new := fun hmem => hadded fun hex => hmem (hcontents.mp hex) }
  refine ⟨{ s with table := t' }, ?_, ?_, hassigned⟩
  · unfold HashState.exec
    dsimp only
    rw [hcall]
    rfl
  · have hncard := hassigned.ncard h.finite
    have hcount := h.count
    refine ⟨(h.kind.set hkey).result hcall, ⟨chains', hinv⟩, ?_, by omega, ?_⟩
    · rw [hassigned.contents]
      exact h.finite.insert _
    · rw [hassigned.bucketCount]
      exact h.bucketCount

/-- There is nothing to set. -/
theorem set_null (s : HashState) (key : HashKey) (newNode : Nat) :
    s.exec (.set key 0 newNode) = .ok (⟨-1, none⟩, s) := rfl

/-- There is no node for a new key. -/
theorem HashState.Inv.set_full (h : s.Inv numbers) (hkey : key.OfKind numbers) (hdata : data ≠ 0)
    (habsent : key.content s.memory ∉ s.contents) :
    s.exec (.set key data 0) = .ok (⟨-1, none⟩, s) := by
  unfold HashState.exec HashTable.hashTableSet
  dsimp only
  rw [if_neg hdata, show s.table.findNodeByBucket s.memory _ key = _ from h.find_none hkey habsent]
  rfl

/-! ## Remove -/

/-- One content is gone, and is counted still. -/
structure Erased (s : HashState) (c : List UInt8) (s' : HashState) : Prop where
  memory : s'.memory = s.memory
  bucketCount : s'.table.bucketCount = s.table.bucketCount
  maps : ∀ c' d, s'.Maps c' d ↔ c' ≠ c ∧ s.Maps c' d
  nodeCount : s'.table.nodeCount = s.table.nodeCount

theorem Erased.contents (h : Erased s c s') : s'.contents = s.contents \ {c} := by
  ext c'
  rw [Set.mem_sdiff, Set.mem_singleton_iff, and_comm]
  show (∃ d, s'.Maps c' d) ↔ _ ∧ ∃ d, s.Maps c' d
  simp only [h.maps, exists_and_left]

theorem HashState.Inv.remove_none (h : s.Inv numbers) (hkey : key.OfKind numbers)
    (habsent : key.content s.memory ∉ s.contents) :
    s.exec (.remove key) = .ok (⟨-1, none⟩, s) := by
  unfold HashState.exec HashTable.hashTableRemove
  dsimp only
  rw [show s.table.findNodeByBucket s.memory _ key = _ from h.find_none hkey habsent]
  rfl

/-- A key that is there is the only one of its bucket, or it is removed. -/
theorem HashState.Inv.remove_some (h : s.Inv numbers) (hkey : key.OfKind numbers)
    (hpresent : key.content s.memory ∈ s.contents) :
    s.exec (.remove key) = .error .nullPointer ∨ ∃ s', s.exec (.remove key) = .ok (⟨0, none⟩, s') ∧
      s'.Inv numbers ∧ Erased s (key.content s.memory) s' := by
  obtain ⟨chains, hchains⟩ := h.chains
  obtain ⟨data, p, node, hnode, hcontent, -⟩ := hpresent
  have hp : (s.table.view s.memory).nodes p = some (node.view s.memory) :=
    Option.map_eq_some_iff.mpr ⟨node, hnode, rfl⟩
  have hview := view_remove s.memory (h.suits hkey)
  rw [← hcontent, show node.key.content s.memory = (node.view s.memory).key from rfl] at hview ⊢
  by_cases halone : ∀ a n, (s.table.view s.memory).nodes a = some n →
    (s.table.view s.memory).hashKeyToIndex n.key =
      (s.table.view s.memory).hashKeyToIndex (node.view s.memory).key → a = p
  · left
    rw [hchains.remove_alone hp halone] at hview
    unfold HashState.exec
    cases hcall : s.table.hashTableRemove s.memory key with
    | ok r =>
      rw [hcall] at hview
      cases hview
    | error fault =>
      rw [hcall] at hview
      cases hview
      dsimp only
      rw [hcall]
      rfl
  · right
    push Not at halone
    obtain ⟨b, n, hb, hindex, hne⟩ := halone
    obtain ⟨t, heq, hremoved⟩ := hchains.remove_crowded hp hb hne hindex
    rw [heq] at hview
    obtain ⟨⟨code, t'⟩, hcall, hresult⟩ := ok_of_map hview
    split at hresult
    · rename_i hcode
      cases (hcode : code = 0)
      cases hresult
      have herased : Erased s (node.view s.memory).key { s with table := t' } :=
        { memory := rfl
          bucketCount := hremoved.bucketCount
          maps := fun c d => maps_view.symm.trans
            ((hremoved.maps hchains hp c d).trans (by rw [maps_view]))
          nodeCount := hremoved.nodeCount }
      refine ⟨{ s with table := t' }, ?_, ?_, herased⟩
      · unfold HashState.exec
        dsimp only
        rw [hcall]
        rfl
      · have hcount := h.count
        refine ⟨h.kind.remove.result hcall, hremoved.inv hchains hp, ?_, ?_, ?_⟩
        · rw [herased.contents]
          exact h.finite.sdiff
        · rw [herased.contents, herased.nodeCount]
          exact Nat.le_trans (Set.ncard_le_ncard Set.sdiff_subset h.finite) h.count
        · rw [herased.bucketCount]
          exact h.bucketCount
    · cases hresult

/-! ## Write -/

/-- Keys in the table keep their contents. -/
theorem HashState.Inv.write (h : s.Inv numbers) {memory : Memory}
    (hkept : (HashAction.write memory).Allowed numbers s) :
    HashState.Inv numbers { s with memory } ∧ ∀ c d, HashState.Maps { s with memory } c d ↔
      s.Maps c d := by
  have hview : s.table.view memory = s.table.view s.memory := by
    unfold HashTable.view
    congr 1
    funext a
    cases hnode : s.table.nodes a with
    | none => rfl
    | some node =>
      show some (HashNode.view _ _) = some (HashNode.view _ _)
      unfold HashNode.view
      rw [hkept a node hnode]
  have hmaps : ∀ c d, HashState.Maps { s with memory } c d ↔ s.Maps c d := fun c d =>
    maps_view.symm.trans ((by rw [← hview]) : (s.table.view memory).Maps c d ↔ _) |>.trans maps_view
  have hcontents : HashState.contents { s with memory } = s.contents :=
    Set.ext fun c => exists_congr (hmaps c)
  refine ⟨⟨h.kind, ?_, ?_, ?_, h.bucketCount⟩, hmaps⟩
  · show ∃ chains, (s.table.view memory).Inv chains
    rw [hview]
    exact h.chains
  · rw [hcontents]
    exact h.finite
  · rw [hcontents]
    exact h.count

end

end ZOs.Utils.Hash
