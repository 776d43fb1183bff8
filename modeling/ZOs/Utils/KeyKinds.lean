import ZOs.Lib.Search
import ZOs.Utils.HashMap

/-!
# Two kinds of keys in one table

A key is a number or bytes, and `key_matches` looks at the size of the stored
key only. A stored number is compared with whatever is in the union of the
key that is looked up, so that a pointer to its value finds it. Everything
else is compared by kind and value.
-/

namespace ZOs.Utils.Hash

open Files (Fault load)
open Checked Runs

/-! ## Kind and value -/

/-- A key as its users see it. -/
inductive KeyValue
  | number (value : Files.Word)
  | bytes (content : List UInt8)
  deriving DecidableEq

/-- What a key stands for. -/
def HashKey.stands (memory : Memory) (key : HashKey) : KeyValue :=
  if key.size = 0 then .number key.value
  else .bytes (readBytes memory key.value.toNat key.size.toNat)

/-- A number is stored, and the address of the bytes that are looked up is this
number. -/
def HashKey.Confuses (stored key : HashKey) : Prop :=
  stored.size = 0 ∧ key.size ≠ 0 ∧ stored.value = key.value

section
variable {memory : Memory} {key key' : HashKey} {node node' : HashNode}
  {value data size : Files.Word}

theorem stands_createU64 (memory : Memory) (value : Files.Word) :
    (hashKeyCreateU64 value).stands memory = .number value := if_pos rfl

theorem stands_createData (memory : Memory) (data : Files.Word) (hsize : size ≠ 0) :
    (hashKeyCreateData data size).stands memory =
      .bytes (readBytes memory data.toNat size.toNat) := if_neg hsize

/-- Every key is made by one of the two functions. -/
theorem key_created (key : HashKey) : (∃ value, key = hashKeyCreateU64 value) ∨
    ∃ data size, size ≠ 0 ∧ key = hashKeyCreateData data size := by
  obtain ⟨value, size⟩ := key
  by_cases hsize : size = 0
  · subst hsize
    exact .inl ⟨value, rfl⟩
  · exact .inr ⟨value, size, hsize, rfl⟩

theorem readBytes_eq_iff {m n : Files.Word} {a b : Nat} :
    readBytes memory a m.toNat = readBytes memory b n.toNat ↔
      m = n ∧ readBytes memory a m.toNat = readBytes memory b m.toNat := by
  constructor
  · intro h
    have hlength := congrArg List.length h
    simp only [readBytes, List.length_map, List.length_range] at hlength
    obtain rfl : m = n := BitVec.eq_of_toNat_eq hlength
    exact ⟨rfl, h⟩
  · rintro ⟨rfl, h⟩
    exact h

/-- What `key_matches` compares: kind and value, but for a pointer that is
taken for a number. -/
theorem keyMatches_iff_stands : keyMatches memory node key = true ↔
    node.key.stands memory = key.stands memory ∨ node.key.Confuses key := by
  obtain ⟨stored, nodeData, next, prev⟩ := node
  unfold keyMatches HashKey.Confuses
  dsimp only
  rcases key_created stored with ⟨value, rfl⟩ | ⟨data, size, hsize, rfl⟩
  · have hzero : (hashKeyCreateU64 value).size = 0 := rfl
    rw [if_pos hzero, stands_createU64, beq_iff_eq]
    rcases key_created key with ⟨value', rfl⟩ | ⟨data', size', hsize', rfl⟩
    · rw [stands_createU64, KeyValue.number.injEq]
      exact ⟨.inl, fun h => h.elim id fun hconfuses => absurd rfl hconfuses.2.1⟩
    · rw [stands_createData memory data' hsize']
      exact ⟨fun heq => .inr ⟨rfl, hsize', heq⟩, fun h => h.elim nofun fun h => h.2.2⟩
  · have hnot : (hashKeyCreateData data size).size ≠ 0 := hsize
    rw [if_neg hnot, stands_createData memory data hsize, Bool.and_eq_true, beq_iff_eq, beq_iff_eq,
      memoryCompare_eq_zero, or_iff_left fun hconfuses => hnot hconfuses.1]
    rcases key_created key with ⟨value', rfl⟩ | ⟨data', size', hsize', rfl⟩
    · rw [stands_createU64]
      exact ⟨fun h => absurd h.1 hnot, nofun⟩
    · rw [stands_createData memory data' hsize', KeyValue.bytes.injEq]
      exact readBytes_eq_iff.symm

theorem stands_ne_of_kinds (hzero : key.size = 0) (hsize : key'.size ≠ 0) :
    key.stands memory ≠ key'.stands memory := by
  unfold HashKey.stands
  rw [if_pos hzero, if_neg hsize]
  nofun

theorem HashKey.Confuses.stands_ne (h : key.Confuses key') :
    key.stands memory ≠ key'.stands memory := stands_ne_of_kinds h.1 h.2.1

theorem HashKey.Confuses.not_symm (h : key.Confuses key') : ¬key'.Confuses key := fun h' =>
  h.2.1 h'.1

theorem compared_iff : (keyMatches memory node key = true ↔
    node.key.stands memory = key.stands memory) ↔ ¬node.key.Confuses key := by
  rw [keyMatches_iff_stands]
  constructor
  · intro h hconfuses
    exact hconfuses.stands_ne (h.mp (.inr hconfuses))
  · exact fun h => or_iff_left h

theorem symmetric_iff : keyMatches memory node node'.key = keyMatches memory node' node.key ↔
    ¬node.key.Confuses node'.key ∧ ¬node'.key.Confuses node.key := by
  rw [Bool.eq_iff_iff, keyMatches_iff_stands, keyMatches_iff_stands,
    eq_comm (b := node.key.stands _)]
  constructor
  · intro h
    refine ⟨fun hconfuses => ?_, fun hconfuses => ?_⟩
    · exact (h.mp (.inr hconfuses)).elim hconfuses.stands_ne hconfuses.not_symm
    · exact (h.mpr (.inr hconfuses)).elim hconfuses.stands_ne.symm hconfuses.not_symm
  · rintro ⟨hnot, hnot'⟩
    rw [or_iff_left hnot, or_iff_left hnot']

end

/-! ## Buckets -/

/-- The entries from a node on, to NULL. -/
inductive HashTable.Entries (t : HashTable) : Nat → List (Nat × HashNode) → Prop
  | nil : t.Entries 0 []
  | cons {p node entries} : p ≠ 0 → t.nodes p = some node → t.Entries node.next entries →
      t.Entries p ((p, node) :: entries)

/-- A bucket, in the order of a search. It has no more entries than have been
inserted. -/
structure Bucket (t : HashTable) (index : Nat) where
  entries : List (Nat × HashNode)
  listed : t.Entries (t.buckets index) entries
  counted : entries.length ≤ t.nodeCount

/-- The loop of `find_node_by_bucket` ends at the entry. -/
def accepts (memory : Memory) (key : HashKey) (e : Nat × HashNode) : Bool :=
  keyMatches memory e.2 key

/-- The entry has the key, by kind and value. -/
def hasKey (memory : Memory) (key : HashKey) (e : Nat × HashNode) : Bool :=
  e.2.key.stands memory = key.stands memory

/-- Where a search by kind and value ends. -/
def lookup (memory : Memory) (key : HashKey) (entries : List (Nat × HashNode)) : Nat :=
  (entries.find? (hasKey memory key)).elim 0 Prod.fst

/-- In front of every number that the key is taken for is an entry of the key. -/
def Bucket.Clear {t : HashTable} {index : Nat} (b : Bucket t index) (memory : Memory)
    (key : HashKey) : Prop :=
  ∀ front entry behind, b.entries = front ++ entry :: behind → entry.2.key.Confuses key →
    ∃ e ∈ front, hasKey memory key e

/-- Bytes are looked up, and the search ends at the entry of a number. -/
def FindsNumber (t : HashTable) (memory : Memory) (index : Nat) (key : HashKey) : Prop :=
  key.size ≠ 0 ∧ ∃ p node, t.findNodeByBucket memory index key = .ok p ∧ p ≠ 0 ∧
    t.nodes p = some node ∧ node.key.size = 0

section
variable {t : HashTable} {memory : Memory} {key : HashKey} {index p fuel : Nat}
  {entries : List (Nat × HashNode)} {e : Nat × HashNode}

theorem HashTable.Entries.mem (h : t.Entries p entries) (he : e ∈ entries) :
    e.1 ≠ 0 ∧ t.nodes e.1 = some e.2 := by
  induction h with
  | nil => exact absurd he List.not_mem_nil
  | cons hne hnode _ ih =>
    rcases List.mem_cons.mp he with rfl | he
    · exact ⟨hne, hnode⟩
    · exact ih he

/-- The search goes through the entries. -/
theorem HashTable.Entries.findNodeFrom (h : t.Entries p entries) (hfuel : entries.length ≤ fuel) :
    t.findNodeFrom memory key fuel p =
      .ok ((entries.find? (accepts memory key)).elim 0 Prod.fst) := by
  induction h generalizing fuel with
  | nil =>
    unfold HashTable.findNodeFrom
    rfl
  | @cons p node entries hne hnode _ ih =>
    obtain ⟨fuel, rfl⟩ := Nat.exists_eq_add_of_lt hfuel
    have hstep : t.findNodeFrom memory key (entries.length + fuel + 1) p =
        if keyMatches memory node key then .ok p
        else t.findNodeFrom memory key (entries.length + fuel) node.next := by
      rw [HashTable.findNodeFrom, if_neg hne]
      unfold load
      rw [hnode]
      rfl
    rw [hstep, List.find?_cons]
    cases haccepts : accepts memory key (p, node) with
    | true => exact if_pos haccepts
    | false => exact (if_neg (Bool.eq_false_iff.mp haccepts)).trans (ih (Nat.le_add_right ..))

/-- Entries are at different places. -/
theorem HashTable.Entries.elim_inj (h : t.Entries p entries) {a b : Option (Nat × HashNode)}
    (ha : ∀ e, a = some e → e ∈ entries) (hb : ∀ e, b = some e → e ∈ entries) :
    a.elim 0 Prod.fst = b.elim 0 Prod.fst ↔ a = b := by
  refine ⟨fun heq => ?_, fun heq => heq ▸ rfl⟩
  cases a with
  | none =>
    cases b with
    | none => rfl
    | some e => exact absurd heq.symm (h.mem (hb e rfl)).1
  | some e =>
    cases b with
    | none => exact absurd heq (h.mem (ha e rfl)).1
    | some e' =>
      have hplace : e.1 = e'.1 := heq
      have hnode := (h.mem (ha e rfl)).2
      rw [hplace, (h.mem (hb e' rfl)).2] at hnode
      exact congrArg some (Prod.ext hplace (Option.some.inj hnode.symm))

theorem accepts_of_hasKey (h : hasKey memory key e) : accepts memory key e :=
  keyMatches_iff_stands.mpr (.inl (of_decide_eq_true h))

theorem accepts_of_confuses (h : e.2.key.Confuses key) : accepts memory key e :=
  keyMatches_iff_stands.mpr (.inr h)

/-- What is accepted without the key is a number, and the key is not. -/
theorem confuses_of_accepts (h : accepts memory key e) (hnot : ¬hasKey memory key e) :
    e.2.key.Confuses key :=
  (keyMatches_iff_stands.mp h).resolve_left fun hstands => hnot (decide_eq_true hstands)

theorem HashKey.Confuses.not_hasKey (h : e.2.key.Confuses key) : ¬hasKey memory key e :=
  fun hkey => h.stands_ne (of_decide_eq_true hkey)

variable (b : Bucket t index)

theorem Bucket.find_eq (memory : Memory) (key : HashKey) : t.findNodeByBucket memory index key =
    .ok ((b.entries.find? (accepts memory key)).elim 0 Prod.fst) :=
  b.listed.findNodeFrom b.counted

/-- What the code finds first has the key. -/
theorem Bucket.clear_iff : b.Clear memory key ↔
    ∀ e, b.entries.find? (accepts memory key) = some e → hasKey memory key e := by
  constructor
  · intro h e hfind
    obtain ⟨haccepts, front, behind, heq, hfront⟩ := List.find?_eq_some_iff_append.mp hfind
    by_contra hnot
    obtain ⟨e', he', hkey⟩ := h front e behind heq (confuses_of_accepts haccepts hnot)
    have hrefused := hfront e' he'
    rw [accepts_of_hasKey hkey] at hrefused
    cases hrefused
  · intro h front entry behind heq hconfuses
    rw [heq, List.find?_append, List.find?_cons_of_pos (accepts_of_confuses hconfuses)] at h
    cases hfind : front.find? (accepts memory key) with
    | none =>
      rw [hfind] at h
      exact absurd (h entry rfl) hconfuses.not_hasKey
    | some e =>
      rw [hfind] at h
      exact ⟨e, List.mem_of_find?_eq_some hfind, h e rfl⟩

/-- The search is by kind and value. -/
theorem Bucket.finds_iff : t.findNodeByBucket memory index key =
    .ok (lookup memory key b.entries) ↔ b.Clear memory key := by
  have hboth : (fun e => accepts memory key e || hasKey memory key e) = accepts memory key :=
    funext fun e => Bool.or_eq_left_iff_imp.mpr accepts_of_hasKey
  rw [b.find_eq, Except.ok.injEq]
  unfold lookup
  rw [b.listed.elim_inj (fun _ => List.mem_of_find?_eq_some) fun _ => List.mem_of_find?_eq_some,
    Search.find?_eq_find?_iff, hboth, b.clear_iff]
  exact forall_congr' fun e => imp_congr_right fun hfind => and_iff_right (List.find?_some hfind)

theorem Bucket.findsNumber_iff : FindsNumber t memory index key ↔ ¬b.Clear memory key := by
  rw [b.clear_iff]
  unfold FindsNumber
  rw [b.find_eq]
  constructor
  · rintro ⟨hsize, p, node, hfind, hne, hnode, hzero⟩ h
    cases Except.ok.inj hfind
    cases hfirst : b.entries.find? (accepts memory key) with
    | none =>
      rw [hfirst] at hne
      exact hne rfl
    | some e =>
      rw [hfirst] at hnode
      cases hnode.symm.trans (b.listed.mem (List.mem_of_find?_eq_some hfirst)).2
      exact stands_ne_of_kinds hzero hsize (of_decide_eq_true (h e hfirst))
  · intro h
    push Not at h
    obtain ⟨e, hfind, hnot⟩ := h
    obtain ⟨hzero, hsize, -⟩ := confuses_of_accepts (List.find?_some hfind) hnot
    obtain ⟨hne, hnode⟩ := b.listed.mem (List.mem_of_find?_eq_some hfind)
    exact ⟨hsize, e.1, e.2, by rw [hfind]; rfl, hne, hnode, hzero⟩

end

/-! ## Tables with keys of both kinds -/

/-- Nothing is asked of the kinds of keys. Nothing is removed, and `kmalloc`
returns NULL or memory that is not in use. -/
def HashAction.Mixed (s : HashState) : HashAction → Prop
  | .set _ _ newNode => s.table.nodes newNode = none
  | .remove _ => False
  | .write _ | .get _ | .contains _ => True

def MixedStep (s : HashState) (a : HashAction) (s' : HashState) : Prop :=
  a.Mixed s ∧ ∃ answer, s.exec a = .ok (answer, s')

/-- The nodes are where they were, and so is what is behind each of them. -/
structure SameChains (t t' : HashTable) : Prop where
  buckets : t'.buckets = t.buckets
  nodeCount : t'.nodeCount = t.nodeCount
  next : ∀ a node, t.nodes a = some node →
    ∃ node', t'.nodes a = some node' ∧ node'.next = node.next

section
variable {t t' t₁ : HashTable} {memory : Memory} {key : HashKey} {index p data newNode : Nat}
  {node : HashNode} {f : HashNode → HashNode} {entries : List (Nat × HashNode)}
  {s s' : HashState} {a : HashAction} {bucketCount : Files.Word}
  {history : List (HashState × HashAction)}

theorem SameChains.trans (h : SameChains t t₁) (h' : SameChains t₁ t') : SameChains t t' where
  buckets := h'.buckets.trans h.buckets
  nodeCount := h'.nodeCount.trans h.nodeCount
  next a node hnode := by
    obtain ⟨node₁, hnode₁, hnext₁⟩ := h.next a node hnode
    obtain ⟨node', hnode', hnext'⟩ := h'.next a node₁ hnode₁
    exact ⟨node', hnode', hnext'.trans hnext₁⟩

theorem SameChains.update (h : ∀ old, t.nodes p = some old → node.next = old.next) :
    SameChains t { t with nodes := Function.update t.nodes p (some node) } where
  buckets := rfl
  nodeCount := rfl
  next a old hold := by
    by_cases hap : a = p
    · subst hap
      exact ⟨node, Function.update_self .., h old hold⟩
    · exact ⟨old, (Function.update_of_ne hap _ _).trans hold, rfl⟩

theorem SameChains.modifyNode (hf : ∀ node, (f node).next = node.next) :
    Ensures (fun _ => True) (t.modifyNode p f) (SameChains t) := by
  unfold HashTable.modifyNode load
  cases hnode : t.nodes p with
  | none => trivial
  | some node =>
    refine SameChains.update fun old hold => ?_
    cases hnode.symm.trans hold
    exact hf node

theorem HashTable.Entries.same (h : t.Entries p entries) (hsame : ∀ a node,
    t.nodes a = some node → ∃ node', t'.nodes a = some node' ∧ node'.next = node.next) :
    ∃ entries', t'.Entries p entries' ∧ entries'.length = entries.length := by
  induction h with
  | nil => exact ⟨[], .nil, rfl⟩
  | cons hne hnode _ ih =>
    obtain ⟨entries', hentries', hlength⟩ := ih
    obtain ⟨node', hnode', hnext⟩ := hsame _ _ hnode
    exact ⟨_, .cons hne hnode' (hnext ▸ hentries'), congrArg (· + 1) hlength⟩

/-- All buckets are lists. -/
def HashTable.Listed (t : HashTable) : Prop := ∀ index, Nonempty (Bucket t index)

theorem HashTable.Listed.same (h : t.Listed) (hsame : SameChains t t') : t'.Listed := by
  intro index
  obtain ⟨b⟩ := h index
  obtain ⟨entries, hentries, hlength⟩ := b.listed.same hsame.next
  refine ⟨⟨entries, ?_, ?_⟩⟩
  · rw [hsame.buckets]
    exact hentries
  · rw [hlength, hsame.nodeCount]
    exact b.counted

/-- A node that has been put in front of a bucket. -/
theorem HashTable.Listed.push (h : t.Listed) (hp : p ≠ 0) (hnode : t.nodes p = some node)
    (hnext : node.next = t.buckets index) : HashTable.Listed
      { t with buckets := Function.update t.buckets index p, nodeCount := t.nodeCount + 1 } := by
  let pushed : HashTable :=
    { t with buckets := Function.update t.buckets index p, nodeCount := t.nodeCount + 1 }
  have hsame : ∀ a node, t.nodes a = some node → ∃ node', pushed.nodes a = some node' ∧
      node'.next = node.next := fun _ node hnode => ⟨node, hnode, rfl⟩
  intro i
  obtain ⟨b⟩ := h i
  obtain ⟨entries, hentries, hlength⟩ := b.listed.same hsame
  have hcount := b.counted
  by_cases hi : i = index
  · subst hi
    refine ⟨⟨(p, node) :: entries, ?_, ?_⟩⟩
    · show HashTable.Entries _ (Function.update t.buckets i p i) _
      rw [Function.update_self]
      exact .cons hp hnode (hnext ▸ hentries)
    · show entries.length + 1 ≤ t.nodeCount + 1
      omega
  · refine ⟨⟨entries, ?_, ?_⟩⟩
    · show HashTable.Entries _ (Function.update t.buckets index p i) _
      rw [Function.update_of_ne hi]
      exact hentries
    · show entries.length ≤ t.nodeCount + 1
      omega

/-- The table with the node that is going to be in front of the bucket. -/
theorem HashTable.Listed.insert (h : t.Listed) (hp : p ≠ 0) (hfree : t.nodes p = none)
    (hnext : node.next = t.buckets index)
    (hsame : SameChains { t with nodes := Function.update t.nodes p (some node) } t') :
    HashTable.Listed { t' with
      buckets := Function.update t'.buckets index p, nodeCount := t'.nodeCount + 1 } := by
  have hadded : SameChains t { t with nodes := Function.update t.nodes p (some node) } :=
    .update fun old hold => (nomatch hfree.symm.trans hold)
  obtain ⟨node', hnode', hnext'⟩ := hsame.next p node (Function.update_self ..)
  have hbuckets := hsame.buckets
  refine (h.same (hadded.trans hsame)).push hp hnode' (hnext'.trans (hnext.trans ?_))
  rw [hbuckets]

theorem HashTable.Listed.insertNode (h : t.Listed) (hp : p ≠ 0) (hfree : t.nodes p = none) :
    Ensures (fun _ => True) (t.insertNode index key p) HashTable.Listed := by
  unfold HashTable.insertNode
  dsimp only
  split
  · exact h.insert hp hfree rfl ⟨rfl, rfl, fun _ node hnode => ⟨node, hnode, rfl⟩⟩
  · rw [ensures_bind]
    refine Ensures.mono (SameChains.modifyNode fun _ => rfl) fun _ hsame => ?_
    exact h.insert hp hfree (by rfl) hsame

theorem HashTable.Listed.set (h : t.Listed) (hfree : t.nodes newNode = none) :
    Ensures (fun _ => True) (t.hashTableSet memory key data newNode) fun r => r.2.Listed := by
  unfold HashTable.hashTableSet
  split
  · exact h
  · dsimp only
    rw [ensures_bind]
    cases t.findNodeByBucket memory (t.hashKeyToIndex memory key) key with
    | error fault => trivial
    | ok p =>
      show Ensures _ (if p = 0 then _ else _) _
      split
      · show Ensures _ (if newNode = 0 then _ else _) _
        split
        · exact h
        · rename_i hnew
          simp only [ensures_bind]
          refine (h.insertNode hnew hfree).mono fun t h => ?_
          exact Ensures.mono (SameChains.modifyNode fun _ => rfl) fun _ hsame => h.same hsame
      · rw [ensures_bind]
        exact Ensures.mono (SameChains.modifyNode fun _ => rfl) fun _ hsame => h.same hsame

theorem fresh_listed (h : Fresh bucketCount s) : s.table.Listed := by
  intro index
  have hzero : s.table.buckets index = 0 := by
    unfold Fresh hashTableInit at h
    split at h
    · cases h
    · split at h
      · exact congrArg (fun t : HashTable => t.buckets index) (Option.some.inj h).symm
      · cases h
  exact ⟨⟨[], hzero ▸ .nil, Nat.zero_le _⟩⟩

theorem HashState.listed_exec (h : s.table.Listed) (hmixed : a.Mixed s) :
    Ensures (fun _ => True) (s.exec a) fun r => r.2.table.Listed := by
  unfold HashState.exec
  cases a with
  | write memory => exact h
  | set key data newNode =>
    dsimp only
    rw [ensures_bind]
    exact (h.set hmixed).mono fun _ h => h
  | get key =>
    dsimp only
    rw [ensures_bind]
    cases s.table.hashTableGet s.memory key with
    | error fault => trivial
    | ok found => cases found <;> exact h
  | contains key =>
    dsimp only
    rw [ensures_bind]
    cases s.table.hashTableContains s.memory key with
    | error fault => trivial
    | ok found => exact h
  | remove key => cases hmixed

theorem HashTable.Listed.step (h : s.table.Listed) (hstep : MixedStep s a s') :
    s'.table.Listed := by
  obtain ⟨hmixed, answer, hexec⟩ := hstep
  exact (s.listed_exec h hmixed).result hexec

/-- After any calls with keys of both kinds, each bucket is a list. -/
theorem run_bucket (hrun : Run (Fresh bucketCount) MixedStep history s) (index : Nat) :
    Nonempty (Bucket s.table index) :=
  hrun.invariant (fun _ => fresh_listed) (fun _ _ _ => HashTable.Listed.step) index

end

/-! ## Kinds are kept apart, but for one pointer -/

/-- A stored key matches by kind and value just if it is not a number with the
address of the bytes that are looked up, and two keys match each other alike
just if this holds of both. In any bucket a search is by kind and value just if
such numbers come behind an entry of the key, and otherwise bytes find a number. -/
theorem keys_compare_iff (memory : Memory) :
    (∀ (node : HashNode) (key : HashKey), (keyMatches memory node key = true ↔
      node.key.stands memory = key.stands memory) ↔ ¬node.key.Confuses key) ∧
    (∀ node node' : HashNode, keyMatches memory node node'.key = keyMatches memory node' node.key ↔
      ¬node.key.Confuses node'.key ∧ ¬node'.key.Confuses node.key) ∧
    ∀ (t : HashTable) (index : Nat) (b : Bucket t index) (key : HashKey),
      (t.findNodeByBucket memory index key = .ok (lookup memory key b.entries) ↔
        b.Clear memory key) ∧
      (FindsNumber t memory index key ↔ ¬b.Clear memory key) :=
  ⟨fun _ _ => compared_iff, fun _ _ => symmetric_iff,
    fun _ _ b _ => ⟨b.finds_iff, b.findsNumber_iff⟩⟩

/-- An empty table of one bucket, and zeros in memory. -/
def emptyBucket : HashState := ⟨fun _ => 0, ⟨fun _ => 0, 1, 0, fun _ => none⟩⟩

/-- The number 16 is set, and then one byte at address 16 is looked up. -/
theorem pointer_matches_number : ¬∀ (history : List (HashState × HashAction)) (s : HashState),
    Run (Fresh 1) MixedStep history s → ∀ a node, s.table.nodes a = some node → ∀ key : HashKey,
      keyMatches s.memory node key = true ↔ node.key.stands s.memory = key.stands s.memory := by
  intro hclaim
  let call : HashAction := .set (hashKeyCreateU64 16) 7 1
  have hstep : MixedStep emptyBucket call _ := ⟨rfl, ⟨0, none⟩, rfl⟩
  have hrun : Run (Fresh 1) MixedStep [(emptyBucket, call)] _ := .next (.start rfl) hstep
  have hmatches := (hclaim _ _ hrun 1 _ rfl (hashKeyCreateData 16 1)).mp rfl
  cases hmatches

end ZOs.Utils.Hash
