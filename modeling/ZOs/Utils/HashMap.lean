import ZOs.Lib.Run
import ZOs.Utils.HashCalls

/-!
# The hash table as a finite map

Without removals the table is a finite map (`hash_table_map`).
`hash_table_remove` follows the next pointer of the head of a bucket without
a test and leaves the count as it is, so that it does what it should only to
keys that are not there (`remove_iff`).
-/

namespace ZOs.Utils.Hash

open LinkedMem Runs

/-! ## Histories -/

/-- A new table. -/
def Fresh (bucketCount : Files.Word) (s : HashState) : Prop :=
  hashTableInit bucketCount = some s.table

/-- An action that returns. -/
def HashStep (numbers : Prop) (s : HashState) (a : HashAction) (s' : HashState) : Prop :=
  a.Allowed numbers s ∧ ∃ answer, s.exec a = .ok (answer, s')

/-- What was set last for each content. -/
def mapAfter : List (HashState × HashAction) → List UInt8 → Option Nat
  | [] => fun _ => none
  | (s, .set key data _) :: history =>
    if data = 0 then mapAfter history
    else Function.update (mapAfter history) (key.content s.memory) (some data)
  | (s, .remove key) :: history =>
    Function.update (mapAfter history) (key.content s.memory) none
  | _ :: history => mapAfter history

/-- What a finite map answers. -/
def answerOf (map : List UInt8 → Option Nat) (memory : Memory) : HashAction → HashAnswer
  | .write _ => ⟨0, none⟩
  | .set _ data _ => ⟨if data = 0 then -1 else 0, none⟩
  | .get key =>
    match map (key.content memory) with
    | none => ⟨-1, none⟩
    | some data => ⟨0, some data⟩
  | .contains key => ⟨if (map (key.content memory)).isSome then 1 else 0, none⟩
  | .remove key => ⟨if (map (key.content memory)).isSome then 0 else -1, none⟩

/-- No removal, and `kmalloc` does not fail. -/
def HashAction.Regular : HashAction → Prop
  | .set _ _ newNode => newNode ≠ 0
  | .remove _ => False
  | _ => True

/-- The links of a bucket. -/
def HashTable.links (t : HashTable) (index : Nat) : Links Nat where
  head := t.buckets index
  nxt a := (t.nodes a).elim 0 HashNode.next
  prv a := (t.nodes a).elim 0 HashNode.prev

/-- Each bucket is a list of the nodes that belong there, which is one of the
buckets that are allocated, and no content has two nodes. -/
structure HashTable.WellFormed (memory : Memory) (t : HashTable) : Prop where
  buckets : ∃ chains : Nat → List Nat, (∀ i, (t.links i).Holds (chains i)) ∧
    ∀ i a, a ∈ chains i ↔ ∃ node, t.nodes a = some node ∧ t.hashKeyToIndex memory node.key = i
  inside : ∀ key, t.hashKeyToIndex memory key < t.bucketCount.toNat
  unique : ∀ a b node node', t.nodes a = some node → t.nodes b = some node' →
    node.key.content memory = node'.key.content memory → a = b

section
variable {numbers : Prop} {s s' : HashState} {a : HashAction} {key : HashKey} {data newNode : Nat}
  {bucketCount : Files.Word} {history : List (HashState × HashAction)}

theorem HashState.Inv.wellFormed (h : s.Inv numbers) : s.table.WellFormed s.memory := by
  obtain ⟨chains, hchains⟩ := h.chains
  have hview : ∀ {a node}, s.table.nodes a = some node →
      (s.table.view s.memory).nodes a = some (node.view s.memory) := fun hnode =>
    Option.map_eq_some_iff.mpr ⟨_, hnode, rfl⟩
  refine ⟨⟨chains, fun i => ?_, fun i a => ⟨fun ha => ?_, ?_⟩⟩, fun key => ?_,
    fun a b node node' ha hb hkey => hchains.unique (hview ha) (hview hb) hkey⟩
  · refine (hchains.holds i).congr rfl (fun a _ => ?_) fun a _ => ?_
    · show (s.table.nodes a).elim 0 _ = ((s.table.nodes a).map _).elim 0 _
      cases s.table.nodes a <;> rfl
    · show (s.table.nodes a).elim 0 _ = ((s.table.nodes a).map _).elim 0 _
      cases s.table.nodes a <;> rfl
  · obtain ⟨n, hn, hindex⟩ := hchains.node ha
    obtain ⟨node, hnode, rfl⟩ := Option.map_eq_some_iff.mp hn
    exact ⟨node, hnode, hindex⟩
  · rintro ⟨node, hnode, rfl⟩
    exact hchains.chained (hview hnode)
  · have hpos : s.table.bucketCount.toNat ≠ 0 := fun hzero =>
      h.bucketCount (BitVec.eq_of_toNat_eq hzero)
    have hle : s.table.hashKeyToIndex s.memory key ≤ (s.table.bucketCount - 1).toNat := by
      unfold HashTable.hashKeyToIndex Files.bucketIndex
      rw [BitVec.toNat_and]
      exact Nat.and_le_right
    have hsub : (s.table.bucketCount - 1).toNat = s.table.bucketCount.toNat - 1 :=
      BitVec.toNat_sub_of_le (y := 1) (BitVec.le_def.mpr (Nat.pos_of_ne_zero hpos))
    omega

/-- A new table is empty. -/
theorem fresh_inv (numbers : Prop) (h : Fresh bucketCount s) :
    s.Inv numbers ∧ s.contents = ∅ ∧ s.table.nodeCount = 0 := by
  unfold Fresh hashTableInit at h
  split at h
  · cases h
  · rename_i hne
    split at h
    · obtain ⟨memory, table⟩ := s
      cases h
      let s : HashState := ⟨memory, ⟨fun _ => 0, bucketCount, 0, fun _ => none⟩⟩
      have hempty : s.contents = ∅ :=
        Set.eq_empty_of_forall_notMem fun c ⟨d, a, node, hnode, _⟩ => nomatch hnode
      refine ⟨⟨fun a node hnode => (nomatch hnode),
        ⟨fun _ => [], Files.HashTable.init_inv bucketCount⟩, ?_, ?_, hne⟩, hempty, rfl⟩
      · exact hempty ▸ Set.finite_empty
      · exact ((congrArg Set.ncard hempty).trans (Set.ncard_empty _)).le
    · cases h

/-- A call of `hash_table_set` that returns. -/
theorem HashState.Inv.set (h : s.Inv numbers)
    (hallowed : (HashAction.set key data newNode).Allowed numbers s) :
    ∃ answer s', s.exec (.set key data newNode) = .ok (answer, s') ∧ s'.Inv numbers := by
  obtain ⟨hkey, hfree⟩ := hallowed
  by_cases hdata : data = 0
  · subst hdata
    exact ⟨_, s, set_null s key newNode, h⟩
  by_cases hfull : key.content s.memory ∉ s.contents ∧ newNode = 0
  · obtain ⟨habsent, rfl⟩ := hfull
    exact ⟨_, s, h.set_full hkey hdata habsent, h⟩
  · obtain ⟨s', hcall, h', -⟩ := h.set_done hkey hdata fun habsent =>
      ⟨fun hzero => hfull ⟨habsent, hzero⟩, hfree⟩
    exact ⟨_, s', hcall, h'⟩

theorem HashState.Inv.step (h : s.Inv numbers) (hstep : HashStep numbers s a s') :
    s'.Inv numbers := by
  obtain ⟨hallowed, answer, hexec⟩ := hstep
  cases a with
  | write memory =>
    cases hexec
    exact (h.write hallowed).1
  | set key data newNode =>
    obtain ⟨answer', s₁, hcall, h₁⟩ := h.set hallowed
    cases hexec.symm.trans hcall
    exact h₁
  | get key =>
    by_cases hpresent : key.content s.memory ∈ s.contents
    · obtain ⟨data, hmaps⟩ := hpresent
      cases hexec.symm.trans (h.get_some hallowed hmaps)
      exact h
    · cases hexec.symm.trans (h.get_none hallowed hpresent)
      exact h
  | contains key =>
    by_cases hpresent : key.content s.memory ∈ s.contents
    · cases hexec.symm.trans (h.contains_some hallowed hpresent)
      exact h
    · cases hexec.symm.trans (h.contains_none hallowed hpresent)
      exact h
  | remove key =>
    by_cases hpresent : key.content s.memory ∈ s.contents
    · rcases h.remove_some hallowed hpresent with hfault | ⟨s₁, hcall, h₁, -⟩
      · cases hexec.symm.trans hfault
      · cases hexec.symm.trans hcall
        exact h₁
    · cases hexec.symm.trans (h.remove_none hallowed hpresent)
      exact h

theorem run_inv (hrun : Run (Fresh bucketCount) (HashStep numbers) history s) : s.Inv numbers :=
  hrun.invariant (fun _ hfresh => (fresh_inv numbers hfresh).1) fun _ _ _ h hstep => h.step hstep

/-! ## Without removals -/

/-- The table is the map of its history, and counts what is in it. -/
structure Represents (s : HashState) (map : List UInt8 → Option Nat) : Prop where
  maps : ∀ c d, s.Maps c d ↔ map c = some d
  count : s.table.nodeCount = s.contents.ncard

theorem Represents.mem_contents {map : List UInt8 → Option Nat} (h : Represents s map)
    {c : List UInt8} : c ∈ s.contents ↔ map c ≠ none :=
  (exists_congr fun d => h.maps c d).trans Option.ne_none_iff_exists'.symm

theorem Assigned.represents {map : List UInt8 → Option Nat} {c : List UInt8}
    (h : Represents s map) (hinv : s.Inv numbers) (hassigned : Assigned s c data s') :
    Represents s' (Function.update map c (some data)) where
  maps c' d := by
    rw [hassigned.maps]
    by_cases hc : c' = c
    · rw [if_pos hc, hc, Function.update_self, Option.some.injEq, eq_comm]
    · rw [if_neg hc, Function.update_of_ne hc]
      exact h.maps c' d
  count := by
    have hncard := hassigned.ncard hinv.finite
    have hcount := h.count
    omega

/-- A call answers as the map does, and leaves what the map is then. -/
theorem Represents.exec (h : Represents s (mapAfter history)) (hinv : s.Inv numbers)
    (hallowed : a.Allowed numbers s) (hregular : a.Regular) :
    ∃ s', s.exec a = .ok (answerOf (mapAfter history) s.memory a, s') ∧
      Represents s' (mapAfter ((s, a) :: history)) := by
  cases a with
  | write memory =>
    refine ⟨{ s with memory }, rfl, fun c d => ((hinv.write hallowed).2 c d).trans (h.maps c d), ?_⟩
    refine h.count.trans (congrArg Set.ncard (Set.ext fun c => ?_))
    exact exists_congr fun d => ((hinv.write hallowed).2 c d).symm
  | set key data newNode =>
    obtain ⟨hkey, hfree⟩ := hallowed
    show ∃ s', s.exec (.set key data newNode) = .ok (⟨if data = 0 then -1 else 0, none⟩, s') ∧
      Represents s' (if data = 0 then mapAfter history
        else Function.update (mapAfter history) (key.content s.memory) (some data))
    by_cases hdata : data = 0
    · subst hdata
      exact ⟨s, set_null s key newNode, h⟩
    · obtain ⟨s', hcall, -, hassigned⟩ := hinv.set_done hkey hdata fun _ => ⟨hregular, hfree⟩
      rw [if_neg hdata, if_neg hdata]
      exact ⟨s', hcall, hassigned.represents h hinv⟩
  | get key =>
    refine ⟨s, ?_, h⟩
    show s.exec (.get key) = .ok (match mapAfter history (key.content s.memory) with
      | none => ⟨-1, none⟩
      | some data => ⟨0, some data⟩, s)
    cases hmap : mapAfter history (key.content s.memory) with
    | none => exact hinv.get_none hallowed fun hmem => h.mem_contents.mp hmem hmap
    | some data => exact hinv.get_some hallowed ((h.maps _ data).mpr hmap)
  | contains key =>
    refine ⟨s, ?_, h⟩
    show s.exec (.contains key) =
      .ok (⟨if (mapAfter history (key.content s.memory)).isSome then 1 else 0, none⟩, s)
    cases hmap : mapAfter history (key.content s.memory) with
    | none => exact hinv.contains_none hallowed fun hmem => h.mem_contents.mp hmem hmap
    | some data => exact hinv.contains_some hallowed ⟨data, (h.maps _ data).mpr hmap⟩
  | remove key => cases hregular

theorem run_represents (hrun : Run (Fresh bucketCount) (HashStep numbers) history s)
    (hregular : ∀ p ∈ history, p.2.Regular) : Represents s (mapAfter history) := by
  induction hrun with
  | start hfresh =>
    obtain ⟨-, hempty, hcount⟩ := fresh_inv numbers hfresh
    refine ⟨fun c d => ⟨fun hmaps => ?_, nofun⟩, ?_⟩
    · exact absurd (hempty ▸ ⟨d, hmaps⟩ : c ∈ (∅ : Set _)) (Set.notMem_empty c)
    · rw [hcount, hempty, Set.ncard_empty]
  | next hrun hstep ih =>
    obtain ⟨ha, hrest⟩ := List.forall_mem_cons.mp hregular
    obtain ⟨s', hexec, h'⟩ := (ih hrest).exec (run_inv hrun) hstep.1 ha
    obtain ⟨-, answer, hexec'⟩ := hstep
    cases hexec.symm.trans hexec'
    exact h'

end

/-- Without removals, and as long as there is memory, the table of strings
answers as the finite map of what has been set, and is well formed. -/
theorem hash_table_map (bucketCount : Files.Word) (history : List (HashState × HashAction))
    (s : HashState) (hrun : Run (Fresh bucketCount) (HashStep False) history s)
    (hregular : ∀ p ∈ history, p.2.Regular) :
    (∀ a : HashAction, a.Allowed False s → a.Regular →
      ∃ s', s.exec a = .ok (answerOf (mapAfter history) s.memory a, s')) ∧
    s.table.WellFormed s.memory ∧ {c | mapAfter history c ≠ none}.Finite ∧
    s.table.nodeCount = {c | mapAfter history c ≠ none}.ncard := by
  have hinv := run_inv hrun
  have h := run_represents hrun hregular
  have hcontents : s.contents = {c | mapAfter history c ≠ none} := Set.ext fun c => h.mem_contents
  refine ⟨fun a hallowed hregular => ?_, hinv.wellFormed, hcontents ▸ hinv.finite,
    hcontents ▸ h.count⟩
  obtain ⟨s', hexec, -⟩ := h.exec hinv hallowed hregular
  exact ⟨s', hexec⟩

/-! ## One key -/

/-- An empty table, and the string `a` at address 16. -/
def emptyTable : HashState :=
  ⟨fun a => if a = 16 then 97 else 0, ⟨fun _ => 0, 4, 0, fun _ => none⟩⟩

def someKey : HashKey := hashKeyCreateData 16 1

def oneNode : HashNode := ⟨someKey, 7, 0, 0⟩

/-- The key is in node 1, which is the only one of bucket 0. -/
def oneKey : HashState := { emptyTable with
  table :=
    { buckets := Function.update (fun _ => 0) 0 1
      bucketCount := 4
      nodeCount := 1
      nodes := Function.update
        (Function.update (fun _ => none) 1 (some { oneNode with data := 0 })) 1 (some oneNode) } }

theorem someKey_kind : someKey.OfKind False := iff_of_false (by decide) not_false

theorem oneKey_step : HashStep False emptyTable (.set someKey 7 1) oneKey :=
  ⟨⟨someKey_kind, rfl⟩, ⟨0, none⟩, rfl⟩

theorem oneKey_run : Run (Fresh 4) (HashStep False) [(emptyTable, .set someKey 7 1)] oneKey :=
  .next (.start rfl) oneKey_step

theorem hash_table_map_one : ∃ s', oneKey.exec (.get someKey) = .ok (⟨0, some 7⟩, s') :=
  (hash_table_map 4 _ oneKey oneKey_run (by simp [HashAction.Regular])).1 (.get someKey)
    someKey_kind
    trivial

/-! ## Removals -/

/-- The removal of a key returns, changes nothing if there is no such key,
and otherwise takes away this key only, which is then not counted. -/
def RemovesKey (s : HashState) (key : HashKey) : Prop :=
  ∃ answer s', s.exec (.remove key) = .ok (answer, s') ∧
    (key.content s.memory ∉ s.contents → answer = ⟨-1, none⟩ ∧ s' = s) ∧
    (key.content s.memory ∈ s.contents → answer = ⟨0, none⟩ ∧ s'.memory = s.memory ∧
      (∀ c d, s'.Maps c d ↔ c ≠ key.content s.memory ∧ s.Maps c d) ∧
      s'.table.WellFormed s'.memory ∧ s'.table.nodeCount = s'.contents.ncard)

theorem HashState.Inv.removesKey_iff {numbers : Prop} {s : HashState} {key : HashKey}
    (h : s.Inv numbers) (hkey : key.OfKind numbers) :
    RemovesKey s key ↔ key.content s.memory ∉ s.contents := by
  constructor
  · rintro ⟨answer, s', hexec, -, hremoves⟩ hpresent
    obtain ⟨-, -, -, -, hcount⟩ := hremoves hpresent
    rcases h.remove_some hkey hpresent with hfault | ⟨s₁, hcall, -, herased⟩
    · cases hexec.symm.trans hfault
    · cases hexec.symm.trans hcall
      -- the count has been right at best, and is as before
      have hfewer := Set.ncard_sdiff_singleton_lt_of_mem hpresent h.finite
      have hbefore := h.count
      rw [herased.contents, herased.nodeCount] at hcount
      omega
  · intro habsent
    exact ⟨_, s, h.remove_none hkey habsent, fun _ => ⟨rfl, rfl⟩, fun hpresent =>
      absurd hpresent habsent⟩

/-- After any calls, `hash_table_remove` does what it should just if the key
is not in the table. -/
theorem remove_iff (numbers : Prop) (bucketCount : Files.Word)
    (history : List (HashState × HashAction)) (s : HashState) (key : HashKey)
    (hrun : Run (Fresh bucketCount) (HashStep numbers) history s) (hkey : key.OfKind numbers) :
    RemovesKey s key ↔ key.content s.memory ∉ s.contents :=
  (run_inv hrun).removesKey_iff hkey

theorem remove_iff_one : RemovesKey oneKey someKey ↔
    someKey.content oneKey.memory ∉ oneKey.contents :=
  remove_iff False 4 _ oneKey someKey oneKey_run someKey_kind

/-- The only key of a bucket: its node has no next node whose `prev` could
be set. -/
theorem oneKey_faults : ¬∀ (numbers : Prop) (bucketCount : Files.Word)
    (history : List (HashState × HashAction)) (s : HashState) (key : HashKey),
    Run (Fresh bucketCount) (HashStep numbers) history s → key.OfKind numbers →
      RemovesKey s key := by
  intro hclaim
  have hfault : oneKey.exec (.remove someKey) = .error .nullPointer := rfl
  obtain ⟨answer, s', hexec, -⟩ := hclaim False 4 _ oneKey someKey oneKey_run someKey_kind
  cases hfault.symm.trans hexec

end ZOs.Utils.Hash
