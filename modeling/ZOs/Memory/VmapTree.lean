import ZOs.Lib.Bits
import ZOs.Lib.TableTree
import ZOs.Memory.Vmap

/-!
# The tables as a tree

What `vmap_virtual_to_physical` answers is where a walk along the four
indices of an address ends. `WellFormed` is the invariant of all mapping
functions: every table that is reached is a page obtained from
`alloc_page`, and none is reached twice. The two helpers that all of them
start with, `rootTable` and `entryOrNewTable`, only let the tree grow: no
walk of an address ends elsewhere than before.
-/

namespace ZOs.Paging

open TableTree Attempt

/-! ## Walks -/

/-- An index into a table. -/
abbrev Index := Fin 512

theorem index_lt (x : Word) : (x &&& 0x1FF).toNat < 512 := by
  have h := Bits.toNat_and_low (x := x) (n := 9) (by decide)
  have hlow : Bits.low 64 9 = 0x1FF := by decide
  rw [hlow] at h
  rw [h]
  exact Nat.mod_lt _ (by decide)

def index (x : Word) : Index := ⟨(x &&& 0x1FF).toNat, index_lt x⟩

theorem index_val (x : Word) : (index x).val = x.toNat % 512 :=
  Bits.toNat_and_low (x := x) (n := 9) (by decide)

theorem l0Index_toNat (x : Word) : (l0Index x).toNat = (index (x >>> 39)).val := rfl

theorem l1Index_toNat (x : Word) : (l1Index x).toNat = (index (x >>> 30)).val := rfl

theorem l2Index_toNat (x : Word) : (l2Index x).toNat = (index (x >>> 21)).val := rfl

theorem l3Index_toNat (x : Word) : (l3Index x).toNat = (index (x >>> 12)).val := rfl

/-- The indices that translate an address. -/
def path (virtualAddress : Word) : List Index :=
  [index (virtualAddress >>> 39), index (virtualAddress >>> 30), index (virtualAddress >>> 21),
    index (virtualAddress >>> 12)]

/-- The number of the page of an address, of which only 48 bits count. -/
def pageNumber (virtualAddress : Word) : Nat := virtualAddress.toNat % 2 ^ 48 / 4096

theorem path_eq_iff {x y : Word} : path x = path y ↔ pageNumber x = pageNumber y := by
  simp only [path, List.cons.injEq, Fin.ext_iff, index_val, BitVec.toNat_ushiftRight,
    Nat.shiftRight_eq_div_pow, pageNumber, and_true]
  omega

/-- What an entry is at a depth: the first level has tables only, the last
one pages only. -/
def entryKind (depth : Nat) (entry : Word) : Kind Word :=
  if entry &&& tblEntryValid = 0 then .fault
  else if depth = 0 ∨ depth < 3 ∧ entry &&& tblEntryTable ≠ 0 then
    .table (entry &&& tblEntryAddrMask)
  else .leaf

theorem entryKind_invalid {e : Word} (h : e &&& tblEntryValid = 0) (d : Nat) :
    entryKind d e = .fault := if_pos h

theorem entryKind_table {e : Word} {d : Nat} (hv : e &&& tblEntryValid ≠ 0)
    (ht : e &&& tblEntryTable ≠ 0) (hd : d < 3) :
    entryKind d e = .table (e &&& tblEntryAddrMask) := by
  unfold entryKind
  rw [if_neg hv, if_pos (.inr ⟨hd, ht⟩)]

theorem entryKind_root {e : Word} (hv : e &&& tblEntryValid ≠ 0) :
    entryKind 0 e = .table (e &&& tblEntryAddrMask) := by
  unfold entryKind
  rw [if_neg hv, if_pos (.inl rfl)]

theorem entryKind_block {e : Word} {d : Nat} (hv : e &&& tblEntryValid ≠ 0)
    (ht : e &&& tblEntryTable = 0) (hd : d ≠ 0) : entryKind d e = .leaf := by
  unfold entryKind
  rw [if_neg hv, if_neg (by simp [hd, ht])]

theorem entryKind_page {e : Word} (hv : e &&& tblEntryValid ≠ 0) : entryKind 3 e = .leaf := by
  unfold entryKind
  rw [if_neg hv, if_neg (by simp)]

theorem entryKind_page_ne_table (e : Word) (t : Word) : entryKind 3 e ≠ .table t := by
  by_cases hv : e &&& tblEntryValid = 0
  · rw [entryKind_invalid hv]
    simp
  · rw [entryKind_page hv]
    simp

/-- The bits of a leaf that give the address, by depth. -/
def leafAddrMask : Nat → Word
  | 1 => tblEntryL1BlockAddrMask
  | 2 => tblEntryL2BlockAddrMask
  | _ => tblEntryAddrMask

/-- What a leaf covers, by depth. -/
def leafSize : Nat → Word
  | 1 => tblL1BlockSize
  | 2 => tblL2BlockSize
  | _ => mmapGranuleSize

/-- The physical address that the end of a walk stands for. -/
def stopAddress (virtualAddress : Word) : Stop Word Word → Option Word
  | .leaf depth entry =>
    some ((entry &&& leafAddrMask depth) ||| (virtualAddress &&& (leafSize depth - 1)))
  | _ => none

/-- The entry `i` of a table. -/
def Vmap.slot (v : Vmap) (table : Word) (i : Index) : Word := v.memory (table.toNat + 8 * i.val)

theorem Vmap.entry_l0 (v : Vmap) (table x : Word) :
    v.entry table (l0Index x) = v.slot table (index (x >>> 39)) := rfl

theorem Vmap.entry_l1 (v : Vmap) (table x : Word) :
    v.entry table (l1Index x) = v.slot table (index (x >>> 30)) := rfl

theorem Vmap.entry_l2 (v : Vmap) (table x : Word) :
    v.entry table (l2Index x) = v.slot table (index (x >>> 21)) := rfl

theorem Vmap.entry_l3 (v : Vmap) (table x : Word) :
    v.entry table (l3Index x) = v.slot table (index (x >>> 12)) := rfl

/-- Follow indices from the root table, if there is one. -/
def Vmap.walk (v : Vmap) (is : List Index) : Stop Word Word :=
  if v.rootPageTable = 0 then .fault
  else TableTree.walk entryKind v.slot 0 v.rootPageTable is

/-- The table is found along the indices `p`. -/
def Vmap.Reached (v : Vmap) (table : Word) (p : List Index) : Prop := v.walk p = .table table

theorem Vmap.walk_of_root {v : Vmap} (h : v.rootPageTable ≠ 0) (is : List Index) :
    v.walk is = TableTree.walk entryKind v.slot 0 v.rootPageTable is := if_neg h

theorem Vmap.Reached.root_ne {v : Vmap} {t : Word} {p : List Index} (h : v.Reached t p) :
    v.rootPageTable ≠ 0 := by
  intro hroot
  unfold Vmap.Reached Vmap.walk at h
  rw [if_pos hroot] at h
  cases h

theorem Vmap.reached_iff {v : Vmap} {t : Word} {p : List Index} (h : v.rootPageTable ≠ 0) :
    v.Reached t p ↔ TableTree.Reached entryKind v.slot v.rootPageTable t p := by
  unfold Vmap.Reached
  rw [v.walk_of_root h]
  rfl

/-- From a reached table, a walk goes on as its entries say. -/
theorem Vmap.Reached.walk_append {v : Vmap} {t : Word} {p is : List Index} (h : v.Reached t p) :
    v.walk (p ++ is) = TableTree.walk entryKind v.slot p.length t is := by
  rw [v.walk_of_root h.root_ne]
  exact TableTree.Reached.walk ((Vmap.reached_iff h.root_ne).mp h)

theorem Vmap.Reached.child {v : Vmap} {t t' : Word} {p : List Index} {i : Index}
    (h : v.Reached t p) (hk : entryKind p.length (v.slot t i) = .table t') :
    v.Reached t' (p ++ [i]) := by
  unfold Vmap.Reached
  rw [h.walk_append, walk_cons_table hk, walk_nil]

theorem Vmap.walk_fault_append {v : Vmap} {p : List Index} (h : v.walk p = .fault)
    (q : List Index) : v.walk (p ++ q) = .fault := by
  unfold Vmap.walk at h ⊢
  split
  · rfl
  · rename_i hroot
    rw [if_neg hroot] at h
    exact TableTree.walk_fault_append h q

theorem Vmap.leaf_depth {v : Vmap} {x : Word} {d : Nat} {e : Word}
    (h : v.walk (path x) = .leaf d e) : d < 4 := by
  unfold Vmap.walk at h
  split at h
  · cases h
  · exact walk_leaf_depth h

/-- The translation is the end of the walk. -/
theorem vmapVirtualToPhysical_eq (v : Vmap) (virtualAddress : Word) :
    v.vmapVirtualToPhysical virtualAddress =
      stopAddress virtualAddress (v.walk (path virtualAddress)) := by
  unfold Vmap.vmapVirtualToPhysical Vmap.walk
  by_cases hroot : v.rootPageTable = 0
  · simp only [if_pos hroot, stopAddress]
  · simp only [if_neg hroot, path]
    generalize he0 : v.entry v.rootPageTable (l0Index virtualAddress) = e0
    rw [v.entry_l0] at he0
    by_cases h0 : e0 &&& tblEntryValid = 0
    · rw [if_pos h0, walk_cons_fault (by rw [he0, entryKind_invalid h0])]
      rfl
    rw [if_neg h0, walk_cons_table (by rw [he0, entryKind_root h0])]
    generalize he1 : v.entry (e0 &&& tblEntryAddrMask) (l1Index virtualAddress) = e1
    rw [v.entry_l1] at he1
    by_cases h1 : e1 &&& tblEntryValid = 0
    · rw [if_pos h1, walk_cons_fault (by rw [he1, entryKind_invalid h1])]
      rfl
    rw [if_neg h1]
    by_cases hb1 : e1 &&& tblEntryTable = 0
    · rw [if_pos hb1, walk_cons_leaf (by rw [he1, entryKind_block h1 hb1 (by decide)]), he1]
      rfl
    rw [if_neg hb1, walk_cons_table (by rw [he1, entryKind_table h1 hb1 (by decide)])]
    generalize he2 : v.entry (e1 &&& tblEntryAddrMask) (l2Index virtualAddress) = e2
    rw [v.entry_l2] at he2
    by_cases h2 : e2 &&& tblEntryValid = 0
    · rw [if_pos h2, walk_cons_fault (by rw [he2, entryKind_invalid h2])]
      rfl
    rw [if_neg h2]
    by_cases hb2 : e2 &&& tblEntryTable = 0
    · rw [if_pos hb2, walk_cons_leaf (by rw [he2, entryKind_block h2 hb2 (by decide)]), he2]
      rfl
    rw [if_neg hb2, walk_cons_table (by rw [he2, entryKind_table h2 hb2 (by decide)])]
    generalize he3 : v.entry (e2 &&& tblEntryAddrMask) (l3Index virtualAddress) = e3
    rw [v.entry_l3] at he3
    by_cases h3 : e3 &&& tblEntryValid = 0
    · rw [if_pos h3, walk_cons_fault (by rw [he3, entryKind_invalid h3])]
      rfl
    · rw [if_neg h3, walk_cons_leaf (by rw [he3, entryKind_page h3]), he3]
      rfl

end ZOs.Paging
