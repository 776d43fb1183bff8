import ZOs.Lib.Bytes
import ZOs.Lib.Registry
import ZOs.Utils.VectorList

/-!
# The handle table

`handle_table.c` over the vector. An entry is a pointer, and a handle its
place; an entry that is removed stays, and is NULL. The tables that other
parts of the kernel use are lists of pointers; here their bytes are in a
block, and what `handle_table_get` reads is what was stored.

A handle is an `int64_t`. It is compared with the size as an `int32_t`, and
then by the vector as an unsigned number. As long as the size is less than
`2 ^ 31` the two checks together let the entries through and nothing else
(`not_refuses`, `handleTableGet_eq`).
-/

namespace ZOs.Utils

open Registries
open Bytes (byteOf ofBytes)

/-- The bytes of a `uint64_t`. -/
def wordBytes (w : Word) : List Byte := (List.range 8).map (byteOf w)

/-- `handle_table_t`. -/
structure HandleTable where
  handles : ByteVector

/-- `handle_table_init`. -/
def handleTableInit (capacity : Word) (kmalloc : Kmalloc) : Option HandleTable :=
  if capacity = 0 then none else (vectorInit capacity 8 kmalloc).map HandleTable.mk

namespace HandleTable

variable (t : HandleTable)

/-- `handle_table_insert`: the result, the handle, and the table. -/
def handleTableInsert (data : Word) (kmalloc : Kmalloc) :
    Except Overrun (Int × Option Word × HandleTable) :=
  if data = 0 then .ok (-1, none, t)
  else do
    let (result, handles) ← t.handles.vectorPushBack (wordBytes data) kmalloc
    if result < 0 then return (-1, none, ⟨handles⟩)
    else return (0, some (handles.size - 1), ⟨handles⟩)

/-- The checks of a handle that the functions begin with. -/
def Refuses (handle : Word) : Prop :=
  handle.toInt < 0 ∨ (t.handles.size.setWidth 32).toInt ≤ (handle.setWidth 32).toInt

instance (handle : Word) : Decidable (t.Refuses handle) :=
  inferInstanceAs (Decidable (_ ∨ _))

/-- The entry of a handle gets a value: `handle_table_set` and
`handle_table_remove` after their checks of the pointers. -/
def store (handle value : Word) : Except Overrun (Int × HandleTable) :=
  if t.Refuses handle then .ok (-1, t)
  else do
    let (result, handles) ← t.handles.vectorSet handle (wordBytes value)
    if result < 0 then return (-1, ⟨handles⟩) else return (0, ⟨handles⟩)

/-- `handle_table_remove`. -/
def handleTableRemove (handle : Word) : Except Overrun (Int × HandleTable) := t.store handle 0

/-- `handle_table_set`. -/
def handleTableSet (handle data : Word) : Except Overrun (Int × HandleTable) :=
  if data = 0 then .ok (-1, t) else t.store handle data

/-- `handle_table_get`: `none` for -1. -/
def handleTableGet (handle : Word) : Except Overrun (Option Word) :=
  if t.Refuses handle then .ok none
  else
    match t.handles.vectorGet handle with
    | none => .ok none
    | some itemPtr => do
      let item ← t.handles.data.read itemPtr 8
      return some (ofBytes item 8)

/-- The object that `handle_table_get` yields: none with an error or NULL. -/
def object (handle : Word) : Except Overrun (Option Word) := do
  let data ← t.handleTableGet handle
  return data.filter (· ≠ 0)

end HandleTable

/-! ## Calls -/

/-- A call that may change the table. `kmalloc` always returns a block. -/
inductive TableCall
  | insert (data : Word) (memory : Nat → Byte)
  | set (handle data : Word)
  | remove (handle : Word)

/-- What a call returns, and the handle that it stores. -/
structure TableAnswer where
  code : Int
  handle : Option Word
  deriving DecidableEq

def HandleTable.exec (t : HandleTable) : TableCall → Except Overrun (TableAnswer × HandleTable)
  | .insert data memory => do
    let (code, handle, t) ← t.handleTableInsert data (some memory)
    return (⟨code, handle⟩, t)
  | .set handle data => do
    let (code, t) ← t.handleTableSet handle data
    return (⟨code, none⟩, t)
  | .remove handle => do
    let (code, t) ← t.handleTableRemove handle
    return (⟨code, none⟩, t)

/-- One call after the other, with their answers. -/
def HandleTable.execAll :
    HandleTable → List TableCall → Except Overrun (List TableAnswer × HandleTable)
  | t, [] => .ok ([], t)
  | t, call :: calls => do
    let (answer, t) ← t.exec call
    let (answers, t) ← t.execAll calls
    return (answer :: answers, t)

/-- A call that inserts an object. -/
def TableCall.inserts : TableCall → Bool
  | .insert data _ => data ≠ 0
  | .set .. | .remove _ => false

/-! ## The registry -/

/-- What a call does to a registry: it issues the next number, or changes what
is under a handle that was issued. -/
def TableCall.event (events : List (Event Word Word)) : TableCall → Option (Event Word Word)
  | .insert data _ =>
    if data = 0 then none else some (.issue (BitVec.ofNat 64 (issued events).length) data)
  | .set handle data =>
    if data ≠ 0 ∧ handle ∈ issued events then some (.put handle data) else none
  | .remove handle => if handle ∈ issued events then some (.clear handle) else none

/-- The answer to a call that does that. -/
def answerOf : Option (Event Word Word) → TableAnswer
  | none => ⟨-1, none⟩
  | some e => ⟨0, e.issues⟩

/-- The answers of the registry, and what has happened to it. -/
def registryExecAll : List (Event Word Word) → List TableCall →
    List TableAnswer × List (Event Word Word)
  | events, [] => ([], events)
  | events, call :: calls =>
    let e := call.event events
    let (answers, events) := registryExecAll (events ++ e.toList) calls
    (answerOf e :: answers, events)

/-! ## The bytes of an entry -/

section
variable {t : HandleTable} {v v' : ByteVector} {w : Word} {i : Nat}

theorem wordBytes_getD {k : Nat} (hk : k < 8) : (wordBytes w).getD k 0 = byteOf w k := by
  unfold wordBytes
  rw [List.getD_eq_getElem?_getD, List.getElem?_map, List.getElem?_range hk, Option.map_some,
    Option.getD_some]

/-- The word that an entry is. -/
def ByteVector.word (v : ByteVector) (i : Nat) : Word :=
  ofBytes (fun k => v.data.bytes (i * 8 + k)) 8

/-- An entry whose bytes have not changed. -/
theorem word_congr (h : ∀ k < 8, v'.data.bytes (i * 8 + k) = v.data.bytes (i * 8 + k)) :
    v'.word i = v.word i := by
  refine Bytes.ofBytes_eq fun k hk => (h k hk).trans ?_
  have hbyte : byteOf (v.word i) k = v.data.bytes (i * 8 + k) :=
    Bytes.byteOf_ofBytes (Nat.le_refl 8) hk
  exact hbyte.symm

/-- An entry whose bytes have been stored. -/
theorem word_stored (h : ∀ k < 8, v'.data.bytes (i * 8 + k) = (wordBytes w).getD k 0) :
    v'.word i = w :=
  Bytes.ofBytes_eq fun k hk => (h k hk).trans (wordBytes_getD hk)

theorem Pushed.word_old (h : Pushed v (wordBytes w) v') (height : v.elementSize = 8)
    (hi : i < v.size.toNat) : v'.word i = v.word i :=
  word_congr fun k hk => h.kept _ (by
    rw [height]
    exact element_before hi hk)

theorem Pushed.word_new (h : Pushed v (wordBytes w) v') (height : v.elementSize = 8) :
    v'.word v.size.toNat = w := by
  have hnew := h.new
  rw [height] at hnew
  exact word_stored hnew

theorem Replaced.word_new (h : Replaced v i (wordBytes w) v') (height : v.elementSize = 8) :
    v'.word i = w := by
  have hnew := h.new
  rw [height] at hnew
  exact word_stored hnew

theorem Replaced.word_other {j : Nat} (h : Replaced v i (wordBytes w) v')
    (height : v.elementSize = 8) (hne : j ≠ i) : v'.word j = v.word j := by
  have hkept := h.kept
  rw [height] at hkept
  refine word_congr fun k hk => hkept _ ?_
  show _ < i * 8 ∨ i * 8 + 8 ≤ _
  omega

/-! ## The checks of a handle -/

/-- The entries pass the checks: their places are the same as `int32_t`s. -/
theorem not_refuses {handle : Word} (hsize : t.handles.size.toNat < 2 ^ 31)
    (hlt : handle.toNat < t.handles.size.toNat) : ¬t.Refuses handle := by
  unfold HandleTable.Refuses
  rw [BitVec.toInt_eq_toNat_cond, BitVec.toInt_eq_toNat_cond, BitVec.toInt_eq_toNat_cond,
    BitVec.toNat_setWidth, BitVec.toNat_setWidth]
  split <;> split <;> split <;> omega

/-- `handle_table_get` reads the entries, and nothing else. -/
theorem handleTableGet_eq (h : t.handles.Inv) (height : t.handles.elementSize = 8)
    (hsize : t.handles.size.toNat < 2 ^ 31) (handle : Word) : t.handleTableGet handle =
      .ok (if handle.toNat < t.handles.size.toNat then some (t.handles.word handle.toNat)
        else none) := by
  unfold HandleTable.handleTableGet ByteVector.vectorGet
  split
  · rename_i hrefuses
    rw [if_neg fun hlt => not_refuses hsize hlt hrefuses]
  · by_cases hlt : handle.toNat < t.handles.size.toNat
    · have hinside : handle.toNat * (8 : Word).toNat + 8 ≤ t.handles.data.size := by
        have hentry := h.entry_inside hlt
        rwa [height] at hentry
      rw [if_neg (BitVec.not_le.mpr (BitVec.lt_def.mpr hlt)), if_pos hlt, h.offset_toNat hlt,
        height]
      dsimp only
      rw [Block.read_ok hinside]
      rfl
    · rw [if_pos (BitVec.le_def.mpr (Nat.le_of_not_lt hlt)), if_neg hlt]

/-- Storing under another handle is refused. -/
theorem store_outside {handle : Word} (value : Word)
    (hnot : ¬handle.toNat < t.handles.size.toNat) : t.store handle value = .ok (-1, t) := by
  unfold HandleTable.store ByteVector.vectorSet
  split
  · rfl
  · rw [if_pos (BitVec.le_def.mpr (Nat.le_of_not_lt hnot))]
    rfl

theorem store_inside {handle : Word} (h : t.handles.Inv)
    (hsize : t.handles.size.toNat < 2 ^ 31) (hlt : handle.toNat < t.handles.size.toNat)
    (value : Word) : ∃ t' : HandleTable, t.store handle value = .ok (0, t') ∧
      Replaced t.handles handle.toNat (wordBytes value) t'.handles := by
  obtain ⟨handles, hset, hreplaced⟩ := h.set hlt (wordBytes value)
  refine ⟨⟨handles⟩, ?_, hreplaced⟩
  unfold HandleTable.store
  rw [if_neg (not_refuses hsize hlt), hset]
  rfl

end

/-! ## The table is a registry -/

/-- The table after what has happened to a registry. -/
structure HandleTable.Holds (t : HandleTable) (events : List (Event Word Word)) : Prop where
  inv : t.handles.Inv
  elementSize : t.handles.elementSize = 8
  few : (issued events).length < 2 ^ 31
  size : t.handles.size.toNat = (issued events).length
  numbered : issued events = (List.range (issued events).length).map (BitVec.ofNat 64)
  known : Known events
  nonzero : ∀ handle, held events handle ≠ some 0
  word : ∀ handle : Word, handle.toNat < (issued events).length →
    t.handles.word handle.toNat = (held events handle).getD 0

section
variable {t t' : HandleTable} {events : List (Event Word Word)} {handle : Word}

/-- The handles that were issued are the places of the entries. -/
theorem HandleTable.Holds.mem_issued (h : t.Holds events) :
    handle ∈ issued events ↔ handle.toNat < t.handles.size.toNat := by
  have hfew := h.few
  rw [h.size, h.numbered, List.length_map, List.length_range, List.mem_map]
  constructor
  · rintro ⟨i, hi, rfl⟩
    rw [List.mem_range] at hi
    rw [BitVec.toNat_ofNat]
    omega
  · intro hlt
    refine ⟨handle.toNat, List.mem_range.mpr hlt, ?_⟩
    rw [BitVec.ofNat_toNat, BitVec.setWidth_eq]

/-- `handle_table_get` yields what is under the handle. -/
theorem HandleTable.Holds.object_eq (h : t.Holds events) (handle : Word) :
    t.object handle = .ok (held events handle) := by
  unfold HandleTable.object
  rw [handleTableGet_eq h.inv h.elementSize (h.size ▸ h.few)]
  refine congrArg Except.ok ?_
  by_cases hlt : handle.toNat < t.handles.size.toNat
  · rw [if_pos hlt, h.word handle (h.size ▸ hlt)]
    have hnonzero := h.nonzero handle
    cases hheld : held events handle with
    | none => rfl
    | some data =>
      have hne : data ≠ 0 := fun hzero => hnonzero (hheld.trans (congrArg some hzero))
      exact Option.filter_some_pos (decide_eq_true hne)
  · rw [if_neg hlt, h.known.held_of_not_issued fun hmem => hlt (h.mem_issued.mp hmem)]
    rfl

/-- An event under a handle that was issued, with its value in the entry. -/
theorem HandleTable.Holds.replace (h : t.Holds events) {e : Event Word Word} {value : Word}
    (hissues : e.issues = none) (hmem : e.handle ∈ issued events)
    (hnonzero : e.object ≠ some 0) (hvalue : e.object.getD 0 = value)
    (hreplaced : Replaced t.handles e.handle.toNat (wordBytes value) t'.handles) :
    t'.Holds (events ++ [e]) := by
  have hissued : issued (events ++ [e]) = issued events := by
    rw [issued_concat, hissues]
    exact List.append_nil _
  refine
    { inv := hreplaced.inv
      elementSize := hreplaced.elementSize.trans h.elementSize
      few := hissued ▸ h.few
      size := by rw [hreplaced.size, hissued, h.size]
      numbered := hissued ▸ h.numbered
      known := h.known.concat (hissued ▸ hmem)
      nonzero := fun handle => ?_
      word := fun handle hlt => ?_ }
  · rw [held_concat]
    split
    · exact hnonzero
    · exact h.nonzero handle
  · rw [held_concat]
    split
    · rename_i heq
      rw [← heq, hreplaced.word_new h.elementSize, hvalue]
    · rename_i hne
      rw [hreplaced.word_other h.elementSize fun heq => hne (BitVec.eq_of_toNat_eq heq.symm)]
      exact h.word handle (hissued ▸ hlt)

/-- An event that issues the next handle, with its object in a new entry. -/
theorem HandleTable.Holds.issue (h : t.Holds events) {data : Word} (hdata : data ≠ 0)
    (hroom : (issued events).length + 1 < 2 ^ 31)
    (hpushed : Pushed t.handles (wordBytes data) t'.handles) :
    t'.Holds (events ++ [.issue (BitVec.ofNat 64 (issued events).length) data]) := by
  let next : Word := BitVec.ofNat 64 (issued events).length
  have hissued : issued (events ++ [.issue next data]) = issued events ++ [next] :=
    issued_concat ..
  have hlength : (issued (events ++ [.issue next data])).length = (issued events).length + 1 := by
    rw [hissued, List.length_append, List.length_singleton]
  have hnext : next.toNat = t.handles.size.toNat := by
    rw [h.size, BitVec.toNat_ofNat]
    omega
  refine
    { inv := hpushed.inv
      elementSize := hpushed.elementSize.trans h.elementSize
      few := hlength ▸ hroom
      size := ?_
      numbered := ?_
      known := h.known.concat ?_
      nonzero := fun handle => ?_
      word := fun handle hlt => ?_ }
  · have hsize := h.size
    rw [hpushed.size, hlength, BitVec.toNat_add, hsize]
    exact Nat.mod_eq_of_lt (Nat.lt_trans hroom (by omega))
  · rw [hlength, hissued, List.range_succ, List.map_append, ← h.numbered]
    rfl
  · rw [hissued]
    exact List.mem_append_right _ List.mem_cons_self
  · rw [held_concat]
    split
    · exact fun hsome => hdata (Option.some.inj hsome)
    · exact h.nonzero handle
  · rw [held_concat]
    split
    · rename_i heq
      rw [← heq]
      show t'.handles.word next.toNat = data
      rw [hnext, hpushed.word_new h.elementSize]
    · rename_i hne
      have hne' : handle.toNat ≠ next.toNat := fun heq => hne (BitVec.eq_of_toNat_eq heq.symm)
      have hold : handle.toNat < (issued events).length := by
        rw [hlength] at hlt
        rw [hnext, h.size] at hne'
        omega
      rw [hpushed.word_old h.elementSize (h.size ▸ hold)]
      exact h.word handle hold

end

/-! ## Runs -/

section
variable {t : HandleTable} {events : List (Event Word Word)}

/-- `handle_table_set` and `handle_table_remove` change the entry of a handle
that was issued, and no other. -/
theorem HandleTable.Holds.store (h : t.Holds events) (e : Event Word Word) (value : Word)
    (hissues : e.issues = none) (hnonzero : e.object ≠ some 0) (hvalue : e.object.getD 0 = value) :
    ∃ code t', t.store e.handle value = .ok (code, t') ∧
      (⟨code, none⟩ : TableAnswer) =
        answerOf (if e.handle ∈ issued events then some e else none) ∧
      t'.Holds (events ++ (if e.handle ∈ issued events then some e else none).toList) := by
  by_cases hmem : e.handle ∈ issued events
  · obtain ⟨t', hstore, hreplaced⟩ := store_inside h.inv (h.size ▸ h.few) (h.mem_issued.mp hmem)
      value
    refine ⟨0, t', hstore, ?_, ?_⟩
    · rw [if_pos hmem]
      exact congrArg (TableAnswer.mk 0) hissues.symm
    · rw [if_pos hmem]
      exact h.replace hissues hmem hnonzero hvalue hreplaced
  · refine ⟨-1, t, store_outside value fun hlt => hmem (h.mem_issued.mpr hlt), ?_, ?_⟩
    · rw [if_neg hmem]
      rfl
    · rw [if_neg hmem]
      exact (List.append_nil events).symm ▸ h

/-- A call answers as the registry does, and does to the table what it does to
the registry. -/
theorem HandleTable.Holds.exec (h : t.Holds events) (call : TableCall)
    (hroom : (issued events).length + [call].countP TableCall.inserts < 2 ^ 31) :
    ∃ t', t.exec call = .ok (answerOf (call.event events), t') ∧
      t'.Holds (events ++ (call.event events).toList) := by
  have hnil : t.Holds (events ++ (none : Option (Event Word Word)).toList) :=
    (List.append_nil events).symm ▸ h
  cases call with
  | insert data memory =>
    unfold HandleTable.exec HandleTable.handleTableInsert TableCall.event
    dsimp only
    by_cases hdata : data = 0
    · rw [if_pos hdata, if_pos hdata]
      exact ⟨t, rfl, hnil⟩
    · rw [if_neg hdata, if_neg hdata]
      have hinserts : TableCall.inserts (.insert data memory) = true := decide_eq_true hdata
      rw [List.countP_cons_of_pos hinserts] at hroom
      have hlt : (issued events).length + 1 < 2 ^ 31 := hroom
      have hsize := h.size
      have hgrow : t.handles.CanGrow (some memory) := by
        intro hfull
        refine ⟨Option.some_ne_none _, ?_⟩
        rw [BitVec.le_def] at hfull
        rw [h.elementSize]
        show 2 * t.handles.capacity.toNat * 8 < 2 ^ 64
        omega
      obtain ⟨handles, hpush, hpushed⟩ := h.inv.push hgrow (wordBytes data)
      refine ⟨⟨handles⟩, ?_, h.issue hdata hlt hpushed⟩
      have hhandle : handles.size - 1 = BitVec.ofNat 64 (issued events).length := by
        rw [hpushed.size, BitVec.add_sub_cancel, ← hsize, BitVec.ofNat_toNat, BitVec.setWidth_eq]
      rw [hpush]
      show Except.ok ((⟨0, some (handles.size - 1)⟩ : TableAnswer), _) = _
      rw [hhandle]
      rfl
  | set handle data =>
    unfold HandleTable.exec HandleTable.handleTableSet TableCall.event
    dsimp only
    by_cases hdata : data = 0
    · rw [if_pos hdata, if_neg fun hand => hand.1 hdata]
      exact ⟨t, rfl, hnil⟩
    · obtain ⟨code, t', hstore, hanswer, hholds⟩ := h.store (.put handle data) data rfl
        (fun hsome => hdata (Option.some.inj hsome)) rfl
      have hstore' : t.store handle data = .ok (code, t') := hstore
      rw [if_neg hdata, hstore']
      have hif :
          (if data ≠ 0 ∧ handle ∈ issued events then some (Event.put handle data) else none) =
            if handle ∈ issued events then some (Event.put handle data) else none :=
        if_congr (and_iff_right hdata) rfl rfl
      rw [hif]
      exact ⟨t', congrArg (fun answer => Except.ok (answer, t')) hanswer, hholds⟩
  | remove handle =>
    unfold HandleTable.exec HandleTable.handleTableRemove TableCall.event
    dsimp only
    obtain ⟨code, t', hstore, hanswer, hholds⟩ := h.store (.clear handle) 0 rfl
      nofun rfl
    have hstore' : t.store handle 0 = .ok (code, t') := hstore
    rw [hstore']
    exact ⟨t', congrArg (fun answer => Except.ok (answer, t')) hanswer, hholds⟩

/-- A call that inserts an object is one that issues a handle. -/
theorem issued_event (events : List (Event Word Word)) (call : TableCall) :
    (issued (events ++ (call.event events).toList)).length =
      (issued events).length + [call].countP TableCall.inserts := by
  have hnone : issued (events ++ (none : Option (Event Word Word)).toList) = issued events :=
    congrArg issued (List.append_nil events)
  cases call with
  | insert data memory =>
    unfold TableCall.event
    dsimp only
    by_cases hdata : data = 0
    · have hnot : ¬TableCall.inserts (.insert data memory) = true :=
        fun h => of_decide_eq_true h hdata
      rw [if_pos hdata, hnone, List.countP_cons_of_neg hnot]
      rfl
    · have hinserts : TableCall.inserts (.insert data memory) = true := decide_eq_true hdata
      rw [if_neg hdata, List.countP_cons_of_pos hinserts]
      exact congrArg List.length (issued_concat events _) |>.trans (List.length_append ..)
  | set handle data =>
    unfold TableCall.event
    dsimp only
    split
    · exact congrArg List.length ((issued_concat events _).trans (List.append_nil _))
    · rw [hnone]
      rfl
  | remove handle =>
    unfold TableCall.event
    dsimp only
    split
    · exact congrArg List.length ((issued_concat events _).trans (List.append_nil _))
    · rw [hnone]
      rfl

theorem registryExecAll_issued (events : List (Event Word Word)) (calls : List TableCall) :
    (issued (registryExecAll events calls).2).length =
      (issued events).length + calls.countP TableCall.inserts := by
  induction calls generalizing events with
  | nil => rfl
  | cons call calls ih =>
    rw [← List.singleton_append, List.countP_append, ← Nat.add_assoc, ← issued_event]
    exact ih _

/-- Over many calls the table stays a registry. -/
theorem HandleTable.Holds.execAll (h : t.Holds events) (calls : List TableCall)
    (hroom : (issued events).length + calls.countP TableCall.inserts < 2 ^ 31) :
    ∃ t', t.execAll calls = .ok ((registryExecAll events calls).1, t') ∧
      t'.Holds (registryExecAll events calls).2 := by
  induction calls generalizing t events with
  | nil => exact ⟨t, rfl, h⟩
  | cons call calls ih =>
    rw [← List.singleton_append, List.countP_append, ← Nat.add_assoc, ← issued_event] at hroom
    obtain ⟨t₁, hexec, h₁⟩ := h.exec call (by
      rw [← issued_event]
      omega)
    obtain ⟨t', hall, h'⟩ := ih h₁ hroom
    refine ⟨t', ?_, h'⟩
    unfold HandleTable.execAll
    rw [hexec]
    show (t₁.execAll calls >>= _) = _
    rw [hall]
    rfl

/-- The handles of the answers are those that were issued. -/
theorem registryExecAll_handles (events : List (Event Word Word)) (calls : List TableCall) :
    issued (registryExecAll events calls).2 =
      issued events ++ (registryExecAll events calls).1.filterMap TableAnswer.handle := by
  induction calls generalizing events with
  | nil => exact (List.append_nil _).symm
  | cons call calls ih =>
    show issued (registryExecAll (events ++ (call.event events).toList) calls).2 = _ ++
      (answerOf (call.event events) :: _).filterMap TableAnswer.handle
    rw [ih]
    cases call.event events with
    | none =>
      rw [List.filterMap_cons_none rfl]
      exact congrArg (issued · ++ _) (List.append_nil events)
    | some e =>
      have hissued : issued (events ++ (some e).toList) = issued events ++ e.issues.toList :=
        issued_concat events e
      rw [hissued, List.append_assoc]
      refine congrArg _ ?_
      cases hissues : e.issues with
      | none =>
        have hanswer : (answerOf (some e)).handle = none := hissues
        rw [List.filterMap_cons_none hanswer]
        rfl
      | some handle =>
        have hanswer : (answerOf (some e)).handle = some handle := hissues
        rw [List.filterMap_cons_some hanswer]
        rfl

/-- No handle is issued twice. -/
theorem HandleTable.Holds.nodup (h : t.Holds events) : (issued events).Nodup := by
  have hfew := h.few
  rw [h.numbered]
  refine List.Nodup.map_on (fun i hi j hj heq => ?_) List.nodup_range
  rw [List.mem_range] at hi hj
  have hnat := congrArg BitVec.toNat heq
  rw [BitVec.toNat_ofNat, BitVec.toNat_ofNat] at hnat
  omega

/-- A new table is an empty registry. -/
theorem handleTableInit_holds {capacity : Word} {kmalloc : Kmalloc}
    (hinit : handleTableInit capacity kmalloc = some t) (hfits : capacity.toNat * 8 < 2 ^ 64) :
    t.Holds [] := by
  unfold handleTableInit at hinit
  split at hinit
  · cases hinit
  · obtain ⟨handles, hvector, rfl⟩ := Option.map_eq_some_iff.mp hinit
    obtain ⟨hinv, helementSize, hsize⟩ := vectorInit_inv hvector hfits
    exact
      { inv := hinv
        elementSize := helementSize
        few := by decide
        size := congrArg BitVec.toNat hsize
        numbered := rfl
        known := fun _ he => absurd he List.not_mem_nil
        nonzero := fun _ => nofun
        word := fun _ hlt => absurd hlt (Nat.not_lt_zero _) }

end

/-- However a table has been used, with less than `2 ^ 31` objects inserted, no
handle was returned twice; `handle_table_get` yields for every handle what the
last insertion, store or removal under it left there, and nothing for one that
was never returned; and a call leaves what the other handles yield as it is.
No call leaves the block of the vector. -/
theorem handleTable_registry (capacity : Word) (bytes : Nat → Byte) (t : HandleTable)
    (calls : List TableCall) (hinit : handleTableInit capacity (some bytes) = some t)
    (hfits : capacity.toNat * 8 < 2 ^ 64) (hfew : calls.countP TableCall.inserts < 2 ^ 31) :
    ∃ answers events t', registryExecAll [] calls = (answers, events) ∧
      t.execAll calls = .ok (answers, t') ∧
      (answers.filterMap TableAnswer.handle).Nodup ∧
      (∀ handle, t'.object handle = .ok (held events handle)) ∧
      (∀ handle ∉ answers.filterMap TableAnswer.handle, t'.object handle = .ok none) ∧
      ∀ call, (calls ++ [call]).countP TableCall.inserts < 2 ^ 31 →
        ∃ t'', t'.exec call = .ok (answerOf (call.event events), t'') ∧
          ∀ handle, (∀ e ∈ call.event events, e.handle ≠ handle) →
            t''.object handle = t'.object handle := by
  obtain ⟨t', hall, h⟩ := (handleTableInit_holds hinit hfits).execAll calls
    (by rwa [show (issued ([] : List (Event Word Word))).length = 0 from rfl, Nat.zero_add])
  have hhandles := registryExecAll_handles [] calls
  rw [show issued ([] : List (Event Word Word)) = [] from rfl, List.nil_append] at hhandles
  refine ⟨_, _, t', rfl, hall, hhandles ▸ h.nodup, h.object_eq, fun handle hnot => ?_,
    fun call hcall => ?_⟩
  · rw [h.object_eq, h.known.held_of_not_issued (hhandles ▸ hnot)]
  · rw [List.countP_append] at hcall
    have hissued : (issued (registryExecAll [] calls).2).length = calls.countP TableCall.inserts :=
      (registryExecAll_issued [] calls).trans (Nat.zero_add _)
    obtain ⟨t'', hexec, h''⟩ := h.exec call (hissued ▸ hcall)
    refine ⟨t'', hexec, fun handle hother => ?_⟩
    rw [h''.object_eq, h.object_eq]
    cases hevent : call.event (registryExecAll [] calls).2 with
    | none => exact congrArg (fun events => Except.ok (held events handle)) (List.append_nil _)
    | some e => exact congrArg Except.ok (held_concat_of_ne (hother e hevent))

/-- Two objects, of which one is replaced and the other removed. -/
theorem handleTable_registry_two : ∃ answers t',
    (HandleTable.mk ⟨⟨8, fun _ => 0⟩, 0, 1, 8⟩).execAll
      [.insert 5 fun _ => 0, .insert 7 fun _ => 0, .set 0 9, .remove 1] = .ok (answers, t') ∧
    answers = [⟨0, some 0⟩, ⟨0, some 1⟩, ⟨0, none⟩, ⟨0, none⟩] ∧
    t'.object 0 = .ok (some 9) ∧ t'.object 1 = .ok none ∧ t'.object (2 ^ 32) = .ok none := by
  obtain ⟨answers, events, t', hregistry, hall, -, hobject, -⟩ :=
    handleTable_registry 1 (fun _ => 0)
    ⟨⟨⟨8, fun _ => 0⟩, 0, 1, 8⟩⟩
    [.insert 5 fun _ => 0, .insert 7 fun _ => 0, .set 0 9, .remove 1] rfl (by decide) (by decide)
  cases hregistry
  exact ⟨_, t', hall, rfl, hobject 0, hobject 1, hobject (2 ^ 32)⟩

end ZOs.Utils
