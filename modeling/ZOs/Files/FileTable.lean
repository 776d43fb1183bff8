import ZOs.Files.HashTable
import ZOs.Ipc.System

/-!
# The file table

`file_table.c` over the handle table and the hash table. A `file_t *` is a
number, 0 being NULL; `kmalloc` never fails, and what it returns is part of
an action: a block that is not allocated. A path is a C string, which does
not change while the kernel has it.

Beside the tables a trace is kept of the files that are open, in the order
in which they were opened, and of the handles that were given out. The laws
of the file table compare what the two lookups return with this trace.
-/

namespace ZOs.Files

open Runs
open Ipc (HandleTable handleTableGet handleTableGet_eq handleTableGet_full)

/-- A C string without the byte that ends it. -/
structure CString where
  bytes : List UInt8
  no_nul : 0 ∉ bytes
  deriving DecidableEq

/-- The key of a path: `strlen(path) + 1` bytes. -/
def CString.key (path : CString) : HashKey := path.bytes ++ [0]

/-- `file_ops_t`. -/
structure FileOps where
  open' : Word
  read : Word
  write : Word
  close : Word
  deriving DecidableEq

/-- `file_t`. -/
structure File where
  handle : Word
  path : Option CString
  refCount : Word
  privateData : Word
  ops : FileOps
  flags : BitVec 32
  deriving DecidableEq

/-- `handle_table_insert` of a pointer: the handle and the table. -/
def handleTableInsert (table : HandleTable Nat) (data : Nat) : Word × HandleTable Nat :=
  (BitVec.ofNat 64 table.handles.length,
    { handles := table.handles ++ [some data]
      capacity :=
        if table.handles.length < table.capacity then table.capacity else table.capacity * 2 })

/-- `handle_table_remove`: `none` for -1. -/
def handleTableRemove (table : HandleTable Nat) (handle : Word) : Option (HandleTable Nat) :=
  if handle.toInt < 0 then none
  else if (BitVec.ofNat 32 table.handles.length).toInt ≤ (handle.setWidth 32).toInt then none
  else if table.handles.length ≤ handle.toNat then none
  else some { table with handles := table.handles.set handle.toNat none }

/-- `g_file_table` and `g_file_path_table`, with the memory of the files. -/
structure FileTables where
  fileTable : HandleTable Nat
  pathTable : HashTable
  files : Nat → Option File

/-- `file_table_init`. -/
def fileTableInit : FileTables where
  fileTable := { handles := [], capacity := 64 }
  pathTable := hashTableInit 64
  files := fun _ => none

/-- `file_table_open`: the handle, and the tables. `kmalloc` returns
`filePtr`, and `newNode` where `hash_table_set` calls it. -/
def fileTableOpen (s : FileTables) (path : Option CString) (file : File) (filePtr newNode : Nat) :
    Except Fault (Word × FileTables) := do
  let (handle, fileTable) := handleTableInsert s.fileTable filePtr
  let pathTable ← match path with
    | none => pure s.pathTable
    | some path => s.pathTable.hashTableSet path.key filePtr newNode
  return (handle,
    { fileTable, pathTable
      files := Function.update s.files filePtr (some { file with path, handle }) })

/-- `file_table_close`: the result, and the tables. -/
def fileTableClose (s : FileTables) (handle : Word) : Except Fault (Int × FileTables) :=
  match handleTableGet s.fileTable handle with
  | none | some none => .ok (-1, s)
  | some (some filePtr) => do
    let file ← load s.files filePtr
    let pathTable ← match file.path with
      | none => pure s.pathTable
      | some path =>
        -- the result of `hash_table_remove` is not looked at
        (·.getD s.pathTable) <$> s.pathTable.hashTableRemove path.key
    let fileTable := (handleTableRemove s.fileTable handle).getD s.fileTable
    return (0, { fileTable, pathTable, files := Function.update s.files filePtr none })

/-- `file_table_get`: `none` for -1, else the pointer, which may be NULL. -/
def fileTableGet (s : FileTables) (handle : Word) : Option (Option Nat) :=
  handleTableGet s.fileTable handle

/-- `file_table_get_by_path`: `none` for -1. -/
def fileTableGetByPath (s : FileTables) (path : CString) : Except Fault (Option Nat) :=
  s.pathTable.hashTableGet path.key

/-! ## Calls -/

/-- A file that was opened: its handle, its block, and what
`file_table_open` was called with. -/
structure Opened where
  handle : Word
  pointer : Nat
  path : Option CString
  file : File
  deriving DecidableEq

/-- What its block holds. -/
def Opened.contents (o : Opened) : File := { o.file with path := o.path, handle := o.handle }

/-- The tables and the trace. -/
structure Traced where
  tables : FileTables
  opened : List Opened
  given : List Word

/-- The open file with a path that was opened last. -/
def Traced.mostRecent (s : Traced) (path : CString) : Option Opened :=
  (s.opened.filter fun o => o.path = some path).getLast?

inductive Call
  | open' (path : Option CString) (file : File) (filePtr newNode : Nat)
  | close (handle : Word)

/-- What `kmalloc` returns is not NULL and not allocated. -/
def Fresh (s : Traced) : Call → Prop
  | .open' _ _ filePtr newNode => (filePtr ≠ 0 ∧ s.tables.files filePtr = none) ∧
    newNode ≠ 0 ∧ s.tables.pathTable.nodes newNode = none
  | .close _ => True

/-- What a call does. -/
def exec (s : Traced) : Call → Except Fault Traced
  | .open' path file filePtr newNode => do
    let (handle, tables) ← fileTableOpen s.tables path file filePtr newNode
    return { tables
             opened := s.opened ++ [{ handle, pointer := filePtr, path, file }]
             given := s.given ++ [handle] }
  | .close handle => do
    let (_, tables) ← fileTableClose s.tables handle
    return { s with tables, opened := s.opened.filter (·.handle ≠ handle) }

/-- After `file_table_init`. -/
def Initial (s : Traced) : Prop := s = ⟨fileTableInit, [], []⟩

/-- A call that returns. -/
def Step (s : Traced) (c : Call) (s' : Traced) : Prop := Fresh s c ∧ exec s c = .ok s'

/-- The laws of the file table. -/
structure Laws (s : Traced) : Prop where
  /-- The handle of an open file yields the file. -/
  get_open : ∀ o ∈ s.opened, fileTableGet s.tables o.handle = some (some o.pointer) ∧
    s.tables.files o.pointer = some o.contents
  /-- Any other handle yields none, by -1 or by NULL. -/
  get_other : ∀ handle, (∀ o ∈ s.opened, o.handle ≠ handle) →
    (fileTableGet s.tables handle).join = none
  given_once : s.given.Nodup
  get_by_path : ∀ path,
    fileTableGetByPath s.tables path = .ok ((s.mostRecent path).map Opened.pointer)

/-- The call returns, and leaves the tables lawful. -/
def Lawful (s : Traced) (c : Call) : Prop := ∃ s', exec s c = .ok s' ∧ Laws s'

/-- The index of the bucket of a path. -/
def pathBucket (path : CString) : Nat := bucketIndex 64 path.key

/-- `/a` and `/ar` are in one bucket. -/
example : pathBucket ⟨[47, 97], by decide⟩ = pathBucket ⟨[47, 97, 114], by decide⟩ := by decide

/-- There is a handle left for a file that is opened. A file that is closed
is the only open one with its path, and another open path is in the same
bucket. -/
def Admissible (s : Traced) : Call → Prop
  | .open' .. => s.tables.fileTable.handles.length + 1 < 2 ^ 31
  | .close handle => ∀ o ∈ s.opened, o.handle = handle → ∀ path, o.path = some path →
    (∀ o' ∈ s.opened, o'.path = some path → o' = o) ∧
      ∃ o' ∈ s.opened, ∃ path', o'.path = some path' ∧ path' ≠ path ∧
        pathBucket path' = pathBucket path

/-! ## The tables and the trace -/

variable {s s' : Traced} {o o' : Opened} {path : Option CString} {file : File}
  {filePtr newNode : Nat} {handle : Word} {p q : CString}

/-- The tables hold what the trace says. -/
structure Inv (s : Traced) : Prop where
  chains : ∃ chains, s.tables.pathTable.Inv chains
  bucketCount : s.tables.pathTable.bucketCount = 64
  length : s.tables.fileTable.handles.length < 2 ^ 31
  given : s.given = (List.range s.tables.fileTable.handles.length).map (BitVec.ofNat 64)
  entry : ∀ {o}, o ∈ s.opened → s.tables.fileTable.handles[o.handle.toNat]? = some (some o.pointer)
  listed : ∀ {n p}, s.tables.fileTable.handles[n]? = some (some p) →
    ∃ o ∈ s.opened, o.handle.toNat = n
  contents : ∀ {o}, o ∈ s.opened → s.tables.files o.pointer = some o.contents
  pointer_inj : ∀ {o o'}, o ∈ s.opened → o' ∈ s.opened → o.pointer = o'.pointer → o = o'
  maps : ∀ k d, s.tables.pathTable.Maps k d ↔
    ∃ path o, k = path.key ∧ s.mostRecent path = some o ∧ d = o.pointer

theorem CString.key_inj (h : p.key = q.key) : p = q := by
  have hbytes : p.bytes = q.bytes := List.append_cancel_right h
  cases p
  cases q
  congr

theorem Inv.handle_inj (h : Inv s) (ho : o ∈ s.opened) (ho' : o' ∈ s.opened)
    (heq : o.handle = o'.handle) : o = o' := by
  have hentry := h.entry ho
  rw [heq, h.entry ho', Option.some.injEq, Option.some.injEq] at hentry
  exact h.pointer_inj ho ho' hentry.symm

theorem initial_inv (h : Initial s) : Inv s := by
  cases h
  refine ⟨⟨_, HashTable.init_inv 64⟩, rfl, by decide, rfl, by simp, ?_, by simp, by simp, ?_⟩
  · intro n p hn
    cases hn
  · intro k d
    constructor
    · rintro ⟨a, node, hnode, -⟩
      cases hnode
    · rintro ⟨path, o, -, ho, -⟩
      cases ho

/-! ## The laws hold -/

theorem Traced.mostRecent_mem (h : s.mostRecent p = some o) : o ∈ s.opened ∧ o.path = some p := by
  have hmem := List.mem_of_getLast? h
  rw [List.mem_filter] at hmem
  exact ⟨hmem.1, of_decide_eq_true hmem.2⟩

theorem Traced.mostRecent_isSome (ho : o ∈ s.opened) (hp : o.path = some p) :
    ∃ o', s.mostRecent p = some o' := by
  have hmem : o ∈ s.opened.filter fun o => o.path = some p :=
    List.mem_filter.mpr ⟨ho, decide_eq_true hp⟩
  exact ⟨_, List.getLast?_eq_getLast_of_ne_nil (List.ne_nil_of_mem hmem)⟩

/-- What a lookup by path returns. -/
theorem Inv.get_by_path (h : Inv s) (p : CString) :
    fileTableGetByPath s.tables p = .ok ((s.mostRecent p).map Opened.pointer) := by
  obtain ⟨chains, hinv⟩ := h.chains
  cases hrecent : s.mostRecent p with
  | none =>
    apply hinv.get_none
    intro d hd
    obtain ⟨q, o, hkey, ho, -⟩ := (h.maps _ _).mp hd
    cases CString.key_inj hkey
    cases hrecent.symm.trans ho
  | some o => exact hinv.get_some ((h.maps _ _).mpr ⟨p, o, rfl, hrecent, rfl⟩)

theorem Inv.laws (h : Inv s) : Laws s where
  get_open o ho := ⟨(handleTableGet_eq h.length _).trans (h.entry ho), h.contents ho⟩
  get_other handle hne := by
    show (handleTableGet _ _).join = none
    rw [handleTableGet_eq h.length]
    cases hentry : s.tables.fileTable.handles[handle.toNat]? with
    | none => rfl
    | some entry =>
      cases entry with
      | none => rfl
      | some p =>
        obtain ⟨o, ho, heq⟩ := h.listed hentry
        exact absurd (BitVec.eq_of_toNat_eq heq) (hne o ho)
  given_once := by
    rw [h.given, List.nodup_map_iff_inj_on List.nodup_range]
    intro m hm n hn heq
    have hlength := h.length
    rw [List.mem_range] at hm hn
    have hnat := congrArg BitVec.toNat heq
    rw [BitVec.toNat_ofNat, BitVec.toNat_ofNat] at hnat
    omega
  get_by_path := h.get_by_path

/-! ## Opening a file -/

/-- The file that an opening adds to the trace. -/
def added (s : Traced) (path : Option CString) (file : File) (filePtr : Nat) : Opened where
  handle := BitVec.ofNat 64 s.tables.fileTable.handles.length
  pointer := filePtr
  path
  file

theorem mostRecent_append {tables : FileTables} {given : List Word} (p : CString) :
    Traced.mostRecent ⟨tables, s.opened ++ [o], given⟩ p =
      if o.path = some p then some o else s.mostRecent p := by
  show (List.filter _ (s.opened ++ [o])).getLast? = _
  rw [List.filter_append]
  by_cases hp : o.path = some p
  · have hone : [o].filter (fun o => o.path = some p) = [o] := by simp [hp]
    rw [if_pos hp, hone, List.getLast?_append, List.getLast?_singleton]
    rfl
  · have hnil : [o].filter (fun o => o.path = some p) = [] := by simp [hp]
    rw [if_neg hp, hnil, List.append_nil]
    rfl

/-- An opening returns, and the state after it. -/
theorem Inv.open_eq (h : Inv s) (hfresh : Fresh s (.open' path file filePtr newNode)) :
    ∃ pathTable, exec s (.open' path file filePtr newNode) = .ok
        { tables :=
            { fileTable := (handleTableInsert s.tables.fileTable filePtr).2
              pathTable
              files := Function.update s.tables.files filePtr
                (some (added s path file filePtr).contents) }
          opened := s.opened ++ [added s path file filePtr]
          given := s.given ++ [(added s path file filePtr).handle] } ∧
      (∃ chains, pathTable.Inv chains) ∧ pathTable.bucketCount = 64 ∧
      ∀ k d, pathTable.Maps k d ↔
        if path.map CString.key = some k then d = filePtr else s.tables.pathTable.Maps k d := by
  obtain ⟨chains, hinv⟩ := h.chains
  cases path with
  | none => exact ⟨s.tables.pathTable, rfl, h.chains, h.bucketCount, fun k d => by simp⟩
  | some p =>
    obtain ⟨t, chains', heq, hinv', hupd⟩ := hinv.set_spec hfresh.2.1 hfresh.2.2 p.key filePtr
    refine ⟨t, ?_, ⟨chains', hinv'⟩, hupd.bucketCount.trans h.bucketCount, ?_⟩
    · show (fileTableOpen s.tables (some p) file filePtr newNode >>= _) = _
      unfold fileTableOpen
      dsimp only
      rw [heq]
      rfl
    · intro k d
      rw [hupd.maps k d]
      simp only [Option.map_some, Option.some.injEq, eq_comm (a := k)]

theorem Inv.open (h : Inv s) (hfresh : Fresh s (.open' path file filePtr newNode))
    (hroom : s.tables.fileTable.handles.length + 1 < 2 ^ 31) :
    ∃ s', exec s (.open' path file filePtr newNode) = .ok s' ∧ Inv s' := by
  obtain ⟨pathTable, heq, hchains, hbuckets, hmaps⟩ := h.open_eq hfresh
  have hold : ∀ {o}, o ∈ s.opened → o.pointer ≠ filePtr := by
    intro o ho hptr
    have hcontents := h.contents ho
    rw [hptr, hfresh.1.2] at hcontents
    cases hcontents
  have hnew : (added s path file filePtr).handle.toNat = s.tables.fileTable.handles.length := by
    show (BitVec.ofNat 64 s.tables.fileTable.handles.length).toNat = _
    rw [BitVec.toNat_ofNat]
    omega
  refine ⟨_, heq, hchains, hbuckets, ?_, ?_, ?_, ?_, ?_, ?_, ?_⟩
  · show (s.tables.fileTable.handles ++ [some filePtr]).length < _
    rw [List.length_append]
    exact hroom
  · show s.given ++ [_] = (List.range (s.tables.fileTable.handles ++ [some filePtr]).length).map _
    rw [List.length_append, List.length_singleton, List.range_succ, List.map_append, ← h.given]
    rfl
  · intro o ho
    show (s.tables.fileTable.handles ++ [some filePtr])[_]? = _
    rcases List.mem_append.mp ho with ho | ho
    · have hentry := h.entry ho
      rw [List.getElem?_append_left (List.getElem?_eq_some_iff.mp hentry).1]
      exact hentry
    · cases List.mem_singleton.mp ho
      rw [hnew]
      exact List.getElem?_concat_length ..
  · intro n p hentry
    change (s.tables.fileTable.handles ++ [some filePtr])[_]? = _ at hentry
    rcases Nat.lt_trichotomy n s.tables.fileTable.handles.length with hn | hn | hn
    · rw [List.getElem?_append_left hn] at hentry
      obtain ⟨o, ho, heq⟩ := h.listed hentry
      exact ⟨o, List.mem_append_left _ ho, heq⟩
    · exact ⟨_, List.mem_append_right _ List.mem_cons_self, hnew.trans hn.symm⟩
    · rw [List.getElem?_eq_none (by simp; omega)] at hentry
      cases hentry
  · intro o ho
    show Function.update s.tables.files filePtr _ o.pointer = _
    rcases List.mem_append.mp ho with ho | ho
    · rw [Function.update_of_ne (hold ho)]
      exact h.contents ho
    · cases List.mem_singleton.mp ho
      exact Function.update_self ..
  · intro o o' ho ho' hptr
    rcases List.mem_append.mp ho with ho | ho
    · rcases List.mem_append.mp ho' with ho' | ho'
      · exact h.pointer_inj ho ho' hptr
      · cases List.mem_singleton.mp ho'
        exact absurd hptr (hold ho)
    · cases List.mem_singleton.mp ho
      rcases List.mem_append.mp ho' with ho' | ho'
      · exact absurd hptr.symm (hold ho')
      · exact (List.mem_singleton.mp ho').symm
  · intro k d
    rw [hmaps k d]
    simp only [mostRecent_append]
    by_cases hk : path.map CString.key = some k
    · rw [if_pos hk]
      obtain ⟨p, rfl, rfl⟩ := Option.map_eq_some_iff.mp hk
      constructor
      · rintro rfl
        exact ⟨p, _, rfl, if_pos rfl, rfl⟩
      · rintro ⟨q, o, hkey, ho, rfl⟩
        cases CString.key_inj hkey
        have hpath : (added s (some p) file filePtr).path = some p := rfl
        rw [if_pos hpath] at ho
        cases ho
        rfl
    · rw [if_neg hk, h.maps]
      have hne : ∀ q : CString, k = q.key → ¬ (added s path file filePtr).path = some q := by
        rintro q rfl hpath
        change path = some q at hpath
        exact hk (by rw [hpath]; rfl)
      constructor
      · rintro ⟨q, o, hkey, ho, hd⟩
        exact ⟨q, o, hkey, by rw [if_neg (hne q hkey)]; exact ho, hd⟩
      · rintro ⟨q, o, hkey, ho, hd⟩
        rw [if_neg (hne q hkey)] at ho
        exact ⟨q, o, hkey, ho, hd⟩

/-! ## Closing a file -/

/-- What a closing does to the table of paths. -/
def removal (s : Traced) (o : Opened) : Except Fault HashTable :=
  match o.path with
  | none => pure s.tables.pathTable
  | some path => (·.getD s.tables.pathTable) <$> s.tables.pathTable.hashTableRemove path.key

theorem removal_none (hp : o.path = none) : removal s o = .ok s.tables.pathTable := by
  unfold removal
  rw [hp]
  rfl

theorem removal_some (hp : o.path = some p) : removal s o =
    (·.getD s.tables.pathTable) <$> s.tables.pathTable.hashTableRemove p.key := by
  unfold removal
  rw [hp]

/-- The state after a closing. -/
def afterClose (s : Traced) (o : Opened) (pathTable : HashTable) : Traced where
  tables :=
    { fileTable := { s.tables.fileTable with
        handles := s.tables.fileTable.handles.set o.handle.toNat none }
      pathTable
      files := Function.update s.tables.files o.pointer none }
  opened := s.opened.filter (·.handle ≠ o.handle)
  given := s.given

theorem handleTableRemove_eq {table : HandleTable Nat} (h : table.handles.length < 2 ^ 31)
    (hlt : handle.toNat < table.handles.length) : handleTableRemove table handle =
      some { table with handles := table.handles.set handle.toNat none } := by
  unfold handleTableRemove
  rw [BitVec.toInt_eq_toNat_cond, BitVec.toInt_eq_toNat_cond, BitVec.toInt_eq_toNat_cond,
    BitVec.toNat_ofNat, BitVec.toNat_setWidth]
  rw [if_neg, if_neg, if_neg]
  · omega
  · split <;> split <;> omega
  · split <;> omega

/-- Closing an open file takes its path out of the table of paths and its
handle out of the handle table. -/
theorem Inv.close_eq (h : Inv s) (ho : o ∈ s.opened) : exec s (.close o.handle) =
    removal s o >>= fun pathTable => .ok (afterClose s o pathTable) := by
  have hentry := h.entry ho
  have hget := (handleTableGet_eq h.length o.handle).trans hentry
  have hremove := handleTableRemove_eq h.length (List.getElem?_eq_some_iff.mp hentry).1
  have hload := HashTable.load_some (h.contents ho)
  show (fileTableClose s.tables o.handle >>= _) = _
  unfold fileTableClose
  rw [hget]
  dsimp only
  rw [hload, hremove]
  obtain ⟨handle, pointer, path, file⟩ := o
  cases path with
  | none => rfl
  | some path =>
    show ((((·.getD s.tables.pathTable) <$> s.tables.pathTable.hashTableRemove path.key :
      Except Fault HashTable) >>= _) >>= _) =
        ((·.getD s.tables.pathTable) <$> s.tables.pathTable.hashTableRemove path.key) >>= _
    cases s.tables.pathTable.hashTableRemove path.key <;> rfl

/-- Closing a handle that is not open changes nothing. -/
theorem Inv.close_other (h : Inv s) (hne : ∀ o ∈ s.opened, o.handle ≠ handle) :
    exec s (.close handle) = .ok s := by
  have hjoin : (handleTableGet s.tables.fileTable handle).join = none :=
    h.laws.get_other handle hne
  have hfilter : s.opened.filter (·.handle ≠ handle) = s.opened :=
    List.filter_eq_self.mpr fun o ho => decide_eq_true (hne o ho)
  have hclose : fileTableClose s.tables handle = .ok (-1, s.tables) := by
    unfold fileTableClose
    cases hget : handleTableGet s.tables.fileTable handle with
    | none => rfl
    | some entry =>
      cases entry with
      | none => rfl
      | some p =>
        rw [hget] at hjoin
        cases hjoin
  show (fileTableClose s.tables handle >>= _) = _
  rw [hclose]
  show Except.ok _ = _
  rw [hfilter]

/-- The node of an open path. -/
theorem Inv.path_node (h : Inv s) (ho : o ∈ s.opened) (hp : o.path = some p) :
    ∃ a node, s.tables.pathTable.nodes a = some node ∧ node.key = p.key := by
  obtain ⟨o', hrecent⟩ := Traced.mostRecent_isSome ho hp
  obtain ⟨a, node, hnode, hkey, -⟩ := (h.maps p.key o'.pointer).mpr ⟨p, o', rfl, hrecent, rfl⟩
  exact ⟨a, node, hnode, hkey⟩

/-- A node is that of an open path. -/
theorem Inv.node_path (h : Inv s) {a : Nat} {node : HashNode}
    (hnode : s.tables.pathTable.nodes a = some node) :
    ∃ o ∈ s.opened, ∃ p, o.path = some p ∧ node.key = p.key := by
  obtain ⟨p, o, hkey, ho, -⟩ := (h.maps node.key node.data).mp ⟨a, node, hnode, rfl, rfl⟩
  obtain ⟨hmem, hpath⟩ := Traced.mostRecent_mem ho
  exact ⟨o, hmem, p, hpath, hkey⟩

theorem Inv.index_eq (h : Inv s) (key : HashKey) :
    s.tables.pathTable.hashKeyToIndex key = bucketIndex 64 key := by
  unfold HashTable.hashKeyToIndex
  rw [h.bucketCount]

/-- Another open path is in the bucket of `p`. -/
def Crowded (s : Traced) (p : CString) : Prop :=
  ∃ o ∈ s.opened, ∃ q, o.path = some q ∧ q ≠ p ∧ pathBucket q = pathBucket p

/-- In a crowded bucket the removal goes through. -/
theorem Inv.removal_crowded (h : Inv s) (ho : o ∈ s.opened) (hp : o.path = some p)
    (hcrowd : Crowded s p) : ∃ pathTable, removal s o = .ok pathTable ∧
      (∃ chains, pathTable.Inv chains) ∧ pathTable.bucketCount = 64 ∧
      ∀ k d, pathTable.Maps k d ↔ k ≠ p.key ∧ s.tables.pathTable.Maps k d := by
  obtain ⟨chains, hinv⟩ := h.chains
  obtain ⟨a, node, hnode, hkey⟩ := h.path_node ho hp
  obtain ⟨o', ho', q, hq, hqp, hbucket⟩ := hcrowd
  obtain ⟨b, node', hnode', hkey'⟩ := h.path_node ho' hq
  have hba : b ≠ a := by
    rintro rfl
    cases hnode.symm.trans hnode'
    exact hqp (CString.key_inj (hkey'.symm.trans hkey))
  have hindex : s.tables.pathTable.hashKeyToIndex node'.key =
      s.tables.pathTable.hashKeyToIndex node.key := by
    rw [h.index_eq, h.index_eq, hkey, hkey']
    exact hbucket
  obtain ⟨t, heq, hrem⟩ := hinv.remove_crowded hnode hnode' hba hindex
  refine ⟨t, ?_, hrem.inv hinv hnode, hrem.bucketCount.trans h.bucketCount, ?_⟩
  · rw [removal_some hp, ← hkey, heq]
    rfl
  · rw [← hkey]
    exact hrem.maps hinv hnode

/-- Alone in its bucket, a path cannot be removed. -/
theorem Inv.removal_alone (h : Inv s) (ho : o ∈ s.opened) (hp : o.path = some p)
    (halone : ¬ Crowded s p) : removal s o = .error .nullPointer := by
  obtain ⟨chains, hinv⟩ := h.chains
  obtain ⟨a, node, hnode, hkey⟩ := h.path_node ho hp
  have herror : s.tables.pathTable.hashTableRemove node.key = .error .nullPointer := by
    apply hinv.remove_alone hnode
    intro b node' hnode' hindex
    obtain ⟨o', ho', q, hq, hkey'⟩ := h.node_path hnode'
    have hqp : q = p := by
      by_contra hqp
      refine halone ⟨o', ho', q, hq, hqp, ?_⟩
      rwa [h.index_eq, h.index_eq, hkey, hkey'] at hindex
    exact hinv.unique hnode' hnode (by rw [hkey', hqp, hkey])
  rw [removal_some hp, ← hkey, herror]
  rfl

theorem mem_afterClose {pathTable : HashTable} :
    o' ∈ (afterClose s o pathTable).opened ↔ o' ∈ s.opened ∧ o'.handle ≠ o.handle := by
  show o' ∈ s.opened.filter _ ↔ _
  rw [List.mem_filter, decide_eq_true_iff]

/-- A path that the closed file does not have is as before. -/
theorem Inv.mostRecent_afterClose (h : Inv s) (ho : o ∈ s.opened) {pathTable : HashTable}
    (hq : o.path ≠ some q) : (afterClose s o pathTable).mostRecent q = s.mostRecent q := by
  show (List.filter _ (s.opened.filter _)).getLast? = (List.filter _ s.opened).getLast?
  rw [List.filter_filter]
  congr 1
  apply List.filter_congr
  intro o' ho'
  by_cases hpath : o'.path = some q
  · have hne : o'.handle ≠ o.handle := by
      intro heq
      rw [h.handle_inj ho' ho heq] at hpath
      exact hq hpath
    simp [hpath, hne]
  · simp [hpath]

/-- The state after a closing, where the table of paths has lost the path of
the file and that alone. -/
theorem Inv.afterClose (h : Inv s) (ho : o ∈ s.opened) {pathTable : HashTable}
    (hchains : ∃ chains, pathTable.Inv chains) (hbuckets : pathTable.bucketCount = 64)
    (hmaps : ∀ k d, pathTable.Maps k d ↔
      (∀ p, o.path = some p → k ≠ p.key) ∧ s.tables.pathTable.Maps k d)
    (hlone : ∀ p, o.path = some p → ∀ o' ∈ s.opened, o'.path = some p → o' = o) :
    Inv (afterClose s o pathTable) := by
  have hset : (Files.afterClose s o pathTable).tables.fileTable.handles =
      s.tables.fileTable.handles.set o.handle.toNat none := rfl
  have hlength : (Files.afterClose s o pathTable).tables.fileTable.handles.length =
      s.tables.fileTable.handles.length := by
    rw [hset, List.length_set]
  refine ⟨hchains, hbuckets, hlength.symm ▸ h.length, hlength.symm ▸ h.given, ?_, ?_, ?_, ?_, ?_⟩
  · intro o' ho'
    obtain ⟨hmem, hne⟩ := mem_afterClose.mp ho'
    rw [hset, List.getElem?_set_ne fun heq => hne (BitVec.eq_of_toNat_eq heq.symm)]
    exact h.entry hmem
  · intro n p hentry
    rw [hset] at hentry
    have hn : n ≠ o.handle.toNat := by
      rintro rfl
      rw [List.getElem?_set_self (List.getElem?_eq_some_iff.mp (h.entry ho)).1] at hentry
      cases hentry
    rw [List.getElem?_set_ne hn.symm] at hentry
    obtain ⟨o', ho', heq⟩ := h.listed hentry
    exact ⟨o', mem_afterClose.mpr ⟨ho', fun hsame => hn (heq ▸ hsame ▸ rfl)⟩, heq⟩
  · intro o' ho'
    obtain ⟨hmem, hne⟩ := mem_afterClose.mp ho'
    have hptr : o'.pointer ≠ o.pointer := by
      intro heq
      rw [h.pointer_inj hmem ho heq] at hne
      exact hne rfl
    exact (Function.update_of_ne hptr _ _).trans (h.contents hmem)
  · intro o₁ o₂ h₁ h₂ hptr
    exact h.pointer_inj (mem_afterClose.mp h₁).1 (mem_afterClose.mp h₂).1 hptr
  · intro k d
    show pathTable.Maps k d ↔ _
    rw [hmaps, h.maps]
    constructor
    · rintro ⟨hother, q, o', hkey, hrecent, hd⟩
      refine ⟨q, o', hkey, ?_, hd⟩
      rw [h.mostRecent_afterClose ho fun hq => hother q hq hkey]
      exact hrecent
    · rintro ⟨q, o', rfl, hrecent, hd⟩
      obtain ⟨hmem, hpath⟩ := Traced.mostRecent_mem hrecent
      obtain ⟨hin, hne⟩ := mem_afterClose.mp hmem
      have hq : o.path ≠ some q := by
        intro hq
        exact hne (hlone q hq o' hin hpath ▸ rfl)
      rw [h.mostRecent_afterClose ho hq] at hrecent
      refine ⟨?_, q, o', rfl, hrecent, hd⟩
      rintro p hp hkey
      exact hq (hp.trans (CString.key_inj hkey ▸ rfl))

theorem Inv.close (h : Inv s) (hadm : Admissible s (.close handle)) :
    ∃ s', exec s (.close handle) = .ok s' ∧ Inv s' := by
  by_cases hopen : ∃ o ∈ s.opened, o.handle = handle
  · obtain ⟨o, ho, rfl⟩ := hopen
    rw [h.close_eq ho]
    cases hpath : o.path with
    | none =>
      have hnone : ∀ p, o.path = some p → False := by
        intro p hp
        cases hpath.symm.trans hp
      rw [removal_none hpath]
      refine ⟨_, rfl, h.afterClose ho h.chains h.bucketCount ?_ fun p hp => (hnone p hp).elim⟩
      intro k d
      exact ⟨fun hd => ⟨fun p hp => (hnone p hp).elim, hd⟩, fun hd => hd.2⟩
    | some p =>
      obtain ⟨hlone, hcrowd⟩ := hadm o ho rfl p hpath
      obtain ⟨t, heq, hchains, hbuckets, hmaps⟩ := h.removal_crowded ho hpath hcrowd
      rw [heq]
      refine ⟨_, rfl, h.afterClose ho hchains hbuckets ?_ ?_⟩
      · intro k d
        rw [hmaps, hpath]
        simp only [Option.some.injEq, forall_eq']
      · intro q hq
        cases hpath.symm.trans hq
        exact hlone
  · have hne : ∀ o ∈ s.opened, o.handle ≠ handle := fun o ho heq => hopen ⟨o, ho, heq⟩
    exact ⟨s, h.close_other hne, h⟩

/-! ## When the laws hold -/

/-- The calls that are admissible are those that are lawful. -/
theorem Inv.lawful_iff (h : Inv s) {c : Call} (hfresh : Fresh s c) :
    Lawful s c ↔ Admissible s c := by
  cases c with
  | open' path file filePtr newNode =>
    constructor
    · rintro ⟨s', heq, hlaws⟩
      by_contra hfull
      have hfull : ¬ s.tables.fileTable.handles.length + 1 < 2 ^ 31 := hfull
      have hlength := h.length
      obtain ⟨t, hexec, -⟩ := h.open_eq hfresh
      cases hexec.symm.trans heq
      have hnew := (hlaws.get_open (added s path file filePtr)
        (List.mem_append_right _ List.mem_cons_self)).1
      have hsize : (handleTableInsert s.tables.fileTable filePtr).2.handles.length = 2 ^ 31 := by
        show (s.tables.fileTable.handles ++ [some filePtr]).length = _
        rw [List.length_append, List.length_singleton]
        omega
      cases (handleTableGet_full hsize _).symm.trans hnew
    · intro hroom
      obtain ⟨s', heq, hinv⟩ := h.open hfresh hroom
      exact ⟨s', heq, hinv.laws⟩
  | close handle =>
    constructor
    · rintro ⟨s', heq, hlaws⟩ o ho rfl p hp
      rw [h.close_eq ho] at heq
      by_cases hcrowd : Crowded s p
      · refine ⟨?_, hcrowd⟩
        obtain ⟨t, hremoval, ⟨chains, hinv⟩, -, hmaps⟩ := h.removal_crowded ho hp hcrowd
        rw [hremoval] at heq
        cases heq
        intro o' ho' hp'
        by_contra hne
        -- the other file is still open, but its path is gone
        have hopen : o' ∈ (Files.afterClose s o t).opened :=
          mem_afterClose.mpr ⟨ho', fun hsame => hne (h.handle_inj ho' ho hsame)⟩
        obtain ⟨o'', hrecent⟩ := Traced.mostRecent_isSome hopen hp'
        have hget := hlaws.get_by_path p
        rw [hrecent] at hget
        have hnone : t.hashTableGet p.key = .ok none :=
          hinv.get_none fun d hd => ((hmaps _ _).mp hd).1 rfl
        cases hnone.symm.trans hget
      · rw [h.removal_alone ho hp hcrowd] at heq
        cases heq
    · intro hadm
      obtain ⟨s', heq, hinv⟩ := h.close hadm
      exact ⟨s', heq, hinv.laws⟩

theorem Inv.step {c : Call} (h : Inv s) (hadm : Admissible s c) (hstep : Step s c s') : Inv s' := by
  obtain ⟨hfresh, hexec⟩ := hstep
  have hkept : ∃ s', exec s c = .ok s' ∧ Inv s' := by
    cases c with
    | open' path file filePtr newNode => exact h.open hfresh hadm
    | close handle => exact h.close hadm
  obtain ⟨s₁, heq, hinv⟩ := hkept
  cases heq.symm.trans hexec
  exact hinv

/-- In a sequence of calls, the last of which need not return, all are
lawful exactly when all are admissible. -/
theorem file_table_lawful_iff (history : List (Traced × Call)) (s : Traced) (c : Call)
    (h : Run Initial Step history s) (hfresh : Fresh s c) :
    (∀ p ∈ (s, c) :: history, Lawful p.1 p.2) ↔
      ∀ p ∈ (s, c) :: history, Admissible p.1 p.2 :=
  h.tried_iff hfresh (fun _ => initial_inv) (fun _ _ _ hinv hadm hs => hinv.step hadm hs)
    (fun _ _ _ hs => hs.1) fun _ _ hinv hf => hinv.lawful_iff hf

/-! ## One file -/

/-- The path `/a`. -/
def somePath : CString := ⟨[47, 97], by decide⟩

def someFile : File := ⟨0, none, 0, 0, ⟨0, 0, 0, 0⟩, 0⟩

/-- The file is opened in an empty table. -/
theorem open_file_lawful_iff : ∃ s, Initial s ∧ Lawful s (.open' (some somePath) someFile 1 1) ∧
    ((∀ p ∈ [(s, Call.open' (some somePath) someFile 1 1)], Lawful p.1 p.2) ↔
      ∀ p ∈ [(s, Call.open' (some somePath) someFile 1 1)], Admissible p.1 p.2) := by
  have hiff := file_table_lawful_iff [] ⟨fileTableInit, [], []⟩
    (.open' (some somePath) someFile 1 1) (.start rfl) ⟨⟨by decide, rfl⟩, by decide, rfl⟩
  refine ⟨_, rfl, hiff.mpr ?_ _ (List.mem_singleton_self _), hiff⟩
  intro p hp
  cases List.mem_singleton.mp hp
  show (0 : Nat) + 1 < 2 ^ 31
  omega

/-- It cannot be closed. -/
theorem close_file_not_lawful : ¬ ∀ history s c, Run Initial Step history s → Fresh s c →
    ∀ p ∈ (s, c) :: history, Lawful p.1 p.2 := by
  intro h
  have hinit : Inv ⟨fileTableInit, [], []⟩ := initial_inv rfl
  have hfresh : Fresh ⟨fileTableInit, [], []⟩ (.open' (some somePath) someFile 1 1) :=
    ⟨⟨by decide, rfl⟩, by decide, rfl⟩
  obtain ⟨s, heq, hinv⟩ := hinit.open hfresh (show (0 : Nat) + 1 < 2 ^ 31 by omega)
  obtain ⟨t, hexec, -⟩ := hinit.open_eq hfresh
  cases hexec.symm.trans heq
  have hlawful := h _ _ (.close 0) (.next (.start rfl) ⟨hfresh, hexec⟩) trivial _
    List.mem_cons_self
  obtain ⟨-, o', ho', path', hpath, hne, -⟩ := (hinv.lawful_iff (c := .close 0) trivial).mp hlawful
    (added ⟨fileTableInit, [], []⟩ (some somePath) someFile 1) List.mem_cons_self rfl somePath rfl
  cases List.mem_singleton.mp ho'
  cases hpath
  exact hne rfl

end ZOs.Files
