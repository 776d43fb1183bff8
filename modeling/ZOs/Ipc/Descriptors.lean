import ZOs.Ipc.Lifetime
import ZOs.Ipc.Tables

/-!
# Passing descriptors

`channel_send_fd` stores the sender's descriptor as a number, and
`channel_recv_fd` resolves it through the file table and the table of the
sending process. Since tables only grow, a descriptor that designated a
file when it was sent still does when it is received.
-/

namespace ZOs.Ipc

open Scheduler (ThreadId ProcessId Kernel Word CpuRegisters idleThread)
open Runs

/-- The file object that a descriptor of a process designates. -/
def designates (s : System) (p : ProcessId) (fd : Word) : Option FileId :=
  (fdTableGet (s.fdTables p) fd).join

/-- The handle of a process leads to its file, as `process_create` has it. -/
def HasFile (s : System) (p : ProcessId) : Prop :=
  ∃ file, s.fileTable.handles[(s.processHandles p).toNat]? = some (some file) ∧
    file.privateData = .process p

/-- Before boot: the processes have been created. -/
structure Created (s : System) : Prop extends Init s where
  process_file : ∀ t p, (s.kernel.threads t).process = some p → HasFile s p

/-- If an action sends a descriptor, what that designates. -/
def sendsFile (s : System) : Action → Option (Option FileId)
  | .request (.sendFd channelFd fd _) _ =>
    if channelFd = -1 ∨ fd = -1 then none
    else
      match channelFileOf s channelFd with
      | .ok (p, _) => some (designates s p fd)
      | .error _ => none
  | _ => none

/-- What the descriptor in a message designated when it was sent. -/
def sentFile : List (System × Action) → MessageId → Option FileId
  | [], _ => none
  | (s, a) :: history, m =>
    match sendsFile s a with
    | some file => if m = s.messageCount then file else sentFile history m
    | none => sentFile history m

/-- The receiver of a message gets a new descriptor, and it designates what
the sender's did. -/
def Receiving (env : Scheduler.Env) (history : List (System × Action)) (s : System) (a : Action) :
    Prop :=
  ∀ e m, takes s a = some ⟨.fd, e, m⟩ → ∃ t p fd file s', currentProcess s = .ok (t, p) ∧
    exec env s a = .ok s' ∧ designates s p fd = none ∧ sentFile history m = some file ∧
      designates s' p fd = some file

/-- A descriptor that designates no open file is rejected. -/
def Rejecting (env : Scheduler.Env) (s : System) (a : Action) : Prop :=
  ∀ channelFd fd buffer cpu p e, a = .request (.sendFd channelFd fd buffer) cpu →
    channelFileOf s channelFd = .ok (p, e) → designates s p fd = none →
      perform env s cpu (.sendFd channelFd fd buffer) = .ok (.returned (-1) none, s)

/-- There is room in the receiver's table for a descriptor. -/
def HasRoom (env : Scheduler.Env) (s : System) (p : ProcessId) : Prop :=
  (s.fdTables p).handles.length + 1 < 2 ^ 31 ∧
    ((s.fdTables p).handles.length < (s.fdTables p).capacity ∨
      env.kmallocOk s.kernel.kmallocs = true)

/-- The message has not been freed by another receiver, the tables of files
and of the sender have less than `2 ^ 31` entries, and that of the receiver
has room. -/
structure Receivable (env : Scheduler.Env) (s : System) (m : MessageId) : Prop where
  not_freed : .freeObject m ∉ s.record.heap
  files : s.fileTable.handles.length < 2 ^ 31
  sender : ∀ file source, handleTableGet s.fileTable (s.messages m).processFd = some (some file) →
    file.privateData = .process source → (s.fdTables source).handles.length < 2 ^ 31
  receiver : ∀ t p, currentProcess s = .ok (t, p) → HasRoom env s p

/-- A descriptor that is sent is -1 or designates an open file, and a
message with a descriptor is received only where that is possible. -/
structure Passable (env : Scheduler.Env) (s : System) (a : Action) : Prop where
  sent : ∀ channelFd fd buffer cpu p e, a = .request (.sendFd channelFd fd buffer) cpu →
    channelFileOf s channelFd = .ok (p, e) → fd = -1 ∨ ∃ file, designates s p fd = some file
  received : ∀ e m, takes s a = some ⟨.fd, e, m⟩ → Receivable env s m

section
variable {env : Scheduler.Env} {s s' : System} {a : Action} {history : List (System × Action)}
  {p : ProcessId} {m : MessageId} {file : FileId} {fd : Word}

/-! ## Messages in flight -/

/-- A message that waits in a queue leads to the file that the sender's
descriptor designated. -/
def Resolves (history : List (System × Action)) (s : System) (m : MessageId) : Prop :=
  ∃ p file, sentFile history m = some file ∧ (s.messages m).processFd = s.processHandles p ∧
    HasFile s p ∧ (s.fdTables p).handles[(s.messages m).fd.toNat]? = some (some file)

/-- The invariant of descriptor passing. -/
structure DescriptorInv (history : List (System × Action)) (s : System) : Prop
    extends SystemInv s, LifetimeInv s where
  processes : ∀ t p, (s.kernel.threads t).process = some p → HasFile s p
  waiters : WaitersOfProcesses s
  resolves : ∀ e, ∀ m ∈ s.lists (.messages .fd e), Resolves history s m

theorem lookup_prefix {α : Type} {handles handles' : List (Option α)} (h : handles <+: handles')
    {n : Nat} {x : α} (hx : handles[n]? = some (some x)) : handles'[n]? = some (some x) := by
  obtain ⟨more, rfl⟩ := h
  rw [List.getElem?_append_left (List.getElem?_eq_some_iff.mp hx).1]
  exact hx

theorem Carries.hasFile (h : Carries s s') (hp : HasFile s p) : HasFile s' p := by
  obtain ⟨file, hfile, hdata⟩ := hp
  refine ⟨file, ?_, hdata⟩
  rw [h.processHandles]
  exact lookup_prefix h.fileTable hfile

/-- A message in flight is not disturbed by an action that sends none. -/
theorem Resolves.carry (h : Resolves history s m) (hc : Carries s s')
    (hm : s'.messages m = s.messages m)
    (hsent : sentFile ((s, a) :: history) m = sentFile history m) :
    Resolves ((s, a) :: history) s' m := by
  obtain ⟨p, file, hfile, hhandle, hp, hfd⟩ := h
  refine ⟨p, file, hsent.trans hfile, ?_, hc.hasFile hp, ?_⟩
  · rw [hm, hc.processHandles]
    exact hhandle
  · rw [hm]
    exact lookup_prefix (hc.fdTables p) hfd

theorem designates_some (h : designates s p fd = some file) :
    (s.fdTables p).handles[fd.toNat]? = some (some file) := by
  have hget : fdTableGet (s.fdTables p) fd = some (some file) := Option.join_eq_some_iff.mp h
  unfold fdTableGet handleTableGet at hget
  split at hget
  · cases hget
  · split at hget
    · cases hget
    · exact hget

theorem sendsFile_some {channelFd fd : Word} {buffer : UserBuffer} {cpu : CpuRegisters}
    {e : EndpointId} (hch : channelFd ≠ -1) (hfd : fd ≠ -1)
    (hfile : channelFileOf s channelFd = .ok (p, e)) :
    sendsFile s (.request (.sendFd channelFd fd buffer) cpu) = some (designates s p fd) := by
  unfold sendsFile
  dsimp only
  rw [if_neg (not_or.mpr ⟨hch, hfd⟩), hfile]

theorem sentFile_new {file : Option FileId} (h : sendsFile s a = some file) :
    sentFile ((s, a) :: history) s.messageCount = file := by
  show (match sendsFile s a with
    | some file => if s.messageCount = s.messageCount then file else sentFile history _
    | none => sentFile history _) = _
  rw [h]
  exact if_pos rfl

theorem sentFile_old (h : sendsFile s a = none ∨ m ≠ s.messageCount) :
    sentFile ((s, a) :: history) m = sentFile history m := by
  show (match sendsFile s a with
    | some file => if m = s.messageCount then file else sentFile history m
    | none => sentFile history m) = _
  split
  · rename_i file hfile
    rcases h with h | h
    · rw [hfile] at h
      cases h
    · rw [if_neg h]
  · rfl

/-- What an action sends: data, or a descriptor of the process that runs. -/
theorem sends_cases {x : Sent} (h : sends env s a = some x) :
    (x.message.kind = .data) ∨
      ∃ channelFd fd buffer cpu p e, a = .request (.sendFd channelFd fd buffer) cpu ∧
        channelFd ≠ -1 ∧ fd ≠ -1 ∧ channelFileOf s channelFd = .ok (p, e) ∧
          x.message = fdMessage e (s.processHandles p) fd buffer := by
  unfold sends at h
  split at h
  · split at h
    · cases h
    · cases h
      exact .inl rfl
  · rename_i channelFd fd buffer cpu
    split at h
    · cases h
    · rename_i hne
      split at h
      · rename_i p e hfile
        cases h
        exact .inr ⟨channelFd, fd, buffer, cpu, p, e, rfl, fun h => hne (.inl h),
          fun h => hne (.inr h), hfile, rfl⟩
      · cases h
  · cases h

theorem DescriptorInv.step (h : DescriptorInv history s) (hpass : Passable env s a)
    (hstep : Step env s a s') : DescriptorInv ((s, a) :: history) s' := by
  obtain ⟨hinv, hdata⟩ := step_spec h.toSystemInv hstep
  obtain ⟨hc, hwait⟩ := hstep.carries h.waiters
  refine ⟨hinv, h.toLifetimeInv.step hdata, ?_, hwait, ?_⟩
  · intro t p hp
    rw [hc.process] at hp
    exact hc.hasFile (h.processes t p hp)
  · intro e m hm
    -- a message that was in flight before
    have hold : m ∈ s.lists (.messages .fd e) → s'.messages m = s.messages m →
        Resolves ((s, a) :: history) s' m := by
      intro hmem hsame
      have hlt := h.queue_lt .fd e m hmem
      exact (h.resolves e m hmem).carry hc hsame (sentFile_old (.inr (Nat.ne_of_lt hlt)))
    cases hdata with
    | receives hsends hr =>
      cases htakes : takes s a with
      | none =>
        rw [htakes] at hr
        have hq : Quiet s s' := hr
        rw [hq.lists _ id] at hm
        exact hold hm (congrFun hq.messages m)
      | some x =>
        rw [htakes] at hr
        have ht : Takes s x s' := hr
        refine hold ?_ (congrFun ht.messages m)
        by_cases hx : ListAddr.messages .fd e = .messages x.kind x.endpoint
        · rw [hx, ht.queue]
          rw [hx] at hm
          exact List.mem_cons_of_mem _ hm
        · rwa [ht.lists _ id hx] at hm
    | opens hsends htakes c ho =>
      rw [ho.queues] at hm
      exact hold hm (congrFun ho.messages m)
    | sent htakes x hsends hs =>
      have hother : m ≠ s.messageCount → s'.messages m = s.messages m := by
        intro hne
        rw [hs.messages, Function.update_of_ne hne]
      rcases sends_cases hsends with hkind | ⟨channelFd, fd, buffer, cpu, p, e', rfl, hch, hfd,
        hfile, hx⟩
      · have hlists := hs.lists (.messages .fd e) id (by simp [hkind])
        rw [hlists] at hm
        exact hold hm (hother (Nat.ne_of_lt (h.queue_lt .fd e m hm)))
      · have hkind : x.message.kind = .fd := by rw [hx]; rfl
        have hqueue := hs.queues e
        rw [hkind] at hqueue
        by_cases hnew : m = s.messageCount
        · obtain ⟨t, -, ht, hp⟩ := channelFileOf_ok hfile
          obtain ⟨file, hdes⟩ := (hpass.sent _ _ _ _ _ _ rfl hfile).resolve_left hfd
          have hmessage : s'.messages m = fdMessage e' (s.processHandles p) fd buffer := by
            rw [hs.messages, hnew, Function.update_self, hx]
          refine ⟨p, file, ?_, ?_, hc.hasFile (h.processes t p hp), ?_⟩
          · rw [hnew, sentFile_new (sendsFile_some hch hfd hfile)]
            exact hdes
          · rw [hmessage, hc.processHandles]
            rfl
          · rw [hmessage]
            exact lookup_prefix (hc.fdTables p) (designates_some hdes)
        · refine hold ?_ (hother hnew)
          rw [hqueue] at hm
          split at hm
          · exact (List.mem_append.mp hm).resolve_right
              fun heq => hnew (List.mem_singleton.mp heq)
          · exact hm

/-! ## Receiving -/

theorem fdTableOpen_ok {p : ProcessId}
    (hroom : (s.fdTables p).handles.length < (s.fdTables p).capacity ∨
      env.kmallocOk s.kernel.kmallocs = true) :
    ∃ s', fdTableOpen env s p file = (true, s') ∧
      (s'.fdTables p).handles = (s.fdTables p).handles ++ [some file] := by
  unfold fdTableOpen handleTableInsert
  by_cases hlt : (s.fdTables p).handles.length < (s.fdTables p).capacity
  · rw [if_pos hlt]
    refine ⟨_, rfl, ?_⟩
    show (Function.update s.fdTables p _ p).handles = _
    rw [Function.update_self]
  · rw [if_neg hlt, kmalloc_eq, hroom.resolve_left hlt]
    refine ⟨_, rfl, ?_⟩
    show (Function.update s.fdTables p _ p).handles = _
    rw [Function.update_self]

/-- With a message at the head that leads to a file, the rest of
`channel_recv_fd` returns, and the receiver has a descriptor more. -/
theorem channelRecvFdPeek_ok {t : ThreadId} {e : EndpointId} {rest : List MessageId}
    {sender : File} {source : ProcessId} (hcur : currentProcess s = .ok (t, p))
    (hq : s.lists (.messages .fd e) = m :: rest)
    (hprocess : handleTableGet s.fileTable (s.messages m).processFd = some (some sender))
    (hsource : sender.privateData = .process source)
    (hfd : fdTableGet (s.fdTables source) (s.messages m).fd = some (some file))
    (hroom : (s.fdTables p).handles.length < (s.fdTables p).capacity ∨
      env.kmallocOk s.kernel.kmallocs = true) :
    ∃ outcome s', channelRecvFdPeek env s e = .ok (outcome, s') ∧
      (s'.fdTables p).handles = (s.fdTables p).handles ++ [some file] := by
  obtain ⟨path, data, flags⟩ := sender
  cases hsource
  obtain ⟨s', hopen, hgrown⟩ : ∃ s',
      fdTableOpen env (logHeap s [.readObject m]) p file = (true, s') ∧
      (s'.fdTables p).handles = (s.fdTables p).handles ++ [some file] := fdTableOpen_ok hroom
  have hprocess' : handleTableGet (logHeap s [.readObject m]).fileTable
      ((logHeap s [.readObject m]).messages m).processFd =
        some (some ⟨path, .process source, flags⟩) := hprocess
  have hfd' : fdTableGet ((logHeap s [.readObject m]).fdTables source)
      ((logHeap s [.readObject m]).messages m).fd = some (some file) := hfd
  refine ⟨(takeMessage s' .fd e m).1, (takeMessage s' .fd e m).2, ?_, hgrown⟩
  unfold channelRecvFdPeek
  simp only [hcur, hq, hprocess', hfd', hopen, bind, Except.bind]
  rfl

/-- The messages that `takes` finds for `channel_recv_fd`. -/
theorem takes_fd {e : EndpointId} (h : takes s a = some ⟨.fd, e, m⟩) :
    ∃ rest, s.lists (.messages .fd e) = m :: rest ∧
      ((∃ channelFd fd cpu p, a = .request (.recvFd channelFd fd) cpu ∧ channelFd ≠ -1 ∧ fd ≠ 0 ∧
          channelFileOf s channelFd = .ok (p, e)) ∨
        ∃ cpu, a = .resume cpu ∧ currentCall s = some (.recvFd e)) := by
  have hpeek : ∀ {e'}, peekFd s e' = some ⟨.fd, e, m⟩ →
      e' = e ∧ ∃ rest, s.lists (.messages .fd e) = m :: rest := by
    intro e' hp
    unfold peekFd at hp
    cases hq : s.lists (.messages .fd e') with
    | nil =>
      rw [hq] at hp
      cases hp
    | cons m' rest =>
      rw [hq] at hp
      cases hp
      exact ⟨rfl, rest, hq⟩
  have hread : ∀ {e' buffer}, peekRead s e' buffer ≠ some ⟨.fd, e, m⟩ := by
    intro e' buffer hp
    unfold peekRead at hp
    split at hp
    · cases hp
    · split at hp <;> cases hp
  unfold takes at h
  split at h
  · split at h
    · cases h
    · exact absurd h hread
  · rename_i channelFd fd cpu
    split at h
    · cases h
    · rename_i hne
      split at h
      · rename_i p e' hfile
        obtain ⟨rfl, rest, hq⟩ := hpeek h
        exact ⟨rest, hq, .inl ⟨channelFd, fd, cpu, p, rfl, fun h => hne (.inl h),
          fun h => hne (.inr h), hfile⟩⟩
      · cases h
  · rename_i cpu
    split at h
    · exact absurd h hread
    · rename_i e' hcall
      obtain ⟨rfl, rest, hq⟩ := hpeek h
      exact ⟨rest, hq, .inr ⟨cpu, rfl, hcall⟩⟩
    · cases h
  · cases h

theorem DescriptorInv.receiving (h : DescriptorInv history s) (hpass : Passable env s a)
    (ha : Enabled s a) : Receiving env history s a := by
  intro e m htakes
  have hrecv := hpass.received e m htakes
  obtain ⟨rest, hq, hcases⟩ := takes_fd htakes
  obtain ⟨source, file, hfile, hhandle, ⟨sender, hsender, hdata⟩, hlookup⟩ :=
    h.resolves e m (by rw [hq]; exact List.mem_cons_self)
  have hprocess : handleTableGet s.fileTable (s.messages m).processFd = some (some sender) := by
    rw [handleTableGet_eq hrecv.files, hhandle]
    exact hsender
  have hfd : fdTableGet (s.fdTables source) (s.messages m).fd = some (some file) := by
    rw [fdTableGet_eq (hrecv.sender sender source hprocess hdata)]
    exact hlookup
  -- the receiver's new descriptor is the next number
  have hnew : ∀ {t p s'}, currentProcess s = .ok (t, p) → exec env s a = .ok s' →
      (s'.fdTables p).handles = (s.fdTables p).handles ++ [some file] →
      ∃ t p fd file s', currentProcess s = .ok (t, p) ∧ exec env s a = .ok s' ∧
        designates s p fd = none ∧ sentFile history m = some file ∧
          designates s' p fd = some file := by
    intro t p s' hcur hexec hgrown
    have hlength := (hrecv.receiver t p hcur).1
    have hnat : (BitVec.ofNat 64 (s.fdTables p).handles.length).toNat =
        (s.fdTables p).handles.length := by
      rw [BitVec.toNat_ofNat]
      omega
    refine ⟨t, p, BitVec.ofNat 64 (s.fdTables p).handles.length, file, s', hcur, hexec, ?_, hfile,
      ?_⟩
    · unfold designates
      rw [fdTableGet_eq (Nat.lt_of_succ_lt hlength), hnat, List.getElem?_eq_none (Nat.le_refl _)]
      rfl
    · have hlength' : (s'.fdTables p).handles.length < 2 ^ 31 := by
        rw [hgrown, List.length_append]
        exact hlength
      unfold designates
      rw [fdTableGet_eq hlength', hnat, hgrown, List.getElem?_concat_length]
      rfl
  rcases hcases with ⟨channelFd, fd, cpu, p, rfl, hch, hfd0, hof⟩ | ⟨cpu, rfl, hcall⟩
  · obtain ⟨t, hcur, -, -⟩ := channelFileOf_ok hof
    obtain ⟨outcome, s', hpeek, hgrown⟩ :=
      channelRecvFdPeek_ok hcur hq hprocess hdata hfd (hrecv.receiver t p hcur).2
    refine hnew hcur ?_ hgrown
    have hrecv : channelRecvFd env s channelFd fd cpu = .ok (outcome, s') := by
      unfold channelRecvFd
      rw [if_neg (not_or.mpr ⟨hch, hfd0⟩), hof]
      show channelFileRecvFd env s e cpu = _
      unfold channelFileRecvFd channelRecvFdLoop
      rw [hq, if_neg (List.cons_ne_nil _ _), if_neg (List.cons_ne_nil _ _), ite_self]
      exact hpeek
    show Prod.snd <$> channelRecvFd env s channelFd fd cpu = _
    rw [hrecv]
    rfl
  · obtain ⟨t, ht, hcalls⟩ := Option.bind_eq_some_iff.mp hcall
    obtain ⟨p, hp⟩ := Option.ne_none_iff_exists'.mp (h.waiters t e hcalls)
    have hcur : currentProcess s = .ok (t, p) := by
      unfold currentProcess
      rw [ht]
      dsimp only
      rw [hp]
    have hclear : clearCall s = { s with calls := Function.update s.calls t none } := by
      unfold clearCall
      rw [ht]
    obtain ⟨outcome, s', hpeek, hgrown⟩ : ∃ outcome s',
        channelRecvFdPeek env (clearCall s) e = .ok (outcome, s') ∧
          (s'.fdTables p).handles = (s.fdTables p).handles ++ [some file] := by
      rw [hclear]
      exact channelRecvFdPeek_ok (s := { s with calls := Function.update s.calls t none }) hcur hq
        hprocess hdata hfd (hrecv.receiver t p hcur).2
    refine hnew hcur ?_ hgrown
    unfold exec
    dsimp only
    rw [hcall]
    show Prod.snd <$> channelRecvFdLoop env (clearCall s) e cpu = _
    have hq' : (clearCall s).lists (.messages .fd e) = m :: rest := by
      rw [hclear]
      exact hq
    unfold channelRecvFdLoop
    rw [hq', if_neg (List.cons_ne_nil _ _), hpeek]
    rfl

/-- What is sent is -1 or designates a file, so only -1 is to be rejected. -/
theorem Passable.rejecting (h : Passable env s a) : Rejecting env s a := by
  intro channelFd fd buffer cpu p e ha hfile hnone
  rcases h.sent _ _ _ _ _ _ ha hfile with hfd | ⟨file, hsome⟩
  · show channelSendFd env s channelFd fd buffer = _
    unfold channelSendFd
    rw [if_pos (.inr hfd)]
  · rw [hnone] at hsome
    cases hsome

theorem created_inv (h : Created s) : DescriptorInv [] s where
  toSystemInv := init_inv h.toInit
  toLifetimeInv := (init_lifetime h.toInit).1
  processes := h.process_file
  waiters := by
    intro t e hcall
    rw [h.calls] at hcall
    cases hcall
  resolves := by
    intro e m hm
    rw [h.lists] at hm
    cases hm

theorem run_descriptorInv (h : Run Created (Step env) history s)
    (hpass : ∀ p ∈ history, Passable env p.1 p.2) : DescriptorInv history s := by
  induction h with
  | start hs => exact created_inv hs
  | next _ hs ih =>
    obtain ⟨hlast, hrest⟩ := List.forall_mem_cons.mp hpass
    exact (ih hrest).step hlast hs

end

/-- In a run in which every descriptor that is sent is -1 or designates an
open file, and every one that is received finds its message and room, each
receive yields a descriptor for the file that was sent, and each descriptor
that designates no file is rejected. -/
theorem descriptor_passing (env : Scheduler.Env) (history : List (System × Action)) (s : System)
    (a : Action) (h : Run Created (Step env) history s) (ha : Enabled s a)
    (hpass : ∀ p ∈ (s, a) :: history, Passable env p.1 p.2) :
    Receiving env history s a ∧ Rejecting env s a := by
  obtain ⟨hlast, hrest⟩ := List.forall_mem_cons.mp hpass
  exact ⟨(run_descriptorInv h hrest).receiving hlast ha, hlast.rejecting⟩

/-! ## Two processes -/

/-- Whether an action can be passed, found by evaluation. -/
def passes (env : Scheduler.Env) (s : System) (a : Action) : Bool :=
  (match a with
    | .request (.sendFd channelFd fd _) _ =>
      match channelFileOf s channelFd with
      | .ok (p, _) => fd = -1 ∨ (designates s p fd).isSome
      | .error _ => true
    | _ => true) &&
  match takes s a with
  | some ⟨.fd, _, m⟩ =>
    decide (.freeObject m ∉ s.record.heap ∧ s.fileTable.handles.length < 2 ^ 31) &&
    (match handleTableGet s.fileTable (s.messages m).processFd with
      | some (some ⟨_, .process source, _⟩) => (s.fdTables source).handles.length < 2 ^ 31
      | _ => true) &&
    match currentProcess s with
    | .ok (_, p) => (s.fdTables p).handles.length + 1 < 2 ^ 31 ∧
      ((s.fdTables p).handles.length < (s.fdTables p).capacity ∨
        env.kmallocOk s.kernel.kmallocs = true)
    | .error _ => true
  | _ => true

theorem passes_sound {env : Scheduler.Env} {s : System} {a : Action} (h : passes env s a = true) :
    Passable env s a := by
  obtain ⟨hsent, hrecv⟩ := (Bool.and_eq_true _ _).mp h
  constructor
  · rintro channelFd fd buffer cpu p e rfl hfile
    dsimp only at hsent
    rw [hfile] at hsent
    rcases of_decide_eq_true hsent with hfd | hsome
    · exact .inl hfd
    · exact .inr (Option.isSome_iff_exists.mp hsome)
  · intro e m htakes
    rw [htakes] at hrecv
    obtain ⟨hfirst, hreceiver⟩ := (Bool.and_eq_true _ _).mp hrecv
    obtain ⟨hfree, hsender⟩ := (Bool.and_eq_true _ _).mp hfirst
    obtain ⟨hnot, hfiles⟩ := of_decide_eq_true hfree
    refine ⟨hnot, hfiles, ?_, ?_⟩
    · rintro ⟨path, data, flags⟩ source hget rfl
      rw [hget] at hsender
      exact of_decide_eq_true hsender
    · intro t p hcur
      rw [hcur] at hreceiver
      unfold HasRoom
      exact of_decide_eq_true hreceiver

/-- Two threads, each of a process that has been created. -/
def twoProcesses : System :=
  { booted with
    kernel := { Scheduler.boot with
      threads := fun t => Scheduler.blankThread (if t = 1 ∨ t = 2 then some t else none) }
    fileTable :=
      { handles := [some ⟨none, .process 1, 0⟩, some ⟨none, .process 2, 0⟩], capacity := 64 }
    processHandles := fun p => if p = 1 then 0 else 1 }

theorem twoProcesses_created : Created twoProcesses where
  toInit :=
    { booted_init with
      kernel :=
        { currentThread := rfl
          runQueue := rfl
          trace := rfl
          fresh := fun _ => ⟨rfl, rfl⟩
          idle := rfl }
      files := by
        intro f file hf
        match f with
        | 0 | 1 =>
          cases hf
          exact ⟨fun _ => PrivateData.noConfusion, fun _ => PrivateData.noConfusion⟩
        | f + 2 => cases hf }
  process_file := by
    intro t p hp
    change (if t = 1 ∨ t = 2 then some t else none) = some p at hp
    split at hp
    · rename_i ht
      cases hp
      rcases ht with rfl | rfl
      · exact ⟨⟨none, .process 1, 0⟩, rfl, rfl⟩
      · exact ⟨⟨none, .process 2, 0⟩, rfl, rfl⟩
    · cases hp

/-- Both open the channel; the first sends its descriptor 0. -/
def sendOwn : List Action :=
  [.threadStart 1, .threadStart 2, .boot, .request (.channelOpen (some "c") 1 0) cpu,
    .yield Scheduler.blankFrame, .request (.channelOpen (some "c") 1 0) cpu,
    .yield Scheduler.blankFrame, .request (.sendFd 0 0 (buffer 1)) cpu,
    .yield Scheduler.blankFrame]

/-- A run of passable steps, found by evaluation. -/
theorem twoProcesses_run (as : List Action) (P : System → Bool)
    (h : (runSteps (fun s a => if passes Scheduler.bootEnv s a then
      execStep Scheduler.bootEnv s a else none) twoProcesses as).any P = true) :
    ∃ history s, Run Created (Step Scheduler.bootEnv) history s ∧
      (∀ p ∈ history, Passable Scheduler.bootEnv p.1 p.2) ∧ P s = true := by
  have hstep : ∀ s a s', (if passes Scheduler.bootEnv s a then
      execStep Scheduler.bootEnv s a else none) = some s' →
        Passable Scheduler.bootEnv s a ∧ Step Scheduler.bootEnv s a s' := by
    intro s a s' heq
    split at heq
    · rename_i hpass
      exact ⟨passes_sound hpass, execStep_sound heq⟩
    · cases heq
  obtain ⟨history, s, hrun, hP⟩ := Run.of_check hstep twoProcesses_created as P h
  exact ⟨history, s, hrun.split.1, hrun.split.2, hP⟩

/-- The second process receives the descriptor. -/
theorem receiveOther_passing : ∃ history s, Run Created (Step Scheduler.bootEnv) history s ∧
    (takes s (.request (.recvFd 0 1) cpu)).isSome ∧
      Receiving Scheduler.bootEnv history s (.request (.recvFd 0 1) cpu) ∧
        Rejecting Scheduler.bootEnv s (.request (.recvFd 0 1) cpu) := by
  obtain ⟨history, s, hrun, hpass, hend⟩ := twoProcesses_run sendOwn
    (fun s => decide (Enabled s (.request (.recvFd 0 1) cpu)) &&
      (passes Scheduler.bootEnv s (.request (.recvFd 0 1) cpu) &&
        (takes s (.request (.recvFd 0 1) cpu)).isSome)) (by decide +kernel)
  obtain ⟨ha, hrest⟩ := (Bool.and_eq_true _ _).mp hend
  obtain ⟨hlast, htakes⟩ := (Bool.and_eq_true _ _).mp hrest
  exact ⟨history, s, hrun, htakes, descriptor_passing Scheduler.bootEnv history s
    (.request (.recvFd 0 1) cpu) hrun (of_decide_eq_true ha)
    (List.forall_mem_cons.mpr ⟨passes_sound hlast, hpass⟩)⟩

/-- The result of a call, if it returns. -/
def resultOf : Except Fault (Outcome × System) → Option (BitVec 32)
  | .ok (.returned value _, _) => some value
  | _ => none

/-- Descriptor 7 is not open, but it is sent. -/
theorem sendClosed_not_rejecting : ¬ ∀ env history s a, Run Created (Step env) history s →
    Enabled s a → Receiving env history s a ∧ Rejecting env s a := by
  intro hall
  obtain ⟨history, s, hrun, -, hend⟩ := twoProcesses_run (sendOwn.take 4)
    (fun s => decide (Enabled s (.request (.sendFd 0 7 (buffer 1)) cpu)) &&
      ((channelFileOf s 0).toOption = some (1, 0) && (designates s 1 7 = none &&
        resultOf (perform Scheduler.bootEnv s cpu (.sendFd 0 7 (buffer 1))) = some 0)))
    (by decide +kernel)
  obtain ⟨ha, hrest⟩ := (Bool.and_eq_true _ _).mp hend
  obtain ⟨hfile, hrest⟩ := (Bool.and_eq_true _ _).mp hrest
  obtain ⟨hnone, hresult⟩ := (Bool.and_eq_true _ _).mp hrest
  have hof : channelFileOf s 0 = .ok (1, 0) := Checked.ok_of_toOption (of_decide_eq_true hfile)
  have hreject := (hall _ history s _ hrun (of_decide_eq_true ha)).2 _ _ _ _ _ _ rfl hof
    (of_decide_eq_true hnone)
  rw [hreject] at hresult
  have hvalue : some (-1 : BitVec 32) = some 0 := of_decide_eq_true hresult
  exact absurd hvalue (by decide)

end ZOs.Ipc
