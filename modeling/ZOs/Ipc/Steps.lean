import ZOs.Ipc.Waiting

/-!
# What a step of the system does

`SystemInv` is the invariant of the whole system: waiting threads, the
endpoints of the channels, and the law that nobody waits where something is
pending. `DataStep` says what a step does to messages and queues: a message
is received, or sent, or an endpoint is opened, or nothing of that kind
happens. Which of these it is can be read off the state before the step
(`takes`, `sends`). `exec_spec` proves both for every action.
-/

namespace ZOs.Ipc

open Scheduler (ThreadId ProcessId Kernel Word CpuRegisters idleThread Blocked)
open Checked Runs

/-- Something is there for the threads of a waiter list. -/
def Pending (s : System) : ListAddr → Prop
  | .recvWaiters kind e => s.lists (.messages kind e) ≠ []
  | .eventWaiters i => (s.inputFiles i).eventRingBuffer ≠ []
  | _ => False

/-- The endpoint that a waiting call belongs to. -/
def Call.endpoint : Call → Option EndpointId
  | .read e _ | .recvFd e => some e
  | .inputRead _ => none

/-- The endpoints of the channels and the files that lead to them. -/
structure EndpointsInv (s : System) : Prop where
  mem_endpoints : ∀ c e, e ∈ s.lists (.endpoints c) ↔
    e < s.channelFileCount ∧ (s.channelFiles e).sourceChannel = c
  endpoints_once : ∀ c, (s.lists (.endpoints c)).Nodup
  channel_lt : ∀ e, e < s.channelFileCount → (s.channelFiles e).sourceChannel < s.channelCount
  file_channel : ∀ f file c, fileObject s f = some file → file.privateData = .channel c →
    c < s.channelCount
  file_endpoint : ∀ f file e, fileObject s f = some file → file.privateData = .channelFile e →
    e < s.channelFileCount

/-- The invariant of the system. -/
structure SystemInv (s : System) : Prop extends WaitCore s, EndpointsInv s where
  nobody_waits : ∀ w, Pending s w → s.lists w = []
  absent : ∀ kind e, s.channelFileCount ≤ e →
    s.lists (.messages kind e) = [] ∧ s.lists (.recvWaiters kind e) = []
  calls_lt : ∀ t call e, s.calls t = some call → call.endpoint = some e → e < s.channelFileCount

/-! ## The message a step receives or sends -/

/-- A message received at an endpoint. -/
structure Taken where
  kind : MessageKind
  endpoint : EndpointId
  message : MessageId

/-- A message sent, and the endpoints that get it. -/
structure Sent where
  message : Message
  delivered : List EndpointId

/-- What `channel_file_read` finds: the oldest message, if it fits. -/
def peekRead (s : System) (e : EndpointId) (buffer : UserBuffer) : Option Taken :=
  match s.lists (.messages .data e) with
  | [] => none
  | m :: _ => if buffer.size < (s.messages m).payload.size then none else some ⟨.data, e, m⟩

/-- What `channel_recv_fd` finds: the oldest message. -/
def peekFd (s : System) (e : EndpointId) : Option Taken :=
  (s.lists (.messages .fd e)).head?.map fun m => ⟨.fd, e, m⟩

/-- The message that an action receives. -/
def takes (s : System) : Action → Option Taken
  | .request (.read e buffer) _ =>
    if buffer.data = 0 ∨ buffer.size = 0 then none else peekRead s e buffer
  | .request (.recvFd channelFd fd) _ =>
    if channelFd = -1 ∨ fd = 0 then none
    else
      match channelFileOf s channelFd with
      | .ok (_, e) => peekFd s e
      | .error _ => none
  | .resume _ =>
    match currentCall s with
    | some (.read e buffer) => peekRead s e buffer
    | some (.recvFd e) => peekFd s e
    | _ => none
  | _ => none

/-- A message and the endpoints of the sender's channel that get it. Two
calls of kmalloc come before those for the list nodes. -/
def sentBy (env : Scheduler.Env) (s : System) (message : Message) : Sent where
  message
  delivered := deliveredTo env s.lists message.kind message.sender (s.kernel.kmallocs + 2)
    (s.lists (.endpoints (s.channelFiles message.sender).sourceChannel))

/-- The message that an action sends. -/
def sends (env : Scheduler.Env) (s : System) : Action → Option Sent
  | .request (.write e buffer) _ =>
    if buffer.data = 0 ∨ buffer.size = 0 then none else some (sentBy env s (dataMessage e buffer))
  | .request (.sendFd channelFd fd buffer) _ =>
    if channelFd = -1 ∨ fd = -1 then none
    else
      match channelFileOf s channelFd with
      | .ok (p, e) => some (sentBy env s (fdMessage e (s.processHandles p) fd buffer))
      | .error _ => none
  | _ => none

/-! ## Effects on messages and queues -/

/-- The accesses to a message that is received. -/
def takeEvents (m : MessageId) : List HeapEvent :=
  [.readObject m, .readObject m, .readPayload m, .freePayload m, .freeObject m, .readObject m]

/-- What is the same unless an endpoint is opened or a message sent. -/
structure SameMessages (s s' : System) : Prop where
  channelFiles : s'.channelFiles = s.channelFiles
  channelFileCount : s'.channelFileCount = s.channelFileCount
  messages : s'.messages = s.messages
  messageCount : s'.messageCount = s.messageCount
  openedAt : s'.record.openedAt = s.record.openedAt

/-- A failed return of `channel_file_read`. -/
def ReadRecord.Failed (r : ReadRecord) : Prop :=
  r.value = -1 ∧ ∀ kind e, r.after (.messages kind e) = r.before (.messages kind e)

/-- No message is sent or received: at most a pending one is looked at, and
reads fail. -/
structure Quiet (s s' : System) : Prop extends SameMessages s s' where
  lists : ∀ l : ListAddr, ¬ l.IsWaiters → s'.lists l = s.lists l
  received : s'.record.received = s.record.received
  heap : ∃ events, s'.record.heap = s.record.heap ++ events ∧
    ∀ event ∈ events, ∃ m e, event = .readObject m ∧ m ∈ s.lists (.messages .data e)
  reads : ∃ entries, s'.record.reads = s.record.reads ++ entries ∧
    ∀ r ∈ entries, ReadRecord.Failed r

/-- The record of the read that receives `x`. -/
def Taken.entry (x : Taken) (s s' : System) : ReadRecord where
  endpoint := x.endpoint
  messages := s.messages
  before := s.lists
  after := s'.lists
  value := (s.messages x.message).payload.size.setWidth 32
  copied := some (.payload (s.messages x.message).payload)

/-- The oldest message of a queue is received. -/
structure Takes (s : System) (x : Taken) (s' : System) : Prop extends SameMessages s s' where
  queue : s.lists (.messages x.kind x.endpoint) =
    x.message :: s'.lists (.messages x.kind x.endpoint)
  lists : ∀ l : ListAddr, ¬ l.IsWaiters → l ≠ .messages x.kind x.endpoint →
    s'.lists l = s.lists l
  received : s'.record.received = Function.update s.record.received x.kind
    (Function.update (s.record.received x.kind) x.endpoint
      (s.record.received x.kind x.endpoint ++ [x.message]))
  heap : s'.record.heap = s.record.heap ++ takeEvents x.message
  reads : s'.record.reads = s.record.reads ++
    match x.kind with
    | .data => [x.entry s s']
    | .fd => []

/-- What a receiving function does, given what it finds. -/
def Receives (s : System) (found : Option Taken) (s' : System) : Prop :=
  match found with
  | none => Quiet s s'
  | some x => Takes s x s'

/-- A message is sent: it goes behind the queues of `x.delivered`. -/
structure Sends (s : System) (x : Sent) (s' : System) : Prop where
  sender_lt : x.message.sender < s.channelFileCount
  delivered : ∀ e ∈ x.delivered, e < s.channelFileCount ∧ e ≠ x.message.sender ∧
    (s.channelFiles e).sourceChannel = (s.channelFiles x.message.sender).sourceChannel
  channelFiles : s'.channelFiles = s.channelFiles
  channelFileCount : s'.channelFileCount = s.channelFileCount
  messages : s'.messages = Function.update s.messages s.messageCount x.message
  messageCount : s'.messageCount = s.messageCount + 1
  queues : ∀ e, s'.lists (.messages x.message.kind e) =
    if e ∈ x.delivered then s.lists (.messages x.message.kind e) ++ [s.messageCount]
    else s.lists (.messages x.message.kind e)
  lists : ∀ l : ListAddr, ¬ l.IsWaiters → (∀ e, l ≠ .messages x.message.kind e) →
    s'.lists l = s.lists l
  record : s'.record = s.record

/-- An endpoint of channel `c` is opened: the next one, with empty queues. -/
structure Opens (s : System) (c : ChannelId) (s' : System) : Prop where
  sourceChannel : ∀ e, (s'.channelFiles e).sourceChannel =
    if e = s.channelFileCount then c else (s.channelFiles e).sourceChannel
  channelFileCount : s'.channelFileCount = s.channelFileCount + 1
  messages : s'.messages = s.messages
  messageCount : s'.messageCount = s.messageCount
  queues : ∀ kind e, s'.lists (.messages kind e) = s.lists (.messages kind e)
  openedAt : s'.record.openedAt =
    Function.update s.record.openedAt s.channelFileCount s.messageCount
  received : ∀ kind, s'.record.received kind =
    Function.update (s.record.received kind) s.channelFileCount []
  heap : s'.record.heap = s.record.heap
  reads : s'.record.reads = s.record.reads

/-- The effect of a step on messages and queues. -/
inductive DataStep (env : Scheduler.Env) (s : System) (a : Action) (s' : System) : Prop
  | receives (hsends : sends env s a = none) (h : Receives s (takes s a) s')
  | opens (hsends : sends env s a = none) (htakes : takes s a = none) (c : ChannelId)
      (h : Opens s c s')
  | sent (htakes : takes s a = none) (x : Sent) (hsends : sends env s a = some x)
      (h : Sends s x s')

section
variable {env : Scheduler.Env} {s s' s₁ : System} {w : ListAddr} {t : ThreadId} {e : EndpointId}
  {kind : MessageKind} {m : MessageId} {buffer : UserBuffer} {found : Option Taken}

/-! ## Composing effects -/

theorem Quiet.refl (s : System) : Quiet s s where
  channelFiles := rfl
  channelFileCount := rfl
  messages := rfl
  messageCount := rfl
  openedAt := rfl
  lists := fun _ _ => rfl
  received := rfl
  heap := ⟨[], by simp, by simp⟩
  reads := ⟨[], by simp, by simp⟩

/-- The same data, whatever happens to the kernel, the calls, the tables
and the waiter lists. -/
structure SameData (s s' : System) : Prop extends SameMessages s s' where
  lists : ∀ l : ListAddr, ¬ l.IsWaiters → s'.lists l = s.lists l
  record : s'.record = s.record

theorem SameData.quiet (h : SameData s s') : Quiet s s' where
  toSameMessages := h.toSameMessages
  lists := h.lists
  received := by rw [h.record]
  heap := ⟨[], by simp [h.record], by simp⟩
  reads := ⟨[], by simp [h.record], by simp⟩

/-- The calls play no part in receiving. -/
theorem Receives.of_calls {calls : ThreadId → Option Call}
    (h : Receives { s with calls } found s') : Receives s found s' := by
  cases found with
  | none =>
    have h : Quiet _ s' := h
    exact ⟨⟨h.1.1, h.1.2, h.1.3, h.1.4, h.1.5⟩, h.2, h.3, h.4, h.5⟩
  | some x =>
    have h : Takes _ x s' := h
    exact ⟨⟨h.1.1, h.1.2, h.1.3, h.1.4, h.1.5⟩, h.2, h.3, h.4, h.5, h.6⟩

theorem EndpointsInv.congr (h : EndpointsInv s) (hf : s'.channelFiles = s.channelFiles)
    (hn : s'.channelFileCount = s.channelFileCount) (hc : s'.channelCount = s.channelCount)
    (ht : s'.fileTable = s.fileTable) (hl : ∀ c, s'.lists (.endpoints c) = s.lists (.endpoints c)) :
    EndpointsInv s' where
  mem_endpoints := by
    intro c e
    rw [hl, hn, hf]
    exact h.mem_endpoints c e
  endpoints_once := by
    intro c
    rw [hl]
    exact h.endpoints_once c
  channel_lt := by
    rw [hn, hf, hc]
    exact h.channel_lt
  file_channel := by
    unfold fileObject
    rw [ht, hc]
    exact h.file_channel
  file_endpoint := by
    unfold fileObject
    rw [ht, hn]
    exact h.file_endpoint

/-- The record plays no part in the invariant. -/
theorem SystemInv.record (h : SystemInv s) (record : Record) : SystemInv { s with record } where
  toWaitCore := h.toWaitCore.congr rfl fun _ _ => rfl
  toEndpointsInv := h.toEndpointsInv.congr rfl rfl rfl rfl fun _ => rfl
  nobody_waits := by
    intro w hw
    apply h.nobody_waits w
    cases w <;> exact hw
  absent := h.absent
  calls_lt := h.calls_lt

/-- A step of the kernel that blocks and wakes up nobody. -/
theorem SystemInv.kernel_step (h : SystemInv s) {k : Kernel} (hk : Scheduler.RunInv k)
    (hb : ∀ u, Blocked k u ↔ Blocked s.kernel u) : SystemInv { s with kernel := k } where
  kernel := hk
  blocked_iff := fun u => (hb u).trans (h.blocked_iff u)
  once := h.once
  unique := h.unique
  toEndpointsInv := h.toEndpointsInv.congr rfl rfl rfl rfl fun _ => rfl
  nobody_waits := by
    intro w hw
    apply h.nobody_waits w
    cases w <;> exact hw
  absent := h.absent
  calls_lt := h.calls_lt

theorem SystemInv.kmalloc (h : SystemInv s) (n : Nat) :
    SystemInv { s with kernel := countKmalloc s.kernel n } :=
  h.kernel_step
    { h.kernel with
      address_le := fun node hn =>
        Nat.le_trans (h.kernel.address_le node hn) (Nat.le_add_right _ _) }
    fun _ => Iff.rfl

theorem sameData_kernel (s : System) (k : Kernel) : SameData s { s with kernel := k } :=
  ⟨⟨rfl, rfl, rfl, rfl, rfl⟩, fun _ _ => rfl, rfl⟩

/-! ## Receiving -/

/-- Taking the head off a message queue. -/
theorem SystemInv.dequeue (h : SystemInv s) {rest : List MessageId}
    (hq : s.lists (.messages kind e) = m :: rest) :
    SystemInv (linkedListRemoveHead s (.messages kind e)) := by
  have hlists : ∀ l, l ≠ .messages kind e →
      (linkedListRemoveHead s (.messages kind e)).lists l = s.lists l :=
    fun l hl => Function.update_of_ne hl _ _
  have hwaiters : ∀ w : ListAddr, w.IsWaiters →
      (linkedListRemoveHead s (.messages kind e)).lists w = s.lists w := by
    intro w hw
    apply hlists
    intro heq
    subst heq
    exact hw
  have hsub : ∀ kind' e',
      (linkedListRemoveHead s (.messages kind e)).lists (.messages kind' e') ≠ [] →
        s.lists (.messages kind' e') ≠ [] := by
    intro kind' e' hne
    by_cases heq : ListAddr.messages kind' e' = .messages kind e
    · rw [heq, hq]
      simp
    · rwa [hlists _ heq] at hne
  exact
    { toWaitCore := h.toWaitCore.congr rfl hwaiters
      toEndpointsInv := h.toEndpointsInv.congr rfl rfl rfl rfl fun c => hlists _ (by simp)
      nobody_waits := by
        intro w hw
        cases w with
        | recvWaiters kind' e' =>
          rw [hwaiters (.recvWaiters kind' e') trivial]
          exact h.nobody_waits (.recvWaiters kind' e') (hsub kind' e' hw)
        | eventWaiters i =>
          rw [hwaiters (.eventWaiters i) trivial]
          exact h.nobody_waits (.eventWaiters i) hw
        | endpoints c => cases hw
        | messages kind' e' => cases hw
      absent := by
        intro kind' e' he
        obtain ⟨hm, hw⟩ := h.absent kind' e' he
        refine ⟨?_, by rw [hwaiters (.recvWaiters kind' e') trivial, hw]⟩
        by_contra hne
        exact hsub kind' e' hne hm
      calls_lt := h.calls_lt }

theorem SystemInv.takeMessage (h : SystemInv s) {rest : List MessageId}
    (hq : s.lists (.messages kind e) = m :: rest) : SystemInv (takeMessage s kind e m).2 :=
  (((h.record _).dequeue hq).record _).record _

/-- A failed return of `channel_file_read`. -/
theorem quiet_returnRead (h : SameData s s') :
    Quiet s (returnRead s e (.returned (-1) none, s')).2 where
  toSameMessages :=
    ⟨h.channelFiles, h.channelFileCount, h.messages, h.messageCount, h.openedAt⟩
  lists := h.lists
  received := by
    show s'.record.received = _
    rw [h.record]
  heap := ⟨[], by simp [returnRead, h.record], by simp⟩
  reads := by
    refine ⟨_, by rw [← h.record]; rfl, ?_⟩
    intro r hr
    rw [List.mem_singleton.mp hr]
    exact ⟨rfl, fun kind e => h.lists _ (by simp [ListAddr.IsWaiters])⟩

/-- `channel_file_read` from the peek on, with a message in the queue. -/
theorem channelFilePeek_spec (h : SystemInv s) (hq : s.lists (.messages .data e) ≠ []) :
    Returns (returnRead s e <$> channelFilePeek s e buffer)
      fun r => SystemInv r.2 ∧ Receives s (peekRead s e buffer) r.2 := by
  obtain ⟨m, rest, hq⟩ := List.exists_cons_of_ne_nil hq
  unfold channelFilePeek peekRead
  simp only [hq, ensures_map]
  by_cases hsize : buffer.size < (s.messages m).payload.size
  · have hsize' : buffer.size < ((logHeap s [.readObject m]).messages m).payload.size := hsize
    rw [if_pos hsize, if_pos hsize', ensures_ok]
    refine ⟨(h.record _).record _, ?_⟩
    show Quiet s _
    exact
      { toSameMessages := ⟨rfl, rfl, rfl, rfl, rfl⟩
        lists := fun _ _ => rfl
        received := rfl
        heap := ⟨[.readObject m], rfl, by simpa using ⟨e, by simp [hq]⟩⟩
        reads := ⟨_, rfl, by simp [ReadRecord.Failed, logHeap]⟩ }
  · have hsize' : ¬ buffer.size < ((logHeap s [.readObject m]).messages m).payload.size := hsize
    rw [if_neg hsize, if_neg hsize', ensures_ok]
    have hinv : SystemInv (logHeap s [.readObject m]) := h.record _
    refine ⟨(hinv.takeMessage hq).record _, ?_⟩
    show Takes s ⟨.data, e, m⟩ _
    exact
      { toSameMessages := ⟨rfl, rfl, rfl, rfl, rfl⟩
        queue := by simp [returnRead, takeMessage, linkedListRemoveHead, logHeap, hq]
        lists := fun l _ hl => Function.update_of_ne hl _ _
        received := rfl
        heap := by simp [returnRead, takeMessage, linkedListRemoveHead, logHeap, takeEvents]
        reads := rfl }

theorem currentProcess_returns (s : System) : Returns (currentProcess s) fun r =>
    s.kernel.currentThread = some r.1 := by
  unfold currentProcess
  cases hcur : s.kernel.currentThread with
  | none => simp
  | some t =>
    cases hp : (s.kernel.threads t).process with
    | none => simp [hp]
    | some p => simp [hp]

theorem handleTableInsert_eq {α : Type} (env : Scheduler.Env) (s : System)
    (table : HandleTable α) (data : α) :
    ∃ result n, handleTableInsert env s table data =
      (result, { s with kernel := countKmalloc s.kernel n }) ∧
      ∀ table', result = some table' → table'.handles = table.handles ++ [some data] := by
  unfold handleTableInsert
  split
  · refine ⟨_, 0, rfl, ?_⟩
    intro table' h
    cases h
    rfl
  · rw [kmalloc_eq]
    cases env.kmallocOk s.kernel.kmallocs with
    | false =>
      refine ⟨none, 1, rfl, ?_⟩
      intro table' h
      cases h
    | true =>
      refine ⟨_, 1, rfl, ?_⟩
      intro table' h
      cases h
      rfl

theorem fdTableOpen_eq (env : Scheduler.Env) (s : System) (p : ProcessId) (file : FileId) :
    ∃ ok n tables, fdTableOpen env s p file =
      (ok, { s with kernel := countKmalloc s.kernel n, fdTables := tables }) := by
  obtain ⟨result, n, heq, _⟩ := handleTableInsert_eq env s (s.fdTables p) file
  unfold fdTableOpen
  rw [heq]
  cases result with
  | none => exact ⟨false, n, s.fdTables, rfl⟩
  | some table => exact ⟨true, n, _, rfl⟩

/-- The descriptor tables play no part in the invariant. -/
theorem SystemInv.fdTables (h : SystemInv s) (fdTables : ProcessId → HandleTable FileId) :
    SystemInv { s with fdTables } where
  toWaitCore := h.toWaitCore.congr rfl fun _ _ => rfl
  toEndpointsInv := h.toEndpointsInv.congr rfl rfl rfl rfl fun _ => rfl
  nobody_waits := by
    intro w hw
    apply h.nobody_waits w
    cases w <;> exact hw
  absent := h.absent
  calls_lt := h.calls_lt

/-- The rest of `channel_recv_fd`, with a message in the queue. -/
theorem channelRecvFdPeek_spec (h : SystemInv s) (hq : s.lists (.messages .fd e) ≠ []) :
    Returns (channelRecvFdPeek env s e)
      fun r => SystemInv r.2 ∧ Receives s (peekFd s e) r.2 := by
  obtain ⟨m, rest, hq⟩ := List.exists_cons_of_ne_nil hq
  unfold channelRecvFdPeek peekFd
  apply ensures_bind.mpr
  apply (currentProcess_returns s).mono
  intro ⟨_, p⟩ _
  simp only [hq]
  split
  · simp
  · simp
  · split
    · simp
    · simp
    · rename_i file _
      obtain ⟨ok, n, tables, heq⟩ :=
        fdTableOpen_eq env (logHeap s [.readObject m]) p file
      simp only [heq, ensures_bind]
      apply returns_assert
      intro _
      have hinv : SystemInv (logHeap s [.readObject m]) := h.record _
      refine ⟨((hinv.kmalloc n).fdTables tables).takeMessage hq, ?_⟩
      show Takes s ⟨.fd, e, m⟩ _
      exact
        { toSameMessages := ⟨rfl, rfl, rfl, rfl, rfl⟩
          queue := by simp [takeMessage, linkedListRemoveHead, logHeap, hq]
          lists := fun l _ hl => Function.update_of_ne hl _ _
          received := rfl
          heap := by simp [takeMessage, linkedListRemoveHead, logHeap, takeEvents]
          reads := (List.append_nil _).symm }
  · simp

/-! ## Waiting for a message -/

/-- A thread that blocks keeps the invariant where nothing is pending. -/
theorem SystemInv.blockedIn (h : SystemInv s) (hw : w.IsWaiters) (hnone : ¬ Pending s w)
    {call : Call} (hexists : ∀ kind e, w = .recvWaiters kind e → e < s.channelFileCount)
    (hcall : ∀ e, call.endpoint = some e → e < s.channelFileCount)
    (hb : BlockedIn s t w call s') : SystemInv s' ∧ SameData s s' := by
  obtain ⟨⟨k, rfl, _⟩, hcore⟩ := hb
  have hlists : ∀ l : ListAddr, ¬ l.IsWaiters →
      Function.update s.lists w (s.lists w ++ [t]) l = s.lists l := by
    intro l hl
    apply Function.update_of_ne
    intro heq
    exact hl (heq ▸ hw)
  refine ⟨?_, ⟨rfl, rfl, rfl, rfl, rfl⟩, hlists, rfl⟩
  exact
    { toWaitCore := hcore
      toEndpointsInv := h.toEndpointsInv.congr rfl rfl rfl rfl fun c => hlists _ id
      nobody_waits := by
        intro v hv
        have hv' : Pending s v := by
          cases v with
          | recvWaiters kind e =>
            have := hlists (.messages kind e) id
            exact fun hnil => hv (this.trans hnil)
          | eventWaiters i => exact hv
          | endpoints c => cases hv
          | messages kind e => cases hv
        have hne : v ≠ w := fun heq => hnone (heq ▸ hv')
        show Function.update s.lists w (s.lists w ++ [t]) v = []
        rw [Function.update_of_ne hne]
        exact h.nobody_waits v hv'
      absent := by
        intro kind e he
        obtain ⟨hm, hwait⟩ := h.absent kind e he
        refine ⟨(hlists _ id).trans hm, ?_⟩
        have hne : ListAddr.recvWaiters kind e ≠ w := by
          intro heq
          exact Nat.not_lt.mpr he (hexists kind e heq.symm)
        show Function.update s.lists w (s.lists w ++ [t]) _ = []
        rw [Function.update_of_ne hne]
        exact hwait
      calls_lt := by
        intro u call' e hu he
        have hu : Function.update s.calls t (some call) u = some call' := hu
        by_cases hut : u = t
        · rw [hut, Function.update_self] at hu
          cases hu
          exact hcall e he
        · rw [Function.update_of_ne hut] at hu
          exact h.calls_lt u call' e hu he }

/-- The thread that runs, when it is not the idle thread. -/
def Running (s : System) (t : ThreadId) : Prop :=
  s.kernel.currentThread = some t ∧ t ≠ idleThread

theorem assertRunning_spec {P : Unit → Prop} (ht : Running s t) (hP : P ()) :
    Returns (assertRunning s) P := by
  unfold assertRunning
  simp only [ht.1]
  exact returns_assert fun _ => hP

theorem channelFileReadLoop_spec (h : SystemInv s) (ht : Running s t)
    (he : e < s.channelFileCount) (cpu : CpuRegisters) :
    Returns (channelFileReadLoop env s e buffer cpu)
      fun r => SystemInv r.2 ∧ Receives s (peekRead s e buffer) r.2 := by
  unfold channelFileReadLoop
  split
  · rename_i hnil
    have hfound : peekRead s e buffer = none := by simp [peekRead, hnil]
    rw [hfound]
    apply ensures_map.mpr
    apply ensures_bind.mpr
    apply assertRunning_spec ht
    apply h.toWaitCore.waitIn (w := .recvWaiters .data e) trivial ht.1 ht.2 cpu
    · exact ⟨(h.kmalloc 1).record _, quiet_returnRead (sameData_kernel s _)⟩
    · intro s' hb
      obtain ⟨hinv, hsame⟩ := h.blockedIn
        (w := .recvWaiters .data e) trivial (fun hp => hp hnil)
        (fun _ _ heq => by cases heq; exact he) (fun _ heq => by cases heq; exact he) hb
      exact ⟨hinv, hsame.quiet⟩
  · rename_i hne
    exact channelFilePeek_spec h hne

theorem channelFileRead_spec (h : SystemInv s) (ht : Running s t) (he : e < s.channelFileCount)
    (cpu : CpuRegisters) :
    Returns (channelFileRead env s e buffer cpu) fun r => SystemInv r.2 ∧
      Receives s (if buffer.data = 0 ∨ buffer.size = 0 then none else peekRead s e buffer) r.2 := by
  have hsame : SameData s s := ⟨⟨rfl, rfl, rfl, rfl, rfl⟩, fun _ _ => rfl, rfl⟩
  unfold channelFileRead
  by_cases hnull : buffer.data = 0 ∨ buffer.size = 0
  · rw [if_pos hnull, if_pos hnull]
    exact ⟨h.record _, quiet_returnRead hsame⟩
  · rw [if_neg hnull, if_neg hnull]
    split
    · split
      · rename_i hnil
        have hfound : peekRead s e buffer = none := by simp [peekRead, hnil]
        rw [hfound]
        exact ⟨h.record _, quiet_returnRead hsame⟩
      · rename_i hne
        exact channelFilePeek_spec h hne
    · exact channelFileReadLoop_spec h ht he cpu

theorem channelRecvFdLoop_spec (h : SystemInv s) (ht : Running s t)
    (he : e < s.channelFileCount) (cpu : CpuRegisters) :
    Returns (channelRecvFdLoop env s e cpu)
      fun r => SystemInv r.2 ∧ Receives s (peekFd s e) r.2 := by
  unfold channelRecvFdLoop
  split
  · rename_i hnil
    have hfound : peekFd s e = none := by simp [peekFd, hnil]
    rw [hfound]
    apply ensures_bind.mpr
    apply assertRunning_spec ht
    apply h.toWaitCore.waitIn (w := .recvWaiters .fd e) trivial ht.1 ht.2 cpu
    · exact ⟨h.kmalloc 1, (sameData_kernel s _).quiet⟩
    · intro s' hb
      obtain ⟨hinv, hsame⟩ := h.blockedIn
        (w := .recvWaiters .fd e) trivial (fun hp => hp hnil)
        (fun _ _ heq => by cases heq; exact he) (fun _ heq => by cases heq; exact he) hb
      exact ⟨hinv, hsame.quiet⟩
  · rename_i hne
    exact channelRecvFdPeek_spec h hne

theorem channelFileRecvFd_spec (h : SystemInv s) (ht : Running s t)
    (he : e < s.channelFileCount) (cpu : CpuRegisters) :
    Returns (channelFileRecvFd env s e cpu)
      fun r => SystemInv r.2 ∧ Receives s (peekFd s e) r.2 := by
  unfold channelFileRecvFd
  split
  · split
    · rename_i hnil
      have hfound : peekFd s e = none := by simp [peekFd, hnil]
      rw [hfound]
      exact ⟨h, Quiet.refl s⟩
    · rename_i hne
      exact channelRecvFdPeek_spec h hne
  · exact channelRecvFdLoop_spec h ht he cpu

/-! ## Sending -/

/-- A new message goes to the other endpoints of its sender's channel. -/
theorem sendMessage_spec (h : SystemInv s) {message : Message}
    (hsender : message.sender < s.channelFileCount) :
    Returns (sendMessage env s message) fun r => SystemInv r.2 ∧
      Sends s ⟨message, deliveredTo env s.lists message.kind message.sender s.kernel.kmallocs
        (s.lists (.endpoints (s.channelFiles message.sender).sourceChannel))⟩ r.2 := by
  obtain ⟨es, hes⟩ : ∃ es,
      es = s.lists (.endpoints (s.channelFiles message.sender).sourceChannel) := ⟨_, rfl⟩
  have hnodup : es.Nodup := hes ▸ h.endpoints_once _
  have hmem : ∀ e ∈ es, e < s.channelFileCount ∧
      (s.channelFiles e).sourceChannel = (s.channelFiles message.sender).sourceChannel := by
    intro e he
    rw [hes] at he
    exact (h.mem_endpoints _ e).mp he
  have hcore : WaitCore (newMessage s message).2 := h.toWaitCore.congr rfl fun _ _ => rfl
  obtain ⟨k, lists, heq, hcore', _, hfan⟩ :=
    hcore.fanOut env message.kind message.sender s.messageCount es hnodup
  have hdelivered : ∀ e ∈ deliveredTo env s.lists message.kind message.sender s.kernel.kmallocs es,
      e ∈ es ∧ e ≠ message.sender := fun e he => deliveredTo_sub _ _ he
  unfold sendMessage
  apply ensures_bind.mpr
  show Returns (fanOut env message.kind message.sender s.messageCount
    (s.lists (.endpoints (s.channelFiles message.sender).sourceChannel)) (newMessage s message).2) _
  rw [← hes, heq]
  have hmessages : ∀ e, lists (.messages message.kind e) =
      if e ∈ deliveredTo env s.lists message.kind message.sender s.kernel.kmallocs es then
        s.lists (.messages message.kind e) ++ [s.messageCount]
      else s.lists (.messages message.kind e) := hfan.messages
  have hwaiters : ∀ e, lists (.recvWaiters message.kind e) =
      if e ∈ es ∧ e ≠ message.sender then [] else s.lists (.recvWaiters message.kind e) :=
    hfan.waiters
  have hother : ∀ l, (∀ e, l ≠ .messages message.kind e) →
      (∀ e, l ≠ .recvWaiters message.kind e) → lists l = s.lists l := hfan.other
  constructor
  · exact
      { toWaitCore := hcore'
        toEndpointsInv := h.toEndpointsInv.congr rfl rfl rfl rfl fun c =>
          hother _ (by simp) (by simp)
        nobody_waits := by
          intro w hw
          cases w with
          | recvWaiters kind e =>
            by_cases hk : kind = message.kind
            · subst hk
              show lists _ = []
              have hw : lists (.messages message.kind e) ≠ [] := hw
              rw [hwaiters]
              rw [hmessages] at hw
              split
              · rfl
              · rename_i hout
                rw [if_neg fun he => hout (hdelivered e he)] at hw
                exact h.nobody_waits _ hw
            · have hm := hother (.messages kind e) (by simp [hk]) (by simp)
              have hr := hother (.recvWaiters kind e) (by simp) (by simp [hk])
              have hw : lists (.messages kind e) ≠ [] := hw
              rw [hm] at hw
              exact hr.trans (h.nobody_waits _ hw)
          | eventWaiters i =>
            exact (hother (.eventWaiters i) (by simp) (by simp)).trans (h.nobody_waits _ hw)
          | endpoints c => cases hw
          | messages kind e => cases hw
        absent := by
          intro kind e he
          obtain ⟨hm, hw⟩ := h.absent kind e he
          have hout : e ∉ es := fun hin => Nat.not_lt.mpr he (hmem e hin).1
          by_cases hk : kind = message.kind
          · subst hk
            constructor
            · show lists _ = []
              rw [hmessages, if_neg fun hin => hout (hdelivered e hin).1]
              exact hm
            · show lists _ = []
              rw [hwaiters, if_neg fun hin => hout hin.1]
              exact hw
          · exact ⟨(hother _ (by simp [hk]) (by simp)).trans hm,
              (hother _ (by simp) (by simp [hk])).trans hw⟩
        calls_lt := h.calls_lt }
  · exact
      { sender_lt := hsender
        delivered := by
          intro e he
          obtain ⟨hin, hne⟩ := hdelivered e he
          exact ⟨(hmem e hin).1, hne, (hmem e hin).2⟩
        channelFiles := rfl
        channelFileCount := rfl
        messages := rfl
        messageCount := rfl
        queues := hmessages
        lists := by
          intro l hl hm
          apply hother l hm
          intro e heq
          subst heq
          exact hl trivial
        record := rfl }

theorem Sends.of_kernel {k : Kernel} {x : Sent} (h : Sends { s with kernel := k } x s') :
    Sends s x s' :=
  ⟨h.1, h.2, h.3, h.4, h.5, h.6, h.7, h.8, h.9⟩

/-- What a sending function does, given the message it sends. -/
def Transmits (s : System) (x : Option Sent) (s' : System) : Prop :=
  match x with
  | none => Quiet s s'
  | some x => Sends s x s'

/-- Two allocations, and the message is sent. -/
theorem send_spec (h : SystemInv s) (message : Message)
    (hsender : message.sender < s.channelFileCount) {text₁ text₂ : String} :
    Returns (do
      let (ok, s) := kmalloc env s
      assert ok text₁
      let (ok, s) := kmalloc env s
      assert ok text₂
      sendMessage env s message)
      fun r => SystemInv r.2 ∧ Transmits s (some (sentBy env s message)) r.2 := by
  apply ensures_bind.mpr
  apply returns_assert
  intro _
  apply ensures_bind.mpr
  apply returns_assert
  intro _
  refine (sendMessage_spec ((h.kmalloc 1).kmalloc 1) hsender).mono ?_
  intro r ⟨hinv, hsends⟩
  exact ⟨hinv, hsends.of_kernel.of_kernel⟩

theorem channelFileWrite_spec (h : SystemInv s) (he : e < s.channelFileCount) :
    Returns (channelFileWrite env s e buffer) fun r => SystemInv r.2 ∧
      Transmits s (if buffer.data = 0 ∨ buffer.size = 0 then none
        else some (sentBy env s (dataMessage e buffer))) r.2 := by
  unfold channelFileWrite
  by_cases hnull : buffer.data = 0 ∨ buffer.size = 0
  · rw [if_pos hnull, if_pos hnull]
    exact ⟨h, Quiet.refl s⟩
  · rw [if_neg hnull, if_neg hnull]
    exact send_spec h _ he

/-- A descriptor that passes the assertions leads to an endpoint. -/
theorem channelFileOf_spec (h : SystemInv s) (channelFd : Word) :
    Returns (channelFileOf s channelFd) fun r => r.2 < s.channelFileCount := by
  unfold channelFileOf
  apply ensures_bind.mpr
  apply (currentProcess_returns s).mono
  intro ⟨_, p⟩ _
  simp only
  split
  · simp
  · simp
  · split
    · rename_i e _ hfile
      exact h.file_endpoint _ _ e hfile rfl
    · simp

theorem channelSendFd_spec (h : SystemInv s) (channelFd fd : Word) :
    Returns (channelSendFd env s channelFd fd buffer) fun r => SystemInv r.2 ∧
      ∀ cpu, Transmits s (sends env s (.request (.sendFd channelFd fd buffer) cpu)) r.2 := by
  unfold channelSendFd sends
  by_cases hnull : channelFd = -1 ∨ fd = -1
  · rw [if_pos hnull]
    simp only [if_pos hnull]
    exact ⟨h, fun _ => Quiet.refl s⟩
  · rw [if_neg hnull]
    simp only [if_neg hnull]
    have hof := channelFileOf_spec h channelFd
    cases hr : channelFileOf s channelFd with
    | error f => exact hof.allowed hr
    | ok r =>
      have he : r.2 < s.channelFileCount := hof.result hr
      refine (send_spec h (fdMessage r.2 (s.processHandles r.1) fd buffer) he).mono ?_
      exact fun r hr => ⟨hr.1, fun _ => hr.2⟩

theorem channelRecvFd_spec (h : SystemInv s) (ht : Running s t) (channelFd fd : Word)
    (cpu : CpuRegisters) :
    Returns (channelRecvFd env s channelFd fd cpu) fun r => SystemInv r.2 ∧
      Receives s (takes s (.request (.recvFd channelFd fd) cpu)) r.2 := by
  unfold channelRecvFd takes
  by_cases hnull : channelFd = -1 ∨ fd = 0
  · rw [if_pos hnull]
    simp only [if_pos hnull]
    exact ⟨h, Quiet.refl s⟩
  · rw [if_neg hnull]
    simp only [if_neg hnull]
    have hof := channelFileOf_spec h channelFd
    cases hr : channelFileOf s channelFd with
    | error f => exact hof.allowed hr
    | ok r =>
      have he : r.2 < s.channelFileCount := hof.result hr
      exact channelFileRecvFd_spec h ht he cpu

/-! ## Input files -/

theorem inputFileEmit_spec (h : SystemInv s) (i : InputFileId) (event : Option InputDeviceEvent) :
    Returns (inputFileEmit env s i event) fun r => SystemInv r.2 ∧ Quiet s r.2 := by
  unfold inputFileEmit
  cases event with
  | none => exact ⟨h, Quiet.refl s⟩
  | some event =>
    simp only
    split
    · exact ⟨h, Quiet.refl s⟩
    · obtain ⟨s₁, hs₁⟩ : ∃ s₁, s₁ = setEvents s i ((s.inputFiles i).eventRingBuffer ++ [event]) :=
        ⟨_, rfl⟩
      have hcore : WaitCore s₁ := hs₁ ▸ h.toWaitCore.congr rfl fun _ _ => rfl
      obtain ⟨k, heq, _, hcore'⟩ := WaitCore.wakeWaiters env (w := .eventWaiters i) trivial _ hcore
        (Nat.le_refl _)
      apply ensures_bind.mpr
      rw [← hs₁, heq]
      subst hs₁
      have hlists : ∀ l : ListAddr, l ≠ .eventWaiters i →
          Function.update s.lists (.eventWaiters i) [] l = s.lists l :=
        fun l hl => Function.update_of_ne hl _ _
      constructor
      · exact
          { toWaitCore := hcore'
            toEndpointsInv := h.toEndpointsInv.congr rfl rfl rfl rfl fun c =>
              hlists (.endpoints c) (by simp)
            nobody_waits := by
              intro w hw
              by_cases hwi : w = .eventWaiters i
              · rw [hwi]
                exact Function.update_self _ _ _
              · refine (hlists w hwi).trans (h.nobody_waits w ?_)
                cases w with
                | recvWaiters kind e =>
                  exact fun hnil => hw ((hlists (.messages kind e) (by simp)).trans hnil)
                | eventWaiters j =>
                  have hij : j ≠ i := by simpa using hwi
                  intro hnil
                  apply hw
                  show (Function.update s.inputFiles i _ j).eventRingBuffer = []
                  rw [Function.update_of_ne hij]
                  exact hnil
                | endpoints c => cases hw
                | messages kind e => cases hw
            absent := by
              intro kind e he
              obtain ⟨hm, hw⟩ := h.absent kind e he
              exact ⟨(hlists (.messages kind e) (by simp)).trans hm,
                (hlists (.recvWaiters kind e) (by simp)).trans hw⟩
            calls_lt := h.calls_lt }
      · refine SameData.quiet ⟨⟨rfl, rfl, rfl, rfl, rfl⟩, ?_, rfl⟩
        intro l hl
        apply hlists l
        intro heq
        exact hl (heq ▸ trivial)

/-- Taking an event out of the ring buffer. -/
theorem inputFileDequeue_spec (h : SystemInv s) (i : InputFileId) :
    Returns (inputFileDequeue s i) fun r => SystemInv r.2 ∧ Quiet s r.2 := by
  unfold inputFileDequeue
  cases hev : (s.inputFiles i).eventRingBuffer with
  | nil => simp
  | cons event events =>
    refine ⟨?_, SameData.quiet ⟨⟨rfl, rfl, rfl, rfl, rfl⟩, fun _ _ => rfl, rfl⟩⟩
    exact
      { toWaitCore := h.toWaitCore.congr rfl fun _ _ => rfl
        toEndpointsInv := h.toEndpointsInv.congr rfl rfl rfl rfl fun _ => rfl
        nobody_waits := by
          intro w hw
          apply h.nobody_waits w
          cases w with
          | eventWaiters j =>
            by_cases hij : j = i
            · show (s.inputFiles j).eventRingBuffer ≠ []
              rw [hij, hev]
              simp
            · have hw : (Function.update s.inputFiles i _ j).eventRingBuffer ≠ [] := hw
              rwa [Function.update_of_ne hij] at hw
          | recvWaiters kind e => exact hw
          | endpoints c => cases hw
          | messages kind e => cases hw
        absent := h.absent
        calls_lt := h.calls_lt }

theorem inputFileReadLoop_spec (h : SystemInv s) (ht : Running s t) (i : InputFileId)
    (cpu : CpuRegisters) :
    Returns (inputFileReadLoop env s i cpu) fun r => SystemInv r.2 ∧ Quiet s r.2 := by
  unfold inputFileReadLoop
  split
  · rename_i hnil
    apply ensures_bind.mpr
    apply (currentProcess_returns s).mono
    intro _ _
    apply h.toWaitCore.waitIn (w := .eventWaiters i) trivial ht.1 ht.2 cpu
    · simp
    · intro s' hb
      obtain ⟨hinv, hsame⟩ := h.blockedIn (w := .eventWaiters i) trivial (fun hp => hp hnil)
        (fun _ _ heq => by cases heq) (fun _ heq => by cases heq) hb
      exact ⟨hinv, hsame.quiet⟩
  · exact inputFileDequeue_spec h i

theorem inputFileRead_spec (h : SystemInv s) (ht : Running s t) (i : InputFileId)
    (cpu : CpuRegisters) :
    Returns (inputFileRead env s i buffer cpu) fun r => SystemInv r.2 ∧ Quiet s r.2 := by
  unfold inputFileRead
  split
  · exact ⟨h, Quiet.refl s⟩
  · split
    · exact ⟨h, Quiet.refl s⟩
    · split
      · split
        · exact ⟨h, Quiet.refl s⟩
        · exact inputFileDequeue_spec h i
      · exact inputFileReadLoop_spec h ht i cpu

/-! ## Opening an endpoint -/

/-- The file table may grow by a file whose channel or endpoint exists. -/
theorem SystemInv.fileTable (h : SystemInv s) {table : HandleTable File} (new : File)
    (hsub : ∀ f file, (table.handles[f]?).join = some file →
      fileObject s f = some file ∨ file = new)
    (hc : ∀ c, new.privateData = .channel c → c < s.channelCount)
    (he : ∀ e, new.privateData = .channelFile e → e < s.channelFileCount) :
    SystemInv { s with fileTable := table } where
  toWaitCore := h.toWaitCore.congr rfl fun _ _ => rfl
  mem_endpoints := h.mem_endpoints
  endpoints_once := h.endpoints_once
  channel_lt := h.channel_lt
  file_channel := by
    intro f file c hf hdata
    rcases hsub f file hf with hf | rfl
    · exact h.file_channel f file c hf hdata
    · exact hc c hdata
  file_endpoint := by
    intro f file e hf hdata
    rcases hsub f file hf with hf | rfl
    · exact h.file_endpoint f file e hf hdata
    · exact he e hdata
  nobody_waits := by
    intro w hw
    apply h.nobody_waits w
    cases w <;> exact hw
  absent := h.absent
  calls_lt := h.calls_lt

/-- What one entry more in a handle table leads to. -/
theorem lookup_append {α : Type} {handles : List (Option α)} {x : Option α} {f : Nat} {y : α}
    (h : ((handles ++ [x])[f]?).join = some y) : (handles[f]?).join = some y ∨ x = some y := by
  by_cases hf : f < handles.length
  · rw [List.getElem?_append_left hf] at h
    exact .inl h
  · rw [List.getElem?_append_right (Nat.le_of_not_lt hf)] at h
    cases hi : f - handles.length with
    | zero =>
      rw [hi] at h
      exact .inr (by simpa using h)
    | succ n =>
      rw [hi] at h
      simp at h

/-- The file table with one entry more, of a file whose channel or endpoint
exists. -/
theorem SystemInv.grow_fileTable (h : SystemInv s) {file : File}
    (hc : ∀ c, file.privateData = .channel c → c < s.channelCount)
    (he : ∀ e, file.privateData = .channelFile e → e < s.channelFileCount)
    {table : HandleTable File} {x : Option File}
    (htable : table.handles = s.fileTable.handles ++ [x]) (hx : ∀ y, x = some y → y = file) :
    SystemInv { s with fileTable := table } := by
  refine h.fileTable file ?_ hc he
  intro f y hy
  rw [htable] at hy
  rcases lookup_append hy with hy | hy
  · exact .inl hy
  · exact .inr (hx y hy)

/-- `file_table_open` for a file whose channel or endpoint exists. -/
theorem fileTableOpen_spec (h : SystemInv s) {file : File}
    (hc : ∀ c, file.privateData = .channel c → c < s.channelCount)
    (he : ∀ e, file.privateData = .channelFile e → e < s.channelFileCount) :
    Returns (fileTableOpen env s file) fun r => SystemInv r.2 ∧ ∃ k table,
      r.2 = { s with kernel := k, fileTable := table } := by
  have hfile : ∀ y, some file = some y → y = file := fun y hy => (Option.some.inj hy).symm
  have hnone : ∀ y, none = some y → y = file := fun y hy => by cases hy
  unfold fileTableOpen
  rw [kmalloc_eq]
  cases env.kmallocOk s.kernel.kmallocs with
  | false => exact ⟨h.kmalloc 1, _, _, rfl⟩
  | true =>
    obtain ⟨result, n, heq, hhandles⟩ := handleTableInsert_eq env
      { s with kernel := countKmalloc s.kernel 1 } s.fileTable file
    have h₁ := (h.kmalloc 1).kmalloc n
    simp only [heq]
    cases result with
    | none => exact ⟨h₁, _, _, rfl⟩
    | some table =>
      have htable := hhandles table rfl
      cases file.path with
      | none => exact ⟨h₁.grow_fileTable hc he htable hfile, _, _, rfl⟩
      | some path =>
        have h₂ := (h₁.kmalloc 1).kmalloc 1
        apply ensures_bind.mpr
        apply returns_assert
        intro _
        rw [kmalloc_eq]
        cases env.kmallocOk (kmalloc env
            { s with kernel := countKmalloc (countKmalloc s.kernel 1) n }).2.kernel.kmallocs with
        | false => exact ⟨h₂.grow_fileTable hc he rfl hnone, _, _, rfl⟩
        | true => exact ⟨h₂.grow_fileTable hc he htable hfile, _, _, rfl⟩

/-- The channel at a path, or a new one: no message moves. -/
theorem channelOfPath_spec (h : SystemInv s) (path : String) :
    Returns (channelOfPath env s path) fun r =>
      SystemInv r.2 ∧ r.1 < r.2.channelCount ∧ SameData s r.2 := by
  unfold channelOfPath
  split
  · rename_i f _
    unfold sourceChannelOf
    split
    · rename_i c _ hf
      exact ⟨h, h.file_channel f _ c hf rfl, ⟨rfl, rfl, rfl, rfl, rfl⟩, fun _ _ => rfl, rfl⟩
    · simp
    · simp
  · -- a new channel has no endpoints yet, so emptying its list changes nothing
    have hnil : s.lists (.endpoints s.channelCount) = [] := by
      apply List.eq_nil_iff_forall_not_mem.mpr
      intro e he
      obtain ⟨hlt, hc⟩ := (h.mem_endpoints _ _).mp he
      exact absurd (h.channel_lt e hlt) (by rw [hc]; exact Nat.lt_irrefl _)
    have hlists : Function.update s.lists (.endpoints s.channelCount) [] = s.lists := by
      rw [← hnil, Function.update_eq_self]
    unfold channelCreate
    simp only [kmalloc_eq, hlists]
    apply ensures_bind.mpr
    apply ensures_bind.mpr
    apply returns_assert
    intro _
    apply ensures_bind.mpr
    have h₁ : SystemInv { s with
        kernel := countKmalloc s.kernel 1, channelCount := s.channelCount + 1 } :=
      { h.kmalloc 1 with
        channel_lt := fun e he => Nat.lt_succ_of_lt (h.channel_lt e he)
        file_channel := fun f file c hf hdata =>
          Nat.lt_succ_of_lt (h.file_channel f file c hf hdata)
        nobody_waits := by
          intro w hw
          apply h.nobody_waits w
          cases w <;> exact hw }
    refine (fileTableOpen_spec h₁ (fun c hc => by cases hc; exact Nat.lt_succ_self _)
      (fun e he => by cases he)).mono ?_
    intro ⟨handle, s₂⟩ ⟨hinv, k, table, heq⟩
    cases handle with
    | none => simp
    | some handle =>
      simp only at heq
      subst heq
      exact ⟨hinv, Nat.lt_succ_self _, ⟨rfl, rfl, rfl, rfl, rfl⟩, fun _ _ => rfl, rfl⟩

/-- The next endpoint, registered with channel `c`. -/
theorem SystemInv.register (h : SystemInv s) {c : ChannelId} (hc : c < s.channelCount)
    (file : ChannelFile) (hfile : file.sourceChannel = c) :
    SystemInv { s with
      channelFiles := Function.update s.channelFiles s.channelFileCount file
      channelFileCount := s.channelFileCount + 1
      lists := Function.update s.lists (.endpoints c)
        (s.lists (.endpoints c) ++ [s.channelFileCount]) } := by
  have hlists : ∀ l, l ≠ .endpoints c → Function.update s.lists (.endpoints c)
      (s.lists (.endpoints c) ++ [s.channelFileCount]) l = s.lists l :=
    fun l hl => Function.update_of_ne hl _ _
  have hold : ∀ e, e < s.channelFileCount →
      Function.update s.channelFiles s.channelFileCount file e = s.channelFiles e :=
    fun e he => Function.update_of_ne (Nat.ne_of_lt he) _ _
  have hfiles : ∀ e, e < s.channelFileCount + 1 →
      e < s.channelFileCount ∨ e = s.channelFileCount := fun e he => by omega
  exact
    { toWaitCore := h.toWaitCore.congr rfl fun w hw => hlists w fun heq => by
        subst heq
        exact hw
      mem_endpoints := by
        intro c' e
        have hmem := h.mem_endpoints c' e
        by_cases he : e = s.channelFileCount
        · have hout : e ∉ s.lists (.endpoints c') := by
            rw [hmem, he]
            exact fun hin => Nat.lt_irrefl _ hin.1
          by_cases hcc : c' = c
          · subst hcc
            simp [he, hfile]
          · have hne : ListAddr.endpoints c' ≠ .endpoints c := by simpa using hcc
            show e ∈ Function.update s.lists (.endpoints c) _ (.endpoints c') ↔ _
            rw [hlists _ hne]
            simp only [hout, false_iff, not_and]
            intro _
            show (Function.update s.channelFiles s.channelFileCount file e).sourceChannel ≠ c'
            rw [he, Function.update_self, hfile]
            exact fun heq => hcc heq.symm
        · have hlt : e < s.channelFileCount + 1 ↔ e < s.channelFileCount := by omega
          show e ∈ Function.update s.lists (.endpoints c) _ (.endpoints c') ↔
            e < s.channelFileCount + 1 ∧
              (Function.update s.channelFiles s.channelFileCount file e).sourceChannel = c'
          rw [hlt, Function.update_of_ne he, ← hmem]
          by_cases hcc : c' = c
          · subst hcc
            simp [he]
          · rw [hlists _ (by simpa using hcc)]
      endpoints_once := by
        intro c'
        by_cases hcc : c' = c
        · subst hcc
          show (Function.update s.lists (.endpoints c') _ (.endpoints c')).Nodup
          rw [Function.update_self, List.nodup_append]
          refine ⟨h.endpoints_once c', List.nodup_singleton _, ?_⟩
          intro a ha b hb hab
          rw [hab, List.mem_singleton.mp hb, h.mem_endpoints] at ha
          exact Nat.lt_irrefl _ ha.1
        · show (Function.update s.lists (.endpoints c) _ (.endpoints c')).Nodup
          rw [hlists _ (by simpa using hcc)]
          exact h.endpoints_once c'
      channel_lt := by
        intro e he
        show (Function.update s.channelFiles s.channelFileCount file e).sourceChannel < _
        rcases hfiles e he with he | he
        · rw [hold e he]
          exact h.channel_lt e he
        · rw [he, Function.update_self, hfile]
          exact hc
      file_channel := h.file_channel
      file_endpoint := fun f x e hf hdata => Nat.lt_succ_of_lt (h.file_endpoint f x e hf hdata)
      nobody_waits := by
        intro w hw
        have hw' : Pending s w := by
          cases w with
          | recvWaiters kind e =>
            exact fun hnil => hw ((hlists (.messages kind e) (by simp)).trans hnil)
          | eventWaiters i => exact hw
          | endpoints c => cases hw
          | messages kind e => cases hw
        refine (hlists w ?_).trans (h.nobody_waits w hw')
        intro heq
        subst heq
        exact hw
      absent := by
        intro kind e he
        obtain ⟨hm, hw⟩ := h.absent kind e (Nat.le_of_succ_le he)
        exact ⟨(hlists (.messages kind e) (by simp)).trans hm,
          (hlists (.recvWaiters kind e) (by simp)).trans hw⟩
      calls_lt := fun t call e ht he => Nat.lt_succ_of_lt (h.calls_lt t call e ht he) }

/-- The new endpoint of `channel_open`. -/
theorem channelFileCreate_spec (h : SystemInv s) {c : ChannelId} (hc : c < s.channelCount)
    (flags : BitVec 32) :
    Returns (channelFileCreate env s c flags) fun r =>
      SystemInv r.2 ∧ r.1 < r.2.channelFileCount ∧ Opens s c r.2 := by
  -- the lists of the new endpoint are empty already
  have hnil : ∀ kind, s.lists (.messages kind s.channelFileCount) = [] ∧
      s.lists (.recvWaiters kind s.channelFileCount) = [] :=
    fun kind => h.absent kind _ (Nat.le_refl _)
  have hm : ∀ kind, Function.update s.lists (.messages kind s.channelFileCount) [] = s.lists := by
    intro kind
    rw [← (hnil kind).1, Function.update_eq_self]
  have hw : ∀ kind,
      Function.update s.lists (.recvWaiters kind s.channelFileCount) [] = s.lists := by
    intro kind
    rw [← (hnil kind).2, Function.update_eq_self]
  unfold channelFileCreate
  simp only [kmalloc_eq, linkedListInsert_eq, hm, hw]
  apply ensures_bind.mpr
  apply returns_assert
  intro _
  apply ensures_bind.mpr
  apply returns_assert
  intro hok
  rw [if_pos hok]
  have hreg := ((h.kmalloc 1).kmalloc 1).register hc { sourceChannel := c, flags } rfl
  refine ⟨hreg.record _, Nat.lt_succ_self _, ?_⟩
  exact
    { sourceChannel := by
        intro e
        show (Function.update s.channelFiles s.channelFileCount _ e).sourceChannel = _
        split
        · rename_i he
          rw [he, Function.update_self]
        · rename_i he
          rw [Function.update_of_ne he]
      channelFileCount := rfl
      messages := rfl
      messageCount := rfl
      queues := by
        intro kind e
        have hne : ListAddr.messages kind e ≠ .endpoints c := by simp
        show Function.update s.lists (.endpoints c)
          (s.lists (.endpoints c) ++ [s.channelFileCount]) (.messages kind e) = _
        rw [Function.update_of_ne hne]
      openedAt := rfl
      received := fun kind => rfl
      heap := rfl
      reads := rfl }

/-- What happened before the endpoint was opened moved no message. -/
theorem Opens.after {c : ChannelId} (h : Opens s₁ c s') (hsame : SameData s s₁) : Opens s c s' where
  sourceChannel := by
    rw [← hsame.channelFileCount, ← hsame.channelFiles]
    exact h.sourceChannel
  channelFileCount := by rw [h.channelFileCount, hsame.channelFileCount]
  messages := by rw [h.messages, hsame.messages]
  messageCount := by rw [h.messageCount, hsame.messageCount]
  queues := by
    intro kind e
    rw [h.queues, hsame.lists _ id]
  openedAt := by
    rw [h.openedAt, hsame.record, hsame.channelFileCount, hsame.messageCount]
  received := by
    intro kind
    rw [h.received, hsame.record, hsame.channelFileCount]
  heap := by rw [h.heap, hsame.record]
  reads := by rw [h.reads, hsame.record]

theorem channelOpen_spec (h : SystemInv s) (path : Option String) (fd : Word)
    (flags : BitVec 32) :
    Returns (channelOpen env s path fd flags) fun r =>
      SystemInv r.2 ∧ (Quiet s r.2 ∨ ∃ c, Opens s c r.2) := by
  unfold channelOpen
  cases path with
  | none => exact ⟨h, .inl (Quiet.refl s)⟩
  | some path =>
    simp only
    split
    · exact ⟨h, .inl (Quiet.refl s)⟩
    · apply ensures_bind.mpr
      apply (currentProcess_returns s).mono
      intro ⟨_, p⟩ _
      apply ensures_bind.mpr
      refine (channelOfPath_spec h path).mono ?_
      intro ⟨c, s₁⟩ ⟨h₁, hc, hsame⟩
      apply ensures_bind.mpr
      refine (channelFileCreate_spec h₁ hc flags).mono ?_
      intro ⟨e, s₂⟩ ⟨h₂, he, hopens⟩
      apply ensures_bind.mpr
      refine (fileTableOpen_spec h₂ (fun c hc => by cases hc)
        (fun e' he' => by cases he'; exact he)).mono ?_
      intro ⟨file, s₃⟩ ⟨h₃, k, table, heq⟩
      cases file with
      | none => simp
      | some file =>
        simp only at heq
        obtain ⟨ok, n, tables, hfd⟩ := fdTableOpen_eq env s₃ p file
        simp only [hfd]
        apply ensures_bind.mpr
        apply returns_assert
        intro _
        refine ⟨(h₃.kmalloc n).fdTables tables, .inr ⟨c, ?_⟩⟩
        have hopens := hopens.after hsame
        subst heq
        exact ⟨hopens.1, hopens.2, hopens.3, hopens.4, hopens.5, hopens.6, hopens.7, hopens.8,
          hopens.9⟩

/-! ## Steps -/

/-- A step of the scheduler alone. -/
theorem schedule_spec (h : SystemInv s) {x : Except Scheduler.Fault Kernel} {k : Kernel}
    (hx : x = .ok k) (hk : Scheduler.RunInv k) (hb : ∀ u, Blocked k u ↔ Blocked s.kernel u) :
    Returns (schedule s x) fun s' => SystemInv s' ∧ Quiet s s' := by
  subst hx
  exact ⟨h.kernel_step hk hb, (sameData_kernel s k).quiet⟩

/-- The call of the running thread may be forgotten. -/
theorem SystemInv.clearCall (h : SystemInv s) (t : ThreadId) :
    SystemInv { s with calls := Function.update s.calls t none } where
  toWaitCore := h.toWaitCore.congr rfl fun _ _ => rfl
  toEndpointsInv := h.toEndpointsInv.congr rfl rfl rfl rfl fun _ => rfl
  nobody_waits := by
    intro w hw
    apply h.nobody_waits w
    cases w <;> exact hw
  absent := h.absent
  calls_lt := by
    intro u call e hu he
    have hu : Function.update s.calls t none u = some call := hu
    by_cases hut : u = t
    · rw [hut, Function.update_self] at hu
      cases hu
    · rw [Function.update_of_ne hut] at hu
      exact h.calls_lt u call e hu he

/-- Going on in a waiting loop. -/
theorem resumeCall_spec (h : SystemInv s) (ht : Running s t) {call : Call}
    (hcall : ∀ e, call.endpoint = some e → e < s.channelFileCount) (cpu : CpuRegisters) :
    Returns (resumeCall env s cpu call) fun r => SystemInv r.2 ∧
      Receives s (match call with
        | .read e buffer => peekRead s e buffer
        | .recvFd e => peekFd s e
        | .inputRead _ => none) r.2 := by
  cases call with
  | read e buffer => exact channelFileReadLoop_spec h ht (hcall e rfl) cpu
  | recvFd e => exact channelRecvFdLoop_spec h ht (hcall e rfl) cpu
  | inputRead i => exact inputFileReadLoop_spec h ht i cpu

/-- Every call keeps the invariant and has the effect that the state before
it announces. -/
theorem perform_spec (h : SystemInv s) (ht : Running s t) {r : Request} (hr : r.Valid s)
    (cpu : CpuRegisters) :
    Returns (perform env s cpu r) fun x =>
      SystemInv x.2 ∧ DataStep env s (.request r cpu) x.2 := by
  cases r with
  | channelOpen path fd flags =>
    refine (channelOpen_spec h path fd flags).mono ?_
    intro x ⟨hinv, hx⟩
    rcases hx with hx | ⟨c, hx⟩
    · exact ⟨hinv, .receives rfl hx⟩
    · exact ⟨hinv, .opens rfl rfl c hx⟩
  | write e buffer =>
    refine (channelFileWrite_spec h hr).mono ?_
    intro x ⟨hinv, hx⟩
    refine ⟨hinv, ?_⟩
    by_cases hnull : buffer.data = 0 ∨ buffer.size = 0
    · rw [if_pos hnull] at hx
      exact .receives (if_pos hnull) hx
    · rw [if_neg hnull] at hx
      exact .sent rfl _ (if_neg hnull) hx
  | read e buffer =>
    refine (channelFileRead_spec h ht hr cpu).mono ?_
    intro x ⟨hinv, hx⟩
    exact ⟨hinv, .receives rfl hx⟩
  | sendFd channelFd fd buffer =>
    refine (channelSendFd_spec h channelFd fd).mono ?_
    intro x ⟨hinv, hx⟩
    refine ⟨hinv, ?_⟩
    cases hsent : sends env s (.request (.sendFd channelFd fd buffer) cpu) with
    | none =>
      have hquiet := hx cpu
      rw [hsent] at hquiet
      exact .receives hsent hquiet
    | some y =>
      have hy := hx cpu
      rw [hsent] at hy
      exact .sent rfl y hsent hy
  | recvFd channelFd fd =>
    refine (channelRecvFd_spec h ht channelFd fd cpu).mono ?_
    intro x ⟨hinv, hx⟩
    exact ⟨hinv, .receives rfl hx⟩
  | emit i event =>
    refine (inputFileEmit_spec h i event).mono ?_
    intro x ⟨hinv, hx⟩
    exact ⟨hinv, .receives rfl hx⟩
  | inputRead i buffer =>
    refine (inputFileRead_spec h ht i cpu).mono ?_
    intro x ⟨hinv, hx⟩
    exact ⟨hinv, .receives rfl hx⟩

/-- Every action that can happen keeps the invariant, without an error of
the scheduler, and has the effect that the state before it announces. -/
theorem exec_spec (h : SystemInv s) {a : Action} (ha : Enabled s a) :
    Returns (exec env s a) fun s' => SystemInv s' ∧ DataStep env s a s' := by
  have hquiet : ∀ {x : Except Fault System}, takes s a = none → sends env s a = none →
      Returns x (fun s' => SystemInv s' ∧ Quiet s s') →
      Returns x fun s' => SystemInv s' ∧ DataStep env s a s' := by
    intro x htakes hsends hx
    refine hx.mono fun s' hs' => ⟨hs'.1, .receives hsends ?_⟩
    rw [htakes]
    exact hs'.2
  cases a with
  | boot =>
    apply hquiet rfl rfl
    have e := Scheduler.afterRun_effect env s.kernel
    exact schedule_spec h (Scheduler.schedulerRun_eq h.kernel.toQueueInv)
      (h.kernel.toQueueInv.run e) (e.blocked_iff h.kernel.toQueueInv)
  | threadStart t =>
    apply hquiet rfl rfl
    obtain ⟨r, k, heq, hk, e⟩ := Scheduler.threadStart_spec env h.kernel ha.1 ha.2
    refine schedule_spec h (k := k) ?_ hk ?_
    · rw [heq]
      rfl
    · intro u
      rw [Blocked, Blocked, e.state]
  | yield frame =>
    obtain ⟨t, hcur, ht, _⟩ := ha
    apply hquiet rfl rfl
    obtain ⟨mid, heq, hmid⟩ := Scheduler.schedulerYield_spec env h.kernel hcur ht frame
    obtain ⟨k, hrun, hk, hb, _⟩ := hmid.run_blocked h.kernel hcur (by simp)
    exact schedule_spec h (heq.trans hrun) hk hb
  | terminate =>
    obtain ⟨t, hcur, ht, _⟩ := ha
    apply hquiet rfl rfl
    obtain ⟨mid, heq, hmid⟩ := Scheduler.schedulerTerminate_spec env h.kernel hcur ht
    obtain ⟨k, hrun, hk, hb, _⟩ := hmid.run_blocked h.kernel hcur (by simp)
    exact schedule_spec h (heq.trans hrun) hk hb
  | request r cpu =>
    obtain ⟨⟨t, hcur, ht, _⟩, hr⟩ := ha
    exact ensures_map.mpr (perform_spec h ⟨hcur, ht⟩ hr cpu)
  | resume cpu =>
    obtain ⟨t, hcur, ht, hcall⟩ := ha
    obtain ⟨call, hcall⟩ := Option.ne_none_iff_exists'.mp hcall
    have hcurrent : currentCall s = some call := by simp [currentCall, hcur, hcall]
    have hclear : clearCall s = { s with calls := Function.update s.calls t none } := by
      simp [clearCall, hcur]
    unfold exec
    simp only [hcurrent, hclear]
    apply ensures_map.mpr
    refine (resumeCall_spec (h.clearCall t) (t := t) ⟨hcur, ht⟩
      (fun e he => h.calls_lt t call e hcall he) cpu).mono ?_
    rintro x ⟨hinv, hx⟩
    refine ⟨hinv, .receives rfl ?_⟩
    unfold takes
    rw [hcurrent]
    cases call <;> exact Receives.of_calls hx

theorem step_spec (h : SystemInv s) {a : Action} (hstep : Step env s a s') :
    SystemInv s' ∧ DataStep env s a s' :=
  (exec_spec h hstep.1).result hstep.2

theorem init_inv (h : Init s) : SystemInv s where
  kernel := Scheduler.init_inv h.kernel
  blocked_iff := by
    intro t
    rw [Blocked, (h.kernel.fresh t).1]
    simp [h.lists]
  once := by simp [h.lists]
  unique := by simp [h.lists]
  mem_endpoints := by simp [h.lists, h.channelFileCount]
  endpoints_once := by simp [h.lists]
  channel_lt := by simp [h.channelFileCount]
  file_channel := fun f file c hf hdata => absurd hdata ((h.files f file hf).1 c)
  file_endpoint := fun f file e hf hdata => absurd hdata ((h.files f file hf).2 e)
  nobody_waits := fun w _ => h.lists w
  absent := fun _ _ _ => ⟨h.lists _, h.lists _⟩
  calls_lt := by simp [h.calls]

/-- The invariant holds in every run. -/
theorem run_inv {history : List (System × Action)} (h : Run Init (Step env) history s) :
    SystemInv s :=
  h.invariant (fun _ => init_inv) fun _ _ _ hinv hstep => (step_spec hinv hstep).1

end

end ZOs.Ipc
