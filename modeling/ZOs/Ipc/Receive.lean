import ZOs.Ipc.Descriptors

/-!
# Receiving into a buffer

Two functions receive a message, `channel_file_read` and `channel_recv_fd`.
The first compares its size with that of the buffer, the second does not.
Both return the size as an `int`.
-/

namespace ZOs.Ipc

open Scheduler (ThreadId ProcessId Word CpuRegisters)
open Checked Runs

/-- How many bytes are written to the caller's buffer. -/
def Outcome.written : Outcome → Nat
  | .returned _ (some (.payload payload)) => payload.size.toNat
  | .returned _ (some (.event _)) => inputDeviceEventSize.toNat
  | _ => 0

/-- A call that receives at an endpoint into a buffer of `size` bytes, and
its result: it is made now, or it is one that has waited. -/
inductive ReceiveCall (env : Scheduler.Env) (s : System) (cpu : CpuRegisters) :
    MessageKind → EndpointId → Word → Except Fault (Outcome × System) → Prop
  | read {e : EndpointId} {buffer : UserBuffer} (hdata : buffer.data ≠ 0) :
      ReceiveCall env s cpu .data e buffer.size (perform env s cpu (.read e buffer))
  | recvFd {channelFd fd size : Word} {p : ProcessId} {e : EndpointId}
      (hfds : ¬ (channelFd = -1 ∨ fd = 0)) (hfile : channelFileOf s channelFd = .ok (p, e)) :
      ReceiveCall env s cpu .fd e size (perform env s cpu (.recvFd channelFd fd))
  | resumedRead {e : EndpointId} {buffer : UserBuffer}
      (hcall : currentCall s = some (.read e buffer)) :
      ReceiveCall env s cpu .data e buffer.size
        (resumeCall env (clearCall s) cpu (.read e buffer))
  | resumedRecvFd {e : EndpointId} {size : Word} (hcall : currentCall s = some (.recvFd e)) :
      ReceiveCall env s cpu .fd e size (resumeCall env (clearCall s) cpu (.recvFd e))

/-- What a receive with a message at the head of its queue must keep to. -/
structure RespectsBuffer (s : System) (kind : MessageKind) (e : EndpointId) (message : Message)
    (size : Word) (outcome : Outcome) (s' : System) : Prop where
  written : outcome.written ≤ size.toNat
  long : size < message.payload.size → outcome = .returned (-1) none ∧
    s'.lists (.messages kind e) = s.lists (.messages kind e) ∧ s'.fdTables = s.fdTables
  short : message.payload.size ≤ size → ∃ value copied, outcome = .returned value copied ∧
    value.toInt = message.payload.size.toNat

/-- No message of `channel_file_write` is empty. -/
structure NonemptyInv (s : System) : Prop where
  queued : ∀ e, ∀ m ∈ s.lists (.messages .data e), m < s.messageCount
  nonempty : ∀ e, ∀ m ∈ s.lists (.messages .data e), (s.messages m).payload.size ≠ 0

section
variable {env : Scheduler.Env} {s s' s₁ : System} {a : Action} {kind : MessageKind}
  {e : EndpointId} {m : MessageId} {rest : List MessageId} {buffer : UserBuffer} {size : Word}
  {cpu : CpuRegisters} {outcome : Outcome} {message : Message}

/-! ## Messages are not empty -/

theorem sends_nonempty {x : Sent} (h : sends env s a = some x) (hkind : x.message.kind = .data) :
    x.message.payload.size ≠ 0 := by
  unfold sends at h
  split at h
  · split at h
    · cases h
    · rename_i hbuffer
      cases h
      exact fun hzero => hbuffer (.inr hzero)
  · split at h
    · cases h
    · split at h
      · cases h
        cases hkind
      · cases h
  · cases h

theorem NonemptyInv.same (h : NonemptyInv s) (hcount : s'.messageCount = s.messageCount)
    (hmessages : s'.messages = s.messages)
    (hlists : ∀ e, s'.lists (.messages .data e) ⊆ s.lists (.messages .data e)) :
    NonemptyInv s' where
  queued e m hm := by
    rw [hcount]
    exact h.queued e m (hlists e hm)
  nonempty e m hm := by
    rw [hmessages]
    exact h.nonempty e m (hlists e hm)

theorem NonemptyInv.takes (h : NonemptyInv s) {x : Taken} (ht : Takes s x s') :
    NonemptyInv s' := by
  apply h.same ht.messageCount ht.messages
  intro e
  by_cases hx : ListAddr.messages .data e = .messages x.kind x.endpoint
  · rw [hx, ht.queue]
    exact List.subset_cons_self _ _
  · rw [ht.lists (.messages .data e) id hx]
    exact List.Subset.refl _

theorem NonemptyInv.sends (h : NonemptyInv s) {x : Sent} (hx : sends env s a = some x)
    (hs : Sends s x s') : NonemptyInv s' := by
  have hmem : ∀ e, ∀ m ∈ s'.lists (.messages .data e), m ∈ s.lists (.messages .data e) ∨
      m = s.messageCount ∧ x.message.kind = .data := by
    intro e m hm
    by_cases hkind : x.message.kind = .data
    · have hqueue := hs.queues e
      rw [hkind] at hqueue
      rw [hqueue] at hm
      split at hm
      · rcases List.mem_append.mp hm with hold | hnew
        · exact .inl hold
        · exact .inr ⟨List.mem_singleton.mp hnew, hkind⟩
      · exact .inl hm
    · rw [hs.lists (.messages .data e) id (by simp [Ne.symm hkind])] at hm
      exact .inl hm
  constructor
  · intro e m hm
    rw [hs.messageCount]
    rcases hmem e m hm with hold | ⟨rfl, _⟩
    · exact Nat.lt_succ_of_lt (h.queued e m hold)
    · exact Nat.lt_succ_self _
  · intro e m hm
    rw [hs.messages]
    rcases hmem e m hm with hold | ⟨rfl, hkind⟩
    · rw [Function.update_of_ne (Nat.ne_of_lt (h.queued e m hold))]
      exact h.nonempty e m hold
    · rw [Function.update_self]
      exact sends_nonempty hx hkind

theorem NonemptyInv.step (h : NonemptyInv s) (hstep : DataStep env s a s') : NonemptyInv s' := by
  cases hstep with
  | receives _ hr =>
    cases hfound : Ipc.takes s a with
    | none =>
      rw [hfound] at hr
      apply h.same hr.messageCount hr.messages
      intro e
      rw [Quiet.lists hr (.messages .data e) id]
      exact List.Subset.refl _
    | some x =>
      rw [hfound] at hr
      exact h.takes hr
  | opens _ _ c ho =>
    apply h.same ho.messageCount ho.messages
    intro e
    rw [ho.queues]
    exact List.Subset.refl _
  | sent _ x hx hs => exact h.sends hx hs

theorem run_nonempty {history : List (System × Action)} (h : Run Init (Step env) history s) :
    NonemptyInv s := by
  have hinit : ∀ s, Init s → SystemInv s ∧ NonemptyInv s := fun s hs =>
    ⟨init_inv hs, ⟨by simp [hs.lists], by simp [hs.lists]⟩⟩
  have hstep : ∀ s a s', SystemInv s ∧ NonemptyInv s → Step env s a s' →
      SystemInv s' ∧ NonemptyInv s' := by
    intro s a s' ⟨hinv, hnonempty⟩ hs
    obtain ⟨hinv', hdata⟩ := step_spec hinv hs
    exact ⟨hinv', hnonempty.step hdata⟩
  exact (h.invariant hinit hstep).2

/-! ## The two receives -/

/-- A message that is taken is written whole, and its size is returned. -/
theorem taken_respects_iff {copied : Payload} (hcopied : copied = message.payload)
    (houtcome : outcome = .returned (copied.size.setWidth 32) (some (.payload copied))) :
    RespectsBuffer s kind e message size outcome s' ↔
      message.payload.size ≤ size ∧ message.payload.size.toNat < 2 ^ 31 := by
  subst hcopied houtcome
  constructor
  · intro h
    have hle : message.payload.size ≤ size := BitVec.le_def.mpr h.written
    obtain ⟨value, copied, heq, hvalue⟩ := h.short hle
    cases heq
    exact ⟨hle, (size_toInt _).mp hvalue⟩
  · rintro ⟨hle, hlt⟩
    refine ⟨BitVec.le_def.mp hle, fun hlong => ?_, fun _ => ⟨_, _, rfl, (size_toInt _).mpr hlt⟩⟩
    exact absurd hlong (BitVec.not_lt.mpr hle)

/-- A message that is too long stays. -/
theorem refused_respects (hlong : size < message.payload.size)
    (houtcome : outcome = .returned (-1) none)
    (hlists : s'.lists (.messages kind e) = s.lists (.messages kind e))
    (hfds : s'.fdTables = s.fdTables) : RespectsBuffer s kind e message size outcome s' := by
  subst houtcome
  refine ⟨Nat.zero_le _, fun _ => ⟨rfl, hlists, hfds⟩, fun hshort => ?_⟩
  exact absurd hlong (BitVec.not_lt.mpr hshort)

/-- With a message in the queue, a read comes to the peek. -/
theorem channelFileReadLoop_pending (hqueue : s.lists (.messages .data e) = m :: rest) :
    channelFileReadLoop env s e buffer cpu = returnRead s e <$> channelFilePeek s e buffer := by
  simp [channelFileReadLoop, hqueue]

theorem channelFileRead_pending (hqueue : s.lists (.messages .data e) = m :: rest)
    (hbuffer : ¬ (buffer.data = 0 ∨ buffer.size = 0)) :
    channelFileRead env s e buffer cpu = returnRead s e <$> channelFilePeek s e buffer := by
  unfold channelFileRead
  rw [if_neg hbuffer, channelFileReadLoop_pending hqueue]
  simp [hqueue]

theorem channelFileRecvFd_pending (hqueue : s.lists (.messages .fd e) = m :: rest) :
    channelFileRecvFd env s e cpu = channelRecvFdPeek env s e := by
  simp [channelFileRecvFd, channelRecvFdLoop, hqueue]

theorem channelFilePeek_respects_iff (hqueue : s.lists (.messages .data e) = m :: rest)
    (hreturn : returnRead s e <$> channelFilePeek s e buffer = .ok (outcome, s')) :
    RespectsBuffer s .data e (s.messages m) buffer.size outcome s' ↔
      ((s.messages m).payload.size ≤ buffer.size → (s.messages m).payload.size.toNat < 2 ^ 31) := by
  unfold channelFilePeek at hreturn
  rw [hqueue] at hreturn
  dsimp only at hreturn
  split at hreturn
  · rename_i hlong
    cases hreturn
    apply iff_of_true
    · exact refused_respects hlong rfl rfl rfl
    · exact fun hshort => absurd hlong (BitVec.not_lt.mpr hshort)
  · rename_i hshort
    have hle := BitVec.not_lt.mp hshort
    cases hreturn
    apply (taken_respects_iff rfl rfl).trans
    constructor
    · exact fun h _ => h.2
    · exact fun h => ⟨hle, h hle⟩

/-- Whatever is looked up and opened, the message is taken. -/
theorem channelRecvFdPeek_outcome (hqueue : s.lists (.messages .fd e) = m :: rest) :
    Returns (channelRecvFdPeek env s e) fun r =>
      r.1 = .returned ((s.messages m).payload.size.setWidth 32)
        (some (.payload (s.messages m).payload)) := by
  unfold channelRecvFdPeek
  apply ensures_bind.mpr
  apply (currentProcess_returns s).mono
  intro ⟨_, p⟩ _
  simp only [hqueue]
  split
  · simp
  · simp
  · split
    · simp
    · simp
    · rename_i file _
      obtain ⟨ok, n, tables, heq⟩ := fdTableOpen_eq env (logHeap s [.readObject m]) p file
      simp only [heq, ensures_bind]
      apply returns_assert
      intro _
      exact ensures_pure.mpr rfl
  · simp

theorem channelRecvFdPeek_respects_iff (hqueue : s.lists (.messages .fd e) = m :: rest)
    (hreturn : channelRecvFdPeek env s e = .ok (outcome, s')) :
    RespectsBuffer s .fd e (s.messages m) size outcome s' ↔
      (s.messages m).payload.size ≤ size ∧ (s.messages m).payload.size.toNat < 2 ^ 31 :=
  taken_respects_iff rfl ((channelRecvFdPeek_outcome hqueue).result hreturn)

/-- An empty buffer is refused, and no message fits into it. -/
theorem channelFileRead_empty (hsize : buffer.size = 0)
    (hnonempty : (s.messages m).payload.size ≠ 0)
    (hreturn : channelFileRead env s e buffer cpu = .ok (outcome, s')) :
    RespectsBuffer s .data e (s.messages m) buffer.size outcome s' ∧
      buffer.size < (s.messages m).payload.size := by
  have hlong : buffer.size < (s.messages m).payload.size := by
    rw [hsize, BitVec.lt_def]
    apply Nat.pos_of_ne_zero
    exact fun hzero => hnonempty (BitVec.eq_of_toNat_eq hzero)
  unfold channelFileRead at hreturn
  rw [if_pos (.inr hsize)] at hreturn
  cases hreturn
  exact ⟨refused_respects hlong rfl rfl rfl, hlong⟩

theorem channelRecvFd_respects_iff {channelFd fd : Word} {p : ProcessId}
    (hfds : ¬ (channelFd = -1 ∨ fd = 0)) (hfile : channelFileOf s channelFd = .ok (p, e))
    (hqueue : s.lists (.messages .fd e) = m :: rest)
    (hreturn : channelRecvFd env s channelFd fd cpu = .ok (outcome, s')) :
    RespectsBuffer s .fd e (s.messages m) size outcome s' ↔
      (s.messages m).payload.size ≤ size ∧ (s.messages m).payload.size.toNat < 2 ^ 31 := by
  unfold channelRecvFd at hreturn
  rw [if_neg hfds, hfile] at hreturn
  have hpeek : channelFileRecvFd env s e cpu = .ok (outcome, s') := hreturn
  rw [channelFileRecvFd_pending hqueue] at hpeek
  exact channelRecvFdPeek_respects_iff hqueue hpeek

theorem clearCall_lists (s : System) : (clearCall s).lists = s.lists := by
  unfold clearCall
  split <;> rfl

theorem clearCall_messages (s : System) : (clearCall s).messages = s.messages := by
  unfold clearCall
  split <;> rfl

theorem clearCall_fdTables (s : System) : (clearCall s).fdTables = s.fdTables := by
  unfold clearCall
  split <;> rfl

theorem clearCall_respects_iff :
    RespectsBuffer (clearCall s) kind e message size outcome s' ↔
      RespectsBuffer s kind e message size outcome s' := by
  constructor
  · rintro ⟨hwritten, hlong, hshort⟩
    rw [clearCall_lists, clearCall_fdTables] at hlong
    exact ⟨hwritten, hlong, hshort⟩
  · rintro ⟨hwritten, hlong, hshort⟩
    rw [← clearCall_lists s, ← clearCall_fdTables s] at hlong
    exact ⟨hwritten, hlong, hshort⟩

end

/-- A receive that returns respects its buffer exactly if the message it
takes has less than `2 ^ 31` bytes, and, in `channel_recv_fd`, is not longer
than the buffer. -/
theorem receive_respects_iff (env : Scheduler.Env) (history : List (System × Action))
    (s s' : System)
    (hrun : Run Init (Step env) history s) (kind : MessageKind) (e : EndpointId) (m : MessageId)
    (rest : List MessageId) (hqueue : s.lists (.messages kind e) = m :: rest) (size : Word)
    (cpu : CpuRegisters) (outcome : Outcome)
    (hcall : ReceiveCall env s cpu kind e size (.ok (outcome, s'))) :
    RespectsBuffer s kind e (s.messages m) size outcome s' ↔
      ((s.messages m).payload.size ≤ size → (s.messages m).payload.size.toNat < 2 ^ 31) ∧
        (kind = .fd → (s.messages m).payload.size ≤ size) := by
  generalize hresult : Except.ok (outcome, s') = result at hcall
  cases hcall with
  | @read e buffer hdata =>
    simp only [reduceCtorEq, false_implies, and_true]
    by_cases hsize : buffer.size = 0
    · have hnonempty := (run_nonempty hrun).nonempty e m (hqueue ▸ List.mem_cons_self)
      obtain ⟨hrespects, hlong⟩ := channelFileRead_empty hsize hnonempty hresult.symm
      exact iff_of_true hrespects fun hshort => absurd hlong (BitVec.not_lt.mpr hshort)
    · have hread : channelFileRead env s e buffer cpu = .ok (outcome, s') := hresult.symm
      rw [channelFileRead_pending hqueue (not_or.mpr ⟨hdata, hsize⟩)] at hread
      exact channelFilePeek_respects_iff hqueue hread
  | @recvFd channelFd fd size p e hfds hfile =>
    rw [channelRecvFd_respects_iff hfds hfile hqueue hresult.symm]
    tauto
  | @resumedRead e buffer hcall =>
    simp only [reduceCtorEq, false_implies, and_true]
    have hread : channelFileReadLoop env (clearCall s) e buffer cpu = .ok (outcome, s') :=
      hresult.symm
    have hqueue := (congrFun (clearCall_lists s) _).trans hqueue
    rw [channelFileReadLoop_pending hqueue] at hread
    rw [← clearCall_respects_iff, ← clearCall_messages]
    exact channelFilePeek_respects_iff hqueue hread
  | @resumedRecvFd e size hcall =>
    have hrecv : channelRecvFdLoop env (clearCall s) e cpu = .ok (outcome, s') := hresult.symm
    have hqueue := (congrFun (clearCall_lists s) _).trans hqueue
    have hpeek : channelRecvFdPeek env (clearCall s) e = .ok (outcome, s') := by
      rw [← hrecv]
      simp [channelRecvFdLoop, hqueue]
    rw [← clearCall_respects_iff, ← clearCall_messages]
    rw [channelRecvFdPeek_respects_iff hqueue hpeek]
    tauto

/-- Three bytes are read into a buffer for three. -/
theorem threeBytes_respected : ∃ history s, Run Init (Step Scheduler.bootEnv) history s ∧
    ∃ outcome s', channelFileRead Scheduler.bootEnv s 1 (buffer 3) cpu = .ok (outcome, s') ∧
      RespectsBuffer s .data 1 (s.messages 0) 3 outcome s' := by
  obtain ⟨history, s, hrun, hend⟩ := booted_run
    (openTwo ++ [.request (.write 0 (buffer 3)) cpu])
    (fun s => decide (s.lists (.messages .data 1) = [0] ∧ (s.messages 0).payload.size = 3) &&
      (channelFileRead Scheduler.bootEnv s 1 (buffer 3) cpu).toOption.isSome) (by decide +kernel)
  obtain ⟨hstate, hreturn⟩ := (Bool.and_eq_true _ _).mp hend
  obtain ⟨hqueue, hsize⟩ := of_decide_eq_true hstate
  cases hread : channelFileRead Scheduler.bootEnv s 1 (buffer 3) cpu with
  | error f =>
    rw [hread] at hreturn
    cases hreturn
  | ok r =>
    have hcall : ReceiveCall Scheduler.bootEnv s cpu .data 1 3 (.ok (r.1, r.2)) := by
      rw [← hread]
      exact .read (show (buffer 3).data ≠ 0 by decide)
    refine ⟨history, s, hrun, r.1, r.2, hread, ?_⟩
    apply (receive_respects_iff _ _ _ _ hrun .data 1 0 [] hqueue 3 cpu r.1 hcall).mpr
    rw [hsize]
    decide

/-- Runs of the two processes, found by evaluation. -/
theorem twoProcesses_execRun (as : List Action) (P : System → Bool)
    (h : (runSteps (execStep Scheduler.bootEnv) twoProcesses as).any P = true) :
    ∃ history s, Run Init (Step Scheduler.bootEnv) history s ∧ P s = true :=
  Run.of_check (fun _ _ _ => execStep_sound) twoProcesses_created.toInit as P h

/-- Three bytes are received with a descriptor into a buffer for one. -/
theorem threeBytes_overrun : ∃ history s, Run Init (Step Scheduler.bootEnv) history s ∧
    s.lists (.messages .fd 1) = [0] ∧
      ∃ outcome s', ReceiveCall Scheduler.bootEnv s cpu .fd 1 1 (.ok (outcome, s')) ∧
        ¬ RespectsBuffer s .fd 1 (s.messages 0) 1 outcome s' := by
  obtain ⟨history, s, hrun, hend⟩ := twoProcesses_execRun
    (sendOwn.take 7 ++ [.request (.sendFd 0 0 (buffer 3)) cpu,
      .yield Scheduler.blankFrame])
    (fun s => decide (s.lists (.messages .fd 1) = [0] ∧ (s.messages 0).payload.size = 3) &&
      (decide ((channelFileOf s 0).toOption = some (2, 1)) &&
        (channelRecvFd Scheduler.bootEnv s 0 1 cpu).toOption.isSome)) (by decide +kernel)
  obtain ⟨hstate, hrest⟩ := (Bool.and_eq_true _ _).mp hend
  obtain ⟨hqueue, hsize⟩ := of_decide_eq_true hstate
  obtain ⟨hfile, hreturn⟩ := (Bool.and_eq_true _ _).mp hrest
  have hfile : channelFileOf s 0 = .ok (2, 1) := ok_of_toOption (of_decide_eq_true hfile)
  have hfds : ¬ ((0 : Word) = -1 ∨ (1 : Word) = 0) := by decide
  cases hrecv : channelRecvFd Scheduler.bootEnv s 0 1 cpu with
  | error f =>
    rw [hrecv] at hreturn
    cases hreturn
  | ok r =>
    refine ⟨history, s, hrun, hqueue, r.1, r.2, ?_, ?_⟩
    · rw [show Except.ok (r.1, r.2) = channelRecvFd Scheduler.bootEnv s 0 1 cpu from hrecv.symm]
      exact .recvFd hfds hfile
    · rw [channelRecvFd_respects_iff hfds hfile hqueue hrecv, hsize]
      decide

end ZOs.Ipc
