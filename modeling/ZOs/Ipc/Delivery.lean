import ZOs.Ipc.NoLostWakeUp

/-!
# Channel delivery

The messages that an endpoint has received, followed by those in its queue,
are the messages that the other endpoints of its channel have sent since it
was opened, in the order in which they were sent (`DeliveryLaw`). A read
takes the oldest of them and copies it. Its return value is an `int`, though,
into which the 64-bit size of the message does not fit when it is `2 ^ 31`
or more; that is the only way for a read to go wrong (`delivery_iff`).
-/

namespace ZOs.Ipc

open Runs

/-- The messages of one kind that the other endpoints of the channel of `e`
have sent since `e` was opened, in the order in which they were sent. -/
def sentTo (s : System) (kind : MessageKind) (e : EndpointId) : List MessageId :=
  (List.range s.messageCount).filter fun m =>
    decide (s.record.openedAt e ≤ m ∧ (s.messages m).kind = kind ∧ (s.messages m).sender ≠ e ∧
      (s.channelFiles (s.messages m).sender).sourceChannel = (s.channelFiles e).sourceChannel)

/-- The queue of every endpoint is what was sent to it without the prefix it
has received. -/
def DeliveryLaw (s : System) : Prop :=
  ∀ kind e, e < s.channelFileCount →
    s.record.received kind e ++ s.lists (.messages kind e) = sentTo s kind e

/-- A read that returns -1 changed no queue; any other took the oldest
message, copied it and returned its size. -/
structure ReadRecord.Correct (r : ReadRecord) : Prop where
  failed : r.value = -1 → ∀ kind e, r.after (.messages kind e) = r.before (.messages kind e)
  returned : r.value ≠ -1 → ∃ m, r.before (.messages .data r.endpoint) =
      m :: r.after (.messages .data r.endpoint) ∧
    (∀ kind e, (kind, e) ≠ (.data, r.endpoint) →
      r.after (.messages kind e) = r.before (.messages kind e)) ∧
    r.copied = some (.payload (r.messages m).payload) ∧
    r.value.toInt = (r.messages m).payload.size.toNat

/-- The action reads a message of `2 ^ 31` bytes or more. -/
def ReadsLong (s : System) (a : Action) : Prop :=
  ∃ x, takes s a = some x ∧ x.kind = .data ∧ 2 ^ 31 ≤ (s.messages x.message).payload.size.toNat

/-- What the delivery law rests on. -/
structure DeliveryInv (s : System) : Prop where
  delivery : DeliveryLaw s
  sender_lt : ∀ m, m < s.messageCount → (s.messages m).sender < s.channelFileCount
  openedAt_le : ∀ e, e < s.channelFileCount → s.record.openedAt e ≤ s.messageCount

section
variable {env : Scheduler.Env} {s s' : System} {a : Action} {x : Taken} {y : Sent}

/-! ## The log of messages -/

/-- The log for an endpoint depends on nothing else. -/
theorem sentTo_congr {kind : MessageKind} {e : EndpointId} (hn : s'.messageCount = s.messageCount)
    (hm : s'.messages = s.messages) (ho : s'.record.openedAt e = s.record.openedAt e)
    (hc : (s'.channelFiles e).sourceChannel = (s.channelFiles e).sourceChannel)
    (hs : ∀ m, m < s.messageCount → (s'.channelFiles (s.messages m).sender).sourceChannel =
      (s.channelFiles (s.messages m).sender).sourceChannel) :
    sentTo s' kind e = sentTo s kind e := by
  unfold sentTo
  rw [hn]
  apply List.filter_congr
  intro m hmem
  rw [hm, ho, hc, hs m (List.mem_range.mp hmem)]

/-- A message more: it is in the log of `e` exactly if it is delivered. -/
theorem sentTo_send {kind : MessageKind} {e : EndpointId} (h : Sends s y s') {delivered : Prop}
    [Decidable delivered] (hiff : delivered ↔ s.record.openedAt e ≤ s.messageCount ∧
      y.message.kind = kind ∧ y.message.sender ≠ e ∧
      (s.channelFiles y.message.sender).sourceChannel = (s.channelFiles e).sourceChannel) :
    sentTo s' kind e = sentTo s kind e ++ if delivered then [s.messageCount] else [] := by
  unfold sentTo
  rw [h.messageCount, List.range_succ, List.filter_append, h.record, h.channelFiles, h.messages]
  congr 1
  · apply List.filter_congr
    intro m hm
    rw [Function.update_of_ne (Nat.ne_of_lt (List.mem_range.mp hm))]
  · rw [List.filter_singleton, Function.update_self]
    by_cases hd : delivered
    · rw [if_pos hd, decide_eq_true (hiff.mp hd)]
      rfl
    · rw [if_neg hd, decide_eq_false fun hcond => hd (hiff.mpr hcond)]
      rfl

/-! ## Steps -/

theorem DeliveryInv.quiet (h : DeliveryInv s) (hq : Quiet s s') : DeliveryInv s' where
  delivery := by
    intro kind e he
    rw [hq.channelFileCount] at he
    rw [hq.received, hq.lists _ id, sentTo_congr hq.messageCount hq.messages
      (by rw [hq.openedAt]) (by rw [hq.channelFiles]) (fun _ _ => by rw [hq.channelFiles])]
    exact h.delivery kind e he
  sender_lt := by
    rw [hq.messageCount, hq.messages, hq.channelFileCount]
    exact h.sender_lt
  openedAt_le := by
    rw [hq.channelFileCount, hq.openedAt, hq.messageCount]
    exact h.openedAt_le

theorem DeliveryInv.takes (h : DeliveryInv s) (ht : Takes s x s') : DeliveryInv s' where
  delivery := by
    intro kind e he
    rw [ht.channelFileCount] at he
    rw [sentTo_congr ht.messageCount ht.messages (by rw [ht.openedAt]) (by rw [ht.channelFiles])
      (fun _ _ => by rw [ht.channelFiles]), ← h.delivery kind e he, ht.received]
    by_cases hk : kind = x.kind
    · subst hk
      rw [Function.update_self]
      by_cases hx : e = x.endpoint
      · subst hx
        -- the message goes from the head of the queue to the end of the prefix
        rw [Function.update_self, ht.queue, List.append_assoc]
        rfl
      · rw [Function.update_of_ne hx, ht.lists _ id (by simp [hx])]
    · rw [Function.update_of_ne hk, ht.lists _ id (by simp [hk])]
  sender_lt := by
    rw [ht.messageCount, ht.messages, ht.channelFileCount]
    exact h.sender_lt
  openedAt_le := by
    rw [ht.channelFileCount, ht.openedAt, ht.messageCount]
    exact h.openedAt_le

theorem DeliveryInv.opens (h : DeliveryInv s) (hinv : SystemInv s) {c : ChannelId}
    (ho : Opens s c s') : DeliveryInv s' where
  delivery := by
    intro kind e he
    rw [ho.channelFileCount] at he
    have hsender : ∀ m, m < s.messageCount →
        (s'.channelFiles (s.messages m).sender).sourceChannel =
          (s.channelFiles (s.messages m).sender).sourceChannel := by
      intro m hm
      rw [ho.sourceChannel, if_neg (Nat.ne_of_lt (h.sender_lt m hm))]
    by_cases hnew : e = s.channelFileCount
    · -- nothing has been sent since the endpoint was opened
      have hnil : sentTo s' kind e = [] := by
        unfold sentTo
        rw [List.filter_eq_nil_iff, ho.messageCount]
        intro m hm
        have hlt := List.mem_range.mp hm
        have hopened : s'.record.openedAt e = s.messageCount := by
          rw [ho.openedAt, hnew, Function.update_self]
        simp only [hopened, decide_eq_true_eq, not_and]
        omega
      rw [hnil, ho.received, hnew, Function.update_self, ho.queues,
        (hinv.absent kind _ (Nat.le_refl _)).1]
      rfl
    · have hlt : e < s.channelFileCount := by omega
      rw [ho.received, Function.update_of_ne hnew, ho.queues, sentTo_congr ho.messageCount
        ho.messages (by rw [ho.openedAt, Function.update_of_ne hnew])
        (by rw [ho.sourceChannel, if_neg hnew]) hsender]
      exact h.delivery kind e hlt
  sender_lt := by
    intro m hm
    rw [ho.messageCount] at hm
    rw [ho.messages, ho.channelFileCount]
    exact Nat.lt_succ_of_lt (h.sender_lt m hm)
  openedAt_le := by
    intro e he
    rw [ho.openedAt, ho.messageCount]
    by_cases hnew : e = s.channelFileCount
    · exact Nat.le_of_eq (by rw [hnew, Function.update_self])
    · rw [Function.update_of_ne hnew]
      rw [ho.channelFileCount] at he
      exact h.openedAt_le e (by omega)

/-- Where kmalloc does not fail, a message goes to every other endpoint of
the channel. -/
theorem sends_delivered (hk : ∀ n, env.kmallocOk n = true) (hinv : SystemInv s)
    (hy : sends env s a = some y) {e : EndpointId} (he : e < s.channelFileCount)
    (hne : e ≠ y.message.sender)
    (hc : (s.channelFiles e).sourceChannel = (s.channelFiles y.message.sender).sourceChannel) :
    e ∈ y.delivered := by
  have hsent : y = sentBy env s y.message := by
    unfold sends at hy
    split at hy
    · split at hy
      · cases hy
      · cases hy
        rfl
    · split at hy
      · cases hy
      · split at hy
        · cases hy
          rfl
        · cases hy
    · cases hy
  rw [hsent]
  exact deliveredTo_all hk _ _ ((hinv.mem_endpoints _ _).mpr ⟨he, hc⟩) hne

theorem DeliveryInv.sends (h : DeliveryInv s) (hk : ∀ n, env.kmallocOk n = true)
    (hinv : SystemInv s) (hy : sends env s a = some y) (hs : Sends s y s') : DeliveryInv s' where
  delivery := by
    intro kind e he
    rw [hs.channelFileCount] at he
    have hiff : (y.message.kind = kind ∧ e ∈ y.delivered) ↔
        s.record.openedAt e ≤ s.messageCount ∧ y.message.kind = kind ∧ y.message.sender ≠ e ∧
          (s.channelFiles y.message.sender).sourceChannel = (s.channelFiles e).sourceChannel := by
      constructor
      · intro ⟨hkind, hmem⟩
        obtain ⟨_, hne, hc⟩ := hs.delivered e hmem
        exact ⟨h.openedAt_le e he, hkind, hne.symm, hc.symm⟩
      · intro ⟨_, hkind, hne, hc⟩
        exact ⟨hkind, sends_delivered hk hinv hy he hne.symm hc.symm⟩
    rw [sentTo_send hs hiff, ← h.delivery kind e he, hs.record, List.append_assoc]
    congr 1
    by_cases hkind : y.message.kind = kind
    · subst hkind
      rw [hs.queues]
      by_cases hmem : e ∈ y.delivered <;> simp [hmem]
    · rw [hs.lists _ id (by simpa using fun heq => absurd heq.symm hkind), if_neg (by simp [hkind]),
        List.append_nil]
  sender_lt := by
    intro m hm
    rw [hs.messageCount] at hm
    rw [hs.messages, hs.channelFileCount]
    by_cases hnew : m = s.messageCount
    · rw [hnew, Function.update_self]
      exact hs.sender_lt
    · rw [Function.update_of_ne hnew]
      exact h.sender_lt m (by omega)
  openedAt_le := by
    intro e he
    rw [hs.channelFileCount] at he
    rw [hs.record, hs.messageCount]
    exact Nat.le_succ_of_le (h.openedAt_le e he)

/-- Every step keeps the delivery law. -/
theorem DeliveryInv.step (h : DeliveryInv s) (hk : ∀ n, env.kmallocOk n = true)
    (hinv : SystemInv s) (hstep : DataStep env s a s') : DeliveryInv s' := by
  cases hstep with
  | receives _ hr =>
    cases hfound : Ipc.takes s a with
    | none =>
      rw [hfound] at hr
      exact h.quiet hr
    | some x =>
      rw [hfound] at hr
      exact h.takes hr
  | opens _ _ c ho => exact h.opens hinv ho
  | sent _ y hy hs => exact h.sends hk hinv hy hs

/-! ## What reads return -/

theorem ReadRecord.Failed.correct {r : ReadRecord} (h : r.Failed) : r.Correct where
  failed := fun _ => h.2
  returned := fun hne => absurd h.1 hne

/-- The size of a message as an `int`. -/
theorem size_toInt (size : BitVec 64) :
    (size.setWidth 32).toInt = size.toNat ↔ size.toNat < 2 ^ 31 := by
  have hsize : (size.setWidth 32).toNat = size.toNat % 2 ^ 32 := BitVec.toNat_setWidth 32 size
  rw [BitVec.toInt_eq_toNat_cond, hsize]
  split <;> omega

/-- A read that takes a message is right exactly if the message is short. -/
theorem Takes.entry_correct (h : Takes s x s') (hk : x.kind = .data) :
    (x.entry s s').Correct ↔ (s.messages x.message).payload.size.toNat < 2 ^ 31 := by
  have hqueue := h.queue
  rw [hk] at hqueue
  constructor
  · intro hc
    by_cases hval : (x.entry s s').value = -1
    · -- it returned -1, and yet the queue is shorter
      have hsame := hc.failed hval .data x.endpoint
      have hlen := congrArg List.length hqueue
      rw [show s'.lists (.messages .data x.endpoint) = s.lists (.messages .data x.endpoint) from
        hsame, List.length_cons] at hlen
      omega
    · obtain ⟨m, hm, _, _, hint⟩ := hc.returned hval
      have hmx : m :: s'.lists (.messages .data x.endpoint) =
          x.message :: s'.lists (.messages .data x.endpoint) := hm.symm.trans hqueue
      injection hmx with hmx _
      subst hmx
      exact (size_toInt _).mp hint
  · intro hlt
    have hint := (size_toInt _).mpr hlt
    constructor
    · intro hval
      have hneg : (x.entry s s').value.toInt = -1 := by
        rw [hval]
        rfl
      have hneg' : ((s.messages x.message).payload.size.setWidth 32).toInt = -1 := hneg
      omega
    · intro _
      refine ⟨x.message, hqueue, ?_, rfl, hint⟩
      intro kind e hne
      apply h.lists _ id
      rw [hk]
      intro heq
      injection heq with h₁ h₂
      exact hne (by rw [h₁, h₂]; rfl)

theorem ReadsLong.not_of_none (h : takes s a = none) : ¬ ReadsLong s a := by
  intro ⟨x, hx, _⟩
  rw [h] at hx
  cases hx

/-- The reads recorded in a step are right exactly if it reads no message of
`2 ^ 31` bytes or more. -/
theorem DataStep.reads_correct (h : DataStep env s a s') :
    (∀ r ∈ s'.record.reads, r.Correct) ↔
      (∀ r ∈ s.record.reads, r.Correct) ∧ ¬ ReadsLong s a := by
  cases h with
  | receives _ hr =>
    cases hfound : takes s a with
    | none =>
      rw [hfound] at hr
      obtain ⟨entries, hreads, hfailed⟩ := hr.reads
      rw [hreads, List.forall_mem_append, and_iff_left (ReadsLong.not_of_none hfound),
        and_iff_left]
      exact fun r hr => (hfailed r hr).correct
    | some x =>
      rw [hfound] at hr
      have hlong : ReadsLong s a ↔
          x.kind = .data ∧ 2 ^ 31 ≤ (s.messages x.message).payload.size.toNat := by
        unfold ReadsLong
        rw [hfound]
        constructor
        · intro ⟨x', hx', hcond⟩
          cases hx'
          exact hcond
        · exact fun hcond => ⟨x, rfl, hcond⟩
      rw [Takes.reads hr, List.forall_mem_append, hlong]
      cases hk : x.kind with
      | data => simp [Takes.entry_correct hr hk]
      | fd => simp
  | opens _ hnone _ ho =>
    rw [ho.reads, and_iff_left (ReadsLong.not_of_none hnone)]
  | sent hnone _ _ hs =>
    rw [hs.record, and_iff_left (ReadsLong.not_of_none hnone)]

theorem init_delivery (h : Init s) : DeliveryInv s where
  delivery := by
    intro kind e he
    rw [h.channelFileCount] at he
    exact absurd he (Nat.not_lt_zero e)
  sender_lt := by simp [h.messageCount]
  openedAt_le := by simp [h.channelFileCount]

end

/-- Where kmalloc does not fail: every queue of a run is what was sent to it
without what it received, and every read was right, exactly if no step of
the run read a message of `2 ^ 31` bytes or more. -/
theorem delivery_iff (env : Scheduler.Env) (hk : ∀ n, env.kmallocOk n = true)
    (history : List (System × Action)) (s : System) (h : Run Init (Step env) history s) :
    (DeliveryLaw s ∧ ∀ r ∈ s.record.reads, r.Correct) ↔
      ∀ p ∈ history, ¬ ReadsLong p.1 p.2 := by
  have hinit : ∀ s, Init s → (SystemInv s ∧ DeliveryInv s) ∧ ∀ r ∈ s.record.reads, r.Correct := by
    intro s hs
    refine ⟨⟨init_inv hs, init_delivery hs⟩, ?_⟩
    simp [hs.reads]
  have hstep : ∀ s a s', SystemInv s ∧ DeliveryInv s → Step env s a s' →
      SystemInv s' ∧ DeliveryInv s' := by
    intro s a s' ⟨hinv, hdel⟩ hs
    obtain ⟨hinv', hdata⟩ := step_spec hinv hs
    exact ⟨hinv', hdel.step hk hinv hdata⟩
  have hsafe : ∀ s a s', SystemInv s ∧ DeliveryInv s → Step env s a s' →
      ((∀ r ∈ s'.record.reads, r.Correct) ↔
        (∀ r ∈ s.record.reads, r.Correct) ∧ ¬ ReadsLong s a) :=
    fun s a s' hinv hs => (step_spec hinv.1 hs).2.reads_correct
  have hlaw : DeliveryLaw s :=
    (h.invariant (fun s hs => (hinit s hs).1) hstep).2.delivery
  have key := h.safe_iff hinit hstep hsafe
  rw [and_iff_right hlaw]
  exact key

/-- Messages of three bytes arrive. -/
theorem shortMessage_delivery : ∃ history s, Run Init (Step Scheduler.bootEnv) history s ∧
    s.record.received .data 1 = [0] ∧
    ((DeliveryLaw s ∧ ∀ r ∈ s.record.reads, r.Correct) ↔
      ∀ p ∈ history, ¬ ReadsLong p.1 p.2) := by
  obtain ⟨history, s, hrun, hend⟩ := booted_run
    (openTwo ++ [.request (.write 0 (buffer 3)) cpu, .request (.read 1 (buffer 3)) cpu])
    (fun s => decide (s.record.received .data 1 = [0])) (by decide +kernel)
  exact ⟨history, s, hrun, of_decide_eq_true hend,
    delivery_iff Scheduler.bootEnv (fun _ => rfl) history s hrun⟩

/-- A message of `2 ^ 31` bytes is received, and the read returns a negative
number. -/
theorem longMessage_run : ∃ history s, Run Init (Step Scheduler.bootEnv) history s ∧
    (s.record.reads.any fun r => r.value == 0x80000000) = true :=
  booted_run
    (openTwo ++ [.request (.write 0 (buffer 0x80000000)) cpu,
      .request (.read 1 (buffer 0x80000000)) cpu])
    (fun s => s.record.reads.any fun r => r.value == 0x80000000) (by decide +kernel)

theorem longMessage_incorrect : ¬ ∀ env : Scheduler.Env, (∀ n, env.kmallocOk n = true) →
    ∀ history s, Run Init (Step env) history s →
      DeliveryLaw s ∧ ∀ r ∈ s.record.reads, r.Correct := by
  intro hall
  obtain ⟨history, s, hrun, hany⟩ := longMessage_run
  obtain ⟨r, hr, hval⟩ := List.any_eq_true.mp hany
  have hval : r.value = 0x80000000 := eq_of_beq hval
  have hcorrect := (hall Scheduler.bootEnv (fun _ => rfl) history s hrun).2 r hr
  obtain ⟨m, _, _, _, hint⟩ := hcorrect.returned (by rw [hval]; decide)
  rw [hval] at hint
  have hneg : (0x80000000 : BitVec 32).toInt = -2147483648 := by decide
  omega

end ZOs.Ipc
