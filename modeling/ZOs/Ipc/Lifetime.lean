import ZOs.Ipc.Delivery

/-!
# The lifetime of a message

One message object is shared by the queues of all endpoints it was sent to,
and every endpoint that receives it passes it to kfree. Even the first
receive looks at `message_object->size` after that, for its return value.
And a message that no endpoint gets is passed to kfree by nobody. So the
memory of messages is used rightly in exactly the runs in which no receive
ever completes and every message sent is queued somewhere
(`lifetime_iff`).
-/

namespace ZOs.Ipc

open Runs

/-- Which message an access concerns. -/
def HeapEvent.message : HeapEvent → MessageId
  | .readObject m | .readPayload m | .freePayload m | .freeObject m => m

/-- The access passes memory to kfree. -/
def HeapEvent.Frees : HeapEvent → Prop
  | .freePayload _ | .freeObject _ => True
  | _ => False

/-- `e'` may come after `e`: memory that was passed to kfree is neither read
nor passed to kfree again. -/
def HeapEvent.MayPrecede (e e' : HeapEvent) : Prop :=
  ∀ m, (e = .freeObject m → e' ≠ .readObject m ∧ e' ≠ .freeObject m) ∧
    (e = .freePayload m → e' ≠ .readPayload m ∧ e' ≠ .freePayload m)

/-- The laws of a message's lifetime. -/
structure LifetimeLaws (s : System) : Prop where
  no_use_after_free : s.record.heap.Pairwise HeapEvent.MayPrecede
  /-- A message in no queue, because all endpoints that got it have received
  it or because none got it, has been freed with its payload. -/
  freed : ∀ m, m < s.messageCount → (∀ kind e, m ∉ s.lists (.messages kind e)) →
    .freeObject m ∈ s.record.heap ∧ .freePayload m ∈ s.record.heap

/-- The action receives no message, and a message that it sends is queued
for at least one endpoint. -/
def KeepsMessages (env : Scheduler.Env) (s : System) (a : Action) : Prop :=
  takes s a = none ∧ ∀ x, sends env s a = some x → x.delivered ≠ []

/-- What the lifetime laws rest on. -/
structure LifetimeInv (s : System) : Prop where
  queue_lt : ∀ kind e, ∀ m ∈ s.lists (.messages kind e), m < s.messageCount
  heap_lt : ∀ event ∈ s.record.heap, event.message < s.messageCount
  /-- Wherever something was freed, something has gone wrong already. -/
  frees_wrong : ∀ event ∈ s.record.heap, event.Frees →
    ¬ s.record.heap.Pairwise HeapEvent.MayPrecede

section
variable {env : Scheduler.Env} {s s' : System} {a : Action} {x : Taken} {y : Sent}

/-- Something that is read may come after anything but its own free. -/
theorem HeapEvent.mayPrecede_of_not_frees {e e' : HeapEvent} (h : ¬ e.Frees) : e.MayPrecede e' := by
  intro m
  constructor
  · intro heq
    rw [heq] at h
    exact absurd trivial h
  · intro heq
    rw [heq] at h
    exact absurd trivial h

/-- A receive reads the object it has freed. -/
theorem takeEvents_wrong (heap : List HeapEvent) (m : MessageId) :
    ¬ (heap ++ takeEvents m).Pairwise HeapEvent.MayPrecede := by
  intro h
  have htail := (List.pairwise_append.mp h).2.1
  have hlast : HeapEvent.MayPrecede (.freeObject m) (.readObject m) := by
    simp only [takeEvents, List.pairwise_cons] at htail
    exact htail.2.2.2.2.1 _ List.mem_cons_self
  exact ((hlast m).1 rfl).1 rfl

/-- While the laws hold nothing has been freed, so every message is in some
queue. -/
theorem LifetimeLaws.queued (h : LifetimeLaws s) (hinv : LifetimeInv s) {m : MessageId}
    (hm : m < s.messageCount) : ∃ kind e, m ∈ s.lists (.messages kind e) := by
  by_contra hnone
  push Not at hnone
  obtain ⟨hfree, _⟩ := h.freed m hm hnone
  exact hinv.frees_wrong _ hfree trivial h.no_use_after_free

/-! ## Steps without a message -/

theorem Quiet.heap_events (h : Quiet s s') (hinv : LifetimeInv s) :
    ∃ events, s'.record.heap = s.record.heap ++ events ∧ ∀ event ∈ events,
      ¬ event.Frees ∧ event.message < s.messageCount := by
  obtain ⟨events, hheap, hevents⟩ := h.heap
  refine ⟨events, hheap, ?_⟩
  intro event hmem
  obtain ⟨m, e, rfl, hm⟩ := hevents event hmem
  exact ⟨id, hinv.queue_lt .data e m hm⟩

theorem LifetimeInv.quiet (h : LifetimeInv s) (hq : Quiet s s') : LifetimeInv s' := by
  obtain ⟨events, hheap, hevents⟩ := hq.heap_events h
  constructor
  · intro kind e m hm
    rw [hq.lists _ id] at hm
    rw [hq.messageCount]
    exact h.queue_lt kind e m hm
  · intro event hmem
    rw [hheap, List.mem_append] at hmem
    rw [hq.messageCount]
    exact hmem.elim (h.heap_lt event) fun hmem => (hevents event hmem).2
  · intro event hmem hfrees hpair
    rw [hheap] at hmem hpair
    have hold : event ∈ s.record.heap :=
      (List.mem_append.mp hmem).resolve_right fun hnew => (hevents event hnew).1 hfrees
    exact h.frees_wrong event hold hfrees (List.pairwise_append.mp hpair).1

theorem Quiet.lifetimeLaws (hq : Quiet s s') (h : LifetimeInv s) :
    LifetimeLaws s' ↔ LifetimeLaws s := by
  obtain ⟨events, hheap, hevents⟩ := hq.heap_events h
  have hqueue : ∀ kind e, s'.lists (.messages kind e) = s.lists (.messages kind e) :=
    fun kind e => hq.lists _ id
  constructor
  · intro hlaws
    have hpair : s.record.heap.Pairwise HeapEvent.MayPrecede := by
      have := hlaws.no_use_after_free
      rw [hheap] at this
      exact (List.pairwise_append.mp this).1
    refine ⟨hpair, ?_⟩
    intro m hm hout
    have hfree := hlaws.freed m (by rw [hq.messageCount]; exact hm)
      fun kind e => by rw [hqueue]; exact hout kind e
    have hin : ∀ event : HeapEvent, event.Frees → event ∈ s'.record.heap →
        event ∈ s.record.heap := by
      intro event hfrees hmem
      rw [hheap] at hmem
      exact (List.mem_append.mp hmem).resolve_right fun hnew => (hevents event hnew).1 hfrees
    exact ⟨hin _ trivial hfree.1, hin _ trivial hfree.2⟩
  · intro hlaws
    constructor
    · rw [hheap, List.pairwise_append]
      refine ⟨hlaws.no_use_after_free, ?_, ?_⟩
      · exact List.Pairwise.imp_of_mem
          (fun hmem _ _ => HeapEvent.mayPrecede_of_not_frees (hevents _ hmem).1)
          (List.pairwise_of_forall (R := fun _ _ => True) fun _ _ => trivial)
      · intro event hmem event' _
        apply HeapEvent.mayPrecede_of_not_frees
        exact fun hfrees => h.frees_wrong event hmem hfrees hlaws.no_use_after_free
    · intro m hm hout
      rw [hq.messageCount] at hm
      obtain ⟨kind, e, hmem⟩ := hlaws.queued h hm
      exact absurd (by rw [hqueue]; exact hmem) (hout kind e)

/-! ## Receiving, opening and sending -/

theorem LifetimeInv.takes (h : LifetimeInv s) (ht : Takes s x s') : LifetimeInv s' where
  queue_lt := by
    intro kind e m hm
    rw [ht.messageCount]
    by_cases heq : ListAddr.messages kind e = .messages x.kind x.endpoint
    · rw [heq] at hm
      apply h.queue_lt x.kind x.endpoint m
      rw [ht.queue]
      exact List.mem_cons_of_mem _ hm
    · rw [ht.lists _ id heq] at hm
      exact h.queue_lt kind e m hm
  heap_lt := by
    have hlt : x.message < s.messageCount := by
      apply h.queue_lt x.kind x.endpoint
      rw [ht.queue]
      exact List.mem_cons_self
    intro event hmem
    rw [ht.heap, List.mem_append] at hmem
    rw [ht.messageCount]
    rcases hmem with hmem | hmem
    · exact h.heap_lt event hmem
    · simp only [takeEvents, List.mem_cons, List.not_mem_nil, or_false] at hmem
      rcases hmem with rfl | rfl | rfl | rfl | rfl | rfl <;> exact hlt
  frees_wrong := by
    intro event _ _
    rw [ht.heap]
    exact takeEvents_wrong _ _

theorem LifetimeInv.opens (h : LifetimeInv s) {c : ChannelId} (ho : Opens s c s') :
    LifetimeInv s' where
  queue_lt := by
    intro kind e m hm
    rw [ho.queues] at hm
    rw [ho.messageCount]
    exact h.queue_lt kind e m hm
  heap_lt := by
    rw [ho.heap, ho.messageCount]
    exact h.heap_lt
  frees_wrong := by
    rw [ho.heap]
    exact h.frees_wrong

theorem Opens.lifetimeLaws {c : ChannelId} (ho : Opens s c s') :
    LifetimeLaws s' ↔ LifetimeLaws s := by
  constructor
  · intro h
    refine ⟨ho.heap ▸ h.no_use_after_free, ?_⟩
    have hfreed := h.freed
    simp only [ho.messageCount, ho.queues, ho.heap] at hfreed
    exact hfreed
  · intro h
    refine ⟨ho.heap ▸ h.no_use_after_free, ?_⟩
    simp only [ho.messageCount, ho.queues, ho.heap]
    exact h.freed

/-- The queues after a message was sent hold the old messages and the new
one where it was delivered. -/
theorem Sends.mem_queue (hs : Sends s y s') (kind : MessageKind) (e : EndpointId) (m : MessageId) :
    m ∈ s'.lists (.messages kind e) ↔ m ∈ s.lists (.messages kind e) ∨
      (m = s.messageCount ∧ kind = y.message.kind ∧ e ∈ y.delivered) := by
  by_cases hk : kind = y.message.kind
  · subst hk
    rw [hs.queues]
    by_cases he : e ∈ y.delivered <;> simp [he]
  · rw [hs.lists _ id (by simp [hk])]
    simp [hk]

theorem LifetimeInv.sends (h : LifetimeInv s) (hs : Sends s y s') : LifetimeInv s' where
  queue_lt := by
    intro kind e m hm
    rw [hs.messageCount]
    rcases (hs.mem_queue kind e m).mp hm with hm | ⟨rfl, _⟩
    · exact Nat.lt_succ_of_lt (h.queue_lt kind e m hm)
    · exact Nat.lt_succ_self _
  heap_lt := by
    intro event hmem
    rw [hs.record] at hmem
    rw [hs.messageCount]
    exact Nat.lt_succ_of_lt (h.heap_lt event hmem)
  frees_wrong := by
    rw [hs.record]
    exact h.frees_wrong

/-- Sending keeps the laws exactly if somebody gets the message. -/
theorem Sends.lifetimeLaws (hs : Sends s y s') (h : LifetimeInv s) :
    LifetimeLaws s' ↔ LifetimeLaws s ∧ y.delivered ≠ [] := by
  constructor
  · intro hlaws
    have hpair : s.record.heap.Pairwise HeapEvent.MayPrecede := hs.record ▸ hlaws.no_use_after_free
    have hfreed := hlaws.freed
    rw [hs.messageCount, hs.record] at hfreed
    refine ⟨⟨hpair, ?_⟩, ?_⟩
    · intro m hm hout
      apply hfreed m (Nat.lt_succ_of_lt hm)
      intro kind e hmem
      rcases (hs.mem_queue kind e m).mp hmem with hmem | ⟨rfl, _⟩
      · exact hout kind e hmem
      · exact Nat.lt_irrefl _ hm
    · intro hnil
      -- nobody has the new message, and nothing can have freed it
      obtain ⟨hfree, _⟩ := hfreed s.messageCount (Nat.lt_succ_self _) fun kind e hmem => by
        rcases (hs.mem_queue kind e _).mp hmem with hmem | ⟨_, _, hmem⟩
        · exact Nat.lt_irrefl _ (h.queue_lt kind e _ hmem)
        · rw [hnil] at hmem
          cases hmem
      exact h.frees_wrong _ hfree trivial hpair
  · intro ⟨hlaws, hne⟩
    obtain ⟨e, he⟩ := List.exists_mem_of_ne_nil _ hne
    refine ⟨hs.record ▸ hlaws.no_use_after_free, ?_⟩
    intro m hm hout
    rw [hs.messageCount] at hm
    by_cases hnew : m = s.messageCount
    · exact absurd ((hs.mem_queue y.message.kind e m).mpr (.inr ⟨hnew, rfl, he⟩)) (hout _ e)
    · obtain ⟨kind, e', hmem⟩ := hlaws.queued h (by omega : m < s.messageCount)
      exact absurd ((hs.mem_queue kind e' m).mpr (.inl hmem)) (hout kind e')

/-! ## Steps and runs -/

theorem LifetimeInv.step (h : LifetimeInv s) (hstep : DataStep env s a s') : LifetimeInv s' := by
  cases hstep with
  | receives _ hr =>
    cases hfound : Ipc.takes s a with
    | none =>
      rw [hfound] at hr
      exact h.quiet hr
    | some x =>
      rw [hfound] at hr
      exact h.takes hr
  | opens _ _ c ho => exact h.opens ho
  | sent _ y hy hs => exact h.sends hs

/-- Each step keeps the laws exactly if it receives nothing and what it sends
is queued. -/
theorem DataStep.lifetimeLaws (hstep : DataStep env s a s') (h : LifetimeInv s) :
    LifetimeLaws s' ↔ LifetimeLaws s ∧ KeepsMessages env s a := by
  cases hstep with
  | receives hnone hr =>
    cases hfound : takes s a with
    | none =>
      rw [hfound] at hr
      have hkeeps : KeepsMessages env s a := by
        refine ⟨hfound, ?_⟩
        intro x hx
        rw [hnone] at hx
        cases hx
      rw [and_iff_left hkeeps]
      exact Quiet.lifetimeLaws hr h
    | some x =>
      rw [hfound] at hr
      have hwrong : ¬ LifetimeLaws s' := by
        intro hlaws
        have hpair := hlaws.no_use_after_free
        rw [Takes.heap hr] at hpair
        exact takeEvents_wrong _ _ hpair
      simp [hwrong, KeepsMessages, hfound]
  | opens hnone htakes c ho =>
    have hkeeps : KeepsMessages env s a := by
      refine ⟨htakes, ?_⟩
      intro x hx
      rw [hnone] at hx
      cases hx
    rw [and_iff_left hkeeps]
    exact ho.lifetimeLaws
  | sent htakes y hy hs =>
    rw [hs.lifetimeLaws h]
    simp [KeepsMessages, htakes, hy]

theorem init_lifetime (h : Init s) : LifetimeInv s ∧ LifetimeLaws s := by
  constructor
  · constructor
    · simp [h.lists]
    · simp [h.heap]
    · simp [h.heap]
  · constructor
    · simp [h.heap]
    · simp [h.messageCount]

end

/-- The messages of a run were used and freed rightly exactly if no step of
the run received a message and every message sent was queued somewhere. -/
theorem lifetime_iff (env : Scheduler.Env) (history : List (System × Action)) (s : System)
    (h : Run Init (Step env) history s) :
    LifetimeLaws s ↔ ∀ p ∈ history, KeepsMessages env p.1 p.2 := by
  have hinit : ∀ s, Init s → (SystemInv s ∧ LifetimeInv s) ∧ LifetimeLaws s :=
    fun s hs => ⟨⟨init_inv hs, (init_lifetime hs).1⟩, (init_lifetime hs).2⟩
  have hstep : ∀ s a s', SystemInv s ∧ LifetimeInv s → Step env s a s' →
      SystemInv s' ∧ LifetimeInv s' := by
    intro s a s' ⟨hinv, hlife⟩ hs
    obtain ⟨hinv', hdata⟩ := step_spec hinv hs
    exact ⟨hinv', hlife.step hdata⟩
  have hsafe : ∀ s a s', SystemInv s ∧ LifetimeInv s → Step env s a s' →
      (LifetimeLaws s' ↔ LifetimeLaws s ∧ KeepsMessages env s a) :=
    fun s a s' hinv hs => (step_spec hinv.1 hs).2.lifetimeLaws hinv.2
  have key := h.safe_iff hinit hstep hsafe
  exact key

/-- One message is sent, and one endpoint receives it. -/
theorem oneReceive_run : ∃ history s, Run Init (Step Scheduler.bootEnv) history s ∧
    decide (s.record.heap = takeEvents 0) = true :=
  booted_run
    (openTwo ++ [.request (.write 0 (buffer 3)) cpu, .request (.read 1 (buffer 3)) cpu])
    (fun s => decide (s.record.heap = takeEvents 0)) (by decide +kernel)

theorem oneReceive_wrong {s : System} (h : s.record.heap = takeEvents 0) : ¬ LifetimeLaws s := by
  intro hlaws
  have hpair := hlaws.no_use_after_free
  rw [h] at hpair
  exact takeEvents_wrong [] 0 hpair

theorem oneReceive_useAfterFree : ¬ ∀ env history s, Run Init (Step env) history s →
    LifetimeLaws s := by
  intro hall
  obtain ⟨history, s, hrun, hheap⟩ := oneReceive_run
  exact oneReceive_wrong (of_decide_eq_true hheap) (hall _ history s hrun)

/-- The run has a step that receives a message. -/
theorem oneReceive_lifetime : ∃ history s, Run Init (Step Scheduler.bootEnv) history s ∧
    ∃ p ∈ history, ¬ KeepsMessages Scheduler.bootEnv p.1 p.2 := by
  obtain ⟨history, s, hrun, hheap⟩ := oneReceive_run
  refine ⟨history, s, hrun, ?_⟩
  by_contra hnone
  push Not at hnone
  exact oneReceive_wrong (of_decide_eq_true hheap)
    ((lifetime_iff Scheduler.bootEnv history s hrun).mpr hnone)

end ZOs.Ipc
