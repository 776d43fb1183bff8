import ZOs.Compositor.Abi

/-!
# Whose response is taken

A client takes the first message with the process handle of its request.
For a request that carries the client's own handle there is one such
message, the response: `Pending` while the compositor has it, `Arrived` when
it is in the client's queue. The requests that come with a descriptor all
carry process handle 0, and so do their responses. For them the same holds
as long as the runs are undisturbed.
-/

namespace ZOs.Compositor

open Runs

/-- The message carries a process handle. -/
def Sent.isFor (handle : Int) (sent : Sent) : Bool := sent.message.processHandle = handle

/-- The messages of a queue that carry a process handle. -/
def withHandle (handle : Int) (queue : List Sent) : List Sent := queue.filter (Sent.isFor handle)

/-- The types of the messages that the compositor sends. -/
def AbiType.isResponse : AbiType → Bool
  | .createWindowResponse | .attachBufferResponse | .commitResponse => true
  | _ => false

/-- A message that answers a call. -/
def Answers (sent : Sent) (w : Waiting) : Prop :=
  sent.request = w.sent.request ∧ sent.message.type = w.request.responseType

section

variable {σ : Type} {s s' : System σ} {handle : Int} {sent : Sent} {queue queue' : List Sent}
  {client : Nat} {w : Waiting} {windows : Windows σ}

/-- The compositor has the request, or its response, and the client nothing
that it could take for it. -/
def Pending (s : System σ) (client : Nat) (w : Waiting) : Prop :=
  withHandle w.sent.message.processHandle (s.clients client).messages = [] ∧
    ∃ sent, withHandle w.sent.message.processHandle s.atCompositor = [sent] ∧
      (sent = w.sent ∨ Answers sent w)

/-- The response is the first message that the client can take for it. -/
def Arrived (s : System σ) (client : Nat) (w : Waiting) : Prop :=
  ∃ sent rest, withHandle w.sent.message.processHandle (s.clients client).messages = sent :: rest ∧
    Answers sent w ∧
    (w.sent.message.processHandle ≠ 0 →
      rest = [] ∧ withHandle w.sent.message.processHandle s.atCompositor = [])

/-- No message carries the process handle of the client. -/
def Clear (s : System σ) (client : Nat) : Prop :=
  withHandle client (s.clients client).messages = [] ∧ withHandle client s.atCompositor = []

structure Inv (s : System σ) : Prop where
  requests : ∀ sent ∈ s.messages, ∃ request client,
    sent.message = Request.message client request ∧ request.sendsFd = false
  fdRequests : ∀ sent ∈ s.fdMessages, ∃ request client,
    sent.message = Request.message client request ∧ request.sendsFd = true
  reply : ∀ sent, s.reply = some sent → sent.message.type.isResponse = true
  waiting : ∀ client w, (s.clients client).waiting = some w →
    w.sent.message = w.request.message client ∧ (s.clients client).isOpen = true ∧
      (Pending s client w ∨ Arrived s client w)
  idle : ∀ client : Nat, client ≠ 0 → (∀ w, (s.clients client).waiting = some w →
    w.sent.message.processHandle ≠ client) → Clear s client
  zero : (withHandle 0 s.atCompositor).length ≤ 1
  answered : Answered s

/-! ## Queues -/

@[simp] theorem withHandle_nil : withHandle handle [] = [] := rfl

@[simp] theorem withHandle_append :
    withHandle handle (queue ++ queue') = withHandle handle queue ++ withHandle handle queue' :=
  List.filter_append ..

theorem withHandle_cons_self (h : sent.message.processHandle = handle) :
    withHandle handle (sent :: queue) = sent :: withHandle handle queue :=
  List.filter_cons_of_pos (decide_eq_true h)

theorem withHandle_cons_of_ne (h : sent.message.processHandle ≠ handle) :
    withHandle handle (sent :: queue) = withHandle handle queue := by
  unfold withHandle
  rw [List.filter_cons_of_neg]
  unfold Sent.isFor
  rw [decide_eq_true_iff]
  exact h

theorem withHandle_eq_nil_iff :
    withHandle handle queue = [] ↔ ∀ sent ∈ queue, sent.message.processHandle ≠ handle := by
  unfold withHandle
  rw [List.filter_eq_nil_iff]
  unfold Sent.isFor
  simp only [decide_eq_true_eq, ne_eq]

/-! ## Messages and their responses -/

theorem message_type (client : Nat) (request : Request) :
    (request.message client).type.isResponse = false := by
  cases request <;> rfl

theorem responseType_isResponse (request : Request) : request.responseType.isResponse = true := by
  cases request <;> rfl

/-- The handle of a request is 0 or that of the client. -/
theorem message_handle (client : Nat) (request : Request) :
    (request.message client).processHandle = 0 ∨
      (request.sendsFd = false ∧ (request.message client).processHandle = client) := by
  cases request with
  | windowCreate name width height => exact .inr ⟨rfl, rfl⟩
  | windowAttachBuffer windowHandle bufferHandle => exact .inl rfl
  | windowCommit windowHandle x y width height => exact .inr ⟨rfl, rfl⟩

/-- Two requests with one message are answered by one type. -/
theorem responseType_eq {request request' : Request} {client client' : Nat}
    (h : request.message client = request'.message client') :
    request.responseType = request'.responseType := by
  have htype := congrArg Message.type h
  cases request <;> cases request' <;> first | rfl | cases htype

theorem processMessage_spec {c : σ} {request : Request} (hfd : request.sendsFd = false) :
    ∃ response, (processMessage windows c (request.message client)).2 = some response ∧
      response.processHandle = (request.message client).processHandle ∧
      response.type = request.responseType := by
  cases request with
  | windowCreate name width height => exact ⟨_, rfl, rfl, rfl⟩
  | windowAttachBuffer windowHandle bufferHandle => cases hfd
  | windowCommit windowHandle x y width height => exact ⟨_, rfl, rfl, rfl⟩

theorem processFdMessage_spec {c : σ} {fd : Int} {request : Request}
    (hfd : request.sendsFd = true) :
    ∃ response, (processFdMessage windows c fd (request.message client)).2 = some response ∧
      response.processHandle = (request.message client).processHandle ∧
      response.type = request.responseType := by
  cases request with
  | windowCreate name width height => cases hfd
  | windowAttachBuffer windowHandle bufferHandle => exact ⟨_, rfl, rfl, rfl⟩
  | windowCommit windowHandle x y width height => cases hfd

/-- A message to all open endpoints reaches this client. -/
theorem deliver_open {clients : Nat → Client} {sender : Option Nat}
    (hopen : (clients client).isOpen = true) (hother : sender ≠ some client) :
    deliver clients sender sent client =
      { clients client with messages := (clients client).messages ++ [sent] } :=
  if_pos ⟨hopen, hother⟩

theorem deliver_waiting {clients : Nat → Client} {sender : Option Nat} :
    (deliver clients sender sent client).waiting = (clients client).waiting ∧
      (deliver clients sender sent client).isOpen = (clients client).isOpen := by
  unfold deliver
  split <;> exact ⟨rfl, rfl⟩

/-- A message with another handle does not count. -/
theorem deliver_withHandle {clients : Nat → Client} {sender : Option Nat}
    (h : sent.message.processHandle ≠ handle) :
    withHandle handle (deliver clients sender sent client).messages =
      withHandle handle (clients client).messages := by
  unfold deliver
  split
  · rw [withHandle_append, withHandle_cons_of_ne h, withHandle_nil, List.append_nil]
  · rfl

theorem deliver_sender {clients : Nat → Client} :
    deliver clients (some client) sent client = clients client :=
  if_neg fun h => h.2 rfl

/-! ## The steps of the compositor -/

/-- The compositor has made out the response to a request. -/
theorem Inv.answer {before after : List Sent} {response : Sent} {request : Request}
    {sender : Nat} (h : Inv s) (hclients : s'.clients = s.clients)
    (hreturned : s'.returned = s.returned) (hreply : s'.reply = some response)
    (hmessages : ∀ m ∈ s'.messages, m ∈ s.messages)
    (hfdMessages : ∀ m ∈ s'.fdMessages, m ∈ s.fdMessages)
    (hbefore : s.atCompositor = before ++ sent :: after)
    (hafter : s'.atCompositor = before ++ (after ++ [response]))
    (hmessage : sent.message = request.message sender)
    (hhandle : response.message.processHandle = sent.message.processHandle)
    (hrequest : response.request = sent.request)
    (htype : response.message.type = request.responseType) : Inv s' := by
  have hother : ∀ {k}, sent.message.processHandle ≠ k →
      withHandle k s'.atCompositor = withHandle k s.atCompositor := by
    intro k hk
    rw [hbefore, hafter, withHandle_append, withHandle_append, withHandle_append,
      withHandle_cons_of_ne hk, withHandle_cons_of_ne (hhandle ▸ hk), withHandle_nil,
      List.append_nil]
  have hsame : ∀ {k}, sent.message.processHandle = k →
      withHandle k s.atCompositor = withHandle k before ++ sent :: withHandle k after ∧
      withHandle k s'.atCompositor =
        withHandle k before ++ (withHandle k after ++ [response]) := by
    intro k hk
    rw [hbefore, hafter, withHandle_append, withHandle_append, withHandle_append,
      withHandle_cons_self hk, withHandle_cons_self (hhandle.trans hk), withHandle_nil]
    exact ⟨rfl, rfl⟩
  constructor
  · exact fun m hm => h.requests m (hmessages m hm)
  · exact fun m hm => h.fdRequests m (hfdMessages m hm)
  · intro m hm
    cases hreply.symm.trans hm
    rw [htype]
    exact responseType_isResponse request
  · intro client w hw
    rw [hclients] at hw
    obtain ⟨hsent, hopen, hcase⟩ := h.waiting client w hw
    rw [hclients]
    refine ⟨hsent, hopen, ?_⟩
    unfold Pending Arrived
    rw [hclients]
    by_cases hk : sent.message.processHandle = w.sent.message.processHandle
    · obtain ⟨hwas, hnow⟩ := hsame hk
      rcases hcase with ⟨hqueue, m, hone, hm⟩ | ⟨m, rest, hqueue, hm, hrest⟩
      · -- the request is the only message with its handle
        left
        rw [hwas] at hone
        have hlength := congrArg List.length hone
        simp only [List.length_append, List.length_cons, List.length_nil] at hlength
        have hnil : withHandle w.sent.message.processHandle before = [] :=
          List.length_eq_zero_iff.mp (by omega)
        have hnil' : withHandle w.sent.message.processHandle after = [] :=
          List.length_eq_zero_iff.mp (by omega)
        rw [hnil, hnil'] at hone hnow
        cases hone
        refine ⟨hqueue, response, hnow, .inr ⟨?_, ?_⟩⟩
        · rcases hm with rfl | hm
          · exact hrequest
          · exact hrequest.trans hm.1
        · rcases hm with rfl | hm
          · exact htype.trans (responseType_eq (hmessage.symm.trans hsent))
          · have hresponse := message_type sender request
            rw [← hmessage, hm.2, responseType_isResponse] at hresponse
            cases hresponse
      · right
        refine ⟨m, rest, hqueue, hm, fun hne => ?_⟩
        have hnone := (hrest hne).2
        rw [hwas] at hnone
        simp at hnone
    · rw [hother hk]
      exact hcase
  · intro client hne hnot
    rw [hclients] at hnot
    obtain ⟨hqueue, hnone⟩ := h.idle client hne hnot
    refine ⟨by rw [hclients]; exact hqueue, ?_⟩
    by_cases hk : sent.message.processHandle = client
    · rw [(hsame hk).1] at hnone
      simp at hnone
    · rw [hother hk]
      exact hnone
  · have hzero := h.zero
    by_cases hk : sent.message.processHandle = 0
    · obtain ⟨hwas, hnow⟩ := hsame hk
      rw [hwas] at hzero
      rw [hnow]
      simp only [List.length_append, List.length_cons, List.length_nil] at hzero ⊢
      omega
    · rw [hother hk]
      exact hzero
  · unfold Answered
    rw [hreturned]
    exact h.answered

theorem Inv.processMessages (h : Inv s) (heq : s.processMessages windows = some s') : Inv s' := by
  unfold System.processMessages at heq
  split at heq
  · rename_i sent rest hreply hmessages
    obtain ⟨request, sender, hmessage, hfd⟩ := h.requests sent (hmessages ▸ List.mem_cons_self)
    obtain ⟨response, hresponse, hhandle, htype⟩ :=
      @processMessage_spec σ sender windows s.compositor request hfd
    rw [← hmessage] at hresponse hhandle
    rcases hresult : processMessage windows s.compositor sent.message with ⟨c, result⟩
    rw [hresult] at hresponse heq
    cases hresponse
    cases heq
    have hbefore : s.atCompositor = [] ++ sent :: (rest ++ s.fdMessages) := by
      unfold System.atCompositor
      rw [hmessages, hreply]
      simp
    refine h.answer rfl rfl rfl ?_ (fun _ hm => hm) hbefore ?_ hmessage hhandle rfl htype
    · exact fun m hm => hmessages ▸ List.mem_cons_of_mem _ hm
    · unfold System.atCompositor
      simp
  · cases heq

theorem Inv.processFdMessages {fd : Int} (h : Inv s)
    (heq : s.processFdMessages windows fd = some s') : Inv s' := by
  unfold System.processFdMessages at heq
  split at heq
  · rename_i sent rest hreply hmessages
    obtain ⟨request, sender, hmessage, hfd⟩ := h.fdRequests sent (hmessages ▸ List.mem_cons_self)
    obtain ⟨response, hresponse, hhandle, htype⟩ :=
      @processFdMessage_spec σ sender windows s.compositor fd request hfd
    rw [← hmessage] at hresponse hhandle
    rcases hresult : processFdMessage windows s.compositor fd sent.message with ⟨c, result⟩
    rw [hresult] at hresponse heq
    cases hresponse
    cases heq
    have hbefore : s.atCompositor = s.messages ++ sent :: rest := by
      unfold System.atCompositor
      rw [hmessages, hreply]
      simp
    refine h.answer rfl rfl rfl (fun _ hm => hm) ?_ hbefore ?_ hmessage hhandle rfl htype
    · exact fun m hm => hmessages ▸ List.mem_cons_of_mem _ hm
    · unfold System.atCompositor
      simp
  · cases heq

/-- The response is sent to all clients. -/
theorem Inv.sendReply (h : Inv s) (heq : s.sendReply = some s') : Inv s' := by
  unfold System.sendReply at heq
  cases hreply : s.reply with
  | none =>
    rw [hreply] at heq
    cases heq
  | some sent =>
    rw [hreply] at heq
    cases heq
    let s' : System σ := { s with reply := none, clients := deliver s.clients none sent }
    have hat : ∀ k, withHandle k s.atCompositor =
        withHandle k s'.atCompositor ++ withHandle k [sent] := by
      intro k
      unfold System.atCompositor
      rw [hreply]
      show withHandle k (s.messages ++ s.fdMessages ++ [sent]) =
        withHandle k (s.messages ++ s.fdMessages ++ []) ++ withHandle k [sent]
      rw [List.append_nil, withHandle_append]
    have hother : ∀ {k}, sent.message.processHandle ≠ k →
        withHandle k s'.atCompositor = withHandle k s.atCompositor := by
      intro k hk
      rw [hat, withHandle_cons_of_ne hk, withHandle_nil, List.append_nil]
    have hsame : ∀ {k}, sent.message.processHandle = k →
        withHandle k s.atCompositor = withHandle k s'.atCompositor ++ [sent] := by
      intro k hk
      rw [hat, withHandle_cons_self hk, withHandle_nil]
    constructor
    · exact h.requests
    · exact h.fdRequests
    · intro m hm
      cases hm
    · intro client w hw
      have hw : (deliver s.clients none sent client).waiting = some w := hw
      rw [deliver_waiting.1] at hw
      obtain ⟨hmessage, hopen, hcase⟩ := h.waiting client w hw
      refine ⟨hmessage, ?_, ?_⟩
      · show (deliver s.clients none sent client).isOpen = true
        rw [deliver_waiting.2]
        exact hopen
      have hqueue : (s'.clients client).messages = (s.clients client).messages ++ [sent] := by
        show (deliver s.clients none sent client).messages = _
        rw [deliver_open hopen (by simp)]
      unfold Pending Arrived
      rw [hqueue]
      by_cases hk : sent.message.processHandle = w.sent.message.processHandle
      · rw [withHandle_append, withHandle_cons_self hk, withHandle_nil]
        right
        rcases hcase with ⟨hnil, m, hone, hm⟩ | ⟨m, rest, hcons, hm, hrest⟩
        · -- the response arrives
          rw [hsame hk] at hone
          obtain ⟨hnone, hlast⟩ := List.append_eq_singleton_iff.mp hone |>.resolve_right (by simp)
          cases hlast
          refine ⟨sent, [], by rw [hnil, List.nil_append], ?_, fun _ => ⟨rfl, hnone⟩⟩
          refine hm.resolve_left ?_
          rintro rfl
          have hresponse := h.reply _ hreply
          rw [hmessage, message_type] at hresponse
          cases hresponse
        · refine ⟨m, rest ++ [sent], by rw [hcons, List.cons_append], hm, fun hne => ?_⟩
          have hnone := (hrest hne).2
          rw [hsame hk] at hnone
          simp at hnone
      · rw [withHandle_append, withHandle_cons_of_ne hk, withHandle_nil, List.append_nil, hother hk]
        exact hcase
    · intro client hne hnot
      have hnot' : ∀ w, (s.clients client).waiting = some w →
          w.sent.message.processHandle ≠ client := by
        intro w hw
        apply hnot w
        show (deliver s.clients none sent client).waiting = some w
        rw [deliver_waiting.1]
        exact hw
      obtain ⟨hqueue, hnone⟩ := h.idle client hne hnot'
      have hk : sent.message.processHandle ≠ client := by
        intro hk
        rw [hsame hk] at hnone
        simp at hnone
      refine ⟨?_, hother hk ▸ hnone⟩
      show withHandle client (deliver s.clients none sent client).messages = []
      rw [deliver_withHandle hk]
      exact hqueue
    · have hzero := h.zero
      rw [hat, List.length_append] at hzero
      show (withHandle 0 s'.atCompositor).length ≤ 1
      omega
    · exact h.answered

/-! ## The steps of a client -/

theorem Inv.openChannel (h : Inv s) (heq : exec windows s (.openChannel client) = some s') :
    Inv s' := by
  obtain ⟨hclosed, heq⟩ := Option.ite_none_left_eq_some.mp heq
  cases heq
  let opened : Client := { s.clients client with isOpen := true }
  have hsame : ∀ c, (Function.update s.clients client opened c).messages =
        (s.clients c).messages ∧
      (Function.update s.clients client opened c).waiting = (s.clients c).waiting := by
    intro c
    by_cases hc : c = client
    · rw [hc, Function.update_self]
      exact ⟨rfl, rfl⟩
    · rw [Function.update_of_ne hc]
      exact ⟨rfl, rfl⟩
  refine ⟨h.requests, h.fdRequests, h.reply, ?_, ?_, h.zero, h.answered⟩
  · intro c w hw
    have hw : (Function.update s.clients client opened c).waiting = some w := hw
    rw [(hsame c).2] at hw
    obtain ⟨hmessage, hopen, hcase⟩ := h.waiting c w hw
    refine ⟨hmessage, ?_, ?_⟩
    · show (Function.update s.clients client opened c).isOpen = true
      by_cases hc : c = client
      · rw [hc, Function.update_self]
      · rw [Function.update_of_ne hc]
        exact hopen
    · unfold Pending Arrived
      show _ ∧ _ ∨ ∃ sent rest, withHandle _ (Function.update s.clients client opened c).messages =
        _ ∧ _
      rw [(hsame c).1]
      exact hcase
  · intro c hne hnot
    have hidle := h.idle c hne fun w hw => hnot w ((hsame c).2.trans hw)
    unfold Clear
    show withHandle c (Function.update s.clients client opened c).messages = [] ∧ _
    rw [(hsame c).1]
    exact hidle

/-- A client takes the next message. -/
theorem Inv.receive (h : Inv s) (heq : s.receive client = some s') : Inv s' := by
  unfold System.receive at heq
  split at heq
  swap
  · cases heq
  rename_i w sent rest hw hqueue
  obtain ⟨hmessage, hopen, hcase⟩ := h.waiting client w hw
  dsimp only at heq
  split at heq
  · rename_i hk
    cases heq
    unfold Pending Arrived at hcase
    rw [hqueue, withHandle_cons_self hk] at hcase
    -- it is the response
    obtain ⟨m, rest', hcons, hm, hrest⟩ := hcase.resolve_left fun hpending => by
      cases hpending.1
    obtain ⟨rfl, rfl⟩ := List.cons.inj hcons
    let done : Client := { s.clients client with messages := rest, waiting := none }
    refine ⟨h.requests, h.fdRequests, h.reply, ?_, ?_, h.zero, ?_⟩
    · intro c w' hw'
      have hw' : (Function.update s.clients client done c).waiting = some w' := hw'
      have hc : c ≠ client := by
        rintro rfl
        rw [Function.update_self] at hw'
        cases hw'
      rw [Function.update_of_ne hc] at hw'
      obtain ⟨hmessage', hopen', hcase'⟩ := h.waiting c w' hw'
      have hsame : Function.update s.clients client done c = s.clients c :=
        Function.update_of_ne hc ..
      unfold Pending Arrived
      show _ ∧ (Function.update s.clients client done c).isOpen = true ∧
        (withHandle _ (Function.update s.clients client done c).messages = [] ∧ _ ∨
          ∃ sent rest, withHandle _ (Function.update s.clients client done c).messages = _ ∧ _)
      rw [hsame]
      exact ⟨hmessage', hopen', hcase'⟩
    · intro c hne hnot
      unfold Clear
      show withHandle c (Function.update s.clients client done c).messages = [] ∧ _
      by_cases hc : c = client
      · subst hc
        rw [Function.update_self]
        by_cases hown : w.sent.message.processHandle = c
        · obtain ⟨hnil, hnone⟩ := hrest (by rw [hown]; exact_mod_cast hne)
          rw [hown] at hnil hnone
          exact ⟨hnil, hnone⟩
        · have hidle := h.idle c hne fun w' hw' => by
            cases hw.symm.trans hw'
            exact hown
          unfold Clear at hidle
          rw [hqueue, withHandle_cons_of_ne (hk.trans_ne hown)] at hidle
          exact hidle
      · rw [Function.update_of_ne hc]
        refine h.idle c hne fun w' hw' => hnot w' ?_
        show (Function.update s.clients client done c).waiting = some w'
        rw [Function.update_of_ne hc]
        exact hw'
    · intro p hp
      rcases List.mem_append.mp hp with hold | hnew
      · exact h.answered p hold
      · rw [List.mem_singleton.mp hnew]
        exact hm
  · rename_i hk
    cases heq
    let next : Client := { s.clients client with messages := rest }
    have hsame : ∀ c, (Function.update s.clients client next c).waiting = (s.clients c).waiting ∧
        (Function.update s.clients client next c).isOpen = (s.clients c).isOpen := by
      intro c
      by_cases hc : c = client
      · rw [hc, Function.update_self]
        exact ⟨rfl, rfl⟩
      · rw [Function.update_of_ne hc]
        exact ⟨rfl, rfl⟩
    refine ⟨h.requests, h.fdRequests, h.reply, ?_, ?_, h.zero, h.answered⟩
    · intro c w' hw'
      have hwas : (s.clients c).waiting = some w' := (hsame c).1.symm.trans hw'
      obtain ⟨hmessage', hopen', hcase'⟩ := h.waiting c w' hwas
      refine ⟨hmessage', (hsame c).2.trans hopen', ?_⟩
      have hfilter : withHandle w'.sent.message.processHandle
          (Function.update s.clients client next c).messages =
          withHandle w'.sent.message.processHandle (s.clients c).messages := by
        by_cases hc : c = client
        · subst hc
          cases hw.symm.trans hwas
          rw [Function.update_self, hqueue, withHandle_cons_of_ne hk]
        · rw [Function.update_of_ne hc]
      unfold Pending Arrived
      show withHandle _ (Function.update s.clients client next c).messages = [] ∧ _ ∨
        ∃ sent rest, withHandle _ (Function.update s.clients client next c).messages = _ ∧ _
      rw [hfilter]
      exact hcase'
    · intro c hne hnot
      obtain ⟨hclear, hnone⟩ := h.idle c hne fun w' hw' => hnot w' ((hsame c).1.trans hw')
      refine ⟨?_, hnone⟩
      show withHandle c (Function.update s.clients client next c).messages = []
      by_cases hc : c = client
      · subst hc
        rw [Function.update_self]
        rw [hqueue, withHandle_eq_nil_iff] at hclear
        rw [withHandle_eq_nil_iff]
        exact fun m hm => hclear m (List.mem_cons_of_mem _ hm)
      · rw [Function.update_of_ne hc]
        exact hclear

/-- The message of a call, with its number. -/
def System.outgoing (s : System σ) (client : Nat) (request : Request) : Sent :=
  ⟨request.message client, s.requests⟩

theorem send_atCompositor (s : System σ) (client : Nat) (request : Request) :
    ∃ before after, s.atCompositor = before ++ after ∧
      (s.send client request).atCompositor = before ++ s.outgoing client request :: after := by
  unfold System.send System.outgoing
  cases hfd : request.sendsFd with
  | true =>
    refine ⟨s.messages ++ s.fdMessages, s.reply.toList, rfl, ?_⟩
    show s.messages ++ (s.fdMessages ++ [_]) ++ s.reply.toList = _
    simp
  | false =>
    refine ⟨s.messages, s.fdMessages ++ s.reply.toList, List.append_assoc .., ?_⟩
    show s.messages ++ [_] ++ s.fdMessages ++ s.reply.toList = _
    simp

theorem send_self (s : System σ) (client : Nat) (request : Request) :
    (s.send client request).clients client =
      { s.clients client with waiting := some ⟨request, s.outgoing client request⟩ } := by
  unfold System.send System.outgoing
  cases hfd : request.sendsFd with
  | true => exact Function.update_self ..
  | false => exact deliver_sender.trans (Function.update_self ..)

theorem send_other {c : Nat} (s : System σ) (request : Request) (hc : c ≠ client) :
    ∃ extra, ((s.send client request).clients c).messages = (s.clients c).messages ++ extra ∧
      (∀ m ∈ extra, m = s.outgoing client request) ∧
      ((s.send client request).clients c).waiting = (s.clients c).waiting ∧
      ((s.send client request).clients c).isOpen = (s.clients c).isOpen := by
  unfold System.send System.outgoing
  cases hfd : request.sendsFd with
  | true =>
    refine ⟨[], ?_, by simp, ?_, ?_⟩
    · show (Function.update s.clients client _ c).messages = _
      rw [Function.update_of_ne hc, List.append_nil]
    · show (Function.update s.clients client _ c).waiting = _
      rw [Function.update_of_ne hc]
    · show (Function.update s.clients client _ c).isOpen = _
      rw [Function.update_of_ne hc]
  | false =>
    let sent : Sent := ⟨request.message client, s.requests⟩
    let waiting : Client := { s.clients client with waiting := some ⟨request, sent⟩ }
    show ∃ extra,
      (deliver (Function.update s.clients client waiting) (some client) sent c).messages = _ ∧ _ ∧
      (deliver (Function.update s.clients client waiting) (some client) sent c).waiting = _ ∧
      (deliver (Function.update s.clients client waiting) (some client) sent c).isOpen = _
    rw [deliver_waiting.1, deliver_waiting.2]
    unfold deliver
    rw [Function.update_of_ne hc]
    split
    · exact ⟨[sent], rfl, by simp [sent], rfl, rfl⟩
    · exact ⟨[], (List.append_nil _).symm, by simp, rfl, rfl⟩

/-- A request is sent when no message with its handle is left over. -/
theorem Inv.send {request : Request} (h : Inv s)
    (heq : exec windows s (.send client request) = some s')
    (hundisturbed : Undisturbed s (.send client request)) : Inv s' := by
  obtain ⟨⟨hopen, hwait⟩, heq⟩ := Option.ite_none_right_eq_some.mp heq
  cases heq
  let sent := s.outgoing client request
  obtain ⟨before, after, hbefore, hafter⟩ := send_atCompositor s client request
  have hself := send_self s client request
  -- what is sent counts only under its own handle
  have hother : ∀ {k}, sent.message.processHandle ≠ k →
      withHandle k (s.send client request).atCompositor = withHandle k s.atCompositor := by
    intro k hk
    rw [hbefore, hafter, withHandle_append, withHandle_append, withHandle_cons_of_ne hk]
  have hqueues : ∀ {k} (c : Nat), sent.message.processHandle ≠ k →
      withHandle k ((s.send client request).clients c).messages =
        withHandle k (s.clients c).messages := by
    intro k c hk
    by_cases hc : c = client
    · rw [hc, hself]
    · obtain ⟨extra, hmessages, hextra, _, _⟩ := send_other s request hc
      have hnone : withHandle k extra = [] :=
        withHandle_eq_nil_iff.mpr fun m hm => hextra m hm ▸ hk
      rw [hmessages, withHandle_append, hnone, List.append_nil]
  have hclear : withHandle sent.message.processHandle (s.clients client).messages = [] ∧
      withHandle sent.message.processHandle s.atCompositor = [] := by
    by_cases hzero : sent.message.processHandle = 0
    · rw [hzero, withHandle_eq_nil_iff, withHandle_eq_nil_iff]
      exact hundisturbed hzero
    · have hown := ((message_handle client request).resolve_left hzero).2
      have hne : client ≠ 0 := by
        rintro rfl
        exact hzero hown
      have hidle := h.idle client hne fun w hw => by rw [hwait] at hw; cases hw
      have hown : sent.message.processHandle = client := hown
      rw [hown]
      exact hidle
  have hone : withHandle sent.message.processHandle (s.send client request).atCompositor =
      [sent] := by
    have hnone := hclear.2
    rw [hbefore, withHandle_append, List.append_eq_nil_iff] at hnone
    rw [hafter, withHandle_append, withHandle_cons_self rfl, hnone.1, hnone.2, List.nil_append]
  constructor
  · unfold System.send
    cases hfd : request.sendsFd with
    | true => exact h.requests
    | false =>
      intro m hm
      rcases List.mem_append.mp hm with hold | hnew
      · exact h.requests m hold
      · rw [List.mem_singleton.mp hnew]
        exact ⟨request, client, rfl, hfd⟩
  · unfold System.send
    cases hfd : request.sendsFd with
    | false => exact h.fdRequests
    | true =>
      intro m hm
      rcases List.mem_append.mp hm with hold | hnew
      · exact h.fdRequests m hold
      · rw [List.mem_singleton.mp hnew]
        exact ⟨request, client, rfl, hfd⟩
  · unfold System.send
    cases hfd : request.sendsFd <;> exact h.reply
  · intro c w hw
    by_cases hc : c = client
    · subst hc
      rw [hself] at hw
      cases hw
      refine ⟨rfl, by rw [hself]; exact hopen, .inl ⟨?_, sent, hone, .inl rfl⟩⟩
      rw [hself]
      exact hclear.1
    · obtain ⟨extra, hmessages, hextra, hwaiting, hisOpen⟩ := send_other s request hc
      rw [hwaiting] at hw
      obtain ⟨hmessage, hopen', hcase⟩ := h.waiting c w hw
      refine ⟨hmessage, hisOpen.trans hopen', ?_⟩
      by_cases hk : sent.message.processHandle = w.sent.message.processHandle
      · -- both carry 0, as the handles of the two clients differ
        have hzero : w.sent.message.processHandle = 0 := by
          have hw' := message_handle c w.request
          have hsent' : sent.message.processHandle = 0 ∨ sent.message.processHandle = client :=
            (message_handle client request).imp_right And.right
          rw [← hmessage] at hw'
          omega
        rcases hcase with ⟨_, m, hpending, _⟩ | ⟨m, rest, hcons, hm, _⟩
        · rw [← hk, hclear.2] at hpending
          cases hpending
        · right
          refine ⟨m, rest ++ withHandle w.sent.message.processHandle extra, ?_, hm, fun hne =>
            absurd hzero hne⟩
          rw [hmessages, withHandle_append, hcons, List.cons_append]
      · unfold Pending Arrived
        rw [hqueues c hk, hother hk]
        exact hcase
  · intro c hne hnot
    have hk : sent.message.processHandle ≠ c := by
      rcases message_handle client request with hzero | ⟨_, hown⟩
      · have hzero : sent.message.processHandle = 0 := hzero
        omega
      · by_cases hc : c = client
        · subst hc
          exact hnot _ (congrArg Client.waiting hself)
        · show (request.message client).processHandle ≠ c
          omega
    have hidle : Clear s c := by
      apply h.idle c hne
      intro w hw
      by_cases hc : c = client
      · rw [hc, hwait] at hw
        cases hw
      · obtain ⟨_, _, _, hwaiting, _⟩ := send_other s request hc
        exact hnot w (hwaiting.trans hw)
    unfold Clear
    rw [hqueues c hk, hother hk]
    exact hidle
  · by_cases hzero : sent.message.processHandle = 0
    · rw [← hzero, hone]
      exact Nat.le_refl 1
    · rw [hother hzero]
      exact h.zero
  · unfold System.send
    cases hfd : request.sendsFd <;> exact h.answered

/-! ## Runs -/

theorem Inv.of_initial (h : Initial s) : Inv s := by
  obtain ⟨c, rfl⟩ := h
  constructor
  · exact List.forall_mem_nil _
  · exact List.forall_mem_nil _
  · intro sent hsent
    cases hsent
  · intro client w hw
    cases hw
  · exact fun _ _ _ => ⟨rfl, rfl⟩
  · exact Nat.zero_le 1
  · exact List.forall_mem_nil _

theorem Inv.step {action : Action} (h : Inv s) (hundisturbed : Undisturbed s action)
    (heq : Step windows s action s') : Inv s' := by
  cases action with
  | openChannel client => exact h.openChannel heq
  | send client request => exact h.send heq hundisturbed
  | receive client => exact h.receive heq
  | processMessages => exact h.processMessages heq
  | processFdMessages fd => exact h.processFdMessages heq
  | sendReply => exact h.sendReply heq

end

/-- The calls return their own responses as long as a request with process
handle 0 is only sent when no message with it is left over. -/
theorem replies_answer_undisturbed {σ : Type} (windows : Windows σ)
    (history : List (System σ × Action)) (s : System σ)
    (hrun : Run Initial (Step windows) history s)
    (hundisturbed : ∀ p ∈ history, Undisturbed p.1 p.2) : Answered s :=
  (hrun.invariant_of_cond (fun _ => Inv.of_initial)
    (fun _ _ _ hinv hcond hstep => hinv.step hcond hstep) hundisturbed).answered

/-- A compositor on which every call succeeds. -/
def noWindows : Windows Unit where
  create := fun c _ _ _ => (c, 0, 0)
  attachBuffer := fun c _ _ => (c, 0)
  commit := fun c _ _ _ _ _ => (c, 0)

def idleSystem : System Unit := ⟨(), [], [], none, fun _ => ⟨false, [], none⟩, 0, []⟩

theorem idleSystem_initial : Initial idleSystem := ⟨(), rfl⟩

instance decidableUndisturbed {σ : Type} (s : System σ) :
    ∀ action, Decidable (Undisturbed s action)
  | .send client request => inferInstanceAs (Decidable
      ((request.message client).processHandle = 0 →
        (∀ sent ∈ (s.clients client).messages, sent.message.processHandle ≠ 0) ∧
          ∀ sent ∈ s.atCompositor, sent.message.processHandle ≠ 0))
  | .openChannel _ | .receive _ | .processMessages | .processFdMessages _ | .sendReply =>
    inferInstanceAs (Decidable True)

/-- An undisturbed step, executed. -/
def execUndisturbed (s : System Unit) (action : Action) : Option (System Unit) :=
  if Undisturbed s action then exec noWindows s action else none

/-- A client creates a window and attaches a buffer to it. -/
theorem two_calls_answered : ∃ s : System Unit, s.returned.length = 2 ∧ Answered s := by
  let Checked : System Unit → Action → System Unit → Prop :=
    fun s action s' => Undisturbed s action ∧ Step noWindows s action s'
  have hexec : ∀ s action s', execUndisturbed s action = some s' → Checked s action s' :=
    fun _ _ _ heq => Option.ite_none_right_eq_some.mp heq
  obtain ⟨history, s, hrun, hlength⟩ := Run.of_check hexec idleSystem_initial
    [.openChannel 1, .send 1 (.windowCreate [] 16 16), .processMessages, .sendReply, .receive 1,
      .send 1 (.windowAttachBuffer 0 5), .processFdMessages 7, .sendReply, .receive 1]
    (fun s => s.returned.length = 2) (by decide)
  obtain ⟨hrun, hundisturbed⟩ := hrun.split
  exact ⟨s, of_decide_eq_true hlength,
    replies_answer_undisturbed noWindows history s hrun hundisturbed⟩

/-- Two clients attach a buffer each, and the second takes the response to
the first. -/
theorem attach_reply_mistaken : ¬ ∀ (σ : Type) (windows : Windows σ)
    (history : List (System σ × Action)) (s : System σ),
    Run Initial (Step windows) history s → Answered s := by
  intro h
  have hexec : ∀ s action s', exec noWindows s action = some s' → Step noWindows s action s' :=
    fun _ _ _ heq => heq
  obtain ⟨history, s, hrun, hmistaken⟩ := Run.of_check hexec idleSystem_initial
    [.openChannel 1, .openChannel 2, .send 1 (.windowAttachBuffer 0 5),
      .send 2 (.windowAttachBuffer 1 5), .processFdMessages 7, .sendReply, .receive 2]
    (fun s => s.returned.any fun p => p.2.request ≠ p.1.sent.request) (by decide)
  obtain ⟨p, hp, hne⟩ := List.any_eq_true.mp hmistaken
  exact of_decide_eq_true hne (h Unit noWindows history s hrun p hp).1

end ZOs.Compositor
