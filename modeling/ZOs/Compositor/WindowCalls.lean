import ZOs.Lib.Linearization
import ZOs.Compositor.Replies

/-!
# The windows as one object

The clients share the windows of the compositor. Their calls overlap, and
every message goes past all of them; still the calls have the results of some
order in which they are done one at a time. A call takes effect where the
compositor makes out its response. The calls that carry the handle of their
client are never answered by anything else (`Own`); the others carry 0, and
return their own response in undisturbed runs.
-/

namespace ZOs.Compositor

open Runs Linearization

variable {σ : Type}

/-- A call of a client, done at once. A descriptor comes to the compositor
under some handle of its own. -/
inductive Serves (windows : Windows σ) (c : σ) : Nat × Request → Payload → σ → Prop
  | windowCreate {client : Nat} {name : List UInt8} {width height : Word} {c' : σ}
      {result windowHandle : Int} :
      windows.create c name width height = (c', result, windowHandle) →
      Serves windows c (client, .windowCreate name width height)
        (.createWindowResponse (statusOf result) windowHandle) c'
  | windowAttachBuffer {client : Nat} {windowHandle bufferHandle fdToReceive : Int} {c' : σ}
      {result : Int} :
      windows.attachBuffer c windowHandle fdToReceive = (c', result) →
      Serves windows c (client, .windowAttachBuffer windowHandle bufferHandle)
        (.attachBufferResponse (statusOf result)) c'
  | windowCommit {client : Nat} {windowHandle : Int} {x y width height : Word} {c' : σ}
      {result : Int} :
      windows.commit c windowHandle x y width height = (c', result) →
      Serves windows c (client, .windowCommit windowHandle x y width height)
        (.commitResponse (statusOf result)) c'

/-! ## What the clients see -/

/-- The call that returns when a client receives, and what it takes for its
response. -/
def System.returns (s : System σ) (client : Nat) : Option (Waiting × Sent) :=
  match (s.clients client).waiting, (s.clients client).messages with
  | some waiting, sent :: _ =>
    if sent.message.processHandle = waiting.sent.message.processHandle then some (waiting, sent)
    else none
  | _, _ => none

/-- A call is sent, or returns; `counts` says of which the return is looked at. -/
def eventOf (counts : Waiting → Bool) (s : System σ) :
    Action → List (Event Nat (Nat × Request) Payload)
  | .send client request => [.invoke s.requests (client, request)]
  | .receive client =>
    match s.returns client with
    | some (waiting, sent) =>
      if counts waiting then [.respond waiting.sent.request sent.message.payload] else []
    | none => []
  | _ => []

/-- The calls of a run, and their returns. -/
def events (counts : Waiting → Bool) :
    List (System σ × Action) → List (Event Nat (Nat × Request) Payload)
  | [] => []
  | (s, action) :: history => events counts history ++ eventOf counts s action

/-- The call carries the handle of its client, and not 0. -/
def Waiting.hasOwnHandle (w : Waiting) : Bool := w.sent.message.processHandle ≠ 0

/-- Every call counts. -/
def Waiting.isCall (_ : Waiting) : Bool := true

/-- Before any client has opened the channel. -/
def System.boot (c : σ) : System σ := ⟨c, [], [], none, fun _ => ⟨false, [], none⟩, 0, []⟩

section

variable {windows : Windows σ} {c : σ} {s s' : System σ} {client : Nat} {request : Request}
  {sent response : Sent} {w : Waiting} {counts : Waiting → Bool}
  {history : List (System σ × Action)} {order : List (Entry Nat (Nat × Request) Payload)}

/-- The call of the message was made, and the message is the one it sends. -/
def Made (counts : Waiting → Bool) (history : List (System σ × Action)) (sendsFd : Bool)
    (sent : Sent) : Prop :=
  ∃ client request, sent.message = Request.message client request ∧ request.sendsFd = sendsFd ∧
    Event.invoke sent.request (client, request) ∈ events counts history

/-! ## The compositor makes out a response -/

/-- The message of a call is taken out of its queue, and the call is done. -/
structure Served (windows : Windows σ) (s s' : System σ) (client : Nat) (request : Request)
    (sent response : Sent) : Prop where
  message : sent.message = request.message client
  serves : Serves windows s.compositor (client, request) response.message.payload s'.compositor
  handle : response.message.processHandle = sent.message.processHandle
  number : response.request = sent.request
  isResponse : response.message.type.isResponse = true
  reply : s.reply = none
  reply' : s'.reply = some response
  clients : s'.clients = s.clients
  requests : s'.requests = s.requests
  queues : s.messages = sent :: s'.messages ∧ s.fdMessages = s'.fdMessages ∨
    s.messages = s'.messages ∧ s.fdMessages = sent :: s'.fdMessages

theorem processMessage_serves (hfd : request.sendsFd = false) {c' : σ} {result : Option Message}
    (h : processMessage windows c (request.message client) = (c', result)) :
    ∃ response, result = some response ∧ Serves windows c (client, request) response.payload c' ∧
      response.processHandle = (request.message client).processHandle ∧
      response.type.isResponse = true := by
  cases request with
  | windowCreate name width height =>
    cases h
    exact ⟨_, rfl, .windowCreate rfl, rfl, rfl⟩
  | windowAttachBuffer windowHandle bufferHandle => cases hfd
  | windowCommit windowHandle x y width height =>
    cases h
    exact ⟨_, rfl, .windowCommit rfl, rfl, rfl⟩

theorem processFdMessage_serves (hfd : request.sendsFd = true) {fd : Int} {c' : σ}
    {result : Option Message}
    (h : processFdMessage windows c fd (request.message client) = (c', result)) :
    ∃ response, result = some response ∧ Serves windows c (client, request) response.payload c' ∧
      response.processHandle = (request.message client).processHandle ∧
      response.type.isResponse = true := by
  cases request with
  | windowCreate name width height => cases hfd
  | windowAttachBuffer windowHandle bufferHandle =>
    cases h
    exact ⟨_, rfl, .windowAttachBuffer rfl, rfl, rfl⟩
  | windowCommit windowHandle x y width height => cases hfd

theorem processMessages_served (heq : s.processMessages windows = some s')
    (hmade : ∀ sent ∈ s.messages, Made counts history false sent) :
    ∃ client request sent response,
      Event.invoke sent.request (client, request) ∈ events counts history ∧
        Served windows s s' client request sent response := by
  unfold System.processMessages at heq
  split at heq
  · rename_i sent rest hreply hmessages
    obtain ⟨client, request, hmessage, hfd, hinvoked⟩ := hmade sent (by simp [hmessages])
    rcases hresult : processMessage windows s.compositor sent.message with ⟨c', result⟩
    rw [hresult] at heq
    cases heq
    rw [hmessage] at hresult
    obtain ⟨response, rfl, hserves, hhandle, htype⟩ := processMessage_serves hfd hresult
    refine ⟨client, request, sent, ⟨response, sent.request⟩, hinvoked, ?_⟩
    exact ⟨hmessage, hserves, hhandle.trans (by rw [hmessage]), rfl, htype, hreply, rfl, rfl, rfl,
      .inl ⟨hmessages, rfl⟩⟩
  · cases heq

theorem processFdMessages_served {fd : Int} (heq : s.processFdMessages windows fd = some s')
    (hmade : ∀ sent ∈ s.fdMessages, Made counts history true sent) :
    ∃ client request sent response,
      Event.invoke sent.request (client, request) ∈ events counts history ∧
        Served windows s s' client request sent response := by
  unfold System.processFdMessages at heq
  split at heq
  · rename_i sent rest hreply hmessages
    obtain ⟨client, request, hmessage, hfd, hinvoked⟩ := hmade sent (by simp [hmessages])
    rcases hresult : processFdMessage windows s.compositor fd sent.message with ⟨c', result⟩
    rw [hresult] at heq
    cases heq
    rw [hmessage] at hresult
    obtain ⟨response, rfl, hserves, hhandle, htype⟩ := processFdMessage_serves hfd hresult
    refine ⟨client, request, sent, ⟨response, sent.request⟩, hinvoked, ?_⟩
    exact ⟨hmessage, hserves, hhandle.trans (by rw [hmessage]), rfl, htype, hreply, rfl, rfl, rfl,
      .inr ⟨rfl, hmessages⟩⟩
  · cases heq

/-! ## A message is received -/

/-- A client takes the next message, and its call may return with it. -/
structure Received (s s' : System σ) (client : Nat) (w : Waiting) (sent : Sent)
    (rest : List Sent) : Prop where
  waiting : (s.clients client).waiting = some w
  messages : (s.clients client).messages = sent :: rest
  self : s'.clients client = { s.clients client with
    messages := rest
    waiting := if sent.message.processHandle = w.sent.message.processHandle then none else some w }
  other : ∀ client', client' ≠ client → s'.clients client' = s.clients client'
  compositor : s'.compositor = s.compositor
  messages' : s'.messages = s.messages
  fdMessages : s'.fdMessages = s.fdMessages
  reply : s'.reply = s.reply
  requests : s'.requests = s.requests

theorem receive_received (heq : s.receive client = some s') :
    ∃ w sent rest, Received s s' client w sent rest := by
  unfold System.receive at heq
  split at heq
  · rename_i w sent rest hw hmessages
    refine ⟨w, sent, rest, ?_⟩
    split at heq <;> cases heq
    all_goals rename_i hk
    · refine ⟨hw, hmessages, ?_, fun c hc => Function.update_of_ne hc .., rfl, rfl, rfl, rfl, rfl⟩
      show Function.update s.clients client _ client = _
      rw [Function.update_self, if_pos hk]
    · refine ⟨hw, hmessages, ?_, fun c hc => Function.update_of_ne hc .., rfl, rfl, rfl, rfl, rfl⟩
      show Function.update s.clients client _ client = _
      rw [Function.update_self, if_neg hk, hw]
  · cases heq

theorem Received.returns {rest : List Sent} (h : Received s s' client w sent rest) :
    s.returns client =
      if sent.message.processHandle = w.sent.message.processHandle then some (w, sent)
      else none := by
  unfold System.returns
  rw [h.waiting, h.messages]

/-! ## Messages that carry a client's own handle -/

/-- All messages with the handle of a client that can still come to it. -/
def System.inFlight (s : System σ) (client : Nat) : List Sent :=
  withHandle client s.atCompositor ++ withHandle client (s.clients client).messages

/-- At most one message is under way with the handle of a client: that of the
call it waits in, or the response. -/
def OnlyOwn (s : System σ) (client : Nat) : Prop :=
  s.inFlight client = [] ∨ ∃ w m, (s.clients client).waiting = some w ∧
    w.sent.message.processHandle = client ∧ s.inFlight client = [m] ∧ m.request = w.sent.request

structure Own (s : System σ) : Prop where
  waiting : ∀ client w, (s.clients client).waiting = some w →
    w.sent.message = w.request.message client ∧ (s.clients client).isOpen = true
  queues : ∀ client : Nat, client ≠ 0 → ∀ m ∈ (s.clients client).messages,
    m.message.processHandle = client → m.message.type.isResponse = true
  inFlight : ∀ client : Nat, client ≠ 0 → OnlyOwn s client

/-- What a client has and what the compositor has for it are the same. -/
theorem OnlyOwn.congr (h : OnlyOwn s client)
    (hwaiting : (s'.clients client).waiting = (s.clients client).waiting)
    (hinFlight : s'.inFlight client = s.inFlight client) : OnlyOwn s' client := by
  unfold OnlyOwn
  rw [hwaiting, hinFlight]
  exact h

theorem Served.atCompositor (h : Served windows s s' client request sent response) :
    ∃ before after, s.atCompositor = before ++ sent :: after ∧
      s'.atCompositor = before ++ (after ++ [response]) := by
  unfold System.atCompositor
  rw [h.reply, h.reply']
  rcases h.queues with ⟨hmessages, hfd⟩ | ⟨hmessages, hfd⟩
  · refine ⟨[], s'.messages ++ s'.fdMessages, ?_, ?_⟩
    · simp [hmessages, hfd]
    · simp
  · refine ⟨s'.messages, s'.fdMessages, ?_, ?_⟩
    · simp [hmessages, hfd]
    · simp

/-- The response goes on under the handle and the number of the request. -/
theorem Own.served (h : Own s) (hserved : Served windows s s' client request sent response) :
    Own s' := by
  obtain ⟨before, after, hbefore, hafter⟩ := hserved.atCompositor
  refine ⟨by rw [hserved.clients]; exact h.waiting, by rw [hserved.clients]; exact h.queues, ?_⟩
  intro k hk
  by_cases hhandle : sent.message.processHandle = k
  · have hwas : s.inFlight k = withHandle k before ++ sent :: (withHandle k after ++
        withHandle k (s.clients k).messages) := by
      unfold System.inFlight
      rw [hbefore, withHandle_append, withHandle_cons_self hhandle]
      simp
    have hnow : s'.inFlight k = withHandle k before ++ (withHandle k after ++
        response :: withHandle k (s.clients k).messages) := by
      unfold System.inFlight
      rw [hafter, hserved.clients, withHandle_append, withHandle_append,
        withHandle_cons_self (hserved.handle.trans hhandle)]
      simp
    rcases h.inFlight k hk with hnone | ⟨w, m, hw, hown, hone, hnumber⟩
    · rw [hwas] at hnone
      simp at hnone
    -- the request was the only message
    · rw [hwas] at hone
      have hlength := congrArg List.length hone
      simp only [List.length_append, List.length_cons, List.length_nil] at hlength
      have hbefore' : withHandle k before = [] := List.length_eq_zero_iff.mp (by omega)
      have hafter' : withHandle k after = [] := List.length_eq_zero_iff.mp (by omega)
      have hqueue : withHandle k (s.clients k).messages = [] :=
        List.length_eq_zero_iff.mp (by omega)
      rw [hbefore', hafter', hqueue] at hone hnow
      cases hone
      exact .inr ⟨w, response, by rw [hserved.clients]; exact hw, hown, hnow,
        hserved.number.trans hnumber⟩
  · refine (h.inFlight k hk).congr (by rw [hserved.clients]) ?_
    unfold System.inFlight
    rw [hserved.clients, hbefore, hafter, withHandle_append, withHandle_append, withHandle_append,
      withHandle_cons_of_ne hhandle, withHandle_cons_of_ne (by rw [hserved.handle]; exact hhandle)]
    simp

theorem Own.openChannel (h : Own s) (heq : exec windows s (.openChannel client) = some s') :
    Own s' := by
  obtain ⟨_, heq⟩ := Option.ite_none_left_eq_some.mp heq
  cases heq
  let opened : Client := { s.clients client with isOpen := true }
  have hsame : ∀ c, (Function.update s.clients client opened c).messages =
        (s.clients c).messages ∧
      (Function.update s.clients client opened c).waiting = (s.clients c).waiting ∧
      ((s.clients c).isOpen = true →
        (Function.update s.clients client opened c).isOpen = true) := by
    intro c
    by_cases hc : c = client
    · rw [hc, Function.update_self]
      exact ⟨rfl, rfl, fun _ => rfl⟩
    · rw [Function.update_of_ne hc]
      exact ⟨rfl, rfl, id⟩
  constructor
  · intro c w hw
    obtain ⟨hmessage, hopen⟩ := h.waiting c w ((hsame c).2.1.symm.trans hw)
    exact ⟨hmessage, (hsame c).2.2 hopen⟩
  · intro c hc m hm
    exact h.queues c hc m ((hsame c).1 ▸ hm)
  · intro c hc
    refine (h.inFlight c hc).congr (hsame c).2.1 ?_
    unfold System.inFlight
    show withHandle c s.atCompositor ++
      withHandle c (Function.update s.clients client opened c).messages = _
    rw [(hsame c).1]

/-- A call is sent by a client that is not in a call. -/
theorem Own.send (h : Own s) (heq : exec windows s (.send client request) = some s') : Own s' := by
  obtain ⟨⟨hopen, hwait⟩, heq⟩ := Option.ite_none_right_eq_some.mp heq
  cases heq
  obtain ⟨before, after, hbefore, hafter⟩ := send_atCompositor s client request
  have hself := send_self s client request
  have hsent : ∀ k : Nat, k ≠ 0 → k ≠ client →
      (s.outgoing client request).message.processHandle ≠ k := by
    intro k hk hne heq
    have heq : (request.message client).processHandle = k := heq
    rcases message_handle client request with hzero | ⟨_, hown⟩ <;> omega
  constructor
  · intro k w hw
    by_cases hk : k = client
    · subst hk
      rw [hself] at hw ⊢
      cases hw
      exact ⟨rfl, hopen⟩
    · obtain ⟨_, _, _, hwaiting, hisOpen⟩ := send_other s request hk
      rw [hwaiting] at hw
      rw [hisOpen]
      exact h.waiting k w hw
  · intro k hk m hm hhandle
    by_cases hc : k = client
    · subst hc
      rw [hself] at hm
      exact h.queues k hk m hm hhandle
    · obtain ⟨extra, hmessages, hextra, _, _⟩ := send_other s request hc
      rw [hmessages, List.mem_append] at hm
      rcases hm with hm | hm
      · exact h.queues k hk m hm hhandle
      · rw [hextra m hm] at hhandle
        exact absurd hhandle (hsent k hk hc)
  · intro k hk
    by_cases hc : k = client
    · subst hc
      have hnone : s.inFlight k = [] := by
        rcases h.inFlight k hk with hnone | ⟨w, _, hw, _⟩
        · exact hnone
        · rw [hwait] at hw
          cases hw
      have hnow : (s.send k request).inFlight k = withHandle k [s.outgoing k request] := by
        unfold System.inFlight at hnone ⊢
        rw [hbefore, withHandle_append] at hnone
        simp only [List.append_eq_nil_iff] at hnone
        rw [hafter, hself, withHandle_append, hnone.1.1, hnone.2, ← List.singleton_append,
          withHandle_append, hnone.1.2]
        simp
      by_cases hown : (s.outgoing k request).message.processHandle = k
      · rw [withHandle_cons_self hown] at hnow
        exact .inr ⟨_, _, congrArg Client.waiting hself, hown, hnow, rfl⟩
      · rw [withHandle_cons_of_ne hown] at hnow
        exact .inl hnow
    · obtain ⟨extra, hmessages, hextra, hwaiting, _⟩ := send_other s request hc
      have hnone : withHandle k extra = [] :=
        withHandle_eq_nil_iff.mpr fun m hm => hextra m hm ▸ hsent k hk hc
      refine (h.inFlight k hk).congr hwaiting ?_
      unfold System.inFlight
      rw [hmessages, hbefore, hafter, withHandle_append, withHandle_append, withHandle_append,
        withHandle_cons_of_ne (hsent k hk hc), hnone, List.append_nil]

theorem Received.inFlight {rest : List Sent} (h : Received s s' client w sent rest) {k : Nat}
    (hk : k ≠ client) : s'.inFlight k = s.inFlight k := by
  unfold System.inFlight System.atCompositor
  rw [h.other k hk, h.messages', h.fdMessages, h.reply]

/-- The next message is taken. -/
theorem Own.received {rest : List Sent} (h : Own s)
    (hreceived : Received s s' client w sent rest) : Own s' := by
  have hat : s'.atCompositor = s.atCompositor := by
    unfold System.atCompositor
    rw [hreceived.messages', hreceived.fdMessages, hreceived.reply]
  constructor
  · intro k w' hw'
    by_cases hk : k = client
    · subst hk
      rw [hreceived.self] at hw' ⊢
      dsimp only at hw' ⊢
      split at hw'
      · cases hw'
      · cases hw'
        exact h.waiting k w hreceived.waiting
    · rw [hreceived.other k hk] at hw' ⊢
      exact h.waiting k w' hw'
  · intro k hk m hm
    by_cases hc : k = client
    · subst hc
      rw [hreceived.self] at hm
      exact h.queues k hk m (hreceived.messages ▸ List.mem_cons_of_mem _ hm)
    · rw [hreceived.other k hc] at hm
      exact h.queues k hk m hm
  · intro k hk
    by_cases hc : k = client
    · subst hc
      have hwas : s.inFlight k = withHandle k s.atCompositor ++ withHandle k (sent :: rest) := by
        unfold System.inFlight
        rw [hreceived.messages]
      have hnow : s'.inFlight k = withHandle k s.atCompositor ++ withHandle k rest := by
        unfold System.inFlight
        rw [hat, hreceived.self]
      rcases h.inFlight k hk with hnone | ⟨w', m, hw', hown, hone, hnumber⟩
      · left
        rw [hwas, List.append_eq_nil_iff] at hnone
        rw [hnow, hnone.1, List.nil_append, withHandle_eq_nil_iff]
        intro m hm
        exact withHandle_eq_nil_iff.mp hnone.2 m (List.mem_cons_of_mem _ hm)
      · cases hreceived.waiting.symm.trans hw'
        by_cases hhandle : sent.message.processHandle = k
        -- it was the only message, and the call returns with it
        · left
          rw [hwas, withHandle_cons_self hhandle] at hone
          have hlength := congrArg List.length hone
          simp only [List.length_append, List.length_cons, List.length_nil] at hlength
          rw [hnow]
          exact List.length_eq_zero_iff.mp (by rw [List.length_append]; omega)
        · right
          rw [hwas, withHandle_cons_of_ne hhandle] at hone
          refine ⟨w, m, ?_, hown, hnow.trans hone, hnumber⟩
          rw [hreceived.self]
          exact if_neg fun heq => hhandle (heq.trans hown)
    · refine (h.inFlight k hk).congr ?_ (hreceived.inFlight hc)
      rw [hreceived.other k hc]

/-- The response goes to all clients. -/
theorem Own.sendReply (h : Own s) (hreply : s.reply = some sent)
    (hresponse : sent.message.type.isResponse = true)
    (heq : s' = { s with reply := none, clients := deliver s.clients none sent }) : Own s' := by
  have hclients : s'.clients = deliver s.clients none sent := by rw [heq]
  have hqueue : ∀ k, (s'.clients k).messages = (s.clients k).messages ∨
      (s'.clients k).messages = (s.clients k).messages ++ [sent] := by
    intro k
    rw [hclients]
    unfold deliver
    split
    · exact .inr rfl
    · exact .inl rfl
  constructor
  · intro k w hw
    rw [hclients, deliver_waiting.1] at hw
    rw [hclients, deliver_waiting.2]
    exact h.waiting k w hw
  · intro k hk m hm hhandle
    rcases hqueue k with hsame | hmore
    · exact h.queues k hk m (hsame ▸ hm) hhandle
    · rw [hmore, List.mem_append, List.mem_singleton] at hm
      rcases hm with hm | rfl
      · exact h.queues k hk m hm hhandle
      · exact hresponse
  · intro k hk
    have hwas : s.inFlight k = withHandle k (s.messages ++ s.fdMessages) ++ withHandle k [sent] ++
        withHandle k (s.clients k).messages := by
      unfold System.inFlight System.atCompositor
      rw [hreply, Option.toList_some, withHandle_append]
    have hnow : s'.inFlight k = withHandle k (s.messages ++ s.fdMessages) ++
        withHandle k (deliver s.clients none sent k).messages := by
      unfold System.inFlight System.atCompositor
      rw [heq]
      simp
    by_cases hhandle : sent.message.processHandle = k
    · rw [withHandle_cons_self hhandle, withHandle_nil] at hwas
      rcases h.inFlight k hk with hnone | ⟨w, m, hw, hown, hone, hnumber⟩
      · rw [hwas] at hnone
        simp at hnone
      · have hopen := (h.waiting k w hw).2
        rw [hwas] at hone
        have hlength := congrArg List.length hone
        simp only [List.length_append, List.length_cons, List.length_nil] at hlength
        have hat : withHandle k (s.messages ++ s.fdMessages) = [] :=
          List.length_eq_zero_iff.mp (by omega)
        have hold : withHandle k (s.clients k).messages = [] :=
          List.length_eq_zero_iff.mp (by omega)
        rw [hat, hold] at hone
        cases hone
        refine .inr ⟨w, sent, ?_, hown, ?_, hnumber⟩
        · rw [hclients, deliver_waiting.1]
          exact hw
        · rw [hnow, hat, deliver_open hopen (by simp), withHandle_append, hold,
            withHandle_cons_self hhandle]
          rfl
    · refine (h.inFlight k hk).congr ?_ ?_
      · rw [hclients, deliver_waiting.1]
      · rw [hnow, hwas, deliver_withHandle hhandle, withHandle_cons_of_ne hhandle, withHandle_nil,
          List.append_nil]

/-- What an own call returns with is the response to it. -/
theorem Own.returns (h : Own s) (hreturns : s.returns client = some (w, sent))
    (hown : w.hasOwnHandle = true) :
    sent.request = w.sent.request ∧ sent.message.type.isResponse = true := by
  unfold System.returns at hreturns
  split at hreturns
  swap
  · cases hreturns
  rename_i w' sent' rest hw hmessages
  obtain ⟨hhandle, heq⟩ := Option.ite_none_right_eq_some.mp hreturns
  cases heq
  have hne : w.sent.message.processHandle ≠ 0 := of_decide_eq_true hown
  have hclient : w.sent.message.processHandle = client := by
    rw [(h.waiting client w hw).1] at hne ⊢
    exact ((message_handle client w.request).resolve_left hne).2
  have hk : client ≠ 0 := by
    rintro rfl
    exact hne hclient
  have hmem : sent ∈ s.inFlight client := by
    unfold System.inFlight
    rw [hmessages, withHandle_cons_self (hhandle.trans hclient)]
    simp
  refine ⟨?_, h.queues client hk sent (by simp [hmessages]) (hhandle.trans hclient)⟩
  rcases h.inFlight client hk with hnone | ⟨w', m, hw', _, hone, hnumber⟩
  · rw [hnone] at hmem
    cases hmem
  · cases hw.symm.trans hw'
    rw [hone] at hmem
    rw [List.mem_singleton.mp hmem]
    exact hnumber

/-! ## The order in which the calls take effect -/

/-- The response is the result that its call had. -/
def Recorded (order : List (Entry Nat (Nat × Request) Payload)) (sent : Sent) : Prop :=
  ∃ e ∈ order, e.key = sent.request ∧ e.result = sent.message.payload

structure Logged (windows : Windows σ) (c : σ) (counts : Waiting → Bool)
    (history : List (System σ × Action)) (order : List (Entry Nat (Nat × Request) Payload))
    (s : System σ) : Prop where
  linearizes : Linearizes (Serves windows) c (events counts history) order s.compositor
  numbered : ∀ number op, Event.invoke number op ∈ events counts history → number < s.requests
  messages : ∀ sent ∈ s.messages, Made counts history false sent
  fdMessages : ∀ sent ∈ s.fdMessages, Made counts history true sent
  once : ((s.messages ++ s.fdMessages).map Sent.request ++ keys order).Nodup
  reply : ∀ sent, s.reply = some sent →
    sent.message.type.isResponse = true ∧ Recorded order sent
  queues : ∀ client, ∀ sent ∈ (s.clients client).messages,
    sent.message.type.isResponse = true → Recorded order sent

theorem Recorded.append (h : Recorded order sent) (e : Entry Nat (Nat × Request) Payload) :
    Recorded (order ++ [e]) sent := by
  obtain ⟨e', he', heq⟩ := h
  exact ⟨e', List.mem_append_left _ he', heq⟩

theorem Made.next {sendsFd : Bool} (h : Made counts history sendsFd sent)
    (step : System σ × Action) : Made counts (step :: history) sendsFd sent := by
  obtain ⟨client, request, hmessage, hfd, hmem⟩ := h
  exact ⟨client, request, hmessage, hfd, List.mem_append_left _ hmem⟩

theorem Logged.boot (c : σ) : Logged windows c counts [] [] (System.boot c) where
  linearizes := .start
  numbered := by simp [events]
  messages := by simp [System.boot]
  fdMessages := by simp [System.boot]
  once := by simp [System.boot, keys]
  reply := by simp [System.boot]
  queues := by simp [System.boot]

/-- A step that the clients do not see, and that leaves the queues of the
compositor as they are. -/
theorem Logged.silent {action : Action} (h : Logged windows c counts history order s)
    (hevent : eventOf counts s action = []) (hcompositor : s'.compositor = s.compositor)
    (hrequests : s'.requests = s.requests) (hmessages : s'.messages = s.messages)
    (hfdMessages : s'.fdMessages = s.fdMessages)
    (hreply : ∀ sent, s'.reply = some sent → s.reply = some sent)
    (hqueues : ∀ client, ∀ sent ∈ (s'.clients client).messages,
      sent ∈ (s.clients client).messages ∨ s.reply = some sent) :
    Logged windows c counts ((s, action) :: history) order s' := by
  have hevents : events counts ((s, action) :: history) = events counts history := by
    rw [events, hevent, List.append_nil]
  refine ⟨?_, ?_, ?_, ?_, ?_, fun sent hsent => h.reply sent (hreply sent hsent), ?_⟩
  · rw [hevents, hcompositor]
    exact h.linearizes
  · rw [hevents, hrequests]
    exact h.numbered
  · rw [hmessages]
    exact fun sent hsent => (h.messages sent hsent).next _
  · rw [hfdMessages]
    exact fun sent hsent => (h.fdMessages sent hsent).next _
  · rw [hmessages, hfdMessages]
    exact h.once
  · intro client sent hsent hresponse
    rcases hqueues client sent hsent with hold | hnew
    · exact h.queues client sent hold hresponse
    · exact (h.reply sent hnew).2

/-- The call that the compositor answers takes effect now. -/
theorem Logged.served {action : Action} (h : Logged windows c counts history order s)
    (hevent : eventOf counts s action = [])
    (hinvoked : Event.invoke sent.request (client, request) ∈ events counts history)
    (hserved : Served windows s s' client request sent response) :
    Logged windows c counts ((s, action) :: history)
      (order ++ [⟨sent.request, (client, request), response.message.payload⟩]) s' := by
  have hevents : events counts ((s, action) :: history) = events counts history := by
    rw [events, hevent, List.append_nil]
  have hperm : ((s.messages ++ s.fdMessages).map Sent.request ++ keys order).Perm
      ((s'.messages ++ s'.fdMessages).map Sent.request ++
        keys (order ++ [⟨sent.request, (client, request), response.message.payload⟩])) := by
    rw [keys_append]
    rcases hserved.queues with ⟨hmessages, hfd⟩ | ⟨hmessages, hfd⟩
    · rw [hmessages, hfd]
      simp only [List.cons_append, List.map_cons, keys, List.map_nil]
      rw [← List.append_assoc]
      exact (List.perm_append_singleton _ _).symm
    · rw [hmessages, hfd]
      simp only [List.map_append, List.map_cons, keys, List.map_nil, List.append_assoc,
        List.cons_append]
      refine List.Perm.append_left _ ?_
      rw [← List.append_assoc]
      exact (List.perm_append_singleton _ _).symm
  have hnew : sent.request ∉ keys order := by
    have honce := h.once
    rw [List.nodup_append] at honce
    intro hmem
    refine honce.2.2 _ ?_ _ hmem rfl
    rcases hserved.queues with ⟨hmessages, _⟩ | ⟨_, hfd⟩
    · simp [hmessages]
    · simp [hfd]
  constructor
  · rw [hevents]
    exact h.linearizes.effect hinvoked hnew hserved.serves
  · rw [hevents, hserved.requests]
    exact h.numbered
  · intro m hm
    refine (h.messages m ?_).next _
    rcases hserved.queues with ⟨hmessages, _⟩ | ⟨hmessages, _⟩
    · exact hmessages ▸ List.mem_cons_of_mem _ hm
    · exact hmessages ▸ hm
  · intro m hm
    refine (h.fdMessages m ?_).next _
    rcases hserved.queues with ⟨_, hfd⟩ | ⟨_, hfd⟩
    · exact hfd ▸ hm
    · exact hfd ▸ List.mem_cons_of_mem _ hm
  · exact hperm.nodup_iff.mp h.once
  · intro m hm
    cases hserved.reply'.symm.trans hm
    exact ⟨hserved.isResponse, _, List.mem_append_right _ (List.mem_singleton_self _),
      hserved.number.symm, rfl⟩
  · intro k m hm hresponse
    rw [hserved.clients] at hm
    exact (h.queues k m hm hresponse).append _

/-- A call is made, under the next number. -/
theorem Logged.send (h : Logged windows c counts history order s)
    (heq : exec windows s (.send client request) = some s') :
    Logged windows c counts ((s, .send client request) :: history) order s' := by
  obtain ⟨_, heq⟩ := Option.ite_none_right_eq_some.mp heq
  cases heq
  have hmade : ∀ sendsFd, request.sendsFd = sendsFd →
      Made counts ((s, .send client request) :: history) sendsFd (s.outgoing client request) :=
    fun sendsFd hfd => ⟨client, request, rfl, hfd, by simp [events, eventOf, System.outgoing]⟩
  have hfresh : s.requests ∉ (s.messages ++ s.fdMessages).map Sent.request ++ keys order := by
    intro hmem
    rcases List.mem_append.mp hmem with hmem | hmem
    · obtain ⟨m, hm, heq⟩ := List.mem_map.mp hmem
      have hmade : ∃ client request,
          Event.invoke m.request (client, request) ∈ events counts history := by
        rcases List.mem_append.mp hm with hm | hm
        · obtain ⟨client, request, _, _, hinvoke⟩ := h.messages m hm
          exact ⟨client, request, hinvoke⟩
        · obtain ⟨client, request, _, _, hinvoke⟩ := h.fdMessages m hm
          exact ⟨client, request, hinvoke⟩
      obtain ⟨client', request', hinvoke⟩ := hmade
      have := h.numbered _ _ hinvoke
      omega
    · obtain ⟨e, he, heq⟩ := List.mem_map.mp hmem
      have := h.numbered _ _ (h.linearizes.invoked e he)
      omega
  have honce : ∀ queue : List Nat,
      queue.Perm ((s.messages ++ s.fdMessages).map Sent.request ++ keys order ++ [s.requests]) →
      queue.Nodup := by
    intro queue hperm
    refine hperm.nodup_iff.mpr (List.nodup_append.mpr ⟨h.once, by simp, ?_⟩)
    intro a ha b hb heq
    rw [heq, List.mem_singleton.mp hb] at ha
    exact hfresh ha
  constructor
  · have hcompositor : (s.send client request).compositor = s.compositor := by
      unfold System.send
      cases hfd : request.sendsFd <;> rfl
    rw [hcompositor]
    refine h.linearizes.invoke fun op hmem => ?_
    have := h.numbered _ _ hmem
    omega
  · have hrequests : (s.send client request).requests = s.requests + 1 := by
      unfold System.send
      cases hfd : request.sendsFd <;> rfl
    intro number op hmem
    rw [hrequests]
    rcases List.mem_append.mp hmem with hmem | hmem
    · have := h.numbered _ _ hmem
      omega
    · cases List.mem_singleton.mp hmem
      omega
  · unfold System.send
    cases hfd : request.sendsFd with
    | true => exact fun m hm => (h.messages m hm).next _
    | false =>
      intro m hm
      rcases List.mem_append.mp hm with hold | hnew
      · exact (h.messages m hold).next _
      · rw [List.mem_singleton.mp hnew]
        exact hmade false hfd
  · unfold System.send
    cases hfd : request.sendsFd with
    | false => exact fun m hm => (h.fdMessages m hm).next _
    | true =>
      intro m hm
      rcases List.mem_append.mp hm with hold | hnew
      · exact (h.fdMessages m hold).next _
      · rw [List.mem_singleton.mp hnew]
        exact hmade true hfd
  · refine honce _ ?_
    obtain ⟨before, after, hbefore, hafter⟩ : ∃ before after,
        s.messages ++ s.fdMessages = before ++ after ∧
        (s.send client request).messages ++ (s.send client request).fdMessages =
          before ++ s.outgoing client request :: after := by
      unfold System.send System.outgoing
      cases hfd : request.sendsFd with
      | true => exact ⟨s.messages ++ s.fdMessages, [], by simp, by simp⟩
      | false => exact ⟨s.messages, s.fdMessages, rfl, by simp⟩
    rw [hbefore, hafter]
    simp only [List.map_append, List.map_cons, List.append_assoc, List.cons_append]
    refine List.Perm.append_left _ ?_
    rw [← List.append_assoc]
    exact (List.perm_append_singleton _ _).symm
  · unfold System.send
    cases hfd : request.sendsFd <;> exact h.reply
  · intro k m hm hresponse
    by_cases hk : k = client
    · subst hk
      rw [send_self] at hm
      exact h.queues k m hm hresponse
    · obtain ⟨extra, hmessages, hextra, _, _⟩ := send_other s request hk
      rw [hmessages, List.mem_append] at hm
      rcases hm with hm | hm
      · exact h.queues k m hm hresponse
      -- a request is no response
      · rw [hextra m hm] at hresponse
        exact absurd hresponse (by simp [System.outgoing, message_type])

/-- A call that counts returns with the response to it. -/
theorem Logged.received {rest : List Sent} (h : Logged windows c counts history order s)
    (hreceived : Received s s' client w sent rest)
    (hanswered : s.returns client = some (w, sent) → counts w = true →
      sent.request = w.sent.request ∧ sent.message.type.isResponse = true) :
    Logged windows c counts ((s, .receive client) :: history) order s' := by
  have hqueues : ∀ k, ∀ m ∈ (s'.clients k).messages, m ∈ (s.clients k).messages := by
    intro k m hm
    by_cases hk : k = client
    · subst hk
      rw [hreceived.self] at hm
      exact hreceived.messages ▸ List.mem_cons_of_mem _ hm
    · rw [hreceived.other k hk] at hm
      exact hm
  by_cases hcounts : s.returns client = some (w, sent) ∧ counts w = true
  · obtain ⟨hreturns, hcounts⟩ := hcounts
    obtain ⟨hnumber, hresponse⟩ := hanswered hreturns hcounts
    obtain ⟨e, he, hkey, hresult⟩ :=
      h.queues client sent (by simp [hreceived.messages]) hresponse
    have hevents : events counts ((s, .receive client) :: history) =
        events counts history ++ [.respond e.key e.result] := by
      simp [events, eventOf, hreturns, hcounts, hkey, hresult, hnumber]
    refine ⟨?_, ?_, ?_, ?_, ?_, ?_, ?_⟩
    · rw [hevents, hreceived.compositor]
      exact h.linearizes.respond he
    · rw [hevents, hreceived.requests]
      intro number op hmem
      refine h.numbered number op ?_
      simpa using hmem
    · rw [hreceived.messages']
      exact fun m hm => (h.messages m hm).next _
    · rw [hreceived.fdMessages]
      exact fun m hm => (h.fdMessages m hm).next _
    · rw [hreceived.messages', hreceived.fdMessages]
      exact h.once
    · rw [hreceived.reply]
      exact h.reply
    · exact fun k m hm => h.queues k m (hqueues k m hm)
  · refine h.silent ?_ hreceived.compositor hreceived.requests hreceived.messages'
      hreceived.fdMessages ?_ fun k m hm => .inl (hqueues k m hm)
    · rw [hreceived.returns] at hcounts
      simp only [eventOf, hreceived.returns]
      split
      · rename_i hif
        obtain ⟨hhandle, heq⟩ := Option.ite_none_right_eq_some.mp hif
        cases heq
        rw [if_pos hhandle] at hcounts
        exact if_neg fun hc => hcounts ⟨rfl, hc⟩
      · rfl
    · rw [hreceived.reply]
      exact fun _ => id

/-- What a step does to the order, if a call that counts only returns with the
response to it. -/
theorem Logged.step {action : Action} (h : Logged windows c counts history order s)
    (hstep : Step windows s action s')
    (hanswered : ∀ client w sent, s.returns client = some (w, sent) → counts w = true →
      action = .receive client →
      sent.request = w.sent.request ∧ sent.message.type.isResponse = true) :
    ∃ order', Logged windows c counts ((s, action) :: history) order' s' := by
  cases action with
  | openChannel client =>
    obtain ⟨_, heq⟩ := Option.ite_none_left_eq_some.mp hstep
    cases heq
    refine ⟨order, h.silent rfl rfl rfl rfl rfl (fun _ => id) ?_⟩
    intro k m hm
    by_cases hk : k = client
    · subst hk
      have hm : m ∈ (Function.update s.clients k _ k).messages := hm
      rw [Function.update_self] at hm
      exact .inl hm
    · have hm : m ∈ (Function.update s.clients client _ k).messages := hm
      rw [Function.update_of_ne hk] at hm
      exact .inl hm
  | send client request => exact ⟨order, h.send hstep⟩
  | receive client =>
    obtain ⟨w, sent, rest, hreceived⟩ := receive_received hstep
    exact ⟨order, h.received hreceived fun hreturns hcounts =>
      hanswered client w sent hreturns hcounts rfl⟩
  | processMessages =>
    obtain ⟨client, request, sent, response, hinvoked, hserved⟩ :=
      processMessages_served hstep h.messages
    exact ⟨_, h.served rfl hinvoked hserved⟩
  | processFdMessages fd =>
    obtain ⟨client, request, sent, response, hinvoked, hserved⟩ :=
      processFdMessages_served hstep h.fdMessages
    exact ⟨_, h.served rfl hinvoked hserved⟩
  | sendReply =>
    obtain ⟨sent, hreply, heq⟩ := Option.map_eq_some_iff.mp hstep
    cases heq
    refine ⟨order, h.silent rfl rfl rfl rfl rfl (by simp) ?_⟩
    intro k m hm
    have hm : m ∈ (deliver s.clients none sent k).messages := hm
    unfold deliver at hm
    split at hm
    · rcases List.mem_append.mp hm with hm | hm
      · exact .inl hm
      · rw [List.mem_singleton.mp hm]
        exact .inr hreply
    · exact .inl hm

/-! ## Runs -/

theorem Own.boot (c : σ) : Own (System.boot c) where
  waiting := by simp [System.boot]
  queues := by simp [System.boot]
  inFlight := fun _ _ => .inl rfl

/-- Whatever is disturbed, nothing else carries the handle of a client. -/
theorem Own.step {action : Action} (h : Own s) (hlogged : Logged windows c counts history order s)
    (hstep : Step windows s action s') : Own s' := by
  cases action with
  | openChannel client => exact h.openChannel hstep
  | send client request => exact h.send hstep
  | receive client =>
    obtain ⟨w, sent, rest, hreceived⟩ := receive_received hstep
    exact h.received hreceived
  | processMessages =>
    obtain ⟨client, request, sent, response, _, hserved⟩ :=
      processMessages_served hstep hlogged.messages
    exact h.served hserved
  | processFdMessages fd =>
    obtain ⟨client, request, sent, response, _, hserved⟩ :=
      processFdMessages_served hstep hlogged.fdMessages
    exact h.served hserved
  | sendReply =>
    obtain ⟨sent, hreply, heq⟩ := Option.map_eq_some_iff.mp hstep
    exact h.sendReply hreply (hlogged.reply sent hreply).1 heq.symm

theorem run_own (hrun : Run (· = System.boot c) (Step windows) history s) :
    Own s ∧ ∃ order, Logged windows c Waiting.hasOwnHandle history order s := by
  induction hrun with
  | start hs =>
    subst hs
    exact ⟨.boot c, [], .boot c⟩
  | next _ hstep ih =>
    obtain ⟨hown, order, hlogged⟩ := ih
    exact ⟨hown.step hlogged hstep,
      hlogged.step hstep fun _ _ _ hreturns hcounts _ => hown.returns hreturns hcounts⟩

/-- In an undisturbed run every call returns with the response to it. -/
theorem Inv.returns (h : Inv s) (hstep : Step windows s (.receive client) s')
    (hreturns : s.returns client = some (w, sent)) :
    sent.request = w.sent.request ∧ sent.message.type.isResponse = true := by
  obtain ⟨w', sent', rest, hreceived⟩ := receive_received hstep
  rw [hreceived.returns] at hreturns
  obtain ⟨hhandle, heq⟩ := Option.ite_none_right_eq_some.mp hreturns
  cases heq
  obtain ⟨_, _, hcase⟩ := h.waiting client w hreceived.waiting
  unfold Pending Arrived at hcase
  rw [hreceived.messages, withHandle_cons_self hhandle] at hcase
  obtain ⟨m, rest', hcons, hanswers, _⟩ := hcase.resolve_left fun hpending => by
    cases hpending.1
  cases hcons
  exact ⟨hanswers.1, hanswers.2 ▸ responseType_isResponse w.request⟩

theorem run_undisturbed (hrun : Run (· = System.boot c) (Step windows) history s)
    (hundisturbed : ∀ p ∈ history, Undisturbed p.1 p.2) :
    Inv s ∧ ∃ order, Logged windows c Waiting.isCall history order s := by
  induction hrun with
  | start hs =>
    subst hs
    exact ⟨.of_initial ⟨c, rfl⟩, [], .boot c⟩
  | next _ hstep ih =>
    obtain ⟨hcond, hrest⟩ := List.forall_mem_cons.mp hundisturbed
    obtain ⟨hinv, order, hlogged⟩ := ih hrest
    refine ⟨hinv.step hcond hstep, hlogged.step hstep ?_⟩
    intro client w sent hreturns _ haction
    subst haction
    exact hinv.returns hstep hreturns

end

/-- The calls that carry the handle of their client take effect one at a time,
in all runs, and all calls do in undisturbed ones. -/
theorem window_calls_linearizable {σ : Type} (windows : Windows σ) (c : σ)
    (history : List (System σ × Action)) (s : System σ)
    (hrun : Run (· = System.boot c) (Step windows) history s) :
    Linearizable (Serves windows) c (events Waiting.hasOwnHandle history) s.compositor ∧
      ((∀ p ∈ history, Undisturbed p.1 p.2) →
        Linearizable (Serves windows) c (events Waiting.isCall history) s.compositor) := by
  refine ⟨?_, fun hundisturbed => ?_⟩
  · obtain ⟨_, order, hlogged⟩ := run_own hrun
    exact ⟨order, hlogged.linearizes⟩
  · obtain ⟨_, order, hlogged⟩ := run_undisturbed hrun hundisturbed
    exact ⟨order, hlogged.linearizes⟩

/-- A compositor that numbers its windows. -/
def numberedWindows : Windows Nat where
  create := fun c _ _ _ => (c + 1, 0, c)
  attachBuffer := fun c _ _ => (c, 0)
  commit := fun c windowHandle _ _ _ _ => (c, if windowHandle < c then 0 else -1)

/-- Two clients create a window each, at the same time, and the second attaches
a buffer to its own. -/
theorem overlapping_calls : ∃ (history : List (System Nat × Action)) (s : System Nat),
    s.compositor = 2 ∧ s.returned.length = 3 ∧
      Linearizable (Serves numberedWindows) 0 (events Waiting.isCall history) s.compositor := by
  let Checked : System Nat → Action → System Nat → Prop :=
    fun s action s' => Undisturbed s action ∧ Step numberedWindows s action s'
  have hexec : ∀ s action s', (if Undisturbed s action then exec numberedWindows s action
      else none) = some s' → Checked s action s' :=
    fun _ _ _ heq => Option.ite_none_right_eq_some.mp heq
  let Boot : System Nat → Prop := (· = System.boot 0)
  have hboot : Boot (System.boot 0) := rfl
  obtain ⟨history, s, hrun, hlast⟩ := Run.of_check hexec hboot
    [.openChannel 1, .openChannel 2, .send 1 (.windowCreate [] 16 16),
      .send 2 (.windowCreate [] 32 32), .processMessages, .sendReply, .receive 2, .processMessages,
      .sendReply, .receive 1, .receive 1, .receive 2, .receive 2,
      .send 2 (.windowAttachBuffer 1 5), .processFdMessages 7, .sendReply, .receive 2]
    (fun s => decide (s.compositor = 2 ∧ s.returned.length = 3)) (by decide)
  obtain ⟨hcompositor, hreturned⟩ := of_decide_eq_true hlast
  obtain ⟨hrun, hundisturbed⟩ := hrun.split
  exact ⟨history, s, hcompositor, hreturned,
    (window_calls_linearizable numberedWindows 0 history s hrun).2 hundisturbed⟩

end ZOs.Compositor
