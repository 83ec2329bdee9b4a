import MiniGraph.Membership

/-!
# What the connections answer

Apart from the broadcasts, a queue gets what its own connection answers. `Session.answer` is what a step
wants to tell its client; `Spoken` says what this does to the queues and to the counters, which `Effect`
leaves open. `Effect.queue` reads off what becomes of one queue in a step.
-/

namespace MiniGraph
open Lib

/-! ### Answers -/

namespace Session

/-- How `handle_client_message` fails before it waits for anything; `refused` says whether the channel
refuses its command. -/
def failure (session : Session) (refused : Bool) : ClientMessage → Option WebSocketError
  | .join _ => if refused then some .sendFailed else none
  | .sendMessage _ =>
    match session.currentRoom with
    | none => some .notInRoom
    | some _ => if refused then some .sendFailed else none
  | .sendMessageTo _ _ => if refused then some .sendFailed else none

/-- What a step of the connection wants to tell its client. -/
def answer (session : Session) (refused : Bool) : WorldAction → Option ServerMessage
  | .receive _ (.text (.error err)) => some (.error (WebSocketError.invalidMessage err).toString)
  | .handle _ _ =>
    match session.recvTask with
    | .handling msg => (session.failure refused msg).map fun err => .error err.toString
    | _ => none
  | .resume _ .acked => none
  | .resume _ _ => some (.error WebSocketError.sendFailed.toString)
  | .record _ =>
    match session.recvTask with
    | .recording documentId => some (.joined session.clientId documentId)
    | _ => none
  | _ => none

end Session

/-- `tx.try_send(message)`, its result ignored. -/
def trySendTo (queues : Sender → ClientQueue) (tx : Sender) (message : ServerMessage) :
    Sender → ClientQueue :=
  match (queues tx).trySend message with
  | .ok queue => Function.update queues tx queue
  | .error _ => queues

def tell (queues : Sender → ClientQueue) (tx : Sender) : Option ServerMessage → Sender → ClientQueue
  | none => queues
  | some message => trySendTo queues tx message

theorem trySendTo_buffer (queues : Sender → ClientQueue) (tx : Sender) (message : ServerMessage)
    (tx' : Sender) : (trySendTo queues tx message tx').buffer = (queues tx').buffer ∨
      tx' = tx ∧ (queues tx').closed = false ∧
        (trySendTo queues tx message tx').buffer = (queues tx').buffer ++ [message] := by
  unfold trySendTo
  cases h : (queues tx).trySend message with
  | error err => exact .inl rfl
  | ok queue =>
    obtain ⟨hopen, -, hbuffer, -⟩ := Mpsc.trySend_eq_ok.1 h
    by_cases htx : tx' = tx
    · subst htx
      right
      refine ⟨rfl, hopen, ?_⟩
      simp only [Function.update_self]
      exact hbuffer
    · left
      simp only [Function.update_of_ne htx]

namespace Rooms

theorem leave_queues (s : Rooms) (room : DocumentId) (clientId : ClientId) :
    (s.leave room clientId).queues = s.queues := by
  unfold leave
  cases s.rooms.lookup room <;> rfl

theorem leave_metrics (s : Rooms) (room : DocumentId) (clientId : ClientId) :
    (s.leave room clientId).metrics = s.metrics := by
  unfold leave
  cases s.rooms.lookup room <;> rfl

/-- Nothing gets into a queue that is closed. -/
theorem runs_offer_closed {p : Rooms × List ClientId} {tx : Sender} (h : (p.1.queues tx).closed = true)
    (message : ServerMessage) (clients : List (ClientId × Sender)) :
    (runs (offer message) p clients).2.1.queues tx = p.1.queues tx := by
  induction clients generalizing p with
  | nil => rfl
  | cons client clients ih =>
    have hoffer : (offer message p client).2.1.queues tx = p.1.queues tx := by
      unfold offer
      split
      · rename_i queue hsent
        refine Function.update_of_ne ?_ _ _
        rintro rfl
        have hopen := (Mpsc.trySend_eq_ok.1 hsent).1
        rw [h] at hopen
        cases hopen
      · rfl
      · rfl
    have hclosed : ((offer message p client).2.1.queues tx).closed = true := by rw [hoffer, h]
    exact (ih hclosed).trans hoffer

end Rooms

namespace World

/-- The steps that only a connection's `recv_task` and cleanup take. -/
def Speaks : WorldAction → Prop
  | .receive _ _ | .handle _ _ | .resume _ _ | .record _ | .recvEnds _ | .teardown _ | .cancel _
  | .leave _ => True
  | _ => False

/-- What a step of the connection with the session `s` does to the queues and the counters. -/
structure Spoken (w : World) (s : Session) (a : WorldAction) (w' : World) : Prop where
  queues : w'.rooms.queues = tell w.rooms.queues s.tx (s.answer (w.refuses a) a)
  metrics : w'.rooms.metrics =
    if w.refuses a ∧ w.commands.closed = false then w.rooms.metrics.incActorCmdDrop else w.rooms.metrics

variable {w w' : World} {s : Session} {a : WorldAction} {c : ClientId} {now : UInt64}

theorem reply_queues (w : World) (tx : Sender) (message : ServerMessage) :
    (w.reply tx message).rooms.queues = trySendTo w.rooms.queues tx message := by
  unfold reply trySendTo
  cases (w.rooms.queues tx).trySend message <;> rfl

theorem reply_metrics (w : World) (tx : Sender) (message : ServerMessage) :
    (w.reply tx message).rooms.metrics = w.rooms.metrics := by
  unfold reply
  cases (w.rooms.queues tx).trySend message <;> rfl

theorem countDrop_queues (w : World) (err : RoomCommandError) :
    (w.countDrop err).rooms.queues = w.rooms.queues := by
  cases err <;> rfl

/-- The channel refuses a command as full, and this is counted, or it is closed. -/
theorem countDrop_metrics {cmd : RoomCommand} {err : RoomCommandError}
    (h : RoomsHandle.mapErr (w.commands.trySend cmd) = .error err) : (w.countDrop err).rooms.metrics =
      if w.commands.closed = false then w.rooms.metrics.incActorCmdDrop else w.rooms.metrics := by
  unfold RoomsHandle.mapErr at h
  split at h
  · cases h
  · rename_i hfull
    obtain rfl := Except.error.inj h
    rw [if_pos (Mpsc.trySend_eq_full.1 hfull).1]
    rfl
  · rename_i hclosed
    obtain rfl := Except.error.inj h
    rw [Mpsc.trySend_eq_closed.1 hclosed, if_neg (by simp)]
    rfl

theorem finishMessage_queues (w : World) (s : Session) (err : WebSocketError) :
    (w.finishMessage s (.error err)).rooms.queues =
      trySendTo w.rooms.queues s.tx (.error err.toString) :=
  reply_queues _ _ _

theorem finishMessage_metrics (w : World) (s : Session) (err : WebSocketError) :
    (w.finishMessage s (.error err)).rooms.metrics = w.rooms.metrics :=
  reply_metrics _ _ _

/-! ### The handler of a message -/

theorem refuses_of_none (h : w.sends a = none) : w.refuses a = false := by
  simp only [refuses, h]

theorem broadcastOrFail_spoken {room : DocumentId} {message : ServerMessage}
    {msg : ClientMessage} (ht : s.recvTask = .handling msg)
    (hsend : w.sends (.handle c now) = some (.broadcast room message))
    (hfail : ∀ refused, s.failure refused msg = if refused then some .sendFailed else none) :
    Spoken w s (.handle c now) ((w.broadcastOrFail room message).2.finishMessage s
      (w.broadcastOrFail room message).1) := by
  unfold broadcastOrFail RoomsHandle.broadcastToRoom
  cases h : RoomsHandle.mapErr (w.commands.trySend (.broadcast room message)) with
  | ok commands =>
    have haccepted := refuses_of_ok hsend (RoomsHandle.mapErr_eq_ok.1 h)
    refine ⟨?_, ?_⟩
    · simp [Session.answer, ht, hfail, haccepted, tell, finishMessage]
    · simp [haccepted, finishMessage]
  | error err =>
    have hrefused := refuses_of_error hsend h
    refine ⟨?_, ?_⟩
    · simp only [finishMessage_queues, countDrop_queues]
      simp [Session.answer, ht, hfail, hrefused, tell]
    · simp only [finishMessage_metrics, countDrop_metrics h, hrefused, true_and]

theorem handle_spoken {msg : ClientMessage} (hs : w.sessions c = some s)
    (ht : s.recvTask = .handling msg) :
    Spoken w s (.handle c now) (w.handleClientMessage s now msg) := by
  cases msg with
  | join d =>
    have hsend : w.sends (.handle c now) = some (.join d s.clientId s.tx w.nextAck) := by
      simp only [sends, hs, ht]
    unfold handleClientMessage RoomsHandle.joinRoom
    cases h : RoomsHandle.mapErr (w.commands.trySend (.join d s.clientId s.tx w.nextAck)) with
    | ok commands =>
      have haccepted := refuses_of_ok hsend (RoomsHandle.mapErr_eq_ok.1 h)
      simp only [h]
      refine ⟨?_, ?_⟩
      · simp [Session.answer, Session.failure, ht, haccepted, tell]
      · simp [haccepted]
    | error err =>
      have hrefused := refuses_of_error hsend h
      simp only [h]
      refine ⟨?_, ?_⟩
      · rw [finishMessage_queues, countDrop_queues]
        simp [Session.answer, Session.failure, ht, hrefused, tell]
      · have hmetrics := countDrop_metrics (w := { w with nextAck := w.nextAck + 1 }) h
        rw [finishMessage_metrics, hmetrics]
        simp only [hrefused, true_and]
  | sendMessage text =>
    unfold handleClientMessage
    cases hroom : s.currentRoom with
    | none =>
      have hnone : w.sends (.handle c now) = none := by
        simp [sends, hs, ht, Session.broadcastFor, hroom]
      have haccepted := refuses_of_none hnone
      refine ⟨?_, ?_⟩
      · simp only [finishMessage_queues]
        simp [Session.answer, Session.failure, ht, hroom, tell]
      · simp only [finishMessage_metrics]
        simp [haccepted]
    | some room =>
      refine broadcastOrFail_spoken ht ?_ ?_
      · simp [sends, hs, ht, Session.broadcastFor, hroom]
      · simp [Session.failure, hroom]
  | sendMessageTo d text =>
    refine broadcastOrFail_spoken ht ?_ fun refused => rfl
    simp [sends, hs, ht, Session.broadcastFor]

/-! ### The other steps -/

/-- A step that answers nothing and sends nothing. -/
theorem spoken_silent (hanswer : ∀ refused, s.answer refused a = none) (hsend : w.sends a = none)
    (hqueues : w'.rooms.queues = w.rooms.queues) (hmetrics : w'.rooms.metrics = w.rooms.metrics) :
    Spoken w s a w' := by
  refine ⟨?_, ?_⟩
  · rw [hanswer, hqueues, tell]
  · rw [refuses_of_none hsend, hmetrics, if_neg (by simp)]

/-- A step that answers `message` and sends nothing. -/
theorem spoken_answer {message : ServerMessage} (hanswer : ∀ refused, s.answer refused a = some message)
    (hsend : w.sends a = none) (hqueues : w'.rooms.queues = trySendTo w.rooms.queues s.tx message)
    (hmetrics : w'.rooms.metrics = w.rooms.metrics) : Spoken w s a w' := by
  refine ⟨?_, ?_⟩
  · rw [hanswer, hqueues, tell]
  · rw [refuses_of_none hsend, hmetrics, if_neg (by simp)]

theorem leave_spoken (hs : w.sessions c = some s) : Spoken w s (.leave c) (w.leaveRoom s) := by
  cases hroom : s.currentRoom with
  | none =>
    have hsend : w.sends (.leave c) = none := by simp [sends, hs, hroom]
    refine spoken_silent (fun _ => rfl) hsend ?_ ?_
    · simp [leaveRoom, hroom]
    · simp [leaveRoom, hroom]
  | some d =>
    have hsend : w.sends (.leave c) = some (.leave d s.clientId) := by simp [sends, hs, hroom]
    unfold leaveRoom RoomsHandle.leaveRoom
    simp only [hroom]
    cases h : RoomsHandle.mapErr (w.commands.trySend (.leave d s.clientId)) with
    | ok commands =>
      have haccepted := refuses_of_ok hsend (RoomsHandle.mapErr_eq_ok.1 h)
      refine ⟨rfl, ?_⟩
      simp [haccepted]
    | error err =>
      have hrefused := refuses_of_error hsend h
      refine ⟨?_, ?_⟩
      · exact countDrop_queues w err
      · simp only [setSession_rooms, countDrop_metrics h, hrefused, true_and]

theorem resume_spoken {d : DocumentId} {k : AckId} {outcome : AckOutcome}
    (h : w.resumeJoin s d k outcome = some w') : Spoken w s (.resume c outcome) w' := by
  unfold resumeJoin at h
  cases outcome with
  | acked =>
    simp only [Option.ite_none_right_eq_some, Option.some.injEq] at h
    obtain ⟨-, rfl⟩ := h
    exact spoken_silent (fun _ => rfl) rfl rfl rfl
  | dropped =>
    simp only [Option.ite_none_right_eq_some, Option.some.injEq] at h
    obtain ⟨-, rfl⟩ := h
    exact spoken_answer (fun _ => rfl) rfl (finishMessage_queues _ _ _) (finishMessage_metrics _ _ _)
  | elapsed =>
    simp only [Option.ite_none_right_eq_some, Option.some.injEq] at h
    obtain ⟨-, rfl⟩ := h
    exact spoken_answer (fun _ => rfl) rfl (finishMessage_queues _ _ _) (finishMessage_metrics _ _ _)

theorem receive_spoken (w : World) (s : Session) (c : ClientId) (frame : Frame) :
    Spoken w s (.receive c frame) (w.receiveFrame s frame) := by
  rcases frame with (err | msg) | _
  · exact spoken_answer (fun _ => rfl) rfl (reply_queues _ _ _) (reply_metrics _ _ _)
  · exact spoken_silent (fun _ => rfl) rfl rfl rfl
  · exact spoken_silent (fun _ => rfl) rfl rfl rfl

theorem record_spoken {d : DocumentId} (ht : s.recvTask = .recording d) (w : World) (c : ClientId) :
    Spoken w s (.record c) (w.recordJoin s d) := by
  refine spoken_answer (fun _ => ?_) rfl (reply_queues _ _ _) (reply_metrics _ _ _)
  simp [Session.answer, ht]

theorem sessionStep_spoken (hs : w.sessions c = some s) (hc : clientOf a = some c) (hspeaks : Speaks a)
    (h : w.sessionStep s a = some w') : Spoken w s a w' := by
  unfold sessionStep at h
  cases a <;> simp only [clientOf, Option.some.injEq, reduceCtorEq] at hc h <;> try subst hc
  case receive frame =>
    split at h
    · obtain rfl := Option.some.inj h
      exact receive_spoken w s _ frame
    · cases h
  case handle now =>
    split at h
    · rename_i msg ht
      obtain rfl := Option.some.inj h
      exact handle_spoken hs ht
    · cases h
  case resume outcome =>
    split at h
    · exact resume_spoken h
    · cases h
  case record =>
    split at h
    · rename_i d ht
      obtain rfl := Option.some.inj h
      exact record_spoken ht w _
    · cases h
  case recvEnds =>
    split at h
    · obtain rfl := Option.some.inj h
      exact spoken_silent (fun _ => rfl) rfl rfl rfl
    · cases h
  case drain => exact absurd hspeaks id
  case sendEnds => exact absurd hspeaks id
  case teardown =>
    split_ifs at h
    obtain rfl := Option.some.inj h
    exact spoken_silent (fun _ => rfl) rfl rfl rfl
  case cancel =>
    split_ifs at h
    obtain rfl := Option.some.inj h
    exact spoken_silent (fun _ => rfl) rfl rfl rfl
  case leave =>
    split_ifs at h
    obtain rfl := Option.some.inj h
    exact leave_spoken hs

/-- The session of a step of a connection. -/
theorem session_of_step (hc : clientOf a = some c) (hconnect : a ≠ .connect c) (h : w.step a = some w') :
    ∃ s, w.sessions c = some s ∧ w.sessionStep s a = some w' := by
  unfold step at h
  cases a <;> simp only [clientOf, Option.some.injEq, reduceCtorEq] at hc h <;> subst hc
  case connect => exact absurd rfl hconnect
  all_goals
    simp only [Option.bind_some] at h
    split at h
    · rename_i s hs
      exact ⟨s, hs, h⟩
    · cases h

/-- **What a connection does to the queues and the counters.** -/
theorem step_spoken (hc : clientOf a = some c) (hspeaks : Speaks a) (h : w.step a = some w') :
    ∃ s, w.sessions c = some s ∧ Spoken w s a w' := by
  have hconnect : a ≠ .connect c := by
    rintro rfl
    exact hspeaks
  obtain ⟨s, hs, hstep⟩ := session_of_step hc hconnect h
  exact ⟨s, hs, sessionStep_spoken hs hc hspeaks hstep⟩

/-! ### One queue -/

/-- What a step does to the contents of the queue of `c`. -/
inductive Contents (w : World) (a : WorldAction) (w' : World) (c : ClientId) : Prop
  | same (buffer : (w'.rooms.queues ⟨c⟩).buffer = (w.rooms.queues ⟨c⟩).buffer)
  | emptied (action : a = .connect c ∨ a = .sendEnds c) (buffer : (w'.rooms.queues ⟨c⟩).buffer = [])
  | drained (message : ServerMessage) (action : a = .drain c)
      (buffer : (w.rooms.queues ⟨c⟩).buffer = message :: (w'.rooms.queues ⟨c⟩).buffer)
  | answered (s : Session) (message : ServerMessage) (client : clientOf a = some c) (speaks : Speaks a)
      (before : w.sessions c = some s) (answer : s.answer (w.refuses a) a = some message)
      (isOpen : w.rooms.closed ⟨c⟩ = false)
      (buffer : (w'.rooms.queues ⟨c⟩).buffer = (w.rooms.queues ⟨c⟩).buffer ++ [message])
  | offered (room : DocumentId) (message : ServerMessage) (n : Nat) (action : a = .coordinate)
      (head : w.commands.buffer = .broadcast room message :: w'.commands.buffer)
      (listed : w.rooms.lists room c = true) (isOpen : w.rooms.closed ⟨c⟩ = false)
      (buffer : (w'.rooms.queues ⟨c⟩).buffer = (w.rooms.queues ⟨c⟩).buffer ++ List.replicate n message)

theorem contents_update {c c' : ClientId} {queue : ClientQueue}
    (h : w'.rooms.queues = Function.update w.rooms.queues ⟨c'⟩ queue) (hc : c ≠ c') :
    (w'.rooms.queues ⟨c⟩).buffer = (w.rooms.queues ⟨c⟩).buffer := by
  rw [h, Function.update_of_ne]
  intro heq
  exact hc (Sender.mk.inj heq)

theorem connect_eq (h : w.step (.connect c) = some w') :
    w.sessions c = none ∧ w' = (w.setQueue ⟨c⟩ .empty).setSession (.new c) := by
  unfold step at h
  simp only at h
  split at h
  · rename_i hfresh
    exact ⟨hfresh, (Option.some.inj h).symm⟩
  · cases h

theorem drain_eq (h : w.step (.drain c) = some w') : ∃ message queue,
    (w.rooms.queues ⟨c⟩).recv = some (message, queue) ∧ w' = w.setQueue ⟨c⟩ queue := by
  obtain ⟨s, hs, hstep⟩ := session_of_step (a := .drain c) rfl nofun h
  have htx : s.tx = ⟨c⟩ := by rw [s.tx_eq, w.clientId_eq c s hs]
  simp only [sessionStep, htx] at hstep
  split at hstep
  · rename_i message queue hrecv
    exact ⟨message, queue, hrecv, (Option.some.inj hstep).symm⟩
  · cases hstep

theorem sendEnds_eq (h : w.step (.sendEnds c) = some w') :
    w' = w.setQueue ⟨c⟩ (w.rooms.queues ⟨c⟩).close := by
  obtain ⟨s, hs, hstep⟩ := session_of_step (a := .sendEnds c) rfl nofun h
  have htx : s.tx = ⟨c⟩ := by rw [s.tx_eq, w.clientId_eq c s hs]
  simp only [sessionStep, htx] at hstep
  split_ifs at hstep
  exact (Option.some.inj hstep).symm

theorem connect_queues (h : w.step (.connect c) = some w') :
    w'.rooms.queues = Function.update w.rooms.queues ⟨c⟩ .empty := by
  rw [(connect_eq h).2]
  rfl

theorem drain_queues (h : w.step (.drain c) = some w') : ∃ message queue,
    (w.rooms.queues ⟨c⟩).recv = some (message, queue) ∧
      w'.rooms.queues = Function.update w.rooms.queues ⟨c⟩ queue := by
  obtain ⟨message, queue, hrecv, rfl⟩ := drain_eq h
  exact ⟨message, queue, hrecv, rfl⟩

theorem sendEnds_queues (h : w.step (.sendEnds c) = some w') :
    w'.rooms.queues = Function.update w.rooms.queues ⟨c⟩ (w.rooms.queues ⟨c⟩).close := by
  rw [sendEnds_eq h]
  rfl

theorem speaks_queues (hc : clientOf a = some c) (hspeaks : Speaks a) (h : w.step a = some w') :
    ∃ s, w.sessions c = some s ∧ w'.rooms.queues = tell w.rooms.queues ⟨c⟩ (s.answer (w.refuses a) a) := by
  obtain ⟨s, hs, hspoken⟩ := step_spoken hc hspeaks h
  refine ⟨s, hs, ?_⟩
  rw [hspoken.queues, s.tx_eq, w.clientId_eq c s hs]

theorem contents_speaks {c' : ClientId} (hc : clientOf a = some c') (hspeaks : Speaks a)
    (h : w.step a = some w') (c : ClientId) : Contents w a w' c := by
  obtain ⟨s, hs, hqueues⟩ := speaks_queues hc hspeaks h
  cases hanswer : s.answer (w.refuses a) a with
  | none =>
    rw [hanswer, tell] at hqueues
    exact .same (by rw [hqueues])
  | some message =>
    rw [hanswer, tell] at hqueues
    rcases trySendTo_buffer w.rooms.queues ⟨c'⟩ message ⟨c⟩ with
      hsame | ⟨htx, hopen, hput⟩
    · exact .same (by rw [hqueues, hsame])
    · obtain rfl := Sender.mk.inj htx
      exact .answered s message hc hspeaks hs hanswer hopen (by rw [hqueues, hput])

theorem contents_coordinate (hc : w.Consistent) {cmd : RoomCommand}
    (hbuffer : w.commands.buffer = cmd :: w'.commands.buffer) (hrooms : w'.rooms = w.rooms.process cmd)
    (c : ClientId) : Contents w .coordinate w' c := by
  cases cmd with
  | join d c' tx k => exact .same (by rw [hrooms]; rfl)
  | leave d c' => exact .same (by rw [hrooms, Rooms.process, Rooms.leave_queues])
  | broadcast d message =>
    have hqueues : w'.rooms.queues = (w.rooms.fanout message (w.rooms.clients d)).2.1.queues := by
      rw [hrooms]
      exact (Rooms.broadcast_eq_fanout w.rooms d message).1
    by_cases hl : w.rooms.lists d c = true
    · by_cases hclosed : w.rooms.closed ⟨c⟩ = true
      · refine .same ?_
        rw [hqueues]
        exact congrArg Mpsc.buffer (Rooms.runs_offer_closed hclosed message _)
      · obtain ⟨n, -, hqueue⟩ := Rooms.runs_offer_queue message (w.rooms, []) (w.rooms.clients d) ⟨c⟩
        exact .offered d message n rfl hbuffer hl (by simpa using hclosed) (hqueues ▸ hqueue)
    · have hout : w.rooms.lists d c = false := by simpa using hl
      refine .same ?_
      rw [hrooms, Rooms.process]
      exact Rooms.broadcast_queue_of_not_listed hc.entries hout message

/-- **What a step does to the contents of a queue.** -/
theorem step_contents (hcons : w.Consistent) (h : w.step a = some w') (c : ClientId) :
    Contents w a w' c := by
  cases a with
  | connect c' =>
    have hqueues := connect_queues h
    by_cases hid : c = c'
    · subst hid
      exact .emptied (.inl rfl) (by rw [hqueues, Function.update_self]; rfl)
    · exact .same (contents_update hqueues hid)
  | drain c' =>
    obtain ⟨message, queue, hrecv, hqueues⟩ := drain_queues h
    by_cases hid : c = c'
    · subst hid
      refine .drained message rfl ?_
      rw [hqueues, Function.update_self]
      exact (Mpsc.recv_eq_some.1 hrecv).1
    · exact .same (contents_update hqueues hid)
  | sendEnds c' =>
    have hqueues := sendEnds_queues h
    by_cases hid : c = c'
    · subst hid
      exact .emptied (.inr rfl) (by rw [hqueues, Function.update_self]; rfl)
    · exact .same (contents_update hqueues hid)
  | coordinate =>
    cases step_effect h with
    | session c' _ s s' cmds _ client => cases client
    | coordinate cmd _ buffer closed rooms => exact contents_coordinate hcons buffer rooms c
  | sinkBroadcast room message =>
    cases step_effect h with
    | session c' _ s s' cmds _ client => cases client
    | sinkBroadcast _ _ _ cmds sent buffer closed rooms => exact .same (by rw [rooms])
  | _ =>
    refine contents_speaks rfl ?_ h c
    trivial

end World
end MiniGraph
