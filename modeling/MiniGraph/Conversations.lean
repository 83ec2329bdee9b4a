import MiniGraph.Answers

/-!
# What a client is told

A client's queue holds the answers of its own connection and copies of broadcasts, in the order in which
they were put into it, and `send_task` sends it on from the front. `answers_inOrder` says that the answers
match the client's frames one after the other, `fifo` that nothing is sent that was not put into the queue
and nothing overtakes.
-/

namespace MiniGraph
open Lib

/-! ### Logs -/

namespace World

/-- What a step puts into the queue of `c`. -/
def putStep (c : ClientId) (w : World) (a : WorldAction) (w' : World) :
    List (WorldAction × ServerMessage) :=
  match a with
  | .connect _ | .drain _ | .sendEnds _ => []
  | _ => ((w'.rooms.queues ⟨c⟩).buffer.drop (w.rooms.queues ⟨c⟩).buffer.length).map (a, ·)

/-- What `send_task` of `c` takes out of the queue for its socket in a step. -/
def sentStep (c : ClientId) (w : World) (a : WorldAction) (_ : World) : List ServerMessage :=
  if a = .drain c then (w.rooms.queues ⟨c⟩).buffer.take 1 else []

/-- Everything that a run puts into the queue of `c`, each message with the step that did it. -/
def putInto (c : ClientId) (w : World) (as : List WorldAction) : List (WorldAction × ServerMessage) :=
  log step (putStep c) w as

/-- Everything that a run sends over the socket of `c`. -/
def sentTo (c : ClientId) (w : World) (as : List WorldAction) : List ServerMessage :=
  log step (sentStep c) w as

/-- The answers of the connection among the messages that were put into a queue. -/
def answersIn (messages : List (WorldAction × ServerMessage)) : List ServerMessage :=
  (messages.filter fun x => x.1 ≠ .coordinate).map Prod.snd

/-- The frame of `c` that a step receives. -/
def frameOf (c : ClientId) : WorldAction → Option Frame
  | .receive c' frame => if c' = c then some frame else none
  | _ => none

def framesOf (c : ClientId) (as : List WorldAction) : List Frame := as.filterMap (frameOf c)

end World

/-! ### Answers to frames -/

/-- `c` may be answered `message` to `frame`. -/
inductive Answers (c : ClientId) : Frame → ServerMessage → Prop
  | joined (d : DocumentId) : Answers c (.text (.ok (.join d))) (.joined c d)
  | invalid (err : String) :
      Answers c (.text (.error err)) (.error (WebSocketError.invalidMessage err).toString)
  | notInRoom (text : String) :
      Answers c (.text (.ok (.sendMessage text))) (.error WebSocketError.notInRoom.toString)
  | sendFailed (msg : ClientMessage) :
      Answers c (.text (.ok msg)) (.error WebSocketError.sendFailed.toString)

/-- The frame that `recv_task` is at work on. -/
def RecvTask.frame : RecvTask → List Frame
  | .handling msg => [.text (.ok msg)]
  | .awaitingAck documentId _ => [.text (.ok (.join documentId))]
  | .recording documentId => [.text (.ok (.join documentId))]
  | _ => []

namespace World
variable {w w' : World} {s s' : Session} {a : WorldAction} {c : ClientId} {cmds : List RoomCommand}

theorem answers_failure {s : Session} {refused : Bool} {msg : ClientMessage} {err : WebSocketError}
    (h : s.failure refused msg = some err) : Answers c (.text (.ok msg)) (.error err.toString) := by
  unfold Session.failure at h
  cases msg with
  | join d =>
    simp only [Option.ite_none_right_eq_some, Option.some.injEq] at h
    obtain ⟨-, rfl⟩ := h
    exact .sendFailed _
  | sendMessage text =>
    simp only at h
    split at h
    · obtain rfl := Option.some.inj h
      exact .notInRoom text
    · simp only [Option.ite_none_right_eq_some, Option.some.injEq] at h
      obtain ⟨-, rfl⟩ := h
      exact .sendFailed _
  | sendMessageTo d text =>
    simp only [Option.ite_none_right_eq_some, Option.some.injEq] at h
    obtain ⟨-, rfl⟩ := h
    exact .sendFailed _

theorem Moves.answer (h : Moves w s a s' cmds) (hc : clientOf a = some c) {message : ServerMessage}
    (hanswer : s.answer (w.refuses a) a = some message) :
    ∃ frame, s.recvTask.frame ++ (frameOf c a).toList = frame :: s'.recvTask.frame ∧
      Answers s.clientId frame message := by
  cases h with
  | receive c' msg ht => cases hanswer
  | skip c' frame ht =>
    obtain rfl := Option.some.inj hc
    rcases frame with (err | msg) | _
    · obtain rfl := Option.some.inj hanswer
      exact ⟨_, by simp [ht, RecvTask.frame, frameOf], .invalid err⟩
    · cases hanswer
    · cases hanswer
  | record c' d ht =>
    simp only [Session.answer, ht, Option.some.injEq] at hanswer
    subst hanswer
    exact ⟨_, by simp [ht, RecvTask.frame, frameOf], .joined d⟩
  | failed c' d k outcome ht hne =>
    have hmessage : message = .error WebSocketError.sendFailed.toString := by
      cases outcome with
      | acked => exact absurd rfl hne
      | _ => exact (Option.some.inj hanswer).symm
    subst hmessage
    exact ⟨_, by simp [ht, RecvTask.frame, frameOf], .sendFailed (.join d)⟩
  | acked => cases hanswer
  | joinSent c' now d ht haccepted =>
    simp [Session.answer, ht, Session.failure, haccepted] at hanswer
  | joinRefused c' now d ht =>
    simp only [Session.answer, ht, Option.map_eq_some_iff] at hanswer
    obtain ⟨err, herr, rfl⟩ := hanswer
    exact ⟨_, by simp [ht, RecvTask.frame, frameOf], answers_failure herr⟩
  | sent c' now msg cmd ht =>
    simp only [Session.answer, ht, Option.map_eq_some_iff] at hanswer
    obtain ⟨err, herr, rfl⟩ := hanswer
    exact ⟨_, by simp [ht, RecvTask.frame, frameOf], answers_failure herr⟩
  | sendRefused c' now msg cmd ht =>
    simp only [Session.answer, ht, Option.map_eq_some_iff] at hanswer
    obtain ⟨err, herr, rfl⟩ := hanswer
    exact ⟨_, by simp [ht, RecvTask.frame, frameOf], answers_failure herr⟩
  | notInRoom c' now text ht =>
    simp only [Session.answer, ht, Option.map_eq_some_iff] at hanswer
    obtain ⟨err, herr, rfl⟩ := hanswer
    exact ⟨_, by simp [ht, RecvTask.frame, frameOf], answers_failure herr⟩
  | _ => cases hanswer

theorem Moves.frame (h : Moves w s a s' cmds) (hc : clientOf a = some c) :
    s'.recvTask.frame.Sublist (s.recvTask.frame ++ (frameOf c a).toList) := by
  cases h with
  | receive c' msg ht =>
    obtain rfl := Option.some.inj hc
    simp [ht, RecvTask.frame, frameOf]
  | skip c' frame ht => simp [ht, RecvTask.frame]
  | joinSent c' now d ht => simp [ht, RecvTask.frame]
  | acked c' d k ht => simp [ht, RecvTask.frame]
  | drain | teardown | leaveSent | leaveRefused | leaveNothing => exact List.sublist_append_left _ _
  | _ => exact List.nil_sublist _

/-! ### What a step puts into a queue -/

/-- The log of the queue of `c` and its contents in a step. -/
inductive Logged (w : World) (a : WorldAction) (w' : World) (c : ClientId) : Prop
  | quiet (put : putStep c w a w' = []) (sent : sentStep c w a w' = [])
      (buffer : (w'.rooms.queues ⟨c⟩).buffer = (w.rooms.queues ⟨c⟩).buffer)
  | lost (action : a = .connect c ∨ a = .sendEnds c) (put : putStep c w a w' = [])
      (sent : sentStep c w a w' = []) (buffer : (w'.rooms.queues ⟨c⟩).buffer = [])
  | sent (message : ServerMessage) (put : putStep c w a w' = []) (sent : sentStep c w a w' = [message])
      (buffer : (w.rooms.queues ⟨c⟩).buffer = message :: (w'.rooms.queues ⟨c⟩).buffer)
  | answered (s : Session) (message : ServerMessage) (client : clientOf a = some c)
      (before : w.sessions c = some s) (answer : s.answer (w.refuses a) a = some message)
      (isOpen : w.rooms.closed ⟨c⟩ = false)
      (put : putStep c w a w' = [(a, message)]) (sent : sentStep c w a w' = [])
      (buffer : (w'.rooms.queues ⟨c⟩).buffer = (w.rooms.queues ⟨c⟩).buffer ++ [message])
  | offered (room : DocumentId) (message : ServerMessage) (n : Nat) (action : a = .coordinate)
      (head : w.commands.buffer = .broadcast room message :: w'.commands.buffer)
      (listed : w.rooms.lists room c = true) (isOpen : w.rooms.closed ⟨c⟩ = false)
      (put : putStep c w a w' = List.replicate n (.coordinate, message)) (sent : sentStep c w a w' = [])
      (buffer : (w'.rooms.queues ⟨c⟩).buffer = (w.rooms.queues ⟨c⟩).buffer ++ List.replicate n message)

theorem putStep_of_append {messages : List ServerMessage} (hconnect : ∀ c', a ≠ .connect c')
    (hdrain : ∀ c', a ≠ .drain c') (hends : ∀ c', a ≠ .sendEnds c')
    (h : (w'.rooms.queues ⟨c⟩).buffer = (w.rooms.queues ⟨c⟩).buffer ++ messages) :
    putStep c w a w' = messages.map (a, ·) := by
  unfold putStep
  rw [h, List.drop_left]
  cases a with
  | connect c' => exact absurd rfl (hconnect c')
  | drain c' => exact absurd rfl (hdrain c')
  | sendEnds c' => exact absurd rfl (hends c')
  | _ => rfl

theorem putStep_of_same (h : (w'.rooms.queues ⟨c⟩).buffer = (w.rooms.queues ⟨c⟩).buffer) :
    putStep c w a w' = [] := by
  unfold putStep
  rw [h, List.drop_length]
  cases a <;> rfl

theorem sentStep_of_ne (h : a ≠ .drain c) : sentStep c w a w' = [] := if_neg h

theorem step_logged (hcons : w.Consistent) (h : w.step a = some w') (c : ClientId) :
    Logged w a w' c := by
  cases step_contents hcons h c with
  | same buffer =>
    refine .quiet (putStep_of_same buffer) (sentStep_of_ne ?_) buffer
    rintro rfl
    -- a step that takes a message changes the queue
    obtain ⟨message, queue, hrecv, hqueues⟩ := drain_queues h
    rw [hqueues, Function.update_self, (Mpsc.recv_eq_some.1 hrecv).1] at buffer
    simpa using congrArg List.length buffer
  | emptied action buffer =>
    rcases action with rfl | rfl
    · exact .lost (.inl rfl) rfl (sentStep_of_ne nofun) buffer
    · exact .lost (.inr rfl) rfl (sentStep_of_ne nofun) buffer
  | drained message action buffer =>
    subst action
    refine .sent message rfl ?_ buffer
    rw [sentStep, if_pos rfl, buffer]
    rfl
  | answered s message client speaks before answer isOpen buffer =>
    have hne : ∀ c', a ≠ .connect c' ∧ a ≠ .drain c' ∧ a ≠ .sendEnds c' := by
      intro c'
      refine ⟨?_, ?_, ?_⟩ <;> rintro rfl <;> exact speaks
    refine .answered s message client before answer isOpen ?_ (sentStep_of_ne (hne c).2.1) buffer
    exact putStep_of_append (fun c' => (hne c').1) (fun c' => (hne c').2.1) (fun c' => (hne c').2.2) buffer
  | offered room message n action head listed isOpen buffer =>
    subst action
    refine .offered room message n rfl head listed isOpen ?_ (sentStep_of_ne nofun) buffer
    rw [putStep_of_append, List.map_replicate]
    · exact fun c' heq => by cases heq
    · exact fun c' heq => by cases heq
    · exact fun c' heq => by cases heq
    · exact buffer

variable {metrics : Metrics} {as : List WorldAction}

theorem putInto_concat (h : Run metrics as w) (hstep : w.step a = some w') (c : ClientId) :
    putInto c (init metrics) (as ++ [a]) = putInto c (init metrics) as ++ putStep c w a w' :=
  log_concat h hstep

theorem sentTo_concat (h : Run metrics as w) (hstep : w.step a = some w') (c : ClientId) :
    sentTo c (init metrics) (as ++ [a]) = sentTo c (init metrics) as ++ sentStep c w a w' :=
  log_concat h hstep

/-! ### First in, first out -/

theorem unborn_step (hcons : w.Consistent) (h : w.step a = some w') (hnone' : w'.sessions c = none)
    (hqueue : (w.rooms.queues ⟨c⟩).buffer = [] ∧ w.rooms.closed ⟨c⟩ = false) :
    (w'.rooms.queues ⟨c⟩).buffer = [] ∧ w'.rooms.closed ⟨c⟩ = false := by
  have hnone : w.sessions c = none := by
    by_contra hne
    exact (step_effect h).sessions_ne_none hne hnone'
  refine ⟨?_, ?_⟩
  · cases step_contents hcons h c with
    | same buffer => rw [buffer, hqueue.1]
    | emptied action buffer => exact buffer
    | drained message action buffer =>
      rw [hqueue.1] at buffer
      cases buffer
    | answered s message client speaks before =>
      rw [hnone] at before
      cases before
    | offered room message n action head listed => exact absurd hnone (hcons.connected room c listed)
  · have hother : ∀ c' s, w'.sessions c' = some s → (⟨c⟩ : Sender) ≠ ⟨c'⟩ := by
      intro c' s hs heq
      rw [Sender.mk.inj heq, hs] at hnone'
      cases hnone'
    cases step_effect h with
    | connect c' _ fresh sessions commands rooms acked closed =>
      rw [closed, Function.update_of_ne (hother c' (.new c') (by rw [sessions, Function.update_self]))]
      exact hqueue.2
    | session c' _ s s' cmds _ client found moves moved => rw [moved.closed, hqueue.2]
    | sendEnds c' s _ found sessions commands rooms acked closed =>
      rw [closed, Function.update_of_ne (hother c' s (by rw [sessions, found]))]
      exact hqueue.2
    | coordinate cmd _ buffer closed rooms => rw [rooms, Rooms.closed_process, hqueue.2]
    | sinkBroadcast room message _ cmds sent buffer closed rooms => rw [rooms, hqueue.2]

theorem queue_of_unborn (h : Run metrics as w) (hc : w.sessions c = none) :
    (w.rooms.queues ⟨c⟩).buffer = [] ∧ w.rooms.closed ⟨c⟩ = false := by
  refine exec_history (fun _ w => w.sessions c = none →
    (w.rooms.queues ⟨c⟩).buffer = [] ∧ w.rooms.closed ⟨c⟩ = false) h (fun _ => ⟨rfl, rfl⟩)
    (fun before w₁ a w₂ hbefore ih hstep hnone => ?_) hc
  refine unborn_step (consistent_run hbefore) hstep hnone (ih ?_)
  by_contra hne
  exact (step_effect hstep).sessions_ne_none hne hnone

theorem open_before (h : Run metrics as w) (hstep : w.step a = some w')
    (hopen : w'.rooms.closed ⟨c⟩ = false) : w.rooms.closed ⟨c⟩ = false := by
  by_cases hc : w.sessions c = none
  · exact (queue_of_unborn h hc).2
  · exact (step_effect hstep).closed_of hc hopen

/-- **First in, first out**: what has been sent over the socket of `c`, what its queue holds and what
was lost when `send_task` ended make up what was put into the queue. -/
theorem fifo (h : Run metrics as w) (c : ClientId) : ∃ lost,
    (putInto c (init metrics) as).map Prod.snd =
      sentTo c (init metrics) as ++ ((w.rooms.queues ⟨c⟩).buffer ++ lost) ∧
      (w.rooms.closed ⟨c⟩ = false → lost = []) := by
  refine exec_history (fun as w => ∃ lost, (putInto c (init metrics) as).map Prod.snd =
      sentTo c (init metrics) as ++ ((w.rooms.queues ⟨c⟩).buffer ++ lost) ∧
      (w.rooms.closed ⟨c⟩ = false → lost = [])) h ⟨[], rfl, fun _ => rfl⟩ ?_
  rintro before w₁ a w₂ hbefore ⟨lost, hput, hlost⟩ hstep
  rw [putInto_concat hbefore hstep, sentTo_concat hbefore hstep, List.map_append, hput]
  have hlost' : w₂.rooms.closed ⟨c⟩ = false → lost = [] := fun hopen =>
    hlost (open_before hbefore hstep hopen)
  cases step_logged (consistent_run hbefore) hstep c with
  | quiet put sent buffer => exact ⟨lost, by simp [put, sent, buffer], hlost'⟩
  | lost action put sent buffer =>
    refine ⟨(w₁.rooms.queues ⟨c⟩).buffer ++ lost, by simp [put, sent, buffer], fun hopen => ?_⟩
    rcases action with rfl | rfl
    · have hnone : w₁.sessions c = none := by
        cases step_effect hstep with
        | connect _ _ fresh => exact fresh
        | session c' _ s s' cmds _ client found moves => cases moves
      rw [(queue_of_unborn hbefore hnone).1, hlost' hopen]
      rfl
    · have hclosed : w₂.rooms.closed ⟨c⟩ = true := by
        unfold Rooms.closed
        rw [sendEnds_queues hstep, Function.update_self]
        rfl
      rw [hopen] at hclosed
      cases hclosed
  | sent message put sent buffer => exact ⟨lost, by simp [put, sent, buffer], hlost'⟩
  | answered s message client before' answer isOpen put sent buffer =>
    obtain rfl := hlost isOpen
    exact ⟨[], by simp [put, sent, buffer], fun _ => rfl⟩
  | offered room message n action head listed isOpen put sent buffer =>
    obtain rfl := hlost isOpen
    exact ⟨[], by simp [put, sent, buffer], fun _ => rfl⟩

theorem put_of_sent (h : Run metrics as w) {message : ServerMessage}
    (hmem : message ∈ sentTo c (init metrics) as) : ∃ x ∈ putInto c (init metrics) as, x.2 = message := by
  obtain ⟨lost, hfifo, -⟩ := fifo h c
  have hput : message ∈ (putInto c (init metrics) as).map Prod.snd := by
    rw [hfifo]
    exact List.mem_append_left _ hmem
  exact List.mem_map.1 hput

/-! ### Answers in order -/

/-- The frame that the connection of `c` is at work on. -/
def frameAt (w : World) (c : ClientId) : List Frame :=
  match w.sessions c with
  | none => []
  | some s => s.recvTask.frame

theorem frameAt_of_some (h : w.sessions c = some s) : w.frameAt c = s.recvTask.frame := by
  simp only [frameAt, h]

theorem frameAt_step (h : w.step a = some w') (c : ClientId) :
    (w'.frameAt c).Sublist (w.frameAt c ++ (frameOf c a).toList) := by
  cases (step_effect h).stepped c with
  | same sessions =>
    unfold frameAt
    rw [sessions]
    exact List.sublist_append_left _ _
  | connected action before after =>
    rw [frameAt_of_some after]
    exact List.nil_sublist _
  | moved s s' cmds client before after moves =>
    rw [frameAt_of_some before, frameAt_of_some after]
    exact moves.frame client

theorem framesOf_concat (c : ClientId) (as : List WorldAction) (a : WorldAction) :
    framesOf c (as ++ [a]) = framesOf c as ++ (frameOf c a).toList :=
  filterMap_concat (frameOf c) as a

theorem answersIn_append (messages messages' : List (WorldAction × ServerMessage)) :
    answersIn (messages ++ messages') = answersIn messages ++ answersIn messages' := by
  simp [answersIn]

/-- **Answers are in order**: each frame of a client is answered once at most, and the answers are in
the order of the frames. The frame at work has not been answered yet. -/
theorem answers_inOrder (h : Run metrics as w) (c : ClientId) : ∃ answered,
    (answered ++ w.frameAt c).Sublist (framesOf c as) ∧
      List.Forall₂ (Answers c) answered (answersIn (putInto c (init metrics) as)) := by
  refine exec_history (fun as w => ∃ answered, (answered ++ w.frameAt c).Sublist (framesOf c as) ∧
    List.Forall₂ (Answers c) answered (answersIn (putInto c (init metrics) as))) h
    ⟨[], List.Sublist.refl _, .nil⟩ ?_
  rintro before w₁ a w₂ hbefore ⟨answered, hsub, hanswers⟩ hstep
  rw [framesOf_concat, putInto_concat hbefore hstep, answersIn_append]
  have hquiet : answersIn (putStep c w₁ a w₂) = [] → ∃ answered,
      (answered ++ w₂.frameAt c).Sublist (framesOf c before ++ (frameOf c a).toList) ∧
        List.Forall₂ (Answers c) answered
          (answersIn (putInto c (init metrics) before) ++ answersIn (putStep c w₁ a w₂)) := by
    intro hnil
    refine ⟨answered, ?_, by rwa [hnil, List.append_nil]⟩
    have hframe := (frameAt_step hstep c).append_left answered
    rw [← List.append_assoc] at hframe
    exact hframe.trans (hsub.append_right _)
  cases step_logged (consistent_run hbefore) hstep c with
  | quiet put => exact hquiet (by rw [put]; rfl)
  | lost action put => exact hquiet (by rw [put]; rfl)
  | sent message put => exact hquiet (by rw [put]; rfl)
  | offered room message n action head listed isOpen put =>
    refine hquiet ?_
    rw [put]
    simp [answersIn]
  | answered s message client before' answer isOpen put =>
    have hconnect : a ≠ .connect c := by
      rintro rfl
      cases answer
    have hends : a ≠ .sendEnds c := by
      rintro rfl
      cases answer
    obtain ⟨s₁, s', cmds, hs₁, hs', moves, moved⟩ := (step_effect hstep).moves client hconnect hends
    obtain rfl := Option.some.inj (before'.symm.trans hs₁)
    obtain ⟨frame, hframe, hmessage⟩ := moves.answer client answer
    rw [w₁.clientId_eq c s before'] at hmessage
    have hlog : answersIn (putStep c w₁ a w₂) = [message] := by
      have hne : a ≠ .coordinate := by
        rintro rfl
        cases client
      rw [put]
      simp [answersIn, hne]
    refine ⟨answered ++ [frame], ?_, ?_⟩
    · rw [frameAt_of_some hs', List.append_assoc, List.singleton_append, ← hframe,
        ← frameAt_of_some before', ← List.append_assoc]
      exact hsub.append_right _
    · rw [hlog]
      exact List.rel_append hanswers (.cons hmessage .nil)

/-- What a client is told in a run that leads to `w`. -/
structure Conversation (metrics : Metrics) (as : List WorldAction) (w : World) (c : ClientId) : Prop where
  /-- nothing is sent that was not put into the queue, and nothing overtakes -/
  fifo : ∃ lost, (putInto c (init metrics) as).map Prod.snd =
    sentTo c (init metrics) as ++ ((w.rooms.queues ⟨c⟩).buffer ++ lost) ∧
      (w.rooms.closed ⟨c⟩ = false → lost = [])
  /-- each frame is answered once at most, in order, and with an answer to it -/
  answers : ∃ answered, (answered ++ w.frameAt c).Sublist (framesOf c as) ∧
    List.Forall₂ (Answers c) answered (answersIn (putInto c (init metrics) as))
  /-- also as seen from the socket -/
  onSocket : ∃ messages answered, messages.map Prod.snd = sentTo c (init metrics) as ∧
    messages <+: putInto c (init metrics) as ∧ answered.Sublist (framesOf c as) ∧
      List.Forall₂ (Answers c) answered (answersIn messages)

/-- **What a client is told**, in every run. -/
theorem conversation (metrics : Metrics) (as : List WorldAction) (w : World) (h : Run metrics as w)
    (c : ClientId) : Conversation metrics as w c := by
  obtain ⟨lost, hfifo, hlost⟩ := fifo h c
  obtain ⟨answered, hsub, hanswers⟩ := answers_inOrder h c
  refine ⟨⟨lost, hfifo, hlost⟩, ⟨answered, hsub, hanswers⟩, ?_⟩
  -- the socket has got the first messages of the queue
  let n := (sentTo c (init metrics) as).length
  have hsplit := List.take_append_drop n (putInto c (init metrics) as)
  rw [← hsplit, answersIn_append] at hanswers
  refine ⟨(putInto c (init metrics) as).take n,
    answered.take (answersIn ((putInto c (init metrics) as).take n)).length, ?_, List.take_prefix _ _,
    ?_, ?_⟩
  · rw [List.map_take, hfifo, List.take_left]
  · refine (List.take_sublist _ _).trans ((List.sublist_append_left _ _).trans hsub)
  · exact List.forall₂_take_append _ _ _ hanswers

/-- A client joins a room, hears its own message and sends something that is not a message. -/
def joinSpeakAndFail : List WorldAction :=
  [.connect "a", .receive "a" (.text (.ok (.join "r"))), .handle "a" 0, .coordinate, .resume "a" .acked,
    .record "a", .drain "a", .receive "a" (.text (.ok (.sendMessage "hi"))), .handle "a" 7, .coordinate,
    .receive "a" (.text (.error "EOF")), .drain "a", .drain "a"]

theorem conversation_joinSpeakAndFail : ∃ w, Run {} joinSpeakAndFail w ∧
    sentTo "a" (init {}) joinSpeakAndFail =
      [.joined "a" "r", .message "a" "hi" 7, .error "Invalid message: EOF"] ∧
    Conversation {} joinSpeakAndFail w "a" := by
  obtain ⟨w, hw⟩ : ∃ w, Run {} joinSpeakAndFail w := ⟨_, rfl⟩
  exact ⟨w, hw, by decide +kernel, conversation {} joinSpeakAndFail w hw "a"⟩

end World
end MiniGraph
