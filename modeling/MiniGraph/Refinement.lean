import MiniGraph.AcceptedCommands
import MiniGraph.Conversations
import MiniGraph.MessageOrder

/-!
# The two models of the coordinator

A `World` takes a command in one step, a `Coordinator` is interrupted between any two `try_send`s but
knows nothing of the sessions. Each run of the former is one of the latter (`refines_run`), with the same
commands, the same lists and the same messages in every queue. So what holds of the order of the messages
in a `Coordinator` holds on the sockets of a `World` (`refines_inOrder`).
-/

namespace MiniGraph
open Lib

/-! ### The counter that the coordinator does not have -/

namespace Rooms
variable {s : Rooms} {n : UInt64} {message : ServerMessage}

/-- With `n` as the number of commands that were refused. -/
def counting (n : UInt64) (s : Rooms) : Rooms :=
  { s with metrics := { s.metrics with actorCmdDropsTotal := n } }

theorem offer_counting (p : Rooms × List ClientId) (client : ClientId × Sender) :
    offer message (p.1.counting n, p.2) client =
      ((offer message p client).1, (offer message p client).2.1.counting n, (offer message p client).2.2) := by
  cases hsend : (p.1.queues client.2).trySend message with
  | ok queue =>
    have hsend' : ((p.1.counting n).queues client.2).trySend message = .ok queue := hsend
    simp only [offer, hsend, hsend']
    rfl
  | error err =>
    have hsend' : ((p.1.counting n).queues client.2).trySend message = .error err := hsend
    rcases err with _ | _
    · simp only [offer, hsend, hsend']
      rfl
    · simp only [offer, hsend, hsend']

theorem fanout_counting (s : Rooms) (message : ServerMessage) (clients : List (ClientId × Sender)) :
    (s.counting n).fanout message clients =
      ((s.fanout message clients).1, (s.fanout message clients).2.1.counting n,
        (s.fanout message clients).2.2) := by
  have hsim : (runs (offer message) (s, []) clients).1 = (runs (offer message) (s.counting n, []) clients).1 ∧
      (runs (offer message) (s.counting n, []) clients).2 =
        ((runs (offer message) (s, []) clients).2.1.counting n, (runs (offer message) (s, []) clients).2.2) := by
    refine runs_simulation (R := fun p q : Rooms × List ClientId => q = (p.1.counting n, p.2)) rfl ?_ clients
    rintro p q client rfl
    rw [offer_counting]
    exact ⟨rfl, rfl⟩
  exact Prod.ext hsim.1.symm hsim.2

theorem process_counting (s : Rooms) (cmd : RoomCommand) :
    (s.counting n).process cmd = (s.process cmd).counting n := by
  cases cmd with
  | join room clientId tx respondTo => rfl
  | leave room clientId =>
    cases hroom : s.rooms.lookup room with
    | none =>
      have hroom' : (s.counting n).rooms.lookup room = none := hroom
      simp only [process, leave, hroom, hroom']
    | some clients =>
      have hroom' : (s.counting n).rooms.lookup room = some clients := hroom
      simp only [process, leave, hroom, hroom']
      rfl
  | broadcast room message =>
    cases hroom : s.rooms.lookup room with
    | none =>
      have hroom' : (s.counting n).rooms.lookup room = none := hroom
      simp only [process, broadcast, hroom, hroom']
    | some clients =>
      have hroom' : (s.counting n).rooms.lookup room = some clients := hroom
      simp only [process, broadcast, fanout_counting, hroom, hroom']
      split_ifs <;> rfl

end Rooms

/-! ### What the coordinator puts into a queue -/

/-- The message that goes into the queue of `tx` in an event, and whether it is a broadcast. -/
def RoomEvent.message (tx : Sender) : RoomEvent → Option (Bool × ServerMessage)
  | .offered _ client message (.ok ()) => if client.2 = tx then some (true, message) else none
  | .replied tx' message => if tx' = tx then some (false, message) else none
  | _ => none

/-- An event that takes nothing out of the queues, and puts broadcasts or other messages into them. -/
def RoomEvent.Fills (broadcast : Bool) : RoomEvent → Prop
  | .offered _ _ _ _ => broadcast = true
  | .replied _ _ => broadcast = false
  | .received _ _ | .closed _ => False
  | _ => True

theorem RoomEvent.Fills.receivedBy {e : RoomEvent} {broadcast : Bool} (h : e.Fills broadcast) (tx : Sender) :
    e.receivedBy tx = none := by
  cases e with
  | received tx' message => exact absurd h id
  | _ => rfl

theorem puts_message (tx : Sender) (es : List RoomEvent) :
    (puts tx es).map (fun x => (x.1.isSome, x.2)) = es.filterMap (RoomEvent.message tx) := by
  unfold puts
  generalize 0 = n
  induction es generalizing n with
  | nil => rfl
  | cons e es ih =>
    have hhead : (RoomEvent.put tx (n, e)).map (fun x => (x.1.isSome, x.2)) = e.message tx := by
      rcases e with _ | _ | _ | ⟨room, client, message, _ | _⟩ | _ | _ | _ | _
      case offered.ok => simp only [RoomEvent.put, RoomEvent.message]; split_ifs <;> rfl
      case replied => simp only [RoomEvent.put, RoomEvent.message]; split_ifs <;> rfl
      all_goals rfl
    rw [numbered, List.filterMap_cons, List.filterMap_cons, ← hhead]
    cases RoomEvent.put tx (n, e) with
    | none => exact ih _
    | some x => exact congrArg (_ :: ·) (ih _)

namespace Coordinator
variable {s s' : Coordinator} {e : RoomEvent} {broadcast : Bool}

/-- What is put into a queue in an event is what it has at its end afterwards. -/
theorem Effect.fills (h : Effect s e s') (hfills : e.Fills broadcast) (tx : Sender) : ∃ messages,
    (s'.rooms.queues tx).buffer = (s.rooms.queues tx).buffer ++ messages ∧
      (e.message tx).toList = messages.map (broadcast, ·) := by
  have hsame : (s'.rooms.queues tx) = s.rooms.queues tx → e.message tx = none → ∃ messages,
      (s'.rooms.queues tx).buffer = (s.rooms.queues tx).buffer ++ messages ∧
        (e.message tx).toList = messages.map (broadcast, ·) := by
    intro hqueue hmessage
    exact ⟨[], by simp [hqueue], by simp [hmessage]⟩
  have hsent : ∀ tx' message (queue : ClientQueue), (s.rooms.queues tx').trySend message = .ok queue →
      s'.rooms.queues = Function.update s.rooms.queues tx' queue →
        e.message tx = (if tx' = tx then some (broadcast, message) else none) → ∃ messages,
          (s'.rooms.queues tx).buffer = (s.rooms.queues tx).buffer ++ messages ∧
            (e.message tx).toList = messages.map (broadcast, ·) := by
    intro tx' message queue hsend hqueues hmessage
    by_cases htx : tx' = tx
    · subst htx
      refine ⟨[message], ?_, by simp [hmessage]⟩
      rw [hqueues, Function.update_self]
      exact (Mpsc.trySend_eq_ok.1 hsend).2.2.1
    · refine hsame ?_ (by simp [hmessage, htx])
      rw [hqueues, Function.update_of_ne (Ne.symm htx)]
  cases h with
  | idle => exact hsame rfl rfl
  | accepted cmd commands buffer => exact hsame rfl rfl
  | taken cmd commands idle buffer =>
    refine hsame ?_ rfl
    cases cmd with
    | leave room clientId => exact congrFun (Rooms.leave_queues s.rooms room clientId) tx
    | _ => rfl
  | offered f client remaining result rooms failedClients fanout next offer =>
    obtain rfl : broadcast = true := hfills
    unfold Rooms.offer at offer
    cases hsend : (s.rooms.queues client.2).trySend f.message with
    | ok queue =>
      simp only [hsend, Prod.mk.injEq] at offer
      obtain ⟨rfl, rfl, rfl⟩ := offer
      exact hsent client.2 f.message queue hsend rfl rfl
    | error err =>
      rcases err with _ | _
      all_goals
        simp only [hsend, Prod.mk.injEq] at offer
        obtain ⟨rfl, rfl, rfl⟩ := offer
        exact hsame rfl rfl
  | finished f fanout next =>
    refine hsame ?_ rfl
    unfold finish
    simp only
    split_ifs <;> rfl
  | replied tx' message queue sent =>
    obtain rfl : broadcast = false := hfills
    exact hsent tx' message queue sent rfl rfl
  | received tx' message queue recv => exact absurd hfills id
  | closed tx' => exact absurd hfills id

/-- The same of some events in a row. -/
theorem runs_fills (s : Coordinator) (as : List CoordinatorAction) (tx : Sender)
    (hfills : ∀ s : Coordinator, ∀ a ∈ as, (s.step a).1.Fills broadcast) : ∃ messages,
      ((runs step s as).2.rooms.queues tx).buffer = (s.rooms.queues tx).buffer ++ messages ∧
        (runs step s as).1.filterMap (RoomEvent.message tx) = messages.map (broadcast, ·) ∧
          received tx (runs step s as).1 = [] := by
  induction as generalizing s with
  | nil => exact ⟨[], by simp [runs], rfl, rfl⟩
  | cons a as ih =>
    have hfirst := hfills s a List.mem_cons_self
    obtain ⟨messages, hbuffer, hmessages⟩ := (step_effect s a).fills hfirst tx
    obtain ⟨messages', hbuffer', hmessages', hreceived⟩ :=
      ih (s.step a).2 fun s a ha => hfills s a (List.mem_cons_of_mem _ ha)
    refine ⟨messages ++ messages', ?_, ?_, ?_⟩
    · rw [runs, hbuffer', hbuffer, List.append_assoc]
    · rw [runs, List.filterMap_cons, List.map_append, ← hmessages, ← hmessages']
      cases (s.step a).1.message tx <;> rfl
    · rw [runs, received, List.filterMap_cons_none (hfirst.receivedBy tx)]
      exact hreceived

/-! ### The inputs that match a step of the world -/

theorem fills_coordinate (s : Coordinator) : (s.step .coordinate).1.Fills true := by
  simp only [step]
  split
  · rename_i f hf
    unfold pass
    split
    · rfl
    · trivial
  · split <;> trivial

theorem fills_send (s : Coordinator) (cmd : RoomCommand) (broadcast : Bool) :
    (s.step (.send cmd)).1.Fills broadcast := by
  simp only [step]
  split <;> trivial

theorem fills_reply (s : Coordinator) (tx : Sender) (message : ServerMessage) :
    (s.step (.reply tx message)).1.Fills false := by
  simp only [step]
  split
  · rfl
  · trivial

theorem acceptedCommands_coordinate (s : Coordinator) (k : Nat) :
    acceptedCommands (runs step s (List.replicate k .coordinate)).1 = [] := by
  induction k generalizing s with
  | zero => rfl
  | succ k ih =>
    have hnone : (s.step .coordinate).1.acceptedCommand = none := by
      simp only [step, pass]
      split
      · split <;> rfl
      · split <;> rfl
    rw [List.replicate_succ, runs, acceptedCommands, List.filterMap_cons_none hnone]
    exact ih _

/-- Commands for which there is room are all accepted. -/
theorem runs_send {cmds : List RoomCommand} {commands : CommandChannel}
    (hopen : s.commands.closed = false) (hopen' : commands.closed = false)
    (hbuffer : commands.buffer = s.commands.buffer ++ cmds) :
    (runs step s (cmds.map .send)).2 = { s with commands } ∧
      acceptedCommands (runs step s (cmds.map .send)).1 = cmds := by
  induction cmds generalizing s with
  | nil =>
    obtain ⟨rooms, ⟨buffer, closed, hlength⟩, fanout⟩ := s
    obtain ⟨buffer', closed', hlength'⟩ := commands
    simp only [List.append_nil] at hopen hopen' hbuffer
    subst hopen hopen' hbuffer
    exact ⟨rfl, rfl⟩
  | cons cmd cmds ih =>
    have hroom : s.commands.buffer.length < roomsCoordinatorChannelCapacity := by
      have hlength := commands.length_le
      simp only [hbuffer, List.length_append, List.length_cons] at hlength
      omega
    let next : CommandChannel :=
      ⟨s.commands.buffer ++ [cmd], false, by simp only [List.length_append, List.length_singleton]; omega⟩
    have hsend : s.commands.trySend cmd = .ok next := Mpsc.trySend_eq_ok.2 ⟨hopen, rfl, rfl, hroom⟩
    have hstep : s.step (.send cmd) = (.accepted cmd, { s with commands := next }) := by
      simp only [step, hsend]
    obtain ⟨hstate, hcommands⟩ := ih (s := { s with commands := next }) rfl (by simp [hbuffer, next])
    rw [List.map_cons, runs, hstep]
    exact ⟨hstate, congrArg (cmd :: ·) hcommands⟩

theorem runs_tell (s : Coordinator) (tx : Sender) (answer : Option ServerMessage) :
    (runs step s (answer.toList.map (.reply tx))).2 =
        { s with rooms := { s.rooms with queues := tell s.rooms.queues tx answer } } ∧
      acceptedCommands (runs step s (answer.toList.map (.reply tx))).1 = [] := by
  cases answer with
  | none => exact ⟨rfl, rfl⟩
  | some message =>
    show (s.step (.reply tx message)).2 = _ ∧ acceptedCommands [(s.step (.reply tx message)).1] = []
    simp only [step, tell, trySendTo]
    cases (s.rooms.queues tx).trySend message with
    | ok queue => exact ⟨rfl, rfl⟩
    | error err => exact ⟨rfl, rfl⟩

end Coordinator

/-! ### The refinement -/

namespace World
variable {w w' : World} {a : WorldAction} {as : List WorldAction} {metrics : Metrics} {n : UInt64}
  {c : ClientId}

/-- The coordinator in a world, between two commands. -/
def coordinator (n : UInt64) (w : World) : Coordinator where
  rooms := w.rooms.counting n
  commands := w.commands
  fanout := none

/-- A message and whether it is a broadcast. -/
def broadcastOr (x : WorldAction × ServerMessage) : Bool × ServerMessage := (x.1 = .coordinate, x.2)

/-- A step of the world can be seen in the events `es`. -/
structure Shows (w : World) (a : WorldAction) (w' : World) (es : List RoomEvent) : Prop where
  commands : acceptedCommands es = accepted w [a]
  put : ∀ c, es.filterMap (RoomEvent.message ⟨c⟩) = (putStep c w a w').map broadcastOr
  sent : ∀ c, received ⟨c⟩ es = sentStep c w a w'

def Matched (n : UInt64) (w : World) (a : WorldAction) (w' : World) : Prop :=
  ∃ cs, (runs Coordinator.step (w.coordinator n) cs).2 = w'.coordinator n ∧
    Shows w a w' (runs Coordinator.step (w.coordinator n) cs).1

theorem matched_of_fills (cs : List CoordinatorAction)
    (hend : (runs Coordinator.step (w.coordinator n) cs).2 = w'.coordinator n)
    (hfills : ∀ s : Coordinator, ∀ b ∈ cs, (s.step b).1.Fills (a = .coordinate))
    (hconnect : ∀ c, a ≠ .connect c) (hdrain : ∀ c, a ≠ .drain c) (hends : ∀ c, a ≠ .sendEnds c)
    (hcommands : acceptedCommands (runs Coordinator.step (w.coordinator n) cs).1 = accepted w [a]) :
    Matched n w a w' := by
  refine ⟨cs, hend, hcommands, fun c => ?_, fun c => ?_⟩
  · obtain ⟨messages, hbuffer, hmessages, -⟩ := (w.coordinator n).runs_fills cs ⟨c⟩ hfills
    rw [hend] at hbuffer
    rw [hmessages, putStep_of_append hconnect hdrain hends hbuffer, List.map_map]
    rfl
  · obtain ⟨-, -, -, hreceived⟩ := (w.coordinator n).runs_fills cs ⟨c⟩ hfills
    rw [hreceived, sentStep_of_ne (hdrain c)]

/-- Commands that are sent and an answer. -/
theorem matched_of_tell (hcons : w.Consistent) (hstep : w.step a = some w') {cmds : List RoomCommand}
    (tx : Sender) (answer : Option ServerMessage) (hcoordinate : a ≠ .coordinate)
    (hconnect : ∀ c, a ≠ .connect c) (hdrain : ∀ c, a ≠ .drain c) (hends : ∀ c, a ≠ .sendEnds c)
    (hbuffer : w'.commands.buffer = w.commands.buffer ++ cmds)
    (hrooms : w'.rooms.counting n =
      { w.rooms.counting n with queues := tell w.rooms.queues tx answer }) : Matched n w a w' := by
  have hopen : w'.commands.closed = false := (hcons.step hstep).channel
  obtain ⟨hsent, haccepted⟩ := Coordinator.runs_send (s := w.coordinator n) hcons.channel hopen hbuffer
  obtain ⟨htold, hnone⟩ :=
    Coordinator.runs_tell (runs Coordinator.step (w.coordinator n) (cmds.map .send)).2 tx answer
  have haction : decide (a = .coordinate) = false := decide_eq_false hcoordinate
  refine matched_of_fills (cmds.map .send ++ answer.toList.map (.reply tx)) ?_ ?_ hconnect hdrain hends ?_
  · rw [runs_append, htold, hsent]
    unfold coordinator
    rw [hrooms]
    rfl
  · intro s b hb
    rw [haction]
    rcases List.mem_append.1 hb with hb | hb
    · obtain ⟨cmd, -, rfl⟩ := List.mem_map.1 hb
      exact s.fills_send cmd false
    · obtain ⟨message, -, rfl⟩ := List.mem_map.1 hb
      exact s.fills_reply tx message
  · have hcommands : accepted w [a] = cmds := by
      rw [accepted_puts hstep hcoordinate hbuffer]
      exact List.append_nil _
    rw [runs_append, hcommands, acceptedCommands, List.filterMap_append]
    exact (congrArg₂ _ haccepted hnone).trans (List.append_nil _)

theorem matched_coordinate (hstep : w.step .coordinate = some w') : Matched n w .coordinate w' := by
  cases step_effect hstep with
  | session c _ s s' cmds _ client => cases client
  | coordinate cmd _ buffer closed rooms =>
    have hrecv : (w.coordinator n).commands.recv = some (cmd, w'.commands) :=
      Mpsc.recv_eq_some.2 ⟨buffer, closed⟩
    obtain ⟨k, hk⟩ := Coordinator.coordinate_process (s := w.coordinator n) rfl hrecv
    have hcommands : accepted w [.coordinate] = [] := accepted_takes hstep rfl
    refine matched_of_fills (List.replicate k .coordinate) ?_ ?_ (by rintro _ ⟨⟩) (by rintro _ ⟨⟩)
      (by rintro _ ⟨⟩) ?_
    · rw [hk, coordinator, coordinator, rooms, Rooms.process_counting]
    · intro s b hb
      rw [List.eq_of_mem_replicate hb]
      exact s.fills_coordinate
    · rw [hcommands, Coordinator.acceptedCommands_coordinate]

theorem matched_speaks (hcons : w.Consistent) (hc : clientOf a = some c) (hspeaks : Speaks a)
    (hstep : w.step a = some w') : Matched n w a w' := by
  obtain ⟨s, hs, hspoken⟩ := step_spoken hc hspeaks hstep
  cases (step_effect hstep).channel with
  | takes cmd action =>
    rw [action] at hc
    cases hc
  | puts cmds action buffer rooms acked =>
    refine matched_of_tell hcons hstep s.tx (s.answer (w.refuses a) a) action ?_ ?_ ?_ buffer ?_
    · rintro c rfl
      exact hspeaks
    · rintro c rfl
      exact hspeaks
    · rintro c rfl
      exact hspeaks
    · have hmetrics : { w'.rooms.metrics with actorCmdDropsTotal := n } =
          { w.rooms.metrics with actorCmdDropsTotal := n } := by
        rw [hspoken.metrics]
        split_ifs <;> rfl
      simp only [Rooms.counting, rooms, acked, hmetrics, hspoken.queues]

theorem accepted_silent (hstep : w.step a = some w') (hc : clientOf a = some c)
    (hcommands : w'.commands = w.commands) : accepted w [a] = [] := by
  refine accepted_puts hstep ?_ (by rw [hcommands, List.append_nil])
  rintro rfl
  cases hc

/-- A new connection gets a queue that nobody has used. -/
theorem matched_connect (h : Run metrics as w) (hstep : w.step (.connect c) = some w') :
    Matched n w (.connect c) w' := by
  obtain ⟨hfresh, rfl⟩ := connect_eq hstep
  have hunused : w.rooms.queues ⟨c⟩ = .empty :=
    Mpsc.eq_of_buffer (queue_of_unborn h hfresh).1 (queue_of_unborn h hfresh).2
  refine ⟨[], ?_, (accepted_silent hstep rfl rfl).symm, fun c' => rfl, fun c' => ?_⟩
  · show w.coordinator n = _
    unfold coordinator setQueue
    rw [← hunused, Function.update_eq_self]
    rfl
  · rw [sentStep_of_ne (by rintro ⟨⟩)]
    rfl

theorem matched_drain (hstep : w.step (.drain c) = some w') : Matched n w (.drain c) w' := by
  obtain ⟨message, queue, hrecv, rfl⟩ := drain_eq hstep
  have hrecv' : ((w.coordinator n).rooms.queues ⟨c⟩).recv = some (message, queue) := hrecv
  have hmatch : (w.coordinator n).step (.drain ⟨c⟩) =
      (.received ⟨c⟩ message, (w.coordinator n).setQueue ⟨c⟩ queue) := by
    simp only [Coordinator.step, hrecv']
  refine ⟨[.drain ⟨c⟩], ?_, ?_, fun c' => ?_, fun c' => ?_⟩
  · rw [runs, runs, hmatch]
    rfl
  · rw [runs, runs, hmatch, accepted_silent hstep rfl rfl]
    rfl
  · rw [runs, runs, hmatch]
    rfl
  · rw [runs, runs, hmatch, received, sentStep]
    by_cases hid : c = c'
    · subst hid
      rw [if_pos rfl, (Mpsc.recv_eq_some.1 hrecv).1]
      simp [RoomEvent.receivedBy]
    · simp [RoomEvent.receivedBy, hid]

theorem matched_sendEnds (hstep : w.step (.sendEnds c) = some w') : Matched n w (.sendEnds c) w' := by
  obtain rfl := sendEnds_eq hstep
  refine ⟨[.close ⟨c⟩], rfl, (accepted_silent hstep rfl rfl).symm, fun c' => rfl, fun c' => ?_⟩
  rw [sentStep_of_ne (by rintro ⟨⟩)]
  rfl

theorem matched_sinkBroadcast {room : DocumentId} {message : ServerMessage} (hcons : w.Consistent)
    (hstep : w.step (.sinkBroadcast room message) = some w') :
    Matched n w (.sinkBroadcast room message) w' := by
  cases step_effect hstep with
  | session c _ s s' cmds _ client => cases client
  | sinkBroadcast _ _ _ cmds sent buffer closed rooms =>
    -- nobody is told anything
    refine matched_of_tell hcons hstep ⟨""⟩ none (by rintro ⟨⟩) (by rintro _ ⟨⟩) (by rintro _ ⟨⟩)
      (by rintro _ ⟨⟩) buffer ?_
    rw [rooms]
    rfl

/-- **Every step of the world is matched.** -/
theorem matched_step (h : Run metrics as w) (hstep : w.step a = some w') : Matched n w a w' := by
  have hcons := consistent_run h
  cases a with
  | coordinate => exact matched_coordinate hstep
  | connect c => exact matched_connect h hstep
  | drain c => exact matched_drain hstep
  | sendEnds c => exact matched_sendEnds hstep
  | sinkBroadcast room message => exact matched_sinkBroadcast hcons hstep
  | _ => exact matched_speaks hcons rfl trivial hstep

/-- A run of the world and the events of a coordinator that show the same. -/
structure Refines (metrics : Metrics) (as : List WorldAction) (w : World) (es : List RoomEvent)
    (s : Coordinator) : Prop where
  state : s = w.coordinator metrics.actorCmdDropsTotal
  commands : acceptedCommands es = accepted (init metrics) as
  put : ∀ c, es.filterMap (RoomEvent.message ⟨c⟩) = (putInto c (init metrics) as).map broadcastOr
  sent : ∀ c, received ⟨c⟩ es = sentTo c (init metrics) as

theorem refines_run (h : Run metrics as w) :
    ∃ cs, Refines metrics as w (Coordinator.run metrics cs).1 (Coordinator.run metrics cs).2 := by
  refine exec_simulation (fun as w es s => Refines metrics as w es s) h
    ⟨rfl, rfl, fun c => rfl, fun c => rfl⟩ ?_
  rintro before w₁ a w₂ es s hbefore hstep ⟨rfl, hcommands, hput, hsent⟩
  obtain ⟨cs, hstate, hshows⟩ := matched_step hbefore hstep
  refine ⟨cs, hstate, ?_, fun c => ?_, fun c => ?_⟩
  · rw [acceptedCommands, List.filterMap_append, accepted_append hbefore, ← hcommands, ← hshows.commands]
    rfl
  · rw [List.filterMap_append, putInto_concat hbefore hstep, List.map_append, hput, hshows.put]
  · rw [received, List.filterMap_append, sentTo_concat hbefore hstep, ← hsent, ← hshows.sent]
    rfl

/-! ### The order of the messages on the sockets -/

/-- The messages that are put into the queues, with the numbers of the accepted commands that they come
from; an answer of the connection itself has none. -/
structure InOrder (metrics : Metrics) (as : List WorldAction)
    (numbered : ClientId → List (Option Nat × ServerMessage)) : Prop where
  put : ∀ c, (numbered c).map (fun x => (x.1.isSome, x.2)) =
    (putInto c (init metrics) as).map broadcastOr
  broadcasts : ∀ c, Stutters (broadcastsIn (numbered c)) (broadcasts (accepted (init metrics) as))
  sent : ∀ c, sentTo c (init metrics) as =
    ((numbered c).take (sentTo c (init metrics) as).length).map Prod.snd
  /-- no two sockets see two broadcasts in opposite orders -/
  agree : ∀ c c' x y, x ≠ y →
    [x, y].Sublist (broadcastsIn ((numbered c).take (sentTo c (init metrics) as).length)) →
      ¬ [y, x].Sublist (broadcastsIn ((numbered c').take (sentTo c' (init metrics) as).length))

theorem Refines.inOrder {es : List RoomEvent} {s : Coordinator} (h : Refines metrics as w es s)
    (horder : Coordinator.InOrder es s) : InOrder metrics as fun c => puts ⟨c⟩ es := by
  have hbroadcasts : ∀ c : ClientId,
      Stutters (broadcastsIn (puts ⟨c⟩ es)) (broadcasts (accepted (init metrics) as)) := by
    intro c
    obtain ⟨later, hlater⟩ := broadcasts_append (takenCommands es) s.commands.buffer
    rw [← h.commands, horder.fifo, hlater]
    exact (horder.order ⟨c⟩).append later
  have hpairwise : ∀ (c : ClientId) (n : Nat),
      (broadcastsIn ((puts ⟨c⟩ es).take n)).Pairwise fun x y => x = y ∨ x.1 < y.1 := by
    intro c n
    refine ((hbroadcasts c).pairwise (broadcasts_pairwise _)).sublist ?_
    exact (List.take_sublist _ _).filterMap _
  refine ⟨fun c => ?_, hbroadcasts, fun c => ?_, fun c c' x y hne hxy hyx => ?_⟩
  · rw [puts_message, h.put]
  · obtain ⟨lost, hputs, -⟩ := horder.queue ⟨c⟩
    rw [List.map_take, hputs, ← h.sent, List.take_left]
  · have hlt := List.Pairwise.sublist hxy (hpairwise c _)
    have hgt := List.Pairwise.sublist hyx (hpairwise c' _)
    simp only [List.pairwise_pair] at hlt hgt
    rcases hlt with heq | hlt
    · exact hne heq
    · rcases hgt with heq | hgt
      · exact hne heq.symm
      · omega

/-- **The world refines the coordinator**, and its sockets agree on the order of the broadcasts: in every
run each queue, and each socket, goes through the broadcasts in the order in which the channel has
accepted them. -/
theorem refines_inOrder (metrics : Metrics) (as : List WorldAction) (w : World) (h : Run metrics as w) :
    ∃ cs, Refines metrics as w (Coordinator.run metrics cs).1 (Coordinator.run metrics cs).2 ∧
      InOrder metrics as fun c => puts ⟨c⟩ (Coordinator.run metrics cs).1 := by
  obtain ⟨cs, hrefines⟩ := refines_run h
  exact ⟨cs, hrefines, hrefines.inOrder (Coordinator.inOrder_run metrics cs)⟩

/-- Two clients are in the same room, and each speaks. -/
def twoSpeak : List WorldAction :=
  [.connect "a", .connect "b", .receive "a" (.text (.ok (.join "r"))), .handle "a" 0,
    .receive "b" (.text (.ok (.join "r"))), .handle "b" 0, .coordinate, .coordinate, .resume "a" .acked,
    .record "a", .receive "a" (.text (.ok (.sendMessage "hi"))),
    .handle "a" 1, .resume "b" .acked, .record "b", .receive "b" (.text (.ok (.sendMessageTo "r" "ho"))),
    .handle "b" 2, .coordinate, .coordinate, .drain "a", .drain "a", .drain "a", .drain "b", .drain "b",
    .drain "b"]

theorem refines_inOrder_twoSpeak : ∃ w cs, Run {} twoSpeak w ∧
    Refines {} twoSpeak w (Coordinator.run {} cs).1 (Coordinator.run {} cs).2 ∧
      InOrder {} twoSpeak fun c => puts ⟨c⟩ (Coordinator.run {} cs).1 := by
  obtain ⟨w, hw⟩ : ∃ w, Run {} twoSpeak w := Option.isSome_iff_exists.1 (by decide +kernel)
  obtain ⟨cs, h⟩ := refines_inOrder {} twoSpeak w hw
  exact ⟨w, cs, hw, h⟩

end World
end MiniGraph
