import MiniGraph.WebSocket

/-!
# What a step can do

`step_effect` says once what a step of the world does to the sessions, the command channel, the room
lists, the acknowledgements and the open queues; the invariants of the other modules are derived from
it. What is in the queues, and the metrics, it leaves open. `Effect.channel` and `Effect.stepped` read
off it what becomes of the channel and of the session of one client.
-/

namespace MiniGraph
open Lib

/-! ### The commands that are sent -/

/-- The document of the `Join` that is about to be handled. -/
def RecvTask.joinAhead : RecvTask → Option DocumentId
  | .handling (.join documentId) => some documentId
  | _ => none

/-- The broadcast for which `msg` asks, if the client may ask for it. -/
def Session.broadcastFor (session : Session) (now : UInt64) : ClientMessage → Option RoomCommand
  | .join _ => none
  | .sendMessage text =>
    session.currentRoom.map fun room => .broadcast room (.newMessage session.clientId text now)
  | .sendMessageTo documentId text =>
    some (.broadcast documentId (.newMessage session.clientId text now))

namespace World

/-- The command that a step tries to send. -/
def sends (w : World) : WorldAction → Option RoomCommand
  | .handle clientId now =>
    match w.sessions clientId with
    | none => none
    | some session =>
      match session.recvTask with
      | .handling (.join documentId) =>
        some (.join documentId session.clientId session.tx w.nextAck)
      | .handling msg => session.broadcastFor now msg
      | _ => none
  | .leave clientId =>
    match w.sessions clientId with
    | none => none
    | some session => session.currentRoom.map (.leave · session.clientId)
  | .sinkBroadcast room message => some (.broadcast room message)
  | _ => none

/-- The command of a step is refused by the channel. -/
def refuses (w : World) (a : WorldAction) : Bool :=
  match w.sends a with
  | none => false
  | some cmd => !(w.commands.trySend cmd).isOk

/-- The command of the step, if it sends one, finds room in the channel. -/
def Accepted (w : World) (a : WorldAction) : Prop := w.refuses a = false

instance (w : World) : DecidablePred w.Accepted := fun a => inferInstanceAs (Decidable (w.refuses a = false))

/-! ### Frames -/

section Frames
variable (w : World) (session : Session) (tx : Sender) (queue : ClientQueue) (message : ServerMessage)
  (err : RoomCommandError) (result : Except WebSocketError Unit)

@[simp] theorem setSession_rooms : (w.setSession session).rooms = w.rooms := rfl
@[simp] theorem setSession_commands : (w.setSession session).commands = w.commands := rfl
@[simp] theorem setSession_nextAck : (w.setSession session).nextAck = w.nextAck := rfl
@[simp] theorem setSession_sessions : (w.setSession session).sessions =
    Function.update w.sessions session.clientId (some session) := rfl

@[simp] theorem setQueue_closed : (w.setQueue tx queue).rooms.closed =
    Function.update w.rooms.closed tx queue.closed := by
  funext tx'
  show (Function.update w.rooms.queues tx queue tx').closed = _
  by_cases htx : tx' = tx
  · rw [htx, Function.update_self, Function.update_self]
  · rw [Function.update_of_ne htx, Function.update_of_ne htx]
    rfl

/-- Nothing but the contents of the queues and the metrics may have changed. -/
structure Quiet (w w' : World) : Prop where
  rooms : w'.rooms.rooms = w.rooms.rooms
  acked : w'.rooms.acked = w.rooms.acked
  closed : w'.rooms.closed = w.rooms.closed
  commands : w'.commands = w.commands
  sessions : w'.sessions = w.sessions
  nextAck : w'.nextAck = w.nextAck

theorem quiet_reply : Quiet w (w.reply tx message) := by
  unfold reply
  cases h : (w.rooms.queues tx).trySend message with
  | error _ => exact ⟨rfl, rfl, rfl, rfl, rfl, rfl⟩
  | ok queue =>
    refine ⟨rfl, rfl, ?_, rfl, rfl, rfl⟩
    obtain ⟨hopen, hopen', -⟩ := Mpsc.trySend_eq_ok.1 h
    have hsame : w.rooms.closed tx = queue.closed := hopen.trans hopen'.symm
    rw [setQueue_closed, ← hsame, Function.update_eq_self]

theorem quiet_countDrop : Quiet w (w.countDrop err) := by
  cases err <;> exact ⟨rfl, rfl, rfl, rfl, rfl, rfl⟩

theorem quiet_finishMessage :
    Quiet (w.setSession { session with recvTask := .awaitingFrame }) (w.finishMessage session result) := by
  unfold finishMessage
  rcases result with err | _
  · exact quiet_reply _ _ _
  · exact ⟨rfl, rfl, rfl, rfl, rfl, rfl⟩

end Frames

/-! ### The moves of a connection -/

/-- What a step of a connection can do: the session after it, and the commands that it has put into
the channel. -/
inductive Moves (w : World) (s : Session) : WorldAction → Session → List RoomCommand → Prop
  | receive (c : ClientId) (msg : ClientMessage) : s.recvTask = .awaitingFrame →
      Moves w s (.receive c (.text (.ok msg))) { s with recvTask := .handling msg } []
  | skip (c : ClientId) (frame : Frame) : s.recvTask = .awaitingFrame →
      Moves w s (.receive c frame) s []
  | joinSent (c : ClientId) (now : UInt64) (d : DocumentId) : s.recvTask = .handling (.join d) →
      w.refuses (.handle c now) = false →
      Moves w s (.handle c now) { s with recvTask := .awaitingAck d w.nextAck }
        [.join d s.clientId s.tx w.nextAck]
  | joinRefused (c : ClientId) (now : UInt64) (d : DocumentId) : s.recvTask = .handling (.join d) →
      w.refuses (.handle c now) → Moves w s (.handle c now) { s with recvTask := .awaitingFrame } []
  | sent (c : ClientId) (now : UInt64) (msg : ClientMessage) (cmd : RoomCommand) :
      s.recvTask = .handling msg → s.broadcastFor now msg = some cmd → w.refuses (.handle c now) = false →
      Moves w s (.handle c now) { s with recvTask := .awaitingFrame } [cmd]
  | sendRefused (c : ClientId) (now : UInt64) (msg : ClientMessage) (cmd : RoomCommand) :
      s.recvTask = .handling msg → s.broadcastFor now msg = some cmd → w.refuses (.handle c now) →
      Moves w s (.handle c now) { s with recvTask := .awaitingFrame } []
  | notInRoom (c : ClientId) (now : UInt64) (text : String) :
      s.recvTask = .handling (.sendMessage text) → s.currentRoom = none →
      Moves w s (.handle c now) { s with recvTask := .awaitingFrame } []
  | acked (c : ClientId) (d : DocumentId) (k : AckId) : s.recvTask = .awaitingAck d k →
      k ∈ w.rooms.acked → Moves w s (.resume c .acked) { s with recvTask := .recording d } []
  | failed (c : ClientId) (d : DocumentId) (k : AckId) (outcome : AckOutcome) :
      s.recvTask = .awaitingAck d k → outcome ≠ .acked → k ∉ w.rooms.acked →
      (outcome = .dropped → w.ackPending k = false) →
      Moves w s (.resume c outcome) { s with recvTask := .awaitingFrame } []
  | record (c : ClientId) (d : DocumentId) : s.recvTask = .recording d →
      Moves w s (.record c) { s with currentRoom := some d, recvTask := .awaitingFrame } []
  | recvEnds (c : ClientId) : s.recvTask = .awaitingFrame →
      Moves w s (.recvEnds c) { s with recvTask := .finished } []
  | drain (c : ClientId) : Moves w s (.drain c) s []
  | teardown (c : ClientId) : s.socket = .serving →
      (s.recvTask = .finished ∨ w.rooms.closed s.tx = true) →
      Moves w s (.teardown c) { s with socket := .closing } []
  | cancel (c : ClientId) : s.socket ≠ .serving → s.recvTask.AtAwait →
      Moves w s (.cancel c) { s with recvTask := .aborted } []
  | leaveSent (c : ClientId) (d : DocumentId) : s.socket = .closing → s.currentRoom = some d →
      w.refuses (.leave c) = false → Moves w s (.leave c) { s with socket := .ended } [.leave d s.clientId]
  | leaveRefused (c : ClientId) (d : DocumentId) : s.socket = .closing → s.currentRoom = some d →
      w.refuses (.leave c) → Moves w s (.leave c) { s with socket := .ended } []
  | leaveNothing (c : ClientId) : s.socket = .closing → s.currentRoom = none →
      Moves w s (.leave c) { s with socket := .ended } []

namespace Moves
variable {w : World} {s s' : Session} {a : WorldAction} {cmds : List RoomCommand}

theorem clientId_eq (h : Moves w s a s' cmds) : s'.clientId = s.clientId := by
  cases h <;> rfl

theorem serving (h : Moves w s a s' cmds) (hserving : s'.socket = .serving) : s.socket = .serving := by
  cases h with
  | teardown => cases hserving
  | leaveSent => cases hserving
  | leaveRefused => cases hserving
  | leaveNothing => cases hserving
  | _ => exact hserving

/-- A join in the channel is the one that the session now waits for. -/
theorem join_mem (h : Moves w s a s' cmds) {d : DocumentId} {c : ClientId} {tx : Sender} {k : AckId}
    (hmem : .join d c tx k ∈ cmds) : c = s.clientId ∧ tx = s.tx ∧ k = w.nextAck ∧
      s.recvTask = .handling (.join d) ∧ s'.recvTask = .awaitingAck d k ∧
      s'.currentRoom = s.currentRoom ∧ s'.socket = s.socket ∧ ∃ c' now, a = .handle c' now := by
  cases h with
  | joinSent c' now d' ht =>
    cases List.mem_singleton.1 hmem
    exact ⟨rfl, rfl, rfl, ht, rfl, rfl, rfl, c', now, rfl⟩
  | sent c' now msg cmd ht hcmd =>
    obtain rfl := List.mem_singleton.1 hmem
    cases msg <;> simp [Session.broadcastFor] at hcmd
  | leaveSent => simp at hmem
  | _ => simp at hmem

theorem leave_mem (h : Moves w s a s' cmds) {d : DocumentId} {c : ClientId}
    (hmem : .leave d c ∈ cmds) : c = s.clientId ∧ s.socket = .closing ∧ s.currentRoom = some d ∧
      s'.socket = .ended ∧ cmds = [.leave d c] := by
  cases h with
  | leaveSent c' d' ht hroom =>
    cases List.mem_singleton.1 hmem
    exact ⟨rfl, ht, hroom, rfl, rfl⟩
  | sent c' now msg cmd ht hcmd =>
    obtain rfl := List.mem_singleton.1 hmem
    cases msg <;> simp [Session.broadcastFor] at hcmd
  | joinSent => simp at hmem
  | _ => simp at hmem

theorem awaiting (h : Moves w s a s' cmds) {d : DocumentId} {k : AckId}
    (ht : s'.recvTask = .awaitingAck d k) :
    s.recvTask = .awaitingAck d k ∧ s'.currentRoom = s.currentRoom ∨
      k = w.nextAck ∧ cmds = [.join d s.clientId s.tx k] := by
  cases h with
  | joinSent c' now d' ht' =>
    cases ht
    exact .inr ⟨rfl, rfl⟩
  | skip => exact .inl ⟨ht, rfl⟩
  | drain => exact .inl ⟨ht, rfl⟩
  | teardown => exact .inl ⟨ht, rfl⟩
  | leaveSent => exact .inl ⟨ht, rfl⟩
  | leaveRefused => exact .inl ⟨ht, rfl⟩
  | leaveNothing => exact .inl ⟨ht, rfl⟩
  | _ => cases ht

end Moves

/-- The session `s'` is stored and `cmds` are in the channel; the room lists, the acknowledgements and
the open queues are as before. -/
structure Moved (w w' : World) (s' : Session) (cmds : List RoomCommand) : Prop where
  sessions : w'.sessions = Function.update w.sessions s'.clientId (some s')
  buffer : w'.commands.buffer = w.commands.buffer ++ cmds
  channel : w'.commands.closed = w.commands.closed
  rooms : w'.rooms.rooms = w.rooms.rooms
  acked : w'.rooms.acked = w.rooms.acked
  closed : w'.rooms.closed = w.rooms.closed
  nextAck : w.nextAck ≤ w'.nextAck
  fresh : ∀ d c tx k, .join d c tx k ∈ cmds → w'.nextAck = k + 1

/-- What a step can do to the world. -/
inductive Effect (w : World) : WorldAction → World → Prop
  | connect (c : ClientId) (w' : World) (fresh : w.sessions c = none)
      (sessions : w'.sessions = Function.update w.sessions c (some (.new c)))
      (commands : w'.commands = w.commands) (rooms : w'.rooms.rooms = w.rooms.rooms)
      (acked : w'.rooms.acked = w.rooms.acked)
      (closed : w'.rooms.closed = Function.update w.rooms.closed ⟨c⟩ false)
      (nextAck : w'.nextAck = w.nextAck) : Effect w (.connect c) w'
  | session (c : ClientId) (a : WorldAction) (s s' : Session) (cmds : List RoomCommand) (w' : World)
      (client : clientOf a = some c) (found : w.sessions c = some s) (moves : Moves w s a s' cmds)
      (moved : Moved w w' s' cmds) : Effect w a w'
  | sendEnds (c : ClientId) (s : Session) (w' : World) (found : w.sessions c = some s)
      (sessions : w'.sessions = w.sessions) (commands : w'.commands = w.commands)
      (rooms : w'.rooms.rooms = w.rooms.rooms) (acked : w'.rooms.acked = w.rooms.acked)
      (closed : w'.rooms.closed = Function.update w.rooms.closed ⟨c⟩ true)
      (nextAck : w'.nextAck = w.nextAck) : Effect w (.sendEnds c) w'
  | coordinate (cmd : RoomCommand) (w' : World)
      (buffer : w.commands.buffer = cmd :: w'.commands.buffer)
      (closed : w'.commands.closed = w.commands.closed) (rooms : w'.rooms = w.rooms.process cmd)
      (sessions : w'.sessions = w.sessions) (nextAck : w'.nextAck = w.nextAck) :
      Effect w .coordinate w'
  | sinkBroadcast (room : DocumentId) (message : ServerMessage) (w' : World) (cmds : List RoomCommand)
      (sent : cmds = [.broadcast room message] ∨ cmds = [] ∧ w.refuses (.sinkBroadcast room message))
      (buffer : w'.commands.buffer = w.commands.buffer ++ cmds)
      (closed : w'.commands.closed = w.commands.closed) (rooms : w'.rooms = w.rooms)
      (sessions : w'.sessions = w.sessions) (nextAck : w'.nextAck = w.nextAck) :
      Effect w (.sinkBroadcast room message) w'

variable {w w' w'' : World} {s s' : Session} {a : WorldAction} {cmds : List RoomCommand}
  {c : ClientId} {now : UInt64}

theorem Moved.quiet (h : Moved w w' s' cmds) (hq : Quiet w' w'') : Moved w w'' s' cmds where
  sessions := hq.sessions.trans h.sessions
  buffer := by rw [hq.commands, h.buffer]
  channel := by rw [hq.commands, h.channel]
  rooms := hq.rooms.trans h.rooms
  acked := hq.acked.trans h.acked
  closed := hq.closed.trans h.closed
  nextAck := hq.nextAck ▸ h.nextAck
  fresh := hq.nextAck ▸ h.fresh

theorem Quiet.moved (h : Quiet w w') (hs : w.sessions s'.clientId = some s') : Moved w w' s' [] where
  sessions := by rw [h.sessions, ← hs, Function.update_eq_self]
  buffer := by rw [h.commands, List.append_nil]
  channel := by rw [h.commands]
  rooms := h.rooms
  acked := h.acked
  closed := h.closed
  nextAck := h.nextAck.symm.le
  fresh := by simp

theorem Quiet.refl (w : World) : Quiet w w := ⟨rfl, rfl, rfl, rfl, rfl, rfl⟩

theorem Quiet.setSession (h : Quiet w w') (s' : Session) : Moved w (w'.setSession s') s' [] where
  sessions := by rw [setSession_sessions, h.sessions]
  buffer := by rw [setSession_commands, h.commands, List.append_nil]
  channel := by rw [setSession_commands, h.commands]
  rooms := h.rooms
  acked := h.acked
  closed := h.closed
  nextAck := h.nextAck.symm.le
  fresh := by simp

theorem moved_setSession (w : World) (s' : Session) : Moved w (w.setSession s') s' [] :=
  (Quiet.refl w).setSession s'

theorem moved_send {cmd : RoomCommand} {commands : CommandChannel}
    (h : w.commands.trySend cmd = .ok commands) (s' : Session) (hcmd : ∀ d c tx k, cmd ≠ .join d c tx k) :
    Moved w ({ w with commands }.setSession s') s' [cmd] where
  sessions := rfl
  buffer := (Mpsc.trySend_eq_ok.1 h).2.2.1
  channel := (Mpsc.trySend_eq_ok.1 h).2.1.trans (Mpsc.trySend_eq_ok.1 h).1.symm
  rooms := rfl
  acked := rfl
  closed := rfl
  nextAck := Nat.le_refl _
  fresh := fun d c tx k hmem => absurd (List.mem_singleton.1 hmem).symm (hcmd d c tx k)

/-- A pass of `recv_task` that ends without a command in the channel. -/
theorem moved_finishMessage {w₁ : World} {n : AckId} (hn : w.nextAck ≤ n)
    (hq : Quiet { w with nextAck := n } w₁) (s : Session) (result : Except WebSocketError Unit) :
    Moved w (w₁.finishMessage s result) { s with recvTask := .awaitingFrame } [] := by
  have hf := quiet_finishMessage w₁ s result
  refine ⟨?_, ?_, ?_, ?_, ?_, ?_, ?_, by simp⟩
  · rw [hf.sessions, setSession_sessions, hq.sessions]
  · rw [hf.commands, setSession_commands, hq.commands, List.append_nil]
  · rw [hf.commands, setSession_commands, hq.commands]
  · rw [hf.rooms, setSession_rooms, hq.rooms]
  · rw [hf.acked, setSession_rooms, hq.acked]
  · rw [hf.closed, setSession_rooms, hq.closed]
  · rw [hf.nextAck, setSession_nextAck, hq.nextAck]
    exact hn

theorem refuses_of_error {cmd : RoomCommand} {err : RoomCommandError} (hsend : w.sends a = some cmd)
    (h : RoomsHandle.mapErr (w.commands.trySend cmd) = .error err) : w.refuses a = true := by
  unfold refuses
  simp only [hsend]
  cases htry : w.commands.trySend cmd with
  | ok commands =>
    rw [htry] at h
    cases h
  | error _ => rfl

theorem refuses_of_ok {cmd : RoomCommand} {commands : CommandChannel} (hsend : w.sends a = some cmd)
    (h : w.commands.trySend cmd = .ok commands) : w.refuses a = false := by
  unfold refuses
  simp only [hsend, h]
  rfl

/-- The arms for `SendMessage` and `SendMessageTo`, once the room is known. -/
theorem broadcast_moves {msg : ClientMessage} {room : DocumentId} {message : ServerMessage}
    (hs : w.sessions c = some s) (ht : s.recvTask = .handling msg)
    (hcmd : s.broadcastFor now msg = some (.broadcast room message)) :
    ∃ s' cmds, Moves w s (.handle c now) s' cmds ∧
      Moved w ((w.broadcastOrFail room message).2.finishMessage s
        (w.broadcastOrFail room message).1) s' cmds := by
  unfold broadcastOrFail RoomsHandle.broadcastToRoom
  have hsend : w.sends (.handle c now) = some (.broadcast room message) := by
    cases msg with
    | join d => cases hcmd
    | _ => simp only [sends, hs, ht, hcmd]
  cases h : RoomsHandle.mapErr (w.commands.trySend (.broadcast room message)) with
  | ok commands =>
    have hok := RoomsHandle.mapErr_eq_ok.1 h
    exact ⟨_, _, .sent c now msg _ ht hcmd (refuses_of_ok hsend hok), moved_send hok _ nofun⟩
  | error err =>
    exact ⟨_, _, .sendRefused c now msg _ ht hcmd (refuses_of_error hsend h),
      moved_finishMessage (Nat.le_refl _) (quiet_countDrop w err) s _⟩

theorem handle_moves {msg : ClientMessage} (hs : w.sessions c = some s)
    (ht : s.recvTask = .handling msg) :
    ∃ s' cmds, Moves w s (.handle c now) s' cmds ∧
      Moved w (w.handleClientMessage s now msg) s' cmds := by
  cases msg with
  | join d =>
    unfold handleClientMessage RoomsHandle.joinRoom
    have hsend : w.sends (.handle c now) = some (.join d s.clientId s.tx w.nextAck) := by
      simp only [sends, hs, ht]
    cases h : RoomsHandle.mapErr (w.commands.trySend (.join d s.clientId s.tx w.nextAck)) with
    | ok commands =>
      have hok := RoomsHandle.mapErr_eq_ok.1 h
      obtain ⟨hopen, hopen', hbuffer, -⟩ := Mpsc.trySend_eq_ok.1 hok
      simp only [h]
      refine ⟨_, _, .joinSent c now d ht (refuses_of_ok hsend hok), rfl, hbuffer,
        hopen'.trans hopen.symm, rfl, rfl, rfl, Nat.le_succ _, ?_⟩
      intro d' c' tx k hmem
      cases List.mem_singleton.1 hmem
      rfl
    | error err =>
      simp only [h]
      exact ⟨_, _, .joinRefused c now d ht (refuses_of_error hsend h),
        moved_finishMessage (Nat.le_succ _) (quiet_countDrop _ err) s _⟩
  | sendMessage text =>
    unfold handleClientMessage
    cases hroom : s.currentRoom with
    | none =>
      exact ⟨_, _, .notInRoom c now text ht hroom,
        moved_finishMessage (Nat.le_refl _) (Quiet.refl w) s _⟩
    | some room =>
      exact broadcast_moves hs ht (by simp [Session.broadcastFor, hroom])
  | sendMessageTo d text => exact broadcast_moves hs ht rfl

theorem leave_moves (hs : w.sessions c = some s) (ht : s.socket = .closing) :
    ∃ s' cmds, Moves w s (.leave c) s' cmds ∧ Moved w (w.leaveRoom s) s' cmds := by
  unfold leaveRoom RoomsHandle.leaveRoom
  split
  · rename_i hroom
    exact ⟨_, _, .leaveNothing c ht hroom, moved_setSession _ _⟩
  · rename_i d hroom
    have hsend : w.sends (.leave c) = some (.leave d s.clientId) := by
      simp [sends, hs, hroom]
    split
    · rename_i commands h
      have hok := RoomsHandle.mapErr_eq_ok.1 h
      exact ⟨_, _, .leaveSent c d ht hroom (refuses_of_ok hsend hok), moved_send hok _ nofun⟩
    · rename_i err h
      exact ⟨_, _, .leaveRefused c d ht hroom (refuses_of_error hsend h),
        (quiet_countDrop w err).setSession _⟩

theorem resume_moves {d : DocumentId} {k : AckId} {outcome : AckOutcome}
    (ht : s.recvTask = .awaitingAck d k) (h : w.resumeJoin s d k outcome = some w') :
    ∃ s' cmds, Moves w s (.resume c outcome) s' cmds ∧ Moved w w' s' cmds := by
  have hfail : Moved w (w.finishMessage s (.error .sendFailed)) { s with recvTask := .awaitingFrame } [] :=
    moved_finishMessage (Nat.le_refl _) (Quiet.refl w) s _
  unfold resumeJoin at h
  cases outcome with
  | acked =>
    simp only [Option.ite_none_right_eq_some, Option.some.injEq] at h
    obtain ⟨hk, rfl⟩ := h
    exact ⟨_, _, .acked c d k ht hk, moved_setSession _ _⟩
  | dropped =>
    simp only [Option.ite_none_right_eq_some, Option.some.injEq] at h
    obtain ⟨⟨hk, hpending⟩, rfl⟩ := h
    exact ⟨_, _, .failed c d k _ ht nofun hk fun _ => hpending, hfail⟩
  | elapsed =>
    simp only [Option.ite_none_right_eq_some, Option.some.injEq] at h
    obtain ⟨hk, rfl⟩ := h
    exact ⟨_, _, .failed c d k _ ht nofun hk nofun, hfail⟩

theorem receive_moves (hs : w.sessions c = some s) (ht : s.recvTask = .awaitingFrame)
    (frame : Frame) :
    ∃ s' cmds, Moves w s (.receive c frame) s' cmds ∧ Moved w (w.receiveFrame s frame) s' cmds := by
  have hid := w.clientId_eq c s hs
  unfold receiveFrame
  rcases frame with (err | msg) | _
  · exact ⟨_, _, .skip c _ ht, (quiet_reply _ _ _).moved (hid ▸ hs)⟩
  · exact ⟨_, _, .receive c msg ht, moved_setSession _ _⟩
  · exact ⟨_, _, .skip c _ ht, (Quiet.refl w).moved (hid ▸ hs)⟩

theorem sessionStep_effect (hs : w.sessions c = some s) (hc : clientOf a = some c)
    (h : w.sessionStep s a = some w') : Effect w a w' := by
  have hid := w.clientId_eq c s hs
  have hmoves : (∃ s' cmds, Moves w s a s' cmds ∧ Moved w w' s' cmds) → Effect w a w' :=
    fun ⟨s', cmds, hm, hw⟩ => .session c a s s' cmds w' hc hs hm hw
  unfold sessionStep at h
  cases a <;> simp only [clientOf, Option.some.injEq, reduceCtorEq] at hc h <;> subst hc
  case receive frame =>
    split at h
    · rename_i ht
      obtain rfl := Option.some.inj h
      exact hmoves (receive_moves hs ht frame)
    · cases h
  case handle now =>
    split at h
    · rename_i msg ht
      obtain rfl := Option.some.inj h
      exact hmoves (handle_moves hs ht)
    · cases h
  case resume outcome =>
    split at h
    · rename_i d k ht
      exact hmoves (resume_moves ht h)
    · cases h
  case record =>
    split at h
    · rename_i d ht
      obtain rfl := Option.some.inj h
      exact hmoves ⟨_, _, .record _ d ht, (moved_setSession w _).quiet (quiet_reply _ _ _)⟩
    · cases h
  case recvEnds =>
    split at h
    · rename_i ht
      obtain rfl := Option.some.inj h
      exact hmoves ⟨_, _, .recvEnds _ ht, moved_setSession w _⟩
    · cases h
  case drain =>
    split at h
    · rename_i message queue hq
      obtain rfl := Option.some.inj h
      refine hmoves ⟨_, _, .drain _, Quiet.moved ⟨rfl, rfl, ?_, rfl, rfl, rfl⟩ (hid ▸ hs)⟩
      have hclosed : queue.closed = w.rooms.closed s.tx := (Mpsc.recv_eq_some.1 hq).2
      rw [setQueue_closed, hclosed, Function.update_eq_self]
    · cases h
  case sendEnds =>
    split_ifs at h
    obtain rfl := Option.some.inj h
    refine .sendEnds _ s _ hs rfl rfl rfl rfl ?_ rfl
    rw [setQueue_closed, s.tx_eq, hid]
    rfl
  case teardown =>
    split_ifs at h with hg
    obtain rfl := Option.some.inj h
    exact hmoves ⟨_, _, .teardown _ hg.1 hg.2, moved_setSession w _⟩
  case cancel =>
    split_ifs at h with hg
    obtain rfl := Option.some.inj h
    exact hmoves ⟨_, _, .cancel _ hg.1 hg.2, moved_setSession w _⟩
  case leave =>
    split_ifs at h with hg
    obtain rfl := Option.some.inj h
    exact hmoves (leave_moves hs hg)

/-- **What a step can do.** -/
theorem step_effect (h : w.step a = some w') : Effect w a w' := by
  cases a with
  | connect c =>
    unfold step at h
    simp only at h
    split at h
    · rename_i hnone
      obtain rfl := Option.some.inj h
      exact .connect c _ hnone rfl rfl rfl rfl (setQueue_closed _ _ _) rfl
    · cases h
  | coordinate =>
    unfold step at h
    simp only at h
    split at h
    · rename_i cmd commands hrecv
      obtain rfl := Option.some.inj h
      obtain ⟨hbuffer, hclosed⟩ := Mpsc.recv_eq_some.1 hrecv
      exact .coordinate cmd _ hbuffer hclosed rfl rfl rfl
    · cases h
  | sinkBroadcast room message =>
    unfold step RoomsHandle.broadcastToRoom at h
    simp only at h
    split at h
    · rename_i commands hsend
      obtain rfl := Option.some.inj h
      obtain ⟨hopen, hopen', hbuffer, -⟩ := Mpsc.trySend_eq_ok.1 (RoomsHandle.mapErr_eq_ok.1 hsend)
      exact .sinkBroadcast room message _ _ (.inl rfl) hbuffer (hopen'.trans hopen.symm) rfl rfl rfl
    · rename_i err hsend
      obtain rfl := Option.some.inj h
      have hrefused : w.refuses (.sinkBroadcast room message) := refuses_of_error rfl hsend
      exact .sinkBroadcast room message _ _ (.inr ⟨rfl, hrefused⟩) (List.append_nil _).symm rfl rfl
        rfl rfl
  | _ =>
    -- an action of a connection
    simp only [step, clientOf, Option.bind_some] at h
    split at h
    · rename_i s hs
      exact sessionStep_effect hs rfl h
    · cases h

/-! ### The commands in the channel -/

/-- Who has put `cmds` into the channel, and in which state. -/
structure SentBy (w : World) (a : WorldAction) (w' : World) (cmds : List RoomCommand) : Prop where
  join : ∀ d c tx k, .join d c tx k ∈ cmds → clientOf a = some c ∧ k = w.nextAck ∧ w'.nextAck = k + 1 ∧
    ∃ s s' now, a = .handle c now ∧ w.sessions c = some s ∧ w'.sessions c = some s' ∧
      s.recvTask = .handling (.join d) ∧ s'.recvTask = .awaitingAck d k ∧ tx = s.tx
  leave : ∀ d c, .leave d c ∈ cmds → clientOf a = some c ∧
    ∃ s s', w.sessions c = some s ∧ w'.sessions c = some s' ∧ s.currentRoom = some d ∧ s'.socket = .ended

theorem Moves.sentBy (hm : Moves w s a s' cmds) (hs : w.sessions c = some s) (hc : clientOf a = some c)
    (moved : Moved w w' s' cmds) : SentBy w a w' cmds := by
  have hid := w.clientId_eq c s hs
  have hs' : w'.sessions c = some s' := by
    rw [moved.sessions, hm.clientId_eq, hid, Function.update_self]
  constructor
  · intro d c' tx k hmem
    obtain ⟨hc', htx, hk, ht, ht', -, -, c₀, now, rfl⟩ := hm.join_mem hmem
    obtain rfl : c₀ = c := Option.some.inj hc
    obtain rfl : c' = c₀ := hc'.trans hid
    exact ⟨rfl, hk, moved.fresh d c' tx k hmem, s, s', now, rfl, hs, hs', ht, ht', htx⟩
  · intro d c' hmem
    obtain ⟨hc', -, hroom, hended, -⟩ := hm.leave_mem hmem
    obtain rfl : c' = c := hc'.trans hid
    exact ⟨hc, s, s', hs, hs', hroom, hended⟩

theorem sentBy_nil : SentBy w a w' [] := ⟨by simp, by simp⟩

/-- A step either takes the next command out of the channel or puts commands into it. -/
inductive Channel (w : World) (a : WorldAction) (w' : World) : Prop
  | takes (cmd : RoomCommand) (action : a = .coordinate)
      (buffer : w.commands.buffer = cmd :: w'.commands.buffer) (rooms : w'.rooms = w.rooms.process cmd)
      (nextAck : w'.nextAck = w.nextAck)
  | puts (cmds : List RoomCommand) (action : a ≠ .coordinate)
      (buffer : w'.commands.buffer = w.commands.buffer ++ cmds) (rooms : w'.rooms.rooms = w.rooms.rooms)
      (acked : w'.rooms.acked = w.rooms.acked) (sent : SentBy w a w' cmds)
      (nextAck : w.nextAck ≤ w'.nextAck)

theorem Effect.channel (h : Effect w a w') : Channel w a w' := by
  cases h with
  | connect c _ fresh sessions commands rooms acked closed nextAck =>
    exact .puts [] nofun (by simp [commands]) rooms acked sentBy_nil nextAck.symm.le
  | session c _ s s' cmds _ client found moves moved =>
    have hne : a ≠ .coordinate := by
      rintro rfl
      cases client
    exact .puts cmds hne moved.buffer moved.rooms moved.acked (moves.sentBy found client moved)
      moved.nextAck
  | sendEnds c s _ found sessions commands rooms acked closed nextAck =>
    exact .puts [] nofun (by simp [commands]) rooms acked sentBy_nil nextAck.symm.le
  | coordinate cmd _ buffer closed rooms sessions nextAck => exact .takes cmd rfl buffer rooms nextAck
  | sinkBroadcast room message _ cmds sent buffer closed rooms sessions nextAck =>
    have hsent : SentBy w (.sinkBroadcast room message) w' cmds := by
      rcases sent with rfl | ⟨rfl, -⟩
      · exact ⟨by simp, by simp⟩
      · exact sentBy_nil
    exact .puts cmds nofun buffer (congrArg Rooms.rooms rooms) (congrArg Rooms.acked rooms) hsent
      nextAck.symm.le

theorem Effect.channel_closed (h : Effect w a w') : w'.commands.closed = w.commands.closed := by
  cases h with
  | connect c _ fresh sessions commands => rw [commands]
  | session c _ s s' cmds _ client found moves moved => exact moved.channel
  | sendEnds c s _ found sessions commands => rw [commands]
  | coordinate cmd _ buffer closed => exact closed
  | sinkBroadcast room message _ cmds sent buffer closed => exact closed

theorem Effect.nextAck_le (h : Effect w a w') : w.nextAck ≤ w'.nextAck := by
  cases h.channel with
  | takes cmd action buffer rooms nextAck => exact nextAck.symm.le
  | puts cmds action buffer rooms acked sent nextAck => exact nextAck

/-- A command that is in the channel after a step was there before, or has just been sent. -/
theorem Effect.mem_buffer (h : Effect w a w') {cmd : RoomCommand} (hmem : cmd ∈ w'.commands.buffer) :
    cmd ∈ w.commands.buffer ∨ ∃ cmds, SentBy w a w' cmds ∧ cmd ∈ cmds := by
  cases h.channel with
  | takes cmd' action buffer => exact .inl (buffer ▸ List.mem_cons_of_mem _ hmem)
  | puts cmds action buffer rooms acked sent =>
    rw [buffer] at hmem
    exact (List.mem_append.1 hmem).imp_right fun hmem => ⟨cmds, sent, hmem⟩

/-! ### The session of a client -/

/-- What a step does to the session of `c`. -/
inductive Stepped (w : World) (a : WorldAction) (w' : World) (c : ClientId) : Prop
  | same (sessions : w'.sessions c = w.sessions c)
  | connected (action : a = .connect c) (before : w.sessions c = none)
      (after : w'.sessions c = some (.new c))
  | moved (s s' : Session) (cmds : List RoomCommand) (client : clientOf a = some c)
      (before : w.sessions c = some s) (after : w'.sessions c = some s') (moves : Moves w s a s' cmds)
      (moved : Moved w w' s' cmds)

theorem Effect.stepped (h : Effect w a w') (c : ClientId) : Stepped w a w' c := by
  cases h with
  | connect c₀ _ fresh sessions =>
    by_cases hc : c = c₀
    · subst hc
      exact .connected rfl fresh (by rw [sessions, Function.update_self])
    · exact .same (by rw [sessions, Function.update_of_ne hc])
  | session c₀ _ s s' cmds _ client found moves moved =>
    have hid : s'.clientId = c₀ := moves.clientId_eq.trans (w.clientId_eq c₀ s found)
    by_cases hc : c = c₀
    · subst hc
      exact .moved s s' cmds client found (by rw [moved.sessions, hid, Function.update_self]) moves moved
    · exact .same (by rw [moved.sessions, hid, Function.update_of_ne hc])
  | sendEnds c₀ s _ found sessions => exact .same (by rw [sessions])
  | coordinate cmd _ buffer closed rooms sessions => exact .same (by rw [sessions])
  | sinkBroadcast room message _ cmds sent buffer closed rooms sessions =>
    exact .same (by rw [sessions])

/-- A connection that neither begins nor ends its `send_task` makes a move. -/
theorem Effect.moves (h : Effect w a w') (hclient : clientOf a = some c) (hconnect : a ≠ .connect c)
    (hsend : a ≠ .sendEnds c) : ∃ s s' cmds, w.sessions c = some s ∧ w'.sessions c = some s' ∧
      Moves w s a s' cmds ∧ Moved w w' s' cmds := by
  cases h with
  | connect c₀ => exact absurd (congrArg WorldAction.connect (Option.some.inj hclient)) hconnect
  | session c₀ _ s s' cmds _ client found moves moved =>
    obtain rfl : c₀ = c := Option.some.inj (client.symm.trans hclient)
    have hid : s'.clientId = c₀ := moves.clientId_eq.trans (w.clientId_eq c₀ s found)
    exact ⟨s, s', cmds, found, by rw [moved.sessions, hid, Function.update_self], moves, moved⟩
  | sendEnds c₀ => exact absurd (congrArg WorldAction.sendEnds (Option.some.inj hclient)) hsend
  | coordinate => cases hclient
  | sinkBroadcast => cases hclient

theorem Effect.sessions_ne_none (h : Effect w a w') (hc : w.sessions c ≠ none) :
    w'.sessions c ≠ none := by
  cases h.stepped c with
  | same sessions => rwa [sessions]
  | connected action before after => exact absurd before hc
  | moved s s' cmds client before after =>
    rw [after]
    nofun

/-- A session that waits for an acknowledgement has waited before, or has just sent the join. -/
theorem Effect.awaiting (h : Effect w a w') {d : DocumentId} {k : AckId} (hs' : w'.sessions c = some s')
    (ht' : s'.recvTask = .awaitingAck d k) :
    (∃ s, w.sessions c = some s ∧ s.recvTask = .awaitingAck d k ∧ s'.currentRoom = s.currentRoom) ∨
      k = w.nextAck ∧ w'.nextAck = k + 1 ∧ clientOf a = some c ∧
        ∃ tx, .join d c tx k ∈ w'.commands.buffer := by
  cases h.stepped c with
  | same sessions => exact .inl ⟨s', sessions ▸ hs', ht', rfl⟩
  | connected action before after =>
    obtain rfl := Option.some.inj (after.symm.trans hs')
    cases ht'
  | moved s s₁ cmds client before after moves moved =>
    obtain rfl := Option.some.inj (after.symm.trans hs')
    rcases moves.awaiting ht' with ⟨ht, hroom⟩ | ⟨hk, rfl⟩
    · exact .inl ⟨s, before, ht, hroom⟩
    · have hmem : .join d c s.tx k ∈ w'.commands.buffer := by
        rw [moved.buffer, w.clientId_eq c s before]
        simp
      exact .inr ⟨hk, moved.fresh d s.clientId s.tx k (by simp), client, s.tx, hmem⟩

theorem Effect.closed_of (h : Effect w a w') (hc : w.sessions c ≠ none)
    (hopen : w'.rooms.closed ⟨c⟩ = false) : w.rooms.closed ⟨c⟩ = false := by
  cases h with
  | connect c₀ _ fresh sessions commands rooms acked closed =>
    have hne : (⟨c⟩ : Sender) ≠ ⟨c₀⟩ := by
      intro heq
      rw [Sender.mk.inj heq] at hc
      exact hc fresh
    rwa [closed, Function.update_of_ne hne] at hopen
  | session c₀ _ s s' cmds _ client found moves moved => rwa [moved.closed] at hopen
  | sendEnds c₀ s _ found sessions commands rooms acked closed =>
    rw [closed, Function.update_apply] at hopen
    split_ifs at hopen
    exact hopen
  | coordinate cmd _ buffer closed rooms => rwa [rooms, Rooms.closed_process] at hopen
  | sinkBroadcast room message _ cmds sent buffer closed rooms => rwa [rooms] at hopen

end World
end MiniGraph
