import MiniGraph.Rooms

/-!
# Connections (`src/websocket.rs`)

Any number of connections, the command channel and the rooms coordinator, as one step function on a
`World`. A step runs a task from one await point to the next; which task runs is the `Action`. (`Tasks` has
the passes of a broadcast as steps of their own.) The coordinator never ends: its channel is closed only when
the last handle is dropped, and every connection holds one. JSON parsing is not modelled, a text frame comes
with its result.
-/

namespace MiniGraph
open Lib

/-- A frame of the client: text with the result of `serde_json::from_str`, or one that is skipped. -/
inductive Frame where
  | text (parsed : Except String ClientMessage)
  | other
deriving DecidableEq

/-- Where `recv_task` is. -/
inductive RecvTask where
  /-- at `receiver.next().await` -/
  | awaitingFrame
  /-- in `handle_client_message`, before it has sent anything -/
  | handling (msg : ClientMessage)
  /-- in the arm for `Join`, at `timeout(JOIN_TIMEOUT, respond_rx).await` -/
  | awaitingAck (documentId : DocumentId) (ack : AckId)
  /-- in the arm for `Join`, acknowledged, at `current_room.lock().await` -/
  | recording (documentId : DocumentId)
  | finished
  | aborted
deriving DecidableEq

/-- Where `handle_socket` itself is: at `tokio::select!`, after it with the unfinished task aborted, or
past the cleanup. -/
inductive SocketState where
  | serving
  | closing
  | ended
deriving DecidableEq

/-- A connection: its `Session`, and how far its tasks are. `send_task` has ended exactly if the
outbound queue, whose receiver it holds, is closed. -/
structure Session where
  clientId : ClientId
  currentRoom : Option DocumentId
  tx : Sender
  recvTask : RecvTask
  socket : SocketState
  owner_eq : tx.owner = clientId

namespace Session

def new (clientId : ClientId) : Session :=
  { clientId, currentRoom := none, tx := ⟨clientId⟩, recvTask := .awaitingFrame, socket := .serving,
    owner_eq := rfl }

theorem tx_eq (session : Session) : session.tx = ⟨session.clientId⟩ := by
  rw [← session.owner_eq]

end Session

/-- How `timeout(JOIN_TIMEOUT, respond_rx).await` ends. -/
inductive AckOutcome where
  | acked
  | dropped
  | elapsed
deriving DecidableEq

structure World where
  rooms : Rooms
  commands : CommandChannel
  sessions : ClientId → Option Session
  nextAck : AckId
  clientId_eq : ∀ clientId session, sessions clientId = some session → session.clientId = clientId

inductive WorldAction where
  | connect (clientId : ClientId)
  | receive (clientId : ClientId) (frame : Frame)
  | handle (clientId : ClientId) (now : UInt64)
  | resume (clientId : ClientId) (outcome : AckOutcome)
  | record (clientId : ClientId)
  | recvEnds (clientId : ClientId)
  | drain (clientId : ClientId)
  | sendEnds (clientId : ClientId)
  | teardown (clientId : ClientId)
  | cancel (clientId : ClientId)
  | leave (clientId : ClientId)
  | coordinate
  | sinkBroadcast (room : DocumentId) (message : ServerMessage)
deriving DecidableEq

namespace World

/-- No connection, and a coordinator that has just started. -/
def init (metrics : Metrics) : World where
  rooms := { rooms := ∅, queues := fun _ => Mpsc.empty, acked := ∅, metrics }
  commands := Mpsc.empty
  sessions := fun _ => none
  nextAck := 0
  clientId_eq := nofun

def setSession (w : World) (session : Session) : World :=
  { w with
    sessions := Function.update w.sessions session.clientId (some session)
    clientId_eq := by
      intro clientId session' h
      by_cases hid : clientId = session.clientId
      · rw [hid, Function.update_self, Option.some.injEq] at h
        rw [hid, h]
      · rw [Function.update_of_ne hid] at h
        exact w.clientId_eq clientId session' h }

def setQueue (w : World) (tx : Sender) (queue : ClientQueue) : World :=
  { w with rooms := { w.rooms with queues := Function.update w.rooms.queues tx queue } }

/-- `let _ = session.tx.try_send(message)`. -/
def reply (w : World) (tx : Sender) (message : ServerMessage) : World :=
  match (w.rooms.queues tx).trySend message with
  | .ok queue => w.setQueue tx queue
  | .error _ => w

/-- `state.metrics.inc_actor_cmd_drop()` if the channel is full. -/
def countDrop (w : World) : RoomCommandError → World
  | .channelFull => { w with rooms := { w.rooms with metrics := w.rooms.metrics.incActorCmdDrop } }
  | .channelClosed => w

/-- `broadcast_to_room(..).map_err(..)?; Ok(())`. -/
def broadcastOrFail (w : World) (room : DocumentId) (message : ServerMessage) :
    Except WebSocketError Unit × World :=
  match RoomsHandle.broadcastToRoom w.commands room message with
  | .ok commands => (.ok (), { w with commands })
  | .error err => (.error .sendFailed, w.countDrop err)

/-- The end of a pass of `recv_task`'s loop, with the result of `handle_client_message`. -/
def finishMessage (w : World) (session : Session) (result : Except WebSocketError Unit) : World :=
  let w := w.setSession { session with recvTask := .awaitingFrame }
  match result with
  | .ok () => w
  | .error err => w.reply session.tx (.error err.toString)

/-- `handle_client_message` up to the point where it waits for an acknowledgement or returns. -/
def handleClientMessage (w : World) (session : Session) (now : UInt64) : ClientMessage → World
  | .join documentId =>
    let respondTo := w.nextAck
    let w := { w with nextAck := w.nextAck + 1 }
    match RoomsHandle.joinRoom w.commands documentId session.clientId session.tx respondTo with
    | .ok commands =>
      { w with commands }.setSession { session with recvTask := .awaitingAck documentId respondTo }
    | .error err => (w.countDrop err).finishMessage session (.error .sendFailed)
  | .sendMessage text =>
    match session.currentRoom with
    | some room =>
      let (result, w) := w.broadcastOrFail room (.newMessage session.clientId text now)
      w.finishMessage session result
    | none => w.finishMessage session (.error .notInRoom)
  | .sendMessageTo documentId text =>
    let (result, w) := w.broadcastOrFail documentId (.newMessage session.clientId text now)
    w.finishMessage session result

/-- The acknowledgement `ack` can still be sent: its sender waits in the command channel. -/
def ackPending (w : World) (ack : AckId) : Bool :=
  w.commands.buffer.any fun
    | .join _ _ _ respondTo => respondTo = ack
    | _ => false

/-- The wait for the acknowledgement ends. -/
def resumeJoin (w : World) (session : Session) (documentId : DocumentId) (ack : AckId) :
    AckOutcome → Option World
  | .acked =>
    if ack ∈ w.rooms.acked then some (w.setSession { session with recvTask := .recording documentId })
    else none
  | .dropped =>
    if ack ∉ w.rooms.acked ∧ w.ackPending ack = false then
      some (w.finishMessage session (.error .sendFailed))
    else none
  | .elapsed =>
    if ack ∉ w.rooms.acked then some (w.finishMessage session (.error .sendFailed)) else none

/-- The rest of the arm for `Join`. -/
def recordJoin (w : World) (session : Session) (documentId : DocumentId) : World :=
  let w := w.setSession
    { session with currentRoom := some documentId, recvTask := .awaitingFrame }
  w.reply session.tx (.joined session.clientId documentId)

def receiveFrame (w : World) (session : Session) : Frame → World
  | .text (.ok msg) => w.setSession { session with recvTask := .handling msg }
  | .text (.error err) => w.reply session.tx (.error (WebSocketError.invalidMessage err).toString)
  | .other => w

/-- The end of `handle_socket`. -/
def leaveRoom (w : World) (session : Session) : World :=
  let w :=
    match session.currentRoom with
    | none => w
    | some documentId =>
      match RoomsHandle.leaveRoom w.commands documentId session.clientId with
      | .ok commands => { w with commands }
      | .error err => w.countDrop err
  w.setSession { session with socket := .ended }

end World

/-- `recv_task` is at an await point, where `abort` takes effect. -/
def RecvTask.AtAwait : RecvTask → Bool
  | .awaitingFrame => true
  | .handling (.sendMessage _) => true
  | .handling _ => false
  | .awaitingAck _ _ => true
  | .recording _ => true
  | .finished => false
  | .aborted => false

namespace World

/-- One step of the connection of `clientId`. -/
def sessionStep (w : World) (session : Session) : WorldAction → Option World
  | .receive _ frame =>
    match session.recvTask with
    | .awaitingFrame => some (w.receiveFrame session frame)
    | _ => none
  | .handle _ now =>
    match session.recvTask with
    | .handling msg => some (w.handleClientMessage session now msg)
    | _ => none
  | .resume _ outcome =>
    match session.recvTask with
    | .awaitingAck documentId ack => w.resumeJoin session documentId ack outcome
    | _ => none
  | .record _ =>
    match session.recvTask with
    | .recording documentId => some (w.recordJoin session documentId)
    | _ => none
  | .recvEnds _ =>
    match session.recvTask with
    | .awaitingFrame => some (w.setSession { session with recvTask := .finished })
    | _ => none
  | .drain _ =>
    match (w.rooms.queues session.tx).recv with
    | some (_, queue) => some (w.setQueue session.tx queue)
    | none => none
  | .sendEnds _ =>
    if w.rooms.closed session.tx then none
    else some (w.setQueue session.tx (w.rooms.queues session.tx).close)
  | .teardown _ =>
    if session.socket = .serving ∧ (session.recvTask = .finished ∨ w.rooms.closed session.tx) then
      some (w.setSession { session with socket := .closing })
    else none
  | .cancel _ =>
    if session.socket ≠ .serving ∧ session.recvTask.AtAwait then
      some (w.setSession { session with recvTask := .aborted })
    else none
  | .leave _ => if session.socket = .closing then some (w.leaveRoom session) else none
  | _ => none

/-- The connection an action belongs to. -/
def clientOf : WorldAction → Option ClientId
  | .connect clientId => some clientId
  | .receive clientId _ => some clientId
  | .handle clientId _ => some clientId
  | .resume clientId _ => some clientId
  | .record clientId => some clientId
  | .recvEnds clientId => some clientId
  | .drain clientId => some clientId
  | .sendEnds clientId => some clientId
  | .teardown clientId => some clientId
  | .cancel clientId => some clientId
  | .leave clientId => some clientId
  | .coordinate => none
  | .sinkBroadcast _ _ => none

/-- One step, if the action is enabled. A client id is a fresh UUID, never used before. -/
def step (w : World) : WorldAction → Option World
  | .connect clientId =>
    match w.sessions clientId with
    | none => some ((w.setQueue ⟨clientId⟩ .empty).setSession (.new clientId))
    | some _ => none
  | .coordinate =>
    match w.commands.recv with
    | some (cmd, commands) => some { w with commands, rooms := w.rooms.process cmd }
    | none => none
  | .sinkBroadcast room message =>
    match RoomsHandle.broadcastToRoom w.commands room message with
    | .ok commands => some { w with commands }
    | .error _ => some w
  | action =>
    match (clientOf action).bind w.sessions with
    | some session => w.sessionStep session action
    | none => none

end World
end MiniGraph
