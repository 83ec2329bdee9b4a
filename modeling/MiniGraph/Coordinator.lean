import MiniGraph.Rooms

/-!
# The rooms actor, one `try_send` at a time

`Rooms.process` takes a command as one step. Here the coordinator runs beside all other tasks: between
two passes of the loop of a broadcast any task may send a command, and any outbound queue may be
filled, drained or closed. `step_effect` says what a step can do, and `coordinate_process` that a command
whose passes are not interleaved with anything is `Rooms.process`.
-/

namespace MiniGraph
open Lib

/-- The loop of a broadcast, under way: the entries it has not come to, and `failed_clients`. -/
structure Fanout where
  room : DocumentId
  message : ServerMessage
  remaining : List (ClientId × Sender)
  failedClients : List ClientId

structure Coordinator where
  rooms : Rooms
  commands : CommandChannel
  fanout : Option Fanout

inductive CoordinatorAction where
  /-- some task sends a command -/
  | send (cmd : RoomCommand)
  /-- the coordinator receives a command, makes a pass of the loop of a broadcast or ends it -/
  | coordinate
  /-- a session puts a message of its own into its queue -/
  | reply (tx : Sender) (message : ServerMessage)
  | drain (tx : Sender)
  | close (tx : Sender)

/-- What happens in a step. -/
inductive RoomEvent where
  | idle
  | accepted (cmd : RoomCommand)
  | taken (cmd : RoomCommand)
  | offered (room : DocumentId) (client : ClientId × Sender) (message : ServerMessage)
      (result : Except TrySendError Unit)
  | finished (room : DocumentId)
  | replied (tx : Sender) (message : ServerMessage)
  | received (tx : Sender) (message : ServerMessage)
  | closed (tx : Sender)

namespace Coordinator

/-- No room, no command and no message. -/
def init (metrics : Metrics) : Coordinator where
  rooms := { rooms := ∅, queues := fun _ => Mpsc.empty, acked := ∅, metrics }
  commands := Mpsc.empty
  fanout := none

def setQueue (s : Coordinator) (tx : Sender) (queue : ClientQueue) : Coordinator :=
  { s with rooms := { s.rooms with queues := Function.update s.rooms.queues tx queue } }

/-- The match on a command; a broadcast to a room that exists is left at the start of its loop. -/
def take (s : Coordinator) : RoomCommand → Coordinator
  | .join room clientId tx respondTo => { s with rooms := s.rooms.join room clientId tx respondTo }
  | .leave room clientId => { s with rooms := s.rooms.leave room clientId }
  | .broadcast room message =>
    { s with fanout := (s.rooms.rooms.lookup room).map fun clients => ⟨room, message, clients, []⟩ }

/-- What follows the loop of a broadcast. -/
def finish (s : Coordinator) (f : Fanout) : Coordinator :=
  { s with
    rooms :=
      if f.failedClients = [] then s.rooms
      else s.rooms.retain f.room (s.rooms.clients f.room) fun id => id ∉ f.failedClients
    fanout := none }

/-- A pass of the loop of a broadcast, or its end. -/
def pass (s : Coordinator) (f : Fanout) : RoomEvent × Coordinator :=
  match f.remaining with
  | client :: remaining =>
    let (result, rooms, failedClients) := Rooms.offer f.message (s.rooms, f.failedClients) client
    (.offered f.room client f.message result,
      { s with rooms, fanout := some { f with remaining, failedClients } })
  | [] => (.finished f.room, s.finish f)

def step (s : Coordinator) : CoordinatorAction → RoomEvent × Coordinator
  | .send cmd =>
    match s.commands.trySend cmd with
    | .ok commands => (.accepted cmd, { s with commands })
    | .error _ => (.idle, s)
  | .coordinate =>
    match s.fanout with
    | some f => s.pass f
    | none =>
      match s.commands.recv with
      | some (cmd, commands) => (.taken cmd, { s with commands }.take cmd)
      | none => (.idle, s)
  | .reply tx message =>
    match (s.rooms.queues tx).trySend message with
    | .ok queue => (.replied tx message, s.setQueue tx queue)
    | .error _ => (.idle, s)
  | .drain tx =>
    match (s.rooms.queues tx).recv with
    | some (message, queue) => (.received tx message, s.setQueue tx queue)
    | none => (.idle, s)
  | .close tx => (.closed tx, s.setQueue tx (s.rooms.queues tx).close)

/-- A run from the start: what happened, and the state at its end. -/
def run (metrics : Metrics) (as : List CoordinatorAction) : List RoomEvent × Coordinator :=
  runs step (init metrics) as

/-! ### What a step can do -/

inductive Effect (s : Coordinator) : RoomEvent → Coordinator → Prop
  | idle : Effect s .idle s
  | accepted (cmd : RoomCommand) (commands : CommandChannel)
      (buffer : commands.buffer = s.commands.buffer ++ [cmd]) :
      Effect s (.accepted cmd) { s with commands }
  | taken (cmd : RoomCommand) (commands : CommandChannel) (idle : s.fanout = none)
      (buffer : s.commands.buffer = cmd :: commands.buffer) :
      Effect s (.taken cmd) ({ s with commands }.take cmd)
  | offered (f : Fanout) (client : ClientId × Sender) (remaining : List (ClientId × Sender))
      (result : Except TrySendError Unit) (rooms : Rooms) (failedClients : List ClientId)
      (fanout : s.fanout = some f) (next : f.remaining = client :: remaining)
      (offer : Rooms.offer f.message (s.rooms, f.failedClients) client =
        (result, rooms, failedClients)) :
      Effect s (.offered f.room client f.message result)
        { s with rooms, fanout := some { f with remaining, failedClients } }
  | finished (f : Fanout) (fanout : s.fanout = some f) (next : f.remaining = []) :
      Effect s (.finished f.room) (s.finish f)
  | replied (tx : Sender) (message : ServerMessage) (queue : ClientQueue)
      (sent : (s.rooms.queues tx).trySend message = .ok queue) :
      Effect s (.replied tx message) (s.setQueue tx queue)
  | received (tx : Sender) (message : ServerMessage) (queue : ClientQueue)
      (recv : (s.rooms.queues tx).recv = some (message, queue)) :
      Effect s (.received tx message) (s.setQueue tx queue)
  | closed (tx : Sender) : Effect s (.closed tx) (s.setQueue tx (s.rooms.queues tx).close)

theorem pass_effect {s : Coordinator} {f : Fanout} (h : s.fanout = some f) :
    Effect s (s.pass f).1 (s.pass f).2 := by
  unfold pass
  split
  · rename_i client remaining hnext
    exact .offered f client remaining _ _ _ h hnext rfl
  · rename_i hnext
    exact .finished f h hnext

/-- **Every step is one of these.** -/
theorem step_effect (s : Coordinator) (a : CoordinatorAction) : Effect s (s.step a).1 (s.step a).2 := by
  cases a with
  | send cmd =>
    simp only [step]
    split
    · rename_i commands h
      exact .accepted cmd commands (Mpsc.trySend_eq_ok.1 h).2.2.1
    · exact .idle
  | coordinate =>
    simp only [step]
    split
    · rename_i f h
      exact pass_effect h
    · rename_i hidle
      split
      · rename_i cmd commands h
        exact .taken cmd commands hidle (Mpsc.recv_eq_some.1 h).1
      · exact .idle
  | reply tx message =>
    simp only [step]
    split
    · rename_i queue h
      exact .replied tx message queue h
    · exact .idle
  | drain tx =>
    simp only [step]
    split
    · rename_i message queue h
      exact .received tx message queue h
    · exact .idle
  | close tx => exact .closed tx

/-! ### A command without interruptions -/

variable {s : Coordinator} {f : Fanout}

theorem step_coordinate_fanout (h : s.fanout = some f) : s.step .coordinate = s.pass f := by
  simp only [step, h]

theorem runs_coordinate_fanout (h : s.fanout = some f) :
    (runs step s (List.replicate f.remaining.length .coordinate)).2 =
      { s with
        rooms := (runs (Rooms.offer f.message) (s.rooms, f.failedClients) f.remaining).2.1
        fanout := some { f with
          remaining := []
          failedClients := (runs (Rooms.offer f.message) (s.rooms, f.failedClients) f.remaining).2.2 } } := by
  obtain ⟨room, message, remaining, failedClients⟩ := f
  induction remaining generalizing s failedClients with
  | nil =>
    obtain ⟨rooms, commands, fanout⟩ := s
    obtain rfl : fanout = _ := h
    rfl
  | cons client remaining ih =>
    show (runs step (s.step .coordinate).2 (List.replicate remaining.length .coordinate)).2 = _
    rw [step_coordinate_fanout h]
    exact ih _ rfl

/-- **An uninterrupted command is `Rooms.process`.** -/
theorem coordinate_process (hidle : s.fanout = none) {cmd : RoomCommand} {commands : CommandChannel}
    (hrecv : s.commands.recv = some (cmd, commands)) :
    ∃ n, (runs step s (List.replicate n .coordinate)).2 =
      { rooms := s.rooms.process cmd, commands, fanout := none } := by
  have hstep : s.step .coordinate = (.taken cmd, { s with commands }.take cmd) := by
    simp only [step, hidle, hrecv]
  cases cmd with
  | join room clientId tx respondTo => exact ⟨1, by rw [List.replicate_one, runs, hstep, take, runs, hidle]; rfl⟩
  | leave room clientId => exact ⟨1, by rw [List.replicate_one, runs, hstep, take, runs, hidle]; rfl⟩
  | broadcast room message =>
    rcases hroom : s.rooms.rooms.lookup room with _ | clients
    · refine ⟨1, ?_⟩
      rw [List.replicate_one, runs, hstep, take, runs, hroom, Rooms.process, Rooms.broadcast, hroom]
      rfl
    · refine ⟨clients.length + 1 + 1, ?_⟩
      rw [List.replicate_succ, runs, hstep, take, hroom, Option.map_some, List.replicate_succ', runs_concat,
        runs_coordinate_fanout (f := ⟨room, message, clients, []⟩) rfl, step_coordinate_fanout rfl]
      have hsame : (s.rooms.fanout message clients).2.1.clients room = clients := by
        unfold Rooms.clients
        rw [Rooms.fanout_rooms, hroom, Option.getD_some]
      simp only [pass, finish, Rooms.process, Rooms.broadcast, hroom]
      show Coordinator.mk (if (s.rooms.fanout message clients).2.2 = [] then _ else _) _ _ = _
      unfold Rooms.fanout at hsame ⊢
      rw [hsame]

end Coordinator
end MiniGraph
