import Mathlib.Data.Finmap
import MiniGraph.Lib.Channel
import MiniGraph.Lib.Run
import MiniGraph.Metrics
import MiniGraph.Types

/-!
# The rooms actor (`src/rooms.rs`)

The coordinator owns the room lists and processes its commands one after the other. A command is one
step here, although other tasks can run between the `try_send`s of a broadcast, which matters to a client with
two entries: the passes of its loop are steps of their own in `Coordinator` and in `Tasks`. Log output is left
out.
-/

namespace MiniGraph
open Lib

/-- The sending side of the outbound queue of the connection of `owner`. -/
structure Sender where
  owner : ClientId
deriving DecidableEq, Repr

/-- Names the oneshot channel of an acknowledgement. -/
abbrev AckId := Nat

inductive RoomCommand where
  | join (room : DocumentId) (clientId : ClientId) (tx : Sender) (respondTo : AckId)
  | leave (room : DocumentId) (clientId : ClientId)
  | broadcast (room : DocumentId) (message : ServerMessage)
deriving DecidableEq, Repr

abbrev roomsCoordinatorChannelCapacity : Nat := 256
abbrev clientChannelCapacity : Nat := 256

abbrev CommandChannel := Mpsc roomsCoordinatorChannelCapacity RoomCommand
abbrev ClientQueue := Mpsc clientChannelCapacity ServerMessage

/-! ### The handle -/

namespace RoomsHandle

def mapErr : Except TrySendError CommandChannel → Except RoomCommandError CommandChannel
  | .ok tx => .ok tx
  | .error .full => .error .channelFull
  | .error .closed => .error .channelClosed

def joinRoom (tx : CommandChannel) (room : DocumentId) (clientId : ClientId) (clientTx : Sender)
    (respondTo : AckId) : Except RoomCommandError CommandChannel :=
  mapErr (tx.trySend (.join room clientId clientTx respondTo))

def leaveRoom (tx : CommandChannel) (room : DocumentId) (clientId : ClientId) :
    Except RoomCommandError CommandChannel :=
  mapErr (tx.trySend (.leave room clientId))

def broadcastToRoom (tx : CommandChannel) (room : DocumentId) (message : ServerMessage) :
    Except RoomCommandError CommandChannel :=
  mapErr (tx.trySend (.broadcast room message))

theorem mapErr_eq_ok {x : Except TrySendError CommandChannel} {tx : CommandChannel} :
    mapErr x = .ok tx ↔ x = .ok tx := by
  rcases x with (_ | _) | _ <;> simp [mapErr]

end RoomsHandle

/-! ### The coordinator -/

/-- What the coordinator owns, and what it shares with the connections: their outbound queues, the
acknowledgements it has sent and the metrics. -/
structure Rooms where
  rooms : Finmap fun _ : DocumentId => List (ClientId × Sender)
  queues : Sender → ClientQueue
  acked : Finset AckId
  metrics : Metrics

namespace Rooms

/-- The list of a room, empty if there is no such room. -/
def clients (s : Rooms) (room : DocumentId) : List (ClientId × Sender) := (s.rooms.lookup room).getD []

def closed (s : Rooms) (tx : Sender) : Bool := (s.queues tx).closed

def join (s : Rooms) (room : DocumentId) (clientId : ClientId) (tx : Sender) (respondTo : AckId) :
    Rooms :=
  { s with
    rooms := s.rooms.insert room (s.clients room ++ [(clientId, tx)])
    acked := insert respondTo s.acked }

/-- `clients.retain(..)`, and the room is removed if nobody is left. -/
def retain (s : Rooms) (room : DocumentId) (clients : List (ClientId × Sender)) (keep : ClientId → Bool) :
    Rooms :=
  let kept := clients.filter fun client => keep client.1
  { s with rooms := if kept = [] then s.rooms.erase room else s.rooms.insert room kept }

def leave (s : Rooms) (room : DocumentId) (clientId : ClientId) : Rooms :=
  match s.rooms.lookup room with
  | none => s
  | some clients => s.retain room clients fun id => id ≠ clientId

/-- One pass of the loop of a broadcast; the second component is `failed_clients`. -/
def offer (message : ServerMessage) (s : Rooms × List ClientId) (client : ClientId × Sender) :
    Except TrySendError Unit × Rooms × List ClientId :=
  match (s.1.queues client.2).trySend message with
  | .ok queue => (.ok (), { s.1 with queues := Function.update s.1.queues client.2 queue }, s.2)
  | .error .full => (.error .full, { s.1 with metrics := s.1.metrics.incFanoutDrop }, s.2)
  | .error .closed => (.error .closed, s.1, s.2 ++ [client.1])

/-- The loop of a broadcast: the results of `try_send`, one for each entry, and the state after it. -/
def fanout (s : Rooms) (message : ServerMessage) (clients : List (ClientId × Sender)) :
    List (Except TrySendError Unit) × Rooms × List ClientId :=
  runs (offer message) (s, []) clients

def broadcast (s : Rooms) (room : DocumentId) (message : ServerMessage) : Rooms :=
  match s.rooms.lookup room with
  | none => s
  | some clients =>
    let (s, failedClients) := (s.fanout message clients).2
    if failedClients = [] then s else s.retain room clients fun id => id ∉ failedClients

/-- One pass of the loop of `rooms_coordinator`. -/
def process (s : Rooms) : RoomCommand → Rooms
  | .join room clientId tx respondTo => s.join room clientId tx respondTo
  | .leave room clientId => s.leave room clientId
  | .broadcast room message => s.broadcast room message

/-! ### The loop of a broadcast -/

variable {s : Rooms} {message : ServerMessage} {room room' : DocumentId} {clientId : ClientId}

theorem offer_rooms (p : Rooms × List ClientId) (client : ClientId × Sender) :
    (offer message p client).2.1.rooms = p.1.rooms ∧ (offer message p client).2.1.acked = p.1.acked := by
  unfold offer
  split <;> exact ⟨rfl, rfl⟩

theorem rooms_of_offer {p : Rooms × List ClientId} {client : ClientId × Sender} {s : Rooms}
    {result : Except TrySendError Unit} {failedClients : List ClientId}
    (h : offer message p client = (result, s, failedClients)) : s.rooms = p.1.rooms :=
  (congrArg (fun out => out.2.1.rooms) h).symm.trans (offer_rooms p client).1

theorem offer_closed (p : Rooms × List ClientId) (client : ClientId × Sender) :
    (offer message p client).2.1.closed = p.1.closed := by
  unfold offer
  split
  · rename_i queue h
    obtain ⟨hopen, hopen', -⟩ := Mpsc.trySend_eq_ok.1 h
    funext tx
    show (Function.update p.1.queues client.2 queue tx).closed = (p.1.queues tx).closed
    by_cases htx : tx = client.2
    · rw [htx, Function.update_self, hopen, hopen']
    · rw [Function.update_of_ne htx]
  · rfl
  · rfl

theorem offer_failed (p : Rooms × List ClientId) (client : ClientId × Sender) :
    (offer message p client).2.2 = if p.1.closed client.2 then p.2 ++ [client.1] else p.2 := by
  unfold offer closed
  split
  · rename_i h
    rw [(Mpsc.trySend_eq_ok.1 h).1]
    rfl
  · rename_i h
    rw [(Mpsc.trySend_eq_full.1 h).1]
    rfl
  · rename_i h
    rw [Mpsc.trySend_eq_closed.1 h]
    rfl

theorem runs_offer (p : Rooms × List ClientId) (clients : List (ClientId × Sender)) :
    (runs (offer message) p clients).2.1.rooms = p.1.rooms ∧
      (runs (offer message) p clients).2.1.acked = p.1.acked ∧
      (runs (offer message) p clients).2.1.closed = p.1.closed ∧
      (runs (offer message) p clients).2.2 =
        p.2 ++ (clients.filter fun client => p.1.closed client.2).map Prod.fst := by
  induction clients generalizing p with
  | nil => exact ⟨rfl, rfl, rfl, (List.append_nil _).symm⟩
  | cons client clients ih =>
    obtain ⟨hrooms, hacked, hclosed, hfailed⟩ := ih (offer message p client).2
    refine ⟨hrooms.trans (offer_rooms p client).1, hacked.trans (offer_rooms p client).2,
      hclosed.trans (offer_closed p client), hfailed.trans ?_⟩
    rw [offer_closed, offer_failed]
    by_cases hc : p.1.closed client.2 = true <;> simp [hc]

theorem fanout_rooms (s : Rooms) (message : ServerMessage) (clients : List (ClientId × Sender)) :
    (s.fanout message clients).2.1.rooms = s.rooms := (runs_offer _ _).1

theorem fanout_acked (s : Rooms) (message : ServerMessage) (clients : List (ClientId × Sender)) :
    (s.fanout message clients).2.1.acked = s.acked := (runs_offer _ _).2.1

theorem fanout_closed (s : Rooms) (message : ServerMessage) (clients : List (ClientId × Sender)) :
    (s.fanout message clients).2.1.closed = s.closed := (runs_offer _ _).2.2.1

theorem fanout_failed (s : Rooms) (message : ServerMessage) (clients : List (ClientId × Sender)) :
    (s.fanout message clients).2.2 =
      (clients.filter fun client => s.closed client.2).map Prod.fst :=
  (runs_offer _ _).2.2.2.trans (List.nil_append _)

theorem offer_queue (p : Rooms × List ClientId) (client : ClientId × Sender) (tx : Sender) :
    ((offer message p client).2.1.queues tx).buffer = (p.1.queues tx).buffer ∨
      client.2 = tx ∧
        ((offer message p client).2.1.queues tx).buffer = (p.1.queues tx).buffer ++ [message] := by
  unfold offer
  split
  · rename_i queue h
    by_cases htx : tx = client.2
    · right
      refine ⟨htx.symm, ?_⟩
      show (Function.update p.1.queues client.2 queue tx).buffer = _
      rw [htx, Function.update_self]
      exact (Mpsc.trySend_eq_ok.1 h).2.2.1
    · left
      show (Function.update p.1.queues client.2 queue tx).buffer = _
      rw [Function.update_of_ne htx]
  · exact .inl rfl
  · exact .inl rfl

/-- At most as many copies reach a queue as there are entries with it. -/
theorem runs_offer_queue (message : ServerMessage) (p : Rooms × List ClientId)
    (clients : List (ClientId × Sender)) (tx : Sender) :
    ∃ n ≤ clients.countP (fun client => client.2 = tx),
      ((runs (offer message) p clients).2.1.queues tx).buffer =
        (p.1.queues tx).buffer ++ List.replicate n message := by
  induction clients generalizing p with
  | nil => exact ⟨0, Nat.le_refl _, (List.append_nil _).symm⟩
  | cons client clients ih =>
    obtain ⟨n, hn, hbuffer⟩ := ih (offer message p client).2
    rcases offer_queue p client tx with h | ⟨htx, h⟩
    · refine ⟨n, hn.trans ?_, hbuffer.trans (by rw [h])⟩
      rw [List.countP_cons]
      exact Nat.le_add_right _ _
    · refine ⟨n + 1, ?_, hbuffer.trans ?_⟩
      · rw [List.countP_cons_of_pos (by simpa using htx)]
        omega
      · rw [h, List.append_assoc, List.replicate_succ, List.singleton_append]

/-! ### What a command does to the lists -/

theorem clients_congr {s s' : Rooms} (h : s'.rooms = s.rooms) : s'.clients = s.clients := by
  funext room
  unfold Rooms.clients
  rw [h]

theorem clients_of_lookup {clients : List (ClientId × Sender)} (h : s.rooms.lookup room = some clients) :
    s.clients room = clients := by
  rw [Rooms.clients, h, Option.getD_some]

theorem clients_retain (clients : List (ClientId × Sender)) (keep : ClientId → Bool) :
    (s.retain room clients keep).clients room' =
      if room' = room then clients.filter fun client => keep client.1 else s.clients room' := by
  unfold retain Rooms.clients
  simp only
  split_ifs with hnil hroom hroom
  · rw [hroom, Finmap.lookup_erase, hnil, Option.getD_none]
  · rw [Finmap.lookup_erase_ne hroom]
  · rw [hroom, Finmap.lookup_insert, Option.getD_some]
  · rw [Finmap.lookup_insert_of_ne _ hroom]

end Rooms

/-- What a command does to the list of `room'`, in the state of the queues `closed`: a join appends
its entry, a leave removes the entries of its client, and a broadcast those of the clients that have
an entry whose queue is closed. -/
def RoomCommand.apply (closed : Sender → Bool) (room' : DocumentId) (clients : List (ClientId × Sender)) :
    RoomCommand → List (ClientId × Sender)
  | .join room clientId tx _ => if room' = room then clients ++ [(clientId, tx)] else clients
  | .leave room clientId =>
    if room' = room then clients.filter fun client => client.1 ≠ clientId else clients
  | .broadcast room _ =>
    if room' = room then
      clients.filter fun client =>
        client.1 ∉ (clients.filter fun client => closed client.2).map Prod.fst
    else clients

namespace Rooms
variable {s : Rooms}

theorem clients_eq_nil {room : DocumentId} (h : s.rooms.lookup room = none) : s.clients room = [] := by
  rw [clients, h, Option.getD_none]

/-- A broadcast leaves the queues and the metrics as its loop does. -/
theorem broadcast_eq_fanout (s : Rooms) (room : DocumentId) (message : ServerMessage) :
    (s.broadcast room message).queues = (s.fanout message (s.clients room)).2.1.queues ∧
      (s.broadcast room message).metrics = (s.fanout message (s.clients room)).2.1.metrics := by
  unfold broadcast
  cases h : s.rooms.lookup room with
  | none =>
    rw [clients_eq_nil h]
    exact ⟨rfl, rfl⟩
  | some clients =>
    rw [clients_of_lookup h]
    simp only
    split_ifs <;> exact ⟨rfl, rfl⟩

theorem clients_join (s : Rooms) (room : DocumentId) (clientId : ClientId) (tx : Sender)
    (respondTo : AckId) (room' : DocumentId) : (s.join room clientId tx respondTo).clients room' =
      if room' = room then s.clients room' ++ [(clientId, tx)] else s.clients room' := by
  unfold join
  split_ifs with hroom
  · rw [hroom]
    exact clients_of_lookup (Finmap.lookup_insert _)
  · exact congrArg (Option.getD · []) (Finmap.lookup_insert_of_ne _ hroom)

theorem clients_leave (s : Rooms) (room : DocumentId) (clientId : ClientId) (room' : DocumentId) :
    (s.leave room clientId).clients room' = if room' = room then
      (s.clients room').filter fun client => client.1 ≠ clientId else s.clients room' := by
  unfold leave
  cases h : s.rooms.lookup room with
  | none => by_cases hroom : room' = room <;> simp [hroom, clients_eq_nil h]
  | some clients =>
    simp only [clients_retain]
    split_ifs with hroom
    · rw [hroom, clients_of_lookup h]
    · rfl

theorem clients_broadcast (s : Rooms) (room : DocumentId) (message : ServerMessage)
    (room' : DocumentId) : (s.broadcast room message).clients room' = if room' = room then
      (s.clients room').filter fun client =>
        client.1 ∉ ((s.clients room').filter fun client => s.closed client.2).map Prod.fst
      else s.clients room' := by
  unfold broadcast
  cases h : s.rooms.lookup room with
  | none => by_cases hroom : room' = room <;> simp [hroom, clients_eq_nil h]
  | some clients =>
    have hclients : (s.fanout message clients).2.1.clients room' = s.clients room' :=
      congrFun (clients_congr (fanout_rooms s message clients)) room'
    simp only [fanout_failed]
    by_cases hroom : room' = room
    · subst hroom
      rw [if_pos rfl, clients_of_lookup h]
      split_ifs with hnil
      · simp [hclients, clients_of_lookup h, hnil]
      · rw [clients_retain, if_pos rfl]
    · rw [if_neg hroom]
      split_ifs with hnil
      · exact hclients
      · rw [clients_retain, if_neg hroom, hclients]

theorem clients_process (s : Rooms) (cmd : RoomCommand) (room' : DocumentId) :
    (s.process cmd).clients room' = cmd.apply s.closed room' (s.clients room') := by
  cases cmd with
  | join room clientId tx respondTo => exact clients_join s room clientId tx respondTo room'
  | leave room clientId => exact clients_leave s room clientId room'
  | broadcast room message => exact clients_broadcast s room message room'

theorem closed_process (s : Rooms) (cmd : RoomCommand) : (s.process cmd).closed = s.closed := by
  cases cmd with
  | join room clientId tx respondTo => rfl
  | leave room clientId =>
    unfold process leave
    simp only
    split <;> rfl
  | broadcast room message =>
    unfold process broadcast
    simp only
    split
    · rfl
    · rename_i clients _
      split_ifs
      · exact fanout_closed s message clients
      · exact fanout_closed s message clients

theorem acked_process (s : Rooms) (cmd : RoomCommand) : (s.process cmd).acked =
    match cmd with
    | .join _ _ _ respondTo => insert respondTo s.acked
    | _ => s.acked := by
  cases cmd with
  | join room clientId tx respondTo => rfl
  | leave room clientId =>
    unfold process leave
    simp only
    split <;> rfl
  | broadcast room message =>
    unfold process broadcast
    simp only
    split
    · rfl
    · rename_i clients _
      split_ifs
      · exact fanout_acked s message clients
      · exact fanout_acked s message clients

end Rooms
end MiniGraph
