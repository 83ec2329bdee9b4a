import MiniGraph.Lib.Lists
import MiniGraph.MessageOrder
import Mathlib.Data.List.ModifyLast

/-!
# Membership of a room

The commands that the coordinator has taken, with the state of each queue when a broadcast came to it,
determine the room lists. What has been done with each command is recorded along a run, with the rooms as they
were when it was taken, before and after each pass of its loop, and when it was done (`note`). `members` reads
the list of a room off this record, and `Recorded` is what a turn of the coordinator preserves, whatever the
other tasks do in between.
-/

namespace MiniGraph
open Lib

/-! ### What has been done with the commands -/

/-- A pass of the loop of a broadcast: the entry, and the rooms before and after its `try_send`. -/
structure Pass where
  client : ClientId × Sender
  before : Rooms
  after : Rooms

/-- The queue of the entry was closed. -/
def Pass.isClosed (p : Pass) : Bool := p.before.closed p.client.2

/-- The pass is `try_send`. -/
def Pass.Offers (message : ServerMessage) (p : Pass) : Prop :=
  ∃ failedClients, p.after = (Rooms.offer message (p.before, failedClients) p.client).2.1

/-- A command that the coordinator has taken, and the rooms before and after it. There are none after it while
the loop of a broadcast is under way. -/
structure Handling where
  cmd : RoomCommand
  start : Rooms
  passes : List Pass
  done : Option Rooms

def RoomCommand.room : RoomCommand → DocumentId
  | .join room _ _ _ => room
  | .leave room _ => room
  | .broadcast room _ => room

/-- The entry that the command adds to the list of `room`. -/
def RoomCommand.joined (room : DocumentId) : RoomCommand → List (ClientId × Sender)
  | .join room' clientId tx _ => if room' = room then [(clientId, tx)] else []
  | _ => []

namespace Handling

/-- A broadcast to `room` that has found a queue of `clientId` closed. -/
def findsClosed (room : DocumentId) (clientId : ClientId) (x : Handling) : Bool :=
  match x.cmd with
  | .broadcast room' _ => room' = room && x.passes.any fun p => p.client.1 = clientId && p.isClosed
  | _ => false

/-- A leave of `clientId`, or such a broadcast. -/
def removes (room : DocumentId) (clientId : ClientId) (x : Handling) : Bool :=
  x.cmd = .leave room clientId || x.findsClosed room clientId

end Handling

/-- The entries that the joins added to the list of `room` and that no later command removed, in the order in
which they were added. -/
def members (room : DocumentId) : List Handling → List (ClientId × Sender)
  | [] => []
  | x :: later =>
    ((x.cmd.joined room).filter fun client => !later.any (Handling.removes room client.1)) ++ members room later

/-- The rooms before and after a command, and the passes of its loop, as the commands before it have it. -/
structure Handling.Follows (before : List Handling) (x : Handling) : Prop where
  start : ∀ room, x.start.clients room = members room before
  /-- the loop of a broadcast goes through the list of its room -/
  offered : ∀ room message, x.cmd = .broadcast room message →
    x.passes.map Pass.client <+: x.start.clients room ∧ ∀ p ∈ x.passes, p.Offers message
  done : ∀ rooms, x.done = some rooms → ∀ room, rooms.clients room = members room (before ++ [x])
  /-- and is not done before its end -/
  complete : ∀ rooms room message, x.done = some rooms → x.cmd = .broadcast room message →
    x.passes.map Pass.client = x.start.clients room

/-! ### One more command -/

theorem Handling.removes_broadcast {room : DocumentId} {message : ServerMessage} {start : Rooms}
    {passes : List Pass} {done : Option Rooms} {clientId : ClientId} :
    Handling.removes room clientId ⟨.broadcast room message, start, passes, done⟩ = true ↔
      ∃ p ∈ passes, p.client.1 = clientId ∧ p.isClosed = true := by
  simp [removes, findsClosed]

variable {x : Handling} {before later : List Handling} {room : DocumentId} {clientId : ClientId}

theorem members_append (room : DocumentId) (before later : List Handling) : members room (before ++ later) =
    ((members room before).filter fun client => !later.any (Handling.removes room client.1)) ++
      members room later := by
  induction before with
  | nil => rfl
  | cons x before ih =>
    rw [List.cons_append, members, ih, members, List.filter_append, List.filter_filter, List.append_assoc]
    congr 1
    refine List.filter_congr fun client _ => ?_
    rw [List.any_append, Bool.not_or, Bool.and_comm]

theorem members_concat (room : DocumentId) (before : List Handling) (x : Handling) :
    members room (before ++ [x]) =
      ((members room before).filter fun client => !x.removes room client.1) ++ x.cmd.joined room := by
  simp [members_append, members]

theorem mem_members {clientId : ClientId} {tx : Sender} {k : AckId} (hx : x.cmd = .join room clientId tx k)
    (hlater : ∀ y ∈ later, y.removes room clientId = false) :
    (clientId, tx) ∈ members room (before ++ x :: later) := by
  rw [members_append, members, hx]
  refine List.mem_append_right _ (List.mem_append_left _ (List.mem_filter.2 ⟨?_, ?_⟩))
  · simp [RoomCommand.joined]
  · simpa using hlater

namespace Coordinator
variable {s s' : Coordinator} {accepted cmds : List RoomCommand} {h : List Handling} {e : RoomEvent}

/-- What a turn of the coordinator from `s` to `s'` adds to the record. -/
def note (h : List Handling) (s s' : Coordinator) : List Handling :=
  match s.fanout, s.commands.buffer with
  | some ⟨_, _, client :: _, _⟩, _ =>
    h.modifyLast fun x => { x with passes := x.passes ++ [⟨client, s.rooms, s'.rooms⟩] }
  | some ⟨_, _, [], _⟩, _ => h.modifyLast fun x => { x with done := some s'.rooms }
  | none, cmd :: _ => h ++ [⟨cmd, s.rooms, [], if s'.fanout.isNone then some s'.rooms else none⟩]
  | none, [] => h

/-! ### The rooms -/

theorem clients_finish (s : Coordinator) (f : Fanout) (room : DocumentId) :
    (s.finish f).rooms.clients room = if room = f.room then
      (s.rooms.clients room).filter fun client => client.1 ∉ f.failedClients else s.rooms.clients room := by
  unfold finish
  simp only
  by_cases hnil : f.failedClients = []
  · simp [hnil]
  · rw [if_neg hnil, Rooms.clients_retain]
    split_ifs with hroom
    · rw [hroom]
    · rfl

theorem clients_take (s : Coordinator) (commands : CommandChannel) (cmd : RoomCommand) (room : DocumentId) :
    (take { s with commands } cmd).rooms.clients room =
      ((s.rooms.clients room).filter fun client => decide (cmd ≠ .leave room client.1)) ++ cmd.joined room := by
  cases cmd with
  | join room' clientId tx respondTo =>
    show (s.rooms.join room' clientId tx respondTo).clients room = _
    rw [Rooms.clients_join]
    by_cases hroom : room = room'
    · simp [RoomCommand.joined, hroom]
    · simp [RoomCommand.joined, hroom, Ne.symm hroom]
  | leave room' clientId =>
    show (s.rooms.leave room' clientId).clients room = _
    rw [Rooms.clients_leave]
    by_cases hroom : room = room'
    · simp [RoomCommand.joined, hroom, eq_comm]
    · simp [RoomCommand.joined, hroom, Ne.symm hroom]
  | broadcast room' message => simp [RoomCommand.joined, take]

/-! ### The invariant -/

/-- What holds of the record `h`, the commands `accepted` by the channel and the state. -/
structure Recorded (accepted : List RoomCommand) (h : List Handling) (s : Coordinator) : Prop where
  fifo : accepted = h.map Handling.cmd ++ s.commands.buffer
  each : EachAfter Handling.Follows h
  idle : s.fanout = none → (∀ x ∈ h, x.done.isSome) ∧ ∀ room, s.rooms.clients room = members room h
  underWay : ∀ f, s.fanout = some f → ∃ before start passes,
    h = before ++ [⟨.broadcast f.room f.message, start, passes, none⟩] ∧ (∀ x ∈ before, x.done.isSome) ∧
      (∀ room, s.rooms.clients room = members room before) ∧
        start.clients f.room = passes.map Pass.client ++ f.remaining ∧
          f.failedClients = (passes.filter Pass.isClosed).map fun p => p.client.1

theorem recorded_init (metrics : Metrics) : Recorded [] [] (init metrics) where
  fifo := rfl
  each := eachAfter_nil
  idle _ := ⟨nofun, fun room => Rooms.clients_eq_nil (Finmap.lookup_empty room)⟩
  underWay := nofun

namespace Recorded

/-- Another task takes a step, and sends `cmds`. -/
theorem beside (hr : Recorded accepted h s) (hbuffer : s'.commands.buffer = s.commands.buffer ++ cmds)
    (hrooms : s'.rooms.rooms = s.rooms.rooms) (hfanout : s'.fanout = s.fanout) :
    Recorded (accepted ++ cmds) h s' := by
  have hclients := Rooms.clients_congr hrooms
  refine ⟨?_, hr.each, ?_, ?_⟩
  · rw [hr.fifo, hbuffer, List.append_assoc]
  · rw [hfanout, hclients]
    exact hr.idle
  · rw [hfanout, hclients]
    exact hr.underWay

/-- The coordinator takes a command and is done with it. -/
theorem taken (hr : Recorded accepted h s) (hidle : s.fanout = none) {cmd : RoomCommand}
    {commands : CommandChannel} (hbuffer : s.commands.buffer = cmd :: commands.buffer)
    (hdone : (take { s with commands } cmd).fanout = none)
    (hempty : ∀ room message, cmd = .broadcast room message → s.rooms.clients room = []) :
    Recorded accepted (h ++ [⟨cmd, s.rooms, [], some (take { s with commands } cmd).rooms⟩])
      (take { s with commands } cmd) := by
  obtain ⟨hall, hlists⟩ := hr.idle hidle
  have hcommands : (take { s with commands } cmd).commands = commands := by
    cases cmd <;> rfl
  have hmembers : ∀ room, (take { s with commands } cmd).rooms.clients room =
      members room (h ++ [⟨cmd, s.rooms, [], some (take { s with commands } cmd).rooms⟩]) := by
    intro room
    rw [clients_take, members_concat, ← hlists]
    congr 1
    refine List.filter_congr fun client _ => ?_
    cases cmd <;> simp [Handling.removes, Handling.findsClosed]
  refine ⟨?_, ?_, ?_, ?_⟩
  · rw [hcommands, hr.fifo, hbuffer]
    simp
  · refine eachAfter_concat.2 ⟨hr.each, hlists, fun room message hcmd => ?_, ?_, ?_⟩
    · exact ⟨List.nil_prefix, nofun⟩
    · intro rooms hrooms
      obtain rfl := Option.some.inj hrooms
      exact hmembers
    · intro rooms room message _ hcmd
      exact (hempty room message hcmd).symm
  · intro _
    refine ⟨fun x hx => ?_, hmembers⟩
    rcases List.mem_append.1 hx with hx | hx
    · exact hall x hx
    · rw [List.mem_singleton.1 hx]
      rfl
  · intro f hf
    rw [hdone] at hf
    cases hf

/-- The coordinator takes a broadcast to a room that exists. -/
theorem started (hr : Recorded accepted h s) (hidle : s.fanout = none) {room : DocumentId}
    {message : ServerMessage} {commands : CommandChannel} {clients : List (ClientId × Sender)}
    (hbuffer : s.commands.buffer = .broadcast room message :: commands.buffer)
    (hroom : s.rooms.clients room = clients) :
    Recorded accepted (h ++ [⟨.broadcast room message, s.rooms, [], none⟩])
      { s with commands, fanout := some ⟨room, message, clients, []⟩ } := by
  obtain ⟨hall, hlists⟩ := hr.idle hidle
  refine ⟨?_, ?_, nofun, ?_⟩
  · rw [hr.fifo, hbuffer]
    simp
  · refine eachAfter_concat.2 ⟨hr.each, hlists, fun room' message' _ => ?_, nofun, nofun⟩
    exact ⟨List.nil_prefix, nofun⟩
  · intro f hf
    obtain rfl := Option.some.inj hf
    exact ⟨h, s.rooms, [], rfl, hall, hlists, hroom, rfl⟩

/-- A pass of the loop that is under way. -/
theorem passed (hr : Recorded accepted h s) {f : Fanout} (hf : s.fanout = some f) {client : ClientId × Sender}
    {remaining : List (ClientId × Sender)} (hnext : f.remaining = client :: remaining)
    {result : Except TrySendError Unit} {rooms : Rooms} {failedClients : List ClientId}
    (ho : Rooms.offer f.message (s.rooms, f.failedClients) client = (result, rooms, failedClients)) :
    Recorded accepted
      (h.modifyLast fun x => { x with passes := x.passes ++ [⟨client, s.rooms, rooms⟩] })
      { s with rooms, fanout := some { f with remaining, failedClients } } := by
  obtain ⟨before, start, passes, rfl, hall, hlists, hclients, hfailed⟩ := hr.underWay f hf
  rw [List.modifyLast_concat]
  obtain ⟨heach, hfollows⟩ := eachAfter_concat.1 hr.each
  have hsame : rooms.clients = s.rooms.clients := Rooms.clients_congr (Rooms.rooms_of_offer ho)
  have hclients' : start.clients f.room =
      (passes ++ [(⟨client, s.rooms, rooms⟩ : Pass)]).map Pass.client ++ remaining := by
    rw [hclients, hnext]
    simp
  refine ⟨?_, ?_, nofun, ?_⟩
  · rw [hr.fifo]
    simp
  · refine eachAfter_concat.2 ⟨heach, hfollows.start, fun room message hcmd => ?_, nofun, nofun⟩
    obtain ⟨rfl, rfl⟩ := RoomCommand.broadcast.inj hcmd
    refine ⟨?_, fun p hp => ?_⟩
    · rw [hclients']
      exact List.prefix_append _ _
    rcases List.mem_append.1 hp with hp | hp
    · exact (hfollows.offered _ _ rfl).2 p hp
    · obtain rfl := List.mem_singleton.1 hp
      exact ⟨f.failedClients, by rw [ho]⟩
  · intro f' hf'
    obtain rfl := Option.some.inj hf'
    refine ⟨before, start, _, rfl, hall, fun room => ?_, hclients', ?_⟩
    · rw [hsame]
      exact hlists room
    · have hfailed' : (Rooms.offer f.message (s.rooms, f.failedClients) client).2.2 = _ :=
        Rooms.offer_failed _ _
      rw [ho] at hfailed'
      simp only at hfailed'
      show failedClients = _
      rw [List.filter_append, List.map_append, ← hfailed, hfailed']
      by_cases hclosed : s.rooms.closed client.2 = true <;> simp [Pass.isClosed, hclosed]

/-- The end of the loop. -/
theorem finished (hr : Recorded accepted h s) {f : Fanout} (hf : s.fanout = some f)
    (hnext : f.remaining = []) :
    Recorded accepted (h.modifyLast fun x => { x with done := some (s.finish f).rooms }) (s.finish f) := by
  obtain ⟨before, start, passes, rfl, hall, hlists, hclients, hfailed⟩ := hr.underWay f hf
  rw [List.modifyLast_concat]
  obtain ⟨heach, hfollows⟩ := eachAfter_concat.1 hr.each
  rw [hnext, List.append_nil] at hclients
  have hmembers : ∀ room, (s.finish f).rooms.clients room = members room
      (before ++ [⟨.broadcast f.room f.message, start, passes, some (s.finish f).rooms⟩]) := by
    intro room
    rw [clients_finish, members_concat, hlists]
    by_cases hroom : room = f.room
    · subst hroom
      rw [if_pos rfl]
      simp only [RoomCommand.joined, List.append_nil]
      refine List.filter_congr fun client _ => ?_
      rw [hfailed, Bool.eq_iff_iff, Bool.not_eq_true', Bool.eq_false_iff, ne_eq, Handling.removes_broadcast]
      simp only [decide_eq_true_eq, List.mem_map, List.mem_filter, and_assoc]
      exact not_congr (exists_congr fun p => and_congr_right fun _ => and_comm)
    · rw [if_neg hroom]
      simp [Handling.removes, Handling.findsClosed, RoomCommand.joined, Ne.symm hroom]
  refine ⟨?_, ?_, ?_, nofun⟩
  · rw [hr.fifo]
    simp [finish]
  · refine eachAfter_concat.2 ⟨heach, hfollows.start, hfollows.offered, ?_, ?_⟩
    · intro rooms hrooms
      obtain rfl := Option.some.inj hrooms
      exact hmembers
    · intro rooms room message _ hcmd
      obtain ⟨rfl, rfl⟩ := RoomCommand.broadcast.inj hcmd
      exact hclients.symm
  · intro _
    refine ⟨fun x hx => ?_, hmembers⟩
    rcases List.mem_append.1 hx with hx | hx
    · exact hall x hx
    · rw [List.mem_singleton.1 hx]
      rfl

/-- **A turn of the coordinator.** -/
theorem turn (hr : Recorded accepted h s) :
    Recorded accepted (note h s (s.step .coordinate).2) (s.step .coordinate).2 := by
  simp only [step]
  cases hf : s.fanout with
  | some f =>
    obtain ⟨room, message, remaining, failedClients⟩ := f
    simp only [note, hf, pass]
    cases remaining with
    | cons client remaining => exact hr.passed hf rfl rfl
    | nil => exact hr.finished hf rfl
  | none =>
    obtain ⟨rooms, commands₀, fanout⟩ := s
    obtain rfl : fanout = none := hf
    cases hrecv : commands₀.recv with
    | none =>
      simp only [note, Mpsc.recv_eq_none.1 hrecv]
      exact hr
    | some next =>
      obtain ⟨cmd, commands⟩ := next
      have hbuffer := (Mpsc.recv_eq_some.1 hrecv).1
      simp only [note, hbuffer]
      cases cmd with
      | join room clientId tx respondTo => exact hr.taken rfl hbuffer rfl (by rintro _ _ ⟨⟩)
      | leave room clientId => exact hr.taken rfl hbuffer rfl (by rintro _ _ ⟨⟩)
      | broadcast room message =>
        cases hroom : rooms.rooms.lookup room with
        | none =>
          have hdone : (take ⟨rooms, commands, none⟩ (.broadcast room message)).fanout = none := by
            simp only [take, hroom]
            rfl
          rw [hdone]
          refine hr.taken rfl hbuffer hdone ?_
          rintro _ _ ⟨⟩
          exact Rooms.clients_eq_nil hroom
        | some clients =>
          have hstarted := hr.started rfl hbuffer (Rooms.clients_of_lookup hroom)
          simp only [take, hroom]
          exact hstarted

end Recorded

/-! ### The keys -/

/-- No room is empty. -/
def Occupied (s : Coordinator) : Prop := ∀ room, s.rooms.rooms.lookup room ≠ some []

theorem Occupied.mem_iff (h : s.Occupied) (room : DocumentId) :
    room ∈ s.rooms.rooms ↔ s.rooms.clients room ≠ [] := by
  rw [← Finmap.lookup_isSome]
  cases hroom : s.rooms.rooms.lookup room with
  | none => simp [Rooms.clients_eq_nil hroom]
  | some clients =>
    have hne : clients ≠ [] := fun hnil => h room (hnil ▸ hroom)
    simp [Rooms.clients_of_lookup hroom, hne]

theorem occupied_insert {rooms : Finmap fun _ : DocumentId => List (ClientId × Sender)}
    (h : ∀ room, rooms.lookup room ≠ some []) {clients : List (ClientId × Sender)} (hne : clients ≠ [])
    (room room' : DocumentId) : (rooms.insert room clients).lookup room' ≠ some [] := by
  by_cases hroom : room' = room
  · subst hroom
    rw [Finmap.lookup_insert]
    intro heq
    exact hne (Option.some.inj heq)
  · rw [Finmap.lookup_insert_of_ne _ hroom]
    exact h room'

theorem occupied_retain {rooms : Rooms} (h : ∀ room, rooms.rooms.lookup room ≠ some [])
    (room : DocumentId) (clients : List (ClientId × Sender)) (keep : ClientId → Bool)
    (room' : DocumentId) : (rooms.retain room clients keep).rooms.lookup room' ≠ some [] := by
  unfold Rooms.retain
  simp only
  split_ifs with hnil
  · by_cases hroom : room' = room
    · rw [hroom, Finmap.lookup_erase]
      nofun
    · rw [Finmap.lookup_erase_ne hroom]
      exact h room'
  · exact occupied_insert h hnil room room'

theorem occupied_step (h : Effect s e s') (ho : s.Occupied) : s'.Occupied := by
  cases h with
  | taken cmd commands idle =>
    cases cmd with
    | join room clientId tx respondTo => exact occupied_insert ho (by simp) room
    | leave room clientId =>
      show ∀ room', (s.rooms.leave room clientId).rooms.lookup room' ≠ some []
      unfold Rooms.leave
      split
      · exact ho
      · exact occupied_retain ho room _ _
    | broadcast room message => exact ho
  | offered f client remaining result rooms failedClients fanout next offer =>
    have hrooms : rooms.rooms = s.rooms.rooms := Rooms.rooms_of_offer offer
    intro room
    show rooms.rooms.lookup room ≠ some []
    rw [hrooms]
    exact ho room
  | finished f fanout =>
    intro room
    unfold finish
    simp only
    split_ifs
    · exact ho room
    · exact occupied_retain ho f.room _ _ room
  | _ => exact ho

theorem occupied_run (metrics : Metrics) (as : List CoordinatorAction) :
    (run metrics as).2.Occupied := by
  refine runs_invariant (fun _ (s : Coordinator) => s.Occupied) ?_ ?_ as
  · intro room
    show (∅ : Finmap fun _ : DocumentId => List (ClientId × Sender)).lookup room ≠ some []
    rw [Finmap.lookup_empty]
    nofun
  · intro es s a h
    exact occupied_step (step_effect s a) h

/-! ### Other rooms -/

/-- The room of the command that the coordinator is at work on, or takes next. -/
def working (s : Coordinator) : Option DocumentId :=
  match s.fanout with
  | some f => some f.room
  | none => s.commands.buffer.head?.map RoomCommand.room

theorem clients_turn_of_ne (hroom : s.working ≠ some room) :
    (s.step .coordinate).2.rooms.clients room = s.rooms.clients room := by
  unfold working at hroom
  simp only [step]
  cases hf : s.fanout with
  | some f =>
    obtain ⟨room', message, remaining, failedClients⟩ := f
    rw [hf] at hroom
    cases remaining with
    | cons client remaining => exact congrFun (Rooms.clients_congr (Rooms.offer_rooms _ client).1) room
    | nil => exact (clients_finish s _ room).trans (if_neg fun heq => hroom (congrArg some heq.symm))
  | none =>
    rw [hf] at hroom
    obtain ⟨rooms, commands₀, fanout⟩ := s
    obtain rfl : fanout = none := hf
    cases hrecv : commands₀.recv with
    | none => rfl
    | some next =>
      obtain ⟨cmd, commands⟩ := next
      rw [(Mpsc.recv_eq_some.1 hrecv).1] at hroom
      have hne : cmd.room ≠ room := fun heq => hroom (congrArg some heq)
      refine (clients_take ⟨rooms, commands₀, none⟩ commands cmd room).trans ?_
      cases cmd with
      | join room' clientId tx respondTo => simp [RoomCommand.joined, show room' ≠ room from hne]
      | leave room' clientId => simp [RoomCommand.joined, show room' ≠ room from hne]
      | broadcast room' message => simp [RoomCommand.joined]

theorem closed_turn (s : Coordinator) : (s.step .coordinate).2.commands.closed = s.commands.closed := by
  simp only [step]
  split
  · simp only [pass]
    split <;> rfl
  · split
    · rename_i cmd commands hrecv
      cases cmd <;> exact (Mpsc.recv_eq_some.1 hrecv).2
    · rfl

/-- What the other tasks do: they send commands, and the lists stay as they are. -/
structure Beside (s : Coordinator) (e : RoomEvent) (s' : Coordinator) : Prop where
  buffer : s'.commands.buffer = s.commands.buffer ++ e.acceptedCommand.toList
  rooms : s'.rooms.rooms = s.rooms.rooms
  fanout : s'.fanout = s.fanout

theorem beside_step {a : CoordinatorAction} (ha : a ≠ .coordinate) :
    Beside s (s.step a).1 (s.step a).2 := by
  have hnothing : Beside s .idle s := ⟨(List.append_nil _).symm, rfl, rfl⟩
  cases a with
  | send cmd =>
    simp only [step]
    split
    · rename_i commands h
      exact ⟨(Mpsc.trySend_eq_ok.1 h).2.2.1, rfl, rfl⟩
    · exact hnothing
  | coordinate => exact absurd rfl ha
  | reply tx message =>
    simp only [step]
    split
    · exact ⟨(List.append_nil _).symm, rfl, rfl⟩
    · exact hnothing
  | drain tx =>
    simp only [step]
    split
    · exact ⟨(List.append_nil _).symm, rfl, rfl⟩
    · exact hnothing
  | close tx => exact ⟨(List.append_nil _).symm, rfl, rfl⟩

/-! ### The history determines the rooms -/

/-- The record of a run. -/
def history (metrics : Metrics) (as : List CoordinatorAction) : List Handling :=
  record (fun s a => some (step s a).2)
    (fun h s a s' => match a with
      | .coordinate => note h s s'
      | _ => h) [] (init metrics) as

theorem acceptedCommand_turn (s : Coordinator) : (s.step .coordinate).1.acceptedCommand = none := by
  simp only [step]
  split
  · simp only [pass]
    split <;> rfl
  · split <;> rfl

theorem recorded_run (metrics : Metrics) (as : List CoordinatorAction) :
    Recorded (acceptedCommands (run metrics as).1) (history metrics as) (run metrics as).2 := by
  have hexec : exec (fun s a => some (step s a).2) (init metrics) as = some (run metrics as).2 :=
    exec_runs step (init metrics) as
  refine exec_history
    (fun as s => Recorded (acceptedCommands (run metrics as).1) (history metrics as) s) hexec
    (recorded_init metrics) ?_
  rintro before s a s' hbefore ih hstep
  obtain rfl := Option.some.inj hstep
  obtain rfl := Option.some.inj ((exec_runs step (init metrics) before).symm.trans hbefore)
  unfold history at ih ⊢
  rw [record_concat hbefore hstep, run, runs_concat, acceptedCommands_concat]
  by_cases ha : a = .coordinate
  · subst ha
    rw [acceptedCommand_turn, Option.toList_none, List.append_nil]
    exact ih.turn
  · have hbeside := beside_step (s := (run metrics before).2) ha
    have hnew := ih.beside hbeside.buffer hbeside.rooms hbeside.fanout
    cases a with
    | coordinate => exact absurd rfl ha
    | _ => exact hnew

/-- What the record `h` of a run says about the rooms at its end. -/
structure Determined (accepted : List RoomCommand) (h : List Handling) (s : Coordinator) : Prop where
  /-- on record are the commands that have been accepted, up to those that are left in the channel -/
  fifo : accepted = h.map Handling.cmd ++ s.commands.buffer
  each : EachAfter Handling.Follows h
  /-- unless a broadcast to the room is under way -/
  lists : ∀ room, (∀ x ∈ h, x.done = none → x.cmd.room ≠ room) → s.rooms.clients room = members room h
  /-- which is the last command, and leaves the list as it was up to its end -/
  underWay : ∀ x ∈ h, x.done = none → (∃ before, h = before ++ [x]) ∧
    (∃ message, x.cmd = .broadcast x.cmd.room message) ∧
      s.rooms.clients x.cmd.room = x.start.clients x.cmd.room
  keys : ∀ room, room ∈ s.rooms.rooms ↔ s.rooms.clients room ≠ []
  others : ∀ a room, (a = .coordinate → s.working ≠ some room) →
    (s.step a).2.rooms.clients room = s.rooms.clients room

theorem Recorded.lists (hr : Recorded accepted h s)
    (hroom : ∀ x ∈ h, x.done = none → x.cmd.room ≠ room) : s.rooms.clients room = members room h := by
  cases hf : s.fanout with
  | none => exact (hr.idle hf).2 room
  | some f =>
    obtain ⟨before, start, passes, rfl, -, hlists, -⟩ := hr.underWay f hf
    have hne : f.room ≠ room := hroom _ (List.mem_append_right _ (List.mem_singleton_self _)) rfl
    rw [hlists, members_concat]
    simp [Handling.removes, Handling.findsClosed, RoomCommand.joined, hne]

theorem Recorded.last (hr : Recorded accepted h s) {x : Handling} (hx : x ∈ h) (hdone : x.done = none) :
    (∃ before, h = before ++ [x]) ∧ (∃ message, x.cmd = .broadcast x.cmd.room message) ∧
      s.rooms.clients x.cmd.room = x.start.clients x.cmd.room := by
  cases hf : s.fanout with
  | none =>
    have hsome := (hr.idle hf).1 x hx
    rw [hdone] at hsome
    cases hsome
  | some f =>
    obtain ⟨before, start, passes, rfl, hall, hlists, -⟩ := hr.underWay f hf
    rcases List.mem_append.1 hx with hx | hx
    · have hsome := hall x hx
      rw [hdone] at hsome
      cases hsome
    · obtain rfl := List.mem_singleton.1 hx
      refine ⟨⟨before, rfl⟩, ⟨f.message, rfl⟩, ?_⟩
      rw [hlists, (eachAfter_concat.1 hr.each).2.start]

/-- **Membership is determined by the history**, in every run of the coordinator from the empty map. -/
theorem run_determined (metrics : Metrics) (as : List CoordinatorAction) :
    Determined (acceptedCommands (run metrics as).1) (history metrics as) (run metrics as).2 where
  fifo := (recorded_run metrics as).fifo
  each := (recorded_run metrics as).each
  lists := fun _ => (recorded_run metrics as).lists
  underWay := fun _ => (recorded_run metrics as).last
  keys := (occupied_run metrics as).mem_iff
  others := by
    intro a room h
    by_cases ha : a = .coordinate
    · subst ha
      exact clients_turn_of_ne (h rfl)
    · exact congrFun (Rooms.clients_congr (beside_step ha).rooms) room

end Coordinator
end MiniGraph
