import MiniGraph.Coordinator
import MiniGraph.Lib.Stutter

/-!
# Order of the messages

The coordinator is the one who puts broadcasts into the outbound queues, and it takes their commands in
the order in which the channel accepted them. So what a queue accepts goes through the accepted
broadcasts in order (`Stutters`), whatever is refused, dropped or removed on the way, and two clients
never see two broadcasts in opposite orders. Broadcasts may have equal messages; to tell them apart,
each is numbered by its place among the accepted commands.
-/

namespace MiniGraph
open Lib

/-! ### Reading the events -/

def RoomEvent.acceptedCommand : RoomEvent → Option RoomCommand
  | .accepted cmd => some cmd
  | _ => none

def RoomEvent.takenCommand : RoomEvent → Option RoomCommand
  | .taken cmd => some cmd
  | _ => none

def acceptedCommands (es : List RoomEvent) : List RoomCommand := es.filterMap RoomEvent.acceptedCommand

def takenCommands (es : List RoomEvent) : List RoomCommand := es.filterMap RoomEvent.takenCommand

/-- The broadcasts among the commands, each with its place. -/
def broadcasts (cmds : List RoomCommand) : List (Nat × ServerMessage) :=
  (cmds.zipIdx 1).filterMap fun
    | (.broadcast _ message, n) => some (n, message)
    | _ => none

/-- The events, each with the place of the command that the coordinator is at work on. -/
def numbered : Nat → List RoomEvent → List (Nat × RoomEvent)
  | _, [] => []
  | n, e :: es => (n, e) :: numbered (n + (takenCommands [e]).length) es

/-- What goes into the queue of `tx` in an event: a broadcast, with its number, or another message. -/
def RoomEvent.put (tx : Sender) : Nat × RoomEvent → Option (Option Nat × ServerMessage)
  | (n, .offered _ client message (.ok ())) =>
    if client.2 = tx then some (some n, message) else none
  | (_, .replied tx' message) => if tx' = tx then some (none, message) else none
  | _ => none

/-- Everything that has gone into the queue of `tx`. -/
def puts (tx : Sender) (es : List RoomEvent) : List (Option Nat × ServerMessage) :=
  (numbered 0 es).filterMap (RoomEvent.put tx)

/-- The broadcasts among the messages of a queue. -/
def broadcastsIn (messages : List (Option Nat × ServerMessage)) : List (Nat × ServerMessage) :=
  messages.filterMap fun x => x.1.map (·, x.2)

def RoomEvent.receivedBy (tx : Sender) : RoomEvent → Option ServerMessage
  | .received tx' message => if tx' = tx then some message else none
  | _ => none

/-- What the client of `tx` has received. -/
def received (tx : Sender) (es : List RoomEvent) : List ServerMessage :=
  es.filterMap (RoomEvent.receivedBy tx)

/-- The broadcasts that the client of `tx` has received. -/
def delivered (tx : Sender) (es : List RoomEvent) : List (Nat × ServerMessage) :=
  broadcastsIn ((puts tx es).take (received tx es).length)

/-! ### One more event -/

variable {es : List RoomEvent} {e : RoomEvent} {tx : Sender}

theorem acceptedCommands_concat (es : List RoomEvent) (e : RoomEvent) :
    acceptedCommands (es ++ [e]) = acceptedCommands es ++ e.acceptedCommand.toList :=
  filterMap_concat RoomEvent.acceptedCommand es e

theorem takenCommands_concat (es : List RoomEvent) (e : RoomEvent) :
    takenCommands (es ++ [e]) = takenCommands es ++ e.takenCommand.toList :=
  filterMap_concat RoomEvent.takenCommand es e

theorem received_concat (tx : Sender) (es : List RoomEvent) (e : RoomEvent) :
    received tx (es ++ [e]) = received tx es ++ (e.receivedBy tx).toList :=
  filterMap_concat (RoomEvent.receivedBy tx) es e

theorem numbered_concat (n : Nat) (es : List RoomEvent) (e : RoomEvent) :
    numbered n (es ++ [e]) = numbered n es ++ [(n + (takenCommands es).length, e)] := by
  induction es generalizing n with
  | nil => rfl
  | cons e' es ih =>
    have hsplit : takenCommands (e' :: es) = takenCommands [e'] ++ takenCommands es :=
      List.filterMap_append (l := [e'])
    rw [List.cons_append, numbered, ih, hsplit, numbered, List.length_append, Nat.add_assoc]
    rfl

theorem puts_concat (tx : Sender) (es : List RoomEvent) (e : RoomEvent) :
    puts tx (es ++ [e]) = puts tx es ++ (RoomEvent.put tx ((takenCommands es).length, e)).toList := by
  unfold puts
  rw [numbered_concat, filterMap_concat, Nat.zero_add]

theorem broadcasts_append (cmds cmds' : List RoomCommand) : ∃ later,
    broadcasts (cmds ++ cmds') = broadcasts cmds ++ later := by
  unfold broadcasts
  rw [List.zipIdx_append, List.filterMap_append]
  exact ⟨_, rfl⟩

theorem broadcasts_concat (cmds : List RoomCommand) (room : DocumentId) (message : ServerMessage) :
    broadcasts (cmds ++ [.broadcast room message]) =
      broadcasts cmds ++ [(cmds.length + 1, message)] := by
  unfold broadcasts
  rw [List.zipIdx_append, List.filterMap_append, Nat.add_comm]
  rfl

theorem broadcasts_pairwise (cmds : List RoomCommand) :
    (broadcasts cmds).Pairwise fun x y => x.1 < y.1 := by
  unfold broadcasts
  rw [List.pairwise_filterMap]
  have hindex : (cmds.zipIdx 1).Pairwise fun x y => x.2 < y.2 := by
    rw [← List.pairwise_map (f := Prod.snd), List.zipIdx_map_snd]
    exact List.pairwise_lt_range'
  refine hindex.imp ?_
  rintro ⟨cmd, n⟩ ⟨cmd', n'⟩ hlt x hx y hy
  cases cmd with
  | broadcast room message =>
    cases cmd' with
    | broadcast room' message' =>
      obtain rfl := Option.some.inj hx
      obtain rfl := Option.some.inj hy
      exact hlt
    | _ => cases hy
  | _ => cases hx

namespace Coordinator
variable {s s' : Coordinator}

/-! ### The invariant -/

/-- What holds after the events `es` of a run. -/
structure InOrder (es : List RoomEvent) (s : Coordinator) : Prop where
  fifo : acceptedCommands es = takenCommands es ++ s.commands.buffer
  current : ∀ f, s.fanout = some f →
    ∃ before, takenCommands es = before ++ [.broadcast f.room f.message]
  order : ∀ tx, Stutters (broadcastsIn (puts tx es)) (broadcasts (takenCommands es))
  /-- a queue that is closed has lost what was not received -/
  queue : ∀ tx, ∃ lost, (puts tx es).map Prod.snd =
      received tx es ++ ((s.rooms.queues tx).buffer ++ lost) ∧
    ((s.rooms.queues tx).closed = false → lost = [])

theorem inOrder_init (metrics : Metrics) : InOrder [] (init metrics) where
  fifo := rfl
  current := nofun
  order := fun _ => .nil
  queue := fun _ => ⟨[], rfl, fun _ => rfl⟩

namespace InOrder
variable (h : InOrder es s)
include h

theorem fifo_step (heff : Effect s e s') :
    acceptedCommands (es ++ [e]) = takenCommands (es ++ [e]) ++ s'.commands.buffer := by
  rw [acceptedCommands_concat, takenCommands_concat, h.fifo]
  cases heff with
  | accepted cmd commands buffer =>
    show takenCommands es ++ s.commands.buffer ++ [cmd] = takenCommands es ++ [] ++ commands.buffer
    rw [buffer, List.append_nil, List.append_assoc]
  | taken cmd commands idle buffer =>
    have htake : (take { s with commands } cmd).commands = commands := by
      cases cmd <;> rfl
    show takenCommands es ++ s.commands.buffer ++ [] = takenCommands es ++ [cmd] ++ _
    rw [htake, buffer, List.append_nil, List.append_assoc, List.singleton_append]
  | _ => exact (List.append_nil _).trans (congrArg (· ++ _) (List.append_nil _).symm)

theorem current_step (heff : Effect s e s') (f : Fanout) (hf : s'.fanout = some f) :
    ∃ before, takenCommands (es ++ [e]) = before ++ [.broadcast f.room f.message] := by
  rw [takenCommands_concat]
  cases heff with
  | taken cmd commands idle =>
    cases cmd with
    | broadcast room message =>
      obtain ⟨clients, -, rfl⟩ := Option.map_eq_some_iff.1 hf
      exact ⟨takenCommands es, rfl⟩
    | _ =>
      have hnone : s.fanout = some f := hf
      rw [idle] at hnone
      cases hnone
  | offered f' client remaining result rooms failedClients fanout =>
    obtain rfl := Option.some.inj hf
    obtain ⟨before, hbefore⟩ := h.current f' fanout
    exact ⟨before, (List.append_nil _).trans hbefore⟩
  | finished => cases hf
  | _ =>
    obtain ⟨before, hbefore⟩ := h.current f hf
    exact ⟨before, (List.append_nil _).trans hbefore⟩

theorem order_step (heff : Effect s e s') (tx : Sender) :
    Stutters (broadcastsIn (puts tx (es ++ [e]))) (broadcasts (takenCommands (es ++ [e]))) := by
  have hold := h.order tx
  have hquiet : e.takenCommand = none → RoomEvent.put tx ((takenCommands es).length, e) = none →
      Stutters (broadcastsIn (puts tx (es ++ [e]))) (broadcasts (takenCommands (es ++ [e]))) := by
    intro htaken hput
    rw [puts_concat, takenCommands_concat, htaken, hput]
    simpa using hold
  cases heff with
  | taken cmd commands idle =>
    rw [puts_concat, takenCommands_concat]
    show Stutters (broadcastsIn (puts tx es ++ [])) (broadcasts (takenCommands es ++ [cmd]))
    obtain ⟨later, hlater⟩ := broadcasts_append (takenCommands es) [cmd]
    rw [List.append_nil, hlater]
    exact hold.append later
  | offered f client remaining result rooms failedClients fanout next offer =>
    by_cases hput : result = .ok () ∧ client.2 = tx
    · obtain ⟨rfl, htx⟩ := hput
      obtain ⟨before, hbefore⟩ := h.current f fanout
      have hnumber : (takenCommands es).length = before.length + 1 := by
        rw [hbefore, List.length_append, List.length_singleton]
      rw [puts_concat, takenCommands_concat]
      simp only [RoomEvent.put, RoomEvent.takenCommand, if_pos htx, Option.toList_none,
        Option.toList_some, List.append_nil]
      rw [hbefore, broadcasts_concat] at hold ⊢
      rw [← hbefore, hnumber]
      unfold broadcastsIn at hold ⊢
      rw [filterMap_concat]
      exact hold.again
    · refine hquiet rfl ?_
      rcases result with _ | _
      · rfl
      · exact if_neg fun htx => hput ⟨rfl, htx⟩
  | replied tx' message =>
    rw [puts_concat, takenCommands_concat]
    simp only [RoomEvent.put, RoomEvent.takenCommand, Option.toList_none, List.append_nil]
    unfold broadcastsIn at hold ⊢
    rw [List.filterMap_append]
    split_ifs
    · simpa using hold
    · simpa using hold
  | _ => exact hquiet rfl rfl

theorem queue_same (hqueue : s'.rooms.queues tx = s.rooms.queues tx)
    (hput : RoomEvent.put tx ((takenCommands es).length, e) = none)
    (hreceived : e.receivedBy tx = none) :
    ∃ lost, (puts tx (es ++ [e])).map Prod.snd =
        received tx (es ++ [e]) ++ ((s'.rooms.queues tx).buffer ++ lost) ∧
      ((s'.rooms.queues tx).closed = false → lost = []) := by
  rw [puts_concat, received_concat, hput, hreceived, hqueue]
  simpa using h.queue tx

/-- A message is put into the queue of `tx'`. -/
theorem queue_sent {tx tx' : Sender} {queue : ClientQueue} {message : ServerMessage}
    {n : Option Nat} (hsent : (s.rooms.queues tx').trySend message = .ok queue)
    (hqueues : s'.rooms.queues = Function.update s.rooms.queues tx' queue)
    (hput : RoomEvent.put tx ((takenCommands es).length, e) = if tx' = tx then some (n, message) else none)
    (hreceived : e.receivedBy tx = none) :
    ∃ lost, (puts tx (es ++ [e])).map Prod.snd =
        received tx (es ++ [e]) ++ ((s'.rooms.queues tx).buffer ++ lost) ∧
      ((s'.rooms.queues tx).closed = false → lost = []) := by
  by_cases htx : tx' = tx
  · subst htx
    obtain ⟨hopen, -, hbuffer, -⟩ := Mpsc.trySend_eq_ok.1 hsent
    obtain ⟨lost, hputs, hlost⟩ := h.queue tx'
    obtain rfl := hlost hopen
    refine ⟨[], ?_, fun _ => rfl⟩
    rw [puts_concat, received_concat, hput, if_pos rfl, hreceived, hqueues, Function.update_self, hbuffer,
      List.map_append, hputs]
    simp
  · rw [if_neg htx] at hput
    exact h.queue_same (hqueues ▸ Function.update_of_ne (Ne.symm htx) _ _) hput hreceived

theorem queue_step (heff : Effect s e s') (tx : Sender) :
    ∃ lost, (puts tx (es ++ [e])).map Prod.snd =
        received tx (es ++ [e]) ++ ((s'.rooms.queues tx).buffer ++ lost) ∧
      ((s'.rooms.queues tx).closed = false → lost = []) := by
  cases heff with
  | taken cmd commands idle =>
    refine h.queue_same ?_ rfl rfl
    cases cmd with
    | leave room clientId =>
      show (s.rooms.leave room clientId).queues tx = s.rooms.queues tx
      unfold Rooms.leave
      split <;> rfl
    | _ => rfl
  | offered f client remaining result rooms failedClients fanout next offer =>
    unfold Rooms.offer at offer
    split at offer
    · rename_i queue hsent
      cases offer
      exact h.queue_sent hsent rfl rfl rfl
    · cases offer
      exact h.queue_same rfl rfl rfl
    · cases offer
      exact h.queue_same rfl rfl rfl
  | finished f fanout =>
    refine h.queue_same ?_ rfl rfl
    unfold finish
    simp only
    split_ifs <;> rfl
  | replied tx' message queue sent =>
    exact h.queue_sent sent rfl rfl rfl
  | received tx' message queue recv =>
    by_cases htx : tx' = tx
    · subst htx
      obtain ⟨hbuffer, hclosed⟩ := Mpsc.recv_eq_some.1 recv
      obtain ⟨lost, hputs, hlost⟩ := h.queue tx'
      refine ⟨lost, ?_, ?_⟩
      · show _ = _ ++ ((Function.update s.rooms.queues tx' queue tx').buffer ++ lost)
        rw [puts_concat, received_concat, Function.update_self]
        simp [RoomEvent.put, RoomEvent.receivedBy, hputs, hbuffer]
      · show (Function.update s.rooms.queues tx' queue tx').closed = false → lost = []
        rw [Function.update_self, hclosed]
        exact hlost
    · exact h.queue_same (Function.update_of_ne (Ne.symm htx) _ _) rfl (if_neg htx)
  | closed tx' =>
    by_cases htx : tx' = tx
    · subst htx
      obtain ⟨lost, hputs, -⟩ := h.queue tx'
      refine ⟨(s.rooms.queues tx').buffer ++ lost, ?_, ?_⟩
      · show _ = _ ++ ((Function.update s.rooms.queues tx' _ tx').buffer ++ _)
        rw [puts_concat, received_concat, Function.update_self]
        simpa [RoomEvent.put, RoomEvent.receivedBy, Mpsc.close] using hputs
      · show (Function.update s.rooms.queues tx' _ tx').closed = false → _
        rw [Function.update_self]
        intro hopen
        cases hopen
    · exact h.queue_same (Function.update_of_ne (Ne.symm htx) _ _) rfl rfl
  | _ => exact h.queue_same rfl rfl rfl

theorem step (a : CoordinatorAction) : InOrder (es ++ [(s.step a).1]) (s.step a).2 where
  fifo := h.fifo_step (step_effect s a)
  current := h.current_step (step_effect s a)
  order := h.order_step (step_effect s a)
  queue := h.queue_step (step_effect s a)

end InOrder

theorem inOrder_run (metrics : Metrics) (as : List CoordinatorAction) :
    InOrder (run metrics as).1 (run metrics as).2 :=
  runs_invariant InOrder (inOrder_init metrics) (fun _ _ a h => h.step a) as

/-! ### Total order -/

/-- The broadcasts that the queues accept, and those that the clients receive, in the order of the
accepted commands. -/
structure TotallyOrdered (es : List RoomEvent) : Prop where
  accepted : ∀ tx, Stutters (broadcastsIn (puts tx es)) (broadcasts (acceptedCommands es))
  /-- a queue gives out what was put into it, in order -/
  received : ∀ tx, received tx es = ((puts tx es).take (received tx es).length).map Prod.snd
  agree : ∀ tx tx' x y, x ≠ y → [x, y].Sublist (delivered tx es) → ¬ [y, x].Sublist (delivered tx' es)

theorem delivered_pairwise
    (h : Stutters (broadcastsIn (puts tx es)) (broadcasts (acceptedCommands es))) :
    (delivered tx es).Pairwise fun x y => x = y ∨ x.1 < y.1 := by
  refine (h.pairwise (broadcasts_pairwise _)).sublist ?_
  exact (List.take_sublist _ _).filterMap _

/-- **Room messages are totally ordered**, in every run of the coordinator. -/
theorem run_totallyOrdered (metrics : Metrics) (as : List CoordinatorAction) :
    TotallyOrdered (run metrics as).1 := by
  have h := inOrder_run metrics as
  generalize (run metrics as).1 = es at h ⊢
  have haccepted : ∀ tx, Stutters (broadcastsIn (puts tx es)) (broadcasts (acceptedCommands es)) := by
    intro tx
    obtain ⟨later, hlater⟩ := broadcasts_append (takenCommands es) (run metrics as).2.commands.buffer
    rw [h.fifo, hlater]
    exact (h.order tx).append later
  refine ⟨haccepted, ?_, ?_⟩
  · intro tx
    obtain ⟨lost, hputs, -⟩ := h.queue tx
    rw [List.map_take, hputs, List.take_left]
  · intro tx tx' x y hne hxy hyx
    have hxy' := List.Pairwise.sublist hxy (delivered_pairwise (haccepted tx))
    have hyx' := List.Pairwise.sublist hyx (delivered_pairwise (haccepted tx'))
    simp only [List.pairwise_pair] at hxy' hyx'
    rcases hxy' with rfl | hlt
    · exact hne rfl
    · rcases hyx' with rfl | hgt
      · exact hne rfl
      · omega

end Coordinator
end MiniGraph
