import MiniGraph.EndToEnd
import MiniGraph.Sequence

/-!
# How soon a message is on the socket

A broadcast that comes after a client's join is not only offered to it when its turn comes: after as many
turns of the coordinator as there are commands in the channel, and then as many messages sent over the socket
as there are in the client's queue, it is on the socket, whatever else happens in the meantime, unless the
queue was full or the connection is gone (`messages_prompt`). Neither number exceeds 256, and nothing can keep
these steps from being taken.
-/

namespace MiniGraph
open Lib

namespace World

variable {metrics : Metrics} {w w' v v' : World} {as rest : List WorldAction} {c : ClientId} {d : DocumentId}
  {message : ServerMessage}

/-! ### Turns -/

/-- The step that processes a command. -/
structure TurnOf (metrics : Metrics) (as : List WorldAction) (pre : List RoomCommand) (cmd : RoomCommand)
    (before after : List WorldAction) (v v' : World) : Prop where
  split : as = before ++ .coordinate :: after
  run : Run metrics before v
  step : v.step .coordinate = some v'
  head : v.commands.buffer = cmd :: v'.commands.buffer
  processed : processedCommands (init metrics) before = pre

theorem TurnOf.append {pre : List RoomCommand} {cmd : RoomCommand} {before after : List WorldAction}
    (h : TurnOf metrics as pre cmd before after v v') (more : List WorldAction) :
    TurnOf metrics (as ++ more) pre cmd before (after ++ more) v v' where
  split := by rw [h.split, List.append_assoc, List.cons_append]
  run := h.run
  step := h.step
  head := h.head
  processed := h.processed

theorem turnOf_processed (h : Run metrics as w) {pre post : List RoomCommand} {cmd : RoomCommand}
    (hprocessed : processedCommands (init metrics) as = pre ++ cmd :: post) :
    ∃ before after v v', TurnOf metrics as pre cmd before after v v' := by
  revert pre cmd post hprocessed
  refine exec_history (fun as _ => ∀ {pre post : List RoomCommand} {cmd : RoomCommand},
    processedCommands (init metrics) as = pre ++ cmd :: post →
      ∃ before after v v', TurnOf metrics as pre cmd before after v v') h ?_ ?_
  · intro pre post cmd hprocessed
    exact absurd hprocessed (by simp [processedCommands, processed])
  · intro as w₁ a w₂ hrun ih hstep pre post cmd hprocessed
    have hmore : ∀ {post'}, processedCommands (init metrics) as = pre ++ cmd :: post' →
        ∃ before after v v', TurnOf metrics (as ++ [a]) pre cmd before after v v' := by
      intro post' hprocessed'
      obtain ⟨before, after, v, v', hturn⟩ := ih hprocessed'
      exact ⟨before, after ++ [a], v, v', hturn.append [a]⟩
    by_cases haction : a = .coordinate
    · subst haction
      cases step_effect hstep with
      | session c' _ s s' cmds _ client => cases client
      | coordinate cmd' _ buffer closed rooms =>
        rw [processed_coordinate hrun hstep buffer] at hprocessed
        rcases List.eq_nil_or_concat post with rfl | ⟨post', x, rfl⟩
        · obtain ⟨hpre, hcmd⟩ := List.append_inj' hprocessed rfl
          obtain rfl := (List.cons.inj hcmd).1
          exact ⟨as, [], w₁, w₂, rfl, hrun, hstep, buffer, hpre⟩
        · refine @hmore post' ?_
          rw [List.concat_eq_append, ← List.cons_append, ← List.append_assoc] at hprocessed
          exact (List.append_inj' hprocessed rfl).1
    · rw [processed_other hrun hstep haction] at hprocessed
      exact hmore hprocessed

theorem turnOf_accepted (h : Run metrics as w) (hturns : exec step w rest = some w')
    (hcount : w.commands.buffer.length ≤ rest.count .coordinate) {pre post : List RoomCommand}
    {cmd : RoomCommand} (haccepted : accepted (init metrics) as = pre ++ cmd :: post) :
    ∃ before after v v', TurnOf metrics (as ++ rest) pre cmd before after v v' := by
  obtain ⟨more, hmore⟩ := processed_of_turns h hturns hcount
  have hrun : Run metrics (as ++ rest) w' := exec_append_eq_some.2 ⟨w, h, hturns⟩
  refine @turnOf_processed _ _ _ hrun pre (post ++ more) cmd ?_
  rw [← hmore, haccepted, List.append_assoc, List.cons_append]

theorem turns_possible (w : World) :
    ∃ w', exec step w (List.replicate w.commands.buffer.length .coordinate) = some w' := by
  generalize hn : w.commands.buffer.length = n
  induction n generalizing w with
  | zero => exact ⟨w, rfl⟩
  | succ n ih =>
    obtain ⟨cmd, rest, hbuffer⟩ := List.exists_cons_of_length_eq_add_one hn
    obtain ⟨commands, hrecv, hrest⟩ := Mpsc.exists_recv hbuffer
    have hlength : commands.buffer.length = n := by
      rw [hbuffer] at hn
      rw [hrest]
      exact Nat.succ.inj hn
    obtain ⟨w', hw'⟩ := ih { w with commands, rooms := w.rooms.process cmd } hlength
    refine ⟨w', exec_cons_eq_some.2 ⟨_, ?_, hw'⟩⟩
    simp only [step, hrecv]

/-! ### The socket -/

theorem length_sentTo (h : Run metrics as w) (c : ClientId) :
    (sentTo c (init metrics) as).length = as.count (.drain c) := by
  refine exec_history (fun as _ => (sentTo c (init metrics) as).length = as.count (.drain c)) h rfl ?_
  intro before w₁ a w₂ hbefore ih hstep
  rw [sentTo_concat hbefore hstep, List.length_append, List.count_append, ih]
  congr 1
  by_cases ha : a = .drain c
  · subst ha
    obtain ⟨message, queue, hrecv, -⟩ := drain_queues hstep
    rw [sentStep, if_pos rfl, (Mpsc.recv_eq_some.1 hrecv).1]
    simp
  · rw [sentStep_of_ne ha, List.count_singleton, if_neg (by simpa using ha)]
    rfl

theorem drains_possible (h : Run metrics as w) (c : ClientId) :
    ∃ w', exec step w (List.replicate (w.rooms.queues ⟨c⟩).buffer.length (.drain c)) = some w' := by
  generalize hn : (w.rooms.queues ⟨c⟩).buffer.length = n
  induction n generalizing w as with
  | zero => exact ⟨w, rfl⟩
  | succ n ih =>
    obtain ⟨message, rest, hbuffer⟩ := List.exists_cons_of_length_eq_add_one hn
    obtain ⟨queue, hrecv, hrest⟩ := Mpsc.exists_recv hbuffer
    obtain ⟨s, hs⟩ : ∃ s, w.sessions c = some s := by
      refine Option.ne_none_iff_exists'.1 fun hnone => ?_
      rw [(queue_of_unborn h hnone).1] at hbuffer
      cases hbuffer
    have htx : s.tx = ⟨c⟩ := by rw [s.tx_eq, w.clientId_eq c s hs]
    have hstep : w.step (.drain c) = some (w.setQueue ⟨c⟩ queue) := by
      simp only [step, clientOf, Option.bind_some, hs, sessionStep, htx, hrecv]
    have hlength : ((w.setQueue ⟨c⟩ queue).rooms.queues ⟨c⟩).buffer.length = n := by
      rw [hbuffer] at hn
      simp only [setQueue, Function.update_self, hrest]
      exact Nat.succ.inj hn
    obtain ⟨w', hw'⟩ := ih (exec_concat_eq_some.2 ⟨w, h, hstep⟩) hlength
    exact ⟨w', exec_cons_eq_some.2 ⟨_, hstep, hw'⟩⟩

/-- What is in an open queue is sent within as many steps. -/
theorem sent_of_drains (h : Run metrics as w) (hrest : exec step w rest = some w')
    (hopen : w.rooms.closed ⟨c⟩ = false)
    (hdrains : (w.rooms.queues ⟨c⟩).buffer.length ≤ rest.count (.drain c)) :
    (putInto c (init metrics) as).map Prod.snd <+: sentTo c (init metrics) (as ++ rest) := by
  have hrun : Run metrics (as ++ rest) w' := exec_append_eq_some.2 ⟨w, h, hrest⟩
  obtain ⟨lost, hfifo, hlost⟩ := fifo h c
  obtain ⟨lost', hfifo', -⟩ := fifo hrun c
  rw [hlost hopen, List.append_nil] at hfifo
  have hmore : (putInto c (init metrics) as).map Prod.snd <+:
      (putInto c (init metrics) (as ++ rest)).map Prod.snd := by
    rw [putInto, putInto, log_append h, List.map_append]
    exact List.prefix_append _ _
  refine List.prefix_of_prefix_length_le hmore (hfifo' ▸ List.prefix_append _ _) ?_
  rw [hfifo, List.length_append, length_sentTo h, length_sentTo hrun, List.count_append]
  exact Nat.add_le_add_left hdrains _

theorem open_of_run (h : Run metrics as w) (hrest : exec step w rest = some w')
    (hopen : w'.rooms.closed ⟨c⟩ = false) : w.rooms.closed ⟨c⟩ = false := by
  induction rest generalizing as w with
  | nil =>
    obtain rfl := Option.some.inj hrest
    exact hopen
  | cons a rest ih =>
    obtain ⟨w₁, hstep, hrest'⟩ := exec_cons_eq_some.1 hrest
    exact open_before h hstep (ih (exec_concat_eq_some.2 ⟨w, h, hstep⟩) hrest')

theorem processed_open (h : Run metrics as w) (hrest : exec step w rest = some w')
    (hopen : w'.rooms.closed ⟨c⟩ = false) : ∀ x ∈ processed c w rest, x.2 = false := by
  induction rest generalizing as w with
  | nil => nofun
  | cons a rest ih =>
    obtain ⟨w₁, hstep, hrest'⟩ := exec_cons_eq_some.1 hrest
    have hopen' : w.rooms.closed ⟨c⟩ = false := open_of_run h hrest hopen
    intro x hx
    rw [processed_cons hstep] at hx
    rcases List.mem_append.1 hx with hx | hx
    · split_ifs at hx
      · obtain ⟨cmd, -, rfl⟩ := List.mem_map.1 hx
        exact hopen'
      · cases hx
    · exact ih (exec_concat_eq_some.2 ⟨w, h, hstep⟩) hrest' x hx

theorem processed_commands (h : Run metrics as w) (c : ClientId) :
    (processed c (init metrics) as).map Prod.fst = processedCommands (init metrics) as :=
  List.append_cancel_right ((accepted_eq c h).symm.trans (accepted_eq "" h))

/-- A client whose join has been processed, with no leave since, is listed as long as its queue is open. -/
theorem listed_of_open (h : Run metrics as w) {pre mid : List RoomCommand} {tx : Sender} {k : AckId}
    (hprocessed : processedCommands (init metrics) as = pre ++ .join d c tx k :: mid)
    (hleave : .leave d c ∉ mid) (hopen : w.rooms.closed ⟨c⟩ = false) : w.rooms.lists d c = true := by
  rw [← processed_commands h c] at hprocessed
  obtain ⟨before, later, hsplit, -, hlater⟩ := List.map_eq_append_iff.1 hprocessed
  obtain ⟨⟨cmd, closed⟩, later, rfl, rfl, rfl⟩ := List.map_eq_cons_iff.1 hlater
  have hinit : Run metrics [] (init metrics) := rfl
  have hfound := processed_open hinit h hopen
  rw [lists_processed (consistent_init metrics) h c d, hsplit, verdicts, List.map_append, List.map_cons,
    written_append, RoomCommand.verdict_join_self, written_cons_some]
  refine written_of_same fun op hmem => ?_
  obtain ⟨⟨cmd, closed⟩, hx, rfl⟩ := List.mem_map.1 hmem
  obtain rfl : closed = false := hfound _ (hsplit ▸ List.mem_append_right _ (List.mem_cons_of_mem _ hx))
  have hne : cmd ≠ .leave d c := fun heq => hleave (heq ▸ List.mem_map_of_mem hx)
  cases cmd with
  | join d' c' tx' k' =>
    simp only [RoomCommand.verdict]
    split_ifs <;> rfl
  | leave d' c' =>
    simp only [RoomCommand.verdict]
    split_ifs with hself
    · obtain ⟨rfl, rfl⟩ := hself
      exact absurd rfl hne
    · rfl
  | broadcast d' message => simp [RoomCommand.verdict]

namespace TurnOf
variable {pre mid : List RoomCommand} {tx : Sender} {k : AckId} {cmd : RoomCommand}
  {before after : List WorldAction}

theorem isOpen (h : TurnOf metrics as pre cmd before after v v') (hrun : Run metrics as w)
    (hopen : w.rooms.closed ⟨c⟩ = false) : v.rooms.closed ⟨c⟩ = false := by
  rw [h.split] at hrun
  obtain ⟨v'', hstep, -, hrest⟩ := exec_split hrun h.run
  exact open_of_run h.run (exec_cons_eq_some.2 ⟨v'', hstep, hrest⟩) hopen

theorem putInto_upTo (h : TurnOf metrics as pre cmd before after v v') (c : ClientId) :
    putInto c (init metrics) (before ++ [.coordinate]) <+: putInto c (init metrics) as := by
  have hrun : Run metrics (before ++ [.coordinate]) v' := exec_concat_eq_some.2 ⟨v, h.run, h.step⟩
  have hsplit : as = (before ++ [.coordinate]) ++ after := by
    rw [h.split, List.append_assoc]
    rfl
  rw [hsplit, putInto, putInto, log_append hrun]
  exact List.prefix_append _ _

end TurnOf

/-! ### Arrival -/

/-- What becomes of the copy for `c` of a broadcast, the command after `pre`, in a run through `v`. -/
inductive Arrival (metrics : Metrics) (as : List WorldAction) (v : World) (c : ClientId) (d : DocumentId)
    (message : ServerMessage) (pre : List RoomCommand) : Prop
  /-- it is put into the queue, and everything up to it is sent -/
  | sent (before after : List WorldAction) (u u' : World)
      (turn : TurnOf metrics as pre (.broadcast d message) before after u u')
      (put : (.coordinate, message) ∈ putStep c u .coordinate u')
      (sent : (putInto c (init metrics) (before ++ [.coordinate])).map Prod.snd <+:
        sentTo c (init metrics) as)
  | dropped (before after : List WorldAction) (u u' : World)
      (turn : TurnOf metrics as pre (.broadcast d message) before after u u')
      (full : (c, .error .full) ∈ offersStep u .coordinate u')
  | gone (closed : v.rooms.closed ⟨c⟩ = true)

theorem put_or_full (h : Run metrics as w) (hstep : w.step .coordinate = some w')
    (hbuffer : w.commands.buffer = .broadcast d message :: w'.commands.buffer)
    (hl : w.rooms.lists d c = true) (hopen : w.rooms.closed ⟨c⟩ = false) :
    (.coordinate, message) ∈ putStep c w .coordinate w' ∨
      (c, .error .full) ∈ offersStep w .coordinate w' := by
  obtain ⟨result, hmem, hclosed⟩ := offer_result h hbuffer hl
  rcases result with err | _
  · cases err with
    | full => exact .inr hmem
    | closed =>
      rw [hclosed.1 rfl] at hopen
      cases hopen
  · left
    have hpos : 0 < (putStep c w .coordinate w').countP fun x => x.1 = .coordinate := by
      rw [copies_step (consistent_run h) hstep c]
      exact List.countP_pos_iff.2 ⟨_, hmem, by simp⟩
    obtain ⟨x, hx, hcoordinate⟩ := List.countP_pos_iff.1 hpos
    obtain ⟨room, hroom⟩ := put_head h hstep hbuffer hx
    obtain ⟨a, message'⟩ := x
    obtain rfl : a = .coordinate := of_decide_eq_true hcoordinate
    cases hroom
    exact hx

/-- A broadcast that has been accepted after a join arrives soon. -/
structure Prompt (metrics : Metrics) (as : List WorldAction) (w : World) (c : ClientId) (d : DocumentId)
    (message : ServerMessage) (pre : List RoomCommand) : Prop where
  arrives : ∀ turns v drains w', exec step w turns = some v → exec step v drains = some w' →
    w.commands.buffer.length ≤ turns.count .coordinate →
      (v.rooms.queues ⟨c⟩).buffer.length ≤ drains.count (.drain c) →
        Arrival metrics (as ++ turns ++ drains) v c d message pre
  /-- nothing but these steps is necessary, and there are not many of them -/
  possible : ∃ n v m w', n ≤ roomsCoordinatorChannelCapacity ∧ m ≤ clientChannelCapacity ∧
    w.commands.buffer.length ≤ n ∧ (v.rooms.queues ⟨c⟩).buffer.length ≤ m ∧
      exec step w (.replicate n .coordinate) = some v ∧ exec step v (.replicate m (.drain c)) = some w'

theorem prompt_of_accepted (h : Run metrics as w) {pre mid post : List RoomCommand} {tx : Sender} {k : AckId}
    (haccepted : accepted (init metrics) as = pre ++ .join d c tx k :: (mid ++ .broadcast d message :: post))
    (hleave : .leave d c ∉ mid) :
    Prompt metrics as w c d message (pre ++ .join d c tx k :: mid) := by
  refine ⟨fun turns v drains w' hturns hdrains hcount hcount' => ?_, ?_⟩
  · cases hopen : v.rooms.closed ⟨c⟩ with
    | true => exact .gone hopen
    | false =>
      have hrun : Run metrics (as ++ turns) v := exec_append_eq_some.2 ⟨w, h, hturns⟩
      obtain ⟨before, after, u, u', hturn⟩ := turnOf_accepted h hturns hcount
        (haccepted.trans (List.append_assoc _ (_ :: mid) _).symm)
      have hopen' := hturn.isOpen hrun hopen
      have hlisted := listed_of_open hturn.run hturn.processed hleave hopen'
      rcases put_or_full hturn.run hturn.step hturn.head hlisted hopen' with hput | hfull
      · refine .sent before _ u u' (hturn.append drains) hput ?_
        have hsent := sent_of_drains hrun hdrains hopen hcount'
        exact ((hturn.putInto_upTo c).map Prod.snd).trans hsent
      · exact .dropped before _ u u' (hturn.append drains) hfull
  · obtain ⟨v, hv⟩ := turns_possible w
    have hrun : Run metrics (as ++ _) v := exec_append_eq_some.2 ⟨w, h, hv⟩
    obtain ⟨w', hw'⟩ := drains_possible hrun c
    exact ⟨_, v, _, w', w.commands.length_le, (v.rooms.queues ⟨c⟩).length_le, Nat.le_refl _, Nat.le_refl _,
      hv, hw'⟩

end World

namespace Server
variable {s : Server} {as : List ServerAction} {sqlClient : Bool} {metrics : Metrics} {documentId : DocumentId}
  {hints : List QueryHint} {timestamp : UInt64} {answer : Except RoomCommandError Unit}

theorem accepted_of_call (h : Run sqlClient metrics as s)
    (hmem : .sendInvalidation documentId hints timestamp answer ∈ trace (init sqlClient metrics) as) :
    answer = .error .channelFull ∨ answer = .ok () ∧
      .broadcast documentId (RoomsInvalidationSink.invalidation hints timestamp) ∈
        World.accepted (World.init metrics) (worldActions (init sqlClient metrics) as) := by
  obtain ⟨before, a, after, s₁, s₂, rfl, h₁, hstep, hact⟩ := mem_log hmem
  obtain ⟨rfl, -, hsink, hcall⟩ := call_of_mem hstep hact
  cases hcall with
  | accepted hbuffer =>
    have hrun : exec World.step s₁.world [.sinkBroadcast documentId
        (RoomsInvalidationSink.invalidation hints timestamp)] = some s₂.world := hsink ▸ world_step hstep
    obtain ⟨w, hw, heq⟩ := exec_cons_eq_some.1 hrun
    obtain rfl := Option.some.inj heq
    refine .inr ⟨rfl, ?_⟩
    rw [worldActions_append h₁, worldActions_cons hstep, hsink, World.accepted_append (run_worldActions h₁),
      List.singleton_append, World.accepted_puts hw nofun hbuffer]
    exact List.mem_append_right _ List.mem_cons_self
  | refused err hsent =>
    have hopen := (World.consistent_run (run_worldActions h₁)).channel
    obtain ⟨rfl, -⟩ := full_of_refused hopen hsent
    exact .inl rfl

/-- **What has been accepted is soon on the socket**, in every run of the server, for the clients that have
joined before; and what the reader hands over is accepted, unless the channel is full. -/
theorem messages_prompt (sqlClient : Bool) (metrics : Metrics) (as : List ServerAction) (s : Server)
    (h : Run sqlClient metrics as s) :
    (∀ pre d c tx k mid message post,
      World.accepted (World.init metrics) (worldActions (init sqlClient metrics) as) =
        pre ++ .join d c tx k :: (mid ++ .broadcast d message :: post) → .leave d c ∉ mid →
          World.Prompt metrics (worldActions (init sqlClient metrics) as) s.world c d message
            (pre ++ .join d c tx k :: mid)) ∧
    ∀ documentId hints timestamp answer,
      .sendInvalidation documentId hints timestamp answer ∈ trace (init sqlClient metrics) as →
        answer = .error .channelFull ∨ answer = .ok () ∧
          .broadcast documentId (RoomsInvalidationSink.invalidation hints timestamp) ∈
            World.accepted (World.init metrics) (worldActions (init sqlClient metrics) as) := by
  refine ⟨fun pre d c tx k mid message post haccepted hleave => ?_,
    fun documentId hints timestamp answer hmem => accepted_of_call h hmem⟩
  exact World.prompt_of_accepted (run_worldActions h) haccepted hleave

/-- A client joins room `r`, and once it has been told so it sends a message. -/
def joinAndSpeak : List WorldAction :=
  [.connect "a", .receive "a" (.text (.ok (.join "r"))), .handle "a" 0, .coordinate,
    .resume "a" .acked, .record "a", .receive "a" (.text (.ok (.sendMessage "hi"))), .handle "a" 0]

theorem messages_prompt_joinAndSpeak : ∃ s, Run true {} (joinAndSpeak.map .world) s ∧
    World.Prompt {} joinAndSpeak s.world "a" "r" (.newMessage "a" "hi" 0)
      [.join "r" "a" ⟨"a"⟩ 0] := by
  obtain ⟨s, hs⟩ : ∃ s, Run true {} (joinAndSpeak.map .world) s :=
    Option.isSome_iff_exists.1 (by decide +kernel)
  have hactions : worldActions (init true {}) (joinAndSpeak.map .world) = joinAndSpeak := by
    decide +kernel
  have haccepted : World.accepted (World.init {}) joinAndSpeak =
      [] ++ .join "r" "a" ⟨"a"⟩ 0 :: ([] ++ .broadcast "r" (.newMessage "a" "hi" 0) :: []) := by
    decide +kernel
  have h := (messages_prompt true {} _ s hs).1 [] "r" "a" ⟨"a"⟩ 0 [] (.newMessage "a" "hi" 0) []
  rw [hactions] at h
  exact ⟨s, hs, h haccepted nofun⟩

end Server
end MiniGraph
