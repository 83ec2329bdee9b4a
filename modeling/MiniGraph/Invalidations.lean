import MiniGraph.Runtime

/-!
# What becomes of an invalidation

The reader hands over the hints of a commit before it acknowledges it (`exists_call`). The channel may refuse a
call, and this is counted. What it accepts has a place among the accepted commands: there the coordinator takes
it, and offers it to every client whose join was accepted before and who is still in the room
(`invalidations_reach`).
-/

namespace MiniGraph
open Lib

/-! ### Where the calls of a commit are -/

/-- How many commits have been acknowledged. -/
def acks (actions : List Action) : Nat := (actions.filterMap Action.acked).length

theorem acks_append (actions actions' : List Action) :
    acks (actions ++ actions') = acks actions + acks actions' := by
  unfold acks
  rw [List.filterMap_append, List.length_append]

theorem acks_of_calls {sends : List Action} (h : ∀ action ∈ sends, action.call.isSome) : acks sends = 0 := by
  unfold acks
  rw [calls_acked h]
  rfl

theorem acks_parts {cs : List (Stream × UInt64)} {parts : List (List Action)}
    (h : List.Forall₂ CommitPart cs parts) : acks parts.flatten = cs.length := by
  unfold acks
  rw [parts_acked h, List.length_map]

theorem exists_call {cs : List (Stream × UInt64)} {parts : List (List Action)} {stop trace : List Action}
    (h : List.Forall₂ CommitPart cs parts) (htrace : trace <+: parts.flatten ++ stop) {k : Nat}
    (hk : k < acks trace) {c : Stream × UInt64} (hc : cs[k]? = some c) {documentId : DocumentId}
    {hint : QueryHint} (hcommitted : Server.Committed c.1 documentId hint) :
    ∃ pre hints timestamp answer post,
      trace = pre ++ .sendInvalidation documentId hints timestamp answer :: post ∧
        acks pre = k ∧ hint ∈ hints := by
  obtain ⟨parts₁, part, parts₂, rfl, hparts₁, sends, rfl, hcalls, hdelivers⟩ := forall₂_split h hc
  obtain ⟨hints, hcall, hhint⟩ := Server.call_of_committed hdelivers hcommitted
  obtain ⟨timestamp, answer, haction⟩ := Server.action_of_call hcall
  obtain ⟨sends₁, sends₂, rfl⟩ := List.append_of_mem haction
  have hacks : acks (parts₁.flatten ++ sends₁) = k := by
    have hlength : (cs.take k).length = k :=
      List.length_take_of_le (List.getElem?_eq_some_iff.1 hc).1.le
    rw [acks_append, acks_parts hparts₁, hlength,
      acks_of_calls fun action hmem => hcalls action (List.mem_append_left _ hmem), Nat.add_zero]
  have hsplit : trace <+: (parts₁.flatten ++ sends₁) ++ .sendInvalidation documentId hints timestamp answer ::
      (sends₂ ++ [.setWalLsn c.2, .updateAppliedLsn c.2] ++ (parts₂.flatten ++ stop)) := by
    simpa using htrace
  rcases prefix_append_cons hsplit with hshort | ⟨post, rfl⟩
  · -- the trace goes on to the acknowledgement of this commit
    obtain ⟨later, hlater⟩ := hshort
    rw [← hlater, acks_append] at hacks
    omega
  · exact ⟨_, hints, timestamp, answer, post, rfl, hacks, hhint⟩

namespace Runtime
variable {r r' : Runtime} {as : List ServerAction} {was : List WorldAction} {t : Tasks} {sqlClient : Bool}
  {metrics : Metrics} {documentId : DocumentId} {hints : List QueryHint} {timestamp : UInt64}
  {answer : Except RoomCommandError Unit} {message : ServerMessage}

/-! ### The answers of the channel -/

/-- The broadcast is the command at `place` among those that the channel has accepted. -/
structure Forwarded (metrics : Metrics) (was : List WorldAction) (t : Tasks) (place : Nat)
    (documentId : DocumentId) (message : ServerMessage) : Prop where
  accepted : (Tasks.accepted (Tasks.init metrics) was)[place]? = some (.broadcast documentId message)
  /-- it is in the channel until the coordinator has taken those before it, -/
  waiting : (Tasks.history metrics was).length ≤ place →
    t.world.commands.buffer[place - (Tasks.history metrics was).length]? = some (.broadcast documentId message)
  /-- then the coordinator takes it, -/
  taken : ∀ before x after, Tasks.history metrics was = before ++ x :: after → before.length = place →
    x.cmd = .broadcast documentId message
  /-- and offers it to the clients whose join is among the commands before it, and that have neither left nor
  been found closed since -/
  offered : ∀ pre clientId tx k mid,
    (Tasks.accepted (Tasks.init metrics) was).take place = pre ++ .join documentId clientId tx k :: mid →
    .leave documentId clientId ∉ mid → ∀ before x after, Tasks.history metrics was = before ++ x :: after →
      before.length = place → (∀ y ∈ before.drop (pre.length + 1), y.findsClosed documentId clientId = false) →
        x.Offered documentId clientId tx message

/-- What becomes of an invalidation that the reader hands over when it has done `earlier`. -/
inductive Fate (sqlClient : Bool) (metrics : Metrics) (as : List ServerAction) (r : Runtime)
    (earlier : List Action) (documentId : DocumentId) (message : ServerMessage) :
    Except RoomCommandError Unit → Prop
  | forwarded (before after : List ServerAction) (r₁ r₂ : Runtime) (split : as = before ++ .deliver :: after)
      (run : Run sqlClient metrics before r₁) (step : r₁.step .deliver = some r₂)
      (done : trace (init sqlClient metrics) before = earlier)
      (put : r₂.server.world.commands.buffer =
        r₁.server.world.commands.buffer ++ [.broadcast documentId message])
      (forwarded : Forwarded metrics (taskActions (init sqlClient metrics) as) r.tasks
        (Tasks.accepted (Tasks.init metrics) (taskActions (init sqlClient metrics) before)).length
        documentId message) :
      Fate sqlClient metrics as r earlier documentId message (.ok ())
  | refused (before after : List ServerAction) (r₁ : Runtime) (split : as = before ++ .deliver :: after)
      (run : Run sqlClient metrics before r₁) (done : trace (init sqlClient metrics) before = earlier)
      (full : r₁.server.world.commands.buffer.length = roomsCoordinatorChannelCapacity) :
      Fate sqlClient metrics as r earlier documentId message (.error .channelFull)

theorem forwarded_of_accepted (h : Tasks.Run metrics was t) {pre post : List RoomCommand}
    (haccepted : Tasks.accepted (Tasks.init metrics) was = pre ++ .broadcast documentId message :: post) :
    Forwarded metrics was t pre.length documentId message := by
  have hrecorded := Tasks.recorded_run h
  have hplace : (Tasks.accepted (Tasks.init metrics) was)[pre.length]? =
      some (.broadcast documentId message) := by
    rw [haccepted, List.getElem?_append_right (Nat.le_refl _), Nat.sub_self]
    rfl
  refine ⟨hplace, ?_, ?_, ?_⟩
  · intro hle
    rw [hrecorded.fifo, List.getElem?_append_right (by rwa [List.length_map]), List.length_map] at hplace
    exact hplace
  · intro before x after hhistory hlength
    rw [hrecorded.fifo, hhistory, ← hlength] at hplace
    simpa using hplace
  · intro pre' clientId tx k mid hpre hleave before x after hhistory hlength hclosed
    rw [haccepted, List.take_left] at hpre
    rw [hpre, List.append_assoc, List.cons_append] at haccepted
    refine hrecorded.offered haccepted hhistory ?_ hleave hclosed
    rw [hlength, hpre, List.length_append, List.length_cons]
    omega

theorem accepted_deliver {before after : List ServerAction} {r₁ r₂ : Runtime}
    (h : Run sqlClient metrics before r₁) (hstep : r₁.step .deliver = some r₂)
    (hsink : taskStep r₁ .deliver r₂ = [.sinkBroadcast documentId message])
    (hbuffer : r₂.server.world.commands.buffer =
      r₁.server.world.commands.buffer ++ [.broadcast documentId message]) :
    Tasks.accepted (Tasks.init metrics) (taskActions (init sqlClient metrics) (before ++ .deliver :: after)) =
      Tasks.accepted (Tasks.init metrics) (taskActions (init sqlClient metrics) before) ++
        .broadcast documentId message :: Tasks.accepted r₂.tasks (taskActions r₂ after) := by
  have htask := task_step hstep
  rw [hsink] at htask
  have hone : Tasks.accepted r₁.tasks [.sinkBroadcast documentId message] =
      [.broadcast documentId message] := by
    obtain ⟨t, ht, heq⟩ := exec_cons_eq_some.1 htask
    obtain rfl := Option.some.inj heq
    rw [Tasks.accepted, log_cons ht, Tasks.acceptedStep_eq WorldAction.noConfusion hbuffer]
    exact List.append_nil _
  rw [taskActions_append h, taskActions_cons hstep, Tasks.accepted_append (run_taskActions h), hsink,
    Tasks.accepted_append htask, hone]
  rfl

/-- **What becomes of a call**, in every run. -/
theorem fate_of_call (h : Run sqlClient metrics as r) {earlier later : List Action}
    (htrace : trace (init sqlClient metrics) as =
      earlier ++ .sendInvalidation documentId hints timestamp answer :: later) :
    Fate sqlClient metrics as r earlier documentId (RoomsInvalidationSink.invalidation hints timestamp)
      answer := by
  obtain ⟨before, a, after, r₁, r₂, cs, cs', rfl, h₁, hstep, hact, rfl⟩ := log_split htrace
  rcases step_cases hstep with ⟨rfl, rfl⟩ | ⟨-, hserver, -⟩
  · rw [actStep_coordinate] at hact
    simp at hact
  · have hmem : .sendInvalidation documentId hints timestamp answer ∈
        Server.actStep r₁.server a r₂.server := by
      show _ ∈ actStep r₁ a r₂
      rw [hact]
      simp
    obtain ⟨rfl, hone, hsink, hcall⟩ := Server.call_of_mem hserver hmem
    obtain rfl : cs = [] := by
      have hlength := congrArg List.length (hone.symm.trans hact)
      simp only [List.length_append, List.length_cons, List.length_nil] at hlength
      exact List.eq_nil_of_length_eq_zero (by omega)
    rw [List.append_nil]
    cases hcall with
    | accepted hbuffer =>
      exact .forwarded before after r₁ r₂ rfl h₁ hstep rfl hbuffer
        (forwarded_of_accepted (run_taskActions h) (accepted_deliver h₁ hstep hsink hbuffer))
    | refused err hsent =>
      obtain ⟨rfl, hfull⟩ := Server.full_of_refused (Tasks.channel_open (run_taskActions h₁)) hsent
      exact .refused before after r₁ rfl h₁ rfl hfull

/-! ### Nothing is lost silently -/

/-- When `lsn` is acknowledged, every invalidation of a transaction up to it has met its fate. -/
structure Reached (sqlClient : Bool) (metrics : Metrics) (as : List ServerAction) (r : Runtime)
    (pre : List Action) (lsn : UInt64) : Prop where
  /-- a hint of the `k`-th commit has been handed over when `k` commits had been acknowledged -/
  fates : ∃ wakes done before rest, Server.wakesOf as = wakes.map Server.bare ∧
    Server.commits wakes = done ++ (before, lsn) :: rest ∧ pre.filterMap Action.acked = done.map Prod.snd ∧
      ∀ k commit, (done ++ [(before, lsn)])[k]? = some commit → ∀ documentId hint,
        Server.Committed commit.1 documentId hint → ∃ earlier hints timestamp answer later,
          pre = earlier ++ .sendInvalidation documentId hints timestamp answer :: later ∧ acks earlier = k ∧
            hint ∈ hints ∧ Fate sqlClient metrics as r earlier documentId
              (RoomsInvalidationSink.invalidation hints timestamp) answer

/-- **No invalidation is lost silently**: in every run, when the reader acknowledges a commit, each hint of each
transaction up to it has been handed over; either the channel was full, and this is counted, or it is in the
channel, and when the coordinator comes to it, it is offered to every client that has joined before and is still
in the room. -/
theorem invalidations_reach (sqlClient : Bool) (metrics : Metrics) (as : List ServerAction) (r : Runtime)
    (h : Run sqlClient metrics as r) :
    r.server.reader.metrics.walEventsDroppedTotal = metrics.walEventsDroppedTotal +
        UInt64.ofNat ((trace (init sqlClient metrics) as).countP Action.refused) ∧
      ∀ pre lsn post, trace (init sqlClient metrics) as = pre ++ .updateAppliedLsn lsn :: post →
        Reached sqlClient metrics as r pre lsn := by
  refine ⟨refused_run h, fun pre lsn post htrace => ?_⟩
  obtain ⟨wakes, hwakes, ⟨later, hprefix⟩, -⟩ := (refines_run h).reader
  obtain ⟨parts, stop, hreader, hstop, hparts⟩ := parts_run (WalReader.tracks_start sqlClient metrics) wakes
  have hsplit : parts.flatten ++ stop = pre ++ .updateAppliedLsn lsn :: (post ++ later) := by
    rw [← hreader, ← hprefix, htrace]
    simp
  obtain ⟨done, before, rest, parts', sends, hcommits, hdone, hpre, hcalls, -⟩ :=
    before_ack hparts hstop hsplit
  have hacked : pre.filterMap Action.acked = done.map Prod.snd := by
    rw [hpre, List.filterMap_append, List.filterMap_append, parts_acked hdone, calls_acked hcalls]
    exact List.append_nil _
  refine ⟨wakes, done, before, rest, hwakes, hcommits, hacked, ?_⟩
  intro k commit hcommit documentId hint hcommitted
  have hk : k < acks (pre ++ [.updateAppliedLsn lsn]) := by
    have hlength := (List.getElem?_eq_some_iff.1 hcommit).1
    rw [List.length_append, List.length_singleton] at hlength
    have hone : acks [.updateAppliedLsn lsn] = 1 := rfl
    rw [acks_append, hone]
    unfold acks
    rwa [hacked, List.length_map]
  have hc : (commitsOf [] (eventsOf (handled ∅ wakes)))[k]? = some commit := by
    have hall : commitsOf [] (eventsOf (handled ∅ wakes)) = done ++ [(before, lsn)] ++ rest := by
      rw [List.append_assoc]
      exact hcommits
    rw [hall, List.getElem?_append_left (List.getElem?_eq_some_iff.1 hcommit).1]
    exact hcommit
  have hprefix' : pre ++ [.updateAppliedLsn lsn] <+: parts.flatten ++ stop := ⟨post ++ later, by
    rw [hsplit]
    simp⟩
  obtain ⟨earlier, hints, timestamp, answer, between, htrace', hearlier, hhint⟩ :=
    exists_call hparts hprefix' hk hc hcommitted
  -- the call is not the acknowledgement
  rcases List.eq_nil_or_concat between with rfl | ⟨between, action, rfl⟩
  · have hlast := (List.append_inj' htrace' rfl).2
    simp at hlast
  · rw [List.concat_eq_append, ← List.cons_append, ← List.append_assoc] at htrace'
    obtain ⟨rfl, -⟩ := List.append_inj' htrace' rfl
    refine ⟨earlier, hints, timestamp, answer, between, rfl, hearlier, hhint, ?_⟩
    have hcall : trace (init sqlClient metrics) as = earlier ++
        .sendInvalidation documentId hints timestamp answer :: (between ++ .updateAppliedLsn lsn :: post) := by
      rw [htrace]
      simp
    exact fate_of_call h hcall

/-- A client joins the room of a document, a comment on it is committed, and the coordinator announces it. -/
def insertPasses : List ServerAction :=
  [.world (.connect "a"), .world (.receive "a" (.text (.ok (.join "doc1")))), .world (.handle "a" 0)] ++
    insertStream.map (fun e => .wake Outside.sorted.surroundings (.received (.ok (some e.2)))) ++
    [.deliver, .deliver, .world .coordinate, .world .coordinate, .world .coordinate, .world .coordinate,
      .world (.drain "a")]

theorem invalidations_reach_insertPasses : ∃ r pre, Run true {} insertPasses r ∧
    r.server.reader.metrics.walEventsDroppedTotal = 0 ∧ Reached true {} insertPasses r pre 5 := by
  obtain ⟨r, hr⟩ : ∃ r, Run true {} insertPasses r := Option.isSome_iff_exists.1 (by decide +kernel)
  have hmem : .updateAppliedLsn 5 ∈ trace (init true {}) insertPasses := by
    have hacked : 5 ∈ (trace (init true {}) insertPasses).filterMap Action.acked := by decide +kernel
    obtain ⟨action, haction, hlsn⟩ := List.mem_filterMap.1 hacked
    cases action with
    | updateAppliedLsn lsn =>
      obtain rfl := Option.some.inj hlsn
      exact haction
    | _ => cases hlsn
  obtain ⟨pre, post, htrace⟩ := List.append_of_mem hmem
  obtain ⟨hdropped, hreached⟩ := invalidations_reach true {} insertPasses r hr
  have hnone : (trace (init true {}) insertPasses).countP Action.refused = 0 := by decide +kernel
  rw [hnone] at hdropped
  exact ⟨r, pre, hr, hdropped, hreached pre 5 post htrace⟩

end Runtime
end MiniGraph
