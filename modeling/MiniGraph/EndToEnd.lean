import MiniGraph.ReaderCounters
import MiniGraph.Isolation

/-!
# From a commit to the clients

What a reader among the other tasks has handed over is what a reader on its own would have, up to where it is
(`Refines.reader`). So the invalidations that a client gets are those of committed transactions. Everything else
is from other clients, for rooms it has asked for, or the answer to a frame of its own (`arrivals_sound`).
-/

namespace MiniGraph
open Lib

namespace Server
variable {s s' : Server} {a : ServerAction} {as : List ServerAction} {sqlClient : Bool}
  {metrics : Metrics} {documentId : DocumentId} {hints : List QueryHint} {timestamp : UInt64}
  {answer : Except RoomCommandError Unit}

/-! ### Calls of the sink -/

theorem turn_no_call {r : WalReader} {w : Outside × Wake}
    (h : r.status = .looping → ∀ endLsn, w.2.event ≠ some (.commit endLsn)) :
    ∀ action ∈ (r.turn w).1, action.call = none := by
  intro action hmem
  rw [turn_actions h action hmem]
  rfl

/-- A call of the sink, and what the channel says to it. -/
inductive Call (s : Server) (s' : Server) (documentId : DocumentId) (hints : List QueryHint)
    (timestamp : UInt64) : Except RoomCommandError Unit → Prop
  | accepted (buffer : s'.world.commands.buffer = s.world.commands.buffer ++
      [.broadcast documentId (RoomsInvalidationSink.invalidation hints timestamp)]) :
      Call s s' documentId hints timestamp (.ok ())
  | refused (err : RoomCommandError) (sent : RoomsInvalidationSink.sendInvalidation s.world.commands
      documentId hints timestamp = .error err) : Call s s' documentId hints timestamp (.error err)

theorem call_of_mem (h : s.step a = some s')
    (hmem : .sendInvalidation documentId hints timestamp answer ∈ actStep s a s') :
    a = .deliver ∧ actStep s a s' = [.sendInvalidation documentId hints timestamp answer] ∧
      worldStep s a s' = [.sinkBroadcast documentId (RoomsInvalidationSink.invalidation hints timestamp)] ∧
        Call s s' documentId hints timestamp answer := by
  have heff := step_effect h
  generalize actStep s a s' = actions at heff hmem
  generalize worldStep s a s' = was at heff
  cases heff with
  | world => cases hmem
  | began => cases hmem
  | turned o w idle other =>
    have hnone := turn_no_call (w := (o.silent, w)) other _ hmem
    cases hnone
  | accepted c documentId' hints' remaining commands commit next sent =>
    cases List.mem_singleton.1 hmem
    have hbuffer := (Mpsc.trySend_eq_ok.1 (RoomsHandle.mapErr_eq_ok.1 sent)).2.2.1
    exact ⟨rfl, rfl, rfl, .accepted hbuffer⟩
  | refused c documentId' hints' remaining err commit next sent =>
    cases List.mem_singleton.1 hmem
    exact ⟨rfl, rfl, rfl, .refused err sent⟩
  | finished c commit next => simp at hmem

theorem full_of_refused {commands : CommandChannel} {err : RoomCommandError}
    (hopen : commands.closed = false)
    (h : RoomsInvalidationSink.sendInvalidation commands documentId hints timestamp = .error err) :
    err = .channelFull ∧ commands.buffer.length = roomsCoordinatorChannelCapacity := by
  unfold RoomsInvalidationSink.sendInvalidation RoomsHandle.broadcastToRoom RoomsHandle.mapErr at h
  split at h
  · cases h
  · rename_i hfull
    exact ⟨(Except.error.inj h).symm, (Mpsc.trySend_eq_full.1 hfull).2⟩
  · rename_i hclosed
    rw [Mpsc.trySend_eq_closed] at hclosed
    rw [hclosed] at hopen
    cases hopen

/-! ### What the reader has done -/

/-- It has made the first of the calls that a reader on its own would make over the same wake-ups, all of them
between two commits. -/
theorem Refines.reader {woken : List (Surroundings × Wake)} {actions : List Action}
    (h : Refines sqlClient metrics woken actions s) : ∃ wakes, woken = wakes.map bare ∧
    actions <+: (WalReader.start sqlClient metrics).trace wakes ∧
    (s.commit = none → actions = (WalReader.start sqlClient metrics).trace wakes ∧
      s.reader = ((WalReader.start sqlClient metrics).run wakes).2) := by
  cases h with
  | idle wakes commit woken_eq actions_eq reader =>
    exact ⟨wakes, woken_eq, actions_eq ▸ List.prefix_refl _, fun _ => ⟨actions_eq, reader⟩⟩
  | committing wakes r o c done commit woken_eq before looping timestamp routed actions_eq reader =>
    -- the calls that are left are answered somehow
    let all := done ++ c.remaining.map fun call => (call, .ok ())
    have hall : r.routed o = all.map Prod.fst := by
      rw [routed, List.map_append, List.map_map]
      exact congrArg _ (List.map_id _).symm
    let w : Outside × Wake := (o.outside (sinkOf all), .received (.ok (some (.commit c.endLsn))))
    have hturn : r.turn w = WalReader.handleCommit (o.outside (sinkOf all)) r c.endLsn :=
      WalReader.turn_event (w := w) looping rfl
    refine ⟨wakes ++ [w], ?_, ?_, fun hidle => ?_⟩
    · rw [woken_eq, List.map_append]
      rfl
    · rw [actions_eq, WalReader.trace_append, before, WalReader.trace_cons, hturn,
        handleCommit_answered hall, ← timestamp, List.map_append]
      simp only [List.append_assoc]
      exact List.prefix_append_right_inj _ |>.2 (List.prefix_append _ _)
    · rw [hidle] at commit
      cases commit

/-- The commits that the reader has come to, each with the stream before it. -/
def commits (wakes : List (Outside × Wake)) : List (Stream × UInt64) :=
  commitsOf [] (eventsOf (handled ∅ wakes))

/-- A hint of the transaction that is committed behind `before`, if one is open, for `documentId`. -/
def Committed (before : Stream) (documentId : DocumentId) (hint : QueryHint) : Prop :=
  ∃ p b mid, LastBegin before p b mid ∧ Produced (p ++ [b]) mid hint ∧
    HintRouter.routeKey hint = some documentId

theorem call_of_committed {before : Stream} {calls : List (DocumentId × List QueryHint)} {hint : QueryHint}
    (h : Delivers before calls) (hcommitted : Committed before documentId hint) :
    ∃ hints, (documentId, hints) ∈ calls ∧ hint ∈ hints := by
  obtain ⟨p, b, mid, hlast, hproduced, hroute⟩ := hcommitted
  have hexact := h.opened p b mid hlast
  obtain ⟨⟨documentId', hints⟩, hcall, rfl⟩ :=
    List.mem_map.1 ((hexact.affected documentId).2 ⟨hint, hproduced, hroute⟩)
  exact ⟨hints, hcall, (hexact.hints _ hints hcall hint).2 ⟨hproduced, hroute⟩⟩

theorem action_of_call {sends : List Action} (h : (documentId, hints) ∈ sends.filterMap Action.call) :
    ∃ timestamp answer, .sendInvalidation documentId hints timestamp answer ∈ sends := by
  obtain ⟨action, haction, hcall⟩ := List.mem_filterMap.1 h
  cases action with
  | sendInvalidation documentId' hints' timestamp answer =>
    obtain ⟨rfl, rfl⟩ := Prod.mk.inj (Option.some.inj hcall)
    exact ⟨timestamp, answer, haction⟩
  | _ => cases hcall

theorem hints_of_call {before : Stream} {calls : List (DocumentId × List QueryHint)}
    (h : Delivers before calls) (hcall : (documentId, hints) ∈ calls) :
    hints ≠ [] ∧ hints.Nodup ∧ ∀ hint, hint ∈ hints ↔ Committed before documentId hint := by
  have hlast : ∃ p b mid, LastBegin before p b mid := by
    by_contra hnone
    have hnil := h.closed fun p b mid hlast => hnone ⟨p, b, mid, hlast⟩
    rw [hnil] at hcall
    cases hcall
  obtain ⟨p, b, mid, hlast⟩ := hlast
  have hexact := h.opened p b mid hlast
  have hmem : documentId ∈ calls.map Prod.fst := List.mem_map.2 ⟨_, hcall, rfl⟩
  obtain ⟨hint, hhint⟩ := (hexact.affected documentId).1 hmem
  refine ⟨List.ne_nil_of_mem ((hexact.hints _ _ hcall hint).2 hhint), hexact.nodup _ _ hcall, fun hint => ?_⟩
  constructor
  · intro hmem
    obtain ⟨hproduced, hroute⟩ := (hexact.hints _ _ hcall hint).1 hmem
    exact ⟨p, b, mid, hlast, hproduced, hroute⟩
  · rintro ⟨p', b', mid', hlast', hproduced, hroute⟩
    exact ((h.opened p' b' mid' hlast').hints _ _ hcall hint).2 ⟨hproduced, hroute⟩

/-! ### Nothing is made up -/

/-- Where a message to `clientId` comes from. -/
structure Sound (as : List ServerAction) (was : List WorldAction) (clientId : ClientId)
    (message : ServerMessage) : Prop where
  ofJoined : ∀ clientId' documentId, message = .joined clientId' documentId →
    clientId' = clientId ∧ World.Asked was clientId documentId
  /-- the sender has sent this text, to the document or to a room for which it has asked -/
  ofMessage : ∀ sender text timestamp, message = .message sender text timestamp →
    ∃ documentId, World.Asked was clientId documentId ∧
      (.receive sender (.text (.ok (.sendMessageTo documentId text))) ∈ was ∨
        World.Asked was sender documentId ∧ .receive sender (.text (.ok (.sendMessage text))) ∈ was)
  /-- the keys are those of the hints for the document that a committed transaction has produced -/
  ofInvalidation : ∀ keys timestamp, message = .invalidation keys timestamp →
    ∃ documentId hints, keys = hints.map QueryHint.toKey ∧ hints ≠ [] ∧ hints.Nodup ∧
      World.Asked was clientId documentId ∧ ∃ wakes commit, wakesOf as = wakes.map bare ∧
        commit ∈ commits wakes ∧ ∀ hint, hint ∈ hints ↔ Committed commit.1 documentId hint
  /-- an error is the answer to a frame of the client's own -/
  ofError : ∀ text, message = .error text →
    ∃ frame, .receive clientId frame ∈ was ∧ Answers clientId frame (.error text)

/-- Each call of the server is one of a commit that the reader has come to. -/
theorem commit_of_call (h : Run sqlClient metrics as s)
    (hmem : .sendInvalidation documentId hints timestamp answer ∈ trace (init sqlClient metrics) as) :
    ∃ wakes commit, wakesOf as = wakes.map bare ∧ commit ∈ commits wakes ∧ hints ≠ [] ∧ hints.Nodup ∧
      ∀ hint, hint ∈ hints ↔ Committed commit.1 documentId hint := by
  obtain ⟨wakes, hwakes, hprefix, -⟩ := (refines_run h).reader
  obtain ⟨parts, stop, hreader, hstop, hparts⟩ := parts_run (WalReader.tracks_start sqlClient metrics) wakes
  have hmem' := hprefix.subset hmem
  rw [hreader] at hmem'
  rcases List.mem_append.1 hmem' with hmem' | hmem'
  · obtain ⟨part, hpart, haction⟩ := List.mem_flatten.1 hmem'
    obtain ⟨commit, hcommit, sends, rfl, -, hdelivers⟩ := exists_left_of_forall₂ hparts hpart
    have hsends : .sendInvalidation documentId hints timestamp answer ∈ sends := by
      rcases List.mem_append.1 haction with haction | haction
      · exact haction
      · simp at haction
    have hcall : (documentId, hints) ∈ sends.filterMap Action.call :=
      List.mem_filterMap.2 ⟨_, hsends, rfl⟩
    exact ⟨wakes, commit, hwakes, hcommit, hints_of_call hdelivers hcall⟩
  · rcases hstop with rfl | rfl
    · cases hmem'
    · simp at hmem'

theorem call_of_sinkBroadcast {message : ServerMessage}
    (hmem : .sinkBroadcast documentId message ∈ worldActions (init sqlClient metrics) as) :
    ∃ hints timestamp answer, message = RoomsInvalidationSink.invalidation hints timestamp ∧
      .sendInvalidation documentId hints timestamp answer ∈ trace (init sqlClient metrics) as := by
  obtain ⟨before, a, after, s₁, s₂, rfl, h₁, hstep, hact⟩ := mem_log hmem
  have hlog : ∀ action ∈ actStep s₁ a s₂, action ∈ trace (init sqlClient metrics) (before ++ a :: after) := by
    intro action haction
    unfold trace
    rw [log_append h₁, log_cons hstep]
    exact List.mem_append_right _ (List.mem_append_left _ haction)
  have heff := step_effect hstep
  generalize actStep s₁ a s₂ = actions at heff hlog
  generalize worldStep s₁ a s₂ = was at heff hact
  cases heff with
  | world a w step notSink =>
    rw [List.mem_singleton] at hact
    exact absurd hact.symm (notSink _ _)
  | began => cases hact
  | turned => cases hact
  | accepted c documentId' hints' remaining commands commit next sent =>
    cases List.mem_singleton.1 hact
    exact ⟨hints', c.timestamp, _, rfl, hlog _ List.mem_cons_self⟩
  | refused c documentId' hints' remaining err commit next sent =>
    cases List.mem_singleton.1 hact
    exact ⟨hints', c.timestamp, _, rfl, hlog _ List.mem_cons_self⟩
  | finished => cases hact

theorem sound_of_meant (h : Run sqlClient metrics as s) {clientId : ClientId} {message : ServerMessage}
    {a : WorldAction}
    (hmeant : World.Meant (worldActions (init sqlClient metrics) as) clientId a message) :
    Sound as (worldActions (init sqlClient metrics) as) clientId message := by
  cases hmeant with
  | answer frame client received answers =>
    refine ⟨?_, ?_, ?_, ?_⟩
    · rintro clientId' documentId rfl
      cases answers
      exact ⟨rfl, received⟩
    · rintro sender text timestamp rfl
      cases answers
    · rintro keys timestamp rfl
      cases answers
    · rintro text rfl
      exact ⟨frame, received, answers⟩
  | broadcast documentId action asked authentic =>
    cases authentic with
    | sink _ sent =>
      obtain ⟨hints, timestamp, answer, rfl, hcall⟩ := call_of_sinkBroadcast sent
      refine ⟨nofun, nofun, ?_, nofun⟩
      rintro keys timestamp' heq
      obtain ⟨rfl, -⟩ := ServerMessage.invalidation.inj heq
      obtain ⟨wakes, commit, hwakes, hcommit, hne, hnodup, hhints⟩ := commit_of_call h hcall
      exact ⟨documentId, hints, rfl, hne, hnodup, asked, wakes, commit, hwakes, hcommit, hhints⟩
    | direct sender text now received handled =>
      refine ⟨nofun, ?_, nofun, nofun⟩
      rintro sender' text' timestamp heq
      obtain ⟨rfl, rfl, -⟩ := ServerMessage.message.inj heq
      exact ⟨documentId, asked, .inl received⟩
    | room sender text now asked' received handled =>
      refine ⟨nofun, ?_, nofun, nofun⟩
      rintro sender' text' timestamp heq
      obtain ⟨rfl, rfl, -⟩ := ServerMessage.message.inj heq
      exact ⟨documentId, asked, .inr ⟨asked', received⟩⟩

/-- **Nothing is made up**: in every run of the server, what is put into the queue of a client, and what is sent
over its socket, comes from a committed transaction, from a message of its sender or from a join of its own, for
a room that the client has asked to join, or it is an error that answers a frame of its own. -/
theorem arrivals_sound (sqlClient : Bool) (metrics : Metrics) (as : List ServerAction) (s : Server)
    (h : Run sqlClient metrics as s) (clientId : ClientId) :
    let was := worldActions (init sqlClient metrics) as
    (∀ x ∈ World.putInto clientId (World.init metrics) was, Sound as was clientId x.2) ∧
      ∀ message ∈ World.sentTo clientId (World.init metrics) was, Sound as was clientId message := by
  intro was
  have hrun : World.Run metrics was s.world := run_worldActions h
  have hput : ∀ x ∈ World.putInto clientId (World.init metrics) was, Sound as was clientId x.2 := by
    intro x hx
    obtain ⟨before, a, after, v, v', hsplit, hv, hstep, hx⟩ := mem_log hx
    have hmeant := (World.meant_step hv hstep hx).2.append after
    have hwhole : before ++ [a] ++ after = was := by
      rw [hsplit]
      simp
    rw [hwhole] at hmeant
    exact sound_of_meant h hmeant
  refine ⟨hput, fun message hmessage => ?_⟩
  obtain ⟨x, hx, rfl⟩ := World.put_of_sent hrun hmessage
  exact hput x hx

/-- A client sends a message too early, and joins the room of a document; then a comment on it is committed. -/
def insertRun : List ServerAction :=
  [.world (.connect "a"), .world (.receive "a" (.text (.ok (.sendMessage "hi")))), .world (.handle "a" 0),
    .world (.receive "a" (.text (.ok (.join "doc1")))), .world (.handle "a" 0)] ++
    insertStream.map (fun e => .wake Outside.sorted.surroundings (.received (.ok (some e.2)))) ++
    [.deliver, .deliver, .world .coordinate, .world .coordinate, .world (.drain "a"), .world (.drain "a")]

theorem arrivals_sound_insertRun :
    World.sentTo "a" (World.init {}) (worldActions (init true {}) insertRun) =
      [.error "Must join a room before sending messages", .invalidation ["comments:document_id:doc1"] 0] ∧
    Sound insertRun (worldActions (init true {}) insertRun) "a"
      (.error "Must join a room before sending messages") ∧
    Sound insertRun (worldActions (init true {}) insertRun) "a"
      (.invalidation ["comments:document_id:doc1"] 0) := by
  obtain ⟨s, hs⟩ : ∃ s, Run true {} insertRun s := Option.isSome_iff_exists.1 (by decide +kernel)
  have hsent : World.sentTo "a" (World.init {}) (worldActions (init true {}) insertRun) =
      [.error "Must join a room before sending messages", .invalidation ["comments:document_id:doc1"] 0] := by
    decide +kernel
  have h := (arrivals_sound true {} insertRun s hs "a").2
  rw [hsent] at h
  exact ⟨hsent, h _ List.mem_cons_self, h _ (List.mem_cons_of_mem _ List.mem_cons_self)⟩

end Server
end MiniGraph
