import MiniGraph.Conversations

/-!
# Rooms are isolated

A client gets a broadcast only of a room that it has asked to join, and a broadcast comes from a client
that was entitled to it, or from the invalidation sink. `Sourced` says where everything comes from that
can still become a message: the frames at work, the current rooms, the room lists and the commands in the
channel.
-/

namespace MiniGraph
open Lib

namespace World

/-- In the run `as`, `c` has asked to join `d`. -/
def Asked (as : List WorldAction) (c : ClientId) (d : DocumentId) : Prop :=
  .receive c (.text (.ok (.join d))) ∈ as

/-- Where a broadcast to `d` comes from: the sink, or a message of a client to this document, or to its
room, for which it has asked. The sender and the text are the client's, the time is that of the step. -/
inductive Authentic (as : List WorldAction) (d : DocumentId) : ServerMessage → Prop
  | sink (message : ServerMessage) (sent : .sinkBroadcast d message ∈ as) : Authentic as d message
  | direct (sender : ClientId) (text : String) (now : UInt64)
      (received : .receive sender (.text (.ok (.sendMessageTo d text))) ∈ as)
      (handled : .handle sender now ∈ as) : Authentic as d (.newMessage sender text now)
  | room (sender : ClientId) (text : String) (now : UInt64) (asked : Asked as sender d)
      (received : .receive sender (.text (.ok (.sendMessage text))) ∈ as)
      (handled : .handle sender now ∈ as) : Authentic as d (.newMessage sender text now)

variable {w w' : World} {a : WorldAction} {as bs : List WorldAction} {c : ClientId} {d : DocumentId}
  {message : ServerMessage} {s s' : Session} {cmds : List RoomCommand} {metrics : Metrics}

theorem Asked.append (h : Asked as c d) (bs : List WorldAction) : Asked (as ++ bs) c d :=
  List.mem_append_left _ h

theorem Authentic.append (h : Authentic as d message) (bs : List WorldAction) :
    Authentic (as ++ bs) d message := by
  cases h with
  | sink _ sent => exact .sink _ (List.mem_append_left _ sent)
  | direct sender text now received handled =>
    exact .direct sender text now (List.mem_append_left _ received) (List.mem_append_left _ handled)
  | room sender text now asked received handled =>
    exact .room sender text now (asked.append bs) (List.mem_append_left _ received)
      (List.mem_append_left _ handled)

/-! ### The invariant -/

/-- Where everything comes from after the run `as`. -/
structure Sourced (as : List WorldAction) (w : World) : Prop where
  frame : ∀ c frame, frame ∈ w.frameAt c → .receive c frame ∈ as
  current : ∀ c s d, w.sessions c = some s → s.currentRoom = some d → Asked as c d
  listed : ∀ c d, w.rooms.lists d c = true → Asked as c d
  joins : ∀ d c tx k, .join d c tx k ∈ w.commands.buffer → Asked as c d
  broadcasts : ∀ d message, .broadcast d message ∈ w.commands.buffer → Authentic as d message

theorem sourced_init (metrics : Metrics) : Sourced [] (init metrics) where
  frame := fun c frame hmem => absurd hmem List.not_mem_nil
  current := fun c s d hs => by cases hs
  listed := by
    intro c d hl
    have hnil : (init metrics).rooms.clients d = [] := Rooms.clients_eq_nil (Finmap.lookup_empty d)
    simp [Rooms.lists, hnil] at hl
  joins := fun d c tx k hmem => absurd hmem List.not_mem_nil
  broadcasts := fun d message hmem => absurd hmem List.not_mem_nil

theorem mem_frameOf {frame : Frame} (h : frame ∈ (frameOf c a).toList) : a = .receive c frame := by
  rw [Option.mem_toList] at h
  cases a with
  | receive c' frame' =>
    unfold frameOf at h
    simp only [Option.ite_none_right_eq_some, Option.some.injEq] at h
    obtain ⟨rfl, rfl⟩ := h
    rfl
  | _ => cases h

namespace Sourced
variable (h : Sourced as w)
include h

theorem received {msg : ClientMessage} (hs : w.sessions c = some s) (ht : s.recvTask = .handling msg) :
    .receive c (.text (.ok msg)) ∈ as := by
  refine h.frame c _ ?_
  rw [frameAt_of_some hs, ht]
  exact List.mem_singleton_self _

/-- The commands that a connection puts into the channel. -/
theorem sent (hs : w.sessions c = some s) (hc : clientOf a = some c) (moves : Moves w s a s' cmds) :
    (∀ d c tx k, .join d c tx k ∈ cmds → Asked (as ++ [a]) c d) ∧
      ∀ d message, .broadcast d message ∈ cmds → Authentic (as ++ [a]) d message := by
  have hid := w.clientId_eq c s hs
  cases moves with
  | joinSent c' now d' ht =>
    refine ⟨fun d c₀ tx k hmem => ?_, fun d message hmem => by simp at hmem⟩
    cases List.mem_singleton.1 hmem
    rw [hid]
    exact List.mem_append_left _ (h.received hs ht)
  | sent c' now msg cmd ht hcmd =>
    obtain rfl : c' = c := Option.some.inj hc
    have hreceived := List.mem_append_left [.handle c' now] (h.received hs ht)
    have hhandled : .handle c' now ∈ as ++ [.handle c' now] := List.mem_append_right _ List.mem_cons_self
    cases msg with
    | join d' => cases hcmd
    | sendMessage text =>
      obtain ⟨room, hroom, rfl⟩ := Option.map_eq_some_iff.1 hcmd
      refine ⟨fun d c₀ tx k hmem => by simp at hmem, fun d message hmem => ?_⟩
      cases List.mem_singleton.1 hmem
      rw [hid]
      exact .room c' text now ((h.current c' s room hs hroom).append _) hreceived hhandled
    | sendMessageTo d' text =>
      obtain rfl := Option.some.inj hcmd
      refine ⟨fun d c₀ tx k hmem => by simp at hmem, fun d message hmem => ?_⟩
      cases List.mem_singleton.1 hmem
      rw [hid]
      exact .direct c' text now hreceived hhandled
  | leaveSent => exact ⟨fun d c₀ tx k hmem => by simp at hmem, fun d message hmem => by simp at hmem⟩
  | _ =>
    exact ⟨fun d c₀ tx k hmem => absurd hmem List.not_mem_nil,
      fun d message hmem => absurd hmem List.not_mem_nil⟩

theorem frame_step (hstep : w.step a = some w') (c : ClientId) (frame : Frame)
    (hmem : frame ∈ w'.frameAt c) : .receive c frame ∈ as ++ [a] := by
  rcases List.mem_append.1 ((frameAt_step hstep c).subset hmem) with hmem | hmem
  · exact List.mem_append_left _ (h.frame c frame hmem)
  · rw [← mem_frameOf hmem]
    exact List.mem_append_right _ List.mem_cons_self

theorem current_step (hstep : w.step a = some w') (c : ClientId) (s' : Session) (d : DocumentId)
    (hs' : w'.sessions c = some s') (hroom : s'.currentRoom = some d) : Asked (as ++ [a]) c d := by
  cases (step_effect hstep).stepped c with
  | same sessions => exact (h.current c s' d (sessions ▸ hs') hroom).append _
  | connected action before after =>
    obtain rfl := Option.some.inj (after.symm.trans hs')
    cases hroom
  | moved s s₁ cmds client before after moves =>
    obtain rfl := Option.some.inj (after.symm.trans hs')
    cases moves with
    | record c' d' ht =>
      obtain rfl := Option.some.inj hroom
      refine Asked.append ?_ _
      refine h.frame c _ ?_
      rw [frameAt_of_some before, ht]
      exact List.mem_singleton_self _
    | _ => exact (h.current c s d before hroom).append _

/-- A command that is in the channel after a step was there before, or a connection or the sink has
just put it there. -/
theorem commands_step (hstep : w.step a = some w') :
    (∀ d c tx k, .join d c tx k ∈ w'.commands.buffer → Asked (as ++ [a]) c d) ∧
      ∀ d message, .broadcast d message ∈ w'.commands.buffer → Authentic (as ++ [a]) d message := by
  have hold : (∀ d c tx k, .join d c tx k ∈ w.commands.buffer → Asked (as ++ [a]) c d) ∧
      ∀ d message, .broadcast d message ∈ w.commands.buffer → Authentic (as ++ [a]) d message :=
    ⟨fun d c tx k hmem => (h.joins d c tx k hmem).append _,
      fun d message hmem => (h.broadcasts d message hmem).append _⟩
  cases step_effect hstep with
  | connect c _ fresh sessions commands => rwa [commands]
  | session c _ s s' cmds _ client found moves moved =>
    obtain ⟨hjoin, hbroadcast⟩ := h.sent found client moves
    rw [moved.buffer]
    refine ⟨fun d c tx k hmem => ?_, fun d message hmem => ?_⟩
    · exact (List.mem_append.1 hmem).elim (hold.1 d c tx k) (hjoin d c tx k)
    · exact (List.mem_append.1 hmem).elim (hold.2 d message) (hbroadcast d message)
  | sendEnds c s _ found sessions commands => rwa [commands]
  | coordinate cmd _ buffer =>
    rw [buffer] at hold
    exact ⟨fun d c tx k hmem => hold.1 d c tx k (List.mem_cons_of_mem _ hmem),
      fun d message hmem => hold.2 d message (List.mem_cons_of_mem _ hmem)⟩
  | sinkBroadcast room message _ cmds sent buffer =>
    rw [buffer]
    rcases sent with rfl | ⟨rfl, -⟩
    · refine ⟨fun d c tx k hmem => ?_, fun d message' hmem => ?_⟩
      · exact hold.1 d c tx k (by simpa using hmem)
      · rcases List.mem_append.1 hmem with hmem | hmem
        · exact hold.2 d message' hmem
        · cases List.mem_singleton.1 hmem
          exact .sink _ (List.mem_append_right _ List.mem_cons_self)
    · rwa [List.append_nil]

theorem listed_step (hcons : w.Consistent) (hstep : w.step a = some w') (c : ClientId) (d : DocumentId)
    (hl : w'.rooms.lists d c = true) : Asked (as ++ [a]) c d := by
  cases (step_effect hstep).channel with
  | takes cmd action buffer rooms =>
    rw [rooms, Rooms.lists_process hcons.entries] at hl
    by_cases hlisted : w.rooms.lists d c = true
    · exact (h.listed c d hlisted).append _
    · cases cmd with
      | join d' c' tx k =>
        simp only [RoomCommand.member, hlisted] at hl
        split_ifs at hl with hj
        obtain ⟨rfl, rfl⟩ := hj
        exact (h.joins d' c' tx k (by rw [buffer]; exact List.mem_cons_self)).append _
      | leave d' c' => simp [RoomCommand.member, hlisted] at hl
      | broadcast d' m => simp [RoomCommand.member, hlisted] at hl
  | puts cmds action buffer rooms =>
    rw [lists_congr rooms] at hl
    exact (h.listed c d hl).append _

theorem step (hcons : w.Consistent) (hstep : w.step a = some w') : Sourced (as ++ [a]) w' where
  frame := h.frame_step hstep
  current := h.current_step hstep
  listed := h.listed_step hcons hstep
  joins := (h.commands_step hstep).1
  broadcasts := (h.commands_step hstep).2

end Sourced

theorem sourced_run (h : Run metrics as w) : Sourced as w :=
  exec_history Sourced h (sourced_init metrics) fun _ _ _ _ hbefore ih hstep =>
    ih.step (consistent_run hbefore) hstep

/-! ### Isolation -/

/-- What may be put into the queue of `c` by the step `a`, after the run `as`. -/
inductive Meant (as : List WorldAction) (c : ClientId) (a : WorldAction) (message : ServerMessage) : Prop
  | answer (frame : Frame) (client : clientOf a = some c) (received : .receive c frame ∈ as)
      (answers : Answers c frame message)
  | broadcast (d : DocumentId) (action : a = .coordinate) (asked : Asked as c d)
      (authentic : Authentic as d message)

theorem Meant.append (h : Meant as c a message) (bs : List WorldAction) :
    Meant (as ++ bs) c a message := by
  cases h with
  | answer frame client received answers =>
    exact .answer frame client (List.mem_append_left _ received) answers
  | broadcast d action asked authentic => exact .broadcast d action (asked.append bs) (authentic.append bs)

theorem meant_step (h : Run metrics as w) (hstep : w.step a = some w') {x : WorldAction × ServerMessage}
    (hmem : x ∈ putStep c w a w') : x.1 = a ∧ Meant (as ++ [a]) c a x.2 := by
  have hsourced := sourced_run h
  cases step_logged (consistent_run h) hstep c with
  | quiet put => simp [put] at hmem
  | lost action put => simp [put] at hmem
  | sent message put => simp [put] at hmem
  | answered s message client before answer isOpen put =>
    rw [put] at hmem
    obtain rfl := List.mem_singleton.1 hmem
    have hconnect : a ≠ .connect c := by
      rintro rfl
      cases answer
    have hends : a ≠ .sendEnds c := by
      rintro rfl
      cases answer
    obtain ⟨s₁, s', cmds, hs₁, -, moves, -⟩ := (step_effect hstep).moves client hconnect hends
    obtain rfl := Option.some.inj (before.symm.trans hs₁)
    obtain ⟨frame, hframe, hmessage⟩ := moves.answer client answer
    rw [w.clientId_eq c s before] at hmessage
    refine ⟨rfl, .answer frame client ?_ hmessage⟩
    have hmem : frame ∈ s.recvTask.frame ++ (frameOf c a).toList := by
      rw [hframe]
      exact List.mem_cons_self
    rcases List.mem_append.1 hmem with hmem | hmem
    · exact List.mem_append_left _ (hsourced.frame c frame (by rwa [frameAt_of_some before]))
    · rw [← mem_frameOf hmem]
      exact List.mem_append_right _ List.mem_cons_self
  | offered room message n action head listed isOpen put =>
    rw [put] at hmem
    obtain rfl := List.eq_of_mem_replicate hmem
    have hauthentic := hsourced.broadcasts room message (by rw [head]; exact List.mem_cons_self)
    exact ⟨action.symm, .broadcast room action ((hsourced.listed c room listed).append _)
      (hauthentic.append _)⟩

/-- Everything that reaches `c` is meant for it, at the moment at which it is put into the queue. -/
structure Isolated (metrics : Metrics) (as : List WorldAction) (c : ClientId) : Prop where
  put : ∀ x ∈ putInto c (init metrics) as, ∃ before after, as = before ++ x.1 :: after ∧
    Meant (before ++ [x.1]) c x.1 x.2
  sent : ∀ message ∈ sentTo c (init metrics) as, ∃ before a after, as = before ++ a :: after ∧
    Meant (before ++ [a]) c a message

/-- **Rooms are isolated**, in every run: a client is sent answers to its own frames, and broadcasts of
rooms that it had asked to join, each of which comes from the sink or a message of its sender. -/
theorem isolated (metrics : Metrics) (as : List WorldAction) (w : World) (h : Run metrics as w)
    (c : ClientId) : Isolated metrics as c := by
  have hput : ∀ x ∈ putInto c (init metrics) as, ∃ before after, as = before ++ x.1 :: after ∧
      Meant (before ++ [x.1]) c x.1 x.2 := by
    intro x hmem
    obtain ⟨before, a, after, v, v', rfl, hv, hstep, hx⟩ := mem_log hmem
    obtain ⟨haction, hmeant⟩ := meant_step hv hstep hx
    rw [haction]
    exact ⟨before, after, rfl, hmeant⟩
  refine ⟨hput, fun message hmem => ?_⟩
  obtain ⟨x, hx, rfl⟩ := put_of_sent h hmem
  obtain ⟨before, after, hsplit, hmeant⟩ := hput x hx
  exact ⟨before, x.1, after, hsplit, hmeant⟩

/-- A client speaks to a room that another one is in. -/
def speakTo : List WorldAction :=
  [.connect "a", .connect "b", .receive "b" (.text (.ok (.join "r"))), .handle "b" 0, .coordinate,
    .receive "a" (.text (.ok (.sendMessageTo "r" "hi"))), .handle "a" 7, .coordinate, .drain "b"]

theorem isolated_speakTo : sentTo "b" (init {}) speakTo = [.message "a" "hi" 7] ∧
    Isolated {} speakTo "b" := by
  obtain ⟨w, hw⟩ : ∃ w, Run {} speakTo w := ⟨_, rfl⟩
  exact ⟨by decide +kernel, isolated {} speakTo w hw "b"⟩

end World
end MiniGraph
