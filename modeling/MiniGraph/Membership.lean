import MiniGraph.WorldInv

/-!
# Sessions and the coordinator agree on membership

A session knows of one room, `current_room`; the coordinator has a list for each. `InStep` relates the
two while a join is on its way through the channel, and every step of a run preserves it as long as no
session handles a `Join` for another room than the one it is in. `RoomCommand::Join` does not take the
client out of that room, and so a client that switches rooms stays listed in the old one.
-/

namespace MiniGraph
open Lib

/-- The room of the join that is under way, from the moment it is in the channel. -/
def RecvTask.joining : RecvTask → Option DocumentId
  | .awaitingAck documentId _ => some documentId
  | .recording documentId => some documentId
  | _ => none

/-- `recv_task` is inside `handle_client_message`. -/
def RecvTask.InHandler : RecvTask → Bool
  | .handling _ => true
  | .awaitingAck _ _ => true
  | .recording _ => true
  | _ => false

namespace Rooms
variable {s : Rooms} {room : DocumentId} {clientId : ClientId}

theorem broadcast_queue_of_not_listed (ho : s.OwnQueues) (h : s.lists room clientId = false)
    (message : ServerMessage) :
    ((s.broadcast room message).queues ⟨clientId⟩).buffer = (s.queues ⟨clientId⟩).buffer := by
  obtain ⟨n, hn, hbuffer⟩ := runs_offer_queue message (s, []) (s.clients room) ⟨clientId⟩
  have hnone : (s.clients room).countP (fun client => client.2 = ⟨clientId⟩) = 0 := by
    rw [List.countP_eq_zero]
    intro client hmem
    rw [ho room client hmem]
    intro heq
    have hid : client.1 = clientId := by simpa using heq
    have hlisted : s.lists room clientId = true := lists_iff.2 ⟨client.2, hid ▸ hmem⟩
    rw [h] at hlisted
    cases hlisted
  obtain rfl : n = 0 := by omega
  rw [(broadcast_eq_fanout s room message).1]
  exact hbuffer.trans (List.append_nil _)

end Rooms

namespace World

/-- `handle_socket` waits for its two tasks, and `send_task` has not ended. -/
structure Connected (w : World) (c : ClientId) (s : Session) : Prop where
  found : w.sessions c = some s
  serving : s.socket = .serving
  sending : w.rooms.closed ⟨c⟩ = false

/-- No acknowledgement times out. -/
def InTime (_ : World) : WorldAction → Prop
  | .resume _ outcome => outcome ≠ .elapsed
  | _ => True

/-- A session that is about to handle a `Join` is in no room, or in the one that it joins. -/
def StaysInRoom (w : World) : WorldAction → Prop
  | .handle c _ =>
    ∀ s ∈ w.sessions c, ∀ d ∈ s.recvTask.joinAhead, s.currentRoom = none ∨ s.currentRoom = some d
  | _ => True

/-! ### In step -/

/-- What a connected session and the coordinator know of each other, with a join on its way or not. -/
structure InStep (w : World) (c : ClientId) (s : Session) : Prop where
  listed : ∀ d, w.rooms.lists d c = true → s.currentRoom = some d ∨ s.recvTask.joining = some d
  current : ∀ d, s.currentRoom = some d → w.rooms.lists d c = true
  joining : ∀ d e, s.recvTask.joining = some d → s.currentRoom = some e → e = d
  sent : ∀ d tx k, .join d c tx k ∈ w.commands.buffer →
    s.currentRoom = some d ∨ s.recvTask.joining = some d
  leaving : ∀ d, .leave d c ∉ w.commands.buffer
  acked : ∀ d k, s.recvTask = .awaitingAck d k → k ∈ w.rooms.acked → w.rooms.lists d c = true
  recording : ∀ d, s.recvTask = .recording d → w.rooms.lists d c = true

variable {w w' : World} {a : WorldAction} {c : ClientId} {s s' : Session} {cmds : List RoomCommand}

theorem InStep.transfer (h : w.InStep c s) (rooms : w'.rooms.rooms = w.rooms.rooms)
    (acked : w'.rooms.acked = w.rooms.acked)
    (hjoin : ∀ d tx k, .join d c tx k ∈ w'.commands.buffer → .join d c tx k ∈ w.commands.buffer)
    (hleave : ∀ d, .leave d c ∈ w'.commands.buffer → .leave d c ∈ w.commands.buffer) :
    w'.InStep c s where
  listed := by rw [lists_congr rooms]; exact h.listed
  current := by rw [lists_congr rooms]; exact h.current
  joining := h.joining
  sent := fun d tx k hmem => h.sent d tx k (hjoin d tx k hmem)
  leaving := fun d hmem => h.leaving d (hleave d hmem)
  acked := by rw [lists_congr rooms, acked]; exact h.acked
  recording := by rw [lists_congr rooms]; exact h.recording

theorem InStep.goOn (h : w.InStep c s) (hroom : s'.currentRoom = s.currentRoom)
    (hj : s'.recvTask.joining = s.recvTask.joining)
    (hacked : ∀ d k, s'.recvTask = .awaitingAck d k → k ∈ w.rooms.acked → w.rooms.lists d c = true)
    (hrecording : ∀ d, s'.recvTask = .recording d → w.rooms.lists d c = true) : w.InStep c s' where
  listed := by rw [hroom, hj]; exact h.listed
  current := by rw [hroom]; exact h.current
  joining := by rw [hroom, hj]; exact h.joining
  sent := by rw [hroom, hj]; exact h.sent
  leaving := h.leaving
  acked := hacked
  recording := hrecording

theorem InStep.idle (h : w.InStep c s) (hroom : s'.currentRoom = s.currentRoom)
    (hj : s.recvTask.joining = none) (hj' : s'.recvTask.joining = none) : w.InStep c s' :=
  h.goOn hroom (hj'.trans hj.symm) (fun d k ht => by rw [ht] at hj'; cases hj')
    fun d ht => by rw [ht] at hj'; cases hj'

theorem inStep_new (hc : w.Consistent) (hnone : w.sessions c = none) : w.InStep c (.new c) where
  listed := fun d hl => absurd hnone (hc.connected d c hl)
  current := nofun
  joining := nofun
  sent := fun d tx k hmem => absurd hnone (hc.senders c d tx k hmem)
  leaving := fun d hmem => absurd hnone (hc.leavers c d hmem)
  acked := nofun
  recording := nofun

theorem InStep.joinSent (h : w.InStep c s) (hc : w.Consistent) {d : DocumentId}
    (ht : s.recvTask = .handling (.join d))
    (hstay : s.currentRoom = none ∨ s.currentRoom = some d) :
    w.InStep c { s with recvTask := .awaitingAck d w.nextAck } := by
  have hj : s.recvTask.joining = none := by rw [ht]; rfl
  constructor
  · intro e hl
    refine (h.listed e hl).imp_right fun he => ?_
    rw [hj] at he
    cases he
  · exact h.current
  · intro d' e hd' he
    obtain rfl : d = d' := Option.some.inj hd'
    have hsome : s.currentRoom = some e := he
    rcases hstay with hnone | hsame
    · rw [hnone] at hsome
      cases hsome
    · rw [hsame] at hsome
      exact (Option.some.inj hsome).symm
  · intro e tx k hmem
    refine (h.sent e tx k hmem).imp_right fun he => ?_
    rw [hj] at he
    cases he
  · exact h.leaving
  · intro d' k ht' hk
    cases ht'
    exact absurd (hc.acked _ hk) (Nat.lt_irrefl _)
  · nofun

theorem InStep.record (h : w.InStep c s) {d : DocumentId} (ht : s.recvTask = .recording d) :
    w.InStep c { s with currentRoom := some d, recvTask := .awaitingFrame } := by
  have hj : s.recvTask.joining = some d := by rw [ht]; rfl
  have hknown : ∀ e, s.currentRoom = some e ∨ s.recvTask.joining = some e → some d = some e := by
    rintro e (he | he)
    · rw [h.joining d e hj he]
    · rw [← hj, he]
  constructor
  · exact fun e hl => .inl (hknown e (h.listed e hl))
  · intro e he
    obtain rfl : d = e := Option.some.inj he
    exact h.recording d ht
  · nofun
  · exact fun e tx k hmem => .inl (hknown e (h.sent e tx k hmem))
  · exact h.leaving
  · nofun
  · nofun

/-- A timeout apart, an acknowledgement always comes: the coordinator answers every join. -/
theorem Consistent.not_dropped (hc : w.Consistent) {d : DocumentId} {k : AckId}
    (hs : w.sessions c = some s) (ht : s.recvTask = .awaitingAck d k) (hk : k ∉ w.rooms.acked) :
    w.ackPending k = true := by
  rcases hc.answered c s d k hs ht with ⟨tx, hmem⟩ | hacked
  · exact List.any_eq_true.2 ⟨_, hmem, by simp⟩
  · exact absurd hacked hk

theorem InStep.moves (h : w.InStep c s) (hc : w.Consistent) (hs : w.sessions c = some s)
    (hm : Moves w s a s' cmds) (hclient : clientOf a = some c) (hserving : s'.socket = .serving)
    (hintime : w.InTime a) (hstay : w.StaysInRoom a) : w.InStep c s' := by
  cases hm with
  | receive c' msg ht => exact h.idle rfl (by rw [ht]; rfl) rfl
  | skip => exact h
  | joinSent c' now d ht =>
    obtain rfl : c' = c := Option.some.inj hclient
    have hahead : s.recvTask.joinAhead = some d := by rw [ht]; rfl
    exact h.joinSent hc ht (hstay s hs d hahead)
  | joinRefused c' now d ht => exact h.idle rfl (by rw [ht]; rfl) rfl
  | sent c' now msg cmd ht => exact h.idle rfl (by rw [ht]; rfl) rfl
  | sendRefused c' now msg cmd ht => exact h.idle rfl (by rw [ht]; rfl) rfl
  | notInRoom c' now text ht => exact h.idle rfl (by rw [ht]; rfl) rfl
  | acked c' d k ht hk =>
    refine h.goOn rfl (by rw [ht]; rfl) nofun fun e he => ?_
    obtain rfl : d = e := RecvTask.recording.inj he
    exact h.acked d k ht hk
  | failed c' d k outcome ht hne hk hpending =>
    cases outcome with
    | acked => exact absurd rfl hne
    | dropped =>
      have hfalse := hpending rfl
      rw [hc.not_dropped hs ht hk] at hfalse
      cases hfalse
    | elapsed => exact absurd rfl hintime
  | record c' d ht => exact h.record ht
  | recvEnds c' ht => exact h.idle rfl (by rw [ht]; rfl) rfl
  | drain => exact h
  | teardown => cases hserving
  | cancel c' hne => exact absurd hserving hne
  | leaveSent => cases hserving
  | leaveRefused => cases hserving
  | leaveNothing => cases hserving

/-- As long as its queue is open and it does not leave, a client can only be put into a room. -/
theorem Consistent.lists_process_iff (hc : w.Consistent) (hsending : w.rooms.closed ⟨c⟩ = false)
    {cmd : RoomCommand} (hleave : ∀ d, cmd ≠ .leave d c) (d : DocumentId) :
    (w.rooms.process cmd).lists d c = true ↔
      w.rooms.lists d c = true ∨ ∃ tx k, cmd = .join d c tx k := by
  rw [Rooms.lists_process hc.entries, hsending]
  cases cmd with
  | join d' c' tx k =>
    by_cases hto : d' = d ∧ c' = c
    · obtain ⟨rfl, rfl⟩ := hto
      simp [RoomCommand.member]
    · simp only [RoomCommand.member, if_neg hto, RoomCommand.join.injEq]
      refine ⟨.inl, fun h => h.resolve_right ?_⟩
      rintro ⟨_, _, rfl, rfl, -⟩
      exact hto ⟨rfl, rfl⟩
  | leave d' c' =>
    have hto : ¬ (d' = d ∧ c' = c) := by
      rintro ⟨rfl, rfl⟩
      exact hleave d' rfl
    simp [RoomCommand.member, hto]
  | broadcast d' m => simp [RoomCommand.member]

theorem InStep.coordinate (h : w.InStep c s) (hc : w.Consistent) (hs : w.sessions c = some s)
    (hsending : w.rooms.closed ⟨c⟩ = false) {cmd : RoomCommand}
    (buffer : w.commands.buffer = cmd :: w'.commands.buffer) (rooms : w'.rooms = w.rooms.process cmd) :
    w'.InStep c s := by
  have hhead : cmd ∈ w.commands.buffer := by rw [buffer]; exact List.mem_cons_self
  have hrest : ∀ cmd', cmd' ∈ w'.commands.buffer → cmd' ∈ w.commands.buffer := fun cmd' hmem => by
    rw [buffer]; exact List.mem_cons_of_mem _ hmem
  have hleave : ∀ d, cmd ≠ .leave d c := fun d hcmd => h.leaving d (hcmd ▸ hhead)
  have hlists : ∀ d, w'.rooms.lists d c = true ↔
      w.rooms.lists d c = true ∨ ∃ tx k, cmd = .join d c tx k := by
    rw [rooms]
    exact hc.lists_process_iff hsending hleave
  constructor
  · intro d hl
    rcases (hlists d).1 hl with hl | ⟨tx, k, rfl⟩
    · exact h.listed d hl
    · exact h.sent d tx k hhead
  · exact fun d hd => (hlists d).2 (.inl (h.current d hd))
  · exact h.joining
  · exact fun d tx k hmem => h.sent d tx k (hrest _ hmem)
  · exact fun d hmem => h.leaving d (hrest _ hmem)
  · intro d k ht hk
    rw [hlists]
    rw [rooms, Rooms.acked_process] at hk
    cases cmd with
    | join d' c' tx k' =>
      rcases Finset.mem_insert.1 hk with rfl | hk
      · obtain ⟨rfl, rfl⟩ := (hc.awaiting c s d k hs ht).2 d' c' tx hhead
        exact .inr ⟨tx, k, rfl⟩
      · exact .inl (h.acked d k ht hk)
    | _ => exact .inl (h.acked d k ht hk)
  · exact fun d ht => (hlists d).2 (.inl (h.recording d ht))

/-! ### Every step and every run -/

/-- Every connected session is in step with the coordinator. -/
def AllInStep (w : World) : Prop := ∀ c s, w.Connected c s → w.InStep c s

theorem InStep.session (h : w.InStep c s) (hc : w.Consistent) (heff : Effect w a w')
    (hs : w.sessions c = some s) (hm : Moves w s a s' cmds) (hclient : clientOf a = some c)
    (moved : Moved w w' s' cmds) (hs' : w'.sessions c = some s') (hserving : s'.socket = .serving)
    (hintime : w.InTime a) (hstay : w.StaysInRoom a) : w'.InStep c s' := by
  have hnext := h.moves hc hs hm hclient hserving hintime hstay
  constructor
  · rw [lists_congr moved.rooms]; exact hnext.listed
  · rw [lists_congr moved.rooms]; exact hnext.current
  · exact hnext.joining
  · intro d tx k hmem
    rcases heff.mem_buffer hmem with hmem | ⟨cmds, hsent, hmem⟩
    · exact hnext.sent d tx k hmem
    · obtain ⟨-, -, -, s₀, s₁, now, -, -, hs₁, -, ht, -⟩ := hsent.join d c tx k hmem
      obtain rfl : s' = s₁ := Option.some.inj (hs'.symm.trans hs₁)
      rw [ht]
      exact .inr rfl
  · intro d hmem
    rcases heff.mem_buffer hmem with hmem | ⟨cmds, hsent, hmem⟩
    · exact hnext.leaving d hmem
    · obtain ⟨-, s₀, s₁, -, hs₁, -, hended⟩ := hsent.leave d c hmem
      obtain rfl : s' = s₁ := Option.some.inj (hs'.symm.trans hs₁)
      rw [hserving] at hended
      cases hended
  · rw [lists_congr moved.rooms, moved.acked]; exact hnext.acked
  · rw [lists_congr moved.rooms]; exact hnext.recording

theorem InStep.others (h : w.InStep c s) (hc : w.Consistent) (heff : Effect w a w')
    (hs : w.sessions c = some s) (hs' : w'.sessions c = some s) (hserving : s.socket = .serving)
    (hsending : w.rooms.closed ⟨c⟩ = false) : w'.InStep c s := by
  cases heff.channel with
  | takes cmd action buffer rooms => exact h.coordinate hc hs hsending buffer rooms
  | puts cmds action buffer rooms acked =>
    refine h.transfer rooms acked (fun d tx k hmem => ?_) (fun d hmem => ?_)
    · rcases heff.mem_buffer hmem with hmem | ⟨cmds, hsent, hmem⟩
      · exact hmem
      · -- it would have moved from one point of the handler to the next
        obtain ⟨-, -, -, s₀, s₁, now, -, hs₀, hs₁, ht₀, ht₁, -⟩ := hsent.join d c tx k hmem
        obtain rfl := Option.some.inj (hs.symm.trans hs₀)
        obtain rfl := Option.some.inj (hs'.symm.trans hs₁)
        rw [ht₀] at ht₁
        cases ht₁
    · rcases heff.mem_buffer hmem with hmem | ⟨cmds, hsent, hmem⟩
      · exact hmem
      · obtain ⟨-, s₀, s₁, -, hs₁, -, hended⟩ := hsent.leave d c hmem
        obtain rfl := Option.some.inj (hs'.symm.trans hs₁)
        rw [hserving] at hended
        cases hended

theorem inStep_connect (hc : w.Consistent) (heff : Effect w (.connect c) w')
    (hnone : w.sessions c = none) : w'.InStep c (.new c) := by
  cases heff.channel with
  | takes cmd action => cases action
  | puts cmds action buffer rooms acked =>
    refine (inStep_new hc hnone).transfer rooms acked (fun d tx k hmem => ?_) (fun d hmem => ?_)
    · refine (heff.mem_buffer hmem).resolve_right fun ⟨cmds, hsent, hmem⟩ => ?_
      obtain ⟨-, -, -, s, s', now, -, hs, -⟩ := hsent.join d c tx k hmem
      rw [hnone] at hs
      cases hs
    · refine (heff.mem_buffer hmem).resolve_right fun ⟨cmds, hsent, hmem⟩ => ?_
      obtain ⟨-, s, s', hs, -⟩ := hsent.leave d c hmem
      rw [hnone] at hs
      cases hs

theorem allInStep_step (h : w.AllInStep) (hc : w.Consistent) (hintime : w.InTime a)
    (hstay : w.StaysInRoom a) (hstep : w.step a = some w') : w'.AllInStep := by
  rintro c s' ⟨found, serving, sending⟩
  have heff := step_effect hstep
  cases heff.stepped c with
  | same sessions =>
    have hs : w.sessions c = some s' := sessions ▸ found
    have hopen : w.rooms.closed ⟨c⟩ = false := heff.closed_of (by rw [hs]; nofun) sending
    exact (h c s' ⟨hs, serving, hopen⟩).others hc heff hs found serving hopen
  | connected action before after =>
    subst action
    obtain rfl := Option.some.inj (after.symm.trans found)
    exact inStep_connect hc heff before
  | moved s s₁ cmds client before after moves moved =>
    obtain rfl := Option.some.inj (after.symm.trans found)
    have hopen : w.rooms.closed ⟨c⟩ = false := heff.closed_of (by rw [before]; nofun) sending
    have hin := h c s ⟨before, moves.serving serving, hopen⟩
    exact hin.session hc heff before moves client moved after serving hintime hstay

theorem allInStep_run {metrics : Metrics} {as : List WorldAction} (h : Run metrics as w)
    (hintime : EveryStep step InTime (init metrics) as)
    (hstay : EveryStep step StaysInRoom (init metrics) as) : w.AllInStep := by
  have hinv : w.Consistent ∧ w.AllInStep := by
    refine exec_invariant (fun w => w.Consistent ∧ w.AllInStep) h (hintime.and hstay)
      ⟨consistent_init metrics, ?_⟩ ?_
    · rintro c s ⟨found, -, -⟩
      cases found
    · rintro w₁ a w₂ ⟨hc, hall⟩ ⟨hi, hs⟩ hstep
      exact ⟨hc.step hstep, allInStep_step hall hc hi hs hstep⟩
  exact hinv.2

/-- What a session and the coordinator say about a room is the same, and a client that is not in the
room receives nothing that is sent to it. -/
structure AgreesOn (w : World) (c : ClientId) (s : Session) (d : DocumentId) : Prop where
  membership : w.rooms.lists d c = true ↔ s.currentRoom = some d
  silent : s.currentRoom ≠ some d → ∀ message,
    ((w.rooms.process (.broadcast d message)).queues ⟨c⟩).buffer = (w.rooms.queues ⟨c⟩).buffer

/-- Every connected session that is not inside `handle_client_message` agrees with the coordinator. -/
def MembershipAgrees (w : World) : Prop := ∀ c s, w.Connected c s → s.recvTask.InHandler = false →
  ∀ d, w.AgreesOn c s d

/-- The command channel is empty, and no session is inside `handle_client_message`. -/
structure Settled (w : World) : Prop where
  empty : w.commands.buffer = []
  idle : ∀ c s, w.sessions c = some s → s.recvTask.InHandler = false

theorem InStep.agreesOn (h : w.InStep c s) (ho : w.rooms.OwnQueues) (hidle : s.recvTask.InHandler = false)
    (d : DocumentId) : w.AgreesOn c s d := by
  have hj : s.recvTask.joining = none := by
    cases ht : s.recvTask with
    | awaitingAck => simp [ht, RecvTask.InHandler] at hidle
    | recording => simp [ht, RecvTask.InHandler] at hidle
    | _ => rfl
  have hlisted : w.rooms.lists d c = true → s.currentRoom = some d := by
    intro hl
    rcases h.listed d hl with hroom | hd
    · exact hroom
    · rw [hj] at hd
      cases hd
  refine ⟨⟨hlisted, h.current d⟩, fun hne message => ?_⟩
  have hout : w.rooms.lists d c = false := Bool.eq_false_iff.2 fun hl => hne (hlisted hl)
  exact Rooms.broadcast_queue_of_not_listed ho hout message

/-- **Sessions and the coordinator agree on membership** in every state of a run, if no session ever
handles a `Join` while it is in another room. -/
theorem membershipAgrees (metrics : Metrics) (as : List WorldAction) (w : World) (h : Run metrics as w)
    (hintime : EveryStep step InTime (init metrics) as)
    (hstay : EveryStep step StaysInRoom (init metrics) as) : w.MembershipAgrees := fun c s hconn hidle d =>
  (allInStep_run h hintime hstay c s hconn).agreesOn (consistent_run h).entries hidle d

instance (w : World) : DecidablePred w.InTime
  | .resume _ outcome => inferInstanceAs (Decidable (outcome ≠ .elapsed))
  | .connect _ | .receive _ _ | .handle _ _ | .record _ | .recvEnds _ | .drain _ | .sendEnds _
  | .teardown _ | .cancel _ | .leave _ | .coordinate | .sinkBroadcast _ _ => .isTrue trivial

instance (w : World) : DecidablePred w.StaysInRoom
  | .handle c _ => inferInstanceAs (Decidable (∀ s ∈ w.sessions c, ∀ d ∈ s.recvTask.joinAhead, _))
  | .connect _ | .receive _ _ | .resume _ _ | .record _ | .recvEnds _ | .drain _ | .sendEnds _
  | .teardown _ | .cancel _ | .leave _ | .coordinate | .sinkBroadcast _ _ => .isTrue trivial

/-- A client joins a room, is acknowledged and records it. -/
def joins (c : ClientId) (d : DocumentId) : List WorldAction :=
  [.receive c (.text (.ok (.join d))), .handle c 0, .coordinate, .resume c .acked, .record c]

theorem membershipAgrees_join : ∃ w, Run {} (.connect "a" :: joins "a" "r") w ∧ w.MembershipAgrees := by
  have hrun : (exec step (init {}) (.connect "a" :: joins "a" "r")).isSome := by decide +kernel
  obtain ⟨w, hw⟩ := Option.isSome_iff_exists.1 hrun
  exact ⟨w, hw, membershipAgrees {} _ w hw (by decide +kernel) (by decide +kernel)⟩

/-- Once in room `r` the client joins room `s`. -/
def switch : List WorldAction := .connect "a" :: (joins "a" "r" ++ joins "a" "s")

theorem run_switch : ∃ w s, Run {} switch w ∧ w.commands.buffer = [] ∧ w.Connected "a" s ∧
    s.recvTask = .awaitingFrame ∧ s.currentRoom = some "s" ∧ w.rooms.lists "r" "a" = true := by
  have hrun : ∃ w, exec step (init {}) switch = some w ∧ w.commands.buffer = [] ∧
      w.rooms.closed ⟨"a"⟩ = false ∧ w.rooms.lists "r" "a" = true ∧
      w.sessions "a" = some { Session.new "a" with currentRoom := some "s" } := ⟨_, rfl, rfl, rfl, rfl, rfl⟩
  obtain ⟨w, hw, hbuffer, hsending, hlisted, hs⟩ := hrun
  exact ⟨w, _, hw, hbuffer, ⟨hs, rfl, hsending⟩, rfl, rfl, hlisted⟩

theorem switch_disagrees : ∃ w, Run {} switch w ∧ EveryStep step Accepted (init {}) switch ∧
    EveryStep step InTime (init {}) switch ∧ w.Settled ∧ ¬ w.MembershipAgrees := by
  obtain ⟨w, s, hw, hbuffer, hconn, ht, hroom, hlisted⟩ := run_switch
  have hidle : s.recvTask.InHandler = false := by rw [ht]; rfl
  refine ⟨w, hw, by decide +kernel, by decide +kernel, ⟨hbuffer, ?_⟩, fun h => ?_⟩
  · intro c s' hs'
    -- nobody else has connected
    obtain rfl : c = "a" := by
      have hmem := connect_mem hw (c := c) (by rw [hs']; nofun)
      simpa [switch, joins] using hmem
    obtain rfl := Option.some.inj (hconn.found.symm.trans hs')
    exact hidle
  · have hsame := (h "a" s hconn hidle "r").membership.1 hlisted
    rw [hroom] at hsame
    exact absurd hsame (by decide)

end World
end MiniGraph
