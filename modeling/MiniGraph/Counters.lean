import MiniGraph.AcceptedCommands
import MiniGraph.AtMostOneCopy
import MiniGraph.Conversations

/-!
# What the counters count

Every command that a task tries to send is accepted or refused by the channel, and every entry of the room
of a broadcast gets its copy, finds its queue full or finds it closed. The counters of dropped commands and
of dropped copies are exactly the numbers of those that the channel and the queues refuse, up to the wrap
of a 64-bit number (`counted`). A broadcast of the sink that is refused is not among the former: the reader
counts it.
-/

namespace MiniGraph
open Lib

namespace Rooms
variable {message : ServerMessage}

theorem runs_offer_copies (message : ServerMessage) (p : Rooms × List ClientId)
    {clients : List (ClientId × Sender)} (hown : ∀ client ∈ clients, client.2 = ⟨client.1⟩) (clientId : ClientId) :
    ((runs (offer message) p clients).2.1.queues ⟨clientId⟩).buffer = (p.1.queues ⟨clientId⟩).buffer ++
      List.replicate (((clients.map Prod.fst).zip (runs (offer message) p clients).1).countP
        fun x => x = (clientId, .ok ())) message := by
  induction clients generalizing p with
  | nil => simp [runs]
  | cons client clients ih =>
    have hrest := ih (offer message p client).2 fun client h => hown client (List.mem_cons_of_mem _ h)
    have hclient : client.2 = ⟨client.1⟩ := hown client List.mem_cons_self
    rw [runs, List.map_cons, List.zip_cons_cons, List.countP_cons, hrest]
    unfold offer
    cases hsend : (p.1.queues client.2).trySend message with
    | error err => rcases err with _ | _ <;> simp
    | ok queue =>
      simp only [Prod.mk.injEq, and_true, decide_eq_true_eq]
      by_cases hid : client.1 = clientId
      · subst hid
        rw [← hclient, Function.update_self, (Mpsc.trySend_eq_ok.1 hsend).2.2.1, if_pos rfl,
          List.replicate_succ, List.append_assoc, List.singleton_append]
      · have hne : (⟨clientId⟩ : Sender) ≠ client.2 := by
          rw [hclient]
          intro heq
          exact hid (Sender.mk.inj heq).symm
        rw [Function.update_of_ne hne, if_neg hid, Nat.add_zero]

theorem runs_offer_metrics (p : Rooms × List ClientId) (clients : List (ClientId × Sender)) :
    (runs (offer message) p clients).2.1.metrics = { p.1.metrics with
      fanoutDropsTotal := p.1.metrics.fanoutDropsTotal +
        UInt64.ofNat ((runs (offer message) p clients).1.countP (· = .error .full)) } := by
  have hother : (runs (offer message) p clients).2.1.metrics = { p.1.metrics with
      fanoutDropsTotal := (runs (offer message) p clients).2.1.metrics.fanoutDropsTotal } := by
    induction clients generalizing p with
    | nil => rfl
    | cons client clients ih =>
      have hfirst : (offer message p client).2.1.metrics = { p.1.metrics with
          fanoutDropsTotal := (offer message p client).2.1.metrics.fanoutDropsTotal } := by
        unfold offer
        split <;> rfl
      rw [runs, ih, hfirst]
  rw [hother, runs_offer_drops]

end Rooms

namespace World
variable {w w' : World} {a : WorldAction} {as : List WorldAction} {metrics : Metrics} {c : ClientId}

/-! ### What is counted -/

/-- The commands that the tasks try to send. -/
def attempted (w : World) (as : List WorldAction) : List RoomCommand :=
  log step (fun w a _ => (w.sends a).toList) w as

def refusedStep (w : World) (a : WorldAction) (_ : World) : List (WorldAction × RoomCommand) :=
  if w.refuses a then (w.sends a).toList.map (a, ·) else []

/-- Those that the channel refuses, each with the step that sends it. -/
def refused (w : World) (as : List WorldAction) : List (WorldAction × RoomCommand) :=
  log step refusedStep w as

def offersStep (w : World) (a : WorldAction) (_ : World) : List (ClientId × Except TrySendError Unit) :=
  match a, w.commands.buffer with
  | .coordinate, .broadcast room message :: _ =>
    ((w.rooms.clients room).map Prod.fst).zip (w.rooms.fanout message (w.rooms.clients room)).1
  | _, _ => []

/-- The results of the coordinator's `try_send`s, each with the client it is for. -/
def offers (w : World) (as : List WorldAction) : List (ClientId × Except TrySendError Unit) :=
  log step offersStep w as

/-! ### The commands -/

/-- The commands of a step that are not refused. -/
def unrefused (w : World) (a : WorldAction) : List RoomCommand :=
  if w.refuses a then [] else (w.sends a).toList

theorem unrefused_of_none (h : w.sends a = none) : w.unrefused a = [] := by
  simp [unrefused, h]

theorem unrefused_of_refused (h : w.refuses a = true) : w.unrefused a = [] := if_pos h

theorem unrefused_of_sent {cmd : RoomCommand} (h : w.sends a = some cmd) (hrefused : w.refuses a = false) :
    w.unrefused a = [cmd] := by
  simp [unrefused, h, hrefused]

theorem Moves.unrefused {s s' : Session} {cmds : List RoomCommand} (h : Moves w s a s' cmds)
    (hs : w.sessions c = some s) (hc : clientOf a = some c) : cmds = w.unrefused a := by
  symm
  cases h with
  | joinSent c' now d ht hsent =>
    obtain rfl := Option.some.inj hc
    exact unrefused_of_sent (by simp only [sends, hs, ht]) hsent
  | joinRefused c' now d ht hrefused => exact unrefused_of_refused hrefused
  | sent c' now msg cmd ht hcmd hsent =>
    obtain rfl := Option.some.inj hc
    refine unrefused_of_sent ?_ hsent
    cases msg with
    | join d => cases hcmd
    | sendMessage text => simp only [sends, hs, ht, hcmd]
    | sendMessageTo d text => simp only [sends, hs, ht, hcmd]
  | sendRefused c' now msg cmd ht hcmd hrefused => exact unrefused_of_refused hrefused
  | notInRoom c' now text ht hroom =>
    obtain rfl := Option.some.inj hc
    exact unrefused_of_none (by simp only [sends, hs, ht, Session.broadcastFor, hroom, Option.map_none])
  | leaveSent c' d ht hroom hsent =>
    obtain rfl := Option.some.inj hc
    exact unrefused_of_sent (by simp only [sends, hs, hroom, Option.map_some]) hsent
  | leaveRefused c' d ht hroom hrefused => exact unrefused_of_refused hrefused
  | leaveNothing c' ht hroom =>
    obtain rfl := Option.some.inj hc
    exact unrefused_of_none (by simp only [sends, hs, hroom, Option.map_none])
  | _ => exact unrefused_of_none rfl

theorem buffer_step (hcons : w.Consistent) (h : w.step a = some w') (haction : a ≠ .coordinate) :
    w'.commands.buffer = w.commands.buffer ++ w.unrefused a := by
  cases step_effect h with
  | connect c _ fresh sessions commands => rw [commands, unrefused_of_none rfl, List.append_nil]
  | session c _ s s' cmds _ client found moves moved => rw [moved.buffer, moves.unrefused found client]
  | sendEnds c s _ found sessions commands => rw [commands, unrefused_of_none rfl, List.append_nil]
  | coordinate => exact absurd rfl haction
  | sinkBroadcast room message _ cmds sent buffer =>
    rcases sent with rfl | ⟨rfl, hrefused⟩
    · have hroom : w.commands.buffer.length < roomsCoordinatorChannelCapacity := by
        have hlength := w'.commands.length_le
        rw [buffer, List.length_append, List.length_singleton] at hlength
        omega
      have hsend : w.commands.trySend (.broadcast room message) = .ok w'.commands :=
        Mpsc.trySend_eq_ok.2 ⟨hcons.channel, (hcons.step h).channel, buffer, hroom⟩
      rw [buffer, unrefused_of_sent rfl (refuses_of_ok rfl hsend)]
    · rw [buffer, unrefused_of_refused hrefused]

theorem sends_step (hcons : w.Consistent) (h : w.step a = some w') :
    ((w.sends a).toList).Perm (accepted w [a] ++ (refusedStep w a w').map Prod.snd) := by
  by_cases haction : a = .coordinate
  · subst haction
    have hnone : accepted w [.coordinate] = [] := accepted_takes h rfl
    rw [hnone]
    exact List.Perm.refl _
  · have haccepted : accepted w [a] = w.unrefused a := by
      rw [accepted_puts h haction (buffer_step hcons h haction)]
      exact List.append_nil _
    rw [haccepted, unrefused, refusedStep]
    split_ifs
    · simp
    · simp

/-! ### The copies -/

theorem offersStep_of_ne (ha : a ≠ .coordinate) : offersStep w a w' = [] := by
  cases a with
  | coordinate => exact absurd rfl ha
  | _ => rfl

/-- What the coordinator puts into the queue of `c` in a step are the results `Ok` for it. -/
theorem copies_step (hcons : w.Consistent) (h : w.step a = some w') (c : ClientId) :
    (putStep c w a w').countP (fun x => x.1 = .coordinate) =
      (offersStep w a w').countP fun x => x = (c, .ok ()) := by
  by_cases haction : a = .coordinate
  · subst haction
    cases step_effect h with
    | session c' _ s s' cmds _ client => cases client
    | coordinate cmd _ buffer closed rooms =>
      unfold putStep offersStep
      rw [buffer, rooms]
      cases cmd with
      | join d c' tx k => simp [Rooms.process, Rooms.join]
      | leave d c' => simp [Rooms.process, Rooms.leave_queues]
      | broadcast d message =>
        have hcopies := Rooms.runs_offer_copies message (w.rooms, []) (hcons.entries d) c
        simp only [Rooms.process, (Rooms.broadcast_eq_fanout w.rooms d message).1, Rooms.fanout, hcopies,
          List.drop_left, List.map_replicate, List.countP_replicate, decide_true, if_true]
  · have hput : (putStep c w a w').countP (fun x => x.1 = .coordinate) = 0 := by
      rw [List.countP_eq_zero]
      intro x hx
      suffices x.1 = a by simpa [this] using haction
      unfold putStep at hx
      cases a <;> simp only [List.not_mem_nil, List.mem_map] at hx <;> obtain ⟨message, -, rfl⟩ := hx <;> rfl
    rw [hput, offersStep_of_ne haction]
    rfl

/-! ### The counters -/

/-- What a step counts. -/
def Counts (w : World) (a : WorldAction) (w' : World) : Prop := w'.rooms.metrics =
  { w.rooms.metrics with
    actorCmdDropsTotal := w.rooms.metrics.actorCmdDropsTotal +
      UInt64.ofNat ((refusedStep w a w').countP fun x => (clientOf x.1).isSome)
    fanoutDropsTotal := w.rooms.metrics.fanoutDropsTotal +
      UInt64.ofNat ((offersStep w a w').countP fun x => x.2 = .error .full) }

theorem counts_nothing (hmetrics : w'.rooms.metrics = w.rooms.metrics)
    (hrefused : w.refuses a = false ∨ clientOf a = none) (hoffers : offersStep w a w' = []) :
    Counts w a w' := by
  have hzero : (refusedStep w a w').countP (fun x => (clientOf x.1).isSome) = 0 := by
    rcases hrefused with h | h
    · simp [refusedStep, h]
    · unfold refusedStep
      split_ifs
      · simp [List.countP_map, Function.comp_def, h]
      · rfl
  rw [Counts, hmetrics, hoffers, hzero]
  simp

theorem counts_speaks (hopen : w.commands.closed = false) (hc : clientOf a = some c) (hspeaks : Speaks a)
    (h : w.step a = some w') : Counts w a w' := by
  have hoffers : offersStep w a w' = [] := offersStep_of_ne (by rintro rfl; cases hc)
  obtain ⟨s, hs, hspoken⟩ := step_spoken hc hspeaks h
  have hmetrics := hspoken.metrics
  cases hrefused : w.refuses a with
  | false =>
    rw [hrefused] at hmetrics
    exact counts_nothing (hmetrics.trans (if_neg (by simp))) (.inl hrefused) hoffers
  | true =>
    have hone : (refusedStep w a w').countP (fun x => (clientOf x.1).isSome) = 1 := by
      unfold refusedStep
      rw [if_pos hrefused]
      unfold refuses at hrefused
      cases hsend : w.sends a with
      | none => simp [hsend] at hrefused
      | some cmd => simp [hc]
    rw [hrefused, if_pos ⟨rfl, hopen⟩] at hmetrics
    rw [Counts, hmetrics, hoffers, hone]
    simp [Metrics.incActorCmdDrop]

theorem counts_broadcast {d : DocumentId} {message : ServerMessage}
    (hbuffer : w.commands.buffer = .broadcast d message :: w'.commands.buffer)
    (hrooms : w'.rooms = w.rooms.process (.broadcast d message)) : Counts w .coordinate w' := by
  have hoffers : (offersStep w .coordinate w').countP (fun x => x.2 = .error .full) =
      (w.rooms.fanout message (w.rooms.clients d)).1.countP (· = .error .full) := by
    have hlength : (w.rooms.fanout message (w.rooms.clients d)).1.length ≤
        ((w.rooms.clients d).map Prod.fst).length := by
      rw [Rooms.fanout, length_runs, List.length_map]
    simp only [offersStep, hbuffer]
    exact (List.countP_map (p := (· = .error .full)) (f := Prod.snd)).symm.trans
      (congrArg _ (List.map_snd_zip hlength))
  rw [Counts, hoffers, hrooms]
  refine (Rooms.broadcast_eq_fanout w.rooms d message).2.trans ?_
  refine (Rooms.runs_offer_metrics (w.rooms, []) (w.rooms.clients d)).trans ?_
  simp [refusedStep, sends, Rooms.fanout]

theorem counts_beside (hopen : w.commands.closed = false) (h : w.step a = some w') (ha : a ≠ .coordinate) :
    Counts w a w' := by
  cases a with
  | connect c => exact counts_nothing (by rw [(connect_eq h).2]; rfl) (.inl rfl) rfl
  | drain c =>
    obtain ⟨message, queue, -, rfl⟩ := drain_eq h
    exact counts_nothing rfl (.inl rfl) rfl
  | sendEnds c => exact counts_nothing (by rw [sendEnds_eq h]; rfl) (.inl rfl) rfl
  | sinkBroadcast room message =>
    refine counts_nothing ?_ (.inr rfl) rfl
    cases step_effect h with
    | session c _ s s' cmds _ client => cases client
    | sinkBroadcast _ _ _ cmds sent buffer closed rooms => rw [rooms]
  | coordinate => exact absurd rfl ha
  | receive c frame => exact counts_speaks hopen (c := c) rfl trivial h
  | handle c now => exact counts_speaks hopen (c := c) rfl trivial h
  | resume c outcome => exact counts_speaks hopen (c := c) rfl trivial h
  | record c => exact counts_speaks hopen (c := c) rfl trivial h
  | recvEnds c => exact counts_speaks hopen (c := c) rfl trivial h
  | teardown c => exact counts_speaks hopen (c := c) rfl trivial h
  | cancel c => exact counts_speaks hopen (c := c) rfl trivial h
  | leave c => exact counts_speaks hopen (c := c) rfl trivial h

theorem counts_step (hcons : w.Consistent) (h : w.step a = some w') : Counts w a w' := by
  by_cases ha : a = .coordinate
  · subst ha
    cases step_effect h with
    | session c _ s s' cmds _ client => cases client
    | coordinate cmd _ buffer closed rooms =>
      cases cmd with
      | join d c tx k =>
        refine counts_nothing (by rw [rooms]; rfl) (.inl rfl) ?_
        simp only [offersStep, buffer]
      | leave d c =>
        refine counts_nothing ?_ (.inl rfl) ?_
        · rw [rooms]
          exact Rooms.leave_metrics w.rooms d c
        · simp only [offersStep, buffer]
      | broadcast d message => exact counts_broadcast buffer rooms
  · exact counts_beside hcons.channel h ha

/-! ### Every run -/

variable {before : List WorldAction}

theorem refused_concat (h : Run metrics before w) (hstep : w.step a = some w') :
    refused (init metrics) (before ++ [a]) = refused (init metrics) before ++ refusedStep w a w' :=
  log_concat h hstep

theorem offers_concat (h : Run metrics before w) (hstep : w.step a = some w') :
    offers (init metrics) (before ++ [a]) = offers (init metrics) before ++ offersStep w a w' :=
  log_concat h hstep

theorem commands_run (h : Run metrics as w) : (attempted (init metrics) as).Perm
    (accepted (init metrics) as ++ (refused (init metrics) as).map Prod.snd) := by
  refine exec_history (fun as _ => (attempted (init metrics) as).Perm
    (accepted (init metrics) as ++ (refused (init metrics) as).map Prod.snd)) h (.refl _) ?_
  intro before w₁ a w₂ hbefore ih hstep
  have hattempted : attempted (init metrics) (before ++ [a]) =
      attempted (init metrics) before ++ (w₁.sends a).toList := log_concat hbefore hstep
  rw [hattempted, refused_concat hbefore hstep, accepted_append hbefore, List.map_append]
  refine (ih.append (sends_step (consistent_run hbefore) hstep)).trans ?_
  simp only [List.append_assoc]
  refine List.Perm.append_left _ ?_
  simp only [← List.append_assoc]
  exact List.Perm.append_right _ List.perm_append_comm

theorem copies_run (h : Run metrics as w) (c : ClientId) :
    (putInto c (init metrics) as).countP (fun x => x.1 = .coordinate) =
      (offers (init metrics) as).countP fun x => x = (c, .ok ()) := by
  refine exec_history (fun as _ => (putInto c (init metrics) as).countP (fun x => x.1 = .coordinate) =
    (offers (init metrics) as).countP fun x => x = (c, .ok ())) h rfl ?_
  intro before w₁ a w₂ hbefore ih hstep
  rw [putInto_concat hbefore hstep, offers_concat hbefore hstep, List.countP_append, List.countP_append, ih,
    copies_step (consistent_run hbefore) hstep]

theorem metrics_run (h : Run metrics as w) : w.rooms.metrics = { metrics with
    actorCmdDropsTotal := metrics.actorCmdDropsTotal +
      UInt64.ofNat ((refused (init metrics) as).countP fun x => (clientOf x.1).isSome)
    fanoutDropsTotal := metrics.fanoutDropsTotal +
      UInt64.ofNat ((offers (init metrics) as).countP fun x => x.2 = .error .full) } := by
  refine exec_history (fun as w => w.rooms.metrics = { metrics with
    actorCmdDropsTotal := metrics.actorCmdDropsTotal +
      UInt64.ofNat ((refused (init metrics) as).countP fun x => (clientOf x.1).isSome)
    fanoutDropsTotal := metrics.fanoutDropsTotal +
      UInt64.ofNat ((offers (init metrics) as).countP fun x => x.2 = .error .full) }) h ?_ ?_
  · simp [refused, offers, log, init]
  · intro before w₁ a w₂ hbefore ih hstep
    rw [counts_step (consistent_run hbefore) hstep, ih, refused_concat hbefore hstep,
      offers_concat hbefore hstep]
    simp only [List.countP_append, UInt64.ofNat_add, UInt64.add_assoc]

/-- What has become of the commands and the copies in a run, and what is counted of it. -/
structure Counted (metrics : Metrics) (as : List WorldAction) (w : World) : Prop where
  /-- a command is accepted or refused -/
  commands : (attempted (init metrics) as).Perm
    (accepted (init metrics) as ++ (refused (init metrics) as).map Prod.snd)
  copies : ∀ c, (putInto c (init metrics) as).countP (fun x => x.1 = .coordinate) =
    (offers (init metrics) as).countP fun x => x = (c, .ok ())
  metrics : w.rooms.metrics = { metrics with
    actorCmdDropsTotal := metrics.actorCmdDropsTotal +
      UInt64.ofNat ((refused (init metrics) as).countP fun x => (clientOf x.1).isSome)
    fanoutDropsTotal := metrics.fanoutDropsTotal +
      UInt64.ofNat ((offers (init metrics) as).countP fun x => x.2 = .error .full) }

/-- **Nothing is dropped without being counted**, in every run, and nothing else is counted: the two
counters are the numbers of the commands of connections that were refused and of the copies that found a
full queue. -/
theorem counted (metrics : Metrics) (as : List WorldAction) (w : World) (h : Run metrics as w) :
    Counted metrics as w :=
  ⟨commands_run h, copies_run h, metrics_run h⟩

/-- A client speaks while the channel is full, and another broadcast of the sink is refused before that. -/
def speakInVain : List WorldAction :=
  [.connect "a", .receive "a" (.text (.ok (.sendMessageTo "r" "hi")))] ++
    List.replicate 257 (.sinkBroadcast "r" (.invalidation [] 0)) ++ [.handle "a" 0]

theorem counted_speakInVain : ∃ w, Run {} speakInVain w ∧ Counted {} speakInVain w ∧
    w.rooms.metrics = { actorCmdDropsTotal := 1 } := by
  obtain ⟨w, hw⟩ : ∃ w, Run {} speakInVain w := Option.isSome_iff_exists.1 (by decide +kernel)
  have h := counted {} speakInVain w hw
  have hrefused : (refused (init {}) speakInVain).countP (fun x => (clientOf x.1).isSome) = 1 := by
    decide +kernel
  have hoffers : offers (init {}) speakInVain = [] := by decide +kernel
  refine ⟨w, hw, h, ?_⟩
  rw [h.metrics, hrefused, hoffers]
  rfl

end World
end MiniGraph
