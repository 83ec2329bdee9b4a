import MiniGraph.Counters
import MiniGraph.Isolation
import MiniGraph.Lib.Gaps
import MiniGraph.Responses

/-!
# Numbered messages

A producer numbers its messages to a document, and others listen to them. Each number is tried, accepted and
processed in order, so a listener who joins only once misses a number between two that it gets only if the
channel refused its command or the queue was full (`gaps_run`). The producer's frames and what the messages
mean are parameters here.
-/

namespace MiniGraph
open Lib

/-- The numbers of the broadcasts among `cmds`. -/
def numbers (number : ServerMessage → Option Nat) (cmds : List RoomCommand) : List Nat :=
  cmds.filterMap fun
    | .broadcast _ message => number message
    | _ => none

/-- How many of `cmds` are joins of `clientId`. -/
def joinsOf (clientId : ClientId) (cmds : List RoomCommand) : Nat :=
  cmds.countP fun
    | .join _ clientId' _ _ => clientId' = clientId
    | _ => false

/-- Whether `recv_task` has a message to handle. -/
def RecvTask.handles : RecvTask → Nat
  | .handling _ => 1
  | _ => 0

namespace Rooms
variable {s : Rooms} {room : DocumentId} {clientId : ClientId}

theorem fanout_result (h : s.OwnQueues) (hl : s.lists room clientId = true) (message : ServerMessage) :
    ∃ result, (clientId, result) ∈
        ((s.clients room).map Prod.fst).zip (s.fanout message (s.clients room)).1 ∧
      (result = .error .closed ↔ s.closed ⟨clientId⟩ = true) := by
  obtain ⟨tx, hmem⟩ := lists_iff.1 hl
  obtain rfl : tx = ⟨clientId⟩ := h room _ hmem
  obtain ⟨i, hi⟩ := List.getElem?_of_mem hmem
  let p := (runs (offer message) (s, []) ((s.clients room).take i)).2
  have hclosed : p.1.closed ⟨clientId⟩ = s.closed ⟨clientId⟩ :=
    congrFun (fanout_closed s message ((s.clients room).take i)) ⟨clientId⟩
  refine ⟨(offer message p (clientId, ⟨clientId⟩)).1, ?_, ?_⟩
  · refine List.mem_of_getElem? (i := i) ?_
    rw [List.getElem?_zip_eq_some]
    exact ⟨by rw [List.getElem?_map, hi]; rfl, by rw [fanout, runs_getElem?, hi]; rfl⟩
  · rw [← hclosed]
    unfold offer
    cases hsend : (p.1.queues ⟨clientId⟩).trySend message with
    | ok queue =>
      have hopen : p.1.closed ⟨clientId⟩ = false := (Mpsc.trySend_eq_ok.1 hsend).1
      simp [hopen]
    | error err =>
      cases err with
      | full =>
        have hopen : p.1.closed ⟨clientId⟩ = false := (Mpsc.trySend_eq_full.1 hsend).1
        simp [hopen]
      | closed =>
        have hclosed : p.1.closed ⟨clientId⟩ = true := Mpsc.trySend_eq_closed.1 hsend
        simp [hclosed]

end Rooms

namespace World
variable {number : ServerMessage → Option Nat} {w w' : World} {a : WorldAction} {as : List WorldAction}
  {c producer : ClientId} {d room : DocumentId} {message : ServerMessage} {metrics : Metrics} {k : Nat}
  {s s' : Session} {cmds : List RoomCommand}

/-- The frames of `producer` are its messages to `d`, of which the `i`-th has the number `i`. No other message
has a number. -/
structure Numbered (number : ServerMessage → Option Nat) (producer : ClientId) (d : DocumentId)
    (as : List WorldAction) : Prop where
  frames : ∀ i frame, (framesOf producer as)[i]? = some frame → ∃ text,
    frame = .text (.ok (.sendMessageTo d text)) ∧ ∀ now, number (.newMessage producer text now) = some i
  others : ∀ c ≠ producer, ∀ text now,
    (∃ msg, .receive c (.text (.ok msg)) ∈ as ∧ (msg = .sendMessage text ∨ ∃ d', msg = .sendMessageTo d' text)) →
      number (.newMessage c text now) = none
  sink : ∀ d message, .sinkBroadcast d message ∈ as → number message = none
  answers : ∀ c frame message, Answers c frame message → number message = none

namespace Numbered

theorem append_left {bs : List WorldAction} (h : Numbered number producer d (as ++ bs)) :
    Numbered number producer d as where
  frames i frame hi := by
    refine h.frames i frame ?_
    rw [framesOf, List.filterMap_append]
    exact List.getElem?_append_left (List.getElem?_eq_some_iff.1 hi).1 ▸ hi
  others c hc text now := by
    rintro ⟨msg, hmem, hmsg⟩
    exact h.others c hc text now ⟨msg, List.mem_append_left _ hmem, hmsg⟩
  sink d message hmem := h.sink d message (List.mem_append_left _ hmem)
  answers := h.answers

theorem mem_framesOf {frame : Frame} : frame ∈ framesOf c as ↔ .receive c frame ∈ as := by
  constructor
  · intro h
    obtain ⟨a, ha, hframe⟩ := List.mem_filterMap.1 h
    cases a with
    | receive c' frame' =>
      obtain ⟨rfl, rfl⟩ : c' = c ∧ frame' = frame := by simpa [frameOf] using hframe
      exact ha
    | _ => cases hframe
  · exact fun h => List.mem_filterMap.2 ⟨_, h, if_pos rfl⟩

theorem of_authentic (h : Numbered number producer d as) (hmessage : Authentic as room message)
    (hk : number message = some k) : room = d := by
  have hframe : ∀ msg, .receive producer (.text (.ok msg)) ∈ as → ∃ text, msg = .sendMessageTo d text := by
    intro msg hmem
    obtain ⟨i, hi⟩ := List.getElem?_of_mem (mem_framesOf.2 hmem)
    obtain ⟨text, hframe, -⟩ := h.frames i _ hi
    cases hframe
    exact ⟨text, rfl⟩
  cases hmessage with
  | sink _ sent =>
    rw [h.sink room message sent] at hk
    cases hk
  | direct sender text now received handled =>
    by_cases hsender : sender = producer
    · subst hsender
      obtain ⟨text', hmsg⟩ := hframe _ received
      cases hmsg
      rfl
    · rw [h.others sender hsender text now ⟨_, received, .inr ⟨room, rfl⟩⟩] at hk
      cases hk
  | room sender text now asked received handled =>
    by_cases hsender : sender = producer
    · subst hsender
      obtain ⟨text', hmsg⟩ := hframe _ received
      cases hmsg
    · rw [h.others sender hsender text now ⟨_, received, .inl rfl⟩] at hk
      cases hk

end Numbered

/-! ### The numbers that are tried -/

theorem sends_broadcast (h : w.sends a = some (.broadcast room message)) :
    a = .sinkBroadcast room message ∨ ∃ c now s msg text, a = .handle c now ∧ w.sessions c = some s ∧
      s.recvTask = .handling msg ∧ message = .newMessage c text now ∧
        (msg = .sendMessage text ∨ ∃ d, msg = .sendMessageTo d text) := by
  cases a with
  | handle c now =>
    right
    simp only [sends] at h
    cases hs : w.sessions c with
    | none => simp [hs] at h
    | some s =>
      have hid := w.clientId_eq c s hs
      simp only [hs] at h
      cases ht : s.recvTask with
      | handling msg =>
        simp only [ht] at h
        cases msg with
        | join d => cases h
        | sendMessage text =>
          obtain ⟨room', -, hcmd⟩ := Option.map_eq_some_iff.1 h
          cases hcmd
          exact ⟨c, now, s, _, text, rfl, hs, ht, by rw [hid], .inl rfl⟩
        | sendMessageTo d text =>
          cases Option.some.inj h
          exact ⟨c, now, s, _, text, rfl, hs, ht, by rw [hid], .inr ⟨_, rfl⟩⟩
      | _ => simp [ht] at h
  | leave c =>
    simp only [sends] at h
    cases hs : w.sessions c with
    | none => simp [hs] at h
    | some s => simp [hs] at h
  | sinkBroadcast room' message' =>
    cases Option.some.inj h
    exact .inl rfl
  | _ => cases h

theorem clientOf_of_number (hsourced : Sourced as w) (hn : Numbered number producer d (as ++ [a]))
    (h : w.sends a = some (.broadcast room message)) (hk : number message = some k) :
    clientOf a = some producer := by
  rcases sends_broadcast h with rfl | ⟨c, now, s, msg, text, rfl, hs, ht, rfl, hmsg⟩
  · rw [hn.sink room message (List.mem_append_right _ List.mem_cons_self)] at hk
    cases hk
  · refine congrArg some ?_
    by_contra hc
    have hreceived := List.mem_append_left [.handle c now] (hsourced.received hs ht)
    rw [hn.others c hc text now ⟨msg, hreceived, hmsg⟩] at hk
    cases hk

theorem numbers_sends (hsourced : Sourced as w) (hn : Numbered number producer d (as ++ [a]))
    (hc : clientOf a ≠ some producer) : numbers number (w.sends a).toList = [] := by
  cases hsend : w.sends a with
  | none => rfl
  | some cmd =>
    cases cmd with
    | broadcast room message =>
      cases hk : number message with
      | none => simp [numbers, hk]
      | some k => exact absurd (clientOf_of_number hsourced hn hsend hk) hc
    | _ => rfl

theorem receive_eq {msg : ClientMessage} (h : w.step (.receive c (.text (.ok msg))) = some w') :
    ∃ s, w.sessions c = some s ∧ s.recvTask = .awaitingFrame ∧
      w' = w.setSession { s with recvTask := .handling msg } := by
  simp only [step, clientOf, Option.bind_some] at h
  cases hs : w.sessions c with
  | none => simp [hs] at h
  | some s =>
    simp only [hs, sessionStep] at h
    cases ht : s.recvTask with
    | awaitingFrame =>
      simp only [ht, receiveFrame, Option.some.injEq] at h
      exact ⟨s, rfl, ht, h.symm⟩
    | _ => simp [ht] at h

theorem Moves.frame_cases (h : Moves w s a s' cmds) (hreceive : ∀ c frame, a ≠ .receive c frame)
    (hhandle : ∀ c now, a ≠ .handle c now) : s'.recvTask.frame = s.recvTask.frame ∨ s'.recvTask = .aborted ∨
      ∃ d, .text (.ok (.join d)) ∈ s.recvTask.frame := by
  cases h with
  | receive c msg => exact absurd rfl (hreceive _ _)
  | skip c frame => exact absurd rfl (hreceive _ _)
  | joinSent c now | joinRefused c now | sent c now | sendRefused c now | notInRoom c now =>
    exact absurd rfl (hhandle _ _)
  | acked c d k ht => exact .inl (by rw [ht]; rfl)
  | failed c d k outcome ht => exact .inr (.inr ⟨d, by rw [ht]; exact List.mem_singleton_self _⟩)
  | record c d ht => exact .inr (.inr ⟨d, by rw [ht]; exact List.mem_singleton_self _⟩)
  | recvEnds c ht => exact .inl (by rw [ht]; rfl)
  | cancel => exact .inr (.inl rfl)
  | _ => exact .inl rfl

theorem Moves.aborted (h : Moves w s a s' cmds) (ht : s.recvTask = .aborted) : s'.recvTask = .aborted := by
  cases h with
  | receive c msg ht' | joinSent c now d ht' | joinRefused c now d ht' | sent c now msg cmd ht'
  | sendRefused c now msg cmd ht' | notInRoom c now text ht' | acked c d k ht' | failed c d k outcome ht'
  | record c d ht' | recvEnds c ht' =>
    rw [ht] at ht'
    cases ht'
  | cancel => rfl
  | _ => exact ht

/-- The numbers that have been tried are those of the first frames, and one more may be at work. -/
structure Tried (number : ServerMessage → Option Nat) (producer : ClientId) (metrics : Metrics)
    (as : List WorldAction) (w : World) (n : Nat) : Prop where
  tried : numbers number (attempted (init metrics) as) = List.range n
  le : n ≤ (framesOf producer as).length
  frame : w.frameAt producer = (framesOf producer as).drop n ∨
    ∃ s, w.sessions producer = some s ∧ s.recvTask = .aborted

namespace Tried
variable {n : Nat} (h : Tried number producer metrics as w n) (hrun : Run metrics as w)
  (hstep : w.step a = some w') (hn : Numbered number producer d (as ++ [a]))
include h hrun hstep

theorem silent (hsends : numbers number (w.sends a).toList = []) (hframe : frameOf producer a = none)
    (hafter : w'.frameAt producer = (framesOf producer as).drop n ∨
      ∃ s, w'.sessions producer = some s ∧ s.recvTask = .aborted) :
    Tried number producer metrics (as ++ [a]) w' n := by
  have hframes : framesOf producer (as ++ [a]) = framesOf producer as := by
    rw [framesOf_concat, hframe]
    exact List.append_nil _
  have hattempted : attempted (init metrics) (as ++ [a]) =
      attempted (init metrics) as ++ (w.sends a).toList := log_concat hrun hstep
  refine ⟨?_, hframes ▸ h.le, hframes ▸ hafter⟩
  rw [hattempted, numbers, List.filterMap_append]
  refine (congrArg₂ _ h.tried hsends).trans (List.append_nil _)

include hn

theorem handle {now : UInt64} (ha : a = .handle producer now) :
    Tried number producer metrics (as ++ [a]) w' (n + 1) := by
  subst ha
  obtain ⟨s, s', cmds, hs, hs', moves, -⟩ := (step_effect hstep).moves rfl nofun nofun
  have ht : ∃ msg, s.recvTask = .handling msg ∧ (s'.recvTask.frame = [] ∨ ∃ d, msg = .join d) := by
    cases moves with
    | joinSent c now d ht => exact ⟨_, ht, .inr ⟨d, rfl⟩⟩
    | joinRefused c now d ht => exact ⟨_, ht, .inr ⟨d, rfl⟩⟩
    | sent c now msg cmd ht => exact ⟨msg, ht, .inl rfl⟩
    | sendRefused c now msg cmd ht => exact ⟨msg, ht, .inl rfl⟩
    | notInRoom c now text ht => exact ⟨_, ht, .inl rfl⟩
  obtain ⟨msg, ht, hdone⟩ := ht
  have hdrop : (framesOf producer as).drop n = [.text (.ok msg)] := by
    rcases h.frame with hframe | ⟨s₁, hs₁, haborted⟩
    · rw [← hframe, frameAt_of_some hs, ht]
      rfl
    · obtain rfl := Option.some.inj (hs.symm.trans hs₁)
      rw [ht] at haborted
      cases haborted
  have hget : (framesOf producer as)[n]? = some (.text (.ok msg)) := by
    rw [← Nat.add_zero n, ← List.getElem?_drop, hdrop]
    rfl
  obtain ⟨text, hmsg, hnumber⟩ := hn.append_left.frames n _ hget
  cases hmsg
  have hframes : framesOf producer (as ++ [.handle producer now]) = framesOf producer as := by
    rw [framesOf_concat]
    exact List.append_nil _
  have hlength : n + 1 = (framesOf producer as).length := by
    have hlength := congrArg List.length hdrop
    rw [List.length_drop, List.length_singleton] at hlength
    omega
  have hsends : w.sends (.handle producer now) = some (.broadcast d (.newMessage producer text now)) := by
    simp only [sends, hs, ht, Session.broadcastFor, w.clientId_eq producer s hs]
  have hattempted : attempted (init metrics) (as ++ [.handle producer now]) =
      attempted (init metrics) as ++ (w.sends (.handle producer now)).toList := log_concat hrun hstep
  refine ⟨?_, by rw [hframes, hlength], .inl ?_⟩
  · rw [hattempted, hsends, numbers, List.filterMap_append, List.range_succ]
    refine congrArg₂ _ h.tried ?_
    simp [hnumber]
  · rcases hdone with hdone | ⟨d', hjoin⟩
    · rw [frameAt_of_some hs', hdone, hframes, hlength, List.drop_length]
    · cases hjoin

theorem receive {frame : Frame} (ha : a = .receive producer frame) :
    Tried number producer metrics (as ++ [a]) w' n := by
  subst ha
  have hframes : framesOf producer (as ++ [.receive producer frame]) = framesOf producer as ++ [frame] := by
    rw [framesOf_concat, frameOf, if_pos rfl]
    rfl
  have hget : (framesOf producer (as ++ [.receive producer frame]))[(framesOf producer as).length]? =
      some frame := by
    rw [hframes, List.getElem?_concat_length]
  obtain ⟨text, rfl, -⟩ := hn.frames _ _ hget
  obtain ⟨s, hs, ht, rfl⟩ := receive_eq hstep
  have hempty : (framesOf producer as).drop n = [] := by
    rcases h.frame with hframe | ⟨s₁, hs₁, haborted⟩
    · rw [← hframe, frameAt_of_some hs, ht]
      rfl
    · obtain rfl := Option.some.inj (hs.symm.trans hs₁)
      rw [ht] at haborted
      cases haborted
  have hattempted : attempted (init metrics)
      (as ++ [.receive producer (.text (.ok (.sendMessageTo d text)))]) = attempted (init metrics) as :=
    (log_concat hrun hstep).trans (List.append_nil _)
  refine ⟨by rw [hattempted, h.tried], ?_, .inl ?_⟩
  · rw [hframes, List.length_append]
    exact h.le.trans (Nat.le_add_right _ _)
  · have hs' : (w.setSession { s with recvTask := .handling (.sendMessageTo d text) }).sessions producer =
        some { s with recvTask := .handling (.sendMessageTo d text) } := by
      rw [setSession_sessions, ← w.clientId_eq producer s hs, Function.update_self]
    rw [frameAt_of_some hs', hframes, List.drop_append_of_le_length h.le, hempty]
    rfl

theorem other (hc : clientOf a ≠ some producer) : Tried number producer metrics (as ++ [a]) w' n := by
  refine h.silent hrun hstep (numbers_sends (sourced_run hrun) hn hc) ?_ ?_
  · cases a with
    | receive c frame => exact if_neg fun heq => hc (congrArg some heq)
    | _ => rfl
  · have hsame : w'.sessions producer = w.sessions producer := by
      cases (step_effect hstep).stepped producer with
      | same sessions => exact sessions
      | connected action before after =>
        subst action
        exact absurd rfl hc
      | moved s s' cmds client before after moves => exact absurd client hc
    have := h.frame
    unfold frameAt at this ⊢
    rwa [hsame]

theorem between (hreceive : ∀ c frame, a ≠ .receive c frame) (hhandle : ∀ c now, a ≠ .handle c now)
    (hc : clientOf a = some producer) : Tried number producer metrics (as ++ [a]) w' n := by
  refine h.silent hrun hstep ?_ ?_ ?_
  · cases hsend : w.sends a with
    | none => rfl
    | some cmd =>
      cases cmd with
      | broadcast room message =>
        rcases sends_broadcast hsend with rfl | ⟨c, now, s, msg, text, rfl, -⟩
        · cases hc
        · exact absurd rfl (hhandle c now)
      | _ => rfl
  · cases a with
    | receive c frame => exact absurd rfl (hreceive c frame)
    | _ => rfl
  · cases (step_effect hstep).stepped producer with
    | same sessions =>
      have := h.frame
      unfold frameAt at this ⊢
      rwa [sessions]
    | connected action before after =>
      -- nothing has been received yet
      rcases h.frame with hframe | ⟨s, hs, -⟩
      · rw [← hframe, frameAt_of_some after]
        simp only [frameAt, before]
        exact .inl rfl
      · rw [before] at hs
        cases hs
    | moved s s' cmds client before after moves =>
      rcases h.frame with hframe | ⟨s₁, hs₁, haborted⟩
      · rcases moves.frame_cases hreceive hhandle with hsame | haborted | ⟨d', hjoin⟩
        · rw [frameAt_of_some after, hsame, ← frameAt_of_some before]
          exact .inl hframe
        · exact .inr ⟨s', after, haborted⟩
        · -- the producer sends messages only
          rw [← frameAt_of_some before, hframe] at hjoin
          obtain ⟨i, hi⟩ := List.getElem?_of_mem (List.mem_of_mem_drop hjoin)
          obtain ⟨text, hframe', -⟩ := hn.append_left.frames i _ hi
          cases hframe'
      · obtain rfl := Option.some.inj (before.symm.trans hs₁)
        exact .inr ⟨s', after, moves.aborted haborted⟩

theorem step : ∃ n', Tried number producer metrics (as ++ [a]) w' n' := by
  by_cases hc : clientOf a = some producer
  · by_cases hhandle : ∃ now, a = .handle producer now
    · obtain ⟨now, ha⟩ := hhandle
      exact ⟨n + 1, h.handle hrun hstep hn ha⟩
    by_cases hreceive : ∃ frame, a = .receive producer frame
    · obtain ⟨frame, ha⟩ := hreceive
      exact ⟨n, h.receive hrun hstep hn ha⟩
    refine ⟨n, h.between hrun hstep hn ?_ ?_ hc⟩
    · rintro c frame rfl
      exact hreceive ⟨frame, by rw [Option.some.inj hc]⟩
    · rintro c now rfl
      exact hhandle ⟨now, by rw [Option.some.inj hc]⟩
  · exact ⟨n, h.other hrun hstep hn hc⟩

end Tried

theorem tried_run (h : Run metrics as w) (hn : Numbered number producer d as) :
    ∃ n, Tried number producer metrics as w n := by
  refine exec_history (fun as w => Numbered number producer d as → ∃ n, Tried number producer metrics as w n) h
    (fun _ => ⟨0, rfl, Nat.le_refl _, .inl rfl⟩) (fun before w₁ a w₂ hbefore ih hstep hn => ?_) hn
  obtain ⟨n, hn'⟩ := ih hn.append_left
  exact hn'.step hbefore hstep hn

/-! ### The numbers that are accepted, and those that are not -/

theorem numbers_append (cmds cmds' : List RoomCommand) :
    numbers number (cmds ++ cmds') = numbers number cmds ++ numbers number cmds' := List.filterMap_append

theorem accepted_sublist (h : Run metrics as w) :
    (accepted (init metrics) as).Sublist (attempted (init metrics) as) := by
  refine exec_history (fun as _ => (accepted (init metrics) as).Sublist (attempted (init metrics) as))
    h .slnil ?_
  intro before w₁ a w₂ hbefore ih hstep
  have hattempted : attempted (init metrics) (before ++ [a]) =
      attempted (init metrics) before ++ (w₁.sends a).toList := log_concat hbefore hstep
  rw [accepted_append hbefore, hattempted]
  refine ih.append ?_
  by_cases haction : a = .coordinate
  · rw [accepted_takes hstep haction]
    exact List.nil_sublist _
  · rw [accepted_puts hstep haction (buffer_step (consistent_run hbefore) hstep haction), accepted,
      List.append_nil, unrefused]
    split_ifs
    · exact List.nil_sublist _
    · exact List.Sublist.refl _

theorem accepted_sorted (h : Run metrics as w) (hn : Numbered number producer d as) :
    (numbers number (accepted (init metrics) as)).Pairwise (· < ·) := by
  obtain ⟨n, htried⟩ := tried_run h hn
  have hsub := (accepted_sublist h).filterMap (f := fun
    | .broadcast _ message => number message
    | _ => none)
  have hrange := List.pairwise_lt_range (n := n)
  rw [← htried.tried] at hrange
  exact hrange.sublist hsub

theorem accepted_split (h : Run metrics as w) : accepted (init metrics) as =
    processedCommands (init metrics) as ++ w.commands.buffer := accepted_eq "" h

theorem accepted_or_refused (h : Run metrics as w) (hk : k ∈ numbers number (attempted (init metrics) as)) :
    k ∈ numbers number (accepted (init metrics) as) ∨
      k ∈ numbers number ((refused (init metrics) as).map Prod.snd) := by
  rw [← List.mem_append, ← numbers_append]
  exact ((commands_run h).filterMap _).subset hk

theorem refused_numbers (h : Run metrics as w) (hn : Numbered number producer d as) :
    (numbers number ((refused (init metrics) as).map Prod.snd)).length ≤
      (refused (init metrics) as).countP fun x => clientOf x.1 = some producer := by
  have hclient : ∀ x ∈ refused (init metrics) as, ∀ room message k, x.2 = .broadcast room message →
      number message = some k → clientOf x.1 = some producer := by
    rintro ⟨a', cmd⟩ hx room message k rfl hk
    obtain ⟨before, a, after, w₁, w₂, rfl, hbefore, hstep, hmem⟩ := mem_log hx
    unfold refusedStep at hmem
    split_ifs at hmem
    · obtain ⟨cmd, hcmd, heq⟩ := List.mem_map.1 hmem
      cases heq
      rw [List.append_cons] at hn
      exact clientOf_of_number (sourced_run hbefore) hn.append_left (Option.mem_toList.1 hcmd) hk
    · cases hmem
  rw [numbers, List.filterMap_map, List.length_filterMap_eq_countP]
  refine List.countP_mono_left fun x hx hsome => ?_
  obtain ⟨k, hk⟩ := Option.isSome_iff_exists.1 hsome
  rcases hcmd : x.2 with _ | _ | ⟨room, message⟩
  · simp [hcmd] at hk
  · simp [hcmd] at hk
  · simp only [Function.comp_apply, hcmd] at hk
    exact decide_eq_true (hclient x hx room message k hcmd hk)

/-! ### How often a listener joins -/

theorem joinsOf_append (cmds cmds' : List RoomCommand) :
    joinsOf c (cmds ++ cmds') = joinsOf c cmds + joinsOf c cmds' := List.countP_append

def handles (w : World) (c : ClientId) : Nat := ((w.sessions c).map fun s => s.recvTask.handles).getD 0

theorem handles_of_some (h : w.sessions c = some s) : w.handles c = s.recvTask.handles := by
  simp only [handles, h, Option.map_some, Option.getD_some]

theorem joinsOf_sends (c : ClientId) : joinsOf c (w.sends a).toList ≤ 1 ∧
    (joinsOf c (w.sends a).toList ≠ 0 → ∃ now, a = .handle c now) := by
  cases hsend : w.sends a with
  | none => exact ⟨Nat.zero_le _, fun hne => absurd rfl hne⟩
  | some cmd =>
    refine ⟨List.countP_le_length, fun hne => ?_⟩
    cases cmd with
    | join d c' tx k =>
      obtain rfl : c' = c := by
        by_contra hc
        simp [joinsOf, hc] at hne
      cases a with
      | handle c₀ now =>
        simp only [sends] at hsend
        cases hs : w.sessions c₀ with
        | none => simp [hs] at hsend
        | some s =>
          have hid := w.clientId_eq c₀ s hs
          simp only [hs] at hsend
          cases ht : s.recvTask with
          | handling msg =>
            cases msg with
            | join d' =>
              simp only [ht, Option.some.injEq, RoomCommand.join.injEq] at hsend
              exact ⟨now, by rw [← hid, hsend.2.1]⟩
            | _ => simp [ht, Session.broadcastFor] at hsend
          | _ => simp [ht] at hsend
      | leave c₀ =>
        simp only [sends] at hsend
        cases hs : w.sessions c₀ with
        | none => simp [hs] at hsend
        | some s => simp [hs] at hsend
      | sinkBroadcast => cases hsend
      | _ => cases hsend
    | _ => simp [joinsOf] at hne

theorem Moves.handles (h : Moves w s a s' cmds) (hc : clientOf a = some c) :
    s'.recvTask.handles + joinsOf c (w.sends a).toList ≤ s.recvTask.handles + (frameOf c a).toList.length := by
  have hsends := joinsOf_sends (w := w) (a := a) c
  have hnone : (∀ c now, a ≠ .handle c now) → joinsOf c (w.sends a).toList = 0 := by
    intro hne
    by_contra hjoins
    obtain ⟨now, ha⟩ := hsends.2 hjoins
    exact hne c now ha
  cases h with
  | receive c' msg =>
    obtain rfl := Option.some.inj hc
    rw [hnone (by rintro _ _ ⟨⟩)]
    simp [RecvTask.handles, frameOf]
  | joinSent c' now d ht | joinRefused c' now d ht | sent c' now msg cmd ht | sendRefused c' now msg cmd ht
  | notInRoom c' now text ht =>
    have hle := hsends.1
    rw [ht]
    simp only [RecvTask.handles]
    omega
  | skip | drain | teardown | leaveSent | leaveRefused | leaveNothing =>
    rw [hnone (by rintro _ _ ⟨⟩)]
    exact Nat.le_add_right _ _
  | _ =>
    rw [hnone (by rintro _ _ ⟨⟩)]
    exact Nat.zero_le _

theorem joins_run (h : Run metrics as w) (c : ClientId) :
    w.handles c + joinsOf c (attempted (init metrics) as) ≤ (framesOf c as).length := by
  refine exec_history
    (fun as w => w.handles c + joinsOf c (attempted (init metrics) as) ≤ (framesOf c as).length) h
    (Nat.le_refl _) ?_
  intro before w₁ a w₂ hbefore ih hstep
  have hattempted : attempted (init metrics) (before ++ [a]) =
      attempted (init metrics) before ++ (w₁.sends a).toList := log_concat hbefore hstep
  rw [hattempted, joinsOf_append, framesOf_concat, List.length_append]
  have hhandle : joinsOf c (w₁.sends a).toList = 0 ∨ ∃ now, a = .handle c now :=
    or_iff_not_imp_left.2 (joinsOf_sends c).2
  cases (step_effect hstep).stepped c with
  | same sessions =>
    have hsame : w₂.handles c = w₁.handles c := by rw [handles, sessions, handles]
    rcases hhandle with hnone | ⟨now, rfl⟩
    · omega
    · obtain ⟨s, s', cmds, hs, hs', moves, -⟩ := (step_effect hstep).moves (c := c) rfl nofun nofun
      have hstep' := moves.handles rfl
      rw [handles_of_some hs] at ih
      rw [handles_of_some hs']
      omega
  | connected action before' after =>
    have hnew : w₂.handles c = 0 := by
      rw [handles_of_some after]
      rfl
    rcases hhandle with hnone | ⟨now, rfl⟩
    · omega
    · cases action
  | moved s s' cmds client before' after moves =>
    have hstep' := moves.handles client
    rw [handles_of_some before'] at ih
    rw [handles_of_some after]
    omega

/-! ### What a step processes -/

theorem processed_other (h : Run metrics as w) (hstep : w.step a = some w') (haction : a ≠ .coordinate) :
    processedCommands (init metrics) (as ++ [a]) = processedCommands (init metrics) as := by
  have hafter := accepted_split (exec_concat_eq_some.2 ⟨w, h, hstep⟩)
  have hbuffer := buffer_step (consistent_run h) hstep haction
  rw [accepted_append h, accepted_puts hstep haction hbuffer, accepted_split h, accepted, List.append_nil,
    List.append_assoc, ← hbuffer] at hafter
  exact (List.append_cancel_right hafter).symm

theorem processed_coordinate (h : Run metrics as w) (hstep : w.step .coordinate = some w') {cmd : RoomCommand}
    (hbuffer : w.commands.buffer = cmd :: w'.commands.buffer) :
    processedCommands (init metrics) (as ++ [.coordinate]) = processedCommands (init metrics) as ++ [cmd] := by
  have hafter := accepted_split (exec_concat_eq_some.2 ⟨w, h, hstep⟩)
  rw [accepted_append h, accepted_takes hstep rfl, accepted_split h, accepted, List.append_nil, hbuffer,
    List.append_cons] at hafter
  exact (List.append_cancel_right hafter).symm

theorem count_apply (closed : Sender → Bool) (room : DocumentId) (clients : List (ClientId × Sender))
    (cmd : RoomCommand) : ((cmd.apply closed room clients).map Prod.fst).count c ≤
      (clients.map Prod.fst).count c + joinsOf c [cmd] := by
  cases cmd with
  | join room' clientId tx respondTo =>
    simp only [RoomCommand.apply]
    split_ifs
    · rw [List.map_append, List.count_append]
      refine Nat.add_le_add_left ?_ _
      simp only [joinsOf, List.map_cons, List.map_nil, List.count_singleton, List.countP_singleton, beq_iff_eq,
        decide_eq_true_eq]
      split_ifs <;> simp_all
    · exact Nat.le_add_right _ _
  | leave room' clientId =>
    simp only [RoomCommand.apply]
    split_ifs
    · exact ((List.filter_sublist.map Prod.fst).count_le c).trans (Nat.le_add_right _ _)
    · exact Nat.le_add_right _ _
  | broadcast room' message =>
    simp only [RoomCommand.apply]
    split_ifs
    · exact ((List.filter_sublist.map Prod.fst).count_le c).trans (Nat.le_add_right _ _)
    · exact Nat.le_add_right _ _

/-- A client has no more entries in a room than joins of it have been processed. -/
theorem entries_run (h : Run metrics as w) (d : DocumentId) (c : ClientId) :
    ((w.rooms.clients d).map Prod.fst).count c ≤ joinsOf c (processedCommands (init metrics) as) := by
  refine exec_history (fun as w => ((w.rooms.clients d).map Prod.fst).count c ≤
    joinsOf c (processedCommands (init metrics) as)) h ?_ ?_
  · have hnone : (init metrics).rooms.clients d = [] := Rooms.clients_eq_nil (Finmap.lookup_empty d)
    rw [hnone]
    exact Nat.zero_le _
  · intro before w₁ a w₂ hbefore ih hstep
    cases (step_effect hstep).channel with
    | takes cmd action buffer rooms =>
      subst action
      rw [processed_coordinate hbefore hstep buffer, rooms, Rooms.clients_process, joinsOf_append]
      exact (count_apply _ _ _ cmd).trans (Nat.add_le_add_right ih _)
    | puts cmds action buffer rooms =>
      rw [processed_other hbefore hstep action]
      rwa [Rooms.clients_congr rooms]

theorem offersStep_broadcast (hbuffer : w.commands.buffer = .broadcast d message :: w'.commands.buffer) :
    offersStep w .coordinate w' =
      ((w.rooms.clients d).map Prod.fst).zip (w.rooms.fanout message (w.rooms.clients d)).1 := by
  simp only [offersStep, hbuffer]

theorem offer_result (h : Run metrics as w)
    (hbuffer : w.commands.buffer = .broadcast d message :: w'.commands.buffer)
    (hl : w.rooms.lists d c = true) : ∃ result, (c, result) ∈ offersStep w .coordinate w' ∧
      (result = .error .closed ↔ w.rooms.closed ⟨c⟩ = true) := by
  rw [offersStep_broadcast hbuffer]
  exact Rooms.fanout_result (consistent_run h).entries hl message

/-- What becomes of a broadcast for a client with a single entry in the room: it gets it, its queue is full, or
it is found closed. -/
theorem offered_once (h : Run metrics as w) (hstep : w.step .coordinate = some w')
    (hbuffer : w.commands.buffer = .broadcast d message :: w'.commands.buffer)
    (hl : w.rooms.lists d c = true) (hone : ((w.rooms.clients d).map Prod.fst).count c ≤ 1) :
    w'.rooms.lists d c = true ∧ putStep c w .coordinate w' = [(.coordinate, message)] ∨
      w'.rooms.lists d c = true ∧ putStep c w .coordinate w' = [] ∧
        1 ≤ (offersStep w .coordinate w').countP (fun x => x = (c, .error .full)) ∨
      w'.rooms.lists d c = false ∧ putStep c w .coordinate w' = [] := by
  have hcons := consistent_run h
  obtain ⟨result, hmem, hclosed⟩ := offer_result h hbuffer hl
  have hoffers := offersStep_broadcast hbuffer
  have hsingle : (offersStep w .coordinate w').countP (fun x => x.1 = c) ≤ 1 := by
    have hlength : ((w.rooms.clients d).map Prod.fst).length ≤
        (w.rooms.fanout message (w.rooms.clients d)).1.length := by
      rw [Rooms.fanout, length_runs, List.length_map]
    have hcount := List.countP_map (p := fun c' => decide (c' = c)) (f := Prod.fst)
      (l := offersStep w .coordinate w')
    rw [hoffers, List.map_fst_zip hlength] at hcount
    rw [hoffers]
    refine hcount.symm.le.trans (le_trans (le_of_eq ?_) hone)
    exact List.countP_congr fun c' _ => by simp
  have hput : putStep c w .coordinate w' =
      List.replicate ((offersStep w .coordinate w').countP fun x => x = (c, .ok ()))
        (.coordinate, message) := by
    rw [← copies_step hcons hstep c]
    cases step_logged hcons hstep c with
    | quiet put => rw [put]; rfl
    | lost action put => rw [put]; rfl
    | sent message put => rw [put]; rfl
    | answered s message client => cases client
    | offered room message' n action head listed isOpen put =>
      rw [hbuffer] at head
      cases (List.cons.inj head).1
      rw [put, List.countP_replicate]
      simp
  have hlists : w'.rooms.lists d c = !w.rooms.closed ⟨c⟩ := by
    cases step_effect hstep with
    | session c' _ s s' cmds _ client => cases client
    | coordinate cmd _ buffer closed rooms =>
      rw [hbuffer] at buffer
      cases (List.cons.inj buffer).1
      rw [rooms]
      exact Rooms.lists_broadcast hcons.entries hl
  have hcount := countP_of_single hmem hsingle
  rw [hput, hlists, hcount]
  rcases result with err | _
  · cases err with
    | full =>
      have hopen : w.rooms.closed ⟨c⟩ = false := Bool.eq_false_iff.2 fun hc => by cases hclosed.2 hc
      exact .inr (.inl ⟨by rw [hopen]; rfl, rfl, by rw [hcount]; exact Nat.le_refl 1⟩)
    | closed => exact .inr (.inr ⟨by rw [hclosed.1 rfl]; rfl, rfl⟩)
  · have hopen : w.rooms.closed ⟨c⟩ = false := Bool.eq_false_iff.2 fun hc => by cases hclosed.2 hc
    exact .inl ⟨by rw [hopen]; rfl, rfl⟩

/-! ### Listening -/

/-- The numbers that are put into the queue of `c`. -/
def numbersInto (number : ServerMessage → Option Nat) (c : ClientId) (w : World) (as : List WorldAction) :
    List Nat := (putInto c w as).filterMap fun x => number x.2

/-- `c` listens to the numbers that are processed, while it is in the room. -/
structure Listens (number : ServerMessage → Option Nat) (d : DocumentId) (c : ClientId) (metrics : Metrics)
    (as : List WorldAction) (w : World) : Prop where
  joined : numbersInto number c (init metrics) as ≠ [] → 1 ≤ joinsOf c (processedCommands (init metrics) as)
  heard : ∃ lost, lost.length ≤ ((offers (init metrics) as).countP fun x => x = (c, .error .full)) ∧
    Heard (numbers number (processedCommands (init metrics) as)) (w.rooms.lists d c)
      (numbersInto number c (init metrics) as) lost

theorem numbersInto_concat (number : ServerMessage → Option Nat) (c : ClientId) (h : Run metrics as w)
    (hstep : w.step a = some w') :
    numbersInto number c (init metrics) (as ++ [a]) = numbersInto number c (init metrics) as ++
      (putStep c w a w').filterMap fun x => number x.2 := by
  rw [numbersInto, putInto_concat h hstep, List.filterMap_append]
  rfl

theorem put_head (h : Run metrics as w) (hstep : w.step .coordinate = some w') {cmd : RoomCommand}
    (hbuffer : w.commands.buffer = cmd :: w'.commands.buffer) {x : WorldAction × ServerMessage}
    (hx : x ∈ putStep c w .coordinate w') : ∃ room, cmd = .broadcast room x.2 := by
  cases step_logged (consistent_run h) hstep c with
  | quiet put => simp [put] at hx
  | lost action put => simp [put] at hx
  | sent message put => simp [put] at hx
  | answered s message client => cases client
  | offered room message n action head listed isOpen put =>
    rw [put] at hx
    rw [hbuffer] at head
    obtain rfl := List.eq_of_mem_replicate hx
    exact ⟨room, (List.cons.inj head).1⟩

theorem processed_broadcast (h : Run metrics as w) (hstep : w.step .coordinate = some w')
    (hbuffer : w.commands.buffer = .broadcast d message :: w'.commands.buffer) (hk : number message = some k)
    (c : ClientId) :
    numbers number (processedCommands (init metrics) (as ++ [.coordinate])) =
        numbers number (processedCommands (init metrics) as) ++ [k] ∧
      joinsOf c (processedCommands (init metrics) (as ++ [.coordinate])) =
        joinsOf c (processedCommands (init metrics) as) := by
  rw [processed_coordinate h hstep hbuffer, numbers_append, joinsOf_append]
  refine ⟨?_, rfl⟩
  simp [numbers, hk]

theorem joins_processed (h : Run metrics as w) (c : ClientId) :
    joinsOf c (processedCommands (init metrics) as) ≤ (framesOf c as).length := by
  have haccepted : joinsOf c (accepted (init metrics) as) ≤ joinsOf c (attempted (init metrics) as) :=
    (accepted_sublist h).countP_le
  have hattempted := joins_run h c
  have hprocessed : joinsOf c (processedCommands (init metrics) as) ≤
      joinsOf c (accepted (init metrics) as) := by
    rw [accepted_split h, joinsOf_append]
    exact Nat.le_add_right _ _
  omega

namespace Listens
variable (h : Listens number d c metrics as w) (hrun : Run metrics as w) (hstep : w.step a = some w')
  (hn : Numbered number producer d as)
include h hrun hstep

theorem silent (hprocessed : numbers number (processedCommands (init metrics) (as ++ [a])) =
      numbers number (processedCommands (init metrics) as))
    (hjoins : joinsOf c (processedCommands (init metrics) as) ≤
      joinsOf c (processedCommands (init metrics) (as ++ [a])))
    (hput : (putStep c w a w').filterMap (fun x => number x.2) = [])
    (hlists : w'.rooms.lists d c = w.rooms.lists d c ∨ w'.rooms.lists d c = false ∨
      numbersInto number c (init metrics) as = []) :
    Listens number d c metrics (as ++ [a]) w' := by
  obtain ⟨lost, hlost, hheard⟩ := h.heard
  have hnumbers := numbersInto_concat number c hrun hstep
  rw [hput, List.append_nil] at hnumbers
  refine ⟨fun hne => (h.joined (hnumbers ▸ hne)).trans hjoins, lost, ?_, ?_⟩
  · rw [offers_concat hrun hstep, List.countP_append]
    exact hlost.trans (Nat.le_add_right _ _)
  · rw [hnumbers, hprocessed]
    rcases hlists with hsame | hgone | hnone
    · rwa [hsame]
    · rw [hgone]
      exact .tuneOut _ _ _ _ hheard
    · rw [hnone] at hheard ⊢
      cases w'.rooms.lists d c with
      | true => exact .tuneIn _ _ _ hheard
      | false => exact .tuneOut _ _ _ _ hheard

theorem unlisted (ha : a = .coordinate)
    (hbuffer : w.commands.buffer = .broadcast d message :: w'.commands.buffer)
    (hk : number message = some k) (hl : w.rooms.lists d c = false) :
    Listens number d c metrics (as ++ [a]) w' := by
  subst ha
  obtain ⟨lost, hlost, hheard⟩ := h.heard
  have hcons := consistent_run hrun
  obtain ⟨hnumbers, hjoins⟩ := processed_broadcast hrun hstep hbuffer hk c
  have hinto := numbersInto_concat number c hrun hstep
  have hput : putStep c w .coordinate w' = [] := by
    cases step_logged hcons hstep c with
    | quiet put => exact put
    | lost action put => exact put
    | sent message put => exact put
    | answered s message client => cases client
    | offered room message n action head listed =>
      rw [hbuffer] at head
      cases (List.cons.inj head).1
      rw [hl] at listed
      cases listed
  have hlists : w'.rooms.lists d c = false := by
    cases step_effect hstep with
    | session c' _ s s' cmds _ client => cases client
    | coordinate cmd _ buffer closed rooms =>
      rw [hbuffer] at buffer
      cases (List.cons.inj buffer).1
      rw [rooms, Rooms.lists_process hcons.entries, hl]
      simp [RoomCommand.member]
  rw [hput, List.filterMap_nil, List.append_nil] at hinto
  refine ⟨fun hne => hjoins ▸ h.joined (hinto ▸ hne), lost, ?_, ?_⟩
  · rw [offers_concat hrun hstep, List.countP_append]
    exact hlost.trans (Nat.le_add_right _ _)
  · rw [hinto, hnumbers, hlists]
    rw [hl] at hheard
    exact .misses _ _ _ _ hheard

theorem listed (ha : a = .coordinate)
    (hbuffer : w.commands.buffer = .broadcast d message :: w'.commands.buffer)
    (hk : number message = some k) (hone : ((w.rooms.clients d).map Prod.fst).count c ≤ 1)
    (hl : w.rooms.lists d c = true) : Listens number d c metrics (as ++ [a]) w' := by
  subst ha
  obtain ⟨lost, hlost, hheard⟩ := h.heard
  obtain ⟨hnumbers, hjoins⟩ := processed_broadcast hrun hstep hbuffer hk c
  have hinto := numbersInto_concat number c hrun hstep
  have hoffers := offers_concat hrun hstep
  have hjoined : 1 ≤ joinsOf c (processedCommands (init metrics) as) := by
    have hmem : c ∈ (w.rooms.clients d).map Prod.fst := of_decide_eq_true hl
    exact (List.count_pos_iff.2 hmem).trans_le (entries_run hrun d c)
  rw [hl] at hheard
  rcases offered_once hrun hstep hbuffer hl hone with ⟨hstays, hput⟩ | ⟨hstays, hput, hfull⟩ | ⟨hgone, hput⟩
  · rw [hput] at hinto
    refine ⟨fun _ => hjoins ▸ hjoined, lost, ?_, ?_⟩
    · rw [hoffers, List.countP_append]
      exact hlost.trans (Nat.le_add_right _ _)
    · rw [hinto, hnumbers, hstays]
      simp only [List.filterMap_cons, List.filterMap_nil, hk]
      exact .gets _ _ _ _ hheard
  · rw [hput, List.filterMap_nil, List.append_nil] at hinto
    refine ⟨fun _ => hjoins ▸ hjoined, lost ++ [k], ?_, ?_⟩
    · rw [hoffers, List.countP_append, List.length_append]
      exact Nat.add_le_add hlost hfull
    · rw [hinto, hnumbers, hstays]
      exact .loses _ _ _ _ hheard
  · rw [hput, List.filterMap_nil, List.append_nil] at hinto
    refine ⟨fun _ => hjoins ▸ hjoined, lost, ?_, ?_⟩
    · rw [hoffers, List.countP_append]
      exact hlost.trans (Nat.le_add_right _ _)
    · rw [hinto, hnumbers, hgone]
      exact .misses _ _ _ _ (.tuneOut _ _ _ _ hheard)

theorem unnumbered (ha : a = .coordinate) {cmd : RoomCommand}
    (hbuffer : w.commands.buffer = cmd :: w'.commands.buffer)
    (hcmd : ∀ room message k, cmd = .broadcast room message → number message ≠ some k)
    (hlists : w'.rooms.lists d c = w.rooms.lists d c ∨ w'.rooms.lists d c = false ∨
      numbersInto number c (init metrics) as = []) :
    Listens number d c metrics (as ++ [a]) w' := by
  subst ha
  have hprocessed := processed_coordinate hrun hstep hbuffer
  refine h.silent hrun hstep ?_ ?_ ?_ hlists
  · rw [hprocessed, numbers_append]
    refine (congrArg _ ?_).trans (List.append_nil _)
    cases cmd with
    | broadcast room message =>
      cases hk : number message with
      | none => simp [numbers, hk]
      | some k => exact absurd hk (hcmd room message k rfl)
    | _ => rfl
  · rw [hprocessed, joinsOf_append]
    exact Nat.le_add_right _ _
  · refine List.filterMap_eq_nil_iff.2 fun x hx => ?_
    obtain ⟨room, hx⟩ := put_head hrun hstep hbuffer hx
    exact Option.eq_none_iff_forall_ne_some.2 fun k => hcmd room x.2 k hx

include hn

theorem other (haction : a ≠ .coordinate) : Listens number d c metrics (as ++ [a]) w' := by
  have hprocessed := processed_other hrun hstep haction
  refine h.silent hrun hstep (by rw [hprocessed]) (by rw [hprocessed]) ?_ (.inl ?_)
  · refine List.filterMap_eq_nil_iff.2 fun x hx => ?_
    obtain ⟨-, hmeant⟩ := meant_step hrun hstep hx
    cases hmeant with
    | answer frame client received answers => exact hn.answers c frame x.2 answers
    | broadcast d' action => exact absurd action haction
  · cases (step_effect hstep).channel with
    | takes cmd action => exact absurd action haction
    | puts cmds action buffer rooms => rw [lists_congr rooms]

theorem step (honce : (framesOf c (as ++ [a])).length ≤ 1) : Listens number d c metrics (as ++ [a]) w' := by
  by_cases haction : a = .coordinate
  · subst haction
    have hjoins := (joins_processed (exec_concat_eq_some.2 ⟨w, hrun, hstep⟩) c).trans honce
    cases step_effect hstep with
    | session c' _ s s' cmds _ client => cases client
    | coordinate cmd _ buffer closed rooms =>
      have hprocessed := processed_coordinate hrun hstep buffer
      have hlists := Rooms.lists_process (consistent_run hrun).entries cmd d c
      rw [← rooms] at hlists
      rw [hprocessed, joinsOf_append] at hjoins
      cases cmd with
      | join room c' tx ack =>
        refine h.unnumbered hrun hstep rfl buffer nofun ?_
        by_cases hjoin : room = d ∧ c' = c
        · -- it is the first time that the listener joins
          refine .inr (.inr ?_)
          by_contra hne
          have hjoined := h.joined hne
          have hone : joinsOf c [.join room c' tx ack] = 1 := by simp [joinsOf, hjoin.2]
          omega
        · exact .inl (hlists.trans (if_neg hjoin))
      | leave room c' =>
        refine h.unnumbered hrun hstep rfl buffer nofun ?_
        by_cases hleave : room = d ∧ c' = c
        · exact .inr (.inl (hlists.trans (if_pos hleave)))
        · exact .inl (hlists.trans (if_neg hleave))
      | broadcast room message =>
        cases hk : number message with
        | some k =>
          have hmem : .broadcast room message ∈ w.commands.buffer := by
            rw [buffer]
            exact List.mem_cons_self
          obtain rfl := hn.of_authentic ((sourced_run hrun).broadcasts room message hmem) hk
          cases hl : w.rooms.lists room c with
          | false => exact h.unlisted hrun hstep rfl buffer hk hl
          | true =>
            have hentries := entries_run hrun room c
            exact h.listed hrun hstep rfl buffer hk (by omega) hl
        | none =>
          refine h.unnumbered hrun hstep rfl buffer ?_ ?_
          · rintro room' message' k' heq hk'
            cases heq
            rw [hk] at hk'
            cases hk'
          · by_cases hclosed : room = d ∧ w.rooms.closed ⟨c⟩ = true
            · exact .inr (.inl (hlists.trans (if_pos hclosed)))
            · exact .inl (hlists.trans (if_neg hclosed))
  · exact h.other hrun hstep hn haction

end Listens

theorem listens_run (h : Run metrics as w) (hn : Numbered number producer d as)
    (honce : (framesOf c as).length ≤ 1) : Listens number d c metrics as w := by
  refine exec_history (fun as w => Numbered number producer d as → (framesOf c as).length ≤ 1 →
    Listens number d c metrics as w) h (fun _ _ => ?_)
    (fun before w₁ a w₂ hbefore ih hstep hn honce => ?_) hn honce
  · have hlists : (init metrics).rooms.lists d c = false := by
      have hnone : (init metrics).rooms.clients d = [] := Rooms.clients_eq_nil (Finmap.lookup_empty d)
      simp [Rooms.lists, hnone]
    refine ⟨fun hne => absurd rfl hne, [], Nat.zero_le _, ?_⟩
    rw [hlists]
    exact .start
  · have honce' : (framesOf c before).length ≤ 1 := by
      rw [framesOf_concat, List.length_append] at honce
      omega
    exact (ih hn.append_left honce').step hbefore hstep hn.append_left honce

/-- **Where the numbers in the gaps have gone**: of the numbers that are put into the queue of a listener who
joins once, any piece is increasing, and leaves out no more than the channel refused of the producer's commands
and the queue of copies. -/
theorem gaps_run (h : Run metrics as w) (hn : Numbered number producer d as)
    (honce : (framesOf c as).length ≤ 1) {piece : List Nat}
    (hpiece : piece <:+: numbersInto number c (init metrics) as) : piece.Pairwise (· < ·) ∧
      (∀ k ∈ piece, k < (framesOf producer as).length) ∧
      gaps piece ≤ ((refused (init metrics) as).countP fun x => clientOf x.1 = some producer) +
        (offers (init metrics) as).countP fun x => x = (c, .error .full) := by
  obtain ⟨lost, hlost, hheard⟩ := (listens_run h hn honce).heard
  obtain ⟨n, htried⟩ := tried_run h hn
  have haccepted := accepted_sorted h hn
  have hprocessed := congrArg (numbers number) (accepted_split h)
  rw [numbers_append] at hprocessed
  rw [hprocessed] at haccepted
  have hsorted := (List.pairwise_append.1 haccepted).1
  have hinto := hsorted.sublist hheard.sublist
  have hlt : ∀ k ∈ numbersInto number c (init metrics) as, k < n := by
    intro k hk
    have hmem : k ∈ numbers number (accepted (init metrics) as) := by
      rw [hprocessed]
      exact List.mem_append_left _ (hheard.sublist.subset hk)
    have htried' : k ∈ numbers number (attempted (init metrics) as) :=
      ((accepted_sublist h).filterMap _).subset hmem
    rw [htried.tried] at htried'
    exact List.mem_range.1 htried'
  refine ⟨hinto.sublist hpiece.sublist, fun k hk => (hlt k (hpiece.subset hk)).trans_le htried.le, ?_⟩
  have hgone : ∀ x ∈ piece, ∀ y ∈ piece, ∀ k, x < k → k < y →
      k ∈ piece ∨ k ∈ numbers number ((refused (init metrics) as).map Prod.snd) ++ lost := by
    intro x hx y hy k hxk hky
    have hy' := hpiece.subset hy
    have htried' : k ∈ numbers number (attempted (init metrics) as) := by
      rw [htried.tried]
      exact List.mem_range.2 (hky.trans (hlt y hy'))
    rcases accepted_or_refused h htried' with hk | hk
    · rw [hprocessed] at hk
      rcases List.mem_append.1 hk with hk | hk
      · rcases hheard.between hsorted (hpiece.subset hx) hy' hk hxk hky with hk | hk
        · exact .inl (mem_piece_of_lt hpiece hinto hx hy hk hxk hky)
        · exact .inr (List.mem_append_right _ hk)
      · -- what is still in the channel comes after what has been processed
        have hafter := (List.pairwise_append.1 haccepted).2.2 y (hheard.sublist.subset hy') k hk
        omega
    · exact .inr (List.mem_append_left _ hk)
  have hgaps := gaps_le_length (hinto.sublist hpiece.sublist) hgone
  rw [List.length_append] at hgaps
  exact hgaps.trans (Nat.add_le_add (refused_numbers h hn) hlost)

/-! ### Before a client has connected -/

theorem refused_absent (habsent : ∀ a ∈ as, clientOf a ≠ some c) :
    ((refused w as).countP fun x => clientOf x.1 = some c) = 0 := by
  rw [List.countP_eq_zero]
  intro x hx
  obtain ⟨before, a, after, w₁, w₂, rfl, -, -, hmem⟩ := mem_log hx
  unfold refusedStep at hmem
  split_ifs at hmem
  · obtain ⟨cmd, -, rfl⟩ := List.mem_map.1 hmem
    simpa using habsent a (List.mem_append_right _ List.mem_cons_self)
  · cases hmem

theorem offers_absent (habsent : ∀ a ∈ as, clientOf a ≠ some c) (result : Except TrySendError Unit) :
    ((offers (init metrics) as).countP fun x => x = (c, result)) = 0 := by
  rw [List.countP_eq_zero]
  intro x hx hc
  obtain rfl := of_decide_eq_true hc
  obtain ⟨before, a, after, w₁, w₂, rfl, hbefore, -, hmem⟩ := mem_log hx
  unfold offersStep at hmem
  split at hmem
  · rename_i room message rest hbuffer
    -- who is offered a message has asked to join
    have hlisted : w₁.rooms.lists room c = true := decide_eq_true (List.of_mem_zip hmem).1
    have hasked := (sourced_run hbefore).listed c room hlisted
    exact habsent _ (List.mem_append_left _ hasked) rfl
  · cases hmem

end World
end MiniGraph
