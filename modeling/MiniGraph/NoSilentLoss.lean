import MiniGraph.Disconnect
import MiniGraph.Tasks

/-!
# A joined client misses nothing silently

From the moment at which the channel accepts the join of a client, every broadcast to the room that it
accepts is offered to the client: when the coordinator comes to it the entry of the join is on the list, the
loop goes through the whole list, and at each entry the message is appended to the queue, or counted as
dropped, or the client is removed (`missesNothing`). What the other clients of the room do makes no
difference, and neither does what happens between the passes of the loop.
-/

namespace MiniGraph
open Lib

/-! ### A pass -/

namespace Pass
variable {p : Pass} {message : ServerMessage}

/-- What becomes of the message at an entry: exactly one of the three. -/
inductive Outcome (message : ServerMessage) (p : Pass) : Prop
  | appended (isOpen : p.isClosed = false)
      (queue : (p.after.queues p.client.2).buffer = (p.before.queues p.client.2).buffer ++ [message])
      (drops : p.after.metrics.fanoutDropsTotal = p.before.metrics.fanoutDropsTotal)
  | dropped (isOpen : p.isClosed = false)
      (full : (p.before.queues p.client.2).buffer.length = clientChannelCapacity)
      (queue : p.after.queues p.client.2 = p.before.queues p.client.2)
      (drops : p.after.metrics.fanoutDropsTotal = p.before.metrics.fanoutDropsTotal + 1)
  | closed (isClosed : p.isClosed = true) (queue : p.after.queues p.client.2 = p.before.queues p.client.2)
      (drops : p.after.metrics.fanoutDropsTotal = p.before.metrics.fanoutDropsTotal)

theorem Offers.outcome (h : p.Offers message) : p.Outcome message := by
  obtain ⟨client, before, after⟩ := p
  obtain ⟨failedClients, h⟩ := h
  obtain rfl : after = (Rooms.offer message (before, failedClients) client).2.1 := h
  cases htry : (before.queues client.2).trySend message with
  | ok queue =>
    obtain ⟨hopen, -, hbuffer, -⟩ := Mpsc.trySend_eq_ok.1 htry
    simp only [Rooms.offer, htry]
    refine .appended hopen ?_ rfl
    simp only [Function.update_self]
    exact hbuffer
  | error err =>
    cases err with
    | full =>
      obtain ⟨hopen, hfull⟩ := Mpsc.trySend_eq_full.1 htry
      simp only [Rooms.offer, htry]
      exact .dropped hopen hfull rfl rfl
    | closed =>
      simp only [Rooms.offer, htry]
      exact .closed (Mpsc.trySend_eq_closed.1 htry) rfl rfl

end Pass

/-! ### A broadcast -/

/-- A broadcast of `message` to `d` is offered to `c`, which has an entry with the queue `tx`. -/
structure Handling.Offered (d : DocumentId) (c : ClientId) (tx : Sender) (message : ServerMessage)
    (x : Handling) : Prop where
  cmd : x.cmd = .broadcast d message
  listed : (c, tx) ∈ x.start.clients d
  passes : x.passes.map Pass.client <+: x.start.clients d
  outcome : ∀ p ∈ x.passes, p.Outcome message
  /-- every entry has had its turn when the loop is over, -/
  complete : ∀ rooms, x.done = some rooms → x.passes.map Pass.client = x.start.clients d
  /-- and the client is removed if one of its queues was closed -/
  removed : ∀ rooms, x.done = some rooms →
    (rooms.lists d c = false ↔ ∃ p ∈ x.passes, p.client.1 = c ∧ p.isClosed = true)

namespace Coordinator.Recorded
variable {accepted pre mid post : List RoomCommand} {h before after : List Handling} {s : Coordinator}
  {d : DocumentId} {c : ClientId} {tx : Sender} {k : AckId} {message : ServerMessage} {x : Handling}

/-- A broadcast that was accepted after the join of `c`, with no leave of `c` in between, and no broadcast that
found its queue closed. -/
theorem offered (hr : Recorded accepted h s)
    (haccepted : accepted = pre ++ .join d c tx k :: (mid ++ .broadcast d message :: post))
    (hh : h = before ++ x :: after) (hlength : before.length = pre.length + 1 + mid.length)
    (hleave : .leave d c ∉ mid) (hclosed : ∀ y ∈ before.drop (pre.length + 1), y.findsClosed d c = false) :
    x.Offered d c tx message := by
  have hfifo : (pre ++ .join d c tx k :: mid) ++ .broadcast d message :: post =
      before.map Handling.cmd ++ x.cmd :: (after.map Handling.cmd ++ s.commands.buffer) := by
    have hfifo := hr.fifo
    rw [haccepted, hh] at hfifo
    simpa using hfifo
  have hlength' : (pre ++ .join d c tx k :: mid).length = (before.map Handling.cmd).length := by
    rw [List.length_map, hlength, List.length_append, List.length_cons]
    omega
  obtain ⟨hcmds, hrest⟩ := List.append_inj hfifo hlength'
  obtain ⟨hcmd, -⟩ := List.cons.inj hrest
  -- the record before the broadcast, cut at the join
  obtain ⟨before₁, before', rfl, rfl, hbefore'⟩ := List.map_eq_append_iff.1 hcmds.symm
  obtain ⟨j, before₂, rfl, hj, rfl⟩ := List.map_eq_cons_iff.1 hbefore'
  have hdrop : (before₁ ++ j :: before₂).drop ((before₁.map Handling.cmd).length + 1) = before₂ := by
    rw [List.length_map, ← List.drop_drop, List.drop_left]
    rfl
  rw [hdrop] at hclosed
  have hkept : ∀ y ∈ before₂, y.removes d c = false := by
    intro y hy
    have hne : y.cmd ≠ .leave d c := fun heq => hleave (heq ▸ List.mem_map_of_mem hy)
    simp [Handling.removes, hne, hclosed y hy]
  have hmember : (c, tx) ∈ members d (before₁ ++ j :: before₂) := mem_members hj hkept
  have hfollows := hr.each _ x after hh
  obtain ⟨hpasses, hoffers⟩ := hfollows.offered d message hcmd.symm
  refine ⟨hcmd.symm, ?_, hpasses, fun p hp => (hoffers p hp).outcome, ?_, ?_⟩
  · rw [hfollows.start]
    exact hmember
  · exact fun rooms hdone => hfollows.complete rooms d message hdone hcmd.symm
  · intro rooms hdone
    obtain ⟨cmd, start, passes, done⟩ := x
    obtain rfl := hcmd
    have hfound : Handling.removes d c ⟨.broadcast d message, start, passes, done⟩ = true ↔
        ∃ p ∈ passes, p.client.1 = c ∧ p.isClosed = true := Handling.removes_broadcast
    rw [← hfound, ← Bool.not_eq_true, Rooms.lists_iff]
    simp only [hfollows.done rooms hdone, members_concat, RoomCommand.joined, List.append_nil, List.mem_filter]
    constructor
    · intro hnone
      by_contra hkeep
      exact hnone ⟨tx, hmember, by simp [hkeep]⟩
    · rintro hremoves ⟨tx', -, hkeep⟩
      rw [hremoves] at hkeep
      cases hkeep

end Coordinator.Recorded

/-! ### Joins that are acknowledged -/

/-- The session waits for the join of `d`, is about to return from it, or has done so. -/
def Session.HasJoined (s : Session) (d : DocumentId) : Prop :=
  (∃ k, s.recvTask = .awaitingAck d k) ∨ s.recvTask = .recording d ∨ s.currentRoom = some d

namespace World
variable {w w' : World} {a : WorldAction} {c : ClientId} {d : DocumentId} {s s' : Session}

theorem Moves.hasJoined {cmds : List RoomCommand} (h : Moves w s a s' cmds)
    (hj : s'.HasJoined d) :
    s.HasJoined d ∨ ∃ k, .join d s.clientId s.tx k ∈ cmds := by
  unfold Session.HasJoined at hj ⊢
  cases h with
  | joinSent c now d' ht =>
    rcases hj with ⟨k, hk⟩ | hk | hroom
    · cases hk
      exact .inr ⟨_, List.mem_singleton_self _⟩
    · cases hk
    · exact .inl (.inr (.inr hroom))
  | acked c d' k ht =>
    rcases hj with ⟨k', hk⟩ | hk | hroom
    · cases hk
    · cases hk
      exact .inl (.inl ⟨k, ht⟩)
    · exact .inl (.inr (.inr hroom))
  | record c d' ht =>
    rcases hj with ⟨k, hk⟩ | hk | hroom
    · cases hk
    · cases hk
    · obtain rfl := Option.some.inj hroom
      exact .inl (.inr (.inl ht))
  | skip => exact .inl hj
  | drain => exact .inl hj
  | teardown => exact .inl hj
  | leaveSent => exact .inl hj
  | leaveRefused => exact .inl hj
  | leaveNothing => exact .inl hj
  | _ =>
    rcases hj with ⟨k, hk⟩ | hk | hroom
    · cases hk
    · cases hk
    · exact .inl (.inr (.inr hroom))

theorem last_join {cmds : List RoomCommand} (h : ∃ tx k, .join d c tx k ∈ cmds) :
    ∃ pre tx k mid, cmds = pre ++ .join d c tx k :: mid ∧ ∀ tx k, .join d c tx k ∉ mid := by
  induction cmds with
  | nil =>
    obtain ⟨tx, k, hmem⟩ := h
    cases hmem
  | cons cmd cmds ih =>
    by_cases hlater : ∃ tx k, .join d c tx k ∈ cmds
    · obtain ⟨pre, tx, k, mid, rfl, hlast⟩ := ih hlater
      exact ⟨cmd :: pre, tx, k, mid, rfl, hlast⟩
    · obtain ⟨tx, k, hmem⟩ := h
      rcases List.mem_cons.1 hmem with rfl | hmem
      · exact ⟨[], tx, k, cmds, rfl, fun tx k hmem => hlater ⟨tx, k, hmem⟩⟩
      · exact absurd ⟨tx, k, hmem⟩ hlater

end World

namespace Tasks
variable {t t' : Tasks} {metrics : Metrics} {as : List WorldAction} {c : ClientId} {d : DocumentId}
  {s s' : Session}

theorem join_accepted (h : Run metrics as t) (hs : t.world.sessions c = some s) (hj : s.HasJoined d) :
    ∃ tx k, .join d c tx k ∈ accepted (init metrics) as := by
  revert s
  refine exec_history (fun as (t : Tasks) => ∀ {s}, t.world.sessions c = some s → s.HasJoined d →
    ∃ tx k, .join d c tx k ∈ accepted (init metrics) as) h ?_ ?_
  · intro s hs
    cases hs
  · intro as t a t' hbefore ih hstep s' hs' hj
    rw [accepted_concat hbefore hstep]
    have hearlier : (∃ s, t.world.sessions c = some s ∧ s.HasJoined d) → ∃ tx k, .join d c tx k ∈
        accepted (init metrics) as ++ acceptedStep t a t' := by
      rintro ⟨s, hs, hj⟩
      obtain ⟨tx, k, hmem⟩ := ih hs hj
      exact ⟨tx, k, List.mem_append_left _ hmem⟩
    rcases step_cases hstep with ⟨rfl, rfl⟩ | ⟨ha, hworld, -⟩
    · exact hearlier ⟨s', hs', hj⟩
    · cases (World.step_effect hworld).stepped c with
      | same sessions => exact hearlier ⟨s', sessions ▸ hs', hj⟩
      | connected action before after =>
        obtain rfl := Option.some.inj (after.symm.trans hs')
        rcases hj with ⟨k, hk⟩ | hk | hroom
        · cases hk
        · cases hk
        · cases hroom
      | moved s s₂ cmds client before after moves moved =>
        obtain rfl := Option.some.inj (after.symm.trans hs')
        rcases moves.hasJoined hj with hjoined | ⟨k, hmem⟩
        · exact hearlier ⟨s, before, hjoined⟩
        · refine ⟨s.tx, k, List.mem_append_right _ ?_⟩
          rw [acceptedStep_eq ha moved.buffer]
          rwa [t.world.clientId_eq c s before] at hmem

theorem leave_accepted (h : Run metrics as t) (hmem : .leave d c ∈ accepted (init metrics) as) :
    t.world.Ended c := by
  refine exec_history (fun as (t : Tasks) => .leave d c ∈ accepted (init metrics) as → t.world.Ended c) h
    nofun ?_ hmem
  intro as t a t' hbefore ih hstep hmem
  rw [accepted_concat hbefore hstep] at hmem
  rcases step_cases hstep with ⟨rfl, rfl⟩ | ⟨ha, hworld, -⟩
  · rw [acceptedStep, if_pos rfl, List.append_nil] at hmem
    exact ih hmem
  · rcases List.mem_append.1 hmem with hmem | hmem
    · exact (ih hmem).step hworld
    · cases (World.step_effect hworld).channel with
      | takes cmd action => exact absurd action ha
      | puts cmds action buffer rooms acked sent =>
        rw [acceptedStep_eq ha buffer] at hmem
        obtain ⟨-, s, s', -, hs', -, hended⟩ := sent.leave d c hmem
        exact ⟨s', hs', hended⟩

theorem accepted_sendMessage {text : String} {now : UInt64} (hs : t.world.sessions c = some s)
    (ht : s.recvTask = .handling (.sendMessage text)) (hroom : s.currentRoom = some d)
    (haccepted : t.world.refuses (.handle c now) = false) (hstep : t.step (.handle c now) = some t') :
    accepted t [.handle c now] = [.broadcast d (.newMessage c text now)] := by
  obtain ⟨-, hworld, -⟩ := (step_cases hstep).resolve_left nofun
  obtain ⟨s₀, s', cmds, hs₀, hs', moves, moved⟩ := (World.step_effect hworld).moves rfl nofun nofun
  obtain rfl := Option.some.inj (hs.symm.trans hs₀)
  have haccepted' : accepted t [.handle c now] = cmds := by
    rw [accepted, log_cons hstep, acceptedStep_eq WorldAction.noConfusion moved.buffer]
    exact List.append_nil _
  rw [haccepted']
  cases moves with
  | joinSent _ _ d' ht' => rw [ht] at ht'; cases ht'
  | joinRefused _ _ d' ht' => rw [ht] at ht'; cases ht'
  | sent _ _ msg cmd ht' hcmd =>
    rw [ht] at ht'
    cases ht'
    simp only [Session.broadcastFor, hroom, Option.map_some, Option.some.injEq,
      t.world.clientId_eq c s hs] at hcmd
    rw [← hcmd]
  | sendRefused _ _ msg cmd ht' hcmd hrefused =>
    rw [haccepted] at hrefused
    cases hrefused
  | notInRoom _ _ text' ht' hnone =>
    rw [hroom] at hnone
    cases hnone

/-! ### Nothing is missed -/

/-- What a run promises to a client `c` of the room `d`. -/
structure MissesNothing (metrics : Metrics) (as : List WorldAction) (t : Tasks) (c : ClientId)
    (d : DocumentId) : Prop where
  /-- the coordinator has come to the commands in the order in which they were accepted -/
  fifo : accepted (init metrics) as = (history metrics as).map Handling.cmd ++ t.world.commands.buffer
  /-- a broadcast that was accepted after a join of `c`, when the coordinator has come to it -/
  offered : ∀ pre tx k mid message post before x after,
    accepted (init metrics) as = pre ++ .join d c tx k :: (mid ++ .broadcast d message :: post) →
    history metrics as = before ++ x :: after → before.length = pre.length + 1 + mid.length →
    .leave d c ∉ mid → (∀ y ∈ before.drop (pre.length + 1), y.findsClosed d c = false) →
    x.Offered d c tx message
  /-- a broadcast that was accepted once `handle_client_message` was about to return `Ok`, or later -/
  afterOk : ∀ first rest v s, as = first ++ rest → Run metrics first v → v.world.sessions c = some s →
    s.recvTask = .recording d ∨ s.currentRoom = some d →
    ∃ pre tx k mid, accepted (init metrics) first = pre ++ .join d c tx k :: mid ∧
      (∀ tx k, .join d c tx k ∉ mid) ∧ ∀ mid' message post before x after,
        accepted v rest = mid' ++ .broadcast d message :: post → history metrics as = before ++ x :: after →
        before.length = pre.length + 1 + (mid ++ mid').length → .leave d c ∉ mid ++ mid' →
        (∀ y ∈ before.drop (pre.length + 1), y.findsClosed d c = false) → x.Offered d c tx message
  /-- as long as the connection has not ended there is no leave -/
  connected : ¬ t.world.Ended c → ∀ d, .leave d c ∉ accepted (init metrics) as
  /-- the client's own message is one of them -/
  own : ∀ s text now t', t.world.sessions c = some s → s.recvTask = .handling (.sendMessage text) →
    s.currentRoom = some d → t.world.refuses (.handle c now) = false → t.step (.handle c now) = some t' →
    accepted t [.handle c now] = [.broadcast d (.newMessage c text now)]

/-- **A joined client misses nothing silently**, in every run. -/
theorem missesNothing (metrics : Metrics) (as : List WorldAction) (t : Tasks) (h : Run metrics as t)
    (c : ClientId) (d : DocumentId) : MissesNothing metrics as t c d where
  fifo := (recorded_run h).fifo
  offered := fun pre tx k mid message post before x after => (recorded_run h).offered
  afterOk := by
    rintro first rest v s rfl hv hs hok
    obtain ⟨tx, k, hmem⟩ := join_accepted hv hs (.inr hok)
    obtain ⟨pre, tx, k, mid, hsplit, hlast⟩ := World.last_join ⟨tx, k, hmem⟩
    refine ⟨pre, tx, k, mid, hsplit, hlast, fun mid' message post before x after hrest => ?_⟩
    have haccepted : accepted (init metrics) (first ++ rest) =
        pre ++ .join d c tx k :: (mid ++ mid' ++ .broadcast d message :: post) := by
      rw [accepted_append hv, hsplit, hrest]
      simp
    exact (recorded_run h).offered haccepted
  connected := fun hended d hmem => hended (leave_accepted h hmem)
  own := fun s text now t' => accepted_sendMessage

/-- A client has joined room `r` twice and sends a message; its connection ends after the first of its two
entries has been served. -/
def joinTwice : List WorldAction :=
  [.connect "a", .receive "a" (.text (.ok (.join "r"))), .handle "a" 0, .coordinate, .resume "a" .acked,
    .record "a", .receive "a" (.text (.ok (.join "r"))), .handle "a" 0, .coordinate, .resume "a" .acked,
    .record "a", .receive "a" (.text (.ok (.sendMessage "hi"))), .handle "a" 0, .coordinate, .coordinate,
    .sendEnds "a", .coordinate, .coordinate]

theorem missesNothing_joinTwice : ∃ t before x, Run {} joinTwice t ∧ history {} joinTwice = before ++ [x] ∧
    x.Offered "r" "a" ⟨"a"⟩ (.newMessage "a" "hi" 0) ∧ x.passes.map Pass.isClosed = [false, true] ∧
    x.done.isSome := by
  obtain ⟨t, ht⟩ : ∃ t, Run {} joinTwice t := Option.isSome_iff_exists.1 (by decide +kernel)
  have hlast : ((history {} joinTwice).drop 2).map (fun x => (x.passes.map Pass.isClosed, x.done.isSome)) =
      [([false, true], true)] := by decide +kernel
  obtain ⟨x, hx, hparts⟩ := List.map_eq_singleton_iff.1 hlast
  obtain ⟨hpasses, hdone⟩ := Prod.mk.inj hparts
  have hhistory : history {} joinTwice = (history {} joinTwice).take 2 ++ [x] := by
    rw [← hx, List.take_append_drop]
  have haccepted : accepted (init {}) joinTwice = [] ++ .join "r" "a" ⟨"a"⟩ 0 ::
      ([.join "r" "a" ⟨"a"⟩ 1] ++ .broadcast "r" (.newMessage "a" "hi" 0) :: []) := by decide +kernel
  have hbefore : ((history {} joinTwice).take 2).length = 2 := by decide +kernel
  refine ⟨t, _, x, ht, hhistory, ?_, hpasses, hdone⟩
  exact (missesNothing {} joinTwice t ht "a" "r").offered [] ⟨"a"⟩ 0 _ _ [] _ x [] haccepted hhistory hbefore
    (by decide) (by decide +kernel)

end Tasks
end MiniGraph
