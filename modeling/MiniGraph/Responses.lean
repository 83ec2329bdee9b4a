import MiniGraph.AcceptedCommands

/-!
# How long a command waits

The coordinator has processed all that has been accepted after as many of its turns as there are commands in
the channel, 256 at most, whatever the other tasks do meanwhile (`responsive`). A join is acknowledged then,
and the sender of the acknowledgement is never dropped: the second arm of the `match` on the timeout in
`handle_client_message` is dead.
-/

namespace MiniGraph
open Lib

namespace World
variable {w w' : World} {a : WorldAction} {as first rest : List WorldAction} {metrics : Metrics}
  {c : ClientId} {d : DocumentId} {k : AckId} {tx : Sender}

/-- The commands that the coordinator has processed. -/
def processedCommands (w : World) (as : List WorldAction) : List RoomCommand :=
  (processed "" w as).map Prod.fst

theorem acked_grows (h : exec step w as = some w') (hk : k ∈ w.rooms.acked) : k ∈ w'.rooms.acked := by
  refine exec_preserves (fun w => k ∈ w.rooms.acked) h hk fun w₁ a w₂ hk hstep => ?_
  cases (step_effect hstep).channel with
  | takes cmd action buffer rooms =>
    rw [rooms, Rooms.acked_process]
    cases cmd with
    | join => exact Finset.mem_insert_of_mem hk
    | _ => exact hk
  | puts cmds action buffer rooms acked => rwa [acked]

theorem acked_of_processed (h : exec step w as = some w')
    (hmem : .join d c tx k ∈ processedCommands w as) : k ∈ w'.rooms.acked := by
  induction as generalizing w with
  | nil => cases hmem
  | cons a as ih =>
    obtain ⟨w₁, hstep, hrest⟩ := exec_cons_eq_some.1 h
    rw [processedCommands, processed_cons hstep, List.map_append] at hmem
    rcases List.mem_append.1 hmem with hmem | hmem
    · refine acked_grows hrest ?_
      cases (step_effect hstep).channel with
      | takes cmd action buffer rooms =>
        rw [if_pos action, buffer] at hmem
        obtain rfl : .join d c tx k = cmd := by simpa using hmem
        rw [rooms, Rooms.acked_process]
        exact Finset.mem_insert_self k _
      | puts cmds action =>
        rw [if_neg action] at hmem
        cases hmem
    · exact ih hrest hmem

/-- What has been accepted is processed in that order; after as many turns as there are commands in the channel,
all of it has been. -/
theorem processed_of_turns (hfirst : Run metrics first w) (hrest : exec step w rest = some w')
    (hturns : w.commands.buffer.length ≤ rest.count .coordinate) :
    accepted (init metrics) first <+: processedCommands (init metrics) (first ++ rest) := by
  have hrun : Run metrics (first ++ rest) w' := exec_append_eq_some.2 ⟨w, hfirst, hrest⟩
  have hbefore := accepted_eq "" hfirst
  have hafter := accepted_eq "" hrun
  have hempty : (init metrics).commands.buffer = [] := rfl
  rw [hempty, List.nil_append] at hbefore hafter
  rw [accepted_append hfirst] at hafter
  refine List.prefix_of_prefix_length_le ⟨_, hafter⟩ ⟨_, rfl⟩ ?_
  unfold processedCommands
  rw [hbefore, List.length_append, List.length_map, List.length_map, length_processed hfirst,
    length_processed hrun, List.count_append]
  omega

/-- The commands that a run has accepted get their turn. -/
structure Responsive (metrics : Metrics) (as : List WorldAction) (w : World) : Prop where
  /-- no more than the channel holds is ever left over -/
  inOrder : ∃ pending, accepted (init metrics) as = processedCommands (init metrics) as ++ pending ∧
    pending.length ≤ roomsCoordinatorChannelCapacity
  processed : ∀ rest w', exec step w rest = some w' → w.commands.buffer.length ≤ rest.count .coordinate →
    accepted (init metrics) as <+: processedCommands (init metrics) (as ++ rest)
  acked : ∀ c s d k, w.sessions c = some s → s.recvTask = .awaitingAck d k → ∀ rest w',
    exec step w rest = some w' → w.commands.buffer.length ≤ rest.count .coordinate → k ∈ w'.rooms.acked
  notDropped : ∀ c, w.step (.resume c .dropped) = none

/-- **Every command gets its turn**, in every run and however it goes on. -/
theorem responsive (metrics : Metrics) (as : List WorldAction) (w : World) (h : Run metrics as w) :
    Responsive metrics as w := by
  have hcons := consistent_run h
  refine ⟨⟨w.commands.buffer, accepted_eq "" h, w.commands.length_le⟩,
    fun rest w' hrest => processed_of_turns h hrest, ?_, fun c => ?_⟩
  · intro c s d k hs ht rest w' hrest hturns
    rcases hcons.answered c s d k hs ht with ⟨tx, hpending⟩ | hacked
    · have hrun : Run metrics (as ++ rest) w' := exec_append_eq_some.2 ⟨w, h, hrest⟩
      have haccepted := accepted_eq "" h
      have hempty : (init metrics).commands.buffer = [] := rfl
      rw [hempty, List.nil_append] at haccepted
      have hmem : .join d c tx k ∈ accepted (init metrics) as := by
        rw [haccepted]
        exact List.mem_append_right _ hpending
      exact acked_of_processed hrun ((processed_of_turns h hrest hturns).subset hmem)
    · exact acked_grows hrest hacked
  · by_contra hne
    obtain ⟨w', hstep⟩ := Option.ne_none_iff_exists'.1 hne
    obtain ⟨s, s', cmds, hs, -, moves, -⟩ := (step_effect hstep).moves rfl nofun nofun
    cases moves with
    | failed _ d k _ ht hne hunacked hgone =>
      -- the join is either still in the channel or has been processed
      rcases hcons.answered c s d k hs ht with ⟨tx, hpending⟩ | hacked
      · have hany : w.ackPending k = true := List.any_eq_true.2 ⟨_, hpending, by simp⟩
        rw [hgone rfl] at hany
        cases hany
      · exact hunacked hacked

/-- A client joins a room while the channel is nearly full. -/
def joinLate : List WorldAction :=
  .connect "a" :: List.replicate 255 (.sinkBroadcast "r" (.invalidation [] 0)) ++
    [.receive "a" (.text (.ok (.join "r"))), .handle "a" 0]

theorem responsive_joinLate : ∃ w, Run {} joinLate w ∧ ∀ rest w', exec step w rest = some w' →
    256 ≤ rest.count .coordinate → 0 ∈ w'.rooms.acked := by
  obtain ⟨w, hw⟩ : ∃ w, Run {} joinLate w := Option.isSome_iff_exists.1 (by decide +kernel)
  have hwaits : ∃ s, w.sessions "a" = some s ∧ s.recvTask = .awaitingAck "r" 0 := by
    have hrun : ((exec step (init {}) joinLate).bind fun w => (w.sessions "a").map Session.recvTask) =
        some (.awaitingAck "r" 0) := by
      decide +kernel
    have hexec : exec step (init {}) joinLate = some w := hw
    rw [hexec] at hrun
    obtain ⟨s, hs, ht⟩ := Option.map_eq_some_iff.1 hrun
    exact ⟨s, hs, ht⟩
  obtain ⟨s, hs, ht⟩ := hwaits
  exact ⟨w, hw, fun rest w' hrest hturns => (responsive {} joinLate w hw).acked "a" s "r" 0 hs ht rest w' hrest
    (w.commands.length_le.trans hturns)⟩

end World
end MiniGraph
