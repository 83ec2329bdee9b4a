import MiniGraph.Lib.Lists
import MiniGraph.WorldInv

/-!
# At most one copy of a broadcast

Where no client is in a room twice, a broadcast puts at most one copy of its message into a queue and
counts at most one drop for a client. `RoomCommand::Join` pushes its entry without looking for the
client, so a client that joins its room again is in it twice: `atMostOneCopy_iff` says that the lists
stay free of duplicates in exactly the runs in which the coordinator never processes such a join.
-/

namespace MiniGraph
open Lib

namespace Rooms

/-- No room lists a client twice. -/
def Distinct (s : Rooms) : Prop := ∀ room, ((s.clients room).map Prod.fst).Nodup

/-- The results of the `try_send`s of a broadcast that found a queue full. -/
def drops (s : Rooms) (room : DocumentId) (message : ServerMessage) : Nat :=
  (s.fanout message (s.clients room)).1.countP (· = .error .full)

/-- Those of them that are for an entry of `clientId`. -/
def dropsFor (s : Rooms) (room : DocumentId) (message : ServerMessage) (clientId : ClientId) : Nat :=
  ((s.clients room).zip (s.fanout message (s.clients room)).1).countP fun x =>
    x.1.1 = clientId ∧ x.2 = .error .full

/-! ### What a broadcast counts -/

variable {s : Rooms} {message : ServerMessage} {room : DocumentId} {clientId : ClientId} {tx : Sender}

theorem offer_drops (p : Rooms × List ClientId) (client : ClientId × Sender) :
    (offer message p client).2.1.metrics.fanoutDropsTotal = p.1.metrics.fanoutDropsTotal +
      UInt64.ofNat (if (offer message p client).1 = .error .full then 1 else 0) := by
  unfold offer
  split
  · simp
  · simp [Metrics.incFanoutDrop]
  · simp

theorem runs_offer_drops (p : Rooms × List ClientId) (clients : List (ClientId × Sender)) :
    (runs (offer message) p clients).2.1.metrics.fanoutDropsTotal = p.1.metrics.fanoutDropsTotal +
      UInt64.ofNat ((runs (offer message) p clients).1.countP (· = .error .full)) := by
  induction clients generalizing p with
  | nil => simp [runs]
  | cons client clients ih =>
    have h := ih (offer message p client).2
    rw [offer_drops, UInt64.add_assoc, ← UInt64.ofNat_add] at h
    rw [runs, List.countP_cons, Nat.add_comm]
    simpa using h

/-! ### Lists without duplicates -/

theorem Distinct.countP_le_one (h : s.Distinct) (room : DocumentId) (clientId : ClientId) :
    (s.clients room).countP (fun client => client.1 = clientId) ≤ 1 := by
  have hcount := List.nodup_iff_count_le_one.1 (h room) clientId
  rw [List.count, List.countP_map] at hcount
  refine le_trans (le_of_eq ?_) hcount
  refine List.countP_congr fun client _ => ?_
  simp

theorem Distinct.queue (h : s.Distinct) (ho : s.OwnQueues) (message : ServerMessage)
    (clientId : ClientId) :
    ((s.broadcast room message).queues ⟨clientId⟩).buffer = (s.queues ⟨clientId⟩).buffer ∨
      ((s.broadcast room message).queues ⟨clientId⟩).buffer =
        (s.queues ⟨clientId⟩).buffer ++ [message] := by
  obtain ⟨n, hn, hbuffer⟩ := runs_offer_queue message (s, []) (s.clients room) ⟨clientId⟩
  have hown : (s.clients room).countP (fun client => client.2 = ⟨clientId⟩) =
      (s.clients room).countP fun client => client.1 = clientId := by
    refine List.countP_congr fun client hmem => ?_
    rw [ho room client hmem]
    simp
  have hle := hn.trans (hown.le.trans (h.countP_le_one room clientId))
  rw [(broadcast_eq_fanout s room message).1]
  rcases Nat.le_one_iff_eq_zero_or_eq_one.1 hle with rfl | rfl
  · exact .inl (hbuffer.trans (List.append_nil _))
  · exact .inr hbuffer

theorem Distinct.dropsFor_le_one (h : s.Distinct) (room : DocumentId) (message : ServerMessage)
    (clientId : ClientId) : s.dropsFor room message clientId ≤ 1 := by
  refine (countP_zip_le (fun x hx => ?_) _ _).trans (h.countP_le_one room clientId)
  simp only [decide_eq_true_eq] at hx ⊢
  exact hx.1

theorem Distinct.process (h : s.Distinct) {cmd : RoomCommand}
    (hfresh : ∀ d c tx k, cmd = .join d c tx k → s.lists d c = false) : (s.process cmd).Distinct := by
  intro room
  rw [clients_process]
  cases cmd with
  | join d c tx k =>
    simp only [RoomCommand.apply]
    split_ifs with hroom
    · have hnot := hfresh d c tx k rfl
      subst hroom
      rw [List.map_append, List.map_singleton, List.nodup_append]
      refine ⟨h room, List.nodup_singleton _, ?_⟩
      intro c' hc' c'' hc''
      rw [List.mem_singleton.1 hc'']
      rintro rfl
      simp [lists, hc'] at hnot
    · exact h room
  | leave d c =>
    simp only [RoomCommand.apply]
    split_ifs
    · exact (h room).sublist (List.filter_sublist.map _)
    · exact h room
  | broadcast d m =>
    simp only [RoomCommand.apply]
    split_ifs
    · exact (h room).sublist (List.filter_sublist.map _)
    · exact h room

end Rooms
namespace World

/-- A client is in a room once at most, and so a broadcast that is processed next puts at most one
copy into its queue and counts at most one drop for it. -/
structure AtMostOneCopy (w : World) : Prop where
  distinct : w.rooms.Distinct
  copies : ∀ room message rest c, w.commands.buffer = .broadcast room message :: rest →
    let queues := (w.rooms.process (.broadcast room message)).queues
    (queues ⟨c⟩).buffer = (w.rooms.queues ⟨c⟩).buffer ∨
      (queues ⟨c⟩).buffer = (w.rooms.queues ⟨c⟩).buffer ++ [message]
  drops : ∀ room message rest, w.commands.buffer = .broadcast room message :: rest →
    (w.rooms.process (.broadcast room message)).metrics.fanoutDropsTotal =
        w.rooms.metrics.fanoutDropsTotal + UInt64.ofNat (w.rooms.drops room message) ∧
      ∀ c, w.rooms.dropsFor room message c ≤ 1

/-- If the coordinator is about to process a join, it is one of a client that is not in the room. -/
def FreshJoin (w : World) : WorldAction → Prop
  | .coordinate =>
    match w.commands.buffer with
    | .join d c _ _ :: _ => w.rooms.lists d c = false
    | _ => True
  | _ => True

variable {w w' : World} {a : WorldAction}

theorem FreshJoin.join {d : DocumentId} {c : ClientId} {tx : Sender} {k : AckId}
    {rest : List RoomCommand} (h : w.FreshJoin .coordinate)
    (hbuffer : w.commands.buffer = .join d c tx k :: rest) : w.rooms.lists d c = false := by
  unfold FreshJoin at h
  simpa only [hbuffer] using h

theorem distinct_init (metrics : Metrics) : (init metrics).rooms.Distinct := by
  intro room
  rw [Rooms.clients_eq_nil (Finmap.lookup_empty room)]
  exact List.nodup_nil

theorem distinct_congr (h : w'.rooms.rooms = w.rooms.rooms) (hd : w.rooms.Distinct) :
    w'.rooms.Distinct := by
  unfold Rooms.Distinct
  rw [Rooms.clients_congr h]
  exact hd

theorem distinct_step (h : w.rooms.Distinct) (hfresh : w.FreshJoin a) (hstep : w.step a = some w') :
    w'.rooms.Distinct := by
  cases (step_effect hstep).channel with
  | takes cmd action buffer rooms =>
    subst action
    rw [rooms]
    exact h.process fun d c tx k hcmd => hfresh.join (hcmd ▸ buffer)
  | puts cmds action buffer rooms => exact distinct_congr rooms h

theorem atMostOneCopy_of_distinct (h : w.rooms.Distinct) (hc : w.Consistent) : w.AtMostOneCopy where
  distinct := h
  copies := fun _ message _ c _ => h.queue hc.entries message c
  drops := by
    intro room message rest _
    refine ⟨?_, h.dropsFor_le_one room message⟩
    exact (congrArg Metrics.fanoutDropsTotal (Rooms.broadcast_eq_fanout w.rooms room message).2).trans
      (Rooms.runs_offer_drops _ _)

/-- After a join of a client that is in the room already, the room lists it twice. -/
theorem not_distinct_of_rejoin (hstep : w.step .coordinate = some w') (h : ¬ w.FreshJoin .coordinate) :
    ¬ w'.rooms.Distinct := by
  intro hd
  cases (step_effect hstep).channel with
  | puts cmds action => exact absurd rfl action
  | takes cmd action buffer rooms =>
    unfold FreshJoin at h
    rw [buffer] at h
    cases cmd with
    | join d c tx k =>
      have hlisted : w.rooms.lists d c = true := by simpa using h
      have hnodup := hd d
      rw [rooms, Rooms.clients_process, RoomCommand.apply, if_pos rfl, List.map_append,
        List.nodup_append] at hnodup
      refine hnodup.2.2 c ?_ c (by simp) rfl
      simpa [Rooms.lists] using hlisted
    | leave d c => exact h trivial
    | broadcast d m => exact h trivial

/-- **At most one copy per client**: in every state of a run, exactly if every join that the
coordinator processes in it is of a client that is not in the room at that moment. -/
theorem atMostOneCopy_iff (metrics : Metrics) (as : List WorldAction) (w : World)
    (h : Run metrics as w) :
    (∀ before after v, as = before ++ after → Run metrics before v → v.AtMostOneCopy) ↔
      EveryStep step FreshJoin (init metrics) as := by
  constructor
  · intro hall
    rw [everyStep_iff h]
    intro before a after v hsplit hv
    by_contra hfresh
    obtain rfl : a = .coordinate := by
      cases a <;> first | rfl | exact absurd trivial hfresh
    obtain ⟨v', hstep, hrun, -⟩ := exec_split (hsplit ▸ h) hv
    have hcopy := hall (before ++ [WorldAction.coordinate]) after v' (by simp [hsplit]) hrun
    exact not_distinct_of_rejoin hstep hfresh hcopy.distinct
  · rintro hall before after v rfl hv
    have hbefore := ((everyStep_append hv).1 hall).1
    have hdistinct := exec_invariant (fun v => v.rooms.Distinct) hv hbefore (distinct_init metrics)
      fun _ _ _ => distinct_step
    exact atMostOneCopy_of_distinct hdistinct (consistent_run hv)

/-- A client joins room `r`, and once it has been told so joins it again. -/
def rejoin : List WorldAction :=
  [.connect "a", .receive "a" (.text (.ok (.join "r"))), .handle "a" 0, .coordinate,
    .resume "a" .acked, .record "a", .receive "a" (.text (.ok (.join "r"))), .handle "a" 0, .coordinate]

theorem run_rejoin : ∃ w, Run {} rejoin w ∧ w.rooms.clients "r" = [("a", ⟨"a"⟩), ("a", ⟨"a"⟩)] := by
  have hrun : (exec step (init {}) rejoin).map (fun w => w.rooms.clients "r") =
      some [("a", ⟨"a"⟩), ("a", ⟨"a"⟩)] := by decide +kernel
  exact Option.map_eq_some_iff.1 hrun

theorem atMostOneCopy_iff_rejoin : ∃ w, Run {} rejoin w ∧
    ((∀ before after v, rejoin = before ++ after → Run {} before v → v.AtMostOneCopy) ↔
      EveryStep step FreshJoin (init {}) rejoin) := by
  obtain ⟨w, hw, -⟩ := run_rejoin
  exact ⟨w, hw, atMostOneCopy_iff {} rejoin w hw⟩

theorem rejoin_twice : ∃ w, Run {} rejoin w ∧
    w.rooms.clients "r" = [("a", ⟨"a"⟩), ("a", ⟨"a"⟩)] ∧ ¬ w.AtMostOneCopy := by
  obtain ⟨w, hw, hclients⟩ := run_rejoin
  refine ⟨w, hw, hclients, fun h => ?_⟩
  have hnodup := h.distinct "r"
  rw [hclients] at hnodup
  exact absurd hnodup (by decide)

end World
end MiniGraph
