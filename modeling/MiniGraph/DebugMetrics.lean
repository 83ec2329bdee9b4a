import MiniGraph.Counters
import MiniGraph.Runtime

/-!
# What `/debug/metrics` says (`src/lib.rs`)

The counters and gauges of a server are those of its rooms and of its reader. Each of them is what the run so
far makes it: which commands of the connections have been refused and which passes of a broadcast have found a
queue full (`Tasks.metrics_run`), and what the reader has counted (`Runtime.metrics_run`). A snapshot loads them
one after the other, so each is as of a moment of its own (`debugMetrics_truthful`).
-/

namespace MiniGraph
open Lib

/-! ### The copies -/

/-- The queue of the entry was full. -/
def Pass.isFull (p : Pass) : Bool :=
  !p.isClosed && decide ((p.before.queues p.client.2).buffer.length = clientChannelCapacity)

/-- The copies that have been dropped. -/
def copiesDropped (h : List Handling) : Nat := (h.flatMap Handling.passes).countP Pass.isFull

theorem copiesDropped_append (h h' : List Handling) :
    copiesDropped (h ++ h') = copiesDropped h + copiesDropped h' := by
  rw [copiesDropped, List.flatMap_append, List.countP_append]
  rfl

theorem Rooms.offer_metrics (message : ServerMessage) (p : Rooms × List ClientId)
    (client : ClientId × Sender) {rooms : Rooms} (h : (offer message p client).2.1 = rooms) :
    rooms.metrics = { p.1.metrics with
      fanoutDropsTotal := p.1.metrics.fanoutDropsTotal +
        UInt64.ofNat ([(⟨client, p.1, rooms⟩ : Pass)].countP Pass.isFull) } := by
  subst h
  unfold Pass.isFull Pass.isClosed closed
  cases htry : (p.1.queues client.2).trySend message with
  | ok queue =>
    obtain ⟨hopen, -, -, hlength⟩ := Mpsc.trySend_eq_ok.1 htry
    simp [offer, htry, hopen, hlength.ne]
  | error err =>
    cases err with
    | full =>
      obtain ⟨hopen, hfull⟩ := Mpsc.trySend_eq_full.1 htry
      simp [offer, htry, hopen, hfull, Metrics.incFanoutDrop]
    | closed =>
      have hclosed := Mpsc.trySend_eq_closed.1 htry
      simp [offer, htry, hclosed]

namespace Coordinator
variable {s : Coordinator} {accepted : List RoomCommand} {h : List Handling}

/-- What a turn counts. -/
theorem metrics_turn (hr : Recorded accepted h s) : ∃ n,
    copiesDropped (note h s (s.step .coordinate).2) = copiesDropped h + n ∧
      (s.step .coordinate).2.rooms.metrics = { s.rooms.metrics with
        fanoutDropsTotal := s.rooms.metrics.fanoutDropsTotal + UInt64.ofNat n } := by
  have hnothing : ∀ m : Metrics, m = { m with fanoutDropsTotal := m.fanoutDropsTotal + UInt64.ofNat 0 } :=
    fun m => by simp
  simp only [step]
  cases hf : s.fanout with
  | some f =>
    obtain ⟨before, start, passes, rfl, -⟩ := hr.underWay f hf
    obtain ⟨room, message, remaining, failedClients⟩ := f
    cases remaining with
    | cons client remaining =>
      refine ⟨_, ?_, Rooms.offer_metrics message (s.rooms, failedClients) client rfl⟩
      simp only [note, hf, pass]
      rw [List.modifyLast_concat, copiesDropped_append, copiesDropped_append, Nat.add_assoc]
      simp [copiesDropped]
    | nil =>
      refine ⟨0, ?_, ?_⟩
      · simp only [note, hf, pass]
        rw [List.modifyLast_concat, copiesDropped_append, copiesDropped_append]
        rfl
      · refine Eq.trans ?_ (hnothing _)
        simp only [pass, finish]
        split <;> rfl
  | none =>
    cases hrecv : s.commands.recv with
    | none =>
      refine ⟨0, ?_, hnothing _⟩
      have hbuffer : s.commands.buffer = [] := Mpsc.recv_eq_none.1 hrecv
      simp only [note, hf, hbuffer]
      rfl
    | some next =>
      obtain ⟨cmd, commands⟩ := next
      have hbuffer := (Mpsc.recv_eq_some.1 hrecv).1
      refine ⟨0, ?_, ?_⟩
      · simp only [note, hf, hbuffer]
        rw [copiesDropped_append]
        rfl
      · refine Eq.trans ?_ (hnothing _)
        cases cmd with
        | join room clientId tx respondTo => rfl
        | leave room clientId => exact Rooms.leave_metrics s.rooms room clientId
        | broadcast room message => rfl

end Coordinator

namespace Tasks
variable {t t' : Tasks} {metrics : Metrics} {as : List WorldAction} {a : WorldAction}

def refusedStep (t : Tasks) (a : WorldAction) (t' : Tasks) : List (WorldAction × RoomCommand) :=
  World.refusedStep t.world a t'.world

/-- The commands that the channel refuses, each with the step that sends it. -/
def refused (t : Tasks) (as : List WorldAction) : List (WorldAction × RoomCommand) :=
  log step refusedStep t as

theorem metrics_run (h : Run metrics as t) : t.world.rooms.metrics = { metrics with
    actorCmdDropsTotal := metrics.actorCmdDropsTotal +
      UInt64.ofNat ((refused (init metrics) as).countP fun x => (World.clientOf x.1).isSome)
    fanoutDropsTotal := metrics.fanoutDropsTotal + UInt64.ofNat (copiesDropped (history metrics as)) } := by
  refine exec_history (fun as (t : Tasks) => t.world.rooms.metrics = { metrics with
    actorCmdDropsTotal := metrics.actorCmdDropsTotal +
      UInt64.ofNat ((refused (init metrics) as).countP fun x => (World.clientOf x.1).isSome)
    fanoutDropsTotal := metrics.fanoutDropsTotal + UInt64.ofNat (copiesDropped (history metrics as)) }) h ?_ ?_
  · simp [refused, history, copiesDropped, log, record, init, World.init]
  intro before t a t' hbefore ih hstep
  have hrefused : refused (init metrics) (before ++ [a]) =
      refused (init metrics) before ++ World.refusedStep t.world a t'.world := log_concat hbefore hstep
  rw [hrefused, history_concat hbefore hstep, noteStep]
  rcases step_cases hstep with ⟨rfl, rfl⟩ | ⟨ha, hworld, -⟩
  · obtain ⟨n, hdropped, hmetrics⟩ : ∃ n,
        copiesDropped (Coordinator.note (history metrics before) t.coordinator t.coordinate.coordinator) =
          copiesDropped (history metrics before) + n ∧
        t.coordinate.world.rooms.metrics = { t.world.rooms.metrics with
          fanoutDropsTotal := t.world.rooms.metrics.fanoutDropsTotal + UInt64.ofNat n } :=
      Coordinator.metrics_turn (recorded_run hbefore)
    have hnone : World.refusedStep t.world .coordinate t.coordinate.world = [] := rfl
    rw [if_pos rfl, hnone, List.append_nil, hmetrics, ih, hdropped]
    simp only [UInt64.ofNat_add, UInt64.add_assoc]
  · have hcounts := World.counts_beside (channel_open hbefore) hworld ha
    rw [if_neg ha, hcounts, ih, World.offersStep_of_ne ha, List.countP_nil]
    simp [UInt64.add_assoc]

end Tasks

/-! ### The handler -/

namespace Server

/-- The metrics that the rooms and the reader share: the former count in two fields, the latter in the
others. -/
def sharedMetrics (s : Server) : Metrics :=
  { s.reader.metrics with
    actorCmdDropsTotal := s.world.rooms.metrics.actorCmdDropsTotal
    fanoutDropsTotal := s.world.rooms.metrics.fanoutDropsTotal }

/-- `debug_metrics_handler`, with the server as it is at each of the loads. -/
def debugMetricsHandler (s : Atomic → Server) : MetricsSnapshot := snapshotOf fun x => (s x).sharedMetrics.load x

end Server

namespace Runtime

/-- Each figure of a snapshot is true of what had happened when it was loaded. -/
structure Truthful (metrics : Metrics) (start : Runtime) (as : Atomic → List ServerAction)
    (snapshot : MetricsSnapshot) : Prop where
  actorCmdDropsTotal : snapshot.actorCmdDropsTotal = metrics.actorCmdDropsTotal +
    UInt64.ofNat ((Tasks.refused start.tasks (taskActions start (as .actorCmdDropsTotal))).countP
      fun x => (World.clientOf x.1).isSome)
  fanoutDropsTotal : snapshot.fanoutDropsTotal = metrics.fanoutDropsTotal +
    UInt64.ofNat (copiesDropped (Tasks.history metrics (taskActions start (as .fanoutDropsTotal))))
  walEventsConsumedTotal : snapshot.walEventsConsumedTotal =
    metrics.walEventsConsumedTotal + UInt64.ofNat (rows start (as .walEventsConsumedTotal)).length
  walEventsDroppedTotal : snapshot.walEventsDroppedTotal = metrics.walEventsDroppedTotal +
    UInt64.ofNat ((trace start (as .walEventsDroppedTotal)).countP Action.refused)
  /-- the last commit that was acknowledged -/
  walLsn : snapshot.walLsn = written metrics.walLsn ((trace start (as .walLsn)).map Action.acked)
  /-- the last answer of the server to a query for the slot: each gauge alone, as they need not be of the same
  answer -/
  walSlotActive : snapshot.walSlotActive =
    (written metrics.slotGauges (polls start (as .walSlotActive))).active
  walRetainedBytes : snapshot.walRetainedBytes =
    (written metrics.slotGauges (polls start (as .walRetainedBytes))).retainedBytes
  walLagSeconds : snapshot.walLagSeconds =
    (written metrics.slotGauges (polls start (as .walLagSeconds))).lagSeconds

/-- **The debug endpoint tells the truth**: each figure of a snapshot is what a run of the server has made it by
the moment between two steps at which it is loaded. -/
theorem debugMetrics_truthful (sqlClient : Bool) (metrics : Metrics) (as : Atomic → List ServerAction)
    (r : Atomic → Runtime) (h : ∀ x, Run sqlClient metrics (as x) (r x)) :
    Truthful metrics (init sqlClient metrics) as (Server.debugMetricsHandler fun x => (r x).server) := by
  have hrooms := fun x => Tasks.metrics_run (run_taskActions (h x))
  have hreader := fun x => metrics_run (h x)
  refine ⟨?_, ?_, ?_, ?_, ?_, ?_, ?_, ?_⟩
  · exact congrArg Metrics.actorCmdDropsTotal (hrooms .actorCmdDropsTotal)
  · exact congrArg Metrics.fanoutDropsTotal (hrooms .fanoutDropsTotal)
  · exact congrArg Metrics.walEventsConsumedTotal (hreader .walEventsConsumedTotal)
  · exact congrArg Metrics.walEventsDroppedTotal (hreader .walEventsDroppedTotal)
  · exact congrArg Metrics.walLsn (hreader .walLsn)
  · exact congrArg Metrics.walSlotActive (hreader .walSlotActive)
  · exact congrArg Metrics.walRetainedBytes (hreader .walRetainedBytes)
  · exact congrArg Metrics.walLagSeconds (hreader .walLagSeconds)

/-- A commit without changes, and two queries for the slot, of which the latter is not answered. -/
def commitAndPoll : List ServerAction :=
  [.wake Outside.sorted.surroundings (.received (.ok (some .begin))),
    .wake Outside.sorted.surroundings (.received (.ok (some (.commit 5)))), .deliver,
    .wake Outside.sorted.surroundings (.slotPoll (.row (some (true, -7, 3)))),
    .wake Outside.sorted.surroundings (.slotPoll .timedOut)]

/-- The slot is asked for after the LSN has been loaded. -/
def commitThenPoll : Atomic → List ServerAction
  | .walLsn => commitAndPoll.take 3
  | _ => commitAndPoll

theorem debugMetrics_truthful_commitAndPoll : ∃ (r : Atomic → Runtime) (snapshot : MetricsSnapshot),
    (∀ x, Run true {} (commitThenPoll x) (r x)) ∧
      snapshot = Server.debugMetricsHandler (fun x => (r x).server) ∧
        Truthful {} (init true {}) commitThenPoll snapshot ∧ snapshot.walLsn = 5 ∧
          snapshot.walSlotActive = 1 ∧ snapshot.walRetainedBytes = 0 ∧ snapshot.walLagSeconds = 3 := by
  have hrun : ∀ x, ∃ r, Run true {} (commitThenPoll x) r := by
    intro x
    refine Option.isSome_iff_exists.1 ?_
    cases x <;> decide +kernel
  choose r hr using hrun
  have h := debugMetrics_truthful true {} commitThenPoll r hr
  have hlsn : written 0 ((trace (init true {}) (commitThenPoll .walLsn)).map Action.acked) = 5 := by
    decide +kernel
  have hslot : written ⟨0, 0, 0⟩ (polls (init true {}) commitAndPoll) = ⟨1, 0, 3⟩ := by decide +kernel
  refine ⟨r, _, hr, rfl, h, h.walLsn.trans hlsn, ?_, ?_, ?_⟩
  · exact h.walSlotActive.trans (congrArg SlotGauges.active hslot)
  · exact h.walRetainedBytes.trans (congrArg SlotGauges.retainedBytes hslot)
  · exact h.walLagSeconds.trans (congrArg SlotGauges.lagSeconds hslot)

end Runtime
end MiniGraph
