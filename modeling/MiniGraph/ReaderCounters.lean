import MiniGraph.Lib.Register
import MiniGraph.Server
import MiniGraph.Wal.Acknowledgement
import MiniGraph.Wal.LossAccounting

/-!
# What the reader counts

The counters and gauges of the reader are what its steps make them: how many rows it converts and how many
calls of the sink are refused, which commit it acknowledges, and what the last query for the slot has said
(`metrics_step`).
-/

namespace MiniGraph
open Lib

/-! ### The slot -/

structure SlotGauges where
  active : UInt64
  retainedBytes : UInt64
  lagSeconds : UInt64
deriving DecidableEq, Repr

/-- What an answer to the slot health query sets; a query that fails sets nothing. -/
def SlotHealth.gauges : SlotHealth → Option SlotGauges
  | .row none => some ⟨0, 0, 0⟩
  | .row (some (active, retainedBytes, lagSeconds)) =>
    some ⟨if active then 1 else 0, (max retainedBytes 0).toUInt64, (max lagSeconds 0).toUInt64⟩
  | .queryFailed => none
  | .timedOut => none

namespace Metrics

def slotGauges (m : Metrics) : SlotGauges := ⟨m.walSlotActive, m.walRetainedBytes, m.walLagSeconds⟩

/-- The metrics of a reader after `rows` rows have been converted, it has done `actions` and its queries
for the slot have been answered with `polls`. -/
def after (m : Metrics) (rows : Nat) (actions : List Action) (polls : List (Option SlotGauges)) : Metrics :=
  { m with
    walEventsConsumedTotal := m.walEventsConsumedTotal + UInt64.ofNat rows
    walEventsDroppedTotal := m.walEventsDroppedTotal + UInt64.ofNat (actions.countP Action.refused)
    walLsn := written m.walLsn (actions.map Action.acked)
    walSlotActive := (written m.slotGauges polls).active
    walRetainedBytes := (written m.slotGauges polls).retainedBytes
    walLagSeconds := (written m.slotGauges polls).lagSeconds }

variable {m : Metrics}

theorem after_nothing (m : Metrics) : m.after 0 [] [] = m := by
  simp [after, slotGauges]

theorem after_after (m : Metrics) (rows rows' : Nat) (actions actions' : List Action)
    (polls polls' : List (Option SlotGauges)) : (m.after rows actions polls).after rows' actions' polls' =
      m.after (rows + rows') (actions ++ actions') (polls ++ polls') := by
  have hgauges : (m.after rows actions polls).slotGauges = written m.slotGauges polls := rfl
  simp only [after] at hgauges ⊢
  simp only [hgauges, List.countP_append, List.map_append, written_append, UInt64.ofNat_add, UInt64.add_assoc]

theorem after_actions {actions : List Action} (h : ∀ action ∈ actions, action = .stopReplication) :
    m.after 0 actions [] = m := by
  have hrefused : actions.countP Action.refused = 0 := by
    rw [List.countP_eq_zero]
    intro action hmem
    rw [h action hmem]
    nofun
  have hacked : ∀ op ∈ actions.map Action.acked, op = none := by
    intro op hop
    obtain ⟨action, hmem, rfl⟩ := List.mem_map.1 hop
    rw [h action hmem]
    rfl
  simp [after, slotGauges, hrefused, written_of_keep hacked]

theorem handleSlotHealth_eq (m : Metrics) (health : SlotHealth) :
    WalReader.handleSlotHealth m health = m.after 0 [] [health.gauges] := by
  rcases health with (_ | ⟨active, retainedBytes, lagSeconds⟩) | _ | _
  · simp [WalReader.handleSlotHealth, after, SlotHealth.gauges, setWalSlotActive, setWalRetainedBytes,
      setWalLagSeconds]
  · simp [WalReader.handleSlotHealth, after, SlotHealth.gauges, setWalSlotActive, setWalRetainedBytes,
      setWalLagSeconds]
  · exact (after_nothing m).symm
  · exact (after_nothing m).symm

end Metrics

/-! ### The rows of a payload -/

/-- The row events of `msgs` before the first message that is reported as a schema change. -/
def rowsBefore (relations : Relations) : List PgOutputMessage → List WalEvent
  | [] => []
  | msg :: msgs =>
    if SchemaChanges relations msg then []
    else (rowEvent relations msg).toList ++ rowsBefore (pgoutputToWalEvent relations msg).2 msgs

theorem WalReader.handleMessages_metrics {r : WalReader} (hr : r.status = .looping)
    (msgs : List PgOutputMessage) :
    (r.handleMessages msgs).metrics = r.metrics.after (rowsBefore r.relations msgs).length [] [] := by
  induction msgs generalizing r with
  | nil => exact r.metrics.after_nothing.symm
  | cons msg msgs ih =>
    unfold handleMessages rowsBefore
    by_cases hchange : SchemaChanges r.relations msg
    · have hmessage : (r.handleMessage msg).status = .returned ∧ (r.handleMessage msg).metrics = r.metrics := by
        unfold handleMessage
        unfold SchemaChanges at hchange
        rcases hconv : pgoutputToWalEvent r.relations msg with ⟨result, relations⟩
        obtain rfl : result = .error .schemaChange := (congrArg Prod.fst hconv).symm.trans hchange
        exact ⟨rfl, rfl⟩
      rw [if_pos hchange, hmessage.1]
      simp only [hmessage.2]
      exact r.metrics.after_nothing.symm
    · have hmessage := r.handleMessage_eq hchange
      have hlooping : (r.handleMessage msg).status = .looping := by
        rw [hmessage]
        exact hr
      have hrelations : (r.handleMessage msg).relations = (pgoutputToWalEvent r.relations msg).2 := by
        rw [hmessage]
        rfl
      have hmetrics : (r.handleMessage msg).metrics =
          r.metrics.after (rowEvent r.relations msg).toList.length [] [] := by
        rw [hmessage]
        simp [absorb, Metrics.consume, Metrics.after, Metrics.slotGauges]
      rw [if_neg hchange, hlooping]
      simp only
      rw [ih hlooping, hrelations, hmetrics, Metrics.after_after, List.length_append]
      rfl

namespace Server
variable {s s' : Server} {a : ServerAction} {as : List ServerAction} {sqlClient : Bool} {metrics : Metrics}

/-! ### What the reader comes to -/

/-- The rows that the reader converts in a step. -/
def rowsStep (s : Server) (a : ServerAction) (_ : Server) : List WalEvent :=
  match s.reader.status, a with
  | .looping, .wake _ (.received (.ok (some (.xLogData data)))) =>
    rowsBefore s.reader.relations (decoded (.xLogData data))
  | _, _ => []

/-- The answer to its query for the slot. -/
def pollsStep (s : Server) (a : ServerAction) (_ : Server) : List (Option SlotGauges) :=
  match s.reader.status, a with
  | .looping, .wake _ (.slotPoll health) => if s.reader.sqlClient then [health.gauges] else []
  | _, _ => []

theorem turn_actions {r : WalReader} {w : Outside × Wake}
    (h : r.status = .looping → ∀ endLsn, w.2.event ≠ some (.commit endLsn)) :
    ∀ action ∈ (r.turn w).1, action = .stopReplication := by
  intro action hmem
  by_cases hr : r.status = .looping
  · by_cases hw : w.2.Ends r.relations
    · rcases (WalReader.turn_ends hr hw).2 with hnil | hstop
      · rw [hnil] at hmem
        cases hmem
      · rw [hstop] at hmem
        exact List.mem_singleton.1 hmem
    · rw [WalReader.turn_of_no_commit hr hw (h hr)] at hmem
      cases hmem
  · rw [WalReader.turn_of_ended hr] at hmem
    cases hmem

theorem turn_metrics (o : Surroundings) {w : Wake}
    (h : s.reader.status = .looping → ∀ endLsn, w.event ≠ some (.commit endLsn)) :
    (s.reader.turn (o.silent, w)).2.metrics =
      s.reader.metrics.after (rowsStep s (.wake o w) s').length [] (pollsStep s (.wake o w) s') := by
  unfold rowsStep pollsStep
  cases hr : s.reader.status with
  | stopped =>
    rw [WalReader.turn_of_ended (by rw [hr]; nofun)]
    exact (Metrics.after_nothing _).symm
  | returned =>
    rw [WalReader.turn_of_ended (by rw [hr]; nofun)]
    exact (Metrics.after_nothing _).symm
  | looping =>
    unfold WalReader.turn
    rw [hr]
    rcases w with (_ | cmd) | health | (err | (_ | event))
    · exact (Metrics.after_nothing _).symm
    · exact (Metrics.after_nothing _).symm
    · simp only
      cases s.reader.sqlClient with
      | false => exact (Metrics.after_nothing _).symm
      | true => exact Metrics.handleSlotHealth_eq s.reader.metrics health
    · exact (Metrics.after_nothing _).symm
    · exact (Metrics.after_nothing _).symm
    · cases event with
      | commit endLsn => exact absurd rfl (h hr endLsn)
      | xLogData data =>
        simp only [WalReader.handleEvent, WalReader.handleData, decoded]
        cases parsePgoutputMessages data with
        | ok msgs => exact WalReader.handleMessages_metrics hr msgs
        | error e => exact (Metrics.after_nothing _).symm
      | _ => exact (Metrics.after_nothing _).symm

theorem comes_to_nothing (s s' : Server) (h : ∀ o w, a ≠ .wake o w) :
    rowsStep s a s' = [] ∧ pollsStep s a s' = [] := by
  unfold rowsStep pollsStep
  cases a with
  | wake o w => exact absurd rfl (h o w)
  | _ => cases s.reader.status <;> exact ⟨rfl, rfl⟩

theorem metrics_step (h : s.step a = some s') : s'.reader.metrics =
    s.reader.metrics.after (rowsStep s a s').length (actStep s a s') (pollsStep s a s') := by
  have heff := step_effect h
  generalize actStep s a s' = actions at heff
  generalize worldStep s a s' = was at heff
  cases heff with
  | world a w =>
    obtain ⟨hrows, hpolls⟩ := comes_to_nothing s { s with world := w } (a := .world a) nofun
    rw [hrows, hpolls]
    exact (Metrics.after_nothing _).symm
  | began o endLsn idle looping =>
    simp only [rowsStep, pollsStep, looping]
    exact (Metrics.after_nothing _).symm
  | turned o w idle other =>
    let s' : Server := { s with reader := (s.reader.turn (o.silent, w)).2 }
    have hactions := Metrics.after_actions (m := s.reader.metrics.after (rowsStep s (.wake o w) s').length []
      (pollsStep s (.wake o w) s')) (turn_actions (w := (o.silent, w)) other)
    rw [Metrics.after_after, Nat.add_zero, List.nil_append, List.append_nil] at hactions
    exact (turn_metrics o other).trans hactions.symm
  | accepted c documentId hints remaining commands =>
    obtain ⟨hrows, hpolls⟩ := comes_to_nothing s
      { s with world := { s.world with commands }, commit := some { c with remaining } } (a := .deliver) nofun
    rw [hrows, hpolls]
    simp [Metrics.after, Metrics.slotGauges, Action.refused, Action.acked]
  | refused c documentId hints remaining err =>
    obtain ⟨hrows, hpolls⟩ := comes_to_nothing s
      { s with
        reader := { s.reader with metrics := WalReader.countAnswer s.reader.metrics (.error err) }
        commit := some { c with remaining } } (a := .deliver) nofun
    rw [hrows, hpolls]
    cases err with
    | channelFull =>
      simp [Metrics.after, Metrics.slotGauges, Action.refused, Action.acked, WalReader.countAnswer,
        Metrics.incWalEventsDropped]
    | channelClosed =>
      simp [Metrics.after, Metrics.slotGauges, Action.refused, Action.acked, WalReader.countAnswer]
  | finished c =>
    obtain ⟨hrows, hpolls⟩ := comes_to_nothing s
      { s with reader := { s.reader with metrics := s.reader.metrics.setWalLsn c.endLsn }, commit := none }
      (a := .deliver) nofun
    rw [hrows, hpolls]
    simp [Metrics.after, Metrics.slotGauges, Action.refused, Action.acked, Metrics.setWalLsn]

end Server
end MiniGraph
