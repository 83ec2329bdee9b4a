import MiniGraph.EndToEnd
import MiniGraph.NoSilentLoss

/-!
# The server, one `try_send` at a time

In a `Server` a broadcast is one step. Here its coordinator makes one pass at a time, as in `Tasks`, and the
reader takes its own steps in between. A run is a run of the tasks (`run_taskActions`), and one of the reader as
in a `Server` (`refines_run`), whose metrics are what it has done so far (`metrics_run`).
-/

namespace MiniGraph
open Lib

structure Runtime where
  server : Server
  fanout : Option Fanout

namespace Runtime

def init (sqlClient : Bool) (metrics : Metrics) : Runtime :=
  { server := Server.init sqlClient metrics, fanout := none }

def tasks (r : Runtime) : Tasks := { world := r.server.world, fanout := r.fanout }

/-- A turn of the coordinator. -/
def coordinate (r : Runtime) : Runtime :=
  { server := { r.server with world := r.tasks.coordinate.world }, fanout := r.tasks.coordinate.fanout }

/-- One step, if the action is enabled. -/
def step (r : Runtime) : ServerAction → Option Runtime
  | .world .coordinate => some r.coordinate
  | a => (r.server.step a).map fun server => { r with server }

/-- A run from the start. -/
def Run (sqlClient : Bool) (metrics : Metrics) (as : List ServerAction) (r : Runtime) : Prop :=
  exec step (init sqlClient metrics) as = some r

def actStep (r : Runtime) (a : ServerAction) (r' : Runtime) : List Action := Server.actStep r.server a r'.server

/-- What the reader does in a run. -/
def trace (r : Runtime) (as : List ServerAction) : List Action := log step actStep r as

/-- The rows that the reader has converted. -/
def rows (r : Runtime) (as : List ServerAction) : List WalEvent :=
  log step (fun r a r' => Server.rowsStep r.server a r'.server) r as

/-- The answers to its queries for the slot. -/
def polls (r : Runtime) (as : List ServerAction) : List (Option SlotGauges) :=
  log step (fun r a r' => Server.pollsStep r.server a r'.server) r as

def taskStep (r : Runtime) (a : ServerAction) (r' : Runtime) : List WorldAction :=
  Server.worldStep r.server a r'.server

/-- A run as one of the coordinator and the connections. -/
def taskActions (r : Runtime) (as : List ServerAction) : List WorldAction := log step taskStep r as

variable {r r' : Runtime} {a : ServerAction} {as : List ServerAction} {sqlClient : Bool} {metrics : Metrics}
  {documentId : DocumentId} {hints : List QueryHint} {timestamp : UInt64}
  {answer : Except RoomCommandError Unit}

/-! ### What a step can do -/

theorem step_of_ne (ha : a ≠ .world .coordinate) :
    r.step a = (r.server.step a).map fun server => { r with server } := by
  cases a with
  | world a =>
    cases a with
    | coordinate => exact absurd rfl ha
    | _ => rfl
  | _ => rfl

theorem step_cases (h : r.step a = some r') : a = .world .coordinate ∧ r' = r.coordinate ∨
    a ≠ .world .coordinate ∧ r.server.step a = some r'.server ∧ r'.fanout = r.fanout := by
  by_cases ha : a = .world .coordinate
  · subst ha
    exact .inl ⟨rfl, (Option.some.inj h).symm⟩
  · rw [step_of_ne ha] at h
    obtain ⟨server, hstep, rfl⟩ := Option.map_eq_some_iff.1 h
    exact .inr ⟨ha, hstep, rfl⟩

theorem actStep_coordinate (r r' : Runtime) : actStep r (.world .coordinate) r' = [] := by
  have hact : r.server.act (.world .coordinate) =
      (r.server.world.step .coordinate).map fun world => ([], { r.server with world }) := rfl
  unfold actStep Server.actStep
  rw [hact]
  cases r.server.world.step .coordinate <;> rfl

theorem trace_concat {r₁ : Runtime} (h : exec step r as = some r₁) (hstep : r₁.step a = some r') :
    trace r (as ++ [a]) = trace r as ++ actStep r₁ a r' := log_concat h hstep

theorem taskActions_cons (h : r.step a = some r') :
    taskActions r (a :: as) = taskStep r a r' ++ taskActions r' as := log_cons h

theorem taskActions_append {bs : List ServerAction} (h : exec step r as = some r') :
    taskActions r (as ++ bs) = taskActions r as ++ taskActions r' bs := log_append h

/-! ### A run of the tasks -/

theorem coordinate_not_mem (ha : a ≠ .world .coordinate) (s s' : Server) :
    .coordinate ∉ Server.worldStep s a s' := by
  unfold Server.worldStep
  cases a with
  | world a =>
    intro hmem
    exact ha (congrArg ServerAction.world (List.mem_singleton.1 hmem).symm)
  | wake o w => nofun
  | deliver =>
    simp only
    split <;> simp

theorem task_step (h : r.step a = some r') : exec Tasks.step r.tasks (taskStep r a r') = some r'.tasks := by
  rcases step_cases h with ⟨rfl, rfl⟩ | ⟨ha, hserver, hfanout⟩
  · rfl
  · have htasks := Tasks.exec_of_world r.fanout (Server.world_step hserver)
      (coordinate_not_mem ha _ _)
    unfold tasks
    rw [hfanout]
    exact htasks

/-- **A run of the runtime is a run of the tasks.** -/
theorem run_taskActions (h : Run sqlClient metrics as r) :
    Tasks.Run metrics (taskActions (init sqlClient metrics) as) r.tasks := by
  refine exec_history (fun as (r : Runtime) =>
    Tasks.Run metrics (taskActions (init sqlClient metrics) as) r.tasks) h rfl ?_
  intro before r₁ a r₂ hbefore ih hstep
  have hlog : taskActions (init sqlClient metrics) (before ++ [a]) =
      taskActions (init sqlClient metrics) before ++ taskStep r₁ a r₂ := log_concat hbefore hstep
  rw [hlog]
  exact exec_append_eq_some.2 ⟨r₁.tasks, ih, task_step hstep⟩

/-! ### A run of the reader -/

theorem refines_run (h : Run sqlClient metrics as r) :
    Server.Refines sqlClient metrics (Server.wakesOf as) (trace (init sqlClient metrics) as) r.server := by
  refine exec_history (fun as (r : Runtime) =>
    Server.Refines sqlClient metrics (Server.wakesOf as) (trace (init sqlClient metrics) as) r.server) h
    (.init sqlClient metrics) ?_
  intro before r₁ a r₂ hbefore ih hstep
  rw [Server.wakesOf_concat, trace_concat hbefore hstep]
  rcases step_cases hstep with ⟨rfl, rfl⟩ | ⟨ha, hserver, -⟩
  · have hnone : Server.wakesOf [ServerAction.world .coordinate] = [] := rfl
    rw [actStep_coordinate, hnone, List.append_nil, List.append_nil]
    exact ih.others rfl rfl
  · exact ih.step (Server.step_effect hserver)

/-- **What the reader has counted**, in every run. -/
theorem metrics_run (h : Run sqlClient metrics as r) : r.server.reader.metrics =
    metrics.after (rows (init sqlClient metrics) as).length (trace (init sqlClient metrics) as)
      (polls (init sqlClient metrics) as) := by
  refine exec_history (fun as (r : Runtime) => r.server.reader.metrics =
    metrics.after (rows (init sqlClient metrics) as).length (trace (init sqlClient metrics) as)
      (polls (init sqlClient metrics) as)) h metrics.after_nothing.symm ?_
  intro before r₁ a r₂ hbefore ih hstep
  have hrows : rows (init sqlClient metrics) (before ++ [a]) = rows (init sqlClient metrics) before ++
      Server.rowsStep r₁.server a r₂.server := log_concat hbefore hstep
  have hpolls : polls (init sqlClient metrics) (before ++ [a]) = polls (init sqlClient metrics) before ++
      Server.pollsStep r₁.server a r₂.server := log_concat hbefore hstep
  rw [hrows, hpolls, trace_concat hbefore hstep, List.length_append, ← Metrics.after_after, ← ih]
  rcases step_cases hstep with ⟨rfl, rfl⟩ | ⟨ha, hserver, -⟩
  · obtain ⟨hrow, hpoll⟩ := Server.comes_to_nothing r₁.server r₁.coordinate.server
      (a := .world .coordinate) nofun
    rw [actStep_coordinate, hrow, hpoll]
    exact (Metrics.after_nothing _).symm
  · exact Server.metrics_step hserver

theorem refused_run (h : Run sqlClient metrics as r) : r.server.reader.metrics.walEventsDroppedTotal =
    metrics.walEventsDroppedTotal +
      UInt64.ofNat ((trace (init sqlClient metrics) as).countP Action.refused) :=
  congrArg Metrics.walEventsDroppedTotal (metrics_run h)

/-! ### Runs of the server -/

theorem exec_coordinate {t : Tasks} {n : Nat} (h : exec Tasks.step r.tasks (.replicate n .coordinate) = some t) :
    exec step r (.replicate n (.world .coordinate)) =
      some { server := { r.server with world := t.world }, fanout := t.fanout } := by
  induction n generalizing r with
  | zero =>
    obtain rfl := Option.some.inj h
    rfl
  | succ n ih =>
    obtain ⟨t₁, hstep, hrest⟩ := exec_cons_eq_some.1 h
    obtain rfl := Option.some.inj hstep
    exact exec_cons_eq_some.2 ⟨r.coordinate, rfl, ih hrest⟩

/-- A step of a task other than the coordinator. -/
def isOther : ServerAction → Bool
  | .world .coordinate => false
  | _ => true

/-- **The runs of the server are among these**, with nothing in between the passes of a broadcast. -/
theorem run_of_server {s : Server} (h : Server.Run sqlClient metrics as s) :
    ∃ bs, Run sqlClient metrics bs ⟨s, none⟩ ∧ bs.filter isOther = as.filter isOther := by
  refine exec_history (fun as s => ∃ bs, Run sqlClient metrics bs ⟨s, none⟩ ∧
    bs.filter isOther = as.filter isOther) h ⟨[], rfl, rfl⟩ ?_
  rintro before s a s' - ⟨bs, hbs, hfilter⟩ hstep
  have hcs : ∃ cs, exec step ⟨s, none⟩ cs = some ⟨s', none⟩ ∧ cs.filter isOther = [a].filter isOther := by
    by_cases ha : a = .world .coordinate
    · subst ha
      obtain ⟨w, hw, hs'⟩ : ∃ w, s.world.step .coordinate = some w ∧ s' = { s with world := w } := by
        have heff := Server.step_effect hstep
        generalize Server.actStep s _ s' = actions at heff
        generalize Server.worldStep s _ s' = was at heff
        cases heff with
        | world _ w hw => exact ⟨w, hw, rfl⟩
      obtain ⟨n, hn⟩ := Tasks.coordinate_of_world hw
      refine ⟨.replicate n (.world .coordinate), ?_, by simp [isOther]⟩
      rw [hs']
      exact exec_coordinate (r := ⟨s, none⟩) hn
    · refine ⟨[a], exec_cons_eq_some.2 ⟨⟨s', none⟩, ?_, rfl⟩, rfl⟩
      rw [step_of_ne ha, hstep]
      rfl
  obtain ⟨cs, hcs, hfilter'⟩ := hcs
  refine ⟨bs ++ cs, exec_append_eq_some.2 ⟨_, hbs, hcs⟩, ?_⟩
  rw [List.filter_append, List.filter_append, hfilter, hfilter']

end Runtime
end MiniGraph
