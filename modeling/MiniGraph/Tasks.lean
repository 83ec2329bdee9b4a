import MiniGraph.RoomHistory
import MiniGraph.WorldInv

/-!
# All tasks side by side

A `World` takes a broadcast as one step. Here the coordinator makes the passes of its loop one at a time, as in
`Coordinator`, and the connections and the WAL reader may take steps in between: a queue can be closed between
two entries of one client. What has been done with each command is on record (`recorded_run`). The runs of the
world are those in which nothing comes in between (`run_of_world`).
-/

namespace MiniGraph
open Lib

structure Tasks where
  world : World
  /-- the loop of a broadcast, if it is under way -/
  fanout : Option Fanout

namespace Tasks

def init (metrics : Metrics) : Tasks := { world := World.init metrics, fanout := none }

def coordinator (t : Tasks) : Coordinator :=
  { rooms := t.world.rooms, commands := t.world.commands, fanout := t.fanout }

/-- A turn of the coordinator. -/
def coordinate (t : Tasks) : Tasks :=
  let s := (t.coordinator.step .coordinate).2
  { world := { t.world with rooms := s.rooms, commands := s.commands }, fanout := s.fanout }

/-- One step, if the action is enabled. -/
def step (t : Tasks) : WorldAction → Option Tasks
  | .coordinate => some t.coordinate
  | a => (t.world.step a).map fun world => { t with world }

/-- A run from the start. -/
def Run (metrics : Metrics) (as : List WorldAction) (t : Tasks) : Prop :=
  exec step (init metrics) as = some t

/-! ### Reading a run -/

def acceptedStep (t : Tasks) (a : WorldAction) (t' : Tasks) : List RoomCommand :=
  if a = .coordinate then [] else t'.world.commands.buffer.drop t.world.commands.buffer.length

/-- The commands that the channel accepts. -/
def accepted (t : Tasks) (as : List WorldAction) : List RoomCommand := log step acceptedStep t as

def noteStep (h : List Handling) (t : Tasks) (a : WorldAction) (t' : Tasks) : List Handling :=
  if a = .coordinate then Coordinator.note h t.coordinator t'.coordinator else h

/-- What has been done with them. -/
def history (metrics : Metrics) (as : List WorldAction) : List Handling :=
  record step noteStep [] (init metrics) as

variable {t t' : Tasks} {a : WorldAction} {as bs : List WorldAction} {metrics : Metrics}

theorem accepted_append (h : exec step t as = some t') :
    accepted t (as ++ bs) = accepted t as ++ accepted t' bs := log_append h

theorem accepted_concat (h : exec step t as = some t') {t'' : Tasks} (hstep : t'.step a = some t'') :
    accepted t (as ++ [a]) = accepted t as ++ acceptedStep t' a t'' := log_concat h hstep

theorem history_concat (h : Run metrics as t) (hstep : t.step a = some t') :
    history metrics (as ++ [a]) = noteStep (history metrics as) t a t' := record_concat h hstep

/-! ### What a step can do -/

theorem step_of_ne (ha : a ≠ .coordinate) :
    t.step a = (t.world.step a).map fun world => { t with world } := by
  cases a with
  | coordinate => exact absurd rfl ha
  | _ => rfl

theorem step_cases (h : t.step a = some t') : a = .coordinate ∧ t' = t.coordinate ∨
    a ≠ .coordinate ∧ t.world.step a = some t'.world ∧ t'.fanout = t.fanout := by
  by_cases ha : a = .coordinate
  · subst ha
    exact .inl ⟨rfl, (Option.some.inj h).symm⟩
  · rw [step_of_ne ha] at h
    obtain ⟨w, hw, rfl⟩ := Option.map_eq_some_iff.1 h
    exact .inr ⟨ha, hw, rfl⟩

theorem acceptedStep_eq {cmds : List RoomCommand} (ha : a ≠ .coordinate)
    (hbuffer : t'.world.commands.buffer = t.world.commands.buffer ++ cmds) :
    acceptedStep t a t' = cmds := by
  rw [acceptedStep, if_neg ha, hbuffer, List.drop_left]

theorem beside_step (hstep : t.world.step a = some t'.world) (ha : a ≠ .coordinate) :
    t'.world.commands.buffer = t.world.commands.buffer ++ acceptedStep t a t' ∧
      t'.world.rooms.rooms = t.world.rooms.rooms := by
  cases (World.step_effect hstep).channel with
  | takes cmd action => exact absurd action ha
  | puts cmds action buffer rooms =>
    refine ⟨?_, rooms⟩
    rw [acceptedStep_eq ha buffer, buffer]

theorem recorded_run (h : Run metrics as t) :
    Coordinator.Recorded (accepted (init metrics) as) (history metrics as) t.coordinator := by
  refine exec_history (fun as (t : Tasks) =>
    Coordinator.Recorded (accepted (init metrics) as) (history metrics as) t.coordinator) h
    (Coordinator.recorded_init metrics) ?_
  intro before t a t' hbefore ih hstep
  rw [accepted_concat hbefore hstep, history_concat hbefore hstep, noteStep]
  rcases step_cases hstep with ⟨rfl, rfl⟩ | ⟨ha, hworld, hfanout⟩
  · rw [if_pos rfl, acceptedStep, if_pos rfl, List.append_nil]
    exact ih.turn
  · obtain ⟨hbuffer, hrooms⟩ := beside_step hworld ha
    rw [if_neg ha]
    exact ih.beside hbuffer hrooms hfanout

/-- The channel is never closed: every connection holds a handle. -/
theorem channel_open (h : Run metrics as t) : t.world.commands.closed = false := by
  refine exec_preserves (fun t => t.world.commands.closed = false) h rfl fun t a t' ih hstep => ?_
  rcases step_cases hstep with ⟨rfl, rfl⟩ | ⟨ha, hworld, -⟩
  · exact (Coordinator.closed_turn t.coordinator).trans ih
  · rw [(World.step_effect hworld).channel_closed]
    exact ih

/-! ### Runs of the world -/

theorem exec_of_world {w w' : World} (fanout : Option Fanout) (h : exec World.step w as = some w')
    (has : .coordinate ∉ as) : exec step ⟨w, fanout⟩ as = some ⟨w', fanout⟩ := by
  induction as generalizing w with
  | nil =>
    obtain rfl := Option.some.inj h
    rfl
  | cons a as ih =>
    obtain ⟨w₁, hstep, hrest⟩ := exec_cons_eq_some.1 h
    have ha : a ≠ .coordinate := fun heq => has (heq ▸ List.mem_cons_self)
    refine exec_cons_eq_some.2 ⟨⟨w₁, fanout⟩, ?_, ih hrest fun hmem => has (List.mem_cons_of_mem _ hmem)⟩
    rw [step_of_ne ha, hstep]
    rfl

theorem exec_coordinate (t : Tasks) (n : Nat) : ∃ t', exec step t (.replicate n .coordinate) = some t' ∧
    t'.coordinator = (runs Coordinator.step t.coordinator (.replicate n .coordinate)).2 ∧
      t'.world.sessions = t.world.sessions ∧ t'.world.nextAck = t.world.nextAck := by
  induction n generalizing t with
  | zero => exact ⟨t, rfl, rfl, rfl, rfl⟩
  | succ n ih =>
    obtain ⟨t', hexec, hcoordinator, hsessions, hnext⟩ := ih t.coordinate
    exact ⟨t', exec_cons_eq_some.2 ⟨_, rfl, hexec⟩, hcoordinator, hsessions, hnext⟩

theorem eq_of_parts {w : World} {s : Coordinator} (hcoordinator : t.coordinator = s)
    (hrooms : s.rooms = w.rooms) (hcommands : s.commands = w.commands) (hfanout : s.fanout = none)
    (hsessions : t.world.sessions = w.sessions) (hnext : t.world.nextAck = w.nextAck) : t = ⟨w, none⟩ := by
  subst hcoordinator
  obtain ⟨⟨rooms, commands, sessions, nextAck, _⟩, fanout⟩ := t
  obtain ⟨rooms', commands', sessions', nextAck', _⟩ := w
  obtain rfl : rooms = rooms' := hrooms
  obtain rfl : commands = commands' := hcommands
  obtain rfl : fanout = none := hfanout
  obtain rfl : sessions = sessions' := hsessions
  obtain rfl : nextAck = nextAck' := hnext
  rfl

theorem coordinate_of_world {w w' : World} (h : w.step .coordinate = some w') :
    ∃ n, exec step ⟨w, none⟩ (.replicate n .coordinate) = some ⟨w', none⟩ := by
  simp only [World.step] at h
  split at h
  · rename_i cmd commands hrecv
    obtain rfl := Option.some.inj h
    obtain ⟨n, hn⟩ := Coordinator.coordinate_process (s := (⟨w, none⟩ : Tasks).coordinator) rfl hrecv
    obtain ⟨t, hexec, hcoordinator, hsessions, hnext⟩ := exec_coordinate ⟨w, none⟩ n
    obtain rfl : t = ⟨{ w with commands, rooms := w.rooms.process cmd }, none⟩ :=
      eq_of_parts (hcoordinator.trans hn) rfl rfl rfl hsessions hnext
    exact ⟨n, hexec⟩
  · cases h

/-- **The runs of the world are among these.** -/
theorem run_of_world {w : World} (h : World.Run metrics as w) : ∃ bs, Run metrics bs ⟨w, none⟩ ∧
    bs.filter (· ≠ .coordinate) = as.filter (· ≠ .coordinate) := by
  refine exec_history (fun as w => ∃ bs, Run metrics bs ⟨w, none⟩ ∧
    bs.filter (· ≠ .coordinate) = as.filter (· ≠ .coordinate)) h ⟨[], rfl, rfl⟩ ?_
  rintro before w a w' - ⟨bs, hbs, hfilter⟩ hstep
  have hcs : ∃ cs, exec step ⟨w, none⟩ cs = some ⟨w', none⟩ ∧
      cs.filter (· ≠ .coordinate) = [a].filter (· ≠ .coordinate) := by
    by_cases ha : a = .coordinate
    · subst ha
      obtain ⟨n, hn⟩ := coordinate_of_world hstep
      exact ⟨_, hn, by simp⟩
    · have hworld : exec World.step w [a] = some w' := exec_cons_eq_some.2 ⟨w', hstep, rfl⟩
      exact ⟨[a], exec_of_world _ hworld (by simpa using Ne.symm ha), rfl⟩
  obtain ⟨cs, hcs, hfilter'⟩ := hcs
  refine ⟨bs ++ cs, exec_append_eq_some.2 ⟨_, hbs, hcs⟩, ?_⟩
  rw [List.filter_append, List.filter_append, hfilter, hfilter']

end Tasks
end MiniGraph
