import MiniGraph.Wal.ReaderRuns
import MiniGraph.Wal.Sink
import MiniGraph.WorldInv

/-!
# The server (`src/lib.rs`)

`run_server` wires the parts together: the WAL reader hands its invalidations to the command channel that
the connections send to, too. All tasks run side by side, and between two calls of the sink in a commit
any of them may take a step. The reader and the rooms count in different fields of the metrics, so each of
them has its own copy here.

A run of the server is a run of the world (`run_worldActions`), and a run of the reader whose sink answers
as the channel does (`Refines`).
-/

namespace MiniGraph
open Lib

/-- What the outside decides while the reader is awake; what the sink answers is up to the channel. -/
structure Surroundings where
  hintOrder : Iteration QueryHint
  documentOrder : Iteration DocumentId
  now : UInt64

abbrev SinkAnswers := DocumentId → List QueryHint → UInt64 → Except RoomCommandError Unit

def Surroundings.outside (o : Surroundings) (sink : SinkAnswers) : Outside :=
  { hintOrder := o.hintOrder, documentOrder := o.documentOrder, now := o.now, sink }

/-- For the turns that do not call the sink. -/
def Surroundings.silent (o : Surroundings) : Outside := o.outside fun _ _ _ => .ok ()

def Outside.surroundings (o : Outside) : Surroundings :=
  { hintOrder := o.hintOrder, documentOrder := o.documentOrder, now := o.now }

/-- A commit that is under way: the loop over the routed hints has not come to `remaining`. -/
structure Commit where
  endLsn : UInt64
  timestamp : UInt64
  remaining : List (DocumentId × List QueryHint)

structure Server where
  world : World
  reader : WalReader
  commit : Option Commit

inductive ServerAction where
  /-- a step of a connection or of the coordinator -/
  | world (a : WorldAction)
  | wake (o : Surroundings) (w : Wake)
  /-- the reader goes on with its commit -/
  | deliver

namespace WalReader

/-- The loop over the routed hints of a commit. -/
def routed (r : WalReader) (o : Surroundings) : List (DocumentId × List QueryHint) :=
  match r.transaction with
  | none => []
  | some tx => entries o.documentOrder (HintRouter.route o.hintOrder tx.take.1)

/-- `metrics.inc_wal_events_dropped()` if the sink's channel is full. -/
def countAnswer (m : Metrics) : Except RoomCommandError Unit → Metrics
  | .error .channelFull => m.incWalEventsDropped
  | _ => m

end WalReader

namespace Server

def init (sqlClient : Bool) (metrics : Metrics) : Server where
  world := World.init metrics
  reader := WalReader.start sqlClient metrics
  commit := none

def beginCommit (s : Server) (o : Surroundings) (endLsn : UInt64) : Server :=
  { s with
    reader := { s.reader with transaction := none }
    commit := some { endLsn, timestamp := o.now, remaining := s.reader.routed o } }

/-- One pass of the delivery loop, or what follows it. -/
def deliver (s : Server) (c : Commit) : List Action × Server :=
  match c.remaining with
  | (documentId, hints) :: remaining =>
    match RoomsInvalidationSink.sendInvalidation s.world.commands documentId hints c.timestamp with
    | .ok commands =>
      ([.sendInvalidation documentId hints c.timestamp (.ok ())],
        { s with world := { s.world with commands }, commit := some { c with remaining } })
    | .error err =>
      ([.sendInvalidation documentId hints c.timestamp (.error err)],
        { s with
          reader := { s.reader with metrics := WalReader.countAnswer s.reader.metrics (.error err) }
          commit := some { c with remaining } })
  | [] =>
    ([.setWalLsn c.endLsn, .updateAppliedLsn c.endLsn],
      { s with
        reader := { s.reader with metrics := s.reader.metrics.setWalLsn c.endLsn }
        commit := none })

/-- One step, and what the reader does in it, if the action is enabled. The reader is one task: it does
not wake up before it is done with its commit. -/
def act (s : Server) : ServerAction → Option (List Action × Server)
  | .world (.sinkBroadcast _ _) => none
  | .world a => (s.world.step a).map fun world => ([], { s with world })
  | .wake o w =>
    match s.commit with
    | some _ => none
    | none =>
      match s.reader.status, w with
      | .looping, .received (.ok (some (.commit endLsn))) => some ([], s.beginCommit o endLsn)
      | _, _ =>
        let (actions, reader) := s.reader.turn (o.silent, w)
        some (actions, { s with reader })
  | .deliver => s.commit.map s.deliver

def step (s : Server) (a : ServerAction) : Option Server := (s.act a).map Prod.snd

/-- A run of the server from its start. -/
def Run (sqlClient : Bool) (metrics : Metrics) (as : List ServerAction) (s : Server) : Prop :=
  exec step (init sqlClient metrics) as = some s

/-! ### Reading a run -/

/-- What the reader does in a step. -/
def actStep (s : Server) (a : ServerAction) (_ : Server) : List Action :=
  match s.act a with
  | some (actions, _) => actions
  | none => []

/-- A step as one of the world. -/
def worldStep (s : Server) (a : ServerAction) (_ : Server) : List WorldAction :=
  match a with
  | .world a => [a]
  | .wake _ _ => []
  | .deliver =>
    match s.commit with
    | some ⟨_, timestamp, (documentId, hints) :: _⟩ =>
      [.sinkBroadcast documentId (RoomsInvalidationSink.invalidation hints timestamp)]
    | _ => []

/-- What the reader does in a run. -/
def trace (s : Server) (as : List ServerAction) : List Action := log step actStep s as

/-- A run as one of the world. -/
def worldActions (s : Server) (as : List ServerAction) : List WorldAction := log step worldStep s as

/-- What the reader wakes up with in a run. -/
def wakesOf (as : List ServerAction) : List (Surroundings × Wake) :=
  as.filterMap fun
    | .wake o w => some (o, w)
    | _ => none

/-! ### What a step can do -/

/-- A step of the server is one of these. -/
inductive Effect (s : Server) : ServerAction → List Action → List WorldAction → Server → Prop
  | world (a : WorldAction) (w : World) (step : s.world.step a = some w)
      (local' : ∀ room message, a ≠ .sinkBroadcast room message) :
      Effect s (.world a) [] [a] { s with world := w }
  | began (o : Surroundings) (endLsn : UInt64) (idle : s.commit = none) (looping : s.reader.status = .looping) :
      Effect s (.wake o (.received (.ok (some (.commit endLsn))))) [] [] (s.beginCommit o endLsn)
  | turned (o : Surroundings) (w : Wake) (idle : s.commit = none)
      (other : s.reader.status = .looping → ∀ endLsn, w.event ≠ some (.commit endLsn)) :
      Effect s (.wake o w) (s.reader.turn (o.silent, w)).1 []
        { s with reader := (s.reader.turn (o.silent, w)).2 }
  | accepted (c : Commit) (documentId : DocumentId) (hints : List QueryHint)
      (remaining : List (DocumentId × List QueryHint)) (commands : CommandChannel)
      (commit : s.commit = some c) (next : c.remaining = (documentId, hints) :: remaining)
      (sent : RoomsInvalidationSink.sendInvalidation s.world.commands documentId hints c.timestamp =
        .ok commands) :
      Effect s .deliver [.sendInvalidation documentId hints c.timestamp (.ok ())]
        [.sinkBroadcast documentId (RoomsInvalidationSink.invalidation hints c.timestamp)]
        { s with world := { s.world with commands }, commit := some { c with remaining } }
  | refused (c : Commit) (documentId : DocumentId) (hints : List QueryHint)
      (remaining : List (DocumentId × List QueryHint)) (err : RoomCommandError)
      (commit : s.commit = some c) (next : c.remaining = (documentId, hints) :: remaining)
      (sent : RoomsInvalidationSink.sendInvalidation s.world.commands documentId hints c.timestamp =
        .error err) :
      Effect s .deliver [.sendInvalidation documentId hints c.timestamp (.error err)]
        [.sinkBroadcast documentId (RoomsInvalidationSink.invalidation hints c.timestamp)]
        { s with
          reader := { s.reader with metrics := WalReader.countAnswer s.reader.metrics (.error err) }
          commit := some { c with remaining } }
  | finished (c : Commit) (commit : s.commit = some c) (next : c.remaining = []) :
      Effect s .deliver [.setWalLsn c.endLsn, .updateAppliedLsn c.endLsn] []
        { s with
          reader := { s.reader with metrics := s.reader.metrics.setWalLsn c.endLsn }
          commit := none }

variable {s s' : Server} {a : ServerAction} {as : List ServerAction}

theorem deliver_effect {c : Commit} (h : s.commit = some c) (s' : Server) :
    Effect s .deliver (s.deliver c).1 (worldStep s .deliver s') (s.deliver c).2 := by
  obtain ⟨endLsn, timestamp, remaining⟩ := c
  unfold deliver worldStep
  rw [h]
  cases remaining with
  | nil => exact .finished _ h rfl
  | cons entry remaining =>
    obtain ⟨documentId, hints⟩ := entry
    simp only
    split
    · rename_i commands hsent
      exact .accepted _ documentId hints remaining commands h rfl hsent
    · rename_i err hsent
      exact .refused _ documentId hints remaining err h rfl hsent

/-- **What a step can do.** -/
theorem step_effect (h : s.step a = some s') :
    Effect s a (actStep s a s') (worldStep s a s') s' := by
  unfold step at h
  obtain ⟨⟨actions, s₁⟩, hact, rfl⟩ := Option.map_eq_some_iff.1 h
  have hactions : actStep s a s₁ = actions := by
    unfold actStep
    rw [hact]
  rw [hactions]
  unfold act at hact
  cases a with
  | world a =>
    have hworld : (∀ room message, a ≠ .sinkBroadcast room message) ∧
        (s.world.step a).map (fun world => (([] : List Action), { s with world })) = some (actions, s₁) := by
      cases a with
      | sinkBroadcast room message => cases hact
      | _ => exact ⟨fun room message heq => (by cases heq), hact⟩
    obtain ⟨w, hw, heq⟩ := Option.map_eq_some_iff.1 hworld.2
    obtain ⟨rfl, rfl⟩ := Prod.mk.inj heq
    exact .world a w hw hworld.1
  | wake o w =>
    simp only at hact
    split at hact
    · cases hact
    · rename_i hidle
      split at hact
      · rename_i endLsn hlooping
        obtain ⟨rfl, rfl⟩ := Prod.mk.inj (Option.some.inj hact)
        exact .began o endLsn hidle hlooping
      · rename_i hother
        obtain ⟨rfl, rfl⟩ := Prod.mk.inj (Option.some.inj hact)
        refine .turned o _ hidle fun hlooping endLsn hevent => ?_
        exact hother endLsn hlooping (event_eq_some.1 hevent)
  | deliver =>
    obtain ⟨c, hc, hdeliver⟩ := Option.map_eq_some_iff.1 hact
    have heff := deliver_effect hc s₁
    rwa [hdeliver] at heff

/-! ### A run of the world -/

theorem world_step (h : s.step a = some s') :
    exec World.step s.world (worldStep s a s') = some s'.world := by
  have heff := step_effect h
  generalize actStep s a s' = actions at heff
  generalize worldStep s a s' = was at heff
  cases heff with
  | world a w step => exact exec_cons_eq_some.2 ⟨w, step, rfl⟩
  | began => rfl
  | turned => rfl
  | accepted c documentId hints remaining commands commit next sent =>
    exact exec_cons_eq_some.2 ⟨_, RoomsInvalidationSink.step_sendInvalidation sent, rfl⟩
  | refused c documentId hints remaining err commit next sent =>
    refine exec_cons_eq_some.2 ⟨s.world, ?_, rfl⟩
    unfold RoomsInvalidationSink.sendInvalidation at sent
    simp only [World.step, sent]
  | finished => rfl

theorem trace_concat (h : exec step s as = some s') {s'' : Server} (hstep : s'.step a = some s'') :
    trace s (as ++ [a]) = trace s as ++ actStep s' a s'' := log_concat h hstep

theorem worldActions_concat (h : exec step s as = some s') {s'' : Server}
    (hstep : s'.step a = some s'') : worldActions s (as ++ [a]) = worldActions s as ++ worldStep s' a s'' :=
  log_concat h hstep

theorem worldActions_append {bs : List ServerAction} (h : exec step s as = some s') :
    worldActions s (as ++ bs) = worldActions s as ++ worldActions s' bs := log_append h

theorem worldActions_cons (h : s.step a = some s') :
    worldActions s (a :: as) = worldStep s a s' ++ worldActions s' as := log_cons h

theorem worldActions_world {was : List WorldAction} (h : exec step s (was.map .world) = some s') :
    worldActions s (was.map .world) = was := by
  induction was generalizing s with
  | nil => rfl
  | cons a was ih =>
    obtain ⟨s₁, hstep, hrest⟩ := exec_cons_eq_some.1 h
    rw [List.map_cons, worldActions_cons hstep, ih hrest]
    rfl

theorem exec_world {was : List WorldAction} {w : World} (h : exec World.step s.world was = some w)
    (hothers : ∀ a ∈ was, (World.clientOf a).isSome ∨ a = .coordinate) :
    exec step s (was.map .world) = some { s with world := w } := by
  induction was generalizing s with
  | nil =>
    obtain rfl := Option.some.inj h
    rfl
  | cons a was ih =>
    obtain ⟨w₁, hstep, hrest⟩ := exec_cons_eq_some.1 h
    have hact : s.act (.world a) = (s.world.step a).map fun world => ([], { s with world }) := by
      cases a with
      | sinkBroadcast room message => simp [World.clientOf] at hothers
      | _ => rfl
    have hserver : s.step (.world a) = some { s with world := w₁ } := by
      rw [step, hact, hstep]
      rfl
    exact exec_cons_eq_some.2 ⟨_, hserver, ih hrest fun b hb => hothers b (List.mem_cons_of_mem _ hb)⟩

theorem exec_worldActions (h : exec step s as = some s') :
    exec World.step s.world (worldActions s as) = some s'.world := by
  induction as using List.reverseRecOn generalizing s' with
  | nil =>
    obtain rfl := Option.some.inj h
    rfl
  | append_singleton as a ih =>
    obtain ⟨s₁, h₁, hstep⟩ := exec_concat_eq_some.1 h
    rw [worldActions_concat h₁ hstep]
    exact exec_append_eq_some.2 ⟨s₁.world, ih h₁, world_step hstep⟩

variable {sqlClient : Bool} {metrics : Metrics}

/-- **A run of the server is a run of the world.** -/
theorem run_worldActions (h : Run sqlClient metrics as s) :
    World.Run metrics (worldActions (init sqlClient metrics) as) s.world :=
  exec_worldActions h

/-! ### A run of the reader -/

/-- A call of the sink with its answer. -/
abbrev Answered := (DocumentId × List QueryHint) × Except RoomCommandError Unit

def Answered.action (timestamp : UInt64) (x : Answered) : Action :=
  .sendInvalidation x.1.1 x.1.2 timestamp x.2

/-- The sink that answers as it has been recorded; each document is called for once. -/
def sinkOf (done : List Answered) : SinkAnswers := fun documentId _ _ =>
  match done.find? fun x => x.1.1 = documentId with
  | some x => x.2
  | none => .ok ()

theorem sinkOf_eq {done : List Answered} (h : (done.map fun x => x.1.1).Nodup) {x : Answered}
    (hx : x ∈ done) (hints : List QueryHint) (timestamp : UInt64) :
    sinkOf done x.1.1 hints timestamp = x.2 := by
  induction done with
  | nil => cases hx
  | cons y done ih =>
    rw [List.map_cons, List.nodup_cons] at h
    unfold sinkOf
    rw [List.find?_cons]
    rcases List.mem_cons.1 hx with rfl | hx
    · simp
    · have hne : ¬ y.1.1 = x.1.1 := fun heq => h.1 (List.mem_map.2 ⟨x, hx, heq.symm⟩)
      simp only [hne, decide_false]
      exact ih h.2 hx

theorem runs_sendInvalidation {o : Outside} {timestamp : UInt64} {done : List Answered}
    (h : ∀ x ∈ done, o.sink x.1.1 x.1.2 timestamp = x.2) (m : Metrics) :
    runs (WalReader.sendInvalidation o timestamp) m (done.map Prod.fst) =
      (done.map (Answered.action timestamp), (done.map Prod.snd).foldl WalReader.countAnswer m) := by
  induction done generalizing m with
  | nil => rfl
  | cons x done ih =>
    have hx := h x List.mem_cons_self
    have hsent : WalReader.sendInvalidation o timestamp m x.1 =
        (x.action timestamp, WalReader.countAnswer m x.2) := by
      unfold WalReader.sendInvalidation
      rw [hx]
      rfl
    rw [List.map_cons, runs, hsent, ih fun y hy => h y (List.mem_cons_of_mem _ hy)]
    rfl

theorem handleCommit_answered {r : WalReader} {o : Surroundings} {done : List Answered}
    (h : r.routed o = done.map Prod.fst) (endLsn : UInt64) :
    WalReader.handleCommit (o.outside (sinkOf done)) r endLsn =
      (done.map (Answered.action o.now) ++ [.setWalLsn endLsn, .updateAppliedLsn endLsn],
        { r with
          transaction := none
          metrics := ((done.map Prod.snd).foldl WalReader.countAnswer r.metrics).setWalLsn endLsn }) := by
  unfold WalReader.handleCommit
  unfold WalReader.routed at h
  cases htx : r.transaction with
  | none =>
    rw [htx] at h
    obtain rfl : done = [] := List.map_eq_nil_iff.1 h.symm
    rfl
  | some tx =>
    simp only [htx] at h
    have hnodup : (done.map fun x => x.1.1).Nodup := by
      have hkeys := nodup_entries_keys (m := HintRouter.route o.hintOrder tx.take.1) o.documentOrder
      rw [h, List.map_map] at hkeys
      exact hkeys
    have hanswers : ∀ x ∈ done, (o.outside (sinkOf done)).sink x.1.1 x.1.2 o.now = x.2 :=
      fun x hx => sinkOf_eq hnodup hx x.1.2 o.now
    have hruns := runs_sendInvalidation hanswers r.metrics
    rw [← h] at hruns
    simp only [WalReader.deliver]
    unfold Surroundings.outside at hruns ⊢
    simp only
    rw [hruns]

/-- A wake-up without the answers of the sink. -/
def bare (w : Outside × Wake) : Surroundings × Wake := (w.1.surroundings, w.2)

/-- The reader has woken up with `woken` and has done `actions`: it is where it would be on its own, with a sink
that answers as the channel did, between two commits, or in a commit of which the calls in `done` have been made. -/
inductive Refines (sqlClient : Bool) (metrics : Metrics) (woken : List (Surroundings × Wake))
    (actions : List Action) (s : Server) : Prop
  | idle (wakes : List (Outside × Wake)) (commit : s.commit = none) (woken_eq : woken = wakes.map bare)
      (actions_eq : actions = (WalReader.start sqlClient metrics).trace wakes)
      (reader : s.reader = ((WalReader.start sqlClient metrics).run wakes).2)
  | committing (wakes : List (Outside × Wake)) (r : WalReader) (o : Surroundings) (c : Commit)
      (done : List Answered) (commit : s.commit = some c)
      (woken_eq : woken = wakes.map bare ++ [(o, .received (.ok (some (.commit c.endLsn))))])
      (before : ((WalReader.start sqlClient metrics).run wakes).2 = r) (looping : r.status = .looping)
      (timestamp : c.timestamp = o.now) (routed : r.routed o = done.map Prod.fst ++ c.remaining)
      (actions_eq : actions =
        (WalReader.start sqlClient metrics).trace wakes ++ done.map (Answered.action c.timestamp))
      (reader : s.reader = { r with
        transaction := none
        metrics := (done.map Prod.snd).foldl WalReader.countAnswer r.metrics })

theorem wakesOf_concat (as : List ServerAction) (a : ServerAction) :
    wakesOf (as ++ [a]) = wakesOf as ++ wakesOf [a] := List.filterMap_append

namespace Refines
variable {woken : List (Surroundings × Wake)} {actions acts : List Action} {was : List WorldAction}

theorem init (sqlClient : Bool) (metrics : Metrics) :
    Refines sqlClient metrics [] [] (init sqlClient metrics) :=
  .idle [] rfl rfl rfl rfl

theorem others (h : Refines sqlClient metrics woken actions s) (hreader : s'.reader = s.reader)
    (hcommit : s'.commit = s.commit) : Refines sqlClient metrics woken actions s' := by
  cases h with
  | idle wakes commit woken_eq actions_eq reader =>
    exact .idle wakes (hcommit.trans commit) woken_eq actions_eq (hreader.trans reader)
  | committing wakes r o c done commit woken_eq before looping timestamp routed actions_eq reader =>
    exact .committing wakes r o c done (hcommit.trans commit) woken_eq before looping timestamp routed actions_eq
      (hreader.trans reader)

theorem call {c : Commit} {documentId : DocumentId} {hints : List QueryHint}
    {remaining : List (DocumentId × List QueryHint)} {answer : Except RoomCommandError Unit}
    (h : Refines sqlClient metrics woken actions s) (commit : s.commit = some c)
    (next : c.remaining = (documentId, hints) :: remaining) (hcommit : s'.commit = some { c with remaining })
    (hreader : s'.reader = { s.reader with metrics := WalReader.countAnswer s.reader.metrics answer }) :
    Refines sqlClient metrics woken (actions ++ [.sendInvalidation documentId hints c.timestamp answer]) s' := by
  cases h with
  | idle wakes idle =>
    rw [idle] at commit
    cases commit
  | committing wakes r o c' done commit' woken_eq before looping timestamp routed actions_eq reader =>
    obtain rfl := Option.some.inj (commit'.symm.trans commit)
    refine .committing wakes r o _ (done ++ [((documentId, hints), answer)]) hcommit woken_eq before looping
      timestamp ?_ ?_ ?_
    · rw [routed, next]
      simp
    · rw [actions_eq, List.map_append, List.append_assoc]
      rfl
    · rw [hreader, reader, List.map_append, List.foldl_append]
      rfl

theorem step (h : Refines sqlClient metrics woken actions s) (heff : Effect s a acts was s') :
    Refines sqlClient metrics (woken ++ wakesOf [a]) (actions ++ acts) s' := by
  cases heff with
  | world a w step =>
    have hnone : wakesOf [ServerAction.world a] = [] := rfl
    rw [hnone, List.append_nil, List.append_nil]
    exact h.others rfl rfl
  | began o endLsn idle looping =>
    cases h with
    | idle wakes commit woken_eq actions_eq reader =>
      refine .committing wakes s.reader o ⟨endLsn, o.now, s.reader.routed o⟩ [] rfl ?_ reader.symm looping rfl
        rfl ?_ rfl
      · rw [woken_eq]
        rfl
      · rw [actions_eq]
        rfl
    | committing wakes r o' c done commit =>
      rw [idle] at commit
      cases commit
  | turned o w idle other =>
    cases h with
    | idle wakes commit woken_eq actions_eq reader =>
      refine .idle (wakes ++ [(o.silent, w)]) idle ?_ ?_ ?_
      · rw [woken_eq, List.map_append]
        rfl
      · rw [actions_eq, WalReader.trace_append, ← reader, WalReader.trace_cons]
        simp [WalReader.trace, WalReader.run, runs]
      · rw [WalReader.run_append, ← reader]
        rfl
    | committing wakes r o' c done commit =>
      rw [idle] at commit
      cases commit
  | accepted c documentId hints remaining commands commit next sent =>
    have hnone : wakesOf [ServerAction.deliver] = [] := rfl
    rw [hnone, List.append_nil]
    exact h.call commit next rfl rfl
  | refused c documentId hints remaining err commit next sent =>
    have hnone : wakesOf [ServerAction.deliver] = [] := rfl
    rw [hnone, List.append_nil]
    exact h.call commit next rfl rfl
  | finished c commit next =>
    cases h with
    | idle wakes idle =>
      rw [idle] at commit
      cases commit
    | committing wakes r o c' done commit' woken_eq before looping timestamp routed actions_eq reader =>
      obtain rfl := Option.some.inj (commit'.symm.trans commit)
      rw [next, List.append_nil] at routed
      have hcommit := handleCommit_answered routed c'.endLsn
      let w : Outside × Wake := (o.outside (sinkOf done), .received (.ok (some (.commit c'.endLsn))))
      have hturn : r.turn w = WalReader.handleCommit (o.outside (sinkOf done)) r c'.endLsn :=
        WalReader.turn_event (w := w) looping rfl
      refine .idle (wakes ++ [w]) rfl ?_ ?_ ?_
      · rw [woken_eq, List.map_append]
        exact List.append_nil _
      · rw [actions_eq, WalReader.trace_append, before, WalReader.trace_cons, hturn, hcommit, timestamp]
        simp [WalReader.trace, WalReader.run, runs]
      · rw [WalReader.run_append, before, WalReader.run_cons, hturn, hcommit, reader]
        rfl

end Refines

/-- **A run of the server is a run of the reader**, or of a reader in the middle of a commit. -/
theorem refines_run (h : Run sqlClient metrics as s) :
    Refines sqlClient metrics (wakesOf as) (trace (init sqlClient metrics) as) s := by
  refine exec_history
    (fun as s => Refines sqlClient metrics (wakesOf as) (trace (init sqlClient metrics) as) s) h
    (.init sqlClient metrics) ?_
  intro before s a s' hbefore ih hstep
  rw [wakesOf_concat, trace_concat hbefore hstep]
  exact ih.step (step_effect hstep)

end Server
end MiniGraph
