import MiniGraph.Wal.Delivery
import MiniGraph.Wal.RelationCache

/-!
# Runs of the reader

A reader wakes up with commands, ticks and replication events. `Wake.Ends` says which wake-up ends it,
`handled` which ones it gets to: those up to the first that ends it. Up to there the reader follows the
events among them (`Tracks`). The last one makes it stop the replication at most (`turn_ends`), and
behind it nothing happens any more (`run_of_ended`).
-/

namespace MiniGraph
open Lib WalReader

/-! ### Wake-ups -/

/-- The replication event that `w` brings, if it does. -/
def Wake.event : Wake → Option ReplicationEvent
  | .received (.ok (some event)) => some event
  | _ => none

/-- The replication events among `wakes`. -/
def eventsOf (wakes : List (Outside × Wake)) : Stream :=
  wakes.filterMap fun w => w.2.event.map fun event => (w.1, event)

/-- `event` ends a reader whose relation cache is `relations`. -/
def ReplicationEvent.Ends (relations : Relations) : ReplicationEvent → Prop
  | .xLogData data => ¬ NoSchemaChange relations (decoded (.xLogData data))
  | .stoppedAt _ => True
  | _ => False

instance (relations : Relations) : DecidablePred (ReplicationEvent.Ends relations)
  | .xLogData data => inferInstanceAs (Decidable (¬ NoSchemaChange relations (decoded (.xLogData data))))
  | .begin => .isFalse id
  | .commit _ => .isFalse id
  | .keepAlive _ _ => .isFalse id
  | .stoppedAt _ => .isTrue trivial

/-- `w` ends a reader whose relation cache is `relations`. -/
def Wake.Ends (relations : Relations) : Wake → Prop
  | .command _ => True
  | .slotPoll _ => False
  | .received (.ok (some event)) => event.Ends relations
  | .received (.ok none) => True
  | .received (.error _) => True

instance (relations : Relations) : DecidablePred (Wake.Ends relations)
  | .command _ => .isTrue trivial
  | .slotPoll _ => .isFalse id
  | .received (.ok (some event)) => inferInstanceAs (Decidable (event.Ends relations))
  | .received (.ok none) => .isTrue trivial
  | .received (.error _) => .isTrue trivial

/-- The relation cache behind `w`. -/
def Wake.cacheAfter (relations : Relations) (w : Wake) : Relations :=
  match w.event with
  | some event => MiniGraph.cacheAfter relations (decoded event)
  | none => relations

/-- The wake-ups that a reader with the relation cache `relations` gets to: those up to the first that
ends it. -/
def handled (relations : Relations) : List (Outside × Wake) → List (Outside × Wake)
  | [] => []
  | w :: wakes =>
    if w.2.Ends relations then [w] else w :: handled (w.2.cacheAfter relations) wakes

theorem eventsOf_append (wakes wakes' : List (Outside × Wake)) :
    eventsOf (wakes ++ wakes') = eventsOf wakes ++ eventsOf wakes' := List.filterMap_append

theorem eventsOf_cons_of_some {w : Outside × Wake} {event : ReplicationEvent} (h : w.2.event = some event)
    (wakes : List (Outside × Wake)) : eventsOf (w :: wakes) = (w.1, event) :: eventsOf wakes :=
  List.filterMap_cons_some (by rw [h]; rfl)

theorem eventsOf_cons_of_none {w : Outside × Wake} (h : w.2.event = none)
    (wakes : List (Outside × Wake)) : eventsOf (w :: wakes) = eventsOf wakes :=
  List.filterMap_cons_none (by rw [h]; rfl)

theorem event_eq_some {w : Wake} {event : ReplicationEvent} :
    w.event = some event ↔ w = .received (.ok (some event)) := by
  constructor
  · intro h
    match w, h with
    | .received (.ok (some _)), h => rw [Option.some.inj h]
  · rintro rfl
    rfl

namespace WalReader
variable {r : WalReader} {w : Outside × Wake} {wakes : List (Outside × Wake)}

/-- What the reader does. -/
def trace (r : WalReader) (wakes : List (Outside × Wake)) : List Action := (r.run wakes).1.flatten

theorem run_cons (r : WalReader) (w : Outside × Wake) (wakes : List (Outside × Wake)) :
    r.run (w :: wakes) = ((r.turn w).1 :: ((r.turn w).2.run wakes).1, ((r.turn w).2.run wakes).2) := rfl

theorem run_append (r : WalReader) (wakes wakes' : List (Outside × Wake)) :
    r.run (wakes ++ wakes') =
      ((r.run wakes).1 ++ ((r.run wakes).2.run wakes').1, ((r.run wakes).2.run wakes').2) :=
  runs_append wakes wakes'

theorem trace_append (r : WalReader) (wakes wakes' : List (Outside × Wake)) :
    r.trace (wakes ++ wakes') = r.trace wakes ++ (r.run wakes).2.trace wakes' := by
  unfold trace
  rw [run_append, List.flatten_append]

theorem trace_cons (r : WalReader) (w : Outside × Wake) (wakes : List (Outside × Wake)) :
    r.trace (w :: wakes) = (r.turn w).1 ++ (r.turn w).2.trace wakes := rfl

theorem turn_event {event : ReplicationEvent} (hr : r.status = .looping) (hw : w.2.event = some event) :
    r.turn w = handleEvent w.1 r event := by
  obtain ⟨o, w⟩ := w
  obtain rfl := event_eq_some.1 hw
  exact turn_wake hr (o, event)

/-! ### The end -/

theorem turn_of_ended (h : r.status ≠ .looping) : r.turn w = ([], r) := by
  unfold turn
  split
  · next hlooping => exact absurd hlooping h
  · rfl

theorem run_of_ended (h : r.status ≠ .looping) (wakes : List (Outside × Wake)) :
    r.run wakes = (wakes.map fun _ => [], r) := by
  induction wakes with
  | nil => rfl
  | cons w wakes ih =>
    rw [run_cons, turn_of_ended h, ih]
    rfl

theorem flatten_idle (wakes : List (Outside × Wake)) : (wakes.map fun _ => ([] : List Action)).flatten = [] := by
  rw [List.flatten_eq_nil_iff]
  intro actions hactions
  obtain ⟨-, -, rfl⟩ := List.mem_map.1 hactions
  rfl

theorem trace_of_ended (h : r.status ≠ .looping) (wakes : List (Outside × Wake)) : r.trace wakes = [] := by
  unfold trace
  rw [run_of_ended h, flatten_idle]

theorem exists_schemaChange {relations : Relations} {msgs : List PgOutputMessage}
    (h : ¬ NoSchemaChange relations msgs) : ∃ pre msg post, msgs = pre ++ msg :: post ∧
      NoSchemaChange relations pre ∧ SchemaChanges (MiniGraph.cacheAfter relations pre) msg := by
  induction msgs generalizing relations with
  | nil => exact absurd trivial h
  | cons msg msgs ih =>
    by_cases hmsg : SchemaChanges relations msg
    · exact ⟨[], msg, msgs, rfl, trivial, hmsg⟩
    · have hrest : ¬ NoSchemaChange (pgoutputToWalEvent relations msg).2 msgs := fun hrest => h ⟨hmsg, hrest⟩
      obtain ⟨pre, msg', post, rfl, hpre, hmsg'⟩ := ih hrest
      exact ⟨msg :: pre, msg', post, rfl, ⟨hmsg, hpre⟩, hmsg'⟩

theorem handleMessages_append {msgs msgs' : List PgOutputMessage}
    (h : (r.handleMessages msgs).status = .looping) :
    r.handleMessages (msgs ++ msgs') = (r.handleMessages msgs).handleMessages msgs' := by
  induction msgs generalizing r with
  | nil => rfl
  | cons msg msgs ih =>
    rw [List.cons_append, handleMessages, handleMessages]
    rw [handleMessages] at h
    cases hstatus : (r.handleMessage msg).status with
    | looping =>
      rw [hstatus] at h
      exact ih h
    | stopped =>
      rw [hstatus] at h
      exact absurd (hstatus.symm.trans h) (by decide)
    | returned =>
      rw [hstatus] at h
      exact absurd (hstatus.symm.trans h) (by decide)

/-- **A schema change** ends the payload: what is before it is done, and what is behind it is not. -/
theorem handleMessages_schemaChange {pre post : List PgOutputMessage} {msg : PgOutputMessage}
    (hr : r.status = .looping) (hpre : NoSchemaChange r.relations pre)
    (hmsg : SchemaChanges (MiniGraph.cacheAfter r.relations pre) msg) :
    r.handleMessages (pre ++ msg :: post) =
      { r.absorb (MiniGraph.cacheAfter r.relations pre) (rowEvents r.relations pre) with
        status := .returned } := by
  have hbefore := handleMessages_eq hr hpre
  have hlooping : (r.handleMessages pre).status = .looping := by
    rw [hbefore]
    exact hr
  have hreturned : ((r.handleMessages pre).handleMessage msg) =
      { r.handleMessages pre with status := .returned } := by
    have hconv : pgoutputToWalEvent (r.handleMessages pre).relations msg =
        (.error .schemaChange, (r.handleMessages pre).relations) := by
      have hrelations : (r.handleMessages pre).relations = MiniGraph.cacheAfter r.relations pre := by
        rw [hbefore]
        rfl
      rw [hrelations]
      exact Prod.ext hmsg hmsg.relations_eq
    unfold handleMessage
    rw [hconv]
  rw [handleMessages_append hlooping, handleMessages, hreturned]
  simp only
  rw [hbefore]

theorem turn_ends (hr : r.status = .looping) (h : w.2.Ends r.relations) :
    (r.turn w).2.status ≠ .looping ∧ ((r.turn w).1 = [] ∨ (r.turn w).1 = [.stopReplication]) := by
  have hstopped : ReaderStatus.stopped ≠ .looping := by decide
  have hreturned : ReaderStatus.returned ≠ .looping := by decide
  obtain ⟨o, w⟩ := w
  unfold turn
  rw [hr]
  cases w with
  | command cmd =>
    cases cmd with
    | none => exact ⟨hstopped, .inr rfl⟩
    | some cmd => exact ⟨hstopped, .inr rfl⟩
  | slotPoll health => exact absurd h id
  | received ev =>
    cases ev with
    | error err => exact ⟨hstopped, .inl rfl⟩
    | ok ev =>
      cases ev with
      | none => exact ⟨hstopped, .inl rfl⟩
      | some event =>
        cases event with
        | xLogData data =>
          refine ⟨?_, .inl rfl⟩
          show (r.handleData data).status ≠ .looping
          have hn : ¬ NoSchemaChange r.relations (decoded (.xLogData data)) := h
          unfold handleData
          simp only [decoded] at hn
          cases hparse : parsePgoutputMessages data with
          | error err =>
            rw [hparse] at hn
            exact absurd trivial hn
          | ok msgs =>
            rw [hparse] at hn
            obtain ⟨pre, msg, post, rfl, hpre, hmsg⟩ := exists_schemaChange hn
            simp only [handleMessages_schemaChange hr hpre hmsg]
            exact hreturned
        | stoppedAt reached => exact ⟨hstopped, .inl rfl⟩
        | begin => exact absurd h id
        | commit endLsn => exact absurd h id
        | keepAlive walEnd replyRequested => exact absurd h id

/-! ### Before the end -/

/-- The reader is in its loop, and has followed `stream`. -/
structure Tracks (r : WalReader) (stream : Stream) : Prop where
  running : stream.Running
  follows : r.Follows stream
  buffers : Buffers r stream

theorem tracks_start (sqlClient : Bool) (metrics : Metrics) : (start sqlClient metrics).Tracks [] where
  running := ⟨nofun, trivial⟩
  follows := ⟨rfl, rfl⟩
  buffers := .start sqlClient metrics

namespace Tracks
variable {stream : Stream} {event : ReplicationEvent}

theorem running_concat (h : r.Tracks stream) (hw : ¬ event.Ends r.relations) (o : Outside) :
    Stream.Running (stream ++ [(o, event)]) := by
  have hrelations := h.follows.relations
  have hn : NoSchemaChange r.relations (decoded event) := by
    cases event with
    | xLogData data => exact not_not.1 hw
    | _ => exact trivial
  refine ⟨?_, ?_⟩
  · intro e he
    rcases List.mem_append.1 he with he | he
    · exact h.running.not_stopped e he
    · rw [List.mem_singleton.1 he]
      rintro reached rfl
      exact hw trivial
  · rw [Stream.messages_concat, noSchemaChange_append]
    exact ⟨h.running.noSchemaChange, hrelations ▸ hn⟩

theorem received (h : r.Tracks stream) (hw : ¬ event.Ends r.relations) (o : Outside) :
    (r.turn (wake (o, event))).2.Tracks (stream ++ [(o, event)]) where
  running := h.running_concat hw o
  follows := h.follows.turn (h.running_concat hw o)
  buffers := h.buffers.turn h.follows (h.running_concat hw o).regular

theorem polled (h : r.Tracks stream) (hw : ¬ w.2.Ends r.relations) (hevent : w.2.event = none) :
    (r.turn w).1 = [] ∧ (r.turn w).2.Tracks stream := by
  obtain ⟨o, w⟩ := w
  cases w with
  | command cmd => exact absurd trivial hw
  | slotPoll health =>
    unfold turn
    rw [h.follows.looping]
    simp only
    split
    · refine ⟨rfl, h.running, ⟨rfl, h.follows.relations⟩, ?_⟩
      exact ⟨h.buffers.closed, h.buffers.opened, h.buffers.hints⟩
    · exact ⟨rfl, h⟩
  | received ev =>
    match ev with
    | .error err => exact absurd trivial hw
    | .ok none => exact absurd trivial hw
    | .ok (some event) => cases hevent

theorem turn (h : r.Tracks stream) (hw : ¬ w.2.Ends r.relations) :
    (r.turn w).2.Tracks (stream ++ eventsOf [w]) := by
  cases hevent : w.2.event with
  | none =>
    rw [eventsOf_cons_of_none hevent]
    show (r.turn w).2.Tracks (stream ++ [])
    rw [List.append_nil]
    exact (h.polled hw hevent).2
  | some event =>
    obtain ⟨o, w⟩ := w
    obtain rfl := event_eq_some.1 hevent
    exact h.received hw o

theorem relations_turn (h : r.Tracks stream) (hw : ¬ w.2.Ends r.relations) :
    (r.turn w).2.relations = w.2.cacheAfter r.relations := by
  have hturn := (h.turn hw).follows.relations
  unfold Wake.cacheAfter
  cases hevent : w.2.event with
  | none =>
    rw [eventsOf_cons_of_none hevent, eventsOf, List.filterMap_nil, List.append_nil] at hturn
    exact hturn.trans h.follows.relations.symm
  | some event =>
    rw [eventsOf_cons_of_some hevent, Stream.messages, List.flatMap_append, ← Stream.messages,
      cacheAfter_append, ← h.follows.relations] at hturn
    rw [hturn]
    exact congrArg (MiniGraph.cacheAfter r.relations) (List.append_nil _)

end Tracks

/-- What the reader gets to is all that matters. -/
theorem trace_handled {stream : Stream} (h : r.Tracks stream) (wakes : List (Outside × Wake)) :
    r.trace wakes = r.trace (handled r.relations wakes) := by
  induction wakes generalizing r stream with
  | nil => rfl
  | cons w wakes ih =>
    unfold handled
    split
    · next hw =>
      have hended := (turn_ends h.follows.looping hw).1
      rw [trace_cons, trace_cons, trace_of_ended hended, trace_of_ended hended]
    · next hw =>
      rw [trace_cons, trace_cons, ih (h.turn hw), h.relations_turn hw]

theorem turn_of_no_commit (hr : r.status = .looping) (hw : ¬ w.2.Ends r.relations)
    (hcommit : ∀ endLsn, w.2.event ≠ some (.commit endLsn)) : (r.turn w).1 = [] := by
  obtain ⟨o, w⟩ := w
  unfold turn
  rw [hr]
  match w with
  | .command cmd => exact absurd trivial hw
  | .slotPoll health =>
    simp only
    split <;> rfl
  | .received (.error err) => exact absurd trivial hw
  | .received (.ok none) => exact absurd trivial hw
  | .received (.ok (some event)) =>
    cases event with
    | commit endLsn => exact absurd rfl (hcommit endLsn)
    | _ => rfl

theorem trace_of_no_commit (r : WalReader)
    (h : ∀ w ∈ wakes, ∀ endLsn, w.2.event ≠ some (.commit endLsn)) :
    r.trace wakes = [] ∨ r.trace wakes = [.stopReplication] ∧ (r.run wakes).2.status ≠ .looping := by
  induction wakes generalizing r with
  | nil => exact .inl rfl
  | cons w wakes ih =>
    have hrest := fun r => ih r fun w' hw' => h w' (List.mem_cons_of_mem _ hw')
    rw [trace_cons, run_cons]
    by_cases hr : r.status = .looping
    · by_cases hw : w.2.Ends r.relations
      · obtain ⟨hended, hactions⟩ := turn_ends hr hw
        rw [trace_of_ended hended, run_of_ended hended, List.append_nil]
        exact hactions.imp_right fun hstop => ⟨hstop, hended⟩
      · rw [turn_of_no_commit hr hw (h w List.mem_cons_self), List.nil_append]
        exact hrest _
    · rw [turn_of_ended hr]
      exact hrest r

theorem quiet_of_begin (hw : w.2.event = some .begin)
    (h : ∀ w ∈ wakes, ∀ endLsn, w.2.event ≠ some (.commit endLsn)) :
    ∀ w' ∈ w :: wakes, ∀ endLsn, w'.2.event ≠ some (.commit endLsn) := by
  intro w' hw' endLsn hcommit
  rcases List.mem_cons.1 hw' with rfl | hw'
  · cases hw.symm.trans hcommit
  · exact h w' hw' endLsn hcommit

theorem tracks_of_looping {stream : Stream} (h : r.Tracks stream)
    (hlooping : (r.run wakes).2.status = .looping) : (r.run wakes).2.Tracks (stream ++ eventsOf wakes) := by
  induction wakes generalizing r stream with
  | nil =>
    show r.Tracks (stream ++ [])
    rwa [List.append_nil]
  | cons w wakes ih =>
    rw [run_cons] at hlooping ⊢
    by_cases hw : w.2.Ends r.relations
    · have hended := (turn_ends h.follows.looping hw).1
      rw [run_of_ended hended] at hlooping
      exact absurd hlooping hended
    · have htracks := ih (h.turn hw) hlooping
      rw [List.append_assoc, ← eventsOf_append] at htracks
      exact htracks

/-- The wake-ups around the last `Begin`. -/
theorem exists_begin {p mid : Stream} {b : Outside × ReplicationEvent}
    (h : LastBegin (eventsOf wakes) p b mid) : ∃ before w after, wakes = before ++ w :: after ∧
      w.2.event = some .begin ∧ ∀ w' ∈ after, ∀ endLsn, w'.2.event ≠ some (.commit endLsn) := by
  obtain ⟨before, rest, rfl, -, hrest⟩ := List.filterMap_eq_append_iff.1 h.split
  obtain ⟨between, w, after, rfl, -, hw, hafter⟩ := List.filterMap_eq_cons_iff.1 hrest
  obtain ⟨event, hevent, rfl⟩ := Option.map_eq_some_iff.1 hw
  refine ⟨before ++ between, w, after, (List.append_assoc _ _ _).symm, ?_, ?_⟩
  · rw [hevent]
    exact congrArg some h.begins
  · intro w' hw' endLsn hcommit
    have hmem : (w'.1, ReplicationEvent.commit endLsn) ∈ mid := by
      rw [← hafter]
      exact List.mem_filterMap.2 ⟨w', hw', by rw [hcommit]; rfl⟩
    exact h.not_commit _ hmem endLsn rfl

end WalReader
end MiniGraph
