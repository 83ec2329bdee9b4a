import Mathlib.Data.Prod.Lex
import Mathlib.Data.String.Basic
import MiniGraph.Wal.Replication

/-!
# Replication streams

What a stream of replication events contains, said without the reader: the messages of its payloads,
the relation cache after them, the row events they are converted to and the hints of these. The
lemmas at the end say what each event does to the reader in these terms (`handleMessages_eq`).
-/

namespace MiniGraph
open Lib

/-- The replication events, each with what the outside decides while it is handled. -/
abbrev Stream := List (Outside × ReplicationEvent)

def wake (e : Outside × ReplicationEvent) : Outside × Wake := (e.1, .received (.ok (some e.2)))

/-- The hash tables are visited in ascending order, and the sink takes everything. -/
def Outside.sorted : Outside where
  hintOrder := @Iteration.sorted QueryHint (LinearOrder.lift'
    (fun hint => toLex (hint.table, toLex (hint.column, hint.value)))
    fun a b h => by cases a; cases b; simp_all)
  documentOrder := Iteration.sorted
  now := 0
  sink := fun _ _ _ => .ok ()

/-! ### Messages -/

/-- The messages of an event, if it is a payload that parses as a whole. -/
def decoded : ReplicationEvent → List PgOutputMessage
  | .xLogData data =>
    match parsePgoutputMessages data with
    | .ok messages => messages
    | .error _ => []
  | _ => []

def Stream.messages (stream : Stream) : List PgOutputMessage := stream.flatMap fun e => decoded e.2

/-- The relation cache after the messages `msgs`. -/
def cacheAfter (relations : Relations) (msgs : List PgOutputMessage) : Relations :=
  msgs.foldl (fun relations msg => (pgoutputToWalEvent relations msg).2) relations

/-- The row event of `msg`, if it is a row message whose relation is in the cache. -/
def rowEvent (relations : Relations) (msg : PgOutputMessage) : Option WalEvent :=
  match (pgoutputToWalEvent relations msg).1 with
  | .ok event => event
  | .error _ => none

/-- The row events of `msgs`, each message converted with the cache the ones before it left. -/
def rowEvents (relations : Relations) : List PgOutputMessage → List WalEvent
  | [] => []
  | msg :: msgs =>
    (rowEvent relations msg).toList ++ rowEvents (pgoutputToWalEvent relations msg).2 msgs

def SchemaChanges (relations : Relations) (msg : PgOutputMessage) : Prop :=
  (pgoutputToWalEvent relations msg).1 = .error .schemaChange

instance (relations : Relations) (msg : PgOutputMessage) : Decidable (SchemaChanges relations msg) :=
  match h : (pgoutputToWalEvent relations msg).1 with
  | .error .schemaChange => .isTrue h
  | .ok _ => .isFalse fun h' => nomatch h.symm.trans h'

/-- No message of `msgs` is reported as a schema change. -/
def NoSchemaChange (relations : Relations) : List PgOutputMessage → Prop
  | [] => True
  | msg :: msgs => ¬ SchemaChanges relations msg ∧
    NoSchemaChange (pgoutputToWalEvent relations msg).2 msgs

instance : ∀ (relations : Relations) (msgs : List PgOutputMessage),
    Decidable (NoSchemaChange relations msgs)
  | _, [] => .isTrue trivial
  | relations, msg :: msgs =>
    have := instDecidableNoSchemaChange (pgoutputToWalEvent relations msg).2 msgs
    inferInstanceAs (Decidable (_ ∧ _))

/-- The hints of the events for which there are any. -/
def hintsOf (events : List WalEvent) : List QueryHint :=
  events.flatMap fun event =>
    match generateInvalidationHints event with
    | .ok hints => hints
    | .error _ => []

theorem mem_hintsOf {events : List WalEvent} {hint : QueryHint} : hint ∈ hintsOf events ↔
    ∃ event ∈ events, ∃ hints, generateInvalidationHints event = .ok hints ∧ hint ∈ hints := by
  unfold hintsOf
  rw [List.mem_flatMap]
  refine exists_congr fun event => and_congr_right fun _ => ?_
  cases generateInvalidationHints event <;> simp

theorem Stream.messages_concat (stream : Stream) (e : Outside × ReplicationEvent) :
    messages (stream ++ [e]) = stream.messages ++ decoded e.2 := by
  simp [messages]

theorem cacheAfter_append (relations : Relations) (msgs msgs' : List PgOutputMessage) :
    cacheAfter relations (msgs ++ msgs') = cacheAfter (cacheAfter relations msgs) msgs' :=
  List.foldl_append

theorem noSchemaChange_append {relations : Relations} {msgs msgs' : List PgOutputMessage} :
    NoSchemaChange relations (msgs ++ msgs') ↔
      NoSchemaChange relations msgs ∧ NoSchemaChange (cacheAfter relations msgs) msgs' := by
  induction msgs generalizing relations with
  | nil => simp [NoSchemaChange, cacheAfter]
  | cons msg msgs ih =>
    rw [List.cons_append, NoSchemaChange, NoSchemaChange, ih, and_assoc]
    rfl

/-- The streams a reader can receive and go on with: the server has not stopped them, and no relation
has changed. -/
structure Stream.Running (stream : Stream) : Prop where
  not_stopped : ∀ e ∈ stream, ∀ reached, e.2 ≠ .stoppedAt reached
  noSchemaChange : NoSchemaChange ∅ stream.messages

/-- The streams a reader can receive without a schema change: if the server stops, that is the last
event. -/
structure Stream.Regular (stream : Stream) : Prop where
  not_stopped : ∀ e ∈ stream.dropLast, ∀ reached, e.2 ≠ .stoppedAt reached
  noSchemaChange : NoSchemaChange ∅ stream.messages

namespace Stream
variable {stream : Stream} {e : Outside × ReplicationEvent}

theorem Running.regular (h : stream.Running) : stream.Regular :=
  ⟨fun e he => h.not_stopped e (List.dropLast_subset stream he), h.noSchemaChange⟩

theorem Regular.of_concat (h : Regular (stream ++ [e])) :
    stream.Running ∧ NoSchemaChange (cacheAfter ∅ stream.messages) (decoded e.2) := by
  have hn := h.noSchemaChange
  rw [messages_concat, noSchemaChange_append] at hn
  refine ⟨⟨fun e' he' => h.not_stopped e' ?_, hn.1⟩, hn.2⟩
  rwa [List.dropLast_concat]

theorem Regular.take (h : stream.Regular) {i : Nat} (hi : i < stream.length) :
    Running (stream.take i) := by
  refine ⟨fun e he => h.not_stopped e ?_, ?_⟩
  · rw [List.dropLast_eq_take]
    exact (List.take_subset_take_left stream (by omega)) he
  · have hn := h.noSchemaChange
    rw [← List.take_append_drop i stream, messages, List.flatMap_append, noSchemaChange_append] at hn
    exact hn.1

end Stream

/-! ### What a payload does to the reader -/

def Metrics.consume (n : Nat) (m : Metrics) : Metrics :=
  { m with walEventsConsumedTotal := m.walEventsConsumedTotal + UInt64.ofNat n }

namespace WalReader
variable {r : WalReader}

/-- The reader after row events: they are counted, and their hints buffered in a transaction. -/
def absorb (r : WalReader) (relations : Relations) (events : List WalEvent) : WalReader :=
  { r with
    relations
    metrics := r.metrics.consume events.length
    transaction := r.transaction.map (TransactionBuffer.addAll (hintsOf events)) }

theorem absorb_nil (r : WalReader) (relations : Relations) :
    r.absorb relations [] = { r with relations } := by
  have hmetrics : r.metrics.consume 0 = r.metrics := by simp [Metrics.consume]
  have htx : r.transaction.map (TransactionBuffer.addAll []) = r.transaction := by
    cases r.transaction <;> simp [TransactionBuffer.addAll]
  simp only [absorb, hintsOf, List.flatMap_nil, List.length_nil, hmetrics, htx]

theorem absorb_absorb (r : WalReader) (relations relations' : Relations) (events events' : List WalEvent) :
    (r.absorb relations events).absorb relations' events' =
      r.absorb relations' (events ++ events') := by
  have hmetrics : (r.metrics.consume events.length).consume events'.length =
      r.metrics.consume (events ++ events').length := by
    simp [Metrics.consume, UInt64.add_assoc]
  have htx : (r.transaction.map (TransactionBuffer.addAll (hintsOf events))).map
      (TransactionBuffer.addAll (hintsOf events')) =
      r.transaction.map (TransactionBuffer.addAll (hintsOf (events ++ events'))) := by
    cases r.transaction <;> simp [TransactionBuffer.addAll, hintsOf, Finset.union_assoc]
  simp only [absorb, hmetrics, htx]

theorem handleMessage_eq (r : WalReader) {msg : PgOutputMessage}
    (h : ¬ SchemaChanges r.relations msg) : r.handleMessage msg =
      r.absorb (pgoutputToWalEvent r.relations msg).2 (rowEvent r.relations msg).toList := by
  unfold SchemaChanges at h
  unfold handleMessage
  rcases hconv : pgoutputToWalEvent r.relations msg with ⟨_ | _ | event, relations⟩
  · rename_i err
    cases err
    exact absurd (congrArg Prod.fst hconv) h
  · simp only [rowEvent, hconv, Option.toList_none, absorb_nil]
  · simp only [rowEvent, hconv, Option.toList_some, absorb, hintsOf, List.flatMap_cons,
      List.flatMap_nil]
    cases htx : r.transaction with
    | none => simp [Metrics.consume, Metrics.incWalEventsConsumed]
    | some tx =>
      rcases hgen : generateInvalidationHints event with ⟨table, column⟩ | hints
      · simp [Metrics.consume, Metrics.incWalEventsConsumed, TransactionBuffer.addAll]
      · simp [Metrics.consume, Metrics.incWalEventsConsumed]

theorem handleMessages_eq {msgs : List PgOutputMessage} (hr : r.status = .looping)
    (h : NoSchemaChange r.relations msgs) : r.handleMessages msgs =
      r.absorb (cacheAfter r.relations msgs) (rowEvents r.relations msgs) := by
  induction msgs generalizing r with
  | nil => exact (r.absorb_nil r.relations).symm
  | cons msg msgs ih =>
    have hmsg := r.handleMessage_eq h.1
    have hstatus : (r.handleMessage msg).status = .looping := by rw [hmsg]; exact hr
    have hrelations : (r.handleMessage msg).relations = (pgoutputToWalEvent r.relations msg).2 := by
      rw [hmsg]; rfl
    unfold handleMessages
    rw [hstatus]
    simp only
    rw [ih hstatus (hrelations ▸ h.2), hrelations, hmsg, absorb_absorb]
    rfl

theorem handleData_eq {data : List UInt8} (hr : r.status = .looping)
    (h : NoSchemaChange r.relations (decoded (.xLogData data))) : r.handleData data =
      r.absorb (cacheAfter r.relations (decoded (.xLogData data)))
        (rowEvents r.relations (decoded (.xLogData data))) := by
  unfold handleData
  simp only [decoded] at h ⊢
  cases hparse : parsePgoutputMessages data with
  | error err => exact (r.absorb_nil r.relations).symm
  | ok msgs =>
    rw [hparse] at h
    exact handleMessages_eq hr h

/-! ### What an event does to the reader -/

theorem turn_wake (hr : r.status = .looping) (e : Outside × ReplicationEvent) :
    r.turn (wake e) = handleEvent e.1 r e.2 := by
  unfold turn wake
  rw [hr]

theorem turn_data (hr : r.status = .looping) {o : Outside} {data : List UInt8}
    (h : NoSchemaChange r.relations (decoded (.xLogData data))) :
    r.turn (wake (o, .xLogData data)) =
      ([], r.absorb (cacheAfter r.relations (decoded (.xLogData data)))
        (rowEvents r.relations (decoded (.xLogData data)))) := by
  rw [turn_wake hr]
  exact congrArg (Prod.mk []) (handleData_eq hr h)

/-- What a reader is left with after a regular stream: it loops, and its cache is that of the
messages so far. -/
structure Follows (r : WalReader) (stream : Stream) : Prop where
  looping : r.status = .looping
  relations : r.relations = cacheAfter ∅ stream.messages

theorem Follows.turn {stream : Stream} (h : r.Follows stream) {e : Outside × ReplicationEvent}
    (hrun : Stream.Running (stream ++ [e])) : (r.turn (wake e)).2.Follows (stream ++ [e]) := by
  obtain ⟨-, hn⟩ := hrun.regular.of_concat
  have hstop := hrun.not_stopped e (by simp)
  obtain ⟨o, event⟩ := e
  have hcache : cacheAfter ∅ (Stream.messages (stream ++ [(o, event)])) =
      cacheAfter r.relations (decoded event) := by
    rw [Stream.messages_concat, cacheAfter_append, h.relations]
  refine ⟨?_, ?_⟩
  · cases event with
    | xLogData data =>
      rw [turn_data h.looping (h.relations ▸ hn)]
      exact h.looping
    | stoppedAt reached => exact absurd rfl (hstop reached)
    | _ => rw [turn_wake h.looping]; exact h.looping
  · rw [hcache]
    cases event with
    | xLogData data => rw [turn_data h.looping (h.relations ▸ hn)]; rfl
    | _ => rw [turn_wake h.looping]; rfl

theorem follows_run (sqlClient : Bool) (metrics : Metrics) {stream : Stream} (h : stream.Running) :
    ((start sqlClient metrics).run (stream.map wake)).2.Follows stream := by
  induction stream using List.reverseRecOn with
  | nil => exact ⟨rfl, rfl⟩
  | append_singleton stream e ih =>
    rw [List.map_append, run, List.map_singleton, runs_concat]
    exact (ih h.regular.of_concat.1).turn h

end WalReader
end MiniGraph
