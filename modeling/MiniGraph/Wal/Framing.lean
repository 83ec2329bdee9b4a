import MiniGraph.Wal.Payloads
import MiniGraph.Wal.ReaderRuns
import MiniGraph.Wal.WireFormat

/-!
# What the reader listens to

What the reader does is a matter of the messages, the transactions and the commands. It does not matter how
the messages are packed into payloads, nor when there are keep-alives, ticks of the slot poll or payloads
that do not parse, nor what the counters say. A `ReaderCore` is a reader without its counters, whose inputs
are single messages; the reader is such a machine (`turn_core`), and so are all readers that get the same
messages in other payloads (`trace_reframed`).
-/

namespace MiniGraph
open Lib

/-- The reader without its counters. -/
structure ReaderCore where
  relations : Relations
  transaction : Option TransactionBuffer
  status : ReaderStatus

inductive ReaderInput where
  | message (msg : PgOutputMessage)
  | begin
  | commit (o : Outside) (endLsn : UInt64)
  | command
  | ended

def WalReader.core (r : WalReader) : ReaderCore := ⟨r.relations, r.transaction, r.status⟩

namespace ReaderCore

/-- A reader with this core. -/
def reader (c : ReaderCore) : WalReader :=
  { sqlClient := false
    relations := c.relations
    transaction := c.transaction
    metrics := {}
    status := c.status }

def step (c : ReaderCore) (input : ReaderInput) : List Action × ReaderCore :=
  match c.status with
  | .looping =>
    match input with
    | .message msg => ([], (c.reader.handleMessage msg).core)
    | .begin => ([], { c with transaction := some .empty })
    | .commit o endLsn =>
      ((WalReader.handleCommit o c.reader endLsn).1, (WalReader.handleCommit o c.reader endLsn).2.core)
    | .command => ([.stopReplication], { c with status := .stopped })
    | .ended => ([], { c with status := .stopped })
  | _ => ([], c)

end ReaderCore

/-- What an event tells the reader. -/
def ReplicationEvent.inputs (o : Outside) : ReplicationEvent → List ReaderInput
  | .xLogData data => (decoded (.xLogData data)).map .message
  | .begin => [.begin]
  | .commit endLsn => [.commit o endLsn]
  | .keepAlive _ _ => []
  | .stoppedAt _ => [.ended]

def Wake.inputs (o : Outside) : Wake → List ReaderInput
  | .command _ => [.command]
  | .slotPoll _ => []
  | .received (.ok (some event)) => event.inputs o
  | .received (.ok none) => [.ended]
  | .received (.error _) => [.ended]

namespace WalReader
variable {r : WalReader} {c : ReaderCore}

/-! ### The counters do not matter -/

theorem handleMessage_core (r : WalReader) (msg : PgOutputMessage) :
    (r.handleMessage msg).core = (r.core.reader.handleMessage msg).core := by
  obtain ⟨sqlClient, relations, transaction, metrics, status⟩ := r
  simp only [handleMessage, core, ReaderCore.reader]
  rcases pgoutputToWalEvent relations msg with ⟨err | (_ | event), relations'⟩
  · rfl
  · rfl
  · cases transaction with
    | none => rfl
    | some tx =>
      simp only
      cases generateInvalidationHints event <;> rfl

theorem deliver_actions (o : Outside) (timestamp : UInt64) (m m' : Metrics)
    (routed : Groups DocumentId QueryHint) :
    (deliver o timestamp m routed).1 = (deliver o timestamp m' routed).1 := by
  have hsim : (runs (sendInvalidation o timestamp) m (entries o.documentOrder routed)).1 =
      (runs (sendInvalidation o timestamp) m' (entries o.documentOrder routed)).1 ∧ True := by
    refine runs_simulation (R := fun _ _ => True) trivial ?_ _
    intro m m' call _
    exact ⟨rfl, trivial⟩
  exact hsim.1

theorem handleCommit_core (o : Outside) (r : WalReader) (endLsn : UInt64) :
    (handleCommit o r endLsn).1 = (handleCommit o r.core.reader endLsn).1 ∧
      (handleCommit o r endLsn).2.core = (handleCommit o r.core.reader endLsn).2.core := by
  obtain ⟨sqlClient, relations, transaction, metrics, status⟩ := r
  simp only [handleCommit, core, ReaderCore.reader]
  cases transaction with
  | none => exact ⟨rfl, trivial⟩
  | some tx =>
    have hsame := deliver_actions o o.now metrics {} (HintRouter.route o.hintOrder tx.take.1)
    exact ⟨congrArg (· ++ _) hsame, trivial⟩

/-! ### One turn -/

theorem step_of_ended (h : c.status ≠ .looping) (input : ReaderInput) : c.step input = ([], c) := by
  unfold ReaderCore.step
  split
  · next hlooping => exact absurd hlooping h
  · rfl

theorem runs_of_ended (h : c.status ≠ .looping) (inputs : List ReaderInput) :
    (runs ReaderCore.step c inputs).1.flatten = [] ∧ (runs ReaderCore.step c inputs).2 = c := by
  induction inputs with
  | nil => exact ⟨rfl, rfl⟩
  | cons input inputs ih =>
    rw [runs, step_of_ended h]
    exact ih

theorem handleMessages_core (hr : r.status = .looping) (msgs : List PgOutputMessage) :
    (runs ReaderCore.step r.core (msgs.map .message)).1.flatten = [] ∧
      (runs ReaderCore.step r.core (msgs.map .message)).2 = (r.handleMessages msgs).core := by
  induction msgs generalizing r with
  | nil => exact ⟨rfl, rfl⟩
  | cons msg msgs ih =>
    have hstep : r.core.step (.message msg) = ([], (r.handleMessage msg).core) := by
      have hlooping : r.core.status = .looping := hr
      simp only [ReaderCore.step, hlooping, handleMessage_core r msg]
    rw [List.map_cons, runs, hstep, handleMessages]
    cases hstatus : (r.handleMessage msg).status with
    | looping => exact ih hstatus
    | stopped =>
      exact runs_of_ended (c := (r.handleMessage msg).core) (fun h => by cases hstatus.symm.trans h) _
    | returned =>
      exact runs_of_ended (c := (r.handleMessage msg).core) (fun h => by cases hstatus.symm.trans h) _

theorem turn_core (r : WalReader) (w : Outside × Wake) :
    (r.turn w).1 = (runs ReaderCore.step r.core (w.2.inputs w.1)).1.flatten ∧
      (r.turn w).2.core = (runs ReaderCore.step r.core (w.2.inputs w.1)).2 := by
  by_cases hr : r.status = .looping
  · obtain ⟨o, w⟩ := w
    obtain ⟨sqlClient, relations, transaction, metrics, status⟩ := r
    obtain rfl : status = .looping := hr
    rcases w with (_ | cmd) | health | (err | (_ | event))
    · exact ⟨rfl, rfl⟩
    · exact ⟨rfl, rfl⟩
    · cases sqlClient <;> exact ⟨rfl, rfl⟩
    · exact ⟨rfl, rfl⟩
    · exact ⟨rfl, rfl⟩
    · cases event with
      | xLogData data =>
        obtain ⟨hnone, hsame⟩ := handleMessages_core
          (r := ⟨sqlClient, relations, transaction, metrics, .looping⟩) rfl (decoded (.xLogData data))
        simp only [Wake.inputs, ReplicationEvent.inputs, hnone, hsame]
        refine ⟨rfl, ?_⟩
        simp only [turn, handleEvent, handleData, decoded]
        cases parsePgoutputMessages data <;> rfl
      | begin => exact ⟨rfl, rfl⟩
      | commit endLsn =>
        obtain ⟨hactions, hcore⟩ :=
          handleCommit_core o ⟨sqlClient, relations, transaction, metrics, .looping⟩ endLsn
        refine ⟨hactions.trans (List.append_nil _).symm, hcore⟩
      | keepAlive walEnd replyRequested => exact ⟨rfl, rfl⟩
      | stoppedAt reached => exact ⟨rfl, rfl⟩
  · rw [turn_of_ended hr]
    obtain ⟨hnone, hsame⟩ := runs_of_ended (c := r.core) hr (w.2.inputs w.1)
    rw [hnone, hsame]
    exact ⟨rfl, rfl⟩

/-- **The reader is its core**, in every run. -/
theorem trace_core (r : WalReader) (wakes : List (Outside × Wake)) :
    r.trace wakes = (runs ReaderCore.step r.core (wakes.flatMap fun w => w.2.inputs w.1)).1.flatten ∧
      (r.run wakes).2.core = (runs ReaderCore.step r.core (wakes.flatMap fun w => w.2.inputs w.1)).2 :=
  runs_flatMap turn_core r wakes

end WalReader

/-! ### Other payloads -/

/-- The same messages, transactions and commands: payloads are split or joined between messages, and what
says nothing to the reader comes or goes. -/
inductive Reframed : List (Outside × Wake) → List (Outside × Wake) → Prop
  | refl (wakes : List (Outside × Wake)) : Reframed wakes wakes
  | symm {wakes wakes' : List (Outside × Wake)} : Reframed wakes wakes' → Reframed wakes' wakes
  | trans {wakes wakes' wakes'' : List (Outside × Wake)} :
      Reframed wakes wakes' → Reframed wakes' wakes'' → Reframed wakes wakes''
  | split (before after : List (Outside × Wake)) (o o₁ o₂ : Outside) (a b : List UInt8)
      (ms ns : List PgOutputMessage) (first : parsePgoutputMessages a = .ok ms)
      (second : parsePgoutputMessages b = .ok ns) :
      Reframed (before ++ wake (o, .xLogData (a ++ b)) :: after)
        (before ++ wake (o₁, .xLogData a) :: wake (o₂, .xLogData b) :: after)
  | rejected (before after : List (Outside × Wake)) (o : Outside) (data : List UInt8) (e : PgOutputError)
      (fails : parsePgoutputMessages data = .error e) :
      Reframed (before ++ wake (o, .xLogData data) :: after) (before ++ after)
  | keepAlive (before after : List (Outside × Wake)) (o : Outside) (walEnd : UInt64) (replyRequested : Bool) :
      Reframed (before ++ wake (o, .keepAlive walEnd replyRequested) :: after) (before ++ after)
  | slotPoll (before after : List (Outside × Wake)) (o : Outside) (health : SlotHealth) :
      Reframed (before ++ (o, .slotPoll health) :: after) (before ++ after)

theorem Reframed.inputs {wakes wakes' : List (Outside × Wake)} (h : Reframed wakes wakes') :
    wakes.flatMap (fun w => w.2.inputs w.1) = wakes'.flatMap fun w => w.2.inputs w.1 := by
  induction h with
  | refl => rfl
  | symm _ ih => exact ih.symm
  | trans _ _ ih ih' => exact ih.trans ih'
  | split before after o o₁ o₂ a b ms ns first second =>
    have hjoined := parse_append_eq first b
    rw [second] at hjoined
    simp [wake, Wake.inputs, ReplicationEvent.inputs, decoded, first, second, hjoined, Except.map]
  | rejected before after o data e fails =>
    simp [wake, Wake.inputs, ReplicationEvent.inputs, decoded, fails]
  | keepAlive before after o walEnd replyRequested =>
    simp [wake, Wake.inputs, ReplicationEvent.inputs]
  | slotPoll before after o health => simp [Wake.inputs]

/-- **The packing does not matter**: readers that get the same messages, transactions and commands do the
same, whatever their counters say. -/
theorem trace_reframed (sqlClient sqlClient' : Bool) (metrics metrics' : Metrics)
    (wakes wakes' : List (Outside × Wake)) (h : Reframed wakes wakes') :
    (WalReader.start sqlClient metrics).trace wakes = (WalReader.start sqlClient' metrics').trace wakes' ∧
      ((WalReader.start sqlClient metrics).run wakes).2.core =
        ((WalReader.start sqlClient' metrics').run wakes').2.core := by
  obtain ⟨htrace, hcore⟩ := (WalReader.start sqlClient metrics).trace_core wakes
  obtain ⟨htrace', hcore'⟩ := (WalReader.start sqlClient' metrics').trace_core wakes'
  rw [htrace, htrace', hcore, hcore', h.inputs]
  exact ⟨rfl, rfl⟩

/-- The relation `comments`, as a payload. -/
def commentsPayload : List UInt8 :=
  encodeMessages [.relation 7 "public" "comments" 0 [⟨1, "id", 23, -1⟩, ⟨0, "document_id", 25, -1⟩]]

def insertPayload : List UInt8 := encodeMessages [.insert 7 [.text .t "1", .text .t "doc1"]]

/-- A transaction whose relation and row come in one payload, and the same with two payloads and a
keep-alive. -/
theorem trace_reframed_insert :
    (WalReader.start true {}).trace [wake (.sorted, .begin),
        wake (.sorted, .xLogData (commentsPayload ++ insertPayload)), wake (.sorted, .commit 5)] =
      (WalReader.start false {}).trace [wake (.sorted, .begin),
        wake (.sorted, .xLogData commentsPayload), wake (.sorted, .keepAlive 4 true),
        wake (.sorted, .xLogData insertPayload), wake (.sorted, .commit 5)] := by
  refine (trace_reframed true false {} {} _ _ ?_).1
  have hfirst : (parsePgoutputMessages commentsPayload).isOk = true := by decide +kernel
  have hsecond : (parsePgoutputMessages insertPayload).isOk = true := by decide +kernel
  cases hms : parsePgoutputMessages commentsPayload with
  | error e =>
    rw [hms] at hfirst
    cases hfirst
  | ok ms =>
    cases hns : parsePgoutputMessages insertPayload with
    | error e =>
      rw [hns] at hsecond
      cases hsecond
    | ok ns =>
      refine .trans (.split [wake (.sorted, .begin)] [wake (.sorted, .commit 5)] .sorted .sorted .sorted
        commentsPayload insertPayload ms ns hms hns) (.symm ?_)
      exact .keepAlive [wake (.sorted, .begin), wake (.sorted, .xLogData commentsPayload)]
        [wake (.sorted, .xLogData insertPayload), wake (.sorted, .commit 5)] .sorted 4 true

end MiniGraph
