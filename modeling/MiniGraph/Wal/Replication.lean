import MiniGraph.Lib.Run
import MiniGraph.Metrics
import MiniGraph.Wal.HintGenerator
import MiniGraph.Wal.PgOutput
import MiniGraph.Wal.Router

/-!
# The WAL reader (`src/wal/replication.rs`)

The loop of `wal_reader_actor` once it is connected. One pass of the loop is a `turn`: it wakes up
with a command, a tick of the slot poll or an event of the replication stream, and returns what it
did to the outside world. Log output and the connection setup are left out.
-/

namespace MiniGraph
open Lib

inductive WalReaderCommand where
  | stop
deriving DecidableEq, Repr

/-- `pgwire_replication`'s event, with the fields the loop looks at. -/
inductive ReplicationEvent where
  | xLogData (data : List UInt8)
  | begin
  | commit (endLsn : UInt64)
  | keepAlive (walEnd : UInt64) (replyRequested : Bool)
  | stoppedAt (reached : UInt64)
deriving DecidableEq, Repr

/-- The answer to the slot health query: the row, if the slot exists. -/
inductive SlotHealth where
  | row (row : Option (Bool × Int64 × Int64))
  | queryFailed
  | timedOut

/-- The branch of `tokio::select!` that is taken. -/
inductive Wake where
  | command (cmd : Option WalReaderCommand)
  | slotPoll (health : SlotHealth)
  | received (ev : Except String (Option ReplicationEvent))

/-- What the outside world decides during a turn: the iteration order of the two hash tables, the
clock, and what the sink answers. -/
structure Outside where
  hintOrder : Iteration QueryHint
  documentOrder : Iteration DocumentId
  now : UInt64
  sink : DocumentId → List QueryHint → UInt64 → Except RoomCommandError Unit

/-- What a turn does to the outside world. A call of the sink is recorded with its answer. -/
inductive Action where
  | sendInvalidation (documentId : DocumentId) (hints : List QueryHint) (timestamp : UInt64)
      (answer : Except RoomCommandError Unit)
  | setWalLsn (lsn : UInt64)
  | updateAppliedLsn (lsn : UInt64)
  | stopReplication

/-- How far the actor got: it loops, it left the loop by `break`, or it returned from within it. -/
inductive ReaderStatus where
  | looping
  | stopped
  | returned
deriving DecidableEq, Repr

structure WalReader where
  sqlClient : Bool
  relations : Relations
  transaction : Option TransactionBuffer
  metrics : Metrics
  status : ReaderStatus

namespace WalReader

/-- The state in which the loop is entered. -/
def start (sqlClient : Bool) (metrics : Metrics) : WalReader :=
  { sqlClient, relations := ∅, transaction := none, metrics, status := .looping }

/-! ### Row changes -/

/-- One pass of the loop over the messages of a payload. -/
def handleMessage (r : WalReader) (msg : PgOutputMessage) : WalReader :=
  match pgoutputToWalEvent r.relations msg with
  | (.error .schemaChange, relations) => { r with relations, status := .returned }
  | (.ok none, relations) => { r with relations }
  | (.ok (some event), relations) =>
    let metrics := r.metrics.incWalEventsConsumed
    match r.transaction with
    | none => { r with relations, metrics } -- a row change outside of BEGIN/COMMIT is ignored
    | some tx =>
      match generateInvalidationHints event with
      | .ok hints => { r with relations, metrics, transaction := some (tx.addAll hints) }
      | .error (.missingColumn _ _) => { r with relations, metrics }

def handleMessages (r : WalReader) : List PgOutputMessage → WalReader
  | [] => r
  | msg :: msgs =>
    match (r.handleMessage msg).status with
    | .looping => (r.handleMessage msg).handleMessages msgs
    | _ => r.handleMessage msg

def handleData (r : WalReader) (data : List UInt8) : WalReader :=
  match parsePgoutputMessages data with
  | .ok messages => r.handleMessages messages
  | .error _ => r

/-! ### Commits -/

/-- One pass of the delivery loop. -/
def sendInvalidation (o : Outside) (timestamp : UInt64) (metrics : Metrics)
    (routed : DocumentId × List QueryHint) : Action × Metrics :=
  let answer := o.sink routed.1 routed.2 timestamp
  (.sendInvalidation routed.1 routed.2 timestamp answer,
    match answer with
    | .error .channelFull => metrics.incWalEventsDropped
    | _ => metrics)

/-- The delivery loop over the routed hints. -/
def deliver (o : Outside) (timestamp : UInt64) (metrics : Metrics)
    (routed : Groups DocumentId QueryHint) : List Action × Metrics :=
  runs (sendInvalidation o timestamp) metrics (entries o.documentOrder routed)

def handleCommit (o : Outside) (r : WalReader) (endLsn : UInt64) : List Action × WalReader :=
  let timestamp := o.now
  let (sent, metrics) :=
    match r.transaction with
    | none => ([], r.metrics)
    | some tx => deliver o timestamp r.metrics (HintRouter.route o.hintOrder tx.take.1)
  (sent ++ [.setWalLsn endLsn, .updateAppliedLsn endLsn],
    { r with transaction := none, metrics := metrics.setWalLsn endLsn })

/-! ### The loop -/

def handleEvent (o : Outside) (r : WalReader) : ReplicationEvent → List Action × WalReader
  | .xLogData data => ([], r.handleData data)
  | .begin => ([], { r with transaction := some .empty })
  | .commit endLsn => handleCommit o r endLsn
  | .keepAlive _ _ => ([], r)
  | .stoppedAt _ => ([], { r with status := .stopped })

def handleSlotHealth (m : Metrics) : SlotHealth → Metrics
  | .row none => ((m.setWalSlotActive false).setWalRetainedBytes 0).setWalLagSeconds 0
  | .row (some (active, retainedBytes, lagSeconds)) =>
    ((m.setWalSlotActive active).setWalRetainedBytes (max retainedBytes 0).toUInt64).setWalLagSeconds
      (max lagSeconds 0).toUInt64
  | .queryFailed => m
  | .timedOut => m

/-- One turn. An actor that has left its loop does nothing any more. -/
def turn (r : WalReader) (w : Outside × Wake) : List Action × WalReader :=
  match r.status with
  | .looping =>
    match w.2 with
    | .command (some .stop) => ([.stopReplication], { r with status := .stopped })
    | .command none => ([.stopReplication], { r with status := .stopped })
    | .slotPoll health =>
      if r.sqlClient then ([], { r with metrics := handleSlotHealth r.metrics health }) else ([], r)
    | .received (.ok (some event)) => handleEvent w.1 r event
    | .received (.ok none) => ([], { r with status := .stopped })
    | .received (.error _) => ([], { r with status := .stopped })
  | _ => ([], r)

/-- Runs the reader over what it wakes up with; the actions of each turn, and the last state. -/
def run (r : WalReader) (wakes : List (Outside × Wake)) : List (List Action) × WalReader :=
  runs turn r wakes

end WalReader
end MiniGraph
