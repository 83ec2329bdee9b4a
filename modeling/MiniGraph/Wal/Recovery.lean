import MiniGraph.Wal.Acknowledgement

/-!
# Reconnecting to the slot

The reader always starts at `Lsn(0)`, so the slot decides where a connection goes on: at the first
transaction that is not confirmed. A connection may end at any moment, and a status update may be lost with
it; then transactions are sent again. But none is left out: whatever the slot has confirmed has been
handed to the sink in one of the connections (`atLeastOnce`).
-/

namespace MiniGraph
open Lib WalReader

/-- A connection to the slot: what its reader wakes up with, and what the slot has confirmed when it is
over. -/
structure Connection where
  sqlClient : Bool
  metrics : Metrics
  wakes : List (Outside × Wake)
  confirmed : UInt64

namespace Connection

/-- The reader of the connection. -/
def reader (connection : Connection) : WalReader := WalReader.start connection.sqlClient connection.metrics

/-- What the reader of the connection does. -/
def trace (connection : Connection) : List Action := connection.reader.trace connection.wakes

/-- A slot that has confirmed `confirmed` serves the connection; `log` has the commits of the database.
It sends the transactions that are not confirmed, from the first, and confirms something that the reader
has acknowledged, or nothing. -/
structure ServedFrom (connection : Connection) (log : List UInt64) (confirmed : UInt64) : Prop where
  sent : ((eventsOf connection.wakes).filterMap fun e => e.2.committed) <+:
    log.filter fun lsn => confirmed < lsn
  confirms : connection.confirmed = confirmed ∨
    connection.confirmed ∈ connection.trace.filterMap Action.acked

/-- A commit that the connection has come to has been handed to the sink: the calls that deliver its
transaction have been made. -/
def Delivered (connection : Connection) (lsn : UInt64) : Prop :=
  ∃ before, ∃ sends : List Action,
    (before, lsn) ∈ commitsOf [] (eventsOf (handled ∅ connection.wakes)) ∧
      (∀ action ∈ sends, action ∈ connection.trace) ∧ Delivers before (sends.filterMap Action.call)

end Connection

/-- Connections one after the other, from what the slot has confirmed at first to what it has confirmed in
the end. -/
inductive Connections (log : List UInt64) : UInt64 → List Connection → UInt64 → Prop
  | none (confirmed : UInt64) : Connections log confirmed [] confirmed
  | next (confirmed confirmed' : UInt64) (connection : Connection) (connections : List Connection)
      (served : connection.ServedFrom log confirmed)
      (later : Connections log connection.confirmed connections confirmed') :
      Connections log confirmed (connection :: connections) confirmed'

/-! ### One connection -/

theorem handled_prefix (relations : Relations) (wakes : List (Outside × Wake)) :
    handled relations wakes <+: wakes := by
  induction wakes generalizing relations with
  | nil => exact List.prefix_refl _
  | cons w wakes ih =>
    unfold handled
    split
    · exact ⟨wakes, rfl⟩
    · exact List.cons_prefix_cons.2 ⟨rfl, ih _⟩

namespace Connection
variable {connection : Connection} {log : List UInt64} {confirmed lsn : UInt64}

theorem acked_eq (connection : Connection) : connection.trace.filterMap Action.acked =
    (commitsOf [] (eventsOf (handled ∅ connection.wakes))).map Prod.snd := by
  obtain ⟨parts, stop, htrace, hstop, hparts⟩ :=
    parts_run (tracks_start connection.sqlClient connection.metrics) connection.wakes
  have hnone : stop.filterMap Action.acked = [] := by
    rcases hstop with rfl | rfl <;> rfl
  have hsplit : connection.trace = parts.flatten ++ stop := htrace
  rw [hsplit, List.filterMap_append, hnone, List.append_nil, parts_acked hparts]
  rfl

theorem acked_prefix (connection : Connection) : connection.trace.filterMap Action.acked <+:
    (eventsOf connection.wakes).filterMap fun e => e.2.committed := by
  rw [acked_eq, commitsOf_committed]
  obtain ⟨later, hlater⟩ := handled_prefix ∅ connection.wakes
  refine ⟨(eventsOf later).filterMap fun e => e.2.committed, ?_⟩
  rw [← List.filterMap_append, ← eventsOf_append, hlater]

/-- What has been acknowledged has been handed to the sink. -/
theorem delivered_of_acked (h : lsn ∈ connection.trace.filterMap Action.acked) :
    connection.Delivered lsn := by
  obtain ⟨parts, stop, htrace, hstop, hparts⟩ :=
    parts_run (tracks_start connection.sqlClient connection.metrics) connection.wakes
  have hsplit : connection.trace = parts.flatten ++ stop := htrace
  rw [acked_eq] at h
  obtain ⟨⟨before, lsn'⟩, hcommit, rfl⟩ := List.mem_map.1 h
  obtain ⟨part, hpart, sends, rfl, -, hdelivers⟩ := exists_right_of_forall₂ hparts hcommit
  refine ⟨before, sends, hcommit, fun action haction => ?_, hdelivers⟩
  rw [hsplit]
  exact List.mem_append_left _ (List.mem_flatten_of_mem hpart (List.mem_append_left _ haction))

theorem delivered_of_confirmed (hlog : log.Pairwise (· < ·)) (h : connection.ServedFrom log confirmed)
    (hmem : lsn ∈ log) (hlt : confirmed < lsn) (hle : lsn ≤ connection.confirmed) :
    connection.Delivered lsn := by
  refine delivered_of_acked ?_
  rcases h.confirms with hsame | hacked
  · -- nothing was confirmed
    rw [hsame] at hle
    exact absurd hlt (UInt64.not_lt.2 hle)
  · refine mem_prefix_of_lt (connection.acked_prefix.trans h.sent) (hlog.filter _) hacked ?_ ?_
    · exact List.mem_filter.2 ⟨hmem, by simpa using hlt⟩
    · exact UInt64.not_lt.2 hle

end Connection

/-! ### All of them -/

/-- **At least once**: whatever ends the connections, and whatever the sink answers, each transaction
that the slot has confirmed in the course of them has been handed to the sink in one of them. -/
theorem atLeastOnce (log : List UInt64) (hlog : log.Pairwise (· < ·)) (first last : UInt64)
    (connections : List Connection) (h : Connections log first connections last) (lsn : UInt64)
    (hmem : lsn ∈ log) (hlt : first < lsn) (hle : lsn ≤ last) :
    ∃ connection ∈ connections, connection.Delivered lsn := by
  induction h with
  | none confirmed => exact absurd hlt (UInt64.not_lt.2 hle)
  | next confirmed confirmed' connection connections served later ih =>
    by_cases hdone : lsn ≤ connection.confirmed
    · exact ⟨connection, List.mem_cons_self, connection.delivered_of_confirmed hlog served hmem hlt hdone⟩
    · obtain ⟨connection', hmem', hdelivered⟩ := ih (UInt64.not_le.1 hdone) hle
      exact ⟨connection', List.mem_cons_of_mem _ hmem', hdelivered⟩

/-- The messages of a transaction with a comment on `documentId`. -/
def commentOn (documentId : String) (endLsn : UInt64) : List (Outside × Wake) :=
  [.begin, .xLogData (encodeMessages [.insert 7 [.text .t "1", .text .t documentId]]), .commit endLsn].map
    fun event => (.sorted, .received (.ok (some event)))

def commentsRelation : Outside × Wake :=
  (.sorted, .received (.ok (some (.xLogData (encodeMessages
    [.relation 7 "public" "comments" 0 [⟨1, "id", 23, -1⟩, ⟨0, "document_id", 25, -1⟩]])))))

/-- Two transactions, of which the first is confirmed. The second is acknowledged, too, but the update is
lost, and so it is sent again. -/
def twice : List Connection :=
  [{ sqlClient := false, metrics := {}, confirmed := 5, wakes := commentsRelation :: (commentOn "doc1" 5 ++
      commentOn "doc2" 9 ++ [(.sorted, .received (.error "reset"))]) },
    { sqlClient := false, metrics := {}, confirmed := 9, wakes := commentsRelation :: commentOn "doc2" 9 }]

theorem atLeastOnce_twice : (∃ connection ∈ twice, connection.Delivered 9) ∧
    ∀ connection ∈ twice, ("doc2", [commentHint "doc2"]) ∈ connection.trace.filterMap Action.call := by
  have hlog : [5, 9].Pairwise fun a b : UInt64 => a < b := by decide
  refine ⟨atLeastOnce [5, 9] hlog 0 9 twice ?_ 9 (by decide) (by decide) (by decide), by decide +kernel⟩
  refine .next 0 9 _ _ ⟨by decide +kernel, .inr (by decide +kernel)⟩ ?_
  exact .next 5 9 _ _ ⟨by decide +kernel, .inr (by decide +kernel)⟩ (.none 9)

end MiniGraph
