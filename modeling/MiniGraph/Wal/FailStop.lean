import MiniGraph.Wal.ReaderRuns

/-!
# Fail-stop at a schema change

A schema change ends the reader in the middle of a payload. What is before it has been done; the rest of
the payload, all that follows in the stream, and the transaction that is open are dropped
(`schemaChange_failStop`).
-/

namespace MiniGraph
open Lib WalReader

/-- What comes of `w`, a payload with the messages `pre` in front of a schema change. It arrives after
`before`, and `after` follows. -/
structure FailStop (r : WalReader) (before after : List (Outside × Wake)) (w : Outside × Wake)
    (pre : List PgOutputMessage) : Prop where
  /-- the cache that decides is that of all messages so far -/
  cache : (r.run before).2.relations = cacheAfter ∅ (eventsOf before).messages
  /-- the payload and all that follows do nothing -/
  actions : (r.run (before ++ w :: after)).1 = (r.run before).1 ++ (w :: after).map fun _ => []
  /-- the metrics are those behind the messages in front of the schema change -/
  metrics : (r.run (before ++ w :: after)).2.metrics =
    (r.run before).2.metrics.consume (rowEvents (r.run before).2.relations pre).length
  relations : (r.run (before ++ w :: after)).2.relations = cacheAfter (r.run before).2.relations pre
  status : (r.run (before ++ w :: after)).2.status = .returned
  /-- nothing has been done since the open transaction began -/
  undelivered : (r.run (before ++ w :: after)).2.transaction ≠ none → ∃ before' b mid,
    before = before' ++ b :: mid ∧ b.2.event = some .begin ∧
      (∀ w ∈ mid, ∀ endLsn, w.2.event ≠ some (.commit endLsn)) ∧
      r.trace (before ++ w :: after) = r.trace before'

/-- **A payload with a schema change** and all that follows it: only the messages in front of the schema
change have an effect. -/
theorem run_schemaChange {r : WalReader} {o : Outside} {data : List UInt8} {pre post : List PgOutputMessage}
    {msg : PgOutputMessage} (hr : r.status = .looping)
    (hparse : parsePgoutputMessages data = .ok (pre ++ msg :: post)) (hpre : NoSchemaChange r.relations pre)
    (hmsg : SchemaChanges (cacheAfter r.relations pre) msg) (after : List (Outside × Wake)) :
    r.run (wake (o, .xLogData data) :: after) = ((wake (o, .xLogData data) :: after).map fun _ => [],
      { r.absorb (cacheAfter r.relations pre) (rowEvents r.relations pre) with status := .returned }) := by
  have hturn : r.turn (wake (o, .xLogData data)) =
      ([], { r.absorb (cacheAfter r.relations pre) (rowEvents r.relations pre) with status := .returned }) := by
    have hdata : r.handleData data = r.handleMessages (pre ++ msg :: post) := by
      unfold handleData
      rw [hparse]
    refine (turn_wake hr (o, .xLogData data)).trans ?_
    rw [← handleMessages_schemaChange hr hpre hmsg, ← hdata]
    rfl
  have hended : (r.turn (wake (o, .xLogData data))).2.status ≠ .looping := by
    rw [hturn]
    nofun
  rw [run_cons, run_of_ended hended, hturn]
  rfl

theorem failStop {sqlClient : Bool} {metrics : Metrics} {before : List (Outside × Wake)} {o : Outside}
    {data : List UInt8} {pre post : List PgOutputMessage} {msg : PgOutputMessage}
    (hlooping : ((start sqlClient metrics).run before).2.status = .looping)
    (hparse : parsePgoutputMessages data = .ok (pre ++ msg :: post))
    (hpre : NoSchemaChange ((start sqlClient metrics).run before).2.relations pre)
    (hmsg : SchemaChanges (cacheAfter ((start sqlClient metrics).run before).2.relations pre) msg)
    (after : List (Outside × Wake)) :
    FailStop (start sqlClient metrics) before after (wake (o, .xLogData data)) pre := by
  have htracks := tracks_of_looping (tracks_start sqlClient metrics) hlooping
  have hrun := (start sqlClient metrics).run_append before (wake (o, .xLogData data) :: after)
  rw [run_schemaChange hlooping hparse hpre hmsg] at hrun
  refine ⟨htracks.follows.relations, congrArg Prod.fst hrun, ?_, ?_, ?_, ?_⟩
  · rw [hrun]
    rfl
  · rw [hrun]
    rfl
  · rw [hrun]
  · intro hopen
    have htx : ((start sqlClient metrics).run before).2.transaction ≠ none := by
      intro hnone
      refine hopen ?_
      rw [hrun]
      show ((start sqlClient metrics).run before).2.transaction.map _ = none
      rw [hnone]
      rfl
    obtain ⟨tx, htx⟩ := Option.ne_none_iff_exists'.1 htx
    obtain ⟨p, b, mid, hl⟩ := htracks.buffers.opened tx htx
    obtain ⟨before', b, mid, rfl, hbegin, hcommit⟩ := exists_begin hl
    refine ⟨before', b, mid, rfl, hbegin, hcommit, ?_⟩
    -- the reader was still in its loop behind `mid`, so it has not stopped the replication there
    have hquiet := quiet_of_begin hbegin hcommit
    have hnil : ((start sqlClient metrics).run before').2.trace (b :: mid) = [] := by
      refine (trace_of_no_commit _ hquiet).resolve_right fun hstop => hstop.2 ?_
      rw [run_append] at hlooping
      exact hlooping
    have hrest : ((start sqlClient metrics).run (before' ++ b :: mid)).2.trace
        (wake (o, .xLogData data) :: after) = [] := by
      unfold trace
      rw [run_schemaChange hlooping hparse hpre hmsg, flatten_idle]
    rw [trace_append, hrest, List.append_nil, trace_append, hnil, List.append_nil]

/-- **The first seen schema wins, and a conflict stops the reader.** -/
theorem schemaChange_failStop (sqlClient : Bool) (metrics : Metrics) :
    (∀ before msg, FirstSeen before msg) ∧
      ∀ before o data pre msg post, ((start sqlClient metrics).run before).2.status = .looping →
        parsePgoutputMessages data = .ok (pre ++ msg :: post) →
        NoSchemaChange ((start sqlClient metrics).run before).2.relations pre →
        SchemaChanges (cacheAfter ((start sqlClient metrics).run before).2.relations pre) msg →
        ∀ after, FailStop (start sqlClient metrics) before after (wake (o, .xLogData data)) pre :=
  ⟨firstSeen, fun _ _ _ _ _ _ hlooping hparse hpre hmsg => failStop hlooping hparse hpre hmsg⟩

theorem schemaChange_failStop_rename :
    FirstSeen [.relation ⟨7, "public", "comments", ["id", "document_id"]⟩]
        (.insert 7 [.text "1", .text "doc1"]) ∧
      FailStop (start true {}) ((insertStream.take 3).map wake) [wake (.sorted, .commit 5)]
        (wake (.sorted, .xLogData (encodeMessages [.insert 7 [.text .t "2", .text .t "doc2"],
          .relation 7 "public" "comments" 0 [⟨1, "id", 23, -1⟩, ⟨0, "doc", 25, -1⟩],
          .insert 7 [.text .t "3", .text .t "doc3"]])))
        [.insert 7 [.text "2", .text "doc2"]] := by
  refine ⟨(schemaChange_failStop true {}).1 _ _, ?_⟩
  exact (schemaChange_failStop true {}).2 _ _ _ _ (.relation ⟨7, "public", "comments", ["id", "doc"]⟩)
    [.insert 7 [.text "3", .text "doc3"]] (by decide +kernel) (by decide +kernel) (by decide +kernel)
    (by decide +kernel) _

end MiniGraph
