import MiniGraph.Wal.Stream
import MiniGraph.Wal.WireFormat

/-!
# Accounting for lost invalidations

Invalidations are lost where a payload is rejected, where the generator rejects a row event of a
transaction, and where the sink refuses a call because its channel is full. Only the last of these
reaches `wal_events_dropped_total` (`dropped_run`), so the counter is right exactly if there are no
losses of the other two kinds (`accounted_iff`). `wal_events_consumed_total` is always right.
-/

namespace MiniGraph
open Lib WalReader

/-! ### What is lost -/

def Rejects : ReplicationEvent → Bool
  | .xLogData data =>
    match parsePgoutputMessages data with
    | .ok _ => false
    | .error _ => true
  | _ => false

/-- There was a `Begin`, and no commit since. -/
def Stream.inTransaction (stream : Stream) : Bool :=
  stream.foldl (fun opened e =>
    match e.2 with
    | .begin => true
    | .commit _ => false
    | _ => opened) false

/-- The row events of the event `e`, which comes after `before`. -/
def rowsOf (before : Stream) (e : Outside × ReplicationEvent) : List WalEvent :=
  rowEvents (cacheAfter ∅ before.messages) (decoded e.2)

def FailsToGenerate (event : WalEvent) : Bool :=
  match generateInvalidationHints event with
  | .ok _ => false
  | .error _ => true

/-- The payloads the parser rejects. -/
def Stream.rejected (stream : Stream) : Nat := stream.countP fun e => Rejects e.2

/-- The row events inside a transaction that the generator rejects. -/
def Stream.hintFailures (stream : Stream) : Nat :=
  tally (fun (before : Stream) e =>
    if before.inTransaction then (rowsOf before e).countP FailsToGenerate else 0) [] stream

/-- The row messages whose relation is in the cache. -/
def Stream.rows (stream : Stream) : Nat := tally (fun before e => (rowsOf before e).length) [] stream

/-- A call that the sink refused because its channel is full. -/
def Action.refused : Action → Bool
  | .sendInvalidation _ _ _ (.error .channelFull) => true
  | _ => false

/-- Between `before` and `after`, `lost` events were counted as dropped and `rows` as consumed. -/
structure Accounted (before after : Metrics) (lost rows : Nat) : Prop where
  dropped : after.walEventsDroppedTotal = before.walEventsDroppedTotal + UInt64.ofNat lost
  consumed : after.walEventsConsumedTotal = before.walEventsConsumedTotal + UInt64.ofNat rows

namespace Accounted
variable {m₁ m₂ m₃ : Metrics} {lost lost' rows rows' : Nat}

theorem refl (m : Metrics) : Accounted m m 0 0 := by
  refine ⟨?_, ?_⟩ <;> simp

theorem trans (h : Accounted m₁ m₂ lost rows) (h' : Accounted m₂ m₃ lost' rows') :
    Accounted m₁ m₃ (lost + lost') (rows + rows') where
  dropped := by rw [h'.dropped, h.dropped, UInt64.ofNat_add, UInt64.add_assoc]
  consumed := by rw [h'.consumed, h.consumed, UInt64.ofNat_add, UInt64.add_assoc]

end Accounted

/-! ### What the reader counts -/

theorem sendInvalidation_accounted (o : Outside) (timestamp : UInt64) (m : Metrics)
    (routed : DocumentId × List QueryHint) :
    Accounted m (sendInvalidation o timestamp m routed).2
      ([(sendInvalidation o timestamp m routed).1].countP Action.refused) 0 := by
  unfold sendInvalidation
  rcases hanswer : o.sink routed.1 routed.2 timestamp with _ | _
  · rename_i err
    cases err with
    | channelFull =>
      refine ⟨?_, ?_⟩ <;> simp [Action.refused, Metrics.incWalEventsDropped]
    | channelClosed => exact .refl m
  · exact .refl m

theorem deliver_accounted (o : Outside) (timestamp : UInt64) (m : Metrics)
    (routed : Groups DocumentId QueryHint) :
    Accounted m (deliver o timestamp m routed).2
      ((deliver o timestamp m routed).1.countP Action.refused) 0 := by
  unfold deliver
  induction entries o.documentOrder routed generalizing m with
  | nil => exact .refl m
  | cons entry rest ih =>
    have h := (sendInvalidation_accounted o timestamp m entry).trans (ih _)
    rwa [← List.countP_append, List.singleton_append] at h

theorem handleCommit_accounted (o : Outside) (r : WalReader) (endLsn : UInt64) :
    Accounted r.metrics (handleCommit o r endLsn).2.metrics
      ((handleCommit o r endLsn).1.countP Action.refused) 0 := by
  unfold handleCommit
  cases r.transaction with
  | none => refine ⟨?_, ?_⟩ <;> simp [Metrics.setWalLsn, Action.refused]
  | some tx =>
    have h := deliver_accounted o o.now r.metrics (HintRouter.route o.hintOrder tx.take.1)
    simp only [List.countP_append]
    exact ⟨h.dropped, h.consumed⟩

/-- One event: the refused calls are counted as dropped, the rows as consumed. -/
theorem turn_accounted {r : WalReader} {stream : Stream} (hf : r.Follows stream)
    {e : Outside × ReplicationEvent} (hreg : Stream.Regular (stream ++ [e])) :
    Accounted r.metrics (r.turn (wake e)).2.metrics ((r.turn (wake e)).1.countP Action.refused)
      (rowsOf stream e).length := by
  obtain ⟨-, hn⟩ := hreg.of_concat
  obtain ⟨o, event⟩ := e
  cases event with
  | xLogData data =>
    rw [turn_data hf.looping (hf.relations ▸ hn), hf.relations]
    refine ⟨?_, rfl⟩
    simp [absorb, Metrics.consume]
  | begin => rw [turn_wake hf.looping]; exact .refl _
  | commit endLsn => rw [turn_wake hf.looping]; exact handleCommit_accounted o r endLsn
  | keepAlive walEnd replyRequested => rw [turn_wake hf.looping]; exact .refl _
  | stoppedAt reached => rw [turn_wake hf.looping]; exact .refl _

/-- **What is counted**: as dropped the refused calls alone, as consumed all the rows. -/
theorem dropped_run (sqlClient : Bool) (metrics : Metrics) {stream : Stream} (h : stream.Regular) :
    Accounted metrics ((start sqlClient metrics).run (stream.map wake)).2.metrics
      (((start sqlClient metrics).run (stream.map wake)).1.flatten.countP Action.refused)
      stream.rows := by
  induction stream using List.reverseRecOn with
  | nil => exact .refl metrics
  | append_singleton stream e ih =>
    have hf := follows_run sqlClient metrics h.of_concat.1
    have hturn := (ih h.of_concat.1.regular).trans (turn_accounted hf h)
    rw [List.map_append, WalReader.run, List.map_singleton, runs_concat]
    rw [Stream.rows, tally_concat, List.flatten_append, List.countP_append, List.flatten_singleton]
    exact hturn

theorem ofNat_eq_add_iff {a b : Nat} (x : UInt64) :
    x + UInt64.ofNat b = x + UInt64.ofNat (a + b) ↔ 2 ^ 64 ∣ a := by
  rw [UInt64.add_right_inj, ← UInt64.toNat_inj, UInt64.toNat_ofNat', UInt64.toNat_ofNat']
  omega

/-- **Losses are accounted for** exactly if no payload is rejected and no row event of a transaction
fails to give hints (up to 2^64 such losses, after which the counter would be back). -/
theorem accounted_iff (sqlClient : Bool) (metrics : Metrics) (stream : Stream) (h : stream.Regular) :
    Accounted metrics ((start sqlClient metrics).run (stream.map wake)).2.metrics
        (stream.rejected + stream.hintFailures +
          ((start sqlClient metrics).run (stream.map wake)).1.flatten.countP Action.refused)
        stream.rows ↔
      2 ^ 64 ∣ stream.rejected + stream.hintFailures := by
  have hrun := dropped_run sqlClient metrics h
  rw [← ofNat_eq_add_iff, ← hrun.dropped]
  exact ⟨fun ha => ha.dropped, fun ha => ⟨ha, hrun.consumed⟩⟩

/-- The relation `comments`, and a transaction that inserts a comment without a `document_id` and has
a payload that is not `pgoutput`. -/
def lossyStream : Stream :=
  [(.sorted, .xLogData (encodeMessages
      [.relation 7 "public" "comments" 0 [⟨1, "id", 23, -1⟩, ⟨0, "document_id", 25, -1⟩]])),
    (.sorted, .begin),
    (.sorted, .xLogData (encodeMessages [.insert 7 [.text .t "1", .null .n]])),
    (.sorted, .xLogData [0xff]),
    (.sorted, .commit 5)]

theorem lossyStream_uncounted :
    let out := (start true {}).run (lossyStream.map wake)
    lossyStream.rejected + lossyStream.hintFailures + out.1.flatten.countP Action.refused = 2 ∧
      out.2.metrics.walEventsDroppedTotal = 0 ∧
      ¬ Accounted {} out.2.metrics (lossyStream.rejected + lossyStream.hintFailures +
        out.1.flatten.countP Action.refused) lossyStream.rows := by
  have hlost : lossyStream.rejected + lossyStream.hintFailures +
      ((start true {}).run (lossyStream.map wake)).1.flatten.countP Action.refused = 2 := by
    decide +kernel
  have hcount : ((start true {}).run (lossyStream.map wake)).2.metrics.walEventsDroppedTotal = 0 := by
    decide +kernel
  refine ⟨hlost, hcount, fun h => ?_⟩
  have hdropped := h.dropped
  rw [hlost, hcount] at hdropped
  exact absurd hdropped (by decide)

theorem accounted_iff_lossyStream :
    Accounted {} ((start true {}).run (lossyStream.map wake)).2.metrics
        (lossyStream.rejected + lossyStream.hintFailures +
          ((start true {}).run (lossyStream.map wake)).1.flatten.countP Action.refused)
        lossyStream.rows ↔
      2 ^ 64 ∣ lossyStream.rejected + lossyStream.hintFailures :=
  accounted_iff true {} lossyStream ⟨by simp [lossyStream], by decide +kernel⟩

end MiniGraph
