import MiniGraph.Wal.Stream
import MiniGraph.Wal.WireFormat

/-!
# Exact delivery

A commit delivers what its transaction produced, and nothing else is ever delivered: `calls_exact`.
The transaction of a commit is what follows the last `Begin` before it; a second `Begin` discards what
was buffered. The invariant (`Buffers`) relates the buffer to the part of the stream since then.
-/

namespace MiniGraph
open Lib WalReader

/-! ### The specification -/

/-- `b` is the last `Begin` of `stream`, with `p` before it and `mid` after it, and no commit follows
it. -/
structure LastBegin (stream p : Stream) (b : Outside × ReplicationEvent) (mid : Stream) : Prop where
  split : stream = p ++ b :: mid
  begins : b.2 = .begin
  not_begin : ∀ e ∈ mid, e.2 ≠ .begin
  not_commit : ∀ e ∈ mid, ∀ endLsn, e.2 ≠ .commit endLsn

/-- A row message in a payload of `mid`, which comes after `p`, produces `hint`: the payload parses as
a whole, the message's relation is in the cache, and the generator accepts its row event. -/
def Produced (p mid : Stream) (hint : QueryHint) : Prop :=
  ∃ a o data c msgs, mid = a ++ (o, .xLogData data) :: c ∧ parsePgoutputMessages data = .ok msgs ∧
    ∃ event ∈ rowEvents (cacheAfter ∅ (p ++ a : Stream).messages) msgs,
      ∃ hints, generateInvalidationHints event = .ok hints ∧ hint ∈ hints

/-- The calls that deliver exactly the hints `produced`: one for each affected document, with all its
hints, each once. -/
structure DeliversExactly (produced : QueryHint → Prop) (calls : List (DocumentId × List QueryHint)) :
    Prop where
  once : (calls.map Prod.fst).Nodup
  affected : ∀ documentId, documentId ∈ calls.map Prod.fst ↔
    ∃ hint, produced hint ∧ HintRouter.routeKey hint = some documentId
  nodup : ∀ documentId hints, (documentId, hints) ∈ calls → hints.Nodup
  hints : ∀ documentId hints, (documentId, hints) ∈ calls →
    ∀ hint, hint ∈ hints ↔ produced hint ∧ HintRouter.routeKey hint = some documentId

/-- The call of the sink that `action` is, if it is one. -/
def Action.call : Action → Option (DocumentId × List QueryHint)
  | .sendInvalidation documentId hints _ _ => some (documentId, hints)
  | _ => none

/-- The calls made while the `i`-th event of `stream` is handled. -/
def callsAt (r : WalReader) (stream : Stream) (i : Nat) : List (DocumentId × List QueryHint) :=
  (((r.run (stream.map wake)).1[i]?).getD []).filterMap Action.call

/-! ### The history of a transaction -/

namespace LastBegin
variable {stream p mid : Stream} {b e : Outside × ReplicationEvent}

theorem of_begin (he : e.2 = .begin) : LastBegin (stream ++ [e]) stream e [] :=
  ⟨rfl, he, by simp, by simp⟩

theorem concat (h : LastBegin stream p b mid) (hb : e.2 ≠ .begin) (hc : ∀ endLsn, e.2 ≠ .commit endLsn) :
    LastBegin (stream ++ [e]) p b (mid ++ [e]) where
  split := by rw [h.split]; simp
  begins := h.begins
  not_begin := by
    intro e' he'
    rcases List.mem_append.1 he' with he' | he'
    · exact h.not_begin e' he'
    · rwa [List.mem_singleton.1 he']
  not_commit := by
    intro e' he'
    rcases List.mem_append.1 he' with he' | he'
    · exact h.not_commit e' he'
    · rwa [List.mem_singleton.1 he']

theorem of_concat (h : LastBegin (stream ++ [e]) p b mid) :
    (p = stream ∧ b = e ∧ mid = []) ∨
      (e.2 ≠ .begin ∧ (∀ endLsn, e.2 ≠ .commit endLsn) ∧
        ∃ mid', mid = mid' ++ [e] ∧ LastBegin stream p b mid') := by
  rcases List.eq_nil_or_concat mid with rfl | ⟨mid', e', rfl⟩
  · have hs := List.append_inj' h.split rfl
    exact .inl ⟨hs.1.symm, (List.cons.inj hs.2).1.symm, rfl⟩
  · have hsplit := h.split
    rw [List.concat_eq_append, ← List.cons_append, ← List.append_assoc] at hsplit
    obtain ⟨hstream, he⟩ := List.append_inj' hsplit rfl
    obtain rfl := (List.cons.inj he).1
    have hmem : e ∈ mid'.concat e := by simp
    refine .inr ⟨h.not_begin e hmem, h.not_commit e hmem, mid', List.concat_eq_append, hstream, h.begins, ?_, ?_⟩
    · exact fun e' he' => h.not_begin e' (by simp [he'])
    · exact fun e' he' => h.not_commit e' (by simp [he'])

end LastBegin

theorem not_produced_nil {p : Stream} {hint : QueryHint} : ¬ Produced p [] hint := by
  rintro ⟨a, o, data, c, msgs, hsplit, -⟩
  exact absurd hsplit (by simp)

theorem produced_concat {p mid : Stream} {o : Outside} {event : ReplicationEvent} {hint : QueryHint} :
    Produced p (mid ++ [(o, event)]) hint ↔ Produced p mid hint ∨
      hint ∈ hintsOf (rowEvents (cacheAfter ∅ (p ++ mid : Stream).messages) (decoded event)) := by
  constructor
  · rintro ⟨a, o', data, c, msgs, hsplit, hparse, hrow⟩
    rcases List.eq_nil_or_concat c with rfl | ⟨c', e', rfl⟩
    · obtain ⟨rfl, he⟩ := List.append_inj' hsplit rfl
      obtain ⟨rfl, rfl⟩ := Prod.mk.inj (List.cons.inj he).1
      right
      rw [mem_hintsOf]
      simpa only [decoded, hparse] using hrow
    · rw [List.concat_eq_append, ← List.cons_append, ← List.append_assoc] at hsplit
      obtain ⟨hmid, -⟩ := List.append_inj' hsplit rfl
      exact .inl ⟨a, o', data, c', msgs, hmid, hparse, hrow⟩
  · rintro (⟨a, o', data, c, msgs, rfl, hparse, hrow⟩ | h)
    · exact ⟨a, o', data, c ++ [(o, event)], msgs, by simp, hparse, hrow⟩
    · rw [mem_hintsOf] at h
      obtain ⟨row, hrow, hgen⟩ := h
      cases event with
      | xLogData data =>
        cases hparse : parsePgoutputMessages data with
        | error err => simp [decoded, hparse, rowEvents] at hrow
        | ok msgs =>
          simp only [decoded, hparse] at hrow
          exact ⟨mid, o, data, [], msgs, rfl, hparse, row, hrow, hgen⟩
      | _ => simp [decoded, rowEvents] at hrow

/-! ### The buffer -/

/-- The buffer holds what the open transaction has produced, and there is a buffer exactly if a
transaction is open. -/
structure Buffers (r : WalReader) (stream : Stream) : Prop where
  closed : r.transaction = none → ∀ p b mid, ¬ LastBegin stream p b mid
  opened : ∀ tx, r.transaction = some tx → ∃ p b mid, LastBegin stream p b mid
  hints : ∀ tx, r.transaction = some tx → ∀ p b mid, LastBegin stream p b mid →
    ∀ hint, hint ∈ tx.hints ↔ Produced (p ++ [b]) mid hint

namespace Buffers
variable {r r' : WalReader} {stream : Stream} {e : Outside × ReplicationEvent}

theorem start (sqlClient : Bool) (metrics : Metrics) : Buffers (start sqlClient metrics) [] where
  closed := fun _ p b mid h => absurd h.split (by simp)
  opened := nofun
  hints := nofun

theorem concat (h : Buffers r stream) (hb : e.2 ≠ .begin) (hc : ∀ endLsn, e.2 ≠ .commit endLsn)
    (htx : r'.transaction = r.transaction.map (TransactionBuffer.addAll
      (hintsOf (rowEvents (cacheAfter ∅ stream.messages) (decoded e.2))))) :
    Buffers r' (stream ++ [e]) := by
  have hsplit : ∀ {p b mid}, LastBegin (stream ++ [e]) p b mid →
      ∃ mid', mid = mid' ++ [e] ∧ LastBegin stream p b mid' := by
    intro p b mid hl
    rcases hl.of_concat with ⟨-, rfl, -⟩ | ⟨-, -, hl'⟩
    · exact absurd hl.begins hb
    · exact hl'
  refine ⟨?_, ?_, ?_⟩
  · intro hnone p b mid hl
    obtain ⟨mid', -, hl'⟩ := hsplit hl
    exact h.closed (Option.map_eq_none_iff.1 (htx ▸ hnone)) p b mid' hl'
  · intro tx hsome
    obtain ⟨tx', htx', -⟩ := Option.map_eq_some_iff.1 (htx ▸ hsome)
    obtain ⟨p, b, mid, hl⟩ := h.opened tx' htx'
    exact ⟨p, b, mid ++ [e], hl.concat hb hc⟩
  · intro tx hsome p b mid hl hint
    obtain ⟨tx', htx', rfl⟩ := Option.map_eq_some_iff.1 (htx ▸ hsome)
    obtain ⟨mid', rfl, hl'⟩ := hsplit hl
    have hstream : p ++ [b] ++ mid' = stream := by rw [hl'.split]; simp
    rw [TransactionBuffer.mem_addAll, h.hints tx' htx' p b mid' hl', produced_concat, hstream]

theorem of_begin (he : e.2 = .begin) (htx : r'.transaction = some .empty) :
    Buffers r' (stream ++ [e]) := by
  refine ⟨?_, ?_, ?_⟩
  · intro hnone
    rw [htx] at hnone
    cases hnone
  · exact fun _ _ => ⟨stream, e, [], LastBegin.of_begin he⟩
  · intro tx hsome p b mid hl hint
    rcases hl.of_concat with ⟨-, -, rfl⟩ | ⟨hb, -⟩
    · obtain rfl : TransactionBuffer.empty = tx := Option.some.inj (htx ▸ hsome)
      exact iff_of_false (Finset.notMem_empty hint) not_produced_nil
    · exact absurd he hb

theorem of_commit {endLsn : UInt64} (he : e.2 = .commit endLsn) (htx : r'.transaction = none) :
    Buffers r' (stream ++ [e]) := by
  refine ⟨?_, ?_, ?_⟩
  · intro _ p b mid hl
    rcases hl.of_concat with ⟨-, rfl, -⟩ | ⟨-, hc, -⟩
    · have hb := hl.begins
      rw [he] at hb
      cases hb
    · exact hc endLsn he
  · intro tx hsome
    rw [htx] at hsome
    cases hsome
  · intro tx hsome
    rw [htx] at hsome
    cases hsome

theorem turn (h : Buffers r stream) (hf : r.Follows stream)
    (hreg : Stream.Regular (stream ++ [e])) : Buffers (r.turn (wake e)).2 (stream ++ [e]) := by
  obtain ⟨-, hn⟩ := hreg.of_concat
  obtain ⟨o, event⟩ := e
  cases event with
  | xLogData data =>
    refine h.concat nofun nofun ?_
    rw [turn_data hf.looping (hf.relations ▸ hn), hf.relations]
    rfl
  | begin =>
    refine of_begin rfl ?_
    rw [turn_wake hf.looping]
    rfl
  | commit endLsn =>
    refine of_commit rfl ?_
    rw [turn_wake hf.looping]
    rfl
  | keepAlive walEnd replyRequested =>
    refine h.concat nofun nofun ?_
    rw [turn_wake hf.looping]
    exact (congrArg WalReader.transaction (r.absorb_nil r.relations)).symm
  | stoppedAt reached =>
    refine h.concat nofun nofun ?_
    rw [turn_wake hf.looping]
    exact (congrArg WalReader.transaction (r.absorb_nil r.relations)).symm

end Buffers

theorem buffers_run (sqlClient : Bool) (metrics : Metrics) {stream : Stream} (h : stream.Regular) :
    Buffers ((WalReader.start sqlClient metrics).run (stream.map wake)).2 stream := by
  induction stream using List.reverseRecOn with
  | nil => exact .start sqlClient metrics
  | append_singleton stream e ih =>
    have hf := follows_run sqlClient metrics h.of_concat.1
    rw [List.map_append, WalReader.run, List.map_singleton, runs_concat]
    exact (ih h.of_concat.1.regular).turn hf h

/-! ### The calls -/

theorem deliver_calls (o : Outside) (timestamp : UInt64) (metrics : Metrics)
    (routed : Groups DocumentId QueryHint) :
    (deliver o timestamp metrics routed).1.filterMap Action.call = entries o.documentOrder routed := by
  unfold deliver
  induction entries o.documentOrder routed generalizing metrics with
  | nil => rfl
  | cons entry rest ih =>
    have hcall : (sendInvalidation o timestamp metrics entry).1.call = some entry := rfl
    show List.filterMap Action.call (_ :: _) = _
    rw [List.filterMap_cons_some hcall, ih]

/-- A commit delivers its buffer. -/
theorem deliversExactly_route (o : Outside) (timestamp : UInt64) (metrics : Metrics)
    (hints : Finset QueryHint) : DeliversExactly (· ∈ hints)
      ((deliver o timestamp metrics (HintRouter.route o.hintOrder hints)).1.filterMap Action.call) := by
  rw [deliver_calls]
  refine ⟨nodup_entries_keys _, fun documentId => ?_, fun documentId bucket h => ?_, fun documentId bucket h => ?_⟩
  · rw [← HintRouter.exists_lookup_route o.hintOrder]
    simp only [List.mem_map, Prod.exists, exists_and_right, exists_eq_right, mem_entries]
  · exact (HintRouter.lookup_route ((mem_entries _).1 h)).2.1
  · exact (HintRouter.lookup_route ((mem_entries _).1 h)).2.2

theorem handleCommit_calls (o : Outside) (r : WalReader) (endLsn : UInt64) :
    (handleCommit o r endLsn).1.filterMap Action.call =
      match r.transaction with
      | none => []
      | some tx => (deliver o o.now r.metrics
          (HintRouter.route o.hintOrder tx.hints)).1.filterMap Action.call := by
  unfold handleCommit
  cases r.transaction with
  | none => rfl
  | some tx =>
    simp only [List.filterMap_append, TransactionBuffer.take]
    exact List.append_nil _

/-- A commit behind `before` has the calls to make that deliver its transaction, and none if there is no
open transaction. -/
structure Delivers (before : Stream) (calls : List (DocumentId × List QueryHint)) : Prop where
  opened : ∀ p b mid, LastBegin before p b mid → DeliversExactly (Produced (p ++ [b]) mid) calls
  closed : (∀ p b mid, ¬ LastBegin before p b mid) → calls = []

theorem handleCommit_delivers {r : WalReader} {before : Stream} (h : Buffers r before) (o : Outside)
    (endLsn : UInt64) : Delivers before ((handleCommit o r endLsn).1.filterMap Action.call) := by
  rw [handleCommit_calls]
  refine ⟨fun p b mid hl => ?_, fun hnone => ?_⟩
  · cases htx : r.transaction with
    | none => exact absurd hl (h.closed htx p b mid)
    | some tx =>
      have hprod : (· ∈ tx.hints) = Produced (p ++ [b]) mid :=
        funext fun hint => propext (h.hints tx htx p b mid hl hint)
      rw [← hprod]
      exact deliversExactly_route o o.now r.metrics tx.hints
  · cases htx : r.transaction with
    | none => rfl
    | some tx =>
      obtain ⟨p, b, mid, hl⟩ := h.opened tx htx
      exact absurd hl (hnone p b mid)

theorem callsAt_eq (sqlClient : Bool) (metrics : Metrics) {stream : Stream} (h : stream.Regular)
    {i : Nat} {e : Outside × ReplicationEvent} (he : stream[i]? = some e) :
    ∃ r : WalReader, r.Follows (stream.take i) ∧ Buffers r (stream.take i) ∧
      callsAt (WalReader.start sqlClient metrics) stream i =
        (handleEvent e.1 r e.2).1.filterMap Action.call := by
  have hrun := h.take (List.getElem?_eq_some_iff.1 he).1
  have hf := follows_run sqlClient metrics hrun
  refine ⟨_, hf, buffers_run sqlClient metrics hrun.regular, ?_⟩
  unfold callsAt
  rw [WalReader.run, runs_getElem?, List.getElem?_map, he, ← List.map_take]
  rw [← turn_wake hf.looping]
  rfl

/-- **Delivery is exact.** In a regular stream, with any answers of the sink and any iteration
orders: a commit makes exactly the calls that deliver what was produced since the last `Begin`
before it, and none if there is no such `Begin`; no other event makes a call. -/
theorem calls_exact (sqlClient : Bool) (metrics : Metrics) (stream : Stream) (hstream : stream.Regular)
    (i : Nat) (o : Outside) (event : ReplicationEvent) (he : stream[i]? = some (o, event)) :
    (∀ endLsn, event = .commit endLsn →
      (∀ p b mid, LastBegin (stream.take i) p b mid →
        DeliversExactly (Produced (p ++ [b]) mid) (callsAt (.start sqlClient metrics) stream i)) ∧
      ((∀ p b mid, ¬ LastBegin (stream.take i) p b mid) →
        callsAt (.start sqlClient metrics) stream i = [])) ∧
    ((∀ endLsn, event ≠ .commit endLsn) → callsAt (.start sqlClient metrics) stream i = []) := by
  obtain ⟨r, hf, hbuf, hcalls⟩ := callsAt_eq sqlClient metrics hstream he
  rw [hcalls]
  refine ⟨?_, ?_⟩
  · rintro endLsn rfl
    have hdelivers := handleCommit_delivers hbuf o endLsn
    exact ⟨hdelivers.opened, hdelivers.closed⟩
  · intro hc
    cases event with
    | commit endLsn => exact absurd rfl (hc endLsn)
    | _ => rfl

/-- The relation `comments`, then a transaction that inserts a comment on `doc1`. -/
def insertStream : Stream :=
  [(.sorted, .xLogData (encodeMessages
      [.relation 7 "public" "comments" 0 [⟨1, "id", 23, -1⟩, ⟨0, "document_id", 25, -1⟩]])),
    (.sorted, .begin),
    (.sorted, .xLogData (encodeMessages [.insert 7 [.text .t "1", .text .t "doc1"]])),
    (.sorted, .commit 5)]

theorem calls_exact_insert :
    DeliversExactly (Produced (insertStream.take 2) [insertStream[2]])
        (callsAt (.start true {}) insertStream 3) ∧
      callsAt (.start true {}) insertStream 2 = [] := by
  have hregular : insertStream.Regular := by
    refine ⟨?_, by decide +kernel⟩
    simp [insertStream]
  refine ⟨?_, ?_⟩
  · refine ((calls_exact true {} insertStream hregular 3 _ _ rfl).1 5 rfl).1
      (insertStream.take 1) insertStream[1] [insertStream[2]] ⟨rfl, rfl, ?_, ?_⟩ <;>
      simp [insertStream]
  · exact (calls_exact true {} insertStream hregular 2 _ _ rfl).2 nofun

end MiniGraph
