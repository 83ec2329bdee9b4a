import MiniGraph.Wal.ReaderRuns

/-!
# Routing is exact

The router and the generator name the same two columns, each on its own: every hint of the generator
is `Routable`, and the routed hints of a transaction are a partition of its routable ones
(`routing_partitions`). What a run of the reader sends is routed from the buffer of some row events
(`call_of_run`).
-/

namespace MiniGraph
open Lib

/-! ### Routable hints -/

def QueryHint.Routable (hint : QueryHint) : Prop :=
  (hint.table = "comments" ∧ hint.column = "document_id") ∨
    (hint.table = "documents" ∧ hint.column = "id")

theorem routeKey_eq_some {hint : QueryHint} {documentId : DocumentId} :
    HintRouter.routeKey hint = some documentId ↔ hint.Routable ∧ hint.value = documentId := by
  unfold HintRouter.routeKey QueryHint.Routable
  split
  · next htable hcolumn => simp [htable, hcolumn]
  · next htable hcolumn => simp [htable, hcolumn]
  · next hcomments hdocuments =>
    refine iff_of_false (by simp) ?_
    rintro ⟨⟨htable, hcolumn⟩ | ⟨htable, hcolumn⟩, -⟩
    · exact hcomments htable hcolumn
    · exact hdocuments htable hcolumn

theorem routable_of_generate {event : WalEvent} {hints : List QueryHint} {hint : QueryHint}
    (h : generateInvalidationHints event = .ok hints) (hmem : hint ∈ hints) : hint.Routable := by
  rcases eq_of_mem_generate h hmem with ⟨documentId, rfl⟩ | ⟨documentId, rfl⟩
  · exact .inl ⟨rfl, rfl⟩
  · exact .inr ⟨rfl, rfl⟩

/-! ### The partition -/

/-- `routed` holds the routable ones among `hints`, each once, in the bucket of the document that its
value names, and no other bucket. -/
structure Partitions (hints : Finset QueryHint) (routed : Groups DocumentId QueryHint) : Prop where
  mem_iff : ∀ documentId hint,
    (∃ bucket, routed.lookup documentId = some bucket ∧ hint ∈ bucket) ↔
      hint ∈ hints ∧ hint.Routable ∧ hint.value = documentId
  once : ∀ hint ∈ hints, hint.Routable →
    ∃ bucket, routed.lookup hint.value = some bucket ∧ bucket.count hint = 1 ∧
      ∀ documentId bucket', routed.lookup documentId = some bucket' → hint ∈ bucket' →
        documentId = hint.value
  ne_nil : ∀ documentId bucket, routed.lookup documentId = some bucket → bucket ≠ []

namespace HintRouter
variable {order : Iteration QueryHint} {hints : Finset QueryHint} {hint : QueryHint}

theorem exists_bucket (h : hint ∈ hints) (hroutable : hint.Routable) :
    ∃ bucket, (route order hints).lookup hint.value = some bucket ∧ hint ∈ bucket := by
  have hkey : routeKey hint = some hint.value := routeKey_eq_some.2 ⟨hroutable, rfl⟩
  obtain ⟨bucket, hbucket⟩ := (exists_lookup_route order hints hint.value).2 ⟨hint, h, hkey⟩
  exact ⟨bucket, hbucket, ((lookup_route hbucket).2.2 hint).2 ⟨h, hkey⟩⟩

theorem partitions_route (order : Iteration QueryHint) (hints : Finset QueryHint) :
    Partitions hints (route order hints) where
  mem_iff documentId hint := by
    constructor
    · rintro ⟨bucket, hbucket, hmem⟩
      obtain ⟨hhint, hkey⟩ := ((lookup_route hbucket).2.2 hint).1 hmem
      exact ⟨hhint, routeKey_eq_some.1 hkey⟩
    · rintro ⟨hhint, hroutable, rfl⟩
      exact exists_bucket hhint hroutable
  once hint hhint hroutable := by
    have hrouted : ∃ bucket, (route order hints).lookup hint.value = some bucket ∧ hint ∈ bucket :=
      exists_bucket hhint hroutable
    obtain ⟨bucket, hbucket, hmem⟩ := hrouted
    refine ⟨bucket, hbucket, ?_, fun documentId bucket' hbucket' hmem' => ?_⟩
    · exact List.count_eq_one_of_mem (lookup_route hbucket).2.1 hmem
    · have hkey := (((lookup_route hbucket').2.2 hint).1 hmem').2
      exact (routeKey_eq_some.1 hkey).2.symm
  ne_nil documentId bucket hbucket := (lookup_route hbucket).1

end HintRouter

/-! ### Deduplication -/

section Dedupe
variable (documentOrder : Iteration DocumentId) (map : Groups DocumentId QueryHint)

theorem dedupeRoutedHints_route (order : Iteration QueryHint) (hints : Finset QueryHint) :
    dedupeRoutedHints documentOrder (HintRouter.route order hints) = HintRouter.route order hints := by
  refine Finmap.ext_lookup fun documentId => ?_
  rw [lookup_dedupeRoutedHints]
  cases h : (HintRouter.route order hints).lookup documentId with
  | none => rfl
  | some bucket =>
    exact congrArg some (retainUnseen_of_nodup (HintRouter.lookup_route h).2.1 (by simp))

theorem dedupeRoutedHints_dedupeRoutedHints :
    dedupeRoutedHints documentOrder (dedupeRoutedHints documentOrder map) =
      dedupeRoutedHints documentOrder map := by
  refine Finmap.ext_lookup fun documentId => ?_
  rw [lookup_dedupeRoutedHints, lookup_dedupeRoutedHints, Option.map_map]
  exact congrArg (Option.map · _) (funext retainUnseen_retainUnseen)

theorem lookup_dedupeRoutedHints_eq (documentId : DocumentId) :
    (dedupeRoutedHints documentOrder map).lookup documentId =
      (map.lookup documentId).map firstOccurrences := by
  rw [lookup_dedupeRoutedHints]
  exact congrArg (Option.map · _) (funext retainUnseen_empty)

end Dedupe

/-! ### The buffer of a transaction -/

/-- The buffer of a transaction with the row events `events`. -/
def TransactionBuffer.ofEvents (events : List WalEvent) : TransactionBuffer :=
  TransactionBuffer.empty.addAll (hintsOf events)

variable {events : List WalEvent} {hint : QueryHint}

theorem mem_ofEvents : hint ∈ (TransactionBuffer.ofEvents events).hints ↔
    ∃ event ∈ events, ∃ hints, generateInvalidationHints event = .ok hints ∧ hint ∈ hints := by
  rw [TransactionBuffer.ofEvents, TransactionBuffer.mem_addAll, mem_hintsOf]
  exact ⟨fun h => h.resolve_left (Finset.notMem_empty hint), .inr⟩

theorem ofEvents_addAll (events events' : List WalEvent) :
    (TransactionBuffer.ofEvents events).addAll (hintsOf events') =
      TransactionBuffer.ofEvents (events ++ events') := by
  simp [TransactionBuffer.ofEvents, TransactionBuffer.addAll, hintsOf, Finset.union_assoc]

namespace WalReader
variable {r : WalReader}

def Recorded (r : WalReader) : Prop :=
  ∀ tx, r.transaction = some tx → ∃ events, tx = TransactionBuffer.ofEvents events

theorem Recorded.addAll {r' : WalReader} {events : List WalEvent} (h : r.Recorded)
    (htx : r'.transaction = r.transaction.map (TransactionBuffer.addAll (hintsOf events))) :
    r'.Recorded := by
  intro tx hsome
  obtain ⟨tx', htx', rfl⟩ := Option.map_eq_some_iff.1 (htx.symm.trans hsome)
  obtain ⟨events', rfl⟩ := h tx' htx'
  exact ⟨events' ++ events, ofEvents_addAll events' events⟩

theorem Recorded.handleMessage (h : r.Recorded) (msg : PgOutputMessage) : (r.handleMessage msg).Recorded := by
  by_cases hmsg : SchemaChanges r.relations msg
  · have htx : (r.handleMessage msg).transaction = r.transaction := by
      unfold WalReader.handleMessage
      have hconv : pgoutputToWalEvent r.relations msg = (.error .schemaChange, r.relations) :=
        Prod.ext hmsg hmsg.relations_eq
      rw [hconv]
    exact fun tx hsome => h tx (htx.symm.trans hsome)
  · rw [r.handleMessage_eq hmsg]
    exact h.addAll rfl

theorem Recorded.handleMessages (h : r.Recorded) (msgs : List PgOutputMessage) :
    (r.handleMessages msgs).Recorded := by
  induction msgs generalizing r with
  | nil => exact h
  | cons msg msgs ih =>
    unfold WalReader.handleMessages
    split
    · exact ih (h.handleMessage msg)
    · exact h.handleMessage msg

theorem Recorded.handleData (h : r.Recorded) (data : List UInt8) : (r.handleData data).Recorded := by
  unfold WalReader.handleData
  split
  · exact h.handleMessages _
  · exact h

/-- The call is a bucket routed from the buffer of some row events. -/
def Routes (call : DocumentId × List QueryHint) : Prop :=
  ∃ order events,
    (HintRouter.route order (TransactionBuffer.ofEvents events).take.1).lookup call.1 = some call.2

theorem Recorded.handleCommit (h : r.Recorded) (o : Outside) (endLsn : UInt64) :
    ∀ action ∈ (WalReader.handleCommit o r endLsn).1, ∀ call, action.call = some call → Routes call := by
  intro action haction call hcall
  have hmem := List.mem_filterMap.2 ⟨action, haction, hcall⟩
  rw [handleCommit_calls] at hmem
  cases htx : r.transaction with
  | none =>
    rw [htx] at hmem
    cases hmem
  | some tx =>
    obtain ⟨events, rfl⟩ := h tx htx
    rw [htx] at hmem
    simp only [deliver_calls] at hmem
    exact ⟨o.hintOrder, events, (mem_entries _).1 hmem⟩

/-- One turn: the buffer stays one of row events, and what is sent is routed from it. -/
theorem Recorded.turn (h : r.Recorded) (w : Outside × Wake) :
    (∀ action ∈ (r.turn w).1, ∀ call, action.call = some call → Routes call) ∧ (r.turn w).2.Recorded := by
  have hidle : ∀ action ∈ ([] : List Action), ∀ call, action.call = some call → Routes call := by simp
  have hstop : ∀ action ∈ [Action.stopReplication], ∀ call, action.call = some call → Routes call := by
    intro action haction call hcall
    rw [List.mem_singleton.1 haction] at hcall
    cases hcall
  obtain ⟨o, w⟩ := w
  unfold WalReader.turn
  cases r.status with
  | stopped => exact ⟨hidle, h⟩
  | returned => exact ⟨hidle, h⟩
  | looping =>
    rcases w with (_ | cmd) | health | (err | (_ | event))
    · exact ⟨hstop, h⟩
    · exact ⟨hstop, h⟩
    · simp only
      split
      · exact ⟨hidle, h⟩
      · exact ⟨hidle, h⟩
    · exact ⟨hidle, h⟩
    · exact ⟨hidle, h⟩
    · cases event with
      | xLogData data => exact ⟨hidle, h.handleData data⟩
      | begin =>
        refine ⟨hidle, fun tx htx => ⟨[], ?_⟩⟩
        exact (Option.some.inj htx).symm
      | commit endLsn => exact ⟨h.handleCommit o endLsn, fun tx htx => by cases htx⟩
      | keepAlive walEnd replyRequested => exact ⟨hidle, h⟩
      | stoppedAt reached => exact ⟨hidle, h⟩

/-- Whatever wakes it up, the reader sends routed buckets only. -/
theorem call_of_run (sqlClient : Bool) (metrics : Metrics) (wakes : List (Outside × Wake)) :
    ∀ action ∈ (start sqlClient metrics).trace wakes, ∀ call, action.call = some call → Routes call := by
  have hstart : (start sqlClient metrics).Recorded := fun tx htx => absurd htx (by simp [start])
  generalize start sqlClient metrics = r at hstart
  induction wakes generalizing r with
  | nil => simp [trace, run, runs]
  | cons w wakes ih =>
    intro action haction call hcall
    rw [trace_cons] at haction
    rcases List.mem_append.1 haction with haction | haction
    · exact (hstart.turn w).1 action haction call hcall
    · exact ih _ (hstart.turn w).2 action haction call hcall

end WalReader

/-- **Routing loses nothing.** The routed hints are a partition of the routable ones; what the
generator makes of an event is routable, and routed from every buffer that has the event; and there
is nothing to deduplicate. -/
theorem routing_partitions (order : Iteration QueryHint) (documentOrder : Iteration DocumentId) :
    (∀ hints, Partitions hints (HintRouter.route order hints)) ∧
    (∀ event hints, generateInvalidationHints event = .ok hints → ∀ hint ∈ hints,
      hint.Routable ∧ ∀ events, event ∈ events →
        ∃ bucket, (HintRouter.route order (TransactionBuffer.ofEvents events).take.1).lookup hint.value =
          some bucket ∧ hint ∈ bucket) ∧
    (∀ hints, dedupeRoutedHints documentOrder (HintRouter.route order hints) =
      HintRouter.route order hints) ∧
    ∀ map, (∀ documentId, (dedupeRoutedHints documentOrder map).lookup documentId =
        (map.lookup documentId).map firstOccurrences) ∧
      dedupeRoutedHints documentOrder (dedupeRoutedHints documentOrder map) =
        dedupeRoutedHints documentOrder map := by
  refine ⟨HintRouter.partitions_route order, ?_, dedupeRoutedHints_route documentOrder order, ?_⟩
  · intro event hints h hint hmem
    have hroutable := routable_of_generate h hmem
    refine ⟨hroutable, fun events hevent => HintRouter.exists_bucket ?_ hroutable⟩
    exact mem_ofEvents.2 ⟨event, hevent, hints, h, hmem⟩
  · intro map
    exact ⟨lookup_dedupeRoutedHints_eq documentOrder map,
      dedupeRoutedHints_dedupeRoutedHints documentOrder map⟩

end MiniGraph
