import MiniGraph.Wal.Acknowledgement
import MiniGraph.Wal.Tables

/-!
# What is published

The replication events that Postgres sends for transactions on the two tables: a relation message before the
first row of a relation, and one message for each row, in payloads of any number of messages. A comment comes
with its old row, as its replica identity is FULL. A TRUNCATE is published, too, in a payload of its own: the
parser does not know its tag. The reader makes of it all exactly the hints of the changes
(`published_of_feeds`). The columns of the tables stay as they are.
-/

namespace MiniGraph
open Lib

def Table.name : Table → String
  | .comments => "comments"
  | .documents => "documents"

/-- The column that the hints are made of. -/
def Table.column : Table → String
  | .comments => "document_id"
  | .documents => "id"

/-- The relations of the two tables, and where their columns are. -/
structure Layout where
  relation : Table → Relation
  position : Table → Nat
  name : ∀ table, (relation table).name = table.name
  distinct : ∀ table table', (relation table).id = (relation table').id → table = table'
  nodup : ∀ table, (relation table).columns.Nodup
  column : ∀ table, (relation table).columns[position table]? = some table.column

/-- The transactions that have been published, with their LSNs, the changes of the one that is not committed
yet, and the tables whose relations have been announced. -/
structure Feed where
  committed : List (List Change × UInt64)
  opened : Option (List Change)
  announced : Set Table

/-- The tables after the first `n` of the published transactions. -/
def Feed.tables (feed : Feed) (start : Tables) (n : Nat) : Tables :=
  afterFirst Change.apply start (feed.committed.map Prod.fst) n

/-- A change is among `changes` and has the hint. -/
def Hinted (changes : List Change) (hint : QueryHint) : Prop := ∃ change ∈ changes, hint ∈ change.hints

/-! ### Converting a message -/

theorem rowEvent_relation (relations : Relations) (rel : Relation) :
    rowEvent relations (.relation rel) = none := by
  unfold rowEvent
  simp only [pgoutputToWalEvent]
  cases relations.lookup rel.id with
  | none => rfl
  | some existing =>
    by_cases hne : existing ≠ rel
    · simp only [if_pos hne]
    · simp only [if_neg hne]

theorem RowChange.relations_wire (relations : Relations) (relationId : UInt32) (change : RowChange) :
    (pgoutputToWalEvent relations (change.wire relationId).message).2 = relations := by
  cases change with
  | insert newTuple => rw [RowChange.wire, WireMessage.message, pgoutputToWalEvent_insert]
  | update oldTuple newTuple => rw [RowChange.wire, WireMessage.message, pgoutputToWalEvent_update]
  | delete oldTuple => rw [RowChange.wire, WireMessage.message, pgoutputToWalEvent_delete]

/-! ### What Postgres sends -/

namespace Layout

/-- The message of a change of a row of `table`. A comment has its `document_id` in every row, so it is not one
that is left out as unchanged; of a document only the `id` of a deleted one matters. -/
inductive Sends (layout : Layout) : Table → Change → RowChange → Prop
  | comments (change : TableChange Comment) (rowChange : RowChange)
      (documents : Documents (layout.position .comments) rowChange (Change.ofComment change)) :
      Sends layout .comments (.comments change) rowChange
  | insertDocument (new : DocumentId) (newTuple : List WireValue) :
      Sends layout .documents (.documents (.insert new)) (.insert newTuple)
  | updateDocument (old new : DocumentId) (oldTuple : Option OldTuple) (newTuple : List WireValue) :
      Sends layout .documents (.documents (.update old new)) (.update oldTuple newTuple)
  | deleteDocument (old : DocumentId) (oldTuple : OldTuple)
      (text : TextAt (layout.position .documents) oldTuple.values old) :
      Sends layout .documents (.documents (.delete old)) (.delete oldTuple)

/-- The message of a TRUNCATE. -/
def truncateMessage (layout : Layout) (options : UInt8) (tables : List Table) : List UInt8 :=
  ByteReader.tag 'T' :: (encodeU32 (UInt32.ofNat tables.length) ++
    options :: tables.flatMap fun table => encodeU32 (layout.relation table).id)

/-- The messages for some changes: `announced` are the tables whose relations come before, and then also
those that come among the messages. -/
inductive Writes (layout : Layout) : Set Table → List WireMessage → List Change → Set Table → Prop
  | nil (announced : Set Table) : Writes layout announced [] [] announced
  | relation (announced announced' : Set Table) (table : Table) (w : WireMessage) (ws : List WireMessage)
      (changes : List Change) (message : w.message = .relation (layout.relation table)) (valid : w.Valid)
      (rest : Writes layout (announced ∪ {table}) ws changes announced') :
      Writes layout announced (w :: ws) changes announced'
  | row (announced announced' : Set Table) (table : Table) (change : Change) (rowChange : RowChange)
      (ws : List WireMessage) (changes : List Change) (known : table ∈ announced)
      (sends : layout.Sends table change rowChange)
      (valid : (rowChange.wire (layout.relation table).id).Valid)
      (rest : Writes layout announced ws changes announced') :
      Writes layout announced (rowChange.wire (layout.relation table).id :: ws) (change :: changes) announced'

/-- What has been sent so far, and what it stands for. -/
inductive Feeds (layout : Layout) : List ReplicationEvent → Feed → Prop
  | start : Feeds layout [] ⟨[], none, ∅⟩
  | begin (events : List ReplicationEvent) (feed : Feed) (before : Feeds layout events feed)
      (idle : feed.opened = none) : Feeds layout (events ++ [.begin]) { feed with opened := some [] }
  | payload (events : List ReplicationEvent) (feed : Feed) (before : Feeds layout events feed)
      (changes changes' : List Change) (ws : List WireMessage) (announced : Set Table)
      (opened : feed.opened = some changes) (writes : layout.Writes feed.announced ws changes' announced) :
      Feeds layout (events ++ [.xLogData (encodeMessages ws)])
        { feed with opened := some (changes ++ changes'), announced }
  | truncate (events : List ReplicationEvent) (feed : Feed) (before : Feeds layout events feed)
      (changes : List Change) (options : UInt8) (tables : List Table) (opened : feed.opened = some changes) :
      Feeds layout (events ++ [.xLogData (layout.truncateMessage options tables)])
        { feed with opened := some (changes ++ [.truncate tables]) }
  | commit (events : List ReplicationEvent) (feed : Feed) (before : Feeds layout events feed)
      (changes : List Change) (endLsn : UInt64) (opened : feed.opened = some changes) :
      Feeds layout (events ++ [.commit endLsn])
        { feed with committed := feed.committed ++ [(changes, endLsn)], opened := none }
  | keepAlive (events : List ReplicationEvent) (feed : Feed) (before : Feeds layout events feed)
      (walEnd : UInt64) (replyRequested : Bool) :
      Feeds layout (events ++ [.keepAlive walEnd replyRequested]) feed

variable {layout : Layout}

/-! ### Messages -/

/-- The cache has the relations that have been announced, and no others. -/
structure Agrees (layout : Layout) (announced : Set Table) (relations : Relations) : Prop where
  cached : ∀ table ∈ announced, relations.lookup (layout.relation table).id = some (layout.relation table)
  only : ∀ id rel, relations.lookup id = some rel → ∃ table, rel = layout.relation table ∧ rel.id = id

theorem Sends.hints {table : Table} {change : Change} {rowChange : RowChange} {relations : Relations}
    (h : layout.Sends table change rowChange)
    (hcached : relations.lookup (layout.relation table).id = some (layout.relation table))
    (hvalid : (rowChange.wire (layout.relation table).id).Valid) :
    generateInvalidationHints (rowChange.event (layout.relation table)) = .ok change.hints := by
  have hname := layout.name table
  have hcolumn := layout.column table
  let c : CachedChange := ⟨layout.relation table, relations, rowChange, hcached, hvalid⟩
  cases h with
  | comments change rowChange documents =>
    exact c.generate_comment hname ⟨layout.nodup _, hcolumn⟩ documents
  | insertDocument new newTuple =>
    rw [RowChange.event, generate_insert, hname]
    rfl
  | updateDocument old new oldTuple newTuple =>
    rw [RowChange.event, generate_update, hname]
    rfl
  | deleteDocument old oldTuple text =>
    have htext : getTextColumn (RowChange.row c.rel oldTuple.values) "id" = some old :=
      CachedChange.ColumnAt.getTextColumn (c := c) ⟨layout.nodup _, hcolumn⟩ text
    have hdocuments : (layout.relation .documents).name = "documents" := hname
    have hne : (layout.relation .documents).name ≠ "comments" := by
      rw [hdocuments]
      decide
    rw [RowChange.event, generate_delete, if_neg hne, if_pos hdocuments,
      requireTextColumn_map_eq_ok]
    exact ⟨old, htext, rfl⟩

theorem agrees_empty (layout : Layout) : layout.Agrees ∅ ∅ where
  cached := nofun
  only id rel h := by
    rw [Finmap.lookup_empty] at h
    cases h

namespace Agrees
variable {announced : Set Table} {relations : Relations} {table : Table}

/-- A relation that has been announced before is the same as before. -/
theorem not_schemaChanges (h : layout.Agrees announced relations) :
    ¬ SchemaChanges relations (.relation (layout.relation table)) := by
  intro hchange
  obtain ⟨existing, hlookup, hne⟩ := schemaChanges_relation.1 hchange
  obtain ⟨table', rfl, hid⟩ := h.only _ _ hlookup
  exact hne (congrArg layout.relation (layout.distinct _ _ hid))

theorem relation (h : layout.Agrees announced relations) : layout.Agrees (announced ∪ {table})
    (pgoutputToWalEvent relations (.relation (layout.relation table))).2 where
  cached table' hmem := by
    rw [lookup_pgoutputToWalEvent]
    rcases hmem with hmem | rfl
    · rw [h.cached table' hmem, Option.some_or]
    · cases hlookup : relations.lookup (layout.relation table').id with
      | none => exact announces_eq_some.2 ⟨rfl, rfl⟩
      | some existing =>
        obtain ⟨table, rfl, hid⟩ := h.only _ _ hlookup
        rw [layout.distinct _ _ hid, Option.some_or]
  only id rel hlookup := by
    rw [lookup_pgoutputToWalEvent] at hlookup
    cases hold : relations.lookup id with
    | none =>
      rw [hold, Option.none_or] at hlookup
      obtain ⟨hmessage, hid⟩ := announces_eq_some.1 hlookup
      exact ⟨table, (PgOutputMessage.relation.inj hmessage).symm, hid⟩
    | some existing =>
      rw [hold, Option.some_or] at hlookup
      exact h.only id rel (hold.trans hlookup)

end Agrees

/-- What the reader makes of the messages for some changes. -/
structure Reads (layout : Layout) (relations : Relations) (ws : List WireMessage) (changes : List Change)
    (announced : Set Table) : Prop where
  valid : ∀ w ∈ ws, w.Valid
  noSchemaChange : NoSchemaChange relations (ws.map WireMessage.message)
  agrees : layout.Agrees announced (cacheAfter relations (ws.map WireMessage.message))
  hints : hintsOf (rowEvents relations (ws.map WireMessage.message)) = changes.flatMap Change.hints

theorem Writes.reads {announced announced' : Set Table} {ws : List WireMessage} {changes : List Change}
    (h : layout.Writes announced ws changes announced') {relations : Relations}
    (hagrees : layout.Agrees announced relations) : layout.Reads relations ws changes announced' := by
  induction h generalizing relations with
  | nil => exact ⟨nofun, trivial, hagrees, rfl⟩
  | relation announced announced' table w ws changes message valid rest ih =>
    obtain ⟨hvalid, hnone, hafter, hhints⟩ := ih hagrees.relation
    refine ⟨List.forall_mem_cons.2 ⟨valid, hvalid⟩, ?_, ?_, ?_⟩
    · rw [List.map_cons, message]
      exact ⟨hagrees.not_schemaChanges, hnone⟩
    · rw [List.map_cons, message]
      exact hafter
    · rw [List.map_cons, message, rowEvents, rowEvent_relation]
      exact hhints
  | row announced announced' table change rowChange ws changes known sends valid rest ih =>
    obtain ⟨hvalid, hnone, hafter, hhints⟩ := ih hagrees
    have hcached := hagrees.cached _ known
    have hconverted := rowChange.convert_wire hcached
    have hsame := rowChange.relations_wire relations (layout.relation table).id
    refine ⟨List.forall_mem_cons.2 ⟨valid, hvalid⟩, ?_, ?_, ?_⟩
    · refine ⟨fun hchange => ?_, ?_⟩
      · rw [SchemaChanges, hconverted] at hchange
        cases hchange
      · rwa [hsame]
    · rw [List.map_cons, cacheAfter, List.foldl_cons, hsame]
      exact hafter
    · rw [List.map_cons, rowEvents, hsame, hintsOf, List.flatMap_append, ← hintsOf, ← hintsOf, hhints,
        List.flatMap_cons, rowEvent, hconverted, Option.toList_some, hintsOf, List.flatMap_singleton,
        sends.hints hcached valid]

end Layout

/-! ### Streams -/

/-- The open transaction of a stream has produced the hints of `changes`. -/
def Opened (stream : Stream) (changes : List Change) : Prop :=
  ∃ p b mid, LastBegin stream p b mid ∧ ∀ hint, Produced (p ++ [b]) mid hint ↔ Hinted changes hint

theorem hinted_append {changes changes' : List Change} {hint : QueryHint} :
    Hinted (changes ++ changes') hint ↔ Hinted changes hint ∨ hint ∈ changes'.flatMap Change.hints := by
  rw [List.mem_flatMap]
  constructor
  · rintro ⟨change, hmem, hhint⟩
    rcases List.mem_append.1 hmem with hmem | hmem
    · exact .inl ⟨change, hmem, hhint⟩
    · exact .inr ⟨change, hmem, hhint⟩
  · rintro (⟨change, hmem, hhint⟩ | ⟨change, hmem, hhint⟩)
    · exact ⟨change, List.mem_append_left _ hmem, hhint⟩
    · exact ⟨change, List.mem_append_right _ hmem, hhint⟩

/-- A stream has one open transaction at most. -/
theorem LastBegin.unique {stream p p' mid mid' : Stream} {b b' : Outside × ReplicationEvent}
    (h : LastBegin stream p b mid) (h' : LastBegin stream p' b' mid') : p = p' ∧ b = b' ∧ mid = mid' := by
  have hsplit := h.split.symm.trans h'.split
  rcases List.append_eq_append_iff.1 hsplit with ⟨between, rfl, hrest⟩ | ⟨between, rfl, hrest⟩
  · cases between with
    | nil =>
      obtain ⟨rfl, rfl⟩ := List.cons.inj hrest
      exact ⟨(List.append_nil _).symm, rfl, rfl⟩
    | cons e between =>
      obtain ⟨rfl, rfl⟩ := List.cons.inj hrest
      exact absurd h'.begins (h.not_begin b' (by simp))
  · cases between with
    | nil =>
      obtain ⟨rfl, rfl⟩ := List.cons.inj hrest
      exact ⟨List.append_nil _, rfl, rfl⟩
    | cons e between =>
      obtain ⟨rfl, rfl⟩ := List.cons.inj hrest
      exact absurd h.begins (h'.not_begin b (by simp))

namespace Opened
variable {stream : Stream} {e : Outside × ReplicationEvent} {changes changes' : List Change}

theorem of_begin (he : e.2 = .begin) : Opened (stream ++ [e]) [] := by
  refine ⟨stream, e, [], LastBegin.of_begin he, fun hint => ?_⟩
  refine iff_of_false not_produced_nil ?_
  rintro ⟨change, hmem, -⟩
  cases hmem

theorem concat (h : Opened stream changes) (hb : e.2 ≠ .begin) (hc : ∀ endLsn, e.2 ≠ .commit endLsn)
    (hhints : hintsOf (rowEvents (cacheAfter ∅ stream.messages) (decoded e.2)) =
      changes'.flatMap Change.hints) : Opened (stream ++ [e]) (changes ++ changes') := by
  obtain ⟨p, b, mid, hlast, hproduced⟩ := h
  refine ⟨p, b, mid ++ [e], hlast.concat hb hc, fun hint => ?_⟩
  have hstream : p ++ [b] ++ mid = stream := by
    rw [hlast.split]
    simp
  obtain ⟨o, event⟩ := e
  rw [produced_concat, hproduced, hstream, hhints, hinted_append]

end Opened

theorem commitsOf_append (before stream rest : Stream) :
    commitsOf before (stream ++ rest) = commitsOf before stream ++ commitsOf (before ++ stream) rest := by
  induction stream generalizing before with
  | nil => rw [List.append_nil]; rfl
  | cons e stream ih =>
    obtain ⟨o, event⟩ := e
    have hsplit : before ++ (o, event) :: stream = before ++ [(o, event)] ++ stream := by simp
    rw [hsplit]
    cases event with
    | commit endLsn =>
      rw [List.cons_append, commitsOf_cons_of_commit, commitsOf_cons_of_commit, ih, List.cons_append]
    | _ => exact ih _

theorem commitsOf_concat_of_ne {stream : Stream} {e : Outside × ReplicationEvent}
    (h : ∀ endLsn, e.2 ≠ .commit endLsn) : commitsOf [] (stream ++ [e]) = commitsOf [] stream := by
  rw [commitsOf_append, commitsOf_cons_of_ne h]
  exact List.append_nil _

theorem exists_of_map_concat {stream : Stream} {events : List ReplicationEvent} {event : ReplicationEvent}
    (h : stream.map Prod.snd = events ++ [event]) :
    ∃ before o, stream = before ++ [(o, event)] ∧ before.map Prod.snd = events := by
  obtain ⟨before, last, rfl, hbefore, hlast⟩ := List.map_eq_append_iff.1 h
  obtain ⟨⟨o, event'⟩, rest, rfl, rfl, hrest⟩ := List.map_eq_cons_iff.1 hlast
  obtain rfl := List.map_eq_nil_iff.1 hrest
  exact ⟨before, o, rfl, hbefore⟩

namespace Layout
variable {layout : Layout} {stream : Stream} {feed : Feed} {e : Outside × ReplicationEvent}

/-- What the stream means to the reader is what has been published. -/
structure Published (layout : Layout) (stream : Stream) (feed : Feed) : Prop where
  running : stream.Running
  agrees : layout.Agrees feed.announced (cacheAfter ∅ stream.messages)
  opened : ∀ changes, feed.opened = some changes → Opened stream changes
  commits : List.Forall₂ (fun c transaction => Opened c.1 transaction.1 ∧ c.2 = transaction.2)
    (commitsOf [] stream) feed.committed

theorem published_start (layout : Layout) : layout.Published [] ⟨[], none, ∅⟩ where
  running := ⟨nofun, trivial⟩
  agrees := layout.agrees_empty
  opened := nofun
  commits := .nil

/-- One more event that has nothing to say about the relations. -/
theorem Published.running_concat (h : layout.Published stream feed)
    (hstop : ∀ reached, e.2 ≠ .stoppedAt reached)
    (hn : NoSchemaChange (cacheAfter ∅ stream.messages) (decoded e.2)) : Stream.Running (stream ++ [e]) := by
  refine ⟨fun e' hmem => ?_, ?_⟩
  · rcases List.mem_append.1 hmem with hmem | hmem
    · exact h.running.not_stopped e' hmem
    · rwa [List.mem_singleton.1 hmem]
  · rw [Stream.messages_concat, noSchemaChange_append]
    exact ⟨h.running.noSchemaChange, hn⟩

theorem Published.quiet_agrees (h : layout.Published stream feed) (hquiet : decoded e.2 = []) :
    layout.Agrees feed.announced (cacheAfter ∅ (Stream.messages (stream ++ [e]))) := by
  rw [Stream.messages_concat, hquiet, List.append_nil]
  exact h.agrees

theorem Published.begin (h : layout.Published stream feed) (o : Outside) :
    layout.Published (stream ++ [(o, .begin)]) { feed with opened := some [] } where
  running := h.running_concat (by rintro _ ⟨⟩) trivial
  agrees := h.quiet_agrees rfl
  opened := by
    rintro changes heq
    obtain rfl := Option.some.inj heq
    exact .of_begin rfl
  commits := by
    rw [commitsOf_concat_of_ne (by rintro _ ⟨⟩)]
    exact h.commits

theorem Published.payload (h : layout.Published stream feed) (o : Outside) {changes changes' : List Change}
    {ws : List WireMessage} {announced : Set Table} (hopened : feed.opened = some changes)
    (hwrites : layout.Writes feed.announced ws changes' announced) :
    layout.Published (stream ++ [(o, .xLogData (encodeMessages ws))])
      { feed with opened := some (changes ++ changes'), announced } := by
  have hreads := hwrites.reads h.agrees
  have hdecoded : decoded (.xLogData (encodeMessages ws)) = ws.map WireMessage.message := by
    simp only [decoded, parse_standard hreads.valid]
  refine ⟨h.running_concat (by rintro _ ⟨⟩) ?_, ?_, ?_, ?_⟩
  · rw [hdecoded]
    exact hreads.noSchemaChange
  · rw [Stream.messages_concat, hdecoded, cacheAfter_append]
    exact hreads.agrees
  · rintro changes₁ heq
    obtain rfl := Option.some.inj heq
    refine (h.opened changes hopened).concat (by rintro ⟨⟩) (by rintro _ ⟨⟩) ?_
    rw [hdecoded]
    exact hreads.hints
  · rw [commitsOf_concat_of_ne (by rintro _ ⟨⟩)]
    exact h.commits

/-- The parser rejects the payload: no message that it knows begins like this. -/
theorem decoded_truncateMessage (layout : Layout) (options : UInt8) (tables : List Table) :
    decoded (.xLogData (layout.truncateMessage options tables)) = [] := by
  cases hparse : parsePgoutputMessages (layout.truncateMessage options tables) with
  | error err => simp only [decoded, hparse]
  | ok ms =>
    obtain ⟨ws, -, -, hdata⟩ := parse_eq_ok.1 hparse
    have hhead := congrArg List.head? hdata
    cases ws with
    | nil => cases hhead
    | cons w ws =>
      rw [List.flatMap_cons] at hhead
      rcases w with (w | w)
      · cases w <;> exact absurd (Option.some.inj hhead) (by decide)
      · exact absurd (Option.some.inj hhead) (by decide)

theorem Published.truncate (h : layout.Published stream feed) (o : Outside) {changes : List Change}
    (options : UInt8) (tables : List Table) (hopened : feed.opened = some changes) :
    layout.Published (stream ++ [(o, .xLogData (layout.truncateMessage options tables))])
      { feed with opened := some (changes ++ [.truncate tables]) } := by
  have hquiet := decoded_truncateMessage layout options tables
  refine ⟨h.running_concat (by rintro _ ⟨⟩) ?_, h.quiet_agrees hquiet, ?_, ?_⟩
  · rw [hquiet]
    trivial
  · rintro changes₁ heq
    obtain rfl := Option.some.inj heq
    refine (h.opened changes hopened).concat (by rintro ⟨⟩) (by rintro _ ⟨⟩) ?_
    rw [hquiet]
    rfl
  · rw [commitsOf_concat_of_ne (by rintro _ ⟨⟩)]
    exact h.commits

theorem Published.commit (h : layout.Published stream feed) (o : Outside) {changes : List Change}
    (endLsn : UInt64) (hopened : feed.opened = some changes) :
    layout.Published (stream ++ [(o, .commit endLsn)])
      { feed with committed := feed.committed ++ [(changes, endLsn)], opened := none } where
  running := h.running_concat (by rintro _ ⟨⟩) trivial
  agrees := h.quiet_agrees rfl
  opened := by
    rintro changes' ⟨⟩
  commits := by
    rw [commitsOf_append]
    exact List.rel_append h.commits (.cons ⟨h.opened changes hopened, rfl⟩ .nil)

theorem Published.keepAlive (h : layout.Published stream feed) (o : Outside) (walEnd : UInt64)
    (replyRequested : Bool) : layout.Published (stream ++ [(o, .keepAlive walEnd replyRequested)]) feed where
  running := h.running_concat (by rintro _ ⟨⟩) trivial
  agrees := h.quiet_agrees rfl
  opened := by
    intro changes hopened
    have hsame : Opened (stream ++ [(o, .keepAlive walEnd replyRequested)]) (changes ++ []) :=
      (h.opened changes hopened).concat (by rintro ⟨⟩) (by rintro _ ⟨⟩) rfl
    rwa [List.append_nil] at hsame
  commits := by
    rw [commitsOf_concat_of_ne (by rintro _ ⟨⟩)]
    exact h.commits

/-- **What is published is what the reader gets.** -/
theorem published_of_feeds {events : List ReplicationEvent} (h : layout.Feeds events feed)
    (hstream : stream.map Prod.snd = events) : layout.Published stream feed := by
  induction h generalizing stream with
  | start =>
    obtain rfl := List.map_eq_nil_iff.1 hstream
    exact published_start layout
  | begin events feed before idle ih =>
    obtain ⟨stream, o, rfl, hbefore⟩ := exists_of_map_concat hstream
    exact (ih hbefore).begin o
  | payload events feed before changes changes' ws announced opened writes ih =>
    obtain ⟨stream, o, rfl, hbefore⟩ := exists_of_map_concat hstream
    exact (ih hbefore).payload o opened writes
  | truncate events feed before changes options tables opened ih =>
    obtain ⟨stream, o, rfl, hbefore⟩ := exists_of_map_concat hstream
    exact (ih hbefore).truncate o options tables opened
  | commit events feed before changes endLsn opened ih =>
    obtain ⟨stream, o, rfl, hbefore⟩ := exists_of_map_concat hstream
    exact (ih hbefore).commit o endLsn opened
  | keepAlive events feed before walEnd replyRequested ih =>
    obtain ⟨stream, o, rfl, hbefore⟩ := exists_of_map_concat hstream
    exact (ih hbefore).keepAlive o walEnd replyRequested

/-- What had been published at an earlier moment. -/
theorem Feeds.exists_before {events events' : List ReplicationEvent} (h : layout.Feeds events feed)
    (hearlier : events' <+: events) :
    ∃ feed', layout.Feeds events' feed' ∧ feed'.committed <+: feed.committed := by
  induction h with
  | start =>
    obtain rfl := List.prefix_nil.1 hearlier
    exact ⟨_, .start, List.prefix_refl _⟩
  | begin events feed before idle ih =>
    rcases List.prefix_concat_iff.1 hearlier with rfl | hearlier
    · exact ⟨_, before.begin _ _ idle, List.prefix_refl _⟩
    · exact ih hearlier
  | payload events feed before changes changes' ws announced opened writes ih =>
    rcases List.prefix_concat_iff.1 hearlier with rfl | hearlier
    · exact ⟨_, before.payload _ _ _ _ _ _ opened writes, List.prefix_refl _⟩
    · exact ih hearlier
  | truncate events feed before changes options tables opened ih =>
    rcases List.prefix_concat_iff.1 hearlier with rfl | hearlier
    · exact ⟨_, before.truncate _ _ _ options tables opened, List.prefix_refl _⟩
    · exact ih hearlier
  | commit events feed before changes endLsn opened ih =>
    rcases List.prefix_concat_iff.1 hearlier with rfl | hearlier
    · exact ⟨_, before.commit _ _ _ _ opened, List.prefix_refl _⟩
    · obtain ⟨feed', hfeeds, hcommitted⟩ := ih hearlier
      exact ⟨feed', hfeeds, hcommitted.trans (List.prefix_append _ _)⟩
  | keepAlive events feed before walEnd replyRequested ih =>
    rcases List.prefix_concat_iff.1 hearlier with rfl | hearlier
    · exact ⟨_, before.keepAlive _ _ walEnd replyRequested, List.prefix_refl _⟩
    · exact ih hearlier

end Layout
end MiniGraph
