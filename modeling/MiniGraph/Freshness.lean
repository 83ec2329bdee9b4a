import MiniGraph.Invalidations
import MiniGraph.Wal.Publication
import MiniGraph.Wal.Recovery

/-!
# What the clients know stays true

From the tables to the clients: if the comments of a document are not what they were at some acknowledged
commit, an invalidation with the document's key has been handed over since then, unless the table has been
truncated. The channel has accepted it for every client that had joined, or it was full, which is counted
(`tables_fresh`). And each invalidation is due to the changes of one transaction.
-/

namespace MiniGraph
open Lib

/-! ### What a call says -/

theorem call_in_sends {sends pre later : List Action} {lsn : UInt64} {documentId : DocumentId}
    {hints : List QueryHint} {timestamp : UInt64} {answer : Except RoomCommandError Unit}
    (h : sends ++ [.setWalLsn lsn, .updateAppliedLsn lsn] =
      pre ++ .sendInvalidation documentId hints timestamp answer :: later) :
    pre <+: sends ∧ .sendInvalidation documentId hints timestamp answer ∈ sends := by
  rcases prefix_append_cons ⟨_, h.symm⟩ with hpre | ⟨between, rfl⟩
  · refine ⟨hpre, ?_⟩
    have hmem : .sendInvalidation documentId hints timestamp answer ∈
        sends ++ [.setWalLsn lsn, .updateAppliedLsn lsn] := by
      rw [h]
      simp
    rcases List.mem_append.1 hmem with hmem | hmem
    · exact hmem
    · simp at hmem
  · -- behind the calls there is none
    rw [List.append_assoc, List.cons_append] at h
    have hlast := (List.cons.inj (List.append_cancel_left h)).2
    have hmem : .sendInvalidation documentId hints timestamp answer ∈ [Action.updateAppliedLsn lsn] := by
      rw [hlast]
      simp
    simp at hmem

theorem commit_of_position {cs : List (Stream × UInt64)} {parts : List (List Action)}
    {stop pre post : List Action} {documentId : DocumentId} {hints : List QueryHint} {timestamp : UInt64}
    {answer : Except RoomCommandError Unit} (h : List.Forall₂ CommitPart cs parts)
    (hstop : stop = [] ∨ stop = [.stopReplication])
    (htrace : parts.flatten ++ stop = pre ++ .sendInvalidation documentId hints timestamp answer :: post) :
    ∃ c, cs[acks pre]? = some c ∧ hints ≠ [] ∧ hints.Nodup ∧
      ∀ hint, hint ∈ hints ↔ Server.Committed c.1 documentId hint := by
  induction h generalizing pre with
  | nil =>
    have hmem : .sendInvalidation documentId hints timestamp answer ∈ stop := by
      have hstop' : stop = pre ++ .sendInvalidation documentId hints timestamp answer :: post := htrace
      rw [hstop']
      simp
    rcases hstop with rfl | rfl
    · cases hmem
    · simp at hmem
  | @cons c part cs parts hpart hparts ih =>
    rw [List.flatten_cons, List.append_assoc] at htrace
    rcases prefix_append_cons ⟨_, htrace⟩ with ⟨pre', rfl⟩ | ⟨later, hlater⟩
    · -- it is a call of a later commit
      rw [List.append_assoc] at htrace
      obtain ⟨c', hc', hfound⟩ := ih (List.append_cancel_left htrace)
      refine ⟨c', ?_, hfound⟩
      have hone : acks part = 1 := by
        unfold acks
        rw [part_acked hpart]
        rfl
      rw [acks_append, hone, Nat.add_comm, List.getElem?_cons_succ]
      exact hc'
    · obtain ⟨sends, rfl, hcalls, hdelivers⟩ := hpart
      obtain ⟨hpre, hmem⟩ := call_in_sends hlater
      refine ⟨c, ?_, Server.hints_of_call hdelivers (List.mem_filterMap.2 ⟨_, hmem, rfl⟩)⟩
      rw [acks_of_calls fun action haction => hcalls action (hpre.subset haction)]
      rfl

namespace Runtime
variable {layout : Layout} {feed : Feed} {sqlClient : Bool} {metrics : Metrics} {as : List ServerAction}
  {r : Runtime} {documentId : DocumentId} {hint : QueryHint}

/-! ### What the database has published -/

theorem committed_iff {stream : Stream} {changes : List Change} (h : Opened stream changes) :
    Server.Committed stream documentId hint ↔
      Hinted changes hint ∧ HintRouter.routeKey hint = some documentId := by
  obtain ⟨p, b, mid, hlast, hproduced⟩ := h
  constructor
  · rintro ⟨p', b', mid', hlast', hproduced', hroute⟩
    obtain ⟨rfl, rfl, rfl⟩ := hlast.unique hlast'
    exact ⟨(hproduced hint).1 hproduced', hroute⟩
  · rintro ⟨hhinted, hroute⟩
    exact ⟨p, b, mid, hlast, (hproduced hint).2 hhinted, hroute⟩

/-- The replication events that the reader has woken up with. -/
def received (as : List ServerAction) : List ReplicationEvent :=
  (Server.wakesOf as).filterMap fun w => w.2.event

theorem map_eventsOf (wakes : List (Outside × Wake)) :
    (eventsOf wakes).map Prod.snd = wakes.filterMap fun w => w.2.event := by
  unfold eventsOf
  rw [List.map_filterMap]
  refine congrArg (List.filterMap · wakes) (funext fun w => ?_)
  rw [Option.map_map]
  exact Option.map_id'

/-- The commits that the reader has come to, next to the transactions that have been published. -/
theorem feed_of_run (h : Run sqlClient metrics as r) (hfeed : layout.Feeds (received as) feed) :
    ∃ cs parts stop committed, trace (init sqlClient metrics) as <+: parts.flatten ++ stop ∧
      (stop = [] ∨ stop = [.stopReplication]) ∧ List.Forall₂ CommitPart cs parts ∧
      List.Forall₂ (fun c transaction => Opened c.1 transaction.1 ∧ c.2 = transaction.2) cs committed ∧
      committed <+: feed.committed := by
  obtain ⟨wakes, hwakes, hprefix, -⟩ := (refines_run h).reader
  obtain ⟨parts, stop, hreader, hstop, hparts⟩ := parts_run (WalReader.tracks_start sqlClient metrics) wakes
  have hevents : (eventsOf wakes).map Prod.snd = received as := by
    unfold received
    rw [map_eventsOf, hwakes, List.filterMap_map]
    rfl
  have hhandled : (eventsOf (handled ∅ wakes)).map Prod.snd <+: received as := by
    obtain ⟨later, hlater⟩ := handled_prefix ∅ wakes
    rw [← hevents, ← congrArg eventsOf hlater, eventsOf_append, List.map_append]
    exact List.prefix_append _ _
  obtain ⟨feed', hfeed', hcommitted⟩ := hfeed.exists_before hhandled
  have hpublished := Layout.published_of_feeds hfeed' rfl
  rw [hreader] at hprefix
  exact ⟨_, parts, stop, feed'.committed, hprefix, hstop, hparts, hpublished.commits, hcommitted⟩

theorem transaction_of_commit {cs : List (Stream × UInt64)} {committed : List (List Change × UInt64)}
    (h : List.Forall₂ (fun c transaction => Opened c.1 transaction.1 ∧ c.2 = transaction.2) cs committed)
    (hcommitted : committed <+: feed.committed) {k : Nat} {c : Stream × UInt64} (hc : cs[k]? = some c) :
    ∃ transaction, feed.committed[k]? = some transaction ∧ Opened c.1 transaction.1 := by
  obtain ⟨transaction, htransaction, hopened, -⟩ := forall₂_getElem? h hc
  obtain ⟨hk, rfl⟩ := List.getElem?_eq_some_iff.1 htransaction
  exact ⟨_, List.prefix_iff_getElem?.1 hcommitted k hk, hopened⟩

/-! ### Nothing goes stale unannounced -/

/-- When `n` commits had been acknowledged, the hint was handed over, with what became of it. -/
def Called (sqlClient : Bool) (metrics : Metrics) (as : List ServerAction) (r : Runtime) (n : Nat)
    (documentId : DocumentId) (hint : QueryHint) : Prop :=
  ∃ pre hints timestamp answer post, trace (init sqlClient metrics) as =
      pre ++ .sendInvalidation documentId hints timestamp answer :: post ∧ acks pre = n ∧ hint ∈ hints ∧
    Fate sqlClient metrics as r pre documentId (RoomsInvalidationSink.invalidation hints timestamp) answer

/-- The `k`-th of the published transactions has a change of this kind, of which nothing is said. -/
def Unannounced (feed : Feed) (k : Nat) (kind : Change → Prop) : Prop :=
  ∃ transaction change, feed.committed[k]? = some transaction ∧ change ∈ transaction.1 ∧ kind change

/-- What clients know of the tables is announced when it is no longer so. -/
structure Fresh (sqlClient : Bool) (metrics : Metrics) (as : List ServerAction) (r : Runtime) (feed : Feed)
    (start : Tables) : Prop where
  acked : (trace (init sqlClient metrics) as).filterMap Action.acked <+: feed.committed.map Prod.snd
  /-- the comments of a document, between two acknowledged commits: nothing is said when all are deleted by a
  TRUNCATE -/
  comments : ∀ documentId i j, i ≤ j → j ≤ acks (trace (init sqlClient metrics) as) →
    (feed.tables start i).commentsOf documentId ≠ (feed.tables start j).commentsOf documentId →
      ∃ k, i ≤ k ∧ k < j ∧ (Called sqlClient metrics as r k documentId (commentHint documentId) ∨
        Unannounced feed k (Change.Truncates · .comments))
  /-- a document that is gone: nothing is said of one that has only got another id, either -/
  documents : ∀ documentId i j, i ≤ j → j ≤ acks (trace (init sqlClient metrics) as) →
    documentId ∈ (feed.tables start i).documents → documentId ∉ (feed.tables start j).documents →
      ∃ k, i ≤ k ∧ k < j ∧ (Called sqlClient metrics as r k documentId (documentHint documentId) ∨
        Unannounced feed k (Change.Renames · documentId) ∨ Unannounced feed k (Change.Truncates · .documents))
  /-- each invalidation is due to one transaction, and has all of its hints for the document -/
  exact : ∀ pre documentId hints timestamp answer post, trace (init sqlClient metrics) as =
      pre ++ .sendInvalidation documentId hints timestamp answer :: post →
    ∃ transaction, feed.committed[acks pre]? = some transaction ∧ hints ≠ [] ∧ hints.Nodup ∧
      ∀ hint, hint ∈ hints ↔ Hinted transaction.1 hint ∧ HintRouter.routeKey hint = some documentId

theorem acked_prefix (h : Run sqlClient metrics as r) (hfeed : layout.Feeds (received as) feed) :
    (trace (init sqlClient metrics) as).filterMap Action.acked <+: feed.committed.map Prod.snd := by
  obtain ⟨cs, parts, stop, committed, htrace, hstop, hparts, hcommits, hcommitted⟩ := feed_of_run h hfeed
  have hnone : stop.filterMap Action.acked = [] := by
    rcases hstop with rfl | rfl <;> rfl
  have hlsns : cs.map Prod.snd = committed.map Prod.snd := by
    rw [← List.forall₂_eq_eq_eq, List.forall₂_map_left_iff, List.forall₂_map_right_iff]
    exact hcommits.imp fun _ _ hc => hc.2
  have hacked := htrace.filterMap Action.acked
  rw [List.filterMap_append, hnone, List.append_nil, parts_acked hparts, hlsns] at hacked
  exact hacked.trans (hcommitted.map _)

/-- A hint of a transaction that has been acknowledged was handed over. -/
theorem called_of_hinted (h : Run sqlClient metrics as r) (hfeed : layout.Feeds (received as) feed) {k : Nat}
    (hk : k < acks (trace (init sqlClient metrics) as)) {transaction : List Change × UInt64}
    (htransaction : feed.committed[k]? = some transaction) (hhinted : Hinted transaction.1 hint)
    (hroute : HintRouter.routeKey hint = some documentId) :
    Called sqlClient metrics as r k documentId hint := by
  obtain ⟨cs, parts, stop, committed, htrace, hstop, hparts, hcommits, hcommitted⟩ := feed_of_run h hfeed
  have hacks : acks (trace (init sqlClient metrics) as) ≤ cs.length := by
    obtain ⟨later, hlater⟩ := htrace
    have hnone : acks stop = 0 := by
      rcases hstop with rfl | rfl <;> rfl
    have hall := congrArg acks hlater
    rw [acks_append, acks_append, acks_parts hparts, hnone] at hall
    omega
  obtain ⟨c, hc⟩ : ∃ c, cs[k]? = some c :=
    ⟨_, List.getElem?_eq_getElem (hk.trans_le hacks)⟩
  obtain ⟨transaction', htransaction', hopened⟩ := transaction_of_commit hcommits hcommitted hc
  obtain rfl := Option.some.inj (htransaction'.symm.trans htransaction)
  obtain ⟨pre, hints, timestamp, answer, post, htrace', hpre, hhint⟩ :=
    exists_call hparts htrace hk hc ((committed_iff hopened).2 ⟨hhinted, hroute⟩)
  exact ⟨pre, hints, timestamp, answer, post, htrace', hpre, hhint, fate_of_call h htrace'⟩

theorem exact_of_run (h : Run sqlClient metrics as r) (hfeed : layout.Feeds (received as) feed)
    {pre post : List Action} {hints : List QueryHint} {timestamp : UInt64}
    {answer : Except RoomCommandError Unit} (htrace : trace (init sqlClient metrics) as =
      pre ++ .sendInvalidation documentId hints timestamp answer :: post) :
    ∃ transaction, feed.committed[acks pre]? = some transaction ∧ hints ≠ [] ∧ hints.Nodup ∧
      ∀ hint, hint ∈ hints ↔ Hinted transaction.1 hint ∧ HintRouter.routeKey hint = some documentId := by
  obtain ⟨cs, parts, stop, committed, ⟨later, hlater⟩, hstop, hparts, hcommits, hcommitted⟩ :=
    feed_of_run h hfeed
  rw [htrace, List.append_assoc, List.cons_append] at hlater
  obtain ⟨c, hc, hne, hnodup, hhints⟩ := commit_of_position hparts hstop hlater.symm
  obtain ⟨transaction, htransaction, hopened⟩ := transaction_of_commit hcommits hcommitted hc
  exact ⟨transaction, htransaction, hne, hnodup, fun hint => (hhints hint).trans (committed_iff hopened)⟩

/-- **Nothing that a client knows goes stale unannounced**, in every run, but by a TRUNCATE: if the comments of a
document, or whether it is there, have changed between two acknowledged commits, then it has been announced in
between, and was accepted for all that had joined or counted as dropped. -/
theorem tables_fresh (layout : Layout) (feed : Feed) (start : Tables) (sqlClient : Bool) (metrics : Metrics)
    (as : List ServerAction) (r : Runtime) (h : Run sqlClient metrics as r)
    (hfeed : layout.Feeds (received as) feed) : Fresh sqlClient metrics as r feed start := by
  have hacked := acked_prefix h hfeed
  refine ⟨hacked, ?_, ?_, fun pre documentId hints timestamp answer post htrace => exact_of_run h hfeed htrace⟩
  · intro documentId i j hij hj hne
    obtain ⟨k, changes, change, hik, hkj, hchanges, hmem, htouches⟩ :=
      Change.sound_commentsOf.exists_touching hij hne
    rw [List.getElem?_map] at hchanges
    obtain ⟨transaction, htransaction, rfl⟩ := Option.map_eq_some_iff.1 hchanges
    refine ⟨k, hik, hkj, ?_⟩
    rcases htouches with hhint | htruncates
    · exact .inl (called_of_hinted h hfeed (hkj.trans_le hj) htransaction ⟨change, hmem, hhint⟩ rfl)
    · exact .inr ⟨transaction, change, htransaction, hmem, htruncates⟩
  · intro documentId i j hij hj hin hout
    obtain ⟨k, changes, change, hik, hkj, hchanges, hmem, htouches⟩ :=
      Change.sound_documents.exists_touching hij fun hkept => hout (hkept hin)
    rw [List.getElem?_map] at hchanges
    obtain ⟨transaction, htransaction, rfl⟩ := Option.map_eq_some_iff.1 hchanges
    refine ⟨k, hik, hkj, ?_⟩
    rcases htouches with hhint | hrenames | htruncates
    · exact .inl (called_of_hinted h hfeed (hkj.trans_le hj) htransaction ⟨change, hmem, hhint⟩ rfl)
    · exact .inr (.inl ⟨transaction, change, htransaction, hmem, hrenames⟩)
    · exact .inr (.inr ⟨transaction, change, htransaction, hmem, htruncates⟩)

/-- The tables as the setup makes them. -/
def commentLayout : Layout where
  relation
    | .comments => ⟨7, "public", "comments", ["id", "document_id", "text"]⟩
    | .documents => ⟨8, "public", "documents", ["id"]⟩
  position
    | .comments => 1
    | .documents => 0
  name table := by cases table <;> rfl
  distinct table table' h := by cases table <;> cases table' <;> first | rfl | exact absurd h (by decide)
  nodup table := by cases table <;> decide
  column table := by cases table <;> rfl

/-- A comment on `doc1`, and its messages. -/
def commentChange : Change := .comments (.insert ⟨"1", "doc1", some "hi"⟩)

def commentMessages : List WireMessage :=
  [.relation 7 "public" "comments" (ByteReader.tag 'f')
      [⟨0, "id", 2950, -1⟩, ⟨0, "document_id", 25, -1⟩, ⟨0, "text", 25, -1⟩],
    .insert 7 [.text .t "1", .text .t "doc1", .text .t "hi"]]

def wakeUp (event : ReplicationEvent) : ServerAction :=
  .wake Outside.sorted.surroundings (.received (.ok (some event)))

/-- A client joins the room of the document, and the comment is committed; then the table is truncated. -/
def commentRun : List ServerAction :=
  [.world (.connect "a"), .world (.receive "a" (.text (.ok (.join "doc1")))), .world (.handle "a" 0)] ++
    [ReplicationEvent.begin, .xLogData (encodeMessages commentMessages), .keepAlive 4 true,
      .commit 5].map wakeUp ++
    [.deliver, .deliver] ++
    [ReplicationEvent.begin, .xLogData (commentLayout.truncateMessage 0 [.comments]), .commit 9].map wakeUp ++
    [.deliver]

def commentFeed : Feed := ⟨[([commentChange], 5), ([.truncate [.comments]], 9)], none, {.comments}⟩

theorem feeds_commentRun : commentLayout.Feeds (received commentRun) commentFeed := by
  have hwrites : commentLayout.Writes ∅ commentMessages [commentChange] (∅ ∪ {.comments}) := by
    refine .relation ∅ _ .comments _ _ _ rfl (by decide +kernel) ?_
    refine .row _ _ .comments commentChange (.insert [.text .t "1", .text .t "doc1", .text .t "hi"]) _ _
      (.inr rfl) ?_ (by decide +kernel) (.nil _)
    exact .comments _ _ (.insert ⟨.t, rfl⟩)
  have hopen := (Layout.Feeds.start.begin _ _ rfl).payload _ _ [] _ _ _ rfl hwrites
  have hfirst := (hopen.keepAlive _ _ 4 true).commit _ _ _ 5 rfl
  have hfeeds := ((hfirst.begin _ _ rfl).truncate _ _ [] 0 [.comments] rfl).commit _ _ _ 9 rfl
  rw [Set.empty_union] at hfeeds
  exact hfeeds

theorem tables_fresh_commentRun : ∃ r, Run true {} commentRun r ∧
    Called true {} commentRun r 0 "doc1" (commentHint "doc1") := by
  obtain ⟨r, hr⟩ : ∃ r, Run true {} commentRun r := Option.isSome_iff_exists.1 (by decide +kernel)
  have hfresh := tables_fresh commentLayout commentFeed ⟨∅, ∅⟩ true {} commentRun r hr feeds_commentRun
  have hacks : 1 ≤ acks (trace (init true {}) commentRun) := by decide +kernel
  have hnew : (⟨"1", "doc1", some "hi"⟩ : Comment) ∈ (commentFeed.tables ⟨∅, ∅⟩ 1).commentsOf "doc1" :=
    ⟨.inl rfl, rfl⟩
  have hne : (commentFeed.tables ⟨∅, ∅⟩ 0).commentsOf "doc1" ≠
      (commentFeed.tables ⟨∅, ∅⟩ 1).commentsOf "doc1" := by
    intro heq
    rw [← heq] at hnew
    exact hnew.1
  obtain ⟨k, -, hk, hcalled⟩ := hfresh.comments "doc1" 0 1 (Nat.zero_le 1) hacks hne
  obtain rfl : k = 0 := by omega
  refine ⟨r, hr, hcalled.resolve_right ?_⟩
  rintro ⟨transaction, change, htransaction, hmem, tables, rfl, -⟩
  obtain rfl := Option.some.inj htransaction
  cases List.mem_singleton.1 hmem

end Runtime
end MiniGraph
