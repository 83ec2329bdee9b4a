import MiniGraph.Lib.Lists
import MiniGraph.Wal.Routing
import MiniGraph.WebSocket

/-!
# The invalidation sink (`src/wal/sink.rs`)

The sink turns a routed bucket into a message with the keys of its hints. Values are arbitrary text, so
a key is read from its front: the first two separators are those after the table and the column, which
are free of separators in every hint of the generator. So the keys of a message are distinct, and say
which hints it was made from (`toKey_unambiguous`).
-/

namespace MiniGraph
open Lib

namespace RoomsInvalidationSink

def invalidation (hints : List QueryHint) (timestamp : UInt64) : ServerMessage :=
  .invalidation (hints.map QueryHint.toKey) timestamp

/-- `rooms` is the command channel that the sink's handle sends to. -/
def sendInvalidation (rooms : CommandChannel) (documentId : DocumentId) (hints : List QueryHint)
    (timestamp : UInt64) : Except RoomCommandError CommandChannel :=
  RoomsHandle.broadcastToRoom rooms documentId (invalidation hints timestamp)

/-- In the world of the rooms a call of the sink is the step of a broadcast. -/
theorem step_sendInvalidation {w : World} {documentId : DocumentId} {hints : List QueryHint}
    {timestamp : UInt64} {commands : CommandChannel}
    (h : sendInvalidation w.commands documentId hints timestamp = .ok commands) :
    w.step (.sinkBroadcast documentId (invalidation hints timestamp)) = some { w with commands } := by
  unfold sendInvalidation at h
  simp only [World.step, h]

end RoomsInvalidationSink

/-! ### Separators -/

namespace QueryHint

/-- Neither the table nor the column has a separator in it; the value may. -/
structure SeparatorFree (hint : QueryHint) : Prop where
  table : ':' ∉ hint.table.toList
  column : ':' ∉ hint.column.toList

theorem toList_toKey (hint : QueryHint) : hint.toKey.toList =
    hint.table.toList ++ ':' :: (hint.column.toList ++ ':' :: hint.value.toList) := by
  simp [toKey]

theorem injOn_toKey : Set.InjOn toKey {hint | hint.SeparatorFree} := by
  intro h₁ hfree₁ h₂ hfree₂ hkey
  have hlist := congrArg String.toList hkey
  rw [toList_toKey, toList_toKey] at hlist
  obtain ⟨htable, hrest⟩ := cut_inj hfree₁.table hfree₂.table hlist
  obtain ⟨hcolumn, hvalue⟩ := cut_inj hfree₁.column hfree₂.column hrest
  cases h₁
  cases h₂
  rw [String.toList_inj] at htable hcolumn hvalue
  simp only at htable hcolumn hvalue
  rw [htable, hcolumn, hvalue]

end QueryHint

theorem separatorFree_of_generate {event : WalEvent} {hints : List QueryHint} {hint : QueryHint}
    (h : generateInvalidationHints event = .ok hints) (hmem : hint ∈ hints) : hint.SeparatorFree := by
  have hcomments : ':' ∉ "comments".toList ∧ ':' ∉ "document_id".toList := by decide
  have hdocuments : ':' ∉ "documents".toList ∧ ':' ∉ "id".toList := by decide
  rcases eq_of_mem_generate h hmem with ⟨documentId, rfl⟩ | ⟨documentId, rfl⟩
  · exact ⟨hcomments.1, hcomments.2⟩
  · exact ⟨hdocuments.1, hdocuments.2⟩

namespace WalReader.Routes
variable {call : DocumentId × List QueryHint}

theorem nodup (h : Routes call) : call.2.Nodup := by
  obtain ⟨order, events, hbucket⟩ := h
  exact (HintRouter.lookup_route hbucket).2.1

theorem separatorFree (h : Routes call) : ∀ hint ∈ call.2, hint.SeparatorFree := by
  intro hint hmem
  obtain ⟨order, events, hbucket⟩ := h
  have hbuffered := (((HintRouter.lookup_route hbucket).2.2 hint).1 hmem).1
  obtain ⟨event, -, hints, hgen, hhint⟩ := mem_ofEvents.1 hbuffered
  exact separatorFree_of_generate hgen hhint

end WalReader.Routes

/-- **Keys are unambiguous.** The keys of hints without a separator in their table and column tell the
hints apart; the generator makes no others; so the keys in the message for a bucket that is routed from
a transaction are distinct, and the bucket is known from them up to the order. -/
theorem toKey_unambiguous :
    (∀ h₁ h₂ : QueryHint, h₁.SeparatorFree → h₂.SeparatorFree → h₁.toKey = h₂.toKey → h₁ = h₂) ∧
    (∀ event hints, generateInvalidationHints event = .ok hints → ∀ hint ∈ hints, hint.SeparatorFree) ∧
    ∀ call, WalReader.Routes call → ∀ timestamp keys,
      RoomsInvalidationSink.invalidation call.2 timestamp = .invalidation keys timestamp → keys.Nodup ∧
        ∀ call', WalReader.Routes call' → ∀ timestamp' keys',
          RoomsInvalidationSink.invalidation call'.2 timestamp' = .invalidation keys' timestamp' →
            keys.Perm keys' → call.2.Perm call'.2 := by
  refine ⟨?_, ?_, ?_⟩
  · exact fun h₁ h₂ hfree₁ hfree₂ hkey => QueryHint.injOn_toKey hfree₁ hfree₂ hkey
  · exact fun event hints h hint hmem => separatorFree_of_generate h hmem
  · intro call hcall timestamp keys hmessage
    obtain ⟨rfl, -⟩ := ServerMessage.invalidation.inj hmessage
    refine ⟨?_, fun call' hcall' timestamp' keys' hmessage' hperm => ?_⟩
    · refine List.Nodup.map_on ?_ hcall.nodup
      intro h₁ hmem₁ h₂ hmem₂ hkey
      exact QueryHint.injOn_toKey (hcall.separatorFree h₁ hmem₁) (hcall.separatorFree h₂ hmem₂) hkey
    · obtain ⟨rfl, -⟩ := ServerMessage.invalidation.inj hmessage'
      exact perm_of_map_perm QueryHint.injOn_toKey hcall.separatorFree hcall'.separatorFree hperm

/-- Two ids that look like keys, on one column: their keys differ. -/
example : (commentHint "a:b").toKey ≠ (commentHint "a").toKey := by decide

end MiniGraph
