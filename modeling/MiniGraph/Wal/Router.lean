import MiniGraph.Lib.HashTable
import MiniGraph.Types
import MiniGraph.Wal.Types

/-!
# Routing hints to documents (`src/wal/router.rs`, `src/wal/transaction.rs`)
-/

namespace MiniGraph
open Lib

/-! ### The hints of the open transaction -/

structure TransactionBuffer where
  hints : Finset QueryHint

namespace TransactionBuffer

/-- `TransactionBuffer::default()`. -/
def empty : TransactionBuffer := ⟨∅⟩

def addAll (hints : List QueryHint) (tx : TransactionBuffer) : TransactionBuffer :=
  ⟨tx.hints ∪ hints.toFinset⟩

/-- Returns the hints and leaves the buffer empty. -/
def take (tx : TransactionBuffer) : Finset QueryHint × TransactionBuffer := (tx.hints, empty)

@[simp] theorem mem_addAll {hints : List QueryHint} {tx : TransactionBuffer} {hint : QueryHint} :
    hint ∈ (tx.addAll hints).hints ↔ hint ∈ tx.hints ∨ hint ∈ hints := by
  unfold addAll
  rw [Finset.mem_union, List.mem_toFinset]

end TransactionBuffer

/-! ### The router -/

namespace HintRouter

def routeKey (hint : QueryHint) : Option DocumentId :=
  match hint.table, hint.column with
  | "comments", "document_id" => some hint.value
  | "documents", "id" => some hint.value
  | _, _ => none

/-- `order` is the order in which the loop visits the hash set. -/
def route (order : Iteration QueryHint) (hints : Finset QueryHint) : Groups DocumentId QueryHint :=
  (order hints).toList.foldl (Groups.push routeKey) ∅

/-- What is routed to a document: exactly its hints, each once. -/
theorem lookup_route {order : Iteration QueryHint} {hints : Finset QueryHint} {documentId : DocumentId}
    {bucket : List QueryHint} (h : (route order hints).lookup documentId = some bucket) :
    bucket ≠ [] ∧ bucket.Nodup ∧
      ∀ hint, hint ∈ bucket ↔ hint ∈ hints ∧ routeKey hint = some documentId := by
  obtain ⟨hne, hbucket⟩ := (Groups.lookup_group _ _ _ _).1 h
  refine ⟨hne, ?_, fun hint => ?_⟩
  · rw [hbucket]
    exact (order hints).nodup.filter _
  · rw [hbucket, List.mem_filter, Enumeration.mem_iff, decide_eq_true_iff]

theorem exists_lookup_route (order : Iteration QueryHint) (hints : Finset QueryHint)
    (documentId : DocumentId) : (∃ bucket, (route order hints).lookup documentId = some bucket) ↔
      ∃ hint ∈ hints, routeKey hint = some documentId := by
  constructor
  · rintro ⟨bucket, h⟩
    obtain ⟨hne, -, hmem⟩ := lookup_route h
    obtain ⟨hint, hhint⟩ := List.exists_mem_of_ne_nil _ hne
    exact ⟨hint, (hmem hint).1 hhint⟩
  · rintro ⟨hint, hmem, hkey⟩
    refine ⟨_, (Groups.lookup_group _ _ _ _).2 ⟨?_, rfl⟩⟩
    refine List.ne_nil_of_mem (a := hint) (List.mem_filter.2 ⟨?_, by simpa using hkey⟩)
    exact ((order hints).mem_iff hint).2 hmem

end HintRouter

/-- `order` is the order in which the loop visits the buckets. -/
def dedupeRoutedHints (order : Iteration DocumentId) (map : Groups DocumentId QueryHint) :
    Groups DocumentId QueryHint :=
  updateAll order (retainUnseen ∅) map

theorem lookup_dedupeRoutedHints (order : Iteration DocumentId) (map : Groups DocumentId QueryHint)
    (documentId : DocumentId) : (dedupeRoutedHints order map).lookup documentId =
      (map.lookup documentId).map (retainUnseen ∅) :=
  lookup_updateAll order _ map documentId

end MiniGraph
