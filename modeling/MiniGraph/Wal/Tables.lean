import MiniGraph.Lib.Invalidation
import MiniGraph.Types
import MiniGraph.Wal.RowHints

/-!
# The tables (`src/postgres/setup.rs`)

What the hints are for: the two tables of the setup, and what a client knows of them. The comments of a
document are as before unless a change has the document's hint (`sound_commentsOf`). A document is still there
unless it has been deleted, which has its hint, too, or renamed, which has none (`sound_documents`). There is no
hint for a table that is truncated, either.
-/

namespace MiniGraph
open Lib

/-- A row of `comments`. -/
structure Comment where
  id : String
  documentId : DocumentId
  text : Option String
deriving DecidableEq, Repr

/-- The rows of `comments`, and the ids in `documents`. -/
structure Tables where
  comments : Set Comment
  documents : Set DocumentId

inductive Table where
  | comments
  | documents
deriving DecidableEq, Repr

/-- A change of a row of one of the tables, or a TRUNCATE of some of them. -/
inductive Change where
  | comments (change : TableChange Comment)
  | documents (change : TableChange DocumentId)
  | truncate (tables : List Table)
deriving DecidableEq, Repr

namespace Tables

def commentsOf (tables : Tables) (documentId : DocumentId) : Set Comment :=
  {row ∈ tables.comments | row.documentId = documentId}

def truncate (tables : Tables) (truncated : List Table) : Tables where
  comments := {row ∈ tables.comments | .comments ∉ truncated}
  documents := {row ∈ tables.documents | .documents ∉ truncated}

end Tables

namespace Change

def apply : Change → Tables → Tables
  | .comments change, tables => { tables with comments := change.apply tables.comments }
  | .documents change, tables => { tables with documents := change.apply tables.documents }
  | .truncate truncated, tables => tables.truncate truncated

/-- What a change says about the documents of comments. -/
def ofComment : TableChange Comment → DocumentChange
  | .insert new => .insert new.documentId
  | .update old new => .update (some old.documentId) new.documentId
  | .delete old => .delete old.documentId

/-- The hints that the reader makes of a change. -/
def hints : Change → List QueryHint
  | .comments change => (ofComment change).hints
  | .documents (.insert _) => []
  | .documents (.update _ _) => []
  | .documents (.delete old) => [documentHint old]
  | .truncate _ => []

/-- The change gives a document another id. -/
def Renames (change : Change) (documentId : DocumentId) : Prop :=
  ∃ new, change = .documents (.update documentId new)

def Truncates (change : Change) (table : Table) : Prop := ∃ tables, change = .truncate tables ∧ table ∈ tables

theorem mem_hints_ofComment {change : TableChange Comment} {row : Comment} (h : row ∈ change.rows) :
    commentHint row.documentId ∈ (ofComment change).hints := by
  cases change with
  | insert new =>
    rw [List.mem_singleton.1 h]
    exact List.mem_singleton_self _
  | update old new =>
    have hrow : row = old ∨ row = new := by simpa [TableChange.rows] using h
    by_cases hsame : old.documentId = new.documentId
    · simp only [ofComment, DocumentChange.hints, if_pos hsame, List.mem_singleton]
      rcases hrow with rfl | rfl
      · rw [hsame]
      · rfl
    · simp only [ofComment, DocumentChange.hints, if_neg hsame]
      rcases hrow with rfl | rfl
      · exact List.mem_cons_self
      · exact List.mem_cons_of_mem _ List.mem_cons_self
  | delete old =>
    rw [List.mem_singleton.1 h]
    exact List.mem_singleton_self _

/-- **The comments of a document**: nothing changes there without its hint, unless the table is truncated. -/
theorem sound_commentsOf : SoundInvalidation apply
    (fun documentId tables tables' => tables.commentsOf documentId = tables'.commentsOf documentId)
    fun change documentId => commentHint documentId ∈ change.hints ∨ change.Truncates .comments := by
  refine soundInvalidation_of_answer fun change tables documentId hhint => ?_
  cases change with
  | comments change =>
    refine change.select_apply (fun row hrow hdocument => hhint (.inl ?_)) tables.comments
    rw [← hdocument]
    exact mem_hints_ofComment hrow
  | documents change => rfl
  | truncate truncated =>
    have hkept : .comments ∉ truncated := fun hmem => hhint (.inr ⟨truncated, rfl, hmem⟩)
    simp [apply, Tables.truncate, Tables.commentsOf, hkept]

/-- **The documents**: none is gone without its hint, unless it has been renamed or the table truncated. -/
theorem sound_documents : SoundInvalidation apply
    (fun documentId tables tables' => documentId ∈ tables.documents → documentId ∈ tables'.documents)
    fun change documentId => documentHint documentId ∈ change.hints ∨ change.Renames documentId ∨
      change.Truncates .documents where
  refl _ _ := id
  trans _ _ _ _ h h' := h' ∘ h
  kept change tables documentId h hmem := by
    cases change with
    | comments change => exact hmem
    | truncate truncated => exact ⟨hmem, fun htruncated => h (.inr (.inr ⟨truncated, rfl, htruncated⟩))⟩
    | documents change =>
      refine change.mem_apply_of_mem (fun hremoved => h ?_) hmem
      cases change with
      | insert new => cases hremoved
      | update old new =>
        obtain rfl := Option.some.inj hremoved
        exact .inr (.inl ⟨new, rfl⟩)
      | delete old =>
        obtain rfl := Option.some.inj hremoved
        exact .inl (List.mem_singleton_self _)

end Change
end MiniGraph
