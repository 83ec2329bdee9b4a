import MiniGraph.Wal.CommentUpdates

/-!
# The hints of a row

Which hints a change of a row gives is a matter of one column: from the bytes of its message, through
the positions of the values and the names of the columns, to the hints (`hints_exact`). Nothing else in
the row, and nothing of the layout of its relation, has any part in it.
-/

namespace MiniGraph
open Lib

/-- What a change of a comment says about the documents it belongs to. -/
inductive DocumentChange where
  | insert (documentId : String)
  | update (oldDocumentId : Option String) (newDocumentId : String)
  | delete (documentId : String)
deriving DecidableEq, Repr

def DocumentChange.hints : DocumentChange → List QueryHint
  | .insert documentId => [commentHint documentId]
  | .update none newDocumentId => [commentHint newDocumentId]
  | .update (some oldDocumentId) newDocumentId =>
    if oldDocumentId = newDocumentId then [commentHint newDocumentId]
    else [commentHint oldDocumentId, commentHint newDocumentId]
  | .delete documentId => [commentHint documentId]

/-- Column `i` of the tuple is sent, as the text `s`. -/
def TextAt (i : Nat) (tuple : List WireValue) (s : String) : Prop :=
  ∃ kind, tuple[i]? = some (.text kind s)

/-- Column `i` is text in every tuple that the change comes with, and there it has the values of the
document change. -/
inductive Documents (i : Nat) : RowChange → DocumentChange → Prop
  | insert {newTuple : List WireValue} {documentId : String} (new : TextAt i newTuple documentId) :
    Documents i (.insert newTuple) (.insert documentId)
  | update {newTuple : List WireValue} {newDocumentId : String} (new : TextAt i newTuple newDocumentId) :
    Documents i (.update none newTuple) (.update none newDocumentId)
  | updateOld {oldTuple : OldTuple} {newTuple : List WireValue} {oldDocumentId newDocumentId : String}
    (old : TextAt i oldTuple.values oldDocumentId) (new : TextAt i newTuple newDocumentId) :
    Documents i (.update (some oldTuple) newTuple) (.update (some oldDocumentId) newDocumentId)
  | delete {oldTuple : OldTuple} {documentId : String} (old : TextAt i oldTuple.values documentId) :
    Documents i (.delete oldTuple) (.delete documentId)

/-- A change of a row of a relation in the cache, within the bounds of the format. -/
structure CachedChange where
  rel : Relation
  relations : Relations
  change : RowChange
  cached : relations.lookup rel.id = some rel
  valid : (change.wire rel.id).Valid

namespace CachedChange
variable {c c' : CachedChange} {i i' : Nat} {documents : DocumentChange} {column documentId : String}

/-- From the bytes of the change to its hints. -/
def hints (c : CachedChange) : Option (List QueryHint) :=
  hintsOfPayload c.relations (c.change.wire c.rel.id).encode

/-- Column `i` of the relation, and no other one, is called `column`. -/
structure ColumnAt (c : CachedChange) (i : Nat) (column : String) : Prop where
  nodup : c.rel.columns.Nodup
  column_eq : c.rel.columns[i]? = some column

theorem hints_eq (c : CachedChange) :
    c.hints = (generateInvalidationHints (c.change.event c.rel)).toOption :=
  RowChange.hintsOfPayload_wire c.cached c.change c.valid

theorem ColumnAt.getTextColumn (h : c.ColumnAt i column) {tuple : List WireValue}
    (htext : TextAt i tuple documentId) :
    getTextColumn (RowChange.row c.rel tuple) column = some documentId := by
  obtain ⟨kind, hvalue⟩ := htext
  rw [RowChange.getTextColumn_row h.nodup h.column_eq hvalue]
  rfl

/-! ### Comments -/

theorem generate_comment (hname : c.rel.name = "comments") (hcolumn : c.ColumnAt i "document_id")
    {change : RowChange} (h : Documents i change documents) :
    generateInvalidationHints (change.event c.rel) = .ok documents.hints := by
  cases h with
  | insert hnew =>
    have htext := hcolumn.getTextColumn hnew
    rw [RowChange.event, generate_insert, if_pos hname, requireTextColumn_map_eq_ok]
    exact ⟨_, htext, rfl⟩
  | update hnew =>
    have htext := hcolumn.getTextColumn hnew
    rw [RowChange.event, generate_update, if_pos hname, requireTextColumn_map_eq_ok]
    exact ⟨_, htext, rfl⟩
  | @updateOld _ _ oldDocumentId newDocumentId hold hnew =>
    have hold' := hcolumn.getTextColumn hold
    have hnew' := hcolumn.getTextColumn hnew
    rw [RowChange.event, generate_update, if_pos hname, requireTextColumn_map_eq_ok]
    refine ⟨_, hnew', ?_⟩
    simp only [Option.map_some, Option.bind_some, hold', DocumentChange.hints]
    by_cases hsame : oldDocumentId = newDocumentId
    · rw [if_neg (not_not.2 hsame), if_pos hsame, List.nil_append]
    · rw [if_pos hsame, if_neg hsame, List.singleton_append]
  | delete hold =>
    have htext := hcolumn.getTextColumn hold
    rw [RowChange.event, generate_delete, if_pos hname, requireTextColumn_map_eq_ok]
    exact ⟨_, htext, rfl⟩

theorem hints_comment (hname : c.rel.name = "comments") (hcolumn : c.ColumnAt i "document_id")
    (h : Documents i c.change documents) : c.hints = some documents.hints := by
  rw [hints_eq, generate_comment hname hcolumn h]
  rfl

/-! ### Documents, and other relations -/

theorem hints_delete_document (hname : c.rel.name = "documents") (hcolumn : c.ColumnAt i "id")
    {oldTuple : OldTuple} (hchange : c.change = .delete oldTuple)
    (htext : TextAt i oldTuple.values documentId) : c.hints = some [documentHint documentId] := by
  have hne : c.rel.name ≠ "comments" := by
    rw [hname]
    decide
  have hgen : generateInvalidationHints (c.change.event c.rel) = .ok [documentHint documentId] := by
    rw [hchange, RowChange.event, generate_delete, if_neg hne, if_pos hname, requireTextColumn_map_eq_ok]
    exact ⟨documentId, hcolumn.getTextColumn htext, rfl⟩
  rw [hints_eq, hgen]
  rfl

/-- No hint comes of a change of another relation, nor of a document that stays. -/
theorem hints_other (hcomments : c.rel.name ≠ "comments")
    (hdelete : c.rel.name = "documents" → ∀ oldTuple, c.change ≠ .delete oldTuple) : c.hints = some [] := by
  have hgen : generateInvalidationHints (c.change.event c.rel) = .ok [] := by
    cases hchange : c.change with
    | insert newTuple => rw [RowChange.event, generate_insert, if_neg hcomments]
    | update oldTuple newTuple => rw [RowChange.event, generate_update, if_neg hcomments]
    | delete oldTuple =>
      have hdocuments : c.rel.name ≠ "documents" := fun hname => hdelete hname oldTuple hchange
      rw [RowChange.event, generate_delete, if_neg hcomments, if_neg hdocuments]
  rw [hints_eq, hgen]
  rfl

/-- **The hints of a row** depend on one column. A change of a comment gives exactly the hints of its
`document_id`, and so do two changes that agree on it, whatever else is in their rows and wherever it
stands; the deletion of a document gives exactly its `id`; and every other change gives none. -/
theorem hints_exact :
    (∀ (c : CachedChange) (i : Nat) (documents : DocumentChange), c.rel.name = "comments" →
      c.ColumnAt i "document_id" → Documents i c.change documents → c.hints = some documents.hints) ∧
    (∀ (c c' : CachedChange) (i i' : Nat) (documents : DocumentChange), c.rel.name = "comments" →
      c'.rel.name = "comments" → c.ColumnAt i "document_id" → c'.ColumnAt i' "document_id" →
        Documents i c.change documents → Documents i' c'.change documents → c.hints = c'.hints) ∧
    (∀ (c : CachedChange) (i : Nat) (oldTuple : OldTuple) (documentId : String),
      c.rel.name = "documents" → c.ColumnAt i "id" → c.change = .delete oldTuple →
        TextAt i oldTuple.values documentId → c.hints = some [documentHint documentId]) ∧
    (∀ c : CachedChange, c.rel.name = "documents" → (∀ oldTuple, c.change ≠ .delete oldTuple) →
      c.hints = some []) ∧
    ∀ c : CachedChange, c.rel.name ≠ "comments" → c.rel.name ≠ "documents" → c.hints = some [] := by
  refine ⟨?_, ?_, ?_, ?_, ?_⟩
  · exact fun c i documents hname hcolumn h => hints_comment hname hcolumn h
  · intro c c' i i' documents hname hname' hcolumn hcolumn' h h'
    rw [hints_comment hname hcolumn h, hints_comment hname' hcolumn' h']
  · exact fun c i oldTuple documentId hname hcolumn hchange htext =>
      hints_delete_document hname hcolumn hchange htext
  · intro c hname hdelete
    refine hints_other ?_ fun _ => hdelete
    rw [hname]
    decide
  · exact fun c hcomments hdocuments => hints_other hcomments fun hname => absurd hname hdocuments

/-- A comment that moves from `doc1` to `doc2`, its document in the second column. -/
def moved : CachedChange where
  rel := ⟨7, "public", "comments", ["id", "document_id", "body"]⟩
  relations := Finmap.singleton 7 ⟨7, "public", "comments", ["id", "document_id", "body"]⟩
  change := .update (some ⟨.O, [.null .n, .text .t "doc1", .null .u]⟩) [.text .t "1", .text .b "doc2", .null .n]
  cached := Finmap.lookup_singleton_eq
  valid := by decide +kernel

theorem hints_exact_moved : moved.hints = some [commentHint "doc1", commentHint "doc2"] := by
  have hcolumn : moved.ColumnAt 1 "document_id" := ⟨by decide, rfl⟩
  exact hints_exact.1 moved 1 (.update (some "doc1") "doc2") rfl hcolumn (.updateOld ⟨.t, rfl⟩ ⟨.b, rfl⟩)

end CachedChange
end MiniGraph
