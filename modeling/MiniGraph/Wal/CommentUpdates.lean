import MiniGraph.Wal.HintGenerator
import MiniGraph.Wal.WireLanguage

/-!
# Updates of comments

An update that moves a comment from one document to another must invalidate both. The whole path is
followed here, from the bytes of the `Update` message to the hints. The two kinds of a column without
a value, `n` (NULL) and `u` (unchanged), are both `Null` after `parse_tuple`, so an update whose
`document_id` is unchanged and not sent again looks like one without a `document_id`, and gives no
hint at all (`invalidates_iff`).
-/

namespace MiniGraph
open Lib

/-- From the bytes of one message to its hints: parsing, conversion and hint generation. -/
def hintsOfPayload (relations : Relations) (data : List UInt8) : Option (List QueryHint) :=
  match parsePgoutputMessages data with
  | .ok [msg] =>
    match (pgoutputToWalEvent relations msg).1 with
    | .ok (some event) => (generateInvalidationHints event).toOption
    | _ => none
  | _ => none

/-! ### A change of a row -/

/-- A message about a row of a relation, without the relation. -/
inductive RowChange where
  | insert (newTuple : List WireValue)
  | update (oldTuple : Option OldTuple) (newTuple : List WireValue)
  | delete (oldTuple : OldTuple)
deriving DecidableEq, Repr

namespace RowChange

def wire (relationId : UInt32) : RowChange → WireMessage
  | .insert newTuple => .insert relationId newTuple
  | .update oldTuple newTuple => .update relationId oldTuple newTuple
  | .delete oldTuple => .delete relationId oldTuple

/-- The columns of a tuple under the names of the relation. -/
def row (rel : Relation) (tuple : List WireValue) : TupleData :=
  .fromValues rel.columns (tuple.map WireValue.value)

/-- The row event, for a row of `rel`. -/
def event (rel : Relation) : RowChange → WalEvent
  | .insert newTuple => .insert rel.id rel.name (row rel newTuple)
  | .update oldTuple newTuple =>
    .update rel.id rel.name (oldTuple.map fun old => row rel old.values) (row rel newTuple)
  | .delete oldTuple => .delete rel.id rel.name (row rel oldTuple.values)

variable {relations : Relations} {rel : Relation}

theorem convert_wire (hcached : relations.lookup rel.id = some rel) (change : RowChange) :
    (pgoutputToWalEvent relations (change.wire rel.id).message).1 = .ok (some (change.event rel)) := by
  cases change with
  | insert newTuple =>
    rw [wire, WireMessage.message, pgoutputToWalEvent_insert, hcached]
    rfl
  | update oldTuple newTuple =>
    rw [wire, WireMessage.message, pgoutputToWalEvent_update, hcached]
    cases oldTuple <;> rfl
  | delete oldTuple =>
    rw [wire, WireMessage.message, pgoutputToWalEvent_delete, hcached]
    rfl

theorem hintsOfPayload_wire (hcached : relations.lookup rel.id = some rel) (change : RowChange)
    (hvalid : (change.wire rel.id).Valid) : hintsOfPayload relations (change.wire rel.id).encode =
      (generateInvalidationHints (change.event rel)).toOption := by
  simp only [hintsOfPayload, parse_encode hvalid, convert_wire hcached change]

/-- With distinct column names, the column named `column` is the value at its index. -/
theorem getTextColumn_row (hnodup : rel.columns.Nodup) {i : Nat} {column : String}
    (hcolumn : rel.columns[i]? = some column) {tuple : List WireValue} {v : WireValue}
    (h : tuple[i]? = some v) : getTextColumn (row rel tuple) column = v.value.asStr := by
  unfold getTextColumn row
  rw [TupleData.lookup_fromValues hnodup hcolumn, List.getElem?_map, h]
  cases v <;> rfl

end RowChange

/-! ### Updates of comments -/

/-- An update of a comment: its relation, whose column `i` is `document_id`, a cache with the
relation, and the two tuples. The old `document_id` is the text `oldDocumentId`; the new one is a
text or of kind `u`. -/
structure CommentUpdate where
  rel : Relation
  relations : Relations
  i : Nat
  oldTuple : OldTuple
  oldKind : TextKind
  oldDocumentId : String
  newTuple : List WireValue
  comments : rel.name = "comments"
  nodup : rel.columns.Nodup
  column : rel.columns[i]? = some "document_id"
  cached : relations.lookup rel.id = some rel
  valid : (WireMessage.update rel.id (some oldTuple) newTuple).Valid
  old_text : oldTuple.values[i]? = some (.text oldKind oldDocumentId)
  new_column : (∃ kind newDocumentId, newTuple[i]? = some (.text kind newDocumentId)) ∨
    newTuple[i]? = some (.null .u)

namespace CommentUpdate

def wire (u : CommentUpdate) : WireMessage := .update u.rel.id (some u.oldTuple) u.newTuple

def event (u : CommentUpdate) : WalEvent :=
  .update u.rel.id "comments"
    (some (.fromValues u.rel.columns (u.oldTuple.values.map WireValue.value)))
    (.fromValues u.rel.columns (u.newTuple.map WireValue.value))

/-- The update yields hints, the old document's among them, and the new document's if it is sent. -/
def Invalidates (u : CommentUpdate) : Prop :=
  ∃ hints, hintsOfPayload u.relations u.wire.encode = some hints ∧
    commentHint u.oldDocumentId ∈ hints ∧
    ∀ kind newDocumentId, u.newTuple[u.i]? = some (.text kind newDocumentId) →
      commentHint newDocumentId ∈ hints

theorem parse_wire (u : CommentUpdate) :
    parsePgoutputMessages u.wire.encode = .ok [u.wire.message] := parse_encode u.valid

theorem event_eq (u : CommentUpdate) :
    (RowChange.update (some u.oldTuple) u.newTuple).event u.rel = u.event := by
  unfold RowChange.event
  rw [u.comments]
  rfl

theorem convert_wire (u : CommentUpdate) :
    (pgoutputToWalEvent u.relations u.wire.message).1 = .ok (some u.event) := by
  rw [← u.event_eq]
  exact RowChange.convert_wire u.cached (.update (some u.oldTuple) u.newTuple)

theorem hintsOfPayload_wire (u : CommentUpdate) :
    hintsOfPayload u.relations u.wire.encode = (generateInvalidationHints u.event).toOption := by
  rw [← u.event_eq]
  exact RowChange.hintsOfPayload_wire u.cached (.update (some u.oldTuple) u.newTuple) u.valid

theorem getTextColumn_fromValues (u : CommentUpdate) {values : List WireValue} {v : WireValue}
    (h : values[u.i]? = some v) :
    getTextColumn (.fromValues u.rel.columns (values.map WireValue.value)) "document_id" =
      v.value.asStr :=
  RowChange.getTextColumn_row u.nodup u.column h

theorem invalidates_of_text (u : CommentUpdate) {kind : TextKind} {newDocumentId : String}
    (h : u.newTuple[u.i]? = some (.text kind newDocumentId)) : u.Invalidates := by
  have hold := u.getTextColumn_fromValues u.old_text
  have hnew := u.getTextColumn_fromValues h
  refine ⟨_, by rw [hintsOfPayload_wire, event, generate_update_of_text hnew]; rfl, ?_, ?_⟩
  · simp only [Option.bind_some, hold, WireValue.value, Value.asStr]
    split_ifs with hne
    · simp
    · simp [not_not.1 hne]
  · intro kind' newDocumentId' h'
    rw [h, Option.some.injEq, WireValue.text.injEq] at h'
    simp [h'.2]

theorem not_invalidates_of_unchanged (u : CommentUpdate) (h : u.newTuple[u.i]? = some (.null .u)) :
    ¬ u.Invalidates := by
  rintro ⟨hints, hhints, -⟩
  have hnew := u.getTextColumn_fromValues h
  rw [hintsOfPayload_wire, event, generate_update_of_missing hnew] at hhints
  cases hhints

/-- **Both documents are invalidated** exactly if the new `document_id` is sent along. -/
theorem invalidates_iff (u : CommentUpdate) :
    u.Invalidates ↔ u.newTuple[u.i]? ≠ some (.null .u) := by
  refine ⟨fun h hu => u.not_invalidates_of_unchanged hu h, fun h => ?_⟩
  rcases u.new_column with ⟨kind, newDocumentId, htext⟩ | hu
  · exact u.invalidates_of_text htext
  · exact absurd hu h

/-- A comment on `doc1` whose text changes while its `document_id` is not sent again. -/
def editInPlace : CommentUpdate where
  rel := ⟨7, "public", "comments", ["document_id", "body"]⟩
  relations := Finmap.singleton 7 ⟨7, "public", "comments", ["document_id", "body"]⟩
  i := 0
  oldTuple := ⟨.O, [.text .t "doc1", .text .t "a"]⟩
  oldKind := .t
  oldDocumentId := "doc1"
  newTuple := [.null .u, .text .t "b"]
  comments := rfl
  nodup := by decide
  column := rfl
  cached := Finmap.lookup_singleton_eq
  valid := by decide +kernel
  old_text := rfl
  new_column := .inr rfl

/-- The edit is decoded and converted, and then no hint comes out, not even for `doc1`. -/
theorem editInPlace_lost :
    parsePgoutputMessages editInPlace.wire.encode =
        .ok [.update 7 (some [.text "doc1", .text "a"]) [.null, .text "b"]] ∧
      (pgoutputToWalEvent editInPlace.relations
        (.update 7 (some [.text "doc1", .text "a"]) [.null, .text "b"])).1 =
          .ok (some editInPlace.event) ∧
      generateInvalidationHints editInPlace.event =
        .error (.missingColumn "comments" "document_id") ∧
      ¬ editInPlace.Invalidates :=
  ⟨editInPlace.parse_wire, editInPlace.convert_wire, by decide +kernel,
    editInPlace.not_invalidates_of_unchanged rfl⟩

end CommentUpdate
end MiniGraph
