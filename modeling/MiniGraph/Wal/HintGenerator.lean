import Mathlib.Tactic.SplitIfs
import MiniGraph.Wal.Types

/-!
# Invalidation hints (`src/wal/hint_generator.rs`)

Which hints a row event gives rise to: a comment invalidates its document, by its `document_id`, and
a deleted document itself, by its `id`.
-/

namespace MiniGraph

inductive HintGenError where
  | missingColumn (table column : String)
deriving DecidableEq, Repr

def getTextColumn (tuple : TupleData) (column : String) : Option String :=
  match tuple.columns.lookup column with
  | some (.text v) => some v
  | _ => none

def requireTextColumn (table : String) (tuple : TupleData) (column : String) :
    Except HintGenError String :=
  match getTextColumn tuple column with
  | some v => .ok v
  | none => .error (.missingColumn table column)

def generateInvalidationHints : WalEvent → Except HintGenError (List QueryHint)
  | .insert _ relationName newTuple =>
    match relationName with
    | "comments" => do
      let documentId ← requireTextColumn "comments" newTuple "document_id"
      return [⟨"comments", "document_id", documentId⟩]
    | "documents" => return []
    | _ => return []
  | .update _ relationName oldTuple newTuple =>
    match relationName with
    | "comments" => do
      let newDocumentId ← requireTextColumn "comments" newTuple "document_id"
      let oldDocumentId := oldTuple.bind fun t => getTextColumn t "document_id"
      let hints :=
        match oldDocumentId with
        | some old => if old ≠ newDocumentId then [⟨"comments", "document_id", old⟩] else []
        | none => []
      return hints ++ [⟨"comments", "document_id", newDocumentId⟩]
    | "documents" => return []
    | _ => return []
  | .delete _ relationName oldTuple =>
    match relationName with
    | "comments" => do
      let documentId ← requireTextColumn "comments" oldTuple "document_id"
      return [⟨"comments", "document_id", documentId⟩]
    | "documents" => do
      let id ← requireTextColumn "documents" oldTuple "id"
      return [⟨"documents", "id", id⟩]
    | _ => return []

/-- The hint of the comments on document `documentId`. -/
def commentHint (documentId : String) : QueryHint := ⟨"comments", "document_id", documentId⟩

/-- The hint of the document `documentId` itself. -/
def documentHint (documentId : String) : QueryHint := ⟨"documents", "id", documentId⟩

/-! ### The cases -/

variable {relationId : UInt32} {relationName : String} {oldTuple : Option TupleData}
  {tuple newTuple : TupleData} {column : String}

theorem requireTextColumn_map_eq_ok {α : Type} {table : String} {f : String → α} {x : α} :
    (requireTextColumn table tuple column).map f = .ok x ↔
      ∃ v, getTextColumn tuple column = some v ∧ f v = x := by
  unfold requireTextColumn
  cases getTextColumn tuple column <;> simp [Except.map]

theorem generate_insert : generateInvalidationHints (.insert relationId relationName tuple) =
    if relationName = "comments" then
      (requireTextColumn "comments" tuple "document_id").map fun documentId => [commentHint documentId]
    else .ok [] := by
  simp only [generateInvalidationHints]
  split_ifs with h
  · subst h
    simp only
    cases requireTextColumn "comments" tuple "document_id" <;> rfl
  · split
    · exact absurd rfl h
    · rfl
    · rfl

theorem generate_update : generateInvalidationHints (.update relationId relationName oldTuple newTuple) =
    if relationName = "comments" then
      (requireTextColumn "comments" newTuple "document_id").map fun newDocumentId =>
        (match oldTuple.bind fun t => getTextColumn t "document_id" with
          | some old => if old ≠ newDocumentId then [commentHint old] else []
          | none => []) ++ [commentHint newDocumentId]
    else .ok [] := by
  simp only [generateInvalidationHints]
  split_ifs with h
  · subst h
    simp only
    cases requireTextColumn "comments" newTuple "document_id" <;> rfl
  · split
    · exact absurd rfl h
    · rfl
    · rfl

theorem generate_delete : generateInvalidationHints (.delete relationId relationName tuple) =
    if relationName = "comments" then
      (requireTextColumn "comments" tuple "document_id").map fun documentId => [commentHint documentId]
    else if relationName = "documents" then
      (requireTextColumn "documents" tuple "id").map fun documentId => [documentHint documentId]
    else .ok [] := by
  simp only [generateInvalidationHints]
  split_ifs with hcomments hdocuments
  · subst hcomments
    simp only
    cases requireTextColumn "comments" tuple "document_id" <;> rfl
  · subst hdocuments
    simp only
    cases requireTextColumn "documents" tuple "id" <;> rfl
  · split
    · exact absurd rfl hcomments
    · exact absurd rfl hdocuments
    · rfl

theorem generate_update_of_text {newDocumentId : String}
    (h : getTextColumn newTuple "document_id" = some newDocumentId) :
    generateInvalidationHints (.update relationId "comments" oldTuple newTuple) =
      .ok ((match oldTuple.bind fun t => getTextColumn t "document_id" with
        | some old => if old ≠ newDocumentId then [commentHint old] else []
        | none => []) ++ [commentHint newDocumentId]) := by
  rw [generate_update, if_pos rfl, requireTextColumn_map_eq_ok]
  exact ⟨newDocumentId, h, rfl⟩

/-- An update whose new row has no text in `document_id` gives no hint, not even for the old row. -/
theorem generate_update_of_missing (h : getTextColumn newTuple "document_id" = none) :
    generateInvalidationHints (.update relationId "comments" oldTuple newTuple) =
      .error (.missingColumn "comments" "document_id") := by
  rw [generate_update, if_pos rfl]
  unfold requireTextColumn
  rw [h]
  rfl

/-- Every hint names a document, by the comments on it or by itself. -/
theorem eq_of_mem_generate {event : WalEvent} {hints : List QueryHint} {hint : QueryHint}
    (h : generateInvalidationHints event = .ok hints) (hmem : hint ∈ hints) :
    (∃ documentId, hint = commentHint documentId) ∨ ∃ documentId, hint = documentHint documentId := by
  cases event with
  | insert relationId relationName newTuple =>
    rw [generate_insert] at h
    split_ifs at h
    · obtain ⟨documentId, -, rfl⟩ := requireTextColumn_map_eq_ok.1 h
      exact .inl ⟨documentId, List.mem_singleton.1 hmem⟩
    · obtain rfl := Except.ok.inj h
      cases hmem
  | update relationId relationName oldTuple newTuple =>
    rw [generate_update] at h
    split_ifs at h
    · obtain ⟨newDocumentId, -, rfl⟩ := requireTextColumn_map_eq_ok.1 h
      rcases List.mem_append.1 hmem with hmem | hmem
      · split at hmem
        · next old _ =>
          split_ifs at hmem
          · exact .inl ⟨old, List.mem_singleton.1 hmem⟩
          · cases hmem
        · cases hmem
      · exact .inl ⟨newDocumentId, List.mem_singleton.1 hmem⟩
    · obtain rfl := Except.ok.inj h
      cases hmem
  | delete relationId relationName oldTuple =>
    rw [generate_delete] at h
    split_ifs at h
    · obtain ⟨documentId, -, rfl⟩ := requireTextColumn_map_eq_ok.1 h
      exact .inl ⟨documentId, List.mem_singleton.1 hmem⟩
    · obtain ⟨documentId, -, rfl⟩ := requireTextColumn_map_eq_ok.1 h
      exact .inr ⟨documentId, List.mem_singleton.1 hmem⟩
    · obtain rfl := Except.ok.inj h
      cases hmem

end MiniGraph
