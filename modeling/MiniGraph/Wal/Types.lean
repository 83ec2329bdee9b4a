import Mathlib.Data.Finmap

/-!
# WAL types (`src/wal/types.rs`)

Row events as they come out of the replication stream, and the invalidation hints made from them.
-/

namespace MiniGraph

structure QueryHint where
  table : String
  column : String
  value : String
deriving DecidableEq, Repr

/-- The hint's key on the wire, `table:column:value`. -/
def QueryHint.toKey (hint : QueryHint) : String :=
  hint.table ++ ":" ++ hint.column ++ ":" ++ hint.value

inductive Value where
  | null
  | text (value : String)
  | int (value : Int64)
deriving DecidableEq, Repr

def Value.asStr : Value → Option String
  | .text s => some s
  | _ => none

/-- A row: its columns by name. -/
structure TupleData where
  columns : Finmap fun _ : String => Value

inductive WalEvent where
  | insert (relationId : UInt32) (relationName : String) (newTuple : TupleData)
  | update (relationId : UInt32) (relationName : String) (oldTuple : Option TupleData)
      (newTuple : TupleData)
  | delete (relationId : UInt32) (relationName : String) (oldTuple : TupleData)

namespace TupleData

/-- The loop of `TupleData::from_values`: column `idx` is named by `columnNames[idx]`, and a value
that is missing at the end of the row is `Null`. -/
def insertColumns (values : List Value) :
    List (String × Nat) → (Finmap fun _ : String => Value) → Finmap fun _ : String => Value
  | [], columns => columns
  | (columnName, idx) :: rest, columns =>
    insertColumns values rest (columns.insert columnName ((values[idx]?).getD .null))

def fromValues (columnNames : List String) (values : List Value) : TupleData :=
  ⟨insertColumns values columnNames.zipIdx ∅⟩

theorem lookup_insertColumns_of_notMem {values : List Value} {cols : List (String × Nat)}
    {m : Finmap fun _ : String => Value} {name : String} (h : name ∉ cols.map Prod.fst) :
    (insertColumns values cols m).lookup name = m.lookup name := by
  induction cols generalizing m with
  | nil => rfl
  | cons col cols ih =>
    rw [List.map_cons, List.mem_cons, not_or] at h
    rw [insertColumns, ih h.2, Finmap.lookup_insert_of_ne _ h.1]

theorem lookup_insertColumns {values : List Value} {cols : List (String × Nat)}
    {m : Finmap fun _ : String => Value} {name : String} {idx : Nat}
    (hnd : (cols.map Prod.fst).Nodup) (h : (name, idx) ∈ cols) :
    (insertColumns values cols m).lookup name = some ((values[idx]?).getD .null) := by
  induction cols generalizing m with
  | nil => cases h
  | cons col cols ih =>
    rw [List.map_cons, List.nodup_cons] at hnd
    rw [insertColumns]
    rcases List.mem_cons.1 h with rfl | h
    · rw [lookup_insertColumns_of_notMem hnd.1, Finmap.lookup_insert]
    · exact ih hnd.2 h

/-- With distinct column names, the column at index `i` holds the value at index `i`. -/
theorem lookup_fromValues {columnNames : List String} (hnd : columnNames.Nodup) {values : List Value}
    {i : Nat} {name : String} (h : columnNames[i]? = some name) :
    (fromValues columnNames values).columns.lookup name = some ((values[i]?).getD .null) := by
  refine lookup_insertColumns ?_ (List.mem_zipIdx_iff_getElem?.2 h)
  rwa [List.zipIdx_map_fst]

end TupleData
end MiniGraph
