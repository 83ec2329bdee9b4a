import Mathlib.Algebra.Order.Ring.Nat
import MiniGraph.Lib.Lists
import MiniGraph.Wal.MachineParser
import MiniGraph.Wal.ParserSpec

/-!
# The parser is safe

What untrusted bytes can do to the parser: nothing but make it return. No step of it goes wrong on a
machine, every round of its loops eats some of the payload, and what it returns is no larger than the
payload (`parser_safe`).
-/

namespace MiniGraph
open Lib ByteReader

/-! ### The size of what is returned -/

def PgOutputMessage.entries : PgOutputMessage → Nat
  | .relation rel => rel.columns.length
  | .insert _ newValues => newValues.length
  | .update _ oldValues newValues => (oldValues.getD []).length + newValues.length
  | .delete _ oldValues => oldValues.length

theorem length_encodeU16 (n : Nat) : (encodeU16 n).length = 2 := BigEndian.length_toBytes ..

theorem length_encodeU32 (n : UInt32) : (encodeU32 n).length = 4 := BigEndian.length_toBytes ..

theorem WireValue.length_encode_pos (v : WireValue) : 0 < v.encode.length := by
  cases v <;> exact Nat.succ_pos _

theorem WireColumn.length_encode_pos (column : WireColumn) : 0 < column.encode.length := Nat.succ_pos _

theorem length_encodeTuple (values : List WireValue) : values.length + 2 ≤ (encodeTuple values).length := by
  have hvalues := length_le_flatMap WireValue.length_encode_pos values
  rw [encodeTuple, List.length_append, length_encodeU16]
  omega

theorem OldTuple.length_encode (old : OldTuple) : old.values.length + 3 ≤ old.encode.length := by
  have hvalues := length_encodeTuple old.values
  rw [OldTuple.encode, List.length_cons]
  omega

/-- What is kept of some old tuples is no larger than they are. -/
theorem length_lastOldValues (oldValues : Option (List Value)) (olds : List OldTuple) :
    ((lastOldValues oldValues olds).getD []).length ≤
      (oldValues.getD []).length + (olds.flatMap OldTuple.encode).length := by
  induction olds generalizing oldValues with
  | nil => exact Nat.le_refl _
  | cons old olds ih =>
    have hrest := ih (some (old.values.map WireValue.value))
    have hold := old.length_encode
    rw [Option.getD_some, List.length_map] at hrest
    rw [List.flatMap_cons, List.length_append]
    show ((lastOldValues (some _) olds).getD []).length ≤ _
    omega

/-- An update of either format: a tag, the id, the marker of the new tuple and its count are the eight
bytes that are always there. -/
theorem length_update (relationId : UInt32) (olds : List OldTuple) (newTuple : List WireValue) :
    8 + (PgOutputMessage.update relationId (lastOldValues none olds)
        (newTuple.map WireValue.value)).entries ≤
      (tag 'U' :: (encodeU32 relationId ++
        (olds.flatMap OldTuple.encode ++ (tag 'N' :: encodeTuple newTuple)))).length := by
  have hold := length_lastOldValues none olds
  have hnew := length_encodeTuple newTuple
  rw [Option.getD_none, List.length_nil] at hold
  rw [PgOutputMessage.entries, List.length_map, List.length_cons, List.length_append, length_encodeU32,
    List.length_append, List.length_cons]
  omega

theorem WireMessage.length_encode (w : WireMessage) : 8 + w.message.entries ≤ w.encode.length := by
  cases w with
  | relation id «namespace» name replicaIdentity columns =>
    have hcolumns := length_le_flatMap WireColumn.length_encode_pos columns
    simp only [message, PgOutputMessage.entries, encode, encodeCString, List.length_map, List.length_cons,
      List.length_append, List.length_nil, length_encodeU32, length_encodeU16]
    omega
  | insert relationId newTuple =>
    have hnew := length_encodeTuple newTuple
    simp only [message, PgOutputMessage.entries, encode, List.length_map, List.length_cons,
      List.length_append, length_encodeU32]
    omega
  | update relationId oldTuple newTuple =>
    have hkept : lastOldValues none oldTuple.toList =
        oldTuple.map fun old => old.values.map WireValue.value := by
      cases oldTuple <;> rfl
    have hupdate := length_update relationId oldTuple.toList newTuple
    rwa [hkept] at hupdate
  | delete relationId oldTuple =>
    have hold := oldTuple.length_encode
    simp only [message, PgOutputMessage.entries, encode, List.length_map, List.length_cons,
      List.length_append, length_encodeU32]
    omega

/-- A message takes eight bytes, and one more for each of its entries. -/
theorem LaxMessage.length_encode (w : LaxMessage) : 8 + w.message.entries ≤ w.encode.length := by
  cases w with
  | standard w => exact w.length_encode
  | repeatedOld relationId first second more newTuple =>
    exact length_update relationId (first :: second :: more) newTuple

theorem size_of_parse {data : List UInt8} {ms : List PgOutputMessage}
    (h : parsePgoutputMessages data = .ok ms) :
    8 * ms.length + (ms.map PgOutputMessage.entries).sum ≤ data.length := by
  obtain ⟨ws, -, rfl, rfl⟩ := parse_eq_ok.1 h
  clear h
  induction ws with
  | nil => exact Nat.le_refl _
  | cons w ws ih =>
    have hw := w.length_encode
    rw [List.map_cons, List.map_cons, List.sum_cons, List.length_cons, List.flatMap_cons, List.length_append]
    omega

/-- **The parser is safe**, with a `usize` of either width, on every payload that fits into memory. With
a round for each byte and one to spare it ends in a result, the parser's, and never in a fault; each
round of its two loops that has something ahead moves forward or ends in an error; and messages and
entries are no more than the payload has room for. -/
theorem parser_safe (w : Usize) :
    (∀ data : List UInt8, data.length ≤ w.isizeMax → ∀ fuel, data.length < fuel →
      Raw.parsePgoutputMessages w fuel data = (parsePgoutputMessages data).mapError Stop.error ∧
      ∀ ms, Raw.parsePgoutputMessages w fuel data = .ok ms →
        8 * ms.length + (ms.map PgOutputMessage.entries).sum ≤ data.length) ∧
    ∀ c : RawCursor UInt8, c.pos ≤ c.data.length → c.data.length ≤ w.isizeMax →
      (∀ fuel, c.data.length < fuel → c.pos < c.data.length → ∀ out,
        (Machine.untilEndBody (Raw.parseMessage w fuel) out).Advances c) ∧
      ∀ oldValues, (Raw.parseUpdateRound w oldValues).Advances c := by
  refine ⟨fun data hdata fuel hfuel => ?_, fun c hpos hdata => ⟨fun fuel hfuel hahead out => ?_, fun oldValues => ?_⟩⟩
  · have hrun := Raw.parsePgoutputMessages_run hdata hfuel
    refine ⟨hrun, fun ms hms => size_of_parse ?_⟩
    rw [hrun] at hms
    cases hparse : parsePgoutputMessages data with
    | error e =>
      rw [hparse] at hms
      cases hms
    | ok ms' =>
      rw [hparse] at hms
      rw [Except.ok.inj hms]
  · exact (Raw.parseMessage_advances hpos hdata hfuel).untilEndBody hahead out
  · exact Raw.parseUpdateRound_advances oldValues hpos hdata

/-- A column length of -1 is an error, not a fault. -/
example : Raw.parsePgoutputMessages .bits32 20 [0x49, 0, 0, 0, 1, 0x4e, 0, 1, 0x74, 0xff, 0xff, 0xff, 0xff] =
    .error (.error (.truncated "tuple column bytes")) := by decide +kernel

end MiniGraph
