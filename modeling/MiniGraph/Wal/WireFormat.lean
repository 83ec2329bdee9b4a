import MiniGraph.Wal.PgOutput

/-!
# The `pgoutput` wire format

The reference encoder of the four supported messages. A `WireMessage` has every field of the wire,
also those the parser discards; `message` is what is left of it after parsing. `LaxMessage` adds the
one form that is not in the format and that `parse_update` reads all the same: an update with
several old tuples.
-/

namespace MiniGraph
open Lib ByteReader

/-- A column without a value: `n` (NULL) or `u` (unchanged TOAST value). -/
inductive NullKind where
  | n
  | u
deriving DecidableEq, Repr

/-- A column with a value: `t` (text) or `b` (binary). -/
inductive TextKind where
  | t
  | b
deriving DecidableEq, Repr

/-- The marker of an old tuple: `K` (key columns) or `O` (whole row). -/
inductive OldKind where
  | K
  | O
deriving DecidableEq, Repr

def NullKind.byte : NullKind → UInt8
  | .n => tag 'n'
  | .u => tag 'u'

def TextKind.byte : TextKind → UInt8
  | .t => tag 't'
  | .b => tag 'b'

def OldKind.byte : OldKind → UInt8
  | .K => tag 'K'
  | .O => tag 'O'

inductive WireValue where
  | null (kind : NullKind)
  | text (kind : TextKind) (value : String)
deriving DecidableEq, Repr

structure WireColumn where
  flags : UInt8
  name : String
  typeOid : UInt32
  typeModifier : Int32
deriving DecidableEq, Repr

structure OldTuple where
  kind : OldKind
  values : List WireValue
deriving DecidableEq, Repr

inductive WireMessage where
  | relation (id : UInt32) («namespace» name : String) (replicaIdentity : UInt8)
      (columns : List WireColumn)
  | insert (relationId : UInt32) (newTuple : List WireValue)
  | update (relationId : UInt32) (oldTuple : Option OldTuple) (newTuple : List WireValue)
  | delete (relationId : UInt32) (oldTuple : OldTuple)
deriving DecidableEq, Repr

/-! ### The encoder -/

def encodeU16 (n : Nat) : List UInt8 := BigEndian.toBytes 2 n

def encodeU32 (n : UInt32) : List UInt8 := BigEndian.toBytes 4 n.toNat

def encodeI32 (n : Int32) : List UInt8 := BigEndian.toBytes 4 n.toUInt32.toNat

def encodeCString (s : String) : List UInt8 := Utf8.encode s ++ [0]

def WireValue.encode : WireValue → List UInt8
  | .null kind => [kind.byte]
  | .text kind value =>
    kind.byte :: (BigEndian.toBytes 4 (Utf8.encode value).length ++ Utf8.encode value)

def encodeTuple (values : List WireValue) : List UInt8 :=
  encodeU16 values.length ++ values.flatMap WireValue.encode

def WireColumn.encode (column : WireColumn) : List UInt8 :=
  column.flags ::
    (encodeCString column.name ++ (encodeU32 column.typeOid ++ encodeI32 column.typeModifier))

def OldTuple.encode (old : OldTuple) : List UInt8 := old.kind.byte :: encodeTuple old.values

def WireMessage.encode : WireMessage → List UInt8
  | .relation id «namespace» name replicaIdentity columns =>
    tag 'R' :: (encodeU32 id ++ (encodeCString «namespace» ++ (encodeCString name ++
      (replicaIdentity :: (encodeU16 columns.length ++ columns.flatMap WireColumn.encode)))))
  | .insert relationId newTuple =>
    tag 'I' :: (encodeU32 relationId ++ (tag 'N' :: encodeTuple newTuple))
  | .update relationId oldTuple newTuple =>
    tag 'U' :: (encodeU32 relationId ++
      (oldTuple.toList.flatMap OldTuple.encode ++ (tag 'N' :: encodeTuple newTuple)))
  | .delete relationId oldTuple => tag 'D' :: (encodeU32 relationId ++ oldTuple.encode)

def encodeMessages (ws : List WireMessage) : List UInt8 := ws.flatMap WireMessage.encode

/-! ### What the parser keeps -/

def WireValue.value : WireValue → Value
  | .null _ => .null
  | .text _ value => .text value

def WireMessage.message : WireMessage → PgOutputMessage
  | .relation id «namespace» name _ columns =>
    .relation { id, «namespace», name, columns := columns.map WireColumn.name }
  | .insert relationId newTuple => .insert relationId (newTuple.map WireValue.value)
  | .update relationId oldTuple newTuple =>
    .update relationId (oldTuple.map fun old => old.values.map WireValue.value)
      (newTuple.map WireValue.value)
  | .delete relationId oldTuple => .delete relationId (oldTuple.values.map WireValue.value)

/-! ### What can be encoded -/

def NulFree (s : String) : Prop := 0 ∉ Utf8.encode s

instance (s : String) : Decidable (NulFree s) := inferInstanceAs (Decidable (0 ∉ Utf8.encode s))

def Value.Encodable : Value → Prop
  | .null => True
  | .text value => (Utf8.encode value).length < 2 ^ 31
  | .int _ => False

instance : DecidablePred Value.Encodable
  | .null => .isTrue trivial
  | .text value => inferInstanceAs (Decidable ((Utf8.encode value).length < 2 ^ 31))
  | .int _ => .isFalse id

def TupleEncodable (values : List Value) : Prop :=
  values.length < 2 ^ 16 ∧ ∀ value ∈ values, value.Encodable

instance (values : List Value) : Decidable (TupleEncodable values) :=
  inferInstanceAs (Decidable (_ ∧ _))

/-- The messages within the bounds of the format. -/
def PgOutputMessage.Encodable : PgOutputMessage → Prop
  | .relation rel => NulFree rel.«namespace» ∧ NulFree rel.name ∧ rel.columns.length < 2 ^ 16 ∧
      ∀ column ∈ rel.columns, NulFree column
  | .insert _ newValues => TupleEncodable newValues
  | .update _ oldValues newValues =>
    (∀ values ∈ oldValues, TupleEncodable values) ∧ TupleEncodable newValues
  | .delete _ oldValues => TupleEncodable oldValues

instance : DecidablePred PgOutputMessage.Encodable
  | .relation _ => inferInstanceAs (Decidable (_ ∧ _ ∧ _ ∧ _))
  | .insert _ newValues => inferInstanceAs (Decidable (TupleEncodable newValues))
  | .update _ _ _ => inferInstanceAs (Decidable (_ ∧ _))
  | .delete _ oldValues => inferInstanceAs (Decidable (TupleEncodable oldValues))

def WireMessage.Valid (w : WireMessage) : Prop := w.message.Encodable

instance : DecidablePred WireMessage.Valid := fun w =>
  inferInstanceAs (Decidable w.message.Encodable)

/-! ### What the parser reads -/

/-- A message of the format, or an update with two or more old tuples. -/
inductive LaxMessage where
  | standard (w : WireMessage)
  | repeatedOld (relationId : UInt32) (first second : OldTuple) (more : List OldTuple)
      (newTuple : List WireValue)
deriving DecidableEq, Repr

def LaxMessage.encode : LaxMessage → List UInt8
  | .standard w => w.encode
  | .repeatedOld relationId first second more newTuple =>
    tag 'U' :: (encodeU32 relationId ++
      ((first :: second :: more).flatMap OldTuple.encode ++ (tag 'N' :: encodeTuple newTuple)))

/-- What `old_values` holds after the loop has read `olds`: the last one replaces the others. -/
def lastOldValues (oldValues : Option (List Value)) (olds : List OldTuple) : Option (List Value) :=
  olds.foldl (fun _ old => some (old.values.map WireValue.value)) oldValues

def LaxMessage.message : LaxMessage → PgOutputMessage
  | .standard w => w.message
  | .repeatedOld relationId first second more newTuple =>
    .update relationId (lastOldValues none (first :: second :: more)) (newTuple.map WireValue.value)

def LaxMessage.Valid : LaxMessage → Prop
  | .standard w => w.Valid
  | .repeatedOld _ first second more newTuple =>
    (∀ old ∈ first :: second :: more, TupleEncodable (old.values.map WireValue.value)) ∧
      TupleEncodable (newTuple.map WireValue.value)

def LaxMessage.RepeatsOld : LaxMessage → Prop
  | .standard _ => False
  | .repeatedOld .. => True

end MiniGraph
