import MiniGraph.Wal.ByteReader
import MiniGraph.Wal.Types

/-!
# Decoding `pgoutput` (`src/wal/pgoutput.rs`)

The message parser, and the conversion of row messages to `WalEvent`s against the cache of the
relations seen so far. Log output is left out.
-/

namespace MiniGraph
open Lib ByteReader

structure Relation where
  id : UInt32
  «namespace» : String
  name : String
  columns : List String
deriving DecidableEq, Repr

inductive PgOutputMessage where
  | relation (relation : Relation)
  | insert (relationId : UInt32) (newValues : List Value)
  | update (relationId : UInt32) (oldValues : Option (List Value)) (newValues : List Value)
  | delete (relationId : UInt32) (oldValues : List Value)
deriving DecidableEq, Repr

/-! ### The parser -/

/-- One pass of the column loop of `parse_relation`; only the name is kept. -/
def parseRelationColumn : Read String := do
  let _flags ← readU8 "relation column flags"
  let colName ← readCString "relation column name"
  let _typeOid ← readU32 "relation column type oid"
  let _typeModifier ← readI32 "relation column type modifier"
  return colName

def parseRelation : Read Relation := do
  let id ← readU32 "relation id"
  let «namespace» ← readCString "relation namespace"
  let name ← readCString "relation name"
  let _replicaIdentity ← readU8 "replica identity"
  let numColumns ← readU16 "relation column count"
  let columns ← times numColumns.toNat parseRelationColumn
  return { id, «namespace», name, columns }

/-- The `b't' | b'b'` arm of `parse_tuple`: binary values are taken for text, too. -/
def parseText : Read Value := do
  let len ← readI32 "tuple column length"
  if len < 0 then
    throw (.truncated "tuple column bytes")
  else
    let bytes ← readBytes len.toInt.toNat "tuple column bytes"
    match Utf8.decode? bytes with
    | none => throw (.invalidUtf8 "tuple column")
    | some value => return .text value

/-- One pass of the column loop of `parse_tuple`. -/
def parseTupleColumn : Read Value := do
  let kind ← readU8 "tuple column kind"
  if kind = tag 'n' then return .null
  else if kind = tag 'u' then return .null
  else if kind = tag 't' ∨ kind = tag 'b' then parseText
  else throw (.unsupportedTupleKind kind)

def parseTuple : Read (List Value) := do
  let numColumns ← readU16 "tuple column count"
  times numColumns.toNat parseTupleColumn

def parseInsert : Read PgOutputMessage := do
  let relationId ← readU32 "insert relation id"
  let kind ← readU8 "insert tuple kind"
  if kind ≠ tag 'N' then
    throw (.unknownMessageTag kind)
  else
    let newValues ← parseTuple
    return .insert relationId newValues

/-- One pass of the loop of `parse_update`: an old tuple replaces `oldValues` and the loop goes on,
the new tuple breaks it. -/
def parseUpdateRound (oldValues : Option (List Value)) :
    Read (Option (List Value) ⊕ (Option (List Value) × List Value)) := do
  let kind ← readU8 "update tuple kind"
  if kind = tag 'K' ∨ kind = tag 'O' then
    let values ← parseTuple
    return .inl (some values)
  else if kind = tag 'N' then
    let newValues ← parseTuple
    return .inr (oldValues, newValues)
  else
    throw (.unknownMessageTag kind)

theorem parseText_keeps : Keeps parseText :=
  (readI32_reads _).keeps.bind fun _ => (Keeps.throw _).ite <|
    (readBytes_reads _ _).keeps.bind fun _ => by
      split
      · exact .throw _
      · exact .pure _

theorem parseTuple_keeps : Keeps parseTuple :=
  (readU16_reads _).keeps.bind fun _ => Keeps.times
    ((readU8_shrinks _).keeps.bind fun _ => .ite (.pure _) <| .ite (.pure _) <|
      .ite parseText_keeps (.throw _)) _

theorem parseUpdateRound_progress : Progress parseUpdateRound :=
  Shrinks.progress fun _ => (readU8_shrinks _).bind fun _ =>
    .ite (parseTuple_keeps.bind fun _ => .pure _) <|
      .ite (parseTuple_keeps.bind fun _ => .pure _) (.throw _)

def parseUpdate : Read PgOutputMessage := do
  let relationId ← readU32 "update relation id"
  let (oldValues, newValues) ← loop parseUpdateRound parseUpdateRound_progress none
  return .update relationId oldValues newValues

def parseDelete : Read PgOutputMessage := do
  let relationId ← readU32 "delete relation id"
  let kind ← readU8 "delete tuple kind"
  if kind = tag 'K' ∨ kind = tag 'O' then
    let oldValues ← parseTuple
    return .delete relationId oldValues
  else
    throw (.unknownMessageTag kind)

/-- One pass of the loop of `parse_pgoutput_messages`. -/
def parseMessage : Read PgOutputMessage := do
  let messageTag ← readU8 "message tag"
  if messageTag = tag 'R' then
    let relation ← parseRelation
    return .relation relation
  else if messageTag = tag 'I' then parseInsert
  else if messageTag = tag 'U' then parseUpdate
  else if messageTag = tag 'D' then parseDelete
  else throw (.unknownMessageTag messageTag)

theorem parseRelation_keeps : Keeps parseRelation :=
  (readU32_reads _).keeps.bind fun _ => (readCString_reads _).keeps.bind fun _ =>
    (readCString_reads _).keeps.bind fun _ => (readU8_shrinks _).keeps.bind fun _ =>
      (readU16_reads _).keeps.bind fun _ => (Keeps.times
        ((readU8_shrinks _).keeps.bind fun _ => (readCString_reads _).keeps.bind fun _ =>
          (readU32_reads _).keeps.bind fun _ => (readI32_reads _).keeps.bind fun _ => .pure _) _).bind
        fun _ => .pure _

theorem parseInsert_keeps : Keeps parseInsert :=
  (readU32_reads _).keeps.bind fun _ => (readU8_shrinks _).keeps.bind fun _ =>
    (Keeps.throw _).ite <| parseTuple_keeps.bind fun _ => .pure _

theorem parseUpdate_keeps : Keeps parseUpdate :=
  (readU32_reads _).keeps.bind fun _ => (Keeps.loop fun _ =>
    (readU8_shrinks _).keeps.bind fun _ => .ite (parseTuple_keeps.bind fun _ => .pure _) <|
      .ite (parseTuple_keeps.bind fun _ => .pure _) (.throw _)).bind fun _ => .pure _

theorem parseDelete_keeps : Keeps parseDelete :=
  (readU32_reads _).keeps.bind fun _ => (readU8_shrinks _).keeps.bind fun _ =>
    .ite (parseTuple_keeps.bind fun _ => .pure _) (.throw _)

theorem parseMessage_shrinks : Shrinks parseMessage :=
  (readU8_shrinks _).bind fun _ => .ite (parseRelation_keeps.bind fun _ => .pure _) <|
    .ite parseInsert_keeps <| .ite parseUpdate_keeps <| .ite parseDelete_keeps (.throw _)

def parsePgoutputMessages (data : List UInt8) : Except PgOutputError (List PgOutputMessage) :=
  Prod.fst <$> (untilEnd parseMessage parseMessage_shrinks).run (ByteReader.new data)

/-! ### From messages to row events -/

inductive PgOutputConversionError where
  | schemaChange
deriving DecidableEq, Repr

/-- The relation cache: the relations seen so far by id. -/
abbrev Relations := Finmap fun _ : UInt32 => Relation

/-- Returns the result together with the cache it leaves behind. -/
def pgoutputToWalEvent (relations : Relations) :
    PgOutputMessage → Except PgOutputConversionError (Option WalEvent) × Relations
  | .relation rel =>
    match relations.lookup rel.id with
    | some existing =>
      if existing ≠ rel then
        (.error .schemaChange, relations)
      else
        (.ok none, relations) -- same relation message seen again
    | none => (.ok none, relations.insert rel.id rel)
  | .insert relationId newValues =>
    match relations.lookup relationId with
    | none => (.ok none, relations)
    | some rel =>
      let tuple := TupleData.fromValues rel.columns newValues
      (.ok (some (.insert relationId rel.name tuple)), relations)
  | .update relationId oldValues newValues =>
    match relations.lookup relationId with
    | none => (.ok none, relations)
    | some rel =>
      let oldTuple := oldValues.map (TupleData.fromValues rel.columns)
      let newTuple := TupleData.fromValues rel.columns newValues
      (.ok (some (.update relationId rel.name oldTuple newTuple)), relations)
  | .delete relationId oldValues =>
    match relations.lookup relationId with
    | none => (.ok none, relations)
    | some rel =>
      let oldTuple := TupleData.fromValues rel.columns oldValues
      (.ok (some (.delete relationId rel.name oldTuple)), relations)

/-! A row message is converted with the relation in the cache, and leaves the cache as it is. -/

section Rows
variable (relations : Relations) (relationId : UInt32) (oldValues : Option (List Value))
  (values newValues : List Value)

theorem pgoutputToWalEvent_insert : pgoutputToWalEvent relations (.insert relationId values) =
    (.ok ((relations.lookup relationId).map fun rel =>
      .insert relationId rel.name (.fromValues rel.columns values)), relations) := by
  simp only [pgoutputToWalEvent]
  cases relations.lookup relationId <;> rfl

theorem pgoutputToWalEvent_update : pgoutputToWalEvent relations (.update relationId oldValues newValues) =
    (.ok ((relations.lookup relationId).map fun rel =>
      .update relationId rel.name (oldValues.map (.fromValues rel.columns))
        (.fromValues rel.columns newValues)), relations) := by
  simp only [pgoutputToWalEvent]
  cases relations.lookup relationId <;> rfl

theorem pgoutputToWalEvent_delete : pgoutputToWalEvent relations (.delete relationId values) =
    (.ok ((relations.lookup relationId).map fun rel =>
      .delete relationId rel.name (.fromValues rel.columns values)), relations) := by
  simp only [pgoutputToWalEvent]
  cases relations.lookup relationId <;> rfl

end Rows
end MiniGraph
