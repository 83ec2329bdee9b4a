import MiniGraph.Lib.Machine
import MiniGraph.Wal.PgOutput

/-!
# The parser on a machine (`src/wal/byte_reader.rs`, `src/wal/pgoutput.rs`)

The reader and the parser once more, now with everything the code asks of the machine: sums of words
that have to fit, slices and indices that have to be within bounds, a cast that must not see a negative
number, and loops that nothing but their body ends. On a target of either width, and for all payloads
that fit into memory, none of it goes wrong, and the result is that of `parsePgoutputMessages`
(`parsePgoutputMessages_run`). Allocation is left out.
-/

namespace MiniGraph
open Lib ByteReader

/-- The width of a `usize`. -/
inductive Usize where
  | bits32
  | bits64
deriving DecidableEq, Repr

def Usize.bits : Usize → Nat
  | .bits32 => 32
  | .bits64 => 64

/-- `isize::MAX`, which no slice is longer than. -/
def Usize.isizeMax (w : Usize) : Nat := 2 ^ (w.bits - 1) - 1

namespace Raw

abbrev Read := Machine UInt8 PgOutputError

/-! ### The byte reader -/

def readBytes (w : Usize) (len : Nat) (ctx : String) : Read (List UInt8) := do
  let reader ← get
  let stop ← Machine.add w.bits reader.pos len
  if stop > reader.data.length then Machine.fail (.truncated ctx)
  else
    let stop ← Machine.add w.bits reader.pos len
    let bytes ← Machine.slice reader.data reader.pos stop
    let pos ← Machine.add w.bits reader.pos len
    Machine.setPos pos
    return bytes

def readU8 (w : Usize) (ctx : String) : Read UInt8 := do
  let bytes ← readBytes w 1 ctx
  Machine.index bytes 0

def readU16 (w : Usize) (ctx : String) : Read UInt16 := do
  let bytes ← readBytes w 2 ctx
  let b0 ← Machine.index bytes 0
  let b1 ← Machine.index bytes 1
  return UInt16.ofNat (BigEndian.ofBytes [b0, b1])

def readU32 (w : Usize) (ctx : String) : Read UInt32 := do
  let bytes ← readBytes w 4 ctx
  let b0 ← Machine.index bytes 0
  let b1 ← Machine.index bytes 1
  let b2 ← Machine.index bytes 2
  let b3 ← Machine.index bytes 3
  return UInt32.ofNat (BigEndian.ofBytes [b0, b1, b2, b3])

def readI32 (w : Usize) (ctx : String) : Read Int32 := do
  let bytes ← readBytes w 4 ctx
  let b0 ← Machine.index bytes 0
  let b1 ← Machine.index bytes 1
  let b2 ← Machine.index bytes 2
  let b3 ← Machine.index bytes 3
  return (UInt32.ofNat (BigEndian.ofBytes [b0, b1, b2, b3])).toInt32

def readCString (w : Usize) (ctx : String) : Read String := do
  let reader ← get
  let start := reader.pos
  let ahead ← Machine.slice reader.data start reader.data.length
  match ahead.findIdx? (· == 0) with
  | none => Machine.fail (.truncated ctx)
  | some len =>
    let stop ← Machine.add w.bits start len
    let bytes ← Machine.slice reader.data start stop
    let pos ← Machine.add w.bits stop 1
    Machine.setPos pos
    match Utf8.decode? bytes with
    | none => Machine.fail (.invalidUtf8 ctx)
    | some s => return s

/-! ### The parser -/

def parseRelationColumn (w : Usize) : Read String := do
  let _flags ← readU8 w "relation column flags"
  let colName ← readCString w "relation column name"
  let _typeOid ← readU32 w "relation column type oid"
  let _typeModifier ← readI32 w "relation column type modifier"
  return colName

def parseRelation (w : Usize) : Read Relation := do
  let id ← readU32 w "relation id"
  let «namespace» ← readCString w "relation namespace"
  let name ← readCString w "relation name"
  let _replicaIdentity ← readU8 w "replica identity"
  let numColumns ← readU16 w "relation column count"
  let columns ← Machine.times numColumns.toNat (parseRelationColumn w)
  return { id, «namespace», name, columns }

def parseText (w : Usize) : Read Value := do
  let len ← readI32 w "tuple column length"
  if len < 0 then
    Machine.fail (.truncated "tuple column bytes")
  else
    let len ← Machine.cast len.toInt
    let bytes ← readBytes w len "tuple column bytes"
    match Utf8.decode? bytes with
    | none => Machine.fail (.invalidUtf8 "tuple column")
    | some value => return .text value

def parseTupleColumn (w : Usize) : Read Value := do
  let kind ← readU8 w "tuple column kind"
  if kind = tag 'n' then return .null
  else if kind = tag 'u' then return .null
  else if kind = tag 't' ∨ kind = tag 'b' then parseText w
  else Machine.fail (.unsupportedTupleKind kind)

def parseTuple (w : Usize) : Read (List Value) := do
  let numColumns ← readU16 w "tuple column count"
  Machine.times numColumns.toNat (parseTupleColumn w)

def parseInsert (w : Usize) : Read PgOutputMessage := do
  let relationId ← readU32 w "insert relation id"
  let kind ← readU8 w "insert tuple kind"
  if kind ≠ tag 'N' then
    Machine.fail (.unknownMessageTag kind)
  else
    let newValues ← parseTuple w
    return .insert relationId newValues

/-- One pass of the loop of `parse_update`. -/
def parseUpdateRound (w : Usize) (oldValues : Option (List Value)) :
    Read (Option (List Value) ⊕ (Option (List Value) × List Value)) := do
  let kind ← readU8 w "update tuple kind"
  if kind = tag 'K' ∨ kind = tag 'O' then
    let values ← parseTuple w
    return .inl (some values)
  else if kind = tag 'N' then
    let newValues ← parseTuple w
    return .inr (oldValues, newValues)
  else
    Machine.fail (.unknownMessageTag kind)

def parseUpdate (w : Usize) (fuel : Nat) : Read PgOutputMessage := do
  let relationId ← readU32 w "update relation id"
  let (oldValues, newValues) ← Machine.loop (parseUpdateRound w) fuel none
  return .update relationId oldValues newValues

def parseDelete (w : Usize) : Read PgOutputMessage := do
  let relationId ← readU32 w "delete relation id"
  let kind ← readU8 w "delete tuple kind"
  if kind = tag 'K' ∨ kind = tag 'O' then
    let oldValues ← parseTuple w
    return .delete relationId oldValues
  else
    Machine.fail (.unknownMessageTag kind)

/-- One pass of the loop of `parse_pgoutput_messages`. -/
def parseMessage (w : Usize) (fuel : Nat) : Read PgOutputMessage := do
  let messageTag ← readU8 w "message tag"
  if messageTag = tag 'R' then
    let relation ← parseRelation w
    return .relation relation
  else if messageTag = tag 'I' then parseInsert w
  else if messageTag = tag 'U' then parseUpdate w fuel
  else if messageTag = tag 'D' then parseDelete w
  else Machine.fail (.unknownMessageTag messageTag)

/-- Each loop may go round `fuel` times. -/
def parsePgoutputMessages (w : Usize) (fuel : Nat) (data : List UInt8) :
    Except (Stop PgOutputError) (List PgOutputMessage) :=
  Prod.fst <$> (Machine.loop (Machine.untilEndBody (parseMessage w fuel)) fuel []).run ⟨data, 0⟩

/-! ### Nothing goes wrong in the reader -/

/-- The machine reads what the reader reads, whatever fits into memory. -/
abbrev Safe {α : Type} (w : Usize) (m : Read α) (p : ByteReader.Read α) : Prop :=
  Simulates w.isizeMax m p

variable {w : Usize}

theorem fits {a b : Nat} (ha : a ≤ w.isizeMax) (hb : b ≤ w.isizeMax) : a + b < 2 ^ w.bits := by
  cases w with
  | bits32 =>
    simp only [Usize.isizeMax, Usize.bits] at ha hb ⊢
    omega
  | bits64 =>
    simp only [Usize.isizeMax, Usize.bits] at ha hb ⊢
    omega

/-- A length that an `i32` can hold is no more than `isize::MAX`. -/
theorem le_isizeMax {len : Nat} (h : len < 2 ^ 31) : len ≤ w.isizeMax := by
  cases w with
  | bits32 =>
    simp only [Usize.isizeMax, Usize.bits]
    omega
  | bits64 =>
    simp only [Usize.isizeMax, Usize.bits]
    omega

theorem readBytes_safe {len : Nat} (hlen : len < 2 ^ 31) (ctx : String) :
    Safe w (readBytes w len ctx) (ByteReader.readBytes len ctx) where
  run := by
    intro c hc
    have hpos := c.pos_le
    have hadd : (Machine.add w.bits c.pos len : Read Nat) = pure (c.pos + len) :=
      Machine.add_eq_pure (fits (Nat.le_trans hpos hc) (le_isizeMax hlen))
    have hmachine : (readBytes w len ctx).run c.raw = (do
        let stop ← Machine.add w.bits c.pos len
        if stop > c.data.length then Machine.fail (.truncated ctx)
        else
          let stop ← Machine.add w.bits c.pos len
          let bytes ← Machine.slice c.data c.pos stop
          let pos ← Machine.add w.bits c.pos len
          Machine.setPos pos
          return bytes : Read (List UInt8)).run c.raw := rfl
    have hmodel : (ByteReader.readBytes len ctx).run c = if h : c.pos + len > c.data.length then
        .error (.truncated ctx)
      else .ok (c.rest.take len, c.advance len (Nat.le_of_not_lt h)) := rfl
    rw [hmachine, hmodel, hadd, pure_bind]
    split_ifs with hend
    · rfl
    · have hstop : c.pos + len ≤ c.data.length := Nat.le_of_not_lt hend
      rw [pure_bind, Machine.slice_eq_pure (Nat.le_add_right _ _) hstop, pure_bind, pure_bind,
        StateT.run_bind, Machine.setPos_run (c := c.raw) hstop, Nat.add_sub_cancel_left]
      rfl
  data := by
    intro c a c' h
    obtain ⟨_, -, he⟩ := (readBytes_reads len ctx c a c').1 h
    exact he.data

theorem length_of_returns {len : Nat} {ctx : String} {bytes : List UInt8}
    (h : Returns (ByteReader.readBytes len ctx) bytes) : bytes.length = len := by
  obtain ⟨c, c', hr⟩ := h
  obtain ⟨_, ⟨hl, rfl⟩, -⟩ := (readBytes_reads len ctx c bytes c').1 hr
  exact hl

theorem readU8_safe (ctx : String) : Safe w (readU8 w ctx) (ByteReader.readU8 ctx) := by
  refine (readBytes_safe (by omega) ctx).bind fun bytes h => ?_
  obtain ⟨b, rfl⟩ := List.length_eq_one_iff.1 (length_of_returns h)
  exact .pure b

theorem readU16_safe (ctx : String) : Safe w (readU16 w ctx) (ByteReader.readU16 ctx) := by
  refine (readBytes_safe (by omega) ctx).bind fun bytes h => ?_
  obtain ⟨b0, b1, rfl⟩ := List.length_eq_two.1 (length_of_returns h)
  exact .pure _

theorem readWord_safe {α : Type} (ctx : String) (f : Nat → α) :
    Safe w (do
        let bytes ← readBytes w 4 ctx
        let b0 ← Machine.index bytes 0
        let b1 ← Machine.index bytes 1
        let b2 ← Machine.index bytes 2
        let b3 ← Machine.index bytes 3
        return f (BigEndian.ofBytes [b0, b1, b2, b3]))
      (do let bytes ← ByteReader.readBytes 4 ctx; return f (BigEndian.ofBytes bytes)) := by
  refine (readBytes_safe (by omega) ctx).bind fun bytes h => ?_
  have hlength := length_of_returns h
  match bytes, hlength with
  | [b0, b1, b2, b3], _ => exact .pure _

theorem readU32_safe (ctx : String) : Safe w (readU32 w ctx) (ByteReader.readU32 ctx) :=
  readWord_safe ctx UInt32.ofNat

theorem readI32_safe (ctx : String) : Safe w (readI32 w ctx) (ByteReader.readI32 ctx) :=
  readWord_safe ctx fun n => (UInt32.ofNat n).toInt32

section CString
variable {reader : ByteReader} {ctx : String} {len : Nat}

theorem readCString_of_none (h : reader.rest.findIdx? (· == 0) = none) :
    (ByteReader.readCString ctx).run reader = .error (.truncated ctx) := by
  unfold ByteReader.readCString
  rw [StateT.run]
  split
  · rfl
  · next h' => exact absurd (h.symm.trans h') (by simp)

theorem readCString_of_some (h : reader.rest.findIdx? (· == 0) = some len) :
    (ByteReader.readCString ctx).run reader =
      match Utf8.decode? (reader.rest.take len) with
      | none => .error (.invalidUtf8 ctx)
      | some s => .ok (s, reader.advance (len + 1) (nul_lt h)) := by
  unfold ByteReader.readCString
  rw [StateT.run]
  split
  · next h' => exact absurd (h.symm.trans h') (by simp)
  · next len' h' =>
    obtain rfl := Option.some.inj (h.symm.trans h')
    rfl

end CString

theorem readCString_safe (ctx : String) : Safe w (readCString w ctx) (ByteReader.readCString ctx) where
  run := by
    intro c hc
    have hpos := c.pos_le
    have hahead : (Machine.slice c.data c.pos c.data.length : Read (List UInt8)) = pure c.rest := by
      have hall : (c.data.drop c.pos).take (c.data.length - c.pos) = c.rest :=
        List.take_of_length_le (by simp)
      rw [Machine.slice_eq_pure hpos (Nat.le_refl _), hall]
    have hmachine : (readCString w ctx).run c.raw = (do
        let ahead ← Machine.slice c.data c.pos c.data.length
        match ahead.findIdx? (· == 0) with
        | none => Machine.fail (.truncated ctx)
        | some len =>
          let stop ← Machine.add w.bits c.pos len
          let bytes ← Machine.slice c.data c.pos stop
          let pos ← Machine.add w.bits stop 1
          Machine.setPos pos
          match Utf8.decode? bytes with
          | none => Machine.fail (.invalidUtf8 ctx)
          | some s => return s : Read String).run c.raw := rfl
    rw [hmachine, hahead, pure_bind]
    cases hnul : c.rest.findIdx? (· == 0) with
    | none =>
      rw [readCString_of_none hnul]
      rfl
    | some len =>
      have hle := nul_lt hnul
      have hstop : c.pos + len ≤ c.data.length := by omega
      have hadd : (Machine.add w.bits c.pos len : Read Nat) = pure (c.pos + len) :=
        Machine.add_eq_pure (fits (by omega) (by omega))
      have hbehind : (Machine.add w.bits (c.pos + len) 1 : Read Nat) = pure (c.pos + len + 1) :=
        Machine.add_eq_pure (fits (by omega) (by omega))
      have hbytes : (Machine.slice c.data c.pos (c.pos + len) : Read (List UInt8)) = pure (c.rest.take len) := by
        rw [Machine.slice_eq_pure (Nat.le_add_right _ _) hstop, Nat.add_sub_cancel_left]
        rfl
      have hmove : (Machine.setPos (c.pos + len + 1) : Read Unit).run c.raw =
          .ok ((), (c.advance (len + 1) hle).raw) := Machine.setPos_run hle
      simp only [hadd, pure_bind, hbytes, hbehind]
      rw [StateT.run_bind, hmove, readCString_of_some hnul]
      cases Utf8.decode? (c.rest.take len) <;> rfl
  data := by
    intro c a c' h
    obtain ⟨_, -, he⟩ := (readCString_reads ctx c a c').1 h
    exact he.data

/-! ### Nothing goes wrong in the parser -/

theorem parseRelationColumn_safe : Safe w (parseRelationColumn w) MiniGraph.parseRelationColumn :=
  (readU8_safe _).bind fun _ _ => (readCString_safe _).bind fun _ _ => (readU32_safe _).bind fun _ _ =>
    (readI32_safe _).bind fun _ _ => .pure _

theorem parseRelation_safe : Safe w (parseRelation w) MiniGraph.parseRelation :=
  (readU32_safe _).bind fun _ _ => (readCString_safe _).bind fun _ _ => (readCString_safe _).bind fun _ _ =>
    (readU8_safe _).bind fun _ _ => (readU16_safe _).bind fun numColumns _ =>
      (parseRelationColumn_safe.times numColumns.toNat).bind fun _ _ => .pure _

/-- A negative length is refused before it is cast, and any other is one that fits. -/
theorem parseText_safe : Safe w (parseText w) MiniGraph.parseText := by
  refine (readI32_safe _).bind fun len _ => .ite (fun _ => .fail _) fun hlen => ?_
  have h0 : 0 ≤ len.toInt := Int32.le_iff_toInt_le.1 (Int32.not_lt.1 hlen)
  have hlt : len.toInt.toNat < 2 ^ 31 := len.toNatClampNeg_lt
  rw [Machine.cast_eq_pure h0, pure_bind]
  refine (readBytes_safe hlt _).bind fun bytes _ => ?_
  cases Utf8.decode? bytes with
  | none => exact .fail _
  | some value => exact .pure _

theorem parseTupleColumn_safe : Safe w (parseTupleColumn w) MiniGraph.parseTupleColumn :=
  (readU8_safe _).bind fun _ _ => .ite (fun _ => .pure _) fun _ => .ite (fun _ => .pure _) fun _ =>
    .ite (fun _ => parseText_safe) fun _ => .fail _

theorem parseTuple_safe : Safe w (parseTuple w) MiniGraph.parseTuple :=
  (readU16_safe _).bind fun numColumns _ => parseTupleColumn_safe.times numColumns.toNat

theorem parseInsert_safe : Safe w (parseInsert w) MiniGraph.parseInsert :=
  (readU32_safe _).bind fun _ _ => (readU8_safe _).bind fun _ _ => .ite (fun _ => .fail _) fun _ =>
    parseTuple_safe.bind fun _ _ => .pure _

theorem parseUpdateRound_safe (oldValues : Option (List Value)) :
    Safe w (parseUpdateRound w oldValues) (MiniGraph.parseUpdateRound oldValues) :=
  (readU8_safe _).bind fun _ _ => .ite (fun _ => parseTuple_safe.bind fun _ _ => .pure _) fun _ =>
    .ite (fun _ => parseTuple_safe.bind fun _ _ => .pure _) fun _ => .fail _

theorem parseDelete_safe : Safe w (parseDelete w) MiniGraph.parseDelete :=
  (readU32_safe _).bind fun _ _ => (readU8_safe _).bind fun _ _ =>
    .ite (fun _ => parseTuple_safe.bind fun _ _ => .pure _) fun _ => .fail _

/-! With a round for every byte and one to spare, the loops end. -/

variable {bound fuel : Nat}

theorem parseUpdate_safe (hbound : bound ≤ w.isizeMax) (hfuel : bound < fuel) :
    Simulates bound (parseUpdate w fuel) MiniGraph.parseUpdate :=
  (readU32_safe _).mono hbound |>.bind fun _ _ =>
    (Simulates.loop (fun oldValues => (parseUpdateRound_safe oldValues).mono hbound) hfuel none).bind fun _ _ =>
      .pure _

theorem parseMessage_safe (hbound : bound ≤ w.isizeMax) (hfuel : bound < fuel) :
    Simulates bound (parseMessage w fuel) MiniGraph.parseMessage :=
  (readU8_safe _).mono hbound |>.bind fun _ _ =>
    .ite (fun _ => (parseRelation_safe.bind fun _ _ => .pure _).mono hbound) fun _ =>
      .ite (fun _ => parseInsert_safe.mono hbound) fun _ => .ite (fun _ => parseUpdate_safe hbound hfuel) fun _ =>
        .ite (fun _ => parseDelete_safe.mono hbound) fun _ => .fail _

/-- **The machine parses** what the parser parses, and ends with its result. -/
theorem parsePgoutputMessages_run {data : List UInt8} (hdata : data.length ≤ w.isizeMax)
    (hfuel : data.length < fuel) : parsePgoutputMessages w fuel data =
      (MiniGraph.parsePgoutputMessages data).mapError Stop.error := by
  have hrun := ((parseMessage_safe hdata hfuel).untilEnd parseMessage_shrinks hfuel).run (.start data)
    (Nat.le_refl _)
  have hstart : (Cursor.start data).raw = ⟨data, 0⟩ := rfl
  unfold parsePgoutputMessages MiniGraph.parsePgoutputMessages ByteReader.new
  rw [← hstart, hrun]
  cases (untilEnd MiniGraph.parseMessage parseMessage_shrinks).run (.start data) <;> rfl

/-! ### Every round moves forward -/

theorem parseUpdateRound_shrinks (oldValues : Option (List Value)) :
    Shrinks (MiniGraph.parseUpdateRound oldValues) :=
  (readU8_shrinks _).bind fun _ => .ite (parseTuple_keeps.bind fun _ => .pure _) <|
    .ite (parseTuple_keeps.bind fun _ => .pure _) (.throw _)

theorem parseUpdateRound_advances (oldValues : Option (List Value)) {c : RawCursor UInt8}
    (hpos : c.pos ≤ c.data.length) (hdata : c.data.length ≤ w.isizeMax) :
    (parseUpdateRound w oldValues).Advances c :=
  (parseUpdateRound_safe oldValues).advances (parseUpdateRound_shrinks oldValues) hpos hdata

theorem parseMessage_advances {c : RawCursor UInt8} (hpos : c.pos ≤ c.data.length)
    (hdata : c.data.length ≤ w.isizeMax) (hfuel : c.data.length < fuel) : (parseMessage w fuel).Advances c :=
  (parseMessage_safe hdata hfuel).advances parseMessage_shrinks hpos (Nat.le_refl _)

end Raw
end MiniGraph
