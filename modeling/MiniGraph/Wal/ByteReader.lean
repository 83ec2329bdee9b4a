import MiniGraph.Lib.Bytes
import MiniGraph.Lib.Cursor

/-!
# The byte reader (`src/wal/byte_reader.rs`)

A cursor over one payload with big-endian integers and NUL-terminated strings. Each read carries the
text of what it reads; that text is the context of a truncation or UTF-8 error.
-/

namespace MiniGraph
open Lib

/-- `PgOutputError` of `src/wal/pgoutput.rs`. -/
inductive PgOutputError where
  | truncated (ctx : String)
  | invalidUtf8 (ctx : String)
  | unsupportedTupleKind (kind : UInt8)
  | unknownMessageTag (tag : UInt8)
deriving DecidableEq, Repr

/-- The fields `data` and `pos`; `pos` never passes the end of `data`. -/
abbrev ByteReader := Cursor UInt8

namespace ByteReader

/-- `fn (&mut ByteReader) -> Result<α, PgOutputError>` -/
abbrev Read := Reader UInt8 PgOutputError

/-- The byte literal `b'c'`. -/
def tag (c : Char) : UInt8 := UInt8.ofNat c.toNat

def new (data : List UInt8) : ByteReader := Cursor.start data

def readBytes (len : Nat) (ctx : String) : Read (List UInt8) := fun reader =>
  if h : reader.pos + len > reader.data.length then
    .error (.truncated ctx)
  else
    .ok (reader.rest.take len, reader.advance len (Nat.le_of_not_lt h))

def readU8 (ctx : String) : Read UInt8 := do
  let bytes ← readBytes 1 ctx
  return bytes[0]!

def readU16 (ctx : String) : Read UInt16 := do
  let bytes ← readBytes 2 ctx
  return UInt16.ofNat (BigEndian.ofBytes bytes)

def readU32 (ctx : String) : Read UInt32 := do
  let bytes ← readBytes 4 ctx
  return UInt32.ofNat (BigEndian.ofBytes bytes)

def readI32 (ctx : String) : Read Int32 := do
  let bytes ← readBytes 4 ctx
  return (UInt32.ofNat (BigEndian.ofBytes bytes)).toInt32

theorem nul_lt {reader : ByteReader} {len : Nat} (h : reader.rest.findIdx? (· == 0) = some len) :
    reader.pos + (len + 1) ≤ reader.data.length := by
  obtain ⟨hl, -⟩ := List.findIdx?_eq_some_iff_getElem.1 h
  rw [Cursor.length_rest] at hl
  omega

def readCString (ctx : String) : Read String := fun reader =>
  match h : reader.rest.findIdx? (· == 0) with
  | none => .error (.truncated ctx)
  | some len =>
    match Utf8.decode? (reader.rest.take len) with
    | none => .error (.invalidUtf8 ctx)
    | some s => .ok (s, reader.advance (len + 1) (nul_lt h)) -- behind the NUL

/-! ### What the reads accept -/

theorem readBytes_reads (len : Nat) (ctx : String) :
    Reads (readBytes len ctx) fun bs xs => xs.length = len ∧ bs = xs := by
  intro c bs c'
  show (if h : c.pos + len > c.data.length then _ else _) = _ ↔ _
  split
  · next h =>
    simp only [reduceCtorEq, false_iff]
    rintro ⟨xs, ⟨hl, rfl⟩, he⟩
    have hc' := c'.pos_le
    rw [he.pos, he.data] at hc'
    omega
  · next h =>
    have hn : c.pos + len ≤ c.data.length := Nat.le_of_not_lt h
    have he := Cursor.Eats.advance len hn
    have hl : (c.rest.take len).length = len := by
      rw [List.length_take, Cursor.length_rest]; omega
    constructor
    · intro hr
      obtain ⟨rfl, rfl⟩ := Prod.mk.inj (Except.ok.inj hr)
      exact ⟨_, ⟨hl, rfl⟩, he⟩
    · rintro ⟨xs, ⟨hl', rfl⟩, he'⟩
      have hxs : bs = c.rest.take len := by rw [he'.rest, ← hl', List.take_left]
      subst hxs
      rw [he.cursor_unique he']

theorem readU8_reads (ctx : String) : Reads (readU8 ctx) fun b xs => xs = [b] := by
  refine ((readBytes_reads 1 ctx).bind fun bs => Reads.pure bs[0]!).congr fun b xs => ?_
  constructor
  · rintro ⟨bs, xs, _, ⟨hl, rfl⟩, ⟨rfl, rfl⟩, rfl⟩
    obtain ⟨b, rfl⟩ := List.length_eq_one_iff.1 hl
    rfl
  · rintro rfl
    exact ⟨[b], [b], [], ⟨rfl, rfl⟩, ⟨rfl, rfl⟩, rfl⟩

theorem readU8_shrinks (ctx : String) : Shrinks (readU8 ctx) :=
  (readU8_reads ctx).shrinks fun _ _ h => by simp [h]

/-- A fixed-width integer read as `len` big-endian bytes. -/
theorem readInt_reads {α : Type} {len : Nat} (ctx : String) {f : Nat → α} {toNat : α → Nat}
    (hf : ∀ a, f (toNat a) = a) (hlt : ∀ a, toNat a < 256 ^ len) (hg : ∀ n < 256 ^ len, toNat (f n) = n) :
    Reads (do let bytes ← readBytes len ctx; return f (BigEndian.ofBytes bytes))
      fun a xs => xs = BigEndian.toBytes len (toNat a) := by
  refine ((readBytes_reads len ctx).bind fun bs => Reads.pure (f (BigEndian.ofBytes bs))).congr
    fun a xs => ?_
  constructor
  · rintro ⟨bs, xs, _, ⟨rfl, rfl⟩, ⟨rfl, rfl⟩, rfl⟩
    rw [List.append_nil, hg _ (BigEndian.ofBytes_lt bs), BigEndian.toBytes_ofBytes]
  · rintro rfl
    refine ⟨_, _, [], ⟨BigEndian.length_toBytes .., rfl⟩, ⟨?_, rfl⟩, (List.append_nil _).symm⟩
    rw [BigEndian.ofBytes_toBytes, Nat.mod_eq_of_lt (hlt a), hf]

theorem readU16_reads (ctx : String) :
    Reads (readU16 ctx) fun n xs => xs = BigEndian.toBytes 2 n.toNat :=
  readInt_reads ctx (fun _ => UInt16.ofNat_toNat) (fun n => n.toNat_lt)
    fun _ h => UInt16.toNat_ofNat_of_lt' h

theorem readU32_reads (ctx : String) :
    Reads (readU32 ctx) fun n xs => xs = BigEndian.toBytes 4 n.toNat :=
  readInt_reads ctx (fun _ => UInt32.ofNat_toNat) (fun n => n.toNat_lt)
    fun _ h => UInt32.toNat_ofNat_of_lt' h

theorem readI32_reads (ctx : String) :
    Reads (readI32 ctx) fun n xs => xs = BigEndian.toBytes 4 n.toUInt32.toNat :=
  readInt_reads ctx (f := fun n => (UInt32.ofNat n).toInt32)
    (fun n => by rw [UInt32.ofNat_toNat]; rfl) (fun n => n.toUInt32.toNat_lt)
    fun _ h => UInt32.toNat_ofNat_of_lt' h

theorem findIdx?_nul {name : List UInt8} (rest : List UInt8) (h : 0 ∉ name) :
    (name ++ 0 :: rest).findIdx? (· == 0) = some name.length := by
  rw [List.findIdx?_append, List.findIdx?_eq_none_iff.2 fun b hb => by
    simpa using fun hb0 : b = 0 => h (hb0 ▸ hb)]
  simp [List.findIdx?_cons]

theorem readCString_reads (ctx : String) :
    Reads (readCString ctx) fun s xs => 0 ∉ Utf8.encode s ∧ xs = Utf8.encode s ++ [0] := by
  intro c s c'
  show (match h : c.rest.findIdx? (· == 0) with | none => _ | some len => _) = _ ↔ _
  constructor
  · intro hr
    split at hr
    · cases hr
    · next len h =>
      split at hr
      · cases hr
      · next s' hs =>
        obtain ⟨rfl, rfl⟩ := Prod.mk.inj (Except.ok.inj hr)
        have hs := Utf8.decode?_eq_some.1 hs
        obtain ⟨hl, h0, hlt⟩ := List.findIdx?_eq_some_iff_getElem.1 h
        have he := Cursor.Eats.advance (len + 1) (nul_lt h)
        rw [List.take_add_one, ← hs, List.getElem?_eq_getElem hl, beq_iff_eq.1 h0] at he
        refine ⟨_, ⟨?_, rfl⟩, he⟩
        rw [hs]
        intro hmem
        obtain ⟨i, hi, hi0⟩ := List.getElem_of_mem hmem
        rw [List.getElem_take] at hi0
        exact hlt i (by simp at hi; omega) (by simp [hi0])
  · rintro ⟨_, ⟨h0, rfl⟩, he⟩
    have hr : c.rest = Utf8.encode s ++ 0 :: c'.rest := by rw [he.rest]; simp
    have hf := findIdx?_nul c'.rest h0
    rw [← hr] at hf
    have ht : c.rest.take (Utf8.encode s).length = Utf8.encode s := by rw [hr, List.take_left]
    split
    · next h => rw [hf] at h; cases h
    · next len h =>
      obtain rfl := Option.some.inj (hf.symm.trans h)
      rw [ht, Utf8.decode?_eq_some.2 rfl]
      have he' := Cursor.Eats.advance _ (nul_lt h)
      have hn : c.rest.take ((Utf8.encode s).length + 1) = Utf8.encode s ++ [0] := by
        rw [hr, List.take_length_add_append]; simp
      rw [hn] at he'
      rw [he'.cursor_unique he]

end ByteReader
end MiniGraph
