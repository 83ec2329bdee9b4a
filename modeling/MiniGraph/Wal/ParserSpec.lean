import MiniGraph.Wal.WireFormat

/-!
# What the parser accepts

`Reads` lemmas for every parser of `PgOutput`, up to `parseMessage_reads`: a message is read exactly
from the encodings of the valid `LaxMessage`s. From it follow the round trip over the whole format
(`parse_encodeMessages`) and, in both directions, what the parser accepts: a list of encoded
messages, where an update may have several old tuples.
-/

namespace MiniGraph
open Lib ByteReader

/-! ### Tuples -/

theorem decodeText_reads (bytes : List UInt8) :
    Reads (match Utf8.decode? bytes with
      | none => throw (.invalidUtf8 "tuple column")
      | some value => return .text value : Read Value)
      fun v xs => (∃ s, Utf8.encode s = bytes ∧ v = .text s) ∧ xs = [] := by
  cases h : Utf8.decode? bytes with
  | none =>
    refine (Reads.throw _).congr fun v xs => ⟨False.elim, ?_⟩
    rintro ⟨⟨s, hs, -⟩, -⟩
    rw [Utf8.decode?_eq_some.2 hs] at h
    cases h
  | some s =>
    refine (Reads.pure _).congr fun v xs => and_congr_left' ⟨fun hv => ⟨s, Utf8.decode?_eq_some.1 h, hv⟩, ?_⟩
    rintro ⟨s', hs, rfl⟩
    rw [Utf8.decode?_eq_some.2 hs] at h
    rw [Option.some.inj h]

theorem toNat_toUInt32_ofNat {n : Nat} (h : n < 2 ^ 31) :
    (Int32.ofNat n).toUInt32.toNat = n ∧ ¬ Int32.ofNat n < 0 ∧ (Int32.ofNat n).toInt.toNat = n := by
  have hi := Int32.toInt_ofNat_of_lt h
  have h0 : ¬ Int32.ofNat n < 0 := by
    rw [Int32.lt_iff_toInt_lt, hi]
    show ¬ (n : Int) < 0
    omega
  refine ⟨?_, h0, by rw [hi]; rfl⟩
  rw [Int32.toNat_toUInt32_of_le (Int32.not_lt.1 h0), Int32.toNatClampNeg_ofNat_of_lt h]

theorem parseText_reads :
    Reads parseText fun v xs => ∃ s, v = .text s ∧ (Utf8.encode s).length < 2 ^ 31 ∧
      xs = BigEndian.toBytes 4 (Utf8.encode s).length ++ Utf8.encode s := by
  refine ((readI32_reads _).bind fun len => (Reads.throw _).ite <|
    (readBytes_reads _ _).bind fun bytes => decodeText_reads bytes).congr fun v xs => ?_
  constructor
  · rintro ⟨len, _, ys, rfl, h, rfl⟩
    split at h
    · exact h.elim
    · next hlen =>
      have hle := Int32.not_lt.1 hlen
      obtain ⟨_, _, _, ⟨hl, rfl⟩, ⟨⟨s, rfl, rfl⟩, rfl⟩, rfl⟩ := h
      have hn : len.toUInt32.toNat = (Utf8.encode s).length := by
        rw [Int32.toNat_toUInt32_of_le hle, hl]; rfl
      refine ⟨s, rfl, ?_, by rw [hn, List.append_nil]⟩
      rw [hl]
      exact len.toNatClampNeg_lt
  · rintro ⟨s, rfl, hs, rfl⟩
    obtain ⟨hu, h0, hi⟩ := toNat_toUInt32_ofNat hs
    refine ⟨Int32.ofNat (Utf8.encode s).length, _, Utf8.encode s, rfl, ?_, by rw [hu]⟩
    simp only [h0, ↓reduceIte]
    exact ⟨_, _, [], ⟨hi.symm, rfl⟩, ⟨⟨s, rfl, rfl⟩, rfl⟩, by simp⟩

theorem parseTupleColumn_reads :
    Reads parseTupleColumn
      (Format.coded (fun w => w.value.Encodable) WireValue.encode WireValue.value) := by
  refine ((readU8_reads _).bind fun kind => (Reads.pure _).ite <| (Reads.pure _).ite <|
    parseText_reads.ite (Reads.throw _)).congr fun v xs => ?_
  constructor
  · rintro ⟨kind, _, ys, rfl, h, rfl⟩
    split at h
    · next hk => obtain ⟨rfl, rfl⟩ := h; exact ⟨.null .n, trivial, rfl, by rw [hk]; rfl⟩
    split at h
    · next hk => obtain ⟨rfl, rfl⟩ := h; exact ⟨.null .u, trivial, rfl, by rw [hk]; rfl⟩
    split at h
    · next hk =>
      obtain ⟨s, rfl, hs, rfl⟩ := h
      rcases hk with rfl | rfl
      · exact ⟨.text .t s, hs, rfl, rfl⟩
      · exact ⟨.text .b s, hs, rfl, rfl⟩
    · exact h.elim
  · rintro ⟨w, hw, rfl, rfl⟩
    have hun : tag 'u' ≠ tag 'n' := by decide
    have htn : tag 't' ≠ tag 'n' := by decide
    have htu : tag 't' ≠ tag 'u' := by decide
    have hbn : tag 'b' ≠ tag 'n' := by decide
    have hbu : tag 'b' ≠ tag 'u' := by decide
    rcases w with (_ | _) | ⟨_ | _, s⟩
    · exact ⟨tag 'n', _, [], rfl, by simp only [↓reduceIte]; exact ⟨rfl, rfl⟩, rfl⟩
    · exact ⟨tag 'u', _, [], rfl, by simp only [hun, ↓reduceIte]; exact ⟨rfl, rfl⟩, rfl⟩
    · refine ⟨tag 't', _, _, rfl, ?_, rfl⟩
      simp only [htn, htu, true_or, ↓reduceIte]
      exact ⟨s, rfl, hw, rfl⟩
    · refine ⟨tag 'b', _, _, rfl, ?_, rfl⟩
      simp only [hbn, hbu, or_true, ↓reduceIte]
      exact ⟨s, rfl, hw, rfl⟩

theorem toNat_ofNat_u16 {n : Nat} (h : n < 2 ^ 16) : (UInt16.ofNat n).toNat = n :=
  UInt16.toNat_ofNat_of_lt' h

/-- A `u16` count and as many items. -/
theorem counted_reads {α γ : Type} {item : Read α} {P : γ → Prop} {enc : γ → List UInt8} {dec : γ → α}
    (h : Reads item (Format.coded P enc dec)) (ctx : String) :
    Reads (do let n ← readU16 ctx; times n.toNat item)
      (Format.coded (fun ws => ws.length < 2 ^ 16 ∧ ∀ w ∈ ws, P w)
        (fun ws => encodeU16 ws.length ++ ws.flatMap enc) (List.map dec)) := by
  refine ((readU16_reads ctx).bind fun n => h.times n.toNat).congr fun as xs => ?_
  constructor
  · rintro ⟨n, _, ys, rfl, ⟨hl, hE⟩, rfl⟩
    obtain ⟨ws, hP, rfl, rfl⟩ := Format.each_coded.1 hE
    rw [List.length_map] at hl
    exact ⟨ws, ⟨hl ▸ n.toNat_lt, hP⟩, rfl, by rw [← hl]; rfl⟩
  · rintro ⟨ws, ⟨hl, hP⟩, rfl, rfl⟩
    have hn := toNat_ofNat_u16 hl
    exact ⟨UInt16.ofNat ws.length, _, _, rfl,
      ⟨by rw [hn, List.length_map], Format.each_coded.2 ⟨ws, hP, rfl, rfl⟩⟩, by rw [hn]; rfl⟩

theorem parseTuple_reads :
    Reads parseTuple (Format.coded (fun ws => TupleEncodable (ws.map WireValue.value)) encodeTuple
      (List.map WireValue.value)) := by
  refine (counted_reads parseTupleColumn_reads _).congr fun vs xs => exists_congr fun ws =>
    and_congr_left' ?_
  simp [TupleEncodable]

/-! ### Relations -/

theorem parseRelationColumn_reads :
    Reads parseRelationColumn
      (Format.coded (fun column => NulFree column.name) WireColumn.encode WireColumn.name) := by
  refine ((readU8_reads _).bind fun flags => (readCString_reads _).bind fun name =>
    (readU32_reads _).bind fun oid => (readI32_reads _).bind fun modifier =>
      Reads.pure name).congr fun v xs => ?_
  constructor
  · rintro ⟨flags, _, _, rfl, ⟨name, _, _, ⟨h0, rfl⟩, ⟨oid, _, _, rfl, ⟨modifier, _, _, rfl,
      ⟨rfl, rfl⟩, rfl⟩, rfl⟩, rfl⟩, rfl⟩
    exact ⟨⟨flags, v, oid, modifier⟩, h0, rfl, by simp [WireColumn.encode, encodeCString, encodeU32, encodeI32]⟩
  · rintro ⟨⟨flags, name, oid, modifier⟩, h0, rfl, rfl⟩
    exact ⟨flags, _, _, rfl, ⟨name, _, _, ⟨h0, rfl⟩, ⟨oid, _, _, rfl, ⟨modifier, _, [], rfl,
      ⟨rfl, rfl⟩, rfl⟩, rfl⟩, rfl⟩, by simp [WireColumn.encode, encodeCString, encodeU32, encodeI32]⟩

theorem parseRelation_reads :
    Reads parseRelation fun rel xs => ∃ (replicaIdentity : UInt8) (columns : List WireColumn),
      PgOutputMessage.Encodable (.relation rel) ∧ columns.map WireColumn.name = rel.columns ∧
      xs = encodeU32 rel.id ++ (encodeCString rel.«namespace» ++ (encodeCString rel.name ++
        (replicaIdentity :: (encodeU16 columns.length ++ columns.flatMap WireColumn.encode)))) := by
  have hcols := counted_reads parseRelationColumn_reads "relation column count"
  have hp : parseRelation = readU32 "relation id" >>= fun id =>
      readCString "relation namespace" >>= fun ns => readCString "relation name" >>= fun name =>
      readU8 "replica identity" >>= fun _ =>
      (do let n ← readU16 "relation column count"; times n.toNat parseRelationColumn) >>= fun columns =>
      pure ⟨id, ns, name, columns⟩ := by
    simp only [parseRelation, bind_assoc]
  rw [hp]
  refine ((readU32_reads _).bind fun id => (readCString_reads _).bind fun ns =>
    (readCString_reads _).bind fun name => (readU8_reads _).bind fun _ => hcols.bind fun columns =>
      Reads.pure _).congr fun rel xs => ?_
  constructor
  · rintro ⟨id, _, _, rfl, ⟨ns, _, _, ⟨hns, rfl⟩, ⟨name, _, _, ⟨hname, rfl⟩, ⟨replicaIdentity, _, _, rfl,
      ⟨_, _, _, ⟨columns, ⟨hl, hcols⟩, rfl, rfl⟩, ⟨rfl, rfl⟩, rfl⟩, rfl⟩, rfl⟩, rfl⟩, rfl⟩
    exact ⟨replicaIdentity, columns, ⟨hns, hname, by simpa using hl, by simpa using hcols⟩, rfl, by
      simp [encodeCString, encodeU32]⟩
  · rintro ⟨replicaIdentity, columns, ⟨hns, hname, hl, hcols⟩, hrel, rfl⟩
    obtain ⟨id, ns, name, _⟩ := rel
    obtain rfl : columns.map WireColumn.name = _ := hrel
    refine .intro (a := id) rfl (.intro ⟨hns, rfl⟩ (.intro ⟨hname, rfl⟩ ?_))
    refine Format.bind.cons rfl (Format.bind.map _ ?_)
    exact ⟨columns, ⟨by simpa using hl, by simpa using hcols⟩, rfl, rfl⟩

/-! ### Messages -/

/-- What follows the tag in the encoding of a message. -/
def Untagged (c : Char) : Format PgOutputMessage UInt8 := fun m xs =>
  ∃ w : LaxMessage, w.Valid ∧ w.message = m ∧ w.encode = tag c :: xs

theorem parseRelationMessage_reads :
    Reads (do let relation ← parseRelation; return .relation relation) (Untagged 'R') := by
  refine (parseRelation_reads.bind fun rel => Reads.pure (PgOutputMessage.relation rel)).congr
    fun m xs => ?_
  constructor
  · rintro ⟨⟨id, ns, name, _⟩, _, _, ⟨replicaIdentity, columns, henc, rfl, rfl⟩, ⟨rfl, rfl⟩, rfl⟩
    exact ⟨.standard (.relation id ns name replicaIdentity columns), henc, rfl, by
      rw [List.append_nil]; rfl⟩
  · rintro ⟨w, hw, rfl, he⟩
    rcases w with (⟨id, ns, name, replicaIdentity, columns⟩ | _ | _ | _) | _
    · obtain rfl := (List.cons.inj he).2
      exact Format.bind.map _ ⟨replicaIdentity, columns, hw, rfl, rfl⟩
    all_goals exact absurd (List.cons.inj he).1 (by decide)

theorem parseInsert_reads : Reads parseInsert (Untagged 'I') := by
  refine ((readU32_reads _).bind fun id => (readU8_reads _).bind fun kind => (Reads.throw _).ite <|
    parseTuple_reads.bind fun newValues => Reads.pure (PgOutputMessage.insert id newValues)).congr
    fun m xs => ?_
  constructor
  · rintro ⟨id, _, _, rfl, ⟨kind, _, _, rfl, h, rfl⟩, rfl⟩
    split at h
    · exact h.elim
    · next hk =>
      obtain ⟨_, _, _, ⟨new, hnew, rfl, rfl⟩, ⟨rfl, rfl⟩, rfl⟩ := h
      exact ⟨.standard (.insert id new), hnew, rfl, by rw [not_not.1 hk, List.append_nil]; rfl⟩
  · rintro ⟨w, hw, rfl, he⟩
    rcases w with (_ | ⟨id, new⟩ | _ | _) | _
    · exact absurd (List.cons.inj he).1 (by decide)
    · obtain rfl := (List.cons.inj he).2
      refine .intro (a := id) rfl (Format.bind.cons rfl ?_)
      simp only [ne_eq, not_true_eq_false, ↓reduceIte]
      exact Format.bind.map _ ⟨new, hw, rfl, rfl⟩
    all_goals exact absurd (List.cons.inj he).1 (by decide)

/-- One round of the update loop: an old tuple, or the new tuple that ends it. -/
def UpdateRound (oldValues : Option (List Value)) :
    Format (Option (List Value) ⊕ (Option (List Value) × List Value)) UInt8 := fun r xs =>
  (∃ old : OldTuple, TupleEncodable (old.values.map WireValue.value) ∧
    r = .inl (some (old.values.map WireValue.value)) ∧ xs = old.encode) ∨
  (∃ new : List WireValue, TupleEncodable (new.map WireValue.value) ∧
    r = .inr (oldValues, new.map WireValue.value) ∧ xs = tag 'N' :: encodeTuple new)

theorem byte_iff {kind : UInt8} : (kind = tag 'K' ∨ kind = tag 'O') ↔ ∃ k : OldKind, k.byte = kind := by
  constructor
  · rintro (rfl | rfl)
    exacts [⟨.K, rfl⟩, ⟨.O, rfl⟩]
  · rintro ⟨_ | _, rfl⟩
    exacts [.inl rfl, .inr rfl]

theorem OldKind.byte_ne_new (k : OldKind) : tag 'N' ≠ k.byte := by cases k <;> decide

theorem parseUpdateRound_reads (oldValues : Option (List Value)) :
    Reads (parseUpdateRound oldValues) (UpdateRound oldValues) := by
  refine ((readU8_reads _).bind fun kind => (parseTuple_reads.bind fun values =>
    Reads.pure (Sum.inl (some values))).ite <| (parseTuple_reads.bind fun newValues =>
      Reads.pure (Sum.inr (oldValues, newValues))).ite (Reads.throw _)).congr fun r xs => ?_
  constructor
  · rintro ⟨kind, _, _, rfl, h, rfl⟩
    split at h
    · next hk =>
      obtain ⟨k, rfl⟩ := byte_iff.1 hk
      obtain ⟨_, _, _, ⟨old, hold, rfl, rfl⟩, ⟨rfl, rfl⟩, rfl⟩ := h
      exact .inl ⟨⟨k, old⟩, hold, rfl, by rw [List.append_nil]; rfl⟩
    split at h
    · next hk =>
      obtain ⟨_, _, _, ⟨new, hnew, rfl, rfl⟩, ⟨rfl, rfl⟩, rfl⟩ := h
      exact .inr ⟨new, hnew, rfl, by rw [hk, List.append_nil]; rfl⟩
    · exact h.elim
  · rintro (⟨old, hold, rfl, rfl⟩ | ⟨new, hnew, rfl, rfl⟩)
    · refine Format.bind.cons rfl ?_
      simp only [byte_iff.2 ⟨old.kind, rfl⟩, ↓reduceIte]
      exact Format.bind.map _ ⟨old.values, hold, rfl, rfl⟩
    · have hN : ¬ (tag 'N' = tag 'K' ∨ tag 'N' = tag 'O') := by decide
      refine Format.bind.cons rfl ?_
      simp only [hN, ↓reduceIte]
      exact Format.bind.map _ ⟨new, hnew, rfl, rfl⟩

/-- The update loop reads any number of old tuples and keeps the values of the last. -/
theorem iter_updateRound {oldValues : Option (List Value)} {r : Option (List Value) × List Value}
    {xs : List UInt8} :
    Format.Iter UpdateRound oldValues r xs ↔ ∃ (olds : List OldTuple) (new : List WireValue),
      (∀ old ∈ olds, TupleEncodable (old.values.map WireValue.value)) ∧
      TupleEncodable (new.map WireValue.value) ∧
      r = (lastOldValues oldValues olds, new.map WireValue.value) ∧
      xs = olds.flatMap OldTuple.encode ++ (tag 'N' :: encodeTuple new) := by
  constructor
  · intro h
    induction h with
    | done h =>
      rcases h with ⟨_, _, h, _⟩ | ⟨new, hnew, h, rfl⟩
      · cases h
      · exact ⟨[], new, by simp, hnew, Sum.inr.inj h, rfl⟩
    | again h _ ih =>
      rcases h with ⟨old, hold, h, rfl⟩ | ⟨_, _, h, _⟩
      · obtain rfl := Sum.inl.inj h
        obtain ⟨olds, new, holds, hnew, rfl, rfl⟩ := ih
        exact ⟨old :: olds, new, by simpa using ⟨hold, holds⟩, hnew, rfl, by simp⟩
      · cases h
  · rintro ⟨olds, new, holds, hnew, rfl, rfl⟩
    induction olds generalizing oldValues with
    | nil => exact .done (.inr ⟨new, hnew, rfl, rfl⟩)
    | cons old olds ih =>
      rw [List.flatMap_cons, List.append_assoc]
      exact .again (.inl ⟨old, holds old (by simp), rfl, rfl⟩)
        (ih fun old' h => holds old' (by simp [h]))

theorem update_reads (id : UInt32) {olds : List OldTuple} {new : List WireValue}
    (holds : ∀ old ∈ olds, TupleEncodable (old.values.map WireValue.value))
    (hnew : TupleEncodable (new.map WireValue.value)) :
    Format.bind (Format.Iter UpdateRound none)
      (fun r => Format.pure (PgOutputMessage.update id r.1 r.2))
      (.update id (lastOldValues none olds) (new.map WireValue.value))
      (olds.flatMap OldTuple.encode ++ (tag 'N' :: encodeTuple new)) :=
  Format.bind.map (fun r => PgOutputMessage.update id r.1 r.2)
    (iter_updateRound.2 ⟨olds, new, holds, hnew, rfl, rfl⟩)

theorem parseUpdate_reads : Reads parseUpdate (Untagged 'U') := by
  refine ((readU32_reads _).bind fun id => (Reads.loop parseUpdateRound_reads).bind fun r =>
    Reads.pure (PgOutputMessage.update id r.1 r.2)).congr fun m xs => ?_
  constructor
  · rintro ⟨id, _, _, rfl, ⟨r, _, _, h, ⟨rfl, rfl⟩, rfl⟩, rfl⟩
    obtain ⟨olds, new, holds, hnew, rfl, rfl⟩ := iter_updateRound.1 h
    rw [List.append_nil]
    match olds, holds with
    | [], _ => exact ⟨.standard (.update id none new), ⟨by simp, hnew⟩, rfl, rfl⟩
    | [old], holds =>
      exact ⟨.standard (.update id (some old) new), ⟨by simpa using holds, hnew⟩, rfl, by
        simp [LaxMessage.encode, WireMessage.encode, encodeU32]⟩
    | first :: second :: more, holds =>
      exact ⟨.repeatedOld id first second more new, ⟨holds, hnew⟩, rfl, rfl⟩
  · rintro ⟨w, hw, rfl, he⟩
    rcases w with (_ | _ | ⟨id, old, new⟩ | _) | ⟨id, first, second, more, new⟩
    · exact absurd (List.cons.inj he).1 (by decide)
    · exact absurd (List.cons.inj he).1 (by decide)
    · obtain rfl := (List.cons.inj he).2
      have holds : ∀ o ∈ old.toList, TupleEncodable (o.values.map WireValue.value) := fun o ho =>
        hw.1 _ (Option.mem_map_of_mem _ (Option.mem_toList.1 ho))
      cases old <;> exact .intro (a := id) rfl (update_reads id holds hw.2)
    · exact absurd (List.cons.inj he).1 (by decide)
    · obtain rfl := (List.cons.inj he).2
      exact .intro (a := id) rfl (update_reads id hw.1 hw.2)

theorem parseDelete_reads : Reads parseDelete (Untagged 'D') := by
  refine ((readU32_reads _).bind fun id => (readU8_reads _).bind fun kind =>
    (parseTuple_reads.bind fun oldValues => Reads.pure (PgOutputMessage.delete id oldValues)).ite
      (Reads.throw _)).congr fun m xs => ?_
  constructor
  · rintro ⟨id, _, _, rfl, ⟨kind, _, _, rfl, h, rfl⟩, rfl⟩
    split at h
    · next hk =>
      obtain ⟨k, rfl⟩ := byte_iff.1 hk
      obtain ⟨_, _, _, ⟨old, hold, rfl, rfl⟩, ⟨rfl, rfl⟩, rfl⟩ := h
      exact ⟨.standard (.delete id ⟨k, old⟩), hold, rfl, by rw [List.append_nil]; rfl⟩
    · exact h.elim
  · rintro ⟨w, hw, rfl, he⟩
    rcases w with (_ | _ | _ | ⟨id, old⟩) | _
    · exact absurd (List.cons.inj he).1 (by decide)
    · exact absurd (List.cons.inj he).1 (by decide)
    · exact absurd (List.cons.inj he).1 (by decide)
    · obtain rfl := (List.cons.inj he).2
      refine .intro (a := id) rfl (Format.bind.cons rfl ?_)
      simp only [byte_iff.2 ⟨old.kind, rfl⟩, ↓reduceIte]
      exact Format.bind.map _ ⟨old.values, hw, rfl, rfl⟩
    · exact absurd (List.cons.inj he).1 (by decide)

theorem LaxMessage.encode_tagged (w : LaxMessage) :
    ∃ c ∈ ['R', 'I', 'U', 'D'], ∃ xs, w.encode = tag c :: xs := by
  rcases w with (_ | _ | _ | _) | _ <;> exact ⟨_, by decide, _, rfl⟩

/-- **The parser's message format.** A message is read exactly from the encodings of the valid
`LaxMessage`s. -/
theorem parseMessage_reads :
    Reads parseMessage (Format.coded LaxMessage.Valid LaxMessage.encode LaxMessage.message) := by
  refine ((readU8_reads _).bind fun messageTag => parseRelationMessage_reads.ite <|
    parseInsert_reads.ite <| parseUpdate_reads.ite <| parseDelete_reads.ite (Reads.throw _)).congr
    fun m xs => ?_
  constructor
  · rintro ⟨messageTag, _, ys, rfl, h, rfl⟩
    have done : ∀ c, messageTag = tag c → Untagged c m ys →
        Format.coded LaxMessage.Valid LaxMessage.encode LaxMessage.message m ([messageTag] ++ ys) := by
      rintro c rfl ⟨w, hw, hm, he⟩
      exact ⟨w, hw, hm, he⟩
    split at h
    · next hk => exact done 'R' hk h
    split at h
    · next hk => exact done 'I' hk h
    split at h
    · next hk => exact done 'U' hk h
    split at h
    · next hk => exact done 'D' hk h
    · exact h.elim
  · rintro ⟨w, hw, rfl, rfl⟩
    obtain ⟨c, hc, xs, he⟩ := w.encode_tagged
    have hu : Untagged c w.message xs := ⟨w, hw, rfl, he⟩
    rw [he]
    refine Format.bind.cons rfl ?_
    have hIR : tag 'I' ≠ tag 'R' := by decide
    have hUR : tag 'U' ≠ tag 'R' := by decide
    have hUI : tag 'U' ≠ tag 'I' := by decide
    have hDR : tag 'D' ≠ tag 'R' := by decide
    have hDI : tag 'D' ≠ tag 'I' := by decide
    have hDU : tag 'D' ≠ tag 'U' := by decide
    simp only [List.mem_cons, List.not_mem_nil, or_false] at hc
    rcases hc with rfl | rfl | rfl | rfl
    · simpa only [↓reduceIte] using hu
    · simpa only [hIR, ↓reduceIte] using hu
    · simpa only [hUR, hUI, ↓reduceIte] using hu
    · simpa only [hDR, hDI, hDU, ↓reduceIte] using hu

/-- **What the parser accepts.** It succeeds exactly on the lists of encoded `LaxMessage`s, and
returns their messages. -/
theorem parse_eq_ok {data : List UInt8} {ms : List PgOutputMessage} :
    parsePgoutputMessages data = .ok ms ↔ ∃ ws : List LaxMessage, (∀ w ∈ ws, w.Valid) ∧
      ws.map LaxMessage.message = ms ∧ ws.flatMap LaxMessage.encode = data := by
  have hmap : parsePgoutputMessages data = .ok ms ↔
      ∃ c', (untilEnd parseMessage parseMessage_shrinks).run (.start data) = .ok (ms, c') := by
    unfold parsePgoutputMessages ByteReader.new
    cases (untilEnd parseMessage parseMessage_shrinks).run (.start data) with
    | error e => simp [Functor.map, Except.map]
    | ok r => obtain ⟨ms', c'⟩ := r; simp [Functor.map, Except.map]
  rw [hmap]
  constructor
  · rintro ⟨c', h⟩
    obtain ⟨xs, hE, he, hend⟩ := (untilEnd_eq_ok _ parseMessage_reads).1 h
    obtain ⟨ws, hws, hm, hx⟩ := Format.each_coded.1 hE
    have hr := he.rest
    rw [Cursor.rest_start, hend, List.append_nil] at hr
    exact ⟨ws, hws, hm, hx.trans hr.symm⟩
  · rintro ⟨ws, hws, hm, hx⟩
    have hr : (Cursor.start data).rest = data ++ [] := by simp
    obtain ⟨c', he, hend⟩ := Cursor.Eats.of_rest hr
    exact ⟨c', (untilEnd_eq_ok _ parseMessage_reads).2
      ⟨data, Format.each_coded.2 ⟨ws, hws, hm, hx⟩, he, hend⟩⟩

end MiniGraph
