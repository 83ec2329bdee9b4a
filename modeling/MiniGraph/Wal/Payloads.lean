import MiniGraph.Lib.Local
import MiniGraph.Wal.ParserSpec

/-!
# Joining and cutting payloads

No reader of the parser looks beyond what it reads (`parseMessage_cuts`). So payloads can be joined and
split between messages without a change in what is decoded (`parse_append`, `parse_flatten`), and a
payload that is cut is decoded to its first messages if the cut is between messages, and refused as
truncated otherwise (`parse_take`).
-/

namespace MiniGraph
open Lib ByteReader

/-- The error of a read that runs into the end. -/
def PgOutputError.IsTruncated (e : PgOutputError) : Prop := ∃ ctx, e = .truncated ctx

/-- The reader looks no further than it reads, and a missing part is reported as such. -/
abbrev CutsRead {α : Type} (p : Read α) : Prop := Cuts PgOutputError.IsTruncated p

/-! ### The byte reader -/

/-- What `readBytes` makes of the bytes ahead. -/
def bytesView (len : Nat) (ctx : String) (xs : List UInt8) :
    Except PgOutputError (List UInt8 × List UInt8) :=
  if xs.length < len then .error (.truncated ctx) else .ok (xs.take len, xs.drop len)

theorem outcome_readBytes (len : Nat) (ctx : String) (reader : ByteReader) :
    outcome (readBytes len ctx) reader = bytesView len ctx reader.rest := by
  have hpos := reader.pos_le
  have hlength := reader.length_rest
  have hrun : (readBytes len ctx).run reader = if h : reader.pos + len > reader.data.length then
      .error (.truncated ctx)
    else .ok (reader.rest.take len, reader.advance len (Nat.le_of_not_lt h)) := rfl
  unfold outcome bytesView
  rw [hrun]
  split_ifs with h h' h'
  · rfl
  · omega
  · omega
  · rw [← reader.rest_advance len (Nat.le_of_not_lt h)]
    rfl

theorem readBytes_cuts (len : Nat) (ctx : String) : CutsRead (readBytes len ctx) := by
  have hview : ∀ reader, outcome (readBytes len ctx) reader = bytesView len ctx reader.rest :=
    outcome_readBytes len ctx
  refine Cuts.of_reads (.of_eq hview) (readBytes_reads len ctx) ?_
  rintro bytes ws ⟨hlength, -⟩ vs hvs hne
  have hshort : vs.length < len := by
    have hle := hvs.length_le
    have hlt : vs.length ≠ ws.length := fun heq => hne (hvs.eq_of_length heq)
    omega
  refine ⟨_, ⟨ctx, rfl⟩, ?_⟩
  rw [view_eq hview, bytesView, if_pos hshort]

/-- What `readCString` makes of the bytes ahead. -/
def cStringView (ctx : String) (xs : List UInt8) : Except PgOutputError (String × List UInt8) :=
  match xs.findIdx? (· == 0) with
  | none => .error (.truncated ctx)
  | some len =>
    match Utf8.decode? (xs.take len) with
    | none => .error (.invalidUtf8 ctx)
    | some s => .ok (s, xs.drop (len + 1))

theorem outcome_readCString (ctx : String) (reader : ByteReader) :
    outcome (readCString ctx) reader = cStringView ctx reader.rest := by
  unfold outcome readCString cStringView
  rw [StateT.run]
  split
  · next h =>
    simp only [h]
    rfl
  · next len h =>
    simp only [h]
    cases Utf8.decode? (reader.rest.take len) with
    | none => rfl
    | some s =>
      simp only [← reader.rest_advance (len + 1) (nul_lt h)]
      rfl

theorem readCString_cuts (ctx : String) : CutsRead (readCString ctx) := by
  have hview : ∀ reader, outcome (readCString ctx) reader = cStringView ctx reader.rest :=
    outcome_readCString ctx
  refine Cuts.of_reads (.of_eq hview) (readCString_reads ctx) ?_
  rintro s ws ⟨hnul, rfl⟩ vs hvs hne
  have hno : 0 ∉ vs := by
    rcases prefix_append_cases hvs with ⟨hvs, -⟩ | ⟨vs', rfl, hvs'⟩
    · exact fun hmem => hnul (hvs.subset hmem)
    · rcases List.prefix_cons_iff.1 hvs' with rfl | ⟨vs'', rfl, hvs''⟩
      · rwa [List.append_nil]
      · rw [List.prefix_nil.1 hvs''] at hne
        exact absurd rfl hne
  have hnone : vs.findIdx? (· == 0) = none := by
    rw [List.findIdx?_eq_none_iff]
    intro b hb
    exact beq_eq_false_iff_ne.2 fun hb0 => hno (hb0 ▸ hb)
  refine ⟨_, ⟨ctx, rfl⟩, ?_⟩
  rw [view_eq hview, cStringView, hnone]

theorem readU8_cuts (ctx : String) : CutsRead (readU8 ctx) :=
  (readBytes_cuts 1 ctx).bind fun _ => .pure _

theorem readU16_cuts (ctx : String) : CutsRead (readU16 ctx) :=
  (readBytes_cuts 2 ctx).bind fun _ => .pure _

theorem readU32_cuts (ctx : String) : CutsRead (readU32 ctx) :=
  (readBytes_cuts 4 ctx).bind fun _ => .pure _

theorem readI32_cuts (ctx : String) : CutsRead (readI32 ctx) :=
  (readBytes_cuts 4 ctx).bind fun _ => .pure _

/-! ### The parser -/

theorem parseRelationColumn_cuts : CutsRead parseRelationColumn :=
  (readU8_cuts _).bind fun _ => (readCString_cuts _).bind fun _ => (readU32_cuts _).bind fun _ =>
    (readI32_cuts _).bind fun _ => .pure _

theorem parseRelation_cuts : CutsRead parseRelation :=
  (readU32_cuts _).bind fun _ => (readCString_cuts _).bind fun _ => (readCString_cuts _).bind fun _ =>
    (readU8_cuts _).bind fun _ => (readU16_cuts _).bind fun _ =>
      (parseRelationColumn_cuts.times _).bind fun _ => .pure _

theorem parseText_cuts : CutsRead parseText :=
  (readI32_cuts _).bind fun _ => (Cuts.throw _).ite <| (readBytes_cuts _ _).bind fun _ => by
    split
    · exact .throw _
    · exact .pure _

theorem parseTupleColumn_cuts : CutsRead parseTupleColumn :=
  (readU8_cuts _).bind fun _ => (Cuts.pure _).ite <| (Cuts.pure _).ite <|
    parseText_cuts.ite (.throw _)

theorem parseTuple_cuts : CutsRead parseTuple :=
  (readU16_cuts _).bind fun _ => parseTupleColumn_cuts.times _

theorem parseInsert_cuts : CutsRead parseInsert :=
  (readU32_cuts _).bind fun _ => (readU8_cuts _).bind fun _ => (Cuts.throw _).ite <|
    parseTuple_cuts.bind fun _ => .pure _

theorem parseUpdateRound_cuts (oldValues : Option (List Value)) :
    CutsRead (parseUpdateRound oldValues) :=
  (readU8_cuts _).bind fun _ => (parseTuple_cuts.bind fun _ => .pure _).ite <|
    (parseTuple_cuts.bind fun _ => .pure _).ite (.throw _)

theorem parseUpdate_cuts : CutsRead parseUpdate :=
  (readU32_cuts _).bind fun _ => (Cuts.loop parseUpdateRound_cuts none).bind fun _ => .pure _

theorem parseDelete_cuts : CutsRead parseDelete :=
  (readU32_cuts _).bind fun _ => (readU8_cuts _).bind fun _ =>
    (parseTuple_cuts.bind fun _ => .pure _).ite (.throw _)

theorem parseMessage_cuts : CutsRead parseMessage :=
  (readU8_cuts _).bind fun _ => (parseRelation_cuts.bind fun _ => .pure _).ite <|
    parseInsert_cuts.ite <| parseUpdate_cuts.ite <| parseDelete_cuts.ite (.throw _)

/-! ### Joining -/

/-- The loop over the messages of a payload. -/
abbrev messagesView (data : List UInt8) : Except PgOutputError (List PgOutputMessage × List UInt8) :=
  view (untilEnd parseMessage parseMessage_shrinks) data

theorem parse_eq_view (data : List UInt8) :
    parsePgoutputMessages data = (messagesView data).map Prod.fst := by
  unfold parsePgoutputMessages messagesView view outcome ByteReader.new
  cases (untilEnd parseMessage parseMessage_shrinks).run (.start data) <;> rfl

variable {data a b : List UInt8} {ms ns : List PgOutputMessage} {e : PgOutputError}

theorem view_of_parse (h : parsePgoutputMessages data = .ok ms) : ∃ us, messagesView data = .ok (ms, us) := by
  rw [parse_eq_view] at h
  cases hview : messagesView data with
  | error e =>
    rw [hview] at h
    cases h
  | ok r =>
    rw [hview] at h
    obtain rfl := Except.ok.inj h
    exact ⟨r.2, rfl⟩

/-- What follows a payload that parses is parsed as if it stood alone. -/
theorem parse_append_eq (h : parsePgoutputMessages a = .ok ms) (b : List UInt8) :
    parsePgoutputMessages (a ++ b) = (parsePgoutputMessages b).map (ms ++ ·) := by
  obtain ⟨us, hview⟩ := view_of_parse h
  have happend := untilEnd_append parseMessage_cuts hview b
  rw [parse_eq_view, parse_eq_view, messagesView, happend, messagesView]
  cases view (untilEnd parseMessage parseMessage_shrinks) b <;> rfl

/-- **Parsing is a homomorphism over concatenation.** -/
theorem parse_append (h : parsePgoutputMessages a = .ok ms) :
    (∀ ns, parsePgoutputMessages b = .ok ns → parsePgoutputMessages (a ++ b) = .ok (ms ++ ns)) ∧
      ∀ e, parsePgoutputMessages b = .error e → parsePgoutputMessages (a ++ b) = .error e := by
  rw [parse_append_eq h]
  constructor
  · intro ns hb
    rw [hb]
    rfl
  · intro e hb
    rw [hb]
    rfl

/-- An insert, followed by a delete or by two bytes of another insert. -/
theorem parse_append_insert :
    parsePgoutputMessages ([0x49, 0, 0, 0, 1, 0x4e, 0, 0] ++ [0x44, 0, 0, 0, 1, 0x4b, 0, 0]) =
        .ok ([.insert 1 []] ++ [.delete 1 []]) ∧
      parsePgoutputMessages ([0x49, 0, 0, 0, 1, 0x4e, 0, 0] ++ [0x49, 0]) =
        .error (.truncated "insert relation id") := by
  have h : parsePgoutputMessages [0x49, 0, 0, 0, 1, 0x4e, 0, 0] = .ok [.insert 1 []] := by decide +kernel
  exact ⟨(parse_append h).1 _ (by decide +kernel), (parse_append h).2 _ (by decide +kernel)⟩

/-- A capture of payloads is parsed to the messages of all of them. -/
theorem parse_flatten {payloads : List (List UInt8 × List PgOutputMessage)}
    (h : ∀ x ∈ payloads, parsePgoutputMessages x.1 = .ok x.2) :
    parsePgoutputMessages (payloads.map Prod.fst).flatten = .ok (payloads.map Prod.snd).flatten := by
  induction payloads with
  | nil => exact parse_eq_ok.2 ⟨[], nofun, rfl, rfl⟩
  | cons x payloads ih =>
    rw [List.map_cons, List.flatten_cons, parse_append_eq (h x List.mem_cons_self),
      ih fun y hy => h y (List.mem_cons_of_mem _ hy)]
    rfl

/-! ### Cutting -/

/-- The first `j` messages of `data` end at position `k`. -/
def EndsAt (data : List UInt8) (j k : Nat) : Prop :=
  ∃ ms reader, (times j parseMessage).run (ByteReader.new data) = .ok (ms, reader) ∧ reader.pos = k

instance (data : List UInt8) (j k : Nat) : Decidable (EndsAt data j k) :=
  decidable_of_iff (((times j parseMessage).run (ByteReader.new data)).toOption.map (·.2.pos) = some k) <| by
    unfold EndsAt
    cases (times j parseMessage).run (ByteReader.new data) with
    | error e => simp [Except.toOption]
    | ok r =>
      obtain ⟨ms, reader⟩ := r
      simp [Except.toOption]

theorem endsAt_iff {j k : Nat} (hk : k ≤ data.length) :
    EndsAt data j k ↔ ∃ ms, view (times j parseMessage) data = .ok (ms, data.drop k) := by
  unfold EndsAt view
  refine exists_congr fun ms => ?_
  rw [outcome_eq_ok]
  refine exists_congr fun reader => and_congr_right fun hrun => ?_
  obtain ⟨ws, -, he⟩ := (parseMessage_reads.times j _ _ _).1 hrun
  have hdata : reader.data = data := he.data
  have hpos : reader.pos ≤ data.length := hdata ▸ reader.pos_le
  unfold Cursor.rest
  rw [hdata]
  constructor
  · rintro rfl
    rfl
  · intro hdrop
    have hlength := congrArg List.length hdrop
    rw [List.length_drop, List.length_drop] at hlength
    omega

/-- **Truncation is always detected and never misread.** -/
theorem parse_take (h : parsePgoutputMessages data = .ok ms) (k : Nat) (hk : k ≤ data.length) :
    (∀ j, EndsAt data j k → j ≤ ms.length ∧ parsePgoutputMessages (data.take k) = .ok (ms.take j)) ∧
      ((∀ j, ¬ EndsAt data j k) → ∃ ctx, parsePgoutputMessages (data.take k) = .error (.truncated ctx)) := by
  obtain ⟨us, hview⟩ := view_of_parse h
  have hsplit : data = data.take k ++ data.drop k := (List.take_append_drop k data).symm
  constructor
  · intro j hends
    obtain ⟨ms', htimes⟩ := (endsAt_iff hk).1 hends
    obtain ⟨rfl, hcut⟩ := untilEnd_times parseMessage_cuts hview hsplit htimes
    have hlength := length_times parseMessage_cuts.isLocal htimes
    rw [List.length_take] at hlength
    refine ⟨by omega, ?_⟩
    rw [parse_eq_view, messagesView, hcut]
    rfl
  · intro hnot
    have hno : ∀ j ms', view (times j parseMessage) data ≠ .ok (ms', data.drop k) := fun j ms' htimes =>
      hnot j ((endsAt_iff hk).2 ⟨ms', htimes⟩)
    obtain ⟨e, ⟨ctx, rfl⟩, herror⟩ := untilEnd_prefix parseMessage_cuts hview hsplit hno
    refine ⟨ctx, ?_⟩
    rw [parse_eq_view, messagesView, herror]
    rfl

/-- An insert and a delete, cut between the two and in the middle of the delete. -/
theorem parse_take_insert_delete :
    parsePgoutputMessages (List.take 8 [0x49, 0, 0, 0, 1, 0x4e, 0, 0, 0x44, 0, 0, 0, 1, 0x4b, 0, 0]) =
        .ok [.insert 1 []] ∧
      ∃ ctx, parsePgoutputMessages
        (List.take 11 [0x49, 0, 0, 0, 1, 0x4e, 0, 0, 0x44, 0, 0, 0, 1, 0x4b, 0, 0]) =
          .error (.truncated ctx) := by
  have h : parsePgoutputMessages [0x49, 0, 0, 0, 1, 0x4e, 0, 0, 0x44, 0, 0, 0, 1, 0x4b, 0, 0] =
      .ok [.insert 1 [], .delete 1 []] := by decide +kernel
  refine ⟨((parse_take h 8 (by decide)).1 1 (by decide +kernel)).2, (parse_take h 11 (by decide)).2 ?_⟩
  intro j hends
  have hj : j ≤ 2 := ((parse_take h 11 (by decide)).1 j hends).1
  have hno : ∀ j ≤ 2, ¬ EndsAt [0x49, 0, 0, 0, 1, 0x4e, 0, 0, 0x44, 0, 0, 0, 1, 0x4b, 0, 0] j 11 := by
    decide +kernel
  exact hno j hj hends

end MiniGraph
