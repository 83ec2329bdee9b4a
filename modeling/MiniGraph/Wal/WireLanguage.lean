import MiniGraph.Wal.ParserSpec

/-!
# The parser against the wire format

Decoding undoes encoding on the whole format (`parse_encodeMessages`). The other way round the parser
takes more than the format: the loop of `parse_update` goes on after an old tuple, so an update may
carry several of them, and all but the last are dropped. Everything else it accepts is in the format
(`acceptsGrammar_iff`).
-/

namespace MiniGraph
open Lib ByteReader

/-! ### Round trip -/

theorem Value.Encodable.wire {v : Value} (h : v.Encodable) : ∃ w : WireValue, w.value = v := by
  cases v with
  | null => exact ⟨.null .n, rfl⟩
  | text s => exact ⟨.text .t s, rfl⟩
  | int _ => exact h.elim

theorem exists_map_eq {α γ : Type} {f : γ → α} {as : List α} (h : ∀ a ∈ as, ∃ w, f w = a) :
    ∃ ws : List γ, ws.map f = as := by
  induction as with
  | nil => exact ⟨[], rfl⟩
  | cons a as ih =>
    obtain ⟨w, hw⟩ := h a (by simp)
    obtain ⟨ws, hws⟩ := ih fun a' h' => h a' (by simp [h'])
    exact ⟨w :: ws, by rw [List.map_cons, hw, hws]⟩

theorem TupleEncodable.wire {vs : List Value} (h : TupleEncodable vs) :
    ∃ ws : List WireValue, ws.map WireValue.value = vs :=
  exists_map_eq fun v hv => (h.2 v hv).wire

theorem PgOutputMessage.Encodable.wire {m : PgOutputMessage} (h : m.Encodable) :
    ∃ w : WireMessage, w.message = m := by
  cases m with
  | relation rel =>
    obtain ⟨columns, hc⟩ : ∃ columns : List WireColumn, columns.map WireColumn.name = rel.columns :=
      exists_map_eq fun name _ => ⟨⟨0, name, 0, 0⟩, rfl⟩
    exact ⟨.relation rel.id rel.«namespace» rel.name 0 columns, by simp [WireMessage.message, hc]⟩
  | insert id newValues =>
    obtain ⟨new, rfl⟩ := TupleEncodable.wire h
    exact ⟨.insert id new, rfl⟩
  | update id oldValues newValues =>
    obtain ⟨new, rfl⟩ := h.2.wire
    cases oldValues with
    | none => exact ⟨.update id none new, rfl⟩
    | some oldValues =>
      obtain ⟨old, rfl⟩ := (h.1 oldValues rfl).wire
      exact ⟨.update id (some ⟨.K, old⟩) new, rfl⟩
  | delete id oldValues =>
    obtain ⟨old, rfl⟩ := TupleEncodable.wire h
    exact ⟨.delete id ⟨.K, old⟩, rfl⟩

theorem flatMap_standard (ws : List WireMessage) :
    (ws.map LaxMessage.standard).flatMap LaxMessage.encode = encodeMessages ws := by
  rw [List.flatMap_map]; rfl

theorem map_standard_encode (ws : List WireMessage) :
    (ws.map LaxMessage.standard).map LaxMessage.encode = ws.map WireMessage.encode := by
  rw [List.map_map]; rfl

theorem standard_valid {ws : List WireMessage} :
    (∀ w ∈ ws.map LaxMessage.standard, w.Valid) ↔ ∀ w ∈ ws, w.Valid := by
  rw [List.forall_mem_map]; rfl

theorem parse_standard {ws : List WireMessage} (h : ∀ w ∈ ws, w.Valid) :
    parsePgoutputMessages (encodeMessages ws) = .ok (ws.map WireMessage.message) := by
  refine parse_eq_ok.2 ⟨ws.map .standard, standard_valid.2 h, ?_, flatMap_standard ws⟩
  rw [List.map_map]; rfl

theorem parse_encode {w : WireMessage} (h : w.Valid) : parsePgoutputMessages w.encode = .ok [w.message] := by
  have hvalid : ∀ v ∈ [w], v.Valid := by
    intro v hv
    rwa [List.mem_singleton.1 hv]
  have hparse := parse_standard hvalid
  rwa [encodeMessages, List.flatMap_singleton] at hparse

/-- **Decoding undoes encoding.** Messages within the bounds of the format have encodings, one for
every choice of the fields the parser discards, and each of them parses back to the messages. -/
theorem parse_encodeMessages (ms : List PgOutputMessage) (hms : ∀ m ∈ ms, m.Encodable) :
    (∃ ws : List WireMessage, ws.map WireMessage.message = ms) ∧
      ∀ ws : List WireMessage, ws.map WireMessage.message = ms →
        parsePgoutputMessages (encodeMessages ws) = .ok ms := by
  refine ⟨exists_map_eq fun m hm => (hms m hm).wire, ?_⟩
  rintro ws rfl
  exact parse_standard fun w hw => hms _ (List.mem_map_of_mem hw)

theorem parse_encodeMessages_relation_update :
    (∃ ws : List WireMessage, ws.map WireMessage.message =
        [.relation ⟨7, "public", "comments", ["id", "document_id"]⟩,
          .update 7 (some [.null, .text "a"]) [.text "1", .text "b"]]) ∧
      ∀ ws : List WireMessage, ws.map WireMessage.message =
        [.relation ⟨7, "public", "comments", ["id", "document_id"]⟩,
          .update 7 (some [.null, .text "a"]) [.text "1", .text "b"]] →
        parsePgoutputMessages (encodeMessages ws) =
          .ok [.relation ⟨7, "public", "comments", ["id", "document_id"]⟩,
            .update 7 (some [.null, .text "a"]) [.text "1", .text "b"]] :=
  parse_encodeMessages _ (by decide +kernel)

/-! ### The language -/

/-- `data` is a concatenation of messages of the format. -/
def InGrammar (data : List UInt8) : Prop :=
  ∃ ws : List WireMessage, (∀ w ∈ ws, w.Valid) ∧ encodeMessages ws = data

/-- The parser is right on `data`: it accepts it exactly if it is in the grammar, and then returns
the messages of the decomposition, which is unique. -/
structure AcceptsGrammar (data : List UInt8) : Prop where
  ok_iff : (∃ ms, parsePgoutputMessages data = .ok ms) ↔ InGrammar data
  decoded : ∀ ms, parsePgoutputMessages data = .ok ms →
    ∃ ws : List WireMessage, (∀ w ∈ ws, w.Valid) ∧ encodeMessages ws = data ∧
      ws.map WireMessage.message = ms ∧
      ∀ ws' : List WireMessage, (∀ w ∈ ws', w.Valid) → encodeMessages ws' = data →
        ws'.map WireMessage.encode = ws.map WireMessage.encode

/-- `data` is a list of well-formed messages, one of which is an update with two or more old
tuples. -/
def RepeatsOld (data : List UInt8) : Prop :=
  ∃ ws : List LaxMessage, (∀ w ∈ ws, w.Valid) ∧ ws.flatMap LaxMessage.encode = data ∧
    ∃ w ∈ ws, w.RepeatsOld

theorem lax_unique {ws ws' : List LaxMessage} (hws : ∀ w ∈ ws, w.Valid) (hws' : ∀ w ∈ ws', w.Valid)
    (he : ws.flatMap LaxMessage.encode = ws'.flatMap LaxMessage.encode) :
    ws.map LaxMessage.encode = ws'.map LaxMessage.encode :=
  parseMessage_reads.coded_unique parseMessage_shrinks hws hws' he

/-- The old tuples in front of a new tuple can be counted. -/
theorem olds_length {olds olds' : List OldTuple} {new new' : List UInt8}
    (h : ∀ old ∈ olds, TupleEncodable (old.values.map WireValue.value))
    (h' : ∀ old ∈ olds', TupleEncodable (old.values.map WireValue.value))
    (he : olds.flatMap OldTuple.encode ++ (tag 'N' :: new) =
      olds'.flatMap OldTuple.encode ++ (tag 'N' :: new')) : olds.length = olds'.length := by
  induction olds generalizing olds' with
  | nil =>
    cases olds' with
    | nil => rfl
    | cons old' _ => exact absurd (List.cons.inj he).1 old'.kind.byte_ne_new
  | cons old olds ih =>
    cases olds' with
    | nil => exact absurd (List.cons.inj he).1.symm old.kind.byte_ne_new
    | cons old' olds' =>
      rw [List.flatMap_cons, List.flatMap_cons, List.append_assoc, List.append_assoc] at he
      obtain ⟨-, ho⟩ := (parseUpdateRound_reads none).unambiguous (.inl ⟨old, h old (by simp), rfl, rfl⟩)
        (.inl ⟨old', h' old' (by simp), rfl, rfl⟩) he
      rw [ho] at he
      rw [List.length_cons, List.length_cons, ih (fun o ho => h o (by simp [ho]))
        (fun o ho => h' o (by simp [ho])) (List.append_cancel_left he)]

/-- An update with several old tuples is not in the format in disguise. -/
theorem repeatsOld_ne_standard {w : LaxMessage} (hw : w.Valid) (hr : w.RepeatsOld) {v : WireMessage}
    (hv : v.Valid) : w.encode ≠ v.encode := by
  intro he
  obtain _ | ⟨id, first, second, more, new⟩ := w
  · exact hr
  rcases v with _ | _ | ⟨id', old, new'⟩ | _
  · exact absurd (List.cons.inj he).1 (by decide)
  · exact absurd (List.cons.inj he).1 (by decide)
  · have ht := (List.cons.inj he).2
    have hid := List.append_inj_right ht (by simp [encodeU32])
    have hl := olds_length hw.1 (fun o ho => hv.1 _ (Option.mem_map_of_mem _ (Option.mem_toList.1 ho))) hid
    cases old <;> simp at hl
  · exact absurd (List.cons.inj he).1 (by decide)

theorem not_acceptsGrammar {data : List UInt8} (h : RepeatsOld data) : ¬ AcceptsGrammar data := by
  intro ha
  obtain ⟨ws, hws, rfl, w, hw, hr⟩ := h
  obtain ⟨vs, hvs, he⟩ := ha.ok_iff.1 ⟨_, parse_eq_ok.2 ⟨ws, hws, rfl, rfl⟩⟩
  have hu := lax_unique hws (standard_valid.2 hvs) ((flatMap_standard vs).trans he).symm
  have hm : w.encode ∈ vs.map WireMessage.encode := by
    rw [← map_standard_encode, ← hu]; exact List.mem_map_of_mem hw
  obtain ⟨v, hv, hwv⟩ := List.mem_map.1 hm
  exact repeatsOld_ne_standard (hws w hw) hr (hvs v hv) hwv.symm

/-- Without repeated old tuples all messages are of the format. -/
theorem exists_standard {ws : List LaxMessage} (h : ∀ w ∈ ws, ¬ w.RepeatsOld) :
    ∃ vs : List WireMessage, vs.map LaxMessage.standard = ws :=
  exists_map_eq fun w hw => by
    cases w with
    | standard v => exact ⟨v, rfl⟩
    | repeatedOld => exact absurd trivial (h _ hw)

theorem acceptsGrammar {data : List UInt8} (h : ¬ RepeatsOld data) : AcceptsGrammar data := by
  have hstd : ∀ ms, parsePgoutputMessages data = .ok ms → ∃ vs : List WireMessage,
      (∀ v ∈ vs, v.Valid) ∧ encodeMessages vs = data ∧ vs.map WireMessage.message = ms := by
    intro ms hms
    obtain ⟨ws, hws, rfl, rfl⟩ := parse_eq_ok.1 hms
    obtain ⟨vs, rfl⟩ := exists_standard fun w hw hr => h ⟨ws, hws, rfl, w, hw, hr⟩
    exact ⟨vs, standard_valid.1 hws, (flatMap_standard vs).symm, by rw [List.map_map]; rfl⟩
  refine ⟨⟨?_, ?_⟩, fun ms hms => ?_⟩
  · rintro ⟨ms, hms⟩
    obtain ⟨vs, hvs, he, -⟩ := hstd ms hms
    exact ⟨vs, hvs, he⟩
  · rintro ⟨vs, hvs, rfl⟩
    exact ⟨_, parse_standard hvs⟩
  · obtain ⟨vs, hvs, he, hm⟩ := hstd ms hms
    refine ⟨vs, hvs, he, hm, fun vs' hvs' he' => ?_⟩
    have hu := lax_unique (standard_valid.2 hvs') (standard_valid.2 hvs)
      (by rw [flatMap_standard, flatMap_standard, he, he'])
    rwa [map_standard_encode, map_standard_encode] at hu

/-- **The parser accepts the grammar and nothing else**, and decodes it, exactly on the inputs that
have no update with two or more old tuples. -/
theorem acceptsGrammar_iff (data : List UInt8) : AcceptsGrammar data ↔ ¬ RepeatsOld data :=
  ⟨fun ha h => not_acceptsGrammar h ha, acceptsGrammar⟩

/-- An update of relation 1 with a `K` tuple, an `O` tuple and a new tuple, all without columns: it
parses, and is not in the grammar. -/
theorem two_old_tuples :
    parsePgoutputMessages [0x55, 0, 0, 0, 1, 0x4b, 0, 0, 0x4f, 0, 0, 0x4e, 0, 0] =
        .ok [.update 1 (some []) []] ∧
      ¬ AcceptsGrammar [0x55, 0, 0, 0, 1, 0x4b, 0, 0, 0x4f, 0, 0, 0x4e, 0, 0] := by
  refine ⟨by decide +kernel, not_acceptsGrammar ?_⟩
  refine ⟨[.repeatedOld 1 ⟨.K, []⟩ ⟨.O, []⟩ [] []], ?_, by decide +kernel, _, List.mem_singleton_self _, trivial⟩
  intro w hw
  rw [List.mem_singleton.1 hw]
  exact ⟨by decide +kernel, by decide +kernel⟩

end MiniGraph
