import MiniGraph.Wal.Stream
import MiniGraph.Wal.WireLanguage

/-!
# The relation cache

The first relation message with an id stays in the cache (`lookup_cacheAfter`). It decides how the rows of
that relation are decoded, and a later message that says something else is a schema change
(`firstSeen`). What is compared is what the parser keeps of a message: its namespace, its name and the
names of its columns (`detects_iff`).
-/

namespace MiniGraph
open Lib ByteReader

/-! ### The first relation message -/

/-- The relation that `msg` announces under `id`, if it does. -/
def PgOutputMessage.announces (id : UInt32) : PgOutputMessage → Option Relation
  | .relation rel => if rel.id = id then some rel else none
  | _ => none

/-- The first relation that `msgs` announce under `id`. -/
def firstRelation (msgs : List PgOutputMessage) (id : UInt32) : Option Relation :=
  msgs.findSome? (PgOutputMessage.announces id)

variable {relations : Relations} {msgs before : List PgOutputMessage} {msg : PgOutputMessage}
  {rel : Relation} {id : UInt32}

theorem announces_eq_some : msg.announces id = some rel ↔ msg = .relation rel ∧ rel.id = id := by
  cases msg with
  | relation rel' =>
    simp only [PgOutputMessage.announces, Option.ite_none_right_eq_some, Option.some.injEq,
      PgOutputMessage.relation.injEq]
    constructor
    · rintro ⟨hid, rfl⟩
      exact ⟨rfl, hid⟩
    · rintro ⟨rfl, hid⟩
      exact ⟨hid, rfl⟩
  | _ => exact ⟨nofun, fun h => nomatch h.1⟩

theorem firstRelation_id (h : firstRelation msgs id = some rel) : rel.id = id := by
  obtain ⟨msg, -, hmsg⟩ := List.exists_of_findSome?_eq_some h
  exact (announces_eq_some.1 hmsg).2

/-- One message: what is cached stays, and what is not may be announced. -/
theorem lookup_pgoutputToWalEvent (relations : Relations) (msg : PgOutputMessage) (id : UInt32) :
    (pgoutputToWalEvent relations msg).2.lookup id = (relations.lookup id).or (msg.announces id) := by
  cases msg with
  | relation rel =>
    simp only [pgoutputToWalEvent, PgOutputMessage.announces]
    by_cases hid : rel.id = id
    · subst hid
      cases hlookup : relations.lookup rel.id with
      | none => simp [Finmap.lookup_insert]
      | some existing =>
        simp only
        split <;> simp [hlookup]
    · have hne : id ≠ rel.id := fun h => hid h.symm
      rw [if_neg hid, Option.or_none]
      split
      · split <;> rfl
      · exact Finmap.lookup_insert_of_ne _ hne
  | insert relationId newValues =>
    rw [pgoutputToWalEvent_insert]
    exact (Option.or_none ..).symm
  | update relationId oldValues newValues =>
    rw [pgoutputToWalEvent_update]
    exact (Option.or_none ..).symm
  | delete relationId oldValues =>
    rw [pgoutputToWalEvent_delete]
    exact (Option.or_none ..).symm

/-- **The first relation message wins.** -/
theorem lookup_cacheAfter (relations : Relations) (msgs : List PgOutputMessage) (id : UInt32) :
    (cacheAfter relations msgs).lookup id = (relations.lookup id).or (firstRelation msgs id) := by
  induction msgs generalizing relations with
  | nil => exact (Option.or_none ..).symm
  | cons msg msgs ih =>
    have hcons : firstRelation (msg :: msgs) id = (msg.announces id).or (firstRelation msgs id) := by
      unfold firstRelation
      rw [List.findSome?_cons]
      cases msg.announces id <;> rfl
    show (cacheAfter (pgoutputToWalEvent relations msg).2 msgs).lookup id = _
    rw [ih, lookup_pgoutputToWalEvent, hcons, Option.or_assoc]

theorem lookup_cacheAfter_empty (msgs : List PgOutputMessage) (id : UInt32) :
    (cacheAfter ∅ msgs).lookup id = firstRelation msgs id := by
  rw [lookup_cacheAfter, Finmap.lookup_empty, Option.none_or]

/-! ### Schema changes -/

/-- Two relations with the same id that are told apart. -/
def Relation.Conflicts (existing rel : Relation) : Prop :=
  existing.«namespace» ≠ rel.«namespace» ∨ existing.name ≠ rel.name ∨ existing.columns ≠ rel.columns

theorem conflicts_iff {existing : Relation} (h : existing.id = rel.id) :
    existing.Conflicts rel ↔ existing ≠ rel := by
  obtain ⟨id, ns, name, columns⟩ := existing
  obtain ⟨id', ns', name', columns'⟩ := rel
  obtain rfl : id = id' := h
  simp only [Relation.Conflicts, ne_eq, Relation.mk.injEq, true_and, not_and_or]

theorem schemaChanges_relation : SchemaChanges relations (.relation rel) ↔
    ∃ existing, relations.lookup rel.id = some existing ∧ existing ≠ rel := by
  unfold SchemaChanges
  simp only [pgoutputToWalEvent]
  cases relations.lookup rel.id with
  | none => simp
  | some existing =>
    simp only [Option.some.injEq, exists_eq_left']
    split
    · next hne => exact iff_of_true rfl hne
    · next heq =>
      refine iff_of_false (fun hok => ?_) heq
      cases hok

theorem schemaChanges_iff : SchemaChanges relations msg ↔
    ∃ rel existing, msg = .relation rel ∧ relations.lookup rel.id = some existing ∧ existing ≠ rel := by
  constructor
  · intro h
    cases msg with
    | relation rel =>
      obtain ⟨existing, hlookup, hne⟩ := schemaChanges_relation.1 h
      exact ⟨rel, existing, rfl, hlookup, hne⟩
    | insert relationId newValues =>
      rw [SchemaChanges, pgoutputToWalEvent_insert] at h
      cases h
    | update relationId oldValues newValues =>
      rw [SchemaChanges, pgoutputToWalEvent_update] at h
      cases h
    | delete relationId oldValues =>
      rw [SchemaChanges, pgoutputToWalEvent_delete] at h
      cases h
  · rintro ⟨rel, existing, rfl, hlookup, hne⟩
    exact schemaChanges_relation.2 ⟨existing, hlookup, hne⟩

theorem SchemaChanges.relations_eq (h : SchemaChanges relations msg) :
    (pgoutputToWalEvent relations msg).2 = relations := by
  obtain ⟨rel, existing, rfl, hlookup, hne⟩ := schemaChanges_iff.1 h
  simp only [pgoutputToWalEvent, hlookup, ne_eq, hne, not_false_eq_true, if_true]

/-! ### The first seen schema -/

/-- What becomes of `msg` when `before` has been folded from the empty cache. -/
structure FirstSeen (before : List PgOutputMessage) (msg : PgOutputMessage) : Prop where
  cache : ∀ id, (cacheAfter ∅ before).lookup id = firstRelation before id
  /-- nothing is overwritten or removed -/
  kept : ∀ id rel, (cacheAfter ∅ before).lookup id = some rel →
    (pgoutputToWalEvent (cacheAfter ∅ before) msg).2.lookup id = some rel
  insert : ∀ id newValues, msg = .insert id newValues →
    pgoutputToWalEvent (cacheAfter ∅ before) msg =
      (.ok ((firstRelation before id).map fun rel =>
        .insert id rel.name (.fromValues rel.columns newValues)), cacheAfter ∅ before)
  update : ∀ id oldValues newValues, msg = .update id oldValues newValues →
    pgoutputToWalEvent (cacheAfter ∅ before) msg =
      (.ok ((firstRelation before id).map fun rel =>
        .update id rel.name (oldValues.map (.fromValues rel.columns)) (.fromValues rel.columns newValues)),
        cacheAfter ∅ before)
  delete : ∀ id oldValues, msg = .delete id oldValues →
    pgoutputToWalEvent (cacheAfter ∅ before) msg =
      (.ok ((firstRelation before id).map fun rel =>
        .delete id rel.name (.fromValues rel.columns oldValues)), cacheAfter ∅ before)
  conflict : (pgoutputToWalEvent (cacheAfter ∅ before) msg).1 = .error .schemaChange ↔
    ∃ rel existing, msg = .relation rel ∧ firstRelation before rel.id = some existing ∧
      existing.Conflicts rel
  unchanged : (pgoutputToWalEvent (cacheAfter ∅ before) msg).1 = .error .schemaChange →
    (pgoutputToWalEvent (cacheAfter ∅ before) msg).2 = cacheAfter ∅ before

theorem firstSeen (before : List PgOutputMessage) (msg : PgOutputMessage) : FirstSeen before msg where
  cache := lookup_cacheAfter_empty before
  kept := by
    intro id rel h
    rw [lookup_pgoutputToWalEvent, h, Option.some_or]
  insert := by
    rintro id newValues rfl
    rw [pgoutputToWalEvent_insert, lookup_cacheAfter_empty]
  update := by
    rintro id oldValues newValues rfl
    rw [pgoutputToWalEvent_update, lookup_cacheAfter_empty]
  delete := by
    rintro id oldValues rfl
    rw [pgoutputToWalEvent_delete, lookup_cacheAfter_empty]
  conflict := by
    refine schemaChanges_iff.trans (exists_congr fun rel => exists_congr fun existing => ?_)
    rw [lookup_cacheAfter_empty]
    refine and_congr_right fun _ => and_congr_right fun hfirst => ?_
    exact (conflicts_iff (firstRelation_id hfirst)).symm
  unchanged := SchemaChanges.relations_eq

/-! ### What of a relation message is compared -/

/-- The fields of a relation message on the wire. -/
structure WireRelation where
  id : UInt32
  «namespace» : String
  name : String
  replicaIdentity : UInt8
  columns : List WireColumn
deriving DecidableEq, Repr

namespace WireRelation

def wire (w : WireRelation) : WireMessage :=
  .relation w.id w.«namespace» w.name w.replicaIdentity w.columns

/-- What the parser keeps. -/
def relation (w : WireRelation) : Relation :=
  ⟨w.id, w.«namespace», w.name, w.columns.map WireColumn.name⟩

/-- `second`, parsed and fed after `first`, is a schema change. -/
def Detects (relations : Relations) (first second : WireRelation) : Prop :=
  ∃ msg msg', parsePgoutputMessages first.wire.encode = .ok [msg] ∧
    parsePgoutputMessages second.wire.encode = .ok [msg'] ∧
    SchemaChanges (pgoutputToWalEvent relations msg).2 msg'

variable {w first second : WireRelation}

theorem parse_wire (h : w.wire.Valid) :
    parsePgoutputMessages w.wire.encode = .ok [.relation w.relation] := parse_encode h

theorem detects_iff_ne (h : first.wire.Valid) (h' : second.wire.Valid)
    (hnew : relations.lookup first.id = none) (hid : first.id = second.id) :
    Detects relations first second ↔ first.relation ≠ second.relation := by
  have hcached : (pgoutputToWalEvent relations (.relation first.relation)).2.lookup second.id =
      some first.relation := by
    rw [lookup_pgoutputToWalEvent, ← hid, hnew, Option.none_or]
    exact announces_eq_some.2 ⟨rfl, rfl⟩
  unfold Detects
  rw [parse_wire h, parse_wire h']
  constructor
  · rintro ⟨msg, msg', hmsg, hmsg', hchange⟩
    obtain rfl := (List.cons.inj (Except.ok.inj hmsg)).1
    obtain rfl := (List.cons.inj (Except.ok.inj hmsg')).1
    obtain ⟨existing, hlookup, hne⟩ := schemaChanges_relation.1 hchange
    obtain rfl := Option.some.inj (hcached.symm.trans hlookup)
    exact hne
  · intro hne
    exact ⟨_, _, rfl, rfl, schemaChanges_relation.2 ⟨_, hcached, hne⟩⟩

/-- The relation `comments`, with replica identity FULL. -/
def comments : WireRelation :=
  ⟨7, "public", "comments", tag 'f', [⟨1, "id", 23, -1⟩, ⟨0, "document_id", 25, -1⟩]⟩

/-- `comments` with replica identity DEFAULT, and with the flags, the type, and the type modifier of a
column changed. -/
def alteredComments : List WireRelation :=
  [{ comments with replicaIdentity := tag 'd' },
    { comments with columns := [⟨1, "id", 23, -1⟩, ⟨1, "document_id", 25, -1⟩] },
    { comments with columns := [⟨1, "id", 23, -1⟩, ⟨0, "document_id", 2950, -1⟩] },
    { comments with columns := [⟨1, "id", 23, -1⟩, ⟨0, "document_id", 25, 40⟩] }]

theorem alteredComments_undetected : comments.wire.Valid ∧ ∀ altered ∈ alteredComments,
    altered.wire.Valid ∧ altered.id = comments.id ∧ altered ≠ comments ∧ ¬ Detects ∅ comments altered := by
  have hvalid : comments.wire.Valid := by decide +kernel
  have hkept : ∀ altered ∈ alteredComments, altered.wire.Valid ∧ altered.id = comments.id ∧
      altered ≠ comments ∧ comments.relation = altered.relation := by
    decide +kernel
  refine ⟨hvalid, fun altered haltered => ?_⟩
  obtain ⟨hvalid', hid, hne, heq⟩ := hkept altered haltered
  refine ⟨hvalid', hid, hne, fun hdetects => ?_⟩
  exact (detects_iff_ne hvalid hvalid' (Finmap.lookup_empty _) hid.symm).1 hdetects heq

/-- **Which changes are detected**: those of the namespace, of the name, and of the list of the column
names. -/
theorem detects_iff (relations : Relations) (first second : WireRelation) (h : first.wire.Valid)
    (h' : second.wire.Valid) (hnew : relations.lookup first.id = none) (hid : first.id = second.id) :
    Detects relations first second ↔ first.«namespace» ≠ second.«namespace» ∨ first.name ≠ second.name ∨
      first.columns.map WireColumn.name ≠ second.columns.map WireColumn.name := by
  rw [detects_iff_ne h h' hnew hid]
  exact (conflicts_iff hid).symm

theorem detects_iff_columnAdded :
    Detects ∅ comments { comments with columns := comments.columns ++ [⟨0, "body", 25, -1⟩] } ↔
      "public" ≠ "public" ∨ "comments" ≠ "comments" ∨
        ["id", "document_id"] ≠ ["id", "document_id", "body"] :=
  detects_iff ∅ _ _ (by decide +kernel) (by decide +kernel) (Finmap.lookup_empty _) rfl

end WireRelation
end MiniGraph
