import MiniGraph.Edge.SubscriptionIndex
import MiniGraph.Lib.Run

/-!
# The subscription index refines a plain map

What the index is for is a `PlainMap`: the hint set of every live subscription. `Refines` ties both
maps of the index to it, every operation preserves it (`call_refines`), and so after any history of
calls the index answers and contains what the plain map says (`run_refines_plainMap`).
-/

namespace MiniGraph
open Lib

/-! ### The plain map -/

/-- A call of one of the three operations that change the index. -/
inductive IndexCall where
  | subscribe (subscriptionId : SubscriptionId) (hints : Finset QueryHint)
  | unsubscribe (subscriptionId : SubscriptionId)
  | updateHints (subscriptionId : SubscriptionId) (newHints : Finset QueryHint)

inductive IndexAnswer where
  | result (result : Except SubscriptionIndexError Unit)
  | removed (hints : Option (Finset QueryHint))

/-- The call was refused. -/
def IndexAnswer.Failed : IndexAnswer → Prop
  | .result (.ok ()) => False
  | .result (.error _) => True
  | .removed hints => hints = none

def SubscriptionIndex.call (order : Iteration QueryHint) (index : SubscriptionIndex) :
    IndexCall → IndexAnswer × SubscriptionIndex
  | .subscribe id hints =>
    (.result (index.subscribe order id hints).1, (index.subscribe order id hints).2)
  | .unsubscribe id => (.removed (index.unsubscribe order id).1, (index.unsubscribe order id).2)
  | .updateHints id newHints =>
    (.result (index.updateHints order id newHints).1, (index.updateHints order id newHints).2)

/-- The hint set of every live subscription. -/
abbrev PlainMap := SubscriptionId → Option (Finset QueryHint)

namespace PlainMap

def empty : PlainMap := fun _ => none

/-- The same calls on a plain map: a subscription id is taken once, and only a live one is updated
or removed. -/
def call (A : PlainMap) : IndexCall → IndexAnswer × PlainMap
  | .subscribe id hints =>
    match A id with
    | none => (.result (.ok ()), Function.update A id (some hints))
    | some _ => (.result (.error (.alreadySubscribed id)), A)
  | .unsubscribe id => (.removed (A id), Function.update A id none)
  | .updateHints id newHints =>
    match A id with
    | none => (.result (.error (.unknownSubscription id)), A)
    | some _ => (.result (.ok ()), Function.update A id (some newHints))

/-- `id` is live and depends on `hint`. -/
def DependsOn (A : PlainMap) (id : SubscriptionId) (hint : QueryHint) : Prop :=
  ∃ hints, A id = some hints ∧ hint ∈ hints

end PlainMap

/-! ### The relation -/

/-- Both maps of the index represent `A`. -/
structure SubscriptionIndex.Refines (index : SubscriptionIndex) (A : PlainMap) : Prop where
  hints : ∀ id, index.subscriptionHints.lookup id = A id
  inverted : ∀ hint id, id ∈ index.invertedIndex.bucket hint ↔ A.DependsOn id hint
  tight : index.invertedIndex.Tight

namespace SubscriptionIndex
variable {index : SubscriptionIndex} {A : PlainMap} {id : SubscriptionId}

theorem refines_empty : empty.Refines PlainMap.empty where
  hints := fun id => Finmap.lookup_empty id
  inverted := by
    intro hint id
    have hb : empty.invertedIndex.bucket hint = ∅ := by
      unfold empty Buckets.bucket
      rw [Finmap.lookup_empty, Option.getD_none]
    simp [hb, PlainMap.DependsOn, PlainMap.empty]
  tight := Buckets.tight_empty

theorem Refines.mem_iff (h : index.Refines A) : id ∈ index.subscriptionHints ↔ A id ≠ none := by
  rw [← h.hints, ← Finmap.lookup_isSome, Option.isSome_iff_ne_none]

/-- An edit of both maps that is about `id` only and leaves it with the hints `hints`. -/
theorem Refines.update (h : index.Refines A) {index' : SubscriptionIndex}
    {hints : Option (Finset QueryHint)} (hself : index'.subscriptionHints.lookup id = hints)
    (hother : ∀ id', id' ≠ id →
      index'.subscriptionHints.lookup id' = index.subscriptionHints.lookup id')
    (hbucket : ∀ hint id', id' ∈ index'.invertedIndex.bucket hint ↔
      if id' = id then hint ∈ hints.getD ∅ else id' ∈ index.invertedIndex.bucket hint)
    (htight : index'.invertedIndex.Tight) : index'.Refines (Function.update A id hints) where
  hints := by
    intro id'
    by_cases hid : id' = id
    · rw [hid, hself, Function.update_self]
    · rw [hother id' hid, h.hints, Function.update_of_ne hid]
  inverted := by
    intro hint id'
    rw [hbucket]
    unfold PlainMap.DependsOn
    split_ifs with hid
    · rw [hid, Function.update_self]
      cases hints <;> simp
    · rw [Function.update_of_ne hid, h.inverted]
      rfl
  tight := htight

variable (order : Iteration QueryHint)

theorem subscribe_refines (h : index.Refines A) (hid : A id = none) (hints : Finset QueryHint) :
    (index.subscribe order id hints).1 = .ok () ∧
      (index.subscribe order id hints).2.Refines (Function.update A id (some hints)) := by
  have hnot : id ∉ index.subscriptionHints := fun hmem => h.mem_iff.1 hmem hid
  unfold subscribe
  rw [if_neg hnot]
  refine ⟨rfl, h.update (Finmap.lookup_insert _) (fun _ => Finmap.lookup_insert_of_ne _) ?_ h.tight.linkAll⟩
  intro hint id'
  have hfresh : id ∉ index.invertedIndex.bucket hint := by
    rw [h.inverted]
    rintro ⟨_, hA, -⟩
    rw [hid] at hA
    cases hA
  simp only [Buckets.mem_bucket_linkAll, (order hints).mem_iff, Option.getD_some]
  split_ifs with he
  · rw [he]; simp [hfresh]
  · simp [he]

theorem unsubscribe_refines (h : index.Refines A) (id : SubscriptionId) :
    (index.unsubscribe order id).1 = A id ∧
      (index.unsubscribe order id).2.Refines (Function.update A id none) := by
  unfold unsubscribe
  rw [h.hints]
  cases hA : A id with
  | none =>
    have hupd : Function.update A id none = A := by rw [← hA, Function.update_eq_self]
    rw [hupd]
    exact ⟨rfl, h⟩
  | some hints =>
    refine ⟨rfl, h.update (Finmap.lookup_erase _ _) (fun _ => Finmap.lookup_erase_ne) ?_ h.tight.unlinkAll⟩
    intro hint id'
    simp only [Buckets.mem_bucket_unlinkAll, (order hints).mem_iff, Option.getD_none]
    split_ifs with he
    · rw [he, h.inverted, PlainMap.DependsOn, hA]; simp
    · simp [he]

theorem updateHints_refines (h : index.Refines A) (hid : A id ≠ none) (newHints : Finset QueryHint) :
    (index.updateHints order id newHints).1 = .ok () ∧
      (index.updateHints order id newHints).2.Refines (Function.update A id (some newHints)) := by
  obtain ⟨oldHints, hA⟩ := Option.ne_none_iff_exists'.1 hid
  unfold updateHints
  rw [h.hints, hA]
  refine ⟨rfl, h.update (Finmap.lookup_insert _) (fun _ => Finmap.lookup_insert_of_ne _) ?_
    h.tight.unlinkAll.linkAll⟩
  intro hint id'
  simp only [Buckets.mem_bucket_linkAll, Buckets.mem_bucket_unlinkAll, Enumeration.mem_iff,
    Finset.mem_sdiff, Option.getD_some]
  split_ifs with he
  · rw [he, h.inverted, PlainMap.DependsOn, hA]
    simp only [Option.some.injEq, exists_eq_left', true_and]
    tauto
  · simp [he]

/-! ### Calls that fail -/

theorem Refines.subscribe_live (h : index.Refines A) (hid : A id ≠ none) (hints : Finset QueryHint) :
    index.subscribe order id hints = (.error (.alreadySubscribed id), index) := by
  unfold subscribe
  rw [if_pos (h.mem_iff.2 hid)]

theorem Refines.unsubscribe_unknown (h : index.Refines A) (hid : A id = none) :
    index.unsubscribe order id = (none, index) := by
  unfold unsubscribe
  rw [h.hints, hid]

theorem Refines.updateHints_unknown (h : index.Refines A) (hid : A id = none) (newHints : Finset QueryHint) :
    index.updateHints order id newHints = (.error (.unknownSubscription id), index) := by
  unfold updateHints
  rw [h.hints, hid]

/-! ### Runs -/

/-- One call: the index answers as the plain map does, and they stay related. -/
theorem call_refines (h : index.Refines A) (c : IndexCall) :
    (index.call order c).1 = (A.call c).1 ∧ (index.call order c).2.Refines (A.call c).2 := by
  cases c with
  | subscribe id hints =>
    rcases hid : A id with _ | _
    · have hs := subscribe_refines order h hid hints
      simpa only [call, PlainMap.call, hid, hs.1, true_and] using hs.2
    · have hlive : A id ≠ none := by rw [hid]; nofun
      have hs := h.subscribe_live order hlive hints
      simpa only [call, PlainMap.call, hid, hs, true_and] using h
  | unsubscribe id =>
    have hs := unsubscribe_refines order h id
    simpa only [call, PlainMap.call, hs.1, true_and] using hs.2
  | updateHints id newHints =>
    rcases hid : A id with _ | _
    · have hs := h.updateHints_unknown order hid newHints
      simpa only [call, PlainMap.call, hid, hs, true_and] using h
    · have hlive : A id ≠ none := by rw [hid]; nofun
      have hs := updateHints_refines order h hlive newHints
      simpa only [call, PlainMap.call, hid, hs.1, true_and] using hs.2

/-! ### What the relation says about the index -/

theorem Refines.lookup_inverted (h : index.Refines A) (hint : QueryHint)
    (ids : Finset SubscriptionId) : index.invertedIndex.lookup hint = some ids ↔
      ids.Nonempty ∧ ∀ id, id ∈ ids ↔ A.DependsOn id hint := by
  constructor
  · intro hids
    have hbucket := Buckets.bucket_eq_of_lookup hids
    refine ⟨Finset.nonempty_iff_ne_empty.2 fun he => h.tight hint (he ▸ hids), fun id => ?_⟩
    rw [← hbucket, h.inverted]
  · rintro ⟨hne, hids⟩
    have hbucket : index.invertedIndex.bucket hint = ids := by
      ext id
      rw [h.inverted, hids]
    have hlookup := h.tight.lookup_eq_some (hbucket.symm ▸ hne)
    rwa [hbucket] at hlookup

theorem Refines.isEmpty_iff (h : index.Refines A) : index.isEmpty ↔ A = PlainMap.empty := by
  simp only [isEmpty, decide_eq_true_eq]
  constructor
  · rintro ⟨-, hhints⟩
    funext id
    rw [← h.hints, hhints]
    exact Finmap.lookup_empty id
  · rintro rfl
    refine ⟨h.tight.ext Buckets.tight_empty fun hint => ?_, Finmap.ext_lookup fun id => ?_⟩
    · ext id
      rw [h.inverted]
      exact (refines_empty.inverted hint id).symm
    · rw [h.hints]
      exact (refines_empty.hints id).symm

theorem Refines.failed (h : index.Refines A) {c : IndexCall} (hc : (index.call order c).1.Failed) :
    (index.call order c).2 = index := by
  rw [(call_refines order h c).1] at hc
  cases c with
  | subscribe id hints =>
    by_cases hid : A id = none
    · simp [PlainMap.call, hid, IndexAnswer.Failed] at hc
    · simp only [call, h.subscribe_live order hid]
  | unsubscribe id =>
    have hid : A id = none := hc
    simp only [call, h.unsubscribe_unknown order hid]
  | updateHints id newHints =>
    by_cases hid : A id = none
    · simp only [call, h.updateHints_unknown order hid]
    · obtain ⟨hints, hsome⟩ := Option.ne_none_iff_exists'.1 hid
      simp [PlainMap.call, hsome, IndexAnswer.Failed] at hc

/-- Contents and behaviour of the index are those of the plain map `A`. -/
structure Agrees (index : SubscriptionIndex) (A : PlainMap) : Prop where
  subscriptionHints : ∀ id, index.subscriptionHints.lookup id = A id
  invertedIndex : ∀ hint ids, index.invertedIndex.lookup hint = some ids ↔
    ids.Nonempty ∧ ∀ id, id ∈ ids ↔ A.DependsOn id hint
  subscriptionsForHint : ∀ hint id, id ∈ index.subscriptionsForHint hint ↔ A.DependsOn id hint
  isEmpty : index.isEmpty ↔ A = PlainMap.empty
  subscribe : ∀ order id hints, (index.subscribe order id hints).1 =
    if A id = none then .ok () else .error (.alreadySubscribed id)
  updateHints : ∀ order id newHints, (index.updateHints order id newHints).1 =
    if A id = none then .error (.unknownSubscription id) else .ok ()
  unsubscribe : ∀ order id, (index.unsubscribe order id).1 = A id
  failed : ∀ order c, (index.call order c).1.Failed → (index.call order c).2 = index

theorem Refines.agrees (h : index.Refines A) : index.Agrees A where
  subscriptionHints := h.hints
  invertedIndex := h.lookup_inverted
  subscriptionsForHint := h.inverted
  isEmpty := h.isEmpty_iff
  subscribe := by
    intro order id hints
    split_ifs with hid
    · exact (subscribe_refines order h hid hints).1
    · rw [h.subscribe_live order hid]
  updateHints := by
    intro order id newHints
    split_ifs with hid
    · rw [h.updateHints_unknown order hid]
    · exact (updateHints_refines order h hid newHints).1
  unsubscribe := fun order id => (unsubscribe_refines order h id).1
  failed := fun order _ => h.failed order

end SubscriptionIndex

/-! ### Histories -/

/-- The calls of a run, each with the iteration order its loops happened to take. -/
abbrev IndexHistory := List (Iteration QueryHint × IndexCall)

/-- A run from the empty index: its answers and its last state. -/
def SubscriptionIndex.run (history : IndexHistory) : List IndexAnswer × SubscriptionIndex :=
  runs (fun index c => index.call c.1 c.2) empty history

/-- The same calls on the plain map. -/
def PlainMap.run (history : IndexHistory) : List IndexAnswer × PlainMap :=
  runs (fun A c => A.call c.2) empty history

theorem SubscriptionIndex.run_refines (history : IndexHistory) :
    (run history).1 = (PlainMap.run history).1 ∧ (run history).2.Refines (PlainMap.run history).2 :=
  runs_simulation refines_empty (fun _ _ c h => call_refines c.1 h c.2) history

/-- **The index refines the plain map**: after any history of calls, from the empty index and with
any iteration orders, it has given the same answers, and agrees with it. -/
theorem SubscriptionIndex.run_refines_plainMap (history : IndexHistory) :
    (run history).1 = (PlainMap.run history).1 ∧
      (run history).2.Agrees (PlainMap.run history).2 :=
  ⟨(run_refines history).1, (run_refines history).2.agrees⟩

end MiniGraph
