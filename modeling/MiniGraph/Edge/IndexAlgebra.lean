import Mathlib.Data.Prod.Lex
import Mathlib.Data.String.Basic
import MiniGraph.Edge.IndexRefinement

/-!
# Laws of the subscription index

A plain map determines the index that refines it (`Refines.unique`), iteration orders included: the
loops may visit the hints in any order and end in the same two tables. So a law of the calls on plain
maps is a law of the index on every reachable state. There a call reads and writes the entry of its
own subscription only (`PlainMap.call_eq`), which gives the two laws of this file: `update_hints` is
`unsubscribe` and then `subscribe`, and calls on different subscriptions commute.
-/

namespace MiniGraph
open Lib

/-! ### Calls on the plain map -/

def IndexCall.subscriptionId : IndexCall → SubscriptionId
  | .subscribe id _ => id
  | .unsubscribe id => id
  | .updateHints id _ => id

/-- What a call answers, and what it leaves as the entry of its subscription, given that entry. -/
def IndexCall.onEntry : IndexCall → Option (Finset QueryHint) →
    IndexAnswer × Option (Finset QueryHint)
  | .subscribe _ hints, none => (.result (.ok ()), some hints)
  | .subscribe id _, some hints => (.result (.error (.alreadySubscribed id)), some hints)
  | .unsubscribe _, entry => (.removed entry, none)
  | .updateHints id _, none => (.result (.error (.unknownSubscription id)), none)
  | .updateHints _ newHints, some _ => (.result (.ok ()), some newHints)

namespace PlainMap
variable (A : PlainMap)

theorem call_eq (c : IndexCall) : A.call c =
    ((c.onEntry (A c.subscriptionId)).1,
      Function.update A c.subscriptionId (c.onEntry (A c.subscriptionId)).2) := by
  cases c with
  | subscribe id hints =>
    rcases hid : A id with _ | old
    · simp only [call, IndexCall.subscriptionId, IndexCall.onEntry, hid]
    · have hsame : Function.update A id (some old) = A := by rw [← hid, Function.update_eq_self]
      simp only [call, IndexCall.subscriptionId, IndexCall.onEntry, hid, hsame]
  | unsubscribe id => rfl
  | updateHints id newHints =>
    rcases hid : A id with _ | old
    · have hsame : Function.update A id none = A := by rw [← hid, Function.update_eq_self]
      simp only [call, IndexCall.subscriptionId, IndexCall.onEntry, hid, hsame]
    · simp only [call, IndexCall.subscriptionId, IndexCall.onEntry, hid]

theorem call_of_ne {c : IndexCall} {id : SubscriptionId} (h : id ≠ c.subscriptionId) :
    (A.call c).2 id = A id := by
  rw [call_eq]
  exact Function.update_of_ne h _ _

theorem call_answer_comm {c c' : IndexCall} (h : c.subscriptionId ≠ c'.subscriptionId) :
    ((A.call c').2.call c).1 = (A.call c).1 := by
  rw [call_eq, call_of_ne A h, call_eq A c]

theorem call_comm {c c' : IndexCall} (h : c.subscriptionId ≠ c'.subscriptionId) :
    ((A.call c).2.call c').2 = ((A.call c').2.call c).2 := by
  rw [call_eq (A.call c).2, call_eq (A.call c').2, call_of_ne A h, call_of_ne A h.symm, call_eq A c,
    call_eq A c']
  exact Function.update_comm h _ _ A

theorem updateHints_eq {id : SubscriptionId} (hid : A id ≠ none) (newHints : Finset QueryHint) :
    A.call (.updateHints id newHints) =
      (.result (.ok ()), ((A.call (.unsubscribe id)).2.call (.subscribe id newHints)).2) := by
  obtain ⟨old, hold⟩ := Option.ne_none_iff_exists'.1 hid
  simp only [call_eq, IndexCall.subscriptionId, IndexCall.onEntry, hold, Function.update_self,
    Function.update_idem]

end PlainMap

/-! ### Calls on the index -/

namespace SubscriptionIndex
variable {index index' : SubscriptionIndex} {A : PlainMap}

/-- Two indices that represent one plain map are equal, keys included. -/
theorem Refines.unique (h : index.Refines A) (h' : index'.Refines A) : index = index' := by
  have hhints : index.subscriptionHints = index'.subscriptionHints :=
    Finmap.ext_lookup fun id => by rw [h.hints, h'.hints]
  have hinverted : index.invertedIndex = index'.invertedIndex := by
    refine h.tight.ext h'.tight fun hint => ?_
    ext id
    rw [h.inverted, h'.inverted]
  cases index
  cases index'
  simp only at hhints hinverted
  rw [hhints, hinverted]

theorem Refines.call (h : index.Refines A) (order : Iteration QueryHint) (c : IndexCall) :
    (index.call order c).2.Refines (A.call c).2 := (call_refines order h c).2

theorem Refines.answer (h : index.Refines A) (order : Iteration QueryHint) (c : IndexCall) :
    (index.call order c).1 = (A.call c).1 := (call_refines order h c).1

/-- `id'` has the same hints and is in the same buckets. -/
structure SameFor (id' : SubscriptionId) (index index' : SubscriptionIndex) : Prop where
  hints : index'.hintsForSubscription id' = index.hintsForSubscription id'
  buckets : ∀ hint, id' ∈ index'.subscriptionsForHint hint ↔ id' ∈ index.subscriptionsForHint hint

theorem Refines.sameFor (h : index.Refines A) (order : Iteration QueryHint) {c : IndexCall}
    {id' : SubscriptionId} (hne : id' ≠ c.subscriptionId) :
    SameFor id' index (index.call order c).2 := by
  have hcall := h.call order c
  have hentry : (A.call c).2 id' = A id' := A.call_of_ne hne
  refine ⟨?_, fun hint => ?_⟩
  · show (index.call order c).2.subscriptionHints.lookup id' = index.subscriptionHints.lookup id'
    rw [hcall.hints, h.hints, hentry]
  · show id' ∈ (index.call order c).2.invertedIndex.bucket hint ↔ id' ∈ index.invertedIndex.bucket hint
    rw [hcall.inverted, h.inverted, PlainMap.DependsOn, hentry]
    rfl

/-- **`update_hints` is `unsubscribe` and then `subscribe`**: on a live subscription of a reachable
index it succeeds, leaves the two maps that the two calls leave, and changes nothing for any other
subscription. -/
theorem updateHints_eq_resubscribe (history : IndexHistory) (id : SubscriptionId)
    (newHints : Finset QueryHint) (order order' order'' : Iteration QueryHint)
    (hlive : id ∈ (run history).2.subscriptionHints) :
    (run history).2.updateHints order id newHints =
        (.ok (), (((run history).2.unsubscribe order' id).2.subscribe order'' id newHints).2) ∧
      ∀ id', id' ≠ id →
        SameFor id' (run history).2 ((run history).2.updateHints order id newHints).2 := by
  have h := (run_refines history).2
  generalize (run history).2 = index at h hlive ⊢
  generalize (PlainMap.run history).2 = A at h
  have hid : A id ≠ none := h.mem_iff.1 hlive
  have hpair := (h.call order' (.unsubscribe id)).call order'' (.subscribe id newHints)
  have hupdate := h.call order (.updateHints id newHints)
  rw [A.updateHints_eq hid] at hupdate
  refine ⟨Prod.ext (updateHints_refines order h hid newHints).1 (hupdate.unique hpair), ?_⟩
  exact fun id' hne => h.sameFor order (c := .updateHints id newHints) hne

theorem fields_injective :
    Function.Injective fun hint : QueryHint => toLex (toLex (hint.table, hint.column), hint.value) := by
  rintro ⟨table, column, value⟩ ⟨table', column', value'⟩ h
  obtain ⟨hcolumn, rfl⟩ := Prod.mk.inj (toLex.injective h)
  obtain ⟨rfl, rfl⟩ := Prod.mk.inj (toLex.injective hcolumn)
  rfl

/-- A loop that visits the hints by table, column and value. -/
def byFields : Iteration QueryHint := @Iteration.sorted QueryHint (LinearOrder.lift' _ fields_injective)

/-- Two subscriptions that share a hint. -/
def sharedHint : IndexHistory :=
  [(byFields, .subscribe "a" {⟨"documents", "id", "1"⟩, ⟨"documents", "id", "2"⟩}),
    (byFields, .subscribe "b" {⟨"documents", "id", "2"⟩})]

theorem updateHints_eq_resubscribe_sharedHint :
    (run sharedHint).2.updateHints byFields "a" {⟨"documents", "id", "3"⟩} =
        (.ok (), (((run sharedHint).2.unsubscribe byFields "a").2.subscribe byFields "a"
          {⟨"documents", "id", "3"⟩}).2) ∧
      SameFor "b" (run sharedHint).2
        ((run sharedHint).2.updateHints byFields "a" {⟨"documents", "id", "3"⟩}).2 := by
  have h := updateHints_eq_resubscribe sharedHint "a" {⟨"documents", "id", "3"⟩} byFields byFields
    byFields (by decide +kernel)
  exact ⟨h.1, h.2 "b" (by decide)⟩

/-- **Calls on different subscriptions commute**: in either order they leave the same two maps, and
each gives the same answer. -/
theorem calls_commute (history : IndexHistory) (c c' : IndexCall)
    (order order' order₂ order₂' : Iteration QueryHint) (hne : c.subscriptionId ≠ c'.subscriptionId) :
    (((run history).2.call order c).2.call order' c').2 =
        (((run history).2.call order₂' c').2.call order₂ c).2 ∧
      ((run history).2.call order c).1 = (((run history).2.call order₂' c').2.call order₂ c).1 ∧
      (((run history).2.call order c).2.call order' c').1 = ((run history).2.call order₂' c').1 := by
  have h := (run_refines history).2
  generalize (run history).2 = index at h ⊢
  generalize (PlainMap.run history).2 = A at h
  have hfirst := (h.call order c).call order' c'
  have hsecond := (h.call order₂' c').call order₂ c
  rw [A.call_comm hne] at hfirst
  refine ⟨hfirst.unique hsecond, ?_, ?_⟩
  · rw [h.answer, (h.call order₂' c').answer, A.call_answer_comm hne]
  · rw [h.answer, (h.call order c).answer, A.call_answer_comm hne.symm]

theorem calls_commute_sharedHint :
    (((run sharedHint).2.call byFields (.unsubscribe "a")).2.call byFields (.updateHints "b" ∅)).2 =
        (((run sharedHint).2.call byFields (.updateHints "b" ∅)).2.call byFields (.unsubscribe "a")).2 ∧
      ((run sharedHint).2.call byFields (.unsubscribe "a")).1 =
        (((run sharedHint).2.call byFields (.updateHints "b" ∅)).2.call byFields
          (.unsubscribe "a")).1 ∧
      (((run sharedHint).2.call byFields (.unsubscribe "a")).2.call byFields (.updateHints "b" ∅)).1 =
        ((run sharedHint).2.call byFields (.updateHints "b" ∅)).1 :=
  calls_commute sharedHint (.unsubscribe "a") (.updateHints "b" ∅) byFields byFields byFields byFields
    (by decide)

end SubscriptionIndex
end MiniGraph
