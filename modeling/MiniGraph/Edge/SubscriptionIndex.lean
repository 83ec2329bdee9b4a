import MiniGraph.Lib.HashTable
import MiniGraph.Wal.Types

/-!
# The subscription index (`src/edge/subscription_index.rs`)

Two mutually inverse hash maps, edited together. The loops over hash sets take the iteration order
as an argument.
-/

namespace MiniGraph
open Lib

abbrev SubscriptionId := String

inductive SubscriptionIndexError where
  | alreadySubscribed (id : SubscriptionId)
  | unknownSubscription (id : SubscriptionId)
deriving DecidableEq, Repr

structure SubscriptionIndex where
  /-- hint -> subscriptions -/
  invertedIndex : Buckets QueryHint SubscriptionId
  /-- subscription -> hints (reverse index) -/
  subscriptionHints : Finmap fun _ : SubscriptionId => Finset QueryHint

namespace SubscriptionIndex

/-- `SubscriptionIndex::default()`. -/
def empty : SubscriptionIndex := ⟨∅, ∅⟩

def subscribe (order : Iteration QueryHint) (index : SubscriptionIndex)
    (subscriptionId : SubscriptionId) (hints : Finset QueryHint) :
    Except SubscriptionIndexError Unit × SubscriptionIndex :=
  if subscriptionId ∈ index.subscriptionHints then
    (.error (.alreadySubscribed subscriptionId), index)
  else
    (.ok (),
      { invertedIndex := index.invertedIndex.linkAll subscriptionId (order hints).toList
        subscriptionHints := index.subscriptionHints.insert subscriptionId hints })

def unsubscribe (order : Iteration QueryHint) (index : SubscriptionIndex)
    (subscriptionId : SubscriptionId) : Option (Finset QueryHint) × SubscriptionIndex :=
  match index.subscriptionHints.lookup subscriptionId with
  | none => (none, index)
  | some hints =>
    (some hints,
      { invertedIndex := index.invertedIndex.unlinkAll subscriptionId (order hints).toList
        subscriptionHints := index.subscriptionHints.erase subscriptionId })

def updateHints (order : Iteration QueryHint) (index : SubscriptionIndex)
    (subscriptionId : SubscriptionId) (newHints : Finset QueryHint) :
    Except SubscriptionIndexError Unit × SubscriptionIndex :=
  match index.subscriptionHints.lookup subscriptionId with
  | none => (.error (.unknownSubscription subscriptionId), index)
  | some oldHints =>
    let removed := (order (oldHints \ newHints)).toList
    let added := (order (newHints \ oldHints)).toList
    (.ok (),
      { invertedIndex := (index.invertedIndex.unlinkAll subscriptionId removed).linkAll
          subscriptionId added
        subscriptionHints := index.subscriptionHints.insert subscriptionId newHints })

def subscriptionsForHint (index : SubscriptionIndex) (hint : QueryHint) : Finset SubscriptionId :=
  index.invertedIndex.bucket hint

def hintsForSubscription (index : SubscriptionIndex) (subscriptionId : SubscriptionId) :
    Option (Finset QueryHint) :=
  index.subscriptionHints.lookup subscriptionId

/-- `is_empty`: both maps are. -/
def isEmpty (index : SubscriptionIndex) : Bool :=
  index.invertedIndex = ∅ ∧ index.subscriptionHints = ∅

end SubscriptionIndex
end MiniGraph
