import Ong.Scl.SclTransaction

/-!
# Creating and deleting subscriptions
-/

namespace Ong.Scl

open M2M

/-- What the controllers decide: which resources are contentInstances, and which managers are given
the filter criteria of their subscriptions. -/
structure Controllers where
  isContentInstances : Path → Bool
  dependsOnFilterCriteria : Path → Bool

/-- The path of the subscriptions of a resource. -/
def subscriptionsPath (subscribedPath : Path) : Path := subscribedPath ++ ["subscriptions"]

def subscriptionPath (subscribedPath : Path) (id : String) : Path :=
  subscribedPath ++ ["subscriptions", id]

namespace Subscription

variable (c : Controllers) (config : SclConfig) (it : IterationOrder)

variable (subscribedPath : Path)

/-- `getSubsManager`: where the manager of a stored subscription is registered. -/
def getSubsManager (attributeAccessor : Option String) : Path :=
  if attributeAccessor = some "latest/" ∨ attributeAccessor = some "latest"
  then subscriptionsPath subscribedPath ++ ["latest"] else subscriptionsPath subscribedPath

def createOp (id : String) (attributeAccessor : Option String)
    (filterCriteria : Option Nat) : SubCreateOp :=
  .new (subscriptionsPath subscribedPath) id ⟨subscriptionPath subscribedPath id, filterCriteria⟩
    (c.dependsOnFilterCriteria subscribedPath) (c.isContentInstances subscribedPath)
    attributeAccessor

/-- The creation of a subscription; there must not be one under the same path. -/
def create (id : String) (attributeAccessor : Option String)
    (filterCriteria : Option Nat) (faults : Faults) (w : World) : World :=
  match w.storage.lookup (subscriptionPath subscribedPath id) with
  | some _ => w
  | none =>
    SclTransaction.run config it faults
      { modifications :=
          [.create (subscriptionPath subscribedPath id) (.subscription attributeAccessor)]
        transientOps :=
          [.subCreate (createOp c subscribedPath id attributeAccessor filterCriteria)] } w

/-- The deletion of a subscription that is stored. -/
def delete (id : String) (faults : Faults) (w : World) : World :=
  match w.storage.lookup (subscriptionPath subscribedPath id) with
  | some (.subscription attributeAccessor) =>
    SclTransaction.run config it faults
      { modifications := [.delete (subscriptionPath subscribedPath id)]
        transientOps := [.subDelete ⟨getSubsManager subscribedPath attributeAccessor, id⟩] } w
  | _ => w

/-- What `subscriptionExpired` does for the notifier `id` of the manager registered under
`subsPath`: the storage deletes the subscription unless it fails.  `none` when there is no such
notifier. -/
def expire (subsPath : Path) (id : String) (deleted : Bool) (w : World) : Option World :=
  match w.volatile.subsManagers.getAttribute subsPath with
  | none => none
  | some r =>
    match (w.volatile.subsManagers.get r).removeSubscription it id w.volatile.shared with
    | (none, _, _) => none
    | (some sub, m, shared) =>
      some
        { storage := if deleted then w.storage.erase sub.path else w.storage
          volatile :=
            { w.volatile with
              subsManagers := w.volatile.subsManagers.set r m
              shared := shared } }

end Subscription

namespace Subscriptions

variable (storage : Storage)

/-- The paths of the resources stored under `path`. -/
def childPaths (path : Path) : List Path :=
  storage.keys.filter fun p => (splitPath p).map Prod.fst = some path

/-- The modifications of `deleteResource`. -/
def deleteModifications (subscribedPath : Path) : List Modification :=
  (childPaths storage (subscriptionsPath subscribedPath)).map .delete ++
    [.delete (subscriptionsPath subscribedPath)]

/-- The transient operations of `deleteResource`. -/
def deleteOps (subscribedPath : Path) : List TransientOp :=
  [.subsDelete ⟨subscriptionsPath subscribedPath⟩,
    .subsDelete ⟨subscriptionsPath subscribedPath ++ ["latest"]⟩]

/-- The transaction that deletes the subscriptions of some resources. -/
def deleteTransaction (subscribedPaths : List Path) : SclTransaction where
  modifications := subscribedPaths.flatMap (deleteModifications storage)
  transientOps := subscribedPaths.flatMap deleteOps

/-- The deletion of some resources, each of which was stored with the collection of its
subscriptions; `none` when one was not. -/
def deleteResources (config : SclConfig) (it : IterationOrder) (subscribedPaths : List Path)
    (faults : Faults) (w : World) : Option World :=
  if ∀ q ∈ subscribedPaths, w.storage.lookup (subscriptionsPath q) = some .collection
  then some (SclTransaction.run config it faults (deleteTransaction w.storage subscribedPaths) w)
  else none

end Subscriptions

inductive SubscriptionEvent
  | create (subscribedPath : Path) (id : String) (attributeAccessor : Option String)
      (filterCriteria : Option Nat) (faults : Faults)
  | delete (subscribedPath : Path) (id : String) (faults : Faults)
  | expire (subsPath : Path) (id : String) (deleted : Bool)
  | deleteResources (subscribedPaths : List Path) (faults : Faults)

/-- One event; `none` when it cannot happen. -/
def subscriptionStep (c : Controllers) (config : SclConfig) (it : IterationOrder) (w : World) :
    SubscriptionEvent → Option World
  | .create subscribedPath id attributeAccessor filterCriteria faults =>
    some (Subscription.create c config it subscribedPath id attributeAccessor filterCriteria faults w)
  | .delete subscribedPath id faults =>
    some (Subscription.delete config it subscribedPath id faults w)
  | .expire subsPath id deleted => Subscription.expire it subsPath id deleted w
  | .deleteResources subscribedPaths faults =>
    Subscriptions.deleteResources config it subscribedPaths faults w

end Ong.Scl
