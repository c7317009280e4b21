import Ong.M2M.Basic
import Ong.Lib.FiniteMap
import Ong.Scl.FilterCriteria

/-!
# The subscriptions of one resource

`SubsManager` holds the notifiers of the subscriptions of one resource.  For a resource that
depends on the filter criteria it also keeps the merge of the criteria of its subscriptions, as an
object that is at first the very object of its first subscription.
-/

namespace Ong.Scl

open M2M AList

/-- The limits read by `addSubscription`. -/
structure SclConfig where
  maxSubscriptionsPerResource : Int
  maxSubscriptions : Int

/-- What a `SubsManager` reads of a `SubManager`: where its subscription is stored, and the
reference of its filter criteria. -/
structure Sub where
  path : Path
  filterCriteria : Option Nat
  deriving DecidableEq

/-- The counter of `StatsManager`, the filter criteria objects, and the number of dates created. -/
structure Shared where
  nbOfSubscriptions : Int
  criteria : Store FilterCriteria
  nextDate : Nat

/-- The fields of `SubsManager`: whether `resourceContext` is not null, the notifiers by
subscription id, and the merged filter criteria. -/
structure SubsManager where
  dependsOnFilterCriteria : Bool
  subscriptions : AList fun _ : String => Sub
  filterCriteria : Option Nat

/-- The order in which a `HashMap` gives its values. -/
structure IterationOrder where
  order : List Sub → List Sub
  perm : ∀ l, (order l).Perm l

/-- The order of the entries themselves. -/
def noOrder : IterationOrder := ⟨id, fun l => .refl l⟩

namespace SubsManager

/-- `new SubsManager(...)`. -/
def new (dependsOnFilterCriteria : Bool) : SubsManager := ⟨dependsOnFilterCriteria, ∅, none⟩

def size (m : SubsManager) : Nat := m.subscriptions.entries.length

def isEmpty (m : SubsManager) : Bool := m.subscriptions.entries.isEmpty

def values (m : SubsManager) : List Sub := m.subscriptions.entries.map Sigma.snd

def getSubscription (id : String) (m : SubsManager) : Option Sub := m.subscriptions.lookup id

variable (criteria : Store FilterCriteria)

/-- `filterCriteria = mergeFilterCriteria(filterCriteria, other)`: the merge is made in place in
the first object. -/
def mergeInto (merged other : Option Nat) :
    Store FilterCriteria × Option Nat :=
  match merged, other with
  | some r, some f =>
    (criteria.set r (ContentInstances.mergeFilterCriteria (criteria.get r) (criteria.get f)), some r)
  | _, _ => (criteria, none)

/-- `addSubscription`; `none` when one of the two quotas is reached. -/
def addSubscription (config : SclConfig) (id : String) (subscription : Sub) (m : SubsManager)
    (sh : Shared) : Option (SubsManager × Shared) :=
  if m.size < config.maxSubscriptionsPerResource ∧ sh.nbOfSubscriptions < config.maxSubscriptions then
    let (criteria, filterCriteria) :=
      if m.dependsOnFilterCriteria then
        if m.size = 0 then (sh.criteria, subscription.filterCriteria)
        else mergeInto sh.criteria m.filterCriteria subscription.filterCriteria
      else (sh.criteria, m.filterCriteria)
    some ({ m with
        subscriptions := m.subscriptions.insert id subscription
        filterCriteria := filterCriteria },
      { sh with nbOfSubscriptions := sh.nbOfSubscriptions + 1, criteria := criteria })
  else none

/-- The merges of `removeSubscription`, one for each remaining subscription. -/
def mergeAll (merged : Store FilterCriteria × Option Nat) (subs : List Sub) :
    Store FilterCriteria × Option Nat :=
  subs.foldl (fun (criteria, merged) sub => mergeInto criteria merged sub.filterCriteria) merged

/-- `subscriptions.remove(id)`. -/
def erase (id : String) (m : SubsManager) : SubsManager :=
  { m with subscriptions := m.subscriptions.erase id }

variable (it : IterationOrder)

/-- `removeSubscription`, with the notifier it returns. -/
def removeSubscription (id : String) (m : SubsManager) (sh : Shared) :
    Option Sub × SubsManager × Shared :=
  match m.subscriptions.lookup id with
  | none => (none, m, sh)
  | some sub =>
    let rest := m.erase id
    let sh := { sh with nbOfSubscriptions := sh.nbOfSubscriptions - 1 }
    if m.dependsOnFilterCriteria then
      match it.order rest.values with
      | [] => (some sub, rest, sh)
      | [last] => (some sub, { rest with filterCriteria := last.filterCriteria }, sh)
      | remaining =>
        let (criteria, merged) := mergeAll (sh.criteria, m.filterCriteria) remaining
        (some sub, { rest with filterCriteria := merged }, { sh with criteria := criteria })
    else (some sub, rest, sh)

/-- `new Date(time)`. -/
def newDate (time : Int) (sh : Shared) : Date × Shared :=
  (⟨sh.nextDate, time⟩, { sh with nextDate := sh.nextDate + 1 })

/-- The `ifModifiedSince` of the criteria under a reference that may be null. -/
def ifModifiedSince (r : Option Nat) : Option Date :=
  r.bind fun r => (criteria.get r).ifModifiedSince

def setIfModifiedSince (r : Nat) (date : Date) (criteria : Store FilterCriteria) :
    Store FilterCriteria :=
  criteria.set r { criteria.get r with ifModifiedSince := some date }

/-- The loop of `updateIfModifiedSince`: the earliest date, unless one is missing. -/
def earliestIfModifiedSince (start : Date) (subs : List Sub) :
    Option Date :=
  subs.foldl (fun current sub =>
    match current, ifModifiedSince criteria sub.filterCriteria with
    | some current, some date => if date.time < current.time then some date else some current
    | _, _ => none) (some start)

/-- `updateIfModifiedSince`; the dates are compared by reference. -/
def updateIfModifiedSince (subFilterCriteria : Nat) (old : Option Date)
    (date : Date) (m : SubsManager) (sh : Shared) : SubsManager × Shared :=
  if m.size = 1 then ({ m with filterCriteria := some subFilterCriteria }, sh)
  else if (ifModifiedSince sh.criteria m.filterCriteria).map Date.ref = old.map Date.ref then
    match earliestIfModifiedSince sh.criteria date (it.order m.values) with
    | none => (m, sh)
    | some current =>
      match m.filterCriteria with
      | some r => (m, { sh with criteria := setIfModifiedSince r current sh.criteria })
      | none =>
        ({ m with filterCriteria := some sh.criteria.next },
          { sh with criteria := sh.criteria.alloc { ifModifiedSince := some current } })
  else (m, sh)

/-- `if (filterCriteria == null) filterCriteria = buildFilterCriteria()`, for the notifier of a
subscription, with the reference of its criteria. -/
def ownFilterCriteria (id : String) (sub : Sub) (m : SubsManager) (sh : Shared) :
    Nat × SubsManager × Shared :=
  match sub.filterCriteria with
  | some r => (r, m, sh)
  | none =>
    let sub : Sub := { sub with filterCriteria := some sh.criteria.next }
    (sh.criteria.next, { m with subscriptions := m.subscriptions.insert id sub },
      { sh with criteria := sh.criteria.alloc {} })

/-- The filter criteria part of `SubManager.doSuccessConfirm`: the criteria of the subscription,
built when it has none, moves to the time of the confirmed request. -/
def confirmFilterCriteria (id : String) (pendingLastSuccessRequestTime : Int)
    (m : SubsManager) (sh : Shared) : Option (SubsManager × Shared) :=
  (m.subscriptions.lookup id).map fun sub =>
    let (r, m, sh) := m.ownFilterCriteria id sub sh
    let (date, sh) := newDate pendingLastSuccessRequestTime sh
    let old := (sh.criteria.get r).ifModifiedSince
    m.updateIfModifiedSince it r old date
      { sh with criteria := setIfModifiedSince r date sh.criteria }

/-! ## What the operations do to the subscriptions -/

variable {config : SclConfig} {id : String} {sub : Sub} {m : SubsManager} {sh : Shared}
  {m' : SubsManager}

theorem addSubscription_eq_some {sh' : Shared}
    (h : m.addSubscription config id sub sh = some (m', sh')) :
    (m.size < config.maxSubscriptionsPerResource ∧
      sh.nbOfSubscriptions < config.maxSubscriptions) ∧
      m'.subscriptions = m.subscriptions.insert id sub ∧
      m'.dependsOnFilterCriteria = m.dependsOnFilterCriteria ∧
      sh'.nbOfSubscriptions = sh.nbOfSubscriptions + 1 ∧ sh'.nextDate = sh.nextDate ∧
      (sh'.criteria, m'.filterCriteria) =
        (if m.dependsOnFilterCriteria then
          if m.size = 0 then (sh.criteria, sub.filterCriteria)
          else mergeInto sh.criteria m.filterCriteria sub.filterCriteria
        else (sh.criteria, m.filterCriteria)) := by
  rw [addSubscription] at h
  split at h
  case isTrue hquota =>
    cases h
    exact ⟨hquota, rfl, rfl, rfl, rfl, rfl⟩
  case isFalse => cases h

theorem getSubscription_insert {m : SubsManager} {id k : String} {sub : Sub}
    {subs : AList fun _ : String => Sub} (hm : m.subscriptions = subs.insert id sub) :
    m.getSubscription k = if k = id then some sub else subs.lookup k := by
  rw [getSubscription, hm]
  split
  case isTrue h => rw [h, lookup_insert]
  case isFalse h => rw [lookup_insert_ne h]

theorem addSubscription_eq_none :
    m.addSubscription config id sub sh = none ↔
      ¬ (m.size < config.maxSubscriptionsPerResource ∧
        sh.nbOfSubscriptions < config.maxSubscriptions) := by
  rw [addSubscription]
  split <;> simp_all

theorem removeSubscription_spec (id : String) (m : SubsManager)
    (sh : Shared) :
    (m.removeSubscription it id sh).1 = m.getSubscription id ∧
      (m.removeSubscription it id sh).2.1.subscriptions = m.subscriptions.erase id ∧
      (m.removeSubscription it id sh).2.2.nbOfSubscriptions =
        sh.nbOfSubscriptions - if (m.getSubscription id).isSome then 1 else 0 := by
  unfold removeSubscription getSubscription
  cases h : m.subscriptions.lookup id with
  | none =>
    refine ⟨rfl, ?_, by simp⟩
    apply ext
    exact (List.kerase_of_notMem_keys (lookup_eq_none.mp h)).symm
  | some sub =>
    dsimp only
    split
    · split <;> exact ⟨rfl, rfl, by simp⟩
    · exact ⟨rfl, rfl, by simp⟩

theorem getSubscription_erase {m : SubsManager} {id k : String}
    (hm : m'.subscriptions = m.subscriptions.erase id) :
    m'.getSubscription k = if k = id then none else m.getSubscription k := by
  rw [getSubscription, hm]
  split
  case isTrue h => rw [h, lookup_erase]
  case isFalse h =>
    rw [lookup_erase_ne h]
    rfl

theorem isEmpty_iff : m.isEmpty = true ↔ ∀ id, m.getSubscription id = none := by
  rw [isEmpty, List.isEmpty_iff]
  refine ⟨fun h id => ?_, fun h => ?_⟩
  · rw [getSubscription, lookup, h]
    rfl
  · refine List.eq_nil_iff_forall_not_mem.mpr fun e he => ?_
    have hlookup : m.getSubscription e.1 = some e.2 := mem_lookup_iff.mpr he
    rw [h e.1] at hlookup
    cases hlookup

theorem size_insert_of_lookup_none (h : m.getSubscription id = none)
    (hm : m'.subscriptions = m.subscriptions.insert id sub) : m'.size = m.size + 1 := by
  rw [size, hm, entries_insert, List.length_cons,
    List.kerase_of_notMem_keys (lookup_eq_none.mp h)]
  rfl

theorem size_erase_of_lookup (h : m.getSubscription id = some sub)
    (hm : m'.subscriptions = m.subscriptions.erase id) : m'.size + 1 = m.size := by
  have hp := (FiniteMap.entries_perm_of_lookup h).length_eq
  rw [size, size, hm, hp, List.length_cons]

theorem subscriptions_erase_of_lookup_none (h : m.getSubscription id = none) :
    m.subscriptions.erase id = m.subscriptions := by
  apply ext
  exact List.kerase_of_notMem_keys (lookup_eq_none.mp h)

theorem size_removeSubscription (id : String) (m : SubsManager)
    (sh : Shared) :
    ((m.removeSubscription it id sh).2.1.size : ℤ) - m.size =
      (m.removeSubscription it id sh).2.2.nbOfSubscriptions - sh.nbOfSubscriptions := by
  obtain ⟨-, hm, hnb⟩ := removeSubscription_spec it id m sh
  rw [hnb]
  cases h : m.getSubscription id with
  | none =>
    rw [subscriptions_erase_of_lookup_none h] at hm
    rw [size, hm]
    simp [size]
  | some sub =>
    have := size_erase_of_lookup h hm
    simp
    omega

theorem size_eq_zero_iff : m.size = 0 ↔ m.isEmpty = true := by
  rw [size, isEmpty, List.length_eq_zero_iff, List.isEmpty_iff]

theorem size_insert_of_lookup {sub' : Sub} (h : m.getSubscription id = some sub) :
    ({ m with subscriptions := m.subscriptions.insert id sub' } : SubsManager).size = m.size := by
  have he : (m.erase id).size + 1 = m.size := size_erase_of_lookup h rfl
  rw [← he, size, entries_insert, List.length_cons]
  rfl

end SubsManager

end Ong.Scl
