import Ong.Lib.Run
import Ong.Scl.Subscriptions
import Ong.Scl.SclTransactionAtomic

/-!
# The quotas on subscriptions

The counter of all the subscriptions is changed by additions, removals, rollbacks and expirations,
each of which changes a manager as much.  The deletion of a resource removes its managers and leaves
the counter as it is.

## Main results

* `quota_iff`: the property holds all along a run exactly when the condition does
-/

namespace Ong.Scl

open M2M SubsManager Registry SclTransaction Subscription Subscriptions TransientOp List

/-- The number of subscriptions held by the registered managers. -/
def heldSubscriptions (g : Registry Path SubsManager) : ℤ := g.total fun m => m.size

def excess (v : Volatile) : ℤ := v.shared.nbOfSubscriptions - heldSubscriptions v.subsManagers

/-- No registered manager holds more than its quota. -/
def WithinQuota (config : SclConfig) (g : Registry Path SubsManager) : Prop :=
  ∀ p m, g.view p = some m → (m.size : ℤ) ≤ config.maxSubscriptionsPerResource

/-- The counter is the number of subscriptions held, and each manager is within its quota. -/
def QuotaKept (config : SclConfig) (w : World) : Prop :=
  w.volatile.shared.nbOfSubscriptions = heldSubscriptions w.volatile.subsManagers ∧
    WithinQuota config w.volatile.subsManagers

variable {it : IterationOrder} {config : SclConfig} {g : Registry Path SubsManager}

section Registry

variable {p : Path} {r : Nat} {m : SubsManager}

theorem heldSubscriptions_getOrCreate (g : Registry Path SubsManager) (p : Path)
    (depends : Bool) :
    heldSubscriptions (g.getOrCreate p (.new depends)).2 = heldSubscriptions g :=
  total_getOrCreate (fun m : SubsManager => (m.size : ℤ)) rfl p

theorem heldSubscriptions_set (h : g.getAttribute p = some r) :
    heldSubscriptions (g.set r m) = heldSubscriptions g - (g.get r).size + m.size :=
  total_set _ h m

theorem heldSubscriptions_removeAttribute_le (g : Registry Path SubsManager) (p : Path) :
    heldSubscriptions (g.removeAttribute p) ≤ heldSubscriptions g := by
  have h := total_removeAttribute (fun m : SubsManager => (m.size : ℤ)) (g := g) (k := p)
  have hpos : 0 ≤ (g.view p).elim 0 fun m : SubsManager => (m.size : ℤ) := by
    cases g.view p with
    | none => exact le_rfl
    | some m => exact Int.natCast_nonneg _
  unfold heldSubscriptions
  omega

theorem heldSubscriptions_removeAttribute (h : ∀ m, g.view p = some m → m.isEmpty = true) :
    heldSubscriptions (g.removeAttribute p) = heldSubscriptions g := by
  have htotal := total_removeAttribute (fun m : SubsManager => (m.size : ℤ)) (g := g)
    (k := p)
  have hzero : (g.view p).elim 0 (fun m : SubsManager => (m.size : ℤ)) = 0 := by
    cases hm : g.view p with
    | none => rfl
    | some m =>
      rw [Option.elim_some, size_eq_zero_iff.mpr (h m hm)]
      rfl
  unfold heldSubscriptions
  omega

theorem withinQuota_set (hp : g.getAttribute p = some r)
    (hother : ∀ q ≠ p, ∀ m', g.view q = some m' →
      (m'.size : ℤ) ≤ config.maxSubscriptionsPerResource)
    (hm : (m.size : ℤ) ≤ config.maxSubscriptionsPerResource) : WithinQuota config (g.set r m) := by
  intro q m' hq
  by_cases hqp : q = p
  · subst hqp
    rw [view_set hp] at hq
    cases hq
    exact hm
  · rw [(owned_of_getAttribute hp).view_set_of_ne hqp] at hq
    exact hother q hqp m' hq

theorem WithinQuota.removeAttribute (h : WithinQuota config g) (p : Path) :
    WithinQuota config (g.removeAttribute p) := by
  intro q m' hq
  by_cases hqp : q = p
  · rw [hqp, view_removeAttribute_self] at hq
    cases hq
  · rw [view_removeAttribute_of_ne hqp] at hq
    exact h q m' hq

end Registry

section Volatile

variable {v : Volatile} {p : Path} {r : Nat} {id : String} {sub : Sub} {m : SubsManager}
  {sh : Shared}

theorem excess_removeSubscription (it : IterationOrder)
    (hp : v.subsManagers.getAttribute p = some r) (id : String) :
    excess { v with
      subsManagers := v.subsManagers.set r
        ((v.subsManagers.get r).removeSubscription it id v.shared).2.1
      shared := ((v.subsManagers.get r).removeSubscription it id v.shared).2.2 } = excess v := by
  have hsize := size_removeSubscription it id (v.subsManagers.get r) v.shared
  unfold excess
  dsimp only
  rw [heldSubscriptions_set hp]
  omega

theorem excess_addSubscription (hp : v.subsManagers.getAttribute p = some r)
    (hn : (v.subsManagers.get r).getSubscription id = none)
    (hadd : (v.subsManagers.get r).addSubscription config id sub v.shared = some (m, sh)) :
    excess { v with subsManagers := v.subsManagers.set r m, shared := sh } = excess v := by
  obtain ⟨-, hm, -, hnb, -⟩ := addSubscription_eq_some hadd
  have hsize := size_insert_of_lookup_none hn hm
  unfold excess
  rw [heldSubscriptions_set hp, hnb]
  omega

/-! ## Creations -/

theorem subCreate_rollback_excess {op : SubCreateOp} {f : Fields} (hf : f.subsManager = some r)
    (hr : v.subsManagers.getAttribute op.subsPath = some r) :
    excess (op.rollback it f v) = excess v := by
  have hremove := excess_removeSubscription it hr op.subId
  unfold SubCreateOp.rollback
  rw [hf]
  dsimp only
  split
  · next hempty =>
    rw [← hremove]
    unfold excess
    rw [heldSubscriptions_removeAttribute]
    intro m hm
    rw [view_set hr] at hm
    cases hm
    exact hempty
  · exact hremove

theorem subCreate_rollback_withinQuota {op : SubCreateOp} {f : Fields} (hf : f.subsManager = some r)
    (hr : v.subsManagers.getAttribute op.subsPath = some r)
    (hother : ∀ q ≠ op.subsPath, ∀ m, v.subsManagers.view q = some m →
      (m.size : ℤ) ≤ config.maxSubscriptionsPerResource)
    (hsize : ((v.subsManagers.get r).removeSubscription it op.subId v.shared).2.1.size ≠ 0 →
      (((v.subsManagers.get r).removeSubscription it op.subId v.shared).2.1.size : ℤ) ≤
        config.maxSubscriptionsPerResource) :
    WithinQuota config (op.rollback it f v).subsManagers := by
  unfold SubCreateOp.rollback
  rw [hf]
  dsimp only
  split
  · intro q m hq
    have hqp : q ≠ op.subsPath := by
      rintro rfl
      rw [view_removeAttribute_self] at hq
      cases hq
    rw [view_removeAttribute_of_ne hqp,
      (owned_of_getAttribute hr).view_set_of_ne hqp] at hq
    exact hother q hqp m hq
  · next hempty =>
    refine withinQuota_set hr hother (hsize ?_)
    rwa [Ne, size_eq_zero_iff]

theorem subCreate_rollback_getAttribute {op : SubCreateOp} {f : Fields} {q : Path}
    (h : (op.rollback it f v).subsManagers.getAttribute q ≠ none) :
    v.subsManagers.getAttribute q ≠ none := by
  unfold SubCreateOp.rollback at h
  split at h
  · exact h
  · dsimp only at h
    split at h
    · by_cases hq : q = op.subsPath
      · rw [hq, getAttribute_removeAttribute_self] at h
        exact absurd rfl h
      · rwa [getAttribute_removeAttribute_of_ne hq] at h
    · exact h

end Volatile

/-! ## The invariant -/

/-- Where the manager of a subscription is registered when it is created. -/
def managerPath (c : Controllers) (subscribedPath : Path) (attributeAccessor : Option String) :
    Path :=
  (Subscription.createOp c subscribedPath "" attributeAccessor none).subsPath

/-- The invariant of the runs: beside the counter and the quotas, every subscription that is held is
stored, and managers are only registered where a creation puts them. -/
structure QuotaInv (c : Controllers) (config : SclConfig) (w : World) : Prop where
  counted : excess w.volatile = 0
  quota : WithinQuota config w.volatile.subsManagers
  stored : ∀ p id sub, subscriptionAt w.volatile.subsManagers p id = some sub →
    ∃ q accessor, sub.path = subscriptionPath q id ∧ p = managerPath c q accessor ∧
      w.storage.lookup (subscriptionPath q id) = some (.subscription accessor)
  located : ∀ p, w.volatile.subsManagers.getAttribute p ≠ none →
    ∃ q accessor, p = managerPath c q accessor

section Events

variable {c : Controllers} {w : World} {q q' : Path} {id : String}
  {accessor accessor' : Option String}

theorem QuotaInv.kept (h : QuotaInv c config w) : QuotaKept config w := by
  refine ⟨?_, h.quota⟩
  have := h.counted
  unfold excess at this
  omega

theorem managerPath_eq (c : Controllers) (q : Path) (accessor : Option String) :
    managerPath c q accessor =
      if c.isContentInstances q ∧ (accessor = some "latest/" ∨ accessor = some "latest")
      then subscriptionsPath q ++ ["latest"] else subscriptionsPath q := rfl

theorem eq_of_managerPath_eq (h : managerPath c q accessor = managerPath c q' accessor') :
    q = q' := by
  rw [managerPath_eq, managerPath_eq] at h
  unfold subscriptionsPath at h
  split at h <;> split at h
  all_goals
    first
    | simpa using h
    | exact absurd (congrArg getLast? h) (by simp)

theorem subscriptionPath_inj {id' : String} (h : subscriptionPath q id = subscriptionPath q' id') :
    q = q' ∧ id = id' := by
  have := append_inj' h rfl
  simpa using this

theorem QuotaInv.not_held (h : QuotaInv c config w)
    (hfree : w.storage.lookup (subscriptionPath q id) = none) (accessor : Option String) :
    subscriptionAt w.volatile.subsManagers (managerPath c q accessor) id = none := by
  cases hsub : subscriptionAt w.volatile.subsManagers (managerPath c q accessor) id with
  | none => rfl
  | some sub =>
    obtain ⟨q', accessor', -, hp, hlookup⟩ := h.stored _ _ _ hsub
    rw [← eq_of_managerPath_eq hp, hfree] at hlookup
    cases hlookup

/-- The manager that a creation finds or makes, before the subscription is added. -/
structure Found (v : Volatile) (op : SubCreateOp) (r : Nat) (g : Registry Path SubsManager) :
    Prop where
  registered : g.getAttribute op.subsPath = some r
  view : ∀ p ≠ op.subsPath, g.view p = v.subsManagers.view p
  same : ∀ p k, subscriptionAt g p k = subscriptionAt v.subsManagers p k
  located : ∀ p, g.getAttribute p ≠ none → p = op.subsPath ∨ v.subsManagers.getAttribute p ≠ none
  get : g.get r = (v.subsManagers.view op.subsPath).getD (.new op.dependsOnFilterCriteria)
  held : heldSubscriptions g = heldSubscriptions v.subsManagers

section

variable {op : SubCreateOp} {r : Nat} {v : Volatile}

theorem found_getOrCreate
    (h : v.subsManagers.getOrCreate op.subsPath (.new op.dependsOnFilterCriteria) = (r, g)) :
    Found v op r g := by
  have hr := getAttribute_getOrCreate (g := v.subsManagers) op.subsPath
    (.new op.dependsOnFilterCriteria)
  have hget := get_getOrCreate (g := v.subsManagers) op.subsPath
    (.new op.dependsOnFilterCriteria)
  have hheld := heldSubscriptions_getOrCreate v.subsManagers op.subsPath
    op.dependsOnFilterCriteria
  rw [h] at hr hget hheld
  refine ⟨hr, fun p hp => ?_, fun p k => ?_, fun p hp => ?_, hget, hheld⟩
  · have := view_getOrCreate_of_ne (g := v.subsManagers) hp
      (.new op.dependsOnFilterCriteria)
    rwa [h] at this
  · have := subscriptionAt_getOrCreate v.subsManagers op.subsPath p k op.dependsOnFilterCriteria
    rwa [h] at this
  · by_cases hne : p = op.subsPath
    · exact .inl hne
    · have := getAttribute_getOrCreate_of_ne (g := v.subsManagers) hne
        (.new op.dependsOnFilterCriteria)
      rw [h] at this
      exact .inr (this ▸ hp)

theorem Found.excess_eq (v : Volatile) (h : Found v op r g) :
    excess { v with subsManagers := g } = excess v := by
  unfold excess
  rw [h.held]

theorem Found.size_le (h : Found v op r g) (hquota : WithinQuota config v.subsManagers)
    (hsize : (g.get r).size ≠ 0) : ((g.get r).size : ℤ) ≤ config.maxSubscriptionsPerResource := by
  rw [h.get] at hsize ⊢
  cases hview : v.subsManagers.view op.subsPath with
  | none =>
    rw [hview] at hsize
    exact absurd rfl hsize
  | some m => exact hquota _ _ hview

theorem getSubscription_of_found (h : Found v op r g) (k : String) :
    (g.get r).getSubscription k = subscriptionAt v.subsManagers op.subsPath k := by
  rw [← h.same, subscriptionAt_of_getAttribute h.registered]

end

theorem create_committed (h : QuotaInv c config w)
    (hfree : w.storage.lookup (subscriptionPath q id) = none) {filterCriteria : Option Nat}
    {r : Nat} {g : Registry Path SubsManager} {m : SubsManager} {shared : Shared}
    (hfound : Found w.volatile (createOp c q id accessor filterCriteria) r g)
    (hadd : (g.get r).addSubscription config id ⟨subscriptionPath q id, filterCriteria⟩
      w.volatile.shared = some (m, shared)) :
    QuotaInv c config
      { storage := w.storage.insert (subscriptionPath q id) (.subscription accessor)
        volatile := { w.volatile with subsManagers := g.set r m, shared := shared } } := by
  have hnot := h.not_held hfree accessor
  have hr : g.getAttribute (managerPath c q accessor) = some r := hfound.registered
  have hn : (g.get r).getSubscription id = none :=
    (getSubscription_of_found hfound id).trans hnot
  obtain ⟨hquotas, hm, -⟩ := addSubscription_eq_some hadd
  have hsize := size_insert_of_lookup_none hn hm
  constructor
  case counted =>
    have hexcess := excess_addSubscription (v := { w.volatile with subsManagers := g }) hr hn hadd
    have hcounted := h.counted
    unfold excess at hexcess hcounted ⊢
    rw [hexcess, hfound.held]
    exact hcounted
  case quota =>
    refine withinQuota_set hr (fun p hp m' hm' => ?_) (by omega)
    rw [hfound.view p hp] at hm'
    exact h.quota p m' hm'
  case stored =>
    intro p k sub hsub
    by_cases hnew : p = managerPath c q accessor ∧ k = id
    · obtain ⟨rfl, rfl⟩ := hnew
      rw [subscriptionAt_set hr, if_pos rfl, getSubscription_insert hm, if_pos rfl] at hsub
      cases hsub
      exact ⟨q, accessor, rfl, rfl, AList.lookup_insert _⟩
    · have hold : subscriptionAt w.volatile.subsManagers p k = some sub := by
        rw [← hfound.same, ← hsub, subscriptionAt_set hr]
        split
        · next hp =>
          have hk : k ≠ id := fun hk => hnew ⟨hp, hk⟩
          rw [getSubscription_insert hm, if_neg hk, hp, subscriptionAt_of_getAttribute hr]
          rfl
        · rfl
      obtain ⟨q', accessor', hpath, hp, hlookup⟩ := h.stored p k sub hold
      refine ⟨q', accessor', hpath, hp, ?_⟩
      have hne : subscriptionPath q' k ≠ subscriptionPath q id := by
        intro heq
        rw [heq, hfree] at hlookup
        cases hlookup
      rw [AList.lookup_insert_ne hne]
      exact hlookup
  case located =>
    intro p hp
    rcases hfound.located p hp with rfl | hp
    · exact ⟨q, accessor, rfl⟩
    · exact h.located p hp

theorem subCreate_rollback_subscriptionAt {v : Volatile} {op : SubCreateOp} {f : Fields} {r : Nat}
    (hf : f.subsManager = some r) (hr : v.subsManagers.getAttribute op.subsPath = some r)
    {p : Path} {k : String} {sub : Sub}
    (h : subscriptionAt (op.rollback it f v).subsManagers p k = some sub) :
    subscriptionAt v.subsManagers p k = some sub ∧ (p = op.subsPath → k ≠ op.subId) := by
  obtain ⟨-, hm, -⟩ :=
    SubsManager.removeSubscription_spec it op.subId (v.subsManagers.get r) v.shared
  unfold SubCreateOp.rollback at h
  rw [hf] at h
  dsimp only at h
  have hset : ∀ g, g = v.subsManagers.set r
      ((v.subsManagers.get r).removeSubscription it op.subId v.shared).2.1 →
      subscriptionAt g p k = some sub →
        subscriptionAt v.subsManagers p k = some sub ∧ (p = op.subsPath → k ≠ op.subId) := by
    rintro g rfl hg
    rw [subscriptionAt_set hr] at hg
    split at hg
    · next hp =>
      rw [getSubscription_erase hm] at hg
      split at hg
      · cases hg
      · next hk => exact ⟨by rw [hp, subscriptionAt_of_getAttribute hr, hg], fun _ => hk⟩
    · next hp => exact ⟨hg, fun hp' => absurd hp' hp⟩
  split at h
  · by_cases hp : p = op.subsPath
    · rw [hp, subscriptionAt, view_removeAttribute_self] at h
      cases h
    · rw [subscriptionAt, view_removeAttribute_of_ne hp] at h
      exact hset _ rfl h
  · exact hset _ rfl h

theorem create_undone (h : QuotaInv c config w) {filterCriteria : Option Nat}
    {r : Nat} {g : Registry Path SubsManager} {m : SubsManager} {v : Volatile} {f : Fields}
    (hfound : Found w.volatile (createOp c q id accessor filterCriteria) r g)
    (hf : f.subsManager = some r) (hv : v.subsManagers = g.set r m)
    (hexcess : excess v = excess w.volatile)
    (hsize : (m.removeSubscription it id v.shared).2.1.size = (g.get r).size)
    (hkeep : ∀ k ≠ id, m.getSubscription k = (g.get r).getSubscription k) :
    QuotaInv c config
      { storage := w.storage
        volatile := (createOp c q id accessor filterCriteria).rollback it f v } := by
  have hr : v.subsManagers.getAttribute
      (createOp c q id accessor filterCriteria).subsPath = some r := by
    rw [hv]
    exact hfound.registered
  have hget : v.subsManagers.get r = m := by
    rw [hv, get_set_self]
  constructor
  case counted => exact (subCreate_rollback_excess hf hr).trans (hexcess.trans h.counted)
  case quota =>
    refine subCreate_rollback_withinQuota hf hr (fun p hp m' hm' => ?_) fun hne => ?_
    · rw [hv, (owned_of_getAttribute hfound.registered).view_set_of_ne hp,
        hfound.view p hp] at hm'
      exact h.quota p m' hm'
    · rw [hget] at hne ⊢
      have hsize' : (m.removeSubscription it (createOp c q id accessor
          filterCriteria).subId v.shared).2.1.size = (g.get r).size := hsize
      rw [hsize'] at hne ⊢
      exact hfound.size_le h.quota hne
  case stored =>
    intro p k sub hsub
    obtain ⟨hsub, hk⟩ := subCreate_rollback_subscriptionAt hf hr hsub
    refine h.stored p k sub ?_
    rw [hv, subscriptionAt_set hfound.registered] at hsub
    rw [← hfound.same, ← hsub]
    split
    · next hp =>
      rw [hkeep k (hk hp), hp, subscriptionAt_of_getAttribute hfound.registered]
    · rfl
  case located =>
    intro p hp
    have hp := subCreate_rollback_getAttribute hp
    rw [hv] at hp
    rcases hfound.located p hp with rfl | hp
    · exact ⟨q, accessor, rfl⟩
    · exact h.located p hp

/-- **A creation**, accepted, refused or rolled back. -/
theorem create_inv (h : QuotaInv c config w) (filterCriteria : Option Nat) (faults : Faults) :
    QuotaInv c config
      (Subscription.create c config it q id accessor filterCriteria faults w) := by
  unfold Subscription.create
  split
  · exact h
  next hfree =>
  have hnot := h.not_held hfree accessor
  obtain ⟨r, g, hcreated, hcases⟩ := (createOp c q id accessor
    filterCriteria).prepare_cases config (faults.prepare.headD false) w.volatile
  have hfound := found_getOrCreate hcreated
  have hn : (g.get r).getSubscription id = none := (getSubscription_of_found hfound id).trans hnot
  unfold SclTransaction.run
  rcases hcases with ⟨m, shared, hadd, hprepare⟩ | ⟨sub, hprepare⟩
  · rcases execute_single _ _ (prepare_subCreate hprepare) with
      ⟨storage', -, hmodify, heq⟩ | ⟨-, heq⟩
    · rw [heq]
      rw [batchModify_cons, Option.bind_eq_some_iff] at hmodify
      obtain ⟨_, happly, hmodify⟩ := hmodify
      cases hmodify
      rw [← (apply_create_eq_some.mp happly).2]
      exact create_committed h hfree hfound hadd
    · rw [heq]
      change (g.get r).addSubscription config id ⟨subscriptionPath q id, filterCriteria⟩
        w.volatile.shared = some (m, shared) at hadd
      obtain ⟨-, hm, -⟩ := addSubscription_eq_some hadd
      have hin : m.getSubscription id = some ⟨subscriptionPath q id, filterCriteria⟩ := by
        rw [getSubscription_insert hm, if_pos rfl]
      refine create_undone (m := m)
        (f := { subsManager := some r, subManager := some ⟨subscriptionPath q id, filterCriteria⟩ })
        (v := { w.volatile with subsManagers := g.set r m, shared := shared }) h hfound rfl rfl ?_ ?_
        fun k hk => ?_
      · have hexcess := excess_addSubscription (v := { w.volatile with subsManagers := g })
          hfound.registered hn hadd
        exact hexcess.trans (hfound.excess_eq w.volatile)
      · have hadded := size_insert_of_lookup_none hn hm
        have hremoved := size_erase_of_lookup hin (removeSubscription_spec it id m shared).2.1
        exact Nat.succ_injective (hremoved.trans hadded)
      · rw [getSubscription_insert hm, if_neg hk]
        rfl
  · rcases execute_single _ _ (prepare_subCreate hprepare) with
      ⟨storage', hok, -⟩ | ⟨-, heq⟩
    · cases hok
    · rw [heq]
      refine create_undone (m := g.get r) (f := { subsManager := some r, subManager := sub })
        (v := { w.volatile with subsManagers := g }) h hfound rfl (set_get r).symm
        (hfound.excess_eq w.volatile) ?_ fun _ _ => rfl
      have hm := (removeSubscription_spec it id (g.get r) w.volatile.shared).2.1
      rw [subscriptions_erase_of_lookup_none hn] at hm
      exact congrArg (fun subs : AList fun _ : String => Sub => subs.entries.length) hm

/-! ## Removals -/

theorem removed_inv (h : QuotaInv c config w) {p : Path} {r : Nat}
    (hr : w.volatile.subsManagers.getAttribute p = some r) (it : IterationOrder) (id : String)
    (storage' : Storage)
    (hstorage : ∀ path, storage'.lookup path = w.storage.lookup path ∨
      ∃ q accessor, path = subscriptionPath q id ∧ p = managerPath c q accessor ∧
        w.storage.lookup path = some (.subscription accessor)) :
    QuotaInv c config
      { storage := storage'
        volatile :=
          { w.volatile with
            subsManagers := w.volatile.subsManagers.set r
              ((w.volatile.subsManagers.get r).removeSubscription it id w.volatile.shared).2.1
            shared :=
              ((w.volatile.subsManagers.get r).removeSubscription it id w.volatile.shared).2.2 } } := by
  obtain ⟨-, hm, hnb⟩ :=
    removeSubscription_spec it id (w.volatile.subsManagers.get r) w.volatile.shared
  have hsize := size_removeSubscription it id (w.volatile.subsManagers.get r) w.volatile.shared
  constructor
  case counted => exact (excess_removeSubscription it hr id).trans h.counted
  case quota =>
    refine withinQuota_set hr (fun q' _ m hm' => h.quota q' m hm') ?_
    have hle := h.quota p _ (view_of_getAttribute hr)
    omega
  case stored =>
    intro p' k sub hsub
    rw [subscriptionAt_set hr, getSubscription_erase hm] at hsub
    have hold : subscriptionAt w.volatile.subsManagers p' k = some sub ∧ (p' = p → k ≠ id) := by
      split at hsub
      · next hp =>
        split at hsub
        · cases hsub
        · next hk =>
          rw [hp, subscriptionAt_of_getAttribute hr]
          exact ⟨hsub, fun _ => hk⟩
      · next hp => exact ⟨hsub, fun hp' => absurd hp' hp⟩
    obtain ⟨q', accessor', hpath, hp, hlookup⟩ := h.stored p' k sub hold.1
    refine ⟨q', accessor', hpath, hp, ?_⟩
    rcases hstorage (subscriptionPath q' k) with hsame | ⟨q₁, accessor₁, heq, hp₁, hlookup₁⟩
    · rw [hsame]
      exact hlookup
    · obtain ⟨rfl, rfl⟩ := subscriptionPath_inj heq
      rw [hlookup] at hlookup₁
      cases hlookup₁
      exact absurd rfl (hold.2 (hp.trans hp₁.symm))
  case located => exact h.located

theorem added_inv (h : QuotaInv c config w) {p : Path} {r : Nat} {m : SubsManager}
    {shared : Shared} {sub : Sub} (hr : w.volatile.subsManagers.getAttribute p = some r)
    (hn : (w.volatile.subsManagers.get r).getSubscription id = none)
    (hadd : (w.volatile.subsManagers.get r).addSubscription config id sub w.volatile.shared =
      some (m, shared))
    (hsub : ∃ q accessor, sub.path = subscriptionPath q id ∧ p = managerPath c q accessor ∧
      w.storage.lookup (subscriptionPath q id) = some (.subscription accessor)) :
    QuotaInv c config
      { storage := w.storage
        volatile :=
          { w.volatile with subsManagers := w.volatile.subsManagers.set r m, shared := shared } } := by
  obtain ⟨hquotas, hm, -⟩ := addSubscription_eq_some hadd
  have hsize := size_insert_of_lookup_none hn hm
  constructor
  case counted => exact (excess_addSubscription hr hn hadd).trans h.counted
  case quota =>
    exact withinQuota_set hr (fun q' _ m hm' => h.quota q' m hm') (by omega)
  case stored =>
    intro p' k sub' hsub'
    rw [subscriptionAt_set hr, getSubscription_insert hm] at hsub'
    split at hsub'
    · next hp =>
      split at hsub'
      · next hk =>
        cases hsub'
        rw [hp, hk]
        exact hsub
      · refine h.stored p' k sub' ?_
        rw [hp, subscriptionAt_of_getAttribute hr]
        exact hsub'
    · exact h.stored p' k sub' hsub'
  case located => exact h.located

theorem emptied_inv (h : QuotaInv c config w) {p : Path}
    (hempty : ∀ m, w.volatile.subsManagers.view p = some m → m.isEmpty = true) :
    QuotaInv c config
      { storage := w.storage
        volatile :=
          { w.volatile with subsManagers := w.volatile.subsManagers.removeAttribute p } } := by
  constructor
  case counted =>
    have := h.counted
    unfold excess at this ⊢
    rw [heldSubscriptions_removeAttribute hempty]
    exact this
  case quota => exact h.quota.removeAttribute p
  case stored =>
    intro p' k sub hsub
    by_cases hp : p' = p
    · rw [hp, subscriptionAt, view_removeAttribute_self] at hsub
      cases hsub
    · rw [subscriptionAt, view_removeAttribute_of_ne hp] at hsub
      exact h.stored p' k sub hsub
  case located =>
    intro p' hp'
    by_cases hp : p' = p
    · rw [hp, getAttribute_removeAttribute_self] at hp'
      exact absurd rfl hp'
    · rw [getAttribute_removeAttribute_of_ne hp] at hp'
      exact h.located p' hp'

theorem QuotaInv.managerPath_eq_getSubsManager (h : QuotaInv c config w) {r : Nat}
    (hr : w.volatile.subsManagers.getAttribute (getSubsManager q accessor) = some r) :
    getSubsManager q accessor = managerPath c q accessor := by
  obtain ⟨q', accessor', hp⟩ := h.located _ (by rw [hr]; nofun)
  rw [managerPath_eq]
  unfold getSubsManager at hp ⊢
  by_cases hlatest : accessor = some "latest/" ∨ accessor = some "latest"
  · rw [if_pos hlatest] at hp ⊢
    have hq : q = q' ∧ c.isContentInstances q' = true := by
      rw [managerPath_eq] at hp
      unfold subscriptionsPath at hp
      split at hp
      · next hci => exact ⟨by simpa using hp, hci.1⟩
      · exact absurd (congrArg getLast? hp) (by simp)
    rw [if_pos ⟨hq.1 ▸ hq.2, hlatest⟩]
  · rw [if_neg hlatest, if_neg fun h => hlatest h.2]

/-- **A deletion**, committed or rolled back. -/
theorem delete_inv (h : QuotaInv c config w) (faults : Faults) :
    QuotaInv c config (Subscription.delete config it q id faults w) := by
  unfold Subscription.delete
  split
  case h_2 => exact h
  next accessor hlookup =>
  unfold SclTransaction.run
  rcases SubDeleteOp.prepare_cases it ⟨getSubsManager q accessor, id⟩ w.volatile with
    ⟨-, hprepare⟩ | ⟨r, hr, hprepare⟩
  · rcases execute_single _ _ (prepare_subDelete hprepare) with
      ⟨storage', hok, -⟩ | ⟨-, heq⟩
    · cases hok
    · rw [heq]
      exact h
  · have hpath := h.managerPath_eq_getSubsManager hr
    rcases execute_single _ _ (prepare_subDelete hprepare) with
      ⟨storage', -, hmodify, heq⟩ | ⟨-, heq⟩
    · rw [heq]
      rw [batchModify_cons, Option.bind_eq_some_iff] at hmodify
      obtain ⟨_, happly, hmodify⟩ := hmodify
      cases hmodify
      rw [← (apply_delete_eq_some.mp happly).2]
      have hremoved := removed_inv h hr it id (w.storage.erase (subscriptionPath q id)) fun path => by
          by_cases hp : path = subscriptionPath q id
          · exact .inr ⟨q, accessor, hp, hpath, hp ▸ hlookup⟩
          · exact .inl (AList.lookup_erase_ne hp)
      unfold postCommit SubDeleteOp.postCommit
      cases (w.volatile.subsManagers.get r).getSubscription id with
      | none => exact hremoved
      | some sub =>
        dsimp only
        split
        · next hempty =>
          refine emptied_inv hremoved fun m hm => ?_
          rw [view_set hr] at hm
          cases hm
          rwa [get_set_self] at hempty
        · exact hremoved
    · rw [heq]
      have hremoved := removed_inv h hr it id w.storage fun path => .inl rfl
      rcases SubDeleteOp.rollback_cases config ⟨getSubsManager q accessor, id⟩ _ _ with
        hback | ⟨r', sub, m, shared, hr', hsub, hadd, hback⟩
      · unfold rollback
        dsimp only
        rw [hback]
        exact hremoved
      · unfold rollback
        dsimp only
        rw [hback]
        cases hr'
        obtain ⟨hremove, hm, -⟩ :=
          removeSubscription_spec it id (w.volatile.subsManagers.get r) w.volatile.shared
        refine added_inv hremoved hr ?_ hadd ?_
        · rw [get_set_self, getSubscription_erase hm, if_pos rfl]
        · refine h.stored (getSubsManager q accessor) id sub ?_
          rw [subscriptionAt_of_getAttribute hr]
          exact hsub

/-- **An expiration**, whether the storage deletes the subscription or not. -/
theorem expire_inv (h : QuotaInv c config w) {p : Path} {deleted : Bool} {w' : World}
    (hw' : Subscription.expire it p id deleted w = some w') : QuotaInv c config w' := by
  unfold Subscription.expire at hw'
  cases hr : w.volatile.subsManagers.getAttribute p with
  | none =>
    rw [hr] at hw'
    cases hw'
  | some r =>
    rw [hr] at hw'
    obtain ⟨hremove, -⟩ :=
      removeSubscription_spec it id (w.volatile.subsManagers.get r) w.volatile.shared
    have hremoved := removed_inv h hr it id
    dsimp only at hw'
    generalize (w.volatile.subsManagers.get r).removeSubscription it id w.volatile.shared = removed
      at hw' hremove hremoved
    obtain ⟨_ | sub, m, shared⟩ := removed
    · cases hw'
    · cases hw'
      refine hremoved _ fun path => ?_
      split
      · by_cases hp : path = sub.path
        · obtain ⟨q, accessor, hpath, hq, hlookup⟩ := h.stored p id sub (by
            rw [subscriptionAt_of_getAttribute hr]
            exact hremove.symm)
          rw [hp, hpath]
          exact .inr ⟨q, accessor, rfl, hq, hlookup⟩
        · exact .inl (AList.lookup_erase_ne hp)
      · exact .inl rfl

end Events

section Deletions

variable {storage : Storage} {p : Path} {v v' : Volatile} {ops : List TransientOp}

/-- The transient operations of a deletion. -/
def SubsDeletions (ops : List TransientOp) : Prop := ∀ op ∈ ops, ∃ o, op = .subsDelete o

theorem TransientOp.prepare_subsDelete (op : SubsDeleteOp) (s : Preparation) :
    (subsDelete op).prepare config it storage s =
      (true, {}, { s with faults := s.faults.tail }) := rfl

theorem SubsDeletions.prepareAll (config : SclConfig) (it : IterationOrder) (storage : Storage)
    (h : SubsDeletions ops) (s : Preparation) :
    ∃ faults, Undo.prepareAll (prepare config it storage) {} ops s =
      (true, ops.map fun op => (op, ({} : Fields)), { s with faults := faults }) := by
  induction ops generalizing s with
  | nil => exact ⟨s.faults, rfl⟩
  | cons op ops ih =>
    obtain ⟨⟨o, rfl⟩, hops⟩ := forall_mem_cons.mp h
    obtain ⟨faults, heq⟩ := ih hops { s with faults := s.faults.tail }
    refine ⟨faults, ?_⟩
    rw [Undo.prepareAll_cons_of_succeeds rfl, prepare_subsDelete, heq]
    rfl

theorem SubsDeletions.rollbackAll (h : SubsDeletions ops) (v : Volatile) :
    rollbackAll config it (ops.map fun op => (op, ({} : Fields))) v = v := by
  induction ops with
  | nil => rfl
  | cons op ops ih =>
    obtain ⟨⟨o, rfl⟩, hops⟩ := forall_mem_cons.mp h
    exact ih hops

section

variable (op : SubsDeleteOp) (v : Volatile)

theorem SubsDeleteOp.postCommit_eq :
    (op.postCommit v).shared = v.shared ∧
      ((op.postCommit v).subsManagers = v.subsManagers ∧
          v.subsManagers.getAttribute op.subsPath = none ∨
        (op.postCommit v).subsManagers = v.subsManagers.removeAttribute op.subsPath) := by
  unfold SubsDeleteOp.postCommit
  cases h : v.subsManagers.getAttribute op.subsPath with
  | none => exact ⟨rfl, .inl ⟨rfl, rfl⟩⟩
  | some r => exact ⟨rfl, .inr rfl⟩

theorem SubsDeleteOp.postCommit_view (p : Path) :
    (op.postCommit v).subsManagers.view p =
      if p = op.subsPath then none else v.subsManagers.view p := by
  rcases (op.postCommit_eq v).2 with ⟨h, hnone⟩ | h
  · rw [h]
    split
    · next hp => rw [hp, view_eq_none, hnone]
    · rfl
  · rw [h]
    split
    · next hp => rw [hp, view_removeAttribute_self]
    · next hp => rw [view_removeAttribute_of_ne hp]

theorem SubsDeleteOp.held_postCommit_le :
    heldSubscriptions (op.postCommit v).subsManagers ≤ heldSubscriptions v.subsManagers := by
  rcases (op.postCommit_eq v).2 with ⟨h, -⟩ | h
  · rw [h]
  · rw [h]
    exact heldSubscriptions_removeAttribute_le _ _

theorem SubsDeleteOp.held_postCommit_iff :
    heldSubscriptions (op.postCommit v).subsManagers = heldSubscriptions v.subsManagers ↔
      ∀ m, v.subsManagers.view op.subsPath = some m → m.isEmpty = true := by
  rcases (op.postCommit_eq v).2 with ⟨h, hnone⟩ | h
  · rw [h]
    refine ⟨fun _ m hm => ?_, fun _ => rfl⟩
    rw [view_eq_none.mpr hnone] at hm
    cases hm
  · rw [h]
    refine ⟨fun heq m hm => ?_, heldSubscriptions_removeAttribute⟩
    have htotal := total_removeAttribute (fun m : SubsManager => (m.size : ℤ))
      (g := v.subsManagers) (k := op.subsPath)
    rw [hm, Option.elim_some] at htotal
    rw [← size_eq_zero_iff]
    unfold heldSubscriptions at heq
    omega

end

/-- What the deletions of some managers do. -/
structure Deleted (ops : List TransientOp) (v v' : Volatile) : Prop where
  shared : v'.shared = v.shared
  view : ∀ p, v'.subsManagers.view p =
    if .subsDelete ⟨p⟩ ∈ ops then none else v.subsManagers.view p
  held_le : heldSubscriptions v'.subsManagers ≤ heldSubscriptions v.subsManagers
  held_iff : heldSubscriptions v'.subsManagers = heldSubscriptions v.subsManagers ↔
    ∀ p, .subsDelete ⟨p⟩ ∈ ops → ∀ m, v.subsManagers.view p = some m → m.isEmpty = true

theorem Deleted.cons {o : SubsDeleteOp} (h : Deleted ops (o.postCommit v) v') :
    Deleted (.subsDelete o :: ops) v v' := by
  obtain ⟨hshared, hview, hle, hiff⟩ := h
  have hle' := o.held_postCommit_le v
  have hiff' := o.held_postCommit_iff v
  refine ⟨hshared.trans (o.postCommit_eq v).1, fun p => ?_, hle.trans hle', ⟨fun heq => ?_, ?_⟩⟩
  · rw [hview, o.postCommit_view]
    by_cases hp : p = o.subsPath
    · simp [hp]
    · have : (⟨p⟩ : SubsDeleteOp) ≠ o := fun h => hp (congrArg SubsDeleteOp.subsPath h)
      simp [hp, this]
  · have hhead := hiff'.mp (by omega)
    have htail := hiff.mp (by omega)
    intro p hmem m hm
    by_cases hp : p = o.subsPath
    · exact hhead m (hp ▸ hm)
    · rcases mem_cons.mp hmem with ho | hmem
      · cases ho
        exact absurd rfl hp
      · refine htail p hmem m ?_
        rwa [o.postCommit_view, if_neg hp]
  · intro hempty
    rw [hiff.mpr, hiff'.mpr]
    · exact fun m hm => hempty o.subsPath mem_cons_self m hm
    · intro p hmem m hm
      rw [o.postCommit_view] at hm
      split at hm
      · cases hm
      · exact hempty p (mem_cons_of_mem _ hmem) m hm

theorem SubsDeletions.postCommitAll (h : SubsDeletions ops) (v : Volatile) :
    Deleted ops v (SclTransaction.postCommitAll (ops.map fun op => (op, ({} : Fields))) v) := by
  induction ops generalizing v with
  | nil => exact ⟨rfl, fun p => by simp; rfl, le_rfl, by simp [SclTransaction.postCommitAll]⟩
  | cons op ops ih =>
    obtain ⟨⟨o, rfl⟩, hops⟩ := forall_mem_cons.mp h
    exact (ih hops (o.postCommit v)).cons

theorem SubsDeletions.run (config : SclConfig) (it : IterationOrder) (h : SubsDeletions ops)
    (faults : Faults) (ms : List Modification) (w : World) :
    (∃ storage', faults.batchModify = false ∧ batchModify w.storage ms = some storage' ∧
      ∃ v, Deleted ops w.volatile v ∧
        SclTransaction.run config it faults ⟨ms, ops⟩ w = ⟨storage', v⟩) ∨
    (faults.batchModify = true ∨ batchModify w.storage ms = none) ∧
      SclTransaction.run config it faults ⟨ms, ops⟩ w = w := by
  obtain ⟨faults', hprepare⟩ := h.prepareAll config it w.storage ⟨faults.prepare, ms, w.volatile⟩
  unfold SclTransaction.run SclTransaction.execute SclTransaction.commit SclTransaction.prepareAll
  rw [hprepare]
  dsimp only
  by_cases hfault : faults.batchModify = true
  · rw [if_neg (by simp [hfault])]
    exact .inr ⟨.inl hfault, by rw [h.rollbackAll]⟩
  · rw [if_pos ⟨rfl, hfault⟩]
    cases hmodify : batchModify w.storage ms with
    | none => exact .inr ⟨.inr rfl, by rw [h.rollbackAll]⟩
    | some storage' =>
      exact .inl ⟨storage', Bool.eq_false_iff.mpr hfault, rfl, _, h.postCommitAll w.volatile, rfl⟩

end Deletions

section Runs

variable {c : Controllers} {w : World} {paths : List Path} {w' : World} {e : SubscriptionEvent}

theorem subsDeletions_deleteOps (paths : List Path) :
    SubsDeletions (paths.flatMap deleteOps) := by
  intro op hop
  obtain ⟨q, -, hop⟩ := mem_flatMap.mp hop
  simp only [deleteOps, mem_cons, not_mem_nil, or_false] at hop
  rcases hop with rfl | rfl
  · exact ⟨_, rfl⟩
  · exact ⟨_, rfl⟩

theorem mem_deleteOps {p : Path} :
    .subsDelete ⟨p⟩ ∈ paths.flatMap deleteOps ↔
      ∃ q ∈ paths, p = subscriptionsPath q ∨ p = subscriptionsPath q ++ ["latest"] := by
  simp [deleteOps]

theorem managerPath_cases (c : Controllers) (q : Path) (accessor : Option String) :
    managerPath c q accessor = subscriptionsPath q ∨
      managerPath c q accessor = subscriptionsPath q ++ ["latest"] := by
  rw [managerPath_eq]
  split
  · exact .inr rfl
  · exact .inl rfl

theorem mem_deleteModifications {storage : Storage} {q : Path} {m : Modification}
    (h : m ∈ deleteModifications storage q) :
    m.path = subscriptionsPath q ∨ m.path.dropLast = subscriptionsPath q := by
  rcases mem_append.mp h with h | h
  · obtain ⟨p, hp, rfl⟩ := mem_map.mp h
    have hsplit := of_decide_eq_true (mem_filter.mp hp).2
    unfold splitPath at hsplit
    rw [Option.map_map, Option.map_eq_some_iff] at hsplit
    obtain ⟨name, -, hparent⟩ := hsplit
    exact .inr hparent
  · rw [mem_singleton] at h
    exact .inl (congrArg Modification.path h)

theorem QuotaInv.deleted (h : QuotaInv c config w) {storage' : Storage} {v : Volatile}
    (hcollections : ∀ q ∈ paths, w.storage.lookup (subscriptionsPath q) = some .collection)
    (hmodify : batchModify w.storage
      (deleteTransaction w.storage paths).modifications = some storage')
    (hdeleted : Deleted (paths.flatMap deleteOps) w.volatile v)
    (hcount : excess v = 0) : QuotaInv c config ⟨storage', v⟩ := by
  constructor
  case counted => exact hcount
  case quota =>
    intro p m hm
    rw [hdeleted.view] at hm
    split at hm
    · cases hm
    · exact h.quota p m hm
  case stored =>
    intro p id sub hsub
    rw [subscriptionAt, hdeleted.view] at hsub
    split at hsub
    · cases hsub
    next hnot =>
    obtain ⟨q, accessor, hpath, hp, hlookup⟩ := h.stored p id sub hsub
    refine ⟨q, accessor, hpath, hp, ?_⟩
    have hq : q ∉ paths := by
      intro hq
      exact hnot (mem_deleteOps.mpr ⟨q, hq, hp ▸ managerPath_cases c q accessor⟩)
    rw [lookup_batchModify_of_notMem hmodify, hlookup]
    intro m hm hmpath
    obtain ⟨q', hq', hm⟩ := mem_flatMap.mp hm
    rcases mem_deleteModifications hm with hm | hm
    · rw [← hmpath] at hm
      rw [hm, hcollections q' hq'] at hlookup
      cases hlookup
    · rw [← hmpath] at hm
      have : q = q' := by simpa [subscriptionPath, subscriptionsPath] using hm
      exact hq (this ▸ hq')
  case located =>
    intro p hp
    refine h.located p fun hnone => hp ?_
    rw [← view_eq_none] at hnone ⊢
    rw [hdeleted.view, hnone, ite_self]

/-- When the deletion of resources that commits finds no subscription to them. -/
def QuotaCondition (w : World) : SubscriptionEvent → Prop
  | .deleteResources paths faults =>
    faults.batchModify = false →
    batchModify w.storage (Subscriptions.deleteTransaction w.storage paths).modifications ≠ none →
    ∀ q ∈ paths, ∀ id,
      subscriptionAt w.volatile.subsManagers (subscriptionsPath q) id = none ∧
        subscriptionAt w.volatile.subsManagers (subscriptionsPath q ++ ["latest"]) id = none
  | _ => True

theorem forall_deleteOps_isEmpty {g : Registry Path SubsManager} :
    (∀ p, .subsDelete ⟨p⟩ ∈ paths.flatMap deleteOps →
      ∀ m, g.view p = some m → m.isEmpty = true) ↔
    ∀ q ∈ paths, ∀ id, subscriptionAt g (subscriptionsPath q) id = none ∧
      subscriptionAt g (subscriptionsPath q ++ ["latest"]) id = none := by
  have hempty : ∀ p, (∀ m, g.view p = some m → m.isEmpty = true) ↔
      ∀ id, subscriptionAt g p id = none := by
    intro p
    unfold subscriptionAt
    cases g.view p with
    | none => simp
    | some m => simpa using SubsManager.isEmpty_iff
  simp only [hempty, mem_deleteOps]
  refine ⟨fun h q hq id => ⟨h _ ⟨q, hq, .inl rfl⟩ id, h _ ⟨q, hq, .inr rfl⟩ id⟩, ?_⟩
  rintro h p ⟨q, hq, rfl | rfl⟩ id
  · exact (h q hq id).1
  · exact (h q hq id).2

theorem Deleted.excess_eq_iff {ops : List TransientOp} {v v' : Volatile} (h : Deleted ops v v') :
    excess v' = excess v ↔
      ∀ p, .subsDelete ⟨p⟩ ∈ ops → ∀ m, v.subsManagers.view p = some m → m.isEmpty = true := by
  rw [← h.held_iff]
  unfold excess
  rw [h.shared]
  omega

theorem deleteResources_cases (h : QuotaInv c config w) {faults : Faults}
    (hw' : Subscriptions.deleteResources config it paths faults w = some w') :
    (QuotaCondition w (.deleteResources paths faults) → QuotaInv c config w') ∧
      (QuotaKept config w' → QuotaCondition w (.deleteResources paths faults)) := by
  unfold Subscriptions.deleteResources at hw'
  rw [Option.ite_none_right_eq_some] at hw'
  obtain ⟨hcollections, hw'⟩ := hw'
  cases hw'
  rcases (subsDeletions_deleteOps paths).run config it faults
    (deleteTransaction w.storage paths).modifications w with
    ⟨storage', hfault, hmodify, v, hdeleted, heq⟩ | ⟨hfailed, heq⟩
  · change SclTransaction.run config it faults
      (deleteTransaction w.storage paths) w = _ at heq
    have hiff : excess v = 0 ↔ QuotaCondition w (.deleteResources paths faults) := by
      rw [← h.counted, hdeleted.excess_eq_iff, forall_deleteOps_isEmpty]
      exact ⟨fun h _ _ => h, fun h => h hfault (by rw [hmodify]; nofun)⟩
    rw [heq]
    refine ⟨fun hC => h.deleted hcollections hmodify hdeleted (hiff.mpr hC), fun hkept => ?_⟩
    refine hiff.mp ?_
    have hkept : v.shared.nbOfSubscriptions = heldSubscriptions v.subsManagers := hkept.1
    unfold excess
    omega
  · change SclTransaction.run config it faults
      (deleteTransaction w.storage paths) w = _ at heq
    rw [heq]
    refine ⟨fun _ => h, fun _ hfault hmodify => ?_⟩
    rcases hfailed with hfailed | hfailed
    · rw [hfailed] at hfault
      cases hfault
    · exact absurd hfailed hmodify

theorem step_inv (h : QuotaInv c config w) (hC : QuotaCondition w e)
    (hw' : subscriptionStep c config it w e = some w') : QuotaInv c config w' := by
  cases e with
  | create subscribedPath id attributeAccessor filterCriteria faults =>
    cases hw'
    exact create_inv h filterCriteria faults
  | delete subscribedPath id faults =>
    cases hw'
    exact delete_inv h faults
  | expire subsPath id deleted => exact expire_inv h hw'
  | deleteResources paths faults => exact (deleteResources_cases h hw').1 hC

theorem condition_of_kept (h : QuotaInv c config w)
    (hw' : subscriptionStep c config it w e = some w') (hkept : QuotaKept config w') :
    QuotaCondition w e := by
  cases e with
  | deleteResources paths faults => exact (deleteResources_cases h hw').2 hkept
  | create _ _ _ _ _ | delete _ _ _ | expire _ _ _ => trivial

theorem quotaInv_initial (c : Controllers) (config : SclConfig) (storage : Storage) :
    QuotaInv c config ⟨storage, .initial⟩ := by
  constructor
  case counted => rfl
  case quota | stored => nofun
  case located => exact fun p hp => absurd rfl hp

/-- **Quotas**: in every state of a run the counter is the number of subscriptions held and the
managers are within their quotas, exactly when no deletion of resources commits while there are
subscriptions to them. -/
theorem quota_iff (c : Controllers) (config : SclConfig) (it : IterationOrder) (storage : Storage)
    (events : List SubscriptionEvent) :
    Run.Visits (subscriptionStep c config it) (QuotaKept config) ⟨storage, .initial⟩ events ↔
      Run.Along (subscriptionStep c config it) QuotaCondition ⟨storage, .initial⟩ events :=
  Run.visits_iff_along (fun _ h => h.kept) (fun _ _ _ h hC hs => step_inv h hC hs)
    (fun _ _ _ h hs hkept => condition_of_kept h hs hkept) (quotaInv_initial c config storage)

/-- A resource with a subscription is deleted: the counter stays at one. -/
theorem quota_broken :
    ∃ c config it storage events,
      ¬ Run.Visits (subscriptionStep c config it) (QuotaKept config) ⟨storage, .initial⟩ events := by
  refine ⟨⟨fun _ => false, fun _ => false⟩, ⟨10, 10⟩, noOrder,
    AList.singleton ["app", "subscriptions"] .collection,
    [.create ["app"] "s" none none {}, .deleteResources [["app"]] {}], fun h => ?_⟩
  have hlast := Run.visits_exec h rfl
  exact absurd hlast.1 (by decide)

end Runs

end Ong.Scl
