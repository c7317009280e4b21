import Ong.Scl.TransientOpsOwed

/-!
# What a failed transaction leaves behind

A transaction that fails must leave the volatile state as it found it.  Each operation undoes a part
of what it did, so this needs a condition on the operations.

## Main results

* `execute_restores`: under the condition, a failed transaction restores the state
* `single_restores_iff`: for a transaction with one operation the condition is exact
-/

namespace Ong.Scl

open M2M Volatile TransientOp SubsManager SclTransaction

/-- `w` shows the same as `v`: the subscriptions of each manager, the counters of the m2mPocs, the
armed timers, and the instance of which the age is watched. -/
structure Restored (v w : Volatile) : Prop where
  subscriptions : ∀ p id,
    subscriptionAt w.subsManagers p id = subscriptionAt v.subsManagers p id
  pocs : ∀ p status, nbOfM2MPocs w.pocsManagers p status = nbOfM2MPocs v.pocsManagers p status
  timers : ∀ t, t ∈ w.timers.armed ↔ t ∈ v.timers.armed
  instances : ∀ p, w.instanceAgeId.lookup p = v.instanceAgeId.lookup p

/-- What `prepare` must meet to be undone, in a transaction that starts from `v₀`:
* a subscription that is created was not held before the transaction;
* a subscription that is removed was held before the transaction;
* an operation on the age of the instances cancels no timer that was armed before the transaction,
  and watches the same instance as before. -/
def PrepareCondition (v₀ : Volatile) (storage : Storage) (s : Preparation) : TransientOp → Prop
  | .subCreate op => subscriptionAt v₀.subsManagers op.subsPath op.subId = none
  | .subDelete op =>
    subscriptionAt v₀.subsManagers op.subsPath op.subId = none →
      subscriptionAt s.volatile.subsManagers op.subsPath op.subId = none
  -- these two change nothing that their rollback cannot restore
  | .subsDelete _ | .m2mPoc _ => True
  | .cisChildCreate op =>
    (∀ id, s.volatile.instanceAgeTimer.lookup op.path = some id → ¬ Armed v₀ id) ∧
      (s.faults.headD false = false →
        0 ≤ instanceAgeDelay op.lastCiCreationDate op.maxInstanceAge op.now →
        s.volatile.instanceAgeId.lookup op.path = some op.lastCiId)
  | .cisChildDelete op =>
    s.volatile.instanceAgeId.lookup op.path = some op.childResource.id →
      (∀ id, s.volatile.instanceAgeTimerId.lookup op.path = some id → ¬ Armed v₀ id) ∧
        ∀ lastCi maxInstanceAge, op.next storage = .ok (some (lastCi, maxInstanceAge)) →
          s.faults.headD false = false →
          0 ≤ instanceAgeDelay lastCi.creationTime maxInstanceAge op.now →
          lastCi.id = op.childResource.id

/-- What `rollback` must meet to undo, in a transaction that starts from `v₀`:
* a manager is not left empty, unless it held nothing before the transaction;
* the quotas accept the subscription that is put back;
* the counters of the m2mPocs do not sum to zero, unless they were zero before the transaction. -/
def RollbackCondition (config : SclConfig) (v₀ v : Volatile) (op : TransientOp) (f : Fields) :
    Prop :=
  match op with
  | .subCreate op =>
    ∀ r, f.subsManager = some r →
      (∀ id ≠ op.subId, (v.subsManagers.get r).getSubscription id = none) →
        ∀ id, subscriptionAt v₀.subsManagers op.subsPath id = none
  | .subDelete _ =>
    ∀ r sub, f.subsManager = some r → f.subManager = some sub →
      (v.subsManagers.get r).size < config.maxSubscriptionsPerResource ∧
        v.shared.nbOfSubscriptions < config.maxSubscriptions
  | .m2mPoc op =>
    ∀ r, f.pocsManager = some r →
      ((v.pocsManagers.get r).m2mPocOnlineStatusChanged op.newOnlineStatus
        op.oldOnlineStatus).1.isEmpty →
        ∀ status, nbOfM2MPocs v₀.pocsManagers op.m2mPocsPath status = 0
  | .subsDelete _ | .cisChildCreate _ | .cisChildDelete _ => True

variable (config : SclConfig) (it : IterationOrder)

/-- Every preparation and every rollback of the transaction meets its condition. -/
def RestoreCondition (faults : Faults) (storage : Storage) (t : SclTransaction) (v : Volatile) :
    Prop :=
  Undo.PreparesAlong (TransientOp.prepare config it storage) (PrepareCondition v storage)
      t.transientOps ⟨faults.prepare, t.modifications, v⟩ ∧
    Undo.RollsBackAlong (TransientOp.rollback config it) (RollbackCondition config v)
      (t.prepareAll config it faults storage v).2.1
      (t.prepareAll config it faults storage v).2.2.volatile

/-! ## One step -/

/-- The account of the operations while they are prepared. -/
structure Prepared (v₀ : Volatile) (ops : List (TransientOp × Fields)) (v : Volatile) : Prop where
  subs : SubsOwed IsRegistered v₀.subsManagers ops v.subsManagers
  pocs : PocsPrepared v₀.pocsManagers ops v.pocsManagers
  timers : TimersOwed v₀ ops v

/-- Their account while they are rolled back. -/
structure Owed (v₀ : Volatile) (ops : List (TransientOp × Fields)) (v : Volatile) : Prop where
  subs : SubsOwed Registry.Belongs v₀.subsManagers ops v.subsManagers
  pocs : PocsOwed v₀.pocsManagers ops v.pocsManagers
  timers : TimersOwed v₀ ops v

variable {config it} {storage : Storage} {v₀ v : Volatile} {ops : List (TransientOp × Fields)}
  {op : TransientOp} {f : Fields}

theorem prepared_nil (v : Volatile) : Prepared v [] v :=
  ⟨subsOwed_nil _, pocsPrepared_nil _, timersOwed_nil v⟩

theorem Prepared.owed (h : Prepared v₀ ops v) : Owed v₀ ops v :=
  ⟨h.subs.mono fun _ _ hr => Registry.belongs_of_getAttribute hr, h.pocs.owed, h.timers⟩

theorem Owed.restored (h : Owed v₀ [] v) : Restored v₀ v :=
  ⟨h.subs.restored, h.pocs.restored, h.timers.restored, h.timers.instances⟩

theorem Prepared.append_initial (h : Prepared v₀ ops v) (op : TransientOp) :
    Prepared v₀ (ops ++ [(op, ({} : Fields))]) v :=
  ⟨h.subs.append_of_none rfl, h.pocs.append_of_none rfl, h.timers.append_of_none rfl⟩

section

variable {w : Volatile} (h : Prepared v₀ ops v)

include h

theorem Prepared.append_subs (hsame : v.Same w .subscriptions ∧ f.Empty .subscriptions) :
    SubsOwed IsRegistered v₀.subsManagers (ops ++ [(op, f)]) w.subsManagers := by
  rw [hsame.1.1]
  exact h.subs.append_of_none hsame.2.1

theorem Prepared.append_pocs (hsame : v.Same w .pocs ∧ f.Empty .pocs) :
    PocsPrepared v₀.pocsManagers (ops ++ [(op, f)]) w.pocsManagers := by
  rw [show w.pocsManagers = v.pocsManagers from hsame.1]
  exact h.pocs.append_of_none hsame.2

theorem Prepared.append_timers (hsame : v.Same w .timers ∧ f.Empty .timers) :
    TimersOwed v₀ (ops ++ [(op, f)]) w :=
  (h.timers.congr hsame.1.1 hsame.1.2.2.2).append_of_none hsame.2

end

/-- **One preparation**, also one that fails, leaves what the rollback of its operation undoes. -/
theorem prepare_prepared {s : Preparation} (h : Prepared v₀ ops s.volatile)
    (hC : PrepareCondition v₀ storage s op) :
    Prepared v₀ (ops ++ [(op, (op.prepare config it storage s).2.1)])
      (op.prepare config it storage s).2.2.volatile := by
  have hsame : ∀ p, p ≠ op.part →
      s.volatile.Same (op.prepare config it storage s).2.2.volatile p ∧
        (op.prepare config it storage s).2.1.Empty p := fun p hp => op.prepare_same s hp
  cases op with
  | subCreate op =>
    exact ⟨subCreate_prepare_owed h.subs hC _, h.append_pocs (hsame _ nofun),
      h.append_timers (hsame _ nofun)⟩
  | subDelete op =>
    exact ⟨subDelete_prepare_owed h.subs hC, h.append_pocs (hsame _ nofun),
      h.append_timers (hsame _ nofun)⟩
  | subsDelete op => exact h.append_initial _
  | m2mPoc op =>
    exact ⟨h.append_subs (hsame _ nofun), m2mPoc_prepare_owed (s := { s with
      faults := s.faults.tail }) h.pocs _, h.append_timers (hsame _ nofun)⟩
  | cisChildCreate op =>
    exact ⟨h.append_subs (hsame _ nofun), h.append_pocs (hsame _ nofun),
      cisChildCreate_prepare_owed h.timers _ hC.1 hC.2⟩
  | cisChildDelete op =>
    exact ⟨h.append_subs (hsame _ nofun), h.append_pocs (hsame _ nofun),
      cisChildDelete_prepare_owed h.timers _ hC⟩

section

variable (h : Owed v₀ ((op, f) :: ops) v) {w : Volatile}

include h

theorem Owed.tail_subs (hop : .subscriptions ≠ op.part) (hsame : v.Same w .subscriptions) :
    SubsOwed Registry.Belongs v₀.subsManagers ops w.subsManagers := by
  rw [hsame.1]
  refine h.subs.tail ?_
  rintro q k (⟨_, _, hmem, -⟩ | ⟨_, _, hmem, -⟩)
  all_goals
    cases List.mem_singleton.mp hmem
    exact absurd rfl hop

theorem Owed.tail_pocs (hop : .pocs ≠ op.part) (hsame : v.Same w .pocs) :
    PocsOwed v₀.pocsManagers ops w.pocsManagers := by
  rw [show w.pocsManagers = v.pocsManagers from hsame]
  refine ⟨fun op' f' r hmem => h.pocs.belongs op' f' r (List.mem_cons_of_mem _ hmem),
    fun p hp status => ?_, h.pocs.gone⟩
  have hdue : due (op, f) p status = 0 := by
    cases op with
    | m2mPoc op => exact absurd rfl hop
    | _ => rfl
  rw [h.pocs.counts p hp, totalDue_cons, hdue, zero_add]

theorem Owed.tail_timers (hop : .timers ≠ op.part) (hsame : v.Same w .timers) :
    TimersOwed v₀ ops w := by
  refine (h.timers.tail ?_).congr hsame.1 hsame.2.2.2
  cases op with
  | cisChildCreate op | cisChildDelete op => exact absurd rfl hop
  | _ => rfl

/-- **One rollback** undoes what its operation owes. -/
theorem rollback_owed (hD : RollbackCondition config v₀ v op f) :
    Owed v₀ ops (op.rollback config it f v) := by
  have hsame : ∀ p, p ≠ op.part → v.Same (op.rollback config it f v) p :=
    fun p hp => op.rollback_same f v hp
  cases op with
  | subCreate op =>
    exact ⟨subCreate_rollback_owed h.subs hD, h.tail_pocs nofun (hsame _ nofun),
      h.tail_timers nofun (hsame _ nofun)⟩
  | subDelete op =>
    exact ⟨subDelete_rollback_owed h.subs hD, h.tail_pocs nofun (hsame _ nofun),
      h.tail_timers nofun (hsame _ nofun)⟩
  | subsDelete op =>
    refine ⟨?_, h.tail_pocs nofun (hsame _ nofun), h.tail_timers nofun (hsame _ nofun)⟩
    refine h.subs.tail ?_
    rintro q k (⟨_, _, hmem, -⟩ | ⟨_, _, hmem, -⟩) <;> cases List.mem_singleton.mp hmem
  | m2mPoc op =>
    exact ⟨h.tail_subs nofun (hsame _ nofun), m2mPoc_rollback_owed h.pocs hD,
      h.tail_timers nofun (hsame _ nofun)⟩
  | cisChildCreate op | cisChildDelete op =>
    exact ⟨h.tail_subs nofun (hsame _ nofun), h.tail_pocs nofun (hsame _ nofun),
      timer_rollback_owed h.timers⟩

end

/-! ## A failed transaction -/

/-- The transaction is atomic: when it fails, the storage and the volatile state are as before. -/
def Atomic (config : SclConfig) (it : IterationOrder) (faults : Faults) (storage : Storage)
    (t : SclTransaction) (v : Volatile) : Prop :=
  (t.execute config it faults storage v).executed = false →
    (t.execute config it faults storage v).storage = storage ∧
      Restored v (t.execute config it faults storage v).volatile

/-- **A failed transaction restores the state** when its preparations and its rollbacks meet their
conditions. -/
theorem execute_restores {faults : Faults} {t : SclTransaction}
    (h : RestoreCondition config it faults storage t v) :
    Atomic config it faults storage t v := by
  intro hfailed
  rw [execute_of_failed hfailed]
  refine ⟨rfl, ?_⟩
  have hprepared : Prepared v (t.prepareAll config it faults storage v).2.1
      (t.prepareAll config it faults storage v).2.2.volatile :=
    Undo.prepareAll_owes (fun ops (s : Preparation) => Prepared v ops s.volatile) []
      (fun op done s hs => hs.append_initial op) (fun op done s hs hC => prepare_prepared hs hC)
      (prepared_nil v) h.1
  exact (Undo.rollbackAll_owes (Owed v) (fun op f ops w hw hD => rollback_owed hw hD)
    hprepared.owed h.2).restored

section Single

variable {faults : Faults} {s : Preparation}

/-- The rollback of the operation undoes its preparation. -/
def Undoes (config : SclConfig) (it : IterationOrder) (storage : Storage) (s : Preparation)
    (op : TransientOp) : Prop :=
  Restored s.volatile (op.rollback config it (op.prepare config it storage s).2.1
    (op.prepare config it storage s).2.2.volatile)

/-- The operation meets the conditions of a transaction that it begins and ends. -/
def Undoable (config : SclConfig) (it : IterationOrder) (storage : Storage) (s : Preparation)
    (op : TransientOp) : Prop :=
  PrepareCondition s.volatile storage s op ∧
    RollbackCondition config s.volatile (op.prepare config it storage s).2.2.volatile op
      (op.prepare config it storage s).2.1

theorem restoreCondition_single (ms : List Modification) (op : TransientOp) :
    RestoreCondition config it faults storage ⟨ms, [op]⟩ v ↔
      Undoable config it storage ⟨faults.prepare, ms, v⟩ op := by
  unfold RestoreCondition Undoable
  rw [prepareAll_single]
  simp [Undo.PreparesAlong, Undo.RollsBackAlong]

theorem subCreate_prepare_manager (config : SclConfig) (op : SubCreateOp) (fault : Bool) (v : Volatile) :
    ∃ r, (op.prepare config fault v).2.1.subsManager = some r ∧
      (op.prepare config fault v).2.2.subsManagers.getAttribute op.subsPath = some r ∧
      ∀ k ≠ op.subId, ((op.prepare config fault v).2.2.subsManagers.get r).getSubscription k =
        subscriptionAt v.subsManagers op.subsPath k := by
  have hr := Registry.getAttribute_getOrCreate (g := v.subsManagers) op.subsPath
    (.new op.dependsOnFilterCriteria)
  have hsame := fun k => subscriptionAt_getOrCreate v.subsManagers op.subsPath op.subsPath k
    op.dependsOnFilterCriteria
  unfold SubCreateOp.prepare
  generalize v.subsManagers.getOrCreate op.subsPath (.new op.dependsOnFilterCriteria) = created
    at hr hsame ⊢
  obtain ⟨r, g⟩ := created
  dsimp only at hr hsame ⊢
  have hget : ∀ k, (g.get r).getSubscription k = subscriptionAt v.subsManagers op.subsPath k :=
    fun k => (subscriptionAt_of_getAttribute hr).symm.trans (hsame k)
  split
  · exact ⟨r, rfl, hr, fun k _ => hget k⟩
  · split
    · exact ⟨r, rfl, hr, fun k _ => hget k⟩
    · next m shared hadd =>
      refine ⟨r, rfl, hr, fun k hk => ?_⟩
      rw [Registry.get_set_self,
        getSubscription_insert (addSubscription_eq_some hadd).2.1,
        if_neg hk]
      exact hget k

theorem subCreate_rollback_none {op : SubCreateOp} {r : Nat} (hf : f.subsManager = some r)
    (hr : v.subsManagers.getAttribute op.subsPath = some r) :
    subscriptionAt (op.rollback it f v).subsManagers op.subsPath op.subId = none := by
  unfold SubCreateOp.rollback
  rw [hf]
  dsimp only
  obtain ⟨-, hm, -⟩ :=
    removeSubscription_spec it op.subId (v.subsManagers.get r) v.shared
  split
  · exact subscriptionAt_of_getAttribute_none (Registry.getAttribute_removeAttribute_self _)
  · rw [subscriptionAt_set hr, if_pos rfl, getSubscription_erase hm, if_pos rfl]

theorem subCreate_condition {op : SubCreateOp} (h : Undoes config it storage s (.subCreate op)) :
    Undoable config it storage s (.subCreate op) := by
  obtain ⟨r, hf, hr, hothers⟩ :=
    subCreate_prepare_manager config op (s.faults.headD false) s.volatile
  have hnone : subscriptionAt s.volatile.subsManagers op.subsPath op.subId = none :=
    (h.subscriptions op.subsPath op.subId).symm.trans (subCreate_rollback_none hf hr)
  refine ⟨hnone, fun r' hr' hempty k => ?_⟩
  have hrr : some r = some r' := hf.symm.trans hr'
  cases hrr
  by_cases hk : k = op.subId
  · rw [hk, hnone]
  · rw [← hothers k hk]
    exact hempty k hk

theorem subDelete_prepare_some {op : SubDeleteOp} {r : Nat} {sub : Sub}
    (hr : (op.prepare it v).2.1.subsManager = some r)
    (hs : (op.prepare it v).2.1.subManager = some sub) :
    subscriptionAt v.subsManagers op.subsPath op.subId = some sub ∧
      subscriptionAt (op.prepare it v).2.2.subsManagers op.subsPath op.subId = none := by
  unfold SubDeleteOp.prepare at hr hs ⊢
  cases hp : v.subsManagers.getAttribute op.subsPath with
  | none =>
    rw [hp] at hr
    cases hr
  | some r' =>
    rw [hp] at hs
    dsimp only at hs ⊢
    obtain ⟨hsub, hm, -⟩ :=
      removeSubscription_spec it op.subId (v.subsManagers.get r') v.shared
    refine ⟨?_, ?_⟩
    · rw [subscriptionAt_of_getAttribute hp, ← hsub, hs]
    · rw [subscriptionAt_set hp, if_pos rfl, getSubscription_erase hm, if_pos rfl]

theorem subDelete_condition {op : SubDeleteOp} (h : Undoes config it storage s (.subDelete op)) :
    Undoable config it storage s (.subDelete op) := by
  refine ⟨fun hn => hn, fun r sub hr hs => ?_⟩
  obtain ⟨hheld, hgone⟩ := subDelete_prepare_some hr hs
  change subscriptionAt ((TransientOp.subDelete op).prepare config it storage
    s).2.2.volatile.subsManagers op.subsPath op.subId = none at hgone
  have hsubs := h.subscriptions op.subsPath op.subId
  by_contra hquota
  generalize (TransientOp.subDelete op).prepare config it storage s = prepared at *
  unfold rollback SubDeleteOp.rollback at hsubs
  rw [hr, hs] at hsubs
  dsimp only at hsubs
  rw [addSubscription_eq_none.mpr hquota] at hsubs
  cases hgone.symm.trans (hsubs.trans hheld)

theorem m2mPoc_condition {op : M2MPocOp} (h : Undoes config it storage s (.m2mPoc op)) :
    Undoable config it storage s (.m2mPoc op) := by
  refine ⟨trivial, fun r hr hempty status => ?_⟩
  rw [← h.pocs op.m2mPocsPath status]
  unfold rollback M2MPocOp.rollback
  rw [hr]
  dsimp only
  rw [if_pos hempty]
  exact nbOfM2MPocs_removeAttribute_self

theorem not_armed_of_restored {i : Option Nat} {w : Volatile} (h : Restored v w)
    (hw : ∀ t ∈ w.timers.armed, t ∈ (v.cancelTimer i).timers.armed) :
    ∀ id, i = some id → ¬ Armed v id := by
  rintro id rfl ⟨t, ht, rfl⟩
  exact (Timers.mem_cancel.mp (hw t ((h.timers t).mpr ht))).2 rfl

theorem cisChildCreate_condition {op : CisChildCreateOp} (h : Undoes config it storage s (.cisChildCreate op)) :
    Undoable config it storage s (.cisChildCreate op) := by
  refine ⟨?_, trivial⟩
  have hcancel : ∀ t ∈ (op.cancelOldTimer s.volatile).timers.armed,
      t ∈ (s.volatile.cancelTimer (s.volatile.instanceAgeTimer.lookup op.path)).timers.armed := by
    unfold CisChildCreateOp.cancelOldTimer
    intro t ht
    split at ht
    · next hold => rwa [hold]
    · next hold =>
      rw [hold]
      exact Timers.mem_cancel.mpr ⟨ht, by nofun⟩
  unfold Undoes rollback prepare rollbackTimer at h
  dsimp only at h
  rcases op.prepare_cases (s.faults.headD false) s.volatile with ⟨-, -, heq⟩ | ⟨hfails, heq⟩
  · rw [heq] at h
    refine ⟨not_armed_of_restored h fun t ht => hcancel t ?_, fun _ _ => ?_⟩
    · obtain ⟨ht, hne⟩ := Timers.mem_cancel.mp ht
      rcases Timers.mem_start.mp ht with rfl | ht
      · exact absurd rfl hne
      · exact ht
    · rw [← h.instances op.path]
      exact AList.lookup_insert _
  · rw [heq] at h
    refine ⟨not_armed_of_restored h hcancel, fun hfault hdelay => ?_⟩
    exact absurd ⟨hfault, hdelay⟩ hfails

theorem cisChildDelete_condition {op : CisChildDeleteOp} (h : Undoes config it storage s (.cisChildDelete op)) :
    Undoable config it storage s (.cisChildDelete op) := by
  refine ⟨?_, trivial⟩
  intro hwatched
  unfold Undoes rollback prepare rollbackTimer at h
  dsimp only at h
  rcases op.prepare_cases storage (s.faults.headD false) s.volatile with
    ⟨hne, -⟩ | ⟨-, ⟨lastCi, age, -, hstarts, heq⟩ | ⟨hfails, heq⟩⟩
  · exact absurd hwatched hne
  · rw [heq] at h
    refine ⟨not_armed_of_restored h fun t ht => ?_, fun lastCi' age' hlast _ _ => ?_⟩
    · obtain ⟨ht, hne⟩ := Timers.mem_cancel.mp ht
      rcases Timers.mem_start.mp ht with rfl | ht
      · exact absurd rfl hne
      · exact ht
    · rw [hstarts.1] at hlast
      cases hlast
      have hid := h.instances op.path
      rw [hwatched] at hid
      exact Option.some.inj ((AList.lookup_insert _).symm.trans hid)
  · rw [heq] at h
    refine ⟨not_armed_of_restored h fun t ht => ht, fun lastCi age hlast hfault hdelay => ?_⟩
    rcases hfails with hf | hno
    · rw [hf] at hfault
      cases hfault
    · exact absurd ⟨hlast, hdelay⟩ (hno lastCi age)

/-- **A transaction with one operation**: when it fails, it restores the state exactly when the
operation meets the condition. -/
theorem single_restores_iff {ms : List Modification} {op : TransientOp}
    (hfailed : (execute config it faults storage ⟨ms, [op]⟩ v).executed = false) :
    Atomic config it faults storage ⟨ms, [op]⟩ v ↔
      RestoreCondition config it faults storage ⟨ms, [op]⟩ v := by
  refine ⟨fun h => ?_, execute_restores⟩
  have hundoes : Undoes config it storage ⟨faults.prepare, ms, v⟩ op := by
    have hrestored := (h hfailed).2
    rwa [execute_of_failed hfailed, prepareAll_single] at hrestored
  rw [restoreCondition_single]
  cases op with
  | subCreate op => exact subCreate_condition hundoes
  | subDelete op => exact subDelete_condition hundoes
  | subsDelete op => exact ⟨trivial, trivial⟩
  | m2mPoc op => exact m2mPoc_condition hundoes
  | cisChildCreate op => exact cisChildCreate_condition hundoes
  | cisChildDelete op => exact cisChildDelete_condition hundoes

end Single

/-- **A failed transaction is atomic** with respect to the volatile state when its preparations and
its rollbacks meet their conditions; when it has one operation, only then. -/
theorem execute_atomic (config : SclConfig) (it : IterationOrder) (faults : Faults)
    (storage : Storage) (t : SclTransaction) (v : Volatile) :
    (RestoreCondition config it faults storage t v → Atomic config it faults storage t v) ∧
      ∀ op, t.transientOps = [op] → (t.execute config it faults storage v).executed = false →
        (Atomic config it faults storage t v ↔ RestoreCondition config it faults storage t v) := by
  refine ⟨execute_restores, ?_⟩
  obtain ⟨ms, ops⟩ := t
  rintro op rfl hfailed
  exact single_restores_iff hfailed

/-- A subscription and an m2mPoc that are created together, in a storage that fails. -/
def subscriptionAndM2MPoc : SclTransaction where
  transientOps := [.subCreate ⟨["scl", "subscriptions"], "sub", ⟨[], none⟩, false⟩,
    .m2mPoc ⟨["scl", "m2mPocs"], none, some .offline⟩]

theorem subscriptionAndM2MPoc_restored :
    (subscriptionAndM2MPoc.execute ⟨1, 1⟩ noOrder ⟨[], true⟩ ∅ .initial).executed = false ∧
      Restored .initial
        (subscriptionAndM2MPoc.execute ⟨1, 1⟩ noOrder ⟨[], true⟩ ∅ .initial).volatile := by
  refine ⟨rfl, ?_⟩
  refine ((execute_atomic _ _ _ _ _ _).1 ⟨?_, ?_⟩ rfl).2
  · exact ⟨rfl, fun _ => ⟨trivial, fun _ => trivial⟩⟩
  · exact ⟨fun _ _ _ _ => rfl, fun _ _ _ _ => rfl, trivial⟩

/-- The age of the instance `a` is watched by the timer that the last deletion armed. -/
def watched : Volatile :=
  { Volatile.initial with
    instanceAgeTimer := AList.singleton ["contentInstances"] 0
    instanceAgeId := AList.singleton ["contentInstances"] "a"
    timers := Timers.none.start ["contentInstances"] 1000 }

/-- The creation of an instance that the storage refuses leaves `a` without its timer. -/
theorem execute_not_atomic :
    ¬ Atomic ⟨1, 1⟩ noOrder ⟨[], true⟩ ∅
      ⟨[], [.cisChildCreate ⟨["contentInstances"], 0, "a", 500, 1⟩]⟩ watched := by
  intro h
  have hkept := ((h rfl).2.timers ⟨0, ["contentInstances"], 1000⟩).mpr (by decide)
  revert hkept
  decide

end Ong.Scl
