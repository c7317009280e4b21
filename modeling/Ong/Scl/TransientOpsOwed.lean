import Ong.Scl.SclTransaction

/-!
# What the operations of a transaction owe

After some preparations the volatile state differs from that before the transaction by what the
rollbacks can undo.  Each part of the state has its own account: the subscriptions, the counters of
the m2mPocs, the timers of the instances.

## Main results

* one lemma for each `prepare` and each `rollback`
-/

namespace Ong.Scl

open M2M Volatile Registry SubsManager

section Subscriptions

/-- An operation that is to remove the subscription `id` again. -/
def PendingCreate (ops : List (TransientOp × Fields)) (p : Path) (id : String) : Prop :=
  ∃ op f, (.subCreate op, f) ∈ ops ∧ op.subsPath = p ∧ op.subId = id ∧ f.subsManager ≠ none

/-- An operation that is to put the subscription `id` back. -/
def PendingDelete (ops : List (TransientOp × Fields)) (p : Path) (id : String) (sub : Sub) : Prop :=
  ∃ f, (.subDelete ⟨p, id⟩, f) ∈ ops ∧ f.subsManager ≠ none ∧ f.subManager = some sub

/-- The subscription `id` is as in `g₀`, or an operation makes it so. -/
def OwedAt (g₀ : Registry Path SubsManager) (ops : List (TransientOp × Fields))
    (g : Registry Path SubsManager) (p : Path) (id : String) : Prop :=
  match subscriptionAt g₀ p id with
  | some sub => subscriptionAt g p id = some sub ∨
      subscriptionAt g p id = none ∧ PendingDelete ops p id sub
  | none => subscriptionAt g p id = none ∨ PendingCreate ops p id

/-- What the operations have to undo to give the subscriptions of `g₀`; `R` says what is known of
the managers that they refer to. -/
structure SubsOwed (R : Registry Path SubsManager → Path → Nat → Prop)
    (g₀ : Registry Path SubsManager) (ops : List (TransientOp × Fields))
    (g : Registry Path SubsManager) : Prop where
  creates : ∀ op f r, (.subCreate op, f) ∈ ops → f.subsManager = some r →
    subscriptionAt g₀ op.subsPath op.subId = none ∧ R g op.subsPath r
  deletes : ∀ op f r sub, (.subDelete op, f) ∈ ops → f.subsManager = some r →
    f.subManager = some sub →
      subscriptionAt g₀ op.subsPath op.subId = some sub ∧ R g op.subsPath r
  registered : ∀ p id sub, subscriptionAt g₀ p id = some sub → g.getAttribute p ≠ none
  owed : ∀ p id, OwedAt g₀ ops g p id

variable {config : SclConfig} {it : IterationOrder}
  {R : Registry Path SubsManager → Path → Nat → Prop} {g₀ g g' : Registry Path SubsManager}
  {ops ops' : List (TransientOp × Fields)} {p : Path} {id : String}

theorem OwedAt.congr (h : OwedAt g₀ ops g p id)
    (hsame : subscriptionAt g' p id = subscriptionAt g p id)
    (hcreate : PendingCreate ops p id → PendingCreate ops' p id)
    (hdelete : ∀ sub, PendingDelete ops p id sub → PendingDelete ops' p id sub) :
    OwedAt g₀ ops' g' p id := by
  unfold OwedAt at h ⊢
  rw [hsame]
  cases hp : subscriptionAt g₀ p id with
  | none =>
    rw [hp] at h
    exact h.imp_right hcreate
  | some sub =>
    rw [hp] at h
    exact h.imp_right fun h => ⟨h.1, hdelete sub h.2⟩

theorem OwedAt.append (h : OwedAt g₀ ops g p id) (o : TransientOp × Fields) :
    OwedAt g₀ (ops ++ [o]) g p id := by
  refine h.congr rfl ?_ ?_
  · rintro ⟨op, f, hmem, hop⟩
    exact ⟨op, f, List.mem_append_left _ hmem, hop⟩
  · rintro sub ⟨f, hmem, hf⟩
    exact ⟨f, List.mem_append_left _ hmem, hf⟩

theorem OwedAt.tail {o : TransientOp × Fields} (h : OwedAt g₀ (o :: ops) g p id)
    (hsame : subscriptionAt g' p id = subscriptionAt g p id)
    (hcreate : ¬ PendingCreate [o] p id) (hdelete : ∀ sub, ¬ PendingDelete [o] p id sub) :
    OwedAt g₀ ops g' p id := by
  refine h.congr hsame ?_ ?_
  · rintro ⟨op, f, hmem, hop⟩
    rcases List.mem_cons.mp hmem with rfl | hmem
    · exact absurd ⟨op, f, List.mem_singleton_self _, hop⟩ hcreate
    · exact ⟨op, f, hmem, hop⟩
  · rintro sub ⟨f, hmem, hf⟩
    rcases List.mem_cons.mp hmem with rfl | hmem
    · exact absurd ⟨f, List.mem_singleton_self _, hf⟩ (hdelete sub)
    · exact ⟨f, hmem, hf⟩

theorem subsOwed_nil (g : Registry Path SubsManager) : SubsOwed R g [] g where
  creates _ _ _ h := absurd h List.not_mem_nil
  deletes _ _ _ _ h := absurd h List.not_mem_nil
  registered p id sub h hn := by
    rw [subscriptionAt_of_getAttribute_none hn] at h
    cases h
  owed p id := by
    unfold OwedAt
    split <;> exact .inl (by assumption)

theorem SubsOwed.restored (h : SubsOwed R g₀ [] g) (p : Path) (id : String) :
    subscriptionAt g p id = subscriptionAt g₀ p id := by
  have hp := h.owed p id
  unfold OwedAt at hp
  split at hp
  · next sub heq =>
    rcases hp with hs | ⟨_, _, hmem, _⟩
    · rw [hs, heq]
    · exact absurd hmem List.not_mem_nil
  · next heq =>
    rcases hp with hn | ⟨_, _, hmem, _⟩
    · rw [hn, heq]
    · exact absurd hmem List.not_mem_nil

theorem SubsOwed.congr (h : SubsOwed R g₀ ops g)
    (hsame : ∀ p id, subscriptionAt g' p id = subscriptionAt g p id)
    (hR : ∀ p r, R g p r → R g' p r)
    (hkept : ∀ p r, g.getAttribute p = some r → g'.getAttribute p = some r) :
    SubsOwed R g₀ ops g' where
  creates op f r hmem hr := (h.creates op f r hmem hr).imp_right (hR _ _)
  deletes op f r sub hmem hr hs := (h.deletes op f r sub hmem hr hs).imp_right (hR _ _)
  registered p id sub hp := by
    obtain ⟨r, hr⟩ := Option.ne_none_iff_exists'.mp (h.registered p id sub hp)
    rw [hkept p r hr]
    nofun
  owed p id := (h.owed p id).congr (hsame p id) (fun h => h) fun _ h => h

theorem SubsOwed.mono {R' : Registry Path SubsManager → Path → Nat → Prop}
    (h : SubsOwed R g₀ ops g) (hR : ∀ p r, R g p r → R' g p r) : SubsOwed R' g₀ ops g where
  creates op f r hmem hr := (h.creates op f r hmem hr).imp_right (hR _ _)
  deletes op f r sub hmem hr hs := (h.deletes op f r sub hmem hr hs).imp_right (hR _ _)
  registered := h.registered
  owed := h.owed

theorem SubsOwed.append {op : TransientOp} {f : Fields} (h : SubsOwed R g₀ ops g)
    (hcreate : ∀ op' r, op = .subCreate op' → f.subsManager = some r →
      subscriptionAt g₀ op'.subsPath op'.subId = none ∧ R g op'.subsPath r)
    (hdelete : ∀ op' r sub, op = .subDelete op' → f.subsManager = some r →
      f.subManager = some sub →
        subscriptionAt g₀ op'.subsPath op'.subId = some sub ∧ R g op'.subsPath r) :
    SubsOwed R g₀ (ops ++ [(op, f)]) g where
  creates op' f' r hmem hr := by
    rcases List.mem_append.mp hmem with hmem | hmem
    · exact h.creates op' f' r hmem hr
    · cases List.mem_singleton.mp hmem
      exact hcreate op' r rfl hr
  deletes op' f' r sub hmem hr hs := by
    rcases List.mem_append.mp hmem with hmem | hmem
    · exact h.deletes op' f' r sub hmem hr hs
    · cases List.mem_singleton.mp hmem
      exact hdelete op' r sub rfl hr hs
  registered := h.registered
  owed p id := (h.owed p id).append _

theorem SubsOwed.append_of_none {op : TransientOp} {f : Fields} (h : SubsOwed R g₀ ops g)
    (hf : f.subsManager = none) : SubsOwed R g₀ (ops ++ [(op, f)]) g := by
  refine h.append ?_ ?_
  · rintro _ r - hr
    rw [hf] at hr
    cases hr
  · rintro _ r _ - hr
    rw [hf] at hr
    cases hr

theorem SubsOwed.set {r : Nat} {m : SubsManager} (h : SubsOwed R g₀ ops g) (id : String)
    (hp : g.getAttribute p = some r) (hR : ∀ q r', R g q r' → R (g.set r m) q r')
    (hother : ∀ k ≠ id, m.getSubscription k = (g.get r).getSubscription k)
    (hid : OwedAt g₀ ops (g.set r m) p id) : SubsOwed R g₀ ops (g.set r m) where
  creates op f r' hmem hr := (h.creates op f r' hmem hr).imp_right (hR _ _)
  deletes op f r' sub hmem hr hs := (h.deletes op f r' sub hmem hr hs).imp_right (hR _ _)
  registered := h.registered
  owed q k := by
    by_cases hqk : q = p ∧ k = id
    · rw [hqk.1, hqk.2]
      exact hid
    · refine (h.owed q k).congr ?_ (fun h => h) fun _ h => h
      rw [subscriptionAt_set hp]
      split
      · next hq =>
        have hk : k ≠ id := fun hk => hqk ⟨hq, hk⟩
        rw [hother k hk, hq, subscriptionAt_of_getAttribute hp]
      · rfl

theorem SubsOwed.tail {o : TransientOp × Fields} (h : SubsOwed R g₀ (o :: ops) g)
    (ho : ∀ q k, (PendingCreate [o] q k ∨ ∃ sub, PendingDelete [o] q k sub) →
      OwedAt g₀ ops g q k) : SubsOwed R g₀ ops g where
  creates op f r hmem := h.creates op f r (List.mem_cons_of_mem _ hmem)
  deletes op f r sub hmem := h.deletes op f r sub (List.mem_cons_of_mem _ hmem)
  registered := h.registered
  owed q k := by
    by_cases hqk : PendingCreate [o] q k ∨ ∃ sub, PendingDelete [o] q k sub
    · exact ho q k hqk
    · rw [not_or, not_exists] at hqk
      exact (h.owed q k).tail rfl hqk.1 hqk.2

theorem SubsOwed.removeAttribute (h : SubsOwed Belongs g₀ ops g)
    (h₀ : ∀ k, subscriptionAt g₀ p k = none) (hp : ∀ k, subscriptionAt g p k = none) :
    SubsOwed Belongs g₀ ops (g.removeAttribute p) where
  creates op f r hmem hr :=
    (h.creates op f r hmem hr).imp_right fun h => h.removeAttribute p
  deletes op f r sub hmem hr hs :=
    (h.deletes op f r sub hmem hr hs).imp_right fun h => h.removeAttribute p
  registered q k sub hq := by
    have hne : q ≠ p := by
      rintro rfl
      rw [h₀] at hq
      cases hq
    rw [getAttribute_removeAttribute_of_ne hne]
    exact h.registered q k sub hq
  owed q k := (h.owed q k).congr (subscriptionAt_removeAttribute hp) (fun h => h) fun _ h => h

/-- While the operations are prepared, the managers that they refer to stay registered. -/
def IsRegistered (g : Registry Path SubsManager) (p : Path) (r : Nat) : Prop :=
  g.getAttribute p = some r

variable {v : Volatile}

/-- **Preparing a creation.** -/
theorem subCreate_prepare_owed {op : SubCreateOp}
    (h : SubsOwed IsRegistered g₀ ops v.subsManagers)
    (hC : subscriptionAt g₀ op.subsPath op.subId = none) (fault : Bool) :
    SubsOwed IsRegistered g₀ (ops ++ [(.subCreate op, (op.prepare config fault v).2.1)])
      (op.prepare config fault v).2.2.subsManagers := by
  have hg : SubsOwed IsRegistered g₀ ops
      (v.subsManagers.getOrCreate op.subsPath (.new op.dependsOnFilterCriteria)).2 :=
    h.congr (fun q k => subscriptionAt_getOrCreate _ _ q k _)
      (fun q r hr => getAttribute_getOrCreate_of_some hr _)
      (fun q r hr => getAttribute_getOrCreate_of_some hr _)
  have hr := getAttribute_getOrCreate (g := v.subsManagers) op.subsPath
    (.new op.dependsOnFilterCriteria)
  unfold SubCreateOp.prepare
  generalize v.subsManagers.getOrCreate op.subsPath (.new op.dependsOnFilterCriteria) = created
    at hg hr
  obtain ⟨r, g⟩ := created
  have happend : ∀ f : Fields, f.subsManager = some r →
      SubsOwed IsRegistered g₀ (ops ++ [(.subCreate op, f)]) g := by
    intro f hf
    refine hg.append ?_ ?_
    · rintro _ r' ⟨⟩ hr'
      rw [hf] at hr'
      cases hr'
      exact ⟨hC, hr⟩
    · rintro _ _ _ ⟨⟩
  dsimp only
  split
  · exact happend _ rfl
  · split
    · exact happend _ rfl
    · next m shared hadd =>
      have hm := (addSubscription_eq_some hadd).2.1
      refine (happend _ rfl).set op.subId hr (fun _ _ h => h) (fun k hk => ?_) ?_
      · rw [getSubscription_insert hm, if_neg hk]
        rfl
      · unfold OwedAt
        rw [hC]
        refine .inr ⟨op, _, List.mem_append_right _ (List.mem_singleton_self _), rfl, rfl, ?_⟩
        nofun

/-- **Preparing a removal.** -/
theorem subDelete_prepare_owed {op : SubDeleteOp}
    (h : SubsOwed IsRegistered g₀ ops v.subsManagers)
    (hC : subscriptionAt g₀ op.subsPath op.subId = none →
      subscriptionAt v.subsManagers op.subsPath op.subId = none) :
    SubsOwed IsRegistered g₀ (ops ++ [(.subDelete op, (op.prepare it v).2.1)])
      (op.prepare it v).2.2.subsManagers := by
  unfold SubDeleteOp.prepare
  cases hp : v.subsManagers.getAttribute op.subsPath with
  | none => exact h.append_of_none rfl
  | some r =>
    dsimp only
    obtain ⟨hsub, hm, -⟩ :=
      removeSubscription_spec it op.subId (v.subsManagers.get r) v.shared
    generalize (v.subsManagers.get r).removeSubscription it op.subId v.shared = removed at hsub hm
    obtain ⟨sub, m, shared⟩ := removed
    rw [← subscriptionAt_of_getAttribute hp] at hsub
    dsimp only at hsub hm ⊢
    have hheld : ∀ s, sub = some s → subscriptionAt g₀ op.subsPath op.subId = some s := by
      rintro s rfl
      have howed := h.owed op.subsPath op.subId
      unfold OwedAt at howed
      split at howed
      · next s' heq =>
        rcases howed with hs | ⟨hn, -⟩
        · rw [heq, ← hs, ← hsub]
        · rw [hn] at hsub
          cases hsub
      · next heq =>
        rw [hC heq] at hsub
        cases hsub
    have happend : SubsOwed IsRegistered g₀
        (ops ++ [(.subDelete op, { subsManager := some r, subManager := sub })])
        v.subsManagers := by
      refine h.append ?_ ?_
      · rintro _ _ ⟨⟩
      · rintro _ r' s ⟨⟩ ⟨⟩ hs
        exact ⟨hheld s hs, hp⟩
    refine happend.set op.subId hp (fun _ _ h => h) (fun k hk => ?_) ?_
    · rw [getSubscription_erase hm, if_neg hk]
    · have hnone : subscriptionAt (v.subsManagers.set r m) op.subsPath op.subId = none := by
        rw [subscriptionAt_set hp, if_pos rfl, getSubscription_erase hm, if_pos rfl]
      unfold OwedAt
      rw [hnone]
      split
      · next s heq =>
        refine .inr ⟨rfl, ?_⟩
        have howed := h.owed op.subsPath op.subId
        unfold OwedAt at howed
        rw [heq] at howed
        rcases howed with hs | ⟨-, f, hmem, hf⟩
        · refine ⟨_, List.mem_append_right _ (List.mem_singleton_self _), by nofun, ?_⟩
          rw [hsub, hs]
        · exact ⟨f, List.mem_append_left _ hmem, hf⟩
      · exact .inl rfl

/-- **Undoing a creation.** -/
theorem subCreate_rollback_owed {op : SubCreateOp} {f : Fields}
    (h : SubsOwed Belongs g₀ ((.subCreate op, f) :: ops) v.subsManagers)
    (hD : ∀ r, f.subsManager = some r →
      (∀ k ≠ op.subId, (v.subsManagers.get r).getSubscription k = none) →
        ∀ k, subscriptionAt g₀ op.subsPath k = none) :
    SubsOwed Belongs g₀ ops (op.rollback it f v).subsManagers := by
  unfold SubCreateOp.rollback
  cases hf : f.subsManager with
  | none =>
    refine h.tail ?_
    rintro q k (⟨op', f', hmem, -, -, hf'⟩ | ⟨_, _, hmem, -⟩)
    · cases List.mem_singleton.mp hmem
      exact absurd hf hf'
    · cases List.mem_singleton.mp hmem
  | some r =>
    dsimp only
    obtain ⟨h₀, hown⟩ := h.creates op f r List.mem_cons_self hf
    obtain ⟨-, hm, -⟩ :=
      removeSubscription_spec it op.subId (v.subsManagers.get r) v.shared
    generalize (v.subsManagers.get r).removeSubscription it op.subId v.shared = removed at hm ⊢
    obtain ⟨sub, m, shared⟩ := removed
    have hset : SubsOwed Belongs g₀ ((.subCreate op, f) :: ops)
        (v.subsManagers.set r m) ∧
        subscriptionAt (v.subsManagers.set r m) op.subsPath op.subId = none := by
      rcases hown.2 with hp | hp
      · have hnone : subscriptionAt (v.subsManagers.set r m) op.subsPath op.subId = none := by
          rw [subscriptionAt_set hp, if_pos rfl, getSubscription_erase hm, if_pos rfl]
        refine ⟨h.set op.subId hp (fun _ _ h => h) (fun k hk => ?_) ?_, hnone⟩
        · rw [getSubscription_erase hm, if_neg hk]
        · unfold OwedAt
          rw [h₀]
          exact .inl hnone
      · refine ⟨h.congr (fun q k => subscriptionAt_set_of_none hown.1 hp) (fun _ _ h => h)
          fun _ _ h => h, ?_⟩
        exact subscriptionAt_of_getAttribute_none hp
    have htail : SubsOwed Belongs g₀ ops (v.subsManagers.set r m) := by
      refine hset.1.tail ?_
      rintro q k (⟨op', f', hmem, rfl, rfl, -⟩ | ⟨_, _, hmem, -⟩)
      · cases List.mem_singleton.mp hmem
        unfold OwedAt
        rw [h₀]
        exact .inl hset.2
      · cases List.mem_singleton.mp hmem
    split
    · next hempty =>
      have hm' := isEmpty_iff.mp hempty
      refine htail.removeAttribute (hD r hf fun k hk => ?_) fun k => ?_
      · have := hm' k
        rwa [getSubscription_erase hm, if_neg hk] at this
      · rcases hown.2 with hp | hp
        · rw [subscriptionAt_set hp, if_pos rfl]
          exact hm' k
        · exact subscriptionAt_of_getAttribute_none hp
    · exact htail

/-- **Undoing a removal.** -/
theorem subDelete_rollback_owed {op : SubDeleteOp} {f : Fields}
    (h : SubsOwed Belongs g₀ ((.subDelete op, f) :: ops) v.subsManagers)
    (hD : ∀ r sub, f.subsManager = some r → f.subManager = some sub →
      (v.subsManagers.get r).size < config.maxSubscriptionsPerResource ∧
        v.shared.nbOfSubscriptions < config.maxSubscriptions) :
    SubsOwed Belongs g₀ ops (op.rollback config f v).subsManagers := by
  unfold SubDeleteOp.rollback
  split
  · next r sub hr hs =>
    obtain ⟨h₀, hown⟩ := h.deletes op f r sub List.mem_cons_self hr hs
    have hp : v.subsManagers.getAttribute op.subsPath = some r :=
      hown.2.resolve_right (h.registered _ _ _ h₀)
    split
    · next hadd => exact absurd (hD r sub hr hs) (addSubscription_eq_none.mp hadd)
    · next m shared hadd =>
      have hm := (addSubscription_eq_some hadd).2.1
      have hsome : subscriptionAt (v.subsManagers.set r m) op.subsPath op.subId = some sub := by
        rw [subscriptionAt_set hp, if_pos rfl, getSubscription_insert hm, if_pos rfl]
      have hback : ∀ ops', OwedAt g₀ ops' (v.subsManagers.set r m) op.subsPath op.subId := by
        intro ops'
        unfold OwedAt
        rw [h₀]
        exact .inl hsome
      have hset := h.set op.subId hp (fun _ _ h => h) (fun k hk => by
        rw [getSubscription_insert hm, if_neg hk]
        rfl) (hback _)
      refine hset.tail ?_
      rintro q k (⟨_, _, hmem, -⟩ | ⟨_, f', hmem, -⟩)
      · cases List.mem_singleton.mp hmem
      · cases List.mem_singleton.mp hmem
        exact hback ops
  · next hnone =>
    refine h.tail ?_
    rintro q k (⟨_, _, hmem, -⟩ | ⟨sub, f', hmem, hf, hs⟩)
    · cases List.mem_singleton.mp hmem
    · cases List.mem_singleton.mp hmem
      obtain ⟨r, hr⟩ := Option.ne_none_iff_exists'.mp hf
      exact absurd hs (hnone r sub hr)

end Subscriptions

section M2MPocs

variable (o : TransientOp × Fields)

/-- How much an operation added to the counter of a status, and is to take back. -/
def due (p : Path) (status : OnlineStatus) : Int :=
  match o with
  | (.m2mPoc op, f) =>
    if op.m2mPocsPath = p ∧ f.pocsManager ≠ none then
      M2MPocsManager.delta op.oldOnlineStatus op.newOnlineStatus status
    else 0
  | _ => 0

def totalDue (ops : List (TransientOp × Fields)) (p : Path) (status : OnlineStatus) : Int :=
  (ops.map fun o => due o p status).sum

/-- While the operations are prepared, the counters are those of `g₀` and what is due, and no
manager is removed. -/
structure PocsPrepared (g₀ : Registry Path M2MPocsManager) (ops : List (TransientOp × Fields))
    (g : Registry Path M2MPocsManager) : Prop where
  registered : ∀ op f r, (.m2mPoc op, f) ∈ ops → f.pocsManager = some r →
    g.getAttribute op.m2mPocsPath = some r
  counts : ∀ p status, nbOfM2MPocs g p status = nbOfM2MPocs g₀ p status + totalDue ops p status
  gone : ∀ p, g.getAttribute p = none → ∀ status, nbOfM2MPocs g₀ p status = 0

/-- While they are rolled back, only a manager that counted nothing at first is removed. -/
structure PocsOwed (g₀ : Registry Path M2MPocsManager) (ops : List (TransientOp × Fields))
    (g : Registry Path M2MPocsManager) : Prop where
  belongs : ∀ op f r, (.m2mPoc op, f) ∈ ops → f.pocsManager = some r →
    g.Belongs op.m2mPocsPath r
  counts : ∀ p, g.getAttribute p ≠ none → ∀ status,
    nbOfM2MPocs g p status = nbOfM2MPocs g₀ p status + totalDue ops p status
  gone : ∀ p, g.getAttribute p = none → ∀ status, nbOfM2MPocs g₀ p status = 0

variable {storage : Storage} {g₀ g : Registry Path M2MPocsManager}
  {ops : List (TransientOp × Fields)}

theorem totalDue_cons (p : Path) (status : OnlineStatus) :
    totalDue (o :: ops) p status = due o p status + totalDue ops p status := by
  simp [totalDue]

theorem totalDue_append (p : Path) (status : OnlineStatus) :
    totalDue (ops ++ [o]) p status = totalDue ops p status + due o p status := by
  simp [totalDue]

theorem due_of_none {op : TransientOp} {f : Fields} (hf : f.pocsManager = none) (p : Path)
    (status : OnlineStatus) : due (op, f) p status = 0 := by
  unfold due
  split
  · next heq =>
    cases heq
    rw [if_neg fun h => h.2 hf]
  · rfl

theorem due_of_ne {op : M2MPocOp} {f : Fields} {p : Path} (h : p ≠ op.m2mPocsPath)
    (status : OnlineStatus) : due (.m2mPoc op, f) p status = 0 :=
  if_neg fun hp => h hp.1.symm

theorem due_self {op : M2MPocOp} {f : Fields} {r : Nat} (hf : f.pocsManager = some r)
    (status : OnlineStatus) :
    due (.m2mPoc op, f) op.m2mPocsPath status =
      M2MPocsManager.delta op.oldOnlineStatus op.newOnlineStatus status :=
  if_pos ⟨rfl, by simp [hf]⟩

theorem pocsPrepared_nil (g : Registry Path M2MPocsManager) : PocsPrepared g [] g where
  registered _ _ _ h := absurd h List.not_mem_nil
  counts _ _ := (add_zero _).symm
  gone _ hp _ := nbOfM2MPocs_of_getAttribute_none hp

theorem PocsPrepared.append_of_none {op : TransientOp} {f : Fields} (h : PocsPrepared g₀ ops g)
    (hf : f.pocsManager = none) : PocsPrepared g₀ (ops ++ [(op, f)]) g where
  registered op' f' r hmem hr := by
    rcases List.mem_append.mp hmem with hmem | hmem
    · exact h.registered op' f' r hmem hr
    · cases List.mem_singleton.mp hmem
      rw [hf] at hr
      cases hr
  counts p status := by
    rw [totalDue_append, due_of_none hf, add_zero]
    exact h.counts p status
  gone := h.gone

theorem PocsPrepared.owed (h : PocsPrepared g₀ ops g) : PocsOwed g₀ ops g where
  belongs op f r hmem hr := belongs_of_getAttribute (h.registered op f r hmem hr)
  counts p _ := h.counts p
  gone := h.gone

theorem PocsOwed.restored (h : PocsOwed g₀ [] g) (p : Path) (status : OnlineStatus) :
    nbOfM2MPocs g p status = nbOfM2MPocs g₀ p status := by
  by_cases hp : g.getAttribute p = none
  · rw [h.gone p hp, nbOfM2MPocs_of_getAttribute_none hp]
  · rw [h.counts p hp]
    exact add_zero _

/-- **Preparing a change of status.** -/
theorem m2mPoc_prepare_owed {op : M2MPocOp} {s : Preparation}
    (h : PocsPrepared g₀ ops s.volatile.pocsManagers) (fault : Bool) :
    PocsPrepared g₀ (ops ++ [(.m2mPoc op, (op.prepare storage fault s).2.1)])
      (op.prepare storage fault s).2.2.volatile.pocsManagers := by
  obtain ⟨hf, hv⟩ := op.prepare_spec storage fault s
  rw [hf, hv]
  have hr := getAttribute_getOrCreate (g := s.volatile.pocsManagers) op.m2mPocsPath {}
  have hnb := nbOfM2MPocs_getOrCreate s.volatile.pocsManagers op.m2mPocsPath
  have hsome : ∀ q r, s.volatile.pocsManagers.getAttribute q = some r →
      (s.volatile.pocsManagers.getOrCreate op.m2mPocsPath {}).2.getAttribute q = some r :=
    fun q r hq => getAttribute_getOrCreate_of_some hq _
  constructor
  case registered =>
    intro op' f' r' hmem hr'
    rcases List.mem_append.mp hmem with hmem | hmem
    · exact hsome _ _ (h.registered op' f' r' hmem hr')
    · cases List.mem_singleton.mp hmem
      cases hr'
      exact hr
  case counts =>
    intro p status
    rw [totalDue_append, ← add_assoc, ← h.counts p status, ← hnb]
    by_cases hp : p = op.m2mPocsPath
    · subst hp
      rw [nbOfM2MPocs_set hr, if_pos rfl, due_self rfl, nbOfM2MPocs_of_getAttribute hr,
        M2MPocsManager.count_m2mPocOnlineStatusChanged]
    · rw [nbOfM2MPocs_set hr, if_neg hp, due_of_ne hp, add_zero]
  case gone =>
    intro p hp
    refine h.gone p ?_
    cases hq : s.volatile.pocsManagers.getAttribute p with
    | none => rfl
    | some r' =>
      rw [getAttribute_set, hsome p r' hq] at hp
      cases hp

/-- **Undoing a change of status.** -/
theorem m2mPoc_rollback_owed {op : M2MPocOp} {f : Fields} {v : Volatile}
    (h : PocsOwed g₀ ((.m2mPoc op, f) :: ops) v.pocsManagers)
    (hD : ∀ r, f.pocsManager = some r →
      ((v.pocsManagers.get r).m2mPocOnlineStatusChanged op.newOnlineStatus
        op.oldOnlineStatus).1.isEmpty →
        ∀ status, nbOfM2MPocs g₀ op.m2mPocsPath status = 0) :
    PocsOwed g₀ ops (op.rollback f v).pocsManagers := by
  unfold M2MPocOp.rollback
  cases hf : f.pocsManager with
  | none =>
    refine ⟨fun op' f' r hmem => h.belongs op' f' r (List.mem_cons_of_mem _ hmem),
      fun p hp status => ?_, h.gone⟩
    rw [h.counts p hp, totalDue_cons, due_of_none hf, zero_add]
  | some r =>
    dsimp only
    have hown := h.belongs op f r List.mem_cons_self hf
    have hempty := hD r hf
    have hcount := M2MPocsManager.count_m2mPocOnlineStatusChanged (m := v.pocsManagers.get r)
      op.newOnlineStatus op.oldOnlineStatus
    generalize ((v.pocsManagers.get r).m2mPocOnlineStatusChanged op.newOnlineStatus
      op.oldOnlineStatus).1 = m at hempty hcount ⊢
    have hset : PocsOwed g₀ ops (v.pocsManagers.set r m) := by
      refine ⟨fun op' f' r' hmem hr' => h.belongs op' f' r' (List.mem_cons_of_mem _ hmem) hr',
        fun p hp status => ?_, h.gone⟩
      have hp' := h.counts p hp status
      rw [totalDue_cons] at hp'
      by_cases hpath : p = op.m2mPocsPath
      · subst hpath
        have hreg : v.pocsManagers.getAttribute op.m2mPocsPath = some r :=
          hown.2.resolve_right hp
        rw [due_self hf, nbOfM2MPocs_of_getAttribute hreg] at hp'
        rw [nbOfM2MPocs_set hreg, if_pos rfl, hcount, hp', M2MPocsManager.delta_comm]
        omega
      · rw [due_of_ne hpath, zero_add] at hp'
        rw [nbOfM2MPocs, hown.1.view_set_of_ne hpath]
        exact hp'
    split
    · next he =>
      refine ⟨fun op' f' r' hmem hr' => (hset.belongs op' f' r' hmem hr').removeAttribute _,
        fun p hp status => ?_, fun p hp status => ?_⟩
      · have hne : p ≠ op.m2mPocsPath := by
          rintro rfl
          exact hp (getAttribute_removeAttribute_self _)
        rw [getAttribute_removeAttribute_of_ne hne] at hp
        rw [nbOfM2MPocs_removeAttribute_of_ne hne]
        exact hset.counts p hp status
      · by_cases hpath : p = op.m2mPocsPath
        · rw [hpath]
          exact hempty he status
        · rw [getAttribute_removeAttribute_of_ne hpath] at hp
          exact hset.gone p hp status
    · exact hset

end M2MPocs

section Timers

/-- An armed timer of `v` has the identifier `id`. -/
def Armed (v : Volatile) (id : Nat) : Prop := ∃ t ∈ v.timers.armed, t.id = id

/-- The operations that arm a timer. -/
def TransientOp.watchesAge : TransientOp → Bool
  | cisChildCreate _ | cisChildDelete _ => true
  | _ => false

/-- The armed timers are those of `v₀` and those of the operations, and the instances of which the
age is watched are the same. -/
structure TimersOwed (v₀ : Volatile) (ops : List (TransientOp × Fields)) (v : Volatile) :
    Prop where
  kept : ∀ t ∈ v₀.timers.armed, t ∈ v.timers.armed
  new : ∀ t ∈ v.timers.armed, t ∈ v₀.timers.armed ∨
    ∃ op f, (op, f) ∈ ops ∧ op.watchesAge = true ∧ f.timerId = some t.id
  issued : ∀ op f id, (op, f) ∈ ops → f.timerId = some id → v₀.timers.next ≤ id
  next : v₀.timers.next ≤ v.timers.next
  instances : ∀ p, v.instanceAgeId.lookup p = v₀.instanceAgeId.lookup p

variable {storage : Storage} {v₀ v v' : Volatile} {ops : List (TransientOp × Fields)}
  {op : TransientOp} {f : Fields}

theorem timersOwed_nil (v : Volatile) : TimersOwed v [] v where
  kept _ ht := ht
  new _ ht := .inl ht
  issued _ _ _ h := absurd h List.not_mem_nil
  next := Nat.le_refl _
  instances _ := rfl

theorem TimersOwed.restored (h : TimersOwed v₀ [] v) (t : ResourceTimer) :
    t ∈ v.timers.armed ↔ t ∈ v₀.timers.armed := by
  refine ⟨fun ht => ?_, h.kept t⟩
  rcases h.new t ht with ht | ⟨_, _, hmem, -⟩
  · exact ht
  · exact absurd hmem List.not_mem_nil

theorem TimersOwed.congr (h : TimersOwed v₀ ops v) (ht : v'.timers = v.timers)
    (hi : v'.instanceAgeId = v.instanceAgeId) : TimersOwed v₀ ops v' where
  kept := by
    rw [ht]
    exact h.kept
  new := by
    rw [ht]
    exact h.new
  issued := h.issued
  next := by
    rw [ht]
    exact h.next
  instances := by
    rw [hi]
    exact h.instances

theorem TimersOwed.append_of_none (h : TimersOwed v₀ ops v) (hf : f.timerId = none) :
    TimersOwed v₀ (ops ++ [(op, f)]) v where
  kept := h.kept
  new t ht := by
    rcases h.new t ht with ht | ⟨op', f', hmem, hop⟩
    · exact .inl ht
    · exact .inr ⟨op', f', List.mem_append_left _ hmem, hop⟩
  issued op' f' id hmem hid := by
    rcases List.mem_append.mp hmem with hmem | hmem
    · exact h.issued op' f' id hmem hid
    · cases List.mem_singleton.mp hmem
      rw [hf] at hid
      cases hid
  next := h.next
  instances := h.instances

theorem TimersOwed.cancel (h : TimersOwed v₀ ops v) {i : Option Nat}
    (hi : ∀ id, i = some id → ¬ Armed v₀ id) : TimersOwed v₀ ops (v.cancelTimer i) where
  kept t ht := by
    refine Timers.mem_cancel.mpr ⟨h.kept t ht, ?_⟩
    rintro rfl
    exact hi t.id rfl ⟨t, ht, rfl⟩
  new t ht := h.new t (Timers.mem_cancel.mp ht).1
  issued := h.issued
  next := h.next
  instances := h.instances

theorem TimersOwed.start (h : TimersOwed v₀ ops v) (hop : op.watchesAge = true) {path : Path}
    {due : Int} (ht : v'.timers = v.timers.start path due)
    (hi : ∀ p, v'.instanceAgeId.lookup p = v.instanceAgeId.lookup p) :
    TimersOwed v₀ (ops ++ [(op, { timerId := some v.timers.next })]) v' where
  kept t ht' := by
    rw [ht]
    exact Timers.mem_start.mpr (.inr (h.kept t ht'))
  new t ht' := by
    rw [ht] at ht'
    rcases Timers.mem_start.mp ht' with rfl | ht'
    · exact .inr ⟨op, _, List.mem_append_right _ (List.mem_singleton_self _), hop, rfl⟩
    · rcases h.new t ht' with ht' | ⟨op', f', hmem, hop'⟩
      · exact .inl ht'
      · exact .inr ⟨op', f', List.mem_append_left _ hmem, hop'⟩
  issued op' f' id hmem hid := by
    rcases List.mem_append.mp hmem with hmem | hmem
    · exact h.issued op' f' id hmem hid
    · cases List.mem_singleton.mp hmem
      cases hid
      exact h.next
  next := by
    rw [ht]
    exact Nat.le_succ_of_le h.next
  instances p := (hi p).trans (h.instances p)

/-- **Preparing the creation of an instance.** -/
theorem cisChildCreate_prepare_owed {op : CisChildCreateOp} (h : TimersOwed v₀ ops v)
    (fault : Bool)
    (htimer : ∀ id, v.instanceAgeTimer.lookup op.path = some id → ¬ Armed v₀ id)
    (hid : fault = false → 0 ≤ instanceAgeDelay op.lastCiCreationDate op.maxInstanceAge op.now →
      v.instanceAgeId.lookup op.path = some op.lastCiId) :
    TimersOwed v₀ (ops ++ [(.cisChildCreate op, (op.prepare fault v).2.1)])
      (op.prepare fault v).2.2 := by
  unfold CisChildCreateOp.prepare
  have hcancel : TimersOwed v₀ ops (op.cancelOldTimer v) ∧
      (op.cancelOldTimer v).instanceAgeId = v.instanceAgeId := by
    unfold CisChildCreateOp.cancelOldTimer
    split
    · next oldTimerId hold =>
      refine ⟨h.cancel ?_, rfl⟩
      rintro _ ⟨⟩
      exact htimer oldTimerId hold
    · exact ⟨h, rfl⟩
  obtain ⟨hw, hwid⟩ := hcancel
  dsimp only
  split
  · next timerId u hstart =>
    obtain ⟨hdelay, hu⟩ := startResourceTimer_eq_some.mp hstart
    cases hu
    refine hw.start rfl rfl fun p => ?_
    by_cases hp : p = op.path
    · rw [hp, AList.lookup_insert, hwid, hid rfl hdelay]
    · rw [AList.lookup_insert_ne hp]
  · exact hw.append_of_none rfl

/-- **Preparing the deletion of an instance.** -/
theorem cisChildDelete_prepare_owed {op : CisChildDeleteOp} (h : TimersOwed v₀ ops v)
    (fault : Bool)
    (hC : v.instanceAgeId.lookup op.path = some op.childResource.id →
      (∀ id, v.instanceAgeTimerId.lookup op.path = some id → ¬ Armed v₀ id) ∧
        ∀ lastCi maxInstanceAge, op.next storage = .ok (some (lastCi, maxInstanceAge)) →
          fault = false → 0 ≤ instanceAgeDelay lastCi.creationTime maxInstanceAge op.now →
          lastCi.id = op.childResource.id) :
    TimersOwed v₀ (ops ++ [(.cisChildDelete op, (op.prepare storage fault v).2.1)])
      (op.prepare storage fault v).2.2 := by
  unfold CisChildDeleteOp.prepare
  split
  case isFalse => exact h.append_of_none rfl
  case isTrue heq =>
    obtain ⟨htimer, hnext⟩ := hC heq
    have hcancel := h.cancel htimer
    dsimp only
    split
    · exact hcancel.append_of_none rfl
    · next lastCi maxInstanceAge hlast =>
      split
      · exact hcancel.append_of_none rfl
      · next timerId u hstart =>
        obtain ⟨hdelay, hu⟩ := startResourceTimer_eq_some.mp hstart
        cases hu
        refine hcancel.start rfl rfl fun p => ?_
        by_cases hp : p = op.path
        · rw [hp, AList.lookup_insert, hnext lastCi maxInstanceAge hlast rfl hdelay]
          exact heq.symm
        · rw [AList.lookup_insert_ne hp]
    · exact hcancel.append_of_none rfl

/-- **Undoing an operation on the age of the instances.** -/
theorem timer_rollback_owed (h : TimersOwed v₀ ((op, f) :: ops) v) :
    TimersOwed v₀ ops (rollbackTimer f v) := by
  unfold rollbackTimer
  cases hf : f.timerId with
  | none =>
    refine ⟨h.kept, fun t ht => ?_, fun op' f' id hmem => h.issued op' f' id
      (List.mem_cons_of_mem _ hmem), h.next, h.instances⟩
    rcases h.new t ht with ht | ⟨op', f', hmem, hop, hid⟩
    · exact .inl ht
    · rcases List.mem_cons.mp hmem with heq | hmem
      · cases heq
        rw [hf] at hid
        cases hid
      · exact .inr ⟨op', f', hmem, hop, hid⟩
  | some timerId =>
    have hissued := h.issued op f timerId List.mem_cons_self hf
    refine ⟨fun t ht => Timers.mem_cancel.mpr ⟨h.kept t ht, ?_⟩, fun t ht => ?_,
      fun op' f' id hmem => h.issued op' f' id (List.mem_cons_of_mem _ hmem), h.next, h.instances⟩
    · rintro ⟨⟩
      have := v₀.timers.issued t ht
      omega
    · obtain ⟨ht, hne⟩ := Timers.mem_cancel.mp ht
      rcases h.new t ht with ht | ⟨op', f', hmem, hop, hid⟩
      · exact .inl ht
      · rcases List.mem_cons.mp hmem with heq | hmem
        · cases heq
          rw [hf] at hid
          exact absurd hid.symm hne
        · exact .inr ⟨op', f', hmem, hop, hid⟩

theorem TimersOwed.tail (h : TimersOwed v₀ ((op, f) :: ops) v) (hop : op.watchesAge = false) :
    TimersOwed v₀ ops v where
  kept := h.kept
  new t ht := by
    rcases h.new t ht with ht | ⟨op', f', hmem, hop', hid⟩
    · exact .inl ht
    · rcases List.mem_cons.mp hmem with heq | hmem
      · cases heq
        rw [hop] at hop'
        cases hop'
      · exact .inr ⟨op', f', hmem, hop', hid⟩
  issued op' f' id hmem := h.issued op' f' id (List.mem_cons_of_mem _ hmem)
  next := h.next
  instances := h.instances

end Timers

end Ong.Scl
