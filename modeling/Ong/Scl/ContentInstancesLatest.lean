import Ong.Scl.ContentInstancesCreation
import Ong.Scl.SclManager

/-!
# The latest and the oldest content instance

The latest is a path that each creation writes and that no deletion touches, and the oldest is the
instance with the least name.  They are the instances with the greatest and the least creation time
as long as the names come in the order of the creation times, each creation ends with the most
recent instance, and the latest is not deleted before the others.

## Main results

* `latestOldest_of_condition`: the two retrieves are right all along the runs that meet the
  condition
-/

namespace Ong.Scl

open M2M ContentInstances

/-- A retrieve gives a stored instance that no other one goes beyond, or nothing when there is
none. -/
def ResolvesTo (le : Int → Int → Prop) (instances : List (String × ContentInstance)) :
    Option Resource → Prop
  | none => instances = []
  | some resource => ∃ c ∈ instances, resource = .contentInstance c.2 ∧
      ∀ d ∈ instances, le d.2.creationTime c.2.creationTime

structure LatestOldest (path : Path) (w : World) : Prop where
  latest : ResolvesTo (· ≤ ·) (childInstances w.storage path)
    (retrieveXoResource w.storage .storageLatest (path ++ ["latest"]))
  oldest : ResolvesTo (· ≥ ·) (childInstances w.storage path)
    (retrieveXoResource w.storage .storageOldest (path ++ ["oldest"]))

/-! ## The condition -/

/-- The names come in the order of the creation times. -/
def NamesInOrder (instances : List (String × ContentInstance)) : Prop :=
  ∀ c ∈ instances, ∀ d ∈ instances, c.1 < d.1 → c.2.creationTime ≤ d.2.creationTime

/-- The last of the instances that are created is the most recent one, and the names come in order;
where none is created, none is stored. -/
def EndsWithLatest (path : Path) (storage : Storage) (cs : List ContentInstance) : Prop :=
  let instances := childInstances storage path ++ named cs
  NamesInOrder instances ∧
    match cs.getLast? with
    | none => childInstances storage path = []
    | some ci => ∀ c ∈ instances, c.2.creationTime ≤ ci.creationTime

instance (instances : List (String × ContentInstance)) : Decidable (NamesInOrder instances) :=
  inferInstanceAs (Decidable (∀ _ ∈ _, _))

instance (path : Path) (storage : Storage) :
    (cs : List ContentInstance) → Decidable (EndsWithLatest path storage cs) := fun cs =>
  have : Decidable (match cs.getLast? with
      | none => childInstances storage path = []
      | some ci => ∀ c ∈ childInstances storage path ++ named cs,
          c.2.creationTime ≤ ci.creationTime) :=
    match cs.getLast? with
    | none => inferInstanceAs (Decidable (childInstances storage path = []))
    | some _ => inferInstanceAs (Decidable (∀ _ ∈ _, _))
  inferInstanceAs (Decidable (_ ∧ _))

/-- Of the instances that are deleted, none is the latest, unless all are deleted. -/
def KeepsLatest (path : Path) (storage : Storage) (names : List String) : Prop :=
  (∀ r, storage.lookup path = some (.contentInstances r) →
    ∀ name ∈ names, r.latest ≠ some (childPath path name)) ∨
  ∀ c ∈ childInstances storage path, c.1 ∈ names

/-- **The condition** on an event that is not refused, and that the storage accepts. -/
def LatestCondition (path : Path) (w : World) (e : ContentInstancesEvent) : Prop :=
  (∀ c, e.creation? w.storage path = some c →
    c.transaction.isOk ∧ c.faults.batchModify = false → EndsWithLatest path w.storage c.instances) ∧
  match e with
  | .delete id _ faults =>
    (∃ ci, w.storage.lookup (childPath path id) = some (.contentInstance ci)) ∧
        faults.batchModify = false →
      KeepsLatest path w.storage [id]
  | .timeout _ _ faults =>
    faults.batchModify = false →
      KeepsLatest path w.storage [(w.volatile.instanceAgeId.lookup path).getD "null"]
  | .start now _ faults =>
    faults.batchModify = false →
      ∀ c, w.storage.lookup path.dropLast = some (.container c) → 0 < c.maxInstanceAge.getD (-1) →
        let limitDate := toLong (now - c.maxInstanceAge.getD (-1) * 1000)
        let expired := search w.storage path (fun ci => ci.creationTime < limitDate) 4
        KeepsLatest path w.storage (expired.map Prod.fst)
  | _ => True

/-! ## The invariant -/

/-- What the attribute `latest` of the collection may be. -/
def LatestIs (path : Path) (storage : Storage) (latest : Option Path) : Prop :=
  match latest with
  | none => childInstances storage path = []
  | some p => ∃ name, p = childPath path name ∧
      match storage.lookup p with
      | none => childInstances storage path = []
      | some resource => ∃ ci, resource = .contentInstance ci ∧
          ∀ c ∈ childInstances storage path, c.2.creationTime ≤ ci.creationTime

structure LatestInv (path : Path) (storage : Storage) : Prop where
  collection : ∃ r, storage.lookup path = some (.contentInstances r) ∧
    LatestIs path storage r.latest
  container : ∃ c, storage.lookup path.dropLast = some (.container c)
  inOrder : NamesInOrder (childInstances storage path)

section Invariant

variable {path : Path} {storage storage' : Storage} {w : World}

theorem LatestInv.path_ne (h : LatestInv path storage) : path.dropLast ≠ path := by
  intro heq
  obtain ⟨r, hr, -⟩ := h.collection
  obtain ⟨c, hc⟩ := h.container
  rw [heq, hr] at hc
  cases hc

theorem LatestInv.latestOldest (h : LatestInv path w.storage) : LatestOldest path w := by
  constructor
  · obtain ⟨r, hr, hlatest⟩ := h.collection
    obtain ⟨c, hc⟩ := h.container
    cases hpath : r.latest with
    | none =>
      rw [retrieveXoResource_latest_none hr hpath]
      rw [hpath] at hlatest
      exact hlatest
    | some p =>
      rw [hpath] at hlatest
      obtain ⟨name, rfl, hresolved⟩ := hlatest
      rw [retrieveXoResource_latest hc hr hpath]
      cases hlookup : w.storage.lookup (childPath path name) with
      | none =>
        rw [hlookup] at hresolved
        exact hresolved
      | some resource =>
        rw [hlookup] at hresolved
        obtain ⟨ci, rfl, hgreatest⟩ := hresolved
        exact ⟨(name, ci), mem_childInstances.mpr hlookup, rfl, hgreatest⟩
  · have hleast := retrieveXoResource_oldest w.storage path
    cases hfound : retrieveXoResource w.storage .storageOldest (path ++ ["oldest"]) with
    | none =>
      rw [hfound] at hleast
      exact hleast
    | some resource =>
      rw [hfound] at hleast
      obtain ⟨c, hc, rfl, hle⟩ := hleast
      refine ⟨c, hc, rfl, fun d hd => ?_⟩
      by_cases hlt : c.1 < d.1
      · exact h.inOrder c hc d hd hlt
      · have heq : c.1 = d.1 := String.le_antisymm (hle d hd) (String.not_lt.mp hlt)
        have hlookup := mem_childInstances.mp hc
        rw [heq, mem_childInstances.mp hd] at hlookup
        have hsame : d.2 = c.2 := by injection Option.some.inj hlookup
        rw [hsame]

theorem NamesInOrder.mono {instances instances' : List (String × ContentInstance)}
    (h : NamesInOrder instances') (hsub : ∀ c ∈ instances, c ∈ instances') :
    NamesInOrder instances :=
  fun c hc d hd => h c (hsub c hc) d (hsub d hd)

/-- **A creation** that ends with the most recent instance. -/
theorem LatestInv.created (h : LatestInv path storage) {cs : List ContentInstance}
    {names : List String} {r' : ContentInstances}
    (hlatest : r'.latest = cs.getLast?.map fun ci => childPath path ci.id)
    (hC : EndsWithLatest path storage cs) (hbatch : Batch cs names r' path storage storage') :
    LatestInv path storage' := by
  have hmem := mem_childInstances_batch hbatch
  have hsub : ∀ c ∈ childInstances storage' path, c ∈ childInstances storage path ++ named cs := by
    intro c hc
    rcases (hmem c).mp hc with hnew | ⟨hold, -⟩
    · exact List.mem_append_right _ hnew
    · exact List.mem_append_left _ hold
  obtain ⟨hinOrder, hlast⟩ := hC
  refine ⟨⟨r', hbatch.collection, ?_⟩, ?_, hinOrder.mono hsub⟩
  · rw [hlatest]
    cases hgetLast : cs.getLast? with
    | none =>
      rw [hgetLast] at hlast
      have hempty : cs = [] := List.getLast?_eq_none_iff.mp hgetLast
      refine List.eq_nil_iff_forall_not_mem.mpr fun c hc => ?_
      have hc := hsub c hc
      rw [hlast, hempty] at hc
      cases hc
    | some ci =>
      rw [hgetLast] at hlast
      refine ⟨ci.id, rfl, ?_⟩
      rw [hbatch.created ci (List.mem_of_getLast? hgetLast)]
      exact ⟨ci, rfl, fun c hc => hlast c (hsub c hc)⟩
  · obtain ⟨c, hc⟩ := h.container
    refine ⟨c, ?_⟩
    rw [hbatch.other _ h.path_ne fun name => (childPath_ne path name).2.symm, hc]

/-- **A deletion** that keeps the latest. -/
theorem LatestInv.removed (h : LatestInv path storage) {names : List String}
    {r r' : ContentInstances} (hr : storage.lookup path = some (.contentInstances r))
    (hlatest : r'.latest = r.latest) (hC : KeepsLatest path storage names)
    (hbatch : Batch [] names r' path storage storage') : LatestInv path storage' := by
  have hmem := mem_childInstances_batch hbatch
  have hsub : ∀ c ∈ childInstances storage' path,
      c ∈ childInstances storage path ∧ c.1 ∉ names := by
    intro c hc
    rcases (hmem c).mp hc with hnew | hold
    · cases hnew
    · exact hold
  have hempty : childInstances storage path = [] → childInstances storage' path = [] := by
    intro hnil
    refine List.eq_nil_iff_forall_not_mem.mpr fun c hc => ?_
    have hc := (hsub c hc).1
    rw [hnil] at hc
    cases hc
  refine ⟨⟨r', hbatch.collection, ?_⟩, ?_, h.inOrder.mono fun c hc => (hsub c hc).1⟩
  · obtain ⟨r₀, hr₀, hlatestIs⟩ := h.collection
    rw [hr] at hr₀
    cases hr₀
    rw [hlatest]
    cases hpath : r.latest with
    | none =>
      rw [hpath] at hlatestIs
      exact hempty hlatestIs
    | some p =>
      rw [hpath] at hlatestIs
      obtain ⟨name, rfl, hresolved⟩ := hlatestIs
      refine ⟨name, rfl, ?_⟩
      by_cases hname : name ∈ names
      · rw [hbatch.deleted name hname]
        rcases hC with hkeeps | hall
        · exact absurd hpath (hkeeps r hr name hname)
        · refine List.eq_nil_iff_forall_not_mem.mpr fun c hc => ?_
          exact (hsub c hc).2 (hall c (hsub c hc).1)
      · rw [hbatch.kept name hname nofun]
        cases hlookup : storage.lookup (childPath path name) with
        | none =>
          rw [hlookup] at hresolved
          exact hempty hresolved
        | some resource =>
          rw [hlookup] at hresolved
          obtain ⟨ci, rfl, hgreatest⟩ := hresolved
          exact ⟨ci, rfl, fun c hc => hgreatest c (hsub c hc).1⟩
  · obtain ⟨c, hc⟩ := h.container
    refine ⟨c, ?_⟩
    rw [hbatch.other _ h.path_ne fun name => (childPath_ne path name).2.symm, hc]

end Invariant

section Events

variable {config : SclConfig} {it : IterationOrder} {path : Path} {w w' : World}
  {faults : Faults}

theorem LatestInv.run (h : LatestInv path w.storage) {t : SclTransaction}
    (hops : AgeOps t.transientOps)
    (hbatch : ∀ storage', faults.batchModify = false →
      batchModify w.storage t.modifications = some storage' → LatestInv path storage') :
    LatestInv path (SclTransaction.run config it faults t w).storage := by
  by_cases hrefused : faults.batchModify = true
  · rw [run_storage_of_refused config it t hrefused]
    exact h
  · rcases run_storage config it hops faults w with hsame | hmodified
    · rw [hsame]
      exact h
    · exact hbatch _ (Bool.eq_false_iff.mpr hrefused) hmodified

section

variable (h : LatestInv path w.storage) {now : Int} {e : ContentInstancesEvent}

include h

theorem LatestInv.createTransaction {cs : List ContentInstance} {last : Option (Int × String)}
    {nb size : Int} {t : SclTransaction}
    (ht : createTransaction w.storage path cs last nb size now = .ok t)
    (hC : faults.batchModify = false → EndsWithLatest path w.storage cs) :
    LatestInv path (SclTransaction.run config it faults t w).storage := by
  obtain ⟨r, hr, -⟩ := h.collection
  obtain ⟨c, hc⟩ := h.container
  obtain ⟨-, trimming, r', htrim, -, -, hlatest, hmodifications, hops⟩ :=
    createTransaction_eq_ok hc hr ht
  refine h.run (hops ▸ ageOps_ageOps) fun storage' haccepted hbatch => ?_
  rw [hmodifications] at hbatch
  exact h.created hlatest (hC haccepted) (batch_of_batchModify hr (trim_stored rfl htrim) hbatch)

theorem LatestInv.createContentInstances {c : Creation} (hc : e.creation? w.storage path = some c)
    (hC : LatestCondition path w e)
    (hw' : createContentInstances config it c.transaction c.faults w = some w') :
    LatestInv path w'.storage := by
  unfold Scl.createContentInstances at hw'
  split at hw'
  · next t ht =>
    cases hw'
    obtain ⟨last, nb, size, -, hcreate⟩ := creation_transaction hc ht
    exact h.createTransaction hcreate fun haccepted => hC.1 c hc ⟨by rw [ht]; rfl, haccepted⟩
  · cases hw'
  · cases hw'
    exact h

theorem LatestInv.deleteContentInstance {id : String}
    (hC : LatestCondition path w (.delete id now faults)) :
    LatestInv path (deleteContentInstance config it path id now faults w).storage := by
  unfold Scl.deleteContentInstance
  split
  · next ci r hci hr =>
    refine h.run (t := deleteTransaction path r id ci now) ageOps_cisChildDelete
      fun storage' haccepted hbatch => ?_
    have hlatest : (removeInstance r ci).latest = r.latest := rfl
    exact h.removed hr hlatest (hC.2 ⟨⟨ci, hci⟩, haccepted⟩) (batch_delete hr hci hbatch)
  · exact h

theorem LatestInv.timeoutContentInstances {timer : Nat}
    (hC : LatestCondition path w (.timeout timer now faults))
    (hw' : timeoutContentInstances config it path timer now faults w = some w') :
    LatestInv path w'.storage := by
  unfold Scl.timeoutContentInstances at hw'
  split at hw'
  · dsimp only at hw'
    have hkeeps : faults.batchModify = false →
        KeepsLatest path w.storage [(w.volatile.instanceAgeId.lookup path).getD "null"] := hC.2
    generalize (w.volatile.instanceAgeId.lookup path).getD "null" = id at hw' hkeeps
    split at hw'
    · next ci r hci hr =>
      cases hw'
      refine LatestInv.run (w := { w with volatile := w.volatile.cancelTimer (some timer) }) h
        (t := timeoutTransaction path r id ci now) ageOps_cisChildDelete
        fun storage' haccepted hbatch => ?_
      have hlatest : (removeInstance r ci).latest = r.latest := rfl
      exact h.removed hr hlatest (hkeeps haccepted) (batch_timeout hr hci hbatch)
    · cases hw'
      exact h
  · cases hw'

theorem LatestInv.startContentInstances {fault : Bool}
    (hC : LatestCondition path w (.start now fault faults))
    (hw' : startContentInstances config it path now fault faults w = some w') :
    LatestInv path w'.storage := by
  obtain ⟨r, hr, -⟩ := h.collection
  obtain ⟨c, hc⟩ := h.container
  obtain ⟨⟨t, v⟩, hreload, hrun⟩ := Option.map_eq_some_iff.mp hw'
  obtain ⟨hops, hmodifications⟩ := reload_eq_some hc hr hreload
  dsimp only at hrun
  subst hrun
  refine LatestInv.run (w := ⟨w.storage, v⟩) h (hops ▸ nofun) fun storage' haccepted hbatch => ?_
  dsimp only at hbatch
  rcases hmodifications with hnil | ⟨hpos, hmodifications⟩
  · rw [hnil, batchModify_nil] at hbatch
    rw [← Option.some.inj hbatch]
    exact h
  · have hkeeps := hC.2 haccepted c hc hpos
    dsimp only at hmodifications hkeeps
    have hfound : ∀ e ∈ search w.storage path (fun ci => ci.creationTime <
        toLong (now - c.maxInstanceAge.getD (-1) * 1000)) 4,
        e ∈ childInstances w.storage path :=
      fun e he => mem_childInstances.mpr (mem_search he).1
    generalize search w.storage path (fun ci => ci.creationTime <
      toLong (now - c.maxInstanceAge.getD (-1) * 1000)) 4 = expired at hmodifications hkeeps hfound
    rw [hmodifications] at hbatch
    have hlatest : ∀ nb size, ({ r with currentNrOfInstances := nb, currentByteSize := size } :
        Ong.Scl.ContentInstances).latest = r.latest := fun _ _ => rfl
    exact h.removed hr (hlatest _ _) hkeeps (batch_found hr hfound hbatch)

theorem contentInstancesStep_latestInv (hC : LatestCondition path w e)
    (hw' : contentInstancesStep config it path w e = some w') : LatestInv path w'.storage := by
  cases hc : e.creation? w.storage path with
  | some c =>
    rw [step_creation hc] at hw'
    exact h.createContentInstances hc hC hw'
  | none =>
    cases e with
    | delete id now faults =>
      cases hw'
      exact h.deleteContentInstance hC
    | timeout timer now faults => exact h.timeoutContentInstances hC hw'
    | start now fault faults => exact h.startContentInstances hC hw'
    | _ => cases hc

end

theorem latestInv_of_new {storage : Storage} (h : NewContentInstances path storage) :
    LatestInv path storage := by
  refine ⟨⟨_, h.collection, h.empty⟩, h.container, fun c hc => ?_⟩
  rw [h.empty] at hc
  cases hc

/-- **The latest and the oldest** are the stored instances with the greatest and the least creation
time, all along the runs whose events meet the condition. -/
theorem latestOldest_of_condition (config : SclConfig) (it : IterationOrder) {storage : Storage}
    (hnew : NewContentInstances path storage) (events : List ContentInstancesEvent)
    (hC : Run.Along (contentInstancesStep config it path) (LatestCondition path)
      ⟨storage, .initial⟩ events) :
    Run.Visits (contentInstancesStep config it path) (LatestOldest path) ⟨storage, .initial⟩
      events :=
  Run.visits_mono (fun _ h => h.latestOldest)
    (Run.visits_of_along (fun _ _ _ (h : LatestInv path _) hC hs =>
      contentInstancesStep_latestInv h hC hs) (latestInv_of_new hnew) hC)

/-- Two instances, of which the oldest is deleted. -/
theorem latestOldest_create_delete :
    Run.Visits (contentInstancesStep ⟨1, 1⟩ noOrder ["container", "contentInstances"])
      (LatestOldest ["container", "contentInstances"]) ⟨newContentInstances, .initial⟩
      [.createFromBytes "a" 5 0 {}, .createFromExternal ⟨some "b", 1000, 7, 7⟩ 2000 {},
        .delete "a" 3000 {}] := by
  refine latestOldest_of_condition ⟨1, 1⟩ noOrder newContentInstances_new _ fun w₁ hw₁ =>
    ⟨⟨fun c hc _ => ?_, trivial⟩, fun w₂ hw₂ => ⟨⟨fun c hc _ => ?_, trivial⟩, fun w₃ hw₃ =>
      ⟨⟨nofun, fun _ => .inl fun r hr name hname => ?_⟩, trivial⟩⟩⟩
  · cases hc
    decide
  · cases hw₁
    cases hc
    decide
  · cases hw₁
    cases hw₂
    cases hr
    rw [List.mem_singleton.mp hname]
    decide

/-- Two instances, of which the latest is deleted: then there is no latest. -/
theorem latestOldest_broken :
    ¬ Run.Visits (contentInstancesStep ⟨1, 1⟩ noOrder ["container", "contentInstances"])
      (LatestOldest ["container", "contentInstances"]) ⟨newContentInstances, .initial⟩
      [.createFromBytes "a" 5 0 {}, .createFromBytes "b" 5 1000 {}, .delete "b" 2000 {}] := by
  intro h
  have hempty : childInstances _ _ = [] := (Run.visits_exec h rfl).latest
  revert hempty
  decide

end Events

end Ong.Scl
