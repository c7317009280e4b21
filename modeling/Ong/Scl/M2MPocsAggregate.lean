import Ong.Lib.Run
import Ong.Scl.M2MPocs

/-!
# The online status of an scl

The counters of the m2mPocs follow the storage through every transaction, committed or rolled back.
The scl is only written when the aggregate status changes, and an m2mPoc that is expired when the
SCL starts is taken from the counters without having been added to them.

## Main results

* `aggregated_of_condition`: the property holds all along the runs that meet the condition
-/

namespace Ong.Scl

open M2M M2MPocsManager FiniteMap SclTransaction List Option AList Registry

/-- What a resource counts for among the m2mPocs of a collection with a status. -/
def pocWeight (pocsPath : Path) (status : OnlineStatus) (p : Path) : Resource → ℤ
  | .m2mPoc resource => if p.dropLast = pocsPath ∧ resource.onlineStatus = status then 1 else 0
  | _ => 0

/-- The number of m2mPocs stored in a collection with a status. -/
def nbStored (storage : Storage) (pocsPath : Path) (status : OnlineStatus) : ℤ :=
  FiniteMap.total (pocWeight pocsPath status) storage

/-- The counters that a manager should have. -/
def storedCounters (storage : Storage) (pocsPath : Path) : M2MPocsManager where
  nbOnline := nbStored storage pocsPath .online
  nbOffline := nbStored storage pocsPath .offline
  nbNotReachable := nbStored storage pocsPath .notReachable

/-- The counters are the numbers of stored m2mPocs, and the scl is written with their aggregate. -/
structure PocsKept (sclPath : Path) (w : World) : Prop where
  counters : ∀ status, nbOfM2MPocs w.volatile.pocsManagers (m2mPocsPath sclPath) status =
    nbStored w.storage (m2mPocsPath sclPath) status
  scl : w.storage.lookup sclPath =
    some (.scl (storedCounters w.storage (m2mPocsPath sclPath)).aggregate)

section Stored

variable {storage : Storage} {pocsPath p : Path} {status : OnlineStatus} {resource : Resource}

@[simp] theorem count_storedCounters (storage : Storage) (pocsPath : Path)
    (status : OnlineStatus) :
    (storedCounters storage pocsPath).count status = nbStored storage pocsPath status := by
  cases status <;> rfl

theorem pocWeight_nonneg (pocsPath : Path) (status : OnlineStatus) (p : Path)
    (resource : Resource) : 0 ≤ pocWeight pocsPath status p resource := by
  unfold pocWeight
  split
  · split <;> decide
  · exact le_rfl

theorem nbStored_nonneg (storage : Storage) (pocsPath : Path) (status : OnlineStatus) :
    0 ≤ nbStored storage pocsPath status :=
  total_nonneg fun p resource _ => pocWeight_nonneg pocsPath status p resource

theorem count_storedCounters_nonneg (storage : Storage) (pocsPath : Path)
    (status : OnlineStatus) : 0 ≤ (storedCounters storage pocsPath).count status := by
  rw [count_storedCounters]
  exact nbStored_nonneg storage pocsPath status

theorem not_isEmpty_of_lookup {m2mPoc : M2MPoc} (h : storage.lookup p = some (.m2mPoc m2mPoc))
    (hp : p.dropLast = pocsPath) : (storedCounters storage pocsPath).isEmpty = false := by
  have hle : pocWeight pocsPath m2mPoc.onlineStatus p (.m2mPoc m2mPoc) ≤
      nbStored storage pocsPath m2mPoc.onlineStatus :=
    FiniteMap.le_total (fun p resource _ => pocWeight_nonneg pocsPath _ p resource) h
  rw [pocWeight, if_pos ⟨hp, rfl⟩] at hle
  refine Bool.eq_false_iff.mpr fun hempty => ?_
  have := count_of_isEmpty (count_storedCounters_nonneg storage pocsPath) hempty
    m2mPoc.onlineStatus
  rw [count_storedCounters] at this
  omega

theorem nbStored_insert_of_weight
    (hold : ∀ r, storage.lookup p = some r → ∀ status, pocWeight pocsPath status p r = 0)
    (hnew : ∀ status, pocWeight pocsPath status p resource = 0) :
    nbStored (storage.insert p resource) pocsPath status = nbStored storage pocsPath status := by
  have hweight : weight (pocWeight pocsPath status) storage p = 0 := by
    cases h : storage.lookup p with
    | none => exact weight_of_lookup_none h
    | some r => rw [weight_of_lookup h, hold r h]
  rw [nbStored, total_insert, hweight, hnew, sub_zero, add_zero]
  rfl

end Stored

variable {it : IterationOrder} {config : SclConfig}

section Operation

variable {storage : Storage}

/-- The update of the scl that goes with a change of the counters. -/
def sclUpdate (sclPath : Path) : Option Scl → List Modification
  | none => []
  | some scl => [.update sclPath (.scl scl)]

theorem updateFromM2MPocs_eq_some {sclPath : Path} {fault : Bool} {scl : Scl} {m : Modification}
    (h : updateFromM2MPocs storage sclPath fault scl = some m) :
    m = .update sclPath (.scl scl) := by
  unfold updateFromM2MPocs at h
  split at h
  · cases h
    rfl
  · cases h

theorem M2MPocOp.prepare_modifications (storage : Storage) (op : M2MPocOp) (fault : Bool)
    (s : Preparation) (h : (op.prepare storage fault s).1 = true) :
    (op.prepare storage fault s).2.2.modifications = s.modifications ++
      sclUpdate op.sclPath (((s.volatile.pocsManagers.view op.m2mPocsPath).getD
        {}).m2mPocOnlineStatusChanged op.oldOnlineStatus op.newOnlineStatus).2 := by
  rw [← get_getOrCreate (g := s.volatile.pocsManagers)]
  unfold M2MPocOp.prepare at h ⊢
  dsimp only at h ⊢
  split
  · next hscl => rw [hscl, sclUpdate, append_nil]
  · next scl hscl =>
    rw [hscl] at h
    dsimp only at h
    split
    · next hupdate =>
      rw [hupdate] at h
      cases h
    · next update hupdate => rw [updateFromM2MPocs_eq_some hupdate, hscl, sclUpdate]

/-- What is left of a manager when it may be removed. -/
def unlessEmpty (m : M2MPocsManager) : Option M2MPocsManager := if m.isEmpty then none else some m

theorem view_unlessEmpty {g : Registry Path M2MPocsManager} {p : Path} {r : Nat}
    (h : g.getAttribute p = some r) :
    (if (g.get r).isEmpty then g.removeAttribute p else g).view p = unlessEmpty (g.get r) := by
  unfold unlessEmpty
  split
  · exact view_removeAttribute_self p
  · exact view_of_getAttribute h

section

variable {op : M2MPocOp} {f : Fields} {v : Volatile} {r : Nat} (hf : f.pocsManager = some r)
  (hr : v.pocsManagers.getAttribute op.m2mPocsPath = some r)

include hf hr

theorem M2MPocOp.view_postCommit :
    (op.postCommit f v).pocsManagers.view op.m2mPocsPath =
      unlessEmpty (v.pocsManagers.get r) := by
  rw [← view_unlessEmpty hr]
  unfold M2MPocOp.postCommit
  rw [hf]
  dsimp only
  split <;> rfl

theorem M2MPocOp.view_rollback :
    (op.rollback f v).pocsManagers.view op.m2mPocsPath =
      unlessEmpty ((v.pocsManagers.get r).m2mPocOnlineStatusChanged op.newOnlineStatus
        op.oldOnlineStatus).1 := by
  unfold M2MPocOp.rollback
  rw [hf]
  dsimp only
  generalize ((v.pocsManagers.get r).m2mPocOnlineStatusChanged op.newOnlineStatus
    op.oldOnlineStatus).1 = m
  have hview := view_unlessEmpty (g := v.pocsManagers.set r m) hr
  rwa [get_set_self] at hview

end

/-- **A transaction with one change of status**, committed or rolled back. -/
theorem run_m2mPoc (config : SclConfig) (it : IterationOrder) (ms : List Modification)
    (op : M2MPocOp) (faults : Faults) (w : World) {m : M2MPocsManager}
    (hm : (w.volatile.pocsManagers.view op.m2mPocsPath).getD {} = m) {w' : World}
    (hw' : run config it faults ⟨ms, [.m2mPoc op]⟩ w = w') :
    (faults.batchModify = false ∧
        batchModify w.storage (ms ++ sclUpdate op.sclPath
          (m.m2mPocOnlineStatusChanged op.oldOnlineStatus op.newOnlineStatus).2) =
            some w'.storage ∧
        w'.volatile.pocsManagers.view op.m2mPocsPath =
          unlessEmpty (m.m2mPocOnlineStatusChanged op.oldOnlineStatus op.newOnlineStatus).1) ∨
      w'.storage = w.storage ∧
        w'.volatile.pocsManagers.view op.m2mPocsPath =
          unlessEmpty ((m.m2mPocOnlineStatusChanged op.oldOnlineStatus
            op.newOnlineStatus).1.m2mPocOnlineStatusChanged op.newOnlineStatus
              op.oldOnlineStatus).1 := by
  obtain ⟨hf, hv⟩ := op.prepare_spec w.storage (faults.prepare.headD false)
    ⟨faults.prepare.tail, ms, w.volatile⟩
  have hmodifications := op.prepare_modifications w.storage (faults.prepare.headD false)
    ⟨faults.prepare.tail, ms, w.volatile⟩
  have hr := getAttribute_getOrCreate (g := w.volatile.pocsManagers) op.m2mPocsPath {}
  have hget := get_getOrCreate (g := w.volatile.pocsManagers) op.m2mPocsPath {}
  rw [hm] at hget hmodifications
  rw [hget] at hv
  generalize w.volatile.pocsManagers.getOrCreate op.m2mPocsPath {} = found at hf hv hr
  obtain ⟨r, g⟩ := found
  generalize hchanged : m.m2mPocOnlineStatusChanged op.oldOnlineStatus op.newOnlineStatus = changed
    at hv hmodifications ⊢
  have hregistered : ({ w.volatile with pocsManagers := g.set r changed.1 } :
      Volatile).pocsManagers.getAttribute op.m2mPocsPath = some r := hr
  subst hw'
  unfold run
  rcases @execute_single config it faults w.storage w.volatile ms (.m2mPoc op) _ rfl with
    ⟨storage', hok, hmodify, heq⟩ | ⟨-, heq⟩
  · have hfault := batchModify_of_executed (congrArg Execution.executed heq)
    refine .inl ⟨hfault, ?_, ?_⟩
    · rw [← hmodifications hok, heq]
      exact hmodify
    · rw [heq]
      change (op.postCommit (op.prepare w.storage _ _).2.1
        (op.prepare w.storage _ _).2.2.volatile).pocsManagers.view _ = _
      rw [hf, hv, M2MPocOp.view_postCommit rfl hregistered, get_set_self]
  · refine .inr ⟨by rw [heq], ?_⟩
    rw [heq]
    change (op.rollback (op.prepare w.storage _ _).2.1
      (op.prepare w.storage _ _).2.2.volatile).pocsManagers.view _ = _
    rw [hf, hv, M2MPocOp.view_rollback rfl hregistered, get_set_self]

end Operation

/-! ## The invariant -/

/-- The invariant of the runs: beside the property, what the manager gave last to the scl is what
its counters stand for, and the m2mPocs are stored in the collection of the scl. -/
structure PocsInv (sclPath : Path) (w : World) : Prop extends PocsKept sclPath w where
  given : ∀ m, w.volatile.pocsManagers.view (m2mPocsPath sclPath) = some m →
    m.sclOnlineStatus = m.aggregate.onlineStatus
  collection : w.storage.lookup (m2mPocsPath sclPath) = some .collection
  located : ∀ p resource, w.storage.lookup p = some (.m2mPoc resource) →
    p.dropLast = m2mPocsPath sclPath

variable {sclPath : Path}

section Events

variable {w : World} {id : String}

theorem dropLast_m2mPocPath (sclPath : Path) (id : String) :
    (m2mPocPath sclPath id).dropLast = m2mPocsPath sclPath :=
  dropLast_concat

theorem m2mPocPath_ne (sclPath : Path) (id : String) :
    m2mPocPath sclPath id ≠ sclPath ∧ m2mPocPath sclPath id ≠ m2mPocsPath sclPath ∧
      sclPath ≠ m2mPocsPath sclPath := by
  refine ⟨fun h => ?_, fun h => ?_, fun h => ?_⟩
  all_goals
    have := congrArg length h
    simp [m2mPocPath, m2mPocsPath] at this

theorem PocsInv.found (h : PocsInv sclPath w) :
    let m := (w.volatile.pocsManagers.view (m2mPocsPath sclPath)).getD {}
    (∀ status, m.count status = nbStored w.storage (m2mPocsPath sclPath) status) ∧
      m.sclOnlineStatus = (storedCounters w.storage (m2mPocsPath sclPath)).aggregate.onlineStatus := by
  have hcount : ∀ status,
      ((w.volatile.pocsManagers.view (m2mPocsPath sclPath)).getD {}).count status =
        nbStored w.storage (m2mPocsPath sclPath) status := by
    intro status
    rw [← h.counters, nbOfM2MPocs]
    cases w.volatile.pocsManagers.view (m2mPocsPath sclPath) with
    | none => cases status <;> rfl
    | some m => rfl
  refine ⟨hcount, ?_⟩
  rw [← aggregate_congr fun status => (hcount status).trans (count_storedCounters _ _ status).symm]
  cases hview : w.volatile.pocsManagers.view (m2mPocsPath sclPath) with
  | none => rfl
  | some m => exact h.given m hview

/-- How the storage changes with one change of status. -/
structure Changed (sclPath : Path) (oldOnlineStatus newOnlineStatus : Option OnlineStatus)
    (storage storage' : Storage) : Prop where
  counted : ∀ status, nbStored storage' (m2mPocsPath sclPath) status =
    nbStored storage (m2mPocsPath sclPath) status + delta oldOnlineStatus newOnlineStatus status
  scl : storage'.lookup sclPath = storage.lookup sclPath
  collection : storage'.lookup (m2mPocsPath sclPath) = some .collection
  located : ∀ p resource, storage'.lookup p = some (.m2mPoc resource) →
    p.dropLast = m2mPocsPath sclPath

theorem elim_unlessEmpty {m : M2MPocsManager} (hpos : ∀ status, 0 ≤ m.count status)
    (status : OnlineStatus) : (unlessEmpty m).elim 0 (fun m => m.count status) = m.count status := by
  unfold unlessEmpty
  split
  · next hempty => rw [count_of_isEmpty hpos hempty, elim_none]
  · rfl

theorem of_unlessEmpty {m m' : M2MPocsManager} (h : unlessEmpty m = some m') : m' = m := by
  unfold unlessEmpty at h
  split at h
  · cases h
  · exact (Option.some.inj h).symm

theorem PocsInv.of_view {m : M2MPocsManager}
    (hview : w.volatile.pocsManagers.view (m2mPocsPath sclPath) = unlessEmpty m)
    (hcount : ∀ status, m.count status = nbStored w.storage (m2mPocsPath sclPath) status)
    (hgiven : m.sclOnlineStatus = m.aggregate.onlineStatus)
    (hscl : w.storage.lookup sclPath = some (.scl m.aggregate))
    (hcollection : w.storage.lookup (m2mPocsPath sclPath) = some .collection)
    (hlocated : ∀ p resource, w.storage.lookup p = some (.m2mPoc resource) →
      p.dropLast = m2mPocsPath sclPath) : PocsInv sclPath w := by
  constructor
  case toPocsKept =>
    constructor
    case counters =>
      intro status
      rw [nbOfM2MPocs, hview, ← hcount]
      refine elim_unlessEmpty (fun status => ?_) status
      rw [hcount]
      exact nbStored_nonneg _ _ status
    case scl =>
      rw [hscl, aggregate_congr fun status =>
        (hcount status).trans (count_storedCounters _ _ status).symm]
  case given =>
    intro m' hm'
    rw [of_unlessEmpty (hview.symm.trans hm')]
    exact hgiven
  case collection => exact hcollection
  case located => exact hlocated

theorem sclUpdate_spec {storage storage' : Storage} {scl : Option Scl} {old : Scl}
    (hold : storage.lookup sclPath = some (.scl old))
    (h : batchModify storage (sclUpdate sclPath scl) = some storage') :
    storage'.lookup sclPath = some (.scl (scl.getD old)) ∧
      (∀ p ≠ sclPath, storage'.lookup p = storage.lookup p) ∧
      ∀ pocsPath status, nbStored storage' pocsPath status = nbStored storage pocsPath status := by
  cases scl with
  | none =>
    cases h
    exact ⟨hold, fun _ _ => rfl, fun _ _ => rfl⟩
  | some scl =>
    rw [sclUpdate, batchModify_cons, bind_eq_some_iff] at h
    obtain ⟨storage'', happly, h⟩ := h
    cases h
    rw [← (apply_update_eq_some.mp happly).2]
    refine ⟨lookup_insert _, fun p hp => lookup_insert_ne hp, fun pocsPath status => ?_⟩
    refine nbStored_insert_of_weight (fun r hr _ => ?_) fun _ => rfl
    rw [hold] at hr
    cases hr
    rfl

/-- **One change of status keeps the invariant**, unless it commits, leaves the aggregate status as
it is, and changes the aggregate. -/
theorem PocsInv.changed (h : PocsInv sclPath w) {oldOnlineStatus newOnlineStatus : Option OnlineStatus}
    {ms : List Modification} {faults : Faults}
    (hms : ∀ storage', batchModify w.storage ms = some storage' →
      Changed sclPath oldOnlineStatus newOnlineStatus w.storage storage')
    (hcondition : ∀ storage', faults.batchModify = false →
      Changed sclPath oldOnlineStatus newOnlineStatus w.storage storage' →
      (storedCounters storage' (m2mPocsPath sclPath)).aggregate.onlineStatus =
        (storedCounters w.storage (m2mPocsPath sclPath)).aggregate.onlineStatus →
      (storedCounters storage' (m2mPocsPath sclPath)).aggregate =
        (storedCounters w.storage (m2mPocsPath sclPath)).aggregate) :
    PocsInv sclPath (run config it faults
      ⟨ms, [.m2mPoc ⟨m2mPocsPath sclPath, oldOnlineStatus, newOnlineStatus⟩]⟩ w) := by
  obtain ⟨hcount, hgiven⟩ := h.found
  generalize hm : (w.volatile.pocsManagers.view (m2mPocsPath sclPath)).getD {} = m at hcount hgiven
  generalize hw' : run config it faults
    ⟨ms, [.m2mPoc ⟨m2mPocsPath sclPath, oldOnlineStatus, newOnlineStatus⟩]⟩ w = w'
  have hsclPath : (⟨m2mPocsPath sclPath, oldOnlineStatus, newOnlineStatus⟩ : M2MPocOp).sclPath =
      sclPath := dropLast_concat
  rcases run_m2mPoc config it ms ⟨m2mPocsPath sclPath, oldOnlineStatus, newOnlineStatus⟩ faults w hm
    hw' with ⟨hfault, hmodify, hview⟩ | ⟨hstorage, hview⟩
  · rw [hsclPath, batchModify_append, bind_eq_some_iff] at hmodify
    obtain ⟨storage', hmodify, hupdate⟩ := hmodify
    have hchanged := hms storage' hmodify
    have hnew := count_m2mPocOnlineStatusChanged (m := m) oldOnlineStatus newOnlineStatus
    have hlast := sclOnlineStatus_m2mPocOnlineStatusChanged (m := m) oldOnlineStatus newOnlineStatus
    have hwritten := m2mPocOnlineStatusChanged_scl (m := m) oldOnlineStatus newOnlineStatus
    generalize m.m2mPocOnlineStatusChanged oldOnlineStatus newOnlineStatus = changed
      at hview hupdate hnew hlast hwritten
    obtain ⟨hscl, hother, hsame⟩ := sclUpdate_spec (hchanged.scl.trans h.scl) hupdate
    have hne := (m2mPocPath_ne sclPath "").2.2
    have hcounts : ∀ status, changed.1.count status =
        nbStored storage' (m2mPocsPath sclPath) status := by
      intro status
      rw [hchanged.counted, hnew, hcount]
    have hagg : changed.1.aggregate =
        (storedCounters storage' (m2mPocsPath sclPath)).aggregate :=
      aggregate_congr fun status => (hcounts status).trans (count_storedCounters _ _ status).symm
    refine .of_view hview (fun status => (hcounts status).trans (hsame _ status).symm) hlast ?_
      ((hother _ hne.symm).trans hchanged.collection) fun p resource hp => ?_
    · rw [hscl]
      rcases hwritten with ⟨hnone, hstatus⟩ | hsome
      · rw [hnone, getD_none, hagg, hcondition storage' hfault hchanged]
        rw [← hagg, hstatus, hgiven]
      · rw [hsome, getD_some]
    · by_cases hpscl : p = sclPath
      · rw [hpscl, hscl] at hp
        cases hp
      · exact hchanged.located p resource ((hother p hpscl).symm.trans hp)
  · have hcounts : ∀ status, ((m.m2mPocOnlineStatusChanged oldOnlineStatus
        newOnlineStatus).1.m2mPocOnlineStatusChanged newOnlineStatus oldOnlineStatus).1.count status =
          nbStored w.storage (m2mPocsPath sclPath) status := fun status =>
      (m2mPocOnlineStatusChanged_undo oldOnlineStatus newOnlineStatus status).trans (hcount status)
    have hagg := aggregate_congr fun status =>
      (hcounts status).trans (count_storedCounters _ _ status).symm
    refine .of_view hview (hstorage.symm ▸ hcounts)
      (sclOnlineStatus_m2mPocOnlineStatusChanged newOnlineStatus oldOnlineStatus) ?_
      (hstorage.symm ▸ h.collection) (hstorage.symm ▸ h.located)
    rw [hstorage, hagg]
    exact h.scl

/-! ## The modifications of the operations -/

theorem weight_pocWeight {storage : Storage} {resource : M2MPoc}
    (h : storage.lookup (m2mPocPath sclPath id) = some (.m2mPoc resource)) (status : OnlineStatus) :
    weight (pocWeight (m2mPocsPath sclPath) status) storage (m2mPocPath sclPath id) =
      if resource.onlineStatus = status then 1 else 0 := by
  rw [weight_of_lookup h, pocWeight, dropLast_m2mPocPath]
  simp

theorem Changed.of_insert (h : PocsInv sclPath w) (id : String) (resource : M2MPoc)
    {oldOnlineStatus : Option OnlineStatus}
    (hold : ∀ status, weight (pocWeight (m2mPocsPath sclPath) status) w.storage
      (m2mPocPath sclPath id) = if oldOnlineStatus = some status then 1 else 0) :
    Changed sclPath oldOnlineStatus (some resource.onlineStatus) w.storage
      (w.storage.insert (m2mPocPath sclPath id) (.m2mPoc resource)) := by
  obtain ⟨hscl, hcollection, -⟩ := m2mPocPath_ne sclPath id
  constructor
  case counted =>
    intro status
    rw [nbStored, total_insert, hold, pocWeight, dropLast_m2mPocPath, delta]
    simp only [true_and, Option.some.injEq]
    unfold nbStored
    omega
  case scl => exact lookup_insert_ne hscl.symm
  case collection => rw [lookup_insert_ne hcollection.symm, h.collection]
  case located =>
    intro p r hp
    by_cases hpath : p = m2mPocPath sclPath id
    · rw [hpath, dropLast_m2mPocPath]
    · rw [lookup_insert_ne hpath] at hp
      exact h.located p r hp

theorem Changed.refl (h : PocsInv sclPath w) (onlineStatus : Option OnlineStatus) :
    Changed sclPath onlineStatus onlineStatus w.storage w.storage := by
  refine ⟨fun status => ?_, rfl, h.collection, h.located⟩
  rw [delta, sub_self, add_zero]

theorem Changed.erase {storage storage' : Storage} {resource : M2MPoc}
    (h : Changed sclPath none none storage storage')
    (hold : storage'.lookup (m2mPocPath sclPath id) = some (.m2mPoc resource)) :
    Changed sclPath (some resource.onlineStatus) none storage
      (storage'.erase (m2mPocPath sclPath id)) := by
  obtain ⟨hscl, hcollection, -⟩ := m2mPocPath_ne sclPath id
  constructor
  case counted =>
    intro status
    have hsame := h.counted status
    rw [nbStored, total_erase, weight_pocWeight hold, delta]
    rw [delta, nbStored] at hsame
    simp only [Option.some.injEq, reduceCtorEq, if_false] at hsame ⊢
    omega
  case scl =>
    rw [lookup_erase_ne hscl.symm]
    exact h.scl
  case collection => rw [lookup_erase_ne hcollection.symm, h.collection]
  case located =>
    intro p r hp
    by_cases hpath : p = m2mPocPath sclPath id
    · rw [hpath, dropLast_m2mPocPath]
    · rw [lookup_erase_ne hpath] at hp
      exact h.located p r hp

theorem Changed.collectionUpdate {oldOnlineStatus newOnlineStatus : Option OnlineStatus}
    {storage storage' storage'' : Storage}
    (h : Changed sclPath oldOnlineStatus newOnlineStatus storage storage')
    (hupdate : batchModify storage' [.update (m2mPocsPath sclPath) .collection] = some storage'') :
    Changed sclPath oldOnlineStatus newOnlineStatus storage storage'' := by
  rw [batchModify_cons, bind_eq_some_iff] at hupdate
  obtain ⟨_, happly, hnil⟩ := hupdate
  cases hnil
  rw [← (apply_update_eq_some.mp happly).2]
  have hne := (m2mPocPath_ne sclPath "").2.2
  constructor
  case counted =>
    intro status
    rw [← h.counted]
    refine nbStored_insert_of_weight (fun r hr _ => ?_) fun _ => rfl
    rw [h.collection] at hr
    cases hr
    rfl
  case scl => rw [lookup_insert_ne hne, h.scl]
  case collection => exact lookup_insert _
  case located =>
    intro p r hp
    by_cases hpath : p = m2mPocsPath sclPath
    · rw [hpath, lookup_insert] at hp
      cases hp
    · rw [lookup_insert_ne hpath] at hp
      exact h.located p r hp

theorem offline_of_single {storage storage' : Storage} (st : OnlineStatus)
    (hempty : (storedCounters storage (m2mPocsPath sclPath)).isEmpty = true)
    (hcount : ∀ status, nbStored storage' (m2mPocsPath sclPath) status =
      nbStored storage (m2mPocsPath sclPath) status + if st = status then 1 else 0)
    (hstatus : (storedCounters storage' (m2mPocsPath sclPath)).aggregate.onlineStatus =
      (storedCounters storage (m2mPocsPath sclPath)).aggregate.onlineStatus) : st = .offline := by
  have hpos := count_storedCounters_nonneg storage (m2mPocsPath sclPath)
  have hsingle : ∀ status, (storedCounters storage' (m2mPocsPath sclPath)).count status =
      if st = status then 1 else 0 := by
    intro status
    have hzero := count_of_isEmpty hpos hempty status
    rw [count_storedCounters] at hzero ⊢
    rw [hcount, hzero, zero_add]
  rw [aggregate_of_isEmpty hpos hempty, aggregate_of_single hsingle] at hstatus
  exact hstatus

/-- The condition on an event: when the transaction commits, the first m2mPoc is not created
offline and the last one is not removed while it is offline; at a start none is expired. -/
def PocsCondition (sclPath : Path) (w : World) : M2MPocEvent → Prop
  | .create id onlineStatus _ faults =>
    M2MPocs.ValidId id → faults.batchModify = false →
    M2MPoc.newOnlineStatus onlineStatus = .offline →
    ∃ id' resource, w.storage.lookup (m2mPocPath sclPath id') = some (.m2mPoc resource)
  | .update _ _ _ _ => True
  | .delete id faults | .timeout id faults =>
    faults.batchModify = false →
    ∀ expirationTime,
      w.storage.lookup (m2mPocPath sclPath id) = some (.m2mPoc ⟨.offline, expirationTime⟩) →
      -- another one stays behind, so the counters do not sum to zero
      ∃ id' ≠ id, ∃ resource,
        w.storage.lookup (m2mPocPath sclPath id') = some (.m2mPoc resource)
  | .start now _ _ _ =>
    ∀ p resource, w.storage.lookup p = some (.m2mPoc resource) → ¬ resource.Expired now

/-- **A creation.** -/
theorem m2mPocCreate_inv (h : PocsInv sclPath w) {onlineStatus : Option OnlineStatus}
    {expirationTime : Option Int} {faults : Faults}
    (hC : PocsCondition sclPath w (.create id onlineStatus expirationTime faults)) :
    PocsInv sclPath
      (M2MPoc.create config it sclPath id onlineStatus expirationTime faults w) := by
  unfold M2MPoc.create
  split
  case isFalse => exact h
  next hid =>
  split
  · exact h
  next hfree =>
  refine h.changed (fun storage' hmodify => ?_) fun storage' hfault hchanged hstatus => ?_
  · rw [batchModify_cons, bind_eq_some_iff] at hmodify
    obtain ⟨storage'', happly, hmodify⟩ := hmodify
    rw [← (apply_create_eq_some.mp happly).2] at hmodify
    refine Changed.collectionUpdate (.of_insert h id ⟨_, expirationTime⟩ fun status => ?_) hmodify
    rw [weight_of_lookup_none hfree]
    rfl
  · have hafter : (storedCounters storage' (m2mPocsPath sclPath)).isEmpty = false := by
      refine Bool.eq_false_iff.mpr fun hempty => ?_
      have hzero := count_of_isEmpty (count_storedCounters_nonneg storage' (m2mPocsPath sclPath))
        hempty (M2MPoc.newOnlineStatus onlineStatus)
      have hpos := nbStored_nonneg w.storage (m2mPocsPath sclPath)
        (M2MPoc.newOnlineStatus onlineStatus)
      rw [count_storedCounters, hchanged.counted] at hzero
      simp only [delta, reduceCtorEq, if_true, if_false] at hzero
      omega
    refine aggregate_eq_of_isEmpty_eq (count_storedCounters_nonneg _ _)
      (count_storedCounters_nonneg _ _) (hafter.trans ?_) hstatus
    refine (Bool.eq_false_iff.mpr fun hempty => ?_).symm
    have hoffline := offline_of_single (M2MPoc.newOnlineStatus onlineStatus) hempty (fun status => by
      rw [hchanged.counted, delta]
      simp only [Option.some.injEq, reduceCtorEq, if_false, sub_zero]) hstatus
    obtain ⟨id', resource, hlookup⟩ := hC hid hfault hoffline
    rw [not_isEmpty_of_lookup hlookup (dropLast_m2mPocPath sclPath id')] at hempty
    cases hempty

/-- **An update.** -/
theorem m2mPocUpdate_inv (h : PocsInv sclPath w) (onlineStatus : Option OnlineStatus)
    (expirationTime : Option Int) (faults : Faults) :
    PocsInv sclPath
      (M2MPoc.update config it sclPath id onlineStatus expirationTime faults w) := by
  unfold M2MPoc.update
  split
  case h_2 => exact h
  next resource hlookup =>
  refine h.changed (fun storage' hmodify => ?_) fun storage' _ hchanged hstatus => ?_
  · rw [batchModify_cons, bind_eq_some_iff] at hmodify
    obtain ⟨_, happly, hnil⟩ := hmodify
    cases hnil
    rw [← (apply_update_eq_some.mp happly).2]
    refine .of_insert h id ⟨_, expirationTime⟩ fun status => ?_
    rw [weight_pocWeight hlookup]
    simp only [Option.some.injEq]
  · refine aggregate_eq_of_isEmpty_eq (count_storedCounters_nonneg _ _)
      (count_storedCounters_nonneg _ _) ?_ hstatus
    rw [Bool.eq_iff_iff, M2MPocsManager.isEmpty_iff, M2MPocsManager.isEmpty_iff]
    simp only [count_storedCounters, hchanged.counted, delta, Option.some.injEq]
    cases M2MPoc.newOnlineStatus onlineStatus <;> cases resource.onlineStatus <;> simp <;> omega

theorem PocsInv.removed (h : PocsInv sclPath w) {resource : M2MPoc}
    (hlookup : w.storage.lookup (m2mPocPath sclPath id) = some (.m2mPoc resource))
    {faults : Faults} (hC : PocsCondition sclPath w (.timeout id faults)) {ms : List Modification}
    (hms : ∀ storage', batchModify w.storage ms = some storage' →
      Changed sclPath (some resource.onlineStatus) none w.storage storage') :
    PocsInv sclPath (run config it faults
      ⟨ms, [.m2mPoc ⟨m2mPocsPath sclPath, some resource.onlineStatus, none⟩]⟩ w) := by
  refine h.changed hms fun storage' hfault hchanged hstatus => ?_
  have hbefore := not_isEmpty_of_lookup hlookup (dropLast_m2mPocPath sclPath id)
  refine aggregate_eq_of_isEmpty_eq (count_storedCounters_nonneg _ _)
    (count_storedCounters_nonneg _ _) (Eq.trans ?_ hbefore.symm) hstatus
  refine Bool.eq_false_iff.mpr fun hempty => ?_
  have hoffline := offline_of_single resource.onlineStatus hempty (fun status => by
    rw [hchanged.counted, delta]
    simp only [Option.some.injEq, reduceCtorEq, if_false]
    omega) hstatus.symm
  obtain ⟨st, expirationTime⟩ := resource
  subst hoffline
  obtain ⟨id', hne, resource', hlookup'⟩ := hC hfault expirationTime hlookup
  have hother : (w.storage.erase (m2mPocPath sclPath id)).lookup (m2mPocPath sclPath id') =
      some (.m2mPoc resource') := by
    rw [lookup_erase_ne, hlookup']
    exact fun heq => hne (append_singleton_inj.mp heq).2
  have hleft := not_isEmpty_of_lookup hother (dropLast_m2mPocPath sclPath id')
  have hsame : (storedCounters storage' (m2mPocsPath sclPath)).isEmpty =
      (storedCounters (w.storage.erase (m2mPocPath sclPath id)) (m2mPocsPath sclPath)).isEmpty :=
    isEmpty_congr fun status => by
      rw [count_storedCounters, count_storedCounters, hchanged.counted,
        ((Changed.refl h none).erase hlookup).counted]
  rw [hsame, hleft] at hempty
  cases hempty

/-- **A deletion.** -/
theorem m2mPocDelete_inv (h : PocsInv sclPath w) {faults : Faults}
    (hC : PocsCondition sclPath w (.delete id faults)) :
    PocsInv sclPath (M2MPoc.delete config it sclPath id faults w) := by
  unfold M2MPoc.delete
  split
  case h_2 => exact h
  next resource hlookup =>
  unfold M2MPoc.deleteTransaction M2MPoc.deleteResource
  rw [dropLast_m2mPocPath]
  refine h.removed hlookup hC fun storage' hmodify => ?_
  rw [batchModify_append, bind_eq_some_iff] at hmodify
  obtain ⟨storage'', hupdate, hdelete⟩ := hmodify
  have hsame := (Changed.refl h none).collectionUpdate hupdate
  obtain ⟨_, happly, hnil⟩ := bind_eq_some_iff.mp hdelete
  cases hnil
  rw [← (apply_delete_eq_some.mp happly).2]
  refine hsame.erase ?_
  rw [lookup_batchModify_of_notMem hupdate, hlookup]
  intro m hm hpath
  rw [mem_singleton.mp hm] at hpath
  exact (m2mPocPath_ne sclPath id).2.1 hpath

/-- **An expiration.** -/
theorem m2mPocTimeout_inv (h : PocsInv sclPath w) {faults : Faults}
    (hC : PocsCondition sclPath w (.timeout id faults)) :
    PocsInv sclPath (M2MPoc.timeout config it sclPath id faults w) := by
  unfold M2MPoc.timeout
  split
  case h_2 => exact h
  next resource hlookup =>
  unfold M2MPoc.deleteResource
  rw [dropLast_m2mPocPath]
  refine h.removed hlookup hC fun storage' hmodify => ?_
  obtain ⟨_, happly, hnil⟩ := bind_eq_some_iff.mp hmodify
  cases hnil
  rw [← (apply_delete_eq_some.mp happly).2]
  exact (Changed.refl h none).erase hlookup

end Events

section Start

variable {w : World} {storage storage' : Storage} {t t' : SclTransaction} {v v' : Volatile}
  {m : M2MPocsManager} {now : Int} {order : List Path} {reads : List Bool}

/-- After the m2mPocs `done` are reloaded, none of them being expired. -/
structure Reloaded (sclPath : Path) (storage : Storage) (done : List Path) (t : SclTransaction)
    (v : Volatile) (m : M2MPocsManager) : Prop where
  ops : t.transientOps = []
  view : v.pocsManagers.view (m2mPocsPath sclPath) = none ∧ m = {} ∨
    v.pocsManagers.view (m2mPocsPath sclPath) = some m ∧ m.isEmpty = false
  count : ∀ status, m.count status =
    (done.map (FiniteMap.weight (pocWeight (m2mPocsPath sclPath) status) storage)).sum
  given : m.sclOnlineStatus = m.aggregate.onlineStatus
  updates : ∀ u ∈ t.modifications, ∃ scl, u = .update sclPath (.scl scl)
  written : t.modifications = [] ∧ m.sclOnlineStatus = .offline ∨
    m.isEmpty = false ∧ t.modifications.getLast? = some (.update sclPath (.scl m.aggregate))

theorem reloaded_nil (sclPath : Path) (storage : Storage) :
    Reloaded sclPath storage [] {} .initial {} := by
  refine ⟨rfl, .inl ⟨rfl, rfl⟩, fun status => ?_, rfl, nofun, .inl ⟨rfl, rfl⟩⟩
  cases status <;> rfl

section

variable {done : List Path} (h : Reloaded sclPath storage done t v m)

include h

theorem Reloaded.count_nonneg (status : OnlineStatus) : 0 ≤ m.count status := by
  rw [h.count]
  refine sum_nonneg fun x hx => ?_
  obtain ⟨p, -, rfl⟩ := mem_map.mp hx
  unfold weight
  cases storage.lookup p with
  | none => exact le_rfl
  | some r => exact pocWeight_nonneg _ status p r

/-- **The reload of one m2mPoc** that is not expired. -/
theorem Reloaded.reload {p : Path} {resource : M2MPoc}
    (hp : storage.lookup p = some (.m2mPoc resource)) (hlocated : p.dropLast = m2mPocsPath sclPath)
    (hexpired : ¬ resource.Expired now) {fault : Bool}
    (hreload : M2MPoc.reload now storage p resource fault t v = some (t', v')) :
    ∃ m', Reloaded sclPath storage (done ++ [p]) t' v' m' := by
  unfold M2MPoc.reload at hreload
  rw [if_neg hexpired, hlocated] at hreload
  have hfound : (v.pocsManagers.view (m2mPocsPath sclPath)).getD {} = m := by
    rcases h.view with ⟨hview, rfl⟩ | ⟨hview, -⟩
    · rw [hview, getD_none]
    · rw [hview, getD_some]
  have hr := getAttribute_getOrCreate (g := v.pocsManagers) (m2mPocsPath sclPath) {}
  have hget := get_getOrCreate (g := v.pocsManagers) (m2mPocsPath sclPath) {}
  rw [hfound] at hget
  generalize v.pocsManagers.getOrCreate (m2mPocsPath sclPath) {} = found at hreload hr hget
  obtain ⟨r, g⟩ := found
  dsimp only at hreload hr hget
  rw [hget] at hreload
  have hcount := count_m2mPocOnlineStatusChanged (m := m) none (some resource.onlineStatus)
  have hgiven := sclOnlineStatus_m2mPocOnlineStatusChanged (m := m) none
    (some resource.onlineStatus)
  have hscl := m2mPocOnlineStatusChanged_scl (m := m) none (some resource.onlineStatus)
  generalize m.m2mPocOnlineStatusChanged none (some resource.onlineStatus) = changed
    at hreload hcount hgiven hscl
  obtain ⟨m', scl⟩ := changed
  dsimp only at hreload hcount hgiven hscl
  have hweight : ∀ status, delta none (some resource.onlineStatus) status =
      weight (pocWeight (m2mPocsPath sclPath) status) storage p := by
    intro status
    rw [weight_of_lookup hp, pocWeight, delta]
    simp [hlocated]
  have hpos : ∀ status, 0 ≤ m'.count status := by
    intro status
    have := h.count_nonneg status
    have hdelta : 0 ≤ delta none (some resource.onlineStatus) status := by
      rw [delta]
      split <;> simp
    rw [hcount]
    omega
  have hempty : m'.isEmpty = false := by
    refine Bool.eq_false_iff.mpr fun hempty => ?_
    have hzero := count_of_isEmpty hpos hempty resource.onlineStatus
    have := h.count_nonneg resource.onlineStatus
    rw [hcount, delta] at hzero
    simp only [if_true, reduceCtorEq, if_false] at hzero
    omega
  have hview : (g.set r m').view (m2mPocsPath sclPath) = some m' := view_set hr m'
  have hsum : ∀ status, m'.count status = ((done ++ [p]).map
      (weight (pocWeight (m2mPocsPath sclPath) status) storage)).sum := by
    intro status
    rw [hcount, h.count, hweight, map_append, sum_append, map_singleton,
      sum_singleton]
  refine ⟨m', ?_⟩
  rcases hscl with ⟨rfl, hstatus⟩ | rfl
  · cases hreload
    refine ⟨h.ops, .inr ⟨hview, hempty⟩, hsum, hgiven, h.updates, ?_⟩
    rcases h.written with ⟨hnil, hoffline⟩ | ⟨hbefore, hlast⟩
    · exact .inl ⟨hnil, hgiven.trans (hstatus.trans hoffline)⟩
    · rw [← aggregate_eq_of_isEmpty_eq h.count_nonneg hpos (hempty.trans hbefore.symm)
        (hstatus.trans h.given)] at hlast
      exact .inr ⟨hempty, hlast⟩
  · obtain ⟨update, hupdate, heq⟩ := map_eq_some_iff.mp hreload
    cases heq
    rw [updateFromM2MPocs_eq_some hupdate]
    have hsclPath : (m2mPocsPath sclPath).dropLast = sclPath := dropLast_concat
    rw [hsclPath]
    refine ⟨h.ops, .inr ⟨hview, hempty⟩, hsum, hgiven, fun u hu => ?_, .inr ⟨hempty, ?_⟩⟩
    · rcases mem_append.mp hu with hu | hu
      · exact h.updates u hu
      · exact ⟨_, mem_singleton.mp hu⟩
    · exact getLast?_concat

/-- **The reloads of a start.** -/
theorem Reloaded.restoreResources
    (hlocated : ∀ p resource, storage.lookup p = some (.m2mPoc resource) → p.dropLast = m2mPocsPath sclPath)
    (hexpired : ∀ p resource, storage.lookup p = some (.m2mPoc resource) → ¬ resource.Expired now)
    (hrestore : M2MPocs.restoreResources now storage order reads t v = some (t', v')) :
    ∃ m', Reloaded sclPath storage (done ++ order) t' v' m' := by
  induction order generalizing done reads t v m with
  | nil =>
    cases hrestore
    rw [append_nil]
    exact ⟨m, h⟩
  | cons p order ih =>
    unfold M2MPocs.restoreResources at hrestore
    split at hrestore
    case h_2 => cases hrestore
    next resource hp =>
    split at hrestore
    · cases hrestore
    next t₁ v₁ hreload =>
    obtain ⟨m₁, h₁⟩ := h.reload hp (hlocated p resource hp) (hexpired p resource hp) hreload
    obtain ⟨m', h'⟩ := ih h₁ hrestore
    rw [append_assoc, singleton_append] at h'
    exact ⟨m', h'⟩

end

theorem run_of_no_ops (config : SclConfig) (it : IterationOrder) (hops : t.transientOps = [])
    (faults : Faults) (w : World) :
    (∃ storage', batchModify w.storage t.modifications = some storage' ∧
      run config it faults t w = ⟨storage', w.volatile⟩) ∨
      run config it faults t w = w := by
  obtain ⟨ms, ops⟩ := t
  cases hops
  unfold run execute commit prepareAll
  dsimp only [Undo.prepareAll]
  by_cases hfault : faults.batchModify = true
  · rw [if_neg (by simp [hfault])]
    exact .inr rfl
  · rw [if_pos ⟨rfl, hfault⟩]
    cases hmodify : batchModify w.storage ms with
    | none => exact .inr rfl
    | some storage' => exact .inl ⟨storage', rfl, rfl⟩

theorem sclUpdates_spec {ms : List Modification}
    (hms : ∀ u ∈ ms, ∃ scl, u = .update sclPath (.scl scl)) {old : Scl}
    (hold : storage.lookup sclPath = some (.scl old))
    (h : batchModify storage ms = some storage') :
    (ms = [] → storage'.lookup sclPath = some (.scl old)) ∧
      (∀ u, ms.getLast? = some u →
        ∃ scl, u = .update sclPath (.scl scl) ∧ storage'.lookup sclPath = some (.scl scl)) ∧
      (∀ p ≠ sclPath, storage'.lookup p = storage.lookup p) ∧
      ∀ pocsPath status, nbStored storage' pocsPath status = nbStored storage pocsPath status := by
  induction ms generalizing storage old with
  | nil =>
    cases h
    exact ⟨fun _ => hold, nofun, fun _ _ => rfl, fun _ _ => rfl⟩
  | cons u ms ih =>
    obtain ⟨⟨scl, rfl⟩, hrest⟩ := forall_mem_cons.mp hms
    obtain ⟨storage₁, happly, h⟩ := bind_eq_some_iff.mp h
    have hone : batchModify storage (sclUpdate sclPath (some scl)) = some storage₁ := by
      rw [sclUpdate, batchModify_cons, happly]
      rfl
    obtain ⟨hscl, hother, hsame⟩ := sclUpdate_spec hold hone
    obtain ⟨hnil, hlast, hother', hsame'⟩ := ih hrest hscl h
    refine ⟨nofun, fun u hu => ?_, fun p hp => (hother' p hp).trans (hother p hp),
      fun pocsPath status => (hsame' pocsPath status).trans (hsame pocsPath status)⟩
    cases ms with
    | nil =>
      cases hu
      exact ⟨scl, rfl, hnil rfl⟩
    | cons u' ms => exact hlast u (by rwa [getLast?_cons_cons] at hu)

theorem sum_paths (storage : Storage) (pocsPath : Path) (status : OnlineStatus) :
    ((M2MPocs.paths storage).map (weight (pocWeight pocsPath status) storage)).sum =
      nbStored storage pocsPath status := by
  refine (total_eq_sum_filter fun p hp => ?_).symm
  split at hp
  · cases hp
  · next hnot =>
    cases hlookup : storage.lookup p with
    | none => exact weight_of_lookup_none hlookup
    | some resource =>
      rw [weight_of_lookup hlookup]
      cases resource
      case m2mPoc => exact absurd hlookup (hnot _)
      all_goals rfl

/-- **A start** at which no m2mPoc is expired. -/
theorem m2mPocStart_inv (h : PocsInv sclPath w) {faults : Faults}
    (hC : PocsCondition sclPath w (.start now order reads faults)) {w' : World}
    (hw' : M2MPocs.start config it now order reads faults w = some w') : PocsInv sclPath w' := by
  unfold M2MPocs.start at hw'
  rw [ite_none_right_eq_some] at hw'
  obtain ⟨hperm, hw'⟩ := hw'
  obtain ⟨⟨t, v⟩, hrestore, hrun⟩ := map_eq_some_iff.mp hw'
  obtain ⟨m, hreloaded⟩ := (reloaded_nil sclPath w.storage).restoreResources h.located hC hrestore
  have hcount : ∀ status, m.count status = nbStored w.storage (m2mPocsPath sclPath) status := by
    intro status
    rw [hreloaded.count, nil_append, (hperm.map _).sum_eq, sum_paths]
  have hview : v.pocsManagers.view (m2mPocsPath sclPath) = unlessEmpty m := by
    unfold unlessEmpty
    rcases hreloaded.view with ⟨hview, rfl⟩ | ⟨hview, hempty⟩
    · exact hview
    · rw [hempty]
      exact hview
  have hagg := aggregate_congr fun status =>
    (hcount status).trans (count_storedCounters _ _ status).symm
  dsimp only at hrun
  subst hrun
  rcases run_of_no_ops config it hreloaded.ops faults ⟨w.storage, v⟩ with
    ⟨storage', hmodify, heq⟩ | heq
  · rw [heq]
    obtain ⟨hnil, hlast, hother, hsame⟩ := sclUpdates_spec hreloaded.updates h.scl hmodify
    have hne := (m2mPocPath_ne sclPath "").2.2
    have hscl : storage'.lookup sclPath = some (.scl m.aggregate) := by
      rcases hreloaded.written with ⟨hms, -⟩ | ⟨-, hms⟩
      · rw [hnil hms, hagg]
      · obtain ⟨scl, heq, hlookup⟩ := hlast _ hms
        cases heq
        exact hlookup
    refine .of_view hview (fun status => (hcount status).trans (hsame _ status).symm)
      hreloaded.given hscl ((hother _ hne.symm).trans h.collection) fun p resource hp => ?_
    by_cases hpscl : p = sclPath
    · rw [hpscl, hscl] at hp
      cases hp
    · exact h.located p resource ((hother p hpscl).symm.trans hp)
  · rw [heq]
    exact .of_view hview hcount hreloaded.given (hagg ▸ h.scl) h.collection h.located

end Start

/-! ## Runs -/

/-- The storage in which an scl was just created: it is offline, and has no m2mPoc. -/
structure NewScl (sclPath : Path) (storage : Storage) : Prop where
  scl : storage.lookup sclPath = some (.scl ⟨.offline, false⟩)
  collection : storage.lookup (m2mPocsPath sclPath) = some .collection
  noM2MPoc : ∀ p resource, storage.lookup p ≠ some (.m2mPoc resource)

section Runs

variable {w : World}

theorem m2mPocStep_inv (h : PocsInv sclPath w) {e : M2MPocEvent}
    (hC : PocsCondition sclPath w e) {w' : World}
    (hw' : m2mPocStep config it sclPath w e = some w') : PocsInv sclPath w' := by
  cases e with
  | create id onlineStatus expirationTime faults =>
    cases hw'
    exact m2mPocCreate_inv h hC
  | update id onlineStatus expirationTime faults =>
    cases hw'
    exact m2mPocUpdate_inv h onlineStatus expirationTime faults
  | delete id faults =>
    cases hw'
    exact m2mPocDelete_inv h hC
  | timeout id faults =>
    cases hw'
    exact m2mPocTimeout_inv h hC
  | start now order reads faults => exact m2mPocStart_inv h hC hw'

theorem pocsInv_of_newScl {storage : Storage} (h : NewScl sclPath storage) :
    PocsInv sclPath ⟨storage, .initial⟩ := by
  have hzero : ∀ status, nbStored storage (m2mPocsPath sclPath) status = 0 := by
    intro status
    rw [← sum_paths]
    have hnone : M2MPocs.paths storage = [] := by
      refine filter_eq_nil_iff.mpr fun p _ => ?_
      split
      · next resource hlookup => exact absurd hlookup (h.noM2MPoc p resource)
      · simp
    rw [hnone]
    rfl
  refine .of_view (m := {}) rfl (fun status => ?_) rfl h.scl h.collection fun p resource hp =>
    absurd hp (h.noM2MPoc p resource)
  rw [hzero]
  cases status <;> rfl

/-- **The online status of an scl**: from its creation on, the counters are the numbers of stored
m2mPocs and the scl is written with their aggregate, all along the runs whose events meet the
condition. -/
theorem aggregated_of_condition (config : SclConfig) (it : IterationOrder) {storage : Storage}
    (hnew : NewScl sclPath storage) (events : List M2MPocEvent)
    (hC : Run.Along (m2mPocStep config it sclPath) (PocsCondition sclPath) ⟨storage, .initial⟩
      events) :
    Run.Visits (m2mPocStep config it sclPath) (PocsKept sclPath) ⟨storage, .initial⟩ events :=
  Run.visits_mono (fun _ h => h.toPocsKept)
    (Run.visits_of_along (fun _ _ _ h hC hs => m2mPocStep_inv h hC hs) (pocsInv_of_newScl hnew) hC)

/-- An scl without m2mPoc. -/
def newScl : Storage :=
  (AList.singleton ["scl"] (.scl ⟨.offline, false⟩)).insert ["scl", "m2mPocs"] .collection

theorem newScl_new : NewScl ["scl"] newScl := by
  refine ⟨rfl, rfl, fun p resource hp => ?_⟩
  have hmem := mem_lookup_iff.mp hp
  simp [newScl, entries_insert, singleton_entries] at hmem

/-- An m2mPoc that is created, updated and deleted. -/
theorem aggregated_create_update_delete :
    Run.Visits (m2mPocStep ⟨1, 1⟩ noOrder ["scl"]) (PocsKept ["scl"]) ⟨newScl, .initial⟩
      [.create "poc" (some .notReachable) none {}, .update "poc" none none {},
        .delete "poc" {}] := by
  refine aggregated_of_condition ⟨1, 1⟩ noOrder newScl_new _ fun w hw => ⟨?_, fun w' hw' =>
    ⟨trivial, fun w'' hw'' => ⟨?_, trivial⟩⟩⟩
  · exact fun _ _ h => by cases h
  · intro _ expirationTime hlookup
    cases hw
    cases hw'
    cases hlookup

/-- A first m2mPoc that is offline leaves the scl without server capability, and one that is
expired when the SCL starts leaves a negative counter. -/
theorem aggregated_broken :
    ¬ Run.Visits (m2mPocStep ⟨1, 1⟩ noOrder ["scl"]) (PocsKept ["scl"]) ⟨newScl, .initial⟩
        [.create "poc" (some .offline) none {}] ∧
      ¬ Run.Visits (m2mPocStep ⟨1, 1⟩ noOrder ["scl"]) (PocsKept ["scl"]) ⟨newScl, .initial⟩
        [.create "poc" (some .online) (some 10) {},
          .start 20 [["scl", "m2mPocs", "poc"]] [] {}] := by
  refine ⟨fun h => ?_, fun h => ?_⟩
  · have hlast := Run.visits_exec h rfl
    exact absurd hlast.scl (by decide)
  · have hlast := Run.visits_exec h rfl
    exact absurd (hlast.counters .online) (by decide)

end Runs

end Ong.Scl
