import Ong.Knx.SupervisorTopology
import Ong.Lib.Run

/-!
# Convergence of the KNX supervisor

The two walks keep a request in progress until they find nothing more to do.  The devices converge
to those of the last topology, provided that the creation does not meet a device marked for
deletion, and that no response to one walk undoes what the other has finished.

## Main results

* `Creating.createNext`, `Deleting.deleteNext`: what the walks establish
* `NetworkInv.ok`: a response preserves the invariant
* `converged_of_condition`: convergence, along the runs that meet the condition
-/

namespace Ong.Knx

open Network List

/-- The parts of a device that both kinds have. -/
structure Sensor.Created (cp : Sensor) : Prop where
  isInit : cp.isInit = true
  isARInit : cp.isARInit = true
  isAR2Init : cp.isAR2Init = true
  isAR3Init : cp.isAR3Init = true
  isAppInit : cp.isAppInit = true

/-- The last event issued at most one request of each walk, and nothing was created for a device
marked for deletion; without request in progress the devices are those of the last topology, fully
created and not marked. -/
structure Converged (n : Network) : Prop where
  notMarked : ∀ i ∈ n.issued, i.request.isCreate = true → i.toDelete = false
  oneCreate : (n.issued.filter fun i => i.request.isCreate).length ≤ 1
  oneDelete : (n.issued.filter fun i => !i.request.isCreate).length ≤ 1
  nodup : n.requests = [] → n.keys.Nodup
  mem_keys : n.requests = [] → ∀ k, k ∈ n.keys ↔ k ∈ n.topology.keys
  created : n.requests = [] → ∀ cp ∈ n.sensors, cp.Created
  container : n.requests = [] → ∀ cp ∈ n.groupApp, cp.isCntInit = true
  unmarked : n.requests = [] → ∀ cp ∈ n.sensors, cp.toDelete = false

/-! ## The condition -/

/-- A creation whose response continues the walk, for a device that is not marked. -/
def LiveCreate (n : Network) (r : DiaRequest) : Prop :=
  r.isCreate = true ∧ ∀ serial ∈ r.serial?, ∃ cp ∈ n.sensors, cp.serial = serial ∧ cp.toDelete = false

/-- A deletion whose response continues the walk. -/
def LiveDelete (n : Network) (r : DiaRequest) : Prop := r.isCreate = false ∧ n.HasContext r

/-- The first device that is not created, else not linked, else without container. -/
def Network.firstMissing (n : Network) : Option Sensor :=
  (n.sensors.find? fun cp => !cp.isInit).or <|
  (n.sensors.find? fun cp => !(cp.isARInit && cp.isAR2Init && cp.isAR3Init && cp.isAppInit)).or <|
  n.groupApp.find? fun cp => !cp.isCntInit

/-- The creation does not meet a device marked for deletion: not the network itself while that is
missing, and then not the first device that misses something. -/
def CreatesUnmarked (n : Network) : Prop :=
  if n.device.isInit = false then n.device.toDelete = false
  else ∀ cp ∈ n.firstMissing, cp.toDelete = false

/-- The condition on a response: the creation does not meet a marked device; what a response adds to
a marked device, or takes from one that is not marked, is seen by the other walk, which is in
progress; and a device that is taken out is marked. -/
def OkCondition (n : Network) : DiaRequest → Prop
  | .netDelete => True
  | .devDelete serial => ∀ cp ∈ n.sensors, cp.serial = serial → cp.toDelete = true
  | .accDelete serial _ | .appDelete serial =>
    (∃ cp ∈ n.sensors, cp.serial = serial ∧ cp.toDelete = false) → ∃ r ∈ n.requests, LiveCreate n r
  | .netStart => CreatesUnmarked (n.record .netStart)
  | .datStart serial => n.Holds serial → CreatesUnmarked (n.record (.datStart serial))
  | r =>
    n.HasContext r → CreatesUnmarked (n.record r) ∧
      ((∃ cp ∈ n.sensors, r.serial? = some cp.serial ∧ cp.toDelete = true) →
        ∃ r ∈ n.requests, LiveDelete n r)

/-- The condition on an event: the table has room for a topology, the creation that is started again
for the other networks does not meet a marked device, and the condition on a response. -/
def SupervisorCondition (w : Supervisor) : SupervisorEvent → Prop
  | .topology i newXo =>
    (∀ t ∈ newXo, ∀ n ∈ w.networks[i]?, Room w.table n t.keys) ∧
      ∀ j < w.networks.length, j = i ∧ newXo.isSome = true ∨
        ∀ n ∈ w.networks[j]?, CreatesUnmarked n
  | .topologyError => ∀ n ∈ w.networks, CreatesUnmarked n
  | .ok i r => ∀ n ∈ w.networks[i]?, OkCondition n r

instance (n : Network) (r : DiaRequest) : Decidable (LiveCreate n r) :=
  inferInstanceAs (Decidable (_ ∧ _))

instance (n : Network) (r : DiaRequest) : Decidable (LiveDelete n r) :=
  inferInstanceAs (Decidable (_ ∧ _))

instance (n : Network) : Decidable (CreatesUnmarked n) :=
  inferInstanceAs (Decidable (if n.device.isInit = false then n.device.toDelete = false
    else ∀ cp ∈ n.firstMissing, cp.toDelete = false))

instance (n : Network) : ∀ r : DiaRequest, Decidable (OkCondition n r)
  | .netDelete => isTrue trivial
  | .netStart => inferInstanceAs (Decidable (CreatesUnmarked _))
  | .datStart _ => inferInstanceAs (Decidable (_ → _))
  | .devDelete _ => inferInstanceAs (Decidable (∀ _ ∈ _, _))
  | .accDelete _ _ | .appDelete _ | .devStart _ => inferInstanceAs (Decidable (_ → _))
  | .accStart _ _ | .appStart _ => inferInstanceAs (Decidable (_ → _))

instance (w : Supervisor) : ∀ e : SupervisorEvent, Decidable (SupervisorCondition w e)
  | .topology i newXo =>
    inferInstanceAs (Decidable ((∀ t ∈ newXo, ∀ n ∈ w.networks[i]?, Room w.table n t.keys) ∧
      ∀ j < w.networks.length, j = i ∧ newXo.isSome = true ∨
        ∀ n ∈ w.networks[j]?, CreatesUnmarked n))
  | .topologyError | .ok _ _ => inferInstanceAs (Decidable (∀ _ ∈ _, _))

/-! ## The invariant -/

/-- Everything that is not marked is created. -/
structure CreatedAll (n : Network) : Prop where
  isInit : ∀ cp ∈ n.sensors, cp.isInit = true
  created : ∀ cp ∈ n.sensors, cp.toDelete = false → cp.Created
  container : ∀ cp ∈ n.groupApp, cp.toDelete = false → cp.isCntInit = true

/-- There is nothing to delete. -/
def DeletedAll (n : Network) : Prop :=
  ∀ cp ∈ n.sensors, cp.toDelete = true →
    cp.isInit = false ∧ cp.isARInit = false ∧ cp.isAR2Init = false ∧ cp.isAR3Init = false ∧
      cp.isAppInit = false

def Creating (n : Network) : Prop := (∃ r ∈ n.requests, LiveCreate n r) ∨ CreatedAll n

def Deleting (n : Network) : Prop := (∃ r ∈ n.requests, LiveDelete n r) ∨ DeletedAll n

/-- The requests of the last event. -/
structure Issued (n : Network) : Prop where
  notMarked : ∀ i ∈ n.issued, i.request.isCreate = true → i.toDelete = false
  oneCreate : (n.issued.filter fun i => i.request.isCreate).length ≤ 1
  oneDelete : (n.issued.filter fun i => !i.request.isCreate).length ≤ 1

/-- The network itself is not deleted, and its devices without mark are those of the topology. -/
structure NetworkBase (n : Network) : Prop where
  device : n.device.toDelete = false
  netDelete : .netDelete ∉ n.requests
  nodup : n.keys.Nodup
  mem_unmarked : ∀ k, k ∈ n.unmarked ↔ k ∈ n.topology.keys

/-- The invariant of a network, apart from what was issued. -/
structure NetworkInv (n : Network) : Prop extends NetworkBase n where
  creating : Creating n
  deleting : Deleting n

section Walks

variable {n : Network} {i : Issue} {o : Option Issue} {cp : Sensor} {r : DiaRequest}

@[simp] theorem issue_device : (n.issue o).device = n.device := by cases o <;> rfl

@[simp] theorem issue_groupApp : (n.issue o).groupApp = n.groupApp := by cases o <;> rfl

@[simp] theorem issue_topology : (n.issue o).topology = n.topology := by cases o <;> rfl

@[simp] theorem issue_sensors : (n.issue o).sensors = n.sensors := by cases o <;> rfl

@[simp] theorem issue_keys : (n.issue o).keys = n.keys := by cases o <;> rfl

@[simp] theorem issue_unmarked : (n.issue o).unmarked = n.unmarked := by cases o <;> rfl

theorem mem_issue_requests :
    r ∈ (n.issue o).requests ↔ r ∈ n.requests ∨ ∃ i, o = some i ∧ i.request = r := by
  cases o with
  | none => simp [issue]
  | some i => simp [issue, eq_comm]

theorem liveCreate_issue : LiveCreate (n.issue o) r ↔ LiveCreate n r := by
  simp [LiveCreate]

theorem liveDelete_issue : LiveDelete (n.issue o) r ↔ LiveDelete n r := by
  simp [LiveDelete, HasContext, Holds]

theorem createdAll_issue : CreatedAll (n.issue o) ↔ CreatedAll n :=
  ⟨fun h => ⟨by simpa using h.isInit, by simpa using h.created, by simpa using h.container⟩,
    fun h => ⟨by simpa using h.isInit, by simpa using h.created, by simpa using h.container⟩⟩

theorem deletedAll_issue : DeletedAll (n.issue o) ↔ DeletedAll n := by
  simp [DeletedAll]

theorem Creating.issue (h : Creating n) : Creating (n.issue o) := by
  rcases h with ⟨r, hr, hlive⟩ | h
  · exact .inl ⟨r, mem_issue_requests.mpr (.inl hr), liveCreate_issue.mpr hlive⟩
  · exact .inr (createdAll_issue.mpr h)

theorem Deleting.issue (h : Deleting n) : Deleting (n.issue o) := by
  rcases h with ⟨r, hr, hlive⟩ | h
  · exact .inl ⟨r, mem_issue_requests.mpr (.inl hr), liveDelete_issue.mpr hlive⟩
  · exact .inr (deletedAll_issue.mpr h)

/-! ## The creation -/

/-- A request of the creation for a device of the network. -/
def CreatesFor (n : Network) (i : Issue) : Prop :=
  i.request.isCreate = true ∧ ∃ cp ∈ n.sensors, i.request.serial? = some cp.serial ∧
    i.toDelete = cp.toDelete

theorem devToCreate_cases (cp : Sensor) :
    devToCreate cp = none ∧ cp.isInit = true ∨
      devToCreate cp = some ⟨.devStart cp.serial, cp.toDelete⟩ := by
  unfold devToCreate
  cases cp.isInit <;> simp

theorem appToCreate_cases (cp : Sensor) :
    appToCreate cp = none ∧ (cp.isInit = true → cp.Created) ∨
      ∃ request, appToCreate cp = some ⟨request, cp.toDelete⟩ ∧ request.isCreate = true ∧
        request.serial? = some cp.serial := by
  unfold appToCreate
  split
  · exact .inr ⟨_, rfl, rfl, rfl⟩
  split
  · exact .inr ⟨_, rfl, rfl, rfl⟩
  split
  · exact .inr ⟨_, rfl, rfl, rfl⟩
  split
  · exact .inr ⟨_, rfl, rfl, rfl⟩
  · next h1 h2 h3 h4 =>
    simp only [Bool.not_eq_false] at h1 h2 h3 h4
    exact .inl ⟨rfl, fun h => ⟨h, h1, h2, h3, h4⟩⟩

theorem cntToCreate_cases (cp : Sensor) :
    cntToCreate cp = none ∧ cp.isCntInit = true ∨
      cntToCreate cp = some ⟨.datStart cp.serial, cp.toDelete⟩ := by
  unfold cntToCreate
  cases cp.isCntInit <;> simp

theorem map_findSome? {f : Sensor → Option Issue} {p : Sensor → Bool}
    (h : ∀ cp, (f cp).map Issue.toDelete = if p cp then some cp.toDelete else none)
    (l : List Sensor) : (l.findSome? f).map Issue.toDelete = (l.find? p).map Sensor.toDelete := by
  induction l with
  | nil => rfl
  | cons cp l ih =>
    have hcp := h cp
    rw [findSome?_cons, find?_cons]
    cases hf : f cp <;> cases hp : p cp <;> simp_all

theorem createsUnmarked_iff :
    CreatesUnmarked n ↔ ∀ i ∈ n.nextCreate, i.toDelete = false := by
  have hdev := map_findSome? (f := devToCreate) (p := fun cp => !cp.isInit) fun cp => by
    unfold devToCreate
    cases cp.isInit <;> rfl
  have happ := map_findSome? (f := appToCreate)
    (p := fun cp => !(cp.isARInit && cp.isAR2Init && cp.isAR3Init && cp.isAppInit)) fun cp => by
      unfold appToCreate
      cases cp.isARInit <;> cases cp.isAR2Init <;> cases cp.isAR3Init <;> cases cp.isAppInit <;> rfl
  have hcnt := map_findSome? (f := cntToCreate) (p := fun cp => !cp.isCntInit) fun cp => by
    unfold cntToCreate
    cases cp.isCntInit <;> rfl
  have hnext : n.nextCreate.map Issue.toDelete =
      if n.device.isInit = false then some n.device.toDelete
      else n.firstMissing.map Sensor.toDelete := by
    unfold nextCreate firstMissing sensors
    split
    · rfl
    · simp only [Option.map_or, hdev, happ, hcnt, find?_append, Option.or_assoc]
  have hall : (∀ i ∈ n.nextCreate, i.toDelete = false) ↔
      ∀ b ∈ n.nextCreate.map Issue.toDelete, b = false := by simp
  rw [hall, hnext, CreatesUnmarked]
  split <;> simp

theorem createdAll_of_nextCreate (h : n.nextCreate = none) : CreatedAll n := by
  unfold nextCreate at h
  split at h
  · cases h
  · simp only [Option.or_eq_none_iff, findSome?_eq_none_iff] at h
    obtain ⟨hdevices, hgroups, hdeviceApps, hgroupApps, hcnts⟩ := h
    have hinit : ∀ cp ∈ n.sensors, cp.isInit = true := by
      intro cp hcp
      have hnone : devToCreate cp = none :=
        (mem_append.mp hcp).elim (hdevices cp) (hgroups cp)
      simpa [hnone] using devToCreate_cases cp
    refine ⟨hinit, fun cp hcp _ => ?_, fun cp hcp _ => ?_⟩
    · have hnone : appToCreate cp = none :=
        (mem_append.mp hcp).elim (hdeviceApps cp) (hgroupApps cp)
      have := appToCreate_cases cp
      simp only [hnone, true_and, reduceCtorEq, false_and, exists_false, or_false] at this
      exact this (hinit cp hcp)
    · simpa [hcnts cp hcp] using cntToCreate_cases cp

/-- What a search in a part of the sensors finds has what all its hits have. -/
theorem of_findSome? {α β : Type} {P : Prop} {f : α → Option β} {l l' : List α} {b : β}
    (hl : l ⊆ l') (hf : ∀ a ∈ l', f a = some b → P) (h : l.findSome? f = some b) : P := by
  obtain ⟨a, ha, hb⟩ := exists_of_findSome?_eq_some h
  exact hf a (hl ha) hb

theorem createsFor_of_nextCreate (h : n.nextCreate = some i) :
    i = ⟨.netStart, n.device.toDelete⟩ ∨ CreatesFor n i := by
  unfold nextCreate at h
  split at h
  · exact .inl (Option.some.inj h).symm
  · refine .inr ?_
    have hdev : ∀ cp ∈ n.sensors, devToCreate cp = some i → CreatesFor n i := by
      intro cp hcp hi
      rcases devToCreate_cases cp with ⟨hnone, -⟩ | hsome
      · rw [hnone] at hi
        cases hi
      · obtain rfl := Option.some.inj (hsome.symm.trans hi)
        exact ⟨rfl, cp, hcp, rfl, rfl⟩
    have happ : ∀ cp ∈ n.sensors, appToCreate cp = some i → CreatesFor n i := by
      intro cp hcp hi
      rcases appToCreate_cases cp with ⟨hnone, -⟩ | ⟨request, hsome, hcreate, hserial⟩
      · rw [hnone] at hi
        cases hi
      · obtain rfl := Option.some.inj (hsome.symm.trans hi)
        exact ⟨hcreate, cp, hcp, hserial, rfl⟩
    simp only [Option.or_eq_some_iff] at h
    rcases h with h | ⟨-, h | ⟨-, h | ⟨-, h | ⟨-, h⟩⟩⟩⟩
    · exact of_findSome? (subset_append_left _ _) hdev h
    · exact of_findSome? (subset_append_right _ _) hdev h
    · exact of_findSome? (subset_append_left _ _) happ h
    · exact of_findSome? (subset_append_right _ _) happ h
    · refine of_findSome? (subset_append_right n.deviceApp _) (fun cp hcp hi => ?_) h
      rcases cntToCreate_cases cp with ⟨hnone, -⟩ | hsome
      · rw [hnone] at hi
        cases hi
      · obtain rfl := Option.some.inj (hsome.symm.trans hi)
        exact ⟨rfl, cp, hcp, rfl, rfl⟩

/-- **The creation goes on** until everything is created. -/
theorem creating_createNext (h : CreatesUnmarked n) : Creating (sensorDiaCreateNext n) := by
  unfold sensorDiaCreateNext
  cases hnext : n.nextCreate with
  | none => exact .inr (createdAll_of_nextCreate hnext)
  | some i =>
    refine .inl ⟨i.request, mem_issue_requests.mpr (.inr ⟨i, rfl, rfl⟩), liveCreate_issue.mpr ?_⟩
    rcases createsFor_of_nextCreate hnext with rfl | ⟨hcreate, cp, hcp, hserial, hmark⟩
    · exact ⟨rfl, by simp [DiaRequest.serial?]⟩
    · refine ⟨hcreate, fun serial hs => ⟨cp, hcp, ?_, hmark ▸ createsUnmarked_iff.mp h i hnext⟩⟩
      rw [hserial] at hs
      exact Option.some.inj hs

/-! ## The deletion -/

theorem appToDelete_cases (cp : Sensor) :
    appToDelete cp = none ∧ (cp.toDelete = true → cp.isARInit = false ∧ cp.isAR2Init = false ∧
        cp.isAR3Init = false ∧ cp.isAppInit = false) ∨
      ∃ request, appToDelete cp = some ⟨request, cp.toDelete⟩ ∧ request.isCreate = false ∧
        request.serial? = some cp.serial := by
  unfold appToDelete
  split
  · next h => exact .inl ⟨rfl, fun hmark => by rw [h] at hmark; cases hmark⟩
  split
  · exact .inr ⟨_, rfl, rfl, rfl⟩
  split
  · exact .inr ⟨_, rfl, rfl, rfl⟩
  split
  · exact .inr ⟨_, rfl, rfl, rfl⟩
  split
  · exact .inr ⟨_, rfl, rfl, rfl⟩
  · next h1 h2 h3 h4 =>
    simp only [Bool.not_eq_true] at h1 h2 h3 h4
    exact .inl ⟨rfl, fun _ => ⟨h2, h3, h4, h1⟩⟩

theorem devToDelete_cases (cp : Sensor) :
    devToDelete cp = none ∧ (cp.toDelete = true → cp.isInit = false) ∨
      devToDelete cp = some ⟨.devDelete cp.serial, cp.toDelete⟩ := by
  unfold devToDelete
  cases cp.toDelete <;> cases cp.isInit <;> simp

theorem deletedAll_of_nextDelete (h : n.nextDelete = none) : DeletedAll n := by
  unfold nextDelete at h
  simp only [Option.or_eq_none_iff, findSome?_eq_none_iff] at h
  obtain ⟨hgroupApps, hdeviceApps, hgroups, hdevices, -⟩ := h
  intro cp hcp hmark
  have happ : appToDelete cp = none :=
    (mem_append.mp hcp).elim (hdeviceApps cp) (hgroupApps cp)
  have hdev : devToDelete cp = none := (mem_append.mp hcp).elim (hdevices cp) (hgroups cp)
  have hparts := appToDelete_cases cp
  simp only [happ, true_and, reduceCtorEq, false_and, exists_false, or_false] at hparts
  have hinit := devToDelete_cases cp
  simp only [hdev, true_and, reduceCtorEq, or_false] at hinit
  exact ⟨hinit hmark, hparts hmark⟩

theorem nextDelete_eq_some (hdevice : n.device.toDelete = false) (h : n.nextDelete = some i) :
    i.request.isCreate = false ∧ ∃ cp ∈ n.sensors, i.request.serial? = some cp.serial := by
  unfold nextDelete at h
  have happ : ∀ cp ∈ n.sensors, appToDelete cp = some i → i.request.isCreate = false ∧
      ∃ cp ∈ n.sensors, i.request.serial? = some cp.serial := by
    intro cp hcp hi
    rcases appToDelete_cases cp with ⟨hnone, -⟩ | ⟨request, hsome, hcreate, hserial⟩
    · rw [hnone] at hi
      cases hi
    · obtain rfl := Option.some.inj (hsome.symm.trans hi)
      exact ⟨hcreate, cp, hcp, hserial⟩
  have hdev : ∀ cp ∈ n.sensors, devToDelete cp = some i → i.request.isCreate = false ∧
      ∃ cp ∈ n.sensors, i.request.serial? = some cp.serial := by
    intro cp hcp hi
    rcases devToDelete_cases cp with ⟨hnone, -⟩ | hsome
    · rw [hnone] at hi
      cases hi
    · obtain rfl := Option.some.inj (hsome.symm.trans hi)
      exact ⟨rfl, cp, hcp, rfl⟩
  simp only [hdevice, Bool.false_eq_true, false_and, if_false, Option.or_eq_some_iff] at h
  rcases h with h | ⟨-, h | ⟨-, h | ⟨-, h | ⟨-, h⟩⟩⟩⟩
  · exact of_findSome? (subset_append_right _ _) happ h
  · exact of_findSome? (subset_append_left _ _) happ h
  · exact of_findSome? (subset_append_right _ _) hdev h
  · exact of_findSome? (subset_append_left _ _) hdev h
  · cases h

/-- **The deletion goes on** until nothing is left to delete. -/
theorem deleting_deleteNext (hdevice : n.device.toDelete = false) :
    Deleting (sensorDiaDeleteNext n) := by
  unfold sensorDiaDeleteNext
  cases hnext : n.nextDelete with
  | none => exact .inr (deletedAll_of_nextDelete hnext)
  | some i =>
    obtain ⟨hcreate, cp, hcp, hserial⟩ := nextDelete_eq_some hdevice hnext
    refine .inl ⟨i.request, mem_issue_requests.mpr (.inr ⟨i, rfl, rfl⟩), liveDelete_issue.mpr ?_⟩
    refine ⟨hcreate, fun serial hs => ⟨cp, hcp, ?_⟩⟩
    rw [hserial] at hs
    exact Option.some.inj hs

end Walks

section Record

variable {n : Network} {serial : Nat} {f : Sensor → Sensor}

/-- A change of what is created. -/
structure Keeps (f : Sensor → Sensor) : Prop where
  serial : ∀ cp, (f cp).serial = cp.serial
  knxId : ∀ cp, (f cp).knxId = cp.knxId
  toDelete : ∀ cp, (f cp).toDelete = cp.toDelete

theorem Keeps.at (h : Keeps f) (serial : Nat) :
    Keeps fun cp => if cp.serial = serial then f cp else cp := by
  constructor <;> intro cp <;> split
  · exact h.serial cp
  · rfl
  · exact h.knxId cp
  · rfl
  · exact h.toDelete cp
  · rfl

theorem keeps_accOk : Keeps Sensor.accOk := by
  constructor <;> intro cp <;> unfold Sensor.accOk <;> (repeat' split) <;> rfl

theorem keeps_accDelOk : Keeps Sensor.accDelOk := by
  constructor <;> intro cp <;> unfold Sensor.accDelOk <;> (repeat' split) <;> rfl

theorem sensors_update : (n.update serial f).sensors =
    n.sensors.map fun cp => if cp.serial = serial then f cp else cp := by
  simp [Network.sensors, update]

theorem keysOf_map (h : Keeps f) (deviceApp groupApp : List Sensor) :
    keysOf (deviceApp.map f) (groupApp.map f) = keysOf deviceApp groupApp := by
  simp [keysOf, Function.comp_def, h.knxId]

theorem filter_map (h : Keeps f) (cps : List Sensor) :
    (cps.map f).filter (fun cp => !cp.toDelete) = (cps.filter fun cp => !cp.toDelete).map f := by
  rw [List.filter_map]
  simp [Function.comp_def, h.toDelete]

theorem keys_update (h : Keeps f) : (n.update serial f).keys = n.keys :=
  keysOf_map (h.at serial) _ _

theorem unmarked_update (h : Keeps f) : (n.update serial f).unmarked = n.unmarked := by
  unfold Network.unmarked update
  rw [filter_map (h.at serial), filter_map (h.at serial)]
  exact keysOf_map (h.at serial) _ _

theorem forall_mem_update {P : Sensor → Prop} :
    (∀ cp ∈ (n.update serial f).sensors, P cp) ↔
      ∀ cp ∈ n.sensors, P (if cp.serial = serial then f cp else cp) := by
  rw [sensors_update, forall_mem_map]

theorem liveCreate_update (h : Keeps f) {r : DiaRequest} (hlive : LiveCreate n r) :
    LiveCreate (n.update serial f) r := by
  refine ⟨hlive.1, fun s hs => ?_⟩
  obtain ⟨cp, hcp, hserial, hmark⟩ := hlive.2 s hs
  refine ⟨_, sensors_update ▸ mem_map_of_mem hcp, ?_, ?_⟩
  · rw [(h.at serial).serial, hserial]
  · rw [(h.at serial).toDelete, hmark]

theorem liveDelete_update (h : Keeps f) {r : DiaRequest} (hlive : LiveDelete n r) :
    LiveDelete (n.update serial f) r := by
  refine ⟨hlive.1, fun s hs => ?_⟩
  obtain ⟨cp, hcp, hserial⟩ := hlive.2 s hs
  exact ⟨_, sensors_update ▸ mem_map_of_mem hcp, ((h.at serial).serial cp).trans hserial⟩

end Record

section Ok

variable {n : Network} {r : DiaRequest} {serial : Nat} {f : Sensor → Sensor}

/-- The network once a response has come. -/
def Network.answered (n : Network) (r : DiaRequest) : Network :=
  { n with requests := n.requests.erase r }

theorem LiveCreate.hasContext (h : LiveCreate n r) : n.HasContext r := fun serial hs => by
  obtain ⟨cp, hcp, hserial, -⟩ := h.2 serial hs
  exact ⟨cp, hcp, hserial⟩

theorem Creating.answered (h : Creating n)
    (hr : r.isCreate = false ∨ ¬ n.HasContext r) : Creating (n.answered r) := by
  rcases h with ⟨r', hmem, hlive⟩ | h
  · refine .inl ⟨r', (mem_erase_of_ne ?_).mpr hmem, hlive⟩
    rintro rfl
    rcases hr with hr | hr
    · rw [hlive.1] at hr
      cases hr
    · exact hr hlive.hasContext
  · exact .inr ⟨h.isInit, h.created, h.container⟩

theorem Deleting.answered (h : Deleting n)
    (hr : r.isCreate = true ∨ ¬ n.HasContext r) : Deleting (n.answered r) := by
  rcases h with ⟨r', hmem, hlive⟩ | h
  · refine .inl ⟨r', (mem_erase_of_ne ?_).mpr hmem, hlive⟩
    rintro rfl
    rcases hr with hr | hr
    · rw [hlive.1] at hr
      cases hr
    · exact hr hlive.2
  · exact .inr h

theorem Deleting.update (hf : Keeps f) (h : Deleting n)
    (hseen : (∃ cp ∈ n.sensors, cp.serial = serial ∧ cp.toDelete = true) →
      ∃ r ∈ n.requests, LiveDelete n r) : Deleting (n.update serial f) := by
  by_cases hlive : ∃ r ∈ n.requests, LiveDelete n r
  · obtain ⟨r, hr, hlive⟩ := hlive
    exact .inl ⟨r, hr, liveDelete_update hf hlive⟩
  · have hall := h.resolve_left hlive
    refine .inr (forall_mem_update.mpr fun cp hcp => ?_)
    split
    · next hserial =>
      rw [hf.toDelete]
      exact fun hmark => absurd (hseen ⟨cp, hcp, hserial, hmark⟩) hlive
    · exact hall cp hcp

theorem Creating.update (hf : Keeps f) (hinit : ∀ cp, (f cp).isInit = cp.isInit) (h : Creating n)
    (hseen : (∃ cp ∈ n.sensors, cp.serial = serial ∧ cp.toDelete = false) →
      ∃ r ∈ n.requests, LiveCreate n r) : Creating (n.update serial f) := by
  by_cases hlive : ∃ r ∈ n.requests, LiveCreate n r
  · obtain ⟨r, hr, hlive⟩ := hlive
    exact .inl ⟨r, hr, liveCreate_update hf hlive⟩
  · have hall := h.resolve_left hlive
    refine .inr ⟨forall_mem_update.mpr fun cp hcp => ?_, forall_mem_update.mpr fun cp hcp => ?_, ?_⟩
    · split
      · rw [hinit]
        exact hall.isInit cp hcp
      · exact hall.isInit cp hcp
    · split
      · next hserial =>
        rw [hf.toDelete]
        exact fun hmark => absurd (hseen ⟨cp, hcp, hserial, hmark⟩) hlive
      · exact hall.created cp hcp
    · intro cp' hcp'
      obtain ⟨cp, hcp, rfl⟩ := mem_map.mp hcp'
      split
      · next hserial =>
        rw [hf.toDelete]
        exact fun hmark =>
          absurd (hseen ⟨cp, mem_append_right _ hcp, hserial, hmark⟩) hlive
      · exact hall.container cp hcp

theorem Creating.remove (h : Creating n)
    (hmarked : ∀ cp ∈ n.sensors, cp.serial = serial → cp.toDelete = true) :
    Creating (n.remove serial) := by
  have hsensors : (n.remove serial).sensors = n.sensors.filter fun cp => cp.serial ≠ serial := by
    simp [Network.sensors, Network.remove]
  rcases h with ⟨r, hr, hcreate, hlive⟩ | h
  · refine .inl ⟨r, hr, hcreate, fun s hs => ?_⟩
    obtain ⟨cp, hcp, hserial, hmark⟩ := hlive s hs
    refine ⟨cp, hsensors ▸ mem_filter.mpr ⟨hcp, ?_⟩, hserial, hmark⟩
    refine decide_eq_true fun heq => ?_
    rw [hmarked cp hcp heq] at hmark
    cases hmark
  · refine .inr ⟨?_, ?_, fun cp hcp => h.container cp (mem_of_mem_filter hcp)⟩
    · exact fun cp hcp => h.isInit cp (mem_of_mem_filter (hsensors ▸ hcp))
    · exact fun cp hcp => h.created cp (mem_of_mem_filter (hsensors ▸ hcp))

theorem unmarked_remove (hmarked : ∀ cp ∈ n.sensors, cp.serial = serial → cp.toDelete = true) :
    (n.remove serial).unmarked = n.unmarked := by
  have hfilter : ∀ cps : List Sensor, (∀ cp ∈ cps, cp ∈ n.sensors) →
      (cps.filter fun cp => decide (cp.serial ≠ serial)).filter (fun cp => !cp.toDelete) =
        cps.filter fun cp => !cp.toDelete := by
    intro cps hcps
    rw [filter_filter]
    refine filter_congr fun cp hcp => ?_
    cases hmark : cp.toDelete with
    | true => rfl
    | false =>
      have hne : cp.serial ≠ serial := fun heq => by
        rw [hmarked cp (hcps cp hcp) heq] at hmark
        cases hmark
      simp [hne]
  unfold Network.unmarked Network.remove
  rw [hfilter _ fun cp => mem_append_left _, hfilter _ fun cp => mem_append_right _]

/-! ## The invariant -/

section

variable (h : NetworkBase n)

include h

theorem NetworkBase.update (hf : Keeps f) : NetworkBase (n.update serial f) :=
  ⟨h.device, h.netDelete, (keys_update hf).symm ▸ h.nodup, fun k =>
    (unmarked_update hf).symm ▸ h.mem_unmarked k⟩

theorem NetworkBase.answered : NetworkBase (n.answered r) :=
  ⟨h.device, fun hmem => h.netDelete (mem_of_mem_erase hmem), h.nodup, h.mem_unmarked⟩

theorem NetworkBase.remove (hmarked : ∀ cp ∈ n.sensors, cp.serial = serial → cp.toDelete = true) :
    NetworkBase (n.remove serial) :=
  ⟨h.device, h.netDelete, h.nodup.sublist ((filter_sublist.map _).append (filter_sublist.map _)),
    fun k => (unmarked_remove hmarked).symm ▸ h.mem_unmarked k⟩

theorem NetworkBase.createNext : NetworkBase (sensorDiaCreateNext n) := by
  refine ⟨by simpa [sensorDiaCreateNext] using h.device, fun hmem => ?_,
    by simpa [sensorDiaCreateNext] using h.nodup,
    by simpa [sensorDiaCreateNext] using h.mem_unmarked⟩
  rcases mem_issue_requests.mp hmem with hmem | ⟨i, hi, hrequest⟩
  · exact h.netDelete hmem
  · rcases createsFor_of_nextCreate hi with rfl | ⟨hcreate, -⟩
    · cases hrequest
    · rw [hrequest] at hcreate
      cases hcreate

theorem NetworkBase.deleteNext : NetworkBase (sensorDiaDeleteNext n) := by
  refine ⟨by simpa [sensorDiaDeleteNext] using h.device, fun hmem => ?_,
    by simpa [sensorDiaDeleteNext] using h.nodup,
    by simpa [sensorDiaDeleteNext] using h.mem_unmarked⟩
  rcases mem_issue_requests.mp hmem with hmem | ⟨i, hi, hrequest⟩
  · exact h.netDelete hmem
  · obtain ⟨-, cp, -, hserial⟩ := nextDelete_eq_some h.device hi
    rw [hrequest] at hserial
    cases hserial

theorem NetworkBase.inv_createNext (hdeleting : Deleting n) (hunmarked : CreatesUnmarked n) :
    NetworkInv (sensorDiaCreateNext n) :=
  { h.createNext with creating := creating_createNext hunmarked, deleting := hdeleting.issue }

theorem NetworkBase.inv_deleteNext (hcreating : Creating n) : NetworkInv (sensorDiaDeleteNext n) :=
  { h.deleteNext with creating := hcreating.issue, deleting := deleting_deleteNext h.device }

end

theorem NetworkInv.converged (h : NetworkInv n) (hissued : Issued n) : Converged n := by
  have hcreated : n.requests = [] → CreatedAll n := fun hnil =>
    h.creating.resolve_left fun ⟨r, hr, _⟩ => by rw [hnil] at hr; cases hr
  have hdeleted : n.requests = [] → DeletedAll n := fun hnil =>
    h.deleting.resolve_left fun ⟨r, hr, _⟩ => by rw [hnil] at hr; cases hr
  have hunmarked : n.requests = [] → ∀ cp ∈ n.sensors, cp.toDelete = false := by
    intro hnil cp hcp
    by_contra hmark
    have hinit := (hdeleted hnil cp hcp (by simpa using hmark)).1
    rw [(hcreated hnil).isInit cp hcp] at hinit
    cases hinit
  refine ⟨hissued.notMarked, hissued.oneCreate, hissued.oneDelete, fun _ => h.nodup,
    fun hnil k => ?_, fun hnil cp hcp => (hcreated hnil).created cp hcp (hunmarked hnil cp hcp),
    fun hnil cp hcp => (hcreated hnil).container cp hcp
      (hunmarked hnil cp (mem_append_right _ hcp)), hunmarked⟩
  have hkeys : n.unmarked = n.keys := by
    unfold Network.unmarked Network.keys
    rw [filter_eq_self.mpr fun cp hcp => ?_, filter_eq_self.mpr fun cp hcp => ?_]
    · simp [hunmarked hnil cp (mem_append_right _ hcp)]
    · simp [hunmarked hnil cp (mem_append_left _ hcp)]
  rw [← hkeys]
  exact h.mem_unmarked k

/-! ## What is issued -/

theorem issued_deleteNext (h : n.issued = []) (hdevice : n.device.toDelete = false) :
    (∀ i ∈ (sensorDiaDeleteNext n).issued, i.request.isCreate = false) ∧
      (sensorDiaDeleteNext n).issued.length ≤ 1 := by
  unfold sensorDiaDeleteNext
  cases hnext : n.nextDelete with
  | none => simp [issue, h]
  | some i => simpa [issue, h] using (nextDelete_eq_some hdevice hnext).1

theorem issued_of_deletes (h : ∀ i ∈ n.issued, i.request.isCreate = false)
    (hlength : n.issued.length ≤ 1) : Issued n := by
  refine ⟨fun i hi hcreate => ?_, ?_, (length_filter_le _ _).trans hlength⟩
  · rw [h i hi] at hcreate
    cases hcreate
  · rw [filter_eq_nil_iff.mpr fun i hi => by simp [h i hi]]
    exact Nat.zero_le 1

theorem issued_createNext (h : ∀ i ∈ n.issued, i.request.isCreate = false)
    (hlength : n.issued.length ≤ 1) (hunmarked : CreatesUnmarked n) :
    Issued (sensorDiaCreateNext n) := by
  have hbefore := issued_of_deletes h hlength
  unfold sensorDiaCreateNext
  cases hnext : n.nextCreate with
  | none => exact hbefore
  | some i =>
    have hcreate : i.request.isCreate = true := by
      rcases createsFor_of_nextCreate hnext with rfl | ⟨hcreate, -⟩
      · rfl
      · exact hcreate
    refine ⟨?_, ?_, ?_⟩
    · intro j hj hjcreate
      rcases mem_append.mp hj with hj | hj
      · exact hbefore.notMarked j hj hjcreate
      · rw [mem_singleton.mp hj]
        exact createsUnmarked_iff.mp hunmarked i hnext
    · have hnone : n.issued.filter (fun i => i.request.isCreate) = [] :=
        filter_eq_nil_iff.mpr fun i hi => by simp [h i hi]
      simp [issue, filter_append, hnone, hcreate]
    · simpa [issue, filter_append, hcreate] using hbefore.oneDelete

/-! ## Steps -/

theorem exists_liveDelete_answered (hcreate : r.isCreate = true)
    (h : ∃ r' ∈ n.requests, LiveDelete n r') : ∃ r' ∈ (n.answered r).requests, LiveDelete n r' := by
  obtain ⟨r', hmem, hlive⟩ := h
  refine ⟨r', (mem_erase_of_ne ?_).mpr hmem, hlive⟩
  rintro rfl
  rw [hlive.1] at hcreate
  cases hcreate

theorem exists_liveCreate_answered (hdelete : r.isCreate = false)
    (h : ∃ r' ∈ n.requests, LiveCreate n r') : ∃ r' ∈ (n.answered r).requests, LiveCreate n r' := by
  obtain ⟨r', hmem, hlive⟩ := h
  refine ⟨r', (mem_erase_of_ne ?_).mpr hmem, hlive⟩
  rintro rfl
  rw [hlive.1] at hdelete
  cases hdelete

theorem NetworkInv.created (h : NetworkInv n) (hcreate : r.isCreate = true)
    (hrecord : (n.answered r).record r = (n.answered r).update serial f) (hf : Keeps f)
    (hunmarked : CreatesUnmarked ((n.answered r).record r))
    (hseen : (∃ cp ∈ n.sensors, cp.serial = serial ∧ cp.toDelete = true) →
      ∃ r ∈ n.requests, LiveDelete n r) :
    NetworkInv (sensorDiaCreateNext ((n.answered r).record r)) := by
  rw [hrecord] at hunmarked ⊢
  refine (h.toNetworkBase.answered.update hf).inv_createNext ?_ hunmarked
  exact (h.deleting.answered (.inl hcreate)).update hf fun hmarked =>
    exists_liveDelete_answered hcreate (hseen hmarked)

theorem NetworkInv.deleted (h : NetworkInv n) (hdelete : r.isCreate = false)
    (hrecord : (n.answered r).record r = (n.answered r).update serial f) (hf : Keeps f)
    (hinit : ∀ cp, (f cp).isInit = cp.isInit)
    (hseen : (∃ cp ∈ n.sensors, cp.serial = serial ∧ cp.toDelete = false) →
      ∃ r ∈ n.requests, LiveCreate n r) :
    NetworkInv (sensorDiaDeleteNext ((n.answered r).record r)) := by
  refine NetworkBase.inv_deleteNext ?_ ?_
  · rw [hrecord]
    exact h.toNetworkBase.answered.update hf
  · rw [hrecord]
    exact (h.creating.answered (.inl hdelete)).update hf hinit fun hunmarked =>
      exists_liveCreate_answered hdelete (hseen hunmarked)

theorem Sensor.isInit_accDelOk (cp : Sensor) : cp.accDelOk.isInit = cp.isInit := by
  unfold Sensor.accDelOk
  (repeat' split) <;> rfl

theorem Deleting.datOk (h : Deleting n) :
    Deleting (n.update serial fun cp => { cp with isCntInit := true }) := by
  have hf : Keeps fun cp => { cp with isCntInit := true } := ⟨fun _ => rfl, fun _ => rfl, fun _ => rfl⟩
  rcases h with ⟨r, hr, hlive⟩ | h
  · exact .inl ⟨r, hr, liveDelete_update hf hlive⟩
  · refine .inr (forall_mem_update.mpr fun cp hcp => ?_)
    split
    · exact h cp hcp
    · exact h cp hcp

theorem NetworkInv.requestOk (h : NetworkInv n) (hissued : n.issued = []) (hr : r ∈ n.requests)
    (hcontext : n.HasContext r) (hcondition : OkCondition n r) (tb : SensorTable) :
    ∃ tb' n', requestOk tb (n.answered r) r = (tb', some n') ∧ NetworkInv n' ∧ Issued n' := by
  have hcontext' : (n.answered r).HasContext r := hcontext
  have hbase := h.toNetworkBase.answered (r := r)
  have hcreates : ∀ n' : Network, n'.issued = [] → CreatesUnmarked n' →
      Issued (sensorDiaCreateNext n') := fun n' hissued' hunmarked =>
    issued_createNext (by simp [hissued']) (by simp [hissued']) hunmarked
  have hdeletes : ∀ n' : Network, n'.issued = [] → n'.device.toDelete = false →
      Issued (sensorDiaDeleteNext n') := fun n' hissued' hdevice =>
    issued_of_deletes (issued_deleteNext hissued' hdevice).1 (issued_deleteNext hissued' hdevice).2
  unfold Knx.requestOk
  rw [if_pos hcontext']
  cases r with
  | netStart =>
    have hbase' : NetworkBase ((n.answered .netStart).record .netStart) :=
      ⟨hbase.device, hbase.netDelete, hbase.nodup, hbase.mem_unmarked⟩
    have hdeleting : Deleting ((n.answered .netStart).record .netStart) :=
      h.deleting.answered (.inl rfl)
    exact ⟨_, _, rfl, hbase'.inv_createNext hdeleting hcondition, hcreates _ hissued hcondition⟩
  | devStart serial | appStart serial =>
    obtain ⟨hunmarked, hseen⟩ := hcondition hcontext
    refine ⟨_, _, rfl, h.created rfl rfl ⟨fun _ => rfl, fun _ => rfl, fun _ => rfl⟩ hunmarked
      fun ⟨cp, hcp, hserial, hmark⟩ => hseen ⟨cp, hcp, congrArg some hserial.symm, hmark⟩,
      hcreates _ hissued hunmarked⟩
  | accStart serial acc =>
    obtain ⟨hunmarked, hseen⟩ := hcondition hcontext
    refine ⟨_, _, rfl, h.created rfl rfl keeps_accOk hunmarked
      fun ⟨cp, hcp, hserial, hmark⟩ => hseen ⟨cp, hcp, congrArg some hserial.symm, hmark⟩,
      hcreates _ hissued hunmarked⟩
  | datStart serial =>
    have hunmarked := hcondition (hcontext serial rfl)
    have hdeleting : Deleting ((n.answered (.datStart serial)).record (.datStart serial)) :=
      (h.deleting.answered (.inl rfl)).datOk
    exact ⟨_, _, rfl, NetworkBase.inv_createNext
      (hbase.update ⟨fun _ => rfl, fun _ => rfl, fun _ => rfl⟩) hdeleting hunmarked,
      hcreates _ hissued hunmarked⟩
  | netDelete => exact absurd hr h.netDelete
  | devDelete serial =>
    have hbase' := hbase.remove hcondition
    exact ⟨_, _, rfl, hbase'.inv_deleteNext ((h.creating.answered (.inl rfl)).remove hcondition),
      hdeletes _ hissued hbase'.device⟩
  | accDelete serial acc =>
    exact ⟨_, _, rfl, h.deleted rfl rfl keeps_accDelOk Sensor.isInit_accDelOk hcondition,
      hdeletes _ hissued hbase.device⟩
  | appDelete serial =>
    exact ⟨_, _, rfl, h.deleted rfl rfl ⟨fun _ => rfl, fun _ => rfl, fun _ => rfl⟩
      (fun _ => rfl) hcondition, hdeletes _ hissued hbase.device⟩

/-- **A response** preserves the invariant. -/
theorem NetworkInv.ok (h : NetworkInv n) (hissued : n.issued = []) (hr : r ∈ n.requests)
    (hcondition : OkCondition n r) (tb : SensorTable) :
    ∃ tb' n', Knx.requestOk tb (n.answered r) r = (tb', some n') ∧ NetworkInv n' ∧ Issued n' := by
  by_cases hcontext : n.HasContext r
  · exact h.requestOk hissued hr hcontext hcondition tb
  · refine ⟨tb, n.answered r, if_neg hcontext, { h.toNetworkBase.answered with
      creating := h.creating.answered (.inr hcontext)
      deleting := h.deleting.answered (.inr hcontext) }, issued_of_deletes ?_ ?_⟩
    · simp [answered, hissued]
    · simp [answered, hissued]

/-- **A topology**, before the networks are started. -/
theorem NetworkBase.afterTopology (h : NetworkBase n) (hissued : n.issued = []) {tb : SensorTable}
    {t : Topology} (hroom : Room tb n t.keys) :
    NetworkInv (sensorDiaCreateNext (sensorInitializeNetwork tb n (some t)).2) ∧
      Issued (sensorDiaCreateNext (sensorInitializeNetwork tb n (some t)).2) := by
  have hkeys : n.markAll.keys = n.keys := by
    simp [markAll, Network.keys, keysOf, Function.comp_def]
  have hunmarked : n.markAll.unmarked = [] := by
    simp [markAll, Network.unmarked, keysOf]
  have hextended := initializeTopology_extended (p := (tb, n.markAll)) t (hkeys.symm ▸ h.nodup) (by
    unfold Room at *
    rwa [hkeys])
  rw [sensorInitializeNetwork]
  generalize t.foldl initializeDevice (tb, n.markAll) = p at hextended
  have hdevice : p.2.device = n.device := by rw [hextended.rest]; rfl
  have hrequests : p.2.requests = n.requests := by rw [hextended.rest]; rfl
  have hnone : p.2.issued = [] := by rw [hextended.rest]; exact hissued
  have hbase : NetworkBase { p.2 with
      topology := t, device := { p.2.device with isInit := false } } := by
    refine ⟨by simpa [hdevice] using h.device, by simpa [hrequests] using h.netDelete,
      hextended.nodup, fun k => ?_⟩
    have hmem : k ∈ p.2.unmarked ↔ k ∈ t.keys := by
      simpa [hunmarked] using hextended.mem_unmarked k
    exact hmem
  have hfirst : CreatesUnmarked (sensorDiaDeleteNext { p.2 with
      topology := t, device := { p.2.device with isInit := false } }) := by
    rw [CreatesUnmarked, if_pos (by simp [sensorDiaDeleteNext])]
    simpa [sensorDiaDeleteNext, hdevice] using h.device
  obtain ⟨hdeletes, hlength⟩ := issued_deleteNext (n := { p.2 with
    topology := t, device := { p.2.device with isInit := false } }) hnone hbase.device
  exact ⟨hbase.deleteNext.inv_createNext (deleting_deleteNext hbase.device) hfirst,
    issued_createNext hdeletes hlength hfirst⟩

end Ok

section Runs

variable {w w' : Supervisor}

/-- The invariant of the supervisor. -/
def SupervisorInv (w : Supervisor) : Prop := ∀ n ∈ w.networks, NetworkInv n ∧ Issued n

/-- A network at the beginning of an event. -/
def Network.begun (n : Network) : Network := { n with issued := [] }

theorem NetworkInv.begun {n : Network} (h : NetworkInv n) : NetworkInv n.begun :=
  ⟨⟨h.device, h.netDelete, h.nodup, h.mem_unmarked⟩,
    h.creating.imp_right fun h => ⟨h.isInit, h.created, h.container⟩, h.deleting⟩

theorem NetworkInv.started {n : Network} (h : NetworkInv n) (hunmarked : CreatesUnmarked n) :
    NetworkInv (sensorDiaCreateNext n.begun) ∧ Issued (sensorDiaCreateNext n.begun) := by
  have hunmarked' : CreatesUnmarked n.begun := hunmarked
  exact ⟨h.begun.toNetworkBase.inv_createNext h.begun.deleting hunmarked',
    issued_createNext (by simp [Network.begun]) (by simp [Network.begun]) hunmarked'⟩

/-- **A step that meets the condition** preserves the invariant. -/
theorem SupervisorInv.step (h : SupervisorInv w) {e : SupervisorEvent}
    (hcondition : SupervisorCondition w e) (ht : supervisorStep w e = some w') :
    SupervisorInv w' := by
  cases e with
  | topology i newXo =>
    obtain ⟨hroom, hunmarked⟩ := hcondition
    simp only [supervisorStep, getElem?_map] at ht
    obtain ⟨m, hm, rfl⟩ := Option.map_eq_some_iff.mp ht
    obtain ⟨n, hn, rfl⟩ := Option.map_eq_some_iff.mp hm
    intro n' hn'
    obtain ⟨m, hm, rfl⟩ := mem_map.mp hn'
    obtain ⟨j, hj⟩ := mem_iff_getElem?.mp hm
    rw [getElem?_set] at hj
    have hinv := h n (mem_of_getElem? hn)
    by_cases hij : i = j
    · subst hij
      rw [if_pos rfl] at hj
      split at hj
      swap
      · cases hj
      obtain rfl := Option.some.inj hj
      cases newXo with
      | none =>
        have hlt : i < w.networks.length := (List.getElem?_eq_some_iff.mp hn).1
        have hcreates := (hunmarked i hlt).resolve_left (by simp)
        exact hinv.1.started (hcreates n hn)
      | some t => exact hinv.1.begun.toNetworkBase.afterTopology rfl (hroom t rfl n hn)
    · rw [if_neg hij, getElem?_map] at hj
      obtain ⟨n₁, hn₁, rfl⟩ := Option.map_eq_some_iff.mp hj
      have hlt : j < w.networks.length := (List.getElem?_eq_some_iff.mp hn₁).1
      have hcreates := (hunmarked j hlt).resolve_left fun heq => hij heq.1.symm
      exact (h n₁ (mem_of_getElem? hn₁)).1.started (hcreates n₁ hn₁)
  | topologyError =>
    obtain rfl := Option.some.inj ht
    intro n' hn'
    obtain ⟨m, hm, rfl⟩ := mem_map.mp hn'
    obtain ⟨n, hn, rfl⟩ := mem_map.mp hm
    exact (h n hn).1.started (hcondition n hn)
  | ok i r =>
    simp only [supervisorStep, getElem?_map] at ht
    obtain ⟨m, hm, ht⟩ := Option.bind_eq_some_iff.mp ht
    obtain ⟨n, hn, rfl⟩ := Option.map_eq_some_iff.mp hm
    split at ht
    swap
    · cases ht
    next hr =>
    have hbegun : OkCondition n.begun r := by cases r <;> exact hcondition n hn
    obtain ⟨tb, n', hok, hinv, hissued⟩ :=
      (h n (mem_of_getElem? hn)).1.begun.ok rfl hr hbegun w.table
    have hok' : requestOk w.table
        { n with requests := n.requests.erase r, issued := [] } r = (tb, some n') := hok
    rw [hok'] at ht
    obtain rfl := Option.some.inj ht
    intro m hm
    rcases mem_or_eq_of_mem_set hm with hm | rfl
    · obtain ⟨n₁, hn₁, rfl⟩ := mem_map.mp hm
      exact ⟨(h n₁ hn₁).1.begun, issued_of_deletes (by simp) (by simp)⟩
    · exact ⟨hinv, hissued⟩

theorem supervisorInv_new (nb : Nat) : SupervisorInv (newSupervisor nb) := by
  intro n hn
  obtain ⟨i, -, rfl⟩ := mem_map.mp hn
  refine ⟨⟨⟨rfl, by simp, by simp [Network.keys, keysOf], ?_⟩, .inr ⟨?_, ?_, ?_⟩, .inr ?_⟩,
    issued_of_deletes (by simp) (by simp)⟩
  · simp [Network.unmarked, keysOf, Topology.keys]
  · simp [Network.sensors]
  · simp [Network.sensors]
  · simp
  · simp [DeletedAll, Network.sensors]

end Runs

/-- **The devices converge to those of the last topology**, along the runs that meet the
condition. -/
theorem converged_of_condition (nb : Nat) (es : List SupervisorEvent)
    (h : Run.Along supervisorStep SupervisorCondition (newSupervisor nb) es) :
    Run.Visits supervisorStep (fun w => ∀ n ∈ w.networks, Converged n) (newSupervisor nb) es :=
  Run.visits_mono (fun _ h n hn => (h n hn).1.converged (h n hn).2)
    (Run.visits_of_along (fun _ _ _ h hC ht => h.step hC ht) (supervisorInv_new nb) h)

/-- A device with a group address, which the next topology drops: its deletion is over when the
network has been created again. -/
theorem converged_dropped :
    Run.Visits supervisorStep (fun w => ∀ n ∈ w.networks, Converged n) (newSupervisor 1)
      ([.topology 0 (some [⟨some (1, 1, 1), [⟨true, [5]⟩]⟩])] ++
        [.netStart, .devStart 2, .devStart 3, .accStart 2 0, .accStart 2 1, .accStart 2 2, .appStart 2,
          .accStart 3 0, .accStart 3 1, .accStart 3 2, .appStart 3, .datStart 3].map (.ok 0) ++
        [.topology 0 (some [])] ++
        [.appDelete 3, .accDelete 3 0, .accDelete 3 1, .accDelete 3 2, .appDelete 2, .accDelete 2 0,
          .accDelete 2 1, .accDelete 2 2, .devDelete 3, .devDelete 2, .netStart].map (.ok 0)) :=
  converged_of_condition 1 _ (by decide +kernel)

/-- When the network is created again first, the application of the dropped device is created
although the device is marked for deletion. -/
theorem dropped_created_again :
    ¬ Run.Visits supervisorStep (fun w => ∀ n ∈ w.networks, Converged n) (newSupervisor 1)
      ([.topology 0 (some [⟨some (1, 1, 1), []⟩])] ++
        [.netStart, .devStart 2, .accStart 2 0, .accStart 2 1, .accStart 2 2, .appStart 2].map (.ok 0) ++
        [.topology 0 (some []), .ok 0 (.appDelete 2), .ok 0 .netStart]) := by
  intro h
  have hlast := Run.visits_exec h rfl
  have hmarked := (hlast _ mem_cons_self).notMarked ⟨.appStart 2, true⟩ mem_cons_self rfl
  cases hmarked

end Ong.Knx
