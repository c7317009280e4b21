import Ong.Scl.Storage

/-!
# The online statuses of the m2mPocs of an scl

## Main results

* `count_m2mPocOnlineStatusChanged`: what a change does to the counters
* `m2mPocOnlineStatusChanged_undo`: the reverse change restores them
-/

namespace Ong.Scl

/-- The fields of `M2MPocsManager`. -/
structure M2MPocsManager where
  nbOnline : Int := 0
  nbOffline : Int := 0
  nbNotReachable : Int := 0
  sclOnlineStatus : OnlineStatus := .offline

namespace M2MPocsManager

variable (m : M2MPocsManager)

/-- The counter of a status. -/
def count : OnlineStatus → Int
  | .online => m.nbOnline
  | .offline => m.nbOffline
  | .notReachable => m.nbNotReachable

def isEmpty : Bool := m.nbOnline + m.nbOffline + m.nbNotReachable = 0

/-- One of the two `switch` of `m2mPocOnlineStatusChanged`. -/
def add (n : Int) : Option OnlineStatus → M2MPocsManager
  | some .online => { m with nbOnline := m.nbOnline + n }
  | some .offline => { m with nbOffline := m.nbOffline + n }
  | some .notReachable => { m with nbNotReachable := m.nbNotReachable + n }
  | none => m

/-- The online status and the server capability written for these counters. -/
def aggregate : Scl :=
  if m.nbOnline > 0 then ⟨.online, true⟩
  else if m.nbNotReachable > 0 ∧ m.nbOffline = 0 then ⟨.notReachable, true⟩
  else ⟨.offline, !(m.nbNotReachable = 0 ∧ m.nbOffline = 0 : Bool)⟩

/-- `m2mPocOnlineStatusChanged`, with what it writes in the scl when it is given a transaction. -/
def m2mPocOnlineStatusChanged (previousState newState : Option OnlineStatus) :
    M2MPocsManager × Option Scl :=
  let m := (m.add (-1) previousState).add 1 newState
  if m.sclOnlineStatus ≠ m.aggregate.onlineStatus then
    ({ m with sclOnlineStatus := m.aggregate.onlineStatus }, some m.aggregate)
  else (m, none)

variable {m} {m' : M2MPocsManager}

/-- How much a change of status adds to the counter of `status`. -/
def delta (previousState newState : Option OnlineStatus) (status : OnlineStatus) : Int :=
  (if newState = some status then 1 else 0) - if previousState = some status then 1 else 0

theorem count_add (n : Int) (state : Option OnlineStatus) (status : OnlineStatus) :
    (m.add n state).count status = m.count status + if state = some status then n else 0 := by
  rcases state with _ | _ | _ | _ <;> cases status <;> simp [add, count]

section

variable (previousState newState : Option OnlineStatus) (status : OnlineStatus)

/-- **A change of status** moves one unit from the counter of the previous status to that of the
new one. -/
@[simp] theorem count_m2mPocOnlineStatusChanged :
    (m.m2mPocOnlineStatusChanged previousState newState).1.count status =
      m.count status + delta previousState newState status := by
  have hcount : (m.m2mPocOnlineStatusChanged previousState newState).1.count status =
      ((m.add (-1) previousState).add 1 newState).count status := by
    unfold m2mPocOnlineStatusChanged
    dsimp only
    split
    · cases status <;> rfl
    · rfl
  rw [hcount, count_add, count_add, delta]
  split <;> split <;> omega

theorem delta_comm :
    delta newState previousState status = -delta previousState newState status := by
  rw [delta, delta]
  omega

/-- The change that `rollback` makes undoes the one that `prepare` made. -/
theorem m2mPocOnlineStatusChanged_undo :
    ((m.m2mPocOnlineStatusChanged previousState newState).1.m2mPocOnlineStatusChanged newState
      previousState).1.count status = m.count status := by
  simp only [count_m2mPocOnlineStatusChanged, delta_comm previousState newState]
  omega

end

theorem isEmpty_iff : m.isEmpty = true ↔
    m.count .online + m.count .offline + m.count .notReachable = 0 :=
  decide_eq_true_iff

theorem sclOnlineStatus_m2mPocOnlineStatusChanged
    (previousState newState : Option OnlineStatus) :
    (m.m2mPocOnlineStatusChanged previousState newState).1.sclOnlineStatus =
      (m.m2mPocOnlineStatusChanged previousState newState).1.aggregate.onlineStatus := by
  unfold m2mPocOnlineStatusChanged
  dsimp only
  split
  · rfl
  · next h => exact Decidable.not_not.mp h

theorem m2mPocOnlineStatusChanged_scl (previousState newState : Option OnlineStatus) :
    (m.m2mPocOnlineStatusChanged previousState newState).2 = none ∧
        (m.m2mPocOnlineStatusChanged previousState newState).1.aggregate.onlineStatus =
          m.sclOnlineStatus ∨
      (m.m2mPocOnlineStatusChanged previousState newState).2 =
        some (m.m2mPocOnlineStatusChanged previousState newState).1.aggregate := by
  have hsame : ((m.add (-1) previousState).add 1 newState).sclOnlineStatus = m.sclOnlineStatus := by
    rcases previousState with _ | _ | _ | _ <;> rcases newState with _ | _ | _ | _ <;> rfl
  unfold m2mPocOnlineStatusChanged
  dsimp only
  split
  · exact .inr rfl
  · next h => exact .inl ⟨rfl, (Decidable.not_not.mp h).symm.trans hsame⟩

/-! ## The aggregate as a function of the counters -/

theorem aggregate_congr (h : ∀ status, m.count status = m'.count status) :
    m.aggregate = m'.aggregate := by
  have honline : m.nbOnline = m'.nbOnline := h .online
  have hoffline : m.nbOffline = m'.nbOffline := h .offline
  have hnotReachable : m.nbNotReachable = m'.nbNotReachable := h .notReachable
  unfold aggregate
  rw [honline, hoffline, hnotReachable]

theorem isEmpty_congr (h : ∀ status, m.count status = m'.count status) :
    m.isEmpty = m'.isEmpty := by
  rw [Bool.eq_iff_iff, isEmpty_iff, isEmpty_iff, h, h, h]

theorem count_of_isEmpty (hpos : ∀ status, 0 ≤ m.count status) (h : m.isEmpty = true)
    (status : OnlineStatus) : m.count status = 0 := by
  have honline := hpos .online
  have hoffline := hpos .offline
  have hnotReachable := hpos .notReachable
  rw [isEmpty_iff] at h
  cases status <;> omega

theorem aggregate_serverCapability (hpos : ∀ status, 0 ≤ m.count status) :
    m.aggregate.serverCapability = !m.isEmpty := by
  have honline : 0 ≤ m.nbOnline := hpos .online
  have hoffline : 0 ≤ m.nbOffline := hpos .offline
  have hnotReachable : 0 ≤ m.nbNotReachable := hpos .notReachable
  unfold aggregate isEmpty
  split
  · have : ¬ m.nbOnline + m.nbOffline + m.nbNotReachable = 0 := by omega
    simp [this]
  · split
    · have : ¬ m.nbOnline + m.nbOffline + m.nbNotReachable = 0 := by omega
      simp [this]
    · refine congrArg (!·) (decide_eq_decide.mpr ?_)
      omega

theorem aggregate_of_isEmpty (hpos : ∀ status, 0 ≤ m.count status) (h : m.isEmpty = true) :
    m.aggregate = ⟨.offline, false⟩ := by
  have hcount := count_of_isEmpty hpos h
  have : m.aggregate = ({} : M2MPocsManager).aggregate :=
    aggregate_congr fun status => by rw [hcount]; cases status <;> rfl
  exact this

theorem aggregate_of_single {st : OnlineStatus}
    (h : ∀ status, m.count status = if st = status then 1 else 0) :
    m.aggregate.onlineStatus = st := by
  have honline : m.nbOnline = _ := h .online
  have hoffline : m.nbOffline = _ := h .offline
  have hnotReachable : m.nbNotReachable = _ := h .notReachable
  unfold aggregate
  rw [honline, hoffline, hnotReachable]
  cases st <;> rfl

theorem aggregate_eq_of_isEmpty_eq (hpos : ∀ status, 0 ≤ m.count status)
    (hpos' : ∀ status, 0 ≤ m'.count status) (hempty : m'.isEmpty = m.isEmpty)
    (hstatus : m'.aggregate.onlineStatus = m.aggregate.onlineStatus) :
    m'.aggregate = m.aggregate := by
  have hcapability := aggregate_serverCapability hpos
  have hcapability' := aggregate_serverCapability hpos'
  rw [hempty, ← hcapability] at hcapability'
  generalize m'.aggregate = scl' at *
  generalize m.aggregate = scl at *
  cases scl
  cases scl'
  cases hstatus
  cases hcapability'
  rfl

end M2MPocsManager

end Ong.Scl
