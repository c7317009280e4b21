import Ong.Scl.Volatile

/-!
# The transient operations of a transaction

An operation changes the volatile state before the storage is modified, and undoes its change when
the transaction fails.  What its `prepare` leaves for its `rollback` is in its `Fields`.
-/

namespace Ong.Scl

open M2M Volatile

/-- The arguments of a `SubCreateOp`: where the subscriptions are registered, and whether their
resource depends on filter criteria. -/
structure SubCreateOp where
  subsPath : Path
  subId : String
  subscription : Sub
  dependsOnFilterCriteria : Bool := false
  deriving DecidableEq

/-- The constructor: a subscription to the latest instance of a contentInstances resource is
registered apart. -/
def SubCreateOp.new (subsPath : Path) (subId : String) (subscription : Sub)
    (dependsOnFilterCriteria isContentInstances : Bool) (attributeAccessor : Option String) :
    SubCreateOp where
  subsPath :=
    if isContentInstances ∧ (attributeAccessor = some "latest/" ∨ attributeAccessor = some "latest")
    then subsPath ++ ["latest"] else subsPath
  subId := subId
  subscription := subscription
  dependsOnFilterCriteria := dependsOnFilterCriteria

structure SubDeleteOp where
  subsPath : Path
  subId : String
  deriving DecidableEq

structure SubsDeleteOp where
  subsPath : Path
  deriving DecidableEq

structure M2MPocOp where
  m2mPocsPath : Path
  oldOnlineStatus : Option OnlineStatus
  newOnlineStatus : Option OnlineStatus
  deriving DecidableEq

structure CisChildCreateOp where
  path : Path
  lastCiCreationDate : Int
  lastCiId : String
  now : Int
  maxInstanceAge : Int
  deriving DecidableEq

structure CisChildDeleteOp where
  path : Path
  childResource : ContentInstance
  now : Int
  deriving DecidableEq

inductive TransientOp
  | subCreate (op : SubCreateOp)
  | subDelete (op : SubDeleteOp)
  | subsDelete (op : SubsDeleteOp)
  | m2mPoc (op : M2MPocOp)
  | cisChildCreate (op : CisChildCreateOp)
  | cisChildDelete (op : CisChildDeleteOp)
  deriving DecidableEq

/-- The fields that an operation sets when it is prepared, null before; each kind of operation has
some of them. -/
structure Fields where
  subsManager : Option Nat := none
  subManager : Option Sub := none
  pocsManager : Option Nat := none
  timerId : Option Nat := none

/-- What a preparation reads and changes: whether the calls of the next preparations to the
storage, to the timer service or to a constructor fail, the modifications queued so far, and the
volatile state. -/
structure Preparation where
  faults : List Bool
  modifications : List Modification
  volatile : Volatile

variable (config : SclConfig) (it : IterationOrder) (storage : Storage)

/-! ## Subscriptions -/

def SubCreateOp.prepare (op : SubCreateOp) (fault : Bool) (v : Volatile) :
    Bool × Fields × Volatile :=
  let (r, subsManagers) :=
    v.subsManagers.getOrCreate op.subsPath (.new op.dependsOnFilterCriteria)
  let v := { v with subsManagers := subsManagers }
  -- the fault is an exception of the constructor of `SubManager`
  if fault then (false, { subsManager := some r }, v)
  else
    match (subsManagers.get r).addSubscription config op.subId op.subscription v.shared with
    | none => (false, { subsManager := some r, subManager := some op.subscription }, v)
    | some (m, shared) =>
      (true, { subsManager := some r, subManager := some op.subscription },
        { v with subsManagers := subsManagers.set r m, shared := shared })

def SubCreateOp.rollback (op : SubCreateOp) (f : Fields) (v : Volatile) : Volatile :=
  match f.subsManager with
  | none => v
  | some r =>
    let (_, m, shared) := (v.subsManagers.get r).removeSubscription it op.subId v.shared
    let subsManagers := v.subsManagers.set r m
    { v with
      subsManagers := if m.isEmpty then subsManagers.removeAttribute op.subsPath else subsManagers
      shared := shared }

def SubDeleteOp.prepare (op : SubDeleteOp) (v : Volatile) : Bool × Fields × Volatile :=
  match v.subsManagers.getAttribute op.subsPath with
  | none => (false, {}, v)
  | some r =>
    let (sub, m, shared) := (v.subsManagers.get r).removeSubscription it op.subId v.shared
    (true, { subsManager := some r, subManager := sub },
      { v with subsManagers := v.subsManagers.set r m, shared := shared })

def SubDeleteOp.rollback (op : SubDeleteOp) (f : Fields) (v : Volatile) : Volatile :=
  match f.subsManager, f.subManager with
  | some r, some sub =>
    match (v.subsManagers.get r).addSubscription config op.subId sub v.shared with
    | none => v
    | some (m, shared) => { v with subsManagers := v.subsManagers.set r m, shared := shared }
  | _, _ => v

/-- `postCommit`; `none` when there was no notifier to remove. -/
def SubDeleteOp.postCommit (op : SubDeleteOp) (f : Fields) (v : Volatile) : Option Volatile :=
  match f.subsManager, f.subManager with
  | some r, some _ =>
    some (if (v.subsManagers.get r).isEmpty
      then { v with subsManagers := v.subsManagers.removeAttribute op.subsPath } else v)
  | _, _ => none

/-- `postCommit`; the notifiers are told that the resource is deleted, and their manager is left as
it is. -/
def SubsDeleteOp.postCommit (op : SubsDeleteOp) (v : Volatile) : Volatile :=
  match v.subsManagers.getAttribute op.subsPath with
  | none => v
  | some _ => { v with subsManagers := v.subsManagers.removeAttribute op.subsPath }

/-! ## Online statuses -/

/-- The scl of which the m2mPocs are under `m2mPocsPath`. -/
def M2MPocOp.sclPath (op : M2MPocOp) : Path := op.m2mPocsPath.dropLast

/-- `updateFromM2MPocs`: the update of the scl; `none` when it cannot be read. -/
def updateFromM2MPocs (sclPath : Path) (fault : Bool) (scl : Scl) : Option Modification :=
  match fault, storage.lookup sclPath with
  | false, some (.scl _) => some (.update sclPath (.scl scl))
  | _, _ => none

def M2MPocOp.prepare (op : M2MPocOp) (fault : Bool) (s : Preparation) :
    Bool × Fields × Preparation :=
  let (r, pocsManagers) := s.volatile.pocsManagers.getOrCreate op.m2mPocsPath {}
  let (m, scl) :=
    (pocsManagers.get r).m2mPocOnlineStatusChanged op.oldOnlineStatus op.newOnlineStatus
  let s := { s with volatile := { s.volatile with pocsManagers := pocsManagers.set r m } }
  match scl with
  | none => (true, { pocsManager := some r }, s)
  | some scl =>
    match updateFromM2MPocs storage op.sclPath fault scl with
    | none => (false, { pocsManager := some r }, s)
    | some update =>
      (true, { pocsManager := some r }, { s with modifications := s.modifications ++ [update] })

def M2MPocOp.rollback (op : M2MPocOp) (f : Fields) (v : Volatile) : Volatile :=
  match f.pocsManager with
  | none => v
  | some r =>
    let (m, _) := (v.pocsManagers.get r).m2mPocOnlineStatusChanged op.newOnlineStatus
      op.oldOnlineStatus
    let pocsManagers := v.pocsManagers.set r m
    { v with
      pocsManagers :=
        if m.isEmpty then pocsManagers.removeAttribute op.m2mPocsPath else pocsManagers }

def M2MPocOp.postCommit (op : M2MPocOp) (f : Fields) (v : Volatile) : Volatile :=
  match f.pocsManager with
  | none => v
  | some r =>
    if (v.pocsManagers.get r).isEmpty
    then { v with pocsManagers := v.pocsManagers.removeAttribute op.m2mPocsPath } else v

/-! ## Ages of content instances -/

/-- The cancellation of the timer whose identifier is `oldTimerId`. -/
def CisChildCreateOp.cancelOldTimer (op : CisChildCreateOp) (v : Volatile) : Volatile :=
  match v.instanceAgeTimer.lookup op.path with
  | some oldTimerId => v.cancelTimer (some oldTimerId)
  | none => v

def CisChildCreateOp.prepare (op : CisChildCreateOp) (fault : Bool) (v : Volatile) :
    Bool × Fields × Volatile :=
  let v := op.cancelOldTimer v
  let delay := instanceAgeDelay op.lastCiCreationDate op.maxInstanceAge op.now
  match fault, v.startResourceTimer delay op.now op.path with
  | false, some (timerId, v) =>
    (true, { timerId := some timerId },
      { v with
        instanceAgeTimerId := v.instanceAgeTimerId.insert op.path timerId
        instanceAgeId := v.instanceAgeId.insert op.path op.lastCiId })
  | _, _ => (false, {}, v)

variable (op : CisChildDeleteOp)

/-- The instance that follows `child`, and the maximal age that its container gives; the error is
that one of them cannot be read. -/
def CisChildDeleteOp.next : Except Unit (Option (ContentInstance × Int)) :=
  match search storage op.path (fun ci => op.childResource.creationTime < ci.creationTime) 1 with
  | [] => .ok none
  | (_, lastCi) :: _ =>
    match storage.lookup op.path.dropLast with
    | some (.container c) => .ok (some (lastCi, c.maxInstanceAge.getD (-1)))
    | _ => .error ()

def CisChildDeleteOp.prepare (fault : Bool) (v : Volatile) :
    Bool × Fields × Volatile :=
  if v.instanceAgeId.lookup op.path = some op.childResource.id then
    let v := v.cancelTimer (v.instanceAgeTimerId.lookup op.path)
    match fault, op.next storage with
    | false, .ok none => (true, {}, v)
    | false, .ok (some (lastCi, maxInstanceAge)) =>
      match v.startResourceTimer (instanceAgeDelay lastCi.creationTime maxInstanceAge op.now) op.now
          op.path with
      | none => (false, {}, v)
      | some (timerId, v) =>
        (true, { timerId := some timerId },
          { v with
            instanceAgeTimer := v.instanceAgeTimer.insert op.path timerId
            instanceAgeId := v.instanceAgeId.insert op.path lastCi.id })
    -- the search or the timer service fails, and the old timer is gone
    | _, _ => (false, {}, v)
  else (true, {}, v)

/-- The `rollback` of the two operations on the age of instances. -/
def rollbackTimer (f : Fields) (v : Volatile) : Volatile :=
  match f.timerId with
  | some timerId => v.cancelTimer (some timerId)
  | none => v

/-! ## The interface of the operations -/

namespace TransientOp

/-- `prepare`, with whether it returns. -/
def prepare (op : TransientOp) (s : Preparation) : Bool × Fields × Preparation :=
  let fault := s.faults.headD false
  let s := { s with faults := s.faults.tail }
  let volatile (r : Bool × Fields × Volatile) : Bool × Fields × Preparation :=
    (r.1, r.2.1, { s with volatile := r.2.2 })
  match op with
  | subCreate op => volatile (op.prepare config fault s.volatile)
  | subDelete op => volatile (op.prepare it s.volatile)
  | subsDelete _ => (true, {}, s)
  | m2mPoc op => op.prepare storage fault s
  | cisChildCreate op => volatile (op.prepare fault s.volatile)
  | cisChildDelete op => volatile (op.prepare storage fault s.volatile)

def rollback (op : TransientOp) (f : Fields) (v : Volatile) : Volatile :=
  match op with
  | subCreate op => op.rollback it f v
  | subDelete op => op.rollback config f v
  | subsDelete _ => v
  | m2mPoc op => op.rollback f v
  | cisChildCreate _ | cisChildDelete _ => rollbackTimer f v

/-- `postCommit`; `none` when it throws. -/
def postCommit (op : TransientOp) (f : Fields) (v : Volatile) : Option Volatile :=
  match op with
  | subDelete op => op.postCommit f v
  | subsDelete op => some (op.postCommit v)
  | m2mPoc op => some (op.postCommit f v)
  | subCreate _ | cisChildCreate _ | cisChildDelete _ => some v

end TransientOp

section Interface

variable {config it storage} {s : Preparation} {r : Bool × Fields × Volatile}

theorem TransientOp.prepare_subCreate {op : SubCreateOp}
    (h : op.prepare config (s.faults.headD false) s.volatile = r) :
    (TransientOp.subCreate op).prepare config it storage s =
      (r.1, r.2.1, { s with faults := s.faults.tail, volatile := r.2.2 }) := by
  subst h
  rfl

theorem TransientOp.prepare_subDelete {op : SubDeleteOp} (h : op.prepare it s.volatile = r) :
    (TransientOp.subDelete op).prepare config it storage s =
      (r.1, r.2.1, { s with faults := s.faults.tail, volatile := r.2.2 }) := by
  subst h
  rfl

theorem TransientOp.prepare_cisChildCreate {op : CisChildCreateOp}
    (h : op.prepare (s.faults.headD false) s.volatile = r) :
    (TransientOp.cisChildCreate op).prepare config it storage s =
      (r.1, r.2.1, { s with faults := s.faults.tail, volatile := r.2.2 }) := by
  subst h
  rfl

theorem TransientOp.prepare_cisChildDelete {op : CisChildDeleteOp}
    (h : op.prepare storage (s.faults.headD false) s.volatile = r) :
    (TransientOp.cisChildDelete op).prepare config it storage s =
      (r.1, r.2.1, { s with faults := s.faults.tail, volatile := r.2.2 }) := by
  subst h
  rfl

end Interface

/-! ## The cases of the operations on subscriptions -/

theorem SubCreateOp.prepare_cases (config : SclConfig) (op : SubCreateOp) (fault : Bool)
    (v : Volatile) :
    ∃ r g, v.subsManagers.getOrCreate op.subsPath (.new op.dependsOnFilterCriteria) = (r, g) ∧
      ((∃ m shared,
          (g.get r).addSubscription config op.subId op.subscription v.shared = some (m, shared) ∧
          op.prepare config fault v =
            (true, { subsManager := some r, subManager := some op.subscription },
              { v with subsManagers := g.set r m, shared := shared })) ∨
        ∃ sub, op.prepare config fault v =
          (false, { subsManager := some r, subManager := sub }, { v with subsManagers := g })) := by
  unfold SubCreateOp.prepare
  generalize v.subsManagers.getOrCreate op.subsPath (.new op.dependsOnFilterCriteria) = created
  obtain ⟨r, g⟩ := created
  refine ⟨r, g, rfl, ?_⟩
  dsimp only
  split
  · exact .inr ⟨_, rfl⟩
  · split
    · exact .inr ⟨_, rfl⟩
    · next m shared hadd => exact .inl ⟨m, shared, hadd, rfl⟩

theorem SubDeleteOp.prepare_cases (it : IterationOrder) (op : SubDeleteOp) (v : Volatile) :
    v.subsManagers.getAttribute op.subsPath = none ∧ op.prepare it v = (false, {}, v) ∨
    ∃ r, v.subsManagers.getAttribute op.subsPath = some r ∧
      op.prepare it v =
        (true, { subsManager := some r, subManager := (v.subsManagers.get r).getSubscription op.subId },
          { v with
            subsManagers := v.subsManagers.set r
              ((v.subsManagers.get r).removeSubscription it op.subId v.shared).2.1
            shared := ((v.subsManagers.get r).removeSubscription it op.subId v.shared).2.2 }) := by
  unfold SubDeleteOp.prepare
  cases hp : v.subsManagers.getAttribute op.subsPath with
  | none => exact .inl ⟨rfl, rfl⟩
  | some r =>
    refine .inr ⟨r, rfl, ?_⟩
    rw [← (SubsManager.removeSubscription_spec it op.subId (v.subsManagers.get r) v.shared).1]

theorem SubDeleteOp.rollback_cases (config : SclConfig) (op : SubDeleteOp) (f : Fields)
    (v : Volatile) :
    op.rollback config f v = v ∨
    ∃ r sub m shared, f.subsManager = some r ∧ f.subManager = some sub ∧
      (v.subsManagers.get r).addSubscription config op.subId sub v.shared = some (m, shared) ∧
      op.rollback config f v =
        { v with subsManagers := v.subsManagers.set r m, shared := shared } := by
  unfold SubDeleteOp.rollback
  split
  · next r sub hr hs =>
    split
    · exact .inl rfl
    · next m shared hadd => exact .inr ⟨r, sub, m, shared, hr, hs, hadd, rfl⟩
  · exact .inl rfl

/-! ## The cases of the operations on the age of the instances -/

/-- What the preparation of a creation does: the timer of the next instance to expire is armed in
place of the recorded one, or it fails once the recorded one is cancelled. -/
theorem CisChildCreateOp.prepare_cases (op : CisChildCreateOp) (fault : Bool) (v : Volatile) :
    fault = false ∧ 0 ≤ instanceAgeDelay op.lastCiCreationDate op.maxInstanceAge op.now ∧
      op.prepare fault v = (true, { timerId := some (op.cancelOldTimer v).timers.next },
        { op.cancelOldTimer v with
          timers := (op.cancelOldTimer v).timers.start op.path
            (op.now + instanceAgeDelay op.lastCiCreationDate op.maxInstanceAge op.now)
          instanceAgeTimerId := (op.cancelOldTimer v).instanceAgeTimerId.insert op.path
            (op.cancelOldTimer v).timers.next
          instanceAgeId := (op.cancelOldTimer v).instanceAgeId.insert op.path op.lastCiId }) ∨
    ¬ (fault = false ∧ 0 ≤ instanceAgeDelay op.lastCiCreationDate op.maxInstanceAge op.now) ∧
      op.prepare fault v = (false, {}, op.cancelOldTimer v) := by
  unfold CisChildCreateOp.prepare
  dsimp only
  split
  · next timerId u hstart =>
    obtain ⟨hdelay, hu⟩ := startResourceTimer_eq_some.mp hstart
    cases hu
    exact .inl ⟨rfl, hdelay, rfl⟩
  · next hfails =>
    refine .inr ⟨fun h => ?_, rfl⟩
    exact hfails _ _ h.1 (startResourceTimer_eq_some.mpr ⟨h.2, rfl⟩)

/-- The timer of the next instance can be armed. -/
def CisChildDeleteOp.Starts (storage : Storage) (lastCi : ContentInstance)
    (maxInstanceAge : Int) : Prop :=
  op.next storage = .ok (some (lastCi, maxInstanceAge)) ∧
    0 ≤ instanceAgeDelay lastCi.creationTime maxInstanceAge op.now

/-- What the preparation of a deletion does: nothing for an instance that is not watched; else the
timer of the next instance is armed once the recorded one is cancelled, unless there is no next
instance or there is a failure. -/
theorem CisChildDeleteOp.prepare_cases (storage : Storage) (fault : Bool)
    (v : Volatile) :
    v.instanceAgeId.lookup op.path ≠ some op.childResource.id ∧
      op.prepare storage fault v = (true, {}, v) ∨
    v.instanceAgeId.lookup op.path = some op.childResource.id ∧
      ((∃ lastCi maxInstanceAge, fault = false ∧ op.Starts storage lastCi maxInstanceAge ∧
        op.prepare storage fault v = (true, { timerId := some v.timers.next },
          { v.cancelTimer (v.instanceAgeTimerId.lookup op.path) with
            timers := (v.cancelTimer (v.instanceAgeTimerId.lookup op.path)).timers.start op.path
              (op.now + instanceAgeDelay lastCi.creationTime maxInstanceAge op.now)
            instanceAgeTimer := v.instanceAgeTimer.insert op.path v.timers.next
            instanceAgeId := v.instanceAgeId.insert op.path lastCi.id })) ∨
      (fault = true ∨ ∀ lastCi maxInstanceAge, ¬ op.Starts storage lastCi maxInstanceAge) ∧
        op.prepare storage fault v =
          (decide (fault = false ∧ op.next storage = .ok none), {},
            v.cancelTimer (v.instanceAgeTimerId.lookup op.path))) := by
  unfold CisChildDeleteOp.prepare
  split
  case isFalse h => exact .inl ⟨h, rfl⟩
  case isTrue h =>
    refine .inr ⟨h, ?_⟩
    dsimp only
    split
    · next hnext =>
      refine .inr ⟨.inr ?_, by rw [hnext]; rfl⟩
      rintro lastCi age ⟨hlast, -⟩
      rw [hnext] at hlast
      cases hlast
    · next lastCi age hnext =>
      split
      · next hstart =>
        refine .inr ⟨.inr ?_, by rw [hnext]; rfl⟩
        rintro lastCi' age' ⟨hlast, hdelay⟩
        rw [hnext] at hlast
        cases hlast
        rw [startResourceTimer_eq_some.mpr ⟨hdelay, rfl⟩] at hstart
        cases hstart
      · next timerId u hstart =>
        obtain ⟨hdelay, hu⟩ := startResourceTimer_eq_some.mp hstart
        cases hu
        exact .inl ⟨lastCi, age, rfl, ⟨hnext, hdelay⟩, rfl⟩
    · next fault _ _ hnone hsome =>
      refine .inr ⟨?_, ?_⟩
      · by_cases hfault : fault = true
        · exact .inl hfault
        · refine .inr fun lastCi age hstarts => ?_
          exact hsome lastCi age (Bool.eq_false_iff.mpr hfault) hstarts.1
      · have hno : ¬ (fault = false ∧ op.next storage = .ok none) := fun h => hnone h.1 h.2
        rw [decide_eq_false hno]

/-! ## What an operation leaves alone -/

/-- The independent parts of the volatile state. -/
inductive Part
  | subscriptions | pocs | timers

/-- The two states have the same part. -/
def Volatile.Same (v w : Volatile) : Part → Prop
  | .subscriptions => w.subsManagers = v.subsManagers ∧ w.shared = v.shared
  | .pocs => w.pocsManagers = v.pocsManagers
  | .timers => w.timers = v.timers ∧ w.instanceAgeTimer = v.instanceAgeTimer ∧
      w.instanceAgeTimerId = v.instanceAgeTimerId ∧ w.instanceAgeId = v.instanceAgeId

/-- The part that an operation changes. -/
def TransientOp.part : TransientOp → Part
  | subCreate _ | subDelete _ | subsDelete _ => .subscriptions
  | m2mPoc _ => .pocs
  | cisChildCreate _ | cisChildDelete _ => .timers

/-- The fields of an operation that refer to a part. -/
def Fields.Empty (f : Fields) : Part → Prop
  | .subscriptions => f.subsManager = none ∧ f.subManager = none
  | .pocs => f.pocsManager = none
  | .timers => f.timerId = none

theorem Volatile.Same.refl (v : Volatile) (p : Part) : v.Same v p := by
  cases p
  · exact ⟨rfl, rfl⟩
  · rfl
  · exact ⟨rfl, rfl, rfl, rfl⟩

theorem Volatile.Same.trans {u v w : Volatile} {p : Part} (h : u.Same v p) (h' : v.Same w p) :
    u.Same w p := by
  cases p
  · exact ⟨h'.1.trans h.1, h'.2.trans h.2⟩
  · exact Eq.trans h' h
  · exact ⟨h'.1.trans h.1, h'.2.1.trans h.2.1, h'.2.2.1.trans h.2.2.1, h'.2.2.2.trans h.2.2.2⟩

section Frames

variable {config : SclConfig} {it : IterationOrder} {storage : Storage} {p : Part}

theorem Volatile.same_subscriptions (v : Volatile) (h : p ≠ .subscriptions)
    (g : Registry Path SubsManager) (sh : Shared) :
    v.Same { v with subsManagers := g, shared := sh } p := by
  cases p
  · exact absurd rfl h
  · rfl
  · exact ⟨rfl, rfl, rfl, rfl⟩

theorem Volatile.same_pocs (v : Volatile) (h : p ≠ .pocs) (g : Registry Path M2MPocsManager) :
    v.Same { v with pocsManagers := g } p := by
  cases p
  · exact ⟨rfl, rfl⟩
  · exact absurd rfl h
  · exact ⟨rfl, rfl, rfl, rfl⟩

theorem Volatile.same_timers (v : Volatile) (h : p ≠ .timers) (ts : Timers)
    (timer timerId : AList fun _ : Path => Nat) (id : AList fun _ : Path => String) :
    v.Same { v with
      timers := ts, instanceAgeTimer := timer, instanceAgeTimerId := timerId,
      instanceAgeId := id } p := by
  cases p
  · exact ⟨rfl, rfl⟩
  · rfl
  · exact absurd rfl h

theorem Fields.empty_of_subsManager (h : p ≠ .subscriptions) (r : Option Nat) (sub : Option Sub) :
    ({ subsManager := r, subManager := sub } : Fields).Empty p := by
  cases p
  · exact absurd rfl h
  · rfl
  · rfl

theorem Fields.empty_of_timerId (h : p ≠ .timers) (id : Option Nat) :
    ({ timerId := id } : Fields).Empty p := by
  cases p
  · exact ⟨rfl, rfl⟩
  · rfl
  · exact absurd rfl h

theorem SubCreateOp.prepare_same (op : SubCreateOp) (fault : Bool) (v : Volatile)
    (h : p ≠ .subscriptions) :
    v.Same (op.prepare config fault v).2.2 p ∧ (op.prepare config fault v).2.1.Empty p := by
  unfold SubCreateOp.prepare
  dsimp only
  split
  · exact ⟨v.same_subscriptions h _ v.shared, Fields.empty_of_subsManager h _ none⟩
  · split
    · exact ⟨v.same_subscriptions h _ v.shared, Fields.empty_of_subsManager h _ _⟩
    · exact ⟨v.same_subscriptions h _ _, Fields.empty_of_subsManager h _ _⟩

theorem SubDeleteOp.prepare_same (op : SubDeleteOp) (v : Volatile) (h : p ≠ .subscriptions) :
    v.Same (op.prepare it v).2.2 p ∧ (op.prepare it v).2.1.Empty p := by
  unfold SubDeleteOp.prepare
  split
  · exact ⟨.refl v p, Fields.empty_of_subsManager h none none⟩
  · exact ⟨v.same_subscriptions h _ _, Fields.empty_of_subsManager h _ _⟩

theorem M2MPocOp.prepare_spec (storage : Storage) (op : M2MPocOp) (fault : Bool)
    (s : Preparation) :
    (op.prepare storage fault s).2.1 =
        { pocsManager := some (s.volatile.pocsManagers.getOrCreate op.m2mPocsPath {}).1 } ∧
      (op.prepare storage fault s).2.2.volatile =
        { s.volatile with
          pocsManagers :=
            (s.volatile.pocsManagers.getOrCreate op.m2mPocsPath {}).2.set
              (s.volatile.pocsManagers.getOrCreate op.m2mPocsPath {}).1
              (((s.volatile.pocsManagers.getOrCreate op.m2mPocsPath {}).2.get
                (s.volatile.pocsManagers.getOrCreate op.m2mPocsPath {}).1).m2mPocOnlineStatusChanged
                op.oldOnlineStatus op.newOnlineStatus).1 } := by
  unfold M2MPocOp.prepare
  dsimp only
  split
  · exact ⟨rfl, rfl⟩
  · split <;> exact ⟨rfl, rfl⟩

theorem CisChildCreateOp.prepare_same (op : CisChildCreateOp) (fault : Bool) (v : Volatile)
    (h : p ≠ .timers) :
    v.Same (op.prepare fault v).2.2 p ∧ (op.prepare fault v).2.1.Empty p := by
  have hcancel : v.Same (op.cancelOldTimer v) p := by
    unfold CisChildCreateOp.cancelOldTimer
    split
    · exact v.same_timers h _ _ _ _
    · exact .refl v p
  unfold CisChildCreateOp.prepare
  generalize op.cancelOldTimer v = w at hcancel ⊢
  dsimp only
  split
  · next timerId u hstart =>
    cases (startResourceTimer_eq_some.mp hstart).2
    exact ⟨hcancel.trans (w.same_timers h _ _ _ _), Fields.empty_of_timerId h _⟩
  · exact ⟨hcancel, Fields.empty_of_timerId h none⟩

theorem CisChildDeleteOp.prepare_same (op : CisChildDeleteOp) (fault : Bool) (v : Volatile)
    (h : p ≠ .timers) :
    v.Same (op.prepare storage fault v).2.2 p ∧ (op.prepare storage fault v).2.1.Empty p := by
  unfold CisChildDeleteOp.prepare
  dsimp only
  split
  case isFalse => exact ⟨.refl v p, Fields.empty_of_timerId h none⟩
  case isTrue =>
    split
    · exact ⟨v.same_timers h _ _ _ _, Fields.empty_of_timerId h none⟩
    · split
      · exact ⟨v.same_timers h _ _ _ _, Fields.empty_of_timerId h none⟩
      · next timerId u hstart =>
        cases (startResourceTimer_eq_some.mp hstart).2
        exact ⟨v.same_timers h _ _ _ _, Fields.empty_of_timerId h _⟩
    · exact ⟨v.same_timers h _ _ _ _, Fields.empty_of_timerId h none⟩

/-- **The frame of a preparation.** -/
theorem TransientOp.prepare_same (op : TransientOp) (s : Preparation) (h : p ≠ op.part) :
    s.volatile.Same (op.prepare config it storage s).2.2.volatile p ∧
      (op.prepare config it storage s).2.1.Empty p := by
  cases op with
  | subCreate op | cisChildCreate op | cisChildDelete op => exact op.prepare_same _ _ h
  | subDelete op => exact op.prepare_same _ h
  | subsDelete op => exact ⟨.refl _ p, Fields.empty_of_subsManager h none none⟩
  | m2mPoc op =>
    obtain ⟨hf, hv⟩ := op.prepare_spec storage (s.faults.headD false)
      { s with faults := s.faults.tail }
    unfold TransientOp.prepare
    rw [hf, hv]
    refine ⟨s.volatile.same_pocs h _, ?_⟩
    cases p
    · exact ⟨rfl, rfl⟩
    · exact absurd rfl h
    · rfl

/-- **The frame of a rollback.** -/
theorem TransientOp.rollback_same (op : TransientOp) (f : Fields) (v : Volatile)
    (h : p ≠ op.part) : v.Same (op.rollback config it f v) p := by
  cases op with
  | subCreate op =>
    unfold TransientOp.rollback SubCreateOp.rollback
    dsimp only
    split
    · exact .refl v p
    · exact v.same_subscriptions h _ _
  | subDelete op =>
    unfold TransientOp.rollback SubDeleteOp.rollback
    dsimp only
    split
    · split
      · exact .refl v p
      · exact v.same_subscriptions h _ _
    · exact .refl v p
  | subsDelete op => exact .refl v p
  | m2mPoc op =>
    unfold TransientOp.rollback M2MPocOp.rollback
    dsimp only
    split
    · exact .refl v p
    · exact v.same_pocs h _
  | cisChildCreate op | cisChildDelete op =>
    unfold TransientOp.rollback rollbackTimer
    dsimp only
    split
    · exact v.same_timers h _ _ _ _
    · exact .refl v p

end Frames

end Ong.Scl
