import Ong.Lib.Run
import Ong.Scl.SubManager

/-!
# The runtime exceptions of a notifier

The error branches of `SubManager` format a message with the name of the state, from an array that
is indexed by the constant of the state.  The constants skip a number: that of `ST_DELETED` is
beyond the end of the array, and the branches for it throw.  Here the handlers are given once more
with the exceptions; what they leave in the record is what the handlers without exceptions leave.

## Main results

* `checkedStep_eq`: the events leave the same record, and throw exactly when they reach a deleted
  one
* `along_finishes_iff`: the runs without an exception
-/

namespace Ong.Scl

open M2M

/-- The value of the constant `ST_*`. -/
def SubState.constant : SubState → Nat
  | .waitingNotification => 0
  | .pendingNotify => 1
  | .pendingNotifyAndNotification => 2
  | .waitingMint => 3
  | .waitingRetry => 4
  | .expiringPendingNotifyWaitingRetry => 5
  | .deletingPendingNotifyWaitingRetry => 6
  | .expiringWaitingRetry => 7
  | .deletingWaitingRetry => 8
  | .expiringPendingNotify => 9
  | .deletingPendingNotify => 10
  | .expiring => 11
  | .deleting => 12
  -- 13 is left out in the source
  | .deleted => 14

def ST_NAMES : List String :=
  ["ST_WAITING_NOTIFICATION", "ST_PENDING_NOTIFY", "ST_PENDING_NOTIFY_AND_NOTIFICATION",
    "ST_WAITING_MINT", "ST_WAITING_RETRY", "ST_EXPIRING_PENDING_NOTIFY_WAITING_RETRY",
    "ST_DELETING_PENDING_NOTIFY_WAITING_RETRY", "ST_EXPIRING_WAITING_RETRY",
    "ST_DELETING_WAITING_RETRY", "ST_EXPIRING_PENDING_NOTIFY", "ST_DELETING_PENDING_NOTIFY",
    "ST_EXPIRING", "ST_DELETING", "ST_DELETED"]

/-- The runtime exceptions: of an array access, and of a method called on `null`. -/
inductive RuntimeFailure
  | arrayIndexOutOfBounds | nullPointer

/-- What a handler ends with: the record, and the exception if one is thrown. -/
abbrev Reply := SubManager × Option RuntimeFailure

namespace SubManager

/-! ## The handlers with the exceptions -/

namespace Checked

def done (s : SubManager) : Reply := (s, none)

/-- What follows, unless an exception was thrown. -/
def andThen (r : Reply) (f : SubManager → Reply) : Reply :=
  match r with
  | (s, none) => f s
  | (s, some e) => (s, some e)

/-- `LOG.error(... + ST_NAMES[state])` -/
def logState (s : SubManager) : Reply :=
  match ST_NAMES[s.state.constant]? with
  | some _ => (s, none)
  | none => (s, some .arrayIndexOutOfBounds)

def sendNotifyWith (retry : SubManager → Outcome → Reply) (status : StatusCode)
    (content : Option Nat) (s : SubManager) (o : Outcome) : Reply :=
  let s := { s with pendingLastSuccessRequestTime := o.attempt.now }
  if o.attempt.send then done (s.sendRequest status content) else retry s o.next

def retrieveAndSendNotifyWith (retry : SubManager → Outcome → Reply) (s : SubManager)
    (o : Outcome) : Reply :=
  match o.attempt.representation with
  | .bytes => sendNotifyWith retry .ok (some s.updates) { s with state := .pendingNotify } o
  | .null => done { s with state := .waitingNotification }
  | .exception => retry s o.next

def retryWith (retrieveAndSendNotify : SubManager → Outcome → Reply) (s : SubManager)
    (o : Outcome) : Reply :=
  if s.nbRetry < maxNbOfRetries then
    andThen
      (match s.state with
      | .pendingNotify | .pendingNotifyAndNotification => done { s with state := .waitingRetry }
      | .expiringPendingNotify => done { s with state := .expiringPendingNotifyWaitingRetry }
      | .deletingPendingNotify => done { s with state := .deletingPendingNotifyWaitingRetry }
      | .expiring => done { s with state := .expiringWaitingRetry }
      | .deleting => done { s with state := .deletingWaitingRetry }
      | _ => logState s)
      fun s => done ({ s with nbRetry := s.nbRetry + 1 }.startTimer .retry RETRY_TIMER)
  else
    match s.state with
    | .pendingNotify => done { s with nbRetry := 0, state := .waitingNotification }
    | .pendingNotifyAndNotification =>
      retrieveAndSendNotify { s with nbRetry := 0, state := .pendingNotify } o
    | .expiringPendingNotify => done { s with nbRetry := 0, state := .expiring }
    | .deletingPendingNotify => done { s with nbRetry := 0, state := .deleting }
    | .expiring | .deleting => done { s with nbRetry := 0, state := .deleted }
    | _ => logState s

/-- `retry`; as without the exceptions, two levels of the mutual recursion are all it has. -/
def retry : SubManager → Outcome → Reply :=
  retryWith (retrieveAndSendNotifyWith (retryWith fun s _ => done s))

def retrieveAndSendNotify : SubManager → Outcome → Reply :=
  retrieveAndSendNotifyWith retry

def sendNotify : StatusCode → Option Nat → SubManager → Outcome → Reply :=
  sendNotifyWith retry

def sendErrorNotify (status : StatusCode) (s : SubManager) (o : Outcome) : Reply :=
  if o.errorInfo then sendNotify status none s o else done s

def deleteAndSendExpired (s : SubManager) (o : Outcome) : Reply :=
  if o.delete then sendErrorNotify .expired s o else retry s o

def subscriptionExpired (s : SubManager) (o : Outcome) : Reply :=
  match s.state with
  | .waitingNotification => deleteAndSendExpired { s with state := .expiring } o
  | .pendingNotify | .pendingNotifyAndNotification =>
    deleteAndSendExpired { s with nbRetry := 0, state := .expiringPendingNotify } o
  | .waitingMint | .waitingRetry =>
    deleteAndSendExpired ({ s with nbRetry := 0, state := .expiring }.cancelTimer s.timerId) o
  | _ => logState s

def subscriptionDeleted (s : SubManager) : Reply :=
  match s.state with
  | .waitingNotification => done { s.cancelExpirationTimer with state := .deleted }
  | .pendingNotify | .pendingNotifyAndNotification =>
    done { s.cancelExpirationTimer with state := .deleting }
  | .waitingMint | .waitingRetry =>
    done { s.cancelExpirationTimer.cancelTimer s.timerId with state := .deleted }
  | .deleted => logState s
  | _ => done s

variable (now : Int)

/-- `resourceUpdated(now)`, with the `boolean` it returns unless it throws. -/
def resourceUpdated (s : SubManager) : Bool × Reply :=
  match s.state with
  | .waitingNotification =>
    let next := toLong (s.lastSuccessConfirmTime + s.minimalTimeBetweenNotifications)
    if now > next then (true, done { s with state := .pendingNotify })
    else
      (false, done ({ s with state := .waitingMint }.startTimer .mint (toLong (next - now))))
  | .pendingNotify | .pendingNotifyAndNotification =>
    (false, done { s with nbRetry := -1, state := .pendingNotifyAndNotification })
  | .waitingMint => (false, done s)
  | .waitingRetry => (false, done { s with nbRetry := -1 })
  | _ => (false, logState s)

def notifyUpdate (prepared : Bool) (s : SubManager) (o : Outcome) : Reply :=
  let (sendNotify, r) := resourceUpdated now { s with updates := s.updates + 1 }
  andThen r fun s =>
    if sendNotify ∧ prepared then Checked.sendNotify .ok (some s.updates) s o else done s

def resourceDeleted (s : SubManager) (o : Outcome) : Reply :=
  match s.state with
  | .waitingNotification =>
    sendErrorNotify .deleted { s.cancelExpirationTimer with state := .deleting } o
  | .pendingNotify | .pendingNotifyAndNotification =>
    sendErrorNotify .deleted
      { s.cancelExpirationTimer with nbRetry := 0, state := .deletingPendingNotify } o
  | .waitingMint | .waitingRetry =>
    sendErrorNotify .deleted
      { s.cancelExpirationTimer.cancelTimer s.timerId with nbRetry := 0, state := .deleting } o
  | _ => logState s

/-- `if (expirationTimerId != null && timerId.equals(expirationTimerId)) ... else ...` -/
def ifExpirationTimer (timerId : Option Nat) (s : SubManager) (expiration other : Reply) : Reply :=
  match s.expirationTimerId, timerId with
  | none, _ => other
  | some _, none => (s, some .nullPointer)
  | some expirationTimerId, some timerId => if timerId = expirationTimerId then expiration else other

def timeout (timerId : Option Nat) (s : SubManager) (o : Outcome) : Reply :=
  match s.state with
  | .waitingNotification | .pendingNotify | .pendingNotifyAndNotification =>
    ifExpirationTimer timerId s (subscriptionExpired s o) (logState s)
  | .waitingMint | .waitingRetry =>
    ifExpirationTimer timerId s (subscriptionExpired s o)
      (retrieveAndSendNotify { s with state := .pendingNotify } o)
  | .expiringPendingNotifyWaitingRetry =>
    ifExpirationTimer timerId s (logState s)
      (deleteAndSendExpired { s with state := .expiringPendingNotify } o)
  | .deletingPendingNotifyWaitingRetry =>
    ifExpirationTimer timerId s (logState s)
      (sendErrorNotify .deleted { s with state := .deletingPendingNotify } o)
  | .expiringWaitingRetry =>
    ifExpirationTimer timerId s (logState s) (deleteAndSendExpired { s with state := .expiring } o)
  | .deletingWaitingRetry =>
    ifExpirationTimer timerId s (logState s) (sendErrorNotify .deleted { s with state := .deleting } o)
  | _ => logState s

def doSuccessConfirm (s : SubManager) (o : Outcome) : Reply :=
  match s.state with
  | .pendingNotify =>
    done { s with lastSuccessConfirmTime := now, nbRetry := 0, state := .waitingNotification }
  | .pendingNotifyAndNotification =>
    let s : SubManager := { s with lastSuccessConfirmTime := now, nbRetry := 0 }
    if s.minimalTimeBetweenNotifications ≤ 0 then
      retrieveAndSendNotify { s with state := .pendingNotify } o
    else
      done ({ s with state := .waitingMint }.startTimer .mint s.minimalTimeBetweenNotifications)
  | .expiringPendingNotifyWaitingRetry => done { s with state := .expiringWaitingRetry }
  | .deletingPendingNotifyWaitingRetry => done { s with state := .deletingWaitingRetry }
  | .expiringPendingNotify => done { s with state := .expiring }
  | .deletingPendingNotify => done { s with state := .deleting }
  | .expiring | .deleting => done { s with state := .deleted }
  | _ => logState s

def endNotify (request code : StatusCode) (after : SubState) (s : SubManager) (o : Outcome) : Reply :=
  if request ≠ .ok ∧ retryable code then retry s o else done { s with state := after }

def doUnsuccessConfirm (request code : StatusCode) (deletion : Bool) (s : SubManager)
    (o : Outcome) : Reply :=
  match s.state with
  | .pendingNotify | .pendingNotifyAndNotification =>
    if retryable code then retry s o
    else if deletion then subscriptionDeleted s else retry s o
  | .expiringPendingNotifyWaitingRetry => done { s with state := .deletingWaitingRetry }
  | .deletingPendingNotifyWaitingRetry => done { s with state := .deletingWaitingRetry }
  | .expiringPendingNotify => endNotify request code .expiring s o
  | .deletingPendingNotify => endNotify request code .deleting s o
  | .expiring | .deleting => endNotify request code .deleted s o
  | _ => logState s

def startExpirationTimer (s : SubManager) (o : Outcome) : Reply :=
  let s := s.clearExpirationTimer
  if 0 < s.expirationTime ∧ s.expirationTime < MAX_DATE then
    if s.expirationTime > now then
      done { s with
        timers := ⟨s.nextTimer, .expiration, s.expirationTime - now⟩ :: s.timers
        nextTimer := s.nextTimer + 1
        expirationTimerId := some s.nextTimer }
    else subscriptionExpired s o
  else done s

end Checked

/-- The events, with the exceptions.  The M2M layer gives the identifier of the timer with a
timeout. -/
def checkedStep (s : SubManager) : Event → Option Reply
  | .resourceUpdated now prepared o => some (Checked.notifyUpdate now prepared s o)
  | .retrieveAndSendNotify o =>
    if s.state = .waitingNotification then some (Checked.retrieveAndSendNotify s o) else none
  | .successConfirm request now o =>
    (s.requests.find? fun r => r.id = request).map fun r =>
      Checked.doSuccessConfirm now ((s.takeConfirm r).noteConfirmed r) o
  | .unsuccessConfirm request code deletion o =>
    (s.requests.find? fun r => r.id = request).map fun r =>
      Checked.doUnsuccessConfirm r.status code deletion (s.takeConfirm r) o
  | .timeout timer o =>
    if ∃ t ∈ s.timers, t.id = timer then
      some (Checked.timeout (some timer) (s.cancelTimer (some timer)) o)
    else none
  | .subscriptionExpired o => some (Checked.subscriptionExpired s o)
  | .subscriptionDeleted => some (Checked.subscriptionDeleted s)
  | .resourceDeleted o => some (Checked.resourceDeleted s o)
  | .subscriptionUpdated minimalTime expiration =>
    some (Checked.done (s.subscriptionUpdated minimalTime expiration))
  | .startExpirationTimer now o => some (Checked.startExpirationTimer now s o)

/-- The event is one that a deleted notifier logs, and the notifier is deleted.  An update of the
subscription is not logged, and neither is a start of the expiration timer with a time to come. -/
def ReachesDeleted (s : SubManager) (e : Event) : Prop :=
  s.state = .deleted ∧
    match e with
    | .subscriptionUpdated _ _ => False
    | .startExpirationTimer now _ =>
      0 < s.expirationTime ∧ s.expirationTime < MAX_DATE ∧ s.expirationTime ≤ now
    | _ => True

instance (s : SubManager) (e : Event) : Decidable (ReachesDeleted s e) := by
  cases e <;> unfold ReachesDeleted <;> infer_instance

/-! ## The records are the same -/

namespace Checked

variable {s : SubManager} {o : Outcome}

theorem logState_of_ne (h : s.state ≠ .deleted) : logState s = done s := by
  unfold logState
  cases hs : s.state <;> first | rfl | exact absurd hs h

theorem logState_deleted (h : s.state = .deleted) :
    logState s = (s, some .arrayIndexOutOfBounds) := by
  unfold logState
  rw [h]
  rfl

section

variable {f : SubManager → Outcome → Reply} {g : SubManager → Outcome → SubManager}
  (hf : ∀ s o, s.state ≠ .deleted → f s o = done (g s o)) (h : s.state ≠ .deleted)

include hf h

theorem retryWith_eq : retryWith f s o = done (SubManager.retryWith g s o) := by
  unfold retryWith SubManager.retryWith
  split
  · rw [logState_of_ne h]
    cases hs : s.state <;> simp only [done, andThen, retryState] <;> rw [← hs]
  · cases hs : s.state with
    | pendingNotifyAndNotification => exact hf _ _ (by simp)
    | deleted => exact absurd hs h
    | _ => first | rfl | exact logState_of_ne h

theorem sendNotifyWith_eq (status : StatusCode) (content : Option Nat) :
    sendNotifyWith f status content s o = done (SubManager.sendNotifyWith g status content s o) := by
  unfold sendNotifyWith SubManager.sendNotifyWith
  split
  · rfl
  · exact hf _ _ h

theorem retrieveAndSendNotifyWith_eq :
    retrieveAndSendNotifyWith f s o = done (SubManager.retrieveAndSendNotifyWith g s o) := by
  unfold retrieveAndSendNotifyWith SubManager.retrieveAndSendNotifyWith
  cases o.attempt.representation with
  | bytes => exact sendNotifyWith_eq hf (by simp) _ _
  | null => rfl
  | exception => exact hf _ _ h

end

section

variable (h : s.state ≠ .deleted)

include h

/-- **Retrying** throws nothing, unless the notifier is deleted. -/
theorem retry_eq : retry s o = done (s.retry o) := by
  refine retryWith_eq (fun s o h => retrieveAndSendNotifyWith_eq (fun s o h => ?_) h) h
  exact retryWith_eq (fun s o _ => rfl) h

theorem retrieveAndSendNotify_eq : retrieveAndSendNotify s o = done (s.retrieveAndSendNotify o) :=
  retrieveAndSendNotifyWith_eq (fun _ _ => retry_eq) h

theorem sendNotify_eq (status : StatusCode) (content : Option Nat) :
    sendNotify status content s o = done (s.sendNotify status content o) :=
  sendNotifyWith_eq (fun _ _ => retry_eq) h status content

theorem sendErrorNotify_eq (status : StatusCode) :
    sendErrorNotify status s o = done (s.sendErrorNotify status o) := by
  unfold sendErrorNotify SubManager.sendErrorNotify
  split
  · exact sendNotify_eq h _ _
  · rfl

theorem deleteAndSendExpired_eq : deleteAndSendExpired s o = done (s.deleteAndSendExpired o) := by
  unfold deleteAndSendExpired SubManager.deleteAndSendExpired
  split
  · exact sendErrorNotify_eq h _
  · exact retry_eq h

end

/-- The reply of a handler that logs in a deleted notifier and throws nothing else. -/
def throwsIfDeleted (s t : SubManager) : Reply :=
  (t, if s.state = .deleted then some .arrayIndexOutOfBounds else none)

theorem throwsIfDeleted_of_ne {t : SubManager} (h : s.state ≠ .deleted) :
    throwsIfDeleted s t = done t := by
  rw [throwsIfDeleted, if_neg h, done]

theorem logState_eq : logState s = throwsIfDeleted s s := by
  by_cases h : s.state = .deleted
  · rw [logState_deleted h, throwsIfDeleted, if_pos h]
  · rw [logState_of_ne h, throwsIfDeleted_of_ne h]

theorem subscriptionExpired_eq :
    subscriptionExpired s o = throwsIfDeleted s (s.subscriptionExpired o) := by
  unfold subscriptionExpired SubManager.subscriptionExpired
  cases hs : s.state with
  | waitingNotification | pendingNotify | pendingNotifyAndNotification | waitingMint | waitingRetry =>
    rw [throwsIfDeleted_of_ne (by simp [hs])]
    exact deleteAndSendExpired_eq (by simp [cancelTimer])
  | _ => exact logState_eq

theorem subscriptionDeleted_eq :
    subscriptionDeleted s = throwsIfDeleted s s.subscriptionDeleted := by
  unfold subscriptionDeleted SubManager.subscriptionDeleted
  cases hs : s.state with
  | deleted => exact logState_eq
  | _ => exact (throwsIfDeleted_of_ne (by simp [hs])).symm

theorem notifyUpdate_eq (now : Int) (prepared : Bool) :
    notifyUpdate now prepared s o = throwsIfDeleted s (s.notifyUpdate now prepared o) := by
  unfold notifyUpdate SubManager.notifyUpdate resourceUpdated SubManager.resourceUpdated
  cases hs : s.state with
  | waitingNotification =>
    rw [throwsIfDeleted_of_ne (by simp [hs])]
    dsimp only
    split
    · cases prepared with
      | true => exact sendNotify_eq (by simp) _ _
      | false => rfl
    · rfl
  | deleted =>
    rw [logState_deleted rfl, throwsIfDeleted, if_pos hs]
    rfl
  | _ =>
    rw [throwsIfDeleted_of_ne (by simp [hs])]
    rfl

theorem resourceDeleted_eq :
    resourceDeleted s o = throwsIfDeleted s (s.resourceDeleted o) := by
  unfold resourceDeleted SubManager.resourceDeleted
  cases hs : s.state with
  | waitingNotification | pendingNotify | pendingNotifyAndNotification | waitingMint | waitingRetry =>
    rw [throwsIfDeleted_of_ne (by simp [hs])]
    exact sendErrorNotify_eq (by simp) _
  | _ => exact logState_eq

theorem ifExpirationTimer_some (timer : Nat) (s : SubManager) (expiration other : Reply) :
    ifExpirationTimer (some timer) s expiration other =
      if s.expirationTimerId = some timer then expiration else other := by
  unfold ifExpirationTimer
  cases hs : s.expirationTimerId with
  | none => simp
  | some id => simp [eq_comm]

theorem timeout_eq (timer : Nat) :
    timeout (some timer) s o = throwsIfDeleted s (s.timeout timer o) := by
  unfold timeout SubManager.timeout
  simp only [ifExpirationTimer_some]
  by_cases hexpiration : s.expirationTimerId = some timer
  · simp only [if_pos hexpiration]
    cases hs : s.state with
    | waitingNotification | pendingNotify | pendingNotifyAndNotification | waitingMint
    | waitingRetry => exact subscriptionExpired_eq
    | _ => exact logState_eq
  · simp only [if_neg hexpiration]
    cases hs : s.state with
    | waitingMint | waitingRetry =>
      rw [throwsIfDeleted_of_ne (by simp [hs])]
      exact retrieveAndSendNotify_eq (by simp)
    | expiringPendingNotifyWaitingRetry | expiringWaitingRetry =>
      rw [throwsIfDeleted_of_ne (by simp [hs])]
      exact deleteAndSendExpired_eq (by simp)
    | deletingPendingNotifyWaitingRetry | deletingWaitingRetry =>
      rw [throwsIfDeleted_of_ne (by simp [hs])]
      exact sendErrorNotify_eq (by simp) _
    | _ => exact logState_eq

theorem doSuccessConfirm_eq (now : Int) :
    doSuccessConfirm now s o = throwsIfDeleted s (s.doSuccessConfirm now o) := by
  unfold doSuccessConfirm SubManager.doSuccessConfirm
  cases hs : s.state with
  | waitingNotification | waitingMint | waitingRetry | expiringWaitingRetry | deletingWaitingRetry
  | deleted => exact logState_eq
  | pendingNotifyAndNotification =>
    rw [throwsIfDeleted_of_ne (by simp [hs])]
    dsimp only
    split
    · exact retrieveAndSendNotify_eq (by simp)
    · rfl
  | _ => exact (throwsIfDeleted_of_ne (by simp [hs])).symm

theorem endNotify_eq (h : s.state ≠ .deleted) (request code : StatusCode) (after : SubState) :
    endNotify request code after s o = done (s.endNotify request code after o) := by
  unfold endNotify SubManager.endNotify
  split
  · exact retry_eq h
  · rfl

theorem doUnsuccessConfirm_eq (request code : StatusCode) (deletion : Bool) :
    doUnsuccessConfirm request code deletion s o =
      throwsIfDeleted s (s.doUnsuccessConfirm request code deletion o) := by
  unfold doUnsuccessConfirm SubManager.doUnsuccessConfirm
  cases hs : s.state with
  | waitingNotification | waitingMint | waitingRetry | expiringWaitingRetry | deletingWaitingRetry
  | deleted => exact logState_eq
  | pendingNotify | pendingNotifyAndNotification =>
    have hne : s.state ≠ .deleted := by simp [hs]
    rw [throwsIfDeleted_of_ne hne]
    dsimp only
    split
    · exact retry_eq hne
    · split
      · rw [subscriptionDeleted_eq, throwsIfDeleted_of_ne hne]
      · exact retry_eq hne
  | expiringPendingNotifyWaitingRetry | deletingPendingNotifyWaitingRetry =>
    exact (throwsIfDeleted_of_ne (by simp [hs])).symm
  | _ =>
    have hne : s.state ≠ .deleted := by simp [hs]
    rw [throwsIfDeleted_of_ne hne]
    exact endNotify_eq hne _ _ _

theorem state_clearExpirationTimer (s : SubManager) :
    s.clearExpirationTimer.state = s.state ∧
      s.clearExpirationTimer.expirationTime = s.expirationTime := by
  unfold clearExpirationTimer cancelExpirationTimer
  split <;> exact ⟨rfl, rfl⟩

end Checked

section Runs

variable {s : SubManager} {e : Event}

/-- **The events leave the same record** with and without the exceptions, and throw exactly when a
deleted notifier logs them. -/
theorem checkedStep_eq (s : SubManager) (e : Event) :
    checkedStep s e = (step s e).map fun t =>
      (t, if ReachesDeleted s e then some .arrayIndexOutOfBounds else none) := by
  have hreply : ∀ (r : Reply) (t u : SubManager), r = Checked.throwsIfDeleted u t → u.state = s.state →
      (ReachesDeleted s e ↔ s.state = .deleted) →
        r = (t, if ReachesDeleted s e then some RuntimeFailure.arrayIndexOutOfBounds else none) := by
    intro r t u hr hu hreaches
    rw [hr, Checked.throwsIfDeleted, hu]
    simp only [hreaches]
  cases e with
  | resourceUpdated now prepared o =>
    exact congrArg some
      (hreply _ _ s (Checked.notifyUpdate_eq now prepared) rfl (by simp [ReachesDeleted]))
  | retrieveAndSendNotify o =>
    unfold checkedStep step
    dsimp only
    by_cases hs : s.state = .waitingNotification
    · rw [if_pos hs, if_pos hs, Checked.retrieveAndSendNotify_eq (by simp [hs])]
      simp [Checked.done, ReachesDeleted, hs]
    · rw [if_neg hs, if_neg hs]
      rfl
  | successConfirm request now o =>
    unfold checkedStep step
    rw [Option.map_map]
    refine congrArg (fun f => Option.map f _) (funext fun r => ?_)
    exact hreply _ _ _ (Checked.doSuccessConfirm_eq now) rfl (by simp [ReachesDeleted])
  | unsuccessConfirm request code deletion o =>
    unfold checkedStep step
    rw [Option.map_map]
    refine congrArg (fun f => Option.map f _) (funext fun r => ?_)
    exact hreply _ _ _ (Checked.doUnsuccessConfirm_eq r.status code deletion) rfl
      (by simp [ReachesDeleted])
  | timeout timer o =>
    unfold checkedStep step
    dsimp only
    by_cases harmed : ∃ t ∈ s.timers, t.id = timer
    · rw [if_pos harmed, if_pos harmed]
      exact congrArg some (hreply _ _ _ (Checked.timeout_eq timer) rfl (by simp [ReachesDeleted]))
    · rw [if_neg harmed, if_neg harmed]
      rfl
  | subscriptionExpired o =>
    exact congrArg some (hreply _ _ s Checked.subscriptionExpired_eq rfl (by simp [ReachesDeleted]))
  | subscriptionDeleted =>
    exact congrArg some (hreply _ _ s Checked.subscriptionDeleted_eq rfl (by simp [ReachesDeleted]))
  | resourceDeleted o =>
    exact congrArg some (hreply _ _ s Checked.resourceDeleted_eq rfl (by simp [ReachesDeleted]))
  | subscriptionUpdated minimalTime expiration =>
    exact congrArg some (by simp [Checked.done, ReachesDeleted])
  | startExpirationTimer now o =>
    obtain ⟨hstate, htime⟩ := Checked.state_clearExpirationTimer s
    refine congrArg some ?_
    unfold Checked.startExpirationTimer startExpirationTimer
    dsimp only
    rw [htime]
    by_cases hbounds : 0 < s.expirationTime ∧ s.expirationTime < MAX_DATE
    · rw [if_pos hbounds, if_pos hbounds]
      by_cases hnow : s.expirationTime > now
      · rw [if_pos hnow, if_pos hnow, if_neg (by simp only [ReachesDeleted]; omega)]
        rfl
      · rw [if_neg hnow, if_neg hnow]
        exact hreply _ _ _ Checked.subscriptionExpired_eq hstate
          ⟨fun h => h.1, fun h => ⟨h, hbounds.1, hbounds.2, Int.not_lt.mp hnow⟩⟩
    · rw [if_neg hbounds, if_neg hbounds, if_neg (by simp only [ReachesDeleted]; tauto)]
      rfl

/-- The record that an event leaves, whether it throws or not. -/
def leaves (s : SubManager) (e : Event) : Option SubManager := (checkedStep s e).map (·.1)

theorem leaves_eq : leaves = step := by
  funext s e
  rw [leaves, checkedStep_eq]
  cases step s e <;> rfl

/-- The handler of the event finishes without an exception. -/
def Finishes (s : SubManager) (e : Event) : Prop := ∀ r ∈ checkedStep s e, r.2 = none

theorem finishes_iff {t : SubManager} (h : step s e = some t) :
    Finishes s e ↔ ¬ ReachesDeleted s e := by
  unfold Finishes
  rw [checkedStep_eq, h, Option.map_some]
  simp

/-- **The runs without an exception** are those in which no event reaches a deleted notifier that
logs it. -/
theorem along_finishes_iff (s : SubManager) (es : List Event) :
    Run.Along leaves Finishes s es ↔ Run.Along leaves (fun s e => ¬ ReachesDeleted s e) s es := by
  rw [leaves_eq]
  induction es generalizing s with
  | nil => exact Iff.rfl
  | cons e es ih =>
    refine forall_congr' fun t => forall_congr' fun hstep => ?_
    rw [finishes_iff hstep, ih]

end Runs

instance (s : SubManager) (e : Event) : Decidable (Finishes s e) :=
  inferInstanceAs (Decidable (∀ _ ∈ _, _))

/-- The first notify fails, the subscription is deleted, and the timer of the retry, which nothing
cancelled, fires. -/
theorem stale_retry_throws : ¬ ∀ es, Run.Along leaves Finishes ({} : SubManager) es := by
  intro h
  have := h [.retrieveAndSendNotify { attempts := [{ representation := .exception }] },
    .subscriptionDeleted, .timeout 0 {}]
  revert this
  decide

end SubManager

end Ong.Scl
