import Mathlib.Data.List.Basic
import Ong.M2M.Basic

/-!
# The notifier of one subscription

`SubManager` keeps a subscription informed of the updates of a resource: it sends a NOTIFY when
the resource changes, no more often than the minimal interval allows, retries the ones that fail,
and sends a last error NOTIFY when the subscription expires or the resource is deleted.

The state is the record of the class together with what the M2M context holds for it: its armed
timers and the requests it has sent.  What the code asks of the outside (the representation of
the resource, the sending of a request, a storage access) is answered by an `Outcome`, one answer
for each time the code asks; exceptions are the checked ones that the code declares.

The error branches of `ST_DELETED` format a message with `ST_NAMES[14]`, beyond the end of the
array: the exception leaves the record as it is, which is what these branches do here.

The filter criteria that `doSuccessConfirm` moves forward when the resource depends on them are
not part of this record.

## Main results

* `retry_eq`, `retrieveAndSendNotify_eq`: the two functions satisfy the mutual recursion of the
  source, which ends because giving up clears `nbRetry`
-/

namespace Ong.Scl

open M2M

/-- The constants `ST_*`. -/
inductive SubState
  | waitingNotification
  | pendingNotify
  | pendingNotifyAndNotification
  | waitingMint
  | waitingRetry
  | expiringPendingNotifyWaitingRetry
  | deletingPendingNotifyWaitingRetry
  | expiringWaitingRetry
  | deletingWaitingRetry
  | expiringPendingNotify
  | deletingPendingNotify
  | expiring
  | deleting
  | deleted
  deriving DecidableEq

/-- Which call armed a timer.  The code does not see it: it compares identifiers. -/
inductive TimerKind
  | expiration | mint | retry
  deriving DecidableEq

/-- A timer armed in the M2M context with the notifier as its information. -/
structure Timer where
  id : Nat
  kind : TimerKind
  delay : Int
  deriving DecidableEq

/-- A NOTIFY request: `status` is its attribute `AT_STATUS`, `content` says, for a `STATUS_OK`
notify, how many updates the resource had received when the representation was read. -/
structure Notify where
  id : Nat
  status : StatusCode
  content : Option Nat
  deriving DecidableEq

/-- The fields of `SubManager`, the timers armed for it, its requests (`requests` those without a
confirm yet, `sent` all of them, the last first), the number of updates of the resource it was
told of, and the content of the last `STATUS_OK` notify that was confirmed with success. -/
structure SubManager where
  state : SubState := .waitingNotification
  nbRetry : Int := 0
  timerId : Option Nat := none
  expirationTimerId : Option Nat := none
  pendingLastSuccessRequestTime : Int := 0
  lastSuccessConfirmTime : Int := 0
  minimalTimeBetweenNotifications : Int := 0
  expirationTime : Int := 0
  timers : List Timer := []
  nextTimer : Nat := 0
  requests : List Notify := []
  sent : List Notify := []
  updates : Nat := 0
  confirmed : Option Nat := none
  deriving DecidableEq

/-- What `getResponseRepresentation` gives. -/
inductive Representation
  | bytes | null | exception
  deriving DecidableEq

/-- The answers to one attempt: the representation, whether the request is built and sent without
an `IOException`, `XoException` or `M2MException`, and the time read by `sendNotify`. -/
structure Attempt where
  representation : Representation := .bytes
  send : Bool := true
  now : Int := 0
  deriving DecidableEq

/-- The answers to one event: whether the storage deletes the subscription, whether the error
info of an error notify is built, and one answer for each attempt to notify. -/
structure Outcome where
  delete : Bool := true
  errorInfo : Bool := true
  attempts : List Attempt := []
  deriving DecidableEq

def Outcome.attempt (o : Outcome) : Attempt := o.attempts.headD {}

def Outcome.next (o : Outcome) : Outcome := { o with attempts := o.attempts.tail }

namespace SubManager

/-- `RETRY_TIMER`, in milliseconds. -/
def RETRY_TIMER : Int := 10000

/-- The number of retries after which a notification is given up. -/
def maxNbOfRetries : Int := 3

def MAX_DATE : Int := 253402246799999

/-! ## The M2M context -/

/-- `timerId = startTimer(delay, this)`. -/
def startTimer (kind : TimerKind) (delay : Int) (s : SubManager) : SubManager :=
  { s with
    timers := ⟨s.nextTimer, kind, delay⟩ :: s.timers
    nextTimer := s.nextTimer + 1
    timerId := some s.nextTimer }

def cancelTimer (id : Option Nat) (s : SubManager) : SubManager :=
  { s with timers := s.timers.filter fun t => some t.id ≠ id }

/-- The request of `sendNotify`, once it is sent. -/
def sendRequest (status : StatusCode) (content : Option Nat) (s : SubManager) : SubManager :=
  let request : Notify := ⟨s.sent.length, status, content⟩
  { s with requests := request :: s.requests, sent := request :: s.sent }

/-! ## Sending and retrying

`retry` and `retrieveAndSendNotify` call each other.  Each is given first with the other as a
parameter. -/

def sendNotifyWith (retry : SubManager → Outcome → SubManager) (status : StatusCode)
    (content : Option Nat) (s : SubManager) (o : Outcome) : SubManager :=
  let s := { s with pendingLastSuccessRequestTime := o.attempt.now }
  if o.attempt.send then s.sendRequest status content else retry s o.next

def retrieveAndSendNotifyWith (retry : SubManager → Outcome → SubManager) (s : SubManager)
    (o : Outcome) : SubManager :=
  match o.attempt.representation with
  | .bytes => sendNotifyWith retry .ok (some s.updates) { s with state := .pendingNotify } o
  | .null => { s with state := .waitingNotification }
  | .exception => retry s o.next

/-- The state in which a retry is waited for; the other states only log an error. -/
def retryState : SubState → SubState
  | .pendingNotify | .pendingNotifyAndNotification => .waitingRetry
  | .expiringPendingNotify => .expiringPendingNotifyWaitingRetry
  | .deletingPendingNotify => .deletingPendingNotifyWaitingRetry
  | .expiring => .expiringWaitingRetry
  | .deleting => .deletingWaitingRetry
  | state => state

def retryWith (retrieveAndSendNotify : SubManager → Outcome → SubManager) (s : SubManager)
    (o : Outcome) : SubManager :=
  -- the timer is started in every state, also where the state stays as it is
  if s.nbRetry < maxNbOfRetries then
    { s with state := retryState s.state, nbRetry := s.nbRetry + 1 }.startTimer .retry RETRY_TIMER
  else
    match s.state with
    | .pendingNotify => { s with nbRetry := 0, state := .waitingNotification }
    -- given up, but the resource was updated meanwhile: the new content is sent at once
    | .pendingNotifyAndNotification =>
      retrieveAndSendNotify { s with nbRetry := 0, state := .pendingNotify } o
    | .expiringPendingNotify => { s with nbRetry := 0, state := .expiring }
    | .deletingPendingNotify => { s with nbRetry := 0, state := .deleting }
    | .expiring | .deleting => { s with nbRetry := 0, state := .deleted }
    | _ => s

/-- `retry`: the retrieval after a give-up can only fail with `nbRetry = 0`, so two levels of the
mutual recursion are all it has. -/
def retry : SubManager → Outcome → SubManager :=
  retryWith (retrieveAndSendNotifyWith (retryWith fun s _ => s))

def retrieveAndSendNotify : SubManager → Outcome → SubManager :=
  retrieveAndSendNotifyWith retry

def sendNotify : StatusCode → Option Nat → SubManager → Outcome → SubManager :=
  sendNotifyWith retry

theorem retryWith_of_lt {s : SubManager} (h : s.nbRetry < maxNbOfRetries)
    (f g : SubManager → Outcome → SubManager) (o : Outcome) :
    retryWith f s o = retryWith g s o := by
  rw [retryWith, retryWith, if_pos h, if_pos h]

variable (s : SubManager)

variable (o : Outcome)

theorem retrieveAndSendNotify_eq :
    retrieveAndSendNotify s o = retrieveAndSendNotifyWith retry s o := rfl

/-- `retry` calls `retrieveAndSendNotify` as the source does. -/
theorem retry_eq :
    retry s o = retryWith retrieveAndSendNotify s o := by
  by_cases h : s.nbRetry < maxNbOfRetries
  · exact retryWith_of_lt h _ _ o
  · simp only [retry, retryWith, if_neg h]
    cases s.state with
    | pendingNotifyAndNotification =>
      -- the give-up clears `nbRetry`, so the inner `retry` only arms a timer
      have hlt : (0 : Int) < maxNbOfRetries := by decide
      simp only [retrieveAndSendNotify, retry, retrieveAndSendNotifyWith, sendNotifyWith]
      cases o.attempt.representation <;> simp only [retryWith, hlt, if_true]
    | _ => rfl

/-- The error notify that ends a subscription.  An `XoException` while its error info is built is
logged, and nothing is sent. -/
def sendErrorNotify (status : StatusCode) (s : SubManager) (o : Outcome) : SubManager :=
  if o.errorInfo then s.sendNotify status none o else s

/-! ## The handlers -/

/-- `StorageContext.delete(path)` then the expiry notify; a `StorageException` is caught by the
handler, which calls `retry`. -/
def deleteAndSendExpired : SubManager :=
  if o.delete then s.sendErrorNotify .expired o else s.retry o

def subscriptionExpired : SubManager :=
  match s.state with
  | .waitingNotification => { s with state := .expiring }.deleteAndSendExpired o
  | .pendingNotify | .pendingNotifyAndNotification =>
    { s with nbRetry := 0, state := .expiringPendingNotify }.deleteAndSendExpired o
  | .waitingMint | .waitingRetry =>
    ({ s with nbRetry := 0, state := .expiring }.cancelTimer s.timerId).deleteAndSendExpired o
  | _ => s

/-- `if (expirationTimerId != null) cancelTimer(expirationTimerId)`. -/
def cancelExpirationTimer : SubManager :=
  match s.expirationTimerId with
  | some id => s.cancelTimer (some id)
  | none => s

/-- The same, then `expirationTimerId = null`. -/
def clearExpirationTimer : SubManager :=
  { s.cancelExpirationTimer with expirationTimerId := none }

def subscriptionDeleted : SubManager :=
  match s.state with
  | .waitingNotification => { s.cancelExpirationTimer with state := .deleted }
  | .pendingNotify | .pendingNotifyAndNotification =>
    { s.cancelExpirationTimer with state := .deleting }
  | .waitingMint | .waitingRetry =>
    { s.cancelExpirationTimer.cancelTimer s.timerId with state := .deleted }
  | _ => s

variable (now : Int)

/-- `resourceUpdated(now)`, with the `boolean` it returns: whether the caller has to build and
send the notify. -/
def resourceUpdated (s : SubManager) : Bool × SubManager :=
  match s.state with
  | .waitingNotification =>
    let next := toLong (s.lastSuccessConfirmTime + s.minimalTimeBetweenNotifications)
    if now > next then (true, { s with state := .pendingNotify })
    else (false, { s with state := .waitingMint }.startTimer .mint (toLong (next - now)))
  | .pendingNotify | .pendingNotifyAndNotification =>
    (false, { s with nbRetry := -1, state := .pendingNotifyAndNotification })
  | .waitingRetry => (false, { s with nbRetry := -1 })
  | _ => (false, s)

/-- What `SubsManager.resourceUpdated` does for one of its subscriptions, whose filter matches.
`prepared` is whether `prepareResourceForResponse` and the serialisation of the resource succeed:
when one of them throws, the exception leaves the loop and is logged. -/
def notifyUpdate (prepared : Bool) (s : SubManager) (o : Outcome) : SubManager :=
  match { s with updates := s.updates + 1 }.resourceUpdated now with
  | (true, s) => if prepared then s.sendNotify .ok (some s.updates) o else s
  | (false, s) => s

def resourceDeleted : SubManager :=
  match s.state with
  | .waitingNotification =>
    { s.cancelExpirationTimer with state := .deleting }.sendErrorNotify .deleted o
  | .pendingNotify | .pendingNotifyAndNotification =>
    { s.cancelExpirationTimer with
      nbRetry := 0, state := .deletingPendingNotify }.sendErrorNotify .deleted o
  | .waitingMint | .waitingRetry =>
    { s.cancelExpirationTimer.cancelTimer s.timerId with
      nbRetry := 0, state := .deleting }.sendErrorNotify .deleted o
  | _ => s

def timeout (timerId : Nat) (s : SubManager) (o : Outcome) : SubManager :=
  if s.expirationTimerId = some timerId then
    match s.state with
    | .waitingNotification | .pendingNotify | .pendingNotifyAndNotification
    | .waitingMint | .waitingRetry => s.subscriptionExpired o
    | _ => s
  else
    match s.state with
    | .waitingMint | .waitingRetry => { s with state := .pendingNotify }.retrieveAndSendNotify o
    | .expiringPendingNotifyWaitingRetry =>
      { s with state := .expiringPendingNotify }.deleteAndSendExpired o
    | .deletingPendingNotifyWaitingRetry =>
      { s with state := .deletingPendingNotify }.sendErrorNotify .deleted o
    | .expiringWaitingRetry => { s with state := .expiring }.deleteAndSendExpired o
    | .deletingWaitingRetry => { s with state := .deleting }.sendErrorNotify .deleted o
    | _ => s

def doSuccessConfirm (s : SubManager) (o : Outcome) : SubManager :=
  match s.state with
  | .pendingNotify =>
    { s with lastSuccessConfirmTime := now, nbRetry := 0, state := .waitingNotification }
  | .pendingNotifyAndNotification =>
    let s : SubManager := { s with lastSuccessConfirmTime := now, nbRetry := 0 }
    if s.minimalTimeBetweenNotifications ≤ 0 then
      { s with state := .pendingNotify }.retrieveAndSendNotify o
    else
      { s with state := .waitingMint }.startTimer .mint s.minimalTimeBetweenNotifications
  | .expiringPendingNotifyWaitingRetry => { s with state := .expiringWaitingRetry }
  | .deletingPendingNotifyWaitingRetry => { s with state := .deletingWaitingRetry }
  | .expiringPendingNotify => { s with state := .expiring }
  | .deletingPendingNotify => { s with state := .deleting }
  | .expiring | .deleting => { s with state := .deleted }
  | _ => s

/-- The status codes of a confirm after which the notification is retried. -/
def retryable : StatusCode → Bool
  | .internalServerError | .notImplemented | .badGateway | .serviceUnavailable
  | .gatewayTimeout => true
  | _ => false

/-- The answer to the last notify of a terminating subscription: `after` is the state to go to
unless the error notify itself has to be retried. -/
def endNotify (request code : StatusCode) (after : SubState) (s : SubManager) (o : Outcome) :
    SubManager :=
  if request ≠ .ok ∧ retryable code then s.retry o else { s with state := after }

/-- `doUnsuccessConfirm`: `request` is the attribute `AT_STATUS` of the confirmed request, `code`
the status of the confirm, `deletion` whether the transaction that deletes the subscription
commits (its `SubDeleteOp` then calls `subscriptionDeleted`). -/
def doUnsuccessConfirm (request code : StatusCode) (deletion : Bool) (s : SubManager)
    (o : Outcome) : SubManager :=
  match s.state with
  | .pendingNotify | .pendingNotifyAndNotification =>
    if retryable code then s.retry o
    else if deletion then s.subscriptionDeleted else s.retry o
  -- both states go to the one of a deletion, as the source has it
  | .expiringPendingNotifyWaitingRetry => { s with state := .deletingWaitingRetry }
  | .deletingPendingNotifyWaitingRetry => { s with state := .deletingWaitingRetry }
  | .expiringPendingNotify => s.endNotify request code .expiring o
  | .deletingPendingNotify => s.endNotify request code .deleting o
  | .expiring | .deleting => s.endNotify request code .deleted o
  | _ => s

/-- `subscriptionUpdated`, with the two values it parses from the subscription. -/
def subscriptionUpdated (minimalTime expiration : Int) (s : SubManager) : SubManager :=
  { s with minimalTimeBetweenNotifications := minimalTime, expirationTime := expiration }

def startExpirationTimer (s : SubManager) (o : Outcome) : SubManager :=
  let s := s.clearExpirationTimer
  if 0 < s.expirationTime ∧ s.expirationTime < MAX_DATE then
    if s.expirationTime > now then
      { s with
        timers := ⟨s.nextTimer, .expiration, s.expirationTime - now⟩ :: s.timers
        nextTimer := s.nextTimer + 1
        expirationTimerId := some s.nextTimer }
    else s.subscriptionExpired o
  else s

/-! ## Events -/

inductive Event
  /-- The resource is updated and the filter of the subscription matches. -/
  | resourceUpdated (now : Int) (prepared : Bool) (o : Outcome)
  /-- The first notify, at the creation of the subscription. -/
  | retrieveAndSendNotify (o : Outcome)
  | successConfirm (request : Nat) (now : Int) (o : Outcome)
  | unsuccessConfirm (request : Nat) (code : StatusCode) (deletion : Bool) (o : Outcome)
  | timeout (timer : Nat) (o : Outcome)
  | subscriptionExpired (o : Outcome)
  | subscriptionDeleted
  | resourceDeleted (o : Outcome)
  | subscriptionUpdated (minimalTime expiration : Int)
  | startExpirationTimer (now : Int) (o : Outcome)
  deriving DecidableEq

/-- The record after the confirm of a request has been taken from the M2M layer. -/
def takeConfirm (r : Notify) (s : SubManager) : SubManager :=
  { s with requests := s.requests.erase r }

/-- The content of `r` counts as received when it is confirmed with success. -/
def noteConfirmed (r : Notify) (s : SubManager) : SubManager :=
  { s with confirmed := if r.status = .ok then r.content else s.confirmed }

/-- The events.  A confirm answers a request that has none yet, and a timeout is that of an armed
timer.  `retrieveAndSendNotify` is called from outside by the creation of the subscription alone,
whose notifier waits for its first notification. -/
def step : Event → Option SubManager
  | .resourceUpdated now prepared o => some (s.notifyUpdate now prepared o)
  | .retrieveAndSendNotify o =>
    if s.state = .waitingNotification then some (s.retrieveAndSendNotify o) else none
  | .successConfirm request now o =>
    (s.requests.find? fun r => r.id = request).map fun r =>
      ((s.takeConfirm r).noteConfirmed r).doSuccessConfirm now o
  | .unsuccessConfirm request code deletion o =>
    (s.requests.find? fun r => r.id = request).map fun r =>
      (s.takeConfirm r).doUnsuccessConfirm r.status code deletion o
  | .timeout timer o =>
    -- a timer that fires is armed no more
    if ∃ t ∈ s.timers, t.id = timer then some ((s.cancelTimer (some timer)).timeout timer o)
    else none
  | .subscriptionExpired o => some (s.subscriptionExpired o)
  | .subscriptionDeleted => some s.subscriptionDeleted
  | .resourceDeleted o => some (s.resourceDeleted o)
  | .subscriptionUpdated minimalTime expiration =>
    some (s.subscriptionUpdated minimalTime expiration)
  | .startExpirationTimer now o => some (s.startExpirationTimer now o)

end SubManager

end Ong.Scl
