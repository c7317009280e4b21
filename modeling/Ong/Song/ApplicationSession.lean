import Mathlib.Data.List.Sort

/-!
# Application sessions

An application session has protocol sessions, servlet timers and a task that lets it expire.  It is
invalidated on request, by the expiration, or when nothing needs it any more.
-/

namespace Ong.Song

inductive SessionState
  | valid | readyToInvalidate | invalidating | invalidated
  deriving DecidableEq

/-- A protocol session, which a container provides: whether it is valid, whether it is ready to be
invalidated, and whether its `invalidate` removes it from the application session. -/
structure ProtocolSession where
  valid : Bool := true
  ready : Bool := false
  removes : Bool := false

structure ServletTimer where
  id : Nat
  repeatingTimer : Bool
  deriving DecidableEq

/-- An expiration task in the timer service. -/
structure ExpirationTask where
  id : Nat
  due : Int
  deriving DecidableEq

/-- The fields of an application session, without attributes; then its protocol sessions by their
keys, the clock, what is armed in the timer service, whose thread may have ended, the context, and
what was notified.  `closing` are the protocol sessions at an `invalidate`; `expirations` has the
expiration time and the clock at each expiration that invalidated. -/
structure SessionWorld where
  state : SessionState := .valid
  sessions : List Nat := []
  invalidateWhenReady : Bool := true
  expirationTime : Int := 0
  expirationTimerTask : Option Nat := none
  servletTimers : Option (List Nat) := none
  protocol : Nat → ProtocolSession := fun _ => {}
  now : Int
  armed : List ExpirationTask := []
  timers : List ServletTimer := []
  timerAlive : Bool := true
  inContext : Bool := true
  destroyed : Nat := 0
  closing : List Nat := []
  expirations : List (Int × Int) := []
  nextTask : Nat := 0
  nextTimer : Nat := 0

namespace SessionWorld

variable (w : SessionWorld)

def isValid : Bool := w.state = .valid || w.state = .readyToInvalidate

/-! ## The expiration task -/

/-- A new task is scheduled, unless the timer service has ended. -/
def schedule (delay : Int) : SessionWorld :=
  { w with
    expirationTimerTask := some w.nextTask
    nextTask := w.nextTask + 1
    armed := if w.timerAlive then ⟨w.nextTask, w.now + delay⟩ :: w.armed else w.armed }

/-- `expirationTimerTask.cancel()`, where there is a task. -/
def cancelExpirationTimer : SessionWorld :=
  { w with armed := w.armed.filter fun task => some task.id ≠ w.expirationTimerTask }

def updateExpirationTimerTask (delay : Int) : SessionWorld :=
  if delay ≤ 0 then
    { w.cancelExpirationTimer with expirationTime := -1, expirationTimerTask := none }
  else
    let w' := { w with expirationTime := w.now + delay }
    match w.expirationTimerTask with
    | some _ =>
      if w.expirationTime > w'.expirationTime then w'.cancelExpirationTimer.schedule delay else w'
    | none => w'.schedule delay

/-- `setExpires`; it throws when the session is not valid. -/
def setExpires (deltaMinutes : Int) : SessionWorld :=
  if w.isValid then
    updateExpirationTimerTask { w with state := .valid } (deltaMinutes * 60000)
  else w

/-! ## The end of a session

What can throw returns whether it does, beside the state that it leaves. -/

/-- The loop on the protocol sessions.  A session that removes itself changes the map under the
iterator, which then throws a `ConcurrentModificationException` unless it was the last; the removal
does nothing else, as the session is being invalidated. -/
def invalidateSessions : List Nat → SessionWorld → SessionWorld × Bool
  | [], w => (w, false)
  | key :: keys, w =>
    if (w.protocol key).valid then
      let w := { w with
        protocol := Function.update w.protocol key { w.protocol key with valid := false } }
      if (w.protocol key).removes then
        ({ w with sessions := w.sessions.erase key }, !keys.isEmpty)
      else invalidateSessions keys w
    else invalidateSessions keys w

variable (id : Nat)

/-- A timer is taken out of the session, and out of the timer service. -/
def removeTimer : SessionWorld :=
  { w with
    servletTimers := w.servletTimers.map fun timers => timers.erase id
    timers := w.timers.filter fun timer => timer.id ≠ id }

/-- The loop on the timers: the first one that is cancelled changes the map under the iterator. -/
def cancelTimers : List Nat → SessionWorld → SessionWorld × Bool
  | [], w => (w, false)
  | id :: ids, w => (w.removeTimer id, !ids.isEmpty)

def invalidate (bypassCheck : Bool) : SessionWorld × Bool :=
  if !bypassCheck && w.state = .invalidated then (w, true)
  else
    let w := { w with
      destroyed := w.destroyed + 1
      closing := w.sessions
      state := .invalidating }
    -- an exception of a protocol session leaves the session in this state
    match w.invalidateSessions w.sessions with
    | (w, true) => (w, true)
    | (w, false) =>
      -- the timers are canceled when the session is invalidated already
      let w := { w with state := .invalidated }
      match w.cancelTimers (w.servletTimers.getD []) with
      | (w, true) => (w, true)
      | (w, false) =>
        ({ w.cancelExpirationTimer with
            inContext := false
            expirationTimerTask := none
            sessions := []
            servletTimers := none }, false)

/-- All the protocol sessions are ready, and there is no timer. -/
def AllReady : Prop :=
  (∀ key ∈ w.sessions, (w.protocol key).valid = true → (w.protocol key).ready = true) ∧
    w.servletTimers.getD [] = []

instance : Decidable w.AllReady := inferInstanceAs (Decidable (_ ∧ _))

def updateReadyToInvalidateState : SessionWorld × Bool :=
  if w.state = .valid ∧ w.AllReady then
    let w := { w with state := .readyToInvalidate }
    if w.invalidateWhenReady then w.invalidate true else (w, false)
  else (w, false)

/-! ## Protocol sessions and timers -/

/-- `addProtocolSession`, of the session under a key; it throws when there is one. -/
def addProtocolSession (key : Nat) : SessionWorld :=
  let w := { w with state := .valid }
  if key ∈ w.sessions then w
  else { w with sessions := w.sessions.orderedInsert (· ≤ ·) key }

def removeProtocolSession (key : Nat) : SessionWorld × Bool :=
  if key ∈ w.sessions
  then updateReadyToInvalidateState { w with sessions := w.sessions.erase key }
  else (w, false)

def protocolSessionReadyToInvalidate : SessionWorld × Bool := w.updateReadyToInvalidateState

/-- `createTimer`: it throws when the session is not valid or the timer service has ended. -/
def createTimer (repeatingTimer : Bool) : SessionWorld :=
  if w.isValid && w.timerAlive then
    { w with
      nextTimer := w.nextTimer + 1
      timers := ⟨w.nextTimer, repeatingTimer⟩ :: w.timers
      servletTimers := some (w.nextTimer :: w.servletTimers.getD []) }
  else w

def removeServletTimer : SessionWorld × Bool :=
  updateReadyToInvalidateState
    { w with servletTimers := w.servletTimers.map fun timers => timers.erase id }

/-- The task of a timer is taken out of the timer service. -/
def cancelTask : SessionWorld :=
  { w with timers := w.timers.filter fun timer => timer.id ≠ id }

/-- `ServletTimerImpl.cancel`: an exception of the session leaves the task armed. -/
def cancelServletTimer : SessionWorld × Bool :=
  match w.removeServletTimer id with
  | (w, true) => (w, true)
  | (w, false) => (w.cancelTask id, false)

/-- `ServletTimerImpl.run`, for a callback that does not call the session: a timer that does not
repeat was executed, and is cancelled. -/
def runServletTimer (timer : ServletTimer) : SessionWorld × Bool :=
  if timer.repeatingTimer then (w, false)
  else (w.cancelTask timer.id).cancelServletTimer timer.id

/-! ## The expiration -/

/-- What a listener does in `sessionExpired`. -/
inductive ListenerAction
  | setExpires (deltaMinutes : Int)
  | wait (duration : Nat)

def ListenerAction.apply : ListenerAction → SessionWorld → SessionWorld
  | .setExpires deltaMinutes, w => w.setExpires deltaMinutes
  | .wait duration, w => { w with now := w.now + duration }

def getDelay : Int := w.expirationTime - w.now

variable (listener : List ListenerAction)

/-- `expired`; the delay is read from the state that it leaves. -/
def expired : SessionWorld × Bool :=
  let w := listener.foldl (fun w action => action.apply w) w
  if w.getDelay ≤ 0 then
    if w.isValid then
      invalidate { w with expirations := (w.expirationTime, w.now) :: w.expirations } true
    else (w, false)
  else (w, false)

/-- The task that fires is no more armed. -/
def fire (task : ExpirationTask) : SessionWorld := { w with armed := w.armed.erase task }

/-- `run`: the session is put to sleep when there is still a delay. -/
def run : SessionWorld × Bool :=
  if w.getDelay ≤ 0 then
    match w.expired listener with
    | (w, true) => (w, true)
    | (w, false) => (if 0 < w.getDelay then w.schedule w.getDelay else w, false)
  else (w.schedule w.getDelay, false)

/-- An exception out of a task ends the thread of the timer service. -/
def ofTask (p : SessionWorld × Bool) : SessionWorld :=
  if p.2 then { p.1 with timerAlive := false } else p.1

end SessionWorld

/-! ## Runs -/

open SessionWorld

/-- The operations; a protocol session also changes by itself, and is not valid again once it is
not. -/
inductive SessionEvent
  | addProtocolSession (key : Nat)
  | removeProtocolSession (key : Nat)
  | protocolSessionReadyToInvalidate
  | protocolSessionChanged (key : Nat) (valid ready : Bool)
  | createTimer (repeatingTimer : Bool)
  | fireTimer (timer : ServletTimer)
  | cancelTimer (id : Nat)
  | setExpires (deltaMinutes : Int)
  | setInvalidateWhenReady (invalidateWhenReady : Bool)
  | wait (duration : Nat)
  | expire (task : ExpirationTask) (listener : List ListenerAction)
  | invalidate

/-- One operation; `none` when it cannot happen. -/
def applicationSessionStep (w : SessionWorld) : SessionEvent → Option SessionWorld
  | .addProtocolSession key => some (w.addProtocolSession key)
  | .removeProtocolSession key => some (w.removeProtocolSession key).1
  | .protocolSessionReadyToInvalidate => some w.protocolSessionReadyToInvalidate.1
  | .protocolSessionChanged key valid ready =>
    some { w with
      protocol := Function.update w.protocol key
        { w.protocol key with valid := (w.protocol key).valid && valid, ready := ready } }
  | .createTimer repeatingTimer => some (w.createTimer repeatingTimer)
  | .fireTimer timer =>
    if w.timerAlive = true ∧ timer ∈ w.timers then some (ofTask (w.runServletTimer timer)) else none
  | .cancelTimer id => some (w.cancelServletTimer id).1
  | .setExpires deltaMinutes => some (w.setExpires deltaMinutes)
  | .setInvalidateWhenReady b =>
    -- on a session that is not valid the source throws
    some (if w.isValid then { w with invalidateWhenReady := b } else w)
  | .wait duration => some { w with now := w.now + duration }
  | .expire task listener =>
    -- the thread of the timers runs a task some time after it is due
    if w.timerAlive = true ∧ task ∈ w.armed ∧ task.due ≤ w.now
    then some (ofTask ((w.fire task).run listener)) else none
  | .invalidate => some (w.invalidate false).1

/-- A new session, in a context with a timeout, over some protocol sessions. -/
def newApplicationSession (now timeout : Int) (protocol : Nat → ProtocolSession) : SessionWorld :=
  updateExpirationTimerTask { now := now, protocol := protocol } timeout

end Ong.Song
