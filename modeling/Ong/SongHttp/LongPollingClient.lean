import Ong.Lib.Run
import Ong.Lib.TimerTask

/-!
# The long polling client

The client has one request at the server at a time; the response, or a timer after a failure, makes
it send the next one.  It is itself the task of its timer, which can be scheduled only once.

## Main results

* `send_spec`, `startRetryTimer_spec`: what a sending and the timer leave
* `polls_iff_condition`: the client polls all along a run exactly when no step needs the timer twice
-/

namespace Ong.SongHttp

open Lib

/-! ## The client -/

/-- The fields of the client, without the dates. -/
structure LongPollingClient where
  ended : Bool := false
  error : Bool := false
  nbOfContactRequests : Int := 0
  accOfContactRequests : Int := 0
  accOfBadRequestEndContactRequests : Int := 0
  accOfErrorEndContactRequests : Int := 0
  nbOfLongPollingRequests : Int := 0
  accOfLongPollingRequests : Int := 0
  accOfContactEndLongPollingRequests : Int := 0
  accOfEmptyEndLongPollingRequests : Int := 0
  accOfErrorEndLongPollingRequests : Int := 0
  accOfExceptionEndLongPollingRequests : Int := 0

/-- The client as a timer task, the thread of the timer, the long polling requests that the HTTP
client accepted without having reported a response, and how many it accepted after
`stopLongPolling`. -/
structure PollingWorld where
  client : LongPollingClient := {}
  task : TimerTask := .virgin
  timerAlive : Bool := true
  outstanding : Nat := 0
  afterStop : Nat := 0

/-- How a sending goes: an exception before the request is counted, one from `sendClientRequest`, or
none. -/
inductive Sending
  | notCreated | notSent | accepted

/-- What ends an operation on a SONG request: its result, an exception that is caught there, with
two kinds for its building, or another one. -/
inductive Ending
  | done | uriSyntax | io | other

/-- What the client reads of a response: its status, none when the access throws; whether
`checkHttpResponse` accepts it; the presence of the four headers; and how the SONG request is built
from it and sent. -/
structure LongPollingResponse where
  status : Option Int
  acceptable : Bool
  targetId : Bool
  requestingEntity : Bool
  method : Bool
  transactionId : Bool
  build : Ending
  send : Ending

/-! ## The methods

A method returns the world it leaves, and whether it throws. -/

def startRetryTimer (w : PollingWorld) : PollingWorld × Bool :=
  let w := { w with client := { w.client with error := true } }
  match if w.timerAlive then w.task.schedule else none with
  | some task => ({ w with task := task }, false)
  | none => (w, true)

def stopLongPolling (w : PollingWorld) : PollingWorld :=
  { w with client := { w.client with ended := true }, task := w.task.cancel.2 }

/-- The HTTP client has one more request. -/
def PollingWorld.accept (w : PollingWorld) : PollingWorld :=
  { w with
    outstanding := w.outstanding + 1
    afterStop := if w.client.ended then w.afterStop + 1 else w.afterStop }

/-- The request is counted. -/
def LongPollingClient.sending (c : LongPollingClient) : LongPollingClient :=
  { c with
    nbOfLongPollingRequests := c.nbOfLongPollingRequests + 1
    accOfLongPollingRequests := c.accOfLongPollingRequests + 1 }

/-- What the three handlers of a sending do. -/
def LongPollingClient.sendFailed (sent : Bool) (c : LongPollingClient) : LongPollingClient :=
  { c with
    nbOfLongPollingRequests :=
      if sent then c.nbOfLongPollingRequests - 1 else c.nbOfLongPollingRequests
    accOfExceptionEndLongPollingRequests := c.accOfExceptionEndLongPollingRequests + 1 }

def sendLongPollingRequest (sending : Sending) (w : PollingWorld) : PollingWorld × Bool :=
  let (w, wait) :=
    match sending with
    | .notCreated => ({ w with client := w.client.sendFailed false }, true)
    | .notSent => ({ w with client := w.client.sending.sendFailed true }, true)
    | .accepted => (PollingWorld.accept { w with client := w.client.sending }, false)
  if !w.client.ended && wait then startRetryTimer w else (w, false)

/-- The number of the required headers that are present. -/
def LongPollingResponse.nbRequiredHeaders (r : LongPollingResponse) : Nat :=
  r.targetId.toNat + r.requestingEntity.toNat + r.method.toNat + r.transactionId.toNat

/-- The sending of the SONG request. -/
def sendSongRequest (c : LongPollingClient) : Ending → LongPollingClient × Bool
  | .done => ({ c with nbOfContactRequests := c.nbOfContactRequests + 1 }, false)
  | .io => ({ c with accOfErrorEndContactRequests := c.accOfErrorEndContactRequests + 1 }, false)
  | _ => (c, true)

def handleLongPollingResponse (r : LongPollingResponse) (c : LongPollingClient) :
    LongPollingClient × Bool :=
  if r.acceptable then
    if r.nbRequiredHeaders = 4 then
      let c := { c with accOfContactRequests := c.accOfContactRequests + 1 }
      match r.build with
      | .done =>
        sendSongRequest { c with
          accOfContactEndLongPollingRequests := c.accOfContactEndLongPollingRequests + 1 } r.send
      | .uriSyntax =>
        ({ c with
          accOfBadRequestEndContactRequests := c.accOfBadRequestEndContactRequests + 1 }, false)
      | .io => ({ c with accOfErrorEndContactRequests := c.accOfErrorEndContactRequests + 1 }, false)
      | .other => (c, true)
    else if r.nbRequiredHeaders > 0 then
      ({ c with
        accOfBadRequestEndContactRequests := c.accOfBadRequestEndContactRequests + 1 }, false)
    else
      ({ c with accOfEmptyEndLongPollingRequests := c.accOfEmptyEndLongPollingRequests + 1 }, false)
  else
    ({ c with accOfErrorEndLongPollingRequests := c.accOfErrorEndLongPollingRequests + 1 }, false)

/-- The body of `receivedLongPollingResponse`, with its handlers: the client, and whether to
wait. -/
def receiveResponse (r : LongPollingResponse) (c : LongPollingClient) : LongPollingClient × Bool :=
  let c := { c with nbOfLongPollingRequests := c.nbOfLongPollingRequests - 1 }
  let (c, threw, wait) :=
    match r.status with
    | none => (c, true, false)
    | some status =>
      if status = 200 then
        let (c, threw) := handleLongPollingResponse r c
        (c, threw, false)
      else if status ≥ 300 then
        ({ c with accOfErrorEndLongPollingRequests := c.accOfErrorEndLongPollingRequests + 1 },
          false, true)
      else
        ({ c with accOfEmptyEndLongPollingRequests := c.accOfEmptyEndLongPollingRequests + 1 },
          false, false)
  if threw then
    ({ c with
      accOfExceptionEndLongPollingRequests := c.accOfExceptionEndLongPollingRequests + 1 }, true)
  else (c, wait)

/-- The block `finally` sends the next request as soon as possible, or starts the timer. -/
def receivedLongPollingResponse (r : LongPollingResponse) (sending : Sending) (w : PollingWorld) :
    PollingWorld × Bool :=
  let (client, wait) := receiveResponse r w.client
  let w := { w with client := client }
  if w.client.ended then (w, false)
  else if wait then startRetryTimer w
  else sendLongPollingRequest sending w

def LongPollingClient.run (sending : Sending) (w : PollingWorld) : PollingWorld × Bool :=
  sendLongPollingRequest sending { w with client := { w.client with error := false } }

/-! ## Runs -/

inductive LongPollingClientEvent
  | response (r : LongPollingResponse) (sending : Sending)
  | timer (sending : Sending)
  | stop

/-- One event; `none` when it cannot happen.  An exception out of a task ends the thread of the
timer. -/
def longPollingClientStep (w : PollingWorld) : LongPollingClientEvent → Option PollingWorld
  | .response r sending =>
    if 0 < w.outstanding
    then some (receivedLongPollingResponse r sending { w with outstanding := w.outstanding - 1 }).1
    else none
  | .timer sending =>
    if w.timerAlive then
      w.task.fire.map fun task =>
        let (w, threw) := LongPollingClient.run sending { w with task := task }
        { w with timerAlive := !threw }
    else none
  | .stop => some (stopLongPolling w)

/-- What `createClientLongPolling` starts from. -/
def created (sending : Sending) : PollingWorld := (sendLongPollingRequest sending {}).1

/-! ## Polling -/

/-- The timer will run the client. -/
def PollingWorld.Armed (w : PollingWorld) : Prop := w.timerAlive = true ∧ w.task = .scheduled

/-- Unless it was stopped, the client has either one request at the server or an armed timer; after
that it sends none; and it counts its requests at the server. -/
structure Polls (w : PollingWorld) : Prop where
  one : w.client.ended = false →
    (w.outstanding = 1 ∧ ¬ w.Armed) ∨ (w.outstanding = 0 ∧ w.Armed)
  stopped : w.afterStop = 0
  counted : w.client.nbOfLongPollingRequests = w.outstanding

/-- The handling of the response throws an exception that it does not catch. -/
def LongPollingResponse.Throws (r : LongPollingResponse) : Prop :=
  r.acceptable = true ∧ r.nbRequiredHeaders = 4 ∧
    (r.build = .other ∨ r.build = .done ∧ (r.send = .other ∨ r.send = .uriSyntax))

/-- The response makes the client wait. -/
def LongPollingResponse.Fails (r : LongPollingResponse) : Prop :=
  ∀ status ∈ r.status, 300 ≤ status ∨ status = 200 ∧ r.Throws

/-- The event leaves the client without a request at the server, in need of the timer. -/
def Retries (w : PollingWorld) : LongPollingClientEvent → Prop
  | .response r sending => w.client.ended = false ∧ (r.Fails ∨ sending ≠ .accepted)
  | .timer sending => sending ≠ .accepted
  | .stop => False

/-- The timer is needed at most once: it never ran before. -/
def RetryCondition (w : PollingWorld) (e : LongPollingClientEvent) : Prop :=
  Retries w e → w.task = .virgin

section Polling

variable {w : PollingWorld} {sending : Sending} {r : LongPollingResponse} {c : LongPollingClient}

@[simp] theorem sendFailed_ended (sent : Bool) : (c.sendFailed sent).ended = c.ended := rfl

@[simp] theorem sending_ended : c.sending.ended = c.ended := rfl

/-- What the timer leaves. -/
theorem startRetryTimer_spec (w : PollingWorld) :
    let w' := (startRetryTimer w).1
    w'.client.ended = w.client.ended ∧ w'.outstanding = w.outstanding ∧
      w'.afterStop = w.afterStop ∧
      w'.client.nbOfLongPollingRequests = w.client.nbOfLongPollingRequests ∧
      w'.timerAlive = w.timerAlive ∧
      (w'.task = if w.timerAlive = true ∧ w.task = .virgin then .scheduled else w.task) ∧
      ((startRetryTimer w).2 = true ↔ ¬ (w.timerAlive = true ∧ w.task = .virgin)) := by
  unfold startRetryTimer
  cases halive : w.timerAlive with
  | false => simp
  | true =>
    cases htask : w.task <;> simp [TimerTask.schedule]

theorem send_accepted (w : PollingWorld) :
    sendLongPollingRequest .accepted w = ({ w with client := w.client.sending }.accept, false) := by
  simp [sendLongPollingRequest]

theorem send_failed (h : sending ≠ .accepted) (w : PollingWorld) :
    ∃ c : LongPollingClient, c.ended = w.client.ended ∧
      c.nbOfLongPollingRequests = w.client.nbOfLongPollingRequests ∧
      sendLongPollingRequest sending w =
        if !c.ended then startRetryTimer { w with client := c }
        else ({ w with client := c }, false) := by
  cases sending with
  | notCreated => exact ⟨w.client.sendFailed false, rfl, rfl, by simp [sendLongPollingRequest]⟩
  | notSent =>
    refine ⟨w.client.sending.sendFailed true, rfl, ?_, by simp [sendLongPollingRequest]⟩
    simp [LongPollingClient.sendFailed, LongPollingClient.sending]
  | accepted => exact absurd rfl h

theorem handle_spec (r : LongPollingResponse) (c : LongPollingClient) :
    (handleLongPollingResponse r c).1.ended = c.ended ∧
      (handleLongPollingResponse r c).1.nbOfLongPollingRequests = c.nbOfLongPollingRequests ∧
      ((handleLongPollingResponse r c).2 = true ↔ r.Throws) := by
  unfold handleLongPollingResponse LongPollingResponse.Throws
  cases r.acceptable with
  | false => simp
  | true =>
    by_cases hheaders : r.nbRequiredHeaders = 4
    · cases r.build <;> cases r.send <;> simp [hheaders, sendSongRequest]
    · simp only [hheaders, if_true, if_false]
      split <;> simp

theorem receive_spec (r : LongPollingResponse) (c : LongPollingClient) :
    (receiveResponse r c).1.ended = c.ended ∧
      (receiveResponse r c).1.nbOfLongPollingRequests = c.nbOfLongPollingRequests - 1 ∧
      ((receiveResponse r c).2 = true ↔ r.Fails) := by
  unfold receiveResponse LongPollingResponse.Fails
  cases r.status with
  | none => simp
  | some status =>
    by_cases hok : status = 200
    · obtain ⟨hended, hnb, hthrows⟩ := handle_spec r
        { c with nbOfLongPollingRequests := c.nbOfLongPollingRequests - 1 }
      rcases hhandle : handleLongPollingResponse r
        { c with nbOfLongPollingRequests := c.nbOfLongPollingRequests - 1 } with ⟨c', threw⟩
      rw [hhandle] at hended hnb hthrows
      cases threw with
      | false | true => simp_all
    · by_cases herror : 300 ≤ status
      · simp [hok, herror]
      · simp [hok, herror]

end Polling

/-! ## The invariant -/

/-- While it polls, the task of the client is new or was run when it has a request at the server,
and armed when it has none; once it is stopped the task is cancelled. -/
structure PollingInv (w : PollingWorld) : Prop where
  running : w.client.ended = false → w.timerAlive = true ∧
    ((w.outstanding = 1 ∧ (w.task = .virgin ∨ w.task = .executed)) ∨
      (w.outstanding = 0 ∧ w.task = .scheduled))
  ended : w.client.ended = true → w.task = .cancelled
  stopped : w.afterStop = 0
  counted : w.client.nbOfLongPollingRequests = w.outstanding

/-- The turn of the client: neither a request at the server nor an armed timer. -/
structure Turn (w : PollingWorld) : Prop where
  running : w.client.ended = false
  timerAlive : w.timerAlive = true
  outstanding : w.outstanding = 0
  task : w.task = .virgin ∨ w.task = .executed
  stopped : w.afterStop = 0
  counted : w.client.nbOfLongPollingRequests = 0

/-- The client waits for nothing, and nothing makes it send. -/
structure Lost (w : PollingWorld) : Prop where
  running : w.client.ended = false
  outstanding : w.outstanding = 0
  task : w.task ≠ .scheduled

section Invariant

variable {w t : PollingWorld} {sending : Sending} {r : LongPollingResponse} {wait : Bool}
  {e : LongPollingClientEvent}

theorem PollingInv.polls (h : PollingInv w) : Polls w := by
  refine ⟨fun hended => ?_, h.stopped, h.counted⟩
  obtain ⟨halive, ⟨hone, htask⟩ | ⟨hzero, htask⟩⟩ := h.running hended
  · refine .inl ⟨hone, fun harmed => ?_⟩
    rw [harmed.2] at htask
    rcases htask with htask | htask <;> cases htask
  · exact .inr ⟨hzero, halive, htask⟩

theorem Lost.not_polls (h : Lost w) : ¬ Polls w := by
  intro hpolls
  rcases hpolls.one h.running with ⟨hone, -⟩ | ⟨-, harmed⟩
  · rw [h.outstanding] at hone
    cases hone
  · exact h.task harmed.2

theorem Turn.accepted (h : Turn w) : PollingInv (sendLongPollingRequest .accepted w).1 := by
  rw [send_accepted]
  constructor
  case running => exact fun _ => ⟨h.timerAlive, .inl ⟨congrArg (· + 1) h.outstanding, h.task⟩⟩
  case ended => exact fun hended => absurd hended (by simp [PollingWorld.accept, h.running])
  case stopped => simp [PollingWorld.accept, h.running, h.stopped]
  case counted =>
    simp [PollingWorld.accept, LongPollingClient.sending, h.counted, h.outstanding]

theorem Turn.armed (h : Turn w) (hvirgin : w.task = .virgin) : PollingInv (startRetryTimer w).1 := by
  obtain ⟨hended, hout, hstop, hnb, halive, htask, -⟩ := startRetryTimer_spec w
  rw [if_pos ⟨h.timerAlive, hvirgin⟩] at htask
  constructor
  case running =>
    exact fun _ => ⟨halive.trans h.timerAlive, .inr ⟨hout.trans h.outstanding, htask⟩⟩
  case ended =>
    intro hended'
    rw [hended, h.running] at hended'
    cases hended'
  case stopped => exact hstop.trans h.stopped
  case counted => rw [hnb, hout, h.counted, h.outstanding]; rfl

theorem Turn.lost (h : Turn w) (hvirgin : w.task ≠ .virgin) : Lost (startRetryTimer w).1 := by
  obtain ⟨hended, hout, -, -, -, htask, -⟩ := startRetryTimer_spec w
  rw [if_neg fun hboth => hvirgin hboth.2, h.task.resolve_left hvirgin] at htask
  refine ⟨hended.trans h.running, hout.trans h.outstanding, ?_⟩
  rw [htask]
  nofun

theorem Turn.send_failed (h : Turn w) (hsending : sending ≠ .accepted) :
    ∃ w', Turn w' ∧ w'.task = w.task ∧ sendLongPollingRequest sending w = startRetryTimer w' := by
  obtain ⟨c, hended, hnb, hsend⟩ := SongHttp.send_failed hsending w
  refine ⟨{ w with client := c }, ⟨hended.trans h.running, h.timerAlive, h.outstanding, h.task,
    h.stopped, hnb.trans h.counted⟩, rfl, ?_⟩
  rw [hsend, hended, h.running]
  rfl

/-- A turn of the client, after a failure or not. -/
def next (wait : Bool) (sending : Sending) (w : PollingWorld) : PollingWorld × Bool :=
  if wait then startRetryTimer w else sendLongPollingRequest sending w

/-- The turn needs the timer. -/
def NeedsTimer (wait : Bool) (sending : Sending) : Prop := wait = true ∨ sending ≠ .accepted

theorem Turn.next_of_needsTimer (h : Turn w) (hneeds : NeedsTimer wait sending) :
    ∃ w', Turn w' ∧ w'.task = w.task ∧ next wait sending w = startRetryTimer w' := by
  cases wait with
  | true => exact ⟨w, h, rfl, rfl⟩
  | false => exact h.send_failed (hneeds.resolve_left Bool.false_ne_true)

theorem Turn.inv_next (h : Turn w) (hfirst : NeedsTimer wait sending → w.task = .virgin) :
    PollingInv (next wait sending w).1 ∧ (next wait sending w).2 = false := by
  by_cases hneeds : NeedsTimer wait sending
  · obtain ⟨w', h', htask, hnext⟩ := h.next_of_needsTimer hneeds
    have hvirgin := htask.trans (hfirst hneeds)
    rw [hnext]
    refine ⟨h'.armed hvirgin, ?_⟩
    have hthrew := (startRetryTimer_spec w').2.2.2.2.2.2
    rw [Bool.eq_false_iff, ne_eq, hthrew, not_not]
    exact ⟨h'.timerAlive, hvirgin⟩
  · obtain ⟨hwait, hsending⟩ := not_or.mp hneeds
    obtain rfl := not_not.mp hsending
    rw [Bool.not_eq_true] at hwait
    subst hwait
    exact ⟨h.accepted, by simp [next, send_accepted]⟩

theorem Turn.lost_next (h : Turn w) (hneeds : NeedsTimer wait sending)
    (hvirgin : w.task ≠ .virgin) : Lost (next wait sending w).1 := by
  obtain ⟨w', h', htask, hnext⟩ := h.next_of_needsTimer hneeds
  rw [hnext]
  exact h'.lost (htask ▸ hvirgin)

theorem receivedLongPollingResponse_eq (r : LongPollingResponse) (sending : Sending)
    (w : PollingWorld) :
    ∃ (c : LongPollingClient) (wait : Bool), c.ended = w.client.ended ∧
      c.nbOfLongPollingRequests = w.client.nbOfLongPollingRequests - 1 ∧
      (wait = true ↔ r.Fails) ∧
      receivedLongPollingResponse r sending w =
        if w.client.ended then ({ w with client := c }, false)
        else next wait sending { w with client := c } := by
  obtain ⟨hended, hnb, hfails⟩ := receive_spec r w.client
  refine ⟨(receiveResponse r w.client).1, (receiveResponse r w.client).2, hended, hnb, hfails, ?_⟩
  unfold receivedLongPollingResponse next
  simp only [hended]

theorem PollingInv.turn_of_response (h : PollingInv w) (hrunning : w.client.ended = false)
    (hout : 0 < w.outstanding) {c : LongPollingClient} (hended : c.ended = w.client.ended)
    (hnb : c.nbOfLongPollingRequests = w.client.nbOfLongPollingRequests - 1) :
    Turn { w with outstanding := w.outstanding - 1, client := c } := by
  obtain ⟨halive, ⟨hone, htask⟩ | ⟨hzero, -⟩⟩ := h.running hrunning
  · refine ⟨hended.trans hrunning, halive, by simp [hone], htask, h.stopped, ?_⟩
    rw [hnb, h.counted, hone]
    rfl
  · omega

theorem PollingInv.turn_of_timer (h : PollingInv w) (htask : w.task = .scheduled) :
    Turn { w with task := .executed, client := { w.client with error := false } } := by
  have hrunning : w.client.ended = false := by
    rw [Bool.eq_false_iff]
    intro hended
    rw [h.ended hended] at htask
    cases htask
  obtain ⟨halive, ⟨-, htask'⟩ | ⟨hzero, -⟩⟩ := h.running hrunning
  · rw [htask] at htask'
    rcases htask' with htask' | htask' <;> cases htask'
  · exact ⟨hrunning, halive, hzero, .inr rfl, h.stopped, by simpa [hzero] using h.counted⟩

theorem PollingInv.of_not_thrown {p : PollingWorld × Bool} (h : PollingInv p.1) (hp : p.2 = false) :
    PollingInv { p.1 with timerAlive := !p.2 } := by
  rw [hp]
  exact ⟨fun hrunning => ⟨rfl, (h.running hrunning).2⟩, h.ended, h.stopped, h.counted⟩

/-- **A step keeps the invariant** when it does not need the timer a second time. -/
theorem PollingInv.step (h : PollingInv w) (hcondition : RetryCondition w e)
    (ht : longPollingClientStep w e = some t) : PollingInv t := by
  cases e with
  | stop =>
    obtain rfl := Option.some.inj ht
    constructor
    case running => exact fun hrunning => absurd hrunning (by simp [stopLongPolling])
    case ended => exact fun _ => rfl
    case stopped => exact h.stopped
    case counted => exact h.counted
  | response r sending =>
    simp only [longPollingClientStep] at ht
    split at ht
    · next hout =>
      obtain rfl := Option.some.inj ht
      obtain ⟨c, wait, hended, hnb, hwait, heq⟩ := receivedLongPollingResponse_eq r sending
        { w with outstanding := w.outstanding - 1 }
      rw [heq]
      cases hrunning : w.client.ended with
      | true =>
        rw [if_pos rfl]
        constructor
        case running => exact fun hfalse => absurd (hended.symm.trans hfalse) (by simp [hrunning])
        case ended => exact fun _ => h.ended hrunning
        case stopped => exact h.stopped
        case counted =>
          rw [hnb, h.counted]
          dsimp only
          omega
      | false =>
        refine ((h.turn_of_response hrunning hout hended hnb).inv_next fun hneeds => ?_).1
        exact hcondition ⟨hrunning, hneeds.imp_left hwait.mp⟩
    · cases ht
  | timer sending =>
    simp only [longPollingClientStep] at ht
    split at ht
    · obtain ⟨task, htask, rfl⟩ := Option.map_eq_some_iff.mp ht
      obtain ⟨hscheduled, rfl⟩ := TimerTask.fire_eq_some.mp htask
      have hneeds : NeedsTimer false sending → TimerTask.executed = .virgin := fun hneeds => by
        have hvirgin := hcondition (hneeds.resolve_left Bool.false_ne_true)
        rw [hscheduled] at hvirgin
        cases hvirgin
      obtain ⟨hinv, hthrew⟩ := (h.turn_of_timer hscheduled).inv_next hneeds
      exact hinv.of_not_thrown hthrew
    · cases ht

/-- **A step that needs the timer a second time** leaves the client without request and timer. -/
theorem PollingInv.lost_step (h : PollingInv w) (hcondition : ¬ RetryCondition w e)
    (ht : longPollingClientStep w e = some t) : Lost t := by
  obtain ⟨hretries, hvirgin⟩ := Classical.not_imp.mp hcondition
  cases e with
  | stop => exact hretries.elim
  | response r sending =>
    simp only [longPollingClientStep] at ht
    split at ht
    · next hout =>
      obtain rfl := Option.some.inj ht
      obtain ⟨hrunning, hneeds⟩ := hretries
      obtain ⟨c, wait, hended, hnb, hwait, heq⟩ := receivedLongPollingResponse_eq r sending
        { w with outstanding := w.outstanding - 1 }
      rw [heq, hrunning, if_neg Bool.false_ne_true]
      exact (h.turn_of_response hrunning hout hended hnb).lost_next
        (hneeds.imp_left hwait.mpr) hvirgin
    · cases ht
  | timer sending =>
    simp only [longPollingClientStep] at ht
    split at ht
    · obtain ⟨task, htask, rfl⟩ := Option.map_eq_some_iff.mp ht
      obtain ⟨hscheduled, rfl⟩ := TimerTask.fire_eq_some.mp htask
      have hlost : Lost (next false sending
          { w with task := .executed, client := { w.client with error := false } }).1 :=
        (h.turn_of_timer hscheduled).lost_next (.inr hretries) (by nofun)
      exact ⟨hlost.running, hlost.outstanding, hlost.task⟩
    · cases ht

end Invariant

/-- **The client never stops polling by itself exactly when it never needs its timer again.** -/
theorem polls_iff_condition (sending : Sending) (es : List LongPollingClientEvent) :
    Run.Visits longPollingClientStep Polls (created sending) es ↔
      Run.Along longPollingClientStep RetryCondition (created sending) es := by
  have hturn : Turn {} := ⟨rfl, rfl, rfl, .inl rfl, rfl, rfl⟩
  have hinv : PollingInv (next false sending {}).1 := (hturn.inv_next fun _ => rfl).1
  refine Run.visits_iff_along (fun _ h => h.polls) (fun _ _ _ h hC ht => h.step hC ht) ?_ hinv
  intro w e t h ht hpolls
  by_contra hcondition
  exact (h.lost_step hcondition ht).not_polls hpolls

/-- After a failure at the creation and a recovery, the client loses its connection at the next
error. -/
theorem second_failure_lost :
    ¬ Run.Visits longPollingClientStep Polls (created .notSent)
      [.timer .accepted,
        .response ⟨some 503, false, false, false, false, false, .done, .done⟩ .accepted] := by
  intro h
  have hlast := Run.visits_exec h rfl
  rcases hlast.one rfl with ⟨hone, -⟩ | ⟨-, harmed⟩
  · cases hone
  · cases harmed.2

end Ong.SongHttp
