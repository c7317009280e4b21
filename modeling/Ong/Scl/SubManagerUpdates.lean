import Ong.Scl.SubManagerCause

/-!
# No update of the resource is lost

A notifier that is told of an update while a notify is pending, or too early after the last one,
does not notify at once: it remembers to retrieve the resource again.  A notification is abandoned
only after the retry limit, and an update that arrives in the meantime starts the count again:
`resourceUpdated` sets `nbRetry` to `-1`, so that the next failure counts zero.

The representation of a resource that does not depend on the filter criteria is the resource as
it stands when it is read, so a notify is described by the number of updates its content includes.
The updates themselves are counted by the run, from its calls of `resourceUpdated`.

## Main results

* `step_updates`: the notifier takes part in every update, and in nothing else that counts as one
* `updates_step`: what a step preserves when everything it builds and sends succeeds
-/

namespace Ong.Scl.SubManager

open M2M List

/-- The contents of the `STATUS_OK` notifies that are outstanding, and of the last one confirmed
with success. -/
def carried (s : SubManager) : List Nat :=
  s.requests.filterMap (fun r => if r.status = .ok then r.content else none) ++
    s.confirmed.toList

/-- Another retrieval is scheduled: at the answer to the pending notify, or by the timer of the
state. -/
def Scheduled (s : SubManager) : Prop :=
  (s.state = .pendingNotifyAndNotification ∧ s.requests ≠ []) ∨
    ((s.state = .waitingMint ∨ s.state = .waitingRetry) ∧
      ∃ t ∈ s.timers, t.kind ≠ .expiration ∧ s.timerId = some t.id)

/-- What a run remembers for the subscriber: how many times `resourceUpdated` was called, how
many notifies of the present content of the resource have failed, and whether the notification was
given up after more of them than there are retries, with no update since. -/
structure History where
  updates : Nat := 0
  failures : Nat := 0
  givenUp : Bool := false

/-- An update makes the failed attempts those of an older content; an unsuccessful answer is a
failed attempt when its request carries the present content, and the notification is given up
when the notifier goes back to waiting. -/
def History.next (h : History) (s : SubManager) (e : Event) (t : SubManager) : History :=
  match e with
  | .resourceUpdated _ _ _ => { updates := h.updates + 1 }
  | .unsuccessConfirm request _ _ _ =>
    match s.requests.find? fun r => r.id = request with
    | some r =>
      -- an answer to an older content does not count
      let failures := if r.content = some h.updates then h.failures + 1 else h.failures
      { h with
        failures := failures
        givenUp := h.givenUp ||
          decide (t.state = .waitingNotification ∧ maxNbOfRetries < failures) }
    | none => h
  | _ => h

/-- The step of the notifier and of its history. -/
def stepH (p : SubManager × History) (e : Event) : Option (SubManager × History) :=
  (step p.1 e).map fun t => (t, p.2.next p.1 e t)

/-- Every representation that is asked for is built, and every request is sent. -/
def Outcome.Succeeds (o : Outcome) : Prop :=
  ∀ a ∈ o.attempts, a.representation = .bytes ∧ a.send = true

def Succeeds : Event → Prop
  | .resourceUpdated _ prepared o => prepared = true ∧ Outcome.Succeeds o
  | .retrieveAndSendNotify o | .successConfirm _ _ o | .unsuccessConfirm _ _ _ o | .timeout _ o
  | .subscriptionExpired o | .resourceDeleted o | .startExpirationTimer _ o => Outcome.Succeeds o
  | .subscriptionDeleted | .subscriptionUpdated _ _ => True

/-- What the state of a subscription that is served says of the last update. -/
def Informs (s : SubManager) (h : History) : Prop :=
  match s.state with
  | .waitingNotification =>
    (s.updates = 0 ∨ s.confirmed = some s.updates ∨ h.givenUp = true) ∧ s.nbRetry ≤ 0
  | .pendingNotify =>
    (∃ r, s.requests = [r] ∧ r.status = .ok ∧ r.content = some s.updates) ∧
      s.nbRetry ≤ h.failures
  | .pendingNotifyAndNotification => s.nbRetry = -1
  | .waitingMint => s.nbRetry ≤ 0
  | .waitingRetry => s.nbRetry ≤ h.failures
  | _ => True

section Counting

variable {f : SubManager → Outcome → SubManager}

theorem sendNotifyWith_updates (hf : ∀ s o, (f s o).updates = s.updates) (status : StatusCode)
    (content : Option Nat) (s : SubManager) (o : Outcome) :
    (sendNotifyWith f status content s o).updates = s.updates := by
  rw [sendNotifyWith]
  split
  · rfl
  · exact hf _ _

theorem retrieveAndSendNotifyWith_updates (hf : ∀ s o, (f s o).updates = s.updates)
    (s : SubManager) (o : Outcome) : (retrieveAndSendNotifyWith f s o).updates = s.updates := by
  rw [retrieveAndSendNotifyWith]
  split
  · exact sendNotifyWith_updates hf _ _ _ _
  · rfl
  · exact hf _ _

theorem retryWith_updates (hf : ∀ s o, (f s o).updates = s.updates) (s : SubManager)
    (o : Outcome) : (retryWith f s o).updates = s.updates := by
  rw [retryWith]
  split
  · rfl
  · cases s.state <;> first | rfl | exact hf _ _

variable (s : SubManager) (o : Outcome)

@[simp] theorem retry_updates : (s.retry o).updates = s.updates :=
  retryWith_updates (retrieveAndSendNotifyWith_updates (retryWith_updates fun _ _ => rfl)) s o

@[simp] theorem retrieveAndSendNotify_updates :
    (s.retrieveAndSendNotify o).updates = s.updates :=
  retrieveAndSendNotifyWith_updates retry_updates s o

@[simp] theorem sendNotify_updates (status : StatusCode) (content : Option Nat) :
    (s.sendNotify status content o).updates = s.updates :=
  sendNotifyWith_updates retry_updates status content s o

@[simp] theorem sendErrorNotify_updates (status : StatusCode) :
    (s.sendErrorNotify status o).updates = s.updates := by
  rw [sendErrorNotify]
  split
  · exact sendNotify_updates s o status none
  · rfl

@[simp] theorem deleteAndSendExpired_updates :
    (s.deleteAndSendExpired o).updates = s.updates := by
  rw [deleteAndSendExpired]
  split
  · exact sendErrorNotify_updates s o .expired
  · exact retry_updates s o

@[simp] theorem cancelTimer_updates (id : Option Nat) :
    (s.cancelTimer id).updates = s.updates := rfl

@[simp] theorem cancelExpirationTimer_updates : s.cancelExpirationTimer.updates = s.updates := by
  rw [cancelExpirationTimer]
  cases s.expirationTimerId <;> rfl

@[simp] theorem subscriptionExpired_updates : (s.subscriptionExpired o).updates = s.updates := by
  rw [subscriptionExpired]
  cases s.state <;> simp

@[simp] theorem subscriptionDeleted_updates : s.subscriptionDeleted.updates = s.updates := by
  rw [subscriptionDeleted]
  cases s.state <;> simp

@[simp] theorem resourceDeleted_updates : (s.resourceDeleted o).updates = s.updates := by
  rw [resourceDeleted]
  cases s.state <;> simp

@[simp] theorem timeout_updates (timer : Nat) : (s.timeout timer o).updates = s.updates := by
  rw [timeout]
  split <;> cases s.state <;> simp

variable (now : Int)

@[simp] theorem doSuccessConfirm_updates :
    (s.doSuccessConfirm now o).updates = s.updates := by
  rw [doSuccessConfirm]
  cases s.state <;> dsimp only
  case pendingNotifyAndNotification =>
    split
    · exact retrieveAndSendNotify_updates _ o
    · rfl

@[simp] theorem endNotify_updates (request code : StatusCode) (after : SubState) :
    (s.endNotify request code after o).updates = s.updates := by
  rw [endNotify]
  split
  · exact retry_updates s o
  · rfl

@[simp] theorem doUnsuccessConfirm_updates (request code : StatusCode) (deletion : Bool) :
    (s.doUnsuccessConfirm request code deletion o).updates = s.updates := by
  rw [doUnsuccessConfirm]
  cases s.state <;> simp only [endNotify_updates]
  case pendingNotify | pendingNotifyAndNotification => split_ifs <;> simp

@[simp] theorem startExpirationTimer_updates :
    (s.startExpirationTimer now o).updates = s.updates := by
  rw [startExpirationTimer]
  split_ifs <;> simp [clearExpirationTimer]

theorem resourceUpdated_updates :
    (s.resourceUpdated now).2.updates = s.updates := by
  rw [resourceUpdated]
  cases s.state <;> dsimp only
  case waitingNotification => split <;> rfl

theorem notifyUpdate_updates (prepared : Bool) :
    (s.notifyUpdate now prepared o).updates = s.updates + 1 := by
  have hcount := resourceUpdated_updates { s with updates := s.updates + 1 } now
  rw [notifyUpdate]
  cases hres : resourceUpdated now { s with updates := s.updates + 1 } with
  | mk send t =>
    rw [hres] at hcount
    cases send with
    | false => exact hcount
    | true =>
      cases prepared with
      | false => exact hcount
      | true => exact (sendNotify_updates t o .ok (some t.updates)).trans hcount

end Counting

/-- **One step and the updates**: the content that the notifier reads is that of one update more
exactly after a call of `resourceUpdated`, whatever becomes of the notification. -/
theorem step_updates {s t : SubManager} {e : Event} (hstep : step s e = some t) :
    t.updates = match e with
      | .resourceUpdated _ _ _ => s.updates + 1
      | _ => s.updates := by
  cases e with
  | resourceUpdated now prepared o =>
    cases hstep
    exact notifyUpdate_updates s o now prepared
  | retrieveAndSendNotify o =>
    obtain ⟨-, heq⟩ := Option.ite_none_right_eq_some.mp hstep
    cases heq
    exact retrieveAndSendNotify_updates s o
  | successConfirm request now o =>
    obtain ⟨r, -, rfl⟩ := Option.map_eq_some_iff.mp hstep
    exact doSuccessConfirm_updates _ o now
  | unsuccessConfirm request code deletion o =>
    obtain ⟨r, -, rfl⟩ := Option.map_eq_some_iff.mp hstep
    exact doUnsuccessConfirm_updates _ o r.status code deletion
  | timeout timer o =>
    obtain ⟨-, heq⟩ := Option.ite_none_right_eq_some.mp hstep
    cases heq
    exact timeout_updates _ o timer
  | subscriptionExpired o =>
    cases hstep
    exact subscriptionExpired_updates s o
  | subscriptionDeleted =>
    cases hstep
    exact subscriptionDeleted_updates s
  | resourceDeleted o =>
    cases hstep
    exact resourceDeleted_updates s o
  | subscriptionUpdated minimalTime expiration =>
    cases hstep
    rfl
  | startExpirationTimer now o =>
    cases hstep
    exact startExpirationTimer_updates s o now

theorem history_updates {s t : SubManager} {h : History} {e : Event}
    (hupdates : s.updates = h.updates) (hstep : step s e = some t) :
    t.updates = (h.next s e t).updates := by
  rw [step_updates hstep]
  cases e with
  | resourceUpdated now prepared o => exact congrArg (· + 1) hupdates
  | unsuccessConfirm request code deletion o =>
    rw [History.next]
    cases s.requests.find? fun r => r.id = request <;> exact hupdates
  | _ => exact hupdates

section Sending

variable {s t : SubManager} {h : History} {o : Outcome}

section

variable (ho : Outcome.Succeeds o)

include ho

theorem Outcome.Succeeds.attempt : o.attempt.representation = .bytes ∧ o.attempt.send = true := by
  rw [Outcome.attempt]
  cases hatt : o.attempts with
  | nil => exact ⟨rfl, rfl⟩
  | cons a as => exact ho a (by rw [hatt]; exact mem_cons_self)

theorem sendNotify_of_succeeds (status : StatusCode) (content : Option Nat) :
    s.sendNotify status content o =
      { s with pendingLastSuccessRequestTime := o.attempt.now }.sendRequest status content := by
  change sendNotifyWith retry status content s o = _
  rw [sendNotifyWith, if_pos ho.attempt.2]

theorem retrieveAndSendNotify_of_succeeds :
    s.retrieveAndSendNotify o = { s with
      state := .pendingNotify
      pendingLastSuccessRequestTime := o.attempt.now }.sendRequest .ok (some s.updates) := by
  rw [retrieveAndSendNotify_eq, retrieveAndSendNotifyWith, ho.attempt.1]
  exact sendNotify_of_succeeds ho .ok (some s.updates)

theorem retrieveAndSendNotify_informs (hr : s.requests = []) (hn : s.nbRetry ≤ h.failures) :
    Informs (s.retrieveAndSendNotify o) h := by
  rw [retrieveAndSendNotify_of_succeeds ho]
  refine ⟨⟨⟨s.sent.length, .ok, some s.updates⟩, ?_, rfl, rfl⟩, hn⟩
  simp [sendRequest, hr]

end

theorem Ends.not_active {c : StatusCode} {u : SubManager} (h : Ends c s u) :
    active u.state = false := by
  rcases h.1 with hdel | hcause
  · rw [hdel]
    rfl
  · exact not_active_of_causeOf hcause

theorem subscriptionExpired_not_active (s : SubManager) (o : Outcome) :
    active (s.subscriptionExpired o).state = false := by
  rw [subscriptionExpired]
  cases hs : s.state <;> dsimp only
  case waitingNotification | pendingNotify | pendingNotifyAndNotification | waitingMint |
      waitingRetry => exact (deleteAndSendExpired_ends rfl o).not_active
  all_goals
    rw [hs]
    rfl

theorem resourceDeleted_not_active (s : SubManager) (o : Outcome) :
    active (s.resourceDeleted o).state = false := by
  rw [resourceDeleted]
  cases hs : s.state <;> dsimp only
  case waitingNotification | pendingNotify | pendingNotifyAndNotification | waitingMint |
      waitingRetry => exact (sendErrorNotify_ends rfl o).not_active
  all_goals
    rw [hs]
    rfl

theorem subscriptionDeleted_not_active (s : SubManager) :
    active s.subscriptionDeleted.state = false := by
  rw [subscriptionDeleted]
  cases hs : s.state <;> dsimp only
  case waitingNotification | pendingNotify | pendingNotifyAndNotification | waitingMint |
      waitingRetry => rfl
  all_goals
    rw [hs]
    rfl

end Sending

section Steps

variable {s t : SubManager} {h : History} {e : Event} {o : Outcome}

theorem step_not_active (ha : active s.state = false) (hstep : step s e = some t) :
    active t.state = false := by
  by_cases hdel : s.state = .deleted
  · rw [(step_deleted hdel hstep).1]
    rfl
  · obtain ⟨c, hc⟩ : ∃ c, causeOf s.state = some c := by
      cases hs : s.state <;> simp_all [active, causeOf]
    by_cases hC : CauseCondition s e
    · exact (step_ends hc hC hstep).not_active
    · cases e with
      | unsuccessConfirm request code deletion o =>
        obtain ⟨r, -, rfl⟩ := Option.map_eq_some_iff.mp hstep
        have hs : (s.takeConfirm r).state = .expiringPendingNotifyWaitingRetry :=
          not_not.mp hC
        rw [doUnsuccessConfirm, hs]
        rfl
      | _ => exact absurd trivial hC

theorem condition_of_active (hk : Keeps s) (ha : active s.state = true) (he : Succeeds e)
    (hstep : step s e = some t) (ht : active t.state = true) : InFlightCondition s e := by
  cases e with
  | resourceUpdated now prepared o => exact fun _ _ => he.1
  | retrieveAndSendNotify o =>
    intro _ hrep
    rw [Outcome.Succeeds.attempt he |>.1] at hrep
    cases hrep
  | successConfirm request now o => trivial
  | unsuccessConfirm request code deletion o =>
    intro hs hcode
    cases deletion with
    | false => rfl
    | true =>
      obtain ⟨r, -, rfl⟩ := Option.map_eq_some_iff.mp hstep
      have hdel : active (s.takeConfirm r).subscriptionDeleted.state = false :=
        subscriptionDeleted_not_active _
      have heq : (s.takeConfirm r).doUnsuccessConfirm r.status code true o =
          (s.takeConfirm r).subscriptionDeleted := by
        have htake : (s.takeConfirm r).state = s.state := rfl
        rcases hs with hs | hs <;> rw [doUnsuccessConfirm, htake, hs] <;> simp [hcode]
      rw [heq, hdel] at ht
      cases ht
  | timeout timer o =>
    obtain ⟨-, heq⟩ := Option.ite_none_right_eq_some.mp hstep
    cases heq
    by_cases hexp : s.expirationTimerId = some timer
    · rw [(timeout_expiration_cases hk hexp o).2, subscriptionExpired_not_active] at ht
      cases ht
    · rw [InFlightCondition, if_neg hexp]
      refine ⟨?_, ?_⟩ <;> rintro (hs | hs) <;> rw [hs] at ha <;> cases ha
  | subscriptionExpired o =>
    cases hstep
    rw [subscriptionExpired_not_active] at ht
    cases ht
  | subscriptionDeleted => trivial
  | resourceDeleted o =>
    cases hstep
    rw [resourceDeleted_not_active] at ht
    cases ht
  | subscriptionUpdated minimalTime expiration => trivial
  | startExpirationTimer now o =>
    cases hstep
    intro h0 hmax hnow
    rcases startExpirationTimer_cases hk now o with ⟨-, -, -, u, -, -, heq⟩ | ⟨hn, -⟩
    · rw [heq, subscriptionExpired_not_active] at ht
      cases ht
    · exact absurd ⟨h0, hmax, hnow⟩ hn

theorem notifyUpdate_informs (hk : Keeps s) (ha : active s.state = true) (hi : Informs s h)
    {now : Int} (ho : Outcome.Succeeds o) :
    Informs (s.notifyUpdate now true o) { updates := h.updates + 1 } := by
  have hr := hk.requests
  rw [notifyUpdate, resourceUpdated]
  cases hs : s.state <;> simp only [hs, Informs, promisedRequests] at hi hr <;> rw [hs] at ha
  case waitingNotification =>
    by_cases hnow : now > toLong (s.lastSuccessConfirmTime + s.minimalTimeBetweenNotifications)
    · simp only [if_pos hnow, if_true]
      rw [sendNotify_of_succeeds ho]
      refine ⟨⟨⟨s.sent.length, .ok, some (s.updates + 1)⟩, ?_, rfl, rfl⟩, hi.2⟩
      simp [sendRequest, eq_nil_of_length_eq_zero hr]
    · simp only [if_neg hnow]
      exact hi.2
  case pendingNotify | pendingNotifyAndNotification => exact rfl
  case waitingMint =>
    exact hi
  case waitingRetry =>
    simp only [Informs]
    decide
  all_goals cases ha

/-- A failed notify of the present content is counted; when the notifier gives it up, more of them
have failed than there are retries. -/
theorem retry_informs_pendingNotify (hs : s.state = .pendingNotify) (hn : s.nbRetry ≤ h.failures) :
    Informs (s.retry o)
      { h with
        failures := h.failures + 1
        givenUp := h.givenUp || decide ((s.retry o).state = .waitingNotification ∧
          maxNbOfRetries < ((h.failures + 1 : Nat) : Int)) } := by
  rw [retry, retryWith]
  by_cases hlt : s.nbRetry < maxNbOfRetries
  · simp only [if_pos hlt, startTimer, hs, retryState, Informs]
    push_cast
    omega
  · have hmax : maxNbOfRetries < ((h.failures + 1 : Nat) : Int) := by
      push_cast
      omega
    simp only [if_neg hlt, hs, Informs, hmax]
    simp

theorem retry_informs_andNotification (hs : s.state = .pendingNotifyAndNotification)
    (hn : s.nbRetry = -1) : Informs (s.retry o) h := by
  have hlt : s.nbRetry < maxNbOfRetries := by rw [hn]; decide
  rw [retry, retryWith, if_pos hlt]
  simp only [startTimer, hs, retryState, Informs, hn]
  omega

theorem doSuccessConfirm_informs {r : Notify} (hk : Keeps s) (ha : active s.state = true)
    (hi : Informs s h) (hr : r ∈ s.requests) (now : Int) (ho : Outcome.Succeeds o) :
    Informs (((s.takeConfirm r).noteConfirmed r).doSuccessConfirm now o) h := by
  have hlen := takeConfirm_requests hr
  rw [hk.requests] at hlen
  have hstate : ((s.takeConfirm r).noteConfirmed r).state = s.state := rfl
  rw [doSuccessConfirm, hstate]
  cases hs : s.state <;> simp only [hs, Informs] at hi <;> rw [hs] at ha hlen <;> dsimp only
  case pendingNotify =>
    obtain ⟨⟨r', hr', hok, hcontent⟩, -⟩ := hi
    obtain rfl : r = r' := mem_singleton.mp (hr' ▸ hr)
    refine ⟨.inr (.inl ?_), Int.le_refl 0⟩
    simp only [noteConfirmed, hok, if_true]
    exact hcontent
  case pendingNotifyAndNotification =>
    have hnil : (s.takeConfirm r).requests = [] := eq_nil_of_length_eq_zero (Nat.succ.inj hlen)
    split
    · refine retrieveAndSendNotify_informs ho hnil ?_
      exact Int.natCast_nonneg _
    · exact Int.le_refl 0
  case waitingNotification | waitingMint | waitingRetry => exact absurd hlen (Nat.succ_ne_zero _)
  all_goals cases ha

theorem doUnsuccessConfirm_informs {r : Notify} (hk : Keeps s) (ha : active s.state = true)
    (hi : Informs s h) (hr : r ∈ s.requests) {code : StatusCode} {deletion : Bool}
    (ht : active ((s.takeConfirm r).doUnsuccessConfirm r.status code deletion o).state = true) :
    Informs ((s.takeConfirm r).doUnsuccessConfirm r.status code deletion o)
      { h with
        failures := if r.content = some s.updates then h.failures + 1 else h.failures
        givenUp := h.givenUp || decide
          (((s.takeConfirm r).doUnsuccessConfirm r.status code deletion o).state =
            .waitingNotification ∧ maxNbOfRetries <
              ((if r.content = some s.updates then h.failures + 1 else h.failures : Nat) : Int)) } := by
  have hstate : (s.takeConfirm r).state = s.state := rfl
  have hlen := takeConfirm_requests hr
  rw [hk.requests] at hlen
  have hretry : s.state = .pendingNotify ∨ s.state = .pendingNotifyAndNotification →
      (s.takeConfirm r).doUnsuccessConfirm r.status code deletion o =
        (s.takeConfirm r).retry o := fun hs => by
    have heq : (s.takeConfirm r).doUnsuccessConfirm r.status code deletion o =
        if retryable code then (s.takeConfirm r).retry o
        else if deletion then (s.takeConfirm r).subscriptionDeleted
        else (s.takeConfirm r).retry o := by
      rcases hs with hs | hs <;> rw [doUnsuccessConfirm, hstate, hs]
    rw [heq] at ht ⊢
    cases hcode : retryable code with
    | true => rfl
    | false =>
      cases deletion with
      | false => rfl
      | true => simp [hcode, subscriptionDeleted_not_active] at ht
  cases hs : s.state <;> simp only [hs, Informs] at hi <;> rw [hs] at ha hlen
  case pendingNotify =>
    obtain ⟨⟨r', hr', -, hcontent⟩, hn⟩ := hi
    obtain rfl : r = r' := mem_singleton.mp (hr' ▸ hr)
    simp only [hretry (.inl hs), hcontent, if_true]
    exact retry_informs_pendingNotify (s := s.takeConfirm r) hs hn
  case pendingNotifyAndNotification =>
    rw [hretry (.inr hs)]
    exact retry_informs_andNotification (s := s.takeConfirm r) hs hi
  case waitingNotification | waitingMint | waitingRetry => exact absurd hlen (Nat.succ_ne_zero _)
  all_goals cases ha

theorem Informs.congr (hi : Informs s h) (hstate : t.state = s.state)
    (hupdates : t.updates = s.updates) (hconfirmed : t.confirmed = s.confirmed)
    (hrequests : t.requests = s.requests) (hnb : t.nbRetry = s.nbRetry) : Informs t h := by
  unfold Informs at hi ⊢
  rw [hstate, hupdates, hconfirmed, hrequests, hnb]
  exact hi

theorem clearExpirationTimer_informs (hi : Informs s h) : Informs s.clearExpirationTimer h := by
  refine hi.congr ?_ ?_ ?_ ?_ ?_ <;>
    rw [clearExpirationTimer, cancelExpirationTimer] <;> cases s.expirationTimerId <;> rfl

theorem startExpirationTimer_informs (hi : Informs s h) {now : Int}
    (ht : active (s.startExpirationTimer now o).state = true) :
    Informs (s.startExpirationTimer now o) h := by
  have hclear := clearExpirationTimer_informs hi
  simp only [startExpirationTimer] at ht ⊢
  split
  · split
    · exact hclear.congr rfl rfl rfl rfl rfl
    case isTrue.isFalse hin hnow =>
      rw [if_pos hin, if_neg hnow, subscriptionExpired_not_active] at ht
      cases ht
  · exact hclear

theorem timeout_informs (hk : Keeps s) (ha : active s.state = true) (hi : Informs s h) {timer : Nat}
    (hexp : s.expirationTimerId ≠ some timer) (ho : Outcome.Succeeds o) :
    Informs ((s.cancelTimer (some timer)).timeout timer o) h := by
  have hr := hk.requests
  have hexp' : (s.cancelTimer (some timer)).expirationTimerId ≠ some timer := hexp
  have hstate : (s.cancelTimer (some timer)).state = s.state := rfl
  rw [timeout, if_neg hexp', hstate]
  cases hs : s.state <;> simp only [hs, Informs] at hi <;> rw [hs] at ha hr <;> dsimp only
  case waitingMint =>
    refine retrieveAndSendNotify_informs ho (eq_nil_of_length_eq_zero hr) ?_
    exact Int.le_trans hi (Int.natCast_nonneg _)
  case waitingRetry => exact retrieveAndSendNotify_informs ho (eq_nil_of_length_eq_zero hr) hi
  case waitingNotification | pendingNotify | pendingNotifyAndNotification =>
    simp only [Informs, hstate, hs]
    exact hi
  all_goals cases ha

end Steps

/-! ## Runs -/

/-- The invariant of a run: the notifier was told of every update and, while the subscription is
served, the promise of its state and what the state says of the last update. -/
def Tracks (p : SubManager × History) : Prop :=
  p.1.updates = p.2.updates ∧ (active p.1.state = true → Keeps p.1 ∧ Informs p.1 p.2)

/-- **One step**, when all it builds and sends succeeds. -/
theorem updates_step {p q : SubManager × History} {e : Event} (hp : Tracks p) (he : Succeeds e)
    (hstep : stepH p e = some q) : Tracks q := by
  obtain ⟨s, h⟩ := p
  obtain ⟨t, ht, rfl⟩ := Option.map_eq_some_iff.mp hstep
  obtain ⟨hupdates, hp⟩ := hp
  have hcount : s.updates = h.updates := hupdates
  refine ⟨history_updates hupdates ht, fun hactive => ?_⟩
  have ha : active s.state = true := by
    by_contra ha
    rw [step_not_active (by simpa using ha) ht] at hactive
    cases hactive
  obtain ⟨hk, hi⟩ := hp ha
  refine ⟨step_keeps hk (condition_of_active hk ha he ht hactive) ht, ?_⟩
  have hr := hk.requests
  cases e with
  | resourceUpdated now prepared o =>
    cases ht
    rw [show prepared = true from he.1]
    exact notifyUpdate_informs hk ha hi he.2
  | retrieveAndSendNotify o =>
    obtain ⟨hs, heq⟩ := Option.ite_none_right_eq_some.mp ht
    cases heq
    have hs' : s.state = .waitingNotification := hs
    unfold Informs at hi
    rw [hs'] at hi hr
    refine retrieveAndSendNotify_informs he (eq_nil_of_length_eq_zero hr) ?_
    exact Int.le_trans hi.2 (Int.natCast_nonneg _)
  | successConfirm request now o =>
    obtain ⟨r, hfind, rfl⟩ := Option.map_eq_some_iff.mp ht
    exact doSuccessConfirm_informs hk ha hi (mem_of_find?_eq_some hfind) now he
  | unsuccessConfirm request code deletion o =>
    obtain ⟨r, hfind, rfl⟩ := Option.map_eq_some_iff.mp ht
    simp only [History.next, hfind, ← hcount]
    exact doUnsuccessConfirm_informs hk ha hi (mem_of_find?_eq_some hfind) hactive
  | timeout timer o =>
    obtain ⟨-, heq⟩ := Option.ite_none_right_eq_some.mp ht
    cases heq
    by_cases hexp : s.expirationTimerId = some timer
    · rw [(timeout_expiration_cases hk hexp o).2, subscriptionExpired_not_active] at hactive
      cases hactive
    · exact timeout_informs hk ha hi hexp he
  | subscriptionExpired o =>
    cases ht
    rw [subscriptionExpired_not_active] at hactive
    cases hactive
  | subscriptionDeleted =>
    cases ht
    rw [subscriptionDeleted_not_active] at hactive
    cases hactive
  | resourceDeleted o =>
    cases ht
    rw [resourceDeleted_not_active] at hactive
    cases hactive
  | subscriptionUpdated minimalTime expiration =>
    cases ht
    exact hi.congr rfl rfl rfl rfl rfl
  | startExpirationTimer now o =>
    cases ht
    exact startExpirationTimer_informs hi hactive

theorem Tracks.scheduled {p : SubManager × History} (hp : Tracks p)
    (ha : active p.1.state = true) (hpos : 0 < p.2.updates)
    (hold : ∀ n ∈ carried p.1, n < p.2.updates) : Scheduled p.1 ∨ p.2.givenUp = true := by
  rw [← hp.1] at hpos hold
  obtain ⟨s, h⟩ := p
  obtain ⟨hk, hi⟩ := hp.2 ha
  have hr := hk.requests
  have htimer : promisedTimers s.state = 1 →
      ∃ t ∈ s.timers, t.kind ≠ .expiration ∧ s.timerId = some t.id := fun h1 => by
    have hcount : 0 < armedIn s.timers := by
      rw [show armedIn s.timers = 1 from hk.armed.trans h1]
      exact Nat.one_pos
    obtain ⟨t, ht, hkind⟩ := countP_pos_iff.mp hcount
    have hkind' : t.kind ≠ .expiration := by simpa using hkind
    exact ⟨t, ht, hkind', (hk.ids.own t ht hkind').1⟩
  dsimp only at ha hpos hold ⊢
  cases hs : s.state <;> simp only [hs, Informs] at hi <;> rw [hs] at ha hr htimer
  case waitingNotification =>
    rcases hi.1 with h0 | hconf | hgiven
    · omega
    · exact absurd (hold s.updates (by simp [carried, hconf])) (lt_irrefl _)
    · exact .inr hgiven
  case pendingNotify =>
    obtain ⟨⟨r, hreq, hok, hcontent⟩, -⟩ := hi
    exact absurd (hold s.updates (by simp [carried, hreq, hok, hcontent])) (lt_irrefl _)
  case pendingNotifyAndNotification =>
    refine .inl (.inl ⟨hs, fun hnil => ?_⟩)
    rw [hnil] at hr
    cases hr
  case waitingMint => exact .inl (.inr ⟨.inl hs, htimer rfl⟩)
  case waitingRetry => exact .inl (.inr ⟨.inr hs, htimer rfl⟩)
  all_goals cases ha

/-- **No update is lost**: in a run whose representations are all built and whose requests are all
sent, in every state of a subscription that is served, when the last update is in no `STATUS_OK`
notify that is outstanding or the last one confirmed, another retrieval is scheduled, or the
notification was given up after more failures than there are retries, all of them after the last
update. -/
theorem update_not_lost (minimalTime expiration : Int) (es : List Event)
    (hes : ∀ e ∈ es, Succeeds e) :
    Run.Visits stepH (fun p => active p.1.state = true → 0 < p.2.updates →
      (∀ n ∈ carried p.1, n < p.2.updates) → Scheduled p.1 ∨ p.2.givenUp = true)
      (new minimalTime expiration, {}) es := by
  have hnew : Tracks (new minimalTime expiration, {}) :=
    ⟨rfl, fun _ => ⟨new_keeps minimalTime expiration, .inl rfl, Int.le_refl 0⟩⟩
  have hC : Run.Along stepH (fun _ e => Succeeds e) (new minimalTime expiration, {}) es :=
    Run.along_of_forall hes
  exact Run.visits_mono (fun p hp => hp.scheduled)
    (Run.visits_of_along (fun _ _ _ => updates_step) hnew hC)

/-- Two updates, the answer to the notify of the first one, then the mint timer: the second update
is scheduled at each of the two points at which no notify carries it. -/
theorem update_not_lost_mint :
    Run.Visits stepH (fun p => active p.1.state = true → 0 < p.2.updates →
      (∀ n ∈ carried p.1, n < p.2.updates) → Scheduled p.1 ∨ p.2.givenUp = true)
      (new 5 0, {}) [.resourceUpdated 9 true {}, .resourceUpdated 10 true {},
        .successConfirm 0 11 {}, .timeout 0 {}] :=
  update_not_lost 5 0 _ (by
    simp [Succeeds, Outcome.Succeeds])

end Ong.Scl.SubManager
