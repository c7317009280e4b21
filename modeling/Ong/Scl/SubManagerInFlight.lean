import Ong.Lib.Run
import Ong.Scl.SubManager

/-!
# The requests and timers a notifier waits for

Each state of `SubManager` promises a number of outstanding NOTIFY requests and of armed mint or
retry timers: they are the events that will move it on.  A state with fewer of them is stuck, a
state with more of them treats a late answer as that of another request.

## Main results

* `retry_keeps`, `sendNotify_keeps`: sending and retrying settle what is owed
* `step_keeps`, `step_promise`: the condition is sufficient and necessary for one step
-/

namespace Ong.Scl.SubManager

open M2M List Nat

def promisedRequests : SubState → Nat
  | .waitingNotification | .waitingMint | .waitingRetry | .expiringWaitingRetry
  | .deletingWaitingRetry | .deleted => 0
  | .pendingNotify | .pendingNotifyAndNotification | .expiringPendingNotifyWaitingRetry
  | .deletingPendingNotifyWaitingRetry | .expiring | .deleting => 1
  | .expiringPendingNotify | .deletingPendingNotify => 2

def promisedTimers : SubState → Nat
  | .waitingMint | .waitingRetry | .expiringPendingNotifyWaitingRetry
  | .deletingPendingNotifyWaitingRetry | .expiringWaitingRetry | .deletingWaitingRetry => 1
  | _ => 0

/-- The number of mint and retry timers in a list. -/
def armedIn (timers : List Timer) : Nat := timers.countP fun t => t.kind ≠ .expiration

/-- The number of armed mint and retry timers. -/
def armed (s : SubManager) : Nat := armedIn s.timers

/-- **The promise of the state**: as many outstanding requests and armed mint or retry timers as
the state stands for. -/
def Promise (s : SubManager) : Prop :=
  s.requests.length = promisedRequests s.state ∧ s.armed = promisedTimers s.state

instance (s : SubManager) : Decidable (Promise s) := inferInstanceAs (Decidable (_ ∧ _))

/-- The identifiers of the armed timers: all are allocated, the mint or retry timer is the one of
`timerId`, the expiration timer the one of `expirationTimerId`, and they are told apart. -/
structure TimerIds (timers : List Timer) (next : Nat) (timerId expirationTimerId : Option Nat) :
    Prop where
  allocated : ∀ t ∈ timers, t.id < next
  expirationAllocated : ∀ i, expirationTimerId = some i → i < next
  own : ∀ t ∈ timers, t.kind ≠ .expiration → timerId = some t.id ∧ expirationTimerId ≠ some t.id
  expiration : ∀ t ∈ timers, t.kind = .expiration → expirationTimerId = some t.id

/-- `r` outstanding requests, `t` armed mint or retry timers, and identifiers in order. -/
structure InFlight (s : SubManager) (r t : Nat) : Prop where
  requests : s.requests.length = r
  armed : s.armed = t
  ids : TimerIds s.timers s.nextTimer s.timerId s.expirationTimerId

/-- The invariant of a run: the promise and the identifiers. -/
def Keeps (s : SubManager) : Prop :=
  InFlight s (promisedRequests s.state) (promisedTimers s.state)

/-- The state already counts a request that is still to be sent, and no timer is armed. -/
structure Owing (s : SubManager) : Prop where
  requests : s.requests.length + 1 = promisedRequests s.state
  timers : promisedTimers s.state = 0
  armed : s.armed = 0
  ids : TimerIds s.timers s.nextTimer s.timerId s.expirationTimerId

theorem Keeps.promise {s : SubManager} (h : Keeps s) : Promise s := ⟨h.requests, h.armed⟩

section Timers

variable {timers : List Timer} {next : Nat} {timerId expirationTimerId : Option Nat}

theorem armedIn_eq_zero : armedIn timers = 0 ↔ ∀ t ∈ timers, t.kind = .expiration := by
  simp [armedIn, countP_eq_zero]

theorem TimerIds.filter (h : TimerIds timers next timerId expirationTimerId) (p : Timer → Bool) :
    TimerIds (timers.filter p) next timerId expirationTimerId where
  allocated t ht := h.allocated t (mem_of_mem_filter ht)
  expirationAllocated := h.expirationAllocated
  own t ht := h.own t (mem_of_mem_filter ht)
  expiration t ht := h.expiration t (mem_of_mem_filter ht)

theorem TimerIds.start (h : TimerIds timers next timerId expirationTimerId)
    (h0 : armedIn timers = 0) (kind : TimerKind) (hkind : kind ≠ .expiration) (delay : Int) :
    TimerIds (⟨next, kind, delay⟩ :: timers) (next + 1) (some next) expirationTimerId where
  allocated := by
    rintro t (_ | ⟨_, ht⟩)
    · exact lt_succ_self next
    · exact lt_succ_of_lt (h.allocated t ht)
  expirationAllocated i hi := lt_succ_of_lt (h.expirationAllocated i hi)
  own := by
    rintro t (_ | ⟨_, ht⟩) hk
    · exact ⟨rfl, fun he => Nat.lt_irrefl _ (h.expirationAllocated _ he)⟩
    · exact absurd (armedIn_eq_zero.mp h0 t ht) hk
  expiration := by
    rintro t (_ | ⟨_, ht⟩) hk
    · exact absurd hk hkind
    · exact h.expiration t ht hk

theorem TimerIds.startExpiration (h : TimerIds timers next timerId none) (delay : Int) :
    TimerIds (⟨next, .expiration, delay⟩ :: timers) (next + 1) timerId (some next) where
  allocated := by
    rintro t (_ | ⟨_, ht⟩)
    · exact lt_succ_self next
    · exact lt_succ_of_lt (h.allocated t ht)
  expirationAllocated := by
    rintro i ⟨⟩
    exact lt_succ_self next
  own := by
    rintro t (_ | ⟨_, ht⟩) hk
    · exact absurd rfl hk
    · refine ⟨(h.own t ht hk).1, fun he => ?_⟩
      exact Nat.lt_irrefl _ (Option.some.inj he ▸ h.allocated t ht)
  expiration := by
    rintro t (_ | ⟨_, ht⟩) hk
    · rfl
    · exact absurd (h.expiration t ht hk) (by simp)

theorem armedIn_cancel_own (h : TimerIds timers next timerId expirationTimerId) :
    armedIn (timers.filter fun t => some t.id ≠ timerId) = 0 := by
  rw [armedIn_eq_zero]
  intro t ht
  obtain ⟨hmem, hne⟩ := mem_filter.mp ht
  by_contra hk
  have hown : timerId = some t.id := (h.own t hmem hk).1
  simp [hown] at hne

theorem armedIn_cancel_expiration (h : TimerIds timers next timerId expirationTimerId) :
    armedIn (timers.filter fun t => some t.id ≠ expirationTimerId) = armedIn timers := by
  simp only [armedIn, countP_filter]
  refine countP_congr fun t ht => ?_
  by_cases hk : t.kind = .expiration
  · simp [hk]
  · simp [hk, Ne.symm (h.own t ht hk).2]

end Timers

section Sending

variable {s : SubManager}

theorem inFlight_startTimer {r : Nat} (hr : s.requests.length = r) (h0 : s.armed = 0)
    (hids : TimerIds s.timers s.nextTimer s.timerId s.expirationTimerId) (kind : TimerKind)
    (hkind : kind ≠ .expiration) (delay : Int) : InFlight (s.startTimer kind delay) r 1 where
  requests := hr
  armed := by
    change armedIn (⟨s.nextTimer, kind, delay⟩ :: s.timers) = 1
    rw [armedIn, countP_cons_of_pos (by simpa using hkind)]
    exact congrArg (· + 1) h0
  ids := hids.start h0 kind hkind delay

theorem Owing.state_cases (h : Owing s) :
    s.state = .pendingNotify ∧ s.requests.length = 0 ∨
    s.state = .pendingNotifyAndNotification ∧ s.requests.length = 0 ∨
    s.state = .expiring ∧ s.requests.length = 0 ∨
    s.state = .deleting ∧ s.requests.length = 0 ∨
    s.state = .expiringPendingNotify ∧ s.requests.length = 1 ∨
    s.state = .deletingPendingNotify ∧ s.requests.length = 1 := by
  have hr := h.requests
  have ht := h.timers
  cases hs : s.state <;> simp_all [promisedRequests, promisedTimers]

theorem retryWith_keeps_of_lt (h : Owing s) (hlt : s.nbRetry < maxNbOfRetries)
    (f : SubManager → Outcome → SubManager) (o : Outcome) : Keeps (retryWith f s o) := by
  rw [retryWith, if_pos hlt]
  have hstate : s.requests.length = promisedRequests (retryState s.state) ∧
      promisedTimers (retryState s.state) = 1 := by
    rcases h.state_cases with ⟨hs, hr⟩ | ⟨hs, hr⟩ | ⟨hs, hr⟩ | ⟨hs, hr⟩ | ⟨hs, hr⟩ | ⟨hs, hr⟩ <;>
      rw [hs, hr] <;> exact ⟨rfl, rfl⟩
  have hstart := inFlight_startTimer (s := { s with
    state := retryState s.state, nbRetry := s.nbRetry + 1 }) hstate.1 h.armed h.ids .retry
    (by decide) RETRY_TIMER
  exact ⟨hstart.requests, hstart.armed.trans hstate.2.symm, hstart.ids⟩

section

variable {f : SubManager → Outcome → SubManager} (h : Owing s)

include h

theorem retryWith_keeps (o : Outcome)
    (hf : ∀ t, Owing t → t.state = .pendingNotify → t.nbRetry = 0 → Keeps (f t o)) :
    Keeps (retryWith f s o) := by
  by_cases hlt : s.nbRetry < maxNbOfRetries
  · exact retryWith_keeps_of_lt h hlt f o
  · rw [retryWith, if_neg hlt]
    rcases h.state_cases with ⟨hs, hr⟩ | ⟨hs, hr⟩ | ⟨hs, hr⟩ | ⟨hs, hr⟩ | ⟨hs, hr⟩ | ⟨hs, hr⟩ <;>
      simp only [hs]
    · exact ⟨hr, h.armed, h.ids⟩
    · exact hf _ ⟨congrArg (· + 1) hr, rfl, h.armed, h.ids⟩ rfl rfl
    · exact ⟨hr, h.armed, h.ids⟩
    · exact ⟨hr, h.armed, h.ids⟩
    · exact ⟨hr, h.armed, h.ids⟩
    · exact ⟨hr, h.armed, h.ids⟩

theorem sendNotifyWith_keeps (hf : ∀ t o, Owing t → t.nbRetry = s.nbRetry → Keeps (f t o))
    (status : StatusCode) (content : Option Nat) (o : Outcome) :
    Keeps (sendNotifyWith f status content s o) := by
  simp only [sendNotifyWith]
  split
  · exact ⟨h.requests, h.armed.trans h.timers.symm, h.ids⟩
  · exact hf _ _ ⟨h.requests, h.timers, h.armed, h.ids⟩ rfl

theorem retrieveAndSendNotifyWith_keeps (hs : s.state = .pendingNotify)
    (hf : ∀ t o, Owing t → t.nbRetry = s.nbRetry → Keeps (f t o)) (o : Outcome) :
    Keeps (retrieveAndSendNotifyWith f s o) := by
  have hr : s.requests.length + 1 = 1 := by simpa [hs, promisedRequests] using h.requests
  simp only [retrieveAndSendNotifyWith]
  cases o.attempt.representation with
  | bytes =>
    have howing : Owing { s with state := .pendingNotify } := ⟨hr, rfl, h.armed, h.ids⟩
    exact sendNotifyWith_keeps howing hf .ok _ o
  | null => exact ⟨succ.inj hr, h.armed, h.ids⟩
  | exception => exact hf _ _ h rfl

end

section

variable (h : Owing s) {o : Outcome}

include h

/-- **Retrying settles what is owed**: the request is replaced by a timer, or given up together
with the state that counted it. -/
theorem retry_keeps (o : Outcome) : Keeps (s.retry o) := by
  refine retryWith_keeps h o fun t ht hpn h0 => ?_
  refine retrieveAndSendNotifyWith_keeps ht hpn (fun u o hu hn => ?_) o
  exact retryWith_keeps_of_lt hu (by rw [hn, h0]; decide) _ o

theorem retrieveAndSendNotify_keeps (hs : s.state = .pendingNotify) (o : Outcome) :
    Keeps (s.retrieveAndSendNotify o) :=
  retrieveAndSendNotifyWith_keeps h hs (fun _ o ht _ => retry_keeps ht o) o

variable (status : StatusCode)

/-- **Sending settles what is owed**, whether or not the request leaves. -/
theorem sendNotify_keeps (content : Option Nat) (o : Outcome) :
    Keeps (s.sendNotify status content o) :=
  sendNotifyWith_keeps h (fun _ o ht _ => retry_keeps ht o) status content o

theorem Owing.not_promise : ¬ Promise s := fun hp => by
  have hr := h.requests
  rw [hp.1] at hr
  exact Nat.succ_ne_self _ hr

theorem sendErrorNotify_keeps (ho : o.errorInfo = true) :
    Keeps (s.sendErrorNotify status o) := by
  rw [sendErrorNotify, if_pos ho]
  exact sendNotify_keeps h status none o

theorem errorInfo_of_promise (hp : Promise (s.sendErrorNotify status o)) :
    o.errorInfo = true := by
  by_contra ho
  rw [sendErrorNotify, if_neg ho] at hp
  exact h.not_promise hp

theorem deleteAndSendExpired_keeps (ho : o.delete = true → o.errorInfo = true) :
    Keeps (s.deleteAndSendExpired o) := by
  rw [deleteAndSendExpired]
  split
  case isTrue hd => exact sendErrorNotify_keeps h .expired (ho hd)
  case isFalse => exact retry_keeps h o

theorem errorInfo_of_promise_delete (hp : Promise (s.deleteAndSendExpired o))
    (hd : o.delete = true) : o.errorInfo = true := by
  rw [deleteAndSendExpired, if_pos hd] at hp
  exact errorInfo_of_promise h .expired hp

end

end Sending

/-! ## The handlers -/

/-- The states of a subscription that is still served. -/
def active : SubState → Bool
  | .waitingNotification | .pendingNotify | .pendingNotifyAndNotification | .waitingMint
  | .waitingRetry => true
  | _ => false

section Handlers

variable {s : SubManager}

theorem Keeps.cancelExpirationTimer (h : Keeps s) : Keeps s.cancelExpirationTimer := by
  rw [SubManager.cancelExpirationTimer]
  cases he : s.expirationTimerId with
  | none => exact h
  | some id =>
    have harmed := armedIn_cancel_expiration h.ids
    rw [he] at harmed
    exact ⟨h.requests, harmed.trans h.armed, h.ids.filter _⟩

@[simp] theorem cancelExpirationTimer_state : s.cancelExpirationTimer.state = s.state := by
  rw [cancelExpirationTimer]
  cases s.expirationTimerId <;> rfl

@[simp] theorem cancelExpirationTimer_timerId :
    s.cancelExpirationTimer.timerId = s.timerId := by
  rw [cancelExpirationTimer]
  cases s.expirationTimerId <;> rfl

@[simp] theorem clearExpirationTimer_state : s.clearExpirationTimer.state = s.state :=
  cancelExpirationTimer_state

@[simp] theorem clearExpirationTimer_expirationTime :
    s.clearExpirationTimer.expirationTime = s.expirationTime := by
  rw [clearExpirationTimer, cancelExpirationTimer]
  cases s.expirationTimerId <;> rfl

theorem Keeps.clearExpirationTimer (h : Keeps s) :
    Keeps s.clearExpirationTimer ∧ s.clearExpirationTimer.expirationTimerId = none := by
  have hc := h.cancelExpirationTimer
  refine ⟨⟨hc.requests, hc.armed, hc.ids.allocated, by simp [SubManager.clearExpirationTimer],
    fun t ht hk => ⟨(hc.ids.own t ht hk).1, by simp [SubManager.clearExpirationTimer]⟩, ?_⟩, rfl⟩
  intro t ht hk
  change t ∈ s.cancelExpirationTimer.timers at ht
  rw [SubManager.cancelExpirationTimer] at ht
  cases he : s.expirationTimerId with
  | none =>
    rw [he] at ht
    exact absurd (h.ids.expiration t ht hk) (by simp [he])
  | some id =>
    rw [he] at ht
    obtain ⟨hmem, hne⟩ := mem_filter.mp ht
    have hid : some id = some t.id := he ▸ h.ids.expiration t hmem hk
    simp [hid] at hne

theorem subscriptionExpired_cases (h : Keeps s) (o : Outcome) :
    active s.state = true ∧ (∃ u, Owing u ∧ s.subscriptionExpired o = u.deleteAndSendExpired o) ∨
    active s.state = false ∧ s.subscriptionExpired o = s := by
  have hr := h.requests
  have ht := h.armed
  have hcancel := armedIn_cancel_own h.ids
  simp only [subscriptionExpired]
  cases hs : s.state <;> simp only [hs, promisedRequests, promisedTimers] at hr ht
  case waitingNotification | pendingNotify | pendingNotifyAndNotification =>
    refine .inl ⟨rfl, _, ?_, rfl⟩
    exact ⟨congrArg (· + 1) hr, rfl, ht, h.ids⟩
  case waitingMint | waitingRetry =>
    refine .inl ⟨rfl, _, ?_, rfl⟩
    exact ⟨congrArg (· + 1) hr, rfl, hcancel, h.ids.filter _⟩
  all_goals exact .inr ⟨rfl, rfl⟩

theorem resourceDeleted_cases (h : Keeps s) (o : Outcome) :
    active s.state = true ∧
      (∃ u, Owing u ∧ s.resourceDeleted o = u.sendErrorNotify .deleted o) ∨
    active s.state = false ∧ s.resourceDeleted o = s := by
  have hc := h.cancelExpirationTimer
  have hr := hc.requests
  have ht := hc.armed
  have hcancel := armedIn_cancel_own hc.ids
  rw [cancelExpirationTimer_timerId] at hcancel
  simp only [resourceDeleted]
  cases hs : s.state <;>
    simp only [cancelExpirationTimer_state, hs, promisedRequests, promisedTimers] at hr ht
  case waitingNotification | pendingNotify | pendingNotifyAndNotification =>
    refine .inl ⟨rfl, _, ?_, rfl⟩
    exact ⟨congrArg (· + 1) hr, rfl, ht, hc.ids⟩
  case waitingMint | waitingRetry =>
    refine .inl ⟨rfl, _, ?_, rfl⟩
    exact ⟨congrArg (· + 1) hr, rfl, hcancel, hc.ids.filter _⟩
  all_goals exact .inr ⟨rfl, rfl⟩

theorem subscriptionDeleted_keeps (h : Keeps s) : Keeps s.subscriptionDeleted := by
  have hc := h.cancelExpirationTimer
  have hr := hc.requests
  have ht := hc.armed
  have hcancel := armedIn_cancel_own hc.ids
  rw [cancelExpirationTimer_timerId] at hcancel
  simp only [subscriptionDeleted]
  cases hs : s.state <;>
    simp only [cancelExpirationTimer_state, hs, promisedRequests, promisedTimers] at hr ht
  case waitingNotification | pendingNotify | pendingNotifyAndNotification => exact ⟨hr, ht, hc.ids⟩
  case waitingMint | waitingRetry => exact ⟨hr, hcancel, hc.ids.filter _⟩
  all_goals exact h

/-- The mint or retry timer fired: the six states that wait for it count a request to send, or
are about to retrieve the resource. -/
theorem timeout_own_cases (h : Keeps s) {timer : Nat} (ht : ∃ t ∈ s.timers, t.id = timer)
    (he : s.expirationTimerId ≠ some timer) (o : Outcome) :
    ((s.state = .waitingMint ∨ s.state = .waitingRetry) ∧ ∃ u, Owing u ∧ u.state = .pendingNotify ∧
      (s.cancelTimer (some timer)).timeout timer o = u.retrieveAndSendNotify o) ∨
    ((s.state = .expiringPendingNotifyWaitingRetry ∨ s.state = .expiringWaitingRetry) ∧
      ∃ u, Owing u ∧ (s.cancelTimer (some timer)).timeout timer o = u.deleteAndSendExpired o) ∨
    ((s.state = .deletingPendingNotifyWaitingRetry ∨ s.state = .deletingWaitingRetry) ∧
      ∃ u, Owing u ∧ (s.cancelTimer (some timer)).timeout timer o = u.sendErrorNotify .deleted o) := by
  obtain ⟨t, htmem, rfl⟩ := ht
  have hkind : t.kind ≠ .expiration := fun hk => he (h.ids.expiration t htmem hk)
  have hown : s.timerId = some t.id := (h.ids.own t htmem hkind).1
  have hids : TimerIds (s.cancelTimer (some t.id)).timers s.nextTimer s.timerId
      s.expirationTimerId := h.ids.filter _
  have hcancel : (s.cancelTimer (some t.id)).armed = 0 := by
    rw [← hown]
    exact armedIn_cancel_own h.ids
  have hr := h.requests
  have hpos : promisedTimers s.state ≠ 0 := fun h0 =>
    hkind (armedIn_eq_zero.mp (h.armed.trans h0) t htmem)
  have he' : (s.cancelTimer (some t.id)).expirationTimerId ≠ some t.id := he
  have hstate : (s.cancelTimer (some t.id)).state = s.state := rfl
  simp only [timeout, if_neg he', hstate]
  cases hs : s.state <;> simp only [hs, promisedRequests, promisedTimers] at hr hpos
  case waitingMint | waitingRetry =>
    refine .inl ⟨by simp, { s.cancelTimer (some t.id) with state := .pendingNotify }, ?_, rfl, rfl⟩
    exact ⟨congrArg (· + 1) hr, rfl, hcancel, hids⟩
  case expiringPendingNotifyWaitingRetry | expiringWaitingRetry =>
    refine .inr (.inl ⟨by simp, _, ?_, rfl⟩)
    exact ⟨congrArg (· + 1) hr, rfl, hcancel, hids⟩
  case deletingPendingNotifyWaitingRetry | deletingWaitingRetry =>
    refine .inr (.inr ⟨by simp, _, ?_, rfl⟩)
    exact ⟨congrArg (· + 1) hr, rfl, hcancel, hids⟩
  all_goals exact absurd rfl hpos

theorem timeout_expiration_cases (h : Keeps s) {timer : Nat}
    (he : s.expirationTimerId = some timer) (o : Outcome) :
    Keeps (s.cancelTimer (some timer)) ∧
      (s.cancelTimer (some timer)).timeout timer o =
        (s.cancelTimer (some timer)).subscriptionExpired o := by
  have hk : Keeps (s.cancelTimer (some timer)) := by
    have harmed := armedIn_cancel_expiration h.ids
    rw [he] at harmed
    exact ⟨h.requests, harmed.trans h.armed, h.ids.filter _⟩
  refine ⟨hk, ?_⟩
  have he' : (s.cancelTimer (some timer)).expirationTimerId = some timer := he
  simp only [timeout, if_pos he']
  split
  case h_6 =>
    simp only [subscriptionExpired]
  all_goals rfl

end Handlers

/-! ## The exact condition of a step -/

/-- The error info of an expiry notify is built, when the notify is reached. -/
def expiryBuilt (o : Outcome) : Prop := o.delete = true → o.errorInfo = true

instance (o : Outcome) : Decidable (expiryBuilt o) := inferInstanceAs (Decidable (_ → _))

/-- When a step keeps the promise: the representation of an update that is to be sent is built,
the first notify is, the error info of a last notify is, and no unsuccessful answer makes the
notifier delete its own subscription while it serves it. -/
def InFlightCondition (s : SubManager) : Event → Prop
  | .resourceUpdated now prepared _ =>
    s.state = .waitingNotification →
      now > toLong (s.lastSuccessConfirmTime + s.minimalTimeBetweenNotifications) →
        prepared = true
  | .retrieveAndSendNotify o =>
    s.nbRetry < maxNbOfRetries → o.attempt.representation ≠ .exception
  | .unsuccessConfirm _ code deletion _ =>
    -- in the other states such an answer ends a subscription that is over anyway
    s.state = .pendingNotify ∨ s.state = .pendingNotifyAndNotification →
      retryable code = false → deletion = false
  | .timeout timer o =>
    -- the expiration, and below a retry of the last notify
    if s.expirationTimerId = some timer then active s.state = true → expiryBuilt o
    else
      (s.state = .expiringPendingNotifyWaitingRetry ∨ s.state = .expiringWaitingRetry →
        expiryBuilt o) ∧
      (s.state = .deletingPendingNotifyWaitingRetry ∨ s.state = .deletingWaitingRetry →
        o.errorInfo = true)
  | .subscriptionExpired o => active s.state = true → expiryBuilt o
  | .resourceDeleted o => active s.state = true → o.errorInfo = true
  | .startExpirationTimer now o =>
    0 < s.expirationTime → s.expirationTime < MAX_DATE → s.expirationTime ≤ now →
      active s.state = true → expiryBuilt o
  | .successConfirm _ _ _ | .subscriptionDeleted | .subscriptionUpdated _ _ => True

instance (s : SubManager) : (e : Event) → Decidable (InFlightCondition s e)
  | .resourceUpdated _ _ _ | .retrieveAndSendNotify _ => inferInstanceAs (Decidable (_ → _))
  | .unsuccessConfirm _ _ _ _ => inferInstanceAs (Decidable (_ → _))
  | .timeout _ _ => inferInstanceAs (Decidable (ite _ _ _))
  | .subscriptionExpired _ | .resourceDeleted _ => inferInstanceAs (Decidable (_ → _))
  | .startExpirationTimer _ _ => inferInstanceAs (Decidable (_ → _))
  | .successConfirm _ _ _ | .subscriptionDeleted | .subscriptionUpdated _ _ =>
    inferInstanceAs (Decidable True)

section Steps

variable {s t : SubManager}

theorem subscriptionExpired_keeps (h : Keeps s) {o : Outcome}
    (ho : active s.state = true → expiryBuilt o) : Keeps (s.subscriptionExpired o) := by
  rcases subscriptionExpired_cases h o with ⟨ha, u, hu, heq⟩ | ⟨-, heq⟩
  · rw [heq]
    exact deleteAndSendExpired_keeps hu (ho ha)
  · rwa [heq]

theorem expiryBuilt_of_promise (h : Keeps s) {o : Outcome}
    (hp : Promise (s.subscriptionExpired o)) (ha : active s.state = true) : expiryBuilt o := by
  rcases subscriptionExpired_cases h o with ⟨-, u, hu, heq⟩ | ⟨hna, -⟩
  · rw [heq] at hp
    exact errorInfo_of_promise_delete hu hp
  · simp [ha] at hna

theorem resourceUpdated_cases (h : Keeps s) (now : Int) :
    (s.state = .waitingNotification ∧
      now > toLong (s.lastSuccessConfirmTime + s.minimalTimeBetweenNotifications) ∧
      ∃ u, Owing u ∧ s.resourceUpdated now = (true, u)) ∨
    (¬ (s.state = .waitingNotification ∧
      now > toLong (s.lastSuccessConfirmTime + s.minimalTimeBetweenNotifications)) ∧
      ∃ u, Keeps u ∧ s.resourceUpdated now = (false, u)) := by
  have hr := h.requests
  have ht := h.armed
  simp only [resourceUpdated]
  cases hs : s.state <;> simp only [hs, promisedRequests, promisedTimers] at hr ht
  case waitingNotification =>
    by_cases hnow : now > toLong (s.lastSuccessConfirmTime + s.minimalTimeBetweenNotifications)
    · refine .inl ⟨rfl, hnow, { s with state := .pendingNotify }, ?_, by rw [if_pos hnow]⟩
      exact ⟨congrArg (· + 1) hr, rfl, ht, h.ids⟩
    · refine .inr ⟨fun hn => hnow hn.2, _, ?_, by rw [if_neg hnow]⟩
      exact inFlight_startTimer (s := { s with state := .waitingMint }) hr ht h.ids .mint
        (by decide) _
  case pendingNotify | pendingNotifyAndNotification =>
    refine .inr ⟨by simp, _, ?_, rfl⟩
    exact ⟨hr, ht, h.ids⟩
  case waitingRetry =>
    refine .inr ⟨by simp, { s with nbRetry := -1 }, ⟨?_, ?_, h.ids⟩, by rw [hs]⟩
    · rw [hs]
      exact hr
    · rw [hs]
      exact ht
  all_goals exact .inr ⟨by simp, s, h, rfl⟩

theorem doSuccessConfirm_keeps (hr : s.requests.length + 1 = promisedRequests s.state)
    (ht : s.armed = promisedTimers s.state)
    (hids : TimerIds s.timers s.nextTimer s.timerId s.expirationTimerId) (now : Int)
    (o : Outcome) : Keeps (s.doSuccessConfirm now o) := by
  simp only [doSuccessConfirm]
  cases hs : s.state <;> simp only [hs, promisedRequests, promisedTimers] at hr ht
  case pendingNotify | expiringPendingNotifyWaitingRetry | deletingPendingNotifyWaitingRetry |
      expiringPendingNotify | deletingPendingNotify | expiring | deleting =>
    exact ⟨succ.inj hr, ht, hids⟩
  case pendingNotifyAndNotification =>
    by_cases hmin : s.minimalTimeBetweenNotifications ≤ 0
    · rw [if_pos hmin]
      have howing : Owing { s with
        lastSuccessConfirmTime := now, nbRetry := 0, state := .pendingNotify } :=
        ⟨hr, rfl, ht, hids⟩
      exact retrieveAndSendNotify_keeps howing rfl o
    · rw [if_neg hmin]
      exact inFlight_startTimer (s := { s with
        lastSuccessConfirmTime := now, nbRetry := 0, state := .waitingMint }) (succ.inj hr) ht
        hids .mint (by decide) _
  all_goals exact absurd hr (succ_ne_zero _)

theorem endNotify_keeps (h : Owing s) {after : SubState}
    (hr : s.requests.length = promisedRequests after) (ht : promisedTimers after = 0)
    (request code : StatusCode) (o : Outcome) : Keeps (s.endNotify request code after o) := by
  rw [endNotify]
  split
  · exact retry_keeps h o
  · exact ⟨hr, h.armed.trans ht.symm, h.ids⟩

/-- The answer leaves one request less than the state promises: every state settles it except the
deletion of a subscription that was being served. -/
theorem doUnsuccessConfirm_keeps (hr : s.requests.length + 1 = promisedRequests s.state)
    (ht : s.armed = promisedTimers s.state)
    (hids : TimerIds s.timers s.nextTimer s.timerId s.expirationTimerId)
    (request code : StatusCode) {deletion : Bool}
    (hdel : s.state = .pendingNotify ∨ s.state = .pendingNotifyAndNotification →
      retryable code = false → deletion = false) (o : Outcome) :
    Keeps (s.doUnsuccessConfirm request code deletion o) := by
  have howing : promisedTimers s.state = 0 → Owing s := fun h0 => ⟨hr, h0, ht.trans h0, hids⟩
  simp only [doUnsuccessConfirm]
  cases hs : s.state <;> rw [hs] at howing hdel <;>
    simp only [hs, promisedRequests, promisedTimers] at hr ht
  case pendingNotify =>
    cases hcode : retryable code with
    | true => exact retry_keeps (howing rfl) o
    | false =>
      rw [hdel (.inl rfl) hcode]
      exact retry_keeps (howing rfl) o
  case pendingNotifyAndNotification =>
    cases hcode : retryable code with
    | true => exact retry_keeps (howing rfl) o
    | false =>
      rw [hdel (.inr rfl) hcode]
      exact retry_keeps (howing rfl) o
  case expiringPendingNotifyWaitingRetry | deletingPendingNotifyWaitingRetry =>
    exact ⟨succ.inj hr, ht, hids⟩
  case expiringPendingNotify =>
    exact endNotify_keeps (howing rfl) (succ.inj hr : _ = promisedRequests .expiring) rfl request
      code o
  case deletingPendingNotify =>
    exact endNotify_keeps (howing rfl) (succ.inj hr : _ = promisedRequests .deleting) rfl request
      code o
  case expiring | deleting =>
    exact endNotify_keeps (howing rfl) (succ.inj hr : _ = promisedRequests .deleted) rfl request
      code o
  all_goals exact absurd hr (succ_ne_zero _)

/-- The deletion of a subscription that is being served, after the only request it had was
answered, leaves a state that waits for an answer. -/
theorem not_promise_of_deletion (hr : s.requests.length = 0)
    (hs : s.state = .pendingNotify ∨ s.state = .pendingNotifyAndNotification) {code : StatusCode}
    (hcode : retryable code = false) (request : StatusCode) (o : Outcome) :
    ¬ Promise (s.doUnsuccessConfirm request code true o) := by
  have hreq : s.cancelExpirationTimer.requests = s.requests := by
    rw [cancelExpirationTimer]
    cases s.expirationTimerId <;> rfl
  intro hp
  have hlen := hp.1
  rcases hs with hs | hs <;>
    simp only [doUnsuccessConfirm, subscriptionDeleted, hs, hcode, promisedRequests, if_true,
      Bool.false_eq_true, if_false, hreq, hr] at hlen <;>
    exact absurd hlen (by decide)

theorem takeConfirm_requests {r : Notify} (hr : r ∈ s.requests) :
    (s.takeConfirm r).requests.length + 1 = s.requests.length := by
  have hpos : 0 < s.requests.length := length_pos_of_mem hr
  rw [takeConfirm, length_erase_of_mem hr]
  omega

theorem startExpirationTimer_cases (h : Keeps s) (now : Int) (o : Outcome) :
    (0 < s.expirationTime ∧ s.expirationTime < MAX_DATE ∧ s.expirationTime ≤ now ∧
      ∃ u, Keeps u ∧ u.state = s.state ∧ s.startExpirationTimer now o = u.subscriptionExpired o) ∨
    (¬ (0 < s.expirationTime ∧ s.expirationTime < MAX_DATE ∧ s.expirationTime ≤ now) ∧
      Keeps (s.startExpirationTimer now o)) := by
  obtain ⟨hkeep, hnone⟩ := h.clearExpirationTimer
  have hids := hkeep.ids
  rw [hnone] at hids
  simp only [startExpirationTimer, clearExpirationTimer_expirationTime]
  by_cases hin : 0 < s.expirationTime ∧ s.expirationTime < MAX_DATE
  · rw [if_pos hin]
    by_cases hnow : s.expirationTime > now
    · refine .inr ⟨fun hall => absurd hall.2.2 (by omega), ?_⟩
      rw [if_pos hnow]
      exact ⟨hkeep.requests, hkeep.armed, hids.startExpiration _⟩
    · refine .inl ⟨hin.1, hin.2, by omega, _, hkeep, by simp, ?_⟩
      rw [if_neg hnow]
  · refine .inr ⟨fun hall => hin ⟨hall.1, hall.2.1⟩, ?_⟩
    rw [if_neg hin]
    exact hkeep

/-- **The condition is sufficient**: a step that meets it keeps the promise. -/
theorem step_keeps {e : Event} (h : Keeps s) (hC : InFlightCondition s e)
    (hstep : step s e = some t) : Keeps t := by
  cases e with
  | resourceUpdated now prepared o =>
    cases hstep
    have hu : Keeps { s with updates := s.updates + 1 } := ⟨h.requests, h.armed, h.ids⟩
    rw [notifyUpdate]
    rcases resourceUpdated_cases hu now with ⟨hs, hnow, u, howing, heq⟩ | ⟨-, u, hkeep, heq⟩
    · rw [heq]
      dsimp only
      rw [if_pos (hC hs hnow)]
      exact sendNotify_keeps howing .ok _ o
    · rw [heq]
      exact hkeep
  | retrieveAndSendNotify o =>
    obtain ⟨hs, heq⟩ := Option.ite_none_right_eq_some.mp hstep
    cases heq
    have hr := h.requests
    have ht := h.armed
    rw [hs] at hr ht
    change Keeps (retrieveAndSendNotifyWith retry s o)
    rw [retrieveAndSendNotifyWith]
    cases hrep : o.attempt.representation with
    | bytes =>
      have howing : Owing { s with state := .pendingNotify } :=
        ⟨congrArg (· + 1) hr, rfl, ht, h.ids⟩
      exact sendNotify_keeps howing .ok _ o
    | null => exact ⟨hr, ht, h.ids⟩
    | exception =>
      have hlt : ¬ s.nbRetry < maxNbOfRetries := fun hlt => hC hlt hrep
      rw [retry, retryWith, if_neg hlt, hs]
      exact h
  | successConfirm request now o =>
    obtain ⟨r, hfind, heq⟩ := Option.map_eq_some_iff.mp hstep
    cases heq
    have hlen := takeConfirm_requests (mem_of_find?_eq_some hfind)
    exact doSuccessConfirm_keeps (s := (s.takeConfirm r).noteConfirmed r)
      (hlen.trans h.requests) h.armed h.ids now o
  | unsuccessConfirm request code deletion o =>
    obtain ⟨r, hfind, heq⟩ := Option.map_eq_some_iff.mp hstep
    cases heq
    have hlen := takeConfirm_requests (mem_of_find?_eq_some hfind)
    exact doUnsuccessConfirm_keeps (hlen.trans h.requests) h.armed h.ids r.status code hC o
  | timeout timer o =>
    obtain ⟨ht, heq⟩ := Option.ite_none_right_eq_some.mp hstep
    cases heq
    by_cases he : s.expirationTimerId = some timer
    · obtain ⟨hkeep, heq⟩ := timeout_expiration_cases h he o
      rw [InFlightCondition, if_pos he] at hC
      rw [heq]
      exact subscriptionExpired_keeps hkeep hC
    · rw [InFlightCondition, if_neg he] at hC
      rcases timeout_own_cases h ht he o with
        ⟨-, u, hu, hpn, heq⟩ | ⟨hs, u, hu, heq⟩ | ⟨hs, u, hu, heq⟩
      · rw [heq]
        exact retrieveAndSendNotify_keeps hu hpn o
      · rw [heq]
        exact deleteAndSendExpired_keeps hu (hC.1 hs)
      · rw [heq]
        exact sendErrorNotify_keeps hu .deleted (hC.2 hs)
  | subscriptionExpired o =>
    cases hstep
    exact subscriptionExpired_keeps h hC
  | subscriptionDeleted =>
    cases hstep
    exact subscriptionDeleted_keeps h
  | resourceDeleted o =>
    cases hstep
    rcases resourceDeleted_cases h o with ⟨ha, u, hu, heq⟩ | ⟨-, heq⟩
    · rw [heq]
      exact sendErrorNotify_keeps hu .deleted (hC ha)
    · rwa [heq]
  | subscriptionUpdated minimalTime expiration =>
    cases hstep
    exact ⟨h.requests, h.armed, h.ids⟩
  | startExpirationTimer now o =>
    cases hstep
    rcases startExpirationTimer_cases h now o with ⟨h0, hmax, hnow, u, hu, hs, heq⟩ | ⟨-, hkeep⟩
    · rw [heq]
      exact subscriptionExpired_keeps hu (by rw [hs]; exact hC h0 hmax hnow)
    · exact hkeep

/-- **The condition is necessary**: a step that leads to a state whose promise holds meets it. -/
theorem condition_of_promise {e : Event} (h : Keeps s) (hstep : step s e = some t)
    (hp : Promise t) : InFlightCondition s e := by
  cases e with
  | resourceUpdated now prepared o =>
    cases hstep
    intro hs hnow
    have hu : Keeps { s with updates := s.updates + 1 } := ⟨h.requests, h.armed, h.ids⟩
    rw [notifyUpdate] at hp
    rcases resourceUpdated_cases hu now with ⟨-, -, u, howing, heq⟩ | ⟨hn, -⟩
    · rw [heq] at hp
      cases prepared with
      | true => rfl
      | false => exact absurd hp howing.not_promise
    · exact absurd ⟨hs, hnow⟩ hn
  | retrieveAndSendNotify o =>
    obtain ⟨hs, heq⟩ := Option.ite_none_right_eq_some.mp hstep
    cases heq
    intro hlt hrep
    change Promise (retrieveAndSendNotifyWith retry s o) at hp
    rw [retrieveAndSendNotifyWith, hrep] at hp
    rw [retry, retryWith, if_pos hlt] at hp
    have harmed : armedIn (⟨s.nextTimer, .retry, RETRY_TIMER⟩ :: s.timers) =
        promisedTimers (retryState s.state) := hp.2
    rw [hs, armedIn, countP_cons_of_pos (by simp)] at harmed
    exact absurd harmed (succ_ne_zero _)
  | successConfirm request now o => trivial
  | unsuccessConfirm request code deletion o =>
    obtain ⟨r, hfind, heq⟩ := Option.map_eq_some_iff.mp hstep
    cases heq
    intro hs hcode
    have hlen := takeConfirm_requests (mem_of_find?_eq_some hfind)
    rw [h.requests] at hlen
    cases deletion with
    | false => rfl
    | true =>
      have hzero : (s.takeConfirm r).requests.length = 0 := by
        rcases hs with hs | hs <;> rw [hs] at hlen <;> exact succ.inj hlen
      exact absurd hp (not_promise_of_deletion hzero hs hcode r.status o)
  | timeout timer o =>
    obtain ⟨ht, heq⟩ := Option.ite_none_right_eq_some.mp hstep
    cases heq
    by_cases he : s.expirationTimerId = some timer
    · obtain ⟨hkeep, heq⟩ := timeout_expiration_cases h he o
      rw [heq] at hp
      rw [InFlightCondition, if_pos he]
      exact expiryBuilt_of_promise hkeep hp
    · rw [InFlightCondition, if_neg he]
      rcases timeout_own_cases h ht he o with
        ⟨hs, u, hu, hpn, heq⟩ | ⟨hs, u, hu, heq⟩ | ⟨hs, u, hu, heq⟩
      · rcases hs with hs | hs <;> simp [hs]
      · rw [heq] at hp
        refine ⟨fun _ => errorInfo_of_promise_delete hu hp, ?_⟩
        rcases hs with hs | hs <;> simp [hs]
      · rw [heq] at hp
        refine ⟨?_, fun _ => errorInfo_of_promise hu .deleted hp⟩
        rcases hs with hs | hs <;> simp [hs]
  | subscriptionExpired o =>
    cases hstep
    exact expiryBuilt_of_promise h hp
  | subscriptionDeleted => trivial
  | resourceDeleted o =>
    cases hstep
    intro ha
    rcases resourceDeleted_cases h o with ⟨-, u, hu, heq⟩ | ⟨hna, -⟩
    · rw [heq] at hp
      exact errorInfo_of_promise hu .deleted hp
    · simp [ha] at hna
  | subscriptionUpdated minimalTime expiration => trivial
  | startExpirationTimer now o =>
    cases hstep
    intro h0 hmax hnow
    rcases startExpirationTimer_cases h now o with ⟨-, -, -, u, hu, hs, heq⟩ | ⟨hn, -⟩
    · rw [heq] at hp
      rw [← hs]
      exact expiryBuilt_of_promise hu hp
    · exact absurd ⟨h0, hmax, hnow⟩ hn

end Steps

/-! ## Runs -/

/-- The constructor, with the two values read from the subscription. -/
def new (minimalTime expiration : Int) : SubManager :=
  { minimalTimeBetweenNotifications := minimalTime, expirationTime := expiration }

theorem new_keeps (minimalTime expiration : Int) : Keeps (new minimalTime expiration) where
  requests := rfl
  armed := rfl
  ids := ⟨by simp [new], by simp [new], by simp [new], by simp [new]⟩

/-- Nothing is waited for, or what is waited for can come: the confirm of an outstanding request
or the timeout of an armed mint or retry timer. -/
def CanMove (s : SubManager) : Prop :=
  s.state = .waitingNotification ∨ s.state = .deleted ∨
    (∃ r ∈ s.requests, ∀ now o, (step s (.successConfirm r.id now o)).isSome) ∨
    ∃ t ∈ s.timers, t.kind ≠ .expiration ∧ ∀ o, (step s (.timeout t.id o)).isSome

theorem Promise.canMove {s : SubManager} (h : Promise s) : CanMove s := by
  have hrequest : 0 < s.requests.length → CanMove s := fun hpos => by
    obtain ⟨r, hr⟩ := exists_mem_of_length_pos hpos
    refine .inr (.inr (.inl ⟨r, hr, fun now o => ?_⟩))
    simp only [step, Option.isSome_map, find?_isSome]
    exact ⟨r, hr, by simp⟩
  have htimer : 0 < s.armed → CanMove s := fun hpos => by
    obtain ⟨t, ht, hk⟩ := countP_pos_iff.mp hpos
    refine .inr (.inr (.inr ⟨t, ht, by simpa using hk, fun o => ?_⟩))
    simp only [step, if_pos (show ∃ u ∈ s.timers, u.id = t.id from ⟨t, ht, rfl⟩),
      Option.isSome_some]
  rw [h.1] at hrequest
  rw [h.2] at htimer
  cases hs : s.state <;> rw [hs] at hrequest htimer
  case waitingNotification => exact .inl hs
  case deleted => exact .inr (.inl hs)
  case waitingMint | waitingRetry | expiringWaitingRetry | deletingWaitingRetry =>
    exact htimer Nat.one_pos
  case expiringPendingNotify | deletingPendingNotify => exact hrequest Nat.two_pos
  all_goals exact hrequest Nat.one_pos

/-- **The in-flight invariant of a subscription**: in a run of events from a new notifier, every
state has exactly the outstanding requests and armed timers it promises, and can move on, if and
only if every step of the run meets `InFlightCondition`. -/
theorem inFlight_iff (minimalTime expiration : Int) (es : List Event) :
    Run.Visits step (fun s => Promise s ∧ CanMove s) (new minimalTime expiration) es ↔
      Run.Along step InFlightCondition (new minimalTime expiration) es :=
  Run.visits_iff_along (I := Keeps) (fun _ h => ⟨h.promise, h.promise.canMove⟩)
    (fun _ _ _ => step_keeps) (fun _ _ _ h hstep hp => condition_of_promise h hstep hp.1)
    (new_keeps minimalTime expiration)

/-- The serialisation of an updated resource throws after `resourceUpdated` has moved the notifier
to `ST_PENDING_NOTIFY`: it waits for the answer to a request that was never sent. -/
theorem inFlight_broken :
    ¬ ∀ es, Run.Visits step (fun s => Promise s ∧ CanMove s) (new 0 0) es := by
  intro h
  have hp : Promise _ := (Run.visits_exec (h [.resourceUpdated 1 false {}]) rfl).1
  revert hp
  decide

end Ong.Scl.SubManager
