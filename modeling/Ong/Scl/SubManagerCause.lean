import Ong.Scl.SubManagerInFlight

/-!
# The cause of the end of a subscription

A subscription ends because it expires or because its resource is deleted.  Each cause has its
own copy of the terminating states; the subscriber is told by an error notify, `STATUS_EXPIRED` or
`STATUS_DELETED`.

## Main results

* `step_ends`: a step of a terminating subscription keeps its cause, but for an unsuccessful answer
  in `ST_EXPIRING_PENDING_NOTIFY_WAITING_RETRY`
-/

namespace Ong.Scl.SubManager

open M2M

/-- The status sent by the `EXPIRING` and by the `DELETING` states. -/
def causeOf : SubState → Option StatusCode
  | .expiringPendingNotifyWaitingRetry | .expiringWaitingRetry | .expiringPendingNotify
  | .expiring => some .expired
  | .deletingPendingNotifyWaitingRetry | .deletingWaitingRetry | .deletingPendingNotify
  | .deleting => some .deleted
  | _ => none

/-- From `s` to `t` the subscription has stayed in the states of the cause `c`, or reached
`ST_DELETED`, and all it has sent carries `c`. -/
def Ends (c : StatusCode) (s t : SubManager) : Prop :=
  (t.state = .deleted ∨ causeOf t.state = some c) ∧
    ∃ new, t.sent = new ++ s.sent ∧ ∀ n ∈ new, n.status = c

/-- **The cause is preserved along a run**: from any point of it at which the subscription is in
an `EXPIRING` or a `DELETING` state, it stays in the states of this cause or in `ST_DELETED` and
sends nothing but notifies of this cause; from `ST_DELETED` nothing changes or is sent. -/
def CausePreserved (start : SubManager) (es : List Event) : Prop :=
  ∀ es₁ es₂ s, es = es₁ ++ es₂ → Run.exec step start es₁ = some s →
    (∀ c, causeOf s.state = some c → Run.Visits step (Ends c s) s es₂) ∧
    (s.state = .deleted → Run.Visits step (fun t => t.state = .deleted ∧ t.sent = s.sent) s es₂)

/-- No unsuccessful answer while the expiry notify waits for a retry and another notify for its
answer. -/
def CauseCondition (s : SubManager) : Event → Prop
  | .unsuccessConfirm _ _ _ _ => s.state ≠ .expiringPendingNotifyWaitingRetry
  | _ => True

instance (s : SubManager) : (e : Event) → Decidable (CauseCondition s e)
  | .unsuccessConfirm _ _ _ _ => inferInstanceAs (Decidable (_ ≠ _))
  | .resourceUpdated _ _ _ | .retrieveAndSendNotify _ | .successConfirm _ _ _ | .timeout _ _
  | .subscriptionExpired _ | .subscriptionDeleted | .resourceDeleted _
  | .subscriptionUpdated _ _ | .startExpirationTimer _ _ => inferInstanceAs (Decidable True)

section Sending

variable {c : StatusCode} {s t u : SubManager}

theorem Ends.refl (h : causeOf s.state = some c) : Ends c s s :=
  ⟨.inr h, [], rfl, by simp⟩

theorem Ends.trans (h₁ : Ends c s t) (h₂ : Ends c t u) : Ends c s u := by
  obtain ⟨-, new₁, heq₁, hall₁⟩ := h₁
  obtain ⟨hstate, new₂, heq₂, hall₂⟩ := h₂
  refine ⟨hstate, new₂ ++ new₁, by rw [heq₂, heq₁, List.append_assoc], fun n hn => ?_⟩
  rcases List.mem_append.mp hn with hn | hn
  · exact hall₂ n hn
  · exact hall₁ n hn

theorem Ends.of_sent_eq (h : t.state = .deleted ∨ causeOf t.state = some c)
    (hsent : t.sent = s.sent) : Ends c s t :=
  ⟨h, [], hsent, by simp⟩

section

variable (h : causeOf s.state = some c)

include h

theorem causeOf_retryState : causeOf (retryState s.state) = some c := by
  cases hs : s.state <;> simp_all [causeOf, retryState]

theorem retryWith_ends (f : SubManager → Outcome → SubManager) (o : Outcome) :
    Ends c s (retryWith f s o) := by
  rw [retryWith]
  split
  · exact .of_sent_eq (.inr (causeOf_retryState h)) rfl
  · cases hs : s.state <;> rw [hs] at h <;> dsimp only
    case expiringPendingNotify | deletingPendingNotify => exact .of_sent_eq (.inr h) rfl
    case expiring | deleting => exact .of_sent_eq (.inl rfl) rfl
    case pendingNotify | pendingNotifyAndNotification => cases h
    all_goals exact .refl (by rw [hs]; exact h)

theorem retry_ends (o : Outcome) : Ends c s (s.retry o) :=
  retryWith_ends h _ o

theorem sendErrorNotify_ends (o : Outcome) : Ends c s (s.sendErrorNotify c o) := by
  rw [sendErrorNotify]
  split
  · change Ends c s (sendNotifyWith retry c none s o)
    rw [sendNotifyWith]
    split
    · exact ⟨.inr h, [⟨s.sent.length, c, none⟩], rfl, by simp⟩
    · have hs : Ends c s { s with pendingLastSuccessRequestTime := o.attempt.now } :=
        .of_sent_eq (.inr h) rfl
      exact hs.trans (retry_ends (s := { s with
        pendingLastSuccessRequestTime := o.attempt.now }) h o.next)
  · exact .refl h

end

theorem deleteAndSendExpired_ends (h : causeOf s.state = some .expired) (o : Outcome) :
    Ends .expired s (s.deleteAndSendExpired o) := by
  rw [deleteAndSendExpired]
  split
  · exact sendErrorNotify_ends h o
  · exact retry_ends h o

theorem endNotify_ends (h : causeOf s.state = some c) {after : SubState}
    (hafter : after = .deleted ∨ causeOf after = some c) (request code : StatusCode)
    (o : Outcome) : Ends c s (s.endNotify request code after o) := by
  rw [endNotify]
  split
  · exact retry_ends h o
  · exact .of_sent_eq hafter rfl

end Sending

section Steps

variable {c : StatusCode} {s t : SubManager}

theorem not_active_of_causeOf (h : causeOf s.state = some c) : active s.state = false := by
  cases hs : s.state <;> simp_all [causeOf, active]

section

variable (h : active s.state = false)

include h

theorem subscriptionExpired_of_not_active (o : Outcome) : s.subscriptionExpired o = s := by
  cases hs : s.state <;> simp_all [active, subscriptionExpired]

theorem subscriptionDeleted_of_not_active : s.subscriptionDeleted = s := by
  cases hs : s.state <;> simp_all [active, subscriptionDeleted]

theorem resourceDeleted_of_not_active (o : Outcome) : s.resourceDeleted o = s := by
  cases hs : s.state <;> simp_all [active, resourceDeleted]

theorem resourceUpdated_of_not_active (now : Int) : s.resourceUpdated now = (false, s) := by
  cases hs : s.state <;> simp_all [active, resourceUpdated]

theorem notifyUpdate_of_not_active (now : Int) (prepared : Bool) (o : Outcome) :
    s.notifyUpdate now prepared o = { s with updates := s.updates + 1 } := by
  rw [notifyUpdate, resourceUpdated_of_not_active (s := { s with updates := s.updates + 1 }) h]

end

@[simp] theorem clearExpirationTimer_sent : s.clearExpirationTimer.sent = s.sent := by
  rw [clearExpirationTimer, cancelExpirationTimer]
  cases s.expirationTimerId <;> rfl

theorem startExpirationTimer_of_not_active (h : active s.state = false) (now : Int) (o : Outcome) :
    (s.startExpirationTimer now o).state = s.state ∧
      (s.startExpirationTimer now o).sent = s.sent := by
  have hclear : active s.clearExpirationTimer.state = false := by
    rwa [clearExpirationTimer_state]
  simp only [startExpirationTimer, subscriptionExpired_of_not_active hclear]
  split
  · split <;> exact ⟨clearExpirationTimer_state, clearExpirationTimer_sent⟩
  · exact ⟨clearExpirationTimer_state, clearExpirationTimer_sent⟩

theorem timeout_ends (h : causeOf s.state = some c) (timer : Nat) (o : Outcome) :
    Ends c s (s.timeout timer o) := by
  rw [timeout]
  split
  · cases hs : s.state <;> dsimp only <;> rw [hs] at h
    case waitingNotification | pendingNotify | pendingNotifyAndNotification | waitingMint |
        waitingRetry => cases h
    all_goals exact .refl (by rw [hs]; exact h)
  · cases hs : s.state <;> dsimp only <;> rw [hs] at h
    case waitingMint | waitingRetry => cases h
    case expiringPendingNotifyWaitingRetry =>
      cases h
      exact deleteAndSendExpired_ends (s := { s with state := .expiringPendingNotify }) rfl o
    case deletingPendingNotifyWaitingRetry =>
      cases h
      exact sendErrorNotify_ends (s := { s with state := .deletingPendingNotify }) rfl o
    case expiringWaitingRetry =>
      cases h
      exact deleteAndSendExpired_ends (s := { s with state := .expiring }) rfl o
    case deletingWaitingRetry =>
      cases h
      exact sendErrorNotify_ends (s := { s with state := .deleting }) rfl o
    all_goals exact .refl (by rw [hs]; exact h)

theorem doSuccessConfirm_ends (h : causeOf s.state = some c) (now : Int) (o : Outcome) :
    Ends c s (s.doSuccessConfirm now o) := by
  rw [doSuccessConfirm]
  cases hs : s.state <;> dsimp only <;> rw [hs] at h
  case pendingNotify | pendingNotifyAndNotification => cases h
  case expiringPendingNotifyWaitingRetry | deletingPendingNotifyWaitingRetry |
      expiringPendingNotify | deletingPendingNotify => exact .of_sent_eq (.inr h) rfl
  case expiring | deleting => exact .of_sent_eq (.inl rfl) rfl
  all_goals exact .refl (by rw [hs]; exact h)

/-- The answer that loses the cause is the one in `ST_EXPIRING_PENDING_NOTIFY_WAITING_RETRY`,
whose branch goes to `ST_DELETING_WAITING_RETRY`. -/
theorem doUnsuccessConfirm_ends (h : causeOf s.state = some c)
    (hs : s.state ≠ .expiringPendingNotifyWaitingRetry) (request code : StatusCode)
    (deletion : Bool) (o : Outcome) : Ends c s (s.doUnsuccessConfirm request code deletion o) := by
  rw [doUnsuccessConfirm]
  have hcause := h
  cases hst : s.state <;> dsimp only <;> rw [hst] at h
  case pendingNotify | pendingNotifyAndNotification => cases h
  case expiringPendingNotifyWaitingRetry => exact absurd hst hs
  case deletingPendingNotifyWaitingRetry => exact .of_sent_eq (.inr h) rfl
  case expiringPendingNotify | deletingPendingNotify =>
    cases h
    exact endNotify_ends hcause (.inr rfl) request code o
  case expiring | deleting => exact endNotify_ends hcause (.inl rfl) request code o
  all_goals exact .refl hcause

/-- What can still happen to a subscription that is no longer served: an answer, a timeout, or
nothing that changes its state or sends anything. -/
theorem step_of_not_active {e : Event} (ha : active s.state = false) (hstep : step s e = some t) :
    (t.state = s.state ∧ t.sent = s.sent) ∨
    (∃ r now o, t = ((s.takeConfirm r).noteConfirmed r).doSuccessConfirm now o) ∨
    (∃ id r code deletion o, e = .unsuccessConfirm id code deletion o ∧
      t = (s.takeConfirm r).doUnsuccessConfirm r.status code deletion o) ∨
    ∃ timer o, t = (s.cancelTimer (some timer)).timeout timer o := by
  cases e with
  | resourceUpdated now prepared o =>
    cases hstep
    rw [notifyUpdate_of_not_active ha]
    exact .inl ⟨rfl, rfl⟩
  | retrieveAndSendNotify o =>
    obtain ⟨hs, -⟩ := Option.ite_none_right_eq_some.mp hstep
    rw [hs] at ha
    cases ha
  | successConfirm request now o =>
    obtain ⟨r, -, heq⟩ := Option.map_eq_some_iff.mp hstep
    exact .inr (.inl ⟨r, now, o, heq.symm⟩)
  | unsuccessConfirm request code deletion o =>
    obtain ⟨r, -, heq⟩ := Option.map_eq_some_iff.mp hstep
    exact .inr (.inr (.inl ⟨request, r, code, deletion, o, rfl, heq.symm⟩))
  | timeout timer o =>
    obtain ⟨-, heq⟩ := Option.ite_none_right_eq_some.mp hstep
    cases heq
    exact .inr (.inr (.inr ⟨timer, o, rfl⟩))
  | subscriptionExpired o =>
    cases hstep
    rw [subscriptionExpired_of_not_active ha]
    exact .inl ⟨rfl, rfl⟩
  | subscriptionDeleted =>
    cases hstep
    rw [subscriptionDeleted_of_not_active ha]
    exact .inl ⟨rfl, rfl⟩
  | resourceDeleted o =>
    cases hstep
    rw [resourceDeleted_of_not_active ha]
    exact .inl ⟨rfl, rfl⟩
  | subscriptionUpdated minimalTime expiration =>
    cases hstep
    exact .inl ⟨rfl, rfl⟩
  | startExpirationTimer now o =>
    cases hstep
    exact .inl (startExpirationTimer_of_not_active ha now o)

/-- **One step of a terminating subscription** keeps its cause. -/
theorem step_ends {e : Event} (h : causeOf s.state = some c) (hC : CauseCondition s e)
    (hstep : step s e = some t) : Ends c s t := by
  rcases step_of_not_active (not_active_of_causeOf h) hstep with
    ⟨hstate, hsent⟩ | ⟨r, now, o, rfl⟩ | ⟨id, r, code, deletion, o, rfl, rfl⟩ | ⟨timer, o, rfl⟩
  · exact .of_sent_eq (.inr (hstate ▸ h)) hsent
  · exact doSuccessConfirm_ends (s := (s.takeConfirm r).noteConfirmed r) h now o
  · exact doUnsuccessConfirm_ends (s := s.takeConfirm r) h hC r.status code deletion o
  · exact timeout_ends (s := s.cancelTimer (some timer)) h timer o

theorem step_deleted {e : Event} (h : s.state = .deleted) (hstep : step s e = some t) :
    t.state = .deleted ∧ t.sent = s.sent := by
  rcases step_of_not_active (by rw [h]; rfl) hstep with
    ⟨hstate, hsent⟩ | ⟨r, now, o, rfl⟩ | ⟨id, r, code, deletion, o, rfl, rfl⟩ | ⟨timer, o, rfl⟩
  · exact ⟨hstate.trans h, hsent⟩
  · have hs : ((s.takeConfirm r).noteConfirmed r).state = .deleted := h
    rw [doSuccessConfirm, hs]
    exact ⟨h, rfl⟩
  · have hs : (s.takeConfirm r).state = .deleted := h
    rw [doUnsuccessConfirm, hs]
    exact ⟨h, rfl⟩
  · have hs : (s.cancelTimer (some timer)).state = .deleted := h
    rw [timeout, hs]
    split <;> exact ⟨h, rfl⟩

end Steps

section Runs

variable {s : SubManager} {es : List Event}

theorem visits_ends {c : StatusCode} (h : causeOf s.state = some c)
    (hC : Run.Along step CauseCondition s es) : Run.Visits step (Ends c s) s es := by
  refine Run.visits_of_along (I := Ends c s) (fun t e u ht hCt hstep => ?_) (.refl h) hC
  rcases ht.1 with hdel | hcause
  · obtain ⟨hstate, hsent⟩ := step_deleted hdel hstep
    obtain ⟨-, new, heq, hall⟩ := ht
    exact ⟨.inl hstate, new, hsent.trans heq, hall⟩
  · exact ht.trans (step_ends hcause hCt hstep)

theorem visits_deleted (h : s.state = .deleted) (hC : Run.Along step CauseCondition s es) :
    Run.Visits step (fun t => t.state = .deleted ∧ t.sent = s.sent) s es := by
  refine Run.visits_of_along (I := fun t => t.state = .deleted ∧ t.sent = s.sent)
    (fun t e u ht _ hstep => ?_) ⟨h, rfl⟩ hC
  obtain ⟨hstate, hsent⟩ := step_deleted ht.1 hstep
  exact ⟨hstate, hsent.trans ht.2⟩

theorem CausePreserved.tail {e : Event} (h : CausePreserved s (e :: es)) {t : SubManager}
    (hstep : step s e = some t) : CausePreserved t es := by
  rintro es₁ es₂ u rfl hexec
  refine h (e :: es₁) es₂ u rfl ?_
  rw [Run.exec_cons, hstep]
  exact hexec

/-- **The cause of the end of a subscription** is preserved along a run exactly when the run has
no unsuccessful answer in `ST_EXPIRING_PENDING_NOTIFY_WAITING_RETRY`. -/
theorem causePreserved_iff (minimalTime expiration : Int) (es : List Event) :
    CausePreserved (new minimalTime expiration) es ↔
      Run.Along step CauseCondition (new minimalTime expiration) es := by
  generalize new minimalTime expiration = s
  constructor
  · intro h
    induction es generalizing s with
    | nil => trivial
    | cons e es ih =>
      intro t hstep
      refine ⟨?_, ih t (h.tail hstep)⟩
      cases e with
      | unsuccessConfirm request code deletion o =>
        intro hs
        have hvisits := (h [] _ s rfl rfl).1 .expired (by rw [hs]; rfl)
        obtain ⟨r, -, rfl⟩ := Option.map_eq_some_iff.mp hstep
        have hends := Run.visits_head (hvisits.2 _ hstep)
        have hstate := hends.1
        have htake : (s.takeConfirm r).state = .expiringPendingNotifyWaitingRetry := hs
        rw [doUnsuccessConfirm, htake] at hstate
        rcases hstate with hstate | hstate <;> cases hstate
      | _ => trivial
  · rintro hC es₁ es₂ t rfl hexec
    have hC₂ := Run.along_append_right hC hexec
    exact ⟨fun c hc => visits_ends hc hC₂, fun hdel => visits_deleted hdel hC₂⟩

/-- An update is notified, the subscription expires and its expiry notify cannot be sent; the
unsuccessful answer to the update sends the notifier to `ST_DELETING_WAITING_RETRY`, and the timer
then tells the subscriber that its resource was deleted. -/
def lostCause : List Event :=
  [.resourceUpdated 1 true {}, .subscriptionExpired { attempts := [{ send := false }] },
    .unsuccessConfirm 0 .notFound false {}, .timeout 0 {}]

theorem causePreserved_broken :
    (Run.exec step (new 0 0) lostCause).map (fun t => t.sent.map Notify.status) =
      some [.deleted, .ok] ∧ ¬ CausePreserved (new 0 0) lostCause := by
  refine ⟨by decide, fun h => ?_⟩
  have hvisits := (h (lostCause.take 2) (lostCause.drop 2) _ rfl rfl).1 .expired (by decide)
  have hends := (Run.visits_exec hvisits rfl).1
  revert hends
  decide

end Runs

end Ong.Scl.SubManager
