import Ong.Lib.Run
import Ong.Song.ApplicationSession

/-!
# The life of an application session

A session that ends does so once and completely, provided that its loops do not run into a change of
what they iterate over: at most one timer, and no protocol session but the last that removes itself.
Its expiration is prompt and single, provided that the listeners only postpone it.  It is not valid
again provided that no protocol session is added to it.

## Main results

* `invalidate_ended`: an invalidation that completes
* `LifeInv.step`: a step that meets the condition preserves the invariant
* `lifeCycle_of_condition`: the life of a session, along the runs that meet the condition
-/

namespace Ong.Song

open SessionWorld List

/-- The session has ended: it is invalidated, its protocol sessions too, its timers are cancelled,
the context does not have it any more, and one notification told so. -/
structure HasEnded (w : SessionWorld) : Prop where
  state : w.state = .invalidated
  sessions : ∀ key ∈ w.closing, (w.protocol key).valid = false
  timers : w.timers = []
  inContext : w.inContext = false
  destroyed : w.destroyed = 1

/-- The expirations that invalidated came neither early nor for a session that never expires; there
is at most one expiration task, and one that is not late while the session is valid; the session
either is valid and was never invalidated, or has ended. -/
structure LifeCycle (w : SessionWorld) : Prop where
  expirations : ∀ e ∈ w.expirations, e.1 ≠ -1 ∧ e.1 ≤ e.2
  atMostOne : w.armed.length ≤ 1
  armed : w.isValid = true → w.expirationTime ≠ -1 →
    w.timerAlive = true ∧ ∃ task ∈ w.armed, task.due ≤ w.expirationTime
  ended : (w.isValid = true ∧ w.inContext = true ∧ w.destroyed = 0) ∨ HasEnded w

/-! ## The condition -/

/-- Of these protocol sessions only the last removes itself when it is invalidated. -/
def OnlyLastRemoves (protocol : Nat → ProtocolSession) (keys : List Nat) : Prop :=
  ∀ key ∈ keys.dropLast, (protocol key).valid = true → (protocol key).removes = false

/-- The loops of `invalidate` do not change what they iterate over and have not finished. -/
def Invalidable (w : SessionWorld) : Prop :=
  OnlyLastRemoves w.protocol w.sessions ∧ (w.servletTimers.getD []).length ≤ 1

/-- A session that nothing needs can be invalidated. -/
def ReadyCondition (w : SessionWorld) : Prop :=
  w.state = .valid → w.AllReady → w.invalidateWhenReady = true →
    OnlyLastRemoves w.protocol w.sessions

/-- The expiration time and the clock after a listener that postpones. -/
def listened : List ListenerAction → Int × Int → Int × Int
  | [], p => p
  | .setExpires deltaMinutes :: listener, p => listened listener (p.2 + deltaMinutes * 60000, p.2)
  | .wait duration :: listener, p => listened listener (p.1, p.2 + duration)

/-- The listener only postpones the expiration, and not for ever. -/
def Postpones : List ListenerAction → Int × Int → Prop
  | [], _ => True
  | .setExpires deltaMinutes :: listener, p =>
    0 < deltaMinutes ∧ p.1 ≤ p.2 + deltaMinutes * 60000 ∧
      Postpones listener (p.2 + deltaMinutes * 60000, p.2)
  | .wait duration :: listener, p => Postpones listener (p.1, p.2 + duration)

/-- The condition on an operation. -/
def LifeCondition (w : SessionWorld) : SessionEvent → Prop
  | .addProtocolSession _ => w.isValid = true
  | .removeProtocolSession key =>
    key ∈ w.sessions → ReadyCondition { w with sessions := w.sessions.erase key }
  | .protocolSessionReadyToInvalidate => ReadyCondition w
  | .fireTimer timer =>
    timer.repeatingTimer = false → ReadyCondition (w.removeTimer timer.id)
  | .cancelTimer id => ReadyCondition (w.removeTimer id)
  | .expire _ listener =>
    w.expirationTime ≤ w.now →
      Postpones listener (w.expirationTime, w.now) ∧
        ((listened listener (w.expirationTime, w.now)).1 ≤
          (listened listener (w.expirationTime, w.now)).2 → Invalidable w)
  | .invalidate => w.isValid = true → Invalidable w
  | _ => True

instance (protocol : Nat → ProtocolSession) (keys : List Nat) :
    Decidable (OnlyLastRemoves protocol keys) := inferInstanceAs (Decidable (∀ _ ∈ _, _))

instance (w : SessionWorld) : Decidable (Invalidable w) := inferInstanceAs (Decidable (_ ∧ _))

instance (w : SessionWorld) : Decidable (ReadyCondition w) := inferInstanceAs (Decidable (_ → _))

instance decidablePostpones :
    ∀ (listener : List ListenerAction) (p : Int × Int), Decidable (Postpones listener p)
  | [], _ => isTrue trivial
  | .setExpires deltaMinutes :: listener, p =>
    have := decidablePostpones listener (p.2 + deltaMinutes * 60000, p.2)
    inferInstanceAs (Decidable (_ ∧ _))
  | .wait duration :: listener, p => decidablePostpones listener (p.1, p.2 + duration)

instance (w : SessionWorld) : ∀ e : SessionEvent, Decidable (LifeCondition w e)
  | .addProtocolSession _ => inferInstanceAs (Decidable (w.isValid = true))
  | .removeProtocolSession _ => inferInstanceAs (Decidable (_ → _))
  | .protocolSessionReadyToInvalidate => inferInstanceAs (Decidable (ReadyCondition w))
  | .fireTimer _ => inferInstanceAs (Decidable (_ → _))
  | .cancelTimer id => inferInstanceAs (Decidable (ReadyCondition (w.removeTimer id)))
  | .expire _ _ | .invalidate => inferInstanceAs (Decidable (_ → _))
  | .protocolSessionChanged _ _ _ | .createTimer _ | .setExpires _ | .setInvalidateWhenReady _
  | .wait _ => isTrue trivial

/-! ## The invariant -/

/-- A session that was not invalidated, apart from its expiration. -/
structure Live (w : SessionWorld) : Prop where
  isValid : w.isValid = true
  inContext : w.inContext = true
  destroyed : w.destroyed = 0
  timerAlive : w.timerAlive = true
  now_nonneg : 0 ≤ w.now
  registered : ∀ timer ∈ w.timers, timer.id ∈ w.servletTimers.getD []

/-- The task of a session is armed, unless it never expires. -/
def HasTask (w : SessionWorld) : Prop :=
  (w.expirationTime = -1 ∧ w.expirationTimerTask = none ∧ w.armed = []) ∨
    ∃ task : ExpirationTask, w.expirationTime ≠ -1 ∧ w.expirationTimerTask = some task.id ∧
      w.armed = [task] ∧ task.due ≤ w.expirationTime

/-- A session that has ended, with nothing left in it. -/
structure Ended (w : SessionWorld) : Prop extends HasEnded w where
  armed : w.armed = []
  servletTimers : w.servletTimers = none

/-- The expirations so far were right. -/
def Expirations (w : SessionWorld) : Prop := ∀ e ∈ w.expirations, e.1 ≠ -1 ∧ e.1 ≤ e.2

/-- The invariant. -/
def LifeInv (w : SessionWorld) : Prop := Expirations w ∧ (Live w ∧ HasTask w ∨ Ended w)

section Invariant

variable {w w' : SessionWorld} {keys : List Nat} {listener : List ListenerAction} {id : Nat}

theorem LifeInv.lifeCycle (h : LifeInv w) : LifeCycle w := by
  obtain ⟨hexpirations, ⟨hlive, htask⟩ | hended⟩ := h
  · refine ⟨hexpirations, ?_, fun _ hne => ⟨hlive.timerAlive, ?_⟩,
      .inl ⟨hlive.isValid, hlive.inContext, hlive.destroyed⟩⟩
    · rcases htask with ⟨-, -, harmed⟩ | ⟨task, -, -, harmed, -⟩ <;> simp [harmed]
    · rcases htask with ⟨hnever, -⟩ | ⟨task, -, -, harmed, hdue⟩
      · exact absurd hnever hne
      · exact ⟨task, by simp [harmed], hdue⟩
  · refine ⟨hexpirations, by simp [hended.armed], fun hvalid => ?_, .inr hended.toHasEnded⟩
    simp [isValid, hended.state] at hvalid

/-! ## The end of a session -/

theorem onlyLastRemoves_cons {protocol : Nat → ProtocolSession} {key : Nat}
    (h : OnlyLastRemoves protocol (key :: keys)) :
    (keys ≠ [] → (protocol key).valid = true → (protocol key).removes = false) ∧
      OnlyLastRemoves protocol keys := by
  cases keys with
  | nil => exact ⟨fun hne => absurd rfl hne, by simp [OnlyLastRemoves]⟩
  | cons k keys =>
    unfold OnlyLastRemoves at h ⊢
    rw [dropLast_cons_of_ne_nil (cons_ne_nil k keys), forall_mem_cons] at h
    exact ⟨fun _ => h.1, h.2⟩

theorem invalidateSessions_of_onlyLast (h : OnlyLastRemoves w.protocol keys) :
    ∃ protocol sessions,
      invalidateSessions keys w = ({ w with protocol := protocol, sessions := sessions }, false) ∧
      (∀ key ∈ keys, (protocol key).valid = false) ∧
      ∀ key, (w.protocol key).valid = false → (protocol key).valid = false := by
  induction keys generalizing w with
  | nil => exact ⟨w.protocol, w.sessions, rfl, by simp, fun _ h => h⟩
  | cons key keys ih =>
    obtain ⟨hfirst, hrest⟩ := onlyLastRemoves_cons h
    cases hvalid : (w.protocol key).valid with
    | false =>
      obtain ⟨protocol, sessions, hloop, hkeys, hmono⟩ := ih hrest
      refine ⟨protocol, sessions, ?_, forall_mem_cons.mpr ⟨hmono key hvalid, hkeys⟩, hmono⟩
      rw [invalidateSessions, hvalid, if_neg Bool.false_ne_true, hloop]
    | true =>
      let protocol₁ := Function.update w.protocol key { w.protocol key with valid := false }
      have hself : (protocol₁ key).valid = false := by simp [protocol₁]
      have hmono₁ : ∀ k, (w.protocol k).valid = false → (protocol₁ k).valid = false := by
        intro k hk
        by_cases hkey : k = key
        · rw [hkey, hself]
        · simpa [protocol₁, hkey] using hk
      cases hremoves : (w.protocol key).removes with
      | true =>
        have hnil : keys = [] := by
          by_contra hne
          rw [hfirst hne hvalid] at hremoves
          cases hremoves
        subst hnil
        refine ⟨protocol₁, w.sessions.erase key, ?_, by simp [hself], hmono₁⟩
        simp [invalidateSessions, hvalid, hremoves, protocol₁]
      | false =>
        have hrest₁ : OnlyLastRemoves protocol₁ keys := by
          intro k hk hkvalid
          by_cases hkey : k = key
          · rw [hkey, hself] at hkvalid
            cases hkvalid
          · have hsame : protocol₁ k = w.protocol k := by simp [protocol₁, hkey]
            rw [hsame] at hkvalid ⊢
            exact hrest k hk hkvalid
        obtain ⟨protocol, sessions, hloop, hkeys, hmono⟩ :=
          ih (w := { w with protocol := protocol₁ }) hrest₁
        refine ⟨protocol, sessions, ?_, forall_mem_cons.mpr ⟨hmono key hself, hkeys⟩,
          fun k hk => hmono k (hmono₁ k hk)⟩
        simpa [invalidateSessions, hvalid, hremoves, protocol₁] using hloop

theorem cancelTimers_of_length_le (h : (w.servletTimers.getD []).length ≤ 1)
    (hregistered : ∀ timer ∈ w.timers, timer.id ∈ w.servletTimers.getD []) :
    ∃ servletTimers, w.cancelTimers (w.servletTimers.getD []) =
      ({ w with servletTimers := servletTimers, timers := [] }, false) := by
  match hids : w.servletTimers.getD [] with
  | [] =>
    have hnil : w.timers = [] := by
      refine eq_nil_iff_forall_not_mem.mpr fun timer hmem => ?_
      have := hregistered timer hmem
      simp [hids] at this
    exact ⟨w.servletTimers, by simp [cancelTimers, ← hnil]⟩
  | [id] =>
    have hnil : w.timers.filter (fun timer => timer.id ≠ id) = [] := by
      rw [filter_eq_nil_iff]
      intro timer hmem
      have := hregistered timer hmem
      simpa [hids] using this
    exact ⟨_, by simp only [cancelTimers, removeTimer, hnil]; rfl⟩
  | _ :: _ :: _ => simp [hids] at h

/-- The task that a session has, if any, is the only one that is armed. -/
def OwnTask (w : SessionWorld) : Prop :=
  w.armed = [] ∨ ∃ task : ExpirationTask, w.expirationTimerTask = some task.id ∧ w.armed = [task]

theorem HasTask.ownTask (h : HasTask w) : OwnTask w := by
  rcases h with ⟨-, -, harmed⟩ | ⟨task, -, htask, harmed, -⟩
  · exact .inl harmed
  · exact .inr ⟨task, htask, harmed⟩

theorem OwnTask.armed_cancel (h : OwnTask w) : w.cancelExpirationTimer.armed = [] := by
  rcases h with harmed | ⟨task, htask, harmed⟩
  · simp [cancelExpirationTimer, harmed]
  · simp [cancelExpirationTimer, harmed, htask]

/-- **An invalidation that completes.** -/
theorem invalidate_ended (bypassCheck : Bool) (hstate : w.state ≠ .invalidated)
    (hdestroyed : w.destroyed = 0) (hinvalidable : Invalidable w)
    (hregistered : ∀ timer ∈ w.timers, timer.id ∈ w.servletTimers.getD []) (htask : OwnTask w) :
    (w.invalidate bypassCheck).2 = false ∧ Ended (w.invalidate bypassCheck).1 ∧
      (w.invalidate bypassCheck).1.expirations = w.expirations ∧
      (w.invalidate bypassCheck).1.timerAlive = w.timerAlive ∧
      (w.invalidate bypassCheck).1.expirationTime = w.expirationTime ∧
      (w.invalidate bypassCheck).1.now = w.now := by
  have hcheck : ¬ (!bypassCheck && decide (w.state = .invalidated)) = true := by simp [hstate]
  obtain ⟨protocol, sessions, hloop, hkeys, -⟩ := invalidateSessions_of_onlyLast
    (w := { w with destroyed := w.destroyed + 1, closing := w.sessions, state := .invalidating })
    hinvalidable.1
  obtain ⟨servletTimers, htimers⟩ := cancelTimers_of_length_le
    (w := { w with
      destroyed := w.destroyed + 1
      closing := w.sessions
      state := .invalidated
      protocol := protocol
      sessions := sessions }) hinvalidable.2 hregistered
  have harmed := htask.armed_cancel
  unfold invalidate
  rw [if_neg hcheck]
  simp only [hloop, htimers]
  refine ⟨trivial, ⟨⟨rfl, hkeys, rfl, rfl, ?_⟩, harmed, rfl⟩, rfl, rfl, rfl, rfl⟩
  simp [cancelExpirationTimer, hdestroyed]

/-! ## The expiration task -/

theorem Live.of_fields (h : Live w) (hvalid : w'.isValid = true) (hcontext : w'.inContext = w.inContext)
    (hdestroyed : w'.destroyed = w.destroyed) (halive : w'.timerAlive = w.timerAlive)
    (hnow : w.now ≤ w'.now) (htimers : w'.timers = w.timers)
    (hservlet : w'.servletTimers = w.servletTimers) : Live w' := by
  refine ⟨hvalid, hcontext.trans h.inContext, hdestroyed.trans h.destroyed,
    halive.trans h.timerAlive, h.now_nonneg.trans hnow, ?_⟩
  rw [htimers, hservlet]
  exact h.registered

theorem hasTask_schedule {delay : Int} (harmed : w.armed = []) (halive : w.timerAlive = true)
    (hnow : 0 ≤ w.now) (hdelay : 0 < delay) (hexpiration : w.expirationTime = w.now + delay) :
    HasTask (w.schedule delay) := by
  refine .inr ⟨⟨w.nextTask, w.now + delay⟩, ?_, rfl, by simp [schedule, harmed, halive],
    hexpiration.ge⟩
  change w.expirationTime ≠ -1
  omega

theorem Live.schedule (h : Live w) (delay : Int) : Live (w.schedule delay) :=
  h.of_fields h.isValid rfl rfl rfl le_rfl rfl rfl

theorem Live.updateExpirationTimerTask (h : Live w) (delay : Int) :
    Live (w.updateExpirationTimerTask delay) := by
  unfold SessionWorld.updateExpirationTimerTask
  split
  · exact h.of_fields h.isValid rfl rfl rfl le_rfl rfl rfl
  · dsimp only
    split
    · split <;> exact h.of_fields h.isValid rfl rfl rfl le_rfl rfl rfl
    · exact h.of_fields h.isValid rfl rfl rfl le_rfl rfl rfl

theorem HasTask.updateExpirationTimerTask (h : HasTask w) (halive : w.timerAlive = true)
    (hnow : 0 ≤ w.now) (delay : Int) : HasTask (w.updateExpirationTimerTask delay) := by
  have hcancel := h.ownTask.armed_cancel
  unfold SessionWorld.updateExpirationTimerTask
  split
  · exact .inl ⟨rfl, rfl, hcancel⟩
  · next hdelay =>
    have hpos : 0 < delay := not_le.mp hdelay
    dsimp only
    split
    · next id hid =>
      rcases h with ⟨-, hnone, -⟩ | ⟨task, -, htask, harmed, hdue⟩
      · rw [hnone] at hid
        cases hid
      · split
        · exact hasTask_schedule hcancel halive hnow hpos rfl
        · next hlater =>
          have hne : w.now + delay ≠ -1 := by omega
          exact .inr ⟨task, hne, htask, harmed, hdue.trans (not_lt.mp hlater)⟩
    · next hnone =>
      rcases h with ⟨-, -, harmed⟩ | ⟨task, -, htask, -⟩
      · exact hasTask_schedule harmed halive hnow hpos rfl
      · rw [htask] at hnone
        cases hnone

theorem setExpires_inv (h : Live w) (htask : HasTask w) (deltaMinutes : Int) :
    Live (w.setExpires deltaMinutes) ∧ HasTask (w.setExpires deltaMinutes) := by
  unfold setExpires
  rw [if_pos h.isValid]
  have hvalid : Live { w with state := .valid } := h.of_fields rfl rfl rfl rfl le_rfl rfl rfl
  have htask' : HasTask { w with state := .valid } := htask
  exact ⟨hvalid.updateExpirationTimerTask _,
    htask'.updateExpirationTimerTask h.timerAlive h.now_nonneg _⟩

theorem expirations_updateExpirationTimerTask (delay : Int) :
    (w.updateExpirationTimerTask delay).expirations = w.expirations := by
  unfold SessionWorld.updateExpirationTimerTask
  dsimp only
  split
  · rfl
  · split
    · split <;> rfl
    · rfl

/-! ## The listeners -/

theorem listener_fold (hvalid : w.isValid = true) (htask : w.expirationTimerTask = some id)
    (h : Postpones listener (w.expirationTime, w.now)) :
    ∃ state : SessionState, (state = .valid ∨ state = .readyToInvalidate) ∧
      listener.foldl (fun w action => action.apply w) w =
        { w with
          state := state
          expirationTime := (listened listener (w.expirationTime, w.now)).1
          now := (listened listener (w.expirationTime, w.now)).2 } := by
  induction listener generalizing w with
  | nil => exact ⟨w.state, by simpa [isValid] using hvalid, rfl⟩
  | cons action listener ih =>
    cases action with
    | setExpires deltaMinutes =>
      obtain ⟨hpos, hle, hrest⟩ := h
      have happly : (ListenerAction.setExpires deltaMinutes).apply w =
          { w with state := .valid, expirationTime := w.now + deltaMinutes * 60000 } := by
        change w.setExpires deltaMinutes = _
        rw [SessionWorld.setExpires, if_pos hvalid, SessionWorld.updateExpirationTimerTask,
          if_neg (by omega)]
        split
        · exact if_neg (not_lt.mpr hle)
        · next hnone =>
          rw [htask] at hnone
          cases hnone
      rw [foldl_cons, happly]
      exact ih rfl htask hrest
    | wait duration =>
      exact ih (w := { w with now := w.now + duration }) hvalid htask h

theorem listened_of_postpones {p : Int × Int} (h : Postpones listener p) (hne : p.1 ≠ -1)
    (hnow : 0 ≤ p.2) : (listened listener p).1 ≠ -1 ∧ p.2 ≤ (listened listener p).2 := by
  induction listener generalizing p with
  | nil => exact ⟨hne, le_rfl⟩
  | cons action listener ih =>
    cases action with
    | setExpires deltaMinutes =>
      obtain ⟨hpos, -, hrest⟩ := h
      have hfinite : p.2 + deltaMinutes * 60000 ≠ -1 := by omega
      exact ih hrest hfinite hnow
    | wait duration =>
      have hlater : p.2 ≤ p.2 + duration := by omega
      obtain ⟨hfinite, hle⟩ := ih (p := (p.1, p.2 + duration)) h hne (hnow.trans hlater)
      exact ⟨hfinite, hlater.trans hle⟩

theorem isValid_iff : w.isValid = true ↔ w.state = .valid ∨ w.state = .readyToInvalidate := by
  simp [isValid]

theorem ne_invalidated_of_isValid (h : w.isValid = true) : w.state ≠ .invalidated := by
  rcases isValid_iff.mp h with h | h <;> rw [h] <;> nofun

/-! ## A session that nothing needs -/

theorem updateReadyToInvalidateState_inv (h : LifeInv w) (hcondition : ReadyCondition w) :
    w.updateReadyToInvalidateState.2 = false ∧ LifeInv w.updateReadyToInvalidateState.1 := by
  unfold updateReadyToInvalidateState
  split
  · next hready =>
    obtain ⟨hvalid, hallReady⟩ := hready
    obtain ⟨hexpirations, ⟨hlive, htask⟩ | hended⟩ := h
    · dsimp only
      split
      · next hflag =>
        have hinvalidable : Invalidable { w with state := .readyToInvalidate } :=
          ⟨hcondition hvalid hallReady hflag, by
            change (w.servletTimers.getD []).length ≤ 1
            simp [hallReady.2]⟩
        obtain ⟨hthrew, hended, hsame, -⟩ := invalidate_ended true
          (w := { w with state := .readyToInvalidate }) (by nofun) hlive.destroyed hinvalidable
          hlive.registered htask.ownTask
        exact ⟨hthrew, fun e he => hexpirations e (hsame ▸ he), .inr hended⟩
      · exact ⟨rfl, hexpirations, .inl ⟨hlive.of_fields rfl rfl rfl rfl le_rfl rfl rfl, htask⟩⟩
    · rw [hended.state] at hvalid
      cases hvalid
  · exact ⟨rfl, h⟩

theorem invalidateSessions_cancelTask (keys : List Nat) (w : SessionWorld) (id : Nat) :
    invalidateSessions keys (w.cancelTask id) =
      ((invalidateSessions keys w).1.cancelTask id, (invalidateSessions keys w).2) := by
  induction keys generalizing w with
  | nil => rfl
  | cons key keys ih =>
    rw [invalidateSessions, invalidateSessions]
    change (if (w.protocol key).valid = true then _ else _) = _
    by_cases hvalid : (w.protocol key).valid = true
    · rw [if_pos hvalid, if_pos hvalid]
      by_cases hremoves : (Function.update w.protocol key
          { w.protocol key with valid := false } key).removes = true
      · rw [if_pos hremoves]
        exact if_pos hremoves
      · rw [if_neg hremoves]
        refine (if_neg hremoves).trans ?_
        exact ih { w with
          protocol := Function.update w.protocol key { w.protocol key with valid := false } }
    · rw [if_neg hvalid, if_neg hvalid]
      exact ih w

theorem invalidateSessions_servletTimers (keys : List Nat) (w : SessionWorld) :
    (invalidateSessions keys w).1.servletTimers = w.servletTimers := by
  induction keys generalizing w with
  | nil => rfl
  | cons key keys ih =>
    rw [invalidateSessions]
    dsimp only
    split
    · split
      · rfl
      · exact ih _
    · exact ih w

theorem invalidate_cancelTask (h : w.servletTimers.getD [] = []) (id : Nat) :
    (w.cancelTask id).invalidate true =
      ((w.invalidate true).1.cancelTask id, (w.invalidate true).2) := by
  have hloop := invalidateSessions_cancelTask w.sessions
    { w with destroyed := w.destroyed + 1, closing := w.sessions, state := .invalidating } id
  have hkeep := invalidateSessions_servletTimers w.sessions
    { w with destroyed := w.destroyed + 1, closing := w.sessions, state := .invalidating }
  rcases hresult : invalidateSessions w.sessions { w with
    destroyed := w.destroyed + 1, closing := w.sessions, state := .invalidating } with ⟨w', threw⟩
  rw [hresult] at hloop hkeep
  have hnil : w'.servletTimers.getD [] = [] := by
    rw [hkeep]
    exact h
  have hcheck : ∀ w : SessionWorld, ¬ (!true && decide (w.state = .invalidated)) = true := by simp
  rw [invalidate, invalidate, if_neg (hcheck _), if_neg (hcheck _)]
  dsimp only
  rw [hresult]
  have hloop' : invalidateSessions (w.cancelTask id).sessions { w.cancelTask id with
      destroyed := (w.cancelTask id).destroyed + 1
      closing := (w.cancelTask id).sessions
      state := .invalidating } = (w'.cancelTask id, threw) := hloop
  rw [hloop']
  cases threw with
  | true => rfl
  | false =>
    dsimp only [cancelTask]
    rw [hnil]
    rfl

theorem updateReadyToInvalidateState_cancelTask (w : SessionWorld) (id : Nat) :
    (w.cancelTask id).updateReadyToInvalidateState =
      (w.updateReadyToInvalidateState.1.cancelTask id, w.updateReadyToInvalidateState.2) := by
  rw [updateReadyToInvalidateState, updateReadyToInvalidateState]
  change (if w.state = .valid ∧ w.AllReady then _ else _) = _
  by_cases hready : w.state = .valid ∧ w.AllReady
  · rw [if_pos hready, if_pos hready]
    change (if w.invalidateWhenReady = true then _ else _) = _
    by_cases hflag : w.invalidateWhenReady = true
    · rw [if_pos hflag, if_pos hflag]
      exact invalidate_cancelTask (w := { w with state := .readyToInvalidate }) hready.2.2 id
    · rw [if_neg hflag, if_neg hflag]
      rfl
  · rw [if_neg hready, if_neg hready]

/-! ## The timers -/

theorem LifeInv.removeTimer (h : LifeInv w) (id : Nat) : LifeInv (w.removeTimer id) := by
  obtain ⟨hexpirations, ⟨hlive, htask⟩ | hended⟩ := h
  · refine ⟨hexpirations, .inl ⟨{ hlive with registered := ?_ }, htask⟩⟩
    intro timer hmem
    obtain ⟨hmem, hne⟩ := mem_filter.mp hmem
    have hregistered := hlive.registered timer hmem
    have hne : timer.id ≠ id := by simpa using hne
    cases htimers : w.servletTimers with
    | none => simp [htimers] at hregistered
    | some timers =>
      rw [htimers] at hregistered
      simpa [SessionWorld.removeTimer, htimers] using (mem_erase_of_ne hne).mpr hregistered
  · refine ⟨hexpirations, .inr { hended with timers := ?_, servletTimers := ?_ }⟩
    · simp [SessionWorld.removeTimer, hended.timers]
    · simp [SessionWorld.removeTimer, hended.servletTimers]

theorem LifeInv.cancelTask (h : LifeInv w) (id : Nat) : LifeInv (w.cancelTask id) := by
  obtain ⟨hexpirations, ⟨hlive, htask⟩ | hended⟩ := h
  · refine ⟨hexpirations, .inl ⟨{ hlive with registered := ?_ }, htask⟩⟩
    exact fun timer hmem => hlive.registered timer (mem_of_mem_filter hmem)
  · refine ⟨hexpirations, .inr { hended with timers := ?_ }⟩
    simp [SessionWorld.cancelTask, hended.timers]

theorem cancelServletTimer_inv (h : LifeInv w) (hcondition : ReadyCondition (w.removeTimer id)) :
    (w.cancelServletTimer id).2 = false ∧ LifeInv (w.cancelServletTimer id).1 := by
  obtain ⟨hthrew, hinv⟩ := updateReadyToInvalidateState_inv (h.removeTimer id) hcondition
  have hcommute : (w.removeTimer id).updateReadyToInvalidateState =
      ((w.removeServletTimer id).1.cancelTask id, (w.removeServletTimer id).2) :=
    updateReadyToInvalidateState_cancelTask
      { w with servletTimers := w.servletTimers.map fun timers => timers.erase id } id
  rw [hcommute] at hthrew hinv
  have heq : w.cancelServletTimer id = ((w.removeServletTimer id).1.cancelTask id, false) := by
    rw [cancelServletTimer]
    split
    · next hremove =>
      rw [hremove] at hthrew
      cases hthrew
    · next hremove => rw [hremove]
  rw [heq]
  exact ⟨rfl, hinv⟩

theorem runServletTimer_inv (h : LifeInv w) {timer : ServletTimer}
    (hcondition : timer.repeatingTimer = false → ReadyCondition (w.removeTimer timer.id)) :
    LifeInv (ofTask (w.runServletTimer timer)) := by
  unfold runServletTimer
  split
  · exact h
  · next hrepeating =>
    have honce : timer.repeatingTimer = false := by simpa using hrepeating
    obtain ⟨hthrew, hinv⟩ := cancelServletTimer_inv (h.cancelTask timer.id) (hcondition honce)
    rw [ofTask, hthrew, if_neg Bool.false_ne_true]
    exact hinv

/-! ## The expiration -/

theorem schedule_getDelay_inv (h : Live w) (hexpirations : Expirations w) (harmed : w.armed = [])
    (hdelay : 0 < w.getDelay) : LifeInv (w.schedule w.getDelay) := by
  have htime : w.expirationTime = w.now + w.getDelay := by
    unfold getDelay
    omega
  exact ⟨hexpirations, .inl ⟨h.schedule _,
    hasTask_schedule harmed h.timerAlive h.now_nonneg hdelay htime⟩⟩

theorem expired_inv (h : Live w) (hexpirations : Expirations w) (harmed : w.armed = [])
    (hfinite : w.expirationTime ≠ -1) (hpassed : w.getDelay ≤ 0) (hinvalidable : Invalidable w) :
    (w.expired []).2 = false ∧ LifeInv (w.expired []).1 ∧
      (w.expired []).1.getDelay = w.getDelay := by
  obtain ⟨hthrew, hended, hsame, -, htime, hnow⟩ := invalidate_ended true
    (w := { w with expirations := (w.expirationTime, w.now) :: w.expirations })
    (ne_invalidated_of_isValid h.isValid) h.destroyed hinvalidable h.registered (.inl harmed)
  have heq : w.expired [] =
      invalidate { w with expirations := (w.expirationTime, w.now) :: w.expirations } true := by
    rw [expired, foldl_nil, if_pos hpassed, if_pos h.isValid]
  rw [heq]
  refine ⟨hthrew, ⟨?_, .inr hended⟩, ?_⟩
  · intro e he
    rw [hsame, mem_cons] at he
    rcases he with rfl | he
    · have hle : w.expirationTime ≤ w.now := by
        unfold getDelay at hpassed
        omega
      exact ⟨hfinite, hle⟩
    · exact hexpirations e he
  · rw [getDelay, htime, hnow]
    rfl

theorem run_inv (h : LifeInv w) {task : ExpirationTask} (hmem : task ∈ w.armed)
    (hcondition : LifeCondition w (.expire task listener)) :
    LifeInv (ofTask ((w.fire task).run listener)) := by
  obtain ⟨hexpirations, ⟨hlive, htask⟩ | hended⟩ := h
  swap
  · rw [hended.armed] at hmem
    cases hmem
  rcases htask with ⟨-, -, harmed⟩ | ⟨own, hne, hown, harmed, -⟩
  · rw [harmed] at hmem
    cases hmem
  have hnone : (w.fire task).armed = [] := by
    obtain rfl : task = own := by simpa [harmed] using hmem
    simp [fire, harmed]
  unfold run
  split
  · next hdelay =>
    have hdue : w.expirationTime ≤ w.now := by
      change w.expirationTime - w.now ≤ 0 at hdelay
      omega
    obtain ⟨hpostpones, hinvalidable⟩ := hcondition hdue
    obtain ⟨hfinite, hlater⟩ := listened_of_postpones hpostpones hne hlive.now_nonneg
    obtain ⟨state, hstate, hfold⟩ := listener_fold (w := w.fire task) hlive.isValid hown hpostpones
    have hexpired : (w.fire task).expired listener = expired { w.fire task with
        state := state
        expirationTime := (listened listener (w.expirationTime, w.now)).1
        now := (listened listener (w.expirationTime, w.now)).2 } [] := by
      rw [expired, hfold]
      rfl
    rw [hexpired]
    generalize listened listener (w.expirationTime, w.now) = p at *
    have hlive' : Live { w.fire task with
        state := state, expirationTime := p.1, now := p.2 } :=
      hlive.of_fields (isValid_iff.mpr hstate) rfl rfl rfl hlater rfl rfl
    by_cases hpassed : p.1 ≤ p.2
    · have hdelay' : p.1 - p.2 ≤ 0 := by omega
      obtain ⟨hthrew, hinv, hsame⟩ :=
        expired_inv hlive' hexpirations hnone hfinite hdelay' (hinvalidable hpassed)
      split
      · next hresult =>
        rw [hresult] at hthrew
        cases hthrew
      · next w' hresult =>
        rw [hresult] at hinv hsame
        have hover : ¬ 0 < w'.getDelay := by
          rw [hsame]
          exact not_lt.mpr hdelay'
        rw [ofTask, if_neg Bool.false_ne_true, if_neg hover]
        exact hinv
    · have hdelay' : 0 < p.1 - p.2 := by omega
      have hover : expired { w.fire task with
          state := state, expirationTime := p.1, now := p.2 } [] =
          ({ w.fire task with state := state, expirationTime := p.1, now := p.2 }, false) :=
        if_neg (not_le.mpr hdelay')
      rw [hover, ofTask, if_neg Bool.false_ne_true]
      refine (congrArg LifeInv (if_pos ?_)).mpr ?_
      · exact hdelay'
      exact schedule_getDelay_inv hlive' hexpirations hnone hdelay'
  · next hdelay =>
    have hlive' : Live (w.fire task) := hlive.of_fields hlive.isValid rfl rfl rfl le_rfl rfl rfl
    exact schedule_getDelay_inv hlive' hexpirations hnone (not_le.mp hdelay)

/-! ## Runs -/

theorem LifeInv.invalidate (h : LifeInv w) (hcondition : w.isValid = true → Invalidable w) :
    LifeInv (w.invalidate false).1 := by
  obtain ⟨hexpirations, ⟨hlive, htask⟩ | hended⟩ := h
  · obtain ⟨-, hended, hsame, -⟩ := invalidate_ended false
      (ne_invalidated_of_isValid hlive.isValid) hlive.destroyed (hcondition hlive.isValid)
      hlive.registered htask.ownTask
    exact ⟨fun e he => hexpirations e (hsame ▸ he), .inr hended⟩
  · have hcheck : (!false && decide (w.state = .invalidated)) = true := by simp [hended.state]
    rw [SessionWorld.invalidate, if_pos hcheck]
    exact ⟨hexpirations, .inr hended⟩

theorem Ended.isValid (h : Ended w) : w.isValid = false := by
  simp [SessionWorld.isValid, h.state]

/-- **A step that meets the condition** preserves the invariant. -/
theorem LifeInv.step (h : LifeInv w) {e : SessionEvent} (hcondition : LifeCondition w e)
    (ht : applicationSessionStep w e = some w') : LifeInv w' := by
  cases e with
  | addProtocolSession key =>
    obtain rfl := Option.some.inj ht
    obtain ⟨hexpirations, ⟨hlive, htask⟩ | hended⟩ := h
    · rw [addProtocolSession]
      split <;>
        exact ⟨hexpirations, .inl ⟨hlive.of_fields rfl rfl rfl rfl le_rfl rfl rfl, htask⟩⟩
    · rw [LifeCondition, hended.isValid] at hcondition
      cases hcondition
  | removeProtocolSession key =>
    obtain rfl := Option.some.inj ht
    unfold removeProtocolSession
    split
    · next hmem =>
      have hinv : LifeInv { w with sessions := w.sessions.erase key } := by
        obtain ⟨hexpirations, ⟨hlive, htask⟩ | hended⟩ := h
        · exact ⟨hexpirations,
            .inl ⟨hlive.of_fields hlive.isValid rfl rfl rfl le_rfl rfl rfl, htask⟩⟩
        · exact ⟨hexpirations, .inr { hended with }⟩
      exact (updateReadyToInvalidateState_inv hinv (hcondition hmem)).2
    · exact h
  | protocolSessionReadyToInvalidate =>
    obtain rfl := Option.some.inj ht
    exact (updateReadyToInvalidateState_inv h hcondition).2
  | protocolSessionChanged key valid ready =>
    obtain rfl := Option.some.inj ht
    obtain ⟨hexpirations, ⟨hlive, htask⟩ | hended⟩ := h
    · exact ⟨hexpirations,
        .inl ⟨hlive.of_fields hlive.isValid rfl rfl rfl le_rfl rfl rfl, htask⟩⟩
    · refine ⟨hexpirations, .inr { hended with sessions := fun k hk => ?_ }⟩
      have hinvalid := hended.sessions k hk
      by_cases hkey : k = key
      · subst hkey
        simp [hinvalid]
      · simpa [hkey] using hinvalid
  | createTimer repeatingTimer =>
    obtain rfl := Option.some.inj ht
    obtain ⟨hexpirations, ⟨hlive, htask⟩ | hended⟩ := h
    · rw [createTimer]
      split
      · refine ⟨hexpirations, .inl ⟨{ hlive with registered := ?_ }, htask⟩⟩
        intro timer hmem
        change timer.id ∈ w.nextTimer :: w.servletTimers.getD []
        rcases mem_cons.mp hmem with rfl | hmem
        · exact mem_cons_self
        · exact mem_cons_of_mem _ (hlive.registered timer hmem)
      · exact ⟨hexpirations, .inl ⟨hlive, htask⟩⟩
    · rw [createTimer, hended.isValid, Bool.false_and, if_neg Bool.false_ne_true]
      exact ⟨hexpirations, .inr hended⟩
  | fireTimer timer =>
    simp only [applicationSessionStep] at ht
    split at ht
    · obtain rfl := Option.some.inj ht
      exact runServletTimer_inv h hcondition
    · cases ht
  | cancelTimer id =>
    obtain rfl := Option.some.inj ht
    exact (cancelServletTimer_inv h hcondition).2
  | setExpires deltaMinutes =>
    obtain rfl := Option.some.inj ht
    obtain ⟨hexpirations, ⟨hlive, htask⟩ | hended⟩ := h
    · refine ⟨?_, .inl (setExpires_inv hlive htask deltaMinutes)⟩
      rw [SessionWorld.setExpires, if_pos hlive.isValid, Expirations,
        expirations_updateExpirationTimerTask]
      exact hexpirations
    · rw [SessionWorld.setExpires, hended.isValid, if_neg Bool.false_ne_true]
      exact ⟨hexpirations, .inr hended⟩
  | setInvalidateWhenReady b =>
    obtain rfl := Option.some.inj ht
    obtain ⟨hexpirations, ⟨hlive, htask⟩ | hended⟩ := h
    · rw [if_pos hlive.isValid]
      exact ⟨hexpirations,
        .inl ⟨hlive.of_fields hlive.isValid rfl rfl rfl le_rfl rfl rfl, htask⟩⟩
    · rw [hended.isValid, if_neg Bool.false_ne_true]
      exact ⟨hexpirations, .inr hended⟩
  | wait duration =>
    obtain rfl := Option.some.inj ht
    obtain ⟨hexpirations, ⟨hlive, htask⟩ | hended⟩ := h
    · have hlater : w.now ≤ w.now + duration := by omega
      exact ⟨hexpirations,
        .inl ⟨hlive.of_fields hlive.isValid rfl rfl rfl hlater rfl rfl, htask⟩⟩
    · exact ⟨hexpirations, .inr { hended with }⟩
  | expire task listener =>
    simp only [applicationSessionStep] at ht
    split at ht
    · next hfires =>
      obtain rfl := Option.some.inj ht
      exact run_inv h hfires.2.1 hcondition
    · cases ht
  | invalidate =>
    obtain rfl := Option.some.inj ht
    exact h.invalidate hcondition

theorem lifeInv_new {now : Int} (hnow : 0 ≤ now) (timeout : Int)
    (protocol : Nat → ProtocolSession) : LifeInv (newApplicationSession now timeout protocol) := by
  have hlive : Live { now := now, protocol := protocol } := ⟨rfl, rfl, rfl, rfl, hnow, nofun⟩
  refine ⟨?_, .inl ⟨hlive.updateExpirationTimerTask timeout, ?_⟩⟩
  · rw [newApplicationSession, Expirations, expirations_updateExpirationTimerTask]
    nofun
  · rw [newApplicationSession, SessionWorld.updateExpirationTimerTask]
    by_cases htimeout : timeout ≤ 0
    · rw [if_pos htimeout]
      exact .inl ⟨rfl, rfl, rfl⟩
    · rw [if_neg htimeout]
      exact hasTask_schedule rfl rfl hnow (not_le.mp htimeout) rfl

end Invariant

/-- **The life of a session**, along the runs that meet the condition. -/
theorem lifeCycle_of_condition {now : Int} (hnow : 0 ≤ now) (timeout : Int)
    (protocol : Nat → ProtocolSession) (es : List SessionEvent)
    (h : Run.Along applicationSessionStep LifeCondition
      (newApplicationSession now timeout protocol) es) :
    Run.Visits applicationSessionStep LifeCycle (newApplicationSession now timeout protocol) es :=
  Run.visits_mono (fun _ h => h.lifeCycle)
    (Run.visits_of_along (fun _ _ _ h hC ht => h.step hC ht) (lifeInv_new hnow timeout protocol) h)

/-- A session with a protocol session and a timer, which a listener postpones twice before it
expires. -/
theorem lifeCycle_postponed :
    Run.Visits applicationSessionStep LifeCycle (newApplicationSession 5 60000 fun _ => {})
      [.addProtocolSession 3, .createTimer true, .wait 60000,
        .expire ⟨0, 60005⟩ [.setExpires 1, .wait 7, .setExpires 2], .wait 120007,
        .expire ⟨1, 180012⟩ []] :=
  lifeCycle_of_condition (by decide) 60000 (fun _ => {}) _ (by decide +kernel)

/-- The invalidation of a session with two timers stops at the first one: the session stays in its
context, and the other timer is still armed. -/
theorem two_timers_not_ended :
    ¬ Run.Visits applicationSessionStep LifeCycle (newApplicationSession 0 60000 fun _ => {})
      [.createTimer false, .createTimer false, .invalidate] := by
  intro h
  have hlast := Run.visits_exec h rfl
  rcases hlast.ended with ⟨hvalid, -⟩ | hended
  · cases hvalid
  · cases hended.inContext

end Ong.Song
