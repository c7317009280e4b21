import Ong.Lib.Registry
import Ong.Scl.M2MPocsManager
import Ong.Scl.SubsManager

/-!
# The volatile state

What the SCL keeps in the M2M context beside the storage: the managers of subscriptions and of
m2mPocs, registered under the path of their resource, and the timers of the content instances, with
the three attributes that refer to them.
-/

namespace Ong.Scl

open M2M Registry

/-- A timer of a contentInstances resource, and the time at which it fires. -/
structure ResourceTimer where
  id : Nat
  path : Path
  due : Int
  deriving DecidableEq

/-- The timers that are armed, and the next identifier of a timer. -/
structure Timers where
  armed : List ResourceTimer
  next : Nat
  issued : ∀ t ∈ armed, t.id < next

namespace Timers

def none : Timers := ⟨[], 0, nofun⟩

/-- A new timer, under the identifier `next`. -/
def start (path : Path) (due : Int) (ts : Timers) : Timers where
  armed := ⟨ts.next, path, due⟩ :: ts.armed
  next := ts.next + 1
  issued t ht := by
    rcases List.mem_cons.mp ht with rfl | ht
    · exact Nat.lt_succ_self _
    · exact Nat.lt_succ_of_lt (ts.issued t ht)

def cancel (id : Option Nat) (ts : Timers) : Timers where
  armed := ts.armed.filter fun t => some t.id ≠ id
  next := ts.next
  issued t ht := ts.issued t (List.mem_filter.mp ht).1

variable {ts : Timers}

theorem mem_start {t : ResourceTimer} {path : Path} {due : Int} :
    t ∈ (ts.start path due).armed ↔ t = ⟨ts.next, path, due⟩ ∨ t ∈ ts.armed :=
  List.mem_cons

theorem mem_cancel {t : ResourceTimer} {id : Option Nat} :
    t ∈ (ts.cancel id).armed ↔ t ∈ ts.armed ∧ some t.id ≠ id := by
  simp [cancel, List.mem_filter]

end Timers

/-- The attributes of the M2M context, by kind: the managers, and for the path of a contentInstances
resource the values of `/instanceAgeTimer`, `/instanceAgeTimerId` and `/instanceAgeId`. -/
structure Volatile where
  shared : Shared
  subsManagers : Registry Path SubsManager
  pocsManagers : Registry Path M2MPocsManager
  instanceAgeTimer : AList fun _ : Path => Nat
  instanceAgeTimerId : AList fun _ : Path => Nat
  instanceAgeId : AList fun _ : Path => String
  timers : Timers

namespace Volatile

/-- The state when the SCL starts. -/
def initial : Volatile where
  shared := ⟨0, .empty {}, 0⟩
  subsManagers := .empty (.new false)
  pocsManagers := .empty {}
  instanceAgeTimer := ∅
  instanceAgeTimerId := ∅
  instanceAgeId := ∅
  timers := .none

variable (v : Volatile)

/-- `startResourceTimer`, called at the time `now`, with the id of the timer; `none` when the delay
is negative. -/
def startResourceTimer (delay now : Int) (path : Path) : Option (Nat × Volatile) :=
  if delay < 0 then none
  else some (v.timers.next, { v with timers := v.timers.start path (now + delay) })

/-- `cancelTimer`; there is nothing to cancel when the timer is null or not armed any more. -/
def cancelTimer (id : Option Nat) : Volatile :=
  { v with timers := v.timers.cancel id }

variable {v} in
theorem startResourceTimer_eq_some {delay now : Int} {path : Path} {p : Nat × Volatile} :
    v.startResourceTimer delay now path = some p ↔
      0 ≤ delay ∧
        p = (v.timers.next, { v with timers := v.timers.start path (now + delay) }) := by
  rw [startResourceTimer]
  split
  · simp [*]
  · simp [*, eq_comm]
    omega

/-- The delay given to the timer of an instance: `creationTime + maxInstanceAge * 1000L - now`. -/
def instanceAgeDelay (creationTime maxInstanceAge now : Int) : Int :=
  toLong (creationTime + maxInstanceAge * 1000 - now)

end Volatile

/-! ## What is seen of the volatile state -/

/-- The subscription `id` held by the manager registered under `p`. -/
def subscriptionAt (g : Registry Path SubsManager) (p : Path) (id : String) : Option Sub :=
  (g.view p).bind fun m => m.getSubscription id

/-- The counter of a status in the manager registered under `p`; there is no manager when all are
zero. -/
def nbOfM2MPocs (g : Registry Path M2MPocsManager) (p : Path) (status : OnlineStatus) : Int :=
  (g.view p).elim 0 fun m => m.count status

section Subscriptions

variable {g : Registry Path SubsManager} {p q : Path} {id : String} {r : Nat} {m : SubsManager}

theorem subscriptionAt_of_getAttribute (h : g.getAttribute p = some r) :
    subscriptionAt g p id = (g.get r).getSubscription id := by
  rw [subscriptionAt, view_of_getAttribute h, Option.bind_some]

theorem subscriptionAt_of_getAttribute_none (h : g.getAttribute p = none) :
    subscriptionAt g p id = none := by
  rw [subscriptionAt, view_eq_none.mpr h, Option.bind_none]

theorem subscriptionAt_getOrCreate (g : Registry Path SubsManager) (p q : Path) (id : String)
    (depends : Bool) :
    subscriptionAt (g.getOrCreate p (.new depends)).2 q id = subscriptionAt g q id := by
  by_cases hq : q = p
  · subst hq
    rw [subscriptionAt, subscriptionAt, view_getOrCreate_self]
    cases g.view q <;> rfl
  · rw [subscriptionAt, view_getOrCreate_of_ne hq, subscriptionAt]

theorem subscriptionAt_set (h : g.getAttribute p = some r) :
    subscriptionAt (g.set r m) q id =
      if q = p then m.getSubscription id else subscriptionAt g q id := by
  split
  · next hq =>
    subst hq
    rw [subscriptionAt, view_set h, Option.bind_some]
  · next hq =>
    rw [subscriptionAt, (owned_of_getAttribute h).view_set_of_ne hq, subscriptionAt]

theorem subscriptionAt_set_of_none (h : g.Owned p r) (hp : g.getAttribute p = none) :
    subscriptionAt (g.set r m) q id = subscriptionAt g q id := by
  rw [subscriptionAt, h.view_set_of_none hp, subscriptionAt]

theorem subscriptionAt_removeAttribute (h : ∀ k, subscriptionAt g p k = none) :
    subscriptionAt (g.removeAttribute p) q id = subscriptionAt g q id := by
  by_cases hq : q = p
  · subst hq
    rw [h, subscriptionAt, view_removeAttribute_self, Option.bind_none]
  · rw [subscriptionAt, view_removeAttribute_of_ne hq, subscriptionAt]

end Subscriptions

section M2MPocs

variable {g : Registry Path M2MPocsManager} {p q : Path} {status : OnlineStatus} {r : Nat}
  {m : M2MPocsManager}

theorem nbOfM2MPocs_of_getAttribute (h : g.getAttribute p = some r) :
    nbOfM2MPocs g p status = (g.get r).count status := by
  rw [nbOfM2MPocs, view_of_getAttribute h, Option.elim_some]

theorem nbOfM2MPocs_of_getAttribute_none (h : g.getAttribute p = none) :
    nbOfM2MPocs g p status = 0 := by
  rw [nbOfM2MPocs, view_eq_none.mpr h, Option.elim_none]

theorem nbOfM2MPocs_getOrCreate (g : Registry Path M2MPocsManager) (p q : Path)
    (status : OnlineStatus) :
    nbOfM2MPocs (g.getOrCreate p {}).2 q status = nbOfM2MPocs g q status := by
  by_cases hq : q = p
  · subst hq
    rw [nbOfM2MPocs, nbOfM2MPocs, view_getOrCreate_self]
    cases g.view q with
    | none => cases status <;> rfl
    | some m => rfl
  · rw [nbOfM2MPocs, view_getOrCreate_of_ne hq, nbOfM2MPocs]

theorem nbOfM2MPocs_set (h : g.getAttribute p = some r) :
    nbOfM2MPocs (g.set r m) q status = if q = p then m.count status else nbOfM2MPocs g q status := by
  split
  · next hq =>
    subst hq
    rw [nbOfM2MPocs, view_set h, Option.elim_some]
  · next hq =>
    rw [nbOfM2MPocs, (owned_of_getAttribute h).view_set_of_ne hq, nbOfM2MPocs]

theorem nbOfM2MPocs_removeAttribute_of_ne (hq : q ≠ p) :
    nbOfM2MPocs (g.removeAttribute p) q status = nbOfM2MPocs g q status := by
  rw [nbOfM2MPocs, view_removeAttribute_of_ne hq, nbOfM2MPocs]

theorem nbOfM2MPocs_removeAttribute_self : nbOfM2MPocs (g.removeAttribute p) p status = 0 :=
  nbOfM2MPocs_of_getAttribute_none (getAttribute_removeAttribute_self p)

end M2MPocs

end Ong.Scl
