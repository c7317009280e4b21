import Mathlib.Algebra.BigOperators.Group.List.Basic
import Mathlib.Algebra.GroupWithZero.Nat
import Ong.DrvCommon.DiaClient

/-!
# The reports of the KNX groups

A telegram appends a document to the report of its group, and the clock sends the report, for a new
document after the minimal interval and again after the maximal one.  The mark of a group is to
stand for its request in flight: the clock leaves a network alone in which a group has one.  It
reads the marks before it walks through the groups, so that it sends all the reports that are due,
a telegram clears the mark of a request in flight, and without a free slot for the request a mark is
set for which there is none.

## Main results

* `GroupApp.emit_of_due`, `GroupApp.emit_of_not_due`: what the clock does with a group
* `sendReports_of_room`: what a tick does that finds a slot for each of its requests
* `reporting_of_condition`: the promises of the reporting, under the condition on its ticks
* `appended_sent`: the document that was appended last is sent in the end
-/

namespace Ong.Knx.Reporting

open List DrvCommon

/-! ## The code -/

/-- The report of a sensor. -/
structure Report (Xo : Type*) where
  minInterval : Int
  maxInterval : Int
  waitingDia : Bool := false
  xo : Option Xo := none
  time : Int := 0
  lastTxTime : Int := 0

/-- A group of a network.  The fields behind the report are a record of the run: the document that
was appended last, those of the requests in flight and of the accepted ones, and the times of the
requests, the last one first. -/
structure GroupApp (Xo : Type*) where
  report : Report Xo
  appended : Option Xo := none
  inFlight : List Xo := []
  accepted : List Xo := []
  sentAt : List Int := []

abbrev Network (Xo : Type*) := List (GroupApp Xo)

variable {Xo : Type*}

def appendReport (ts : Int) (xo : Option Xo) (report : Report Xo) : Report Xo :=
  match xo with
  | none => report
  | some xo => { report with time := ts, xo := some xo, waitingDia := false }

namespace GroupApp

def telegram (ts : Int) (xo : Option Xo) (cp : GroupApp Xo) : GroupApp Xo :=
  { cp with report := appendReport ts xo cp.report, appended := xo.or cp.appended }

/-- `DiaReportValue`: the request takes a copy of the document, and a free slot of the client.
Without one it is dropped. -/
def diaReportValue (ts : Int) (xo : Xo) (cp : GroupApp Xo) : Nat → GroupApp Xo × Nat
  | 0 => (cp, 0)
  | free + 1 => ({ cp with inFlight := cp.inFlight ++ [xo], sentAt := ts :: cp.sentAt }, free)

/-- What the two branches of the emission do. -/
def send (ts : Int) (xo : Xo) (cp : GroupApp Xo) : Nat → GroupApp Xo × Nat :=
  diaReportValue ts xo
    { cp with report := { cp.report with lastTxTime := ts, waitingDia := true } }

/-- A round of the emission: the group, and the slots that are left. -/
def emit (ts : Int) (free : Nat) (cp : GroupApp Xo) : GroupApp Xo × Nat :=
  match cp.report.xo with
  | none => (cp, free)
  | some xo =>
    if cp.report.time ≥ cp.report.lastTxTime ∧
        ts > cp.report.lastTxTime + cp.report.minInterval then
      cp.send ts xo free
    else if ts > cp.report.lastTxTime + cp.report.maxInterval then cp.send ts xo free
    else (cp, free)

/-- The response to a request in flight: the callbacks of the positive ones, of the errors and of
the timeouts do the same. -/
def response (k : Nat) (positive : Bool) (cp : GroupApp Xo) : GroupApp Xo :=
  { cp with
    report := { cp.report with waitingDia := false }
    inFlight := cp.inFlight.eraseIdx k
    accepted := if positive then cp.inFlight[k]?.toList ++ cp.accepted else cp.accepted }

end GroupApp

/-- The loop of `sendReports` over the groups of a network. -/
def emitAll (ts : Int) : Nat → Network Xo → Network Xo × Nat
  | free, [] => ([], free)
  | free, cp :: groupApp =>
    let (cp, free) := cp.emit ts free
    let (groupApp, free) := emitAll ts free groupApp
    (cp :: groupApp, free)

def sendReports (ts : Int) : Nat → List (Network Xo) → List (Network Xo)
  | _, [] => []
  | free, groupApp :: networks =>
    if groupApp.any fun cp => cp.report.waitingDia then groupApp :: sendReports ts free networks
    else
      let (groupApp, free) := emitAll ts free groupApp
      groupApp :: sendReports ts free networks

/-- The events: a telegram for a group of a network, whose document cannot always be built, a tick
of the clock that finds so many slots of the client free, and the response to a request in
flight. -/
inductive Event (Xo : Type*)
  | telegram (i j : Nat) (ts : Int) (xo : Option Xo)
  | tick (ts : Int) (free : Nat)
  | response (i j k : Nat) (positive : Bool)

/-- A telegram for a group that the project does not have changes nothing. -/
def step (networks : List (Network Xo)) : Event Xo → Option (List (Network Xo))
  | .telegram i j ts xo =>
    some (networks.modify i fun groupApp => groupApp.modify j (GroupApp.telegram ts xo))
  | .tick ts free => if free ≤ maxRequestDia then some (sendReports ts free networks) else none
  | .response i j k positive =>
    if ∃ groupApp ∈ networks[i]?, ∃ cp ∈ groupApp[j]?, k < cp.inFlight.length then
      some (networks.modify i fun groupApp => groupApp.modify j (GroupApp.response k positive))
    else none

/-- A group with its minimal and its maximal interval, before any telegram. -/
def newGroup (intervals : Int × Int) : GroupApp Xo where
  report := { minInterval := intervals.1, maxInterval := intervals.2 }

variable (intervals : List (List (Int × Int)))

def initial : List (Network Xo) :=
  intervals.map fun groups => groups.map newGroup

/-! ## The promises -/

/-- The clock has a reason to send the report. -/
def GroupApp.Due (ts : Int) (cp : GroupApp Xo) : Prop :=
  cp.report.xo.isSome ∧
    (cp.report.time ≥ cp.report.lastTxTime ∧ ts > cp.report.lastTxTime + cp.report.minInterval ∨
      ts > cp.report.lastTxTime + cp.report.maxInterval)

instance (ts : Int) (cp : GroupApp Xo) : Decidable (cp.Due ts) :=
  inferInstanceAs (Decidable (_ ∧ _))

/-- How many requests of a network are in flight. -/
def requests (groupApp : Network Xo) : Nat := (groupApp.map fun cp => cp.inFlight.length).sum

/-- What a tick does with a group when there is a slot for its request. -/
def GroupApp.emitted (ts : Int) (cp : GroupApp Xo) : GroupApp Xo := (cp.emit ts 1).1

/-- The reports of a group are the minimal interval apart. -/
def GroupApp.Spaced (cp : GroupApp Xo) : Prop :=
  cp.sentAt.Pairwise fun later earlier => later ≥ earlier + cp.report.minInterval

/-- A document of a group is still to be sent: a tick after the maximal interval sends it, and each
mark that keeps the clock from it will be cleared by a response. -/
def Scheduled (groupApp : Network Xo) (cp : GroupApp Xo) (xo : Xo) : Prop :=
  (∀ ts, cp.report.lastTxTime + cp.report.maxInterval < ts →
    (cp.emitted ts).inFlight = cp.inFlight ++ [xo]) ∧
  ∀ other ∈ groupApp, other.report.waitingDia = true → other.inFlight ≠ []

/-- What the reporting of a network promises. -/
structure Reported (groupApp : Network Xo) : Prop where
  oneInFlight : requests groupApp ≤ 1
  spaced : ∀ cp ∈ groupApp, cp.Spaced
  carried : ∀ cp ∈ groupApp, ∀ xo ∈ cp.appended,
    xo ∈ cp.accepted ∨ xo ∈ cp.inFlight ∨ Scheduled groupApp cp xo

/-- How many requests a tick makes for a network. -/
def requestsAt (ts : Int) (groupApp : Network Xo) : Nat :=
  if groupApp.any fun cp => cp.report.waitingDia then 0 else groupApp.countP fun cp => cp.Due ts

/-- The requests of a tick are all taken. -/
def Taken (networks : List (Network Xo)) : Event Xo → Prop
  | .tick ts free => (networks.map (requestsAt ts)).sum ≤ free
  | .telegram _ _ _ _ | .response _ _ _ _ => True

/-- The intervals of a group are no times of the past, and in order. -/
def GroupApp.Ordered (cp : GroupApp Xo) : Prop :=
  0 ≤ cp.report.minInterval ∧ cp.report.minInterval ≤ cp.report.maxInterval

/-- The condition on a tick: its requests are taken, and a report that is due in a network without a
mark is the only one, while no request is in flight, and of a group whose intervals are in order. -/
def Condition (networks : List (Network Xo)) : Event Xo → Prop
  | .tick ts free => (networks.map (requestsAt ts)).sum ≤ free ∧ ∀ groupApp ∈ networks,
      (∀ cp ∈ groupApp, cp.report.waitingDia = false) → ∀ cp ∈ groupApp, cp.Due ts →
        cp.Ordered ∧ requests groupApp = 0 ∧ groupApp.countP (fun cp => cp.Due ts) = 1
  | .telegram _ _ _ _ | .response _ _ _ _ => True

instance (cp : GroupApp Xo) : Decidable cp.Ordered := inferInstanceAs (Decidable (_ ∧ _))

instance (networks : List (Network Xo)) : ∀ e : Event Xo, Decidable (Condition networks e)
  | .tick _ _ => inferInstanceAs (Decidable (_ ∧ _))
  | .telegram _ _ _ _ | .response _ _ _ _ => inferInstanceAs (Decidable True)

/-- What the condition keeps of a group. -/
structure GroupApp.Sound (cp : GroupApp Xo) : Prop where
  spaced : cp.Spaced
  last : ∀ t ∈ cp.sentAt, t ≤ cp.report.lastTxTime
  kept : cp.report.xo = cp.appended
  marked : cp.report.waitingDia = true → cp.inFlight ≠ []

/-- What the condition keeps of a network. -/
structure Sound (groupApp : Network Xo) : Prop where
  oneInFlight : requests groupApp ≤ 1
  sound : ∀ cp ∈ groupApp, cp.Sound

section Tick

variable {free : Nat} {ts : Int} {cp : GroupApp Xo} {groupApp : Network Xo}
  {networks : List (Network Xo)}

/-- A report that is due is sent, if there is a slot. -/
theorem GroupApp.emit_of_due {xo : Xo} (hxo : cp.report.xo = some xo) (h : cp.Due ts) :
    cp.emit ts free = cp.send ts xo free := by
  simp only [emit, hxo]
  split_ifs with hfirst hreplay
  · rfl
  · rfl
  · exact absurd h.2 (not_or.mpr ⟨hfirst, hreplay⟩)

theorem GroupApp.emit_of_not_due (h : ¬cp.Due ts) : cp.emit ts free = (cp, free) := by
  unfold emit
  cases hxo : cp.report.xo with
  | none => rfl
  | some xo =>
    have hno := not_or.mp fun hdue => h ⟨by rw [hxo]; rfl, hdue⟩
    dsimp only
    rw [if_neg hno.1, if_neg hno.2]

theorem GroupApp.emitted_of_due {xo : Xo} (hxo : cp.report.xo = some xo) (h : cp.Due ts) :
    cp.emitted ts = { cp with
      report := { cp.report with lastTxTime := ts, waitingDia := true }
      inFlight := cp.inFlight ++ [xo]
      sentAt := ts :: cp.sentAt } := by
  rw [emitted, emit_of_due hxo h]
  rfl

theorem GroupApp.emitted_of_not_due (h : ¬cp.Due ts) : cp.emitted ts = cp := by
  rw [emitted, emit_of_not_due h]

theorem GroupApp.emit_of_room (h : cp.Due ts → 0 < free) :
    cp.emit ts free = (cp.emitted ts, free - if cp.Due ts then 1 else 0) := by
  by_cases hdue : cp.Due ts
  · obtain ⟨xo, hxo⟩ := Option.isSome_iff_exists.mp hdue.1
    obtain ⟨free, rfl⟩ := Nat.exists_eq_succ_of_ne_zero (h hdue).ne'
    rw [emit_of_due hxo hdue, emitted_of_due hxo hdue, if_pos hdue]
    rfl
  · rw [emit_of_not_due hdue, emitted_of_not_due hdue, if_neg hdue, Nat.sub_zero]

theorem emitAll_of_room (h : groupApp.countP (fun cp => cp.Due ts) ≤ free) :
    emitAll ts free groupApp =
      (groupApp.map (GroupApp.emitted ts), free - groupApp.countP fun cp => cp.Due ts) := by
  induction groupApp generalizing free with
  | nil => rfl
  | cons cp groupApp ih =>
    simp only [countP_cons, decide_eq_true_eq] at h
    have hroom : cp.Due ts → 0 < free := fun hdue => by
      rw [if_pos hdue] at h
      omega
    simp only [emitAll, GroupApp.emit_of_room hroom, ih (Nat.le_sub_of_add_le h), map_cons,
      countP_cons, decide_eq_true_eq, Nat.sub_sub, Nat.add_comm]

/-- What a tick does with a network when there are slots for its requests. -/
def sent (ts : Int) (groupApp : Network Xo) : Network Xo :=
  if groupApp.any fun cp => cp.report.waitingDia then groupApp
  else groupApp.map (GroupApp.emitted ts)

/-- **A tick with a slot for each of its requests** treats the networks one by one. -/
theorem sendReports_of_room (h : (networks.map (requestsAt ts)).sum ≤ free) :
    sendReports ts free networks = networks.map (sent ts) := by
  induction networks generalizing free with
  | nil => rfl
  | cons groupApp networks ih =>
    rw [map_cons, sum_cons, requestsAt] at h
    rw [sendReports, map_cons, sent]
    split at h
    · rename_i hmark
      rw [if_pos hmark, if_pos hmark, ih ((Nat.zero_add _).symm.le.trans h)]
    · rename_i hmark
      rw [if_neg hmark, if_neg hmark, emitAll_of_room (Nat.le_of_add_right_le h)]
      dsimp only
      rw [ih (by omega)]

theorem length_inFlight_emitted : (cp.emitted ts).inFlight.length =
    cp.inFlight.length + if cp.Due ts then 1 else 0 := by
  split_ifs with h
  · obtain ⟨xo, hxo⟩ := Option.isSome_iff_exists.mp h.1
    rw [GroupApp.emitted_of_due hxo h, length_append]
    rfl
  · rw [GroupApp.emitted_of_not_due h, Nat.add_zero]

theorem requests_emitted : requests (groupApp.map (GroupApp.emitted ts)) =
    requests groupApp + groupApp.countP (fun cp => cp.Due ts) := by
  induction groupApp with
  | nil => rfl
  | cons cp groupApp ih =>
    have hcp : (cp.emitted ts).inFlight.length = _ := length_inFlight_emitted
    unfold requests at ih ⊢
    simp only [map_cons, sum_cons, countP_cons, decide_eq_true_eq] at ih hcp ⊢
    omega

theorem sent_of_marked (hcp : cp ∈ groupApp) (h : cp.report.waitingDia = true) :
    sent ts groupApp = groupApp :=
  if_pos (any_eq_true.mpr ⟨cp, hcp, h⟩)

theorem sent_of_unmarked (h : ∀ cp ∈ groupApp, cp.report.waitingDia = false) :
    sent ts groupApp = groupApp.map (GroupApp.emitted ts) := by
  refine if_neg fun hany => ?_
  obtain ⟨cp, hcp, hmark⟩ := any_eq_true.mp hany
  rw [h cp hcp] at hmark
  exact Bool.false_ne_true hmark

theorem marked_or_unmarked (groupApp : Network Xo) :
    (∃ cp ∈ groupApp, cp.report.waitingDia = true) ∨
      ∀ cp ∈ groupApp, cp.report.waitingDia = false := by
  by_cases h : ∃ cp ∈ groupApp, cp.report.waitingDia = true
  · exact .inl h
  · exact .inr fun cp hcp => Bool.eq_false_iff.mpr fun hmark => h ⟨cp, hcp, hmark⟩

theorem scheduled_of_kept {xo : Xo} (hxo : cp.report.xo = some xo)
    (h : ∀ other ∈ groupApp, other.report.waitingDia = true → other.inFlight ≠ []) :
    Scheduled groupApp cp xo := by
  refine ⟨fun ts hts => ?_, h⟩
  rw [GroupApp.emitted_of_due hxo ⟨by rw [hxo]; rfl, .inr hts⟩]

theorem Sound.reported (h : Sound groupApp) : Reported groupApp where
  oneInFlight := h.oneInFlight
  spaced cp hcp := (h.sound cp hcp).spaced
  carried cp hcp _ hxo := .inr (.inr (scheduled_of_kept ((h.sound cp hcp).kept.trans hxo)
    fun other hother => (h.sound other hother).marked))

/-- **Nothing that is scheduled is forgotten**: once the requests of the network are answered, the
first tick after the maximal interval sends it. -/
theorem sent_of_scheduled {j : Nat} {xo : Xo} (hcp : groupApp[j]? = some cp)
    (h : Scheduled groupApp cp xo) (hfree : requests groupApp = 0)
    (hts : cp.report.lastTxTime + cp.report.maxInterval < ts) :
    ∃ cp', (sent ts groupApp)[j]? = some cp' ∧ xo ∈ cp'.inFlight := by
  have hunmarked : ∀ other ∈ groupApp, other.report.waitingDia = false := by
    intro other hother
    refine Bool.eq_false_iff.mpr fun hmark => h.2 other hother hmark ?_
    have hzero := List.sum_eq_zero_iff_forall_eq_nat.mp hfree _ (List.mem_map_of_mem hother)
    exact length_eq_zero_iff.mp hzero
  refine ⟨cp.emitted ts, ?_, ?_⟩
  · rw [sent_of_unmarked hunmarked, getElem?_map, hcp]
    rfl
  · rw [h.1 ts hts]
    exact mem_append_right _ mem_cons_self

theorem GroupApp.Sound.emitted (h : cp.Sound) (hordered : cp.Due ts → cp.Ordered) :
    (cp.emitted ts).Sound := by
  by_cases hdue : cp.Due ts
  · obtain ⟨xo, hxo⟩ := Option.isSome_iff_exists.mp hdue.1
    obtain ⟨hmin, hmax⟩ := hordered hdue
    have hlate : cp.report.lastTxTime + cp.report.minInterval < ts := by
      rcases hdue.2 with ⟨-, hfirst⟩ | hreplay
      · exact hfirst
      · omega
    rw [GroupApp.emitted_of_due hxo hdue]
    exact
      { spaced := by
          refine pairwise_cons.mpr ⟨fun t ht => ?_, h.spaced⟩
          have := h.last t ht
          dsimp only
          omega
        last := by
          refine forall_mem_cons.mpr ⟨Int.le_refl ts, fun t ht => ?_⟩
          have := h.last t ht
          dsimp only
          omega
        kept := h.kept
        marked := fun _ => append_ne_nil_of_right_ne_nil _ (cons_ne_nil _ _) }
  · rwa [GroupApp.emitted_of_not_due hdue]

theorem Sound.sent (h : Sound groupApp)
    (hC : (∀ cp ∈ groupApp, cp.report.waitingDia = false) → ∀ cp ∈ groupApp, cp.Due ts →
      cp.Ordered ∧ requests groupApp = 0 ∧ groupApp.countP (fun cp => cp.Due ts) = 1) :
    Sound (sent ts groupApp) := by
  rcases marked_or_unmarked groupApp with ⟨cp, hcp, hmark⟩ | hunmarked
  · rwa [sent_of_marked hcp hmark]
  rw [sent_of_unmarked hunmarked]
  by_cases hdue : ∃ cp ∈ groupApp, cp.Due ts
  · obtain ⟨cp, hcp, hts⟩ := hdue
    obtain ⟨-, hfree, hone⟩ := hC hunmarked cp hcp hts
    refine ⟨Nat.le_of_eq (by rw [requests_emitted, hfree, hone]), ?_⟩
    rintro _ hmem
    obtain ⟨other, hother, rfl⟩ := mem_map.mp hmem
    exact (h.sound other hother).emitted fun hd => (hC hunmarked other hother hd).1
  · have hid : groupApp.map (GroupApp.emitted ts) = groupApp :=
      (map_congr_left fun cp hcp => GroupApp.emitted_of_not_due fun hd =>
        hdue ⟨cp, hcp, hd⟩).trans (map_id _)
    rwa [hid]

theorem condition_of_reported (h : Reported (sent ts groupApp))
    (hunmarked : ∀ cp ∈ groupApp, cp.report.waitingDia = false) (hcp : cp ∈ groupApp)
    (hdue : cp.Due ts) :
    requests groupApp = 0 ∧ groupApp.countP (fun cp => cp.Due ts) = 1 := by
  have hone := h.oneInFlight
  have hpos : 0 < groupApp.countP (fun cp => cp.Due ts) :=
    countP_pos_iff.mpr ⟨cp, hcp, decide_eq_true hdue⟩
  rw [sent_of_unmarked hunmarked, requests_emitted] at hone
  omega

end Tick

section OneGroup

variable {f : GroupApp Xo → GroupApp Xo} {groupApp : Network Xo}

theorem of_mem_modify {α : Type*} {f : α → α} {l : List α} {i : Nat} {b : α}
    (h : b ∈ l.modify i f) : b ∈ l ∨ ∃ a ∈ l, b = f a := by
  obtain ⟨k, hk⟩ := mem_iff_getElem?.mp h
  rw [getElem?_modify] at hk
  split_ifs at hk
  · obtain ⟨a, ha, rfl⟩ := Option.map_eq_some_iff.mp hk
    exact .inr ⟨a, mem_of_getElem? ha, rfl⟩
  · exact .inl (mem_of_getElem? ((congrFun Option.map_id _).symm.trans hk))

theorem requests_modify_le (hf : ∀ cp, (f cp).inFlight.length ≤ cp.inFlight.length)
    (groupApp : Network Xo) (j : Nat) : requests (groupApp.modify j f) ≤ requests groupApp := by
  unfold requests
  induction groupApp generalizing j with
  | nil => simp
  | cons cp groupApp ih =>
    cases j with
    | zero =>
      have := hf cp
      simp only [modify_zero_cons, map_cons, sum_cons]
      omega
    | succ j =>
      have := ih j
      simp only [modify_succ_cons, map_cons, sum_cons]
      omega

theorem Sound.modify (h : Sound groupApp)
    (hf : ∀ cp, (f cp).inFlight.length ≤ cp.inFlight.length)
    (hsound : ∀ cp : GroupApp Xo, cp.Sound → (f cp).Sound) (j : Nat) :
    Sound (groupApp.modify j f) := by
  refine ⟨Nat.le_trans (requests_modify_le hf groupApp j) h.oneInFlight, fun cp hcp => ?_⟩
  rcases of_mem_modify hcp with hold | ⟨old, hold, rfl⟩
  · exact h.sound cp hold
  · exact hsound old (h.sound old hold)

theorem GroupApp.Sound.telegram {cp : GroupApp Xo} (h : cp.Sound) (ts : Int) (xo : Option Xo) :
    (cp.telegram ts xo).Sound := by
  cases xo with
  | none => exact h
  | some xo => exact ⟨h.spaced, h.last, rfl, fun hmark => absurd hmark Bool.false_ne_true⟩

theorem GroupApp.Sound.response {cp : GroupApp Xo} (h : cp.Sound) (k : Nat) (positive : Bool) :
    (cp.response k positive).Sound :=
  ⟨h.spaced, h.last, h.kept, fun hmark => absurd hmark Bool.false_ne_true⟩

end OneGroup

/-! ## Runs -/

variable {networks networks' : List (Network Xo)} {e : Event Xo}

theorem sound_step (h : ∀ groupApp ∈ networks, Sound groupApp) (hC : Condition networks e)
    (hstep : step networks e = some networks') : ∀ groupApp ∈ networks', Sound groupApp := by
  have hone : ∀ {i j : Nat} {f : GroupApp Xo → GroupApp Xo},
      (∀ cp, (f cp).inFlight.length ≤ cp.inFlight.length) →
      (∀ cp : GroupApp Xo, cp.Sound → (f cp).Sound) →
      ∀ groupApp ∈ networks.modify i fun groupApp => groupApp.modify j f, Sound groupApp := by
    intro i j f hf hsound groupApp hmem
    rcases of_mem_modify hmem with hold | ⟨old, hold, rfl⟩
    · exact h groupApp hold
    · exact (h old hold).modify hf hsound j
  cases e with
  | telegram i j ts xo =>
    cases hstep
    exact hone (fun _ => Nat.le_refl _) fun cp hcp => hcp.telegram ts xo
  | tick ts free =>
    obtain ⟨-, hsome⟩ := Option.ite_none_right_eq_some.mp hstep
    cases hsome
    rw [sendReports_of_room hC.1]
    intro groupApp hmem
    obtain ⟨old, hold, rfl⟩ := mem_map.mp hmem
    exact (h old hold).sent (hC.2 old hold)
  | response i j k positive =>
    obtain ⟨-, hsome⟩ := Option.ite_none_right_eq_some.mp hstep
    cases hsome
    exact hone (fun cp => length_eraseIdx_le _ _) fun cp hcp => hcp.response k positive

theorem condition_of_step (hstep : step networks e = some networks') (htaken : Taken networks e)
    (hordered : ∀ groupApp ∈ networks, ∀ cp ∈ groupApp, cp.Ordered)
    (h : ∀ groupApp ∈ networks', Reported groupApp) : Condition networks e := by
  cases e with
  | telegram | response => trivial
  | tick ts free =>
    obtain ⟨-, hsome⟩ := Option.ite_none_right_eq_some.mp hstep
    cases hsome
    refine ⟨htaken, fun groupApp hmem hunmarked cp hcp hdue => ⟨hordered groupApp hmem cp hcp, ?_⟩⟩
    rw [sendReports_of_room htaken] at h
    exact condition_of_reported (h _ (mem_map_of_mem hmem)) hunmarked hcp hdue

theorem sound_initial {intervals : List (List (Int × Int))} :
    ∀ groupApp ∈ (initial intervals : List (Network Xo)), Sound groupApp := by
  intro groupApp hmem
  obtain ⟨groups, -, rfl⟩ := mem_map.mp hmem
  refine ⟨?_, fun cp hcp => ?_⟩
  · have hzero : requests (groups.map newGroup : Network Xo) = 0 := by
      refine List.sum_eq_zero_iff_forall_eq_nat.mpr fun n hn => ?_
      obtain ⟨cp, hcp, rfl⟩ := List.mem_map.mp hn
      obtain ⟨_, -, rfl⟩ := List.mem_map.mp hcp
      rfl
    exact Nat.le_trans (Nat.le_of_eq hzero) (Nat.zero_le 1)
  · obtain ⟨interval, -, rfl⟩ := List.mem_map.mp hcp
    exact ⟨List.Pairwise.nil, forall_mem_nil _, rfl, fun hmark => absurd hmark Bool.false_ne_true⟩

/-- **The reporting of the groups**: in a run whose ticks meet the condition, every network has at
most one request in flight, the reports of a group are the minimal interval apart, and the document
that was appended last is carried by a report.  As long as the requests are taken and the intervals
are in order, the runs that keep these promises are exactly those. -/
theorem reporting_of_condition (es : List (Event Xo)) :
    (Run.Along step Condition (initial intervals) es →
      Run.Visits step (fun networks => ∀ groupApp ∈ networks, Reported groupApp)
        (initial intervals) es) ∧
    (Run.Along step (fun networks e => Taken networks e ∧
        ∀ groupApp ∈ networks, ∀ cp ∈ groupApp, cp.Ordered) (initial intervals) es →
      Run.Visits step (fun networks => ∀ groupApp ∈ networks, Reported groupApp)
        (initial intervals) es →
      Run.Along step Condition (initial intervals) es) := by
  constructor
  · intro hC
    exact Run.visits_mono (fun _ h groupApp hmem => (h groupApp hmem).reported)
      (Run.visits_of_along (fun _ _ _ => sound_step) sound_initial hC)
  · intro hordinary h
    exact Run.along_of_visits (fun _ _ _ => sound_step)
      (fun _ _ _ _ he hstep hP => condition_of_step hstep he.1 he.2 hP) sound_initial hordinary h

/-- Two networks.  In the first one a document comes while its request is in flight, and its report
waits for the minimal interval; in the second one a request fails, and the report is sent again. -/
theorem reporting_two_networks :
    Run.Visits step (fun networks => ∀ groupApp ∈ networks, Reported groupApp)
      (initial [[(10, 60), (5, 30)], [(0, 20)]])
      [.telegram 0 0 5 (some 'a'), .tick 20 100, .telegram 0 0 21 (some 'b'), .tick 22 99,
        .response 0 0 0 true, .telegram 1 0 24 (some 'c'), .tick 25 50, .response 1 0 0 false,
        .telegram 0 1 26 none, .tick 31 100, .tick 46 1] :=
  (reporting_of_condition [[(10, 60), (5, 30)], [(0, 20)]] _).1 (by decide)

/-- **Two groups** of a network have got a document when the clock ticks, and both requests are in
flight at once; and **without a free slot** a document is neither sent nor scheduled. -/
theorem two_in_flight :
    ¬Run.Visits step (fun networks => ∀ groupApp ∈ networks, Reported groupApp)
        (initial [[(10, 60), (10, 60)]])
        [.telegram 0 0 5 (some 'a'), .telegram 0 1 6 (some 'b'), .tick 20 100] ∧
      ¬Run.Visits step (fun networks => ∀ groupApp ∈ networks, Reported groupApp)
        (initial [[(10, 60)]]) [.telegram 0 0 5 (some 'a'), .tick 20 0] := by
  constructor <;> intro h
  · have hone := (Run.visits_exec h rfl _ (mem_singleton_self _)).oneInFlight
    exact absurd hone (by decide)
  · have hcarried := (Run.visits_exec h rfl _ (mem_singleton_self _)).carried _
      (mem_singleton_self _) 'a' rfl
    rcases hcarried with haccepted | hin | hscheduled
    · cases haccepted
    · cases hin
    · exact hscheduled.2 _ (mem_singleton_self _) rfl rfl

/-- **No document is forgotten**: after any run that meets the condition, when the requests of a
network are answered, the first tick after the maximal interval that finds a slot for each of its
requests sends what was appended last to a group, whatever the responses were. -/
theorem appended_sent {intervals : List (List (Int × Int))} {es : List (Event Xo)}
    {groupApp : Network Xo} {cp : GroupApp Xo} {xo : Xo} {i j free : Nat} {ts : Int}
    (hC : Run.Along step Condition (initial intervals) es)
    (hrun : Run.exec step (initial intervals) es = some networks)
    (hi : networks[i]? = some groupApp) (hj : groupApp[j]? = some cp) (hxo : xo ∈ cp.appended)
    (hnone : requests groupApp = 0)
    (hts : cp.report.lastTxTime + cp.report.maxInterval < ts)
    (htaken : (networks.map (requestsAt ts)).sum ≤ free) (hfree : free ≤ maxRequestDia) :
    ∃ networks' groupApp' cp', step networks (.tick ts free) = some networks' ∧
      networks'[i]? = some groupApp' ∧ groupApp'[j]? = some cp' ∧ xo ∈ cp'.inFlight := by
  have hvisits := Run.visits_of_along (fun _ _ _ => sound_step) sound_initial hC
  have hsound := Run.visits_exec hvisits hrun groupApp (mem_of_getElem? hi)
  have hscheduled : Scheduled groupApp cp xo :=
    scheduled_of_kept ((hsound.sound cp (mem_of_getElem? hj)).kept.trans hxo)
      fun other hother => (hsound.sound other hother).marked
  obtain ⟨cp', hcp', hin⟩ := sent_of_scheduled hj hscheduled hnone hts
  refine ⟨_, _, cp', if_pos hfree, ?_, hcp', hin⟩
  rw [sendReports_of_room htaken, getElem?_map, hi]
  rfl

/-- A document that came while its request was in flight. -/
theorem second_document_sent :
    ∃ networks' groupApp' cp',
      step [[⟨⟨10, 60, false, some 'b', 21, 20⟩, some 'b', [], ['a'], [20]⟩]] (.tick 81 1) =
        some networks' ∧
      networks'[0]? = some groupApp' ∧ groupApp'[0]? = some cp' ∧ 'b' ∈ cp'.inFlight :=
  appended_sent (by decide : Run.Along step Condition (initial [[(10, 60)]])
      [.telegram 0 0 5 (some 'a'), .tick 20 100, .telegram 0 0 21 (some 'b'),
        .response 0 0 0 true])
    rfl rfl rfl rfl rfl (by decide) (by decide) (by decide)

end Ong.Knx.Reporting
