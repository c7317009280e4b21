import Mathlib.Data.List.Nodup
import Ong.Rtbase.MessageQueue

/-!
# Runs of the message and timer queue

## Main results

* `imsg_kept`: what holds all along every run
-/

namespace Ong.Rtbase

open List

/-- The counts are the lengths of the lists. -/
structure Iqmsg.Counted (iq : Iqmsg) : Prop where
  msgcount : iq.msgcount = iq.msglist.length
  timercount : iq.timercount = iq.timerlist.length
  count : iq.count = iq.msglist.length + iq.timerlist.length

/-- What holds of a queue at any time: its timers are in the order of their ends, then of their
additions; its counts are right; the messages returned and those still there are in the order in
which they entered; and what was added was returned, freed or is there, once. -/
structure ImsgKept (s : ImsgRun) : Prop where
  sorted : s.iq.timerlist.Pairwise (Ordered fun address => (s.track address).rank)
  counted : s.iq.Counted
  fifo : (s.ordinary ++ s.iq.msglist.map Imsg.address).Sublist s.entered
  once : s.added.Perm (s.returned ++ s.freed ++ s.iq.addresses)
  nodup : s.iq.addresses.Nodup

/-- The messages that wait in a get, which leaves the queue `iq`: those that were there, then the
delayed ones that it took off the timers. -/
def ImsgRun.waiting (s : ImsgRun) (iq : Iqmsg) : List Nat :=
  (s.iq.msglist ++ s.moved iq).map Imsg.address

/-- What a get returns: a timer within the window of its end, a delayed message as an ordinary one
after its end; and it leaves no timer that is over, unless it returns one that ends no later.
A get of messages that returns no timer returns the first of the messages that wait, none only if
there is none; and every other get leaves all of them, in their order. -/
structure GetKept (s : ImsgRun) (mode : Int) (clock : Clock) : Prop where
  notEarly : ∀ m ∈ (msgGet s.iq mode clock).1, m.imTimer = true →
    nanoseconds (s.track m.address).stop - window ≤ clock.time
  notSkipped : Timed mode → ∀ m ∈ (msgGet s.iq mode clock).2.timerlist,
    nanoseconds m.stop ≤ clock.time → ∃ m' ∈ (msgGet s.iq mode clock).1,
      m'.imTimer = true ∧ nanoseconds m'.stop ≤ nanoseconds m.stop
  delayed : ∀ m ∈ (msgGet s.iq mode clock).1, (s.track m.address).delayed = true →
    m.imTimer = false ∧ m.imDelayed = false ∧
      ((s.afterGet mode clock).track m.address).expired = true
  kind : ∀ m ∈ (msgGet s.iq mode clock).1,
    (¬ Timed mode → m.imTimer = false) ∧ (mode = IMSG_TIMER → m.imTimer = true)
  served : mode ≠ IMSG_TIMER → (∀ m ∈ (msgGet s.iq mode clock).1, m.imTimer = false) →
    (msgGet s.iq mode clock).1.map Imsg.address =
        (s.waiting (msgGet s.iq mode clock).2).head? ∧
      (msgGet s.iq mode clock).2.msglist.map Imsg.address =
        (s.waiting (msgGet s.iq mode clock).2).tail
  left : (mode = IMSG_TIMER ∨ ∃ m ∈ (msgGet s.iq mode clock).1, m.imTimer = true) →
    (msgGet s.iq mode clock).2.msglist.map Imsg.address = s.waiting (msgGet s.iq mode clock).2

/-- The property of the events of a run. -/
def EventKept (s : ImsgRun) : ImsgEvent → Prop
  | .get mode clock => GetKept s mode clock
  | _ => True

/-- The invariant: beside the property, the flags of a message say which list it is in, and what is
known of a message is right. -/
structure ImsgInv (s : ImsgRun) : Prop extends ImsgKept s where
  timers : ∀ m ∈ s.iq.timerlist, (m.imTimer || m.imDelayed) = true ∧
    (0 ≤ m.imEndns ∧ m.imEndns < 1000000000) ∧
    (s.track m.address).delayed = m.imDelayed ∧ (s.track m.address).stop = m.stop
  msgs : ∀ m ∈ s.iq.msglist, (m.imTimer = false ∧ m.imDelayed = false) ∧
    ((s.track m.address).delayed = true → (s.track m.address).expired = true)
  ranks : ∀ m ∈ s.iq.all, (s.track m.address).rank < s.added.length

variable {s : ImsgRun} {iq iq' iq'' : Iqmsg}

theorem mem_all {m : Imsg} : m ∈ iq.all ↔ m ∈ iq.msglist ∨ m ∈ iq.timerlist := mem_append

theorem addresses_eq (iq : Iqmsg) :
    iq.addresses = iq.msglist.map Imsg.address ++ iq.timerlist.map Imsg.address := map_append

section Additions

variable {s' : ImsgRun} {msg : Imsg}

/-- What an addition does to the messages and to what is known of them. -/
structure Added (s s' : ImsgRun) (msg : Imsg) : Prop where
  fresh : msg.address ∉ s.iq.addresses
  all : s'.iq.all.Perm (msg :: s.iq.all)
  track : ∀ m ∈ s.iq.all, s'.track m.address = s.track m.address
  self : s'.track msg.address = ⟨s.added.length, msg.imDelayed, msg.stop, false⟩
  added : s'.added = s.added ++ [msg.address]
  returned : s'.returned = s.returned
  freed : s'.freed = s.freed

theorem afterAdd_added (iq' : Iqmsg) (hfresh : msg.address ∉ s.iq.addresses)
    (hall : iq'.all.Perm (msg :: s.iq.all)) : Added s (s.afterAdd msg iq') msg where
  fresh := hfresh
  all := hall
  track := by
    intro m hm
    refine Function.update_of_ne (fun heq => hfresh ?_) _ _
    exact heq ▸ mem_map_of_mem hm
  self := Function.update_self _ _ _
  added := rfl
  returned := rfl
  freed := rfl

section

variable (h : Added s s' msg)

include h

theorem Added.addresses :
    s'.iq.addresses.Perm (msg.address :: s.iq.addresses) := h.all.map Imsg.address

theorem Added.once (hold : s.added.Perm (s.returned ++ s.freed ++ s.iq.addresses)) :
    s'.added.Perm (s'.returned ++ s'.freed ++ s'.iq.addresses) := by
  rw [h.added, h.returned, h.freed, perm_iff_count]
  intro a
  have hone := hold.count_eq a
  have hcount := h.addresses.count_eq a
  simp only [count_append, count_cons, count_nil] at hone hcount ⊢
  omega

theorem Added.nodup (hold : s.iq.addresses.Nodup) : s'.iq.addresses.Nodup := by
  rw [h.addresses.nodup_iff]
  exact nodup_cons.mpr ⟨h.fresh, hold⟩

theorem Added.ranks (hold : ∀ m ∈ s.iq.all, (s.track m.address).rank < s.added.length) :
    ∀ m ∈ s'.iq.all, (s'.track m.address).rank < s'.added.length := by
  intro m hm
  rw [h.added, length_append, length_singleton]
  rcases mem_cons.mp (h.all.mem_iff.mp hm) with rfl | hm
  · rw [h.self]
    exact Nat.lt_succ_self _
  · rw [h.track m hm]
    have := hold m hm
    omega

theorem Added.sorted
    (hold : s.iq.timerlist.Pairwise (Ordered fun address => (s.track address).rank)) :
    s.iq.timerlist.Pairwise (Ordered fun address => (s'.track address).rank) := by
  refine hold.imp_of_mem fun hm hm' hordered => ?_
  unfold Ordered at hordered ⊢
  dsimp only
  rw [h.track _ (mem_all.mpr (.inr hm)), h.track _ (mem_all.mpr (.inr hm'))]
  exact hordered

end

section

variable (h : ImsgInv s) (hfresh : msg.address ∉ s.iq.addresses)

include h hfresh

theorem ImsgInv.addTimer (hns : 0 ≤ msg.imEndns ∧ msg.imEndns < 1000000000)
    (hflags : (msg.imTimer || msg.imDelayed) = true) :
    ImsgInv (s.afterAdd msg (msgAdd s.iq msg).2) := by
  rw [msgAdd_timerlist h.sorted hflags]
  have hperm : (insertTimer msg s.iq.timerlist).Perm (msg :: s.iq.timerlist) := by
    obtain ⟨l₁, l₂, hl, hinsert, -⟩ := insertTimer_eq msg s.iq.timerlist
    rw [hinsert, hl]
    exact perm_middle
  have hadded := afterAdd_added
    { s.iq with
      timerlist := insertTimer msg s.iq.timerlist
      timercount := s.iq.timercount + 1
      count := s.iq.count + 1 } hfresh ((hperm.append_left _).trans perm_middle)
  constructor
  case toImsgKept =>
    constructor
    case sorted =>
      refine insertTimer_sorted (hadded.sorted h.sorted) fun m hm => ?_
      rw [hadded.track m (mem_all.mpr (.inr hm)), hadded.self]
      exact h.ranks m (mem_all.mpr (.inr hm))
    case counted =>
      have hlength := hperm.length_eq
      rw [length_cons] at hlength
      obtain ⟨hmsgs, htimers, hcount⟩ := h.counted
      constructor
      · exact hmsgs
      · change s.iq.timercount + 1 = ((insertTimer msg s.iq.timerlist).length : Int)
        omega
      · change s.iq.count + 1 =
          (s.iq.msglist.length : Int) + (insertTimer msg s.iq.timerlist).length
        omega
    case fifo =>
      change Sublist _ (if _ then _ else _)
      rw [if_pos hflags]
      exact h.fifo
    case once => exact hadded.once h.once
    case nodup => exact hadded.nodup h.nodup
  case timers =>
    intro m hm
    rcases mem_cons.mp (hperm.mem_iff.mp hm) with rfl | hm
    · rw [hadded.self]
      exact ⟨hflags, hns, rfl, rfl⟩
    · rw [hadded.track m (mem_all.mpr (.inr hm))]
      exact h.timers m hm
  case msgs =>
    intro m hm
    rw [hadded.track m (mem_all.mpr (.inl hm))]
    exact h.msgs m hm
  case ranks => exact hadded.ranks h.ranks

theorem ImsgInv.addMsg (hflags : (msg.imTimer || msg.imDelayed) = false) :
    ImsgInv (s.afterAdd msg (msgAdd s.iq msg).2) := by
  have hadd : (msgAdd s.iq msg).2 =
      { s.iq with
        msglist := s.iq.msglist ++ [msg]
        msgcount := s.iq.msgcount + 1
        count := s.iq.count + 1 } := by
    unfold msgAdd
    rw [if_neg (Bool.eq_false_iff.mp hflags)]
  rw [hadd]
  have hperm : (s.iq.msglist ++ [msg]).Perm (msg :: s.iq.msglist) := perm_append_singleton _ _
  have hadded := afterAdd_added
    { s.iq with
      msglist := s.iq.msglist ++ [msg]
      msgcount := s.iq.msgcount + 1
      count := s.iq.count + 1 } hfresh (hperm.append_right _)
  constructor
  case toImsgKept =>
    constructor
    case sorted => exact hadded.sorted h.sorted
    case counted =>
      have hlength := hperm.length_eq
      rw [length_cons] at hlength
      obtain ⟨hmsgs, htimers, hcount⟩ := h.counted
      constructor
      · change s.iq.msgcount + 1 = ((s.iq.msglist ++ [msg]).length : Int)
        omega
      · exact htimers
      · change s.iq.count + 1 = ((s.iq.msglist ++ [msg]).length : Int) + s.iq.timerlist.length
        omega
    case fifo =>
      change Sublist (s.ordinary ++ (s.iq.msglist ++ [msg]).map Imsg.address)
        (if _ then _ else _)
      rw [if_neg (Bool.eq_false_iff.mp hflags), map_append, ← append_assoc]
      exact h.fifo.append (Sublist.refl _)
    case once => exact hadded.once h.once
    case nodup => exact hadded.nodup h.nodup
  case timers =>
    intro m hm
    rw [hadded.track m (mem_all.mpr (.inr hm))]
    exact h.timers m hm
  case msgs =>
    intro m hm
    rcases mem_append.mp hm with hm | hm
    · rw [hadded.track m (mem_all.mpr (.inl hm))]
      exact h.msgs m hm
    · rw [mem_singleton.mp hm, hadded.self]
      obtain ⟨htimer, hdelayed⟩ := Bool.or_eq_false_iff.mp hflags
      refine ⟨⟨htimer, hdelayed⟩, fun hd => ?_⟩
      change msg.imDelayed = true at hd
      rw [hdelayed] at hd
      cases hd
  case ranks => exact hadded.ranks h.ranks

/-- **An addition** keeps the invariant. -/
theorem ImsgInv.add (hns : 0 ≤ msg.imEndns ∧ msg.imEndns < 1000000000) :
    ImsgInv (s.afterAdd msg (msgAdd s.iq msg).2) := by
  by_cases hflags : (msg.imTimer || msg.imDelayed) = true
  · exact h.addTimer hfresh hns hflags
  · exact h.addMsg hfresh (eq_false_of_ne_true hflags)

end

end Additions

section Removals

variable {freed freed' : List Imsg} {l : List Imsg} {rmv : Imsg}

/-- What a removal does: the other messages stay in order. -/
structure Removes (iq : Iqmsg) (freed : List Imsg) (iq' : Iqmsg) : Prop where
  msgs : iq'.msglist.Sublist iq.msglist
  timers : iq'.timerlist.Sublist iq.timerlist
  perm : iq.addresses.Perm (freed.map Imsg.address ++ iq'.addresses)
  counted : iq.Counted → iq'.Counted

theorem Removes.refl (iq : Iqmsg) : Removes iq [] iq :=
  ⟨.refl _, .refl _, .refl _, id⟩

theorem Removes.trans (h : Removes iq freed iq') (h' : Removes iq' freed' iq'') :
    Removes iq (freed ++ freed') iq'' := by
  refine ⟨h'.msgs.trans h.msgs, h'.timers.trans h.timers, ?_, h'.counted ∘ h.counted⟩
  rw [map_append, append_assoc]
  exact h.perm.trans (h'.perm.append_left _)

theorem removeMsgs_removes (p : Imsg → Bool) (iq : Iqmsg) :
    Removes iq (removeMsgs p iq).1 (removeMsgs p iq).2 := by
  have hperm := filter_append_perm p iq.msglist
  refine ⟨filter_sublist, .refl _, ?_, fun hcounted => ?_⟩
  · unfold Iqmsg.addresses
    rw [← map_append]
    refine Perm.map Imsg.address ?_
    exact (hperm.symm.append_right _).trans (.of_eq (append_assoc _ _ _))
  · have hlength := hperm.length_eq
    rw [length_append] at hlength
    obtain ⟨hmsgs, htimers, hcount⟩ := hcounted
    refine ⟨?_, htimers, ?_⟩
    · change iq.msgcount - _ = ((iq.msglist.filter fun m => !p m).length : Int)
      omega
    · change iq.count - _ =
        ((iq.msglist.filter fun m => !p m).length : Int) + (iq.timerlist.length : Int)
      omega

theorem removeTimers_removes (p : Imsg → Bool) (iq : Iqmsg) :
    Removes iq (removeTimers p iq).1 (removeTimers p iq).2 := by
  have hperm := filter_append_perm p iq.timerlist
  refine ⟨.refl _, filter_sublist, ?_, fun hcounted => ?_⟩
  · unfold Iqmsg.addresses
    rw [← map_append]
    refine Perm.map Imsg.address ((hperm.symm.append_left _).trans ?_)
    rw [← append_assoc]
    exact (perm_append_comm.append_right _).trans (.of_eq (append_assoc _ _ _))
  · have hlength := hperm.length_eq
    rw [length_append] at hlength
    obtain ⟨hmsgs, htimers, hcount⟩ := hcounted
    refine ⟨hmsgs, ?_, ?_⟩
    · change iq.timercount - _ = ((iq.timerlist.filter fun m => !p m).length : Int)
      omega
    · change iq.count - _ =
        (iq.msglist.length : Int) + ((iq.timerlist.filter fun m => !p m).length : Int)
      omega

theorem imsgRemoveToType_removes (iq : Iqmsg) (dest : Nat) (imClass imType : Int) :
    Removes iq (imsgRemoveToType iq dest imClass imType).1
      (imsgRemoveToType iq dest imClass imType).2 :=
  (removeMsgs_removes _ iq).trans (removeTimers_removes _ _)

theorem imsgRemoveAll_removes (iq : Iqmsg) :
    Removes iq (imsgRemoveAll iq).1 (imsgRemoveAll iq).2 :=
  (removeMsgs_removes _ iq).trans (removeTimers_removes _ _)

theorem eraseP_address (h : rmv.address ∈ l.map Imsg.address) :
    (l.map Imsg.address).Perm
      (rmv.address :: (l.eraseP fun m => m.address = rmv.address).map Imsg.address) := by
  obtain ⟨m, hm, hmrmv⟩ := mem_map.mp h
  obtain ⟨m', l₁, l₂, -, haddress, hl, herase⟩ :=
    exists_of_eraseP (p := fun m => m.address = rmv.address) hm (decide_eq_true hmrmv)
  rw [herase, hl, ← of_decide_eq_true haddress]
  exact perm_middle.map Imsg.address

theorem delTimer_removes (h : rmv.address ∈ iq.timerlist.map Imsg.address) :
    Removes iq [rmv] (delTimer iq rmv) := by
  have hperm := eraseP_address h
  refine ⟨.refl _, eraseP_sublist, ?_, fun hcounted => ?_⟩
  · rw [addresses_eq, addresses_eq]
    exact (hperm.append_left _).trans perm_middle
  · have hlength := hperm.length_eq
    rw [length_cons, length_map, length_map] at hlength
    obtain ⟨hmsgs, htimers, hcount⟩ := hcounted
    refine ⟨hmsgs, ?_, ?_⟩
    · unfold delTimer
      dsimp only
      omega
    · unfold delTimer
      dsimp only
      omega

theorem delMsg_removes (h : rmv.address ∈ iq.msglist.map Imsg.address) :
    Removes iq [rmv] (delMsg iq rmv) := by
  have hperm := eraseP_address h
  refine ⟨eraseP_sublist, .refl _, ?_, fun hcounted => ?_⟩
  · rw [addresses_eq, addresses_eq]
    exact hperm.append_right _
  · have hlength := hperm.length_eq
    rw [length_cons, length_map, length_map] at hlength
    obtain ⟨hmsgs, htimers, hcount⟩ := hcounted
    refine ⟨?_, htimers, ?_⟩
    · unfold delMsg
      dsimp only
      omega
    · unfold delMsg
      dsimp only
      omega

theorem any_address {address : Nat} :
    (l.any fun m => m.address = address) = true ↔ address ∈ l.map Imsg.address := by
  rw [any_eq_true, mem_map]
  exact exists_congr fun m => and_congr_right fun _ => decide_eq_true_iff

theorem imsgRemove_removes (iq : Iqmsg) (rmv : Imsg) :
    Removes iq (imsgRemove iq rmv).1 (imsgRemove iq rmv).2 := by
  unfold imsgRemove
  split
  · split
    · next h => exact delTimer_removes (any_address.mp h)
    · exact .refl iq
  · split
    · next h => exact delMsg_removes (any_address.mp h)
    · exact .refl iq

/-- **The fast removal** of a message whose flags say which list it is in. -/
theorem ImsgInv.fastRemove_removes (h : ImsgInv s) (hrmv : rmv ∈ s.iq.all) :
    Removes s.iq (imsgFastRemove s.iq rmv).1 (imsgFastRemove s.iq rmv).2 := by
  have hnodup := h.nodup
  rw [addresses_eq, nodup_append] at hnodup
  have hother : ∀ l : List Imsg, rmv.address ∉ l.map Imsg.address →
      (l.eraseP fun m => m.address = rmv.address) = l := by
    intro l hl
    refine eraseP_of_forall_not fun m hm heq => hl ?_
    exact of_decide_eq_true heq ▸ mem_map_of_mem hm
  unfold imsgFastRemove
  rcases mem_all.mp hrmv with hmem | hmem
  · obtain ⟨⟨htimer, hdelayed⟩, -⟩ := h.msgs rmv hmem
    have haddress : rmv.address ∈ s.iq.msglist.map Imsg.address := mem_map_of_mem hmem
    have hnot : rmv.address ∉ s.iq.timerlist.map Imsg.address := fun hin =>
      hnodup.2.2 _ haddress _ hin rfl
    rw [hother _ hnot, htimer, hdelayed]
    exact delMsg_removes haddress
  · have hflags := (h.timers rmv hmem).1
    have haddress : rmv.address ∈ s.iq.timerlist.map Imsg.address := mem_map_of_mem hmem
    have hnot : rmv.address ∉ s.iq.msglist.map Imsg.address := fun hin =>
      hnodup.2.2 _ hin _ haddress rfl
    rw [hother _ hnot, if_pos hflags]
    exact delTimer_removes haddress

/-- **A removal** keeps the invariant. -/
theorem ImsgInv.remove (h : ImsgInv s) {result : List Imsg × Iqmsg}
    (hresult : Removes s.iq result.1 result.2) : ImsgInv (s.afterRemove result) := by
  have hall : ∀ m ∈ result.2.all, m ∈ s.iq.all := by
    intro m hm
    rcases mem_all.mp hm with hm | hm
    · exact mem_all.mpr (.inl (hresult.msgs.subset hm))
    · exact mem_all.mpr (.inr (hresult.timers.subset hm))
  constructor
  case toImsgKept =>
    constructor
    case sorted => exact h.sorted.sublist hresult.timers
    case counted => exact hresult.counted h.counted
    case fifo =>
      refine Sublist.trans ?_ h.fifo
      exact (Sublist.refl _).append (hresult.msgs.map _)
    case once =>
      refine h.once.trans ((hresult.perm.append_left _).trans (.of_eq ?_))
      unfold ImsgRun.afterRemove
      simp only [append_assoc]
    case nodup =>
      have hnodup := h.nodup
      rw [hresult.perm.nodup_iff] at hnodup
      exact (nodup_append.mp hnodup).2.1
  case timers => exact fun m hm => h.timers m (hresult.timers.subset hm)
  case msgs => exact fun m hm => h.msgs m (hresult.msgs.subset hm)
  case ranks => exact fun m hm => h.ranks m (hall m hm)

end Removals

section Gets

variable {mode : Int} {clock : Clock} {ret : Option Imsg} {moved : List Imsg}
  {taken head : Option Imsg}

section

variable (s : ImsgRun) (mode : Int) (clock : Clock)

theorem afterGet_entered :
    (s.afterGet mode clock).entered =
      s.entered ++ (s.moved (msgGet s.iq mode clock).2).map Imsg.address := rfl

theorem afterGet_returned :
    (s.afterGet mode clock).returned =
      s.returned ++ (msgGet s.iq mode clock).1.toList.map Imsg.address := rfl

theorem afterGet_ordinary :
    (s.afterGet mode clock).ordinary = s.ordinary ++
      ((msgGet s.iq mode clock).1.toList.filter fun m => !m.imTimer).map Imsg.address := rfl

theorem afterGet_iq :
    (s.afterGet mode clock).iq = (msgGet s.iq mode clock).2 := rfl

end

theorem Got.moved_eq (h : Got s.iq clock ret iq' moved taken head)
    (hnodup : s.iq.addresses.Nodup) : s.moved iq' = moved := by
  rw [addresses_eq, nodup_append] at hnodup
  have htimers := hnodup.2.1
  rw [h.timers, map_append, map_append, nodup_append] at htimers
  unfold ImsgRun.moved
  rw [h.timers, filter_append, filter_append]
  have hmoved : (moved.filter fun m =>
      m.imDelayed && decide (m.address ∉ iq'.timerlist.map Imsg.address)) = moved := by
    refine filter_eq_self.mpr fun m hm => ?_
    rw [(h.moved_due m hm).1, Bool.true_and, decide_eq_true_iff]
    exact fun hin => htimers.2.2 _ (mem_map_of_mem hm) _ (mem_append_right _ hin) rfl
  have htaken : (taken.toList.filter fun m =>
      m.imDelayed && decide (m.address ∉ iq'.timerlist.map Imsg.address)) = [] := by
    refine filter_eq_nil_iff.mpr fun m hm => ?_
    rw [(h.taken_due m (Option.mem_toList.mp hm)).1, Bool.false_and]
    exact Bool.false_ne_true
  have hrest : (iq'.timerlist.filter fun m =>
      m.imDelayed && decide (m.address ∉ iq'.timerlist.map Imsg.address)) = [] := by
    refine filter_eq_nil_iff.mpr fun m hm => ?_
    rw [Bool.and_eq_true, decide_eq_true_iff]
    exact fun hnot => hnot.2 (mem_map_of_mem hm)
  rw [hmoved, htaken, hrest, append_nil, append_nil]

section

variable (h : Got iq clock ret iq' moved taken head)

include h

theorem Got.addresses : iq.addresses.Perm (ret.toList.map Imsg.address ++ iq'.addresses) := by
  have hmsgs := congrArg (map Imsg.address) h.msgs
  rw [map_append, map_append, map_map] at hmsgs
  have hsettle : Imsg.address ∘ Imsg.settle clock = Imsg.address := rfl
  rw [hsettle] at hmsgs
  have hret : ret.toList.map Imsg.address =
      taken.toList.map Imsg.address ++ head.toList.map Imsg.address := by
    rw [h.ret_eq]
    rcases h.one with rfl | rfl
    · rfl
    · cases taken <;> rfl
  rw [hret, addresses_eq, addresses_eq, h.timers, perm_iff_count]
  intro a
  have hcount := congrArg (List.count a) hmsgs
  simp only [map_append, count_append] at hcount ⊢
  omega

theorem Got.mem_timers {m : Imsg} (hm : m ∈ iq'.timerlist ∨ m ∈ moved ∨ m ∈ taken) :
    m ∈ iq.timerlist := by
  rw [h.timers, mem_append, mem_append, Option.mem_toList]
  rcases hm with hm | hm | hm
  · exact .inr (.inr hm)
  · exact .inl hm
  · exact .inr (.inl hm)

theorem Got.mem_msgs {m : Imsg} (hm : m ∈ head ∨ m ∈ iq'.msglist) :
    m ∈ iq.msglist ∨ ∃ m' ∈ moved, m'.settle clock = m := by
  have hin : m ∈ head.toList ++ iq'.msglist := by
    rw [mem_append, Option.mem_toList]
    exact hm
  rw [← h.msgs, mem_append, mem_map] at hin
  exact hin

end

section

variable (h : ImsgInv s) (hclock : clock.Valid) (hgot : Got s.iq clock ret iq' moved taken head)
  (hmode : ¬ Timed mode → moved = []) {m : Imsg}

include h hclock hgot hmode

theorem ImsgInv.expired (hm : m ∈ moved) :
    ((s.afterGet mode clock).track m.address).expired = true := by
  have hmem := hgot.mem_timers (.inr (.inl hm))
  obtain ⟨-, hns, -, hstop⟩ := h.timers m hmem
  have hwindow := window_of_due hclock hns (hgot.moved_due m hm).2
  have htimed : mode = IMSG_TIMER ∨ mode = IMSG_BOTH := by
    by_contra hnot
    rw [hmode hnot] at hm
    cases hm
  change (_ || decide _) = true
  rw [hstop, Bool.or_eq_true, decide_eq_true_iff]
  exact .inr ⟨htimed, hwindow⟩

theorem ImsgInv.settled (hm : m ∈ head ∨ m ∈ iq'.msglist) :
    (m.imTimer = false ∧ m.imDelayed = false) ∧
      ((s.track m.address).delayed = true →
        ((s.afterGet mode clock).track m.address).expired = true) := by
  rcases hgot.mem_msgs hm with hm | ⟨m', hm', rfl⟩
  · obtain ⟨hflags, hexpired⟩ := h.msgs m hm
    refine ⟨hflags, fun hdelayed => ?_⟩
    change (_ || _) = true
    rw [hexpired hdelayed, Bool.true_or]
  · exact ⟨⟨rfl, rfl⟩, fun _ => h.expired (m := m') hclock hgot hmode hm'⟩

end

/-- **A get** keeps the invariant. -/
theorem ImsgInv.get (h : ImsgInv s) (hclock : clock.Valid) (mode : Int) :
    ImsgInv (s.afterGet mode clock) := by
  obtain ⟨moved, taken, head, hgot, hchoice⟩ := msgGet_got mode clock h.sorted
  have hmode := fun hm => (hchoice.untimed hm).1
  have hsettled := fun m hm => h.settled (m := m) hclock hgot hmode hm
  have hmoved := hgot.moved_eq h.nodup
  have haddresses := hgot.addresses
  have hfree : ∀ m ∈ (msgGet s.iq mode clock).2.all, m.address ∈ s.iq.addresses := by
    intro m hm
    rw [haddresses.mem_iff]
    exact mem_append_right _ (mem_map_of_mem hm)
  constructor
  case toImsgKept =>
    constructor
    case sorted =>
      have hsorted := h.sorted
      rw [hgot.timers, pairwise_append, pairwise_append] at hsorted
      exact hsorted.2.1.2.1
    case counted =>
      obtain ⟨hmsgs, htimers, hcount⟩ := h.counted
      have hmsgsLength := congrArg length hgot.msgs
      have htimersLength := congrArg length hgot.timers
      simp only [length_append, length_map] at hmsgsLength htimersLength
      have hmsgcount := hgot.msgcount
      have htimercount := hgot.timercount
      have hcount' := hgot.count
      rw [afterGet_iq]
      constructor <;> omega
    case fifo =>
      have hordinary : ((msgGet s.iq mode clock).1.toList.filter fun m => !m.imTimer) =
          head.toList := by
        rw [hgot.ret_eq]
        rcases hgot.one with htaken | hhead
        · rw [htaken]
          cases head with
          | none => rfl
          | some m =>
            have := (hsettled m (.inl rfl)).1.1
            simp [this]
        · rw [hhead]
          cases taken with
          | none => rfl
          | some m =>
            obtain ⟨hdelayed, -⟩ := hgot.taken_due m rfl
            have hflags := (h.timers m (hgot.mem_timers (.inr (.inr rfl)))).1
            rw [hdelayed, Bool.or_false] at hflags
            simp [Imsg.elapse, hflags]
      have hmsgs := congrArg (map Imsg.address) hgot.msgs
      rw [map_append, map_append, map_map] at hmsgs
      have hsettle : Imsg.address ∘ Imsg.settle clock = Imsg.address := rfl
      rw [hsettle] at hmsgs
      rw [afterGet_ordinary, afterGet_entered, afterGet_iq, hordinary, hmoved, append_assoc,
        ← hmsgs, ← append_assoc]
      exact h.fifo.append (Sublist.refl _)
    case once =>
      change s.added.Perm (_ ++ s.freed ++ _)
      rw [afterGet_returned, afterGet_iq, perm_iff_count]
      intro a
      have hone := h.once.count_eq a
      have hcount := haddresses.count_eq a
      simp only [count_append] at hone hcount ⊢
      omega
    case nodup =>
      have hnodup := h.nodup
      rw [haddresses.nodup_iff] at hnodup
      exact (nodup_append.mp hnodup).2.1
  case timers => exact fun m hm => h.timers m (hgot.mem_timers (.inl hm))
  case msgs => exact fun m hm => hsettled m (.inr hm)
  case ranks =>
    intro m hm
    obtain ⟨m', hm', heq⟩ := mem_map.mp (hfree m hm)
    change (s.track m.address).rank < _
    rw [← heq]
    exact h.ranks m' hm'

theorem Got.waiting_eq (h : Got s.iq clock ret iq' moved taken head)
    (hnodup : s.iq.addresses.Nodup) :
    s.waiting iq' = (head.toList ++ iq'.msglist).map Imsg.address := by
  have hsettle : Imsg.address ∘ Imsg.settle clock = Imsg.address := rfl
  rw [← h.msgs, ImsgRun.waiting, h.moved_eq hnodup, map_append, map_append, map_map, hsettle]

/-- **What a get returns.** -/
theorem ImsgInv.getKept (h : ImsgInv s) (hclock : clock.Valid) (mode : Int) :
    GetKept s mode clock := by
  obtain ⟨moved, taken, head, hgot, hchoice⟩ := msgGet_got mode clock h.sorted
  have hmode := fun hm => (hchoice.untimed hm).1
  have hsettled := fun m hm => h.settled (m := m) hclock hgot hmode hm
  have hwaiting := hgot.waiting_eq h.nodup
  have htaken : ∀ m ∈ taken, (m.elapse clock).imTimer = true := fun m hm => by
    have hflags := (h.timers m (hgot.mem_timers (.inr (.inr hm)))).1
    rw [(hgot.taken_due m hm).1, Bool.or_false] at hflags
    exact hflags
  have hret : ∀ m ∈ (msgGet s.iq mode clock).1,
      (∃ m' ∈ taken, m'.elapse clock = m) ∨ m ∈ head := by
    intro m hm
    rw [hgot.ret_eq] at hm
    cases taken with
    | none => exact .inr hm
    | some m' =>
      cases hm
      exact .inl ⟨m', rfl, rfl⟩
  constructor
  case notEarly =>
    intro m hm htimer
    rcases hret m hm with ⟨m', hm', rfl⟩ | hhead
    · obtain ⟨-, hns, -, hstop⟩ := h.timers m' (hgot.mem_timers (.inr (.inr hm')))
      change nanoseconds (s.track m'.address).stop - window ≤ _
      rw [hstop]
      exact window_of_due hclock hns (hgot.taken_due m' hm').2
    · rw [(hsettled m (.inl hhead)).1.1] at htimer
      cases htimer
  case notSkipped =>
    intro htimed m hm hover
    have hmTimers := h.timers m (hgot.mem_timers (.inl hm))
    cases taken with
    | none =>
      have hdue := due_of_expired hclock hmTimers.2.1 hover
      rw [hchoice.rest htimed rfl m hm] at hdue
      cases hdue
    | some m' =>
      have hm'Timers := h.timers m' (hgot.mem_timers (.inr (.inr rfl)))
      refine ⟨m'.elapse clock, ?_, htaken m' rfl, ?_⟩
      · rw [hgot.ret_eq]
        rfl
      · have hsorted := h.sorted
        rw [hgot.timers, pairwise_append, pairwise_append] at hsorted
        have hordered := hsorted.2.1.2.2 m' mem_cons_self m hm
        exact nanoseconds_le_of_not_before hm'Timers.2.1 hmTimers.2.1 hordered.not_before
  case delayed =>
    intro m hm hdelayed
    rcases hret m hm with ⟨m', hm', rfl⟩ | hhead
    · obtain ⟨-, -, htrack, -⟩ := h.timers m' (hgot.mem_timers (.inr (.inr hm')))
      change (s.track m'.address).delayed = true at hdelayed
      rw [htrack, (hgot.taken_due m' hm').1] at hdelayed
      cases hdelayed
    · obtain ⟨⟨htimer, hflag⟩, hexpired⟩ := hsettled m (.inl hhead)
      exact ⟨htimer, hflag, hexpired hdelayed⟩
  case kind =>
    intro m hm
    rcases hret m hm with ⟨m', hm', rfl⟩ | hhead
    · refine ⟨fun hnot => ?_, fun _ => htaken m' hm'⟩
      rw [(hchoice.untimed hnot).2] at hm'
      cases hm'
    · refine ⟨fun _ => (hsettled m (.inl hhead)).1.1, fun htimer => ?_⟩
      rw [hchoice.timer htimer] at hhead
      cases hhead
  case served =>
    intro htimer hordinary
    have hnone : taken = none := by
      cases taken with
      | none => rfl
      | some m =>
        have hfalse := hordinary (m.elapse clock) (by rw [hgot.ret_eq]; rfl)
        rw [htaken m rfl] at hfalse
        cases hfalse
    rw [hwaiting, hgot.ret_eq, hnone]
    cases head with
    | none =>
      rw [hchoice.empty htimer hnone rfl]
      exact ⟨rfl, rfl⟩
    | some m => exact ⟨rfl, rfl⟩
  case left =>
    intro htimer
    have hnone : head = none := by
      rcases htimer with htimer | ⟨m, hm, htimer⟩
      · exact hchoice.timer htimer
      · rcases hret m hm with ⟨m', hm', -⟩ | hhead
        · rcases hgot.one with hone | hone
          · rw [hone] at hm'
            cases hm'
          · exact hone
        · rw [(hsettled m (.inl hhead)).1.1] at htimer
          cases htimer
    rw [hwaiting, hnone]
    rfl

end Gets

section Runs

variable {e : ImsgEvent} {s' : ImsgRun}

theorem imsgStep_inv (h : ImsgInv s) (hs : imsgStep s e = some s') :
    EventKept s e ∧ ImsgInv s' := by
  unfold imsgStep at hs
  rw [Option.ite_none_right_eq_some] at hs
  obtain ⟨hvalid, hs⟩ := hs
  cases hs
  cases e with
  | add msg => exact ⟨trivial, h.add hvalid.1 hvalid.2⟩
  | addTimer address imClass imType delta imTo clock =>
    exact ⟨trivial, h.add hvalid.1 (after_valid hvalid.2.2 hvalid.2.1)⟩
  | addDelayed msg delta clock =>
    exact ⟨trivial, h.add hvalid.1 (after_valid hvalid.2.2 hvalid.2.1)⟩
  | get mode clock => exact ⟨h.getKept hvalid mode, h.get hvalid mode⟩
  | remove rmv => exact ⟨trivial, h.remove (imsgRemove_removes s.iq rmv)⟩
  | fastRemove rmv => exact ⟨trivial, h.remove (h.fastRemove_removes hvalid)⟩
  | removeToType dest imClass imType =>
    exact ⟨trivial, h.remove (imsgRemoveToType_removes s.iq dest imClass imType)⟩
  | removeTo dest => exact ⟨trivial, h.remove (imsgRemoveToType_removes s.iq dest (-1) (-1))⟩
  | removeAll => exact ⟨trivial, h.remove (imsgRemoveAll_removes s.iq)⟩

theorem imsgInv_initial : ImsgInv {} where
  sorted := List.Pairwise.nil
  counted := ⟨rfl, rfl, rfl⟩
  fifo := Sublist.refl _
  once := Perm.refl _
  nodup := nodup_nil
  timers := nofun
  msgs := nofun
  ranks := nofun

end Runs

end Ong.Rtbase
