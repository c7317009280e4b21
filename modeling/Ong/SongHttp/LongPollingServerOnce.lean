import Mathlib.Data.List.Nodup
import Ong.Lib.Run
import Ong.SongHttp.LongPollingServer

/-!
# Each contact request is answered once

A contact request is at one place, from its reception on: waiting with its timer armed, pending with
its timer armed, or answered.  The places of all the requests are a permutation of the requests,
which a step changes one by one; a step that forgets a request is a deletion with waiting requests,
or a long polling response that cannot be written.

## Main results

* `ServerInv.step`: a step that meets the condition preserves the invariant
* `answersOnce_iff_condition`: the requests are answered once exactly when the condition holds
-/

namespace Ong.SongHttp

open Lib ServerWorld List

/-! ## Places -/

/-- The contact requests of the queue whose timer is armed, in order. -/
def liveRequests (queue : List ContactWaitingLongPollingRequest) : List Nat :=
  queue.filterMap fun e => if e.task = .scheduled then e.request.map (·.id) else none

/-- The pending contact requests whose timer is armed. -/
def armedRequests (pending : List ContactWaitingResponseNotifyRequest) : List Nat :=
  pending.filterMap fun p => if p.task = .scheduled then some p.request.id else none

/-- The contact requests with a final response, once for each. -/
def finalResponses (responses : List (Nat × Int)) : List Nat :=
  (responses.filter fun r => 200 ≤ r.2).map Prod.fst

/-- Where the contact requests are. -/
def places (w : ServerWorld) : List Nat :=
  liveRequests w.server.queue ++ armedRequests w.pendingContactRequests ++
    finalResponses w.responses

/-- The long polling requests, waiting or answered. -/
def longPollings (w : ServerWorld) : List Nat :=
  w.server.longPollingWaitingRequest.toList ++ w.answered.map Prod.fst

/-- Each contact request is waiting, pending or answered, once in all; it was sent at most once, and
in the order of reception; each long polling request is waiting or answered, once. -/
structure AnswersOnce (w : ServerWorld) : Prop where
  contact : ∀ id ∈ w.accepted, (places w).count id = 1
  sentOnce : w.sent.Nodup
  inOrder : w.sent.Sublist w.accepted
  longPolling : ∀ http ∈ w.received, (longPollings w).count http = 1

/-- No contact request waits when the connection is deleted, nor when a long polling response cannot
be written. -/
def ServerCondition (w : ServerWorld) : ServerEvent → Prop
  | .longPollingRequest _ _ write => write = false → liveRequests w.server.queue = []
  | .delete => liveRequests w.server.queue = []
  | _ => True

instance (w : ServerWorld) : ∀ e : ServerEvent, Decidable (ServerCondition w e)
  | .longPollingRequest _ _ _ => inferInstanceAs (Decidable (_ → _))
  | .delete => inferInstanceAs (Decidable (liveRequests w.server.queue = []))
  | .contactRequest _ _ | .unknownLongPollingRequest _ | .responseNotify _ _ | .waitingTimer _
  | .pendingTimer _ | .checkExpired => isTrue trivial

/-- The invariant. -/
structure ServerInv (w : ServerWorld) : Prop where
  places : (places w).Perm w.accepted
  accepted : w.accepted.Nodup
  order : (w.sent ++ liveRequests w.server.queue).Sublist w.accepted
  waiting : w.server.longPollingWaitingRequest ≠ none → liveRequests w.server.queue = []
  longPolling : (longPollings w).Perm w.received
  received : w.received.Nodup
  flush : ∀ e ∈ w.server.queue, e.task = .scheduled → e.request ≠ none
  transactions : (w.pendingContactRequests.map (·.transactionId)).Nodup
  next : ∀ p ∈ w.pendingContactRequests, p.transactionId < w.nextTransactionId

section Lists

variable {queue : List ContactWaitingLongPollingRequest}
  {pending : List ContactWaitingResponseNotifyRequest} {r : ContactRequest}
  {e : ContactWaitingLongPollingRequest}

theorem liveRequests_append (queue' : List ContactWaitingLongPollingRequest) :
    liveRequests (queue ++ queue') = liveRequests queue ++ liveRequests queue' :=
  filterMap_append

theorem liveRequests_cons_of_ne (h : e.task ≠ .scheduled) :
    liveRequests (e :: queue) = liveRequests queue := by
  simp [liveRequests, h]

theorem liveRequests_cons_scheduled :
    liveRequests (⟨some r, .scheduled⟩ :: queue) = r.id :: liveRequests queue := by
  simp [liveRequests]

/-! ## The queue -/

theorem poll_spec (hflush : ∀ e ∈ queue, e.task = .scheduled → e.request ≠ none) :
    (poll queue = (none, []) ∧ liveRequests queue = []) ∨
      ∃ r queue', poll queue = (some ⟨some r, .cancelled⟩, queue') ∧
        liveRequests queue = r.id :: liveRequests queue' ∧ ∀ e ∈ queue', e ∈ queue := by
  induction queue with
  | nil => exact .inl ⟨rfl, rfl⟩
  | cons e queue ih =>
    rw [poll]
    by_cases htask : e.task = .scheduled
    · obtain ⟨request, task⟩ := e
      obtain rfl : task = .scheduled := htask
      obtain ⟨r, rfl⟩ := Option.ne_none_iff_exists'.mp (hflush _ mem_cons_self rfl)
      exact .inr ⟨r, queue, rfl, liveRequests_cons_scheduled,
        fun e he => mem_cons_of_mem _ he⟩
    · rw [if_neg (mt TimerTask.cancel_fst.mp htask), liveRequests_cons_of_ne htask]
      refine (ih fun e he => hflush e (mem_cons_of_mem _ he)).imp id ?_
      rintro ⟨r, queue', hpoll, hlive, hmem⟩
      exact ⟨r, queue', hpoll, hlive, fun e he => mem_cons_of_mem _ (hmem e he)⟩

theorem task_of_mem_pollAll (h : e ∈ pollAll queue) : e.task = .cancelled := by
  induction queue with
  | nil => cases h
  | cons e' queue ih =>
    rw [pollAll] at h
    split at h
    · rcases mem_cons.mp h with rfl | h
      · rfl
      · exact ih h
    · exact ih h

/-- **What was polled is not cancelled again**: the deletion answers nothing. -/
theorem deleteServerLongPolling_eq (w : ServerWorld) (h : w.server.queue ≠ []) :
    w.deleteServerLongPolling = { w with server := { w.server with queue := [] } } := by
  have hcount : ¬ getCount w.server = 0 := by simpa [getCount] using h
  rw [deleteServerLongPolling, if_neg hcount]
  have hpolled : ∀ e ∈ pollAll w.server.queue, e.task = .cancelled :=
    fun e he => task_of_mem_pollAll he
  generalize pollAll w.server.queue = polled at hpolled
  induction polled with
  | nil => rfl
  | cons e polled ih =>
    obtain ⟨htask, hrest⟩ := forall_mem_cons.mp hpolled
    rw [foldl_cons]
    cases hrequest : e.request with
    | none => exact ih hrest
    | some r =>
      dsimp only
      rw [htask, if_neg (by simp)]
      exact ih hrest

theorem liveRequests_executed (hmem : ⟨some r, .scheduled⟩ ∈ queue)
    (hnodup : (liveRequests queue).Nodup) :
    (liveRequests queue).Perm (r.id :: liveRequests (queue.map fun e =>
      if e = ⟨some r, .scheduled⟩ then ⟨some r, .executed⟩ else e)) ∧
    (liveRequests (queue.map fun e =>
      if e = ⟨some r, .scheduled⟩ then ⟨some r, .executed⟩ else e)).Sublist (liveRequests queue) := by
  induction queue with
  | nil => cases hmem
  | cons e queue ih =>
    rw [map_cons]
    by_cases he : e = ⟨some r, .scheduled⟩
    · subst he
      rw [liveRequests_cons_scheduled, nodup_cons] at hnodup
      have hsame : queue.map (fun e => if e = (⟨some r, .scheduled⟩ :
          ContactWaitingLongPollingRequest) then ⟨some r, .executed⟩ else e) = queue := by
        refine (map_congr_left fun e he => if_neg ?_).trans (map_id queue)
        rintro rfl
        exact hnodup.1 (mem_filterMap.mpr ⟨_, he, by simp⟩)
      rw [if_pos rfl, liveRequests_cons_scheduled, hsame, liveRequests_cons_of_ne (by nofun)]
      exact ⟨.refl _, sublist_cons_self _ _⟩
    · rw [if_neg he]
      have hmem : ⟨some r, .scheduled⟩ ∈ queue := (mem_cons.mp hmem).resolve_left (Ne.symm he)
      cases hlive : (if e.task = .scheduled then e.request.map (·.id) else none) with
      | none =>
        simp only [liveRequests, filterMap_cons, hlive] at hnodup ⊢
        exact ih hmem hnodup
      | some id =>
        simp only [liveRequests, filterMap_cons, hlive] at hnodup ⊢
        obtain ⟨hperm, hsub⟩ := ih hmem (nodup_cons.mp hnodup).2
        exact ⟨(hperm.cons id).trans (Perm.swap _ _ _), hsub.cons_cons id⟩

/-! ## The pending contact requests -/

theorem armedRequests_map_cancel (transactionId : Nat) :
    armedRequests (pending.map fun p =>
      if p.transactionId = transactionId then { p with task := p.task.cancel.2 } else p) =
    armedRequests (pending.filter fun p => p.transactionId ≠ transactionId) := by
  induction pending with
  | nil => rfl
  | cons p pending ih =>
    unfold armedRequests at ih ⊢
    rw [map_cons, filterMap_cons, ih]
    by_cases hp : p.transactionId = transactionId
    · rw [if_pos hp, filter_cons_of_neg (by simpa using hp)]
      rfl
    · rw [if_neg hp, filter_cons_of_pos (by simpa using hp), filterMap_cons]

theorem armedRequests_filter (hnodup : (pending.map (·.transactionId)).Nodup)
    {p : ContactWaitingResponseNotifyRequest} (hp : p ∈ pending) :
    (armedRequests pending).Perm ((if p.task = .scheduled then [p.request.id] else []) ++
      armedRequests (pending.filter fun q => q.transactionId ≠ p.transactionId)) := by
  induction pending with
  | nil => cases hp
  | cons q pending ih =>
    rw [map_cons, nodup_cons] at hnodup
    rcases mem_cons.mp hp with rfl | hp
    · have hsame : pending.filter (fun q => decide (q.transactionId ≠ p.transactionId)) = pending := by
        refine filter_eq_self.mpr fun q hq => decide_eq_true fun heq => hnodup.1 ?_
        exact heq ▸ mem_map_of_mem hq
      rw [filter_cons_of_neg (by simp), hsame]
      by_cases htask : p.task = .scheduled <;> simp [armedRequests, htask]
    · have hne : q.transactionId ≠ p.transactionId := fun heq =>
        hnodup.1 (heq ▸ mem_map_of_mem hp)
      rw [filter_cons_of_pos (by simpa using hne)]
      have ih := ih hnodup.2 hp
      by_cases htask : q.task = .scheduled
      · simp only [armedRequests, filterMap_cons, if_pos htask] at ih ⊢
        exact (ih.cons _).trans perm_middle.symm
      · simpa [armedRequests, htask] using ih

end Lists

theorem two_hundred_le_convert (status : Int) (proxy : Bool) :
    200 ≤ convertHttpStatusToSongStatus status proxy := by
  unfold convertHttpStatusToSongStatus
  split
  · decide
  · cases proxy <;> (repeat' split) <;> omega

section Steps

variable {w w' : ServerWorld} {r : ContactRequest} {http : Nat}
  {p : ContactWaitingResponseNotifyRequest} {e : ServerEvent}

theorem ServerInv.answersOnce (h : ServerInv w) : AnswersOnce w := by
  have hsent : w.sent.Sublist w.accepted := (sublist_append_left _ _).trans h.order
  refine ⟨fun id hid => ?_, h.accepted.sublist hsent, hsent, fun http hhttp => ?_⟩
  · rw [h.places.count_eq, count_eq_one_of_mem h.accepted hid]
  · rw [h.longPolling.count_eq, count_eq_one_of_mem h.received hhttp]

theorem ServerInv.nodup_live (h : ServerInv w) : (liveRequests w.server.queue).Nodup :=
  h.accepted.sublist ((sublist_append_right _ _).trans h.order)

@[simp] theorem finalResponses_cons {id : Nat} {status : Int} {responses : List (Nat × Int)}
    (h : 200 ≤ status) : finalResponses ((id, status) :: responses) = id :: finalResponses responses := by
  simp [finalResponses, h]

/-! ## Contact requests -/

theorem sendContactRequest_false (hnext : ∀ p ∈ w.pendingContactRequests,
    p.transactionId < w.nextTransactionId) :
    w.sendContactRequest r http false = { w with
      nextTransactionId := w.nextTransactionId + 1
      sent := w.sent ++ [r.id]
      answered := (http, 200) :: w.answered } := by
  have hsame : w.pendingContactRequests.filter
      (fun p => decide (p.transactionId ≠ w.nextTransactionId)) = w.pendingContactRequests :=
    filter_eq_self.mpr fun p hp => decide_eq_true (Nat.ne_of_lt (hnext p hp))
  simp only [ne_eq, decide_not] at hsame
  simp [sendContactRequest, addPendingContactRequest, removePendingContactRequest, answer, hsame]

theorem ServerInv.contactRequestReceived (h : ServerInv w) (hnew : r.id ∉ w.accepted)
    (write : Bool) : ServerInv (w.contactRequestReceived r write) := by
  have haccepted : (w.accepted ++ [r.id]).Nodup :=
    concat_eq_append ▸ Nodup.concat hnew h.accepted
  unfold ServerWorld.contactRequestReceived
  dsimp only
  split
  · next previous hwaiting =>
    have hlive := h.waiting (by rw [hwaiting]; nofun)
    have hplaces := h.places
    have horder := h.order
    have hpollings := h.longPolling
    simp only [Ong.SongHttp.places, longPollings, hwaiting, hlive, nil_append,
      append_nil, Option.toList_some, singleton_append] at hplaces horder hpollings
    cases write with
    | true =>
      refine ⟨?_, haccepted, ?_, by simp [sendContactRequest, addPendingContactRequest, answer], ?_,
        h.received, h.flush, ?_, ?_⟩
      · simpa [Ong.SongHttp.places, sendContactRequest, addPendingContactRequest, answer, hlive,
          armedRequests] using (hplaces.cons r.id).trans (perm_append_singleton _ _).symm
      · simpa [sendContactRequest, addPendingContactRequest, answer, hlive] using
          horder.append_right [r.id]
      · simpa [longPollings, sendContactRequest, addPendingContactRequest, answer] using hpollings
      · refine nodup_cons.mpr ⟨fun hmem => ?_, h.transactions⟩
        obtain ⟨p, hp, heq⟩ := mem_map.mp hmem
        exact absurd heq (Nat.ne_of_lt (h.next p hp))
      · refine forall_mem_cons.mpr ⟨Nat.lt_succ_self _, fun p hp => ?_⟩
        exact Nat.lt_succ_of_lt (h.next p hp)
    | false =>
      rw [sendContactRequest_false (by exact h.next), if_neg Bool.false_ne_true]
      refine ⟨?_, haccepted, ?_, by simp [respond], ?_, h.received, h.flush, h.transactions,
        fun p hp => Nat.lt_succ_of_lt (h.next p hp)⟩
      · have hperm : (armedRequests w.pendingContactRequests ++
            r.id :: finalResponses w.responses).Perm (w.accepted ++ [r.id]) :=
          perm_middle.trans ((hplaces.cons r.id).trans (perm_append_singleton _ _).symm)
        simpa [Ong.SongHttp.places, respond, hlive] using hperm
      · simpa [respond, hlive] using horder.append_right [r.id]
      · simpa [longPollings, respond] using hpollings
  · next hnone =>
    have hplaces := h.places
    unfold Ong.SongHttp.places at hplaces
    unfold offer
    split
    · next s hoffer =>
      split at hoffer
      swap
      · cases hoffer
      obtain rfl := Option.some.inj hoffer
      have hlive : liveRequests (w.server.queue ++ [⟨some r, .scheduled⟩]) =
          liveRequests w.server.queue ++ [r.id] := by
        rw [liveRequests_append, liveRequests_cons_scheduled]
        rfl
      refine ⟨?_, haccepted, ?_, fun hne => absurd hnone hne, h.longPolling, h.received, ?_,
        h.transactions, h.next⟩
      · change (liveRequests (w.server.queue ++ _) ++ _ ++ _).Perm _
        rw [hlive]
        refine Perm.trans ?_ (hplaces.append_right [r.id])
        simp only [append_assoc]
        rw [← append_assoc (armedRequests _)]
        exact Perm.append_left _ perm_append_comm
      · change (w.sent ++ liveRequests (w.server.queue ++ _)).Sublist _
        rw [hlive, ← append_assoc]
        exact h.order.append_right [r.id]
      · intro e he htask
        rcases mem_append.mp he with he | he
        · exact h.flush e he htask
        · rw [mem_singleton.mp he]
          nofun
    · refine ⟨?_, haccepted, h.order.trans (sublist_append_left _ _), h.waiting, h.longPolling,
        h.received, h.flush, h.transactions, h.next⟩
      have hperm := perm_middle.trans
        ((hplaces.cons r.id).trans (perm_append_singleton _ _).symm)
      simpa [Ong.SongHttp.places, respond] using hperm

/-! ## Long polling requests -/

theorem ServerInv.longPollings_received (h : ServerInv w) (http : Nat) :
    (http :: longPollings w).Perm (w.received ++ [http]) :=
  (h.longPolling.cons http).trans (perm_append_singleton _ _).symm

/-- The answer to the long polling request that waited before. -/
def answeredPrevious (w : ServerWorld) : List (Nat × Nat) :=
  w.server.longPollingWaitingRequest.toList.map (fun previous => (previous, 202)) ++ w.answered

theorem map_answeredPrevious (w : ServerWorld) :
    (answeredPrevious w).map Prod.fst = longPollings w := by
  simp [answeredPrevious, longPollings, Function.comp_def]

theorem longPollingRequestReceived_of_none (hpoll : poll w.server.queue = (none, []))
    (room write : Bool) :
    w.longPollingRequestReceived http room write = { w with
      received := w.received ++ [http]
      server := ⟨[], if room then some http else none,
        room || w.server.index && w.server.longPollingWaitingRequest.isNone⟩
      answered := if room then answeredPrevious w else (http, 503) :: answeredPrevious w } := by
  unfold ServerWorld.longPollingRequestReceived answeredPrevious
  dsimp only
  rw [hpoll]
  cases w.server.longPollingWaitingRequest <;> cases room <;> rfl

theorem longPollingRequestReceived_of_some {queue' : List ContactWaitingLongPollingRequest}
    {task : TimerTask} (hpoll : poll w.server.queue = (some ⟨some r, task⟩, queue'))
    (room write : Bool) :
    w.longPollingRequestReceived http room write = sendContactRequest { w with
      received := w.received ++ [http]
      server := ⟨queue', none, w.server.index && w.server.longPollingWaitingRequest.isNone⟩
      answered := answeredPrevious w } r http write := by
  unfold ServerWorld.longPollingRequestReceived answeredPrevious
  dsimp only
  rw [hpoll]
  cases w.server.longPollingWaitingRequest <;> rfl

theorem ServerInv.longPollingRequestReceived (h : ServerInv w) (hnew : http ∉ w.received)
    (room write : Bool) (hwrite : write = false → liveRequests w.server.queue = []) :
    ServerInv (w.longPollingRequestReceived http room write) := by
  have hreceived : (w.received ++ [http]).Nodup :=
    concat_eq_append ▸ Nodup.concat hnew h.received
  have hpollings := h.longPollings_received http
  have hplaces := h.places
  have horder := h.order
  unfold Ong.SongHttp.places at hplaces
  rcases poll_spec h.flush with ⟨hpoll, hlive⟩ | ⟨r, queue', hpoll, hlive, hsub⟩
  · rw [longPollingRequestReceived_of_none hpoll]
    rw [hlive] at hplaces horder
    refine ⟨hplaces, h.accepted, horder, fun _ => rfl, ?_, hreceived, nofun, h.transactions, h.next⟩
    cases room <;> simpa [longPollings, map_answeredPrevious] using hpollings
  · rw [longPollingRequestReceived_of_some hpoll]
    rw [hlive] at hplaces horder hwrite
    have hwrite : write = true := by
      cases write with
      | true => rfl
      | false => cases hwrite rfl
    subst hwrite
    refine ⟨?_, h.accepted, ?_, fun hne => absurd rfl hne, ?_, hreceived,
      fun e he => h.flush e (hsub e he), ?_, ?_⟩
    · change (liveRequests queue' ++ armedRequests (⟨_, r, .scheduled⟩ :: w.pendingContactRequests) ++
        finalResponses w.responses).Perm w.accepted
      exact (perm_middle.append_right _).trans hplaces
    · change ((w.sent ++ [r.id]) ++ liveRequests queue').Sublist w.accepted
      simpa using horder
    · change (http :: (answeredPrevious w).map Prod.fst).Perm (w.received ++ [http])
      rwa [map_answeredPrevious]
    · refine nodup_cons.mpr ⟨fun hmem => ?_, h.transactions⟩
      obtain ⟨p, hp, heq⟩ := mem_map.mp hmem
      exact absurd heq (Nat.ne_of_lt (h.next p hp))
    · refine forall_mem_cons.mpr ⟨Nat.lt_succ_self _, fun p hp => ?_⟩
      exact Nat.lt_succ_of_lt (h.next p hp)

theorem ServerInv.checkExpired (h : ServerInv w) : ServerInv w.checkExpired := by
  unfold ServerWorld.checkExpired
  split
  · next http hwaiting =>
    have hpollings := h.longPolling
    rw [longPollings, hwaiting] at hpollings
    exact ⟨h.places, h.accepted, h.order, fun hne => absurd rfl hne, hpollings, h.received,
      h.flush, h.transactions, h.next⟩
  · exact h

/-! ## The connection, the responses and the timers -/

theorem ServerInv.deleteServerLongPolling (h : ServerInv w)
    (hlive : liveRequests w.server.queue = []) : ServerInv w.deleteServerLongPolling := by
  have hplaces := h.places
  have horder := h.order
  unfold Ong.SongHttp.places at hplaces
  rw [hlive] at hplaces horder
  by_cases hnil : w.server.queue = []
  · have hoffer : w.deleteServerLongPolling =
        { w with server := { w.server with queue := [⟨none, .virgin⟩] } } := by
      simp [ServerWorld.deleteServerLongPolling, getCount, offer, hnil, queueLength]
    rw [hoffer]
    refine ⟨hplaces, h.accepted, horder, fun _ => rfl, h.longPolling, h.received, ?_,
      h.transactions, h.next⟩
    intro e he htask
    rw [mem_singleton.mp he] at htask
    cases htask
  · rw [deleteServerLongPolling_eq w hnil]
    exact ⟨hplaces, h.accepted, horder, fun _ => rfl, h.longPolling, h.received, nofun,
      h.transactions, h.next⟩

theorem ServerInv.perm_answered (h : ServerInv w) (hp : p ∈ w.pendingContactRequests)
    (htask : p.task = .scheduled) :
    (liveRequests w.server.queue ++ armedRequests (w.pendingContactRequests.filter fun q =>
      q.transactionId ≠ p.transactionId) ++ p.request.id :: finalResponses w.responses).Perm
      w.accepted := by
  have hplaces := h.places
  unfold Ong.SongHttp.places at hplaces
  have harmed := armedRequests_filter h.transactions hp
  rw [if_pos htask] at harmed
  refine Perm.trans ?_ hplaces
  rw [append_assoc, append_assoc]
  exact Perm.append_left _ (perm_middle.trans (harmed.symm.append_right _))

theorem ServerInv.of_pending (h : ServerInv w)
    {pending : List ContactWaitingResponseNotifyRequest} {responses : List (Nat × Int)}
    (hpending : (pending.map (·.transactionId)).Sublist
      (w.pendingContactRequests.map (·.transactionId)))
    (hplaces : (liveRequests w.server.queue ++ armedRequests pending ++
      finalResponses responses).Perm w.accepted) :
    ServerInv { w with pendingContactRequests := pending, responses := responses } := by
  refine ⟨hplaces, h.accepted, h.order, h.waiting, h.longPolling, h.received, h.flush,
    h.transactions.sublist hpending, fun p hp => ?_⟩
  obtain ⟨q, hq, heq⟩ := mem_map.mp (hpending.subset (mem_map_of_mem hp))
  exact heq ▸ h.next q hq

theorem map_cancelPending (transactionId : Nat) :
    (w.cancelPending transactionId).pendingContactRequests.map (·.transactionId) =
      w.pendingContactRequests.map (·.transactionId) := by
  rw [cancelPending, map_map]
  refine map_congr_left fun p _ => ?_
  dsimp only [Function.comp_apply]
  split <;> rfl

theorem ServerInv.handleResponseNotifyRequest (h : ServerInv w) (transactionId : Nat)
    (status : Int) : ServerInv (w.handleResponseNotifyRequest transactionId status).1 := by
  unfold ServerWorld.handleResponseNotifyRequest
  split
  · exact h
  · next p hget =>
    have hp := mem_of_find?_eq_some hget
    obtain rfl : p.transactionId = transactionId := by simpa using find?_some hget
    have hplaces := h.places
    have harmed := armedRequests_filter h.transactions hp
    have hconvert := two_hundred_le_convert status p.request.isProxy
    have hsame : ((w.cancelPending p.transactionId).pendingContactRequests.map
        (·.transactionId)).Sublist (w.pendingContactRequests.map (·.transactionId)) :=
      (map_cancelPending p.transactionId).symm ▸ Sublist.refl _
    by_cases htask : p.task.cancel.1 = true
    · have hanswered := h.perm_answered hp (TimerTask.cancel_fst.mp htask)
      split
      · refine h.of_pending hsame ?_
        rw [cancelPending, armedRequests_map_cancel, finalResponses_cons hconvert]
        exact hanswered
      · refine h.of_pending (filter_sublist.map _) ?_
        rw [finalResponses_cons hconvert]
        exact hanswered
    · rw [if_neg (mt TimerTask.cancel_fst.mpr htask), nil_append] at harmed
      have hkept := ((harmed.symm.append_left _).append_right _).trans hplaces
      split
      · refine h.of_pending hsame ?_
        rw [armedRequests_map_cancel]
        exact hkept
      · exact h.of_pending (filter_sublist.map _) hkept

theorem ServerInv.runPending (h : ServerInv w) (hp : p ∈ w.pendingContactRequests)
    (htask : p.task = .scheduled) : ServerInv (w.runPending p) := by
  refine h.of_pending (filter_sublist.map _) ?_
  exact h.perm_answered hp htask

theorem ServerInv.runWaiting (h : ServerInv w) (hmem : ⟨some r, .scheduled⟩ ∈ w.server.queue) :
    ServerInv (w.runWaiting r) := by
  obtain ⟨hperm, hsub⟩ := liveRequests_executed hmem h.nodup_live
  have hplaces := h.places
  refine ⟨?_, h.accepted, (hsub.append_left _).trans h.order, fun hne => ?_, h.longPolling,
    h.received, ?_, h.transactions, h.next⟩
  · refine Perm.trans ?_ hplaces
    refine perm_middle.trans ?_
    exact ((hperm.append_right _).append_right _).symm
  · exact sublist_nil.mp (h.waiting hne ▸ hsub)
  · intro e he hscheduled
    obtain ⟨e', he', rfl⟩ := mem_map.mp he
    split at hscheduled
    · cases hscheduled
    · next hne =>
      rw [if_neg hne]
      exact h.flush e' he' hscheduled

/-! ## Runs -/

theorem ServerInv.unknown (h : ServerInv w) (hnew : http ∉ w.received) :
    ServerInv (answer { w with received := w.received ++ [http] } http 404) := by
  have hreceived : (w.received ++ [http]).Nodup :=
    concat_eq_append ▸ Nodup.concat hnew h.received
  refine ⟨h.places, h.accepted, h.order, h.waiting, ?_, hreceived, h.flush, h.transactions, h.next⟩
  exact perm_middle.trans (h.longPollings_received http)

/-- **A step that meets the condition** preserves the invariant. -/
theorem ServerInv.step (h : ServerInv w) (hcondition : ServerCondition w e)
    (ht : longPollingServerStep w e = some w') : ServerInv w' := by
  cases e with
  | contactRequest r write =>
    simp only [longPollingServerStep] at ht
    split at ht
    · cases ht
    · next hnew =>
      obtain rfl := Option.some.inj ht
      exact h.contactRequestReceived hnew write
  | longPollingRequest http room write =>
    simp only [longPollingServerStep] at ht
    split at ht
    · cases ht
    · next hnew =>
      obtain rfl := Option.some.inj ht
      exact h.longPollingRequestReceived hnew room write hcondition
  | unknownLongPollingRequest http =>
    simp only [longPollingServerStep] at ht
    split at ht
    · cases ht
    · next hnew =>
      obtain rfl := Option.some.inj ht
      exact h.unknown hnew
  | responseNotify transactionId status =>
    cases status with
    | none =>
      obtain rfl := Option.some.inj ht
      exact h
    | some status =>
      obtain rfl := Option.some.inj ht
      exact h.handleResponseNotifyRequest transactionId status
  | waitingTimer r =>
    simp only [longPollingServerStep] at ht
    split at ht
    · next hmem =>
      obtain rfl := Option.some.inj ht
      exact h.runWaiting hmem
    · cases ht
  | pendingTimer p =>
    simp only [longPollingServerStep] at ht
    split at ht
    · next hp =>
      obtain rfl := Option.some.inj ht
      exact h.runPending hp.1 hp.2
    · cases ht
  | checkExpired =>
    obtain rfl := Option.some.inj ht
    exact h.checkExpired
  | delete =>
    obtain rfl := Option.some.inj ht
    exact h.deleteServerLongPolling hcondition

theorem ServerInv.not_answersOnce (h : ServerInv w) (id : Nat)
    (hid : id ∈ liveRequests w.server.queue) (haccepted : w'.accepted = w.accepted)
    (hforgotten : (id :: Ong.SongHttp.places w').Subperm (Ong.SongHttp.places w)) :
    ¬ AnswersOnce w' := by
  intro honce
  have hmem : id ∈ w.accepted := h.places.subset
    (mem_append_left _ (mem_append_left _ hid))
  have hbefore : (Ong.SongHttp.places w).count id = 1 := by
    rw [h.places.count_eq, count_eq_one_of_mem h.accepted hmem]
  have hafter := honce.contact id (haccepted ▸ hmem)
  have hle := hforgotten.count_le id
  rw [count_cons_self, hafter, hbefore] at hle
  omega

/-- **A step that breaks the condition** forgets a request. -/
theorem ServerInv.condition (h : ServerInv w) (ht : longPollingServerStep w e = some w')
    (honce : AnswersOnce w') : ServerCondition w e := by
  cases e with
  | longPollingRequest http room write =>
    simp only [longPollingServerStep] at ht
    split at ht
    · cases ht
    obtain rfl := Option.some.inj ht
    rintro rfl
    rcases poll_spec h.flush with ⟨-, hlive⟩ | ⟨r, queue', hpoll, hlive, -⟩
    · exact hlive
    · rw [longPollingRequestReceived_of_some hpoll, sendContactRequest_false (by exact h.next)]
        at honce
      refine absurd honce (h.not_answersOnce r.id (hlive ▸ mem_cons_self) rfl ?_)
      have hplaces : Ong.SongHttp.places w = r.id :: (liveRequests queue' ++
          armedRequests w.pendingContactRequests ++ finalResponses w.responses) := by
        rw [Ong.SongHttp.places, hlive]
        rfl
      rw [hplaces]
      exact Subperm.refl _
  | delete =>
    obtain rfl := Option.some.inj ht
    by_contra hlive
    change ¬ liveRequests w.server.queue = [] at hlive
    have hne : w.server.queue ≠ [] := fun hnil => hlive (by rw [hnil]; rfl)
    obtain ⟨id, ids, hids⟩ := exists_cons_of_ne_nil hlive
    rw [deleteServerLongPolling_eq w hne] at honce
    refine absurd honce (h.not_answersOnce id (hids ▸ mem_cons_self) rfl ?_)
    have hplaces : Ong.SongHttp.places w = (id :: ids) ++ (armedRequests w.pendingContactRequests ++
        finalResponses w.responses) := by
      rw [Ong.SongHttp.places, hids, append_assoc]
    rw [hplaces]
    exact ((sublist_append_right ids _).cons_cons id).subperm
  | contactRequest r write => trivial
  | unknownLongPollingRequest http => trivial
  | responseNotify transactionId status => trivial
  | waitingTimer r => trivial
  | pendingTimer p => trivial
  | checkExpired => trivial

theorem serverInv_empty : ServerInv {} :=
  ⟨.refl _, .nil, .refl _, fun h => absurd rfl h, .refl _, .nil, nofun, .nil, nofun⟩

end Steps

/-- **The requests are answered once exactly when** no contact request waits at a deletion or at a
long polling response that cannot be written. -/
theorem answersOnce_iff_condition (es : List ServerEvent) :
    Run.Visits longPollingServerStep AnswersOnce {} es ↔
      Run.Along longPollingServerStep ServerCondition {} es :=
  Run.visits_iff_along (fun _ h => h.answersOnce) (fun _ _ _ h hC ht => h.step hC ht)
    (fun _ _ _ h ht honce => h.condition ht honce) serverInv_empty

/-- A waiting contact request is not answered when its connection is deleted. -/
theorem deleted_not_answered :
    ¬ Run.Visits longPollingServerStep AnswersOnce {} [.contactRequest ⟨7, false⟩ true, .delete] := by
  intro h
  have hlast := Run.visits_exec h rfl
  have hcount := hlast.contact 7 mem_cons_self
  revert hcount
  decide

end Ong.SongHttp
