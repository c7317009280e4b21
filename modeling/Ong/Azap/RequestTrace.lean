import Ong.Lib.Run
import Ong.Azap.RequestManager

/-!
# The requests without response

A request without response leaves nothing behind when it is sent at once.  One that had to wait is
put in the list of the pending requests all the same, and one that cannot be sent at once frees its
context before the search for it.

## Main results

* `noTrace_iff`: the requests without response leave no trace exactly when those tried at once are
  sent, and those postponed are not
-/

namespace Ong.Azap

open Run LastMatch List

namespace Port

/-- No request without response is pending or failed, and no freed context was read. -/
structure NoTrace (s : Port) : Prop where
  pending : ∀ c ∈ s.pendingRequests, c.responseExpected = true
  failed : ∀ c ∈ s.failed, c.responseExpected = true
  freedTouched : s.freedTouched = false

/-- A request without response whose send fails changes no list, and reads no freed context. -/
def FailsClean (timeout : Int) (s : Port) : PortEvent → Prop
  | .request r room =>
    r.responseExpected = false → (s.sendRequest timeout r room).1 = false →
      (s.sendRequest timeout r room).2.lists = s.lists ∧
        (s.sendRequest timeout r room).2.freedTouched = s.freedTouched
  | _ => True

/-- No request without response among those that remain is sent at its turn of the loop. -/
def SendsExpected (room : Nat → Bool) : List RequestContext → Port → Prop
  | [], _ => True
  | elt :: rest, s =>
    (s.ready elt = true → (Azap.sendRequest s.zclTransactionId elt (room elt.id)).res = true →
      elt.responseExpected = true) ∧ SendsExpected room rest (lookForPostponed room s elt)

/-- A request without response is sent when it is tried at once, and is not sent once it had to
wait. -/
def SendsAtOnce (timeout : Int) (s : Port) : PortEvent → Prop
  | .request r room =>
    r.responseExpected = false → s.ready (s.contextOf timeout r) = true →
      (s.sending timeout r room).res = true
  | .tic room =>
    readyToSend s.age.pendingRequests 0 0 = true →
      SendsExpected room s.age.postponedRequests { s.age with postponedRequests := [] }
  | _ => True

/-- No trace, and the postponed requests have their whole life ahead. -/
structure TraceInv (timeout : Int) (s : Port) : Prop where
  noTrace : s.NoTrace
  postponed : ∀ c ∈ s.postponedRequests, c.timeToLive = timeout

section Trace

variable {timeout : Int} {s t : Port} {r : Request} {room : Bool} {e : PortEvent}

theorem TraceInv.sendRequest (h : s.TraceInv timeout)
    (hsends : s.SendsAtOnce timeout (.request r room)) :
    (s.sendRequest timeout r room).2.TraceInv timeout := by
  obtain ⟨⟨hpending, hfailed, hfreed⟩, hpostponed⟩ := h
  by_cases hready : s.ready (s.contextOf timeout r) = true
  · by_cases hres : (s.sending timeout r room).res = true
    · by_cases hexpected : r.responseExpected = true
      · rw [sendRequest_pending hready hexpected hres]
        refine ⟨⟨?_, hfailed, hfreed⟩, hpostponed⟩
        intro c hc
        rcases mem_append.mp hc with hc | hc
        · exact hpending c hc
        · obtain rfl := mem_singleton.mp hc
          exact (sendRequest_responseExpected _ _ _).trans hexpected
      · rw [sendRequest_sentOff hready (eq_false_of_ne_true hexpected) hres]
        exact ⟨⟨hpending, hfailed, hfreed⟩, hpostponed⟩
    · by_cases hexpected : r.responseExpected = true
      · rw [sendRequest_refused hready hexpected (eq_false_of_ne_true hres)]
        exact ⟨⟨hpending, hfailed, hfreed⟩, hpostponed⟩
      · exact absurd (hsends (eq_false_of_ne_true hexpected) hready) hres
  · rw [sendRequest_postponed (eq_false_of_ne_true hready)]
    refine ⟨⟨hpending, hfailed, hfreed⟩, ?_⟩
    intro c hc
    rcases mem_append.mp hc with hc | hc
    · exact hpostponed c hc
    · obtain rfl := mem_singleton.mp hc
      rfl

theorem TraceInv.response (h : s.TraceInv timeout) (nwkAddrSrc : UInt16) (type : RequestType)
    (clusterId : UInt16) (remoteEndPointId cmdCode : UInt8) :
    (s.response nwkAddrSrc type clusterId remoteEndPointId cmdCode).TraceInv timeout := by
  unfold Port.response
  split
  · next context pendingRequests hremove =>
    refine ⟨⟨fun c hc => ?_, h.noTrace.failed, h.noTrace.freedTouched⟩, h.postponed⟩
    exact h.noTrace.pending c ((sublist_of_takeLast hremove).subset hc)
  · exact h

theorem TraceInv.afDataConfirm (h : s.TraceInv timeout) (status transId : UInt8) :
    (s.afDataConfirm status transId).TraceInv timeout := by
  unfold Port.afDataConfirm
  split
  · split
    · next context pendingRequests hremove =>
      have hcontext : context ∈ s.pendingRequests :=
        (perm_of_takeLast hremove).mem_iff.mpr mem_cons_self
      refine ⟨⟨fun c hc => ?_, fun c hc => ?_, h.noTrace.freedTouched⟩, h.postponed⟩
      · exact h.noTrace.pending c ((sublist_of_takeLast hremove).subset hc)
      · rcases mem_append.mp hc with hc | hc
        · exact h.noTrace.failed c hc
        · obtain rfl := mem_singleton.mp hc
          exact h.noTrace.pending c hcontext
    · exact h
  · exact h

theorem TraceInv.age (htimeout : 0 < timeout) (h : s.TraceInv timeout) : s.age.TraceInv timeout := by
  have hage : age1sAndLookForTimedOutReq s.postponedRequests false = (s.postponedRequests, []) :=
    age_postponed fun c hc => (h.postponed c hc) ▸ htimeout
  have hmap : ∀ c ∈ s.pendingRequests.map (RequestContext.tic · true), c.responseExpected = true := by
    intro c hc
    obtain ⟨d, hd, rfl⟩ := mem_map.mp hc
    exact h.noTrace.pending d hd
  refine ⟨⟨?_, ?_, h.noTrace.freedTouched⟩, ?_⟩
  · intro c hc
    rw [age_pending] at hc
    exact hmap c (mem_of_mem_filter hc)
  · intro c hc
    unfold Port.age at hc
    dsimp only at hc
    rw [hage, nil_append] at hc
    rcases mem_append.mp hc with hc | hc
    · exact h.noTrace.failed c hc
    · unfold age1sAndLookForTimedOutReq at hc
      rw [partition_eq_filter_filter] at hc
      exact hmap c (mem_of_mem_filter hc)
  · intro c hc
    unfold Port.age at hc
    rw [hage] at hc
    exact h.postponed c hc

theorem TraceInv.tic (htimeout : 0 < timeout) (h : s.TraceInv timeout) {room : Nat → Bool}
    (hsends : s.SendsAtOnce timeout (.tic room)) : (s.tic room).TraceInv timeout := by
  have hage := h.age htimeout
  by_cases hready : readyToSend s.age.pendingRequests 0 0 = true
  · have hsends' := hsends hready
    refine lookForPostponedReqToSend_rule (P := TraceInv timeout)
      (I := fun rest u => u.TraceInv timeout ∧ SendsExpected room rest u ∧
        ∀ c ∈ rest, c.timeToLive = timeout) hage
      ⟨⟨⟨hage.noTrace.pending, hage.noTrace.failed, hage.noTrace.freedTouched⟩,
        fun c hc => absurd hc not_mem_nil⟩, hsends', hage.postponed⟩ ?_
      fun u hu => hu.1
    rintro elt rest u ⟨⟨⟨hpending, hfailed, hfreed⟩, hpostponed⟩, ⟨hturn, hrest⟩, htime⟩
    refine ⟨?_, hrest, fun c hc => htime c (mem_cons_of_mem elt hc)⟩
    have helt : elt.timeToLive = timeout := htime elt mem_cons_self
    rcases lookForPostponed_cases room u elt with
      ⟨-, heq⟩ | ⟨sent, hsent, hready, ⟨-, heq⟩ | ⟨hres, heq⟩⟩
    · rw [heq]
      refine ⟨⟨hpending, hfailed, hfreed⟩, fun c hc => ?_⟩
      rcases mem_append.mp hc with hc | hc
      · exact hpostponed c hc
      · obtain rfl := mem_singleton.mp hc
        exact helt
    · rw [heq]
      refine ⟨⟨hpending, hfailed, hfreed⟩, fun c hc => ?_⟩
      rcases mem_append.mp hc with hc | hc
      · exact hpostponed c hc
      · obtain rfl := mem_singleton.mp hc
        rw [hsent, sendRequest_timeToLive]
        exact helt
    · rw [heq]
      refine ⟨⟨fun c hc => ?_, hfailed, hfreed⟩, hpostponed⟩
      rcases mem_append.mp hc with hc | hc
      · exact hpending c hc
      · obtain rfl := mem_singleton.mp hc
        rw [hsent, sendRequest_responseExpected]
        exact hturn hready (hsent ▸ hres)
  · unfold Port.tic lookForPostponedReqToSend
    rw [if_neg hready]
    exact hage

theorem pending_lookForPostponed {room : Nat → Bool} (l : List RequestContext) (s : Port)
    {c : RequestContext} (hc : c ∈ s.pendingRequests) :
    c ∈ (l.foldl (lookForPostponed room) s).pendingRequests := by
  refine lookForPostponed_rule (I := fun _ u => c ∈ u.pendingRequests) ?_ l s hc
  intro elt rest u hu
  rcases lookForPostponed_cases room u elt with ⟨-, heq⟩ | ⟨sent, -, -, ⟨-, heq⟩ | ⟨-, heq⟩⟩
  · rw [heq]
    exact hu
  · rw [heq]
    exact hu
  · rw [heq]
    exact mem_append_left _ hu

theorem sendsExpected_of_pending {room : Nat → Bool} (l : List RequestContext) (s : Port)
    (h : ∀ c ∈ (l.foldl (lookForPostponed room) s).pendingRequests, c.responseExpected = true) :
    SendsExpected room l s := by
  induction l generalizing s with
  | nil => trivial
  | cons elt rest ih =>
    refine ⟨fun hready hres => ?_, ih _ h⟩
    rcases lookForPostponed_cases room s elt with
      ⟨hready', -⟩ | ⟨sent, hsent, -, ⟨hres', -⟩ | ⟨-, heq⟩⟩
    · exact absurd (hready.symm.trans hready') (by decide)
    · rw [hsent] at hres'
      exact absurd (hres.symm.trans hres') (by decide)
    · have hmem : sent.elt ∈ (lookForPostponed room s elt).pendingRequests := by
        rw [heq]
        exact mem_append_right _ mem_cons_self
      have hexpected := h sent.elt (pending_lookForPostponed rest _ hmem)
      rw [hsent, sendRequest_responseExpected] at hexpected
      exact hexpected

theorem sendsAtOnce_of_noTrace (h : (s.after timeout e).NoTrace) : s.SendsAtOnce timeout e := by
  rcases e with ⟨r, room⟩ | _ | _ | room
  · intro hexpected hready
    by_contra hres
    have hfreed := h.freedTouched
    unfold after at hfreed
    dsimp only at hfreed
    rw [sendRequest_touched hready hexpected (eq_false_of_ne_true hres)] at hfreed
    cases hfreed
  · trivial
  · trivial
  · intro hready
    have hpending := h.pending
    unfold after Port.tic lookForPostponedReqToSend at hpending
    dsimp only at hpending
    rw [if_pos hready] at hpending
    exact sendsExpected_of_pending _ _ hpending

theorem failsClean_of_sendsAtOnce (h : s.SendsAtOnce timeout e) : s.FailsClean timeout e := by
  rcases e with ⟨r, room⟩ | _ | _ | room
  · intro hexpected hfalse
    by_cases hready : s.ready (s.contextOf timeout r) = true
    · rw [sendRequest_sentOff hready hexpected (h hexpected hready)] at hfalse
      cases hfalse
    · rw [sendRequest_postponed (eq_false_of_ne_true hready)] at hfalse
      cases hfalse
  · trivial
  · trivial
  · trivial

theorem traceInv_initial : ({} : Port).TraceInv timeout :=
  ⟨⟨fun _ hc => absurd hc not_mem_nil, fun _ hc => absurd hc not_mem_nil, rfl⟩,
    fun _ hc => absurd hc not_mem_nil⟩

theorem traceInv_step (htimeout : 0 < timeout) (h : s.TraceInv timeout)
    (hsends : s.SendsAtOnce timeout e) (hstep : s.step timeout e = some t) :
    t.TraceInv timeout := by
  obtain ⟨-, rfl⟩ := step_eq_some hstep
  rcases e with ⟨r, room⟩ | _ | _ | room
  · exact h.sendRequest hsends
  · exact h.response _ _ _ _ _
  · exact h.afDataConfirm _ _
  · exact h.tic htimeout hsends

end Trace

end Port

/-- **The requests without response** leave no trace exactly when, in every step, those that are
tried at once are sent and those that had to wait are not. -/
theorem noTrace_iff (timeout : Int) (htimeout : 0 < timeout) (es : List PortEvent) :
    Visits (Port.step timeout) Port.NoTrace {} es ∧
        Along (Port.step timeout) (Port.FailsClean timeout) {} es ↔
      Along (Port.step timeout) (Port.SendsAtOnce timeout) {} es := by
  have hiff : Visits (Port.step timeout) Port.NoTrace {} es ↔
      Along (Port.step timeout) (Port.SendsAtOnce timeout) {} es := by
    refine visits_iff_along (I := Port.TraceInv timeout) (fun s h => h.noTrace)
      (fun s e t h hsends hstep => Port.traceInv_step htimeout h hsends hstep) ?_
      Port.traceInv_initial
    intro s e t _ hstep hnoTrace
    obtain ⟨-, rfl⟩ := Port.step_eq_some hstep
    exact Port.sendsAtOnce_of_noTrace hnoTrace
  refine ⟨fun h => hiff.mp h.1, fun h => ⟨hiff.mpr h, ?_⟩⟩
  exact along_of_invariant (I := fun _ => True)
    (fun s e t _ hsends _ => ⟨Port.failsClean_of_sendsAtOnce hsends, trivial⟩) trivial h

/-- A command without response that is sent at once. -/
theorem noTrace_command :
    Visits (Port.step 20) Port.NoTrace {}
        [.request ⟨.startAtApi, .zclOutgoingCmd, false, 5, 3, 6, 0, 0, 2⟩ true] ∧
      Along (Port.step 20) (Port.FailsClean 20) {}
        [.request ⟨.startAtApi, .zclOutgoingCmd, false, 5, 3, 6, 0, 0, 2⟩ true] :=
  (noTrace_iff 20 (by decide) _).mpr fun _ _ => ⟨fun _ _ => rfl, trivial⟩

/-- A command without response that finds no room in the transmit buffer; and one that waits for the
end of a read of its end point, which is then pending. -/
theorem noTrace_broken :
    ¬ Visits (Port.step 20) Port.NoTrace {}
        [.request ⟨.startAtApi, .zclOutgoingCmd, false, 5, 3, 6, 0, 0, 2⟩ false] ∧
      ¬ Visits (Port.step 20) Port.NoTrace {}
        [.request ⟨.startAtApi, .zclReadCmd, true, 5, 3, 6, 0, 1, 2⟩ true,
          .request ⟨.startAtApi, .zclOutgoingCmd, false, 5, 3, 6, 0, 0, 2⟩ true,
          .response 5 .zclReadCmd 6 3 1, .tic fun _ => true] := by
  constructor
  · intro h
    have hfreed := (h.2 _ rfl).freedTouched
    exact absurd hfreed (by decide +kernel)
  · intro h
    have hpending := ((((h.2 _ rfl).2 _ rfl).2 _ rfl).2 _ rfl).pending
    exact absurd hpending (by decide +kernel)

end Ong.Azap
