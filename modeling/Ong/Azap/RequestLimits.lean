import Mathlib.Order.Basic
import Mathlib.Data.List.Nodup
import Ong.Lib.Run
import Ong.Azap.RequestManager

/-!
# The limits of the pending requests, and their completion

## Main results

* `limits_once`: the limits and the completion, in every run where the requests without response
  that are tried at once are sent
-/

namespace Ong.Azap

open Run LastMatch List

/-! ## The limits -/

/-- What a request asks for, and of whom. -/
structure RequestTarget where
  type : RequestType
  nwkAddrDest : UInt16
  clusterId : UInt16
  remoteEndp : UInt8
  expectedCmdCode : UInt8

def RequestContext.target (c : RequestContext) : RequestTarget :=
  ⟨c.type, c.nwkAddrDest, c.clusterId, c.remoteEndp, c.expectedCmdCode⟩

/-- The requests are as few as the coordinator can take, and no two ask for the same. -/
structure Limits (targets : List RequestTarget) : Prop where
  total : targets.length ≤ 10
  perNode : ∀ nwkAddr, targets.countP (·.nwkAddrDest = nwkAddr) ≤ 3
  perEp : ∀ nwkAddr endp, endp ≠ 0 →
    targets.countP (fun t => t.nwkAddrDest = nwkAddr ∧ t.remoteEndp = endp) ≤ 1
  distinct : targets.Nodup

theorem limits_nil : Limits [] where
  total := Nat.zero_le _
  perNode _ := Nat.zero_le _
  perEp _ _ _ := Nat.zero_le _
  distinct := nodup_nil

theorem Limits.sublist {l l' : List RequestTarget} (h : Limits l) (hsub : l'.Sublist l) :
    Limits l' where
  total := Nat.le_trans hsub.length_le h.total
  perNode nwkAddr := Nat.le_trans hsub.countP_le (h.perNode nwkAddr)
  perEp nwkAddr endp hendp := Nat.le_trans hsub.countP_le (h.perEp nwkAddr endp hendp)
  distinct := h.distinct.sublist hsub

/-- **The check before a send** keeps the limits. -/
theorem Limits.concat {l : List RequestContext} {c : RequestContext}
    (h : Limits (l.map (·.target)))
    (hready : readyToSendDoublonCheck l c.nwkAddrDest c.type c.clusterId c.remoteEndp
      c.expectedCmdCode = true) : Limits ((l ++ [c]).map (·.target)) := by
  unfold readyToSendDoublonCheck readyToSend at hready
  simp only [Bool.and_eq_true, Bool.not_eq_true', decide_eq_true_eq, any_eq_false] at hready
  obtain ⟨hdoublon, ⟨htotal, hnode⟩, hep⟩ := hready
  unfold maxTotalReq at htotal
  rw [map_append, map_cons, map_nil]
  refine ⟨?_, fun nwkAddr => ?_, fun nwkAddr endp hendp => ?_, ?_⟩
  · rw [length_append, length_map, length_singleton]
    omega
  · rw [countP_append, countP_singleton]
    split
    · next heq =>
      have hnwk : c.nwkAddrDest = nwkAddr := of_decide_eq_true heq
      rw [countP_map]
      refine Nat.succ_le_of_lt (lt_of_eq_of_lt (countP_congr fun d _ => ?_) hnode)
      simp [RequestContext.target, ← hnwk, eq_comm]
    · exact h.perNode nwkAddr
  · rw [countP_append, countP_singleton]
    split
    · next heq =>
      have heq' : c.nwkAddrDest = nwkAddr ∧ c.remoteEndp = endp := of_decide_eq_true heq
      rw [countP_map]
      refine Nat.succ_le_of_lt (lt_of_eq_of_lt (countP_congr fun d _ => ?_) hep)
      simp [RequestContext.target, ← heq'.1, ← heq'.2, @eq_comm _ d.nwkAddrDest,
        @eq_comm _ d.remoteEndp, heq'.2 ▸ hendp]
    · exact h.perEp nwkAddr endp hendp
  · rw [nodup_append]
    refine ⟨h.distinct, nodup_singleton _, ?_⟩
    intro target hmem target' hmem'
    obtain ⟨d, hd, rfl⟩ := mem_map.mp hmem
    obtain rfl := mem_singleton.mp hmem'
    intro heq
    refine hdoublon d hd ?_
    obtain ⟨h₁, h₂, h₃, h₄, h₅⟩ := RequestTarget.mk.inj heq
    exact ⟨h₁.symm, h₂.symm, h₃.symm, h₄.symm, h₅.symm⟩

/-! ## The completion -/

namespace Port

/-- The issuers that were called back: those of the requests answered, and those of the requests
failed whose type has a callback. -/
def calledBack (s : Port) : List Nat :=
  (s.answered ++ s.failed.filter (·.type.hasFailureCallback)).map (·.id)

/-- A request that was accepted and waits for a response is in exactly one of the two lists and not
called back, or in none and called back once. -/
def Once (s : Port) : Prop :=
  ∀ c ∈ s.accepted, c.responseExpected = true → c.type.hasFailureCallback = true →
    ((s.postponedRequests.map (·.id)).count c.id + (s.pendingRequests.map (·.id)).count c.id = 1 ∧
        s.calledBack.count c.id = 0) ∨
      ((s.postponedRequests.map (·.id)).count c.id + (s.pendingRequests.map (·.id)).count c.id = 0 ∧
        s.calledBack.count c.id = 1)

/-- The requests that were accepted, wherever they are. -/
def everywhere (s : Port) : List RequestContext := s.lists ++ s.failed ++ s.answered ++ s.sentOff

/-- Each request that was accepted is in one place. -/
structure Accounted (s : Port) : Prop where
  limits : Limits (s.pendingRequests.map (·.target))
  perm : (s.everywhere.map (·.key)).Perm (s.accepted.map (·.key))
  nodup : (s.accepted.map (·.id)).Nodup
  lt_nextId : ∀ c ∈ s.accepted, c.id < s.nextId
  sentOff : ∀ c ∈ s.sentOff, c.responseExpected = false

/-- A request without response that is tried at once is sent. -/
def SendsWithoutResponse (timeout : Int) (s : Port) : PortEvent → Prop
  | .request r room => r.responseExpected = false → s.ready (s.contextOf timeout r) = true →
      (s.sending timeout r room).res = true
  | _ => True

instance (timeout : Int) (s : Port) : ∀ e, Decidable (s.SendsWithoutResponse timeout e)
  | .request _ _ => inferInstanceAs (Decidable (_ → _))
  | .response _ _ _ _ _ => .isTrue trivial
  | .afDataConfirm _ _ => .isTrue trivial
  | .tic _ => .isTrue trivial

section Accounted

variable {timeout : Int} {s t : Port} {r : Request} {room : Bool}

theorem Accounted.key_eq (h : s.Accounted) {c d : RequestContext} (hc : c ∈ s.accepted)
    (hd : d ∈ s.everywhere) (hid : d.id = c.id) : d.key = c.key := by
  obtain ⟨d', hd', hkey⟩ := mem_map.mp (h.perm.mem_iff.mp (mem_map_of_mem hd))
  have hid' : d'.id = d.id := congrArg Prod.fst hkey
  have heq : d' = c := inj_on_of_nodup_map h.nodup hd' hc (hid'.trans hid)
  rw [← hkey, heq]

theorem Accounted.once (h : s.Accounted) : s.Once := by
  intro c hc hexpected hcallback
  have hcount : (s.everywhere.map (·.id)).count c.id = 1 := by
    have hperm := h.perm.map Prod.fst
    rw [map_map, map_map] at hperm
    refine (hperm.count_eq c.id).trans ?_
    exact count_eq_one_of_mem h.nodup (mem_map_of_mem hc)
  have hfailed : ((s.failed.filter (·.type.hasFailureCallback)).map (·.id)).count c.id =
      (s.failed.map (·.id)).count c.id := by
    rw [count_eq_countP, count_eq_countP, countP_map, countP_map, countP_filter]
    refine countP_congr fun d hd => ?_
    have hmem : d ∈ s.everywhere :=
      mem_append_left _ (mem_append_left _ (mem_append_right _ hd))
    refine ⟨fun hand => (Bool.and_eq_true_iff.mp hand).1, fun hid => Bool.and_eq_true_iff.mpr ⟨hid, ?_⟩⟩
    have hkey := h.key_eq hc hmem (eq_of_beq hid)
    have htype : d.type = c.type := congrArg (fun k => k.2.1) hkey
    rw [htype]
    exact hcallback
  have hsentOff : (s.sentOff.map (·.id)).count c.id = 0 := by
    refine count_eq_zero_of_not_mem fun hmem => ?_
    obtain ⟨d, hd, hid⟩ := mem_map.mp hmem
    have hkey := h.key_eq hc (mem_append_right _ hd) hid
    have hd' : d.responseExpected = c.responseExpected := congrArg (fun k => k.2.2) hkey
    rw [h.sentOff d hd, hexpected] at hd'
    cases hd'
  unfold calledBack
  unfold everywhere lists at hcount
  simp only [map_append, count_append, hfailed] at hcount ⊢
  omega

theorem Accounted.accept (h : s.Accounted) {c : RequestContext} (hid : c.id = s.nextId)
    (hlimits : Limits (t.pendingRequests.map (·.target)))
    (hperm : (t.everywhere.map (·.key)).Perm (c.key :: s.everywhere.map (·.key)))
    (haccepted : t.accepted = s.accepted ++ [c]) (hnext : t.nextId = s.nextId + 1)
    (hsentOff : ∀ d ∈ t.sentOff, d.responseExpected = false) : t.Accounted := by
  refine ⟨hlimits, ?_, ?_, ?_, hsentOff⟩
  · rw [haccepted, map_append]
    exact hperm.trans ((h.perm.cons _).trans (perm_append_singleton _ _).symm)
  · rw [haccepted, map_append, nodup_append]
    refine ⟨h.nodup, nodup_singleton _, ?_⟩
    intro i hi j hj
    obtain ⟨d, hd, rfl⟩ := mem_map.mp hi
    have hj' : j = c.id := mem_singleton.mp hj
    rw [hj', hid]
    exact Nat.ne_of_lt (h.lt_nextId d hd)
  · intro d hd
    rw [haccepted] at hd
    rw [hnext]
    rcases mem_append.mp hd with hd | hd
    · exact Nat.lt_succ_of_lt (h.lt_nextId d hd)
    · obtain rfl := mem_singleton.mp hd
      omega

theorem Accounted.move (h : s.Accounted) (hlimits : Limits (t.pendingRequests.map (·.target)))
    (hperm : (t.everywhere.map (·.key)).Perm (s.everywhere.map (·.key)))
    (haccepted : t.accepted = s.accepted) (hnext : s.nextId ≤ t.nextId)
    (hsentOff : t.sentOff = s.sentOff) : t.Accounted where
  limits := hlimits
  perm := by
    rw [haccepted]
    exact hperm.trans h.perm
  nodup := by
    rw [haccepted]
    exact h.nodup
  lt_nextId c hc := Nat.lt_of_lt_of_le (h.lt_nextId c (haccepted ▸ hc)) hnext
  sentOff := by
    rw [hsentOff]
    exact h.sentOff

theorem target_sendRequest (g : UInt8) (elt : RequestContext) (room : Bool) :
    (Azap.sendRequest g elt room).elt.target = elt.target := by
  obtain ⟨t, h⟩ := sendRequest_elt g elt room
  rw [h]
  rfl

theorem Limits.sent (h : Limits (s.pendingRequests.map (·.target))) {elt : RequestContext}
    (hready : s.ready elt = true) (room : Bool) :
    Limits ((s.pendingRequests ++
      [(Azap.sendRequest s.zclTransactionId elt room).elt]).map (·.target)) := by
  have hconcat := h.concat hready
  rw [map_append, map_cons, map_nil] at hconcat ⊢
  rw [target_sendRequest]
  exact hconcat

/-- **A request**. -/
theorem Accounted.sendRequest (h : s.Accounted)
    (hsends : s.SendsWithoutResponse timeout (.request r room)) :
    (s.sendRequest timeout r room).2.Accounted := by
  by_cases hready : s.ready (s.contextOf timeout r) = true
  · by_cases hres : (s.sending timeout r room).res = true
    · by_cases hexpected : r.responseExpected = true
      · rw [sendRequest_pending hready hexpected hres]
        refine h.accept (c := (s.sending timeout r room).elt) (sendRequest_id _ _ _)
          (Limits.sent h.limits hready room) ?_ rfl rfl h.sentOff
        rw [perm_iff_count]
        intro a
        unfold everywhere lists Port.accept addPending Port.send next
        simp only [map_append, map_cons, map_nil, count_append,
          count_cons, count_nil]
        omega
      · have hexpected' := eq_false_of_ne_true hexpected
        rw [sendRequest_sentOff hready hexpected' hres]
        refine h.accept (c := (s.sending timeout r room).elt) (sendRequest_id _ _ _) h.limits ?_ rfl
          rfl ?_
        · rw [perm_iff_count]
          intro a
          unfold everywhere lists Port.accept Port.send next
          simp only [map_append, map_cons, map_nil, count_append,
            count_cons, count_nil]
          omega
        · intro d hd
          rcases mem_append.mp hd with hd | hd
          · exact h.sentOff d hd
          · obtain rfl := mem_singleton.mp hd
            exact (sendRequest_responseExpected _ _ _).trans hexpected'
    · by_cases hexpected : r.responseExpected = true
      · rw [sendRequest_refused hready hexpected (eq_false_of_ne_true hres)]
        exact h.move h.limits (Perm.refl _) rfl (Nat.le_succ _) rfl
      · exact absurd (hsends (eq_false_of_ne_true hexpected) hready) hres
  · rw [sendRequest_postponed (eq_false_of_ne_true hready)]
    refine h.accept (c := s.contextOf timeout r) rfl h.limits ?_ rfl rfl h.sentOff
    rw [perm_iff_count]
    intro a
    unfold everywhere lists addPostponed Port.accept next
    simp only [map_append, map_cons, map_nil, count_append, count_cons,
      count_nil]
    omega

theorem Accounted.finish (h : s.Accounted) {p : RequestContext → Bool} {c : RequestContext}
    {l : List RequestContext} (hremove : takeLast p s.pendingRequests = some (c, l))
    (hpostponed : t.postponedRequests = s.postponedRequests) (hpending : t.pendingRequests = l)
    (hdone : (t.failed ++ t.answered).Perm (c :: (s.failed ++ s.answered)))
    (haccepted : t.accepted = s.accepted) (hnext : t.nextId = s.nextId)
    (hsentOff : t.sentOff = s.sentOff) : t.Accounted := by
  refine h.move ?_ ?_ haccepted (Nat.le_of_eq hnext.symm) hsentOff
  · rw [hpending]
    exact h.limits.sublist ((sublist_of_takeLast hremove).map _)
  · have hperm := (perm_of_takeLast hremove).map (·.key)
    have hdone' := hdone.map (·.key)
    rw [perm_iff_count] at hperm hdone' ⊢
    intro a
    have hcount := hperm a
    have hcount' := hdone' a
    unfold everywhere lists
    rw [hpostponed, hpending, hsentOff]
    simp only [map_append, map_cons, count_append, count_cons] at hcount hcount' ⊢
    omega

/-- **A response**. -/
theorem Accounted.response (h : s.Accounted) (nwkAddrSrc : UInt16) (type : RequestType)
    (clusterId : UInt16) (remoteEndPointId cmdCode : UInt8) :
    (s.response nwkAddrSrc type clusterId remoteEndPointId cmdCode).Accounted := by
  unfold Port.response
  split
  · next context pendingRequests hremove =>
    refine h.finish hremove rfl rfl ?_ rfl rfl rfl
    rw [← append_assoc]
    exact perm_append_singleton _ _
  · exact h

/-- **A confirm**. -/
theorem Accounted.afDataConfirm (h : s.Accounted) (status transId : UInt8) :
    (s.afDataConfirm status transId).Accounted := by
  unfold Port.afDataConfirm
  split
  · split
    · next context pendingRequests hremove =>
      refine h.finish hremove rfl rfl ?_ rfl rfl rfl
      rw [append_assoc]
      exact perm_middle
    · exact h
  · exact h

theorem target_tic (c : RequestContext) (requestSent : Bool) :
    (c.tic requestSent).target = c.target := by
  unfold RequestContext.tic
  split
  · rfl
  · rfl

theorem Limits.age (h : Limits (s.pendingRequests.map (·.target))) :
    Limits (s.age.pendingRequests.map (·.target)) := by
  have hmap : (s.pendingRequests.map (RequestContext.tic · true)).map (·.target) =
      s.pendingRequests.map (·.target) := by
    rw [map_map]
    exact map_congr_left fun c _ => target_tic c true
  rw [← hmap] at h
  unfold Port.age age1sAndLookForTimedOutReq
  rw [partition_eq_filter_filter, partition_eq_filter_filter]
  exact h.sublist (filter_sublist.map _)

/-- **A tic**. -/
theorem Accounted.tic (h : s.Accounted) (room : Nat → Bool) : (s.tic room).Accounted := by
  have hframe := lookForPostponedReqToSend_frame s.age room
  refine h.move ?_ ?_ hframe.accepted (Nat.le_of_eq hframe.nextId.symm) hframe.sentOff
  · refine lookForPostponedReqToSend_rule
      (P := fun u => Limits (u.pendingRequests.map (·.target)))
      (I := fun _ u => Limits (u.pendingRequests.map (·.target))) (Limits.age h.limits)
      (Limits.age h.limits) ?_ fun u hu => hu
    intro elt rest u hu
    rcases lookForPostponed_cases room u elt with
      ⟨-, hturn⟩ | ⟨sent, hsent, hready, ⟨-, hturn⟩ | ⟨-, hturn⟩⟩
    · rw [hturn]
      exact hu
    · rw [hturn]
      exact hu
    · rw [hturn, hsent]
      exact Limits.sent hu hready _
  · have hperm := tic_perm s room
    have hfailed := tic_failed s room
    have hanswered : (s.tic room).answered = s.answered := hframe.answered
    have hsentOff : (s.tic room).sentOff = s.sentOff := hframe.sentOff
    rw [perm_iff_count] at hperm ⊢
    intro a
    have hcount := hperm a
    unfold everywhere
    rw [hfailed, hanswered, hsentOff]
    simp only [map_append, count_append] at hcount ⊢
    omega

theorem accounted_initial : ({} : Port).Accounted where
  limits := limits_nil
  perm := Perm.refl _
  nodup := nodup_nil
  lt_nextId _ hc := absurd hc not_mem_nil
  sentOff _ hc := absurd hc not_mem_nil

end Accounted

end Port

/-- **The limits and the completion** of the requests, when the requests without response that are
tried at once are sent. -/
theorem limits_once (timeout : Int) (es : List PortEvent)
    (h : Along (Port.step timeout) (Port.SendsWithoutResponse timeout) {} es) :
    Visits (Port.step timeout)
      (fun s => Limits (s.pendingRequests.map (·.target)) ∧ s.Once) {} es := by
  refine visits_mono (P := Port.Accounted) (fun s hs => ⟨hs.limits, hs.once⟩)
    (visits_of_along ?_ Port.accounted_initial h)
  intro s e t hs hsends hstep
  obtain ⟨-, rfl⟩ := Port.step_eq_some hstep
  rcases e with ⟨r, room⟩ | _ | _ | room
  · exact hs.sendRequest hsends
  · exact hs.response _ _ _ _ _
  · exact hs.afDataConfirm _ _
  · exact hs.tic room

/-- A read of an end point, its response, and a read without response that is sent. -/
theorem limits_once_read : Visits (Port.step 20)
    (fun s => Limits (s.pendingRequests.map (·.target)) ∧ s.Once) {}
    [.request ⟨.startAtApi, .zclReadCmd, true, 5, 3, 6, 0, 1, 2⟩ true,
      .request ⟨.startAtApi, .zclReadCmd, false, 5, 0, 6, 0, 1, 2⟩ true,
      .tic fun _ => true, .response 5 .zclReadCmd 6 3 1] :=
  limits_once 20 _ (by decide +kernel)

/-- The end point 0 of a read that is not sent stands for any one: the pending read of the end point
3 is freed instead, and its issuer is never called back. -/
theorem limits_once_broken : ¬ Visits (Port.step 20)
    (fun s => Limits (s.pendingRequests.map (·.target)) ∧ s.Once) {}
    [.request ⟨.startAtApi, .zclReadCmd, true, 5, 3, 6, 0, 1, 2⟩ true,
      .request ⟨.startAtApi, .zclReadCmd, false, 5, 0, 6, 0, 1, 2⟩ false] := by
  intro h
  have honce := ((h.2 _ rfl).2 _ rfl).2
  have hread := honce
    (newRequestContext 20 0 ⟨.startAtApi, .zclReadCmd, true, 5, 3, 6, 0, 1, 2⟩) (by decide +kernel)
    rfl rfl
  exact absurd hread (by decide +kernel)

end Ong.Azap
