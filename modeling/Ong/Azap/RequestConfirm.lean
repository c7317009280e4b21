import Mathlib.Data.List.Nodup
import Ong.Lib.Run
import Ong.Azap.RequestManager

/-!
# The confirms of the AF data requests

A confirm of failure carries the transaction identifier of its AF data request, and fails the last
pending request of this identifier.  The ZDO requests have no AF data request, and keep the
identifier 0 of a new context.

## Main results

* `confirmsOwn_iff`: it does exactly when no confirm of the identifier 0 meets a ZDO request
-/

namespace Ong.Azap

open Run LastMatch List

/-! ## The identifiers -/

/-- The contexts that wait, the contexts that are pending with their type and their identifier, and
the AF data requests that were sent. -/
structure Correlated (postponed : List Nat) (pending : List (Nat × RequestType × UInt8))
    (afRequests : List (Nat × UInt8)) (nextId : Nat) : Prop where
  nodup : (postponed ++ pending.map (·.1)).Nodup
  lt_nextId : ∀ i ∈ postponed ++ pending.map (·.1), i < nextId
  af_lt_nextId : ∀ a ∈ afRequests, a.1 < nextId
  postponed : ∀ i ∈ postponed, ∀ t, (i, t) ∉ afRequests
  pending : ∀ c ∈ pending, ∀ t, (c.1, t) ∈ afRequests ↔ c.2.1.isZcl = true ∧ t = c.2.2

section Correlated

variable {postponed postponed' : List Nat} {pending pending' : List (Nat × RequestType × UInt8)}
  {afRequests : List (Nat × UInt8)} {nextId : Nat}

theorem correlated_nil : Correlated [] [] [] 0 where
  nodup := nodup_nil
  lt_nextId _ hi := absurd hi not_mem_nil
  af_lt_nextId _ ha := absurd ha not_mem_nil
  postponed _ hi := absurd hi not_mem_nil
  pending _ hc := absurd hc not_mem_nil

section

variable (h : Correlated postponed pending afRequests nextId)

include h

theorem Correlated.sublist (hpostponed : postponed'.Sublist postponed)
    (hpending : pending'.Sublist pending) : Correlated postponed' pending' afRequests nextId := by
  have hsub := hpostponed.append (hpending.map (·.1))
  exact ⟨h.nodup.sublist hsub, fun i hi => h.lt_nextId i (hsub.subset hi), h.af_lt_nextId,
    fun i hi => h.postponed i (hpostponed.subset hi), fun c hc => h.pending c (hpending.subset hc)⟩

theorem Correlated.perm (hperm : postponed.Perm postponed') :
    Correlated postponed' pending afRequests nextId := by
  have happend := hperm.append_right (pending.map (·.1))
  exact ⟨happend.nodup_iff.mp h.nodup, fun i hi => h.lt_nextId i (happend.mem_iff.mpr hi),
    h.af_lt_nextId, fun i hi => h.postponed i (hperm.mem_iff.mpr hi), h.pending⟩

theorem Correlated.new : Correlated (nextId :: postponed) pending afRequests (nextId + 1) := by
  refine ⟨?_, ?_, fun a ha => Nat.lt_succ_of_lt (h.af_lt_nextId a ha), ?_, h.pending⟩
  · rw [cons_append, nodup_cons]
    exact ⟨fun hmem => Nat.lt_irrefl nextId (h.lt_nextId nextId hmem), h.nodup⟩
  · intro i hi
    rw [cons_append, mem_cons] at hi
    rcases hi with rfl | hi
    · exact Nat.lt_succ_self i
    · exact Nat.lt_succ_of_lt (h.lt_nextId i hi)
  · intro i hi t
    rcases mem_cons.mp hi with rfl | hi
    · exact fun hmem => Nat.lt_irrefl i (h.af_lt_nextId _ hmem)
    · exact h.postponed i hi t

end

theorem Correlated.send {i : Nat} (type : RequestType) (t : UInt8)
    (h : Correlated (i :: postponed) pending afRequests nextId) :
    Correlated postponed (pending ++ [(i, type, t)])
      (afRequests ++ if type.isZcl then [(i, t)] else []) nextId := by
  have hcons := h.nodup
  rw [cons_append, nodup_cons] at hcons
  obtain ⟨hnew, hnodup⟩ := hcons
  have hi : i < nextId := h.lt_nextId i mem_cons_self
  have hadded : ∀ a ∈ (if type.isZcl then [(i, t)] else [] : List (Nat × UInt8)),
      type.isZcl = true ∧ a = (i, t) := by
    intro a ha
    split at ha
    · next hzcl => exact ⟨hzcl, mem_singleton.mp ha⟩
    · cases ha
  have hperm : (i :: (postponed ++ pending.map (·.1))).Perm
      (postponed ++ (pending ++ [(i, type, t)]).map (·.1)) := by
    rw [map_append, ← append_assoc]
    exact (perm_append_singleton _ _).symm
  refine ⟨?_, ?_, ?_, ?_, ?_⟩
  · exact hperm.nodup_iff.mp (nodup_cons.mpr ⟨hnew, hnodup⟩)
  · intro j hj
    exact h.lt_nextId j (hperm.mem_iff.mpr hj)
  · intro a ha
    rcases mem_append.mp ha with ha | ha
    · exact h.af_lt_nextId a ha
    · rw [(hadded a ha).2]
      exact hi
  · intro j hj t' hmem
    rcases mem_append.mp hmem with hmem | hmem
    · exact h.postponed j (mem_cons_of_mem i hj) t' hmem
    · have hj' : j = i := congrArg Prod.fst (hadded _ hmem).2
      exact hnew (hj' ▸ mem_append_left _ hj)
  · intro c hc t'
    rw [mem_append]
    rcases mem_append.mp hc with hc | hc
    · rw [← h.pending c hc t']
      refine ⟨fun hmem => ?_, .inl⟩
      rcases hmem with hmem | hmem
      · exact hmem
      · have hc' : c.1 = i := congrArg Prod.fst (hadded _ hmem).2
        refine absurd (mem_append_right postponed ?_) hnew
        exact hc' ▸ mem_map_of_mem hc
    · obtain rfl := mem_singleton.mp hc
      constructor
      · rintro (hmem | hmem)
        · exact absurd hmem (h.postponed i mem_cons_self t')
        · obtain ⟨hzcl, heq⟩ := hadded _ hmem
          exact ⟨hzcl, congrArg Prod.snd heq⟩
      · rintro ⟨hzcl, rfl⟩
        right
        rw [if_pos hzcl]
        exact mem_cons_self

end Correlated

/-! ## The confirms of a port -/

def RequestContext.tag (c : RequestContext) : Nat × RequestType × UInt8 :=
  (c.id, c.type, c.transactionId)

namespace Port

/-- A confirm fails a pending ZCL request whose AF data request was sent with its identifier, or
changes nothing. -/
def ConfirmsOwn (s : Port) : PortEvent → Prop
  | .afDataConfirm status transId =>
    s.afDataConfirm status transId = s ∨
      ∃ pre c post, s.pendingRequests = pre ++ c :: post ∧ status ≠ zclStatusSuccess ∧
        s.afDataConfirm status transId =
          { s with pendingRequests := pre ++ post, failed := s.failed ++ [c] } ∧
        c.type.isZcl = true ∧ ∀ t, (c.id, t) ∈ s.afRequests ↔ t = transId
  | _ => True

/-- A confirm of failure of the identifier 0 finds no ZDO request after the last pending ZCL request
of this identifier. -/
def MeetsNoZdo (s : Port) : PortEvent → Prop
  | .afDataConfirm status transId =>
    status ≠ zclStatusSuccess → transId = 0 → ∀ pre c post, s.pendingRequests = pre ++ c :: post →
      c.type.isZcl = false → ∃ d ∈ post, d.type.isZcl = true ∧ d.transactionId = 0
  | _ => True

/-- The identifiers of the contexts are right, and a ZDO request has the identifier 0. -/
structure ConfirmInv (s : Port) : Prop where
  correlated : Correlated (s.postponedRequests.map (·.id)) (s.pendingRequests.map (·.tag))
    s.afRequests s.nextId
  zdo : ∀ c ∈ s.lists, c.type.isZcl = false → c.transactionId = 0

section Confirm

variable {timeout : Int} {s t : Port} {r : Request} {room : Bool} {elt : RequestContext}

theorem afRequests_send_of_true (s : Port) {g : UInt8} {room : Bool}
    (h : (Azap.sendRequest g elt room).res = true) :
    (s.send (Azap.sendRequest g elt room)).afRequests = s.afRequests ++
      if elt.type.isZcl then [(elt.id, (Azap.sendRequest g elt room).elt.transactionId)] else [] := by
  unfold send
  rw [sendRequest_afTransactionId g elt room h, sendRequest_id]
  split
  · rfl
  · rfl

theorem afRequests_send_of_false (s : Port) {g : UInt8} {room : Bool}
    (h : (Azap.sendRequest g elt room).res = false) :
    (s.send (Azap.sendRequest g elt room)).afRequests = s.afRequests := by
  unfold send
  rw [sendRequest_afTransactionId_of_false g elt room h]
  exact append_nil _

theorem tag_sendRequest (g : UInt8) (elt : RequestContext) (room : Bool) :
    (Azap.sendRequest g elt room).elt.tag =
      (elt.id, elt.type, (Azap.sendRequest g elt room).elt.transactionId) := by
  unfold RequestContext.tag
  rw [sendRequest_id, sendRequest_type]

theorem zdo_sendRequest (g : UInt8) (room : Bool)
    (h : elt.type.isZcl = false → elt.transactionId = 0)
    (hzdo : (Azap.sendRequest g elt room).elt.type.isZcl = false) :
    (Azap.sendRequest g elt room).elt.transactionId = 0 := by
  rw [sendRequest_type] at hzdo
  rw [sendRequest_elt_of_zdo g elt room hzdo]
  exact h hzdo

theorem ConfirmInv.freed (h : s.ConfirmInv) (hpostponed : t.postponedRequests = s.postponedRequests)
    (hpending : t.pendingRequests.Sublist s.pendingRequests)
    (haf : t.afRequests = s.afRequests) (hnext : t.nextId = s.nextId) : t.ConfirmInv := by
  constructor
  · rw [hpostponed, haf, hnext]
    exact h.correlated.sublist (Sublist.refl _) (hpending.map _)
  · intro c hc
    refine h.zdo c ?_
    unfold lists at hc ⊢
    rw [hpostponed] at hc
    exact ((Sublist.refl _).append hpending).subset hc

/-- **A request**. -/
theorem ConfirmInv.sendRequest (h : s.ConfirmInv) :
    (s.sendRequest timeout r room).2.ConfirmInv := by
  have hnew := h.correlated.new
  have hzdo : ∀ c ∈ s.lists, c.type.isZcl = false → c.transactionId = 0 := h.zdo
  by_cases hready : s.ready (s.contextOf timeout r) = true
  · by_cases hres : (s.sending timeout r room).res = true
    · have hsend := hnew.send r.type (s.sending timeout r room).elt.transactionId
      have haf := afRequests_send_of_true s.next hres
      by_cases hexpected : r.responseExpected = true
      · rw [sendRequest_pending hready hexpected hres]
        constructor
        · unfold Port.accept addPending
          rw [map_append, map_cons, map_nil]
          refine haf ▸ ?_
          exact (tag_sendRequest s.zclTransactionId (s.contextOf timeout r) room) ▸ hsend
        · intro c hc
          unfold lists Port.accept addPending at hc
          rw [← append_assoc] at hc
          rcases mem_append.mp hc with hc | hc
          · exact hzdo c hc
          · obtain rfl := mem_singleton.mp hc
            exact zdo_sendRequest _ _ fun _ => rfl
      · rw [sendRequest_sentOff hready (eq_false_of_ne_true hexpected) hres]
        constructor
        · refine haf ▸ ?_
          exact hsend.sublist (Sublist.refl _) (sublist_append_left _ _)
        · exact hzdo
    · have hres' := eq_false_of_ne_true hres
      have haf := afRequests_send_of_false s.next hres'
      have hskip : (s.next.send (s.sending timeout r room)).ConfirmInv :=
        ⟨haf ▸ hnew.sublist (sublist_cons_self _ _) (Sublist.refl _), hzdo⟩
      by_cases hexpected : r.responseExpected = true
      · rw [sendRequest_refused hready hexpected hres']
        exact hskip
      · rw [sendRequest_touched hready (eq_false_of_ne_true hexpected) hres']
        unfold freeContext
        split
        · next elt pendingRequests hremove =>
          exact hskip.freed rfl (sublist_of_takeLast hremove) rfl rfl
        · exact hskip.freed rfl (Sublist.refl _) rfl rfl
  · rw [sendRequest_postponed (eq_false_of_ne_true hready)]
    constructor
    · unfold addPostponed
      rw [map_append, map_cons, map_nil]
      exact hnew.perm (perm_append_singleton _ _).symm
    · intro c hc
      rcases mem_append.mp hc with hc | hc
      · rcases mem_append.mp hc with hc | hc
        · exact hzdo c (mem_append_left _ hc)
        · obtain rfl := mem_singleton.mp hc
          exact fun _ => rfl
      · exact hzdo c (mem_append_right _ hc)

/-- **A response**. -/
theorem ConfirmInv.response (h : s.ConfirmInv) (nwkAddrSrc : UInt16) (type : RequestType)
    (clusterId : UInt16) (remoteEndPointId cmdCode : UInt8) :
    (s.response nwkAddrSrc type clusterId remoteEndPointId cmdCode).ConfirmInv := by
  unfold Port.response
  split
  · next context pendingRequests hremove =>
    exact h.freed rfl (sublist_of_takeLast hremove) rfl rfl
  · exact h

/-- **A confirm**. -/
theorem ConfirmInv.afDataConfirm (h : s.ConfirmInv) (status transId : UInt8) :
    (s.afDataConfirm status transId).ConfirmInv := by
  unfold Port.afDataConfirm
  split
  · split
    · next context pendingRequests hremove =>
      exact h.freed rfl (sublist_of_takeLast hremove) rfl rfl
    · exact h
  · exact h

theorem tag_tic (c : RequestContext) (requestSent : Bool) : (c.tic requestSent).tag = c.tag := by
  unfold RequestContext.tic
  split
  · rfl
  · rfl

theorem age1s_sublist (l : List RequestContext) (requestSent : Bool) :
    ((age1sAndLookForTimedOutReq l requestSent).1.map (·.tag)).Sublist (l.map (·.tag)) := by
  have hmap : (l.map (RequestContext.tic · requestSent)).map (·.tag) = l.map (·.tag) := by
    rw [map_map]
    exact map_congr_left fun c _ => tag_tic c requestSent
  unfold age1sAndLookForTimedOutReq
  rw [partition_eq_filter_filter, ← hmap]
  exact filter_sublist.map _

theorem ConfirmInv.age (h : s.ConfirmInv) : s.age.ConfirmInv := by
  have hpostponed := age1s_sublist s.postponedRequests false
  have hpending := age1s_sublist s.pendingRequests true
  have hids := hpostponed.map (·.1)
  rw [map_map, map_map] at hids
  refine ⟨h.correlated.sublist hids hpending, fun c hc => ?_⟩
  have hmem : c.tag ∈ s.lists.map (·.tag) := by
    have hsub := hpostponed.append hpending
    rw [← map_append, ← map_append] at hsub
    exact hsub.subset (mem_map_of_mem hc)
  obtain ⟨d, hd, htag⟩ := mem_map.mp hmem
  have hzdo := h.zdo d hd
  have htype : d.type = c.type := congrArg (fun k => k.2.1) htag
  have htransId : d.transactionId = c.transactionId := congrArg (fun k => k.2.2) htag
  rw [← htype, ← htransId]
  exact hzdo

/-- **A tic**. -/
theorem ConfirmInv.tic (h : s.ConfirmInv) (room : Nat → Bool) : (s.tic room).ConfirmInv := by
  have hage := h.age
  refine lookForPostponedReqToSend_rule (P := ConfirmInv)
    (I := fun rest u =>
      Correlated ((rest ++ u.postponedRequests).map (·.id)) (u.pendingRequests.map (·.tag))
        u.afRequests u.nextId ∧
      ∀ c ∈ rest ++ u.lists, c.type.isZcl = false → c.transactionId = 0) hage ?_ ?_ ?_
  · rw [append_nil]
    exact ⟨hage.correlated, hage.zdo⟩
  · rintro elt rest u ⟨hcorrelated, hzdo⟩
    have helt : elt.type.isZcl = false → elt.transactionId = 0 := hzdo elt mem_cons_self
    have hstay : ((elt :: rest ++ u.postponedRequests).map (·.id)).Perm
        ((rest ++ (u.postponedRequests ++ [elt])).map (·.id)) := by
      rw [← append_assoc]
      exact (perm_append_singleton _ _).symm.map _
    rcases lookForPostponed_cases room u elt with
      ⟨-, heq⟩ | ⟨sent, hsent, -, ⟨hres, heq⟩ | ⟨hres, heq⟩⟩
    · rw [heq]
      refine ⟨hcorrelated.perm hstay, fun c hc => hzdo c ?_⟩
      unfold lists addPostponed at hc
      unfold lists
      grind
    · subst hsent
      rw [heq]
      constructor
      · have hid : (Azap.sendRequest u.zclTransactionId elt (room elt.id)).elt.id = elt.id :=
          sendRequest_id _ _ _
        have hcorrelated' := hcorrelated.perm hstay
        unfold addPostponed
        rw [afRequests_send_of_false u hres]
        rw [map_append, map_append, map_cons, map_nil] at hcorrelated' ⊢
        rw [hid]
        exact hcorrelated'
      · intro c hc
        unfold lists addPostponed send at hc
        unfold lists at hzdo
        simp only [mem_append, mem_cons, cons_append, not_mem_nil,
          or_false] at hc hzdo
        rcases hc with hc | (hc | rfl) | hc
        · exact hzdo c (.inr (.inl hc))
        · exact hzdo c (.inr (.inr (.inl hc)))
        · exact zdo_sendRequest _ _ helt
        · exact hzdo c (.inr (.inr (.inr hc)))
    · subst hsent
      rw [heq]
      constructor
      · have hsend := Correlated.send elt.type
          (Azap.sendRequest u.zclTransactionId elt (room elt.id)).elt.transactionId hcorrelated
        have htags : (u.pendingRequests ++
            [(Azap.sendRequest u.zclTransactionId elt (room elt.id)).elt]).map (·.tag) =
            u.pendingRequests.map (·.tag) ++ [(elt.id, elt.type,
              (Azap.sendRequest u.zclTransactionId elt (room elt.id)).elt.transactionId)] := by
          rw [map_append, map_cons, map_nil, tag_sendRequest]
        unfold addPending
        rw [afRequests_send_of_true u hres]
        exact htags ▸ hsend
      · intro c hc
        unfold lists addPending send at hc
        unfold lists at hzdo
        simp only [mem_append, mem_cons, cons_append, not_mem_nil,
          or_false] at hc hzdo
        rcases hc with hc | hc | hc | rfl
        · exact hzdo c (.inr (.inl hc))
        · exact hzdo c (.inr (.inr (.inl hc)))
        · exact hzdo c (.inr (.inr (.inr hc)))
        · exact zdo_sendRequest _ _ helt
  · rintro u ⟨hcorrelated, hzdo⟩
    exact ⟨hcorrelated, hzdo⟩

theorem confirmInv_initial : ({} : Port).ConfirmInv :=
  ⟨correlated_nil, fun _ hc => absurd hc not_mem_nil⟩

theorem confirmInv_step {e : PortEvent} (h : s.ConfirmInv) (hstep : s.step timeout e = some t) :
    t.ConfirmInv := by
  obtain ⟨-, rfl⟩ := step_eq_some hstep
  rcases e with ⟨r, room⟩ | _ | _ | room
  · exact h.sendRequest
  · exact h.response _ _ _ _ _
  · exact h.afDataConfirm _ _
  · exact h.tic room

/-- **A confirm** fails its own request exactly when it meets no ZDO request. -/
theorem ConfirmInv.step_confirmsOwn (h : s.ConfirmInv) (e : PortEvent) :
    s.ConfirmsOwn e ↔ s.MeetsNoZdo e := by
  rcases e with ⟨r, room⟩ | _ | ⟨status, transId⟩ | room
  · exact Iff.rfl
  · exact Iff.rfl
  · by_cases hstatus : status = zclStatusSuccess
    · exact ⟨fun _ hne => absurd hstatus hne, fun _ => .inl (if_neg fun hne => hne hstatus.symm)⟩
    · have hne : zclStatusSuccess ≠ status := fun heq => hstatus heq.symm
      cases hremove : removePendingAf s.pendingRequests transId with
      | none =>
        refine ⟨fun _ _ hzero pre c post hpending hzdo => ?_, fun _ => .inl ?_⟩
        · have hc : c ∈ s.pendingRequests := by
            rw [hpending]
            exact mem_append_right _ mem_cons_self
          have hfalse := takeLast_eq_none.mp hremove c hc
          rw [h.zdo c (mem_append_right _ hc) hzdo, hzero] at hfalse
          exact absurd hfalse (by decide)
        · unfold Port.afDataConfirm
          rw [if_pos hne, hremove]
      | some p =>
        obtain ⟨c, l⟩ := p
        obtain ⟨pre, post, hpending, rfl, hmatch, hlast⟩ := takeLast_eq_some.mp hremove
        have htransId : transId = c.transactionId := of_decide_eq_true hmatch
        have hc : c ∈ s.pendingRequests := by
          rw [hpending]
          exact mem_append_right _ mem_cons_self
        have hconfirm : s.afDataConfirm status transId =
            { s with pendingRequests := pre ++ post, failed := s.failed ++ [c] } := by
          unfold Port.afDataConfirm
          rw [if_pos hne, hremove]
        constructor
        · rintro hown - hzero pre' c' post' hpending' hzdo
          have hzcl : c.type.isZcl = true := by
            rcases hown with heq | ⟨_, d, _, -, -, heq, hzcl, -⟩
            · have hfailed := congrArg Port.failed (hconfirm.symm.trans heq)
              exact absurd hfailed (by simp)
            · have hfailed := congrArg Port.failed (hconfirm.symm.trans heq)
              have hd : [c] = [d] := append_cancel_left hfailed
              rw [(cons.inj hd).1]
              exact hzcl
          refine ⟨c, ?_, hzcl, htransId ▸ hzero⟩
          -- the ZDO request has the identifier 0, so that it comes before the last match
          have hzero' := h.zdo c' (mem_append_right _ (hpending' ▸
            mem_append_right _ mem_cons_self)) hzdo
          rw [hpending] at hpending'
          rcases append_eq_append_iff.mp hpending' with ⟨m, -, hm⟩ | ⟨m, -, hm⟩
          · rcases m with _ | ⟨d, m⟩
            · obtain ⟨rfl, -⟩ := cons.inj hm
              exact absurd (hzcl.symm.trans hzdo) (by decide)
            · have hfalse := hlast c' (by
                rw [(cons.inj hm).2]
                exact mem_append_right _ mem_cons_self)
              rw [hzero', hzero] at hfalse
              exact absurd hfalse (by decide)
          · rcases m with _ | ⟨d, m⟩
            · obtain ⟨rfl, -⟩ := cons.inj hm
              exact absurd (hzcl.symm.trans hzdo) (by decide)
            · rw [(cons.inj hm).2]
              exact mem_append_right _ mem_cons_self
        · intro hmeets
          have hzcl : c.type.isZcl = true := by
            by_contra hzdo
            have hzero := h.zdo c (mem_append_right _ hc) (eq_false_of_ne_true hzdo)
            obtain ⟨d, hd, -, hd'⟩ := hmeets hstatus (htransId.trans hzero) pre c post hpending
              (eq_false_of_ne_true hzdo)
            have hfalse := hlast d hd
            rw [hd', htransId, hzero] at hfalse
            exact absurd hfalse (by decide)
          refine .inr ⟨pre, c, post, hpending, hstatus, hconfirm, hzcl, fun t => ?_⟩
          have haf := h.correlated.pending c.tag (mem_map_of_mem hc) t
          refine haf.trans ⟨fun hand => hand.2.trans htransId.symm, fun heq => ⟨hzcl, ?_⟩⟩
          exact heq.trans htransId
  · exact Iff.rfl

end Confirm

end Port

/-- **The confirms** fail the requests that their AF data requests were sent for exactly when no
confirm of failure of the identifier 0 finds a ZDO request after the last pending ZCL request of
this identifier. -/
theorem confirmsOwn_iff (timeout : Int) (es : List PortEvent) :
    Along (Port.step timeout) Port.ConfirmsOwn {} es ↔
      Along (Port.step timeout) Port.MeetsNoZdo {} es := by
  constructor
  · refine along_of_invariant (I := Port.ConfirmInv) ?_ Port.confirmInv_initial
    intro s e t h hown hstep
    exact ⟨(h.step_confirmsOwn e).mp hown, Port.confirmInv_step h hstep⟩
  · refine along_of_invariant (I := Port.ConfirmInv) ?_ Port.confirmInv_initial
    intro s e t h hmeets hstep
    exact ⟨(h.step_confirmsOwn e).mpr hmeets, Port.confirmInv_step h hstep⟩

/-- A confirm of failure of the identifier 0 fails a ZDO request. -/
theorem confirmsOwn_broken : ¬ Along (Port.step 20) Port.ConfirmsOwn {}
    [.request ⟨.startAtApi, .zdoNodeDescReq, true, 5, 0, 0, 0, 0, 2⟩ true,
      .afDataConfirm 1 0] := by
  intro h
  rcases ((h _ rfl).2 _ rfl).1 with heq | ⟨pre, c, post, hpending, -, -, hzcl, -⟩
  · exact absurd (congrArg Port.pendingRequests heq) (by decide +kernel)
  · have hc : c ∈ pre ++ c :: post := mem_append_right _ mem_cons_self
    rw [← hpending] at hc
    obtain rfl := mem_singleton.mp hc
    exact absurd hzcl (by decide)

end Ong.Azap
