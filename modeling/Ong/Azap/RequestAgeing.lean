import Mathlib.Data.List.Nodup
import Ong.Lib.Run
import Ong.Azap.RequestManager

/-!
# The ageing of the requests

Each tic takes a second from the life of the pending requests.  A request that waits keeps its whole
life, whatever its mode: `requestContext_t_tic` compares the mode with the time to live.

## Main results

* `aged_of_waitsForSend`: in a run whose tics find no postponed request of the mode
  `AZAP_REQ_TTL_START_AT_API`, all the requests age as their mode says
-/

namespace Ong.Azap

open Run LastMatch List Function

/-! ## The time to live -/

/-- What ages of a context. -/
structure Life where
  id : Nat
  timeToLive : Int
  ttlMode : TtlMode

/-- The requests that wait were accepted since the last tic, or do not age; the pending ones have
lived since their mode says. -/
structure Aging (timeout : Int) (postponed pending : List Life) (nextId clock : Nat)
    (acceptedAt sentAt : Nat → Nat) : Prop where
  nodup : ((postponed ++ pending).map (·.id)).Nodup
  lt_nextId : ∀ c ∈ postponed ++ pending, c.id < nextId
  postponed : ∀ c ∈ postponed, c.timeToLive = timeout ∧
    (c.ttlMode = .startAtApi → acceptedAt c.id = clock)
  pending : ∀ c ∈ pending, 0 < c.timeToLive ∧
    (c.ttlMode = .startAtApi → c.timeToLive = timeout - (clock - acceptedAt c.id)) ∧
    (c.ttlMode = .startAtZbSend → c.timeToLive = timeout - (clock - sentAt c.id))

section Aging

variable {timeout : Int} {postponed postponed' pending pending' : List Life} {nextId clock : Nat}
  {acceptedAt sentAt : Nat → Nat} {c : Life}

theorem aging_nil : Aging timeout [] [] 0 0 acceptedAt sentAt where
  nodup := nodup_nil
  lt_nextId _ hc := absurd hc not_mem_nil
  postponed _ hc := absurd hc not_mem_nil
  pending _ hc := absurd hc not_mem_nil

section

variable (h : Aging timeout postponed pending nextId clock acceptedAt sentAt)

include h

theorem Aging.sublist (hpostponed : postponed'.Sublist postponed)
    (hpending : pending'.Sublist pending) :
    Aging timeout postponed' pending' nextId clock acceptedAt sentAt := by
  have hsub := hpostponed.append hpending
  exact ⟨h.nodup.sublist (hsub.map _), fun c hc => h.lt_nextId c (hsub.subset hc),
    fun c hc => h.postponed c (hpostponed.subset hc), fun c hc => h.pending c (hpending.subset hc)⟩

theorem Aging.perm (hperm : postponed.Perm postponed') :
    Aging timeout postponed' pending nextId clock acceptedAt sentAt := by
  have happend := hperm.append_right pending
  exact ⟨(happend.map _).nodup_iff.mp h.nodup, fun c hc => h.lt_nextId c (happend.mem_iff.mpr hc),
    fun c hc => h.postponed c (hperm.mem_iff.mpr hc), h.pending⟩

theorem Aging.congr {acceptedAt' sentAt' : Nat → Nat}
    (haccepted : ∀ c ∈ postponed ++ pending, acceptedAt' c.id = acceptedAt c.id)
    (hsent : ∀ c ∈ pending, sentAt' c.id = sentAt c.id) :
    Aging timeout postponed pending nextId clock acceptedAt' sentAt' := by
  refine ⟨h.nodup, h.lt_nextId, fun c hc => ?_, fun c hc => ?_⟩
  · rw [haccepted c (mem_append_left _ hc)]
    exact h.postponed c hc
  · rw [haccepted c (mem_append_right _ hc), hsent c hc]
    exact h.pending c hc

theorem Aging.skip (date : Nat) : Aging timeout postponed pending (nextId + 1) clock acceptedAt
      (update sentAt nextId date) := by
  have h' : Aging timeout postponed pending (nextId + 1) clock acceptedAt sentAt :=
    ⟨h.nodup, fun c hc => Nat.lt_succ_of_lt (h.lt_nextId c hc), h.postponed, h.pending⟩
  refine h'.congr (fun _ _ => rfl) fun c hc => ?_
  exact update_of_ne (Nat.ne_of_lt (h.lt_nextId c (mem_append_right _ hc))) _ _

theorem Aging.new (ttlMode : TtlMode) :
    Aging timeout (⟨nextId, timeout, ttlMode⟩ :: postponed) pending (nextId + 1) clock
      (update acceptedAt nextId clock) sentAt := by
  have hne : ∀ c ∈ postponed ++ pending, c.id ≠ nextId :=
    fun c hc => Nat.ne_of_lt (h.lt_nextId c hc)
  have h' : Aging timeout postponed pending nextId clock (update acceptedAt nextId clock)
      sentAt := h.congr (fun c hc => update_of_ne (hne c hc) _ _) fun _ _ => rfl
  refine ⟨?_, ?_, ?_, h'.pending⟩
  · rw [cons_append, map_cons, nodup_cons]
    refine ⟨fun hmem => ?_, h.nodup⟩
    obtain ⟨d, hd, hid⟩ := mem_map.mp hmem
    exact hne d hd hid
  · intro c hc
    rcases mem_cons.mp hc with rfl | hc
    · exact Nat.lt_succ_self nextId
    · exact Nat.lt_succ_of_lt (h.lt_nextId c hc)
  · intro c hc
    rcases mem_cons.mp hc with rfl | hc
    · exact ⟨rfl, fun _ => update_self _ _ _⟩
    · exact h'.postponed c hc

end

theorem Aging.ne_head (h : Aging timeout (c :: postponed) pending nextId clock acceptedAt sentAt)
    {d : Life} (hd : d ∈ postponed ++ pending) : d.id ≠ c.id := by
  have hnodup := h.nodup
  rw [cons_append, map_cons, nodup_cons] at hnodup
  exact fun heq => hnodup.1 (heq ▸ mem_map_of_mem hd)

theorem Aging.tried (h : Aging timeout (c :: postponed) pending nextId clock acceptedAt sentAt)
    (date : Nat) : Aging timeout (c :: postponed) pending nextId clock acceptedAt
      (update sentAt c.id date) := by
  refine h.congr (fun _ _ => rfl) fun d hd => ?_
  exact update_of_ne (h.ne_head (mem_append_right _ hd)) _ _

theorem Aging.send (htimeout : 0 < timeout)
    (h : Aging timeout (c :: postponed) pending nextId clock acceptedAt sentAt) :
    Aging timeout postponed (pending ++ [c]) nextId clock acceptedAt
      (update sentAt c.id clock) := by
  have htry := h.tried clock
  have hperm : (c :: postponed ++ pending).Perm (postponed ++ (pending ++ [c])) := by
    rw [← append_assoc]
    exact (perm_append_singleton _ _).symm
  obtain ⟨htime, hdate⟩ := h.postponed c mem_cons_self
  refine ⟨(hperm.map _).nodup_iff.mp h.nodup, fun d hd => h.lt_nextId d (hperm.mem_iff.mpr hd),
    fun d hd => h.postponed d (mem_cons_of_mem c hd), fun d hd => ?_⟩
  rcases mem_append.mp hd with hd | hd
  · exact htry.pending d hd
  · obtain rfl := mem_singleton.mp hd
    refine ⟨htime ▸ htimeout, fun hmode => ?_, fun _ => ?_⟩
    · rw [hdate hmode, htime]
      omega
    · rw [update_self, htime]
      omega

/-- **A second** passes. -/
theorem Aging.age (h : Aging timeout postponed pending nextId clock acceptedAt sentAt)
    (hmode : ∀ c ∈ postponed, c.ttlMode = .startAtZbSend) :
    Aging timeout postponed
      ((pending.map fun c => { c with timeToLive := c.timeToLive - 1 }).filter (·.timeToLive > 0))
      nextId (clock + 1) acceptedAt sentAt := by
  have hids : ((pending.map fun c => ({ c with timeToLive := c.timeToLive - 1 } : Life)).filter
      (·.timeToLive > 0) |>.map (·.id)).Sublist (pending.map (·.id)) := by
    have hmap : (pending.map fun c => ({ c with timeToLive := c.timeToLive - 1 } : Life)).map (·.id) =
        pending.map (·.id) := by
      rw [map_map]
      rfl
    rw [← hmap]
    exact filter_sublist.map _
  refine ⟨?_, ?_, fun c hc => ⟨(h.postponed c hc).1, fun hapi => ?_⟩, fun c hc => ?_⟩
  · rw [map_append]
    have hnodup := h.nodup
    rw [map_append] at hnodup
    exact hnodup.sublist ((Sublist.refl _).append hids)
  · intro c hc
    rcases mem_append.mp hc with hc | hc
    · exact h.lt_nextId c (mem_append_left _ hc)
    · obtain ⟨d, hd, hid⟩ := mem_map.mp (hids.subset (mem_map_of_mem hc))
      rw [← hid]
      exact h.lt_nextId d (mem_append_right _ hd)
  · rw [hmode c hc] at hapi
    cases hapi
  · obtain ⟨hmem, hpos⟩ := mem_filter.mp hc
    obtain ⟨d, hd, rfl⟩ := mem_map.mp hmem
    obtain ⟨-, hapi, hsend⟩ := h.pending d hd
    refine ⟨of_decide_eq_true hpos, fun hmode => ?_, fun hmode => ?_⟩
    · have htime := hapi hmode
      dsimp only
      omega
    · have htime := hsend hmode
      dsimp only
      omega

end Aging

/-! ## The life of the requests of a port -/

def RequestContext.life (c : RequestContext) : Life := ⟨c.id, c.timeToLive, c.ttlMode⟩

namespace Port

/-- No request has reached its end of life: that of a request of the mode
`AZAP_REQ_TTL_START_AT_API` begins when it is accepted, that of another one when it is sent. -/
structure Aged (timeout : Int) (s : Port) : Prop where
  startAtApi : ∀ c ∈ s.lists, c.ttlMode = .startAtApi → s.clock - s.acceptedAt c.id < timeout
  startAtZbSend : ∀ c ∈ s.pendingRequests, c.ttlMode = .startAtZbSend →
    s.clock - s.sentAt c.id < timeout
  waiting : ∀ c ∈ s.postponedRequests, c.ttlMode = .startAtZbSend → c.timeToLive = timeout

/-- A tic calls back for the requests that it takes out of the lists. -/
def TicCallsBack (s : Port) : PortEvent → Prop
  | .tic room => ∃ timedOut, (s.tic room).failed = s.failed ++ timedOut ∧
      ∀ c ∈ s.lists, c.id ∈ (s.tic room).lists.map (·.id) ∨ c.id ∈ timedOut.map (·.id)
  | _ => True

/-- A tic finds no postponed request of the mode `AZAP_REQ_TTL_START_AT_API`. -/
def WaitsForSend (s : Port) : PortEvent → Prop
  | .tic _ => ∀ c ∈ s.postponedRequests, c.ttlMode = .startAtZbSend
  | _ => True

instance (s : Port) : ∀ e, Decidable (s.WaitsForSend e)
  | .tic _ => inferInstanceAs (Decidable (∀ _ ∈ _, _))
  | .request _ _ => .isTrue trivial
  | .response _ _ _ _ _ => .isTrue trivial
  | .afDataConfirm _ _ => .isTrue trivial

def AgeInv (timeout : Int) (s : Port) : Prop :=
  Aging timeout (s.postponedRequests.map (·.life)) (s.pendingRequests.map (·.life)) s.nextId s.clock
    s.acceptedAt s.sentAt

section Age

variable {timeout : Int} {s t : Port} {r : Request} {room : Bool}

theorem AgeInv.aged (htimeout : 0 < timeout) (h : s.AgeInv timeout) : s.Aged timeout := by
  refine ⟨fun c hc hmode => ?_, fun c hc hmode => ?_, fun c hc _ => ?_⟩
  · rcases mem_append.mp hc with hc | hc
    · have hdate : s.acceptedAt c.id = s.clock :=
        (h.postponed c.life (mem_map_of_mem hc)).2 hmode
      omega
    · obtain ⟨hpos, htime, -⟩ := h.pending c.life (mem_map_of_mem hc)
      have htime' : c.timeToLive = timeout - (s.clock - s.acceptedAt c.id) := htime hmode
      have hpos' : 0 < c.timeToLive := hpos
      omega
  · obtain ⟨hpos, -, htime⟩ := h.pending c.life (mem_map_of_mem hc)
    have htime' : c.timeToLive = timeout - (s.clock - s.sentAt c.id) := htime hmode
    have hpos' : 0 < c.timeToLive := hpos
    omega
  · exact (h.postponed c.life (mem_map_of_mem hc)).1

theorem life_sendRequest (g : UInt8) (elt : RequestContext) (room : Bool) :
    (Azap.sendRequest g elt room).elt.life = elt.life := by
  obtain ⟨t, h⟩ := sendRequest_elt g elt room
  rw [h]
  rfl

theorem AgeInv.freed (h : s.AgeInv timeout) (hpostponed : t.postponedRequests = s.postponedRequests)
    (hpending : t.pendingRequests.Sublist s.pendingRequests) (hnext : t.nextId = s.nextId)
    (hclock : t.clock = s.clock) (haccepted : t.acceptedAt = s.acceptedAt)
    (hsent : t.sentAt = s.sentAt) : t.AgeInv timeout := by
  unfold AgeInv
  rw [hpostponed, hnext, hclock, haccepted, hsent]
  exact Aging.sublist h (Sublist.refl _) (hpending.map _)

/-- **A request**. -/
theorem AgeInv.sendRequest (htimeout : 0 < timeout) (h : s.AgeInv timeout) :
    (s.sendRequest timeout r room).2.AgeInv timeout := by
  have hnew := Aging.new h r.ttlMode
  have hid : (s.sending timeout r room).elt.id = s.nextId := sendRequest_id _ _ _
  have hlife : (s.sending timeout r room).elt.life = (s.contextOf timeout r).life :=
    life_sendRequest _ _ _
  by_cases hready : s.ready (s.contextOf timeout r) = true
  · by_cases hres : (s.sending timeout r room).res = true
    · have hsend := hnew.send htimeout
      by_cases hexpected : r.responseExpected = true
      · rw [sendRequest_pending hready hexpected hres]
        unfold AgeInv Port.accept addPending Port.send next
        rw [map_append, map_cons, map_nil, hid, hlife]
        exact hsend
      · rw [sendRequest_sentOff hready (eq_false_of_ne_true hexpected) hres]
        unfold AgeInv Port.accept Port.send next
        rw [hid]
        exact hsend.sublist (Sublist.refl _) (sublist_append_left _ _)
    · have hres' := eq_false_of_ne_true hres
      have hskip : (s.next.send (s.sending timeout r room)).AgeInv timeout := by
        unfold AgeInv Port.send next
        rw [hid]
        exact Aging.skip h s.clock
      by_cases hexpected : r.responseExpected = true
      · rw [sendRequest_refused hready hexpected hres']
        exact hskip
      · rw [sendRequest_touched hready (eq_false_of_ne_true hexpected) hres']
        unfold freeContext
        split
        · next elt pendingRequests hremove =>
          exact hskip.freed rfl (sublist_of_takeLast hremove) rfl rfl rfl rfl
        · exact hskip.freed rfl (Sublist.refl _) rfl rfl rfl rfl
  · rw [sendRequest_postponed (eq_false_of_ne_true hready)]
    unfold AgeInv addPostponed Port.accept next
    rw [map_append, map_cons, map_nil]
    exact hnew.perm (perm_append_singleton _ _).symm

/-- **A response**. -/
theorem AgeInv.response (h : s.AgeInv timeout) (nwkAddrSrc : UInt16) (type : RequestType)
    (clusterId : UInt16) (remoteEndPointId cmdCode : UInt8) :
    (s.response nwkAddrSrc type clusterId remoteEndPointId cmdCode).AgeInv timeout := by
  unfold Port.response
  split
  · next context pendingRequests hremove =>
    exact h.freed rfl (sublist_of_takeLast hremove) rfl rfl rfl rfl
  · exact h

/-- **A confirm**. -/
theorem AgeInv.afDataConfirm (h : s.AgeInv timeout) (status transId : UInt8) :
    (s.afDataConfirm status transId).AgeInv timeout := by
  unfold Port.afDataConfirm
  split
  · split
    · next context pendingRequests hremove =>
      exact h.freed rfl (sublist_of_takeLast hremove) rfl rfl rfl rfl
    · exact h
  · exact h

section

variable (htimeout : 0 < timeout) (h : s.AgeInv timeout)
  (hmode : ∀ c ∈ s.postponedRequests, c.ttlMode = .startAtZbSend)

include htimeout h hmode

theorem AgeInv.age : s.age.postponedRequests = s.postponedRequests ∧ s.age.AgeInv timeout := by
  have hpostponed : s.age.postponedRequests = s.postponedRequests := by
    have hpos : ∀ c ∈ s.postponedRequests, 0 < c.timeToLive := by
      intro c hc
      have htime : c.timeToLive = timeout := (h.postponed c.life (mem_map_of_mem hc)).1
      rw [htime]
      exact htimeout
    unfold Port.age
    rw [age_postponed hpos]
  refine ⟨hpostponed, ?_⟩
  have hage := Aging.age h fun l hl => by
    obtain ⟨c, hc, rfl⟩ := mem_map.mp hl
    exact hmode c hc
  have hpending : s.age.pendingRequests.map (·.life) = ((s.pendingRequests.map (·.life)).map
      fun c => ({ c with timeToLive := c.timeToLive - 1 } : Life)).filter (·.timeToLive > 0) := by
    rw [age_pending, map_map, filter_map, filter_map, map_map]
    rfl
  unfold AgeInv
  rw [hpostponed, hpending]
  exact hage

/-- **A tic**. -/
theorem AgeInv.tic (room : Nat → Bool) : (s.tic room).AgeInv timeout := by
  obtain ⟨-, hage⟩ := h.age htimeout hmode
  refine lookForPostponedReqToSend_rule (P := AgeInv timeout)
    (I := fun (rest : List RequestContext) (u : Port) =>
      Aging timeout ((rest ++ u.postponedRequests).map RequestContext.life)
        (u.pendingRequests.map RequestContext.life) u.nextId u.clock u.acceptedAt u.sentAt)
    hage ?_ ?_ fun u hu => hu
  · rw [append_nil]
    exact hage
  · intro elt rest u hu
    have hstay : ((elt :: rest ++ u.postponedRequests).map (·.life)).Perm
        ((rest ++ (u.postponedRequests ++ [elt])).map (·.life)) := by
      rw [← append_assoc]
      exact (perm_append_singleton _ _).symm.map _
    rcases lookForPostponed_cases room u elt with
      ⟨-, heq⟩ | ⟨sent, rfl, -, ⟨-, heq⟩ | ⟨-, heq⟩⟩
    · rw [heq]
      exact hu.perm hstay
    · rw [heq]
      have htried := (hu.tried u.clock).perm hstay
      unfold addPostponed Port.send
      rw [sendRequest_id]
      rw [map_append, map_append, map_cons, map_nil] at htried ⊢
      rw [life_sendRequest]
      exact htried
    · rw [heq]
      have hsend := Aging.send htimeout hu
      have hlives : (u.pendingRequests ++
          [(Azap.sendRequest u.zclTransactionId elt (room elt.id)).elt]).map (·.life) =
          u.pendingRequests.map (·.life) ++ [elt.life] := by
        rw [map_append, map_cons, map_nil, life_sendRequest]
      unfold addPending Port.send
      rw [sendRequest_id]
      exact hlives ▸ hsend

end

theorem ticCallsBack (s : Port) (e : PortEvent) : s.TicCallsBack e := by
  rcases e with ⟨r, room⟩ | _ | _ | room
  · trivial
  · trivial
  · trivial
  · refine ⟨s.timedOut, tic_failed s room, fun c hc => ?_⟩
    have hperm := (tic_perm s room).map Prod.fst
    rw [map_map, map_map] at hperm
    have hmem := hperm.mem_iff.mpr (mem_map_of_mem hc)
    rw [map_append] at hmem
    exact mem_append.mp hmem

theorem ageInv_step (htimeout : 0 < timeout) {e : PortEvent} (h : s.AgeInv timeout)
    (hwaits : s.WaitsForSend e) (hstep : s.step timeout e = some t) : t.AgeInv timeout := by
  obtain ⟨-, rfl⟩ := step_eq_some hstep
  rcases e with ⟨r, room⟩ | _ | _ | room
  · exact h.sendRequest htimeout
  · exact h.response _ _ _ _ _
  · exact h.afDataConfirm _ _
  · exact h.tic htimeout hwaits room

end Age

end Port

/-- **The ageing**: in a run whose tics find no postponed request of the mode
`AZAP_REQ_TTL_START_AT_API`, no request reaches its end of life in the lists, and the requests that
a tic takes out are called back. -/
theorem aged_of_waitsForSend (timeout : Int) (htimeout : 0 < timeout) (es : List PortEvent)
    (h : Along (Port.step timeout) Port.WaitsForSend {} es) :
    Visits (Port.step timeout) (Port.Aged timeout) {} es ∧
      Along (Port.step timeout) Port.TicCallsBack {} es := by
  have hinitial : ({} : Port).AgeInv timeout := aging_nil
  constructor
  · exact visits_mono (fun s hs => hs.aged htimeout) (visits_of_along
      (fun s e t hs hwaits hstep => Port.ageInv_step htimeout hs hwaits hstep) hinitial h)
  · exact along_of_invariant (I := fun _ => True)
      (fun s e t _ _ _ => ⟨Port.ticCallsBack s e, trivial⟩) trivial h

/-- A read and a write of the same end point, the write when the read has timed out. -/
theorem aged_read_write :
    Visits (Port.step 20) (Port.Aged 20) {}
        (.request ⟨.startAtApi, .zclReadCmd, true, 5, 3, 6, 0, 1, 2⟩ true ::
          .request ⟨.startAtZbSend, .zclWriteCmd, true, 5, 3, 6, 0, 4, 2⟩ true ::
          replicate 40 (.tic fun _ => true)) ∧
      Along (Port.step 20) Port.TicCallsBack {}
        (.request ⟨.startAtApi, .zclReadCmd, true, 5, 3, 6, 0, 1, 2⟩ true ::
          .request ⟨.startAtZbSend, .zclWriteCmd, true, 5, 3, 6, 0, 4, 2⟩ true ::
          replicate 40 (.tic fun _ => true)) :=
  aged_of_waitsForSend 20 (by decide) _ (by decide +kernel)

/-- A write that waits for a read of the same end point has lived its twenty seconds, and is
sent. -/
theorem aged_broken : ¬ Visits (Port.step 20) (Port.Aged 20) {}
    (.request ⟨.startAtZbSend, .zclReadCmd, true, 5, 3, 6, 0, 1, 2⟩ true ::
      .request ⟨.startAtApi, .zclWriteCmd, true, 5, 3, 6, 0, 4, 2⟩ true ::
      replicate 20 (.tic fun _ => true)) := by
  intro h
  have hlate : (exec (Port.step 20) {}
      (.request ⟨.startAtZbSend, .zclReadCmd, true, 5, 3, 6, 0, 1, 2⟩ true ::
        .request ⟨.startAtApi, .zclWriteCmd, true, 5, 3, 6, 0, 4, 2⟩ true ::
        replicate 20 (.tic fun _ => true))).any (fun t => t.lists.any fun c =>
          c.ttlMode = .startAtApi ∧ ¬ ((t.clock : Int) - t.acceptedAt c.id < 20)) = true := by
    decide +kernel
  obtain ⟨t, ht, hany⟩ := (Option.any_eq_true _ _).mp hlate
  obtain ⟨c, hc, hlate'⟩ := any_eq_true.mp hany
  obtain ⟨hmode, hnot⟩ := of_decide_eq_true hlate'
  exact hnot ((visits_exec h ht).startAtApi c hc hmode)

end Ong.Azap
