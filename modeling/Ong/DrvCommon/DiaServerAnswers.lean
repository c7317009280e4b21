import Ong.Lib.Slots
import Ong.DrvCommon.DiaServer

/-!
# The answers to the incoming requests

Every request is answered once, by the peer it came from, as long as no transaction id is waited for
twice and no answer frees the transaction of a request still waiting.  Two peers with the same
transaction id break both: the later request of the two is not entered in the table, and the answer
to one of them is looked up by the transaction id alone.

## Main results

* `Linked.enter`, `Linked.diaResponse`: what the transport preserves
* `Sound.completion`, `Sound.clock`, `Sound.hnd_request`: what the events preserve
* `answered_of_condition`: the contract over whole runs
-/

namespace Ong.DrvCommon

open Slots Option

namespace DiaServer

variable {Peer : Type} [DecidableEq Peer]

/-- The slot waits for the answer to the request. -/
def holds (q : Incoming Peer) (r : InReq Peer) : Bool :=
  r.waitRsp && r.peer = some q.peer && r.tid = q.tid && r.reqType = q.reqType

/-- The answer is one to the request: to its peer, with its transaction id and of its kind. -/
def answersTo (q : Incoming Peer) (a : DiaAnswer Peer) : Bool :=
  a.dest = q.peer && a.tid = q.tid && a.typeResp = q.reqType

/-- Each request has been answered once, or waits in one slot and has not been answered. -/
def AnsweredOnce (s : DiaServer Peer) : Prop :=
  ∀ q, s.requests.count q = s.answers.countP (answersTo q) + s.tbIncomingReq.countP (holds q)

/-- The timeout answer a slot gets at the time `now`. -/
def timeoutAnswer (now : Int) (r : InReq Peer) : Option (DiaAnswer Peer) :=
  if overdue now r then
    r.peer.map fun p =>
      ⟨p, r.tid, r.reqType, "STATUS_REQUEST_TIMEOUT",
        dia2coap_code "STATUS_REQUEST_TIMEOUT" r.reqType,
        if r.reqType = .create then r.targetID else ""⟩
  else none

/-- The slot after the clock. -/
def afterClock (now : Int) (r : InReq Peer) : InReq Peer :=
  if overdue now r then { r with waitRsp := false } else r

/-- The clock answers each overdue request with the timeout, releases its slot, and leaves the
others alone. -/
def TimesOut (s : DiaServer Peer) (now : Int) : Prop :=
  (s.DiaServerClockSc now).answers = s.answers ++ s.tbIncomingReq.filterMap (timeoutAnswer now) ∧
    (s.DiaServerClockSc now).tbIncomingReq = s.tbIncomingReq.map (afterClock now)

/-- No slot waits for the answer to this transaction of this peer. -/
def Unawaited (s : DiaServer Peer) (p : Peer) (tid : Nat) : Prop :=
  ∀ r ∈ s.tbIncomingReq, waitsFor tid r = true → r.peer ≠ some p

instance (s : DiaServer Peer) (p : Peer) (tid : Nat) : Decidable (s.Unawaited p tid) :=
  inferInstanceAs (Decidable (∀ _ ∈ _, _))

/-- There is room for one more request, and none waits under its transaction id. -/
def Acceptable (s : DiaServer Peer) (tid : Nat) : Prop :=
  (∃ r ∈ s.tbIncomingReq, r.waitRsp = false) ∧ ∀ r ∈ s.tbIncomingReq, waitsFor tid r = false

instance (s : DiaServer Peer) (tid : Nat) : Decidable (s.Acceptable tid) :=
  inferInstanceAs (Decidable (_ ∧ _))

/-- What a handler may do: complete the request, when the transaction id leads to a transaction
nobody waits for or the response stays for its blocks; return a code at once, when the peer does not
wait for the same transaction already; or promise a completion of an acceptable request. -/
def HandlerCondition (s : DiaServer Peer) (p : Peer) (tid : Nat) : DiaHandler → Prop
  | .completes _ withBlocks _ =>
    withBlocks = true ∨ s.Unawaited ((s.tidtbl tid).getD p) tid
  | .returns ret => if 0 < ret then s.Acceptable tid else s.Unawaited p tid

instance (s : DiaServer Peer) (p : Peer) (tid : Nat) (handler : DiaHandler) :
    Decidable (s.HandlerCondition p tid handler) :=
  match handler with
  | .completes _ _ _ => inferInstanceAs (Decidable (_ ∨ _))
  | .returns ret =>
    inferInstanceAs (Decidable (if 0 < ret then s.Acceptable tid else s.Unawaited p tid))

/-- **The events on which the answers are right.** -/
def AnswerCondition (s : DiaServer Peer) : DiaServerEvent Peer → Prop
  | .request _ p tid reqType _ handler =>
    if reqType = .delete then s.Unawaited p tid else s.HandlerCondition p tid handler
  | .block p tid last => last = true → s.Unawaited p tid
  | _ => True

instance (s : DiaServer Peer) (e : DiaServerEvent Peer) : Decidable (s.AnswerCondition e) :=
  match e with
  | .request _ p tid reqType _ handler =>
    inferInstanceAs (Decidable
      (if reqType = .delete then s.Unawaited p tid else s.HandlerCondition p tid handler))
  | .block _ _ _ => inferInstanceAs (Decidable (_ → _))
  | .fragment _ _ | .completion _ _ _ | .clock _ => isTrue trivial

/-- How the tables belong together: a waiting slot and an entry of `tidtbl` have their transaction,
no transaction id is waited for twice, and the current request has no peer. -/
structure Linked (s : DiaServer Peer) : Prop where
  size : s.tbIncomingReq.length = maxRequestDia
  boxed : ∀ (i : Nat) (r : InReq Peer), s.tbIncomingReq[i]? = some r → r.waitRsp = true →
    ∃ p, r.peer = some p ∧ s.reqList p r.tid ≠ none
  tids : ∀ t p, s.tidtbl t = some p → s.reqList p t ≠ none
  distinct : ∀ (i j : Nat) (r r' : InReq Peer), s.tbIncomingReq[i]? = some r →
    s.tbIncomingReq[j]? = some r' → r.waitRsp = true → r'.waitRsp = true → r.tid = r'.tid → i = j
  anonymous : s.currentIncomingRequest.peer = none

/-- What holds between two events. -/
structure Sound (s : DiaServer Peer) : Prop extends Linked s where
  answered : s.AnsweredOnce
  quiet : s.piggy = none
  asynchronous : s.synchroIncomingRequest = false

variable {s t : DiaServer Peer} {p : Peer} {tid : Nat}

omit [DecidableEq Peer] in
theorem waitsFor_iff {r : InReq Peer} :
    waitsFor tid r = true ↔ r.waitRsp = true ∧ r.tid = tid := by
  simp [waitsFor]

theorem answersTo_eq (q q' : Incoming Peer) (scode uri : String) (code : Nat) :
    answersTo q' ⟨q.peer, q.tid, q.reqType, scode, code, uri⟩ = decide (q = q') := by
  rcases q with ⟨p, t, ty⟩
  rcases q' with ⟨p', t', ty'⟩
  rw [Bool.eq_iff_iff]
  simp [answersTo, and_assoc]

theorem holds_eq (q q' : Incoming Peer) (now : Int) (targetID : String) :
    holds q' ⟨true, now, q.tid, some q.peer, targetID, q.reqType⟩ = decide (q = q') := by
  rcases q with ⟨p, t, ty⟩
  rcases q' with ⟨p', t', ty'⟩
  rw [Bool.eq_iff_iff]
  simp [holds, and_assoc]

omit [DecidableEq Peer] in
theorem Linked.congr (h : s.Linked) (htb : t.tbIncomingReq = s.tbIncomingReq)
    (hreq : t.reqList = s.reqList) (htid : t.tidtbl = s.tidtbl)
    (hcur : t.currentIncomingRequest.peer = s.currentIncomingRequest.peer) : t.Linked where
  size := by rw [htb, h.size]
  boxed := by
    rw [htb, hreq]
    exact h.boxed
  tids := by
    rw [hreq, htid]
    exact h.tids
  distinct := by
    rw [htb]
    exact h.distinct
  anonymous := by rw [hcur, h.anonymous]

theorem Linked.setDr (h : s.Linked) (p : Peer) (tid : Nat) (b : Bool) :
    (s.setDr p tid (some b)).Linked := by
  have hmono : ∀ q t, s.reqList q t ≠ none → (s.setDr p tid (some b)).reqList q t ≠ none := by
    intro q t hq
    simp only [DiaServer.setDr]
    split
    · exact some_ne_none _
    · exact hq
  refine ⟨h.size, fun i r hr hw => ?_, fun t q hq => hmono q t (h.tids t q hq), h.distinct,
    h.anonymous⟩
  obtain ⟨q, hpeer, hdr⟩ := h.boxed i r hr hw
  exact ⟨q, hpeer, hmono q _ hdr⟩

theorem Linked.free (h : s.Linked) (hun : s.Unawaited p tid) :
    ((s.setDr p tid none).setTid tid none).Linked := by
  have hreq : ∀ q t, ¬ (q = p ∧ t = tid) →
      ((s.setDr p tid none).setTid tid none).reqList q t = s.reqList q t := by
    intro q t hne
    simp only [DiaServer.setDr, setTid, if_neg hne]
  refine ⟨h.size, fun i r hr hw => ?_, fun t q hq => ?_, h.distinct, h.anonymous⟩
  · obtain ⟨q, hpeer, hdr⟩ := h.boxed i r hr hw
    refine ⟨q, hpeer, ?_⟩
    rw [hreq q r.tid]
    · exact hdr
    · rintro ⟨rfl, htid⟩
      exact hun r (mem_of_getElem? hr) (waitsFor_iff.mpr ⟨hw, htid⟩) hpeer
  · simp only [DiaServer.setDr, setTid] at hq
    split at hq
    · cases hq
    · rename_i hne
      rw [hreq q t (fun hqt => hne hqt.2)]
      exact h.tids t q hq

/-- The prologue of a request. -/
theorem Linked.enter (h : s.Linked) (p : Peer) (tid : Nat) : (s.enter p tid).Linked := by
  have hdr := h.setDr p tid ((s.reqList p tid).getD false)
  unfold DiaServer.enter
  by_cases hnone : s.tidtbl tid = none
  · rw [if_pos hnone]
    refine ⟨hdr.size, hdr.boxed, fun t q hq => ?_, hdr.distinct, hdr.anonymous⟩
    simp only [DiaServer.setDr, setTid] at hq ⊢
    split at hq
    · rename_i ht
      cases hq
      rw [if_pos ⟨rfl, ht⟩]
      exact some_ne_none _
    · exact hdr.tids t q hq
  · rw [if_neg hnone]
    exact hdr

theorem enter_tidtbl : (s.enter p tid).tidtbl tid = some ((s.tidtbl tid).getD p) := by
  unfold DiaServer.enter
  split
  · rename_i hnone
    simp [DiaServer.setDr, setTid, hnone]
  · rename_i hsome
    obtain ⟨q, hq⟩ := ne_none_iff_exists'.mp hsome
    simp [DiaServer.setDr, hq]

theorem enter_reqList : (s.enter p tid).reqList p tid ≠ none := by
  simp [DiaServer.enter, DiaServer.setDr]

theorem enter_frame (s : DiaServer Peer) (p : Peer) (tid : Nat) :
    ∃ dr tids, s.enter p tid = { s with reqList := dr, tidtbl := tids } := by
  unfold DiaServer.enter
  split <;> exact ⟨_, _, rfl⟩

section Response

variable {ty : DiaReqType} {scode uri : String} {w : Bool} {peer : Option Peer} {q : Peer}

/-- **A response that finds its transaction.** -/
theorem diaResponse_of_box (hbox : s.responseBox tid peer = some q) (hdr : s.reqList q tid ≠ none) :
    s.diaResponse ty scode uri w tid peer =
      let answer : DiaAnswer Peer := ⟨s.piggy.getD q, tid, ty, scode, dia2coap_code scode ty, uri⟩
      let t := { s with answers := s.answers ++ [answer] }
      if w then t.setDr q tid (some true) else (t.setDr q tid none).setTid tid none := by
  obtain ⟨b, hb⟩ := ne_none_iff_exists'.mp hdr
  simp only [diaResponse, hbox, hb]

/-- A response that keeps its transaction, or frees one for which no slot waits, goes out and
leaves the tables linked. -/
theorem Linked.diaResponse (h : s.Linked) (hbox : s.responseBox tid peer = some q)
    (hdr : s.reqList q tid ≠ none) (hw : w = true ∨ s.Unawaited q tid) (ty : DiaReqType)
    (scode uri : String) :
    ∃ dr tids, s.diaResponse ty scode uri w tid peer =
        { s with
          answers := s.answers ++
            [⟨s.piggy.getD q, tid, ty, scode, dia2coap_code scode ty, uri⟩]
          reqList := dr
          tidtbl := tids } ∧
      (s.diaResponse ty scode uri w tid peer).Linked := by
  rw [diaResponse_of_box hbox hdr]
  have ht : ∀ ans, ({ s with answers := ans } : DiaServer Peer).Linked :=
    fun ans => h.congr rfl rfl rfl rfl
  cases w with
  | true => exact ⟨_, _, rfl, (ht _).setDr q tid true⟩
  | false => exact ⟨_, _, rfl, (ht _).free (hw.resolve_left Bool.false_ne_true)⟩

theorem respond_eq (context : InReq Peer) :
    s.respond context scode w =
      s.diaResponse context.reqType scode (if context.reqType = .create then context.targetID else "")
        (w && context.reqType ≠ .delete) context.tid context.peer := by
  unfold respond
  cases context.reqType <;> simp

end Response

section Slots

variable {i : Nat} {r : InReq Peer} {scode : String} {w : Bool}

/-- The slot `i` released. -/
def release (s : DiaServer Peer) (i : Nat) (r : InReq Peer) : DiaServer Peer :=
  { s with tbIncomingReq := s.tbIncomingReq.set i { r with waitRsp := false } }

/-- **The completion of a waiting slot** finds that slot. -/
theorem Linked.completion_eq (h : s.Linked) (hr : s.tbIncomingReq[i]? = some r)
    (hwait : r.waitRsp = true) :
    s.diaIncomingRequestCompletion (some r.tid) scode w =
      (s.release i r).respond { r with waitRsp := false } scode w := by
  have hfind : s.tbIncomingReq.findIdx? (waitsFor r.tid) = some i := by
    cases hj : s.tbIncomingReq.findIdx? (waitsFor r.tid) with
    | none =>
      have := findIdx?_eq_none hj hr
      rw [waitsFor_iff.mpr ⟨hwait, rfl⟩] at this
      cases this
    | some j =>
      obtain ⟨r', hr', hp⟩ := findIdx?_eq_some hj
      obtain ⟨hwait', htid⟩ := waitsFor_iff.mp hp
      rw [h.distinct j i r' r hr' hr hwait' hwait htid]
  simp only [diaIncomingRequestCompletion, DiaIncomingFindRequest, hfind, hr, map_some,
    release]

theorem completion_of_none (hno : ∀ r ∈ s.tbIncomingReq, waitsFor tid r = false) :
    s.diaIncomingRequestCompletion (some tid) scode w = s := by
  have hfind : s.tbIncomingReq.findIdx? (waitsFor tid) = none :=
    List.findIdx?_eq_none_iff.mpr hno
  simp only [diaIncomingRequestCompletion, DiaIncomingFindRequest, hfind]

omit [DecidableEq Peer] in
theorem release_at (hr : s.tbIncomingReq[i]? = some r) {j : Nat} {r' : InReq Peer} :
    (s.release i r).tbIncomingReq[j]? = some r' ↔
      (i = j ∧ { r with waitRsp := false } = r') ∨ (i ≠ j ∧ s.tbIncomingReq[j]? = some r') :=
  getElem?_set_iff hr

omit [DecidableEq Peer] in
theorem waits_of_release (hr : s.tbIncomingReq[i]? = some r) {j : Nat} {r' : InReq Peer}
    (hr' : (s.release i r).tbIncomingReq[j]? = some r') (hwait : r'.waitRsp = true) :
    i ≠ j ∧ s.tbIncomingReq[j]? = some r' := by
  rcases (release_at hr).mp hr' with ⟨-, rfl⟩ | hother
  · cases hwait
  · exact hother

omit [DecidableEq Peer] in
theorem Linked.release (h : s.Linked) (hr : s.tbIncomingReq[i]? = some r) :
    (s.release i r).Linked where
  size := by
    simp only [DiaServer.release, List.length_set]
    exact h.size
  boxed := fun j r' hr' hwait => h.boxed j r' (waits_of_release hr hr' hwait).2 hwait
  tids := h.tids
  distinct := fun j k r' r'' hr' hr'' hw' hw'' htid =>
    h.distinct j k r' r'' (waits_of_release hr hr' hw').2 (waits_of_release hr hr'' hw'').2 hw' hw''
      htid
  anonymous := h.anonymous

omit [DecidableEq Peer] in
theorem Linked.unawaited_release (h : s.Linked) (hr : s.tbIncomingReq[i]? = some r)
    (hwait : r.waitRsp = true) (p : Peer) : (s.release i r).Unawaited p r.tid := by
  intro r' hmem hp
  obtain ⟨hwait', htid⟩ := waitsFor_iff.mp hp
  obtain ⟨j, hj⟩ := List.mem_iff_getElem?.mp hmem
  obtain ⟨hij, hr'⟩ := waits_of_release hr hj hwait'
  exact absurd (h.distinct i j r r' hr hr' hwait hwait' htid.symm) hij

/-- **The completion of a waiting slot** answers the request of the slot. -/
theorem Sound.completion (h : s.Sound) (hr : s.tbIncomingReq[i]? = some r)
    (hwait : r.waitRsp = true) (scode : String) (w : Bool) :
    ∃ p, r.peer = some p ∧ (s.diaIncomingRequestCompletion (some r.tid) scode w).Sound ∧
      (s.diaIncomingRequestCompletion (some r.tid) scode w).answers =
        s.answers ++ [⟨p, r.tid, r.reqType, scode, dia2coap_code scode r.reqType,
          if r.reqType = .create then r.targetID else ""⟩] ∧
      (s.diaIncomingRequestCompletion (some r.tid) scode w).tbIncomingReq =
        s.tbIncomingReq.set i { r with waitRsp := false } := by
  obtain ⟨p, hpeer, hdr⟩ := h.boxed i r hr hwait
  have hbox : (s.release i r).responseBox r.tid r.peer = some p := by rw [hpeer, responseBox]
  have hun := h.toLinked.unawaited_release hr hwait p
  obtain ⟨dr, tids, heq, hlinked⟩ := (h.toLinked.release hr).diaResponse hbox hdr
    (Or.inr hun : (w && r.reqType ≠ .delete) = true ∨ _) r.reqType scode
    (if r.reqType = .create then r.targetID else "")
  rw [h.toLinked.completion_eq hr hwait, respond_eq]
  have hpiggy : (s.release i r).piggy.getD p = p := by
    rw [show (s.release i r).piggy = none from h.quiet, getD_none]
  rw [hpiggy] at heq
  rw [heq] at hlinked ⊢
  refine ⟨p, hpeer, ⟨hlinked, fun q => ?_, h.quiet, h.asynchronous⟩, rfl, rfl⟩
  have hcount := countP_set_eq (b := { r with waitRsp := false }) (p := holds q) hr
  have hbefore := h.answered q
  have hmatch : answersTo q ⟨p, r.tid, r.reqType, scode, dia2coap_code scode r.reqType,
      if r.reqType = .create then r.targetID else ""⟩ = holds q r := by
    simp [answersTo, holds, hwait, hpeer]
  have hreleased : holds q { r with waitRsp := false } = false := rfl
  simp only [release, List.countP_append, List.countP_singleton, hmatch]
  rw [hreleased] at hcount
  cases hh : holds q r <;> simp only [hh, Bool.false_eq_true, if_false, if_true] at hcount ⊢ <;>
    omega

end Slots

section Clock

variable {now : Int}

omit [DecidableEq Peer] in
theorem overdue_iff {r : InReq Peer} : overdue now r = true ↔
    r.waitRsp = true ∧ srvRequestTimeoutDia ≤ ((now - r.sendAt).natAbs : Int) := by
  simp [overdue]

theorem Sound.clockPass (h : s.Sound) (now : Int) (i : Nat) :
    (clockPass now s i).Sound ∧
      (clockPass now s i).answers =
        s.answers ++ (s.tbIncomingReq[i]?).toList.filterMap (timeoutAnswer now) ∧
      ∀ j, (clockPass now s i).tbIncomingReq[j]? =
        if i = j then (s.tbIncomingReq[j]?).map (afterClock now) else s.tbIncomingReq[j]? := by
  unfold DiaServer.clockPass
  cases hr : s.tbIncomingReq[i]? with
  | none =>
    refine ⟨h, (List.append_nil _).symm, fun j => ?_⟩
    by_cases hij : i = j
    · rw [if_pos hij, ← hij, hr, map_none]
    · rw [if_neg hij]
  | some r =>
    dsimp only
    by_cases hover : overdue now r = true
    · rw [if_pos hover]
      obtain ⟨p, hpeer, hsound, hans, htb⟩ :=
        h.completion hr (overdue_iff.mp hover).1 "STATUS_REQUEST_TIMEOUT" false
      refine ⟨hsound, ?_, fun j => ?_⟩
      · rw [hans]
        simp [timeoutAnswer, hover, hpeer]
      · rw [htb, List.getElem?_set]
        split
        · rename_i hij
          subst hij
          rw [if_pos (lt_of_getElem? hr), hr, map_some, afterClock, if_pos hover]
        · rfl
    · rw [if_neg hover]
      refine ⟨h, ?_, fun j => ?_⟩
      · simp [timeoutAnswer, hover]
      · split
        · rename_i hij
          rw [← hij, hr, map_some, afterClock, if_neg hover]
        · rfl

theorem Sound.clockPasses (h : s.Sound) (now : Int) (n : Nat) :
    ((List.range n).foldl (DiaServer.clockPass now) s).Sound ∧
      ((List.range n).foldl (DiaServer.clockPass now) s).answers =
        s.answers ++ (s.tbIncomingReq.take n).filterMap (timeoutAnswer now) ∧
      ∀ j, ((List.range n).foldl (DiaServer.clockPass now) s).tbIncomingReq[j]? =
        if j < n then (s.tbIncomingReq[j]?).map (afterClock now) else s.tbIncomingReq[j]? := by
  induction n with
  | zero => exact ⟨h, (List.append_nil _).symm, fun j => by rw [if_neg (Nat.not_lt_zero j)]; rfl⟩
  | succ n ih =>
    obtain ⟨hsound, hans, htb⟩ := ih
    rw [List.range_succ, List.foldl_append, List.foldl_cons, List.foldl_nil]
    set t := (List.range n).foldl (DiaServer.clockPass now) s
    obtain ⟨hsound', hans', htb'⟩ := hsound.clockPass now n
    have hn : t.tbIncomingReq[n]? = s.tbIncomingReq[n]? := by
      rw [htb, if_neg (Nat.lt_irrefl n)]
    refine ⟨hsound', ?_, fun j => ?_⟩
    · rw [hans', hans, hn, List.append_assoc, ← List.filterMap_append, ← List.take_add_one]
    · rw [htb', htb]
      by_cases hj : j < n
      · rw [if_neg (Nat.ne_of_gt hj), if_pos hj, if_pos (Nat.lt_succ_of_lt hj)]
      · by_cases hjn : n = j
        · subst hjn
          rw [if_pos rfl, if_neg hj, if_pos (Nat.lt_succ_self n)]
        · rw [if_neg hjn, if_neg hj, if_neg (by omega)]

/-- **The clock** answers what is overdue. -/
theorem Sound.clock (h : s.Sound) (now : Int) :
    (s.DiaServerClockSc now).Sound ∧ s.TimesOut now := by
  obtain ⟨hsound, hans, htb⟩ := h.clockPasses now maxRequestDia
  have hlen : s.tbIncomingReq.length ≤ maxRequestDia := Nat.le_of_eq h.size
  refine ⟨hsound, ?_, List.ext_getElem? fun j => ?_⟩
  · rw [DiaServerClockSc, hans, List.take_of_length_le hlen]
  · rw [DiaServerClockSc, htb, List.getElem?_map]
    split
    · rfl
    · rename_i hj
      rw [List.getElem?_eq_none (by omega), map_none]

end Clock

section Callback

/-- The request is in its callback: it is entered, and it alone is neither answered nor waiting. -/
structure InCallback (s : DiaServer Peer) (q : Incoming Peer) : Prop extends Linked s where
  due : ∀ q', s.requests.count q' =
    s.answers.countP (answersTo q') + s.tbIncomingReq.countP (holds q') + if q = q' then 1 else 0
  piggy : s.piggy = some q.peer
  entered : s.reqList q.peer q.tid ≠ none

/-- The callback has answered the request, or made it wait. -/
structure Settled (s : DiaServer Peer) : Prop extends Linked s where
  answered : s.AnsweredOnce

variable {q : Incoming Peer} {b : Peer} {peer : Option Peer} {w : Bool} {now : Int}
  {handler : DiaHandler} {p : Peer} {reqType : DiaReqType}

section

variable (h : s.InCallback q)

include h

/-- A response that finds its box settles the request. -/
theorem InCallback.diaResponse (hbox : s.responseBox q.tid peer = some b)
    (hdr : s.reqList b q.tid ≠ none) (hw : w = true ∨ s.Unawaited b q.tid) (scode uri : String) :
    (s.diaResponse q.reqType scode uri w q.tid peer).Settled ∧
      (s.diaResponse q.reqType scode uri w q.tid peer).synchroIncomingRequest =
        s.synchroIncomingRequest := by
  obtain ⟨dr, tids, heq, hlinked⟩ := h.toLinked.diaResponse hbox hdr hw q.reqType scode uri
  rw [h.piggy, getD_some] at heq
  rw [heq] at hlinked ⊢
  refine ⟨⟨hlinked, fun q' => ?_⟩, rfl⟩
  have hdue := h.due q'
  simp only [List.countP_append, List.countP_singleton, answersTo_eq, decide_eq_true_eq]
  omega

theorem InCallback.add (hacc : s.Acceptable q.tid) (now : Int) (targetID : String) :
    (s.DiaIncomingAddRequest now q.tid q.reqType (some q.peer) targetID).Settled ∧
      (s.DiaIncomingAddRequest now q.tid q.reqType (some q.peer) targetID).synchroIncomingRequest =
        s.synchroIncomingRequest := by
  obtain ⟨⟨r₁, hr₁, hfree₁⟩, hnone⟩ := hacc
  have hexist : s.DiaIncomingExistRequest q.tid = false := by
    rw [DiaIncomingExistRequest, List.any_eq_false]
    intro r hr
    rw [hnone r hr]
    exact Bool.false_ne_true
  unfold DiaIncomingAddRequest
  rw [hexist, if_neg Bool.false_ne_true]
  cases hi : s.tbIncomingReq.findIdx? fun r => !r.waitRsp with
  | none =>
    have := List.findIdx?_eq_none_iff.mp hi r₁ hr₁
    rw [hfree₁] at this
    cases this
  | some i =>
    obtain ⟨r₀, hr₀, hp⟩ := findIdx?_eq_some hi
    have hfree : r₀.waitRsp = false := by simpa using hp
    set r : InReq Peer := ⟨true, now, q.tid, some q.peer, targetID, q.reqType⟩
    have hat : ∀ (j : Nat) (r' : InReq Peer), (s.tbIncomingReq.set i r)[j]? = some r' ↔
        (i = j ∧ r = r') ∨ (i ≠ j ∧ s.tbIncomingReq[j]? = some r') := fun j r' => getElem?_set_iff hr₀
    have hother : ∀ (j : Nat) (r' : InReq Peer), s.tbIncomingReq[j]? = some r' →
        r'.waitRsp = true → r'.tid ≠ q.tid := by
      intro j r' hr' hwait htid
      have := hnone r' (mem_of_getElem? hr')
      rw [waitsFor_iff.mpr ⟨hwait, htid⟩] at this
      cases this
    refine ⟨⟨⟨?_, ?_, h.tids, ?_, h.anonymous⟩, fun q' => ?_⟩, rfl⟩
    · rw [List.length_set, h.size]
    · intro j r' hr' hwait
      rcases (hat j r').mp hr' with ⟨-, rfl⟩ | ⟨-, hr'⟩
      · exact ⟨q.peer, rfl, h.entered⟩
      · exact h.boxed j r' hr' hwait
    · intro j k r' r'' hr' hr'' hw' hw'' htid
      rcases (hat j r').mp hr' with ⟨rfl, rfl⟩ | ⟨-, hr'⟩ <;>
        rcases (hat k r'').mp hr'' with ⟨rfl, rfl⟩ | ⟨-, hr''⟩
      · rfl
      · exact absurd htid.symm (hother k r'' hr'' hw'')
      · exact absurd htid (hother j r' hr' hw')
      · exact h.distinct j k r' r'' hr' hr'' hw' hw'' htid
    · have hdue := h.due q'
      have hcount := countP_set_eq (b := r) (p := holds q') hr₀
      have hempty : holds q' r₀ = false := by simp [holds, hfree]
      have hmatch : holds q' r = decide (q = q') := holds_eq q q' now targetID
      simp only [hempty, hmatch, Bool.false_eq_true, if_false, decide_eq_true_eq] at hcount
      dsimp only
      split at hdue <;> rename_i heq <;> simp only [heq, if_true, if_false] at hcount <;> omega

theorem InCallback.congr (htb : t.tbIncomingReq = s.tbIncomingReq) (hreq : t.reqList = s.reqList)
    (htid : t.tidtbl = s.tidtbl)
    (hcur : t.currentIncomingRequest.peer = s.currentIncomingRequest.peer)
    (hask : t.requests = s.requests) (hans : t.answers = s.answers) (hpiggy : t.piggy = s.piggy) :
    t.InCallback q where
  toLinked := h.toLinked.congr htb hreq htid hcur
  due := by
    rw [hask, hans, htb]
    exact h.due
  piggy := by rw [hpiggy, h.piggy]
  entered := by
    rw [hreq]
    exact h.entered

theorem InCallback.endfct (hsyn : s.synchroIncomingRequest = false) {ret : Int}
    (hret : if 0 < ret then s.Acceptable q.tid else s.Unawaited q.peer q.tid) (now : Int)
    (targetID : String) :
    (s.endfct now q.reqType targetID q.tid q.peer ret).Settled ∧
      (s.endfct now q.reqType targetID q.tid q.peer ret).synchroIncomingRequest = false := by
  unfold DiaServer.endfct
  rw [hsyn, if_neg Bool.false_ne_true]
  by_cases hpos : 0 < ret
  · rw [if_pos hpos] at hret ⊢
    obtain ⟨hsettled, heq⟩ := h.add hret now targetID
    exact ⟨hsettled, heq.trans hsyn⟩
  · rw [if_neg hpos] at hret ⊢
    obtain ⟨hsettled, heq⟩ := h.diaResponse (show s.responseBox q.tid (some q.peer) = some q.peer from rfl)
      h.entered (Or.inr hret) (WDiaStatusCode q.reqType ret) (if q.reqType = .create then targetID else "")
    exact ⟨hsettled, heq.trans hsyn⟩

theorem InCallback.cb_diaRequest (hkind : q.reqType ≠ .delete) (hb : s.tidtbl q.tid = some b)
    (hhandler : s.HandlerCondition q.peer q.tid handler) (now : Int) (targetID : String) :
    (s.cb_diaRequest now q.reqType targetID q.tid q.peer handler).Settled ∧
      (s.cb_diaRequest now q.reqType targetID q.tid q.peer handler).synchroIncomingRequest =
        false := by
  unfold DiaServer.cb_diaRequest
  cases handler with
  | returns ret =>
    have hcur : (s.DiaCurrentIncomingRequest q.tid q.reqType targetID).InCallback q :=
      h.congr rfl rfl rfl rfl rfl rfl rfl
    exact hcur.endfct rfl hhandler now targetID
  | completes retcode w ret =>
    set v : DiaServer Peer :=
      { s.DiaCurrentIncomingRequest q.tid q.reqType targetID with synchroIncomingRequest := true }
    have hcur : v.InCallback q := h.congr rfl rfl rfl rfl rfl rfl rfl
    -- the current request has no peer, so the transaction id decides whose transaction is freed
    have hrespond : (s.DiaCurrentIncomingRequest q.tid q.reqType targetID).diaIncomingRequestCompletion
        none retcode w = v.diaResponse q.reqType retcode (if q.reqType = .create then targetID else "")
          w q.tid none := by
      have hpeer : v.currentIncomingRequest.peer = none := hcur.anonymous
      rw [diaIncomingRequestCompletion, respond_eq]
      show v.diaResponse q.reqType retcode (if q.reqType = .create then targetID else "")
        (w && q.reqType ≠ .delete) q.tid v.currentIncomingRequest.peer = _
      rw [hpeer, decide_eq_true hkind, Bool.and_true]
    have hw : w = true ∨ v.Unawaited b q.tid := by
      unfold HandlerCondition at hhandler
      rw [hb] at hhandler
      exact hhandler
    obtain ⟨hsettled, hsyn⟩ := hcur.diaResponse (show v.responseBox q.tid none = some b from hb)
      (h.tids q.tid b hb) hw retcode (if q.reqType = .create then targetID else "")
    dsimp only
    rw [hrespond]
    unfold DiaServer.endfct
    rw [if_pos hsyn]
    exact ⟨⟨hsettled.toLinked.congr rfl rfl rfl rfl, hsettled.answered⟩, rfl⟩

end

/-- The request in its callback. -/
def received (s : DiaServer Peer) (q : Incoming Peer) : DiaServer Peer :=
  { s.enter q.peer q.tid with piggy := some q.peer, requests := s.requests ++ [q] }

theorem Sound.received (h : s.Sound) (q : Incoming Peer) : (s.received q).InCallback q := by
  obtain ⟨dr, tids, heq⟩ := s.enter_frame q.peer q.tid
  refine ⟨(h.toLinked.enter q.peer q.tid).congr rfl rfl rfl rfl, fun q' => ?_, rfl, enter_reqList⟩
  have hans := h.answered q'
  rw [DiaServer.received, heq]
  rw [List.count_append, List.count_singleton]
  simp only [beq_iff_eq]
  omega

theorem Settled.sound (h : s.Settled) (hsyn : s.synchroIncomingRequest = false) :
    ({ s with piggy := none } : DiaServer Peer).Sound :=
  ⟨h.toLinked.congr rfl rfl rfl rfl, h.answered, rfl, hsyn⟩

theorem hnd_request_of_ne (hkind : reqType ≠ .delete) (targetID : String) (handler : DiaHandler) :
    s.hnd_request now p tid reqType targetID handler =
      { (s.received ⟨p, tid, reqType⟩).cb_diaRequest now reqType targetID tid p handler with
        piggy := none } := by
  cases reqType with
  | delete => exact absurd rfl hkind
  | retrieve | create | update => rfl

/-- **A request**, from its arrival to the end of its callback. -/
theorem Sound.hnd_request (h : s.Sound) {targetID : String}
    (hc : s.AnswerCondition (.request now p tid reqType targetID handler)) :
    (s.hnd_request now p tid reqType targetID handler).Sound := by
  have hin := h.received ⟨p, tid, reqType⟩
  obtain ⟨dr, tids, hframe⟩ := s.enter_frame p tid
  have htb : (s.received ⟨p, tid, reqType⟩).tbIncomingReq = s.tbIncomingReq := by
    rw [DiaServer.received, hframe]
  replace hc : if reqType = .delete then s.Unawaited p tid else s.HandlerCondition p tid handler := hc
  by_cases hkind : reqType = .delete
  · subst hkind
    have hun : (s.received ⟨p, tid, .delete⟩).Unawaited p tid := by
      rw [if_pos rfl] at hc
      unfold Unawaited
      rw [htb]
      exact hc
    have hcur : ((s.received ⟨p, tid, .delete⟩).DiaCurrentIncomingRequest tid .delete
        targetID).InCallback ⟨p, tid, .delete⟩ := hin.congr rfl rfl rfl rfl rfl rfl rfl
    have hbox : ((s.received ⟨p, tid, .delete⟩).DiaCurrentIncomingRequest tid .delete
        targetID).responseBox tid (some p) = some p := rfl
    obtain ⟨hsettled, hsyn⟩ := hcur.diaResponse hbox hcur.entered
      (Or.inr hun : false = true ∨ _) "STATUS_BAD_REQUEST" ""
    exact hsettled.sound hsyn
  · rw [if_neg hkind] at hc
    have htid : (s.received ⟨p, tid, reqType⟩).tidtbl tid = some ((s.tidtbl tid).getD p) :=
      enter_tidtbl
    have hhandler : (s.received ⟨p, tid, reqType⟩).HandlerCondition p tid handler := by
      unfold HandlerCondition Unawaited Acceptable at hc ⊢
      rw [htid, htb, getD_some]
      exact hc
    obtain ⟨hsettled, hsyn⟩ := hin.cb_diaRequest hkind htid hhandler now targetID
    rw [hnd_request_of_ne hkind]
    exact hsettled.sound hsyn

end Callback

theorem Sound.init : (DiaServer.init : DiaServer Peer).Sound := by
  have hfree : ∀ (i : Nat) (r : InReq Peer),
      (DiaServer.init : DiaServer Peer).tbIncomingReq[i]? = some r → r = .zero :=
    fun i r hr => List.eq_of_mem_replicate (mem_of_getElem? hr)
  refine ⟨⟨List.length_replicate, fun i r hr hwait => ?_, fun t p h => ?_,
    fun i j r r' hr _ hwait => ?_, rfl⟩, fun q => ?_, rfl, rfl⟩
  · rw [hfree i r hr] at hwait
    cases hwait
  · cases h
  · rw [hfree i r hr] at hwait
    cases hwait
  · rfl

theorem Sound.keepDr (h : s.Sound) (p : Peer) (tid : Nat) :
    (s.enter p tid).Sound ∧ (s.hnd_fragment p tid).Sound := by
  obtain ⟨dr, tids, heq⟩ := s.enter_frame p tid
  have hl := h.toLinked.enter p tid
  have hl' := hl.setDr p tid true
  refine ⟨?_, ?_⟩
  · rw [heq] at hl ⊢
    exact ⟨hl, h.answered, h.quiet, h.asynchronous⟩
  · unfold DiaServer.hnd_fragment
    rw [heq] at hl' ⊢
    exact ⟨hl', h.answered, h.quiet, h.asynchronous⟩

theorem Sound.lastBlock (h : s.Sound) (hun : s.Unawaited p tid) :
    (s.hnd_block p tid true).Sound := by
  obtain ⟨dr, tids, heq⟩ := s.enter_frame p tid
  have hun' : (s.enter p tid).Unawaited p tid := by
    rw [heq]
    exact hun
  have hl := (h.toLinked.enter p tid).free hun'
  unfold DiaServer.hnd_block
  rw [if_pos rfl]
  rw [heq] at hl ⊢
  exact ⟨hl, h.answered, h.quiet, h.asynchronous⟩

theorem Sound.completeTid (h : s.Sound) (tid : Nat) (scode : String) (w : Bool) :
    (s.diaIncomingRequestCompletion (some tid) scode w).Sound := by
  by_cases hex : ∃ r ∈ s.tbIncomingReq, waitsFor tid r = true
  · obtain ⟨r, hr, hp⟩ := hex
    obtain ⟨hwait, rfl⟩ := waitsFor_iff.mp hp
    obtain ⟨i, hi⟩ := List.mem_iff_getElem?.mp hr
    obtain ⟨-, -, hsound, -⟩ := h.completion hi hwait scode w
    exact hsound
  · have hno : ∀ r ∈ s.tbIncomingReq, waitsFor tid r = false := by
      intro r hr
      by_contra hp
      exact hex ⟨r, hr, by simpa using hp⟩
    rw [completion_of_none hno]
    exact h

/-- **One event** that meets the condition. -/
theorem Sound.step (h : s.Sound) {e : DiaServerEvent Peer} (hc : s.AnswerCondition e)
    (ht : s.step e = some t) : t.Sound := by
  cases e with
  | request now p tid reqType targetID handler =>
    obtain rfl := Option.some.inj ht
    exact h.hnd_request hc
  | fragment p tid =>
    obtain rfl := Option.some.inj ht
    exact (h.keepDr p tid).2
  | block p tid last =>
    simp only [DiaServer.step] at ht
    split at ht
    · obtain rfl := Option.some.inj ht
      cases last with
      | true => exact h.lastBlock (hc rfl)
      | false => exact (h.keepDr p tid).1
    · cases ht
  | completion tid retcode w =>
    obtain rfl := Option.some.inj ht
    exact h.completeTid tid retcode w
  | clock now =>
    obtain rfl := Option.some.inj ht
    exact (h.clock now).1

end DiaServer

/-- **The answers to the incoming requests**: on a run whose events meet the condition, each request
has at any time been answered once, to its peer and with its kind, or waits in one slot; and each
pass of the clock answers the overdue ones, with the timeout. -/
theorem answered_of_condition {Peer : Type} [DecidableEq Peer] {es : List (DiaServerEvent Peer)}
    (h : Run.Along DiaServer.step DiaServer.AnswerCondition DiaServer.init es) :
    Run.Visits DiaServer.step (fun s => s.AnsweredOnce ∧ ∀ now, s.TimesOut now)
      DiaServer.init es :=
  Run.visits_mono (fun _ hs => ⟨hs.answered, fun now => (hs.clock now).2⟩)
    (Run.visits_of_along (fun _ _ _ hs hc ht => hs.step hc ht) DiaServer.Sound.init h)

/-- Two peers ask under different transaction ids; one is answered at once, one by a completion, and
a third request by the clock. -/
theorem answered_twoPeers :
    Run.Visits DiaServer.step (fun s => s.AnsweredOnce ∧ ∀ now, s.TimesOut now) DiaServer.init
      [.request 0 "a" 1 .create "/dev/1" (.returns 1),
        .request 1 "b" 2 .retrieve "/dev/2" (.completes "STATUS_OK" false 0),
        .request 2 "b" 3 .update "/dev/2" (.returns 1), .completion 1 "STATUS_CREATED" false,
        .clock 902] :=
  answered_of_condition (by decide +kernel)

/-- Two peers ask under one transaction id, and both requests are to be answered later: the second
is not entered, and neither answered nor waited for. -/
theorem unanswered_sameTid :
    ¬ Run.Visits DiaServer.step (fun s => s.AnsweredOnce ∧ ∀ now, s.TimesOut now) DiaServer.init
      [.request 0 "a" 1 .create "/dev/1" (.returns 1),
        .request 1 "b" 1 .create "/dev/2" (.returns 1)] := by
  intro h
  have hb := (Run.visits_exec h rfl).1 ⟨"b", 1, .create⟩
  exact absurd hb (by decide +kernel)

end Ong.DrvCommon
