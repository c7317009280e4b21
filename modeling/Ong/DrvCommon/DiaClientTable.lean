import Mathlib.Data.List.Nodup
import Ong.Lib.Slots
import Ong.DrvCommon.DiaClient

/-!
# The request table over whole runs

The slots of the table are released before the completion callback runs, so the callback may take
the same slot again.  The counters follow the slots as long as no user context fails at a send, and
the targets follow the requests as long as the callback of a request that timed out does not take
its slot for a request with a target, and no request copied from a completed one takes its slot
together with its target.

## Main results

* `Sound.init`, `Sound.release`, `Sound.add`: what the allocation, the release and the sending of a
  request preserve
* `table_of_condition`: the contract over whole runs
-/

namespace Ong.DrvCommon

open Slots

/-- The request in the slot waits for a response. -/
def DiaReq.isSent (r : DiaReq) : Bool := r.waitRsp = .sent

variable {c : DiaClient} {r : DiaReq}

namespace DiaClient

/-- The contract of the table: the counters count, no more requests wait than may, each request that
was sent either waits in one slot or has had its callback called once, and a slot in use holds the
target its request was created with. -/
structure TableOk (c : DiaClient) : Prop where
  inuse : c.nbReqInuse = c.tbReq.countP (·.inUse)
  pending : c.nbReqPending = c.tbReq.countP (·.isSent)
  pending_le : c.nbReqPending ≤ maxPendingDia
  once : ∀ id ∈ c.sent, c.called.count id =
    if ∃ r ∈ c.tbReq, r.isSent = true ∧ r.id = id then 0 else 1
  targets : ∀ r ∈ c.tbReq, r.inUse = true → r.targetId = r.created

/-- The numbers of the requests: those in use are distinct and known, none of them was completed,
and those not yet sent are not among the sent ones. -/
structure Numbered (c : DiaClient) : Prop where
  id_lt : ∀ (i : Nat) (r : DiaReq), c.tbReq[i]? = some r → r.inUse = true → r.id < c.nextId
  sent_lt : ∀ id ∈ c.sent, id < c.nextId
  called_lt : ∀ id ∈ c.called, id < c.nextId
  distinct : ∀ (i j : Nat) (r r' : DiaReq), c.tbReq[i]? = some r → c.tbReq[j]? = some r' → r.inUse = true →
    r'.inUse = true → r.id = r'.id → i = j
  uncalled : ∀ (i : Nat) (r : DiaReq), c.tbReq[i]? = some r → r.inUse = true → r.id ∉ c.called
  unsent : ∀ (i : Nat) (r : DiaReq), c.tbReq[i]? = some r → r.waitRsp = .init → r.id ∉ c.sent
  waits : ∀ id ∈ c.sent, id ∉ c.called →
    ∃ (i : Nat) (r : DiaReq), c.tbReq[i]? = some r ∧ r.isSent = true ∧ r.id = id
  nodup : c.called.Nodup

/-- What the operations keep: the contract, with the numbers it is proved by. -/
structure Sound (c : DiaClient) : Prop extends Numbered c where
  inuse : c.nbReqInuse = c.tbReq.countP (·.inUse)
  pending : c.nbReqPending = c.tbReq.countP (·.isSent)
  pending_le : c.nbReqPending ≤ maxPendingDia
  targets : ∀ (i : Nat) (r : DiaReq), c.tbReq[i]? = some r → r.inUse = true → r.targetId = r.created

section Slot

theorem inUse_iff : r.inUse = true ↔ r.waitRsp ≠ .nuse := by simp [DiaReq.inUse]

theorem isSent_iff : r.isSent = true ↔ r.waitRsp = .sent := by simp [DiaReq.isSent]

theorem inUse_of_isSent (h : r.isSent = true) : r.inUse = true := by
  rw [isSent_iff] at h
  rw [inUse_iff, h]
  exact WaitRsp.noConfusion

theorem inUse_of_init (h : r.waitRsp = .init) : r.inUse = true := by
  rw [inUse_iff, h]
  exact WaitRsp.noConfusion

end Slot

variable {i : Nat}

theorem Sound.tableOk (h : c.Sound) : c.TableOk where
  inuse := h.inuse
  pending := h.pending
  pending_le := h.pending_le
  once := by
    intro id hid
    split
    · rename_i hex
      obtain ⟨r, hr, hsent, rfl⟩ := hex
      obtain ⟨i, hi⟩ := List.mem_iff_getElem?.mp hr
      exact List.count_eq_zero.mpr (h.uncalled i r hi (inUse_of_isSent hsent))
    · rename_i hno
      apply List.count_eq_one_of_mem h.nodup
      by_contra hcalled
      obtain ⟨i, r, hr, hsent, hrid⟩ := h.waits id hid hcalled
      exact hno ⟨r, mem_of_getElem? hr, hsent, hrid⟩
  targets := by
    intro r hr huse
    obtain ⟨i, hi⟩ := List.mem_iff_getElem?.mp hr
    exact h.targets i r hi huse

theorem firstFree_eq_some (h : c.firstFree = some i) :
    ∃ r, c.tbReq[i]? = some r ∧ r.inUse = false := by
  obtain ⟨r, hr, hp⟩ := findIdx?_eq_some h
  exact ⟨r, hr, by simpa using hp⟩

/-- **The allocation**: a request whose string is not freed with the slot it takes. -/
theorem Sound._WDiaInitRequest (h : c.Sound) {req : DiaReq} {owner : Option Nat}
    (hown : req.targetId = .null ∨ owner = none ∨ owner ≠ c.firstFree) :
    (c._WDiaInitRequest req owner).Sound := by
  unfold DiaClient._WDiaInitRequest
  cases hi : c.firstFree with
  | none => exact h
  | some i =>
    obtain ⟨r₀, hr₀, hfree⟩ := firstFree_eq_some hi
    have htarget : (if owner = some i ∧ req.targetId ≠ .null then TargetId.freed
        else req.targetId) = req.targetId := by
      rw [if_neg]
      rintro ⟨rfl, hne⟩
      rcases hown with hnull | hnone | hother
      · exact hne hnull
      · cases hnone
      · exact hother hi.symm
    dsimp only
    rw [htarget]
    set r₁ : DiaReq := { req with
      waitRsp := .init, tid := -1, initAt := c.timemono, id := c.nextId, created := req.targetId }
    have hsent₀ : r₀.isSent = false := by
      rw [Bool.eq_false_iff]
      intro hs
      rw [inUse_of_isSent hs] at hfree
      cases hfree
    have hat : ∀ (j : Nat) (r : DiaReq), (c.tbReq.set i r₁)[j]? = some r ↔
        (i = j ∧ r₁ = r) ∨ (i ≠ j ∧ c.tbReq[j]? = some r) := fun j r => getElem?_set_iff hr₀
    exact {
      id_lt := by
        intro j r hr huse
        show r.id < c.nextId + 1
        rcases (hat j r).mp hr with ⟨-, rfl⟩ | ⟨-, hr⟩
        · exact Nat.lt_succ_self _
        · exact Nat.lt_succ_of_lt (h.id_lt j r hr huse)
      sent_lt := fun id hid => Nat.lt_succ_of_lt (h.sent_lt id hid)
      called_lt := fun id hid => Nat.lt_succ_of_lt (h.called_lt id hid)
      distinct := by
        intro j k r r' hr hr' huse huse' hid
        rcases (hat j r).mp hr with ⟨rfl, rfl⟩ | ⟨-, hr⟩
        · rcases (hat k r').mp hr' with ⟨rfl, -⟩ | ⟨-, hr'⟩
          · rfl
          · have := h.id_lt k r' hr' huse'
            rw [← hid] at this
            exact absurd this (Nat.lt_irrefl _)
        · rcases (hat k r').mp hr' with ⟨rfl, rfl⟩ | ⟨-, hr'⟩
          · have := h.id_lt j r hr huse
            rw [hid] at this
            exact absurd this (Nat.lt_irrefl _)
          · exact h.distinct j k r r' hr hr' huse huse' hid
      uncalled := by
        intro j r hr huse
        rcases (hat j r).mp hr with ⟨-, rfl⟩ | ⟨-, hr⟩
        · exact fun hc => Nat.lt_irrefl _ (h.called_lt _ hc)
        · exact h.uncalled j r hr huse
      unsent := by
        intro j r hr hinit
        rcases (hat j r).mp hr with ⟨-, rfl⟩ | ⟨-, hr⟩
        · exact fun hs => Nat.lt_irrefl _ (h.sent_lt _ hs)
        · exact h.unsent j r hr hinit
      waits := by
        intro id hid hcalled
        obtain ⟨j, r, hr, hsent, rfl⟩ := h.waits id hid hcalled
        refine ⟨j, r, (hat j r).mpr (Or.inr ⟨?_, hr⟩), hsent, rfl⟩
        rintro rfl
        rw [hr₀] at hr
        cases hr
        rw [hsent₀] at hsent
        cases hsent
      nodup := h.nodup
      inuse := by
        show c.nbReqInuse + 1 = ((c.tbReq.set i r₁).countP (·.inUse) : Int)
        rw [countP_set_eq hr₀, h.inuse]
        simp [hfree, inUse_of_init (show r₁.waitRsp = .init from rfl)]
      pending := by
        show c.nbReqPending = ((c.tbReq.set i r₁).countP (·.isSent) : Int)
        have hsent₁ : r₁.isSent = false := rfl
        rw [countP_set_eq hr₀, h.pending]
        simp [hsent₀, hsent₁]
      pending_le := h.pending_le
      targets := by
        intro j r hr huse
        rcases (hat j r).mp hr with ⟨-, rfl⟩ | ⟨-, hr⟩
        · rfl
        · exact h.targets j r hr huse }

/-- **The release** of a request in use, on the way to its completion callback. -/
theorem Sound.release (h : c.Sound) (hr : c.tbReq[i]? = some r) (huse : r.inUse = true)
    {r' : DiaReq} (hid : r'.id = r.id) : (c.release i r' r.isSent).Sound := by
  set r₁ : DiaReq := { r' with waitRsp := .nuse } with hr₁
  have huse₁ : r₁.inUse = false := rfl
  have hsent₁ : r₁.isSent = false := rfl
  have hat : ∀ (j : Nat) (r'' : DiaReq), (c.tbReq.set i r₁)[j]? = some r'' → r''.inUse = true →
      i ≠ j ∧ c.tbReq[j]? = some r'' := by
    intro j r'' hj huse''
    rcases (getElem?_set_iff hr).mp hj with ⟨-, rfl⟩ | hj
    · rw [huse₁] at huse''
      cases huse''
    · exact hj
  have hother : ∀ (j : Nat) (r'' : DiaReq), i ≠ j → c.tbReq[j]? = some r'' → r''.inUse = true →
      r''.id ≠ r.id := fun j r'' hij hj huse'' heq =>
    hij (h.distinct i j r r'' hr hj huse huse'' heq.symm)
  have hcalled : (c.release i r' r.isSent).called = r.id :: c.called :=
    congrArg (· :: c.called) hid
  exact {
    id_lt := by
      intro j r'' hj huse''
      exact h.id_lt j r'' (hat j r'' hj huse'').2 huse''
    sent_lt := h.sent_lt
    called_lt := by
      intro id hmem
      rw [hcalled] at hmem
      rcases List.mem_cons.mp hmem with rfl | hmem
      · exact h.id_lt i r hr huse
      · exact h.called_lt id hmem
    distinct := by
      intro j k a b hj hk ha hb heq
      exact h.distinct j k a b (hat j a hj ha).2 (hat k b hk hb).2 ha hb heq
    uncalled := by
      intro j r'' hj huse'' hmem
      obtain ⟨hij, hj⟩ := hat j r'' hj huse''
      rw [hcalled] at hmem
      rcases List.mem_cons.mp hmem with heq | hmem
      · exact hother j r'' hij hj huse'' heq
      · exact h.uncalled j r'' hj huse'' hmem
    unsent := by
      intro j r'' hj hinit
      exact h.unsent j r'' (hat j r'' hj (inUse_of_init hinit)).2 hinit
    waits := by
      intro id hmem hnot
      rw [hcalled, List.mem_cons, not_or] at hnot
      obtain ⟨j, r'', hj, hsent, rfl⟩ := h.waits id hmem hnot.2
      refine ⟨j, r'', (getElem?_set_iff hr).mpr (Or.inr ⟨?_, hj⟩), hsent, rfl⟩
      rintro rfl
      rw [hr] at hj
      cases hj
      exact hnot.1 rfl
    nodup := by
      rw [hcalled]
      exact List.nodup_cons.mpr ⟨h.uncalled i r hr huse, h.nodup⟩
    inuse := by
      show c.nbReqInuse - 1 = ((c.tbReq.set i r₁).countP (·.inUse) : Int)
      rw [countP_set_eq hr, h.inuse]
      simp [huse, huse₁]
    pending := by
      show (if r.isSent then c.nbReqPending - 1 else c.nbReqPending) =
        ((c.tbReq.set i r₁).countP (·.isSent) : Int)
      rw [countP_set_eq hr, ← h.pending]
      simp only [hsent₁]
      split <;> simp
    pending_le := by
      show (if r.isSent then c.nbReqPending - 1 else c.nbReqPending) ≤ maxPendingDia
      have := h.pending_le
      split
      · omega
      · exact this
    targets := by
      intro j r'' hj huse''
      exact h.targets j r'' (hat j r'' hj huse'').2 huse'' }

/-- **The sending** of a request, when one more may wait. -/
theorem Sound._WDiaAddRequest (h : c.Sound) (hr : c.tbReq[i]? = some r) (hinit : r.waitRsp = .init)
    (hmax : c.nbReqPending < maxPendingDia) (tid : Int) :
    (c._WDiaAddRequest i { r with tid }).Sound := by
  unfold DiaClient._WDiaAddRequest
  rw [if_neg (not_not.mpr hinit)]
  set r₁ : DiaReq := { r with
    tid, waitRsp := .sent, sendAt := c.timemono
    waitMax := ((r.retry : Int) + 1) * requestTimeoutDia } with hr₁
  have huse : r.inUse = true := inUse_of_init hinit
  have hsent₁ : r₁.isSent = true := rfl
  have hsent : r.isSent = false := by
    rw [Bool.eq_false_iff, ne_eq, isSent_iff, hinit]
    exact WaitRsp.noConfusion
  have hat : ∀ (j : Nat) (a : DiaReq), (c.tbReq.set i r₁)[j]? = some a → a.inUse = true →
      ∃ b : DiaReq, c.tbReq[j]? = some b ∧ b.inUse = true ∧ b.id = a.id ∧
        b.targetId = a.targetId ∧ b.created = a.created := by
    intro j a hj ha
    rcases (getElem?_set_iff hr).mp hj with ⟨rfl, rfl⟩ | ⟨-, hj⟩
    · exact ⟨r, hr, huse, rfl, rfl, rfl⟩
    · exact ⟨a, hj, ha, rfl, rfl, rfl⟩
  exact {
    id_lt := by
      intro j a hj ha
      obtain ⟨b, hb, hbu, hid, -⟩ := hat j a hj ha
      exact hid ▸ h.id_lt j b hb hbu
    sent_lt := by
      intro id hid
      rcases List.mem_cons.mp hid with rfl | hid
      · exact h.id_lt i r hr huse
      · exact h.sent_lt id hid
    called_lt := h.called_lt
    distinct := by
      intro j k a b hj hk ha hb hid
      obtain ⟨a', ha', hau, haid, -⟩ := hat j a hj ha
      obtain ⟨b', hb', hbu, hbid, -⟩ := hat k b hk hb
      exact h.distinct j k a' b' ha' hb' hau hbu (haid.trans (hid.trans hbid.symm))
    uncalled := by
      intro j a hj ha
      obtain ⟨b, hb, hbu, hid, -⟩ := hat j a hj ha
      exact hid ▸ h.uncalled j b hb hbu
    unsent := by
      intro j a hj hainit
      rcases (getElem?_set_iff hr).mp hj with ⟨-, rfl⟩ | ⟨hij, hj⟩
      · cases hainit
      · intro hmem
        rcases List.mem_cons.mp hmem with heq | hmem
        · exact hij (h.distinct i j r a hr hj huse (inUse_of_init hainit) heq.symm)
        · exact h.unsent j a hj hainit hmem
    waits := by
      intro id hid hcalled
      rcases List.mem_cons.mp hid with rfl | hid
      · exact ⟨i, r₁, getElem?_set_self hr, hsent₁, rfl⟩
      · obtain ⟨j, a, hj, ha, rfl⟩ := h.waits id hid hcalled
        refine ⟨j, a, (getElem?_set_iff hr).mpr (Or.inr ⟨?_, hj⟩), ha, rfl⟩
        rintro rfl
        rw [hr] at hj
        cases hj
        rw [hsent] at ha
        cases ha
    nodup := h.nodup
    inuse := by
      show c.nbReqInuse = ((c.tbReq.set i r₁).countP (·.inUse) : Int)
      rw [countP_set_eq hr, h.inuse]
      simp [huse, inUse_of_isSent hsent₁]
    pending := by
      show c.nbReqPending + 1 = ((c.tbReq.set i r₁).countP (·.isSent) : Int)
      rw [countP_set_eq hr, h.pending]
      simp [hsent, hsent₁]
    pending_le := hmax
    targets := by
      intro j a hj ha
      obtain ⟨b, hb, hbu, -, htarget, hcreated⟩ := hat j a hj ha
      rw [← htarget, ← hcreated]
      exact h.targets j b hb hbu }

theorem Sound.freeTarget (h : c.Sound)
    (hnull : ∀ r : DiaReq, c.tbReq[i]? = some r → r.inUse = true → r.created = .null) :
    (c.freeTarget i).Sound := by
  unfold DiaClient.freeTarget
  cases hr : c.tbReq[i]? with
  | none => exact h
  | some r =>
    set r₁ : DiaReq := { r with targetId := .null } with hr₁
    have hat : ∀ (j : Nat) (a : DiaReq), (c.tbReq.set i r₁)[j]? = some a →
        ∃ b : DiaReq, c.tbReq[j]? = some b ∧ b.waitRsp = a.waitRsp ∧ b.id = a.id := by
      intro j a hj
      rcases (getElem?_set_iff hr).mp hj with ⟨rfl, rfl⟩ | ⟨-, hj⟩
      · exact ⟨r, hr, rfl, rfl⟩
      · exact ⟨a, hj, rfl, rfl⟩
    have hinUse : ∀ {a b : DiaReq}, b.waitRsp = a.waitRsp → a.inUse = true → b.inUse = true :=
      fun heq ha => by rw [inUse_iff, heq]; exact inUse_iff.mp ha
    exact {
      id_lt := by
        intro j a hj ha
        obtain ⟨b, hb, hwait, hid⟩ := hat j a hj
        exact hid ▸ h.id_lt j b hb (hinUse hwait ha)
      sent_lt := h.sent_lt
      called_lt := h.called_lt
      distinct := by
        intro j k a b hj hk ha hb hid
        obtain ⟨a', ha', hawait, haid⟩ := hat j a hj
        obtain ⟨b', hb', hbwait, hbid⟩ := hat k b hk
        exact h.distinct j k a' b' ha' hb' (hinUse hawait ha) (hinUse hbwait hb)
          (haid.trans (hid.trans hbid.symm))
      uncalled := by
        intro j a hj ha
        obtain ⟨b, hb, hwait, hid⟩ := hat j a hj
        exact hid ▸ h.uncalled j b hb (hinUse hwait ha)
      unsent := by
        intro j a hj hainit
        obtain ⟨b, hb, hwait, hid⟩ := hat j a hj
        exact hid ▸ h.unsent j b hb (hwait.trans hainit)
      waits := by
        intro id hid hcalled
        obtain ⟨j, a, hj, ha, rfl⟩ := h.waits id hid hcalled
        by_cases hij : i = j
        · subst hij
          rw [hr] at hj
          cases hj
          exact ⟨i, r₁, getElem?_set_self hr, ha, rfl⟩
        · exact ⟨j, a, (getElem?_set_iff hr).mpr (Or.inr ⟨hij, hj⟩), ha, rfl⟩
      nodup := h.nodup
      inuse := by
        show c.nbReqInuse = ((c.tbReq.set i r₁).countP (·.inUse) : Int)
        have hsame : r₁.inUse = r.inUse := rfl
        rw [countP_set_eq hr, h.inuse, hsame]
        omega
      pending := by
        show c.nbReqPending = ((c.tbReq.set i r₁).countP (·.isSent) : Int)
        have hsame : r₁.isSent = r.isSent := rfl
        rw [countP_set_eq hr, h.pending, hsame]
        omega
      pending_le := h.pending_le
      targets := by
        intro j a hj ha
        rcases (getElem?_set_iff hr).mp hj with ⟨-, rfl⟩ | ⟨-, hj⟩
        · exact (hnull r hr ha).symm
        · exact h.targets j a hj ha }

/-- The free slots before the slot `i`. -/
def freeBelow (c : DiaClient) (i : Nat) : Nat := (c.tbReq.take i).countP fun r => !r.inUse

end DiaClient

/-- The target a request made by the macro from `preq` carries. -/
def RequestMacro.target (preq : DiaReq) : RequestMacro → TargetId
  | .create target => .uri target
  | .retrieveOrDelete => preq.targetId

/-- The target carried by the `k`-th of the requests a callback makes, when it is called with
`preq`; none if there is no such request. -/
def Completion.targetOf (preq : DiaReq) (k : Nat) : Completion → TargetId
  | .quiet => .null
  | .chain m => if k = 0 then m.target preq else .null
  | .start ms => (ms[k]?).elim .null (·.target .zero)

/-- A request made from the one in the slot `i` does not take that slot together with the target
string it holds. -/
def ChainCondition (c : DiaClient) (i : Nat) (r : DiaReq) (does : Completion) : Prop :=
  does = .chain .retrieveOrDelete → r.targetId = .null ∨ 0 < c.freeBelow i

/-- The send of the slot `i` finds its user context, when the slot is tried at all. -/
def SendCondition (answers : Nat → SendAnswer) (c : DiaClient) (i : Nat) : Prop :=
  ∀ r ∈ c.tbReq[i]?, r.waitRsp = .init → c.nbReqPending < maxPendingDia →
    answers i ≠ .contextFailed

/-- When the slot `i` is overdue, the one of the requests its callback makes that takes the slot
again, if any, carries no target. -/
def TimeoutCondition (now : Int) (does : Nat → Completion) (c : DiaClient) (i : Nat) : Prop :=
  ∀ r ∈ c.tbReq[i]?, DiaClient.DiaReq.overdue r now = true →
    (does i).targetOf r (c.freeBelow i) = .null

/-- Each pass of the sending loop finds its user context. -/
def SendsCondition (c : DiaClient) (answers : Nat → SendAnswer) : Prop :=
  Loop.Along (DiaClient.trySend answers) (SendCondition answers) c (List.range c.tbReq.length)

/-- **The condition of the table.** -/
def TableCondition (c : DiaClient) : ClientEvent → Prop
  | .flush answers =>
    0 < c.nbReqInuse ∧ c.nbReqPending < maxPendingDia → SendsCondition c answers
  | .response tid does answers =>
    -- the callback of the request that is answered may chain another one
    ∀ i ∈ c.findSent tid, ∀ r ∈ c.tbReq[i]?,
      ChainCondition c i r does ∧
        SendsCondition ((c.release i r true).completion i does) answers
  | .tic now does answers =>
    Loop.Along (DiaClient.ticSlot now does) (TimeoutCondition now does) c
        (List.range c.tbReq.length) ∧
      SendsCondition ((List.range c.tbReq.length).foldl (DiaClient.ticSlot now does) c) answers
  | _ => True

section Decidable

variable (c : DiaClient) (i : Nat)

instance (r : DiaReq) (does : Completion) : Decidable (ChainCondition c i r does) :=
  inferInstanceAs (Decidable (_ → _))

instance (answers : Nat → SendAnswer) : Decidable (SendCondition answers c i) :=
  inferInstanceAs (Decidable (∀ _ ∈ _, _))

instance (now : Int) (does : Nat → Completion) : Decidable (TimeoutCondition now does c i) :=
  inferInstanceAs (Decidable (∀ _ ∈ _, _))

instance (answers : Nat → SendAnswer) : Decidable (SendsCondition c answers) :=
  inferInstanceAs (Decidable (Loop.Along _ _ _ _))

instance : ∀ e, Decidable (TableCondition c e)
  | .timemono _ | .request _ => isTrue trivial
  | .flush _ => inferInstanceAs (Decidable (_ → _))
  | .response _ _ _ => inferInstanceAs (Decidable (∀ _ ∈ _, _))
  | .tic _ _ _ => inferInstanceAs (Decidable (_ ∧ _))

end Decidable

namespace DiaClient

section Completions

variable {i j : Nat} {m : RequestMacro} {does : Completion}

theorem firstFree_ne (h : 0 < c.freeBelow i) : c.firstFree ≠ some i := by
  obtain ⟨a, ha, hfree⟩ := List.countP_pos_iff.mp h
  obtain ⟨j, hj, hget⟩ := List.mem_iff_getElem.mp ha
  rw [List.length_take] at hj
  rw [List.getElem_take] at hget
  intro hi
  obtain ⟨hlt, -, hbefore⟩ := List.findIdx?_eq_some_iff_getElem.mp hi
  have := hbefore j (by omega)
  rw [hget] at this
  exact this hfree

theorem freeBelow_release (c : DiaClient) (i : Nat) (r : DiaReq) (pending : Bool) :
    (c.release i r pending).freeBelow i = c.freeBelow i := by
  unfold freeBelow release setSlot
  rw [List.take_set_of_le (Nat.le_refl i)]

theorem getElem?_release (hr : c.tbReq[i]? = some r) (r' : DiaReq) (pending : Bool) :
    (c.release i r' pending).tbReq[i]? = some { r' with waitRsp := .nuse } :=
  getElem?_set_self hr

theorem Sound.diaRequest_zero (h : c.Sound) (m : RequestMacro) :
    (c.diaRequest .zero none m).Sound := by
  cases m with
  | create target => exact h._WDiaInitRequest (Or.inr (Or.inl rfl))
  | retrieveOrDelete => exact h._WDiaInitRequest (Or.inl rfl)

/-- **A completion callback** keeps the table sound, unless a copied request takes the slot with
its target. -/
theorem Sound.completion (h : c.Sound)
    (hchain : does = .chain .retrieveOrDelete → ∀ r : DiaReq, c.tbReq[i]? = some r →
      r.targetId = .null ∨ 0 < c.freeBelow i) :
    (c.completion i does).Sound := by
  cases does with
  | quiet => exact h
  | start ms => exact Loop.foldl_of_forall (fun c m hc => hc.diaRequest_zero m) ms h
  | chain m =>
    unfold DiaClient.completion
    cases hr : c.tbReq[i]? with
    | none => exact h
    | some r =>
      cases m with
      | create target => exact h._WDiaInitRequest (Or.inr (Or.inl rfl))
      | retrieveOrDelete =>
        rcases hchain rfl r hr with hnull | hbelow
        · exact h._WDiaInitRequest (Or.inl hnull)
        · exact h._WDiaInitRequest (Or.inr (Or.inr (firstFree_ne hbelow).symm))

section

variable (hr : c.tbReq[j]? = some r) (huse : r.inUse = true)

include hr huse

theorem init_getElem?_inUse (req : DiaReq) (owner : Option Nat) :
    (c._WDiaInitRequest req owner).tbReq[j]? = some r := by
  unfold _WDiaInitRequest
  cases hi : c.firstFree with
  | none => exact hr
  | some i =>
    obtain ⟨r₀, hr₀, hfree⟩ := firstFree_eq_some hi
    refine (getElem?_set_ne ?_).trans hr
    rintro rfl
    rw [hr] at hr₀
    cases hr₀
    rw [huse] at hfree
    cases hfree

theorem request_getElem?_inUse (preq : DiaReq) (owner : Option Nat) (m : RequestMacro) :
    (c.diaRequest preq owner m).tbReq[j]? = some r := by
  cases m with
  | create target => exact init_getElem?_inUse hr huse _ _
  | retrieveOrDelete => exact init_getElem?_inUse hr huse _ _

theorem completion_getElem?_inUse (i : Nat) (does : Completion) :
    (c.completion i does).tbReq[j]? = some r := by
  cases does with
  | quiet => exact hr
  | start ms =>
    exact Loop.foldl_of_forall (I := fun c : DiaClient => c.tbReq[j]? = some r)
      (fun c m hc => request_getElem?_inUse hc huse _ _ m) ms hr
  | chain m =>
    unfold completion
    cases c.tbReq[i]? with
    | none => exact hr
    | some preq => exact request_getElem?_inUse hr huse _ _ m

end

/-- Which slot a request takes that is made while the slot `i` is free: one before it if there is
one, and otherwise the slot `i` itself. -/
theorem init_cases (hr : c.tbReq[i]? = some r) (hfree : r.inUse = false) (req : DiaReq)
    (owner : Option Nat) :
    (c.freeBelow i = 0 ∧ ∃ r' : DiaReq, (c._WDiaInitRequest req owner).tbReq[i]? = some r' ∧
      r'.inUse = true ∧ r'.created = req.targetId) ∨
    ∃ k, c.freeBelow i = k + 1 ∧ (c._WDiaInitRequest req owner).freeBelow i = k ∧
      (c._WDiaInitRequest req owner).tbReq[i]? = some r := by
  have hsome : c.firstFree ≠ none := by
    intro hnone
    have := findIdx?_eq_none hnone hr
    simp [hfree] at this
  obtain ⟨j, hj⟩ := Option.ne_none_iff_exists'.mp hsome
  obtain ⟨hjlt, hjfree, hbefore⟩ := List.findIdx?_eq_some_iff_getElem.mp hj
  unfold _WDiaInitRequest
  rw [hj]
  set r₁ : DiaReq := { req with
    waitRsp := .init, tid := -1, initAt := c.timemono
    targetId := if owner = some j ∧ req.targetId ≠ .null then .freed else req.targetId
    id := c.nextId, created := req.targetId }
  have huse₁ : r₁.inUse = true := rfl
  rcases Nat.lt_trichotomy j i with hlt | rfl | hgt
  · right
    have hget : (c.tbReq.take i)[j]? = some c.tbReq[j] := by
      rw [List.getElem?_take_of_lt hlt, List.getElem?_eq_getElem hjlt]
    have hpos : 0 < (c.tbReq.take i).countP fun r => !r.inUse :=
      List.countP_pos_iff.mpr ⟨_, mem_of_getElem? hget, hjfree⟩
    have hcount := @countP_set_eq _ _ _ r₁ _ (fun r : DiaReq => !r.inUse) hget
    rw [if_pos hjfree, huse₁, ← List.take_set] at hcount
    refine ⟨c.freeBelow i - 1, ?_, ?_, (getElem?_set_ne (Nat.ne_of_lt hlt)).trans hr⟩
    · unfold freeBelow
      omega
    · show ((c.tbReq.set j r₁).take i).countP (fun r => !r.inUse) =
        (c.tbReq.take i).countP (fun r => !r.inUse) - 1
      simp only [Bool.not_true, Bool.false_eq_true, if_false] at hcount
      omega
  · left
    refine ⟨?_, r₁, getElem?_set_self hr, rfl, rfl⟩
    rw [freeBelow, List.countP_eq_zero]
    intro a ha
    obtain ⟨k, hk, hget⟩ := List.mem_iff_getElem.mp ha
    rw [List.length_take] at hk
    rw [List.getElem_take] at hget
    rw [← hget]
    exact hbefore k (by omega)
  · obtain ⟨hi, hget⟩ := List.getElem?_eq_some_iff.mp hr
    have := hbefore i hgt
    rw [hget, hfree] at this
    exact absurd rfl this

theorem request_eq (c : DiaClient) (preq : DiaReq) (owner : Option Nat) (m : RequestMacro) :
    ∃ req owner', c.diaRequest preq owner m = c._WDiaInitRequest req owner' ∧
      req.targetId = m.target preq := by
  cases m with
  | create target => exact ⟨_, none, rfl, rfl⟩
  | retrieveOrDelete => exact ⟨preq, owner, rfl, rfl⟩

theorem start_free (ms : List RequestMacro) (hr : c.tbReq[i]? = some r) (hfree : r.inUse = false)
    (hnull : (Completion.start ms).targetOf r (c.freeBelow i) = .null) {r' : DiaReq}
    (hr' : (ms.foldl (fun c m => c.diaRequest .zero none m) c).tbReq[i]? = some r')
    (huse : r'.inUse = true) : r'.created = .null := by
  induction ms generalizing c with
  | nil =>
    rw [List.foldl_nil, hr] at hr'
    cases hr'
    rw [hfree] at huse
    cases huse
  | cons m ms ih =>
    obtain ⟨req, owner, heq, htarget⟩ := request_eq c .zero none m
    rw [List.foldl_cons, heq] at hr'
    rcases init_cases hr hfree req owner with ⟨hzero, r₁, hr₁, huse₁, hcreated⟩ | ⟨k, hk, hk', hsame⟩
    · have hkept := Loop.foldl_of_forall (I := fun c : DiaClient => c.tbReq[i]? = some r₁)
        (fun c m hc => request_getElem?_inUse hc huse₁ .zero none m) ms hr₁
      obtain rfl := Option.some.inj (hkept.symm.trans hr')
      rw [hzero] at hnull
      rw [hcreated, htarget]
      exact hnull
    · refine ih hsame ?_ hr'
      rw [hk] at hnull
      rw [hk']
      exact hnull

theorem completion_free (hr : c.tbReq[i]? = some r) (hfree : r.inUse = false)
    (hnull : does.targetOf r (c.freeBelow i) = .null) {r' : DiaReq}
    (hr' : (c.completion i does).tbReq[i]? = some r') (huse : r'.inUse = true) :
    r'.created = .null := by
  cases does with
  | quiet =>
    obtain rfl := Option.some.inj (hr.symm.trans hr')
    rw [hfree] at huse
    cases huse
  | start ms => exact start_free ms hr hfree hnull hr' huse
  | chain m =>
    simp only [completion, hr] at hr'
    obtain ⟨req, owner, heq, htarget⟩ := request_eq c r (some i) m
    rw [heq] at hr'
    rcases init_cases hr hfree req owner with ⟨hzero, r₁, hr₁, -, hcreated⟩ | ⟨k, -, -, hsame⟩
    · obtain rfl := Option.some.inj (hr₁.symm.trans hr')
      rw [Completion.targetOf, if_pos hzero] at hnull
      rw [hcreated, htarget, hnull]
    · obtain rfl := Option.some.inj (hsame.symm.trans hr')
      rw [hfree] at huse
      cases huse

theorem targetOf_congr {r r' : DiaReq} (h : r.targetId = r'.targetId) (k : Nat)
    (does : Completion) : does.targetOf r k = does.targetOf r' k := by
  cases does with
  | quiet => rfl
  | start ms => rfl
  | chain m =>
    cases m with
    | create target => rfl
    | retrieveOrDelete => simp only [Completion.targetOf, RequestMacro.target, h]

end Completions

section Passes

variable {i j : Nat} {does : Completion} {answers : Nat → SendAnswer}

/-- **A request not completed in time**: its slot, released, is not taken with a target. -/
theorem Sound.timeout (h : c.Sound) (hr : c.tbReq[i]? = some r) (huse : r.inUse = true)
    (hnull : does.targetOf r (c.freeBelow i) = .null) :
    (c.timeout i r r.isSent does).Sound := by
  set r' : DiaReq := { r with retry := r.retry + 1 }
  have hrel : (c.release i r' r.isSent).Sound := h.release hr huse rfl
  have hslot := getElem?_release hr r' r.isSent
  have hbelow := freeBelow_release c i r' r.isSent
  refine Sound.freeTarget (Sound.completion hrel ?_) ?_
  · rintro rfl a ha
    obtain rfl := Option.some.inj (hslot.symm.trans ha)
    rcases Nat.eq_zero_or_pos (c.freeBelow i) with hzero | hpos
    · rw [hzero] at hnull
      exact Or.inl hnull
    · exact Or.inr (hbelow ▸ hpos)
  · intro a ha hause
    refine completion_free hslot rfl ?_ ha hause
    rw [hbelow]
    exact (targetOf_congr rfl _ does).trans hnull

theorem inUse_of_overdue {now : Int} (h : DiaReq.overdue r now = true) : r.inUse = true := by
  rw [inUse_iff]
  intro hnuse
  rw [DiaReq.overdue, hnuse] at h
  cases h

theorem Sound.ticSlot (h : c.Sound) {now : Int} {does : Nat → Completion}
    (hC : TimeoutCondition now does c i) : (DiaClient.ticSlot now does c i).Sound := by
  unfold DiaClient.ticSlot
  cases hr : c.tbReq[i]? with
  | none => exact h
  | some r =>
    dsimp only
    split
    · rename_i hover
      exact h.timeout hr (inUse_of_overdue hover) (hC r hr hover)
    · exact h

theorem Sound.trySend (h : c.Sound) (hC : SendCondition answers c i) :
    (DiaClient.trySend answers c i).Sound := by
  unfold DiaClient.trySend
  cases hr : c.tbReq[i]? with
  | none => exact h
  | some r =>
    dsimp only
    split
    · rename_i hgo
      have hne := hC r hr hgo.1 hgo.2
      cases hanswer : answers i with
      | contextFailed => exact absurd hanswer hne
      | refused => exact h
      | accepted tid => exact h._WDiaAddRequest hr hgo.1 hgo.2 tid
    · exact h

theorem Sound._WDiaSendRequest (h : c.Sound) (hC : SendsCondition c answers) :
    (c._WDiaSendRequest answers).Sound :=
  Loop.foldl_of_along (I := fun c _ => Sound c) (fun _ _ _ hc hi => hc.trySend hi) h hC

theorem findSent_eq_some {tid : Int} (h : c.findSent tid = some i) :
    ∃ r, c.tbReq[i]? = some r ∧ r.isSent = true := by
  obtain ⟨r, hr, hp⟩ := findIdx?_eq_some h
  exact ⟨r, hr, by simp only [decide_eq_true_eq] at hp; exact isSent_iff.mpr hp.1⟩

/-- **The step lemma.** -/
theorem Sound.step (h : c.Sound) {e : ClientEvent} (hC : TableCondition c e) {t : DiaClient}
    (hs : c.step e = some t) : t.Sound := by
  cases e with
  | timemono now =>
    obtain rfl := Option.some.inj hs
    exact { h with }
  | request m =>
    obtain rfl := Option.some.inj hs
    exact h.diaRequest_zero m
  | flush answers =>
    obtain rfl := Option.some.inj hs
    show (c._DiaFlushRequest answers).Sound
    unfold _DiaFlushRequest
    split
    · rename_i hgo
      exact h._WDiaSendRequest (hC hgo)
    · exact h
  | response tid does answers =>
    obtain rfl := Option.some.inj hs
    show (c.cbDiaResponse tid does answers).Sound
    unfold cbDiaResponse
    cases hi : c.findSent tid with
    | none => exact h
    | some i =>
      obtain ⟨r, hr, hsent⟩ := findSent_eq_some hi
      obtain ⟨hchain, hsends⟩ := hC i hi r hr
      dsimp only
      rw [hr]
      have hrel : (c.release i r true).Sound := hsent ▸ h.release hr (inUse_of_isSent hsent) rfl
      refine Sound._WDiaSendRequest (hrel.completion fun hdoes a ha => ?_) hsends
      obtain rfl := Option.some.inj ((getElem?_release hr r true).symm.trans ha)
      rw [freeBelow_release]
      exact hchain hdoes
  | tic now does answers =>
    obtain rfl := Option.some.inj hs
    have hloop := Loop.foldl_of_along (I := fun c _ => Sound c) (fun _ _ _ hc hi => hc.ticSlot hi)
      h hC.1
    exact hloop._WDiaSendRequest hC.2

end Passes

section Completed

variable {i j : Nat} {now : Int} {does : Nat → Completion}

theorem init_called (req : DiaReq) (owner : Option Nat) :
    (c._WDiaInitRequest req owner).called = c.called := by
  unfold _WDiaInitRequest
  split <;> rfl

theorem request_called (preq : DiaReq) (owner : Option Nat) (m : RequestMacro) :
    (c.diaRequest preq owner m).called = c.called := by
  cases m with
  | create target => exact init_called _ _
  | retrieveOrDelete => exact init_called _ _

theorem completion_called (i : Nat) (does : Completion) :
    (c.completion i does).called = c.called := by
  cases does with
  | quiet => rfl
  | start ms =>
    exact Loop.foldl_of_forall (I := fun c' : DiaClient => c'.called = c.called)
      (fun c' m hc => (request_called _ _ m).trans hc) ms rfl
  | chain m =>
    unfold completion
    cases c.tbReq[i]? with
    | none => rfl
    | some preq => exact request_called _ _ m

theorem freeTarget_called (i : Nat) : (c.freeTarget i).called = c.called := by
  unfold freeTarget
  split <;> rfl

theorem timeout_called (i : Nat) (r : DiaReq) (pending : Bool) (does : Completion) :
    (c.timeout i r pending does).called = r.id :: c.called := by
  rw [timeout, freeTarget_called, completion_called]
  rfl

theorem trySend_called (answers : Nat → SendAnswer) (i : Nat) :
    (trySend answers c i).called = c.called := by
  unfold trySend
  split
  · rfl
  · split
    · unfold sendSlot
      split
      · rfl
      · rfl
      · unfold _WDiaAddRequest
        split <;> rfl
    · rfl

theorem send_called (answers : Nat → SendAnswer) :
    (c._WDiaSendRequest answers).called = c.called :=
  Loop.foldl_of_forall (I := fun c' : DiaClient => c'.called = c.called)
    (fun _ i hc => (trySend_called answers i).trans hc) _ rfl

theorem freeTarget_getElem?_ne (h : i ≠ j) : (c.freeTarget i).tbReq[j]? = c.tbReq[j]? := by
  unfold freeTarget
  split
  · rfl
  · exact getElem?_set_ne h

theorem ticSlot_getElem?_inUse (hr : c.tbReq[j]? = some r) (huse : r.inUse = true) (h : i ≠ j) :
    (ticSlot now does c i).tbReq[j]? = some r := by
  unfold ticSlot
  split
  · exact hr
  · split
    · rw [timeout, freeTarget_getElem?_ne h]
      exact completion_getElem?_inUse ((getElem?_set_ne h).trans hr) huse i _
    · exact hr

theorem subset_ticSlot_called (i : Nat) : c.called ⊆ (ticSlot now does c i).called := by
  unfold ticSlot
  split
  · exact List.Subset.refl _
  · split
    · rw [timeout_called]
      exact List.subset_cons_self _ _
    · exact List.Subset.refl _

theorem mem_ticSlot_called (hr : c.tbReq[i]? = some r) (h : DiaReq.overdue r now = true) :
    r.id ∈ (ticSlot now does c i).called := by
  unfold ticSlot
  rw [hr]
  dsimp only
  rw [if_pos h, timeout_called]
  exact List.mem_cons_self

theorem mem_foldl_ticSlot_called (hover : DiaReq.overdue r now = true) {is : List Nat}
    (h : (c.tbReq[j]? = some r ∧ j ∈ is) ∨ r.id ∈ c.called) :
    r.id ∈ (is.foldl (ticSlot now does) c).called := by
  induction is generalizing c with
  | nil =>
    rcases h with ⟨-, hj⟩ | h
    · exact absurd hj List.not_mem_nil
    · exact h
  | cons i is ih =>
    apply ih
    rcases h with ⟨hr, hj⟩ | h
    · by_cases hij : i = j
      · subst hij
        exact Or.inr (mem_ticSlot_called hr hover)
      · refine Or.inl ⟨ticSlot_getElem?_inUse hr (inUse_of_overdue hover) hij, ?_⟩
        exact (List.mem_cons.mp hj).resolve_left (Ne.symm hij)
    · exact Or.inr (subset_ticSlot_called i h)

end Completed

end DiaClient

section Runs

/-- A response whose transaction id no sent slot has changes no slot. -/
def UnmatchedIgnored (c : DiaClient) (e : ClientEvent) : Prop :=
  ∀ tid does answers, e = .response tid does answers →
    (∀ r ∈ c.tbReq, r.isSent = true → r.tid ≠ tid) → ∀ t ∈ c.step e, t.tbReq = c.tbReq

/-- A tic calls the completion callback of each request that has waited too long. -/
def OverdueCompleted (c : DiaClient) (e : ClientEvent) : Prop :=
  ∀ now does answers, e = .tic now does answers →
    ∀ r ∈ c.tbReq, DiaClient.DiaReq.overdue r now = true → ∀ t ∈ c.step e, r.id ∈ t.called

variable {e : ClientEvent}

theorem unmatchedIgnored (c : DiaClient) (e : ClientEvent) : UnmatchedIgnored c e := by
  rintro tid does answers rfl hno t ht
  obtain rfl := Option.some.inj ht
  show (c.cbDiaResponse tid does answers).tbReq = c.tbReq
  unfold DiaClient.cbDiaResponse
  cases hi : c.findSent tid with
  | none => rfl
  | some i =>
    obtain ⟨r, hr, hp⟩ := findIdx?_eq_some hi
    simp only [decide_eq_true_eq] at hp
    exact absurd hp.2 (hno r (mem_of_getElem? hr) (DiaClient.isSent_iff.mpr hp.1))

theorem overdueCompleted (c : DiaClient) (e : ClientEvent) : OverdueCompleted c e := by
  rintro now does answers rfl r hr hover t ht
  obtain rfl := Option.some.inj ht
  obtain ⟨j, hj⟩ := List.mem_iff_getElem?.mp hr
  show r.id ∈ (c._DiaClientClockSc now does answers).called
  rw [DiaClient._DiaClientClockSc, DiaClient.send_called]
  exact DiaClient.mem_foldl_ticSlot_called hover
    (Or.inl ⟨hj, List.mem_range.mpr (lt_of_getElem? hj)⟩)

theorem sound_initial (timemono : Int) : (DiaClient.initial timemono).Sound := by
  have hslot : ∀ (i : Nat) (r : DiaReq), (DiaClient.initial timemono).tbReq[i]? = some r →
      r = .zero := fun i r hr => List.eq_of_mem_replicate (mem_of_getElem? hr)
  have hfree : DiaReq.zero.inUse = false := rfl
  have hnone : ∀ {i : Nat} {r : DiaReq} {p : Prop},
      (DiaClient.initial timemono).tbReq[i]? = some r → r.inUse = true → p := by
    intro i r p hr huse
    rw [hslot i r hr, hfree] at huse
    cases huse
  exact {
    id_lt := fun i r hr huse => hnone hr huse
    sent_lt := fun id hid => absurd hid List.not_mem_nil
    called_lt := fun id hid => absurd hid List.not_mem_nil
    distinct := fun i j r r' hr hr' huse huse' hid => hnone hr huse
    uncalled := fun i r hr huse => List.not_mem_nil
    unsent := fun i r hr hinit => List.not_mem_nil
    waits := fun id hid => absurd hid List.not_mem_nil
    nodup := List.nodup_nil
    inuse := rfl
    pending := rfl
    pending_le := (by decide : (0 : Int) ≤ maxPendingDia)
    targets := fun i r hr huse => hnone hr huse }

/-- A request that is sent, and completed by a response whose callback asks for the next one. -/
def createChain : List ClientEvent :=
  [.request (.create "coap://h/scl/apps"), .flush fun _ => .accepted 7,
    .response 7 (.chain (.create "coap://h/scl/apps/A")) fun _ => .accepted 8,
    .tic 400 (fun _ => .quiet) fun _ => .refused]

/-- **The request table**: along every run from the empty table whose events meet the condition, the
counters count the slots, no more requests wait than may, each request that is sent has its callback
called exactly once, and a slot in use holds the target of its request; and in every such run a
response that matches nothing changes no slot, and a request that has waited too long is completed
by the next tic. -/
theorem table_of_condition (timemono : Int) (es : List ClientEvent)
    (h : Run.Along DiaClient.step TableCondition (DiaClient.initial timemono) es) :
    Run.Visits DiaClient.step DiaClient.TableOk (DiaClient.initial timemono) es ∧
      Run.Along DiaClient.step (fun c e => UnmatchedIgnored c e ∧ OverdueCompleted c e)
        (DiaClient.initial timemono) es := by
  have hsound := Run.visits_of_along (fun _ _ _ hc hC hs => hc.step hC hs)
    (sound_initial timemono) h
  refine ⟨Run.visits_mono (fun _ hc => hc.tableOk) hsound, ?_⟩
  exact Run.along_of_invariant (I := fun _ => True) (C := TableCondition)
    (fun c e _ _ _ _ => ⟨⟨unmatchedIgnored c e, overdueCompleted c e⟩, trivial⟩) trivial h

theorem table_createChain :
    Run.Visits DiaClient.step DiaClient.TableOk (DiaClient.initial 0) createChain ∧
      Run.Along DiaClient.step (fun c e => UnmatchedIgnored c e ∧ OverdueCompleted c e)
        (DiaClient.initial 0) createChain :=
  table_of_condition 0 createChain (by decide +kernel)

/-- A send that does not find its user context. -/
def lostContext : List ClientEvent :=
  [.request (.create "coap://h/scl/apps"), .flush fun _ => .contextFailed]

/-- A request that times out, and whose callback makes the same request once more. -/
def retriedTimeout : List ClientEvent :=
  [.request (.create "coap://h/scl/apps"), .flush fun _ => .accepted 7,
    .tic 400 (fun _ => .chain (.create "coap://h/scl/apps")) fun _ => .refused]

/-- A request that succeeds, and whose callback then retrieves another resource. -/
def createThenRetrieve : List ClientEvent :=
  [.request (.create "coap://h/scl/apps"), .flush fun _ => .accepted 7,
    .response 7 (.chain .retrieveOrDelete) fun _ => .refused]

theorem targets_of_visits {c : DiaClient} {es : List ClientEvent}
    (h : Run.Visits DiaClient.step DiaClient.TableOk c es) :
    (Run.exec DiaClient.step c es).all (fun t => t.tbReq.all fun r =>
      !r.inUse || r.targetId = r.created) = true := by
  rw [Option.all_eq_true]
  intro t ht
  rw [List.all_eq_true]
  intro r hr
  cases huse : r.inUse with
  | false => rfl
  | true => simpa using (Run.visits_exec h ht).targets r hr huse

/-- The counter keeps a request whose slot is free; the target of the request made in the place of
the one that timed out is freed with it; and a request copied from a completed one copies a string
that has just been freed. -/
theorem table_broken :
    ¬Run.Visits DiaClient.step DiaClient.TableOk (DiaClient.initial 0) lostContext ∧
    ¬Run.Visits DiaClient.step DiaClient.TableOk (DiaClient.initial 0) retriedTimeout ∧
    ¬Run.Visits DiaClient.step DiaClient.TableOk (DiaClient.initial 0) createThenRetrieve := by
  refine ⟨fun h => ?_, fun h => ?_, fun h => ?_⟩
  · exact absurd (Run.visits_exec h rfl).inuse (by decide +kernel)
  · exact absurd (targets_of_visits h) (by decide +kernel)
  · exact absurd (targets_of_visits h) (by decide +kernel)

end Runs

end Ong.DrvCommon
