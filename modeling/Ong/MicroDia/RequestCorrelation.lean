import Mathlib.Data.List.Nodup
import Ong.Lib.Slots
import Ong.MicroDia.RequestTable

/-!
# The request table over whole runs

The list follows the slots, each accepted request is completed once, and none is sent again more
often than it may, as long as the searches find what they should: a slot in use for a message that
comes in, no slot of the application's own for a request received or recycled, and no buffer of an
earlier request in a slot the timer sends from.

## Main results

* `Sound.edit`, `Sound.take`, `Sound.claim`, `Sound.free`: what the operations on a slot preserve
* `correlation_of_condition`: the contract over whole runs
-/

namespace Ong.MicroDia

open Slots

namespace RequestTable

/-- The slot is in use for the request of the application's. -/
def worksFor (id : Nat) (r : DiaRequest) : Bool := r.inlist && r.owner = some id

/-- **The contract of the table**: the list holds the slots in use, each once; an accepted request
has a slot, or has had one of its two callbacks, once; and none was sent again too often. -/
structure TableOk (s : RequestTable) : Prop where
  safe : s.wild = false
  nodup : s.reqList.Nodup
  listed : ∀ i, i ∈ s.reqList ↔ ∃ r, s.gRequests[i]? = some r ∧ r.inlist = true
  once : ∀ id, s.responded.count (some id) + s.errored.count (some id) +
    s.gRequests.countP (worksFor id) = if id < s.nextId then 1 else 0
  resent : ∀ id, s.retransmitted.count id ≤ coapDefaultMaxRetransmit

/-- A response that matches no request of the application's, and an acknowledgement that matches no
slot in use, change nothing. -/
def UnmatchedIgnored (s : RequestTable) : RequestEvent → Prop
  | .response token =>
    (∀ r ∈ s.gRequests, r.isClient = true → r.dia_tid ≠ token.getD 0) → s.hnd_response token = s
  | .ack coap_tid =>
    (∀ r ∈ s.gRequests, r.inlist = true → r.coap_tid ≠ coap_tid) → s.hnd_ack coap_tid = s
  | _ => True

/-- What the slot holds, if the search found one. -/
def slotAt (s : RequestTable) (i : Option Nat) : Option DiaRequest := i.bind (s.gRequests[·]?)

/-- The buffer of a slot that does not work for the application holds no request of its. -/
def resendsOwn (now : Int) (r : DiaRequest) : Bool :=
  !(isDue now r && r.cnt < coapDefaultMaxRetransmit && r.owner.isNone) || (Raw.sent r.raw).isEmpty

/-- **The events on which the table keeps its contract.** -/
def SearchCondition (s : RequestTable) : RequestEvent → Bool
  -- the slot taken does not work for the application
  | .diaRequest now _ => (s.slotAt (s.allocIndex now)).all (!·.isClient)
  | .diaResponse _ => true
  -- nor does the one that has the message id of a request received
  | .request now _ coap_tid _ =>
    (s.slotAt ((s.find_request_by_coap_tid coap_tid).or (s.allocIndex now))).all (!·.isClient)
  -- the transaction id of a response is one of the application's
  | .response token => (s.slotAt (s.find_request_by_dia_tid (token.getD 0))).all (·.isClient)
  -- the message id acknowledged is one in use, and no request of the application's has lost its id
  | .ack coap_tid =>
    (s.slotAt (s.find_request_by_coap_tid coap_tid)).all fun r =>
      r.inlist && (r.owner.isNone || r.dia_tid ≠ 0)
  | .timer now => s.gRequests.all (resendsOwn now)

/-- A slot in use: the count of its timer; and, when it works for the application, a request that
exists, has a callback, is the one in the buffer, and has been sent again as often as counted. -/
structure SlotOk (nextId : Nat) (resent : List Nat) (r : DiaRequest) : Prop where
  cnt_le : r.cnt ≤ coapDefaultMaxRetransmit
  owner_lt : ∀ id, r.owner = some id → id < nextId
  typed : ∀ id, r.owner = some id → r.typeReq.isSome = true
  buffer : ∀ id id', r.owner = some id → r.raw = .request id' → id' = id
  counted : ∀ id, r.owner = some id → resent.count id ≤ r.cnt

/-- What the events preserve. -/
structure Sound (s : RequestTable) : Prop extends TableOk s where
  slots : ∀ (i : Nat) (r : DiaRequest), s.gRequests[i]? = some r → r.inlist = true →
    SlotOk s.nextId s.retransmitted r
  distinct : ∀ (i j : Nat) (r r' : DiaRequest) (id : Nat), s.gRequests[i]? = some r →
    s.gRequests[j]? = some r' → worksFor id r = true → worksFor id r' = true → i = j
  fresh : ∀ id, s.nextId ≤ id → s.retransmitted.count id = 0

variable {s t : RequestTable} {i : Nat} {r r' : DiaRequest}

theorem worksFor_iff {id : Nat} : worksFor id r = true ↔ r.inlist = true ∧ r.owner = some id := by
  simp [worksFor]

theorem isClient_iff : r.isClient = true ↔ ∃ id, worksFor id r = true := by
  simp [DiaRequest.isClient, worksFor, Option.isSome_iff_exists]

theorem not_worksFor (h : r.isClient = false) (id : Nat) : worksFor id r = false := by
  rw [Bool.eq_false_iff]
  intro hw
  rw [isClient_iff.mpr ⟨id, hw⟩] at h
  cases h

theorem worksFor_of_owner_none (h : r.owner = none) (id : Nat) : worksFor id r = false := by
  simp [worksFor, h]

theorem SlotOk.of_owner_none {nextId : Nat} {resent : List Nat}
    (hcnt : r.cnt ≤ coapDefaultMaxRetransmit) (h : r.owner = none) : SlotOk nextId resent r where
  cnt_le := hcnt
  owner_lt := fun id hid => by rw [h] at hid; cases hid
  typed := fun id hid => by rw [h] at hid; cases hid
  buffer := fun id _ hid => by rw [h] at hid; cases hid
  counted := fun id hid => by rw [h] at hid; cases hid

theorem Sound.counters (h : s.Sound) (c d : Nat) :
    ({ s with coap_tid := c, dia_tid := d } : RequestTable).Sound where
  safe := h.safe
  nodup := h.nodup
  listed := h.listed
  once := h.once
  resent := h.resent
  slots := h.slots
  distinct := h.distinct
  fresh := h.fresh

section

variable (h : s.Sound) (hr : s.gRequests[i]? = some r)

include h hr

/-- **An edit of a slot** that leaves it in use, or free, and working for whom it did. -/
theorem Sound.edit (hin : r'.inlist = r.inlist) (hown : r.inlist = true → r'.owner = r.owner)
    (hok : r.inlist = true → SlotOk s.nextId s.retransmitted r') : (s.setSlot i r').Sound := by
  have hworks : ∀ id, worksFor id r' = worksFor id r := by
    intro id
    cases hrin : r.inlist with
    | false => simp [worksFor, hin, hrin]
    | true => simp [worksFor, hin, hrin, hown hrin]
  have hback : ∀ (j : Nat) (q : DiaRequest) (id : Nat), (s.gRequests.set i r')[j]? = some q →
      worksFor id q = true → ∃ q', s.gRequests[j]? = some q' ∧ worksFor id q' = true := by
    intro j q id hq hw
    rcases (getElem?_set_iff hr).mp hq with ⟨rfl, rfl⟩ | ⟨-, hq⟩
    · exact ⟨r, hr, by rw [← hworks, hw]⟩
    · exact ⟨q, hq, hw⟩
  refine ⟨⟨h.safe, h.nodup, fun j => ?_, fun id => ?_, h.resent⟩, fun j q hq hqin => ?_,
    fun j k q q' id hq hq' hw hw' => ?_, h.fresh⟩
  · exact (h.listed j).trans (exists_set_iff (P := (·.inlist = true)) hr (by rw [hin])).symm
  · have hcount := countP_set_eq (b := r') (p := worksFor id) hr
    rw [hworks] at hcount
    have honce := h.once id
    show s.responded.count (some id) + s.errored.count (some id) +
      (s.gRequests.set i r').countP (worksFor id) = if id < s.nextId then 1 else 0
    omega
  · rcases (getElem?_set_iff hr).mp hq with ⟨rfl, rfl⟩ | ⟨-, hq⟩
    · exact hok (by rw [← hin, hqin])
    · exact h.slots j q hq hqin
  · obtain ⟨p, hp, hwp⟩ := hback j q id hq hw
    obtain ⟨p', hp', hwp'⟩ := hback k q' id hq' hw'
    exact h.distinct j k p p' id hp hp' hwp hwp'

/-- **A slot taken** for nobody yet, out of the list or from nobody. -/
theorem Sound.take (hfree : r.isClient = false) (hin : r'.inlist = true) (hown : r'.owner = none)
    (hcnt : r'.cnt = 0) :
    (if r.inlist then s.setSlot i r'
      else { s.setSlot i r' with reqList := s.reqList ++ [i] }).Sound := by
  have hok : SlotOk s.nextId s.retransmitted r' :=
    .of_owner_none (by rw [hcnt]; exact Nat.zero_le _) hown
  by_cases hrin : r.inlist = true
  · rw [if_pos hrin]
    have hrown : r.owner = none := by
      simpa [DiaRequest.isClient, hrin] using hfree
    exact h.edit hr (hin.trans hrin.symm) (fun _ => hown.trans hrown.symm) fun _ => hok
  · rw [if_neg hrin]
    have hnone : ∀ id, worksFor id r' = false := worksFor_of_owner_none hown
    have hnotin : i ∉ s.reqList := by
      intro hi
      obtain ⟨q, hq, hqin⟩ := (h.listed i).mp hi
      obtain rfl : q = r := Option.some.inj (hq.symm.trans hr)
      exact hrin hqin
    refine ⟨⟨h.safe, List.nodup_append.mpr ⟨h.nodup, List.nodup_singleton i, ?_⟩, fun j => ?_,
      fun id => ?_, h.resent⟩, fun j q hq hqin => ?_, fun j k q q' id hq hq' hw hw' => ?_, h.fresh⟩
    · rintro a ha b hb rfl
      rw [List.mem_singleton] at hb
      exact hnotin (hb ▸ ha)
    · rw [List.mem_append, List.mem_singleton, h.listed]
      constructor
      · rintro (⟨q, hq, hqin⟩ | rfl)
        · have hij : i ≠ j := by
            rintro rfl
            obtain rfl : q = r := Option.some.inj (hq.symm.trans hr)
            exact hrin hqin
          exact ⟨q, (getElem?_set_iff hr).mpr (Or.inr ⟨hij, hq⟩), hqin⟩
        · exact ⟨r', (getElem?_set_iff hr).mpr (Or.inl ⟨rfl, rfl⟩), hin⟩
      · rintro ⟨q, hq, hqin⟩
        rcases (getElem?_set_iff hr).mp hq with ⟨rfl, rfl⟩ | ⟨-, hq⟩
        · exact Or.inr rfl
        · exact Or.inl ⟨q, hq, hqin⟩
    · have hcount := countP_set_eq (b := r') (p := worksFor id) hr
      rw [not_worksFor hfree, hnone] at hcount
      have honce := h.once id
      show s.responded.count (some id) + s.errored.count (some id) +
      (s.gRequests.set i r').countP (worksFor id) = if id < s.nextId then 1 else 0
      omega
    · rcases (getElem?_set_iff hr).mp hq with ⟨rfl, rfl⟩ | ⟨-, hq⟩
      · exact hok
      · exact h.slots j q hq hqin
    · rcases (getElem?_set_iff hr).mp hq with ⟨rfl, rfl⟩ | ⟨-, hq⟩
      · rw [hnone] at hw
        cases hw
      · rcases (getElem?_set_iff hr).mp hq' with ⟨rfl, rfl⟩ | ⟨-, hq'⟩
        · rw [hnone] at hw'
          cases hw'
        · exact h.distinct j k q q' id hq hq' hw hw'

/-- **A slot given to a new request** of the application's, after it was taken. -/
theorem Sound.claim (hin : r.inlist = true) (hown : r.owner = none) (hcnt : r.cnt = 0) (c : Nat)
    (d : Int) (type : Method) :
    ({ s.setSlot i { r with
        typeReq := some type, coap_tid := c, dia_tid := d, raw := .request s.nextId
        owner := some s.nextId } with nextId := s.nextId + 1 } : RequestTable).Sound := by
  set r' : DiaRequest := { r with
    typeReq := some type, coap_tid := c, dia_tid := d, raw := .request s.nextId
    owner := some s.nextId }
  have hworks : ∀ id, worksFor id r' = decide (s.nextId = id) := by
    intro id
    simp [worksFor, r', hin]
  have hnew : ∀ (j : Nat) (q : DiaRequest), s.gRequests[j]? = some q →
      worksFor s.nextId q = false := by
    intro j q hq
    rw [Bool.eq_false_iff]
    intro hw
    obtain ⟨hqin, hqown⟩ := worksFor_iff.mp hw
    exact Nat.lt_irrefl _ ((h.slots j q hq hqin).owner_lt _ hqown)
  refine ⟨⟨h.safe, h.nodup, fun j => ?_, fun id => ?_, h.resent⟩, fun j q hq hqin => ?_,
    fun j k q q' id hq hq' hw hw' => ?_, fun id hid => h.fresh id (Nat.le_of_succ_le hid)⟩
  · exact (h.listed j).trans (exists_set_iff (P := (·.inlist = true)) (b := r') hr Iff.rfl).symm
  · have hcount := countP_set_eq (b := r') (p := worksFor id) hr
    rw [hworks, worksFor_of_owner_none hown] at hcount
    simp only [Bool.false_eq_true, if_false, decide_eq_true_eq] at hcount
    have honce := h.once id
    show s.responded.count (some id) + s.errored.count (some id) +
      (s.gRequests.set i r').countP (worksFor id) = if id < s.nextId + 1 then 1 else 0
    split at hcount <;> split at honce <;> split <;> omega
  · rcases (getElem?_set_iff hr).mp hq with ⟨rfl, rfl⟩ | ⟨-, hq⟩
    · refine ⟨by rw [show r'.cnt = 0 from hcnt]; exact Nat.zero_le _, fun id hid => ?_,
        fun _ _ => rfl, fun id id' hid hraw => ?_, fun id hid => ?_⟩ <;> cases hid
      · exact Nat.lt_succ_self _
      · cases hraw
        rfl
      · exact Nat.le_trans (Nat.le_of_eq (h.fresh _ (Nat.le_refl _))) (Nat.zero_le _)
    · have hold := h.slots j q hq hqin
      exact ⟨hold.cnt_le, fun id hid => Nat.lt_succ_of_lt (hold.owner_lt id hid), hold.typed,
        hold.buffer, hold.counted⟩
  · rcases (getElem?_set_iff hr).mp hq with ⟨rfl, rfl⟩ | ⟨-, hq⟩ <;>
      rcases (getElem?_set_iff hr).mp hq' with ⟨rfl, rfl⟩ | ⟨-, hq'⟩
    · rfl
    · rw [hworks, decide_eq_true_eq] at hw
      rw [← hw, hnew k q' hq'] at hw'
      cases hw'
    · rw [hworks, decide_eq_true_eq] at hw'
      rw [← hw', hnew j q hq] at hw
      cases hw
    · exact h.distinct j k q q' id hq hq' hw hw'

end

/-- **A slot freed** that was in use, when the one it works for has had a callback. -/
theorem Sound.free (h : s.Sound) (hr : s.gRequests[i]? = some r) (hin : r.inlist = true)
    (resp err : List (Option Nat)) (hcb : ∀ id, resp.count (some id) + err.count (some id) =
      s.responded.count (some id) + s.errored.count (some id) +
        if r.owner = some id then 1 else 0) :
    ({ s with responded := resp, errored := err }.free_request i r : RequestTable).Sound := by
  set r' : DiaRequest :=
    { r with coap_tid := 0, dia_tid := 0, when := 0, cnt := 0, inlist := false }
  have hmem : i ∈ s.reqList := (h.listed i).mpr ⟨r, hr, hin⟩
  have heq : ({ s with responded := resp, errored := err } : RequestTable).free_request i r =
      { s with
        gRequests := s.gRequests.set i r', reqList := s.reqList.erase i
        responded := resp, errored := err } := by
    show (if i ∈ s.reqList then _ else _) = _
    rw [if_pos hmem]
    rfl
  rw [heq]
  have hback : ∀ (j : Nat) (q : DiaRequest), (s.gRequests.set i r')[j]? = some q →
      q.inlist = true → i ≠ j ∧ s.gRequests[j]? = some q := by
    intro j q hq hqin
    rcases (getElem?_set_iff hr).mp hq with ⟨-, rfl⟩ | hother
    · cases hqin
    · exact hother
  refine ⟨⟨h.safe, h.nodup.erase i, fun j => ?_, fun id => ?_, h.resent⟩, fun j q hq hqin => ?_,
    fun j k q q' id hq hq' hw hw' => ?_, h.fresh⟩
  · show j ∈ s.reqList.erase i ↔ _
    rw [h.nodup.mem_erase_iff, h.listed]
    constructor
    · rintro ⟨hji, q, hq, hqin⟩
      exact ⟨q, (getElem?_set_iff hr).mpr (Or.inr ⟨Ne.symm hji, hq⟩), hqin⟩
    · rintro ⟨q, hq, hqin⟩
      obtain ⟨hij, hq⟩ := hback j q hq hqin
      exact ⟨Ne.symm hij, q, hq, hqin⟩
  · have hcount := countP_set_eq (b := r') (p := worksFor id) hr
    have hgone : worksFor id r' = false := rfl
    have howner : worksFor id r = decide (r.owner = some id) := by simp [worksFor, hin]
    rw [hgone, howner] at hcount
    simp only [Bool.false_eq_true, if_false, decide_eq_true_eq] at hcount
    have honce := h.once id
    have hid := hcb id
    show resp.count (some id) + err.count (some id) +
      (s.gRequests.set i r').countP (worksFor id) = if id < s.nextId then 1 else 0
    split at hcount <;> rename_i hown <;> simp only [hown, if_true, if_false] at hid <;> omega
  · exact h.slots j q (hback j q hq hqin).2 hqin
  · exact h.distinct j k q q' id (hback j q hq (worksFor_iff.mp hw).1).2
      (hback k q' hq' (worksFor_iff.mp hw').1).2 hw hw'

/-- **A slot sent again**, whose buffer holds no request but its own. -/
theorem Sound.resend (h : s.Sound) (hr : s.gRequests[i]? = some r) (hin : r.inlist = true)
    (hcnt : r.cnt < coapDefaultMaxRetransmit)
    (hown : r.owner = none → Raw.sent r.raw = []) (now : Int) :
    ({ s.setSlot i { r with cnt := r.cnt + 1, when := now } with
      retransmitted := s.retransmitted ++ Raw.sent r.raw } : RequestTable).Sound := by
  set r' : DiaRequest := { r with cnt := r.cnt + 1, when := now }
  have hok := h.slots i r hr hin
  have hsent : ∀ id, (Raw.sent r.raw).count id ≤ if r.owner = some id then 1 else 0 := by
    intro id
    cases hraw : r.raw with
    | empty | response => exact Nat.zero_le _
    | request id' =>
      cases howner : r.owner with
      | none =>
        have := hown howner
        rw [hraw] at this
        cases this
      | some id₀ =>
        rw [hok.buffer id₀ id' howner hraw, Raw.sent, List.count_singleton]
        simp only [beq_iff_eq, Option.some.injEq]
        exact Nat.le_refl _
  have hother : ∀ id, r.owner ≠ some id →
      (s.retransmitted ++ Raw.sent r.raw).count id = s.retransmitted.count id := by
    intro id hne
    have := hsent id
    rw [if_neg hne] at this
    rw [List.count_append]
    omega
  have hsame : ∀ id, r.owner = some id →
      (s.retransmitted ++ Raw.sent r.raw).count id ≤ r.cnt + 1 := by
    intro id hid
    have hle := hsent id
    have hcounted := hok.counted id hid
    rw [if_pos hid] at hle
    rw [List.count_append]
    omega
  have hedit : (s.setSlot i r').Sound := by
    refine h.edit hr rfl (fun _ => rfl) fun _ => ⟨hcnt, hok.owner_lt, hok.typed, hok.buffer, ?_⟩
    exact fun id hid => Nat.le_succ_of_le (hok.counted id hid)
  refine ⟨⟨hedit.safe, hedit.nodup, hedit.listed, hedit.once, fun id => ?_⟩, fun j q hq hqin => ?_,
    hedit.distinct, fun id hid => ?_⟩
  · by_cases hid : r.owner = some id
    · exact Nat.le_trans (hsame id hid) hcnt
    · exact Nat.le_trans (Nat.le_of_eq (hother id hid)) (h.resent id)
  · rcases (getElem?_set_iff hr).mp hq with ⟨rfl, rfl⟩ | ⟨hij, hq⟩
    · exact ⟨hcnt, hok.owner_lt, hok.typed, hok.buffer, hsame⟩
    · have hold := h.slots j q hq hqin
      refine ⟨hold.cnt_le, hold.owner_lt, hold.typed, hold.buffer, fun id hid => ?_⟩
      have hne : r.owner ≠ some id := by
        intro howner
        exact hij (h.distinct i j r q id hr hq (worksFor_iff.mpr ⟨hin, howner⟩)
          (worksFor_iff.mpr ⟨hqin, hid⟩))
      exact Nat.le_trans (Nat.le_of_eq (hother id hne)) (hold.counted id hid)
  · have hne : r.owner ≠ some id := fun howner =>
      absurd (hok.owner_lt id howner) (Nat.not_lt.mpr hid)
    exact (hother id hne).trans (h.fresh id hid)

theorem findIdx?_slot {p : DiaRequest → Bool} (h : s.gRequests.findIdx? p = some i) :
    ∃ r, s.gRequests[i]? = some r ∧ p r = true ∧ s.slotAt (s.gRequests.findIdx? p) = some r := by
  obtain ⟨r, hr, hp⟩ := findIdx?_eq_some h
  exact ⟨r, hr, hp, by rw [h]; exact hr⟩

section

variable (h : s.Sound) {now : Int} {coap_tid : Nat} {token : Option Int}

include h

theorem Sound.alloc (hc : (s.slotAt (s.allocIndex now)).all (!·.isClient) = true)
    (ha : s.alloc_request now = some (i, t)) :
    t.Sound ∧ t.nextId = s.nextId ∧ ∃ r, t.gRequests[i]? = some r ∧ r.inlist = true ∧ r.cnt = 0 ∧
      r.owner = none := by
  cases hi : s.allocIndex now with
  | none =>
    simp only [alloc_request, hi] at ha
    cases ha
  | some j =>
    obtain ⟨r, hr, -, hslot⟩ := findIdx?_slot hi
    simp only [alloc_request, hi, hr, Option.map_some, Option.some.injEq, Prod.mk.injEq] at ha
    obtain ⟨rfl, rfl⟩ := ha
    have hfree : r.isClient = false := by
      rw [allocIndex, hslot] at hc
      simpa using hc
    refine ⟨h.take hr hfree rfl rfl rfl, ?_,
      { r with cnt := 0, when := now, inlist := true, owner := none }, ?_, rfl, rfl, rfl⟩
    · split <;> rfl
    · split <;> exact getElem?_set_self hr

/-- **A request of the application's.** -/
theorem Sound.diaRequest {type : Method} (hc : s.SearchCondition (.diaRequest now type) = true) :
    (s.diaRequest now type).Sound := by
  unfold RequestTable.diaRequest
  cases ha : s.alloc_request now with
  | none => exact h
  | some p =>
    obtain ⟨ht, hnext, r, hr, hin, hcnt, hown⟩ := h.alloc hc ha
    simp only [hr]
    have hclaim := ht.claim hr hin hown hcnt s.newCoapTid s.newDiaTid type
    rw [hnext] at hclaim
    exact hclaim.counters _ _

theorem Sound.diaResponse (tid : Int) : (s.diaResponse tid).Sound := by
  unfold RequestTable.diaResponse
  cases hi : s.find_request_by_dia_tid tid with
  | none => exact h
  | some i =>
    obtain ⟨r, hr, -⟩ := findIdx?_slot hi
    simp only [hr]
    have hedit : (s.setSlot i
        { r with coap_tid := s.newCoapTid, dia_tid := 0, raw := .response }).Sound := by
      refine h.edit hr rfl (fun _ => rfl) fun hin => ?_
      have hok := h.slots i r hr hin
      exact ⟨hok.cnt_le, hok.owner_lt, hok.typed, fun _ _ _ hraw => Raw.noConfusion hraw,
        hok.counted⟩
    exact hedit.counters _ _

/-- **A request received.** -/
theorem Sound.hnd_request {code : Method}
    (hc : s.SearchCondition (.request now code coap_tid token) = true) :
    (s.hnd_request now code coap_tid token).Sound := by
  unfold RequestTable.hnd_request requestSlot
  simp only [SearchCondition] at hc
  cases hi : s.find_request_by_coap_tid coap_tid with
  | some i =>
    obtain ⟨r, hr, -⟩ := findIdx?_slot hi
    have hfree : r.isClient = false := by
      rw [hi, Option.some_or, show s.slotAt (some i) = some r from hr] at hc
      simpa using hc
    simp only [hr]
    refine h.edit hr rfl (fun hin => ?_) fun hin => .of_owner_none (h.slots i r hr hin).cnt_le rfl
    have hnone : r.owner = none := by simpa [DiaRequest.isClient, hin] using hfree
    exact hnone.symm
  | none =>
    rw [hi, Option.none_or] at hc
    cases ha : s.alloc_request now with
    | none => exact h
    | some p =>
      obtain ⟨ht, -, r, hr, hin, hcnt, hown⟩ := h.alloc hc ha
      simp only [hr]
      exact ht.edit hr rfl (fun _ => hown.symm) fun _ =>
        .of_owner_none (by rw [hcnt]; exact Nat.zero_le _) rfl

/-- **A response received** leaves the table as it is, or completes a request of the
application's. -/
theorem Sound.hnd_response (hc : s.SearchCondition (.response token) = true) :
    (s.hnd_response token).Sound := by
  unfold RequestTable.hnd_response
  cases hi : s.find_request_by_dia_tid (token.getD 0) with
  | none => exact h
  | some i =>
    obtain ⟨r, hr, -, hslot⟩ := findIdx?_slot hi
    have hclient : r.isClient = true := by
      simp only [SearchCondition] at hc
      rw [find_request_by_dia_tid, hslot] at hc
      exact hc
    obtain ⟨id, hw⟩ := isClient_iff.mp hclient
    obtain ⟨hin, hown⟩ := worksFor_iff.mp hw
    simp only [hr, (h.slots i r hr hin).typed id hown, if_true]
    exact h.free hr hin (s.responded ++ [r.owner]) s.errored fun id' => by
      rw [List.count_append, List.count_singleton]
      simp only [beq_iff_eq]
      omega

/-- **An acknowledgement** of what is in use. -/
theorem Sound.hnd_ack (hc : s.SearchCondition (.ack coap_tid) = true) :
    (s.hnd_ack coap_tid).Sound := by
  unfold RequestTable.hnd_ack
  cases hi : s.find_request_by_coap_tid coap_tid with
  | none => exact h
  | some i =>
    obtain ⟨r, hr, -, hslot⟩ := findIdx?_slot hi
    have hused : r.inlist = true ∧ (r.owner = none ∨ r.dia_tid ≠ 0) := by
      simp only [SearchCondition] at hc
      rw [find_request_by_coap_tid, hslot] at hc
      simpa using hc
    obtain ⟨hin, hids⟩ := hused
    have hok := h.slots i r hr hin
    have hacked : (s.setSlot i { r with coap_tid := 0 }).Sound :=
      h.edit hr rfl (fun _ => rfl) fun _ =>
        ⟨hok.cnt_le, hok.owner_lt, hok.typed, hok.buffer, hok.counted⟩
    simp only [hr]
    split
    · rename_i hzero
      have hnone : r.owner = none := hids.resolve_right (not_not_intro hzero)
      exact hacked.free (getElem?_set_self hr) hin s.responded s.errored
        fun id => by
          rw [hnone, if_neg (Option.some_ne_none id).symm]
          rfl
    · exact hacked

theorem Sound.timerPass (hc : ∀ r, s.gRequests[i]? = some r → resendsOwn now r = true) :
    (timerPass now s i).Sound := by
  unfold RequestTable.timerPass
  cases hr : s.gRequests[i]? with
  | none => exact h
  | some r =>
    dsimp only
    split
    · rename_i hdue
      have hin : r.inlist = true := by
        simp only [isDue, Bool.and_eq_true] at hdue
        exact hdue.1
      split
      · rename_i hcnt
        refine h.resend hr hin hcnt (fun hown => ?_) now
        have hbuf := hc r hr
        simpa [resendsOwn, hdue, hcnt, hown] using hbuf
      · exact h.free hr hin s.responded (s.errored ++ [r.owner]) fun id => by
          rw [List.count_append, List.count_singleton]
          simp only [beq_iff_eq]
          omega
    · exact h

end

theorem free_request_gRequests : (s.free_request i r).gRequests = s.gRequests.set i
    { r with coap_tid := 0, dia_tid := 0, when := 0, cnt := 0, inlist := false } := by
  unfold free_request list_del
  split <;> rfl

theorem timerPass_other {now : Int} {j : Nat} (hij : i ≠ j) :
    (timerPass now s i).gRequests[j]? = s.gRequests[j]? := by
  unfold timerPass
  cases hr : s.gRequests[i]? with
  | none => rfl
  | some r =>
    dsimp only
    split
    · split
      · exact getElem?_set_ne hij
      · rw [free_request_gRequests]
        exact getElem?_set_ne hij
    · rfl

/-- **The timer**, when no slot that works for a peer holds a request of the application's. -/
theorem Sound.timer (h : s.Sound) {now : Int}
    (hc : s.SearchCondition (.timer now) = true) : (s.dIa_nextTimer now).Sound := by
  have hall : ∀ i ∈ List.range coapMaxRequests, ∀ r, s.gRequests[i]? = some r →
      resendsOwn now r = true := by
    intro i _ r hr
    exact List.all_eq_true.mp hc r (mem_of_getElem? hr)
  suffices hloop : ∀ is : List Nat, is.Nodup → ∀ s : RequestTable, s.Sound →
      (∀ i ∈ is, ∀ r, s.gRequests[i]? = some r → resendsOwn now r = true) →
      (is.foldl (RequestTable.timerPass now) s).Sound from
    hloop _ List.nodup_range s h hall
  intro is
  induction is with
  | nil => exact fun _ _ hs _ => hs
  | cons i is ih =>
    intro hnodup s hs hcs
    obtain ⟨hnotin, hnodup'⟩ := List.nodup_cons.mp hnodup
    refine ih hnodup' _ (hs.timerPass (hcs i List.mem_cons_self)) fun j hj r hr => ?_
    have hij : i ≠ j := fun hij => hnotin (hij ▸ hj)
    rw [timerPass_other hij] at hr
    exact hcs j (List.mem_cons_of_mem _ hj) r hr

theorem Sound.init (coap_tid dia_tid : Nat) : (dia_createContext coap_tid dia_tid).Sound := by
  have hzero : ∀ (i : Nat) (r : DiaRequest),
      (dia_createContext coap_tid dia_tid).gRequests[i]? = some r → r = .zero :=
    fun i r hr => List.eq_of_mem_replicate (mem_of_getElem? hr)
  have hunused : ∀ (i : Nat) (r : DiaRequest),
      (dia_createContext coap_tid dia_tid).gRequests[i]? = some r → r.inlist ≠ true := by
    intro i r hr hin
    rw [hzero i r hr] at hin
    cases hin
  refine ⟨⟨rfl, List.nodup_nil, fun i => ?_, fun id => ?_, fun _ => Nat.zero_le _⟩,
    fun i r hr hin => absurd hin (hunused i r hr),
    fun i _ r _ _ hr _ hw => absurd (worksFor_iff.mp hw).1 (hunused i r hr), fun _ _ => rfl⟩
  · exact ⟨fun hi => absurd hi List.not_mem_nil, fun ⟨r, hr, hin⟩ => absurd hin (hunused i r hr)⟩
  · rfl

/-- **One event** that meets the condition. -/
theorem Sound.step (h : s.Sound) {e : RequestEvent} (hc : s.SearchCondition e = true)
    (ht : s.step e = some t) : t.Sound := by
  cases e with
  | diaRequest now type =>
    obtain rfl := Option.some.inj ht
    exact h.diaRequest hc
  | diaResponse tid =>
    obtain rfl := Option.some.inj ht
    exact h.diaResponse tid
  | request now code coap_tid token =>
    obtain rfl := Option.some.inj ht
    exact h.hnd_request hc
  | response token =>
    obtain rfl := Option.some.inj ht
    exact h.hnd_response hc
  | ack coap_tid =>
    obtain rfl := Option.some.inj ht
    exact h.hnd_ack hc
  | timer now =>
    obtain rfl := Option.some.inj ht
    exact h.timer hc

theorem unmatchedIgnored {e : RequestEvent} (hc : s.SearchCondition e = true) :
    s.UnmatchedIgnored e := by
  cases e with
  | response token =>
    intro hno
    unfold RequestTable.hnd_response
    cases hi : s.find_request_by_dia_tid (token.getD 0) with
    | none => rfl
    | some i =>
      obtain ⟨r, hr, hp, hslot⟩ := findIdx?_slot hi
      simp only [SearchCondition] at hc
      rw [find_request_by_dia_tid, hslot] at hc
      exact absurd (by simpa using hp) (hno r (mem_of_getElem? hr) hc)
  | ack coap_tid =>
    intro hno
    unfold RequestTable.hnd_ack
    cases hi : s.find_request_by_coap_tid coap_tid with
    | none => rfl
    | some i =>
      obtain ⟨r, hr, hp, hslot⟩ := findIdx?_slot hi
      simp only [SearchCondition] at hc
      rw [find_request_by_coap_tid, hslot] at hc
      have hin : r.inlist = true := (Bool.and_eq_true_iff.mp hc).1
      exact absurd (by simpa using hp) (hno r (mem_of_getElem? hr) hin)
  | diaRequest _ _ | diaResponse _ | request _ _ _ _ | timer _ => trivial

end RequestTable

/-- **The request table over whole runs**: from any two counters, on a run whose events meet the
condition, the table keeps its contract in every state, and every message that matches nothing
changes nothing. -/
theorem correlation_of_condition (coap_tid dia_tid : Nat) {es : List RequestEvent}
    (h : Run.Along RequestTable.step (fun s e => s.SearchCondition e = true)
      (RequestTable.dia_createContext coap_tid dia_tid) es) :
    Run.Visits RequestTable.step RequestTable.TableOk
        (RequestTable.dia_createContext coap_tid dia_tid) es ∧
      Run.Along RequestTable.step RequestTable.UnmatchedIgnored
        (RequestTable.dia_createContext coap_tid dia_tid) es := by
  have hstart := RequestTable.Sound.init coap_tid dia_tid
  refine ⟨Run.visits_mono (fun _ hs => hs.toTableOk)
    (Run.visits_of_along (fun _ _ _ hs hc ht => hs.step hc ht) hstart h),
    Run.along_of_invariant (fun _ _ _ hs hc ht => ?_) hstart h⟩
  exact ⟨RequestTable.unmatchedIgnored hc, hs.step hc ht⟩

/-- Two requests of the application's, one answered and one given up, and a request of a peer's in
between. -/
theorem correlation_twoRequests :
    Run.Visits RequestTable.step RequestTable.TableOk (RequestTable.dia_createContext 7 40)
        [.diaRequest 0 .get, .request 0 .post 900 (some 3), .diaRequest 1 .put, .response (some 41),
          .diaResponse 3, .ack 10, .timer 3, .timer 5, .timer 7, .timer 9, .timer 11,
          .response (some 42)] ∧
      Run.Along RequestTable.step RequestTable.UnmatchedIgnored
        (RequestTable.dia_createContext 7 40)
        [.diaRequest 0 .get, .request 0 .post 900 (some 3), .diaRequest 1 .put, .response (some 41),
          .diaResponse 3, .ack 10, .timer 3, .timer 5, .timer 7, .timer 9, .timer 11,
          .response (some 42)] :=
  correlation_of_condition 7 40 (by decide +kernel)

/-- A response without a token, to a table at rest: it finds a free slot, and takes it out of a list
it is not in. -/
theorem uncorrelated_noToken :
    ¬ (Run.Visits RequestTable.step RequestTable.TableOk (RequestTable.dia_createContext 7 40)
          [.response none] ∧
        Run.Along RequestTable.step RequestTable.UnmatchedIgnored
          (RequestTable.dia_createContext 7 40) [.response none]) := by
  rintro ⟨h, -⟩
  have hsafe := (Run.visits_exec h rfl).safe
  exact absurd hsafe (by decide +kernel)

end Ong.MicroDia
