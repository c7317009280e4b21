import Mathlib.Algebra.Order.BigOperators.Group.List
import Mathlib.Algebra.Order.Group.Nat
import Ong.Lib.StopAndWait
import Ong.Dia.BlockWiseSteps

/-!
# A transaction from its request to its response

## Main results

* `Exchange.request_transfer`, `Exchange.response_transfer`: the two transfers in blocks
-/

namespace Ong.Dia

open Blocks Run

/-- A transaction: its request and the answer of the server's application, between two sides whose
request lists have no entry for it.  The size proposed for the blocks of the response is that of a
client that negotiates early. -/
structure Exchange extends Setting where
  tid : Nat
  method : Method
  options : List CoapOption
  proposal : Option Nat
  ctt : List UInt8
  clientReqs : List DiaRequest
  serverReqs : List DiaRequest
  clientCalls : List (Method × List UInt8)
  serverCalls : List (Method × List UInt8)
  options_copied : ∀ o ∈ options, isCopied o = true
  request_content : requestContent method ctt = ctt
  response_content : responseContent method answer.ctt = answer.ctt
  client_fresh : find_tid clientReqs tid = none
  server_fresh : find_tid serverReqs tid = none

namespace Exchange

variable (x : Exchange)

/-- The client's application sends the request. -/
def start : Config where
  client := ⟨(diaRequest x.clientMax x.clientReqs x.tid x.method x.options x.proposal x.ctt).1,
    x.clientCalls⟩
  server := ⟨x.serverReqs, x.serverCalls, []⟩
  toServer := [(diaRequest x.clientMax x.clientReqs x.tid x.method x.options x.proposal x.ctt).2]
  toClient := []

/-- The request callback was called with the request at most, and the response callback with the
response. -/
def Safe (c : Config) : Prop :=
  (c.server.calls = x.serverCalls ∨ c.server.calls = x.serverCalls ++ [(x.method, x.ctt)]) ∧
    (c.client.calls = x.clientCalls ∨ c.client.calls = x.clientCalls ++ [(x.method, x.answer.ctt)])

/-- Both callbacks were called, and the request lists have no entry for the transaction. -/
def Complete (c : Config) : Prop :=
  c.server.calls = x.serverCalls ++ [(x.method, x.ctt)] ∧
    c.client.calls = x.clientCalls ++ [(x.method, x.answer.ctt)] ∧
    c.client.reqList = x.clientReqs ∧ c.server.reqList = x.serverReqs

/-- **Block-wise transfer delivers both contents intact**: in every run the callbacks get what was
sent and each at most once; every run comes to an end, where both were called and no entry is
left. -/
structure Delivers : Prop where
  safe : ∀ es c, exec (step x.toSetting) x.start es = some c → x.Safe c
  complete : ∀ es c, exec (step x.toSetting) x.start es = some c →
    (∀ e, step x.toSetting c e = none) → x.Complete c
  bounded : ∃ n, ∀ es c, exec (step x.toSetting) x.start es = some c → es.length ≤ n

/-- The length of the request before its content. -/
def requestLength : Nat := (requestPdu x.tid x.method x.options x.proposal).length

/-- The length of the response before its content. -/
def responseLength : Nat := Pdu.optionsLength (some x.tid) x.answer.options

/-- The request fits in one message. -/
def RequestFits : Prop := Fits x.clientMax x.requestLength x.ctt

/-- The response fits in one message. -/
def ResponseFits : Prop := Fits x.serverMax x.responseLength x.answer.ctt

instance : Decidable x.RequestFits := inferInstanceAs (Decidable (Fits _ _ _))

instance : Decidable x.ResponseFits := inferInstanceAs (Decidable (Fits _ _ _))

/-- The size of the blocks of a request that does not fit. -/
def requestSzx : Nat := firstSzx x.clientMax x.requestLength 6

/-- The size the server starts from for a response that does not fit: the one that was proposed in a
request that did fit. -/
def askedSzx : Nat := if x.RequestFits then x.proposal.getD 6 else 6

/-- The size of the blocks of a response that does not fit. -/
def responseSzx : Nat := firstSzx x.serverMax x.responseLength x.askedSzx

/-! ## The stages -/

/-- The client has an entry for the transaction with this payload. -/
def Entry (dc : DiaRequest) (payload : List UInt8) : Prop :=
  dc.tid = x.tid ∧ dc.typeReq = some x.method ∧ dc.payload = payload

/-- The two sides during the transaction. -/
def config (dc : DiaRequest) (l : List DiaRequest) (calls : List (Method × List UInt8))
    (pending : List Nat) (toServer toClient : List Pdu) : Config :=
  ⟨⟨x.clientReqs ++ [dc], x.clientCalls⟩, ⟨l, calls, pending⟩, toServer, toClient⟩

/-- A block of the request is on its way; the server has gathered `g`. -/
def Sending (num : Nat) (g : List UInt8) (c : Config) : Prop :=
  num * blockSize x.requestSzx < x.ctt.length ∧
    ∃ dc l b2, x.Entry dc x.ctt ∧ Holds x.serverReqs x.tid l g ∧ (b2 = none ∨ g = []) ∧
      (b2 = none ∨ num = 0) ∧
      c = x.config dc l x.serverCalls [] [⟨.request x.method, some x.tid, x.options,
        some ⟨num, (num + 1) * blockSize x.requestSzx < x.ctt.length, x.requestSzx⟩, b2,
        block (blockSize x.requestSzx) num x.ctt⟩] []

/-- The server asks for a block of the request. -/
def Asked (num : Nat) (g : List UInt8) (c : Config) : Prop :=
  num * blockSize x.requestSzx < x.ctt.length ∧
    ∃ dc ds status, x.Entry dc x.ctt ∧ ds.tid = x.tid ∧ ds.payload = g ∧
      c = x.config dc (x.serverReqs ++ [ds]) x.serverCalls [] [] [⟨.response status, some x.tid,
        x.options, some ⟨num, false, x.requestSzx⟩, none, []⟩]

/-- The request callback was called with a content; the application has not answered, and
acknowledgements without a token are on their way. -/
def Called (content payload : List UInt8) (c : Config) : Prop :=
  ∃ dc ds acks, x.Entry dc payload ∧ (ds.tid = x.tid ∧ ds.block2.num = 0 ∧
      (if ds.early_nego then ds.block2.szx else 6) = x.askedSzx) ∧ (∀ p ∈ acks, p.token = none) ∧
    c = x.config dc (x.serverReqs ++ [ds])
      (x.serverCalls ++ [(x.method, requestContent x.method content)]) [x.tid] [] acks

/-- The answer of the application is the one message on its way. -/
def Landed (content payload : List UInt8) (c : Config) : Prop :=
  ∃ dc ds l pdu code, x.Entry dc payload ∧ (ds.tid = x.tid ∧ ds.block2.num = 0 ∧
      (if ds.early_nego then ds.block2.szx else 6) = x.askedSzx) ∧
    diaResponse x.serverMax (x.serverReqs ++ [ds]) x.tid x.answer (.new code) = (l, pdu, true) ∧
    c = x.config dc l (x.serverCalls ++ [(x.method, requestContent x.method content)]) [] [] [pdu]

/-- The options of the messages about the blocks of the response. -/
def copied : List CoapOption := x.answer.options.filter isCopied

/-- A block of the response is on its way; the client has gathered `g`. -/
def Receiving (num : Nat) (g : List UInt8) (c : Config) : Prop :=
  num * blockSize x.responseSzx < x.answer.ctt.length ∧
    ∃ dc l status options, x.Entry dc g ∧
      (((num + 1) * blockSize x.responseSzx < x.answer.ctt.length ∧
          ∃ ds, l = x.serverReqs ++ [ds] ∧ ds.tid = x.tid ∧ ds.payload = x.answer.ctt) ∨
        (¬ (num + 1) * blockSize x.responseSzx < x.answer.ctt.length ∧ l = x.serverReqs)) ∧
      options.filter isCopied = x.copied ∧
      c = x.config dc l (x.serverCalls ++ [(x.method, x.ctt)]) [] [] [⟨.response status, some x.tid,
        options, none, some ⟨num, (num + 1) * blockSize x.responseSzx < x.answer.ctt.length,
        x.responseSzx⟩, block (blockSize x.responseSzx) num x.answer.ctt⟩]

/-- The client asks for a block of the response. -/
def Wanting (num : Nat) (g : List UInt8) (c : Config) : Prop :=
  num * blockSize x.responseSzx < x.answer.ctt.length ∧
    ∃ dc ds, x.Entry dc g ∧ ds.tid = x.tid ∧ ds.payload = x.answer.ctt ∧
      c = x.config dc (x.serverReqs ++ [ds]) (x.serverCalls ++ [(x.method, x.ctt)]) []
        [⟨.request x.method, some x.tid, x.copied, none, some ⟨num, false, x.responseSzx⟩, []⟩] []

/-- The response callback was called with a content, and nothing is left. -/
def Done (content : List UInt8) (c : Config) : Prop :=
  c = ⟨⟨x.clientReqs, x.clientCalls ++ [(x.method, responseContent x.method content)]⟩,
    ⟨x.serverReqs, x.serverCalls ++ [(x.method, x.ctt)], []⟩, [], []⟩

/-! ## One message on its way -/

variable {x} {dc : DiaRequest} {l : List DiaRequest} {calls : List (Method × List UInt8)} {pdu : Pdu}
  {Q : Config → Prop} {content payload g : List UInt8} {num : Nat} {c : Config} {ds : DiaRequest}

theorem next_request {server : Server} {response : Pdu} (hcode : pdu.code = .request x.method)
    (h : Server.hnd_request x.serverMax x.answer ⟨l, calls, []⟩ x.method pdu = (server, response))
    (hQ : Q ⟨⟨x.clientReqs ++ [dc], x.clientCalls⟩, server, [], [response]⟩) :
    Next (step x.toSetting) Q (x.config dc l calls [] [pdu] []) := by
  refine next_of_only (e := .request) ?_ ?_ hQ
  · simp [step, config, Config.arriveAtServer, hcode, h]
  · rintro (_ | _ | _) he
    · exact absurd rfl he
    · rfl
    · rfl

theorem next_response {client : Client} {request : Option Pdu} {status : Nat}
    (hcode : pdu.code = .response status)
    (h : Client.hnd_response x.clientMax ⟨x.clientReqs ++ [dc], x.clientCalls⟩ pdu =
      (client, request))
    (hQ : Q ⟨client, ⟨l, calls, []⟩, request.toList, []⟩) :
    Next (step x.toSetting) Q (x.config dc l calls [] [] [pdu]) := by
  refine next_of_only (e := .response) ?_ ?_ hQ
  · simp [step, config, Config.arriveAtClient, hcode, h]
  · rintro (_ | _ | _) he
    · rfl
    · exact absurd rfl he
    · rfl

theorem safe_config {pending : List Nat} {toServer toClient : List Pdu}
    (h : calls = x.serverCalls ∨ calls = x.serverCalls ++ [(x.method, x.ctt)]) :
    x.Safe (x.config dc l calls pending toServer toClient) :=
  ⟨h, .inl rfl⟩

theorem filter_options (x : Exchange) : x.options.filter isCopied = x.options :=
  List.filter_eq_self.mpr x.options_copied

/-! ## The request in blocks -/

theorem safe_sending (h : x.Sending num g c) : x.Safe c := by
  obtain ⟨-, dc, l, b2, -, -, -, -, rfl⟩ := h
  exact safe_config (.inl rfl)

theorem safe_asked (h : x.Asked num g c) : x.Safe c := by
  obtain ⟨-, dc, ds, status, -, -, -, rfl⟩ := h
  exact safe_config (.inl rfl)

theorem callback_cases {code : Code} (hdc : x.Entry dc payload)
    (hds : ds.tid = x.tid ∧ ds.block2.num = 0 ∧ (if ds.early_nego then ds.block2.szx else 6) = x.askedSzx)
    (hcode : (Pdu.new code).token = none) (content : List UInt8) :
    let r := Server.callback x.serverMax x.answer ⟨x.serverReqs ++ [ds], x.serverCalls, []⟩ x.tid
      x.method content (.new code)
    x.Called content payload ⟨⟨x.clientReqs ++ [dc], x.clientCalls⟩, r.1, [], [r.2]⟩ ∨
      x.Landed content payload ⟨⟨x.clientReqs ++ [dc], x.clientCalls⟩, r.1, [], [r.2]⟩ := by
  intro r
  by_cases hpiggy : x.answer.piggy
  · right
    obtain ⟨l, pdu, hsent⟩ : ∃ l pdu, diaResponse x.serverMax (x.serverReqs ++ [ds]) x.tid x.answer
        (.new code) = (l, pdu, true) :=
      diaResponse_sent x.server_fresh hds.1 _
    have hr : r = (⟨l, x.serverCalls ++ [(x.method, requestContent x.method content)], []⟩, pdu) := by
      simp only [r, Server.callback, hsent]
      rw [if_pos hpiggy]
    rw [hr]
    exact ⟨dc, ds, l, pdu, code, hdc, hds, hsent, rfl⟩
  · left
    have hr : r = (⟨x.serverReqs ++ [ds],
        x.serverCalls ++ [(x.method, requestContent x.method content)], [x.tid]⟩, .new code) := by
      simp only [r, Server.callback]
      rw [if_neg hpiggy, List.nil_append]
    rw [hr]
    exact ⟨dc, ds, [.new code], hdc, hds, by simpa using hcode, rfl⟩

theorem requestRoom (x : Exchange) :
    x.clientMax - x.requestLength - 4 ≤
      x.clientMax - Pdu.optionsLength (some x.tid) (x.options.filter isCopied) - 4 := by
  rw [filter_options]
  have hle : Pdu.optionsLength (some x.tid) x.options ≤ x.requestLength := by
    simp only [requestLength, requestPdu, Pdu.length]
    omega
  omega

/-- **The request in blocks**: after its last block the server's application is called. -/
theorem request_transfer (hroom : 16 ≤ x.clientMax - x.requestLength - 4)
    (hfits : ¬ x.RequestFits) :
    StopAndWait (step x.toSetting) (2 ^ 20) (blockSize x.requestSzx) x.ctt x.Sending x.Asked
      fun g c => x.Called g x.ctt c ∨ x.Landed g x.ctt c where
  more := by
    rintro num g c ⟨hnum, dc, l, b2, hdc, hold, hb, -, rfl⟩ hmore
    obtain ⟨ds, status, htid, hds, hstep⟩ := hnd_request_more x.serverMax x.answer x.serverCalls []
      x.method x.options num x.requestSzx (block (blockSize x.requestSzx) num x.ctt)
      x.server_fresh hold hb
    have hmod : (num + 1) % 2 ^ 20 * blockSize x.requestSzx < x.ctt.length :=
      (Nat.mul_le_mul_right _ (Nat.mod_le _ _)).trans_lt hmore
    rw [decide_eq_true hmore]
    rw [filter_options] at hstep
    exact next_request rfl hstep ⟨hmod, dc, ds, status, hdc, htid, hds, rfl⟩
  ask := by
    rintro num g c ⟨hnum, dc, ds, status, ⟨hdc, htype, hpayload⟩, hds, hg, rfl⟩
    have hsize : blockSize x.requestSzx ≤
        x.clientMax - Pdu.optionsLength (some x.tid) (x.options.filter isCopied) - 4 :=
      (blockSize_firstSzx_le hroom).trans x.requestRoom
    obtain ⟨dc', hdc', htype', hpayload', hstep⟩ := hnd_response_ask x.clientMax x.clientCalls
      status num x.requestSzx x.options x.client_fresh hdc htype hsize (by rwa [hpayload])
    rw [hpayload, filter_options] at hstep
    rw [hpayload] at hpayload'
    exact next_response rfl hstep ⟨hnum, dc', _, none, ⟨hdc', htype', hpayload'⟩,
      .concat hds hg, .inl rfl, .inl rfl, rfl⟩
  last := by
    rintro num g c ⟨hnum, dc, l, b2, hdc, hold, hb, hb', rfl⟩ hmore
    obtain ⟨ds, status, htid, hnego, hblock, hstep⟩ := hnd_request_last x.serverMax x.answer
      x.serverCalls [] x.method x.options num x.requestSzx
      (block (blockSize x.requestSzx) num x.ctt) x.server_fresh hold hb
    have hb2 : b2 = none := by
      refine hb'.resolve_right fun hzero => hmore ?_
      have hle : blockSize x.requestSzx ≤ x.clientMax - x.requestLength - 4 :=
        blockSize_firstSzx_le hroom
      have hlong : x.clientMax < x.requestLength + x.ctt.length :=
        Nat.not_le.mp (not_or.mp hfits).2
      rw [hzero]
      omega
    rw [decide_eq_false hmore]
    refine next_request rfl hstep (callback_cases hdc ⟨htid, ?_, ?_⟩ rfl _)
    · rw [hblock, hb2]
      rfl
    · rw [hnego, hb2, askedSzx, if_neg hfits]
      rfl

section Answer

variable {toClient : List Pdu} {pending : List Nat} {toServer : List Pdu}

theorem step_response_silent {p : Pdu} (hp : p.token = none) :
    step x.toSetting (x.config dc l calls pending toServer (p :: toClient)) .response =
      some (x.config dc l calls pending toServer toClient) := by
  have hresponse : Client.hnd_response x.clientMax ⟨x.clientReqs ++ [dc], x.clientCalls⟩ p =
      (⟨x.clientReqs ++ [dc], x.clientCalls⟩, none) := hnd_response_silent hp
  simp only [step, config, Config.arriveAtClient]
  split
  · simp [hresponse]
  · rfl

theorem until_landed_of_answered {code : Code} (hdc : x.Entry dc payload)
    (hds : ds.tid = x.tid ∧ ds.block2.num = 0 ∧ (if ds.early_nego then ds.block2.szx else 6) = x.askedSzx)
    (hcontent : requestContent x.method content = x.ctt)
    (hsent : diaResponse x.serverMax (x.serverReqs ++ [ds]) x.tid x.answer (.new code) = (l, pdu, true))
    (acks : List Pdu) (hacks : ∀ p ∈ acks, p.token = none) :
    Until (step x.toSetting) x.Safe (x.Landed content payload)
      (x.config dc l (x.serverCalls ++ [(x.method, requestContent x.method content)]) [] []
        (acks ++ [pdu])) := by
  induction acks with
  | nil => exact .now ⟨dc, ds, l, pdu, code, hdc, hds, hsent, rfl⟩
  | cons p acks ih =>
    refine Next.until (safe_config (.inr (by rw [hcontent]))) ?_
    refine next_of_only (e := .response) (step_response_silent (hacks p List.mem_cons_self)) ?_
      (ih fun q hq => hacks q (List.mem_cons_of_mem p hq))
    rintro (_ | _ | _) he
    · rfl
    · exact absurd rfl he
    · rfl

/-- **The application answers**, before or after the acknowledgements arrive. -/
theorem Called.until_landed (h : x.Called content payload c)
    (hcontent : requestContent x.method content = x.ctt) :
    Until (step x.toSetting) x.Safe (x.Landed content payload) c := by
  obtain ⟨dc, ds, acks, hdc, hds, hacks, rfl⟩ := h
  obtain ⟨l, pdu, hsent⟩ : ∃ l pdu, diaResponse x.serverMax (x.serverReqs ++ [ds]) x.tid x.answer
      (.new .empty) = (l, pdu, true) :=
    diaResponse_sent x.server_fresh hds.1 _
  -- the induction is on the acknowledgements still on their way
  induction acks with
  | nil =>
    refine Next.until (safe_config (.inr (by rw [hcontent]))) ?_
    refine next_of_only (e := .answer) ?_ ?_
      (until_landed_of_answered hdc hds hcontent hsent [] hacks)
    · simp only [step, config, hsent]
      rfl
    · rintro (_ | _ | _) he
      · rfl
      · rfl
      · exact absurd rfl he
  | cons p acks ih =>
    have hrest : ∀ q ∈ acks, q.token = none := fun q hq => hacks q (List.mem_cons_of_mem p hq)
    refine .later (safe_config (.inr (by rw [hcontent])))
      ⟨.response, _, step_response_silent (hacks p List.mem_cons_self)⟩ ?_
    rintro (_ | _ | _) t ht
    · cases ht
    · rw [step_response_silent (hacks p List.mem_cons_self)] at ht
      exact Option.some.inj ht ▸ ih hrest
    · simp only [step, config, hsent] at ht
      exact Option.some.inj ht ▸ until_landed_of_answered hdc hds hcontent hsent (p :: acks) hacks

theorem until_landed (h : x.Called content payload c ∨ x.Landed content payload c)
    (hcontent : requestContent x.method content = x.ctt) :
    Until (step x.toSetting) x.Safe (x.Landed content payload) c :=
  h.elim (·.until_landed hcontent) .now

end Answer

/-! ## The response in blocks -/

theorem safe_receiving (h : x.Receiving num g c) : x.Safe c := by
  obtain ⟨-, dc, l, status, options, -, -, -, rfl⟩ := h
  exact safe_config (.inr rfl)

theorem safe_wanting (h : x.Wanting num g c) : x.Safe c := by
  obtain ⟨-, dc, ds, -, -, -, rfl⟩ := h
  exact safe_config (.inr rfl)

theorem filter_copied (x : Exchange) : x.copied.filter isCopied = x.copied := by
  simp [copied]

theorem responseRoom (x : Exchange) :
    x.serverMax - x.responseLength - 4 ≤
      x.serverMax - Pdu.optionsLength (some x.tid) (x.copied.filter isCopied) - 4 := by
  have hsum : (x.copied.map CoapOption.size).sum ≤ (x.answer.options.map CoapOption.size).sum :=
    (List.filter_sublist.map CoapOption.size).sum_le_sum fun _ _ => Nat.zero_le _
  have hlen : x.copied.length ≤ x.answer.options.length := List.length_filter_le _ _
  have hle : Pdu.optionsLength (some x.tid) x.copied ≤ x.responseLength := by
    simp only [responseLength, Pdu.optionsLength]
    split_ifs <;> omega
  rw [filter_copied]
  omega

/-- **The response in blocks**: after its last block the client's application is called. -/
theorem response_transfer (hroom : 16 ≤ x.serverMax - x.responseLength - 4) :
    StopAndWait (step x.toSetting) (2 ^ 20) (blockSize x.responseSzx) x.answer.ctt x.Receiving
      x.Wanting x.Done where
  more := by
    rintro num g c ⟨hnum, dc, l, status, options, ⟨hdc, htype, hg⟩, hl, hoptions, rfl⟩ hmore
    obtain ⟨-, ds, rfl, hds, hpayload⟩ := hl.resolve_right fun h => h.1 hmore
    obtain ⟨dc', hdc', htype', hg', hstep⟩ := hnd_response_more x.clientMax x.clientCalls status num
      x.responseSzx options (block (blockSize x.responseSzx) num x.answer.ctt) x.client_fresh hdc
      htype
    have hmod : (num + 1) % 2 ^ 20 * blockSize x.responseSzx < x.answer.ctt.length :=
      (Nat.mul_le_mul_right _ (Nat.mod_le _ _)).trans_lt hmore
    rw [decide_eq_true hmore]
    rw [hoptions] at hstep
    rw [hg] at hg'
    exact next_response rfl hstep ⟨hmod, dc', ds, ⟨hdc', htype', hg'⟩, hds, hpayload, rfl⟩
  ask := by
    rintro num g c ⟨hnum, dc, ds, hdc, hds, hpayload, rfl⟩
    have hsize : blockSize x.responseSzx ≤
        x.serverMax - Pdu.optionsLength (some x.tid) (x.copied.filter isCopied) - 4 :=
      (blockSize_firstSzx_le hroom).trans x.responseRoom
    obtain ⟨l', hl', hstep⟩ := hnd_request_next x.serverMax x.answer
      (x.serverCalls ++ [(x.method, x.ctt)]) [] x.method x.copied num x.responseSzx x.server_fresh
      hds hsize (by rwa [hpayload])
    rw [hpayload] at hl'
    rw [hpayload, filter_copied] at hstep
    exact next_request rfl hstep ⟨hnum, dc, l', 205, x.copied, hdc, hl', x.filter_copied, rfl⟩
  last := by
    rintro num g c ⟨hnum, dc, l, status, options, ⟨hdc, htype, hg⟩, hl, hoptions, rfl⟩ hmore
    obtain ⟨-, rfl⟩ := hl.resolve_left fun h => hmore h.1
    have hstep := hnd_response_last x.clientMax x.clientCalls status num x.responseSzx options
      (block (blockSize x.responseSzx) num x.answer.ctt) x.client_fresh hdc htype
    rw [decide_eq_false hmore]
    rw [hg] at hstep
    exact next_response rfl hstep rfl

end Exchange

end Ong.Dia
