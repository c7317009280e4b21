import Ong.Dia.BlockWiseTransfer

/-!
# When block-wise transfer delivers both contents

The entry of a transaction has one payload on each side.  On the client's side it still holds the
request when the blocks of the response are put after it, so a response in blocks to a request in
blocks reaches the application with the request in front.

## Main results

* `Exchange.delivers_of_condition`: then, and only then, both contents are delivered
-/

namespace Ong.Dia

open Blocks Run

instance : Fintype Event := ⟨{.request, .response, .answer}, by rintro (_ | _ | _) <;> simp⟩

namespace Exchange

variable {x : Exchange} {c : Config} {content payload : List UInt8}

/-! ## The start -/

theorem until_landed_of_fits (h : x.RequestFits) :
    Until (step x.toSetting) x.Safe (x.Landed x.ctt []) x.start := by
  obtain ⟨dc, hdc, htype, hpayload, hrequest⟩ := diaRequest_of_fits x.client_fresh h
  obtain ⟨ds, htid, hnego, hblock, hstep⟩ := hnd_request_whole x.serverMax x.answer x.serverCalls []
    x.method x.options x.ctt (x.proposal.map fun szx => ⟨0, false, szx⟩) x.server_fresh
  have hstart : x.start = x.config dc x.serverReqs x.serverCalls []
      [{ requestPdu x.tid x.method x.options x.proposal with data := x.ctt }] [] := by
    rw [start, hrequest]
    rfl
  rw [hstart]
  refine Next.until (safe_config (.inl rfl)) (next_request rfl hstep ?_)
  refine until_landed (callback_cases ⟨hdc, htype, hpayload⟩ ⟨htid, ?_, ?_⟩ rfl _) x.request_content
  · rw [hblock]
    cases x.proposal <;> rfl
  · rw [hnego, hblock, askedSzx, if_pos h]
    cases x.proposal <;> rfl

theorem sending_start (hfits : ¬ x.RequestFits) (hroom : 16 ≤ x.clientMax - x.requestLength - 4) :
    x.Sending 0 [] x.start := by
  obtain ⟨dc, hdc, htype, hpayload, hrequest⟩ := diaRequest_of_room x.client_fresh hfits hroom
  have hlong : x.clientMax < x.requestLength + x.ctt.length := Nat.not_le.mp (not_or.mp hfits).2
  refine ⟨by omega, dc, x.serverReqs, x.proposal.map fun szx => ⟨0, false, szx⟩,
    ⟨hdc, htype, hpayload⟩, .inl ⟨rfl, rfl⟩, .inr rfl, .inr rfl, ?_⟩
  rw [start, hrequest]
  rfl

theorem until_landed_of_splittable (hfits : ¬ x.RequestFits)
    (h : Splittable x.clientMax x.requestLength 6 x.ctt.length) :
    Until (step x.toSetting) x.Safe (x.Landed x.ctt x.ctt) x.start := by
  refine ((request_transfer h.1 hfits).until_done (blockSize_pos _) h.2 (fun _ _ _ => safe_sending)
    (fun _ _ _ => safe_asked) (sending_start hfits h.1)).trans fun c hc => ?_
  exact until_landed hc x.request_content

/-! ## The end -/

theorem step_done (h : x.Done content c) (e : Event) : step x.toSetting c e = none := by
  subst h
  cases e <;> rfl

theorem safe_done (h : x.Done x.answer.ctt c) : x.Safe c := by
  subst h
  exact ⟨.inr rfl, .inr (by rw [x.response_content])⟩

theorem complete_done (h : x.Done x.answer.ctt c) : x.Complete c := by
  subst h
  exact ⟨rfl, by rw [x.response_content], rfl, rfl⟩

theorem not_safe_of_length {g : List UInt8} (hne : x.answer.ctt ≠ [])
    (hg : g.length ≠ x.answer.ctt.length)
    (hcalls : c.client.calls = x.clientCalls ++ [(x.method, responseContent x.method g)]) :
    ¬ x.Safe c := by
  rintro ⟨-, hclient | hclient⟩
  · rw [hcalls] at hclient
    simp at hclient
  · have hlast : responseContent x.method g = x.answer.ctt := by
      simpa using hcalls.symm.trans hclient
    have hcontent := x.response_content
    cases hm : x.method <;> rw [hm] at hlast hcontent
    · exact hg (congrArg List.length hlast)
    · exact hg (congrArg List.length hlast)
    · exact hg (congrArg List.length hlast)
    · exact hne hcontent.symm

theorem not_safe_of_request {g : List UInt8} (hne : x.ctt ≠ []) (hg : g.length ≠ x.ctt.length)
    (hcalls : c.server.calls = x.serverCalls ++ [(x.method, requestContent x.method g)]) :
    ¬ x.Safe c := by
  rintro ⟨hserver | hserver, -⟩
  · rw [hcalls] at hserver
    simp at hserver
  · have hlast : requestContent x.method g = x.ctt := by
      simpa using hcalls.symm.trans hserver
    have hcontent := x.request_content
    cases hm : x.method <;> rw [hm] at hlast hcontent
    · exact hne hcontent.symm
    · exact hg (congrArg List.length hlast)
    · exact hg (congrArg List.length hlast)
    · exact hne hcontent.symm

theorem callback_calls (maxSize : Nat) (a : Answer) (s : Server) (tid : Nat) (method : Method)
    (ctt : List UInt8) (response : Pdu) :
    (s.callback maxSize a tid method ctt response).1.calls =
      s.calls ++ [(method, requestContent method ctt)] := by
  simp only [Server.callback]
  split <;> rfl

/-! ## The answer -/

theorem landed_single (h : x.ResponseFits) (hc : x.Landed content payload c)
    (hcontent : requestContent x.method content = x.ctt) :
    Next (step x.toSetting) (x.Done x.answer.ctt) c := by
  obtain ⟨dc, ds, l, pdu, code, ⟨hdc, htype, -⟩, ⟨htid, -, -⟩, hsent, rfl⟩ := hc
  have hpdu := hsent.symm.trans (diaResponse_of_fits code x.server_fresh htid h)
  obtain ⟨rfl, rfl⟩ : l = x.serverReqs ∧
      pdu = { x.answer.response x.tid with data := x.answer.ctt } := by
    simpa using hpdu
  have hstep := hnd_response_single x.clientMax x.clientCalls x.answer.status x.answer.options
    x.answer.ctt x.client_fresh hdc htype
  refine next_response rfl hstep ?_
  rw [hcontent]
  rfl

theorem receiving_of_landed (hfits : ¬ x.ResponseFits)
    (hroom : 16 ≤ x.serverMax - x.responseLength - 4) (hc : x.Landed content payload c)
    (hcontent : requestContent x.method content = x.ctt) : x.Receiving 0 payload c := by
  obtain ⟨dc, ds, l, pdu, code, hdc, ⟨htid, hnum, hszx⟩, hsent, rfl⟩ := hc
  obtain ⟨ds', htid', hpayload', hsplit⟩ :=
    diaResponse_of_room code x.server_fresh htid hfits hnum hszx hroom
  obtain ⟨rfl, hpdu⟩ := Prod.mk.inj (hsent.symm.trans hsplit)
  obtain ⟨rfl, -⟩ := Prod.mk.inj hpdu
  have hlong : x.serverMax < x.responseLength + x.answer.ctt.length :=
    Nat.not_le.mp (not_or.mp hfits).2
  have hle : blockSize x.responseSzx ≤ x.serverMax - x.responseLength - 4 :=
    blockSize_firstSzx_le hroom
  have hmore : (0 + 1) * blockSize x.responseSzx < x.answer.ctt.length := by omega
  refine ⟨by omega, dc, _, x.answer.status, x.answer.options, hdc, .inl ⟨hmore, ds', rfl, htid',
    hpayload'⟩, rfl, ?_⟩
  rw [hcontent]
  rfl

theorem landed_no_room (hfits : ¬ x.ResponseFits) (hroom : x.serverMax - x.responseLength - 4 < 16)
    (hc : x.Landed content payload c) : Next (step x.toSetting) (fun c => ¬ x.Safe c) c := by
  obtain ⟨dc, ds, l, pdu, code, ⟨hdc, htype, -⟩, ⟨htid, hnum, hszx⟩, hsent, rfl⟩ := hc
  obtain ⟨ds', data, hlen, hsplit⟩ :=
    diaResponse_of_no_room code x.server_fresh htid hfits hnum hszx hroom
  obtain ⟨rfl, hpdu⟩ := Prod.mk.inj (hsent.symm.trans hsplit)
  obtain ⟨rfl, -⟩ := Prod.mk.inj hpdu
  have hstep := hnd_response_single x.clientMax x.clientCalls x.answer.status x.answer.options data
    x.client_fresh hdc htype
  exact next_response rfl hstep (not_safe_of_length (not_or.mp hfits).1 hlen.ne rfl)

/-! ## The condition -/

/-- libcoap can send what does not fit in one message, and the request and the response do not both
need blocks. -/
structure Condition (x : Exchange) : Prop where
  request : x.RequestFits ∨ Splittable x.clientMax x.requestLength 6 x.ctt.length
  response : x.ResponseFits ∨
    Splittable x.serverMax x.responseLength x.askedSzx x.answer.ctt.length
  once : x.RequestFits ∨ x.ResponseFits

/-- What the client's entry holds when the response comes. -/
def sent (x : Exchange) : List UInt8 := if x.RequestFits then [] else x.ctt

theorem until_landed_of_request
    (h : x.RequestFits ∨ Splittable x.clientMax x.requestLength 6 x.ctt.length) :
    Until (step x.toSetting) x.Safe (x.Landed x.ctt x.sent) x.start := by
  unfold sent
  split
  · next hfits => exact until_landed_of_fits hfits
  · next hfits => exact until_landed_of_splittable hfits (h.resolve_left hfits)

/-- What the response callback gets, when libcoap can send the response. -/
def received (x : Exchange) : List UInt8 :=
  if x.ResponseFits then x.answer.ctt else x.sent ++ x.answer.ctt

theorem until_done_of_response (h : x.ResponseFits ∨
      Splittable x.serverMax x.responseLength x.askedSzx x.answer.ctt.length)
    (hc : x.Landed x.ctt x.sent c) : Until (step x.toSetting) x.Safe (x.Done x.received) c := by
  have hsafe : x.Safe c := by
    obtain ⟨dc, ds, l, pdu, code, -, -, -, rfl⟩ := hc
    exact safe_config (.inr (by rw [x.request_content]))
  unfold received
  split
  · next hfits => exact ((landed_single hfits hc x.request_content).mono fun _ => .now).until hsafe
  · next hfits =>
    have hsplit := h.resolve_left hfits
    exact (response_transfer hsplit.1).until_done (blockSize_pos _) hsplit.2
      (fun _ _ _ => safe_receiving) (fun _ _ _ => safe_wanting)
      (receiving_of_landed hfits hsplit.1 hc x.request_content)

section Wrong

variable {Q : Config → Prop} (h : Until (step x.toSetting) x.Safe Q x.start)
include h

theorem not_delivers_of_unsafe (hQ : ∀ c, Q c → ¬ x.Safe c) : ¬ x.Delivers := by
  intro hdel
  obtain ⟨es, c, hes, hc⟩ := h.exists_exec
  exact hQ c hc (hdel.safe es c hes)

theorem not_delivers_of_unbounded
    (hQ : ∀ c, Q c → ∀ k, ∃ es t, exec (step x.toSetting) c es = some t ∧ es.length = k) :
    ¬ x.Delivers := by
  intro hdel
  obtain ⟨es, c, hes, hc⟩ := h.exists_exec
  obtain ⟨n, hn⟩ := hdel.bounded
  obtain ⟨es', t, hes', hlen⟩ := hQ c hc (n + 1)
  have hle := hn (es ++ es') t (by rw [exec_append hes, hes'])
  rw [List.length_append] at hle
  omega

end Wrong

theorem not_delivers_of_request
    (h : ¬ (x.RequestFits ∨ Splittable x.clientMax x.requestLength 6 x.ctt.length)) :
    ¬ x.Delivers := by
  obtain ⟨hfits, hsplit⟩ := not_or.mp h
  by_cases hroom : 16 ≤ x.clientMax - x.requestLength - 4
  · have hmany : 2 ^ 20 * blockSize x.requestSzx < x.ctt.length :=
      Nat.not_le.mp fun hle => hsplit ⟨hroom, hle⟩
    exact not_delivers_of_unbounded (.now (sending_start hfits hroom)) fun c hc =>
      (request_transfer hroom hfits).exists_exec (Nat.two_pow_pos 20) hmany hc (Nat.two_pow_pos 20)
  · obtain ⟨dc, data, hdc, hlen, hrequest⟩ :=
      diaRequest_of_no_room x.client_fresh hfits (Nat.not_le.mp hroom)
    obtain ⟨ds, htid, hnego, hblock, hstep⟩ := hnd_request_whole x.serverMax x.answer x.serverCalls
      [] x.method x.options data (x.proposal.map fun szx => ⟨0, false, szx⟩) x.server_fresh
    have hstart : x.start = x.config dc x.serverReqs x.serverCalls []
        [{ requestPdu x.tid x.method x.options x.proposal with data := data }] [] := by
      rw [start, hrequest]
      rfl
    have hnext : Next (step x.toSetting) (fun c => ¬ x.Safe c) x.start := by
      rw [hstart]
      refine next_request rfl hstep ?_
      exact not_safe_of_request (not_or.mp hfits).1 hlen.ne (callback_calls _ _ _ _ _ _ _)
    have hsafe : x.Safe x.start := by
      rw [hstart]
      exact safe_config (.inl rfl)
    exact not_delivers_of_unsafe ((hnext.mono fun _ ht => .now ht).until hsafe) fun _ hc => hc

theorem not_delivers_of_response
    (hrequest : x.RequestFits ∨ Splittable x.clientMax x.requestLength 6 x.ctt.length)
    (h : ¬ (x.ResponseFits ∨
      Splittable x.serverMax x.responseLength x.askedSzx x.answer.ctt.length)) :
    ¬ x.Delivers := by
  obtain ⟨hfits, hsplit⟩ := not_or.mp h
  have hlanded := until_landed_of_request hrequest
  by_cases hroom : 16 ≤ x.serverMax - x.responseLength - 4
  · have hmany : 2 ^ 20 * blockSize x.responseSzx < x.answer.ctt.length :=
      Nat.not_le.mp fun hle => hsplit ⟨hroom, hle⟩
    exact not_delivers_of_unbounded hlanded fun c hc =>
      (response_transfer hroom).exists_exec (Nat.two_pow_pos 20) hmany
        (receiving_of_landed hfits hroom hc x.request_content) (Nat.two_pow_pos 20)
  · refine not_delivers_of_unsafe (Q := fun c => ¬ x.Safe c) ?_ fun _ hc => hc
    refine hlanded.trans fun c hc => ?_
    have hsafe : x.Safe c := by
      obtain ⟨dc, ds, l, pdu, code, -, -, -, rfl⟩ := hc
      exact safe_config (.inr (by rw [x.request_content]))
    exact ((landed_no_room hfits (Nat.not_le.mp hroom) hc).mono fun _ ht => .now ht).until hsafe

/-- **Both contents are delivered exactly when** libcoap can send them and they do not both need
blocks. -/
theorem delivers_of_condition (x : Exchange) : x.Delivers ↔ x.Condition := by
  constructor
  · intro hdel
    have hrequest := Classical.not_not.mp fun h => not_delivers_of_request h hdel
    have hresponse := Classical.not_not.mp fun h => not_delivers_of_response hrequest h hdel
    refine ⟨hrequest, hresponse, Decidable.not_not.mp fun h => ?_⟩
    obtain ⟨hreq, hresp⟩ := not_or.mp h
    have hdone := (until_landed_of_request hrequest).trans fun c => until_done_of_response hresponse
    refine not_delivers_of_unsafe hdone (fun c hc => ?_) hdel
    have hne : 0 < x.ctt.length := List.length_pos_iff.mpr (not_or.mp hreq).1
    have hlen : (x.ctt ++ x.answer.ctt).length ≠ x.answer.ctt.length := by
      rw [List.length_append]
      omega
    rw [Done, received, if_neg hresp, sent, if_neg hreq] at hc
    exact not_safe_of_length (not_or.mp hresp).1 hlen (by rw [hc])
  · intro h
    have hreceived : x.received = x.answer.ctt := by
      unfold received sent
      split
      · rfl
      · next hresp => rw [if_pos (h.once.resolve_right hresp), List.nil_append]
    have hdone := (until_landed_of_request h.request).trans fun c => until_done_of_response h.response
    rw [hreceived] at hdone
    have hend := fun (c : Config) (hc : x.Done x.answer.ctt c) => step_done hc
    exact ⟨fun es c hes => hdone.safe hend (fun c => safe_done) hes,
      fun es c hes hstuck => complete_done (hdone.final hend hes hstuck),
      hdone.bounded hend⟩


/-- A transaction of a request of `n` bytes that is answered at once by `k` bytes. -/
def sample (n k : Nat) : Exchange where
  clientMax := 1400
  serverMax := 1400
  answer := ⟨205, 0, none, List.replicate k 0, true⟩
  tid := 7
  method := .post
  options := []
  proposal := none
  ctt := List.replicate n 0
  clientReqs := []
  serverReqs := []
  clientCalls := []
  serverCalls := []
  options_copied := by simp
  request_content := rfl
  response_content := rfl
  client_fresh := rfl
  server_fresh := rfl

/-- A request of 1500 bytes that is answered by 1500 bytes: the response callback gets 3000. -/
theorem blocked_both_ways : ¬ (sample 1500 1500).Delivers := by
  intro h
  have hrun : ((exec (step (sample 1500 1500).toSetting) (sample 1500 1500).start
      [.request, .response, .request, .response, .request, .response]).map
        fun c => c.client.calls.map fun call => call.2.length) = some [3000] := by
    decide +kernel
  obtain ⟨c, hc, hlen⟩ := Option.map_eq_some_iff.mp hrun
  rcases (h.safe _ c hc).2 with hcalls | hcalls <;> rw [hcalls] at hlen
  · cases hlen
  · revert hlen
    decide +kernel

end Exchange

end Ong.Dia
