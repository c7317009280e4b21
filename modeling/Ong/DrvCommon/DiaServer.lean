import Mathlib.Algebra.Ring.Nat
import Ong.DrvCommon.DiaClient

/-!
# The incoming requests of the DIA server

The transport enters an incoming request under its peer and its transaction id, and calls the
callback of its method.  The handler behind the callback completes the request at once, through the
record of the current request; or returns a code to answer with; or returns a positive code and
completes the request later, through a table of slots that the clock also looks after.  The response
finds its way back by the peer, when there is one, and else by the transaction id alone.
-/

namespace Ong.DrvCommon

def srvRequestTimeoutDia : Int := 900

/-- `DIA_REQ_TYPE`, and with it the CoAP method of the response. -/
inductive DiaReqType
  | retrieve
  | create
  | update
  | delete
  deriving DecidableEq

/-- `t_dia_in_req`, without the pointer to the one dIa context. -/
structure InReq (Peer : Type) where
  waitRsp : Bool
  sendAt : Int
  tid : Nat
  peer : Option Peer
  targetID : String
  reqType : DiaReqType

/-- A `t_dia_in_req` of zeros. -/
def InReq.zero {Peer : Type} : InReq Peer := ⟨false, 0, 0, none, "", .retrieve⟩

/-- What the peers asked. -/
structure Incoming (Peer : Type) where
  peer : Peer
  tid : Nat
  reqType : DiaReqType
  deriving DecidableEq

/-- A response as it leaves: the peer it is sent to, the transaction id, the method, the status the
server gave and its CoAP code, and the location. -/
structure DiaAnswer (Peer : Type) where
  dest : Peer
  tid : Nat
  typeResp : DiaReqType
  scode : String
  code : Nat
  resourceURI : String

/-- The server and the transport below it.  `reqList` tells, for the box of a peer, the
transactions with a `dia_request_t`, and whether a payload is attached to it; `piggy` the peer whose
request is in its callback.  The last two fields are the observer's: what was asked and what was
answered. -/
structure DiaServer (Peer : Type) where
  tbIncomingReq : List (InReq Peer)
  synchroIncomingRequest : Bool
  currentIncomingRequest : InReq Peer
  tidtbl : Nat → Option Peer
  reqList : Peer → Nat → Option Bool
  piggy : Option Peer
  requests : List (Incoming Peer)
  answers : List (DiaAnswer Peer)

def dia2coap_code (scode : String) (method : DiaReqType) : Nat :=
  if scode = "STATUS_CREATED" then 201
  else if scode = "STATUS_DELETED" then 202
  else if scode = "STATUS_OK" then if method = .update then 204 else 205
  else if scode = "STATUS_BAD_REQUEST" then 400
  else if scode = "STATUS_PERMISSION_DENIED" then 401
  else if scode = "STATUS_NOT_FOUND" then 404
  else if scode = "STATUS_METHOD_NOT_ALLOWED" then 405
  else if scode = "STATUS_NOT_ACCEPTABLE" then 406
  else if scode = "STATUS_CONFLICT" then 409
  else if scode = "STATUS_UNSUPPORTED_MEDIA_TYPE" then 415
  else if scode = "STATUS_INTERNAL_SERVER_ERROR" then 500
  else if scode = "STATUS_NOT_IMPLEMENTED" then 501
  else if scode = "STATUS_BAD_GATEWAY" then 502
  else if scode = "STATUS_SERVICE_UNAVAILABLE" then 503
  else if scode = "STATUS_GATEWAY_TIMEOUT" then 504
  -- the status of an overdue request has no code of its own and ends here
  else 405

def WDiaStatusCode (type : DiaReqType) (ret : Int) : String :=
  if type = .create ∧ ret = 0 then "STATUS_CREATED"
  else if type = .update ∧ ret = 0 then "STATUS_OK"
  else if type = .delete ∧ ret = 0 then "STATUS_DELETED"
  else match ret.natAbs with
    | 201 => "STATUS_CREATED"
    | 202 => "STATUS_DELETED"
    | 204 => "STATUS_OK"
    | 205 => "STATUS_OK"
    | 400 => "STATUS_BAD_REQUEST"
    | 401 => "STATUS_PERMISSION_DENIED"
    | 404 => "STATUS_NOT_FOUND"
    | 405 => "STATUS_METHOD_NOT_ALLOWED"
    | 406 => "STATUS_NOT_ACCEPTABLE"
    | 409 => "STATUS_CONFLICT"
    | 415 => "STATUS_UNSUPPORTED_MEDIA_TYPE"
    | 500 => "STATUS_INTERNAL_SERVER_ERROR"
    | 501 => "STATUS_NOT_IMPLEMENTED"
    | 502 => "STATUS_BAD_GATEWAY"
    | 503 => "STATUS_SERVICE_UNAVAILABLE"
    | 504 => "STATUS_GATEWAY_TIMEOUT"
    | _ =>
      if ret ≤ -100 then "STATUS_INTERNAL_SERVER_ERROR"
      else if ret ≤ -50 then "STATUS_BAD_REQUEST"
      else if ret < 0 then "STATUS_NOT_FOUND"
      else "STATUS_OK"

/-- What the handler of a request does: it completes the request, with a status and a content that
may need blocks, or it only returns. -/
inductive DiaHandler
  | completes (retcode : String) (withBlocks : Bool) (ret : Int)
  | returns (ret : Int)

namespace DiaServer

variable {Peer : Type} [DecidableEq Peer]

/-- The server before its first request. -/
def init : DiaServer Peer where
  tbIncomingReq := List.replicate maxRequestDia .zero
  synchroIncomingRequest := false
  currentIncomingRequest := .zero
  tidtbl := fun _ => none
  reqList := fun _ _ => none
  piggy := none
  requests := []
  answers := []

variable (s : DiaServer Peer)

/-- `hashtbl_insert` and `hashtbl_remove` on `tidtbl`. -/
def setTid (tid : Nat) (p : Option Peer) : DiaServer Peer :=
  { s with tidtbl := fun t => if t = tid then p else s.tidtbl t }

/-- The `dia_request_t` of a transaction set or freed. -/
def setDr (p : Peer) (tid : Nat) (dr : Option Bool) : DiaServer Peer :=
  { s with reqList := fun q t => if q = p ∧ t = tid then dr else s.reqList q t }

/-- The box `diaResponse` works for: the peer's, or the one `tidtbl` has for the transaction id. -/
def responseBox (tid : Nat) (peer : Option Peer) : Option Peer :=
  match peer with
  | some p => some p
  | none => s.tidtbl tid

/-- `diaResponse`.  A response made inside the callback of a request is written into the
acknowledgement of that request, whatever the box found. -/
def diaResponse (typeResp : DiaReqType) (scode resourceURI : String)
    (withBlocks : Bool) (tid : Nat) (peer : Option Peer) : DiaServer Peer :=
  match s.responseBox tid peer with
  | none => s
  | some p =>
    match s.reqList p tid with
    | none => s
    | some _ =>
      let answer : DiaAnswer Peer :=
        ⟨s.piggy.getD p, tid, typeResp, scode, dia2coap_code scode typeResp, resourceURI⟩
      let t := { s with answers := s.answers ++ [answer] }
      -- the request stays until the last block of its response has been asked for
      if withBlocks then t.setDr p tid (some true) else (t.setDr p tid none).setTid tid none

/-- How `hnd_request` begins: the transaction id and the transaction are entered if they are new. -/
def enter (p : Peer) (tid : Nat) : DiaServer Peer :=
  let t := if s.tidtbl tid = none then s.setTid tid (some p) else s
  t.setDr p tid (some ((s.reqList p tid).getD false))

/-- `hnd_request` on a fragment that is not the last of its request. -/
def hnd_fragment (p : Peer) (tid : Nat) : DiaServer Peer :=
  (s.enter p tid).setDr p tid (some true)

/-- `hnd_request` when a block of a stored response is asked for. -/
def hnd_block (p : Peer) (tid : Nat) (last : Bool) : DiaServer Peer :=
  if last then ((s.enter p tid).setDr p tid none).setTid tid none else s.enter p tid

/-- The slot waits for the response to a transaction with this id. -/
def waitsFor (tid : Nat) (r : InReq Peer) : Bool := r.waitRsp && r.tid = tid

/-- `DiaCurrentIncomingRequest`, which leaves the peer of the record as it is. -/
def DiaCurrentIncomingRequest (tid : Nat) (reqType : DiaReqType)
    (targetID : String) : DiaServer Peer :=
  { s with
    synchroIncomingRequest := false
    currentIncomingRequest :=
      { s.currentIncomingRequest with tid := tid, reqType := reqType, targetID := targetID } }

def DiaIncomingExistRequest (tid : Nat) : Bool :=
  s.tbIncomingReq.any (waitsFor tid)

variable (now : Int)

/-- `DiaIncomingAddRequest` at the time `now`. -/
def DiaIncomingAddRequest (tid : Nat) (reqType : DiaReqType)
    (peer : Option Peer) (targetID : String) : DiaServer Peer :=
  if s.DiaIncomingExistRequest tid then s
  else match s.tbIncomingReq.findIdx? fun r => !r.waitRsp with
    | none => s
    | some i =>
      { s with tbIncomingReq := s.tbIncomingReq.set i ⟨true, now, tid, peer, targetID, reqType⟩ }

/-- `DiaIncomingFindRequest`: the slot found is free from then on. -/
def DiaIncomingFindRequest (tid : Nat) :
    Option (InReq Peer × DiaServer Peer) :=
  match s.tbIncomingReq.findIdx? (waitsFor tid) with
  | none => none
  | some i => (s.tbIncomingReq[i]?).map fun r =>
      ({ r with waitRsp := false },
        { s with tbIncomingReq := s.tbIncomingReq.set i { r with waitRsp := false } })

/-- The response `diaIncomingRequestCompletion` makes from a record. -/
def respond (context : InReq Peer) (retcode : String) (withBlocks : Bool) :
    DiaServer Peer :=
  match context.reqType with
  | .retrieve => s.diaResponse .retrieve retcode "" withBlocks context.tid context.peer
  | .create => s.diaResponse .create retcode context.targetID withBlocks context.tid context.peer
  | .update => s.diaResponse .update retcode "" withBlocks context.tid context.peer
  | .delete => s.diaResponse .delete retcode "" false context.tid context.peer

/-- `diaIncomingRequestCompletion`; no transaction id stands for the negative ones. -/
def diaIncomingRequestCompletion (tid : Option Nat) (retcode : String)
    (withBlocks : Bool) : DiaServer Peer :=
  match tid with
  | none =>
    let t := { s with synchroIncomingRequest := true }
    t.respond s.currentIncomingRequest retcode withBlocks
  | some tid =>
    match s.DiaIncomingFindRequest tid with
    | none => s
    | some (context, t) => t.respond context retcode withBlocks

/-- The slot waits since `SRV_REQUEST_TIMEOUT_DIA` at least. -/
def overdue (r : InReq Peer) : Bool :=
  r.waitRsp && srvRequestTimeoutDia ≤ ((now - r.sendAt).natAbs : Int)

/-- One pass of the loop of `DiaServerClockSc`. -/
def clockPass (s : DiaServer Peer) (i : Nat) : DiaServer Peer :=
  match s.tbIncomingReq[i]? with
  | none => s
  | some r =>
    if overdue now r then
      s.diaIncomingRequestCompletion (some r.tid) "STATUS_REQUEST_TIMEOUT" false
    else s

def DiaServerClockSc : DiaServer Peer :=
  (List.range maxRequestDia).foldl (clockPass now) s

/-- The end of the callbacks of the retrieve, create and update requests: an answer given by the
handler, an answer to come, or the answer to the code returned. -/
def endfct (reqType : DiaReqType) (targetID : String) (tid : Nat)
    (peer : Peer) (ret : Int) : DiaServer Peer :=
  if s.synchroIncomingRequest then { s with synchroIncomingRequest := false }
  else if 0 < ret then s.DiaIncomingAddRequest now tid reqType (some peer) targetID
  else
    s.diaResponse reqType (WDiaStatusCode reqType ret) (if reqType = .create then targetID else "")
      false tid (some peer)

/-- `cb_diaRetrieveRequest`, `cb_diaCreateRequest` and `cb_diaUpdateRequest`.  A target that does
not parse or is not known returns its code in the place of the handler's. -/
def cb_diaRequest (reqType : DiaReqType) (targetID : String)
    (tid : Nat) (peer : Peer) (handler : DiaHandler) : DiaServer Peer :=
  let s := s.DiaCurrentIncomingRequest tid reqType targetID
  match handler with
  | .completes retcode withBlocks ret =>
    (s.diaIncomingRequestCompletion none retcode withBlocks).endfct now reqType targetID tid peer ret
  | .returns ret => s.endfct now reqType targetID tid peer ret

/-- `cb_diaDeleteRequest`, which has no handler. -/
def cb_diaDeleteRequest (targetID : String) (tid : Nat) (peer : Peer) :
    DiaServer Peer :=
  let s := s.DiaCurrentIncomingRequest tid .delete targetID
  s.diaResponse .delete "STATUS_BAD_REQUEST" "" false tid (some peer)

/-- `hnd_request` on a complete request. -/
def hnd_request (p : Peer) (tid : Nat) (reqType : DiaReqType)
    (targetID : String) (handler : DiaHandler) : DiaServer Peer :=
  let incoming : Incoming Peer := ⟨p, tid, reqType⟩
  let s := { s.enter p tid with piggy := some p, requests := s.requests ++ [incoming] }
  let s := match reqType with
    | .delete => s.cb_diaDeleteRequest targetID tid p
    | _ => s.cb_diaRequest now reqType targetID tid p handler
  { s with piggy := none }

end DiaServer

/-- What happens to the server. -/
inductive DiaServerEvent (Peer : Type)
  | request (now : Int) (p : Peer) (tid : Nat) (reqType : DiaReqType) (targetID : String)
      (handler : DiaHandler)
  | fragment (p : Peer) (tid : Nat)
  | block (p : Peer) (tid : Nat) (last : Bool)
  | completion (tid : Nat) (retcode : String) (withBlocks : Bool)
  | clock (now : Int)

/-- One event.  A block is asked for where a payload is stored. -/
def DiaServer.step {Peer : Type} [DecidableEq Peer] (s : DiaServer Peer) :
    DiaServerEvent Peer → Option (DiaServer Peer)
  | .request now p tid reqType targetID handler =>
    some (s.hnd_request now p tid reqType targetID handler)
  | .fragment p tid => some (s.hnd_fragment p tid)
  | .block p tid last =>
    if s.reqList p tid = some true then some (s.hnd_block p tid last) else none
  | .completion tid retcode withBlocks =>
    some (s.diaIncomingRequestCompletion (some tid) retcode withBlocks)
  | .clock now => some (s.DiaServerClockSc now)

end Ong.DrvCommon
