import Mathlib.Algebra.Ring.Int.Defs
import Mathlib.Algebra.Ring.Nat
import Ong.Lib.Run

/-!
# The request table of the small DIA library

One table of slots serves the requests an application sends and the requests it receives.  A slot in
use is linked in a list; a free one has its two ids zero, and is found by a search for an id of zero
all the same.  The timer sends again what the slots in use hold, and gives up after a number of
times.
-/

namespace Ong.MicroDia

def coapMaxRequests : Nat := 50

def coapDefaultMaxAge : Int := 60

def coapDefaultResponseTimeout : Int := 2

def coapDefaultMaxRetransmit : Nat := 4

def coapMaxTid : Nat := 0xffff

def coapMaxTokenValue : Nat := 99999999

/-- The request codes. -/
inductive Method
  | get
  | post
  | put
  | delete
  deriving DecidableEq

/-- What the buffer of a slot holds to be sent again: nothing yet, a request of the application's,
or a response. -/
inductive Raw
  | empty
  | request (id : Nat)
  | response

/-- `dia_request_t`.  The last field is the observer's: the request of the application the slot
works for, and none when it works for a request received. -/
structure DiaRequest where
  coap_tid : Nat
  dia_tid : Int
  typeReq : Option Method
  inlist : Bool
  cnt : Nat
  when : Int
  raw : Raw
  owner : Option Nat

/-- A slot after `memset`. -/
def DiaRequest.zero : DiaRequest := ⟨0, 0, none, false, 0, 0, .empty, none⟩

/-- The slot works for a request of the application's. -/
def DiaRequest.isClient (r : DiaRequest) : Bool := r.inlist && r.owner.isSome

/-- The table.  `wild` tells that a slot outside the list was taken out of it, through pointers that
lead nowhere.  The last four fields are the observer's: the number of the next request of the
application's, and for whom the response callback and the error callback were called and requests
were sent again. -/
structure RequestTable where
  gRequests : List DiaRequest
  reqList : List Nat
  wild : Bool
  coap_tid : Nat
  dia_tid : Nat
  nextId : Nat
  responded : List (Option Nat)
  errored : List (Option Nat)
  retransmitted : List Nat

namespace RequestTable

/-- `dia_createContext`, which draws the two counters. -/
def dia_createContext (coap_tid dia_tid : Nat) : RequestTable where
  gRequests := List.replicate coapMaxRequests .zero
  reqList := []
  wild := false
  coap_tid := coap_tid
  dia_tid := dia_tid
  nextId := 0
  responded := []
  errored := []
  retransmitted := []

variable (s : RequestTable)

/-- The slot `i` replaced. -/
def setSlot (i : Nat) (r : DiaRequest) : RequestTable :=
  { s with gRequests := s.gRequests.set i r }

variable (now : Int)

/-- A slot `alloc_request` takes: one out of the list, or an old one. -/
def isAllocatable (r : DiaRequest) : Bool :=
  !r.inlist || coapDefaultMaxAge ≤ now - r.when

/-- The first slot that can be taken. -/
def allocIndex : Option Nat :=
  s.gRequests.findIdx? (isAllocatable now)

/-- `alloc_request`: the slot taken, which keeps its ids. -/
def alloc_request : Option (Nat × RequestTable) :=
  match s.allocIndex now with
  | none => none
  | some i => (s.gRequests[i]?).map fun r =>
    let t := s.setSlot i { r with cnt := 0, when := now, inlist := true, owner := none }
    (i, if r.inlist then t else { t with reqList := s.reqList ++ [i] })

/-- `list_del` on the slot `i`. -/
def list_del (i : Nat) : RequestTable :=
  if i ∈ s.reqList then { s with reqList := s.reqList.erase i } else { s with wild := true }

/-- `free_request` on the slot `i`, which holds `r`. -/
def free_request (i : Nat) (r : DiaRequest) : RequestTable :=
  (s.setSlot i { r with coap_tid := 0, dia_tid := 0, when := 0, cnt := 0, inlist := false }).list_del i

variable (coap_tid : Nat)

def find_request_by_coap_tid : Option Nat :=
  s.gRequests.findIdx? fun r => r.coap_tid = coap_tid

def find_request_by_dia_tid (dia_tid : Int) : Option Nat :=
  s.gRequests.findIdx? fun r => r.dia_tid = dia_tid

def newCoapTid : Nat :=
  if coapMaxTid < s.coap_tid + 1 then 1 else s.coap_tid + 1

def newDiaTid : Nat :=
  if coapMaxTokenValue < s.dia_tid + 1 then 1 else s.dia_tid + 1

/-- `diaRequest`: the request is accepted when there is a slot for it, and then sent. -/
def diaRequest (type : Method) : RequestTable :=
  -- no slot is free: the call returns without a request
  match s.alloc_request now with
  | none => s
  | some (i, t) =>
    match t.gRequests[i]? with
    | none => t
    | some r =>
      { t.setSlot i { r with
          typeReq := some type
          coap_tid := s.newCoapTid
          dia_tid := s.newDiaTid
          raw := .request s.nextId
          owner := some s.nextId } with
        coap_tid := s.newCoapTid
        dia_tid := s.newDiaTid
        nextId := s.nextId + 1 }

/-- `diaResponse`: the slot waits for the acknowledgement of the response from then on. -/
def diaResponse (tid : Int) : RequestTable :=
  match s.find_request_by_dia_tid tid with
  | none => s
  | some i =>
    match s.gRequests[i]? with
    | none => s
    | some r =>
      { s.setSlot i { r with coap_tid := s.newCoapTid, dia_tid := 0, raw := .response } with
        coap_tid := s.newCoapTid }

/-- The slot of a received request: the one that has its message id, else a new one. -/
def requestSlot : Option (Nat × RequestTable) :=
  match s.find_request_by_coap_tid coap_tid with
  | some i => some (i, s)
  | none => s.alloc_request now

/-- `hnd_request`, as far as the table goes; the token option, where the message has one, gives the
slot its transaction id. -/
def hnd_request (code : Method) (coap_tid : Nat)
    (token : Option Int) : RequestTable :=
  match s.requestSlot now coap_tid with
  | none => s
  | some (i, t) =>
    match t.gRequests[i]? with
    | none => t
    | some r =>
      t.setSlot i { r with
        typeReq := some code
        coap_tid := coap_tid
        -- without a token the slot keeps the identifier of whom it served before
        dia_tid := token.getD r.dia_tid
        -- the request comes from the peer, no call of `diaRequest` owns it
        owner := none }

/-- `hnd_response`: the callback is the one of the slot's request, if the slot ever had one. -/
def hnd_response (token : Option Int) : RequestTable :=
  match s.find_request_by_dia_tid (token.getD 0) with
  | none => s
  | some i =>
    match s.gRequests[i]? with
    | none => s
    | some r =>
      let t := if r.typeReq.isSome then { s with responded := s.responded ++ [r.owner] } else s
      t.free_request i r

def hnd_ack : RequestTable :=
  match s.find_request_by_coap_tid coap_tid with
  | none => s
  | some i =>
    match s.gRequests[i]? with
    | none => s
    | some r =>
      let r := { r with coap_tid := 0 }
      let t := s.setSlot i r
      if r.dia_tid = 0 then t.free_request i r else t

/-- A slot the timer looks at. -/
def isDue (r : DiaRequest) : Bool :=
  r.inlist && r.when + coapDefaultResponseTimeout ≤ now

/-- What of the application's is sent again with the buffer of a slot. -/
def Raw.sent : Raw → List Nat
  | .request id => [id]
  | _ => []

/-- One pass of the loop of `dIa_nextTimer`. -/
def timerPass (s : RequestTable) (i : Nat) : RequestTable :=
  match s.gRequests[i]? with
  | none => s
  | some r =>
    if isDue now r then
      if r.cnt < coapDefaultMaxRetransmit then
        { s.setSlot i { r with cnt := r.cnt + 1, when := now } with
          retransmitted := s.retransmitted ++ Raw.sent r.raw }
      else { s with errored := s.errored ++ [r.owner] }.free_request i r
    else s

def dIa_nextTimer : RequestTable :=
  (List.range coapMaxRequests).foldl (timerPass now) s

end RequestTable

/-- What happens to the table: a call of the application, a message that comes in, the timer. -/
inductive RequestEvent
  | diaRequest (now : Int) (type : Method)
  | diaResponse (tid : Int)
  | request (now : Int) (code : Method) (coap_tid : Nat) (token : Option Int)
  | response (token : Option Int)
  | ack (coap_tid : Nat)
  | timer (now : Int)

/-- One event. -/
def RequestTable.step (s : RequestTable) : RequestEvent → Option RequestTable
  | .diaRequest now type => some (s.diaRequest now type)
  | .diaResponse tid => some (s.diaResponse tid)
  | .request now code coap_tid token => some (s.hnd_request now code coap_tid token)
  | .response token => some (s.hnd_response token)
  | .ack coap_tid => some (s.hnd_ack coap_tid)
  | .timer now => some (s.dIa_nextTimer now)

end Ong.MicroDia
