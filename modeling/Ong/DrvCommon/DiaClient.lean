import Mathlib.Algebra.Ring.Int.Defs
import Ong.Lib.Run
import Ong.Lib.Loop

/-!
# The request table of the DIA client

The client side of the drivers keeps its requests in a table of slots.  A new request takes a free
slot; `WDiaSendRequest` calls back the requests not yet sent, which send themselves; a response, an
error or the clock completes a sent request: its slot is released, its completion callback runs, and
may make new requests, from the slot just released or from scratch.
-/

namespace Ong.DrvCommon

def maxRequestDia : Nat := 100

def maxPendingDia : Int := 1

def initTimeoutDia : Int := 180

def requestTimeoutDia : Int := 180

/-- The values of `rq_waitRsp`. -/
inductive WaitRsp
  | nuse
  | init
  | sent
  deriving DecidableEq

/-- What the pointer `rq_targetId` leads to: nothing, a string, or memory that has been freed. -/
inductive TargetId
  | null
  | uri (s : String)
  | freed
  deriving DecidableEq

/-- `t_dia_req`.  The last two fields are the observer's: the number of the request, and the target
it was created with. -/
structure DiaReq where
  waitRsp : WaitRsp
  tid : Int
  initAt : Int
  sendAt : Int
  waitMax : Int
  retry : Nat
  targetId : TargetId
  id : Nat
  created : TargetId

/-- A `t_dia_req` after `memset`. -/
def DiaReq.zero : DiaReq := ⟨.nuse, 0, 0, 0, 0, 0, .null, 0, .null⟩

/-- A slot in use is one that is not free. -/
def DiaReq.inUse (r : DiaReq) : Bool := r.waitRsp ≠ .nuse

/-- The table, the counters and the monotonic clock; and, for the observer, the number of the next
request, the requests that were put in the sent state, and those whose completion callback was
called. -/
structure DiaClient where
  tbReq : List DiaReq
  nbReqInuse : Int
  nbReqPending : Int
  timemono : Int
  nextId : Nat
  sent : List Nat
  called : List Nat

/-- The request macros, as far as the table sees them: `DIA_CREATE_REQUEST` records its target,
`DIA_RETRIEVE_REQUEST` and `DIA_DELETE_REQUEST` leave the one of the request they copy. -/
inductive RequestMacro
  | create (target : String)
  | retrieveOrDelete
  deriving DecidableEq

/-- What a completion callback does: nothing to the table; a new request made from the one just
completed; or new requests of its own. -/
inductive Completion
  | quiet
  | chain (m : RequestMacro)
  | start (ms : List RequestMacro)
  deriving DecidableEq

/-- What becomes of an attempt to send: the user context of the request is not found, the lower
layer refuses, or it accepts and gives a transaction id. -/
inductive SendAnswer
  | contextFailed
  | refused
  | accepted (tid : Int)
  deriving DecidableEq

namespace DiaClient

variable (c : DiaClient)

/-- The first free slot. -/
def firstFree : Option Nat := c.tbReq.findIdx? fun r => !r.inUse

variable (i : Nat)

variable (r : DiaReq)

/-- The slot `i` replaced. -/
def setSlot : DiaClient :=
  { c with tbReq := c.tbReq.set i r }

/-- `_WDiaInitRequest`, for a request whose target string, if any, belongs to the slot `owner`. -/
def _WDiaInitRequest (req : DiaReq) (owner : Option Nat) : DiaClient :=
  match c.firstFree with
  | none => c
  | some i =>
    -- what the slot held is freed before the request is copied into it
    let targetId := if owner = some i ∧ req.targetId ≠ .null then .freed else req.targetId
    { c.setSlot i
        { req with
          waitRsp := .init, tid := -1, initAt := c.timemono, targetId
          id := c.nextId, created := req.targetId } with
      nbReqInuse := c.nbReqInuse + 1
      nextId := c.nextId + 1 }

/-- The branch of the request macros for a request that is not in use: it is copied and
allocated. -/
def diaRequest (preq : DiaReq) (owner : Option Nat) : RequestMacro → DiaClient
  | .create target => c._WDiaInitRequest { preq with targetId := .uri target } none
  | .retrieveOrDelete => c._WDiaInitRequest preq owner

/-- A completion callback on the slot `i`. -/
def completion : Completion → DiaClient
  | .quiet => c
  | .chain m =>
    match c.tbReq[i]? with
    | none => c
    | some preq => c.diaRequest preq (some i) m
  | .start ms => ms.foldl (fun c m => c.diaRequest .zero none m) c

def _WDiaAddRequest (req : DiaReq) : DiaClient :=
  if req.waitRsp ≠ .init then c
  else
    { c.setSlot i
        { req with
          waitRsp := .sent, sendAt := c.timemono
          waitMax := ((req.retry : Int) + 1) * requestTimeoutDia } with
      nbReqPending := c.nbReqPending + 1
      sent := req.id :: c.sent }

/-- The callback of the request `r` in the slot `i`, called to send it. -/
def sendSlot : SendAnswer → DiaClient
  -- `WDiaUserContext` frees the slot, and leaves the counter
  | .contextFailed => c.setSlot i { r with waitRsp := .nuse }
  | .refused => c
  | .accepted tid => c._WDiaAddRequest i { r with tid }

variable (answers : Nat → SendAnswer)

/-- One pass of the loop of `WDiaSendRequest`.  The loop returns when it meets a request it may not
send any more: the passes that would follow change nothing either. -/
def trySend (c : DiaClient) (i : Nat) : DiaClient :=
  match c.tbReq[i]? with
  | none => c
  | some r =>
    if r.waitRsp = .init ∧ c.nbReqPending < maxPendingDia then c.sendSlot i r (answers i) else c

def _WDiaSendRequest : DiaClient :=
  (List.range c.tbReq.length).foldl (trySend answers) c

/-- The first sent request with the transaction id. -/
def findSent (tid : Int) : Option Nat :=
  c.tbReq.findIdx? fun r => r.waitRsp = .sent ∧ r.tid = tid

/-- The release of the slot `i` before its completion callback is called; `pending` says whether it
was waiting for a response. -/
def release (pending : Bool) : DiaClient :=
  { c.setSlot i { r with waitRsp := .nuse } with
    nbReqPending := if pending then c.nbReqPending - 1 else c.nbReqPending
    nbReqInuse := c.nbReqInuse - 1
    called := r.id :: c.called }

/-- The response callbacks: `FindRequest`, the completion callback, and what can be sent now. -/
def cbDiaResponse (tid : Int) (does : Completion) (answers : Nat → SendAnswer) :
    DiaClient :=
  match c.findSent tid with
  | none => c
  | some i =>
    match c.tbReq[i]? with
    | none => c
    | some r => ((c.release i r true).completion i does)._WDiaSendRequest answers

/-- The target string of the slot `i` freed. -/
def freeTarget : DiaClient :=
  match c.tbReq[i]? with
  | none => c
  | some r => c.setSlot i { r with targetId := .null }

/-- A request that is not completed in time.  The macros count a retry, and `MAX_RETRY_DIA` is 0. -/
def timeout (pending : Bool) (does : Completion) :
    DiaClient :=
  (((c.release i { r with retry := r.retry + 1 } pending).completion i does).freeTarget i)

/-- The slot has waited too long at `now`. -/
def DiaReq.overdue (now : Int) : Bool :=
  match r.waitRsp with
  | .nuse => false
  | .init => initTimeoutDia ≤ (now - r.initAt).natAbs
  | .sent => r.waitMax ≤ (now - r.sendAt).natAbs

/-- One pass of the loop of `DiaClientClockSc`. -/
def ticSlot (now : Int) (does : Nat → Completion) (c : DiaClient) (i : Nat) : DiaClient :=
  match c.tbReq[i]? with
  | none => c
  | some r =>
    if DiaReq.overdue r now then c.timeout i r (r.waitRsp = .sent) (does i) else c

def _DiaClientClockSc (now : Int) (does : Nat → Completion)
    (answers : Nat → SendAnswer) : DiaClient :=
  ((List.range c.tbReq.length).foldl (ticSlot now does) c)._WDiaSendRequest answers

def _DiaFlushRequest : DiaClient :=
  if 0 < c.nbReqInuse ∧ c.nbReqPending < maxPendingDia then c._WDiaSendRequest answers else c

/-- The table before the first request. -/
def initial (timemono : Int) : DiaClient :=
  ⟨List.replicate maxRequestDia .zero, 0, 0, timemono, 0, [], []⟩

end DiaClient

/-- What happens to the client: the clock moves, a new request is made, the main loop flushes, a
response or an error comes, or the clock of the client ticks. -/
inductive ClientEvent
  | timemono (now : Int)
  | request (m : RequestMacro)
  | flush (answers : Nat → SendAnswer)
  | response (tid : Int) (does : Completion) (answers : Nat → SendAnswer)
  | tic (now : Int) (does : Nat → Completion) (answers : Nat → SendAnswer)

/-- One event; each can happen at any time. -/
def DiaClient.step (c : DiaClient) : ClientEvent → Option DiaClient
  | .timemono now => some { c with timemono := now }
  | .request m => some (c.diaRequest .zero none m)
  | .flush answers => some (c._DiaFlushRequest answers)
  | .response tid does answers => some (c.cbDiaResponse tid does answers)
  | .tic now does answers => some (c._DiaClientClockSc now does answers)

end Ong.DrvCommon
