import Ong.Lib.LastMatch
import Ong.Azap.UartBufControl

/-!
# The requests of a port

A request is sent at once when the coordinator can take it, else it waits in the list of the
postponed requests.  It is then in the list of the pending requests until its response, a failure to
send it, or its end of life.

## Main results

* `Port.request_cases`: the outcomes of a request
* `Port.sendPostponed_rule`: the rule of the loop over the postponed requests
-/

namespace Ong.Azap

open LastMatch List

/-- `AZAP_REQUEST_TYPE` -/
inductive RequestType
  | zdoNwkAddrReq | zdoIeeeAddrReq | zdoNodeDescReq | zdoPowerDescReq | zdoActiveEpReq
  | zdoSimpleDescReq | zdoBindReq | zdoUnbindReq | zdoMgmtRtgReq | zdoMgmtBindReq
  | zdoMgmtPermitJoinReq | zdoMgmtLeaveReq
  | zclReadCmd | zclWriteCmd | zclConfigureReportingCmd | zclDiscoverCmd | zclOutgoingCmd
  | zclOutgoingExtCmd | zclReportCmd | zclReadReportingConfCmd
  deriving DecidableEq

/-- `REQ_ZCL_FAMILY`, the other types are of the ZDO family. -/
def RequestType.isZcl : RequestType → Bool
  | .zclReadCmd | .zclWriteCmd | .zclConfigureReportingCmd | .zclDiscoverCmd | .zclOutgoingCmd
  | .zclOutgoingExtCmd | .zclReportCmd | .zclReadReportingConfCmd => true
  | _ => false

/-- The types that `callbackOnFailure` calls back for. -/
def RequestType.hasFailureCallback : RequestType → Bool
  | .zclOutgoingCmd | .zclOutgoingExtCmd | .zclReportCmd => false
  | _ => true

/-- `AZAP_REQ_TTL_MGMT_MODE` -/
inductive TtlMode
  | startAtApi | startAtZbSend
  deriving DecidableEq

/-- `AZAP_REQ_TTL_START_AT_API` and `AZAP_REQ_TTL_START_AT_ZB_SEND` -/
def TtlMode.toInt : TtlMode → Int
  | .startAtApi => 0
  | .startAtZbSend => 1

/-- A request context, with `responseExpected` and `dataLen` of its parameters; `id` stands for its
address. -/
structure RequestContext where
  id : Nat
  type : RequestType
  transactionId : UInt8 := 0
  timeToLive : Int
  ttlMode : TtlMode
  nwkAddrDest : UInt16
  clusterId : UInt16
  manufacturerCode : UInt16
  remoteEndp : UInt8
  expectedCmdCode : UInt8
  responseExpected : Bool
  dataLen : UInt8
  deriving DecidableEq

variable (c : RequestContext)

/-- A context, apart from what sending it changes. -/
def RequestContext.unsent : RequestContext := { c with transactionId := 0 }

/-- What identifies a context, and says whom to call back. -/
def RequestContext.key : Nat × RequestType × Bool :=
  (c.id, c.type, c.responseExpected)

/-- The parameters of a request. -/
structure Request where
  ttlMode : TtlMode
  type : RequestType
  responseExpected : Bool
  nwkAddrDest : UInt16
  remoteEndPoint : UInt8
  clusterId : UInt16
  manufacturerCode : UInt16
  expectedCmdCode : UInt8
  dataLen : UInt8

/-- The new context of a request. -/
def newRequestContext (timeoutValue : Int) (id : Nat) (r : Request) : RequestContext where
  id
  type := r.type
  timeToLive := timeoutValue
  ttlMode := r.ttlMode
  nwkAddrDest := r.nwkAddrDest
  clusterId := r.clusterId
  manufacturerCode := r.manufacturerCode
  remoteEndp := r.remoteEndPoint
  expectedCmdCode := r.expectedCmdCode
  responseExpected := r.responseExpected
  dataLen := r.dataLen

/-- `requestContext_t_tic`, which compares the mode with the time to live. -/
def RequestContext.tic (requestSent : Bool) : RequestContext :=
  if requestSent || TtlMode.startAtApi.toInt = c.timeToLive then
    { c with timeToLive := c.timeToLive - 1 }
  else c

/-! ## Sending -/

/-- `znpSend` of a length; `room` says whether the transmit buffer has room for the frame. -/
def znpSendLen (len : Nat) (room : Bool) : Bool :=
  if len > maxZnpPayloadSize - 5 then false else room

/-- `znpSendAfDataRequest`: the transaction identifier of the frame that was put, and the counter of
the identifiers. -/
def znpSendAfDataRequest (transactionId : UInt8) (bufLen : Nat) (room : Bool) :
    Option UInt8 × UInt8 :=
  let len := 20
  let sent := len + bufLen < maxZnpPayloadSize ∧ znpSendLen (len + bufLen) room = true
  (if sent then some transactionId else none, transactionId + 1)

/-- What sending a request does: the identifier of its AF data request, and the counter. -/
structure SendResult where
  res : Bool
  elt : RequestContext
  afTransactionId : Option UInt8
  zclTransactionId : UInt8

/-- The length of a ZCL header, with the manufacturer code if any. -/
def zclHeaderLen (manufacturerCode : UInt16) : Nat := if manufacturerCode ≠ 0 then 5 else 3

def znpSendZclCommand (zclTransactionId : UInt8) (elt : RequestContext) (room : Bool) :
    SendResult :=
  let len := zclHeaderLen elt.manufacturerCode + elt.dataLen.toNat
  if len < maxZnpPayloadSize then
    let (sent, next) := znpSendAfDataRequest zclTransactionId len room
    ⟨sent.isSome, { elt with transactionId := zclTransactionId }, sent, next⟩
  else ⟨false, elt, none, zclTransactionId⟩

/-- `requestManager_t_sendRequest` -/
def sendRequest (zclTransactionId : UInt8) (elt : RequestContext) (room : Bool) : SendResult :=
  if elt.type.isZcl then znpSendZclCommand zclTransactionId elt room
  else ⟨znpSendLen elt.dataLen.toNat room, elt, none, zclTransactionId⟩

/-! ## The lists -/

/-- `MAX_CC2531_SIMULTANEOUS_TOTAL_REQ` -/
def maxTotalReq : Nat := 10

/-- `MAX_CC2531_SIMULTANEOUS_PER_NODE_REQ` -/
def maxPerNodeReq : Nat := 3

/-- `MAX_CC2531_SIMULTANEOUS_PER_EP_REQ` -/
def maxPerEpReq : Nat := 1

variable (pendingRequests : List RequestContext)

/-- `requestManager_t_readyToSend` -/
def readyToSend (nwkAddrDest : UInt16)
    (remoteEndPointId : UInt8) : Bool :=
  let nbTotalReq := pendingRequests.length
  let nbReqOnDest := pendingRequests.countP fun elt => nwkAddrDest = elt.nwkAddrDest
  let nbReqOnEp := pendingRequests.countP fun elt =>
    nwkAddrDest = elt.nwkAddrDest ∧ remoteEndPointId ≠ 0 ∧ remoteEndPointId = elt.remoteEndp
  nbTotalReq < maxTotalReq && nbReqOnDest < maxPerNodeReq && nbReqOnEp < maxPerEpReq

/-- `requestManager_t_readyToSendDoublonCheck` -/
def readyToSendDoublonCheck (nwkAddrDest : UInt16)
    (type : RequestType) (clusterId : UInt16) (remoteEndPointId cmdCode : UInt8) : Bool :=
  let isDoublon := pendingRequests.any fun elt =>
    type = elt.type ∧ nwkAddrDest = elt.nwkAddrDest ∧ clusterId = elt.clusterId ∧
      remoteEndPointId = elt.remoteEndp ∧ cmdCode = elt.expectedCmdCode
  !isDoublon && readyToSend pendingRequests nwkAddrDest remoteEndPointId

/-- `requestManager_t_removePending`: the last match, where an end point 0 stands for any one. -/
def removePending (nwkAddrSrc : UInt16)
    (type : RequestType) (clusterId : UInt16) (remoteEndPointId cmdCode : UInt8) :
    Option (RequestContext × List RequestContext) :=
  takeLast (fun elt => type = elt.type ∧ nwkAddrSrc = elt.nwkAddrDest ∧ clusterId = elt.clusterId ∧
    (0 = remoteEndPointId ∨ remoteEndPointId = elt.remoteEndp) ∧ cmdCode = elt.expectedCmdCode)
    pendingRequests

/-- `requestManager_t_removePendingAf` -/
def removePendingAf (transId : UInt8) :
    Option (RequestContext × List RequestContext) :=
  takeLast (fun elt => transId = elt.transactionId) pendingRequests

/-- `requestManager_t_age1sAndLookForTimedOutReq`: the requests that stay, and those that have timed
out. -/
def age1sAndLookForTimedOutReq (list : List RequestContext) (requestSent : Bool) :
    List RequestContext × List RequestContext :=
  (list.map (RequestContext.tic · requestSent)).partition (·.timeToLive > 0)

/-! ## The port -/

/-- The lists of a port and the counter of the ZCL transactions, with the history of the
requests. -/
structure Port where
  postponedRequests : List RequestContext := []
  pendingRequests : List RequestContext := []
  zclTransactionId : UInt8 := 0
  nextId : Nat := 0
  /-- a freed context was read -/
  freedTouched : Bool := false
  /-- a null pointer was followed -/
  crashed : Bool := false
  /-- the requests that were accepted -/
  accepted : List RequestContext := []
  /-- the requests without response that were sent at once -/
  sentOff : List RequestContext := []
  /-- the requests that a response was found for; the issuer was called back -/
  answered : List RequestContext := []
  /-- the calls of `callbackOnFailure` -/
  failed : List RequestContext := []
  /-- the AF data requests that were sent: the context and the transaction identifier -/
  afRequests : List (Nat × UInt8) := []
  /-- the number of tics -/
  clock : Nat := 0
  acceptedAt : Nat → Nat := fun _ => 0
  sentAt : Nat → Nat := fun _ => 0

namespace Port

/-- `readyToSendDoublonCheck`, of the destination of a context -/
def ready (s : Port) (elt : RequestContext) : Bool :=
  readyToSendDoublonCheck s.pendingRequests elt.nwkAddrDest elt.type elt.clusterId elt.remoteEndp
    elt.expectedCmdCode

/-- The context is sent. -/
def send (s : Port) (sent : SendResult) : Port :=
  { s with
    zclTransactionId := sent.zclTransactionId
    afRequests := s.afRequests ++ sent.afTransactionId.toList.map (sent.elt.id, ·)
    sentAt := Function.update s.sentAt sent.elt.id s.clock }

/-- The request is accepted. -/
def accept (s : Port) (context : RequestContext) : Port :=
  { s with
    accepted := s.accepted ++ [context]
    acceptedAt := Function.update s.acceptedAt context.id s.clock }

/-- A context is added to the list of the pending requests. -/
def addPending (s : Port) (context : RequestContext) : Port :=
  { s with pendingRequests := s.pendingRequests ++ [context] }

/-- A context is added to the list of the postponed requests. -/
def addPostponed (s : Port) (context : RequestContext) : Port :=
  { s with postponedRequests := s.postponedRequests ++ [context] }

/-- The context of a request that was not sent is searched for, and freed. -/
def freeContext (s : Port) (context : RequestContext) : Port :=
  match removePending s.pendingRequests context.nwkAddrDest context.type context.clusterId
      context.remoteEndp context.expectedCmdCode with
  | some (_, pendingRequests) => { s with pendingRequests }
  | none => { s with crashed := true }

/-- The new context of a request, and the port that has allocated it. -/
def newContext (timeout : Int) (s : Port) (r : Request) : RequestContext × Port :=
  (newRequestContext timeout s.nextId r, { s with nextId := s.nextId + 1 })

/-- `portContext_t_sendRequest`, of `sendZdo` and `sendZcl` -/
def sendRequest (timeout : Int) (s : Port) (r : Request) (room : Bool) : Bool × Port :=
  let (context, s) := s.newContext timeout r
  if s.ready context then
    let sent := Azap.sendRequest s.zclTransactionId context room
    if r.responseExpected then
      let s := (s.send sent).addPending sent.elt
      if sent.res then (true, s.accept sent.elt) else (false, s.freeContext sent.elt)
    else
      let s := s.send sent
      if sent.res then (true, { s.accept sent.elt with sentOff := s.sentOff ++ [sent.elt] })
      else
        -- the temporary context is freed already, and its fields are read as they were
        (false, { s.freeContext sent.elt with freedTouched := true })
  else (true, (s.accept context).addPostponed context)

/-- One turn of the loop over the postponed requests, where `postponedRequests` are those that
stay. -/
def lookForPostponed (room : Nat → Bool) (s : Port) (elt : RequestContext) : Port :=
  if s.ready elt then
    let sent := Azap.sendRequest s.zclTransactionId elt (room elt.id)
    if sent.res then (s.send sent).addPending sent.elt else (s.send sent).addPostponed sent.elt
  else s.addPostponed elt

/-- `requestManager_t_lookForPostponedReqToSend` -/
def lookForPostponedReqToSend (s : Port) (room : Nat → Bool) : Port :=
  if readyToSend s.pendingRequests 0 0 then
    s.postponedRequests.foldl (lookForPostponed room) { s with postponedRequests := [] }
  else s

/-- The requests are one second older. -/
def age (s : Port) : Port :=
  let (postponedRequests, failedPostponed) :=
    age1sAndLookForTimedOutReq s.postponedRequests false
  let (pendingRequests, failedPending) := age1sAndLookForTimedOutReq s.pendingRequests true
  { s with
    postponedRequests
    pendingRequests
    failed := s.failed ++ (failedPostponed ++ failedPending)
    clock := s.clock + 1 }

/-- `requestManager_t_tic` -/
def tic (s : Port) (room : Nat → Bool) : Port := s.age.lookForPostponedReqToSend room

/-- A response: the issuer of its request is called back, and the context is freed. -/
def response (s : Port) (nwkAddrSrc : UInt16) (type : RequestType) (clusterId : UInt16)
    (remoteEndPointId cmdCode : UInt8) : Port :=
  match removePending s.pendingRequests nwkAddrSrc type clusterId remoteEndPointId cmdCode with
  | some (context, pendingRequests) =>
    { s with pendingRequests, answered := s.answered ++ [context] }
  | none => s

def zclStatusSuccess : UInt8 := 0

/-- `portContext_t_parseAndProcessAfDataConfirm`, of a status and a transaction identifier -/
def afDataConfirm (s : Port) (status transId : UInt8) : Port :=
  if zclStatusSuccess ≠ status then
    match removePendingAf s.pendingRequests transId with
    | some (context, pendingRequests) =>
      { s with pendingRequests, failed := s.failed ++ [context] }
    | none => s
  else s

end Port

/-- What happens to a port; `room` says which sends find room in the transmit buffer, at a tic by
the context that is sent. -/
inductive PortEvent
  | request (r : Request) (room : Bool)
  | response (nwkAddrSrc : UInt16) (type : RequestType) (clusterId : UInt16)
      (remoteEndPointId cmdCode : UInt8)
  | afDataConfirm (status transId : UInt8)
  | tic (room : Nat → Bool)

/-- What an event does, where a request has `timeout` seconds to live. -/
def Port.after (timeout : Int) (s : Port) : PortEvent → Port
  | .request r room => (s.sendRequest timeout r room).2
  | .response nwkAddrSrc type clusterId remoteEndPointId cmdCode =>
    s.response nwkAddrSrc type clusterId remoteEndPointId cmdCode
  | .afDataConfirm status transId => s.afDataConfirm status transId
  | .tic room => s.tic room

/-- The transitions of a port; nothing comes after a crash. -/
def Port.step (timeout : Int) (s : Port) (e : PortEvent) : Option Port :=
  if s.crashed then none else some (s.after timeout e)

section Send

variable (g : UInt8) (elt : RequestContext) (room : Bool)

theorem sendRequest_elt :
    ∃ transactionId, (sendRequest g elt room).elt = { elt with transactionId } := by
  unfold sendRequest
  split
  · unfold znpSendZclCommand
    dsimp only
    split
    · exact ⟨g, rfl⟩
    · exact ⟨elt.transactionId, rfl⟩
  · exact ⟨elt.transactionId, rfl⟩

@[simp] theorem sendRequest_id : (sendRequest g elt room).elt.id = elt.id := by
  obtain ⟨t, h⟩ := sendRequest_elt g elt room
  rw [h]

@[simp] theorem sendRequest_type : (sendRequest g elt room).elt.type = elt.type := by
  obtain ⟨t, h⟩ := sendRequest_elt g elt room
  rw [h]

@[simp] theorem sendRequest_responseExpected :
    (sendRequest g elt room).elt.responseExpected = elt.responseExpected := by
  obtain ⟨t, h⟩ := sendRequest_elt g elt room
  rw [h]

@[simp] theorem sendRequest_timeToLive :
    (sendRequest g elt room).elt.timeToLive = elt.timeToLive := by
  obtain ⟨t, h⟩ := sendRequest_elt g elt room
  rw [h]

theorem sendRequest_afTransactionId (h : (sendRequest g elt room).res = true) :
    (sendRequest g elt room).afTransactionId =
      if elt.type.isZcl then some (sendRequest g elt room).elt.transactionId else none := by
  unfold sendRequest at h ⊢
  split at h
  · unfold znpSendZclCommand at h ⊢
    dsimp only at h ⊢
    split at h
    · next hzcl hlen =>
      rw [if_pos hzcl, if_pos hlen, if_pos hzcl]
      unfold znpSendAfDataRequest at h ⊢
      dsimp only at h ⊢
      split at h
      · next hsent => rw [if_pos hsent]
      · cases h
    · cases h
  · next hzcl => rw [if_neg hzcl, if_neg hzcl]

theorem sendRequest_afTransactionId_of_false (h : (sendRequest g elt room).res = false) :
    (sendRequest g elt room).afTransactionId = none := by
  unfold sendRequest at h ⊢
  split at h
  · next hzcl =>
    rw [if_pos hzcl]
    unfold znpSendZclCommand at h ⊢
    dsimp only at h ⊢
    split at h
    · next hlen =>
      rw [if_pos hlen]
      exact Option.isSome_eq_false_iff.mp h |> Option.isNone_iff_eq_none.mp
    · next hlen => rw [if_neg hlen]
  · next hzcl => rw [if_neg hzcl]

theorem sendRequest_elt_of_zdo (h : elt.type.isZcl = false) :
    (sendRequest g elt room).elt = elt := by
  unfold sendRequest
  rw [if_neg (ne_true_of_eq_false h)]

end Send

namespace Port

section Request

variable {timeout : Int} {s : Port} {r : Request} {room : Bool}

theorem step_eq_some {e : PortEvent} {t : Port} (h : s.step timeout e = some t) :
    s.crashed = false ∧ t = s.after timeout e := by
  unfold step at h
  split at h
  · cases h
  · next hcrashed => exact ⟨eq_false_of_ne_true hcrashed, (Option.some.inj h).symm⟩

theorem freeContext_of_some {context elt : RequestContext} {l : List RequestContext}
    (h : removePending s.pendingRequests context.nwkAddrDest context.type context.clusterId
      context.remoteEndp context.expectedCmdCode = some (elt, l)) :
    s.freeContext context = { s with pendingRequests := l } := by
  unfold freeContext
  rw [h]

/-- The context that a request would have. -/
def contextOf (timeout : Int) (s : Port) (r : Request) : RequestContext :=
  newRequestContext timeout s.nextId r

/-- The sending of a request at once. -/
def sending (timeout : Int) (s : Port) (r : Request) (room : Bool) : SendResult :=
  Azap.sendRequest s.zclTransactionId (s.contextOf timeout r) room

/-- The number of the next context is taken. -/
def next (s : Port) : Port := { s with nextId := s.nextId + 1 }

theorem sendRequest_postponed (h : s.ready (s.contextOf timeout r) = false) :
    s.sendRequest timeout r room =
      (true, (s.next.accept (s.contextOf timeout r)).addPostponed (s.contextOf timeout r)) :=
  if_neg (ne_true_of_eq_false h)

section

variable (h : s.ready (s.contextOf timeout r) = true)

include h

theorem sendRequest_pending (hexpected : r.responseExpected = true)
    (hres : (s.sending timeout r room).res = true) :
    s.sendRequest timeout r room =
      (true, ((s.next.send (s.sending timeout r room)).addPending
        (s.sending timeout r room).elt).accept (s.sending timeout r room).elt) :=
  (if_pos h).trans ((if_pos hexpected).trans (if_pos hres))

theorem sendRequest_sentOff (hexpected : r.responseExpected = false)
    (hres : (s.sending timeout r room).res = true) :
    s.sendRequest timeout r room =
      (true, { (s.next.send (s.sending timeout r room)).accept (s.sending timeout r room).elt with
        sentOff := s.sentOff ++ [(s.sending timeout r room).elt] }) :=
  (if_pos h).trans ((if_neg (ne_true_of_eq_false hexpected)).trans (if_pos hres))

theorem sendRequest_refused (hexpected : r.responseExpected = true)
    (hres : (s.sending timeout r room).res = false) :
    s.sendRequest timeout r room = (false, s.next.send (s.sending timeout r room)) := by
  refine (if_pos h).trans ((if_pos hexpected).trans
    ((if_neg (ne_true_of_eq_false hres)).trans (congrArg (Prod.mk false) ?_)))
  exact freeContext_of_some (takeLast_concat (by simp))

theorem sendRequest_touched (hexpected : r.responseExpected = false)
    (hres : (s.sending timeout r room).res = false) :
    s.sendRequest timeout r room =
      (false, { (s.next.send (s.sending timeout r room)).freeContext
        (s.sending timeout r room).elt with freedTouched := true }) :=
  (if_pos h).trans ((if_neg (ne_true_of_eq_false hexpected)).trans
    (if_neg (ne_true_of_eq_false hres)))

end

end Request

/-! ## The loops -/

/-- The requests of the two lists. -/
def lists (s : Port) : List RequestContext := s.postponedRequests ++ s.pendingRequests

/-- What a loop over the postponed requests does not change. -/
structure Frame (s t : Port) : Prop where
  nextId : t.nextId = s.nextId
  freedTouched : t.freedTouched = s.freedTouched
  crashed : t.crashed = s.crashed
  accepted : t.accepted = s.accepted
  sentOff : t.sentOff = s.sentOff
  answered : t.answered = s.answered
  failed : t.failed = s.failed
  clock : t.clock = s.clock
  acceptedAt : t.acceptedAt = s.acceptedAt

section Loops

variable {room : Nat → Bool} {s t u : Port} {I : List RequestContext → Port → Prop}

theorem Frame.refl (s : Port) : Frame s s := ⟨rfl, rfl, rfl, rfl, rfl, rfl, rfl, rfl, rfl⟩

theorem Frame.trans (h : Frame s t) (h' : Frame t u) : Frame s u where
  nextId := h'.nextId.trans h.nextId
  freedTouched := h'.freedTouched.trans h.freedTouched
  crashed := h'.crashed.trans h.crashed
  accepted := h'.accepted.trans h.accepted
  sentOff := h'.sentOff.trans h.sentOff
  answered := h'.answered.trans h.answered
  failed := h'.failed.trans h.failed
  clock := h'.clock.trans h.clock
  acceptedAt := h'.acceptedAt.trans h.acceptedAt

theorem lookForPostponed_cases (room : Nat → Bool) (s : Port) (elt : RequestContext) :
    (s.ready elt = false ∧ lookForPostponed room s elt = s.addPostponed elt) ∨
      ∃ sent, sent = Azap.sendRequest s.zclTransactionId elt (room elt.id) ∧ s.ready elt = true ∧
        ((sent.res = false ∧ lookForPostponed room s elt = (s.send sent).addPostponed sent.elt) ∨
          (sent.res = true ∧ lookForPostponed room s elt = (s.send sent).addPending sent.elt)) := by
  unfold lookForPostponed
  by_cases hready : s.ready elt = true
  · right
    refine ⟨_, rfl, hready, ?_⟩
    rw [if_pos hready]
    by_cases hres : (Azap.sendRequest s.zclTransactionId elt (room elt.id)).res = true
    · rw [if_pos hres]
      exact .inr ⟨hres, rfl⟩
    · rw [if_neg hres]
      exact .inl ⟨eq_false_of_ne_true hres, rfl⟩
  · rw [if_neg hready]
    exact .inl ⟨eq_false_of_ne_true hready, rfl⟩

/-- **The rule of the loop**: what holds of the requests that remain and of the port, and that each
turn preserves, holds at its end. -/
theorem lookForPostponed_rule
    (hturn : ∀ elt rest s, I (elt :: rest) s → I rest (lookForPostponed room s elt))
    (l : List RequestContext) (s : Port) (h : I l s) :
    I [] (l.foldl (lookForPostponed room) s) := by
  induction l generalizing s with
  | nil => exact h
  | cons elt rest ih => exact ih _ (hturn elt rest s h)

theorem lookForPostponed_frame (room : Nat → Bool) (s : Port) (elt : RequestContext) :
    Frame s (lookForPostponed room s elt) := by
  rcases lookForPostponed_cases room s elt with ⟨-, h⟩ | ⟨sent, -, -, ⟨-, h⟩ | ⟨-, h⟩⟩
  · rw [h]
    exact ⟨rfl, rfl, rfl, rfl, rfl, rfl, rfl, rfl, rfl⟩
  · rw [h]
    exact ⟨rfl, rfl, rfl, rfl, rfl, rfl, rfl, rfl, rfl⟩
  · rw [h]
    exact ⟨rfl, rfl, rfl, rfl, rfl, rfl, rfl, rfl, rfl⟩

theorem lookForPostponedReqToSend_rule {P : Port → Prop} (hskip : P s)
    (hstart : I s.postponedRequests { s with postponedRequests := [] })
    (hturn : ∀ elt rest u, I (elt :: rest) u → I rest (lookForPostponed room u elt))
    (hend : ∀ u, I [] u → P u) : P (s.lookForPostponedReqToSend room) := by
  unfold lookForPostponedReqToSend
  split
  · exact hend _ (lookForPostponed_rule hturn _ _ hstart)
  · exact hskip

theorem lookForPostponedReqToSend_frame (s : Port) (room : Nat → Bool) :
    Frame s (s.lookForPostponedReqToSend room) :=
  lookForPostponedReqToSend_rule (P := Frame s) (I := fun _ u => Frame s u) (Frame.refl s)
    ⟨rfl, rfl, rfl, rfl, rfl, rfl, rfl, rfl, rfl⟩
    (fun elt _ u h => h.trans (lookForPostponed_frame room u elt)) fun _ h => h

theorem unsent_sendRequest (g : UInt8) (elt : RequestContext) (room : Bool) :
    (Azap.sendRequest g elt room).elt.unsent = elt.unsent := by
  obtain ⟨t, h⟩ := sendRequest_elt g elt room
  rw [h]
  rfl

theorem lookForPostponedReqToSend_perm (s : Port) (room : Nat → Bool) :
    ((s.lookForPostponedReqToSend room).lists.map (·.unsent)).Perm (s.lists.map (·.unsent)) := by
  refine lookForPostponedReqToSend_rule
    (P := fun u => (u.lists.map (·.unsent)).Perm (s.lists.map (·.unsent)))
    (I := fun rest u => ((rest ++ u.lists).map (·.unsent)).Perm (s.lists.map (·.unsent)))
    (Perm.refl _) ?_ ?_ fun u h => h
  · unfold lists
    rw [nil_append]
  · intro elt rest u h
    refine Perm.trans ?_ h
    rcases lookForPostponed_cases room u elt with ⟨-, hturn⟩ | ⟨sent, hsent, -, ⟨-, hturn⟩ | ⟨-, hturn⟩⟩
    · rw [hturn, perm_iff_count]
      intro a
      unfold lists addPostponed
      simp only [map_append, map_cons, map_nil, count_append, count_cons,
        count_nil, cons_append]
      omega
    · have hunsent : sent.elt.unsent = elt.unsent := hsent ▸ unsent_sendRequest _ _ _
      rw [hturn, perm_iff_count]
      intro a
      unfold lists addPostponed send
      simp only [map_append, map_cons, map_nil, count_append, count_cons,
        count_nil, cons_append, hunsent]
      omega
    · have hunsent : sent.elt.unsent = elt.unsent := hsent ▸ unsent_sendRequest _ _ _
      rw [hturn, perm_iff_count]
      intro a
      unfold lists addPending send
      simp only [map_append, map_cons, map_nil, count_append, count_cons,
        count_nil, cons_append, hunsent]
      omega

theorem age1s_perm (l : List RequestContext) (requestSent : Bool) :
    ((age1sAndLookForTimedOutReq l requestSent).1 ++
      (age1sAndLookForTimedOutReq l requestSent).2).Perm (l.map (RequestContext.tic · requestSent)) := by
  unfold age1sAndLookForTimedOutReq
  rw [partition_eq_filter_filter]
  exact filter_append_perm _ _

theorem key_tic (c : RequestContext) (requestSent : Bool) : (c.tic requestSent).key = c.key := by
  unfold RequestContext.tic
  split
  · rfl
  · rfl

/-- The requests that a tic times out. -/
def timedOut (s : Port) : List RequestContext :=
  (age1sAndLookForTimedOutReq s.postponedRequests false).2 ++
    (age1sAndLookForTimedOutReq s.pendingRequests true).2

theorem age_perm (s : Port) : ((s.age.lists ++ s.timedOut).map (·.key)).Perm (s.lists.map (·.key)) := by
  have hkey : ∀ (l : List RequestContext) (b : Bool),
      (l.map (RequestContext.tic · b)).map (·.key) = l.map (·.key) := by
    intro l b
    rw [map_map]
    exact map_congr_left fun c _ => key_tic c b
  have hpostponed := (age1s_perm s.postponedRequests false).map (·.key)
  have hpending := (age1s_perm s.pendingRequests true).map (·.key)
  rw [hkey] at hpostponed hpending
  rw [perm_iff_count] at hpostponed hpending ⊢
  intro a
  have h₁ := hpostponed a
  have h₂ := hpending a
  unfold lists timedOut age
  simp only [map_append, count_append] at h₁ h₂ ⊢
  omega

theorem age_postponed (h : ∀ c ∈ s.postponedRequests, 0 < c.timeToLive) :
    age1sAndLookForTimedOutReq s.postponedRequests false = (s.postponedRequests, []) := by
  have hmap : s.postponedRequests.map (RequestContext.tic · false) = s.postponedRequests := by
    refine (map_congr_left fun c hc => ?_).trans (map_id _)
    have hpos := h c hc
    unfold RequestContext.tic TtlMode.toInt
    rw [Bool.false_or, if_neg]
    · rfl
    · intro heq
      have hzero : 0 = c.timeToLive := of_decide_eq_true heq
      omega
  unfold age1sAndLookForTimedOutReq
  rw [hmap, partition_eq_filter_filter]
  refine Prod.ext ?_ ?_
  · exact filter_eq_self.mpr fun c hc => decide_eq_true (h c hc)
  · refine filter_eq_nil_iff.mpr fun c hc => ?_
    simp [h c hc]

theorem age_pending (s : Port) :
    s.age.pendingRequests =
      (s.pendingRequests.map (RequestContext.tic · true)).filter (·.timeToLive > 0) := by
  unfold age age1sAndLookForTimedOutReq
  rw [partition_eq_filter_filter, partition_eq_filter_filter]

/-- **A tic** moves requests from a list to the other, and times some out. -/
theorem tic_perm (s : Port) (room : Nat → Bool) :
    (((s.tic room).lists ++ s.timedOut).map (·.key)).Perm (s.lists.map (·.key)) := by
  have hloop := (lookForPostponedReqToSend_perm s.age room).map RequestContext.key
  rw [map_map, map_map] at hloop
  refine Perm.trans ?_ (age_perm s)
  rw [map_append, map_append]
  exact hloop.append_right _

theorem tic_failed (s : Port) (room : Nat → Bool) : (s.tic room).failed = s.failed ++ s.timedOut :=
  (lookForPostponedReqToSend_frame s.age room).failed

end Loops

end Port

end Ong.Azap
