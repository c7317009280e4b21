import Mathlib.Data.List.Perm.Basic
import Ong.Lib.TimerTask

/-!
# The long polling server

A contact request goes to the client in the response of a long polling request: it waits in a queue
until one comes, is then pending until the client notifies its response, and a timer answers it when
this takes too long.
-/

namespace Ong.SongHttp

open Lib

/-- What is read of a SONG request. -/
structure ContactRequest where
  id : Nat
  isProxy : Bool := false
  deriving DecidableEq

/-- A waiting contact request, or the flush request, as a task of the timer. -/
structure ContactWaitingLongPollingRequest where
  request : Option ContactRequest
  task : TimerTask
  deriving DecidableEq

/-- A contact request that was sent to the client, as a task of the timer. -/
structure ContactWaitingResponseNotifyRequest where
  transactionId : Nat
  request : ContactRequest
  task : TimerTask
  deriving DecidableEq

/-- The server of a connection, without its statistics; `index` is whether it is in the list of the
servers with a waiting long polling request. -/
structure LongPollingServer where
  queue : List ContactWaitingLongPollingRequest := []
  longPollingWaitingRequest : Option Nat := none
  index : Bool := false

/-- The server, the pending contact requests, and the number of the next transaction; then the
contact requests that reached the server, those that were sent to the client, the SONG responses,
and the long polling requests and their responses. -/
structure ServerWorld where
  server : LongPollingServer := {}
  pendingContactRequests : List ContactWaitingResponseNotifyRequest := []
  nextTransactionId : Nat := 0
  accepted : List Nat := []
  sent : List Nat := []
  responses : List (Nat × Int) := []
  received : List Nat := []
  answered : List (Nat × Nat) := []

/-! ## The queue -/

/-- The length of the array; one place stays free. -/
def queueLength : Nat := 33

/-- The array is full when only one place is free. -/
def offer (s : LongPollingServer) (o : ContactWaitingLongPollingRequest) : Option LongPollingServer :=
  if s.queue.length + 1 < queueLength then some { s with queue := s.queue ++ [o] } else none

def getCount (s : LongPollingServer) : Nat := s.queue.length

/-- The first request that can be cancelled, and the rest of the queue. -/
def poll : List ContactWaitingLongPollingRequest →
    Option ContactWaitingLongPollingRequest × List ContactWaitingLongPollingRequest
  | [] => (none, [])
  | e :: queue =>
    if e.task.cancel.1 then (some { e with task := e.task.cancel.2 }, queue) else poll queue

/-- What is polled until there is nothing more. -/
def pollAll : List ContactWaitingLongPollingRequest → List ContactWaitingLongPollingRequest
  | [] => []
  | e :: queue =>
    if e.task.cancel.1 then { e with task := e.task.cancel.2 } :: pollAll queue else pollAll queue

/-! ## The pending contact requests -/

namespace ServerWorld

variable (w : ServerWorld)

variable (r : ContactRequest)

def addPendingContactRequest : ServerWorld :=
  { w with
    nextTransactionId := w.nextTransactionId + 1
    pendingContactRequests :=
      ⟨w.nextTransactionId, r, .scheduled⟩ :: w.pendingContactRequests }

/-- The entry is cancelled too, and is nowhere any more. -/
def removePendingContactRequest (transactionId : Nat) : ServerWorld :=
  { w with
    pendingContactRequests :=
      w.pendingContactRequests.filter fun p => p.transactionId ≠ transactionId }

def respond (id : Nat) (status : Int) : ServerWorld :=
  { w with responses := (id, status) :: w.responses }

def answer (http status : Nat) : ServerWorld :=
  { w with answered := (http, status) :: w.answered }

/-- The contact request goes into the response of a long polling request, whose writing fails or
not; then it is not pending any more. -/
def sendContactRequest (http : Nat) (write : Bool) : ServerWorld :=
  let transactionId := w.nextTransactionId
  let w := w.addPendingContactRequest r
  let w := answer { w with sent := w.sent ++ [r.id] } http 200
  if write then w else w.removePendingContactRequest transactionId

/-! ## The server -/

/-- `contactRequestReceived`; the container answers a request whose handling throws. -/
def contactRequestReceived (write : Bool) : ServerWorld :=
  let w := { w with accepted := w.accepted ++ [r.id] }
  match w.server.longPollingWaitingRequest with
  | some http =>
    let w := { w with server := { w.server with index := false, longPollingWaitingRequest := none } }
    let w := w.sendContactRequest r http write
    if write then w else w.respond r.id 500
  | none =>
    match offer w.server ⟨some r, .scheduled⟩ with
    | some server => { w with server := server }
    | none => w.respond r.id 503

/-- `longPollingRequestReceived`, where the list of the waiting servers has room or not. -/
def longPollingRequestReceived (http : Nat) (room write : Bool) : ServerWorld :=
  let w := { w with received := w.received ++ [http] }
  let previous := w.server.longPollingWaitingRequest
  let waitingRequest := (poll w.server.queue).1
  let w := { w with server := { w.server with
    queue := (poll w.server.queue).2
    index := w.server.index && previous.isNone
    longPollingWaitingRequest := none } }
  let waiting := waitingRequest.isNone && room
  let w :=
    if waiting then { w with server := { w.server with
      index := true
      longPollingWaitingRequest := some http } }
    else w
  let w :=
    match previous with
    | some previous => w.answer previous 202
    | none => w
  match waitingRequest with
  | some ⟨none, _⟩ => w.answer http 404
  -- an exception of the writing is not seen by the container of the contact request
  | some ⟨some r, _⟩ => w.sendContactRequest r http write
  | none => if waiting then w else w.answer http 503

/-- `checkExpired`, when the waiting long polling request is expired. -/
def checkExpired : ServerWorld :=
  match w.server.longPollingWaitingRequest with
  | some http =>
    answer { w with server := { w.server with index := false, longPollingWaitingRequest := none } }
      http 202
  | none => w

/-! ## The connection -/

/-- `deleteServerLongPolling`: what was polled is cancelled once more before it is answered. -/
def deleteServerLongPolling : ServerWorld :=
  if getCount w.server = 0 then
    match offer w.server ⟨none, .virgin⟩ with
    | some server => { w with server := server }
    | none => w
  else
    (pollAll w.server.queue).foldl
      (fun w e =>
        match e.request with
        -- a task that cannot be canceled any more answers by itself
        | some r => if e.task.cancel.1 then w.respond r.id 404 else w
        | none => w)
      { w with server := { w.server with queue := [] } }

end ServerWorld

/-! ## The responses -/

def convertHttpStatusToSongStatus (status : Int) (proxy : Bool) : Int :=
  if status < 200 then 500
  else if status < 300 then
    if status = 203 ∨ 204 < status then 200 else status
  else if status < 400 then
    if status ≠ 304 then if proxy then 502 else 500 else status
  else if status < 500 then
    if status = 402 ∨ status = 407 ∨ status = 411 ∨ status = 413 ∨ status = 414 ∨ 415 < status
    then 400 else status
  else if 504 < status then if proxy then 502 else 500
  else status

namespace ServerWorld

variable (w : ServerWorld)

variable (transactionId : Nat)

/-- The entry of a transaction is cancelled in the map. -/
def cancelPending : ServerWorld :=
  { w with
    pendingContactRequests := w.pendingContactRequests.map fun p =>
      if p.transactionId = transactionId then { p with task := p.task.cancel.2 } else p }

/-- The entry of a transaction in the map. -/
def getPending : Option ContactWaitingResponseNotifyRequest :=
  w.pendingContactRequests.find? fun p => p.transactionId = transactionId

/-- `handleSongResponseFromHttpResponseNotifyRequest`, for a status that is a number, and the status
of the HTTP response; a provisional response leaves the entry in the map. -/
def handleResponseNotifyRequest (status : Int) : ServerWorld × Nat :=
  match w.getPending transactionId with
  | none => (w, 403)
  | some p =>
    let w := if status < 200 then w.cancelPending transactionId
      else w.removePendingContactRequest transactionId
    if p.task.cancel.1
    then (w.respond p.request.id (convertHttpStatusToSongStatus status p.request.isProxy), 202)
    else (w, 403)

/-! ## The timers -/

/-- `ContactWaitingLongPollingRequest.run`, of a request in the queue. -/
def runWaiting (r : ContactRequest) : ServerWorld :=
  respond { w with server := { w.server with
    queue := w.server.queue.map fun e =>
      if e = ⟨some r, .scheduled⟩ then ⟨some r, .executed⟩ else e } } r.id 504

/-- `ContactWaitingResponseNotifyRequest.run`. -/
def runPending (p : ContactWaitingResponseNotifyRequest) : ServerWorld :=
  (w.removePendingContactRequest p.transactionId).respond p.request.id 504

end ServerWorld

/-! ## Runs -/

open ServerWorld

/-- The events; `write` is whether a long polling response that carries a contact request can be
written. A response that is notified may have no status that is a number. -/
inductive ServerEvent
  | contactRequest (r : ContactRequest) (write : Bool)
  | longPollingRequest (http : Nat) (room write : Bool)
  | unknownLongPollingRequest (http : Nat)
  | responseNotify (transactionId : Nat) (status : Option Int)
  | waitingTimer (r : ContactRequest)
  | pendingTimer (p : ContactWaitingResponseNotifyRequest)
  | checkExpired
  | delete

/-- One event; `none` when it cannot happen: each request is received once, and a timer runs a task
that is armed. -/
def longPollingServerStep (w : ServerWorld) : ServerEvent → Option ServerWorld
  | .contactRequest r write =>
    if r.id ∈ w.accepted then none else some (w.contactRequestReceived r write)
  | .longPollingRequest http room write =>
    if http ∈ w.received then none else some (w.longPollingRequestReceived http room write)
  | .unknownLongPollingRequest http =>
    if http ∈ w.received then none
    else some (answer { w with received := w.received ++ [http] } http 404)
  | .responseNotify transactionId (some status) =>
    some (w.handleResponseNotifyRequest transactionId status).1
  -- a notification without a status is refused before it is looked up
  | .responseNotify _ none => some w
  | .waitingTimer r =>
    if (⟨some r, .scheduled⟩ : ContactWaitingLongPollingRequest) ∈ w.server.queue
    then some (w.runWaiting r) else none
  | .pendingTimer p =>
    if p ∈ w.pendingContactRequests ∧ p.task = .scheduled then some (w.runPending p) else none
  | .checkExpired => some w.checkExpired
  | .delete => some w.deleteServerLongPolling

end Ong.SongHttp
