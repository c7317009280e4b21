import Ong.Lib.Run
import Ong.Dia.Coap

/-!
# Requests and responses in blocks

Both sides of a DIA exchange keep an entry for it in the request list of the peer, by its
transaction id.  The entry has one payload: the client's holds what is left to send of a request in
blocks, and gathers a response in blocks; the server's gathers the request, and then holds the
response.

The network between the two delivers every message once and in order.  The acknowledgements that
libcoap sends on its own are left out: they are empty messages, which it does not pass on.
-/

namespace Ong.Dia

/-! ## The request list -/

/-- `dia_request_t` -/
structure DiaRequest where
  payload : List UInt8
  block2 : Block
  block1 : Block
  tid : Nat
  typeReq : Option Method
  early_nego : Bool

def alloc_dr (tid : Nat) : DiaRequest := ⟨[], .zero, .zero, tid, none, false⟩

/-- `search_tid`, which creates no entry. -/
def find_tid (l : List DiaRequest) (tid : Nat) : Option DiaRequest := l.find? fun dr => dr.tid = tid

/-- `search_tid`, which creates the entry when there is none; `put` adds it to the list. -/
def search_tid (l : List DiaRequest) (tid : Nat) : DiaRequest := (find_tid l tid).getD (alloc_dr tid)

/-- The list with an entry of `search_tid` as it is now. -/
def put : List DiaRequest → DiaRequest → List DiaRequest
  | [], dr => [dr]
  | d :: l, dr => if d.tid = dr.tid then dr :: l else d :: put l dr

def free_dr (l : List DiaRequest) (tid : Nat) : List DiaRequest := l.eraseP fun dr => dr.tid = tid

def DiaRequest.alloc_payload (dr : DiaRequest) (ctt : List UInt8) : DiaRequest :=
  { dr with payload := ctt }

def DiaRequest.storeFragment (dr : DiaRequest) (ctt : List UInt8) : DiaRequest :=
  { dr with payload := dr.payload ++ ctt }

/-- The options `copy_options` copies, beside the token: the content type, the proxy URI and the
parts of the URI. -/
def isCopied (o : CoapOption) : Bool := o.type ∈ [1, 3, 5, 7, 9, 15]

def copy_options (src dst : Pdu) : Pdu :=
  { dst with
    token := src.token
    options := dst.options ++ src.options.filter isCopied }

/-- The block option that asks for the block after `b`. -/
def Block.next (b : Block) : Block := { b with num := (b.num + 1) % 2 ^ 20 }

/-! ## The server -/

/-- What the application of a server answers to a request: the status and the content type as the
numbers of CoAP, the location, and whether it answers before its callback returns. -/
structure Answer where
  status : Nat
  cttType : UInt8
  resourceURI : Option (List UInt8)
  ctt : List UInt8
  piggy : Bool

/-- The options of a response: the content type and the location. -/
def Answer.options (a : Answer) : List CoapOption :=
  ⟨1, [a.cttType]⟩ :: (a.resourceURI.map fun uri => ⟨6, uri⟩).toList

/-- The server's side: its request list; the methods and contents its callbacks were called with;
and the transactions the application has still to answer. -/
structure Server where
  reqList : List DiaRequest
  calls : List (Method × List UInt8)
  pending : List Nat

/-- The content a request callback gets: two of them have no such argument. -/
def requestContent : Method → List UInt8 → List UInt8
  | .post, ctt => ctt
  | .put, ctt => ctt
  | .get, _ => []
  | .delete, _ => []

variable (maxSize : Nat)

/-- `diaResponse`, on the message that is the acknowledgement of the request or a new one, and
whether it is sent. -/
def diaResponse (l : List DiaRequest) (tid : Nat) (a : Answer) (response : Pdu) :
    List DiaRequest × Pdu × Bool :=
  let response :=
    { response with code := .response a.status, options := a.options, token := some tid }
  match find_tid l tid with
  | none => (l, response, false)
  | some dr =>
    match if a.ctt = [] then some response else coap_add_data maxSize response a.ctt with
    | some response => (free_dr l tid, response, true)
    | none =>
      let block2 := if dr.early_nego then dr.block2 else { dr.block2 with szx := 6 }
      let (block2, response) := coap_write_block_opt maxSize block2 .block2 response a.ctt.length
      let response := coap_add_block maxSize response a.ctt block2.num block2.szx
      (put l ({ dr with block2 := block2 }.alloc_payload a.ctt), response, true)

/-- The end of `hnd_request`: the callback of the method is called, and may answer at once. -/
def Server.callback (a : Answer) (s : Server) (tid : Nat) (method : Method)
    (ctt : List UInt8) (response : Pdu) : Server × Pdu :=
  let calls := s.calls ++ [(method, requestContent method ctt)]
  if a.piggy then
    let (l, response, _) := diaResponse maxSize s.reqList tid a response
    (⟨l, calls, s.pending⟩, response)
  else (⟨s.reqList, calls, s.pending ++ [tid]⟩, response)

/-- Block case A of `hnd_request`: the client asks for another block. -/
def Server.blockCaseA (s : Server) (tid : Nat) (dr : DiaRequest) (request : Pdu) :
    Server × Pdu :=
  let (block2, response) := coap_write_block_opt maxSize dr.block2 .block2
    (copy_options request (.new .empty)) dr.payload.length
  let response := coap_add_block maxSize response dr.payload block2.num block2.szx
  let l := put s.reqList { dr with block2 := block2 }
  ({ s with reqList := if block2.m then l else free_dr l tid },
    { response with code := .response 205 })

/-- `hnd_request` of a method, with the message libcoap sends back. -/
def Server.hnd_request (a : Answer) (s : Server) (method : Method) (request : Pdu) :
    Server × Pdu :=
  match request.token with
  | none => (s, .new .empty)
  | some tid =>
    let dr := { search_tid s.reqList tid with
      early_nego := false, block2 := (coap_get_block request .block2).getD .zero }
    if (coap_get_block request .block2).isSome ∧ dr.payload ≠ [] then
      s.blockCaseA maxSize tid dr request
    else
      let dr := { dr with
        early_nego := (coap_get_block request .block2).isSome
        block1 := (coap_get_block request .block1).getD .zero }
      match coap_get_block request .block1 with
      | none =>
        { s with reqList := put s.reqList dr }.callback maxSize a tid method request.data
          (.new .empty)
      | some block1 =>
        let dr := dr.storeFragment request.data
        let response := Pdu.new (.response (if method = .post then 201 else 204))
        if block1.m then
          ({ s with reqList := put s.reqList { dr with block1 := block1.next } },
            (copy_options request response).addBlockOption .block1 { block1.next with m := false })
        else
          { s with reqList := put s.reqList dr }.callback maxSize a tid method dr.payload response

/-! ## The client -/

/-- The client's side: its request list, and the methods and contents its callbacks were called
with. -/
structure Client where
  reqList : List DiaRequest
  calls : List (Method × List UInt8)

/-- The content a response callback gets: one of them has no such argument. -/
def responseContent : Method → List UInt8 → List UInt8
  | .get, ctt => ctt
  | .post, ctt => ctt
  | .put, ctt => ctt
  | .delete, _ => []

/-- `diaRequest`, for the options of the URI and of the content type.  A `proposal` is the size a
client proposes for the blocks of the response: the source has that option in a comment, for a test,
and sends none. -/
def diaRequest (l : List DiaRequest) (tid : Nat) (type : Method)
    (options : List CoapOption) (proposal : Option Nat) (ctt : List UInt8) : List DiaRequest × Pdu :=
  let dr := { search_tid l tid with typeReq := some type }
  let request : Pdu :=
    ⟨.request type, some tid, options, none, proposal.map fun szx => ⟨0, false, szx⟩, []⟩
  match if ctt = [] then some request else coap_add_data maxSize request ctt with
  | some request => (put l dr, request)
  | none =>
    let (block1, request) := coap_write_block_opt maxSize { dr.block1 with szx := 6 } .block1 request
      ctt.length
    let request := coap_add_block maxSize request ctt block1.num block1.szx
    (put l ({ dr with block1 := block1 }.alloc_payload ctt), request)

/-- The end of `hnd_response`: the callback of the method is called, and the entry freed. -/
def Client.complete (c : Client) (dr : DiaRequest) (ctt : List UInt8) : Client where
  reqList := free_dr c.reqList dr.tid
  calls := c.calls ++ (dr.typeReq.map fun method => (method, responseContent method ctt)).toList

/-- The code of the next message about an entry. -/
def codeOf (typeReq : Option Method) : Code := typeReq.elim .empty .request

/-- `hnd_response`, with the message the client sends. -/
def Client.hnd_response (c : Client) (received : Pdu) : Client × Option Pdu :=
  match received.token with
  | none => (c, none)
  | some tid =>
    let dr := search_tid c.reqList tid
    let dr := { dr with block1 := (coap_get_block received .block1).getD .zero }
    let pdu := copy_options received (.new (codeOf dr.typeReq))
    match coap_get_block received .block1 with
    | some _ =>
      let (block1, pdu) := coap_write_block_opt maxSize dr.block1 .block1 pdu dr.payload.length
      ({ c with reqList := put c.reqList { dr with block1 := block1 } },
        some (coap_add_block maxSize pdu dr.payload block1.num block1.szx))
    | none =>
      let dr := { dr with block2 := (coap_get_block received .block2).getD .zero }
      match coap_get_block received .block2 with
      | none => ({ c with reqList := put c.reqList dr }.complete dr received.data, none)
      | some block2 =>
        let dr := dr.storeFragment received.data
        if block2.m then
          ({ c with reqList := put c.reqList { dr with block2 := block2.next } },
            some (pdu.addBlockOption .block2 { block2.next with m := false }))
        else ({ c with reqList := put c.reqList dr }.complete dr dr.payload, none)

/-! ## The two sides and the network -/

/-- The two sides, and the messages on their way to each. -/
structure Config where
  client : Client
  server : Server
  toServer : List Pdu
  toClient : List Pdu

/-- What happens: the first message on its way to the server arrives; the first on its way to the
client; or the server's application answers the first request it left unanswered. -/
inductive Event
  | request
  | response
  | answer
  deriving DecidableEq

/-- The limits of the two sides, and what the server's application answers. -/
structure Setting where
  clientMax : Nat
  serverMax : Nat
  answer : Answer

/-- libcoap passes requests to `hnd_request`, and sends its message back. -/
def Config.arriveAtServer (x : Setting) (c : Config) (pdu : Pdu) : Config :=
  match pdu.code with
  | .request method =>
    let (server, response) := c.server.hnd_request x.serverMax x.answer method pdu
    { c with server := server, toClient := c.toClient ++ [response] }
  | _ => c

/-- libcoap passes responses to `hnd_response`. -/
def Config.arriveAtClient (x : Setting) (c : Config) (pdu : Pdu) : Config :=
  match pdu.code with
  | .response _ =>
    let (client, request) := c.client.hnd_response x.clientMax pdu
    { c with client := client, toServer := c.toServer ++ request.toList }
  | _ => c

/-- One event. -/
def step (x : Setting) (c : Config) : Event → Option Config
  | .request =>
    match c.toServer with
    | [] => none
    | pdu :: rest => some ({ c with toServer := rest }.arriveAtServer x pdu)
  | .response =>
    match c.toClient with
    | [] => none
    | pdu :: rest => some ({ c with toClient := rest }.arriveAtClient x pdu)
  | .answer =>
    match c.server.pending with
    | [] => none
    | tid :: rest =>
      let (l, response, sent) := diaResponse x.serverMax c.server.reqList tid x.answer (.new .empty)
      some { c with
        server := { c.server with reqList := l, pending := rest }
        toClient := c.toClient ++ if sent then [response] else [] }

end Ong.Dia
