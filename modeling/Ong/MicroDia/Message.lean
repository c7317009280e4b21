import Ong.Lib.Decimal
import Ong.Lib.Pieces
import Ong.Lib.DeltaOptions
import Ong.MicroDia.RequestTable

/-!
# The messages of the small DIA library

A request is a CoAP message: a header with the number of its options, the options in delta coding,
and the content.  Its target is taken apart into host, port, path and query on the sending side, and
put together again on the receiving side; the requesting entity travels as a part of the query.
-/

namespace Ong.MicroDia

open Decimal Pieces

/-- The bytes of a text. -/
def bytes (s : String) : List UInt8 := s.toList.map fun c => UInt8.ofNat c.toNat

def coapMaxPduSize : Nat := 1400

def coapHostSize : Nat := 100
def coapPortSize : Nat := 6
def coapPathSize : Nat := 200
def coapQuerySize : Nat := 200

/-- The number of pieces `my_strcut` makes room for. -/
def maxArgs : Nat := 20

/-- `COAP_DEFAULT_PORT`, a text -/
def coapDefaultPort : List UInt8 := bytes "5683"

def coapOptionContentType : Nat := 1
def coapOptionProxyUri : Nat := 3
def coapOptionUriHost : Nat := 5
def coapOptionLocationPath : Nat := 6
def coapOptionUriPort : Nat := 7
def coapOptionUriPath : Nat := 9
def coapOptionToken : Nat := 11
def coapOptionUriQuery : Nat := 15

/-- The code of a request. -/
def Method.code : Method → Nat
  | .get => 1
  | .post => 2
  | .put => 3
  | .delete => 4

/-- The request of a code. -/
def methodOfCode : Nat → Option Method
  | 1 => some .get
  | 2 => some .post
  | 3 => some .put
  | 4 => some .delete
  | _ => none

def coapResponseCode (n : Nat) : Nat := (n / 100) <<< 5 ||| n % 100

/-- The statuses that have a code. -/
def statuses : List String :=
  ["STATUS_CREATED", "STATUS_DELETED", "STATUS_OK", "STATUS_BAD_REQUEST",
    "STATUS_PERMISSION_DENIED", "STATUS_NOT_FOUND", "STATUS_METHOD_NOT_ALLOWED",
    "STATUS_NOT_ACCEPTABLE", "STATUS_CONFLICT", "STATUS_UNSUPPORTED_MEDIA_TYPE",
    "STATUS_INTERNAL_SERVER_ERROR", "STATUS_NOT_IMPLEMENTED", "STATUS_BAD_GATEWAY",
    "STATUS_SERVICE_UNAVAILABLE", "STATUS_GATEWAY_TIMEOUT"]

def coap2dia_code (code : Nat) : String :=
  if code = coapResponseCode 201 then "STATUS_CREATED"
  else if code = coapResponseCode 202 then "STATUS_DELETED"
  -- 204 and 205 are told apart on the way back only, by the method
  else if code = coapResponseCode 204 then "STATUS_OK"
  else if code = coapResponseCode 205 then "STATUS_OK"
  else if code = coapResponseCode 400 then "STATUS_BAD_REQUEST"
  else if code = coapResponseCode 401 then "STATUS_PERMISSION_DENIED"
  else if code = coapResponseCode 404 then "STATUS_NOT_FOUND"
  else if code = coapResponseCode 405 then "STATUS_METHOD_NOT_ALLOWED"
  else if code = coapResponseCode 406 then "STATUS_NOT_ACCEPTABLE"
  else if code = coapResponseCode 409 then "STATUS_CONFLICT"
  else if code = coapResponseCode 415 then "STATUS_UNSUPPORTED_MEDIA_TYPE"
  else if code = coapResponseCode 500 then "STATUS_INTERNAL_SERVER_ERROR"
  else if code = coapResponseCode 501 then "STATUS_NOT_IMPLEMENTED"
  else if code = coapResponseCode 502 then "STATUS_BAD_GATEWAY"
  else if code = coapResponseCode 503 then "STATUS_SERVICE_UNAVAILABLE"
  else if code = coapResponseCode 504 then "STATUS_GATEWAY_TIMEOUT"
  else "STATUS_BAD_REQUEST"

def dia2coap_code (scode : String) (method : Method) : Nat :=
  if scode = "STATUS_CREATED" then 201
  else if scode = "STATUS_DELETED" then 202
  else if scode = "STATUS_OK" then if method = .put then 204 else 205
  else if scode = "STATUS_BAD_REQUEST" then 400
  else if scode = "STATUS_PERMISSION_DENIED" then 401
  else if scode = "STATUS_NOT_FOUND" then 404
  else if scode = "STATUS_METHOD_NOT_ALLOWED" then 405
  else if scode = "STATUS_NOT_ACCEPTABLE" then 406
  else if scode = "STATUS_CONFLICT" then 409
  else if scode = "STATUS_UNSUPPORTED_MEDIA_TYPE" then 415
  else if scode = "STATUS_INTERNAL_SERVER_ERROR" then 500
  else if scode = "STATUS_NOT_IMPLEMENTED" then 501
  else if scode = "STATUS_BAD_GATEWAY" then 502
  else if scode = "STATUS_SERVICE_UNAVAILABLE" then 503
  else if scode = "STATUS_GATEWAY_TIMEOUT" then 504
  else 405

/-- The content types that have a number. -/
def contentTypes : List String :=
  ["text/plain", "application/link-format", "application/xml", "application/octet-stream",
    "application/rdf+xml", "application/exi", "application/json"]

def startWith (buf str : String) : Bool := str.toList.isPrefixOf buf.toList

def dia2coap_cttType (cttType : String) : Nat :=
  if startWith cttType "text/plain" then 0
  else if startWith cttType "application/link-format" then 40
  else if startWith cttType "application/xml" then 41
  else if startWith cttType "application/octet-stream" then 42
  else if startWith cttType "application/rdf+xml" then 43
  else if startWith cttType "application/exi" then 47
  else if startWith cttType "application/json" then 50
  else 0

def coap2dia_cttType : Nat → String
  | 0 => "text/plain"
  | 40 => "application/link-format"
  | 41 => "application/xml"
  | 42 => "application/octet-stream"
  | 43 => "application/rdf+xml"
  | 47 => "application/exi"
  | 50 => "application/json"
  | _ => "text/plain"

/-- `coap_uri_t` -/
structure CoapUri where
  host : List UInt8
  port : List UInt8
  path : List UInt8
  query : List UInt8

/-- `protected_strcat` onto a text with zeros behind it: as much of the second text as the size
leaves room for.  The terminator is written behind twice the bytes that are copied, where a zero is
already, provided that this is still in the buffer. -/
def protected_strcat (dst src : List UInt8) (maxsz : Nat) : List UInt8 :=
  dst ++ src.take (maxsz - dst.length)

def tolower (b : UInt8) : UInt8 := if 65 ≤ b.toNat ∧ b.toNat ≤ 90 then b + 32 else b

/-- What follows a word that the text begins with, in either case. -/
def skipWord : List UInt8 → List UInt8 → Option (List UInt8)
  | [], s => some s
  | _ :: _, [] => none
  | c :: w, b :: s => if tolower b = c then skipWord w s else none

variable (u : CoapUri)

/-- `dIa_split_uri` from the query on; `p` is where the code expects the question mark, and `len`
bytes are left. -/
def splitQuery (p : List UInt8) (len : Nat) : CoapUri :=
  if 0 < len ∧ p.head? = some 63 then
    { u with query := protected_strcat u.query (p.tail.take (len - 1)) coapQuerySize }
  else u

/-- `dIa_split_uri` from the path on.  Without a slash, `p` stays where the part before began. -/
def splitPath (p q : List UInt8) : CoapUri :=
  if q = [] then u
  else if q.head? = some 47 then
    let path := q.tail.takeWhile (· ≠ 63)
    let rest := q.tail.drop path.length
    let u := if path = [] then u
      else { u with path := protected_strcat u.path path coapPathSize }
    splitQuery u rest rest.length
  else splitQuery u p q.length

/-- `dIa_split_uri` from the port on: the digits are added to the port that is there. -/
def splitPort (p q : List UInt8) : CoapUri :=
  if q.head? = some 58 then
    let port := q.tail.takeWhile isDigit
    let u := if port = [] then u
      else { u with port := protected_strcat u.port port coapPortSize }
    splitPath u q.tail (q.tail.drop port.length)
  else splitPath u p q

/-- `dIa_split_uri` from the host on. -/
def splitHost (q : List UInt8) : CoapUri :=
  if q.head? = some 91 then
    let inner := q.takeWhile (· ≠ 93)
    let rest := q.drop inner.length
    if rest = [] ∨ inner.length = 1 then u
    else
      splitPort { u with host := protected_strcat u.host (inner ++ [93]) coapHostSize } q.tail
        rest.tail
  else
    let host := q.takeWhile fun b => b ≠ 58 && b ≠ 47 && b ≠ 63
    if host = [] then u
    else
      splitPort { u with host := protected_strcat u.host (host.map tolower) coapHostSize } q
        (q.drop host.length)

def dIa_split_uri (str_var : List UInt8) : CoapUri :=
  let u : CoapUri := ⟨[], coapDefaultPort, [], []⟩
  if str_var.head? = some 47 then splitPath u str_var str_var
  else match skipWord (bytes "coap") str_var with
    | none => u
    | some s =>
      let s := if (s.head?.map tolower) = some 115 then s.tail else s
      match skipWord (bytes "://") s with
      | none => u
      | some s => splitHost u s

def isLocalHost (host : List UInt8) : Bool :=
  host = [] || host = bytes "localhost" || host = bytes "127.0.0.1" || host = bytes "::" ||
    host = bytes "::1" || host = bytes "[::1]"

variable (msg : List UInt8)

/-- `_gcoapMsg_putByte` -/
def putByte (b : Nat) : List UInt8 :=
  if msg.length + 1 < coapMaxPduSize then msg ++ [UInt8.ofNat b] else msg

/-- `_gcoapMsg_putBuffer` -/
def putBuffer (msg buffer : List UInt8) : List UInt8 :=
  if coapMaxPduSize ≤ msg.length + buffer.length then
    msg ++ buffer.take (coapMaxPduSize - msg.length)
  else msg ++ buffer

/-- A message with the number of its last option and the number of its options. -/
structure Draft where
  msg : List UInt8
  prevopt : Nat
  nbopt : Nat

def encodeOption (opt prevopt : Nat) (value : List UInt8) : List UInt8 :=
  let sz := value.length
  let msg := if sz < 15 then putByte msg ((opt - prevopt) * 16 + sz)
    else putByte (putByte msg ((opt - prevopt) * 16 + 15)) (sz - 15)
  putBuffer msg value

variable (d : Draft)

/-- `encodeOption`, and the option counted. -/
def Draft.putOption (opt : Nat) (value : List UInt8) : Draft :=
  ⟨encodeOption d.msg opt d.prevopt value, opt, d.nbopt + 1⟩

/-- The content type as an option of one byte. -/
def Draft.putContentType (cttType : String) : Draft :=
  if cttType = "" then d
  else
    ⟨putByte (putByte d.msg ((coapOptionContentType - d.prevopt) * 16 + 1)) (dia2coap_cttType cttType),
      coapOptionContentType, d.nbopt + 1⟩

/-- `encodeOption_uint`, and the option counted. -/
def Draft.putOptionUint (opt : Nat) (value : List UInt8) : Draft :=
  -- `atoi`, into an unsigned short
  let x := (Decimal.value (value.takeWhile isDigit)).toNat % 65536
  ⟨putByte (putByte (putByte d.msg ((opt - d.prevopt) * 16 + 2)) (x / 256)) (x % 256), opt, d.nbopt + 1⟩

/-- The header of a message; the number of options is added at the end. -/
def header (code coap_tid : Nat) : List UInt8 :=
  putByte (putByte (putByte (putByte [] 0x40) code) (coap_tid / 256)) (coap_tid % 256)

/-- The number of options written into the header, and the content put behind the options. -/
def Draft.finish (ctt : List UInt8) : List UInt8 :=
  let msg := match d.msg with
    | [] => []
    | b :: msg => (b + UInt8.ofNat d.nbopt) :: msg
  if ctt = [] then msg else putBuffer msg ctt

def custom_itoa (i : Nat) : List UInt8 := textLoop 23 i []

/-- The query that is sent: the target's, and the requesting entity as its last part. -/
def sentQuery (query reqEntity : List UInt8) : List UInt8 :=
  if reqEntity = [] then query
  else
    let query := if query = [] then query else protected_strcat query [38] coapQuerySize
    let query := protected_strcat query (bytes "RequestingEntity=") coapQuerySize
    protected_strcat query reqEntity coapQuerySize

/-- The options of the target: the target itself for a host that is not local, else its parts. -/
def Draft.putTarget (targetID : List UInt8) : Draft :=
  if !isLocalHost u.host then d.putOption coapOptionProxyUri targetID
  else
    let d := if u.host = [] then d else d.putOption coapOptionUriHost u.host
    let d := if u.port = [] ∨ u.port = coapDefaultPort then d
      else d.putOptionUint coapOptionUriPort u.port
    (cut 47 (maxArgs - 1) u.path).foldl (fun d arg => d.putOption coapOptionUriPath arg) d

/-- What `diaRequest` sends. -/
def requestMessage (coap_tid dia_tid : Nat) (type : Method) (reqEntity targetID ctt : List UInt8)
    (cttType : String) : List UInt8 :=
  let u := dIa_split_uri targetID
  let d : Draft := ⟨header type.code coap_tid, 0, 0⟩
  let d := d.putContentType cttType
  let d := d.putTarget u targetID
  let d := d.putOption coapOptionToken (custom_itoa dia_tid)
  let d := (cut 38 (maxArgs - 1) (sentQuery u.query reqEntity)).foldl
    (fun d arg => d.putOption coapOptionUriQuery arg) d
  d.finish ctt

/-- What `diaResponse` sends. -/
def responseMessage (coap_tid : Nat) (typeResp : Method) (scode : String)
    (resourceURI ctt : List UInt8) (cttType : String) (tid : Nat) : List UInt8 :=
  let d : Draft := ⟨header (coapResponseCode (dia2coap_code scode typeResp)) coap_tid, 0, 0⟩
  let d := d.putContentType cttType
  let d := if resourceURI = [] then d else d.putOption coapOptionLocationPath resourceURI
  let d := d.putOption coapOptionToken (custom_itoa tid)
  d.finish ctt

variable (s : RequestTable)

variable (method : Method)

/-- `diaRetrieveRequest`, `diaCreateRequest`, `diaUpdateRequest` and `diaDeleteRequest`, on a table
that gives the ids; the first and the last have no content. -/
def RequestTable.sentRequest
    (reqEntity targetID ctt : List UInt8) (cttType : String) : List UInt8 :=
  match method with
  | .get => requestMessage s.newCoapTid s.newDiaTid .get reqEntity targetID [] ""
  | .post => requestMessage s.newCoapTid s.newDiaTid .post reqEntity targetID ctt cttType
  | .put => requestMessage s.newCoapTid s.newDiaTid .put reqEntity targetID ctt cttType
  | .delete => requestMessage s.newCoapTid s.newDiaTid .delete reqEntity targetID [] ""

/-- `diaRetrieveResponse`, `diaCreateResponse`, `diaUpdateResponse`, which makes the response of a
retrieval, and `diaDeleteResponse`. -/
def RequestTable.sentResponse (scode : String)
    (resourceURI ctt : List UInt8) (cttType : String) (tid : Nat) : List UInt8 :=
  match method with
  | .get => responseMessage s.newCoapTid .get scode [] ctt cttType tid
  | .post => responseMessage s.newCoapTid .post scode resourceURI ctt cttType tid
  | .put => responseMessage s.newCoapTid .get scode [] ctt cttType tid
  | .delete => responseMessage s.newCoapTid .delete scode [] [] "" tid

/-- `custom_atoi`, whose result is kept in an `int`. -/
def custom_atoi (pt : List UInt8) (len : Nat) : Int := (Decimal.value (pt.take len)).bmod (2 ^ 32)

/-- What `hnd_request` collects from the options. -/
structure RequestOptions where
  cttType : String
  token : Option Int
  targetID : List UInt8
  uri : CoapUri
  reqEntity : List UInt8

/-- One option of a request.  A part of the query that is shorter than the key it seems to begin
with makes the size of a copy negative, and there is no going on. -/
def RequestOptions.handle (o : RequestOptions) (option len : Nat) (pt : List UInt8) :
    Option RequestOptions :=
  if option = coapOptionContentType then
    some { o with cttType := coap2dia_cttType (pt.headD 0).toNat }
  else if option = coapOptionToken then some { o with token := some (custom_atoi pt len) }
  else if option = coapOptionProxyUri then
    some { o with targetID := protected_strcat o.targetID (pt.take len) 400 }
  else if option = coapOptionUriHost then
    some { o with uri.host := protected_strcat o.uri.host (pt.take len) coapHostSize }
  else if option = coapOptionUriPort then
    some { o with uri.port := custom_itoa ((pt.headD 0).toNat * 256 + (pt.tail.headD 0).toNat) }
  else if option = coapOptionUriPath then
    let path := if o.uri.path = [] then o.uri.path
      else protected_strcat o.uri.path [47] coapPathSize
    some { o with uri.path := protected_strcat path (pt.take len) coapPathSize }
  else if option = coapOptionUriQuery then
    if (bytes "RequestingEntity=").isPrefixOf pt then
      if len < 17 then none
      else some { o with reqEntity := protected_strcat o.reqEntity ((pt.take len).drop 17) 400 }
    else
      let query := if o.uri.query = [] then o.uri.query
        else protected_strcat o.uri.query [38] coapQuerySize
      some { o with uri.query := protected_strcat query (pt.take len) coapQuerySize }
  else some o

/-- The target put together again. -/
def RequestOptions.target (o : RequestOptions) : List UInt8 :=
  o.targetID ++ (if o.uri.host = [] then [] else bytes "coap://" ++ o.uri.host) ++
    (if o.uri.port = [] then [] else 58 :: o.uri.port) ++
    (if o.uri.path = [] then [] else 47 :: o.uri.path) ++
    (if o.uri.query = [] then [] else 63 :: o.uri.query)

/-- What the callback of a request is called with; the retrieve and delete callbacks get no
content. -/
structure RequestCallback where
  method : Method
  reqEntity : List UInt8
  targetID : List UInt8
  ctt : List UInt8
  cttType : String
  tid : Int
  deriving DecidableEq

/-- The second, third and fourth byte of a message, as code and message id. -/
def messageCode : Nat := (msg.getD 1 0).toNat

def messageId : Nat := (msg.getD 2 0).toNat * 256 + (msg.getD 3 0).toNat

def messageOptcount : Nat := (msg.headD 0).toNat % 16

/-- `hnd_request`: the table, and the callback that is called. -/
def hnd_request (now : Int) (msg : List UInt8) :
    Option (RequestTable × RequestCallback) := do
  let method ← methodOfCode (messageCode msg)
  let _ ← s.requestSlot now (messageId msg)
  let (o, ctt) ← DeltaOptions.read RequestOptions.handle (messageOptcount msg) 0
    ⟨"", none, [], ⟨[], [], [], []⟩, []⟩ (msg.drop 4)
  let content := method = .post ∨ method = .put
  return (s.hnd_request now method (messageId msg) o.token,
    ⟨method, o.reqEntity, o.target, if content then ctt else [], if content then o.cttType else "",
      o.token.getD 0⟩)

/-- What `hnd_response` collects from the options. -/
structure ResponseOptions where
  cttType : String
  token : Int
  resourceURI : List UInt8

/-- The text at a place of the memory. -/
def textAt (memory : List UInt8) : List UInt8 := memory.takeWhile (· ≠ 0)

/-- One option of a response; `stack` is the memory of the buffer of the resource before.  What is
copied into the buffer is not ended, so that the text goes on with what was there. -/
def ResponseOptions.handle (stack : List UInt8) (o : ResponseOptions) (option len : Nat)
    (pt : List UInt8) : Option ResponseOptions :=
  if option = coapOptionContentType then
    some { o with cttType := coap2dia_cttType (pt.headD 0).toNat }
  else if option = coapOptionToken then some { o with token := custom_atoi pt len }
  else if option = coapOptionLocationPath then
    let uri := protected_strcat [] (pt.take len) coapPathSize
    some { o with resourceURI := uri ++ textAt (stack.drop uri.length) }
  else some o

/-- What the callback of a response is called with: the resource for a create response only, no
content for a delete response; the content is what the message holds from a place on, with the
length that is given. -/
structure ResponseCallback where
  method : Method
  scode : String
  resourceURI : List UInt8
  ctt : List UInt8
  len : Nat
  cttType : String
  tid : Int
  deriving DecidableEq

/-- The callback of `hnd_response` by the method of the request: two of them are given the length of
the message. -/
def responseCallback (scode : String) (o : ResponseOptions) (ctt : List UInt8)
    (len : Nat) : ResponseCallback :=
  match method with
  | .post => ⟨.post, scode, o.resourceURI, ctt, len, o.cttType, o.token⟩
  | .get => ⟨.get, scode, [], ctt, ctt.length, o.cttType, o.token⟩
  | .put => ⟨.put, scode, [], ctt, len, o.cttType, o.token⟩
  | .delete => ⟨.delete, scode, [], [], 0, "", o.token⟩

/-- `hnd_response`: the table, and the callback that is called. -/
def hnd_response (stack : List UInt8) (s : RequestTable) (msg : List UInt8) :
    Option (RequestTable × ResponseCallback) := do
  let (o, ctt) ← DeltaOptions.read (ResponseOptions.handle stack) (messageOptcount msg) 0
    ⟨"", 0, textAt stack⟩ (msg.drop 4)
  let i ← s.find_request_by_dia_tid o.token
  let r ← s.gRequests[i]?
  let method ← r.typeReq
  return (s.hnd_response (some o.token),
    responseCallback method (coap2dia_code (messageCode msg)) o ctt msg.length)

end Ong.MicroDia
