import Mathlib.Data.List.Lex
import Mathlib.Data.Char
import Mathlib.Algebra.GroupWithZero.Nat
import Ong.Lib.Program
import Ong.Lib.Run
import Ong.Util.MultiMap

/-!
# The HTTP server transaction

The reading of one HTTP request from a socket into the buffer of the transaction, up to the call of
the handler.  The methods that read are programs on the buffer that may throw.  The state machine
takes one step for each token, and one for each white space that is skipped between two tokens, so
that the fields of the transaction can be looked at between them.

A socket gives its bytes in pieces that are not empty: a read takes what it has room for from the
first piece and leaves the rest.  The strings are made with the default charset and the default
locale of the platform.
-/

namespace Ong.SongHttp

open Util

/-- The bytes that one read of the socket can give, of which there is at least one. -/
structure SocketRead where
  first : UInt8
  others : List UInt8

namespace SocketRead

def bytes (r : SocketRead) : List UInt8 := r.first :: r.others

/-- The bytes that were not taken are left for the next read. -/
def unread : List UInt8 → List SocketRead → List SocketRead
  | [], rs => rs
  | b :: bs, rs => ⟨b, bs⟩ :: rs

/-- All the bytes that are still to come. -/
def allBytes (rs : List SocketRead) : List UInt8 := rs.flatMap bytes

end SocketRead

/-- What the methods throw. -/
inductive HttpException where
  /-- `SocketException`: the remote side has closed the socket. -/
  | socketClosed
  /-- `HttpServerException` -/
  | server (message : String) (status : Nat)
  /-- An access outside the buffer. -/
  | indexOutOfBounds
  /-- Another `RuntimeException`. -/
  | runtime
  /-- A loop did not end. -/
  | outOfFuel
deriving DecidableEq

/-- The limits of `HttpServerManager`. -/
structure HttpServerManager where
  maxNbOfHeaders : Nat
  maxHeaderLineLength : Nat
  maxHeadersLength : Nat
  maxContentLength : Nat

def HttpServerManager.maxBufferSize (m : HttpServerManager) : Nat :=
  max (max m.maxContentLength m.maxHeadersLength) m.maxHeaderLineLength

/-- The default charset, the default locale and the characters of the platform. -/
structure Platform where
  newString : List UInt8 → String
  toLowerCase : String → String
  toUpperCase : String → String
  /-- `Character.toLowerCase` of `Character.toUpperCase` -/
  foldCase : Char → Char
  /-- `Character.digit`, in base ten -/
  digit : Char → Option Nat

/-- `String.length`: a character outside the first plane counts for two. -/
def javaLength (s : String) : Nat := (s.toList.map fun c => if c.val < 0x10000 then 1 else 2).sum

/-- `String.CASE_INSENSITIVE_ORDER` compares these. -/
def Platform.caseInsensitiveOrder (platform : Platform) (s : String) : List Char :=
  s.toList.map platform.foldCase

/-- `Integer.parseInt` -/
def Platform.parseInt (platform : Platform) (s : String) : Option Int :=
  let digits (cs : List Char) : Option Nat :=
    if cs = [] then none
    else (cs.mapM platform.digit).map fun ds => ds.foldl (fun n d => 10 * n + d) 0
  let inRange (i : Int) : Option Int := if -2 ^ 31 ≤ i ∧ i < 2 ^ 31 then some i else none
  match s.toList with
  | '-' :: cs => (digits cs).bind fun n => inRange (-n)
  | '+' :: cs => (digits cs).bind fun n => inRange n
  | cs => (digits cs).bind fun n => inRange n

/-- The fields of the transaction that the reading works on. -/
structure HttpBuffer where
  buffer : List UInt8
  read : Nat
  position : Nat
  headersLength : Int
  inputStream : List SocketRead

def CR : UInt8 := 13

def LF : UInt8 := 10

def SP : UInt8 := 32

def HT : UInt8 := 9

def colon : UInt8 := 58

def isBlank (b : UInt8) : Bool := b = SP || b = HT

/-- The bytes written over those from `offset` on. -/
def overwrite (buffer : List UInt8) (offset : Nat) (bytes : List UInt8) : List UInt8 :=
  buffer.take offset ++ bytes ++ buffer.drop (offset + bytes.length)

namespace HttpBuffer

variable (s : HttpBuffer)

/-- The bytes read that come from `offset` on. -/
def bytesFrom (offset : Nat) : List UInt8 := (s.buffer.take s.read).drop offset

/-- The bytes that no method has taken, those still to come from the socket included. -/
def bytesLeft : List UInt8 :=
  s.bytesFrom s.position ++ SocketRead.allBytes s.inputStream

/-- More than the times that a loop can wait for the socket. -/
def fuel : Nat := (SocketRead.allBytes s.inputStream).length + 1

end HttpBuffer

/-- A method that reads. -/
abbrev Reading := EStateM HttpException HttpBuffer

section Reading

variable (manager : HttpServerManager) (platform : Platform)

def readStream (offset length : Nat) : Reading Nat := do
  let s ← get
  if s.buffer.length < offset + length then throw .indexOutOfBounds
  if length = 0 then return 0
  match s.inputStream with
  | [] => throw .socketClosed
  | r :: rs =>
    let bytes := r.bytes.take length
    set { s with
      buffer := overwrite s.buffer offset bytes
      inputStream := SocketRead.unread (r.bytes.drop length) rs }
    return bytes.length

/-- `read = readStream(0, buffer.length); position = 0` -/
def refill : Reading Unit := do
  let read ← readStream 0 (← get).buffer.length
  modify fun s => { s with read := read, position := 0 }

def initBuffer : Reading Unit := do
  let s ← get
  if s.read = 0 ∨ s.position = s.read then refill

/-- `read += readStream(read, end - read)` -/
def readUpTo (stop : Nat) : Reading Unit := do
  let s ← get
  let n ← readStream s.read (stop - s.read)
  modify fun s => { s with read := s.read + n }

/-- `System.arraycopy(buffer, position, buffer, 0, read - position); read -= position` -/
def compact : Reading Unit := do
  let s ← get
  if s.read < s.position ∨ s.buffer.length < s.read then throw .indexOutOfBounds
  set { s with
    buffer := overwrite s.buffer 0 (s.bytesFrom s.position)
    read := s.read - s.position }

def readMore : Reading Unit := do
  let s ← get
  if s.position ≠ 0 then
    compact
    modify fun s => { s with position := 0 }
    readUpTo s.buffer.length
  else if s.read < s.buffer.length then
    readUpTo s.buffer.length
  else throw (.server "HTTP line is too long" 413)

/-- `indexOf`, of one value or of two -/
def indexOf (offset : Nat) (value : UInt8 → Bool) : Reading (Option Nat) := do
  let s ← get
  if s.buffer.length < s.read then throw .indexOutOfBounds
  return ((s.bytesFrom offset).findIdx? value).map (offset + ·)

/-- The white space that was read is skipped. -/
def skipRead : Reading Unit := do
  let s ← get
  if s.buffer.length < s.read then throw .indexOutOfBounds
  set { s with position := s.position + ((s.bytesFrom s.position).takeWhile isBlank).length }

/-- The loop of `skipSPandHT`: as long as nothing else was read, the buffer is filled again. -/
def skipMore : Nat → Reading Unit
  | 0 => throw .outOfFuel
  | n + 1 => do
    let s ← get
    if s.position = s.read then
      refill
      skipRead
      skipMore n

def skipSPandHT : Reading Unit := do
  skipRead
  skipMore (← get).fuel

def readCurrent : Reading UInt8 := do
  initBuffer
  let s ← get
  match s.buffer[s.position]? with
  | some b => return b
  | none => throw .indexOutOfBounds

/-- `new String(buffer, begin, length)` -/
def newString (start : Nat) (length : Int) : Reading String := do
  let s ← get
  if length < 0 ∨ s.buffer.length < start + length then throw .indexOutOfBounds
  return platform.newString ((s.buffer.drop start).take length.toNat)

/-- The token that was found is left behind and counted.  `message` is what is thrown when it is too
large. -/
def advance (message : String) (position : Nat) (prefixLength length : Int) : Reading Unit := do
  modify fun s => { s with position := position, headersLength := s.headersLength + length }
  let s ← get
  if manager.maxHeaderLineLength < prefixLength + length then throw (.server message 413)
  if manager.maxHeadersLength < s.headersLength then
    throw (.server "HTTP header part is too large" 413)

/-- The loop of `readHeaderName`. -/
def findColon : Nat → Nat → Reading Nat
  | 0, _ => throw .outOfFuel
  | n + 1, current => do
    let s ← get
    match ← indexOf current fun b => b = CR || b = colon with
    | none =>
      readMore
      findColon n (if s.position ≠ 0 then current - s.position else current)
    | some index =>
      if s.buffer[index]? = some CR then
        throw (.server "No header name detected on line: " 400)
      return index

/-- `readHeaderName`, as far as the colon: `begin` and `length` -/
def findHeaderName : Reading (Nat × Nat) := do
  initBuffer
  let s ← get
  let index ← findColon s.fuel s.position
  let start := (← get).position
  advance manager "HTTP header is too large" (index + 1) 0 (index - start : Nat)
  return (start, index - start)

/-- `readHeaderName`, from the colon on -/
def buildHeaderName (start length : Nat) : Reading String := do
  skipSPandHT
  newString platform start length

/-- The loop of `readLine`. -/
def findLine : Nat → Nat → Reading Int
  | 0, _ => throw .outOfFuel
  | n + 1, current => do
    let s ← get
    match ← indexOf current (· = LF) with
    | none =>
      readMore
      findLine n (if s.position ≠ 0 then current - s.position else current)
    | some index =>
      -- A line feed at the beginning of the buffer ends the line, whatever came before it.
      if 0 < index ∧ s.buffer[index - 1]? ≠ some CR then findLine n (index + 1)
      else return (index : Int) - 1

def readLine (prefixLength : Nat) : Reading String := do
  initBuffer
  let s ← get
  let index ← findLine (2 * s.fuel + s.read) s.position
  let start := (← get).position
  advance manager "HTTP header is too large" (index + 2).toNat prefixLength (index - start)
  newString platform start (index - start)

/-- The loop of `readUntilSP`. -/
def findSP : Nat → Reading Nat
  | 0 => throw .outOfFuel
  | n + 1 => do
    let s ← get
    match ← indexOf s.position fun b => b = CR || b = SP with
    | none =>
      readMore
      findSP n
    | some index =>
      if s.buffer[index]? = some CR then throw (.server "Cannot decode HTTP request line" 400)
      return index

def readUntilSP : Reading String := do
  initBuffer
  let index ← findSP (← get).fuel
  let start := (← get).position
  advance manager "HTTP request-line is too large" (index + 1) 0 (index - start : Nat)
  newString platform start (index - start : Nat)

/-- The loop of `parseContent`. -/
def readContent (contentLength : Int) : Nat → Reading Unit
  | 0 => throw .outOfFuel
  | n + 1 => do
    let s ← get
    if s.read < contentLength then
      readUpTo contentLength.toNat
      readContent contentLength n

def parseContent (contentLength : Int) : Reading Unit := do
  let s ← get
  if s.position ≠ 0 then
    compact
    readContent contentLength s.fuel

/-- How a line begins in `parseHeaders`. -/
inductive LineStart where
  | continued
  | ended
  | named

/-- The beginning of a line in `parseHeaders`. -/
def readLineStart (name : Option String) : Reading LineStart := do
  let currentChar ← readCurrent
  if isBlank currentChar then
    modify fun s => { s with position := s.position + 1 }
    if name = none then throw (.server "Continued header found on the first line" 400)
    skipSPandHT
    return .continued
  else if currentChar = CR then
    modify fun s => { s with position := s.position + 1 }
    let next ← readCurrent
    if next = LF then
      modify fun s => { s with position := s.position + 1 }
      return .ended
    else throw (.server "An HTTP line starts with a \r without a \n after" 400)
  else return .named

end Reading

/-- How far a request was read. -/
inductive Phase where
  | waiting
  | method
  | requestUri
  | httpVersion
  /-- At the beginning of a line. -/
  | headers
  /-- Before the name of a header. -/
  | headerStart
  /-- After the colon, with the place of the name in the buffer. -/
  | headerName (start length : Nat)
  /-- Before the value of a header. -/
  | headerValue
  /-- After the white space that a continued line begins with. -/
  | continuation
  /-- After the headers. -/
  | request
  /-- Before the content. -/
  | content
  /-- The handler was called. -/
  | handed
  | failed (e : HttpException)
deriving DecidableEq

/-- The transaction.  `name` and `value` are the variables `name` and `buffer` of `parseHeaders`. -/
structure HttpServerTransaction (platform : Platform) where
  phase : Phase
  input : HttpBuffer
  method : String
  rawRequestUri : String
  httpVersion : String
  name : Option String
  value : String
  headers : MultiMap platform.caseInsensitiveOrder String
  contentLength : Int

namespace HttpServerTransaction

variable (manager : HttpServerManager) {platform : Platform} (t : HttpServerTransaction platform)

/-- The transaction after `reset`, with what is in its buffer. -/
def start (buffer : List UInt8) (inputStream : List SocketRead) :
    HttpServerTransaction platform where
  phase := .waiting
  input := ⟨buffer, 0, 0, 0, inputStream⟩
  method := ""
  rawRequestUri := ""
  httpVersion := ""
  name := none
  value := ""
  headers := .empty
  contentLength := 0

def fail (e : HttpException) : HttpServerTransaction platform := { t with phase := .failed e }

/-- A method that reads is called. -/
def call {α : Type} (m : Reading α)
    (k : α → HttpServerTransaction platform → HttpServerTransaction platform) :
    HttpServerTransaction platform :=
  match m t.input with
  | .ok a s => k a { t with input := s }
  | .error e s => fail { t with input := s } e

/-- The methods that the server knows. -/
def methods : List String := ["GET", "POST", "PUT", "DELETE"]

def methodRead (method : String) : HttpServerTransaction platform :=
  if method ∈ methods then { t with method := method, phase := .requestUri }
  else fail { t with method := method }
      (.server ("Not implemented HTTP request recevied: " ++ method) 501)

/-- The header that was read is put among the others, unless its value is empty. -/
def addHeader (next : Phase) : HttpServerTransaction platform :=
  if t.value = "" then { t with phase := next }
  else
    match t.name with
    | none => t.fail .runtime
    | some name =>
      let t := { t with headers := t.headers.putLast name t.value, value := "" }
      if (manager.maxNbOfHeaders : Int) < t.headers.size then
        t.fail (.server "Too much headers received in the request" 413)
      else { t with phase := next }

def lineStart : LineStart → HttpServerTransaction platform
  | .continued => { t with phase := .continuation }
  | .ended => t.addHeader manager .request
  | .named => t.addHeader manager .headerStart

/-- `handleRequest`, between the headers and the content -/
def handleRequest : HttpServerTransaction platform :=
  let http11 := t.httpVersion = "HTTP/1.1"
  -- `charAt(0)` of an empty URI
  if http11 ∧ t.rawRequestUri = "" then t.fail .runtime
  else if http11 ∧ t.rawRequestUri.toList.head? = some '/' ∧ t.headers.get "Host" = none then
    t.fail (.server "No Host header detected" 400)
  else if t.method = "POST" ∨ t.method = "PUT" then
    match t.headers.get "Content-Length" with
    | none => t.fail (.server "Received request with no Content-Length" 411)
    | some contentLengthStr =>
      match platform.parseInt contentLengthStr with
      | none => t.fail (.server "Content-Length header is not a number" 400)
      | some contentLength =>
        let t := { t with contentLength := contentLength }
        -- a negative length passes, and is read as one that is not zero
        if manager.maxContentLength < contentLength then
          t.fail (.server "Received request with a too large content: " 413)
        else { t with phase := .content }
  else
    { t with contentLength := 0, headers := t.headers.remove "Content-Length", phase := .content }

variable (platform) in
/-- One step of the parsing; there is none after the end. -/
def step : Unit → Option (HttpServerTransaction platform) := fun _ =>
  match t.phase with
  | .waiting => some <| t.call refill fun _ t => { t with phase := .method }
  | .method => some <| t.call (readUntilSP manager platform) fun s t =>
      t.methodRead (platform.toUpperCase s)
  | .requestUri => some <| t.call (readUntilSP manager platform) fun s t =>
      { t with rawRequestUri := s, phase := .httpVersion }
  | .httpVersion => some <| t.call (readLine manager platform 0) fun s t =>
      { t with httpVersion := s, phase := .headers }
  | .headers => some <| t.call (readLineStart t.name) fun l t => t.lineStart manager l
  | .headerStart => some <| t.call (findHeaderName manager) fun p t =>
      { t with phase := .headerName p.1 p.2 }
  | .headerName start length => some <| t.call (buildHeaderName platform start length) fun s t =>
      { t with name := some (platform.toLowerCase s), phase := .headerValue }
  | .headerValue =>
      some <| t.call (readLine manager platform (javaLength (t.name.getD ""))) fun s t =>
        { t with value := t.value ++ s, phase := .headers }
  | .continuation =>
      some <| t.call
        (readLine manager platform (javaLength (t.name.getD "") + javaLength t.value)) fun s t =>
          { t with value := t.value ++ s, phase := .headers }
  | .request => some (t.handleRequest manager)
  | .content =>
      if t.contentLength ≠ 0 then
        some <| t.call (parseContent t.contentLength) fun _ t => { t with phase := .handed }
      else some { t with phase := .handed }
  | .handed => none
  | .failed _ => none

/-- The content that the handler gets. -/
def content : List UInt8 := t.input.buffer.take t.contentLength.toNat

end HttpServerTransaction

end Ong.SongHttp
