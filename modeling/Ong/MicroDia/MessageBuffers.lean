import Ong.Lib.TextBuffer
import Ong.MicroDia.Message

/-!
# Received messages in memory

The handlers of received messages collect the options in buffers of fixed size.  A value is appended
at the terminator of the text, and the new terminator is put as many bytes behind the next zero as
have been copied.  Here every access of the message, and every one of a buffer, is checked: the
functions give nothing if one is outside.

## Main results

* `isSome_protected_strcat`: an append is inside exactly if there is room
* `staysInside_iff`: the messages for which the input stays inside
-/

namespace Ong.MicroDia.InMemory

open DeltaOptions List Option

open TextBuffer (zero)

section Appending

variable {n : Nat}

/-- `memcpy` behind the text, and `to[strlen(to)+sz] = 0`: the text has lost its terminator then,
and the next zero is somewhere behind it. -/
def copyAndTerminate (dst : TextBuffer n) (copied : List UInt8)
    (h : dst.strlen + copied.length ≤ n) : Option (TextBuffer n) :=
  if hi : (overlay dst.mem dst.strlen copied).idxOf 0 + copied.length < n then
    some (TextBuffer.terminate (overlay dst.mem dst.strlen copied) (length_overlay dst.length_mem h)
      ((overlay dst.mem dst.strlen copied).idxOf 0 + copied.length) hi)
  else none

/-- `protected_strcat`: at most `sz` bytes of what the pointer points to. -/
def protected_strcat (dst : TextBuffer n) (src : List UInt8) (sz maxsz : Int) :
    Option (TextBuffer n) :=
  let maxsz := maxsz - dst.strlen
  let sz := if maxsz < sz then maxsz else sz
  if h : 0 ≤ sz ∧ sz ≤ src.length ∧ dst.strlen + (src.take sz.toNat).length ≤ n then
    copyAndTerminate dst (src.take sz.toNat) h.2.2
  else none

/-- A part of a text with separators. -/
def appendPart (sep : UInt8) (dst : TextBuffer n) (src : List UInt8) (sz maxsz : Int) :
    Option (TextBuffer n) :=
  (if dst.strlen ≠ 0 then protected_strcat dst [sep] 1 maxsz else some dst).bind
    (protected_strcat · src sz maxsz)

end Appending

/-! ## Requests -/

/-- What `hnd_request` collects from the options. -/
structure RequestBuffers where
  cttType : String
  token : Option Int
  targetID : TextBuffer (coapHostSize + coapPortSize + coapPathSize + coapQuerySize + 4 + 1)
  reqEntity : TextBuffer (400 + 1)
  host : TextBuffer (coapHostSize + 1)
  port : TextBuffer (coapPortSize + 1)
  path : TextBuffer (coapPathSize + 1)
  query : TextBuffer (coapQuerySize + 1)

namespace RequestBuffers

def empty : RequestBuffers := ⟨"", none, zero _, zero _, zero _, zero _, zero _, zero _⟩

/-- `!strncmp(pt, "RequestingEntity=", 17)`, which reads up to the first difference. -/
def isEntity (pt : List UInt8) : Option Bool :=
  if (bytes "RequestingEntity=").isPrefixOf pt then some true
  else if pt.isPrefixOf (bytes "RequestingEntity=") then none
  else some false

/-- A number of two bytes. -/
def readPort : List UInt8 → Option Nat
  | high :: low :: _ => some (high.toNat * 256 + low.toNat)
  | _ => none

/-- One option; `pt` is the message from the value on. -/
def handle (o : RequestBuffers) (option len : Nat) (pt : List UInt8) : Option RequestBuffers :=
  if option = coapOptionContentType then
    pt.head?.map fun b => { o with cttType := coap2dia_cttType b.toNat }
  else if option = coapOptionToken then some { o with token := some (custom_atoi pt len) }
  else if option = coapOptionProxyUri then
    (protected_strcat o.targetID pt len (400 : Nat)).map ({ o with targetID := · })
  else if option = coapOptionUriHost then
    (protected_strcat o.host pt len coapHostSize).map ({ o with host := · })
  else if option = coapOptionUriPort then
    (readPort pt).bind fun x => (o.port.strcpy (custom_itoa x)).map ({ o with port := · })
  else if option = coapOptionUriPath then
    (appendPart 47 o.path pt len coapPathSize).map ({ o with path := · })
  else if option = coapOptionUriQuery then
    (isEntity pt).bind fun entity =>
      if entity then
        (protected_strcat o.reqEntity (pt.drop 17) (len - 17) (400 : Nat)).map
          ({ o with reqEntity := · })
      else (appendPart 38 o.query pt len coapQuerySize).map ({ o with query := · })
  else some o

/-- The parts that are appended to the target. -/
def targetParts (o : RequestBuffers) : List (List UInt8) :=
  (if o.host.strlen ≠ 0 then [bytes "coap", bytes "://", o.host.text] else []) ++
    (if o.port.strlen ≠ 0 then [bytes ":", o.port.text] else []) ++
    (if o.path.strlen ≠ 0 then [bytes "/", o.path.text] else []) ++
    (if o.query.strlen ≠ 0 then [bytes "?", o.query.text] else [])

end RequestBuffers

/-- The functions of `dia->callbacks` that are there. -/
structure Callbacks where
  request : Method → Bool
  response : Method → Bool

/-- `dia_context_t`, and the static variable of the input. -/
structure Dia where
  table : RequestTable
  callbacks : Callbacks
  with_loss : Bool
  lost : Bool

/-- The callback that is called, a request's with the length of its content. -/
inductive Called
  | nothing
  | request (c : RequestCallback) (cttlen : Int)
  | response (c : ResponseCallback)

/-- The callback of a request, for a message of `len` bytes that ends with the content. -/
def requestCall (dia : Dia) (method : Method) (o : RequestBuffers) (targetID : List UInt8)
    (ctt : List UInt8) (len : Nat) : Called :=
  let content := method = .post ∨ method = .put
  let pt := len - ctt.length
  if dia.callbacks.request method then
    .request ⟨method, o.reqEntity.text, targetID, if content then ctt else [],
      if content then o.cttType else "", o.token.getD 0⟩ (if content then (len : Int) - pt else 0)
  else .nothing

/-- `hnd_request`, for a message with its first four bytes. -/
def hnd_request (dia : Dia) (now : Int) (method : Method) (msg : List UInt8) :
    Option (RequestTable × Called) :=
  match dia.table.requestSlot now (messageId msg) with
  | none => some (dia.table, .nothing)
  | some _ =>
    (DeltaOptions.readWithin RequestBuffers.handle (messageOptcount msg) 0 .empty
      (msg.drop 4)).bind fun (o, ctt) =>
        (o.targetParts.foldlM TextBuffer.strcat o.targetID).map fun targetID =>
          (dia.table.hnd_request now method (messageId msg) o.token,
            requestCall dia method o targetID.text ctt msg.length)

/-! ## Responses -/

/-- The memory of a buffer that nothing has been written to. -/
structure Memory (n : Nat) where
  mem : List UInt8
  length_mem : mem.length = n

/-- `*buffer = 0` -/
def Memory.clear {n : Nat} (m : Memory (n + 1)) : TextBuffer (n + 1) :=
  .terminate m.mem m.length_mem 0 (Nat.succ_pos n)

/-- What `hnd_response` collects from the options. -/
structure ResponseBuffers where
  cttType : String
  token : Int
  resourceURI : Memory (coapPathSize + 1)

/-- One option. -/
def ResponseBuffers.handle (o : ResponseBuffers) (option len : Nat) (pt : List UInt8) :
    Option ResponseBuffers :=
  if option = coapOptionContentType then
    pt.head?.map fun b => { o with cttType := coap2dia_cttType b.toNat }
  else if option = coapOptionToken then some { o with token := custom_atoi pt len }
  else if option = coapOptionLocationPath then
    (protected_strcat o.resourceURI.clear pt len coapPathSize).map fun uri =>
      { o with resourceURI := ⟨uri.mem, uri.length_mem⟩ }
  else some o

/-- The callback of the request that waits in a slot. -/
def responseCall (dia : Dia) (slot : Nat) (o : ResponseBuffers) (ctt msg : List UInt8) : Called :=
  match (dia.table.gRequests[slot]?).bind DiaRequest.typeReq with
  | none => .nothing
  | some method =>
    if dia.callbacks.response method then
      .response (responseCallback method (coap2dia_code (messageCode msg))
        ⟨o.cttType, o.token, textAt o.resourceURI.mem⟩ ctt msg.length)
    else .nothing

/-- `hnd_response`, for a message with its first four bytes. -/
def hnd_response (dia : Dia) (stack : Memory (coapPathSize + 1)) (msg : List UInt8) :
    Option (RequestTable × Called) :=
  (DeltaOptions.readWithin ResponseBuffers.handle (messageOptcount msg) 0 ⟨"", 0, stack⟩
    (msg.drop 4)).map fun (o, ctt) =>
      match dia.table.find_request_by_dia_tid o.token with
      | none => (dia.table, .nothing)
      | some slot => (dia.table.hnd_response (some o.token), responseCall dia slot o ctt msg)

/-! ## The input -/

/-- What a message is by its first two bytes. -/
inductive Kind
  | unknown
  | ignored
  | ack
  | request (method : Method)
  | response
  deriving DecidableEq

def kind (msg : List UInt8) : Kind :=
  let first := (msg.headD 0).toNat
  if first / 64 ≠ 1 then .unknown
  else if first / 16 % 4 = 2 then if messageCode msg ≠ 0 then .response else .ack
  else if first / 16 % 4 = 0 then
    match methodOfCode (messageCode msg) with
    | some method => .request method
    | none => .response
  else .ignored

/-- `dIa_input`: the table, what is returned, and the callback. -/
def dIa_input (dia : Dia) (stack : Memory (coapPathSize + 1)) (now : Int) (msg : List UInt8) :
    Option (RequestTable × Int × Called) :=
  if dia.with_loss ∧ dia.lost then some (dia.table, 0, .nothing)
  else if msg = [] then none
  else if kind msg = .unknown then some (dia.table, -1, .nothing)
  else if kind msg = .ignored then some (dia.table, 0, .nothing)
  else if msg.length < 4 then none
  else
    match kind msg with
    | .request method => (hnd_request dia now method msg).map fun (t, c) => (t, 0, c)
    | .response => (hnd_response dia stack msg).map fun (t, c) => (t, 0, c)
    | _ => some (dia.table.hnd_ack (messageId msg), 0, .nothing)

/-- The content is passed on with its length. -/
def Called.Exact : Called → Prop
  | .nothing => True
  | .request c cttlen => cttlen = c.ctt.length
  | .response c => c.len = c.ctt.length

/-- Every access is inside, and the content is passed on with its length. -/
def StaysInside (dia : Dia) (stack : Memory (coapPathSize + 1)) (now : Int) (msg : List UInt8) :
    Prop :=
  ∃ t ret called, dIa_input dia stack now msg = some (t, ret, called) ∧ called.Exact

section Room

variable {n : Nat}

/-- Behind the place of the terminator, the next zero is far enough from the end, once what is
copied of a value is there. -/
def HasRoom (dst : TextBuffer n) (value : List UInt8) (maxsz : Nat) : Prop :=
  let copied := value.take (maxsz - dst.strlen)
  dst.strlen ≤ maxsz ∧ (overlay dst.mem dst.strlen copied).idxOf 0 + copied.length < n

/-- Room for a separator behind another part, and for a part. -/
def HasRoomPart (sep : UInt8) (dst : TextBuffer n) (value : List UInt8) (maxsz : Nat) : Prop :=
  (dst.strlen ≠ 0 → HasRoom dst [sep] maxsz) ∧
    ∀ dst', (if dst.strlen ≠ 0 then protected_strcat dst [sep] 1 maxsz else some dst) = some dst' →
      HasRoom dst' value maxsz

/-- What an option of a request needs, with the message behind its value. -/
def RequestBuffers.Meets (o : RequestBuffers) (option : Nat) (value after : List UInt8) : Prop :=
  if option = coapOptionContentType then value ++ after ≠ []
  else if option = coapOptionToken then True
  else if option = coapOptionProxyUri then HasRoom o.targetID value 400
  else if option = coapOptionUriHost then HasRoom o.host value coapHostSize
  else if option = coapOptionUriPort then 2 ≤ (value ++ after).length
  else if option = coapOptionUriPath then HasRoomPart 47 o.path value coapPathSize
  else if option = coapOptionUriQuery then
    if bytes "RequestingEntity=" <+: value ++ after then
      17 ≤ value.length ∧ HasRoom o.reqEntity (value.drop 17) 400
    else ¬value ++ after <+: bytes "RequestingEntity=" ∧ HasRoomPart 38 o.query value coapQuerySize
  else True

/-- What an option of a response needs. -/
def ResponseBuffers.Meets (o : ResponseBuffers) (option : Nat) (value after : List UInt8) : Prop :=
  if option = coapOptionContentType then value ++ after ≠ []
  else if option = coapOptionToken then True
  else if option = coapOptionLocationPath then HasRoom o.resourceURI.clear value coapPathSize
  else True

/-- The options of a message and what lies behind them. -/
structure Decoded (msg : List UInt8) (os : List (Nat × List UInt8)) (content : List UInt8) : Prop
    where
  count : os.length = messageOptcount msg
  encodable : DeltaOptions.Encodable 0 os
  eq : msg.drop 4 = DeltaOptions.encode 0 os ++ content

/-- The options of a request are within the message, each has room, and so has the target. -/
def RequestWithinBounds (msg : List UInt8) : Prop :=
  ∃ os content, Decoded msg os content ∧
    DeltaOptions.Along RequestBuffers.handle RequestBuffers.Meets content .empty os ∧
    ∀ o, DeltaOptions.visit RequestBuffers.handle content .empty os = some o →
      o.targetID.strlen + (o.targetParts.map List.length).sum <
        coapHostSize + coapPortSize + coapPathSize + coapQuerySize + 4 + 1

/-- The options of a response are within the message, each has room, and the callback is not one of
the two that get the length of the message. -/
def ResponseWithinBounds (dia : Dia) (stack : Memory (coapPathSize + 1)) (msg : List UInt8) :
    Prop :=
  ∃ os content, Decoded msg os content ∧
    DeltaOptions.Along ResponseBuffers.handle ResponseBuffers.Meets content ⟨"", 0, stack⟩ os ∧
    ∀ o, DeltaOptions.visit ResponseBuffers.handle content ⟨"", 0, stack⟩ os = some o →
      ∀ i method, dia.table.find_request_by_dia_tid o.token = some i →
        (dia.table.gRequests[i]?).bind DiaRequest.typeReq = some method →
        dia.callbacks.response method = true → method ≠ .post ∧ method ≠ .put

/-- The messages for which the input stays inside. -/
def WithinBounds (dia : Dia) (stack : Memory (coapPathSize + 1)) (now : Int) (msg : List UInt8) :
    Prop :=
  dia.with_loss = true ∧ dia.lost = true ∨ msg ≠ [] ∧
    (kind msg = .unknown ∨ kind msg = .ignored ∨ 4 ≤ msg.length ∧
      match kind msg with
      | .request _ =>
        dia.table.requestSlot now (messageId msg) = none ∨ RequestWithinBounds msg
      | .response => ResponseWithinBounds dia stack msg
      | _ => True)

end Room

section Appends

variable {n len maxsz : Nat} {dst : TextBuffer n} {src : List UInt8}

theorem length_copied_le (hmax : maxsz < n) (hle : dst.strlen ≤ maxsz) :
    dst.strlen + ((src.take len).take (maxsz - dst.strlen)).length ≤ n := by
  rw [length_take]
  omega

theorem protected_strcat_of_le (hmax : maxsz < n) (hlen : len ≤ src.length)
    (hle : dst.strlen ≤ maxsz) : protected_strcat dst src len maxsz =
      copyAndTerminate dst ((src.take len).take (maxsz - dst.strlen))
        (length_copied_le hmax hle) := by
  have hpos : 0 ≤ if (maxsz : Int) - dst.strlen < len then (maxsz : Int) - dst.strlen else len := by
    split <;> omega
  have hsz : (if (maxsz : Int) - dst.strlen < len then (maxsz : Int) - dst.strlen else len).toNat =
      min (maxsz - dst.strlen) len := by
    split <;> omega
  rw [protected_strcat]
  simp only [hsz, take_take]
  rw [dif_pos]
  have hcount : (src.take (min (maxsz - dst.strlen) len)).length =
      min (maxsz - dst.strlen) len := by
    rw [length_take]
    omega
  exact ⟨hpos, by omega, by omega⟩

theorem isSome_protected_strcat (hmax : maxsz < n) (hlen : len ≤ src.length) :
    (protected_strcat dst src len maxsz).isSome = true ↔ HasRoom dst (src.take len) maxsz := by
  by_cases hle : dst.strlen ≤ maxsz
  · rw [protected_strcat_of_le hmax hlen hle, copyAndTerminate, HasRoom]
    split
    · next h => exact iff_of_true rfl ⟨hle, h⟩
    · next h => exact iff_of_false Bool.false_ne_true fun hroom => h hroom.2
  · have hneg :
        ¬0 ≤ if (maxsz : Int) - dst.strlen < len then (maxsz : Int) - dst.strlen else len := by
      split <;> omega
    rw [protected_strcat]
    rw [dif_neg fun h => hneg h.1]
    exact iff_of_false Bool.false_ne_true fun hroom => hle hroom.1

theorem protected_strcat_of_neg {sz : Int} (hsz : sz < 0) (maxsz : Int) :
    protected_strcat dst src sz maxsz = none := by
  have hneg : ¬0 ≤ if maxsz - dst.strlen < sz then maxsz - dst.strlen else sz := by
    split <;> omega
  rw [protected_strcat]
  rw [dif_neg fun h => hneg h.1]

theorem isSome_appendPart {sep : UInt8} (hmax : maxsz < n) (hlen : len ≤ src.length) :
    (appendPart sep dst src len maxsz).isSome = true ↔
      HasRoomPart sep dst (src.take len) maxsz := by
  have hsep : (if dst.strlen ≠ 0 then protected_strcat dst [sep] 1 maxsz else some dst).isSome =
      true ↔ (dst.strlen ≠ 0 → HasRoom dst [sep] maxsz) := by
    split
    · next hne =>
      have hiff := @isSome_protected_strcat n 1 maxsz dst [sep] hmax (Nat.le_refl 1)
      exact hiff.trans ⟨fun h _ => h, fun h => h hne⟩
    · next heq => exact iff_of_true rfl fun hne => absurd hne heq
  rw [appendPart, HasRoomPart, ← hsep]
  cases if dst.strlen ≠ 0 then protected_strcat dst [sep] 1 maxsz else some dst with
  | none => exact iff_of_false Bool.false_ne_true fun h => Bool.false_ne_true h.1
  | some dst' =>
    show (protected_strcat dst' src len maxsz).isSome = true ↔ _
    rw [isSome_protected_strcat hmax hlen]
    constructor
    · intro h
      refine ⟨rfl, fun dst₁ hdst₁ => ?_⟩
      rwa [← Option.some.inj hdst₁]
    · exact fun h => h.2 dst' rfl

end Appends

section Options

variable {option : Nat} {value after : List UInt8}

theorem take_value : (value ++ after).take value.length = value := take_left

theorem isSome_head? {l : List UInt8} : l.head?.isSome = true ↔ l ≠ [] := by
  cases l with
  | nil => exact iff_of_false Bool.false_ne_true fun h => h rfl
  | cons b l => exact iff_of_true rfl (cons_ne_nil b l)

theorem le_length_value : value.length ≤ (value ++ after).length := by
  rw [length_append]
  exact Nat.le_add_right _ _

theorem isSome_strcpy_port (port : TextBuffer (coapPortSize + 1)) {x : Nat} (hx : x < 65536) :
    (port.strcpy (custom_itoa x)).isSome = true := by
  have hlen : (custom_itoa x).length ≤ 5 + 0 := Decimal.length_textLoop_le_of_lt (by omega)
  rw [TextBuffer.strcpy, dif_pos (show 0 + _ < coapPortSize + 1 by rw [coapPortSize]; omega)]
  rfl

theorem RequestBuffers.isSome_handle (o : RequestBuffers) (option : Nat)
    (value after : List UInt8) :
    (o.handle option value.length (value ++ after)).isSome = true ↔ o.Meets option value after := by
  rw [handle, Meets]
  split
  · rw [isSome_map, isSome_head?]
  split
  · exact iff_of_true rfl trivial
  split
  · rw [isSome_map, isSome_protected_strcat (by decide) le_length_value, take_value]
  split
  · rw [isSome_map, isSome_protected_strcat (by decide) le_length_value, take_value]
  split
  · rcases hpt : value ++ after with _ | ⟨high, _ | ⟨low, pt⟩⟩
    · exact iff_of_false Bool.false_ne_true (by decide)
    · exact iff_of_false Bool.false_ne_true (by simp)
    · have hhigh := high.toNat_lt
      have hlow := low.toNat_lt
      rw [readPort, bind_some, isSome_map]
      exact iff_of_true (isSome_strcpy_port o.port (by omega)) (by simp)
  split
  · rw [isSome_map, isSome_appendPart (by decide) le_length_value, take_value]
  split
  · rw [isEntity]
    by_cases hkey : bytes "RequestingEntity=" <+: value ++ after
    · rw [if_pos (List.isPrefixOf_iff_prefix.mpr hkey), if_pos hkey, bind_some, if_pos rfl,
        isSome_map]
      by_cases hlen : 17 ≤ value.length
      · have hdrop : ((value ++ after).drop 17).take (value.length - 17) = value.drop 17 := by
          rw [drop_append_of_le_length hlen, ← length_drop, take_left]
        have hle : value.length - 17 ≤ ((value ++ after).drop 17).length := by
          rw [length_drop, length_append]
          omega
        rw [show (value.length : Int) - 17 = ((value.length - 17 : Nat) : Int) by omega,
          isSome_protected_strcat (by decide) hle, hdrop]
        exact ⟨fun h => ⟨hlen, h⟩, fun h => h.2⟩
      · rw [protected_strcat_of_neg (by omega)]
        exact iff_of_false Bool.false_ne_true fun h => hlen h.1
    · rw [if_neg (fun h => hkey (List.isPrefixOf_iff_prefix.mp h)), if_neg hkey]
      by_cases hshort : value ++ after <+: bytes "RequestingEntity="
      · rw [if_pos (List.isPrefixOf_iff_prefix.mpr hshort)]
        exact iff_of_false Bool.false_ne_true fun h => h.1 hshort
      · rw [if_neg (fun h => hshort (List.isPrefixOf_iff_prefix.mp h)), bind_some,
          if_neg Bool.false_ne_true, isSome_map,
          isSome_appendPart (by decide) le_length_value, take_value]
        exact ⟨fun h => ⟨hshort, h⟩, fun h => h.2⟩
  · exact iff_of_true rfl trivial

theorem ResponseBuffers.isSome_handle (o : ResponseBuffers) (option : Nat)
    (value after : List UInt8) :
    (o.handle option value.length (value ++ after)).isSome = true ↔ o.Meets option value after := by
  rw [handle, Meets]
  split
  · rw [isSome_map, isSome_head?]
  split
  · exact iff_of_true rfl trivial
  split
  · rw [isSome_map, isSome_protected_strcat (by decide) le_length_value, take_value]
  · exact iff_of_true rfl trivial

end Options

section Input

variable {dia : Dia} {stack : Memory (coapPathSize + 1)} {now : Int} {msg : List UInt8}

theorem RequestBuffers.zero_notMem_targetParts (o : RequestBuffers) :
    ∀ text ∈ o.targetParts, (0 : UInt8) ∉ text := by
  have hpart {n : Nat} (dst : TextBuffer n) (before : List (List UInt8))
      (hbefore : ∀ text ∈ before, (0 : UInt8) ∉ text) :
      ∀ text ∈ (if dst.strlen ≠ 0 then before ++ [dst.text] else []), (0 : UInt8) ∉ text := by
    split
    · exact forall_mem_append.mpr
        ⟨hbefore, forall_mem_singleton.mpr dst.zero_notMem_text⟩
    · exact forall_mem_nil _
  refine forall_mem_append.mpr ⟨forall_mem_append.mpr
    ⟨forall_mem_append.mpr ⟨?_, ?_⟩, ?_⟩, ?_⟩
  · exact hpart o.host [bytes "coap", bytes "://"] (by decide)
  · exact hpart o.port [bytes ":"] (by decide)
  · exact hpart o.path [bytes "/"] (by decide)
  · exact hpart o.query [bytes "?"] (by decide)

theorem length_content_le {os : List (Nat × List UInt8)} {content : List UInt8}
    (h : msg.drop 4 = encode 0 os ++ content) : content.length ≤ msg.length := by
  have hlen := congrArg length h
  rw [length_drop, length_append] at hlen
  omega

theorem exact_requestCall {method : Method} {o : RequestBuffers} {targetID ctt : List UInt8}
    {len : Nat} (h : ctt.length ≤ len) : (requestCall dia method o targetID ctt len).Exact := by
  rw [requestCall]
  split
  · split
    · show (len : Int) - (len - ctt.length : Nat) = ctt.length
      omega
    · rfl
  · trivial

theorem hnd_request_iff {method : Method} {slot : Nat × RequestTable}
    (hslot : dia.table.requestSlot now (messageId msg) = some slot) :
    (∃ t called, hnd_request dia now method msg = some (t, called) ∧ called.Exact) ↔
      RequestWithinBounds msg := by
  rw [hnd_request, hslot]
  constructor
  · rintro ⟨t, called, h, -⟩
    obtain ⟨⟨o, ctt⟩, hread, h⟩ := bind_eq_some_iff.mp h
    obtain ⟨targetID, htarget, -⟩ := map_eq_some_iff.mp h
    obtain ⟨os, hcount, hos, heq, hvisit⟩ := readWithin_eq_some_iff.mp hread
    refine ⟨os, ctt, ⟨hcount, hos, heq⟩, ?_, fun o' ho' => ?_⟩
    · rw [← isSome_visit RequestBuffers.isSome_handle, hvisit]
      rfl
    · obtain rfl := Option.some.inj (hvisit.symm.trans ho')
      rw [← TextBuffer.isSome_foldlM_strcat o.zero_notMem_targetParts, htarget]
      rfl
  · rintro ⟨os, content, ⟨hcount, hos, heq⟩, halong, htarget⟩
    rw [← isSome_visit RequestBuffers.isSome_handle] at halong
    obtain ⟨o, hvisit⟩ := isSome_iff_exists.mp halong
    have hread := readWithin_eq_some_iff.mpr ⟨os, hcount, hos, heq, hvisit⟩
    have htarget := htarget o hvisit
    rw [← TextBuffer.isSome_foldlM_strcat o.zero_notMem_targetParts] at htarget
    obtain ⟨targetID, htarget⟩ := isSome_iff_exists.mp htarget
    refine ⟨dia.table.hnd_request now method (messageId msg) o.token,
      requestCall dia method o targetID.text content msg.length, ?_,
      exact_requestCall (length_content_le heq)⟩
    dsimp only
    rw [hread, bind_some, htarget]
    rfl

theorem exact_responseCall_iff {slot : Nat} {o : ResponseBuffers} {ctt : List UInt8}
    (h : ctt.length < msg.length) : (responseCall dia slot o ctt msg).Exact ↔
      ∀ method, (dia.table.gRequests[slot]?).bind DiaRequest.typeReq = some method →
        dia.callbacks.response method = true → method ≠ .post ∧ method ≠ .put := by
  rw [responseCall]
  cases (dia.table.gRequests[slot]?).bind DiaRequest.typeReq with
  | none => exact iff_of_true trivial fun _ hnone => (some_ne_none _ hnone.symm).elim
  | some method =>
    dsimp only
    split
    · next hcallback =>
      have hiff : (responseCallback method (coap2dia_code (messageCode msg))
          ⟨o.cttType, o.token, textAt o.resourceURI.mem⟩ ctt msg.length).len =
          (responseCallback method (coap2dia_code (messageCode msg))
            ⟨o.cttType, o.token, textAt o.resourceURI.mem⟩ ctt msg.length).ctt.length ↔
          method ≠ .post ∧ method ≠ .put := by
        cases method with
        | get | delete => exact iff_of_true rfl (by decide)
        | post | put => exact iff_of_false (Nat.ne_of_gt h) (by decide)
      rw [Called.Exact, hiff]
      constructor
      · rintro hne method' hmethod -
        rwa [← Option.some.inj hmethod]
      · exact fun hall => hall method rfl hcallback
    · next hcallback =>
      refine iff_of_true trivial fun method' hmethod hcallback' => ?_
      rw [← Option.some.inj hmethod] at hcallback'
      exact absurd hcallback' hcallback

theorem hnd_response_iff (hlen : 4 ≤ msg.length) :
    (∃ t called, hnd_response dia stack msg = some (t, called) ∧ called.Exact) ↔
      ResponseWithinBounds dia stack msg := by
  have hexact {o : ResponseBuffers} {ctt : List UInt8} (hctt : ctt.length < msg.length) :
      (match dia.table.find_request_by_dia_tid o.token with
        | none => (dia.table, Called.nothing)
        | some slot =>
          (dia.table.hnd_response (some o.token), responseCall dia slot o ctt msg)).2.Exact ↔
      ∀ i method, dia.table.find_request_by_dia_tid o.token = some i →
        (dia.table.gRequests[i]?).bind DiaRequest.typeReq = some method →
        dia.callbacks.response method = true → method ≠ .post ∧ method ≠ .put := by
    cases dia.table.find_request_by_dia_tid o.token with
    | none => exact iff_of_true trivial fun _ _ hnone => (some_ne_none _ hnone.symm).elim
    | some slot =>
      show (responseCall dia slot o ctt msg).Exact ↔ _
      rw [exact_responseCall_iff hctt]
      constructor
      · intro hall i method hi
        rw [← Option.some.inj hi]
        exact hall method
      · exact fun hall method => hall slot method rfl
  have hcontent {os : List (Nat × List UInt8)} {content : List UInt8}
      (heq : msg.drop 4 = encode 0 os ++ content) : content.length < msg.length := by
    have hcount := congrArg length heq
    rw [length_drop, length_append] at hcount
    omega
  constructor
  · rintro ⟨t, called, h, hcalled⟩
    obtain ⟨⟨o, ctt⟩, hread, h⟩ := map_eq_some_iff.mp h
    obtain ⟨os, hcount, hos, heq, hvisit⟩ := readWithin_eq_some_iff.mp hread
    refine ⟨os, ctt, ⟨hcount, hos, heq⟩, ?_, fun o' ho' => ?_⟩
    · rw [← isSome_visit ResponseBuffers.isSome_handle, hvisit]
      rfl
    · obtain rfl := Option.some.inj (hvisit.symm.trans ho')
      have hsnd : _ = called := congrArg Prod.snd h
      subst hsnd
      exact (hexact (hcontent heq)).mp hcalled
  · rintro ⟨os, content, ⟨hcount, hos, heq⟩, halong, hmethod⟩
    rw [← isSome_visit ResponseBuffers.isSome_handle] at halong
    obtain ⟨o, hvisit⟩ := isSome_iff_exists.mp halong
    have hread := readWithin_eq_some_iff.mpr ⟨os, hcount, hos, heq, hvisit⟩
    have hcalled := (hexact (hcontent heq)).mpr (hmethod o hvisit)
    rw [hnd_response, hread]
    exact ⟨_, _, rfl, hcalled⟩

/-- **The messages for which the input stays inside.** -/
theorem staysInside_iff (dia : Dia) (stack : Memory (coapPathSize + 1)) (now : Int)
    (msg : List UInt8) : StaysInside dia stack now msg ↔ WithinBounds dia stack now msg := by
  rw [StaysInside, dIa_input, WithinBounds]
  by_cases hlost : dia.with_loss = true ∧ dia.lost = true
  · rw [if_pos hlost]
    exact iff_of_true ⟨_, _, _, rfl, trivial⟩ (.inl hlost)
  rw [if_neg hlost]
  by_cases hnil : msg = []
  · rw [if_pos hnil]
    refine iff_of_false ?_ ?_
    · rintro ⟨t, ret, called, h, -⟩
      cases h
    · rintro (h | h)
      · exact hlost h
      · exact h.1 hnil
  rw [if_neg hnil]
  by_cases hunknown : kind msg = .unknown
  · rw [if_pos hunknown]
    exact iff_of_true ⟨_, _, _, rfl, trivial⟩ (.inr ⟨hnil, .inl hunknown⟩)
  rw [if_neg hunknown]
  by_cases hignored : kind msg = .ignored
  · rw [if_pos hignored]
    exact iff_of_true ⟨_, _, _, rfl, trivial⟩ (.inr ⟨hnil, .inr (.inl hignored)⟩)
  rw [if_neg hignored]
  by_cases hshort : msg.length < 4
  · rw [if_pos hshort]
    refine iff_of_false ?_ ?_
    · rintro ⟨t, ret, called, h, -⟩
      cases h
    · rintro (h | ⟨-, h | h | ⟨h, -⟩⟩)
      · exact hlost h
      · exact hunknown h
      · exact hignored h
      · exact absurd hshort (Nat.not_lt.mpr h)
  rw [if_neg hshort]
  have hrest {P : Prop} : (dia.with_loss = true ∧ dia.lost = true ∨ msg ≠ [] ∧
      (kind msg = .unknown ∨ kind msg = .ignored ∨ 4 ≤ msg.length ∧ P)) ↔ P := by
    constructor
    · rintro (h | ⟨-, h | h | ⟨-, h⟩⟩)
      · exact absurd h hlost
      · exact absurd h hunknown
      · exact absurd h hignored
      · exact h
    · exact fun h => .inr ⟨hnil, .inr (.inr ⟨Nat.not_lt.mp hshort, h⟩)⟩
  have hmap {r : Option (RequestTable × Called)} : (∃ t ret called,
      (r.map fun (t, c) => (t, (0 : Int), c)) = some (t, ret, called) ∧ called.Exact) ↔
        ∃ t called, r = some (t, called) ∧ called.Exact := by
    constructor
    · rintro ⟨t, ret, called, h, hcalled⟩
      obtain ⟨⟨t', c⟩, hr, h⟩ := Option.map_eq_some_iff.mp h
      cases h
      exact ⟨_, _, hr, hcalled⟩
    · rintro ⟨t, called, rfl, hcalled⟩
      exact ⟨t, 0, called, rfl, hcalled⟩
  rw [hrest]
  cases hkind : kind msg with
  | unknown => exact absurd hkind hunknown
  | ignored => exact absurd hkind hignored
  | ack => exact iff_of_true ⟨_, _, _, rfl, trivial⟩ trivial
  | request method =>
    rw [hmap]
    cases hslot : dia.table.requestSlot now (messageId msg) with
    | none =>
      refine iff_of_true ⟨dia.table, .nothing, ?_, trivial⟩ (.inl rfl)
      rw [hnd_request, hslot]
    | some slot =>
      rw [hnd_request_iff hslot]
      constructor
      · exact .inr
      · rintro (h | h)
        · cases h
        · exact h
  | response =>
    rw [hmap, hnd_response_iff (Nat.not_lt.mp hshort)]

/-- A host of sixty bytes: the terminator is put behind the buffer. -/
theorem not_staysInside_host :
    ¬StaysInside ⟨.dia_createContext 0 0, ⟨fun _ => true, fun _ => true⟩, false, false⟩
      ⟨replicate (coapPathSize + 1) 0, length_replicate⟩ 0
      ([0x41, 1, 0, 1, 0x5f, 45] ++ replicate 60 0x61) := by
  have hnone : (dIa_input ⟨.dia_createContext 0 0, ⟨fun _ => true, fun _ => true⟩, false, false⟩
      ⟨replicate (coapPathSize + 1) 0, length_replicate⟩ 0
      ([0x41, 1, 0, 1, 0x5f, 45] ++ replicate 60 0x61)).isSome = false := by decide +kernel
  rintro ⟨t, ret, called, h, -⟩
  rw [h] at hnone
  cases hnone

end Input

end Ong.MicroDia.InMemory
