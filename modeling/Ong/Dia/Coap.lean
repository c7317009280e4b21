import Mathlib.Data.List.Basic
import Mathlib.Algebra.Ring.Nat

/-!
# Blocks of CoAP messages

The part of libcoap that splits a payload over messages: a message is a header, options and data, of
a bounded length together.  An option tells the number of the block the data is, its size, and
whether more follow.
-/

namespace Ong.Dia

/-- `coap_hdr_t.code`: an empty message, a request by its method, or a response by its status. -/
inductive Method
  | get
  | post
  | put
  | delete
  deriving DecidableEq

/-- The code of a message. -/
inductive Code
  | empty
  | request (method : Method)
  | response (status : Nat)

/-- `coap_block_t`: 20 bits of number, one bit when more blocks follow, 3 bits of size. -/
structure Block where
  num : Nat
  m : Bool
  szx : Nat

/-- A block of zeros. -/
def Block.zero : Block := ⟨0, false, 0⟩

/-- The size of the blocks of an exponent. -/
def blockSize (szx : Nat) : Nat := 2 ^ (szx + 4)

/-- An option other than the token and the block options. -/
structure CoapOption where
  type : Nat
  value : List UInt8

/-- The length of an option in a message: `optsize` in `coap_add_option`. -/
def CoapOption.size (o : CoapOption) : Nat :=
  o.value.length + if 14 < o.value.length then 2 else 1

/-- `COAP_OPTION_BLOCK1` and `COAP_OPTION_BLOCK2`. -/
inductive BlockOption
  | block1
  | block2

/-- `coap_pdu_t`.  The token is the number its digits spell. -/
structure Pdu where
  code : Code
  token : Option Nat
  options : List CoapOption
  block1 : Option Block
  block2 : Option Block
  data : List UInt8

namespace Pdu

/-- A message of `coap_new_pdu`, with its code. -/
def new (code : Code) : Pdu := ⟨code, none, [], none, none, []⟩

/-- The length of the token option. -/
def tokenSize : Option Nat → Nat
  | none => 0
  | some tid => (Nat.toDigits 10 tid).length + 1

/-- The length of the header and of the options other than the block options, with the end marker of
a list of fifteen options or more. -/
def optionsLength (token : Option Nat) (options : List CoapOption) : Nat :=
  4 + tokenSize token + (options.map CoapOption.size).sum +
    if 15 ≤ options.length + (if token.isSome then 1 else 0) then 1 else 0

/-- The length of a block option: the four bytes that libcoap reserves for it. -/
def blockLength : Option Block → Nat
  | none => 0
  | some _ => 4

/-- `pdu->length` -/
def length (p : Pdu) : Nat :=
  optionsLength p.token p.options + blockLength p.block1 + blockLength p.block2 + p.data.length

/-- `coap_add_option` of a block option. -/
def addBlockOption (p : Pdu) : BlockOption → Block → Pdu
  | .block1, b => { p with block1 := some b }
  | .block2, b => { p with block2 := some b }

end Pdu

/-- `coap_fls`: the number of bits. -/
def coap_fls (i : Nat) : Nat := if i = 0 then 0 else i.log2 + 1

variable (maxSize : Nat)

/-- `coap_add_data`: the message with the data, or none when it does not fit. -/
def coap_add_data (pdu : Pdu) (data : List UInt8) : Option Pdu :=
  if maxSize < pdu.length + data.length then none else some { pdu with data := pdu.data ++ data }

def coap_get_block (pdu : Pdu) : BlockOption → Option Block
  | .block1 => pdu.block1
  | .block2 => pdu.block2

/-- `coap_write_block_opt`: the block as it was adapted, and the message with its option.  The
`max_size` leaves four bytes after the options. -/
def coap_write_block_opt (block : Block) (type : BlockOption) (pdu : Pdu)
    (dataLength : Nat) : Block × Pdu :=
  let start := block.num * blockSize block.szx
  let avail := maxSize - pdu.length - 4
  let want := blockSize block.szx
  let write (b : Block) : Block × Pdu := (b, pdu.addBlockOption type b)
  if dataLength ≤ start then (block, pdu)
  else if want ≤ avail then write { block with m := want < dataLength - start }
  else if dataLength - start ≤ avail then write { block with m := false }
  else if avail < 16 then (block, pdu)
  else
    let szx := coap_fls avail - 5
    write ⟨block.num * 2 ^ (block.szx - szx) % 2 ^ 20, true, szx⟩

def coap_add_block (pdu : Pdu) (payload : List UInt8) (num szx : Nat) : Pdu :=
  let start := num * blockSize szx
  if payload.length ≤ start then pdu
  else
    (coap_add_data maxSize pdu
      ((payload.drop start).take (min (payload.length - start) (blockSize szx)))).getD pdu

end Ong.Dia
