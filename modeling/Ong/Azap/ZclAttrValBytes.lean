import Ong.Azap.ZclAttrVal
import Ong.Lib.LittleEndian

/-!
# The bytes of attribute values

A value is written at a pointer into a payload and read from one; the pointer is moved behind it and
the remaining length goes down by as much.  A writer is given by the bytes that it writes, a reader
by what it makes of the bytes from the pointer on and how many it goes over.

Reading or copying bytes that are not there is a fault.
-/

namespace Ong.Azap

open LittleEndian (bytes)

/-! ## Memory -/

/-- `memcpy` from a pointer, which may be null. -/
def memcpy (src : Option (List UInt8)) (size : Nat) : Except Fault (List UInt8) :=
  if size ≤ (src.getD []).length then .ok ((src.getD []).take size) else .error .outOfRange

/-- The first bytes from a pointer on. -/
def readBytes (data : List UInt8) (size : Nat) : Except Fault (List UInt8) := memcpy (some data) size

/-- An `int` stored in a byte. -/
def toByte (i : Int) : UInt8 := UInt8.ofNat (i % 256).toNat

/-- `(b & 0xFF) << n` in an `int`. -/
def shiftInt (b : UInt8) (n : Nat) : Int := (b.toNat * 2 ^ n : Int).bmod (2 ^ 32)

/-- `(b & 0xFFLL) << n` in a `long long`. -/
def shiftLongLong (b : UInt8) (n : Nat) : Int := b.toNat * 2 ^ n

/-! ## Integers -/

/-- How many bytes an integer has, and whether the highest bit is its sign. -/
structure IntegerFormat where
  signed : Bool
  size : Nat

variable (type : UInt8)

/-- The cases of `azapZclAttrVal_t_serializeInteger` and `azapZclAttrVal_t_deserializeInteger`. -/
def integerFormat : Option IntegerFormat :=
  if type = zclDatatypeInt8 then some ⟨true, 1⟩
  else if type = zclDatatypeInt16 then some ⟨true, 2⟩
  else if type = zclDatatypeInt24 then some ⟨true, 3⟩
  else if type = zclDatatypeInt32 then some ⟨true, 4⟩
  else if type = zclDatatypeUint8 then some ⟨false, 1⟩
  else if type = zclDatatypeUint16 then some ⟨false, 2⟩
  else if type = zclDatatypeUint24 then some ⟨false, 3⟩
  else if type = zclDatatypeUint32 then some ⟨false, 4⟩
  else if type = zclDatatypeUint40 then some ⟨false, 5⟩
  else if type = zclDatatypeUint48 then some ⟨false, 6⟩
  else none

/-- The highest byte of a signed integer: seven bits, and the sign from the sign of the value. -/
def signedTop (k : Nat) (longVal : Int) : UInt8 :=
  UInt8.ofNat (longVal / 256 ^ k % 128).toNat ||| (if longVal < 0 then 0x80 else 0)

/-- `azapZclAttrVal_t_serializeInteger` -/
def serializeInteger (longVal : Int) : List UInt8 :=
  match integerFormat type with
  | some ⟨true, k⟩ => bytes (k - 1) longVal ++ [signedTop (k - 1) longVal]
  | some ⟨false, k⟩ => bytes k longVal
  | none => []

/-- The sum of the bytes, each shifted to its place from the `i`-th on: the first four as `int`. -/
def addBytes : Nat → List UInt8 → Int
  | _, [] => 0
  | i, b :: bs => (if i < 4 then shiftInt b (8 * i) else shiftLongLong b (8 * i)) + addBytes (i + 1) bs

/-- The highest byte of a signed integer added to the lower ones. -/
def addSigned (k : Nat) (low : Int) (top : UInt8) : Int :=
  low + shiftInt (top &&& 0x7F) (8 * k) - (if top &&& 0x80 = 0x80 then 2 ^ (8 * k + 7) else 0)

/-- `azapZclAttrVal_t_deserializeInteger` -/
def deserializeInteger (data : List UInt8) : Except Fault (Int × Nat) :=
  match integerFormat type with
  | some ⟨true, k⟩ =>
    (readBytes data (k - 1)).bind fun low =>
      (payloadByte data (k - 1)).map fun top => (addSigned (k - 1) (addBytes 0 low) top, k)
  | some ⟨false, k⟩ => (readBytes data k).map fun bs => (addBytes 0 bs, k)
  | none => .ok (0, 0)

/-! ## Strings and raw values -/

/-- What both serializers of bytes do, with the types that have a length of one and of two bytes. -/
def serializeBytes (short long type : UInt8) (val : Option (List UInt8)) (requiredSize : UInt8) :
    Except Fault (List UInt8) :=
  if type = short then
    (memcpy val (requiredSize - 1).toNat).map fun bs => (requiredSize - 1) :: bs
  else if type = long then
    (memcpy val (requiredSize - 2).toNat).map fun bs => (requiredSize - 2) :: 0 :: bs
  else memcpy val requiredSize.toNat

/-- `azapZclAttrVal_t_serializeString` -/
def serializeString : UInt8 → Option (List UInt8) → UInt8 → Except Fault (List UInt8) :=
  serializeBytes zclDatatypeCharStr zclDatatypeLongCharStr

/-- `azapZclAttrVal_t_serializeRaw` -/
def serializeRaw : UInt8 → Option (List UInt8) → UInt8 → Except Fault (List UInt8) :=
  serializeBytes zclDatatypeOctetStr zclDatatypeLongOctetStr

/-- What both deserializers of bytes do: the bytes, their number, and how many bytes are gone
over. -/
def deserializeBytes (short long type : UInt8) (data : List UInt8) (size : UInt8) :
    Except Fault (List UInt8 × UInt8 × Nat) :=
  if type = short then
    (readBytes (data.drop 1) (size - 1).toNat).map fun bs => (bs, size - 1, 1 + (size - 1).toNat)
  else if type = long then
    (readBytes (data.drop 2) (size - 2).toNat).map fun bs => (bs, size - 2, 2 + (size - 2).toNat)
  else (readBytes data size.toNat).map fun bs => (bs, size, size.toNat)

/-- `azapZclAttrVal_t_deserializeString` -/
def deserializeString : UInt8 → List UInt8 → UInt8 → Except Fault (List UInt8 × UInt8 × Nat) :=
  deserializeBytes zclDatatypeCharStr zclDatatypeLongCharStr

/-- `azapZclAttrVal_t_deserializeRaw` -/
def deserializeRaw : UInt8 → List UInt8 → UInt8 → Except Fault (List UInt8 × UInt8 × Nat) :=
  deserializeBytes zclDatatypeOctetStr zclDatatypeLongOctetStr

/-! ## Date and time -/

/-- The first of January 2000 in seconds since 1970. -/
def zigbeeEpoch : Int := 946684800

/-- `azapZclAttrVal_t_serializeDateTime`; `timegm` also sets the fields of the value to their
ranges. -/
def serializeDateTime (dt : DateTime) : DateTime × List UInt8 :=
  let tm := dt.dateTime
  if type = zclDatatypeTod then
    (dt, [toByte tm.hour, toByte tm.min, toByte tm.sec, toByte (dt.mseconds.tdiv 10)])
  else if type = zclDatatypeDate then
    (dt, [toByte tm.year, toByte (tm.mon + 1), toByte tm.mday,
      if tm.wday = 0 then 7 else toByte tm.wday])
  else if type = zclDatatypeUtc then
    ({ dt with dateTime := gmtime (timegm tm) }, bytes 4 (timegm tm - zigbeeEpoch))
  else (dt, [])

/-- `azapZclAttrVal_t_deserializeDateTime` -/
def deserializeDateTime (data : List UInt8) : Except Fault (DateTime × Nat) :=
  if type = zclDatatypeTod then
    (payloadByte data 0).bind fun hour =>
      (payloadByte data 1).bind fun min =>
        (payloadByte data 2).bind fun sec =>
          (payloadByte data 3).map fun hundredths =>
            (⟨{ Tm.zero with hour := hour.toNat, min := min.toNat, sec := sec.toNat },
              hundredths.toNat * 10⟩, 4)
  else if type = zclDatatypeDate then
    (payloadByte data 0).bind fun year =>
      (payloadByte data 1).bind fun mon =>
        (payloadByte data 2).bind fun mday =>
          (payloadByte data 3).map fun wday =>
            (⟨{ Tm.zero with
                year := year.toNat, mon := mon.toNat - 1, mday := mday.toNat, wday := wday.toNat % 7 },
              0⟩, 4)
  else if type = zclDatatypeUtc then
    (readBytes data 4).map fun bs => (⟨gmtime (zigbeeEpoch + addBytes 0 bs), 0⟩, 4)
  else .ok (⟨Tm.zero, 0⟩, 0)

/-! ## Values -/

namespace AttrVal

variable (v : AttrVal)

/-- The size that `azapZclAttrVal_t_serialize` asks for. -/
def requiredSize : Except Fault UInt8 :=
  (azapGetZclDataLength v.zigbeeDataType none).map fun size =>
    if size = 0 then
      if v.zigbeeDataType ∈ shortStrings then v.valueSize + 1 else v.valueSize + 2
    else size

/-- The switch of `azapZclAttrVal_t_serialize`. -/
def serializeValue (requiredSize : UInt8) : Except Fault (AttrVal × List UInt8) :=
  match v.u with
  | .boolean b => .ok (v, [if b then 0x01 else 0x00])
  | .integer longVal => .ok (v, serializeInteger v.zigbeeDataType longVal)
  | .charString s => (serializeString v.zigbeeDataType s requiredSize).map fun bs => (v, bs)
  | .dateTime dt =>
    let (dt, bs) := serializeDateTime v.zigbeeDataType dt
    .ok ({ v with u := .dateTime dt }, bs)
  | .raw r => (serializeRaw v.zigbeeDataType r requiredSize).map fun bs => (v, bs)
  | _ => .ok (v, [])

/-- `azapZclAttrVal_t_serialize`: the value afterwards, the bytes written, and the remaining
length. -/
def serialize (len : UInt8) : Except Fault (AttrVal × List UInt8 × UInt8) :=
  if v.u.valType = .unknown ∨ v.zigbeeDataType = zclDatatypeUnknown then .ok (v, [], len)
  else
    v.requiredSize.bind fun requiredSize =>
      if len < requiredSize then .ok (v, [], len)
      else
        (v.serializeValue requiredSize).map fun (v', bs) => (v', bs, len - UInt8.ofNat bs.length)

/-- The switch of `azapZclAttrVal_t_deserialize`: the value, and how many bytes are gone over. -/
def deserializeValue (data : List UInt8) (size : UInt8) : Except Fault (AttrVal × Nat) :=
  match v.u with
  | .boolean _ => (payloadByte data 0).map fun (b : UInt8) => ({ v with u := .boolean (b != 0x00) }, 1)
  | .integer _ =>
    (deserializeInteger v.zigbeeDataType data).map fun (longVal, k) =>
      ({ v with u := .integer longVal }, k)
  | .charString _ =>
    (deserializeString v.zigbeeDataType data size).map fun (bs, size, k) =>
      ({ v with valueSize := size, u := .charString (some bs) }, k)
  | .dateTime _ =>
    (deserializeDateTime v.zigbeeDataType data).map fun (dt, k) => ({ v with u := .dateTime dt }, k)
  | .raw _ =>
    (deserializeRaw v.zigbeeDataType data size).map fun (bs, size, k) =>
      (v.setRawValue (some bs) size, k)
  -- floating point and unknown types: nothing is read here
  | _ => .ok (v, 0)

/-- `azapZclAttrVal_t_deserialize`: the value, the bytes behind the pointer, and the remaining
length. -/
def deserialize (data : List UInt8) (len : UInt8) :
    Except Fault (AttrVal × List UInt8 × UInt8) :=
  if v.u.valType = .unknown then .ok (v, data, len)
  else
    (azapGetZclDataLength v.zigbeeDataType (some (payloadByte data))).bind fun size =>
      if len < size then .ok (v, data, len)
      else
        (v.deserializeValue data size).map fun (v', k) => (v', data.drop k, len - UInt8.ofNat k)

end AttrVal

end Ong.Azap
