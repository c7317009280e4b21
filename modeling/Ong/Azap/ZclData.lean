import Mathlib.Data.List.Basic

/-!
# The data types of the ZCL

The value of an attribute is sent after the code of its data type.  The code says how many bytes the
value takes, for a string together with the length at its beginning.
-/

namespace Ong.Azap

/-! ## The codes of the data types -/

def zclDatatypeData8 : UInt8 := 0x08
def zclDatatypeData16 : UInt8 := 0x09
def zclDatatypeData24 : UInt8 := 0x0a
def zclDatatypeData32 : UInt8 := 0x0b
def zclDatatypeBoolean : UInt8 := 0x10
def zclDatatypeBitmap8 : UInt8 := 0x18
def zclDatatypeBitmap16 : UInt8 := 0x19
def zclDatatypeBitmap24 : UInt8 := 0x1a
def zclDatatypeBitmap32 : UInt8 := 0x1b
def zclDatatypeUint8 : UInt8 := 0x20
def zclDatatypeUint16 : UInt8 := 0x21
def zclDatatypeUint24 : UInt8 := 0x22
def zclDatatypeUint32 : UInt8 := 0x23
def zclDatatypeUint40 : UInt8 := 0x24
def zclDatatypeUint48 : UInt8 := 0x25
def zclDatatypeInt8 : UInt8 := 0x28
def zclDatatypeInt16 : UInt8 := 0x29
def zclDatatypeInt24 : UInt8 := 0x2a
def zclDatatypeInt32 : UInt8 := 0x2b
def zclDatatypeEnum8 : UInt8 := 0x30
def zclDatatypeEnum16 : UInt8 := 0x31
def zclDatatypeSemiPrec : UInt8 := 0x38
def zclDatatypeSinglePrec : UInt8 := 0x39
def zclDatatypeDoublePrec : UInt8 := 0x3a
def zclDatatypeOctetStr : UInt8 := 0x41
def zclDatatypeCharStr : UInt8 := 0x42
def zclDatatypeLongOctetStr : UInt8 := 0x43
def zclDatatypeLongCharStr : UInt8 := 0x44
def zclDatatypeTod : UInt8 := 0xe0
def zclDatatypeDate : UInt8 := 0xe1
def zclDatatypeUtc : UInt8 := 0xe2
def zclDatatypeClusterId : UInt8 := 0xe8
def zclDatatypeAttrId : UInt8 := 0xe9
def zclDatatypeBacOid : UInt8 := 0xea
def zclDatatypeIeeeAddr : UInt8 := 0xf0
def zclDatatypeUnknown : UInt8 := 0xff

/-! ## Lengths -/

/-- The types whose values have a length of one byte at their beginning. -/
def shortStrings : List UInt8 := [zclDatatypeCharStr, zclDatatypeOctetStr]

/-- The types whose values have a length of two bytes at their beginning. -/
def longStrings : List UInt8 := [zclDatatypeLongCharStr, zclDatatypeLongOctetStr]

/-- The cases of `azapGetZclDataLength` that do not look at the data. -/
def fixedLength (type : UInt8) : UInt8 :=
  if type ∈ [zclDatatypeData8, zclDatatypeBoolean, zclDatatypeBitmap8, zclDatatypeInt8,
      zclDatatypeUint8, zclDatatypeEnum8] then 1
  else if type ∈ [zclDatatypeData16, zclDatatypeBitmap16, zclDatatypeUint16, zclDatatypeInt16,
      zclDatatypeEnum16, zclDatatypeSemiPrec, zclDatatypeClusterId, zclDatatypeAttrId] then 2
  else if type ∈ [zclDatatypeData24, zclDatatypeBitmap24, zclDatatypeUint24, zclDatatypeInt24] then 3
  else if type ∈ [zclDatatypeData32, zclDatatypeBitmap32, zclDatatypeUint32, zclDatatypeInt32,
      zclDatatypeSinglePrec, zclDatatypeTod, zclDatatypeDate, zclDatatypeUtc, zclDatatypeBacOid] then 4
  else if type = zclDatatypeUint40 then 5
  else if type = zclDatatypeUint48 then 6
  else if type ∈ [zclDatatypeDoublePrec, zclDatatypeIeeeAddr] then 8
  else 0

/-- `azapGetZclDataLength`; `data` reads a byte of the data, or is the null pointer.  The sums are
those of a byte. -/
def azapGetZclDataLength {ε : Type} (type : UInt8) (data : Option (Nat → Except ε UInt8)) :
    Except ε UInt8 :=
  if type ∈ shortStrings then
    match data with
    | some read => (read 0).map (· + 1)
    | none => .ok 0
  else if type ∈ longStrings then
    match data with
    | some read => (read 1).bind fun high => if high = 0 then (read 0).map (· + 2) else .ok 0
    | none => .ok 0
  else .ok (fixedLength type)

def azapZclIsAnalogDataType (type : UInt8) : Bool :=
  type ∈ [zclDatatypeUint8, zclDatatypeUint16, zclDatatypeUint24, zclDatatypeUint32, zclDatatypeUint40,
    zclDatatypeUint48, zclDatatypeInt8, zclDatatypeInt16, zclDatatypeInt24, zclDatatypeInt32,
    zclDatatypeSemiPrec, zclDatatypeSinglePrec, zclDatatypeDoublePrec, zclDatatypeTod, zclDatatypeDate,
    zclDatatypeUtc]

section Lengths

variable {ε : Type} {type : UInt8}

theorem dataLength_of_analog (h : azapZclIsAnalogDataType type = true)
    (data : Option (Nat → Except ε UInt8)) :
    azapGetZclDataLength type data = .ok (fixedLength type) := by
  have htype : ∀ t : Fin 256, azapZclIsAnalogDataType (UInt8.ofFin t) = true →
      UInt8.ofFin t ∉ shortStrings ∧ UInt8.ofFin t ∉ longStrings := by decide +kernel
  obtain ⟨hshort, hlong⟩ : type ∉ shortStrings ∧ type ∉ longStrings := htype type.toFin h
  unfold azapGetZclDataLength
  rw [if_neg hshort, if_neg hlong]

end Lengths

end Ong.Azap
