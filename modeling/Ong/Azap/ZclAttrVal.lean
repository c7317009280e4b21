import Ong.Azap.AttributeLists
import Ong.Lib.Calendar

/-!
# The values of ZCL attributes

A value is created for a data type of ZigBee, which says once and for all of which kind it is, and
is changed by the setter of that kind.  Values of floating point are left out.

## Main results

* `AttrVal.new_valid`, `AttrVal.setBooleanValue_valid` and so on: the operations keep values valid
* `AttrVal.setStringValue_valid_iff`: but for strings whose size is no byte
-/

namespace Ong.Azap

/-! ## Date and time -/

/-- `struct tm` -/
structure Tm where
  sec : Int
  min : Int
  hour : Int
  mday : Int
  mon : Int
  year : Int
  wday : Int
  yday : Int
  isdst : Int
  deriving DecidableEq

/-- A `struct tm` of zeros. -/
def Tm.zero : Tm := ⟨0, 0, 0, 0, 0, 0, 0, 0, 0⟩

/-- `timegm`: the seconds since 1970; fields beyond their ranges go on counting. -/
def timegm (tm : Tm) : Int :=
  let year := tm.year + 1900 + tm.mon / 12
  let days := Calendar.daysFromCivil ⟨year, tm.mon % 12 + 1, tm.mday⟩
  days * 86400 + tm.hour * 3600 + tm.min * 60 + tm.sec

def gmtime (time : Int) : Tm :=
  let days := time / 86400
  let sec := time % 86400
  let date := Calendar.civilFromDays days
  { sec := sec % 60, min := sec / 60 % 60, hour := sec / 3600, mday := date.day,
    mon := date.month - 1, year := date.year - 1900, wday := (days + 4) % 7,
    yday := days - Calendar.daysFromCivil ⟨date.year, 1, 1⟩, isdst := 0 }

/-- `azapDateTime_t` -/
structure DateTime where
  dateTime : Tm
  mseconds : Int
  deriving DecidableEq

/-! ## Values -/

/-- `AZAP_ATTR_VAL_TYPE` -/
inductive ValType
  | unknown | boolean | float | integer | charString | dateTime | raw
  deriving DecidableEq

/-- `azapZclAttrVal_t_setType`: the kind of the values of a data type. -/
def valType (type : UInt8) : ValType :=
  if type ∈ [zclDatatypeIeeeAddr, zclDatatypeData8, zclDatatypeData16, zclDatatypeData24,
      zclDatatypeData32, zclDatatypeBitmap8, zclDatatypeBitmap16, zclDatatypeBitmap24,
      zclDatatypeBitmap32, zclDatatypeEnum8, zclDatatypeEnum16, zclDatatypeClusterId,
      zclDatatypeAttrId, zclDatatypeBacOid, zclDatatypeOctetStr, zclDatatypeLongOctetStr] then .raw
  else if type ∈ [zclDatatypeCharStr, zclDatatypeLongCharStr] then .charString
  else if type = zclDatatypeBoolean then .boolean
  else if type ∈ [zclDatatypeInt8, zclDatatypeInt16, zclDatatypeInt24, zclDatatypeInt32,
      zclDatatypeUint8, zclDatatypeUint16, zclDatatypeUint24, zclDatatypeUint32, zclDatatypeUint40,
      zclDatatypeUint48] then .integer
  else if type ∈ [zclDatatypeSemiPrec, zclDatatypeSinglePrec, zclDatatypeDoublePrec] then .float
  else if type ∈ [zclDatatypeTod, zclDatatypeDate, zclDatatypeUtc] then .dateTime
  else .unknown

/-- The data types of a kind. -/
def ValType.types : ValType → List UInt8
  | unknown => []
  | boolean => [zclDatatypeBoolean]
  | float => [zclDatatypeSemiPrec, zclDatatypeSinglePrec, zclDatatypeDoublePrec]
  | integer => [zclDatatypeInt8, zclDatatypeInt16, zclDatatypeInt24, zclDatatypeInt32,
      zclDatatypeUint8, zclDatatypeUint16, zclDatatypeUint24, zclDatatypeUint32, zclDatatypeUint40,
      zclDatatypeUint48]
  | charString => [zclDatatypeCharStr, zclDatatypeLongCharStr]
  | dateTime => [zclDatatypeTod, zclDatatypeDate, zclDatatypeUtc]
  | raw => [zclDatatypeIeeeAddr, zclDatatypeData8, zclDatatypeData16, zclDatatypeData24,
      zclDatatypeData32, zclDatatypeBitmap8, zclDatatypeBitmap16, zclDatatypeBitmap24,
      zclDatatypeBitmap32, zclDatatypeEnum8, zclDatatypeEnum16, zclDatatypeClusterId,
      zclDatatypeAttrId, zclDatatypeBacOid, zclDatatypeOctetStr, zclDatatypeLongOctetStr]

theorem mem_types {type : UInt8} {kind : ValType} (h : valType type = kind) (hne : kind ≠ .unknown) :
    type ∈ kind.types := by
  unfold valType at h
  split at h
  · next hraw => exact h ▸ hraw
  split at h
  · next hcharString => exact h ▸ hcharString
  split at h
  · next hboolean => exact h ▸ List.mem_singleton.mpr hboolean
  split at h
  · next hinteger => exact h ▸ hinteger
  split at h
  · next hfloat => exact h ▸ hfloat
  split at h
  · next hdateTime => exact h ▸ hdateTime
  · exact absurd h.symm hne

/-- The union of a value, with the kind that says which member is meant.  A string is its bytes
without the null byte, or the null pointer; with more bytes than its size it has no null byte. -/
inductive Value
  | unknown
  | boolean (booleanVal : Bool)
  | float
  | integer (longVal : Int)
  | charString (stringVal : Option (List UInt8))
  | dateTime (dateTimeVal : DateTime)
  | raw (rawVal : Option (List UInt8))
  deriving DecidableEq

/-- `valueType` -/
def Value.valType : Value → ValType
  | unknown => .unknown
  | boolean _ => .boolean
  | float => .float
  | integer _ => .integer
  | charString _ => .charString
  | dateTime _ => .dateTime
  | raw _ => .raw

section Members

variable {u : Value}

theorem Value.exists_boolean (h : u.valType = .boolean) : ∃ b, u = .boolean b := by
  cases u with
  | boolean b => exact ⟨b, rfl⟩
  | _ => cases h

theorem Value.exists_integer (h : u.valType = .integer) : ∃ n, u = .integer n := by
  cases u with
  | integer n => exact ⟨n, rfl⟩
  | _ => cases h

theorem Value.exists_charString (h : u.valType = .charString) : ∃ s, u = .charString s := by
  cases u with
  | charString s => exact ⟨s, rfl⟩
  | _ => cases h

theorem Value.exists_dateTime (h : u.valType = .dateTime) : ∃ dt, u = .dateTime dt := by
  cases u with
  | dateTime dt => exact ⟨dt, rfl⟩
  | _ => cases h

theorem Value.exists_raw (h : u.valType = .raw) : ∃ r, u = .raw r := by
  cases u with
  | raw r => exact ⟨r, rfl⟩
  | _ => cases h

end Members

/-- `azapZclAttrVal_t` -/
structure AttrVal where
  zigbeeDataType : UInt8
  valueSize : UInt8
  u : Value
  deriving DecidableEq

/-- The value that a kind starts with. -/
def ValType.initial : ValType → Value
  | unknown => .unknown
  | boolean => .boolean false
  | float => .float
  | integer => .integer 0
  | charString => .charString none
  | dateTime => .dateTime ⟨Tm.zero, 0⟩
  | raw => .raw none

/-- The limits that `azapZclAttrVal_t_setIntegerValue` checks. -/
def integerRange (type : UInt8) : Option (Int × Int) :=
  if type = zclDatatypeInt8 then some (-0x80, 0x7F)
  else if type = zclDatatypeInt16 then some (-0x8000, 0x7FFF)
  else if type = zclDatatypeInt24 then some (-0x800000, 0x7FFFFF)
  else if type = zclDatatypeInt32 then some (-0x80000000, 0x7FFFFFFF)
  else if type = zclDatatypeUint8 then some (0, 0xFF)
  else if type = zclDatatypeUint16 then some (0, 0xFFFF)
  else if type = zclDatatypeUint24 then some (0, 0xFFFFFF)
  else if type = zclDatatypeUint32 then some (0, 0xFFFFFFFF)
  else if type = zclDatatypeUint40 then some (0, 0xFFFFFFFFFF)
  else if type = zclDatatypeUint48 then some (0, 0xFFFFFFFFFFFF)
  else none

/-- The integers that the setter does not refuse. -/
def Accepts (type : UInt8) (val : Int) : Prop :=
  ∀ r ∈ integerRange type, r.1 ≤ val ∧ val ≤ r.2

instance (type : UInt8) (val : Int) : Decidable (Accepts type val) :=
  inferInstanceAs (Decidable (∀ _ ∈ _, _))

namespace AttrVal

/-- `new_azapZclAttrVal_t` -/
def new (type : UInt8) : AttrVal := ⟨type, 0, (valType type).initial⟩

/-- `azapZclAttrVal_t_setBooleanValue` -/
def setBooleanValue (v : AttrVal) (val : Bool) : AttrVal :=
  match v.u with
  | .boolean _ => { v with u := .boolean val }
  | _ => v

/-- `azapZclAttrVal_t_setIntegerValue` -/
def setIntegerValue (v : AttrVal) (val : Int) : AttrVal :=
  match v.u with
  | .integer _ => if Accepts v.zigbeeDataType val then { v with u := .integer val } else v
  | _ => v

/-- `azapZclAttrVal_t_setStringValue`; the size is that of the string in a byte, and one byte more
is copied, which is the null byte of a string of that size. -/
def setStringValue (v : AttrVal) (val : Option (List UInt8)) : AttrVal :=
  match v.u with
  | .charString _ =>
    match val with
    | some val =>
      let size := UInt8.ofNat val.length
      { v with valueSize := size, u := .charString (some (val.take (size.toNat + 1))) }
    | none => { v with valueSize := 0, u := .charString none }
  | _ => v

/-- `azapZclAttrVal_t_setDateTimeValue` -/
def setDateTimeValue (v : AttrVal) (val : Option Tm) (msec : Int) : AttrVal :=
  match v.u with
  | .dateTime dt => { v with u := .dateTime ⟨val.getD dt.dateTime, msec⟩ }
  | _ => v

/-- `azapZclAttrVal_t_setRawValue`; the size is that of the bytes to copy from the pointer. -/
def setRawValue (v : AttrVal) (val : Option (List UInt8)) (size : UInt8) : AttrVal :=
  match v.u with
  | .raw _ =>
    match val with
    | some val => { v with valueSize := size, u := .raw (some (val.take size.toNat)) }
    | none => { v with valueSize := 0, u := .raw none }
  | _ => v

/-! ## Valid values -/

/-- The size that goes with a value: only strings and raw values have one. -/
def storedSize : Value → Nat
  | .charString s => (s.getD []).length
  | .raw r => (r.getD []).length
  | _ => 0

/-- The member in use is that of the type, integers are accepted by the setter, and the size is that
of the value. -/
structure Valid (v : AttrVal) : Prop where
  kind : v.u.valType = valType v.zigbeeDataType
  accepted : ∀ n, v.u = .integer n → Accepts v.zigbeeDataType n
  size : v.valueSize.toNat = storedSize v.u

section Valid

variable {v : AttrVal} (h : v.Valid)

theorem forall_mem_ite {α : Type} {c : Prop} [Decidable c] {a : α} {rest : Option α} {P : α → Prop}
    (ha : P a) (hrest : ∀ r ∈ rest, P r) : ∀ r ∈ if c then some a else rest, P r := by
  split
  · exact fun r hr => Option.some.inj hr ▸ ha
  · exact hrest

theorem accepts_zero (type : UInt8) : Accepts type 0 := by
  iterate 10 refine forall_mem_ite (by decide) ?_
  exact nofun

theorem new_valid (type : UInt8) : (new type).Valid := by
  constructor
  · simp only [new]
    cases valType type <;> rfl
  · intro n hn
    simp only [new] at hn ⊢
    cases hkind : valType type <;> rw [hkind] at hn <;> cases hn
    exact accepts_zero type
  · simp only [new]
    cases valType type <;> rfl

/-- The null byte is copied exactly with the strings whose size is a byte. -/
theorem length_take_size {val : List UInt8} : (UInt8.ofNat val.length).toNat =
    (val.take ((UInt8.ofNat val.length).toNat + 1)).length ↔ val.length ≤ 255 := by
  rw [List.length_take, UInt8.toNat_ofNat']
  omega

include h

theorem valueSize_eq_zero (hstored : storedSize v.u = 0) : v.valueSize = 0 :=
  UInt8.toNat_inj.mp (h.size.trans hstored)

theorem setBooleanValue_valid (val : Bool) : (v.setBooleanValue val).Valid := by
  unfold setBooleanValue
  split
  · next b hu =>
    have hkind := h.kind
    have hsize := h.size
    rw [hu] at hkind hsize
    exact ⟨hkind, nofun, hsize⟩
  · exact h

theorem setIntegerValue_valid (val : Int) : (v.setIntegerValue val).Valid := by
  unfold setIntegerValue
  split
  · next n hu =>
    have hkind := h.kind
    have hsize := h.size
    rw [hu] at hkind hsize
    split
    · next haccepts =>
      refine ⟨hkind, fun n hn => ?_, hsize⟩
      obtain rfl := Value.integer.inj hn
      exact haccepts
    · exact h
  · exact h

/-- A string keeps its null byte up to 255 bytes. -/
theorem setStringValue_valid_iff (val : Option (List UInt8)) : (v.setStringValue val).Valid ↔
    (v.u.valType = .charString → ∀ bytes ∈ val, bytes.length ≤ 255) := by
  unfold setStringValue
  split
  · next s hu =>
    have hkind := h.kind
    rw [hu] at hkind ⊢
    cases val with
    | none => exact iff_of_true ⟨hkind, nofun, rfl⟩ fun _ => nofun
    | some val =>
      constructor
      · rintro hv - _ ⟨⟩
        exact length_take_size.mp hv.size
      · exact fun hval => ⟨hkind, nofun, length_take_size.mpr (hval rfl val rfl)⟩
  · next hu =>
    refine iff_of_true h fun hkind => ?_
    obtain ⟨s, hs⟩ := Value.exists_charString hkind
    exact absurd hs (hu s)

theorem setDateTimeValue_valid (val : Option Tm) (msec : Int) :
    (v.setDateTimeValue val msec).Valid := by
  unfold setDateTimeValue
  split
  · next dt hu =>
    have hkind := h.kind
    have hsize := h.size
    rw [hu] at hkind hsize
    exact ⟨hkind, nofun, hsize⟩
  · exact h

theorem setRawValue_valid {val : Option (List UInt8)} {size : UInt8}
    (hval : ∀ bytes ∈ val, size.toNat ≤ bytes.length) : (v.setRawValue val size).Valid := by
  unfold setRawValue
  split
  · next r hu =>
    have hkind := h.kind
    rw [hu] at hkind
    cases val with
    | none => exact ⟨hkind, nofun, rfl⟩
    | some val =>
      have hlength : (val.take size.toNat).length = size.toNat := by
        rw [List.length_take, Nat.min_eq_left (hval val rfl)]
      exact ⟨hkind, nofun, hlength.symm⟩
  · exact h

end Valid

end AttrVal

end Ong.Azap
