import Ong.Azap.ZclData
import Ong.Lib.Records

/-!
# The attribute lists of ZCL commands

The payload of a ZCL command is a list of attribute records.  It is read twice: a first pass counts
the records, with offsets in a byte, and refuses a payload that a value goes beyond; a second pass
fills the list.  Which fields a record has depends on its status, its direction and its data type,
and both passes work that out on their own.

A read at or beyond the end of the payload is a fault here, and ends the parser.
-/

namespace Ong.Azap

/-- What a parser can run into: a read outside the payload, or a loop that does not end. -/
inductive Fault
  | outOfRange | endless
  deriving DecidableEq

/-- `data[i]`, inside the payload. -/
def payloadByte (data : List UInt8) (i : Nat) : Except Fault UInt8 :=
  match data[i]? with
  | some b => .ok b
  | none => .error .outOfRange

def zclStatusSuccess : UInt8 := 0x00

def zclSendAttrReports : UInt8 := 0x00

/-- The little-endian number of two bytes. -/
def uint16 (low high : UInt8) : UInt16 := low.toUInt16 + (high.toUInt16 <<< 8)

/-! ## Reading and shifting -/

/-- The position of `data` in the payload and the remaining length. -/
structure Cursor where
  data : Nat
  len : UInt8

variable (payload : List UInt8)

def parseUint8AndShift (c : Cursor) : Except Fault (UInt8 × Cursor) :=
  if c.len < 1 then .ok (0, c)
  else (payloadByte payload c.data).map fun b => (b, ⟨c.data + 1, c.len - 1⟩)

def parseUint16AndShift (c : Cursor) : Except Fault (UInt16 × Cursor) :=
  if c.len < 2 then .ok (0, c)
  else
    (payloadByte payload c.data).bind fun low =>
      (payloadByte payload (c.data + 1)).map fun high => (uint16 low high, ⟨c.data + 2, c.len - 2⟩)

/-- `azapGetZclDataLength` of the data at a position of the payload. -/
def dataLengthAt (type : UInt8) (i : Nat) : Except Fault UInt8 :=
  azapGetZclDataLength type (some fun j => payloadByte payload (i + j))

/-! ## The two passes -/

/-- The list that a parser returns, and where each record ended in the first and in the second
pass. -/
structure AttrList (ρ : Type) where
  attrList : List ρ
  counted : List Nat
  filled : List Nat
  deriving DecidableEq

/-- The first pass, `while (pos < len)`, with the step of one record: the next position, or none
where the parser returns `NULL`. -/
def countLoop (step : UInt8 → Except Fault (Option UInt8)) (len : UInt8) :
    Nat → UInt8 → Except Fault (Option (List Nat))
  | 0, _ => .error .endless
  | fuel + 1, pos =>
    if pos < len then
      match step pos with
      | .error e => .error e
      | .ok none => .ok none
      | .ok (some pos) => (countLoop step len fuel pos).map (Option.map (pos.toNat :: ·))
    else .ok (some [])

/-- The second pass, `while ((len > 0) && (numAttr > parsedData->numAttr))`, with the step of one
record. -/
def fillLoop {ρ : Type} (step : Cursor → Except Fault (ρ × Cursor)) :
    Nat → Cursor → Except Fault (List (ρ × Nat))
  | 0, _ => .ok []
  | n + 1, c =>
    if 0 < c.len then
      (step c).bind fun r => (fillLoop step n r.2).map ((r.1, r.2.data) :: ·)
    else .ok []

/-- Both passes. -/
def parseAttrList {ρ : Type} (count : UInt8 → Except Fault (Option UInt8))
    (fill : Cursor → Except Fault (ρ × Cursor)) (len : UInt8) : Except Fault (Option (AttrList ρ)) :=
  match countLoop count len 256 0 with
  | .error e => .error e
  | .ok none => .ok none
  | .ok (some counted) =>
    let numAttr := UInt8.ofNat counted.length
    (fillLoop fill numAttr.toNat ⟨0, len⟩).map fun l => some ⟨l.map (·.1), counted, l.map (·.2)⟩

/-! ## Read attributes response -/

/-- `azapZclReadRspAttr_t`; the type and the position of the data are set for a status of
success. -/
structure ReadRspAttr where
  attrId : UInt16
  status : UInt8
  value : Option (UInt8 × Nat)

section ReadRsp

variable (data : List UInt8)

/-- The loop body of the first pass of `parseZCLReadCmdRsp`. -/
def countReadRsp (pos : UInt8) : Except Fault (Option UInt8) :=
  let len := UInt8.ofNat data.length
  let pos := pos + 2
  (payloadByte data pos.toNat).bind fun status =>
    if status = zclStatusSuccess then
      (payloadByte data (pos.toNat + 1)).bind fun type =>
        (dataLengthAt data type (pos.toNat + 2)).bind fun size =>
          let pos := pos + 1
          if len < size ∨ len.toNat < size.toNat + pos.toNat + 1 then .ok none
          else .ok (some (pos + size + 1))
    else .ok (some (pos + 1))

/-- The loop body of the second pass. -/
def fillReadRsp (c : Cursor) : Except Fault (ReadRspAttr × Cursor) :=
  (parseUint16AndShift data c).bind fun (attrId, c) =>
    (parseUint8AndShift data c).bind fun (status, c) =>
      if status = zclStatusSuccess then
        (parseUint8AndShift data c).bind fun (dataType, c) =>
          (dataLengthAt data dataType c.data).map fun size =>
            (⟨attrId, status, some (dataType, c.data)⟩, ⟨c.data + size.toNat, c.len - size⟩)
      else .ok (⟨attrId, status, none⟩, c)

def parseZCLReadCmdRsp : Except Fault (Option (AttrList ReadRspAttr)) :=
  parseAttrList (countReadRsp data) (fillReadRsp data) (UInt8.ofNat data.length)

end ReadRsp

/-! ## Report attributes -/

/-- `azapZclReportAttr_t` -/
structure ReportAttr where
  attrId : UInt16
  dataType : UInt8
  attrData : Nat

section Report

variable (data : List UInt8)

/-- The loop body of the first pass of `parseZCLReportCmd`. -/
def countReport (pos : UInt8) : Except Fault (Option UInt8) :=
  let len := UInt8.ofNat data.length
  let pos := pos + 2
  (payloadByte data pos.toNat).bind fun type =>
    (dataLengthAt data type (pos.toNat + 1)).bind fun size =>
      let pos := pos + 1
      if len < size ∨ len.toNat < size.toNat + pos.toNat then .ok none
      else .ok (some (pos + size))

/-- The loop body of the second pass. -/
def fillReport (c : Cursor) : Except Fault (ReportAttr × Cursor) :=
  (parseUint16AndShift data c).bind fun (attrId, c) =>
    (parseUint8AndShift data c).bind fun (dataType, c) =>
      (dataLengthAt data dataType c.data).map fun size =>
        (⟨attrId, dataType, c.data⟩, ⟨c.data + size.toNat, c.len - size⟩)

def parseZCLReportCmd : Except Fault (Option (AttrList ReportAttr)) :=
  parseAttrList (countReport data) (fillReport data) (UInt8.ofNat data.length)

end Report

/-! ## The configuration of reports -/

/-- The fields that `azapZclReportCfgRspAttr_t` and `azapZclCfgReportAttr_t` have in common. -/
structure ReportCfg where
  direction : UInt8
  attrId : UInt16
  dataType : UInt8
  minReportInt : UInt16
  maxReportInt : UInt16
  timeoutPeriod : UInt16
  reportableChange : Option Nat
  deriving DecidableEq

section ReportCfg

variable (data : List UInt8)

/-- What both parsers do in the first pass behind the attribute identifier, for a direction. -/
def countReportCfg (direction : UInt8) (pos : UInt8) : Except Fault (Option UInt8) :=
  let len := UInt8.ofNat data.length
  if direction = zclSendAttrReports then
    (payloadByte data pos.toNat).bind fun type =>
      let pos := pos + 5
      if azapZclIsAnalogDataType type then
        (azapGetZclDataLength type none).bind fun size =>
          if len < size ∨ len.toNat < size.toNat + pos.toNat then .ok none
          else .ok (some (pos + size))
      else .ok (some pos)
  else .ok (some (pos + 2))

/-- What both parsers do in the second pass behind the attribute identifier. -/
def fillReportCfg (direction : UInt8) (attrId : UInt16) (c : Cursor) :
    Except Fault (ReportCfg × Cursor) :=
  if direction = zclSendAttrReports then
    (parseUint8AndShift data c).bind fun (dataType, c) =>
      (parseUint16AndShift data c).bind fun (minReportInt, c) =>
        (parseUint16AndShift data c).bind fun (maxReportInt, c) =>
          -- the reportable change is skipped for every type, analog or not
          (dataLengthAt data dataType c.data).map fun size =>
            (⟨direction, attrId, dataType, minReportInt, maxReportInt, 0, some c.data⟩,
              ⟨c.data + size.toNat, c.len - size⟩)
  else
    -- the direction of reports that come in: a timeout period instead
    (parseUint16AndShift data c).map fun (timeoutPeriod, c) =>
      (⟨direction, attrId, 0, 0, 0, timeoutPeriod, none⟩, c)

end ReportCfg

/-! ## Read reporting configuration response -/

/-- `azapZclReportCfgRspAttr_t`: the status, and the other fields for a status of success. -/
structure ReportCfgRspAttr where
  status : UInt8
  direction : UInt8
  attrId : UInt16
  cfg : Option ReportCfg

section ReadReportConfig

variable (data : List UInt8)

/-- The loop body of the first pass of `parseZCLReadReportConfigCmdRsp`. -/
def countReadReportConfig (pos : UInt8) : Except Fault (Option UInt8) :=
  (payloadByte data pos.toNat).bind fun status =>
    (payloadByte data (pos.toNat + 1)).bind fun direction =>
      let pos := pos + 4
      if status = zclStatusSuccess then countReportCfg data direction pos else .ok (some pos)

/-- The loop body of the second pass. -/
def fillReadReportConfig (c : Cursor) : Except Fault (ReportCfgRspAttr × Cursor) :=
  (parseUint8AndShift data c).bind fun (status, c) =>
    (parseUint8AndShift data c).bind fun (direction, c) =>
      (parseUint16AndShift data c).bind fun (attrId, c) =>
        if status = zclStatusSuccess then
          (fillReportCfg data direction attrId c).map fun (cfg, c) =>
            (⟨status, direction, attrId, some cfg⟩, c)
        else .ok (⟨status, direction, attrId, none⟩, c)

def parseZCLReadReportConfigCmdRsp : Except Fault (Option (AttrList ReportCfgRspAttr)) :=
  parseAttrList (countReadReportConfig data) (fillReadReportConfig data) (UInt8.ofNat data.length)

end ReadReportConfig

section ConfigureReport

variable (data : List UInt8)

/-- The loop body of the first pass of `parseZCLConfigureReportCmd`. -/
def countConfigureReport (pos : UInt8) : Except Fault (Option UInt8) :=
  (payloadByte data pos.toNat).bind fun direction => countReportCfg data direction (pos + 3)

/-- The loop body of the second pass. -/
def fillConfigureReport (c : Cursor) : Except Fault (ReportCfg × Cursor) :=
  (parseUint8AndShift data c).bind fun (direction, c) =>
    (parseUint16AndShift data c).bind fun (attrId, c) => fillReportCfg data direction attrId c

def parseZCLConfigureReportCmd : Except Fault (Option (AttrList ReportCfg)) :=
  parseAttrList (countConfigureReport data) (fillConfigureReport data) (UInt8.ofNat data.length)

end ConfigureReport

/-! ## The grammars -/

/-- The length of the value that some bytes begin with, if the bytes that say it are there. -/
def valueLength (type : UInt8) (bytes : List UInt8) : Option Nat :=
  match azapGetZclDataLength type (some fun j => payloadByte bytes j) with
  | .ok n => if n.toNat ≤ bytes.length then some n.toNat else none
  | .error _ => none

variable (pos : Nat)

/-- A complete record of a read attributes response. -/
def readRspRecord : List UInt8 → Option (ReadRspAttr × Nat)
  | low :: high :: status :: bytes =>
    if status = zclStatusSuccess then
      match bytes with
      | type :: value => (valueLength type value).map fun n =>
          (⟨uint16 low high, status, some (type, pos + 4)⟩, pos + 4 + n)
      | [] => none
    else some (⟨uint16 low high, status, none⟩, pos + 3)
  | _ => none

/-- A complete record of a report. -/
def reportRecord : List UInt8 → Option (ReportAttr × Nat)
  | low :: high :: type :: value => (valueLength type value).map fun n =>
      (⟨uint16 low high, type, pos + 3⟩, pos + 3 + n)
  | _ => none

/-- The rest of a complete record of a configuration, behind the attribute identifier: type,
intervals and for an analog type the reportable change, or a timeout period. -/
def reportCfgRecord (direction : UInt8) (attrId : UInt16) (pos : Nat) :
    List UInt8 → Option (ReportCfg × Nat)
  | bytes =>
    if direction = zclSendAttrReports then
      match bytes with
      | type :: min0 :: min1 :: max0 :: max1 :: change =>
        if azapZclIsAnalogDataType type then (valueLength type change).map fun n =>
          (⟨direction, attrId, type, uint16 min0 min1, uint16 max0 max1, 0, some (pos + 5)⟩,
            pos + 5 + n)
        else
          some (⟨direction, attrId, type, uint16 min0 min1, uint16 max0 max1, 0, none⟩, pos + 5)
      | _ => none
    else
      match bytes with
      | low :: high :: _ => some (⟨direction, attrId, 0, 0, 0, uint16 low high, none⟩, pos + 2)
      | _ => none

/-- A complete record of a read reporting configuration response. -/
def readReportConfigRecord : List UInt8 → Option (ReportCfgRspAttr × Nat)
  | status :: direction :: low :: high :: bytes =>
    if status = zclStatusSuccess then
      (reportCfgRecord direction (uint16 low high) (pos + 4) bytes).map fun (cfg, q) =>
        (⟨status, direction, uint16 low high, some cfg⟩, q)
    else some (⟨status, direction, uint16 low high, none⟩, pos + 4)
  | _ => none

/-- A complete record of a configuration of reports. -/
def configureReportRecord : List UInt8 → Option (ReportCfg × Nat)
  | direction :: low :: high :: bytes =>
    reportCfgRecord direction (uint16 low high) (pos + 3) bytes
  | _ => none

end Ong.Azap
