import Ong.Azap.AttributeLists
import Ong.Lib.CountedList

/-!
# The responses of the ZDO

The handler of a ZDO response reads the fields of the payload one after another and hands them to
the callback, lists with the count that the payload says.  A parser that finds too few bytes left
returns 0, or no list, and does not go on; the count is handed over as it is.

The remaining length of the parsers is that of the remaining bytes.  The callbacks are there.
-/

namespace Ong.Azap.Zdo

open CountedList

/-! ## Reading and shifting -/

def parseUint8AndShift : List UInt8 → UInt8 × List UInt8
  | [] => (0, [])
  | b :: data => (b, data)

def parseUint16AndShift : List UInt8 → UInt16 × List UInt8
  | low :: high :: data => (uint16 low high, data)
  | data => (0, data)

def ieeeAddrLen : Nat := 8

/-- `parseExtAddrAndShift`; the buffer is left as it is where too few bytes are left. -/
def parseExtAddrAndShift (data : List UInt8) : Option (List UInt8) × List UInt8 :=
  if data.length < ieeeAddrLen then (none, data)
  else (some (data.take ieeeAddrLen), data.drop ieeeAddrLen)

/-- What both array parsers do, for elements of a size. -/
def parseArrayAndShift {α : Type} (parse : List UInt8 → α × List UInt8) (size : Nat)
    (data : List UInt8) (num : UInt8) : Option (List α) × List UInt8 :=
  if num = 0 then (none, data)
  else if data.length < size * num.toNat then (none, data)
  else
    let (res, data) := readMany parse num.toNat data
    (some res, data)

def parseUint8ArrayAndShift : List UInt8 → UInt8 → Option (List UInt8) × List UInt8 :=
  parseArrayAndShift parseUint8AndShift 1

def parseUint16ArrayAndShift : List UInt8 → UInt8 → Option (List UInt16) × List UInt8 :=
  parseArrayAndShift parseUint16AndShift 2

/-- `PROCESS_CALL_BACK_NOT_FOUND` -/
def processCallBack {ρ : Type} (minSize maxSize : Nat) (data : List UInt8) (process : ρ) : Option ρ :=
  if data.length < minSize ∨ maxSize < data.length then none else some process

def statusCodeSuccess : UInt8 := 0x00

/-! ## The addresses of a device -/

/-- What is handed to `azapZdpNwkAddrRspCb` and `azapZdpIeeeAddrRspCb`. -/
structure AddrRsp where
  status : UInt8
  ieeeAddr : List UInt8
  nwkAddr : UInt16
  numAssocDev : UInt8
  startIndex : UInt8
  nwkAddrAssocDevList : Option (List UInt16)

section Addr

variable (data : List UInt8)

def azapProcessZdoNwkAddrRspCb : Option AddrRsp :=
  processCallBack 0x0C 0x52 data <|
    let ieeeAddr := List.replicate ieeeAddrLen 0
    let (status, data) := parseUint8AndShift data
    if status = statusCodeSuccess then
      let (addr, data) := parseExtAddrAndShift data
      let (nwkAddr, data) := parseUint16AndShift data
      let (startIndex, data) := parseUint8AndShift data
      -- the count is handed on as it came, whatever the array parser finds
      let (numAssocDev, data) := parseUint8AndShift data
      let (nwkAddrAssocDevList, _) := parseUint16ArrayAndShift data numAssocDev
      ⟨status, addr.getD ieeeAddr, nwkAddr, numAssocDev, startIndex, nwkAddrAssocDevList⟩
    else ⟨status, ieeeAddr, 0, 0, 0, none⟩

/-- `azapProcessZdoIeeeAddrRspCb`, which has the count before the start index. -/
def azapProcessZdoIeeeAddrRspCb : Option AddrRsp :=
  processCallBack 0x0B 0x52 data <|
    let ieeeAddr := List.replicate ieeeAddrLen 0
    let (status, data) := parseUint8AndShift data
    if status = statusCodeSuccess then
      let (addr, data) := parseExtAddrAndShift data
      let (nwkAddr, data) := parseUint16AndShift data
      let (numAssocDev, data) := parseUint8AndShift data
      let (startIndex, data) := parseUint8AndShift data
      let (nwkAddrAssocDevList, _) := parseUint16ArrayAndShift data numAssocDev
      ⟨status, addr.getD ieeeAddr, nwkAddr, numAssocDev, startIndex, nwkAddrAssocDevList⟩
    else ⟨status, ieeeAddr, 0, 0, 0, none⟩

end Addr

/-! ## The end points of a device -/

/-- What is handed to `azapZdpSimpleDescRspCb`. -/
structure SimpleDescRsp where
  status : UInt8
  nwkAddr : UInt16
  endPointId : UInt8
  profileId : UInt16
  deviceId : UInt16
  deviceVersion : UInt8
  numInClusters : UInt8
  inClusterList : Option (List UInt16)
  numOutClusters : UInt8
  outClusterList : Option (List UInt16)

def azapProcessZdoSimpleDescRspCb (data : List UInt8) : Option SimpleDescRsp :=
  processCallBack 0x04 0x4C data <|
    let (status, data) := parseUint8AndShift data
    if status = statusCodeSuccess then
      let (nwkAddr, data) := parseUint16AndShift data
      -- the length of the descriptor is read and not used
      let (_simpleDescLen, data) := parseUint8AndShift data
      let (endPointId, data) := parseUint8AndShift data
      let (profileId, data) := parseUint16AndShift data
      let (deviceId, data) := parseUint16AndShift data
      let (deviceVersion, data) := parseUint8AndShift data
      let (numInClusters, data) := parseUint8AndShift data
      let (inClusterList, data) := parseUint16ArrayAndShift data numInClusters
      let (numOutClusters, data) := parseUint8AndShift data
      let (outClusterList, _) := parseUint16ArrayAndShift data numOutClusters
      ⟨status, nwkAddr, endPointId, profileId, deviceId, deviceVersion, numInClusters, inClusterList,
        numOutClusters, outClusterList⟩
    else ⟨status, 0, 0, 0, 0, 0, 0, none, 0, none⟩

/-- What is handed to `azapZdpActiveEPRspCb`. -/
structure ActiveEPRsp where
  status : UInt8
  nwkAddr : UInt16
  activeEpCount : UInt8
  activeEpList : Option (List UInt8)
  deriving DecidableEq

def azapProcessZdoActiveEPRspCb (data : List UInt8) : Option ActiveEPRsp :=
  processCallBack 0x04 0x51 data <|
    let (status, data) := parseUint8AndShift data
    if status = statusCodeSuccess then
      let (nwkAddr, data) := parseUint16AndShift data
      let (activeEpCount, data) := parseUint8AndShift data
      let (activeEpList, _) := parseUint8ArrayAndShift data activeEpCount
      ⟨status, nwkAddr, activeEpCount, activeEpList⟩
    else ⟨status, 0, 0, none⟩

/-! ## The tables of a device -/

/-- `zdoRtgEntry_t` -/
structure ZdoRtgEntry where
  dstAddress : UInt16
  status : UInt8
  nextHopAddress : UInt16

/-- What is handed to the callbacks of the tables. -/
structure TableRsp (ε : Type) where
  status : UInt8
  tableEntries : UInt8
  startIndex : UInt8
  tableListCount : UInt8
  tableList : Option (List ε)

/-- One turn of the loop of `azapProcessZdoMgmtRtgRspCb`. -/
def parseRtgEntry (data : List UInt8) : ZdoRtgEntry × List UInt8 :=
  let (dstAddress, data) := parseUint16AndShift data
  let (status, data) := parseUint8AndShift data
  let (nextHopAddress, data) := parseUint16AndShift data
  (⟨dstAddress, status, nextHopAddress⟩, data)

/-- What both handlers of tables do, with the loop body. -/
def processTable {ε : Type} (parse : List UInt8 → ε × List UInt8) (data : List UInt8) : TableRsp ε :=
  let (status, data) := parseUint8AndShift data
  if status = statusCodeSuccess then
    let (tableEntries, data) := parseUint8AndShift data
    let (startIndex, data) := parseUint8AndShift data
    let (tableListCount, data) := parseUint8AndShift data
    let (tableList, _) := readMany parse tableListCount.toNat data
    ⟨status, tableEntries, startIndex, tableListCount, some tableList⟩
  else ⟨status, 0, 0, 0, none⟩

def azapProcessZdoMgmtRtgRspCb (data : List UInt8) : Option (TableRsp ZdoRtgEntry) :=
  processCallBack 0x04 0x4F data (processTable parseRtgEntry data)

def zdoRtgAddrMode16bit : UInt8 := 0x01

/-- `zbAddress_t`: the members of the union that the handler writes. -/
structure ZbAddress where
  addrMode : UInt8
  shortAddr : Option UInt16
  extAddr : Option (List UInt8)

/-- `zdoBindEntry_t`: none where the handler leaves the allocated memory as it is. -/
structure ZdoBindEntry where
  srcAddr : Option (List UInt8)
  srcEndPoint : UInt8
  clusterId : UInt16
  dstAddr : ZbAddress
  dstEndPoint : Option UInt8

/-- One turn of the loop of `azapProcessZdoMgmtBindRspCb`. -/
def parseBindEntry (data : List UInt8) : ZdoBindEntry × List UInt8 :=
  let (srcAddr, data) := parseExtAddrAndShift data
  let (srcEndPoint, data) := parseUint8AndShift data
  let (clusterId, data) := parseUint16AndShift data
  let (addrMode, data) := parseUint8AndShift data
  if addrMode = zdoRtgAddrMode16bit then
    let (shortAddr, data) := parseUint16AndShift data
    (⟨srcAddr, srcEndPoint, clusterId, ⟨addrMode, some shortAddr, none⟩, none⟩, data)
  else
    let (extAddr, data) := parseExtAddrAndShift data
    let (dstEndPoint, data) := parseUint8AndShift data
    (⟨srcAddr, srcEndPoint, clusterId, ⟨addrMode, none, extAddr⟩, some dstEndPoint⟩, data)

def azapProcessZdoMgmtBindRspCb (data : List UInt8) : Option (TableRsp ZdoBindEntry) :=
  processCallBack 0x04 0x4F data (processTable parseBindEntry data)

/-! ## The entries of a payload -/

/-- A byte of a list. -/
def uint8Entry : List UInt8 → Option (UInt8 × List UInt8)
  | b :: data => some (b, data)
  | [] => none

/-- A short address or a cluster of a list. -/
def uint16Entry : List UInt8 → Option (UInt16 × List UInt8)
  | low :: high :: data => some (uint16 low high, data)
  | _ => none

/-- An entry of a routing table. -/
def rtgEntry : List UInt8 → Option (ZdoRtgEntry × List UInt8)
  | d0 :: d1 :: status :: n0 :: n1 :: data => some (⟨uint16 d0 d1, status, uint16 n0 n1⟩, data)
  | _ => none

/-- An entry of a binding table: 14 bytes with a short destination, else 21. -/
def bindEntry (bytes : List UInt8) : Option (ZdoBindEntry × List UInt8) :=
  match bytes.drop 8 with
  | endPoint :: c0 :: c1 :: mode :: dst =>
    if mode = zdoRtgAddrMode16bit then
      match dst with
      | d0 :: d1 :: data =>
        some (⟨some (bytes.take 8), endPoint, uint16 c0 c1, ⟨mode, some (uint16 d0 d1), none⟩, none⟩,
          data)
      | _ => none
    else
      match dst.drop 8 with
      | dstEndPoint :: data =>
        some (⟨some (bytes.take 8), endPoint, uint16 c0 c1, ⟨mode, none, some (dst.take 8)⟩,
          some dstEndPoint⟩, data)
      | [] => none
  | _ => none

/-- **A list matches its count**: it has as many elements as the count says, and they are the
entries that the payload has from a place on. -/
def ListMatches {α : Type} (entry : List UInt8 → Option (α × List UInt8)) (bytes : List UInt8)
    (count : UInt8) (list : Option (List α)) : Prop :=
  (list.getD []).length = count.toNat ∧ takeEntries entry count.toNat bytes = some (list.getD [])

end Ong.Azap.Zdo
