import Mathlib.Data.List.Basic

/-!
# The start-up of the ZNP

A state machine that resets the coordinator, writes its parameters, registers the end points and the
ZDO call backs, and starts it, twice over, and then asks for the PAN information.
-/

namespace Ong.Azap

/-- `AZAP_ZNP_START_STATE`, of the states that are used -/
inductive ZnpStartState
  | null | waitInitialResetResp | waitWriteParamResp | waitWriteResetResp | waitReadParamResp
  | waitRegisterEndpointsResp | waitRegisterZdoCallbacksResp | waitStartupFromAppResp | starting
  | waitPanInfos | waitWritePanId
  deriving DecidableEq

def mtSysResetInd : UInt16 := 0x8041

def mtSysNvReadSrsp : UInt16 := 0x0861

def mtSysNvWriteSrsp : UInt16 := 0x0961

def mtAfRegisterSrsp : UInt16 := 0x0064

def mtZdoMsgCbRegisterSrsp : UInt16 := 0x3E65

def mtZdoStartupFromAppSrsp : UInt16 := 0x4065

def mtZdoStateChgIndAreq : UInt16 := 0xC045

def mtSapiGetDeviceInfoSrsp : UInt16 := 0x0666

def statusCodeSuccess : UInt8 := 0x00

/-- The status of a registration that exists already. -/
def statusDuplicateEntry : UInt8 := 0xB8

def zdoDevZbCoord : UInt8 := 0x09

def devInfoShortAddr : UInt8 := 0x02

def devInfoIeeeAddr : UInt8 := 0x01

def devInfoPanId : UInt8 := 0x06

def devInfoExtPanId : UInt8 := 0x07

/-- The device information items that are asked for. -/
def deviceInfoItems : List UInt8 :=
  [devInfoShortAddr, devInfoIeeeAddr, devInfoPanId, devInfoExtPanId]

/-- `c_zdoMsgCbRegisterListCoord` has thirteen call backs. -/
def nbZdoMsgCbRegister : UInt8 := 13

/-- What the start-up reads of its port context: no two end points have one identifier. -/
structure StartConfig where
  resetHanAtReboot : Bool
  endPointList : List UInt8
  nodup : endPointList.Nodup

/-- The start-up option that is written, and expected when it is read back. -/
def StartConfig.startUpOpt (cfg : StartConfig) : UInt8 :=
  if cfg.resetHanAtReboot then 0x01 ||| 0x02 else 0x04

/-- A message, with the state and the cycle that it was received in. -/
structure ReceivedMsg where
  state : ZnpStartState
  nbCycles : UInt8
  cmd : UInt16
  data : List UInt8

/-- `znpStartInstance_t`, with the PAN information of its port context, the messages received since
the last start, and the results reported. -/
structure ZnpStartInstance where
  state : ZnpStartState := .null
  elapsedSecondsCurrentState : UInt8 := 0
  writeParamRespExpected : UInt8 := 0
  afRegisterEpRespExpected : UInt8 := 0
  zdoCbRegisterRespExpected : UInt8 := 0
  deviceInfoRespExpected : UInt8 := 0
  nbCycles : UInt8 := 0
  shortAddr : UInt16 := 0
  deviceIeee : List UInt8 := List.replicate 8 0
  panId : UInt16 := 0
  panIdExt : List UInt8 := List.replicate 8 0
  received : List ReceivedMsg := []
  completions : List Bool := []

/-- A byte of a payload, whose buffer is cleared before it is filled. -/
def byteAt (data : List UInt8) (i : Nat) : UInt8 := data.getD i 0

def buildUint16 (loByte hiByte : UInt8) : UInt16 := loByte.toUInt16 + (hiByte.toUInt16 <<< 8)

namespace ZnpStartInstance

variable (cfg : StartConfig) (s : ZnpStartInstance)

/-- `znpStartInstance_t_setState` -/
def setState (state : ZnpStartState) : ZnpStartInstance :=
  { s with state, elapsedSecondsCurrentState := 0 }

/-- `znpStartInstance_t_start` -/
def start : ZnpStartInstance :=
  { s with nbCycles := 0, received := [] }.setState .waitInitialResetResp

/-- `doStartZnpCompletion`, which frees the instance -/
def doStartZnpCompletion (success : Bool) : ZnpStartInstance :=
  { s with completions := s.completions ++ [success] }

/-- `znpStartInstance_t_abandon` -/
def abandon : ZnpStartInstance := s.doStartZnpCompletion false

/-- `znpStartInstance_t_watchdog` -/
def watchdog : ZnpStartInstance :=
  let s := { s with elapsedSecondsCurrentState := s.elapsedSecondsCurrentState + 1 }
  if s.elapsedSecondsCurrentState ≥ 100 then s.start else s

/-- `writeParamInNvRam`: the PAN identifier is only written when the network is reset. -/
def writeParamInNvRam : ZnpStartInstance :=
  { s with writeParamRespExpected := if cfg.resetHanAtReboot then 4 else 3 }

/-- `registerEndPoints`; `room` says which requests find room in the transmit buffer. -/
def registerEndPoints (room : UInt8 → Bool) : Bool × ZnpStartInstance :=
  (cfg.endPointList ≠ [] && cfg.endPointList.all room,
    { s with afRegisterEpRespExpected := cfg.endPointList.foldl (fun n _ => n + 1) 0 })

/-- The end points are registered, or the start-up is abandoned. -/
def toRegisterEndpoints (room : UInt8 → Bool) : ZnpStartInstance :=
  let (res, s) := registerEndPoints cfg (s.setState .waitRegisterEndpointsResp) room
  if res then s else s.abandon

variable (cmd : UInt16)

def processWaitInitialResetResp : ZnpStartInstance :=
  if cmd = mtSysResetInd then (s.setState .waitWriteParamResp).writeParamInNvRam cfg else s

variable (data : List UInt8)

def processWaitWriteParamResp : ZnpStartInstance :=
  if cmd = mtSysResetInd then
    -- an extra reset: the parameters are written again
    s.processWaitInitialResetResp cfg cmd
  else if cmd = mtSysNvWriteSrsp then
    if byteAt data 0 ≠ statusCodeSuccess then s.abandon
    else
      let s := { s with writeParamRespExpected := s.writeParamRespExpected - 1 }
      if s.writeParamRespExpected = 0 then
        if s.nbCycles = 0 then s.setState .waitWriteResetResp else s.setState .waitReadParamResp
      else s
  else s

def processWaitReadParamResp (room : UInt8 → Bool) :
    ZnpStartInstance :=
  if cmd = mtSysNvReadSrsp then
    if data.length = 3 ∧ byteAt data 0 = statusCodeSuccess ∧ byteAt data 2 = cfg.startUpOpt then
      s.toRegisterEndpoints cfg room
    else s.abandon
  else s

def processWaitWriteResetResp (room : UInt8 → Bool) : ZnpStartInstance :=
  if cmd = mtSysResetInd then s.toRegisterEndpoints cfg room else s

def processWaitRegisterEndpointsResp : ZnpStartInstance :=
  if cmd = mtAfRegisterSrsp then
    if byteAt data 0 ≠ statusCodeSuccess ∧ byteAt data 0 ≠ statusDuplicateEntry then s.abandon
    else
      let s := { s with afRegisterEpRespExpected := s.afRegisterEpRespExpected - 1 }
      if s.afRegisterEpRespExpected = 0 then
        { s.setState .waitRegisterZdoCallbacksResp with
          zdoCbRegisterRespExpected := nbZdoMsgCbRegister }
      else s
  else s

def processWaitRegisterZdoCbResp : ZnpStartInstance :=
  if cmd = mtZdoMsgCbRegisterSrsp then
    if byteAt data 0 ≠ statusCodeSuccess ∧ byteAt data 0 ≠ statusDuplicateEntry then s.abandon
    else
      let s := { s with zdoCbRegisterRespExpected := s.zdoCbRegisterRespExpected - 1 }
      if s.zdoCbRegisterRespExpected = 0 then s.setState .waitStartupFromAppResp else s
  else s

def processWaitStartupFromAppResp : ZnpStartInstance :=
  if cmd = mtZdoStartupFromAppSrsp then
    -- 2 is "leave and not started"
    if byteAt data 0 ≠ 2 then
      if s.nbCycles = 0 then
        ({ s with nbCycles := s.nbCycles + 1 }.setState .waitWriteParamResp).writeParamInNvRam cfg
      else s.setState .starting
    else s.abandon
  else s

def processZnpStartingIndication : ZnpStartInstance :=
  if cmd = mtZdoStateChgIndAreq ∧ byteAt data 0 = zdoDevZbCoord then
    { s.setState .waitPanInfos with deviceInfoRespExpected := 4 }
  else s

/-- A device information item. -/
def deviceInfo : ZnpStartInstance :=
  let item := byteAt data 0
  let s' := { s with deviceInfoRespExpected := s.deviceInfoRespExpected - 1 }
  let address := (List.range 8).map fun i => byteAt data (i + 1)
  if item = devInfoShortAddr then
    { s' with shortAddr := buildUint16 (byteAt data 1) (byteAt data 2) }
  else if item = devInfoIeeeAddr then { s' with deviceIeee := address }
  else if item = devInfoPanId then { s' with panId := buildUint16 (byteAt data 1) (byteAt data 2) }
  else if item = devInfoExtPanId then { s' with panIdExt := address }
  else s

def processWaitPanInfos : ZnpStartInstance :=
  if cmd = mtSapiGetDeviceInfoSrsp then
    let s := s.deviceInfo data
    if s.deviceInfoRespExpected = 0 then s.setState .waitWritePanId else s
  else s

/-- The status of the response is not read. -/
def processWaitWritePanId : ZnpStartInstance :=
  if cmd = mtSysNvWriteSrsp then s.doStartZnpCompletion true else s

/-- `znpStartInstance_t_processZnpMsg` -/
def processZnpMsg (cmd0 cmd1 : UInt8) (data : List UInt8) (room : UInt8 → Bool) :
    ZnpStartInstance :=
  let cmd := buildUint16 cmd0 cmd1
  let msg : ReceivedMsg := ⟨s.state, s.nbCycles, cmd, data⟩
  let s := { s with received := s.received ++ [msg] }
  match s.state with
  | .waitInitialResetResp => s.processWaitInitialResetResp cfg cmd
  | .waitWriteParamResp => s.processWaitWriteParamResp cfg cmd data
  | .waitReadParamResp => s.processWaitReadParamResp cfg cmd data room
  | .waitWriteResetResp => s.processWaitWriteResetResp cfg cmd room
  | .waitRegisterEndpointsResp => s.processWaitRegisterEndpointsResp cmd data
  | .waitRegisterZdoCallbacksResp => s.processWaitRegisterZdoCbResp cmd data
  | .waitStartupFromAppResp => s.processWaitStartupFromAppResp cfg cmd data
  | .starting => s.processZnpStartingIndication cmd data
  | .waitPanInfos => s.processWaitPanInfos cmd data
  | .waitWritePanId => s.processWaitWritePanId cmd
  | .null => s

end ZnpStartInstance

/-- What happens to a start instance. -/
inductive StartEvent
  | znpMsg (cmd0 cmd1 : UInt8) (data : List UInt8) (room : UInt8 → Bool)
  | watchdog

/-- The transitions of a start instance, until its completion frees it. -/
def ZnpStartInstance.step (cfg : StartConfig) (s : ZnpStartInstance) :
    StartEvent → Option ZnpStartInstance
  | .znpMsg cmd0 cmd1 data room =>
    -- the length of a message is one byte
    if s.completions = [] ∧ data.length < 256 then some (s.processZnpMsg cfg cmd0 cmd1 data room)
    else none
  | .watchdog => if s.completions = [] then some s.watchdog else none

/-! ## What the messages stand for -/

/-- The progress of a start-up, in the cycle 0 or 1. -/
inductive Milestone
  /-- The response of the registration of an end point: it is done, or was done already. -/
  | epRegistered (cycle : UInt8)
  /-- The response of the registration of a ZDO call back: it is done, or was done already. -/
  | zdoCbRegistered (cycle : UInt8)
  | started (cycle : UInt8)
  /-- The start-up option that was read back is the expected one. -/
  | optionReadBack
  | coordinator
  | deviceInfo (item : UInt8)
  /-- The PAN identifier is written, with the status of the response. -/
  | panIdWritten (status : UInt8)
  deriving DecidableEq

/-- The registration is done, or was done already. -/
def isRegistered (status : UInt8) : Bool :=
  status = statusCodeSuccess || status = statusDuplicateEntry

/-- A message that was awaited stands for a milestone. -/
def ReceivedMsg.milestone (cfg : StartConfig) (r : ReceivedMsg) : Option Milestone :=
  let status := byteAt r.data 0
  match r.state with
  | .waitRegisterEndpointsResp =>
    if r.cmd = mtAfRegisterSrsp ∧ isRegistered status then some (.epRegistered r.nbCycles) else none
  | .waitRegisterZdoCallbacksResp =>
    if r.cmd = mtZdoMsgCbRegisterSrsp ∧ isRegistered status then some (.zdoCbRegistered r.nbCycles) else none
  | .waitStartupFromAppResp =>
    if r.cmd = mtZdoStartupFromAppSrsp ∧ status ≠ 2 then some (.started r.nbCycles) else none
  | .waitReadParamResp =>
    if r.cmd = mtSysNvReadSrsp ∧ r.data.length = 3 ∧ status = statusCodeSuccess ∧
        byteAt r.data 2 = cfg.startUpOpt then some .optionReadBack else none
  | .starting =>
    if r.cmd = mtZdoStateChgIndAreq ∧ status = zdoDevZbCoord then some .coordinator else none
  | .waitPanInfos =>
    if r.cmd = mtSapiGetDeviceInfoSrsp ∧ status ∈ deviceInfoItems then some (.deviceInfo status)
    else none
  | .waitWritePanId => if r.cmd = mtSysNvWriteSrsp then some (.panIdWritten status) else none
  | _ => none

/-- The milestones since the last start. -/
def ZnpStartInstance.milestones (cfg : StartConfig) (s : ZnpStartInstance) : List Milestone :=
  s.received.filterMap (·.milestone cfg)

end Ong.Azap
