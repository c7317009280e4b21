import Ong.Lib.BigEndian

/-!
# The messages of the Watteco sensors

A message has a header with its end point, its command and its cluster, then what the command asks
for: an attribute, a status, a direction, and a value or a reporting configuration whose layout
depends on the cluster and the attribute.  The encoder and the decoder are two separate programs
over the same tables.
-/

namespace Ong.Watteco

open BigEndian

def wZclSize : Nat := 200

def wZclTicSize : Nat := 170

def wZclEpnMax : Nat := 8

def wZclAttrMax : Nat := 15

def wCmdReadAttrRqst : Nat := 0x00
def wCmdReadAttrResp : Nat := 0x01
def wCmdWritAttrRqst : Nat := 0x05
def wCmdRepoConfRqst : Nat := 0x06
def wCmdRepoConfResp : Nat := 0x07
def wCmdReadConfRqst : Nat := 0x08
def wCmdReadConfResp : Nat := 0x09
def wCmdRepoAttrEvnt : Nat := 0x0A
def wCmdCommandRqst : Nat := 0x50

/-- `t_zcl_command`: where a message of the command has its fields; an offset of zero stands for a
field it does not have. -/
structure ZclCommand where
  cm_id : Nat
  cm_response : Bool
  cm_id_offset : Nat
  cm_val_offset : Nat
  cm_stat_offset : Nat
  cm_direction_offset : Nat
  deriving DecidableEq

def tbCommand : List ZclCommand :=
  [⟨wCmdReadAttrRqst, false, 4, 0, 0, 0⟩,
    ⟨wCmdReadAttrResp, true, 4, 8, 6, 0⟩,
    ⟨wCmdRepoConfRqst, false, 5, 8, 0, 4⟩,
    ⟨wCmdRepoConfResp, true, 6, 0, 4, 5⟩,
    ⟨wCmdReadConfRqst, false, 5, 0, 0, 4⟩,
    ⟨wCmdReadConfResp, true, 6, 9, 4, 5⟩,
    ⟨wCmdRepoAttrEvnt, true, 4, 7, 0, 0⟩,
    ⟨wCmdWritAttrRqst, false, 4, 7, 0, 0⟩,
    ⟨wCmdCommandRqst, false, 0, 4, 0, 0⟩]

def awZclCommand (cmd : Nat) : Option ZclCommand := tbCommand.find? fun c => c.cm_id = cmd

def wCluOnoff : Nat := 0x0006
def wCluSimplemeter : Nat := 0x0052
def wCluTemperature : Nat := 0x0402
def wCluHumidity : Nat := 0x0405
def wCluOccupancy : Nat := 0x0406
def wCluAnaloginput : Nat := 0x000c
def wCluBinaryinput : Nat := 0x000f
def wCluIlluminance : Nat := 0x0400
def wCluConfiguration : Nat := 0x0050
def wCluTicice : Nat := 0x0053
def wCluTiccbe : Nat := 0x0054
def wCluTiccje : Nat := 0x0055
def wAttOnoffOnoff : Nat := 0x0000
def wAttSimplemeterCurValue : Nat := 0x0000
def wAttTemperatureCurValue : Nat := 0x0000
def wAttTemperatureMinValue : Nat := 0x0001
def wAttTemperatureMaxValue : Nat := 0x0002
def wAttHumidityCurValue : Nat := 0x0000
def wAttHumidityMinValue : Nat := 0x0001
def wAttHumidityMaxValue : Nat := 0x0002
def wAttOccupancyOccupancy : Nat := 0x0000
def wAttOccupancyOccupancyType : Nat := 0x0001
def wAttOccupancyOccupancyPiro : Nat := 0x0010
def wAttOccupancyOccupancyPiru : Nat := 0x0011
def wAttAnaloginputCurValue : Nat := 0x0055
def wAttAnaloginputAppType : Nat := 0x0100
def wAttBinaryinputPolarity : Nat := 0x0054
def wAttBinaryinputCurValue : Nat := 0x0055
def wAttBinaryinputAppType : Nat := 0x0100
def wAttBinaryinputEdgeSelect : Nat := 0x0400
def wAttBinaryinputDebounce : Nat := 0x0401
def wAttBinaryinputCounter : Nat := 0x0402
def wAttIlluminanceCurValue : Nat := 0x0000
def wAttIlluminanceMinValue : Nat := 0x0001
def wAttIlluminanceMaxValue : Nat := 0x0002
def wAttConfigurationWipaddr : Nat := 0x0000
def wAttConfigurationPanid : Nat := 0x0001
def wAttConfigurationDesc : Nat := 0x0002
def wAttConfigurationDescepn : Nat := 0x0004
def wAttConfigurationPower : Nat := 0x0006
def wAttTiciceData : Nat := 0x0000
def wAttTicicePer0 : Nat := 0x0001
def wAttTicicePer1 : Nat := 0x0002
def wAttTiciceType : Nat := 0x0010
def wAttTiccbeData : Nat := 0x0000
def wAttTiccbeType : Nat := 0x0010
def wAttTiccjeData : Nat := 0x0000
def wAttTiccjeType : Nat := 0x0010

def wClat (cl atid : Nat) : Nat := cl <<< 16 + atid

/-- `t_zcl_attribut`: the size of the value is positive for a number of so many bytes, negative for
at most so many bytes behind their count, and zero for a layout of its own. -/
structure ZclAttribut where
  at_cl_id : Nat
  at_id : Nat
  at_type : Nat
  at_ssval : Int

/-- The cluster and the attribute in one number. -/
def ZclAttribut.clat (a : ZclAttribut) : Nat := wClat a.at_cl_id a.at_id

def tbAttribut : List ZclAttribut :=
  [⟨wCluOnoff, wAttOnoffOnoff, 0x10, 1⟩,
    ⟨wCluSimplemeter, wAttSimplemeterCurValue, 0x41, 0⟩,
    ⟨wCluTemperature, wAttTemperatureCurValue, 0x29, 2⟩,
    ⟨wCluTemperature, wAttTemperatureMinValue, 0x29, 2⟩,
    ⟨wCluTemperature, wAttTemperatureMaxValue, 0x29, 2⟩,
    ⟨wCluHumidity, wAttHumidityCurValue, 0x21, 2⟩,
    ⟨wCluHumidity, wAttHumidityMinValue, 0x21, 2⟩,
    ⟨wCluHumidity, wAttHumidityMaxValue, 0x21, 2⟩,
    ⟨wCluOccupancy, wAttOccupancyOccupancy, 0x18, 1⟩,
    ⟨wCluOccupancy, wAttOccupancyOccupancyType, 0x30, 1⟩,
    ⟨wCluOccupancy, wAttOccupancyOccupancyPiro, 0x20, 1⟩,
    ⟨wCluOccupancy, wAttOccupancyOccupancyPiru, 0x20, 1⟩,
    ⟨wCluAnaloginput, wAttAnaloginputCurValue, 0x39, 4⟩,
    ⟨wCluAnaloginput, wAttAnaloginputAppType, 0x23, 4⟩,
    ⟨wCluBinaryinput, wAttBinaryinputPolarity, 0x10, 1⟩,
    ⟨wCluBinaryinput, wAttBinaryinputCurValue, 0x10, 1⟩,
    ⟨wCluBinaryinput, wAttBinaryinputAppType, 0x23, 4⟩,
    ⟨wCluBinaryinput, wAttBinaryinputEdgeSelect, 0x18, 1⟩,
    ⟨wCluBinaryinput, wAttBinaryinputDebounce, 0x21, 2⟩,
    ⟨wCluBinaryinput, wAttBinaryinputCounter, 0x23, 4⟩,
    ⟨wCluIlluminance, wAttIlluminanceCurValue, 0x21, 2⟩,
    ⟨wCluIlluminance, wAttIlluminanceMinValue, 0x21, 2⟩,
    ⟨wCluIlluminance, wAttIlluminanceMaxValue, 0x21, 2⟩,
    ⟨wCluConfiguration, wAttConfigurationWipaddr, 0x41, -16⟩,
    ⟨wCluConfiguration, wAttConfigurationPanid, 0x21, 2⟩,
    ⟨wCluConfiguration, wAttConfigurationDesc, 0x4c, 0⟩,
    ⟨wCluConfiguration, wAttConfigurationDescepn, 0x4c, 0⟩,
    ⟨wCluConfiguration, wAttConfigurationPower, 0x41, 0⟩,
    ⟨wCluTicice, wAttTiciceData, 0x41, 0⟩,
    ⟨wCluTicice, wAttTicicePer0, 0x41, 0⟩,
    ⟨wCluTicice, wAttTicicePer1, 0x41, 0⟩,
    ⟨wCluTicice, wAttTiciceType, 0x20, 1⟩,
    ⟨wCluTiccbe, wAttTiccbeData, 0x41, 0⟩,
    ⟨wCluTiccbe, wAttTiccbeType, 0x20, 1⟩,
    ⟨wCluTiccje, wAttTiccjeData, 0x41, 0⟩,
    ⟨wCluTiccje, wAttTiccjeType, 0x20, 1⟩]

def tbCluster : List Nat :=
  [wCluOnoff, wCluSimplemeter, wCluTemperature, wCluHumidity, wCluOccupancy, wCluAnaloginput,
    wCluBinaryinput, wCluIlluminance, wCluConfiguration, wCluTicice, wCluTiccbe, wCluTiccje]

/-- The attributes `AwZclInitProto` gives to a cluster. -/
def clusterAttributs (clid : Nat) : List ZclAttribut :=
  (tbAttribut.filter fun a => a.at_cl_id = clid).take wZclAttrMax

def awZclAttribut (clid atid : Nat) : Option ZclAttribut :=
  if clid ∈ tbCluster then (clusterAttributs clid).find? fun a => a.at_id = atid else none

/-- `t_zcl_metering_value` -/
structure MeteringValue where
  m_metersz : Nat
  m_sumWh : Nat
  m_sumVarh : Nat
  m_count : Nat
  m_curWh : Nat
  m_curVarh : Nat
  deriving DecidableEq

/-- `t_zcl_simple_config` -/
structure SimpleConfig where
  m_min_time : Nat
  m_max_time : Nat
  m_min_change : Nat
  deriving DecidableEq

/-- `t_zcl_metering_config` -/
structure MeteringConfig where
  m_min_time : Nat
  m_max_time : Nat
  m_metersz : Nat
  m_sumWh : Nat
  m_sumVarh : Nat
  m_count : Nat
  m_curWh : Nat
  m_curVarh : Nat
  deriving DecidableEq

/-- `t_zcl_tic_config`; its size is the length of the data. -/
structure TicConfig where
  m_min_time : Nat
  m_max_time : Nat
  m_data : List UInt8
  deriving DecidableEq

/-- `t_zcl_power_config` -/
structure PowerConfig where
  m_min_time : Nat
  m_max_time : Nat
  m_mode : Nat
  m_source : Nat
  m_level : List Nat
  deriving DecidableEq

/-- `t_zcl_power_value` -/
structure PowerValue where
  m_sz : Nat
  m_mode : Nat
  m_source : Nat
  m_count : Nat
  m_level : List Nat

/-- `t_zcl_simple_desc`: clusters with their end points, in and out. -/
structure SimpleDesc where
  m_clin : List (Nat × Nat)
  m_clout : List (Nat × Nat)
  m_nbep : Nat

/-- `t_zcl_msg` -/
structure ZclMsg where
  m_epn : Nat
  m_cmd : Nat
  m_status : Nat
  m_direction : Nat
  m_cluster_id : Nat
  m_attr_id : Nat
  m_size : Nat
  m_cmd_value : Nat
  m_byteN_value : List UInt8
  m_uint4_value : Nat
  m_uint2_value : Nat
  m_uint1_value : Nat
  m_metering_value : MeteringValue
  m_simple_config : SimpleConfig
  m_metering_config : MeteringConfig
  m_tic_config : TicConfig
  m_power_config : PowerConfig
  m_simple_desc : SimpleDesc
  m_power_value : PowerValue
  m_tic_data : List UInt8

/-- A message after `memset`. -/
def ZclMsg.zero : ZclMsg :=
  ⟨0, 0, 0, 0, 0, 0, 0, 0, [], 0, 0, 0, ⟨0, 0, 0, 0, 0, 0⟩, ⟨0, 0, 0⟩, ⟨0, 0, 0, 0, 0, 0, 0, 0⟩,
    ⟨0, 0, []⟩, ⟨0, 0, 0, 0, []⟩, ⟨[], [], 0⟩, ⟨0, 0, 0, 0, []⟩, []⟩

def awZclEncodeSimpleConfig (cfg : SimpleConfig) (nbb : Nat) : List UInt8 :=
  put 2 cfg.m_min_time ++ (put 2 cfg.m_max_time ++
    match nbb with
    | 1 => put 1 cfg.m_min_change
    | 4 => put 4 cfg.m_min_change
    | _ => put 2 cfg.m_min_change)

/-- `AwZclEncodeMeteringConfig`, which has a meter size of its own for one of zero. -/
def awZclEncodeMeteringConfig (cfg : MeteringConfig) : List UInt8 :=
  put 2 cfg.m_min_time ++ (put 2 cfg.m_max_time ++
    (put 1 (if cfg.m_metersz = 0 then 0x0c else cfg.m_metersz) ++ (put 3 cfg.m_sumWh ++
      (put 3 cfg.m_sumVarh ++ (put 2 cfg.m_count ++ (put 2 cfg.m_curWh ++ put 2 cfg.m_curVarh))))))

def awZclEncodeTicConfig (cfg : TicConfig) : List UInt8 :=
  put 2 cfg.m_min_time ++ (put 2 cfg.m_max_time ++ (put 1 cfg.m_data.length ++ cfg.m_data))

/-- The number of sources that have a level. -/
def sourceCount (source : Nat) : Nat :=
  ([0x01, 0x02, 0x04, 0x08, 0x10].filter fun bit => source &&& bit = bit).length

def awZclEncodePowerConfig (cfg : PowerConfig) : List UInt8 :=
  let count := sourceCount cfg.m_source
  put 2 cfg.m_min_time ++ (put 2 cfg.m_max_time ++ (put 1 (2 + count * 2) ++ (put 1 cfg.m_mode ++
    (put 1 cfg.m_source ++ (List.range count).flatMap fun i => put 2 (cfg.m_level.getD i 0)))))

/-- The reporting configurations. -/
inductive ConfigKind
  | simple (nbb : Nat)
  | metering
  | tic
  | power
  deriving DecidableEq

/-- The attributes whose configuration has values of so many bytes. -/
def simpleClats₂ : List Nat :=
  [wClat wCluTemperature wAttTemperatureCurValue, wClat wCluHumidity wAttHumidityCurValue,
    wClat wCluIlluminance wAttIlluminanceCurValue, wClat wCluBinaryinput wAttBinaryinputDebounce]

def simpleClats₁ : List Nat :=
  [wClat wCluOnoff wAttOnoffOnoff, wClat wCluOccupancy wAttOccupancyOccupancy,
    wClat wCluBinaryinput wAttBinaryinputCurValue, wClat wCluBinaryinput wAttBinaryinputPolarity,
    wClat wCluBinaryinput wAttBinaryinputEdgeSelect]

def simpleClats₄ : List Nat :=
  [wClat wCluAnaloginput wAttAnaloginputCurValue, wClat wCluBinaryinput wAttBinaryinputCounter]

/-- The attributes with teleinformation data. -/
def ticClats : List Nat :=
  [wClat wCluTicice wAttTiciceData, wClat wCluTicice wAttTicicePer0, wClat wCluTicice wAttTicicePer1,
    wClat wCluTiccbe wAttTiccbeData, wClat wCluTiccje wAttTiccjeData]

/-- The switch of `AwZclEncodeRepoConfRqst`. -/
def encodeConfigKind (clat : Nat) : Option ConfigKind :=
  if clat ∈ simpleClats₂ then some (.simple 2)
  else if clat ∈ simpleClats₁ then some (.simple 1)
  else if clat ∈ simpleClats₄ then some (.simple 4)
  else if clat = wClat wCluSimplemeter wAttSimplemeterCurValue then some .metering
  else if clat ∈ ticClats then some .tic
  else if clat = wClat wCluConfiguration wAttConfigurationPower then some .power
  else none

variable (m : ZclMsg)

/-- `AwZclEncodeRepoConfRqst`.  The attribute is not looked at outside the cases, and all of them
have one. -/
def awZclEncodeRepoConfRqst : List UInt8 :=
  match awZclAttribut m.m_cluster_id m.m_attr_id with
  | none => []
  | some a =>
    match encodeConfigKind (wClat m.m_cluster_id m.m_attr_id) with
    | none => []
    | some (.simple nbb) => put 1 a.at_type ++ awZclEncodeSimpleConfig m.m_simple_config nbb
    | some .metering => put 1 a.at_type ++ awZclEncodeMeteringConfig m.m_metering_config
    | some .tic => put 1 a.at_type ++ awZclEncodeTicConfig m.m_tic_config
    | some .power => put 1 a.at_type ++ awZclEncodePowerConfig m.m_power_config

/-- The bytes of a metering value. -/
def encodeMeteringValue (rep : MeteringValue) : List UInt8 :=
  put 1 rep.m_metersz ++ (put 3 rep.m_sumWh ++ (put 3 rep.m_sumVarh ++ (put 2 rep.m_count ++
    (put 2 rep.m_curWh ++ put 2 rep.m_curVarh))))

def awZclEncodeReadAttrResp : List UInt8 :=
  match awZclAttribut m.m_cluster_id m.m_attr_id with
  | none => []
  | some a =>
    let clat := wClat m.m_cluster_id m.m_attr_id
    if 0 < a.at_ssval then
      put 1 a.at_type ++
        match a.at_ssval with
        | 1 => put 1 m.m_uint1_value
        | 2 => put 2 m.m_uint2_value
        | 4 => put 4 m.m_uint4_value
        | _ => []
    -- a byte string, of at most as many bytes as the negative size says
    else if a.at_ssval < 0 then
      let value := m.m_byteN_value.take (min (-a.at_ssval).toNat wZclSize)
      put 1 a.at_type ++ (put 1 value.length ++ value)
    else if clat = wClat wCluSimplemeter wAttSimplemeterCurValue then
      put 1 a.at_type ++ encodeMeteringValue m.m_metering_value
    else if clat ∈ ticClats then
      put 1 a.at_type ++ (put 1 m.m_tic_data.length ++ m.m_tic_data)
    else []

/-- What `AwZclEncode` puts behind the header. -/
def encodeBody : List UInt8 :=
  if m.m_cmd = wCmdReadAttrRqst then put 2 m.m_attr_id
  else if m.m_cmd = wCmdRepoConfRqst then
    put 1 m.m_direction ++ (put 2 m.m_attr_id ++ awZclEncodeRepoConfRqst m)
  else if m.m_cmd = wCmdWritAttrRqst then put 2 m.m_attr_id ++ awZclEncodeReadAttrResp m
  else if m.m_cmd = wCmdCommandRqst then put 1 m.m_cmd_value
  else if m.m_cmd = wCmdReadConfRqst then put 1 m.m_direction ++ put 2 m.m_attr_id
  else if m.m_cmd = wCmdReadAttrResp then
    put 2 m.m_attr_id ++ (put 1 m.m_status ++ awZclEncodeReadAttrResp m)
  else if m.m_cmd = wCmdRepoAttrEvnt then put 2 m.m_attr_id ++ awZclEncodeReadAttrResp m
  else if m.m_cmd = wCmdRepoConfResp then
    put 1 m.m_status ++ (put 1 m.m_direction ++ put 2 m.m_attr_id)
  else if m.m_cmd = wCmdReadConfResp then
    put 1 m.m_status ++ (put 1 m.m_direction ++ (put 2 m.m_attr_id ++ awZclEncodeRepoConfRqst m))
  else []

/-- `AwZclEncode`: the bytes, as many as the length it returns. -/
def awZclEncode : List UInt8 :=
  let epn := if wZclEpnMax ≤ m.m_epn then 0 else m.m_epn
  put 1 (0x11 ||| epn <<< 5) ++ (put 1 m.m_cmd ++ (put 2 m.m_cluster_id ++ encodeBody m))

variable (param : List UInt8)

def awZclDecodeSimpleConfig (nbbytes : Nat) : SimpleConfig where
  m_min_time := get 2 param
  m_max_time := get 2 (param.drop 2)
  m_min_change :=
    match nbbytes with
    | 1 => get 1 ((param.drop 2).drop 2)
    | 4 => get 4 ((param.drop 2).drop 2)
    | _ => get 2 ((param.drop 2).drop 2)

def awZclDecodeMeteringValue : MeteringValue where
  m_metersz := get 1 param
  m_sumWh := get 3 (param.drop 1)
  m_sumVarh := get 3 ((param.drop 1).drop 3)
  m_count := get 2 (((param.drop 1).drop 3).drop 3)
  m_curWh := get 2 ((((param.drop 1).drop 3).drop 3).drop 2)
  m_curVarh := get 2 (((((param.drop 1).drop 3).drop 3).drop 2).drop 2)

def awZclDecodeMeteringConfig : MeteringConfig :=
  let val := awZclDecodeMeteringValue ((param.drop 2).drop 2)
  ⟨get 2 param, get 2 (param.drop 2), val.m_metersz, val.m_sumWh, val.m_sumVarh, val.m_count,
    val.m_curWh, val.m_curVarh⟩

/-- The switch of `AwZclDecodeRepoConfRqst`, which knows fewer cases. -/
def decodeConfigKind (clat : Nat) : Option ConfigKind :=
  if clat ∈ simpleClats₂ then some (.simple 2)
  else if clat ∈ simpleClats₁ then some (.simple 1)
  else if clat ∈ simpleClats₄ then some (.simple 4)
  else if clat = wClat wCluSimplemeter wAttSimplemeterCurValue then some .metering
  else none

/-- `AwZclDecodeRepoConfRqst`: a case it does not know leaves the message as it is, and is no
error. -/
def awZclDecodeRepoConfRqst (a : ZclAttribut) (m : ZclMsg) (param : List UInt8) : ZclMsg :=
  match decodeConfigKind a.clat with
  | some (.simple nbb) => { m with m_simple_config := awZclDecodeSimpleConfig param nbb }
  | some .metering => { m with m_metering_config := awZclDecodeMeteringConfig param }
  | _ => m

/-- The loop of `AwZclDecodeSimpleDesc`, on the bytes from a place on and the number of them that
are left in the message. -/
def decodeClusters (epn : Nat) : Nat → List UInt8 → Nat → List (Nat × Nat) × List UInt8 × Nat
  | 0, param, left => ([], param, left)
  | nb + 1, param, left =>
    if left = 0 then ([], param, left)
    else
      let (cls, param', left') := decodeClusters epn nb (param.drop 2) (left - 2)
      ((get 2 param, epn) :: cls, param', left')

/-- `AwZclDecodeSimpleDesc`: the descriptor, and the bytes that follow. -/
def awZclDecodeSimpleDesc (epn : Nat) (desc : SimpleDesc) (param : List UInt8) (left : Nat) :
    SimpleDesc × List UInt8 × Nat :=
  let (clin, param, left) := decodeClusters epn (get 1 param) (param.drop 1) (left - 1)
  let desc := { desc with m_clin := desc.m_clin ++ clin }
  if left = 0 then (desc, param, left)
  else
    let (clout, param, left) := decodeClusters epn (get 1 param) (param.drop 1) (left - 1)
    ({ desc with m_clout := desc.m_clout ++ clout }, param, left)

/-- The loop over the end points of a descriptor. -/
def decodeEndPoints : Nat → SimpleDesc → List UInt8 → Nat → SimpleDesc
  | 0, desc, _, _ => desc
  | nb + 1, desc, param, left =>
    if left = 0 then desc
    else
      let (desc, param, left) := awZclDecodeSimpleDesc (get 1 param) desc (param.drop 1) (left - 1)
      decodeEndPoints nb desc param left

/-- The power value of `AwZclDecodeReadAttrResp`. -/
def decodePowerValue : PowerValue :=
  let sz := get 1 param
  let count := (sz + 254) % 256 / 2
  ⟨sz, get 1 (param.drop 1), get 1 (param.drop 2), count,
    (List.range count).map fun i => get 2 ((param.drop 3).drop (2 * i))⟩

def awZclDecodeReadAttrResp (a : ZclAttribut) (m : ZclMsg) (param : List UInt8) (left : Nat) :
    Except Int ZclMsg :=
  match a.at_ssval with
  | 1 => .ok { m with m_uint1_value := get 1 param }
  | 2 => .ok { m with m_uint2_value := get 2 param }
  | 4 => .ok { m with m_uint4_value := get 4 param }
  | _ =>
    if a.clat = wClat wCluSimplemeter wAttSimplemeterCurValue then
      .ok { m with m_metering_value := awZclDecodeMeteringValue param }
    else if a.clat ∈ ticClats then
      .ok { m with m_tic_data := (param.drop 1).take (get 1 param) }
    else if a.clat = wClat wCluConfiguration wAttConfigurationWipaddr then
      if -a.at_ssval < 0 ∨ (wZclSize : Int) < -a.at_ssval then .error (-2)
      else if get 1 param = 0 ∨ wZclSize < get 1 param then .error (-3)
      else .ok { m with m_byteN_value := (param.drop 1).take (get 1 param) }
    else if a.clat = wClat wCluConfiguration wAttConfigurationDesc then
      .ok { m with
        m_simple_desc := (awZclDecodeSimpleDesc 0 ⟨[], [], 0⟩ (param.drop 2) (left - 2)).1 }
    else if a.clat = wClat wCluConfiguration wAttConfigurationDescepn then
      let nb := get 1 (param.drop 2)
      .ok { m with m_simple_desc := decodeEndPoints nb ⟨[], [], nb⟩ (param.drop 3) (left - 3) }
    else if a.clat = wClat wCluConfiguration wAttConfigurationPower then
      .ok { m with m_power_value := decodePowerValue param }
    else .ok m

variable (cmd : ZclCommand)

/-- The search for the attribute in `AwZclDecode`; a command has none. -/
def searchAttribut (clid : Nat) (data : List UInt8) :
    Except Int (Option ZclAttribut) :=
  let found (offset : Nat) (code : Int) : Except Int (Option ZclAttribut) :=
    match awZclAttribut clid (get 2 (data.drop offset)) with
    | none => .error code
    | some a => .ok (some a)
  if cmd.cm_id ∈ [wCmdReadAttrRqst, wCmdReadAttrResp, wCmdRepoAttrEvnt] then found 4 (-4)
  else if cmd.cm_id = wCmdWritAttrRqst then found 4 (-44)
  else if cmd.cm_id ∈ [wCmdRepoConfRqst, wCmdRepoConfResp, wCmdReadConfRqst, wCmdReadConfResp] then
    found cmd.cm_id_offset (-5)
  else if cmd.cm_id = wCmdCommandRqst then .ok none
  else .error (-6)

/-- The switch at the end of `AwZclDecode`. -/
def decodeParam (a : ZclAttribut) (m : ZclMsg) (param : List UInt8) (left : Nat) :
    Except Int ZclMsg :=
  if cmd.cm_id ∈ [wCmdReadAttrRqst, wCmdReadConfRqst, wCmdRepoConfResp, wCmdCommandRqst] then
    .error (-8)
  else if cmd.cm_id ∈ [wCmdReadAttrResp, wCmdRepoAttrEvnt, wCmdWritAttrRqst] then
    awZclDecodeReadAttrResp a m param left
  else if cmd.cm_id ∈ [wCmdReadConfResp, wCmdRepoConfRqst] then
    .ok (awZclDecodeRepoConfRqst a m param)
  else .error (-9)

/-- `AwZclDecode` from the attribute on. -/
def decodeAttribut (a : ZclAttribut) (m : ZclMsg) (data : List UInt8) :
    Except Int ZclMsg :=
  let m := { m with
    m_attr_id := a.at_id
    m_status := if cmd.cm_response ∧ cmd.cm_stat_offset ≠ 0 then
      get 1 (data.drop cmd.cm_stat_offset) else 0
    m_direction := if cmd.cm_direction_offset ≠ 0 then
      get 1 (data.drop cmd.cm_direction_offset) else 0 }
  if cmd.cm_val_offset = 0 then .ok m
  else if m.m_size < cmd.cm_val_offset then .error (-7)
  else decodeParam cmd a m (data.drop cmd.cm_val_offset) (m.m_size - cmd.cm_val_offset)

/-- The buffer of a message with the bytes received, zero behind them. -/
def buffer (bin : List UInt8) : List UInt8 := bin ++ List.replicate (wZclSize - bin.length) 0

/-- `AwZclDecode`: an error code, or the message. -/
def awZclDecode (bin : List UInt8) : Except Int ZclMsg :=
  if bin.length = 0 ∨ wZclSize < bin.length then .error (-11)
  else
    let data := buffer bin
    let flag := get 1 data
    if flag &&& 0x1F ≠ 0x11 then .error (-111)
    else
      match awZclCommand (get 1 (data.drop 1)) with
      | none => .error (-2)
      | some cmd =>
        let clid := get 2 (data.drop 2)
        if clid ∉ tbCluster then .error (-3)
        else
          let m := { ZclMsg.zero with
            m_epn := if wZclEpnMax ≤ flag >>> 5 then 0 else flag >>> 5
            m_size := bin.length
            m_cmd := cmd.cm_id
            m_cluster_id := clid }
          match searchAttribut cmd clid data with
          | .error code => .error code
          | .ok none =>
            .ok { m with m_attr_id := 0xFFFF, m_cmd_value := get 1 (data.drop cmd.cm_val_offset) }
          | .ok (some a) => decodeAttribut cmd a m data

end Ong.Watteco
