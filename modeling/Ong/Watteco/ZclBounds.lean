import Ong.Lib.Access
import Ong.Lib.Printf
import Ong.Watteco.Zcl

/-!
# Bounds of the decoder of the sensors' messages

The decoder takes counts and lengths from the message and checks few of them.  Its accesses are
written down as a trace: the bytes it reads, the elements of the arrays of fixed size, the texts it
formats, and the rounds of its loops.  Behind the first access out of bounds a trace says nothing of
the program.  The buffer that a caller gives for the text has no size the decoder knows, and copies
of whole structures are left out.

## Main results

* `inside_decodeAccesses_iff`: the accesses are inside their bounds exactly for a message that fits
-/

namespace Ong.Watteco

open Access BigEndian List
open Printf (Item)

attribute [local simp] Item.width

/-- The arrays of fixed size: those of a message and of its values, and the buffers for text. -/
inductive ZclArray
  | m_byte
  | m_clin
  | m_epin
  | m_clout
  | m_epout
  | m_level
  | m_data
  | m_value
  | unknown
  | hex
  | formatted
  deriving DecidableEq

/-- The declared sizes. -/
def ZclArray.size : ZclArray → Nat
  | m_byte | m_value => wZclSize
  | m_clin | m_epin | m_clout | m_epout | m_level => 10
  | m_data => wZclTicSize
  | unknown => 128
  | hex => 3 * wZclSize
  | formatted => 1024

section Names

/-- `cm_name` -/
def commandNames : List (Nat × String) :=
  [(wCmdReadAttrRqst, "read-attribut"), (wCmdReadAttrResp, "read-attribut"),
    (wCmdRepoConfRqst, "configure-reporting"), (wCmdRepoConfResp, "configure-reporting"),
    (wCmdReadConfRqst, "read-configure-reporting"), (wCmdReadConfResp, "read-configure-reporting"),
    (wCmdRepoAttrEvnt, "report-attribut-event"), (wCmdWritAttrRqst, "write-attribut"),
    (wCmdCommandRqst, "command")]

/-- `cl_name` -/
def clusterNames : List (Nat × String) :=
  [(wCluOnoff, "on-off"), (wCluSimplemeter, "simple-metering"),
    (wCluTemperature, "temperature-measurement"), (wCluHumidity, "humidity-measurement"),
    (wCluOccupancy, "occupancy-sensing"), (wCluAnaloginput, "analog-input"),
    (wCluBinaryinput, "binary-input"), (wCluIlluminance, "illuminance-measurement"),
    (wCluConfiguration, "configuration"), (wCluTicice, "tic-ice-metering"),
    (wCluTiccbe, "tic-cbe-metering"), (wCluTiccje, "tic-cje-metering")]

/-- `at_name` -/
def attributNames : List (Nat × String) :=
  [(wClat wCluOnoff wAttOnoffOnoff, "on-off"),
    (wClat wCluSimplemeter wAttSimplemeterCurValue, "cur-value"),
    (wClat wCluTemperature wAttTemperatureCurValue, "cur-value"),
    (wClat wCluTemperature wAttTemperatureMinValue, "min-value"),
    (wClat wCluTemperature wAttTemperatureMaxValue, "max-value"),
    (wClat wCluHumidity wAttHumidityCurValue, "cur-value"),
    (wClat wCluHumidity wAttHumidityMinValue, "min-value"),
    (wClat wCluHumidity wAttHumidityMaxValue, "max-value"),
    (wClat wCluOccupancy wAttOccupancyOccupancy, "cur-value"),
    (wClat wCluOccupancy wAttOccupancyOccupancyType, "type"),
    (wClat wCluOccupancy wAttOccupancyOccupancyPiro, "piro"),
    (wClat wCluOccupancy wAttOccupancyOccupancyPiru, "piru"),
    (wClat wCluAnaloginput wAttAnaloginputCurValue, "cur-value"),
    (wClat wCluAnaloginput wAttAnaloginputAppType, "type"),
    (wClat wCluBinaryinput wAttBinaryinputPolarity, "polarity"),
    (wClat wCluBinaryinput wAttBinaryinputCurValue, "cur-value"),
    (wClat wCluBinaryinput wAttBinaryinputAppType, "type"),
    (wClat wCluBinaryinput wAttBinaryinputEdgeSelect, "edge-select"),
    (wClat wCluBinaryinput wAttBinaryinputDebounce, "debounce"),
    (wClat wCluBinaryinput wAttBinaryinputCounter, "counter"),
    (wClat wCluIlluminance wAttIlluminanceCurValue, "cur-value"),
    (wClat wCluIlluminance wAttIlluminanceMinValue, "min-value"),
    (wClat wCluIlluminance wAttIlluminanceMaxValue, "max-value"),
    (wClat wCluConfiguration wAttConfigurationWipaddr, "wip-addr"),
    (wClat wCluConfiguration wAttConfigurationPanid, "panid"),
    (wClat wCluConfiguration wAttConfigurationDesc, "simple-desc"),
    (wClat wCluConfiguration wAttConfigurationDescepn, "simple-descepn"),
    (wClat wCluConfiguration wAttConfigurationPower, "power"),
    (wClat wCluTicice wAttTiciceData, "data"),
    (wClat wCluTicice wAttTicicePer0, "per0"),
    (wClat wCluTicice wAttTicicePer1, "per1"),
    (wClat wCluTicice wAttTiciceType, "type"),
    (wClat wCluTiccbe wAttTiccbeData, "data"),
    (wClat wCluTiccbe wAttTiccbeType, "type"),
    (wClat wCluTiccje wAttTiccjeData, "data"),
    (wClat wCluTiccje wAttTiccjeType, "type")]

/-- The text of a name in one of the tables. -/
def nameOf (names : List (Nat × String)) (key : Nat) : List UInt8 :=
  (names.lookup key).elim [] Printf.ascii

/-- What stands for a cluster without a name. -/
def unknownCluster (clid : Nat) : List UInt8 :=
  Printf.print [.text "unknown(", .hexadecimal 4 clid, .text ")"]

/-- The text for a cluster. -/
def clusterText (clid : Nat) : List UInt8 :=
  (clusterNames.lookup clid).elim (unknownCluster clid) Printf.ascii

variable {names : List (Nat × String)} {key : Nat}

theorem length_nameOf_le (h : ∀ p ∈ names, p.2.toList.length ≤ 24) :
    (nameOf names key).length ≤ 24 := by
  unfold nameOf
  cases hname : names.lookup key with
  | none => decide
  | some name =>
    obtain ⟨before, after, hnames, -⟩ := lookup_eq_some_iff.mp hname
    have hmem : (key, name) ∈ names := by
      rw [hnames]
      exact mem_append_right _ mem_cons_self
    rw [Option.elim_some, Printf.length_ascii]
    exact h _ hmem

theorem length_commandName_le : (nameOf commandNames key).length ≤ 24 :=
  length_nameOf_le (by decide)

theorem length_clusterName_le : (nameOf clusterNames key).length ≤ 24 :=
  length_nameOf_le (by decide)

theorem length_attributName_le : (nameOf attributNames key).length ≤ 24 :=
  length_nameOf_le (by decide)

theorem length_unknownCluster_le : (unknownCluster key).length ≤ 17 := by
  have hlen := Printf.length_print_le [.text "unknown(", .hexadecimal 4 key, .text ")"]
  exact hlen

end Names

/-- `AW_SPRINTF`, which does nothing for a caller without a buffer. -/
def awSprintf (f : Bool) (items : List Item) : List (Access ZclArray) :=
  if f then [.use .formatted 0 ((Printf.print items).length + 1)] else []

/-- The number of a cluster in `tmp`, written for one with a name too. -/
def sprintfUnknown (clid : Nat) : Access ZclArray :=
  .use .unknown 0 ((unknownCluster clid).length + 1)

/-- `AwBinToStr`, for `lg` bytes of some source. -/
def awBinToStr (source : Nat → Access ZclArray) (lg remaining : Nat) : List (Access ZclArray) :=
  let rounds := (List.range lg).takeWhile fun i => 2 * i < ZclArray.hex.size
  (rounds.flatMap fun i => [.round i remaining, source i, .use .hex (2 * i) 2]) ++
    [.use .hex (2 * rounds.length) 1]

/-- The text it makes. -/
def binToStr (bytes : List UInt8) : List UInt8 := bytes.flatMap Printf.hexPair

/-- `AwZclDecodeSimpleConfig` -/
def simpleConfigAccesses (f : Bool) (data : List UInt8) (pos nbbytes : Nat) :
    List (Access ZclArray) :=
  let val := awZclDecodeSimpleConfig (data.drop pos) nbbytes
  [.read pos 2, .read (pos + 2) 2,
    match nbbytes with
    | 1 => .read (pos + 4) 1
    | 4 => .read (pos + 4) 4
    | _ => .read (pos + 4) 2] ++
  awSprintf f [.text "mint=", .decimal val.m_min_time, .text "&maxt=", .decimal val.m_max_time,
    .text "&minc=", .decimal val.m_min_change]

/-- The fields of a metering value or configuration. -/
def meteringAccesses (pos : Nat) : List (Access ZclArray) :=
  [.read pos 1, .read (pos + 1) 3, .read (pos + 4) 3, .read (pos + 7) 2, .read (pos + 9) 2,
    .read (pos + 11) 2]

/-- The text of them, in two parts. -/
def meteringTexts (f : Bool) (before : String) (val : MeteringValue) : List (Access ZclArray) :=
  awSprintf f [.text before, .text "size=", .decimal val.m_metersz, .text "&xsumwh=",
    .hexadecimal 6 val.m_sumWh, .text "&xsumvarh=", .hexadecimal 6 val.m_sumVarh] ++
  awSprintf f [.text "&count=", .decimal val.m_count, .text "&xcurwh=", .hexadecimal 4 val.m_curWh,
    .text "&xcurvarh=", .hexadecimal 4 val.m_curVarh]

/-- `AwZclDecodeMeteringValue` -/
def meteringValueAccesses (f : Bool) (data : List UInt8) (pos : Nat) : List (Access ZclArray) :=
  meteringAccesses pos ++ meteringTexts f "" (awZclDecodeMeteringValue (data.drop pos))

/-- `AwZclDecodeMeteringConfig` -/
def meteringConfigAccesses (f : Bool) (data : List UInt8) (pos : Nat) : List (Access ZclArray) :=
  [.read pos 2, .read (pos + 2) 2] ++ meteringAccesses (pos + 4) ++
  awSprintf f [.text "mint=", .decimal (get 2 (data.drop pos)), .text "&maxt=",
    .decimal (get 2 (data.drop (pos + 2)))] ++
  meteringTexts f "&" (awZclDecodeMeteringValue (data.drop (pos + 4)))

/-- `AwZclDecodeRepoConfRqst` -/
def repoConfRqstAccesses (f : Bool) (a : ZclAttribut) (data : List UInt8) (pos : Nat) :
    List (Access ZclArray) :=
  awSprintf f [.text "clat=", .hexadecimal 8 a.clat, .text "&"] ++
  match decodeConfigKind a.clat with
  | some (.simple nbb) => simpleConfigAccesses f data pos nbb
  | some .metering => meteringConfigAccesses f data pos
  | _ => []

/-- The loop of `AwZclDecodeSimpleDesc`, in its round `i` with so many clusters in the list. -/
def clustersAccesses (f done : Bool) (data : List UInt8) (sz remaining : Nat) :
    Nat → Nat → Nat → Nat → List (Access ZclArray)
  | 0, _, _, _ => []
  | nb + 1, i, stored, pos =>
    if sz ≤ pos then []
    else
      let supported := get 2 (data.drop pos)
      [.round i remaining, .read pos 2, .use (if done then .m_clout else .m_clin) stored 1,
        .use (if done then .m_epout else .m_epin) stored 1, sprintfUnknown supported] ++
      awSprintf f [.string (clusterText supported)] ++
      (if nb = 0 then [] else awSprintf f [.text ","]) ++
      clustersAccesses f done data sz remaining nb (i + 1) (stored + 1) (pos + 2)

/-- `AwZclDecodeSimpleDesc`, whose first count is read without a look at the end. -/
def simpleDescAccesses (f : Bool) (epn : Nat) (data : List UInt8) (sz : Nat) (desc : SimpleDesc)
    (pos : Nat) : List (Access ZclArray) :=
  let nb := get 1 (data.drop pos)
  let left := (decodeClusters epn nb (data.drop (pos + 1)) (sz - (pos + 1))).2.2
  .read pos 1 :: (if 0 < nb then awSprintf f [.text "clusterinput="] else []) ++
  clustersAccesses f false data sz (sz - (pos + 1)) nb 0 desc.m_clin.length (pos + 1) ++
  if left = 0 then []
  else
    let nb := get 1 (data.drop (sz - left))
    .read (sz - left) 1 :: (if 0 < nb then awSprintf f [.text "&clusteroutput="] else []) ++
    clustersAccesses f true data sz (left - 1) nb 0 desc.m_clout.length (sz - left + 1)

/-- The loop over the end points of a descriptor, which prints nothing yet. -/
def endPointsAccesses (data : List UInt8) (sz remaining : Nat) :
    Nat → Nat → SimpleDesc → Nat → List (Access ZclArray)
  | 0, _, _, _ => []
  | nb + 1, i, desc, pos =>
    if sz ≤ pos then []
    else
      let epn := get 1 (data.drop pos)
      let next := awZclDecodeSimpleDesc epn desc (data.drop (pos + 1)) (sz - (pos + 1))
      [.round i remaining, .read pos 1] ++ simpleDescAccesses false epn data sz desc (pos + 1) ++
      endPointsAccesses data sz remaining nb (i + 1) next.1 (sz - next.2.2)

/-- The loop that prints a list of clusters with their end points. -/
def printAccesses (remaining : Nat) (before : String) (cl ep : ZclArray)
    (clusters : List (Nat × Nat)) : List (Access ZclArray) :=
  (if clusters = [] then [] else awSprintf true [.text before]) ++
  clusters.zipIdx.flatMap fun c =>
    [.round c.2 remaining, .use cl c.2 1, .use ep c.2 1, sprintfUnknown c.1.1] ++
    awSprintf true [.string (clusterText c.1.1), .text ".", .decimal c.1.2] ++
    if c.2 + 1 = clusters.length then [] else awSprintf true [.text ","]

/-- The case of `AwZclDecodeReadAttrResp` for a descriptor with its end points. -/
def descepnAccesses (f : Bool) (data : List UInt8) (sz pos : Nat) : List (Access ZclArray) :=
  let nb := get 1 (data.drop (pos + 2))
  let remaining := sz - (pos + 3)
  let desc := decodeEndPoints nb ⟨[], [], nb⟩ (data.drop (pos + 3)) remaining
  [.read pos 2, .read (pos + 2) 1] ++
  endPointsAccesses data sz remaining nb 0 ⟨[], [], nb⟩ (pos + 3) ++
  if f then
    awSprintf f [.text "nbep=", .decimal desc.m_nbep] ++
    printAccesses remaining "&clusterinput=" .m_clin .m_epin desc.m_clin ++
    printAccesses remaining "&clusteroutput=" .m_clout .m_epout desc.m_clout
  else []

/-- The values that `AwZclDecodeReadAttrResp` tells apart. -/
inductive ValueKind
  | uint (bytes : Nat)
  | metering
  | tic
  | wipaddr
  | desc
  | descepn
  | power
  | untreated

/-- The two switches of `AwZclDecodeReadAttrResp`, over the size and over the attribute. -/
def decodeValueKind (a : ZclAttribut) : ValueKind :=
  match a.at_ssval with
  | 1 => .uint 1
  | 2 => .uint 2
  | 4 => .uint 4
  | _ =>
    if a.clat = wClat wCluSimplemeter wAttSimplemeterCurValue then .metering
    else if a.clat ∈ ticClats then .tic
    else if a.clat = wClat wCluConfiguration wAttConfigurationWipaddr then .wipaddr
    else if a.clat = wClat wCluConfiguration wAttConfigurationDesc then .desc
    else if a.clat = wClat wCluConfiguration wAttConfigurationDescepn then .descepn
    else if a.clat = wClat wCluConfiguration wAttConfigurationPower then .power
    else .untreated

/-- A number of one, two or four bytes. -/
def uintAccesses (f : Bool) (a : ZclAttribut) (data : List UInt8) (pos bytes : Nat) :
    List (Access ZclArray) :=
  let value := get bytes (data.drop pos)
  .read pos bytes :: awSprintf f [.text "value=", .decimal value, .text "&xvalue=",
    .hexadecimal (2 * bytes) value] ++
  if bytes = 4 ∧ a.at_cl_id = wCluAnaloginput then
    awSprintf f [.text "&fvalue=", .float value]
  else []

/-- Teleinformation data, copied before its size is looked at. -/
def ticAccesses (f : Bool) (a : ZclAttribut) (data : List UInt8) (sz pos : Nat) :
    List (Access ZclArray) :=
  let n := get 1 (data.drop pos)
  .read pos 1 :: (if n = 0 then [] else [.read (pos + 1) n, .use .m_data 0 n]) ++
  awSprintf f [.text "sz=", .decimal n] ++
  if f = true ∧ n ≠ 0 then
    awBinToStr (fun i => .use .m_data i 1) n (sz - (pos + 1)) ++
    awSprintf f [.text "&", .string (nameOf attributNames a.clat), .text "=",
      .string (binToStr ((data.drop (pos + 1)).take n))]
  else []

/-- A byte string behind its length. -/
def wipaddrAccesses (f : Bool) (a : ZclAttribut) (data : List UInt8) (sz pos : Nat) :
    List (Access ZclArray) :=
  if -a.at_ssval < 0 ∨ (wZclSize : Int) < -a.at_ssval then []
  else
    let lg := get 1 (data.drop pos)
    .read pos 1 ::
    if lg = 0 ∨ wZclSize < lg then []
    else
      [.read (pos + 1) lg, .use .m_value 0 lg] ++
      if f then
        awBinToStr (fun i => .read (pos + 1 + i) 1) lg (sz - (pos + 1)) ++
        awSprintf f [.text "value=", .string (binToStr ((data.drop (pos + 1)).take lg))]
      else []

/-- A power value, whose count says how many levels there are. -/
def powerAccesses (f : Bool) (data : List UInt8) (sz pos : Nat) : List (Access ZclArray) :=
  let val := decodePowerValue (data.drop pos)
  let remaining := sz - (pos + 3)
  [.read pos 1, .read (pos + 1) 1, .read (pos + 2) 1] ++
  (List.range val.m_count).flatMap (fun i =>
    [.round i remaining, .use .m_level i 1, .read (pos + 3 + 2 * i) 2]) ++
  if f then
    awSprintf f [.text "mode=", .hexadecimal 0 val.m_mode] ++
    awSprintf f [.text "&source=", .hexadecimal 0 val.m_source] ++
    awSprintf f [.text "&count=", .decimal val.m_count] ++ awSprintf f [.text "&level="] ++
    (List.range val.m_count).flatMap fun i =>
      [.round i remaining, .use .m_level i 1] ++ awSprintf f [.decimal (val.m_level.getD i 0)] ++
      if i + 1 = val.m_count then [] else awSprintf f [.text ","]
  else []

/-- `AwZclDecodeReadAttrResp` -/
def readAttrRespAccesses (f : Bool) (a : ZclAttribut) (data : List UInt8) (sz pos : Nat) :
    List (Access ZclArray) :=
  awSprintf f [.text "clat=", .hexadecimal 8 a.clat, .text "&"] ++
  match decodeValueKind a with
  | .uint bytes => uintAccesses f a data pos bytes
  | .metering => meteringValueAccesses f data pos
  | .tic => ticAccesses f a data sz pos
  | .wipaddr => wipaddrAccesses f a data sz pos
  | .desc => .read pos 2 :: simpleDescAccesses f 0 data sz ⟨[], [], 0⟩ (pos + 2)
  | .descepn => descepnAccesses f data sz pos
  | .power => powerAccesses f data sz pos
  | .untreated => []

/-- The bytes of the attribute that `AwZclDecode` searches for. -/
def searchAccesses (cmd : ZclCommand) : List (Access ZclArray) :=
  if cmd.cm_id ∈ [wCmdReadAttrRqst, wCmdReadAttrResp, wCmdRepoAttrEvnt, wCmdWritAttrRqst] then
    [.read 4 2]
  else if cmd.cm_id ∈ [wCmdRepoConfRqst, wCmdRepoConfResp, wCmdReadConfRqst, wCmdReadConfResp] then
    [.read cmd.cm_id_offset 1, .read (cmd.cm_id_offset + 1) 1]
  else []

/-- The switch at the end of `AwZclDecode`. -/
def paramAccesses (f : Bool) (cmd : ZclCommand) (a : ZclAttribut) (data : List UInt8) (sz : Nat) :
    List (Access ZclArray) :=
  if cmd.cm_id ∈ [wCmdReadAttrResp, wCmdRepoAttrEvnt, wCmdWritAttrRqst] then
    readAttrRespAccesses f a data sz cmd.cm_val_offset
  else if cmd.cm_id ∈ [wCmdReadConfResp, wCmdRepoConfRqst] then
    repoConfRqstAccesses f a data cmd.cm_val_offset
  else []

/-- A text begins with the path of what it is about. -/
def pathItems (epn : Nat) (cmd : ZclCommand) (a : ZclAttribut) : List Item :=
  [.text "./", .decimal epn, .text "/", .text (if cmd.cm_response then "response" else "request"),
    .text "/", .string (nameOf commandNames cmd.cm_id), .text "/",
    .string (nameOf clusterNames a.at_cl_id), .text "/", .string (nameOf attributNames a.clat),
    .text "/"]

/-- `AwZclDecode` from the attribute on. -/
def attributAccesses (f : Bool) (epn : Nat) (cmd : ZclCommand) (a : ZclAttribut)
    (data : List UInt8) (sz : Nat) : List (Access ZclArray) :=
  let hasStatus := cmd.cm_response = true ∧ cmd.cm_stat_offset ≠ 0
  let status := get 1 (data.drop cmd.cm_stat_offset)
  let direction := get 1 (data.drop cmd.cm_direction_offset)
  (if hasStatus then [.read cmd.cm_stat_offset 1] else []) ++
  (if cmd.cm_direction_offset ≠ 0 then [.read cmd.cm_direction_offset 1] else []) ++
  if cmd.cm_val_offset = 0 then
    awSprintf f (pathItems epn cmd a) ++
    (if hasStatus then awSprintf f [.text "status=", .decimal status] else []) ++
    (if cmd.cm_direction_offset ≠ 0 then
      awSprintf f [.text "&direction=", .decimal direction] else []) ++
    awSprintf f [.text "\n"]
  else if sz < cmd.cm_val_offset then []
  else
    awSprintf f (pathItems epn cmd a ++ [.text "?"]) ++
    -- the type of the attribute is read for the text alone
    (if f = true ∧ hasStatus then
      .read 7 1 :: awSprintf f [.text "status=", .decimal status, .text "&appt=",
        .hexadecimal 0 (get 1 (data.drop 7)), .text "&"] else []) ++
    (if cmd.cm_direction_offset ≠ 0 then
      awSprintf f [.text "direction=", .decimal direction, .text "&"] else []) ++
    paramAccesses f cmd a data sz ++ awSprintf f [.text "\n"]

/-- `AwZclDecode` -/
def decodeAccesses (f : Bool) (bin : List UInt8) : List (Access ZclArray) :=
  if bin.length = 0 ∨ wZclSize < bin.length then []
  else
    let data := buffer bin
    let flag := get 1 data
    let epn := if wZclEpnMax ≤ flag >>> 5 then 0 else flag >>> 5
    [.read 0 bin.length, .use .m_byte 0 bin.length, .read 0 1] ++
    if flag &&& 0x1F ≠ 0x11 then []
    else
      [.read 1 1, .read 2 2] ++
      match awZclCommand (get 1 (data.drop 1)) with
      | none => []
      | some cmd =>
        let clid := get 2 (data.drop 2)
        if clid ∉ tbCluster then []
        else
          searchAccesses cmd ++
          match searchAttribut cmd clid data with
          | .error _ => []
          | .ok none =>
            .read cmd.cm_val_offset 1 :: awSprintf f [.text "./", .decimal epn, .text "/command/",
              .string (nameOf commandNames cmd.cm_id), .text "/",
              .string (nameOf clusterNames clid), .text "/?value=",
              .decimal (get 1 (data.drop cmd.cm_val_offset)), .text "\n"]
          | .ok (some a) => attributAccesses f epn cmd a data bin.length

section Conditions

/-- A list of two bytes each: the bytes left are enough, or end behind a whole one, and the list has
room for those that come. -/
def ClustersFit (nb left room : Nat) : Prop :=
  (2 * nb ≤ left ∨ left % 2 = 0) ∧ min nb (left / 2) ≤ room

variable (data : List UInt8) (sz : Nat)

/-- Where the second list of a descriptor begins. -/
def secondAt (pos : Nat) : Nat := pos + 1 + 2 * get 1 (data.drop pos)

/-- A descriptor has its first count, and lists that fit; the second one may be missing. -/
def DescFits (pos roomIn roomOut : Nat) : Prop :=
  pos < sz ∧ ClustersFit (get 1 (data.drop pos)) (sz - (pos + 1)) roomIn ∧
    (secondAt data pos < sz →
      ClustersFit (get 1 (data.drop (secondAt data pos))) (sz - (secondAt data pos + 1)) roomOut)

/-- Where a descriptor ends, by its counts. -/
def descEnd (pos : Nat) : Nat :=
  if secondAt data pos < sz then
    secondAt data pos + 1 + 2 * get 1 (data.drop (secondAt data pos))
  else secondAt data pos

/-- The clusters in the first list of a descriptor. -/
def descIn (pos : Nat) : Nat := min (get 1 (data.drop pos)) ((sz - (pos + 1)) / 2)

/-- The clusters in the second list of a descriptor. -/
def descOut (pos : Nat) : Nat :=
  if secondAt data pos < sz then
    min (get 1 (data.drop (secondAt data pos))) ((sz - (secondAt data pos + 1)) / 2)
  else 0

/-- The end points of a descriptor, as far as the message goes, and the room they leave each
other. -/
def EndPointsFit : Nat → Nat → Nat → Nat → Prop
  | 0, _, _, _ => True
  | nb + 1, pos, roomIn, roomOut =>
    sz ≤ pos ∨ DescFits data sz (pos + 1) roomIn roomOut ∧
      EndPointsFit nb (descEnd data sz (pos + 1)) (roomIn - descIn data sz (pos + 1))
        (roomOut - descOut data sz (pos + 1))

/-- A value is complete, and there is room for it. -/
def ValueFits (a : ZclAttribut) (pos : Nat) : Prop :=
  let n := get 1 (data.drop pos)
  match decodeValueKind a with
  | .uint bytes => pos + bytes ≤ sz
  | .metering => pos + 13 ≤ sz
  | .tic => pos + 1 + n ≤ sz ∧ n ≤ wZclTicSize
  -- a length that the decoder refuses ends it
  | .wipaddr =>
    (-a.at_ssval < 0 ∨ (wZclSize : Int) < -a.at_ssval) ∨
      pos < sz ∧ (wZclSize < n ∨ pos + 1 + n ≤ sz)
  | .desc => DescFits data sz (pos + 2) 10 10
  | .descepn => pos + 3 ≤ sz ∧ EndPointsFit data sz (get 1 (data.drop (pos + 2))) (pos + 3) 10 10
  -- the count is of all the bytes behind it, two of which are no level
  | .power => 2 ≤ n ∧ (n - 2) / 2 ≤ 10 ∧ pos + 3 + 2 * ((n - 2) / 2) ≤ sz
  | .untreated => True

/-- A configuration is complete. -/
def ConfigFits (a : ZclAttribut) (pos : Nat) : Prop :=
  match decodeConfigKind a.clat with
  | some (.simple 1) => pos + 5 ≤ sz
  | some (.simple 4) => pos + 8 ≤ sz
  | some (.simple _) => pos + 6 ≤ sz
  | some .metering => pos + 17 ≤ sz
  | _ => True

/-- What stands behind the fixed part of a message. -/
def ParamFits (cmd : ZclCommand) (a : ZclAttribut) : Prop :=
  if cmd.cm_id ∈ [wCmdReadAttrResp, wCmdRepoAttrEvnt, wCmdWritAttrRqst] then
    ValueFits data sz a cmd.cm_val_offset
  else if cmd.cm_id ∈ [wCmdReadConfResp, wCmdRepoConfRqst] then
    ConfigFits sz a cmd.cm_val_offset
  else True

/-- The attribute's number is complete, for a command that has one. -/
def IdFits (cmd : ZclCommand) : Prop :=
  if cmd.cm_id ∈ [wCmdReadAttrRqst, wCmdReadAttrResp, wCmdRepoAttrEvnt, wCmdWritAttrRqst] then
    6 ≤ sz
  else if cmd.cm_id ∈ [wCmdRepoConfRqst, wCmdRepoConfResp, wCmdReadConfRqst, wCmdReadConfResp] then
    cmd.cm_id_offset + 2 ≤ sz
  else True

/-- A message with a known attribute has its status and its direction, and behind its fixed part,
if there is something, a value or a configuration that fits. -/
def AttributFits (cmd : ZclCommand) (a : ZclAttribut) : Prop :=
  (cmd.cm_response = true ∧ cmd.cm_stat_offset ≠ 0 → cmd.cm_stat_offset < sz) ∧
    (cmd.cm_direction_offset ≠ 0 → cmd.cm_direction_offset < sz) ∧
    (cmd.cm_val_offset ≠ 0 → cmd.cm_val_offset ≤ sz → ParamFits data sz cmd a)

end Conditions

/-- **A message that fits**: it is refused for its size or its flag, or has its header; with a
command, a cluster and an attribute that the tables know it has all the command reads. -/
def FrameFits (bin : List UInt8) : Prop :=
  let data := buffer bin
  bin.length = 0 ∨ wZclSize < bin.length ∨ get 1 data &&& 0x1F ≠ 0x11 ∨ 4 ≤ bin.length ∧
    ∀ cmd, awZclCommand (get 1 (data.drop 1)) = some cmd → get 2 (data.drop 2) ∈ tbCluster →
      IdFits bin.length cmd ∧
      match searchAttribut cmd (get 2 (data.drop 2)) data with
      | .error _ => True
      | .ok none => cmd.cm_val_offset < bin.length
      | .ok (some a) => AttributFits data bin.length cmd a

variable {f : Bool}

section TextBounds

variable {sz : Nat} {key : Nat}

theorem inside_awSprintf {items : List Item} (h : (items.map Item.width).sum < 1024) :
    Inside ZclArray.size sz (awSprintf f items) := by
  have hlen := Printf.length_print_le items
  unfold awSprintf
  split
  · rw [inside_cons, within_use]
    refine ⟨?_, inside_nil⟩
    change 0 + ((Printf.print items).length + 1) ≤ 1024
    omega
  · exact inside_nil

theorem inside_comma {p : Prop} [Decidable p] :
    Inside ZclArray.size sz (if p then [] else awSprintf f [.text ","]) := by
  split
  · exact inside_nil
  · exact inside_awSprintf (by simp)

theorem length_clusterText_le : (clusterText key).length ≤ 24 := by
  have hname : (nameOf clusterNames key).length ≤ 24 := length_clusterName_le
  have hunknown : (unknownCluster key).length ≤ 17 := length_unknownCluster_le
  unfold clusterText
  unfold nameOf at hname
  cases hlookup : clusterNames.lookup key with
  | none => exact Nat.le_trans hunknown (by decide)
  | some name =>
    rw [hlookup] at hname
    exact hname

theorem within_sprintfUnknown : (sprintfUnknown key).Within ZclArray.size sz := by
  have hlen : (unknownCluster key).length ≤ 17 := length_unknownCluster_le
  change 0 + ((unknownCluster key).length + 1) ≤ 128
  omega

theorem inside_clat {a : ZclAttribut} : Inside ZclArray.size sz
    (awSprintf f [.text "clat=", .hexadecimal 8 a.clat, .text "&"]) :=
  inside_awSprintf (by simp)

theorem length_binToStr (bytes : List UInt8) : (binToStr bytes).length = 2 * bytes.length := by
  induction bytes with
  | nil => rfl
  | cons b bytes ih =>
    have hcons : binToStr (b :: bytes) = Printf.hexPair b ++ binToStr bytes := rfl
    rw [hcons, length_append, ih, length_cons, Printf.hexPair]
    simp only [length_cons, length_nil]
    omega

theorem inside_awBinToStr {source : Nat → Access ZclArray} {lg remaining : Nat} (hlg : lg < 256)
    (hremaining : lg ≤ remaining) (hsource : ∀ i < lg, (source i).Within ZclArray.size sz) :
    Inside ZclArray.size sz (awBinToStr source lg remaining) := by
  have hlen : ((range lg).takeWhile fun i => 2 * i < ZclArray.hex.size).length ≤ lg := by
    simpa using (takeWhile_sublist (l := range lg) _).length_le
  simp only [awBinToStr, inside_append, inside_flatMap, inside_cons, within_round, within_use]
  refine ⟨?_, ?_, inside_nil⟩
  · intro i hi
    have hlt : i < lg := mem_range.mp (takeWhile_subset _ hi)
    refine ⟨by omega, hsource i hlt, ?_, inside_nil⟩
    change 2 * i + 2 ≤ 600
    omega
  · change 2 * _ + 1 ≤ 600
    omega

end TextBounds

variable {data : List UInt8}

section ConfigurationBounds

variable {sz pos : Nat} {a : ZclAttribut}

theorem inside_meteringTexts {before : String} {val : MeteringValue}
    (h : before.toList.length ≤ 1) : Inside ZclArray.size sz (meteringTexts f before val) := by
  refine inside_append.mpr ⟨inside_awSprintf ?_, inside_awSprintf ?_⟩
  · simp
    omega
  · simp

theorem inside_meteringAccesses :
    Inside ZclArray.size sz (meteringAccesses pos) ↔ pos + 13 ≤ sz := by
  simp only [meteringAccesses, inside_cons, within_read, inside_nil, and_true]
  omega

theorem inside_meteringValueAccesses :
    Inside ZclArray.size sz (meteringValueAccesses f data pos) ↔ pos + 13 ≤ sz := by
  rw [meteringValueAccesses, inside_append, inside_meteringAccesses]
  exact and_iff_left (inside_meteringTexts (by decide))

theorem inside_meteringConfigAccesses :
    Inside ZclArray.size sz (meteringConfigAccesses f data pos) ↔ pos + 17 ≤ sz := by
  have htimes : Inside ZclArray.size sz (awSprintf f [.text "mint=",
      .decimal (get 2 (data.drop pos)), .text "&maxt=", .decimal (get 2 (data.drop (pos + 2)))]) :=
    inside_awSprintf (by simp)
  have htexts : Inside ZclArray.size sz
      (meteringTexts f "&" (awZclDecodeMeteringValue (data.drop (pos + 4)))) :=
    inside_meteringTexts (by decide)
  simp only [meteringConfigAccesses, inside_append, inside_cons, within_read, inside_nil, and_true,
    inside_meteringAccesses, htimes, htexts]
  omega

theorem inside_simpleConfigAccesses {nbbytes : Nat} :
    Inside ZclArray.size sz (simpleConfigAccesses f data pos nbbytes) ↔
      pos + 4 + (match nbbytes with | 1 => 1 | 4 => 4 | _ => 2) ≤ sz := by
  have htext : Inside ZclArray.size sz (awSprintf f [.text "mint=",
      .decimal (awZclDecodeSimpleConfig (data.drop pos) nbbytes).m_min_time, .text "&maxt=",
      .decimal (awZclDecodeSimpleConfig (data.drop pos) nbbytes).m_max_time, .text "&minc=",
      .decimal (awZclDecodeSimpleConfig (data.drop pos) nbbytes).m_min_change]) :=
    inside_awSprintf (by simp)
  simp only [simpleConfigAccesses, inside_append, inside_cons, inside_nil, and_true, htext]
  split <;> simp only [within_read] <;> omega

theorem inside_repoConfRqstAccesses :
    Inside ZclArray.size sz (repoConfRqstAccesses f a data pos) ↔ ConfigFits sz a pos := by
  rw [repoConfRqstAccesses, inside_append, and_iff_right inside_clat, ConfigFits]
  split
  · next nbb hkind =>
    rw [inside_simpleConfigAccesses, hkind]
    split
    · rfl
    · rfl
    · simp only
  · next hkind =>
    rw [hkind]
    exact inside_meteringConfigAccesses
  · next hsimple hmetering =>
    split
    · next h => exact absurd h (hsimple 1)
    · next h => exact absurd h (hsimple 4)
    · next h => exact absurd h (hsimple _)
    · next h => exact absurd h hmetering
    · exact iff_true_intro inside_nil

end ConfigurationBounds

section DescriptorBounds

variable {f done : Bool} {sz remaining nb epn i stored pos : Nat} {desc : SimpleDesc}

section

variable (epn nb : Nat) (param : List UInt8) (left : Nat)

theorem left_decodeClusters : (decodeClusters epn nb param left).2.2 = left - 2 * nb := by
  induction nb generalizing param left with
  | zero => rfl
  | succ nb ih =>
    unfold decodeClusters
    split
    · next hleft =>
      rw [hleft]
      exact (Nat.zero_sub _).symm
    · rw [ih]
      omega

theorem length_decodeClusters :
    (decodeClusters epn nb param left).1.length = min nb ((left + 1) / 2) := by
  induction nb generalizing param left with
  | zero => exact (Nat.zero_min _).symm
  | succ nb ih =>
    unfold decodeClusters
    split
    · next hleft =>
      rw [hleft]
      rfl
    · simp only [length_cons, ih]
      omega

theorem param_decodeClusters (h : 2 * nb ≤ left) :
    (decodeClusters epn nb param left).2.1 = param.drop (2 * nb) := by
  induction nb generalizing param left with
  | zero => rfl
  | succ nb ih =>
    rw [decodeClusters, if_neg (by omega)]
    rw [ih _ _ (by omega), drop_drop]
    congr 1
    omega

end

/-- **A list of clusters is inside the bounds exactly if it fits.**  The rounds so far have used at
least a byte each. -/
theorem inside_clustersAccesses (h : i + (sz - pos) ≤ remaining) :
    Inside ZclArray.size sz (clustersAccesses f done data sz remaining nb i stored pos) ↔
      ClustersFit nb (sz - pos) (10 - stored) := by
  induction nb generalizing i stored pos with
  | zero =>
    rw [clustersAccesses, ClustersFit]
    exact iff_of_true inside_nil (by omega)
  | succ nb ih =>
    rw [clustersAccesses]
    split
    · next hend => exact iff_of_true inside_nil (by unfold ClustersFit; omega)
    · next hend =>
      have hcl : (if done then ZclArray.m_clout else .m_clin).size = 10 := by cases done <;> rfl
      have hep : (if done then ZclArray.m_epout else .m_epin).size = 10 := by cases done <;> rfl
      have hname : Inside ZclArray.size sz
          (awSprintf f [.string (clusterText (get 2 (data.drop pos)))]) :=
        inside_awSprintf (by
          have := @length_clusterText_le (get 2 (data.drop pos))
          simp
          omega)
      simp only [inside_append, inside_cons, within_round, within_read, within_use, inside_nil,
        and_true, hcl, hep, within_sprintfUnknown, hname, inside_comma,
        ih (show i + 1 + (sz - (pos + 2)) ≤ remaining by omega)]
      unfold ClustersFit
      omega

/-- **A descriptor is inside the bounds exactly if it fits.** -/
theorem inside_simpleDescAccesses :
    Inside ZclArray.size sz (simpleDescAccesses f epn data sz desc pos) ↔
      DescFits data sz pos (10 - desc.m_clin.length) (10 - desc.m_clout.length) := by
  have htext : ∀ s : String, s.toList.length < 1024 →
      ∀ n : Nat, Inside ZclArray.size sz (if 0 < n then awSprintf f [.text s] else []) := by
    intro s hs n
    split
    · exact inside_awSprintf (by simpa using hs)
    · exact inside_nil
  simp only [simpleDescAccesses, left_decodeClusters, inside_append, inside_cons, within_read,
    htext _ (show "clusterinput=".toList.length < 1024 by decide),
    inside_clustersAccesses (show 0 + (sz - (pos + 1)) ≤ sz - (pos + 1) by omega), and_true]
  unfold DescFits secondAt
  split
  · next hleft =>
    have hno : ¬pos + 1 + 2 * get 1 (data.drop pos) < sz := by omega
    simp only [hno, inside_nil, and_true, false_implies, Nat.succ_le_iff]
  · next hleft =>
    have hsecond : sz - (sz - (pos + 1) - 2 * get 1 (data.drop pos)) =
        pos + 1 + 2 * get 1 (data.drop pos) := by omega
    have hlt : pos + 1 + 2 * get 1 (data.drop pos) < sz := by omega
    have hleft' : sz - (pos + 1) - 2 * get 1 (data.drop pos) - 1 =
        sz - (pos + 1 + 2 * get 1 (data.drop pos) + 1) := by omega
    simp only [inside_append, inside_cons, within_read, hsecond, hleft',
      htext _ (show "&clusteroutput=".toList.length < 1024 by decide),
      inside_clustersAccesses (Nat.le_of_eq (Nat.zero_add _)), hlt, true_implies, and_true,
      Nat.succ_le_iff, true_and, and_assoc]

theorem simpleDesc_one (epn : Nat) (desc : SimpleDesc) (h : sz ≤ secondAt data pos) :
    ∃ param, awZclDecodeSimpleDesc epn desc (data.drop pos) (sz - pos) =
      ({ desc with m_clin := desc.m_clin ++ (decodeClusters epn (get 1 (data.drop pos))
          (data.drop (pos + 1)) (sz - (pos + 1))).1 }, param, 0) := by
  have hat : secondAt data pos = pos + 1 + 2 * get 1 (data.drop pos) := rfl
  refine ⟨(decodeClusters epn (get 1 (data.drop pos)) (data.drop (pos + 1))
    (sz - (pos + 1))).2.1, ?_⟩
  have hleft : sz - (pos + 1) - 2 * get 1 (data.drop pos) = 0 := by omega
  simp only [awZclDecodeSimpleDesc, left_decodeClusters, drop_drop, Nat.sub_sub sz pos 1,
    hleft, if_true]

theorem simpleDesc_two (epn : Nat) (desc : SimpleDesc) (h : secondAt data pos < sz) :
    awZclDecodeSimpleDesc epn desc (data.drop pos) (sz - pos) =
      let second := decodeClusters epn (get 1 (data.drop (secondAt data pos)))
        (data.drop (secondAt data pos + 1)) (sz - (secondAt data pos + 1))
      ({ desc with
          m_clin := desc.m_clin ++ (decodeClusters epn (get 1 (data.drop pos)) (data.drop (pos + 1))
            (sz - (pos + 1))).1
          m_clout := desc.m_clout ++ second.1 }, second.2.1, second.2.2) := by
  have hat : secondAt data pos = pos + 1 + 2 * get 1 (data.drop pos) := rfl
  have hleft : sz - (pos + 1) - 2 * get 1 (data.drop pos) ≠ 0 := by omega
  have hparam : (decodeClusters epn (get 1 (data.drop pos)) (data.drop (pos + 1))
      (sz - (pos + 1))).2.1 = data.drop (secondAt data pos) := by
    rw [param_decodeClusters _ _ _ _ (by omega), drop_drop, hat]
  have hrest : sz - (pos + 1) - 2 * get 1 (data.drop pos) - 1 = sz - (secondAt data pos + 1) := by
    omega
  simp only [awZclDecodeSimpleDesc, drop_drop, Nat.sub_sub sz pos 1,
    left_decodeClusters epn (get 1 (data.drop pos)), hleft, if_false, hparam, hrest]

theorem lt_descEnd : pos < descEnd data sz pos := by
  unfold descEnd secondAt
  split <;> omega

theorem next_simpleDesc : sz - (awZclDecodeSimpleDesc epn desc (data.drop pos) (sz - pos)).2.2 =
    min sz (descEnd data sz pos) := by
  unfold descEnd
  split
  · next hsecond =>
    rw [simpleDesc_two epn desc hsecond]
    simp only [left_decodeClusters]
    omega
  · next hsecond =>
    obtain ⟨param, hdesc⟩ := simpleDesc_one epn desc (Nat.le_of_not_lt hsecond)
    rw [hdesc]
    simp only
    omega

theorem param_simpleDesc (h : descEnd data sz pos < sz) :
    (awZclDecodeSimpleDesc epn desc (data.drop pos) (sz - pos)).2.1 =
      data.drop (descEnd data sz pos) := by
  unfold descEnd at h ⊢
  split at h
  · next hsecond =>
    rw [if_pos hsecond, simpleDesc_two epn desc hsecond]
    rw [param_decodeClusters _ _ _ _ (by omega), drop_drop]
  · next hsecond => exact absurd h hsecond

variable {roomIn roomOut : Nat}

theorem length_clin_simpleDesc (epn : Nat) (desc : SimpleDesc)
    (h : DescFits data sz pos roomIn roomOut) :
    (awZclDecodeSimpleDesc epn desc (data.drop pos) (sz - pos)).1.m_clin.length =
      desc.m_clin.length + descIn data sz pos := by
  obtain ⟨-, ⟨heven, -⟩, -⟩ := h
  have hlen : (desc.m_clin ++ (decodeClusters epn (get 1 (data.drop pos)) (data.drop (pos + 1))
      (sz - (pos + 1))).1).length = desc.m_clin.length + descIn data sz pos := by
    rw [length_append, length_decodeClusters, descIn]
    omega
  rcases Nat.lt_or_ge (secondAt data pos) sz with hsecond | hsecond
  · rw [simpleDesc_two epn desc hsecond]
    exact hlen
  · obtain ⟨param, hdesc⟩ := simpleDesc_one epn desc hsecond
    rw [hdesc]
    exact hlen

theorem length_clout_simpleDesc (epn : Nat) (desc : SimpleDesc)
    (h : DescFits data sz pos roomIn roomOut) :
    (awZclDecodeSimpleDesc epn desc (data.drop pos) (sz - pos)).1.m_clout.length =
      desc.m_clout.length + descOut data sz pos := by
  unfold descOut
  split
  · next hsecond =>
    obtain ⟨heven, -⟩ := h.2.2 hsecond
    rw [simpleDesc_two epn desc hsecond]
    simp only [length_append, length_decodeClusters]
    omega
  · next hsecond =>
    obtain ⟨param, hdesc⟩ := simpleDesc_one epn desc (Nat.le_of_not_lt hsecond)
    rw [hdesc]
    rfl

theorem endPointsFit_of_le (h : sz ≤ pos) : EndPointsFit data sz nb pos roomIn roomOut := by
  cases nb with
  | zero => exact trivial
  | succ nb => exact Or.inl h

theorem endPointsFit_min : EndPointsFit data sz nb (min sz pos) roomIn roomOut ↔
    EndPointsFit data sz nb pos roomIn roomOut := by
  rcases Nat.le_total sz pos with hle | hle
  · exact iff_of_true (endPointsFit_of_le (by omega)) (endPointsFit_of_le hle)
  · rw [Nat.min_eq_right hle]

/-- **The end points are inside the bounds exactly if they fit**, each in the room that those before
it leave. -/
theorem inside_endPointsAccesses (h : i + (sz - pos) ≤ remaining) :
    Inside ZclArray.size sz (endPointsAccesses data sz remaining nb i desc pos) ↔
      EndPointsFit data sz nb pos (10 - desc.m_clin.length) (10 - desc.m_clout.length) := by
  induction nb generalizing i desc pos with
  | zero => exact iff_of_true inside_nil trivial
  | succ nb ih =>
    rw [endPointsAccesses, EndPointsFit]
    split
    · next hend => exact iff_of_true inside_nil (Or.inl hend)
    · next hend =>
      have hafter : pos + 1 < descEnd data sz (pos + 1) := lt_descEnd
      simp only [inside_append, inside_cons, within_round, within_read, inside_nil, and_true,
        inside_simpleDescAccesses, next_simpleDesc, hend, false_or, and_assoc]
      rw [ih (by omega), endPointsFit_min]
      constructor
      · rintro ⟨-, -, hdesc, hrest⟩
        rw [length_clin_simpleDesc _ _ hdesc, length_clout_simpleDesc _ _ hdesc, ← Nat.sub_sub,
          ← Nat.sub_sub] at hrest
        exact ⟨hdesc, hrest⟩
      · rintro ⟨hdesc, hrest⟩
        rw [length_clin_simpleDesc _ _ hdesc, length_clout_simpleDesc _ _ hdesc, ← Nat.sub_sub,
          ← Nat.sub_sub]
        exact ⟨by omega, by omega, hdesc, hrest⟩

theorem decodeEndPoints_succ (h : pos < sz) :
    decodeEndPoints (nb + 1) desc (data.drop pos) (sz - pos) =
      decodeEndPoints nb (awZclDecodeSimpleDesc (get 1 (data.drop pos)) desc (data.drop (pos + 1))
        (sz - (pos + 1))).1 (data.drop (descEnd data sz (pos + 1)))
        (sz - descEnd data sz (pos + 1)) := by
  have hnext := @next_simpleDesc data sz (get 1 (data.drop pos)) (pos + 1) desc
  have hafter : pos + 1 < descEnd data sz (pos + 1) := lt_descEnd
  rw [decodeEndPoints, if_neg (by omega), drop_drop, Nat.sub_sub]
  simp only
  rcases Nat.lt_or_ge (descEnd data sz (pos + 1)) sz with hend | hend
  · have hleft : (awZclDecodeSimpleDesc (get 1 (data.drop pos)) desc (data.drop (pos + 1))
        (sz - (pos + 1))).2.2 = sz - descEnd data sz (pos + 1) := by omega
    rw [param_simpleDesc hend]
    exact congrArg _ hleft
  · have hleft : (awZclDecodeSimpleDesc (get 1 (data.drop pos)) desc (data.drop (pos + 1))
        (sz - (pos + 1))).2.2 = 0 ∨ sz = 0 := by omega
    have hzero : ∀ (d : SimpleDesc) (param : List UInt8), decodeEndPoints nb d param 0 = d := by
      intro d param
      cases nb with
      | zero => rfl
      | succ nb => rw [decodeEndPoints, if_pos rfl]
    rw [hleft.resolve_right (by omega), Nat.sub_eq_zero_of_le hend, hzero, hzero]

theorem length_decodeEndPoints (desc : SimpleDesc) (hin : desc.m_clin.length ≤ 10)
    (hout : desc.m_clout.length ≤ 10)
    (h : EndPointsFit data sz nb pos (10 - desc.m_clin.length) (10 - desc.m_clout.length)) :
    (decodeEndPoints nb desc (data.drop pos) (sz - pos)).m_clin.length ≤
        min 10 (desc.m_clin.length + (sz - pos)) ∧
      (decodeEndPoints nb desc (data.drop pos) (sz - pos)).m_clout.length ≤
        min 10 (desc.m_clout.length + (sz - pos)) := by
  induction nb generalizing desc pos with
  | zero =>
    rw [decodeEndPoints]
    omega
  | succ nb ih =>
    rcases h with hend | ⟨hdesc, hrest⟩
    · rw [decodeEndPoints, if_pos (by omega)]
      omega
    · have hclin := length_clin_simpleDesc (get 1 (data.drop pos)) desc hdesc
      have hclout := length_clout_simpleDesc (get 1 (data.drop pos)) desc hdesc
      obtain ⟨hpos, ⟨-, hroomIn⟩, hsecond⟩ := hdesc
      have hat : secondAt data (pos + 1) = pos + 2 + 2 * get 1 (data.drop (pos + 1)) := rfl
      have hdescOut : descOut data sz (pos + 1) ≤ 10 - desc.m_clout.length ∧
          descIn data sz (pos + 1) + (sz - descEnd data sz (pos + 1)) ≤ sz - pos ∧
          descOut data sz (pos + 1) + (sz - descEnd data sz (pos + 1)) ≤ sz - pos := by
        unfold descOut descEnd descIn
        split
        · next hlt =>
          obtain ⟨-, hroomOut⟩ := hsecond hlt
          omega
        · omega
      have hdescIn : descIn data sz (pos + 1) ≤ 10 - desc.m_clin.length := hroomIn
      rw [decodeEndPoints_succ (by omega)]
      have hfinal := ih (awZclDecodeSimpleDesc (get 1 (data.drop pos)) desc (data.drop (pos + 1))
        (sz - (pos + 1))).1 (by omega) (by omega)
        (by rw [hclin, hclout, ← Nat.sub_sub, ← Nat.sub_sub]; exact hrest)
      omega

theorem inside_printAccesses {before : String} {cl ep : ZclArray} {clusters : List (Nat × Nat)}
    (hbefore : before.toList.length < 1024) (hcl : cl.size = 10) (hep : ep.size = 10)
    (hlen : clusters.length ≤ min 10 remaining) :
    Inside ZclArray.size sz (printAccesses remaining before cl ep clusters) := by
  rw [printAccesses, inside_append, inside_flatMap]
  constructor
  · split
    · exact inside_nil
    · exact inside_awSprintf (by simpa using hbefore)
  · intro c hc
    have hlt := snd_lt_of_mem_zipIdx hc
    have hname : Inside ZclArray.size sz
        (awSprintf true [.string (clusterText c.1.1), .text ".", .decimal c.1.2]) :=
      inside_awSprintf (by
        have := @length_clusterText_le c.1.1
        simp
        omega)
    simp only [inside_append, inside_cons, within_round, within_use, inside_nil, hcl, hep,
      within_sprintfUnknown, hname, inside_comma, and_true]
    omega

/-- **A descriptor with its end points is inside the bounds exactly if it fits**, and so is what it
prints. -/
theorem inside_descepnAccesses :
    Inside ZclArray.size sz (descepnAccesses f data sz pos) ↔
      pos + 3 ≤ sz ∧ EndPointsFit data sz (get 1 (data.drop (pos + 2))) (pos + 3) 10 10 := by
  simp only [descepnAccesses, inside_append, inside_cons, within_read, inside_nil, and_true]
  rw [inside_endPointsAccesses (by omega)]
  constructor
  · rintro ⟨⟨⟨-, hcount⟩, hpoints⟩, -⟩
    exact ⟨hcount, hpoints⟩
  · rintro ⟨hcount, hpoints⟩
    refine ⟨⟨⟨by omega, hcount⟩, hpoints⟩, ?_⟩
    obtain ⟨hin, hout⟩ := length_decodeEndPoints ⟨[], [], get 1 (data.drop (pos + 2))⟩
      (Nat.zero_le _) (Nat.zero_le _) hpoints
    rw [length_nil, Nat.zero_add] at hin hout
    split
    · refine inside_append.mpr ⟨inside_append.mpr ⟨?_, ?_⟩, ?_⟩
      · exact inside_awSprintf (by simp)
      · exact inside_printAccesses (by decide) rfl rfl hin
      · exact inside_printAccesses (by decide) rfl rfl hout
    · exact inside_nil

end DescriptorBounds

section ValueBounds

variable {sz pos : Nat} {a : ZclAttribut}

theorem get_one_lt (bs : List UInt8) : get 1 bs < 256 := get_lt 1 bs

theorem inside_uintAccesses {bytes : Nat} (h : bytes ≤ 4) :
    Inside ZclArray.size sz (uintAccesses f a data pos bytes) ↔ pos + bytes ≤ sz := by
  have hvalue : Inside ZclArray.size sz (awSprintf f [.text "value=",
      .decimal (get bytes (data.drop pos)), .text "&xvalue=",
      .hexadecimal (2 * bytes) (get bytes (data.drop pos))]) :=
    inside_awSprintf (by
      simp
      omega)
  have hfloat : Inside ZclArray.size sz (if bytes = 4 ∧ a.at_cl_id = wCluAnaloginput then
      awSprintf f [.text "&fvalue=", .float (get bytes (data.drop pos))] else []) := by
    split
    · exact inside_awSprintf (by simp)
    · exact inside_nil
  simp only [uintAccesses, inside_append, inside_cons, within_read, hvalue, hfloat, and_true]

theorem inside_ticAccesses : Inside ZclArray.size sz (ticAccesses f a data sz pos) ↔
    pos + 1 + get 1 (data.drop pos) ≤ sz ∧ get 1 (data.drop pos) ≤ wZclTicSize := by
  have hbyte := get_one_lt (data.drop pos)
  have hsize : Inside ZclArray.size sz
      (awSprintf f [.text "sz=", .decimal (get 1 (data.drop pos))]) :=
    inside_awSprintf (by simp)
  have hname : Inside ZclArray.size sz (awSprintf f [.text "&",
      .string (nameOf attributNames a.clat), .text "=",
      .string (binToStr ((data.drop (pos + 1)).take (get 1 (data.drop pos))))]) :=
    inside_awSprintf (by
      have hlen := @length_attributName_le a.clat
      have htake := length_take_le (get 1 (data.drop pos)) (data.drop (pos + 1))
      simp only [map_cons, map_nil, Item.width, sum_cons, sum_nil,
        length_binToStr]
      simp only [String.reduceToList, length_cons, length_nil]
      omega)
  rcases Nat.eq_zero_or_pos (get 1 (data.drop pos)) with hzero | hpos
  · have hnot : ¬(f = true ∧ get 1 (data.drop pos) ≠ 0) := fun h => h.2 hzero
    simp only [ticAccesses, inside_append, inside_cons, within_read, hsize, if_neg hnot,
      if_pos hzero, inside_nil, and_true]
    rw [hzero]
    exact (and_iff_left (Nat.zero_le _)).symm
  · have hne : get 1 (data.drop pos) ≠ 0 := Nat.pos_iff_ne_zero.mp hpos
    simp only [ticAccesses, inside_append, inside_cons, within_read, within_use, hsize, if_neg hne,
      inside_nil, and_true, Nat.zero_add]
    constructor
    · rintro ⟨⟨-, hread, hcopy⟩, -⟩
      exact ⟨hread, hcopy⟩
    · rintro ⟨hread, hcopy⟩
      refine ⟨⟨by omega, hread, hcopy⟩, ?_⟩
      split
      · refine inside_append.mpr ⟨inside_awBinToStr hbyte (by omega) fun i hi => ?_, hname⟩
        exact Nat.le_trans hi hcopy
      · exact inside_nil

theorem inside_wipaddrAccesses : Inside ZclArray.size sz (wipaddrAccesses f a data sz pos) ↔
    (-a.at_ssval < 0 ∨ (wZclSize : Int) < -a.at_ssval) ∨ pos < sz ∧
      (wZclSize < get 1 (data.drop pos) ∨ pos + 1 + get 1 (data.drop pos) ≤ sz) := by
  have hbyte := get_one_lt (data.drop pos)
  unfold wipaddrAccesses
  split
  · next hsize => exact iff_of_true inside_nil (Or.inl hsize)
  · next hsize =>
    rw [or_iff_right hsize, inside_cons, within_read]
    refine and_congr_right fun hread => ?_
    split
    · next hlg => exact iff_of_true inside_nil (by omega)
    · next hlg =>
      have hvalue : Inside ZclArray.size sz (awSprintf f [.text "value=",
          .string (binToStr ((data.drop (pos + 1)).take (get 1 (data.drop pos))))]) :=
        inside_awSprintf (by
          have htake := length_take_le (get 1 (data.drop pos)) (data.drop (pos + 1))
          simp only [map_cons, map_nil, Item.width, sum_cons, sum_nil,
            length_binToStr]
          simp only [String.reduceToList, length_cons, length_nil]
          omega)
      have hroom : 0 + get 1 (data.drop pos) ≤ ZclArray.m_value.size := by
        change 0 + get 1 (data.drop pos) ≤ wZclSize
        omega
      simp only [inside_append, inside_cons, within_read, within_use, hroom, inside_nil, and_true]
      constructor
      · rintro ⟨hcopy, -⟩
        exact Or.inr hcopy
      · intro h
        have hcopy := h.resolve_left (by omega)
        refine ⟨hcopy, ?_⟩
        split
        · refine inside_append.mpr ⟨inside_awBinToStr hbyte (by omega) fun i hi => ?_, hvalue⟩
          rw [within_read]
          omega
        · exact inside_nil

theorem inside_levels {count : Nat} : Inside ZclArray.size sz ((range count).flatMap fun i =>
      [.round i (sz - (pos + 3)), .use .m_level i 1, .read (pos + 3 + 2 * i) 2]) ↔
    count = 0 ∨ count ≤ 10 ∧ pos + 3 + 2 * count ≤ sz := by
  have hroom : ZclArray.m_level.size = 10 := rfl
  simp only [inside_range, inside_cons, within_round, within_use, within_read, inside_nil, and_true,
    hroom]
  constructor
  · intro h
    rcases Nat.eq_zero_or_pos count with hzero | hpos
    · exact Or.inl hzero
    · have hlast := h (count - 1) (by omega)
      omega
  · intro h i hi
    omega

/-- **A power value is inside its bounds exactly for a count that the bytes and the levels bear**:
one below two wraps around. -/
theorem inside_powerAccesses : Inside ZclArray.size sz (powerAccesses f data sz pos) ↔
    2 ≤ get 1 (data.drop pos) ∧ (get 1 (data.drop pos) - 2) / 2 ≤ 10 ∧
      pos + 3 + 2 * ((get 1 (data.drop pos) - 2) / 2) ≤ sz := by
  have hbyte := get_one_lt (data.drop pos)
  have hcount : (decodePowerValue (data.drop pos)).m_count =
      (get 1 (data.drop pos) + 254) % 256 / 2 := rfl
  simp only [powerAccesses, inside_append, inside_cons, within_read, inside_nil, and_true,
    inside_levels]
  constructor
  · rintro ⟨⟨hhead, hlevels⟩, -⟩
    omega
  · intro h
    refine ⟨⟨by omega, by omega⟩, ?_⟩
    split
    · simp only [inside_append, inside_range, inside_cons, within_round, within_use, inside_nil,
        and_true]
      refine ⟨⟨⟨⟨?_, ?_⟩, ?_⟩, ?_⟩, fun i hi => ?_⟩
      iterate 4 exact inside_awSprintf (by simp)
      have hroom : ZclArray.m_level.size = 10 := rfl
      exact ⟨⟨⟨by omega, by omega⟩, inside_awSprintf (by simp)⟩, inside_comma⟩
    · exact inside_nil

theorem decodeValueKind_uint {bytes : Nat} (h : decodeValueKind a = .uint bytes) : bytes ≤ 4 := by
  unfold decodeValueKind at h
  split at h
  · cases h
    decide
  · cases h
    decide
  · cases h
    decide
  · split_ifs at h

/-- **The values are inside their bounds exactly if they fit.** -/
theorem inside_readAttrRespAccesses :
    Inside ZclArray.size sz (readAttrRespAccesses f a data sz pos) ↔ ValueFits data sz a pos := by
  rw [readAttrRespAccesses, inside_append, and_iff_right inside_clat, ValueFits]
  cases hkind : decodeValueKind a with
  | uint bytes => exact inside_uintAccesses (decodeValueKind_uint hkind)
  | metering => exact inside_meteringValueAccesses
  | tic => exact inside_ticAccesses
  | wipaddr => exact inside_wipaddrAccesses
  | desc =>
    rw [inside_cons, within_read, inside_simpleDescAccesses]
    refine and_iff_right_of_imp fun hdesc => ?_
    have hcount : pos + 2 < sz := hdesc.1
    omega
  | descepn => exact inside_descepnAccesses
  | power => exact inside_powerAccesses
  | untreated => exact iff_true_intro inside_nil

end ValueBounds

section MessageBounds

variable {sz epn : Nat} {cmd : ZclCommand} {a : ZclAttribut}

theorem inside_searchAccesses :
    Inside ZclArray.size sz (searchAccesses cmd) ↔ IdFits sz cmd := by
  unfold searchAccesses IdFits
  split
  · simp only [inside_cons, within_read, inside_nil, and_true]
  · split
    · simp only [inside_cons, within_read, inside_nil, and_true]
      omega
    · exact iff_true_intro inside_nil

theorem inside_paramAccesses :
    Inside ZclArray.size sz (paramAccesses f cmd a data sz) ↔ ParamFits data sz cmd a := by
  unfold paramAccesses ParamFits
  split
  · exact inside_readAttrRespAccesses
  · split
    · exact inside_repoConfRqstAccesses
    · exact iff_true_intro inside_nil

theorem pathItems_width (items : List Item) (h : (items.map Item.width).sum < 512) :
    ((pathItems epn cmd a ++ items).map Item.width).sum < 1024 := by
  have hcommand := @length_commandName_le cmd.cm_id
  have hcluster := @length_clusterName_le a.at_cl_id
  have hattribut := @length_attributName_le a.clat
  have hkind : (if cmd.cm_response then "response" else "request").toList.length ≤ 8 := by
    split <;> decide
  simp only [pathItems, cons_append, nil_append, map_cons, Item.width, sum_cons]
  simp only [String.reduceToList, length_cons, length_nil]
  omega

theorem val_offset_of_status : ∀ cmd ∈ tbCommand, cmd.cm_response = true ∧ cmd.cm_stat_offset ≠ 0 →
    cmd.cm_val_offset = 0 ∨ 8 ≤ cmd.cm_val_offset := by decide

theorem inside_attributAccesses (hcmd : cmd ∈ tbCommand) :
    Inside ZclArray.size sz (attributAccesses f epn cmd a data sz) ↔
      AttributFits data sz cmd a := by
  have hpath : Inside ZclArray.size sz (awSprintf f (pathItems epn cmd a)) := by
    have hwidth := @pathItems_width epn cmd a [] (by decide)
    rw [append_nil] at hwidth
    exact inside_awSprintf hwidth
  have hquery : Inside ZclArray.size sz (awSprintf f (pathItems epn cmd a ++ [.text "?"])) :=
    inside_awSprintf (pathItems_width _ (by decide))
  rw [attributAccesses, AttributFits]
  simp only [inside_append, inside_ite, inside_cons, within_read, inside_nil, and_true,
    Nat.succ_le_iff]
  rw [and_assoc]
  refine and_congr_right fun _ => and_congr_right fun _ => ?_
  split
  · next hval =>
    refine iff_of_true ?_ fun h => absurd hval h
    simp only [inside_append, inside_ite]
    refine ⟨⟨⟨hpath, fun _ => ?_⟩, fun _ => ?_⟩, ?_⟩ <;> exact inside_awSprintf (by simp)
  · next hval =>
    split
    · next hsz => exact iff_of_true inside_nil fun _ h => absurd hsz (Nat.not_lt.mpr h)
    · next hsz =>
      have htype : f = true ∧ cmd.cm_response = true ∧ cmd.cm_stat_offset ≠ 0 → 7 + 1 ≤ sz := by
        rintro ⟨-, hstatus⟩
        have := (val_offset_of_status cmd hcmd hstatus).resolve_left hval
        omega
      simp only [inside_append, inside_ite, inside_cons, within_read, inside_paramAccesses]
      constructor
      · rintro ⟨⟨-, hparam⟩, -⟩ - -
        exact hparam
      · intro hparam
        refine ⟨⟨⟨⟨hquery, fun h => ⟨htype h, ?_⟩⟩, fun _ => ?_⟩,
          hparam hval (Nat.le_of_not_lt hsz)⟩, ?_⟩ <;> exact inside_awSprintf (by simp)

/-- **Decoding stays inside its bounds exactly for a message that fits.** -/
theorem inside_decodeAccesses_iff (f : Bool) (bin : List UInt8) :
    Inside ZclArray.size bin.length (decodeAccesses f bin) ↔ FrameFits bin := by
  unfold decodeAccesses FrameFits
  split
  · next hrefused => exact iff_of_true inside_nil (hrefused.imp_right Or.inl)
  · next hsize =>
    rw [not_or] at hsize
    obtain ⟨hpos, hle⟩ := hsize
    have hfirst : Inside ZclArray.size bin.length
        [.read 0 bin.length, .use .m_byte 0 bin.length, .read 0 1] := by
      simp only [inside_cons, within_read, within_use, inside_nil, and_true]
      change 0 + bin.length ≤ bin.length ∧ 0 + bin.length ≤ wZclSize ∧ 0 + 1 ≤ bin.length
      omega
    simp only [inside_append, hfirst, true_and, hpos, hle, false_or]
    split
    · next hflag => exact iff_of_true inside_nil (Or.inl hflag)
    · next hflag =>
      rw [or_iff_right hflag]
      simp only [inside_append, inside_cons, within_read, inside_nil, and_true]
      refine and_congr (by omega) ?_
      cases hcmd : awZclCommand (get 1 ((buffer bin).drop 1)) with
      | none => exact iff_of_true inside_nil fun _ h => (Option.some_ne_none _ h.symm).elim
      | some cmd =>
        have hmem : cmd ∈ tbCommand := mem_of_find?_eq_some hcmd
        simp only [Option.some.injEq, forall_eq']
        split
        · next hcluster => exact iff_of_true inside_nil fun h => absurd h hcluster
        · next hcluster =>
          rw [forall_prop_of_true (not_not.mp hcluster), inside_append, inside_searchAccesses]
          refine and_congr_right fun _ => ?_
          cases searchAttribut cmd (get 2 ((buffer bin).drop 2)) (buffer bin) with
          | error code => exact iff_true_intro inside_nil
          | ok found =>
            cases found with
            | some a => exact inside_attributAccesses hmem
            | none =>
              rw [inside_cons, within_read]
              refine and_iff_left (inside_awSprintf ?_)
              have hcommand := @length_commandName_le cmd.cm_id
              have hname := @length_clusterName_le (get 2 ((buffer bin).drop 2))
              simp only [map_cons, map_nil, Item.width, sum_cons, sum_nil]
              simp only [String.reduceToList, length_cons, length_nil]
              omega

example : Inside ZclArray.size 9
    (decodeAccesses true [0x11, 0x0A, 0x04, 0x02, 0x00, 0x00, 0x29, 0x09, 0xC4]) := by decide

/-- Eight bytes that announce two hundred bytes of teleinformation data: they are read behind the
message and copied where there is room for 170. -/
theorem tic_outside :
    let as := decodeAccesses false [0x11, 0x0A, 0x00, 0x53, 0x00, 0x00, 0x41, 0xC8]
    .read 8 200 ∈ as ∧ .use .m_data 0 200 ∈ as ∧ ¬Inside ZclArray.size 8 as := by decide

end MessageBounds

end Ong.Watteco
