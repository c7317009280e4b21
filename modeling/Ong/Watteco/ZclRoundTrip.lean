import Mathlib.Data.List.TakeDrop
import Ong.Watteco.Zcl

/-!
# Where the encoder and the decoder of the Watteco messages agree

A message is encoded and decoded again.  Its header comes back, with the direction and the status if
the command carries them; of its parameter, the decoder does not know the reporting configurations
of teleinformation and power, and has no byte value without bytes.

## Main results

* `decode_value_iff`, `decode_config_iff`: the parameters that come back
* `roundTrips_of_condition`: the messages that do
-/

namespace Ong.Watteco

open BigEndian List

/-- The commands with a value. -/
def valueCommands : List Nat := [wCmdReadAttrResp, wCmdWritAttrRqst, wCmdRepoAttrEvnt]

/-- The commands with a reporting configuration. -/
def configCommands : List Nat := [wCmdRepoConfRqst, wCmdReadConfResp]

/-- The commands with neither. -/
def plainCommands : List Nat :=
  [wCmdReadAttrRqst, wCmdReadConfRqst, wCmdRepoConfResp, wCmdCommandRqst]

/-- The commands that carry the status, and those that carry the direction. -/
def statusCommands : List Nat := [wCmdReadAttrResp, wCmdRepoConfResp, wCmdReadConfResp]

def directionCommands : List Nat :=
  [wCmdRepoConfRqst, wCmdRepoConfResp, wCmdReadConfRqst, wCmdReadConfResp]

/-- The parameter of a message, by the member of the union that holds it. -/
inductive Param
  | none
  | uint1 (v : Nat)
  | uint2 (v : Nat)
  | uint4 (v : Nat)
  | byteN (v : List UInt8)
  | metering (v : MeteringValue)
  | tic (v : List UInt8)
  | simpleConfig (nbb : Nat) (cfg : SimpleConfig)
  | meteringConfig (cfg : MeteringConfig)
  | ticConfig (cfg : TicConfig)
  | powerConfig (cfg : PowerConfig)
  deriving DecidableEq

/-- The value of an attribute, when the encoder has an encoding for it. -/
def valueParam (m : ZclMsg) (a : ZclAttribut) : Option Param :=
  if a.at_ssval = 1 then some (.uint1 m.m_uint1_value)
  else if a.at_ssval = 2 then some (.uint2 m.m_uint2_value)
  else if a.at_ssval = 4 then some (.uint4 m.m_uint4_value)
  else if a.at_ssval < 0 then some (.byteN m.m_byteN_value)
  else if a.clat = wClat wCluSimplemeter wAttSimplemeterCurValue then
    some (.metering m.m_metering_value)
  else if a.clat ∈ ticClats then some (.tic m.m_tic_data)
  else none

/-- The reporting configuration of an attribute, when the encoder has an encoding for it. -/
def configParam (m : ZclMsg) (a : ZclAttribut) : Option Param :=
  (encodeConfigKind a.clat).map fun
    | .simple nbb => .simpleConfig nbb m.m_simple_config
    | .metering => .meteringConfig m.m_metering_config
    | .tic => .ticConfig m.m_tic_config
    | .power => .powerConfig m.m_power_config

/-- The parameter of a message by its command and its attribute; none when the encoder has no
encoding for it. -/
def ZclMsg.param (m : ZclMsg) : Option Param :=
  (awZclAttribut m.m_cluster_id m.m_attr_id).bind fun a =>
    if m.m_cmd ∈ valueCommands then valueParam m a
    else if m.m_cmd ∈ configCommands then configParam m a
    else if m.m_cmd ∈ plainCommands then some .none
    else none

/-- The widths of the fields. -/
def Param.Fits : Param → Prop
  | .none => True
  | .uint1 v => v < 256 ^ 1
  | .uint2 v => v < 256 ^ 2
  | .uint4 v => v < 256 ^ 4
  | .byteN v => v.length ≤ wZclSize
  | .metering v => v.m_metersz < 256 ^ 1 ∧ v.m_sumWh < 256 ^ 3 ∧ v.m_sumVarh < 256 ^ 3 ∧
      v.m_count < 256 ^ 2 ∧ v.m_curWh < 256 ^ 2 ∧ v.m_curVarh < 256 ^ 2
  | .tic v => v.length ≤ wZclTicSize
  | .simpleConfig nbb cfg => cfg.m_min_time < 256 ^ 2 ∧ cfg.m_max_time < 256 ^ 2 ∧
      cfg.m_min_change < 256 ^ nbb
  | .meteringConfig cfg => cfg.m_min_time < 256 ^ 2 ∧ cfg.m_max_time < 256 ^ 2 ∧
      cfg.m_metersz < 256 ^ 1 ∧ cfg.m_sumWh < 256 ^ 3 ∧ cfg.m_sumVarh < 256 ^ 3 ∧
      cfg.m_count < 256 ^ 2 ∧ cfg.m_curWh < 256 ^ 2 ∧ cfg.m_curVarh < 256 ^ 2
  | .ticConfig cfg => cfg.m_min_time < 256 ^ 2 ∧ cfg.m_max_time < 256 ^ 2 ∧
      cfg.m_data.length ≤ wZclTicSize
  | .powerConfig cfg => cfg.m_min_time < 256 ^ 2 ∧ cfg.m_max_time < 256 ^ 2 ∧
      cfg.m_mode < 256 ^ 1 ∧ cfg.m_source < 256 ^ 1 ∧
      cfg.m_level.length = sourceCount cfg.m_source ∧ ∀ v ∈ cfg.m_level, v < 256 ^ 2

/-- The parameters that come back: a byte value has bytes, and no more than its attribute; a
metering configuration has a meter size; and of the configurations the decoder does not know, the
one of zeros. -/
def Param.Agrees : Param → Prop
  | .byteN v => v ≠ [] ∧ v.length ≤ 16
  | .meteringConfig cfg => cfg.m_metersz ≠ 0
  | .ticConfig cfg => cfg = ⟨0, 0, []⟩
  | .powerConfig cfg => cfg = ⟨0, 0, 0, 0, []⟩
  | _ => True

/-- The bytes of a parameter behind the type of the attribute. -/
def Param.bytes : Param → List UInt8
  | .none => []
  | .uint1 v => put 1 v
  | .uint2 v => put 2 v
  | .uint4 v => put 4 v
  | .byteN v => put 1 (v.take 16).length ++ v.take 16
  | .metering v => encodeMeteringValue v
  | .tic v => put 1 v.length ++ v
  | .simpleConfig nbb cfg => awZclEncodeSimpleConfig cfg nbb
  | .meteringConfig cfg => awZclEncodeMeteringConfig cfg
  | .ticConfig cfg => awZclEncodeTicConfig cfg
  | .powerConfig cfg => awZclEncodePowerConfig cfg

variable {a : ZclAttribut} {m : ZclMsg} {p : Param}

section Tables

theorem mem_of_awZclAttribut {clid atid : Nat} (h : awZclAttribut clid atid = some a) :
    a ∈ tbAttribut ∧ a.at_cl_id = clid ∧ a.at_id = atid ∧ clid ∈ tbCluster := by
  unfold awZclAttribut at h
  split at h
  · rename_i hcl
    have hmem := mem_of_find?_eq_some h
    have hid := find?_some h
    have hfilter := mem_filter.mp (mem_of_mem_take hmem)
    exact ⟨hfilter.1, of_decide_eq_true hfilter.2, of_decide_eq_true hid, hcl⟩
  · cases h

theorem ssval_cases : ∀ a ∈ tbAttribut, a.at_ssval = 1 ∨ a.at_ssval = 2 ∨ a.at_ssval = 4 ∨
    (a.at_ssval = -16 ∧ a.clat = wClat wCluConfiguration wAttConfigurationWipaddr) ∨
      a.at_ssval = 0 := by
  decide

theorem table_bounds : ∀ a ∈ tbAttribut, a.at_cl_id < 256 ^ 2 ∧ a.at_id < 256 ^ 2 ∧
    a.at_id ≠ 0xFFFF := by
  decide

theorem wipaddr_ne : wClat wCluConfiguration wAttConfigurationWipaddr ≠
      wClat wCluSimplemeter wAttSimplemeterCurValue ∧
    wClat wCluConfiguration wAttConfigurationWipaddr ∉ ticClats := by
  decide

section

variable (h : awZclAttribut m.m_cluster_id m.m_attr_id = some a)

include h

theorem wClat_eq : wClat m.m_cluster_id m.m_attr_id = a.clat := by
  obtain ⟨-, hcl, hid, -⟩ := mem_of_awZclAttribut h
  rw [← hcl, ← hid]
  rfl

theorem encodeReadAttrResp_eq (hp : valueParam m a = some p) :
    awZclEncodeReadAttrResp m = put 1 a.at_type ++ p.bytes := by
  unfold awZclEncodeReadAttrResp
  unfold valueParam at hp
  rw [h, wClat_eq h]
  rcases ssval_cases a (mem_of_awZclAttribut h).1 with hs | hs | hs | ⟨hs, -⟩ | hs
  all_goals simp only [hs] at hp ⊢
  · obtain rfl := Option.some.inj hp
    rfl
  · obtain rfl := Option.some.inj hp
    rfl
  · obtain rfl := Option.some.inj hp
    rfl
  · obtain rfl := Option.some.inj hp
    rfl
  · by_cases hmeter : a.clat = wClat wCluSimplemeter wAttSimplemeterCurValue
    · rw [if_neg (by decide), if_neg (by decide), if_neg (by decide), if_neg (by decide),
        if_pos hmeter] at hp
      obtain rfl := Option.some.inj hp
      rw [if_neg (by decide), if_neg (by decide), if_pos hmeter]
      rfl
    · rw [if_neg (by decide), if_neg (by decide), if_neg (by decide), if_neg (by decide),
        if_neg hmeter] at hp
      split at hp
      · rename_i htic
        obtain rfl := Option.some.inj hp
        rw [if_neg (by decide), if_neg (by decide), if_neg hmeter, if_pos htic]
        rfl
      · cases hp

theorem encodeRepoConfRqst_eq (hp : configParam m a = some p) :
    awZclEncodeRepoConfRqst m = put 1 a.at_type ++ p.bytes := by
  unfold awZclEncodeRepoConfRqst
  rw [h, wClat_eq h]
  obtain ⟨kind, hkind, rfl⟩ := Option.map_eq_some_iff.mp hp
  simp only [hkind]
  cases kind <;> rfl

end

end Tables

section Values

theorem decodeMeteringValue_encode {v : MeteringValue} (h : (Param.metering v).Fits)
    (rest : List UInt8) : awZclDecodeMeteringValue (encodeMeteringValue v ++ rest) = v := by
  obtain ⟨h1, h2, h3, h4, h5, h6⟩ := h
  unfold encodeMeteringValue awZclDecodeMeteringValue
  simp [get_put h1, get_put h2, get_put h3, get_put h4, get_put h5, get_put h6]

theorem take_counted {v rest : List UInt8} (h : v.length < 256) :
    ((put 1 v.length ++ v ++ rest).drop 1).take (get 1 (put 1 v.length ++ v ++ rest)) = v := by
  rw [append_assoc, drop_put, get_put h, take_left]

/-- The fields of the header, and those of the commands. -/
structure SameHead (m m' : ZclMsg) : Prop where
  cmd : m.m_cmd = m'.m_cmd
  epn : m.m_epn = m'.m_epn
  cluster_id : m.m_cluster_id = m'.m_cluster_id
  attr_id : m.m_attr_id = m'.m_attr_id
  direction : m.m_direction = m'.m_direction
  status : m.m_status = m'.m_status

theorem sameHead_decodeReadAttrResp {m m' : ZclMsg} {param : List UInt8} {left : Nat}
    (h : awZclDecodeReadAttrResp a m param left = .ok m') : SameHead m' m := by
  unfold awZclDecodeReadAttrResp at h
  repeat' split at h
  all_goals first
    | (obtain rfl := Except.ok.inj h; exact ⟨rfl, rfl, rfl, rfl, rfl, rfl⟩)
    | cases h

theorem sameHead_decodeRepoConfRqst (a : ZclAttribut) (m : ZclMsg) (param : List UInt8) :
    SameHead (awZclDecodeRepoConfRqst a m param) m := by
  unfold awZclDecodeRepoConfRqst
  split <;> exact ⟨rfl, rfl, rfl, rfl, rfl, rfl⟩

section Decode

variable {param : List UInt8} {left : Nat}

theorem decodeReadAttrResp_uint1 (h : a.at_ssval = 1) : awZclDecodeReadAttrResp a m param left =
    .ok { m with m_uint1_value := get 1 param } := by
  simp only [awZclDecodeReadAttrResp, h]

theorem decodeReadAttrResp_uint2 (h : a.at_ssval = 2) : awZclDecodeReadAttrResp a m param left =
    .ok { m with m_uint2_value := get 2 param } := by
  simp only [awZclDecodeReadAttrResp, h]

theorem decodeReadAttrResp_uint4 (h : a.at_ssval = 4) : awZclDecodeReadAttrResp a m param left =
    .ok { m with m_uint4_value := get 4 param } := by
  simp only [awZclDecodeReadAttrResp, h]

theorem decodeReadAttrResp_wipaddr (h : a.at_ssval = -16)
    (hclat : a.clat = wClat wCluConfiguration wAttConfigurationWipaddr)
    (hle : get 1 param ≤ wZclSize) : awZclDecodeReadAttrResp a m param left =
      if get 1 param = 0 then .error (-3)
      else .ok { m with m_byteN_value := (param.drop 1).take (get 1 param) } := by
  obtain ⟨hmeter, htic⟩ := wipaddr_ne
  unfold awZclDecodeReadAttrResp
  simp only [h, hclat, if_neg hmeter, if_neg htic, if_true]
  rw [if_neg (by decide)]
  by_cases hzero : get 1 param = 0
  · rw [if_pos (Or.inl hzero), if_pos hzero]
  · rw [if_neg (not_or.mpr ⟨hzero, Nat.not_lt.mpr hle⟩), if_neg hzero]

theorem decodeReadAttrResp_metering (h : a.at_ssval = 0)
    (hclat : a.clat = wClat wCluSimplemeter wAttSimplemeterCurValue) :
    awZclDecodeReadAttrResp a m param left =
      .ok { m with m_metering_value := awZclDecodeMeteringValue param } := by
  unfold awZclDecodeReadAttrResp
  simp only [h, if_pos hclat]

theorem decodeReadAttrResp_tic (h : a.at_ssval = 0)
    (hclat : a.clat ≠ wClat wCluSimplemeter wAttSimplemeterCurValue) (htic : a.clat ∈ ticClats) :
    awZclDecodeReadAttrResp a m param left =
      .ok { m with m_tic_data := (param.drop 1).take (get 1 param) } := by
  unfold awZclDecodeReadAttrResp
  simp only [h, if_neg hclat, if_pos htic]

end Decode

theorem exists_ok_iff {m₁ : ZclMsg} {q : Option Param} :
    (∃ m', (.ok m₁ : Except Int ZclMsg) = .ok m' ∧ valueParam m' a = q) ↔ valueParam m₁ a = q := by
  constructor
  · rintro ⟨m', h, hq⟩
    rw [Except.ok.inj h]
    exact hq
  · exact fun h => ⟨m₁, rfl, h⟩

/-- **The values that come back.** -/
theorem decode_value_iff (ha : a ∈ tbAttribut) (hp : valueParam m a = some p) (hfits : p.Fits)
    (m₀ : ZclMsg) (rest : List UInt8) (left : Nat) :
    (∃ m', awZclDecodeReadAttrResp a m₀ (p.bytes ++ rest) left = .ok m' ∧
      valueParam m' a = some p) ↔ p.Agrees := by
  rcases ssval_cases a ha with hs | hs | hs | ⟨hs, hclat⟩ | hs
  · have hvalue : ∀ m, valueParam m a = some (.uint1 m.m_uint1_value) := fun m => by
      rw [valueParam, if_pos hs]
    rw [hvalue] at hp
    obtain rfl := Option.some.inj hp
    rw [decodeReadAttrResp_uint1 hs, exists_ok_iff, hvalue]
    exact iff_of_true (congrArg (some ∘ Param.uint1) (get_put hfits rest)) trivial
  · have hvalue : ∀ m, valueParam m a = some (.uint2 m.m_uint2_value) := fun m => by
      rw [valueParam, hs]
      rfl
    rw [hvalue] at hp
    obtain rfl := Option.some.inj hp
    rw [decodeReadAttrResp_uint2 hs, exists_ok_iff, hvalue]
    exact iff_of_true (congrArg (some ∘ Param.uint2) (get_put hfits rest)) trivial
  · have hvalue : ∀ m, valueParam m a = some (.uint4 m.m_uint4_value) := fun m => by
      rw [valueParam, hs]
      rfl
    rw [hvalue] at hp
    obtain rfl := Option.some.inj hp
    rw [decodeReadAttrResp_uint4 hs, exists_ok_iff, hvalue]
    exact iff_of_true (congrArg (some ∘ Param.uint4) (get_put hfits rest)) trivial
  · have hvalue : ∀ m, valueParam m a = some (.byteN m.m_byteN_value) := fun m => by
      rw [valueParam, hs]
      rfl
    rw [hvalue] at hp
    obtain rfl := Option.some.inj hp
    have hlen : (m.m_byteN_value.take 16).length ≤ 16 := length_take_le _ _
    have hget : get 1 ((Param.byteN m.m_byteN_value).bytes ++ rest) =
        (m.m_byteN_value.take 16).length := by
      rw [Param.bytes, append_assoc, get_put (by omega)]
    have htake : (((Param.byteN m.m_byteN_value).bytes ++ rest).drop 1).take
        (get 1 ((Param.byteN m.m_byteN_value).bytes ++ rest)) = m.m_byteN_value.take 16 :=
      take_counted (by omega)
    rw [decodeReadAttrResp_wipaddr hs hclat (by rw [hget]; exact Nat.le_trans hlen (by decide)), hget]
    by_cases hnil : m.m_byteN_value = []
    · rw [if_pos (by rw [hnil]; rfl)]
      exact iff_of_false nofun fun h => h.1 hnil
    · have hpos : (m.m_byteN_value.take 16).length ≠ 0 := by
        have := length_pos_iff.mpr hnil
        rw [length_take]
        omega
      rw [if_neg hpos, exists_ok_iff, hvalue, ← hget]
      show some (Param.byteN (take _ (drop 1 _))) = _ ↔ _
      rw [htake, Option.some_inj, Param.byteN.injEq, take_eq_self_iff]
      exact (and_iff_right hnil).symm
  · by_cases hmeter : a.clat = wClat wCluSimplemeter wAttSimplemeterCurValue
    · have hvalue : ∀ m, valueParam m a = some (.metering m.m_metering_value) := fun m => by
        rw [valueParam, hs, if_pos hmeter]
        rfl
      rw [hvalue] at hp
      obtain rfl := Option.some.inj hp
      rw [decodeReadAttrResp_metering hs hmeter, exists_ok_iff, hvalue]
      exact iff_of_true (congrArg (some ∘ Param.metering) (decodeMeteringValue_encode hfits rest)) trivial
    · have hvalue : ∀ m, valueParam m a = if a.clat ∈ ticClats then some (.tic m.m_tic_data)
          else none := fun m => by
        rw [valueParam, hs, if_neg hmeter]
        rfl
      by_cases htic : a.clat ∈ ticClats
      · rw [hvalue, if_pos htic] at hp
        obtain rfl := Option.some.inj hp
        rw [decodeReadAttrResp_tic hs hmeter htic, exists_ok_iff, hvalue, if_pos htic]
        have hlen : m.m_tic_data.length < 256 := Nat.lt_of_le_of_lt hfits (by decide)
        exact iff_of_true (congrArg (some ∘ Param.tic) (take_counted hlen)) trivial
      · rw [hvalue, if_neg htic] at hp
        cases hp

end Values

variable {cfg : MeteringConfig} {c : ZclCommand}

section Configs

theorem decodeConfigKind_eq : ∀ a ∈ tbAttribut, decodeConfigKind a.clat =
    match encodeConfigKind a.clat with
    | some (.simple nbb) => some (.simple nbb)
    | some .metering => some .metering
    | _ => none := by
  decide

theorem simple_bytes : ∀ a ∈ tbAttribut, encodeConfigKind a.clat ∈ [some (.simple 1),
    some (.simple 2), some (.simple 4), some .metering, some .tic, some .power, none] := by
  decide

theorem decodeSimpleConfig_encode {cfg : SimpleConfig} {nbb : Nat} (hnbb : nbb = 1 ∨ nbb = 2 ∨ nbb = 4)
    (h : (Param.simpleConfig nbb cfg).Fits) (rest : List UInt8) :
    awZclDecodeSimpleConfig (awZclEncodeSimpleConfig cfg nbb ++ rest) nbb = cfg := by
  obtain ⟨h1, h2, h3⟩ := h
  unfold awZclEncodeSimpleConfig awZclDecodeSimpleConfig
  rcases hnbb with rfl | rfl | rfl <;>
    simp [get_put h1, get_put h2, get_put h3]

theorem decodeMeteringConfig_encode (hsz : cfg.m_metersz ≠ 0) (h : (Param.meteringConfig cfg).Fits)
    (rest : List UInt8) :
    awZclDecodeMeteringConfig (awZclEncodeMeteringConfig cfg ++ rest) = cfg := by
  obtain ⟨h1, h2, h3, h4, h5, h6, h7, h8⟩ := h
  unfold awZclEncodeMeteringConfig awZclDecodeMeteringConfig awZclDecodeMeteringValue
  simp [if_neg hsz, get_put h1, get_put h2, get_put h3, get_put h4, get_put h5, get_put h6,
    get_put h7, get_put h8]

theorem decodeMeteringConfig_zero (hsz : cfg.m_metersz = 0) (rest : List UInt8) :
    (awZclDecodeMeteringConfig (awZclEncodeMeteringConfig cfg ++ rest)).m_metersz = 0x0c := by
  unfold awZclEncodeMeteringConfig awZclDecodeMeteringConfig awZclDecodeMeteringValue
  simp only [if_pos hsz, append_assoc, drop_put]
  exact get_put (by decide) _

/-- **The reporting configurations that come back** into a message without one. -/
theorem decode_config_iff (ha : a ∈ tbAttribut) (hp : configParam m a = some p) (hfits : p.Fits)
    {m₀ : ZclMsg} (htic : m₀.m_tic_config = ⟨0, 0, []⟩) (hpower : m₀.m_power_config = ⟨0, 0, 0, 0, []⟩)
    (rest : List UInt8) :
    configParam (awZclDecodeRepoConfRqst a m₀ (p.bytes ++ rest)) a = some p ↔ p.Agrees := by
  have hdecode := decodeConfigKind_eq a ha
  have hsimple := simple_bytes a ha
  unfold configParam at hp ⊢
  obtain ⟨kind, hkind, rfl⟩ := Option.map_eq_some_iff.mp hp
  rw [hkind] at hdecode hsimple
  rw [hkind]
  unfold awZclDecodeRepoConfRqst
  rw [hdecode, Option.map_some, Option.some_inj]
  cases kind with
  | simple nbb =>
    refine iff_of_true (congrArg (Param.simpleConfig nbb) ?_) trivial
    refine decodeSimpleConfig_encode ?_ hfits rest
    simpa using hsimple
  | metering =>
    show Param.meteringConfig (awZclDecodeMeteringConfig
      (awZclEncodeMeteringConfig m.m_metering_config ++ rest)) = Param.meteringConfig _ ↔
        m.m_metering_config.m_metersz ≠ 0
    rw [Param.meteringConfig.injEq]
    constructor
    · intro h hsz
      have hget := decodeMeteringConfig_zero hsz rest
      rw [h, hsz] at hget
      cases hget
    · exact fun hsz => decodeMeteringConfig_encode hsz hfits rest
  | tic =>
    show Param.ticConfig m₀.m_tic_config = Param.ticConfig _ ↔ m.m_tic_config = _
    rw [htic, Param.ticConfig.injEq]
    exact eq_comm
  | power =>
    show Param.powerConfig m₀.m_power_config = Param.powerConfig _ ↔ m.m_power_config = _
    rw [hpower, Param.powerConfig.injEq]
    exact eq_comm

end Configs

section Header

variable {data rest : List UInt8} {i k v : Nat}

theorem drop_next (h : data.drop i = put k v ++ rest) : data.drop (i + k) = rest := by
  rw [← drop_drop, h, drop_put]

theorem get_here (h : data.drop i = put k v ++ rest) (hv : v < 256 ^ k) : get k (data.drop i) = v := by
  rw [h, get_put hv]

theorem flag_bits : ∀ epn < wZclEpnMax, (0x11 ||| epn <<< 5) < 256 ^ 1 ∧
    (0x11 ||| epn <<< 5) &&& 0x1F = 0x11 ∧ (0x11 ||| epn <<< 5) >>> 5 = epn := by
  decide

/-- The message received, as far as its header goes. -/
def headerMsg (epn size cmd clid : Nat) : ZclMsg :=
  { ZclMsg.zero with m_epn := epn, m_size := size, m_cmd := cmd, m_cluster_id := clid }

/-- **What the decoder does** behind the header. -/
theorem awZclDecode_header {bin : List UInt8} {epn clid : Nat} {cmd : ZclCommand}
    (hlen : 0 < bin.length ∧ bin.length ≤ wZclSize) (hepn : epn < wZclEpnMax)
    (hdata : buffer bin = put 1 (0x11 ||| epn <<< 5) ++ (put 1 cmd.cm_id ++ (put 2 clid ++ rest)))
    (hid : cmd.cm_id < 256 ^ 1) (hcmd : awZclCommand cmd.cm_id = some cmd)
    (hclid : clid < 256 ^ 2) (hcluster : clid ∈ tbCluster) :
    awZclDecode bin =
      match searchAttribut cmd clid (buffer bin) with
      | .error code => .error code
      | .ok none => .ok { headerMsg epn bin.length cmd.cm_id clid with
          m_attr_id := 0xFFFF
          m_cmd_value := get 1 ((buffer bin).drop cmd.cm_val_offset) }
      | .ok (some a) => decodeAttribut cmd a (headerMsg epn bin.length cmd.cm_id clid) (buffer bin) := by
  obtain ⟨hbits, hflag, hshift⟩ := flag_bits epn hepn
  have hget : get 1 (buffer bin) = 0x11 ||| epn <<< 5 := by rw [hdata, get_put hbits]
  have h1 : (buffer bin).drop 1 = put 1 cmd.cm_id ++ (put 2 clid ++ rest) := by rw [hdata, drop_put]
  have h2 : (buffer bin).drop 2 = put 2 clid ++ rest := drop_next h1
  unfold awZclDecode
  rw [if_neg (by omega)]
  simp only [hget, hflag, hshift, get_here h1 hid, hcmd, get_here h2 hclid, hcluster,
    if_neg (Nat.not_le.mpr hepn)]
  rfl

end Header

section Layout

/-- A message whose fields have their widths. -/
structure ZclMsg.Fits (m : ZclMsg) : Prop where
  epn : m.m_epn < wZclEpnMax
  status : m.m_status < 256 ^ 1
  direction : m.m_direction < 256 ^ 1
  param : ∀ p ∈ m.param, p.Fits

theorem drop_buffer (h : m.m_epn < wZclEpnMax) : ∃ rest, buffer (awZclEncode m) =
    put 1 (0x11 ||| m.m_epn <<< 5) ++ (put 1 m.m_cmd ++ (put 2 m.m_cluster_id ++
      (encodeBody m ++ rest))) ∧ (buffer (awZclEncode m)).drop 4 = encodeBody m ++ rest := by
  have hencode : awZclEncode m = put 1 (0x11 ||| m.m_epn <<< 5) ++ (put 1 m.m_cmd ++
      (put 2 m.m_cluster_id ++ encodeBody m)) := by
    rw [awZclEncode, if_neg (Nat.not_le.mpr h)]
  refine ⟨replicate (wZclSize - (awZclEncode m).length) 0, ?_⟩
  have hbuffer : buffer (awZclEncode m) = put 1 (0x11 ||| m.m_epn <<< 5) ++ (put 1 m.m_cmd ++
      (put 2 m.m_cluster_id ++ (encodeBody m ++
        replicate (wZclSize - (awZclEncode m).length) 0))) := by
    unfold buffer
    conv_lhs => rw [hencode]
    simp [hencode]
  refine ⟨hbuffer, ?_⟩
  have h1 : (buffer (awZclEncode m)).drop 1 = put 1 m.m_cmd ++ (put 2 m.m_cluster_id ++ (encodeBody m ++
      replicate (wZclSize - (awZclEncode m).length) 0)) := by rw [hbuffer, drop_put]
  have h2 : (buffer (awZclEncode m)).drop 2 = _ := drop_next h1
  exact drop_next h2

theorem length_awZclEncode (m : ZclMsg) : (awZclEncode m).length = 4 + (encodeBody m).length := by
  unfold awZclEncode
  simp only [length_append, length_put]
  omega

/-- Where a command has its fields, the buffer has those of the message. -/
structure Laid (m : ZclMsg) (p : Param) (c : ZclCommand) (data : List UInt8) : Prop where
  attr : ∃ rest, data.drop c.cm_id_offset = put 2 m.m_attr_id ++ rest
  status : c.cm_stat_offset ≠ 0 → ∃ rest, data.drop c.cm_stat_offset = put 1 m.m_status ++ rest
  direction : c.cm_direction_offset ≠ 0 →
    ∃ rest, data.drop c.cm_direction_offset = put 1 m.m_direction ++ rest
  param : c.cm_val_offset ≠ 0 → c.cm_val_offset + p.bytes.length = (awZclEncode m).length ∧
    ∃ rest, data.drop c.cm_val_offset = p.bytes ++ rest

theorem tbCommand_facts : ∀ c ∈ tbCommand, c.cm_id < 256 ^ 1 ∧ awZclCommand c.cm_id = some c ∧
    ((c.cm_response = true ∧ c.cm_stat_offset ≠ 0) ↔ c.cm_id ∈ statusCommands) ∧
    (c.cm_direction_offset ≠ 0 ↔ c.cm_id ∈ directionCommands) ∧
    (c.cm_id ≠ wCmdCommandRqst → (c.cm_val_offset = 0 ↔ c.cm_id ∈ plainCommands)) := by
  decide

theorem param_eq (ha : awZclAttribut m.m_cluster_id m.m_attr_id = some a) : m.param =
    if m.m_cmd ∈ valueCommands then valueParam m a
    else if m.m_cmd ∈ configCommands then configParam m a
    else if m.m_cmd ∈ plainCommands then some .none
    else none := by
  rw [ZclMsg.param, ha, Option.bind_some]

/-- **The layout of a message**, by its command. -/
theorem laid (hepn : m.m_epn < wZclEpnMax) (ha : awZclAttribut m.m_cluster_id m.m_attr_id = some a)
    (hp : m.param = some p) (hc : c ∈ tbCommand) (hid : c.cm_id = m.m_cmd)
    (hne : m.m_cmd ≠ wCmdCommandRqst) : Laid m p c (buffer (awZclEncode m)) := by
  rw [param_eq ha] at hp
  obtain ⟨rest, -, h4⟩ := drop_buffer hepn
  have hlen := length_awZclEncode m
  simp only [tbCommand, mem_cons, not_mem_nil, or_false] at hc
  rcases hc with rfl | rfl | rfl | rfl | rfl | rfl | rfl | rfl | rfl
  · have hbody : encodeBody m = put 2 m.m_attr_id := by rw [encodeBody, ← hid]; rfl
    rw [hbody] at h4
    exact ⟨⟨_, h4⟩, fun h => absurd rfl h, fun h => absurd rfl h, fun h => absurd rfl h⟩
  · have hvalue : valueParam m a = some p := by rw [← hid] at hp; exact hp
    have hbody : encodeBody m = put 2 m.m_attr_id ++ (put 1 m.m_status ++
        (put 1 a.at_type ++ p.bytes)) := by
      rw [← encodeReadAttrResp_eq ha hvalue, encodeBody, ← hid]
      rfl
    rw [hbody] at h4 hlen
    simp only [append_assoc] at h4
    simp only [length_append, length_put] at hlen
    have h6 : (buffer (awZclEncode m)).drop 6 = _ := drop_next h4
    have h7 : (buffer (awZclEncode m)).drop 7 = _ := drop_next h6
    have hsize : 8 + p.bytes.length = (awZclEncode m).length := by omega
    exact ⟨⟨_, h4⟩, fun _ => ⟨_, h6⟩, fun h => absurd rfl h, fun _ => ⟨hsize, _, drop_next h7⟩⟩
  · have hconfig : configParam m a = some p := by rw [← hid] at hp; exact hp
    have hbody : encodeBody m = put 1 m.m_direction ++ (put 2 m.m_attr_id ++
        (put 1 a.at_type ++ p.bytes)) := by
      rw [← encodeRepoConfRqst_eq ha hconfig, encodeBody, ← hid]
      rfl
    rw [hbody] at h4 hlen
    simp only [append_assoc] at h4
    simp only [length_append, length_put] at hlen
    have h5 : (buffer (awZclEncode m)).drop 5 = _ := drop_next h4
    have h7 : (buffer (awZclEncode m)).drop 7 = _ := drop_next h5
    have hsize : 8 + p.bytes.length = (awZclEncode m).length := by omega
    exact ⟨⟨_, h5⟩, fun h => absurd rfl h, fun _ => ⟨_, h4⟩, fun _ => ⟨hsize, _, drop_next h7⟩⟩
  · have hbody : encodeBody m = put 1 m.m_status ++ (put 1 m.m_direction ++ put 2 m.m_attr_id) := by
      rw [encodeBody, ← hid]
      rfl
    rw [hbody] at h4
    simp only [append_assoc] at h4
    have h5 : (buffer (awZclEncode m)).drop 5 = _ := drop_next h4
    exact ⟨⟨_, drop_next h5⟩, fun _ => ⟨_, h4⟩, fun _ => ⟨_, h5⟩, fun h => absurd rfl h⟩
  · have hbody : encodeBody m = put 1 m.m_direction ++ put 2 m.m_attr_id := by
      rw [encodeBody, ← hid]
      rfl
    rw [hbody] at h4
    simp only [append_assoc] at h4
    exact ⟨⟨_, drop_next h4⟩, fun h => absurd rfl h, fun _ => ⟨_, h4⟩, fun h => absurd rfl h⟩
  · have hconfig : configParam m a = some p := by rw [← hid] at hp; exact hp
    have hbody : encodeBody m = put 1 m.m_status ++ (put 1 m.m_direction ++ (put 2 m.m_attr_id ++
        (put 1 a.at_type ++ p.bytes))) := by
      rw [← encodeRepoConfRqst_eq ha hconfig, encodeBody, ← hid]
      rfl
    rw [hbody] at h4 hlen
    simp only [append_assoc] at h4
    simp only [length_append, length_put] at hlen
    have h5 : (buffer (awZclEncode m)).drop 5 = _ := drop_next h4
    have h6 : (buffer (awZclEncode m)).drop 6 = _ := drop_next h5
    have h8 : (buffer (awZclEncode m)).drop 8 = _ := drop_next h6
    have hsize : 9 + p.bytes.length = (awZclEncode m).length := by omega
    exact ⟨⟨_, h6⟩, fun _ => ⟨_, h4⟩, fun _ => ⟨_, h5⟩, fun _ => ⟨hsize, _, drop_next h8⟩⟩
  all_goals try exact absurd hid.symm hne
  all_goals
    have hvalue : valueParam m a = some p := by rw [← hid] at hp; exact hp
    have hbody : encodeBody m = put 2 m.m_attr_id ++ (put 1 a.at_type ++ p.bytes) := by
      rw [← encodeReadAttrResp_eq ha hvalue, encodeBody, ← hid]
      rfl
    rw [hbody] at h4 hlen
    simp only [append_assoc] at h4
    simp only [length_append, length_put] at hlen
    have h6 : (buffer (awZclEncode m)).drop 6 = _ := drop_next h4
    have hsize : 7 + p.bytes.length = (awZclEncode m).length := by omega
    exact ⟨⟨_, h4⟩, fun h => absurd rfl h, fun h => absurd rfl h, fun _ => ⟨hsize, _, drop_next h6⟩⟩

theorem searchAttribut_of_laid {data : List UInt8} (h : Laid m p c data)
    (ha : awZclAttribut m.m_cluster_id m.m_attr_id = some a) (hc : c ∈ tbCommand)
    (hne : c.cm_id ≠ wCmdCommandRqst) : searchAttribut c m.m_cluster_id data = .ok (some a) := by
  obtain ⟨hmem, -, hid, -⟩ := mem_of_awZclAttribut ha
  obtain ⟨rest, hrest⟩ := h.attr
  have hget := get_here hrest (hid ▸ (table_bounds a hmem).2.1)
  simp only [tbCommand, mem_cons, not_mem_nil, or_false] at hc
  rcases hc with rfl | rfl | rfl | rfl | rfl | rfl | rfl | rfl | rfl
  all_goals try exact absurd rfl hne
  all_goals
    have hfound := ha
    rw [← hget] at hfound
    simp +decide only [searchAttribut, hfound, if_true, if_false]

end Layout

section Sizes

theorem sourceCount_le (source : Nat) : sourceCount source ≤ 5 := length_filter_le _ _

theorem length_bytes_le (h : p.Fits) : p.bytes.length ≤ 175 := by
  cases p with
  | none => decide
  | byteN v =>
    have := length_take_le 16 v
    simp only [Param.bytes, length_append, length_put]
    omega
  | tic v =>
    have hlen : v.length ≤ 170 := h
    simp only [Param.bytes, length_append, length_put]
    omega
  | simpleConfig nbb cfg =>
    simp only [Param.bytes, awZclEncodeSimpleConfig, length_append, length_put]
    split <;> simp
  | ticConfig cfg =>
    have hlen : cfg.m_data.length ≤ 170 := h.2.2
    simp only [Param.bytes, awZclEncodeTicConfig, length_append, length_put]
    omega
  | powerConfig cfg =>
    have hlevels : ((range (sourceCount cfg.m_source)).flatMap fun i =>
        put 2 (cfg.m_level.getD i 0)).length = sourceCount cfg.m_source * 2 := by
      simp [length_flatMap]
    have hcount := sourceCount_le cfg.m_source
    simp only [Param.bytes, awZclEncodePowerConfig, length_append, length_put, hlevels]
    omega
  | uint1 v | uint2 v | uint4 v => simp [Param.bytes]
  | metering v => simp [Param.bytes, encodeMeteringValue]
  | meteringConfig cfg => simp [Param.bytes, awZclEncodeMeteringConfig]

theorem length_encodeBody_plain (h : m.m_cmd ∈ plainCommands) : (encodeBody m).length ≤ 4 := by
  unfold encodeBody
  simp only [plainCommands, mem_cons, not_mem_nil, or_false] at h
  rcases h with h | h | h | h <;> rw [h]
  · exact Nat.le_trans (Nat.le_of_eq (length_put 2 _)) (by decide)
  · show (put 1 m.m_direction ++ put 2 m.m_attr_id).length ≤ 4
    simp
  · show (put 1 m.m_status ++ (put 1 m.m_direction ++ put 2 m.m_attr_id)).length ≤ 4
    simp
  · exact Nat.le_trans (Nat.le_of_eq (length_put 1 _)) (by decide)

theorem length_le (hfits : m.Fits) (ha : awZclAttribut m.m_cluster_id m.m_attr_id = some a)
    (hp : m.param = some p) (hc : c ∈ tbCommand) (hid : c.cm_id = m.m_cmd) :
    0 < (awZclEncode m).length ∧ (awZclEncode m).length ≤ wZclSize := by
  have hsize := length_awZclEncode m
  unfold wZclSize
  by_cases hplain : m.m_cmd ∈ plainCommands
  · have := length_encodeBody_plain hplain
    omega
  · have hne : m.m_cmd ≠ wCmdCommandRqst := fun h => hplain (by rw [h]; decide)
    have hval : c.cm_val_offset ≠ 0 := fun h =>
      hplain (hid ▸ ((tbCommand_facts c hc).2.2.2.2 (hid ▸ hne)).mp h)
    have hoffset : ∀ c ∈ tbCommand, c.cm_val_offset ≤ 9 := by decide
    have hlen := ((laid hfits.epn ha hp hc hid hne).param hval).1
    have hbytes := length_bytes_le (hfits.param p hp)
    have := hoffset c hc
    omega

end Sizes

section RoundTrip

/-- The message decoded from the bytes of a message has the same command, end point, cluster,
attribute, direction and status, and the same parameter. -/
def ZclMsg.RoundTrips (m : ZclMsg) : Prop :=
  ∃ m', awZclDecode (awZclEncode m) = .ok m' ∧ SameHead m' m ∧ m'.param = m.param

/-- **The messages that come back**: the command has an attribute; the direction and the status are
zero unless the command carries them; and the parameter is one that comes back. -/
structure ZclMsg.Agrees (m : ZclMsg) : Prop where
  command : m.m_cmd ≠ wCmdCommandRqst
  direction : m.m_direction = 0 ∨ m.m_cmd ∈ directionCommands
  status : m.m_status = 0 ∨ m.m_cmd ∈ statusCommands
  param : ∀ p ∈ m.param, p.Agrees

theorem mem_commands_of_param (hp : m.param = some p) : m.m_cmd ∈ valueCommands ∨
    m.m_cmd ∈ configCommands ∨ m.m_cmd ∈ plainCommands := by
  obtain ⟨a, -, ha⟩ := Option.bind_eq_some_iff.mp hp
  by_contra hnot
  rw [not_or, not_or] at hnot
  rw [if_neg hnot.1, if_neg hnot.2.1, if_neg hnot.2.2] at ha
  cases ha

theorem exists_command (hp : m.param = some p) : ∃ c ∈ tbCommand, c.cm_id = m.m_cmd := by
  have hall : ∀ k ∈ valueCommands ++ (configCommands ++ plainCommands),
      ∃ c ∈ tbCommand, c.cm_id = k := by decide
  refine hall m.m_cmd ?_
  simpa using mem_commands_of_param hp

/-- The message as far as the fields before the parameter go. -/
def decodedHead (m : ZclMsg) : ZclMsg :=
  { headerMsg m.m_epn (awZclEncode m).length m.m_cmd m.m_cluster_id with
    m_attr_id := m.m_attr_id
    m_status := if m.m_cmd ∈ statusCommands then m.m_status else 0
    m_direction := if m.m_cmd ∈ directionCommands then m.m_direction else 0 }

/-- **What is decoded** from the bytes of a message with an attribute. -/
theorem awZclDecode_awZclEncode (hfits : m.Fits)
    (ha : awZclAttribut m.m_cluster_id m.m_attr_id = some a) (hp : m.param = some p)
    (hc : c ∈ tbCommand) (hid : c.cm_id = m.m_cmd) (hne : m.m_cmd ≠ wCmdCommandRqst) :
    awZclDecode (awZclEncode m) =
      if m.m_cmd ∈ plainCommands then .ok (decodedHead m)
      else decodeParam c a (decodedHead m) ((buffer (awZclEncode m)).drop c.cm_val_offset)
        p.bytes.length := by
  obtain ⟨hmem, hcl, hatid, hcluster⟩ := mem_of_awZclAttribut ha
  obtain ⟨hcmd, hfind, hstat, hdir, hval⟩ := tbCommand_facts c hc
  obtain ⟨rest, hbuffer, -⟩ := drop_buffer hfits.epn
  have hlaid := laid hfits.epn ha hp hc hid hne
  rw [← hid] at hbuffer
  rw [awZclDecode_header (length_le hfits ha hp hc hid) hfits.epn hbuffer hcmd hfind
    (hcl ▸ (table_bounds a hmem).1) hcluster, searchAttribut_of_laid hlaid ha hc (hid ▸ hne)]
  have hstatus : (if c.cm_response ∧ c.cm_stat_offset ≠ 0 then
      get 1 ((buffer (awZclEncode m)).drop c.cm_stat_offset) else 0) =
      if m.m_cmd ∈ statusCommands then m.m_status else 0 := by
    rw [← hid]
    refine ite_congr (propext hstat) (fun h => ?_) fun _ => rfl
    obtain ⟨rest, hrest⟩ := hlaid.status (hstat.mpr h).2
    exact get_here hrest hfits.status
  have hdirection : (if c.cm_direction_offset ≠ 0 then
      get 1 ((buffer (awZclEncode m)).drop c.cm_direction_offset) else 0) =
      if m.m_cmd ∈ directionCommands then m.m_direction else 0 := by
    rw [← hid]
    refine ite_congr (propext hdir) (fun h => ?_) fun _ => rfl
    obtain ⟨rest, hrest⟩ := hlaid.direction (hdir.mpr h)
    exact get_here hrest hfits.direction
  have hhead : { headerMsg m.m_epn (awZclEncode m).length c.cm_id m.m_cluster_id with
      m_attr_id := a.at_id
      m_status := if c.cm_response ∧ c.cm_stat_offset ≠ 0 then
        get 1 ((buffer (awZclEncode m)).drop c.cm_stat_offset) else 0
      m_direction := if c.cm_direction_offset ≠ 0 then
        get 1 ((buffer (awZclEncode m)).drop c.cm_direction_offset) else 0 } = decodedHead m := by
    rw [hstatus, hdirection, hatid, hid]
    rfl
  have hplain := hval (hid ▸ hne)
  rw [hid] at hplain
  show (if c.cm_val_offset = 0 then _ else if _ < c.cm_val_offset then _ else
    decodeParam c a _ _ _) = _
  rw [hhead]
  by_cases h0 : c.cm_val_offset = 0
  · rw [if_pos h0, if_pos (hplain.mp h0)]
  · obtain ⟨hlen, -⟩ := hlaid.param h0
    have hsize : (decodedHead m).m_size = (awZclEncode m).length := rfl
    rw [if_neg h0, if_neg (hplain.not.mp h0), hsize, ← hlen, if_neg (by omega),
      Nat.add_sub_cancel_left]

theorem sameHead_decodedHead_iff : SameHead (decodedHead m) m ↔
    (m.m_direction = 0 ∨ m.m_cmd ∈ directionCommands) ∧
      (m.m_status = 0 ∨ m.m_cmd ∈ statusCommands) := by
  have hcarried : ∀ (v : Nat) (cmds : List Nat),
      (if m.m_cmd ∈ cmds then v else 0) = v ↔ v = 0 ∨ m.m_cmd ∈ cmds := by
    intro v cmds
    by_cases h : m.m_cmd ∈ cmds
    · rw [if_pos h]
      exact iff_of_true rfl (Or.inr h)
    · rw [if_neg h, or_iff_left h]
      exact eq_comm
  rw [← hcarried, ← hcarried]
  exact ⟨fun h => ⟨h.direction, h.status⟩, fun h => ⟨rfl, rfl, rfl, rfl, h.1, h.2⟩⟩

theorem SameHead.trans_iff {m₁ m₂ m₃ : ZclMsg} (h : SameHead m₁ m₂) :
    SameHead m₁ m₃ ↔ SameHead m₂ m₃ :=
  ⟨fun h' => ⟨h.cmd.symm.trans h'.cmd, h.epn.symm.trans h'.epn, h.cluster_id.symm.trans h'.cluster_id,
      h.attr_id.symm.trans h'.attr_id, h.direction.symm.trans h'.direction,
      h.status.symm.trans h'.status⟩,
    fun h' => ⟨h.cmd.trans h'.cmd, h.epn.trans h'.epn, h.cluster_id.trans h'.cluster_id,
      h.attr_id.trans h'.attr_id, h.direction.trans h'.direction, h.status.trans h'.status⟩⟩

theorem param_of_decodedHead {m' : ZclMsg} (h : SameHead m' (decodedHead m))
    (ha : awZclAttribut m.m_cluster_id m.m_attr_id = some a) : m'.param =
      if m.m_cmd ∈ valueCommands then valueParam m' a
      else if m.m_cmd ∈ configCommands then configParam m' a
      else if m.m_cmd ∈ plainCommands then some .none
      else none := by
  have hattr : awZclAttribut m'.m_cluster_id m'.m_attr_id = some a := by
    rw [h.cluster_id, h.attr_id]
    exact ha
  rw [param_eq hattr, h.cmd]
  rfl

theorem sameHead_refl (m : ZclMsg) : SameHead m m := ⟨rfl, rfl, rfl, rfl, rfl, rfl⟩

theorem decoded_iff (hfits : m.Fits) (ha : awZclAttribut m.m_cluster_id m.m_attr_id = some a)
    (hp : m.param = some p) (hne : m.m_cmd ≠ wCmdCommandRqst) :
    m.RoundTrips ↔ SameHead (decodedHead m) m ∧ p.Agrees := by
  obtain ⟨c, hc, hid⟩ := exists_command hp
  have hmem := (mem_of_awZclAttribut ha).1
  have hdecode := awZclDecode_awZclEncode hfits ha hp hc hid hne
  have hp' := hp
  rw [param_eq ha] at hp'
  unfold ZclMsg.RoundTrips
  rw [hdecode, hp]
  by_cases hplain : m.m_cmd ∈ plainCommands
  · have hall : ∀ k ∈ plainCommands, k ∉ valueCommands ∧ k ∉ configCommands := by decide
    obtain ⟨hv, hcfg⟩ := hall _ hplain
    rw [if_neg hv, if_neg hcfg, if_pos hplain] at hp'
    obtain rfl := Option.some.inj hp'
    rw [if_pos hplain, and_iff_left (show Param.none.Agrees from trivial)]
    constructor
    · rintro ⟨m', hm', hhead, -⟩
      rw [Except.ok.inj hm']
      exact hhead
    · intro hhead
      refine ⟨_, rfl, hhead, ?_⟩
      rw [param_of_decodedHead (sameHead_refl _) ha, if_neg hv, if_neg hcfg, if_pos hplain]
  · rw [if_neg hplain]
    have hval : c.cm_val_offset ≠ 0 := fun h =>
      hplain (hid ▸ ((tbCommand_facts c hc).2.2.2.2 (hid ▸ hne)).mp h)
    obtain ⟨-, rest, hrest⟩ := (laid hfits.epn ha hp hc hid hne).param hval
    rw [hrest]
    by_cases hv : m.m_cmd ∈ valueCommands
    · rw [if_pos hv] at hp'
      have hparam : decodeParam c a (decodedHead m) (p.bytes ++ rest) p.bytes.length =
          awZclDecodeReadAttrResp a (decodedHead m) (p.bytes ++ rest) p.bytes.length := by
        have hall : ∀ k ∈ valueCommands, k ∉ [wCmdReadAttrRqst, wCmdReadConfRqst, wCmdRepoConfResp,
            wCmdCommandRqst] ∧ k ∈ [wCmdReadAttrResp, wCmdRepoAttrEvnt, wCmdWritAttrRqst] := by decide
        obtain ⟨h1, h2⟩ := hall _ hv
        rw [decodeParam, hid, if_neg h1, if_pos h2]
      rw [hparam, ← decode_value_iff hmem hp' (hfits.param p hp) (decodedHead m) rest p.bytes.length]
      constructor
      · rintro ⟨m', hm', hhead, hq⟩
        have hsame := sameHead_decodeReadAttrResp hm'
        rw [param_of_decodedHead hsame ha, if_pos hv] at hq
        exact ⟨hsame.trans_iff.mp hhead, m', hm', hq⟩
      · rintro ⟨hhead, m', hm', hq⟩
        have hsame := sameHead_decodeReadAttrResp hm'
        refine ⟨m', hm', hsame.trans_iff.mpr hhead, ?_⟩
        rw [param_of_decodedHead hsame ha, if_pos hv]
        exact hq
    · have hcfg : m.m_cmd ∈ configCommands := by
        rcases mem_commands_of_param hp with h | h | h
        · exact absurd h hv
        · exact h
        · exact absurd h hplain
      rw [if_neg hv, if_pos hcfg] at hp'
      have hparam : decodeParam c a (decodedHead m) (p.bytes ++ rest) p.bytes.length =
          .ok (awZclDecodeRepoConfRqst a (decodedHead m) (p.bytes ++ rest)) := by
        have hall : ∀ k ∈ configCommands, k ∉ [wCmdReadAttrRqst, wCmdReadConfRqst, wCmdRepoConfResp,
            wCmdCommandRqst] ∧ k ∉ [wCmdReadAttrResp, wCmdRepoAttrEvnt, wCmdWritAttrRqst] ∧
            k ∈ [wCmdReadConfResp, wCmdRepoConfRqst] := by decide
        obtain ⟨h1, h2, h3⟩ := hall _ hcfg
        rw [decodeParam, hid, if_neg h1, if_neg h2, if_pos h3]
      have hsame := sameHead_decodeRepoConfRqst a (decodedHead m) (p.bytes ++ rest)
      rw [hparam, ← @decode_config_iff a m p hmem hp' (hfits.param p hp) (decodedHead m) rfl rfl rest]
      have hq := param_of_decodedHead hsame ha
      rw [if_neg hv, if_pos hcfg] at hq
      constructor
      · rintro ⟨m', hm', hhead, hparam'⟩
        obtain rfl := Except.ok.inj hm'
        exact ⟨hsame.trans_iff.mp hhead, hq.symm.trans hparam'⟩
      · rintro ⟨hhead, hparam'⟩
        exact ⟨_, rfl, hsame.trans_iff.mpr hhead, hq.trans hparam'⟩

theorem not_roundTrips_command (hfits : m.Fits)
    (ha : awZclAttribut m.m_cluster_id m.m_attr_id = some a) (hp : m.param = some p)
    (hcmd : m.m_cmd = wCmdCommandRqst) : ¬ m.RoundTrips := by
  obtain ⟨hmem, hcl, hatid, hcluster⟩ := mem_of_awZclAttribut ha
  have hc : (⟨wCmdCommandRqst, false, 0, 4, 0, 0⟩ : ZclCommand) ∈ tbCommand := by decide
  obtain ⟨hlt, hfind, -⟩ := tbCommand_facts _ hc
  obtain ⟨rest, hbuffer, -⟩ := drop_buffer hfits.epn
  rw [hcmd] at hbuffer
  have hdecode := awZclDecode_header (length_le hfits ha hp hc hcmd.symm) hfits.epn hbuffer hlt hfind
    (hcl ▸ (table_bounds a hmem).1) hcluster
  rintro ⟨m', hm', hhead, -⟩
  rw [hdecode] at hm'
  have hattr : (0xFFFF : Nat) = m'.m_attr_id := congrArg ZclMsg.m_attr_id (Except.ok.inj hm')
  exact (table_bounds a hmem).2.2 (hatid.trans (hattr.trans hhead.attr_id).symm)

/-- **The messages that come back from their bytes**: of those the encoder has an encoding for, with
fields of their widths, exactly the ones that agree. -/
theorem roundTrips_of_condition (hparam : m.param.isSome) (hfits : m.Fits) :
    m.RoundTrips ↔ m.Agrees := by
  obtain ⟨p, hp⟩ := Option.isSome_iff_exists.mp hparam
  obtain ⟨a, ha, -⟩ := Option.bind_eq_some_iff.mp hp
  by_cases hcmd : m.m_cmd = wCmdCommandRqst
  · exact iff_of_false (not_roundTrips_command hfits ha hp hcmd) fun h => h.command hcmd
  · rw [decoded_iff hfits ha hp hcmd, sameHead_decodedHead_iff]
    constructor
    · rintro ⟨⟨hdir, hstat⟩, hagrees⟩
      refine ⟨hcmd, hdir, hstat, fun q hq => ?_⟩
      rw [hp] at hq
      exact Option.some.inj hq ▸ hagrees
    · exact fun h => ⟨⟨h.direction, h.status⟩, h.param p hp⟩

/-- Reporting of a temperature is configured. -/
def temperatureReporting : ZclMsg :=
  { ZclMsg.zero with
    m_epn := 2
    m_cmd := wCmdRepoConfRqst
    m_cluster_id := wCluTemperature
    m_attr_id := wAttTemperatureCurValue
    m_simple_config := ⟨60, 3600, 50⟩ }

/-- Reporting of the power is configured. -/
def powerReporting : ZclMsg :=
  { ZclMsg.zero with
    m_cmd := wCmdRepoConfRqst
    m_cluster_id := wCluConfiguration
    m_attr_id := wAttConfigurationPower
    m_power_config := ⟨60, 3600, 1, 1, [100]⟩ }

theorem temperatureReporting_roundTrips : temperatureReporting.RoundTrips := by
  have hparam : temperatureReporting.param = some (.simpleConfig 2 ⟨60, 3600, 50⟩) := by decide +kernel
  refine (roundTrips_of_condition (by rw [hparam]; rfl) ⟨by decide, by decide, by decide, ?_⟩).mpr
    ⟨by decide, Or.inl rfl, Or.inl rfl, ?_⟩
  · intro p hp
    rw [hparam] at hp
    rw [← Option.some.inj hp]
    exact ⟨by decide, by decide, by decide⟩
  · intro p hp
    rw [hparam] at hp
    rw [← Option.some.inj hp]
    trivial

/-- The decoder leaves out the configuration of the power. -/
theorem powerReporting_lost :
    powerReporting.param = some (.powerConfig ⟨60, 3600, 1, 1, [100]⟩) ∧ powerReporting.Fits ∧
      ¬ powerReporting.RoundTrips := by
  have hparam : powerReporting.param = some (.powerConfig ⟨60, 3600, 1, 1, [100]⟩) := by decide +kernel
  refine ⟨hparam, ⟨by decide, by decide, by decide, ?_⟩, ?_⟩
  · intro p hp
    rw [hparam] at hp
    rw [← Option.some.inj hp]
    refine ⟨by decide, by decide, by decide, by decide, by decide, ?_⟩
    intro v hv
    rw [mem_singleton.mp hv]
    decide
  · rintro ⟨m', hm', -, hq⟩
    have hdecode : (awZclDecode (awZclEncode powerReporting)).toOption.map ZclMsg.param =
        some (some (.powerConfig ⟨0, 0, 0, 0, []⟩)) := by decide +kernel
    have hsome : some m'.param = some (some (.powerConfig ⟨0, 0, 0, 0, []⟩)) := by
      rw [hm'] at hdecode
      exact hdecode
    rw [hq, hparam] at hsome
    exact absurd hsome (by decide)

end RoundTrip

end Ong.Watteco
