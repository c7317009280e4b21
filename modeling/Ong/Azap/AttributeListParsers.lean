import Ong.Azap.AttributeReadParsers

/-!
# The parsers of attribute lists

The two parsers of report configurations go over the same fields behind the attribute identifier.
Only the first pass asks whether the type is analog; the second one skips a reportable change for
every type.

## Main results

* `passes_readReportConfigCmdRsp`, `passes_configureReportCmd`: what the passes of the parsers do
* `attributeLists_exact_iff`: the four parsers are exact exactly under their conditions
-/

namespace Ong.Azap

open Records UInt8

variable {data bytes : List UInt8}

section ReportCfg

variable {p q : Nat} {direction type : UInt8} {attrId : UInt16} {r : ReportCfg}

theorem countReportCfg_ofNat (hlen : data.length ≤ 235) (hp : p ≤ 240) :
    countReportCfg data direction (ofNat p) =
      if direction = zclSendAttrReports then
        (payloadByte data p).bind fun type =>
          if azapZclIsAnalogDataType type then
            if data.length < p + 5 + (fixedLength type).toNat then .ok none
            else .ok (some (ofNat (p + 5 + (fixedLength type).toNat)))
          else .ok (some (ofNat (p + 5)))
      else .ok (some (ofNat (p + 2))) := by
  have htwo : ofNat p + 2 = ofNat (p + 2) := ofNat_add_ofNat p 2
  have hfive : ofNat p + 5 = ofNat (p + 5) := ofNat_add_ofNat p 5
  have htype : (ofNat p).toNat = p := toNat_ofNat (by omega)
  have hvalue : (ofNat (p + 5)).toNat = p + 5 := toNat_ofNat (by omega)
  unfold countReportCfg
  simp only [htwo, hfive, htype, hvalue]
  split_ifs
  · cases payloadByte data p with
    | error e => rfl
    | ok type =>
      simp only [Except.bind]
      split
      · next hanalog =>
        simp only [dataLength_of_analog hanalog, refused_iff hlen, ofNat_add_value]
      · rfl
  · rfl

theorem reportCfgRecord_nil : reportCfgRecord direction attrId p [] = none := by
  unfold reportCfgRecord
  split_ifs <;> rfl

theorem reportCfgRecord_eq_some (h : reportCfgRecord direction attrId p bytes = some (r, q)) :
    (direction = zclSendAttrReports ∧ ∃ type min0 min1 max0 max1 change,
        bytes = type :: min0 :: min1 :: max0 :: max1 :: change ∧
        ((azapZclIsAnalogDataType type = true ∧ ∃ n, valueLength type change = some n ∧
            q = p + 5 + n ∧ r = ⟨direction, attrId, type, uint16 min0 min1, uint16 max0 max1, 0,
              some (p + 5)⟩) ∨
          (azapZclIsAnalogDataType type = false ∧ q = p + 5 ∧
            r = ⟨direction, attrId, type, uint16 min0 min1, uint16 max0 max1, 0, none⟩))) ∨
      (direction ≠ zclSendAttrReports ∧ ∃ low high rest, bytes = low :: high :: rest ∧ q = p + 2 ∧
        r = ⟨direction, attrId, 0, 0, 0, uint16 low high, none⟩) := by
  unfold reportCfgRecord at h
  dsimp only at h
  split at h
  · next hsend =>
    split at h
    · next type min0 min1 max0 max1 change =>
      refine .inl ⟨hsend, type, min0, min1, max0, max1, change, rfl, ?_⟩
      split at h
      · next hanalog =>
        obtain ⟨n, hn, heq⟩ := Option.map_eq_some_iff.mp h
        obtain ⟨rfl, rfl⟩ := Prod.mk.inj heq
        exact .inl ⟨hanalog, n, hn, rfl, rfl⟩
      · next hdiscrete =>
        obtain ⟨rfl, rfl⟩ := Prod.mk.inj (Option.some.inj h)
        exact .inr ⟨Bool.eq_false_iff.mpr hdiscrete, rfl, rfl⟩
    · cases h
  · next hreceive =>
    split at h
    · next low high rest =>
      obtain ⟨rfl, rfl⟩ := Prod.mk.inj (Option.some.inj h)
      exact .inr ⟨hreceive, low, high, rest, rfl, rfl, rfl⟩
    · cases h

/-- The incomplete records that the first pass refuses: they are of an analog type, and it is
there. -/
def CfgDetected (data : List UInt8) (direction : UInt8) (p : Nat) : Prop :=
  direction = zclSendAttrReports ∧
    ∃ type, payloadByte data p = .ok type ∧ azapZclIsAnalogDataType type = true

/-- Both passes end the record at the same place: the second one finds no value behind the intervals
of a type that is not analog. -/
def CfgAgrees (data : List UInt8) (direction : UInt8) (p : Nat) : Prop :=
  direction = zclSendAttrReports → ∀ type, payloadByte data p = .ok type →
    azapZclIsAnalogDataType type = false → dataLengthAt data type (p + 5) = .ok 0

/-- A record without the position that is no reportable change. -/
def ReportCfg.view (cfg : ReportCfg) : ReportCfg :=
  { cfg with
    reportableChange := if azapZclIsAnalogDataType cfg.dataType then cfg.reportableChange else none }

theorem reportCfg_progress (h : reportCfgRecord direction attrId p (data.drop p) = some (r, q)) :
    p < q ∧ q ≤ data.length := by
  rcases reportCfgRecord_eq_some h with
    ⟨-, type, min0, min1, max0, max1, change, hbytes, hcases⟩ | ⟨-, low, high, rest, hbytes, rfl, -⟩
  · have hlength := length_of_drop hbytes
    simp only [List.length_cons] at hlength
    rcases hcases with ⟨-, n, hn, rfl, -⟩ | ⟨-, rfl, -⟩
    · obtain ⟨size, -, -, hle⟩ := dataLengthAt_of_drop hbytes 5 (by omega) hn
      omega
    · omega
  · have hlength := length_of_drop hbytes
    simp only [List.length_cons] at hlength
    omega

theorem reportCfg_count_record (hlen : data.length ≤ 235)
    (h : reportCfgRecord direction attrId p (data.drop p) = some (r, q)) :
    countReportCfg data direction (ofNat p) = .ok (some (ofNat q)) := by
  have hprogress := reportCfg_progress h
  rw [countReportCfg_ofNat hlen (by omega)]
  rcases reportCfgRecord_eq_some h with
    ⟨hsend, type, min0, min1, max0, max1, change, hbytes, hcases⟩ | ⟨hreceive, -, -, -, -, rfl, -⟩
  · have htype : payloadByte data p = .ok type := payloadByte_of_drop hbytes 0
    have hlength := length_of_drop hbytes
    rw [if_pos hsend, htype]
    simp only [Except.bind]
    rcases hcases with ⟨hanalog, n, hn, rfl, -⟩ | ⟨hdiscrete, rfl, -⟩
    · obtain ⟨size, hsize, rfl, hle⟩ := dataLengthAt_of_drop hbytes 5 (by omega) hn
      obtain rfl := Except.ok.inj ((dataLength_of_analog hanalog _).symm.trans hsize)
      rw [if_pos hanalog, if_neg (by omega)]
    · simp only [hdiscrete, Bool.false_eq_true, if_false]
  · rw [if_neg hreceive]

theorem lt_of_send_none (h : reportCfgRecord zclSendAttrReports attrId p (data.drop p) = none)
    (htype : payloadByte data p = .ok type) :
    data.length < p + 5 + (if azapZclIsAnalogDataType type then (fixedLength type).toNat else 0) := by
  by_contra hnot
  obtain ⟨min0, hmin0⟩ := drop_of_lt (show p + 1 < data.length by omega)
  obtain ⟨min1, hmin1⟩ := drop_of_lt (show p + 2 < data.length by omega)
  obtain ⟨max0, hmax0⟩ := drop_of_lt (show p + 3 < data.length by omega)
  obtain ⟨max1, hmax1⟩ := drop_of_lt (show p + 4 < data.length by omega)
  rw [drop_of_payloadByte htype, hmin0, hmin1, hmax0, hmax1] at h
  simp only [reportCfgRecord, if_true] at h
  by_cases hanalog : azapZclIsAnalogDataType type = true
  · rw [if_pos hanalog] at h hnot
    have hvalue := Option.map_eq_none_iff.mp h
    have hlt := lt_of_valueLength_none (by omega) hvalue (dataLength_of_analog hanalog _)
    omega
  · rw [if_neg hanalog] at h
    cases h

theorem lt_of_receive_none (hreceive : direction ≠ zclSendAttrReports)
    (h : reportCfgRecord direction attrId p (data.drop p) = none) : data.length < p + 2 := by
  by_contra hnot
  obtain ⟨low, hlow⟩ := drop_of_lt (show p < data.length by omega)
  obtain ⟨high, hhigh⟩ := drop_of_lt (show p + 1 < data.length by omega)
  rw [hlow, hhigh] at h
  simp only [reportCfgRecord, if_neg hreceive] at h
  cases h

section

variable (hlen : data.length ≤ 235)

include hlen

theorem reportCfg_count_detected (hp : p ≤ 240)
    (h : reportCfgRecord direction attrId p (data.drop p) = none)
    (hdetected : CfgDetected data direction p) :
    countReportCfg data direction (ofNat p) = .ok none := by
  obtain ⟨rfl, type, htype, hanalog⟩ := hdetected
  have hlt := lt_of_send_none h htype
  rw [if_pos hanalog] at hlt
  rw [countReportCfg_ofNat hlen hp, if_pos rfl, htype]
  simp only [Except.bind, if_pos hanalog, if_pos hlt]

theorem reportCfg_count_broken (hp : p ≤ 240)
    (h : reportCfgRecord direction attrId p (data.drop p) = none)
    (hnot : ¬ CfgDetected data direction p) :
    (∃ e, countReportCfg data direction (ofNat p) = .error e) ∨
      ∃ q, countReportCfg data direction (ofNat p) = .ok (some q) ∧ data.length ≤ q.toNat := by
  rw [countReportCfg_ofNat hlen hp]
  by_cases hsend : direction = zclSendAttrReports
  · obtain rfl := hsend
    cases htype : payloadByte data p with
    | error e => exact .inl ⟨e, rfl⟩
    | ok type =>
      have hdiscrete : ¬ azapZclIsAnalogDataType type = true :=
        fun hanalog => hnot ⟨rfl, type, htype, hanalog⟩
      have hlt := lt_of_send_none h htype
      rw [if_neg hdiscrete] at hlt
      simp only [Except.bind, if_neg hdiscrete]
      refine .inr ⟨_, rfl, ?_⟩
      rw [toNat_ofNat (by omega)]
      omega
  · have hlt := lt_of_receive_none hsend h
    rw [if_neg hsend]
    refine .inr ⟨_, rfl, ?_⟩
    rw [toNat_ofNat (by omega)]
    omega

theorem fillReportCfg_send {min0 min1 max0 max1 : UInt8}
    (hbytes : data.drop p = type :: min0 :: min1 :: max0 :: max1 :: bytes) :
    fillReportCfg data zclSendAttrReports attrId ⟨p, ofNat (data.length - p)⟩ =
      (dataLengthAt data type (p + 5)).map fun size =>
        (⟨zclSendAttrReports, attrId, type, uint16 min0 min1, uint16 max0 max1, 0, some (p + 5)⟩,
          ⟨p + 5 + size.toNat, ofNat (data.length - (p + 5)) - size⟩) := by
  have hmin : data.drop (p + 1) = min0 :: min1 :: max0 :: max1 :: bytes := drop_add_of_drop hbytes 1
  have hmax : data.drop (p + 1 + 2) = max0 :: max1 :: bytes := drop_add_of_drop hbytes 3
  unfold fillReportCfg
  rw [if_pos rfl, parseUint8AndShift_of_drop hlen hbytes]
  simp only [Except.bind, parseUint16AndShift_of_drop hlen hmin, parseUint16AndShift_of_drop hlen hmax]

theorem fillReportCfg_receive (hreceive : direction ≠ zclSendAttrReports) {low high : UInt8}
    (hbytes : data.drop p = low :: high :: bytes) :
    fillReportCfg data direction attrId ⟨p, ofNat (data.length - p)⟩ =
      .ok (⟨direction, attrId, 0, 0, 0, uint16 low high, none⟩,
        ⟨p + 2, ofNat (data.length - (p + 2))⟩) := by
  unfold fillReportCfg
  rw [if_neg hreceive, parseUint16AndShift_of_drop hlen hbytes]
  rfl

theorem reportCfg_fill_record (h : reportCfgRecord direction attrId p (data.drop p) = some (r, q))
    (hagrees : CfgAgrees data direction p) :
    ∃ r', fillReportCfg data direction attrId ⟨p, ofNat (data.length - p)⟩ =
      .ok (r', ⟨q, ofNat (data.length - q)⟩) ∧ r'.view = r := by
  rcases reportCfgRecord_eq_some h with
    ⟨rfl, type, min0, min1, max0, max1, change, hbytes, hcases⟩ |
      ⟨hreceive, low, high, rest, hbytes, rfl, rfl⟩
  · rw [fillReportCfg_send hlen hbytes]
    have hlength := length_of_drop hbytes
    simp only [List.length_cons] at hlength
    rcases hcases with ⟨hanalog, n, hn, rfl, rfl⟩ | ⟨hdiscrete, rfl, rfl⟩
    · obtain ⟨size, hsize, rfl, hle⟩ := dataLengthAt_of_drop hbytes 5 (by omega) hn
      rw [hsize, Except.map, ofNat_sub_value hle]
      refine ⟨_, rfl, ?_⟩
      simp only [ReportCfg.view, hanalog, if_true]
    · have hsize := hagrees rfl type (payloadByte_of_drop hbytes 0) hdiscrete
      rw [hsize, Except.map, ofNat_sub_value (show p + 5 + (0 : UInt8).toNat ≤ _ by
        rw [UInt8.toNat_zero]; omega)]
      refine ⟨_, rfl, ?_⟩
      simp only [ReportCfg.view, hdiscrete, Bool.false_eq_true, if_false]
  · exact ⟨_, fillReportCfg_receive hlen hreceive hbytes, rfl⟩

theorem reportCfg_fill_differs (h : reportCfgRecord direction attrId p (data.drop p) = some (r, q))
    (hdiffers : ¬ CfgAgrees data direction p) :
    (∃ e, fillReportCfg data direction attrId ⟨p, ofNat (data.length - p)⟩ = .error e) ∨
      ∃ r' c, fillReportCfg data direction attrId ⟨p, ofNat (data.length - p)⟩ = .ok (r', c) ∧
        c.data ≠ q := by
  unfold CfgAgrees at hdiffers
  push Not at hdiffers
  obtain ⟨rfl, type', htype', hdiscrete', hne⟩ := hdiffers
  rcases reportCfgRecord_eq_some h with
    ⟨-, type, min0, min1, max0, max1, change, hbytes, hcases⟩ | ⟨hreceive, -⟩
  · obtain rfl := Except.ok.inj (htype'.symm.trans (payloadByte_of_drop hbytes 0))
    rw [fillReportCfg_send hlen hbytes]
    rcases hcases with ⟨hanalog, -⟩ | ⟨-, rfl, -⟩
    · rw [hdiscrete'] at hanalog
      cases hanalog
    · cases hsize : dataLengthAt data type' (p + 5) with
      | error e => exact .inl ⟨e, rfl⟩
      | ok size =>
        refine .inr ⟨_, _, rfl, ?_⟩
        have hpos : size.toNat ≠ 0 := by
          intro hzero
          obtain rfl : size = 0 := UInt8.toNat_inj.mp hzero
          exact hne hsize
        dsimp only
        omega
  · exact absurd rfl hreceive

end

end ReportCfg

section ReadReportConfig

variable {p q : Nat} {r : ReportCfgRspAttr}

theorem countReadReportConfig_ofNat (hp : p ≤ 235) :
    countReadReportConfig data (ofNat p) =
      (payloadByte data p).bind fun status =>
        (payloadByte data (p + 1)).bind fun direction =>
          if status = zclStatusSuccess then countReportCfg data direction (ofNat (p + 4))
          else .ok (some (ofNat (p + 4))) := by
  have hfour : ofNat p + 4 = ofNat (p + 4) := ofNat_add_ofNat p 4
  have hstatus : (ofNat p).toNat = p := toNat_ofNat (by omega)
  unfold countReadReportConfig
  simp only [hfour, hstatus]

theorem readReportConfigRecord_eq_some (h : readReportConfigRecord p (data.drop p) = some (r, q)) :
    ∃ status direction low high,
      data.drop p = status :: direction :: low :: high :: data.drop (p + 4) ∧
      ((status = zclStatusSuccess ∧ ∃ cfg,
          reportCfgRecord direction (uint16 low high) (p + 4) (data.drop (p + 4)) = some (cfg, q) ∧
          r = ⟨status, direction, uint16 low high, some cfg⟩) ∨
        (status ≠ zclStatusSuccess ∧ q = p + 4 ∧
          r = ⟨status, direction, uint16 low high, none⟩)) := by
  generalize hbytes : data.drop p = bytes at h
  unfold readReportConfigRecord at h
  split at h
  · next status direction low high rest =>
    have hrest : data.drop (p + 4) = rest := drop_add_of_drop hbytes 4
    rw [hrest]
    refine ⟨status, direction, low, high, rfl, ?_⟩
    split at h
    · next hstatus =>
      obtain ⟨⟨cfg, q'⟩, hcfg, heq⟩ := Option.map_eq_some_iff.mp h
      obtain ⟨rfl, rfl⟩ := Prod.mk.inj heq
      exact .inl ⟨hstatus, cfg, hcfg, rfl⟩
    · next hstatus =>
      obtain ⟨rfl, rfl⟩ := Prod.mk.inj (Option.some.inj h)
      exact .inr ⟨hstatus, rfl, rfl⟩
  · cases h

/-- The incomplete records that the first pass refuses. -/
def ReadReportConfigDetected (data : List UInt8) (p : Nat) : Prop :=
  payloadByte data p = .ok zclStatusSuccess ∧
    ∃ direction, payloadByte data (p + 1) = .ok direction ∧ CfgDetected data direction (p + 4)

/-- The records that both passes end at the same place. -/
def ReadReportConfigAgrees (data : List UInt8) (p : Nat) : Prop :=
  payloadByte data p = .ok zclStatusSuccess →
    ∀ direction, payloadByte data (p + 1) = .ok direction → CfgAgrees data direction (p + 4)

/-- A record without the position that is no reportable change. -/
def ReportCfgRspAttr.view (r : ReportCfgRspAttr) : ReportCfgRspAttr :=
  { r with cfg := r.cfg.map ReportCfg.view }

theorem fillReadReportConfig_of_drop (hlen : data.length ≤ 235)
    {status direction low high : UInt8}
    (hbytes : data.drop p = status :: direction :: low :: high :: bytes) :
    fillReadReportConfig data ⟨p, ofNat (data.length - p)⟩ =
      if status = zclStatusSuccess then
        (fillReportCfg data direction (uint16 low high)
            ⟨p + 4, ofNat (data.length - (p + 4))⟩).map fun (cfg, c) =>
          (⟨status, direction, uint16 low high, some cfg⟩, c)
      else .ok (⟨status, direction, uint16 low high, none⟩,
        ⟨p + 4, ofNat (data.length - (p + 4))⟩) := by
  have hdirection : data.drop (p + 1) = direction :: low :: high :: bytes := drop_add_of_drop hbytes 1
  have hattrId : data.drop (p + 1 + 1) = low :: high :: bytes := drop_add_of_drop hbytes 2
  unfold fillReadReportConfig
  rw [parseUint8AndShift_of_drop hlen hbytes]
  simp only [Except.bind, parseUint8AndShift_of_drop hlen hdirection,
    parseUint16AndShift_of_drop hlen hattrId]

theorem reportCfg_none_of_read {direction : UInt8}
    (hnone : readReportConfigRecord p (data.drop p) = none)
    (hstatus : payloadByte data p = .ok zclStatusSuccess)
    (hdirection : payloadByte data (p + 1) = .ok direction) :
    ∃ attrId, reportCfgRecord direction attrId (p + 4) (data.drop (p + 4)) = none := by
  by_cases hp : p + 3 < data.length
  · obtain ⟨low, hlow⟩ := drop_of_lt (show p + 2 < data.length by omega)
    obtain ⟨high, hhigh⟩ := drop_of_lt hp
    rw [drop_of_payloadByte hstatus, drop_of_payloadByte hdirection, hlow, hhigh] at hnone
    exact ⟨_, Option.map_eq_none_iff.mp hnone⟩
  · rw [List.drop_eq_nil_of_le (show data.length ≤ p + 4 by omega)]
    exact ⟨0, reportCfgRecord_nil⟩

/-- The two passes over a response with reporting configurations. -/
theorem passes_readReportConfigCmdRsp (hlen : data.length ≤ 235) :
    Passes (countReadReportConfig data) (fillReadReportConfig data) ReportCfgRspAttr.view
      (fun p => readReportConfigRecord p (data.drop p)) data.length (ReadReportConfigDetected data)
      (ReadReportConfigAgrees data) where
  small := hlen
  progress := by
    intro p r q h
    obtain ⟨status, direction, low, high, hbytes, ⟨-, cfg, hcfg, -⟩ | ⟨-, rfl, -⟩⟩ :=
      readReportConfigRecord_eq_some h
    · have := reportCfg_progress hcfg
      omega
    · have hlength := length_of_drop hbytes
      simp only [List.length_cons] at hlength
      omega
  count_record := by
    intro p r q h
    obtain ⟨status, direction, low, high, hbytes, hcases⟩ := readReportConfigRecord_eq_some h
    have hlength := length_of_drop hbytes
    have hstatus : payloadByte data p = .ok status := payloadByte_of_drop hbytes 0
    have hdirection : payloadByte data (p + 1) = .ok direction := payloadByte_of_drop hbytes 1
    rw [countReadReportConfig_ofNat (by omega), hstatus]
    simp only [Except.bind, hdirection]
    rcases hcases with ⟨hsuccess, cfg, hcfg, -⟩ | ⟨hfailure, rfl, -⟩
    · rw [if_pos hsuccess, reportCfg_count_record hlen hcfg]
    · rw [if_neg hfailure]
  count_detected := by
    rintro p hp hnone ⟨hstatus, direction, hdirection, hdetected⟩
    obtain ⟨attrId, hcfg⟩ := reportCfg_none_of_read hnone hstatus hdirection
    rw [countReadReportConfig_ofNat (by omega), hstatus]
    simp only [Except.bind, hdirection, if_true]
    exact reportCfg_count_detected hlen (by omega) hcfg hdetected
  count_broken := by
    intro p hp hnone hnot
    rw [countReadReportConfig_ofNat (by omega)]
    cases hstatus : payloadByte data p with
    | error e => exact .inl ⟨e, rfl⟩
    | ok status =>
      cases hdirection : payloadByte data (p + 1) with
      | error e => exact .inl ⟨e, rfl⟩
      | ok direction =>
        simp only [Except.bind]
        by_cases hsuccess : status = zclStatusSuccess
        · obtain rfl := hsuccess
          obtain ⟨attrId, hcfg⟩ := reportCfg_none_of_read hnone hstatus hdirection
          exact reportCfg_count_broken hlen (by omega) hcfg
            fun hdetected => hnot ⟨hstatus, direction, hdirection, hdetected⟩
        · rw [if_neg hsuccess]
          refine .inr ⟨_, rfl, ?_⟩
          rw [toNat_ofNat (by omega)]
          by_contra hlt
          obtain ⟨low, hlow⟩ := drop_of_lt (show p + 2 < data.length by omega)
          obtain ⟨high, hhigh⟩ := drop_of_lt (show p + 3 < data.length by omega)
          rw [drop_of_payloadByte hstatus, drop_of_payloadByte hdirection, hlow, hhigh] at hnone
          simp only [readReportConfigRecord, if_neg hsuccess] at hnone
          cases hnone
  fill_record := by
    intro p r q h hagrees
    obtain ⟨status, direction, low, high, hbytes, hcases⟩ := readReportConfigRecord_eq_some h
    rw [fillReadReportConfig_of_drop hlen hbytes]
    rcases hcases with ⟨rfl, cfg, hcfg, rfl⟩ | ⟨hfailure, rfl, rfl⟩
    · have hagree := hagrees (payloadByte_of_drop hbytes 0) direction (payloadByte_of_drop hbytes 1)
      obtain ⟨cfg', hfill, rfl⟩ := reportCfg_fill_record hlen hcfg hagree
      rw [if_pos rfl, hfill]
      exact ⟨_, rfl, rfl⟩
    · rw [if_neg hfailure]
      exact ⟨_, rfl, rfl⟩
  fill_differs := by
    intro p r q h hdiffers
    obtain ⟨status, direction, low, high, hbytes, hcases⟩ := readReportConfigRecord_eq_some h
    have hstatus : payloadByte data p = .ok status := payloadByte_of_drop hbytes 0
    have hdirection : payloadByte data (p + 1) = .ok direction := payloadByte_of_drop hbytes 1
    rw [fillReadReportConfig_of_drop hlen hbytes]
    unfold ReadReportConfigAgrees at hdiffers
    push Not at hdiffers
    obtain ⟨hsuccess, direction', hdirection', hdiffer⟩ := hdiffers
    obtain rfl := Except.ok.inj (hdirection.symm.trans hdirection')
    obtain rfl := Except.ok.inj (hstatus.symm.trans hsuccess)
    rcases hcases with ⟨-, cfg, hcfg, rfl⟩ | ⟨hfailure, -⟩
    · rcases reportCfg_fill_differs hlen hcfg hdiffer with ⟨e, he⟩ | ⟨cfg', c, hc, hne⟩
      · rw [he]
        exact .inl ⟨e, rfl⟩
      · rw [hc]
        exact .inr ⟨_, c, rfl, hne⟩
    · exact absurd rfl hfailure

end ReadReportConfig

section ConfigureReport

variable {p q : Nat} {r : ReportCfg}

theorem countConfigureReport_ofNat (hp : p ≤ 235) :
    countConfigureReport data (ofNat p) =
      (payloadByte data p).bind fun direction => countReportCfg data direction (ofNat (p + 3)) := by
  have hthree : ofNat p + 3 = ofNat (p + 3) := ofNat_add_ofNat p 3
  have hdirection : (ofNat p).toNat = p := toNat_ofNat (by omega)
  unfold countConfigureReport
  rw [hthree, hdirection]

theorem configureReportRecord_eq_some (h : configureReportRecord p (data.drop p) = some (r, q)) :
    ∃ direction low high, data.drop p = direction :: low :: high :: data.drop (p + 3) ∧
      reportCfgRecord direction (uint16 low high) (p + 3) (data.drop (p + 3)) = some (r, q) := by
  generalize hbytes : data.drop p = bytes at h
  unfold configureReportRecord at h
  split at h
  · next direction low high rest =>
    have hrest : data.drop (p + 3) = rest := drop_add_of_drop hbytes 3
    rw [hrest]
    exact ⟨direction, low, high, rfl, h⟩
  · cases h

/-- The incomplete records that the first pass refuses. -/
def ConfigureReportDetected (data : List UInt8) (p : Nat) : Prop :=
  ∃ direction, payloadByte data p = .ok direction ∧ CfgDetected data direction (p + 3)

/-- The records that both passes end at the same place. -/
def ConfigureReportAgrees (data : List UInt8) (p : Nat) : Prop :=
  ∀ direction, payloadByte data p = .ok direction → CfgAgrees data direction (p + 3)

theorem reportCfg_none_of_configure {direction : UInt8}
    (hnone : configureReportRecord p (data.drop p) = none)
    (hdirection : payloadByte data p = .ok direction) :
    ∃ attrId, reportCfgRecord direction attrId (p + 3) (data.drop (p + 3)) = none := by
  by_cases hp : p + 2 < data.length
  · obtain ⟨low, hlow⟩ := drop_of_lt (show p + 1 < data.length by omega)
    obtain ⟨high, hhigh⟩ := drop_of_lt hp
    rw [drop_of_payloadByte hdirection, hlow, hhigh] at hnone
    exact ⟨_, hnone⟩
  · rw [List.drop_eq_nil_of_le (show data.length ≤ p + 3 by omega)]
    exact ⟨0, reportCfgRecord_nil⟩

theorem fillConfigureReport_of_drop (hlen : data.length ≤ 235) {direction low high : UInt8}
    (hbytes : data.drop p = direction :: low :: high :: bytes) :
    fillConfigureReport data ⟨p, ofNat (data.length - p)⟩ =
      fillReportCfg data direction (uint16 low high)
        ⟨p + 3, ofNat (data.length - (p + 3))⟩ := by
  have hattrId : data.drop (p + 1) = low :: high :: bytes := drop_add_of_drop hbytes 1
  unfold fillConfigureReport
  rw [parseUint8AndShift_of_drop hlen hbytes]
  simp only [Except.bind, parseUint16AndShift_of_drop hlen hattrId]

/-- The two passes over a command that configures reports. -/
theorem passes_configureReportCmd (hlen : data.length ≤ 235) :
    Passes (countConfigureReport data) (fillConfigureReport data) ReportCfg.view
      (fun p => configureReportRecord p (data.drop p)) data.length (ConfigureReportDetected data)
      (ConfigureReportAgrees data) where
  small := hlen
  progress := by
    intro p r q h
    obtain ⟨direction, low, high, hbytes, hcfg⟩ := configureReportRecord_eq_some h
    have := reportCfg_progress hcfg
    omega
  count_record := by
    intro p r q h
    obtain ⟨direction, low, high, hbytes, hcfg⟩ := configureReportRecord_eq_some h
    have hlength := length_of_drop hbytes
    have hdirection : payloadByte data p = .ok direction := payloadByte_of_drop hbytes 0
    rw [countConfigureReport_ofNat (by omega), hdirection]
    exact reportCfg_count_record hlen hcfg
  count_detected := by
    rintro p hp hnone ⟨direction, hdirection, hdetected⟩
    obtain ⟨attrId, hcfg⟩ := reportCfg_none_of_configure hnone hdirection
    rw [countConfigureReport_ofNat (by omega), hdirection]
    exact reportCfg_count_detected hlen (by omega) hcfg hdetected
  count_broken := by
    intro p hp hnone hnot
    rw [countConfigureReport_ofNat (by omega)]
    cases hdirection : payloadByte data p with
    | error e => exact .inl ⟨e, rfl⟩
    | ok direction =>
      obtain ⟨attrId, hcfg⟩ := reportCfg_none_of_configure hnone hdirection
      exact reportCfg_count_broken hlen (by omega) hcfg
        fun hdetected => hnot ⟨direction, hdirection, hdetected⟩
  fill_record := by
    intro p r q h hagrees
    obtain ⟨direction, low, high, hbytes, hcfg⟩ := configureReportRecord_eq_some h
    rw [fillConfigureReport_of_drop hlen hbytes]
    exact reportCfg_fill_record hlen hcfg (hagrees direction (payloadByte_of_drop hbytes 0))
  fill_differs := by
    intro p r q h hdiffers
    obtain ⟨direction, low, high, hbytes, hcfg⟩ := configureReportRecord_eq_some h
    have hdirection : payloadByte data p = .ok direction := payloadByte_of_drop hbytes 0
    rw [fillConfigureReport_of_drop hlen hbytes]
    unfold ConfigureReportAgrees at hdiffers
    push Not at hdiffers
    obtain ⟨direction', hdirection', hdiffer⟩ := hdiffers
    obtain rfl := Except.ok.inj (hdirection.symm.trans hdirection')
    exact reportCfg_fill_differs hlen hcfg hdiffer

end ConfigureReport

/-! ## The four parsers -/

/-- **The parsers of attribute lists are exact** exactly for these payloads of an AF message:
complete records only, and then the second pass finds no value behind a configuration that has no
reportable change; or a first incomplete record that has what its length depends on. -/
theorem attributeLists_exact_iff (data : List UInt8) (hlen : data.length ≤ 235) :
    (Exact id (fun p => readRspRecord p (data.drop p)) data.length (parseZCLReadCmdRsp data) ↔
      Condition (fun p => readRspRecord p (data.drop p)) data.length (ReadRspDetected data)
        fun _ => True) ∧
    (Exact id (fun p => reportRecord p (data.drop p)) data.length (parseZCLReportCmd data) ↔
      Condition (fun p => reportRecord p (data.drop p)) data.length (ReportDetected data)
        fun _ => True) ∧
    (Exact ReportCfgRspAttr.view (fun p => readReportConfigRecord p (data.drop p)) data.length
        (parseZCLReadReportConfigCmdRsp data) ↔
      Condition (fun p => readReportConfigRecord p (data.drop p)) data.length
        (ReadReportConfigDetected data) (ReadReportConfigAgrees data)) ∧
    (Exact ReportCfg.view (fun p => configureReportRecord p (data.drop p)) data.length
        (parseZCLConfigureReportCmd data) ↔
      Condition (fun p => configureReportRecord p (data.drop p)) data.length
        (ConfigureReportDetected data) (ConfigureReportAgrees data)) :=
  ⟨exact_iff (passes_readCmdRsp hlen), exact_iff (passes_reportCmd hlen),
    exact_iff (passes_readReportConfigCmdRsp hlen), exact_iff (passes_configureReportCmd hlen)⟩

/-- A report of two attributes of one byte is listed exactly. -/
theorem report_of_two_exact :
    Exact id (fun p => reportRecord p (([1, 0, 0x20, 7, 2, 0, 0x10, 1] : List UInt8).drop p)) 8
      (parseZCLReportCmd [1, 0, 0x20, 7, 2, 0, 0x10, 1]) :=
  (attributeLists_exact_iff [1, 0, 0x20, 7, 2, 0, 0x10, 1] (by decide)).2.1.mpr
    ⟨[(0, ⟨1, 0x20, 3⟩, 4), (4, ⟨2, 0x10, 7⟩, 8)], 8,
      .more rfl (.more rfl (.done rfl)), fun _ _ _ => trivial, fun h => absurd rfl h⟩

/-- The configuration of a boolean attribute has no reportable change, and the second pass skips
one. -/
theorem boolean_configuration_overrun :
    ¬ Exact ReportCfg.view
      (fun p => configureReportRecord p (([0, 1, 0, 0x10, 10, 0, 60, 0] : List UInt8).drop p)) 8
      (parseZCLConfigureReportCmd [0, 1, 0, 0x10, 10, 0, 60, 0]) := by
  rintro ⟨result, hresult, -, hlist⟩
  have hparsed : parseZCLConfigureReportCmd [0, 1, 0, 0x10, 10, 0, 60, 0] =
      .ok (some ⟨[⟨0, 1, 0x10, 10, 60, 0, some 8⟩], [8], [9]⟩) := by decide
  obtain rfl := Except.ok.inj (hparsed.symm.trans hresult)
  have hends := (hlist _ rfl).1
  cases hends

end Ong.Azap
