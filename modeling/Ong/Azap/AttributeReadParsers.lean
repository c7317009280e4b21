import Ong.Azap.PayloadBytes

/-!
# The parsers of attribute values

What the passes of the two parsers of attribute values do with the record at a place of the
payload.  A value that goes beyond the end is refused, but the reads before that check are not
checked.

## Main results

* `passes_readCmdRsp`, `passes_reportCmd`: what the passes of the parsers do
-/

namespace Ong.Azap

open UInt8

section ReadRsp

variable {data bytes : List UInt8} {p q : Nat} {r : ReadRspAttr}

theorem countReadRsp_ofNat (hlen : data.length ≤ 235) (hp : p ≤ 235) :
    countReadRsp data (ofNat p) =
      (payloadByte data (p + 2)).bind fun status =>
        if status = zclStatusSuccess then
          (payloadByte data (p + 3)).bind fun type =>
            (dataLengthAt data type (p + 4)).bind fun size =>
              if data.length < p + 4 + size.toNat then .ok none
              else .ok (some (ofNat (p + 4 + size.toNat)))
        else .ok (some (ofNat (p + 3))) := by
  have htwo : ofNat p + 2 = ofNat (p + 2) := ofNat_add_ofNat p 2
  have hthree : ofNat (p + 2) + 1 = ofNat (p + 3) := ofNat_add_ofNat (p + 2) 1
  have hstatus : (ofNat (p + 2)).toNat = p + 2 := toNat_ofNat (by omega)
  have htype : (ofNat (p + 3)).toNat = p + 3 := toNat_ofNat (by omega)
  have hnext : ∀ size : UInt8,
      ofNat (p + 3) + size + 1 = ofNat (p + 4 + size.toNat) := by
    intro size
    rw [ofNat_add_value, show p + 4 + size.toNat = p + 3 + size.toNat + 1 by omega]
    exact ofNat_add_ofNat (p + 3 + size.toNat) 1
  have hcheck : ∀ size : UInt8, ofNat data.length < size ∨
      (ofNat data.length).toNat < size.toNat + (p + 3) + 1 ↔
        data.length < p + 4 + size.toNat := by
    intro size
    rw [Nat.add_assoc size.toNat]
    exact refused_iff hlen
  unfold countReadRsp
  simp only [htwo, hthree, hstatus, htype, hnext, hcheck]

theorem readRspRecord_eq_some (h : readRspRecord p bytes = some (r, q)) :
    ∃ low high status rest, bytes = low :: high :: status :: rest ∧
      ((status = zclStatusSuccess ∧ ∃ type value n, rest = type :: value ∧
          valueLength type value = some n ∧
          r = ⟨uint16 low high, status, some (type, p + 4)⟩ ∧ q = p + 4 + n) ∨
        (status ≠ zclStatusSuccess ∧ r = ⟨uint16 low high, status, none⟩ ∧ q = p + 3)) := by
  unfold readRspRecord at h
  split at h
  · next low high status rest =>
    refine ⟨low, high, status, rest, rfl, ?_⟩
    split at h
    · next hstatus =>
      split at h
      · next type value =>
        obtain ⟨n, hn, heq⟩ := Option.map_eq_some_iff.mp h
        obtain ⟨rfl, rfl⟩ := Prod.mk.inj heq
        exact .inl ⟨hstatus, type, value, n, rfl, hn, rfl, rfl⟩
      · cases h
    · next hstatus =>
      obtain ⟨rfl, rfl⟩ := Prod.mk.inj (Option.some.inj h)
      exact .inr ⟨hstatus, rfl, rfl⟩
  · cases h

/-- The incomplete records that the first pass refuses: the status, the type and what the length of
the value takes are there. -/
def ReadRspDetected (data : List UInt8) (p : Nat) : Prop :=
  ∃ type size, payloadByte data (p + 2) = .ok zclStatusSuccess ∧ payloadByte data (p + 3) = .ok type ∧
    dataLengthAt data type (p + 4) = .ok size

/-- The two passes over the response to a read. -/
theorem passes_readCmdRsp (hlen : data.length ≤ 235) :
    Passes (countReadRsp data) (fillReadRsp data) id (fun p => readRspRecord p (data.drop p))
      data.length (ReadRspDetected data) (fun _ => True) where
  small := hlen
  progress := by
    intro p r q h
    obtain ⟨low, high, status, rest, hbytes, ⟨-, type, value, n, rfl, hn, -, rfl⟩ | ⟨-, -, rfl⟩⟩ :=
      readRspRecord_eq_some h
    · have hlength := length_of_drop hbytes
      simp only [List.length_cons] at hlength
      obtain ⟨size, -, -, hle⟩ := dataLengthAt_of_drop hbytes 4 (by omega) hn
      omega
    · have hlength := length_of_drop hbytes
      simp only [List.length_cons] at hlength
      omega
  count_record := by
    intro p r q h
    obtain ⟨low, high, status, rest, hbytes, hcases⟩ := readRspRecord_eq_some h
    have hlength := length_of_drop hbytes
    have hstatus : payloadByte data (p + 2) = .ok status := payloadByte_of_drop hbytes 2
    rw [countReadRsp_ofNat hlen (by omega), hstatus]
    simp only [Except.bind]
    rcases hcases with ⟨hsuccess, type, value, n, rfl, hn, -, rfl⟩ | ⟨hfailure, -, rfl⟩
    · have htype : payloadByte data (p + 3) = .ok type := payloadByte_of_drop hbytes 3
      simp only [List.length_cons] at hlength
      obtain ⟨size, hsize, rfl, hle⟩ := dataLengthAt_of_drop hbytes 4 (by omega) hn
      rw [if_pos hsuccess, htype]
      simp only [hsize]
      rw [if_neg (by omega)]
    · rw [if_neg hfailure]
  count_detected := by
    rintro p hp hnone ⟨type, size, hstatus, htype, hsize⟩
    obtain ⟨low, high, hdrop⟩ := drop_identifier hstatus
    have hlength := length_of_drop (drop_of_payloadByte htype)
    rw [hdrop, drop_of_payloadByte htype] at hnone
    have hvalue := Option.map_eq_none_iff.mp hnone
    have hlt := lt_of_valueLength_none (by omega) hvalue hsize
    rw [countReadRsp_ofNat hlen (by omega), hstatus]
    simp only [Except.bind, htype, hsize, if_true, if_pos hlt]
  count_broken := by
    intro p hp hnone hnot
    rw [countReadRsp_ofNat hlen (by omega)]
    cases hstatus : payloadByte data (p + 2) with
    | error e => exact .inl ⟨e, rfl⟩
    | ok status =>
      simp only [Except.bind]
      by_cases hsuccess : status = zclStatusSuccess
      · obtain rfl := hsuccess
        cases htype : payloadByte data (p + 3) with
        | error e => exact .inl ⟨e, rfl⟩
        | ok type =>
          cases hsize : dataLengthAt data type (p + 4) with
          | error e =>
            simp only [hsize]
            exact .inl ⟨e, rfl⟩
          | ok size => exact absurd ⟨type, size, hstatus, htype, hsize⟩ hnot
      · obtain ⟨low, high, hdrop⟩ := drop_identifier hstatus
        rw [hdrop] at hnone
        simp only [readRspRecord, if_neg hsuccess] at hnone
        cases hnone
  fill_record := by
    intro p r q h _
    obtain ⟨low, high, status, rest, hbytes, hcases⟩ := readRspRecord_eq_some h
    have hstatus : data.drop (p + 2) = status :: rest := drop_add_of_drop hbytes 2
    unfold fillReadRsp
    rw [parseUint16AndShift_of_drop hlen hbytes]
    simp only [Except.bind, parseUint8AndShift_of_drop hlen hstatus]
    rcases hcases with ⟨hsuccess, type, value, n, rfl, hn, rfl, rfl⟩ | ⟨hfailure, rfl, rfl⟩
    · have htype : data.drop (p + 2 + 1) = type :: value := drop_add_of_drop hbytes 3
      have hlength := length_of_drop htype
      obtain ⟨size, hsize, rfl, hle⟩ := dataLengthAt_of_drop hbytes 4 (by omega) hn
      simp only [if_pos hsuccess, parseUint8AndShift_of_drop hlen htype, hsize, Except.map,
        ofNat_sub_value hle]
      exact ⟨_, rfl, rfl⟩
    · rw [if_neg hfailure]
      exact ⟨_, rfl, rfl⟩
  fill_differs := fun _ _ _ _ hnot => absurd trivial hnot

end ReadRsp

section Report

variable {data bytes : List UInt8} {p q : Nat} {r : ReportAttr}

theorem countReport_ofNat (hlen : data.length ≤ 235) (hp : p ≤ 235) :
    countReport data (ofNat p) =
      (payloadByte data (p + 2)).bind fun type =>
        (dataLengthAt data type (p + 3)).bind fun size =>
          if data.length < p + 3 + size.toNat then .ok none
          else .ok (some (ofNat (p + 3 + size.toNat))) := by
  have htwo : ofNat p + 2 = ofNat (p + 2) := ofNat_add_ofNat p 2
  have hthree : ofNat (p + 2) + 1 = ofNat (p + 3) := ofNat_add_ofNat (p + 2) 1
  have htype : (ofNat (p + 2)).toNat = p + 2 := toNat_ofNat (by omega)
  have hvalue : (ofNat (p + 3)).toNat = p + 3 := toNat_ofNat (by omega)
  unfold countReport
  simp only [htwo, hthree, htype, hvalue, ofNat_add_value, refused_iff hlen]

theorem reportRecord_eq_some (h : reportRecord p bytes = some (r, q)) :
    ∃ low high type value n, bytes = low :: high :: type :: value ∧
      valueLength type value = some n ∧ r = ⟨uint16 low high, type, p + 3⟩ ∧ q = p + 3 + n := by
  unfold reportRecord at h
  split at h
  · next low high type value =>
    obtain ⟨n, hn, heq⟩ := Option.map_eq_some_iff.mp h
    obtain ⟨rfl, rfl⟩ := Prod.mk.inj heq
    exact ⟨low, high, type, value, n, rfl, hn, rfl, rfl⟩
  · cases h

/-- The incomplete records that the first pass refuses: the type and what the length of the value
takes are there. -/
def ReportDetected (data : List UInt8) (p : Nat) : Prop :=
  ∃ type size, payloadByte data (p + 2) = .ok type ∧ dataLengthAt data type (p + 3) = .ok size

/-- The two passes over a report. -/
theorem passes_reportCmd (hlen : data.length ≤ 235) :
    Passes (countReport data) (fillReport data) id (fun p => reportRecord p (data.drop p))
      data.length (ReportDetected data) (fun _ => True) where
  small := hlen
  progress := by
    intro p r q h
    obtain ⟨low, high, type, value, n, hbytes, hn, -, rfl⟩ := reportRecord_eq_some h
    have hlength := length_of_drop hbytes
    simp only [List.length_cons] at hlength
    obtain ⟨size, -, -, hle⟩ := dataLengthAt_of_drop hbytes 3 (by omega) hn
    omega
  count_record := by
    intro p r q h
    obtain ⟨low, high, type, value, n, hbytes, hn, -, rfl⟩ := reportRecord_eq_some h
    have hlength := length_of_drop hbytes
    have htype : payloadByte data (p + 2) = .ok type := payloadByte_of_drop hbytes 2
    simp only [List.length_cons] at hlength
    obtain ⟨size, hsize, rfl, hle⟩ := dataLengthAt_of_drop hbytes 3 (by omega) hn
    rw [countReport_ofNat hlen (by omega), htype]
    simp only [Except.bind, hsize]
    rw [if_neg (by omega)]
  count_detected := by
    rintro p hp hnone ⟨type, size, htype, hsize⟩
    obtain ⟨low, high, hdrop⟩ := drop_identifier htype
    have hlength := length_of_drop (drop_of_payloadByte htype)
    rw [hdrop] at hnone
    have hvalue := Option.map_eq_none_iff.mp hnone
    have hlt := lt_of_valueLength_none (by omega) hvalue hsize
    rw [countReport_ofNat hlen (by omega), htype]
    simp only [Except.bind, hsize, if_pos hlt]
  count_broken := by
    intro p hp hnone hnot
    rw [countReport_ofNat hlen (by omega)]
    cases htype : payloadByte data (p + 2) with
    | error e => exact .inl ⟨e, rfl⟩
    | ok type =>
      cases hsize : dataLengthAt data type (p + 3) with
      | error e =>
        simp only [Except.bind, hsize]
        exact .inl ⟨e, rfl⟩
      | ok size => exact absurd ⟨type, size, htype, hsize⟩ hnot
  fill_record := by
    intro p r q h _
    obtain ⟨low, high, type, value, n, hbytes, hn, rfl, rfl⟩ := reportRecord_eq_some h
    have htype : data.drop (p + 2) = type :: value := drop_add_of_drop hbytes 2
    have hlength := length_of_drop htype
    obtain ⟨size, hsize, rfl, hle⟩ := dataLengthAt_of_drop hbytes 3 (by omega) hn
    unfold fillReport
    rw [parseUint16AndShift_of_drop hlen hbytes]
    simp only [Except.bind, parseUint8AndShift_of_drop hlen htype, hsize, Except.map,
      ofNat_sub_value hle]
    exact ⟨_, rfl, rfl⟩
  fill_differs := fun _ _ _ _ hnot => absurd trivial hnot

end Report

end Ong.Azap
