import Ong.Azap.AttributeReadParsers
import Ong.Azap.ZclAttrValRoundTrip

/-!
# Reports of attribute values

A report whose values were serialized one behind the other, as a listener reads it: the records are
parsed, and each value is deserialized from the place of its data.

## Main results

* `reports_come_back`: the listener gets what the types carry of the values
-/

namespace Ong.Azap

open Records AttrVal List

/-- A value to report, with the two bytes of its attribute identifier. -/
structure Reported where
  low : UInt8
  high : UInt8
  val : AttrVal

/-- The bytes of a record: the value is serialized behind its identifier and its type. -/
def Reported.record (x : Reported) : Except Fault (List UInt8) :=
  (x.val.serialize 255).map fun (_, bs, _) => x.low :: x.high :: x.val.zigbeeDataType :: bs

/-- The payload of a report. -/
def reportPayload : List Reported → Except Fault (List UInt8)
  | [] => .ok []
  | x :: xs => x.record.bind fun bs => (reportPayload xs).map (bs ++ ·)

/-- What `azapTesterZclReportCmdCb` reads of a record, into a new value of its type. -/
def reportedVal (data : List UInt8) (r : ReportAttr) : Except Fault AttrVal :=
  (dataLengthAt data r.dataType r.attrData).bind fun len =>
    ((AttrVal.new r.dataType).deserialize (data.drop r.attrData) len).map (·.1)

section Reports

variable {x : Reported} {xs : List Reported} {data bytes : List UInt8} {p : Nat}

theorem record_read (hv : x.val.Valid) (hcarriable : x.val.Carriable) :
    ∃ bs, x.record = .ok (x.low :: x.high :: x.val.zigbeeDataType :: bs) ∧ ∀ rest,
      valueLength x.val.zigbeeDataType (bs ++ rest) = some bs.length ∧
        ∀ {data p}, data.drop p = bs ++ rest →
          reportedVal data ⟨uint16 x.low x.high, x.val.zigbeeDataType, p⟩ = .ok x.val.carried := by
  obtain ⟨hkind, hknown⟩ := known_of_carriable hv hcarriable
  have hnew := new_valid x.val.zigbeeDataType
  have hkind' : (new x.val.zigbeeDataType).u.valType ≠ .unknown := by
    rw [hnew.kind]
    exact hv.kind ▸ hkind
  obtain ⟨size, hrequired, v', bs, hwrite, -, -⟩ := exists_trips hv hnew rfl [] hcarriable
  refine ⟨bs, ?_, fun rest => ?_⟩
  · have henough : ¬(255 : UInt8) < size := by
      rw [UInt8.lt_iff_toNat_lt]
      exact Nat.not_lt.mpr (Nat.le_of_lt_succ size.toNat_lt)
    rw [Reported.record, serialize, if_neg (not_or.mpr ⟨hkind, hknown⟩), hrequired]
    simp only [Except.bind, if_neg henough, hwrite, Except.map]
  · obtain ⟨size', hrequired', v'', bs', hwrite', hlength, hfound, hread⟩ :=
      exists_trips hv hnew rfl rest hcarriable
    obtain rfl := Except.ok.inj (hrequired.symm.trans hrequired')
    obtain ⟨-, rfl⟩ := Prod.mk.inj (Except.ok.inj (hwrite.symm.trans hwrite'))
    refine ⟨?_, fun {data p} hdrop => ?_⟩
    · rw [valueLength, hfound]
      dsimp only
      rw [if_pos (by rw [← hlength, length_append]; exact Nat.le_add_right _ _), hlength]
    · rw [reportedVal, dataLengthAt_eq, hdrop, hfound]
      simp only [Except.bind, deserialize, if_neg hkind']
      rw [show (new x.val.zigbeeDataType).zigbeeDataType = x.val.zigbeeDataType from rfl,
        hfound]
      simp only [UInt8.lt_irrefl, if_false, hread, Except.map]

/-- The payload from a place on is cut into the records of the values. -/
theorem cut_payload (hxs : ∀ x ∈ xs, x.val.Valid ∧ x.val.Carriable)
    (hbytes : reportPayload xs = .ok bytes) (hdrop : data.drop p = bytes) (hp : p ≤ data.length) :
    ∃ rs, Cut (fun p => reportRecord p (data.drop p)) p rs data.length ∧
      rs.map (fun r => (r.2.1.attrId, reportedVal data r.2.1)) =
        xs.map fun x => (uint16 x.low x.high, .ok x.val.carried) := by
  induction xs generalizing p bytes with
  | nil =>
    obtain rfl := Except.ok.inj hbytes
    have hend : p = data.length := Nat.le_antisymm hp (drop_eq_nil_iff.mp hdrop)
    subst hend
    exact ⟨[], .done (by rw [hdrop]; rfl), rfl⟩
  | cons x xs ih =>
    obtain ⟨hx, hxs⟩ := forall_mem_cons.mp hxs
    obtain ⟨bs, hrecord, hread⟩ := record_read hx.1 hx.2
    rw [reportPayload, hrecord] at hbytes
    obtain ⟨tail, htail, rfl⟩ : ∃ tail, reportPayload xs = .ok tail ∧
        x.low :: x.high :: x.val.zigbeeDataType :: bs ++ tail = bytes := by
      cases htail : reportPayload xs with
      | error e =>
        rw [htail] at hbytes
        cases hbytes
      | ok tail =>
        rw [htail] at hbytes
        exact ⟨tail, rfl, Except.ok.inj hbytes⟩
    obtain ⟨hvalue, hval⟩ := hread tail
    simp only [cons_append] at hdrop
    have hbehind : data.drop (p + 3) = bs ++ tail := drop_add_of_drop hdrop 3
    have hlength := length_of_drop hdrop
    simp only [length_cons, length_append] at hlength
    obtain ⟨rs, hcut, hrs⟩ := ih hxs htail (p := p + 3 + bs.length)
      (by rw [drop_add_of_drop hbehind, drop_left]) (by omega)
    refine ⟨_, .more (r := ⟨uint16 x.low x.high, x.val.zigbeeDataType, p + 3⟩) ?_ hcut, ?_⟩
    · rw [hdrop]
      simp only [reportRecord, hvalue, Option.map_some]
    · rw [map_cons, map_cons, hrs, hval hbehind]

end Reports

end Ong.Azap
