import Ong.Azap.AttributeListsExact

/-!
# The bytes of a payload

What the reads of the parsers see when the bytes at a place of the payload are known.  In a payload
that fits an AF message the sums and differences of the parsers, made in a byte, are those of the
places.

## Main results

* `parseUint8AndShift_of_drop`, `parseUint16AndShift_of_drop`: what is read and shifted
* `dataLengthAt_of_valueLength`, `lt_of_valueLength_none`: complete and incomplete values
-/

namespace Ong.Azap

open List

variable {data bytes : List UInt8} {p n : Nat} {type b low high size : UInt8}

theorem payloadByte_of_drop (h : data.drop p = bytes) (i : Nat) :
    payloadByte data (p + i) = payloadByte bytes i := by
  unfold payloadByte
  rw [← h, getElem?_drop]

theorem drop_add_of_drop (h : data.drop p = bytes) (i : Nat) : data.drop (p + i) = bytes.drop i := by
  rw [← h, drop_drop]

theorem length_of_drop (h : data.drop p = b :: bytes) : data.length = p + bytes.length + 1 := by
  have hlength := congrArg length h
  rw [length_drop, length_cons] at hlength
  omega

theorem drop_of_payloadByte (h : payloadByte data p = .ok b) :
    data.drop p = b :: data.drop (p + 1) := by
  unfold payloadByte at h
  cases hb : data[p]? with
  | none =>
    rw [hb] at h
    cases h
  | some b' =>
    rw [hb] at h
    obtain rfl := Except.ok.inj h
    obtain ⟨hp, rfl⟩ := List.getElem?_eq_some_iff.mp hb
    exact List.drop_eq_getElem_cons hp

theorem drop_of_lt (h : p < data.length) : ∃ b, data.drop p = b :: data.drop (p + 1) :=
  ⟨data[p], List.drop_eq_getElem_cons h⟩

/-- A byte that is read behind an identifier: the two bytes of the identifier are there too. -/
theorem drop_identifier (h : payloadByte data (p + 2) = .ok b) :
    ∃ low high, data.drop p = low :: high :: b :: data.drop (p + 3) := by
  have hlength := length_of_drop (drop_of_payloadByte h)
  obtain ⟨low, hlow⟩ := drop_of_lt (show p < data.length by omega)
  obtain ⟨high, hhigh⟩ := drop_of_lt (show p + 1 < data.length by omega)
  exact ⟨low, high, by rw [hlow, hhigh, drop_of_payloadByte h]⟩

theorem dataLengthAt_eq (data : List UInt8) (type : UInt8) (p : Nat) :
    dataLengthAt data type p =
      azapGetZclDataLength type (some fun j => payloadByte (data.drop p) j) := by
  unfold dataLengthAt
  simp only [payloadByte_of_drop rfl]

/-- A complete value, as both passes measure it. -/
theorem dataLengthAt_of_valueLength (hp : p ≤ data.length)
    (h : valueLength type (data.drop p) = some n) :
    ∃ size : UInt8, dataLengthAt data type p = .ok size ∧ size.toNat = n ∧ p + n ≤ data.length := by
  unfold valueLength at h
  rw [← dataLengthAt_eq] at h
  cases hsize : dataLengthAt data type p with
  | error e =>
    rw [hsize] at h
    cases h
  | ok size =>
    rw [hsize, length_drop] at h
    dsimp only at h
    split at h
    · obtain rfl := Option.some.inj h
      exact ⟨size, rfl, rfl, by omega⟩
    · cases h

/-- A complete value behind the first `k` bytes of a record. -/
theorem dataLengthAt_of_drop (h : data.drop p = bytes) (k : Nat) (hk : p + k ≤ data.length)
    (hn : valueLength type (bytes.drop k) = some n) : ∃ size : UInt8,
      dataLengthAt data type (p + k) = .ok size ∧ size.toNat = n ∧ p + k + n ≤ data.length :=
  dataLengthAt_of_valueLength hk (by rw [drop_add_of_drop h, hn])

/-- A value that is not complete goes beyond the end, or its length does. -/
theorem lt_of_valueLength_none (hp : p ≤ data.length) (h : valueLength type (data.drop p) = none)
    (hsize : dataLengthAt data type p = .ok size) : data.length < p + size.toNat := by
  unfold valueLength at h
  rw [← dataLengthAt_eq, hsize, length_drop] at h
  dsimp only at h
  split at h
  · cases h
  · omega

theorem ofNat_sub_ofNat {k : Nat} (h : p + n ≤ k) :
    UInt8.ofNat (k - p) - UInt8.ofNat n = UInt8.ofNat (k - (p + n)) := by
  have hle : n ≤ k - p := by omega
  rw [← Nat.sub_sub, UInt8.ofNat_sub hle]

theorem parseUint8AndShift_of_drop (hlen : data.length ≤ 235) (h : data.drop p = b :: bytes) :
    parseUint8AndShift data ⟨p, UInt8.ofNat (data.length - p)⟩ =
      .ok (b, ⟨p + 1, UInt8.ofNat (data.length - (p + 1))⟩) := by
  have hlength := length_of_drop h
  have hnot : ¬ UInt8.ofNat (data.length - p) < 1 := by
    rw [UInt8.lt_iff_toNat_lt, toNat_ofNat (by omega), UInt8.toNat_one]
    omega
  have hbyte : payloadByte data p = .ok b := payloadByte_of_drop h 0
  have hrest : UInt8.ofNat (data.length - p) - 1 = UInt8.ofNat (data.length - (p + 1)) :=
    ofNat_sub_ofNat (show p + 1 ≤ data.length by omega)
  unfold parseUint8AndShift
  rw [if_neg hnot, hbyte, hrest]
  rfl

theorem parseUint16AndShift_of_drop (hlen : data.length ≤ 235)
    (h : data.drop p = low :: high :: bytes) :
    parseUint16AndShift data ⟨p, UInt8.ofNat (data.length - p)⟩ =
      .ok (uint16 low high, ⟨p + 2, UInt8.ofNat (data.length - (p + 2))⟩) := by
  have hlength := length_of_drop h
  rw [length_cons] at hlength
  have hnot : ¬ UInt8.ofNat (data.length - p) < 2 := by
    have htwo : (2 : UInt8).toNat = 2 := rfl
    rw [UInt8.lt_iff_toNat_lt, toNat_ofNat (by omega), htwo]
    omega
  have hlow : payloadByte data p = .ok low := payloadByte_of_drop h 0
  have hhigh : payloadByte data (p + 1) = .ok high := payloadByte_of_drop h 1
  have hrest : UInt8.ofNat (data.length - p) - 2 = UInt8.ofNat (data.length - (p + 2)) :=
    ofNat_sub_ofNat (show p + 2 ≤ data.length by omega)
  unfold parseUint16AndShift
  rw [if_neg hnot, hlow, hhigh, hrest]
  rfl

theorem ofNat_sub_value (h : p + size.toNat ≤ data.length) :
    UInt8.ofNat (data.length - p) - size = UInt8.ofNat (data.length - (p + size.toNat)) := by
  rw [← ofNat_sub_ofNat h, UInt8.ofNat_toNat]

theorem ofNat_add_ofNat (p k : Nat) : UInt8.ofNat p + UInt8.ofNat k = UInt8.ofNat (p + k) :=
  (UInt8.ofNat_add p k).symm

theorem ofNat_add_value (p : Nat) (size : UInt8) :
    UInt8.ofNat p + size = UInt8.ofNat (p + size.toNat) := by
  rw [UInt8.ofNat_add, UInt8.ofNat_toNat]

theorem refused_iff (hlen : data.length ≤ 235) :
    UInt8.ofNat data.length < size ∨ (UInt8.ofNat data.length).toNat < size.toNat + p ↔
      data.length < p + size.toNat := by
  rw [UInt8.lt_iff_toNat_lt, toNat_ofNat (by omega)]
  omega

end Ong.Azap
