import Ong.Azap.ZclAttrValBytes

/-!
# Attribute values come back

What is serialized is deserialized to the same value, as far as its type carries the value: of a
date and time, the fields that are sent.

## Main results

* `AttrVal.deserialize_serialize`: the round trip
-/

namespace Ong.Azap

open LittleEndian List UInt8

section Memory

variable {bs rest : List UInt8} {n : Nat}

theorem memcpy_some (bs : List UInt8) : memcpy (some bs) bs.length = .ok bs := by
  unfold memcpy
  rw [Option.getD_some, if_pos (Nat.le_refl _), take_length]

theorem readBytes_append (bs rest : List UInt8) : readBytes (bs ++ rest) bs.length = .ok bs := by
  unfold readBytes memcpy
  rw [Option.getD_some, length_append, if_pos (Nat.le_add_right _ _), take_left]

theorem shiftInt_eq {b : UInt8} (h : b.toNat * 2 ^ n < 2 ^ 31) :
    shiftInt b n = b.toNat * 2 ^ n := by
  have hcast : ((b.toNat : Int) * 2 ^ n) = ((b.toNat * 2 ^ n : Nat) : Int) := by push_cast; rfl
  unfold shiftInt
  rw [hcast]
  exact Int.bmod_eq_of_le (by omega) (by omega)

theorem addBytes_eq {i : Nat} (bs : List UInt8)
    (h : ∀ j b, bs[j]? = some b → i + j = 3 → b.toNat < 128) :
    addBytes i bs = 256 ^ i * value bs := by
  induction bs generalizing i with
  | nil => exact (Int.mul_zero _).symm
  | cons b bs ih =>
    have hrest : ∀ j b', bs[j]? = some b' → i + 1 + j = 3 → b'.toNat < 128 :=
      fun j b' hj hi => h (j + 1) b' hj (by omega)
    have hpow : (2 : Int) ^ (8 * i) = 256 ^ i := by
      rw [Int.pow_mul]
      rfl
    have hfirst : (if i < 4 then shiftInt b (8 * i) else shiftLongLong b (8 * i)) =
        b.toNat * 256 ^ i := by
      have hb := b.toNat_lt
      split
      · next hi =>
        have hsmall : b.toNat * 2 ^ (8 * i) < 2 ^ 31 := by
          obtain rfl | rfl | rfl | rfl : i = 0 ∨ i = 1 ∨ i = 2 ∨ i = 3 := by omega
          · omega
          · omega
          · omega
          · have := h 0 b rfl rfl
            omega
        rw [shiftInt_eq hsmall, hpow]
      · rw [shiftLongLong, hpow]
    rw [addBytes, hfirst, ih hrest, value, Int.pow_succ, Int.mul_add, Int.mul_comm (256 ^ i) b.toNat,
      Int.mul_assoc]

end Memory

section Integers

variable {k : Nat} {n : Int}

theorem addBytes_bytes (h0 : 0 ≤ n) (hlt : n < 256 ^ k) (hsign : 4 ≤ k → n / 2 ^ 31 % 2 = 0) :
    addBytes 0 (bytes k n) = n := by
  have hbyte : ∀ j b, (bytes k n)[j]? = some b → 0 + j = 3 → b.toNat < 128 := by
    intro j b hj hthree
    obtain rfl : j = 3 := by omega
    have hk : 3 < k := by
      have := (List.getElem?_eq_some_iff.mp hj).1
      rwa [length_bytes] at this
    rw [getElem?_bytes n hk] at hj
    obtain rfl := Option.some.inj hj
    have := hsign hk
    rw [toNat_ofNat']
    omega
  rw [addBytes_eq _ hbyte, value_bytes, Int.pow_zero, Int.one_mul, Int.emod_eq_of_lt h0 hlt]

theorem signedTop_and {x : UInt8} (h : x.toNat < 128) (neg : Prop) [Decidable neg] :
    (x ||| (if neg then 0x80 else 0)) &&& 0x7F = x ∧
      ((x ||| (if neg then 0x80 else 0)) &&& 0x80 = 0x80 ↔ neg) := by
  have hall : ∀ t : Fin 256, t.val < 128 →
      (ofFin t ||| 0x80) &&& 0x7F = ofFin t ∧
        (ofFin t ||| 0x80) &&& 0x80 = 0x80 ∧ (ofFin t ||| 0) &&& 0x7F = ofFin t ∧
        (ofFin t ||| 0) &&& 0x80 ≠ 0x80 := by decide +kernel
  obtain ⟨hbits, hsign, hbits', hsign'⟩ := hall x.toFin h
  by_cases hneg : neg
  · rw [if_pos hneg]
    exact ⟨hbits, iff_of_true hsign hneg⟩
  · rw [if_neg hneg]
    exact ⟨hbits', iff_of_false hsign' hneg⟩

theorem addSigned_bytes (hk : k ≤ 3) (hlow : -(128 * 256 ^ k) ≤ n) (hhigh : n < 128 * 256 ^ k) :
    addSigned k (addBytes 0 (bytes k n)) (signedTop k n) = n := by
  have hbits : (ofNat (n / 256 ^ k % 128).toNat).toNat = (n / 256 ^ k % 128).toNat := by
    rw [toNat_ofNat']
    omega
  have hlt : (ofNat (n / 256 ^ k % 128).toNat).toNat < 128 := by
    rw [hbits]
    omega
  obtain ⟨htop, hsign⟩ := signedTop_and hlt (n < 0)
  have hlower : addBytes 0 (bytes k n) = n % 256 ^ k := by
    have hnone : ∀ j b, (bytes k n)[j]? = some b → 0 + j = 3 → b.toNat < 128 := by
      intro j b hj hthree
      have := (List.getElem?_eq_some_iff.mp hj).1
      rw [length_bytes] at this
      omega
    rw [addBytes_eq _ hnone, value_bytes, Int.pow_zero, Int.one_mul]
  have hpow : (2 : Int) ^ (8 * k) = 256 ^ k := by
    rw [Int.pow_mul]
    rfl
  have hshift : shiftInt (ofNat (n / 256 ^ k % 128).toNat) (8 * k) =
      256 ^ k * (n / 256 ^ k % 128) := by
    have hle : (2 : Nat) ^ (8 * k) ≤ 2 ^ 24 := Nat.pow_le_pow_right (by decide) (by omega)
    have hsmall : (ofNat (n / 256 ^ k % 128).toNat).toNat * 2 ^ (8 * k) < 2 ^ 31 :=
      calc _ ≤ 127 * 2 ^ 24 := Nat.mul_le_mul (by omega) hle
        _ < 2 ^ 31 := by decide
    rw [shiftInt_eq hsmall, hbits, hpow, Int.mul_comm, Int.toNat_of_nonneg (by omega)]
  have hborrow : (2 : Int) ^ (8 * k + 7) = 128 * 256 ^ k := by
    rw [Int.pow_add, hpow]
    omega
  unfold addSigned signedTop
  rw [htop, hlower, hshift, hborrow]
  simp only [hsign]
  exact split_sign (Int.pow_pos (by decide)) hlow hhigh

end Integers

/-! ## What the types carry -/

/-- The fields of a date and time that a type sends. -/
def DateTime.carried (type : UInt8) (dt : DateTime) : DateTime :=
  let tm := dt.dateTime
  if type = zclDatatypeTod then
    ⟨{ Tm.zero with hour := tm.hour, min := tm.min, sec := tm.sec }, dt.mseconds / 10 * 10⟩
  else if type = zclDatatypeDate then
    ⟨{ Tm.zero with year := tm.year, mon := tm.mon, mday := tm.mday, wday := tm.wday }, 0⟩
  else ⟨gmtime (timegm tm), 0⟩

/-- A field that fits a byte. -/
def IsByte (i : Int) : Prop := 0 ≤ i ∧ i < 256

/-- The fields that a type sends fit their bytes. -/
def DateTime.Carriable (type : UInt8) (dt : DateTime) : Prop :=
  let tm := dt.dateTime
  if type = zclDatatypeTod then
    IsByte tm.hour ∧ IsByte tm.min ∧ IsByte tm.sec ∧ 0 ≤ dt.mseconds ∧ dt.mseconds < 2560
  else if type = zclDatatypeDate then
    IsByte tm.year ∧ IsByte (tm.mon + 1) ∧ IsByte tm.mday ∧ 0 ≤ tm.wday ∧ tm.wday < 7
  else zigbeeEpoch ≤ timegm tm ∧ timegm tm < zigbeeEpoch + 2 ^ 31

namespace AttrVal

/-- What of a value its type carries: all of it, but for dates and times. -/
def carried (v : AttrVal) : AttrVal :=
  match v.u with
  | .dateTime dt => { v with u := .dateTime (dt.carried v.zigbeeDataType) }
  | _ => v

/-- The values that are carried: the highest bit of a fourth byte is left out, for which the bytes
of unsigned integers do not add up. -/
def Carriable (v : AttrVal) : Prop :=
  match v.u with
  | .boolean _ => True
  | .integer n =>
    v.zigbeeDataType ∈ [zclDatatypeUint32, zclDatatypeUint40, zclDatatypeUint48] → n / 2 ^ 31 % 2 = 0
  | .charString s => ∃ bs, s = some bs ∧ bs.length ≤ 253
  | .dateTime dt => dt.Carriable v.zigbeeDataType
  | .raw r => ∃ bs, r = some bs ∧
    if v.zigbeeDataType ∈ [zclDatatypeOctetStr, zclDatatypeLongOctetStr] then bs.length ≤ 253
    else bs.length = (fixedLength v.zigbeeDataType).toNat
  | .unknown | .float => False

/-- The switches of both calls take a value to bytes and back: `size` is asked for, written, found
in the bytes, and read. -/
def Trips (v w : AttrVal) (rest : List UInt8) (size : UInt8) : Prop :=
  v.requiredSize = .ok size ∧ ∃ v' bs, v.serializeValue size = .ok (v', bs) ∧
    bs.length = size.toNat ∧
    azapGetZclDataLength v.zigbeeDataType (some (payloadByte (bs ++ rest))) = .ok size ∧
    w.deserializeValue (bs ++ rest) size = .ok (v.carried, bs.length)

end AttrVal

section Fixed

variable {type : UInt8} {ε : Type}

theorem dataLength_of_not_string (hshort : type ∉ shortStrings) (hlong : type ∉ longStrings)
    (data : Option (Nat → Except ε UInt8)) :
    azapGetZclDataLength type data = .ok (fixedLength type) := by
  unfold azapGetZclDataLength
  rw [if_neg hshort, if_neg hlong]

theorem fixed_kind (h : valType type = .boolean ∨ valType type = .integer ∨ valType type = .dateTime) :
    type ∉ shortStrings ∧ type ∉ longStrings ∧ fixedLength type ≠ 0 ∧ type ≠ zclDatatypeUnknown := by
  have hall : (ValType.boolean.types ++ ValType.integer.types ++ ValType.dateTime.types).all
      (fun t => decide (t ∉ shortStrings ∧ t ∉ longStrings ∧ fixedLength t ≠ 0 ∧
        t ≠ zclDatatypeUnknown)) = true := by decide
  apply of_decide_eq_true ∘ all_eq_true.mp hall type
  rw [mem_append, mem_append]
  rcases h with h | h | h
  · exact .inl (.inl (mem_types h ValType.noConfusion))
  · exact .inl (.inr (mem_types h ValType.noConfusion))
  · exact .inr (mem_types h ValType.noConfusion)

/-- What the tables say of a type of integers. -/
def integerTables (type : UInt8) : Bool :=
  match integerFormat type with
  | some ⟨true, k⟩ => decide (1 ≤ k ∧ k ≤ 4 ∧ (fixedLength type).toNat = k ∧
    integerRange type = some (-(128 * 256 ^ (k - 1)), 128 * 256 ^ (k - 1) - 1))
  | some ⟨false, k⟩ => decide ((fixedLength type).toNat = k ∧
    integerRange type = some (0, 256 ^ k - 1) ∧
      (4 ≤ k → type ∈ [zclDatatypeUint32, zclDatatypeUint40, zclDatatypeUint48]))
  | none => false

theorem integerTables_eq_true (h : valType type = .integer) : integerTables type = true := by
  have hall : ValType.integer.types.all integerTables = true := by decide
  exact all_eq_true.mp hall type (mem_types h ValType.noConfusion)

theorem deserializeInteger_serializeInteger {n : Int} (h : valType type = .integer)
    (haccepts : Accepts type n)
    (hcarried : type ∈ [zclDatatypeUint32, zclDatatypeUint40, zclDatatypeUint48] → n / 2 ^ 31 % 2 = 0)
    (rest : List UInt8) :
    (serializeInteger type n).length = (fixedLength type).toNat ∧
      deserializeInteger type (serializeInteger type n ++ rest) =
        .ok (n, (serializeInteger type n).length) := by
  have htables := integerTables_eq_true h
  unfold integerTables at htables
  rcases hformat : integerFormat type with _ | ⟨_ | _, k⟩
  · rw [hformat] at htables
    cases htables
  · rw [hformat] at htables
    obtain ⟨hlength, hrange, hwide⟩ := of_decide_eq_true htables
    have hbounds := haccepts _ hrange
    dsimp only at hbounds
    have hread : readBytes (bytes k n ++ rest) k = .ok (bytes k n) := by
      have := readBytes_append (bytes k n) rest
      rwa [length_bytes] at this
    simp only [serializeInteger, deserializeInteger, hformat]
    rw [length_bytes, hlength, hread]
    simp only [Except.map, true_and]
    rw [addBytes_bytes hbounds.1 (by omega) fun hk => hcarried (hwide hk)]
  · rw [hformat] at htables
    obtain ⟨hpos, hle, hlength, hrange⟩ := of_decide_eq_true htables
    have hbounds := haccepts _ hrange
    dsimp only at hbounds
    have hsize : (bytes (k - 1) n ++ [signedTop (k - 1) n]).length = k := by
      rw [length_append, length_bytes, length_singleton]
      omega
    have hlow : readBytes (bytes (k - 1) n ++ ([signedTop (k - 1) n] ++ rest)) (k - 1) =
        .ok (bytes (k - 1) n) := by
      have := readBytes_append (bytes (k - 1) n) ([signedTop (k - 1) n] ++ rest)
      rwa [length_bytes] at this
    have htop : payloadByte (bytes (k - 1) n ++ ([signedTop (k - 1) n] ++ rest)) (k - 1) =
        .ok (signedTop (k - 1) n) := by
      unfold payloadByte
      rw [getElem?_append_right (by rw [length_bytes]), length_bytes,
        Nat.sub_self]
      rfl
    simp only [serializeInteger, deserializeInteger, hformat]
    rw [hsize, append_assoc, hlow, hlength]
    simp only [Except.bind, htop, Except.map, true_and]
    rw [addSigned_bytes (by omega) hbounds.1 (by omega)]

end Fixed

section DateTime

variable {type : UInt8} {dt : DateTime}

theorem toNat_toByte {i : Int} (h : IsByte i) : ((toByte i).toNat : Int) = i := by
  obtain ⟨h0, hlt⟩ := h
  rw [toByte, toNat_ofNat']
  omega

theorem dateTime_types (h : valType type = .dateTime) :
    type = zclDatatypeTod ∨ type = zclDatatypeDate ∨ type = zclDatatypeUtc := by
  simpa only [ValType.types, mem_cons, not_mem_nil, or_false] using
    mem_types h ValType.noConfusion

theorem weekday_mod {wday : Int} (h0 : 0 ≤ wday) (hlt : wday < 7) :
    ((if wday = 0 then 7 else toByte wday).toNat : Int) % 7 = wday := by
  split
  · next hsunday =>
    rw [hsunday]
    rfl
  · rw [toNat_toByte ⟨h0, by omega⟩]
    omega

theorem deserializeDateTime_serializeDateTime (h : valType type = .dateTime)
    (hcarriable : dt.Carriable type) (rest : List UInt8) :
    (serializeDateTime type dt).2.length = (fixedLength type).toNat ∧
      deserializeDateTime type ((serializeDateTime type dt).2 ++ rest) =
        .ok (dt.carried type, (serializeDateTime type dt).2.length) := by
  unfold DateTime.Carriable at hcarriable
  unfold serializeDateTime deserializeDateTime DateTime.carried
  rcases dateTime_types h with rfl | rfl | rfl
  · obtain ⟨hhour, hmin, hsec, hms0, hms⟩ := hcarriable
    have hhundredths : ((toByte (dt.mseconds.tdiv 10)).toNat : Int) = dt.mseconds / 10 := by
      rw [Int.tdiv_eq_ediv_of_nonneg hms0]
      exact toNat_toByte ⟨by omega, by omega⟩
    refine ⟨rfl, ?_⟩
    simp only [if_true, cons_append, payloadByte, getElem?_cons_zero, getElem?_cons_succ,
      Except.bind, Except.map, toNat_toByte hhour, toNat_toByte hmin, toNat_toByte hsec, hhundredths]
    rfl
  · have hne : zclDatatypeDate ≠ zclDatatypeTod := by decide
    rw [if_neg hne, if_pos rfl] at hcarriable
    obtain ⟨hyear, hmon, hmday, hwday0, hwday⟩ := hcarriable
    refine ⟨rfl, ?_⟩
    simp only [if_neg hne, if_true, cons_append, payloadByte, getElem?_cons_zero,
      getElem?_cons_succ, Except.bind, Except.map, toNat_toByte hyear, toNat_toByte hmon,
      toNat_toByte hmday, weekday_mod hwday0 hwday, Int.add_sub_cancel]
    rfl
  · have hne : zclDatatypeUtc ≠ zclDatatypeTod := by decide
    have hne' : zclDatatypeUtc ≠ zclDatatypeDate := by decide
    rw [if_neg hne, if_neg hne'] at hcarriable
    obtain ⟨hge, hlt⟩ := hcarriable
    have hbytes : addBytes 0 (bytes 4 (timegm dt.dateTime - zigbeeEpoch)) =
        timegm dt.dateTime - zigbeeEpoch :=
      addBytes_bytes (by omega) (by omega) (by omega)
    have hread := readBytes_append (bytes 4 (timegm dt.dateTime - zigbeeEpoch)) rest
    rw [length_bytes] at hread
    refine ⟨rfl, ?_⟩
    simp only [if_neg hne, if_neg hne', if_true, hread, Except.map, hbytes,
      length_bytes]
    rw [show zigbeeEpoch + (timegm dt.dateTime - zigbeeEpoch) = timegm dt.dateTime by omega]

end DateTime

section Bytes

variable {short long type size : UInt8} {bs : List UInt8}

theorem short_trip (hsize : size.toNat = bs.length) (rest : List UInt8) :
    serializeBytes short long short (some bs) (size + 1) = .ok (size :: bs) ∧
      deserializeBytes short long short (size :: bs ++ rest) (size + 1) =
        .ok (bs, size, bs.length + 1) := by
  have hminus : size + 1 - 1 = size := UInt8.add_sub_cancel size 1
  unfold serializeBytes deserializeBytes
  rw [if_pos rfl, if_pos rfl, hminus, hsize, memcpy_some, cons_append, drop_succ_cons,
    drop_zero, readBytes_append, Nat.add_comm]
  exact ⟨rfl, rfl⟩

theorem long_trip (hne : long ≠ short) (hsize : size.toNat = bs.length) (rest : List UInt8) :
    serializeBytes short long long (some bs) (size + 2) = .ok (size :: 0 :: bs) ∧
      deserializeBytes short long long (size :: 0 :: bs ++ rest) (size + 2) =
        .ok (bs, size, bs.length + 2) := by
  have hminus : size + 2 - 2 = size := UInt8.add_sub_cancel size 2
  unfold serializeBytes deserializeBytes
  rw [if_neg hne, if_neg hne, if_pos rfl, if_pos rfl, hminus, hsize, memcpy_some, cons_append,
    cons_append, drop_succ_cons, drop_succ_cons, drop_zero, readBytes_append,
    Nat.add_comm]
  exact ⟨rfl, rfl⟩

theorem plain_trip (hshort : type ≠ short) (hlong : type ≠ long) (hsize : size.toNat = bs.length)
    (rest : List UInt8) :
    serializeBytes short long type (some bs) size = .ok bs ∧
      deserializeBytes short long type (bs ++ rest) size = .ok (bs, size, bs.length) := by
  unfold serializeBytes deserializeBytes
  rw [if_neg hshort, if_neg hshort, if_neg hlong, if_neg hlong, hsize, memcpy_some, readBytes_append]
  exact ⟨rfl, rfl⟩

theorem length_short (hsize : size.toNat = bs.length) (hbs : bs.length ≤ 253) :
    (size + 1).toNat = (size :: bs).length := by
  have hone : (1 : UInt8).toNat = 1 := rfl
  rw [UInt8.toNat_add, hone, length_cons]
  omega

theorem length_long (hsize : size.toNat = bs.length) (hbs : bs.length ≤ 253) :
    (size + 2).toNat = (size :: 0 :: bs).length := by
  have htwo : (2 : UInt8).toNat = 2 := rfl
  rw [UInt8.toNat_add, htwo, length_cons, length_cons]
  omega

theorem dataLength_short (h : type ∈ shortStrings) (rest : List UInt8) :
    azapGetZclDataLength type (some (payloadByte (size :: bs ++ rest))) = .ok (size + 1) := by
  unfold azapGetZclDataLength
  rw [if_pos h]
  rfl

theorem dataLength_long (hshort : type ∉ shortStrings) (h : type ∈ longStrings) (rest : List UInt8) :
    azapGetZclDataLength type (some (payloadByte (size :: 0 :: bs ++ rest))) = .ok (size + 2) := by
  unfold azapGetZclDataLength
  rw [if_neg hshort, if_pos h]
  rfl

end Bytes

/-! ## Values -/

namespace AttrVal

variable {v w : AttrVal}

section Sizes

theorem requiredSize_fixed (hshort : v.zigbeeDataType ∉ shortStrings)
    (hlong : v.zigbeeDataType ∉ longStrings) (hne : fixedLength v.zigbeeDataType ≠ 0) :
    v.requiredSize = .ok (fixedLength v.zigbeeDataType) := by
  unfold requiredSize
  rw [dataLength_of_not_string hshort hlong, Except.map, if_neg hne]

theorem requiredSize_short (h : v.zigbeeDataType ∈ shortStrings) :
    v.requiredSize = .ok (v.valueSize + 1) := by
  unfold requiredSize azapGetZclDataLength
  simp only [if_pos h, Except.map, if_true]

theorem requiredSize_long (hshort : v.zigbeeDataType ∉ shortStrings)
    (h : v.zigbeeDataType ∈ longStrings) : v.requiredSize = .ok (v.valueSize + 2) := by
  unfold requiredSize azapGetZclDataLength
  simp only [if_neg hshort, if_pos h, Except.map, if_true]

/-- The bytes of a value are written and read, as `Trips` says of the value itself. -/
def BytesTrip (short long : UInt8) (v : AttrVal) (bs rest : List UInt8) : Prop :=
  ∃ size written, v.requiredSize = .ok size ∧
    serializeBytes short long v.zigbeeDataType (some bs) size = .ok written ∧
    written.length = size.toNat ∧
    azapGetZclDataLength v.zigbeeDataType (some (payloadByte (written ++ rest))) = .ok size ∧
    deserializeBytes short long v.zigbeeDataType (written ++ rest) size =
      .ok (bs, v.valueSize, written.length)

variable {short long : UInt8} {bs : List UInt8}

theorem bytesTrip_sized (hshort : short ∈ shortStrings) (hnot : long ∉ shortStrings)
    (hlong : long ∈ longStrings) (htype : v.zigbeeDataType = short ∨ v.zigbeeDataType = long)
    (hsize : v.valueSize.toNat = bs.length) (hbs : bs.length ≤ 253) (rest : List UInt8) :
    BytesTrip short long v bs rest := by
  obtain ⟨type, size, u⟩ := v
  have hne : long ≠ short := fun heq => hnot (heq ▸ hshort)
  rcases htype with heq | heq
  · obtain rfl : type = short := heq
    exact ⟨size + 1, size :: bs, requiredSize_short hshort, (short_trip hsize rest).1,
      (length_short hsize hbs).symm, dataLength_short hshort rest, (short_trip hsize rest).2⟩
  · obtain rfl : type = long := heq
    obtain ⟨hwrite, hread⟩ := long_trip hne hsize rest
    exact ⟨size + 2, size :: 0 :: bs, requiredSize_long hnot hlong, hwrite,
      (length_long hsize hbs).symm, dataLength_long hnot hlong rest, hread⟩

theorem bytesTrip_fixed (hshort : v.zigbeeDataType ∉ shortStrings)
    (hlong : v.zigbeeDataType ∉ longStrings) (hne : fixedLength v.zigbeeDataType ≠ 0)
    (hs : v.zigbeeDataType ≠ short) (hl : v.zigbeeDataType ≠ long)
    (hsize : v.valueSize.toNat = bs.length)
    (hbs : bs.length = (fixedLength v.zigbeeDataType).toNat) (rest : List UInt8) :
    BytesTrip short long v bs rest := by
  have hlength : v.valueSize = fixedLength v.zigbeeDataType := UInt8.toNat_inj.mp (hsize.trans hbs)
  obtain ⟨hwrite, hread⟩ := plain_trip hs hl hsize rest
  rw [hlength] at hwrite hread
  exact ⟨_, bs, requiredSize_fixed hshort hlong hne, hwrite, hbs,
    dataLength_of_not_string hshort hlong _, hlength ▸ hread⟩

end Sizes

section Trips

variable (hv : v.Valid) (hw : w.Valid) (htype : w.zigbeeDataType = v.zigbeeDataType)
  (rest : List UInt8)

include hv hw htype

theorem trips_boolean {b : Bool} (hu : v.u = .boolean b) : ∃ size, Trips v w rest size := by
  obtain ⟨type, valueSize, u⟩ := v
  obtain ⟨type', valueSize', u'⟩ := w
  obtain rfl : u = .boolean b := hu
  obtain rfl : type' = type := htype
  have hkind : valType type' = .boolean := hv.kind.symm
  obtain ⟨b', rfl⟩ := Value.exists_boolean (hw.kind.trans hkind)
  obtain ⟨hshort, hlong, hne, -⟩ := fixed_kind (.inl hkind)
  obtain rfl : valueSize = 0 := valueSize_eq_zero hv rfl
  obtain rfl : valueSize' = 0 := valueSize_eq_zero hw rfl
  have hone : (fixedLength type').toNat = 1 := by
    rw [mem_singleton.mp (mem_types hkind ValType.noConfusion)]
    decide
  refine ⟨fixedLength type', requiredSize_fixed hshort hlong hne, _, _, rfl, ?_,
    dataLength_of_not_string hshort hlong _, ?_⟩
  · rw [hone]
    rfl
  · cases b <;> rfl

theorem trips_integer {n : Int} (hu : v.u = .integer n) (hcarriable : v.Carriable) :
    ∃ size, Trips v w rest size := by
  obtain ⟨type, valueSize, u⟩ := v
  obtain ⟨type', valueSize', u'⟩ := w
  obtain rfl : u = .integer n := hu
  obtain rfl : type' = type := htype
  have hkind : valType type' = .integer := hv.kind.symm
  obtain ⟨n', rfl⟩ := Value.exists_integer (hw.kind.trans hkind)
  obtain ⟨hshort, hlong, hne, -⟩ := fixed_kind (.inr (.inl hkind))
  obtain rfl : valueSize = 0 := valueSize_eq_zero hv rfl
  obtain rfl : valueSize' = 0 := valueSize_eq_zero hw rfl
  obtain ⟨hlength, hread⟩ :=
    deserializeInteger_serializeInteger hkind (hv.accepted n rfl) hcarriable rest
  refine ⟨fixedLength type', requiredSize_fixed hshort hlong hne, _, _, rfl, hlength,
    dataLength_of_not_string hshort hlong _, ?_⟩
  simp only [deserializeValue, hread, Except.map, carried]

theorem trips_dateTime {dt : DateTime} (hu : v.u = .dateTime dt) (hcarriable : v.Carriable) :
    ∃ size, Trips v w rest size := by
  obtain ⟨type, valueSize, u⟩ := v
  obtain ⟨type', valueSize', u'⟩ := w
  obtain rfl : u = .dateTime dt := hu
  obtain rfl : type' = type := htype
  have hkind : valType type' = .dateTime := hv.kind.symm
  obtain ⟨dt', rfl⟩ := Value.exists_dateTime (hw.kind.trans hkind)
  obtain ⟨hshort, hlong, hne, -⟩ := fixed_kind (.inr (.inr hkind))
  obtain rfl : valueSize = 0 := valueSize_eq_zero hv rfl
  obtain rfl : valueSize' = 0 := valueSize_eq_zero hw rfl
  obtain ⟨hlength, hread⟩ := deserializeDateTime_serializeDateTime hkind hcarriable rest
  refine ⟨fixedLength type', requiredSize_fixed hshort hlong hne, _, (serializeDateTime type' dt).2,
    rfl, hlength, dataLength_of_not_string hshort hlong _, ?_⟩
  simp only [deserializeValue, hread, Except.map, carried]

theorem trips_charString {s : Option (List UInt8)} (hu : v.u = .charString s)
    (hcarriable : v.Carriable) : ∃ size, Trips v w rest size := by
  obtain ⟨type, valueSize, u⟩ := v
  obtain ⟨type', valueSize', u'⟩ := w
  obtain rfl : u = .charString s := hu
  obtain rfl : type' = type := htype
  obtain ⟨bs, rfl, hbs⟩ := hcarriable
  have hkind : valType type' = .charString := hv.kind.symm
  obtain ⟨s', rfl⟩ := Value.exists_charString (hw.kind.trans hkind)
  have hsize : valueSize.toNat = bs.length := hv.size
  have htypes : type' = zclDatatypeCharStr ∨ type' = zclDatatypeLongCharStr :=
    mem_pair.mp (mem_types hkind ValType.noConfusion)
  obtain ⟨size, written, hrequired, hwrite, hlength, hfound, hread⟩ :=
    bytesTrip_sized (v := ⟨type', valueSize, .charString (some bs)⟩) (by decide) (by decide)
      (by decide) htypes hsize hbs rest
  refine ⟨size, hrequired, ⟨type', valueSize, .charString (some bs)⟩, written, ?_, hlength,
    hfound, ?_⟩
  · simp only [serializeValue, serializeString, hwrite, Except.map]
  · simp only [deserializeValue, deserializeString, hread, Except.map, carried]

theorem trips_raw {r : Option (List UInt8)} (hu : v.u = .raw r) (hcarriable : v.Carriable) :
    ∃ size, Trips v w rest size := by
  obtain ⟨type, valueSize, u⟩ := v
  obtain ⟨type', valueSize', u'⟩ := w
  obtain rfl : u = .raw r := hu
  obtain rfl : type' = type := htype
  obtain ⟨bs, rfl, hbs⟩ := hcarriable
  have hkind : valType type' = .raw := hv.kind.symm
  obtain ⟨r', rfl⟩ := Value.exists_raw (hw.kind.trans hkind)
  have hsize : valueSize.toNat = bs.length := hv.size
  have htake : bs.take valueSize.toNat = bs := by rw [hsize, take_length]
  have hbytes : BytesTrip zclDatatypeOctetStr zclDatatypeLongOctetStr
      ⟨type', valueSize, .raw (some bs)⟩ bs rest := by
    by_cases hoctets : type' ∈ [zclDatatypeOctetStr, zclDatatypeLongOctetStr]
    · rw [if_pos hoctets] at hbs
      exact bytesTrip_sized (by decide) (by decide) (by decide) (mem_pair.mp hoctets) hsize hbs rest
    · rw [if_neg hoctets] at hbs
      obtain ⟨hs, hl⟩ := not_or.mp (mem_pair.not.mp hoctets)
      have hall : ValType.raw.types.all (fun t => decide (t ≠ zclDatatypeOctetStr →
          t ≠ zclDatatypeLongOctetStr → t ∉ shortStrings ∧ t ∉ longStrings ∧
            fixedLength t ≠ 0)) = true := by decide
      have htable := all_eq_true.mp hall type' (mem_types hkind ValType.noConfusion)
      obtain ⟨hshort, hlong, hne⟩ := of_decide_eq_true htable hs hl
      exact bytesTrip_fixed hshort hlong hne hs hl hsize hbs rest
  obtain ⟨size, written, hrequired, hwrite, hlength, hfound, hread⟩ := hbytes
  refine ⟨size, hrequired, ⟨type', valueSize, .raw (some bs)⟩, written, ?_, hlength, hfound, ?_⟩
  · simp only [serializeValue, serializeRaw, hwrite, Except.map]
  · simp only [deserializeValue, deserializeRaw, hread, Except.map, setRawValue, htake, carried]

theorem exists_trips (hcarriable : v.Carriable) : ∃ size, Trips v w rest size := by
  cases hu : v.u with
  | boolean b => exact trips_boolean hv hw htype rest hu
  | integer n => exact trips_integer hv hw htype rest hu hcarriable
  | charString s => exact trips_charString hv hw htype rest hu hcarriable
  | dateTime dt => exact trips_dateTime hv hw htype rest hu hcarriable
  | raw r => exact trips_raw hv hw htype rest hu hcarriable
  | _ =>
    unfold Carriable at hcarriable
    rw [hu] at hcarriable
    exact absurd hcarriable id

end Trips

theorem known_of_carriable (hv : v.Valid) (hcarriable : v.Carriable) :
    v.u.valType ≠ .unknown ∧ v.zigbeeDataType ≠ zclDatatypeUnknown := by
  have hkind : v.u.valType ≠ .unknown := by
    intro hunknown
    unfold Carriable at hcarriable
    cases hu : v.u <;> rw [hu] at hunknown hcarriable <;> first | exact hcarriable | cases hunknown
  refine ⟨hkind, fun htype => hkind ?_⟩
  rw [hv.kind, htype]
  decide

/-- **Serialized values come back**: serializing moves the pointer behind the bytes that it writes
and takes their number from the length, which is the length that they are said to have;
deserializing goes over the same bytes, takes as much from its length, and makes of them what the
type carries of the value. -/
theorem deserialize_serialize (v w : AttrVal) (len len' : UInt8) (rest : List UInt8) (hv : v.Valid)
    (hcarriable : v.Carriable) (hw : w.Valid) (htype : w.zigbeeDataType = v.zigbeeDataType)
    (hroom : ∀ size, v.requiredSize = .ok size → size ≤ len) :
    ∃ v' bs, v.serialize len = .ok (v', bs, len - UInt8.ofNat bs.length) ∧
      bs.length ≤ len.toNat ∧
      azapGetZclDataLength v.zigbeeDataType (some (payloadByte (bs ++ rest))) =
        .ok (UInt8.ofNat bs.length) ∧
      (bs.length ≤ len'.toNat →
        w.deserialize (bs ++ rest) len' = .ok (v.carried, rest, len' - UInt8.ofNat bs.length)) := by
  obtain ⟨hkind, hknown⟩ := known_of_carriable hv hcarriable
  obtain ⟨size, hrequired, v', bs, hwrite, hlength, hfound, hread⟩ :=
    exists_trips hv hw htype rest hcarriable
  have hle : size.toNat ≤ len.toNat := UInt8.le_iff_toNat_le.mp (hroom size hrequired)
  have hsize : UInt8.ofNat bs.length = size := by rw [hlength, UInt8.ofNat_toNat]
  refine ⟨v', bs, ?_, by omega, by rw [hfound, hsize], fun hlen' => ?_⟩
  · have henough : ¬ len < size := by
      rw [UInt8.lt_iff_toNat_lt]
      omega
    unfold serialize
    rw [if_neg (not_or.mpr ⟨hkind, hknown⟩), hrequired]
    simp only [Except.bind, if_neg henough, hwrite, Except.map]
  · have henough : ¬ len' < size := by
      rw [UInt8.lt_iff_toNat_lt]
      omega
    have hkind' : w.u.valType ≠ .unknown := by
      rw [hw.kind, htype, ← hv.kind]
      exact hkind
    unfold deserialize
    rw [if_neg hkind', htype, hfound]
    simp only [Except.bind, if_neg henough, hread, Except.map, drop_left]

/-- A negative integer of three bytes comes back. -/
theorem int24_comes_back :
    ∃ v' bs, ((new zclDatatypeInt24).setIntegerValue (-1000)).serialize 10 =
        .ok (v', bs, 10 - UInt8.ofNat bs.length) ∧ bs.length ≤ (10 : UInt8).toNat ∧
      azapGetZclDataLength zclDatatypeInt24 (some (payloadByte (bs ++ [7]))) =
        .ok (UInt8.ofNat bs.length) ∧
      (bs.length ≤ (4 : UInt8).toNat →
        (new zclDatatypeInt24).deserialize (bs ++ [7]) 4 =
          .ok (⟨zclDatatypeInt24, 0, .integer (-1000)⟩, [7], 4 - UInt8.ofNat bs.length)) :=
  deserialize_serialize ((new zclDatatypeInt24).setIntegerValue (-1000)) (new zclDatatypeInt24) 10 4 [7]
    (setIntegerValue_valid (new_valid _) _) (fun h => absurd h (by decide)) (new_valid _) rfl
    (fun size hsize => by
      obtain rfl := Except.ok.inj hsize
      decide)

/-- The milliseconds of a UTC time do not come back: its type has no place for them. -/
theorem utc_milliseconds_dropped :
    ∃ v' bs w, ((new zclDatatypeUtc).setDateTimeValue (some ⟨25, 24, 23, 25, 11, 111, 0, 358, 0⟩)
        990).serialize 4 = .ok (v', bs, 0) ∧
      (new zclDatatypeUtc).deserialize bs 4 = .ok (w, [], 0) ∧
      w ≠ (new zclDatatypeUtc).setDateTimeValue (some ⟨25, 24, 23, 25, 11, 111, 0, 358, 0⟩) 990 :=
  ⟨_, _, _, rfl, rfl, by decide⟩

end AttrVal

end Ong.Azap
