import Mathlib.Algebra.Ring.Int.Defs
import Ong.Lib.BitField

/-!
# Bit fields of KNX frames

Numbers are written bit by bit and read through a window of four bytes; both move the sign between
the highest bit of the field and that of the machine word.

## Main results

* `knxSetUint_eq`: the bits that are written
* `toNat_knxParseUint`: the reader loses the bits behind its window
* `knxField_kept_iff`
-/

namespace Ong.Knx

open BitField UInt32

/-! ### Writing -/

def knxSetBool (buffer : Nat → UInt8) (bitPosition : UInt32) (value : Bool) : Nat → UInt8 :=
  let i := (bitPosition / 8).toNat
  let mask := 0x80 >>> (bitPosition % 8).toNat
  if value then Function.update buffer i (UInt8.ofNat ((buffer i).toNat ||| mask))
  else Function.update buffer i (UInt8.ofNat ((buffer i).toNat &&& (0xffffffff ^^^ mask)))

/-- The loop of `knx_set_uint`, with so many rounds left. -/
def knxSetUintLoop (bitPosition bitSize : UInt32) :
    Nat → UInt32 → (Nat → UInt8) → UInt32 → Nat → UInt8
  | 0, _, buffer, _ => buffer
  | rounds + 1, i, buffer, value =>
    knxSetUintLoop bitPosition bitSize rounds (i + 1)
      (knxSetBool buffer (bitPosition + bitSize - 1 - i) (value &&& 1 != 0)) (value / 2)

def knxSetUint (buffer : Nat → UInt8) (bitPosition bitSize value : UInt32) : Nat → UInt8 :=
  knxSetUintLoop bitPosition bitSize bitSize.toNat 0 buffer value

/-- The number that `knx_set_int` writes. -/
def moveSign (bitSize value : UInt32) : UInt32 :=
  if value &&& 0x80000000 != 0 then value ||| 1 <<< (bitSize - 1)
  else value &&& ~~~(1 <<< (bitSize - 1))

def knxSetInt (buffer : Nat → UInt8) (bitPosition bitSize : UInt32) (value : Int32) :
    Nat → UInt8 :=
  knxSetUint buffer bitPosition bitSize (moveSign bitSize value.toUInt32)

/-! ### Reading -/

/-- The four bytes from an index on, loaded and swapped: the first is the highest. -/
def window (buffer : Nat → UInt8) (i : Nat) : UInt32 :=
  UInt32.ofNat ((((buffer i).toNat * 256 + (buffer (i + 1)).toNat) * 256 +
    (buffer (i + 2)).toNat) * 256 + (buffer (i + 3)).toNat)

def knxParseUint (buffer : Nat → UInt8) (bitPosition bitSize : UInt32) : UInt32 :=
  window buffer (bitPosition / 8).toNat <<< (bitPosition % 8) >>> (32 - bitSize)

/-- The conversion of `knx_parse_int`. -/
def takeSign (bitSize ui : UInt32) : UInt32 :=
  if ui &&& 1 <<< (bitSize - 1) != 0 then (~~~(ui &&& ~~~(1 <<< (bitSize - 1))) + 1) ||| 0x80000000
  else ui

def knxParseInt (buffer : Nat → UInt8) (bitPosition bitSize : UInt32) : Int32 :=
  (takeSign bitSize (knxParseUint buffer bitPosition bitSize)).toInt32

/-! ### What is written is read -/

/-- The bits outside the field are as before. -/
def OthersKept (bitPosition bitSize : UInt32) (buffer buffer' : Nat → UInt8) : Prop :=
  ∀ j : Nat, ¬(bitPosition.toNat ≤ j ∧ j < bitPosition.toNat + bitSize.toNat) →
    bit buffer' j = bit buffer j

/-- Whatever the buffer, an unsigned value is read as it was written and the other bits stay. -/
def UintKept (bitPosition bitSize value : UInt32) : Prop :=
  ∀ buffer : Nat → UInt8,
    knxParseUint (knxSetUint buffer bitPosition bitSize value) bitPosition bitSize = value ∧
      OthersKept bitPosition bitSize buffer (knxSetUint buffer bitPosition bitSize value)

/-- Whatever the buffer, a signed value is read as it was written and the other bits stay. -/
def IntKept (bitPosition bitSize : UInt32) (value : Int32) : Prop :=
  ∀ buffer : Nat → UInt8,
    knxParseInt (knxSetInt buffer bitPosition bitSize value) bitPosition bitSize = value ∧
      OthersKept bitPosition bitSize buffer (knxSetInt buffer bitPosition bitSize value)

/-- The bits of a field that lie behind the window of the reader. -/
def lost (bitPosition bitSize : UInt32) : Nat := bitPosition.toNat % 8 + bitSize.toNat - 32

/-- The field ends within the positions of 32 bits, and the bits behind the window are zero. -/
def UintFits (bitPosition bitSize value : UInt32) : Prop :=
  bitPosition.toNat + bitSize.toNat ≤ 2 ^ 32 ∧ 2 ^ lost bitPosition bitSize ∣ value.toNat

instance (bitPosition bitSize value : UInt32) : Decidable (UintFits bitPosition bitSize value) :=
  inferInstanceAs (Decidable (_ ∧ _))

/-- As `UintFits` for the values from zero on; of the negative ones, half the lowest that the field
has, and the lowest of 32 bits. -/
def IntFits (bitPosition bitSize : UInt32) (value : Int32) : Prop :=
  bitPosition.toNat + bitSize.toNat ≤ 2 ^ 32 ∧
    if 0 ≤ value.toInt then 2 ^ lost bitPosition bitSize ∣ value.toInt.toNat
    else (2 ≤ bitSize.toNat ∧ value.toInt = -2 ^ (bitSize.toNat - 2)) ∨
      (bitSize = 32 ∧ value.toInt = -2 ^ 31)

instance (bitPosition bitSize : UInt32) (value : Int32) :
    Decidable (IntFits bitPosition bitSize value) := inferInstanceAs (Decidable (_ ∧ _))

variable {buffer : Nat → UInt8} {p s i v : UInt32} {rounds j k : Nat}

/-! ### The bits that are written -/

theorem knxSetBool_eq {b : Bool} : knxSetBool buffer p b = setBit buffer p.toNat b := by
  have hdiv : (p / 8).toNat = p.toNat / 8 := UInt32.toNat_div ..
  have hmod : (p % 8).toNat = p.toNat % 8 := UInt32.toNat_mod ..
  have hmask : ∀ k < 8, 0x80 >>> k = 1 <<< (7 - k) := by decide
  simp only [knxSetBool, hdiv, hmod, hmask _ (Nat.mod_lt p.toNat (show 0 < 8 by decide)),
    ofNat_and_xor]
  rw [setBit, withBit]
  split <;> rfl

theorem and_one_ne_zero : (v &&& 1 != 0) = v.toNat.testBit 0 := by
  have hand : (v &&& 1).toNat = v.toNat % 2 := by
    rw [UInt32.toNat_and, UInt32.toNat_one, Nat.and_one_is_mod]
  have hiff : v &&& 1 ≠ 0 ↔ v.toNat % 2 = 1 := by
    rw [Ne, ← UInt32.toNat_inj, hand, UInt32.toNat_zero]
    omega
  rw [Nat.testBit_zero, Bool.eq_iff_iff, bne_iff_ne, decide_eq_true_eq]
  exact hiff

theorem position_toNat (hi : i.toNat + (rounds + 1) = s.toNat) (hend : p.toNat + s.toNat ≤ 2 ^ 32) :
    (p + s - 1 - i).toNat = p.toNat + rounds := by
  rw [UInt32.toNat_sub, UInt32.toNat_sub, UInt32.toNat_add, UInt32.toNat_one]
  omega

theorem knxSetUintLoop_eq (hi : i.toNat + rounds = s.toNat) (hend : p.toNat + s.toNat ≤ 2 ^ 32) :
    knxSetUintLoop p s rounds i buffer v = setField buffer p.toNat rounds v.toNat := by
  induction rounds generalizing i buffer v with
  | zero => rfl
  | succ rounds ih =>
    have hnext : (i + 1).toNat = i.toNat + 1 := by
      have := s.toNat_lt
      rw [UInt32.toNat_add, UInt32.toNat_one]
      omega
    rw [knxSetUintLoop, knxSetBool_eq, and_one_ne_zero, position_toNat hi hend, ih (by omega),
      UInt32.toNat_div, setField]
    rfl

/-- **The bits that are written**: those of the number, the highest first. -/
theorem knxSetUint_eq (hend : p.toNat + s.toNat ≤ 2 ^ 32) :
    knxSetUint buffer p s v = setField buffer p.toNat s.toNat v.toNat :=
  knxSetUintLoop_eq (Nat.zero_add _) hend

theorem othersKept_knxSetUint (hend : p.toNat + s.toNat ≤ 2 ^ 32) :
    OthersKept p s buffer (knxSetUint buffer p s v) := by
  intro j hj
  rw [knxSetUint_eq hend, bit_setField, if_neg hj]

/-! ### The bits that are read -/

theorem toNat_window : (window buffer k).toNat = field buffer (8 * k) 32 := by
  have hbyte (i : Nat) : (buffer i).toNat < 256 := (buffer i).toNat_lt
  have hsplit : field buffer (8 * k) 32 = (((buffer k).toNat * 256 + (buffer (k + 1)).toNat) * 256 +
      (buffer (k + 2)).toNat) * 256 + (buffer (k + 3)).toNat := by
    rw [show 32 = 8 + 8 + 8 + 8 from rfl, field_add, field_add,
      field_add, show 8 * k + (8 + 8 + 8) = 8 * (k + 3) by omega,
      show 8 * k + (8 + 8) = 8 * (k + 2) by omega, show 8 * k + 8 = 8 * (k + 1) by omega,
      field_byte, field_byte, field_byte, field_byte]
    rfl
  have h0 := hbyte k
  have h1 := hbyte (k + 1)
  have h2 := hbyte (k + 2)
  have h3 := hbyte (k + 3)
  rw [window, UInt32.toNat_ofNat', hsplit, Nat.mod_eq_of_lt (by omega)]

/-- **The reader** takes the field, without the bits that lie behind its window. -/
theorem toNat_knxParseUint (hs : 1 ≤ s.toNat) (hs' : s.toNat ≤ 32) :
    (knxParseUint buffer p s).toNat =
      field buffer p.toNat s.toNat / 2 ^ lost p s * 2 ^ lost p s := by
  have hshift : (32 - s).toNat = 32 - s.toNat := by
    rw [UInt32.toNat_sub, show (32 : UInt32).toNat = 32 from rfl]
    omega
  have hmod : (p % 8).toNat = p.toNat % 8 := UInt32.toNat_mod ..
  have hdiv : (p / 8).toNat = p.toNat / 8 := UInt32.toNat_div ..
  rw [knxParseUint, UInt32.toNat_shiftRight, UInt32.toNat_shiftLeft, toNat_window, hshift, hmod,
    hdiv, Nat.mod_eq_of_lt (show p.toNat % 8 < 32 by omega),
    Nat.mod_eq_of_lt (show 32 - s.toNat < 32 by omega), Nat.shiftLeft_eq, Nat.shiftRight_eq_div_pow]
  have hp : 8 * (p.toNat / 8) + p.toNat % 8 = p.toNat := Nat.div_add_mod ..
  rw [field_window (by omega) hs', hp, lost]

/-! ### Unsigned fields -/

theorem toNat_knxParseUint_knxSetUint (hs : 1 ≤ s.toNat) (hs' : s.toNat ≤ 32)
    (hend : p.toNat + s.toNat ≤ 2 ^ 32) :
    (knxParseUint (knxSetUint buffer p s v) p s).toNat =
      v.toNat % 2 ^ s.toNat / 2 ^ lost p s * 2 ^ lost p s := by
  rw [toNat_knxParseUint hs hs', knxSetUint_eq hend, field_setField]

theorem bit_knxSetUintLoop (h : ∀ l < rounds, (p + s - 1 - (i + ofNat l)).toNat ≠ j) :
    bit (knxSetUintLoop p s rounds i buffer v) j = bit buffer j := by
  induction rounds generalizing i buffer v with
  | zero => rfl
  | succ rounds ih =>
    have hrest (l : Nat) (hl : l < rounds) :
        (p + s - 1 - (i + 1 + ofNat l)).toNat ≠ j := by
      have := h (l + 1) (by omega)
      rwa [ofNat_add, UInt32.add_comm (ofNat l), ← UInt32.add_assoc] at this
    have hhere := h 0 (by omega)
    rw [show ofNat 0 = 0 from rfl, UInt32.add_zero] at hhere
    rw [knxSetUintLoop, ih hrest, knxSetBool_eq, bit_setBit, if_neg (Ne.symm hhere)]

theorem exists_not_othersKept (hs' : s.toNat ≤ 32) (hend : 2 ^ 32 < p.toNat + s.toNat) :
    ∃ buffer, ¬OthersKept p s buffer (knxSetUint buffer p s v) := by
  have hp := p.toNat_lt
  obtain ⟨rounds, hrounds⟩ : ∃ rounds, s.toNat = rounds + 1 :=
    Nat.exists_eq_succ_of_ne_zero (by omega)
  have hposition (l : Nat) (hl : l < s.toNat) :
      (p + s - 1 - ofNat l).toNat = (p.toNat + s.toNat - 1 - l) % 2 ^ 32 := by
    rw [UInt32.toNat_sub, UInt32.toNat_sub, UInt32.toNat_add, UInt32.toNat_one, UInt32.toNat_ofNat']
    omega
  refine ⟨fun _ => if v.toNat.testBit 0 then 0 else 255, fun h => ?_⟩
  have hfirst := hposition 0 (by omega)
  have hkept := h (p.toNat + s.toNat - 1 - 2 ^ 32) (by omega)
  rw [knxSetUint, hrounds, knxSetUintLoop, bit_knxSetUintLoop fun l hl => ?_, knxSetBool_eq,
    bit_setBit, if_pos, and_one_ne_zero, bit] at hkept
  · cases hv : v.toNat.testBit 0
    · rw [hv, if_neg Bool.false_ne_true, show (255 : UInt8).toNat = 2 ^ 8 - 1 from rfl,
        Nat.testBit_two_pow_sub_one] at hkept
      simp only [Bool.false_eq, decide_eq_false_iff_not] at hkept
      omega
    · rw [hv, if_pos rfl] at hkept
      simp at hkept
  · exact (show _ = _ by rw [show (0 : UInt32) = ofNat 0 from rfl, hfirst]; omega)
  · have := hposition (l + 1) (by omega)
    rw [ofNat_add, UInt32.add_comm (ofNat l),
      show ofNat 1 = 1 from rfl] at this
    rw [UInt32.zero_add, this]
    omega

theorem uintKept_iff (hs : 1 ≤ s.toNat) (hs' : s.toNat ≤ 32) (hv : v.toNat < 2 ^ s.toNat) :
    UintKept p s v ↔ UintFits p s v := by
  constructor
  · intro h
    have hend : p.toNat + s.toNat ≤ 2 ^ 32 := by
      by_contra hend
      obtain ⟨buffer, hbuffer⟩ := exists_not_othersKept (v := v) hs' (Nat.lt_of_not_le hend)
      exact hbuffer (h buffer).2
    have hread : (knxParseUint (knxSetUint (fun _ => 0) p s v) p s).toNat = _ :=
      toNat_knxParseUint_knxSetUint hs hs' hend
    rw [(h _).1, Nat.mod_eq_of_lt hv] at hread
    exact ⟨hend, Dvd.intro_left _ hread.symm⟩
  · rintro ⟨hend, hdvd⟩ buffer
    refine ⟨?_, othersKept_knxSetUint hend⟩
    rw [← UInt32.toNat_inj, toNat_knxParseUint_knxSetUint hs hs' hend, Nat.mod_eq_of_lt hv,
      Nat.div_mul_cancel hdvd]

section Sign

variable {u mask : UInt32} {a : Nat}

theorem toNat_one_shiftLeft (hs : 1 ≤ s.toNat) (hs' : s.toNat ≤ 32) :
    (1 <<< (s - 1)).toNat = 2 ^ (s.toNat - 1) := by
  have hsub : (s - 1).toNat = s.toNat - 1 := by
    rw [UInt32.toNat_sub, UInt32.toNat_one]
    omega
  have hlt : 2 ^ (s.toNat - 1) < 2 ^ 32 := Nat.pow_lt_pow_right (by decide) (by omega)
  rw [UInt32.toNat_shiftLeft, hsub, UInt32.toNat_one, Nat.one_shiftLeft,
    Nat.mod_eq_of_lt (show s.toNat - 1 < 32 by omega), Nat.mod_eq_of_lt hlt]

theorem and_mask_ne_zero (hmask : mask.toNat = 2 ^ k) : (u &&& mask != 0) = u.toNat.testBit k := by
  have hand : (u &&& mask).toNat = (u.toNat.testBit k).toNat * 2 ^ k := by
    rw [UInt32.toNat_and, hmask, Nat.and_two_pow]
  have hiff : u &&& mask ≠ 0 ↔ u.toNat.testBit k = true := by
    rw [Ne, ← UInt32.toNat_inj, hand, UInt32.toNat_zero]
    cases u.toNat.testBit k <;> simp
  rw [Bool.eq_iff_iff, bne_iff_ne]
  exact hiff

theorem or_mask_mod (hmask : mask.toNat = 2 ^ k) :
    (u ||| mask).toNat % 2 ^ (k + 1) = 2 ^ k + u.toNat % 2 ^ k := by
  have hlt : u.toNat % 2 ^ k < 2 ^ k := Nat.mod_lt _ (Nat.two_pow_pos k)
  rw [Nat.add_comm (2 ^ k), ← Nat.or_two_pow_eq_add_of_lt hlt, UInt32.toNat_or, hmask]
  refine Nat.eq_of_testBit_eq fun t => ?_
  rcases Nat.lt_trichotomy t k with ht | rfl | ht
  · simp [ht, show t < k + 1 by omega]
  · simp
  · simp [show ¬t < k by omega, show ¬t < k + 1 by omega, show k ≠ t by omega]

theorem and_not_mask_mod (hk : k < 32) (hmask : mask.toNat = 2 ^ k) :
    (u &&& ~~~mask).toNat % 2 ^ (k + 1) = u.toNat % 2 ^ k := by
  have hlt : 2 ^ k < 2 ^ 32 := Nat.pow_lt_pow_right (by decide) hk
  have hnot : (~~~mask).toNat = 2 ^ 32 - (2 ^ k + 1) := by
    rw [toNat_not, hmask, show size = 2 ^ 32 from rfl]
    omega
  refine Nat.eq_of_testBit_eq fun t => ?_
  simp only [Nat.testBit_mod_two_pow, UInt32.toNat_and, Nat.testBit_and, hnot,
    Nat.testBit_two_pow_sub_succ hlt, Nat.testBit_two_pow]
  rcases Nat.lt_trichotomy t k with ht | rfl | ht
  · simp [ht, show t < k + 1 by omega, show t < 32 by omega, show k ≠ t by omega]
  · simp
  · simp [show ¬t < k by omega, show ¬t < k + 1 by omega]

section

variable (hs : 1 ≤ s.toNat) (hs' : s.toNat ≤ 32)

include hs hs'

theorem toNat_moveSign_of_lt (hu : u.toNat < 2 ^ 31) :
    (moveSign s u).toNat % 2 ^ s.toNat = u.toNat % 2 ^ (s.toNat - 1) := by
  have hmask := toNat_one_shiftLeft hs hs'
  have hsign : u.toNat.testBit 31 = false := Nat.testBit_lt_two_pow hu
  rw [moveSign, and_mask_ne_zero (k := 31) rfl, hsign, if_neg Bool.false_ne_true]
  have := and_not_mask_mod (u := u) (by omega) hmask
  rwa [Nat.sub_add_cancel hs] at this

theorem toNat_moveSign_of_le (hu : 2 ^ 31 ≤ u.toNat) :
    (moveSign s u).toNat % 2 ^ s.toNat = 2 ^ (s.toNat - 1) + u.toNat % 2 ^ (s.toNat - 1) := by
  have hmask := toNat_one_shiftLeft hs hs'
  have hsign : u.toNat.testBit 31 = true :=
    Nat.testBit_of_two_pow_le_and_two_pow_add_one_gt hu u.toNat_lt
  rw [moveSign, and_mask_ne_zero (k := 31) rfl, hsign, if_pos rfl]
  have := or_mask_mod (u := u) hmask
  rwa [Nat.sub_add_cancel hs] at this

theorem takeSign_of_lt (hu : u.toNat < 2 ^ (s.toNat - 1)) : takeSign s u = u := by
  rw [takeSign, and_mask_ne_zero (toNat_one_shiftLeft hs hs'), Nat.testBit_lt_two_pow hu,
    if_neg Bool.false_ne_true]

theorem toNat_takeSign_of_le (hu : 2 ^ (s.toNat - 1) ≤ u.toNat) (hu' : u.toNat < 2 ^ s.toNat) :
    (takeSign s u).toNat =
      if u.toNat = 2 ^ (s.toNat - 1) then 2 ^ 31 else 2 ^ 32 - (u.toNat - 2 ^ (s.toNat - 1)) := by
  have hmask := toNat_one_shiftLeft hs hs'
  have hdouble : 2 ^ s.toNat = 2 * 2 ^ (s.toNat - 1) := by
    rw [← Nat.pow_succ', Nat.succ_eq_add_one, Nat.sub_add_cancel hs]
  have hle : 2 ^ (s.toNat - 1) ≤ 2 ^ 31 := Nat.pow_le_pow_right (by decide) (by omega)
  have hbit : u.toNat.testBit (s.toNat - 1) = true :=
    Nat.testBit_of_two_pow_le_and_two_pow_add_one_gt hu (by rwa [Nat.sub_add_cancel hs])
  have hlow : (u &&& ~~~(1 <<< (s - 1))).toNat = u.toNat - 2 ^ (s.toNat - 1) := by
    have hand := and_not_mask_mod (u := u) (by omega) hmask
    have hand_le : (u &&& ~~~(1 <<< (s - 1))).toNat ≤ u.toNat := by
      rw [UInt32.toNat_and]
      exact Nat.and_le_left
    rw [Nat.sub_add_cancel hs, Nat.mod_eq_of_lt (by omega)] at hand
    rw [hand, Nat.mod_eq_sub_mod hu, Nat.mod_eq_of_lt (by omega)]
  rw [takeSign, and_mask_ne_zero hmask, hbit, if_pos rfl, UInt32.toNat_or, UInt32.toNat_add,
    toNat_not, hlow, UInt32.toNat_one, show size = 2 ^ 32 from rfl,
    show (0x80000000 : UInt32).toNat = 2 ^ 31 from rfl]
  by_cases hzero : u.toNat = 2 ^ (s.toNat - 1)
  · rw [if_pos hzero, hzero, Nat.sub_self]
    rfl
  · have hor := Nat.or_two_pow_eq_add_of_lt
      (show 2 ^ 31 - (u.toNat - 2 ^ (s.toNat - 1)) < 2 ^ 31 by omega)
    rw [if_neg hzero, show (2 ^ 32 - 1 - (u.toNat - 2 ^ (s.toNat - 1)) + 1) % 2 ^ 32 =
      2 ^ 31 - (u.toNat - 2 ^ (s.toNat - 1)) + 2 ^ 31 by omega, ← hor, Nat.or_assoc, Nat.or_self,
      hor]
    omega

end

end Sign

section Signed

variable {w : Int32}

theorem toInt_eq : w.toInt =
    if w.toUInt32.toNat < 2 ^ 31 then (w.toUInt32.toNat : Int) else w.toUInt32.toNat - 2 ^ 32 := by
  have hint : w.toInt = w.toBitVec.toInt := rfl
  have hnat : w.toUInt32.toNat = w.toBitVec.toNat := rfl
  rw [hint, hnat, BitVec.toInt_eq_toNat_cond]
  split <;> split <;> omega

theorem toInt32_eq_iff {u : UInt32} : u.toInt32 = w ↔ u.toNat = w.toUInt32.toNat := by
  rw [UInt32.toNat_inj]
  exact ⟨fun h => h ▸ (toUInt32_toInt32 u).symm, fun h => h ▸ Int32.toInt32_toUInt32 w⟩

theorem lost_le (hs' : s.toNat ≤ 32) : lost p s ≤ s.toNat - 2 := by
  rw [lost]
  omega

theorem read_of_nonneg (hs : 1 ≤ s.toNat) (hs' : s.toNat ≤ 32) (hend : p.toNat + s.toNat ≤ 2 ^ 32)
    (hw : 0 ≤ w.toInt) (hlt : w.toInt < 2 ^ (s.toNat - 1)) :
    knxParseInt (knxSetInt buffer p s w) p s = w ↔ 2 ^ lost p s ∣ w.toInt.toNat := by
  have hint := toInt_eq (w := w)
  have hpos : w.toUInt32.toNat < 2 ^ 31 := by
    have := w.toUInt32.toNat_lt
    split at hint <;> omega
  rw [if_pos hpos] at hint
  have hsmall : w.toUInt32.toNat < 2 ^ (s.toNat - 1) := by
    rw [hint] at hlt
    exact_mod_cast hlt
  have hread : (knxParseUint (knxSetInt buffer p s w) p s).toNat =
      w.toUInt32.toNat / 2 ^ lost p s * 2 ^ lost p s := by
    rw [knxSetInt, toNat_knxParseUint_knxSetUint hs hs' hend, toNat_moveSign_of_lt hs hs' hpos,
      Nat.mod_eq_of_lt hsmall]
  have hle := Nat.div_mul_le_self w.toUInt32.toNat (2 ^ lost p s)
  rw [knxParseInt, takeSign_of_lt hs hs' (by omega), toInt32_eq_iff, hread, hint, Int.toNat_natCast]
  exact ⟨fun h => Dvd.intro_left _ h, Nat.div_mul_cancel⟩

/-- A field with its highest bit set and `h - a` behind it is read as `-a`: `a` is half of `h`, or
the field is the lowest number of 32 bits. -/
theorem negative_iff {h a K : Nat} (hK : K ∣ h) (ha : 0 < a) (hah : a ≤ h) (hh : h ≤ 2 ^ 31) :
    (if (h + (h - a)) / K * K = h then 2 ^ 31 else 2 ^ 32 - ((h + (h - a)) / K * K - h)) =
      2 ^ 32 - a ↔ h = 2 * a ∧ K ∣ a ∨ a = 2 ^ 31 := by
  have hKpos : 0 < K := Nat.pos_of_dvd_of_pos hK (by omega)
  have hsplit : (h + (h - a)) / K * K = h + (h - a) / K * K := by
    obtain ⟨c, hc⟩ := hK
    rw [show h + (h - a) = K * c + (h - a) by rw [← hc], Nat.mul_add_div hKpos, Nat.add_mul,
      Nat.mul_comm c, ← hc]
  have hle := Nat.div_mul_le_self (h - a) K
  rw [hsplit, Nat.add_sub_cancel_left]
  -- a sign with nothing behind it is taken for the lowest number of 32 bits
  by_cases hzero : (h - a) / K * K = 0
  · rw [if_pos (by omega)]
    constructor
    · exact fun h => .inr (by omega)
    · rintro (⟨rfl, hdvd⟩ | rfl)
      · rw [show 2 * a - a = a by omega, Nat.div_mul_cancel hdvd] at hzero
        omega
      · rfl
  · rw [if_neg (by omega)]
    constructor
    · intro heq
      have ha : (h - a) / K * K = a := by omega
      have hdvd : K ∣ a := Dvd.intro_left _ ha
      rw [Nat.div_mul_cancel ((Nat.dvd_sub_iff_left hah hdvd).mpr hK)] at ha
      exact .inl ⟨by omega, hdvd⟩
    · rintro (⟨rfl, hdvd⟩ | rfl)
      · rw [show 2 * a - a = a by omega, Nat.div_mul_cancel hdvd]
      · omega

theorem read_of_neg (hs : 1 ≤ s.toNat) (hs' : s.toNat ≤ 32) (hend : p.toNat + s.toNat ≤ 2 ^ 32)
    (hw : w.toInt < 0) (hle : -2 ^ (s.toNat - 1) ≤ w.toInt) :
    knxParseInt (knxSetInt buffer p s w) p s = w ↔
      (2 ≤ s.toNat ∧ w.toInt = -2 ^ (s.toNat - 2)) ∨ (s = 32 ∧ w.toInt = -2 ^ 31) := by
  obtain ⟨a, ha⟩ : ∃ a : Nat, w.toInt = -(a : Int) := ⟨w.toInt.natAbs, by omega⟩
  have hint := toInt_eq (w := w)
  have hbig : ¬w.toUInt32.toNat < 2 ^ 31 := fun h => by rw [if_pos h] at hint; omega
  rw [if_neg hbig] at hint
  have hu : w.toUInt32.toNat = 2 ^ 32 - a := by omega
  have hah : a ≤ 2 ^ (s.toNat - 1) := by
    rw [ha] at hle
    exact_mod_cast Int.neg_le_neg_iff.mp hle
  have hh : 2 ^ (s.toNat - 1) ≤ 2 ^ 31 := Nat.pow_le_pow_right (by decide) (by omega)
  have hdouble : 2 ^ s.toNat = 2 * 2 ^ (s.toNat - 1) := by
    rw [← Nat.pow_succ', Nat.succ_eq_add_one, Nat.sub_add_cancel hs]
  have hlost : lost p s ≤ s.toNat - 2 := lost_le hs'
  have hK : 2 ^ lost p s ∣ 2 ^ (s.toNat - 1) := Nat.pow_dvd_pow 2 (by omega)
  have hlow : (2 ^ 32 - a) % 2 ^ (s.toNat - 1) = 2 ^ (s.toNat - 1) - a := by
    obtain ⟨c, hc⟩ : 2 ^ (s.toNat - 1) ∣ 2 ^ 32 := Nat.pow_dvd_pow 2 (by omega)
    obtain ⟨c, rfl⟩ : ∃ d, c = d + 1 := Nat.exists_eq_succ_of_ne_zero (by rintro rfl; omega)
    rw [Nat.mul_add, Nat.mul_one] at hc
    rw [hc, Nat.add_sub_assoc hah, Nat.mul_add_mod, Nat.mod_eq_of_lt (by omega)]
  have hread : (knxParseUint (knxSetInt buffer p s w) p s).toNat =
      (2 ^ (s.toNat - 1) + (2 ^ (s.toNat - 1) - a)) / 2 ^ lost p s * 2 ^ lost p s := by
    rw [knxSetInt, toNat_knxParseUint_knxSetUint hs hs' hend,
      toNat_moveSign_of_le hs hs' (Nat.le_of_not_lt hbig), hu, hlow]
  have hup := Nat.div_mul_le_self (2 ^ (s.toNat - 1) + (2 ^ (s.toNat - 1) - a)) (2 ^ lost p s)
  have hdown : 2 ^ (s.toNat - 1) ≤
      (2 ^ (s.toNat - 1) + (2 ^ (s.toNat - 1) - a)) / 2 ^ lost p s * 2 ^ lost p s :=
    (Nat.div_mul_cancel hK).ge.trans (Nat.mul_le_mul_right _ (Nat.div_le_div_right (by omega)))
  rw [knxParseInt, toInt32_eq_iff, toNat_takeSign_of_le hs hs' (by omega) (by omega), hread, hu,
    negative_iff hK (by omega) hah hh, ha]
  have hpow (n : Nat) : -(a : Int) = -2 ^ n ↔ a = 2 ^ n := by
    rw [Int.neg_inj]
    exact_mod_cast Iff.rfl
  rw [hpow, hpow]
  refine or_congr ⟨fun ⟨hhalf, _⟩ => ?_, fun ⟨htwo, hhalf⟩ => ⟨?_, ?_⟩⟩
    ⟨fun hlast => ⟨?_, hlast⟩, And.right⟩
  · obtain ⟨n, hn⟩ | hone : (∃ n, s.toNat = n + 2) ∨ s.toNat = 1 := by
      rcases Nat.lt_or_ge s.toNat 2 with h | h
      · exact .inr (by omega)
      · exact .inl ⟨s.toNat - 2, by omega⟩
    · rw [hn, show n + 2 - 1 = n + 1 by omega, Nat.pow_succ] at hhalf
      exact ⟨by omega, by rw [hn, Nat.add_sub_cancel]; omega⟩
    · rw [hone] at hhalf
      omega
  · rw [hhalf, ← Nat.pow_succ', Nat.succ_eq_add_one, show s.toNat - 2 + 1 = s.toNat - 1 by omega]
  · rw [hhalf]
    exact Nat.pow_dvd_pow 2 (lost_le hs')
  · have hexp : 31 ≤ s.toNat - 1 := (Nat.pow_le_pow_iff_right (by decide)).mp (hlast ▸ hah)
    rw [← UInt32.toNat_inj]
    exact Nat.le_antisymm hs' (show 32 ≤ s.toNat by omega)

theorem intKept_iff (hs : 1 ≤ s.toNat) (hs' : s.toNat ≤ 32)
    (hw : -2 ^ (s.toNat - 1) ≤ w.toInt ∧ w.toInt < 2 ^ (s.toNat - 1)) :
    IntKept p s w ↔ IntFits p s w := by
  have hread (hend : p.toNat + s.toNat ≤ 2 ^ 32) (buffer) :
      knxParseInt (knxSetInt buffer p s w) p s = w ↔
        if 0 ≤ w.toInt then 2 ^ lost p s ∣ w.toInt.toNat
        else (2 ≤ s.toNat ∧ w.toInt = -2 ^ (s.toNat - 2)) ∨ (s = 32 ∧ w.toInt = -2 ^ 31) := by
    by_cases hpos : 0 ≤ w.toInt
    · rw [if_pos hpos, read_of_nonneg hs hs' hend hpos hw.2]
    · rw [if_neg hpos, read_of_neg hs hs' hend (by omega) hw.1]
  constructor
  · intro h
    have hend : p.toNat + s.toNat ≤ 2 ^ 32 := by
      by_contra hend
      obtain ⟨buffer, hbuffer⟩ := exists_not_othersKept (v := moveSign s w.toUInt32) hs'
        (Nat.lt_of_not_le hend)
      exact hbuffer (h buffer).2
    exact ⟨hend, (hread hend fun _ => 0).mp (h _).1⟩
  · rintro ⟨hend, hfits⟩ buffer
    exact ⟨(hread hend buffer).mpr hfits, othersKept_knxSetUint hend⟩

end Signed

/-- **Which fields are kept.**  Unsigned: those within the positions of 32 bits whose value has no
bit behind the window.  Signed: of the negative values only half the lowest one of the field, and
the lowest one of 32 bits. -/
theorem knxField_kept_iff (hs : 1 ≤ s.toNat) (hs' : s.toNat ≤ 32) :
    (∀ value : UInt32, value.toNat < 2 ^ s.toNat → (UintKept p s value ↔ UintFits p s value)) ∧
      ∀ value : Int32, -2 ^ (s.toNat - 1) ≤ value.toInt ∧ value.toInt < 2 ^ (s.toNat - 1) →
        (IntKept p s value ↔ IntFits p s value) :=
  ⟨fun _ hv => uintKept_iff hs hs' hv, fun _ hw => intKept_iff hs hs' hw⟩

/-- Eight bits at position 4 keep 200, and keep -64. -/
theorem knxField_kept_eight : UintKept 4 8 200 ∧ IntKept 4 8 (-64) :=
  ⟨((knxField_kept_iff (by decide) (by decide)).1 200 (by decide)).mpr (by decide),
    ((knxField_kept_iff (by decide) (by decide)).2 (-64) (by decide)).mpr (by decide)⟩

/-- In eight bits, -1 comes back as -127. -/
theorem not_intKept_minus_one :
    ¬∀ (bitPosition bitSize : UInt32) (value : Int32), 1 ≤ bitSize.toNat → bitSize.toNat ≤ 32 →
      -2 ^ (bitSize.toNat - 1) ≤ value.toInt ∧ value.toInt < 2 ^ (bitSize.toNat - 1) →
        IntKept bitPosition bitSize value := by
  intro h
  have := (h 0 8 (-1) (by decide) (by decide) (by decide) fun _ => 0).1
  exact absurd this (by decide)

end Ong.Knx
