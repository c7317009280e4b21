import Mathlib.Data.Nat.Bitwise

/-!
# Bit fields

The bits of bytes in memory, numbered from the highest bit of the first byte on, and the numbers
that neighbouring bits are.

## Main definitions

* `bit`: one bit
* `setBit`: the memory with one bit written
* `field`: the number of some bits behind a position, the highest first
* `setField`: the memory with a number written, from its lowest bit on

## Main results

* `bit_setBit`: a write changes one bit
* `testBit_field`: the bits of a field
* `bit_setField`, `field_setField`: a field is what was written, and the other bits stay
* `field_add`: two fields one behind the other
* `field_window`: a field through a window of fixed size
-/

namespace Ong.BitField

open Nat

/-- The bit at a position. -/
def bit (m : Nat → UInt8) (i : Nat) : Bool := (m (i / 8)).toNat.testBit (7 - i % 8)

/-- The byte with its `k`-th bit from above written. -/
def withBit (b : UInt8) (k : Nat) (v : Bool) : UInt8 :=
  if v then UInt8.ofNat (b.toNat ||| 1 <<< (7 - k))
  else UInt8.ofNat (b.toNat &&& (255 ^^^ 1 <<< (7 - k)))

/-- The memory with a bit written. -/
def setBit (m : Nat → UInt8) (i : Nat) (v : Bool) : Nat → UInt8 :=
  Function.update m (i / 8) (withBit (m (i / 8)) (i % 8) v)

/-- The number that `s` bits from a position on are. -/
def field (m : Nat → UInt8) (p : Nat) : Nat → Nat
  | 0 => 0
  | s + 1 => 2 * field m p s + (bit m (p + s)).toNat

/-- The memory with the lowest `s` bits of a number written from a position on. -/
def setField (m : Nat → UInt8) (p : Nat) : Nat → Nat → Nat → UInt8
  | 0, _ => m
  | s + 1, v => setField (setBit m (p + s) (v.testBit 0)) p s (v / 2)

variable {m m' : Nat → UInt8} {p q s t v i j k : Nat}

/-! ### One bit -/

theorem testBit_byte {b : UInt8} (hk : 8 ≤ k) : b.toNat.testBit k = false :=
  Nat.testBit_lt_two_pow (b.toNat_lt.trans_le (Nat.pow_le_pow_right Nat.two_pos hk))

theorem testBit_ofNat (x : Nat) :
    (UInt8.ofNat x).toNat.testBit k = (decide (k < 8) && x.testBit k) := by
  rw [UInt8.toNat_ofNat', testBit_mod_two_pow]

theorem testBit_withBit {b : UInt8} {w : Bool} (hk : k < 8) (hj : j < 8) :
    (withBit b k w).toNat.testBit (7 - j) = if j = k then w else b.toNat.testBit (7 - j) := by
  have hpos : 7 - k = 7 - j ↔ j = k := by omega
  have h255 : (255 : Nat).testBit (7 - j) = true := by
    rw [show (255 : Nat) = 2 ^ 8 - 1 from rfl, testBit_two_pow_sub_one]
    simp only [decide_eq_true_eq]
    omega
  have hmod (x : Nat) : (UInt8.ofNat x).toNat.testBit (7 - j) = x.testBit (7 - j) := by
    rw [testBit_ofNat, decide_eq_true (by omega), Bool.true_and]
  unfold withBit
  rcases Bool.eq_false_or_eq_true w with rfl | rfl
  · simp only [if_true, hmod, testBit_or, one_shiftLeft, testBit_two_pow, hpos]
    split <;> simp_all
  · simp only [Bool.false_eq_true, if_false, hmod, testBit_and, testBit_xor, h255,
      one_shiftLeft, testBit_two_pow, hpos]
    split <;> simp_all

theorem ofNat_and_xor (x y : Nat) :
    UInt8.ofNat (x &&& (0xffffffff ^^^ y)) = UInt8.ofNat (x &&& (255 ^^^ y)) := by
  have hones : (255 : Nat) = 2 ^ 8 - 1 ∧ 0xffffffff = 2 ^ 32 - 1 := by decide
  refine UInt8.toNat_inj.mp (eq_of_testBit_eq fun t => ?_)
  rw [hones.1, hones.2]
  simp only [testBit_ofNat, testBit_and, testBit_xor, testBit_two_pow_sub_one]
  by_cases ht : t < 8
  · simp only [ht, show t < 32 by omega]
  · simp only [ht, decide_false, Bool.false_and]

/-- **A write changes one bit.** -/
@[simp]
theorem bit_setBit {w : Bool} : bit (setBit m i w) j = if j = i then w else bit m j := by
  unfold bit setBit
  by_cases hbyte : j / 8 = i / 8
  · rw [hbyte, Function.update_self,
      testBit_withBit (mod_lt _ (by omega)) (mod_lt _ (by omega))]
    have hiff : j % 8 = i % 8 ↔ j = i := by omega
    simp only [hiff]
  · have hne : j ≠ i := fun h => hbyte (h ▸ rfl)
    rw [Function.update_of_ne hbyte, if_neg hne]

theorem bit_congr (h : m (i / 8) = m' (i / 8)) : bit m i = bit m' i := by rw [bit, bit, h]

/-! ### Fields -/

theorem field_lt : field m p s < 2 ^ s := by
  induction s with
  | zero => exact Nat.one_pos
  | succ s ih =>
    have hbit : (bit m (p + s)).toNat < 2 := Bool.toNat_lt _
    rw [field, Nat.pow_succ]
    omega

/-- The bits of a field. -/
theorem testBit_field : (field m p s).testBit i = (decide (i < s) && bit m (p + (s - 1 - i))) := by
  induction s generalizing i with
  | zero => simp [field]
  | succ s ih =>
    cases i with
    | zero =>
      rw [field, testBit_zero, mul_add_mod]
      cases h : bit m (p + s) <;> simp [h]
    | succ i =>
      have hhalf : (2 * field m p s + (bit m (p + s)).toNat) / 2 = field m p s := by
        have := Bool.toNat_lt (bit m (p + s))
        omega
      rw [field, testBit_succ, hhalf, ih]
      simp only [Nat.add_lt_add_iff_right, show s + 1 - 1 - (i + 1) = s - 1 - i by omega]

theorem field_congr (h : ∀ i < s, bit m (p + i) = bit m' (q + i)) : field m p s = field m' q s := by
  induction s with
  | zero => rfl
  | succ s ih => rw [field, field, ih fun i hi => h i (by omega), h s (by omega)]

/-- Two fields one behind the other. -/
theorem field_add : field m p (s + t) = field m p s * 2 ^ t + field m (p + s) t := by
  induction t with
  | zero => rw [Nat.add_zero, field, Nat.pow_zero, Nat.mul_one, Nat.add_zero]
  | succ t ih =>
    rw [← Nat.add_assoc, field, field, ih, Nat.pow_succ, Nat.add_assoc p s t]
    have : field m p s * (2 ^ t * 2) = 2 * (field m p s * 2 ^ t) := by
      rw [← Nat.mul_assoc, Nat.mul_comm]
    omega

/-! A window of `w` bits is shifted to the left until a field begins it, and to the right until the
field ends it. -/

theorem field_shiftLeft {w r : Nat} (hr : r ≤ w) :
    field m q w * 2 ^ r % 2 ^ w = field m (q + r) (w - r) * 2 ^ r := by
  have hsplit : field m q w = field m q r * 2 ^ (w - r) + field m (q + r) (w - r) := by
    rw [← field_add, Nat.add_sub_cancel' hr]
  have hpow : 2 ^ (w - r) * 2 ^ r = 2 ^ w := by
    rw [← Nat.pow_add, Nat.sub_add_cancel hr]
  have hlt : field m (q + r) (w - r) * 2 ^ r < 2 ^ w :=
    hpow ▸ Nat.mul_lt_mul_of_pos_right field_lt (Nat.two_pow_pos r)
  rw [hsplit, Nat.add_mul, Nat.mul_assoc, hpow, mul_add_mod_self_right, mod_eq_of_lt hlt]

/-- **A field through a window** loses the bits behind it. -/
theorem field_window {w r : Nat} (hr : r ≤ w) (hs : s ≤ w) :
    field m q w * 2 ^ r % 2 ^ w / 2 ^ (w - s) =
      field m (q + r) s / 2 ^ (r + s - w) * 2 ^ (r + s - w) := by
  rw [field_shiftLeft hr]
  by_cases hin : r + s ≤ w
  · have hsplit : field m (q + r) (w - r) =
        field m (q + r) s * 2 ^ (w - r - s) + field m (q + r + s) (w - r - s) := by
      rw [← field_add, show s + (w - r - s) = w - r by omega]
    have hpow : 2 ^ (w - r - s) * 2 ^ r = 2 ^ (w - s) := by
      rw [← Nat.pow_add, show w - r - s + r = w - s by omega]
    have hlt : field m (q + r + s) (w - r - s) * 2 ^ r < 2 ^ (w - s) :=
      hpow ▸ Nat.mul_lt_mul_of_pos_right field_lt (Nat.two_pow_pos r)
    rw [hsplit, Nat.add_mul, Nat.mul_assoc, hpow, Nat.add_comm,
      Nat.add_mul_div_right _ _ (Nat.two_pow_pos _), Nat.div_eq_of_lt hlt,
      Nat.sub_eq_zero_of_le hin, Nat.pow_zero, Nat.div_one, Nat.mul_one, Nat.zero_add]
  · have hsplit : field m (q + r) s =
        field m (q + r) (w - r) * 2 ^ (r + s - w) + field m (q + r + (w - r)) (r + s - w) := by
      rw [← field_add, show w - r + (r + s - w) = s by omega]
    have hpow : 2 ^ r = 2 ^ (r + s - w) * 2 ^ (w - s) := by
      rw [← Nat.pow_add, show r + s - w + (w - s) = r by omega]
    rw [hsplit, hpow, ← Nat.mul_assoc, Nat.mul_div_cancel _ (Nat.two_pow_pos _),
      Nat.add_comm (_ * _), Nat.add_mul_div_right _ _ (Nat.two_pow_pos _),
      Nat.div_eq_of_lt field_lt, Nat.zero_add]

theorem field_byte : field m (8 * k) 8 = (m k).toNat := by
  refine eq_of_testBit_eq fun i => ?_
  rw [testBit_field]
  by_cases hi : i < 8
  · rw [bit, show (8 * k + (8 - 1 - i)) / 8 = k by omega,
      show 7 - (8 * k + (8 - 1 - i)) % 8 = i by omega, decide_eq_true hi, Bool.true_and]
  · rw [decide_eq_false hi, Bool.false_and, testBit_byte (Nat.le_of_not_lt hi)]

/-- What becomes of the bits when a number is written. -/
theorem bit_setField :
    bit (setField m p s v) j =
      if p ≤ j ∧ j < p + s then v.testBit (p + s - 1 - j) else bit m j := by
  induction s generalizing m v with
  | zero => rw [setField, if_neg (by omega)]
  | succ s ih =>
    rw [setField, ih, bit_setBit]
    by_cases hin : p ≤ j ∧ j < p + s
    · rw [if_pos hin, if_pos ⟨hin.1, by omega⟩,
        show p + (s + 1) - 1 - j = p + s - 1 - j + 1 by omega, testBit_succ]
    · rw [if_neg hin]
      by_cases hlast : j = p + s
      · rw [if_pos hlast, if_pos (by omega), show p + (s + 1) - 1 - j = 0 by omega]
      · rw [if_neg hlast, if_neg (by omega)]

/-- **What is written is read**, up to the bits there are. -/
theorem field_setField : field (setField m p s v) p s = v % 2 ^ s := by
  refine eq_of_testBit_eq fun i => ?_
  rw [testBit_field, testBit_mod_two_pow, bit_setField]
  by_cases hi : i < s
  · rw [if_pos (by omega), show p + s - 1 - (p + (s - 1 - i)) = i by omega]
  · simp only [hi, decide_false, Bool.false_and]

end Ong.BitField
