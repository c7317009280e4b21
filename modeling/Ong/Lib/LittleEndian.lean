import Mathlib.Data.List.Basic
import Mathlib.Tactic.Ring

/-!
# Little-endian numbers in bytes

The two's complement of an integer is written with a fixed number of bytes, the lowest first.  The
bytes hold the number up to a multiple of what they can hold.

## Main results

* `value_bytes`: what is read of what was written
* `split_sign`: an integer from its low bytes, seven more bits and its sign
-/

namespace Ong.LittleEndian

/-- The lowest `k` bytes of an integer, the lowest first. -/
def bytes : Nat → Int → List UInt8
  | 0, _ => []
  | k + 1, v => UInt8.ofNat (v % 256).toNat :: bytes k (v / 256)

/-- The number that bytes hold. -/
def value : List UInt8 → Int
  | [] => 0
  | b :: bs => b.toNat + 256 * value bs

@[simp]
theorem length_bytes (k : Nat) (v : Int) : (bytes k v).length = k := by
  induction k generalizing v with
  | zero => rfl
  | succ k ih => rw [bytes, List.length_cons, ih]

theorem toNat_ofNat_mod (v : Int) : ((UInt8.ofNat (v % 256).toNat).toNat : Int) = v % 256 := by
  rw [UInt8.toNat_ofNat']
  omega

theorem emod_mul {v a n : Int} (ha : 0 ≤ a) : v % (a * n) = v % a + a * (v / a % n) := by
  rw [Int.emod_def v (a * n), Int.emod_def v a, Int.emod_def (v / a) n,
    Int.ediv_ediv_of_nonneg ha]
  ring

/-- What is read of what was written. -/
theorem value_bytes (k : Nat) (v : Int) : value (bytes k v) = v % 256 ^ k := by
  induction k generalizing v with
  | zero =>
    rw [bytes, value, Int.pow_zero, Int.emod_one]
  | succ k ih =>
    rw [bytes, value, ih, toNat_ofNat_mod, Int.pow_succ, Int.mul_comm (256 ^ k) 256,
      emod_mul (by decide)]

theorem value_bounds (bs : List UInt8) : 0 ≤ value bs ∧ value bs < 2 ^ (8 * bs.length) := by
  induction bs with
  | nil => decide
  | cons b bs ih =>
    have hb := b.toNat_lt
    have hpow : (2 : Int) ^ (8 * (b :: bs).length) = 256 * 2 ^ (8 * bs.length) := by
      rw [List.length_cons, Nat.mul_add, Int.pow_add, Int.mul_comm]
      rfl
    rw [hpow, value]
    omega

theorem getElem?_bytes {k j : Nat} (v : Int) (h : j < k) :
    (bytes k v)[j]? = some (UInt8.ofNat (v / 256 ^ j % 256).toNat) := by
  induction k generalizing j v with
  | zero => exact absurd h (Nat.not_lt_zero j)
  | succ k ih =>
    cases j with
    | zero => rw [bytes, List.getElem?_cons_zero, Int.pow_zero, Int.ediv_one]
    | succ j =>
      rw [bytes, List.getElem?_cons_succ, ih _ (Nat.lt_of_succ_lt_succ h), Int.pow_succ,
        Int.mul_comm (256 ^ j) 256, Int.ediv_ediv_of_nonneg (by decide)]

/-- An integer from its low part, the seven bits above it and its sign. -/
theorem split_sign {v m : Int} (hm : 0 < m) (hlow : -(128 * m) ≤ v) (hhigh : v < 128 * m) :
    v % m + m * (v / m % 128) - (if v < 0 then 128 * m else 0) = v := by
  have hdiv : v % m + m * (v / m) = v := Int.emod_add_mul_ediv v m
  have hge : -128 ≤ v / m := (Int.le_ediv_iff_mul_le hm).mpr (by omega)
  have hlt : v / m < 128 := (Int.ediv_lt_iff_lt_mul hm).mpr hhigh
  have hsign : v / m < 0 ↔ v < 0 := by
    rw [Int.ediv_lt_iff_lt_mul hm, Int.zero_mul]
  by_cases hneg : v < 0
  · have hbits : v / m % 128 = v / m + 128 := by
      omega
    rw [if_pos hneg, hbits, Int.mul_add]
    omega
  · have hbits : v / m % 128 = v / m := by
      omega
    rw [if_neg hneg, hbits]
    omega

end Ong.LittleEndian
