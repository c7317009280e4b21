import Mathlib.Data.List.Basic
import Mathlib.Algebra.Ring.Int.Defs
import Mathlib.Algebra.Ring.Nat

/-!
# Big-endian numbers in bytes

A number is written with a fixed number of bytes, the highest first, and read back up to what the
bytes hold.

## Main results

* `get_put`: what is written is read
-/

namespace Ong.BigEndian

/-- The lowest `k` bytes of a number, the highest first. -/
def put : Nat → Nat → List UInt8
  | 0, _ => []
  | k + 1, v => UInt8.ofNat (v / 256 ^ k) :: put k v

/-- The number the first `k` bytes hold; missing bytes are zero. -/
def get : Nat → List UInt8 → Nat
  | 0, _ => 0
  | k + 1, bs => (bs.headD 0).toNat * 256 ^ k + get k bs.tail

@[simp]
theorem length_put (k v : Nat) : (put k v).length = k := by
  induction k with
  | zero => rfl
  | succ k ih => rw [put, List.length_cons, ih]

theorem get_put_append (k v : Nat) (rest : List UInt8) :
    get k (put k v ++ rest) = v % 256 ^ k := by
  induction k with
  | zero => rw [get, Nat.pow_zero, Nat.mod_one]
  | succ k ih =>
    have hbyte : (UInt8.ofNat (v / 256 ^ k)).toNat = v / 256 ^ k % 256 := UInt8.toNat_ofNat'
    have hsplit : v % 256 ^ (k + 1) = v % 256 ^ k + 256 ^ k * (v / 256 ^ k % 256) := Nat.mod_pow_succ
    rw [put, List.cons_append, get, List.headD_cons, List.tail_cons, ih, hbyte, hsplit, Nat.mul_comm,
      Nat.add_comm]

/-- **What is written is read**, if it fits the bytes. -/
theorem get_put {k v : Nat} (h : v < 256 ^ k) (rest : List UInt8) :
    get k (put k v ++ rest) = v := by
  rw [get_put_append, Nat.mod_eq_of_lt h]

theorem drop_put (k v : Nat) (rest : List UInt8) : (put k v ++ rest).drop k = rest := by
  rw [List.drop_append_of_le_length (by rw [length_put]), List.drop_of_length_le (by rw [length_put]),
    List.nil_append]

theorem get_lt (k : Nat) (bs : List UInt8) : get k bs < 256 ^ k := by
  induction k generalizing bs with
  | zero => exact Nat.one_pos
  | succ k ih =>
    have hbyte := (bs.headD 0).toNat_lt
    have hhigh : (bs.headD 0).toNat * 256 ^ k ≤ 255 * 256 ^ k := Nat.mul_le_mul_right _ (by omega)
    have hrest := ih bs.tail
    rw [get, Nat.pow_succ]
    omega

end Ong.BigEndian
