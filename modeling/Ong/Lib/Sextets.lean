import Mathlib.Data.List.Basic
import Mathlib.Algebra.Ring.Int.Defs
import Mathlib.Algebra.Ring.Nat

/-!
# Groups of six bits

Three bytes are four numbers of six bits, and back.

## Main results

* `byte₁_first`, `byte₂_second`, `byte₃_third`: the bytes are found again
-/

namespace Ong.Sextets

open Nat

section Split

variable (b₁ b₂ b₃ : UInt8)

def first : Nat := b₁.toNat / 4

def second : Nat := b₁.toNat % 4 * 16 + b₂.toNat / 16

def third : Nat := b₂.toNat % 16 * 4 + b₃.toNat / 64

def fourth : Nat := b₃.toNat % 64

theorem first_lt : first b₁ < 64 := by
  have h₁ := b₁.toNat_lt
  unfold first
  omega

theorem second_lt : second b₁ b₂ < 64 := by
  have h₂ := b₂.toNat_lt
  unfold second
  omega

theorem third_lt : third b₂ b₃ < 64 := by
  have h₃ := b₃.toNat_lt
  unfold third
  omega

theorem fourth_lt : fourth b₃ < 64 := mod_lt _ (by decide)

end Split

section Join

variable (s₁ s₂ s₃ s₄ : Nat)

def byte₁ : UInt8 := UInt8.ofNat (s₁ * 4 + s₂ / 16)

def byte₂ : UInt8 := UInt8.ofNat (s₂ % 16 * 16 + s₃ / 4)

def byte₃ : UInt8 := UInt8.ofNat (s₃ % 4 * 64 + s₄)

end Join

section RoundTrip

variable (b₁ b₂ b₃ : UInt8)

theorem byte₁_first : byte₁ (first b₁) (second b₁ b₂) = b₁ := by
  have h₂ := b₂.toNat_lt
  have hjoin : first b₁ * 4 + second b₁ b₂ / 16 = b₁.toNat := by
    unfold first second
    omega
  rw [byte₁, hjoin, UInt8.ofNat_toNat]

theorem byte₂_second : byte₂ (second b₁ b₂) (third b₂ b₃) = b₂ := by
  have h₂ := b₂.toNat_lt
  have h₃ := b₃.toNat_lt
  have hjoin : second b₁ b₂ % 16 * 16 + third b₂ b₃ / 4 = b₂.toNat := by
    unfold second third
    omega
  rw [byte₂, hjoin, UInt8.ofNat_toNat]

theorem byte₃_third : byte₃ (third b₂ b₃) (fourth b₃) = b₃ := by
  have h₃ := b₃.toNat_lt
  have hjoin : third b₂ b₃ % 4 * 64 + fourth b₃ = b₃.toNat := by
    unfold third fourth
    omega
  rw [byte₃, hjoin, UInt8.ofNat_toNat]

end RoundTrip

theorem toNat_or {x y : UInt8} (k : Nat) (hx : x.toNat % 2 ^ k = 0) (hy : y.toNat < 2 ^ k) :
    (x ||| y).toNat = x.toNat + y.toNat := by
  obtain ⟨a, ha⟩ := dvd_of_mod_eq_zero hx
  rw [UInt8.toNat_or, ha, ← two_pow_add_eq_or_of_lt hy]

variable (b : UInt8)

theorem toNat_shiftRight (k : Nat) (h : k < 8) :
    (b >>> UInt8.ofNat k).toNat = b.toNat / 2 ^ k := by
  rw [UInt8.toNat_shiftRight, UInt8.toNat_ofNat', mod_eq_of_lt (by omega : k < 256),
    mod_eq_of_lt h, shiftRight_eq_div_pow]

theorem toNat_shiftLeft (k : Nat) (h : k < 8) :
    (b <<< UInt8.ofNat k).toNat = b.toNat * 2 ^ k % 256 := by
  rw [UInt8.toNat_shiftLeft, UInt8.toNat_ofNat', mod_eq_of_lt (by omega : k < 256),
    mod_eq_of_lt h, shiftLeft_eq]

theorem toNat_and_mask (k : Nat) (h : k < 8) :
    (b &&& UInt8.ofNat (2 ^ k - 1)).toNat = b.toNat % 2 ^ k := by
  have hpow : 2 ^ k < 256 := Nat.pow_lt_pow_right (by decide) h
  rw [UInt8.toNat_and, UInt8.toNat_ofNat', mod_eq_of_lt (by omega), and_two_pow_sub_one_eq_mod]

theorem toNat_and_shifted (k m : Nat) (h : k + m ≤ 7) :
    ((b <<< UInt8.ofNat k) &&& UInt8.ofNat ((2 ^ m - 1) * 2 ^ k)).toNat =
      b.toNat % 2 ^ m * 2 ^ k := by
  have hbound : 2 ^ m * 2 ^ k < 256 := by
    rw [← Nat.pow_add]
    exact Nat.pow_lt_pow_right (by decide) (by omega : m + k < 8)
  have hmask : (2 ^ m - 1) * 2 ^ k < 256 :=
    Nat.lt_of_le_of_lt (Nat.mul_le_mul_right _ (sub_le _ _)) hbound
  have hsplit : 256 = 2 ^ k * 2 ^ (8 - k) := by
    rw [← Nat.pow_add, Nat.add_sub_cancel' (by omega)]
  have hdvd : 2 ^ m ∣ 2 ^ (8 - k) := Nat.pow_dvd_pow 2 (by omega)
  rw [UInt8.toNat_and, toNat_shiftLeft b k (by omega), UInt8.toNat_ofNat', mod_eq_of_lt hmask,
    hsplit, Nat.mul_comm b.toNat, mul_mod_mul_left, Nat.mul_comm (2 ^ k), ← shiftLeft_eq,
    ← shiftLeft_eq, ← shiftLeft_and_distrib, and_two_pow_sub_one_eq_mod,
    mod_mod_of_dvd _ hdvd, shiftLeft_eq]

end Ong.Sextets
