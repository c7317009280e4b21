import Mathlib.Tactic.Ring

/-!
# Integers rounded to a significand

A floating point format with `p` bits in its significand holds an integer if it is a number of `p`
bits followed by zeros.  Other integers are rounded to the nearest such number, ties to the one whose
last bit is zero.

## Main results

* `round_eq_self_iff`: exactly the integers that the format holds are kept
-/

namespace Ong.Significand

/-- A number of `p` bits, with its sign, and zeros behind it. -/
def Holds (p : Nat) (n : Int) : Prop := ∃ (q : Int) (k : Nat), q.natAbs < 2 ^ p ∧ n = q * 2 ^ k

/-- The bits of a number behind its first `p` ones. -/
def excess (p n : Nat) : Nat := n.log2 + 1 - p

/-- The nearest number to `n` with zeros behind its first `p` bits. -/
def roundNat (p n : Nat) : Nat :=
  let unit := 2 ^ excess p n
  let q := n / unit
  if 2 * (n % unit) < unit then q * unit
  else if unit < 2 * (n % unit) then (q + 1) * unit
  else (q + q % 2) * unit

/-- The conversion of an integer to a format whose significand has `p` bits. -/
def round (p : Nat) (n : Int) : Int := n.sign * roundNat p n.natAbs

variable {p n : Nat}

theorem roundNat_eq_self_iff : roundNat p n = n ↔ 2 ^ excess p n ∣ n := by
  have hpos : 0 < 2 ^ excess p n := Nat.two_pow_pos _
  have hlt := Nat.mod_lt n hpos
  have hsplit := Nat.div_add_mod' n (2 ^ excess p n)
  rw [Nat.dvd_iff_mod_eq_zero]
  simp only [roundNat]
  generalize 2 ^ excess p n = unit at *
  by_cases hzero : n % unit = 0
  · refine iff_of_true ?_ hzero
    rw [if_pos (by omega)]
    omega
  · refine iff_of_false ?_ hzero
    have hnext : (n / unit + 1) * unit = n / unit * unit + unit := by ring
    split_ifs
    · omega
    · omega
    · rcases Nat.mod_two_eq_zero_or_one (n / unit) with heven | hodd
      · rw [heven, Nat.add_zero]
        omega
      · rw [hodd]
        omega

/-- A number is kept as long as its last bits are zeros. -/
theorem dvd_iff_holds : 2 ^ excess p n ∣ n ↔ Holds p n := by
  constructor
  · rintro ⟨q, hq⟩
    refine ⟨q, excess p n, ?_, by rw [mul_comm]; exact_mod_cast hq⟩
    rw [Int.natAbs_natCast]
    have hlt : 2 ^ excess p n * q < 2 ^ (n.log2 + 1) := hq ▸ Nat.lt_log2_self
    have hle : n.log2 + 1 ≤ excess p n + p := by
      rw [excess]
      omega
    refine Nat.lt_of_mul_lt_mul_left (a := 2 ^ excess p n) (hlt.trans_le ?_)
    rw [← Nat.pow_add]
    exact Nat.pow_le_pow_right Nat.two_pos hle
  · rintro ⟨q, k, hq, heq⟩
    rcases Nat.eq_zero_or_pos n with rfl | hpos
    · exact dvd_zero _
    have hnat : n = q.natAbs * 2 ^ k := by
      have habs := congrArg Int.natAbs heq
      rwa [Int.natAbs_natCast, Int.natAbs_mul, Int.natAbs_pow] at habs
    by_cases hle : excess p n ≤ k
    · rw [hnat]
      exact (hnat ▸ Nat.pow_dvd_pow 2 hle).mul_left _
    · have hlt : n < 2 ^ (p + k) := by
        rw [hnat, Nat.pow_add]
        exact Nat.mul_lt_mul_of_pos_right hq (Nat.two_pow_pos k)
      have hexp : p + k ≤ n.log2 := by
        rw [excess] at hle
        omega
      exact absurd (hlt.trans_le (Nat.pow_le_pow_right Nat.two_pos hexp))
        (Nat.not_lt.mpr (Nat.log2_self_le hpos.ne'))

theorem holds_natAbs {n : Int} : Holds p n.natAbs ↔ Holds p n := by
  constructor
  · rintro ⟨q, k, hq, heq⟩
    rcases Int.natAbs_eq n with hn | hn
    · exact ⟨q, k, hq, hn.trans heq⟩
    · refine ⟨-q, k, by rwa [Int.natAbs_neg], ?_⟩
      rw [hn, heq, Int.neg_mul]
  · rintro ⟨q, k, hq, rfl⟩
    refine ⟨q.natAbs, k, by rwa [Int.natAbs_natCast], ?_⟩
    rw [Int.natAbs_mul, Int.natAbs_pow]
    rfl

/-- **What a conversion keeps.** -/
theorem round_eq_self_iff {n : Int} : round p n = n ↔ Holds p n := by
  rw [← holds_natAbs, ← dvd_iff_holds, ← roundNat_eq_self_iff, round]
  by_cases hzero : n = 0
  · subst hzero
    exact iff_of_true (Int.zero_mul _) (roundNat_eq_self_iff.mpr (dvd_zero _))
  · have hsign : n.sign ≠ 0 := mt Int.sign_eq_zero_iff_zero.mp hzero
    conv_lhs => rhs; rw [← Int.sign_mul_natAbs n]
    rw [Int.mul_eq_mul_left_iff hsign]
    exact Int.ofNat_inj

instance (p : Nat) (n : Int) : Decidable (Holds p n) :=
  decidable_of_iff (round p n = n) round_eq_self_iff

/-- A number of at most `p` bits is kept. -/
theorem round_of_lt {n : Int} (h : n.natAbs < 2 ^ p) : round p n = n :=
  round_eq_self_iff.mpr ⟨n, 0, h, (Int.mul_one n).symm⟩

/-- Single precision. -/
example : round 24 1234567890 = 1234567936 := by decide +kernel

end Ong.Significand
