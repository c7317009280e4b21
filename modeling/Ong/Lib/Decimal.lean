import Mathlib.Data.List.Basic
import Mathlib.Algebra.Ring.Int.Defs
import Mathlib.Algebra.Ring.Nat

/-!
# Decimal numbers in bytes

A number is written from its last digit to its first, and read from its first to its last.

## Main results

* `value_textLoop`: a number is read as it was written
* `isDigit_of_mem_textLoop`: only digits are written
-/

namespace Ong.Decimal

open List

/-- The byte of a digit. -/
def digit (d : Nat) : UInt8 := UInt8.ofNat (48 + d)

def isDigit (b : UInt8) : Bool := 48 ≤ b.toNat && b.toNat ≤ 57

/-- The digits of a number written in front of a text. -/
def textLoop : Nat → Nat → List UInt8 → List UInt8
  | 0, _, out => out
  | k + 1, i, out => if i = 0 then out else textLoop k (i / 10) (digit (i % 10) :: out)

/-- One more digit read. -/
def readDigit (v : Int) (b : UInt8) : Int := v * 10 + ((b.toNat : Int) - 48)

/-- What a text is read as. -/
def value (bs : List UInt8) : Int := bs.foldl readDigit 0

variable {k i d : Nat} {out : List UInt8}

theorem toNat_digit (h : d < 10) : (digit d).toNat = 48 + d := by
  rw [digit, UInt8.toNat_ofNat']
  omega

theorem readDigit_digit (v : Int) (h : d < 10) : readDigit v (digit d) = v * 10 + d := by
  rw [readDigit, toNat_digit h]
  omega

theorem isDigit_digit (h : d < 10) : isDigit (digit d) = true := by
  rw [isDigit, toNat_digit h]
  simp only [Bool.and_eq_true, decide_eq_true_eq]
  omega

theorem textLoop_of_pos (h : i ≠ 0) :
    textLoop (k + 1) i out = textLoop k (i / 10) (digit (i % 10) :: out) := by
  rw [textLoop, if_neg h]

theorem textLoop_zero : textLoop k 0 out = out := by
  cases k with
  | zero => rfl
  | succ k => rw [textLoop, if_pos rfl]

theorem foldl_textLoop (h : i < 10 ^ k) (out : List UInt8) :
    (textLoop k i out).foldl readDigit 0 = out.foldl readDigit i := by
  induction k generalizing i out with
  | zero =>
    obtain rfl : i = 0 := by simpa using h
    rfl
  | succ k ih =>
    by_cases hi : i = 0
    · rw [hi, textLoop_zero]
      rfl
    · have hdiv : i / 10 < 10 ^ k := by
        rw [Nat.pow_succ] at h
        omega
      rw [textLoop_of_pos hi, ih hdiv, foldl_cons, readDigit_digit _ (Nat.mod_lt i (by omega))]
      congr 1
      omega

/-- **A number is read as it was written.** -/
theorem value_textLoop (h : i < 10 ^ k) : value (textLoop k i []) = i := foldl_textLoop h []

theorem isDigit_of_mem_textLoop {b : UInt8} (h : b ∈ textLoop k i out) :
    isDigit b = true ∨ b ∈ out := by
  induction k generalizing i out with
  | zero => exact Or.inr h
  | succ k ih =>
    by_cases hi : i = 0
    · rw [hi, textLoop_zero] at h
      exact Or.inr h
    · rw [textLoop_of_pos hi] at h
      rcases ih h with hb | hb
      · exact Or.inl hb
      · rcases mem_cons.mp hb with rfl | hb
        · exact Or.inl (isDigit_digit (Nat.mod_lt i (by omega)))
        · exact Or.inr hb

theorem length_le_textLoop : out.length ≤ (textLoop k i out).length := by
  induction k generalizing i out with
  | zero => exact Nat.le_refl _
  | succ k ih =>
    by_cases hi : i = 0
    · rw [hi, textLoop_zero]
    · rw [textLoop_of_pos hi]
      have hlen := @ih (i / 10) (digit (i % 10) :: out)
      rw [length_cons] at hlen
      exact Nat.le_of_succ_le hlen

theorem length_textLoop_le : (textLoop k i out).length ≤ k + out.length := by
  induction k generalizing i out with
  | zero => rw [textLoop, Nat.zero_add]
  | succ k ih =>
    by_cases hi : i = 0
    · rw [hi, textLoop_zero]
      omega
    · rw [textLoop_of_pos hi]
      have hlen := @ih (i / 10) (digit (i % 10) :: out)
      rw [length_cons] at hlen
      omega

theorem length_textLoop_le_of_lt {j : Nat} (h : i < 10 ^ j) :
    (textLoop k i out).length ≤ j + out.length := by
  induction k generalizing i j out with
  | zero => exact Nat.le_add_left _ _
  | succ k ih =>
    by_cases hi : i = 0
    · rw [hi, textLoop_zero]
      exact Nat.le_add_left _ _
    · rw [textLoop_of_pos hi]
      cases j with
      | zero => exact absurd (Nat.lt_one_iff.mp h) hi
      | succ j =>
        have hdiv : i / 10 < 10 ^ j := by
          rw [Nat.pow_succ] at h
          omega
        have hlen := @ih _ (digit (i % 10) :: out) j hdiv
        rw [length_cons] at hlen
        omega

theorem value_zeros (n : Nat) (bs : List UInt8) :
    value (replicate n (digit 0) ++ bs) = value bs := by
  induction n with
  | zero => rfl
  | succ n ih =>
    rw [← ih, replicate_succ, cons_append, value, foldl_cons,
      readDigit_digit 0 (by omega)]
    rfl

theorem value_nonneg {bs : List UInt8} (h : ∀ b ∈ bs, isDigit b = true) : 0 ≤ value bs := by
  have hfold (v : Int) (hv : 0 ≤ v) : 0 ≤ bs.foldl readDigit v := by
    induction bs generalizing v with
    | nil => exact hv
    | cons b bs ih =>
      obtain ⟨hb, hbs⟩ := forall_mem_cons.mp h
      rw [isDigit, Bool.and_eq_true, decide_eq_true_eq, decide_eq_true_eq] at hb
      refine ih hbs _ ?_
      rw [readDigit]
      omega
  exact hfold 0 (Int.le_refl 0)

theorem textLoop_ne_nil (h : i ≠ 0) : textLoop (k + 1) i out ≠ [] := by
  rw [textLoop_of_pos h]
  intro hnil
  have := @length_le_textLoop k (i / 10) (digit (i % 10) :: out)
  rw [hnil] at this
  cases this

end Ong.Decimal
