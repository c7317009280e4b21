import Mathlib.Data.List.Basic
import Mathlib.Algebra.Ring.Int.Defs
import Mathlib.Algebra.Ring.Nat

/-!
# Characters and sets of them

A Java string is a list of UTF-16 code units.  The utilities keep a set of ASCII characters in two
masks of 64 bits, and use the bit of `NUL` for something else.

## Main results

* `Mask.has_union`, `has_ofChars`, `has_escaped`: the characters of a set
-/

namespace Ong.Util

/-- A Java string, as its UTF-16 code units. -/
abbrev JavaString := List UInt16

/-- The code unit of a character of the basic plane. -/
def ch (c : Char) : UInt16 := UInt16.ofNat c.toNat

/-- A literal. -/
def javaString (s : String) : JavaString := s.toList.map ch

/-- The two masks of a set of ASCII characters. -/
structure Mask where
  low : UInt64
  high : UInt64
  deriving DecidableEq

namespace Mask

/-- `lowMask(chars)` and `highMask(chars)` -/
def ofChars (chars : JavaString) : Mask where
  low := chars.foldl
    (fun (m : UInt64) (c : UInt16) => if c < 64 then m ||| ((1 : UInt64) <<< c.toUInt64) else m) 0
  high := chars.foldl
    (fun (m : UInt64) (c : UInt16) =>
      if c ≥ 64 ∧ c < 128 then m ||| ((1 : UInt64) <<< (c.toUInt64 - 64)) else m) 0

/-- The bits from one to another. -/
def bits (f l : Nat) : UInt64 :=
  (List.range' f (l + 1 - f)).foldl
    (fun (m : UInt64) i => m ||| ((1 : UInt64) <<< UInt64.ofNat i)) 0

/-- `lowMask(first, last)` -/
def lowRange (first last : UInt16) : UInt64 :=
  bits (max (min first.toNat 63) 0) (max (min last.toNat 63) 0)

/-- `highMask(first, last)` -/
def highRange (first last : UInt16) : UInt64 :=
  bits (max (min first.toNat 127) 64 - 64) (max (min last.toNat 127) 64 - 64)

instance : Union Mask := ⟨fun s t => ⟨s.low ||| t.low, s.high ||| t.high⟩⟩

/-- `match` -/
def has (s : Mask) (c : UInt16) : Bool :=
  if c < 64 then ((1 : UInt64) <<< c.toUInt64) &&& s.low != 0
  else if c < 128 then ((1 : UInt64) <<< (c.toUInt64 - 64)) &&& s.high != 0
  else false

/-- `L_ESCAPED` and `H_ESCAPED`: the zeroth bit allows escapes and characters outside ASCII. -/
def escaped : Mask := ⟨1, 0⟩

/-- `L_DIGIT` and `H_DIGIT` -/
def digit : Mask := ⟨lowRange (ch '0') (ch '9'), 0⟩

/-- `L_ALPHA` and `H_ALPHA` -/
def alpha : Mask :=
  ⟨0 ||| 0, highRange (ch 'a') (ch 'z') ||| highRange (ch 'A') (ch 'Z')⟩

/-- `L_ALPHANUM` and `H_ALPHANUM` -/
def alphanum : Mask := digit ∪ alpha

/-- Whether escapes and characters outside ASCII are allowed. -/
def allowsEscapes (s : Mask) : Bool := s.low &&& 1 != 0

section Membership

variable {s t : Mask} {c : UInt16} {cs : JavaString}

theorem toNat_one_shiftLeft {n : UInt64} (hn : n.toNat < 64) :
    ((1 : UInt64) <<< n).toNat = 2 ^ n.toNat := by
  rw [UInt64.toNat_shiftLeft, Nat.mod_eq_of_lt hn]
  exact (congrArg (· % 2 ^ 64) (Nat.one_shiftLeft _)).trans
    (Nat.mod_eq_of_lt (Nat.pow_lt_pow_right (by decide) hn))

theorem and_bne_zero (m : UInt64) {n : UInt64} (hn : n.toNat < 64) :
    ((1 : UInt64) <<< n &&& m != 0) = m.toNat.testBit n.toNat := by
  have hand : ((1 : UInt64) <<< n &&& m).toNat = 2 ^ n.toNat &&& m.toNat := by
    rw [UInt64.toNat_and, toNat_one_shiftLeft hn]
  have hbits : ∀ i, (2 ^ n.toNat &&& m.toNat).testBit i =
      (decide (n.toNat = i) && m.toNat.testBit i) := fun i => by
    rw [Nat.testBit_and, Nat.testBit_two_pow]
  cases hbit : m.toNat.testBit n.toNat with
  | false =>
    have hzero : (1 : UInt64) <<< n &&& m = 0 := by
      refine UInt64.toNat_inj.mp (hand.trans (Nat.eq_of_testBit_eq fun i => ?_))
      rw [hbits]
      by_cases hi : n.toNat = i
      · rw [← hi, hbit, Bool.and_false]
        exact (Nat.zero_testBit _).symm
      · rw [decide_eq_false hi, Bool.false_and]
        exact (Nat.zero_testBit _).symm
    rw [hzero]
    rfl
  | true =>
    refine bne_iff_ne.mpr fun hzero => ?_
    have hset := hbits n.toNat
    rw [← hand, hzero, hbit, decide_eq_true rfl] at hset
    exact absurd hset (by simp)

theorem has_of_lt (h : c.toNat < 64) : s.has c = s.low.toNat.testBit c.toNat := by
  have hc : c < 64 := h
  rw [has, if_pos hc]
  exact and_bne_zero s.low (n := c.toUInt64) h

theorem has_of_ge (h : 64 ≤ c.toNat) (h' : c.toNat < 128) :
    s.has c = s.high.toNat.testBit (c.toNat - 64) := by
  have hc : ¬ c < 64 := Nat.not_lt.mpr h
  have hc' : c < 128 := h'
  have hsub : (c.toUInt64 - 64).toNat = c.toNat - 64 := UInt64.toNat_sub_of_le _ _ h
  rw [has, if_neg hc, if_pos hc', and_bne_zero _ (by omega), hsub]

theorem has_eq_false (h : 128 ≤ c.toNat) : s.has c = false := by
  have hge : 64 ≤ c.toNat := by omega
  have hc : ¬ c < 64 := Nat.not_lt.mpr hge
  have hc' : ¬ c < 128 := Nat.not_lt.mpr h
  rw [has, if_neg hc, if_neg hc']

theorem has_union : (s ∪ t).has c = (s.has c || t.has c) := by
  rcases Nat.lt_or_ge c.toNat 64 with h | h
  · rw [has_of_lt h, has_of_lt h, has_of_lt h]
    exact (congrArg (Nat.testBit · _) (UInt64.toNat_or ..)).trans (Nat.testBit_or ..)
  · rcases Nat.lt_or_ge c.toNat 128 with h' | h'
    · rw [has_of_ge h h', has_of_ge h h', has_of_ge h h']
      exact (congrArg (Nat.testBit · _) (UInt64.toNat_or ..)).trans (Nat.testBit_or ..)
    · rw [has_eq_false h', has_eq_false h', has_eq_false h']
      rfl

theorem foldl_or {α : Type*} (f : α → UInt64) (p : α → Prop) [DecidablePred p] (as : List α)
    (m : UInt64) (i : ℕ) :
    (as.foldl (fun m a => if p a then m ||| f a else m) m).toNat.testBit i = true ↔
      m.toNat.testBit i = true ∨ ∃ a ∈ as, p a ∧ (f a).toNat.testBit i = true := by
  induction as generalizing m with
  | nil => simp
  | cons a as ih =>
    rw [List.foldl_cons, ih, List.exists_mem_cons_iff]
    by_cases ha : p a
    · rw [if_pos ha, UInt64.toNat_or, Nat.testBit_or, Bool.or_eq_true, or_assoc]
      simp only [ha, true_and]
    · simp only [ha, if_false, false_and, false_or]

/-- The masks of some characters are for those of them that are ASCII. -/
theorem has_ofChars : (ofChars cs).has c = true ↔ c.toNat < 128 ∧ c ∈ cs := by
  rcases Nat.lt_or_ge c.toNat 64 with h | h
  · have hbit : ∀ a : UInt16, a < 64 ∧ ((1 : UInt64) <<< a.toUInt64).toNat.testBit c.toNat = true ↔
        a = c := by
      refine fun a => ⟨fun ⟨ha, hac⟩ => ?_, ?_⟩
      · rw [toNat_one_shiftLeft (n := a.toUInt64) ha, Nat.testBit_two_pow,
          decide_eq_true_iff] at hac
        exact UInt16.toNat_inj.mp hac
      · rintro rfl
        refine ⟨h, ?_⟩
        rw [toNat_one_shiftLeft (n := a.toUInt64) h, Nat.testBit_two_pow, decide_eq_true_iff]
        rfl
    rw [has_of_lt h, ofChars, foldl_or]
    simp only [hbit, exists_eq_right, UInt64.toNat_zero, Nat.zero_testBit, Bool.false_eq_true,
      false_or, (by omega : c.toNat < 128), true_and]
  · rcases Nat.lt_or_ge c.toNat 128 with h' | h'
    · have hbit : ∀ a : UInt16, (a ≥ 64 ∧ a < 128) ∧
          ((1 : UInt64) <<< (a.toUInt64 - 64)).toNat.testBit (c.toNat - 64) = true ↔ a = c := by
        refine fun a => ⟨fun ⟨ha, hac⟩ => ?_, ?_⟩
        · have hsub : (a.toUInt64 - 64).toNat = a.toNat - 64 := UInt64.toNat_sub_of_le _ _ ha.1
          have hge : 64 ≤ a.toNat := ha.1
          have hlt : a.toNat < 128 := ha.2
          rw [toNat_one_shiftLeft (by omega), hsub, Nat.testBit_two_pow, decide_eq_true_iff] at hac
          exact UInt16.toNat_inj.mp (by omega)
        · rintro rfl
          have hsub : (a.toUInt64 - 64).toNat = a.toNat - 64 := UInt64.toNat_sub_of_le _ _ h
          refine ⟨⟨h, h'⟩, ?_⟩
          rw [toNat_one_shiftLeft (by omega), hsub, Nat.testBit_two_pow, decide_eq_true_iff]
      rw [has_of_ge h h', ofChars, foldl_or]
      simp only [hbit, exists_eq_right, UInt64.toNat_zero, Nat.zero_testBit, Bool.false_eq_true,
        false_or, h', true_and]
    · rw [has_eq_false h']
      simp [Nat.not_lt.mpr h']

/-- The flag of the escapes is the bit of `NUL`. -/
theorem has_escaped : escaped.has c = true ↔ c = 0 := by
  have hnul : escaped = ofChars [0] := by decide
  rw [hnul, has_ofChars, List.mem_singleton]
  refine ⟨And.right, ?_⟩
  rintro rfl
  exact ⟨by decide, rfl⟩

end Membership

end Mask

def isISOControl (c : UInt16) : Bool :=
  decide (c ≤ 0x1F) || (decide (0x7F ≤ c) && decide (c ≤ 0x9F))

/-- `isSpaceChar`: the white space of ISO Latin 1, as the bits of a mask. -/
def isSpaceChar (c : UInt16) : Bool :=
  decide (c ≤ 0x20) &&
    ((Mask.ofChars [0x09, 0x0A, 0x0C, 0x0D, 0x20]).low >>> c.toUInt64) &&& 1 != 0

end Ong.Util
