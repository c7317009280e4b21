import Ong.Lib.Printf

/-!
# Bytes as hexadecimal text

Two tools, each of which the runtime base and the Watteco driver have under a name of their own: one
writes bytes as pairs of digits, the other one reads them and passes over everything else between
the pairs.  Both take a maximum, and end with a zero.

## Main results

* `Twin.tools`: what is written is read, and how much is stored
-/

namespace Ong.Rtbase

open List

open Printf (hexPair hexDigit isHexDigit scanHexPair)

/-- The loop of `rtl_binToStr`, with `j` characters stored, and the zero behind it. -/
def binToStrLoop (max : Int) : List UInt8 → Nat → List UInt8
  | [], _ => [0]
  | b :: bin, j =>
    if (j : Int) < max then
      hexDigit (b.toNat / 16) :: hexDigit (b.toNat % 16) :: binToStrLoop max bin (j + 2)
    else [0]

/-- All that is stored in `dst`, for `lg` bytes. -/
def binToStr (bin : List UInt8) (max : Int) : List UInt8 := binToStrLoop max bin 0

/-- The loop of `rtl_strToBin`, with `i` bytes stored. -/
def strToBinLoop (max : Int) : List UInt8 → Nat → List UInt8
  | [], _ => []
  | [_], _ => []
  | c :: d :: str, i =>
    if (i : Int) < max then
      if isHexDigit c then
        match scanHexPair [c, d] with
        | some x => UInt8.ofNat x :: strToBinLoop max str (i + 1)
        | none => []
      else strToBinLoop max (d :: str) i
    else []

/-- The number of bytes, and all that is stored in `bin`; the text has no zero inside. -/
def strToBin (str : Option (List UInt8)) (max : Int) : Nat × List UInt8 :=
  let bytes := strToBinLoop max (str.getD []) 0
  (bytes.length, bytes ++ [0])

def rtlBinToStr := binToStr

def rtlStrToBin := strToBin

def awBinToStr := binToStr

def awStrToBin := strToBin

/-- The libraries that have the tools. -/
inductive Twin
  | rtbase
  | watteco

def Twin.binToStr : Twin → List UInt8 → Int → List UInt8
  | rtbase => rtlBinToStr
  | watteco => awBinToStr

def Twin.strToBin : Twin → Option (List UInt8) → Int → Nat × List UInt8
  | rtbase => rtlStrToBin
  | watteco => awStrToBin

/-- A text of pairs of digits for bytes, with separators in front of the pairs and at the end. -/
inductive Spells : List UInt8 → List UInt8 → Prop
  | nil {separator : List UInt8} (h : ∀ c ∈ separator, isHexDigit c = false) : Spells [] separator
  | cons {separator text bytes : List UInt8} {b : UInt8}
      (h : ∀ c ∈ separator, isHexDigit c = false) (ht : Spells bytes text) :
      Spells (b :: bytes) (separator ++ (hexPair b ++ text))

/-- The bytes of the pairs that a text begins with, up to one that is no number. -/
def spelled : List UInt8 → List UInt8
  | [] => []
  | [_] => []
  | c :: d :: text =>
    if isHexDigit c then
      match scanHexPair [c, d] with
      | some x => UInt8.ofNat x :: spelled text
      | none => []
    else spelled (d :: text)

/-- What the tools do for bytes, texts and a maximum: the text of the bytes, read with any
separators, gives them back, and each of the two stores no more than the maximum under a condition
of its own. -/
structure Tools (binToStr : List UInt8 → Int → List UInt8)
    (strToBin : Option (List UInt8) → Int → Nat × List UInt8) (max : Int) : Prop where
  text : ∀ bin : List UInt8, 2 * (bin.length : Int) < max →
    binToStr bin max = bin.flatMap hexPair ++ [0]
  back : ∀ bin text : List UInt8, Spells bin text → (bin.length : Int) ≤ max →
    strToBin (some text) max = (bin.length, bin ++ [0])
  textWithin : ∀ bin : List UInt8,
    ((binToStr bin max).length : Int) ≤ max ↔ 2 * (bin.length : Int) < max
  backWithin : ∀ str : Option (List UInt8),
    ((strToBin str max).2.length : Int) ≤ max ↔ ((spelled (str.getD [])).length : Int) < max

variable {bin text : List UInt8} {max : Int} {i j : Nat}

/-! ### Writing -/

theorem binToStrLoop_of_lt (h : j + 2 * (bin.length : Int) < max + 1) :
    binToStrLoop max bin j = bin.flatMap hexPair ++ [0] := by
  induction bin generalizing j with
  | nil => rfl
  | cons b bin ih =>
    rw [length_cons] at h
    rw [binToStrLoop, if_pos (by omega), ih (by omega)]
    rfl

theorem length_binToStrLoop_le_iff :
    (j + (binToStrLoop max bin j).length : Int) ≤ max ↔ j + 2 * (bin.length : Int) < max := by
  induction bin generalizing j with
  | nil =>
    rw [binToStrLoop, length_singleton, length_nil]
    omega
  | cons b bin ih =>
    rw [binToStrLoop, length_cons]
    split
    · have := ih (j := j + 2)
      rw [length_cons, length_cons]
      omega
    · rw [length_singleton]
      omega

/-! ### Reading -/

theorem spelled_append {separator : List UInt8} (h : ∀ c ∈ separator, isHexDigit c = false) :
    spelled (separator ++ text) = spelled text := by
  induction separator with
  | nil => rfl
  | cons c separator ih =>
    obtain ⟨hc, hrest⟩ := forall_mem_cons.mp h
    rw [← ih hrest, cons_append]
    cases separator ++ text with
    | nil => rfl
    | cons d text => rw [spelled, hc, if_neg Bool.false_ne_true]

theorem spelled_hexPair (b : UInt8) : spelled (hexPair b ++ text) = b :: spelled text := by
  have hb := b.toNat_lt
  obtain ⟨hvalue, -⟩ := Printf.hexValue_hexDigit (n := b.toNat / 16) (by omega)
  have hdigit : isHexDigit (hexDigit (b.toNat / 16)) = true := by rw [isHexDigit, hvalue]; rfl
  have hscan : scanHexPair [hexDigit (b.toNat / 16), hexDigit (b.toNat % 16)] = some b.toNat :=
    Printf.scanHexPair_hexPair b []
  have hpair : hexPair b ++ text =
      hexDigit (b.toNat / 16) :: hexDigit (b.toNat % 16) :: text := rfl
  rw [hpair, spelled, if_pos hdigit, hscan]
  exact congrArg (· :: spelled text) (UInt8.ofNat_toNat ..)

theorem spelled_of_spells (h : Spells bin text) : spelled text = bin := by
  induction h with
  | nil h =>
    have hnil : spelled (_ ++ []) = spelled [] := spelled_append h
    rwa [append_nil] at hnil
  | cons h _ ih => rw [spelled_append h, spelled_hexPair, ih]

theorem strToBinLoop_eq : strToBinLoop max text i = (spelled text).take (max - i).toNat := by
  induction text using spelled.induct generalizing i with
  | case1 => rw [strToBinLoop, spelled, take_nil]
  | case2 c => rw [strToBinLoop, spelled, take_nil]
  | case3 c d text hc x hx ih =>
    rw [strToBinLoop, spelled, if_pos hc, if_pos hc, hx]
    split
    · have hnext : (max - (i : Int)).toNat = (max - ((i + 1 : Nat) : Int)).toNat + 1 := by omega
      rw [ih, hnext, take_succ_cons]
    · rw [show (max - (i : Int)).toNat = 0 by omega, take_zero]
  | case4 c d text hc hx =>
    rw [strToBinLoop, spelled, if_pos hc, if_pos hc, hx, take_nil]
    split <;> rfl
  | case5 c d text hc ih =>
    rw [strToBinLoop, spelled, if_neg hc, if_neg hc]
    split
    · exact ih
    · rw [show (max - (i : Int)).toNat = 0 by omega, take_zero]

/-- **The tools of both libraries**: what is written is read, whatever stands between the pairs; but
only bytes of which twice the number is below the maximum, and texts with fewer pairs than the
maximum, are stored within it. -/
theorem Twin.tools (twin : Twin) (max : Int) : Tools twin.binToStr twin.strToBin max := by
  have hboth : Tools Rtbase.binToStr Rtbase.strToBin max := by
    refine ⟨fun bin h => binToStrLoop_of_lt (by omega), fun bin text h hmax => ?_, fun bin => ?_,
      fun str => ?_⟩
    · have hbytes : strToBinLoop max text 0 = bin := by
        rw [strToBinLoop_eq, spelled_of_spells h, take_of_length_le (by omega)]
      rw [Rtbase.strToBin, Option.getD_some, hbytes]
    · have := @length_binToStrLoop_le_iff bin max 0
      rw [Rtbase.binToStr]
      omega
    · rw [Rtbase.strToBin, strToBinLoop_eq, length_append, length_take,
        length_singleton]
      omega
  cases twin
  · exact hboth
  · exact hboth

/-- A buffer of two bytes for the text of one: three are stored. -/
theorem not_within_two : ¬∀ (twin : Twin) (max : Int) (bin : List UInt8),
    ((twin.binToStr bin max).length : Int) ≤ max :=
  fun h => absurd (h .rtbase 2 [0xab]) (by decide)

end Ong.Rtbase
