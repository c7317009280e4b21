import Mathlib.Data.List.Induction
import Ong.Lib.Delimiter
import Ong.M2M.Basic
import Ong.Util.CharacterUtils

/-!
# Reading strings

The reader of the utilities: a message and what is left of it.  A read that does not find what it
expects throws a `ParseException`, which has the message and an offset in it.

## Main results

* `readLong_append`, `readInt_append`: what is read where digits stand
* `numeral_decimal`: a number is read as it was written
-/

namespace Ong.Util

open List

open M2M (toLong toInt)

structure ParseException where
  message : JavaString
  errorOffset : Nat
  deriving DecidableEq

/-- `StringReader`, with the rest of the message in the place of the offset. -/
structure StringReader where
  message : JavaString
  rest : JavaString

/-- A digit of ASCII. -/
def isDigit (c : UInt16) : Bool := decide (ch '0' ≤ c) && decide (c ≤ ch '9')

/-- The number that digits write. -/
def numeral (digits : JavaString) : Nat :=
  digits.foldl (fun n c => n * 10 + (c.toNat - 48)) 0

/-- The digits of a number, as `Long.toString` and `Integer.toString` have them. -/
def decimal (n : Nat) : JavaString := (Nat.toDigits 10 n).map ch

namespace StringReader

/-- `new StringReader(message)` -/
def ofMessage (message : JavaString) : StringReader := ⟨message, message⟩

variable (r : StringReader)

/-- `getOffset` -/
def offset : Nat := r.message.length - r.rest.length

/-- `new ParseException(message, offset)` -/
def failure : ParseException := ⟨r.message, r.offset⟩

def isTerminated : Bool := r.rest.isEmpty

def readCurrent : Except ParseException UInt16 :=
  match r.rest with
  | [] => .error r.failure
  | c :: _ => .ok c

def skipOffset (n : Nat) : Except ParseException StringReader :=
  if r.rest.length < n then .error ⟨r.message, r.message.length⟩
  else .ok { r with rest := r.rest.drop n }

def readCurrentAndSkip : Except ParseException (UInt16 × StringReader) :=
  match r.rest with
  | [] => .error r.failure
  | c :: rest => .ok (c, { r with rest })

def checkTerminated : Except ParseException Unit :=
  if r.isTerminated then .ok () else .error r.failure

def checkCurrentAndSkip (expected : UInt16) : Except ParseException StringReader :=
  match r.rest with
  | [] => .error r.failure
  | c :: rest => if c = expected then .ok { r with rest } else .error r.failure

/-- The reader behind the digits that stand here. -/
def skipDigits : StringReader := { r with rest := r.rest.dropWhile isDigit }

/-- The digits that stand here. -/
def digits : JavaString := r.rest.takeWhile isDigit

def readLong : Except ParseException (Int × StringReader) :=
  if r.isTerminated then .error r.failure
  else
    .ok (r.digits.foldl (fun result c => toLong (toLong (result * 10) + (c.toNat - 48))) 0,
      r.skipDigits)

/-- The loop of `readInt` and `readIntAndCheckLength`. -/
def intValue : Int := r.digits.foldl (fun result c => toInt (toInt (result * 10) + (c.toNat - 48))) 0

def readInt : Except ParseException (Int × StringReader) :=
  if r.isTerminated then .error r.failure else .ok (r.intValue, r.skipDigits)

/-- `readIntAndCheckLength(min, max)`, and with one length `readIntAndCheckLength(length)` -/
def readIntAndCheckLength (min max : Nat) : Except ParseException (Int × StringReader) :=
  if r.isTerminated then .error r.failure
  else if r.digits.length < min ∨ max < r.digits.length then .error r.skipDigits.failure
  else .ok (r.intValue, r.skipDigits)

/-- `read(buffer, lowMask, highMask)` for masks without `L_ESCAPED`, with what is put in the
buffer. -/
def read (mask : Mask) : JavaString × StringReader :=
  (r.rest.takeWhile mask.has, { r with rest := r.rest.dropWhile mask.has })

/-- `skip(c)`, without the character that it returns. -/
def skip (c : UInt16) : StringReader := { r with rest := r.rest.dropWhile (· = c) }

/-- `readUntil(lowMask, highMask)` for masks without `L_ESCAPED`. -/
def readUntil (mask : Mask) : JavaString × StringReader :=
  (r.rest.takeWhile fun c => !mask.has c, { r with rest := r.rest.dropWhile fun c => !mask.has c })

end StringReader

section Digits

variable {n m : Nat} {ds rest : JavaString} {c : UInt16}

theorem isDigit_iff : isDigit c = true ↔ 48 ≤ c.toNat ∧ c.toNat ≤ 57 := by
  rw [isDigit, Bool.and_eq_true, decide_eq_true_eq, decide_eq_true_eq]
  rfl

@[simp] theorem numeral_nil : numeral [] = 0 := rfl

theorem numeral_append (ds : JavaString) (c : UInt16) :
    numeral (ds ++ [c]) = numeral ds * 10 + (c.toNat - 48) := by
  rw [numeral, foldl_append]
  rfl

theorem toNat_ch_of_isDigit {c : Char} (h : c.isDigit = true) :
    (ch c).toNat = c.toNat ∧ 48 ≤ c.toNat ∧ c.toNat ≤ 57 := by
  have hrange : 48 ≤ c.toNat ∧ c.toNat ≤ 57 := by
    simpa [Char.isDigit, UInt32.le_iff_toNat_le] using h
  refine ⟨?_, hrange⟩
  rw [ch, UInt16.toNat_ofNat']
  omega

theorem isDigit_ch {c : Char} (h : c.isDigit = true) : isDigit (ch c) = true := by
  obtain ⟨heq, hrange⟩ := toNat_ch_of_isDigit h
  rw [isDigit_iff, heq]
  exact hrange

theorem isDigit_of_mem_decimal (h : c ∈ decimal n) : isDigit c = true := by
  obtain ⟨d, hd, rfl⟩ := mem_map.mp h
  exact isDigit_ch (Nat.isDigit_of_mem_toDigits (by decide) (by decide) hd)

theorem decimal_ne_nil : decimal n ≠ [] := by
  rw [decimal, ne_eq, map_eq_nil_iff]
  exact Nat.toDigits_ne_nil

/-- **A number is read as it was written.** -/
theorem numeral_decimal (n : Nat) : numeral (decimal n) = n := by
  have hfold : ∀ (cs : List Char) (init : Nat), (∀ c ∈ cs, c.isDigit = true) →
      (cs.map ch).foldl (fun n c => n * 10 + (c.toNat - 48)) init = Nat.ofDigitChars 10 cs init := by
    intro cs
    induction cs with
    | nil => intro init _; rfl
    | cons c cs ih =>
      intro init h
      have hc := toNat_ch_of_isDigit (h c mem_cons_self)
      rw [map_cons, foldl_cons, ih _ fun d hd => h d (mem_cons_of_mem _ hd),
        Nat.ofDigitChars_cons, hc.1]
      congr 1
      have hzero : '0'.toNat = 48 := rfl
      omega
  rw [numeral, decimal, hfold _ _ fun c hc => Nat.isDigit_of_mem_toDigits (by decide) (by decide) hc]
  exact Nat.ofDigitChars_ten_toDigits

theorem numeral_replicate_zero (n : Nat) (ds : JavaString) :
    numeral (replicate n (ch '0') ++ ds) = numeral ds := by
  induction n with
  | zero => rfl
  | succ n ih =>
    rw [replicate_succ, cons_append, ← ih, numeral, foldl_cons]
    rfl

theorem numeral_lt (h : ∀ c ∈ ds, isDigit c = true) : numeral ds < 10 ^ ds.length := by
  induction ds using reverseRecOn with
  | nil => exact Nat.one_pos
  | append_singleton ds c ih =>
    have hds := ih fun d hd => h d (mem_append_left _ hd)
    have hc := isDigit_iff.mp (h c (mem_append_right _ mem_cons_self))
    rw [numeral_append, length_append, length_singleton, Nat.pow_succ]
    omega

end Digits

/-! ## Reading -/

/-- No digit stands at the beginning. -/
def NoDigit (rest : JavaString) : Prop := ∀ c ∈ rest.head?, isDigit c = false

theorem noDigit_nil : NoDigit [] := nofun

theorem noDigit_cons {c : UInt16} {rest : JavaString} : NoDigit (c :: rest) ↔ isDigit c = false := by
  simp [NoDigit]

theorem noDigit_dropWhile (s : JavaString) : NoDigit (s.dropWhile isDigit) := by
  intro c hc
  cases hdrop : s.dropWhile isDigit with
  | nil =>
    rw [hdrop] at hc
    cases hc
  | cons d rest =>
    rw [hdrop] at hc
    obtain rfl := Option.some.inj hc
    have hne : s.dropWhile isDigit ≠ [] := by
      rw [hdrop]
      exact cons_ne_nil _ _
    simpa [hdrop] using head_dropWhile_not isDigit hne

theorem takeWhile_digits {ds rest : JavaString} (hds : ∀ c ∈ ds, isDigit c = true)
    (hrest : NoDigit rest) : (ds ++ rest).takeWhile isDigit = ds :=
  Delimiter.takeWhile_append hds hrest

theorem dropWhile_digits {ds rest : JavaString} (hds : ∀ c ∈ ds, isDigit c = true)
    (hrest : NoDigit rest) : (ds ++ rest).dropWhile isDigit = rest :=
  Delimiter.dropWhile_append hds hrest

namespace StringReader

variable {message ds rest : JavaString} {r : StringReader} {c : UInt16} {res : Int × StringReader}
  {min max : Nat}

theorem digits_append (hds : ∀ c ∈ ds, isDigit c = true) (hrest : NoDigit rest) :
    (⟨message, ds ++ rest⟩ : StringReader).digits = ds ∧
      (⟨message, ds ++ rest⟩ : StringReader).skipDigits = ⟨message, rest⟩ :=
  ⟨takeWhile_digits hds hrest, congrArg (StringReader.mk message) (dropWhile_digits hds hrest)⟩

theorem isDigit_of_mem_digits (h : c ∈ r.digits) : isDigit c = true := mem_takeWhile_imp h

theorem digits_append_skipDigits (r : StringReader) : r.digits ++ r.skipDigits.rest = r.rest :=
  takeWhile_append_dropWhile

theorem noDigit_skipDigits (r : StringReader) : NoDigit r.skipDigits.rest := noDigit_dropWhile _

theorem foldl_bmod (n : Nat) (hds : ∀ c ∈ ds, isDigit c = true) :
    ds.foldl (fun (result : Int) c => ((result * 10).bmod n + (c.toNat - 48)).bmod n) 0 =
      (numeral ds : Int).bmod n := by
  induction ds using reverseRecOn with
  | nil => exact Int.zero_bmod.symm
  | append_singleton ds c ih =>
    have hc := isDigit_iff.mp (hds c (mem_append_right _ mem_cons_self))
    have hcast : ((numeral ds * 10 + (c.toNat - 48) : Nat) : Int) =
        (numeral ds : Int) * 10 + ((c.toNat : Int) - 48) := by omega
    rw [foldl_append, ih fun d hd => hds d (mem_append_left _ hd), numeral_append, hcast]
    rw [foldl_cons, foldl_nil, Int.bmod_mul_bmod, Int.bmod_add_bmod]

theorem checkCurrentAndSkip_cons :
    (⟨message, c :: rest⟩ : StringReader).checkCurrentAndSkip c = .ok ⟨message, rest⟩ := if_pos rfl

theorem skip_append (hds : ∀ d ∈ ds, d = c) (hrest : ∀ d ∈ rest.head?, d ≠ c) :
    (⟨message, ds ++ rest⟩ : StringReader).skip c = ⟨message, rest⟩ :=
  congrArg (StringReader.mk message) (Delimiter.dropWhile_append
    (fun d hd => decide_eq_true (hds d hd)) fun d hd => decide_eq_false (hrest d hd))

theorem readUntil_append {mask : Mask} (hds : ∀ d ∈ ds, mask.has d = false)
    (hrest : ∀ d ∈ rest.head?, mask.has d = true) :
    (⟨message, ds ++ rest⟩ : StringReader).readUntil mask = (ds, ⟨message, rest⟩) := by
  have hds' : ∀ d ∈ ds, (!mask.has d) = true := fun d hd => by rw [hds d hd, Bool.not_false]
  have hrest' : ∀ d ∈ rest.head?, (!mask.has d) = false := fun d hd => by
    rw [hrest d hd, Bool.not_true]
  exact Prod.ext (Delimiter.takeWhile_append hds' hrest')
    (congrArg (StringReader.mk message) (Delimiter.dropWhile_append hds' hrest'))

theorem length_skip_le : (r.skip c).rest.length ≤ r.rest.length := length_dropWhile_le _ _

theorem length_readUntil_le {mask : Mask} : (r.readUntil mask).2.rest.length ≤ r.rest.length :=
  length_dropWhile_le _ _

theorem readLong_eq (hne : r.rest ≠ []) :
    r.readLong = .ok (toLong (numeral r.digits), r.skipDigits) := by
  rw [readLong, if_neg (by simpa [isTerminated] using hne)]
  exact congrArg (fun v => Except.ok (v, r.skipDigits))
    (foldl_bmod (2 ^ 64) fun _ hc => isDigit_of_mem_digits hc)

theorem readLong_eq_ok (h : r.readLong = .ok res) :
    r.rest ≠ [] ∧ res = (toLong (numeral r.digits), r.skipDigits) := by
  have hne : r.rest ≠ [] := by
    intro hnil
    rw [readLong, isTerminated, hnil] at h
    cases h
  rw [readLong_eq hne] at h
  exact ⟨hne, (Except.ok.inj h).symm⟩

theorem readCurrentAndSkip_eq_ok {res : UInt16 × StringReader}
    (h : (⟨message, rest⟩ : StringReader).readCurrentAndSkip = .ok res) :
    ∃ c rest', rest = c :: rest' ∧ res = (c, ⟨message, rest'⟩) := by
  cases rest with
  | nil => cases h
  | cons c rest => exact ⟨c, rest, rfl, (Except.ok.inj h).symm⟩

theorem checkCurrentAndSkip_eq_ok {r' : StringReader}
    (h : (⟨message, rest⟩ : StringReader).checkCurrentAndSkip c = .ok r') :
    ∃ rest', rest = c :: rest' ∧ r' = ⟨message, rest'⟩ := by
  cases rest with
  | nil => cases h
  | cons d rest =>
    simp only [checkCurrentAndSkip] at h
    split_ifs at h with hd
    exact ⟨rest, by rw [hd], (Except.ok.inj h).symm⟩

theorem rest_eq_nil_of_checkTerminated {u : Unit} (h : r.checkTerminated = .ok u) : r.rest = [] := by
  unfold checkTerminated at h
  split_ifs at h with hempty
  exact isEmpty_iff.mp hempty

theorem intValue_eq (r : StringReader) : r.intValue = toInt (numeral r.digits) :=
  foldl_bmod (2 ^ 32) fun _ hc => isDigit_of_mem_digits hc

/-- Digits are read as a `long`. -/
theorem readLong_append (hds : ∀ c ∈ ds, isDigit c = true) (hne : ds ≠ []) (hrest : NoDigit rest) :
    (⟨message, ds ++ rest⟩ : StringReader).readLong =
      .ok (toLong (numeral ds), ⟨message, rest⟩) := by
  rw [readLong_eq (by simpa using fun h => absurd h hne), (digits_append hds hrest).1,
    (digits_append hds hrest).2]

theorem intValue_append (hds : ∀ c ∈ ds, isDigit c = true) (hrest : NoDigit rest) :
    (⟨message, ds ++ rest⟩ : StringReader).intValue = toInt (numeral ds) := by
  rw [intValue_eq, (digits_append hds hrest).1]

theorem readIntAndCheckLength_append (hds : ∀ c ∈ ds, isDigit c = true) (hne : ds ≠ [])
    (hrest : NoDigit rest) (hmin : min ≤ ds.length) (hmax : ds.length ≤ max) :
    (⟨message, ds ++ rest⟩ : StringReader).readIntAndCheckLength min max =
      .ok (toInt (numeral ds), ⟨message, rest⟩) := by
  rw [readIntAndCheckLength, (digits_append hds hrest).1, (digits_append hds hrest).2,
    intValue_append hds hrest, if_neg (by simpa [isTerminated] using fun h => absurd h hne),
    if_neg (by omega)]

/-- Digits of a length that is checked. -/
structure Digits (min max : Nat) (ds : JavaString) : Prop where
  digits : ∀ c ∈ ds, isDigit c = true
  min_le : min ≤ ds.length
  le_max : ds.length ≤ max

theorem Digits.mono {min' : Nat} (h : Digits min max ds) (hle : min' ≤ min) : Digits min' max ds :=
  ⟨h.digits, Nat.le_trans hle h.min_le, h.le_max⟩

theorem toInt_numeral (hds : ∀ c ∈ ds, isDigit c = true) (hlen : ds.length ≤ 9) :
    toInt (numeral ds) = numeral ds := by
  have hlt := numeral_lt hds
  have hpow : 10 ^ ds.length ≤ 10 ^ 9 := Nat.pow_le_pow_right (by decide) hlen
  exact M2M.toInt_of_lt (Int.natCast_nonneg _) (by omega)

/-- **Digits are read as an `int` of a checked length.** -/
theorem readIntAndCheckLength_digits (hds : Digits min max ds) (hmin : 0 < min) (hmax : max ≤ 9)
    (hrest : NoDigit rest) :
    (⟨message, ds ++ rest⟩ : StringReader).readIntAndCheckLength min max =
      .ok (numeral ds, ⟨message, rest⟩) := by
  have hne : ds ≠ [] := ne_nil_of_length_pos (Nat.lt_of_lt_of_le hmin hds.min_le)
  rw [readIntAndCheckLength_append hds.digits hne hrest hds.min_le hds.le_max,
    toInt_numeral hds.digits (Nat.le_trans hds.le_max hmax)]

theorem readInt_digits (hds : Digits min max ds) (hne : ds ≠ []) (hmax : max ≤ 9)
    (hrest : NoDigit rest) :
    (⟨message, ds ++ rest⟩ : StringReader).readInt = .ok (numeral ds, ⟨message, rest⟩) := by
  rw [readInt, intValue_append hds.digits hrest, (digits_append hds.digits hrest).2,
    if_neg (by simpa [isTerminated] using fun h => absurd h hne),
    toInt_numeral hds.digits (Nat.le_trans hds.le_max hmax)]

theorem readIntAndCheckLength_eq_ok (hmax : max ≤ 9)
    (h : (⟨message, rest⟩ : StringReader).readIntAndCheckLength min max = .ok res) :
    ∃ ds rest', Digits min max ds ∧ NoDigit rest' ∧ rest = ds ++ rest' ∧
      res = ((numeral ds : Int), ⟨message, rest'⟩) := by
  unfold readIntAndCheckLength at h
  split_ifs at h with hempty hlen
  have hds : ∀ c ∈ (⟨message, rest⟩ : StringReader).digits, isDigit c = true :=
    fun _ hc => isDigit_of_mem_digits hc
  rw [not_or, Nat.not_lt, Nat.not_lt] at hlen
  refine ⟨(⟨message, rest⟩ : StringReader).digits, _, ⟨hds, hlen.1, hlen.2⟩,
    noDigit_skipDigits ⟨message, rest⟩, (digits_append_skipDigits ⟨message, rest⟩).symm, ?_⟩
  rw [← Except.ok.inj h, intValue_eq, toInt_numeral hds (Nat.le_trans hlen.2 hmax)]
  rfl

end StringReader

end Ong.Util
