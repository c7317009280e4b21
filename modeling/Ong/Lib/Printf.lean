import Mathlib.Data.List.TakeWhile
import Ong.Lib.Decimal

/-!
# Formatted output and input

What `printf` writes for an integer, what it makes of a format without arguments, and what `scanf`
reads as an integer.

## Main definitions

* `Printf.unsigned`, `Printf.signed`: `%llu` and `%lld`
* `Printf.plain`: a format without arguments
* `Printf.decimal`, `Printf.padded`: `%.*d` and `%0wd`
* `Printf.scan`: the number that `%lld` and `%llu` find
* `Printf.atoi`
* `Printf.hexPair`, `Printf.scanHexPair`: `%.2x` for a byte, and `%2x`
* `Printf.print`: a format with its arguments

## Main results

* `scan_signed`: a number is scanned as it was printed
* `scanHexPair_hexPair`: a byte is scanned as it was printed
* `plain_eq_some_self_iff`: a format prints itself exactly if it has no conversion
* `length_print_le`: how long a format can become
-/

namespace Ong.Printf

open List Decimal

/-- The sign of a negative number. -/
def minus : UInt8 := 0x2d

/-- The sign that scanning passes over. -/
def plus : UInt8 := 0x2b

/-- The byte that begins a conversion. -/
def percent : UInt8 := 0x25

def isSpace (b : UInt8) : Bool := b.toNat == 32 || (9 ≤ b.toNat && b.toNat ≤ 13)

/-- `%llu`: the decimal digits, of which 64 bits need at most twenty. -/
def unsigned (n : Nat) : List UInt8 := if n = 0 then [digit 0] else Decimal.textLoop 20 n []

/-- `%lld` -/
def signed (n : Int) : List UInt8 :=
  if n < 0 then minus :: unsigned n.natAbs else unsigned n.natAbs

/-- `%.*d`: at least so many digits, and for no digit no zero. -/
def decimal (precision : Nat) (n : Int) : List UInt8 :=
  let digits := if n = 0 ∧ precision = 0 then [] else unsigned n.natAbs
  (if n < 0 then [minus] else []) ++ List.replicate (precision - digits.length) (digit 0) ++ digits

/-- `%0wd`: at least so many characters. -/
def padded (w : Nat) (n : Int) : List UInt8 :=
  decimal (if n < 0 then w - 1 else max w 1) n

/-- What a format without arguments prints; a conversion that asks for one has no meaning. -/
def plain : List UInt8 → Option (List UInt8)
  | [] => some []
  | [c] => if c = percent then none else some [c]
  | c :: d :: format =>
    if c = percent then
      if d = percent then (plain format).map (percent :: ·) else none
    else (plain (d :: format)).map (c :: ·)

/-- What scanning finds: the end of the text, something else than a number, or a number with its
sign. -/
inductive Scan
  | endOfText
  | noNumber
  | number (negative : Bool) (magnitude : Nat)
  deriving DecidableEq

/-- The number at the beginning of a text, behind white space and one sign. -/
def scan (text : List UInt8) : Scan :=
  match text.dropWhile isSpace with
  | [] => .endOfText
  | c :: rest =>
    let digits := if c = minus ∨ c = plus then rest else c :: rest
    let digits := digits.takeWhile isDigit
    if digits = [] then .noNumber else .number (c = minus) (Decimal.value digits).toNat

/-- `atoi`: a `long` of 64 bits, of which the lowest 32 remain. -/
def atoi (text : List UInt8) : Int :=
  match scan text with
  | .number negative magnitude =>
    (if negative then -(min magnitude (2 ^ 63) : Int) else min magnitude (2 ^ 63 - 1)).bmod (2 ^ 32)
  | _ => 0

section Numbers

variable {n : Nat} {i : Int} {b : UInt8} {digits : List UInt8} {p : Nat}

theorem isDigit_of_mem_unsigned (h : b ∈ unsigned n) : isDigit b = true := by
  unfold unsigned at h
  split at h
  · obtain rfl := mem_singleton.mp h
    decide
  · rcases isDigit_of_mem_textLoop h with hdigit | hnil
    · exact hdigit
    · cases hnil

theorem value_unsigned (h : n < 10 ^ 20) : value (unsigned n) = n := by
  unfold unsigned
  split
  · next hzero =>
    rw [hzero]
    rfl
  · exact value_textLoop h

theorem unsigned_ne_nil : unsigned n ≠ [] := by
  unfold unsigned
  split
  · exact cons_ne_nil _ _
  · next hne => exact textLoop_ne_nil hne

theorem takeWhile_unsigned : (unsigned n).takeWhile isDigit = unsigned n :=
  takeWhile_eq_self_iff.mpr fun _ => isDigit_of_mem_unsigned

theorem digit_plain (h : isDigit b = true) : isSpace b = false ∧ b ≠ minus ∧ b ≠ plus := by
  have hall : ∀ t : Fin 256, isDigit (UInt8.ofFin t) = true → isSpace (UInt8.ofFin t) = false ∧
      UInt8.ofFin t ≠ minus ∧ UInt8.ofFin t ≠ plus := by decide +kernel
  exact hall b.toFin h

theorem scan_digits (rest : List UInt8) (hne : digits ≠ [])
    (hdigits : ∀ d ∈ digits, isDigit d = true) (hrest : rest.takeWhile isDigit = []) :
    scan (digits ++ rest) = .number false (value digits).toNat := by
  obtain ⟨d, digits, rfl⟩ := exists_cons_of_ne_nil hne
  obtain ⟨hspace, hminus, hplus⟩ := digit_plain (hdigits d mem_cons_self)
  have htake : (d :: (digits ++ rest)).takeWhile isDigit = d :: digits := by
    rw [← cons_append, takeWhile_append_of_pos hdigits, hrest, append_nil]
  rw [scan, cons_append, dropWhile_cons_of_neg (by rw [hspace]; decide)]
  simp only [hminus, hplus, or_self, if_false, htake, cons_ne_nil, decide_false]

theorem scan_unsigned (h : n < 10 ^ 20) : scan (unsigned n) = .number false n := by
  obtain ⟨c, rest, htext⟩ := exists_cons_of_ne_nil (unsigned_ne_nil (n := n))
  have hc : c ∈ unsigned n := by
    rw [htext]
    exact mem_cons_self
  obtain ⟨hspace, hminus, hplus⟩ := digit_plain (isDigit_of_mem_unsigned hc)
  have hdrop : (unsigned n).dropWhile isSpace = c :: rest := by
    rw [htext, dropWhile_cons_of_neg (by rw [hspace]; decide)]
  unfold scan
  rw [hdrop]
  simp only [hminus, hplus, or_self, if_false, ← htext, takeWhile_unsigned, unsigned_ne_nil,
    value_unsigned h, decide_false, Int.toNat_natCast]

/-- **A number is scanned as it was printed.** -/
theorem scan_signed (h : i.natAbs < 10 ^ 20) :
    scan (signed i) = .number (i < 0) i.natAbs := by
  unfold signed
  split
  · next hneg =>
    have hdrop : (minus :: unsigned i.natAbs).dropWhile isSpace = minus :: unsigned i.natAbs :=
      dropWhile_cons_of_neg (by decide)
    unfold scan
    rw [hdrop]
    simp only [true_or, if_true, takeWhile_unsigned, unsigned_ne_nil, if_false, value_unsigned h,
      decide_true, hneg, Int.toNat_natCast]
  · next hneg => rw [scan_unsigned h, decide_eq_false hneg]

theorem length_unsigned_le_of_lt {k : Nat} (h : n < 10 ^ k) (hk : k ≠ 0) :
    (unsigned n).length ≤ k := by
  unfold unsigned
  split
  · exact Nat.one_le_iff_ne_zero.mpr hk
  · exact length_textLoop_le_of_lt h

theorem decimal_of_nonneg (h : 0 ≤ i) : ∃ zeros,
    decimal p i = replicate zeros (digit 0) ++
      if i = 0 ∧ p = 0 then [] else unsigned i.natAbs := by
  refine ⟨p - (if i = 0 ∧ p = 0 then [] else unsigned i.natAbs).length, ?_⟩
  rw [decimal, if_neg (Int.not_lt.mpr h), nil_append]

theorem isDigit_of_mem_decimal (h : 0 ≤ i) (hb : b ∈ decimal p i) : isDigit b = true := by
  obtain ⟨zeros, heq⟩ := decimal_of_nonneg (p := p) h
  rw [heq] at hb
  rcases mem_append.mp hb with hb | hb
  · rw [eq_of_mem_replicate hb]
    decide
  · split at hb
    · cases hb
    · exact isDigit_of_mem_unsigned hb

theorem value_decimal (h : 0 ≤ i) (hlt : i < 10 ^ 20) : value (decimal p i) = i := by
  obtain ⟨zeros, heq⟩ := decimal_of_nonneg (p := p) h
  rw [heq, value_zeros]
  split
  · next hzero => exact hzero.1.symm
  · rw [value_unsigned (by omega), Int.natAbs_of_nonneg h]

theorem decimal_ne_nil (hp : p ≠ 0) : decimal p i ≠ [] := by
  intro hnil
  have hdigits : (if i = 0 ∧ p = 0 then [] else unsigned i.natAbs) = [] :=
    (append_eq_nil_iff.mp hnil).2
  rw [if_neg (fun hzero => hp hzero.2)] at hdigits
  exact unsigned_ne_nil hdigits

theorem length_decimal (h : 0 ≤ i) (hlt : i.natAbs < 10 ^ p) (hp : p ≠ 0) :
    (decimal p i).length = p := by
  have hlen := length_unsigned_le_of_lt hlt hp
  have hne : ¬(i = 0 ∧ p = 0) := fun hzero => hp hzero.2
  simp only [decimal, Int.not_lt.mpr h, hne, if_false, nil_append, length_append,
    length_replicate]
  omega

theorem atoi_digits (hne : digits ≠ []) (hdigits : ∀ d ∈ digits, isDigit d = true)
    (hpos : 0 ≤ value digits) (hlt : value digits < 2 ^ 31) :
    atoi digits = value digits := by
  have hscan := scan_digits [] hne hdigits rfl
  rw [append_nil] at hscan
  rw [atoi, hscan]
  simp only [Bool.false_eq_true, if_false]
  rw [Int.toNat_of_nonneg hpos, Int.bmod_def]
  split <;> omega

end Numbers

section Formats

variable {format out : List UInt8}

theorem plain_of_not_mem (h : percent ∉ format) : plain format = some format := by
  fun_induction plain format with
  | case1 | case3 => rfl
  | case2 | case4 | case5 => exact absurd mem_cons_self h
  | case6 c d format hc ih =>
    rw [ih fun hmem => h (mem_cons_of_mem c hmem)]
    rfl

theorem length_plain_bounds (h : plain format = some out) :
    out.length ≤ format.length ∧ format.length ≤ 2 * out.length := by
  fun_induction plain format generalizing out with
  | case1 | case3 =>
    obtain rfl := Option.some.inj h
    omega
  | case2 | case5 => cases h
  | case4 format ih =>
    obtain ⟨out', hout', rfl⟩ := Option.map_eq_some_iff.mp h
    have := ih hout'
    simp only [length_cons]
    omega
  | case6 c d format hc ih =>
    obtain ⟨out', hout', rfl⟩ := Option.map_eq_some_iff.mp h
    have := ih hout'
    simp only [length_cons] at this ⊢
    omega

theorem length_plain_lt (h : plain format = some out) (hmem : percent ∈ format) :
    out.length < format.length := by
  fun_induction plain format generalizing out with
  | case1 => cases hmem
  | case2 | case5 => cases h
  | case3 c hc => exact absurd (mem_singleton.mp hmem).symm hc
  | case4 format ih =>
    obtain ⟨out', hout', rfl⟩ := Option.map_eq_some_iff.mp h
    have := length_plain_bounds hout'
    simp only [length_cons]
    omega
  | case6 c d format hc ih =>
    obtain ⟨out', hout', rfl⟩ := Option.map_eq_some_iff.mp h
    have hrest : percent ∈ d :: format := by
      rcases mem_cons.mp hmem with rfl | hrest
      · exact absurd rfl hc
      · exact hrest
    have := ih hout' hrest
    simp only [length_cons] at this ⊢
    omega

/-- A format prints itself exactly if it has no conversion. -/
theorem plain_eq_some_self_iff : plain format = some format ↔ percent ∉ format :=
  ⟨fun h hmem => Nat.lt_irrefl _ (length_plain_lt h hmem), plain_of_not_mem⟩

end Formats

/-! ## Hexadecimal bytes -/

/-- A digit below sixteen, in lower case. -/
def hexDigit (n : Nat) : UInt8 := if n < 10 then UInt8.ofNat (48 + n) else UInt8.ofNat (87 + n)

/-- `%.2x` for a byte -/
def hexPair (b : UInt8) : List UInt8 := [hexDigit (b.toNat / 16), hexDigit (b.toNat % 16)]

/-- The value of a hexadecimal digit. -/
def hexValue (c : UInt8) : Option Nat :=
  if 48 ≤ c.toNat ∧ c.toNat ≤ 57 then some (c.toNat - 48)
  else if 97 ≤ c.toNat ∧ c.toNat ≤ 102 then some (c.toNat - 87)
  else if 65 ≤ c.toNat ∧ c.toNat ≤ 70 then some (c.toNat - 55)
  else none

/-- A hexadecimal digit. -/
def isHexDigit (c : UInt8) : Bool := (hexValue c).isSome

/-- The number that hexadecimal digits write. -/
def hexNumber (digits : List UInt8) : Nat :=
  digits.foldl (fun n c => n * 16 + (hexValue c).getD 0) 0

/-- `%2x`: what is assigned, if something is.  White space is not counted, a sign and the letter of
a `0x` are; a `0x` that no digit follows is a zero. -/
def scanHexPair (text : List UInt8) : Option Nat :=
  let input := (text.dropWhile isSpace).take 2
  let unsigned := if input.headD 0 = minus ∨ input.headD 0 = plus then input.tail else input
  let digits := unsigned.takeWhile isHexDigit
  if digits = [] then none
  else if input.headD 0 = minus then some ((2 ^ 32 - hexNumber digits) % 2 ^ 32)
  else some (hexNumber digits)

/-- What follows one sign. -/
def afterSign (text : List UInt8) : List UInt8 :=
  if text.headD 0 = minus ∨ text.headD 0 = plus then text.tail else text

/-- What follows `0x`. -/
def afterPrefix (text : List UInt8) : List UInt8 :=
  if text.take 2 = [0x30, 0x78] ∨ text.take 2 = [0x30, 0x58] then text.drop 2 else text

/-- `%x`: the number of 32 bits that is assigned, if one is, and the text behind it; a `0x` that no
digit follows is a zero. -/
def scanHex (text : List UInt8) : Option (Nat × List UInt8) :=
  let text := text.dropWhile isSpace
  let digits := afterPrefix (afterSign text)
  if (afterSign text).takeWhile isHexDigit = [] then none
  else
    -- an `unsigned long`, of which the lowest 32 bits are stored
    let n := hexNumber (digits.takeWhile isHexDigit)
    let n := if 2 ^ 64 ≤ n then 2 ^ 64 - 1
      else if text.headD 0 = minus then (2 ^ 64 - n) % 2 ^ 64 else n
    some (n % 2 ^ 32, digits.dropWhile isHexDigit)

theorem hexValue_hexDigit {n : Nat} (h : n < 16) :
    hexValue (hexDigit n) = some n ∧ isSpace (hexDigit n) = false ∧ hexDigit n ≠ minus ∧
      hexDigit n ≠ plus := by
  have hall : ∀ n < 16, hexValue (hexDigit n) = some n ∧ isSpace (hexDigit n) = false ∧
      hexDigit n ≠ minus ∧ hexDigit n ≠ plus := by decide
  exact hall n h

/-- **A byte is scanned as it was printed.** -/
theorem scanHexPair_hexPair (b : UInt8) (rest : List UInt8) :
    scanHexPair (hexPair b ++ rest) = some b.toNat := by
  have hb := b.toNat_lt
  obtain ⟨hhigh, hspace, hminus, hplus⟩ := hexValue_hexDigit (n := b.toNat / 16) (by omega)
  obtain ⟨hlow, -⟩ := hexValue_hexDigit (n := b.toNat % 16) (by omega)
  have hinput : ((hexPair b ++ rest).dropWhile isSpace).take 2 = hexPair b := by
    rw [hexPair, cons_append, dropWhile_cons_of_neg (by rw [hspace]; decide)]
    rfl
  have hdigits : (hexPair b).takeWhile isHexDigit = hexPair b := by
    rw [hexPair, takeWhile_cons_of_pos (by rw [isHexDigit, hhigh]; rfl),
      takeWhile_cons_of_pos (by rw [isHexDigit, hlow]; rfl), takeWhile_nil]
  have hnumber : hexNumber (hexPair b) = b.toNat := by
    simp only [hexPair, hexNumber, foldl_cons, foldl_nil, hhigh, hlow, Option.getD_some]
    omega
  have hhead : (hexPair b).headD 0 = hexDigit (b.toNat / 16) := rfl
  have hne : hexPair b ≠ [] := cons_ne_nil _ _
  simp only [scanHexPair, hinput, hhead, hminus, hplus, or_self, if_false, hdigits, hne, hnumber]

theorem scanHex_digits_append {digits rest : List UInt8}
    (hdigits : ∀ d ∈ digits, isHexDigit d = true) (hrest : rest.takeWhile isHexDigit = [])
    (hlt : hexNumber digits < 2 ^ 32) :
    scanHex (0x30 :: 0x78 :: digits ++ rest) = some (hexNumber digits, rest) := by
  have hspace : (0x30 :: 0x78 :: digits ++ rest).dropWhile isSpace =
      0x30 :: 0x78 :: (digits ++ rest) := dropWhile_cons_of_neg (by decide)
  have hinput : afterPrefix (afterSign (0x30 :: 0x78 :: (digits ++ rest))) = digits ++ rest :=
    if_pos (.inl rfl)
  have htake : (digits ++ rest).takeWhile isHexDigit = digits := by
    rw [takeWhile_append_of_pos hdigits, hrest, append_nil]
  have hdrop : (digits ++ rest).dropWhile isHexDigit = rest := by
    have hwhole := takeWhile_append_dropWhile (p := isHexDigit) (l := digits ++ rest)
    rw [htake] at hwhole
    exact append_cancel_left hwhole
  have hzero : (afterSign (0x30 :: 0x78 :: (digits ++ rest))).takeWhile isHexDigit = [0x30] := by
    rw [afterSign, if_neg (by rw [headD_cons]; decide), takeWhile_cons_of_pos (by decide),
      takeWhile_cons_of_neg (by decide)]
  simp only [scanHex, hspace, hinput, htake, hdrop, hzero, cons_ne_nil, if_false]
  rw [if_neg (by omega), if_neg (by rw [headD_cons]; decide), Nat.mod_eq_of_lt hlt]

/-! ## Formats with arguments -/

/-- The bytes of a text in the source, which has no others than these. -/
def ascii (s : String) : List UInt8 := s.toList.map fun c => UInt8.ofNat c.toNat

/-- The hexadecimal digits of a number written in front of a text. -/
def hexLoop : Nat → Nat → List UInt8 → List UInt8
  | 0, _, out => out
  | k + 1, i, out => if i = 0 then out else hexLoop k (i / 16) (hexDigit (i % 16) :: out)

/-- `%0wx`, for a number of 32 bits; without a width `%x`. -/
def hex (w n : Nat) : List UInt8 :=
  let digits := if n = 0 then [hexDigit 0] else hexLoop 8 n []
  List.replicate (w - digits.length) 0x30 ++ digits

/-- A quotient rounded to the nearest number, and half way to the even one. -/
def divEven (n d : Nat) : Nat :=
  if 2 * (n % d) < d ∨ 2 * (n % d) = d ∧ n / d % 2 = 0 then n / d else n / d + 1

/-- The digits in front of the point, of which single precision needs at most thirty-nine. -/
def whole (n : Nat) : List UInt8 := if n = 0 then [digit 0] else Decimal.textLoop 39 n []

/-- `%f` for the bits of a number of single precision. -/
def float (bits : Nat) : List UInt8 :=
  let sign := if bits / 2 ^ 31 % 2 = 1 then [minus] else []
  let exponent := bits / 2 ^ 23 % 256
  let fraction := bits % 2 ^ 23
  if exponent = 255 then sign ++ ascii (if fraction = 0 then "inf" else "nan")
  else
    let significand := if exponent = 0 then fraction else fraction + 2 ^ 23
    let millionths := divEven (significand * 10 ^ 6 * 2 ^ (exponent - 1)) (2 ^ 149)
    sign ++ whole (millionths / 10 ^ 6) ++ [0x2e] ++
      (List.range 6).map fun i => digit (millionths / 10 ^ (5 - i) % 10)

example : float 0x41480000 = ascii "12.500000" := by decide

/-- What stands between two conversions of a format, or a conversion with its argument. -/
inductive Item
  | text (s : String)
  | string (s : List UInt8)
  | decimal (n : Nat)
  | hexadecimal (w n : Nat)
  | float (bits : Nat)

/-- What is written for it. -/
def Item.print : Item → List UInt8
  | text s => ascii s
  | string s => s
  | decimal n => unsigned n
  | hexadecimal w n => hex w n
  | float bits => Printf.float bits

/-- As many bytes as it can become. -/
def Item.width : Item → Nat
  | text s => s.toList.length
  | string s => s.length
  | decimal _ => 20
  | hexadecimal w _ => max w 8
  | float _ => 47

/-- `vsprintf` -/
def print (items : List Item) : List UInt8 := items.flatMap Item.print

@[simp]
theorem length_ascii (s : String) : (ascii s).length = s.toList.length := length_map _

theorem length_unsigned_le {n : Nat} : (unsigned n).length ≤ 20 := by
  unfold unsigned
  split
  · decide
  · exact length_textLoop_le

theorem length_hexLoop_le {k i : Nat} {out : List UInt8} :
    (hexLoop k i out).length ≤ k + out.length := by
  induction k generalizing i out with
  | zero => rw [hexLoop, Nat.zero_add]
  | succ k ih =>
    unfold hexLoop
    split
    · omega
    · have hlen := @ih (i / 16) (hexDigit (i % 16) :: out)
      rw [length_cons] at hlen
      omega

theorem length_hex_le {w n : Nat} : (hex w n).length ≤ max w 8 := by
  have hdigits : (if n = 0 then [hexDigit 0] else hexLoop 8 n []).length ≤ 8 := by
    split
    · decide
    · exact length_hexLoop_le
  simp only [hex, length_append, length_replicate]
  omega

theorem length_whole_le {n : Nat} : (whole n).length ≤ 39 := by
  unfold whole
  split
  · decide
  · exact length_textLoop_le

theorem length_float_le {bits : Nat} : (float bits).length ≤ 47 := by
  have hsign : (if bits / 2 ^ 31 % 2 = 1 then [minus] else []).length ≤ 1 := by split <;> decide
  simp only [float]
  split
  · have hname : (ascii (if bits % 2 ^ 23 = 0 then "inf" else "nan")).length = 3 := by split <;> rfl
    rw [length_append, hname]
    omega
  · have hwhole := @length_whole_le
    simp only [length_append, length_map, length_range, length_singleton]
    exact Nat.add_le_add_right (Nat.add_le_add_right (Nat.add_le_add hsign hwhole) 1) 6

theorem Item.length_print_le (item : Item) : item.print.length ≤ item.width := by
  cases item with
  | text s => exact Nat.le_of_eq (length_ascii s)
  | string s => exact Nat.le_refl _
  | decimal n => exact length_unsigned_le
  | hexadecimal w n => exact length_hex_le
  | float bits => exact length_float_le

/-- A format becomes at most as long as its parts together. -/
theorem length_print_le (items : List Item) :
    (print items).length ≤ (items.map Item.width).sum := by
  induction items with
  | nil => exact Nat.le_refl _
  | cons item items ih =>
    have hitem := item.length_print_le
    simp only [print, flatMap_cons, length_append, map_cons, sum_cons] at ih ⊢
    omega

end Ong.Printf
