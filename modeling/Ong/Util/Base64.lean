import Ong.Lib.Sextets
import Ong.Util.StringReader

/-!
# Base64 in the format utilities

`checkBase64`, `parseBase64` and `formatBase64`.  The bytes of a string are those of the default
charset, of which nothing is known but where a result says so.  The parser counts the characters of
the string, and then goes on with its bytes.

## Main results

* `parseBase64_formatGroups`: what was formatted is parsed back
* `agree_iff_clean`: when the check says what the parser does
* `base64_iff`: both
-/

namespace Ong.Util.Base64

open M2M (toInt)
open Sextets List

/-! ## The functions -/

/-- What the functions throw. -/
inductive Thrown
  | parse (e : ParseException)
  | arrayIndexOutOfBounds
  | negativeArraySize
  deriving DecidableEq

def bits6ToBase64 : JavaString :=
  javaString "ABCDEFGHIJKLMNOPQRSTUVWXYZabcdefghijklmnopqrstuvwxyz0123456789+/"

def base64ToBits6 : List Int :=
  [-1, -1, -1, -1, -1, -1, -1, -1, -1, -1, -1, -1, -1, -1, -1, -1, -1, -1, -1, -1, -1, -1, -1, -1,
    -1, -1, -1, -1, -1, -1, -1, -1, -1, -1, -1, -1, -1, -1, -1, -1, -1, -1, -1, 62, -1, -1, -1,
    63, 52, 53, 54, 55, 56, 57, 58, 59, 60, 61, -1, -1, -1, -1, -1, -1, -1, 0, 1, 2, 3, 4, 5, 6,
    7, 8, 9, 10, 11, 12, 13, 14, 15, 16, 17, 18, 19, 20, 21, 22, 23, 24, 25, -1, -1, -1, -1, -1,
    -1, 26, 27, 28, 29, 30, 31, 32, 33, 34, 35, 36, 37, 38, 39, 40, 41, 42, 43, 44, 45, 46, 47,
    48, 49, 50, 51, -1, -1, -1, -1, -1]

/-- `BITS6_TO_BASE64[n]` -/
def base64Char (n : Nat) : UInt16 := bits6ToBase64.getD n 0

/-- `BASE64_TO_BITS6[b & 0xff]` -/
def lookup (b : UInt8) : Except Thrown Int :=
  match base64ToBits6[b.toNat]? with
  | none => .error .arrayIndexOutOfBounds
  | some v => .ok v

/-- `in[i]` -/
def byteAt (bytes : List UInt8) (i : Nat) : Except Thrown UInt8 :=
  match bytes[i]? with
  | none => .error .arrayIndexOutOfBounds
  | some b => .ok b

/-- The filling. -/
def fill : UInt8 := 0x3D

/-- The size of the result, by the last two bytes. -/
def sizeOf (bytes : List UInt8) : Except Thrown Int :=
  match bytes.reverse with
  | last :: beforeLast :: _ =>
    if beforeLast = fill then .ok (((bytes.length / 4 * 3 : Nat) : Int) - 2)
    else if last = fill then .ok (((bytes.length / 4 * 3 : Nat) : Int) - 1)
    else .ok ((bytes.length / 4 * 3 : Nat) : Int)
  | _ => .error .arrayIndexOutOfBounds

/-- Whether a byte that is no filling is in the alphabet. -/
def checkFilled (b : UInt8) : Except Thrown Bool :=
  if b = fill then .ok true
  else do
    let char ← lookup b
    return !decide (char < 0)

/-- The last group of the check. -/
def checkLast (size : Int) (bytes : List UInt8) : Except Thrown Int := do
  let char1 ← lookup (← byteAt bytes 0)
  let char2 ← lookup (← byteAt bytes 1)
  if char1 < 0 ∨ char2 < 0 then .ok (-1)
  else do
    let third ← checkFilled (← byteAt bytes 2)
    if third = false then .ok (-1)
    else do
      let fourth ← checkFilled (← byteAt bytes 3)
      if fourth = false then .ok (-1) else .ok size

/-- The loop of the check takes four bytes while there are more. -/
def checkGroups (size : Int) : List UInt8 → Except Thrown Int
  | a :: b :: c :: d :: e :: rest => do
    let char1 ← lookup a
    let char2 ← lookup b
    let char3 ← lookup c
    let char4 ← lookup d
    if char1 < 0 ∨ char2 < 0 ∨ char3 < 0 ∨ char4 < 0 then .ok (-1)
    else checkGroups size (e :: rest)
  | last => checkLast size last

def checkBase64 (getBytes : JavaString → List UInt8) (str : JavaString) : Except Thrown Int :=
  if str.length % 4 ≠ 0 then .ok (-1)
  else if getBytes str = [] then .ok 0
  else do
    let size ← sizeOf (getBytes str)
    checkGroups size (getBytes str)

/-- `out[j] = b`, where the bytes before are written. -/
def write (size : Int) (out : List UInt8) (b : UInt8) : Except Thrown (List UInt8) :=
  if (out.length : Int) < size then .ok (out ++ [b]) else .error .arrayIndexOutOfBounds

/-- The exception for a byte that is not in the alphabet. -/
def forbidden (str : JavaString) (i : Nat) : Thrown :=
  .parse ⟨javaString "Forbidden character detected in base64 string: " ++ str, i⟩

/-- The third byte of the last group; filling leaves `char3` as it was. -/
def parseThird (str : JavaString) (size : Int) (i : Nat) (char2 char3 : Int) (c : UInt8)
    (out : List UInt8) : Except Thrown (Int × List UInt8) :=
  if c = fill then .ok (char3, out)
  else do
    let char3 ← lookup c
    if char3 < 0 then .error (forbidden str (i + 2))
    else do
      let out ← write size out (byte₂ char2.toNat char3.toNat)
      return (char3, out)

/-- The fourth byte of the last group. -/
def parseFourth (str : JavaString) (size : Int) (i : Nat) (char3 : Int) (d : UInt8)
    (out : List UInt8) : Except Thrown (List UInt8) :=
  if d = fill then .ok out
  else do
    let char4 ← lookup d
    if char4 < 0 then .error (forbidden str (i + 3))
    else write size out (byte₃ char3.toNat char4.toNat)

/-- The last group of the parser. -/
def parseLast (str : JavaString) (size : Int) (i : Nat) (char3 : Int) (bytes out : List UInt8) :
    Except Thrown (List UInt8) := do
  let char1 ← lookup (← byteAt bytes 0)
  let char2 ← lookup (← byteAt bytes 1)
  if char1 < 0 ∨ char2 < 0 then .error (forbidden str i)
  else do
    let out ← write size out (byte₁ char1.toNat char2.toNat)
    let (char3, out) ← parseThird str size i char2 char3 (← byteAt bytes 2) out
    parseFourth str size i char3 (← byteAt bytes 3) out

/-- The loop of the parser takes four bytes while there are more. -/
def parseGroups (str : JavaString) (size : Int) :
    Nat → Int → List UInt8 → List UInt8 → Except Thrown (List UInt8)
  | i, _, a :: b :: c :: d :: e :: rest, out => do
    let char1 ← lookup a
    let char2 ← lookup b
    let char3 ← lookup c
    let char4 ← lookup d
    if char1 < 0 ∨ char2 < 0 ∨ char3 < 0 ∨ char4 < 0 then .error (forbidden str i)
    else do
      let out ← write size out (byte₁ char1.toNat char2.toNat)
      let out ← write size out (byte₂ char2.toNat char3.toNat)
      let out ← write size out (byte₃ char3.toNat char4.toNat)
      parseGroups str size (i + 4) char3 (e :: rest) out
  | i, char3, last, out => parseLast str size i char3 last out

/-- `parseBase64`; elements of the array that are not written are zero. -/
def parseBase64 (getBytes : JavaString → List UInt8) (str : JavaString) :
    Except Thrown (List UInt8) :=
  if str.length % 4 ≠ 0 then
    .error (.parse ⟨javaString "Base64 stream not a multiple of 4 characters", 0⟩)
  else if getBytes str = [] then .ok []
  else do
    let size ← sizeOf (getBytes str)
    if size < 0 then .error .negativeArraySize
    else do
      let out ← parseGroups str size 0 0 (getBytes str) []
      return out ++ List.replicate (size.toNat - out.length) 0

/-- The characters of the filling. -/
def fillChar : UInt16 := ch '='

/-- The loop of `formatBase64` takes three bytes at a time; one or two may be left after it. -/
def formatGroups : List UInt8 → JavaString
  | b₁ :: b₂ :: b₃ :: rest =>
    base64Char (first b₁) :: base64Char (second b₁ b₂) :: base64Char (third b₂ b₃) ::
      base64Char (fourth b₃) :: formatGroups rest
  | [b₁, b₂] =>
    [base64Char (first b₁), base64Char (second b₁ b₂), base64Char (third b₂ 0), fillChar]
  | [b₁] => [base64Char (first b₁), base64Char (second b₁ 0), fillChar, fillChar]
  | [] => []

/-- The capacity of the buffer for so many bytes, in the arithmetic of `int`. -/
def capacity (len : Nat) : Int := toInt ((toInt ((len : Int) * 4)).tdiv 3 + 2)

/-- `formatBase64`; a buffer of a negative capacity is refused. -/
def formatBase64 (bytes : List UInt8) : Except Thrown JavaString :=
  if capacity bytes.length < 0 then .error .negativeArraySize else .ok (formatGroups bytes)

section RoundTrip

variable {n : Nat} {str : JavaString} {size : Int} {bytes out : List UInt8}
  {getBytes : JavaString → List UInt8}

theorem lookup_base64Char (h : n < 64) : lookup (base64Char n).toUInt8 = .ok n := by
  have hall : (range 64).all fun n =>
      base64ToBits6[(base64Char n).toUInt8.toNat]? == some (n : Int) := by decide
  have hn := all_eq_true.mp hall n (mem_range.mpr h)
  rw [lookup, beq_iff_eq.mp hn]

theorem base64Char_ne_fill (h : n < 64) : (base64Char n).toUInt8 ≠ fill := by
  have hall : (range 64).all fun n => (base64Char n).toUInt8 != fill := by decide
  exact bne_iff_ne.mp (all_eq_true.mp hall n (mem_range.mpr h))

theorem base64Char_lt (h : n < 64) : base64Char n < 128 := by
  have hall : (range 64).all fun n => decide (base64Char n < 128) := by decide
  exact of_decide_eq_true (all_eq_true.mp hall n (mem_range.mpr h))

theorem lt_of_mem_formatGroups (bytes : List UInt8) : ∀ c ∈ formatGroups bytes, c < 128 := by
  induction bytes using formatGroups.induct with
  | case1 b₁ b₂ b₃ rest ih =>
    simp only [formatGroups, forall_mem_cons]
    exact ⟨base64Char_lt (first_lt _), base64Char_lt (second_lt _ _), base64Char_lt (third_lt _ _),
      base64Char_lt (fourth_lt _), ih⟩
  | case2 b₁ b₂ =>
    simp only [formatGroups, forall_mem_cons]
    exact ⟨base64Char_lt (first_lt _), base64Char_lt (second_lt _ _), base64Char_lt (third_lt _ _),
      by decide, forall_mem_nil _⟩
  | case3 b₁ =>
    simp only [formatGroups, forall_mem_cons]
    exact ⟨base64Char_lt (first_lt _), base64Char_lt (second_lt _ _), by decide, by decide,
      forall_mem_nil _⟩
  | case4 => exact forall_mem_nil _

theorem length_formatGroups_mod (bytes : List UInt8) : (formatGroups bytes).length % 4 = 0 := by
  induction bytes using formatGroups.induct with
  | case1 b₁ b₂ b₃ rest ih =>
    simp only [formatGroups, length_cons]
    omega
  | case2 b₁ b₂ => simp [formatGroups]
  | case3 b₁ => simp [formatGroups]
  | case4 => rfl

theorem write_of_lt {b : UInt8} (h : (out.length : Int) < size) :
    write size out b = .ok (out ++ [b]) := if_pos h

theorem sizeOf_group (a b c d : UInt8) (h : 2 ≤ bytes.length) :
    sizeOf (a :: b :: c :: d :: bytes) = (sizeOf bytes).map (· + 3) := by
  obtain ⟨last, beforeLast, front, hreverse⟩ : ∃ last beforeLast front,
      bytes.reverse = last :: beforeLast :: front := by
    match hr : bytes.reverse with
    | [] => rw [reverse_eq_nil_iff.mp hr] at h; cases h
    | [x] =>
      have hlen := congrArg length hr
      rw [length_reverse, length_singleton] at hlen
      omega
    | x :: y :: front => exact ⟨x, y, front, rfl⟩
  have hgroup : (a :: b :: c :: d :: bytes).reverse = last :: beforeLast :: (front ++ [d, c, b, a]) := by
    simp [hreverse]
  have hlen : (a :: b :: c :: d :: bytes).length / 4 * 3 = bytes.length / 4 * 3 + 3 := by
    simp only [length_cons]
    omega
  rw [sizeOf, sizeOf, hgroup, hreverse]
  dsimp only
  split_ifs <;> simp only [Except.map, Except.ok.injEq] <;> omega

theorem two_le_length_formatGroups (h : bytes ≠ []) : 2 ≤ (formatGroups bytes).length := by
  match bytes with
  | [] => exact absurd rfl h
  | [b₁] => simp [formatGroups]
  | [b₁, b₂] => simp [formatGroups]
  | b₁ :: b₂ :: b₃ :: rest => simp [formatGroups]

theorem sizeOf_formatGroups (h : bytes ≠ []) :
    sizeOf ((formatGroups bytes).map UInt16.toUInt8) = .ok (bytes.length : Int) := by
  induction bytes using formatGroups.induct with
  | case1 b₁ b₂ b₃ rest ih =>
    by_cases hrest : rest = []
    · subst hrest
      have hthird := base64Char_ne_fill (third_lt b₂ b₃)
      have hfourth := base64Char_ne_fill (fourth_lt b₃)
      simp [formatGroups, sizeOf, hthird, hfourth]
    · simp only [formatGroups, map_cons]
      rw [sizeOf_group _ _ _ _ (by
        rw [length_map]
        exact two_le_length_formatGroups hrest), ih hrest]
      simp only [Except.map, length_cons, Except.ok.injEq]
      omega
  | case2 b₁ b₂ =>
    have hthird := base64Char_ne_fill (third_lt b₂ 0)
    have hfill : fillChar.toUInt8 = fill := rfl
    simp [formatGroups, sizeOf, hthird, hfill]
  | case3 b₁ =>
    have hfill : fillChar.toUInt8 = fill := rfl
    simp [formatGroups, sizeOf, hfill]
  | case4 => exact absurd rfl h

/-- **The groups that were formatted are parsed.** -/
theorem parseGroups_formatGroups {i : Nat} {char3 : Int} (h : bytes ≠ [])
    (hsize : (out.length : Int) + bytes.length = size) :
    parseGroups str size i char3 ((formatGroups bytes).map UInt16.toUInt8) out =
      .ok (out ++ bytes) := by
  induction bytes using formatGroups.induct generalizing i char3 out with
  | case1 b₁ b₂ b₃ rest ih =>
    simp only [length_cons] at hsize
    have hwrite₁ : write size out b₁ = .ok (out ++ [b₁]) := write_of_lt (by omega)
    have hwrite₂ : write size (out ++ [b₁]) b₂ = .ok (out ++ [b₁] ++ [b₂]) :=
      write_of_lt (by rw [length_append, length_singleton]; omega)
    have hwrite₃ : write size (out ++ [b₁] ++ [b₂]) b₃ = .ok (out ++ [b₁] ++ [b₂] ++ [b₃]) :=
      write_of_lt (by simp only [length_append, length_singleton]; omega)
    by_cases hrest : rest = []
    · subst hrest
      simp only [formatGroups, map_cons, map_nil]
      simp only [parseGroups, parseLast, byteAt, parseThird, parseFourth, bind, Except.bind,
        getElem?_cons_zero, getElem?_cons_succ, lookup_base64Char (first_lt b₁),
        lookup_base64Char (second_lt b₁ b₂), lookup_base64Char (third_lt b₂ b₃),
        lookup_base64Char (fourth_lt b₃), if_neg (base64Char_ne_fill (third_lt b₂ b₃)),
        if_neg (base64Char_ne_fill (fourth_lt b₃)), Int.not_ofNat_neg, or_self, if_false, Int.toNat_natCast,
        byte₁_first, byte₂_second, byte₃_third, hwrite₁, hwrite₂, hwrite₃, pure, Except.pure]
      simp
    · obtain ⟨e, tail, htail⟩ := exists_cons_of_ne_nil (l := (formatGroups rest).map UInt16.toUInt8)
        (ne_nil_of_length_pos (by
          rw [length_map]
          have := two_le_length_formatGroups hrest
          omega))
      have hnext : parseGroups str size (i + 4) (third b₂ b₃ : Int)
          ((formatGroups rest).map UInt16.toUInt8) (out ++ [b₁] ++ [b₂] ++ [b₃]) =
          .ok (out ++ [b₁] ++ [b₂] ++ [b₃] ++ rest) :=
        ih hrest (by simp only [length_append, length_singleton]; omega)
      rw [htail] at hnext
      simp only [formatGroups, map_cons, htail]
      simp only [parseGroups, bind, Except.bind, lookup_base64Char (first_lt b₁),
        lookup_base64Char (second_lt b₁ b₂), lookup_base64Char (third_lt b₂ b₃),
        lookup_base64Char (fourth_lt b₃), Int.not_ofNat_neg, or_self, if_false, Int.toNat_natCast,
        byte₁_first, byte₂_second, byte₃_third, hwrite₁, hwrite₂, hwrite₃, hnext]
      simp
  | case2 b₁ b₂ =>
    have hfill : fillChar.toUInt8 = fill := rfl
    simp only [length_cons, length_nil] at hsize
    have hwrite₁ : write size out b₁ = .ok (out ++ [b₁]) := write_of_lt (by omega)
    have hwrite₂ : write size (out ++ [b₁]) b₂ = .ok (out ++ [b₁] ++ [b₂]) :=
      write_of_lt (by rw [length_append, length_singleton]; omega)
    simp only [formatGroups, map_cons, map_nil, hfill]
    simp only [parseGroups, parseLast, byteAt, parseThird, parseFourth, bind, Except.bind,
      getElem?_cons_zero, getElem?_cons_succ, lookup_base64Char (first_lt b₁),
      lookup_base64Char (second_lt b₁ b₂), lookup_base64Char (third_lt b₂ 0),
      if_neg (base64Char_ne_fill (third_lt b₂ 0)), if_true, Int.not_ofNat_neg, or_self, if_false,
      Int.toNat_natCast, byte₁_first, byte₂_second, hwrite₁, hwrite₂, pure, Except.pure]
    simp
  | case3 b₁ =>
    have hfill : fillChar.toUInt8 = fill := rfl
    have hwrite₁ : write size out b₁ = .ok (out ++ [b₁]) :=
      write_of_lt (by simp only [length_cons, length_nil] at hsize; omega)
    simp only [formatGroups, map_cons, map_nil, hfill]
    simp only [parseGroups, parseLast, byteAt, parseThird, parseFourth, bind, Except.bind,
      getElem?_cons_zero, getElem?_cons_succ, lookup_base64Char (first_lt b₁),
      lookup_base64Char (second_lt b₁ 0), if_true, Int.not_ofNat_neg, or_self, if_false, Int.toNat_natCast,
      byte₁_first, hwrite₁]
  | case4 => exact absurd rfl h

/-- The bytes of ASCII characters are their codes, as in all charsets that extend ASCII. -/
def ExtendsAscii (getBytes : JavaString → List UInt8) : Prop :=
  ∀ str : JavaString, (∀ c ∈ str, c < 128) → getBytes str = str.map UInt16.toUInt8

/-- **What was formatted is parsed back.** -/
theorem parseBase64_formatGroups (h : ExtendsAscii getBytes) (bytes : List UInt8) :
    parseBase64 getBytes (formatGroups bytes) = .ok bytes := by
  rw [parseBase64, h _ (lt_of_mem_formatGroups bytes),
    if_neg (not_not.mpr (length_formatGroups_mod bytes))]
  by_cases hnil : bytes = []
  · rw [hnil]
    rfl
  · have hlen := two_le_length_formatGroups hnil
    have hne : (formatGroups bytes).map UInt16.toUInt8 ≠ [] :=
      ne_nil_of_length_pos (by rw [length_map]; omega)
    rw [if_neg hne, sizeOf_formatGroups hnil]
    have hparse : parseGroups (formatGroups bytes) bytes.length 0 0
        ((formatGroups bytes).map UInt16.toUInt8) [] = .ok ([] ++ bytes) :=
      parseGroups_formatGroups hnil (by simp)
    simp [bind, Except.bind, hparse, pure, Except.pure]

theorem formatBase64_bind_parseBase64_iff (h : ExtendsAscii getBytes) (bytes : List UInt8) :
    (formatBase64 bytes).bind (parseBase64 getBytes) = .ok bytes ↔ 0 ≤ capacity bytes.length := by
  unfold formatBase64
  split_ifs with hneg
  · exact ⟨nofun, fun hle => absurd hneg (Int.not_lt.mpr hle)⟩
  · exact ⟨fun _ => Int.not_lt.mp hneg, fun _ => parseBase64_formatGroups h bytes⟩

end RoundTrip

section Agreement

variable {str : JavaString} {size : Int} {a b c d : UInt8} {bytes out : List UInt8} {i : Nat}
  {char3 n : Int}

/-- The byte is in the alphabet. -/
def Known (b : UInt8) : Prop := ∃ v ∈ base64ToBits6[b.toNat]?, 0 ≤ v

/-- The byte is in the table. -/
def InTable (b : UInt8) : Prop := b.toNat < 128

instance (b : UInt8) : Decidable (Known b) :=
  decidable_of_iff (∃ v ∈ base64ToBits6[b.toNat]?, 0 ≤ v) Iff.rfl

instance (b : UInt8) : Decidable (InTable b) := inferInstanceAs (Decidable (_ < _))

/-- The bytes on which the check says what the parser does.  Outside the table both throw something
else, and so do they behind a last group that is not whole; a last group with filling in the third
place and not in the fourth is longer than the array. -/
def Clean : List UInt8 → Prop
  | a :: b :: c :: d :: e :: rest =>
    (InTable a ∧ InTable b ∧ InTable c ∧ InTable d) ∧
      (Known a ∧ Known b ∧ Known c ∧ Known d → Clean (e :: rest))
  | [a, b, c, d] =>
    (InTable a ∧ InTable b) ∧
      (Known a ∧ Known b →
        (c = fill → InTable d ∧ ¬Known d) ∧ (c ≠ fill → InTable c ∧ (Known c → InTable d)))
  | [a, b, c] => (InTable a ∧ InTable b) ∧ ¬(Known a ∧ Known b) ∧ b ≠ fill ∧ c ≠ fill
  | [a, b] => (InTable a ∧ InTable b) ∧ ¬(Known a ∧ Known b) ∧ a ≠ fill ∧ b ≠ fill
  | [_] => False
  | [] => True

/-- The parser returns or throws a `ParseException`, and the check says which, and how much is
returned. -/
def Agree (parsed : Except Thrown (List UInt8)) (checked : Except Thrown Int) : Prop :=
  match parsed with
  | .ok result => checked = .ok (result.length : Int)
  | .error (.parse _) => ∀ n, checked = .ok n → n < 0
  | .error _ => False

/-! The three cases of a byte. -/

theorem lookup_of_not_inTable (h : ¬InTable b) : lookup b = .error .arrayIndexOutOfBounds := by
  have hnone : base64ToBits6[b.toNat]? = none :=
    getElem?_eq_none (Nat.le_of_not_lt h)
  rw [lookup, hnone]

theorem lookup_of_inTable (h : InTable b) :
    ∃ v, lookup b = .ok v ∧ (Known b ↔ ¬v < 0) := by
  have hlt : b.toNat < base64ToBits6.length := h
  have hsome := getElem?_eq_getElem hlt
  refine ⟨base64ToBits6[b.toNat], by rw [lookup, hsome], ?_⟩
  rw [Known, hsome]
  simp

/-- The same for what is written to an array of a size, the rest of which is returned too. -/
def AgreeOn (size : Int) (parsed : Except Thrown (List UInt8)) (checked : Except Thrown Int) : Prop :=
  match parsed with
  | .ok out => checked = .ok (max (out.length : Int) size)
  | .error (.parse _) => ∀ n, checked = .ok n → n < 0
  | .error _ => False

theorem agreeOn_forbidden (size : Int) (str : JavaString) (i : Nat) :
    AgreeOn size (.error (forbidden str i)) (.ok (-1)) := by
  intro n hn
  obtain rfl := Except.ok.inj hn
  decide

theorem write_of_le {b : UInt8} (h : size ≤ out.length) :
    write size out b = .error .arrayIndexOutOfBounds := if_neg (Int.not_lt.mpr h)

theorem fill_inTable : InTable fill := by decide

theorem not_known_fill : ¬Known fill := by decide

theorem agreeOn_last
    (hsize : size = out.length + if c = fill then 1 else if d = fill then 2 else 3) :
    AgreeOn size (parseLast str size i char3 [a, b, c, d] out) (checkLast size [a, b, c, d]) ↔
      Clean [a, b, c, d] := by
  simp only [parseLast, checkLast, byteAt, getElem?_cons_zero, getElem?_cons_succ, bind,
    Except.bind, Clean]
  by_cases ha : InTable a
  swap
  · simp [lookup_of_not_inTable ha, AgreeOn, ha]
  obtain ⟨va, hva, hka⟩ := lookup_of_inTable ha
  by_cases hb : InTable b
  swap
  · simp [hva, lookup_of_not_inTable hb, AgreeOn, hb]
  obtain ⟨vb, hvb, hkb⟩ := lookup_of_inTable hb
  simp only [hva, hvb, ha, hb, true_and]
  by_cases hbad : va < 0 ∨ vb < 0
  · have hunknown : ¬(Known a ∧ Known b) := by
      rw [hka, hkb]
      omega
    simp only [if_pos hbad, agreeOn_forbidden, hunknown, false_implies]
  have hknown : Known a ∧ Known b := by
    rw [hka, hkb]
    omega
  have hfirst : ∀ b₁, write size out b₁ = .ok (out ++ [b₁]) := fun b₁ =>
    write_of_lt (by split_ifs at hsize <;> omega)
  simp only [if_neg hbad, hfirst, hknown, and_self, forall_const]
  by_cases hc : c = fill
  · simp only [hc, if_true, parseThird, checkFilled, pure, Except.pure, ne_eq, not_true, false_implies,
      and_true, Bool.true_eq_false, if_false, forall_const] at hsize ⊢
    by_cases hd : d = fill
    · simp [hd, parseFourth, AgreeOn, hsize, fill_inTable, not_known_fill]
    simp only [parseFourth, if_neg hd, bind, Except.bind]
    by_cases hdt : InTable d
    swap
    · simp [lookup_of_not_inTable hdt, AgreeOn, hdt]
    obtain ⟨vd, hvd, hkd⟩ := lookup_of_inTable hdt
    simp only [hvd, hdt, true_and, hkd, not_not]
    by_cases hneg : vd < 0
    · simp [hneg, agreeOn_forbidden]
    · have hfull : ∀ b₃, write size (out ++ [byte₁ va.toNat vb.toNat]) b₃ =
          .error .arrayIndexOutOfBounds := fun b₃ =>
        write_of_le (by rw [hsize, length_append, length_singleton]; omega)
      simp [hneg, hfull, AgreeOn]
  · simp only [hc, if_false, parseThird, checkFilled, bind, Except.bind, pure, Except.pure,
      false_implies, true_and, forall_const, ne_eq, not_false_eq_true] at hsize ⊢
    by_cases hct : InTable c
    swap
    · simp [lookup_of_not_inTable hct, AgreeOn, hct]
    obtain ⟨vc, hvc, hkc⟩ := lookup_of_inTable hct
    simp only [hvc, hct, true_and, hkc]
    by_cases hneg : vc < 0
    · simp [hneg, agreeOn_forbidden]
    have hsecond : ∀ b₁ b₂, write size (out ++ [b₁]) b₂ = .ok (out ++ [b₁] ++ [b₂]) := fun b₁ b₂ =>
      write_of_lt (by rw [length_append, length_singleton]; split_ifs at hsize <;> omega)
    simp only [hneg, if_false, hsecond, decide_false, Bool.not_false, Bool.true_eq_false,
      not_false_eq_true, forall_const]
    by_cases hd : d = fill
    · simp [hd, parseFourth, AgreeOn, hsize, fill_inTable]
    simp only [parseFourth, if_neg hd, bind, Except.bind] at hsize ⊢
    by_cases hdt : InTable d
    swap
    · simp [lookup_of_not_inTable hdt, AgreeOn, hdt]
    obtain ⟨vd, hvd, hkd⟩ := lookup_of_inTable hdt
    simp only [hvd, hdt, iff_true]
    by_cases hneg : vd < 0
    · simp [hneg, agreeOn_forbidden]
    · have hthird : ∀ b₁ b₂ b₃, write size (out ++ [b₁] ++ [b₂]) b₃ =
          .ok (out ++ [b₁] ++ [b₂] ++ [b₃]) := fun b₁ b₂ b₃ =>
        write_of_lt (by simp only [length_append, length_singleton]; omega)
      simp only [hneg, if_false, hthird, decide_false, Bool.not_false, Bool.true_eq_false]
      simp [AgreeOn, hsize]

/-- Bytes that are no group have no room, and no filling at their end. -/
theorem filled_of_sizeOf {last beforeLast : UInt8} {front : List UInt8} (hlen : bytes.length < 4)
    (hreverse : bytes.reverse = last :: beforeLast :: front)
    (h : sizeOf bytes = .ok (size - out.length)) (hle : (out.length : Int) ≤ size) :
    size = out.length ∧ beforeLast ≠ fill ∧ last ≠ fill := by
  rw [sizeOf, hreverse] at h
  dsimp only at h
  split_ifs at h with hfill hfill' <;> have h := Except.ok.inj h
  · omega
  · omega
  · exact ⟨by omega, hfill, hfill'⟩

theorem agreeOn_rest (hlen : bytes.length < 4) (hne : bytes ≠ [])
    (hsize : 2 ≤ bytes.length → sizeOf bytes = .ok (size - out.length))
    (hle : (out.length : Int) ≤ size) :
    AgreeOn size (parseLast str size i char3 bytes out) (checkLast size bytes) ↔ Clean bytes := by
  have htwo : ∀ a b tail, size = out.length → (AgreeOn size (parseLast str size i char3 (a :: b :: tail) out)
      (checkLast size (a :: b :: tail)) ↔ (InTable a ∧ InTable b) ∧ ¬(Known a ∧ Known b)) := by
    intro a b tail heq
    have hfull : ∀ b₁, write size out b₁ = .error .arrayIndexOutOfBounds := fun b₁ =>
      write_of_le (Int.le_of_eq heq)
    simp only [parseLast, checkLast, byteAt, getElem?_cons_zero, getElem?_cons_succ, bind,
      Except.bind]
    by_cases ha : InTable a
    swap
    · simp [lookup_of_not_inTable ha, AgreeOn, ha]
    obtain ⟨va, hva, hka⟩ := lookup_of_inTable ha
    by_cases hb : InTable b
    swap
    · simp [hva, lookup_of_not_inTable hb, AgreeOn, hb]
    obtain ⟨vb, hvb, hkb⟩ := lookup_of_inTable hb
    simp only [hva, hvb, ha, hb, hka, hkb, and_self, true_and]
    by_cases hbad : va < 0 ∨ vb < 0
    · simp only [if_pos hbad, agreeOn_forbidden, true_iff]
      omega
    · simp only [if_neg hbad, hfull, AgreeOn, false_iff, not_not]
      omega
  match bytes with
  | [] => exact absurd rfl hne
  | [a] =>
    simp only [parseLast, checkLast, byteAt, getElem?_cons_zero, getElem?_cons_succ,
      getElem?_nil, bind, Except.bind, Clean, iff_false]
    by_cases ha : InTable a
    · obtain ⟨va, hva, -⟩ := lookup_of_inTable ha
      simp [hva, AgreeOn]
    · simp [lookup_of_not_inTable ha, AgreeOn]
  | [a, b] =>
    obtain ⟨heq, ha, hb⟩ := filled_of_sizeOf hlen rfl (hsize (Nat.le_refl 2)) hle
    simp only [htwo a b [] heq, Clean, ne_eq, ha, hb, not_false_eq_true, and_true]
  | [a, b, c] =>
    obtain ⟨heq, hb, hc⟩ := filled_of_sizeOf hlen rfl (hsize (by simp)) hle
    simp only [htwo a b [c] heq, Clean, ne_eq, hb, hc, not_false_eq_true, and_true]
  | a :: b :: c :: d :: rest =>
    simp only [length_cons] at hlen
    omega

theorem not_clean_of_sizeOf (hne : bytes ≠ []) (hsize : 2 ≤ bytes.length → sizeOf bytes = .ok n)
    (hneg : n < 0) : ¬Clean bytes := by
  match bytes with
  | [] => exact absurd rfl hne
  | [a] => exact id
  | [a, b] =>
    intro hclean
    have hn := hsize (Nat.le_refl 2)
    simp [sizeOf, hclean.2.2.1, hclean.2.2.2] at hn
    omega
  | [a, b, c] =>
    intro hclean
    have hn := hsize (by simp)
    simp [sizeOf, hclean.2.2.1, hclean.2.2.2] at hn
    omega
  | a :: b :: c :: d :: rest =>
    have hn := hsize (by simp)
    unfold sizeOf at hn
    split at hn
    · simp only [length_cons] at hn
      split_ifs at hn <;> have h := Except.ok.inj hn <;> omega
    · cases hn

theorem write_three {b₁ b₂ b₃ : UInt8} {α : Type} (k : List UInt8 → Except Thrown α) :
    ((write size out b₁).bind fun out =>
      (write size out b₂).bind fun out => (write size out b₃).bind k) =
      if (out.length : Int) + 3 ≤ size then k (out ++ [b₁, b₂, b₃])
      else .error .arrayIndexOutOfBounds := by
  have hsecond : (out ++ [b₁]).length = out.length + 1 := by simp
  have hthird : (out ++ [b₁] ++ [b₂]).length = out.length + 2 := by simp
  by_cases h₁ : (out.length : Int) < size
  swap
  · rw [write, if_neg h₁, if_neg (by omega)]
    rfl
  by_cases h₂ : ((out ++ [b₁]).length : Int) < size
  swap
  · rw [write_of_lt h₁, Except.bind, write, if_neg h₂, if_neg (by omega)]
    rfl
  rw [write_of_lt h₁, Except.bind, write_of_lt h₂, Except.bind]
  by_cases h₃ : ((out ++ [b₁] ++ [b₂]).length : Int) < size
  · rw [write_of_lt h₃, if_pos (by omega)]
    simp [Except.bind]
  · rw [write, if_neg h₃, if_neg (by omega)]
    rfl

section

variable {va vb vc vd : Int} {e : UInt8} {rest : List UInt8} (ha : lookup a = .ok va)
  (hb : lookup b = .ok vb) (hc : lookup c = .ok vc) (hd : lookup d = .ok vd)

include ha hb hc hd

theorem parseGroups_cons :
    parseGroups str size i char3 (a :: b :: c :: d :: e :: rest) out =
      if va < 0 ∨ vb < 0 ∨ vc < 0 ∨ vd < 0 then .error (forbidden str i)
      else if (out.length : Int) + 3 ≤ size then
        parseGroups str size (i + 4) vc (e :: rest)
          (out ++ [byte₁ va.toNat vb.toNat, byte₂ vb.toNat vc.toNat, byte₃ vc.toNat vd.toNat])
      else .error .arrayIndexOutOfBounds := by
  rw [← write_three]
  simp only [parseGroups, bind, ha, hb, hc, hd, Except.bind]

theorem checkGroups_cons :
    checkGroups size (a :: b :: c :: d :: e :: rest) =
      if va < 0 ∨ vb < 0 ∨ vc < 0 ∨ vd < 0 then .ok (-1) else checkGroups size (e :: rest) := by
  simp only [checkGroups, bind, ha, hb, hc, hd, Except.bind]

end

theorem not_agreeOn_cons {e : UInt8} {rest : List UInt8}
    (h : ¬(InTable a ∧ InTable b ∧ InTable c ∧ InTable d)) :
    ¬AgreeOn size (parseGroups str size i char3 (a :: b :: c :: d :: e :: rest) out)
      (checkGroups size (a :: b :: c :: d :: e :: rest)) := by
  simp only [parseGroups, checkGroups, bind]
  by_cases ha : InTable a
  swap
  · simp [lookup_of_not_inTable ha, AgreeOn, Except.bind]
  obtain ⟨va, hva, -⟩ := lookup_of_inTable ha
  by_cases hb : InTable b
  swap
  · simp [hva, lookup_of_not_inTable hb, AgreeOn, Except.bind]
  obtain ⟨vb, hvb, -⟩ := lookup_of_inTable hb
  by_cases hc : InTable c
  swap
  · simp [hva, hvb, lookup_of_not_inTable hc, AgreeOn, Except.bind]
  obtain ⟨vc, hvc, -⟩ := lookup_of_inTable hc
  have hd : ¬InTable d := fun hd => h ⟨ha, hb, hc, hd⟩
  simp [hva, hvb, hvc, lookup_of_not_inTable hd, AgreeOn, Except.bind]

/-- **The check says what the parser does exactly on clean bytes.** -/
theorem agreeOn_iff (hne : bytes ≠ []) (hle : (out.length : Int) ≤ size)
    (hsize : 2 ≤ bytes.length → sizeOf bytes = .ok (size - out.length)) :
    AgreeOn size (parseGroups str size i char3 bytes out) (checkGroups size bytes) ↔ Clean bytes := by
  induction bytes using checkGroups.induct generalizing i char3 out with
  | case1 a b c d e rest ih =>
    by_cases htable : InTable a ∧ InTable b ∧ InTable c ∧ InTable d
    swap
    · simp only [not_agreeOn_cons htable, Clean, htable, false_and]
    obtain ⟨ha, hb, hc, hd⟩ := htable
    obtain ⟨va, hva, hka⟩ := lookup_of_inTable ha
    obtain ⟨vb, hvb, hkb⟩ := lookup_of_inTable hb
    obtain ⟨vc, hvc, hkc⟩ := lookup_of_inTable hc
    obtain ⟨vd, hvd, hkd⟩ := lookup_of_inTable hd
    rw [parseGroups_cons hva hvb hvc hvd, checkGroups_cons hva hvb hvc hvd, Clean]
    by_cases hbad : va < 0 ∨ vb < 0 ∨ vc < 0 ∨ vd < 0
    · have hunknown : ¬(Known a ∧ Known b ∧ Known c ∧ Known d) := by
        rw [hka, hkb, hkc, hkd]
        omega
      simp only [if_pos hbad, agreeOn_forbidden, hunknown, ha, hb, hc, hd, and_self, false_implies]
    have hknown : Known a ∧ Known b ∧ Known c ∧ Known d := by
      rw [hka, hkb, hkc, hkd]
      omega
    simp only [if_neg hbad, hknown, ha, hb, hc, hd, and_self, true_and, forall_const]
    have hrest : 2 ≤ (e :: rest).length → sizeOf (e :: rest) = .ok (size - out.length - 3) := by
      intro hlen
      have h := hsize (by simp)
      rw [sizeOf_group _ _ _ _ hlen] at h
      cases hs : sizeOf (e :: rest) with
      | error t =>
        rw [hs] at h
        cases h
      | ok n =>
        rw [hs] at h
        have hn : n + 3 = size - out.length := Except.ok.inj h
        exact congrArg Except.ok (by omega)
    by_cases hfit : (out.length : Int) + 3 ≤ size
    · rw [if_pos hfit]
      refine ih (cons_ne_nil _ _) ?_ fun hlen => ?_
      · simp only [length_append, length_cons, length_nil]
        omega
      · rw [hrest hlen]
        simp only [length_append, length_cons, length_nil]
        exact congrArg Except.ok (by omega)
    · rw [if_neg hfit]
      simp only [AgreeOn, false_iff]
      exact not_clean_of_sizeOf (cons_ne_nil _ _) hrest (by omega)
  | case2 bytes hshort =>
    rw [parseGroups, checkGroups]
    · match bytes with
      | [] => exact absurd rfl hne
      | [_] => exact agreeOn_rest (by simp) hne hsize hle
      | [_, _] => exact agreeOn_rest (by simp) hne hsize hle
      | [_, _, _] => exact agreeOn_rest (by simp) hne hsize hle
      | [a, b, c, d] =>
        refine agreeOn_last ?_
        have h := hsize (by simp)
        simp only [sizeOf, reverse_cons, reverse_nil, nil_append, cons_append] at h
        split_ifs at h ⊢ <;> have h := Except.ok.inj h <;>
          simp only [length_cons, length_nil] at h <;> omega
      | a :: b :: c :: d :: e :: rest => exact absurd rfl (hshort a b c d e rest)
    · exact hshort
    · exact hshort

theorem sizeOf_eq_ok (h : 2 ≤ bytes.length) : ∃ n, sizeOf bytes = .ok n := by
  unfold sizeOf
  split
  · split_ifs <;> exact ⟨_, rfl⟩
  next hshort =>
    match hr : bytes.reverse with
    | [] =>
      rw [reverse_eq_nil_iff.mp hr] at h
      cases h
    | [x] =>
      have hlen := congrArg length hr
      rw [length_reverse, length_singleton] at hlen
      omega
    | x :: y :: front => exact absurd hr (hshort x y front)

theorem agree_iff_agreeOn (hn : 0 ≤ n) (parsed : Except Thrown (List UInt8))
    (checked : Except Thrown Int) :
    Agree (parsed.map fun out => out ++ replicate (n.toNat - out.length) 0) checked ↔
      AgreeOn n parsed checked := by
  cases parsed with
  | ok out =>
    have hfull : ((out ++ replicate (n.toNat - out.length) (0 : UInt8)).length : Int) =
        max (out.length : Int) n := by
      rw [length_append, length_replicate]
      omega
    simp only [Except.map, Agree, AgreeOn, hfull]
  | error t => cases t <;> exact Iff.rfl

/-- **When the check says what the parser does.** -/
theorem agree_iff_clean (getBytes : JavaString → List UInt8) (str : JavaString) :
    Agree (parseBase64 getBytes str) (checkBase64 getBytes str) ↔
      str.length % 4 ≠ 0 ∨ Clean (getBytes str) := by
  unfold parseBase64 checkBase64
  by_cases hmod : str.length % 4 ≠ 0
  · rw [if_pos hmod, if_pos hmod]
    refine iff_of_true (fun n hn => ?_) (Or.inl hmod)
    rw [← Except.ok.inj hn]
    decide
  rw [if_neg hmod, if_neg hmod, or_iff_right hmod]
  generalize getBytes str = bytes
  by_cases hnil : bytes = []
  · rw [if_pos hnil, if_pos hnil, hnil]
    exact iff_of_true rfl trivial
  rw [if_neg hnil, if_neg hnil]
  by_cases hlen : 2 ≤ bytes.length
  · obtain ⟨n, hn⟩ := sizeOf_eq_ok hlen
    rw [hn]
    simp only [bind, Except.bind]
    by_cases hneg : n < 0
    · rw [if_pos hneg]
      exact iff_of_false id (not_clean_of_sizeOf hnil (fun _ => hn) hneg)
    · rw [if_neg hneg]
      have hiff : AgreeOn n (parseGroups str n 0 0 bytes []) (checkGroups n bytes) ↔ Clean bytes :=
        agreeOn_iff hnil (Int.not_lt.mp hneg) fun _ => by rw [hn]; simp
      rw [← hiff, ← agree_iff_agreeOn (Int.not_lt.mp hneg)]
      exact Iff.rfl
  · match bytes with
    | [] => exact absurd rfl hnil
    | [_] => exact iff_of_false id id
    | a :: b :: rest => exact absurd (by simp) hlen

/-- **The codec**: what is formatted comes back where the buffer is not refused, and the check says
what the parser does exactly for clean bytes. -/
theorem base64_iff {getBytes : JavaString → List UInt8} (h : ExtendsAscii getBytes) :
    (∀ bytes, (formatBase64 bytes).bind (parseBase64 getBytes) = .ok bytes ↔
        0 ≤ capacity bytes.length) ∧
      ∀ str, Agree (parseBase64 getBytes str) (checkBase64 getBytes str) ↔
        str.length % 4 ≠ 0 ∨ Clean (getBytes str) :=
  ⟨formatBase64_bind_parseBase64_iff h, agree_iff_clean getBytes⟩

/-- The bytes of characters up to `ÿ`, as ISO Latin 1 has them; others are `?`. -/
def latin1 (str : JavaString) : List UInt8 :=
  str.map fun c => if c < 256 then c.toUInt8 else 0x3F

theorem extendsAscii_latin1 : ExtendsAscii latin1 := by
  intro str h
  refine map_congr_left fun c hc => if_pos ?_
  exact UInt16.lt_trans (h c hc) (by decide)

/-- It holds of that charset. -/
theorem base64_iff_latin1 :
    (∀ bytes, (formatBase64 bytes).bind (parseBase64 latin1) = .ok bytes ↔
        0 ≤ capacity bytes.length) ∧
      ∀ str, Agree (parseBase64 latin1 str) (checkBase64 latin1 str) ↔
        str.length % 4 ≠ 0 ∨ Clean (latin1 str) :=
  base64_iff extendsAscii_latin1

/-- Filling in front of a character: the check says one byte, and the second one does not fit.  A
character outside the table is refused by neither.  A buffer for so many bytes has a negative
capacity. -/
theorem codec_throws :
    ¬Agree (parseBase64 latin1 (javaString "AA=A")) (checkBase64 latin1 (javaString "AA=A")) ∧
      ¬Agree (parseBase64 latin1 (javaString "éAAA")) (checkBase64 latin1 (javaString "éAAA")) ∧
      (formatBase64 (replicate 536870912 0)).bind (parseBase64 latin1) ≠
        .ok (replicate 536870912 0) := by
  refine ⟨fun h => ?_, fun h => ?_, fun h => ?_⟩
  · have hparse : parseBase64 latin1 (javaString "AA=A") = .error .arrayIndexOutOfBounds := by decide
    rw [hparse] at h
    exact h
  · have hparse : parseBase64 latin1 (javaString "éAAA") = .error .arrayIndexOutOfBounds := by decide
    rw [hparse] at h
    exact h
  · have hcapacity : capacity (replicate 536870912 (0 : UInt8)).length < 0 := by
      rw [length_replicate]
      decide
    rw [formatBase64, if_pos hcapacity] at h
    cases h

end Agreement

end Ong.Util.Base64
