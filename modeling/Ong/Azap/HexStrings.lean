import Ong.Lib.Printf

/-!
# Addresses and byte arrays as strings

The representations of extended addresses and byte arrays with hexadecimal digits, and the functions
that read them.  What `sscanf` returns is not looked at: where it assigns nothing, the byte is what
was on the stack.

## Main results

* `stringToAzapExtAddr_toString`: an address is read from its representation
* `stringToAzapByteArray_toString_iff`: which byte arrays are
* `hexStrings_iff`: both, and which strings are accepted rightly
-/

namespace Ong.Azap

open List

open Printf (hexPair scanHexPair isHexDigit)

/-! ## The functions -/

def strMaxSize : Nat := 255

def ieeeAddrLen : Nat := 8

/-- `0x` -/
def hexPrefix : List UInt8 := [0x30, 0x78]

/-- `azap_extAddrToString`; the target is big endian. -/
def azapExtAddrToString (data : Option (List UInt8)) (withPrefix : Bool) : List UInt8 :=
  match data with
  | none => []
  | some data =>
    (if withPrefix then hexPrefix else []) ++ (data.take ieeeAddrLen).reverse.flatMap hexPair

/-- The loop of `azap_byteArrayToString`, with the length of the text so far. -/
def printBytes : List UInt8 → Nat → List UInt8
  | [], _ => []
  | b :: bytes, s => if s < strMaxSize - 3 then hexPair b ++ printBytes bytes (s + 2) else []

/-- `azap_byteArrayToString`; the list has `len` bytes. -/
def azapByteArrayToString (data : Option (List UInt8)) : List UInt8 :=
  match data with
  | none => []
  | some [] => []
  | some data => hexPrefix ++ printBytes data 2

/-- The loops of the readers: so many bytes, of two characters each; `stale` is what the turns find
on the stack. -/
def readPairs (stale : Nat → UInt8) : Nat → Nat → List UInt8 → List UInt8
  | _, 0, _ => []
  | i, n + 1, strRep =>
    (match scanHexPair strRep with
      | some val => UInt8.ofNat val
      | none => stale i) :: readPairs stale (i + 1) n (strRep.drop 2)

/-- `stringToAzap_extAddr`, with what the address is afterwards. -/
def stringToAzapExtAddr (stale : Nat → UInt8) (extAddr strRep : Option (List UInt8)) :
    Bool × Option (List UInt8) :=
  match extAddr, strRep with
  | some extAddr, some strRep =>
    if strRep.length ≠ 18 then (false, some extAddr)
    else if strRep.take 2 ≠ hexPrefix then (false, some extAddr)
    else
      (true, some ((readPairs stale 0 ieeeAddrLen (strRep.drop 2)).reverse ++
        extAddr.drop ieeeAddrLen))
  | extAddr, _ => (false, extAddr)

/-- The number of bytes that a string is taken to have: lengths are of 64 bits and wrap, the number has
16 bits. -/
def pairsOf (strRep : List UInt8) : Nat :=
  ((strRep.length + (2 ^ 64 - 2)) % 2 ^ 64 / 2) % 2 ^ 16

/-- `stringToAzap_byteArray`, with what the data are afterwards; their size is `len`. -/
def stringToAzapByteArray (stale : Nat → UInt8) (data strRep : Option (List UInt8)) :
    Nat × Option (List UInt8) :=
  match data, strRep with
  | some data, some strRep =>
    let l := pairsOf strRep
    if data.length < l then (0, some data)
    else if strRep.take 2 ≠ hexPrefix then (0, some data)
    else (l, some (readPairs stale 0 l (strRep.drop 2) ++ data.drop l))
  | data, _ => (0, data)

/-! ## Strings of hexadecimal digits -/

/-- `0x` and hexadecimal digits, as many as a condition says. -/
def HexString (number : Nat → Prop) (strRep : List UInt8) : Prop :=
  ∃ digits, strRep = hexPrefix ++ digits ∧ number digits.length ∧ ∀ c ∈ digits, isHexDigit c = true

/-- What a reader of addresses accepts is `0x` and sixteen digits, and the address is left where it
refuses. -/
def StrictExtAddr (stale : Nat → UInt8) (extAddr strRep : Option (List UInt8)) : Prop :=
  ((stringToAzapExtAddr stale extAddr strRep).1 = true → ∃ s ∈ strRep, HexString (· = 16) s) ∧
    ((stringToAzapExtAddr stale extAddr strRep).1 = false →
      (stringToAzapExtAddr stale extAddr strRep).2 = extAddr)

/-- The same of byte arrays, with an even number of digits. -/
def StrictByteArray (stale : Nat → UInt8) (data strRep : Option (List UInt8)) : Prop :=
  ((stringToAzapByteArray stale data strRep).1 ≠ 0 → ∃ s ∈ strRep, HexString (· % 2 = 0) s) ∧
    ((stringToAzapByteArray stale data strRep).1 = 0 →
      (stringToAzapByteArray stale data strRep).2 = data)

theorem stringToAzapByteArray_some (stale : Nat → UInt8) (data strRep : List UInt8) :
    stringToAzapByteArray stale (some data) (some strRep) =
      if data.length < pairsOf strRep then (0, some data)
      else if strRep.take 2 ≠ hexPrefix then (0, some data)
      else (pairsOf strRep, some (readPairs stale 0 (pairsOf strRep) (strRep.drop 2) ++
        data.drop (pairsOf strRep))) := rfl

section Reading

variable {stale : Nat → UInt8} {bytes strRep rest : List UInt8} {i n s : Nat}

theorem length_hexPair (b : UInt8) : (hexPair b).length = 2 := rfl

theorem length_flatMap_hexPair (bytes : List UInt8) :
    (bytes.flatMap hexPair).length = 2 * bytes.length := by
  induction bytes with
  | nil => rfl
  | cons b bytes ih =>
    rw [flatMap_cons, length_append, ih, length_hexPair, length_cons]
    omega

theorem readPairs_flatMap (bytes rest : List UInt8) :
    readPairs stale i bytes.length (bytes.flatMap hexPair ++ rest) = bytes := by
  induction bytes generalizing i with
  | nil => rfl
  | cons b bytes ih =>
    have hdrop : (hexPair b ++ (bytes.flatMap hexPair ++ rest)).drop 2 =
        bytes.flatMap hexPair ++ rest := rfl
    rw [flatMap_cons, append_assoc, length_cons, readPairs,
      Printf.scanHexPair_hexPair, hdrop, ih]
    dsimp only
    rw [UInt8.ofNat_toNat]

/-- **An address is read from its representation.** -/
theorem stringToAzapExtAddr_toString {a extAddr : List UInt8} (ha : a.length = ieeeAddrLen)
    (hextAddr : extAddr.length = ieeeAddrLen) :
    stringToAzapExtAddr stale (some extAddr) (some (azapExtAddrToString (some a) true)) =
      (true, some a) := by
  have htake : a.take ieeeAddrLen = a := take_of_length_le (Nat.le_of_eq ha)
  have hrest : extAddr.drop ieeeAddrLen = [] := drop_eq_nil_of_le (Nat.le_of_eq hextAddr)
  have hlen : (hexPrefix ++ a.reverse.flatMap hexPair).length = 18 := by
    rw [length_append, length_flatMap_hexPair, length_reverse, ha]
    rfl
  have hdrop : (hexPrefix ++ a.reverse.flatMap hexPair).drop 2 = a.reverse.flatMap hexPair := rfl
  have hprefix : (hexPrefix ++ a.reverse.flatMap hexPair).take 2 = hexPrefix := rfl
  have hread : readPairs stale 0 ieeeAddrLen (a.reverse.flatMap hexPair) = a.reverse := by
    have h := @readPairs_flatMap stale 0 a.reverse []
    rwa [append_nil, length_reverse, ha] at h
  rw [azapExtAddrToString, htake, if_pos rfl, stringToAzapExtAddr, if_neg (not_not.mpr hlen),
    if_neg (not_not.mpr hprefix), hdrop, hread, hrest, reverse_reverse, append_nil]

theorem printBytes_eq (bytes : List UInt8) (s : Nat) :
    printBytes bytes s = (bytes.take ((strMaxSize - 3 + 1 - s) / 2)).flatMap hexPair := by
  induction bytes generalizing s with
  | nil => rw [printBytes, take_nil, flatMap_nil]
  | cons b bytes ih =>
    rw [printBytes]
    split_ifs with h
    · obtain ⟨k, hk⟩ : ∃ k, (strMaxSize - 3 + 1 - s) / 2 = k + 1 :=
        ⟨(strMaxSize - 3 + 1 - s) / 2 - 1, by omega⟩
      have hnext : (strMaxSize - 3 + 1 - (s + 2)) / 2 = k := by omega
      rw [ih, hk, hnext, take_succ_cons, flatMap_cons]
    · have hzero : (strMaxSize - 3 + 1 - s) / 2 = 0 := by omega
      rw [hzero, take_zero, flatMap_nil]

theorem azapByteArrayToString_eq {data : List UInt8} (h : data ≠ []) :
    azapByteArrayToString (some data) = hexPrefix ++ (data.take 125).flatMap hexPair := by
  obtain ⟨b, bytes, rfl⟩ := exists_cons_of_ne_nil h
  rw [azapByteArrayToString, printBytes_eq]
  · rfl
  · exact cons_ne_nil b bytes

theorem pairsOf_eq {strRep : List UInt8} {k : Nat} (h : strRep.length = 2 + k) (hk : k < 2 ^ 17) :
    pairsOf strRep = k / 2 := by
  rw [pairsOf, h]
  omega

/-- **Which byte arrays are read from their representations**: those of which all bytes were printed. -/
theorem stringToAzapByteArray_toString_iff {b data : List UInt8} (hdata : b.length ≤ data.length) :
    stringToAzapByteArray stale (some data) (some (azapByteArrayToString (some b))) =
      (b.length, some (b ++ data.drop b.length)) ↔ b.length ≤ 125 := by
  by_cases hnil : b = []
  · subst hnil
    refine iff_of_true ?_ (Nat.zero_le _)
    have hprefix : ([] : List UInt8).take 2 ≠ hexPrefix := by decide
    rw [azapByteArrayToString, stringToAzapByteArray_some, if_pos hprefix, ite_self]
    rfl
  have hlen : (b.take 125).length = min 125 b.length := length_take
  have hpairs : pairsOf (hexPrefix ++ (b.take 125).flatMap hexPair) = min 125 b.length := by
    rw [pairsOf_eq (k := 2 * min 125 b.length) (by
      rw [length_append, length_flatMap_hexPair, hlen]
      rfl) (by omega)]
    omega
  have hprefix : (hexPrefix ++ (b.take 125).flatMap hexPair).take 2 = hexPrefix := rfl
  have hdrop : (hexPrefix ++ (b.take 125).flatMap hexPair).drop 2 = (b.take 125).flatMap hexPair := rfl
  have hread : readPairs stale 0 (min 125 b.length) ((b.take 125).flatMap hexPair) = b.take 125 := by
    have h := @readPairs_flatMap stale 0 (b.take 125) []
    rwa [append_nil, hlen] at h
  rw [azapByteArrayToString_eq hnil, stringToAzapByteArray_some, hpairs, if_neg (by omega), if_neg (not_not.mpr hprefix), hdrop, hread]
  constructor
  · intro h
    have hcount := (Prod.mk.inj h).1
    omega
  · intro h
    rw [Nat.min_eq_right h, take_of_length_le h]

end Reading

section Accepting

variable {stale : Nat → UInt8} {s : List UInt8}

theorem hexString_iff {number : Nat → Prop} (h : s.take 2 = hexPrefix) :
    HexString number s ↔ number (s.length - 2) ∧ ∀ c ∈ s.drop 2, isHexDigit c = true := by
  have hsplit : s = hexPrefix ++ s.drop 2 := by
    rw [← h, take_append_drop]
  constructor
  · rintro ⟨digits, rfl, hnumber, hdigits⟩
    exact ⟨hnumber, hdigits⟩
  · rintro ⟨hnumber, hdigits⟩
    refine ⟨s.drop 2, hsplit, ?_, hdigits⟩
    rw [length_drop]
    exact hnumber

/-- **When only sixteen digits are accepted for an address.** -/
theorem strictExtAddr_iff (extAddr strRep : Option (List UInt8)) :
    StrictExtAddr stale extAddr strRep ↔
      ∀ a ∈ extAddr, ∀ s ∈ strRep, s.length = 18 → s.take 2 = hexPrefix →
        ∀ c ∈ s.drop 2, isHexDigit c = true := by
  cases extAddr with
  | none => simp [StrictExtAddr, stringToAzapExtAddr]
  | some a =>
    cases strRep with
    | none => simp [StrictExtAddr, stringToAzapExtAddr]
    | some s =>
      by_cases hlen : s.length = 18
      · by_cases hprefix : s.take 2 = hexPrefix
        · simp [StrictExtAddr, stringToAzapExtAddr, hlen, hprefix, hexString_iff]
        · simp [StrictExtAddr, stringToAzapExtAddr, hlen, hprefix]
      · simp [StrictExtAddr, stringToAzapExtAddr, hlen]

/-- **When only an even number of digits is accepted for a byte array.** -/
theorem strictByteArray_iff (data strRep : Option (List UInt8)) :
    StrictByteArray stale data strRep ↔
      ∀ d ∈ data, ∀ s ∈ strRep, s.take 2 = hexPrefix → pairsOf s ≠ 0 → pairsOf s ≤ d.length →
        (s.length - 2) % 2 = 0 ∧ ∀ c ∈ s.drop 2, isHexDigit c = true := by
  cases data with
  | none => simp [StrictByteArray, stringToAzapByteArray]
  | some d =>
    cases strRep with
    | none => simp [StrictByteArray, stringToAzapByteArray]
    | some s =>
      simp only [StrictByteArray, stringToAzapByteArray_some, Option.mem_def, Option.some.injEq,
        forall_eq', exists_eq_left']
      generalize pairsOf s = l
      by_cases hlen : d.length < l
      · simp [hlen, Nat.not_le.mpr hlen]
      · by_cases hprefix : s.take 2 = hexPrefix
        · by_cases hzero : l = 0
          · simp [hzero, hprefix, readPairs]
          · simp [hlen, hprefix, hzero, hexString_iff, Nat.not_lt.mp hlen]
        · simp [hlen, hprefix]

/-- **Addresses and byte arrays as strings**: what is read from a representation, and which strings are
accepted rightly. -/
theorem hexStrings_iff (stale : Nat → UInt8) :
    (∀ a extAddr : List UInt8, a.length = ieeeAddrLen → extAddr.length = ieeeAddrLen →
      stringToAzapExtAddr stale (some extAddr) (some (azapExtAddrToString (some a) true)) =
        (true, some a)) ∧
      (∀ b data : List UInt8, b.length ≤ data.length →
        (stringToAzapByteArray stale (some data) (some (azapByteArrayToString (some b))) =
          (b.length, some (b ++ data.drop b.length)) ↔ b.length ≤ 125)) ∧
      (∀ extAddr strRep, StrictExtAddr stale extAddr strRep ↔
        ∀ a ∈ extAddr, ∀ s ∈ strRep, s.length = 18 → s.take 2 = hexPrefix →
          ∀ c ∈ s.drop 2, isHexDigit c = true) ∧
      ∀ data strRep, StrictByteArray stale data strRep ↔
        ∀ d ∈ data, ∀ s ∈ strRep, s.take 2 = hexPrefix → pairsOf s ≠ 0 → pairsOf s ≤ d.length →
          (s.length - 2) % 2 = 0 ∧ ∀ c ∈ s.drop 2, isHexDigit c = true :=
  ⟨fun _ _ => stringToAzapExtAddr_toString, fun _ _ => stringToAzapByteArray_toString_iff,
    strictExtAddr_iff, strictByteArray_iff⟩

/-- It holds of an address, and of a byte array that is as long as its representation may be. -/
theorem hexStrings_address :
    stringToAzapExtAddr (fun _ => 0xCC) (some [0, 0, 0, 0, 0, 0, 0, 0])
        (some (azapExtAddrToString (some [8, 7, 6, 5, 4, 3, 2, 1]) true)) =
      (true, some [8, 7, 6, 5, 4, 3, 2, 1]) ∧
      (stringToAzapByteArray (fun _ => 0xCC) (some [0, 0, 0])
        (some (azapByteArrayToString (some [1, 2]))) = (2, some [1, 2, 0]) ↔ 2 ≤ 125) :=
  ⟨(hexStrings_iff _).1 _ _ rfl rfl, (hexStrings_iff _).2.1 [1, 2] [0, 0, 0] (by decide)⟩

/-- No digit is needed in an address, an array may have a digit too many, and one of 126 bytes is
printed without its last byte. -/
theorem hexStrings_not_strict :
    ¬StrictExtAddr (fun _ => 0xCC) (some [0, 0, 0, 0, 0, 0, 0, 0])
        (some (hexPrefix ++ replicate 16 0x7A)) ∧
      ¬StrictByteArray (fun _ => 0xCC) (some [0]) (some (hexPrefix ++ [0x31, 0x32, 0x33])) ∧
      stringToAzapByteArray (fun _ => 0xCC) (some (replicate 126 0))
        (some (azapByteArrayToString (some (replicate 126 1)))) ≠
        (126, some (replicate 126 1)) := by
  refine ⟨fun h => ?_, fun h => ?_, fun h => ?_⟩
  · have hdigits := (strictExtAddr_iff _ _).mp h _ rfl _ rfl (by decide) (by decide) 0x7A (by decide)
    exact absurd hdigits (by decide)
  · have hdigits := (strictByteArray_iff _ _).mp h _ rfl _ rfl (by decide) (by decide) (by decide)
    exact absurd hdigits.1 (by decide)
  · have hiff := @stringToAzapByteArray_toString_iff (fun _ => 0xCC) (replicate 126 1)
      (replicate 126 0) (by simp)
    have hle := hiff.mp (by simpa using h)
    rw [length_replicate] at hle
    exact absurd hle (by decide)

end Accepting

end Ong.Azap
