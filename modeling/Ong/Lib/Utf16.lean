import Mathlib.Data.List.Basic

/-!
# UTF-16

A text as its code units.  A character outside the basic plane is a pair of surrogates.

## Main results

* `decode_encode`: the round trip
* `paired_encode`, `exists_of_paired`: the texts without unpaired surrogates are the encoded ones
-/

namespace Ong.Utf16

/-- The first of a pair of surrogates. -/
def isHigh (u : UInt16) : Bool := 0xD800 ≤ u.toNat && u.toNat < 0xDC00

/-- The second of a pair of surrogates. -/
def isLow (u : UInt16) : Bool := 0xDC00 ≤ u.toNat && u.toNat < 0xE000

/-- The code units of a character. -/
def encodeChar (c : Char) : List UInt16 :=
  if c.toNat < 0x10000 then [UInt16.ofNat c.toNat]
  else [UInt16.ofNat (0xD800 + (c.toNat - 0x10000) / 0x400),
    UInt16.ofNat (0xDC00 + (c.toNat - 0x10000) % 0x400)]

/-- The code units of a text. -/
def encode (cs : List Char) : List UInt16 := cs.flatMap encodeChar

/-- The character of a pair of surrogates. -/
def pairChar (u v : UInt16) : Char :=
  Char.ofNat (0x10000 + (u.toNat - 0xD800) * 0x400 + (v.toNat - 0xDC00))

/-- The characters of a text, when every surrogate is one of a pair. -/
def decode : List UInt16 → Option (List Char)
  | [] => some []
  | u :: us =>
    if isLow u then none
    else if isHigh u then
      match us with
      | [] => none
      | v :: vs => if isLow v then (decode vs).map (pairChar u v :: ·) else none
    else (decode us).map (Char.ofNat u.toNat :: ·)

/-- Every surrogate is one of a pair. -/
inductive Paired : List UInt16 → Prop
  | nil : Paired []
  | unit {u : UInt16} {us : List UInt16} (hhigh : isHigh u = false) (hlow : isLow u = false)
      (rest : Paired us) : Paired (u :: us)
  | pair {u v : UInt16} {us : List UInt16} (hhigh : isHigh u = true) (hlow : isLow v = true)
      (rest : Paired us) : Paired (u :: v :: us)

variable {c : Char} {cs : List Char} {u v : UInt16} {us : List UInt16}

@[simp] theorem encode_nil : encode [] = [] := rfl

@[simp] theorem encode_cons : encode (c :: cs) = encodeChar c ++ encode cs := rfl

@[simp] theorem encode_append {ds : List Char} : encode (cs ++ ds) = encode cs ++ encode ds :=
  List.flatMap_append

theorem toNat_lt (c : Char) : c.toNat < 0xD800 ∨ 0xDFFF < c.toNat ∧ c.toNat < 0x110000 := c.valid

theorem toNat_ofNat {n : ℕ} (h : n.isValidChar) : (Char.ofNat n).toNat = n := by
  rw [Char.ofNat, dif_pos h]
  rfl

theorem isHigh_iff : isHigh u = true ↔ 0xD800 ≤ u.toNat ∧ u.toNat < 0xDC00 := by
  simp [isHigh]

theorem isLow_iff : isLow u = true ↔ 0xDC00 ≤ u.toNat ∧ u.toNat < 0xE000 := by
  simp [isLow]

theorem encodeChar_of_lt (h : c.toNat < 0x10000) :
    ∃ u, encodeChar c = [u] ∧ u.toNat = c.toNat ∧ isHigh u = false ∧ isLow u = false := by
  have hu : (UInt16.ofNat c.toNat).toNat = c.toNat := UInt16.toNat_ofNat_of_lt' h
  have hvalid := toNat_lt c
  refine ⟨_, if_pos h, hu, ?_, ?_⟩
  · rw [Bool.eq_false_iff, Ne, isHigh_iff, hu]
    omega
  · rw [Bool.eq_false_iff, Ne, isLow_iff, hu]
    omega

theorem encodeChar_of_ge (h : 0x10000 ≤ c.toNat) :
    ∃ u v, encodeChar c = [u, v] ∧ isHigh u = true ∧ isLow v = true ∧
      0x10000 + (u.toNat - 0xD800) * 0x400 + (v.toNat - 0xDC00) = c.toNat := by
  have hlt := toNat_lt c
  have hu : (UInt16.ofNat (0xD800 + (c.toNat - 0x10000) / 0x400)).toNat =
      0xD800 + (c.toNat - 0x10000) / 0x400 := UInt16.toNat_ofNat_of_lt' (by
        change _ < 65536
        omega)
  have hv : (UInt16.ofNat (0xDC00 + (c.toNat - 0x10000) % 0x400)).toNat =
      0xDC00 + (c.toNat - 0x10000) % 0x400 := UInt16.toNat_ofNat_of_lt' (by
        change _ < 65536
        omega)
  refine ⟨_, _, if_neg (Nat.not_lt.mpr h), ?_, ?_, ?_⟩
  · rw [isHigh_iff, hu]
    omega
  · rw [isLow_iff, hv]
    omega
  · omega

theorem isLow_eq_false_of_isHigh (h : isHigh u = true) : isLow u = false := by
  rw [isHigh_iff] at h
  rw [Bool.eq_false_iff, Ne, isLow_iff]
  omega

theorem decode_unit (hhigh : isHigh u = false) (hlow : isLow u = false) :
    decode (u :: us) = (decode us).map (Char.ofNat u.toNat :: ·) := by
  rw [decode.eq_def]
  simp [hhigh, hlow]

theorem decode_pair (hhigh : isHigh u = true) (hlow : isLow v = true) :
    decode (u :: v :: us) = (decode us).map (pairChar u v :: ·) := by
  rw [decode.eq_def]
  simp [hhigh, hlow, isLow_eq_false_of_isHigh hhigh]

/-- **What is encoded is decoded.** -/
theorem decode_encode : decode (encode cs) = some cs := by
  induction cs with
  | nil => rfl
  | cons c cs ih =>
    rw [encode_cons]
    rcases Nat.lt_or_ge c.toNat 0x10000 with hlt | hge
    · obtain ⟨u, hu, hval, hhigh, hlow⟩ := encodeChar_of_lt hlt
      rw [hu, List.singleton_append, decode_unit hhigh hlow, ih, hval, Char.ofNat_toNat]
      rfl
    · obtain ⟨u, v, huv, hhigh, hlow, hval⟩ := encodeChar_of_ge hge
      rw [huv, List.cons_append, List.singleton_append, decode_pair hhigh hlow, ih, pairChar, hval,
        Char.ofNat_toNat]
      rfl

theorem paired_encode : Paired (encode cs) := by
  induction cs with
  | nil => exact .nil
  | cons c cs ih =>
    rw [encode_cons]
    rcases Nat.lt_or_ge c.toNat 0x10000 with hlt | hge
    · obtain ⟨u, hu, -, hhigh, hlow⟩ := encodeChar_of_lt hlt
      exact hu ▸ ih.unit hhigh hlow
    · obtain ⟨u, v, huv, hhigh, hlow, -⟩ := encodeChar_of_ge hge
      exact huv ▸ ih.pair hhigh hlow

/-- A text without unpaired surrogates is an encoded one. -/
theorem exists_of_paired (h : Paired us) : ∃ cs, us = encode cs := by
  induction h with
  | nil => exact ⟨[], rfl⟩
  | @unit u us hhigh hlow _ ih =>
    obtain ⟨cs, rfl⟩ := ih
    have hlt := u.toNat_lt
    rw [Bool.eq_false_iff, Ne, isHigh_iff] at hhigh
    rw [Bool.eq_false_iff, Ne, isLow_iff] at hlow
    have hval : (Char.ofNat u.toNat).toNat = u.toNat := toNat_ofNat (by
      change u.toNat < 0xD800 ∨ 0xDFFF < u.toNat ∧ u.toNat < 0x110000
      omega)
    refine ⟨Char.ofNat u.toNat :: cs, ?_⟩
    rw [encode_cons, encodeChar, hval, if_pos hlt, UInt16.ofNat_toNat, List.singleton_append]
  | @pair u v us hhigh hlow _ ih =>
    obtain ⟨cs, rfl⟩ := ih
    rw [isHigh_iff] at hhigh
    rw [isLow_iff] at hlow
    have hval : (pairChar u v).toNat =
        0x10000 + (u.toNat - 0xD800) * 0x400 + (v.toNat - 0xDC00) := toNat_ofNat (by
      change _ < 0xD800 ∨ 0xDFFF < _ ∧ _ < 0x110000
      omega)
    have hu : 0xD800 + ((pairChar u v).toNat - 0x10000) / 0x400 = u.toNat := by omega
    have hv : 0xDC00 + ((pairChar u v).toNat - 0x10000) % 0x400 = v.toNat := by omega
    refine ⟨pairChar u v :: cs, ?_⟩
    rw [encode_cons, encodeChar, if_neg (by omega), hu, hv, UInt16.ofNat_toNat, UInt16.ofNat_toNat]
    rfl

end Ong.Utf16
