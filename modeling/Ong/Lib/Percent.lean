import Mathlib.Data.List.Basic

/-!
# Percent-encoding

Bytes that are not to stand in a text are written as a percent sign and two hexadecimal digits.

## Main results

* `encodes_escape`, `encodes_of_not_mem`, `Encodes.append`: what stands for what
* `Encodes.decode`: a text that stands for some bytes is decoded to them
-/

namespace Ong.Percent

open List

/-- The percent sign. -/
def sign : UInt8 := 0x25

/-- A digit below sixteen, in upper case. -/
def digit (n : ℕ) : UInt8 := if n < 10 then UInt8.ofNat (48 + n) else UInt8.ofNat (55 + n)

/-- The value of a hexadecimal digit. -/
def value (c : UInt8) : Option ℕ :=
  if 48 ≤ c.toNat ∧ c.toNat ≤ 57 then some (c.toNat - 48)
  else if 65 ≤ c.toNat ∧ c.toNat ≤ 70 then some (c.toNat - 55)
  else if 97 ≤ c.toNat ∧ c.toNat ≤ 102 then some (c.toNat - 87)
  else none

/-- An escaped byte. -/
def escape (b : UInt8) : List UInt8 := [sign, digit (b.toNat / 16), digit (b.toNat % 16)]

/-- The bytes that a text stands for, when digits follow every percent sign. -/
def decode : List UInt8 → Option (List UInt8)
  | [] => some []
  | b :: rest =>
    if b = sign then
      match rest with
      | high :: low :: rest =>
        (value high).bind fun high => (value low).bind fun low =>
          (decode rest).map (UInt8.ofNat (high * 16 + low) :: ·)
      | _ => none
    else (decode rest).map (b :: ·)

/-- A piece of a text stands for some bytes, whatever follows. -/
def Encodes (piece bytes : List UInt8) : Prop :=
  ∀ rest, decode (piece ++ rest) = (decode rest).map (bytes ++ ·)

variable {piece piece' bytes bytes' : List UInt8} {b : UInt8}

theorem value_digit {n : ℕ} (h : n < 16) : value (digit n) = some n := by
  have hall : ∀ n < 16, value (digit n) = some n := by decide
  exact hall n h

theorem lt_of_mem_escape {d : UInt8} (h : d ∈ escape b) : d.toNat < 0x80 := by
  have hb := b.toNat_lt
  have hdigit : ∀ n < 16, (digit n).toNat < 0x80 := by decide
  simp only [escape, mem_cons, not_mem_nil, or_false] at h
  rcases h with rfl | rfl | rfl
  · decide
  · exact hdigit _ (by omega)
  · exact hdigit _ (by omega)

theorem encodes_nil : Encodes [] [] := fun rest => by simp

theorem Encodes.append (h : Encodes piece bytes) (h' : Encodes piece' bytes') :
    Encodes (piece ++ piece') (bytes ++ bytes') := by
  intro rest
  rw [append_assoc, h, h', Option.map_map]
  simp only [Function.comp_def, append_assoc]

/-- An escaped byte stands for the byte. -/
theorem encodes_escape (b : UInt8) : Encodes (escape b) [b] := by
  intro rest
  have hb := b.toNat_lt
  have hval : UInt8.ofNat (b.toNat / 16 * 16 + b.toNat % 16) = b := by
    rw [Nat.div_add_mod', UInt8.ofNat_toNat]
  have hhigh : value (digit (b.toNat / 16)) = some (b.toNat / 16) := value_digit (by omega)
  have hlow : value (digit (b.toNat % 16)) = some (b.toNat % 16) := value_digit (by omega)
  rw [escape, decode.eq_def]
  simp only [cons_append, nil_append, if_true, hhigh, hlow, Option.bind_some, hval]

/-- Bytes without a percent sign stand for themselves. -/
theorem encodes_of_not_mem (h : sign ∉ bytes) : Encodes bytes bytes := by
  induction bytes with
  | nil => exact encodes_nil
  | cons b bytes ih =>
    intro rest
    obtain ⟨hb, hbytes⟩ := ne_and_not_mem_of_not_mem_cons h
    rw [cons_append, decode.eq_def]
    simp only [if_neg (Ne.symm hb), ih hbytes rest, Option.map_map, Function.comp_def,
      cons_append]

theorem utf8EncodeChar_of_lt {c : Char} (h : c.toNat < 0x80) :
    String.utf8EncodeChar c = [UInt8.ofNat c.toNat] := by
  have hle : c.val.toNat ≤ 0x7f := Nat.le_of_lt_succ h
  simp only [String.utf8EncodeChar, if_pos hle]
  rfl

theorem le_of_mem_utf8EncodeChar {c : Char} (h : 0x80 ≤ c.toNat)
    (hb : b ∈ String.utf8EncodeChar c) : 0x80 ≤ b.toNat := by
  have hgt : ¬ c.val.toNat ≤ 0x7f := Nat.not_le.mpr h
  have hbyte : ∀ n k base, 0x80 ≤ base → k + base ≤ 256 → 0 < k →
      0x80 ≤ (UInt8.ofNat (n % k + base)).toNat := by
    intro n k base hbase hsum hk
    have hlt := Nat.mod_lt n hk
    rw [UInt8.toNat_ofNat', Nat.mod_eq_of_lt (by omega)]
    omega
  simp only [String.utf8EncodeChar, if_neg hgt] at hb
  split_ifs at hb <;> simp only [mem_cons, not_mem_nil, or_false] at hb
  · rcases hb with rfl | rfl <;> exact hbyte _ _ _ (by decide) (by decide) (by decide)
  · rcases hb with rfl | rfl | rfl <;> exact hbyte _ _ _ (by decide) (by decide) (by decide)
  · rcases hb with rfl | rfl | rfl | rfl <;> exact hbyte _ _ _ (by decide) (by decide) (by decide)

theorem flatMap_utf8EncodeChar {ds : List UInt8} (h : ∀ d ∈ ds, d.toNat < 0x80) :
    (ds.map fun d => Char.ofNat d.toNat).flatMap String.utf8EncodeChar = ds := by
  induction ds with
  | nil => rfl
  | cons d ds ih =>
    obtain ⟨hd, hds⟩ := forall_mem_cons.mp h
    have hval : (Char.ofNat d.toNat).toNat = d.toNat := by
      rw [Char.ofNat, dif_pos (.inl (by omega))]
      rfl
    rw [map_cons, flatMap_cons, ih hds, utf8EncodeChar_of_lt (by rwa [hval]), hval,
      UInt8.ofNat_toNat, singleton_append]

theorem encodes_char {c : Char} (h : c ≠ '%') :
    Encodes (String.utf8EncodeChar c) (String.utf8EncodeChar c) := by
  refine encodes_of_not_mem fun hsign => ?_
  rcases Nat.lt_or_ge c.toNat 0x80 with hlt | hge
  · rw [utf8EncodeChar_of_lt hlt, mem_singleton] at hsign
    have hval : (0x25 : ℕ) = c.toNat := by
      have hnat := congrArg UInt8.toNat hsign
      rwa [UInt8.toNat_ofNat', Nat.mod_eq_of_lt (by omega)] at hnat
    exact h (by rw [← Char.ofNat_toNat c, ← hval])
  · exact absurd (le_of_mem_utf8EncodeChar hge hsign) (by decide)

theorem Encodes.decode (h : Encodes piece bytes) : decode piece = some bytes := by
  have hpiece := h []
  rw [append_nil] at hpiece
  simpa [Percent.decode] using hpiece

end Ong.Percent
