import Ong.Lib.Printf
import Ong.Lib.Sextets

/-!
# Base64 in the runtime base

`rtl_base64_encode` and `rtl_base64_decode`.  The decoder has no size for what it writes; it takes
groups of four characters, passes over white space in front of them, and does not look at what is
left behind the last one.

## Main results

* `decodeLoop_spaced`: what was encoded is decoded
* `length_decodeLoop_le`: how much is written
* `rtl_base64_groups`: both, and what is refused
-/

namespace Ong.Rtbase.Base64

open Sextets List
open Printf (isSpace)

/-! ## The functions -/

def b64string : List UInt8 :=
  "ABCDEFGHIJKLMNOPQRSTUVWXYZabcdefghijklmnopqrstuvwxyz0123456789+/".toList.map fun c =>
    UInt8.ofNat c.toNat

/-- `b64string[(int)obyte]` -/
def b64char (obyte : UInt8) : UInt8 := b64string.getD obyte.toNat 0

/-- The filling, `=`. -/
def fill : UInt8 := 0x3D

/-- The second number of six bits. -/
def secondBits (b₁ b₂ : UInt8) : UInt8 := ((b₁ <<< 4) &&& (0x30 : UInt8)) ||| (b₂ >>> 4)

/-- The third number of six bits. -/
def thirdBits (b₂ b₃ : UInt8) : UInt8 := ((b₂ <<< 2) &&& (0x3C : UInt8)) ||| (b₃ >>> 6)

/-- `rtl_base64_encode`: the characters in front of the `NUL`. -/
def rtlBase64Encode : List UInt8 → List UInt8
  | b₁ :: b₂ :: b₃ :: rest =>
    b64char (b₁ >>> 2) :: b64char (secondBits b₁ b₂) :: b64char (thirdBits b₂ b₃) ::
      b64char (b₃ &&& 0x3F) :: rtlBase64Encode rest
  | [b₁, b₂] =>
    [b64char (b₁ >>> 2), b64char (secondBits b₁ b₂), b64char ((b₂ <<< 2) &&& (0x3C : UInt8)), fill]
  | [b₁] => [b64char (b₁ >>> 2), b64char (secondBits b₁ 0), fill, fill]
  | [] => []

/-- The number of a character, or zero for the filling; `badchar` has none. -/
def sextet (c : UInt8) : Option UInt8 :=
  if c = fill then some 0 else (b64string.findIdx? (· == c)).map UInt8.ofNat

/-- The count of the filling behind one of the last two characters of a group. -/
def countFill (c : UInt8) (padding : Nat) : Nat := if c = fill then padding + 1 else 0

/-- A group of four characters, with what is written and the filling; a group that is refused may
have written something. -/
def decodeGroup (a b c d : UInt8) (out : List UInt8) (padding : Nat) :
    Except (List UInt8) (List UInt8 × Nat) :=
  match sextet a, sextet b with
  | some s₁, some s₂ =>
    let out := out ++ [(s₁ <<< 2) ||| (s₂ >>> 4)]
    match sextet c with
    | none => .error out
    | some s₃ =>
      let out := out ++ [(s₂ <<< 4) ||| (s₃ >>> 2)]
      match sextet d with
      | none => .error out
      | some s₄ =>
        .ok (out ++ [(s₃ <<< 6) ||| s₄], countFill d (countFill c padding))
  | _, _ => .error out

/-- What the decoder has written, with the `NUL`, and what it returns. -/
structure Decoding where
  written : List UInt8
  result : Int
  deriving DecidableEq

/-- The loop, which goes on while there are four characters. -/
def decodeLoop : List UInt8 → List UInt8 → Nat → Decoding
  | a :: b :: c :: d :: rest, out, padding =>
    if isSpace a then decodeLoop (b :: c :: d :: rest) out padding
    else
      match decodeGroup a b c d out padding with
      | .error out => ⟨out, -1⟩
      | .ok (out, padding) => decodeLoop rest out padding
  | _, out, padding => ⟨out ++ [0], (out.length : Int) - padding⟩

def rtlBase64Decode (from' : List UInt8) : Decoding := decodeLoop from' [] 0

section Groups

variable {b₁ b₂ b₃ s₁ s₂ s₃ s₄ c : UInt8}

/-! The numbers of six bits, and the bytes, without bits. -/

theorem toNat_secondBits (b₁ b₂ : UInt8) : (secondBits b₁ b₂).toNat = second b₁ b₂ := by
  have hhigh : ((b₁ <<< 4) &&& (0x30 : UInt8)).toNat = b₁.toNat % 4 * 16 :=
    toNat_and_shifted b₁ 4 2 (by decide)
  have hlow : (b₂ >>> 4).toNat = b₂.toNat / 16 := toNat_shiftRight b₂ 4 (by decide)
  have h₂ := b₂.toNat_lt
  rw [secondBits, toNat_or 4 (by rw [hhigh]; omega) (by rw [hlow]; omega), hhigh, hlow, second]

theorem toNat_thirdBits (b₂ b₃ : UInt8) : (thirdBits b₂ b₃).toNat = third b₂ b₃ := by
  have hhigh : ((b₂ <<< 2) &&& (0x3C : UInt8)).toNat = b₂.toNat % 16 * 4 :=
    toNat_and_shifted b₂ 2 4 (by decide)
  have hlow : (b₃ >>> 6).toNat = b₃.toNat / 64 := toNat_shiftRight b₃ 6 (by decide)
  have h₃ := b₃.toNat_lt
  rw [thirdBits, toNat_or 2 (by rw [hhigh]; omega) (by rw [hlow]; omega), hhigh, hlow, third]

theorem or_eq_byte₁ (h₂ : s₂.toNat < 64) :
    (s₁ <<< 2) ||| (s₂ >>> 4) = byte₁ s₁.toNat s₂.toNat := by
  have hhigh : (s₁ <<< 2).toNat = s₁.toNat * 4 % 256 := toNat_shiftLeft s₁ 2 (by decide)
  have hlow : (s₂ >>> 4).toNat = s₂.toNat / 16 := toNat_shiftRight s₂ 4 (by decide)
  rw [← UInt8.toNat_inj, toNat_or 2 (by rw [hhigh]; omega) (by rw [hlow]; omega), hhigh, hlow, byte₁,
    UInt8.toNat_ofNat']
  omega

theorem or_eq_byte₂ (h₃ : s₃.toNat < 64) :
    (s₂ <<< 4) ||| (s₃ >>> 2) = byte₂ s₂.toNat s₃.toNat := by
  have hhigh : (s₂ <<< 4).toNat = s₂.toNat * 16 % 256 := toNat_shiftLeft s₂ 4 (by decide)
  have hlow : (s₃ >>> 2).toNat = s₃.toNat / 4 := toNat_shiftRight s₃ 2 (by decide)
  rw [← UInt8.toNat_inj, toNat_or 4 (by rw [hhigh]; omega) (by rw [hlow]; omega), hhigh, hlow, byte₂,
    UInt8.toNat_ofNat']
  omega

theorem or_eq_byte₃ (h₄ : s₄.toNat < 64) : (s₃ <<< 6) ||| s₄ = byte₃ s₃.toNat s₄.toNat := by
  have hhigh : (s₃ <<< 6).toNat = s₃.toNat * 64 % 256 := toNat_shiftLeft s₃ 6 (by decide)
  rw [← UInt8.toNat_inj, toNat_or 6 (by rw [hhigh]; omega) (by omega), hhigh, byte₃, UInt8.toNat_ofNat']
  omega

/-- A character of the alphabet is found, and is neither filling nor white space. -/
structure Encodes (c : UInt8) (n : Nat) : Prop where
  sextet : sextet c = some (UInt8.ofNat n)
  ne_fill : c ≠ fill
  not_space : isSpace c = false
  lt : n < 64

theorem encodes_b64char {n : Nat} {obyte : UInt8} (h : obyte.toNat = n) (hn : n < 64) :
    Encodes (b64char obyte) n := by
  have hall : (range 64).all (fun n =>
      sextet (b64string.getD n 0) == some (UInt8.ofNat n) && b64string.getD n 0 != fill &&
        !isSpace (b64string.getD n 0)) = true := by decide
  have hchar := all_eq_true.mp hall n (mem_range.mpr hn)
  simp only [Bool.and_eq_true, beq_iff_eq, bne_iff_ne, Bool.not_eq_true'] at hchar
  rw [b64char, h]
  exact ⟨hchar.1.1, hchar.1.2, hchar.2, hn⟩

theorem toNat_ofNat_of_lt {n : Nat} (h : n < 64) : (UInt8.ofNat n).toNat = n := by
  rw [UInt8.toNat_ofNat']
  omega

theorem encodes_first (b : UInt8) : Encodes (b64char (b >>> 2)) (first b) :=
  encodes_b64char (toNat_shiftRight b 2 (by decide)) (first_lt b)

theorem encodes_second (b₁ b₂ : UInt8) : Encodes (b64char (secondBits b₁ b₂)) (second b₁ b₂) :=
  encodes_b64char (toNat_secondBits b₁ b₂) (second_lt b₁ b₂)

theorem encodes_third (b₂ b₃ : UInt8) : Encodes (b64char (thirdBits b₂ b₃)) (third b₂ b₃) :=
  encodes_b64char (toNat_thirdBits b₂ b₃) (third_lt b₂ b₃)

theorem encodes_fourth (b : UInt8) : Encodes (b64char (b &&& 0x3F)) (fourth b) :=
  encodes_b64char (toNat_and_mask b 6 (by decide)) (fourth_lt b)

theorem thirdBits_zero (b₂ : UInt8) : (b₂ <<< 2) &&& (0x3C : UInt8) = thirdBits b₂ 0 := by
  rw [thirdBits, UInt8.zero_shiftRight, UInt8.or_zero]

theorem sextet_fill : sextet fill = some 0 := rfl

end Groups

section RoundTrip

variable {a b c d : UInt8} {rest out text t gap : List UInt8} {padding : Nat}

section

variable {n₁ n₂ : Nat} (ha : Encodes a n₁) (hb : Encodes b n₂)

include ha hb

theorem decodeGroup_three {n₃ n₄ : Nat} (hc : Encodes c n₃) (hd : Encodes d n₄) :
    decodeGroup a b c d out padding = .ok (out ++ [byte₁ n₁ n₂, byte₂ n₂ n₃, byte₃ n₃ n₄], 0) := by
  have h₂ := toNat_ofNat_of_lt hb.lt
  have h₃ := toNat_ofNat_of_lt hc.lt
  have h₄ := toNat_ofNat_of_lt hd.lt
  have hlt₂ := hb.lt
  have hlt₃ := hc.lt
  have hlt₄ := hd.lt
  simp only [decodeGroup, ha.sextet, hb.sextet, hc.sextet, hd.sextet, countFill, if_neg hd.ne_fill,
    or_eq_byte₁ (by rw [h₂]; exact hlt₂), or_eq_byte₂ (by rw [h₃]; exact hlt₃),
    or_eq_byte₃ (by rw [h₄]; exact hlt₄), h₂, h₃, h₄, toNat_ofNat_of_lt ha.lt, append_assoc,
    cons_append, nil_append]

theorem decodeGroup_two {n₃ : Nat} (hc : Encodes c n₃) :
    decodeGroup a b c fill out padding = .ok (out ++ [byte₁ n₁ n₂, byte₂ n₂ n₃, byte₃ n₃ 0], 1) := by
  have h₂ := toNat_ofNat_of_lt hb.lt
  have h₃ := toNat_ofNat_of_lt hc.lt
  have h₄ : (0 : UInt8).toNat = 0 := rfl
  have hlt₂ := hb.lt
  have hlt₃ := hc.lt
  simp only [decodeGroup, ha.sextet, hb.sextet, hc.sextet, sextet_fill, countFill, if_true,
    if_neg hc.ne_fill, or_eq_byte₁ (by rw [h₂]; exact hlt₂), or_eq_byte₂ (by rw [h₃]; exact hlt₃),
    or_eq_byte₃ (by rw [h₄]; decide), h₂, h₃, h₄, toNat_ofNat_of_lt ha.lt, append_assoc,
    cons_append, nil_append]

theorem decodeGroup_one :
    decodeGroup a b fill fill out 0 = .ok (out ++ [byte₁ n₁ n₂, byte₂ n₂ 0, byte₃ 0 0], 2) := by
  have h₂ := toNat_ofNat_of_lt hb.lt
  have h₃ : (0 : UInt8).toNat = 0 := rfl
  have hlt₂ := hb.lt
  simp only [decodeGroup, ha.sextet, hb.sextet, sextet_fill, countFill, if_true,
    or_eq_byte₁ (by rw [h₂]; exact hlt₂), or_eq_byte₂ (by rw [h₃]; decide),
    or_eq_byte₃ (by rw [h₃]; decide), h₂, h₃, toNat_ofNat_of_lt ha.lt, append_assoc,
    cons_append, nil_append]

end

/-! White space. -/

theorem decodeLoop_space (ha : isSpace a = true) (h : 3 ≤ rest.length) :
    decodeLoop (a :: rest) out padding = decodeLoop rest out padding := by
  match rest with
  | b :: c :: d :: rest => rw [decodeLoop, if_pos ha]
  | [] | [_] | [_, _] => simp at h

theorem decodeLoop_short (h : text.length < 4) :
    decodeLoop text out padding = ⟨out ++ [0], (out.length : Int) - padding⟩ := by
  match text with
  | [] | [_] | [_, _] | [_, _, _] => rfl
  | a :: b :: c :: d :: rest =>
    simp only [length_cons] at h
    omega

theorem decodeLoop_gap (hgap : ∀ c ∈ gap, isSpace c = true) (h : 4 ≤ rest.length) :
    decodeLoop (gap ++ rest) out padding = decodeLoop rest out padding := by
  induction gap with
  | nil => rfl
  | cons g gap ih =>
    rw [cons_append, decodeLoop_space (hgap g mem_cons_self) (by
      rw [length_append]
      omega)]
    exact ih fun c hc => hgap c (mem_cons_of_mem _ hc)

theorem decodeLoop_end (hgap : ∀ c ∈ gap, isSpace c = true) :
    decodeLoop gap out padding = ⟨out ++ [0], (out.length : Int) - padding⟩ := by
  induction gap with
  | nil => rfl
  | cons g gap ih =>
    by_cases hlen : 3 ≤ gap.length
    · rw [decodeLoop_space (hgap g mem_cons_self) hlen]
      exact ih fun c hc => hgap c (mem_cons_of_mem _ hc)
    · exact decodeLoop_short (by rw [length_cons]; omega)

/-- A text in groups of four, with white space in front of the groups and behind the last one. -/
inductive Spaced : List UInt8 → List UInt8 → Prop
  | nil {gap : List UInt8} (hgap : ∀ c ∈ gap, isSpace c = true) : Spaced [] gap
  | group {gap text t : List UInt8} (a b c d : UInt8) (hgap : ∀ c ∈ gap, isSpace c = true)
      (h : Spaced text t) : Spaced (a :: b :: c :: d :: text) (gap ++ a :: b :: c :: d :: t)

theorem decodeLoop_group (hgap : ∀ c ∈ gap, isSpace c = true) (ha : isSpace a = false)
    {out' : List UInt8} {padding' : Nat}
    (hgroup : decodeGroup a b c d out padding = .ok (out', padding')) :
    decodeLoop (gap ++ a :: b :: c :: d :: t) out padding = decodeLoop t out' padding' := by
  rw [decodeLoop_gap hgap (by simp), decodeLoop, if_neg (by simp [ha]), hgroup]

/-- **What was encoded is decoded**, with the bytes that fill its last group behind it. -/
theorem decodeLoop_spaced (bytes : List UInt8) (h : Spaced (rtlBase64Encode bytes) t) :
    ∃ filler, decodeLoop t out 0 =
      ⟨out ++ bytes ++ filler, (out.length : Int) + bytes.length⟩ := by
  induction bytes using rtlBase64Encode.induct generalizing t out with
  | case1 b₁ b₂ b₃ rest ih =>
    rw [rtlBase64Encode] at h
    obtain _ | ⟨_, _, _, _, hgap, htail⟩ := h
    have hgroup : decodeGroup _ _ _ _ out 0 = .ok (out ++ [_, _, _], 0) :=
      decodeGroup_three (encodes_first b₁) (encodes_second b₁ b₂) (encodes_third b₂ b₃)
        (encodes_fourth b₃)
    rw [byte₁_first, byte₂_second, byte₃_third] at hgroup
    obtain ⟨filler, hfiller⟩ := @ih (out ++ [b₁, b₂, b₃]) _ htail
    rw [decodeLoop_group hgap (encodes_first b₁).not_space hgroup, hfiller]
    refine ⟨filler, ?_⟩
    simp only [append_assoc, cons_append, nil_append, length_append,
      length_cons, length_nil, Decoding.mk.injEq, true_and]
    omega
  | case2 b₁ b₂ =>
    rw [rtlBase64Encode, thirdBits_zero] at h
    obtain _ | ⟨_, _, _, _, hgap, htail⟩ := h
    obtain ⟨hend⟩ := htail
    have hgroup : decodeGroup _ _ _ _ out 0 = .ok (out ++ [_, _, _], 1) :=
      decodeGroup_two (encodes_first b₁) (encodes_second b₁ b₂) (encodes_third b₂ 0)
    rw [byte₁_first, byte₂_second] at hgroup
    rw [decodeLoop_group hgap (encodes_first b₁).not_space hgroup, decodeLoop_end hend]
    refine ⟨[byte₃ (third b₂ 0) 0, 0], ?_⟩
    simp only [append_assoc, cons_append, nil_append, length_append,
      length_cons, length_nil, Decoding.mk.injEq, true_and]
    omega
  | case3 b₁ =>
    rw [rtlBase64Encode] at h
    obtain _ | ⟨_, _, _, _, hgap, htail⟩ := h
    obtain ⟨hend⟩ := htail
    have hgroup : decodeGroup _ _ fill fill out 0 = .ok (out ++ [_, _, _], 2) :=
      decodeGroup_one (encodes_first b₁) (encodes_second b₁ 0)
    rw [byte₁_first] at hgroup
    rw [decodeLoop_group hgap (encodes_first b₁).not_space hgroup, decodeLoop_end hend]
    refine ⟨[byte₂ (second b₁ 0) 0, byte₃ 0 0, 0], ?_⟩
    simp only [append_assoc, cons_append, nil_append, length_append,
      length_cons, length_nil, Decoding.mk.injEq, true_and]
    omega
  | case4 =>
    rw [rtlBase64Encode] at h
    obtain ⟨hend⟩ := h
    rw [decodeLoop_end hend]
    exact ⟨[0], by simp⟩

end RoundTrip

section Bounds

variable {a b c d : UInt8} {out t : List UInt8} {padding : Nat}

theorem length_decodeGroup :
    (∀ out' padding', decodeGroup a b c d out padding = .ok (out', padding') →
      out'.length = out.length + 3) ∧
    ∀ out', decodeGroup a b c d out padding = .error out' → out'.length ≤ out.length + 2 := by
  unfold decodeGroup
  split
  · split
    · refine ⟨nofun, fun out' h => ?_⟩
      cases h
      simp
    · split
      · refine ⟨nofun, fun out' h => ?_⟩
        cases h
        simp
      · refine ⟨fun out' _ h => ?_, nofun⟩
        cases h
        simp
  · refine ⟨nofun, fun out' h => ?_⟩
    cases h
    exact Nat.le_add_right _ _

/-- **How much is written**: three bytes for four characters, and the `NUL`. -/
theorem length_decodeLoop_le (t out : List UInt8) (padding : Nat) :
    (decodeLoop t out padding).written.length ≤ out.length + 3 * (t.length / 4) + 1 := by
  induction t, out, padding using decodeLoop.induct with
  | case1 a b c d rest out padding hspace ih =>
    rw [decodeLoop, if_pos hspace]
    simp only [length_cons] at ih ⊢
    omega
  | case2 a b c d rest out padding hspace out' hgroup =>
    rw [decodeLoop, if_neg hspace, hgroup]
    have h := length_decodeGroup.2 out' hgroup
    simp only [length_cons]
    omega
  | case3 a b c d rest out padding hspace out' padding' hgroup ih =>
    rw [decodeLoop, if_neg hspace, hgroup]
    have h := length_decodeGroup.1 out' padding' hgroup
    simp only [length_cons] at ih ⊢
    omega
  | case4 t out padding hshort =>
    rw [decodeLoop]
    · simp only [length_append, length_singleton]
      omega
    · exact hshort

/-- The groups of four characters that stand in a text, each behind white space. -/
def groups : List UInt8 → List (List UInt8)
  | a :: b :: c :: d :: rest =>
    if isSpace a then groups (b :: c :: d :: rest) else [a, b, c, d] :: groups rest
  | _ => []

/-- A character of the alphabet or the filling. -/
def Allowed (c : UInt8) : Prop := c ∈ b64string ∨ c = fill

theorem sextet_eq_none (h : ¬Allowed c) : sextet c = none := by
  rw [Allowed, not_or] at h
  rw [sextet, if_neg h.2, findIdx?_eq_none_iff.mpr, Option.map_none]
  intro x hx
  rw [beq_eq_false_iff_ne]
  rintro rfl
  exact h.1 hx

theorem decodeGroup_refuses (h : ∃ x ∈ [a, b, c, d], ¬Allowed x) :
    ∃ out', decodeGroup a b c d out padding = .error out' := by
  obtain ⟨x, hx, hbad⟩ := h
  have hnone := sextet_eq_none hbad
  simp only [mem_cons, not_mem_nil, or_false] at hx
  unfold decodeGroup
  cases ha : sextet a with
  | none => exact ⟨_, rfl⟩
  | some s₁ =>
    cases hb : sextet b with
    | none => exact ⟨_, rfl⟩
    | some s₂ =>
      cases hc : sextet c with
      | none => exact ⟨_, rfl⟩
      | some s₃ =>
        have hd : sextet d = none := by
          rcases hx with rfl | rfl | rfl | rfl
          · rw [hnone] at ha
            cases ha
          · rw [hnone] at hb
            cases hb
          · rw [hnone] at hc
            cases hc
          · exact hnone
        rw [hd]
        exact ⟨_, rfl⟩

/-- **A group with another character is refused.** -/
theorem result_decodeLoop (h : ∃ g ∈ groups t, ∃ c ∈ g, ¬Allowed c) :
    (decodeLoop t out padding).result = -1 := by
  induction t, out, padding using decodeLoop.induct with
  | case1 a b c d rest out padding hspace ih =>
    rw [groups, if_pos hspace] at h
    rw [decodeLoop, if_pos hspace]
    exact ih h
  | case2 a b c d rest out padding hspace out' hgroup =>
    rw [decodeLoop, if_neg hspace, hgroup]
  | case3 a b c d rest out padding hspace out' padding' hgroup ih =>
    rw [groups, if_neg hspace] at h
    rw [decodeLoop, if_neg hspace, hgroup]
    obtain ⟨g, hg, hbad⟩ := h
    rcases mem_cons.mp hg with rfl | hg
    · obtain ⟨out'', hrefused⟩ : ∃ out'', decodeGroup a b c d out padding = .error out'' :=
        decodeGroup_refuses hbad
      rw [hgroup] at hrefused
      cases hrefused
    · exact ih ⟨g, hg, hbad⟩
  | case4 t out padding hshort =>
    obtain ⟨g, hg, -⟩ := h
    rw [groups] at hg
    · cases hg
    · exact hshort

/-- **The codec by groups**: what was encoded is decoded, also with white space between the groups;
no more is written than three bytes for four characters, and the `NUL`; a group with a character that
is neither of the alphabet nor the filling is refused. -/
theorem rtl_base64_groups :
    (∀ bytes t, Spaced (rtlBase64Encode bytes) t →
      (rtlBase64Decode t).result = bytes.length ∧
        (rtlBase64Decode t).written.take bytes.length = bytes) ∧
      (∀ t, (rtlBase64Decode t).written.length ≤ 3 * (t.length / 4) + 1) ∧
      ∀ t, (∃ g ∈ groups t, ∃ c ∈ g, ¬Allowed c) → (rtlBase64Decode t).result = -1 := by
  refine ⟨fun bytes t h => ?_, fun t => ?_, fun t h => result_decodeLoop h⟩
  · obtain ⟨filler, hdecode⟩ := @decodeLoop_spaced [] t bytes h
    rw [rtlBase64Decode, hdecode]
    simp
  · have h := length_decodeLoop_le t [] 0
    rw [length_nil, Nat.zero_add] at h
    exact h

/-- The bytes of a text. -/
def text (s : String) : List UInt8 := s.toList.map fun c => UInt8.ofNat c.toNat

/-- It holds of a group between blanks. -/
theorem rtl_base64_groups_blanks :
    (rtlBase64Decode (text " QUJD ")).result = 3 ∧
      (rtlBase64Decode (text " QUJD ")).written.take 3 = text "ABC" ∧
      (rtlBase64Decode (text "QU-D")).result = -1 := by
  have hblank : ∀ c ∈ text " ", isSpace c = true := all_eq_true.mp (by decide)
  have hspaced : Spaced (rtlBase64Encode (text "ABC")) (text " QUJD ") :=
    Spaced.group _ _ _ _ hblank (Spaced.nil hblank)
  obtain ⟨hdecode, -, hrefuse⟩ := rtl_base64_groups
  obtain ⟨hresult, hwritten⟩ := hdecode _ _ hspaced
  exact ⟨hresult, hwritten, hrefuse _ ⟨text "QU-D", by decide, 0x2D, by decide, by
    simp only [Allowed]
    decide⟩⟩

/-- White space in a group is refused, a character behind the last group is not, and filling may stand
anywhere. -/
theorem rtl_base64_not_strict :
    rtlBase64Encode (text "ABC") = text "QUJD" ∧ (rtlBase64Decode (text "QU JD")).result = -1 ∧
      (rtlBase64Decode (text "QUJD!")).result = 3 ∧ (rtlBase64Decode (text "=UJD")).result = 3 := by
  decide

end Bounds

end Ong.Rtbase.Base64
