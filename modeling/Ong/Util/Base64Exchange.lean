import Ong.Rtbase.Base64
import Ong.Util.Base64

/-!
# Base64 between the drivers and the gateway

The drivers encode and decode with the runtime base, the gateway with its format utilities.  Both
write the same characters, and each reads what the other one wrote.

## Main results

* `formatGroups_eq`: both write the same
* `base64_exchanged`: each reads what the other one wrote
-/

namespace Ong.Util.Base64

open Sextets List
open Rtbase.Base64 (rtlBase64Encode rtlBase64Decode b64char secondBits thirdBits toNat_secondBits
  toNat_thirdBits thirdBits_zero decodeLoop_spaced Spaced)

theorem b64char_eq {n : Nat} {obyte : UInt8} (h : obyte.toNat = n) (hn : n < 64) :
    (base64Char n).toUInt8 = b64char obyte := by
  have hall : (range 64).all (fun n =>
      (base64Char n).toUInt8 == Rtbase.Base64.b64string.getD n 0) = true := by decide
  rw [b64char, h]
  exact beq_iff_eq.mp (all_eq_true.mp hall n (mem_range.mpr hn))

/-- The drivers and the gateway write the same characters. -/
theorem formatGroups_eq (bytes : List UInt8) :
    (formatGroups bytes).map UInt16.toUInt8 = rtlBase64Encode bytes := by
  have hfirst : ∀ b : UInt8, (base64Char (first b)).toUInt8 = b64char (b >>> 2) :=
    fun b => b64char_eq (toNat_shiftRight b 2 (by decide)) (first_lt b)
  have hsecond := fun b₁ b₂ => b64char_eq (toNat_secondBits b₁ b₂) (second_lt b₁ b₂)
  have hthird := fun b₂ b₃ => b64char_eq (toNat_thirdBits b₂ b₃) (third_lt b₂ b₃)
  have hfourth : ∀ b : UInt8, (base64Char (fourth b)).toUInt8 = b64char (b &&& 0x3F) :=
    fun b => b64char_eq (toNat_and_mask b 6 (by decide)) (fourth_lt b)
  induction bytes using formatGroups.induct with
  | case1 b₁ b₂ b₃ rest ih =>
    simp only [formatGroups, rtlBase64Encode, map_cons, ih]
    rw [hfirst, hsecond, hthird, hfourth]
  | case2 b₁ b₂ =>
    simp only [formatGroups, rtlBase64Encode, map_cons, map_nil]
    rw [hfirst, hsecond, hthird, thirdBits_zero]
    rfl
  | case3 b₁ =>
    simp only [formatGroups, rtlBase64Encode, map_cons, map_nil]
    rw [hfirst, hsecond]
    rfl
  | case4 => rfl

theorem spaced_self (bytes : List UInt8) : Spaced (rtlBase64Encode bytes) (rtlBase64Encode bytes) := by
  have hgap : ∀ c ∈ ([] : List UInt8), Printf.isSpace c = true := forall_mem_nil _
  induction bytes using Ong.Rtbase.Base64.rtlBase64Encode.induct with
  | case1 b₁ b₂ b₃ rest ih => exact .group _ _ _ _ hgap ih
  | case2 | case3 => exact .group _ _ _ _ hgap (.nil hgap)
  | case4 => exact .nil hgap

/-- **Each side reads what the other one wrote**: the driver decodes what the gateway formats, the
bytes that fill the last group left out of the count, and the gateway parses what the driver
encodes. -/
theorem base64_exchanged {getBytes : JavaString → List UInt8} (h : ExtendsAscii getBytes)
    (bytes : List UInt8) :
    (∀ str, formatBase64 bytes = .ok str →
      ∃ filler, rtlBase64Decode (getBytes str) = ⟨bytes ++ filler, bytes.length⟩) ∧
    parseBase64 getBytes ((rtlBase64Encode bytes).map UInt8.toUInt16) = .ok bytes := by
  constructor
  · intro str hstr
    unfold formatBase64 at hstr
    split_ifs at hstr
    obtain rfl := Except.ok.inj hstr
    obtain ⟨filler, hdecode⟩ := @decodeLoop_spaced [] _ bytes (spaced_self bytes)
    rw [h _ (lt_of_mem_formatGroups bytes), formatGroups_eq]
    exact ⟨filler, by rw [rtlBase64Decode, hdecode]; simp⟩
  · have hback : (rtlBase64Encode bytes).map UInt8.toUInt16 = formatGroups bytes := by
      rw [← formatGroups_eq, map_map]
      refine (map_congr_left fun c hc => ?_).trans (map_id _)
      have hlt : c.toNat < 128 := UInt16.lt_iff_toNat_lt.mp (lt_of_mem_formatGroups bytes c hc)
      rw [Function.comp_apply, ← UInt16.toNat_inj, UInt8.toNat_toUInt16, UInt16.toNat_toUInt8, id]
      omega
    rw [hback]
    exact parseBase64_formatGroups h bytes

/-- Two bytes are exchanged in ISO Latin 1. -/
theorem base64_exchanged_latin1 :
    (∀ str, formatBase64 [0, 0xFF] = .ok str →
      ∃ filler, rtlBase64Decode (latin1 str) = ⟨[0, 0xFF] ++ filler, 2⟩) ∧
    parseBase64 latin1 (javaString "AP8=") = .ok [0, 0xFF] :=
  base64_exchanged extendsAscii_latin1 [0, 0xFF]

end Ong.Util.Base64
