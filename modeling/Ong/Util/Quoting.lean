import Ong.Lib.Percent
import Ong.Lib.Sextets
import Ong.Lib.Utf16
import Ong.Util.CharacterUtils

/-!
# Quoting

The quoting of the characters of a part of a URI that are not authorised there.

## Main results

* `quote_eq_flatMap`: the quoting is one of each code unit
* `quoted_encode_iff`: what is not quoted as it should be is a `NUL`
* `percentDecode_encode`: what was quoted is decoded to the text
-/

namespace Ong.Util

open Utf16 List Percent

def hexDigits : JavaString := javaString "0123456789ABCDEF"

def appendEscape (sb : JavaString) (b : UInt8) : JavaString :=
  sb ++ [ch '%', hexDigits.getD ((b >>> 4) &&& 0x0f).toNat 0,
    hexDigits.getD ((b >>> 0) &&& 0x0f).toNat 0]

/-- `getBytes("UTF-8")` of a string of one code unit, where a surrogate becomes a question mark. -/
def utf8Bytes (c : UInt16) : List UInt8 :=
  if c.toNat.isValidChar then String.utf8EncodeChar (Char.ofNat c.toNat) else [0x3F]

def appendEncoded (sb : JavaString) (c : UInt16) : JavaString :=
  (utf8Bytes c).foldl (fun sb b => if b ≥ 0x80 then appendEscape sb b else sb ++ [b.toUInt16]) sb

/-- The loop of `quote` from the index `i` on, with the buffer once there is one. -/
def quoteFrom (mask : Mask) (s : JavaString) : JavaString → ℕ → Option JavaString → JavaString
  | [], _, sb => sb.getD s
  | c :: rest, i, sb =>
    if c < 0x80 then
      if !mask.has c then
        quoteFrom mask s rest (i + 1) (some (appendEscape (sb.getD (s.take i)) c.toUInt8))
      else quoteFrom mask s rest (i + 1) (sb.map (· ++ [c]))
    else if mask.allowsEscapes && (isSpaceChar c || isISOControl c) then
      quoteFrom mask s rest (i + 1) (some (appendEncoded (sb.getD (s.take i)) c))
    else quoteFrom mask s rest (i + 1) (sb.map (· ++ [c]))

def quote (s : JavaString) (mask : Mask) : JavaString := quoteFrom mask s s 0 none

namespace Mask

/-- `L_MARK` and `H_MARK` -/
def mark : Mask := ofChars (javaString "-_.!~*\x27()")

/-- `L_UNRESERVED` and `H_UNRESERVED` -/
def unreserved : Mask := alphanum ∪ mark

/-- `L_RESERVED` and `H_RESERVED` -/
def reserved : Mask := ofChars (javaString ";/?:@&=+$,[]")

/-- `L_URIC` and `H_URIC` -/
def uric : Mask := reserved ∪ unreserved ∪ escaped

/-- `L_REG_NAME` and `H_REG_NAME` -/
def regName : Mask := unreserved ∪ escaped ∪ ofChars (javaString "$,;:@&=+")

/-- `L_USERINFO` and `H_USERINFO` -/
def userinfo : Mask := unreserved ∪ escaped ∪ ofChars (javaString ";:&=+$,")

/-- `L_PCHAR` and `H_PCHAR` -/
def pchar : Mask := unreserved ∪ escaped ∪ ofChars (javaString ":@&=+$,")

/-- `L_QUERY` and `H_QUERY` -/
def query : Mask := unreserved ∪ escaped ∪ ofChars (javaString ";/?:@+$,[]")

/-- `L_PATH` and `H_PATH` -/
def path : Mask := pchar ∪ ofChars (javaString ";/")

end Mask

variable (value : JavaString)

def encodeOpaquePart : JavaString := quote value .uric

def encodeRegistry : JavaString := quote value .regName

def encodeUserInfo : JavaString := quote value .userinfo

def encodePath : JavaString := quote value .path

def encodePathSegment : JavaString := quote value .pchar

def encodeQuerySegment : JavaString := quote value .query

/-- The parts of a URI that are quoted. -/
inductive Part where
  | pathSegment
  | path
  | querySegment
  | registry
  | userInfo
  | opaquePart

/-- The function that quotes a part. -/
def Part.encode : Part → JavaString → JavaString
  | .pathSegment => encodePathSegment
  | .path => encodePath
  | .querySegment => encodeQuerySegment
  | .registry => encodeRegistry
  | .userInfo => encodeUserInfo
  | .opaquePart => encodeOpaquePart

/-- The mask of a part. -/
def Part.mask : Part → Mask
  | .pathSegment => .pchar
  | .path => .path
  | .querySegment => .query
  | .registry => .regName
  | .userInfo => .userinfo
  | .opaquePart => .uric

/-- The letters and the digits. -/
def alphanumChars : JavaString :=
  javaString "abcdefghijklmnopqrstuvwxyzABCDEFGHIJKLMNOPQRSTUVWXYZ0123456789"

/-- The unreserved characters of the documentation. -/
def unreservedChars : JavaString := alphanumChars ++ javaString "-_.!~*\x27()"

/-- The characters that the documentation of the mask of a part lists. -/
def Part.authorised : Part → JavaString
  | .pathSegment => unreservedChars ++ javaString ":@&=+$,"
  | .path => unreservedChars ++ javaString ":@&=+$," ++ javaString ";/"
  | .querySegment => unreservedChars ++ javaString ";/?:@+$,[]"
  | .registry => unreservedChars ++ javaString "$,;:@&=+"
  | .userInfo => unreservedChars ++ javaString ";:&=+$,"
  | .opaquePart => javaString ";/?:@&=+$,[]" ++ unreservedChars

/-- Every ASCII character is authorised or part of an escape. -/
inductive Quoted (authorised : JavaString) : JavaString → Prop
  | nil : Quoted authorised []
  | plain {c : UInt16} {s : JavaString} (hc : c < 0x80 → c ∈ authorised)
      (rest : Quoted authorised s) : Quoted authorised (c :: s)
  | escape {high low : UInt16} {s : JavaString} (hhigh : high ∈ hexDigits)
      (hlow : low ∈ hexDigits) (rest : Quoted authorised s) :
      Quoted authorised (ch '%' :: high :: low :: s)

/-- The text that a text with escapes stands for: its bytes in UTF-8 are decoded. -/
def percentDecode (s : JavaString) : Option JavaString :=
  (Utf16.decode s).bind fun cs =>
    (Percent.decode (cs.flatMap String.utf8EncodeChar)).bind fun bytes =>
      bytes.toByteArray.utf8Decode?.map fun cs => Utf16.encode cs.toList

section Units

variable (mask : Mask) {c : UInt16} {s t : JavaString}

/-- The quoting of a code unit. -/
def quoteUnit (c : UInt16) : JavaString :=
  if c < 0x80 then if mask.has c then [c] else appendEscape [] c.toUInt8
  else if mask.allowsEscapes && (isSpaceChar c || isISOControl c) then appendEncoded [] c
  else [c]

variable (sb : JavaString)

theorem appendEscape_eq (b : UInt8) :
    appendEscape sb b = sb ++ appendEscape [] b := rfl

theorem appendEncoded_eq_flatMap (c : UInt16) :
    appendEncoded sb c = sb ++ (utf8Bytes c).flatMap fun b =>
      if b ≥ 0x80 then appendEscape [] b else [b.toUInt16] := by
  rw [appendEncoded]
  induction utf8Bytes c generalizing sb with
  | nil => simp
  | cons b bytes ih =>
    rw [foldl_cons, ih, flatMap_cons, ← append_assoc]
    split <;> rfl

theorem appendEncoded_eq (c : UInt16) :
    appendEncoded sb c = sb ++ appendEncoded [] c := by
  rw [appendEncoded_eq_flatMap, appendEncoded_eq_flatMap, nil_append]

theorem quoteFrom_eq (rest : JavaString) (sb : Option JavaString) :
    quoteFrom mask (s ++ rest) rest s.length sb = sb.getD s ++ rest.flatMap (quoteUnit mask) := by
  induction rest generalizing s sb with
  | nil => simp [quoteFrom]
  | cons c rest ih =>
    have hnext : ∀ sb', sb'.getD (s ++ [c]) = sb.getD s ++ quoteUnit mask c →
        quoteFrom mask (s ++ c :: rest) rest (s.length + 1) sb' =
          sb.getD s ++ (c :: rest).flatMap (quoteUnit mask) := by
      intro sb' hsb'
      have hrest := ih (s := s ++ [c]) sb'
      rw [length_append, length_singleton, append_assoc,
        singleton_append] at hrest
      rw [hrest, hsb', append_assoc, flatMap_cons]
    rw [quoteFrom, take_left]
    unfold quoteUnit at hnext
    split_ifs with hascii hmask hcontrol
    · refine hnext _ ?_
      rw [if_pos hascii, if_neg (by simpa using hmask)]
      exact appendEscape_eq _ _
    · refine hnext _ ?_
      rw [if_pos hascii, if_pos (by simpa using hmask)]
      cases sb <;> rfl
    · refine hnext _ ?_
      rw [if_neg hascii, if_pos hcontrol]
      exact appendEncoded_eq _ _
    · refine hnext _ ?_
      rw [if_neg hascii, if_neg hcontrol]
      cases sb <;> rfl

/-- The units are quoted one by one. -/
theorem quote_eq_flatMap : quote s mask = s.flatMap (quoteUnit mask) :=
  quoteFrom_eq (s := []) mask s none

end Units

section Masks

variable {c : UInt16}

theorem has_javaString {chars : String} (h : (javaString chars).all (·.toNat < 128) = true) :
    (Mask.ofChars (javaString chars)).has c = true ↔ c ∈ javaString chars := by
  rw [Mask.has_ofChars]
  refine and_iff_right_of_imp fun hc => ?_
  simpa using all_eq_true.mp h c hc

theorem has_alphanum : Mask.alphanum.has c = true ↔ c ∈ alphanumChars := by
  have hlow : Mask.alphanum.low = 287948901175001088 := rfl
  have hhigh : Mask.alphanum.high = 576460743847706622 := rfl
  have hbits : (range 128).all (fun n =>
      (if n < 64 then (287948901175001088).testBit n else (576460743847706622).testBit (n - 64)) ==
        (alphanumChars.map UInt16.toNat).contains n) = true := by decide
  have hmem : c ∈ alphanumChars ↔ c.toNat ∈ alphanumChars.map UInt16.toNat := by
    simp [UInt16.toNat_inj]
  rcases Nat.lt_or_ge c.toNat 128 with h | h
  · have hc := eq_of_beq (all_eq_true.mp hbits c.toNat (mem_range.mpr h))
    rw [hmem, ← contains_iff_mem, ← hc]
    by_cases h64 : c.toNat < 64
    · rw [Mask.has_of_lt h64, hlow, if_pos h64]
      rfl
    · rw [Mask.has_of_ge (Nat.not_lt.mp h64) h, hhigh, if_neg h64]
      rfl
  · have hascii : alphanumChars.all (·.toNat < 128) = true := by decide
    rw [Mask.has_eq_false h]
    refine iff_of_false Bool.false_ne_true fun hc => ?_
    exact absurd (of_decide_eq_true (all_eq_true.mp hascii c hc)) (Nat.not_lt.mpr h)

theorem has_unreserved : Mask.unreserved.has c = true ↔ c ∈ unreservedChars := by
  rw [Mask.unreserved, Mask.has_union, Bool.or_eq_true, has_alphanum, Mask.mark,
    has_javaString (by decide), unreservedChars, mem_append]

theorem has_extended {chars : String} (h : (javaString chars).all (·.toNat < 128) = true) :
    (Mask.unreserved ∪ Mask.escaped ∪ Mask.ofChars (javaString chars)).has c = true ↔
      c ∈ unreservedChars ++ javaString chars ∨ c = 0 := by
  rw [Mask.has_union, Mask.has_union, Bool.or_eq_true, Bool.or_eq_true, has_unreserved,
    Mask.has_escaped, has_javaString h, mem_append, or_right_comm]

/-- **The characters of a mask** are those that its documentation lists, and `NUL`. -/
theorem has_mask (p : Part) : p.mask.has c = true ↔ c ∈ p.authorised ∨ c = 0 := by
  cases p with
  | pathSegment | querySegment | registry | userInfo => exact has_extended (by decide)
  | path =>
    rw [Part.mask, Mask.path, Mask.has_union, Bool.or_eq_true, Mask.pchar,
      has_extended (by decide), has_javaString (by decide), or_right_comm, ← mem_append]
    rfl
  | opaquePart =>
    rw [Part.mask, Part.authorised, Mask.uric, Mask.reserved, Mask.has_union, Mask.has_union,
      Bool.or_eq_true, Bool.or_eq_true, has_unreserved, Mask.has_escaped,
      has_javaString (by decide), mem_append]

end Masks

section Validity

variable {authorised s t : JavaString} {mask : Mask} {c : UInt16} {b : UInt8}

theorem Quoted.append (hs : Quoted authorised s) (ht : Quoted authorised t) :
    Quoted authorised (s ++ t) := by
  induction hs with
  | nil => exact ht
  | plain hc _ ih => exact ih.plain hc
  | escape hhigh hlow _ ih => exact ih.escape hhigh hlow

theorem quoted_flatMap {α : Type*} {f : α → JavaString} {as : List α}
    (h : ∀ a ∈ as, Quoted authorised (f a)) : Quoted authorised (as.flatMap f) := by
  induction as with
  | nil => exact .nil
  | cons a as ih =>
    obtain ⟨ha, has⟩ := forall_mem_cons.mp h
    exact ha.append (ih has)

theorem Quoted.mem (hs : Quoted authorised s) (hc : c ∈ s) (hascii : c < 0x80) :
    c ∈ authorised ∨ c = ch '%' ∨ c ∈ hexDigits := by
  induction hs with
  | nil => cases hc
  | plain hplain _ ih =>
    rcases mem_cons.mp hc with rfl | hc
    · exact .inl (hplain hascii)
    · exact ih hc
  | escape hhigh hlow _ ih =>
    rcases mem_cons.mp hc with rfl | hc
    · exact .inr (.inl rfl)
    rcases mem_cons.mp hc with rfl | hc
    · exact .inr (.inr hhigh)
    rcases mem_cons.mp hc with rfl | hc
    · exact .inr (.inr hlow)
    · exact ih hc

theorem hexDigits_getD {n : ℕ} (h : n < 16) :
    hexDigits.getD n 0 ∈ hexDigits ∧ hexDigits.getD n 0 = (digit n).toUInt16 := by
  have hall : ∀ n < 16, hexDigits.getD n 0 ∈ hexDigits ∧
      hexDigits.getD n 0 = (digit n).toUInt16 := by decide
  exact hall n h

theorem appendEscape_nil (b : UInt8) : appendEscape [] b =
    [ch '%', hexDigits.getD (b.toNat / 16) 0, hexDigits.getD (b.toNat % 16) 0] := by
  have hb := b.toNat_lt
  have hhigh : ((b >>> 4) &&& 0x0f).toNat = b.toNat / 16 := by
    refine (Sextets.toNat_and_mask (b >>> 4) 4 (by decide)).trans ?_
    rw [show (b >>> 4).toNat = b.toNat / 2 ^ 4 from Sextets.toNat_shiftRight b 4 (by decide)]
    omega
  have hlow : ((b >>> 0) &&& 0x0f).toNat = b.toNat % 16 := by
    refine (Sextets.toNat_and_mask (b >>> 0) 4 (by decide)).trans ?_
    rw [show (b >>> 0).toNat = b.toNat / 2 ^ 0 from Sextets.toNat_shiftRight b 0 (by decide)]
    omega
  rw [appendEscape, hhigh, hlow, nil_append]

theorem quoted_appendEscape (b : UInt8) : Quoted authorised (appendEscape [] b) := by
  have hb := b.toNat_lt
  rw [appendEscape_nil]
  exact .escape (hexDigits_getD (by omega)).1 (hexDigits_getD (by omega)).1 .nil

theorem le_of_control (h : (isSpaceChar c || isISOControl c) = true) : c.toNat ≤ 0x9F := by
  simp only [isSpaceChar, isISOControl, Bool.or_eq_true, Bool.and_eq_true, decide_eq_true_eq] at h
  rcases h with ⟨hspace, -⟩ | hlow | ⟨-, hhigh⟩
  · exact Nat.le_trans (UInt16.le_iff_toNat_le.mp hspace) (by decide)
  · exact Nat.le_trans (UInt16.le_iff_toNat_le.mp hlow) (by decide)
  · exact UInt16.le_iff_toNat_le.mp hhigh

theorem appendEncoded_nil (hge : 0x80 ≤ c.toNat) (hle : c.toNat ≤ 0x9F) :
    appendEncoded [] c =
      (String.utf8EncodeChar (Char.ofNat c.toNat)).flatMap (appendEscape []) := by
  have hvalid : c.toNat.isValidChar := .inl (by omega)
  rw [appendEncoded_eq_flatMap, nil_append, utf8Bytes, if_pos hvalid]
  refine flatMap_congr fun b hb => if_pos ?_
  exact le_of_mem_utf8EncodeChar (by rwa [toNat_ofNat hvalid]) hb

theorem quoted_quoteUnit (p : Part) (hc : c ≠ 0) : Quoted p.authorised (quoteUnit p.mask c) := by
  unfold quoteUnit
  split_ifs with hascii hmask hcontrol
  · exact .plain (fun _ => ((has_mask p).mp hmask).resolve_right hc) .nil
  · exact quoted_appendEscape _
  · rw [appendEncoded_nil (Nat.not_lt.mp hascii)
      (le_of_control (Bool.and_eq_true_iff.mp hcontrol).2)]
    exact quoted_flatMap fun b _ => quoted_appendEscape b
  · exact .plain (fun hlt => absurd hlt hascii) .nil

theorem encode_eq (p : Part) (s : JavaString) : p.encode s = s.flatMap (quoteUnit p.mask) := by
  rw [← quote_eq_flatMap]
  cases p <;> rfl

/-- **What is not quoted as it should be** is a `NUL`. -/
theorem quoted_encode_iff (p : Part) (s : JavaString) :
    Quoted p.authorised (p.encode s) ↔ 0 ∉ s := by
  rw [encode_eq]
  refine ⟨fun h hs => ?_, fun h => quoted_flatMap fun c hc => ?_⟩
  · have hnul : quoteUnit p.mask 0 = [0] := by
      rw [quoteUnit, if_pos (by decide), if_pos ((has_mask p).mpr (.inr rfl))]
    have hmem : 0 ∈ s.flatMap (quoteUnit p.mask) :=
      mem_flatMap.mpr ⟨0, hs, hnul ▸ mem_singleton_self _⟩
    rcases h.mem hmem (by decide) with hauth | hsign | hdigit
    · exact absurd hauth (by cases p <;> decide)
    · exact absurd hsign (by decide)
    · exact absurd hdigit (by decide)
  · exact quoted_quoteUnit p fun hzero => h (hzero ▸ hc)

end Validity

section Decoding

variable {mask : Mask} {b : UInt8} {c : Char} {cs : List Char}

theorem encode_ascii {ds : List UInt8} (h : ∀ d ∈ ds, d.toNat < 0x80) :
    encode (ds.map fun d => Char.ofNat d.toNat) = ds.map UInt8.toUInt16 := by
  induction ds with
  | nil => rfl
  | cons d ds ih =>
    obtain ⟨hd, hds⟩ := forall_mem_cons.mp h
    have hval : (Char.ofNat d.toNat).toNat = d.toNat := toNat_ofNat (.inl (by omega))
    have hunit : UInt16.ofNat d.toNat = d.toUInt16 := by
      rw [← UInt16.toNat_inj, UInt8.toNat_toUInt16]
      exact UInt16.toNat_ofNat_of_lt' (by change d.toNat < 65536; omega)
    rw [map_cons, encode_cons, ih hds, encodeChar, hval, if_pos (by omega), hunit]
    rfl

theorem exists_escapes (bytes : List UInt8) :
    ∃ ds : List Char, bytes.flatMap (appendEscape []) = encode ds ∧
      Encodes (ds.flatMap String.utf8EncodeChar) bytes := by
  induction bytes with
  | nil => exact ⟨[], rfl, encodes_nil⟩
  | cons b bytes ih =>
    obtain ⟨ds, hds, henc⟩ := ih
    have hb := b.toNat_lt
    have hascii : ∀ d ∈ Percent.escape b, d.toNat < 0x80 := fun _ => lt_of_mem_escape
    refine ⟨(Percent.escape b).map (fun d => Char.ofNat d.toNat) ++ ds, ?_, ?_⟩
    · rw [flatMap_cons, hds, encode_append, encode_ascii hascii, appendEscape_nil,
        (hexDigits_getD (by omega)).2, (hexDigits_getD (by omega)).2]
      rfl
    · rw [flatMap_append, flatMap_utf8EncodeChar hascii]
      exact (encodes_escape b).append henc

theorem quoteUnit_of_gt {u : UInt16} (h : 0x9F < u.toNat) : quoteUnit mask u = [u] := by
  have hascii : ¬ u < 0x80 := Nat.not_lt.mpr (by change 128 ≤ u.toNat; omega)
  rw [quoteUnit, if_neg hascii, if_neg]
  exact fun hcontrol => absurd (le_of_control (Bool.and_eq_true_iff.mp hcontrol).2) (by omega)

theorem exists_quoted (hsign : mask.has (ch '%') = false) (c : Char) :
    ∃ ds : List Char, (encodeChar c).flatMap (quoteUnit mask) = encode ds ∧
      Encodes (ds.flatMap String.utf8EncodeChar) (String.utf8EncodeChar c) := by
  have hplain : (encodeChar c).flatMap (quoteUnit mask) = encodeChar c → c ≠ '%' →
      ∃ ds : List Char, (encodeChar c).flatMap (quoteUnit mask) = encode ds ∧
        Encodes (ds.flatMap String.utf8EncodeChar) (String.utf8EncodeChar c) := by
    refine fun h hc => ⟨[c], ?_, ?_⟩
    · rw [h, encode_cons, encode_nil, append_nil]
    · rw [flatMap_cons, flatMap_nil, append_nil]
      exact encodes_char hc
  rcases Nat.lt_or_ge c.toNat 0x10000 with hlt | hge
  · obtain ⟨u, hu, hval, -, -⟩ := encodeChar_of_lt hlt
    rw [hu, flatMap_singleton] at hplain ⊢
    by_cases hascii : u < 0x80
    · cases hmask : mask.has u with
      | true =>
        refine hplain (by rw [quoteUnit, if_pos hascii, if_pos hmask]) ?_
        rintro rfl
        have hpercent : u = ch '%' := UInt16.toNat_inj.mp hval
        rw [hpercent, hsign] at hmask
        cases hmask
      | false =>
        obtain ⟨ds, hds, henc⟩ := exists_escapes [u.toUInt8]
        have hbyte : String.utf8EncodeChar c = [u.toUInt8] := by
          rw [utf8EncodeChar_of_lt (hval ▸ hascii), ← hval]
          rfl
        refine ⟨ds, ?_, hbyte ▸ henc⟩
        rw [quoteUnit, if_pos hascii, if_neg (by simp [hmask]), ← hds, flatMap_singleton]
    · have hge : 0x80 ≤ u.toNat := Nat.not_lt.mp hascii
      have hc : c ≠ '%' := by
        rintro rfl
        exact absurd (hval ▸ hge) (by decide)
      by_cases hcontrol : (mask.allowsEscapes && (isSpaceChar u || isISOControl u)) = true
      · obtain ⟨ds, hds, henc⟩ := exists_escapes (String.utf8EncodeChar c)
        refine ⟨ds, ?_, henc⟩
        rw [quoteUnit, if_neg hascii, if_pos hcontrol,
          appendEncoded_nil hge (le_of_control (Bool.and_eq_true_iff.mp hcontrol).2), hval,
          Char.ofNat_toNat, hds]
      · exact hplain (by rw [quoteUnit, if_neg hascii, if_neg hcontrol]) hc
  · obtain ⟨u, v, huv, hhigh, hlow, -⟩ := encodeChar_of_ge hge
    rw [isHigh_iff] at hhigh
    rw [isLow_iff] at hlow
    refine hplain ?_ ?_
    · rw [huv, flatMap_cons, flatMap_singleton, quoteUnit_of_gt (by omega),
        quoteUnit_of_gt (by omega)]
      rfl
    · rintro rfl
      exact absurd hge (by decide)

theorem exists_encode (p : Part) (cs : List Char) :
    ∃ ds : List Char, p.encode (encode cs) = encode ds ∧
      Encodes (ds.flatMap String.utf8EncodeChar) (cs.flatMap String.utf8EncodeChar) := by
  have hsign : p.mask.has (ch '%') = false := by
    cases p <;> decide
  rw [encode_eq]
  induction cs with
  | nil => exact ⟨[], rfl, encodes_nil⟩
  | cons c cs ih =>
    obtain ⟨ds, hds, henc⟩ := exists_quoted hsign c
    obtain ⟨ds', hds', henc'⟩ := ih
    refine ⟨ds ++ ds', ?_, ?_⟩
    · rw [encode_cons, flatMap_append, hds, hds', encode_append]
    · rw [flatMap_append, flatMap_cons]
      exact henc.append henc'

/-- **What was quoted is decoded** to the text. -/
theorem percentDecode_encode (p : Part) {s : JavaString} (hs : Paired s) :
    percentDecode (p.encode s) = some s := by
  obtain ⟨cs, rfl⟩ := exists_of_paired hs
  obtain ⟨ds, hds, henc⟩ := exists_encode p cs
  have hdecode : (cs.flatMap String.utf8EncodeChar).toByteArray.utf8Decode? = some cs.toArray :=
    utf8Decode?_utf8Encode
  rw [percentDecode, hds, decode_encode, Option.bind_some, henc.decode, Option.bind_some,
    hdecode, Option.map_some]

/-- **Quoting a part of a URI** is valid and reversible exactly when the text has no `NUL`. -/
theorem quoting_iff (p : Part) (s : JavaString) (hs : Utf16.Paired s) :
    Quoted p.authorised (p.encode s) ∧ percentDecode (p.encode s) = some s ↔ 0 ∉ s := by
  rw [quoted_encode_iff]
  exact and_iff_left (percentDecode_encode p hs)

theorem quoting_iff_path :
    Quoted (Part.authorised .path) (Part.encode .path (javaString "a b/c")) ∧
      percentDecode (Part.encode .path (javaString "a b/c")) = some (javaString "a b/c") := by
  have hs : Utf16.encode "a b/c".toList = javaString "a b/c" := by decide
  exact (quoting_iff .path (javaString "a b/c") (hs ▸ Utf16.paired_encode)).mpr (by decide)

/-- A `NUL` is not quoted. -/
theorem nul_not_quoted : ¬ (Quoted (Part.authorised .pathSegment) (Part.encode .pathSegment [0]) ∧
    percentDecode (Part.encode .pathSegment [0]) = some [0]) := fun h =>
  (quoted_encode_iff .pathSegment [0]).mp h.1 (mem_singleton_self 0)

end Decoding

end Ong.Util
