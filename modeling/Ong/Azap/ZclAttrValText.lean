import Ong.Azap.ZclAttrVal
import Ong.Lib.Printf

/-!
# The texts of attribute values

A value is shown as a text and built from one.  Building does not go through the setters: an
integer is scanned into the value as it is, and a string is printed into it as a format.

Numbers of floating point are left out, and so are the texts of dates and raw values, from which
nothing is built.

## Main results

* `AttrVal.textual_iff`: which values come back from their texts, and from which texts an integer
  is built that the setter accepts
-/

namespace Ong.Azap

open Printf (Scan percent)

/-- `true` -/
def textTrue : List UInt8 := [0x74, 0x72, 0x75, 0x65]

/-- `false` -/
def textFalse : List UInt8 := [0x66, 0x61, 0x6c, 0x73, 0x65]

/-- `<UNKNOWN>` -/
def textUnknown : List UInt8 := [0x3c, 0x55, 0x4e, 0x4b, 0x4e, 0x4f, 0x57, 0x4e, 0x3e]

/-- What `%s` prints for the null pointer. -/
def textNull : List UInt8 := [0x28, 0x6e, 0x75, 0x6c, 0x6c, 0x29]

def azapAttrValMaxSize : Nat := 255

/-- The types that are printed and scanned with a sign. -/
def signedTypes : List UInt8 :=
  [zclDatatypeInt8, zclDatatypeInt16, zclDatatypeInt24, zclDatatypeInt32]

/-- What `%lld` stores: a number beyond 64 bits is stored as the nearest one. -/
def storeSigned (negative : Bool) (magnitude : Nat) : Int :=
  if negative then max (-magnitude) (-(2 ^ 63)) else min magnitude (2 ^ 63 - 1)

/-- What `%llu` stores into a `long long`: the number modulo `2 ^ 64`, and the greatest one for a
number beyond 64 bits. -/
def storeUnsigned (negative : Bool) (magnitude : Nat) : Int :=
  if magnitude < 2 ^ 64 then
    (if negative then -(magnitude : Int) else magnitude).bmod (2 ^ 64)
  else -1

namespace AttrVal

/-- `azapZclAttrVal_t_getStringRep` -/
def getStringRep (v : AttrVal) : Option (List UInt8) :=
  match v.u with
  | .unknown => some textUnknown
  | .boolean b => some (if b then textTrue else textFalse)
  | .integer longVal =>
    if v.zigbeeDataType ∈ signedTypes then some (Printf.signed longVal)
    else some (Printf.unsigned (longVal % 2 ^ 64).toNat)
  | .charString s =>
    let text := (s.getD textNull).takeWhile (· != 0)
    some (text.take (azapAttrValMaxSize - 1))
  | _ => none

/-- What a scanned number does to a value: nothing is stored where there is none, and only a text
that begins with something else is refused. -/
def storeScanned (v : AttrVal) (store : Bool → Nat → Int) : Scan → AttrVal × Bool
  | .endOfText => (v, true)
  | .noNumber => (v, false)
  | .number negative magnitude => ({ v with u := .integer (store negative magnitude) }, true)

/-- `azapZclAttrVal_t_buildFromStringRep`: the value and the result.  A format that asks for an
argument and a text beyond the memory for it have no meaning. -/
def buildFromStringRep (v : AttrVal) (strRep : Option (List UInt8)) : Option (AttrVal × Bool) :=
  match strRep with
  | none => some (v, false)
  | some text =>
    match v.u with
    | .boolean _ =>
      if text = textTrue then some ({ v with u := .boolean true }, true)
      -- the value that is stored for `false` is the other one, and so is the result
      else if text = textFalse then some ({ v with u := .boolean true }, false)
      else some (v, false)
    | .integer _ =>
      if v.zigbeeDataType ∈ signedTypes then some (v.storeScanned storeSigned (Printf.scan text))
      else some (v.storeScanned storeUnsigned (Printf.scan text))
    | .charString _ =>
      let valueSize := UInt8.ofNat text.length
      -- the text is the format of `sprintf`, and its size the memory that is printed into
      (Printf.plain text).bind fun out =>
        if out.length ≤ valueSize.toNat then
          some ({ v with valueSize := valueSize, u := .charString (some out) }, true)
        else none
    | .float => none
    | _ => some (v, false)

/-- The values that are meant to have texts: booleans, integers, and strings of at most 254
characters that are not null bytes. -/
def Textual (v : AttrVal) : Prop :=
  match v.u with
  | .boolean _ | .integer _ => True
  | .charString s => ∃ bs, s = some bs ∧ bs.length ≤ 254 ∧ 0 ∉ bs
  | _ => False

/-- **A value comes back from its text**: a fresh value of its type is built from it. -/
def ComesBack (v : AttrVal) : Prop :=
  (new v.zigbeeDataType).buildFromStringRep v.getStringRep = some (v, true)

/-- The values that come back: all but `false` and the strings with a conversion. -/
def HasText (v : AttrVal) : Prop :=
  match v.u with
  | .boolean b => b = true
  | .charString s => ∀ bs ∈ s, percent ∉ bs
  | _ => True

/-- Building from a text stores no integer that the setter refuses. -/
def StoresAccepted (v : AttrVal) (text : List UInt8) : Prop :=
  ∀ w res n, v.buildFromStringRep (some text) = some (w, res) → w.u = .integer n →
    Accepts v.zigbeeDataType n

/-- A text has a number in the range of a type, or none; for a type without sign the number is meant
modulo `2 ^ 64`, below which it has to be without its sign. -/
def NumberInRange (type : UInt8) (text : List UInt8) : Prop :=
  ∀ negative magnitude, Printf.scan text = .number negative magnitude →
    let number : Int := if negative then -magnitude else magnitude
    if type ∈ signedTypes then Accepts type number
    else magnitude < 2 ^ 64 ∧ Accepts type (number % 2 ^ 64)

section Integers

variable {type : UInt8} {n : Int}

theorem range_of_integer (h : valType type = .integer) : ∃ lo hi,
    integerRange type = some (lo, hi) ∧ (type ∈ signedTypes → -(2 ^ 31) ≤ lo ∧ hi < 2 ^ 31) ∧
      (type ∉ signedTypes → lo = 0 ∧ hi < 2 ^ 48) := by
  have hall : ValType.integer.types.all (fun t => (integerRange t).any fun r =>
      decide ((t ∈ signedTypes → -(2 ^ 31) ≤ r.1 ∧ r.2 < 2 ^ 31) ∧
        (t ∉ signedTypes → r.1 = 0 ∧ r.2 < 2 ^ 48))) = true := by decide
  have htable := List.all_eq_true.mp hall type (mem_types h ValType.noConfusion)
  obtain ⟨r, hr, hrange⟩ := (Option.any_eq_true _ _).mp htable
  exact ⟨r.1, r.2, hr, of_decide_eq_true hrange⟩

theorem accepts_iff {lo hi : Int} (h : integerRange type = some (lo, hi)) :
    Accepts type n ↔ lo ≤ n ∧ n ≤ hi := by
  unfold Accepts
  rw [h]
  exact ⟨fun hall => hall _ rfl, fun hn r hr => by obtain rfl := Option.some.inj hr; exact hn⟩

theorem storeSigned_natAbs (h : -(2 ^ 31) ≤ n ∧ n < 2 ^ 31) :
    storeSigned (n < 0) n.natAbs = n := by
  unfold storeSigned
  by_cases hneg : n < 0
  · simp only [hneg, decide_true, if_true]
    omega
  · simp only [hneg, decide_false, Bool.false_eq_true, if_false]
    omega

theorem storeUnsigned_toNat (h : 0 ≤ n ∧ n < 2 ^ 48) : storeUnsigned false n.toNat = n := by
  unfold storeUnsigned Int.bmod
  simp only [Bool.false_eq_true, if_false]
  omega

theorem storeSigned_mem {lo hi : Int} (hlo : -(2 ^ 31) ≤ lo) (hhi : hi < 2 ^ 31) (negative : Bool)
    (magnitude : Nat) :
    (lo ≤ storeSigned negative magnitude ∧ storeSigned negative magnitude ≤ hi) ↔
      (lo ≤ (if negative then -magnitude else magnitude : Int) ∧
        (if negative then -magnitude else magnitude : Int) ≤ hi) := by
  unfold storeSigned
  cases negative
  · simp only [Bool.false_eq_true, if_false]
    omega
  · simp only [if_true]
    omega

theorem storeUnsigned_mem {hi : Int} (hhi : hi < 2 ^ 48) (negative : Bool) (magnitude : Nat) :
    (0 ≤ storeUnsigned negative magnitude ∧ storeUnsigned negative magnitude ≤ hi) ↔
      (magnitude < 2 ^ 64 ∧
        0 ≤ (if negative then -magnitude else magnitude : Int) % 2 ^ 64 ∧
        (if negative then -magnitude else magnitude : Int) % 2 ^ 64 ≤ hi) := by
  unfold storeUnsigned
  by_cases hlt : magnitude < 2 ^ 64
  · rw [if_pos hlt]
    unfold Int.bmod
    simp only [hlt, true_and]
    omega
  · omega

end Integers

section ThereAndBack

variable {type size : UInt8} {n : Int} {b : Bool} {bs : List UInt8}

theorem new_boolean (h : valType type = .boolean) : new type = ⟨type, 0, .boolean false⟩ := by
  unfold new
  rw [h]
  rfl

theorem new_integer (h : valType type = .integer) : new type = ⟨type, 0, .integer 0⟩ := by
  unfold new
  rw [h]
  rfl

theorem new_charString (h : valType type = .charString) :
    new type = ⟨type, 0, .charString none⟩ := by
  unfold new
  rw [h]
  rfl

theorem comesBack_boolean (h : valType type = .boolean) :
    ComesBack ⟨type, 0, .boolean b⟩ ↔ b = true := by
  have hne : ¬textFalse = textTrue := by decide
  unfold ComesBack
  rw [new_boolean h]
  cases b <;> simp [getStringRep, buildFromStringRep, hne]

theorem comesBack_integer (h : valType type = .integer) (hn : Accepts type n) :
    ComesBack ⟨type, 0, .integer n⟩ := by
  obtain ⟨lo, hi, hrange, hsigned, hunsigned⟩ := range_of_integer h
  have hn := (accepts_iff hrange).mp hn
  unfold ComesBack
  rw [new_integer h]
  by_cases hmem : type ∈ signedTypes
  · have hbounds := hsigned hmem
    have hscan := Printf.scan_signed (i := n) (by omega)
    have hstore := storeSigned_natAbs (n := n) (by omega)
    simp only [getStringRep, buildFromStringRep, hmem, if_true, hscan, storeScanned, hstore]
  · have hbounds := hunsigned hmem
    have hmod : (n % 2 ^ 64).toNat = n.toNat := by omega
    have hscan := Printf.scan_unsigned (n := n.toNat) (by omega)
    have hstore := storeUnsigned_toNat (n := n) (by omega)
    simp only [getStringRep, buildFromStringRep, hmem, if_false, hmod, hscan, storeScanned, hstore]

theorem takeWhile_of_not_mem (h : 0 ∉ bs) : bs.takeWhile (· != 0) = bs :=
  List.takeWhile_eq_self_iff.mpr fun _ hb => bne_iff_ne.mpr fun hzero => h (hzero ▸ hb)

theorem comesBack_charString (h : valType type = .charString) (hlength : bs.length ≤ 254)
    (hzero : 0 ∉ bs) (hsize : size.toNat = bs.length) :
    ComesBack ⟨type, size, .charString (some bs)⟩ ↔ percent ∉ bs := by
  have htake : bs.take (azapAttrValMaxSize - 1) = bs := List.take_of_length_le hlength
  have hvalueSize : UInt8.ofNat bs.length = size := by rw [← hsize, UInt8.ofNat_toNat]
  unfold ComesBack
  rw [new_charString h]
  simp only [getStringRep, buildFromStringRep, Option.getD_some, takeWhile_of_not_mem hzero, htake,
    hvalueSize]
  -- the string is its own format: what is printed is the string itself exactly without conversions
  rw [← Printf.plain_eq_some_self_iff]
  constructor
  · intro hbuild
    obtain ⟨out, hout, hbuild⟩ := Option.bind_eq_some_iff.mp hbuild
    split at hbuild
    · obtain rfl : out = bs := by simpa using hbuild
      exact hout
    · cases hbuild
  · intro hplain
    rw [hplain, Option.bind_some, if_pos (Nat.le_of_eq hsize.symm)]

end ThereAndBack

section Texts

variable {v w : AttrVal} {text : List UInt8}

theorem comesBack_iff (h : v.Valid) (htext : v.Textual) : ComesBack v ↔ HasText v := by
  obtain ⟨type, size, u⟩ := v
  have hkind := h.kind
  cases u with
  | boolean b =>
    obtain rfl := valueSize_eq_zero h rfl
    exact comesBack_boolean hkind.symm
  | integer n =>
    obtain rfl := valueSize_eq_zero h rfl
    exact iff_of_true (comesBack_integer hkind.symm (h.accepted n rfl)) trivial
  | charString s =>
    obtain ⟨bs, rfl, hlength, hzero⟩ := htext
    rw [comesBack_charString hkind.symm hlength hzero h.size]
    exact ⟨fun hmem bs' hbs' => by obtain rfl := Option.some.inj hbs'; exact hmem,
      fun hall => hall bs rfl⟩
  | unknown | float | dateTime | raw => exact htext.elim

theorem storesAccepted_iff_scan (hw : w.Valid)
    {store : Bool → Nat → Int}
    (hbuild : w.buildFromStringRep (some text) = some (w.storeScanned store (Printf.scan text))) :
    StoresAccepted w text ↔ ∀ negative magnitude, Printf.scan text = .number negative magnitude →
      Accepts w.zigbeeDataType (store negative magnitude) := by
  unfold StoresAccepted
  rw [hbuild]
  constructor
  · intro hall negative magnitude hscan
    rw [hscan] at hall
    exact hall _ _ _ rfl rfl
  · intro hall w' res n' hstored hn'
    have hstored := Option.some.inj hstored
    cases hscan : Printf.scan text with
    | endOfText | noNumber =>
      rw [hscan] at hstored
      obtain rfl := congrArg Prod.fst hstored
      exact hw.accepted n' hn'
    | number negative magnitude =>
      rw [hscan] at hstored
      obtain rfl := congrArg Prod.fst hstored
      obtain rfl := Value.integer.inj hn'
      exact hall negative magnitude hscan

/-- An integer built from a text is one that the setter accepts exactly if the text has no number
out of the range of the type. -/
theorem storesAccepted_iff (hw : w.Valid) (hint : valType w.zigbeeDataType = .integer) :
    StoresAccepted w text ↔ NumberInRange w.zigbeeDataType text := by
  obtain ⟨n, hu⟩ := Value.exists_integer (hw.kind.trans hint)
  obtain ⟨lo, hi, hrange, hsigned, hunsigned⟩ := range_of_integer hint
  unfold NumberInRange
  by_cases hmem : w.zigbeeDataType ∈ signedTypes
  · have hbuild : w.buildFromStringRep (some text) =
        some (w.storeScanned storeSigned (Printf.scan text)) := by
      simp only [buildFromStringRep, hu, hmem, if_true]
    rw [storesAccepted_iff_scan hw hbuild]
    simp only [hmem, if_true, accepts_iff hrange]
    obtain ⟨hlo, hhi⟩ := hsigned hmem
    simp only [storeSigned_mem hlo hhi]
  · have hbuild : w.buildFromStringRep (some text) =
        some (w.storeScanned storeUnsigned (Printf.scan text)) := by
      simp only [buildFromStringRep, hu, hmem, if_false]
    rw [storesAccepted_iff_scan hw hbuild]
    simp only [hmem, if_false, accepts_iff hrange]
    obtain ⟨rfl, hhi⟩ := hunsigned hmem
    simp only [storeUnsigned_mem hhi]

/-- **The texts of attribute values.**  A boolean, integer or string comes back from its text
exactly unless it is `false` or a string with a conversion, and building an integer from a text
stores one that the setter accepts exactly if the number of the text is in the range of the type. -/
theorem textual_iff (v w : AttrVal) (text : List UInt8) (hv : v.Valid) (htext : v.Textual)
    (hw : w.Valid) (hint : valType w.zigbeeDataType = .integer) :
    (ComesBack v ↔ HasText v) ∧ (StoresAccepted w text ↔ NumberInRange w.zigbeeDataType text) :=
  ⟨comesBack_iff hv htext, storesAccepted_iff hw hint⟩

/-- The string `true` comes back, and from `128` the integer of eight bits that is built is refused
by the setter. -/
theorem string_comes_back :
    let v := (new zclDatatypeCharStr).setStringValue (some textTrue)
    let w := new zclDatatypeInt8
    let text := Printf.unsigned 128
    ComesBack v ∧ ¬StoresAccepted w text := by
  intro v w text
  have hv : v.Valid := (setStringValue_valid_iff (new_valid _) _).mpr fun _ bytes hbytes => by
    obtain rfl := Option.some.inj hbytes
    decide
  have htext : v.Textual := ⟨textTrue, by decide, by decide, by decide⟩
  have hw : w.Valid := new_valid _
  obtain ⟨hback, haccepted⟩ := textual_iff v w text hv htext hw (by decide)
  have hHasText : HasText v := fun bs hbs => by
    obtain rfl : textTrue = bs := Option.some.inj hbs
    decide
  refine ⟨hback.mpr hHasText, fun hstores => ?_⟩
  have hscan : Printf.scan text = .number false 128 := by decide
  exact absurd (haccepted.mp hstores false 128 hscan) (by decide)

/-- `false` does not come back from its text: building sets `true` and refuses the text.  From `300`
an integer of eight bits is built that the setter refuses. -/
theorem false_becomes_true :
    let v := new zclDatatypeBoolean
    let w := new zclDatatypeUint8
    let text := Printf.unsigned 300
    v.Valid ∧ v.Textual ∧
      v.buildFromStringRep v.getStringRep = some (v.setBooleanValue true, false) ∧ ¬ComesBack v ∧
      w.buildFromStringRep (some text) = some (⟨zclDatatypeUint8, 0, .integer 300⟩, true) ∧
      w.setIntegerValue 300 = w ∧ ¬StoresAccepted w text := by
  intro v w text
  have hbuild : v.buildFromStringRep v.getStringRep = some (v.setBooleanValue true, false) := by
    decide +kernel
  have hstored : w.buildFromStringRep (some text) =
      some (⟨zclDatatypeUint8, 0, .integer 300⟩, true) := by decide +kernel
  refine ⟨new_valid _, trivial, hbuild, fun hback => ?_, hstored, by decide +kernel, fun hall => ?_⟩
  · have hnot : some (v.setBooleanValue true, false) ≠ some (v, true) := by decide +kernel
    exact hnot (hbuild.symm.trans hback)
  · exact absurd (hall _ _ 300 hstored rfl) (by decide +kernel)

end Texts

end AttrVal

end Ong.Azap
