import Ong.Azap.ZclAttrValRoundTrip
import Ong.Azap.ZclAttrValText
import Ong.Lib.Run

/-!
# Calls on an attribute value

The setters keep a value valid, in any order, but for a string whose size is no byte.  Deserializing
an integer and building one from a text go around them, and what they store is to be checked by the
caller.

## Main results

* `AttrVal.calls_valid_iff`: the values are valid exactly along the calls that store what the
  setters would accept
-/

namespace Ong.Azap

open LittleEndian List Option
open Printf (percent)

section Bytes

variable {α β : Type} {x : Except Fault α} {b : β} {bs data : List UInt8}
  {short long type size size' : UInt8} {k n : Nat}

theorem map_eq_ok {f : α → β} : x.map f = .ok b ↔ ∃ a, x = .ok a ∧ f a = b := by
  cases x <;> simp [Except.map]

theorem bind_eq_ok {f : α → Except Fault β} : x.bind f = .ok b ↔ ∃ a, x = .ok a ∧ f a = .ok b := by
  cases x <;> simp [Except.bind]

theorem toOption_map_eq_some {f : α → β} :
    x.toOption.map f = some b ↔ ∃ a, x = .ok a ∧ f a = b := by
  cases x <;> simp [Except.toOption]

theorem readBytes_eq_ok : readBytes data n = .ok bs ↔ n ≤ data.length ∧ data.take n = bs := by
  unfold readBytes memcpy
  rw [getD_some]
  split <;> simp [*]

theorem length_deserializeBytes (h : deserializeBytes short long type data size = .ok (bs, size', k)) :
    size'.toNat = bs.length := by
  have hread : ∀ {data s f}, ((readBytes data s.toNat).map fun bs => (bs, s, f)) = .ok (bs, size', k) →
      size'.toNat = bs.length := by
    intro data s f h
    obtain ⟨bs, hdata, h⟩ := map_eq_ok.mp h
    obtain ⟨hle, rfl⟩ := readBytes_eq_ok.mp hdata
    cases h
    rw [length_take, Nat.min_eq_left hle]
  unfold deserializeBytes at h
  split at h
  · exact hread h
  split at h <;> exact hread h

/-- The 32nd bit is added as a sign. -/
theorem addBytes_wrapped (bs : List UInt8) :
    addBytes 0 bs = value bs - 2 ^ 32 * (value bs / 2 ^ 31 % 2) := by
  by_cases hshort : bs.length ≤ 3
  · obtain ⟨h0, hlt⟩ := value_bounds bs
    have hlt : value bs < 2 ^ 24 := by
      obtain h | h | h | h : bs.length = 0 ∨ bs.length = 1 ∨ bs.length = 2 ∨ bs.length = 3 := by omega
      all_goals
        rw [h] at hlt
        omega
    have hnone : ∀ j b, bs[j]? = some b → 0 + j = 3 → b.toNat < 128 := by
      intro j b hj hthree
      have := (List.getElem?_eq_some_iff.mp hj).1
      omega
    rw [addBytes_eq bs hnone]
    omega
  · match bs with
    | b₀ :: b₁ :: b₂ :: b₃ :: rest =>
      have hrest : addBytes 4 rest = 256 ^ 4 * value rest :=
        addBytes_eq rest fun j b hj hthree => by omega
      have h₀ := b₀.toNat_lt
      have h₁ := b₁.toNat_lt
      have h₂ := b₂.toNat_lt
      have h₃ := b₃.toNat_lt
      have hbmod : shiftInt b₃ 24 = b₃.toNat * 2 ^ 24 - 2 ^ 32 * (b₃.toNat / 128 : Nat) := by
        unfold shiftInt Int.bmod
        dsimp only
        split <;> omega
      have hsplit : addBytes 0 (b₀ :: b₁ :: b₂ :: b₃ :: rest) = shiftInt b₀ 0 +
          (shiftInt b₁ 8 + (shiftInt b₂ 16 + (shiftInt b₃ 24 + addBytes 4 rest))) := by simp [addBytes]
      rw [hsplit, hrest, hbmod, shiftInt_eq (n := 0) (by omega), shiftInt_eq (n := 8) (by omega),
        shiftInt_eq (n := 16) (by omega)]
      simp only [value]
      omega
    | [] | [_] | [_, _] | [_, _, _] => exact absurd (by simp) hshort

theorem addSigned_bounds (low : List UInt8) (top : UInt8) (hlow : low.length ≤ 3) :
    -(128 * 256 ^ low.length) ≤ addSigned low.length (addBytes 0 low) top ∧
      addSigned low.length (addBytes 0 low) top ≤ 128 * 256 ^ low.length - 1 := by
  obtain ⟨h0, hlt⟩ := value_bounds low
  have hbits : (top &&& 0x7F).toNat ≤ 127 := by
    rw [UInt8.toNat_and]
    exact Nat.and_le_right
  unfold addSigned
  rw [addBytes_wrapped]
  obtain h | h | h | h : low.length = 0 ∨ low.length = 1 ∨ low.length = 2 ∨ low.length = 3 := by omega
  all_goals
    rw [h] at hlt ⊢
    rw [shiftInt_eq (by omega)]
    split <;> omega

/-- Bytes of a number without sign, where nothing above the 32nd bit makes up for it. -/
def Misread (bs : List UInt8) : Prop := value bs / 2 ^ 31 % 2 = 1 ∧ value bs < 2 ^ 32

theorem accepts_deserialized {m : Int} (h : valType type = .integer)
    (hread : deserializeInteger type data = .ok (m, n)) :
    Accepts type m ↔ ∀ k, integerFormat type = some ⟨false, k⟩ → ¬Misread (data.take k) := by
  have htables := integerTables_eq_true h
  unfold integerTables at htables
  unfold deserializeInteger at hread
  rcases hformat : integerFormat type with _ | ⟨_ | _, k⟩
  · rw [hformat] at htables
    cases htables
  · rw [hformat] at htables hread
    obtain ⟨-, hrange, -⟩ := of_decide_eq_true htables
    obtain ⟨bs, hbytes, hread⟩ := map_eq_ok.mp hread
    obtain ⟨hle, rfl⟩ := readBytes_eq_ok.mp hbytes
    obtain ⟨rfl, -⟩ := Prod.mk.inj hread
    obtain ⟨h0, hlt⟩ := value_bounds (data.take k)
    rw [length_take, Nat.min_eq_left hle, Int.pow_mul, show (2 : Int) ^ 8 = 256 from rfl] at hlt
    rw [AttrVal.accepts_iff hrange, addBytes_wrapped]
    constructor
    · rintro ⟨hnonneg, -⟩ k' hk' ⟨hbit, hsmall⟩
      cases hk'
      omega
    · intro hnot
      have := hnot k rfl
      unfold Misread at this
      omega
  · rw [hformat] at htables hread
    obtain ⟨hpos, hfour, -, hrange⟩ := of_decide_eq_true htables
    obtain ⟨low, hbytes, hread⟩ := bind_eq_ok.mp hread
    obtain ⟨hle, rfl⟩ := readBytes_eq_ok.mp hbytes
    obtain ⟨top, -, hread⟩ := map_eq_ok.mp hread
    obtain ⟨rfl, -⟩ := Prod.mk.inj hread
    have hlength : (data.take (k - 1)).length = k - 1 := by rw [length_take, Nat.min_eq_left hle]
    have hbounds := addSigned_bounds (data.take (k - 1)) top (by omega)
    rw [hlength] at hbounds
    rw [AttrVal.accepts_iff hrange]
    exact iff_of_true hbounds nofun

end Bytes

namespace AttrVal

/-- A call; the bytes of a raw value are those that the pointer points to. -/
inductive Call
  | setBooleanValue (val : Bool)
  | setIntegerValue (val : Int)
  | setStringValue (val : Option (List UInt8))
  | setDateTimeValue (val : Option Tm) (msec : Int)
  | setRawValue (val : Option (List UInt8)) (size : UInt8)
  | buildFromStringRep (strRep : Option (List UInt8))
  | serialize (len : UInt8)
  | deserialize (data : List UInt8) (len : UInt8)

/-- The value after a call that finds the bytes it goes over. -/
def call (v : AttrVal) : Call → Option AttrVal
  | .setBooleanValue val => some (v.setBooleanValue val)
  | .setIntegerValue val => some (v.setIntegerValue val)
  | .setStringValue val => some (v.setStringValue val)
  | .setDateTimeValue val msec => some (v.setDateTimeValue val msec)
  | .setRawValue val size =>
    if ∀ bytes ∈ val, size.toNat ≤ bytes.length then some (v.setRawValue val size) else none
  | .buildFromStringRep strRep => (v.buildFromStringRep strRep).map (·.1)
  | .serialize len => (v.serialize len).toOption.map (·.1)
  | .deserialize data len => (v.deserialize data len).toOption.map (·.1)

/-- A string is set to at most 255 bytes, an integer is built from a number in its range, a string
from a text without conversions, and no bytes are misread. -/
def Condition (v : AttrVal) : Call → Prop
  | .setStringValue val => v.u.valType = .charString → ∀ bytes ∈ val, bytes.length ≤ 255
  | .buildFromStringRep (some text) => match valType v.zigbeeDataType with
    | .integer => NumberInRange v.zigbeeDataType text
    | .charString => percent ∉ text
    | _ => True
  | .deserialize data len => valType v.zigbeeDataType = .integer →
    (fixedLength v.zigbeeDataType).toNat ≤ len.toNat →
      ∀ k, integerFormat v.zigbeeDataType = some ⟨false, k⟩ → ¬Misread (data.take k)
  | _ => True

section Calls

variable {v w : AttrVal} {len len' : UInt8} {data rest text : List UInt8} {res : Bool} {m n : Int}

/-- Another integer in a valid value. -/
theorem valid_integer_iff (h : v.Valid) (hu : v.u = .integer n) :
    ({ v with u := .integer m } : AttrVal).Valid ↔ Accepts v.zigbeeDataType m := by
  have hkind := h.kind
  have hsize := h.size
  rw [hu] at hkind hsize
  refine ⟨fun hv => hv.accepted m rfl, fun hm => ⟨hkind, fun n hn => ?_, hsize⟩⟩
  obtain rfl := Value.integer.inj hn
  exact hm

theorem exists_integer_built (hu : v.u = .integer n)
    (hbuild : v.buildFromStringRep (some text) = some (w, res)) : ∃ m, w = { v with u := .integer m } := by
  have hscanned : ∀ {store scan}, v.storeScanned store scan = (w, res) →
      ∃ m, w = { v with u := .integer m } := by
    intro store scan hstored
    cases scan with
    | endOfText | noNumber =>
      obtain rfl := congrArg Prod.fst hstored
      exact ⟨n, by rw [← hu]; rfl⟩
    | number negative magnitude => exact ⟨_, (congrArg Prod.fst hstored).symm⟩
  simp only [buildFromStringRep, hu] at hbuild
  split at hbuild <;> exact hscanned (some.inj hbuild)

theorem buildFromStringRep_valid (h : v.Valid)
    (hbuild : v.buildFromStringRep (some text) = some (w, res)) :
    w.Valid ↔ Condition v (.buildFromStringRep (some text)) := by
  rw [Condition, ← h.kind]
  cases hu : v.u with
  | boolean b =>
    refine iff_of_true ?_ trivial
    have hset := setBooleanValue_valid h true
    simp only [setBooleanValue, hu] at hset
    simp only [buildFromStringRep, hu] at hbuild
    split_ifs at hbuild <;> obtain ⟨rfl, -⟩ := Prod.mk.inj (some.inj hbuild)
    · exact hset
    · exact hset
    · exact h
  | integer n =>
    have hkind : valType v.zigbeeDataType = .integer := by rw [← h.kind, hu]; rfl
    obtain ⟨m, rfl⟩ := exists_integer_built hu hbuild
    refine (valid_integer_iff h hu).trans (Iff.trans ?_ (storesAccepted_iff h hkind))
    refine ⟨fun hm w' res' n' hbuild' hn' => ?_, fun hstores => hstores _ _ m hbuild rfl⟩
    obtain ⟨rfl, -⟩ := Prod.mk.inj (some.inj (hbuild.symm.trans hbuild'))
    obtain rfl := Value.integer.inj hn'
    exact hm
  | charString s =>
    simp only [buildFromStringRep, hu] at hbuild
    obtain ⟨out, hout, hbuild⟩ := bind_eq_some_iff.mp hbuild
    obtain ⟨hle, hbuild⟩ := ite_none_right_eq_some.mp hbuild
    obtain ⟨rfl, -⟩ := Prod.mk.inj (some.inj hbuild)
    have hbounds := Printf.length_plain_bounds hout
    rw [UInt8.toNat_ofNat'] at hle
    have hkind := h.kind
    rw [hu] at hkind
    refine ⟨fun hv hmem => ?_, fun hmem => ⟨hkind, by rintro _ ⟨⟩, ?_⟩⟩
    · have hlt := Printf.length_plain_lt hout hmem
      have hsize : (UInt8.ofNat text.length).toNat = out.length := hv.size
      rw [UInt8.toNat_ofNat'] at hsize
      omega
    · obtain rfl := some.inj ((Printf.plain_of_not_mem hmem).symm.trans hout)
      exact Nat.le_antisymm (Nat.mod_le _ _) hle
  | unknown | dateTime | raw =>
    simp only [buildFromStringRep, hu] at hbuild
    obtain ⟨rfl, -⟩ := Prod.mk.inj (some.inj hbuild)
    exact iff_of_true h trivial
  | float =>
    simp only [buildFromStringRep, hu] at hbuild
    cases hbuild

/-- Serializing sets the fields of a date at most. -/
theorem serialize_valid (h : v.Valid) (hwrite : v.serialize len = .ok (w, data, len')) : w.Valid := by
  unfold serialize at hwrite
  split_ifs at hwrite
  · cases hwrite
    exact h
  obtain ⟨size, -, hwrite⟩ := bind_eq_ok.mp hwrite
  split_ifs at hwrite
  · cases hwrite
    exact h
  obtain ⟨⟨w', bs⟩, hvalue, hwrite⟩ := map_eq_ok.mp hwrite
  cases hwrite
  unfold serializeValue at hvalue
  split at hvalue
  case h_4 dt hu =>
    have hkind := h.kind
    have hsize := h.size
    rw [hu] at hkind hsize
    cases hvalue
    exact ⟨hkind, nofun, hsize⟩
  case h_3 | h_5 =>
    obtain ⟨_, -, hvalue⟩ := map_eq_ok.mp hvalue
    cases hvalue
    exact h
  all_goals
    cases hvalue
    exact h

theorem deserialize_valid (h : v.Valid) (hread : v.deserialize data len = .ok (w, rest, len')) :
    w.Valid ↔ Condition v (.deserialize data len) := by
  unfold deserialize at hread
  split_ifs at hread with hunknown
  · cases hread
    refine iff_of_true h fun hkind => ?_
    rw [← h.kind, hunknown] at hkind
    cases hkind
  obtain ⟨size, hfound, hread⟩ := bind_eq_ok.mp hread
  have hfixed : valType v.zigbeeDataType = .integer → size = fixedLength v.zigbeeDataType := by
    intro hkind
    obtain ⟨hshort, hlong, -⟩ := fixed_kind (.inr (.inl hkind))
    exact Except.ok.inj (hfound.symm.trans (dataLength_of_not_string hshort hlong _))
  split_ifs at hread with hless
  · cases hread
    refine iff_of_true h fun hkind hle => ?_
    rw [← hfixed hkind] at hle
    exact absurd (UInt8.lt_iff_toNat_lt.mp hless) (Nat.not_lt.mpr hle)
  obtain ⟨⟨w', k⟩, hvalue, hread⟩ := map_eq_ok.mp hread
  cases hread
  have hkind := h.kind
  have hsize := h.size
  unfold deserializeValue at hvalue
  rw [Condition, ← hkind]
  cases hu : v.u with
  | integer n =>
    simp only [hu] at hvalue
    obtain ⟨⟨m, _⟩, hinteger, hvalue⟩ := map_eq_ok.mp hvalue
    obtain ⟨rfl, -⟩ := Prod.mk.inj hvalue
    rw [hu] at hkind
    rw [valid_integer_iff h hu, accepts_deserialized hkind.symm hinteger, ← hfixed hkind.symm]
    have hle := Nat.not_lt.mp fun hlt => hless (UInt8.lt_iff_toNat_lt.mpr hlt)
    exact ⟨fun hall _ _ => hall, fun hall => hall rfl hle⟩
  | boolean | dateTime =>
    simp only [hu] at hvalue
    obtain ⟨_, -, hvalue⟩ := map_eq_ok.mp hvalue
    obtain ⟨rfl, -⟩ := Prod.mk.inj hvalue
    rw [hu] at hkind hsize
    exact iff_of_true ⟨hkind, nofun, hsize⟩ nofun
  | charString =>
    simp only [hu] at hvalue
    obtain ⟨_, hbytes, hvalue⟩ := map_eq_ok.mp hvalue
    obtain ⟨rfl, -⟩ := Prod.mk.inj hvalue
    rw [hu] at hkind
    exact iff_of_true ⟨hkind, nofun, length_deserializeBytes hbytes⟩ nofun
  | raw =>
    simp only [hu] at hvalue
    obtain ⟨_, hbytes, hvalue⟩ := map_eq_ok.mp hvalue
    obtain ⟨rfl, -⟩ := Prod.mk.inj hvalue
    refine iff_of_true (setRawValue_valid h fun bytes hb => ?_) nofun
    exact some.inj hb ▸ Nat.le_of_eq (length_deserializeBytes hbytes)
  | unknown | float =>
    simp only [hu] at hvalue
    cases hvalue
    exact iff_of_true h nofun

/-- **One call**: the value stays valid exactly under the condition. -/
theorem call_valid_iff {c : Call} (h : v.Valid) (hcall : v.call c = some w) :
    w.Valid ↔ Condition v c := by
  have hsome : ∀ {w'}, some w' = some w → w'.Valid → (w.Valid ↔ True) :=
    fun hw hv => iff_of_true (some.inj hw ▸ hv) trivial
  cases c with
  | setBooleanValue val => exact hsome hcall (setBooleanValue_valid h val)
  | setIntegerValue val => exact hsome hcall (setIntegerValue_valid h val)
  | setStringValue val => exact some.inj hcall ▸ setStringValue_valid_iff h val
  | setDateTimeValue val msec => exact hsome hcall (setDateTimeValue_valid h val msec)
  | setRawValue val size =>
    obtain ⟨hval, hset⟩ := ite_none_right_eq_some.mp hcall
    exact hsome hset (setRawValue_valid h hval)
  | buildFromStringRep strRep =>
    obtain ⟨_, hbuild, rfl⟩ := map_eq_some_iff.mp hcall
    cases strRep with
    | none =>
      cases hbuild
      exact iff_of_true h trivial
    | some text => exact buildFromStringRep_valid h hbuild
  | serialize len =>
    obtain ⟨_, hwrite, hw⟩ := toOption_map_eq_some.mp hcall
    exact hsome (congrArg some hw) (serialize_valid h hwrite)
  | deserialize data len =>
    obtain ⟨_, hread, rfl⟩ := toOption_map_eq_some.mp hcall
    exact deserialize_valid h hread

end Calls

end AttrVal

end Ong.Azap
