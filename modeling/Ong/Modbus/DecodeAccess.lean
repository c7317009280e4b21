import Ong.Lib.Printf
import Ong.Modbus.SensorReader

/-!
# Register access strings

The configuration names a register as `/holding/<address>`, with `/mask/<mask>` or `/bytes/<count>`
behind it.  The driver reads the numbers in place: it ends the string at the next `/` for a moment.

## Main results

* `decodeModbusAccess_eq`: the string is left as it was, and what its parts become
* `decodedRightly_iff`
-/

namespace Ong.Modbus

open List

open Printf (ascii atoi)

def slash : UInt8 := 0x2f

/-- `index(reg, '/')`, for positions in the string. -/
def index (s : List UInt8) (reg : Nat) : Option Nat :=
  ((s.drop reg).findIdx? (· == slash)).map (reg + ·)

/-- `strncmp(reg, name, pt - reg) == 0` -/
def sameName (s : List UInt8) (reg pt : Nat) (name : String) : Bool :=
  (s.drop reg).take (pt - reg) == (ascii name).take (pt - reg)

/-- `*pt = '\0'; atoi(reg); *pt = '/'`: the number, and the string behind it. -/
def numberAt (s : List UInt8) (reg pt : Nat) : Int × List UInt8 :=
  let s := s.set pt 0
  (atoi (s.drop reg), s.set pt slash)

/-- The number behind the name of an option. -/
def optionNumber (s : List UInt8) (pt : Nat) : Option Int × List UInt8 :=
  if pt + 1 = s.length then (none, s)
  else
    match index s (pt + 1) with
    | none => (none, s)
    | some next =>
      let (n, s) := numberAt s (pt + 1) next
      (some n, s)

/-- `// Check mask` -/
def decodeOption (attr : Attr_t) (s : List UInt8) (pt : Nat) : Attr_t × List UInt8 :=
  if pt + 1 = s.length then (attr, s)
  else
    match index s (pt + 1) with
    | none => (attr, s)
    | some next =>
      if sameName s (pt + 1) next "mask" then
        let (n, s) := optionNumber s next
        (n.elim attr fun n => { attr with mask := UInt16.ofNat (n % 2 ^ 16).toNat }, s)
      else if sameName s (pt + 1) next "bytes" then
        let (n, s) := optionNumber s next
        (n.elim attr fun n => { attr with bytes := (n % 2 ^ 16).toNat }, s)
      else (attr, s)

/-- `decodeModbusAccess`: the attribute, and the string as it is left. -/
def decodeModbusAccess (attr : Attr_t) (s : List UInt8) : Attr_t × List UInt8 :=
  let attr := { attr with map := .notMapped }
  if s.head? ≠ some slash then (attr, s)
  else
    match index s 1 with
    | none => (attr, s)
    | some pt =>
      if sameName s 1 pt "holding" then
        if pt + 1 = s.length then (attr, s)
        else
          match index s (pt + 1) with
          | none => (attr, s)
          | some next =>
            let (addr, s) := numberAt s (pt + 1) next
            decodeOption { attr with map := .holding, reg := addr } s next
      else (attr, s)

/-! ### The documented strings -/

/-- The decimal digits of a number. -/
def IsNumber (n : List UInt8) : Prop := n ≠ [] ∧ ∀ c ∈ n, Decimal.isDigit c = true

/-- What may stand behind the address. -/
inductive AccessOption
  | absent
  | mask (n : List UInt8)
  | bytes (n : List UInt8)
  deriving DecidableEq

/-- A documented string: `/holding/<address>`, an option, and perhaps a final `/`. -/
structure RegAccess where
  address : List UInt8
  option : AccessOption
  final : Bool

namespace RegAccess

variable (a : RegAccess)

def IsWritten : Prop :=
  IsNumber a.address ∧
    match a.option with
    | .absent => True
    | .mask n | .bytes n => IsNumber n

def text : List UInt8 :=
  ascii "/holding/" ++ (a.address ++
    ((match a.option with
      | .absent => []
      | .mask n => ascii "/mask/" ++ n
      | .bytes n => ascii "/bytes/" ++ n) ++ if a.final then [slash] else []))

/-- The mask that is written, zero when it is absent. -/
def maskNumber : Int :=
  match a.option with
  | .mask n => Decimal.value n
  | _ => 0

/-- The number of bytes that is written, zero when it is absent. -/
def bytesNumber : Int :=
  match a.option with
  | .bytes n => Decimal.value n
  | _ => 0

/-- A documented string that is read: it ends with a `/`, its numbers fit their fields, and the
fields that it does not write are zero.  Without the `/` the number of an option is not read, and
its field must have it already. -/
def Fits (attr : Attr_t) : Prop :=
  Decimal.value a.address < 2 ^ 31 ∧
    match a.option with
    | .absent => a.final = true ∧ attr.mask = 0 ∧ attr.bytes = 0
    | .mask n =>
      attr.bytes = 0 ∧
        if a.final then Decimal.value n < 2 ^ 16 else (attr.mask.toNat : Int) = Decimal.value n
    | .bytes n =>
      attr.mask = 0 ∧
        if a.final then Decimal.value n < 2 ^ 16 else (attr.bytes : Int) = Decimal.value n

end RegAccess

/-- What is accepted: two parts that a `/` ends, the first one a beginning of `holding`. -/
def Lenient (s : List UInt8) : Prop :=
  ∃ name address rest, slash ∉ name ∧ slash ∉ address ∧ name.IsPrefix (ascii "holding") ∧
    s = slash :: (name ++ slash :: (address ++ slash :: rest))

/-- The string is left as it was, a documented one gives the attribute its numbers, and no other one
is mapped. -/
structure DecodedRightly (attr : Attr_t) (s : List UInt8) : Prop where
  restored : (decodeModbusAccess attr s).2 = s
  documented : ∀ a : RegAccess, a.IsWritten → s = a.text →
    (decodeModbusAccess attr s).1.map = .holding ∧
      (decodeModbusAccess attr s).1.reg = Decimal.value a.address ∧
      ((decodeModbusAccess attr s).1.mask.toNat : Int) = a.maskNumber ∧
      ((decodeModbusAccess attr s).1.bytes : Int) = a.bytesNumber
  other : (∀ a : RegAccess, a.IsWritten → s ≠ a.text) →
    (decodeModbusAccess attr s).1.map = .notMapped

variable {attr : Attr_t} {s pre part rest t : List UInt8} {reg pt : Nat} {name : String}
  {address n r : List UInt8}

/-! ### The string in parts -/

theorem index_append (pre : List UInt8) (h : slash ∉ part) :
    index (pre ++ (part ++ slash :: rest)) pre.length = some (pre.length + part.length) := by
  have hfind : (part ++ slash :: rest).findIdx? (· == slash) = some part.length := by
    rw [findIdx?_append, findIdx?_eq_none_iff.mpr fun c hc => ?_]
    · simp [findIdx?_cons]
    · exact beq_eq_false_iff_ne.mpr fun heq => h (heq ▸ hc)
  rw [index, drop_left, hfind, Option.map_some]

theorem index_eq_none (pre : List UInt8) (h : slash ∉ t) : index (pre ++ t) pre.length = none := by
  rw [index, drop_left, findIdx?_eq_none_iff.mpr fun c hc => ?_, Option.map_none]
  exact beq_eq_false_iff_ne.mpr fun heq => h (heq ▸ hc)

theorem sameName_append (pre : List UInt8) :
    sameName (pre ++ (part ++ rest)) pre.length (pre.length + part.length) name =
      decide (part <+: ascii name) := by
  rw [sameName, drop_left, Nat.add_sub_cancel_left, take_left, Bool.eq_iff_iff,
    beq_iff_eq, decide_eq_true_eq, prefix_iff_eq_take]

theorem numberAt_append :
    (numberAt (pre ++ (part ++ slash :: rest)) pre.length (pre.length + part.length)).1 =
      atoi (part ++ 0 :: rest) := by
  have hset : (pre ++ (part ++ slash :: rest)).set (pre.length + part.length) 0 =
      pre ++ (part ++ 0 :: rest) := by
    rw [set_append_right _ _ (by omega), Nat.add_sub_cancel_left,
      set_append_right _ _ le_rfl, Nat.sub_self, set_cons_zero]
  simp only [numberAt]
  rw [hset, drop_left]

theorem numberAt_restored (h : index s reg = some pt) : (numberAt s reg pt).2 = s := by
  obtain ⟨i, hi, rfl⟩ := Option.map_eq_some_iff.mp h
  obtain ⟨hlt, hslash, -⟩ := findIdx?_eq_some_iff_getElem.mp hi
  rw [length_drop] at hlt
  rw [beq_iff_eq, getElem_drop] at hslash
  simp only [numberAt]
  rw [set_set, ← hslash, set_getElem_self]

theorem optionNumber_restored : (optionNumber s pt).2 = s := by
  rw [optionNumber]
  split
  · rfl
  · split
    · rfl
    · rename_i next hnext
      exact numberAt_restored hnext

theorem decodeOption_kept : (decodeOption attr s pt).2 = s ∧
    (decodeOption attr s pt).1.map = attr.map ∧ (decodeOption attr s pt).1.reg = attr.reg := by
  rw [decodeOption]
  split
  · exact ⟨rfl, rfl, rfl⟩
  · split
    · exact ⟨rfl, rfl, rfl⟩
    · rename_i next _
      have hrestored := @optionNumber_restored s next
      split
      · refine ⟨hrestored, ?_⟩
        dsimp only
        cases (optionNumber s next).1 <;> exact ⟨rfl, rfl⟩
      · split
        · refine ⟨hrestored, ?_⟩
          dsimp only
          cases (optionNumber s next).1 <;> exact ⟨rfl, rfl⟩
        · exact ⟨rfl, rfl, rfl⟩

theorem decodeModbusAccess_restored : (decodeModbusAccess attr s).2 = s := by
  simp only [decodeModbusAccess]
  split
  · rfl
  · split
    · rfl
    · split
      · split
        · rfl
        · split
          · rfl
          · rename_i next hnext
            rw [numberAt_restored hnext]
            exact decodeOption_kept.1
      · rfl

/-! ### What is mapped -/

theorem decodeModbusAccess_parts (hpart : slash ∉ part) (haddress : slash ∉ address)
    (hname : part <+: ascii "holding") :
    decodeModbusAccess attr (slash :: (part ++ slash :: (address ++ slash :: rest))) =
      decodeOption { attr with map := .holding, reg := atoi (address ++ 0 :: rest) }
        (slash :: (part ++ slash :: (address ++ slash :: rest)))
        (part.length + address.length + 2) := by
  have hfirst : slash :: (part ++ slash :: (address ++ slash :: rest)) =
      [slash] ++ (part ++ slash :: (address ++ slash :: rest)) := rfl
  have hsecond : slash :: (part ++ slash :: (address ++ slash :: rest)) =
      (slash :: (part ++ [slash])) ++ (address ++ slash :: rest) := by simp
  have hlength : (slash :: (part ++ [slash])).length = 1 + part.length + 1 := by simp; omega
  have hindex : index (slash :: (part ++ slash :: (address ++ slash :: rest))) 1 =
      some (1 + part.length) := hfirst ▸ index_append [slash] hpart
  have hindex' : index (slash :: (part ++ slash :: (address ++ slash :: rest)))
      (1 + part.length + 1) = some (1 + part.length + 1 + address.length) := by
    rw [hsecond, ← hlength]
    exact index_append _ haddress
  have hsame : sameName (slash :: (part ++ slash :: (address ++ slash :: rest))) 1
      (1 + part.length) "holding" = true := by
    rw [hfirst]
    exact (sameName_append _).trans (decide_eq_true hname)
  have hnumber : (numberAt (slash :: (part ++ slash :: (address ++ slash :: rest)))
      (1 + part.length + 1) (1 + part.length + 1 + address.length)).1 =
        atoi (address ++ 0 :: rest) := by
    rw [hsecond, ← hlength]
    exact numberAt_append
  have hend : 1 + part.length + 1 ≠
      (slash :: (part ++ slash :: (address ++ slash :: rest))).length := by
    simp only [length_cons, length_append]
    omega
  simp only [decodeModbusAccess]
  rw [if_neg (by simp), hindex]
  dsimp only
  rw [if_pos hsame, if_neg hend, hindex']
  dsimp only
  rw [hnumber, numberAt_restored hindex', show 1 + part.length + 1 + address.length =
    part.length + address.length + 2 by omega]

theorem map_of_lenient (h : Lenient s) : (decodeModbusAccess attr s).1.map = .holding := by
  obtain ⟨part, address, rest, hpart, haddress, hname, rfl⟩ := h
  rw [decodeModbusAccess_parts hpart haddress hname]
  exact decodeOption_kept.2.1

theorem map_of_not_lenient (attr : Attr_t) (h : ¬Lenient s) :
    (decodeModbusAccess attr s).1.map = .notMapped := by
  simp only [decodeModbusAccess]
  split
  · rfl
  · rename_i hhead
    rw [not_not] at hhead
    obtain ⟨t, rfl⟩ : ∃ t, s = [slash] ++ t := by
      cases s with
      | nil => exact (Option.some_ne_none _ hhead.symm).elim
      | cons c t => exact ⟨t, by rw [Option.some.inj hhead]; rfl⟩
    by_cases ht : slash ∈ t
    · obtain ⟨part, t, rfl, hpart⟩ := eq_append_cons_of_mem ht
      have hindex : index ([slash] ++ (part ++ slash :: t)) 1 = some (1 + part.length) :=
        index_append [slash] hpart
      have hsame : sameName ([slash] ++ (part ++ slash :: t)) 1 (1 + part.length) "holding" =
          decide (part <+: ascii "holding") := sameName_append [slash]
      rw [hindex]
      dsimp only
      rw [hsame]
      by_cases hname : part <+: ascii "holding"
      · rw [if_pos (decide_eq_true hname)]
        split
        · rfl
        · have ht : slash ∉ t := fun ht => by
            obtain ⟨address, rest, rfl, haddress⟩ := eq_append_cons_of_mem ht
            exact h ⟨part, address, rest, hpart, haddress, hname, rfl⟩
          have hnone : index ([slash] ++ (part ++ slash :: t)) (1 + part.length + 1) = none := by
            have := index_eq_none ([slash] ++ (part ++ [slash])) ht
            rwa [append_assoc, append_assoc, length_append, length_append,
              length_singleton, ← Nat.add_assoc] at this
          rw [hnone]
      · rw [if_neg (by simpa using hname)]
    · have hnone : index ([slash] ++ t) 1 = none := index_eq_none [slash] ht
      rw [hnone]

/-! ### Numbers -/

theorem slash_not_digit : Decimal.isDigit slash = false := by decide

theorem IsNumber.slash_notMem (h : IsNumber n) : slash ∉ n := fun hmem => by
  have := h.2 slash hmem
  rw [slash_not_digit] at this
  exact absurd this Bool.false_ne_true

theorem atoi_eq_iff (h : IsNumber n) :
    atoi (n ++ 0 :: r) = Decimal.value n ↔ Decimal.value n < 2 ^ 31 := by
  have hpos := Decimal.value_nonneg h.2
  rw [atoi, Printf.scan_digits _ h.1 h.2 rfl]
  simp only [Bool.false_eq_true, if_false]
  rw [Int.toNat_of_nonneg hpos, Int.bmod_def]
  split <;> omega

theorem atoi_mod_eq_iff (h : IsNumber n) :
    ((atoi (n ++ 0 :: r) % 2 ^ 16).toNat : Int) = Decimal.value n ↔ Decimal.value n < 2 ^ 16 := by
  have hpos := Decimal.value_nonneg h.2
  have hiff := atoi_eq_iff (r := r) h
  omega

/-! ### The options -/

section

variable (hpt : pt + 1 = pre.length)

include hpt

theorem optionNumber_eq (h : slash ∉ t) : (optionNumber (pre ++ t) pt).1 = none := by
  rw [optionNumber]
  split
  · rfl
  · rw [hpt, index_eq_none _ h]

theorem optionNumber_append (h : slash ∉ part) :
    (optionNumber (pre ++ (part ++ slash :: rest)) pt).1 = some (atoi (part ++ 0 :: rest)) := by
  rw [optionNumber, if_neg (by simp only [length_append, length_cons]; omega), hpt,
    index_append _ h]
  simp only [numberAt_append]

theorem decodeOption_eq (h : slash ∉ t) : (decodeOption attr (pre ++ t) pt).1 = attr := by
  rw [decodeOption]
  split
  · rfl
  · rw [hpt, index_eq_none _ h]

theorem decodeOption_append (h : slash ∉ part) :
    (decodeOption attr (pre ++ (part ++ slash :: t)) pt).1 =
      let n := (optionNumber (pre ++ (part ++ slash :: t)) (pre.length + part.length)).1
      if part <+: ascii "mask" then
        n.elim attr fun n => { attr with mask := UInt16.ofNat (n % 2 ^ 16).toNat }
      else if part <+: ascii "bytes" then
        n.elim attr fun n => { attr with bytes := (n % 2 ^ 16).toNat }
      else attr := by
  rw [decodeOption, if_neg (by simp only [length_append, length_cons]; omega), hpt,
    index_append _ h]
  dsimp only
  rw [sameName_append, sameName_append]
  by_cases hmask : part <+: ascii "mask"
  · rw [if_pos (decide_eq_true hmask), if_pos hmask]
  · rw [if_neg (by simpa using hmask), if_neg hmask]
    by_cases hbytes : part <+: ascii "bytes"
    · rw [if_pos (decide_eq_true hbytes), if_pos hbytes]
    · rw [if_neg (by simpa using hbytes), if_neg hbytes]

end

theorem optionNumber_final (hn : IsNumber n) (hpt : pt + 1 = pre.length) (final : Bool) :
    (optionNumber (pre ++ (n ++ if final then [slash] else [])) pt).1 =
      if final then some (atoi (n ++ [0])) else none := by
  cases final
  · rw [if_neg Bool.false_ne_true, if_neg Bool.false_ne_true, append_nil,
      optionNumber_eq hpt hn.slash_notMem]
  · rw [if_pos rfl, if_pos rfl, optionNumber_append hpt hn.slash_notMem]

theorem optionNumber_named (hn : IsNumber n) (final : Bool) :
    (optionNumber (pre ++ (part ++ slash :: (n ++ if final then [slash] else [])))
      (pre.length + part.length)).1 = if final then some (atoi (n ++ [0])) else none := by
  have hsplit : pre ++ (part ++ slash :: (n ++ if final then [slash] else [])) =
      (pre ++ (part ++ [slash])) ++ (n ++ if final then [slash] else []) := by simp
  rw [hsplit]
  refine optionNumber_final hn ?_ final
  simp only [length_append, length_singleton]
  omega

/-! ### The documented strings -/

/-- The fields of a documented string, when its address is ended. -/
def RegAccess.fields (attr : Attr_t) (a : RegAccess) (reg : Int) : Attr_t :=
  let attr := { attr with map := .holding, reg := reg }
  match a.option with
  | .absent => attr
  | .mask n =>
    if a.final then { attr with mask := UInt16.ofNat (atoi (n ++ [0]) % 2 ^ 16).toNat } else attr
  | .bytes n =>
    if a.final then { attr with bytes := (atoi (n ++ [0]) % 2 ^ 16).toNat } else attr

theorem holding_parts : ascii "/holding/" = slash :: (ascii "holding" ++ [slash]) ∧
    ascii "/mask/" = slash :: (ascii "mask" ++ [slash]) ∧
    ascii "/bytes/" = slash :: (ascii "bytes" ++ [slash]) ∧ slash ∉ ascii "holding" ∧
    slash ∉ ascii "mask" ∧ slash ∉ ascii "bytes" ∧ ¬ascii "bytes" <+: ascii "mask" := by
  decide

theorem decodeModbusAccess_text (attr : Attr_t) {a : RegAccess} (ha : a.IsWritten)
    (hended : a.option = .absent → a.final = true) :
    ∃ r, (decodeModbusAccess attr a.text).1 = a.fields attr (atoi (a.address ++ 0 :: r)) := by
  obtain ⟨hholding, hmask, hbytes, hslash, hslash', hslash'', hnot⟩ := holding_parts
  rcases a with ⟨address, option, final⟩
  obtain ⟨haddress, hoption⟩ := ha
  have hparts (rest : List UInt8) : (decodeModbusAccess attr
      (slash :: (ascii "holding" ++ slash :: (address ++ slash :: rest)))).1 =
      (decodeOption { attr with map := .holding, reg := atoi (address ++ 0 :: rest) }
        ((slash :: (ascii "holding" ++ slash :: (address ++ [slash]))) ++ rest)
        ((ascii "holding").length + address.length + 2)).1 := by
    rw [decodeModbusAccess_parts hslash haddress.slash_notMem (prefix_refl _)]
    simp
  have hlength : (ascii "holding").length + address.length + 2 + 1 =
      (slash :: (ascii "holding" ++ slash :: (address ++ [slash]))).length := by
    simp only [length_cons, length_append, length_nil]
    omega
  cases option with
  | absent =>
    refine ⟨[], ?_⟩
    have hfinal : final = true := hended rfl
    have htext : RegAccess.text ⟨address, .absent, final⟩ =
        slash :: (ascii "holding" ++ slash :: (address ++ slash :: [])) := by
      simp [RegAccess.text, hfinal, hholding]
    rw [htext, hparts, decodeOption_eq hlength not_mem_nil]
    rfl
  | mask n =>
    refine ⟨ascii "mask" ++ slash :: (n ++ if final then [slash] else []), ?_⟩
    have htext : RegAccess.text ⟨address, .mask n, final⟩ = slash :: (ascii "holding" ++
        slash :: (address ++ slash :: (ascii "mask" ++
          slash :: (n ++ if final then [slash] else [])))) := by
      simp [RegAccess.text, hholding, hmask]
    rw [htext, hparts, decodeOption_append hlength hslash', optionNumber_named hoption,
      if_pos (prefix_refl _)]
    cases final <;> rfl
  | bytes n =>
    refine ⟨ascii "bytes" ++ slash :: (n ++ if final then [slash] else []), ?_⟩
    have htext : RegAccess.text ⟨address, .bytes n, final⟩ = slash :: (ascii "holding" ++
        slash :: (address ++ slash :: (ascii "bytes" ++
          slash :: (n ++ if final then [slash] else [])))) := by
      simp [RegAccess.text, hholding, hbytes]
    rw [htext, hparts, decodeOption_append hlength hslash'', optionNumber_named hoption,
      if_neg hnot, if_pos (prefix_refl _)]
    cases final <;> rfl

theorem not_lenient_address (h : IsNumber address) : ¬Lenient (ascii "/holding/" ++ address) := by
  rintro ⟨part, address', rest, -, -, -, heq⟩
  have hcount := congrArg (count slash) heq
  rw [count_append, count_eq_zero.mpr h.slash_notMem,
    show (ascii "/holding/").count slash = 2 by decide] at hcount
  simp only [count_cons_self, count_append] at hcount
  omega

theorem toNat_number :
    (UInt16.ofNat (atoi (n ++ 0 :: r) % 2 ^ 16).toNat).toNat =
      (atoi (n ++ 0 :: r) % 2 ^ 16).toNat :=
  UInt16.toNat_ofNat_of_lt' (by rw [UInt16.size]; omega)

theorem toNat_eq_zero {n : UInt16} : (n.toNat : Int) = 0 ↔ n = 0 := by
  rw [Int.natCast_eq_zero, ← UInt16.toNat_inj]
  rfl

/-- **Which documented strings are read rightly.** -/
theorem documented_iff {a : RegAccess} (ha : a.IsWritten) :
    ((decodeModbusAccess attr a.text).1.map = .holding ∧
      (decodeModbusAccess attr a.text).1.reg = Decimal.value a.address ∧
      ((decodeModbusAccess attr a.text).1.mask.toNat : Int) = a.maskNumber ∧
      ((decodeModbusAccess attr a.text).1.bytes : Int) = a.bytesNumber) ↔ a.Fits attr := by
  by_cases hended : a.option = .absent → a.final = true
  · obtain ⟨r, hr⟩ := decodeModbusAccess_text attr ha hended
    rw [hr]
    rcases a with ⟨address, option, final⟩
    obtain ⟨haddress, hoption⟩ := ha
    have hreg := atoi_eq_iff (r := r) haddress
    have hmask := toNat_eq_zero (n := attr.mask)
    -- the other field keeps what it had, so it is right only if it was zero
    cases option with
    | absent =>
      have hfinal : final = true := hended rfl
      simp only [RegAccess.fields, RegAccess.maskNumber, RegAccess.bytesNumber, RegAccess.Fits,
        hreg, hmask, hfinal, true_and, Int.natCast_eq_zero]
    | mask n =>
      cases final
      · simp only [RegAccess.fields, RegAccess.maskNumber, RegAccess.bytesNumber, RegAccess.Fits,
          hreg, Bool.false_eq_true, if_false, true_and, Int.natCast_eq_zero]
        rw [and_comm (a := attr.bytes = 0)]
      · simp only [RegAccess.fields, RegAccess.maskNumber, RegAccess.bytesNumber, RegAccess.Fits,
          hreg, if_true, toNat_number, atoi_mod_eq_iff hoption, true_and, Int.natCast_eq_zero]
        rw [and_comm (a := attr.bytes = 0)]
    | bytes n =>
      cases final
      · simp only [RegAccess.fields, RegAccess.maskNumber, RegAccess.bytesNumber, RegAccess.Fits,
          hreg, hmask, Bool.false_eq_true, if_false, true_and]
      · simp only [RegAccess.fields, RegAccess.maskNumber, RegAccess.bytesNumber, RegAccess.Fits,
          hreg, hmask, if_true, atoi_mod_eq_iff hoption, true_and]
  · rcases a with ⟨address, option, final⟩
    obtain ⟨hoption, hfinal⟩ := Classical.not_imp.mp hended
    dsimp only at hoption hfinal
    subst hoption
    have htext : RegAccess.text ⟨address, .absent, final⟩ = ascii "/holding/" ++ address := by
      simp [RegAccess.text, hfinal]
    have hmap := map_of_not_lenient attr (not_lenient_address ha.1)
    rw [htext, hmap]
    simp only [RegAccess.Fits, hfinal, false_and, and_false, reduceCtorEq]

/-- **Which strings are decoded as they are documented.** -/
theorem decodedRightly_iff (attr : Attr_t) (s : List UInt8) :
    DecodedRightly attr s ↔
      (∀ a : RegAccess, a.IsWritten → s = a.text → a.Fits attr) ∧
        ((∀ a : RegAccess, a.IsWritten → s ≠ a.text) → ¬Lenient s) := by
  constructor
  · intro h
    refine ⟨fun a ha heq => ?_, fun hother hlenient => ?_⟩
    · have hdocumented := h.documented a ha heq
      rw [heq] at hdocumented
      exact (documented_iff ha).mp hdocumented
    · have hmap := h.other hother
      rw [map_of_lenient hlenient] at hmap
      cases hmap
  · rintro ⟨hfits, hother⟩
    refine ⟨decodeModbusAccess_restored, fun a ha heq => ?_, fun hnone => ?_⟩
    · have hfit := hfits a ha heq
      rw [heq]
      exact (documented_iff ha).mpr hfit
    · exact map_of_not_lenient _ (hother hnone)

/-- The string of the comment, without a `/` behind the address, is not mapped. -/
theorem holding_one_unmapped :
    ¬DecodedRightly ⟨.unsupported, 0, 0, 0, .notMapped⟩ (ascii "/holding/1") := by
  intro h
  have hdocumented := (h.documented ⟨ascii "1", .absent, false⟩
    ⟨⟨by decide, all_eq_true.mp (by decide)⟩, trivial⟩ (by decide)).1
  revert hdocumented
  decide

end Ong.Modbus
