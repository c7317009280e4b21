import Mathlib.Algebra.BigOperators.Group.List.Basic
import Mathlib.Data.List.Induction
import Mathlib.Data.Bool.AllAny
import Mathlib.Data.List.TakeWhile
import Ong.Lib.Decimal

/-!
# Durations of the drivers

`parseISO8601Duration`: the numbers of days, hours, minutes and seconds of a text are kept in four
variables, and a component is taken for a second one if its variable is not zero.  Numbers are
`int`, which wraps as it is compiled.

## Main results

* `parsedRightly_iff`: the texts that are parsed rightly
-/

namespace Ong.DrvCommon

open List Int32

open Decimal (isDigit)

/-- A character of the source. -/
def ch (c : Char) : UInt8 := UInt8.ofNat c.toNat

/-! ## The function -/

/-- The variables of the function. -/
structure Components where
  days : Int32
  hours : Int32
  minutes : Int32
  seconds : Int32
  deriving DecidableEq

namespace Components

def zero : Components := ⟨0, 0, 0, 0⟩

/-- The `switch`; an error gives nothing. -/
def take (v : Components) (c : UInt8) (tmp : Int32) : Option Components :=
  if c = ch 'D' then if v.days ≠ 0 then none else some { v with days := tmp }
  else if c = ch 'T' then
    if v.hours ≠ 0 ∨ v.minutes ≠ 0 ∨ v.seconds ≠ 0 then none else some v
  else if c = ch 'H' then if v.hours ≠ 0 then none else some { v with hours := tmp }
  else if c = ch 'M' then if v.minutes ≠ 0 then none else some { v with minutes := tmp }
  else if c = ch 'S' then if v.seconds ≠ 0 then none else some { v with seconds := tmp }
  else none

def total (v : Components) : Int32 :=
  v.days * 86400 + v.hours * 3600 + v.minutes * 60 + v.seconds

end Components

/-- The inner loop: `tmp` behind the digits. -/
def readNumber (digits : List UInt8) : Int32 :=
  digits.foldl (fun tmp c => 10 * tmp + Int32.ofInt ((c.toNat : Int) - 48)) 0

/-- The outer loop: the variables if no error occurs, and whether the byte behind the terminator is
read.  The first argument bounds the turns. -/
def componentsLoop : Nat → Components → List UInt8 → Option Components × Bool
  | 0, v, _ => (some v, false)
  | n + 1, v, string =>
    if string = [] then (some v, false)
    else
      match string.dropWhile isDigit with
      | [] => (none, true)  -- `default`; then the pointer goes on and the condition reads there
      | c :: rest =>
        match v.take c (readNumber (string.takeWhile isDigit)) with
        | none => (none, false)
        | some v => componentsLoop n v rest

/-- What the function returns, and whether it reads the byte behind the terminator. -/
structure Parsed where
  value : Int32
  beyond : Bool
  deriving DecidableEq

/-- The sign, and the string behind it. -/
def readSign : List UInt8 → Int32 × List UInt8
  | [] => (1, [])
  | c :: string =>
    if c = ch '+' then (1, string)
    else if c = ch '-' then (-1, string)
    else (1, c :: string)

def parseISO8601Duration : Option (List UInt8) → Parsed
  | none => ⟨0, false⟩
  | some string =>
    let (sign, string) := readSign string
    match string with
    | [] => ⟨0, false⟩
    | c :: string =>
      if c ≠ ch 'P' then ⟨0, false⟩
      else
        let (v, beyond) := componentsLoop string.length .zero string
        ⟨v.elim 0 fun v => sign * v.total, beyond⟩

/-! ## Durations -/

/-- A number and the letter behind it. -/
structure Item where
  digits : List UInt8
  letter : UInt8

namespace Item

def text (x : Item) : List UInt8 := x.digits ++ [x.letter]

def number (x : Item) : Int := Decimal.value x.digits

/-- The seconds of a unit. -/
def weight (x : Item) : Int :=
  if x.letter = ch 'D' then 86400
  else if x.letter = ch 'H' then 3600
  else if x.letter = ch 'M' then 60
  else if x.letter = ch 'S' then 1
  else 0

/-- The place of a letter in a duration. -/
def rank (x : Item) : Nat := [ch 'D', ch 'T', ch 'H', ch 'M', ch 'S'].idxOf x.letter

end Item

/-- The number of seconds that components spell. -/
def total (items : List Item) : Int := (items.map fun x => x.number * x.weight).sum

/-- The components of a duration `[nD][T][nH][nM][nS]`, of which one is present. -/
structure IsDuration (items : List Item) : Prop where
  known : ∀ x ∈ items, x.letter ∈ [ch 'D', ch 'T', ch 'H', ch 'M', ch 'S']
  written : ∀ x ∈ items, (∀ c ∈ x.digits, isDigit c = true) ∧ (x.digits = [] ↔ x.letter = ch 'T')
  ordered : items.Pairwise fun x y => x.rank < y.rank
  present : ∃ x ∈ items, x.letter ≠ ch 'T'

/-- The sign in front of a duration. -/
inductive Sign
  | absent | plus | minus

namespace Sign

def text : Sign → List UInt8
  | absent => []
  | plus => [ch '+']
  | minus => [ch '-']

def value : Sign → Int
  | absent => 1
  | plus => 1
  | minus => -1

end Sign

/-- A sign, a `P` and components. -/
def durationText (sign : Sign) (items : List Item) : List UInt8 :=
  sign.text ++ ch 'P' :: items.flatMap Item.text

def IsInt (n : Int) : Prop := -2 ^ 31 ≤ n ∧ n < 2 ^ 31

/-- Nothing behind the terminator is read; a duration gives its number of seconds, if it is an
`int`, and any other text 0. -/
structure ParsedRightly (string : List UInt8) : Prop where
  inside : (parseISO8601Duration (some string)).beyond = false
  exact : ∀ sign items, IsDuration items → string = durationText sign items →
    IsInt (sign.value * total items) →
      (parseISO8601Duration (some string)).value.toInt = sign.value * total items
  other : (∀ sign items, IsDuration items → string = durationText sign items →
    ¬IsInt (sign.value * total items)) → (parseISO8601Duration (some string)).value = 0

/-- The letter comes again, or a `T` behind a letter of the time. -/
def Item.Clashes (x y : Item) : Prop :=
  x.letter = y.letter ∧ x.letter ≠ ch 'T' ∨
    y.letter = ch 'T' ∧ x.letter ∈ [ch 'H', ch 'M', ch 'S']

/-- The components that the function takes: a number is zero as an `int` if a component behind it
clashes with it. -/
structure Accepted (items : List Item) : Prop where
  known : ∀ x ∈ items, x.letter ∈ [ch 'D', ch 'T', ch 'H', ch 'M', ch 'S']
  digits : ∀ x ∈ items, ∀ c ∈ x.digits, isDigit c = true
  unseen : items.Pairwise fun x y => x.Clashes y → (2 ^ 32 : Int) ∣ x.number

variable (string : List UInt8)

/-- What is taken ends behind a letter, and is a duration whose number is an `int`, or spells a
multiple of `2 ^ 32`. -/
def Sound : Prop :=
  ∀ sign items tail, Accepted items → (∀ c ∈ tail, isDigit c = true) →
    string = durationText sign items ++ tail →
      tail = [] ∧
        (IsDuration items ∧ IsInt (sign.value * total items) ∨ (2 ^ 32 : Int) ∣ total items)

/-! ## Numbers -/

theorem ofInt_eq_zero_iff {n : Int} : ofInt n = 0 ↔ (2 ^ 32 : Int) ∣ n := by
  rw [ofInt_eq_iff_bmod_eq_toInt, toInt_zero]
  exact ⟨fun h => Int.dvd_of_bmod_eq_zero h, fun h => Int.bmod_eq_zero_of_dvd h⟩

theorem toInt_ofInt_of_isInt {n : Int} (h : IsInt n) : (ofInt n).toInt = n :=
  toInt_ofInt_of_le h.1 h.2

theorem readNumber_eq (digits : List UInt8) :
    readNumber digits = ofInt (Decimal.value digits) := by
  have hfrom (v : Int) : digits.foldl
      (fun tmp c => 10 * tmp + ofInt ((c.toNat : Int) - 48)) (ofInt v) =
        ofInt (digits.foldl Decimal.readDigit v) := by
    induction digits generalizing v with
    | nil => rfl
    | cons c digits ih =>
      rw [foldl_cons, foldl_cons, ← ih, Decimal.readDigit, ofInt_add,
        ofInt_mul, Int32.mul_comm]
      rfl
  exact hfrom 0

/-! ## The variables -/

namespace Components

/-- The variable of a letter. -/
def get (v : Components) (c : UInt8) : Int32 :=
  if c = ch 'D' then v.days
  else if c = ch 'H' then v.hours
  else if c = ch 'M' then v.minutes
  else if c = ch 'S' then v.seconds
  else 0

def set (v : Components) (c : UInt8) (tmp : Int32) : Components :=
  if c = ch 'D' then { v with days := tmp }
  else if c = ch 'H' then { v with hours := tmp }
  else if c = ch 'M' then { v with minutes := tmp }
  else if c = ch 'S' then { v with seconds := tmp }
  else v

variable {v : Components} {c d : UInt8} {tmp : Int32} {x : Item}

theorem get_zero : zero.get c = 0 := by
  rw [get]
  repeat' split
  all_goals rfl

theorem take_letter (h : c ∈ [ch 'D', ch 'H', ch 'M', ch 'S']) :
    v.take c tmp = if v.get c ≠ 0 then none else some (v.set c tmp) := by
  simp only [mem_cons, not_mem_nil, or_false] at h
  rcases h with rfl | rfl | rfl | rfl <;> rfl

theorem take_time : v.take (ch 'T') tmp =
    if v.get (ch 'H') ≠ 0 ∨ v.get (ch 'M') ≠ 0 ∨ v.get (ch 'S') ≠ 0 then none else some v :=
  rfl

theorem take_other (h : c ∉ [ch 'D', ch 'T', ch 'H', ch 'M', ch 'S']) : v.take c tmp = none := by
  simp only [mem_cons, not_mem_nil, or_false, not_or] at h
  obtain ⟨hd, ht, hh, hm, hs⟩ := h
  rw [take, if_neg hd, if_neg ht, if_neg hh, if_neg hm, if_neg hs]

theorem get_set (h : c ∈ [ch 'D', ch 'H', ch 'M', ch 'S']) :
    (v.set c tmp).get d = if d = c then tmp else v.get d := by
  simp only [mem_cons, not_mem_nil, or_false] at h
  by_cases hd : d = c
  · rw [if_pos hd, hd]
    rcases h with rfl | rfl | rfl | rfl <;> rfl
  · rw [if_neg hd]
    rcases h with rfl | rfl | rfl | rfl
    · rw [show v.set (ch 'D') tmp = { v with days := tmp } from rfl, get, get, if_neg hd, if_neg hd]
    · rw [show v.set (ch 'H') tmp = { v with hours := tmp } from rfl, get, get, if_neg hd,
        if_neg hd]
    · rw [show v.set (ch 'M') tmp = { v with minutes := tmp } from rfl, get, get, if_neg hd,
        if_neg hd]
    · rw [show v.set (ch 'S') tmp = { v with seconds := tmp } from rfl, get, get, if_neg hd,
        if_neg hd]

theorem total_set (h : x.letter ∈ [ch 'D', ch 'H', ch 'M', ch 'S']) (hget : v.get x.letter = 0) :
    (v.set x.letter tmp).total = v.total + tmp * ofInt x.weight := by
  simp only [mem_cons, not_mem_nil, or_false] at h
  rw [Item.weight]
  rcases h with h | h | h | h <;> rw [h] at hget ⊢
  · have hzero : v.days = 0 := hget
    show tmp * 86400 + v.hours * 3600 + v.minutes * 60 + v.seconds =
      v.days * 86400 + v.hours * 3600 + v.minutes * 60 + v.seconds + tmp * 86400
    grind
  · have hzero : v.hours = 0 := hget
    show v.days * 86400 + tmp * 3600 + v.minutes * 60 + v.seconds =
      v.days * 86400 + v.hours * 3600 + v.minutes * 60 + v.seconds + tmp * 3600
    grind
  · have hzero : v.minutes = 0 := hget
    show v.days * 86400 + v.hours * 3600 + tmp * 60 + v.seconds =
      v.days * 86400 + v.hours * 3600 + v.minutes * 60 + v.seconds + tmp * 60
    grind
  · have hzero : v.seconds = 0 := hget
    show v.days * 86400 + v.hours * 3600 + v.minutes * 60 + tmp =
      v.days * 86400 + v.hours * 3600 + v.minutes * 60 + v.seconds + tmp * 1
    grind

end Components

/-! ## Components one behind the other -/

/-- The variables behind components. -/
def run (v : Components) (items : List Item) : Option Components :=
  items.foldlM (fun v x => v.take x.letter (readNumber x.digits)) v

variable {v : Components} {items items' : List Item} {x : Item} {tail tail' : List UInt8} {n : Nat}

/-- The text of components can be cut: numbers of digits, each with another character behind it. -/
def Cut (items : List Item) : Prop :=
  ∀ x ∈ items, (∀ c ∈ x.digits, isDigit c = true) ∧ isDigit x.letter = false

theorem not_isDigit_letter {c : UInt8} (h : c ∈ [ch 'D', ch 'T', ch 'H', ch 'M', ch 'S']) :
    isDigit c = false := by
  have hall : ∀ c ∈ [ch 'D', ch 'T', ch 'H', ch 'M', ch 'S'], isDigit c = false :=
    all_iff_forall_prop.mp (by decide)
  exact hall c h

theorem IsDuration.cut (h : IsDuration items) : Cut items := fun x hx =>
  ⟨(h.written x hx).1, not_isDigit_letter (h.known x hx)⟩

theorem Accepted.cut (h : Accepted items) : Cut items := fun x hx =>
  ⟨h.digits x hx, not_isDigit_letter (h.known x hx)⟩

theorem exists_items : ∃ items tail, Cut items ∧
    (∀ c ∈ tail, isDigit c = true) ∧ string = items.flatMap Item.text ++ tail := by
  induction string with
  | nil => exact ⟨[], [], forall_mem_nil _, forall_mem_nil _, rfl⟩
  | cons c string ih =>
    obtain ⟨items, tail, hcut, htail, rfl⟩ := ih
    cases hc : isDigit c with
    | false =>
      refine ⟨⟨[], c⟩ :: items, tail, ?_, htail, rfl⟩
      exact forall_mem_cons.mpr ⟨⟨forall_mem_nil _, hc⟩, hcut⟩
    | true =>
      cases items with
      | nil => exact ⟨[], c :: tail, hcut, forall_mem_cons.mpr ⟨hc, htail⟩, rfl⟩
      | cons x items =>
        obtain ⟨⟨hdigits, hletter⟩, hcut⟩ := forall_mem_cons.mp hcut
        refine ⟨⟨c :: x.digits, x.letter⟩ :: items, tail, ?_, htail, rfl⟩
        exact forall_mem_cons.mpr ⟨⟨forall_mem_cons.mpr ⟨hc, hdigits⟩, hletter⟩, hcut⟩

theorem takeWhile_digits (rest : List UInt8) {digits : List UInt8} {c : UInt8}
    (h : ∀ c ∈ digits, isDigit c = true) (hc : isDigit c = false) :
    (digits ++ c :: rest).takeWhile isDigit = digits ∧
      (digits ++ c :: rest).dropWhile isDigit = c :: rest := by
  rw [takeWhile_append_of_pos h, dropWhile_append_of_pos h,
    takeWhile_cons_of_neg (by rw [hc]; exact Bool.false_ne_true),
    dropWhile_cons_of_neg (by rw [hc]; exact Bool.false_ne_true), append_nil]
  exact ⟨rfl, rfl⟩

theorem dropWhile_digits {digits : List UInt8} (h : ∀ c ∈ digits, isDigit c = true) :
    digits.dropWhile isDigit = [] := dropWhile_eq_nil_iff.mpr h

theorem cut_unique (hcut : Cut items) (hcut' : Cut items') (htail : ∀ c ∈ tail, isDigit c = true)
    (htail' : ∀ c ∈ tail', isDigit c = true)
    (h : items.flatMap Item.text ++ tail = items'.flatMap Item.text ++ tail') :
    items = items' ∧ tail = tail' := by
  have hcons (x : Item) (items : List Item) (tail : List UInt8) :
      (x :: items).flatMap Item.text ++ tail =
        x.digits ++ x.letter :: (items.flatMap Item.text ++ tail) := by
    rw [flatMap_cons, Item.text, append_assoc, append_assoc, singleton_append]
  have hends {x : Item} {rest tail : List UInt8} (hx : isDigit x.letter = false)
      (htail : ∀ c ∈ tail, isDigit c = true) : x.digits ++ x.letter :: rest ≠ tail := by
    rintro rfl
    rw [htail x.letter (by simp)] at hx
    cases hx
  induction items generalizing items' with
  | nil =>
    cases items' with
    | nil => exact ⟨rfl, h⟩
    | cons y items' =>
      rw [hcons] at h
      exact absurd h.symm (hends (hcut' y mem_cons_self).2 htail)
  | cons x items ih =>
    cases items' with
    | nil =>
      rw [hcons] at h
      exact absurd h (hends (hcut x mem_cons_self).2 htail')
    | cons y items' =>
      obtain ⟨⟨hx, hxletter⟩, hcut⟩ := forall_mem_cons.mp hcut
      obtain ⟨⟨hy, hyletter⟩, hcut'⟩ := forall_mem_cons.mp hcut'
      rw [hcons, hcons] at h
      obtain ⟨hxtake, hxdrop⟩ :=
        takeWhile_digits (items.flatMap Item.text ++ tail) hx hxletter
      obtain ⟨hytake, hydrop⟩ :=
        takeWhile_digits (items'.flatMap Item.text ++ tail') hy hyletter
      rw [h, hytake] at hxtake
      rw [h, hydrop] at hxdrop
      obtain ⟨hletter, hrest⟩ := cons.inj hxdrop
      obtain ⟨rfl, rfl⟩ := ih hcut hcut' hrest.symm
      exact ⟨congrArg (· :: items) (show x = y by cases x; cases y; simp_all), rfl⟩

theorem componentsLoop_items (hcut : Cut items) (htail : ∀ c ∈ tail, isDigit c = true)
    (hfuel : (items.flatMap Item.text ++ tail).length ≤ n) :
    componentsLoop n v (items.flatMap Item.text ++ tail) =
      match run v items with
      | none => (none, false)
      | some v => if tail = [] then (some v, false) else (none, true) := by
  induction items generalizing v n with
  | nil =>
    rw [flatMap_nil, nil_append] at hfuel ⊢
    cases n with
    | zero =>
      rw [length_eq_zero_iff.mp (Nat.le_zero.mp hfuel)]
      rfl
    | succ n =>
      rw [componentsLoop, dropWhile_digits htail]
      rfl
  | cons x items ih =>
    obtain ⟨⟨hdigits, hletter⟩, hcut⟩ := forall_mem_cons.mp hcut
    have htext : (x :: items).flatMap Item.text ++ tail =
        x.digits ++ x.letter :: (items.flatMap Item.text ++ tail) := by
      rw [flatMap_cons, Item.text, append_assoc, append_assoc,
        singleton_append]
    obtain ⟨htake, hdrop⟩ :=
      takeWhile_digits (items.flatMap Item.text ++ tail) hdigits hletter
    rw [htext] at hfuel ⊢
    rw [length_append, length_cons] at hfuel
    cases n with
    | zero => omega
    | succ n =>
      rw [componentsLoop, if_neg (by simp), hdrop, htake, run, foldlM_cons]
      dsimp only
      cases htaken : v.take x.letter (readNumber x.digits) with
      | none => rfl
      | some w => exact ih hcut (by omega)

/-- What the variables say about the components that were taken. -/
structure Holds (items : List Item) (v : Components) : Prop where
  set : ∀ c ∈ [ch 'D', ch 'H', ch 'M', ch 'S'],
    v.get c ≠ 0 ↔ ∃ x ∈ items, x.letter = c ∧ ¬(2 ^ 32 : Int) ∣ x.number
  total : v.total = Int32.ofInt (total items)

theorem holds_zero : Holds [] .zero := by
  refine ⟨fun c _ => iff_of_false (fun h => h Components.get_zero) ?_, rfl⟩
  rintro ⟨x, hx, -⟩
  cases hx

theorem total_append : total (items ++ items') = total items + total items' := by
  rw [total, map_append, sum_append]
  rfl

theorem total_concat : total (items ++ [x]) = total items + x.number * x.weight := by
  rw [total_append, total, total, map_singleton, sum_singleton]

theorem letter_cases {c : UInt8} (h : c ∈ [ch 'D', ch 'T', ch 'H', ch 'M', ch 'S']) :
    c = ch 'T' ∨ c ∈ [ch 'D', ch 'H', ch 'M', ch 'S'] ∧ c ≠ ch 'T' := by
  have hall : ∀ c ∈ [ch 'D', ch 'T', ch 'H', ch 'M', ch 'S'],
      c = ch 'T' ∨ c ∈ [ch 'D', ch 'H', ch 'M', ch 'S'] ∧ c ≠ ch 'T' :=
    all_iff_forall_prop.mp (by decide)
  exact hall c h

theorem Holds.time_iff (h : Holds items v) :
    (v.get (ch 'H') ≠ 0 ∨ v.get (ch 'M') ≠ 0 ∨ v.get (ch 'S') ≠ 0) ↔
      ∃ y ∈ items, y.letter ∈ [ch 'H', ch 'M', ch 'S'] ∧ ¬(2 ^ 32 : Int) ∣ y.number := by
  rw [h.set (ch 'H') (by decide), h.set (ch 'M') (by decide), h.set (ch 'S') (by decide)]
  constructor
  · rintro (⟨y, hy, hletter, hnumber⟩ | ⟨y, hy, hletter, hnumber⟩ | ⟨y, hy, hletter, hnumber⟩)
    all_goals exact ⟨y, hy, by rw [hletter]; decide, hnumber⟩
  · rintro ⟨y, hy, hletter, hnumber⟩
    simp only [mem_cons, not_mem_nil, or_false] at hletter
    rcases hletter with hletter | hletter | hletter
    · exact .inl ⟨y, hy, hletter, hnumber⟩
    · exact .inr (.inl ⟨y, hy, hletter, hnumber⟩)
    · exact .inr (.inr ⟨y, hy, hletter, hnumber⟩)

theorem Holds.take (h : Holds items v)
    (hknown : x.letter ∈ [ch 'D', ch 'T', ch 'H', ch 'M', ch 'S'])
    (hunseen : ∀ y ∈ items, y.Clashes x → (2 ^ 32 : Int) ∣ y.number) :
    ∃ w, v.take x.letter (readNumber x.digits) = some w ∧ Holds (items ++ [x]) w := by
  rcases letter_cases hknown with hletter | ⟨hletter, htime⟩
  · refine ⟨v, ?_, fun c hc => ?_, ?_⟩
    · rw [hletter, Components.take_time, if_neg]
      rw [h.time_iff]
      rintro ⟨y, hy, hmem, hnumber⟩
      exact hnumber (hunseen y hy (.inr ⟨hletter, hmem⟩))
    · rw [h.set c hc]
      refine ⟨fun ⟨y, hy, hyc⟩ => ⟨y, mem_append_left _ hy, hyc⟩, fun ⟨y, hy, hyc⟩ => ?_⟩
      rcases mem_append.mp hy with hy | hy
      · exact ⟨y, hy, hyc⟩
      · rw [mem_singleton.mp hy, hletter] at hyc
        rw [← hyc.1] at hc
        exact absurd hc (by decide)
    · have hweight : x.weight = 0 := by
        rw [Item.weight, hletter]
        rfl
      rw [total_concat, hweight, Int.mul_zero, Int.add_zero, h.total]
  · have hget : v.get x.letter = 0 := by
      refine not_not.mp fun hne => ?_
      obtain ⟨y, hy, hyx, hnumber⟩ := (h.set x.letter hletter).mp hne
      exact hnumber (hunseen y hy (.inl ⟨hyx, by rw [hyx]; exact htime⟩))
    refine ⟨v.set x.letter (readNumber x.digits), ?_, fun c hc => ?_, ?_⟩
    · rw [Components.take_letter hletter, if_neg (not_not.mpr hget)]
    · rw [Components.get_set hletter]
      by_cases hcx : c = x.letter
      · rw [if_pos hcx, readNumber_eq, ne_eq, ofInt_eq_zero_iff]
        constructor
        · exact fun hnumber => ⟨x, mem_append_right _ (mem_singleton_self x), hcx.symm,
            hnumber⟩
        · rintro ⟨y, hy, hyc, hnumber⟩
          rcases mem_append.mp hy with hy | hy
          · have hclash : y.Clashes x := .inl ⟨hyc.trans hcx, by rw [hyc, hcx]; exact htime⟩
            exact absurd (hunseen y hy hclash) hnumber
          · rw [mem_singleton.mp hy] at hnumber
            exact hnumber
      · rw [if_neg hcx, h.set c hc]
        refine ⟨fun ⟨y, hy, hyc⟩ => ⟨y, mem_append_left _ hy, hyc⟩, fun ⟨y, hy, hyc⟩ => ?_⟩
        rcases mem_append.mp hy with hy | hy
        · exact ⟨y, hy, hyc⟩
        · rw [mem_singleton.mp hy] at hyc
          exact absurd hyc.1.symm hcx
    · rw [Components.total_set hletter hget, h.total, total_concat, readNumber_eq, ofInt_add,
        ofInt_mul]
      rfl

theorem Holds.take_eq_none (h : Holds items v)
    (hrefused : ¬(x.letter ∈ [ch 'D', ch 'T', ch 'H', ch 'M', ch 'S'] ∧
      ∀ y ∈ items, y.Clashes x → (2 ^ 32 : Int) ∣ y.number)) {tmp : Int32} :
    v.take x.letter tmp = none := by
  by_cases hknown : x.letter ∈ [ch 'D', ch 'T', ch 'H', ch 'M', ch 'S']
  · have hseen : ¬∀ y ∈ items, y.Clashes x → (2 ^ 32 : Int) ∣ y.number := fun hunseen =>
      hrefused ⟨hknown, hunseen⟩
    push Not at hseen
    obtain ⟨y, hy, hclash, hnumber⟩ := hseen
    rcases letter_cases hknown with hletter | ⟨hletter, htime⟩
    · rw [hletter, Components.take_time, if_pos]
      refine h.time_iff.mpr ⟨y, hy, ?_, hnumber⟩
      rcases hclash with ⟨heq, hne⟩ | ⟨-, hmem⟩
      · exact absurd (heq.trans hletter) hne
      · exact hmem
    · rw [Components.take_letter hletter, if_pos]
      rcases hclash with ⟨heq, -⟩ | ⟨hx, -⟩
      · exact (h.set x.letter hletter).mpr ⟨y, hy, heq, hnumber⟩
      · exact absurd hx htime
  · exact Components.take_other hknown

theorem run_zero (hdigits : ∀ x ∈ items, ∀ c ∈ x.digits, isDigit c = true) :
    (Accepted items → ∃ v, run .zero items = some v ∧ Holds items v) ∧
      (¬Accepted items → run .zero items = none) := by
  induction items using reverseRecOn with
  | nil =>
    exact ⟨fun _ => ⟨.zero, rfl, holds_zero⟩, fun h => absurd
      ⟨forall_mem_nil _, forall_mem_nil _, List.Pairwise.nil⟩ h⟩
  | append_singleton items x ih =>
    have hrun : run .zero (items ++ [x]) =
        (run .zero items).bind fun v => v.take x.letter (readNumber x.digits) := by
      rw [run, foldlM_append]
      simp only [foldlM_cons, foldlM_nil, bind_pure]
      rfl
    obtain ⟨hih, hih'⟩ := ih fun y hy => hdigits y (mem_append_left _ hy)
    have haccepted : Accepted (items ++ [x]) ↔ Accepted items ∧
        (x.letter ∈ [ch 'D', ch 'T', ch 'H', ch 'M', ch 'S'] ∧
          ∀ y ∈ items, y.Clashes x → (2 ^ 32 : Int) ∣ y.number) := by
      constructor
      · intro h
        obtain ⟨hpairs, -, hlast⟩ := pairwise_append.mp h.unseen
        exact ⟨⟨fun y hy => h.known y (mem_append_left _ hy),
          fun y hy => h.digits y (mem_append_left _ hy), hpairs⟩,
          h.known x (mem_append_right _ (mem_singleton_self x)),
          fun y hy => hlast y hy x (mem_singleton_self x)⟩
      · rintro ⟨h, hknown, hlast⟩
        refine ⟨fun y hy => ?_, hdigits, pairwise_append.mpr
          ⟨h.unseen, pairwise_singleton _ x, fun y hy z hz => ?_⟩⟩
        · rcases mem_append.mp hy with hy | hy
          · exact h.known y hy
          · rw [mem_singleton.mp hy]
            exact hknown
        · rw [mem_singleton.mp hz]
          exact hlast y hy
    rw [hrun, haccepted]
    constructor
    · rintro ⟨h, hknown, hunseen⟩
      obtain ⟨v, hv, hholds⟩ := hih h
      rw [hv, Option.bind_some]
      exact hholds.take hknown hunseen
    · intro h
      by_cases haccepted : Accepted items
      · obtain ⟨v, hv, hholds⟩ := hih haccepted
        rw [hv, Option.bind_some]
        exact hholds.take_eq_none fun hlast => h ⟨haccepted, hlast⟩
      · rw [hih' haccepted, Option.bind_none]

/-! ## The whole text -/

theorem readSign_text {sign : Sign} {rest : List UInt8} :
    readSign (sign.text ++ ch 'P' :: rest) = (ofInt sign.value, ch 'P' :: rest) := by
  cases sign <;> rfl

theorem parseISO8601Duration_text (sign : Sign) (hcut : Cut items)
    (htail : ∀ c ∈ tail, isDigit c = true) :
    parseISO8601Duration (some (durationText sign items ++ tail)) =
      match run .zero items with
      | none => ⟨0, false⟩
      | some v => if tail = [] then ⟨ofInt sign.value * v.total, false⟩ else ⟨0, true⟩ := by
  have htext : durationText sign items ++ tail =
      sign.text ++ ch 'P' :: (items.flatMap Item.text ++ tail) := by
    rw [durationText, append_assoc, cons_append]
  rw [htext, parseISO8601Duration, readSign_text]
  dsimp only
  rw [if_neg (fun h => h rfl), componentsLoop_items hcut htail (Nat.le_refl _)]
  cases run .zero items with
  | none => rfl
  | some v =>
    dsimp only
    split <;> rfl

theorem parseISO8601Duration_accepted (sign : Sign) (h : Accepted items) :
    parseISO8601Duration (some (durationText sign items)) =
      ⟨ofInt (sign.value * total items), false⟩ := by
  obtain ⟨v, hv, hholds⟩ := (run_zero h.digits).1 h
  have htext := parseISO8601Duration_text sign h.cut (forall_mem_nil _)
  rw [append_nil, hv] at htext
  rw [htext, ofInt_mul, ← hholds.total]
  rfl

theorem exists_sign :
    (∃ (sign : Sign) (rest : List UInt8), string = sign.text ++ ch 'P' :: rest) ∨
      parseISO8601Duration (some string) = ⟨0, false⟩ := by
  have hp (sign : Sign) (string : List UInt8) (n : Int32)
      (h : readSign (sign.text ++ string) = (n, string)) :
      (∃ (sign' : Sign) (rest : List UInt8), sign.text ++ string = sign'.text ++ ch 'P' :: rest) ∨
        parseISO8601Duration (some (sign.text ++ string)) = ⟨0, false⟩ := by
    cases string with
    | nil =>
      right
      rw [parseISO8601Duration, h]
    | cons c string =>
      by_cases hc : c = ch 'P'
      · rw [hc]
        exact .inl ⟨sign, string, rfl⟩
      · right
        rw [parseISO8601Duration, h]
        exact if_pos hc
  cases string with
  | nil => exact hp .absent [] 1 rfl
  | cons c string =>
    by_cases hplus : c = ch '+'
    · rw [hplus]
      exact hp .plus string 1 rfl
    · by_cases hminus : c = ch '-'
      · rw [hminus]
        exact hp .minus string (-1) rfl
      · refine hp .absent (c :: string) 1 ?_
        rw [Sign.text, nil_append, readSign, if_neg hplus, if_neg hminus]

theorem durationText_inj {sign sign' : Sign} (hcut : Cut items) (hcut' : Cut items')
    (htail : ∀ c ∈ tail, isDigit c = true)
    (h : durationText sign items ++ tail = durationText sign' items') :
    sign = sign' ∧ items = items' ∧ tail = [] := by
  have htext {sign : Sign} {items : List Item} {tail : List UInt8} :
      durationText sign items ++ tail =
        sign.text ++ ch 'P' :: (items.flatMap Item.text ++ tail) := by
    rw [durationText, append_assoc, cons_append]
  rw [← append_nil (durationText sign' items'), htext, htext] at h
  have hread := congrArg readSign h
  rw [readSign_text, readSign_text] at hread
  obtain ⟨-, hrest⟩ := Prod.mk.inj hread
  obtain ⟨rfl, rfl⟩ := cut_unique hcut hcut' htail (forall_mem_nil _) (cons.inj hrest).2
  refine ⟨?_, rfl, rfl⟩
  have hsign := append_cancel_right h
  cases sign <;> cases sign' <;> first | rfl | exact absurd hsign (by decide)

theorem Item.not_clashes {y : Item} (h : x.rank < y.rank) : ¬x.Clashes y := by
  rintro (⟨heq, -⟩ | ⟨hletter, hmem⟩)
  · rw [Item.rank, Item.rank, heq] at h
    exact absurd h (Nat.lt_irrefl _)
  · have hall : ∀ c ∈ [ch 'H', ch 'M', ch 'S'],
        ¬[ch 'D', ch 'T', ch 'H', ch 'M', ch 'S'].idxOf c < 1 :=
      all_iff_forall_prop.mp (by decide)
    rw [Item.rank, Item.rank, hletter] at h
    exact absurd h (hall x.letter hmem)

theorem IsDuration.accepted (h : IsDuration items) : Accepted items :=
  ⟨h.known, fun x hx => (h.written x hx).1,
    h.ordered.imp fun hlt hclash => absurd hclash (Item.not_clashes hlt)⟩

/-- **The texts that are parsed rightly.** -/
theorem parsedRightly_iff : ParsedRightly string ↔ Sound string := by
  constructor
  · rintro h sign items tail haccepted htail rfl
    obtain ⟨v, hv, -⟩ := (run_zero haccepted.digits).1 haccepted
    have hnil : tail = [] := by
      by_contra hne
      have hbeyond := h.inside
      rw [parseISO8601Duration_text _ haccepted.cut htail, hv] at hbeyond
      dsimp only at hbeyond
      rw [if_neg hne] at hbeyond
      cases hbeyond
    subst hnil
    refine ⟨rfl, ?_⟩
    by_cases hexact : IsDuration items ∧ IsInt (sign.value * total items)
    · exact .inl hexact
    · right
      have hzero := h.other fun sign' items' hduration heq hint => by
        obtain ⟨rfl, rfl, -⟩ :=
          durationText_inj haccepted.cut hduration.cut (forall_mem_nil _) heq
        exact hexact ⟨hduration, hint⟩
      rw [append_nil, parseISO8601Duration_accepted _ haccepted, ofInt_eq_zero_iff] at hzero
      cases sign
      · rwa [Sign.value, Int.one_mul] at hzero
      · rwa [Sign.value, Int.one_mul] at hzero
      · rwa [Sign.value, Int.neg_one_mul, Int.dvd_neg] at hzero
  · intro h
    have hcases : parseISO8601Duration (some string) = ⟨0, false⟩ ∨
        ∃ sign items, string = durationText sign items ∧ Accepted items := by
      rcases exists_sign string with ⟨sign, rest, rfl⟩ | hrefused
      · obtain ⟨items, tail, hcut, htail, rfl⟩ := exists_items rest
        have htext : sign.text ++ ch 'P' :: (items.flatMap Item.text ++ tail) =
            durationText sign items ++ tail := by
          rw [durationText, append_assoc, cons_append]
        rw [htext] at h ⊢
        by_cases haccepted : Accepted items
        · obtain ⟨rfl, -⟩ := h sign items tail haccepted htail rfl
          exact .inr ⟨sign, items, append_nil _, haccepted⟩
        · left
          rw [parseISO8601Duration_text _ hcut htail,
            (run_zero fun x hx => (hcut x hx).1).2 haccepted]
      · exact .inl hrefused
    rcases hcases with hrefused | ⟨sign, items, rfl, haccepted⟩
    · refine ⟨by rw [hrefused], fun sign items hduration heq hint => ?_, fun _ => by rw [hrefused]⟩
      rw [heq, parseISO8601Duration_accepted _ hduration.accepted] at hrefused
      rw [heq, parseISO8601Duration_accepted _ hduration.accepted]
      exact toInt_ofInt_of_isInt hint
    · rw [← append_nil (durationText sign items)] at h
      obtain ⟨-, hsound⟩ := h sign items [] haccepted (forall_mem_nil _) rfl
      refine ⟨by rw [parseISO8601Duration_accepted _ haccepted],
        fun sign' items' hduration heq hint => ?_, fun hother => ?_⟩
      · rw [heq, parseISO8601Duration_accepted _ hduration.accepted]
        exact toInt_ofInt_of_isInt hint
      · rw [parseISO8601Duration_accepted _ haccepted]
        rcases hsound with ⟨hduration, hint⟩ | hdvd
        · exact absurd hint (hother sign items hduration rfl)
        · exact ofInt_eq_zero_iff.mpr (Dvd.dvd.mul_left hdvd _)

end Ong.DrvCommon
