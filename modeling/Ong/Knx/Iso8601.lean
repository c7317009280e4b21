import Ong.DrvCommon.Iso8601
import Ong.Lib.Delimiter
import Ong.Lib.Printf

/-!
# Durations of datapoints

A duration with milliseconds is a duration of the drivers, a comma and three digits.  A component
that is zero is left out by a precision of zero.

## Main results

* `parseISO8601Duration_ms_setVar`: what comes back
* `durations_iff`: the texts that are parsed rightly, and the durations that come back
-/

namespace Ong.Knx

open DrvCommon List Int32
open Printf (ascii decimal padded atoi)

/-! ## Writing -/

/-- The buffer of `RenderVarIntoTemplate`. -/
def renderVarIntoTemplate (text : List UInt8) : List UInt8 := text.take 1023

/-- `tmp = s / unit`: the number of units, and the rest of `s`. -/
def divide (s unit : Int32) : Int32 × Int32 :=
  let tmp := s / unit
  if 0 < tmp then (tmp, s - unit * tmp) else (0, s)

/-- `"%.*d%.*s"` for a number and its letter. -/
def component (precision : Nat) (n : Int32) (letter : Char) : List UInt8 :=
  decimal (if n ≠ 0 then precision else 0) n.toInt ++ [ch letter].take (if n ≠ 0 then 1 else 0)

def setVarAsISO8601Duration (s ms : Int32) : List UInt8 :=
  let sign := if 0 ≤ s then 0 else 1
  if s = 0 ∧ ms ≠ 0 then
    renderVarIntoTemplate ((ascii "-").take (if 0 < ms then 0 else 1) ++ ascii "P0S," ++
      padded 3 (if 0 < ms then ms else -1 * ms).toInt)
  else
    let s := if sign ≠ 0 then -1 * s else s
    let (day, s) := divide s (24 * 60 * 60)
    let (hour, s) := divide s (60 * 60)
    let (minute, second) := divide s 60
    renderVarIntoTemplate ((ascii "-").take sign ++ ascii "P" ++ component 6 day 'D' ++
      component 2 hour 'H' ++ component 2 minute 'M' ++ component 2 second 'S' ++
      (ascii ",").take (if 0 < ms then 1 else 0) ++ decimal (if 0 < ms then 3 else 0) ms.toInt)

/-! ## Reading -/

variable (string : List UInt8)

/-- The string in front of the comma, and the milliseconds behind it if there are any. -/
def readMs (ms : Int32) : List UInt8 × Int32 :=
  match string.findIdx? (· == ch ',') with
  | none => (string, ms)
  | some i =>
    let rest := string.drop (i + 1)
    let ms :=
      if rest ≠ [] then Int32.ofInt (atoi (if 3 < rest.length then rest.take 3 else rest)) else ms
    (string.take i, ms)

/-- The seconds and the milliseconds; nothing if a null pointer is used. -/
def parseISO8601Duration_ms (ms : Option Int32) :
    Option (Parsed × Option Int32) :=
  let (string, ms) :=
    match ms with
    | none => (string, none)
    | some ms => ((readMs string ms).1, some (readMs string ms).2)
  let ts := parseISO8601Duration (some string)
  if ts.value = 0 ∧ string.head? = some (ch '-') then ms.map fun ms => (ts, some (-1 * ms))
  else some (ts, ms)

/-- A duration is read as it was written, also if the milliseconds were `old` before. -/
def ComesBack (s ms old : Int32) : Prop :=
  parseISO8601Duration_ms (setVarAsISO8601Duration s ms) (some old) = some (⟨s, false⟩, some ms)

section Written

variable {s ms old n day hour minute second : Int32} {p : Nat} {letter : Char} {sign : Sign}
  {items : List Item}

theorem divide_spec (unit : Int32) (hs : 0 ≤ s.toInt) (hunit : 0 < unit.toInt) :
    (divide s unit).1.toInt = s.toInt / unit.toInt ∧
      (divide s unit).2.toInt = s.toInt % unit.toInt := by
  have hlt := s.toInt_lt
  have hdiv : (s / unit).toInt = s.toInt / unit.toInt := by
    rw [toInt_div_of_ne_left s unit (by rintro rfl; exact absurd hs (by decide)),
      Int.tdiv_eq_ediv_of_nonneg hs]
  have hle : unit.toInt * (s.toInt / unit.toInt) ≤ s.toInt := Int.mul_ediv_self_le (by omega)
  have hmod := Int.emod_add_mul_ediv s.toInt unit.toInt
  have hquotient : 0 ≤ s.toInt / unit.toInt := Int.ediv_nonneg hs (by omega)
  have hproduct : 0 ≤ unit.toInt * (s.toInt / unit.toInt) := Int.mul_nonneg (by omega) hquotient
  rw [divide]
  split
  · refine ⟨hdiv, ?_⟩
    rw [toInt_sub, toInt_mul, hdiv]
    rw [Int.bmod_eq_of_le (n := unit.toInt * (s.toInt / unit.toInt)) (by omega) (by omega),
      Int.bmod_eq_of_le (by omega) (by omega)]
    omega
  · next hpos =>
    rw [lt_iff_toInt_lt, toInt_zero, hdiv] at hpos
    have hzero : s.toInt / unit.toInt = 0 := by omega
    rw [hzero, Int.mul_zero, Int.add_zero] at hmod
    exact ⟨hzero.symm, hmod.symm⟩

/-- The component that is written, if one is. -/
def componentItems (precision : Nat) (n : Int32) (letter : Char) : List Item :=
  if n = 0 then [] else [⟨decimal precision n.toInt, ch letter⟩]

theorem component_eq : component p n letter = (componentItems p n letter).flatMap Item.text := by
  rw [component, componentItems]
  by_cases hn : n = 0
  · subst hn
    rfl
  · rw [if_pos hn, if_pos hn, if_neg hn, flatMap_singleton]
    rfl

theorem componentItems_sublist :
    (componentItems p n letter).Sublist [⟨decimal p n.toInt, ch letter⟩] := by
  rw [componentItems]
  split
  · exact nil_sublist _
  · exact Sublist.refl _

theorem total_componentItems (hn : 0 ≤ n.toInt) : total (componentItems p n letter) =
    n.toInt * Item.weight ⟨[], ch letter⟩ := by
  have hlt := n.toInt_lt
  rw [componentItems]
  split
  · next hzero =>
    rw [hzero, toInt_zero, Int.zero_mul]
    rfl
  · rw [total, map_singleton, sum_singleton, Item.number,
      Printf.value_decimal hn (by omega)]
    rfl

theorem length_component_le (letter : Char) (hn : 0 ≤ n.toInt) (hlt : n.toInt.natAbs < 10 ^ p) (hp : p ≠ 0) :
    (component p n letter).length ≤ p + 1 := by
  rw [component]
  by_cases hzero : n = 0
  · subst hzero
    exact Nat.zero_le _
  · rw [if_pos hzero, if_pos hzero, length_append, Printf.length_decimal hn hlt hp]
    rfl

/-- The components of a duration. -/
def writtenItems (day hour minute second : Int32) : List Item :=
  componentItems 6 day 'D' ++ (componentItems 2 hour 'H' ++ (componentItems 2 minute 'M' ++
    componentItems 2 second 'S'))

theorem accepted_writtenItems (hday : 0 ≤ day.toInt) (hhour : 0 ≤ hour.toInt)
    (hminute : 0 ≤ minute.toInt) (hsecond : 0 ≤ second.toInt) :
    Accepted (writtenItems day hour minute second) := by
  have hsublist : (writtenItems day hour minute second).Sublist
      [⟨decimal 6 day.toInt, ch 'D'⟩, ⟨decimal 2 hour.toInt, ch 'H'⟩,
        ⟨decimal 2 minute.toInt, ch 'M'⟩, ⟨decimal 2 second.toInt, ch 'S'⟩] :=
    componentItems_sublist.append (componentItems_sublist.append
      (componentItems_sublist.append componentItems_sublist))
  have hordered : List.Pairwise (fun x y => Item.rank x < Item.rank y)
      [⟨decimal 6 day.toInt, ch 'D'⟩, ⟨decimal 2 hour.toInt, ch 'H'⟩,
        ⟨decimal 2 minute.toInt, ch 'M'⟩, ⟨decimal 2 second.toInt, ch 'S'⟩] :=
    pairwise_map.mp (show [0, 2, 3, 4].Pairwise (· < ·) by decide)
  refine ⟨fun x hx => ?_, fun x hx c hc => ?_, (hordered.sublist hsublist).imp fun hlt hclash =>
    absurd hclash (Item.not_clashes hlt)⟩
  · have hmem := hsublist.subset hx
    simp only [mem_cons, not_mem_nil, or_false] at hmem
    rcases hmem with rfl | rfl | rfl | rfl
    all_goals
      dsimp only
      decide
  · have hmem := hsublist.subset hx
    simp only [mem_cons, not_mem_nil, or_false] at hmem
    rcases hmem with rfl | rfl | rfl | rfl
    · exact Printf.isDigit_of_mem_decimal hday hc
    · exact Printf.isDigit_of_mem_decimal hhour hc
    · exact Printf.isDigit_of_mem_decimal hminute hc
    · exact Printf.isDigit_of_mem_decimal hsecond hc

theorem total_writtenItems (hday : 0 ≤ day.toInt) (hhour : 0 ≤ hour.toInt)
    (hminute : 0 ≤ minute.toInt) (hsecond : 0 ≤ second.toInt) :
    total (writtenItems day hour minute second) =
      day.toInt * 86400 + hour.toInt * 3600 + minute.toInt * 60 + second.toInt := by
  rw [writtenItems, total_append, total_append, total_append, total_componentItems hday,
    total_componentItems hhour, total_componentItems hminute, total_componentItems hsecond]
  have hd : Item.weight ⟨[], ch 'D'⟩ = 86400 := rfl
  have hh : Item.weight ⟨[], ch 'H'⟩ = 3600 := rfl
  have hm : Item.weight ⟨[], ch 'M'⟩ = 60 := rfl
  have hs : Item.weight ⟨[], ch 'S'⟩ = 1 := rfl
  rw [hd, hh, hm, hs]
  omega

theorem comma_notMem_durationText (h : Accepted items) :
    ∀ c ∈ durationText sign items, (c == ch ',') = false := by
  intro c hc
  have hsign : ∀ sign : Sign, ∀ c ∈ sign.text, (c == ch ',') = false := by
    rintro (_ | _ | _) <;> exact all_iff_forall_prop.mp (by decide)
  have hletters : ∀ c ∈ [ch 'D', ch 'T', ch 'H', ch 'M', ch 'S'], (c == ch ',') = false :=
    all_iff_forall_prop.mp (by decide)
  rcases mem_append.mp hc with hc | hc
  · exact hsign sign c hc
  · rcases mem_cons.mp hc with rfl | hc
    · decide
    · obtain ⟨x, hx, hcx⟩ := mem_flatMap.mp hc
      rcases mem_append.mp hcx with hcx | hcx
      · have hdigit := h.digits x hx c hcx
        refine beq_eq_false_iff_ne.mpr ?_
        rintro rfl
        exact absurd hdigit (by decide)
      · rw [mem_singleton.mp hcx]
        exact hletters _ (h.known x hx)

/-- The text of a duration, and of its milliseconds if there are any. -/
def writtenText (sign : Sign) (items : List Item) (ms : Int32) : List UInt8 :=
  durationText sign items ++ if ms = 0 then [] else ch ',' :: decimal 3 ms.toInt

theorem length_decimal_ms (hpos : 0 ≤ ms.toInt) (hlt : ms.toInt < 1000) :
    (decimal 3 ms.toInt).length = 3 :=
  Printf.length_decimal hpos (show ms.toInt.natAbs < 1000 by omega) (by decide)

theorem readMs_writtenText (h : Accepted items) (hpos : 0 ≤ ms.toInt) (hlt : ms.toInt < 1000) :
    readMs (writtenText sign items ms) old = (durationText sign items, if ms = 0 then old else ms)
      := by
  rw [writtenText, readMs]
  by_cases hms : ms = 0
  · rw [if_pos hms, if_pos hms, append_nil,
      findIdx?_eq_none_iff.mpr (comma_notMem_durationText h)]
  · have hlen : (decimal 3 ms.toInt).length = 3 :=
      Printf.length_decimal hpos (show ms.toInt.natAbs < 1000 by omega) (by decide)
    have hvalue : Decimal.value (decimal 3 ms.toInt) = ms.toInt :=
      Printf.value_decimal hpos (by omega)
    have hatoi : atoi (decimal 3 ms.toInt) = ms.toInt := by
      rw [Printf.atoi_digits (Printf.decimal_ne_nil (by decide))
        (fun _ => Printf.isDigit_of_mem_decimal hpos) (by omega) (by omega), hvalue]
    have hrest : (durationText sign items ++ ch ',' :: decimal 3 ms.toInt).drop
        ((durationText sign items).length + 1) = decimal 3 ms.toInt := drop_length_add_append 1
    rw [if_neg hms, if_neg hms, Delimiter.findIdx?_append_cons (p := fun c => c == ch ',')
      (beq_self_eq_true _) (comma_notMem_durationText h)]
    dsimp only
    rw [hrest, if_pos (Printf.decimal_ne_nil (by decide)), if_neg (by omega), hatoi, take_left,
      ofInt_toInt]

theorem parseISO8601Duration_ms_writtenText (h : Accepted items) (hpos : 0 ≤ ms.toInt)
    (hlt : ms.toInt < 1000) (hs : sign.value * total items = s.toInt)
    (hsign : s = 0 → sign = .absent) :
    parseISO8601Duration_ms (writtenText sign items ms) (some old) =
      some (⟨s, false⟩, some (if ms = 0 then old else ms)) := by
  have hparsed := parseISO8601Duration_accepted sign h
  rw [hs, ofInt_toInt] at hparsed
  rw [parseISO8601Duration_ms, readMs_writtenText h hpos hlt]
  rw [hparsed, if_neg]
  rintro ⟨hzero, hhead⟩
  rw [hsign hzero] at hhead
  exact absurd (Option.some.inj hhead) (show ch 'P' ≠ ch '-' by decide)

theorem pos_iff_of_nonneg (hpos : 0 ≤ ms.toInt) : 0 < ms ↔ ms ≠ 0 := by
  rw [lt_iff_toInt_lt, ← toInt_inj.ne, toInt_zero]
  omega

theorem setVarAsISO8601Duration_zero (hpos : 0 ≤ ms.toInt) (hlt : ms.toInt < 1000) (hms : ms ≠ 0) :
    setVarAsISO8601Duration 0 ms = writtenText .absent [⟨decimal 1 0, ch 'S'⟩] ms := by
  have hpadded : padded 3 ms.toInt = decimal 3 ms.toInt := by
    rw [padded, if_neg (Int.not_lt.mpr hpos)]
    rfl
  have hlen := length_decimal_ms hpos hlt
  have hp : 0 < ms := (pos_iff_of_nonneg hpos).mpr hms
  rw [setVarAsISO8601Duration]
  rw [if_pos ⟨rfl, hms⟩, if_pos hp, if_pos hp, hpadded, writtenText, if_neg hms,
    renderVarIntoTemplate, take_of_length_le]
  · rfl
  · simp only [length_append, length_take, Printf.length_ascii, hlen]
    decide

/-- The numbers of days, hours, minutes and seconds of a duration, as they are written. -/
structure Units (day hour minute second : Int32) : Prop where
  day : 0 ≤ day.toInt ∧ day.toInt < 10 ^ 6
  hour : 0 ≤ hour.toInt ∧ hour.toInt < 10 ^ 2
  minute : 0 ≤ minute.toInt ∧ minute.toInt < 10 ^ 2
  second : 0 ≤ second.toInt ∧ second.toInt < 10 ^ 2

theorem divide_units (hs : 0 ≤ s.toInt) {day hour minute : Int32 × Int32}
    (hday : divide s (24 * 60 * 60) = day) (hhour : divide day.2 (60 * 60) = hour)
    (hminute : divide hour.2 60 = minute) :
    Units day.1 hour.1 minute.1 minute.2 ∧ day.1.toInt * 86400 + hour.1.toInt * 3600 +
      minute.1.toInt * 60 + minute.2.toInt = s.toInt := by
  have hlt := s.toInt_lt
  have hd : (24 * 60 * 60 : Int32).toInt = 86400 := rfl
  have hh : (60 * 60 : Int32).toInt = 3600 := rfl
  have hm : (60 : Int32).toInt = 60 := rfl
  obtain ⟨hday₁, hday₂⟩ := divide_spec (24 * 60 * 60) hs (by decide)
  rw [hday, hd] at hday₁ hday₂
  obtain ⟨hhour₁, hhour₂⟩ := divide_spec (s := day.2) (60 * 60) (by omega) (by decide)
  rw [hhour, hh] at hhour₁ hhour₂
  obtain ⟨hminute₁, hminute₂⟩ := divide_spec (s := hour.2) 60 (by omega) (by decide)
  rw [hminute, hm] at hminute₁ hminute₂
  refine ⟨⟨?_, ?_, ?_, ?_⟩, ?_⟩ <;> omega

theorem renderVarIntoTemplate_units {sign : Nat} (hpos : 0 ≤ ms.toInt) (hlt : ms.toInt < 1000)
    (h : Units day hour minute second) :
    renderVarIntoTemplate ((ascii "-").take sign ++ ascii "P" ++ component 6 day 'D' ++
      component 2 hour 'H' ++ component 2 minute 'M' ++ component 2 second 'S' ++
      (ascii ",").take (if 0 < ms then 1 else 0) ++ decimal (if 0 < ms then 3 else 0) ms.toInt) =
    writtenText (if sign = 0 then .absent else .minus) (writtenItems day hour minute second) ms
      := by
  have hsign : ((ascii "-").take sign) = Sign.text (if sign = 0 then .absent else .minus) := by
    cases sign with
    | zero => rfl
    | succ sign => exact congrArg (ch '-' :: ·) take_nil
  have hms : (ascii ",").take (if 0 < ms then 1 else 0) ++
      decimal (if 0 < ms then 3 else 0) ms.toInt =
        if ms = 0 then [] else ch ',' :: decimal 3 ms.toInt := by
    by_cases hzero : ms = 0
    · subst hzero
      rfl
    · have hp := (pos_iff_of_nonneg hpos).mpr hzero
      rw [if_pos hp, if_pos hp, if_neg hzero]
      rfl
  have hday := length_component_le (p := 6) 'D' h.day.1 (by have := h.day; omega)
    (by decide)
  have hhour := length_component_le (p := 2) 'H' h.hour.1 (by have := h.hour; omega)
    (by decide)
  have hminute := length_component_le (p := 2) 'M' h.minute.1
    (by have := h.minute; omega) (by decide)
  have hsecond := length_component_le (p := 2) 'S' h.second.1
    (by have := h.second; omega) (by decide)
  have hlen : (if ms = 0 then [] else ch ',' :: decimal 3 ms.toInt).length ≤ 4 := by
    have hlen := length_decimal_ms hpos hlt
    split
    · exact Nat.zero_le 4
    · rw [length_cons, hlen]
  have hminus : (Sign.text (if sign = 0 then .absent else .minus)).length ≤ 1 := by
    split <;> decide
  rw [append_assoc _ ((ascii ",").take _), hms, hsign, renderVarIntoTemplate,
    take_of_length_le]
  · simp only [writtenText, durationText, writtenItems, flatMap_append, ← component_eq,
      append_assoc, cons_append]
    rfl
  · simp only [length_append, Printf.length_ascii]
    have hp : "P".toList.length = 1 := rfl
    omega

theorem setVarAsISO8601Duration_of_ne (hpos : 0 ≤ ms.toInt) (hlt : ms.toInt < 1000)
    (hzero : ¬(s = 0 ∧ ms ≠ 0)) (hs : s ≠ minValue) : ∃ day hour minute second : Int32,
      setVarAsISO8601Duration s ms =
        writtenText (if 0 ≤ s then .absent else .minus) (writtenItems day hour minute second) ms ∧
      Units day hour minute second ∧ day.toInt * 86400 + hour.toInt * 3600 + minute.toInt * 60 +
        second.toInt = s.toInt.natAbs := by
  have hge := s.le_toInt
  have hne : s.toInt ≠ -2 ^ 31 := fun h => hs (toInt_inj.mp h)
  have habs : (if (if 0 ≤ s then 0 else 1) ≠ 0 then -1 * s else s).toInt = s.toInt.natAbs := by
    by_cases hsign : 0 ≤ s
    · rw [if_pos hsign, if_neg (fun h => h rfl)]
      rw [le_iff_toInt_le, toInt_zero] at hsign
      omega
    · rw [if_neg hsign, if_pos (by decide), toInt_mul]
      rw [le_iff_toInt_le, toInt_zero] at hsign
      rw [show (-1 : Int32).toInt = -1 from rfl, Int.bmod_eq_of_le (by omega) (by omega)]
      omega
  obtain ⟨hunits, htotal⟩ := divide_units (by rw [habs]; exact Int.natCast_nonneg _) rfl rfl rfl
  refine ⟨_, _, _, _, ?_, hunits, htotal.trans habs⟩
  rw [setVarAsISO8601Duration]
  dsimp only
  rw [if_neg hzero, renderVarIntoTemplate_units hpos hlt hunits]
  by_cases hsign : 0 ≤ s
  · rw [if_pos hsign, if_pos hsign, if_pos rfl]
  · rw [if_neg hsign, if_neg hsign, if_neg (by decide)]

theorem setVarAsISO8601Duration_eq (hs : s ≠ minValue) (hpos : 0 ≤ ms.toInt)
    (hlt : ms.toInt < 1000) : ∃ sign items,
      setVarAsISO8601Duration s ms = writtenText sign items ms ∧ Accepted items ∧
        sign.value * total items = s.toInt ∧ (s = 0 → sign = .absent) := by
  by_cases hzero : s = 0 ∧ ms ≠ 0
  · obtain ⟨rfl, hms⟩ := hzero
    refine ⟨.absent, [⟨decimal 1 0, ch 'S'⟩], setVarAsISO8601Duration_zero hpos hlt hms, ?_, rfl,
      fun _ => rfl⟩
    refine ⟨?_, ?_, pairwise_singleton _ _⟩
    · exact forall_mem_singleton.mpr (by decide)
    · exact forall_mem_singleton.mpr fun c => Printf.isDigit_of_mem_decimal (Int.le_refl 0)
  · obtain ⟨day, hour, minute, second, htext, hunits, htotal⟩ :=
      setVarAsISO8601Duration_of_ne hpos hlt hzero hs
    have hday := hunits.day.1
    have hhour := hunits.hour.1
    have hminute := hunits.minute.1
    have hsecond := hunits.second.1
    refine ⟨_, _, htext, accepted_writtenItems hday hhour hminute hsecond, ?_, ?_⟩
    · rw [total_writtenItems hday hhour hminute hsecond, htotal]
      split
      · next hsign =>
        rw [le_iff_toInt_le, toInt_zero] at hsign
        rw [Sign.value]
        omega
      · next hsign =>
        rw [le_iff_toInt_le, toInt_zero, Int.not_le] at hsign
        rw [Sign.value]
        omega
    · rintro rfl
      rfl

/-- **What comes back of a duration.** -/
theorem parseISO8601Duration_ms_setVar (hs : s ≠ minValue) (hpos : 0 ≤ ms.toInt)
    (hlt : ms.toInt < 1000) :
    parseISO8601Duration_ms (setVarAsISO8601Duration s ms) (some old) =
      some (⟨s, false⟩, some (if ms = 0 then old else ms)) := by
  obtain ⟨sign, items, htext, haccepted, htotal, hsign⟩ := setVarAsISO8601Duration_eq hs hpos hlt
  rw [htext, parseISO8601Duration_ms_writtenText haccepted hpos hlt htotal hsign]

end Written

/-- The texts that are parsed rightly, and the durations that come back. -/
theorem durations_iff (s ms old : Int32) (hs : s ≠ Int32.minValue)
    (hpos : 0 ≤ ms) (hlt : ms < 1000) :
    (ParsedRightly string ↔ Sound string) ∧ (ComesBack s ms old ↔ ms ≠ 0 ∨ old = 0) := by
  rw [Int32.le_iff_toInt_le, Int32.toInt_zero] at hpos
  rw [Int32.lt_iff_toInt_lt, show (1000 : Int32).toInt = 1000 from rfl] at hlt
  refine ⟨parsedRightly_iff string, ?_⟩
  rw [ComesBack, parseISO8601Duration_ms_setVar hs hpos hlt]
  by_cases hms : ms = 0
  · rw [if_pos hms, hms]
    constructor
    · intro h
      exact .inr (Option.some.inj (Prod.mk.inj (Option.some.inj h)).2)
    · rintro (hne | rfl)
      · exact absurd rfl hne
      · rfl
  · rw [if_neg hms]
    exact iff_of_true rfl (.inl hms)

theorem durations_iff_twelve : (ParsedRightly (ascii "P12S,123") ↔ Sound (ascii "P12S,123")) ∧
    (ComesBack 12 123 0 ↔ (123 : Int32) ≠ 0 ∨ (0 : Int32) = 0) :=
  durations_iff (ascii "P12S,123") 12 123 0 (by decide) (by decide) (by decide)

/-- Behind a number without a letter the terminator is passed over; and no milliseconds are written
for none. -/
theorem not_parsedRightly_number : ¬ParsedRightly (ascii "P5") ∧ ¬ComesBack 12 0 999 := by
  refine ⟨fun h => ?_, ?_⟩
  · exact absurd h.inside (by decide)
  · unfold ComesBack
    decide

end Ong.Knx
