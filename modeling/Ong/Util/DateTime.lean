import Mathlib.Tactic.Linarith
import Mathlib.Tactic.Ring
import Ong.Lib.Calendar
import Ong.Util.Duration

/-!
# Dates with times

`parseDateTime` and `formatDateTime` of the format utilities: the generic functions for dates and
times with both parts.  The calendar is lenient, and Gregorian for all dates.

## Main results

* `parseDateTime_text`: what is returned for such a text
* `exists_text_of_parseDateTime`: nothing else is accepted
* `parse_exact_iff`: when durations and fractions of seconds are exact
* `parseDateTime_formatDateTime_iff`: which dates come back
-/

namespace Ong.Util

open StringReader List Calendar M2M

/-! ## Time zones -/

/-- A time zone with a fixed offset: it never uses daylight time. -/
structure TimeZone where
  rawOffset : Int

/-- An offset of hours and minutes, in milliseconds, where they are in range. -/
def offsetOf (hours minutes : Nat) : Option Int :=
  if hours ≤ 23 ∧ minutes ≤ 59 then some ((hours * 60 + minutes) * 60000) else none

/-- The hours and minutes of a custom identifier: `hh:mm`, `hhmm` or `hh`, with one digit for the
hours where they are below ten. -/
def customOffset (text : JavaString) : Option Int :=
  let digits := text.takeWhile isDigit
  match text.dropWhile isDigit with
  | [] =>
    if digits = [] then none
    else if digits.length ≤ 2 then offsetOf (numeral digits) 0
    else if digits.length ≤ 4 then offsetOf (numeral digits / 100) (numeral digits % 100)
    else none
  | c :: minutes =>
    if c = ch ':' ∧ digits ≠ [] ∧ digits.length ≤ 2 ∧ minutes.length = 2 ∧
        minutes.all isDigit = true then
      offsetOf (numeral digits) (numeral minutes)
    else none

/-- `TimeZone.getTimeZone` for `GMT` with something behind it; what it does not understand is
`GMT`. -/
def getTimeZone (id : JavaString) : TimeZone :=
  match id.drop 3 with
  | [] => ⟨0⟩
  | c :: text =>
    if c = ch '+' then ⟨(customOffset text).getD 0⟩
    else if c = ch '-' then ⟨-(customOffset text).getD 0⟩
    else ⟨0⟩

/-! ## The calendar -/

/-- The fields that are set in a calendar. -/
structure Fields where
  year : Int
  month : Int
  day : Int
  hour : Int
  minute : Int
  second : Int
  millis : Int

/-- Milliseconds of local time; fields out of range go on counting. -/
def Fields.localMillis (f : Fields) : Int :=
  daysFromCivil ⟨f.year + (f.month - 1) / 12, (f.month - 1) % 12 + 1, f.day⟩ * 86400000 +
    (f.hour * 3600000 + f.minute * 60000 + f.second * 1000 + f.millis)

/-- `calendar.getTime().getTime()` for fields set in a time zone -/
def Fields.getTime (f : Fields) (timeZone : TimeZone) : Int := f.localMillis - timeZone.rawOffset

/-- The fields of an instant. -/
def Fields.ofTime (time : Int) (timeZone : TimeZone) : Fields :=
  let millis := time + timeZone.rawOffset
  let date := civilFromDays (millis / 86400000)
  let millisOfDay := millis % 86400000
  ⟨date.year, date.month, date.day, millisOfDay / 3600000, millisOfDay % 3600000 / 60000,
    millisOfDay % 60000 / 1000, millisOfDay % 1000⟩

/-! ## Parsing -/

def minDate : Int := 0

def maxDate : Int := 253402246799999

/-- `L_TIMEZONE` and `H_TIMEZONE` -/
def timeZoneMask : Mask := Mask.ofChars (javaString "-+0123456789:")

variable (r : StringReader)

/-- The sign of the year. -/
def readSign : Except ParseException StringReader :=
  match r.rest with
  | [] => .error r.failure
  | c :: rest =>
    if c = ch '-' then
      .error ⟨javaString "Parsed year is below the minimum value (1970)", r.offset⟩
    else if c = ch '+' then .ok { r with rest }
    else .ok r

/-- The year, the month and the day. -/
def readDate : Except ParseException (Int × Int × Int × StringReader) := do
  let r ← readSign r
  let (year, r) ← r.readIntAndCheckLength 1 9
  let r ← r.checkCurrentAndSkip (ch '-')
  let (month, r) ← r.readIntAndCheckLength 2 2
  let r ← r.checkCurrentAndSkip (ch '-')
  let (day, r) ← r.readIntAndCheckLength 2 2
  return (year, month, day, r)

/-- The milliseconds behind the seconds, where a point stands. -/
def readMillis : Except ParseException (Int × StringReader) :=
  match r.rest with
  | [] => .ok (0, r)
  | c :: rest =>
    if c = ch '.' then do
      let (millis, r') ← StringReader.readInt { r with rest }
      -- the digits that were read are counted, and taken as they are
      let length := (StringReader.digits { r with rest }).length
      if length < 1 ∨ 3 < length then .error r'.failure else .ok (millis, r')
    else .ok (0, r)

/-- The hours, the minutes, the seconds and the milliseconds. -/
def readTime : Except ParseException (Int × Int × Int × Int × StringReader) := do
  let (hour, r) ← r.readIntAndCheckLength 2 2
  let r ← r.checkCurrentAndSkip (ch ':')
  let (minute, r) ← r.readIntAndCheckLength 2 2
  let r ← r.checkCurrentAndSkip (ch ':')
  let (second, r) ← r.readIntAndCheckLength 2 2
  let (millis, r) ← readMillis r
  return (hour, minute, second, millis, r)

/-- The identifier of the time zone. -/
def readTimeZone : JavaString × StringReader :=
  match r.rest with
  | [] => (javaString "GMT", r)
  | c :: rest =>
    if c = ch 'Z' then (javaString "GMT", { r with rest })
    else
      let (text, r) := r.read timeZoneMask
      (javaString "GMT" ++ text, r)

/-- The checks of the year and of the instant. -/
def checkDates (year timeInMillis : Int) : Except ParseException Int :=
  if year > 9999 then
    .error ⟨javaString "Parsed year is above the maximum value (9999)", r.offset⟩
  else if year < 1970 then
    .error ⟨javaString "Parsed year is under the minimum value (1970)", r.offset⟩
  else if timeInMillis < minDate ∨ timeInMillis > maxDate then
    .error ⟨javaString "Parsed datetime is above the maximum value (9999-12-31T08:59:59.999Z)",
      r.offset⟩
  else .ok timeInMillis

/-- `parseDateTime`, which is `parseInternalDateTime(true, true, dateTime)` -/
def parseDateTime (dateTime : JavaString) : Except ParseException Int := do
  let (year, month, day, r) ← readDate (StringReader.ofMessage dateTime)
  let r ← r.checkCurrentAndSkip (ch 'T')
  let (hour, minute, second, millis, r) ← readTime r
  let (timeZone, r) := readTimeZone r
  r.checkTerminated
  checkDates r year
    (Fields.getTime ⟨year, month, day, hour, minute, second, millis⟩ (getTimeZone timeZone))

/-! ## Formatting -/

/-- The time zone behind the time. -/
def formatTimeZone (timeZone : TimeZone) : JavaString :=
  let offset := timeZone.rawOffset
  if offset = 0 then [ch 'Z']
  else
    let absOffset := if offset < 0 then -offset else offset
    [if offset < 0 then ch '-' else ch '+'] ++
      appendPadded (absOffset.tdiv Designator.hour.inMillis) 2 ++ [ch ':'] ++
      appendPadded ((absOffset.tmod Designator.hour.inMillis).tdiv Designator.minute.inMillis) 2

/-- `formatDateTime`, which is `formatInternalDateTime` with date and time -/
def formatDateTime (date : Int) (timeZone : TimeZone) : JavaString :=
  let calendar := Fields.ofTime date timeZone
  (if calendar.year < 0 then [ch '-'] else []) ++ appendPadded calendar.year 4 ++ [ch '-'] ++
    appendPadded calendar.month 2 ++ [ch '-'] ++ appendPadded calendar.day 2 ++ [ch 'T'] ++
    appendPadded calendar.hour 2 ++ [ch ':'] ++ appendPadded calendar.minute 2 ++ [ch ':'] ++
    appendPadded calendar.second 2 ++ [ch '.'] ++ appendPadded calendar.millis 3 ++
    formatTimeZone timeZone

/-! ## Texts of dates with times -/

/-- A text in the shape of a date with a time. -/
structure DateTimeText where
  plus : Bool
  year : JavaString
  month : JavaString
  day : JavaString
  hour : JavaString
  minute : JavaString
  second : JavaString
  fraction : JavaString
  zone : JavaString

namespace DateTimeText

variable (d : DateTimeText)

def dateText : JavaString :=
  d.year ++ ch '-' :: (d.month ++ ch '-' :: d.day)

def timeText : JavaString :=
  d.hour ++ ch ':' :: (d.minute ++ ch ':' :: d.second)

def fractionText : JavaString := if d.fraction = [] then [] else ch '.' :: d.fraction

/-- What stands in front of the fraction. -/
def whole : JavaString :=
  (if d.plus then [ch '+'] else []) ++ (d.dateText ++ ch 'T' :: d.timeText)

def text : JavaString := d.whole ++ (d.fractionText ++ d.zone)

structure WellFormed : Prop where
  year : Digits 1 9 d.year
  month : Digits 2 2 d.month
  day : Digits 2 2 d.day
  hour : Digits 2 2 d.hour
  minute : Digits 2 2 d.minute
  second : Digits 2 2 d.second
  fraction : Digits 0 3 d.fraction
  zone : d.zone = [ch 'Z'] ∨ NoDigit d.zone ∧ ∀ c ∈ d.zone, timeZoneMask.has c = true

/-- The fields, where the digits of the fraction are a number of milliseconds. -/
def fields (millis : Int) : Fields :=
  ⟨numeral d.year, numeral d.month, numeral d.day, numeral d.hour, numeral d.minute,
    numeral d.second, millis⟩

/-- The time zone that the parser asks for. -/
def timeZone : TimeZone :=
  getTimeZone (javaString "GMT" ++ if d.zone = [ch 'Z'] then [] else d.zone)

/-- The instant without the fraction. -/
def wholeTime : Int := (d.fields 0).getTime d.timeZone

/-- The years and the instants that are accepted. -/
structure InRange : Prop where
  year : 1970 ≤ numeral d.year ∧ numeral d.year ≤ 9999
  instant : minDate ≤ d.wholeTime ∧ d.wholeTime ≤ maxDate

end DateTimeText

section Reading

variable {d : DateTimeText} {message rest s : JavaString} {v : Int}

theorem noDigit_minus : NoDigit (ch '-' :: rest) := noDigit_cons.mpr rfl

theorem noDigit_colon : NoDigit (ch ':' :: rest) := noDigit_cons.mpr rfl

theorem readSign_eq {plus : Bool} {ds : JavaString} (hds : ∀ c ∈ ds, isDigit c = true)
    (hne : ds ≠ []) :
    readSign ⟨message, (if plus then [ch '+'] else []) ++ (ds ++ rest)⟩ =
      .ok ⟨message, ds ++ rest⟩ := by
  cases plus with
  | true => rfl
  | false =>
    obtain ⟨c, cs, rfl⟩ := exists_cons_of_ne_nil hne
    have hc := hds c mem_cons_self
    have hminus : c ≠ ch '-' := by
      rintro rfl
      cases hc
    have hplus : c ≠ ch '+' := by
      rintro rfl
      cases hc
    simp [readSign, hminus, hplus]

section

variable (h : d.WellFormed)

include h

theorem readDate_text (hrest : NoDigit rest) :
    readDate ⟨message, (if d.plus then [ch '+'] else []) ++ (d.dateText ++ rest)⟩ =
      .ok (numeral d.year, numeral d.month, numeral d.day, ⟨message, rest⟩) := by
  have hne : d.year ≠ [] := ne_nil_of_length_pos h.year.min_le
  simp only [DateTimeText.dateText, append_assoc, cons_append, readDate, bind, Except.bind,
    readSign_eq h.year.digits hne,
    readIntAndCheckLength_digits h.year (by decide) (by decide) noDigit_minus,
    readIntAndCheckLength_digits h.month (by decide) (by decide) noDigit_minus,
    readIntAndCheckLength_digits h.day (by decide) (by decide) hrest,
    checkCurrentAndSkip_cons]
  rfl

theorem readMillis_text (hrest : NoDigit rest) (hpoint : ∀ c ∈ rest.head?, c ≠ ch '.') :
    readMillis ⟨message, d.fractionText ++ rest⟩ = .ok (numeral d.fraction, ⟨message, rest⟩) := by
  unfold DateTimeText.fractionText
  split_ifs with hf
  · rw [hf]
    cases rest with
    | nil => rfl
    | cons c rest => simp [readMillis, hpoint c rfl]
  · have hread : readInt ⟨message, d.fraction ++ rest⟩ =
        .ok (numeral d.fraction, ⟨message, rest⟩) :=
      readInt_digits h.fraction hf (by decide) hrest
    have hdigits : StringReader.digits ⟨message, d.fraction ++ rest⟩ = d.fraction :=
      takeWhile_digits h.fraction.digits hrest
    have hlen : ¬(d.fraction.length < 1 ∨ 3 < d.fraction.length) := by
      have hpos := length_pos_of_ne_nil hf
      have hmax := h.fraction.le_max
      omega
    simp only [readMillis, cons_append, if_true, hread, hdigits, bind, Except.bind, if_neg hlen]

theorem readTime_text (hrest : NoDigit rest) (hpoint : ∀ c ∈ rest.head?, c ≠ ch '.') :
    readTime ⟨message, d.timeText ++ (d.fractionText ++ rest)⟩ =
      .ok (numeral d.hour, numeral d.minute, numeral d.second, numeral d.fraction,
        ⟨message, rest⟩) := by
  have hstop : NoDigit (d.fractionText ++ rest) := by
    unfold DateTimeText.fractionText
    split_ifs
    · exact hrest
    · exact noDigit_cons.mpr rfl
  simp only [DateTimeText.timeText, append_assoc, cons_append, readTime, bind, Except.bind,
    readIntAndCheckLength_digits h.hour (by decide) (by decide) noDigit_colon,
    readIntAndCheckLength_digits h.minute (by decide) (by decide) noDigit_colon,
    readIntAndCheckLength_digits h.second (by decide) (by decide) hstop,
    checkCurrentAndSkip_cons, readMillis_text h hrest hpoint]
  rfl

theorem noDigit_zone : NoDigit d.zone := by
  obtain hz | ⟨hz, -⟩ := h.zone
  · rw [hz]
    exact noDigit_cons.mpr rfl
  · exact hz

theorem ne_point_of_mem_zone : ∀ c ∈ d.zone, c ≠ ch '.' := by
  rintro c hc rfl
  obtain hz | ⟨-, hz⟩ := h.zone
  · rw [hz] at hc
    exact absurd (mem_singleton.mp hc) (by decide)
  · exact absurd (hz _ hc) (by decide)

theorem readTimeZone_text :
    readTimeZone ⟨message, d.zone⟩ =
      (javaString "GMT" ++ (if d.zone = [ch 'Z'] then [] else d.zone), ⟨message, []⟩) := by
  obtain hz | ⟨-, hz⟩ := h.zone
  · rw [hz]
    rfl
  · cases hzone : d.zone with
    | nil => rfl
    | cons c zone =>
      rw [hzone] at hz
      have hc : c ≠ ch 'Z' := by
        rintro rfl
        exact absurd (hz _ mem_cons_self) (by decide)
      have htake : (c :: zone).takeWhile timeZoneMask.has = c :: zone := by
        rw [takeWhile_eq_self_iff]
        exact hz
      have hdrop : (c :: zone).dropWhile timeZoneMask.has = [] := by
        rw [dropWhile_eq_nil_iff]
        exact hz
      have hne : c :: zone ≠ [ch 'Z'] := fun h => hc (cons.inj h).1
      simp only [readTimeZone, if_neg hc, if_neg hne, StringReader.read, htake, hdrop]

theorem parseDateTime_text_eq :
    parseDateTime d.text =
      checkDates ⟨d.text, []⟩ (numeral d.year) ((d.fields (numeral d.fraction)).getTime d.timeZone) := by
  have hdate : readDate ⟨d.text, (if d.plus then [ch '+'] else []) ++
      (d.dateText ++ ch 'T' :: (d.timeText ++ (d.fractionText ++ d.zone)))⟩ = _ :=
    readDate_text h (noDigit_cons.mpr rfl)
  have htime : readTime ⟨d.text, d.timeText ++ (d.fractionText ++ d.zone)⟩ = _ :=
    readTime_text h (noDigit_zone h)
      fun c hc => ne_point_of_mem_zone h c (mem_of_mem_head? hc)
  have hmessage : ofMessage d.text = ⟨d.text, (if d.plus then [ch '+'] else []) ++
      (d.dateText ++ ch 'T' :: (d.timeText ++ (d.fractionText ++ d.zone)))⟩ := by
    simp [ofMessage, DateTimeText.text, DateTimeText.whole]
  simp only [parseDateTime, hmessage, hdate, bind, Except.bind, checkCurrentAndSkip_cons,
    htime, readTimeZone_text h]
  rfl

end

theorem rawOffset_getTimeZone (id : JavaString) : (getTimeZone id).rawOffset % 60000 = 0 := by
  have hoffset : ∀ hours minutes, (offsetOf hours minutes).getD 0 % 60000 = 0 := by
    intro hours minutes
    unfold offsetOf
    split_ifs
    · rw [Option.getD_some, Int.mul_emod_left]
    · rfl
  have hcustom : ∀ text, (customOffset text).getD 0 % 60000 = 0 := by
    intro text
    unfold customOffset
    split <;> dsimp only <;> split_ifs <;> first | exact hoffset _ _ | rfl
  unfold getTimeZone
  split
  · rfl
  · split_ifs
    · exact hcustom _
    · have h := hcustom ‹_›
      dsimp only
      omega
    · rfl

theorem getTime_fields (d : DateTimeText) (millis : Int) :
    (d.fields millis).getTime d.timeZone = d.wholeTime + millis := by
  simp only [DateTimeText.wholeTime, Fields.getTime, Fields.localMillis, DateTimeText.fields]
  omega

theorem wholeTime_emod (d : DateTimeText) : d.wholeTime % 1000 = 0 := by
  have h : d.timeZone.rawOffset % 60000 = 0 := rawOffset_getTimeZone _
  simp only [DateTimeText.wholeTime, Fields.getTime, Fields.localMillis, DateTimeText.fields]
  omega

theorem numeral_fraction_lt (h : d.WellFormed) : numeral d.fraction < 1000 := by
  have hlt := numeral_lt h.fraction.digits
  have hpow : 10 ^ d.fraction.length ≤ 10 ^ 3 := Nat.pow_le_pow_right (by decide) h.fraction.le_max
  omega

/-- **What is returned for a date with a time**: milliseconds do not matter to the range. -/
theorem parseDateTime_text (h : d.WellFormed) :
    parseDateTime d.text = .ok v ↔ d.InRange ∧ v = d.wholeTime + numeral d.fraction := by
  have hmod := wholeTime_emod d
  have hlt := numeral_fraction_lt h
  rw [parseDateTime_text_eq h, getTime_fields, checkDates]
  constructor
  · intro hv
    split_ifs at hv with hmax hmin hrange
    simp only [minDate, maxDate] at hrange
    exact ⟨⟨⟨by omega, by omega⟩, by rw [minDate]; omega, by rw [maxDate]; omega⟩,
      (Except.ok.inj hv).symm⟩
  · rintro ⟨⟨hyear, hinstant⟩, rfl⟩
    simp only [minDate, maxDate] at hinstant
    rw [if_neg (by omega), if_neg (by omega), if_neg (by simp only [minDate, maxDate]; omega)]

/-! Nothing else is accepted. -/

theorem readSign_eq_ok {r : StringReader} (h : readSign ⟨message, rest⟩ = .ok r) :
    ∃ (plus : Bool) (rest' : JavaString),
      rest = (if plus then [ch '+'] else []) ++ rest' ∧ r = ⟨message, rest'⟩ := by
  cases rest with
  | nil => cases h
  | cons c rest =>
    simp only [readSign] at h
    split_ifs at h with hminus hplus
    · exact ⟨true, rest, by rw [hplus]; rfl, (Except.ok.inj h).symm⟩
    · exact ⟨false, c :: rest, rfl, (Except.ok.inj h).symm⟩

theorem readDate_eq_ok {res : Int × Int × Int × StringReader}
    (h : readDate ⟨message, rest⟩ = .ok res) :
    ∃ (plus : Bool) (year month day rest' : JavaString), StringReader.Digits 1 9 year ∧
      StringReader.Digits 2 2 month ∧ StringReader.Digits 2 2 day ∧
      rest = (if plus then [ch '+'] else []) ++
        (year ++ ch '-' :: (month ++ ch '-' :: (day ++ rest'))) ∧
      res.2.2.2 = ⟨message, rest'⟩ := by
  obtain ⟨r, hsign, h⟩ := bind_eq_ok h
  obtain ⟨plus, rest₁, rfl, rfl⟩ := readSign_eq_ok hsign
  obtain ⟨res, hyear, h⟩ := bind_eq_ok h
  obtain ⟨year, rest₂, hy, -, rfl, rfl⟩ :=
    readIntAndCheckLength_eq_ok (by decide) hyear
  obtain ⟨r, hskip, h⟩ := bind_eq_ok h
  obtain ⟨rest₃, rfl, rfl⟩ := checkCurrentAndSkip_eq_ok hskip
  obtain ⟨res, hmonth, h⟩ := bind_eq_ok h
  obtain ⟨month, rest₄, hm, -, rfl, rfl⟩ :=
    readIntAndCheckLength_eq_ok (by decide) hmonth
  obtain ⟨r, hskip, h⟩ := bind_eq_ok h
  obtain ⟨rest₅, rfl, rfl⟩ := checkCurrentAndSkip_eq_ok hskip
  obtain ⟨res, hday, h⟩ := bind_eq_ok h
  obtain ⟨day, rest₆, hd, -, rfl, rfl⟩ :=
    readIntAndCheckLength_eq_ok (by decide) hday
  rw [← Except.ok.inj h]
  exact ⟨plus, year, month, day, rest₆, hy, hm, hd, rfl, rfl⟩

theorem readMillis_eq_ok {res : Int × StringReader} (hstop : NoDigit rest)
    (h : readMillis ⟨message, rest⟩ = .ok res) :
    ∃ fraction rest', StringReader.Digits 0 3 fraction ∧ NoDigit rest' ∧
      rest = (if fraction = [] then [] else ch '.' :: fraction) ++ rest' ∧
      res.2 = ⟨message, rest'⟩ := by
  cases rest with
  | nil =>
    rw [← Except.ok.inj h]
    exact ⟨[], [], ⟨forall_mem_nil _, Nat.le_refl _, Nat.zero_le _⟩, noDigit_nil, rfl, rfl⟩
  | cons c rest =>
    by_cases hpoint : c = ch '.'
    · subst hpoint
      obtain ⟨⟨millis, r⟩, hread, h⟩ := bind_eq_ok h
      dsimp only at h
      split_ifs at h with hlen
      have hne : (⟨message, rest⟩ : StringReader).digits ≠ [] := by
        intro hnil
        rw [hnil] at hlen
        exact hlen (Or.inl Nat.one_pos)
      have hr : r = skipDigits ⟨message, rest⟩ := by
        unfold readInt at hread
        split_ifs at hread
        exact (Prod.mk.inj (Except.ok.inj hread)).2.symm
      rw [← Except.ok.inj h, hr]
      refine ⟨_, _, ⟨fun _ hc => isDigit_of_mem_digits hc, Nat.zero_le _,
        Nat.le_of_not_lt fun h => hlen (Or.inr h)⟩,
        noDigit_skipDigits ⟨message, rest⟩, ?_, rfl⟩
      rw [if_neg hne, cons_append, digits_append_skipDigits]
    · simp only [readMillis, if_neg hpoint] at h
      rw [← Except.ok.inj h]
      exact ⟨[], c :: rest, ⟨forall_mem_nil _, Nat.le_refl _, Nat.zero_le _⟩, hstop, rfl, rfl⟩

theorem readTime_eq_ok {res : Int × Int × Int × Int × StringReader}
    (h : readTime ⟨message, rest⟩ = .ok res) :
    ∃ hour minute second fraction rest', StringReader.Digits 2 2 hour ∧
      StringReader.Digits 2 2 minute ∧ StringReader.Digits 2 2 second ∧
      StringReader.Digits 0 3 fraction ∧ NoDigit rest' ∧
      rest = hour ++ ch ':' :: (minute ++ ch ':' :: (second ++
        ((if fraction = [] then [] else ch '.' :: fraction) ++ rest'))) ∧
      res.2.2.2.2 = ⟨message, rest'⟩ := by
  obtain ⟨res, hhour, h⟩ := bind_eq_ok h
  obtain ⟨hour, rest₁, hh, -, rfl, rfl⟩ :=
    readIntAndCheckLength_eq_ok (by decide) hhour
  obtain ⟨r, hskip, h⟩ := bind_eq_ok h
  obtain ⟨rest₂, rfl, rfl⟩ := checkCurrentAndSkip_eq_ok hskip
  obtain ⟨res, hminute, h⟩ := bind_eq_ok h
  obtain ⟨minute, rest₃, hm, -, rfl, rfl⟩ :=
    readIntAndCheckLength_eq_ok (by decide) hminute
  obtain ⟨r, hskip, h⟩ := bind_eq_ok h
  obtain ⟨rest₄, rfl, rfl⟩ := checkCurrentAndSkip_eq_ok hskip
  obtain ⟨res, hsecond, h⟩ := bind_eq_ok h
  obtain ⟨second, rest₅, hs, hstop, rfl, rfl⟩ :=
    readIntAndCheckLength_eq_ok (by decide) hsecond
  obtain ⟨⟨millis, r⟩, hmillis, hres⟩ := bind_eq_ok h
  obtain ⟨fraction, rest₆, hf, hstop', rfl, hr⟩ := readMillis_eq_ok hstop hmillis
  rw [← Except.ok.inj hres]
  exact ⟨hour, minute, second, fraction, rest₆, hh, hm, hs, hf, hstop', rfl, hr⟩

theorem zone_of_readTimeZone (hstop : NoDigit rest)
    (hnil : (readTimeZone ⟨message, rest⟩).2.rest = []) :
    rest = [ch 'Z'] ∨ NoDigit rest ∧ ∀ c ∈ rest, timeZoneMask.has c = true := by
  cases rest with
  | nil => exact Or.inr ⟨hstop, forall_mem_nil _⟩
  | cons c rest =>
    by_cases hz : c = ch 'Z'
    · subst hz
      simp only [readTimeZone, if_true] at hnil
      exact Or.inl (by rw [hnil])
    · simp only [readTimeZone, if_neg hz, StringReader.read] at hnil
      exact Or.inr ⟨hstop, dropWhile_eq_nil_iff.mp hnil⟩

/-- **Nothing else is accepted.** -/
theorem exists_text_of_parseDateTime (h : parseDateTime s = .ok v) :
    ∃ d : DateTimeText, d.WellFormed ∧ d.text = s := by
  obtain ⟨⟨y, mo, da, r⟩, hdate, h⟩ := bind_eq_ok h
  obtain ⟨plus, year, month, day, rest₁, hy, hm, hd, hs, hr⟩ := readDate_eq_ok hdate
  obtain rfl : r = ⟨s, rest₁⟩ := hr
  obtain ⟨r, hskip, h⟩ := bind_eq_ok h
  obtain ⟨rest₂, rfl, rfl⟩ := checkCurrentAndSkip_eq_ok hskip
  obtain ⟨⟨ho, mi, se, ms, r⟩, htime, h⟩ := bind_eq_ok h
  obtain ⟨hour, minute, second, fraction, rest₃, hh, hmi, hse, hf, hstop, rfl, hr⟩ :=
    readTime_eq_ok htime
  obtain rfl : r = ⟨s, rest₃⟩ := hr
  obtain ⟨_, hend, -⟩ := bind_eq_ok h
  have hzone := zone_of_readTimeZone hstop (rest_eq_nil_of_checkTerminated hend)
  refine ⟨⟨plus, year, month, day, hour, minute, second, fraction, rest₃⟩,
    ⟨hy, hm, hd, hh, hmi, hse, hf, hzone⟩, ?_⟩
  rw [hs]
  simp [DateTimeText.text, DateTimeText.whole, DateTimeText.dateText, DateTimeText.timeText,
    DateTimeText.fractionText]

end Reading

section Exactness

variable {d : DateTimeText} {s : JavaString} {c : UInt16}

/-- The decimal fraction of the seconds that is written: the digits behind the first point. -/
def fractionOf (s : JavaString) : JavaString :=
  ((s.dropWhile (· != ch '.')).drop 1).takeWhile isDigit

theorem ne_point_of_isDigit (h : isDigit c = true) : c ≠ ch '.' := by
  rintro rfl
  cases h

theorem ne_point_of_mem_whole (h : d.WellFormed) : ∀ c ∈ d.whole, c ≠ ch '.' := by
  have hdigits : ∀ {min max : Nat} {ds : JavaString}, StringReader.Digits min max ds →
      ∀ c ∈ ds, c ≠ ch '.' := fun hds c hc => ne_point_of_isDigit (hds.digits c hc)
  have hplus : ∀ c ∈ (if d.plus then [ch '+'] else []), c ≠ ch '.' := by
    split
    · exact forall_mem_singleton.mpr (by decide)
    · exact forall_mem_nil _
  intro c hc
  simp only [DateTimeText.whole, DateTimeText.dateText, DateTimeText.timeText, mem_append,
    mem_cons] at hc
  rcases hc with hc | ((hc | rfl | hc | rfl | hc) | rfl | hc | rfl | hc | rfl | hc)
  · exact hplus c hc
  · exact hdigits h.year c hc
  · decide
  · exact hdigits h.month c hc
  · decide
  · exact hdigits h.day c hc
  · decide
  · exact hdigits h.hour c hc
  · decide
  · exact hdigits h.minute c hc
  · decide
  · exact hdigits h.second c hc

theorem fractionOf_text (h : d.WellFormed) : fractionOf d.text = d.fraction := by
  have hwhole : ∀ c ∈ d.whole, (c != ch '.') = true := fun c hc =>
    bne_iff_ne.mpr (ne_point_of_mem_whole h c hc)
  rw [fractionOf, DateTimeText.text, dropWhile_append_of_pos hwhole, DateTimeText.fractionText]
  by_cases hf : d.fraction = []
  · have hzone : d.zone.dropWhile (· != ch '.') = [] :=
      dropWhile_eq_nil_iff.mpr fun c hc => bne_iff_ne.mpr (ne_point_of_mem_zone h c hc)
    rw [if_pos hf, nil_append, hzone, hf]
    rfl
  · rw [if_neg hf, cons_append, dropWhile_cons_of_neg (by decide), drop_one,
      tail_cons]
    exact takeWhile_digits h.fraction.digits (noDigit_zone h)

/-- The parser throws, or the milliseconds of the date are those of the fraction that is written. -/
def ExactFraction (s : JavaString) : Prop :=
  ∀ v, parseDateTime s = .ok v →
    ((v % 1000 : Int) : ℚ) = 1000 * numeral (fractionOf s) / 10 ^ (fractionOf s).length

/-- In the text of a date with a time that is in range, the fraction of the seconds is left out, has
three digits or is zero. -/
def FitsFraction (s : JavaString) : Prop :=
  ∀ d : DateTimeText, d.WellFormed → d.InRange → d.text = s →
    d.fraction = [] ∨ d.fraction.length = 3 ∨ numeral d.fraction = 0

theorem millis_eq_iff {f : JavaString} (hlen : f.length ≤ 3) :
    (numeral f : ℚ) = 1000 * numeral f / 10 ^ f.length ↔
      f = [] ∨ f.length = 3 ∨ numeral f = 0 := by
  have hscale : ∀ k : ℚ, k ≠ 1 → ((numeral f : ℚ) = k * numeral f ↔ numeral f = 0) := by
    intro k hk
    constructor
    · intro h
      have hzero : (k - 1) * (numeral f : ℚ) = 0 := by linarith
      exact Nat.cast_eq_zero.mp ((mul_eq_zero.mp hzero).resolve_left (sub_ne_zero.mpr hk))
    · intro h
      rw [h, Nat.cast_zero, mul_zero]
  obtain h | h | h | h : f.length = 0 ∨ f.length = 1 ∨ f.length = 2 ∨ f.length = 3 := by omega
  · rw [length_eq_zero_iff.mp h]
    simp
  · have hne : f ≠ [] := ne_nil_of_length_pos (by omega)
    have hdiv : (1000 : ℚ) * numeral f / 10 ^ 1 = 100 * numeral f := by ring
    rw [h, hdiv, hscale 100 (by norm_num)]
    simp [hne]
  · have hne : f ≠ [] := ne_nil_of_length_pos (by omega)
    have hdiv : (1000 : ℚ) * numeral f / 10 ^ 2 = 10 * numeral f := by ring
    rw [h, hdiv, hscale 10 (by norm_num)]
    simp [hne]
  · have hdiv : (1000 : ℚ) * numeral f / 10 ^ 3 = numeral f := by ring
    rw [h, hdiv]
    simp

/-- **When the milliseconds are those that are written.** -/
theorem exactFraction_iff (s : JavaString) : ExactFraction s ↔ FitsFraction s := by
  have hmillis : ∀ d : DateTimeText, d.WellFormed →
      (d.wholeTime + numeral d.fraction) % 1000 = numeral d.fraction := by
    intro d hd
    have hmod := wholeTime_emod d
    have hlt := numeral_fraction_lt hd
    omega
  constructor
  · rintro h d hd hrange rfl
    have hv := h _ ((parseDateTime_text hd).mpr ⟨hrange, rfl⟩)
    rw [hmillis d hd, fractionOf_text hd, Int.cast_natCast] at hv
    exact (millis_eq_iff hd.fraction.le_max).mp hv
  · intro h v hv
    obtain ⟨d, hd, rfl⟩ := exists_text_of_parseDateTime hv
    obtain ⟨hrange, rfl⟩ := (parseDateTime_text hd).mp hv
    rw [hmillis d hd, fractionOf_text hd, Int.cast_natCast]
    exact (millis_eq_iff hd.fraction.le_max).mpr (h d hd hrange rfl)

/-- **Durations and dates with times are exact or refused** exactly where a duration that is read is
an `xs:duration` of a `long`, and a fraction that is read says milliseconds as it stands. -/
theorem parse_exact_iff (s : JavaString) :
    (ExactDuration s ↔ FitsDuration s) ∧ (ExactFraction s ↔ FitsFraction s) :=
  ⟨exactDuration_iff s, exactFraction_iff s⟩

/-- A duration of more days than a `long` has milliseconds for wraps around, one without components
is read as zero, and `.5` as five milliseconds. -/
theorem parse_not_exact :
    ¬ExactDuration (javaString "P106751991168D") ∧ ¬ExactDuration (javaString "PT") ∧
      ¬ExactFraction (javaString "2000-01-05T20:30:00.5Z") := by
  refine ⟨fun h => ?_, fun h => ?_, fun h => ?_⟩
  · let days : Component := ⟨.day, javaString "106751991168", []⟩
    have hwf : (⟨.none, [days], none⟩ : DurationText).WellFormed :=
      ⟨forall_mem_singleton.mpr ⟨by decide, all_eq_true.mp (by decide),
        forall_mem_nil _, by decide⟩, forall_mem_singleton.mpr (by decide),
        ⟨by decide, trivial⟩, fun _ h => by cases h⟩
    have hfits := (exactDuration_iff _).mp h ⟨.none, [days], none⟩ hwf
      (forall_mem_singleton.mpr (by decide)) (by decide)
    exact absurd hfits.2.2 (by decide)
  · have hwf : (⟨.none, [], some []⟩ : DurationText).WellFormed :=
      ⟨forall_mem_nil _, forall_mem_nil _, trivial, fun cs hcs => by
        obtain rfl := Option.some.inj hcs
        trivial⟩
    have hfits := (exactDuration_iff _).mp h ⟨.none, [], some []⟩ hwf (forall_mem_nil _) (by decide)
    exact hfits.1.ne_nil rfl
  · have hv := h 947104200005 (by decide)
    have hfraction : fractionOf (javaString "2000-01-05T20:30:00.5Z") = [ch '5'] := by decide
    have hnumeral : numeral [ch '5'] = 5 := by decide
    rw [hfraction, hnumeral] at hv
    norm_num at hv

end Exactness

section RoundTrip

variable {date : Int} {timeZone : TimeZone}

theorem appendPadded_digits {n : Int} {min max : Nat} (hmin : 0 < min) (hmax : min ≤ max)
    (h : 0 ≤ n) (hlt : n < 10 ^ min) : StringReader.Digits min max (appendPadded n min) := by
  obtain ⟨n, rfl⟩ := Int.eq_ofNat_of_zero_le h
  have hlen : (appendPadded n min).length = min := length_appendPadded hmin (by exact_mod_cast hlt)
  refine ⟨fun _ => isDigit_of_mem_appendPadded, Nat.le_of_eq hlen.symm, ?_⟩
  rw [hlen]
  exact hmax

theorem numeral_appendPadded_of_nonneg {n : Int} (min : Nat) (h : 0 ≤ n) :
    (numeral (appendPadded n min) : Int) = n := by
  obtain ⟨n, rfl⟩ := Int.eq_ofNat_of_zero_le h
  rw [numeral_appendPadded]

/-- The text of a date with a time that is formatted. -/
def formattedDate (date : Int) (timeZone : TimeZone) : DateTimeText :=
  let calendar := Fields.ofTime date timeZone
  { plus := false
    year := appendPadded calendar.year 4
    month := appendPadded calendar.month 2
    day := appendPadded calendar.day 2
    hour := appendPadded calendar.hour 2
    minute := appendPadded calendar.minute 2
    second := appendPadded calendar.second 2
    fraction := appendPadded calendar.millis 3
    zone := formatTimeZone timeZone }

/-- The fields of a calendar are in their ranges. -/
structure Fields.InRange (f : Fields) : Prop where
  month : 1 ≤ f.month ∧ f.month ≤ 12
  day : 1 ≤ f.day ∧ f.day ≤ 31
  hour : 0 ≤ f.hour ∧ f.hour < 24
  minute : 0 ≤ f.minute ∧ f.minute < 60
  second : 0 ≤ f.second ∧ f.second < 60
  millis : 0 ≤ f.millis ∧ f.millis < 1000

theorem Fields.ofTime_inRange (date : Int) (timeZone : TimeZone) :
    (Fields.ofTime date timeZone).InRange where
  month := month_range _
  day := day_range _
  hour := by simp only [Fields.ofTime]; omega
  minute := by simp only [Fields.ofTime]; omega
  second := by simp only [Fields.ofTime]; omega
  millis := by simp only [Fields.ofTime]; omega

/-- **The fields of an instant are set back to it.** -/
theorem Fields.getTime_ofTime (date : Int) (timeZone : TimeZone) :
    (Fields.ofTime date timeZone).getTime timeZone = date := by
  have hrange := Fields.ofTime_inRange date timeZone
  have hmonth := hrange.month
  have hdays : daysFromCivil ⟨(Fields.ofTime date timeZone).year +
        ((Fields.ofTime date timeZone).month - 1) / 12,
      ((Fields.ofTime date timeZone).month - 1) % 12 + 1, (Fields.ofTime date timeZone).day⟩ =
      (date + timeZone.rawOffset) / 86400000 := by
    have hcarry : ((Fields.ofTime date timeZone).month - 1) / 12 = 0 := by omega
    have hsame : ((Fields.ofTime date timeZone).month - 1) % 12 + 1 =
        (Fields.ofTime date timeZone).month := by omega
    rw [hcarry, hsame, Int.add_zero]
    exact daysFromCivil_civilFromDays _
  rw [Fields.getTime, Fields.localMillis, hdays]
  simp only [Fields.ofTime]
  omega

theorem firstOfYear_1970 : firstOfYear 1970 = 0 := by decide

theorem firstOfYear_10000 : firstOfYear 10000 = 2932897 := by decide

theorem firstOfYear_1969 : firstOfYear 1969 = -365 := by decide

/-- The offsets of the round trip: whole minutes, at most fourteen hours. -/
structure TimeZone.Whole (timeZone : TimeZone) : Prop where
  minutes : timeZone.rawOffset % 60000 = 0
  range : -(14 * 3600000) ≤ timeZone.rawOffset ∧ timeZone.rawOffset ≤ 14 * 3600000

theorem year_formatted (hmin : minDate ≤ date) (hmax : date ≤ maxDate) (hzone : timeZone.Whole) :
    1969 ≤ (Fields.ofTime date timeZone).year ∧ (Fields.ofTime date timeZone).year ≤ 9999 ∧
      (1970 ≤ (Fields.ofTime date timeZone).year ↔ 0 ≤ date + timeZone.rawOffset) := by
  obtain ⟨hlow, hhigh⟩ := hzone.range
  have h1969 := year_lt_iff ((date + timeZone.rawOffset) / 86400000) 1969
  have h1970 := year_lt_iff ((date + timeZone.rawOffset) / 86400000) 1970
  have h10000 := year_lt_iff ((date + timeZone.rawOffset) / 86400000) 10000
  rw [firstOfYear_1969] at h1969
  rw [firstOfYear_1970] at h1970
  rw [firstOfYear_10000] at h10000
  simp only [minDate, maxDate] at hmin hmax
  simp only [Fields.ofTime]
  refine ⟨?_, ?_, ?_⟩
  · by_contra h
    omega
  · omega
  · constructor
    · intro h
      by_contra hneg
      omega
    · intro h
      by_contra hyear
      omega

theorem customOffset_append {hours minutes : Nat} (hh : hours ≤ 23) (hm : minutes ≤ 59) :
    customOffset (appendPadded hours 2 ++ ch ':' :: appendPadded minutes 2) =
      some (((hours : Int) * 60 + minutes) * 60000) := by
  have hhours : StringReader.Digits 2 2 (appendPadded hours 2) :=
    appendPadded_digits (by decide) (Nat.le_refl 2) (Int.natCast_nonneg _) (by omega)
  have hminutes : StringReader.Digits 2 2 (appendPadded minutes 2) :=
    appendPadded_digits (by decide) (Nat.le_refl 2) (Int.natCast_nonneg _) (by omega)
  have htake : (appendPadded hours 2 ++ ch ':' :: appendPadded minutes 2).takeWhile isDigit =
      appendPadded hours 2 := takeWhile_digits hhours.digits noDigit_colon
  have hdrop : (appendPadded hours 2 ++ ch ':' :: appendPadded minutes 2).dropWhile isDigit =
      ch ':' :: appendPadded minutes 2 := dropWhile_digits hhours.digits noDigit_colon
  have hne : appendPadded hours 2 ≠ [] :=
    ne_nil_of_length_pos (Nat.lt_of_lt_of_le Nat.zero_lt_two hhours.min_le)
  have hall : (appendPadded minutes 2).all isDigit = true := all_eq_true.mpr hminutes.digits
  rw [customOffset, htake, hdrop]
  dsimp only
  rw [if_pos ⟨rfl, hne, hhours.le_max, Nat.le_antisymm hminutes.le_max hminutes.min_le, hall⟩,
    numeral_appendPadded, numeral_appendPadded, offsetOf, if_pos ⟨hh, hm⟩]

theorem formatTimeZone_eq (hne : timeZone.rawOffset ≠ 0) :
    formatTimeZone timeZone = (if timeZone.rawOffset < 0 then ch '-' else ch '+') ::
      (appendPadded (timeZone.rawOffset.natAbs / 3600000 : Nat) 2 ++ ch ':' ::
        appendPadded (timeZone.rawOffset.natAbs % 3600000 / 60000 : Nat) 2) := by
  have habs : (if timeZone.rawOffset < 0 then -timeZone.rawOffset else timeZone.rawOffset) =
      timeZone.rawOffset.natAbs := by
    split_ifs <;> omega
  have hhour : Designator.hour.inMillis = (3600000 : Nat) := rfl
  have hminute : Designator.minute.inMillis = (60000 : Nat) := rfl
  rw [formatTimeZone, if_neg hne]
  simp only [habs, hhour, hminute, ← Int.ofNat_tdiv, ← Int.ofNat_tmod]
  simp

theorem drop_GMT (text : JavaString) : (javaString "GMT" ++ text).drop 3 = text := rfl

/-- **The zone is found again.** -/
theorem timeZone_formatted (hzone : timeZone.Whole) :
    (formattedDate date timeZone).timeZone = timeZone := by
  obtain ⟨offset⟩ := timeZone
  obtain ⟨hminutes, hlow, hhigh⟩ := hzone
  dsimp only at hminutes hlow hhigh
  show getTimeZone (javaString "GMT" ++ if formatTimeZone ⟨offset⟩ = [ch 'Z'] then [] else
    formatTimeZone ⟨offset⟩) = ⟨offset⟩
  by_cases hzero : offset = 0
  · rw [hzero]
    rfl
  · have htext := @formatTimeZone_eq ⟨offset⟩ hzero
    have hcustom := @customOffset_append (offset.natAbs / 3600000)
      (offset.natAbs % 3600000 / 60000) (by omega) (by omega)
    rw [htext, getTimeZone]
    by_cases hneg : offset < 0
    · rw [if_pos hneg, if_neg (fun h => absurd (cons.inj h).1 (by decide)), drop_GMT]
      dsimp only
      rw [if_neg (by decide), if_pos rfl, hcustom, Option.getD_some, TimeZone.mk.injEq]
      omega
    · rw [if_neg hneg, if_neg (fun h => absurd (cons.inj h).1 (by decide)), drop_GMT]
      dsimp only
      rw [if_pos rfl, hcustom, Option.getD_some, TimeZone.mk.injEq]
      omega

theorem has_timeZoneMask {c : UInt16} (h : isDigit c = true) : timeZoneMask.has c = true := by
  have hall : ∀ n ∈ range' 48 10, timeZoneMask.has (UInt16.ofNat n) = true := by decide
  obtain ⟨hlow, hhigh⟩ := isDigit_iff.mp h
  rw [← UInt16.ofNat_toNat (x := c)]
  exact hall _ (mem_range'_1.mpr ⟨hlow, by omega⟩)

theorem zone_formatted (timeZone : TimeZone) :
    formatTimeZone timeZone = [ch 'Z'] ∨
      NoDigit (formatTimeZone timeZone) ∧ ∀ c ∈ formatTimeZone timeZone, timeZoneMask.has c = true := by
  by_cases hzero : timeZone.rawOffset = 0
  · exact Or.inl (by rw [formatTimeZone, hzero]; rfl)
  · right
    rw [formatTimeZone_eq hzero]
    constructor
    · split_ifs <;> exact noDigit_cons.mpr rfl
    · intro c hc
      rcases mem_cons.mp hc with rfl | hc
      · split_ifs <;> decide
      · rcases mem_append.mp hc with hc | hc
        · exact has_timeZoneMask (isDigit_of_mem_appendPadded hc)
        · rcases mem_cons.mp hc with rfl | hc
          · decide
          · exact has_timeZoneMask (isDigit_of_mem_appendPadded hc)

section

variable (hyear : 0 ≤ (Fields.ofTime date timeZone).year)

include hyear

theorem formattedDate_wellFormed (hyear' : (Fields.ofTime date timeZone).year ≤ 9999) :
    (formattedDate date timeZone).WellFormed := by
  have hrange := Fields.ofTime_inRange date timeZone
  refine ⟨appendPadded_digits (by decide) (by decide) hyear (by omega) |>.mono (by decide),
    appendPadded_digits (by decide) (Nat.le_refl 2) (by have := hrange.month; omega)
      (by have := hrange.month; omega),
    appendPadded_digits (by decide) (Nat.le_refl 2) (by have := hrange.day; omega)
      (by have := hrange.day; omega),
    appendPadded_digits (by decide) (Nat.le_refl 2) hrange.hour.1 (by have := hrange.hour; omega),
    appendPadded_digits (by decide) (Nat.le_refl 2) hrange.minute.1
      (by have := hrange.minute; omega),
    appendPadded_digits (by decide) (Nat.le_refl 2) hrange.second.1
      (by have := hrange.second; omega),
    (appendPadded_digits (by decide) (Nat.le_refl 3) hrange.millis.1
      (by have := hrange.millis; omega)).mono (Nat.zero_le _), zone_formatted timeZone⟩

theorem formatDateTime_eq : formatDateTime date timeZone = (formattedDate date timeZone).text := by
  have hne : appendPadded (Fields.ofTime date timeZone).millis 3 ≠ [] := by
    have hmillis := (Fields.ofTime_inRange date timeZone).millis
    have hdigits : StringReader.Digits 3 3 (appendPadded (Fields.ofTime date timeZone).millis 3) :=
      appendPadded_digits (by decide) (Nat.le_refl 3) hmillis.1 (by omega)
    exact ne_nil_of_length_pos (Nat.lt_of_lt_of_le (by decide) hdigits.min_le)
  simp [formatDateTime, formattedDate, DateTimeText.text, DateTimeText.whole, DateTimeText.dateText,
    DateTimeText.timeText, DateTimeText.fractionText, hne, Int.not_lt.mpr hyear]

theorem fields_formatted :
    (formattedDate date timeZone).fields (numeral (formattedDate date timeZone).fraction) =
      Fields.ofTime date timeZone := by
  have hrange := Fields.ofTime_inRange date timeZone
  simp only [DateTimeText.fields, formattedDate]
  rw [numeral_appendPadded_of_nonneg 4 hyear,
    numeral_appendPadded_of_nonneg 2 (by have := hrange.month; omega),
    numeral_appendPadded_of_nonneg 2 (by have := hrange.day; omega),
    numeral_appendPadded_of_nonneg 2 hrange.hour.1,
    numeral_appendPadded_of_nonneg 2 hrange.minute.1,
    numeral_appendPadded_of_nonneg 2 hrange.second.1,
    numeral_appendPadded_of_nonneg 3 hrange.millis.1]

end

/-- **A date comes back exactly where its year in the time zone is accepted**: the instant and the
year are both checked, and the first hours of 1970 are in 1969 west of Greenwich. -/
theorem parseDateTime_formatDateTime_iff (hmin : minDate ≤ date) (hmax : date ≤ maxDate)
    (hminutes : timeZone.rawOffset % 60000 = 0)
    (hlow : -(14 * 3600000) ≤ timeZone.rawOffset) (hhigh : timeZone.rawOffset ≤ 14 * 3600000) :
    parseDateTime (formatDateTime date timeZone) = .ok date ↔ 0 ≤ date + timeZone.rawOffset := by
  have hzone : timeZone.Whole := ⟨hminutes, hlow, hhigh⟩
  obtain ⟨h1969, h9999, h1970⟩ := year_formatted hmin hmax hzone
  have hyear : 0 ≤ (Fields.ofTime date timeZone).year := by omega
  have hwf := formattedDate_wellFormed hyear h9999
  have htime := getTime_fields (formattedDate date timeZone)
    (numeral (formattedDate date timeZone).fraction)
  rw [fields_formatted hyear, timeZone_formatted hzone, Fields.getTime_ofTime] at htime
  have hnumeral : (numeral (formattedDate date timeZone).year : Int) =
      (Fields.ofTime date timeZone).year := numeral_appendPadded_of_nonneg 4 hyear
  rw [formatDateTime_eq hyear, parseDateTime_text hwf, ← h1970]
  constructor
  · rintro ⟨hrange, -⟩
    have hfrom := hrange.year.1
    omega
  · intro h
    have hmod := wholeTime_emod (formattedDate date timeZone)
    have hfraction := numeral_fraction_lt hwf
    simp only [minDate, maxDate] at hmin hmax
    exact ⟨⟨⟨by omega, by omega⟩, by rw [minDate]; omega, by rw [maxDate]; omega⟩, htime⟩

/-- It holds of the last instant, in the easternmost time zone. -/
theorem parseDateTime_formatDateTime_last :
    parseDateTime (formatDateTime maxDate ⟨14 * 3600000⟩) = .ok maxDate ↔
      0 ≤ maxDate + (⟨14 * 3600000⟩ : TimeZone).rawOffset :=
  parseDateTime_formatDateTime_iff (by decide) (by decide) (by decide) (by decide) (by decide)

/-- The first instant does not come back from a time zone that is one minute behind. -/
theorem formatDateTime_minDate_lost :
    parseDateTime (formatDateTime minDate ⟨-60000⟩) ≠ .ok minDate := by
  intro h
  cases h

end RoundTrip

end Ong.Util
