import Mathlib.Tactic.NormNum
import Ong.Util.StringReader

/-!
# Durations

`parseDuration` and `formatDuration` of the format utilities, in milliseconds, with years of 365 days
and months of 30.  The parser takes a sign, components with a designator each in two loops, and keeps
the order of the designators with a level.

## Main results

* `parseDuration_eq_ok_iff`: what is accepted, and what is returned
* `exactDuration_iff`: when the parser is exact or refuses
* `parseDuration_formatDuration_iff`: a duration comes back unless it is the least `long`
-/

namespace Ong.Util

open StringReader List M2M Int

/-! ## Designators -/

/-- The designators of the components. -/
inductive Designator
  | year | month | day | hour | minute | second
  deriving DecidableEq

namespace Designator

/-- The step level of a designator. -/
def level : Designator → Nat
  | year => 0
  | month => 1
  | day => 2
  | hour => 3
  | minute => 4
  | second => 5

def letter : Designator → UInt16
  | year => ch 'Y'
  | month => ch 'M'
  | day => ch 'D'
  | hour => ch 'H'
  | minute => ch 'M'
  | second => ch 'S'

/-- `YEAR_IN_MILLIS` to `SECOND_IN_MILLIS` -/
def inMillis : Designator → Int
  | year => 365 * 24 * 60 * 60 * 1000
  | month => 30 * 24 * 60 * 60 * 1000
  | day => 24 * 60 * 60 * 1000
  | hour => 60 * 60 * 1000
  | minute => 60 * 1000
  | second => 1000

/-- The designators before the `T`. -/
def ofDate (c : UInt16) : Option Designator :=
  if c = ch 'Y' then some year
  else if c = ch 'M' then some month
  else if c = ch 'D' then some day
  else none

/-- The designators behind the `T`. -/
def ofTime (c : UInt16) : Option Designator :=
  if c = ch 'H' then some hour
  else if c = ch 'M' then some minute
  else if c = ch 'S' then some second
  else none

end Designator

/-! ## Parsing -/

def checkLevel (r : StringReader) (stepLevel currentLevel : Nat) : Except ParseException Nat :=
  if stepLevel < currentLevel then .error r.failure else .ok (stepLevel + 1)

/-- Whether a digit stands here. -/
def StringReader.atDigit (r : StringReader) : Bool :=
  match r.rest with
  | [] => false
  | c :: _ => isDigit c

/-- The inner switch: a fraction of the seconds by the number of its digits. -/
def scaleFraction (r : StringReader) (tmp : Int) (length : Nat) : Except ParseException Int :=
  if length = 1 then .ok (toLong (tmp * 100))
  else if length = 2 then .ok (toLong (tmp * 10))
  else if length = 3 then .ok tmp
  else .error r.failure

/-- The case of the point: the fraction of the seconds in milliseconds, behind its `S`. -/
def parseFraction (r : StringReader) : Except ParseException (Int × StringReader) := do
  let length := r.digits.length
  let (tmp, r) ← r.readLong
  if tmp ≥ 1000 then throw r.failure
  let millis ← scaleFraction r tmp length
  let r ← r.checkCurrentAndSkip (ch 'S')
  return (millis, r)

/-- The two loops over components: the designators of the loop, whether seconds may have a fraction,
and how far behind the designator the exception points.  The first argument bounds the turns. -/
def parseComponents (designator : UInt16 → Option Designator) (fractions : Bool) (back : Nat) :
    Nat → Int → Nat → StringReader → Except ParseException (Int × Nat × StringReader)
  | 0, _, _, r => throw r.failure
  | n + 1, millis, level, r =>
    if r.atDigit then do
      let (tmp, r) ← r.readLong
      let (c, r) ← r.readCurrentAndSkip
      match designator c with
      | some d =>
        let level ← checkLevel r d.level level
        parseComponents designator fractions back n (toLong (millis + toLong (d.inMillis * tmp)))
          level r
      | none =>
        if fractions = true ∧ c = ch '.' then
          let level ← checkLevel r Designator.second.level level
          let millis := toLong (millis + toLong (Designator.second.inMillis * tmp))
          let (fraction, r) ← parseFraction r
          parseComponents designator fractions back n (toLong (millis + fraction)) level r
        else throw ⟨r.message, r.offset - back⟩
    else return (millis, level, r)

/-- The loop before the `T`. -/
def parseDateComponents (r : StringReader) : Except ParseException (Int × Nat × StringReader) :=
  parseComponents Designator.ofDate false 1 (r.message.length + 1) 0 0 r

/-- The loop behind the `T`. -/
def parseTimeComponents (millis : Int) (level : Nat) (r : StringReader) :
    Except ParseException (Int × Nat × StringReader) :=
  parseComponents Designator.ofTime true 0 (r.message.length + 1) millis level r

/-- What `parseDuration` reads behind the date. -/
def parseTimePart (millis : Int) (level : Nat) (r : StringReader) :
    Except ParseException (Int × StringReader) :=
  if r.isTerminated then .ok (millis, r)
  else do
    let r ← r.checkCurrentAndSkip (ch 'T')
    let (millis, _, r) ← parseTimeComponents millis level r
    return (millis, r)

/-- What `parseDuration` reads behind the sign. -/
def parseUnsigned (r : StringReader) : Except ParseException Int := do
  let r ← r.checkCurrentAndSkip (ch 'P')
  let (millis, level, r) ← parseDateComponents r
  let (millis, r) ← parseTimePart millis level r
  r.checkTerminated
  return millis

def parseDuration (duration : JavaString) : Except ParseException Int := do
  let r := StringReader.ofMessage duration
  let c ← r.readCurrent
  let r ← if c = ch '-' ∨ c = ch '+' then r.skipOffset 1 else pure r
  let millis ← parseUnsigned r
  return if c = ch '-' then toLong (-millis) else millis

/-! ## Formatting -/

/-- `append(buffer, num, minLen)`, for a number that may be negative -/
def appendPadded (num : Int) (minLen : Nat) : JavaString :=
  let s := (if num < 0 then [ch '-'] else []) ++ decimal num.natAbs
  List.replicate (minLen - s.length) (ch '0') ++ s

/-- `s.append(n)` -/
def javaLong (n : Int) : JavaString := (if n < 0 then [ch '-'] else []) ++ decimal n.natAbs

/-- `formatDuration`; quotients and remainders are those of Java. -/
def formatDuration (duration : Int) : JavaString :=
  if duration = 0 then javaString "PT0S"
  else
    let absDuration := if duration < 0 then toLong (-duration) else duration
    let days := absDuration.tdiv Designator.day.inMillis
    let time := absDuration.tmod Designator.day.inMillis
    let hours := time.tdiv Designator.hour.inMillis
    let minutes := (time.tmod Designator.hour.inMillis).tdiv Designator.minute.inMillis
    let seconds := (time.tmod Designator.minute.inMillis).tdiv Designator.second.inMillis
    let millis := time.tmod Designator.second.inMillis
    (if duration < 0 then [ch '-'] else []) ++ [ch 'P'] ++
      (if days ≠ 0 then javaLong days ++ [ch 'D'] else []) ++
      if time ≠ 0 then
        [ch 'T'] ++
          (if hours ≠ 0 then javaLong hours ++ [ch 'H'] else []) ++
          (if minutes ≠ 0 then javaLong minutes ++ [ch 'M'] else []) ++
          if millis ≠ 0 then javaLong seconds ++ [ch '.'] ++ appendPadded millis 3 ++ [ch 'S']
          else if seconds ≠ 0 then javaLong seconds ++ [ch 'S'] else []
      else []

/-! ## What a text spells -/

/-- A component of a duration; only seconds have a fraction. -/
structure Component where
  designator : Designator
  digits : JavaString
  fraction : JavaString

namespace Component

def text (c : Component) : JavaString :=
  c.digits ++ (if c.fraction = [] then [] else ch '.' :: c.fraction) ++ [c.designator.letter]

/-- The duration of a component, in milliseconds. -/
def value (c : Component) : ℚ :=
  c.designator.inMillis * numeral c.digits + 1000 * numeral c.fraction / 10 ^ c.fraction.length

/-- The value where the fraction has at most three digits. -/
def millis (c : Component) : Int :=
  c.designator.inMillis * numeral c.digits + numeral c.fraction * 10 ^ (3 - c.fraction.length)

structure WellFormed (c : Component) : Prop where
  ne_nil : c.digits ≠ []
  digits : ∀ d ∈ c.digits, isDigit d = true
  fraction : ∀ d ∈ c.fraction, isDigit d = true
  seconds : c.fraction ≠ [] → c.designator = .second

end Component

/-- The designators are in order from a level on, each at most once. -/
def Ordered : Nat → List Component → Prop
  | _, [] => True
  | level, c :: cs => level ≤ c.designator.level ∧ Ordered (c.designator.level + 1) cs

/-- The sign of a duration. -/
inductive Sign
  | none | minus | plus
  deriving DecidableEq

namespace Sign

def text : Sign → JavaString
  | none => []
  | minus => [ch '-']
  | plus => [ch '+']

def factor : Sign → Int
  | minus => -1
  | _ => 1

end Sign

/-- A text in the shape of a duration: a sign, the components before the `T`, and those behind it
where there is a `T`. -/
structure DurationText where
  sign : Sign
  date : List Component
  time : Option (List Component)

namespace DurationText

variable (d : DurationText)

/-- The text of the time, behind the `T`. -/
def timeText : Option (List Component) → JavaString
  | none => []
  | some cs => ch 'T' :: cs.flatMap Component.text

/-- The text behind the sign. -/
def body : JavaString := ch 'P' :: (d.date.flatMap Component.text ++ timeText d.time)

def text : JavaString := d.sign.text ++ d.body

/-- All components. -/
def components : List Component := d.date ++ d.time.getD []

/-- The duration that the text spells, in milliseconds. -/
def value : ℚ := d.sign.factor * (d.components.map Component.value).sum

/-- The value where no fraction has more than three digits. -/
def total : Int := (d.components.map Component.millis).sum

/-- The total with the sign. -/
def millis : Int := d.sign.factor * d.total

/-- The designators of date and time are in order, on their side of the `T`. -/
structure WellFormed : Prop where
  components : ∀ c ∈ d.components, c.WellFormed
  date : ∀ c ∈ d.date, c.designator.level < 3
  date_ordered : Ordered 0 d.date
  time_ordered : ∀ cs ∈ d.time, Ordered 3 cs

/-- The texts that `xs:duration` has: no sign but `-`, at least one component, and at least one
behind a `T`. -/
structure IsDuration : Prop extends d.WellFormed where
  sign : d.sign ≠ .plus
  ne_nil : d.components ≠ []
  time : d.time ≠ some []

/-- No fraction is finer than milliseconds. -/
def InMillis : Prop := ∀ c ∈ d.components, c.fraction.length ≤ 3

end DurationText

/-! ## Values -/

theorem Component.cast_millis {c : Component} (h : c.fraction.length ≤ 3) :
    (c.millis : ℚ) = c.value := by
  have hpow : (10 : ℚ) ^ (3 - c.fraction.length) * 10 ^ c.fraction.length = 1000 := by
    rw [← pow_add, Nat.sub_add_cancel h]
    norm_num
  have hne : (10 : ℚ) ^ c.fraction.length ≠ 0 := pow_ne_zero _ (by norm_num)
  rw [millis, value, cast_add, cast_mul, cast_mul, cast_pow, cast_natCast,
    cast_natCast, cast_ofNat, ← hpow, mul_right_comm, mul_div_assoc, div_self hne, mul_one,
    mul_comm ((10 : ℚ) ^ _)]

theorem DurationText.cast_millis {d : DurationText} (h : d.InMillis) : (d.millis : ℚ) = d.value := by
  have hsum : ∀ cs : List Component, (∀ c ∈ cs, c.fraction.length ≤ 3) →
      (((cs.map Component.millis).sum : Int) : ℚ) = (cs.map Component.value).sum := by
    intro cs
    induction cs with
    | nil => intro _; rfl
    | cons c cs ih =>
      intro hcs
      rw [map_cons, sum_cons, map_cons, sum_cons, cast_add,
        Component.cast_millis (hcs c mem_cons_self),
        ih fun c hc => hcs c (mem_cons_of_mem _ hc)]
  rw [millis, value, total, cast_mul, hsum _ h]

theorem toLong_add_toLong (x y : Int) : toLong (x + toLong y) = toLong (x + y) := add_bmod_bmod

theorem toLong_add_mul (x u y : Int) : toLong (x + toLong (u * toLong y)) = toLong (x + u * y) := by
  rw [toLong_add_toLong]
  unfold toLong
  rw [← add_bmod_bmod, mul_bmod_bmod, add_bmod_bmod]

variable {own : Designator → Prop} {designator : UInt16 → Option Designator}

section Components

variable {fractions : Bool} {back n level : Nat}
variable {millis : Int} {message rest : JavaString} {c : Component} {cs : List Component}
  {r : StringReader} {res : Int × Nat × StringReader}

/-- What the two loops know of their designators. -/
structure Designators (designator : UInt16 → Option Designator) (fractions : Bool)
    (own : Designator → Prop) : Prop where
  letter : ∀ d, own d → designator d.letter = some d
  of_letter : ∀ c d, designator c = some d → own d ∧ c = d.letter
  point : designator (ch '.') = none
  second : fractions = true ↔ own .second

theorem designators_ofDate : Designators Designator.ofDate false fun d => d.level < 3 where
  letter d h := by
    cases d <;> first | rfl | exact absurd h (by decide)
  of_letter c d h := by
    unfold Designator.ofDate at h
    split_ifs at h with hy hm hd <;> cases h
    · exact ⟨by decide, hy⟩
    · exact ⟨by decide, hm⟩
    · exact ⟨by decide, hd⟩
  point := rfl
  second := by decide

theorem designators_ofTime : Designators Designator.ofTime true fun d => 3 ≤ d.level where
  letter d h := by
    cases d <;> first | rfl | exact absurd h (by decide)
  of_letter c d h := by
    unfold Designator.ofTime at h
    split_ifs at h with hh hm hs <;> cases h
    · exact ⟨by decide, hh⟩
    · exact ⟨by decide, hm⟩
    · exact ⟨by decide, hs⟩
  point := rfl
  second := by decide

theorem noDigit_letter (d : Designator) : NoDigit (d.letter :: rest) := by
  rw [noDigit_cons]
  cases d <;> rfl

theorem atDigit_append (hne : c.digits ≠ []) (hds : ∀ d ∈ c.digits, isDigit d = true) :
    (⟨message, c.text ++ rest⟩ : StringReader).atDigit = true := by
  obtain ⟨d, ds, hcons⟩ := exists_cons_of_ne_nil hne
  have hd := hds d (by rw [hcons]; exact mem_cons_self)
  rw [Component.text, hcons]
  exact hd

theorem noDigit_of_atDigit (h : ¬(⟨message, rest⟩ : StringReader).atDigit = true) :
    NoDigit rest := by
  cases rest with
  | nil => exact noDigit_nil
  | cons c rest => exact noDigit_cons.mpr (Bool.eq_false_iff.mpr h)

theorem atDigit_eq_false (h : NoDigit rest) :
    (⟨message, rest⟩ : StringReader).atDigit = false := by
  cases rest with
  | nil => rfl
  | cons c rest => exact noDigit_cons.mp h

theorem digits_ne_nil (h : (⟨message, rest⟩ : StringReader).atDigit = true) :
    StringReader.digits ⟨message, rest⟩ ≠ [] := by
  cases rest with
  | nil => cases h
  | cons c rest =>
    have hc : isDigit c = true := h
    simp [StringReader.digits, hc]

theorem le_of_checkLevel {stepLevel currentLevel v : Nat}
    (h : checkLevel r stepLevel currentLevel = .ok v) : currentLevel ≤ stepLevel := by
  unfold checkLevel at h
  split_ifs at h with hlt
  exact Nat.le_of_not_lt hlt

theorem parseFraction_append {f : JavaString} (hds : ∀ d ∈ f, isDigit d = true) (hne : f ≠ [])
    (hlen : f.length ≤ 3) :
    parseFraction ⟨message, f ++ ch 'S' :: rest⟩ =
      .ok (numeral f * 10 ^ (3 - f.length), ⟨message, rest⟩) := by
  have hstop : NoDigit (ch 'S' :: rest) := noDigit_letter .second
  have hlt : (numeral f : Int) < 1000 := by
    have h := numeral_lt hds
    have hpow : 10 ^ f.length ≤ 10 ^ 3 := Nat.pow_le_pow_right (by decide) hlen
    omega
  have hlong : toLong (numeral f) = numeral f := toLong_of_lt (by omega) (by omega)
  have hpos : f.length ≠ 0 := fun h => hne (length_eq_zero_iff.mp h)
  rw [parseFraction, readLong_append hds hne hstop, hlong,
    (digits_append hds hstop).1]
  simp only [bind, Except.bind, if_neg (not_le.mpr hlt)]
  have hscale : scaleFraction ⟨message, ch 'S' :: rest⟩ (numeral f) f.length =
      .ok (numeral f * 10 ^ (3 - f.length)) := by
    obtain h | h | h : f.length = 1 ∨ f.length = 2 ∨ f.length = 3 := by omega
    · simp [scaleFraction, h, toLong_of_lt (x := (numeral f : Int) * 100) (by omega) (by omega)]
    · simp [scaleFraction, h, toLong_of_lt (x := (numeral f : Int) * 10) (by omega) (by omega)]
    · simp [scaleFraction, h]
  rw [hscale]
  simp [checkCurrentAndSkip, pure, Except.pure]

theorem parseComponents_cons (hloop : Designators designator fractions own) (hc : c.WellFormed)
    (hown : own c.designator) (hlen : c.fraction.length ≤ 3) (hlevel : level ≤ c.designator.level) :
    parseComponents designator fractions back (n + 1) millis level ⟨message, c.text ++ rest⟩ =
      parseComponents designator fractions back n (toLong (millis + c.millis))
        (c.designator.level + 1) ⟨message, rest⟩ := by
  rw [parseComponents, atDigit_append hc.ne_nil hc.digits, if_pos rfl]
  by_cases hf : c.fraction = []
  · have htext : c.text ++ rest = c.digits ++ (c.designator.letter :: rest) := by
      simp [Component.text, hf]
    have hmillis : c.millis = c.designator.inMillis * numeral c.digits := by
      simp [Component.millis, hf]
    rw [htext, readLong_append hc.digits hc.ne_nil (noDigit_letter _)]
    simp only [bind, Except.bind, readCurrentAndSkip, hloop.letter _ hown, checkLevel,
      if_neg (Nat.not_lt.mpr hlevel), toLong_add_mul, hmillis]
  · have hsecond := hc.seconds hf
    have htext : c.text ++ rest = c.digits ++ (ch '.' :: (c.fraction ++ ch 'S' :: rest)) := by
      simp [Component.text, hf, hsecond, Designator.letter]
    rw [htext, readLong_append hc.digits hc.ne_nil (noDigit_cons.mpr rfl)]
    rw [hsecond] at hown hlevel
    simp only [bind, Except.bind, readCurrentAndSkip, hloop.point,
      hloop.second.mpr hown, true_and, if_true, checkLevel, if_neg (Nat.not_lt.mpr hlevel),
      parseFraction_append hc.fraction hf hlen, toLong_add_mul, toLong_toLong_add,
      Component.millis, hsecond, add_assoc]

/-- The level behind some components. -/
def levelAfter : Nat → List Component → Nat
  | level, [] => level
  | _, c :: cs => levelAfter (c.designator.level + 1) cs

/-- What a loop reads from a level on. -/
structure Readable (own : Designator → Prop) (level : Nat) (cs : List Component) : Prop where
  wellFormed : ∀ c ∈ cs, c.WellFormed
  own : ∀ c ∈ cs, own c.designator
  inMillis : ∀ c ∈ cs, c.fraction.length ≤ 3
  ordered : Ordered level cs

theorem Readable.of_cons (h : Readable own level (c :: cs)) :
    Readable own (c.designator.level + 1) cs where
  wellFormed d hd := h.wellFormed d (mem_cons_of_mem _ hd)
  own d hd := h.own d (mem_cons_of_mem _ hd)
  inMillis d hd := h.inMillis d (mem_cons_of_mem _ hd)
  ordered := h.ordered.2

theorem Readable.cons (hc : c.WellFormed) (hown : own c.designator) (hlen : c.fraction.length ≤ 3)
    (hlevel : level ≤ c.designator.level) (h : Readable own (c.designator.level + 1) cs) :
    Readable own level (c :: cs) where
  wellFormed := forall_mem_cons.mpr ⟨hc, h.wellFormed⟩
  own := forall_mem_cons.mpr ⟨hown, h.own⟩
  inMillis := forall_mem_cons.mpr ⟨hlen, h.inMillis⟩
  ordered := ⟨hlevel, h.ordered⟩

theorem parseComponents_flatMap (hloop : Designators designator fractions own)
    (hcs : Readable own level cs) (hrest : NoDigit rest) (hn : cs.length < n) :
    parseComponents designator fractions back n (toLong millis) level
        ⟨message, cs.flatMap Component.text ++ rest⟩ =
      .ok (toLong (millis + (cs.map Component.millis).sum), levelAfter level cs,
        ⟨message, rest⟩) := by
  induction cs generalizing n millis level with
  | nil =>
    obtain ⟨n, rfl⟩ := Nat.exists_eq_succ_of_ne_zero (Nat.ne_zero_of_lt hn)
    rw [flatMap_nil, nil_append, parseComponents, atDigit_eq_false hrest]
    simp [levelAfter, pure, Except.pure]
  | cons c cs ih =>
    obtain ⟨n, rfl⟩ := Nat.exists_eq_succ_of_ne_zero (Nat.ne_zero_of_lt hn)
    rw [flatMap_cons, append_assoc,
      parseComponents_cons hloop (hcs.wellFormed c mem_cons_self)
        (hcs.own c mem_cons_self) (hcs.inMillis c mem_cons_self) hcs.ordered.1,
      toLong_toLong_add, ih hcs.of_cons (Nat.lt_of_succ_lt_succ hn), map_cons,
      sum_cons, add_assoc]
    rfl

theorem scaleFraction_eq_ok {tmp v : Int} {length : Nat} (h : scaleFraction r tmp length = .ok v) :
    length ≠ 0 ∧ length ≤ 3 := by
  unfold scaleFraction at h
  split_ifs at h <;> omega

theorem parseFraction_eq_ok {res : Int × StringReader}
    (h : parseFraction ⟨message, rest⟩ = .ok res) :
    ∃ f rest', (∀ d ∈ f, isDigit d = true) ∧ f ≠ [] ∧ f.length ≤ 3 ∧
      rest = f ++ ch 'S' :: rest' := by
  obtain ⟨⟨tmp, r⟩, hread, h⟩ := bind_eq_ok h
  obtain ⟨-, hres⟩ := readLong_eq_ok hread
  obtain ⟨-, rfl⟩ := Prod.mk.inj hres
  dsimp only at h
  split_ifs at h with hlarge
  · cases h
  obtain ⟨millis, hmillis, h⟩ := bind_eq_ok h
  obtain ⟨r', hS, -⟩ := bind_eq_ok h
  obtain ⟨rest', hrest, -⟩ := checkCurrentAndSkip_eq_ok hS
  obtain ⟨hpos, hlen⟩ := scaleFraction_eq_ok hmillis
  refine ⟨StringReader.digits ⟨message, rest⟩, rest',
    fun _ hd => isDigit_of_mem_digits hd,
    ne_nil_of_length_pos (Nat.pos_of_ne_zero hpos), hlen, ?_⟩
  rw [← hrest]
  exact (digits_append_skipDigits ⟨message, rest⟩).symm

theorem parseComponents_succ_eq_ok (hloop : Designators designator fractions own)
    (hdigit : (⟨message, rest⟩ : StringReader).atDigit = true)
    (h : parseComponents designator fractions back (n + 1) millis level ⟨message, rest⟩ = .ok res) :
    ∃ (c : Component) (rest' : JavaString), c.WellFormed ∧ own c.designator ∧
      c.fraction.length ≤ 3 ∧ level ≤ c.designator.level ∧ rest = c.text ++ rest' := by
  rw [parseComponents, if_pos hdigit] at h
  obtain ⟨⟨tmp, r⟩, hread, h⟩ := bind_eq_ok h
  obtain ⟨-, hres⟩ := readLong_eq_ok hread
  obtain ⟨-, rfl⟩ := Prod.mk.inj hres
  obtain ⟨res', hskip, h⟩ := bind_eq_ok h
  obtain ⟨x, rest₁, hrest, rfl⟩ := readCurrentAndSkip_eq_ok hskip
  have hsplit : StringReader.digits ⟨message, rest⟩ ++ x :: rest₁ = rest := by
    rw [← hrest]
    exact digits_append_skipDigits _
  have hds : ∀ d ∈ StringReader.digits ⟨message, rest⟩, isDigit d = true :=
    fun _ hd => isDigit_of_mem_digits hd
  have hne := digits_ne_nil hdigit
  dsimp only at h
  cases hx : designator x with
  | some d =>
    rw [hx] at h
    obtain ⟨level', hlevel, -⟩ := bind_eq_ok h
    obtain ⟨hown, rfl⟩ := hloop.of_letter x d hx
    exact ⟨⟨d, StringReader.digits ⟨message, rest⟩, []⟩, rest₁,
      ⟨hne, hds, forall_mem_nil _, fun h => absurd rfl h⟩, hown, Nat.zero_le _,
      le_of_checkLevel hlevel, by simpa [Component.text] using hsplit.symm⟩
  | none =>
    rw [hx] at h
    split_ifs at h with hpoint
    obtain ⟨hfractions, rfl⟩ := hpoint
    obtain ⟨level', hlevel, h⟩ := bind_eq_ok h
    obtain ⟨res', hfraction, -⟩ := bind_eq_ok h
    obtain ⟨f, rest', hf, hfne, hflen, hfrest⟩ := parseFraction_eq_ok hfraction
    refine ⟨⟨.second, StringReader.digits ⟨message, rest⟩, f⟩, rest',
      ⟨hne, hds, hf, fun _ => rfl⟩, hloop.second.mp hfractions, hflen, le_of_checkLevel hlevel, ?_⟩
    rw [hfrest] at hsplit
    simpa [Component.text, hfne, Designator.letter] using hsplit.symm

theorem one_le_length_text (c : Component) : 1 ≤ c.text.length := by
  rw [Component.text, length_append, length_singleton]
  exact Nat.le_add_left _ _

theorem length_le_flatMap_text (hcs : ∀ c ∈ cs, c.WellFormed) :
    cs.length ≤ (cs.flatMap Component.text).length := by
  induction cs with
  | nil => exact Nat.le_refl _
  | cons c cs ih =>
    have h := ih fun d hd => hcs d (mem_cons_of_mem _ hd)
    have hc := one_le_length_text c
    rw [flatMap_cons, length_append, length_cons]
    omega

/-- **What a loop returns**, given turns enough for the rest of the message. -/
theorem parseComponents_eq_ok_iff (hloop : Designators designator fractions own)
    (hn : rest.length < n) :
    parseComponents designator fractions back n (toLong millis) level ⟨message, rest⟩ = .ok res ↔
      ∃ cs rest', Readable own level cs ∧ NoDigit rest' ∧
        rest = cs.flatMap Component.text ++ rest' ∧
        res = (toLong (millis + (cs.map Component.millis).sum), levelAfter level cs,
          ⟨message, rest'⟩) := by
  constructor
  · intro h
    induction n generalizing millis level rest with
    | zero => exact absurd hn (Nat.not_lt_zero _)
    | succ n ih =>
      by_cases hdigit : (⟨message, rest⟩ : StringReader).atDigit = true
      · obtain ⟨c, rest', hc, hown, hlen, hlevel, rfl⟩ := parseComponents_succ_eq_ok hloop hdigit h
        rw [parseComponents_cons hloop hc hown hlen hlevel, toLong_toLong_add] at h
        have hc1 := one_le_length_text c
        rw [length_append] at hn
        obtain ⟨cs, rest'', hcs, hrest, rfl, rfl⟩ := ih (by omega) h
        exact ⟨c :: cs, rest'', hcs.cons hc hown hlen hlevel, hrest, by
          rw [flatMap_cons, append_assoc], by
          rw [map_cons, sum_cons, add_assoc]
          rfl⟩
      · rw [parseComponents, if_neg hdigit] at h
        refine ⟨[], rest, ⟨forall_mem_nil _, forall_mem_nil _, forall_mem_nil _,
          trivial⟩, noDigit_of_atDigit hdigit, rfl, ?_⟩
        simpa [levelAfter, pure, Except.pure] using h.symm
  · rintro ⟨cs, rest', hcs, hrest, rfl, rfl⟩
    have hlen := length_le_flatMap_text hcs.wellFormed
    rw [length_append] at hn
    exact parseComponents_flatMap hloop hcs hrest (by omega)

end Components

section Durations

variable {message rest s : JavaString} {level : Nat} {cs : List Component} {v : Int}

theorem Ordered.le (h : Ordered level cs) : ∀ c ∈ cs, level ≤ c.designator.level := by
  induction cs generalizing level with
  | nil => exact forall_mem_nil _
  | cons c cs ih =>
    exact forall_mem_cons.mpr ⟨h.1, fun d hd => Nat.le_trans h.1 (Nat.le_of_succ_le (ih h.2 d hd))⟩

theorem levelAfter_le (h : ∀ c ∈ cs, c.designator.level < 3) (hlevel : level ≤ 3) :
    levelAfter level cs ≤ 3 := by
  induction cs generalizing level with
  | nil => exact hlevel
  | cons c cs ih =>
    exact ih (fun d hd => h d (mem_cons_of_mem _ hd)) (h c mem_cons_self)

theorem Ordered.of_le {level' : Nat} (h : Ordered level cs) (hle : level' ≤ level) :
    Ordered level' cs := by
  cases cs with
  | nil => trivial
  | cons c cs => exact ⟨Nat.le_trans hle h.1, h.2⟩

theorem Ordered.of_forall_le {level' : Nat} (h : Ordered level cs)
    (hle : ∀ c ∈ cs, level' ≤ c.designator.level) : Ordered level' cs := by
  cases cs with
  | nil => trivial
  | cons c cs => exact ⟨hle c mem_cons_self, h.2⟩

namespace DurationText

variable {d : DurationText}

theorem readable_date (h : d.WellFormed) (hm : d.InMillis) :
    Readable (fun d => d.level < 3) 0 d.date where
  wellFormed c hc := h.components c (mem_append_left _ hc)
  own := h.date
  inMillis c hc := hm c (mem_append_left _ hc)
  ordered := h.date_ordered

theorem readable_time (h : d.WellFormed) (hm : d.InMillis) (htime : d.time = some cs)
    (hlevel : level ≤ 3) : Readable (fun d => 3 ≤ d.level) level cs where
  wellFormed c hc := h.components c (mem_append_right _ (by rw [htime]; exact hc))
  own := (h.time_ordered cs htime).le
  inMillis c hc := hm c (mem_append_right _ (by rw [htime]; exact hc))
  ordered := (h.time_ordered cs htime).of_le hlevel

theorem wellFormed_of_readable (sign : Sign) {date : List Component}
    (time : Option (List Component)) (level : Nat) (hdate : Readable (fun d => d.level < 3) 0 date)
    (htime : ∀ cs ∈ time, Readable (fun d => 3 ≤ d.level) level cs) :
    (⟨sign, date, time⟩ : DurationText).WellFormed ∧
      (⟨sign, date, time⟩ : DurationText).InMillis := by
  have hmem : ∀ c, c ∈ (⟨sign, date, time⟩ : DurationText).components →
      c ∈ date ∨ ∃ cs ∈ time, c ∈ cs := by
    intro c hc
    obtain hc | hc := mem_append.mp hc
    · exact Or.inl hc
    · cases time with
      | none => cases hc
      | some cs => exact Or.inr ⟨cs, rfl, hc⟩
  refine ⟨⟨fun c hc => ?_, hdate.own, hdate.ordered, fun cs hcs =>
    (htime cs hcs).ordered.of_forall_le (htime cs hcs).own⟩, fun c hc => ?_⟩
  · obtain hc | ⟨cs, hcs, hc⟩ := hmem c hc
    · exact hdate.wellFormed c hc
    · exact (htime cs hcs).wellFormed c hc
  · obtain hc | ⟨cs, hcs, hc⟩ := hmem c hc
    · exact hdate.inMillis c hc
    · exact (htime cs hcs).inMillis c hc

end DurationText

theorem noDigit_timeText (time : Option (List Component)) : NoDigit (DurationText.timeText time) := by
  cases time with
  | none => exact noDigit_nil
  | some cs => exact noDigit_cons.mpr rfl

theorem parseUnsigned_body {d : DurationText} (h : d.WellFormed) (hm : d.InMillis)
    (hlen : d.body.length ≤ message.length) :
    parseUnsigned ⟨message, d.body⟩ = .ok (toLong d.total) := by
  have hdate := DurationText.readable_date h hm
  have hlevel := levelAfter_le h.date (Nat.zero_le 3)
  have hlen_date := length_le_flatMap_text hdate.wellFormed
  rw [DurationText.body, length_cons, length_append] at hlen
  have hparse : parseComponents Designator.ofDate false 1 (message.length + 1) (toLong 0) 0
      ⟨message, d.date.flatMap Component.text ++ DurationText.timeText d.time⟩ =
      .ok (toLong (0 + (d.date.map Component.millis).sum), levelAfter 0 d.date,
        ⟨message, DurationText.timeText d.time⟩) :=
    parseComponents_flatMap designators_ofDate hdate (noDigit_timeText d.time) (by omega)
  rw [parseUnsigned, DurationText.body, checkCurrentAndSkip_cons]
  simp only [bind, Except.bind, parseDateComponents]
  rw [show (0 : Int) = toLong 0 from rfl, hparse]
  cases htime : d.time with
  | none =>
    simp [DurationText.timeText, parseTimePart, isTerminated,
      checkTerminated, pure, Except.pure, DurationText.total, DurationText.components,
      htime]
  | some cs =>
    have hcs := DurationText.readable_time h hm htime hlevel
    have hlen_time := length_le_flatMap_text hcs.wellFormed
    rw [htime, DurationText.timeText, length_cons] at hlen
    have hparse : parseComponents Designator.ofTime true 0 (message.length + 1)
        (toLong (0 + (d.date.map Component.millis).sum)) (levelAfter 0 d.date)
        ⟨message, cs.flatMap Component.text ++ []⟩ =
        .ok (toLong (0 + (d.date.map Component.millis).sum + (cs.map Component.millis).sum),
          levelAfter (levelAfter 0 d.date) cs, ⟨message, []⟩) :=
      parseComponents_flatMap designators_ofTime hcs noDigit_nil (by omega)
    rw [append_nil] at hparse
    simp only [DurationText.timeText, parseTimePart, isTerminated, isEmpty_cons,
      Bool.false_eq_true, if_false, checkCurrentAndSkip_cons, parseTimeComponents, bind,
      Except.bind, hparse]
    simp [isTerminated, checkTerminated, pure,
      Except.pure, DurationText.total, DurationText.components, htime]

theorem parseUnsigned_eq_ok (sign : Sign) (hlen : rest.length ≤ message.length)
    (h : parseUnsigned ⟨message, rest⟩ = .ok v) :
    ∃ d : DurationText, d.sign = sign ∧ d.WellFormed ∧ d.InMillis ∧ d.body = rest := by
  obtain ⟨r, hP, h⟩ := bind_eq_ok h
  obtain ⟨rest₁, rfl, rfl⟩ := checkCurrentAndSkip_eq_ok hP
  rw [length_cons] at hlen
  obtain ⟨res, hparse, h⟩ := bind_eq_ok h
  have hzero : (0 : Int) = toLong 0 := rfl
  rw [parseDateComponents, hzero] at hparse
  obtain ⟨date, rest₂, hdate, -, rfl, rfl⟩ :=
    (parseComponents_eq_ok_iff designators_ofDate (Nat.lt_succ_of_lt hlen)).mp hparse
  obtain ⟨⟨m, r⟩, htail, h⟩ := bind_eq_ok h
  obtain ⟨_, hend, -⟩ := bind_eq_ok h
  have hnil := rest_eq_nil_of_checkTerminated hend
  unfold parseTimePart at htail
  split_ifs at htail with hterminated
  · obtain rfl : rest₂ = [] := isEmpty_iff.mp hterminated
    have hwf := DurationText.wellFormed_of_readable sign none 3 hdate nofun
    exact ⟨⟨sign, date, none⟩, rfl, hwf.1, hwf.2, rfl⟩
  · obtain ⟨r, hT, htail⟩ := bind_eq_ok htail
    obtain ⟨rest₃, rfl, rfl⟩ := checkCurrentAndSkip_eq_ok hT
    rw [length_append, length_cons] at hlen
    have hturns : rest₃.length < message.length + 1 := by omega
    obtain ⟨res, hparse, htail⟩ := bind_eq_ok htail
    obtain ⟨time, rest₄, htime, -, rfl, rfl⟩ :=
      (parseComponents_eq_ok_iff designators_ofTime hturns).mp hparse
    cases htail
    obtain rfl : rest₄ = [] := hnil
    have hwf := DurationText.wellFormed_of_readable sign (some time) (levelAfter 0 date) hdate
      fun cs hcs => by
        obtain rfl := Option.some.inj hcs
        exact htime
    exact ⟨⟨sign, date, some time⟩, rfl, hwf.1, hwf.2, by
      rw [DurationText.body, DurationText.timeText, append_nil]⟩

theorem parseDuration_text_eq (d : DurationText) :
    parseDuration d.text = (parseUnsigned ⟨d.text, d.body⟩).map fun millis =>
      if d.sign = .minus then toLong (-millis) else millis := by
  obtain ⟨sign, date, time⟩ := d
  cases sign <;> rfl

/-- **A text in the shape of a duration is read.** -/
theorem parseDuration_text {d : DurationText} (h : d.WellFormed) (hm : d.InMillis) :
    parseDuration d.text = .ok (toLong d.millis) := by
  have hlen : d.body.length ≤ d.text.length := by
    rw [DurationText.text, length_append]
    exact Nat.le_add_left _ _
  rw [parseDuration_text_eq, parseUnsigned_body h hm hlen, Except.map, DurationText.millis]
  cases d.sign with
  | minus =>
    rw [if_pos rfl, Sign.factor, Int.neg_one_mul]
    exact congrArg Except.ok bmod_neg_bmod
  | none =>
    have hone : Sign.none.factor = 1 := rfl
    rw [if_neg (by decide), hone, Int.one_mul]
  | plus =>
    have hone : Sign.plus.factor = 1 := rfl
    rw [if_neg (by decide), hone, Int.one_mul]

theorem exists_text_of_parseDuration (h : parseDuration s = .ok v) :
    ∃ d : DurationText, d.WellFormed ∧ d.InMillis ∧ d.text = s := by
  cases s with
  | nil => cases h
  | cons c s =>
    rw [parseDuration, ofMessage] at h
    obtain ⟨_, hc, h⟩ := bind_eq_ok h
    obtain rfl := Except.ok.inj hc
    by_cases hsign : c = ch '-' ∨ c = ch '+'
    · rw [if_pos hsign] at h
      obtain ⟨r, hr, h⟩ := bind_eq_ok h
      obtain rfl := Except.ok.inj hr
      obtain ⟨m, hm, -⟩ := bind_eq_ok h
      obtain rfl | rfl := hsign
      · obtain ⟨d, hsign, hd, hmillis, hbody⟩ := parseUnsigned_eq_ok .minus (by simp) hm
        exact ⟨d, hd, hmillis, by rw [DurationText.text, hsign, hbody]; rfl⟩
      · obtain ⟨d, hsign, hd, hmillis, hbody⟩ := parseUnsigned_eq_ok .plus (by simp) hm
        exact ⟨d, hd, hmillis, by rw [DurationText.text, hsign, hbody]; rfl⟩
    · rw [if_neg hsign] at h
      obtain ⟨r, hr, h⟩ := bind_eq_ok h
      obtain rfl := Except.ok.inj hr
      obtain ⟨m, hm, -⟩ := bind_eq_ok h
      obtain ⟨d, hsign, hd, hmillis, hbody⟩ := parseUnsigned_eq_ok .none (Nat.le_refl _) hm
      exact ⟨d, hd, hmillis, by rw [DurationText.text, hsign, hbody]; rfl⟩

/-- **What is accepted, and what is returned.** -/
theorem parseDuration_eq_ok_iff :
    parseDuration s = .ok v ↔
      ∃ d : DurationText, d.WellFormed ∧ d.InMillis ∧ d.text = s ∧ v = toLong d.millis := by
  constructor
  · intro h
    obtain ⟨d, hd, hm, rfl⟩ := exists_text_of_parseDuration h
    rw [parseDuration_text hd hm] at h
    exact ⟨d, hd, hm, rfl, (Except.ok.inj h).symm⟩
  · rintro ⟨d, hd, hm, rfl, rfl⟩
    exact parseDuration_text hd hm

end Durations

section Exactness

variable {ds ds' rest rest' s : JavaString} {level level' : Nat} {cs cs' : List Component}

theorem digits_inj (hds : ∀ d ∈ ds, isDigit d = true) (hds' : ∀ d ∈ ds', isDigit d = true)
    (hrest : NoDigit rest) (hrest' : NoDigit rest') (h : ds ++ rest = ds' ++ rest') :
    ds = ds' ∧ rest = rest' := by
  have hds_eq := takeWhile_digits hds hrest
  have hrest_eq := dropWhile_digits hds hrest
  rw [h, takeWhile_digits hds' hrest'] at hds_eq
  rw [h, dropWhile_digits hds' hrest'] at hrest_eq
  exact ⟨hds_eq.symm, hrest_eq.symm⟩

theorem text_eq (c : Component) (rest : JavaString) :
    ∃ tail, c.text ++ rest = c.digits ++ tail ∧ NoDigit tail ∧
      tail = (if c.fraction = [] then [] else ch '.' :: c.fraction) ++ c.designator.letter :: rest := by
  refine ⟨_, ?_, ?_, rfl⟩
  · simp [Component.text]
  · split_ifs with h
    · exact noDigit_letter _
    · exact noDigit_cons.mpr rfl

section

variable {fractions : Bool} (hloop : Designators designator fractions own)

include hloop

theorem component_inj {c c' : Component} (hc : c.WellFormed) (hc' : c'.WellFormed)
    (hown : own c.designator) (hown' : own c'.designator) (h : c.text ++ rest = c'.text ++ rest') :
    c = c' ∧ rest = rest' := by
  obtain ⟨tail, htext, htail, rfl⟩ := text_eq c rest
  obtain ⟨tail', htext', htail', rfl⟩ := text_eq c' rest'
  rw [htext, htext'] at h
  obtain ⟨hdigits, h⟩ := digits_inj hc.digits hc'.digits htail htail' h
  obtain ⟨d, ds, f⟩ := c
  obtain ⟨d', ds', f'⟩ := c'
  have hletter : d.letter = d'.letter → d = d' := fun heq => by
    have hd := hloop.letter d hown
    rw [heq, hloop.letter d' hown'] at hd
    exact (Option.some.inj hd).symm
  have hpoint : ∀ d : Designator, d.letter ≠ ch '.' := by
    intro d
    cases d <;> decide
  obtain rfl : ds = ds' := hdigits
  by_cases hf : f = []
  · by_cases hf' : f' = []
    · rw [if_pos hf, if_pos hf', nil_append, nil_append] at h
      obtain ⟨heq, hrest⟩ := cons.inj h
      exact ⟨by rw [hletter heq, hf, hf'], hrest⟩
    · rw [if_pos hf, if_neg hf', nil_append, cons_append] at h
      exact absurd (cons.inj h).1 (hpoint d)
  · by_cases hf' : f' = []
    · rw [if_neg hf, if_pos hf', nil_append, cons_append] at h
      exact absurd (cons.inj h).1.symm (hpoint d')
    · rw [if_neg hf, if_neg hf', cons_append, cons_append] at h
      obtain ⟨hfraction, htail⟩ := digits_inj hc.fraction hc'.fraction (noDigit_letter d)
        (noDigit_letter d') (cons.inj h).2
      obtain ⟨heq, hrest⟩ := cons.inj htail
      obtain rfl : f = f' := hfraction
      exact ⟨by rw [hletter heq], hrest⟩

theorem flatMap_text_inj (hcs : ∀ c ∈ cs, c.WellFormed ∧ own c.designator)
    (hcs' : ∀ c ∈ cs', c.WellFormed ∧ own c.designator) (hrest : NoDigit rest)
    (hrest' : NoDigit rest')
    (h : cs.flatMap Component.text ++ rest = cs'.flatMap Component.text ++ rest') :
    cs = cs' ∧ rest = rest' := by
  have hdigit : ∀ (c : Component) (tail : JavaString), c.WellFormed → ¬NoDigit (c.text ++ tail) := by
    intro c tail hc hno
    have h : (⟨[], c.text ++ tail⟩ : StringReader).atDigit = true :=
      atDigit_append hc.ne_nil hc.digits
    rw [atDigit_eq_false hno] at h
    cases h
  induction cs generalizing cs' with
  | nil =>
    cases cs' with
    | nil => exact ⟨rfl, h⟩
    | cons c' cs' =>
      rw [flatMap_nil, nil_append, flatMap_cons, append_assoc] at h
      exact absurd (h ▸ hrest) (hdigit c' _ (hcs' c' mem_cons_self).1)
  | cons c cs ih =>
    obtain ⟨hc, hcs⟩ := forall_mem_cons.mp hcs
    rw [flatMap_cons, append_assoc] at h
    cases cs' with
    | nil =>
      rw [flatMap_nil, nil_append] at h
      exact absurd (h ▸ hrest') (hdigit c _ hc.1)
    | cons c' cs' =>
      obtain ⟨hc', hall'⟩ := forall_mem_cons.mp hcs'
      rw [flatMap_cons, append_assoc] at h
      obtain ⟨rfl, htail⟩ := component_inj hloop hc.1 hc'.1 hc.2 hc'.2 h
      obtain ⟨rfl, hrest⟩ := ih hcs hall' htail
      exact ⟨rfl, hrest⟩

end

namespace DurationText

variable {d d' : DurationText}

theorem wellFormed_date (h : d.WellFormed) :
    ∀ c ∈ d.date, c.WellFormed ∧ c.designator.level < 3 := fun c hc =>
  ⟨h.components c (mem_append_left _ hc), h.date c hc⟩

theorem wellFormed_time (h : d.WellFormed) (htime : d.time = some cs) :
    ∀ c ∈ cs, c.WellFormed ∧ 3 ≤ c.designator.level := fun c hc =>
  ⟨h.components c (mem_append_right _ (by rw [htime]; exact hc)),
    (h.time_ordered cs htime).le c hc⟩

theorem body_inj (h : d.WellFormed) (h' : d'.WellFormed) (hbody : d.body = d'.body) :
    d.date = d'.date ∧ d.time = d'.time := by
  obtain ⟨hdate, htime⟩ := flatMap_text_inj designators_ofDate (wellFormed_date h)
    (wellFormed_date h') (noDigit_timeText _) (noDigit_timeText _) (cons.inj hbody).2
  refine ⟨hdate, ?_⟩
  cases hd : d.time with
  | none =>
    cases hd' : d'.time with
    | none => rfl
    | some cs' =>
      rw [hd, hd'] at htime
      cases htime
  | some cs =>
    cases hd' : d'.time with
    | none =>
      rw [hd, hd'] at htime
      cases htime
    | some cs' =>
      rw [hd, hd', timeText, timeText] at htime
      have h := (cons.inj htime).2
      rw [← append_nil (cs.flatMap Component.text),
        ← append_nil (cs'.flatMap Component.text)] at h
      rw [(flatMap_text_inj designators_ofTime (wellFormed_time ‹_› hd) (wellFormed_time h' hd')
        noDigit_nil noDigit_nil h).1]

/-- **A text spells one duration.** -/
theorem text_inj (h : d.WellFormed) (h' : d'.WellFormed) (htext : d.text = d'.text) : d = d' := by
  have hsign : d.sign = d'.sign ∧ d.body = d'.body := by
    rw [text, text] at htext
    cases hs : d.sign <;> cases hs' : d'.sign <;> rw [hs, hs'] at htext <;>
      first
        | exact ⟨rfl, htext⟩
        | exact ⟨rfl, (cons.inj htext).2⟩
        | exact absurd (cons.inj htext).1 (by decide)
  obtain ⟨hdate, htime⟩ := body_inj h h' hsign.2
  obtain ⟨sign, date, time⟩ := d
  obtain ⟨sign', date', time'⟩ := d'
  obtain ⟨rfl, -⟩ := hsign
  obtain rfl : date = date' := hdate
  obtain rfl : time = time' := htime
  rfl

end DurationText

/-- The parser throws, or returns the integer value of the `xs:duration` that the text spells. -/
def ExactDuration (s : JavaString) : Prop :=
  ∀ v, parseDuration s = .ok v →
    ∃ d : DurationText, d.IsDuration ∧ d.text = s ∧ (v : ℚ) = d.value

/-- A text with the shape of a duration is an `xs:duration` whose value is a `long`. -/
def FitsDuration (s : JavaString) : Prop :=
  ∀ d : DurationText, d.WellFormed → d.InMillis → d.text = s →
    d.IsDuration ∧ -2 ^ 63 ≤ d.millis ∧ d.millis < 2 ^ 63

/-- **When the parser is exact or refuses.** -/
theorem exactDuration_iff (s : JavaString) : ExactDuration s ↔ FitsDuration s := by
  constructor
  · rintro h d hd hm rfl
    obtain ⟨d', hd', htext, hvalue⟩ := h _ (parseDuration_text hd hm)
    obtain rfl := DurationText.text_inj hd'.toWellFormed hd htext
    rw [← DurationText.cast_millis hm, Int.cast_inj] at hvalue
    refine ⟨hd', ?_, ?_⟩
    · rw [← hvalue]
      exact le_toLong _
    · rw [← hvalue]
      exact toLong_lt _
  · intro h v hv
    obtain ⟨d, hd, hm, rfl, rfl⟩ := parseDuration_eq_ok_iff.mp hv
    obtain ⟨hdur, hmin, hmax⟩ := h d hd hm rfl
    exact ⟨d, hdur, rfl, by rw [toLong_of_range hmin hmax, DurationText.cast_millis hm]⟩

end Exactness

section RoundTrip

variable {d : Designator} {n a : Nat} {sign : Sign} {minLen : Nat}

theorem javaLong_natCast (n : Nat) : javaLong n = decimal n := by
  rw [javaLong, if_neg (Int.not_lt.mpr (natCast_nonneg n)), nil_append, natAbs_natCast]

theorem appendPadded_natCast (n minLen : Nat) :
    appendPadded n minLen =
      replicate (minLen - (decimal n).length) (ch '0') ++ decimal n := by
  rw [appendPadded, if_neg (Int.not_lt.mpr (natCast_nonneg n)), nil_append,
    natAbs_natCast]

theorem isDigit_of_mem_appendPadded {c : UInt16} (h : c ∈ appendPadded n minLen) :
    isDigit c = true := by
  rw [appendPadded_natCast] at h
  obtain h | h := mem_append.mp h
  · rw [(mem_replicate.mp h).2]
    rfl
  · exact isDigit_of_mem_decimal h

theorem numeral_appendPadded (n minLen : Nat) : numeral (appendPadded n minLen) = n := by
  rw [appendPadded_natCast, numeral_replicate_zero, numeral_decimal]

theorem length_appendPadded (hpos : 0 < minLen) (h : n < 10 ^ minLen) :
    (appendPadded n minLen).length = minLen := by
  have hlen : (decimal n).length ≤ minLen := by
    rw [decimal, length_map]
    exact (Nat.length_toDigits_le_iff (by decide) hpos).mpr h
  rw [appendPadded_natCast, length_append, length_replicate]
  omega

/-- A component with a number and no fraction, left out where it is zero. -/
def whole (d : Designator) (n : Nat) : List Component :=
  if n = 0 then [] else [⟨d, decimal n, []⟩]

/-- The seconds of a formatted duration. -/
def formattedSeconds (seconds millis : Nat) : List Component :=
  if millis = 0 then whole .second seconds
  else [⟨.second, decimal seconds, appendPadded millis 3⟩]

/-- What stands behind the `T` for a part of a day. -/
def formattedTime (time : Nat) : List Component :=
  whole .hour (time / 3600000) ++ whole .minute (time % 3600000 / 60000) ++
    formattedSeconds (time % 60000 / 1000) (time % 1000)

/-- The text of a duration that is formatted, for its sign and its absolute value. -/
def formatted (sign : Sign) (a : Nat) : DurationText where
  sign
  date := whole .day (a / 86400000)
  time := if a % 86400000 = 0 then none else some (formattedTime (a % 86400000))

theorem readable_whole {level : Nat} (hown : own d) (hlevel : level ≤ d.level) :
    Readable own level (whole d n) := by
  unfold whole
  split_ifs with h
  · exact ⟨forall_mem_nil _, forall_mem_nil _, forall_mem_nil _, trivial⟩
  · refine Readable.cons ⟨decimal_ne_nil, fun _ => isDigit_of_mem_decimal, forall_mem_nil _,
      fun h => absurd rfl h⟩ hown (Nat.zero_le 3) hlevel ?_
    exact ⟨forall_mem_nil _, forall_mem_nil _, forall_mem_nil _, trivial⟩

theorem Readable.append {level level' : Nat} {cs cs' : List Component} (h : Readable own level cs)
    (h' : Readable own level' cs') (hle : level ≤ level')
    (hlt : ∀ c ∈ cs, c.designator.level < level') : Readable own level (cs ++ cs') := by
  induction cs generalizing level with
  | nil => exact ⟨h'.wellFormed, h'.own, h'.inMillis, h'.ordered.of_le hle⟩
  | cons c cs ih =>
    exact Readable.cons (h.wellFormed c mem_cons_self) (h.own c mem_cons_self)
      (h.inMillis c mem_cons_self) h.ordered.1
      (ih h.of_cons (hlt c mem_cons_self) fun d hd => hlt d (mem_cons_of_mem _ hd))

theorem designator_of_mem_whole {c : Component} (h : c ∈ whole d n) : c.designator = d := by
  unfold whole at h
  split_ifs at h
  · cases h
  · rw [mem_singleton.mp h]

theorem readable_formattedTime (time : Nat) :
    Readable (fun d => 3 ≤ d.level) 3 (formattedTime time) := by
  have hseconds : Readable (fun d => 3 ≤ d.level) 5
      (formattedSeconds (time % 60000 / 1000) (time % 1000)) := by
    unfold formattedSeconds
    split_ifs with h
    · exact readable_whole (by decide) (Nat.le_refl 5)
    · have hlen : (appendPadded (time % 1000 : Nat) 3).length = 3 :=
        length_appendPadded (by decide) (Nat.mod_lt _ (by decide))
      refine Readable.cons ⟨decimal_ne_nil, fun _ => isDigit_of_mem_decimal,
        fun _ => isDigit_of_mem_appendPadded, fun _ => rfl⟩ (Nat.le_add_left 3 2)
        (Nat.le_of_eq hlen) (Nat.le_refl 5) ?_
      exact ⟨forall_mem_nil _, forall_mem_nil _, forall_mem_nil _, trivial⟩
  have hminute : Readable (fun d => 3 ≤ d.level) 4 (whole .minute (time % 3600000 / 60000)) :=
    readable_whole (by decide) (Nat.le_refl 4)
  have hminutes := hminute.append hseconds (by decide) fun c hc => by
    rw [designator_of_mem_whole hc]
    decide
  rw [formattedTime, append_assoc]
  refine (readable_whole (by decide) (Nat.le_refl 3)).append hminutes (by decide) fun c hc => ?_
  rw [designator_of_mem_whole hc]
  decide

theorem formatted_readable (sign : Sign) (a : Nat) :
    (formatted sign a).WellFormed ∧ (formatted sign a).InMillis := by
  have hdays : Readable (fun d => d.level < 3) 0 (whole .day (a / 86400000)) :=
    readable_whole (by decide) (Nat.zero_le _)
  refine DurationText.wellFormed_of_readable sign _ 3 hdays fun cs hcs => ?_
  split_ifs at hcs with h
  · cases hcs
  · obtain rfl := Option.some.inj hcs
    exact readable_formattedTime _

/-! The parts add up to the whole. -/

theorem sum_millis_whole (d : Designator) (n : Nat) :
    ((whole d n).map Component.millis).sum = d.inMillis * n := by
  unfold whole
  split_ifs with h
  · simp [h]
  · simp [Component.millis, numeral_decimal]

theorem sum_millis_formattedSeconds (seconds : Nat) {millis : Nat} (h : millis < 1000) :
    ((formattedSeconds seconds millis).map Component.millis).sum = 1000 * seconds + millis := by
  unfold formattedSeconds
  split_ifs with hzero
  · rw [sum_millis_whole, hzero]
    rfl
  · have hlen : (appendPadded millis 3).length = 3 := length_appendPadded (by decide) h
    simp [Component.millis, numeral_decimal, numeral_appendPadded, hlen, Designator.inMillis]

theorem sum_millis_formattedTime (time : Nat) :
    ((formattedTime time).map Component.millis).sum = time := by
  have h := sum_millis_formattedSeconds (time % 60000 / 1000) (Nat.mod_lt time (by decide : 0 < 1000))
  rw [formattedTime, map_append, map_append, sum_append, sum_append, h,
    sum_millis_whole, sum_millis_whole]
  simp only [Designator.inMillis]
  omega

theorem total_formatted (sign : Sign) (a : Nat) : (formatted sign a).total = a := by
  have hsplit : ((formatted sign a).components.map Component.millis).sum =
      86400000 * (a / 86400000 : Nat) + (a % 86400000 : Nat) := by
    rw [DurationText.components, map_append, sum_append, formatted, sum_millis_whole]
    split_ifs with h
    · simp [h, Designator.inMillis]
    · rw [Option.getD_some, sum_millis_formattedTime]
      rfl
  rw [DurationText.total, hsplit]
  omega

theorem text_whole (d : Designator) (n : Nat) :
    (whole d n).flatMap Component.text =
      if (n : Int) ≠ 0 then javaLong n ++ [d.letter] else [] := by
  unfold whole
  by_cases h : n = 0
  · simp [h]
  · simp [h, Component.text, javaLong_natCast]

theorem text_formattedSeconds (seconds millis : Nat) :
    (formattedSeconds seconds millis).flatMap Component.text =
      if (millis : Int) ≠ 0 then javaLong seconds ++ [ch '.'] ++ appendPadded millis 3 ++ [ch 'S']
      else if (seconds : Int) ≠ 0 then javaLong seconds ++ [ch 'S'] else [] := by
  unfold formattedSeconds
  by_cases h : millis = 0
  · simp only [h, if_true, Nat.cast_zero, ne_eq, not_true, if_false, text_whole, Designator.letter]
  · have hne : appendPadded millis 3 ≠ [] := by
      exact append_ne_nil_of_right_ne_nil _ decimal_ne_nil
    simp [h, Component.text, hne, javaLong_natCast, Designator.letter]

theorem formatDuration_eq {duration : Int} (hne : duration ≠ 0) (hmin : -2 ^ 63 < duration)
    (hmax : duration < 2 ^ 63) :
    formatDuration duration =
      (formatted (if duration < 0 then .minus else .none) duration.natAbs).text := by
  have habs : (if duration < 0 then toLong (-duration) else duration) = duration.natAbs := by
    split_ifs with h
    · rw [toLong_of_lt (by omega) (by omega)]
      omega
    · omega
  have hday : Designator.day.inMillis = (86400000 : Nat) := rfl
  have hhour : Designator.hour.inMillis = (3600000 : Nat) := rfl
  have hminute : Designator.minute.inMillis = (60000 : Nat) := rfl
  have hsecond : Designator.second.inMillis = (1000 : Nat) := rfl
  rw [formatDuration, if_neg hne]
  simp only [habs, hday, hhour, hminute, hsecond, ← ofNat_tdiv, ← ofNat_tmod]
  have hsign : (if duration < 0 then [ch '-'] else []) =
      (if duration < 0 then Sign.minus else Sign.none).text := by
    split_ifs <;> rfl
  rw [hsign, DurationText.text, DurationText.body, formatted, text_whole]
  generalize duration.natAbs = a
  by_cases htime : a % 86400000 = 0
  · simp [htime, DurationText.timeText, Designator.letter]
  · rw [if_neg htime, DurationText.timeText, formattedTime, flatMap_append,
      flatMap_append, text_whole, text_whole, text_formattedSeconds,
      if_pos (natCast_ne_zero.mpr htime)]
    simp [Designator.letter]

theorem millis_formatted (duration : Int) :
    (formatted (if duration < 0 then .minus else .none) duration.natAbs).millis = duration := by
  have hsign : ∀ sign, (formatted sign duration.natAbs).sign = sign := fun _ => rfl
  rw [DurationText.millis, total_formatted, hsign]
  split_ifs with h
  · have hfactor : Sign.minus.factor = -1 := rfl
    rw [hfactor]
    omega
  · have hfactor : Sign.none.factor = 1 := rfl
    rw [hfactor]
    omega

theorem parseDuration_formatDuration_minValue :
    parseDuration (formatDuration (-2 ^ 63)) =
      .error ⟨javaString "-P-106751991167DT-7H-12M-55.-808S", 2⟩ := by
  decide

/-- **A duration comes back, unless it is the least `long`**, which has no absolute value. -/
theorem parseDuration_formatDuration_iff {duration : Int} (hmin : -2 ^ 63 ≤ duration)
    (hmax : duration < 2 ^ 63) :
    parseDuration (formatDuration duration) = .ok duration ↔ duration ≠ -2 ^ 63 := by
  constructor
  · rintro h rfl
    rw [parseDuration_formatDuration_minValue] at h
    cases h
  · intro hne
    by_cases hzero : duration = 0
    · rw [hzero]
      decide
    · obtain ⟨hwf, hmillis⟩ :=
        formatted_readable (if duration < 0 then .minus else .none) duration.natAbs
      rw [formatDuration_eq hzero (lt_of_le_of_ne hmin hne.symm) hmax,
        parseDuration_text hwf hmillis, millis_formatted, M2M.toLong_of_range hmin hmax]

/-- It holds of a duration with all components. -/
theorem parseDuration_formatDuration_days :
    parseDuration (formatDuration (-93784005)) = .ok (-93784005) ↔ (-93784005 : Int) ≠ -2 ^ 63 :=
  parseDuration_formatDuration_iff (by decide) (by decide)

/-- The least `long` does not come back. -/
theorem formatDuration_minValue_lost :
    ¬∀ duration : Int, -2 ^ 63 ≤ duration → duration < 2 ^ 63 →
      parseDuration (formatDuration duration) = .ok duration := by
  intro h
  have hmin := h (-2 ^ 63) (by decide) (by decide)
  rw [parseDuration_formatDuration_minValue] at hmin
  cases hmin

end RoundTrip

end Ong.Util
