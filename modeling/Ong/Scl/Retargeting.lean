import Mathlib.Data.List.MinMax
import Ong.Lib.Pieces
import Ong.Scl.AccessRights

/-!
# Retargeted indications

An indication whose target is below an application, and is no attribute of it, is sent on to the
point of contact of the application, if an `aPoCPath` matches what comes after the path of the
application. The entry with the longest path decides the access right that is checked.  In shallow
handling an entry that ends with a slash matches one more segment, and another one only itself; in
deep handling an entry matches whatever comes after it.

## Main results

* `selectAPoCPath_eq`: without an empty path the loop finds the first of the longest matching
  entries
* `matches_iff`, `matches_ne_eligible_iff`: which entries match, and which of them are misjudged
* `picksRightEntry_iff`: when the right entry is picked
* `retargetIndication_of_picks`: what the method answers then
-/

namespace Ong.Scl.Application

open Ong.M2M Pieces List

/-- `Character.toUpperCase` and `Character.toLowerCase`; only a slash is compared equal to a
slash. -/
structure CaseFolding where
  toUpperCase : Char → Char
  toLowerCase : Char → Char
  slash : ∀ c, toLowerCase (toUpperCase c) = toLowerCase (toUpperCase '/') → c = '/'

namespace CaseFolding

variable (k : CaseFolding)

/-- The character that stands for all that are the same ignoring case. -/
def fold (c : Char) : Char := k.toLowerCase (k.toUpperCase c)

/-- Two characters are the same, ignoring case. -/
def sameLetter (a b : Char) : Bool :=
  a = b || k.toUpperCase a = k.toUpperCase b ||
    k.toLowerCase (k.toUpperCase a) = k.toLowerCase (k.toUpperCase b)

def regionMatches (s : JString) (toffset : Nat) (other : JString) (len : Nat) : Bool :=
  toffset + len ≤ s.length && len ≤ other.length &&
    (((s.drop toffset).take len).zip (other.take len)).all fun p => k.sameLetter p.1 p.2

end CaseFolding

def indexOf (c : Char) (s : JString) (offset : Nat) : Option Nat :=
  if c ∈ s.drop offset then some (offset + (s.drop offset).idxOf c) else none

/-- The runtime exception of `charAt`. -/
inductive Thrown
  | stringIndexOutOfBounds

/-- `m2m:aPoCPath` -/
structure APoCPath where
  path : JString
  accessRightID : Option JString
  deriving DecidableEq

section Selection

variable (k : CaseFolding) (deepApocHandling : Bool) (targetPath : JString) (currentPathLength : Nat)

variable (tmpPath : JString)

/-- `tmpPath.charAt(tmpPath.length() - 1) == '/'` -/
def lastIsSlash : Except Thrown Bool :=
  match tmpPath.getLast? with
  | none => .error .stringIndexOutOfBounds
  | some c => .ok (c = '/')

/-- The test of the deep handling. -/
def deepTest : Except Thrown Bool :=
  if k.regionMatches targetPath currentPathLength tmpPath tmpPath.length then
    let slashOffset := currentPathLength + tmpPath.length
    (lastIsSlash tmpPath).map fun slash =>
      slash || (slashOffset < targetPath.length && targetPath[slashOffset]? = some '/')
  else .ok false

/-- The tests of the shallow handling. -/
def shallowTest : Except Thrown Bool :=
  (lastIsSlash tmpPath).map fun slash =>
    if slash then
      k.regionMatches targetPath currentPathLength tmpPath tmpPath.length &&
        match indexOf '/' targetPath (currentPathLength + tmpPath.length) with
        | none => true
        | some slashOffset => slashOffset = targetPath.length - 1
    else
      k.regionMatches targetPath currentPathLength tmpPath (targetPath.length - currentPathLength)

/-- The tests of one entry.  The last one is that of the deep handling, whatever the handling is. -/
def matchesEntry : Except Thrown Bool :=
  match if deepApocHandling then deepTest k targetPath currentPathLength tmpPath
      else shallowTest k targetPath currentPathLength tmpPath with
  | .error e => .error e
  | .ok first => (deepTest k targetPath currentPathLength tmpPath).map (first || ·)

/-- The loop over the entries, with the best entry so far. -/
def selectAPoCPath : Option APoCPath → List APoCPath → Except Thrown (Option APoCPath)
  | bestAPoCPath, [] => .ok bestAPoCPath
  | bestAPoCPath, aPoCPath :: rest =>
    if ∀ best ∈ bestAPoCPath, best.path.length < aPoCPath.path.length then
      match matchesEntry k deepApocHandling targetPath currentPathLength aPoCPath.path with
      | .error e => .error e
      | .ok true => selectAPoCPath (some aPoCPath) rest
      | .ok false => selectAPoCPath bestAPoCPath rest
    else selectAPoCPath bestAPoCPath rest

/-- What is done with an indication. -/
inductive Retargeting
  /-- A response with status `STATUS_NOT_FOUND`. -/
  | refused (message : JString)
  /-- The access right is checked, that of the application without one of the entry; then a request is
  sent to the URI, or `charAt` throws for an empty `aPoC`. -/
  | checked (accessRightID : Option JString) (retargettedUri : Except Thrown JString)

def retargetIndication (aPoc : Option JString) (aPoCPaths : Option (List APoCPath)) (path : JString) :
    Except Thrown Retargeting :=
  match aPoc, aPoCPaths with
  | none, _ => .ok (.refused "Application does not define an aPoC attribute".toList)
  | some _, none => .ok (.refused "Application does not define an aPoCPaths attribute".toList)
  | some aPoc, some aPoCPathList =>
    let currentPathLength := path.length + 1
    (selectAPoCPath k deepApocHandling targetPath currentPathLength none aPoCPathList).map fun
      | none => .refused "No aPoCPath matches the targetID".toList
      | some bestAPoCPath =>
        .checked bestAPoCPath.accessRightID ((lastIsSlash aPoc).map fun slash =>
          let retargettedPathOffset := if slash then currentPathLength else currentPathLength - 1
          aPoc ++ targetPath.drop retargettedPathOffset)

end Selection

section Spec

variable (k : CaseFolding) (deep : Bool)

/-- Two texts are the same, ignoring case. -/
def Same (s t : JString) : Prop := s.map k.fold = t.map k.fold

/-- The first text begins the second one, ignoring case. -/
def Begins (s t : JString) : Prop := s.map k.fold <+: t.map k.fold

/-- The segments of the entry begin those of the remaining target, ignoring case; an entry that ends
with a slash is followed by one more segment. -/
def Covers (entry remaining : JString) : Prop :=
  segments (k.fold '/') ((chop '/' entry).map k.fold) <+:
      segments (k.fold '/') (remaining.map k.fold) ∧
    (entry.getLast? = some '/' → ¬ Same k (chop '/' entry) remaining)

/-- What may come after an entry in shallow handling: at most one segment after a slash, and nothing
otherwise; a slash at the end does not count. -/
def AtMostOne (entry further : JString) : Prop :=
  if entry.getLast? = some '/' then '/' ∉ chop '/' further else further = [] ∨ further = ['/']

/-- The entry should match the remaining target. -/
def Eligible (entry remaining : JString) : Prop :=
  Covers k entry remaining ∧
    (deep = false → AtMostOne entry (remaining.drop entry.length))

/-- The entry is a longest one of those that should match, or there is none. -/
def IsLongest (remaining : JString) (entries : List APoCPath) : Option APoCPath → Prop
  | none => ∀ e ∈ entries, ¬ Eligible k deep e.path remaining
  | some best => best ∈ entries ∧ Eligible k deep best.path remaining ∧
      ∀ e ∈ entries, Eligible k deep e.path remaining → e.path.length ≤ best.path.length

/-- The longest eligible entry is selected, and none if there is none; so it is for every order of
the list. -/
def PicksRightEntry (path remaining : JString) (entries : List APoCPath) : Prop :=
  ∃ best, IsLongest k deep remaining entries best ∧
    ∀ entries' : List APoCPath, entries'.Perm entries →
      selectAPoCPath k deep (path ++ '/' :: remaining) (path.length + 1) none entries' = .ok best

/-- In deep handling, an entry that is all of the remaining target, without a slash at its end, does
not match.  In shallow handling, an entry without a slash at its end matches a target that it is
longer than, and every entry matches whatever comes after it. -/
def Misjudged (entry remaining : JString) : Prop :=
  if deep then Same k entry remaining ∧ entry.getLast? ≠ some '/'
  else (entry.getLast? ≠ some '/' ∧ remaining.length < entry.length ∧ Begins k remaining entry) ∨
    (Covers k entry remaining ∧ ¬ AtMostOne entry (remaining.drop entry.length))

/-- No path is empty.  An entry that is misjudged is shorter than one that should match, and so is
each of two entries that should match and differ in no more than case. -/
structure Condition (remaining : JString) (entries : List APoCPath) : Prop where
  nonempty : ∀ e ∈ entries, e.path ≠ []
  misjudged : ∀ e ∈ entries, Misjudged k deep e.path remaining →
    ∃ b ∈ entries, Eligible k deep b.path remaining ∧ e.path.length < b.path.length
  ties : ∀ e ∈ entries, ∀ e' ∈ entries, e ≠ e' → Same k e.path e'.path →
    Eligible k deep e.path remaining →
      ∃ b ∈ entries, Eligible k deep b.path remaining ∧ e.path.length < b.path.length

end Spec

variable {k : CaseFolding} {deep : Bool} {path entry remaining s t : JString}
  {entries : List APoCPath}

/-! ## The tests -/

theorem sameLetter_iff {a b : Char} : k.sameLetter a b = true ↔ k.fold a = k.fold b := by
  simp only [CaseFolding.sameLetter, Bool.or_eq_true, decide_eq_true_eq]
  constructor
  · rintro ((h | h) | h)
    · rw [h]
    · unfold CaseFolding.fold
      rw [h]
    · exact h
  · exact .inr

theorem all_zip_iff (h : s.length = t.length) :
    ((s.zip t).all fun p => k.sameLetter p.1 p.2) = true ↔ Same k s t := by
  unfold Same
  induction s generalizing t with
  | nil =>
    rw [length_eq_zero_iff.mp h.symm]
    simp
  | cons a s ih =>
    cases t with
    | nil => cases h
    | cons b t =>
      rw [zip_cons_cons, all_cons, Bool.and_eq_true, sameLetter_iff, ih (by simpa using h),
        map_cons, map_cons, cons.injEq]

theorem Same.length_eq (h : Same k s t) : s.length = t.length := by
  simpa using congrArg length h

theorem Begins.length_le (h : Begins k s t) : s.length ≤ t.length := by
  simpa using IsPrefix.length_le h

theorem begins_iff_take : Begins k s t ↔ Same k (t.take s.length) s := by
  rw [Begins, Same, prefix_iff_eq_take, length_map, map_take, eq_comm]

theorem Begins.same (hs : Begins k s remaining) (ht : Begins k t remaining)
    (h : s.length = t.length) : Same k s t := by
  rw [begins_iff_take] at hs ht
  exact hs.symm.trans (h ▸ ht)

theorem Begins.congr (h : Same k s t) : Begins k s remaining ↔ Begins k t remaining := by
  rw [Begins, Begins, h]

theorem getLast?_congr (h : Same k s t) : s.getLast? = some '/' ↔ t.getLast? = some '/' := by
  have hlast : ∀ {u : JString}, u.getLast? = some '/' ↔ (u.map k.fold).getLast? = some (k.fold '/') := by
    intro u
    rw [getLast?_map]
    constructor
    · intro h
      rw [h]
      rfl
    · intro h
      obtain ⟨c, hc, hfold⟩ := Option.map_eq_some_iff.mp h
      rw [hc, k.slash c hfold]
  rw [hlast, hlast, h]

theorem regionMatches_iff {n : Nat} : k.regionMatches (path ++ '/' :: remaining) (path.length + 1) entry n
      = true ↔ n ≤ remaining.length ∧ n ≤ entry.length ∧ Same k (remaining.take n) (entry.take n) := by
  have hdrop : (path ++ '/' :: remaining).drop (path.length + 1) = remaining := by simp
  have hlength : (path.length + 1 + n ≤ (path ++ '/' :: remaining).length) ↔ n ≤ remaining.length := by
    rw [length_append, length_cons]
    omega
  unfold CaseFolding.regionMatches
  rw [hdrop, Bool.and_eq_true, Bool.and_eq_true, decide_eq_true_eq, decide_eq_true_eq, hlength,
    and_assoc]
  refine and_congr_right fun hn => and_congr_right fun hn' => all_zip_iff ?_
  rw [length_take, length_take, Nat.min_eq_left hn, Nat.min_eq_left hn']

theorem regionMatches_entry :
    k.regionMatches (path ++ '/' :: remaining) (path.length + 1) entry entry.length = true ↔
      Begins k entry remaining := by
  rw [regionMatches_iff, take_length, begins_iff_take]
  exact ⟨fun h => h.2.2, fun h => ⟨(begins_iff_take.mpr h).length_le, Nat.le_refl _, h⟩⟩

theorem regionMatches_remaining : k.regionMatches (path ++ '/' :: remaining) (path.length + 1) entry
      ((path ++ '/' :: remaining).length - (path.length + 1)) = true ↔ Begins k remaining entry := by
  have hlength : (path ++ '/' :: remaining).length - (path.length + 1) = remaining.length := by
    rw [length_append, length_cons]
    omega
  rw [hlength, regionMatches_iff, take_length, begins_iff_take]
  exact ⟨fun h => h.2.2.symm, fun h => ⟨Nat.le_refl _, (begins_iff_take.mpr h).length_le, h.symm⟩⟩

theorem indexOf_iff (h : entry.length ≤ remaining.length) :
    (match indexOf '/' (path ++ '/' :: remaining) (path.length + 1 + entry.length) with
      | none => true
      | some slashOffset => decide (slashOffset = (path ++ '/' :: remaining).length - 1)) = true ↔
    '/' ∉ chop '/' (remaining.drop entry.length) := by
  have hdrop : (path ++ '/' :: remaining).drop (path.length + 1 + entry.length) =
      remaining.drop entry.length := by
    rw [← drop_drop]
    simp
  have hlength : (path ++ '/' :: remaining).length - 1 =
      path.length + entry.length + (remaining.drop entry.length).length := by
    rw [length_append, length_cons, length_drop]
    omega
  unfold indexOf
  rw [hdrop, hlength]
  generalize remaining.drop entry.length = further
  by_cases hslash : '/' ∈ further
  · obtain ⟨a, b, rfl, ha⟩ := eq_append_cons_of_mem hslash
    have hindex : (a ++ '/' :: b).idxOf '/' = a.length := by
      rw [idxOf_append_of_notMem ha]
      simp
    simp only [if_pos hslash, hindex, decide_eq_true_eq, length_append, length_cons]
    rcases eq_nil_or_concat b with rfl | ⟨b', c, rfl⟩
    · have hchop : chop '/' (a ++ ['/']) = a := by simp [chop]
      rw [hchop]
      simp only [length_nil, ha, not_false_iff, iff_true]
      omega
    · have hchop : '/' ∈ chop '/' (a ++ '/' :: (b' ++ [c])) := by
        have hlist : a ++ '/' :: (b' ++ [c]) = (a ++ '/' :: b') ++ [c] := by simp
        unfold chop
        rw [hlist]
        split
        · rw [dropLast_concat]
          simp
        · simp
      simp only [concat_eq_append, hchop, not_true, iff_false, length_append,
        length_cons]
      omega
  · have hchop : '/' ∉ chop '/' further := by
      unfold chop
      split
      · exact fun hmem => hslash ((dropLast_sublist _).subset hmem)
      · exact hslash
    simp [if_neg hslash, hchop]

section Tests

variable (k entry remaining)

/-- What the test of the deep handling looks for. -/
def DeepMatch : Prop :=
  Begins k entry remaining ∧ (entry.getLast? = some '/' ∨ remaining[entry.length]? = some '/')

/-- What the tests of the shallow handling look for. -/
def ShallowMatch : Prop :=
  if entry.getLast? = some '/' then
    Begins k entry remaining ∧ '/' ∉ chop '/' (remaining.drop entry.length)
  else Begins k remaining entry

variable {k entry remaining}

theorem lastIsSlash_eq (h : entry ≠ []) :
    lastIsSlash entry = .ok (decide (entry.getLast? = some '/')) := by
  unfold lastIsSlash
  cases hlast : entry.getLast? with
  | none => exact absurd (getLast?_eq_none_iff.mp hlast) h
  | some c => simp

theorem deepTest_eq (k : CaseFolding) (remaining path : JString) (h : entry ≠ []) :
    ∃ b, deepTest k (path ++ '/' :: remaining) (path.length + 1) entry = .ok b ∧
      (b = true ↔ DeepMatch k entry remaining) := by
  have hget : (path ++ '/' :: remaining)[path.length + 1 + entry.length]? =
      remaining[entry.length]? := by
    rw [getElem?_append_right (by omega), show path.length + 1 + entry.length - path.length =
      entry.length + 1 by omega, getElem?_cons_succ]
  have hlength : path.length + 1 + entry.length < (path ++ '/' :: remaining).length ↔
      entry.length < remaining.length := by
    rw [length_append, length_cons]
    omega
  have hlt : remaining[entry.length]? = some '/' → entry.length < remaining.length := fun hslash =>
    (List.getElem?_eq_some_iff.mp hslash).1
  unfold deepTest DeepMatch
  rw [lastIsSlash_eq h]
  by_cases hbegins : Begins k entry remaining
  · rw [if_pos (regionMatches_entry.mpr hbegins)]
    refine ⟨_, rfl, ?_⟩
    simp only [Bool.or_eq_true, Bool.and_eq_true, decide_eq_true_eq, hget, hlength, hbegins, true_and]
    exact or_congr_right ⟨fun hslash => hslash.2, fun hslash => ⟨hlt hslash, hslash⟩⟩
  · rw [if_neg (regionMatches_entry.not.mpr hbegins)]
    exact ⟨false, rfl, by simp [hbegins]⟩

theorem shallowTest_eq (k : CaseFolding) (remaining path : JString) (h : entry ≠ []) :
    ∃ b, shallowTest k (path ++ '/' :: remaining) (path.length + 1) entry = .ok b ∧
      (b = true ↔ ShallowMatch k entry remaining) := by
  unfold shallowTest ShallowMatch
  rw [lastIsSlash_eq h]
  refine ⟨_, rfl, ?_⟩
  by_cases hlast : entry.getLast? = some '/'
  · rw [if_pos hlast, decide_eq_true hlast]
    dsimp only
    rw [if_pos rfl, Bool.and_eq_true, regionMatches_entry]
    exact and_congr_right fun hbegins => indexOf_iff hbegins.length_le
  · rw [if_neg hlast, decide_eq_false hlast]
    dsimp only
    rw [if_neg Bool.false_ne_true, regionMatches_remaining]

/-- **The entries that match**, when their path is not empty. -/
theorem matches_iff (k : CaseFolding) (deep : Bool) (remaining path : JString) (h : entry ≠ []) :
    ∃ b, matchesEntry k deep (path ++ '/' :: remaining) (path.length + 1) entry = .ok b ∧
      (b = true ↔ DeepMatch k entry remaining ∨ deep = false ∧ ShallowMatch k entry remaining) := by
  obtain ⟨d, hd, hdeep⟩ := deepTest_eq k remaining path h
  obtain ⟨s, hs, hshallow⟩ := shallowTest_eq k remaining path h
  cases deep with
  | true =>
    refine ⟨d || d, ?_, by simp [hdeep]⟩
    simp only [matchesEntry, if_true, hd]
    rfl
  | false =>
    refine ⟨s || d, ?_, by simp [hdeep, hshallow, or_comm]⟩
    simp only [matchesEntry, Bool.false_eq_true, if_false, hs, hd]
    rfl

theorem matchesEntry_nil (deep : Bool) (path : JString) :
    matchesEntry k deep (path ++ '/' :: remaining) (path.length + 1) [] =
      .error .stringIndexOutOfBounds := by
  have hbegins : k.regionMatches (path ++ '/' :: remaining) (path.length + 1) [] 0 = true :=
    regionMatches_entry.mpr nil_prefix
  cases deep with
  | true => simp [matchesEntry, deepTest, hbegins, lastIsSlash, Except.map]
  | false => simp [matchesEntry, shallowTest, lastIsSlash, Except.map]

end Tests

/-! ## Segments and texts -/

theorem begins_iff_append :
    Begins k s t ↔ t.map k.fold = s.map k.fold ++ (t.drop s.length).map k.fold := by
  constructor
  · intro h
    conv_lhs => rw [← take_append_drop s.length t, map_append]
    rw [show (t.take s.length).map k.fold = s.map k.fold from begins_iff_take.mp h]
  · intro h
    rw [Begins, h]
    exact prefix_append _ _

/-- The segments of an entry begin those of the remaining target: the entry is a beginning of its
text and ends at the end of a segment. -/
theorem covers_iff : Covers k entry remaining ↔ Begins k entry remaining ∧
    (entry.getLast? = some '/' ∨ remaining.drop entry.length = [] ∨
      remaining[entry.length]? = some '/') := by
  unfold Covers
  rw [segments_prefix_iff]
  by_cases hlast : entry.getLast? = some '/'
  · obtain ⟨d, rfl⟩ : ∃ d, entry = d ++ ['/'] := by
      rcases eq_nil_or_concat entry with rfl | ⟨d, c, rfl⟩
      · cases hlast
      · rw [concat_eq_append, getLast?_concat] at hlast
        exact ⟨d, by rw [concat_eq_append, Option.some.inj hlast]⟩
    have hchop : chop '/' (d ++ ['/']) = d := by simp [chop]
    simp only [hchop, hlast, forall_const, true_or, and_true]
    unfold Same Begins
    rw [map_append, map_singleton]
    constructor
    · rintro ⟨h | ⟨u, hu⟩, hne⟩
      · exact absurd h hne
      · exact ⟨u, by rw [hu, append_assoc]; rfl⟩
    · rintro ⟨u, hu⟩
      refine ⟨.inr ⟨u, by rw [← hu, append_assoc]; rfl⟩, fun heq => ?_⟩
      have := congrArg length (heq.trans hu.symm)
      simp only [length_append, length_map, length_singleton] at this
      omega
  · have hchop : chop '/' entry = entry := if_neg hlast
    simp only [hchop, hlast, false_imp_iff, and_true, false_or]
    constructor
    · rintro (h | ⟨u, hu⟩)
      · have hlength := congrArg length h
        simp only [length_map] at hlength
        exact ⟨⟨[], by rw [append_nil]; exact h⟩,
          .inl (drop_eq_nil_of_le (Nat.le_of_eq hlength.symm))⟩
      · refine ⟨⟨_, hu.symm⟩, .inr ?_⟩
        have hget : (remaining.map k.fold)[entry.length]? = some (k.fold '/') := by
          rw [hu, getElem?_append_right (by simp)]
          simp
        rw [getElem?_map] at hget
        obtain ⟨c, hc, hfold⟩ := Option.map_eq_some_iff.mp hget
        rw [hc, k.slash c hfold]
    · rintro ⟨hbegins, hrest⟩
      rw [begins_iff_append.mp hbegins]
      rcases hrest with hnil | hslash
      · exact .inl (by rw [hnil]; simp)
      · refine .inr ⟨(remaining.drop (entry.length + 1)).map k.fold, ?_⟩
        obtain ⟨hlt, hc⟩ := List.getElem?_eq_some_iff.mp hslash
        rw [drop_eq_getElem_cons hlt, hc, map_cons]

theorem Covers.begins (h : Covers k entry remaining) : Begins k entry remaining :=
  (covers_iff.mp h).1

/-! ## The entries that are misjudged -/

/-- The entry matches. -/
def Matches (k : CaseFolding) (deep : Bool) (entry remaining : JString) : Prop :=
  DeepMatch k entry remaining ∨ deep = false ∧ ShallowMatch k entry remaining

theorem Matches.congr (h : Same k s t) : Matches k deep s remaining ↔ Matches k deep t remaining := by
  have hlong : Begins k remaining s ↔ Begins k remaining t := by rw [Begins, Begins, h]
  have hshallow : ShallowMatch k s remaining ↔ ShallowMatch k t remaining := by
    unfold ShallowMatch
    by_cases hlast : s.getLast? = some '/'
    · rw [if_pos hlast, if_pos ((getLast?_congr h).mp hlast), Begins.congr h, h.length_eq]
    · rw [if_neg hlast, if_neg (mt (getLast?_congr h).mpr hlast), hlong]
  unfold Matches
  rw [hshallow, DeepMatch, DeepMatch, Begins.congr h, getLast?_congr h, h.length_eq]

theorem drop_eq_nil_iff_same (h : Begins k entry remaining) :
    remaining.drop entry.length = [] ↔ Same k entry remaining := by
  constructor
  · intro hnil
    have := begins_iff_append.mp h
    rw [hnil, map_nil, append_nil] at this
    exact this.symm
  · exact fun hsame => drop_eq_nil_of_le (Nat.le_of_eq hsame.length_eq.symm)

theorem DeepMatch.covers (h : DeepMatch k entry remaining) : Covers k entry remaining :=
  covers_iff.mpr ⟨h.1, h.2.imp_right .inr⟩

theorem covers_iff_deep : Covers k entry remaining ↔
    DeepMatch k entry remaining ∨ Same k entry remaining ∧ entry.getLast? ≠ some '/' := by
  constructor
  · intro h
    obtain ⟨hbegins, hend⟩ := covers_iff.mp h
    by_cases hlast : entry.getLast? = some '/'
    · exact .inl ⟨hbegins, .inl hlast⟩
    · rcases hend with hend | hend | hend
      · exact absurd hend hlast
      · exact .inr ⟨(drop_eq_nil_iff_same hbegins).mp hend, hlast⟩
      · exact .inl ⟨hbegins, .inr hend⟩
  · rintro (h | ⟨h, hlast⟩)
    · exact h.covers
    · have hbegins : Begins k entry remaining := ⟨[], by rw [append_nil]; exact h⟩
      exact covers_iff.mpr ⟨hbegins, .inr (.inl ((drop_eq_nil_iff_same hbegins).mpr h))⟩

theorem not_deepMatch_of_same (h : Same k entry remaining) (hlast : entry.getLast? ≠ some '/') :
    ¬ DeepMatch k entry remaining := by
  rintro ⟨-, hend | hend⟩
  · exact hlast hend
  · have := (List.getElem?_eq_some_iff.mp hend).1
    rw [h.length_eq] at this
    exact absurd this (Nat.lt_irrefl _)

theorem Eligible.matches_of_shallow (h : Eligible k false entry remaining) :
    Matches k false entry remaining := by
  obtain ⟨hcovers, hone⟩ := h
  have hone := hone rfl
  unfold AtMostOne at hone
  by_cases hlast : entry.getLast? = some '/'
  · rw [if_pos hlast] at hone
    exact .inr ⟨rfl, by rw [ShallowMatch, if_pos hlast]; exact ⟨hcovers.begins, hone⟩⟩
  · rcases covers_iff_deep.mp hcovers with hdeep | ⟨hsame, -⟩
    · exact .inl hdeep
    · refine .inr ⟨rfl, ?_⟩
      rw [ShallowMatch, if_neg hlast]
      exact ⟨[], by rw [append_nil]; exact hsame.symm⟩

/-- **The entries that are misjudged** are those that match and should not, or the other way
round. -/
theorem misjudged_iff :
    Misjudged k deep entry remaining ↔
      ¬ (Matches k deep entry remaining ↔ Eligible k deep entry remaining) := by
  cases deep with
  | true =>
    have heligible : Eligible k true entry remaining ↔ Covers k entry remaining := by
      simp [Eligible]
    have hmatches : Matches k true entry remaining ↔ DeepMatch k entry remaining := by
      simp [Matches]
    rw [heligible, hmatches, covers_iff_deep, Misjudged, if_pos rfl]
    have := fun h : Same k entry remaining ∧ entry.getLast? ≠ some '/' => not_deepMatch_of_same h.1 h.2
    tauto
  | false =>
    rw [Misjudged, if_neg Bool.false_ne_true]
    have heligible := @Eligible.matches_of_shallow k entry remaining
    have hkinds : Matches k false entry remaining ∧ ¬ Eligible k false entry remaining ↔
        (entry.getLast? ≠ some '/' ∧ remaining.length < entry.length ∧ Begins k remaining entry) ∨
          (Covers k entry remaining ∧ ¬ AtMostOne entry (remaining.drop entry.length)) := by
      constructor
      · rintro ⟨hmatches, hnot⟩
        by_cases hcovers : Covers k entry remaining
        · exact .inr ⟨hcovers, fun hone => hnot ⟨hcovers, fun _ => hone⟩⟩
        · rcases hmatches with hdeep | ⟨-, hshallow⟩
          · exact absurd hdeep.covers hcovers
          · by_cases hlast : entry.getLast? = some '/'
            · rw [ShallowMatch, if_pos hlast] at hshallow
              exact absurd (covers_iff.mpr ⟨hshallow.1, .inl hlast⟩) hcovers
            · rw [ShallowMatch, if_neg hlast] at hshallow
              refine .inl ⟨hlast, ?_, hshallow⟩
              refine Nat.lt_of_le_of_ne hshallow.length_le fun heq => hcovers ?_
              refine covers_iff_deep.mpr (.inr ⟨?_, hlast⟩)
              exact Begins.same (prefix_refl _ : Begins k entry entry) hshallow heq.symm
      · rintro (⟨hlast, hlt, hbegins⟩ | ⟨hcovers, hone⟩)
        · refine ⟨.inr ⟨rfl, by rw [ShallowMatch, if_neg hlast]; exact hbegins⟩, fun h => ?_⟩
          exact absurd h.1.begins.length_le (Nat.not_le.mpr hlt)
        · refine ⟨?_, fun h => hone (h.2 rfl)⟩
          rcases covers_iff_deep.mp hcovers with hdeep | ⟨hsame, hlast⟩
          · exact .inl hdeep
          · refine absurd ?_ hone
            rw [AtMostOne, if_neg hlast]
            exact .inl ((drop_eq_nil_iff_same hcovers.begins).mpr hsame)
    tauto

section Loop

variable {e b : APoCPath}

/-- The longest entries that match come first in the loop: without an empty path the first of them
is selected. -/
theorem selectAPoCPath_eq {p : APoCPath → Bool} (path : JString)
    (hp : ∀ e ∈ entries, matchesEntry k deep (path ++ '/' :: remaining) (path.length + 1) e.path =
      .ok (p e)) (best : Option APoCPath) :
    selectAPoCPath k deep (path ++ '/' :: remaining) (path.length + 1) best entries =
      .ok ((entries.filter p).foldl
        (argAux fun b c => c.path.length < b.path.length) best) := by
  -- the induction is over the entries that are left, for any best one so far
  induction entries generalizing best with
  | nil => rfl
  | cons e entries ih =>
    have htail := ih fun e' he' => hp e' (mem_cons_of_mem _ he')
    rw [selectAPoCPath, hp e mem_cons_self]
    cases hpe : p e with
    | false =>
      rw [filter_cons_of_neg (by simp [hpe])]
      split <;> exact htail best
    | true =>
      rw [filter_cons_of_pos hpe, foldl_cons]
      cases best with
      | none =>
        exact htail (some e)
      | some b =>
        by_cases hlt : b.path.length < e.path.length
        · rw [if_pos (by simpa using hlt)]
          simp only [argAux, if_pos hlt]
          exact htail (some e)
        · rw [if_neg (by simpa using hlt)]
          simp only [argAux, if_neg hlt]
          exact htail (some b)

end Loop

section Main

instance : Decidable (Begins k s t) := inferInstanceAs (Decidable (_ <+: _))

instance : Decidable (DeepMatch k entry remaining) := inferInstanceAs (Decidable (_ ∧ _))

instance : Decidable (ShallowMatch k entry remaining) :=
  inferInstanceAs (Decidable (if entry.getLast? = some '/' then
    Begins k entry remaining ∧ '/' ∉ chop '/' (remaining.drop entry.length)
  else Begins k remaining entry))

instance : Decidable (Matches k deep entry remaining) := inferInstanceAs (Decidable (_ ∨ _))

variable {best : Option APoCPath}

theorem select_eq (path : JString) (hne : ∀ e ∈ entries, e.path ≠ []) :
    selectAPoCPath k deep (path ++ '/' :: remaining) (path.length + 1) none entries =
      .ok ((entries.filter fun e => decide (Matches k deep e.path remaining)).argmax
        (·.path.length)) := by
  refine selectAPoCPath_eq path (fun e he => ?_) none
  obtain ⟨b, hb, hiff⟩ := matches_iff k deep remaining path (hne e he)
  rw [hb]
  refine congrArg Except.ok (Bool.eq_iff_iff.mpr (hiff.trans ?_))
  exact (decide_eq_true_iff ).symm

theorem mem_matching {e : APoCPath} :
    e ∈ entries.filter (fun e => decide (Matches k deep e.path remaining)) ↔
      e ∈ entries ∧ Matches k deep e.path remaining := by
  rw [mem_filter, decide_eq_true_iff]

theorem select_longest (path : JString) (hne : ∀ e ∈ entries, e.path ≠ [])
    (h : selectAPoCPath k deep (path ++ '/' :: remaining) (path.length + 1) none entries = .ok best) :
    (∀ b ∈ best, b ∈ entries ∧ Matches k deep b.path remaining) ∧
      ∀ e ∈ entries, Matches k deep e.path remaining →
        ∃ b ∈ best, e.path.length ≤ b.path.length := by
  rw [select_eq path hne] at h
  have hbest := Except.ok.inj h
  refine ⟨fun b hb => mem_matching.mp (argmax_mem (hbest ▸ hb)), fun e he hm => ?_⟩
  have hmem := mem_matching.mpr ⟨he, hm⟩
  cases best with
  | none =>
    rw [argmax_eq_none.mp hbest] at hmem
    cases hmem
  | some b =>
    have hle := le_of_mem_argmax hmem hbest
    exact ⟨b, rfl, hle⟩

theorem exists_perm_select (path : JString) (hne : ∀ e ∈ entries, e.path ≠ []) {e : APoCPath}
    (he : e ∈ entries) (hm : Matches k deep e.path remaining)
    (hmax : ∀ a ∈ entries, Matches k deep a.path remaining → a.path.length ≤ e.path.length) :
    ∃ entries' : List APoCPath, entries'.Perm entries ∧
      selectAPoCPath k deep (path ++ '/' :: remaining) (path.length + 1) none entries' =
        .ok (some e) := by
  obtain ⟨before, after, rfl⟩ := append_of_mem he
  have hperm : (e :: (before ++ after)).Perm (before ++ e :: after) := perm_middle.symm
  refine ⟨_, hperm, ?_⟩
  have hhead : (e :: (before ++ after)).filter (fun e => decide (Matches k deep e.path remaining)) =
      e :: (before ++ after).filter fun e => decide (Matches k deep e.path remaining) :=
    filter_cons_of_pos (decide_eq_true hm)
  rw [select_eq path fun a ha => hne a (hperm.subset ha), hhead, argmax_cons]
  cases hrest : ((before ++ after).filter fun e => decide (Matches k deep e.path remaining)).argmax
      (·.path.length) with
  | none => rfl
  | some c =>
    obtain ⟨hc, hmc⟩ := mem_matching.mp (argmax_mem hrest)
    have hle := hmax c (hperm.subset (mem_cons_of_mem _ hc)) hmc
    exact congrArg Except.ok (if_neg (Nat.not_lt.mpr hle))

theorem nonempty_of_forall_perm (path : JString) (h : ∀ entries' : List APoCPath, entries'.Perm entries →
      selectAPoCPath k deep (path ++ '/' :: remaining) (path.length + 1) none entries' = .ok best) :
    ∀ e ∈ entries, e.path ≠ [] := by
  intro e he hnil
  obtain ⟨before, after, rfl⟩ := append_of_mem he
  have hfirst := h (e :: (before ++ after)) perm_middle.symm
  rw [selectAPoCPath, if_pos (by simp), hnil, matchesEntry_nil] at hfirst
  cases hfirst

theorem exists_longest {P : APoCPath → Prop} (h : ∃ e ∈ entries, P e) :
    ∃ b ∈ entries, P b ∧ ∀ e ∈ entries, P e → e.path.length ≤ b.path.length := by
  classical
  obtain ⟨e, he, hP⟩ := h
  have hmem : e ∈ entries.filter fun e => decide (P e) := mem_filter.mpr ⟨he, decide_eq_true hP⟩
  cases hbest : (entries.filter fun e => decide (P e)).argmax (·.path.length) with
  | none =>
    rw [argmax_eq_none.mp hbest] at hmem
    cases hmem
  | some b =>
    obtain ⟨hb, hPb⟩ := mem_filter.mp (argmax_mem hbest)
    refine ⟨b, hb, of_decide_eq_true hPb, fun a ha hPa => ?_⟩
    have hle := le_of_mem_argmax (mem_filter.mpr ⟨ha, decide_eq_true hPa⟩) hbest
    exact hle

theorem condition_of_picks (h : PicksRightEntry k deep path remaining entries) :
    Condition k deep remaining entries := by
  obtain ⟨best, hlongest, hall⟩ := h
  have hne := nonempty_of_forall_perm path hall
  obtain ⟨hbest, hmax⟩ := select_longest path hne (hall entries (Perm.refl _))
  have hfirst : ∀ e ∈ entries, Matches k deep e.path remaining →
      (∀ a ∈ entries, Matches k deep a.path remaining → a.path.length ≤ e.path.length) →
        best = some e := by
    intro e he hm hmaxe
    obtain ⟨entries', hperm, hselect⟩ := exists_perm_select path hne he hm hmaxe
    exact Except.ok.inj ((hall entries' hperm).symm.trans hselect)
  have heligible : ∀ e ∈ entries, Eligible k deep e.path remaining → ∃ b, best = some b ∧ b ∈ entries ∧
      Eligible k deep b.path remaining ∧ Matches k deep b.path remaining ∧
        (e.path.length < b.path.length ∨ e.path.length = b.path.length ∧ Same k e.path b.path) := by
    intro e he hel
    cases best with
    | none => exact absurd hel (hlongest e he)
    | some b =>
      obtain ⟨hb, helb, hle⟩ := hlongest
      refine ⟨b, rfl, hb, helb, (hbest b rfl).2, ?_⟩
      rcases Nat.lt_or_eq_of_le (hle e he hel) with hlt | heq
      · exact .inl hlt
      · exact .inr ⟨heq, hel.1.begins.same helb.1.begins heq⟩
  refine ⟨hne, fun e he hmis => ?_, fun e he e' he' hdiff hsame hel => ?_⟩
  · by_cases hel : Eligible k deep e.path remaining
    · obtain ⟨b, -, hb, helb, hmb, hlt | ⟨-, hsame⟩⟩ := heligible e he hel
      · exact ⟨b, hb, helb, hlt⟩
      · have hm := (Matches.congr hsame).mpr hmb
        exact absurd ⟨fun _ => hel, fun _ => hm⟩ (misjudged_iff.mp hmis)
    · have hm : Matches k deep e.path remaining := by
        by_contra hm
        exact misjudged_iff.mp hmis ⟨fun h => absurd h hm, fun h => absurd h hel⟩
      obtain ⟨b, hb, hle⟩ := hmax e he hm
      obtain rfl := hb
      rcases Nat.lt_or_eq_of_le hle with hlt | heq
      · exact ⟨b, (hbest b rfl).1, hlongest.2.1, hlt⟩
      · have hsome := hfirst e he hm fun a ha hma => by
          obtain ⟨b', hb', hle'⟩ := hmax a ha hma
          obtain rfl := Option.some.inj hb'
          exact hle'.trans_eq heq.symm
        obtain rfl := Option.some.inj hsome
        exact absurd hlongest.2.1 hel
  · obtain ⟨b, rfl, hb, helb, hmb, hlt | ⟨heq, hsameb⟩⟩ := heligible e he hel
    · exact ⟨b, hb, helb, hlt⟩
    · have hmaxb : ∀ a ∈ entries, Matches k deep a.path remaining → a.path.length ≤ b.path.length := by
        intro a ha hma
        obtain ⟨b', hb', hle'⟩ := hmax a ha hma
        obtain rfl := Option.some.inj hb'
        exact hle'
      have hm := (Matches.congr hsameb).mpr hmb
      have hfirste := hfirst e he hm fun a ha hma => (hmaxb a ha hma).trans_eq heq.symm
      have hfirste' := hfirst e' he' ((Matches.congr hsame).mp hm) fun a ha hma =>
        (hmaxb a ha hma).trans_eq (heq.symm.trans hsame.length_eq)
      exact absurd (Option.some.inj (hfirste.symm.trans hfirste')) hdiff

theorem picks_of_condition (path : JString) (h : Condition k deep remaining entries) :
    PicksRightEntry k deep path remaining entries := by
  have hne : ∀ entries' : List APoCPath, entries'.Perm entries → ∀ e ∈ entries', e.path ≠ [] :=
    fun entries' hperm e he => h.nonempty e (hperm.subset he)
  have hmatches : ∀ e ∈ entries, Matches k deep e.path remaining →
      ∃ b ∈ entries, Eligible k deep b.path remaining ∧ e.path.length ≤ b.path.length := by
    intro e he hm
    by_cases hel : Eligible k deep e.path remaining
    · exact ⟨e, he, hel, Nat.le_refl _⟩
    · obtain ⟨b, hb, helb, hlt⟩ := h.misjudged e he (misjudged_iff.mpr fun hiff => hel (hiff.mp hm))
      exact ⟨b, hb, helb, Nat.le_of_lt hlt⟩
  by_cases hsome : ∃ e ∈ entries, Eligible k deep e.path remaining
  · obtain ⟨b, hb, helb, hmax⟩ := exists_longest hsome
    have hmb : Matches k deep b.path remaining := by
      by_contra hm
      obtain ⟨b', hb', helb', hlt⟩ :=
        h.misjudged b hb (misjudged_iff.mpr fun hiff => hm (hiff.mpr helb))
      exact absurd (hmax b' hb' helb') (Nat.not_le.mpr hlt)
    refine ⟨some b, ⟨hb, helb, hmax⟩, fun entries' hperm => ?_⟩
    rw [select_eq path (hne entries' hperm)]
    refine congrArg Except.ok ?_
    have hmem := mem_matching.mpr ⟨hperm.symm.subset hb, hmb⟩
    cases hbest : (entries'.filter fun e => decide (Matches k deep e.path remaining)).argmax
        (·.path.length) with
    | none =>
      rw [argmax_eq_none.mp hbest] at hmem
      cases hmem
    | some a =>
      have hle := le_of_mem_argmax hmem hbest
      obtain ⟨ha, hma⟩ := mem_matching.mp (argmax_mem hbest)
      have ha := hperm.subset ha
      by_contra hdiff
      have hdiff : a ≠ b := fun heq => hdiff (congrArg some heq)
      by_cases hela : Eligible k deep a.path remaining
      · have heq := Nat.le_antisymm (hmax a ha hela) hle
        obtain ⟨c, hc, helc, hlt⟩ :=
          h.ties a ha b hb hdiff (hela.1.begins.same helb.1.begins heq) hela
        exact absurd (hmax c hc helc) (Nat.not_le.mpr (heq ▸ hlt))
      · obtain ⟨c, hc, helc, hlt⟩ :=
          h.misjudged a ha (misjudged_iff.mpr fun hiff => hela (hiff.mp hma))
        exact absurd (hmax c hc helc) (Nat.not_le.mpr (Nat.lt_of_le_of_lt hle hlt))
  · refine ⟨none, fun e he hel => hsome ⟨e, he, hel⟩, fun entries' hperm => ?_⟩
    rw [select_eq path (hne entries' hperm)]
    refine congrArg Except.ok (argmax_eq_none.mpr (filter_eq_nil_iff.mpr fun e he => ?_))
    rw [decide_eq_true_iff]
    intro hm
    obtain ⟨b, hb, helb, -⟩ := hmatches e (hperm.subset he) hm
    exact hsome ⟨b, hb, helb⟩

variable (k deep path remaining entries)

/-- **The right entry is picked** exactly when no path is empty, and every entry that is misjudged,
or differs from another one in case only, is shorter than one that should match. -/
theorem picksRightEntry_iff : PicksRightEntry k deep path remaining entries ↔
    Condition k deep remaining entries :=
  ⟨condition_of_picks, picks_of_condition path⟩

variable {k deep path remaining entries}

/-- The method refuses a target that no entry matches, and checks the access right of the longest
entry that does. -/
theorem retargetIndication_of_picks (h : PicksRightEntry k deep path remaining entries)
    (aPoc : JString) : ∃ best, IsLongest k deep remaining entries best ∧
      ∀ entries' : List APoCPath, entries'.Perm entries →
        match (best : Option APoCPath) with
        | none => retargetIndication k deep (path ++ '/' :: remaining) (some aPoc) (some entries') path =
            .ok (.refused "No aPoCPath matches the targetID".toList)
        | some b => ∃ uri, retargetIndication k deep (path ++ '/' :: remaining) (some aPoc)
            (some entries') path = .ok (.checked b.accessRightID uri) := by
  obtain ⟨best, hlongest, hall⟩ := h
  refine ⟨best, hlongest, fun entries' hperm => ?_⟩
  have hselect := hall entries' hperm
  cases best with
  | none =>
    dsimp only [retargetIndication]
    rw [hselect]
    rfl
  | some b =>
    dsimp only [retargetIndication]
    rw [hselect]
    exact ⟨_, rfl⟩

end Main

theorem toLower_slash {c : Char} (h : c.toLower = '/') : c = '/' := by
  unfold Char.toLower at h
  split at h
  · rename_i hrange
    have hval : c.val + ('a'.val - 'A'.val) = '/'.val := congrArg Char.val h
    have hA : 'A'.val ≤ c.val := hrange.1
    have hZ : c.val ≤ 'Z'.val := hrange.2
    rw [UInt32.le_iff_toNat_le] at hA hZ
    have hnat := congrArg UInt32.toNat hval
    rw [UInt32.toNat_add] at hnat
    have h1 : 'A'.val.toNat = 65 := rfl
    have h2 : 'Z'.val.toNat = 90 := rfl
    have h3 : ('a'.val - 'A'.val).toNat = 32 := rfl
    have h4 : '/'.val.toNat = 47 := rfl
    omega
  · exact h

theorem toUpper_slash {c : Char} (h : c.toUpper = '/') : c = '/' := by
  unfold Char.toUpper at h
  split at h
  · rename_i hrange
    have hval := congrArg Char.val h
    have hA : 'a'.val ≤ c.val := hrange.1
    have hZ : c.val ≤ 'z'.val := hrange.2
    rw [UInt32.le_iff_toNat_le] at hA hZ
    have hnat := congrArg UInt32.toNat hval
    rw [UInt32.toNat_add] at hnat
    have h2 : 'z'.val.toNat = 122 := rfl
    have h3 := UInt32.toNat_sub 'A'.val 'a'.val
    have h5 : 'A'.val.toNat = 65 := rfl
    have h4 : '/'.val.toNat = 47 := rfl
    omega
  · exact h

/-- The letters of ASCII. -/
def asciiFolding : CaseFolding where
  toUpperCase := Char.toUpper
  toLowerCase := Char.toLower
  slash _ h := toUpper_slash (toLower_slash h)

/-- An entry for a lamp. -/
def lamp : APoCPath where
  path := ['l', 'a', 'm', 'p']
  accessRightID := none

/-- In shallow handling a shorter target is checked with the access right of an entry. -/
theorem longer_entry_selected :
    ¬ ∀ k deep path remaining entries, (entries.map APoCPath.path).Nodup →
      PicksRightEntry k deep path remaining entries := by
  intro h
  obtain ⟨best, hlongest, hall⟩ := h asciiFolding false [] ['l', 'a'] [lamp] (by decide)
  have hselect : selectAPoCPath asciiFolding false ['/', 'l', 'a'] 1 none [lamp] =
      .ok (some lamp) := by rfl
  obtain rfl := Except.ok.inj ((hall [lamp] (List.Perm.refl _)).symm.trans hselect)
  have hlength := hlongest.2.1.1.begins.length_le
  exact absurd hlength (by decide)

end Ong.Scl.Application
