import Mathlib.Data.List.Infix
import Mathlib.Data.Set.Basic

/-!
# The GLOB operator of SQLite

`patternCompare` with the wildcards of GLOB, which distinguishes cases and has no escape
character.  A text is the list of its characters.

## Main results

* `compareSet_eq_some_iff`: a set has the characters and the ranges that are written in it, or all
  the others
* `glob_iff_globs`: it finds the strings that the pattern means, a `*` passing over any characters
-/

namespace Ong.StorageDriver

open List

abbrev Text := List Char

def matchAll : Char := '*'

def matchOne : Char := '?'

def matchSet : Char := '['

/-- After a `*`: skip the other `*`, and one character for each `?`; `none` when the string has not
enough of them. -/
def skipAll : Text → Text → Option (Text × Text)
  | [], string => some ([], string)
  | c :: pattern, string =>
    if c = matchAll then skipAll pattern string
    else if c = matchOne then
      match string with
      | [] => none
      | _ :: string => skipAll pattern string
    else some (c :: pattern, string)

/-- The members of a set up to its `]`: whether `c` is one of them, and the rest of the pattern. -/
def compareMembers (c : Char) : Text → Bool → Option Char → Option (Bool × Text)
  | [], _, _ => none
  | ']' :: pattern, seen, _ => some (seen, pattern)
  | '-' :: c2 :: pattern, seen, some prior =>
    if c2 = ']' then compareMembers c (c2 :: pattern) (seen || c == '-') (some '-')
    else compareMembers c pattern (seen || (prior ≤ c && c ≤ c2)) none
  | c2 :: pattern, seen, _ => compareMembers c pattern (seen || c == c2) (some c2)

/-- A set, after its `[`: the rest of the pattern, when the set has `c`. -/
def compareSet (c : Char) (pattern : Text) : Option Text :=
  let invert := pattern.head? == some '^'
  let members := if invert then pattern.tail else pattern
  let closing := members.head? == some ']'
  let found :=
    if closing then compareMembers c members.tail (c == ']') none
    else compareMembers c members false none
  match found with
  | none => none
  | some (seen, pattern) => if seen ^^ invert then some pattern else none

/-- Each recursive call is on a shorter pattern; the first argument bounds their depth. -/
def patternCompare : Nat → Text → Text → Bool
  | 0, _, _ => false
  | _ + 1, [], string => string.isEmpty
  | n + 1, c :: pattern, string =>
    if c = matchAll then
      match skipAll pattern string with
      | none => false
      | some ([], _) => true
      | some (c :: pattern, string) =>
        if c = matchSet then
          string.tails.any fun s => !s.isEmpty && patternCompare n (c :: pattern) s
        else
          string.tails.any fun s => s.head? == some c && patternCompare n pattern s.tail
    else if c = matchOne then
      match string with
      | [] => false
      | _ :: string => patternCompare n pattern string
    else if c = matchSet then
      match string with
      | [] => false
      | c :: string =>
        match compareSet c pattern with
        | none => false
        | some pattern => patternCompare n pattern string
    else
      match string with
      | [] => false
      | c2 :: string => c == c2 && patternCompare n pattern string

/-- `string GLOB pattern`. -/
def glob (pattern string : Text) : Bool := patternCompare (pattern.length + 1) pattern string

section Sets

variable {pattern rest : Text}

theorem length_compareMembers {c : Char} {seen seen' : Bool} {prior : Option Char}
    (h : compareMembers c pattern seen prior = some (seen', rest)) :
    rest.length ≤ pattern.length := by
  fun_induction compareMembers c pattern seen prior with
  | case1 => cases h
  | case2 =>
    cases h
    exact Nat.le_succ _
  | case3 _ _ _ ih => exact (ih h).trans (Nat.le_succ _)
  | case4 _ _ _ _ _ ih => exact (ih h).trans ((Nat.le_succ _).trans (Nat.le_succ _))
  | case5 _ _ _ _ _ _ ih => exact (ih h).trans (Nat.le_succ _)

theorem length_compareSet {c : Char} (h : compareSet c pattern = some rest) :
    rest.length ≤ pattern.length := by
  have htail : ∀ (b : Bool) (p : Text), (if b then p.tail else p).length ≤ p.length := by
    intro b p
    split
    · exact (tail_sublist p).length_le
    · exact Nat.le_refl _
  unfold compareSet at h
  dsimp only at h
  generalize (pattern.head? == some '^') = invert at h
  have hmembers := htail invert pattern
  generalize (if invert = true then pattern.tail else pattern) = members at h hmembers
  split at h
  · cases h
  · rename_i seen p hfound
    split at h
    · cases h
      split at hfound
      · have := length_compareMembers hfound
        have := (tail_sublist members).length_le
        omega
      · exact (length_compareMembers hfound).trans hmembers
    · cases h

end Sets

/-- What is written in a set: a character, or the characters from one to another. -/
inductive SetItem where
  | char (x : Char)
  | range (x y : Char)

/-- The characters that are meant.  The first one of a range is meant even if the range is empty. -/
def SetItem.Has (c : Char) : SetItem → Prop
  | .char x => c = x
  | .range x y => c = x ∨ x ≤ c ∧ c ≤ y

/-- The items that a pattern spells up to its `]`, and what is behind.  A character is the first one
of a range when a `-` and another character follow it. -/
inductive Spells : List SetItem → Text → Text → Prop
  | nil (rest : Text) : Spells [] (']' :: rest) rest
  | char {x : Char} {items : List SetItem} {pattern rest : Text} (hx : x ≠ ']')
      (hrange : ∀ y t, pattern = '-' :: y :: t → y = ']') (h : Spells items pattern rest) :
    Spells (.char x :: items) (x :: pattern) rest
  | range {x y : Char} {items : List SetItem} {pattern rest : Text} (hx : x ≠ ']') (hy : y ≠ ']')
      (h : Spells items pattern rest) : Spells (.range x y :: items) (x :: '-' :: y :: pattern) rest

/-- The characters of a set without its `^`: a `]` is one of them when it comes first. -/
inductive Lists : Text → Set Char → Text → Prop
  | items {items : List SetItem} {pattern rest : Text} (hne : items ≠ [])
      (h : Spells items pattern rest) : Lists pattern {c | ∃ i ∈ items, i.Has c} rest
  | closing {items : List SetItem} {pattern rest : Text} (h : Spells items pattern rest) :
    Lists (']' :: pattern) {c | c = ']' ∨ ∃ i ∈ items, i.Has c} rest

/-- The characters of a set: behind a `^` all that are not listed. -/
inductive Denotes : Text → Set Char → Text → Prop
  | listed {pattern rest : Text} {s : Set Char} (hne : pattern.head? ≠ some '^')
      (h : Lists pattern s rest) : Denotes pattern s rest
  | others {pattern rest : Text} {s : Set Char} (h : Lists pattern s rest) :
    Denotes ('^' :: pattern) sᶜ rest

section SetMeaning

variable {items : List SetItem} {pattern rest : Text} {c x y : Char}

theorem spells_closing : Spells items (']' :: pattern) rest ↔ items = [] ∧ rest = pattern := by
  constructor
  · rintro (_ | ⟨hx, -, -⟩ | ⟨hx, -, -⟩)
    · exact ⟨rfl, rfl⟩
    · exact absurd rfl hx
    · exact absurd rfl hx
  · rintro ⟨rfl, rfl⟩
    exact .nil _

theorem spells_char (hx : x ≠ ']') (hrange : ∀ y t, pattern = '-' :: y :: t → y = ']') :
    Spells items (x :: pattern) rest ↔
      ∃ items', items = .char x :: items' ∧ Spells items' pattern rest := by
  constructor
  · rintro (_ | ⟨-, -, h⟩ | ⟨-, hy, -⟩)
    · exact absurd rfl hx
    · exact ⟨_, rfl, h⟩
    · exact absurd (hrange _ _ rfl) hy
  · rintro ⟨items', rfl, h⟩
    exact .char hx hrange h

theorem spells_range (hx : x ≠ ']') (hy : y ≠ ']') :
    Spells items (x :: '-' :: y :: pattern) rest ↔
      ∃ items', items = .range x y :: items' ∧ Spells items' pattern rest := by
  constructor
  · rintro (_ | ⟨-, hrange, -⟩ | ⟨-, -, h⟩)
    · exact absurd rfl hx
    · exact absurd (hrange _ _ rfl) hy
    · exact ⟨_, rfl, h⟩
  · rintro ⟨items', rfl, h⟩
    exact .range hx hy h

theorem has_first (h : Spells items (x :: pattern) rest) (hx : x ≠ ']') : ∃ i ∈ items, i.Has x := by
  cases h with
  | nil => exact absurd rfl hx
  | char => exact ⟨_, mem_cons_self, rfl⟩
  | range => exact ⟨_, mem_cons_self, .inl rfl⟩

section Items

variable {seen b : Bool} {p : Char}

/-- A prior character that begins no range is an item that has been compared already. -/
theorem exists_prior_char (hp : p ≠ ']') (hseen : c = p → seen = true)
    (hrange : ∀ y t, pattern = '-' :: y :: t → y = ']') :
    (∃ items, Spells items (p :: pattern) rest ∧
      (b = true ↔ seen = true ∨ ∃ i ∈ items, i.Has c)) ↔
    ∃ items, Spells items pattern rest ∧ (b = true ↔ seen = true ∨ ∃ i ∈ items, i.Has c) := by
  have hsame : ∀ items : List SetItem, (seen = true ∨ ∃ i ∈ SetItem.char p :: items, i.Has c) ↔
      (seen = true ∨ ∃ i ∈ items, i.Has c) := by
    intro items
    rw [exists_mem_cons_iff, ← or_assoc, SetItem.Has, or_iff_left_of_imp hseen]
  constructor
  · rintro ⟨items, h, hb⟩
    obtain ⟨items', rfl, h'⟩ := (spells_char hp hrange).mp h
    exact ⟨items', h', hb.trans (hsame items')⟩
  · rintro ⟨items, h, hb⟩
    exact ⟨_, .char hp hrange h, hb.trans (hsame items).symm⟩

/-- What is compared with the next character is compared with the first item. -/
theorem seen_first (h : Spells items (x :: pattern) rest) (hx : x ≠ ']') :
    ((seen || c == x) = true ∨ ∃ i ∈ items, i.Has c) ↔ seen = true ∨ ∃ i ∈ items, i.Has c := by
  rw [Bool.or_eq_true, beq_iff_eq, or_assoc, or_iff_right_of_imp (a := c = x)]
  rintro rfl
  exact has_first h hx

end Items

/-- The members are compared one item after the other.  With a prior character the item is the one
that it begins. -/
theorem compareMembers_iff {seen b : Bool} {prior : Option Char}
    (hprior : ∀ p ∈ prior, p ≠ ']' ∧ (c = p → seen = true)) :
    compareMembers c pattern seen prior = some (b, rest) ↔ ∃ items,
      Spells items (prior.toList ++ pattern) rest ∧
        (b = true ↔ seen = true ∨ ∃ i ∈ items, i.Has c) := by
  fun_induction compareMembers c pattern seen prior with
  | case1 seen prior =>
    refine iff_of_false nofun ?_
    rintro ⟨items, h, -⟩
    cases prior with
    | none => cases h
    | some p =>
      obtain ⟨_, -, h⟩ := (spells_char (hprior p rfl).1 (by rintro _ _ ⟨⟩)).mp h
      cases h
  | case2 pattern seen prior =>
    have hclosed : (∃ items, Spells items (']' :: pattern) rest ∧
        (b = true ↔ seen = true ∨ ∃ i ∈ items, i.Has c)) ↔
        some (seen, pattern) = some (b, rest) := by
      simp only [spells_closing, and_assoc, exists_eq_left, not_mem_nil, false_and, exists_false,
        or_false, Option.some.injEq, Prod.mk.injEq, Bool.coe_iff_coe]
      exact ⟨fun ⟨hrest, hb⟩ => ⟨hb.symm, hrest.symm⟩, fun ⟨hb, hrest⟩ => ⟨hrest.symm, hb.symm⟩⟩
    cases prior with
    | none => exact hclosed.symm
    | some p =>
      exact hclosed.symm.trans
        (exists_prior_char (hprior p rfl).1 (hprior p rfl).2 (by rintro _ _ ⟨⟩)).symm
  | case3 pattern seen p ih =>
    have hrange : ∀ y t, '-' :: ']' :: pattern = '-' :: y :: t → y = ']' := by
      rintro y t ⟨⟩
      rfl
    have hdash : ∀ q ∈ some '-', q ≠ ']' ∧ (c = q → (seen || c == '-') = true) := by
      rintro _ ⟨⟩
      exact ⟨by decide, fun h => by simp [h]⟩
    refine (ih hdash).trans (Iff.trans ?_
      (exists_prior_char (hprior p rfl).1 (hprior p rfl).2 hrange).symm)
    exact exists_congr fun items => and_congr_right fun h =>
      iff_congr Iff.rfl (seen_first h (by decide))
  | case4 c2 pattern seen p hc2 ih =>
    obtain ⟨hp, hseen⟩ := hprior p rfl
    have hsame : ∀ items : List SetItem,
        (seen = true ∨ ∃ i ∈ SetItem.range p c2 :: items, i.Has c) ↔
          (seen || (decide (p ≤ c) && decide (c ≤ c2))) = true ∨ ∃ i ∈ items, i.Has c := by
      intro items
      rw [exists_mem_cons_iff, Bool.or_eq_true, Bool.and_eq_true, decide_eq_true_iff,
        decide_eq_true_iff, SetItem.Has, or_assoc, ← or_assoc, or_iff_left_of_imp hseen, or_assoc]
    rw [ih nofun]
    constructor
    · rintro ⟨items, h, hb⟩
      exact ⟨_, .range hp hc2 h, hb.trans (hsame items).symm⟩
    · rintro ⟨items, h, hb⟩
      obtain ⟨items', rfl, h'⟩ := (spells_range hp hc2).mp h
      exact ⟨items', h', hb.trans (hsame items')⟩
  | case5 c2 pattern seen prior hc2 hother ih =>
    have hnext : ∀ q ∈ some c2, q ≠ ']' ∧ (c = q → (seen || c == c2) = true) := by
      rintro _ ⟨⟩
      exact ⟨hc2, fun h => by simp [h]⟩
    have hfirst : (∃ items, Spells items (c2 :: pattern) rest ∧
        (b = true ↔ (seen || c == c2) = true ∨ ∃ i ∈ items, i.Has c)) ↔
        ∃ items, Spells items (c2 :: pattern) rest ∧
          (b = true ↔ seen = true ∨ ∃ i ∈ items, i.Has c) :=
      exists_congr fun items => and_congr_right fun h => iff_congr Iff.rfl (seen_first h hc2)
    refine (ih hnext).trans (hfirst.trans ?_)
    cases prior with
    | none => rfl
    | some p =>
      refine (exists_prior_char (hprior p rfl).1 (hprior p rfl).2 ?_).symm
      rintro y t ⟨⟩
      exact (hother _ _ _ rfl rfl rfl).elim

/-- The members behind a `^`, if there is one. -/
theorem lists_iff {b : Bool} :
    (if pattern.head? == some ']' then compareMembers c pattern.tail (c == ']') none
      else compareMembers c pattern false none) = some (b, rest) ↔
    ∃ s, Lists pattern s rest ∧ (b = true ↔ c ∈ s) := by
  by_cases hclosing : pattern.head? = some ']'
  · obtain ⟨pattern, rfl⟩ : ∃ t, pattern = ']' :: t := head?_eq_some_iff.mp hclosing
    simp only [head?_cons, beq_self_eq_true, if_true, tail_cons]
    rw [compareMembers_iff (by rintro _ ⟨⟩)]
    simp only [beq_iff_eq]
    constructor
    · rintro ⟨items, h, hb⟩
      exact ⟨_, .closing h, hb⟩
    · rintro ⟨_, ⟨hne, h⟩ | h, hb⟩
      · exact absurd (spells_closing.mp h).1 hne
      · exact ⟨_, h, hb⟩
  · rw [if_neg (by simpa using hclosing), compareMembers_iff (by rintro _ ⟨⟩)]
    simp only [Bool.false_eq_true, false_or]
    constructor
    · rintro ⟨items, h, hb⟩
      refine ⟨_, .items ?_ h, hb⟩
      rintro rfl
      cases h
      exact hclosing rfl
    · rintro ⟨_, ⟨-, h⟩ | h, hb⟩
      · exact ⟨_, h, hb⟩
      · exact absurd rfl hclosing

/-- **The members of a set** are the characters that it denotes. -/
theorem compareSet_eq_some_iff :
    compareSet c pattern = some rest ↔ ∃ s, Denotes pattern s rest ∧ c ∈ s := by
  have hfound : ∀ (found : Option (Bool × Text)) (invert : Bool), (match found with
      | none => none
      | some (seen, pattern) => if seen ^^ invert then some pattern else none) = some rest ↔
      ∃ b, found = some (b, rest) ∧ (b ^^ invert) = true := by
    intro found invert
    cases found with
    | none => simp
    | some f =>
      obtain ⟨seen, t⟩ := f
      cases seen <;> cases invert <;> simp
  unfold compareSet
  dsimp only
  rw [hfound]
  by_cases hinvert : pattern.head? = some '^'
  · obtain ⟨pattern, rfl⟩ : ∃ t, pattern = '^' :: t := head?_eq_some_iff.mp hinvert
    simp only [head?_cons, beq_self_eq_true, if_true, tail_cons, lists_iff, Bool.xor_true,
      Bool.not_eq_true']
    constructor
    · rintro ⟨_, ⟨s, h, hb⟩, rfl⟩
      exact ⟨_, .others h, fun hc => Bool.false_ne_true (hb.mpr hc)⟩
    · rintro ⟨_, ⟨hne, -⟩ | h, hc⟩
      · exact absurd rfl hne
      · exact ⟨false, ⟨_, h, iff_of_false Bool.false_ne_true hc⟩, rfl⟩
  · simp only [beq_eq_false_iff_ne.mpr hinvert, Bool.false_eq_true, if_false, lists_iff,
      Bool.xor_false]
    constructor
    · rintro ⟨_, ⟨s, h, hb⟩, rfl⟩
      exact ⟨s, .listed hinvert h, hb.mp rfl⟩
    · rintro ⟨s, ⟨-, h⟩ | h, hc⟩
      · exact ⟨true, ⟨s, h, iff_of_true rfl hc⟩, rfl⟩
      · exact absurd rfl hinvert

end SetMeaning

/-- What a pattern means: a `*` passes over any characters, a set over one of its own. -/
inductive Globs : Text → Text → Prop
  | nil : Globs [] []
  | all (skipped : Text) {pattern string : Text} (h : Globs pattern string) :
    Globs (matchAll :: pattern) (skipped ++ string)
  | one (c : Char) {pattern string : Text} (h : Globs pattern string) :
    Globs (matchOne :: pattern) (c :: string)
  | set {c : Char} {s : Set Char} {pattern rest string : Text} (hset : Denotes pattern s rest)
      (hc : c ∈ s) (h : Globs rest string) : Globs (matchSet :: pattern) (c :: string)
  | char {c : Char} {pattern string : Text} (hc : c ∉ [matchAll, matchOne, matchSet])
      (h : Globs pattern string) : Globs (c :: pattern) (c :: string)

section Meaning

variable {pattern rest string string' : Text} {c : Char}

theorem globs_all : Globs (matchAll :: pattern) string ↔ ∃ t, t <:+ string ∧ Globs pattern t := by
  constructor
  · rintro (_ | ⟨skipped, h⟩ | _ | _ | ⟨hc, -⟩)
    · exact ⟨_, suffix_append _ _, h⟩
    · exact absurd mem_cons_self hc
  · rintro ⟨t, ⟨skipped, rfl⟩, h⟩
    exact .all skipped h

theorem globs_one : Globs (matchOne :: pattern) string ↔ ∃ c t, string = c :: t ∧ Globs pattern t := by
  constructor
  · rintro (_ | _ | ⟨c, h⟩ | _ | ⟨hc, -⟩)
    · exact ⟨c, _, rfl, h⟩
    · exact absurd (by simp) hc
  · rintro ⟨c, t, rfl, h⟩
    exact .one c h

theorem globs_set : Globs (matchSet :: pattern) string ↔
    ∃ c t rest, string = c :: t ∧ compareSet c pattern = some rest ∧ Globs rest t := by
  constructor
  · rintro (_ | _ | _ | ⟨hset, hc, h⟩ | ⟨hc, -⟩)
    · exact ⟨_, _, _, rfl, compareSet_eq_some_iff.mpr ⟨_, hset, hc⟩, h⟩
    · exact absurd (by simp) hc
  · rintro ⟨c, t, rest, rfl, hset, h⟩
    obtain ⟨s, hset, hc⟩ := compareSet_eq_some_iff.mp hset
    exact .set hset hc h

theorem globs_char (hc : c ∉ [matchAll, matchOne, matchSet]) :
    Globs (c :: pattern) string ↔ ∃ t, string = c :: t ∧ Globs pattern t := by
  constructor
  · rintro (_ | _ | _ | _ | ⟨-, h⟩)
    · exact absurd (by simp) hc
    · exact absurd (by simp) hc
    · exact absurd (by simp) hc
    · exact ⟨_, rfl, h⟩
  · rintro ⟨t, rfl, h⟩
    exact .char hc h

/-- The stars and the question marks that follow a star can be taken in any order. -/
theorem globs_skipAll (pattern string : Text) :
    match skipAll pattern string with
    | none => ¬Globs (matchAll :: pattern) string
    | some (rest, string') =>
      (∀ c ∈ rest.head?, c ≠ matchAll ∧ c ≠ matchOne) ∧ rest.length ≤ pattern.length ∧
        (Globs (matchAll :: pattern) string ↔ Globs (matchAll :: rest) string') := by
  induction pattern generalizing string with
  | nil => exact ⟨nofun, Nat.le_refl _, Iff.rfl⟩
  | cons c pattern ih =>
    unfold skipAll
    split_ifs with hall hone
    · subst hall
      have hstars : Globs (matchAll :: matchAll :: pattern) string ↔
          Globs (matchAll :: pattern) string := by
        simp only [globs_all]
        exact ⟨fun ⟨t, ht, u, hu, h⟩ => ⟨u, hu.trans ht, h⟩,
          fun ⟨t, ht, h⟩ => ⟨string, suffix_refl _, t, ht, h⟩⟩
      have := ih string
      split at this
      · exact fun h => this (hstars.mp h)
      · exact ⟨this.1, Nat.le_succ_of_le this.2.1, hstars.trans this.2.2⟩
    · subst hone
      cases string with
      | nil =>
        rw [globs_all]
        rintro ⟨t, ht, h⟩
        rw [suffix_nil.mp ht] at h
        cases h
      | cons a string =>
        have hstar : Globs (matchAll :: matchOne :: pattern) (a :: string) ↔
            Globs (matchAll :: pattern) string := by
          simp only [globs_all, globs_one]
          constructor
          · rintro ⟨_, ht, c, t, rfl, h⟩
            rcases suffix_cons_iff.mp ht with heq | ht
            · exact ⟨t, (cons.inj heq).2 ▸ suffix_refl _, h⟩
            · exact ⟨t, (suffix_cons c t).trans ht, h⟩
          · rintro ⟨t, ⟨skipped, rfl⟩, h⟩
            obtain hnil | ⟨front, c, heq⟩ := eq_nil_or_concat' (a :: skipped)
            · cases hnil
            · refine ⟨c :: t, ⟨front, ?_⟩, c, t, rfl, h⟩
              rw [← cons_append, heq, append_assoc]
              rfl
        have := ih string
        dsimp only
        split at this
        · exact fun h => this (hstar.mp h)
        · exact ⟨this.1, Nat.le_succ_of_le this.2.1, hstar.trans this.2.2⟩
    · exact ⟨fun d hd => Option.some.inj hd ▸ ⟨hall, hone⟩, Nat.le_refl _, Iff.rfl⟩

theorem patternCompare_iff {n : Nat} (hn : pattern.length < n) (string : Text) :
    patternCompare n pattern string = true ↔ Globs pattern string := by
  induction n generalizing pattern string with
  | zero => exact absurd hn (Nat.not_lt_zero _)
  | succ n ih =>
    cases pattern with
    | nil =>
      rw [patternCompare, List.isEmpty_iff]
      exact ⟨fun h => h ▸ .nil, fun h => by cases h; rfl⟩
    | cons c pattern =>
      have hlen : pattern.length < n := Nat.lt_of_succ_lt_succ hn
      unfold patternCompare
      split_ifs with hall hone hset
      · subst hall
        have hskip := globs_skipAll pattern string
        split at hskip
        · next heq =>
          rw [heq]
          exact iff_of_false Bool.false_ne_true hskip
        · next rest string' heq =>
          obtain ⟨hhead, hrest, hiff⟩ := hskip
          rw [heq, hiff, globs_all]
          cases rest with
          | nil => exact iff_of_true rfl ⟨[], nil_suffix, .nil⟩
          | cons c rest =>
            dsimp only
            split_ifs with hset
            · subst hset
              simp only [any_eq_true, mem_tails, Bool.and_eq_true, Bool.not_eq_true',
                ih (hrest.trans_lt hlen)]
              refine exists_congr fun t => and_congr_right fun _ => and_iff_right_of_imp fun h => ?_
              obtain ⟨_, _, _, rfl, -⟩ := globs_set.mp h
              rfl
            · have hc : c ∉ [matchAll, matchOne, matchSet] := by
                simpa [hset] using hhead c rfl
              simp only [any_eq_true, mem_tails, Bool.and_eq_true, beq_iff_eq,
                ih (Nat.lt_of_succ_lt (hrest.trans_lt hlen)), globs_char hc]
              refine exists_congr fun t => and_congr_right fun _ => ?_
              cases t <;> simp [eq_comm]
      · subst hone
        rw [globs_one]
        cases string with
        | nil => simp
        | cons a string => simp [ih hlen]
      · subst hset
        rw [globs_set]
        cases string with
        | nil => simp
        | cons a string =>
          dsimp only
          cases hrest : compareSet a pattern with
          | none => simp [hrest]
          | some rest => simp [hrest, ih ((length_compareSet hrest).trans_lt hlen)]
      · rw [globs_char (by simp [hall, hone, hset])]
        cases string with
        | nil => simp
        | cons a string =>
          simp only [Bool.and_eq_true, beq_iff_eq, ih hlen, cons.injEq]
          exact ⟨fun ⟨hc, h⟩ => ⟨string, ⟨hc.symm, rfl⟩, h⟩,
            fun ⟨_, ⟨hc, ht⟩, h⟩ => ⟨hc.symm, ht ▸ h⟩⟩

/-- **What `GLOB` finds**: trying the rest of the pattern where its first character stands, and a
set at every place, finds exactly what the pattern means, ranges, inversion and a `]` or a `-` among
the members included. -/
theorem glob_iff_globs (pattern string : Text) :
    glob pattern string = true ↔ Globs pattern string :=
  patternCompare_iff (Nat.lt_succ_self _) string

example : glob "/a?/[^]0-9-]*".toList "/ab/x1".toList = true := by decide

end Meaning

end Ong.StorageDriver
