import Ong.Lib.Pieces

/-!
# Segments that stand for a place, and those that move

A list of segments names a place.  A path is read segment by segment from such a place: an empty
segment and a single dot stay, two dots leave the last segment, and any other segment is entered.
Above the root there is no place.

## Main definitions

* `DotSegments.resolve`: the place a list of segments leads to
* `DotSegments.Climbs`: two dots are read at the root
* `DotSegments.render`: the text of a place, with or without a separator at its end
* `DotSegments.Proper`: a segment that is entered

## Main results

* `resolve_eq_none_iff`: there is no place exactly when a path climbs above the root
* `mem_of_resolve`: the segments of the place are proper or were there before
* `segments_render`, `resolve_render`: the text of a place leads to the place
-/

namespace Ong.DotSegments

open Pieces List

variable {α : Type*} {sep dot : α} {segs place : List (List α)} {s : List α} {slash : Bool}
  {next : List (List α)}

/-- The text of a place. -/
def render (sep : α) (place : List (List α)) (slash : Bool) : List α :=
  (place.map (sep :: ·)).flatten ++ if slash then [sep] else []

theorem render_nil (sep : α) (slash : Bool) :
    render sep [] slash = if slash then [sep] else [] := rfl

theorem render_cons (sep : α) (s : List α) (place : List (List α)) (slash : Bool) :
    render sep (s :: place) slash = sep :: (s ++ render sep place slash) := by
  simp [render]

section

variable (sep : α) (place : List (List α))

theorem render_true : render sep place true = render sep place false ++ [sep] := by
  simp [render]

theorem dropLast_render : (render sep place true).dropLast = render sep place false := by
  rw [render_true, dropLast_concat]

theorem render_concat (s : List α) :
    render sep (place ++ [s]) true = render sep place true ++ (s ++ [sep]) := by
  simp [render]

end

theorem render_eq_nil_iff : render sep place slash = [] ↔ place = [] ∧ slash = false := by
  cases place with
  | nil => cases slash <;> simp [render]
  | cons s place => simp [render_cons]

theorem head?_render (h : render sep place slash ≠ []) :
    (render sep place slash).head? = some sep := by
  cases place with
  | nil =>
    cases slash with
    | false => exact absurd rfl h
    | true => rfl
  | cons s place => rw [render_cons, head?_cons]

theorem getLast?_render (h : ∀ s ∈ place, s ≠ [] ∧ sep ∉ s) :
    (render sep place slash).getLast? = some sep ↔ slash = true := by
  cases slash with
  | true => simp [render_true]
  | false =>
    simp only [Bool.false_eq_true, iff_false]
    rcases eq_nil_or_concat place with rfl | ⟨before, s, rfl⟩
    · simp [render_nil]
    · obtain ⟨hne, hmem⟩ := h s (by simp)
      intro hlast
      rw [← dropLast_render, concat_eq_append, render_concat, ← append_assoc, dropLast_concat,
        getLast?_append_of_ne_nil _ hne] at hlast
      exact hmem (mem_of_getLast? hlast)

variable [DecidableEq α]

/-- The place after one more segment. -/
def enter (dot : α) (place : List (List α)) (s : List α) : Option (List (List α)) :=
  if s = [] ∨ s = [dot] then some place
  else if s = [dot, dot] then if place = [] then none else some place.dropLast
  else some (place ++ [s])

/-- The place that a list of segments leads to. -/
def resolve (dot : α) : List (List α) → List (List α) → Option (List (List α))
  | place, [] => some place
  | place, s :: segs => (enter dot place s).bind fun place => resolve dot place segs

/-- After some of the segments the place is the root, and two dots are next. -/
def Climbs (dot : α) (place segs : List (List α)) : Prop :=
  ∃ before, before ++ [[dot, dot]] <+: segs ∧ resolve dot place before = some []

/-- A segment that is entered. -/
structure Proper (dot : α) (s : List α) : Prop where
  nonempty : s ≠ []
  ne_dot : s ≠ [dot]
  ne_dots : s ≠ [dot, dot]

theorem enter_stay (place : List (List α)) (h : s = [] ∨ s = [dot]) :
    enter dot place s = some place := if_pos h

theorem enter_dots (place : List (List α)) :
    enter dot place [dot, dot] = if place = [] then none else some place.dropLast := by
  simp [enter]

theorem enter_proper (place : List (List α)) (h : Proper dot s) :
    enter dot place s = some (place ++ [s]) := by
  rw [enter, if_neg (not_or.mpr ⟨h.nonempty, h.ne_dot⟩), if_neg h.ne_dots]

theorem cases_segment (dot : α) (s : List α) :
    (s = [] ∨ s = [dot]) ∨ s = [dot, dot] ∨ Proper dot s := by
  by_cases h : s = [] ∨ s = [dot]
  · exact .inl h
  · by_cases h' : s = [dot, dot]
    · exact .inr (.inl h')
    · exact .inr (.inr ⟨(not_or.mp h).1, (not_or.mp h).2, h'⟩)

theorem enter_eq_none_iff : enter dot place s = none ↔ place = [] ∧ s = [dot, dot] := by
  rcases cases_segment dot s with h | rfl | h
  · rw [enter_stay place h]
    rcases h with rfl | rfl <;> simp
  · rw [enter_dots]
    split <;> simp_all
  · rw [enter_proper place h]
    simp [h.ne_dots]

theorem resolve_append (dot : α) (place segs more : List (List α)) :
    resolve dot place (segs ++ more) =
      (resolve dot place segs).bind fun place => resolve dot place more := by
  induction segs generalizing place with
  | nil => rfl
  | cons s segs ih =>
    rw [cons_append, resolve, resolve, Option.bind_assoc]
    exact congrArg _ (funext ih)

theorem climbs_cons : Climbs dot place (s :: segs) ↔
    (place = [] ∧ s = [dot, dot]) ∨ ∃ next, enter dot place s = some next ∧ Climbs dot next segs := by
  constructor
  · rintro ⟨before, hprefix, hroot⟩
    cases before with
    | nil =>
      obtain ⟨rfl, -⟩ := cons_prefix_cons.mp hprefix
      exact .inl ⟨Option.some.inj hroot, rfl⟩
    | cons t before =>
      obtain ⟨rfl, hrest⟩ := cons_prefix_cons.mp hprefix
      obtain ⟨next, hnext, hroot⟩ := Option.bind_eq_some_iff.mp hroot
      exact .inr ⟨next, hnext, before, hrest, hroot⟩
  · rintro (⟨rfl, rfl⟩ | ⟨next, hnext, before, hprefix, hroot⟩)
    · exact ⟨[], prefix_append _ _, rfl⟩
    · refine ⟨s :: before, cons_prefix_cons.mpr ⟨rfl, hprefix⟩, ?_⟩
      rw [resolve, hnext]
      exact hroot

/-- **There is no place** exactly when the segments climb above the root. -/
theorem resolve_eq_none_iff : resolve dot place segs = none ↔ Climbs dot place segs := by
  induction segs generalizing place with
  | nil =>
    constructor
    · intro h
      cases h
    · rintro ⟨before, hprefix, -⟩
      have := hprefix.length_le
      simp at this
  | cons s segs ih =>
    rw [climbs_cons, resolve, ← enter_eq_none_iff]
    cases hnext : enter dot place s with
    | none => simp
    | some next =>
      rw [Option.bind_some, ih]
      simp

theorem mem_of_enter (h : enter dot place s = some next) {t : List α} (ht : t ∈ next) :
    t ∈ place ∨ t = s ∧ Proper dot s := by
  rcases cases_segment dot s with hs | rfl | hs
  · rw [enter_stay place hs] at h
    exact .inl (Option.some.inj h ▸ ht)
  · rw [enter_dots] at h
    split at h
    · cases h
    · obtain rfl := Option.some.inj h
      exact .inl ((dropLast_sublist place).subset ht)
  · rw [enter_proper place hs] at h
    obtain rfl := Option.some.inj h
    rcases mem_append.mp ht with ht | ht
    · exact .inl ht
    · exact .inr ⟨mem_singleton.mp ht, hs⟩

theorem mem_of_resolve (h : resolve dot place segs = some next) {t : List α} (ht : t ∈ next) :
    t ∈ place ∨ t ∈ segs ∧ Proper dot t := by
  induction segs generalizing place with
  | nil => exact .inl (Option.some.inj h ▸ ht)
  | cons s segs ih =>
    obtain ⟨mid, hmid, hrest⟩ := Option.bind_eq_some_iff.mp h
    rcases ih hrest with hin | ⟨hin, hproper⟩
    · rcases mem_of_enter hmid hin with hin | ⟨rfl, hproper⟩
      · exact .inl hin
      · exact .inr ⟨mem_cons_self, hproper⟩
    · exact .inr ⟨mem_cons_of_mem _ hin, hproper⟩

theorem resolve_proper (h : ∀ s ∈ segs, Proper dot s) (place : List (List α)) :
    resolve dot place segs = some (place ++ segs) := by
  induction segs generalizing place with
  | nil => rw [resolve, append_nil]
  | cons s segs ih =>
    rw [resolve, enter_proper place (h s mem_cons_self), Option.bind_some,
      ih (fun t ht => h t (mem_cons_of_mem _ ht)), append_assoc, singleton_append]

/-- **The segments of the text** of a place. -/
theorem segments_render (h : ∀ s ∈ place, sep ∉ s) (slash : Bool) :
    segments sep (render sep place slash) = [] :: (place ++ if slash then [[]] else []) := by
  induction place with
  | nil =>
    cases slash with
    | false => rfl
    | true => simp [render_nil, segments]
  | cons s place ih =>
    have hplace := ih fun t ht => h t (mem_cons_of_mem _ ht)
    have hs := h s mem_cons_self
    rw [render_cons, segments_sep_cons]
    refine congrArg _ ?_
    by_cases hend : render sep place slash = []
    · obtain ⟨rfl, rfl⟩ := render_eq_nil_iff.mp hend
      rw [hend, append_nil, segments_of_notMem hs]
      rfl
    · obtain ⟨rest, hrest⟩ : ∃ rest, render sep place slash = sep :: rest := by
        have hhead := head?_render hend
        cases hr : render sep place slash with
        | nil => exact absurd hr hend
        | cons a rest =>
          rw [hr, head?_cons] at hhead
          exact ⟨rest, by rw [Option.some.inj hhead]⟩
      rw [hrest, segments_sep_cons] at hplace
      rw [hrest, segments_append, segments_of_notMem hs, (cons.inj hplace).2]
      rfl

theorem render_segments (s : List α) : render sep (segments sep s) false = sep :: s := by
  induction s with
  | nil => rfl
  | cons a s ih =>
    obtain ⟨p, ps, hps⟩ := exists_cons_of_ne_nil (segments_ne_nil sep s)
    by_cases ha : a = sep
    · rw [ha, segments_sep_cons, render_cons, ih, nil_append]
    · rw [segments_cons_of_ne ha hps, render_cons]
      rw [hps, render_cons] at ih
      rw [cons_append, (cons.inj ih).2]

/-- **The text of a place leads to the place**, from wherever it is read as an absolute one. -/
theorem resolve_render (hsep : ∀ s ∈ place, sep ∉ s) (h : ∀ s ∈ place, Proper dot s)
    (slash : Bool) : resolve dot [] (segments sep (render sep place slash)) = some place := by
  rw [segments_render hsep, resolve, enter_stay _ (.inl rfl), Option.bind_some, resolve_append,
    resolve_proper h, nil_append, Option.bind_some]
  cases slash with
  | false => rfl
  | true =>
    rfl

end Ong.DotSegments
