import Mathlib.Data.List.TakeWhile
import Mathlib.Algebra.Ring.Int.Defs
import Mathlib.Algebra.Ring.Nat
import Mathlib.Algebra.Order.Group.Nat
import Mathlib.Algebra.Order.BigOperators.Group.List

/-!
# Texts cut at a separator and put together again

A text is cut at a separator, a bounded number of times, and an empty last piece is dropped; it is
put together by writing the separator before each piece, unless nothing has been written yet.  What
comes out lacks the separators the text begins with, and one the text ends with.

## Main results

* `cut_eq_trim`: the pieces, when there are few
* `sum_length_cut_le`: the pieces are no longer than the text
* `foldl_glue_cut`, `foldl_glue_cut_iff`: what comes out, and the texts that come out as they went
  in
-/

namespace Ong.Pieces

open List

variable {α : Type*} [DecidableEq α] {sep : α} {s t acc : List α} {n : Nat}

/-- All pieces of a text. -/
def segments (sep : α) : List α → List (List α)
  | [] => [[]]
  | a :: s =>
    if a = sep then [] :: segments sep s
    else match segments sep s with
      | [] => [[a]]
      | p :: ps => (a :: p) :: ps

/-- The pieces of a text cut at most `n` times; an empty last one is dropped. -/
def cut (sep : α) : Nat → List α → List (List α)
  | 0, s => if s = [] then [] else [s]
  | n + 1, s =>
    if sep ∈ s then s.takeWhile (· ≠ sep) :: cut sep n (s.dropWhile (· ≠ sep)).tail
    else if s = [] then [] else [s]

/-- A piece written after a text, with a separator unless the text is empty. -/
def glue (sep : α) (acc piece : List α) : List α :=
  if acc = [] then piece else acc ++ sep :: piece

/-- The pieces without an empty last one. -/
def trim (ps : List (List α)) : List (List α) := if ps.getLast? = some [] then ps.dropLast else ps

/-- A text with a separator before what will follow it. -/
def weight (s : List α) : Nat := if s = [] then 0 else s.length + 1

/-- The text without a separator it ends with. -/
def chop (sep : α) (s : List α) : List α := if s.getLast? = some sep then s.dropLast else s

theorem segments_ne_nil (sep : α) (s : List α) : segments sep s ≠ [] := by
  cases s with
  | nil => exact cons_ne_nil _ _
  | cons a s =>
    rw [segments]
    split
    · exact cons_ne_nil _ _
    · split <;> exact cons_ne_nil _ _

theorem segments_cons_of_ne {a : α} {p : List α} {ps : List (List α)} (ha : a ≠ sep)
    (h : segments sep s = p :: ps) : segments sep (a :: s) = (a :: p) :: ps := by
  rw [segments, if_neg ha, h]

theorem segments_sep_cons : segments sep (sep :: s) = [] :: segments sep s := by
  rw [segments, if_pos rfl]

theorem segments_append (s t : List α) :
    segments sep (s ++ sep :: t) = segments sep s ++ segments sep t := by
  induction s with
  | nil => exact segments_sep_cons
  | cons a s ih =>
    obtain ⟨p, ps, hps⟩ := exists_cons_of_ne_nil (segments_ne_nil sep s)
    by_cases ha : a = sep
    · rw [ha, cons_append, segments_sep_cons, segments_sep_cons, ih, cons_append]
    · rw [segments_cons_of_ne ha hps, cons_append, cons_append]
      rw [hps, cons_append] at ih
      exact segments_cons_of_ne ha ih

theorem segments_of_notMem (h : sep ∉ s) : segments sep s = [s] := by
  induction s with
  | nil => rfl
  | cons a s ih =>
    obtain ⟨ha, hs⟩ := not_or.mp (mem_cons.not.mp h)
    exact segments_cons_of_ne (Ne.symm ha) (ih hs)

theorem notMem_of_mem_segments {p : List α} (h : p ∈ segments sep s) : sep ∉ p := by
  induction s generalizing p with
  | nil =>
    rw [mem_singleton.mp h]
    exact not_mem_nil
  | cons a s ih =>
    rw [segments] at h
    split at h
    · rcases mem_cons.mp h with rfl | h
      · exact not_mem_nil
      · exact ih h
    · rename_i ha
      obtain ⟨q, qs, hqs⟩ := exists_cons_of_ne_nil (segments_ne_nil sep s)
      rw [hqs] at h ih
      rcases mem_cons.mp h with rfl | h
      · exact mem_cons.not.mpr (not_or.mpr ⟨Ne.symm ha, ih mem_cons_self⟩)
      · exact ih (mem_cons_of_mem _ h)

theorem sum_length_segments (s : List α) :
    ((segments sep s).map (·.length + 1)).sum = s.length + 1 := by
  induction s with
  | nil => rfl
  | cons a s ih =>
    rw [segments]
    split
    · rw [map_cons, sum_cons, ih]
      simp [Nat.add_comm]
    · obtain ⟨q, qs, hqs⟩ := exists_cons_of_ne_nil (segments_ne_nil sep s)
      rw [hqs] at ih ⊢
      simp only [map_cons, sum_cons, length_cons] at ih ⊢
      omega

theorem segments_prefix_iff :
    segments sep s <+: segments sep t ↔ s = t ∨ ∃ u, t = s ++ sep :: u := by
  constructor
  · intro h
    induction s generalizing t with
    | nil =>
      cases t with
      | nil => exact .inl rfl
      | cons b t =>
        by_cases hb : b = sep
        · exact .inr ⟨t, by rw [hb, nil_append]⟩
        · obtain ⟨p, ps, hps⟩ := exists_cons_of_ne_nil (segments_ne_nil sep t)
          rw [segments_cons_of_ne hb hps] at h
          cases (cons_prefix_cons.mp h).1
    | cons a s ih =>
      obtain ⟨p, ps, hps⟩ := exists_cons_of_ne_nil (segments_ne_nil sep s)
      by_cases ha : a = sep
      · subst ha
        rw [segments_sep_cons] at h
        cases t with
        | nil =>
          rw [hps] at h
          have hlen := h.length_le
          simp only [segments, length_cons, length_nil] at hlen
          omega
        | cons b t =>
          by_cases hb : b = a
          · subst hb
            rw [segments_sep_cons] at h
            rcases ih (cons_prefix_cons.mp h).2 with rfl | ⟨u, rfl⟩
            · exact .inl rfl
            · exact .inr ⟨u, rfl⟩
          · obtain ⟨q, qs, hqs⟩ := exists_cons_of_ne_nil (segments_ne_nil a t)
            rw [segments_cons_of_ne hb hqs] at h
            cases (cons_prefix_cons.mp h).1
      · rw [segments_cons_of_ne ha hps] at h
        cases t with
        | nil => cases (cons_prefix_cons.mp h).1
        | cons b t =>
          obtain ⟨q, qs, hqs⟩ := exists_cons_of_ne_nil (segments_ne_nil sep t)
          by_cases hb : b = sep
          · rw [hb, segments_sep_cons] at h
            cases (cons_prefix_cons.mp h).1
          · rw [segments_cons_of_ne hb hqs] at h
            obtain ⟨hhead, htail⟩ := cons_prefix_cons.mp h
            obtain ⟨rfl, rfl⟩ := cons.inj hhead
            have hst : segments sep s <+: segments sep t := by
              rw [hps, hqs]
              exact cons_prefix_cons.mpr ⟨rfl, htail⟩
            rcases ih hst with rfl | ⟨u, rfl⟩
            · exact .inl rfl
            · exact .inr ⟨u, rfl⟩
  · rintro (rfl | ⟨u, rfl⟩)
    · exact prefix_refl _
    · rw [segments_append]
      exact prefix_append _ _

section Cut

theorem exists_cut (h : sep ∈ s) :
    ∃ a b, s = a ++ sep :: b ∧ sep ∉ a ∧ ∀ n, cut sep (n + 1) s = a :: cut sep n b := by
  obtain ⟨a, b, rfl, ha⟩ := eq_append_cons_of_mem h
  have hpos : ∀ x ∈ a, decide (x ≠ sep) = true := by
    intro x hx
    exact decide_eq_true fun hxs => ha (hxs ▸ hx)
  refine ⟨a, b, rfl, ha, fun n => ?_⟩
  rw [cut, if_pos h, takeWhile_append_of_pos hpos, dropWhile_append_of_pos hpos]
  simp

variable {p : List α} {ps : List (List α)}

theorem trim_cons (h : ps ≠ []) : trim (p :: ps) = p :: trim ps := by
  obtain ⟨q, qs, rfl⟩ := exists_cons_of_ne_nil h
  unfold trim
  rw [getLast?_cons_cons, dropLast_cons_cons]
  split <;> rfl

theorem trim_sublist (ps : List (List α)) : (trim ps).Sublist ps := by
  unfold trim
  split
  · exact dropLast_sublist ps
  · exact Sublist.refl ps

theorem trim_singleton : trim [s] = if s = [] then [] else [s] := by
  simp [trim]

theorem cut_of_notMem (h : sep ∉ s) (n : Nat) : cut sep n s = if s = [] then [] else [s] := by
  cases n with
  | zero => rfl
  | succ n => rw [cut, if_neg h]

/-- The pieces of a text with few separators. -/
theorem cut_eq_trim (h : s.count sep ≤ n) : cut sep n s = trim (segments sep s) := by
  induction n generalizing s with
  | zero =>
    have hs : sep ∉ s := count_eq_zero.mp (Nat.le_zero.mp h)
    rw [cut_of_notMem hs, segments_of_notMem hs, trim_singleton]
  | succ n ih =>
    by_cases hs : sep ∈ s
    · obtain ⟨a, b, rfl, ha, hcut⟩ := exists_cut hs
      rw [count_append, count_cons_self, count_eq_zero.mpr ha] at h
      rw [hcut, ih (by omega), segments_append, segments_of_notMem ha, singleton_append,
        trim_cons (segments_ne_nil sep b)]
    · rw [cut_of_notMem hs, segments_of_notMem hs, trim_singleton]

theorem cut_sublist (h : s.count sep ≤ n) : (cut sep n s).Sublist (segments sep s) := by
  rw [cut_eq_trim h]
  exact trim_sublist _

theorem le_length_cut (h : n < s.count sep) : n ≤ (cut sep n s).length := by
  induction n generalizing s with
  | zero => exact Nat.zero_le _
  | succ n ih =>
    have hs : sep ∈ s := count_pos_iff.mp (Nat.zero_lt_of_lt h)
    obtain ⟨a, b, rfl, ha, hcut⟩ := exists_cut hs
    rw [count_append, count_cons_self, count_eq_zero.mpr ha] at h
    rw [hcut, length_cons]
    exact Nat.succ_le_succ (ih (by omega))

omit [DecidableEq α] in
theorem sum_length_le_of_sublist {qs : List (List α)} (h : ps.Sublist qs) :
    (ps.map (·.length + 1)).sum ≤ (qs.map (·.length + 1)).sum :=
  (h.map _).sum_le_sum fun _ _ => Nat.zero_le _

/-- The pieces are no longer than the text. -/
theorem sum_length_cut_le (h : s.count sep ≤ n) :
    ((cut sep n s).map (·.length + 1)).sum ≤ s.length + 1 := by
  rw [← sum_length_segments s]
  exact sum_length_le_of_sublist (cut_sublist h)

theorem length_le_of_mem_cut (h : s.count sep ≤ n) (hp : p ∈ cut sep n s) :
    p.length ≤ s.length := by
  have hone := sum_length_le_of_sublist (singleton_sublist.mpr hp)
  have hall := sum_length_cut_le h
  rw [map_singleton, sum_singleton] at hone
  omega

omit [DecidableEq α] in
theorem exists_last (h : sep ∈ s) : ∃ a b, s = a ++ sep :: b ∧ sep ∉ b := by
  obtain ⟨b, a, hs, hb⟩ := eq_append_cons_of_mem (mem_reverse.mpr h)
  refine ⟨a.reverse, b.reverse, ?_, fun hmem => hb (mem_reverse.mp hmem)⟩
  rw [← reverse_reverse s, hs, reverse_append, reverse_cons, append_assoc,
    singleton_append]

theorem eq_append_of_segments (h : segments sep s = ps ++ [p]) (hps : ps ≠ []) :
    ∃ a, s = a ++ sep :: p ∧ sep ∉ p ∧ segments sep a = ps := by
  by_cases hs : sep ∈ s
  · obtain ⟨a, b, rfl, hb⟩ := exists_last hs
    rw [segments_append, segments_of_notMem hb] at h
    obtain ⟨ha, hp⟩ := append_inj' h rfl
    obtain rfl := singleton_inj.mp hp
    exact ⟨a, rfl, hb, ha⟩
  · rw [segments_of_notMem hs] at h
    exact absurd (append_eq_singleton_iff.mp h.symm) (by simp [hps])

theorem trim_segments (h : s ≠ []) : trim (segments sep s) = segments sep (chop sep s) := by
  by_cases hs : sep ∈ s
  · obtain ⟨a, b, rfl, hb⟩ := exists_last hs
    rw [segments_append, segments_of_notMem hb]
    unfold trim chop
    rw [getLast?_append, getLast?_singleton, Option.some_or, dropLast_concat]
    by_cases hnil : b = []
    · subst hnil
      rw [if_pos rfl, getLast?_append, getLast?_singleton, Option.some_or, if_pos rfl,
        dropLast_concat]
    · have hlast : (a ++ sep :: b).getLast? ≠ some sep := by
        rw [getLast?_append_cons, getLast?_cons]
        obtain ⟨c, hc⟩ := Option.ne_none_iff_exists'.mp (getLast?_eq_none_iff.not.mpr hnil)
        rw [hc, Option.getD_some]
        exact fun heq => hb (Option.some.inj heq ▸ mem_of_getLast? hc)
      rw [if_neg (fun heq => hnil (Option.some.inj heq)), if_neg hlast, segments_append,
        segments_of_notMem hb]
  · have hlast : s.getLast? ≠ some sep := fun hc => hs (mem_of_getLast? hc)
    rw [chop, if_neg hlast, segments_of_notMem hs, trim_singleton, if_neg h]

end Cut

omit [DecidableEq α] in
theorem weight_nil : weight ([] : List α) = 0 := if_pos rfl

omit [DecidableEq α] in
theorem weight_glue_le (sep : α) (s piece : List α) :
    weight (glue sep s piece) ≤ weight s + (piece.length + 1) := by
  unfold weight glue
  by_cases hs : s = []
  · rw [if_pos hs, if_pos hs]
    split <;> omega
  · rw [if_neg hs, if_neg hs, if_neg (by simp)]
    simp only [length_append, length_cons]
    omega

theorem foldl_glue_tail {p : List α} {ps : List (List α)} (h : segments sep s = p :: ps)
    (acc : List α) (hacc : acc ≠ []) : ps.foldl (glue sep) (acc ++ p) = acc ++ s := by
  induction s generalizing p ps acc with
  | nil =>
    cases h
    rfl
  | cons a s ih =>
    obtain ⟨q, qs, hqs⟩ := exists_cons_of_ne_nil (segments_ne_nil sep s)
    by_cases ha : a = sep
    · rw [ha, segments_sep_cons, hqs] at h
      obtain ⟨rfl, rfl⟩ := cons.inj h
      rw [append_nil, foldl_cons, glue, if_neg hacc, ha]
      have := ih hqs (acc ++ [sep]) (append_ne_nil_of_right_ne_nil _ (by simp))
      simpa using this
    · rw [segments_cons_of_ne ha hqs] at h
      obtain ⟨rfl, rfl⟩ := cons.inj h
      have := ih hqs (acc ++ [a]) (append_ne_nil_of_right_ne_nil _ (by simp))
      simpa using this

/-- **All pieces written** from the start: the separators the text begins with are lost. -/
theorem foldl_glue_segments (s : List α) :
    (segments sep s).foldl (glue sep) [] = s.dropWhile (· = sep) := by
  induction s with
  | nil => rfl
  | cons a s ih =>
    by_cases ha : a = sep
    · rw [ha, segments_sep_cons, foldl_cons, glue, if_pos rfl, ih,
        dropWhile_cons_of_pos (by simp)]
    · obtain ⟨q, qs, hqs⟩ := exists_cons_of_ne_nil (segments_ne_nil sep s)
      rw [segments_cons_of_ne ha hqs, foldl_cons, glue, if_pos rfl,
        dropWhile_cons_of_neg (by simpa using ha)]
      exact foldl_glue_tail hqs [a] (cons_ne_nil _ _)

/-- **What comes out** of a text cut and written again. -/
theorem foldl_glue_cut (h : s.count sep ≤ n) :
    (cut sep n s).foldl (glue sep) [] = (chop sep s).dropWhile (· = sep) := by
  rw [cut_eq_trim h]
  by_cases hs : s = []
  · rw [hs]
    rfl
  · rw [trim_segments hs, foldl_glue_segments]

theorem mem_of_mem_foldl_glue_cut (h : s.count sep ≤ n) {a : α}
    (ha : a ∈ (cut sep n s).foldl (glue sep) []) : a ∈ s := by
  rw [foldl_glue_cut h] at ha
  have hchop : a ∈ chop sep s := (dropWhile_sublist _).subset ha
  unfold chop at hchop
  split at hchop
  · exact (dropLast_sublist s).subset hchop
  · exact hchop

/-- **The texts that come out as they went in.** -/
theorem foldl_glue_cut_iff (h : s.count sep ≤ n) : (cut sep n s).foldl (glue sep) [] = s ↔
    s.head? ≠ some sep ∧ s.getLast? ≠ some sep := by
  rw [foldl_glue_cut h]
  constructor
  · intro heq
    have hlen : ((chop sep s).dropWhile (· = sep)).length ≤ (chop sep s).length :=
      (dropWhile_sublist _).length_le
    have hlast : s.getLast? ≠ some sep := by
      intro hc
      have hne : s ≠ [] := by
        rintro rfl
        cases hc
      rw [heq, chop, if_pos hc, length_dropLast] at hlen
      have := length_pos_iff.mpr hne
      omega
    refine ⟨fun hc => ?_, hlast⟩
    rw [chop, if_neg hlast] at heq
    obtain ⟨b, rfl⟩ : ∃ b, s = sep :: b := by
      cases s with
      | nil => cases hc
      | cons a b => exact ⟨b, by rw [Option.some.inj hc]⟩
    rw [dropWhile_cons_of_pos (by simp)] at heq
    have := (dropWhile_sublist (l := b) (· = sep)).length_le
    rw [heq, length_cons] at this
    omega
  · rintro ⟨hhead, hlast⟩
    rw [chop, if_neg hlast]
    cases s with
    | nil => rfl
    | cons a s =>
      refine dropWhile_cons_of_neg ?_
      simpa using fun ha : a = sep => hhead (by rw [ha]; rfl)

end Ong.Pieces
