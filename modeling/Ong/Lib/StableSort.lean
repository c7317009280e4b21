import Mathlib.Data.List.Basic

/-!
# Stable sorting

A stable sort puts a list in the order of a comparison and keeps the order of those that compare
equal.

## Main results

* `IsStableSort.find?_eq`: the first match in the sorted list
* `isStableSort_mergeSort`: merge sort is a stable sort
-/

namespace Ong

open List

variable {α : Type*}

/-- A comparison: negative if the first one comes before, positive if it comes after the other. -/
structure IsComparison (cmp : α → α → Int) : Prop where
  swap : ∀ a b, cmp a b < 0 ↔ 0 < cmp b a
  trans : ∀ a b c, cmp a b ≤ 0 → cmp b c ≤ 0 → cmp a c ≤ 0

/-- A stable sort. -/
structure IsStableSort (sort : (α → α → Int) → List α → List α) : Prop where
  perm : ∀ {cmp}, IsComparison cmp → ∀ l, (sort cmp l).Perm l
  sorted : ∀ {cmp}, IsComparison cmp → ∀ l, (sort cmp l).Pairwise fun a b => cmp a b ≤ 0
  stable : ∀ {cmp}, IsComparison cmp → ∀ l a,
    (sort cmp l).filter (fun b => cmp a b = 0) = l.filter fun b => cmp a b = 0

theorem IsComparison.of_rank {cmp : α → α → Int} (rank : α → Nat)
    (hneg : ∀ a b, cmp a b < 0 ↔ rank a < rank b) (hpos : ∀ a b, 0 < cmp a b ↔ rank b < rank a) :
    IsComparison cmp where
  swap a b := (hneg a b).trans (hpos b a).symm
  trans a b c hab hbc := by
    have := hpos a b
    have := hpos b c
    have := hpos a c
    omega

namespace IsComparison

variable {cmp : α → α → Int} {a b : α}

theorem eq_zero_iff (h : IsComparison cmp) : cmp a b = 0 ↔ cmp a b ≤ 0 ∧ cmp b a ≤ 0 := by
  have hab := h.swap a b
  omega

theorem self_eq_zero (h : IsComparison cmp) : cmp a a = 0 := by
  have := h.swap a a
  omega

end IsComparison

theorem find?_and {p q : α → Bool} {l : List α} (h : ∀ a, l.find? p = some a → q a = true) :
    l.find? p = l.find? fun a => p a && q a := by
  induction l with
  | nil => rfl
  | cons a l ih =>
    by_cases hp : p a = true
    · have hq := h a (find?_cons_of_pos hp)
      rw [find?_cons_of_pos hp, find?_cons_of_pos (by rw [hp, hq]; rfl)]
    · rw [find?_cons_of_neg hp] at h ⊢
      rw [find?_cons_of_neg (by simp [hp]), ih h]

/-- **The first match in a sorted list**: of the least matches, the first one of the list before. -/
theorem IsStableSort.find?_eq {sort : (α → α → Int) → List α → List α} (hs : IsStableSort sort)
    {cmp : α → α → Int} (hc : IsComparison cmp) {p : α → Bool} {l : List α} {m : α} (hm : m ∈ l)
    (hpm : p m = true) (hleast : ∀ a ∈ l, p a = true → cmp m a ≤ 0) :
    (sort cmp l).find? p = l.find? fun a => p a && decide (cmp m a = 0) := by
  have hperm := hs.perm hc l
  have hfirst : ∀ a, (sort cmp l).find? p = some a → decide (cmp m a = 0) = true := by
    intro a ha
    obtain ⟨hpa, before, after, hl, hbefore⟩ := find?_eq_some_iff_append.mp ha
    have hal : a ∈ l := hperm.mem_iff.mp (mem_of_find?_eq_some ha)
    have hmem : m ∈ before ++ a :: after := hl ▸ hperm.mem_iff.mpr hm
    have hle : cmp a m ≤ 0 := by
      rcases mem_append.mp hmem with hmem | hmem
      · have := hbefore m hmem
        rw [hpm] at this
        exact absurd this (by decide)
      · rcases mem_cons.mp hmem with rfl | hmem
        · exact Int.le_of_eq hc.self_eq_zero
        · have hsorted := hs.sorted hc l
          rw [hl, pairwise_append, pairwise_cons] at hsorted
          exact hsorted.2.1.1 m hmem
    exact decide_eq_true (hc.eq_zero_iff.mpr ⟨hleast a hal hpa, hle⟩)
  have hfilter (l : List α) : (l.find? fun a => p a && decide (cmp m a = 0)) =
      (l.filter fun b => cmp m b = 0).find? p := by
    rw [find?_filter]
    congr 1
    funext a
    rw [Bool.decide_and, Bool.decide_eq_true, Bool.decide_eq_true, Bool.and_comm]
  rw [find?_and hfirst, hfilter, hfilter, hs.stable hc]

/-- **Merge sort is stable.** -/
theorem isStableSort_mergeSort :
    IsStableSort fun (cmp : α → α → Int) l => l.mergeSort fun a b => cmp a b ≤ 0 := by
  have htrans {cmp : α → α → Int} (hc : IsComparison cmp) (a b c : α)
      (hab : decide (cmp a b ≤ 0) = true) (hbc : decide (cmp b c ≤ 0) = true) :
      decide (cmp a c ≤ 0) = true :=
    decide_eq_true (hc.trans a b c (of_decide_eq_true hab) (of_decide_eq_true hbc))
  have htotal {cmp : α → α → Int} (hc : IsComparison cmp) (a b : α) :
      (decide (cmp a b ≤ 0) || decide (cmp b a ≤ 0)) = true := by
    have := hc.swap b a
    rw [Bool.or_eq_true, decide_eq_true_eq, decide_eq_true_eq]
    omega
  refine ⟨fun _ l => mergeSort_perm l _, fun hc l => ?_, fun {cmp} hc l a => ?_⟩
  · exact (pairwise_mergeSort (htrans hc) (htotal hc) l).imp fun h => of_decide_eq_true h
  · have heq : (l.filter fun b => cmp a b = 0).Pairwise fun b c => decide (cmp b c ≤ 0) = true := by
      refine pairwise_iff_forall_sublist.mpr fun {b c} hbc => decide_eq_true ?_
      have hmem (x : α) (hx : x ∈ [b, c]) : cmp a x = 0 :=
        of_decide_eq_true (mem_filter.mp (hbc.subset hx)).2
      have hb := hc.eq_zero_iff.mp (hmem b mem_cons_self)
      exact hc.trans b a c hb.2 (hc.eq_zero_iff.mp (hmem c (by simp))).1
    have hsub := (sublist_mergeSort (htrans hc) (htotal hc) heq
      filter_sublist).filter fun b => decide (cmp a b = 0)
    rw [filter_filter] at hsub
    simp only [Bool.and_self] at hsub
    exact (hsub.eq_of_length ((mergeSort_perm l _).filter _).length_eq.symm).symm

end Ong
