import Mathlib.Data.List.Sort

/-!
# Beginnings of an order by a key

Some elements are taken oldest first when they are the beginning of an order of all by their keys.
Elements with the same key are in any order among themselves.

## Main results

* `OldestFirst.le`: the next element taken is one of the oldest left
* `filter_after`: what is after the last element taken is what is left
-/

namespace Ong.Lib

open List

variable {α β : Type*} [LinearOrder β] {key : α → β} {all found pre rest : List α} {x : α}

/-- `found` is the beginning of an order of `all` by `key`. -/
def OldestFirst (key : α → β) (all found : List α) : Prop :=
  ∃ order, order.Perm all ∧ order.Pairwise (fun a b => key a ≤ key b) ∧ found <+: order

theorem OldestFirst.pairwise (h : OldestFirst key all found) :
    found.Pairwise fun a b => key a ≤ key b := by
  obtain ⟨order, -, hsorted, hbefore⟩ := h
  exact hsorted.sublist hbefore.sublist

theorem OldestFirst.mem (h : OldestFirst key all found) (hx : x ∈ found) : x ∈ all := by
  obtain ⟨order, hperm, -, hbefore⟩ := h
  exact hperm.mem_iff.mp (hbefore.subset hx)

/-- What is taken after `pre` is at most as recent as all that `pre` leaves. -/
theorem OldestFirst.le (h : OldestFirst key all (pre ++ x :: found))
    (hall : (pre ++ rest).Perm all) : ∀ r ∈ rest, key x ≤ key r := by
  obtain ⟨order, hperm, hsorted, more, rfl⟩ := h
  intro r hr
  rw [append_assoc, cons_append] at hperm hsorted
  have hrest : (x :: (found ++ more)).Perm rest :=
    (perm_append_left_iff pre).mp (hperm.trans hall.symm)
  rcases mem_cons.mp (hrest.mem_iff.mpr hr) with rfl | hr
  · exact le_rfl
  · exact rel_of_pairwise_cons (pairwise_append.mp hsorted).2.1 hr

theorem oldestFirst_of_pairwise (hfound : found.Pairwise fun a b => key a ≤ key b)
    (hle : ∀ a ∈ found, ∀ b ∈ rest, key a ≤ key b) (hall : (found ++ rest).Perm all) :
    OldestFirst key all found := by
  have hperm : (rest.insertionSort fun a b => key a ≤ key b).Perm rest := perm_insertionSort _ _
  refine ⟨found ++ rest.insertionSort fun a b => key a ≤ key b, (hperm.append_left found).trans hall,
    pairwise_append.mpr ⟨hfound, ?_, fun a ha b hb => hle a ha b (hperm.mem_iff.mp hb)⟩,
    prefix_append _ _⟩
  exact pairwise_insertionSort (fun a b : α => key a ≤ key b) rest

theorem pairwise_of_splits {R : α → α → Prop} {l : List α}
    (h : ∀ pre x rest, l = pre ++ x :: rest → ∀ y ∈ rest, R x y) : l.Pairwise R := by
  induction l with
  | nil => exact List.Pairwise.nil
  | cons a l ih =>
    refine pairwise_cons.mpr ⟨h [] a l rfl, ih fun pre x rest hsplit => ?_⟩
    exact h (a :: pre) x rest (by rw [hsplit, cons_append])

/-- A strict comparison with the last key taken finds what is left. -/
theorem filter_after {last : β} (hpre : ∀ a ∈ pre, key a ≤ last) (hrest : ∀ b ∈ rest, last < key b) :
    (pre ++ rest).filter (fun a => last < key a) = rest := by
  rw [filter_append, filter_eq_nil_iff.mpr, filter_eq_self.mpr, nil_append]
  · exact fun b hb => decide_eq_true (hrest b hb)
  · exact fun a ha => by simpa using hpre a ha

end Ong.Lib
