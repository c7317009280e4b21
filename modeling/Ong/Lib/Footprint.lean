import Mathlib.Data.Set.Insert

/-!
# Objects with their own cells

Objects keep parts of themselves in cells of one heap.  A step of one object that reaches only its
own cells and new ones leaves the others as they are, and the objects stay apart.

## Main results

* `reaches_subset`: an object that lets go of some of its cells
* `Apart.update`, `Apart.frame`: the object that changes stays apart, and the others keep their
  cells
-/

namespace Ong

variable {α ι : Type*}

/-- Cells under their addresses, and the address of the next new cell. -/
structure Heap (α : Type*) where
  cells : ℕ → α
  fresh : ℕ

namespace Heap

/-- A new cell, at the address `h.fresh`. -/
def alloc (h : Heap α) (a : α) : Heap α := ⟨Function.update h.cells h.fresh a, h.fresh + 1⟩

/-- A new content of a cell. -/
def write (h : Heap α) (p : ℕ) (a : α) : Heap α := ⟨Function.update h.cells p a, h.fresh⟩

variable {h h' h'' : Heap α} {F F' F'' : Set ℕ} {p : ℕ} {a : α}

@[simp] theorem alloc_cells_fresh : (h.alloc a).cells h.fresh = a := Function.update_self ..

@[simp] theorem write_cells_self : (h.write p a).cells p = a := Function.update_self ..

theorem alloc_cells_of_lt {q : ℕ} (hq : q < h.fresh) : (h.alloc a).cells q = h.cells q :=
  Function.update_of_ne hq.ne ..

theorem write_cells_of_ne {q : ℕ} (hq : q ≠ p) : (h.write p a).cells q = h.cells q :=
  Function.update_of_ne hq ..

/-- The change of the heap from `h` to `h'`, by an object that owns the cells `F` before it and the
cells `F'` after it. -/
structure Reaches (F F' : Set ℕ) (h h' : Heap α) : Prop where
  fresh_le : h.fresh ≤ h'.fresh
  below : ∀ p ∈ F', p < h'.fresh
  owns : ∀ p ∈ F', p ∈ F ∨ h.fresh ≤ p
  others : ∀ p < h.fresh, p ∉ F → h'.cells p = h.cells p

theorem reaches_subset (hF : ∀ p ∈ F, p < h.fresh) (hsub : F' ⊆ F) : Reaches F F' h h :=
  ⟨le_rfl, fun p hp => hF p (hsub hp), fun _ hp => .inl (hsub hp), fun _ _ _ => rfl⟩

/-- The objects own cells below the next new one, and no two own one. -/
structure Apart (own : ι → Set ℕ) (h : Heap α) : Prop where
  below : ∀ i, ∀ p ∈ own i, p < h.fresh
  disjoint : ∀ i j p, p ∈ own i → p ∈ own j → i = j

variable {own own' : ι → Set ℕ} {i j : ι}

/-- The cells of another object are as they were. -/
theorem Apart.frame (hown : Apart own h) (hr : Reaches (own i) F' h h') (hij : j ≠ i)
    (hp : p ∈ own j) : h'.cells p = h.cells p :=
  hr.others p (hown.below j p hp) fun hi => hij (hown.disjoint j i p hp hi)

/-- **The object that changes stays apart** from the others. -/
theorem Apart.update (hown : Apart own h) (hr : Reaches (own i) (own' i) h h')
    (hothers : ∀ j, j ≠ i → own' j = own j) : Apart own' h' where
  below j p hp := by
    by_cases hji : j = i
    · exact hr.below p (hji ▸ hp)
    · exact (hown.below j p (hothers j hji ▸ hp)).trans_le hr.fresh_le
  disjoint j k p hj hk := by
    have hnot : ∀ l, l ≠ i → p ∈ own' l → p ∉ own' i := by
      intro l hl hpl hpi
      rw [hothers l hl] at hpl
      rcases hr.owns p hpi with hpi | hfresh
      · exact hl (hown.disjoint l i p hpl hpi)
      · exact absurd (hown.below l p hpl) hfresh.not_gt
    by_cases hji : j = i
    · by_cases hki : k = i
      · rw [hji, hki]
      · exact absurd (hji ▸ hj) (hnot k hki hk)
    · by_cases hki : k = i
      · exact absurd (hki ▸ hk) (hnot j hji hj)
      · rw [hothers j hji] at hj
        rw [hothers k hki] at hk
        exact hown.disjoint j k p hj hk

end Heap

end Ong
