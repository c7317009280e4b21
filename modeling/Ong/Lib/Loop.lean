import Mathlib.Data.List.Basic

/-!
# Loops over a fixed list of indices

A `for` loop whose body changes a state is a left fold.  The rule for it is the invariant rule,
under a condition on the state each pass finds.

## Main results

* `foldl_of_along`: the invariant rule
* `foldl_of_forall`: the invariant rule of a loop whose passes all preserve the invariant
-/

namespace Ong.Loop

variable {σ ι : Type*} (body : σ → ι → σ)

/-- Every pass of the loop from `s` meets `C`. -/
def Along (C : σ → ι → Prop) : σ → List ι → Prop
  | _, [] => True
  | s, i :: is => C s i ∧ Along C (body s i) is

variable {body}

instance decidableAlong {C : σ → ι → Prop} [∀ s i, Decidable (C s i)] :
    ∀ (s : σ) (is : List ι), Decidable (Along body C s is)
  | _, [] => isTrue trivial
  | s, i :: is =>
    have := decidableAlong (C := C) (body s i) is
    inferInstanceAs (Decidable (_ ∧ _))

variable {C : σ → ι → Prop}

/-- **The invariant rule**, with an invariant that may speak of the passes to come. -/
theorem foldl_of_along {I : σ → List ι → Prop}
    (hI : ∀ s i is, I s (i :: is) → C s i → I (body s i) is) {is : List ι} {s : σ} (hs : I s is)
    (h : Along body C s is) : I (is.foldl body s) [] := by
  induction is generalizing s with
  | nil => exact hs
  | cons i is ih => exact ih (hI s i is hs h.1) h.2

/-- The invariant rule of a loop without condition. -/
theorem foldl_of_forall {I : σ → Prop} (hI : ∀ s i, I s → I (body s i)) (is : List ι) {s : σ}
    (hs : I s) : I (is.foldl body s) := by
  induction is generalizing s with
  | nil => exact hs
  | cons i is ih => exact ih (hI s i hs)

end Ong.Loop
