import Mathlib.Data.List.Basic
import Mathlib.Data.Nat.Init

/-!
# A text cut into records

A text is cut into records from its beginning, as long as a complete record is next.  What is left
begins where no complete record does.

## Main results

* `exists_cut`, `Cut.unique`: every text is cut in one way
-/

namespace Ong.Records

variable {ρ : Type*}

/-- `Cut next p rs e`: from `p` on the complete records are `rs`, each with its beginning and end,
and what is left begins at `e`. -/
inductive Cut (next : Nat → Option (ρ × Nat)) : Nat → List (Nat × ρ × Nat) → Nat → Prop
  | done {p : Nat} : next p = none → Cut next p [] p
  | more {p q e : Nat} {r : ρ} {rs : List (Nat × ρ × Nat)} :
      next p = some (r, q) → Cut next q rs e → Cut next p ((p, r, q) :: rs) e

variable {next : Nat → Option (ρ × Nat)} {p e e' size : Nat} {rs rs' : List (Nat × ρ × Nat)}

/-- There is one way to cut a text. -/
theorem Cut.unique (h : Cut next p rs e) (h' : Cut next p rs' e') : rs = rs' ∧ e = e' := by
  induction h generalizing rs' with
  | done hnone =>
    cases h' with
    | done => exact ⟨rfl, rfl⟩
    | more hsome _ =>
      rw [hnone] at hsome
      cases hsome
  | more hsome _ ih =>
    cases h' with
    | done hnone =>
      rw [hnone] at hsome
      cases hsome
    | more hsome' hrest =>
      obtain ⟨rfl, rfl⟩ := Prod.mk.inj (Option.some.inj (hsome.symm.trans hsome'))
      obtain ⟨rfl, rfl⟩ := ih hrest
      exact ⟨rfl, rfl⟩

/-- Records that are not empty and end in the text cut it. -/
theorem exists_cut (hnext : ∀ p r q, next p = some (r, q) → p < q ∧ q ≤ size) (hp : p ≤ size) :
    ∃ rs e, Cut next p rs e ∧ p ≤ e ∧ e ≤ size := by
  induction hn : size - p using Nat.strong_induction_on generalizing p with
  | _ n ih =>
    cases hcase : next p with
    | none => exact ⟨[], p, .done hcase, Nat.le_refl p, hp⟩
    | some r =>
      obtain ⟨r, q⟩ := r
      obtain ⟨hlt, hle⟩ := hnext p r q hcase
      obtain ⟨rs, e, hcut, hqe, he⟩ := ih (size - q) (by omega) hle rfl
      exact ⟨_, e, .more hcase hcut, by omega, he⟩

theorem Cut.length_le (hnext : ∀ p r q, next p = some (r, q) → p < q ∧ q ≤ size)
    (h : Cut next p rs e) : rs.length ≤ size - p := by
  induction h with
  | done => exact Nat.zero_le _
  | more hsome _ ih =>
    have := hnext _ _ _ hsome
    rw [List.length_cons]
    omega

end Ong.Records
