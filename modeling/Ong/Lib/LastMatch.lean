import Mathlib.Data.List.Perm.Basic

/-!
# The last match of a list

## Main results

* `takeLast_eq_some`, `takeLast_eq_none`: what is taken out and what is left
-/

namespace Ong.LastMatch

open List

variable {α β : Type*} {p : α → Bool} {l l' : List α} {a : α}

/-- The last element that meets `p`, and the others in their order. -/
def takeLast (p : α → Bool) : List α → Option (α × List α)
  | [] => none
  | a :: l =>
    match takeLast p l with
    | some (b, l') => some (b, a :: l')
    | none => if p a then some (a, l) else none

theorem takeLast_eq_none : takeLast p l = none ↔ ∀ a ∈ l, p a = false := by
  induction l with
  | nil => simp [takeLast]
  | cons a l ih =>
    unfold takeLast
    rw [forall_mem_cons, ← ih]
    rcases takeLast p l with _ | ⟨b, l'⟩
    · simp
    · simp

/-- What is taken out is the last match. -/
theorem takeLast_eq_some :
    takeLast p l = some (a, l') ↔
      ∃ pre post, l = pre ++ a :: post ∧ l' = pre ++ post ∧ p a = true ∧
        ∀ b ∈ post, p b = false := by
  induction l generalizing l' with
  | nil => simp [takeLast]
  | cons c l ih =>
    unfold takeLast
    cases htail : takeLast p l with
    | some r =>
      obtain ⟨b, l''⟩ := r
      rw [htail] at ih
      constructor
      · intro h
        obtain ⟨rfl, rfl⟩ := Prod.mk.inj (Option.some.inj h)
        obtain ⟨pre, post, hl, hl'', hp, hpost⟩ := ih.mp rfl
        exact ⟨c :: pre, post, by rw [hl]; rfl, by rw [hl'']; rfl, hp, hpost⟩
      · rintro ⟨pre, post, hl, rfl, hp, hpost⟩
        rcases pre with _ | ⟨d, pre⟩
        · obtain ⟨-, rfl⟩ := cons.inj hl
          rw [takeLast_eq_none.mpr hpost] at htail
          cases htail
        · obtain ⟨rfl, htl⟩ := cons.inj hl
          have hsome := ih.mpr ⟨pre, post, htl, rfl, hp, hpost⟩
          obtain ⟨rfl, rfl⟩ := Prod.mk.inj (Option.some.inj hsome)
          rfl
    | none =>
      have hnone := takeLast_eq_none.mp htail
      constructor
      · intro h
        by_cases hc : p c = true
        · rw [if_pos hc] at h
          obtain ⟨rfl, rfl⟩ := Prod.mk.inj (Option.some.inj h)
          exact ⟨[], l, rfl, rfl, hc, hnone⟩
        · rw [if_neg hc] at h
          cases h
      · rintro ⟨pre, post, hl, rfl, hp, hpost⟩
        rcases pre with _ | ⟨d, pre⟩
        · obtain ⟨rfl, rfl⟩ := cons.inj hl
          rw [if_pos hp]
          rfl
        · obtain ⟨rfl, rfl⟩ := cons.inj hl
          have hfalse := hnone a (mem_append_right pre mem_cons_self)
          rw [hp] at hfalse
          cases hfalse

theorem takeLast_concat (h : p a = true) : takeLast p (l ++ [a]) = some (a, l) :=
  takeLast_eq_some.mpr ⟨l, [], rfl, (append_nil l).symm, h, fun _ hb => absurd hb not_mem_nil⟩

theorem perm_of_takeLast (h : takeLast p l = some (a, l')) : l.Perm (a :: l') := by
  obtain ⟨pre, post, rfl, rfl, -, -⟩ := takeLast_eq_some.mp h
  exact perm_middle

theorem sublist_of_takeLast (h : takeLast p l = some (a, l')) : l'.Sublist l := by
  obtain ⟨pre, post, rfl, rfl, -, -⟩ := takeLast_eq_some.mp h
  exact (List.Sublist.refl pre).append (sublist_cons_self a post)

end Ong.LastMatch
