import Mathlib.Data.List.TakeWhile

/-!
# The first delimiter of a text

## Main results

* `findIdx?_eq_some_split`: what is found is the delimiter after a text that has none
* `findIdx?_append_cons`: the delimiter after a text that has none is found
* `takeWhile_append`, `dropWhile_append`: a text up to where something else begins
* `split_unique`: a text before its first delimiter and the text after it are determined
-/

namespace Ong.Delimiter

open List

variable {α : Type*} {p : α → Bool} {l a a' r r' : List α} {d d' : α} {i : Nat}

/-- The first delimiter is after a text without delimiters. -/
theorem findIdx?_eq_some_split (h : l.findIdx? p = some i) :
    ∃ a d r, l = a ++ d :: r ∧ a.length = i ∧ p d = true ∧ ∀ x ∈ a, p x = false := by
  induction l generalizing i with
  | nil => cases h
  | cons x l ih =>
    rw [findIdx?_cons] at h
    split at h
    · rename_i hx
      cases h
      exact ⟨[], x, l, rfl, rfl, hx, fun _ h => absurd h not_mem_nil⟩
    · rename_i hx
      obtain ⟨j, hj, rfl⟩ := Option.map_eq_some_iff.mp h
      obtain ⟨a, d, r, rfl, rfl, hd, ha⟩ := ih hj
      refine ⟨x :: a, d, r, rfl, rfl, hd, fun y hy => ?_⟩
      rcases mem_cons.mp hy with rfl | hy
      · exact Bool.eq_false_iff.mpr hx
      · exact ha y hy

/-- The delimiter after a text without delimiters is found. -/
theorem findIdx?_append_cons (hd : p d = true) (ha : ∀ x ∈ a, p x = false) :
    (a ++ d :: r).findIdx? p = some a.length := by
  rw [findIdx?_append, findIdx?_eq_none_iff.mpr ha, findIdx?_cons, if_pos hd]
  simp

/-- What is taken ends where something else begins. -/
theorem takeWhile_append (ha : ∀ x ∈ a, p x = true) (hr : ∀ x ∈ r.head?, p x = false) :
    (a ++ r).takeWhile p = a := by
  rw [takeWhile_append_of_pos ha]
  cases r with
  | nil => exact append_nil a
  | cons x r => rw [takeWhile_cons_of_neg (Bool.eq_false_iff.mp (hr x rfl)), append_nil]

theorem dropWhile_append (ha : ∀ x ∈ a, p x = true) (hr : ∀ x ∈ r.head?, p x = false) :
    (a ++ r).dropWhile p = r := by
  rw [dropWhile_append_of_pos ha]
  cases r with
  | nil => rfl
  | cons x r => exact dropWhile_cons_of_neg (Bool.eq_false_iff.mp (hr x rfl))

/-- The text before the first delimiter is determined. -/
theorem split_unique (h : a ++ d :: r = a' ++ d' :: r') (hd : p d = true) (hd' : p d' = true)
    (ha : ∀ x ∈ a, p x = false) (ha' : ∀ x ∈ a', p x = false) : a = a' ∧ d = d' ∧ r = r' := by
  induction a generalizing a' with
  | nil =>
    cases a' with
    | nil => exact ⟨rfl, cons.inj h⟩
    | cons x a' =>
      obtain ⟨rfl, -⟩ := cons.inj h
      exact absurd hd (Bool.eq_false_iff.mp (ha' d mem_cons_self))
  | cons x a ih =>
    cases a' with
    | nil =>
      obtain ⟨rfl, -⟩ := cons.inj h
      exact absurd hd' (Bool.eq_false_iff.mp (ha x mem_cons_self))
    | cons y a' =>
      obtain ⟨rfl, htail⟩ := cons.inj h
      obtain ⟨rfl, rfl, rfl⟩ := ih htail (fun z hz => ha z (mem_cons_of_mem _ hz))
        (fun z hz => ha' z (mem_cons_of_mem _ hz))
      exact ⟨rfl, rfl, rfl⟩

end Ong.Delimiter
