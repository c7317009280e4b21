import Mathlib.Data.List.Basic
import Mathlib.Algebra.Ring.Int.Defs
import Mathlib.Algebra.Ring.Nat

/-!
# Tables of slots

A table is a list of fixed length whose entries are replaced in place, searched from the front, and
counted by hand in counters beside it.

## Main results

* `getElem?_set_iff`: the slots after one of them is replaced
* `countP_set_eq`: what the replacement does to a count, as a counter sees it
* `findIdx?_eq_some`, `findIdx?_eq_none`: the slot a search finds
-/

namespace Ong.Slots

variable {α : Type*} {l : List α} {a b c : α} {i j : Nat} {p : α → Bool}

theorem lt_of_getElem? (h : l[i]? = some a) : i < l.length := (List.getElem?_eq_some_iff.mp h).1

theorem mem_of_getElem? (h : l[i]? = some a) : a ∈ l := List.mem_of_getElem? h

/-- The slots after the slot `i` is replaced. -/
theorem getElem?_set_iff (h : l[i]? = some a) :
    (l.set i b)[j]? = some c ↔ (i = j ∧ b = c) ∨ (i ≠ j ∧ l[j]? = some c) := by
  by_cases hij : i = j
  · subst hij
    simp [lt_of_getElem? h]
  · simp [hij]

theorem getElem?_set_self (h : l[i]? = some a) : (l.set i b)[i]? = some b :=
  (getElem?_set_iff h).mpr (Or.inl ⟨rfl, rfl⟩)

theorem getElem?_set_ne (h : i ≠ j) : (l.set i b)[j]? = l[j]? := List.getElem?_set_ne h

/-- A replacement that changes nothing for a property does not change which slots have it. -/
theorem exists_set_iff {P : α → Prop} (h : l[i]? = some a) (hP : P b ↔ P a) :
    (∃ c, (l.set i b)[j]? = some c ∧ P c) ↔ ∃ c, l[j]? = some c ∧ P c := by
  by_cases hij : i = j
  · subst hij
    simp [getElem?_set_self h, h, hP]
  · simp [hij]

/-- A count after the slot `i` is replaced. -/
theorem countP_set_eq (h : l[i]? = some a) :
    ((l.set i b).countP p : Int) =
      l.countP p - (if p a then 1 else 0) + (if p b then 1 else 0) := by
  obtain ⟨hi, ha⟩ := List.getElem?_eq_some_iff.mp h
  rw [List.countP_set hi, ha]
  by_cases hp : p a = true
  · have hpos : 0 < l.countP p := List.countP_pos_iff.mpr ⟨a, mem_of_getElem? h, hp⟩
    simp only [hp, if_true]
    split <;> omega
  · rw [if_neg hp, if_neg hp]
    split <;> simp

theorem findIdx?_eq_some (h : l.findIdx? p = some i) : ∃ a, l[i]? = some a ∧ p a = true := by
  obtain ⟨hi, hp, -⟩ := List.findIdx?_eq_some_iff_getElem.mp h
  exact ⟨l[i], List.getElem?_eq_getElem hi, hp⟩

theorem findIdx?_eq_none (h : l.findIdx? p = none) (ha : l[i]? = some a) : p a = false :=
  List.findIdx?_eq_none_iff.mp h a (mem_of_getElem? ha)

end Ong.Slots
