import Mathlib.Data.List.Basic
import Mathlib.Order.Lattice

/-!
# Binary search

The search of a key in an array by halving a range of indices, and what it says about an array that
is sorted.

## Main results

* `isSome_binarySearch_iff`: in a sorted array the search finds the keys that are there
* `eq_of_locate`, `ne_eq_of_locate`, `locate_where`: the same for a comparison, and the place
-/

namespace Ong.BinarySearch

variable {α : Type*} [LinearOrder α] {a : List α} {key : α} {n low high : Nat}

/-- The search among the indices from `low` up to and without `high`. -/
def search (a : List α) (key : α) : Nat → Nat → Nat → Option Nat
  | 0, _, _ => none
  | n + 1, low, high =>
    if low < high then
      -- `high` is one more than the bound of the source
      let mid := (low + high - 1) / 2
      match a[mid]? with
      | none => none
      | some v =>
        if v < key then search a key n (mid + 1) high
        else if key < v then search a key n low mid
        else some mid
    else none

/-- The index of an element equal to the key; each step makes the range shorter. -/
def binarySearch (a : List α) (key : α) : Option Nat := search a key a.length 0 a.length

theorem getElem?_of_search {i : Nat} (h : search a key n low high = some i) : a[i]? = some key := by
  induction n generalizing low high with
  | zero => cases h
  | succ n ih =>
    rw [search] at h
    split at h
    · dsimp only at h
      split at h
      · cases h
      · rename_i v hv
        split at h
        · exact ih h
        · split at h
          · exact ih h
          · rename_i hlt hgt
            obtain rfl := Option.some.inj h
            rw [hv, le_antisymm (not_lt.mp hgt) (not_lt.mp hlt)]
    · cases h

theorem search_of_getElem? (hsorted : a.Pairwise (· ≤ ·)) {i : Nat} (hi : a[i]? = some key)
    (hlow : low ≤ i) (hhigh : i < high) (hlen : high ≤ a.length) (hn : high ≤ low + n) :
    (search a key n low high).isSome := by
  induction n generalizing low high with
  | zero => omega
  | succ n ih =>
    have hmid : (low + high - 1) / 2 < a.length := by omega
    obtain ⟨hia, hikey⟩ := List.getElem?_eq_some_iff.mp hi
    rw [search, if_pos (by omega : low < high)]
    simp only [List.getElem?_eq_getElem hmid]
    split
    · rename_i hlt
      have hbehind : (low + high - 1) / 2 < i := by
        by_contra hle
        rcases Nat.lt_or_eq_of_le (Nat.le_of_not_lt hle) with hlt' | heq
        · have := List.pairwise_iff_getElem.mp hsorted _ _ hia hmid hlt'
          rw [hikey] at this
          exact absurd hlt (not_lt.mpr this)
        · simp only [← heq, hikey, lt_self_iff_false] at hlt
      exact ih (by omega) hhigh hlen (by omega)
    · split
      · rename_i hgt
        have hbefore : i < (low + high - 1) / 2 := by
          by_contra hle
          rcases Nat.lt_or_eq_of_le (Nat.le_of_not_lt hle) with hlt' | heq
          · have := List.pairwise_iff_getElem.mp hsorted _ _ hmid hia hlt'
            rw [hikey] at this
            exact absurd hgt (not_lt.mpr this)
          · simp only [heq, hikey, lt_self_iff_false] at hgt
        exact ih hlow hbefore (by omega) (by omega)
      · rfl

/-- **A sorted array**: the search finds exactly the keys that are there. -/
theorem isSome_binarySearch_iff (hsorted : a.Pairwise (· ≤ ·)) :
    (binarySearch a key).isSome ↔ key ∈ a := by
  constructor
  · intro h
    obtain ⟨i, hi⟩ := Option.isSome_iff_exists.mp h
    exact List.mem_of_getElem? (getElem?_of_search hi)
  · intro h
    obtain ⟨i, hi⟩ := List.getElem?_of_mem h
    obtain ⟨hlen, -⟩ := List.getElem?_eq_some_iff.mp hi
    exact search_of_getElem? hsorted hi (Nat.zero_le _) hlen (Nat.le_refl _) (by omega)

section Locate

/-- The search by the comparison of the key with the elements, and the middle of the range that is
left. -/
def locate (cmp : Nat → Ordering) : Nat → Int → Int → Option Nat × Int
  | 0, l, h => (none, (l + h).tdiv 2)
  | n + 1, l, h =>
    if l ≤ h then
      match cmp ((l + h).tdiv 2).toNat with
      | .lt => locate cmp n l ((l + h).tdiv 2 - 1)
      | .gt => locate cmp n ((l + h).tdiv 2 + 1) h
      | .eq => (some ((l + h).tdiv 2).toNat, (l + h).tdiv 2)
    else (none, (l + h).tdiv 2)

/-- The elements are sorted: what is greater than one is greater than those before it, and what is
less is less than those behind it. -/
structure Monotone (cmp : Nat → Ordering) (count : Nat) : Prop where
  before : ∀ i j, i < j → j < count → cmp j = .gt → cmp i = .gt
  behind : ∀ i j, i < j → j < count → cmp i = .lt → cmp j = .lt

variable {cmp : Nat → Ordering} {count i : Nat} {l h : Int}

/-- The middle of a range that is not empty is in it; of one that has become empty it is the last
place in front of it, or the first of all. -/
theorem middle_bounds (hl : 0 ≤ l) (hlh : l ≤ h + 1) : 0 ≤ (l + h).tdiv 2 ∧
    (l + h).tdiv 2 ≤ max h 0 ∧ (l ≤ h → l ≤ (l + h).tdiv 2 ∧ (l + h).tdiv 2 ≤ h) := by
  by_cases hneg : 0 ≤ l + h
  · rw [Int.tdiv_eq_ediv_of_nonneg hneg]
    omega
  · obtain rfl : l = 0 := by omega
    obtain rfl : h = -1 := by omega
    decide

/-- What is found is equal. -/
theorem eq_of_locate (hl : 0 ≤ l) (hh : h < count) (hfound : (locate cmp n l h).1 = some i) :
    i < count ∧ cmp i = .eq := by
  induction n generalizing l h with
  | zero => cases hfound
  | succ n ih =>
    rw [locate] at hfound
    split at hfound
    · next hle =>
      obtain ⟨hpos, -, hrange⟩ := middle_bounds (h := h) hl (by omega)
      cases hcmp : cmp ((l + h).tdiv 2).toNat with
      | lt =>
        rw [hcmp] at hfound
        exact ih hl (by omega) hfound
      | gt =>
        rw [hcmp] at hfound
        exact ih (by omega) hh hfound
      | eq =>
        rw [hcmp] at hfound
        obtain rfl := Option.some.inj hfound
        exact ⟨by omega, hcmp⟩
    · cases hfound

/-- The range that is left is empty, and everything is in front of it or behind. -/
theorem ne_eq_of_locate (hmono : Monotone cmp count) (hl : 0 ≤ l) (hh : h < count)
    (hbelow : ∀ i : Nat, (i : Int) < l → cmp i = .gt)
    (habove : ∀ i < count, h < (i : Int) → cmp i = .lt) (hn : h + 1 - l ≤ n)
    (hnone : (locate cmp n l h).1 = none) (hi : i < count) : cmp i ≠ .eq := by
  induction n generalizing l h with
  | zero =>
    rcases lt_or_ge (i : Int) l with hlow | hhigh
    · rw [hbelow i hlow]
      exact Ordering.noConfusion
    · rw [habove i hi (by omega)]
      exact Ordering.noConfusion
  | succ n ih =>
    rw [locate] at hnone
    split at hnone
    · next hle =>
      obtain ⟨hpos, -, hrange⟩ := middle_bounds (h := h) hl (by omega)
      cases hcmp : cmp ((l + h).tdiv 2).toNat with
      | lt =>
        rw [hcmp] at hnone
        refine ih hl (by omega) hbelow (fun j hj hlt => ?_) (by omega) hnone
        rcases lt_or_ge ((l + h).tdiv 2).toNat j with hbehind | hat
        · exact hmono.behind _ j hbehind hj hcmp
        · rwa [show j = ((l + h).tdiv 2).toNat by omega]
      | gt =>
        rw [hcmp] at hnone
        refine ih (by omega) hh (fun j hlt => ?_) habove (by omega) hnone
        rcases lt_or_ge j ((l + h).tdiv 2).toNat with hbefore | hat
        · exact hmono.before j _ hbefore (by omega) hcmp
        · rwa [show j = ((l + h).tdiv 2).toNat by omega]
      | eq =>
        rw [hcmp] at hnone
        cases hnone
    · next hlt =>
      rcases lt_or_ge (i : Int) l with hlow | hhigh
      · rw [hbelow i hlow]
        exact Ordering.noConfusion
      · rw [habove i hi (by omega)]
        exact Ordering.noConfusion

/-- Where the search ends is a place of the array. -/
theorem locate_where (hl : 0 ≤ l) (hh : h < count) (hlh : l ≤ h + 1) (hcount : 0 < count) :
    0 ≤ (locate cmp n l h).2 ∧ (locate cmp n l h).2 < count := by
  induction n generalizing l h with
  | zero =>
    obtain ⟨hpos, hmax, -⟩ := middle_bounds hl hlh
    exact ⟨hpos, by show (l + h).tdiv 2 < _; omega⟩
  | succ n ih =>
    obtain ⟨hpos, hmax, hrange⟩ := middle_bounds hl hlh
    rw [locate]
    split
    · next hle =>
      split
      · exact ih hl (by omega) (by omega)
      · exact ih (by omega) hh (by omega)
      · exact ⟨hpos, by show (l + h).tdiv 2 < _; omega⟩
    · exact ⟨hpos, by show (l + h).tdiv 2 < _; omega⟩

end Locate

end Ong.BinarySearch
