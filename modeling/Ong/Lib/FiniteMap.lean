import Mathlib.Data.List.AList
import Mathlib.Algebra.Order.BigOperators.Group.List
import Mathlib.Algebra.Ring.Int.Defs

/-!
# Totals over a finite map

## Main results

* `total_insert`, `total_erase`: how an operation on one key changes the total
* `total_congr`: the total only depends on what is found under each key
-/

namespace Ong.FiniteMap

open List

variable {κ β : Type*} [DecidableEq κ] (f : κ → β → ℤ)

/-- The sum of `f` over the entries. -/
def total (m : AList fun _ : κ => β) : ℤ := (m.entries.map fun e => f e.1 e.2).sum

/-- What the entry under `k` counts for. -/
def weight (m : AList fun _ : κ => β) (k : κ) : ℤ := (m.lookup k).elim 0 (f k)

variable {f} {m : AList fun _ : κ => β} {k : κ}

theorem weight_of_lookup {v : β} (h : m.lookup k = some v) : weight f m k = f k v := by
  rw [weight, h, Option.elim_some]

theorem weight_of_lookup_none (h : m.lookup k = none) : weight f m k = 0 := by
  rw [weight, h, Option.elim_none]

theorem entries_perm_of_lookup {v : β} (h : m.lookup k = some v) :
    m.entries.Perm (⟨k, v⟩ :: (m.erase k).entries) := by
  have hk : k ∉ (m.erase k).keys := by
    rw [← AList.mem_keys, AList.mem_erase]
    exact fun h => h.1 rfl
  refine lookup_ext m.nodupKeys ((m.erase k).nodupKeys.cons hk) fun x y => ?_
  by_cases hx : x = k
  · subst hx
    rw [dlookup_cons_eq]
    exact Iff.of_eq (congrArg (y ∈ ·) h)
  · rw [dlookup_cons_ne _ _ hx]
    exact Iff.of_eq (congrArg (y ∈ ·) (AList.lookup_erase_ne hx).symm)

theorem total_erase (f : κ → β → ℤ) (m : AList fun _ : κ => β) (k : κ) :
    total f (m.erase k) = total f m - weight f m k := by
  cases h : m.lookup k with
  | none =>
    have hk : k ∉ m := AList.lookup_eq_none.mp h
    have : m.erase k = m := by
      apply AList.ext
      exact kerase_of_notMem_keys hk
    rw [this, weight_of_lookup_none h, sub_zero]
  | some v =>
    have hp := ((entries_perm_of_lookup h).map fun e => f e.1 e.2).sum_eq
    rw [map_cons, sum_cons] at hp
    rw [weight_of_lookup h, total, total, hp, add_sub_cancel_left]

theorem total_insert (f : κ → β → ℤ) (m : AList fun _ : κ => β) (k : κ) (v : β) :
    total f (m.insert k v) = total f m - weight f m k + f k v := by
  rw [← total_erase, total, AList.entries_insert, map_cons, sum_cons, add_comm]
  rfl

theorem total_insert_of_lookup_none (f : κ → β → ℤ) (h : m.lookup k = none) (v : β) :
    total f (m.insert k v) = total f m + f k v := by
  rw [total_insert, weight_of_lookup_none h, sub_zero]

theorem total_nonneg (h : ∀ k v, m.lookup k = some v → 0 ≤ f k v) : 0 ≤ total f m := by
  refine sum_nonneg fun x hx => ?_
  obtain ⟨e, he, rfl⟩ := mem_map.mp hx
  exact h e.1 e.2 (AList.mem_lookup_iff.mpr he)

theorem le_total (h : ∀ k v, m.lookup k = some v → 0 ≤ f k v) {v : β}
    (hk : m.lookup k = some v) : f k v ≤ total f m := by
  have herase : 0 ≤ total f (m.erase k) := by
    refine total_nonneg fun k' v' hk' => h k' v' ?_
    by_cases e : k' = k
    · rw [e, AList.lookup_erase] at hk'
      cases hk'
    · rwa [AList.lookup_erase_ne e] at hk'
  rw [total_erase, weight_of_lookup hk] at herase
  omega

theorem total_congr {g : κ → β → ℤ} (h : ∀ k v, m.lookup k = some v → f k v = g k v) :
    total f m = total g m := by
  refine congrArg sum (map_congr_left fun e he => ?_)
  exact h e.1 e.2 (AList.mem_lookup_iff.mpr he)

theorem total_eq_sum_keys (f : κ → β → ℤ) (m : AList fun _ : κ => β) :
    total f m = (m.keys.map (weight f m)).sum := by
  unfold total AList.keys keys
  rw [map_map]
  refine congrArg sum (map_congr_left fun e he => ?_)
  exact (weight_of_lookup (AList.mem_lookup_iff.mpr he)).symm

theorem total_eq_sum_filter {q : κ → Bool} (h : ∀ k, q k = false → weight f m k = 0) :
    total f m = ((m.keys.filter q).map (weight f m)).sum := by
  rw [total_eq_sum_keys]
  induction m.keys with
  | nil => rfl
  | cons k ks ih =>
    rw [map_cons, sum_cons, ih]
    cases hq : q k with
    | true => rw [filter_cons_of_pos hq, map_cons, sum_cons]
    | false => rw [filter_cons_of_neg (by simp [hq]), h k hq, zero_add]

end Ong.FiniteMap
