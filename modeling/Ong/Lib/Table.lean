import Mathlib.Data.List.Nodup

/-!
# Rows with a key

A table is a list of rows, one of whose columns is a key.

## Main results

* `find_eq_some`: the row that is found, when no two rows have the same key
* `find_filter`, `find_map`, `find_concat`: the rows found after a deletion, an update and an
  insertion
-/

namespace Ong.Table

variable {ρ κ : Type*} {key : ρ → κ} {rows : List ρ} {k : κ} {r : ρ}

theorem eq_of_key_eq (hn : (rows.map key).Nodup) {r' : ρ} (hr : r ∈ rows) (hr' : r' ∈ rows)
    (h : key r = key r') : r = r' :=
  List.inj_on_of_nodup_map hn hr hr' h

variable [DecidableEq κ]

/-- The row of the key `k`. -/
def find (key : ρ → κ) (k : κ) (rows : List ρ) : Option ρ := rows.find? fun r => key r = k

theorem find_eq_none : find key k rows = none ↔ ∀ r ∈ rows, key r ≠ k := by
  simp [find]

theorem mem_of_find (h : find key k rows = some r) : r ∈ rows := List.mem_of_find?_eq_some h

theorem key_of_find (h : find key k rows = some r) : key r = k := by
  simpa using List.find?_some h

theorem find_eq_some (hn : (rows.map key).Nodup) :
    find key k rows = some r ↔ r ∈ rows ∧ key r = k := by
  refine ⟨fun h => ⟨mem_of_find h, key_of_find h⟩, ?_⟩
  rintro ⟨hr, rfl⟩
  cases h : find key (key r) rows with
  | none => exact absurd rfl (find_eq_none.mp h r hr)
  | some r' => rw [eq_of_key_eq hn (mem_of_find h) hr (key_of_find h)]

/-- What a deletion leaves. -/
theorem find_filter (hn : (rows.map key).Nodup) (q : ρ → Bool) :
    find key k (rows.filter q) = (find key k rows).filter q := by
  have hn' : ((rows.filter q).map key).Nodup := hn.sublist (List.filter_sublist.map key)
  ext r
  rw [find_eq_some hn', Option.filter_eq_some_iff, find_eq_some hn, List.mem_filter]
  exact and_right_comm

/-- What an update leaves, when it leaves the keys. -/
theorem find_map {g : ρ → ρ} (hg : ∀ r, key (g r) = key r) :
    find key k (rows.map g) = (find key k rows).map g := by
  unfold find
  rw [List.find?_map]
  simp only [Function.comp_def, hg]

/-- What an insertion leaves. -/
theorem find_concat (hr : ∀ r' ∈ rows, key r' ≠ key r) :
    find key k (rows ++ [r]) = if key r = k then some r else find key k rows := by
  unfold find
  rw [List.find?_append]
  by_cases hk : key r = k
  · have hnone : rows.find? (fun r => key r = k) = none := find_eq_none.mpr (hk ▸ hr)
    rw [if_pos hk, hnone, Option.none_or]
    simp [hk]
  · simp [hk]

end Ong.Table
