import Mathlib.Data.List.Basic

/-!
# The filled part of a receive buffer

A receive buffer is a memory whose first `len` cells hold what has been received and not yet
consumed; the cells from `len` on hold what earlier contents left there.  A read writes behind the
filled part, and what is consumed is shifted out to the left.

## Main definitions

* `contents`: the filled part, as a list
* `write`: the memory after data is stored from a cell on
* `shift`: the memory after a number of cells is copied to the front
* `span`, `Spells`: cells from anywhere on, and the list that they hold

## Main results

* `contents_write`, `contents_shift`: a read appends, a shift drops
* `getElem?_contents`: the cells of the filled part are the elements of the list
* `spells_cons`, `spells_append`: a list that is held, in parts
-/

namespace Ong.Window

open List

variable {α : Type*}

/-- The first `len` cells. -/
def contents (mem : Nat → α) (len : Nat) : List α := (List.range len).map mem

/-- The data stored from the cell `start` on. -/
def write [Inhabited α] (mem : Nat → α) (start : Nat) (data : List α) : Nat → α := fun k =>
  if start ≤ k ∧ k < start + data.length then data.getD (k - start) default else mem k

/-- The `n` cells from `i` on copied to the front. -/
def shift (mem : Nat → α) (i n : Nat) : Nat → α := fun k => if k < n then mem (i + k) else mem k

variable {mem : Nat → α} {len i k : Nat}

@[simp] theorem contents_zero : contents mem 0 = [] := rfl

@[simp] theorem length_contents : (contents mem len).length = len := by
  simp [contents]

theorem getElem?_contents (h : k < len) : (contents mem len)[k]? = some (mem k) := by
  simp [contents, h]

theorem getElem?_contents_eq : (contents mem len)[k]? = if k < len then some (mem k) else none := by
  by_cases h : k < len
  · rw [if_pos h, getElem?_contents h]
  · rw [if_neg h, getElem?_eq_none (by simpa using h)]

theorem take_contents (h : k ≤ len) : (contents mem len).take k = contents mem k := by
  simp [contents, ← map_take, take_range, Nat.min_eq_left h]

theorem contents_write [Inhabited α] (data : List α) :
    contents (write mem len data) (len + data.length) = contents mem len ++ data := by
  apply ext_getElem?
  intro k
  rw [getElem?_contents_eq, getElem?_append, length_contents]
  by_cases hlen : k < len
  · rw [if_pos (by omega), if_pos hlen, getElem?_contents hlen, write, if_neg (by omega)]
  · rw [if_neg hlen]
    by_cases hk : k < len + data.length
    · rw [if_pos hk, write, if_pos ⟨by omega, hk⟩, getD_eq_getElem?_getD,
        getElem?_eq_getElem (by omega), Option.getD_some]
    · rw [if_neg hk, getElem?_eq_none (by omega)]

theorem contents_shift (i n : Nat) :
    contents (shift mem i n) n = (contents mem (i + n)).drop i := by
  apply ext_getElem?
  intro k
  rw [getElem?_contents_eq, getElem?_drop, getElem?_contents_eq]
  by_cases hk : k < n
  · rw [if_pos hk, if_pos (by omega), shift, if_pos hk]
  · rw [if_neg hk, if_neg (by omega)]

theorem foldl_contents {β : Type*} (f : β → α → β) (b : β) :
    (range len).foldl (fun b k => f b (mem k)) b = (contents mem len).foldl f b := by
  rw [contents, foldl_map]

/-! ### Cells from anywhere on -/

/-- The `n` cells from `i` on. -/
def span (mem : Nat → α) (i n : Nat) : List α := (List.range' i n).map mem

/-- From `i` on the cells hold the list. -/
def Spells (mem : Nat → α) (i : Nat) (l : List α) : Prop := span mem i l.length = l

variable {l l' : List α} {a : α} {n m : Nat} {start : Nat} {data : List α}

@[simp] theorem length_span : (span mem i n).length = n := by
  simp [span]

theorem span_succ : span mem i (n + 1) = mem i :: span mem (i + 1) n := by
  rw [span, range'_succ, map_cons, ← span]

theorem span_add : span mem i (n + m) = span mem i n ++ span mem (i + n) m := by
  rw [span, ← range'_append_1, map_append, ← span, ← span]

theorem spells_cons : Spells mem i (a :: l) ↔ mem i = a ∧ Spells mem (i + 1) l := by
  rw [Spells, length_cons, span_succ, cons.injEq, ← Spells]

theorem spells_append :
    Spells mem i (l ++ l') ↔ Spells mem i l ∧ Spells mem (i + l.length) l' := by
  rw [Spells, length_append, span_add, Spells, Spells]
  refine ⟨fun h => append_inj h length_span, fun h => ?_⟩
  rw [h.1, h.2]

theorem write_of_lt [Inhabited α] (h : k < start) : write mem start data k = mem k := by
  rw [write, if_neg (by omega)]

theorem write_add [Inhabited α] (h : k < data.length) :
    write mem start data (start + k) = data.getD k default := by
  rw [write, if_pos (by omega), Nat.add_sub_cancel_left]

theorem Spells.congr {mem' : Nat → α} (h : Spells mem i l)
    (heq : ∀ k, i ≤ k → k < i + l.length → mem' k = mem k) : Spells mem' i l := by
  have hspan : span mem' i l.length = span mem i l.length :=
    map_congr_left fun k hk => heq k (mem_range'_1.mp hk).1 (mem_range'_1.mp hk).2
  rw [Spells, hspan]
  exact h

theorem spells_write [Inhabited α] : Spells (write mem start data) start data := by
  rw [Spells, span]
  refine ext_getElem (by simp) fun k hk hk' => ?_
  rw [getElem_map, getElem_range', Nat.one_mul, write_add hk',
    getD_eq_getElem?_getD, getElem?_eq_getElem hk', Option.getD_some]

end Ong.Window
