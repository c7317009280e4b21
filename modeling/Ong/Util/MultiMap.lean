import Mathlib.Data.List.Induction
import Mathlib.Algebra.Ring.Int.Defs
import Ong.Lib.TreeMap

/-!
# Multi-maps

A multi-map of the utilities: a sorted map that holds one value or a list of values under a key, and
a count of the values that the operations keep up beside it.  The comparator of the sorted map
compares the ranks of the keys.

## Main results

* `getAll_putLast`, `getAll_removeAndPut`, `getAll_remove`: what the operations do to the values of
  a key
* `entrySet_of_counted`: what the iteration over the entries visits when the count is right
* `counted_remove_iff`: removing a key keeps the count right exactly when the map has the key
-/

namespace Ong.Util

open List

variable {κ ν ρ : Type*} [LinearOrder ρ] {rank : κ → ρ}

/-- What the sorted map holds under a key: a value itself, or an `ArrayList` of values. -/
inductive Values (ν : Type*) where
  | one (value : ν)
  | many (first : ν) (others : List ν)

/-- The values, in order. -/
def Values.toList : Values ν → List ν
  | .one v => [v]
  | .many v vs => v :: vs

/-- The values of a key in a list of entries, in order. -/
def valuesOf (rank : κ → ρ) (k : κ) (es : List (κ × ν)) : List ν :=
  (es.filter fun e => rank e.1 = rank k).map Prod.snd

/-- `MultiMap`, over a `TreeMap` with its comparator. -/
structure MultiMap (rank : κ → ρ) (ν : Type*) where
  size : Int
  map : TreeMap rank (Values ν)

section Entries

variable {k k' : κ} {m : TreeMap rank (Values ν)} {vs : Values ν}

/-- Every value with its key, in the order of the sorted map. -/
def entries (m : TreeMap rank (Values ν)) : List (κ × ν) :=
  m.entries.flatMap fun e => e.2.toList.map (Prod.mk e.1)

/-- The values found under a key. -/
def found (o : Option (Values ν)) : List ν := (o.map Values.toList).getD []

@[simp] theorem found_none : found (none : Option (Values ν)) = [] := rfl

@[simp] theorem found_some (vs : Values ν) : found (some vs) = vs.toList := rfl

theorem valuesOf_append (es es' : List (κ × ν)) :
    valuesOf rank k (es ++ es') = valuesOf rank k es ++ valuesOf rank k es' := by
  simp [valuesOf]

theorem valuesOf_map_mk (vs : List ν) :
    valuesOf rank k (vs.map (Prod.mk k')) = if rank k' = rank k then vs else [] := by
  by_cases h : rank k' = rank k <;> simp [valuesOf, filter_map, Function.comp_def, h]

theorem valuesOf_entries : valuesOf rank k (entries m) = found (m.get k) := by
  obtain ⟨es, hsorted⟩ := m
  change valuesOf rank k (es.flatMap _) = found (TreeMap.find rank k es)
  induction es with
  | nil => rfl
  | cons a es ih =>
    obtain ⟨ha, hes⟩ := pairwise_cons.mp hsorted
    rw [flatMap_cons, valuesOf_append, valuesOf_map_mk, TreeMap.find, ih hes]
    split
    · rename_i heq
      have hnone : TreeMap.find rank k es = none :=
        TreeMap.find_eq_none.mpr fun e he => heq ▸ (ha e he).ne'
      rw [hnone, found_none, append_nil, found_some]
    · rfl

theorem length_entries_put (vs : Values ν) : (entries (m.put k vs)).length + (found (m.get k)).length =
    (entries m).length + vs.toList.length := by
  cases h : m.get k with
  | none =>
    obtain ⟨l₁, l₂, hes, hput⟩ := TreeMap.exists_of_get_none h
    simp only [entries, hput, hes, flatMap_append, flatMap_cons, length_append, length_map,
      found_none, length_nil]
    omega
  | some c =>
    obtain ⟨l₁, k₁, l₂, hes, -, hput, -⟩ := TreeMap.exists_of_get_some h
    simp only [entries, hput, hes, flatMap_append, flatMap_cons, length_append, length_map,
      found_some]
    omega

theorem length_entries_remove :
    (entries (m.remove k)).length + (found (m.get k)).length = (entries m).length := by
  cases h : m.get k with
  | none =>
    have hsame : (m.remove k).entries = m.entries :=
      TreeMap.erase_of_forall (TreeMap.find_eq_none.mp h)
    rw [entries, hsame]
    rfl
  | some c =>
    obtain ⟨l₁, k₁, l₂, hes, -, -, hremove⟩ := TreeMap.exists_of_get_some h
    simp only [entries, hremove, hes, flatMap_append, flatMap_cons, length_append, length_map,
      found_some]
    omega

end Entries

namespace MultiMap

variable (m : MultiMap rank ν) (k k' : κ) (v : ν)

/-- `new MultiMap(c)` -/
def empty : MultiMap rank ν := ⟨0, .empty⟩

def get : Option ν := (m.map.get k).bind fun vs => vs.toList.head?

/-- `getAll`, where `null` is no value -/
def getAll : List ν := found (m.map.get k)

def putLast : MultiMap rank ν where
  size := m.size + 1
  map := m.map.put k (match m.map.get k with
    | none => .one v
    | some (.many o vs) => .many o (vs ++ [v])
    | some (.one o) => .many o [v])

/-- `removeAndPut`: the values of an `ArrayList` are no longer counted, nor is the new value. -/
def removeAndPut : MultiMap rank ν where
  size := match m.map.get k with
    | none => m.size + 1
    | some (.many _ vs) => m.size - (vs.length + 1)
    | some (.one _) => m.size
  map := m.map.put k (.one v)

/-- `remove`: the first value of the key.  One value is counted less in any case. -/
def remove : MultiMap rank ν :=
  match m.map.get k with
  | some (.many _ (v :: vs)) => ⟨m.size - 1, m.map.put k (.many v vs)⟩
  | _ => ⟨m.size - 1, m.map.remove k⟩

/-- `entrySet().iterator()`, to its end.  It visits as many values as are counted, and throws when
there are fewer. -/
def entrySet : Option (List (κ × ν)) :=
  if 0 ≤ m.size ∧ m.size ≤ (entries m.map).length then
    some ((entries m.map).take m.size.toNat)
  else none

/-- The count is the number of the values. -/
def Counted : Prop := m.size = (entries m.map).length

/-- The entries put one after the other. -/
def ofList (rank : κ → ρ) (es : List (κ × ν)) : MultiMap rank ν :=
  es.foldl (fun m e => m.putLast e.1 e.2) empty

variable {m k k' v}

theorem valuesOf_entries : valuesOf rank k (entries m.map) = m.getAll k :=
  Util.valuesOf_entries

theorem get_eq_head : m.get k = (m.getAll k).head? := by
  rw [get, getAll]
  cases m.map.get k <;> rfl

/-- A value is appended to those of its key. -/
theorem getAll_putLast :
    (m.putLast k v).getAll k' = m.getAll k' ++ if rank k = rank k' then [v] else [] := by
  simp only [getAll, putLast, TreeMap.get_put]
  by_cases hk : rank k = rank k'
  · rw [if_pos hk, if_pos hk, ← TreeMap.get_congr hk]
    rcases m.map.get k with _ | _ | _ <;> rfl
  · rw [if_neg hk, if_neg hk, append_nil]

/-- A value replaces those of its key. -/
theorem getAll_removeAndPut :
    (m.removeAndPut k v).getAll k' = if rank k = rank k' then [v] else m.getAll k' := by
  simp only [getAll, removeAndPut, TreeMap.get_put]
  split <;> rfl

/-- A key loses its first value. -/
theorem getAll_remove :
    (m.remove k).getAll k' = if rank k = rank k' then (m.getAll k').tail else m.getAll k' := by
  have hsame : rank k = rank k' → m.map.get k' = m.map.get k :=
    fun h => (TreeMap.get_congr h).symm
  unfold remove
  split
  · rename_i o v vs h
    simp only [getAll, TreeMap.get_put]
    split
    · rename_i hk
      rw [hsame hk, h]
      rfl
    · rfl
  · rename_i h
    simp only [getAll, TreeMap.get_remove]
    split
    · rename_i hk
      rw [hsame hk]
      rcases hl : m.map.get k with _ | v | ⟨o, _ | ⟨v, vs⟩⟩
      · rfl
      · rfl
      · rfl
      · exact absurd hl (h o v vs)
    · rfl

theorem counted_empty : (empty : MultiMap rank ν).Counted := rfl

theorem counted_putLast (h : m.Counted) : (m.putLast k v).Counted := by
  unfold Counted at h ⊢
  unfold putLast
  have hput := length_entries_put (m := m.map) (k := k)
  rcases hl : m.map.get k with _ | w | ⟨w, vs⟩ <;>
    simp only [hl, found_none, found_some, Values.toList, length_nil, length_cons] at hput ⊢
  · have := hput (.one v)
    simp only [length_cons, length_nil] at this
    omega
  · have := hput (.many w [v])
    simp only [length_cons, length_nil] at this
    omega
  · have := hput (.many w (vs ++ [v]))
    simp only [length_cons, length_append, length_nil] at this
    omega

/-- Removing a key that is not there makes the count one too small. -/
theorem counted_remove_iff (h : m.Counted) : (m.remove k).Counted ↔ m.getAll k ≠ [] := by
  unfold Counted at h ⊢
  have hremove := length_entries_remove (m := m.map) (k := k)
  unfold remove getAll
  rcases hl : m.map.get k with _ | v | ⟨o, _ | ⟨v, vs⟩⟩ <;> simp only [hl, found_none,
    found_some, Values.toList, length_nil, length_cons] at hremove ⊢
  · simp only [ne_eq, not_true, iff_false]
    omega
  · simp only [ne_eq, cons_ne_nil, not_false_eq_true, iff_true]
    omega
  · simp only [ne_eq, cons_ne_nil, not_false_eq_true, iff_true]
    omega
  · have hput := length_entries_put (m := m.map) (k := k) (.many v vs)
    simp only [hl, found_some, Values.toList, length_cons] at hput
    simp only [ne_eq, cons_ne_nil, not_false_eq_true, iff_true]
    omega

/-- The iteration visits every entry when the count is right. -/
theorem entrySet_of_counted (h : m.Counted) : m.entrySet = some (entries m.map) := by
  unfold Counted at h
  rw [entrySet, if_pos (by omega), h, Int.toNat_natCast, take_length]

section OfList

variable (es : List (κ × ν))

theorem foldl_putLast :
    (es.foldl (fun m e => m.putLast e.1 e.2) m).getAll k = m.getAll k ++ valuesOf rank k es := by
  induction es generalizing m with
  | nil => exact (append_nil _).symm
  | cons e es ih =>
    rw [foldl_cons, ih, getAll_putLast, append_assoc]
    by_cases hk : rank e.1 = rank k <;> simp [valuesOf, hk]

theorem getAll_ofList : (ofList rank es).getAll k = valuesOf rank k es :=
  foldl_putLast es

theorem ofList_append : ofList rank (es ++ [(k, v)]) = (ofList rank es).putLast k v := by
  rw [ofList, foldl_append]
  rfl

theorem counted_ofList : (ofList rank es).Counted := by
  induction es using reverseRecOn with
  | nil => exact counted_empty
  | append_singleton es e ih =>
    rw [ofList_append]
    exact counted_putLast ih

theorem size_ofList : (ofList rank es).size = es.length := by
  induction es using reverseRecOn with
  | nil => rfl
  | append_singleton es e ih =>
    rw [ofList_append, length_append]
    change (ofList rank es).size + 1 = _
    rw [ih]
    rfl

end OfList

end MultiMap

end Ong.Util
