import Mathlib.Order.Lattice

/-!
# Sorted maps

A sorted map is the list of its entries in the order of the ranks of their keys.  Two keys of one
rank are one key for the map, and the key that came first stays.

## Main results

* `exists_of_get_none`, `exists_of_get_some`: where a key stands among the entries, and what `put`
  and `remove` do there
* `get_put`, `get_remove`: what they do to the value of a key
-/

namespace Ong

open List

variable {κ ρ β : Type*} [LinearOrder ρ] {rank : κ → ρ} {e : κ × β}

/-- The entries of a sorted map, in the order of the ranks. -/
structure TreeMap (rank : κ → ρ) (β : Type*) where
  entries : List (κ × β)
  sorted : entries.Pairwise fun a b => rank a.1 < rank b.1

namespace TreeMap

section Lists

/-- The value of the first entry of the rank. -/
def find (rank : κ → ρ) (k : κ) : List (κ × β) → Option β
  | [] => none
  | e :: es => if rank e.1 = rank k then some e.2 else find rank k es

/-- A value under a key, in place of the one there was. -/
def insert (rank : κ → ρ) (k : κ) (b : β) : List (κ × β) → List (κ × β)
  | [] => [(k, b)]
  | e :: es =>
    if rank k < rank e.1 then (k, b) :: e :: es
    else if rank e.1 = rank k then (e.1, b) :: es
    else e :: insert rank k b es

/-- The entries of the other ranks. -/
def erase (rank : κ → ρ) (k : κ) (es : List (κ × β)) : List (κ × β) :=
  es.filter fun e => rank e.1 ≠ rank k

variable {k : κ} {b c : β} {es : List (κ × β)}

theorem erase_of_forall (h : ∀ e ∈ es, rank e.1 ≠ rank k) : erase rank k es = es := by
  refine filter_eq_self.mpr fun e he => ?_
  exact decide_eq_true (h e he)

theorem find_eq_none : find rank k es = none ↔ ∀ e ∈ es, rank e.1 ≠ rank k := by
  induction es with
  | nil => simp [find]
  | cons e es ih =>
    rw [find, forall_mem_cons]
    by_cases he : rank e.1 = rank k
    · simp [he]
    · rw [if_neg he, ih]
      exact (and_iff_right he).symm

section

variable (hs : es.Pairwise fun a b => rank a.1 < rank b.1)

include hs

theorem insert_of_find_none (h : find rank k es = none) :
    ∃ l₁ l₂, es = l₁ ++ l₂ ∧ (∀ e ∈ l₁, rank e.1 < rank k) ∧ (∀ e ∈ l₂, rank k < rank e.1) ∧
      ∀ b, insert rank k b es = l₁ ++ (k, b) :: l₂ := by
  induction es with
  | nil => exact ⟨[], [], rfl, forall_mem_nil _, forall_mem_nil _, fun _ => rfl⟩
  | cons e es ih =>
    obtain ⟨he, hs⟩ := pairwise_cons.mp hs
    rw [find_eq_none, forall_mem_cons] at h
    by_cases hlt : rank k < rank e.1
    · have hafter : ∀ f ∈ e :: es, rank k < rank f.1 :=
        forall_mem_cons.mpr ⟨hlt, fun f hf => hlt.trans (he f hf)⟩
      exact ⟨[], e :: es, rfl, forall_mem_nil _, hafter, fun b => by simp [insert, hlt]⟩
    · obtain ⟨l₁, l₂, hes, hl₁, hl₂, hins⟩ := ih hs (find_eq_none.mpr h.2)
      refine ⟨e :: l₁, l₂, congrArg (e :: ·) hes, ?_, hl₂, fun b => ?_⟩
      · exact forall_mem_cons.mpr ⟨lt_of_le_of_ne (not_lt.mp hlt) h.1, hl₁⟩
      · simp [insert, hlt, h.1, hins]

theorem insert_of_find_some (h : find rank k es = some b) :
    ∃ l₁ k' l₂, es = l₁ ++ (k', b) :: l₂ ∧ rank k' = rank k ∧
      (∀ c, insert rank k c es = l₁ ++ (k', c) :: l₂) ∧ erase rank k es = l₁ ++ l₂ := by
  induction es with
  | nil => cases h
  | cons e es ih =>
    obtain ⟨he, hs⟩ := pairwise_cons.mp hs
    rw [find] at h
    by_cases heq : rank e.1 = rank k
    · rw [if_pos heq] at h
      cases h
      refine ⟨[], e.1, es, rfl, heq, fun c => by simp [insert, heq], ?_⟩
      have hrest : erase rank k es = es := erase_of_forall fun f hf => heq ▸ (he f hf).ne'
      rw [erase, filter_cons_of_neg (by simp [heq]), ← erase, hrest, nil_append]
    · rw [if_neg heq] at h
      obtain ⟨l₁, k', l₂, hes, hk', hins, hers⟩ := ih hs h
      have hlt : rank e.1 < rank k := hk' ▸ he (k', b) (hes ▸ mem_append_cons_self)
      refine ⟨e :: l₁, k', l₂, congrArg (e :: ·) hes, hk', fun c => ?_, ?_⟩
      · simp [insert, hlt.not_gt, heq, hins]
      · rw [erase, filter_cons_of_pos (by simp [heq]), ← erase, hers, cons_append]

theorem sorted_insert : (insert rank k b es).Pairwise fun a b => rank a.1 < rank b.1 := by
  cases h : find rank k es with
  | none =>
    obtain ⟨l₁, l₂, rfl, hl₁, hl₂, hins⟩ := insert_of_find_none hs h
    obtain ⟨hs₁, hs₂, hs₁₂⟩ := pairwise_append.mp hs
    rw [hins]
    refine pairwise_append.mpr ⟨hs₁, pairwise_cons.mpr ⟨hl₂, hs₂⟩, fun e he f hf => ?_⟩
    rcases mem_cons.mp hf with rfl | hf
    · exact hl₁ e he
    · exact hs₁₂ e he f hf
  | some c =>
    obtain ⟨l₁, k', l₂, rfl, -, hins, -⟩ := insert_of_find_some hs h
    rw [hins]
    rw [← pairwise_map (f := fun e : κ × β => rank e.1) (R := (· < ·))] at hs ⊢
    simpa only [map_append, map_cons] using hs

end

theorem key_of_mem_insert (h : e ∈ insert rank k b es) : e.1 = k ∨ ∃ f ∈ es, f.1 = e.1 := by
  induction es with
  | nil =>
    cases mem_singleton.mp h
    exact .inl rfl
  | cons f es ih =>
    rw [insert] at h
    split_ifs at h
    · rcases mem_cons.mp h with rfl | h
      · exact .inl rfl
      · exact .inr ⟨e, h, rfl⟩
    · rcases mem_cons.mp h with rfl | h
      · exact .inr ⟨f, mem_cons_self, rfl⟩
      · exact .inr ⟨e, mem_cons_of_mem _ h, rfl⟩
    · rcases mem_cons.mp h with rfl | h
      · exact .inr ⟨e, mem_cons_self, rfl⟩
      · exact (ih h).imp_right fun ⟨f, hf, heq⟩ => ⟨f, mem_cons_of_mem _ hf, heq⟩

/-! ### Entries that come before the key -/

theorem find_append (h : ∀ e ∈ es, rank e.1 < rank k) (rest : List (κ × β)) :
    find rank k (es ++ rest) = find rank k rest := by
  induction es with
  | nil => rfl
  | cons e es ih =>
    obtain ⟨he, hes⟩ := forall_mem_cons.mp h
    rw [cons_append, find, if_neg he.ne, ih hes]

theorem find_append_or (es rest : List (κ × β)) :
    find rank k (es ++ rest) = (find rank k es).or (find rank k rest) := by
  induction es with
  | nil => rfl
  | cons e es ih =>
    rw [cons_append, find, find, ih]
    split <;> rfl

theorem find_erase {k' : κ} :
    find rank k' (erase rank k es) = if rank k = rank k' then none else find rank k' es := by
  split
  · rename_i hk
    exact find_eq_none.mpr fun e he => hk ▸ of_decide_eq_true (mem_filter.mp he).2
  · rename_i hk
    induction es with
    | nil => rfl
    | cons e es ih =>
      rw [erase, filter_cons, find, ← ih]
      by_cases he : rank e.1 = rank k
      · rw [if_neg (by simp [he]), if_neg (he ▸ hk)]
        rfl
      · rw [if_pos (by simp [he]), find]
        rfl

theorem insert_append (h : ∀ e ∈ es, rank e.1 < rank k) (rest : List (κ × β)) :
    insert rank k b (es ++ rest) = es ++ insert rank k b rest := by
  induction es with
  | nil => rfl
  | cons e es ih =>
    obtain ⟨he, hes⟩ := forall_mem_cons.mp h
    rw [cons_append, insert, if_neg he.not_gt, if_neg he.ne, ih hes, cons_append]

section Orders

variable {ρ' : Type*} [LinearOrder ρ'] {rank' : κ → ρ'}

theorem find_congr (h : ∀ e ∈ es, rank e.1 = rank k ↔ rank' e.1 = rank' k) :
    find rank k es = find rank' k es := by
  induction es with
  | nil => rfl
  | cons e es ih =>
    obtain ⟨he, hes⟩ := forall_mem_cons.mp h
    simp only [find, he, ih hes]

theorem insert_congr (hlt : ∀ e ∈ es, rank k < rank e.1 ↔ rank' k < rank' e.1)
    (h : ∀ e ∈ es, rank e.1 = rank k ↔ rank' e.1 = rank' k) :
    insert rank k b es = insert rank' k b es := by
  induction es with
  | nil => rfl
  | cons e es ih =>
    obtain ⟨hltE, hlt⟩ := forall_mem_cons.mp hlt
    obtain ⟨he, h⟩ := forall_mem_cons.mp h
    simp only [insert, hltE, he, ih hlt h]

theorem erase_congr (h : ∀ e ∈ es, rank e.1 = rank k ↔ rank' e.1 = rank' k) :
    erase rank k es = erase rank' k es :=
  filter_congr fun e he => by simp only [ne_eq, h e he]

end Orders

end Lists

/-- The sorted map of no entries. -/
def empty : TreeMap rank β := ⟨[], .nil⟩

variable (m : TreeMap rank β) (k : κ)

/-- The value under a key. -/
def get : Option β := find rank k m.entries

/-- A value under a key. -/
def put (b : β) : TreeMap rank β := ⟨insert rank k b m.entries, sorted_insert m.sorted⟩

/-- Nothing under a key. -/
def remove : TreeMap rank β := ⟨erase rank k m.entries, m.sorted.filter _⟩

variable {m k} {b : β}

/-- Where a key is missing. -/
theorem exists_of_get_none (h : m.get k = none) :
    ∃ l₁ l₂, m.entries = l₁ ++ l₂ ∧ ∀ b, (m.put k b).entries = l₁ ++ (k, b) :: l₂ := by
  obtain ⟨l₁, l₂, hes, -, -, hins⟩ := insert_of_find_none m.sorted h
  exact ⟨l₁, l₂, hes, hins⟩

/-- Where a key stands. -/
theorem exists_of_get_some (h : m.get k = some b) :
    ∃ l₁ k' l₂, m.entries = l₁ ++ (k', b) :: l₂ ∧ rank k' = rank k ∧
      (∀ c, (m.put k c).entries = l₁ ++ (k', c) :: l₂) ∧ (m.remove k).entries = l₁ ++ l₂ :=
  insert_of_find_some m.sorted h

theorem get_congr {k' : κ} (h : rank k = rank k') : m.get k = m.get k' := by
  unfold get
  induction m.entries with
  | nil => rfl
  | cons e es ih => rw [find, find, ih, h]

theorem get_put (k' : κ) : (m.put k b).get k' = if rank k = rank k' then some b else m.get k' := by
  cases h : m.get k with
  | none =>
    obtain ⟨l₁, l₂, hes, hput⟩ := exists_of_get_none h
    rw [get, get, hput, hes, find_append_or, find_append_or, find]
    split_ifs with hk
    · have hnone : find rank k' l₁ = none := find_eq_none.mpr fun e he =>
        hk ▸ find_eq_none.mp h e (hes ▸ mem_append_left _ he)
      rw [hnone, Option.none_or]
    · rfl
  | some c =>
    obtain ⟨l₁, k₁, l₂, hes, hk₁, hput, -⟩ := exists_of_get_some h
    rw [get, get, hput, hes, find_append_or, find_append_or, find, find, hk₁]
    split_ifs with hk
    · have hbefore := (pairwise_append.mp (hes ▸ m.sorted)).2.2
      have hnone : find rank k' l₁ = none := find_eq_none.mpr fun e he =>
        hk ▸ hk₁ ▸ (hbefore e he _ mem_cons_self).ne
      rw [hnone, Option.none_or]
    · rfl

theorem get_remove (k' : κ) :
    (m.remove k).get k' = if rank k = rank k' then none else m.get k' :=
  find_erase

theorem get_eq_some_iff (hrank : Function.Injective rank) :
    m.get k = some b ↔ (k, b) ∈ m.entries := by
  constructor
  · intro h
    obtain ⟨l₁, k', l₂, hes, hk', -⟩ := exists_of_get_some h
    rw [hes, ← hrank hk']
    exact mem_append_cons_self
  · intro h
    cases hget : m.get k with
    | none => exact absurd rfl (find_eq_none.mp hget (k, b) h)
    | some c =>
      obtain ⟨l₁, k', l₂, hes, hk', -⟩ := exists_of_get_some hget
      obtain rfl := hrank hk'
      have hsorted := m.sorted
      rw [hes] at h hsorted
      obtain ⟨-, hright, hleft⟩ := pairwise_append.mp hsorted
      rcases mem_append.mp h with hmem | hmem
      · exact absurd (hleft _ hmem _ mem_cons_self) (lt_irrefl _)
      · rcases mem_cons.mp hmem with heq | hmem
        · rw [(Prod.mk.inj heq).2]
        · exact absurd ((pairwise_cons.mp hright).1 _ hmem) (lt_irrefl _)

theorem mem_put_of_get_none (h : m.get k = none) :
    e ∈ (m.put k b).entries ↔ e = (k, b) ∨ e ∈ m.entries := by
  obtain ⟨l₁, l₂, hes, hput⟩ := exists_of_get_none h
  rw [hput, hes, mem_append, mem_cons, mem_append]
  exact or_left_comm

theorem mem_of_mem_remove (h : e ∈ (m.remove k).entries) : e ∈ m.entries :=
  (mem_filter.mp h).1

end TreeMap

end Ong
