import Mathlib.Data.List.Basic

/-!
# Circular buffers

The cells of a circular buffer hold a queue from `head` on, up to `tail`; one cell at least is free,
unless there is none at all.

## Main results

* `Holds.write`, `Holds.writeTwice`: a copy to the cells adds to the queue, in one or two phases
* `Holds.read`, `Holds.readTwice`: a copy from the cells gives the first elements of the queue
-/

namespace Ong.Ring

open List

variable {α : Type*}

/-- The cells after a copy to `pos`. -/
def splice (cells : List α) (pos : Nat) (data : List α) : List α :=
  cells.take pos ++ data ++ cells.drop (pos + data.length)

/-- A copy of `len` cells from `pos`. -/
def slice (cells : List α) (pos len : Nat) : List α := (cells.drop pos).take len

theorem splice_eq {cells data : List α} {pos : Nat} (l₁ l₂ l₃ : List α) (h : cells = l₁ ++ (l₂ ++ l₃))
    (hpos : pos = l₁.length) (hlen : data.length = l₂.length) :
    splice cells pos data = l₁ ++ (data ++ l₃) := by
  unfold splice
  rw [h, hpos, take_left, hlen, ← append_assoc l₁ l₂ l₃, ← length_append,
    drop_left, append_assoc]

theorem slice_eq {cells : List α} {pos len : Nat} (l₁ l₂ l₃ : List α) (h : cells = l₁ ++ (l₂ ++ l₃))
    (hpos : pos = l₁.length) (hlen : len = l₂.length) : slice cells pos len = l₂ := by
  unfold slice
  rw [h, hpos, drop_left, hlen, take_left]

theorem exists_append {l : List α} {n : Nat} (h : n ≤ l.length) :
    ∃ l₁ l₂, l = l₁ ++ l₂ ∧ l₁.length = n :=
  ⟨l.take n, l.drop n, (take_append_drop n l).symm, by rw [length_take]; omega⟩

theorem length_splice {cells data : List α} {pos : Nat} (h : pos + data.length ≤ cells.length) :
    (splice cells pos data).length = cells.length := by
  unfold splice
  rw [length_append, length_append, length_take, length_drop]
  omega

/-- The queue in the cells, from `head` to `tail`, is in one piece, or goes on from the first
cell. -/
inductive Holds (cells : List α) (head tail : Nat) : List α → Prop
  | straight (before q free : List α) (hcells : cells = before ++ (q ++ free))
      (hhead : head = before.length) (htail : tail = before.length + q.length) (hfree : free ≠ []) :
      Holds cells head tail q
  | wrapped (q₁ q₂ free : List α) (hcells : cells = q₂ ++ (free ++ q₁)) (htail : tail = q₂.length)
      (hhead : head = q₂.length + free.length) (hfree : free ≠ []) (hq₁ : q₁ ≠ []) :
      Holds cells head tail (q₁ ++ q₂)
  | empty (hcells : cells = []) (hhead : head = 0) (htail : tail = 0) : Holds cells head tail []

section Rules

variable {cells q data : List α} {head tail len : Nat}

variable (h : Holds cells head tail q)

include h

theorem Holds.size :
    (q.length : Int) =
      if (tail : Int) - head < 0 then (tail : Int) - head + cells.length else tail - head := by
  cases h with
  | straight before q free hcells hhead htail hfree =>
    omega
  | wrapped q₁ q₂ free hcells htail hhead hfree hq₁ =>
    have := length_pos_of_ne_nil hfree
    rw [if_pos (by omega), hcells]
    simp only [length_append]
    omega
  | empty hcells hhead htail =>
    rw [if_neg (by omega), hhead, htail]
    rfl

theorem Holds.length_le : q.length ≤ cells.length - 1 := by
  cases h with
  | straight before q free hcells hhead htail hfree =>
    have := length_pos_of_ne_nil hfree
    rw [hcells]
    simp only [length_append]
    omega
  | wrapped q₁ q₂ free hcells htail hhead hfree hq₁ =>
    have := length_pos_of_ne_nil hfree
    rw [hcells]
    simp only [length_append]
    omega
  | empty hcells hhead htail => exact Nat.zero_le _

theorem Holds.bounds : head ≤ cells.length ∧ tail ≤ cells.length := by
  cases h with
  | straight before q free hcells hhead htail hfree =>
    rw [hcells]
    simp only [length_append]
    omega
  | wrapped q₁ q₂ free hcells htail hhead hfree hq₁ =>
    rw [hcells]
    simp only [length_append]
    omega
  | empty hcells hhead htail =>
    rw [hhead, htail]
    exact ⟨Nat.zero_le _, Nat.zero_le _⟩

theorem Holds.length_write (hroom : q.length + data.length < cells.length)
    (hphase : tail < head ∨ data.length ≤ cells.length - tail) :
    (splice cells tail data).length = cells.length := by
  have hsize := h.size
  have hbounds := h.bounds
  refine length_splice ?_
  split at hsize <;> omega

theorem Holds.length_writeTwice (hroom : q.length + data.length < cells.length)
    (hlast : cells.length - tail < data.length) :
    (splice (splice cells tail (data.take (cells.length - tail))) 0
      (data.drop (cells.length - tail))).length = cells.length := by
  have hbounds := h.bounds
  have hfirst : (splice cells tail (data.take (cells.length - tail))).length = cells.length := by
    refine length_splice ?_
    rw [length_take]
    omega
  rw [length_splice, hfirst]
  rw [length_drop, hfirst]
  omega

/-- **A copy in one phase** adds to the queue. -/
theorem Holds.write (hdata : data ≠ []) (hroom : q.length + data.length < cells.length)
    (hphase : tail < head ∨ data.length ≤ cells.length - tail) :
    Holds (splice cells tail data) head
      (if tail + data.length = cells.length then 0 else tail + data.length) (q ++ data) := by
  cases h with
  | straight before q free hcells hhead htail hfree =>
    subst hcells hhead htail
    have hlen : data.length ≤ free.length := by
      simp only [length_append] at hroom hphase
      omega
    obtain ⟨free₁, free₂, rfl, hfree₁⟩ := exists_append hlen
    have hsplice : splice (before ++ (q ++ (free₁ ++ free₂))) (before.length + q.length) data =
        before ++ ((q ++ data) ++ free₂) := by
      rw [splice_eq (before ++ q) free₁ free₂ (by simp) (by simp)
        hfree₁.symm]
      simp only [append_assoc]
    rw [hsplice]
    simp only [length_append] at hroom ⊢
    by_cases hfree₂ : free₂ = []
    · subst hfree₂
      rw [if_pos (by rw [length_nil]; omega)]
      rw [length_nil] at hroom
      have hbefore : before ≠ [] := by
        rintro rfl
        rw [length_nil] at hroom
        omega
      have hwrapped : Holds (before ++ (q ++ data)) before.length 0 ((q ++ data) ++ []) :=
        .wrapped (q ++ data) [] before rfl rfl (Nat.zero_add _).symm hbefore (by simp [hdata])
      rw [append_nil] at hwrapped ⊢
      exact hwrapped
    · have := length_pos_of_ne_nil hfree₂
      rw [if_neg (by omega)]
      exact .straight before (q ++ data) free₂ rfl rfl (by simp; omega) hfree₂
  | wrapped q₁ q₂ free hcells htail hhead hfree hq₁ =>
    subst hcells hhead htail
    have hlen : data.length < free.length := by
      simp only [length_append] at hroom
      omega
    obtain ⟨free₁, free₂, rfl, hfree₁⟩ := exists_append (Nat.le_of_lt hlen)
    rw [splice_eq q₂ free₁ (free₂ ++ q₁) (by simp) rfl hfree₁.symm]
    simp only [length_append] at hlen ⊢
    rw [if_neg (by omega), append_assoc q₁]
    refine .wrapped q₁ (q₂ ++ data) free₂ ?_ ?_ ?_ ?_ hq₁
    · simp only [append_assoc]
    · simp only [length_append]
    · simp only [length_append]
      omega
    · rintro rfl
      simp at hlen
      omega
  | empty hcells hhead htail =>
    subst hcells
    simp at hroom

/-- **A copy in two phases**, to the last cells then to the first ones, adds to the queue. -/
theorem Holds.writeTwice (hroom : q.length + data.length < cells.length) (hle : head ≤ tail)
    (hlast : cells.length - tail < data.length) :
    Holds (splice (splice cells tail (data.take (cells.length - tail))) 0
      (data.drop (cells.length - tail))) head (data.length - (cells.length - tail))
      (q ++ data) := by
  cases h with
  | straight before q free hcells hhead htail hfree =>
    subst hcells hhead htail
    have hfree' := length_pos_of_ne_nil hfree
    have hl : (before ++ (q ++ free)).length - (before.length + q.length) = free.length := by
      simp only [length_append]
      omega
    rw [hl] at hlast ⊢
    have hfirst : (data.take free.length).length = free.length := by
      rw [length_take]
      omega
    have hsecond : (data.drop free.length).length < before.length := by
      rw [length_drop]
      omega
    obtain ⟨before₁, before₂, rfl, hbefore₁⟩ := exists_append (Nat.le_of_lt hsecond)
    have hsplice₁ : splice (before₁ ++ before₂ ++ (q ++ free))
        ((before₁ ++ before₂).length + q.length) (data.take free.length) =
          before₁ ++ (before₂ ++ (q ++ data.take free.length)) := by
      rw [splice_eq (before₁ ++ before₂ ++ q) free [] (by simp) (by simp; omega) hfirst]
      simp only [append_assoc, append_nil]
    rw [hsplice₁, splice_eq [] before₁ (before₂ ++ (q ++ data.take free.length))
      (nil_append _).symm length_nil.symm hbefore₁.symm]
    have hqueue : q ++ data = (q ++ data.take free.length) ++ data.drop free.length := by
      rw [append_assoc, take_append_drop]
    rw [hqueue]
    refine .wrapped _ _ before₂ (nil_append _) ?_ ?_ ?_ ?_
    · rw [length_drop]
    · rw [length_append, hbefore₁]
    · rintro rfl
      rw [append_nil] at hsecond
      omega
    · intro hnil
      rw [(append_eq_nil_iff.mp hnil).2, length_nil] at hfirst
      omega
  | wrapped q₁ q₂ free hcells htail hhead hfree hq₁ =>
    have := length_pos_of_ne_nil hfree
    omega
  | empty hcells hhead htail =>
    subst hcells
    simp at hroom

/-- **A copy in one phase** gives the first elements of the queue. -/
theorem Holds.read (hpos : 0 < len) (hlen : len ≤ q.length)
    (hphase : head < tail ∨ len ≤ cells.length - head) :
    slice cells head len = q.take len ∧
      Holds cells (if head + len = cells.length then 0 else head + len) tail (q.drop len) := by
  cases h with
  | straight before q free hcells hhead htail hfree =>
    subst hcells hhead htail
    have hfree' := length_pos_of_ne_nil hfree
    obtain ⟨data, q', rfl, hdata⟩ := exists_append hlen
    have hlength : (before ++ (data ++ q' ++ free)).length =
        before.length + (data.length + q'.length + free.length) := by
      simp only [length_append]
    rw [if_neg (by omega), take_left' hdata, drop_left' hdata]
    refine ⟨slice_eq before data (q' ++ free) (by simp) rfl hdata.symm, ?_⟩
    refine .straight (before ++ data) q' free (by simp) ?_ ?_ hfree
    · rw [length_append, hdata]
    · rw [length_append, length_append, Nat.add_assoc]
  | wrapped q₁ q₂ free hcells htail hhead hfree hq₁ =>
    subst hcells hhead htail
    have hlen₁ : len ≤ q₁.length := by
      simp only [length_append] at hphase
      omega
    obtain ⟨data, q', rfl, hdata⟩ := exists_append hlen₁
    have hlength : (q₂ ++ (free ++ (data ++ q'))).length =
        q₂.length + free.length + (data.length + q'.length) := by
      simp only [length_append]
      omega
    rw [append_assoc data, take_left' hdata, drop_left' hdata]
    refine ⟨slice_eq (q₂ ++ free) data q' (by simp) (by simp) hdata.symm, ?_⟩
    by_cases hq' : q' = []
    · subst hq'
      rw [length_nil] at hlength
      rw [if_pos (by omega)]
      refine .straight [] q₂ (free ++ (data ++ [])) rfl rfl (Nat.zero_add _).symm ?_
      exact append_ne_nil_of_left_ne_nil hfree _
    · have := length_pos_of_ne_nil hq'
      rw [if_neg (by omega)]
      refine .wrapped q' q₂ (free ++ data) (by simp) rfl ?_ ?_ hq'
      · rw [length_append]
        omega
      · exact append_ne_nil_of_left_ne_nil hfree _
  | empty hcells hhead htail =>
    rw [length_nil] at hlen
    omega

/-- **A copy in two phases**, from the last cells then from the first ones, gives the first elements
of the queue. -/
theorem Holds.readTwice (hle : tail ≤ head) (hlen : len ≤ q.length)
    (hlast : cells.length - head < len) :
    slice cells head (cells.length - head) ++ slice cells 0 (len - (cells.length - head)) =
        q.take len ∧
      Holds cells (len - (cells.length - head)) tail (q.drop len) := by
  cases h with
  | straight before q free hcells hhead htail hfree =>
    omega
  | wrapped q₁ q₂ free hcells htail hhead hfree hq₁ =>
    subst hcells hhead htail
    have hl : (q₂ ++ (free ++ q₁)).length - (q₂.length + free.length) = q₁.length := by
      simp only [length_append]
      omega
    rw [hl] at hlast ⊢
    rw [length_append] at hlen
    obtain ⟨data, q', rfl, hdata⟩ := exists_append (l := q₂) (n := len - q₁.length) (by omega)
    have hfirst : slice (data ++ q' ++ (free ++ q₁)) ((data ++ q').length + free.length)
        q₁.length = q₁ :=
      slice_eq (data ++ q' ++ free) q₁ [] (by simp) (by simp; omega) rfl
    have hsecond : slice (data ++ q' ++ (free ++ q₁)) 0 (len - q₁.length) = data :=
      slice_eq [] data (q' ++ (free ++ q₁)) (by simp) rfl hdata.symm
    have hboth : (q₁ ++ data).length = len := by
      rw [length_append]
      omega
    rw [hfirst, hsecond, ← append_assoc q₁, take_left' hboth, drop_left' hboth]
    refine ⟨rfl, .straight data q' (free ++ q₁) (by simp) hdata.symm length_append ?_⟩
    exact append_ne_nil_of_left_ne_nil hfree _
  | empty hcells hhead htail =>
    rw [length_nil] at hlen
    omega

end Rules

end Ong.Ring
