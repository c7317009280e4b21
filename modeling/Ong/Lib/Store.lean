import Mathlib.Logic.Function.Basic

/-!
# Mutable objects with identity

A `Store` holds the present value of every object of a class under its reference; two variables
that hold one reference see each other's changes.

## Main results

* the equations of `get` after `set` and `alloc`
-/

namespace Ong

/-- The value of each object by its reference, and the next reference that is free. -/
structure Store (α : Type*) where
  get : Nat → α
  next : Nat

namespace Store

variable {α : Type*} (h : Store α)

/-- A store with no object; `a` stands for the value of a reference that does not exist. -/
def empty (a : α) : Store α := ⟨fun _ => a, 0⟩

def set (r : Nat) (a : α) : Store α := { h with get := Function.update h.get r a }

/-- A new object, under the reference `h.next`. -/
def alloc (a : α) : Store α := ⟨Function.update h.get h.next a, h.next + 1⟩

@[simp] theorem get_set_self (r : Nat) (a : α) : (h.set r a).get r = a := by
  simp [set]

theorem get_set_of_ne {r r' : Nat} (hr : r' ≠ r) (a : α) : (h.set r a).get r' = h.get r' := by
  simp [set, hr]

@[simp] theorem set_get (r : Nat) : h.set r (h.get r) = h := by
  rw [set, Function.update_eq_self]

@[simp] theorem get_alloc_next (a : α) : (h.alloc a).get h.next = a := by
  simp [alloc]

theorem get_alloc_of_lt {r : Nat} (hr : r < h.next) (a : α) : (h.alloc a).get r = h.get r := by
  simp [alloc, Nat.ne_of_lt hr]

end Store

end Ong
