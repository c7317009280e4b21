import Mathlib.Data.List.Basic

/-!
# Accesses within bounds

What a program over a received message touches, one entry after the other: bytes of the message,
elements of arrays of fixed size, and the rounds of loops whose number the message says.  An entry
is within its bounds or not, and a trace is inside them if every entry is.

## Main results

* `inside_append`, `inside_range`: traces one behind the other, and the trace of a loop
-/

namespace Ong

/-- What a program does at one point. -/
inductive Access (Arr : Type)
  /-- bytes of the message, from an offset on -/
  | read (offset count : Nat)
  /-- elements of an array, from an index on -/
  | use (a : Arr) (first count : Nat)
  /-- one round of a loop that began with so many bytes of the message left -/
  | round (i remaining : Nat)
  deriving DecidableEq

namespace Access

variable {Arr : Type} (size : Arr → Nat) (sz : Nat)

/-- The bounds, for arrays of the given sizes and a message of `sz` bytes. -/
def Within : Access Arr → Prop
  | read offset count => offset + count ≤ sz
  | use a first count => first + count ≤ size a
  | round i remaining => i < remaining

instance : DecidablePred (Within size sz) := fun
  | read offset count => inferInstanceAs (Decidable (offset + count ≤ sz))
  | use a first count => inferInstanceAs (Decidable (first + count ≤ size a))
  | round i remaining => inferInstanceAs (Decidable (i < remaining))

/-- Every entry is within its bounds. -/
def Inside (as : List (Access Arr)) : Prop := ∀ a ∈ as, a.Within size sz

instance (as : List (Access Arr)) : Decidable (Inside size sz as) :=
  inferInstanceAs (Decidable (∀ _ ∈ _, _))

variable {size sz} {as bs : List (Access Arr)} {offset count first i remaining n : Nat} {a : Arr}

@[simp]
theorem inside_nil : Inside size sz ([] : List (Access Arr)) := List.forall_mem_nil _

@[simp]
theorem inside_cons {a : Access Arr} :
    Inside size sz (a :: as) ↔ a.Within size sz ∧ Inside size sz as :=
  List.forall_mem_cons

@[simp]
theorem within_read : (read offset count : Access Arr).Within size sz ↔ offset + count ≤ sz :=
  Iff.rfl

@[simp]
theorem within_use : (use a first count).Within size sz ↔ first + count ≤ size a := Iff.rfl

@[simp]
theorem within_round : (round i remaining : Access Arr).Within size sz ↔ i < remaining := Iff.rfl

@[simp]
theorem inside_append : Inside size sz (as ++ bs) ↔ Inside size sz as ∧ Inside size sz bs :=
  List.forall_mem_append

theorem inside_ite {c : Prop} [Decidable c] :
    Inside size sz (if c then as else []) ↔ (c → Inside size sz as) := by
  split
  · next hc => exact ⟨fun h _ => h, fun h => h hc⟩
  · next hc => exact iff_of_true inside_nil fun h => absurd h hc

theorem inside_flatMap {α : Type} {l : List α} {f : α → List (Access Arr)} :
    Inside size sz (l.flatMap f) ↔ ∀ x ∈ l, Inside size sz (f x) := by
  constructor
  · intro h x hx a ha
    exact h a (List.mem_flatMap.mpr ⟨x, hx, ha⟩)
  · intro h a ha
    obtain ⟨x, hx, ha⟩ := List.mem_flatMap.mp ha
    exact h x hx a ha

/-- A loop that counts. -/
theorem inside_range {f : Nat → List (Access Arr)} :
    Inside size sz ((List.range n).flatMap f) ↔ ∀ i < n, Inside size sz (f i) := by
  simp only [inside_flatMap, List.mem_range]

end Access

end Ong
