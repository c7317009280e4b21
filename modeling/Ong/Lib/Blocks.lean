import Mathlib.Data.List.TakeDrop
import Mathlib.Algebra.Ring.Nat

/-!
# A list in blocks of one size

## Main results

* `take_append_block`: the blocks put together one after the other are a prefix of the list
* `take_append_last`: with the last block they are the whole list
-/

namespace Ong.Blocks

variable {α : Type*} {n k : Nat} {l : List α}

/-- The block number `k` of a list in blocks of size `n`. -/
def block (n k : Nat) (l : List α) : List α := (l.drop (k * n)).take n

theorem take_append_block (n k : Nat) (l : List α) :
    l.take (k * n) ++ block n k l = l.take ((k + 1) * n) := by
  rw [block, Nat.succ_mul, List.take_add]

theorem take_append_last (h : l.length ≤ (k + 1) * n) : l.take (k * n) ++ block n k l = l := by
  rw [take_append_block, List.take_of_length_le h]

theorem take_min_drop : (l.drop (k * n)).take (min (l.length - k * n) n) = block n k l := by
  rw [block, Nat.min_comm, ← List.length_drop, List.take_eq_take_min, Nat.min_comm]
  rw [List.take_eq_take_iff]
  omega

end Ong.Blocks
