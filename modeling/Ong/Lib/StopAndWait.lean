import Ong.Lib.Until
import Ong.Lib.Blocks

/-!
# A transfer in blocks, one at a time

One side sends a list block by block, the other puts the blocks it gets after what it has and asks
for the next.  The numbers of the blocks start again at zero after `N` of them.

## Main results

* `StopAndWait.until_done`: a list of at most `N` blocks comes over, put after what was there
* `StopAndWait.exists_exec`: the transfer of a longer list never ends
-/

namespace Ong.Run

open Blocks

variable {σ ε α : Type*} (step : σ → ε → Option σ)

/-- A block of `l` on its way to the side that has gathered `g`: `Send num g`; a block asked for:
`Ask num g`; the last block taken: `Done g`. -/
structure StopAndWait (N n : Nat) (l : List α) (Send Ask : Nat → List α → σ → Prop)
    (Done : List α → σ → Prop) : Prop where
  more : ∀ num g s, Send num g s → (num + 1) * n < l.length →
    Next step (Ask ((num + 1) % N) (g ++ block n num l)) s
  ask : ∀ num g s, Ask num g s → Next step (Send num g) s
  last : ∀ num g s, Send num g s → ¬ (num + 1) * n < l.length →
    Next step (Done (g ++ block n num l)) s

variable {step} {N n num : Nat} {l g : List α} {Send Ask : Nat → List α → σ → Prop}
  {Done : List α → σ → Prop} {S : σ → Prop} {s : σ}

namespace StopAndWait

variable (h : StopAndWait step N n l Send Ask Done)
include h

theorem until_done_of_le (hN : l.length ≤ N * n)
    (hsend : ∀ num g s, Send num g s → S s) (hask : ∀ num g s, Ask num g s → S s) (k : Nat) :
    ∀ {num : Nat} {s : σ}, l.length ≤ (num + k + 1) * n → Send num (g ++ l.take (num * n)) s →
      Until step S (Done (g ++ l)) s := by
  induction k with
  | zero =>
    intro num s hk hs
    refine (h.last num _ s hs (Nat.not_lt.mpr hk)).mono (fun t ht => .now ?_) |>.until (hsend _ _ s hs)
    rwa [List.append_assoc, take_append_last hk] at ht
  | succ k ih =>
    intro num s hk hs
    by_cases hmore : (num + 1) * n < l.length
    · have hnum : num + 1 < N := Nat.lt_of_mul_lt_mul_right (hmore.trans_le hN)
      have hnext := h.more num _ s hs hmore
      rw [Nat.mod_eq_of_lt hnum, List.append_assoc, take_append_block] at hnext
      refine hnext.mono (fun t ht => ?_) |>.until (hsend _ _ s hs)
      refine (h.ask _ _ t ht).mono (fun u hu => ?_) |>.until (hask _ _ t ht)
      exact ih (by rwa [Nat.add_right_comm num 1 k]) hu
    · refine (h.last num _ s hs hmore).mono (fun t ht => .now ?_) |>.until (hsend _ _ s hs)
      rwa [List.append_assoc, take_append_last (Nat.not_lt.mp hmore)] at ht

/-- **The whole list comes over**, put after what was there. -/
theorem until_done (hn : 0 < n) (hN : l.length ≤ N * n) (hsend : ∀ num g s, Send num g s → S s)
    (hask : ∀ num g s, Ask num g s → S s) (hs : Send 0 g s) : Until step S (Done (g ++ l)) s := by
  have hk : l.length ≤ (0 + l.length + 1) * n :=
    calc l.length ≤ (0 + l.length + 1) * 1 := by omega
      _ ≤ (0 + l.length + 1) * n := Nat.mul_le_mul_left _ hn
  refine h.until_done_of_le hN hsend hask l.length hk ?_
  rwa [Nat.zero_mul, List.take_zero, List.append_nil]

/-- **A list of more than `N` blocks is sent for ever.** -/
theorem exists_exec (hpos : 0 < N) (hN : N * n < l.length) (hs : Send num g s) (hnum : num < N)
    (k : Nat) : ∃ es t, exec step s es = some t ∧ es.length = k := by
  refine exists_exec_of_next (Q := fun s => ∃ num < N, ∃ g, Send num g s ∨ Ask num g s) ?_
    ⟨num, hnum, g, .inl hs⟩ k
  rintro s ⟨num, hnum, g, hs | hs⟩
  · have hmore : (num + 1) * n < l.length := (Nat.mul_le_mul_right n hnum).trans_lt hN
    exact (h.more num g s hs hmore).mono fun t ht => ⟨_, Nat.mod_lt _ hpos, _, .inr ht⟩
  · exact (h.ask num g s hs).mono fun t ht => ⟨num, hnum, g, .inl ht⟩

end StopAndWait

end Ong.Run
