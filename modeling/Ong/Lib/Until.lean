import Mathlib.Data.Finset.Lattice.Fold
import Ong.Lib.Run

/-!
# What every run comes to

A state holds `Until` when every run from it passes through states with one property only, and comes
after finitely many steps to a state with another, whatever events happen in what order.

## Main results

* `Until.trans`: one after the other
* `Until.safe`, `Until.final`, `Until.bounded`: what it says of the runs, when nothing happens at
  the end
* `exists_exec_of_next`: when every state with a property has a next one with it, runs are unbounded
-/

namespace Ong.Run

variable {σ ε : Type*} (step : σ → ε → Option σ)

/-- Some event can happen in `s`, and whatever happens leads to a state with `Q`. -/
def Next (Q : σ → Prop) (s : σ) : Prop :=
  (∃ e t, step s e = some t) ∧ ∀ e t, step s e = some t → Q t

/-- Every run from the state keeps `S` until it comes to `Q`, and comes there. -/
inductive Until (S Q : σ → Prop) : σ → Prop
  | now {s : σ} (hQ : Q s) : Until S Q s
  | later {s : σ} (hS : S s) (can : ∃ e t, step s e = some t)
      (all : ∀ e t, step s e = some t → Until S Q t) : Until S Q s

variable {step} {S Q R : σ → Prop} {s t : σ} {es : List ε}

theorem Next.mono (hQR : ∀ s, Q s → R s) (h : Next step Q s) : Next step R s :=
  ⟨h.1, fun e t ht => hQR t (h.2 e t ht)⟩

theorem next_of_only {e : ε} (he : step s e = some t) (honly : ∀ e', e' ≠ e → step s e' = none)
    (hQ : Q t) : Next step Q s := by
  refine ⟨⟨e, t, he⟩, fun e' t' ht' => ?_⟩
  by_cases hee : e' = e
  · rw [hee, he] at ht'
    exact Option.some.inj ht' ▸ hQ
  · rw [honly e' hee] at ht'
    exact absurd ht' (Option.some_ne_none _ ∘ Eq.symm)

theorem Next.until (hS : S s) (h : Next step (Until step S Q) s) : Until step S Q s :=
  .later hS h.1 h.2

theorem Until.trans (h : Until step S Q s) (hQ : ∀ s, Q s → Until step S R s) :
    Until step S R s := by
  induction h with
  | now h => exact hQ _ h
  | later hS can _ ih => exact .later hS can ih

section Runs

variable (hend : ∀ s, Q s → ∀ e, step s e = none)
include hend

theorem Until.safe (h : Until step S Q s) (hQS : ∀ s, Q s → S s) (ht : exec step s es = some t) :
    S t := by
  induction h generalizing es with
  | @now s hQ =>
    cases es with
    | nil =>
      cases ht
      exact hQS _ hQ
    | cons e es => simp [exec, hend s hQ e] at ht
  | later hS _ _ ih =>
    cases es with
    | nil =>
      cases ht
      exact hS
    | cons e es =>
      obtain ⟨u, hu, hes⟩ := Option.bind_eq_some_iff.mp ht
      exact ih e u hu hes

/-- A run that cannot go on has come to the end. -/
theorem Until.final (h : Until step S Q s) (ht : exec step s es = some t)
    (hstuck : ∀ e, step t e = none) : Q t := by
  induction h generalizing es with
  | @now s hQ =>
    cases es with
    | nil =>
      cases ht
      exact hQ
    | cons e es => simp [exec, hend s hQ e] at ht
  | later _ can _ ih =>
    cases es with
    | nil =>
      cases ht
      obtain ⟨e, u, hu⟩ := can
      exact absurd hu (hstuck e ▸ Option.some_ne_none u ∘ Eq.symm)
    | cons e es =>
      obtain ⟨u, hu, hes⟩ := Option.bind_eq_some_iff.mp ht
      exact ih e u hu hes

/-- The runs have a greatest length. -/
theorem Until.bounded [Fintype ε] (h : Until step S Q s) :
    ∃ n, ∀ es t, exec step s es = some t → es.length ≤ n := by
  classical
  induction h with
  | @now s hQ =>
    refine ⟨0, fun es t ht => ?_⟩
    cases es with
    | nil => exact Nat.le_refl 0
    | cons e es => simp [exec, hend s hQ e] at ht
  | @later s _ _ _ ih =>
    have hbound : ∀ e, ∃ n, ∀ u, step s e = some u → ∀ es t, exec step u es = some t →
        es.length ≤ n := by
      intro e
      cases hu : step s e with
      | none => exact ⟨0, nofun⟩
      | some u =>
        obtain ⟨n, hn⟩ := ih e u hu
        exact ⟨n, fun u' h => by cases h; exact hn⟩
    choose bound hbound using hbound
    refine ⟨Finset.univ.sup bound + 1, fun es t ht => ?_⟩
    cases es with
    | nil => exact Nat.zero_le _
    | cons e es =>
      obtain ⟨u, hu, hes⟩ := Option.bind_eq_some_iff.mp ht
      have hle : es.length ≤ bound e := hbound e u hu es t hes
      exact Nat.succ_le_succ (hle.trans (Finset.le_sup (Finset.mem_univ e)))

end Runs

theorem Until.exists_exec (h : Until step S Q s) : ∃ es t, exec step s es = some t ∧ Q t := by
  induction h with
  | @now s hQ => exact ⟨[], s, rfl, hQ⟩
  | later _ can _ ih =>
    obtain ⟨e, u, hu⟩ := can
    obtain ⟨es, t, hes, hQ⟩ := ih e u hu
    exact ⟨e :: es, t, by rw [exec_cons, hu, Option.bind_some, hes], hQ⟩

/-- When every state with `Q` has a next one with `Q`, there are runs of every length. -/
theorem exists_exec_of_next (hQ : ∀ s, Q s → Next step Q s) (hs : Q s) (n : Nat) :
    ∃ es t, exec step s es = some t ∧ es.length = n := by
  induction n generalizing s with
  | zero => exact ⟨[], s, rfl, rfl⟩
  | succ n ih =>
    obtain ⟨⟨e, u, hu⟩, hall⟩ := hQ s hs
    obtain ⟨es, t, hes, hlen⟩ := ih (hall e u hu)
    exact ⟨e :: es, t, by rw [exec_cons, hu, Option.bind_some, hes], by rw [List.length_cons, hlen]⟩

end Ong.Run
