import Mathlib.Logic.Basic

/-!
# Programs with a state and exceptions

What a program ends with, when it is run from a state: a result or an exception, and the state it
leaves in both cases.

## Main results

* `ends_bind`, `ends_pure`, `ends_get`, `ends_set`, `ends_modify`, `ends_throw`, `ends_ite`: one
  rule for each construct
* `Ends.mono`: the rule of consequence
-/

namespace Ong.Program

universe u

variable {ε σ α β : Type u} {Q R : α → σ → Prop} {E F : ε → σ → Prop} {s : σ}

/-- Run from `s`, the program returns as `Q` says or throws as `E` says. -/
def Ends (m : EStateM ε σ α) (Q : α → σ → Prop) (E : ε → σ → Prop) (s : σ) : Prop :=
  match m s with
  | .ok a t => Q a t
  | .error e t => E e t

@[simp] theorem ends_pure (a : α) : Ends (pure a) Q E s ↔ Q a s := Iff.rfl

@[simp] theorem ends_bind (m : EStateM ε σ α) (f : α → EStateM ε σ β) {Q : β → σ → Prop} :
    Ends (m >>= f) Q E s ↔ Ends m (fun a t => Ends (f a) Q E t) E s := by
  change Ends (EStateM.bind m f) Q E s ↔ _
  cases h : m s <;> simp only [Ends, EStateM.bind, h]

@[simp] theorem ends_get {Q : σ → σ → Prop} :
    Ends (get : EStateM ε σ σ) Q E s ↔ Q s s := Iff.rfl

@[simp] theorem ends_set (t : σ) {Q : PUnit → σ → Prop} :
    Ends (set t : EStateM ε σ PUnit) Q E s ↔ Q ⟨⟩ t := Iff.rfl

@[simp] theorem ends_modify (f : σ → σ) {Q : PUnit → σ → Prop} :
    Ends (modify f : EStateM ε σ PUnit) Q E s ↔ Q ⟨⟩ (f s) := Iff.rfl

@[simp] theorem ends_throw (e : ε) : Ends (throw e : EStateM ε σ α) Q E s ↔ E e s := Iff.rfl

@[simp] theorem ends_ite (c : Prop) [Decidable c] (m n : EStateM ε σ α) :
    Ends (if c then m else n) Q E s ↔ (c → Ends m Q E s) ∧ (¬c → Ends n Q E s) := by
  split <;> rename_i h <;> simp [h]

theorem ends_of_forall {m : EStateM ε σ α} (hQ : ∀ a t, Q a t) (hE : ∀ e t, E e t) :
    Ends m Q E s := by
  unfold Ends
  cases m s with
  | ok a t => exact hQ a t
  | error e t => exact hE e t

/-- The rule of consequence. -/
theorem Ends.mono {m : EStateM ε σ α} (h : Ends m Q E s) (hQ : ∀ a t, Q a t → R a t)
    (hE : ∀ e t, E e t → F e t) : Ends m R F s := by
  unfold Ends at h ⊢
  cases hm : m s with
  | ok a t =>
    rw [hm] at h
    exact hQ a t h
  | error e t =>
    rw [hm] at h
    exact hE e t h

end Ong.Program
