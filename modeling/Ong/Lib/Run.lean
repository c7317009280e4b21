import Mathlib.Data.Option.Basic
import Mathlib.Data.List.Basic

/-!
# Runs of a guarded step function

A component is an executable step function `step : σ → ε → Option σ`: `step s e` is `some t` when
the event `e` can happen in `s`, and `none` otherwise.  One definition serves the replay of a
concrete schedule and the proofs about every schedule.

## Main results

* `visits_of_along`: the invariant rule, under a condition on the steps
* `visits_iff_along`: the same condition read back from the property, when a step that breaks the
  condition also breaks the property
-/

namespace Ong.Run

variable {σ ε : Type*} (step : σ → ε → Option σ)

/-- Replay of the events from `s`; `none` when one of them cannot happen. -/
def exec : σ → List ε → Option σ
  | s, [] => some s
  | s, e :: es => (step s e).bind fun t => exec t es

/-- Every transition taken by the run of the events from `s` meets `C`. -/
def Along (C : σ → ε → Prop) : σ → List ε → Prop
  | _, [] => True
  | s, e :: es => ∀ t, step s e = some t → C s e ∧ Along C t es

/-- `P` holds in every state of the run of the events from `s`. -/
def Visits (P : σ → Prop) : σ → List ε → Prop
  | s, [] => P s
  | s, e :: es => P s ∧ ∀ t, step s e = some t → Visits P t es

variable {step} {es₁ es₂ : List ε}

instance decidableAlong {C : σ → ε → Prop} [∀ s e, Decidable (C s e)] :
    ∀ (s : σ) (es : List ε), Decidable (Along step C s es)
  | _, [] => isTrue trivial
  | s, e :: es =>
    match h : step s e with
    | none => isTrue fun t ht => by simp [h] at ht
    | some t =>
      have : Decidable (Along step C t es) := decidableAlong t es
      decidable_of_iff (C s e ∧ Along step C t es) (by simp [Along, h])

instance decidableVisits {P : σ → Prop} [∀ s, Decidable (P s)] :
    ∀ (s : σ) (es : List ε), Decidable (Visits step P s es)
  | s, [] => inferInstanceAs (Decidable (P s))
  | s, e :: es =>
    match h : step s e with
    | none => decidable_of_iff (P s) (by simp [Visits, h])
    | some t =>
      have : Decidable (Visits step P t es) := decidableVisits t es
      decidable_of_iff (P s ∧ Visits step P t es) (by simp [Visits, h])

theorem exec_cons (s : σ) (e : ε) (es : List ε) :
    exec step s (e :: es) = (step s e).bind fun t => exec step t es := rfl

theorem visits_head {P : σ → Prop} {s : σ} {es : List ε} (h : Visits step P s es) : P s := by
  cases es with
  | nil => exact h
  | cons e es => exact h.1

theorem visits_mono {P Q : σ → Prop} (hPQ : ∀ s, P s → Q s) :
    ∀ {es : List ε} {s : σ}, Visits step P s es → Visits step Q s es
  | [], s, h => hPQ s h
  | _ :: _, s, h => ⟨hPQ s h.1, fun t ht => visits_mono hPQ (h.2 t ht)⟩

theorem visits_exec {P : σ → Prop} {es : List ε} {s t : σ} (h : Visits step P s es)
    (ht : exec step s es = some t) : P t := by
  induction es generalizing s with
  | nil =>
    cases ht
    exact h
  | cons e es ih =>
    obtain ⟨u, hu, hes⟩ := Option.bind_eq_some_iff.mp ht
    exact ih (h.2 u hu) hes

theorem along_of_forall {C : ε → Prop} {es : List ε} {s : σ} (h : ∀ e ∈ es, C e) :
    Along step (fun _ e => C e) s es := by
  induction es generalizing s with
  | nil => trivial
  | cons e es ih =>
    intro t _
    exact ⟨h e List.mem_cons_self, ih fun e he => h e (List.mem_cons_of_mem _ he)⟩

theorem along_append_right {C : σ → ε → Prop} {s t : σ} (h : Along step C s (es₁ ++ es₂))
    (ht : exec step s es₁ = some t) : Along step C t es₂ := by
  induction es₁ generalizing s with
  | nil =>
    cases ht
    exact h
  | cons e es₁ ih =>
    obtain ⟨u, hu, hes⟩ := Option.bind_eq_some_iff.mp ht
    exact ih (h u hu).2 hes

theorem along_append_left {C : σ → ε → Prop} {s : σ} (h : Along step C s (es₁ ++ es₂)) :
    Along step C s es₁ := by
  induction es₁ generalizing s with
  | nil => trivial
  | cons e es₁ ih => exact fun t ht => ⟨(h t ht).1, ih (h t ht).2⟩

theorem exec_append {s t : σ} (h : exec step s es₁ = some t) :
    exec step s (es₁ ++ es₂) = exec step t es₂ := by
  induction es₁ generalizing s with
  | nil =>
    cases h
    rfl
  | cons e es₁ ih =>
    obtain ⟨u, hu, hes⟩ := Option.bind_eq_some_iff.mp h
    rw [List.cons_append, exec_cons, hu, Option.bind_some, ih hes]

section Rules

variable {I P : σ → Prop} {C : σ → ε → Prop}

variable {es : List ε} {s : σ}

/-- **The invariant rule**: what a step that meets the condition preserves holds in every state of
a run whose steps all meet it. -/
theorem visits_of_along (hI : ∀ s e t, I s → C s e → step s e = some t → I t) (hs : I s)
    (h : Along step C s es) : Visits step I s es := by
  induction es generalizing s with
  | nil => exact hs
  | cons e es ih =>
    refine ⟨hs, fun t ht => ?_⟩
    obtain ⟨hC, hes⟩ := h t ht
    exact ih (hI s e t hs hC ht) hes

/-- The invariant rule for the transitions: what a step that meets the condition has, and the
invariant it preserves, hold all along a run whose steps meet it. -/
theorem along_of_invariant {Q : σ → ε → Prop}
    (hI : ∀ s e t, I s → C s e → step s e = some t → Q s e ∧ I t) (hs : I s)
    (h : Along step C s es) : Along step Q s es := by
  induction es generalizing s with
  | nil => trivial
  | cons e es ih =>
    intro t ht
    obtain ⟨hC, hes⟩ := h t ht
    obtain ⟨hQ, hIt⟩ := hI s e t hs hC ht
    exact ⟨hQ, ih hIt hes⟩

/-- When a step that breaks the condition, of those that the run may take, leads to a state without
the property, the condition holds along every run that keeps the property. -/
theorem along_of_visits {E : σ → ε → Prop} (hI : ∀ s e t, I s → C s e → step s e = some t → I t)
    (hC : ∀ s e t, I s → E s e → step s e = some t → P t → C s e) (hs : I s)
    (hE : Along step E s es) (h : Visits step P s es) : Along step C s es := by
  induction es generalizing s with
  | nil => trivial
  | cons e es ih =>
    intro t ht
    obtain ⟨he, hes⟩ := hE t ht
    have hCe : C s e := hC s e t hs he ht (visits_head (h.2 t ht))
    exact ⟨hCe, ih (hI s e t hs hCe ht) hes (h.2 t ht)⟩

/-- **The exact condition of a run**: when the invariant gives the property and a step that
breaks the condition leads to a state without the property, the property holds all along a run
exactly when the condition does. -/
theorem visits_iff_along (hP : ∀ s, I s → P s) (hI : ∀ s e t, I s → C s e → step s e = some t → I t)
    (hC : ∀ s e t, I s → step s e = some t → P t → C s e) (hs : I s) :
    Visits step P s es ↔ Along step C s es :=
  ⟨along_of_visits (E := fun _ _ => True) hI (fun s e t hs _ => hC s e t hs) hs
      (along_of_forall (C := fun _ => True) fun _ _ => trivial),
    fun h => visits_mono hP (visits_of_along hI hs h)⟩

end Rules

end Ong.Run
