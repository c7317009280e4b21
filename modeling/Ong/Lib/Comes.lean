import Ong.Lib.Run

/-!
# What a component that runs by itself comes to

A component with one event runs by itself.  When a condition holds in every state of its run, it
comes to a state with a property.

## Main results

* `Comes.next`, `Comes.trans`: one step, and one run after the other
* `always_of_exec_none`: a run that ends says what always holds
-/

namespace Ong.Run

variable {σ : Type*} (step : σ → Unit → Option σ)

/-- Every step of the run from `s` starts in a state with `C`. -/
def Always (C : σ → Prop) (s : σ) : Prop :=
  ∀ n, Along step (fun s _ => C s) s (List.replicate n ())

/-- If `C` always holds, the run from `s` comes to a state with `P`. -/
def Comes (C P : σ → Prop) (s : σ) : Prop :=
  Always step C s → ∃ n t, exec step s (List.replicate n ()) = some t ∧ P t

variable {step} {C P Q : σ → Prop} {s t : σ}

theorem Always.next (h : Always step C s) (ht : step s () = some t) : C s ∧ Always step C t :=
  ⟨(h 1 t ht).1, fun n => (h (n + 1) t ht).2⟩

theorem Always.exec (h : Always step C s) {n : Nat}
    (ht : exec step s (List.replicate n ()) = some t) : Always step C t := by
  intro m
  have hall := h (n + m)
  rw [← List.replicate_append_replicate] at hall
  exact along_append_right hall ht

theorem Comes.now (h : P s) : Comes step C P s := fun _ => ⟨0, s, rfl, h⟩

theorem Comes.next (ht : step s () = some t) (h : C s → Comes step C P t) : Comes step C P s := by
  intro halways
  obtain ⟨hs, hnext⟩ := halways.next ht
  obtain ⟨n, u, hu, hP⟩ := h hs hnext
  exact ⟨n + 1, u, by rw [List.replicate_succ, exec_cons, ht]; exact hu, hP⟩

theorem Comes.trans (h : Comes step C P s) (hPQ : ∀ t, P t → Comes step C Q t) :
    Comes step C Q s := by
  intro halways
  obtain ⟨n, t, ht, hP⟩ := h halways
  obtain ⟨m, u, hu, hQ⟩ := hPQ t hP (halways.exec ht)
  refine ⟨n + m, u, ?_, hQ⟩
  rw [← List.replicate_append_replicate, exec_append ht]
  exact hu

/-- What holds along a run that has ended holds however long it goes on. -/
theorem always_of_exec_none {n : Nat} (hend : exec step s (List.replicate n ()) = none)
    (h : Along step (fun s _ => C s) s (List.replicate n ())) : Always step C s := by
  induction n generalizing s with
  | zero => cases hend
  | succ n ih =>
    rintro (_ | m)
    · trivial
    · intro t ht
      obtain ⟨hs, hnext⟩ := h t ht
      rw [List.replicate_succ, exec_cons, ht] at hend
      exact ⟨hs, ih hend hnext m⟩

end Ong.Run
