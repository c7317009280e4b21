import Mathlib.Data.List.Basic

/-!
# Operations that are prepared, then committed or undone

A list of operations is prepared in order.  Preparing an operation sets its fields, which its
rollback reads to undo it.  When a preparation fails the operations after it keep their initial
fields; then every operation is rolled back, prepared or not, in the order of the list.

## Main results

* `prepareAll_owes`: after the preparations, the state differs from the first one by what the
  operations have to undo
* `rollbackAll_owes`: after the rollbacks, by nothing
-/

namespace Ong.Undo

variable {Op φ σ τ : Type*} (prepare : Op → σ → Bool × φ × σ) (initial : φ)
  (rollback : Op → φ → τ → τ)

/-- The preparations, up to the first that fails, with the fields of all the operations. -/
def prepareAll : List Op → σ → Bool × List (Op × φ) × σ
  | [], s => (true, [], s)
  | op :: ops, s =>
    match prepare op s with
    | (true, f, s) =>
      let (ok, prepared, s) := prepareAll ops s
      (ok, (op, f) :: prepared, s)
    | (false, f, s) => (false, (op, f) :: ops.map fun op => (op, initial), s)

def rollbackAll : List (Op × φ) → τ → τ
  | [], s => s
  | (op, f) :: ops, s => rollbackAll ops (rollback op f s)

/-- `C` holds before each preparation, the one that fails included. -/
def PreparesAlong (C : σ → Op → Prop) : List Op → σ → Prop
  | [], _ => True
  | op :: ops, s =>
    C s op ∧ ((prepare op s).1 = true → PreparesAlong C ops (prepare op s).2.2)

/-- `D` holds before each rollback. -/
def RollsBackAlong (D : τ → Op → φ → Prop) : List (Op × φ) → τ → Prop
  | [], _ => True
  | (op, f) :: ops, s => D s op f ∧ RollsBackAlong D ops (rollback op f s)

variable {prepare initial rollback}

theorem prepareAll_cons_of_fails {op : Op} {s : σ} (h : (prepare op s).1 = false)
    (ops : List Op) :
    prepareAll prepare initial (op :: ops) s =
      (false, (op, (prepare op s).2.1) :: ops.map fun op => (op, initial), (prepare op s).2.2) := by
  rw [prepareAll]
  generalize prepare op s = p at h
  obtain ⟨ok, f, t⟩ := p
  cases h
  rfl

theorem prepareAll_cons_of_succeeds {op : Op} {s : σ} (h : (prepare op s).1 = true)
    (ops : List Op) :
    prepareAll prepare initial (op :: ops) s =
      ((prepareAll prepare initial ops (prepare op s).2.2).1,
        (op, (prepare op s).2.1) :: (prepareAll prepare initial ops (prepare op s).2.2).2.1,
        (prepareAll prepare initial ops (prepare op s).2.2).2.2) := by
  rw [prepareAll]
  generalize prepare op s = p at h ⊢
  obtain ⟨ok, f, t⟩ := p
  cases h
  rfl

section Owes

variable (Owes : List (Op × φ) → σ → Prop) {C : σ → Op → Prop} {s : σ} {done : List (Op × φ)}
  {ops : List Op}

theorem owes_initial (h : ∀ op done s, Owes done s → Owes (done ++ [(op, initial)]) s)
    (ops : List Op) (hs : Owes done s) : Owes (done ++ ops.map fun op => (op, initial)) s := by
  induction ops generalizing done with
  | nil => simpa using hs
  | cons op ops ih =>
    have := ih (h op done s hs)
    rwa [List.append_assoc] at this

/-- **What the preparations owe**: when each of them adds what its operation can undo, they lead to
a state that differs from the first one by what the operations can undo. -/
theorem prepareAll_owes (done : List (Op × φ))
    (hinitial : ∀ op done s, Owes done s → Owes (done ++ [(op, initial)]) s)
    (hprepare : ∀ op done s, Owes done s → C s op →
      Owes (done ++ [(op, (prepare op s).2.1)]) (prepare op s).2.2) (hs : Owes done s) (h : PreparesAlong prepare C ops s) :
    Owes (done ++ (prepareAll prepare initial ops s).2.1)
      (prepareAll prepare initial ops s).2.2 := by
  induction ops generalizing done s with
  | nil => simpa [prepareAll] using hs
  | cons op ops ih =>
    obtain ⟨hC, hops⟩ := h
    have hop := hprepare op done s hs hC
    by_cases hok : (prepare op s).1 = true
    · rw [prepareAll_cons_of_succeeds hok]
      have := ih _ hop (hops hok)
      rwa [List.append_assoc] at this
    · rw [prepareAll_cons_of_fails (Bool.eq_false_iff.mpr hok)]
      have := owes_initial Owes hinitial ops hop
      rwa [List.append_assoc] at this

end Owes

/-- **The rollbacks pay**: when each of them undoes what its operation owes, the last one leaves
nothing to undo. -/
theorem rollbackAll_owes (Owes : List (Op × φ) → τ → Prop) {D : τ → Op → φ → Prop}
    (hrollback : ∀ op f ops s, Owes ((op, f) :: ops) s → D s op f → Owes ops (rollback op f s))
    {ops : List (Op × φ)} {s : τ} (hs : Owes ops s) (h : RollsBackAlong rollback D ops s) :
    Owes [] (rollbackAll rollback ops s) := by
  induction ops generalizing s with
  | nil => exact hs
  | cons p ops ih => exact ih (hrollback p.1 p.2 ops s hs h.1) h.2

end Ong.Undo
