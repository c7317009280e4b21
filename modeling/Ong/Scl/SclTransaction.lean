import Ong.Lib.Undo
import Ong.Scl.TransientOps

/-!
# Transactions

`execute` prepares the transient operations, modifies the storage, then lets the operations finish;
when a preparation or the storage fails, it rolls all the operations back.
-/

namespace Ong.Scl

structure SclTransaction where
  modifications : List Modification := []
  transientOps : List TransientOp := []
  deriving DecidableEq

/-- What is outside of a transaction and may fail: the calls of each preparation, and the storage
when it runs the modifications. -/
structure Faults where
  prepare : List Bool := []
  batchModify : Bool := false

/-- The state of the SCL. -/
structure World where
  storage : Storage
  volatile : Volatile

/-- What `execute` leaves; `executed` says that the modifications are in the storage. -/
structure Execution where
  executed : Bool
  storage : Storage
  volatile : Volatile

namespace SclTransaction

variable (config : SclConfig) (it : IterationOrder)

/-- The `postCommit` calls, up to the first that throws. -/
def postCommitAll : List (TransientOp × Fields) → Volatile → Volatile
  | [], v => v
  | (op, f) :: ops, v =>
    match op.postCommit f v with
    | none => v
    | some v => postCommitAll ops v

/-- The preparations of all the operations. -/
def prepareAll (faults : Faults) (storage : Storage) (t : SclTransaction) (v : Volatile) :
    Bool × List (TransientOp × Fields) × Preparation :=
  Undo.prepareAll (TransientOp.prepare config it storage) {} t.transientOps
    ⟨faults.prepare, t.modifications, v⟩

/-- `rollback()`. -/
def rollbackAll (ops : List (TransientOp × Fields)) (v : Volatile) : Volatile :=
  Undo.rollbackAll (TransientOp.rollback config it) ops v

/-- The modified storage, when all the preparations return and the storage runs the
modifications. -/
def commit (faults : Faults) (storage : Storage) (t : SclTransaction) (v : Volatile) :
    Option Storage :=
  let (prepared, _, s) := t.prepareAll config it faults storage v
  if prepared ∧ ¬ faults.batchModify then batchModify storage s.modifications else none

def execute (faults : Faults) (storage : Storage) (t : SclTransaction) (v : Volatile) : Execution :=
  let (_, ops, s) := t.prepareAll config it faults storage v
  match t.commit config it faults storage v with
  | some storage => ⟨true, storage, postCommitAll ops s.volatile⟩
  | none => ⟨false, storage, rollbackAll config it ops s.volatile⟩

/-- The state after `execute`. -/
def run (faults : Faults) (t : SclTransaction) (w : World) : World :=
  let e := t.execute config it faults w.storage w.volatile
  ⟨e.storage, e.volatile⟩

variable {config it} {faults : Faults} {storage : Storage} {v : Volatile}

theorem execute_of_failed {t : SclTransaction}
    (h : (t.execute config it faults storage v).executed = false) :
    t.execute config it faults storage v = ⟨false, storage,
      rollbackAll config it (t.prepareAll config it faults storage v).2.1
        (t.prepareAll config it faults storage v).2.2.volatile⟩ := by
  unfold execute at h ⊢
  generalize t.commit config it faults storage v = committed at h ⊢
  cases committed with
  | none => rfl
  | some _ => cases h

theorem batchModify_of_executed {t : SclTransaction}
    (h : (t.execute config it faults storage v).executed = true) : faults.batchModify = false := by
  unfold execute commit at h
  dsimp only at h
  split at h
  · next hcommit =>
    rw [Option.ite_none_right_eq_some] at hcommit
    exact Bool.eq_false_iff.mpr hcommit.1.2
  · cases h

/-! ## Transactions with one operation -/

theorem prepareAll_single (ms : List Modification) (op : TransientOp) :
    prepareAll config it faults storage ⟨ms, [op]⟩ v =
      ((op.prepare config it storage ⟨faults.prepare, ms, v⟩).1,
        [(op, (op.prepare config it storage ⟨faults.prepare, ms, v⟩).2.1)],
        (op.prepare config it storage ⟨faults.prepare, ms, v⟩).2.2) := by
  unfold prepareAll
  by_cases h : (op.prepare config it storage ⟨faults.prepare, ms, v⟩).1 = true
  · rw [Undo.prepareAll_cons_of_succeeds h, h]
    rfl
  · rw [Bool.not_eq_true] at h
    rw [Undo.prepareAll_cons_of_fails h, h]
    rfl

theorem postCommitAll_single (op : TransientOp) (f : Fields) :
    postCommitAll [(op, f)] v = (op.postCommit f v).getD v := by
  unfold postCommitAll
  cases op.postCommit f v <;> rfl

/-- **A transaction with one operation** either commits, its preparation having returned, or leaves
the storage as it is and rolls the operation back. -/
theorem execute_single (ms : List Modification) (op : TransientOp) {s : Bool × Fields × Preparation}
    (hs : op.prepare config it storage ⟨faults.prepare, ms, v⟩ = s) :
    (∃ storage', s.1 = true ∧ batchModify storage s.2.2.modifications = some storage' ∧
      execute config it faults storage ⟨ms, [op]⟩ v =
        ⟨true, storage', (op.postCommit s.2.1 s.2.2.volatile).getD s.2.2.volatile⟩) ∨
    ((s.1 = false ∨ faults.batchModify = true ∨
        batchModify storage s.2.2.modifications = none) ∧
      execute config it faults storage ⟨ms, [op]⟩ v =
        ⟨false, storage, op.rollback config it s.2.1 s.2.2.volatile⟩) := by
  unfold execute commit
  rw [prepareAll_single, hs]
  dsimp only
  split
  · next storage' hcommit =>
    rw [Option.ite_none_right_eq_some] at hcommit
    obtain ⟨⟨hprepared, -⟩, hmodify⟩ := hcommit
    refine .inl ⟨storage', hprepared, hmodify, ?_⟩
    rw [postCommitAll_single]
  · next hcommit =>
    refine .inr ⟨?_, rfl⟩
    rw [ite_eq_right_iff] at hcommit
    by_cases hprepared : s.1 = true
    · by_cases hfault : faults.batchModify = true
      · exact .inr (.inl hfault)
      · exact .inr (.inr (hcommit ⟨hprepared, hfault⟩))
    · exact .inl (Bool.eq_false_iff.mpr hprepared)

end SclTransaction

end Ong.Scl
